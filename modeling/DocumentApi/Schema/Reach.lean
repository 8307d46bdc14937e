import DocumentApi.Schema.Basic

/-!
# Reachable types

`reach` collects the types that references lead to, directly or through the fields and arguments of
others, each once: a type comes before those that its fields lead to.

A reference leads to a type only if it is one of finitely many (`mem_references`), so the search ends.
-/

namespace DocumentApi

/-- The type that a reference stands for in a schema. -/
def Registry.schemaType? (r : Registry) (types : TypeCache) (spelling : Spelling) (t : TypeRef) :
    Option SchemaType :=
  (r.bodyOf? types t).bind (SchemaType.ofBody? spelling)

/-- The references that may lead to a type of a schema. -/
def Registry.references (r : Registry) (types : TypeCache) : List TypeRef :=
  [.sortDirection, .success] ++ types.enums.map (fun entry => .enum entry.1) ++
    types.shapes.map (fun entry => .model entry.1) ++
    r.models.flatMap fun entry => entry.2.fields.map fun f => .conditions entry.1 f.name

theorem mem_references {r : Registry} {types : TypeCache} {spelling : Spelling} {t : TypeRef}
    {s : SchemaType} (h : r.schemaType? types spelling t = some s) : t ∈ r.references types := by
  have named : ∀ {α : Type} {table : Table α} {key : String} {a : α},
      Table.find? table key = some a → (key, a) ∈ table := by
    intro α table key a
    induction table with
    | nil => simp [Table.find?]
    | cons entry table ih =>
      obtain ⟨name, b⟩ := entry
      by_cases e : name = key
      · simp only [Table.find?, e, if_true, Option.some.injEq]
        rintro rfl
        exact List.mem_cons_self
      · simp only [Table.find?, e, if_false]
        exact fun h => List.mem_cons_of_mem _ (ih h)
  unfold Registry.schemaType? at h
  obtain ⟨body, found, described⟩ := Option.bind_eq_some_iff.1 h
  simp only [Registry.references, List.mem_append]
  cases t with
  | scalar s =>
    simp only [Registry.bodyOf?, Option.some.injEq] at found
    subst found
    simp [SchemaType.ofBody?] at described
  | enum name =>
    obtain ⟨members, mem, -⟩ := Option.map_eq_some_iff.1 found
    exact Or.inl (Or.inl (Or.inr (List.mem_map.2 ⟨_, named mem, rfl⟩)))
  | sortDirection => simp
  | success => simp
  | model key =>
    obtain ⟨shape, kept, -⟩ := Option.map_eq_some_iff.1 found
    obtain ⟨entry, first, -⟩ := Option.map_eq_some_iff.1 kept
    have same := List.find?_some first
    simp only [beq_iff_eq] at same
    exact Or.inl (Or.inr (List.mem_map.2 ⟨entry, List.mem_of_find?_eq_some first, by simp [same]⟩))
  | conditions owner field =>
    obtain ⟨shape, kept, -⟩ := Option.map_eq_some_iff.1 found
    obtain ⟨f, declared, -⟩ := Option.bind_eq_some_iff.1 kept
    unfold Registry.field? at declared
    split at declared
    · rename_i m registered
      have same := List.find?_some declared
      simp only [beq_iff_eq] at same
      refine Or.inr (List.mem_flatMap.2 ⟨_, named registered, List.mem_map.2 ⟨f, ?_, by simp [same]⟩⟩)
      exact List.mem_of_find?_eq_some declared
    · simp at declared
  | list _ => simp [Registry.bodyOf?] at found
  | optional _ => simp [Registry.bodyOf?] at found

/-- The count of references that were not followed. -/
def notSeen (references : List TypeRef) (seen : List (TypeRef × SchemaType)) : Nat :=
  (references.filter fun t => !(seen.map Prod.fst).contains t).length

/-- The types seen and those that pending references lead to. -/
def Registry.reach (r : Registry) (types : TypeCache) (spelling : Spelling)
    (seen : List (TypeRef × SchemaType)) : List TypeRef → List (TypeRef × SchemaType)
  | [] => seen
  | t :: rest =>
    if _known : t ∈ seen.map Prod.fst then r.reach types spelling seen rest
    else match _found : r.schemaType? types spelling t with
      | none => r.reach types spelling seen rest
      | some s => r.reach types spelling (seen ++ [(t, s)]) (s.parts ++ rest)
termination_by pending => (notSeen (r.references types) seen, pending.length)
decreasing_by
  · exact Prod.Lex.right _ (by simp)
  · exact Prod.Lex.right _ (by simp)
  · refine Prod.Lex.left _ _ (length_filter_lt (x := t) ?_ (mem_references _found) ?_ ?_)
    · intro other
      simp only [List.map_append, List.contains_eq_mem, List.mem_append, Bool.not_eq_true',
        decide_eq_false_iff_not]
      exact fun h h' => h (Or.inl h')
    · simpa using _known
    · simp

end DocumentApi
