import DocumentApi.Proofs.Types.Cache

/-!
# Building types

* `TypeAnswer`: what is said of a type while other types are begun. A failure means that the type is
  unbuildable or leads to one that is begun, and the latter says nothing once none is begun.
* `fieldsWhile_cons`, `fields_builds`, `pagination_builds`: the steps of `typeWhile`, each from what
  the steps within it answer.
* `typeWhile_builds`: every type is built when it is buildable, and fails as one of the schema
  otherwise.
* `typeOf_iff`: the same after any earlier requests for types.
-/

namespace DocumentApi

open TypeCache (Sound Builds)

theorem Registry.model?_eq_none {r : Registry} {model : String} (h : ¬ r.has model) :
    r.model? model = none := by
  unfold Registry.has Table.has at h
  unfold Registry.model?
  cases found : Table.find? r.models model with
  | none => rfl
  | some m => rw [found] at h; exact absurd rfl h

theorem declareEnum_builds {r : Registry} {c : TypeCache} {f : Field} {spec : EnumSpec}
    (hs : Sound r c) (hf : r.HasField f) (hspec : f.enumSpec = some spec) :
    Builds r (declareEnum spec) c fun answer c' =>
      c' = c.declare spec ∧ answer = .ok (c'.membersOf spec) :=
  ⟨TypeCache.le_declare c spec, hs.declare hf hspec, rfl, rfl⟩

theorem declareType_builds {r : Registry} {c : TypeCache} {f : Field} (hs : Sound r c)
    (hf : r.HasField f) : Builds r f.declareType c fun answer _ => answer = .ok () := by
  unfold Field.declareType
  split
  · rename_i spec _ hspec
    refine (declareEnum_builds hs hf hspec).bind (fun _ _ _ hs' _ => Builds.pure hs' rfl)
      fun _ _ h => ?_
    cases h.2
  · exact Builds.pure hs rfl

/-- What is said of the type of a key while other types are begun. -/
def TypeAnswer (r : Registry) (begun : List TypeKey) (key : TypeKey) :
    Except Error TypeShape → TypeCache → Prop
  | .ok shape, c =>
    ¬ r.Unbuildable key ∧ shape = r.shapeOf key ∧ c.shape? key = some shape
  | .error e, _ => e.kind? = some .schemaDefinition ∧
    (key.kind = .filter ∨ r.Unbuildable key ∨
      ∃ other ∈ begun, Relation.ReflTransGen r.Nests key other)

/-- A field of a type fails: it has no type, or the type that it nests fails. -/
def FieldFails (r : Registry) (begun : List TypeKey) (kind : TypeKind) (f : Field) : Prop :=
  f.Untyped kind ∨ ∃ nested, f.Nests kind nested ∧
    (r.Unbuildable nested ∨ ∃ other ∈ begun, Relation.ReflTransGen r.Nests nested other)

/-- A field of a type has a type, and what it nests is buildable. -/
def FieldHolds (r : Registry) (kind : TypeKind) (f : Field) : Prop :=
  ¬ f.Untyped kind ∧ ∀ nested, f.Nests kind nested → ¬ r.Unbuildable nested

/-- What is said of the fields of a type while other types are begun. -/
def FieldsAnswer (r : Registry) (begun : List TypeKey) (kind : TypeKind) (fields : List Field) :
    Except Error (List TypeField) → TypeCache → Prop
  | .ok types, _ => types = fields.map (fun f => f.toTypeField kind (f.typeIn kind)) ∧
    ∀ f ∈ fields, FieldHolds r kind f
  | .error e, _ => e.kind? = some .schemaDefinition ∧ ∃ f ∈ fields, FieldFails r begun kind f

section Fields

variable {r : Registry} {begun : List TypeKey} {key : TypeKey} {f : Field} {rest : List Field}
  {c : TypeCache}

/-- A field whose type is known, followed by the fields after it. -/
theorem fieldsWhile_rest {type : TypeRef} (hs : Sound r c) (htype : type = f.typeIn key.kind)
    (hf : FieldHolds r key.kind f) (ih : ∀ c, Sound r c →
      Builds r (fieldsWhile r begun key rest) c (FieldsAnswer r begun key.kind rest)) :
    Builds r (do
      let fields ← fieldsWhile r begun key rest
      pure (f.toTypeField key.kind type :: fields)) c
      (FieldsAnswer r begun key.kind (f :: rest)) := by
  subst htype
  refine (ih c hs).bind (fun types c' _ hs' ⟨htypes, hrest⟩ => Builds.pure hs' ⟨?_, ?_⟩)
    fun e _ ⟨he, g, hg, fails⟩ => ⟨he, g, List.mem_cons_of_mem _ hg, fails⟩
  · rw [htypes, List.map_cons]
  · intro g hg
    rcases List.mem_cons.mp hg with rfl | hg
    · exact hf
    · exact hrest g hg

/-- A field fails before the fields after it are looked at. -/
theorem fieldsWhile_fails {e : Error} {k : TypeRef → Step TypeCache (List TypeField)}
    (hs : Sound r c) (he : e.kind? = some .schemaDefinition) (hf : FieldFails r begun key.kind f) :
    Builds r (Step.fail e >>= k) c (FieldsAnswer r begun key.kind (f :: rest)) :=
  ⟨TypeCache.le_refl c, hs, he, f, List.mem_cons_self, hf⟩

/-- The type that a field nests is built, then the fields after it. -/
theorem fieldsWhile_nested {nested : TypeKey} {type : TypeRef} (hs : Sound r c)
    (hnests : f.Nests key.kind nested) (unique : ∀ other, f.Nests key.kind other → other = nested)
    (hkind : nested.kind ≠ .filter) (htype : type = f.typeIn key.kind)
    (hnested : ∀ c, Sound r c → Builds r (typeWhile r begun nested) c (TypeAnswer r begun nested))
    (ih : ∀ c, Sound r c →
      Builds r (fieldsWhile r begun key rest) c (FieldsAnswer r begun key.kind rest)) :
    Builds r (do
      let _ ← typeWhile r begun nested
      let type ← pure type
      let fields ← fieldsWhile r begun key rest
      pure (f.toTypeField key.kind type :: fields)) c
      (FieldsAnswer r begun key.kind (f :: rest)) := by
  refine (hnested c hs).bind (fun shape c' _ hs' ⟨buildable, _⟩ => ?_)
    fun e _ ⟨he, fault⟩ => ⟨he, f, List.mem_cons_self, Or.inr ⟨nested, hnests, ?_⟩⟩
  · refine fieldsWhile_rest hs' htype ⟨fun untyped => untyped.2 nested hnests, ?_⟩ ih
    intro other h
    rw [unique other h]
    exact buildable
  · exact fault.resolve_left hkind

/-- What the first of several fields contributes, from what the fields after it do. -/
theorem fieldsWhile_cons (hk : key.kind.OfFields) (hf : r.HasField f)
    (hmodel : ∀ model c, Sound r c →
      Builds r (typeWhile r begun ⟨model, key.kind⟩) c (TypeAnswer r begun ⟨model, key.kind⟩))
    (htarget : ∀ relation : Relation, ∀ c, Sound r c →
      Builds r (typeWhile r begun ⟨relation.target, .create⟩) c
        (TypeAnswer r begun ⟨relation.target, .create⟩))
    (ih : ∀ c, Sound r c →
      Builds r (fieldsWhile r begun key rest) c (FieldsAnswer r begun key.kind rest))
    (hs : Sound r c) : Builds r (fieldsWhile r begun key (f :: rest)) c
      (FieldsAnswer r begun key.kind (f :: rest)) := by
  have hfilter : key.kind ≠ .filter := by rcases hk with h | h | h <;> rw [h] <;> decide
  rw [fieldsWhile]
  refine (declareType_builds hs hf).bind (fun _ c' _ hs' _ => ?_) fun _ _ h => by cases h
  dsimp only
  cases shadow : f.plainType? with
  | some type =>
    have shadowed : f.Shadowed := Field.shadowed_iff.mpr (by rw [shadow]; rfl)
    exact fieldsWhile_rest hs' (by simp [Field.typeIn, shadow])
      ⟨fun h => h.1 shadowed, fun nested h => absurd shadowed h.not_shadowed⟩ ih
  | none =>
    have unshadowed := Field.not_shadowed_iff.mpr shadow
    by_cases he : f.embedding.isSome
    · rw [if_pos he]
      have nests := fun nested => @Field.nests_embedded_iff f key.kind nested shadow he
      cases name : f.embeddedName with
      | none =>
        refine fieldsWhile_fails hs' rfl (Or.inl ⟨unshadowed, fun nested h => ?_⟩)
        obtain ⟨model, hname, -⟩ := (nests nested).mp h
        rw [name] at hname; cases hname
      | some model =>
        have same : ∀ nested, f.Nests key.kind nested → nested = ⟨model, key.kind⟩ := by
          intro nested h
          obtain ⟨other, hname, -, rfl⟩ := (nests nested).mp h
          rw [name] at hname; cases hname; rfl
        by_cases hempty : model = ""
        · subst hempty
          refine fieldsWhile_fails hs' rfl (Or.inl ⟨unshadowed, fun nested h => ?_⟩)
          obtain ⟨other, hname, given, -⟩ := (nests nested).mp h
          rw [name] at hname; cases hname; exact given rfl
        have hnests := (nests _).mpr ⟨model, name, hempty, rfl⟩
        by_cases hhas : r.has model
        · dsimp only
          rw [if_neg (by simp [hempty, hhas])]
          exact fieldsWhile_nested hs' hnests same hfilter
            (by simp [Field.typeIn, shadow, he, name]) (hmodel model) ih
        · dsimp only
          rw [if_pos (by simp [hhas])]
          exact fieldsWhile_fails hs' rfl (Or.inr ⟨_, hnests, Or.inl
            (.of_unregistered (Registry.model?_eq_none hhas))⟩)
    · rw [if_neg he]
      have hnone : f.embedding = none := by simpa using he
      have nests := fun nested => @Field.nests_related_iff f key.kind nested shadow hnone
      cases relates : f.relation with
      | none =>
        refine fieldsWhile_fails hs' rfl (Or.inl ⟨unshadowed, fun nested h => ?_⟩)
        obtain ⟨-, -, relation, h, -⟩ := (nests nested).mp h
        rw [relates] at h; cases h
      | some relation =>
        dsimp only
        by_cases hinline : f.isRelation ∧ key.kind = .create
        · obtain ⟨inline, hcreate⟩ := hinline
          rw [if_pos (by simp [inline, hcreate])]
          have hnests := (nests _).mpr ⟨hcreate, inline, relation, relates, rfl⟩
          by_cases hhas : r.has relation.target
          · rw [if_pos hhas]
            refine fieldsWhile_nested hs' hnests (fun nested h => ?_) TypeKind.noConfusion
              (by simp [Field.typeIn, shadow, hnone, relates]) (htarget relation) ih
            obtain ⟨-, -, other, hother, rfl⟩ := (nests nested).mp h
            rw [relates] at hother; cases hother; rfl
          · rw [if_neg hhas]
            exact fieldsWhile_fails hs' rfl (Or.inr ⟨_, hnests, Or.inl
              (.of_unregistered (Registry.model?_eq_none hhas))⟩)
        · rw [if_neg (by simpa using hinline)]
          refine fieldsWhile_fails hs' rfl (Or.inl ⟨unshadowed, fun nested h => ?_⟩)
          obtain ⟨hcreate, inline, -⟩ := (nests nested).mp h
          exact hinline ⟨inline, hcreate⟩

end Fields

/-- The registered fields of a model are found when its definition is. -/
theorem Registry.fieldsOf_ok {r : Registry} {model : String} {d : Definition}
    (h : r.model? model = some d) : ∃ fields, r.fieldsOf model = .ok fields := by
  unfold Registry.model? at h
  unfold Registry.fieldsOf
  cases found : Table.find? r.models model with
  | none => rw [found] at h; cases h
  | some m => exact ⟨m.fields, rfl⟩

theorem Registry.fieldsFor_ok {r : Registry} {model : String} {d : Definition}
    (h : r.model? model = some d) (kind : TypeKind) :
    ∃ fields, r.fieldsFor model kind = .ok fields := by
  obtain ⟨fields, hf⟩ := Registry.fieldsOf_ok h
  cases kind <;>
    simp [Registry.fieldsFor, Registry.createFields, Registry.updateFields, Registry.outputFields,
      Registry.fieldsOfEmbedded, hf, bind, Except.bind, pure, Except.pure]

theorem Registry.scalarFields_ok {r : Registry} {model : String} {d : Definition}
    (h : r.model? model = some d) : ∃ fields, r.scalarFields model = .ok fields := by
  obtain ⟨fields, hf⟩ := Registry.fieldsOf_ok h
  simp [Registry.scalarFields, hf, bind, Except.bind, pure, Except.pure]

theorem Registry.mem_of_scalarFields {r : Registry} {model : String} {fields : List Field}
    {f : Field} (h : r.scalarFields model = .ok fields) (hf : f ∈ fields) :
    ∃ declared, r.fieldsOf model = .ok declared ∧ f ∈ declared := by
  unfold Registry.scalarFields at h
  cases declared : r.fieldsOf model with
  | error e => rw [declared] at h; cases h
  | ok all =>
    rw [declared] at h
    cases h
    exact ⟨all, rfl, (List.mem_filter.mp hf).1⟩

theorem filterField_builds {r : Registry} {c : TypeCache} {f : Field} (hs : Sound r c)
    (hf : r.HasField f) (model : String) : Builds r (filterField model f) c fun answer _ =>
      (∀ type, answer = .ok type →
        type = ⟨f.name, f.name, .optional (.conditions model f.name), none, .unset⟩) ∧
      ∀ e, answer = .error e → e.kind? = some .schemaDefinition := by
  refine (declareType_builds hs hf).bind (fun _ c' _ hs' _ => ?_) fun _ _ h => nomatch h
  split
  · exact Builds.fail hs' ⟨nofun, fun e h => by cases h; rfl⟩
  split
  · exact Builds.fail hs' ⟨nofun, fun e h => by cases h; rfl⟩
  · exact Builds.pure hs' ⟨fun type h => by cases h; rfl, nofun⟩

theorem filterFields_builds {r : Registry} {c : TypeCache} {fields : List Field} (hs : Sound r c)
    (hfields : ∀ f ∈ fields, r.HasField f) (model : String) :
    Builds r (Step.each (filterField model) fields) c fun answer _ =>
      (∀ types, answer = .ok types → types = fields.map fun f =>
        ⟨f.name, f.name, .optional (.conditions model f.name), none, .unset⟩) ∧
      ∀ e, answer = .error e → e.kind? = some .schemaDefinition := by
  induction fields generalizing c with
  | nil => exact Builds.pure hs ⟨fun types h => by cases h; rfl, nofun⟩
  | cons f rest ih =>
    refine (filterField_builds hs (hfields f List.mem_cons_self) model).bind
      (fun type c' _ hs' htype => ?_)
      fun e _ h => ⟨nofun, fun e' he => by cases he; exact h.2 e rfl⟩
    refine (ih hs' fun g hg => hfields g (List.mem_cons_of_mem _ hg)).bind
      (fun types c'' _ hs'' htypes => ?_)
      fun e _ h => ⟨nofun, fun e' he => by cases he; exact h.2 e rfl⟩
    refine Builds.pure hs'' ⟨fun all h => ?_, nofun⟩
    cases h
    rw [htype.1 type rfl, htypes.1 types rfl, List.map_cons]

/-- A type that has just been built is kept. -/
theorem keep_builds {r : Registry} {c : TypeCache} {begun : List TypeKey} {key : TypeKey}
    {shape : TypeShape} (hs : Sound r c) (hk : ¬ r.Unbuildable key)
    (hshape : shape = r.shapeOf key) :
    Builds r (do
      Step.modify fun cache => cache.keep key shape
      pure shape) c (TypeAnswer r begun key) := by
  subst hshape
  refine ⟨TypeCache.le_keep c key _, hs.keep hk, hk, rfl, ?_⟩
  show (c.keep key (r.shapeOf key)).shape? key = _
  rw [TypeCache.shape?_keep]
  cases found : c.shape? key with
  | none => rw [if_pos rfl]; rfl
  | some s => rw [(hs.shapes key s found).2]; rfl

section Keys

variable {r : Registry} {begun : List TypeKey} {model : String} {d : Definition} {c : TypeCache}

/-- A page nests the output type of its model only. -/
theorem page_buildable (registered : r.model? model = some d)
    (houtput : ¬ r.Unbuildable ⟨model, .output⟩) : ¬ r.Unbuildable ⟨model, .pagination⟩ := by
  refine Registry.not_unbuildable registered (fun h => ?_) fun nested h => ?_
  · rcases h.1 with h | h | h <;> cases h
  · cases h with
    | page => exact houtput
    | field hkind => rcases hkind with h | h | h <;> cases h

/-- A page is built from the output type of its model. -/
theorem pagination_builds (registered : r.model? model = some d)
    (ih : Builds r (typeWhile r (begun ++ [⟨model, .pagination⟩]) ⟨model, .output⟩) c
      (TypeAnswer r (begun ++ [⟨model, .pagination⟩]) ⟨model, .output⟩)) :
    Builds r (do
      let _ ← typeWhile r (begun ++ [⟨model, .pagination⟩]) ⟨model, .output⟩
      let shape ← pure (pageShape model)
      Step.modify fun cache => cache.keep ⟨model, .pagination⟩ shape
      pure shape) c (TypeAnswer r begun ⟨model, .pagination⟩) := by
  refine ih.bind (fun _ c' _ hs' ⟨buildable, _⟩ =>
    keep_builds hs' (page_buildable registered buildable) rfl)
    fun e _ ⟨he, fault⟩ => ⟨he, Or.inr ?_⟩
  have page : r.Nests ⟨model, .pagination⟩ ⟨model, .output⟩ := .page
  rcases fault.resolve_left TypeKind.noConfusion with h | ⟨other, hother, reach⟩
  · exact Or.inl (h.of_nests page)
  · rcases List.mem_append.mp hother with h | h
    · exact Or.inr ⟨other, h, .head page reach⟩
    · rw [List.mem_singleton.mp h] at reach
      exact Or.inl (.of_cycle page reach)

/-- The type of a filter or of a sort order nests nothing. -/
theorem leaf_buildable {kind : TypeKind} (registered : r.model? model = some d)
    (leaf : kind = .filter ∨ kind = .sort) : ¬ r.Unbuildable ⟨model, kind⟩ := by
  have unlike : ¬ kind.OfFields := by
    rintro (h | h | h) <;> rcases leaf with h' | h' <;> rw [h] at h' <;> cases h'
  refine Registry.not_unbuildable registered (fun h => unlike h.1) fun nested h => ?_
  cases h with
  | page => rcases leaf with h | h <;> cases h
  | field hkind => exact absurd hkind unlike

theorem filter_builds (hs : Sound r c) (registered : r.model? model = some d) :
    Builds r (do
      let shape ← filterShape r model
      Step.modify fun cache => cache.keep ⟨model, .filter⟩ shape
      pure shape) c (TypeAnswer r begun ⟨model, .filter⟩) := by
  obtain ⟨scalars, hscalars⟩ := Registry.scalarFields_ok registered
  have hfields : ∀ f ∈ scalars.filter Field.filterable, r.HasField f := fun f hf =>
    ⟨model, Registry.mem_of_scalarFields hscalars (List.mem_filter.mp hf).1⟩
  unfold filterShape
  rw [hscalars]
  refine Builds.bind (P := fun answer _ =>
      (∀ shape, answer = .ok shape → shape = r.shapeOf ⟨model, .filter⟩) ∧
      ∀ e, answer = .error e → e.kind? = some .schemaDefinition) ?_
    (fun shape c' _ hs' h => keep_builds hs' (leaf_buildable registered (Or.inl rfl)) (h.1 shape rfl))
    fun e _ h => ⟨h.2 e rfl, Or.inl rfl⟩
  refine (filterFields_builds hs hfields model).bind
    (fun types c' _ hs' h => Builds.pure hs' ⟨fun shape hshape => ?_, nofun⟩)
    fun e _ h => ⟨nofun, fun e' he => by cases he; exact h.2 e rfl⟩
  cases hshape
  rw [h.1 types rfl]
  simp [Registry.shapeOf, hscalars, Except.toOption, TypeKey.name]

theorem sort_builds (hs : Sound r c) (registered : r.model? model = some d) :
    Builds r (do
      let shape ← sortShape r model
      Step.modify fun cache => cache.keep ⟨model, .sort⟩ shape
      pure shape) c (TypeAnswer r begun ⟨model, .sort⟩) := by
  obtain ⟨scalars, hscalars⟩ := Registry.scalarFields_ok registered
  unfold sortShape
  rw [hscalars]
  refine keep_builds hs (leaf_buildable registered (Or.inr rfl)) ?_
  simp [Registry.shapeOf, hscalars, Except.toOption, TypeKey.name]

/-- A type with fields is built from the types that its fields nest. -/
theorem fields_builds {kind : TypeKind} (hs : Sound r c) (hk : kind.OfFields)
    (registered : r.model? model = some d) (ih : ∀ fields, (∀ f ∈ fields, r.HasField f) →
      ∀ c, Sound r c → Builds r (fieldsWhile r (begun ++ [⟨model, kind⟩]) ⟨model, kind⟩ fields) c
        (FieldsAnswer r (begun ++ [⟨model, kind⟩]) kind fields)) :
    Builds r (do
      let fields ← Step.ofExcept (r.fieldsFor model kind)
      let fields ← fieldsWhile r (begun ++ [⟨model, kind⟩]) ⟨model, kind⟩ fields
      let shape : TypeShape ← pure
        ⟨kind.typeName model, kind != .output, some (Registry.describe d kind), fields⟩
      Step.modify fun cache => cache.keep ⟨model, kind⟩ shape
      pure shape) c (TypeAnswer r begun ⟨model, kind⟩) := by
  obtain ⟨fields, hfields⟩ := Registry.fieldsFor_ok registered kind
  rw [hfields]
  have hdeclared : ∀ f ∈ fields, r.HasField f := fun f hf =>
    ⟨model, Registry.mem_of_fieldsFor hfields hf⟩
  refine (ih fields hdeclared c hs).bind (fun types c' _ hs' ⟨htypes, hold⟩ => keep_builds hs' ?_ ?_)
    fun e _ ⟨he, f, hf, fails⟩ => ⟨he, Or.inr ?_⟩
  · refine Registry.not_unbuildable registered ?_ fun nested h => ?_
    · rintro ⟨-, fields', hfields', f, hf, untyped⟩
      rw [hfields] at hfields'
      cases hfields'
      exact (hold f hf).1 untyped
    · cases h with
      | page => rcases hk with h | h | h <;> cases h
      | field _ hfields' hf nests =>
        rw [hfields] at hfields'
        cases hfields'
        exact (hold _ hf).2 nested nests
  · rw [htypes]
    rcases hk with rfl | rfl | rfl <;>
      simp [Registry.shapeOf, TypeKey.name, registered, hfields, Except.toOption]
  · rcases fails with untyped | ⟨nested, nests, h | ⟨other, hother, reach⟩⟩
    · exact Or.inl ⟨_, .refl, Or.inr (Or.inl ⟨hk, fields, hfields, f, hf, untyped⟩)⟩
    · exact Or.inl (h.of_nests (.field hk hfields hf nests))
    · have part : r.Nests ⟨model, kind⟩ nested := .field hk hfields hf nests
      rcases List.mem_append.mp hother with h | h
      · exact Or.inr ⟨other, h, .head part reach⟩
      · rw [List.mem_singleton.mp h] at reach
        exact Or.inl (.of_cycle part reach)

end Keys

/-- A type is built when it is buildable, unless it leads to one that is begun. -/
theorem typeWhile_builds (r : Registry) (begun : List TypeKey) (key : TypeKey) :
    ∀ c, Sound r c → Builds r (typeWhile r begun key) c (TypeAnswer r begun key) := by
  refine typeWhile.induct r
    (fun begun key => ∀ c, Sound r c → Builds r (typeWhile r begun key) c (TypeAnswer r begun key))
    (fun begun key fields => key.kind.OfFields → (∀ f ∈ fields, r.HasField f) → ∀ c, Sound r c →
      Builds r (fieldsWhile r begun key fields) c (FieldsAnswer r begun key.kind fields))
    ?_ ?_ ?_ begun key
  · rintro begun ⟨model, kind⟩ houtput hfields c hs
    rw [typeWhile]
    refine Step.Ends.state_bind ?_
    cases cached : c.shape? ⟨model, kind⟩ with
    | some shape => exact Builds.pure hs ⟨(hs.shapes _ _ cached).1, (hs.shapes _ _ cached).2, cached⟩
    | none =>
      dsimp only
      by_cases new : (⟨model, kind⟩ : TypeKey) ∈ begun
      · rw [dif_pos new]
        exact Builds.fail hs ⟨rfl, Or.inr (Or.inr ⟨_, new, .refl⟩)⟩
      rw [dif_neg new]
      cases registered : r.model? model with
      | none =>
        exact Builds.fail hs ⟨rfl, Or.inr (Or.inl (.of_unregistered registered))⟩
      | some d =>
        have fields := fun hk : kind.OfFields => fields_builds hs hk registered
          fun fields hfs c hs => hfields new d registered kind fields hk hfs c hs
        cases kind with
        | output => exact fields (Or.inl rfl)
        | create => exact fields (Or.inr (Or.inl rfl))
        | update => exact fields (Or.inr (Or.inr rfl))
        | pagination => exact pagination_builds registered (houtput new d registered c hs)
        | filter => exact filter_builds hs registered
        | sort => exact sort_builds hs registered
  · intro begun key _ _ c hs
    rw [fieldsWhile]
    exact Builds.pure hs ⟨rfl, fun f hf => absurd hf List.not_mem_nil⟩
  · intro begun key f rest ih hmodel htarget hk hfs c hs
    exact fieldsWhile_cons hk (hfs f List.mem_cons_self) hmodel htarget
      (ih hk fun g hg => hfs g (List.mem_cons_of_mem _ hg)) hs

/-- The cache that requests for types leave, one after another, whatever each of them answers. -/
def TypeCache.after (r : Registry) (keys : List TypeKey) : TypeCache :=
  keys.foldl (fun c key => (typeOf r key c).2) {}

theorem TypeCache.sound_after (r : Registry) (keys : List TypeKey) : Sound r (after r keys) := by
  have kept : ∀ c, Sound r c → Sound r (keys.foldl (fun c key => (typeOf r key c).2) c) := by
    induction keys with
    | nil => exact fun c hs => hs
    | cons key keys ih => exact fun c hs => ih _ (typeWhile_builds r [] key c hs).2.1
  exact kept {} (sound_empty r)

/-- A type is built exactly when nothing that it leads to is missing, untyped or a part of itself.
Otherwise the failure is one of the schema. Requests that came before, with their failures, make no
difference. Filters are left out: they also fail for their operators. -/
theorem typeOf_iff (r : Registry) (earlier : List TypeKey) (key : TypeKey)
    (hkind : key.kind ≠ .filter) :
    ((∃ e c, typeOf r key (.after r earlier) = (.error e, c) ∧ e.kind? = some .schemaDefinition) ↔
      r.Unbuildable key) ∧
    ((∃ c, typeOf r key (.after r earlier) = (.ok (r.shapeOf key), c)) ↔ ¬ r.Unbuildable key) := by
  obtain ⟨-, -, answer⟩ := typeWhile_builds r [] key _ (TypeCache.sound_after r earlier)
  unfold typeOf
  generalize typeWhile r [] key (.after r earlier) = built at answer ⊢
  obtain ⟨e | shape, c⟩ := built
  · have unbuildable : r.Unbuildable key := by
      rcases answer.2 with h | h | ⟨other, hother, -⟩
      · exact absurd h hkind
      · exact h
      · exact absurd hother List.not_mem_nil
    refine ⟨⟨fun _ => unbuildable, fun _ => ⟨e, c, rfl, answer.1⟩⟩, ⟨?_, fun h => ?_⟩⟩
    · rintro ⟨c', h⟩; cases h
    · exact absurd unbuildable h
  · obtain ⟨buildable, rfl, -⟩ := answer
    refine ⟨⟨?_, fun h => absurd h buildable⟩, ⟨fun _ => buildable, fun _ => ⟨c, rfl⟩⟩⟩
    rintro ⟨e, c', h, -⟩; cases h

/-- Two models that embed each other: a team has members, and each member leads a team. -/
def teamsAndMembers : Registry where
  definitions :=
    [⟨"Team", [], .all, false, "", false, none⟩, ⟨"Member", [], .all, false, "", true, none⟩]
  models :=
    [("Team", ⟨0, [
        { name := "members", storageType := "array", embedding := some (.named "Member"),
          many := true }]⟩),
      ("Member", ⟨1, [
        { name := "leads", storageType := "object", embedding := some (.named "Team") }]⟩)]

/-- A failed request for one of two models that embed each other leaves the other one as it is. -/
theorem typeOf_teamsAndMembers :
    (⟨"Team", .create⟩ : TypeKey).kind ≠ .filter ∧ ∃ e c,
      typeOf teamsAndMembers ⟨"Team", .create⟩ (.after teamsAndMembers [⟨"Member", .create⟩]) =
        (.error e, c) ∧ e.kind? = some .schemaDefinition := by
  refine ⟨TypeKind.noConfusion, (typeOf_iff _ _ _ TypeKind.noConfusion).1.mpr ?_⟩
  have member : teamsAndMembers.Nests ⟨"Team", .create⟩ ⟨"Member", .create⟩ := by
    refine .field (Or.inr (Or.inl rfl)) rfl List.mem_cons_self ?_
    exact .embedded (by simp [Field.Shadowed, scalarOfStorage?]) rfl (by decide)
  have team : teamsAndMembers.Nests ⟨"Member", .create⟩ ⟨"Team", .create⟩ := by
    refine .field (Or.inr (Or.inl rfl)) rfl List.mem_cons_self ?_
    exact .embedded (by simp [Field.Shadowed, scalarOfStorage?]) rfl (by decide)
  exact .of_cycle member (.single team)

end DocumentApi
