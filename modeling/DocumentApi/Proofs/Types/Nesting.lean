import DocumentApi.Types.Synthesis
import Mathlib.Logic.Relation

/-!
# Types made of other types

An output or input type is made of the types of the models that its fields embed, a create input
also of the create inputs of related models, and a page of the output type of its model.

* `Field.Nests`: the type that a field takes from another model. An override, an enum or a scalar
  storage type comes first, so a field that has one nests nothing.
* `Registry.Nests`: one type is made of another one. Fields that are excluded from a kind nest
  nothing in it.
* `Registry.Unbuildable`: what a type leads to has a model that is not registered, a field without a
  type or a cycle. A type without such a fault of its own is buildable when all types that it is
  directly made of are (`not_unbuildable`).
* `Registry.shapeOf`: the type that belongs to a key, whenever it can be built.
-/

namespace DocumentApi

namespace Field

/-- The type of the field is given without any model. -/
def Shadowed (f : Field) : Prop :=
  f.typeOverride.isSome ∨ f.enumSpec.isSome ∨ (scalarOfStorage? f.storageType).isSome

theorem shadowed_iff {f : Field} : f.Shadowed ↔ f.plainType?.isSome := by
  unfold Shadowed plainType?
  cases f.typeOverride <;> cases f.enumSpec <;> simp

theorem not_shadowed_iff {f : Field} : ¬ f.Shadowed ↔ f.plainType? = none := by
  rw [shadowed_iff]; simp

/-- The type that is given without any model is made of a scalar, or is the enum of the field. -/
theorem plainType?_core {f : Field} {type : TypeRef} (h : f.plainType? = some type) :
    (∃ s, type.core = .scalar s) ∨ ∃ spec, f.typeOverride = none ∧ f.enumSpec = some spec ∧
      type = .enum spec.name := by
  have hdeclared : ∀ t : DeclaredType, ∃ s, t.ref.core = .scalar s := by
    intro t
    induction t with
    | scalar s => exact ⟨s, rfl⟩
    | list item ih => exact ih
  unfold plainType? at h
  split at h
  · cases h
    exact Or.inl (hdeclared _)
  · rename_i spec hover hspec
    cases h
    exact Or.inr ⟨spec, hover, hspec, rfl⟩
  · obtain ⟨s, -, rfl⟩ := Option.map_eq_some_iff.mp h
    exact Or.inl ⟨s, rfl⟩

/-- `f.Nests kind key`: in a type of the kind, the field has the type `key` or a list of it. -/
inductive Nests (f : Field) : TypeKind → TypeKey → Prop
  | embedded {kind : TypeKind} {model : String} (shadow : ¬ f.Shadowed)
      (name : f.embeddedName = some model) (given : model ≠ "") : Nests f kind ⟨model, kind⟩
  | related {relation : Relation} (shadow : ¬ f.Shadowed) (plain : f.embedding = none)
      (relates : f.relation = some relation) (inline : f.isRelation) :
      Nests f .create ⟨relation.target, .create⟩

theorem Nests.not_shadowed {f : Field} {kind : TypeKind} {nested : TypeKey}
    (h : f.Nests kind nested) : ¬ f.Shadowed := by
  cases h with
  | embedded shadow | related shadow => exact shadow

/-- A field that embeds a model nests the type of that model, of the same kind. -/
theorem nests_embedded_iff {f : Field} {kind : TypeKind} {nested : TypeKey}
    (shadow : f.plainType? = none) (he : f.embedding.isSome) :
    f.Nests kind nested ↔
      ∃ model, f.embeddedName = some model ∧ model ≠ "" ∧ nested = ⟨model, kind⟩ := by
  constructor
  · rintro (⟨-, name, given⟩ | ⟨-, plain, -, -⟩)
    · exact ⟨_, name, given, rfl⟩
    · rw [plain] at he; cases he
  · rintro ⟨model, name, given, rfl⟩
    exact .embedded (not_shadowed_iff.mpr shadow) name given

/-- A field that embeds nothing nests the create input of the model that it relates to. -/
theorem nests_related_iff {f : Field} {kind : TypeKind} {nested : TypeKey}
    (shadow : f.plainType? = none) (he : f.embedding = none) :
    f.Nests kind nested ↔ kind = .create ∧ f.isRelation ∧
      ∃ relation, f.relation = some relation ∧ nested = ⟨relation.target, .create⟩ := by
  constructor
  · rintro (⟨-, name, -⟩ | ⟨-, -, relates, inline⟩)
    · unfold embeddedName at name
      rw [he] at name
      cases name
    · exact ⟨rfl, inline, _, relates, rfl⟩
  · rintro ⟨rfl, inline, relation, relates, rfl⟩
    exact .related (not_shadowed_iff.mpr shadow) he relates inline

/-- In a type of the kind, the field has no type: none is given and it refers to no model. -/
def Untyped (f : Field) (kind : TypeKind) : Prop :=
  ¬ f.Shadowed ∧ ∀ key, ¬ f.Nests kind key

/-- The type that the field has in a type of a kind. -/
def typeIn (f : Field) (kind : TypeKind) : TypeRef :=
  match f.plainType? with
  | some type => type
  | none =>
    if f.embedding.isSome then
      let nested : TypeRef := .model ⟨f.embeddedName.getD "", kind⟩
      if f.many then .list nested else nested
    else .list (.model ⟨(f.relation.map Relation.target).getD "", .create⟩)

/-- The type of a field that embeds a model. -/
theorem typeIn_embedded {f : Field} {model : String} {kind : TypeKind} (shadow : ¬ f.Shadowed)
    (name : f.embeddedName = some model) : f.embedding.isSome ∧
      f.typeIn kind = if f.many then .list (.model ⟨model, kind⟩) else .model ⟨model, kind⟩ := by
  have he : f.embedding.isSome := by
    unfold embeddedName at name
    cases hnone : f.embedding with
    | none => rw [hnone] at name; cases name
    | some e => rfl
  refine ⟨he, ?_⟩
  unfold typeIn
  rw [not_shadowed_iff.mp shadow, if_pos he, name]
  rfl

end Field

/-- The kinds whose types have a field for each field of the model. -/
def TypeKind.OfFields (kind : TypeKind) : Prop :=
  kind = .output ∨ kind = .create ∨ kind = .update

namespace Registry

variable {r : Registry} {key nested : TypeKey}

/-- `r.Nests key nested`: the type `key` is made of the type `nested`. -/
inductive Nests (r : Registry) : TypeKey → TypeKey → Prop
  | page {model : String} : Nests r ⟨model, .pagination⟩ ⟨model, .output⟩
  | field {model : String} {kind : TypeKind} {nested : TypeKey} {fields : List Field} {f : Field}
      (hkind : kind.OfFields) (hfields : r.fieldsFor model kind = .ok fields) (hf : f ∈ fields)
      (nests : f.Nests kind nested) : Nests r ⟨model, kind⟩ nested

/-- A field of the type has no type. -/
def HasUntyped (r : Registry) (key : TypeKey) : Prop :=
  key.kind.OfFields ∧ ∃ fields, r.fieldsFor key.model key.kind = .ok fields ∧
    ∃ f ∈ fields, f.Untyped key.kind

/-- The type leads to a model that is not registered, to a field without a type or to a cycle. -/
def Unbuildable (r : Registry) (key : TypeKey) : Prop :=
  ∃ reached, Relation.ReflTransGen r.Nests key reached ∧
    (r.model? reached.model = none ∨ r.HasUntyped reached ∨
      Relation.TransGen r.Nests reached reached)

theorem Unbuildable.of_nests (h : r.Nests key nested) (hn : r.Unbuildable nested) :
    r.Unbuildable key := by
  obtain ⟨reached, reach, fault⟩ := hn
  exact ⟨reached, .head h reach, fault⟩

theorem Unbuildable.of_unregistered (h : r.model? key.model = none) : r.Unbuildable key :=
  ⟨key, .refl, Or.inl h⟩

/-- A type that leads back to one that it is a part of is on a cycle. -/
theorem Unbuildable.of_cycle (h : r.Nests key nested)
    (back : Relation.ReflTransGen r.Nests nested key) : r.Unbuildable key :=
  ⟨key, .refl, Or.inr (Or.inr (.head' h back))⟩

/-- Without a fault of its own, a type is as buildable as the types that it is made of. A cycle
through the type itself would pass through one of those. -/
theorem not_unbuildable {d : Definition} (registered : r.model? key.model = some d)
    (typed : ¬ r.HasUntyped key) (parts : ∀ nested, r.Nests key nested → ¬ r.Unbuildable nested) :
    ¬ r.Unbuildable key := by
  rintro ⟨reached, reach, fault⟩
  rcases reach.cases_head with rfl | ⟨nested, first, rest⟩
  · rcases fault with missing | untyped | cycle
    · rw [registered] at missing; cases missing
    · exact typed untyped
    · obtain ⟨nested, first, rest⟩ := Relation.TransGen.head'_iff.mp cycle
      exact parts nested first ⟨key, rest, Or.inr (Or.inr cycle)⟩
  · exact parts nested first ⟨reached, rest, fault⟩

/-- A field of a registered model. -/
def HasField (r : Registry) (f : Field) : Prop :=
  ∃ model fields, r.fieldsOf model = .ok fields ∧ f ∈ fields

/-- The fields of an output or input type are fields of its model. -/
theorem mem_of_fieldsFor {model : String} {kind : TypeKind} {fields : List Field} {f : Field}
    (h : r.fieldsFor model kind = .ok fields) (hf : f ∈ fields) :
    ∃ declared, r.fieldsOf model = .ok declared ∧ f ∈ declared := by
  cases declared : r.fieldsOf model with
  | error e =>
    cases kind <;> simp [fieldsFor, createFields, updateFields, outputFields, fieldsOfEmbedded,
      declared, bind, Except.bind] at h
  | ok all =>
    refine ⟨all, rfl, ?_⟩
    cases kind <;>
      simp only [fieldsFor, createFields, updateFields, outputFields, fieldsOfEmbedded, declared,
        bind, Except.bind, pure, Except.pure, Except.ok.injEq] at h <;>
      exact (List.mem_filter.mp (h ▸ hf)).1

/-- The type of a key, made of references to other types. -/
def shapeOf (r : Registry) (key : TypeKey) : TypeShape :=
  let scalars := (r.scalarFields key.model).toOption.getD []
  match key.kind with
  | .pagination => pageShape key.model
  | .filter => ⟨key.name, true, none, (scalars.filter Field.filterable).map fun f =>
      ⟨f.name, f.name, .optional (.conditions key.model f.name), none, .unset⟩⟩
  | .sort => ⟨key.name, true, none, (scalars.filter Field.sortable).map fun f =>
      ⟨f.name, f.name, .optional .sortDirection, none, .unset⟩⟩
  | kind => ⟨key.name, kind != .output, (r.model? key.model).map (describe · kind),
      ((r.fieldsFor key.model kind).toOption.getD []).map fun f => f.toTypeField kind (f.typeIn kind)⟩

theorem shapeOf_fields {model : String} {kind : TypeKind} {fields : List Field}
    (hkind : kind.OfFields) (h : r.fieldsFor model kind = .ok fields) :
    (r.shapeOf ⟨model, kind⟩).fields = fields.map fun f => f.toTypeField kind (f.typeIn kind) := by
  rcases hkind with rfl | rfl | rfl <;> simp [shapeOf, h, Except.toOption]

end Registry

end DocumentApi
