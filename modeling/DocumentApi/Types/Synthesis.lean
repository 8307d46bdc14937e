import DocumentApi.Step
import DocumentApi.Types.Shape
import DocumentApi.Value.Equality

/-!
# Types of models

Types are built from the fields of registered models and kept, so that each is built once.

* `TypeCache`: the types that were built, by model and kind, and the enums, by name. The first enum
  of a name is the one that all fields of that name have.
* `typeOf`: the type of a model, built with the types that it is made of unless it was kept. A model
  that is made of itself has none.
* `conditionsShape`: the type of the conditions on a field.
* `buildAll`: the types of all models.

Each step of `typeOf` begins a type of a registered model that no earlier step has begun, so it ends.
-/

namespace DocumentApi

/-- The types and enums that were built. -/
structure TypeCache where
  shapes : List (TypeKey × TypeShape) := []
  enums : Table (Table Value) := []
deriving Repr, Inhabited

namespace TypeCache

/-- A type that was built. -/
def shape? (cache : TypeCache) (key : TypeKey) : Option TypeShape :=
  (cache.shapes.find? fun entry => entry.1 == key).map Prod.snd

/-- The cache with a type kept. -/
def keep (cache : TypeCache) (key : TypeKey) (shape : TypeShape) : TypeCache :=
  { cache with shapes := cache.shapes ++ [(key, shape)] }

/-- The cache with an enum declared, unless one of its name was declared before. -/
def declare (cache : TypeCache) (spec : EnumSpec) : TypeCache :=
  if Table.has cache.enums spec.name then cache
  else { cache with enums := cache.enums ++ [(spec.name, spec.members)] }

/-- The members of an enum. -/
def membersOf (cache : TypeCache) (spec : EnumSpec) : Table Value :=
  (Table.find? cache.enums spec.name).getD spec.members

end TypeCache

/-- The first member of an enum that is stored as a value. -/
def memberStoredAs (members : Table Value) (v : Value) : Option (String × Value) :=
  List.find? (fun entry => entry.2.same v) members

/-- The members under their own names: those whose value no earlier member has. -/
def canonicalMembers (members : Table Value) : Table Value :=
  members.filter fun entry =>
    (memberStoredAs members entry.2).any fun first => first.1 == entry.1

/-- Declares an enum and answers its members. -/
def declareEnum (spec : EnumSpec) : Step TypeCache (Table Value) := do
  Step.modify fun cache => cache.declare spec
  return (← Step.state).membersOf spec

/-- The scalar of a storage type. -/
def scalarOfStorage? : String → Option Scalar
  | "text" => some .string
  | "timestamp" => some .string
  | "number" => some .float
  | "boolean" => some .boolean
  | "id" => some .id
  | _ => none

namespace Field

/-- The type of a field that does not refer to a model. -/
def plainType? (f : Field) : Option TypeRef :=
  match f.typeOverride, f.enumSpec with
  | some t, _ => some t.ref
  | none, some spec => some (.enum spec.name)
  | none, none => (scalarOfStorage? f.storageType).map .scalar

/-- Declares the enum that gives a field its type. -/
def declareType (f : Field) : Step TypeCache Unit :=
  match f.typeOverride, f.enumSpec with
  | none, some spec => do let _ ← declareEnum spec; return
  | _, _ => return

/-- Whether a field may be null or left out in a type of a kind. -/
def isOptional (f : Field) : TypeKind → Bool
  | .output => f.nullableOnOutput
  | .create => !f.requiredOnCreate
  | _ => true

/-- The default of a field in a type of a kind. -/
def defaultIn (f : Field) (kind : TypeKind) : FieldDefault :=
  if kind = .output then .null else if f.isOptional kind then .unset else .none

/-- A field in a type of a kind. -/
def toTypeField (f : Field) (kind : TypeKind) (type : TypeRef) : TypeField :=
  { name := f.name
    attr := f.name
    type := if f.isOptional kind then .optional type else type
    description := f.description.filter fun s => !s.isEmpty
    default := f.defaultIn kind }

/-- Whether a field holds text that can be searched in. -/
def isTextual (f : Field) : Bool :=
  f.plainType? == some (.scalar .string) && f.enumSpec.isNone

/-- The operators of the conditions on a field. -/
def conditionOperators (f : Field) : List Operator :=
  f.operators.eraseDups.filter fun op => op != .contains || f.isTextual

/-- The type of the conditions on a field of a model. -/
def conditionsShape (f : Field) (model : String) : Option TypeShape :=
  f.plainType?.map fun type =>
    { name := conditionsName model f.name
      isInput := true
      description := none
      fields := f.conditionOperators.map fun op =>
        { name := op.name
          attr := op.attr
          type := .optional (if op.takesList then .list type else type)
          description := none
          default := .unset } }

end Field

namespace Registry

/-- The fields of a model's output. -/
def outputFields (r : Registry) (model : Option String) : Except Error (List Field) := do
  return (← r.fieldsOfEmbedded model).filter fun f => !f.excludedOnOutput && !f.isRelation

/-- The fields of a model's create input. -/
def createFields (r : Registry) (model : String) : Except Error (List Field) := do
  return (← r.fieldsOf model).filter fun f => !f.isId && !f.excludedOnCreate

/-- The fields of a model's update input. -/
def updateFields (r : Registry) (model : String) : Except Error (List Field) := do
  return (← r.fieldsOf model).filter fun f => f.isId || (!f.excludedOnUpdate && !f.isRelation)

/-- The fields of a model that hold plain values. -/
def scalarFields (r : Registry) (model : String) : Except Error (List Field) := do
  return (← r.fieldsOf model).filter Field.isScalar

/-- The fields of a model's output or input of a kind. -/
def fieldsFor (r : Registry) (model : String) : TypeKind → Except Error (List Field)
  | .create => r.createFields model
  | .update => r.updateFields model
  | _ => r.outputFields (some model)

/-- The description of a model's output or input of a kind. -/
def describe (d : Definition) : TypeKind → String
  | .create => "Input for creating a " ++ d.name
  | .update => "Input for updating a " ++ d.name
  | _ => match d.description with
    | some s => if s.isEmpty then d.name ++ " output" else s
    | none => d.name ++ " output"

end Registry

/-- The type of a page of a model's documents. -/
def pageShape (model : String) : TypeShape :=
  let optional (name : String) (s : Scalar) : TypeField :=
    ⟨name, name, .optional (.scalar s), none, .null⟩
  { name := TypeKind.pagination.typeName model
    isInput := false
    description := none
    fields :=
      [⟨"docs", "docs", .list (.model ⟨model, .output⟩), none, .none⟩,
        optional "totalDocs" .int, optional "page" .int, optional "limit" .int,
        optional "hasPrevPage" .boolean, optional "hasNextPage" .boolean,
        optional "totalPages" .int] }

/-- The field of a filter that takes the conditions on a field. -/
def filterField (model : String) (f : Field) : Step TypeCache TypeField := do
  f.declareType
  if f.plainType?.isNone then Step.fail (.fieldTypeUnresolved model f.name)
  else if f.filterOperators.contains .contains && !f.isTextual then
    Step.fail (.containsNeedsText model f.name)
  else return ⟨f.name, f.name, .optional (.conditions model f.name), none, .unset⟩

/-- The type of a model's filter. -/
def filterShape (r : Registry) (model : String) : Step TypeCache TypeShape := do
  let fields ← Step.ofExcept (r.scalarFields model)
  let fields ← Step.each (filterField model) (fields.filter Field.filterable)
  return ⟨TypeKind.filter.typeName model, true, none, fields⟩

/-- The type of a model's sort order. -/
def sortShape (r : Registry) (model : String) : Step TypeCache TypeShape := do
  let fields ← Step.ofExcept (r.scalarFields model)
  let fields := (fields.filter Field.sortable).map fun f =>
    (⟨f.name, f.name, .optional .sortDirection, none, .unset⟩ : TypeField)
  return ⟨TypeKind.sort.typeName model, true, none, fields⟩

/-- The types of registered models. -/
def registeredKeys (r : Registry) : List TypeKey :=
  (Table.names r.models).flatMap fun model => TypeKind.all.map fun kind => ⟨model, kind⟩

/-- The count of types that are not begun. -/
def notBegun (r : Registry) (begun : List TypeKey) : Nat :=
  ((registeredKeys r).filter fun key => !begun.contains key).length

theorem mem_registeredKeys {r : Registry} {key : TypeKey} {d : Definition}
    (h : r.model? key.model = some d) : key ∈ registeredKeys r := by
  have named : ∀ (t : Table Registration) (m : Registration),
      Table.find? t key.model = some m → key.model ∈ Table.names t := by
    intro t
    induction t with
    | nil => simp [Table.find?]
    | cons entry t ih =>
      obtain ⟨name, m⟩ := entry
      intro m' h
      by_cases e : name = key.model
      · simp [Table.names, e]
      · simp only [Table.find?, e, if_false] at h
        simp only [Table.names, List.map_cons, List.mem_cons]
        exact Or.inr (ih m' h)
  simp only [Registry.model?, Option.bind_eq_some_iff] at h
  obtain ⟨m, found, -⟩ := h
  obtain ⟨model, kind⟩ := key
  simp only [registeredKeys, List.mem_flatMap, List.mem_map]
  refine ⟨model, named _ _ found, kind, ?_, rfl⟩
  cases kind <;> simp [TypeKind.all]

theorem notBegun_append {r : Registry} {begun : List TypeKey} {key : TypeKey} {d : Definition}
    (new : key ∉ begun) (h : r.model? key.model = some d) :
    notBegun r (begun ++ [key]) < notBegun r begun := by
  refine length_filter_lt (x := key) ?_ (mem_registeredKeys h) ?_ ?_
  · intro other
    simp only [List.contains_eq_mem, List.mem_append, Bool.not_eq_true', decide_eq_false_iff_not]
    exact fun h h' => h (Or.inl h')
  · simp [new]
  · simp

mutual

/-- The type of a model, kept or built, while the types `begun` are being built. -/
def typeWhile (r : Registry) (begun : List TypeKey) (key : TypeKey) : Step TypeCache TypeShape := do
  match (← Step.state).shape? key with
  | some shape => return shape
  | none =>
    if _new : key ∈ begun then Step.fail (.modelCycle ((begun ++ [key]).map TypeKey.model))
    else match _found : r.model? key.model with
      | none => Step.fail (.modelNotRegistered key.model)
      | some d => do
        let shape ← match key.kind with
          | .pagination => do
            let _ ← typeWhile r (begun ++ [key]) ⟨key.model, .output⟩
            pure (pageShape key.model)
          | .filter => filterShape r key.model
          | .sort => sortShape r key.model
          | kind => do
            let fields ← Step.ofExcept (r.fieldsFor key.model kind)
            let fields ← fieldsWhile r (begun ++ [key]) ⟨key.model, kind⟩ fields
            pure ⟨key.name, kind != .output, some (Registry.describe d kind), fields⟩
        Step.modify fun cache => cache.keep key shape
        return shape
termination_by (notBegun r begun, 0)
decreasing_by
  all_goals exact Prod.Lex.left _ _ (notBegun_append _new _found)

/-- The fields of an output or input type, with the types of the models that they refer to. -/
def fieldsWhile (r : Registry) (begun : List TypeKey) (key : TypeKey) :
    List Field → Step TypeCache (List TypeField)
  | [] => return []
  | f :: rest => do
    f.declareType
    let type ← match f.plainType? with
      | some type => pure type
      | none =>
        if f.embedding.isSome then
          match f.embeddedName with
          | some model =>
            if model.isEmpty || !r.has model then
              Step.fail (.embeddedModelUnknown key.model f.name (some model))
            else do
              let nested : TypeKey := ⟨model, key.kind⟩
              let _ ← typeWhile r begun nested
              pure (if f.many then .list (.model nested) else .model nested)
          | none => Step.fail (.embeddedModelUnknown key.model f.name none)
        else match f.relation with
          | some relation =>
            if f.isRelation && key.kind == .create then
              if r.has relation.target then do
                let _ ← typeWhile r begun ⟨relation.target, .create⟩
                pure (.list (.model ⟨relation.target, .create⟩))
              else Step.fail (.relationTargetUnknown key.model f.name relation.target)
            else Step.fail (.fieldTypeUnresolved key.model f.name)
          | none => Step.fail (.fieldTypeUnresolved key.model f.name)
    let fields ← fieldsWhile r begun key rest
    return f.toTypeField key.kind type :: fields
termination_by fields => (notBegun r begun, fields.length + 1)
decreasing_by
  all_goals exact Prod.Lex.right _ (by simp)

end

/-- The type of a model. -/
def typeOf (r : Registry) (key : TypeKey) : Step TypeCache TypeShape :=
  typeWhile r [] key

/-- The type of a model's filter, if any of its fields can be filtered by. -/
def filterTypeOf (r : Registry) (model : String) : Step TypeCache (Option TypeShape) := do
  if (← Step.ofExcept (r.scalarFields model)).any Field.filterable then
    return some (← typeOf r ⟨model, .filter⟩)
  else return none

/-- The type of a model's sort order, if it can be sorted by any of its fields. -/
def sortTypeOf (r : Registry) (model : String) : Step TypeCache (Option TypeShape) := do
  if (← Step.ofExcept (r.scalarFields model)).any Field.sortable then
    return some (← typeOf r ⟨model, .sort⟩)
  else return none

/-- The types of one model. -/
def buildModel (r : Registry) (d : Definition) : Step TypeCache Unit := do
  let _ ← typeOf r ⟨d.name, .output⟩
  let _ ← typeOf r ⟨d.name, .create⟩
  let _ ← typeOf r ⟨d.name, .update⟩
  if !d.embedded then
    let _ ← typeOf r ⟨d.name, .pagination⟩
    let _ ← filterTypeOf r d.name
    let _ ← sortTypeOf r d.name

/-- The types of all registered models. -/
def buildAll (r : Registry) : Step TypeCache Unit := do
  let _ ← Step.each (buildModel r) r.registered

end DocumentApi
