import DocumentApi.Types.Synthesis
import DocumentApi.Value.Weight

/-!
# Documents as instances of output types

* `normalizeId`: a document has its id as a text under `id`; one under `_id` moves there.
* `toOutput`: a document as an instance of its model's output type. Fields of other names are
  dropped and absent ones null; embedded documents become instances in turn, and values of enums the
  members that are stored as them.

A field is read by the same precedence as its type is derived, except that an embedded model makes
instances whatever the declared type is.
-/

namespace DocumentApi

/-- A document with its id as a text under `id`. -/
def normalizeId (doc : Fields) : Fields :=
  let doc := match Table.find? doc "_id" with
    | some id =>
      let rest := Table.remove doc "_id"
      if Table.has rest "id" then rest else Table.set rest "id" id
    | none => doc
  let id := Fields.get doc "id"
  if id.isNull then doc else Table.set doc "id" (.text id.display)

/-- A copy of a document with a normalized id; null stays null. -/
def normalizeDocument (doc : Value) : Except Error Value := do
  if doc.isNull then return .null
  else return .record (normalizeId (← doc.toFields))

theorem weight_get {fields : Fields} {n : Nat} (pos : 0 < n)
    (h : ∀ e ∈ fields, e.2.weight < n) (key : String) : (Fields.get fields key).weight < n := by
  unfold Fields.get
  cases found : Table.find? fields key with
  | none => simpa [Value.weight] using pos
  | some v => exact h _ (Table.mem_of_find? found)

theorem weight_normalizeId {doc : Fields} {n : Nat} (pos : 0 < n)
    (h : ∀ e ∈ doc, e.2.weight < n) : ∀ e ∈ normalizeId doc, e.2.weight < n := by
  have moved : ∀ {fields : Fields}, (∀ e ∈ fields, e.2.weight < n) →
      ∀ e ∈ (if (Fields.get fields "id").isNull then fields
        else Table.set fields "id" (.text (Fields.get fields "id").display)), e.2.weight < n := by
    intro fields hf
    by_cases null : (Fields.get fields "id").isNull = true
    · simpa [null] using hf
    · simp only [null, if_false, Bool.false_eq_true]
      refine Table.forall_set (P := fun v : Value => v.weight < n) hf ?_
      exact Nat.lt_of_le_of_lt (Value.weight_text_le (by simpa using null) _) (weight_get pos hf _)
  unfold normalizeId
  cases found : Table.find? doc "_id" with
  | none => simpa [found] using moved h
  | some id =>
    have rest : ∀ e ∈ Table.remove doc "_id", e.2.weight < n :=
      Table.forall_remove (P := fun v : Value => v.weight < n) h
    have hid := h _ (Table.mem_of_find? found)
    simp only
    refine moved ?_
    split
    · exact rest
    · exact Table.forall_set (P := fun v : Value => v.weight < n) rest hid

/-- The value of a field whose type is an enum: the member stored as it, if any. -/
def enumOutput (spec : EnumSpec) (raw : Value) : Step TypeCache Value := do
  let members ← declareEnum spec
  match raw with
  | .member enumName _ _ =>
    if enumName = spec.name then return raw
  | _ => pure ()
  match memberStoredAs members raw with
  | some (name, stored) => return .member spec.name name stored
  | none => return raw

/-- The value of a field of an instance: the one given, or its default. -/
def TypeField.valueIn (f : TypeField) (values : Fields) : Except Error Value :=
  match Table.find? values f.attr, f.default with
  | some v, _ => .ok v
  | none, .null => .ok .null
  | none, .unset => .ok .unset
  | none, .none => .error .wrongKind

/-- An instance of a type; a value of an unknown field does not fit, nor does a missing value of a field
without a default. -/
def TypeShape.instantiate (shape : TypeShape) (values : Fields) : Except Error Value := do
  if values.all fun entry => shape.fields.any fun f => f.attr == entry.1 then
    let fields ← shape.fields.mapM fun f => do return (f.attr, ← f.valueIn values)
    return .object (some shape.name) fields
  else throw .wrongKind

mutual

/-- A document as an instance of the output type of a model. -/
def toOutput (r : Registry) (model : Option String) (doc : Value) : Step TypeCache Value :=
  if _given : doc.isNull then return .null
  else match _read : doc.toFields with
    | .error e => Step.fail e
    | .ok data => do
      let fields ← Step.ofExcept (r.outputFields model)
      let values ← Step.each (fun f => do
        let v ← fieldOutput r f (Fields.get (normalizeId data) f.name)
        pure (f.name, v)) fields
      let shape ← typeOf r ⟨model.getD "", .output⟩
      Step.ofExcept (shape.instantiate values)
termination_by (doc.weight, 0)
decreasing_by
  have pos := Value.weight_pos (by simpa using _given)
  exact Prod.Lex.left _ _ (weight_get pos (weight_normalizeId pos (Value.weight_toFields _read)) _)

/-- The value of a field in an instance. -/
def fieldOutput (r : Registry) (f : Field) (raw : Value) : Step TypeCache Value :=
  if raw.isNull then return .null
  else if f.embedding.isSome then
    if f.many then
      match _items : raw.elements with
      | none => Step.fail .wrongKind
      | some items => do
        let items ← Step.each (fun item : { item // item ∈ items } =>
          toOutput r f.embeddedName item.1) items.attach
        return .list items
    else toOutput r f.embeddedName raw
  else match f.enumSpec, f.typeOverride with
    | some spec, none => enumOutput spec raw
    | _, _ => return raw
termination_by (raw.weight, 1)
decreasing_by
  · rcases Nat.lt_or_eq_of_le (Value.weight_elements _items item.2) with lt | eq
    · exact Prod.Lex.left _ _ lt
    · rw [eq]
      exact Prod.Lex.right _ (by omega)
  · exact Prod.Lex.right _ (by omega)

end

end DocumentApi
