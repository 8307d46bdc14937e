import DocumentApi.Operations.Input
import DocumentApi.State

/-!
# Documents before they are stored

* `assignIds`: embedded documents without an id get one, outer ones before inner ones, fields in the
  order of their declaration.
* `splitInline`: the sub-objects of relations are taken out of a document, and embedded arrays that are
  not given become empty.
* `prepareDocument`: both, in the order in which a document is stored.
-/

namespace DocumentApi

/-- Replaces fields by what a step makes of each, one after another. -/
def replaceFields (step : Field → Step IdSource (Option Value)) (start : Fields) :
    List Field → Step IdSource Fields
  | [] => pure start
  | f :: rest => do
    match ← step f with
    | some v => replaceFields step (Table.set start f.name v) rest
    | none => replaceFields step start rest

/-- The value of a field is an embedded document or a sequence of them. -/
def isEmbedding (f : Field) : Bool :=
  f.embedding.isSome

mutual

/-- An embedded document with ids, or with `many` a sequence of such. -/
def assignIn (r : Registry) (many : Bool) (model : Option String) : Value → Step IdSource Value
  | .record fields =>
    if many then return .record fields
    else do
      let given := (Fields.get fields "id").truthy
      let start ← if given then pure fields
        else (fun id => Table.set fields "id" (.text id)) <$> (IdSource.draw : Step IdSource String)
      let declared ← Step.ofExcept (r.fieldsOfEmbedded model)
      let result ← replaceFields (fun f =>
        if isEmbedding f && (given || f.name != "id") then assignEntry r fields f else return none)
        start declared
      return .record result
  | .list items =>
    if many then do return .list (← assignItems r model items) else return .list items
  | .null => return .null
  | .text s => return .text s
  | v => if many then Step.fail .wrongKind else return v
termination_by structural v => v

/-- The items of an embedded array with ids. -/
def assignItems (r : Registry) (model : Option String) : List Value → Step IdSource (List Value)
  | [] => return []
  | item :: items => do
    let item ← assignIn r false model item
    return item :: (← assignItems r model items)
termination_by structural items => items

/-- The value of a field with ids, none when the field is absent. -/
def assignEntry (r : Registry) : List (String × Value) → Field → Step IdSource (Option Value)
  | [], _ => return none
  | entry :: rest, f =>
    if entry.1 = f.name then assignPair r entry f else assignEntry r rest f
termination_by structural fields => fields

def assignPair (r : Registry) : String × Value → Field → Step IdSource (Option Value)
  | (_, v), f => do return some (← assignIn r f.many f.embeddedName v)
termination_by structural entry => entry

end

/-- A document with an id for every embedded document in it. -/
def assignIds (r : Registry) (model : Option String) (doc : Fields) : Step IdSource Fields := do
  let declared ← Step.ofExcept (r.fieldsOfEmbedded model)
  replaceFields (fun f => if isEmbedding f then assignEntry r doc f else return none) doc declared

/-- A value with an id for every embedded document in it. Only a record can be looked into. -/
def assignIdsTo (r : Registry) (model : String) (v : Value) : Step IdSource Value := do
  match v with
  | .record doc => return .record (← assignIds r (some model) doc)
  | _ =>
    let declared ← Step.ofExcept (r.fieldsOf model)
    if declared.any isEmbedding then Step.fail .missingPart else return v

/-- Sub-objects that become documents of their own, with the relation that they belong to. -/
abbrev Inline := List (Field × List Value)

/-- Takes the sub-objects of relations out of a document and completes its embedded arrays. -/
def splitInline (doc : Fields) : List Field → Except Error (Fields × Inline)
  | [] => .ok (doc, [])
  | f :: rest => do
    let v := Fields.get doc f.name
    if f.isRelation then
      let items ← v.iterateGiven
      let (doc, inline) ← splitInline (Table.remove doc f.name) rest
      return (doc, if v.truthy then (f, items) :: inline else inline)
    else if f.isEmbeddedArray && v.isNull then
      splitInline (Table.set doc f.name (.list [])) rest
    else splitInline doc rest

/-- Takes the sub-objects out of a document of a model. -/
def splitDocument (r : Registry) (model : String) (doc : Value) :
    Except Error (Fields × Inline) := do
  let declared ← r.fieldsOf model
  match if doc.truthy then doc else .record [] with
  | .record fields => splitInline fields declared
  | _ => throw .missingPart

/-- A document as it is stored, and the sub-objects that become documents of their own. -/
def prepareDocument (r : Registry) (model : String) (input : Value) :
    Step IdSource (Fields × Inline) := do
  let (doc, inline) ← Step.ofExcept (splitDocument r model input.plain)
  return (← assignIds r (some model) doc, inline)

/-- A value that is light, or the empty list that an embedded array is completed with. -/
def LightOrEmpty (n : Nat) (v : Value) : Prop :=
  v.weight < n ∨ v = .list []

theorem lightOrEmpty_get {doc : Fields} {n : Nat} (h : ∀ e ∈ doc, LightOrEmpty n e.2)
    {key : String} {items : List Value} (read : (Fields.get doc key).iterateGiven = .ok items) :
    ∀ item ∈ items, item.weight < n := by
  unfold Value.iterateGiven Value.iterate at read
  intro item mem
  split at read
  · rename_i given
    split at read
    · rename_i elems found
      simp only [Except.ok.injEq] at read
      subst read
      have le := Value.weight_elements found mem
      unfold Fields.get at le found given
      cases entry : Table.find? doc key with
      | none => simp [entry, Value.truthy] at given
      | some v =>
        simp only [entry, Option.getD_some] at le found given
        rcases h _ (Table.mem_of_find? entry) with lt | empty
        · exact Nat.lt_of_le_of_lt le lt
        · simp only at empty
          subst empty
          simp [Value.truthy] at given
    · simp at read
  · simp only [Except.ok.injEq] at read
    subst read
    simp at mem

theorem weight_splitInline {fields : List Field} {doc rest : Fields} {inline : Inline} {n : Nat}
    (h : ∀ e ∈ doc, LightOrEmpty n e.2) (split : splitInline doc fields = .ok (rest, inline)) :
    ∀ part ∈ inline, ∀ item ∈ part.2, item.weight < n := by
  induction fields generalizing doc rest inline with
  | nil =>
    simp only [splitInline, Except.ok.injEq, Prod.mk.injEq] at split
    simp [← split.2]
  | cons f fields ih =>
    unfold splitInline at split
    simp only [bind, Except.bind] at split
    split at split
    · split at split
      · simp at split
      rename_i items read
      split at split
      · simp at split
      rename_i result more
      obtain ⟨rest', inline'⟩ := result
      simp only [pure, Except.pure, Except.ok.injEq, Prod.mk.injEq] at split
      have below := ih (Table.forall_remove h) more
      intro part mem
      rw [← split.2] at mem
      split at mem
      · rcases List.mem_cons.1 mem with rfl | mem
        · exact lightOrEmpty_get h read
        · exact below part mem
      · exact below part mem
    · split at split
      · exact ih (Table.forall_set h (Or.inr rfl)) split
      · exact ih h split

theorem weight_splitDocument {r : Registry} {model : String} {doc rest : Fields} {inline : Inline}
    {n : Nat} (h : ∀ e ∈ doc, e.2.weight < n)
    (split : splitDocument r model (.record doc) = .ok (rest, inline)) :
    ∀ part ∈ inline, ∀ item ∈ part.2, item.weight < n := by
  unfold splitDocument at split
  simp only [bind, Except.bind] at split
  split at split
  · simp at split
  split at split
  · rename_i fields same
    refine weight_splitInline ?_ split
    intro e he
    split at same
    · simp only [Value.record.injEq] at same
      subst same
      exact Or.inl (h e he)
    · simp only [Value.record.injEq] at same
      subst same
      simp at he
  · simp [throw, throwThe, MonadExceptOf.throw] at split

end DocumentApi
