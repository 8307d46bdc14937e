import DocumentApi.Operations.Prepare

/-!
# Inline sub-objects

Sub-objects that are given inline with their owner become documents of the model that the relation
points to, and their ids are added to the link field of the owner.

* `createInline`: stores one sub-object with all that it holds in turn, and answers its id.
* `linkInline`: stores the sub-objects of one relation and links them to their owner.
-/

namespace DocumentApi

/-- Adds ids to the link field of a relation. -/
def linkIds (owner : Definition) (ownerId : String) (linkField : String) (ids : List String) :
    Step State Unit := do
  let _ ← State.onStore (Store.addToSet owner.storedIn ownerId linkField (.list (ids.map .text)))

/-- The model that a field's relation points to. -/
def relationTarget (r : Registry) (f : Field) : Except Error Definition :=
  match f.relation with
  | some relation => r.modelOf relation.target
  | none => .error .missingPart

/-- The field that keeps the ids of a relation. -/
def linkFieldOf (f : Field) : String :=
  match f.relation with
  | some relation => relation.linkField
  | none => ""

/-- Stores a sub-object and what it holds inline, and answers its id. -/
def createInline (r : Registry) (target : Definition) (item : Value) : Step State String :=
  match _read : item.asFields with
  | .error e => Step.fail e
  | .ok data => match _split : splitDocument r target.name (.record data) with
    | .error e => Step.fail e
    | .ok (doc, inline) => do
      let doc ← State.onIds (assignIds r (some target.name) doc)
      let stored ← State.insert target.storedIn doc
      let id := (Fields.get stored "id").display
      let _ ← Step.each (fun part : { part // part ∈ inline } => do
        let next ← Step.ofExcept (relationTarget r part.1.1)
        let ids ← Step.each (fun item : { item // item ∈ part.1.2 } =>
          createInline r next item.1) part.1.2.attach
        linkIds target id (linkFieldOf part.1.1) ids) inline.attach
      return id
termination_by item.weight
decreasing_by
  exact weight_splitDocument (weight_asFields _read) _split part.1 part.2 item.1 item.2

/-- Stores the sub-objects of a relation and links them to their owner. -/
def linkInline (r : Registry) (owner : Definition) (ownerId : String) (part : Field × List Value) :
    Step State Unit := do
  let target ← Step.ofExcept (relationTarget r part.1)
  let ids ← Step.each (createInline r target) part.2
  linkIds owner ownerId (linkFieldOf part.1) ids

end DocumentApi
