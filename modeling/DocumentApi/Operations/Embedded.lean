import DocumentApi.Operations.Crud

/-!
# Operations of an embedded array

Six operations create, update, remove and get the elements of one array field of a parent document.
Each that changes the array reads the parent, makes the new array and stores it whole.

* `bulkUpdate` replaces the array; every item of its input has to name an element, over which its
  fields are merged. Nothing is stored when an item names none.
* `updateOne` merges fields over one element in its place; `remove` drops the named elements.
-/

namespace DocumentApi

/-- What the operations of one embedded array work with. -/
structure EmbeddedOperations where
  registry : Registry
  parent : Definition
  field : Field
deriving Repr, Inhabited

/-- The operations of a field, which has to hold an embedded array. -/
def EmbeddedOperations.make (registry : Registry) (parent : Definition) (field : Field) :
    Except Error EmbeddedOperations :=
  if field.isEmbeddedArray then .ok ⟨registry, parent, field⟩
  else .error (.notEmbeddedArray parent.name field.name)

/-- Whether an element has an id. -/
def hasId (id : String) (item : Fields) : Bool :=
  (Fields.get item "id").display == id

namespace EmbeddedOperations

variable (m : EmbeddedOperations)

/-- The name of the embedded model. -/
def embeddedName : String :=
  m.field.embeddedName.getD "None"

/-- An element as an instance of the embedded model's output type. -/
def shape (item : Fields) : Step State Value :=
  State.onTypes (toOutput m.registry m.field.embeddedName (.record item))

/-- The parent document, which has to exist. -/
def loadParent (parentId : Value) : Step State Fields := do
  match ← State.onStore (Store.findById m.parent.storedIn parentId.display) with
  | some doc => return doc
  | none => Step.fail (.documentMissing m.parent.name parentId)

/-- The elements of the array in a parent document. -/
def items (parent : Fields) : Except Error (List Fields) := do
  (← (Fields.get parent m.field.name).iterateGiven).mapM Value.toFields

/-- Stores the array and answers it as it was stored. -/
def save (parentId : Value) (items : List Fields) : Step State (List Fields) := do
  let changes : Fields := [(m.field.name, .list (items.map .record))]
  match ← State.onStore (Store.update m.parent.storedIn parentId.display changes) with
  | some doc => Step.ofExcept (m.items doc)
  | none => Step.fail (.documentMissing m.parent.name parentId)

/-- An element with ids for what is embedded in it. -/
def withIds (item : Fields) : Step State Fields :=
  State.onIds (assignIds m.registry m.field.embeddedName item)

def notFound (id parentId : Value) : Error :=
  .elementMissing m.embeddedName id m.parent.name parentId

def getAll (parentId : Value) : Step State Value := do
  let parent ← m.loadParent parentId
  let items ← Step.ofExcept (m.items parent)
  return .list (← Step.each m.shape items)

def getOne (parentId id : Value) : Step State Value := do
  let parent ← m.loadParent parentId
  let items ← Step.ofExcept (m.items parent)
  match items.find? (hasId id.display) with
  | some item => m.shape item
  | none => Step.fail (m.notFound id parentId)

def create (parentId input : Value) : Step State Value := do
  let parent ← m.loadParent parentId
  let given ← Step.ofExcept input.asFields
  let id ← State.newId
  let item ← m.withIds (Table.set given "id" (.text id))
  let items ← Step.ofExcept (m.items parent)
  let saved ← m.save parentId (items ++ [item])
  let reloaded ← Step.ofExcept (m.items (← m.loadParent parentId))
  match (if reloaded.isEmpty then saved else reloaded).getLast? with
  | some last => m.shape last
  | none => Step.fail .badValue

/-- The elements of an array by their ids, the last of an id winning. -/
def byId (items : List Fields) : Table Fields :=
  Table.ofPairs (items.map fun item => ((Fields.get item "id").display, item))

/-- What is left of an element for a later item that names it too: its own values, with the ids that
they were given when an item was merged over it. -/
def keepOwn (old item merged : Fields) : Fields :=
  old.map fun entry =>
    if Table.has item entry.1 then entry else (entry.1, Fields.get merged entry.1)

/-- The elements that the items of a bulk update make of the ones that they name. -/
def mergeItems (existing : Table Fields) : List Fields → Step State (List Fields)
  | [] => return []
  | item :: rest => do
    match Table.find? item "id" with
    | none => Step.fail .missingKey
    | some id =>
      let old := (Table.find? existing id.display).getD []
      let merged ← m.withIds (Table.set (Table.merge old item) "id" (.text id.display))
      let existing := Table.set existing id.display (keepOwn old item merged)
      return merged :: (← mergeItems existing rest)

def bulkUpdate (parentId input : Value) : Step State Value := do
  let parent ← m.loadParent parentId
  let existing := byId (← Step.ofExcept (m.items parent))
  let payload ← Step.ofExcept (do (← input.iterateGiven).mapM Value.asFields)
  match payload.find? fun item => !Table.has existing (Fields.get item "id").display with
  | some item => Step.fail (m.notFound (Fields.get item "id") parentId)
  | none =>
    let items ← m.mergeItems existing payload
    let _ ← m.save parentId items
    let reloaded ← Step.ofExcept (m.items (← m.loadParent parentId))
    return .list (← Step.each m.shape reloaded)

/-- Changes the first element of an id in its place; none when there is no such element. -/
def changeFirst (id : String) (change : Fields → Step State Fields) :
    List Fields → Step State (Option (List Fields))
  | [] => return none
  | item :: rest =>
    if hasId id item then do return some ((← change item) :: rest)
    else do return (← changeFirst id change rest).map (item :: ·)

def updateOne (parentId id input : Value) : Step State Value := do
  let parent ← m.loadParent parentId
  let items ← Step.ofExcept (m.items parent)
  let changes := Table.remove (← Step.ofExcept input.asFields) "id"
  match ← changeFirst id.display (fun item => m.withIds (Table.merge item changes)) items with
  | none => Step.fail (m.notFound id parentId)
  | some items =>
    let saved ← m.save parentId items
    match saved.find? (hasId id.display) with
    | some item => m.shape item
    | none => Step.fail (m.notFound id parentId)

def remove (parentId ids : Value) : Step State Value := do
  let ids := (← Step.ofExcept ids.iterateGiven).map Value.display
  if ids.isEmpty then Step.fail (.idsRequired m.embeddedName)
  else
    let parent ← m.loadParent parentId
    let items ← Step.ofExcept (m.items parent)
    let kept := items.filter fun item => !ids.contains (Fields.get item "id").display
    let _ ← m.save parentId kept
    return removalDone

end EmbeddedOperations

end DocumentApi
