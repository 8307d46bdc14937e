import DocumentApi.Step
import DocumentApi.Store.Page
import DocumentApi.Store.Query
import DocumentApi.Store.Sort

/-!
# Store of documents

A store holds entries in the order of their creation; an id belongs to one entry of all collections.

* `Store.insert` adds an entry at the end, `Store.update` and `Store.addToSet` change the fields of
  one entry, and `Store.delete` drops it. A document that does not exist changes nothing.
* `Store.find` answers documents in order of creation or sorted; `Store.paginate` a page of them,
  counted by the columns where they answer the whole query.
-/

namespace DocumentApi

/-- Stored documents in the order of their creation. -/
structure Store where
  entries : List Entry := []
deriving Repr, Inhabited

/-- What documents are looked for, and how they are sorted. -/
structure Query where
  filter : Value := .null
  sort : List SortKey := []
  search : Value := .null
deriving Repr, Inhabited

namespace Store

/-- The entry of an id in a collection. -/
def find? (s : Store) (collection id : String) : Option Entry :=
  s.entries.find? fun e => e.isAt collection id

/-- Whether an id is used in any collection. -/
def uses (s : Store) (id : String) : Bool :=
  s.entries.any fun e => e.id == id

/-- The store with the fields of one entry changed. -/
def change (s : Store) (collection id : String) (f : Fields → Fields) : Store :=
  ⟨s.entries.map fun e => if e.isAt collection id then { e with fields := f e.fields } else e⟩

/-- Adds a document and answers it. -/
def insert (collection id : String) (fields : Fields) : Step Store Fields := do
  if (← Step.state).uses id then Step.fail .idTaken
  else
    let e : Entry := ⟨collection, id, fields⟩
    Step.modify fun s => ⟨s.entries ++ [e]⟩
    return e.document

/-- The document of an id. -/
def findById (collection id : String) : Step Store (Option Fields) := do
  return ((← Step.state).find? collection id).map Entry.document

/-- Overwrites the given fields of a document, its id apart, and answers it. -/
def update (collection id : String) (changes : Fields) : Step Store (Option Fields) := do
  match (← Step.state).find? collection id with
  | none => return none
  | some e =>
    let fields := Table.merge e.fields (Table.remove changes "id")
    Step.modify fun s => s.change collection id fun _ => fields
    return some { e with fields }.document

/-- Values added to those of a set, each unless an equal one is there. -/
def union (items values : List Value) : List Value :=
  values.foldl (fun items v => if v.memberOf items then items else items ++ [v]) items

/-- Adds values to the set in a field and answers the document. -/
def addToSet (collection id field : String) (values : Value) : Step Store (Option Fields) := do
  match (← Step.state).find? collection id with
  | none => return none
  | some e =>
    let items ← Step.ofExcept (Fields.get e.fields field).iterateGiven
    let values ← Step.ofExcept values.iterate
    let fields := Table.set e.fields field (.list (union items values))
    Step.modify fun s => s.change collection id fun _ => fields
    return some { e with fields }.document

/-- Drops a document and answers whether it existed. -/
def delete (collection id : String) : Step Store Bool := do
  match (← Step.state).find? collection id with
  | none => return false
  | some _ =>
    Step.modify fun s => ⟨s.entries.filter fun e => !e.isAt collection id⟩
    return true

/-- The documents of a collection that a query answers. -/
def find (s : Store) (collection : String) (q : Query) : Except Error (List Fields) := do
  let plan ← Plan.make q.filter q.search
  let docs ← plan.run collection s.entries
  if q.sort.isEmpty then return docs else sortDocuments docs q.sort

/-- The entries after an offset, as many as the count allows; a negative count allows all. -/
def cut (selected : List Entry) (offset count : Int) : Except Error (List Entry) :=
  if !fitsColumn offset || !fitsColumn count then .error .tooLarge
  else
    let rest := selected.drop offset.toNat
    .ok (if count < 0 then rest else rest.take count.toNat)

/-- The page of documents, counted by the columns. Fractions of an offset or a count are cut off. -/
def columnPage (selected : List Entry) (page limit : Value) : Except Error Page := do
  let offset ← Page.countBefore page limit
  match limit.number? with
  | none => throw .wrongKind
  | some count =>
    let shown ← cut selected offset.truncate count.truncate
    Page.build (shown.map fun e => .record e.document) (.int selected.length) page limit

/-- The page of documents, cut out of all; a cut is at integers only. -/
def slicePage (docs : List Fields) (page limit : Value) : Except Error Page := do
  match ← Page.countBefore page limit, limit.number? with
  | .int start, some (.int count) =>
    Page.build ((window docs start (start + count)).map .record) (.int docs.length) page limit
  | _, _ => throw .wrongKind

/-- A page of the documents that a query answers. -/
def paginate (s : Store) (collection : String) (q : Query) (page limit : Value) :
    Except Error Page := do
  let plan ← Plan.make q.filter q.search
  if q.sort.isEmpty && plan.leftover.isEmpty then
    columnPage (plan.selected collection s.entries) page limit
  else slicePage (← s.find collection q) page limit

end Store

end DocumentApi
