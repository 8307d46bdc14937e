import DocumentApi.Value.Basic

/-!
# Stored documents

An entry of a store: the collection and the id of a document, and its fields without the id.
-/

namespace DocumentApi

/-- A stored document. -/
structure Entry where
  collection : String
  id : String
  fields : Fields
deriving Repr, Inhabited

namespace Entry

/-- The document of an entry, its id among the fields. -/
def document (e : Entry) : Fields :=
  Table.set e.fields "id" (.text e.id)

/-- Whether an entry is the document of an id in a collection. -/
def isAt (e : Entry) (collection id : String) : Bool :=
  e.collection == collection && e.id == id

end Entry

end DocumentApi
