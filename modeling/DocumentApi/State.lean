import DocumentApi.ObjectId
import DocumentApi.Store.Documents
import DocumentApi.Types.Output

/-!
# State of an api

What changes while an api runs: the types that were built, the stored documents, the source of ids
and the events that hooks leave.
-/

namespace DocumentApi

/-- A call of a hook handler with its arguments. -/
structure Event where
  label : Value
  payload : Fields
deriving Repr, Inhabited

/-- The state that an api works on. -/
structure State where
  types : TypeCache := {}
  store : Store := {}
  ids : IdSource := ⟨0, 0, 0⟩
  events : List Event := []
deriving Repr, Inhabited

namespace State

/-- A step on the types. -/
def onTypes {α : Type} (x : Step TypeCache α) : Step State α :=
  Step.zoom State.types (fun types s => { s with types }) x

/-- A step on the store. -/
def onStore {α : Type} (x : Step Store α) : Step State α :=
  Step.zoom State.store (fun store s => { s with store }) x

/-- A step on the source of ids. -/
def onIds {α : Type} (x : Step IdSource α) : Step State α :=
  Step.zoom State.ids (fun ids s => { s with ids }) x

/-- A new id. -/
def newId : Step State String :=
  onIds IdSource.draw

/-- Answers from the stored documents. -/
def readStore {α : Type} (f : Store → Except Error α) : Step State α := fun s =>
  (f s.store, s)

/-- Stores a document under the id among its fields, or under a new one. -/
def insert (collection : String) (data : Fields) : Step State Fields := do
  let given := Fields.get data "id"
  let id ← if given.truthy then pure given.display else newId
  onStore (Store.insert collection id (Table.remove data "id"))

end State

end DocumentApi
