import DocumentApi.State

/-!
# Requests to a store

A request is one call of a store with its arguments.

* `Request.run`: the answer of a store of documents.
* `Request.runAbstract`: the answer of a store without any documents behind it, which supports no
  request.
-/

namespace DocumentApi

/-- A call of a store. -/
inductive Request where
  | insert (collection : String) (data : Value)
  | findById (collection : String) (id : Value)
  | find (collection : String) (query : Query)
  | paginate (collection : String) (query : Query) (page limit : Value)
  | update (collection : String) (id changes : Value)
  | addToSet (collection : String) (id : Value) (field : String) (values : Value)
  | delete (collection : String) (id : Value)
  | createAll
  | dropAll
  /-- A call with arguments that do not fit. -/
  | malformed (e : Error)
deriving Repr, Inhabited

/-- A document as an answer, null for none. -/
def documentAnswer (doc : Option Fields) : Value :=
  match doc with
  | some doc => .record doc
  | none => .null

namespace Request

/-- The answer of a store of documents. -/
def run : Request → Step State Value
  | insert collection data => do
    let fields ← Step.ofExcept data.toFields
    return .record (← State.insert collection fields)
  | findById collection id => do
    return documentAnswer (← State.onStore (Store.findById collection id.display))
  | find collection query => do
    return .list ((← State.readStore fun s => s.find collection query).map .record)
  | paginate collection query page limit => do
    return (← State.readStore fun s => s.paginate collection query page limit).toValue
  | update collection id changes => match changes with
    | .record fields => do
      return documentAnswer (← State.onStore (Store.update collection id.display fields))
    | _ => Step.fail .missingPart
  | addToSet collection id field values => do
    return documentAnswer (← State.onStore (Store.addToSet collection id.display field values))
  | delete collection id => do
    return .bool (← State.onStore (Store.delete collection id.display))
  | createAll => return .null
  | dropAll => do
    State.onStore (Step.modify fun _ => {})
    return .null
  | malformed e => Step.fail e

/-- The answer of a store that supports no request. -/
def runAbstract : Request → Except Error Value
  | createAll => .error .missingPart
  | dropAll => .error .missingPart
  | _ => .error .notSupported

end Request

end DocumentApi
