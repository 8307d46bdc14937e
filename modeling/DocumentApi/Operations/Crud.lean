import DocumentApi.Hooks.Dispatch
import DocumentApi.Operations.Cascade

/-!
# Operations of a model

Six operations create, update, remove and find the documents of a model. All but `paginate` run the
hooks of their phases; what a hook changes inside the input is what the operation goes on with.

* `create` stores the document first and then its inline sub-objects.
* `update` changes the document of the id that the input names, before any hook runs.
* `findMany` and `paginate` answer documents by filter, sort order and search.
-/

namespace DocumentApi

/-- What the operations of one model work with. -/
structure ModelOperations where
  registry : Registry
  hooks : HookTable
  model : Definition
deriving Repr, Inhabited

/-- Whether a field is searched by a text search. -/
def Field.isSearched (f : Field) : Bool :=
  f.storageType == "text" && f.enumSpec.isNone && f.embedding.isNone && !f.isRelation && !f.isId

/-- The fields that a text search looks in. -/
def searchFields (r : Registry) (model : String) : Except Error (List String) := do
  return ((← r.fieldsOf model).filter Field.isSearched).map Field.name

/-- The answer of a removal. -/
def removalDone : Value :=
  .object (some "SuccessResponse") [("success", .bool true)]

namespace ModelOperations

variable (m : ModelOperations)

/-- Runs the hooks of the model in a phase. -/
def dispatch (phase : HookPhase) (payload : Fields) : Step State Fields :=
  m.hooks.dispatch m.model.name phase payload

/-- A document as an instance of the model's output type. -/
def shape (doc : Fields) : Step State Value :=
  State.onTypes (toOutput m.registry (some m.model.name) (.record doc))

/-- The document of an id, which has to exist. -/
def load (id : Value) : Step State Fields := do
  match ← State.onStore (Store.findById m.model.storedIn id.display) with
  | some doc => return doc
  | none => Step.fail (.documentMissing m.model.name id)

/-- The search of a query, if the model is searched by text. -/
def searchOf (search : Value) : Except Error Value := do
  if !search.truthy || !m.model.textSearch then return .null
  else return .list [search, .list ((← searchFields m.registry m.model.name).map .text)]

def create (ctx input : Value) : Step State Value := do
  let data ← Step.ofExcept input.asFields
  let before ← m.dispatch .beforeCreate [("ctx", ctx), ("input", .record data)]
  let input := Fields.get before "input"
  let (doc, inline) ← State.onIds (prepareDocument m.registry m.model.name input)
  let stored ← State.insert m.model.storedIn doc
  let id := Fields.get stored "id"
  let _ ← Step.each (linkInline m.registry m.model id.display) inline
  let created ← m.shape (← m.load id)
  let after ← m.dispatch .afterCreate
    [("ctx", Fields.get before "ctx"), ("input", input), ("created", created)]
  return Fields.get after "created"

def update (ctx input : Value) : Step State Value := do
  let data ← Step.ofExcept input.asFields
  let id := Fields.get data "id"
  if !id.truthy then Step.fail (.idRequired m.model.name)
  else
    let old ← m.shape (← m.load id)
    let before ← m.dispatch .beforeUpdate
      [("ctx", ctx), ("input", .record data), ("before_updated", old)]
    let input := Fields.get before "input"
    let given ← Step.ofExcept input.plain.toFields
    let changes ← State.onIds
      (assignIds m.registry (some m.model.name) (Table.remove given "id"))
    match ← State.onStore (Store.update m.model.storedIn id.display changes) with
    | none => Step.fail (.documentMissing m.model.name id)
    | some _ =>
      let updated ← m.shape (← m.load id)
      let after ← m.dispatch .afterUpdate
        [("ctx", Fields.get before "ctx"), ("input", input), ("updated", updated),
          ("before_updated", Fields.get before "before_updated")]
      return Fields.get after "updated"

def findOne (ctx id : Value) : Step State Value := do
  let filter : Value := .record [("id", .text id.display)]
  let before ← m.dispatch .beforeFindOne [("ctx", ctx), ("filter", filter)]
  let result ← m.shape (← m.load id)
  let after ← m.dispatch .afterFindOne (before ++ [("result", result)])
  return Fields.get after "result"

def findMany (ctx filter sort search : Value) : Step State Value := do
  let filter ← Step.ofExcept filter.asFilter
  let sort ← Step.ofExcept sort.asFields
  let before ← m.dispatch .beforeFindMany
    [("ctx", ctx), ("filter", .record filter), ("sort", .record sort)]
  let keys ← Step.ofExcept (sortKeys (Fields.get before "sort"))
  let search ← Step.ofExcept (m.searchOf search)
  let docs ← State.readStore fun s =>
    s.find m.model.storedIn ⟨Fields.get before "filter", keys, search⟩
  let items ← Step.each m.shape docs
  let after ← m.dispatch .afterFindMany (before ++ [("items", .list items)])
  return Fields.get after "items"

def remove (ctx id : Value) : Step State Value := do
  let old ← m.shape (← m.load id)
  let before ← m.dispatch .beforeRemove [("ctx", ctx), ("before_removed", old)]
  if ← State.onStore (Store.delete m.model.storedIn id.display) then
    let _ ← m.dispatch .afterRemove
      [("ctx", Fields.get before "ctx"), ("removed", Fields.get before "before_removed")]
    return removalDone
  else Step.fail (.documentMissing m.model.name id)

/-- Refuses what is not given or less than one. -/
def checkPositive (refuse : Value → Error) (v : Value) : Except Error Unit :=
  if v.isNull then .error (refuse v)
  else match v.compare? (.int 1) with
    | some .lt => .error (refuse v)
    | some _ => .ok ()
    | none => .error .wrongKind

def paginate (filter sort page limit search : Value) : Step State Value := do
  Step.ofExcept (checkPositive .pageTooSmall page)
  Step.ofExcept (checkPositive .limitTooSmall limit)
  let filter ← Step.ofExcept filter.asFilter
  let sort ← Step.ofExcept sort.asFields
  let keys ← Step.ofExcept (sortKeys (.record sort))
  let search ← Step.ofExcept (m.searchOf search)
  let result ← State.readStore fun s =>
    s.paginate m.model.storedIn ⟨.record filter, keys, search⟩ page limit
  let shape ← State.onTypes (typeOf m.registry ⟨m.model.name, .pagination⟩)
  let docs ← Step.each (fun doc => do m.shape (← Step.ofExcept doc.toFields)) result.docs
  Step.ofExcept (shape.instantiate [
    ("docs", .list docs),
    ("totalDocs", result.totalDocs),
    ("page", result.page),
    ("limit", result.limit),
    ("hasPrevPage", .bool result.hasPrevPage),
    ("hasNextPage", .bool result.hasNextPage),
    ("totalPages", .int result.totalPages)])

end ModelOperations

end DocumentApi
