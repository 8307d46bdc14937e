import DocumentApi.Naming.Operations
import DocumentApi.Operations.Embedded

/-!
# Operations

An operation is a named entry of an api: what it does, the types of its arguments and of its answer.

* `modelOperation`, `embeddedOperations`: the operations of a model and of an embedded array.
* `Operation.bindArguments`: the arguments of a call in the order of their declaration, defaults filled
  in.
* `Operation.run`: what an operation does with its arguments.
-/

namespace DocumentApi

/-- Whether an operation reads or changes documents. -/
inductive OperationKind where
  | query
  | mutation
deriving DecidableEq, Repr, Inhabited

def OperationKind.name : OperationKind → String
  | query => "query"
  | mutation => "mutation"

/-- The operations of an embedded array. -/
inductive EmbeddedApi where
  | create
  | bulkUpdate
  | updateOne
  | remove
  | getOne
  | getAll
deriving DecidableEq, Repr, Inhabited

/-- What an operation does. -/
inductive OperationAction where
  | model (api : Api)
  | embedded (api : EmbeddedApi) (field : Field)
deriving Repr, Inhabited

/-- An entry of an api. The arguments that have defaults come last. -/
structure Operation where
  name : String
  kind : OperationKind
  model : String
  action : OperationAction
  returns : TypeRef
  args : Table TypeRef
  defaults : Table Value := []
  params : Table String := []
  description : Option String := none
deriving Repr, Inhabited

/-- The arguments of operations that answer many documents. -/
structure ListingArguments where
  filter : Bool
  sort : Bool
  search : Bool
deriving DecidableEq, Repr, Inhabited

namespace ListingArguments

def args (l : ListingArguments) (model : String) : Table TypeRef :=
  (if l.filter then [("filter", .optional (.model ⟨model, .filter⟩))] else []) ++
    (if l.sort then [("sort", .optional (.model ⟨model, .sort⟩))] else []) ++
    (if l.search then [("search", .optional (.scalar .string))] else [])

def defaults (l : ListingArguments) (model : String) : Table Value :=
  Table.mapEntries (fun _ => .null) (l.args model)

end ListingArguments

/-- The operation of a model's api. -/
def modelOperation (d : Definition) (listing : ListingArguments) (api : Api) : Operation :=
  let names := OperationNames.ofModel d.name
  let output : TypeRef := .model ⟨d.name, .output⟩
  let base : Operation :=
    { name := ""
      kind := .query
      model := d.name
      action := .model api
      returns := output
      args := [] }
  match api with
  | .create => { base with
      name := names.create
      kind := .mutation
      args := [("input", .model ⟨d.name, .create⟩)]
      description := some ("Create a " ++ d.name) }
  | .update => { base with
      name := names.update
      kind := .mutation
      args := [("input", .model ⟨d.name, .update⟩)]
      description := some ("Update a " ++ d.name ++ "; only supplied fields change") }
  | .remove => { base with
      name := names.remove
      kind := .mutation
      returns := .success
      args := [("id", .scalar .id)]
      description := some ("Remove a " ++ d.name) }
  | .findOne => { base with
      name := names.findOne
      args := [("id", .scalar .id)] }
  | .findAll => { base with
      name := names.findAll
      returns := .list output
      args := listing.args d.name
      defaults := listing.defaults d.name }
  | .paginate => { base with
      name := names.paginate
      returns := .model ⟨d.name, .pagination⟩
      args := [("page", .scalar .int), ("limit", .scalar .int)] ++ listing.args d.name
      defaults := [("page", .int 1), ("limit", .int 10)] ++ listing.defaults d.name }

/-- The six operations of an embedded array. -/
def embeddedOperations (parent : Definition) (f : Field) (embedded : String) : List Operation :=
  let names := EmbeddedNames.ofField parent.name f.name
  let output : TypeRef := .model ⟨embedded, .output⟩
  let update : TypeRef := .model ⟨embedded, .update⟩
  let id : TypeRef := .scalar .id
  let operation (name : String) (kind : OperationKind) (api : EmbeddedApi) (returns : TypeRef)
      (args : Table TypeRef) (description : Option String) : Operation :=
    { name
      kind
      model := parent.name
      action := .embedded api f
      returns
      args := (names.parentIdArg, id) :: args
      params := [(names.parentIdArg, "parent_id")]
      description }
  [operation names.create .mutation .create output [("input", .model ⟨embedded, .create⟩)] none,
    operation names.update .mutation .bulkUpdate (.list output) [("input", .list update)]
      (some ("Replace " ++ parent.name ++ "." ++ f.name ++
        "; every item must reference an existing " ++ embedded)),
    operation names.updateOne .mutation .updateOne output [("id", id), ("input", update)] none,
    operation names.remove .mutation .remove .success [("ids", .list id)] none,
    operation names.getOne .query .getOne output [("id", id)] none,
    operation names.getAll .query .getAll (.list output) [] none]

namespace Operation

/-- The value of each argument: the one given, or its default. -/
def valuesFor (op : Operation) (given : Fields) : Table TypeRef → Except Error Fields
  | [] => .ok []
  | (arg, _) :: rest => do
    let v ← match Table.find? given arg, Table.find? op.defaults arg with
      | some v, _ => pure v
      | none, some v => pure v
      | none, none => throw (.argumentRequired arg op.name)
    return ((Table.find? op.params arg).getD arg, v) :: (← valuesFor op given rest)

/-- The arguments of a call, by the names under which the operation takes them. -/
def bindArguments (op : Operation) (given : Fields) : Except Error Fields := do
  let unknown := (Table.names given).filter fun arg => !Table.has op.args arg
  if !unknown.isEmpty then throw (.argumentsUnknown op.name unknown)
  return Table.ofPairs (← op.valuesFor given op.args)

/-- What an operation of a model does. -/
def runModel (m : ModelOperations) (api : Api) (ctx : Value) (args : Fields) : Step State Value :=
  let arg := Fields.get args
  match api with
  | .create => m.create ctx (arg "input")
  | .update => m.update ctx (arg "input")
  | .remove => m.remove ctx (arg "id")
  | .findOne => m.findOne ctx (arg "id")
  | .findAll => m.findMany ctx (arg "filter") (arg "sort") (arg "search")
  | .paginate => m.paginate (arg "filter") (arg "sort") (arg "page") (arg "limit") (arg "search")

/-- What an operation of an embedded array does. -/
def runEmbedded (m : EmbeddedOperations) (api : EmbeddedApi) (args : Fields) : Step State Value :=
  let arg := Fields.get args
  let parentId := arg "parent_id"
  match api with
  | .create => m.create parentId (arg "input")
  | .bulkUpdate => m.bulkUpdate parentId (arg "input")
  | .updateOne => m.updateOne parentId (arg "id") (arg "input")
  | .remove => m.remove parentId (arg "ids")
  | .getOne => m.getOne parentId (arg "id")
  | .getAll => m.getAll parentId

/-- What an operation does with bound arguments. -/
def run (op : Operation) (registry : Registry) (hooks : HookTable) (ctx : Value) (args : Fields) :
    Step State Value := do
  let model ← Step.ofExcept (registry.modelOf op.model)
  match op.action with
  | .model api => runModel ⟨registry, hooks, model⟩ api ctx args
  | .embedded api field => runEmbedded ⟨registry, model, field⟩ api args

end Operation

end DocumentApi
