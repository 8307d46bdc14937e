import DocumentApi.Schema.Answer
import DocumentApi.Schema.Check
import DocumentApi.Service.Basic

/-!
# Requests by schema

A built service has a schema with the roots `Query` and `Mutation`, whose fields are its operations.

* `Service.schema`: the types of the schema by name. It fails unless they are well formed.
* `Service.request`: runs an operation by the schema: arguments are read and the answer is written by
  their types. Errors that the library does not report itself show as a bad request.
-/

namespace DocumentApi

/-- The operation of a service that has no queries of its own, and what it answers. -/
def pingName : String := "_ping"

def pingAnswer : String := "pong"

/-- The field of a root that runs an operation. -/
def Operation.toSchemaField (spelling : Spelling) (op : Operation) : SchemaField :=
  { name := spelling.spell op.name
    type := op.returns
    description := op.description
    args := Table.ofPairs (op.args.map fun arg => (spelling.spell arg.1, arg.2)) }

/-- The fields of the root for operations of a kind. -/
def rootFields (spelling : Spelling) (operations : List Operation) (kind : OperationKind) :
    List SchemaField :=
  mergeFields ((operations.filter fun op => op.kind == kind).map (·.toSchemaField spelling))

/-- The root for queries. -/
def queryRoot (spelling : Spelling) (operations : List Operation) : SchemaType :=
  let ping : SchemaField :=
    { name := spelling.spell pingName
      type := .scalar .string }
  match rootFields spelling operations .query with
  | [] => ⟨"Query", none, .object [ping]⟩
  | fields => ⟨"Query", none, .object fields⟩

/-- The root for mutations, if there are any. -/
def mutationRoot? (spelling : Spelling) (operations : List Operation) : Option SchemaType :=
  match rootFields spelling operations .mutation with
  | [] => none
  | fields => some ⟨"Mutation", none, .object fields⟩

/-- The types of a schema: each root with the types that it leads to, those of the query root first. -/
def schemaTypes (r : Registry) (types : TypeCache) (spelling : Spelling)
    (operations : List Operation) : List SchemaType :=
  let query := queryRoot spelling operations
  let asked := r.reach types spelling [] query.parts
  match mutationRoot? spelling operations with
  | none => query :: asked.map Prod.snd
  | some mutation =>
    let all := r.reach types spelling asked mutation.parts
    (query :: asked.map Prod.snd) ++ (mutation :: (all.drop asked.length).map Prod.snd)

/-- The names of the roots. -/
def rootNames (operations : List Operation) : List String :=
  "Query" :: ((mutationRoot? .verbatim operations).map SchemaType.name).toList

/-- The well-formed schema of operations, its types by name. -/
def describeSchema (r : Registry) (types : TypeCache) (spelling : Spelling)
    (operations : List Operation) : Except Error (List SchemaType) := do
  let all := schemaTypes r types spelling operations
  checkTypes (r.bodyOf? types) (rootNames operations) all
  return all.mergeSort fun s t => decide (s.name ≤ t.name)

namespace Operation

/-- Reads an argument by its type. -/
def readGiven (op : Operation) (bodyOf : TypeRef → Option TypeBody) (entry : String × Value) :
    Except Error (String × Value) :=
  match Table.find? op.args entry.1 with
  | some t => do return (entry.1, ← readArgument bodyOf t entry.2)
  | none => .error .badRequest

/-- The arguments of a request by the types of the operation's arguments. -/
def readArguments (op : Operation) (bodyOf : TypeRef → Option TypeBody) (given : Fields) :
    Except Error Fields := do
  let args ← given.mapM (op.readGiven bodyOf)
  requested (op.bindArguments args).toOption

end Operation

/-- A cause as clients see it. -/
def Error.toClient (e : Error) : Error :=
  if e.kind?.isSome then e else .badRequest

namespace Service

/-- The schema of a service. -/
def schema (spelling : Spelling) : Step Service (List SchemaType) := do
  build
  let s ← Step.state
  Step.ofExcept (describeSchema s.registry s.state.types spelling s.operations)

/-- The answer of an operation by the schema. -/
def answerRequest (op : Operation) (ctx : Value) (given : Fields) : Step Service Value := do
  let s ← Step.state
  let bodyOf := s.registry.bodyOf? s.state.types
  let args ← Step.ofExcept (op.readArguments bodyOf given)
  let result ← runOperation op ctx args
  Step.ofExcept (writeAnswer bodyOf op.returns result)

/-- Runs the operation of a name by the schema. -/
def request (name : String) (ctx : Value) (given : Fields) : Step Service Value := do
  let _ ← schema .verbatim
  let s ← Step.state
  match s.operation? name with
  | some op => Step.mapError Error.toClient (answerRequest op ctx given)
  | none =>
    if name = pingName && given.isEmpty && s.operations.all fun op => op.kind != .query then
      return .text pingAnswer
    else Step.fail .badRequest

end Service

end DocumentApi
