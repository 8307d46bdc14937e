import DocumentApi.Service.Operation

/-!
# Services

A service is an api over models: models and hooks are registered first, then its types and operations
are built once, and after that operations are called by name.

* `Service.build`: builds all types and then the table of operations. A build that fails leaves the
  operations that it had added, so that a second attempt clashes with them.
* `Service.execute`: calls an operation with arguments.
-/

namespace DocumentApi

/-- An api over models. -/
structure Service where
  registry : Registry := {}
  hooks : HookTable := {}
  operations : List Operation := []
  built : Bool := false
  state : State := {}
deriving Repr, Inhabited

namespace Service

/-- A step on the state of a service. -/
def onState {α : Type} (x : Step State α) : Step Service α :=
  Step.zoom Service.state (fun state s => { s with state }) x

/-- A step on the types of a service. -/
def onTypes {α : Type} (x : Step TypeCache α) : Step Service α :=
  onState (State.onTypes x)

/-- A step on the hooks of a service. -/
def onHooks {α : Type} (x : Step HookTable α) : Step Service α :=
  Step.zoom Service.hooks (fun hooks s => { s with hooks }) x

/-- A definition that becomes known to a service, and its place. -/
def define (d : Definition) : Step Service Nat := fun s =>
  let (registry, place) := s.registry.define d
  (.ok place, { s with registry })

/-- Registers a known definition, unless the service is built. -/
def register (place : Nat) : Step Service Unit := fun s =>
  if s.built then (.error .registrationClosed, s)
  else match s.registry.register place with
    | (registry, r) => (r, { s with registry })

/-- Fails when models can no longer be registered. -/
def checkOpen : Step Service Unit := fun s =>
  (if s.built then .error .registrationClosed else .ok (), s)

/-- The operation of a name. -/
def operation? (s : Service) (name : String) : Option Operation :=
  s.operations.find? fun op => op.name == name

/-- Adds an operation whose name is not taken. -/
def addOperation (op : Operation) : Step Service Unit := do
  match (← Step.state).operation? op.name with
  | some other => Step.fail (.operationClash op.name op.model other.model)
  | none => Step.modify fun s => { s with operations := s.operations ++ [op] }

/-- The arguments by which the documents of a model are listed. -/
def listingOf (r : Registry) (d : Definition) : Step TypeCache ListingArguments := do
  let filter ← filterTypeOf r d.name
  let sort ← sortTypeOf r d.name
  return ⟨filter.isSome, sort.isSome, d.textSearch⟩

/-- Adds the operations that a model allows. -/
def addModel (r : Registry) (d : Definition) : Step Service Unit := do
  let _ ← onTypes (typeOf r ⟨d.name, .output⟩)
  let listing ← onTypes (listingOf r d)
  let _ ← onTypes (typeOf r ⟨d.name, .create⟩)
  let _ ← onTypes (typeOf r ⟨d.name, .update⟩)
  let _ ← onTypes (typeOf r ⟨d.name, .pagination⟩)
  let _ ← Step.each (fun api => addOperation (modelOperation d listing api))
    (Api.all.filter d.allows)

/-- Adds the operations of an embedded array. -/
def addEmbedded (r : Registry) (d : Definition) (f : Field) : Step Service Unit := do
  match f.embeddedName with
  | none => Step.fail (.modelNotRegistered "None")
  | some embedded =>
    let _ ← onTypes (typeOf r ⟨embedded, .output⟩)
    let _ ← onTypes (typeOf r ⟨embedded, .update⟩)
    let _ ← onTypes (typeOf r ⟨embedded, .create⟩)
    let _ ← Step.each addOperation (embeddedOperations d f embedded)

/-- Adds the operations of a model and of its embedded arrays. -/
def addOperations (r : Registry) (d : Definition) : Step Service Unit := do
  addModel r d
  let fields ← Step.ofExcept (r.fieldsOf d.name)
  let _ ← Step.each (addEmbedded r d) (fields.filter Field.isEmbeddedArray)

/-- Builds the types and operations of a service, once. -/
def build : Step Service Unit := do
  let s ← Step.state
  if s.built then return
  else
    onTypes (buildAll s.registry)
    let _ ← Step.each (addOperations s.registry) s.registry.topLevel
    Step.modify fun s => { s with built := true }

/-- An operation of a built service. -/
def builtOperation (name : String) : Step Service Operation := do
  build
  match (← Step.state).operation? name with
  | some op => return op
  | none => Step.fail (.operationUnknown name)

/-- Runs an operation with bound arguments. -/
def runOperation (op : Operation) (ctx : Value) (args : Fields) : Step Service Value := do
  let s ← Step.state
  onState (op.run s.registry s.hooks ctx args)

/-- The names that a call keeps for itself: the service, the name of the operation, the context. -/
def reservedArguments : List String :=
  ["self", "name", "ctx"]

/-- Calls an operation with arguments. -/
def execute (name : String) (ctx : Value) (args : Fields) : Step Service Value := do
  if reservedArguments.any (Table.has args) then Step.fail .wrongKind
  else
    let op ← builtOperation name
    let args ← Step.ofExcept (op.bindArguments args)
    runOperation op ctx args

end Service

end DocumentApi
