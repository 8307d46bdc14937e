import DocumentApi.Value.Equality
import DocumentApi.Value.Text

/-!
# Errors

An `Error` is the cause of a failure.

* `Error.kind?`: the kind under which the library reports a cause of its own, with its code.
* `Error.message?`: the wording of a cause; causes that concern only the form of an argument have
  none.
* `Error.extensions`: what is sent beside the message, the code and what a hook adds to it.
-/

namespace DocumentApi

/-- The kinds of errors that clients can tell apart. -/
inductive ErrorKind where
  | internal
  | notFound
  | invalidArgument
  | schemaDefinition
  | hookFailure
deriving DecidableEq, Repr, Inhabited

/-- The code that clients see. -/
def ErrorKind.code : ErrorKind → String
  | internal => "INTERNAL"
  | notFound => "NOT_FOUND"
  | invalidArgument => "INVALID_ARGUMENT"
  | schemaDefinition => "SCHEMA_DEFINITION"
  | hookFailure => "HOOK_FAILURE"

/-- The cause of a failure. -/
inductive Error where
  /-- An error that a hook reports. -/
  | reported (kind : ErrorKind) (message : String) (extra : Fields)
  /-- A value that a hook refuses. -/
  | refused (message : String)
  | documentMissing (model : String) (id : Value)
  | elementMissing (embedded : String) (id : Value) (parent : String) (parentId : Value)
  | filterOperatorUnknown (operator key : String)
  | idRequired (model : String)
  | pageTooSmall (page : Value)
  | limitTooSmall (limit : Value)
  | idsRequired (embedded : String)
  | operationUnknown (name : String)
  | argumentsUnknown (operation : String) (names : List String)
  | argumentRequired (name operation : String)
  | modelNameInvalid (name : String)
  | modelRegistered (name : String)
  | modelNotRegistered (name : String)
  | fieldNameInvalid (model field : String)
  | fieldRegistered (model field : String)
  | modelCycle (chain : List String)
  | containsNeedsText (model field : String)
  | relationTargetUnknown (model field target : String)
  | fieldTypeUnresolved (model field : String)
  | embeddedModelUnknown (model field : String) (embedded : Option String)
  | operationClash (operation model other : String)
  | registrationClosed
  | notEmbeddedArray (model field : String)
  | operatorsUnknown (field : String) (operators : List String)
  | apisUnknown (model : String) (apis : List String)
  | phaseUnknown (phase : Value)
  | handlerNotCallable (phase : String)
  | hookTargetInvalid (target : Value)
  | hookPayloadMismatch (phase : String) (expected given : List String)
  /-- A required key is absent. -/
  | missingKey
  /-- A value is of a kind that does not fit its use. -/
  | wrongKind
  /-- A value is outside those allowed. -/
  | badValue
  /-- A value lacks the part that is asked for. -/
  | missingPart
  /-- A number is past the range it is used in. -/
  | tooLarge
  /-- The store has no such operation. -/
  | notSupported
  /-- A document has the id already. -/
  | idTaken
  /-- Two types of a schema have one name. -/
  | typeNameTaken
  /-- A request does not fit the schema, or an answer does not fit its type. -/
  | badRequest
deriving Repr, Inhabited

namespace Error

open Value (commaJoin)

/-- The kind under which a cause is reported. -/
def kind? : Error → Option ErrorKind
  | reported kind _ _ => some kind
  | documentMissing .. | elementMissing .. => some .notFound
  | filterOperatorUnknown .. | idRequired _ | pageTooSmall _ | limitTooSmall _ | idsRequired _
  | operationUnknown _ | argumentsUnknown .. | argumentRequired .. => some .invalidArgument
  | modelNameInvalid _ | modelRegistered _ | modelNotRegistered _ | fieldNameInvalid ..
  | fieldRegistered .. | modelCycle _ | containsNeedsText .. | relationTargetUnknown ..
  | fieldTypeUnresolved .. | embeddedModelUnknown .. | operationClash .. | registrationClosed
  | notEmbeddedArray .. => some .schemaDefinition
  | refused _ | operatorsUnknown .. | apisUnknown .. | phaseUnknown _ | handlerNotCallable _
  | hookTargetInvalid _ | hookPayloadMismatch .. | missingKey | wrongKind | badValue | missingPart
  | tooLarge | notSupported | idTaken | typeNameTaken | badRequest => none

/-- The wording of a cause. -/
def message? : Error → Option String
  | reported _ message _ => some message
  | refused message => some message
  | documentMissing model id => some s!"No {model} found with ID: {id.display}"
  | elementMissing embedded id parent parentId =>
    some s!"No {embedded} found with ID: {id.display} in {parent} with ID: {parentId.display}"
  | filterOperatorUnknown operator key =>
    some s!"Unknown filter operator {quoted operator} on {key}"
  | idRequired model => some s!"An id is required to update a {model}"
  | pageTooSmall page => some s!"page must be >= 1, got {page.display}"
  | limitTooSmall limit => some s!"limit must be >= 1, got {limit.display}"
  | idsRequired embedded => some s!"No {embedded} IDs provided"
  | operationUnknown name => some s!"Unknown operation: {name}"
  | argumentsUnknown operation names =>
    some s!"Unknown argument(s) for {operation}: {commaJoin names}"
  | argumentRequired name operation => some s!"Missing required argument {name} for {operation}"
  | modelNameInvalid name => some s!"Invalid model name {quoted name}"
  | modelRegistered name => some s!"Model {name} is already registered"
  | modelNotRegistered name => some s!"Model {name} is not registered"
  | fieldNameInvalid model field => some s!"Invalid field name {model}.{quoted field}"
  | fieldRegistered model field => some s!"Field {model}.{field} is already registered"
  | modelCycle chain => some ("Embedded model cycle detected: " ++ " -> ".intercalate chain)
  | containsNeedsText model field =>
    some s!"Filter operator contains needs a text field, {model}.{field} is not one"
  | relationTargetUnknown model field target =>
    some s!"Relation {model}.{field} targets unknown model {target}"
  | fieldTypeUnresolved model field =>
    some (s!"Invalid type for field {model}.{field}. " ++
      "You can override it with type_override=<type>")
  | embeddedModelUnknown model field embedded =>
    let name := embedded.getD "None"
    some s!"Field {model}.{field} references unknown embedded model {name}"
  | operationClash operation model other =>
    some s!"Operation {operation} of {model} clashes with one of {other}"
  | registrationClosed => some "Cannot register models after the schema has been built"
  | notEmbeddedArray model field => some s!"Field {model}.{field} is not an embedded array"
  | operatorsUnknown field operators =>
    some s!"Unknown filter operator(s) for field {field}: {commaJoin operators}"
  | apisUnknown model apis => some s!"Unknown api(s) for model {model}: {commaJoin apis}"
  | phaseUnknown phase => some s!"Unknown hook phase: {phase.display}"
  | handlerNotCallable phase => some s!"Hook handler for {phase} must be callable"
  | hookTargetInvalid target =>
    some (s!"Cannot register hooks for {target.inspect}; " ++
      "pass a model name, definition or ALL_MODELS")
  | hookPayloadMismatch phase expected given =>
    some s!"{phase} hooks take ({commaJoin expected}), got ({commaJoin given})"
  | missingKey | wrongKind | badValue | missingPart | tooLarge | notSupported | idTaken
  | typeNameTaken | badRequest => none

/-- What is sent beside the message: the code, and what the error adds to it or replaces in it. -/
def extensions (e : Error) : Fields :=
  match e.kind? with
  | none => []
  | some kind =>
    let code : Fields := [("code", .text kind.code)]
    match e with
    | reported _ _ extra => Table.merge code extra
    | _ => code

/-- Whether a client sees more than the code of the kind. -/
def hasExtraExtensions (e : Error) : Bool :=
  match e.kind? with
  | none => false
  | some kind => !(Value.record e.extensions).same (.record [("code", .text kind.code)])

end Error

end DocumentApi
