import DocumentApi.Model.Settings
import DocumentApi.Store.Request

/-!
# Hooks

Hooks are handlers that run before and after the operations of a model.

* `HookPhase`: when a handler runs; `HookPhase.payload` names what it is given.
* `HookTable.register`: adds a handler for a model, or for all. The phase is checked before the handler,
  and the handler before the model.
* `HookTable.handlersFor`: the handlers of a model and phase, in the order of their registration,
  those for all models among them.
-/

namespace DocumentApi

/-- When a handler runs. -/
inductive HookPhase where
  | beforeCreate
  | afterCreate
  | beforeFindOne
  | afterFindOne
  | beforeFindMany
  | afterFindMany
  | beforeUpdate
  | afterUpdate
  | beforeRemove
  | afterRemove
deriving DecidableEq, Repr, Inhabited

namespace HookPhase

def all : List HookPhase :=
  [beforeCreate, afterCreate, beforeFindOne, afterFindOne, beforeFindMany, afterFindMany,
    beforeUpdate, afterUpdate, beforeRemove, afterRemove]

def name : HookPhase → String
  | beforeCreate => "before_create"
  | afterCreate => "after_create"
  | beforeFindOne => "before_find_one"
  | afterFindOne => "after_find_one"
  | beforeFindMany => "before_find_many"
  | afterFindMany => "after_find_many"
  | beforeUpdate => "before_update"
  | afterUpdate => "after_update"
  | beforeRemove => "before_remove"
  | afterRemove => "after_remove"

/-- The phase of a name. -/
def ofValue? : Value → Option HookPhase
  | .text s => all.find? fun phase => phase.name == s
  | _ => none

/-- The names of what the handlers of a phase are given. -/
def payload : HookPhase → List String
  | beforeCreate => ["ctx", "input"]
  | afterCreate => ["ctx", "input", "created"]
  | beforeFindOne => ["ctx", "filter"]
  | afterFindOne => ["ctx", "filter", "result"]
  | beforeFindMany => ["ctx", "filter", "sort"]
  | afterFindMany => ["ctx", "filter", "sort", "items"]
  | beforeUpdate => ["ctx", "input", "before_updated"]
  | afterUpdate => ["ctx", "input", "updated", "before_updated"]
  | beforeRemove => ["ctx", "before_removed"]
  | afterRemove => ["ctx", "removed"]

end HookPhase

/-- A handler: what it asks of the store, what it assigns in its arguments and whether it fails. -/
structure Handler where
  label : Value
  requests : List Request := []
  assignments : List (List Value × Value) := []
  failure : Option Error := none
deriving Repr, Inhabited

/-- Something that is registered as a handler. -/
inductive HandlerSource where
  | handler (h : Handler)
  /-- A value that cannot be called. -/
  | plain (v : Value)
deriving Repr, Inhabited

/-- The models that a handler is for. -/
inductive HookMatcher where
  | all
  | model (name : String)
deriving DecidableEq, Repr, Inhabited

namespace HookMatcher

/-- The models that a name, a named thing or the wildcard stands for. -/
def ofSetting : Setting → Except Error HookMatcher
  | .definition _ name => .ok (model name)
  | .type _ => .error (.hookTargetInvalid .null)
  | .value v => match v with
    | .wildcard => .ok all
    | .text s => .ok (model s)
    | .member _ name _ => .ok (model name)
    | .object _ fields => match Table.find? fields "name" with
      | some (.text s) => .ok (model s)
      | _ => .error (.hookTargetInvalid v)
    | _ => .error (.hookTargetInvalid v)

def covers : HookMatcher → String → Bool
  | all, _ => true
  | model name, other => name == other

end HookMatcher

/-- A registered handler. -/
structure HookEntry where
  matcher : HookMatcher
  phase : HookPhase
  handler : Handler
deriving Repr, Inhabited

/-- Whether a handler is for a model and phase. -/
def HookEntry.applies (e : HookEntry) (model : String) (phase : HookPhase) : Bool :=
  e.phase == phase && e.matcher.covers model

/-- Registered handlers, in order. -/
structure HookTable where
  entries : List HookEntry := []
deriving Repr, Inhabited

namespace HookTable

/-- Adds a handler for a model in a phase. -/
def add (target : Setting) (phase : HookPhase) (source : HandlerSource) : Step HookTable Unit :=
  match source with
  | .plain _ => Step.fail (.handlerNotCallable phase.name)
  | .handler h => do
    let matcher ← Step.ofExcept (HookMatcher.ofSetting target)
    Step.modify fun t => ⟨t.entries ++ [⟨matcher, phase, h⟩]⟩

/-- Registers a handler under the name of a phase. -/
def register (target : Setting) (phase : Value) (source : HandlerSource) : Step HookTable Unit :=
  match HookPhase.ofValue? phase with
  | some phase => add target phase source
  | none => Step.fail (.phaseUnknown phase)

/-- The phases that methods are given for, in the order of the phases. -/
def phaseMethods (methods : Table HandlerSource) : List (HookPhase × HandlerSource) :=
  HookPhase.all.filterMap fun phase => match Table.find? methods phase.name with
    | some (.plain v) => if v.isNull then none else some (phase, .plain v)
    | some source => some (phase, source)
    | none => none

/-- Registers every method that is named for a phase, and answers their count. -/
def registerAll (target : Setting) (methods : Table HandlerSource) : Step HookTable Nat := do
  let added ← Step.each (fun entry => add target entry.1 entry.2) (phaseMethods methods)
  return added.length

/-- The handlers of a model in a phase. -/
def handlersFor (t : HookTable) (model : String) (phase : HookPhase) : List Handler :=
  (t.entries.filter fun e => e.applies model phase).map HookEntry.handler

end HookTable

end DocumentApi
