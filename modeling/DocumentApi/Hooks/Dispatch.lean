import DocumentApi.Hooks.Table

/-!
# Running hooks

* `Handler.run`: a handler makes its requests, leaves an event with its arguments, assigns in them and
  then fails or not.
* `HookTable.dispatch`: runs the handlers of a model and phase one after another, up to the first that
  fails. What a handler assigns inside an argument is seen by the next and by the operation.
-/

namespace DocumentApi

/-- A value with a part replaced: the part at a path of names and places. -/
def Value.assign (v : Value) : List Value → Value → Except Error Value
  | [], w => .ok w
  | .text key :: path, w => match v with
    | .record fields =>
      if path.isEmpty then .ok (.record (Table.set fields key w))
      else match Table.find? fields key with
        | some part => do return .record (Table.set fields key (← assign part path w))
        | none => .error .missingKey
    | .object typeName fields =>
      if path.isEmpty then .ok (.object typeName (Table.set fields key w))
      else match Table.find? fields key with
        | some part => do return .object typeName (Table.set fields key (← assign part path w))
        | none => .error .missingPart
    | _ => .error .wrongKind
  | .int i :: path, w => match v with
    | .list items => match items[i.toNat]? with
      | some part => do return .list (items.set i.toNat (← assign part path w))
      | none => .error .badValue
    | _ => .error .wrongKind
  | _ :: _, _ => .error .wrongKind

/-- The arguments after an assignment. An argument itself is replaced for the handler alone. -/
def assignInside (payload : Fields) (path : List Value) (w : Value) : Except Error Fields :=
  if path.length < 2 then .ok payload
  else match (Value.record payload).assign path w with
    | .ok (.record payload) => .ok payload
    | .ok _ => .ok payload
    | .error e => .error e

/-- Runs a handler and answers its arguments as it leaves them. -/
def Handler.run (h : Handler) (payload : Fields) : Step State Fields := do
  let _ ← Step.each Request.run h.requests
  Step.modify fun s => { s with events := s.events ++ [⟨h.label, payload⟩] }
  let payload ← Step.ofExcept (h.assignments.foldlM (fun p a => assignInside p a.1 a.2) payload)
  match h.failure with
  | some e => Step.fail e
  | none => return payload

namespace HookTable

/-- Runs the handlers of a model and phase, and answers the arguments as they leave them. -/
def dispatch (t : HookTable) (model : String) (phase : HookPhase) (payload : Fields) :
    Step State Fields :=
  Step.fold (fun payload h => h.run payload) payload (t.handlersFor model phase)

/-- Runs the handlers of a phase by its name, whose arguments have to be those of the phase. -/
def dispatchNamed (t : HookTable) (model : String) (phase : Value) (payload : Fields) :
    Step State Fields :=
  match HookPhase.ofValue? phase with
  | none => Step.fail .badValue
  | some phase =>
    let names := Table.names payload
    if phase.payload.all names.contains && names.all phase.payload.contains then
      t.dispatch model phase payload
    else Step.fail (.hookPayloadMismatch phase.name phase.payload names)

end HookTable

end DocumentApi
