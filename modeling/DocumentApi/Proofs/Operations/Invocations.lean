import DocumentApi.Proofs.Operations.Hooked

/-!
# Handlers that an operation calls

* `HookCall`: a registration of handlers; `HookTable.after` is the table that registrations leave,
  and `HookCall.entries` what one of them adds to it, whatever it answers.
* `Invocation`: a call of a handler, with the arguments and the state that it found.
* `invocations`: the handlers of a list that are called, up to the first that fails.
* `HookedOperation.invoked`: the handlers that an operation calls, before and after its work.
* `Step.SparesEvents`: a step that calls no handler.
* `ModelOperations.runModel_invokes`: the calls of an operation, for any registrations.
-/

namespace DocumentApi

/-! ## Registrations -/

/-- A registration of one handler, by a call or as a decorator, or of all methods of an object that
are named for a phase. -/
inductive HookCall where
  | register (target : Setting) (phase : Value) (source : HandlerSource)
  | registerAll (target : Setting) (methods : Table HandlerSource)

namespace HookCall

/-- What is registered in turn. -/
def sources : HookCall → List (HookPhase × HandlerSource)
  | register _ phase source => ((HookPhase.ofValue? phase).map fun phase => (phase, source)).toList
  | registerAll _ methods => HookTable.phaseMethods methods

def target : HookCall → Setting
  | register target _ _ | registerAll target _ => target

/-- The handlers that are entered for a target, up to the first that is refused. -/
def entered (target : Setting) : List (HookPhase × HandlerSource) → List HookEntry
  | [] => []
  | (phase, source) :: rest => match source, HookMatcher.ofSetting target with
    | .handler h, .ok matcher => ⟨matcher, phase, h⟩ :: entered target rest
    | _, _ => []

/-- The handlers that a registration enters. -/
def entries (call : HookCall) : List HookEntry :=
  entered call.target call.sources

/-- The hook table that a registration leaves, also when it fails. -/
def leaves (t : HookTable) : HookCall → HookTable
  | register target phase source => (HookTable.register target phase source t).2
  | registerAll target methods => (HookTable.registerAll target methods t).2

end HookCall

/-- The hook table that registrations leave one after another. -/
def HookTable.after (calls : List HookCall) : HookTable :=
  calls.foldl HookCall.leaves {}

/-- The state that a step for every item leaves: the one after the first item that fails. -/
theorem Step.each_cons_state {σ α β : Type} (f : α → Step σ β) (x : α) (xs : List α) (s : σ) :
    (Step.each f (x :: xs) s).2 = match f x s with
      | (.ok _, t) => (Step.each f xs t).2
      | (.error _, t) => t := by
  show ((f x >>= fun y => Step.each f xs >>= fun ys => Pure.pure (y :: ys)) s).2 = _
  rw [Step.bind_run]
  rcases f x s with ⟨e | y, t⟩
  · rfl
  · dsimp only
    rw [Step.bind_run]
    rcases Step.each f xs t with ⟨e | ys, u⟩ <;> rfl

theorem each_add_entries (target : Setting) (sources : List (HookPhase × HandlerSource))
    (t : HookTable) :
    (Step.each (fun entry => HookTable.add target entry.1 entry.2) sources t).2.entries =
      t.entries ++ HookCall.entered target sources := by
  induction sources generalizing t with
  | nil => exact (List.append_nil _).symm
  | cons source sources ih =>
    obtain ⟨phase, source⟩ := source
    rw [Step.each_cons_state]
    unfold HookCall.entered
    cases source with
    | plain v => exact (List.append_nil _).symm
    | handler h =>
      cases hmatcher : HookMatcher.ofSetting target with
      | error e =>
        have hadd : HookTable.add target phase (.handler h) t = (.error e, t) := by
          unfold HookTable.add
          rw [hmatcher]
          rfl
        dsimp only
        rw [hadd]
        exact (List.append_nil _).symm
      | ok matcher =>
        have hadd : HookTable.add target phase (.handler h) t =
            (.ok (), ⟨t.entries ++ [⟨matcher, phase, h⟩]⟩) := by
          unfold HookTable.add
          rw [hmatcher]
          rfl
        dsimp only
        rw [hadd]
        dsimp only
        rw [ih, List.append_assoc, List.singleton_append]

theorem HookCall.leaves_entries (t : HookTable) (call : HookCall) :
    (call.leaves t).entries = t.entries ++ call.entries := by
  cases call with
  | register target phase source =>
    show (HookTable.register target phase source t).2.entries = t.entries ++
      entered target ((HookPhase.ofValue? phase).map fun phase => (phase, source)).toList
    unfold HookTable.register
    cases HookPhase.ofValue? phase with
    | none => exact (List.append_nil _).symm
    | some phase' =>
      refine Eq.trans ?_ (each_add_entries target [(phase', source)] t)
      rw [Step.each_cons_state]
      dsimp only
      rcases HookTable.add target phase' source t with ⟨e | _, u⟩ <;> rfl
  | registerAll target methods =>
    refine Eq.trans ?_ (each_add_entries target (HookTable.phaseMethods methods) t)
    show ((Step.each _ (HookTable.phaseMethods methods) >>= fun added => _) t).2.entries = _
    rw [Step.bind_run]
    rcases Step.each _ _ t with ⟨e | _, u⟩ <;> rfl

/-- The handlers of a hook table are those that its registrations enter, in their order. -/
theorem HookTable.after_entries (calls : List HookCall) :
    (HookTable.after calls).entries = calls.flatMap HookCall.entries := by
  have hall : ∀ t : HookTable,
      (calls.foldl HookCall.leaves t).entries = t.entries ++ calls.flatMap HookCall.entries := by
    induction calls with
    | nil => exact fun t => (List.append_nil _).symm
    | cons call calls ih =>
      intro t
      rw [List.foldl_cons, ih, call.leaves_entries, List.flatMap_cons, List.append_assoc]
  exact hall {}

/-! ## Calls of handlers -/

/-- A call of a handler: what it is given, and the state that it finds. -/
structure Invocation where
  handler : Handler
  payload : Fields
  state : State

/-- The event that a call leaves. A handler that a request of its own fails leaves none. -/
def Invocation.events (call : Invocation) : List Event :=
  if (Step.each Request.run call.handler.requests call.state).1.isOk then
    [⟨call.handler.label, call.payload⟩]
  else []

/-- The calls of handlers one after another, up to the first that fails. -/
def invocations : List Handler → Fields → State → List Invocation
  | [], _, _ => []
  | h :: rest, payload, s => ⟨h, payload, s⟩ :: match h.run payload s with
    | (.ok payload, t) => invocations rest payload t
    | (.error _, _) => []

/-- The handlers run one after another. -/
def runAll (handlers : List Handler) (payload : Fields) : Step State Fields :=
  Step.fold (fun payload h => h.run payload) payload handlers

section Calls

variable {handlers : List Handler} {payload passed : Fields} {s t : State}

/-- The handlers that are called come first in the list. -/
theorem invocations_prefix (handlers : List Handler) (payload : Fields) (s : State) :
    (invocations handlers payload s).map Invocation.handler <+: handlers := by
  induction handlers generalizing payload s with
  | nil => exact List.prefix_refl []
  | cons h rest ih =>
    unfold invocations
    rw [List.map_cons, List.prefix_cons_inj]
    rcases h.run payload s with ⟨e | passed, t⟩
    · exact List.nil_prefix
    · exact ih passed t

/-- If none fails, all are called. -/
theorem invocations_of_ok (h : runAll handlers payload s = (.ok passed, t)) :
    (invocations handlers payload s).map Invocation.handler = handlers := by
  induction handlers generalizing payload s with
  | nil => rfl
  | cons handler rest ih =>
    change (handler.run payload >>= fun next => runAll rest next) s = _ at h
    obtain ⟨next, u, hrun, h⟩ := Step.bind_ok h
    unfold invocations
    rw [List.map_cons, hrun]
    exact congrArg (handler :: ·) (ih h)

end Calls

/-! ## Steps that call no handler -/

/-- A step leaves the events as they are. -/
def Step.SparesEvents {α : Type} (x : Step State α) : Prop :=
  ∀ events, x.Preserves fun s => s.events = events

namespace Step.SparesEvents

variable {α : Type}

theorem eq {x : Step State α} (hx : x.SparesEvents) {s t : State} {answer : Except Error α}
    (h : x s = (answer, t)) : t.events = s.events :=
  (hx s.events).run rfl h

theorem events_eq {x : Step State α} (hx : x.SparesEvents) (s : State) :
    (x s).2.events = s.events :=
  hx.eq rfl

theorem closed (r : Registry) : Closed r Step.SparesEvents where
  pure a := fun _ => .pure a
  fail e := fun _ => .fail e
  bind hx hf := fun events => .bind (hx events) fun a ha => hf a ha events
  onIds _ := fun _ _ hs => hs
  output _ _ := fun _ _ hs => hs
  typeOf _ := fun _ _ hs => hs
  readStore _ := fun _ _ hs => hs
  findById _ _ := fun _ _ hs => hs

theorem onStore (x : Step Store α) : (State.onStore x).SparesEvents := fun _ _ hs => hs

theorem insert (collection : String) (data : Fields) :
    (State.insert collection data).SparesEvents := by
  have hclosed := closed {}
  unfold State.insert
  dsimp only
  split
  · exact hclosed.bind (hclosed.pure _) fun _ _ => onStore _
  · exact hclosed.bind (hclosed.onIds _) fun _ _ => onStore _

theorem request (request : Request) : request.run.SparesEvents := by
  have hclosed := closed {}
  cases request with
  | insert collection data =>
    refine hclosed.bind (hclosed.ofExcept _) fun fields _ => ?_
    exact hclosed.bind (insert _ _) fun stored _ => hclosed.pure _
  | findById => exact hclosed.bind (hclosed.findById _ _) fun _ _ => hclosed.pure _
  | find => exact hclosed.bind (hclosed.readStore _) fun _ _ => hclosed.pure _
  | paginate => exact hclosed.bind (hclosed.readStore _) fun _ _ => hclosed.pure _
  | update collection id changes =>
    unfold Request.run
    dsimp only
    split
    · exact hclosed.bind (onStore _) fun _ _ => hclosed.pure _
    · exact hclosed.fail _
  | addToSet => exact hclosed.bind (onStore _) fun _ _ => hclosed.pure _
  | delete => exact hclosed.bind (onStore _) fun _ _ => hclosed.pure _
  | createAll => exact hclosed.pure _
  | dropAll => exact hclosed.bind (onStore _) fun _ _ => hclosed.pure _
  | malformed e => exact hclosed.fail e

end Step.SparesEvents

/-- A handler leaves the event of its call. -/
theorem Handler.run_events (h : Handler) (payload : Fields) (s : State) :
    (h.run payload s).2.events = s.events ++ Invocation.events ⟨h, payload, s⟩ := by
  have hclosed := Step.SparesEvents.closed {}
  have hrequests : (Step.each Request.run h.requests).SparesEvents :=
    hclosed.each fun request _ => .request request
  unfold Handler.run Invocation.events
  rw [Step.bind_run]
  rcases hrun : Step.each Request.run h.requests s with ⟨e | _, t⟩
  · exact (hrequests.eq hrun).trans (List.append_nil _).symm
  · have hevents := hrequests.eq hrun
    dsimp only
    rw [Step.bind_run]
    -- after its event, a handler only assigns
    refine (Step.SparesEvents.events_eq ?_
      { t with events := t.events ++ [⟨h.label, payload⟩] }).trans ?_
    · refine hclosed.bind (hclosed.ofExcept _) fun payload _ => ?_
      split
      · exact hclosed.fail _
      · exact hclosed.pure _
    · rw [hevents]
      rfl

/-- Handlers that run one after another leave the events of the calls. -/
theorem runAll_events (handlers : List Handler) (payload : Fields) (s : State) :
    (runAll handlers payload s).2.events =
      s.events ++ (invocations handlers payload s).flatMap Invocation.events := by
  induction handlers generalizing payload s with
  | nil => exact (List.append_nil _).symm
  | cons h rest ih =>
    have hfirst := h.run_events payload s
    unfold invocations
    show ((h.run payload >>= fun next => runAll rest next) s).2.events = _
    rw [Step.bind_run, List.flatMap_cons, ← List.append_assoc, ← hfirst]
    rcases h.run payload s with ⟨e | passed, t⟩
    · exact (List.append_nil _).symm
    · exact ih passed t

/-! ## Operations -/

namespace HookedOperation

/-- The calls of handlers by an operation: those before its work, if it opens, and those after it,
if none before it failed and the work did not fail either. -/
def invoked (op : HookedOperation) (before after : List Handler) (s : State) : List Invocation :=
  match op.opening s with
  | (.error _, _) => []
  | (.ok (kept, payload), t) => invocations before payload t ++
    match runAll before payload t with
      | (.error _, _) => []
      | (.ok passed, u) => match op.work kept passed u with
        | (.error _, _) => []
        | (.ok made, v) => invocations after made v

variable {op : HookedOperation} {before after : List Handler} {s t : State} {e : Error}

theorem invoked_of_refused (h : op.opening s = (.error e, t)) : op.invoked before after s = [] := by
  unfold invoked
  rw [h]

/-- The handlers that an operation calls are the first ones of its first phase, or all of these and
the first ones of its second phase. -/
theorem invoked_handlers (op : HookedOperation) (before after : List Handler) (s : State) :
    (op.invoked before after s).map Invocation.handler <+: before ∨
      ∃ later, later <+: after ∧
        (op.invoked before after s).map Invocation.handler = before ++ later := by
  unfold invoked
  rcases op.opening s with ⟨e | ⟨kept, payload⟩, t⟩
  · exact Or.inl List.nil_prefix
  · dsimp only
    rw [List.map_append]
    rcases hbefore : runAll before payload t with ⟨e | passed, u⟩
    · left
      simpa using invocations_prefix before payload t
    · right
      rw [invocations_of_ok hbefore]
      dsimp only
      rcases op.work kept passed u with ⟨e | made, v⟩
      · exact ⟨[], List.nil_prefix, rfl⟩
      · exact ⟨_, invocations_prefix after made v, rfl⟩

/-- An operation whose own steps leave no events leaves those of the calls of handlers. -/
theorem run_events (hopening : op.opening.SparesEvents)
    (hwork : ∀ kept payload, (op.work kept payload).SparesEvents) (hooks : HookTable) (model : String)
    (s : State) :
    (op.run (hooks.handlers model) s).2.events = s.events ++
      (op.invoked (hooks.handlersFor model op.before) (hooks.handlersFor model op.after) s).flatMap
        Invocation.events := by
  have hrun : ∀ phase payload, (hooks.handlers model).dispatch phase payload =
      runAll (hooks.handlersFor model phase) payload :=
    fun phase payload => (hooks.dispatch_handlers model phase payload).symm
  unfold run invoked
  simp only [hrun]
  rw [Step.bind_run]
  rcases hopen : op.opening s with ⟨e | ⟨kept, payload⟩, t⟩
  · exact (hopening.eq hopen).trans (List.append_nil _).symm
  · have hfirst := runAll_events (hooks.handlersFor model op.before) payload t
    rw [hopening.eq hopen] at hfirst
    dsimp only
    rw [List.flatMap_append, ← List.append_assoc, ← hfirst, Step.bind_run]
    rcases runAll (hooks.handlersFor model op.before) payload t with ⟨e | passed, u⟩
    · exact (List.append_nil _).symm
    dsimp only
    rw [Step.bind_run]
    rcases hworked : op.work kept passed u with ⟨e | made, v⟩
    · exact ((hwork kept passed).eq hworked).trans (List.append_nil _).symm
    · have hlast := runAll_events (hooks.handlersFor model op.after) made v
      rw [(hwork kept passed).eq hworked] at hlast
      dsimp only
      rw [← hlast, Step.bind_run]
      rcases runAll (hooks.handlersFor model op.after) made v with ⟨e | left, w⟩ <;> rfl

end HookedOperation

/-- The phases before and after the work of an operation. The listing by pages has none. -/
def Api.phases? : Api → Option (HookPhase × HookPhase)
  | .create => some (.beforeCreate, .afterCreate)
  | .update => some (.beforeUpdate, .afterUpdate)
  | .remove => some (.beforeRemove, .afterRemove)
  | .findOne => some (.beforeFindOne, .afterFindOne)
  | .findAll => some (.beforeFindMany, .afterFindMany)
  | .paginate => none

namespace ModelOperations

variable {m : ModelOperations} {ctx : Value} {args : Fields} {api : Api} {op : HookedOperation}

theorem opening_sparesEvents (hop : m.hooked? ctx args api = some op) :
    op.opening.SparesEvents := by
  have hclosed := Step.SparesEvents.closed m.registry
  cases api with
  | create =>
    cases hop
    exact hclosed.bind (hclosed.ofExcept _) fun _ _ => hclosed.pure _
  | update =>
    cases hop
    refine hclosed.bind (hclosed.ofExcept _) fun data _ => ?_
    dsimp only
    split
    · exact hclosed.fail _
    · refine hclosed.bind (load_closed hclosed _) fun doc _ => ?_
      exact hclosed.bind (hclosed.output _ _) fun old _ => hclosed.pure _
  | remove =>
    cases hop
    refine hclosed.bind (load_closed hclosed _) fun doc _ => ?_
    exact hclosed.bind (hclosed.output _ _) fun old _ => hclosed.pure _
  | findOne =>
    cases hop
    exact hclosed.pure _
  | findAll =>
    cases hop
    refine hclosed.bind (hclosed.ofExcept _) fun _ _ => ?_
    exact hclosed.bind (hclosed.ofExcept _) fun _ _ => hclosed.pure _
  | paginate => cases hop

/-- Inline sub-objects are stored without a call of the hooks of their models. -/
theorem linkInline_sparesEvents (r : Registry) (owner : Definition) (id : String)
    (part : Field × List Value) : (linkInline r owner id part).SparesEvents := by
  have hclosed := Step.SparesEvents.closed r
  have hstores : ∀ d, True → Stores r Step.SparesEvents d := by
    intro d _ data inline hparts α x hx
    refine hclosed.bind (.insert _ _) fun stored _ => ?_
    refine hclosed.bind (hclosed.each fun part hpart => ?_) fun _ _ => hx stored
    refine hclosed.bind (hclosed.ofExcept _) fun target htarget => ?_
    refine hclosed.bind (hclosed.each fun item hitem => ?_) fun ids _ => ?_
    · exact hparts part hpart target htarget.ofExcept item hitem
    · exact hclosed.bind (.onStore _) fun _ _ => hclosed.pure _
  refine hclosed.bind (hclosed.ofExcept _) fun target _ => ?_
  refine hclosed.bind (hclosed.each fun item _ => ?_) fun ids _ => ?_
  · exact createInline_closed hclosed hstores (fun _ _ _ _ => trivial) trivial item
  · exact hclosed.bind (.onStore _) fun _ _ => hclosed.pure _

theorem work_sparesEvents (hop : m.hooked? ctx args api = some op) (kept : Value)
    (payload : Fields) : (op.work kept payload).SparesEvents := by
  have hclosed := Step.SparesEvents.closed m.registry
  cases api with
  | create =>
    cases hop
    refine hclosed.bind (hclosed.onIds _) fun prepared _ => ?_
    refine hclosed.bind (.insert _ _) fun stored _ => ?_
    refine hclosed.bind (hclosed.each fun part _ => linkInline_sparesEvents _ _ _ part) fun _ _ => ?_
    refine hclosed.bind (load_closed hclosed _) fun doc _ => ?_
    exact hclosed.bind (hclosed.output _ _) fun created _ => hclosed.pure _
  | update =>
    cases hop
    refine hclosed.bind (hclosed.ofExcept _) fun given _ => ?_
    refine hclosed.bind (hclosed.onIds _) fun changes _ => ?_
    refine hclosed.bind (.onStore _) fun found _ => ?_
    cases found with
    | none => exact hclosed.fail _
    | some _ =>
      refine hclosed.bind (load_closed hclosed _) fun doc _ => ?_
      exact hclosed.bind (hclosed.output _ _) fun updated _ => hclosed.pure _
  | remove =>
    cases hop
    refine hclosed.bind (.onStore _) fun existed _ => ?_
    cases existed with
    | true => exact hclosed.pure _
    | false => exact hclosed.fail _
  | findOne =>
    cases hop
    refine hclosed.bind (load_closed hclosed _) fun doc _ => ?_
    exact hclosed.bind (hclosed.output _ _) fun result _ => hclosed.pure _
  | findAll =>
    cases hop
    refine hclosed.bind (hclosed.ofExcept _) fun keys _ => ?_
    refine hclosed.bind (hclosed.ofExcept _) fun search _ => ?_
    refine hclosed.bind (hclosed.readStore _) fun docs _ => ?_
    exact hclosed.bind (hclosed.each fun doc _ => hclosed.output _ _) fun items _ => hclosed.pure _
  | paginate => cases hop

/-- An update whose document is missing is refused before any hook. -/
theorem update_opening_missing (m : ModelOperations) (ctx : Value) {input : Value} {data : Fields}
    {s : State} (hdata : input.asFields = .ok data)
    (hnone : s.store.find? m.model.storedIn (Fields.get data "id").display = none) :
    ∃ e, (m.hookedUpdate ctx input).opening s = (.error e, s) := by
  by_cases hid : (Fields.get data "id").truthy
  · refine ⟨.documentMissing m.model.name (Fields.get data "id"), ?_⟩
    show (Step.ofExcept input.asFields >>= _) s = _
    rw [hdata, Step.bind_run]
    dsimp only [Step.ofExcept]
    rw [if_neg (by simp [hid]), Step.bind_run, load_answer, hnone]
    rfl
  · refine ⟨.idRequired m.model.name, ?_⟩
    show (Step.ofExcept input.asFields >>= _) s = _
    rw [hdata, Step.bind_run]
    dsimp only [Step.ofExcept]
    rw [if_pos (by simpa using hid)]
    rfl

/-- So is the removal of a document that is missing. -/
theorem remove_opening_missing (m : ModelOperations) (ctx : Value) {id : Value} {s : State}
    (hnone : s.store.find? m.model.storedIn id.display = none) :
    ∃ e, (m.hookedRemove ctx id).opening s = (.error e, s) := by
  refine ⟨.documentMissing m.model.name id, ?_⟩
  show (m.load id >>= _) s = _
  rw [Step.bind_run, load_answer, hnone]
  rfl

/-- After any registrations, an operation of a model calls the handlers that were registered for the
model or for all, in the order of their registration: those of its first phase up to the first that
fails, and if none does and its work succeeds those of its second phase in the same way. What it does
beside that, `op`, knows no hook table and leaves no event. An update or a removal whose document is
missing calls no handler, the look-up of one document begins with its first phase in every state, and
the listing by pages does not look at the hook table at all. -/
theorem runModel_invokes (calls : List HookCall) (r : Registry) (d : Definition) (api : Api)
    (ctx : Value) (args : Fields) (s : State) :
    let hooks := HookTable.after calls
    let registered := fun phase =>
      ((calls.flatMap HookCall.entries).filter fun e => e.phase == phase && e.matcher.covers d.name
        ).map HookEntry.handler
    (api = .paginate →
      Operation.runModel ⟨r, hooks, d⟩ api ctx args = Operation.runModel ⟨r, {}, d⟩ api ctx args ∧
      (Operation.runModel ⟨r, hooks, d⟩ api ctx args s).2.events = s.events) ∧
    (api ≠ .paginate → ∃ op, hooked? ⟨r, {}, d⟩ ctx args api = some op ∧
      api.phases? = some (op.before, op.after) ∧
      Operation.runModel ⟨r, hooks, d⟩ api ctx args =
        op.run (fun phase => (registered phase).map Handler.run) ∧
      (Operation.runModel ⟨r, hooks, d⟩ api ctx args s).2.events = s.events ++
        (op.invoked (registered op.before) (registered op.after) s).flatMap Invocation.events ∧
      op.opening.SparesEvents ∧ (∀ kept payload, (op.work kept payload).SparesEvents) ∧
      ((op.invoked (registered op.before) (registered op.after) s).map Invocation.handler <+:
          registered op.before ∨
        ∃ later, later <+: registered op.after ∧
          (op.invoked (registered op.before) (registered op.after) s).map Invocation.handler =
            registered op.before ++ later) ∧
      (api = .update → ∀ data, (Fields.get args "input").asFields = .ok data →
        s.store.find? d.storedIn (Fields.get data "id").display = none →
        op.invoked (registered op.before) (registered op.after) s = []) ∧
      (api = .remove → s.store.find? d.storedIn (Fields.get args "id").display = none →
        op.invoked (registered op.before) (registered op.after) s = []) ∧
      (api = .findOne → ∃ payload, op.opening s = (.ok (.null, payload), s))) := by
  intro hooks registered
  have hregistered : ∀ phase, hooks.handlersFor d.name phase = registered phase := by
    intro phase
    unfold HookTable.handlersFor
    rw [HookTable.after_entries]
    rfl
  constructor
  · rintro rfl
    exact ⟨rfl, Step.SparesEvents.eq (paginate_closed (m := ⟨r, hooks, d⟩) (Step.SparesEvents.closed r)
      _ _ _ _ _) rfl⟩
  · intro hapi
    obtain ⟨op, hop⟩ : ∃ op, hooked? ⟨r, {}, d⟩ ctx args api = some op := by
      cases api with
      | paginate => exact absurd rfl hapi
      | _ => exact ⟨_, rfl⟩
    have hrun : Operation.runModel ⟨r, hooks, d⟩ api ctx args = op.run (hooks.handlers d.name) :=
      runModel_hooked ((hooked?_hooks (m := ⟨r, {}, d⟩) hooks).trans hop)
    refine ⟨op, hop, ?_, ?_, ?_, opening_sparesEvents hop, work_sparesEvents hop,
      op.invoked_handlers _ _ s, ?_, ?_, ?_⟩
    · cases api <;> cases hop <;> rfl
    · rw [hrun]
      refine congrArg op.run (funext fun phase => ?_)
      unfold HookTable.handlers
      rw [hregistered]
    · rw [hrun, HookedOperation.run_events (opening_sparesEvents hop) (work_sparesEvents hop),
        hregistered, hregistered]
    · rintro rfl data hdata hnone
      cases hop
      obtain ⟨e, he⟩ := update_opening_missing ⟨r, {}, d⟩ ctx hdata hnone
      exact HookedOperation.invoked_of_refused he
    · rintro rfl hnone
      cases hop
      obtain ⟨e, he⟩ := remove_opening_missing ⟨r, {}, d⟩ ctx hnone
      exact HookedOperation.invoked_of_refused he
    · rintro rfl
      cases hop
      exact ⟨_, rfl⟩

end ModelOperations

/-! ## Hooks of authors and books -/

/-- A handler that does nothing but leave its event. -/
def noting (label : String) : Handler where
  label := .text label

/-- Books refuse every creation, all creations are noted, and authors are renamed before they are
created and noted afterwards. The last registration is of no phase. -/
def libraryCalls : List HookCall :=
  [.register (.value (.text "Book")) (.text "before_create") (.handler refuse),
    .register (.value .wildcard) (.text "before_create") (.handler (noting "audit")),
    .registerAll (.value (.text "Author"))
      [("after_create", .handler (noting "thank")), ("before_create", .handler renameAuthor)],
    .register (.value .wildcard) (.text "created") (.handler refuse)]

/-- An author is created with its books. The handlers of authors and those for all models are called
in the order of their registration, and the one of books is not. -/
theorem runModel_invokes_author : Api.create ≠ .paginate ∧
    ∃ op, ModelOperations.hooked? ⟨libraryModels, {}, authorModel⟩ .null [("input", authorInput)]
        .create = some op ∧
      (Operation.runModel ⟨libraryModels, HookTable.after libraryCalls, authorModel⟩ .create .null
        [("input", authorInput)] libraryState).2.events =
        (op.invoked [noting "audit", renameAuthor] [noting "thank"] libraryState).flatMap
          Invocation.events ∧
      ((Operation.runModel ⟨libraryModels, HookTable.after libraryCalls, authorModel⟩ .create .null
        [("input", authorInput)] libraryState).2.events.map fun event => event.label.asText?) =
        [some "audit", some "rename", some "thank"] := by
  have hne : Api.create ≠ .paginate := by decide
  obtain ⟨-, hinvokes⟩ := ModelOperations.runModel_invokes libraryCalls libraryModels authorModel
    .create .null [("input", authorInput)] libraryState
  obtain ⟨op, hop, -, -, hevents, -⟩ := hinvokes hne
  refine ⟨hne, op, hop, ?_, ?_⟩
  · cases hop
    exact hevents
  · -- The recursions are opened to the depth of the input; the rest is evaluated.
    have hinline := funext fun target => funext (createInline_eq libraryModels target)
    have houtput := funext fun model => funext (toOutput_eq libraryModels model)
    have hfield := funext fun f => funext (fieldOutput_eq libraryModels f)
    have htype := funext fun key => funext (typeOf_eq libraryModels key)
    show ((ModelOperations.create ⟨libraryModels, HookTable.after libraryCalls, authorModel⟩ .null
      authorInput libraryState).2.events.map fun event => event.label.asText?) = _
    unfold ModelOperations.create linkInline
    rw [hinline]
    unfold storeWithParts linkInline
    rw [hinline]
    unfold storeWithParts linkInline ModelOperations.shape
    rw [houtput, hfield, htype]
    decide +kernel

end DocumentApi
