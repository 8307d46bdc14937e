import DocumentApi.Proofs.Operations.Closure
import DocumentApi.Proofs.Operations.Creation

/-!
# Operations between their hooks

An operation of a model opens, runs the handlers of its first phase, does its work with what they
leave, runs the handlers of its second phase and answers.

* `Handlers`: any steps in the place of the handlers of a hook table.
* `HookedOperation.run`: an operation with its handlers; `ModelOperations.hooked?` takes the
  operations of a model apart in this way.
* `ModelOperations.runModel_raises`: what an operation leaves in the store when a handler fails.
-/

namespace DocumentApi

/-! ## Handlers -/

/-- Whether a phase comes after the work of its operation. -/
def HookPhase.isAfter : HookPhase → Bool
  | afterCreate | afterFindOne | afterFindMany | afterUpdate | afterRemove => true
  | _ => false

/-- What runs in each phase: steps of which each is given what the one before it leaves. -/
abbrev Handlers := HookPhase → List (Fields → Step State Fields)

namespace Handlers

variable {h : Handlers} {phase : HookPhase} {payload : Fields} {s t : State} {e : Error}

def dispatch (h : Handlers) (phase : HookPhase) (payload : Fields) : Step State Fields :=
  Step.fold (fun payload f => f payload) payload (h phase)

/-- The handlers without those of later phases. -/
def withoutAfter (h : Handlers) : Handlers := fun phase => if phase.isAfter then [] else h phase

/-- No handler uses the store to write. -/
def SpareStore (h : Handlers) : Prop := ∀ phase, ∀ f ∈ h phase, ∀ payload, (f payload).SparesStore

/-- Some handler of a phase fails, after those before it have passed a payload on. -/
def Raises (h : Handlers) (phase : HookPhase) (payload : Fields) (s : State) (e : Error)
    (t : State) : Prop :=
  ∃ before f later passed u, h phase = before ++ f :: later ∧
    Step.fold (fun payload f => f payload) payload before s = (.ok passed, u) ∧
    f passed u = (.error e, t)

theorem dispatch_spares (hspare : h.SpareStore) (phase : HookPhase) (payload : Fields) :
    (h.dispatch phase payload).SparesStore :=
  (Step.SparesStore.closed {}).fold fun payload f hf => hspare phase f hf payload

theorem dispatch_raises (hraises : h.Raises phase payload s e t) :
    h.dispatch phase payload s = (.error e, t) := by
  obtain ⟨before, f, later, passed, u, hphase, hbefore, hf⟩ := hraises
  unfold dispatch
  rw [hphase]
  clear hphase
  induction before generalizing payload s with
  | nil =>
    cases hbefore
    show (f passed >>= _) u = _
    rw [Step.bind_run, hf]
  | cons g before ih =>
    obtain ⟨next, u', hg, hbefore⟩ := Step.bind_ok hbefore
    show (g payload >>= _) s = _
    rw [Step.bind_of_ok hg]
    exact ih hbefore

theorem dispatch_withoutAfter (hafter : phase.isAfter) (payload : Fields) :
    h.withoutAfter.dispatch phase payload = pure payload := by
  unfold dispatch withoutAfter
  rw [if_pos hafter]
  rfl

theorem dispatch_withoutAfter_of_before (hbefore : phase.isAfter = false) (payload : Fields) :
    h.withoutAfter.dispatch phase payload = h.dispatch phase payload := by
  unfold dispatch withoutAfter
  rw [if_neg (by rw [hbefore]; exact Bool.false_ne_true)]

end Handlers

/-- The handlers of a hook table for a model. -/
def HookTable.handlers (hooks : HookTable) (model : String) : Handlers := fun phase =>
  (hooks.handlersFor model phase).map Handler.run

/-- The hook table without the handlers of later phases. -/
def HookTable.withoutAfter (hooks : HookTable) : HookTable :=
  ⟨hooks.entries.filter fun entry => !entry.phase.isAfter⟩

theorem HookTable.dispatch_handlers (hooks : HookTable) (model : String) (phase : HookPhase)
    (payload : Fields) :
    hooks.dispatch model phase payload = (hooks.handlers model).dispatch phase payload := by
  unfold dispatch Handlers.dispatch handlers
  rw [Step.fold_map]

/-- Handlers that ask the store for nothing leave it alone. -/
theorem HookTable.handlers_spareStore {hooks : HookTable} (model : String)
    (h : ∀ entry ∈ hooks.entries, entry.handler.requests = []) :
    (hooks.handlers model).SpareStore := by
  have hclosed := Step.SparesStore.closed {}
  intro phase f hf payload
  obtain ⟨handler, hmem, rfl⟩ := List.mem_map.mp hf
  obtain ⟨entry, hentry, rfl⟩ := List.mem_map.mp hmem
  unfold Handler.run
  rw [h entry (List.mem_of_mem_filter hentry)]
  refine hclosed.bind (hclosed.pure []) fun _ _ => hclosed.bind (fun _ _ hs => hs) fun _ _ => ?_
  refine hclosed.bind (hclosed.ofExcept _) fun _ _ => ?_
  split
  · exact hclosed.fail _
  · exact hclosed.pure _

theorem HookTable.handlers_withoutAfter (hooks : HookTable) (model : String) :
    hooks.withoutAfter.handlers model = (hooks.handlers model).withoutAfter := by
  funext phase
  unfold handlers Handlers.withoutAfter handlersFor withoutAfter
  rw [List.filter_filter]
  have happlies : ∀ entry : HookEntry, (entry.applies model phase && !entry.phase.isAfter) =
      (!phase.isAfter && entry.applies model phase) := by
    intro entry
    by_cases hphase : entry.phase = phase
    · rw [hphase, Bool.and_comm]
    · unfold HookEntry.applies
      rw [beq_eq_false_iff_ne.mpr hphase, Bool.false_and, Bool.false_and, Bool.and_false]
  simp only [happlies]
  cases phase.isAfter <;> simp

/-! ## Operations -/

/-- An operation around its hooks. It opens without a write, with what it keeps to itself and the
payload of its first phase; it works with the payload that is left, and makes that of its second
one. -/
structure HookedOperation where
  before : HookPhase
  after : HookPhase
  opening : Step State (Value × Fields)
  work : Value → Fields → Step State Fields
  answer : Fields → Value
  before_first : before.isAfter = false
  after_last : after.isAfter = true
  opening_spares : opening.SparesStore

namespace HookedOperation

variable (op : HookedOperation)

/-- The operation with handlers. -/
def run (h : Handlers) : Step State Value := do
  let (kept, payload) ← op.opening
  let before ← h.dispatch op.before payload
  let made ← op.work kept before
  let after ← h.dispatch op.after made
  return op.answer after

/-- A handler of the first phase fails. -/
def BeforeRaises (h : Handlers) (s : State) (e : Error) (t : State) : Prop :=
  ∃ kept payload u, op.opening s = (.ok (kept, payload), u) ∧ h.Raises op.before payload u e t

/-- A handler of the second phase fails. -/
def AfterRaises (h : Handlers) (s : State) (e : Error) (t : State) : Prop :=
  ∃ kept payload u before v made w, op.opening s = (.ok (kept, payload), u) ∧
    h.dispatch op.before payload u = (.ok before, v) ∧ op.work kept before v = (.ok made, w) ∧
    h.Raises op.after made w e t

variable {op} {h : Handlers} {s t : State} {e : Error}

/-- What a handler fails with before the work is what the operation fails with, and nothing was
written. -/
theorem run_before (hspare : h.SpareStore) (hraises : op.BeforeRaises h s e t) :
    op.run h s = (.error e, t) ∧ t.store = s.store := by
  obtain ⟨kept, payload, u, hopening, hraises⟩ := hraises
  have hdispatch := h.dispatch_raises hraises
  constructor
  · unfold run
    rw [Step.bind_of_ok hopening]
    dsimp only
    rw [Step.bind_run, hdispatch]
  · exact ((h.dispatch_spares hspare _ _).eq hdispatch).trans (op.opening_spares.eq hopening)

/-- What a handler fails with after the work is what the operation fails with, and all that the work
wrote stays. -/
theorem run_after (hspare : h.SpareStore) (hraises : op.AfterRaises h s e t) :
    op.run h s = (.error e, t) ∧
      ∃ answer u, op.run h.withoutAfter s = (.ok answer, u) ∧ t.store = u.store := by
  obtain ⟨kept, payload, u, before, v, made, w, hopening, hbefore, hwork, hraises⟩ := hraises
  have hdispatch := h.dispatch_raises hraises
  refine ⟨?_, op.answer made, w, ?_, (h.dispatch_spares hspare _ _).eq hdispatch⟩
  · unfold run
    rw [Step.bind_of_ok hopening]
    dsimp only
    rw [Step.bind_of_ok hbefore, Step.bind_of_ok hwork, Step.bind_run, hdispatch]
  · unfold run
    rw [Step.bind_of_ok hopening]
    dsimp only
    rw [h.dispatch_withoutAfter_of_before op.before_first, Step.bind_of_ok hbefore,
      Step.bind_of_ok hwork, h.dispatch_withoutAfter op.after_last]
    rfl

/-- An operation whose work writes nothing writes nothing with any handlers. -/
theorem run_spares (hwork : ∀ kept before, (op.work kept before).SparesStore)
    (hspare : h.SpareStore) : (op.run h).SparesStore := by
  have hclosed := Step.SparesStore.closed {}
  refine hclosed.bind op.opening_spares fun opened _ => ?_
  refine hclosed.bind (h.dispatch_spares hspare _ _) fun before _ => ?_
  refine hclosed.bind (hwork _ _) fun made _ => ?_
  exact hclosed.bind (h.dispatch_spares hspare _ _) fun after _ => hclosed.pure _

end HookedOperation

namespace ModelOperations

variable (m : ModelOperations) (ctx : Value)

/-- The creation of a document between its hooks. -/
def hookedCreate (input : Value) : HookedOperation where
  before := .beforeCreate
  after := .afterCreate
  opening := do
    let data ← Step.ofExcept input.asFields
    return (.null, [("ctx", ctx), ("input", .record data)])
  work _ before := do
    let input := Fields.get before "input"
    let (doc, inline) ← State.onIds (prepareDocument m.registry m.model.name input)
    let stored ← State.insert m.model.storedIn doc
    let id := Fields.get stored "id"
    let _ ← Step.each (linkInline m.registry m.model id.display) inline
    let created ← m.shape (← m.load id)
    return [("ctx", Fields.get before "ctx"), ("input", input), ("created", created)]
  answer after := Fields.get after "created"
  before_first := rfl
  after_last := rfl
  opening_spares :=
    have hclosed := Step.SparesStore.closed m.registry
    hclosed.bind (hclosed.ofExcept _) fun _ _ => hclosed.pure _

theorem create_hooked (input : Value) :
    m.create ctx input = (m.hookedCreate ctx input).run (m.hooks.handlers m.model.name) := by
  unfold create hookedCreate HookedOperation.run dispatch
  simp only [HookTable.dispatch_handlers, bind_assoc, pure_bind]

/-- The change of a document between its hooks. It keeps the id that the input was given with. -/
def hookedUpdate (input : Value) : HookedOperation where
  before := .beforeUpdate
  after := .afterUpdate
  opening := do
    let data ← Step.ofExcept input.asFields
    let id := Fields.get data "id"
    if !id.truthy then Step.fail (.idRequired m.model.name)
    else
      let old ← m.shape (← m.load id)
      return (id, [("ctx", ctx), ("input", .record data), ("before_updated", old)])
  work id before := do
    let input := Fields.get before "input"
    let given ← Step.ofExcept input.plain.toFields
    let changes ← State.onIds
      (assignIds m.registry (some m.model.name) (Table.remove given "id"))
    match ← State.onStore (Store.update m.model.storedIn id.display changes) with
    | none => Step.fail (.documentMissing m.model.name id)
    | some _ =>
      let updated ← m.shape (← m.load id)
      return [("ctx", Fields.get before "ctx"), ("input", input), ("updated", updated),
        ("before_updated", Fields.get before "before_updated")]
  answer after := Fields.get after "updated"
  before_first := rfl
  after_last := rfl
  opening_spares := by
    have hclosed := Step.SparesStore.closed m.registry
    refine hclosed.bind (hclosed.ofExcept _) fun data _ => ?_
    dsimp only
    split
    · exact hclosed.fail _
    · refine hclosed.bind (load_closed hclosed _) fun doc _ => ?_
      exact hclosed.bind (hclosed.output _ _) fun old _ => hclosed.pure _

theorem update_hooked (input : Value) :
    m.update ctx input = (m.hookedUpdate ctx input).run (m.hooks.handlers m.model.name) := by
  unfold update hookedUpdate HookedOperation.run dispatch
  simp only [HookTable.dispatch_handlers, bind_assoc]
  refine bind_congr fun data => ?_
  split
  · rfl
  · simp only [bind_assoc, pure_bind]
    refine bind_congr fun doc => bind_congr fun old => bind_congr fun before => ?_
    refine bind_congr fun given => bind_congr fun changes => bind_congr fun found => ?_
    cases found with
    | none => rfl
    | some _ => simp only [bind_assoc, pure_bind]

/-- The removal of a document between its hooks. -/
def hookedRemove (id : Value) : HookedOperation where
  before := .beforeRemove
  after := .afterRemove
  opening := do
    let old ← m.shape (← m.load id)
    return (.null, [("ctx", ctx), ("before_removed", old)])
  work _ before := do
    if ← State.onStore (Store.delete m.model.storedIn id.display) then
      return [("ctx", Fields.get before "ctx"), ("removed", Fields.get before "before_removed")]
    else Step.fail (.documentMissing m.model.name id)
  answer _ := removalDone
  before_first := rfl
  after_last := rfl
  opening_spares := by
    have hclosed := Step.SparesStore.closed m.registry
    refine hclosed.bind (load_closed hclosed _) fun doc _ => ?_
    exact hclosed.bind (hclosed.output _ _) fun old _ => hclosed.pure _

theorem remove_hooked (id : Value) :
    m.remove ctx id = (m.hookedRemove ctx id).run (m.hooks.handlers m.model.name) := by
  unfold remove hookedRemove HookedOperation.run dispatch
  simp only [HookTable.dispatch_handlers, bind_assoc, pure_bind]
  refine bind_congr fun doc => bind_congr fun old => bind_congr fun before => ?_
  refine bind_congr fun existed => ?_
  cases existed with
  | true => simp only [if_true, pure_bind]
  | false => rfl

/-- The look-up of a document between its hooks. -/
def hookedFindOne (id : Value) : HookedOperation where
  before := .beforeFindOne
  after := .afterFindOne
  opening := pure (.null, [("ctx", ctx), ("filter", .record [("id", .text id.display)])])
  work _ before := do
    let result ← m.shape (← m.load id)
    return before ++ [("result", result)]
  answer after := Fields.get after "result"
  before_first := rfl
  after_last := rfl
  opening_spares := (Step.SparesStore.closed m.registry).pure _

theorem findOne_hooked (id : Value) :
    m.findOne ctx id = (m.hookedFindOne ctx id).run (m.hooks.handlers m.model.name) := by
  unfold findOne hookedFindOne HookedOperation.run dispatch
  simp only [HookTable.dispatch_handlers, bind_assoc, pure_bind]

/-- The search for documents between its hooks. -/
def hookedFindMany (filter sort search : Value) : HookedOperation where
  before := .beforeFindMany
  after := .afterFindMany
  opening := do
    let filter ← Step.ofExcept filter.asFilter
    let sort ← Step.ofExcept sort.asFields
    return (.null, [("ctx", ctx), ("filter", .record filter), ("sort", .record sort)])
  work _ before := do
    let keys ← Step.ofExcept (sortKeys (Fields.get before "sort"))
    let search ← Step.ofExcept (m.searchOf search)
    let docs ← State.readStore fun s =>
      s.find m.model.storedIn ⟨Fields.get before "filter", keys, search⟩
    let items ← Step.each m.shape docs
    return before ++ [("items", .list items)]
  answer after := Fields.get after "items"
  before_first := rfl
  after_last := rfl
  opening_spares :=
    have hclosed := Step.SparesStore.closed m.registry
    hclosed.bind (hclosed.ofExcept _) fun _ _ => hclosed.bind (hclosed.ofExcept _) fun _ _ =>
      hclosed.pure _

theorem findMany_hooked (filter sort search : Value) :
    m.findMany ctx filter sort search =
      (m.hookedFindMany ctx filter sort search).run (m.hooks.handlers m.model.name) := by
  unfold findMany hookedFindMany HookedOperation.run dispatch
  simp only [HookTable.dispatch_handlers, bind_assoc, pure_bind]

/-- An operation of an api between its hooks. The listing by pages runs none. -/
def hooked? (args : Fields) : Api → Option HookedOperation
  | .create => some (m.hookedCreate ctx (Fields.get args "input"))
  | .update => some (m.hookedUpdate ctx (Fields.get args "input"))
  | .remove => some (m.hookedRemove ctx (Fields.get args "id"))
  | .findOne => some (m.hookedFindOne ctx (Fields.get args "id"))
  | .findAll => some (m.hookedFindMany ctx (Fields.get args "filter") (Fields.get args "sort")
      (Fields.get args "search"))
  | .paginate => none

variable {m ctx} {args : Fields} {api : Api} {op : HookedOperation}

/-- An operation runs the handlers of its hook table. -/
theorem runModel_hooked (hop : m.hooked? ctx args api = some op) :
    Operation.runModel m api ctx args = op.run (m.hooks.handlers m.model.name) := by
  cases api with
  | create => cases hop; exact m.create_hooked ctx _
  | update => cases hop; exact m.update_hooked ctx _
  | remove => cases hop; exact m.remove_hooked ctx _
  | findOne => cases hop; exact m.findOne_hooked ctx _
  | findAll => cases hop; exact m.findMany_hooked ctx _ _ _
  | paginate => cases hop

/-- What an operation does between its hooks does not depend on the hook table. -/
theorem hooked?_hooks (hooks : HookTable) :
    hooked? { m with hooks } ctx args api = m.hooked? ctx args api := by
  cases api <;> rfl

theorem work_spares (hop : m.hooked? ctx args api = some op)
    (hreads : api = .findOne ∨ api = .findAll) (kept : Value) (before : Fields) :
    (op.work kept before).SparesStore := by
  have hclosed := Step.SparesStore.closed m.registry
  rcases hreads with rfl | rfl
  · cases hop
    refine hclosed.bind (load_closed hclosed _) fun doc _ => ?_
    exact hclosed.bind (hclosed.output _ _) fun result _ => hclosed.pure _
  · cases hop
    refine hclosed.bind (hclosed.ofExcept _) fun keys _ => ?_
    refine hclosed.bind (hclosed.ofExcept _) fun search _ => ?_
    refine hclosed.bind (hclosed.readStore _) fun docs _ => ?_
    refine hclosed.bind (hclosed.each fun doc _ => hclosed.output _ _) fun items _ => ?_
    exact hclosed.pure _

/-- A handler that fails makes its operation fail with the same error. Before the work of the
operation, nothing is stored; after it, all that the operation stores without the later handlers is.
Finding documents stores nothing. -/
theorem runModel_raises (hapi : api ≠ .paginate) :
    ∃ op, m.hooked? ctx args api = some op ∧
      Operation.runModel m api ctx args = op.run (m.hooks.handlers m.model.name) ∧
      Operation.runModel { m with hooks := m.hooks.withoutAfter } api ctx args =
        op.run (m.hooks.handlers m.model.name).withoutAfter ∧
      ∀ h : Handlers, h.SpareStore → ∀ s,
        (∀ e t, op.BeforeRaises h s e t → op.run h s = (.error e, t) ∧ t.store = s.store) ∧
        (∀ e t, op.AfterRaises h s e t → op.run h s = (.error e, t) ∧
          ∃ answer u, op.run h.withoutAfter s = (.ok answer, u) ∧ t.store = u.store) ∧
        (api = .findOne ∨ api = .findAll → (op.run h s).2.store = s.store) := by
  obtain ⟨op, hop⟩ : ∃ op, m.hooked? ctx args api = some op := by
    cases api with
    | paginate => exact absurd rfl hapi
    | _ => exact ⟨_, rfl⟩
  refine ⟨op, hop, runModel_hooked hop, ?_, fun h hspare s => ⟨?_, ?_, ?_⟩⟩
  · rw [runModel_hooked ((hooked?_hooks _).trans hop)]
    exact congrArg op.run (m.hooks.handlers_withoutAfter m.model.name)
  · exact fun e t hraises => HookedOperation.run_before hspare hraises
  · exact fun e t hraises => HookedOperation.run_after hspare hraises
  · intro hreads
    exact (HookedOperation.run_spares (work_spares hop hreads) hspare).eq rfl

end ModelOperations

/-! ## Reviews of authors -/

/-- Gives the author of an input another name. -/
def renameAuthor : Handler where
  label := .text "rename"
  assignments := [([.text "input", .text "name"], .text "Bea")]

def reviewFault : Error := .reported .hookFailure "refused" []

/-- Fails in every case. -/
def refuse : Handler where
  label := .text "refuse"
  failure := some reviewFault

/-- Authors are renamed and refused before they are created. -/
def refusedBefore : HookTable :=
  ⟨[⟨.model "Author", .beforeCreate, renameAuthor⟩, ⟨.all, .beforeCreate, refuse⟩]⟩

/-- Authors are renamed before they are created, and refused afterwards. -/
def refusedAfter : HookTable :=
  ⟨[⟨.model "Author", .beforeCreate, renameAuthor⟩, ⟨.all, .afterCreate, refuse⟩]⟩

/-- The author's creation after the first phase: what it works with, and the state. -/
def renamedCreation : Except Error Fields × State :=
  (refusedAfter.handlers "Author").dispatch .beforeCreate
    [("ctx", .null), ("input", authorInput)] libraryState

/-- The work of the creation stores the author, both books and both chapters. -/
theorem renamedCreation_works : ∃ before v made w, renamedCreation = (.ok before, v) ∧
    (ModelOperations.hookedCreate ⟨libraryModels, refusedAfter, authorModel⟩ .null authorInput).work
      .null before v = (.ok made, w) ∧ w.store.entries.length = 5 := by
  -- The recursions are opened to the depth of the input; the rest is evaluated.
  have hinline := funext fun target => funext (createInline_eq libraryModels target)
  have houtput := funext fun model => funext (toOutput_eq libraryModels model)
  have hfield := funext fun f => funext (fieldOutput_eq libraryModels f)
  have htype := funext fun key => funext (typeOf_eq libraryModels key)
  have hworks : ((ModelOperations.hookedCreate ⟨libraryModels, refusedAfter, authorModel⟩ .null
      authorInput).work .null (renamedCreation.1.toOption.getD []) renamedCreation.2).1.isOk ∧
      ((ModelOperations.hookedCreate ⟨libraryModels, refusedAfter, authorModel⟩ .null
      authorInput).work .null (renamedCreation.1.toOption.getD []) renamedCreation.2
      ).2.store.entries.length = 5 := by
    unfold ModelOperations.hookedCreate linkInline
    rw [hinline]
    unfold storeWithParts linkInline
    rw [hinline]
    unfold storeWithParts linkInline ModelOperations.shape
    rw [houtput, hfield, htype]
    decide +kernel
  obtain ⟨before, v, hrenamed⟩ : ∃ before v, renamedCreation = (.ok before, v) := ⟨_, _, rfl⟩
  rw [hrenamed] at hworks
  generalize hwork : (ModelOperations.hookedCreate _ _ _).work _ _ _ = result at hworks
  obtain ⟨e | made, w⟩ := result
  · cases hworks.1
  · exact ⟨before, v, made, w, hrenamed, hwork, hworks.2⟩

/-- Refused before it is created, an author is not stored; refused afterwards, the author stays with
all books and chapters. -/
theorem runModel_refused : Api.create ≠ .paginate ∧
    (∃ t, Operation.runModel ⟨libraryModels, refusedBefore, authorModel⟩ .create .null
        [("input", authorInput)] libraryState = (.error reviewFault, t) ∧
      t.store = libraryState.store) ∧
    ∃ answer t u, Operation.runModel ⟨libraryModels, refusedAfter, authorModel⟩ .create .null
        [("input", authorInput)] libraryState = (.error reviewFault, t) ∧
      Operation.runModel ⟨libraryModels, refusedAfter.withoutAfter, authorModel⟩ .create .null
        [("input", authorInput)] libraryState = (.ok answer, u) ∧
      t.store = u.store ∧ t.store.entries.length = 5 := by
  have hne : Api.create ≠ .paginate := by decide
  refine ⟨hne, ?_, ?_⟩
  · obtain ⟨op, hop, hrun, -, hraises⟩ := @ModelOperations.runModel_raises
      ⟨libraryModels, refusedBefore, authorModel⟩ .null [("input", authorInput)] .create hne
    cases hop
    have hspare : (refusedBefore.handlers "Author").SpareStore :=
      HookTable.handlers_spareStore "Author" (by decide)
    obtain ⟨hbefore, -, -⟩ := hraises _ hspare libraryState
    rw [hrun]
    exact ⟨_, hbefore reviewFault _
      ⟨_, _, _, rfl, [renameAuthor.run], refuse.run, [], _, _, rfl, rfl, rfl⟩⟩
  · obtain ⟨op, hop, hrun, hwithout, hraises⟩ := @ModelOperations.runModel_raises
      ⟨libraryModels, refusedAfter, authorModel⟩ .null [("input", authorInput)] .create hne
    cases hop
    have hspare : (refusedAfter.handlers "Author").SpareStore :=
      HookTable.handlers_spareStore "Author" (by decide)
    obtain ⟨-, hafter, -⟩ := hraises _ hspare libraryState
    obtain ⟨before, v, made, w, hbefore, hwork, hlength⟩ := renamedCreation_works
    obtain ⟨hrun', answer, u, hrest, hstore⟩ := hafter reviewFault _
      ⟨_, _, _, before, v, made, w, rfl, hbefore, hwork, [], refuse.run, [], _, _, rfl, rfl, rfl⟩
    rw [hrun, hwithout]
    exact ⟨answer, _, u, hrun', hrest, hstore, hlength⟩

end DocumentApi
