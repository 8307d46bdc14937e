import DocumentApi.Proofs.Operations.ArrayEdits

/-!
# Ids of the elements of an array

Elements are looked up by their ids. Whether the ids in one array stay distinct while operations of
embedded arrays run, in any order and with any outcome.

* `DistinctIds`: the elements of a parent document have distinct ids.
* `NewIdsDiffer`: new ids are none of the ids that there are.
* `NamesOnce`: a bulk update that is stored names no element twice.
* `after_distinct_iff`: distinct ids stay distinct in a call exactly if it names elements once;
  `elementIds_distinct_iff`: and so they do in a run of calls.
-/

namespace DocumentApi

/-- A call of an operation of an embedded array. -/
structure EmbeddedCall where
  api : EmbeddedApi
  args : Fields

def EmbeddedCall.parentId (call : EmbeddedCall) : Value :=
  Fields.get call.args "parent_id"

namespace EmbeddedOperations

variable (m : EmbeddedOperations)

/-- The state after a call, which may fail. -/
def after (call : EmbeddedCall) (s : State) : State :=
  (Operation.runEmbedded m call.api call.args s).2

def afterCalls (calls : List EmbeddedCall) (s : State) : State :=
  calls.foldl (fun s call => m.after call s) s

variable (parentId : Value)

/-- The elements of a parent document have distinct ids. -/
def DistinctIds (s : State) : Prop :=
  ∀ items, m.Holds parentId s.store items → (items.map idOf).Nodup

/-- The id that a call draws for an element is the id of none. An update of an element draws one for
it only where its id is an embedded document, which is given an id of its own. -/
def DrawsNew (args : Fields) (ids : IdSource) (items : List Fields) : EmbeddedApi → Prop
  | .create => ∀ id rest, ids.draw = (.ok id, rest) → id ∉ items.map idOf
  | .updateOne => ∀ item ∈ items, ∀ given changed rest,
      (Fields.get args "input").asFields = .ok given →
      assignIds m.registry m.field.embeddedName (Table.merge item (Table.remove given "id")) ids =
        (.ok changed, rest) → idOf changed = idOf item ∨ idOf changed ∉ items.map idOf
  | .bulkUpdate | .remove | .getOne | .getAll => True

/-- New ids are none of the ids that there are. -/
def NewIdsDiffer (call : EmbeddedCall) (s : State) : Prop :=
  ∀ items, m.Holds parentId s.store items → m.DrawsNew call.args s.ids items call.api

/-- The items of an input name each element once. -/
def ItemsNameOnce (args : Fields) : Prop :=
  ∀ values payload, (Fields.get args "input").iterateGiven = .ok values →
    values.mapM Value.asFields = .ok payload → (payload.map idOf).Nodup

/-- A bulk update of a parent document that changes the store names each element once. -/
def NamesOnce (call : EmbeddedCall) (s : State) : Prop :=
  call.api = .bulkUpdate → call.parentId.display = parentId.display →
    (m.after call s).store ≠ s.store → ItemsNameOnce call.args

variable {m parentId} {args : Fields} {api : EmbeddedApi} {ids : IdSource} {old new : List Fields}
  {call : EmbeddedCall} {calls : List EmbeddedCall} {s : State}

theorem Holds.congr {other : Value} {t : Store} (hsame : parentId.display = other.display) :
    m.Holds parentId t old ↔ m.Holds other t old := by
  unfold Holds
  rw [hsame]

/-! ## What one operation makes -/

theorem nodup_replace {before after : List Fields} {item changed : Fields}
    (hold : ((before ++ item :: after).map idOf).Nodup)
    (hid : idOf changed = idOf item ∨ idOf changed ∉ (before ++ item :: after).map idOf) :
    ((before ++ changed :: after).map idOf).Nodup := by
  rw [List.map_append, List.map_cons] at hold hid ⊢
  rcases hid with hid | hid
  · rwa [hid]
  · rw [List.nodup_middle, List.nodup_cons] at hold ⊢
    refine ⟨fun hmem => hid ?_, hold.2⟩
    rw [List.mem_append, List.mem_cons]
    rcases List.mem_append.mp hmem with hmem | hmem
    · exact Or.inl hmem
    · exact Or.inr (Or.inr hmem)

/-- Of an array with distinct ids, only a bulk update may make one in which two are the same. -/
theorem Makes.distinct_iff (hold : (old.map idOf).Nodup) (hnew : m.DrawsNew args ids old api)
    (h : m.Makes args ids old api new) :
    (new.map idOf).Nodup ↔ (api = .bulkUpdate → ItemsNameOnce args) := by
  cases h with
  | @create given item id rest _ hid hitem =>
    have hitemId : idOf item = id := by
      unfold idOf
      rw [hitem.text_id (Fields.get_set_self _ _ _)]
      rfl
    refine iff_of_true ?_ nofun
    rw [List.map_append, List.map_singleton, hitemId, List.nodup_append_comm]
    exact List.nodup_cons.mpr ⟨hnew id rest hid, hold⟩
  | @bulkUpdate values payload _ hvalues hpayload hmerged =>
    have hids : new.map idOf = payload.map idOf := by
      rw [← List.forall₂_eq_eq_eq, List.forall₂_map_left_iff, List.forall₂_map_right_iff]
      refine hmerged.flip.imp fun item given hitem => ?_
      obtain ⟨named, -, -, hitem⟩ := hitem
      unfold idOf
      rw [hitem.text_id (Fields.get_set_self _ _ _)]
      rfl
    rw [hids]
    refine ⟨fun honce _ values' payload' hvalues' hpayload' => ?_,
      fun honce => honce rfl values payload hvalues hpayload⟩
    rw [hvalues] at hvalues'
    cases hvalues'
    rw [hpayload] at hpayload'
    cases hpayload'
    exact honce
  | @updateOne given item changed before after hgiven hsplit _ _ _ _ hran =>
    obtain ⟨rest, hran⟩ := hran
    subst hsplit
    refine iff_of_true (nodup_replace hold ?_) nofun
    exact hnew item (by simp) given changed rest hgiven hran
  | remove => exact iff_of_true (hold.sublist (List.filter_sublist.map idOf)) nofun
  | getOne | getAll => exact iff_of_true hold nofun

/-! ## One call -/

/-- What an operation answers changes nothing that it has stored. -/
theorem after_store {c : ArrayChange} (hc : m.change? call.args call.api = some c) :
    (m.after call s).store = ((c.make >>= m.save call.parentId) s).2.store := by
  have hsplit : Operation.runEmbedded m call.api call.args =
      (c.make >>= m.save call.parentId) >>= c.answer := by
    rw [runEmbedded_change hc, bind_assoc]
    rfl
  unfold after
  rw [hsplit, Step.bind_run]
  generalize (c.make >>= m.save call.parentId) s = result
  obtain ⟨fault | saved, u⟩ := result
  · rfl
  · exact (answer_spares hc saved).eq rfl

/-- A call leaves the store as it was, or stores the array that it makes in its parent document. -/
theorem after_cases (hr : m.registry.Distinct) (hids : (s.store.entries.map Entry.id).Nodup)
    (call : EmbeddedCall) : (m.after call s).store = s.store ∨
      ∃ old new saved, m.Holds call.parentId s.store old ∧
        m.Makes call.args s.ids old call.api new ∧
        m.Rewritten call.parentId saved s.store (m.after call s).store ∧
        (saved = new ∨ old = [] ∧ saved = []) := by
  cases hapi : call.api.writes with
  | false => exact Or.inl ((runEmbedded_spares m call.args hapi).eq rfl)
  | true =>
    rw [← change?_isSome m call.args] at hapi
    obtain ⟨c, hc⟩ := Option.isSome_iff_exists.mp hapi
    rcases runEmbedded_cases hr hc hids rfl with
      ⟨-, -, hstore⟩ | ⟨old, new, saved, -, hold, hmakes, hrewritten, hsaved, -, -⟩
    · exact Or.inl hstore
    · exact Or.inr ⟨old, new, saved, hold, hmakes, hrewritten, hsaved⟩

theorem after_ids (hr : m.registry.Distinct) (hids : (s.store.entries.map Entry.id).Nodup)
    (call : EmbeddedCall) :
    (m.after call s).store.entries.map Entry.id = s.store.entries.map Entry.id := by
  rcases after_cases hr hids call with hstore | ⟨_, _, _, _, _, hrewritten, _⟩
  · rw [hstore]
  · exact hrewritten.ids

/-- Distinct ids stay distinct in a call exactly if it names each element once. -/
theorem after_distinct_iff (hr : m.registry.Distinct) (hids : (s.store.entries.map Entry.id).Nodup)
    (hnew : m.NewIdsDiffer parentId call s) (hold : m.DistinctIds parentId s) :
    m.DistinctIds parentId (m.after call s) ↔ m.NamesOnce parentId call s := by
  by_cases hstore : (m.after call s).store = s.store
  · refine iff_of_true (fun items hitems => hold items ?_) fun _ _ hchange => absurd hstore hchange
    rwa [hstore] at hitems
  obtain hsame | ⟨old, new, saved, hholds, hmakes, hrewritten, hsaved⟩ := after_cases hr hids call
  · exact absurd hsame hstore
  by_cases hparent : call.parentId.display = parentId.display
  · rw [Holds.congr hparent] at hholds
    have hmade := hmakes.distinct_iff (hold old hholds) (hnew old hholds)
    have hnames : m.NamesOnce parentId call s ↔
        (call.api = .bulkUpdate → ItemsNameOnce call.args) :=
      ⟨fun honce hapi => honce hapi hparent hstore, fun honce hapi _ _ => honce hapi⟩
    have hafter := (Holds.congr hparent).mp (hrewritten.holds hids)
    have hdistinct : m.DistinctIds parentId (m.after call s) ↔ (saved.map idOf).Nodup :=
      ⟨fun hall => hall saved hafter, fun hone items hitems => hitems.unique hafter ▸ hone⟩
    rw [hnames, hdistinct, ← hmade]
    rcases hsaved with rfl | ⟨rfl, rfl⟩
    · rfl
    · -- the array could not be stored, and of no elements a bulk update makes none
      refine iff_of_true List.nodup_nil (hmade.mpr fun hapi => ?_)
      rcases hmakes.eq_nil rfl with hcreate | rfl
      · rw [hcreate] at hapi
        cases hapi
      · exact hmade.mp List.nodup_nil hapi
  · refine iff_of_true (fun items hitems => hold items ?_) fun _ hsame => absurd hsame hparent
    exact (hrewritten.holds_other hparent).mp hitems

/-! ## Runs -/

theorem afterCalls_append (calls : List EmbeddedCall) (call : EmbeddedCall) (s : State) :
    m.afterCalls (calls ++ [call]) s = m.after call (m.afterCalls calls s) := by
  unfold afterCalls
  rw [List.foldl_append]
  rfl

theorem afterCalls_ids (hr : m.registry.Distinct) (hids : (s.store.entries.map Entry.id).Nodup)
    (calls : List EmbeddedCall) :
    (m.afterCalls calls s).store.entries.map Entry.id = s.store.entries.map Entry.id := by
  induction calls generalizing s with
  | nil => rfl
  | cons call calls ih =>
    have hfirst := after_ids hr hids call
    exact (ih (hfirst ▸ hids)).trans hfirst

/-- In a run of calls the ids of an array stay distinct exactly if every bulk update of the array
that is stored names each element once. Creations, updates of one element, removals and calls that
fail keep them distinct whatever their input is. -/
theorem elementIds_distinct_iff (hr : m.registry.Reachable)
    (hids : (s.store.entries.map Entry.id).Nodup) (hold : m.DistinctIds parentId s)
    (hnew : ∀ k call, calls[k]? = some call →
      m.NewIdsDiffer parentId call (m.afterCalls (calls.take k) s)) :
    (∀ k, m.DistinctIds parentId (m.afterCalls (calls.take k) s)) ↔
      ∀ k call, calls[k]? = some call →
        m.NamesOnce parentId call (m.afterCalls (calls.take k) s) := by
  have hnext : ∀ k call, calls[k]? = some call → m.afterCalls (calls.take (k + 1)) s =
      m.after call (m.afterCalls (calls.take k) s) := by
    intro k call hcall
    rw [List.take_add_one, hcall]
    exact afterCalls_append _ call s
  have hstep : ∀ k call, calls[k]? = some call →
      m.DistinctIds parentId (m.afterCalls (calls.take k) s) →
        (m.DistinctIds parentId (m.afterCalls (calls.take (k + 1)) s) ↔
          m.NamesOnce parentId call (m.afterCalls (calls.take k) s)) := by
    intro k call hcall hdistinct
    have hkept := afterCalls_ids hr.distinct hids (calls.take k)
    rw [hnext k call hcall]
    exact after_distinct_iff hr.distinct (hkept ▸ hids) (hnew k call hcall) hdistinct
  constructor
  · intro hdistinct k call hcall
    exact (hstep k call hcall (hdistinct k)).mp (hdistinct (k + 1))
  · intro honce k
    induction k with
    | zero => exact hold
    | succ k ih =>
      cases hcall : calls[k]? with
      | none => rwa [List.take_add_one, hcall, Option.toList_none, List.append_nil]
      | some call => exact (hstep k call hcall ih).mpr (honce k call hcall)

/-- An update of one element draws no id for it when ids are no embedded documents. -/
theorem DrawsNew.of_plain (hr : m.registry.Distinct) (hplain : m.PlainId) :
    m.DrawsNew args ids old .updateOne := by
  intro item _ given changed rest _ hran
  exact Or.inl ((gains_of_assignIds hr hran).idOf_eq hplain)

end EmbeddedOperations

/-! ## Runs on the lines of an order -/

/-- A bulk update of the lines of an order. -/
def updateLines (lines : List Fields) : EmbeddedCall :=
  ⟨.bulkUpdate, [("parent_id", .text "o1"), ("input", .list (lines.map .record))]⟩

/-- A new line, an update of the first two in the other order, another part, a removal. -/
def lineCalls : List EmbeddedCall :=
  [⟨.create, [("parent_id", .text "o1"), ("input", .record [("count", .int 3)])]⟩,
    updateLines [[("id", .text "l2")], [("id", .text "l1"), ("count", .int 4)]],
    ⟨.updateOne, boltForSecond⟩,
    ⟨.remove, [("parent_id", .text "o1"), ("ids", .list [.text "l1"])]⟩]

/-- The first line twice. -/
def firstTwice : EmbeddedCall :=
  updateLines [[("id", .text "l1")], [("id", .text "l1")]]

theorem orderLines_plainId : orderLines.PlainId := by
  intro declared hdeclared
  cases hdeclared
  decide

theorem lineState_distinctIds : orderLines.DistinctIds (.text "o1") lineState := by
  intro items hitems
  rw [hitems.unique lineState_holds]
  decide

namespace EmbeddedOperations

theorem elementIds_lineCalls : orderLines.registry.Reachable ∧
    (lineState.store.entries.map Entry.id).Nodup ∧
    orderLines.DistinctIds (.text "o1") lineState ∧
    (∀ k call, lineCalls[k]? = some call → orderLines.NewIdsDiffer (.text "o1") call
      (orderLines.afterCalls (lineCalls.take k) lineState)) ∧
    ∀ k, orderLines.DistinctIds (.text "o1")
      (orderLines.afterCalls (lineCalls.take k) lineState) := by
  have hids : (lineState.store.entries.map Entry.id).Nodup := by decide
  have hnew : ∀ k call, lineCalls[k]? = some call → orderLines.NewIdsDiffer (.text "o1") call
      (orderLines.afterCalls (lineCalls.take k) lineState) := by
    intro k call hcall items hitems
    rcases k with _ | _ | _ | _ | k
    · cases hcall
      obtain rfl := hitems.unique lineState_holds
      intro id rest hdraw
      cases hdraw
      decide
    · cases hcall
      trivial
    · cases hcall
      exact .of_plain orderModels_reachable.distinct orderLines_plainId
    · cases hcall
      trivial
    · cases hcall
  refine ⟨orderModels_reachable, hids, lineState_distinctIds, hnew, ?_⟩
  refine (elementIds_distinct_iff orderModels_reachable hids lineState_distinctIds hnew).mpr ?_
  intro k call hcall hapi _ _ values payload hvalues hpayload
  -- only the second call is a bulk update
  rcases k with _ | _ | _ | _ | k
  · cases hcall
    cases hapi
  · cases hcall
    cases hvalues
    cases hpayload
    decide
  all_goals cases hcall <;> cases hapi

/-- The lines of the order after the first line was named twice. -/
theorem firstTwice_evaluated :
    ((orderLines.after firstTwice lineState).store.find? "Order" "o1").map (fun e =>
      (orderLines.items e.document).toOption.map (List.map idOf)) = some (some ["l1", "l1"]) := by
  rw [after_store (c := orderLines.bulkUpdateChange _ _) rfl]
  decide +kernel

theorem bulkUpdate_firstTwice : orderLines.DistinctIds (.text "o1") lineState ∧
    orderLines.NewIdsDiffer (.text "o1") firstTwice lineState ∧
    ¬ orderLines.DistinctIds (.text "o1") (orderLines.after firstTwice lineState) := by
  refine ⟨lineState_distinctIds, fun _ _ => trivial, fun hdistinct => ?_⟩
  obtain ⟨e, hfound, hitems⟩ := Option.map_eq_some_iff.mp firstTwice_evaluated
  cases hlines : orderLines.items e.document with
  | error fault => rw [hlines] at hitems; cases hitems
  | ok items =>
    rw [hlines] at hitems
    have hids : items.map idOf = ["l1", "l1"] := Option.some.inj hitems
    have hnodup := hdistinct items ⟨e, hfound, hlines⟩
    rw [hids] at hnodup
    exact absurd hnodup (by decide)

end EmbeddedOperations

end DocumentApi
