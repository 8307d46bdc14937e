import DocumentApi.Proofs.Operations.ArrayEdits
import DocumentApi.Proofs.Operations.Hooked
import DocumentApi.Proofs.Operations.Identifying
import DocumentApi.Proofs.Store.Ledger
import DocumentApi.Proofs.Types.Steady

/-!
# Updates of one document

What a successful update stores, with any handlers that edit its input.

* `Handlers.EditInput`: handlers that edit the input in place and leave all other arguments alone.
* `ModelOperations.Updates`: what an update finds, hands to its hooks and writes.
* `update_plain`: an update without hooks as a function of the document that it finds.
* `update_writes`: the document of the id that was given is written, and no other; two updates leave
  what one with the later fields in front leaves.
-/

namespace DocumentApi

/-! ## Handlers that edit the input -/

/-- What a handler leaves of its arguments when it edits nothing but the input, in its place. -/
structure EditsInput (payload left : Fields) : Prop where
  others : ∀ key, key ≠ "input" → Fields.get left key = Fields.get payload key
  input : ∀ data, Fields.get payload "input" = .record data →
    ∃ edited, Fields.get left "input" = .record edited

namespace EditsInput

variable {payload left last : Fields}

theorem refl (payload : Fields) : EditsInput payload payload :=
  ⟨fun _ _ => rfl, fun data h => ⟨data, h⟩⟩

theorem trans (h : EditsInput payload left) (h' : EditsInput left last) :
    EditsInput payload last := by
  refine ⟨fun key hkey => (h'.others key hkey).trans (h.others key hkey), fun data hdata => ?_⟩
  obtain ⟨edited, hedited⟩ := h.input data hdata
  exact h'.input edited hedited

end EditsInput

namespace Handlers

variable {h : Handlers} {phase : HookPhase} {payload left : Fields} {s t : State}

/-- The handlers of a phase edit nothing but the input. -/
def EditInput (h : Handlers) (phase : HookPhase) : Prop :=
  ∀ f ∈ h phase, ∀ payload s left t, f payload s = (.ok left, t) → EditsInput payload left

/-- The first handlers of a phase, one after another. -/
theorem EditInput.fold (hedits : h.EditInput phase) {first : List (Fields → Step State Fields)}
    (hfirst : ∀ f ∈ first, f ∈ h phase)
    (hrun : Step.fold (fun payload f => f payload) payload first s = (.ok left, t)) :
    EditsInput payload left := by
  induction first generalizing payload s with
  | nil =>
    cases hrun
    exact .refl _
  | cons f first ih =>
    obtain ⟨hf, hfirst⟩ := List.forall_mem_cons.mp hfirst
    obtain ⟨mid, u, hmid, hrest⟩ := Step.bind_ok hrun
    exact (hedits f hf payload s mid u hmid).trans (ih hfirst hrest)

end Handlers

/-- An assignment inside the input edits nothing else. -/
theorem assignInside_editsInput {payload left : Fields} {key : String} {path : List Value} {w : Value}
    (h : assignInside payload (.text "input" :: .text key :: path) w = .ok left) :
    EditsInput payload left := by
  have hlong : ¬ (Value.text "input" :: .text key :: path).length < 2 := by simp
  unfold assignInside at h
  rw [if_neg hlong] at h
  unfold Value.assign at h
  simp only [List.isEmpty_cons, Bool.false_eq_true, if_false] at h
  cases hfound : Table.find? payload "input" with
  | none => rw [hfound] at h; cases h
  | some part =>
    rw [hfound] at h
    dsimp only at h
    cases hpart : part.assign (.text key :: path) w with
    | error e => rw [hpart] at h; cases h
    | ok part' =>
      rw [hpart] at h
      cases h
      refine ⟨fun other hother => Fields.get_set_ne (Ne.symm hother), fun data hdata => ?_⟩
      rw [Fields.get_of_find? hfound] at hdata
      subst hdata
      rw [Fields.get_set_self]
      unfold Value.assign at hpart
      dsimp only at hpart
      split at hpart
      · cases hpart
        exact ⟨_, rfl⟩
      · split at hpart
        · obtain ⟨inner, -, hinner⟩ := exceptBind_ok hpart
          cases hinner
          exact ⟨_, rfl⟩
        · cases hpart

/-- The handlers of a hook table that assign inside the input alone. -/
theorem HookTable.handlers_editInput {hooks : HookTable} (model : String) (phase : HookPhase)
    (h : ∀ entry ∈ hooks.entries, entry.phase = phase → ∀ a ∈ entry.handler.assignments,
      ∃ key path, a.1 = .text "input" :: .text key :: path) :
    (hooks.handlers model).EditInput phase := by
  intro f hf payload s left t hrun
  obtain ⟨handler, hmem, rfl⟩ := List.mem_map.mp hf
  obtain ⟨entry, hentry, rfl⟩ := List.mem_map.mp hmem
  obtain ⟨hentry, happlies⟩ := List.mem_filter.mp hentry
  have hphase : entry.phase = phase := by
    unfold HookEntry.applies at happlies
    simpa using (Bool.and_eq_true_iff.mp happlies).1
  have hassigned := h entry hentry hphase
  have hedits : ∀ (assignments : List (List Value × Value)) payload left,
      (∀ a ∈ assignments, ∃ key path, a.1 = .text "input" :: .text key :: path) →
      assignments.foldlM (fun p a => assignInside p a.1 a.2) payload = .ok left →
        EditsInput payload left := by
    intro assignments
    induction assignments with
    | nil =>
      intro payload left _ hfold
      cases hfold
      exact .refl _
    | cons a assignments ih =>
      intro payload left ha hfold
      obtain ⟨⟨key, path, hpath⟩, hrest⟩ := List.forall_mem_cons.mp ha
      rw [List.foldlM_cons] at hfold
      obtain ⟨mid, hmid, hlater⟩ := exceptBind_ok hfold
      rw [hpath] at hmid
      exact (assignInside_editsInput hmid).trans (ih mid left hrest hlater)
  unfold Handler.run at hrun
  obtain ⟨_, u, -, hrun⟩ := Step.bind_ok hrun
  obtain ⟨_, v, -, hrun⟩ := Step.bind_ok hrun
  obtain ⟨passed, w, hpassed, hrun⟩ := Step.bind_ok hrun
  have hkept := hedits _ _ _ hassigned (Step.ofExcept_ok hpassed).1
  cases hfailure : entry.handler.failure with
  | some e =>
    rw [hfailure] at hrun
    cases hrun
  | none =>
    rw [hfailure] at hrun
    cases hrun
    exact hkept

/-! ## What an update does -/

/-- A stored document with changes over its fields. -/
def Entry.changed (e : Entry) (changes : Fields) : Entry :=
  { e with fields := Table.merge e.fields changes }

/-- Changes over changes are changes with the later ones over the earlier. -/
theorem Entry.changed_changed {changes : Fields} (hnames : (Table.names changes).Nodup) (e : Entry)
    (later : Fields) : (e.changed changes).changed later = e.changed (Table.merge changes later) := by
  unfold changed
  rw [Table.merge_merge _ hnames]

/-- The arguments of the hooks before an update. -/
def updatePayload (ctx : Value) (data : Fields) (old : Value) : Fields :=
  [("ctx", ctx), ("input", .record data), ("before_updated", old)]

/-- What a successful update of the input `data` does: it finds the document of the id that the input
has, hands it to the hooks as it was, and writes what they leave of the fields of the input. -/
structure ModelOperations.Updates (m : ModelOperations) (ctx : Value) (h : Handlers) (data : Fields)
    (s t : State) (old : Value) (final changes : Fields) (front back : List Entry) (e : Entry) :
    Prop where
  given : (Fields.get data "id").truthy
  found : s.store.entries = front ++ e :: back
  own : e.Is m.model.storedIn (Fields.get data "id")
  /-- Every handler before the update is given the old document. -/
  before : ∃ u left v, m.shape e.document s = (.ok old, u) ∧
    (∀ first f later passed w, h .beforeUpdate = first ++ f :: later →
      Step.fold (fun payload f => f payload) (updatePayload ctx data old) first u = (.ok passed, w) →
        Fields.get passed "before_updated" = old) ∧
    h.dispatch .beforeUpdate (updatePayload ctx data old) u = (.ok left, v) ∧
    Fields.get left "input" = .record final
  /-- The changes are the fields of the input that is left but the id, with ids in them. -/
  changed : ∃ declared, m.registry.fieldsOf m.model.name = .ok declared ∧
    DocumentGains m.registry declared (Table.remove (Value.plainFields final) "id") changes
  /-- Only the fields of the document that was found are written. -/
  written : t.store.entries = front ++ e.changed changes :: back
  /-- The handlers after the update are given the old document too. -/
  after : ∃ made u left, Fields.get made "before_updated" = old ∧
    h.dispatch .afterUpdate made u = (.ok left, t)

namespace Store

variable {front back : List Entry} {e : Entry} {changes : Fields} {s : Store}

theorem update_middle (hs : s.entries = front ++ e :: back) (hids : (s.entries.map Entry.id).Nodup)
    (changes : Fields) :
    update e.collection e.id changes s =
      (.ok (some (e.changed (Table.remove changes "id")).document),
        ⟨front ++ e.changed (Table.remove changes "id") :: back⟩) := by
  obtain ⟨hfront, hback⟩ := others_of_nodup (hs ▸ hids)
  obtain rfl : s = ⟨front ++ e :: back⟩ := by rw [← hs]
  unfold update
  rw [Step.bind_run]
  dsimp only [Step.state]
  rw [find?_middle hfront]
  show (_, change _ _ _ _) = _
  rw [change_middle _ hfront hback]
  rfl

end Store

namespace ModelOperations

variable {m : ModelOperations} {ctx input answer : Value} {h : Handlers} {s t : State}

/-- An update opens with the document of the id that its input has. -/
theorem hookedUpdate_opening {id : Value} {payload : Fields} {u : State}
    (hopening : (m.hookedUpdate ctx input).opening s = (.ok (id, payload), u)) :
    ∃ data old e, input.asFields = .ok data ∧ (Fields.get data "id").truthy ∧
      s.store.find? m.model.storedIn (Fields.get data "id").display = some e ∧
      m.shape e.document s = (.ok old, u) ∧ id = Fields.get data "id" ∧
      payload = updatePayload ctx data old := by
  obtain ⟨data, s₁, hread, hopening⟩ := Step.bind_ok hopening
  obtain ⟨hdata, rfl⟩ := Step.ofExcept_ok hread
  dsimp only at hopening
  by_cases hgiven : (Fields.get data "id").truthy
  · rw [hgiven] at hopening
    obtain ⟨doc, s₂, hload, hopening⟩ := Step.bind_ok hopening
    obtain ⟨old, s₃, hold, hopening⟩ := Step.bind_ok hopening
    cases hopening
    rw [load_answer] at hload
    cases hfound : s.store.find? m.model.storedIn (Fields.get data "id").display with
    | none => rw [hfound] at hload; cases hload
    | some e =>
      rw [hfound] at hload
      cases hload
      exact ⟨data, old, e, hdata, hgiven, hfound, hold, rfl, rfl⟩
  · rw [Bool.eq_false_iff.mpr hgiven] at hopening
    cases hopening

/-- The changes of an update have no id of their own. -/
theorem assignIds_apart {r : Registry} (hr : r.Distinct) {model : String} {given changes : Fields}
    {ids ids' : IdSource}
    (h : assignIds r (some model) (Table.remove given "id") ids = (.ok changes, ids')) :
    ∃ declared, r.fieldsOf model = .ok declared ∧
      DocumentGains r declared (Table.remove given "id") changes ∧
      Table.remove changes "id" = changes := by
  have hlisted := h
  unfold assignIds at hlisted
  obtain ⟨declared, mid, hlist, -⟩ := Step.bind_ok hlisted
  obtain ⟨hdeclared, -⟩ := Step.ofExcept_ok hlist
  have hgains := assignIds_gains hr hdeclared h
  refine ⟨declared, hdeclared, hgains, Table.remove_eq_self ?_⟩
  rw [hgains.names, ← Table.find?_eq_none_iff, Table.find?_remove, if_pos rfl]

/-- The work of an update writes the fields of the input that is left into the document of an id. -/
theorem hookedUpdate_work (hr : m.registry.Reachable) {id : Value} {left made final : Fields}
    {front back : List Entry} {e : Entry} {v w : State}
    (hids : (v.store.entries.map Entry.id).Nodup) (hfound : v.store.entries = front ++ e :: back)
    (hown : e.Is m.model.storedIn id) (hfinal : Fields.get left "input" = .record final)
    (hwork : (m.hookedUpdate ctx input).work id left v = (.ok made, w)) :
    ∃ changes declared, m.registry.fieldsOf m.model.name = .ok declared ∧
      DocumentGains m.registry declared (Table.remove (Value.plainFields final) "id") changes ∧
      w.store.entries = front ++ e.changed changes :: back ∧
      Fields.get made "before_updated" = Fields.get left "before_updated" := by
  obtain ⟨given, v₁, hgiven, hwork⟩ := Step.bind_ok hwork
  obtain ⟨hgiven, rfl⟩ := Step.ofExcept_ok hgiven
  rw [hfinal] at hgiven
  cases hgiven
  obtain ⟨changes, v₂, hchanges, hwork⟩ := Step.bind_ok hwork
  obtain ⟨ids, hassign, rfl⟩ := Step.zoom_eq hchanges
  obtain ⟨declared, hdeclared, hgains, hnoId⟩ := assignIds_apart hr.distinct hassign
  obtain ⟨doc?, v₃, hupdate, hwork⟩ := Step.bind_ok hwork
  obtain ⟨store, hstore, rfl⟩ := Step.zoom_eq hupdate
  rw [← hown.1, ← hown.2, Store.update_middle hfound hids, hnoId] at hstore
  cases hstore
  obtain ⟨doc, v₄, hload, hwork⟩ := Step.bind_ok hwork
  obtain ⟨updated, v₅, hshown, hwork⟩ := Step.bind_ok hwork
  cases hwork
  have hclosed := Step.SparesStore.closed m.registry
  have hloaded := (load_closed hclosed id).eq hload
  have hkept := (hclosed.output (some m.model.name) (.record doc)).eq hshown
  refine ⟨changes, declared, hdeclared, hgains, ?_, rfl⟩
  rw [hkept, hloaded]

/-- A successful update between its hooks. -/
theorem update_updates (hr : m.registry.Reachable) (hids : (s.store.entries.map Entry.id).Nodup)
    (hedits : h.EditInput .beforeUpdate) (hspare : h.SpareStore)
    (hrun : (m.hookedUpdate ctx input).run h s = (.ok answer, t)) :
    ∃ data old final changes front back e, input.asFields = .ok data ∧
      m.Updates ctx h data s t old final changes front back e := by
  unfold HookedOperation.run at hrun
  obtain ⟨⟨id, payload⟩, u, hopening, hrun⟩ := Step.bind_ok hrun
  have hu := (m.hookedUpdate ctx input).opening_spares.eq hopening
  obtain ⟨data, old, e, hdata, hgiven, hfound, hold, rfl, rfl⟩ := hookedUpdate_opening hopening
  obtain ⟨hown, front, back, hentries⟩ := Store.find?_some hfound
  obtain ⟨left, v, hbefore, hrun⟩ := Step.bind_ok hrun
  have hv := (h.dispatch_spares hspare _ _).eq hbefore
  have hleft : EditsInput (updatePayload ctx data old) left :=
    hedits.fold (fun _ hf => hf) hbefore
  obtain ⟨final, hfinal⟩ := hleft.input data rfl
  obtain ⟨made, w, hwork, hrun⟩ := Step.bind_ok hrun
  have hstore : v.store = s.store := hv.trans hu
  obtain ⟨changes, declared, hdeclared, hgains, hwritten, hpassed⟩ :=
    hookedUpdate_work hr (hstore ▸ hids) (hstore ▸ hentries) hown hfinal hwork
  obtain ⟨after, t', hafter, hanswer⟩ := Step.bind_ok hrun
  cases hanswer
  have ht := (h.dispatch_spares hspare _ _).eq hafter
  refine ⟨data, old, final, changes, front, back, e, hdata, hgiven, hentries, hown, ?_,
    ⟨declared, hdeclared, hgains⟩, ht ▸ hwritten, made, w, after, ?_, hafter⟩
  · refine ⟨u, left, v, hold, fun first f later passed w hphase hfirst => ?_, hbefore, hfinal⟩
    have hedited : EditsInput (updatePayload ctx data old) passed :=
      hedits.fold (fun g hg => hphase ▸ List.mem_append_left _ hg) hfirst
    exact hedited.others "before_updated" (by decide)
  · rw [hpassed]
    exact hleft.others "before_updated" (by decide)

/-! ## Two updates -/

/-- In a running api a document is shown without a change of the state. -/
theorem shape_serves (hr : m.registry.Reachable) {c : TypeCache} (hserves : c.Serves m.registry)
    (hs : s.types = c) (doc : Fields) : m.shape doc s =
      ((toOutput m.registry (some m.model.name) (.record doc) m.registry.builtTypes).1, s) := by
  subst hs
  show State.onTypes _ s = _
  unfold State.onTypes Step.zoom
  rw [hserves.toOutput_eq hr.named]

variable {data : Fields} {front back : List Entry} {e : Entry} {old : Value} {changes : Fields}
  {ids : IdSource}

theorem record_merge_isJson {first second : Fields} (h : (Value.record first).IsJson)
    (h' : (Value.record second).IsJson) : (Value.record (Table.merge first second)).IsJson := by
  cases h with
  | record h =>
    cases h' with
    | record h' =>
      refine .record fun name v hmem => ?_
      rcases Table.mem_merge hmem with hmem | hmem
      · exact h name v hmem
      · exact h' name v hmem

theorem asFields_json (hjson : (Value.record data).IsJson) :
    (Value.record data).asFields = .ok data := by
  unfold Value.asFields
  rw [hjson.plain]
  cases data with
  | nil => rfl
  | cons entry data => rfl

/-- An update without hooks of a document that is found shows the document with the changes. -/
theorem update_plain (hr : m.registry.Reachable) {c : TypeCache} (hserves : c.Serves m.registry)
    (htypes : s.types = c) (hhooks : m.hooks = {}) (hids : (s.store.entries.map Entry.id).Nodup)
    (hjson : (Value.record data).IsJson) (hgiven : (Fields.get data "id").truthy)
    (hfound : s.store.entries = front ++ e :: back)
    (hown : e.Is m.model.storedIn (Fields.get data "id"))
    (hold : (m.shape e.document s).1 = .ok old)
    (hassign : assignIds m.registry (some m.model.name) (Table.remove data "id") s.ids =
      (.ok changes, ids)) :
    m.update ctx (.record data) s =
      ((toOutput m.registry (some m.model.name)
          (.record (e.changed changes).document) m.registry.builtTypes).1,
        { s with ids, store := ⟨front ++ e.changed changes :: back⟩ }) := by
  obtain ⟨hfront, -⟩ := others_of_nodup (hfound ▸ hids)
  obtain ⟨hcollection, hid⟩ := hown
  have hstore : s.store = ⟨front ++ e :: back⟩ := by rw [← hfound]
  have hread : (Step.ofExcept (Value.record data).asFields : Step State Fields) s =
      (.ok data, s) := by
    rw [asFields_json hjson]
    rfl
  have hload : ∀ (u : State) (e' : Entry), e'.collection = e.collection → e'.id = e.id →
      u.store = ⟨front ++ e' :: back⟩ → m.load (Fields.get data "id") u = (.ok e'.document, u) := by
    intro u e' hcollection' hid' hu
    rw [load_answer, hu, ← hcollection, ← hid, ← hcollection', ← hid',
      Store.find?_middle (hid' ▸ hfront)]
    rfl
  have hshown : m.shape e.document s = (.ok old, s) := by
    rw [shape_serves hr hserves htypes] at hold ⊢
    exact Prod.ext hold rfl
  have hplain : (Step.ofExcept (Value.record data).plain.toFields : Step State Fields) s =
      (.ok data, s) := by
    rw [hjson.plain]
    rfl
  have hassigned : State.onIds (assignIds m.registry (some m.model.name) (Table.remove data "id")) s =
      (.ok changes, { s with ids }) := by
    unfold State.onIds Step.zoom
    rw [hassign]
  obtain ⟨-, -, -, hnoId⟩ := assignIds_apart hr.distinct hassign
  have hupdate : State.onStore (Store.update m.model.storedIn (Fields.get data "id").display changes)
      { s with ids } = (.ok (some (e.changed changes).document),
        { s with ids, store := ⟨front ++ e.changed changes :: back⟩ }) := by
    unfold State.onStore Step.zoom
    dsimp only
    rw [← hcollection, ← hid, Store.update_middle hfound hids, hnoId]
  unfold update
  rw [Step.bind_of_ok hread]
  dsimp only
  rw [hgiven, if_neg (by decide), Step.bind_of_ok (hload s e rfl rfl hstore), Step.bind_of_ok hshown,
    dispatch_eq hhooks, pure_bind]
  show (Step.ofExcept (Value.record data).plain.toFields >>= _) s = _
  rw [Step.bind_of_ok hplain, Step.bind_of_ok hassigned, Step.bind_of_ok hupdate]
  dsimp only
  rw [Step.bind_of_ok (hload _ (e.changed changes) rfl rfl rfl)]
  simp only [dispatch_eq hhooks, pure_bind]
  refine (congrFun (bind_pure _) _).trans (shape_serves hr hserves ?_ _)
  exact htypes

/-- What an update without hooks that succeeds has found. -/
theorem update_found (h : m.update ctx (.record data) s = (.ok answer, t))
    (hjson : (Value.record data).IsJson) (hhooks : m.hooks = {}) :
    (Fields.get data "id").truthy ∧ ∃ e old changes ids,
      s.store.find? m.model.storedIn (Fields.get data "id").display = some e ∧
      (m.shape e.document s).1 = .ok old ∧
      assignIds m.registry (some m.model.name) (Table.remove data "id") s.ids =
        (.ok changes, ids) := by
  rw [update_hooked, hhooks] at h
  obtain ⟨⟨id, payload⟩, u, hopening, h⟩ := Step.bind_ok h
  obtain ⟨data', old, e, hdata, hgiven, hfound, hold, rfl, rfl⟩ := hookedUpdate_opening hopening
  rw [asFields_json hjson] at hdata
  cases hdata
  obtain ⟨left, v, hbefore, h⟩ := Step.bind_ok h
  cases hbefore
  obtain ⟨made, w, hwork, -⟩ := Step.bind_ok h
  obtain ⟨given, v₁, hread, hwork⟩ := Step.bind_ok hwork
  obtain ⟨hplain, rfl⟩ := Step.ofExcept_ok hread
  change (Value.record data).plain.toFields = _ at hplain
  rw [hjson.plain] at hplain
  cases hplain
  obtain ⟨changes, v₂, hchanges, -⟩ := Step.bind_ok hwork
  obtain ⟨ids, hassign, rfl⟩ := Step.zoom_eq hchanges
  have hids : s.ids = u.ids := congrArg (fun answered => answered.2.ids) hold
  rw [← hids] at hassign
  exact ⟨hgiven, e, old, changes, ids, hfound, congrArg Prod.fst hold, hassign⟩

/-- The values of a document whose embedded documents have ids. -/
theorem assignIds_each {r : Registry} (hr : r.Distinct) {model : Option String} {doc : Fields}
    {ids' : IdSource} (hall : ∀ d ∈ subDocuments r model doc, d.hasId)
    (h : assignIds r model doc ids = (.ok changes, ids')) :
    (changes = doc ∧ ids' = ids) ∧ ∃ declared, r.fieldsOfEmbedded model = .ok declared ∧
      ∀ f ∈ r.embeddedFields model true, ∀ i,
        assignEntry r doc f i = (.ok (Table.find? doc f.name), i) := by
  obtain ⟨rfl, rfl⟩ := assignIds_same hall h
  obtain ⟨declared, hdeclared, -, hfields⟩ := assignIds_assigned_of hr
    (fun f v w i i' _ hw => assignIn_assigned hr hw) h
  exact ⟨⟨rfl, rfl⟩, declared, hdeclared, hfields.settled⟩

/-- Two documents whose embedded documents have ids, one over the other. -/
theorem assignIds_merge {r : Registry} {model : Option String} {declared : List Field}
    {doc later : Fields} (hdeclared : r.fieldsOfEmbedded model = .ok declared)
    (hlater : (Table.names later).Nodup)
    (hdoc : ∀ f ∈ r.embeddedFields model true, ∀ i,
      assignEntry r doc f i = (.ok (Table.find? doc f.name), i))
    (hnew : ∀ f ∈ r.embeddedFields model true, ∀ i,
      assignEntry r later f i = (.ok (Table.find? later f.name), i)) :
    assignIds r model (Table.merge doc later) ids = (.ok (Table.merge doc later), ids) := by
  refine assignIds_settled hdeclared fun f hf i => ?_
  have hvalue := Table.find?_merge_of_nodup hlater doc f.name
  cases hfound : Table.find? later f.name with
  | some v =>
    rw [hfound] at hvalue
    have hentry := hnew f hf i
    rw [assignEntry_eq, hfound] at hentry
    rw [assignEntry_eq, hvalue]
    exact hentry
  | none =>
    rw [hfound] at hvalue
    have hentry := hdoc f hf i
    rw [assignEntry_eq] at hentry
    rw [assignEntry_eq, hvalue]
    exact hentry

theorem subDocuments_remove {r : Registry} {model : Option String} {doc : Fields} (key : String) :
    ∀ d ∈ subDocuments r model (Table.remove doc key), d ∈ subDocuments r model doc := by
  intro d hd
  obtain ⟨f, hf, hd⟩ := List.mem_flatMap.mp hd
  refine List.mem_flatMap.mpr ⟨f, hf, ?_⟩
  rw [subDocumentsAt_eq] at hd ⊢
  rw [Table.find?_remove] at hd
  by_cases hname : key = f.name
  · rw [if_pos hname] at hd
    cases hd
  · rwa [if_neg hname] at hd

/-- Two updates of one document without hooks, whose embedded documents have ids, answer and leave
what one update with the fields of the second over those of the first does. -/
theorem update_twice (hr : m.registry.Reachable) (hserves : s.types.Serves m.registry)
    (hhooks : m.hooks = {}) (hids : (s.store.entries.map Entry.id).Nodup) {first second : Fields}
    {answer₁ answer₂ : Value} {t₁ t₂ : State} (hjson₁ : (Value.record first).IsJson)
    (hjson₂ : (Value.record second).IsJson) (hnames₁ : (Table.names first).Nodup)
    (hnames₂ : (Table.names second).Nodup)
    (hsame : (Fields.get second "id").display = (Fields.get first "id").display)
    (hall₁ : ∀ d ∈ subDocuments m.registry (some m.model.name) first, d.hasId)
    (hall₂ : ∀ d ∈ subDocuments m.registry (some m.model.name) second, d.hasId)
    (h₁ : m.update ctx (.record first) s = (.ok answer₁, t₁))
    (h₂ : m.update ctx (.record second) t₁ = (.ok answer₂, t₂)) :
    m.update ctx (.record (Table.merge first second)) s = (.ok answer₂, t₂) := by
  -- the first update
  obtain ⟨hgiven₁, e, old, changes, ids, hfind, hold, hassign⟩ := update_found h₁ hjson₁ hhooks
  obtain ⟨hown, front, back, hfound⟩ := Store.find?_some hfind
  obtain ⟨⟨rfl, rfl⟩, declared, hdeclared, hsettled₁⟩ := assignIds_each hr.distinct
    (fun d hd => hall₁ d (subDocuments_remove "id" d hd)) hassign
  rw [update_plain hr hserves rfl hhooks hids hjson₁ hgiven₁ hfound hown hold hassign] at h₁
  obtain ⟨-, ht⟩ := Prod.mk.inj h₁
  have htypes : t₁.types = s.types := ht ▸ rfl
  have hfound₁ : t₁.store.entries = front ++ e.changed (Table.remove first "id") :: back := ht ▸ rfl
  have hids₁ : (t₁.store.entries.map Entry.id).Nodup := by
    rw [hfound₁]
    rw [hfound] at hids
    simpa [Entry.changed] using hids
  -- the second one finds what the first one has written
  obtain ⟨hgiven₂, e', old', changes', ids', hfind', hold', hassign'⟩ :=
    update_found h₂ hjson₂ hhooks
  have hstore : t₁.store = ⟨front ++ e.changed (Table.remove first "id") :: back⟩ := by rw [← hfound₁]
  have hmiddle : Store.find? ⟨front ++ e.changed (Table.remove first "id") :: back⟩ e.collection e.id =
      some (e.changed (Table.remove first "id")) :=
    Store.find?_middle (others_of_nodup (hfound₁ ▸ hids₁)).1
  rw [hsame, ← hown.1, ← hown.2, hstore, hmiddle] at hfind'
  cases hfind'
  obtain ⟨⟨rfl, rfl⟩, -, -, hsettled₂⟩ := assignIds_each hr.distinct
    (fun d hd => hall₂ d (subDocuments_remove "id" d hd)) hassign'
  have hown₁ : (e.changed (Table.remove first "id")).Is m.model.storedIn (Fields.get second "id") :=
    ⟨hown.1, hown.2.trans hsame.symm⟩
  rw [update_plain hr hserves htypes hhooks hids₁ hjson₂ hgiven₂ hfound₁ hown₁ hold' hassign',
    Entry.changed_changed (Table.nodup_names_remove hnames₁ "id")] at h₂
  -- one update with both inputs
  have hmerged : Table.remove (Table.merge first second) "id" =
      Table.merge (Table.remove first "id") (Table.remove second "id") :=
    Table.remove_merge first second "id"
  have hid : Fields.get (Table.merge first second) "id" = Fields.get second "id" := by
    unfold Fields.get at hgiven₂ ⊢
    rw [Table.find?_merge_of_nodup hnames₂]
    cases hsecond : Table.find? second "id" with
    | some v => rfl
    | none => rw [hsecond] at hgiven₂; cases hgiven₂
  have hassigned : assignIds m.registry (some m.model.name)
      (Table.remove (Table.merge first second) "id") s.ids =
        (.ok (Table.remove (Table.merge first second) "id"), s.ids) := by
    rw [hmerged]
    exact assignIds_merge hdeclared (Table.nodup_names_remove hnames₂ "id") hsettled₁ hsettled₂
  have hown' : e.Is m.model.storedIn (Fields.get (Table.merge first second) "id") := by
    rw [hid]
    exact ⟨hown.1, hown.2.trans hsame.symm⟩
  rw [update_plain hr hserves rfl hhooks hids (record_merge_isJson hjson₁ hjson₂) (hid ▸ hgiven₂)
    hfound hown' hold hassigned, hmerged, ← h₂, ← ht]

/-- A successful update, with any handlers that edit its input, writes the document that was found by
the id that it was given, and no other: what is left of the input is set over the fields of the
document, and each embedded document in it without an id is given one. Two updates without hooks, of
inputs whose embedded documents have ids, leave what one update with the fields of the second over
those of the first leaves. -/
theorem update_writes (hr : m.registry.Reachable) (hids : (s.store.entries.map Entry.id).Nodup) :
    m.update ctx input = (m.hookedUpdate ctx input).run (m.hooks.handlers m.model.name) ∧
    (∀ h : Handlers, h.EditInput .beforeUpdate → h.SpareStore → ∀ answer t,
      (m.hookedUpdate ctx input).run h s = (.ok answer, t) →
      ∃ data old final changes front back e, input.asFields = .ok data ∧
        m.Updates ctx h data s t old final changes front back e) ∧
    ∀ first second : Fields, s.types.Serves m.registry →
      (Value.record first).IsJson → (Table.names first).Nodup →
      (Value.record second).IsJson → (Table.names second).Nodup →
      (Fields.get second "id").display = (Fields.get first "id").display →
      (∀ d ∈ subDocuments m.registry (some m.model.name) first, d.hasId) →
      (∀ d ∈ subDocuments m.registry (some m.model.name) second, d.hasId) →
      ∀ answer₁ t₁ answer₂ t₂,
        { m with hooks := {} }.update ctx (.record first) s = (.ok answer₁, t₁) →
        { m with hooks := {} }.update ctx (.record second) t₁ = (.ok answer₂, t₂) →
        { m with hooks := {} }.update ctx (.record (Table.merge first second)) s =
          (.ok answer₂, t₂) := by
  refine ⟨m.update_hooked ctx input, fun h hedits hspare answer t hrun =>
    update_updates hr hids hedits hspare hrun, ?_⟩
  intro first second hserves hjson₁ hnames₁ hjson₂ hnames₂ hsame hall₁ hall₂ answer₁ t₁ answer₂ t₂
    h₁ h₂
  have hr' : ({ m with hooks := {} } : ModelOperations).registry.Reachable := hr
  exact update_twice hr' hserves rfl hids hjson₁ hjson₂ hnames₁ hnames₂ hsame hall₁ hall₂ h₁ h₂

end ModelOperations

/-! ## Orders -/

/-- Names another order and another status in the input. -/
def reassign : Handler where
  label := .text "reassign"
  assignments := [([.text "input", .text "id"], .text "n1"),
    ([.text "input", .text "status"], .text "done")]

/-- The operations of orders that are reassigned before each update. -/
def reassignedOrders : ModelOperations :=
  ⟨orderModels, ⟨[⟨.model "Order", .beforeUpdate, reassign⟩]⟩, orderModel⟩

/-- The first line of an order alone. -/
def firstLine : Fields :=
  [("id", .text "o1"), ("lines", .list [.record (lineOf "l1" "p1")])]

/-- An order that is done. -/
def doneOrder : Fields :=
  [("id", .text "o1"), ("status", .text "done")]

theorem updates_evaluated :
    (reassignedOrders.update .null (.record firstLine) lineState).1.isOk ∧
    (({ reassignedOrders with hooks := {} }).update .null (.record firstLine) lineState).1.isOk ∧
    (({ reassignedOrders with hooks := {} }).update .null (.record doneOrder)
      (({ reassignedOrders with hooks := {} }).update .null (.record firstLine)
        lineState).2).1.isOk := by
  -- The recursions are opened to the depth of the models; the rest is evaluated.
  have hwhile := funext fun begun => funext (typeWhile.eq_def orderModels begun)
  have hfields := funext fun begun => funext fun key =>
    funext (fieldsWhile.eq_def orderModels begun key)
  have houtput := funext fun model => funext (toOutput_eq orderModels model)
  have hfield := funext fun f => funext (fieldOutput_eq orderModels f)
  have htype := funext fun key => funext (typeOf_eq orderModels key)
  have hregistry : reassignedOrders.registry = orderModels := rfl
  unfold ModelOperations.update ModelOperations.shape lineState
  dsimp only [reassignedOrders]
  rw [houtput, hfield, houtput, hfield, houtput, hfield, htype]
  unfold buildAll buildModel filterTypeOf sortTypeOf typeOf
  rw [hwhile, hfields, hfields, hfields, hfields, hfields, hfields, hwhile]
  decide +kernel

theorem lineOf_isJson (id part : String) : (Value.record (lineOf id part)).IsJson := by
  refine .record fun name v hmem => ?_
  simp only [lineOf, List.mem_cons, List.not_mem_nil, or_false, Prod.mk.injEq] at hmem
  rcases hmem with ⟨-, rfl⟩ | ⟨-, rfl⟩ | ⟨-, rfl⟩
  · exact .text id
  · exact .int 1
  · refine .record fun name v hmem => ?_
    simp only [List.mem_cons, List.not_mem_nil, or_false, Prod.mk.injEq] at hmem
    rcases hmem with ⟨-, rfl⟩ | ⟨-, rfl⟩ <;> exact .text _

theorem firstLine_isJson : (Value.record firstLine).IsJson := by
  refine .record fun name v hmem => ?_
  simp only [firstLine, List.mem_cons, List.not_mem_nil, or_false, Prod.mk.injEq] at hmem
  rcases hmem with ⟨-, rfl⟩ | ⟨-, rfl⟩
  · exact .text "o1"
  · refine .list fun v hv => ?_
    rw [List.mem_singleton.mp hv]
    exact lineOf_isJson "l1" "p1"

theorem doneOrder_isJson : (Value.record doneOrder).IsJson := by
  refine .record fun name v hmem => ?_
  simp only [doneOrder, List.mem_cons, List.not_mem_nil, or_false, Prod.mk.injEq] at hmem
  rcases hmem with ⟨-, rfl⟩ | ⟨-, rfl⟩ <;> exact .text _

/-- The order is written although the handlers name another one, and one update writes what two do. -/
theorem update_writes_order : orderModels.Reachable ∧
    (lineState.store.entries.map Entry.id).Nodup ∧
    (∃ answer t data old final changes front back e,
      reassignedOrders.update .null (.record firstLine) lineState = (.ok answer, t) ∧
      (Value.record firstLine).asFields = .ok data ∧
      reassignedOrders.Updates .null (reassignedOrders.hooks.handlers "Order") data lineState t old
        final changes front back e) ∧
    ∃ answer t, { reassignedOrders with hooks := {} }.update .null
      (.record (Table.merge firstLine doneOrder)) lineState = (.ok answer, t) := by
  have hids : (lineState.store.entries.map Entry.id).Nodup := by decide
  obtain ⟨hrun, hwrites, htwice⟩ := @ModelOperations.update_writes reassignedOrders .null
    (.record firstLine) lineState orderModels_reachable hids
  obtain ⟨hreassigned, hfirst, hsecond⟩ := updates_evaluated
  refine ⟨orderModels_reachable, hids, ?_, ?_⟩
  · generalize hresult : reassignedOrders.update .null (.record firstLine) lineState = result
      at hreassigned
    obtain ⟨e | answer, t⟩ := result
    · cases hreassigned
    · have hedits : (reassignedOrders.hooks.handlers "Order").EditInput .beforeUpdate := by
        refine HookTable.handlers_editInput "Order" .beforeUpdate fun entry hentry _ a ha => ?_
        rw [List.mem_singleton.mp hentry] at ha
        rcases List.mem_pair.mp ha with rfl | rfl
        · exact ⟨"id", [], rfl⟩
        · exact ⟨"status", [], rfl⟩
      have hspare : (reassignedOrders.hooks.handlers "Order").SpareStore :=
        HookTable.handlers_spareStore "Order" (by decide)
      obtain ⟨data, old, final, changes, front, back, e, hdata, hupdates⟩ :=
        hwrites _ hedits hspare answer t ((congrFun hrun lineState).symm.trans hresult)
      exact ⟨answer, t, data, old, final, changes, front, back, e, rfl, hdata, hupdates⟩
  · generalize hresult : ({ reassignedOrders with hooks := {} } : ModelOperations).update .null
      (.record firstLine) lineState = result at hfirst hsecond
    obtain ⟨e | answer₁, t₁⟩ := result
    · cases hfirst
    · generalize hresult' : ({ reassignedOrders with hooks := {} } : ModelOperations).update .null
        (.record doneOrder) t₁ = result' at hsecond
      obtain ⟨e | answer₂, t₂⟩ := result'
      · cases hsecond
      · refine ⟨answer₂, t₂, htwice firstLine doneOrder orderState_running.serves firstLine_isJson
          (by decide) doneOrder_isJson (by decide) rfl ?_ ?_ answer₁ t₁ answer₂ t₂ hresult hresult'⟩
        · decide
        · decide

end DocumentApi
