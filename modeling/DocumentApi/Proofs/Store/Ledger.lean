import DocumentApi.Proofs.Operations.Storing
import DocumentApi.Proofs.Store.Queries
import DocumentApi.Store.Request

/-!
# A store as a list of entries

What the calls of a store answer and leave, said of the list of its entries alone.

* `Behaves`: one call on a list of entries. Only an insert adds an entry, at the end; the other
  calls change or drop the one entry of a collection and an id, or nothing.
* `Ledger.Sound`: the ids of all collections differ, and the entries stand in the order of the
  inserts that added them. `Behaves.sound` keeps it.
* `Request.behaves`: a store of documents behaves as the list of its entries.
-/

namespace DocumentApi

/-- The calls that store documents, and read them one by one or a whole collection. -/
inductive Request.Basic : Request → Prop
  | insert (collection : String) (data : Value) : Basic (.insert collection data)
  | update (collection : String) (id changes : Value) : Basic (.update collection id changes)
  | addToSet (collection : String) (id : Value) (field : String) (values : Value) :
    Basic (.addToSet collection id field values)
  | delete (collection : String) (id : Value) : Basic (.delete collection id)
  | findById (collection : String) (id : Value) : Basic (.findById collection id)
  | findAll (collection : String) : Basic (.find collection {})

/-- The id of a new document: the one given as text, or a new one when none or an empty one is
given. -/
def idFor (fields : Fields) (ids : IdSource) : Except Error String × IdSource :=
  if (Fields.get fields "id").truthy then (.ok (Fields.get fields "id").display, ids) else ids.draw

/-- The entries of a store, its source of ids, and the collection and id of every insert that
succeeded, all in order. -/
structure Ledger where
  entries : List Entry
  ids : IdSource
  inserted : List (String × String)

/-- An entry is the one of an id in a collection. -/
def Entry.Is (e : Entry) (collection : String) (id : Value) : Prop :=
  e.collection = collection ∧ e.id = id.display

/-- What a call answers on a ledger, and the ledger that it leaves. -/
inductive Behaves : Ledger → Request → Except Error Value → Ledger → Prop
  | inserted {l : Ledger} {collection id : String} {data : Value} {fields : Fields} {ids : IdSource}
      (hdata : data.toFields = .ok fields) (hid : idFor fields l.ids = (.ok id, ids))
      (hnew : ∀ e ∈ l.entries, e.id ≠ id) :
      Behaves l (.insert collection data)
        (.ok (.record (Entry.mk collection id (Table.remove fields "id")).document))
        ⟨l.entries ++ [⟨collection, id, Table.remove fields "id"⟩], ids,
          l.inserted ++ [(collection, id)]⟩
  | taken {l : Ledger} {collection id : String} {data : Value} {fields : Fields} {ids : IdSource}
      {e : Entry} (hdata : data.toFields = .ok fields) (hid : idFor fields l.ids = (.ok id, ids))
      (he : e ∈ l.entries) (hused : e.id = id) :
      Behaves l (.insert collection data) (.error .idTaken) { l with ids }
  | noId {l : Ledger} {collection : String} {data : Value} {fields : Fields} {ids : IdSource}
      {fault : Error} (hdata : data.toFields = .ok fields)
      (hid : idFor fields l.ids = (.error fault, ids)) :
      Behaves l (.insert collection data) (.error fault) { l with ids }
  | noFields {l : Ledger} {collection : String} {data : Value} {fault : Error}
      (hdata : data.toFields = .error fault) :
      Behaves l (.insert collection data) (.error fault) l
  | updated {l : Ledger} {before after : List Entry} {e : Entry} {collection : String} {id : Value}
      {changes : Fields} (hl : l.entries = before ++ e :: after) (he : e.Is collection id) :
      Behaves l (.update collection id (.record changes))
        (.ok (.record
          { e with fields := Table.merge e.fields (Table.remove changes "id") }.document))
        { l with entries := before ++
          { e with fields := Table.merge e.fields (Table.remove changes "id") } :: after }
  | updatedNone {l : Ledger} {collection : String} {id : Value} {changes : Fields}
      (hnone : ∀ e ∈ l.entries, ¬ e.Is collection id) :
      Behaves l (.update collection id (.record changes)) (.ok .null) l
  | updatedByOther {l : Ledger} {collection : String} {id changes : Value}
      (hchanges : ∀ fields, changes ≠ .record fields) :
      Behaves l (.update collection id changes) (.error .missingPart) l
  | added {l : Ledger} {before after : List Entry} {e : Entry} {collection field : String}
      {id values : Value} {items new : List Value} (hl : l.entries = before ++ e :: after)
      (he : e.Is collection id) (hitems : (Fields.get e.fields field).iterateGiven = .ok items)
      (hnew : values.iterate = .ok new) :
      Behaves l (.addToSet collection id field values)
        (.ok (.record
          { e with fields := Table.set e.fields field (.list (Store.union items new)) }.document))
        { l with entries := before ++
          { e with fields := Table.set e.fields field (.list (Store.union items new)) } :: after }
  | addedToOther {l : Ledger} {e : Entry} {collection field : String} {id values : Value}
      {fault : Error} (hl : e ∈ l.entries) (he : e.Is collection id)
      (hfault : (do
        let _ ← (Fields.get e.fields field).iterateGiven
        values.iterate) = .error fault) :
      Behaves l (.addToSet collection id field values) (.error fault) l
  | addedNone {l : Ledger} {collection field : String} {id values : Value}
      (hnone : ∀ e ∈ l.entries, ¬ e.Is collection id) :
      Behaves l (.addToSet collection id field values) (.ok .null) l
  | deleted {l : Ledger} {before after : List Entry} {e : Entry} {collection : String} {id : Value}
      (hl : l.entries = before ++ e :: after) (he : e.Is collection id) :
      Behaves l (.delete collection id) (.ok (.bool true)) { l with entries := before ++ after }
  | deletedNone {l : Ledger} {collection : String} {id : Value}
      (hnone : ∀ e ∈ l.entries, ¬ e.Is collection id) :
      Behaves l (.delete collection id) (.ok (.bool false)) l
  | foundOne {l : Ledger} {e : Entry} {collection : String} {id : Value} (hl : e ∈ l.entries)
      (he : e.Is collection id) :
      Behaves l (.findById collection id) (.ok (.record e.document)) l
  | foundNone {l : Ledger} {collection : String} {id : Value}
      (hnone : ∀ e ∈ l.entries, ¬ e.Is collection id) :
      Behaves l (.findById collection id) (.ok .null) l
  | foundAll {l : Ledger} {collection : String} :
      Behaves l (.find collection {}) (.ok (.list
        ((l.entries.filter fun e => e.collection = collection).map fun e => .record e.document))) l

/-! ## Ids and order -/

/-- The collection and the id of an entry. -/
def Entry.place (e : Entry) : String × String := (e.collection, e.id)

/-- Ids differ in all collections, and the entries stand in the order of their inserts. -/
structure Ledger.Sound (l : Ledger) : Prop where
  ids : (l.entries.map Entry.id).Nodup
  order : (l.entries.map Entry.place).Sublist l.inserted

variable {l l' : Ledger} {call : Request} {answer : Except Error Value}

/-- An entry whose fields change keeps its place. -/
theorem Ledger.Sound.change {before after : List Entry} {e : Entry} (hl : l.Sound)
    (hentries : l.entries = before ++ e :: after) (fields : Fields) :
    Ledger.Sound { l with entries := before ++ { e with fields } :: after } := by
  obtain ⟨hids, horder⟩ := hl
  rw [hentries, List.map_append, List.map_cons] at hids horder
  constructor
  · simpa using hids
  · simpa [Entry.place] using horder

/-- A call keeps ids apart, and the entries in the order of their inserts. -/
theorem Behaves.sound (h : Behaves l call answer l') (hl : l.Sound) : l'.Sound := by
  cases h with
  | inserted hdata hid hnew =>
    refine ⟨?_, ?_⟩
    · rw [List.map_append, List.nodup_append]
      refine ⟨hl.ids, by simp, ?_⟩
      rintro _ hold _ hadded rfl
      obtain ⟨e, he, hsame⟩ := List.mem_map.mp hold
      simp only [List.map_cons, List.map_nil, List.mem_singleton] at hadded
      exact hnew e he (hsame.trans hadded)
    · rw [List.map_append]
      exact hl.order.append (.refl _)
  | taken | noId => exact ⟨hl.ids, hl.order⟩
  | updated hentries => exact hl.change hentries _
  | added hentries => exact hl.change hentries _
  | deleted hentries =>
    obtain ⟨hids, horder⟩ := hl
    rw [hentries] at hids horder
    have hless : ∀ {before after : List Entry} {e : Entry},
        (before ++ after).Sublist (before ++ e :: after) :=
      fun {before after e} => (List.Sublist.refl before).append (List.sublist_cons_self e after)
    exact ⟨(hless.map _).nodup hids, (hless.map _).trans horder⟩
  | _ => exact hl

/-! ## Calls of a store -/

theorem State.onStore_eq {α : Type} (x : Step Store α) (s : State) :
    State.onStore x s = ((x s.store).1, { s with store := (x s.store).2 }) := rfl

theorem State.insert_eq (collection : String) (data : Fields) (s : State) :
    State.insert collection data s = match idFor data s.ids with
      | (.error fault, ids) => (.error fault, { s with ids })
      | (.ok id, ids) =>
        if s.store.uses id then (.error .idTaken, { s with ids })
        else (.ok (Entry.mk collection id (Table.remove data "id")).document,
          { s with ids, store :=
            ⟨s.store.entries ++ [⟨collection, id, Table.remove data "id"⟩]⟩ }) := by
  have hstore : ∀ id (u : State), State.onStore (Store.insert collection id
      (Table.remove data "id")) u = if u.store.uses id then (.error .idTaken, u)
        else (.ok (Entry.mk collection id (Table.remove data "id")).document,
          { u with store := ⟨u.store.entries ++ [⟨collection, id, Table.remove data "id"⟩]⟩ }) := by
    intro id u
    rw [State.onStore_eq, Store.insert_eq]
    by_cases huses : u.store.uses id
    · rw [if_pos huses, if_pos huses]
    · rw [if_neg huses, if_neg huses]
  unfold State.insert idFor
  dsimp only
  split
  · exact hstore _ s
  · rw [Step.bind_run]
    unfold State.newId State.onIds Step.zoom
    dsimp only
    rcases s.ids.draw with ⟨fault | id, ids⟩
    · rfl
    · exact hstore id { s with ids }

namespace Ledger

/-- The ledger of a state, after the given inserts. -/
def ofState (s : State) (inserted : List (String × String)) : Ledger :=
  ⟨s.store.entries, s.ids, inserted⟩

end Ledger

variable {s : State} {log : List (String × String)}

/-- What a step answers is how the list of entries behaves, and the types and events stay. -/
def BehavesAt (s : State) (log : List (String × String)) (call : Request)
    (result : Except Error Value × State) : Prop :=
  ∃ log', Behaves (.ofState s log) call result.1 (.ofState result.2 log')

theorem Request.insert_behaves (collection : String) (data : Value) :
    BehavesAt s log (.insert collection data) ((Request.insert collection data).run s) := by
  show BehavesAt s log _ ((do
    let fields ← Step.ofExcept data.toFields
    return Value.record (← State.insert collection fields)) s)
  cases hdata : data.toFields with
  | error fault => exact ⟨log, .noFields hdata⟩
  | ok fields =>
    show BehavesAt s log _ ((do return Value.record (← State.insert collection fields)) s)
    rw [Step.bind_run, State.insert_eq]
    rcases hid : idFor fields s.ids with ⟨fault | id, ids⟩
    · exact ⟨log, .noId hdata hid⟩
    · dsimp only
      by_cases huses : s.store.uses id
      · rw [if_pos huses]
        obtain ⟨e, he, hused⟩ := List.any_eq_true.mp huses
        exact ⟨log, .taken hdata hid he (beq_iff_eq.mp hused)⟩
      · rw [if_neg huses]
        exact ⟨_, .inserted hdata hid (Store.uses_eq_false.mp (by simpa using huses))⟩

/-- An entry that is found stands somewhere among the others, and no other one has its id. -/
theorem Store.find?_some {s : Store} {collection id : String} {e : Entry}
    (h : s.find? collection id = some e) :
    (e.collection = collection ∧ e.id = id) ∧ ∃ before after, s.entries = before ++ e :: after := by
  obtain ⟨hat, before, after, hentries, -⟩ := List.find?_eq_some_iff_append.mp h
  refine ⟨?_, before, after, hentries⟩
  simpa [Entry.isAt] using hat

theorem Store.find?_none {s : Store} {collection id : String}
    (h : s.find? collection id = none) :
    ∀ e ∈ s.entries, ¬ (e.collection = collection ∧ e.id = id) := by
  intro e he
  simpa [Entry.isAt] using List.find?_eq_none.mp h e he

/-- Among ids that differ, those before and after an entry are others. -/
theorem others_of_nodup {before after : List Entry} {e : Entry}
    (h : ((before ++ e :: after).map Entry.id).Nodup) :
    (∀ other ∈ before, other.id ≠ e.id) ∧ ∀ other ∈ after, other.id ≠ e.id := by
  rw [List.map_append, List.map_cons, List.nodup_append, List.nodup_cons] at h
  obtain ⟨-, ⟨hafter, -⟩, hbefore⟩ := h
  refine ⟨fun other hother => ?_, fun other hother hsame => ?_⟩
  · exact hbefore _ (List.mem_map_of_mem hother) _ List.mem_cons_self
  · exact hafter (List.mem_map.mpr ⟨other, hother, hsame⟩)

/-- The entries without the only one of an id. -/
theorem Store.filter_middle {before after : List Entry} {e : Entry}
    (hbefore : ∀ other ∈ before, other.id ≠ e.id) (hafter : ∀ other ∈ after, other.id ≠ e.id) :
    (before ++ e :: after).filter (fun other => !other.isAt e.collection e.id) =
      before ++ after := by
  have hothers : ∀ es : List Entry, (∀ other ∈ es, other.id ≠ e.id) →
      es.filter (fun other => !other.isAt e.collection e.id) = es := by
    intro es hes
    refine List.filter_eq_self.mpr fun other hother => ?_
    simp [Entry.isAt, hes other hother]
  rw [List.filter_append, List.filter_cons_of_neg (by simp [Entry.isAt]), hothers before hbefore,
    hothers after hafter]

theorem Store.update_eq (collection id : String) (changes : Fields) (s : Store) :
    update collection id changes s = match s.find? collection id with
      | none => (.ok none, s)
      | some e =>
        (.ok (some { e with fields := Table.merge e.fields (Table.remove changes "id") }.document),
          s.change collection id fun _ => Table.merge e.fields (Table.remove changes "id")) := by
  unfold update
  rw [Step.bind_run]
  dsimp only [Step.state]
  cases s.find? collection id <;> rfl

theorem Store.addToSet_eq (collection id field : String) (values : Value) (s : Store) :
    addToSet collection id field values s = match s.find? collection id with
      | none => (.ok none, s)
      | some e => match (Fields.get e.fields field).iterateGiven with
        | .error fault => (.error fault, s)
        | .ok items => match values.iterate with
          | .error fault => (.error fault, s)
          | .ok new =>
            (.ok (some
              { e with fields := Table.set e.fields field (.list (union items new)) }.document),
              s.change collection id fun _ =>
                Table.set e.fields field (.list (union items new))) := by
  unfold addToSet
  rw [Step.bind_run]
  dsimp only [Step.state]
  cases s.find? collection id with
  | none => rfl
  | some e =>
    dsimp only
    cases (Fields.get e.fields field).iterateGiven with
    | error fault => rfl
    | ok items => cases values.iterate <;> rfl

theorem Store.delete_eq (collection id : String) (s : Store) :
    delete collection id s = match s.find? collection id with
      | none => (.ok false, s)
      | some _ => (.ok true, ⟨s.entries.filter fun e => !e.isAt collection id⟩) := by
  unfold delete
  rw [Step.bind_run]
  dsimp only [Step.state]
  cases s.find? collection id <;> rfl

theorem Request.update_behaves (hs : (s.store.entries.map Entry.id).Nodup) (collection : String)
    (id changes : Value) :
    BehavesAt s log (.update collection id changes)
      ((Request.update collection id changes).run s) := by
  by_cases hchanges : ∃ fields, changes = .record fields
  · obtain ⟨fields, rfl⟩ := hchanges
    show BehavesAt s log _ ((do
      return documentAnswer (← State.onStore (Store.update collection id.display fields))) s)
    rw [Step.bind_run, State.onStore_eq, Store.update_eq]
    cases hfind : s.store.find? collection id.display with
    | none => exact ⟨log, .updatedNone (Store.find?_none hfind)⟩
    | some e =>
      obtain ⟨⟨rfl, hid⟩, before, after, hentries⟩ := Store.find?_some hfind
      obtain ⟨hbefore, hafter⟩ := others_of_nodup (hentries ▸ hs)
      have hstore : s.store = ⟨before ++ e :: after⟩ := by rw [← hentries]
      refine ⟨log, ?_⟩
      dsimp only
      rw [← hid, hstore, Store.change_middle _ hbefore hafter]
      exact .updated hentries ⟨rfl, hid⟩
  · have hother : (Request.update collection id changes).run s = (.error .missingPart, s) := by
      unfold Request.run
      cases changes <;> first | rfl | exact absurd ⟨_, rfl⟩ hchanges
    rw [hother]
    exact ⟨log, .updatedByOther fun fields hsame => hchanges ⟨fields, hsame⟩⟩

theorem Request.addToSet_behaves (hs : (s.store.entries.map Entry.id).Nodup)
    (collection : String) (id : Value) (field : String) (values : Value) :
    BehavesAt s log (.addToSet collection id field values)
      ((Request.addToSet collection id field values).run s) := by
  show BehavesAt s log _ ((do
    return documentAnswer (← State.onStore (Store.addToSet collection id.display field values))) s)
  rw [Step.bind_run, State.onStore_eq, Store.addToSet_eq]
  cases hfind : s.store.find? collection id.display with
  | none => exact ⟨log, .addedNone (Store.find?_none hfind)⟩
  | some e =>
    obtain ⟨⟨rfl, hid⟩, before, after, hentries⟩ := Store.find?_some hfind
    have hmem : e ∈ s.store.entries := by rw [hentries]; simp
    dsimp only
    cases hitems : (Fields.get e.fields field).iterateGiven with
    | error fault => exact ⟨log, .addedToOther hmem ⟨rfl, hid⟩ (by rw [hitems]; rfl)⟩
    | ok items =>
      cases hnew : values.iterate with
      | error fault => exact ⟨log, .addedToOther hmem ⟨rfl, hid⟩ (by rw [hitems, hnew]; rfl)⟩
      | ok new =>
        obtain ⟨hbefore, hafter⟩ := others_of_nodup (hentries ▸ hs)
        have hstore : s.store = ⟨before ++ e :: after⟩ := by rw [← hentries]
        refine ⟨log, ?_⟩
        dsimp only
        rw [← hid, hstore, Store.change_middle _ hbefore hafter]
        exact .added hentries ⟨rfl, hid⟩ hitems hnew

theorem Request.delete_behaves (hs : (s.store.entries.map Entry.id).Nodup) (collection : String)
    (id : Value) :
    BehavesAt s log (.delete collection id) ((Request.delete collection id).run s) := by
  show BehavesAt s log _ ((do
    return Value.bool (← State.onStore (Store.delete collection id.display))) s)
  rw [Step.bind_run, State.onStore_eq, Store.delete_eq]
  cases hfind : s.store.find? collection id.display with
  | none => exact ⟨log, .deletedNone (Store.find?_none hfind)⟩
  | some e =>
    obtain ⟨⟨rfl, hid⟩, before, after, hentries⟩ := Store.find?_some hfind
    obtain ⟨hbefore, hafter⟩ := others_of_nodup (hentries ▸ hs)
    refine ⟨log, ?_⟩
    dsimp only
    rw [← hid, hentries, Store.filter_middle hbefore hafter]
    exact .deleted hentries ⟨rfl, hid⟩

theorem Request.findById_behaves (collection : String) (id : Value) :
    BehavesAt s log (.findById collection id) ((Request.findById collection id).run s) := by
  have hrun : (Request.findById collection id).run s =
      (.ok (documentAnswer ((s.store.find? collection id.display).map Entry.document)), s) := rfl
  rw [hrun]
  cases hfind : s.store.find? collection id.display with
  | none => exact ⟨log, .foundNone (Store.find?_none hfind)⟩
  | some e =>
    obtain ⟨hat, before, after, hentries⟩ := Store.find?_some hfind
    exact ⟨log, .foundOne (l := .ofState s log) (by show e ∈ s.store.entries; rw [hentries]; simp) hat⟩

/-- A query without conditions, sort order and search answers a whole collection. -/
theorem Store.find_all (s : Store) (collection : String) :
    s.find collection {} =
      .ok ((s.entries.filter fun e => e.collection = collection).map Entry.document) := by
  have hplan : Plan.make (.null : Value) .null = .ok ⟨[], [], none⟩ := rfl
  have hselects : ∀ e : Entry, (e.collection == collection && Plan.selects ⟨[], [], none⟩ e) =
      decide (e.collection = collection) := by
    intro e
    by_cases h : e.collection = collection <;> simp [Plan.selects, h]
  unfold find
  rw [hplan]
  dsimp only [bind, Except.bind]
  unfold Plan.run Plan.selected
  rw [Plan.keepMatching_eq (by simp)]
  simp [hselects]
  rfl

theorem Request.findAll_behaves (collection : String) :
    BehavesAt s log (.find collection {}) ((Request.find collection {}).run s) := by
  have hrun : (Request.find collection {}).run s = (.ok (.list (((s.store.entries.filter
      fun e => e.collection = collection).map Entry.document).map .record)), s) := by
    show ((do return Value.list ((← State.readStore fun s => s.find collection {}).map .record)) :
      Step State Value) s = _
    exact Step.bind_of_ok (Prod.ext (Store.find_all s.store collection) rfl)
  rw [hrun, List.map_map]
  exact ⟨log, .foundAll⟩

/-- A store behaves as the list of its entries. -/
theorem Request.behaves {call : Request} (hcall : call.Basic)
    (hs : (s.store.entries.map Entry.id).Nodup) : BehavesAt s log call (call.run s) := by
  cases hcall with
  | insert collection data => exact insert_behaves collection data
  | update collection id changes => exact update_behaves hs collection id changes
  | addToSet collection id field values => exact addToSet_behaves hs collection id field values
  | delete collection id => exact delete_behaves hs collection id
  | findById collection id => exact findById_behaves collection id
  | findAll collection => exact findAll_behaves collection

end DocumentApi
