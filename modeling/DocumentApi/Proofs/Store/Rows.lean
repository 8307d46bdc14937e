import DocumentApi.Proofs.Store.Ledger
import Mathlib.Data.List.Nodup

/-!
# Entries in rows of a database

A database keeps an entry in a row under a key, and answers rows in the order of their keys. A new
row gets a key above those of all rows that there are, so the key of a row that was deleted may be
given again; how rows lie in the database is left open.

* `Engine.run`: the calls of a store on rows.
* `Engine.follows`: rows answer each call as the list of entries in the order of their keys does.
* `trace_behaves`: from an empty store, a store of documents and rows of any database give the same
  answers to any calls, and behave as a list of entries.
-/

namespace DocumentApi

/-- A row: its key and the entry in it. -/
structure Row where
  key : Nat
  entry : Entry

/-- How a database gives keys to new rows and lays its rows out. -/
structure Engine where
  nextKey : List Row → Nat
  above : ∀ rows, ∀ row ∈ rows, row.key < nextKey rows
  layout : List Row → List Row
  perm : ∀ rows, (layout rows).Perm rows

/-- The rows of a store, with its source of ids. -/
structure Database where
  rows : List Row
  ids : IdSource

namespace Engine

/-- The row of an id in a collection. -/
def select (rows : List Row) (collection : String) (id : Value) : Option Row :=
  rows.find? fun row => row.entry.isAt collection id.display

/-- The rows with new fields in the row of a key. -/
def write (rows : List Row) (key : Nat) (fields : Fields) : List Row :=
  rows.map fun row => if row.key = key then { row with entry.fields := fields } else row

/-- A step on the row of an id in a collection, or an answer when there is none. -/
def onRow (collection : String) (id : Value) (absent : Value) (f : Row → Step Database Value) :
    Step Database Value := do
  match select (← Step.state).rows collection id with
  | none => return absent
  | some row => f row

variable (db : Engine)

/-- Writes new fields into a row and answers its document. -/
def save (row : Row) (fields : Fields) : Step Database Value := do
  Step.modify fun b => { b with rows := db.layout (write b.rows row.key fields) }
  return .record { row.entry with fields }.document

/-- Adds a row for a document; an id that is used is refused. -/
def insert (collection : String) (fields : Fields) : Step Database Value := do
  let id ← Step.zoom Database.ids (fun ids b => { b with ids }) (idFor fields)
  let rows := (← Step.state).rows
  if rows.any fun row => row.entry.id == id then Step.fail .idTaken
  else
    let row : Row := ⟨db.nextKey rows, ⟨collection, id, Table.remove fields "id"⟩⟩
    Step.modify fun b => { b with rows := db.layout (row :: rows) }
    return .record row.entry.document

/-- Drops a row. -/
def drop (row : Row) : Step Database Value := do
  Step.modify fun b => { b with
    rows := db.layout (b.rows.filter fun other => other.key != row.key) }
  return .bool true

/-- The documents of a collection, in the order of the keys. -/
def documents (collection : String) : Step Database Value := do
  let rows := (← Step.state).rows.mergeSort fun a b => a.key ≤ b.key
  return .list ((rows.filter fun row => row.entry.collection = collection).map
    fun row => .record row.entry.document)

/-- The calls of a store, on rows. -/
def run : Request → Step Database Value
  | .insert collection data => do db.insert collection (← Step.ofExcept data.toFields)
  | .update collection id changes => match changes with
    | .record changes => onRow collection id .null fun row =>
      db.save row (Table.merge row.entry.fields (Table.remove changes "id"))
    | _ => Step.fail .missingPart
  | .addToSet collection id field values => onRow collection id .null fun row => do
    let items ← Step.ofExcept (Fields.get row.entry.fields field).iterateGiven
    let new ← Step.ofExcept values.iterate
    db.save row (Table.set row.entry.fields field (.list (Store.union items new)))
  | .delete collection id => onRow collection id (.bool false) db.drop
  | .findById collection id => onRow collection id .null fun row =>
    return .record row.entry.document
  | .find collection _ => documents collection
  | _ => Step.fail .notSupported

end Engine

/-- The rows, by their keys, hold the entries of a ledger in order. -/
def Database.Holds (b : Database) (l : Ledger) : Prop :=
  b.ids = l.ids ∧ ∃ ordered : List Row, ordered.Perm b.rows ∧
    ordered.Pairwise (fun a b => a.key < b.key) ∧ ordered.map Row.entry = l.entries

/-! ## Rows in the order of their keys -/

section Ordered

variable {ordered before after rows : List Row} {row : Row}

/-- Keys of other rows are other keys. -/
theorem keys_ne (h : (before ++ row :: after).Pairwise fun a b => a.key < b.key) :
    (∀ other ∈ before, other.key ≠ row.key) ∧ ∀ other ∈ after, other.key ≠ row.key := by
  rw [List.pairwise_append, List.pairwise_cons] at h
  obtain ⟨-, ⟨hafter, -⟩, hbefore⟩ := h
  refine ⟨fun other hother => ?_, fun other hother => ?_⟩
  · have := hbefore other hother row List.mem_cons_self
    omega
  · have := hafter other hother
    omega

theorem write_middle (h : (before ++ row :: after).Pairwise fun a b => a.key < b.key)
    (fields : Fields) : Engine.write (before ++ row :: after) row.key fields =
      before ++ { row with entry.fields := fields } :: after := by
  have hothers : ∀ rows : List Row, (∀ other ∈ rows, other.key ≠ row.key) →
      Engine.write rows row.key fields = rows := by
    intro rows hrows
    refine (List.map_congr_left fun other hother => ?_).trans (List.map_id rows)
    rw [if_neg (hrows other hother)]
    rfl
  obtain ⟨hbefore, hafter⟩ := keys_ne h
  unfold Engine.write at hothers ⊢
  rw [List.map_append, List.map_cons, if_pos rfl, hothers before hbefore, hothers after hafter]

theorem filter_key_middle (h : (before ++ row :: after).Pairwise fun a b => a.key < b.key) :
    (before ++ row :: after).filter (fun other => other.key != row.key) = before ++ after := by
  obtain ⟨hbefore, hafter⟩ := keys_ne h
  rw [List.filter_append, List.filter_cons_of_neg (by simp), List.filter_eq_self.mpr,
    List.filter_eq_self.mpr]
  · exact fun other hother => bne_iff_ne.mpr (hafter other hother)
  · exact fun other hother => bne_iff_ne.mpr (hbefore other hother)

/-- Rows are answered in the order of their keys. -/
theorem mergeSort_eq (hperm : ordered.Perm rows)
    (h : ordered.Pairwise fun a b => a.key < b.key) :
    rows.mergeSort (fun a b => a.key ≤ b.key) = ordered := by
  have hsorted : (rows.mergeSort fun a b => a.key ≤ b.key).Pairwise fun a b => a.key ≤ b.key := by
    have := @List.pairwise_mergeSort Row (fun a b => a.key ≤ b.key)
      (fun a b c => by simp; omega) (fun a b => by simp; omega) rows
    simpa using this
  have hsame : (rows.mergeSort fun a b => a.key ≤ b.key).Perm ordered :=
    (List.mergeSort_perm rows _).trans hperm.symm
  have hkeys : (ordered.map Row.key).Nodup :=
    List.pairwise_map.mpr (h.imp fun hlt => Nat.ne_of_lt hlt)
  refine List.Perm.eq_of_pairwise (fun a b ha hb hab hba => ?_) hsorted
    (h.imp fun hlt => Nat.le_of_lt hlt) hsame
  exact List.inj_on_of_nodup_map hkeys (hsame.mem_iff.mp ha) hb (Nat.le_antisymm hab hba)

end Ordered

namespace Database.Holds

variable {b : Database} {l : Ledger} {collection : String} {id : Value}

theorem mem_iff (hb : b.Holds l) {e : Entry} : e ∈ l.entries ↔ ∃ row ∈ b.rows, row.entry = e := by
  obtain ⟨-, ordered, hperm, -, hentries⟩ := hb
  rw [← hentries, List.mem_map]
  exact ⟨fun ⟨row, hrow, he⟩ => ⟨row, hperm.mem_iff.mp hrow, he⟩,
    fun ⟨row, hrow, he⟩ => ⟨row, hperm.mem_iff.mpr hrow, he⟩⟩

theorem select_none (hb : b.Holds l) (hnone : ∀ e ∈ l.entries, ¬ e.Is collection id) :
    Engine.select b.rows collection id = none := by
  refine List.find?_eq_none.mpr fun row hrow => ?_
  have := hnone row.entry (hb.mem_iff.mpr ⟨row, hrow, rfl⟩)
  simpa [Entry.isAt, Entry.Is] using this

/-- The row of an entry stands among the others as the entry does, and is selected by its id. -/
theorem select_some {before after : List Entry} {e : Entry} (hb : b.Holds l) (hl : l.Sound)
    (hentries : l.entries = before ++ e :: after) (he : e.Is collection id) :
    ∃ (rowsBefore : List Row) (row : Row) (rowsAfter : List Row),
      (rowsBefore ++ row :: rowsAfter).Perm b.rows ∧
      (rowsBefore ++ row :: rowsAfter).Pairwise (fun a b => a.key < b.key) ∧
      rowsBefore.map Row.entry = before ∧ row.entry = e ∧ rowsAfter.map Row.entry = after ∧
      Engine.select b.rows collection id = some row := by
  obtain ⟨-, ordered, hperm, hkeys, hordered⟩ := hb
  rw [hentries] at hordered
  obtain ⟨rowsBefore, rest, rfl, rfl, hrest⟩ := List.map_eq_append_iff.mp hordered
  obtain ⟨row, rowsAfter, rfl, rfl, rfl⟩ := List.map_eq_cons_iff.mp hrest
  refine ⟨rowsBefore, row, rowsAfter, hperm, hkeys, rfl, rfl, rfl, ?_⟩
  have hrow : row ∈ b.rows := hperm.mem_iff.mp (by simp)
  cases hselect : Engine.select b.rows collection id with
  | none =>
    have := List.find?_eq_none.mp hselect row hrow
    exact absurd (by simpa [Entry.isAt, Entry.Is] using he) this
  | some other =>
    have hother : other.entry.id = row.entry.id := by
      have hat := List.find?_some hselect
      simp only [Entry.isAt, Bool.and_eq_true, beq_iff_eq] at hat
      rw [hat.2, he.2]
    have hids : ((rowsBefore ++ row :: rowsAfter).map fun row => row.entry.id).Nodup := by
      have := hl.ids
      rwa [hentries, ← List.map_cons (f := Row.entry), ← List.map_append, List.map_map] at this
    rw [List.inj_on_of_nodup_map hids (hperm.mem_iff.mpr (List.mem_of_find?_eq_some hselect))
      (by simp) hother]

end Database.Holds

namespace Engine

variable {l l' : Ledger} {b : Database} {call : Request} {answer : Except Error Value}

/-- Rows with new fields in one of them hold the entries with new fields in one of them. -/
theorem write_holds (db : Engine) {ids : IdSource} {rows rowsBefore rowsAfter : List Row} {row : Row}
    {inserted : List (String × String)} (hperm : (rowsBefore ++ row :: rowsAfter).Perm rows)
    (hkeys : (rowsBefore ++ row :: rowsAfter).Pairwise fun a b => a.key < b.key) (fields : Fields) :
    Database.Holds ⟨db.layout (write rows row.key fields), ids⟩
      ⟨rowsBefore.map Row.entry ++ { row.entry with fields } :: rowsAfter.map Row.entry, ids,
        inserted⟩ := by
  refine ⟨rfl, rowsBefore ++ { row with entry.fields := fields } :: rowsAfter, ?_, ?_, ?_⟩
  · rw [← write_middle hkeys]
    exact (hperm.map _).trans (db.perm _).symm
  · simpa [List.pairwise_append] using hkeys
  · simp

theorem insert_eq (db : Engine) {collection id : String} {fields : Fields} {ids : IdSource}
    (hid : idFor fields b.ids = (.ok id, ids)) :
    db.insert collection fields b =
      if b.rows.any fun row => row.entry.id == id then (.error .idTaken, { b with ids })
      else (.ok (.record (Entry.mk collection id (Table.remove fields "id")).document),
        ⟨db.layout (⟨db.nextKey b.rows, ⟨collection, id, Table.remove fields "id"⟩⟩ :: b.rows),
          ids⟩) := by
  have hzoom : Step.zoom Database.ids (fun ids b => { b with ids }) (idFor fields) b =
      (.ok id, { b with ids }) := by
    unfold Step.zoom
    rw [hid]
  refine (Step.bind_of_ok hzoom).trans ?_
  refine (Step.bind_of_ok (t := { b with ids }) rfl).trans ?_
  dsimp only
  split <;> rfl

theorem onRow_none {collection : String} {id absent : Value} {f : Row → Step Database Value}
    (h : select b.rows collection id = none) : onRow collection id absent f b = (.ok absent, b) := by
  unfold onRow
  refine (Step.bind_of_ok (t := b) rfl).trans ?_
  rw [h]
  rfl

theorem onRow_some {collection : String} {id absent : Value} {f : Row → Step Database Value}
    {row : Row} (h : select b.rows collection id = some row) :
    onRow collection id absent f b = f row b := by
  unfold onRow
  refine (Step.bind_of_ok (t := b) rfl).trans ?_
  rw [h]

/-- Rows answer a call as the list of their entries does. -/
theorem follows (db : Engine) (h : Behaves l call answer l') (hl : l.Sound) (hb : b.Holds l) :
    (db.run call b).1 = answer ∧ (db.run call b).2.Holds l' := by
  have hids := hb.1
  have hof : ∀ {call : Request} {answer : Except Error Value} {l' : Ledger}
      {result : Except Error Value × Database}, db.run call b = result →
      result.1 = answer ∧ result.2.Holds l' →
        (db.run call b).1 = answer ∧ (db.run call b).2.Holds l' := by
    rintro call answer l' result rfl h
    exact h
  have hkept : ∀ ids, Database.Holds { b with ids } { l with ids } := fun _ => ⟨rfl, hb.2⟩
  have hinsert : ∀ {collection : String} {data : Value} {fields : Fields},
      data.toFields = .ok fields → db.run (.insert collection data) b = db.insert collection fields b :=
    fun hdata => (Step.bind_of_ok (t := b) (by rw [hdata]; rfl))
  cases h with
  | @inserted collection id data fields ids hdata hid hnew =>
    have hfree : (b.rows.any fun row => row.entry.id == id) = false := by
      refine List.any_eq_false.mpr fun row hrow => ?_
      simpa using hnew row.entry (hb.mem_iff.mpr ⟨row, hrow, rfl⟩)
    rw [hinsert hdata, db.insert_eq (hids ▸ hid), hfree]
    obtain ⟨-, ordered, hperm, hkeys, hentries⟩ := hb
    refine ⟨rfl, rfl, ordered ++ [⟨db.nextKey b.rows, ⟨collection, id, Table.remove fields "id"⟩⟩],
      ?_, ?_, ?_⟩
    · refine (List.perm_append_singleton _ _).trans ?_
      exact (hperm.cons _).trans (db.perm _).symm
    · rw [List.pairwise_append]
      refine ⟨hkeys, List.pairwise_singleton _ _, fun row hrow added hadded => ?_⟩
      rw [List.mem_singleton.mp hadded]
      exact db.above b.rows row (hperm.mem_iff.mp hrow)
    · rw [List.map_append, hentries]
      rfl
  | @taken collection id data fields ids e hdata hid he hused =>
    obtain ⟨row, hrow, rfl⟩ := hb.mem_iff.mp he
    have hany : (b.rows.any fun row => row.entry.id == id) = true :=
      List.any_eq_true.mpr ⟨row, hrow, beq_iff_eq.mpr hused⟩
    rw [hinsert hdata, db.insert_eq (hids ▸ hid), hany]
    exact ⟨rfl, hkept ids⟩
  | @noId collection data fields ids fault hdata hid =>
    have hrun : db.insert collection fields b = (.error fault, { b with ids }) := by
      unfold insert
      rw [Step.bind_run]
      unfold Step.zoom
      rw [hids, hid]
    rw [hinsert hdata, hrun]
    exact ⟨rfl, hkept ids⟩
  | @noFields collection data fault hdata =>
    have hrun : db.run (.insert collection data) b = (.error fault, b) := by
      show (Step.ofExcept data.toFields >>= db.insert collection) b = _
      rw [hdata]
      rfl
    rw [hrun]
    exact ⟨rfl, hb⟩
  | updated hentries he =>
    obtain ⟨rowsBefore, row, rowsAfter, hperm, hkeys, rfl, rfl, rfl, hselect⟩ :=
      hb.select_some hl hentries he
    exact hof (onRow_some hselect) ⟨rfl, hids ▸ db.write_holds hperm hkeys _⟩
  | updatedNone hnone =>
    exact hof (onRow_none (hb.select_none hnone)) ⟨rfl, hb⟩
  | @updatedByOther collection id changes hchanges =>
    have hrun : db.run (.update collection id changes) b = (.error .missingPart, b) := by
      unfold run
      cases changes <;> first | rfl | exact absurd rfl (hchanges _)
    rw [hrun]
    exact ⟨rfl, hb⟩
  | added hentries he hitems hnew =>
    obtain ⟨rowsBefore, row, rowsAfter, hperm, hkeys, rfl, rfl, rfl, hselect⟩ :=
      hb.select_some hl hentries he
    refine hof (onRow_some hselect) ?_
    rw [hitems, hnew]
    exact ⟨rfl, hids ▸ db.write_holds hperm hkeys _⟩
  | @addedToOther e collection field id values fault hmem he hfault =>
    obtain ⟨before, after, hentries⟩ := List.append_of_mem hmem
    obtain ⟨rowsBefore, row, rowsAfter, hperm, hkeys, rfl, rfl, rfl, hselect⟩ :=
      hb.select_some hl hentries he
    refine hof (onRow_some hselect) ?_
    cases hitems : (Fields.get row.entry.fields field).iterateGiven with
    | error e =>
      rw [hitems] at hfault
      cases hfault
      exact ⟨rfl, hb⟩
    | ok items =>
      rw [hitems] at hfault
      have hnew : values.iterate = .error fault := hfault
      rw [hnew]
      exact ⟨rfl, hb⟩
  | addedNone hnone =>
    exact hof (onRow_none (hb.select_none hnone)) ⟨rfl, hb⟩
  | @deleted _ _ _ collection id hentries he =>
    obtain ⟨rowsBefore, row, rowsAfter, hperm, hkeys, rfl, rfl, rfl, hselect⟩ :=
      hb.select_some hl hentries he
    refine hof (onRow_some hselect) ⟨rfl, hids, rowsBefore ++ rowsAfter, ?_, ?_, List.map_append⟩
    · rw [← filter_key_middle hkeys]
      exact (hperm.filter _).trans (db.perm _).symm
    · exact hkeys.sublist ((List.Sublist.refl _).append (List.sublist_cons_self _ _))
  | deletedNone hnone =>
    exact hof (onRow_none (hb.select_none hnone)) ⟨rfl, hb⟩
  | foundOne hmem he =>
    obtain ⟨before, after, hentries⟩ := List.append_of_mem hmem
    obtain ⟨-, row, -, -, -, -, rfl, -, hselect⟩ := hb.select_some hl hentries he
    exact hof (onRow_some hselect) ⟨rfl, hb⟩
  | foundNone hnone =>
    exact hof (onRow_none (hb.select_none hnone)) ⟨rfl, hb⟩
  | @foundAll collection =>
    refine ⟨?_, hb⟩
    obtain ⟨-, ordered, hperm, hkeys, hentries⟩ := hb
    show Except.ok (Value.list (((b.rows.mergeSort fun a b => a.key ≤ b.key).filter
      fun row => row.entry.collection = collection).map fun row => .record row.entry.document)) = _
    rw [mergeSort_eq hperm hkeys, ← hentries, List.filter_map, List.map_map]
    rfl

end Engine

/-! ## Runs of calls -/

/-- What steps answer one after another, whatever each of them answers, and the state after them. -/
def Step.trace {σ ι α : Type} (f : ι → Step σ α) : List ι → σ → List (Except Error α) × σ
  | [], s => ([], s)
  | i :: rest, s => ((f i s).1 :: (trace f rest (f i s).2).1, (trace f rest (f i s).2).2)

/-- What calls answer one after another on a ledger, and the ledger after them. -/
inductive Behaves.Run : Ledger → List Request → List (Except Error Value) → Ledger → Prop
  | nil (l : Ledger) : Run l [] [] l
  | cons {l l' l'' : Ledger} {call : Request} {calls : List Request} {answer : Except Error Value}
      {answers : List (Except Error Value)} (h : Behaves l call answer l')
      (hrun : Run l' calls answers l'') : Run l (call :: calls) (answer :: answers) l''

theorem Behaves.Run.sound {l l' : Ledger} {calls : List Request}
    {answers : List (Except Error Value)} (h : Run l calls answers l') (hl : l.Sound) :
    l'.Sound := by
  induction h with
  | nil => exact hl
  | cons h _ ih => exact ih (h.sound hl)

/-- Rows follow the list of their entries through any calls. -/
theorem Engine.follows_run (db : Engine) {l l' : Ledger} {calls : List Request}
    {answers : List (Except Error Value)} {b : Database} (h : Behaves.Run l calls answers l')
    (hl : l.Sound) (hb : b.Holds l) :
    (Step.trace db.run calls b).1 = answers ∧ (Step.trace db.run calls b).2.Holds l' := by
  induction h generalizing b with
  | nil => exact ⟨rfl, hb⟩
  | cons h _ ih =>
    obtain ⟨hanswer, hb'⟩ := db.follows h hl hb
    obtain ⟨hanswers, hlast⟩ := ih (h.sound hl) hb'
    exact ⟨by rw [Step.trace, hanswer, hanswers], hlast⟩

/-- A store follows the list of its entries through any calls. -/
theorem Request.behaves_run {calls : List Request} (hcalls : ∀ call ∈ calls, call.Basic) {s : State}
    {log : List (String × String)} (hs : (Ledger.ofState s log).Sound) :
    ∃ log', Behaves.Run (.ofState s log) calls (Step.trace Request.run calls s).1
      (.ofState (Step.trace Request.run calls s).2 log') := by
  induction calls generalizing s log with
  | nil => exact ⟨log, .nil _⟩
  | cons call calls ih =>
    obtain ⟨log', h⟩ := Request.behaves (hcalls call List.mem_cons_self) hs.ids
    obtain ⟨last, hrun⟩ := ih (fun call hcall => hcalls call (List.mem_cons_of_mem _ hcall))
      (h.sound hs)
    exact ⟨last, .cons h hrun⟩

/-- From an empty store, calls behave as on a list of entries, whose ids differ and which stand in
the order of their inserts; and rows of any database give the same answers. -/
theorem trace_behaves (db : Engine) (s : State) {calls : List Request}
    (hcalls : ∀ call ∈ calls, call.Basic) :
    ∃ l : Ledger, Behaves.Run ⟨[], s.ids, []⟩ calls
        (Step.trace Request.run calls { s with store := {} }).1 l ∧
      l.Sound ∧ l.entries = (Step.trace Request.run calls { s with store := {} }).2.store.entries ∧
      (Step.trace db.run calls ⟨[], s.ids⟩).1 =
        (Step.trace Request.run calls { s with store := {} }).1 ∧
      (Step.trace db.run calls ⟨[], s.ids⟩).2.Holds l := by
  have hempty : Ledger.Sound (.ofState { s with store := {} } []) :=
    ⟨List.nodup_nil, List.Sublist.refl []⟩
  have hrows : Database.Holds ⟨[], s.ids⟩ (.ofState { s with store := {} } []) :=
    ⟨rfl, [], .refl _, List.Pairwise.nil, rfl⟩
  obtain ⟨log, hrun⟩ := Request.behaves_run hcalls hempty
  obtain ⟨hanswers, hholds⟩ := db.follows_run hrun hempty hrows
  exact ⟨_, hrun, hrun.sound hempty, rfl, hanswers, hholds⟩

/-! ## A key that is given again -/

/-- The highest key of rows. -/
def highestKey (rows : List Row) : Nat :=
  rows.foldr (fun row key => max row.key key) 0

theorem le_highestKey (rows : List Row) : ∀ row ∈ rows, row.key ≤ highestKey rows := by
  induction rows with
  | nil => simp
  | cons first rest ih =>
    intro row hrow
    show row.key ≤ max first.key (highestKey rest)
    rcases List.mem_cons.mp hrow with rfl | hrow
    · exact le_max_left _ _
    · exact (ih row hrow).trans (le_max_right _ _)

/-- A database that gives the key after the highest one, and lays rows out from the newest on. -/
def highestKeyEngine : Engine where
  nextKey rows := highestKey rows + 1
  above rows row hrow := Nat.lt_succ_of_le (le_highestKey rows row hrow)
  layout rows := rows.reverse
  perm rows := rows.reverse_perm

/-- The task of the highest key is dropped before a note is added; the id of a note is used again for
a task, and changed. -/
def noteCalls : List Request := [
  .insert "Note" (.record [("id", .text "a"), ("text", .text "Milk")]),
  .insert "Task" (.record [("id", .text "b")]),
  .delete "Task" (.text "b"),
  .insert "Note" (.record [("id", .int 7)]),
  .insert "Task" (.record [("id", .text "a")]),
  .update "Note" (.text "a") (.record [("id", .text "z"), ("text", .text "Bread")]),
  .addToSet "Note" (.int 7) "tags" (.list [.text "new", .text "new"]),
  .find "Note" {}]

/-- The calls behave as on a list of entries. -/
theorem trace_noteCalls : (∀ call ∈ noteCalls, call.Basic) ∧
    ∃ l : Ledger, Behaves.Run ⟨[], ⟨0, 0, 0⟩, []⟩ noteCalls
        (Step.trace Request.run noteCalls {}).1 l ∧
      l.Sound ∧ l.entries = (Step.trace Request.run noteCalls {}).2.store.entries ∧
      (Step.trace highestKeyEngine.run noteCalls ⟨[], ⟨0, 0, 0⟩⟩).1 =
        (Step.trace Request.run noteCalls {}).1 ∧
      (Step.trace highestKeyEngine.run noteCalls ⟨[], ⟨0, 0, 0⟩⟩).2.Holds l := by
  have hbasic : ∀ call ∈ noteCalls, call.Basic := by
    simp only [noteCalls, List.forall_mem_cons, List.not_mem_nil, IsEmpty.forall_iff, implies_true,
      and_true]
    exact ⟨.insert _ _, .insert _ _, .delete _ _, .insert _ _, .insert _ _, .update _ _ _,
      .addToSet _ _ _ _, .findAll _⟩
  exact ⟨hbasic, trace_behaves highestKeyEngine {} hbasic⟩

/-- The note of the id 7 has the key of the task that was dropped, and comes after the other one. -/
example : (Step.trace highestKeyEngine.run noteCalls ⟨[], ⟨0, 0, 0⟩⟩).2.rows.map
    (fun row => (row.key, row.entry.id)) = [(1, "a"), (2, "7")] := by decide +kernel

end DocumentApi
