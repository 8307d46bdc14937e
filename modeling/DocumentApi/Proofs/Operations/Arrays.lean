import DocumentApi.Proofs.Operations.Closure
import DocumentApi.Proofs.Operations.NestedIds
import DocumentApi.Proofs.Operations.Returning
import DocumentApi.Proofs.Store.Ledger

/-!
# Embedded arrays in a store

An array is a field of its parent document.

* `Gains`: an element with ids for what it embeds.
* `Holds`, `Rewritten`: the array of a parent document, and a store in which it is another one.
* `save_ok`: an array is stored over the one that is there, and read back as it was stored.
-/

namespace DocumentApi

/-- The id of an element as a text. -/
def idOf (item : Fields) : String := (Fields.get item "id").display

theorem hasId_iff {id : String} {item : Fields} : hasId id item = true ↔ idOf item = id := by
  unfold hasId idOf
  exact beq_iff_eq

namespace EmbeddedOperations

theorem find?_keepOwn (old item merged : Fields) (key : String) :
    Table.find? (keepOwn old item merged) key = (Table.find? old key).map fun v =>
      if Table.has item key then v else Fields.get merged key := by
  induction old with
  | nil => rfl
  | cons entry old ih =>
    unfold keepOwn at ih ⊢
    rw [List.map_cons, Table.find?_cons, Table.find?_cons, ih]
    by_cases hname : entry.1 = key
    · subst hname
      by_cases hitem : Table.has item entry.1 <;> simp [hitem]
    · by_cases hitem : Table.has item entry.1 <;> simp [hitem, hname]

theorem names_keepOwn (old item merged : Fields) :
    Table.names (keepOwn old item merged) = Table.names old := by
  unfold keepOwn Table.names
  rw [List.map_map]
  refine List.map_congr_left fun entry _ => ?_
  dsimp only [Function.comp]
  split <;> rfl

/-- What is left of an element has gained the ids that it was given when an item was merged over
it. -/
theorem keepOwn_gains {r : Registry} {declared : List Field} {old item merged : Fields} {v : Value}
    (hid : Table.has item "id")
    (h : DocumentGains r declared (Table.set (Table.merge old item) "id" v) merged) :
    DocumentGains r declared old (keepOwn old item merged) := by
  have hstart : ∀ key, Table.has item key = false →
      Table.find? (Table.set (Table.merge old item) "id" v) key = Table.find? old key := by
    intro key hkey
    have hne : "id" ≠ key := by
      rintro rfl
      rw [hid] at hkey
      cases hkey
    have hnone : Table.find? item.reverse key = none := by
      rw [Table.find?_eq_none_iff]
      have : Table.find? item key = none := by simpa [Table.has] using hkey
      rw [Table.find?_eq_none_iff] at this
      simpa [Table.names] using this
    rw [Table.find?_set_ne hne, Table.find?_merge, hnone]
    rfl
  refine ⟨names_keepOwn old item merged, fun key hkey => ?_, ?_⟩
  · rw [find?_keepOwn]
    cases hv : Table.find? old key with
    | none => rfl
    | some u =>
      by_cases hitem : Table.has item key
      · simp [hitem]
      · have hsame := (h.others key hkey).trans (hstart key (Bool.eq_false_iff.mpr hitem))
        rw [hv] at hsame
        simp [hitem, Fields.get_of_find? hsame]
  · intro f hf hembeds u w hu hw
    rw [find?_keepOwn, hu, Option.map_some, Option.some.injEq] at hw
    by_cases hitem : Table.has item f.name
    · rw [if_pos hitem] at hw
      exact hw ▸ .same u
    · have hown := (hstart f.name (Bool.eq_false_iff.mpr hitem)).trans hu
      have hsome := Table.find?_isSome_congr h.names f.name
      rw [hown] at hsome
      obtain ⟨w', hw'⟩ := Option.isSome_iff_exists.mp hsome
      rw [if_neg hitem, Fields.get_of_find? hw'] at hw
      exact hw ▸ h.embedded f hf hembeds u w' hown hw'

variable (m : EmbeddedOperations)

/-- A document has gained ids in the fields of the embedded model. -/
def Gains (doc out : Fields) : Prop :=
  ∃ declared, m.registry.fieldsOfEmbedded m.field.embeddedName = .ok declared ∧
    DocumentGains m.registry declared doc out

/-- The id of the embedded model is no embedded document itself. -/
def PlainId : Prop :=
  ∀ declared, m.registry.fieldsOfEmbedded m.field.embeddedName = .ok declared →
    ∀ f ∈ declared, f.name = "id" → f.embedding = none

variable {m} {doc out : Fields} {s t : State}

theorem Gains.id_eq (h : m.Gains doc out) (hplain : m.PlainId) :
    Table.find? out "id" = Table.find? doc "id" := by
  obtain ⟨declared, hdeclared, h⟩ := h
  exact h.others "id" (hplain declared hdeclared)

theorem Gains.text_id {id : String} (h : m.Gains doc out) (hid : Fields.get doc "id" = .text id) :
    Fields.get out "id" = .text id := by
  obtain ⟨declared, hdeclared, h⟩ := h
  have hfound : Table.find? doc "id" = some (.text id) := by
    unfold Fields.get at hid
    cases hfound : Table.find? doc "id" with
    | none => rw [hfound] at hid; cases hid
    | some v => rw [hfound] at hid; exact congrArg some hid
  by_cases hplain : ∀ f ∈ declared, f.name = "id" → f.embedding = none
  · exact Fields.get_of_find? ((h.others "id" hplain).trans hfound)
  · push Not at hplain
    obtain ⟨f, hf, hname, hembeds⟩ := hplain
    have hsome := Table.find?_isSome_congr h.names "id"
    rw [hfound] at hsome
    obtain ⟨w, hw⟩ := Option.isSome_iff_exists.mp hsome
    have hgains := h.embedded f hf (Option.isSome_iff_ne_none.mpr hembeds) (.text id) w
      (by rw [hname, hfound]) (by rw [hname, hw])
    rw [Fields.get_of_find? hw, hgains.text_eq]

/-- An id that is no embedded document stays when other fields are merged over an element. -/
theorem Gains.idOf_eq {item given changed : Fields}
    (h : m.Gains (Table.merge item (Table.remove given "id")) changed) (hplain : m.PlainId) :
    idOf changed = idOf item := by
  have hnone : Table.find? (Table.remove given "id").reverse "id" = none := by
    rw [Table.find?_eq_none_iff]
    simp [Table.names, Table.remove]
  unfold idOf Fields.get
  rw [h.id_eq hplain, Table.find?_merge, hnone]
  rfl

theorem gains_of_assignIds {ids ids' : IdSource} (hr : m.registry.Distinct)
    (h : assignIds m.registry m.field.embeddedName doc ids = (.ok out, ids')) : m.Gains doc out := by
  have hassign := h
  unfold assignIds at hassign
  obtain ⟨declared, ids₁, hlisted, -⟩ := Step.bind_ok hassign
  obtain ⟨hdeclared, rfl⟩ := Step.ofExcept_ok hlisted
  exact ⟨declared, hdeclared, assignIds_gains hr hdeclared h⟩

/-- Ids are given to what an element embeds, and nothing is stored. -/
theorem withIds_ok (hr : m.registry.Distinct) (h : m.withIds doc s = (.ok out, t)) :
    m.Gains doc out ∧ ∃ ids, assignIds m.registry m.field.embeddedName doc s.ids = (.ok out, ids) ∧
      t = { s with ids } := by
  unfold withIds State.onIds at h
  obtain ⟨ids, hassign, rfl⟩ := Step.zoom_eq h
  exact ⟨gains_of_assignIds hr hassign, ids, hassign, rfl⟩

/-! ## The array of a parent document -/

section Saving

variable (m)

/-- The parent document of an id has an array. -/
def Holds (parentId : Value) (s : Store) (items : List Fields) : Prop :=
  ∃ e, s.find? m.parent.storedIn parentId.display = some e ∧ m.items e.document = .ok items

/-- The array of one parent document is another one. Its other fields are as they were, and so are
all other documents. -/
def Rewritten (parentId : Value) (new : List Fields) (s t : Store) : Prop :=
  ∃ before e after fields, s.entries = before ++ e :: after ∧ e.Is m.parent.storedIn parentId ∧
    t.entries = before ++ { e with fields } :: after ∧
    (∀ key, key ≠ m.field.name → Table.find? fields key = Table.find? e.fields key) ∧
    m.items (Entry.document { e with fields }) = .ok new

/-- An entry with another array. -/
def stored (e : Entry) (items : List Fields) : Entry :=
  { e with fields :=
      Table.merge e.fields (Table.remove [(m.field.name, .list (items.map .record))] "id") }

variable {m} {parentId : Value} {e : Entry} {old new items : List Fields}

theorem items_list (hfield : Fields.get doc m.field.name = .list (new.map .record)) :
    m.items doc = .ok new := by
  unfold items
  rw [hfield]
  have hgiven : (Value.list (new.map .record)).iterateGiven = .ok (new.map .record) := by
    cases new <;> rfl
  rw [hgiven]
  refine mapM_ok_iff.mpr ?_
  rw [List.forall₂_map_left_iff]
  exact List.forall₂_same.mpr fun item _ => rfl

theorem items_stored (hname : m.field.name ≠ "id") (e : Entry) (new : List Fields) :
    m.items (m.stored e new).document = .ok new := by
  refine items_list ?_
  rw [Entry.get_document_of_ne _ hname]
  unfold stored
  have hkept : Table.remove [(m.field.name, Value.list (new.map .record))] "id" =
      [(m.field.name, .list (new.map .record))] := by simp [Table.remove, hname]
  rw [hkept, ← Table.set_eq_merge, Fields.get_set_self]

theorem stored_of_id (hname : m.field.name = "id") (e : Entry) (new : List Fields) :
    m.stored e new = e := by
  unfold stored
  rw [hname]
  rfl

/-- The id of a document holds no elements. -/
theorem items_of_id (hname : m.field.name = "id") (h : m.items e.document = .ok items) :
    items = [] := by
  unfold EmbeddedOperations.items at h
  rw [hname, Entry.get_document_id] at h
  obtain ⟨values, hvalues, hitems⟩ := exceptBind_ok h
  by_cases hempty : e.id = ""
  · rw [hempty] at hvalues
    cases hvalues
    cases hitems
    rfl
  · -- the characters of a text are no elements
    have hgiven : (Value.text e.id).truthy := by simpa [Value.truthy] using hempty
    unfold Value.iterateGiven Value.iterate at hvalues
    rw [if_pos hgiven, Value.elements_text] at hvalues
    cases hchars : e.id.toList with
    | nil => exact absurd (String.toList_eq_nil_iff.mp hchars) hempty
    | cons c rest =>
      rw [hchars] at hvalues
      cases hvalues
      obtain ⟨item, -, hitem, -⟩ := List.forall₂_cons_left_iff.mp (mapM_ok_iff.mp hitems)
      rw [Value.toFields_text (by simp)] at hitem
      cases hitem

theorem rewritten_change {s : Store} (hids : (s.entries.map Entry.id).Nodup)
    (hfound : s.find? m.parent.storedIn parentId.display = some e)
    (hitems : m.items (m.stored e new).document = .ok items) :
    m.Rewritten parentId items s
      (s.change m.parent.storedIn parentId.display fun _ => (m.stored e new).fields) := by
  obtain ⟨⟨hcollection, hid⟩, before, after, hentries⟩ := Store.find?_some hfound
  rw [hentries] at hids
  obtain ⟨hbefore, hafter⟩ := others_of_nodup hids
  refine ⟨before, e, after, (m.stored e new).fields, hentries, ⟨hcollection, hid⟩, ?_, ?_, hitems⟩
  · have hstore : s = ⟨before ++ e :: after⟩ := by rw [← hentries]
    rw [hstore, ← hcollection, ← hid]
    exact congrArg Store.entries (Store.change_middle _ hbefore hafter)
  · intro key hkey
    have hnone : Table.find?
        (Table.remove [(m.field.name, Value.list (new.map .record))] "id").reverse key = none := by
      rw [Table.find?_eq_none_iff]
      intro hmem
      obtain ⟨entry, hentry, rfl⟩ := List.mem_map.mp hmem
      have := List.mem_of_mem_filter (List.mem_reverse.mp hentry)
      exact hkey (congrArg Prod.fst (List.mem_singleton.mp this))
    unfold stored
    rw [Table.find?_merge, hnone]
    rfl

/-- The parent document of a rewritten array. -/
theorem Rewritten.holds {s t : Store} (h : m.Rewritten parentId items s t)
    (hids : (s.entries.map Entry.id).Nodup) : m.Holds parentId t items := by
  obtain ⟨before, e, after, fields, hentries, ⟨hcollection, hid⟩, hentries', -, hitems⟩ := h
  rw [hentries] at hids
  obtain ⟨hbefore, -⟩ := others_of_nodup hids
  refine ⟨{ e with fields }, ?_, hitems⟩
  have hstore : t = ⟨before ++ { e with fields } :: after⟩ := by rw [← hentries']
  rw [hstore, ← hcollection, ← hid]
  exact Store.find?_middle hbefore

theorem Rewritten.ids {s t : Store} (h : m.Rewritten parentId items s t) :
    t.entries.map Entry.id = s.entries.map Entry.id := by
  obtain ⟨before, e, after, fields, hentries, -, hentries', -, -⟩ := h
  simp [hentries, hentries']

/-- What is saved reads back as it was. In the place of the id, nothing is saved. -/
theorem items_saved (hitems : m.items e.document = .ok old) (new : List Fields) :
    ∃ saved, m.items (m.stored e new).document = .ok saved ∧
      (saved = new ∨ old = [] ∧ saved = []) := by
  by_cases hname : m.field.name = "id"
  · have hnone := items_of_id hname hitems
    exact ⟨old, by rwa [stored_of_id hname], Or.inr ⟨hnone, hnone⟩⟩
  · exact ⟨new, items_stored hname e new, Or.inl rfl⟩

theorem save_eq (hfound : s.store.find? m.parent.storedIn parentId.display = some e)
    (new : List Fields) : m.save parentId new s = (m.items (m.stored e new).document,
      { s with store := (s.store.change m.parent.storedIn parentId.display
        fun _ => (m.stored e new).fields) }) := by
  unfold save
  rw [Step.bind_run, State.onStore_eq, Store.update_eq, hfound]
  rfl

/-- An array is stored over the one that is there. -/
theorem save_ok (hids : (s.store.entries.map Entry.id).Nodup) (hold : m.Holds parentId s.store old)
    (new : List Fields) : ∃ saved store, m.save parentId new s = (.ok saved, { s with store }) ∧
      m.Rewritten parentId saved s.store store ∧ (saved = new ∨ old = [] ∧ saved = []) := by
  obtain ⟨e, hfound, hitems⟩ := hold
  obtain ⟨saved, hsaved, hcases⟩ := items_saved hitems new
  exact ⟨saved, _, by rw [save_eq hfound, hsaved], rewritten_change hids hfound hsaved, hcases⟩

theorem loadParent_eq (hfound : s.store.find? m.parent.storedIn parentId.display = some e) :
    m.loadParent parentId s = (.ok e.document, s) := by
  have hfind : State.onStore (Store.findById m.parent.storedIn parentId.display) s =
      (.ok (some e.document), s) := by
    show (Except.ok ((s.store.find? m.parent.storedIn parentId.display).map Entry.document), s) = _
    rw [hfound]
    rfl
  unfold loadParent
  rw [Step.bind_of_ok hfind]
  rfl

theorem loadParent_ok (h : m.loadParent parentId s = (.ok doc, t)) :
    t = s ∧ ∃ e, s.store.find? m.parent.storedIn parentId.display = some e ∧ doc = e.document := by
  cases hfound : s.store.find? m.parent.storedIn parentId.display with
  | some e =>
    rw [loadParent_eq hfound] at h
    cases h
    exact ⟨rfl, e, rfl, rfl⟩
  | none =>
    have hfind : State.onStore (Store.findById m.parent.storedIn parentId.display) s =
        (.ok none, s) := by
      show (Except.ok ((s.store.find? m.parent.storedIn parentId.display).map Entry.document), s) = _
      rw [hfound]
      rfl
    unfold loadParent at h
    rw [Step.bind_of_ok hfind] at h
    cases h

/-- The array of a parent document is read. -/
theorem readItems_eq {β : Type} (hold : m.Holds parentId s.store items)
    (f : List Fields → Step State β) :
    (m.loadParent parentId >>= fun doc => Step.ofExcept (m.items doc) >>= f) s = f items s := by
  obtain ⟨e, hfound, hitems⟩ := hold
  have hread : (Step.ofExcept (m.items e.document) : Step State _) s = (.ok items, s) := by
    rw [hitems]
    rfl
  rw [Step.bind_of_ok (loadParent_eq hfound), Step.bind_of_ok hread]

theorem readItems_ok {β : Type} {f : List Fields → Step State β} {answer : β}
    (h : (m.loadParent parentId >>= fun doc => Step.ofExcept (m.items doc) >>= f) s =
      (.ok answer, t)) : ∃ items, m.Holds parentId s.store items ∧ f items s = (.ok answer, t) := by
  obtain ⟨doc, u, hload, h⟩ := Step.bind_ok h
  obtain ⟨rfl, e, hfound, rfl⟩ := loadParent_ok hload
  obtain ⟨items, v, hread, h⟩ := Step.bind_ok h
  obtain ⟨hitems, rfl⟩ := Step.ofExcept_ok hread
  exact ⟨items, ⟨e, hfound, hitems⟩, h⟩

theorem Holds.unique {s : Store} {items' : List Fields} (h : m.Holds parentId s items)
    (h' : m.Holds parentId s items') : items = items' := by
  obtain ⟨e, hfound, hitems⟩ := h
  obtain ⟨e', hfound', hitems'⟩ := h'
  rw [hfound] at hfound'
  cases hfound'
  rw [hitems] at hitems'
  exact Except.ok.inj hitems'

/-- The arrays of other parent documents stay. -/
theorem Rewritten.holds_other {s t : Store} {other : Value} (h : m.Rewritten parentId new s t)
    (hother : parentId.display ≠ other.display) : m.Holds other t items ↔ m.Holds other s items := by
  obtain ⟨before, e, after, fields, hentries, ⟨-, hid⟩, hentries', -, -⟩ := h
  have hfind : t.find? m.parent.storedIn other.display =
      s.find? m.parent.storedIn other.display := by
    unfold Store.find?
    rw [hentries, hentries', List.find?_append, List.find?_append, List.find?_cons_of_neg,
      List.find?_cons_of_neg]
    · simp [Entry.isAt, hid, hother]
    · simp [Entry.isAt, hid, hother]
  unfold Holds
  rw [hfind]

end Saving

end EmbeddedOperations

end DocumentApi
