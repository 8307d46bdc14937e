import DocumentApi.Proofs.Operations.Arrays
import DocumentApi.Proofs.Operations.RoundTrip

/-!
# Operations of an embedded array

What each operation makes of the array of a parent document.

* `Makes`: the array that an operation makes of the one before, element by element.
* `ArrayChange`: an operation that stores an array makes the new one, stores it and answers.
* `runEmbedded_outcome`: what an operation leaves in the store, whether it succeeds or not.
* `runEmbedded_makes`: an operation that succeeds has made the array and shows it in its answer.
-/

namespace DocumentApi

namespace EmbeddedOperations

variable (m : EmbeddedOperations)

/-- The array that an operation makes of the one before. -/
inductive Makes (args : Fields) (ids : IdSource) (old : List Fields) :
    EmbeddedApi → List Fields → Prop
  /-- An element with the given fields and a new id comes last. -/
  | create {given item : Fields} {id : String} {rest : IdSource}
      (hgiven : (Fields.get args "input").asFields = .ok given)
      (hid : ids.draw = (.ok id, rest))
      (hitem : m.Gains (Table.set given "id" (.text id)) item) :
    Makes args ids old .create (old ++ [item])
  /-- Every given item is merged over the element that it names. -/
  | bulkUpdate {values : List Value} {payload new : List Fields}
      (hvalues : (Fields.get args "input").iterateGiven = .ok values)
      (hpayload : values.mapM Value.asFields = .ok payload)
      (hnew : List.Forall₂ (fun given item => ∃ named ∈ old, idOf named = idOf given ∧
        m.Gains (Table.set (Table.merge named given) "id" (.text (idOf given))) item) payload new) :
    Makes args ids old .bulkUpdate new
  /-- The given fields, without an id among them, are merged over the first element of the id. -/
  | updateOne {given item changed : Fields} {before after : List Fields}
      (hgiven : (Fields.get args "input").asFields = .ok given)
      (hold : old = before ++ item :: after)
      (hid : idOf item = (Fields.get args "id").display)
      (hfirst : ∀ other ∈ before, idOf other ≠ (Fields.get args "id").display)
      (hchanged : m.Gains (Table.merge item (Table.remove given "id")) changed)
      (hkept : m.PlainId → idOf changed = idOf item)
      (hran : ∃ rest, assignIds m.registry m.field.embeddedName
        (Table.merge item (Table.remove given "id")) ids = (.ok changed, rest)) :
    Makes args ids old .updateOne (before ++ changed :: after)
  /-- The elements of the listed ids are dropped. -/
  | remove {values : List Value} (hvalues : (Fields.get args "ids").iterateGiven = .ok values) :
    Makes args ids old .remove
      (old.filter fun item => !(values.map Value.display).contains (idOf item))
  | getOne : Makes args ids old .getOne old
  | getAll : Makes args ids old .getAll old

/-- An element is shown as a value. -/
def Shaped (item : Fields) (v : Value) : Prop := (m.shape item).Answers v

/-- An operation shows elements of an array in its answer. -/
def Shows (args : Fields) (items : List Fields) : EmbeddedApi → Value → Prop
  | .create, v => ∃ item, items.getLast? = some item ∧ m.Shaped item v
  | .updateOne, v | .getOne, v =>
    ∃ item, items.find? (hasId (Fields.get args "id").display) = some item ∧ m.Shaped item v
  | .bulkUpdate, v | .getAll, v => ∃ vs, List.Forall₂ m.Shaped items vs ∧ v = .list vs
  | .remove, v => v = removalDone

/-! ## The parts of an operation -/

/-- An operation that stores an array: how it makes the array, and what it answers then. -/
structure ArrayChange where
  make : Step State (List Fields)
  answer : List Fields → Step State Value

variable (parentId : Value)

def createChange (input : Value) : ArrayChange where
  make := do
    let parent ← m.loadParent parentId
    let given ← Step.ofExcept input.asFields
    let id ← State.newId
    let item ← m.withIds (Table.set given "id" (.text id))
    let items ← Step.ofExcept (m.items parent)
    return items ++ [item]
  answer saved := do
    let reloaded ← Step.ofExcept (m.items (← m.loadParent parentId))
    match (if reloaded.isEmpty then saved else reloaded).getLast? with
    | some last => m.shape last
    | none => Step.fail .badValue

def bulkUpdateChange (input : Value) : ArrayChange where
  make := do
    let parent ← m.loadParent parentId
    let existing := byId (← Step.ofExcept (m.items parent))
    let payload ← Step.ofExcept (do (← input.iterateGiven).mapM Value.asFields)
    match payload.find? fun item => !Table.has existing (Fields.get item "id").display with
    | some item => Step.fail (m.notFound (Fields.get item "id") parentId)
    | none => m.mergeItems existing payload
  answer _ := do
    let reloaded ← Step.ofExcept (m.items (← m.loadParent parentId))
    return .list (← Step.each m.shape reloaded)

def updateOneChange (id input : Value) : ArrayChange where
  make := do
    let parent ← m.loadParent parentId
    let items ← Step.ofExcept (m.items parent)
    let changes := Table.remove (← Step.ofExcept input.asFields) "id"
    match ← changeFirst id.display (fun item => m.withIds (Table.merge item changes)) items with
    | none => Step.fail (m.notFound id parentId)
    | some items => return items
  answer saved :=
    match saved.find? (hasId id.display) with
    | some item => m.shape item
    | none => Step.fail (m.notFound id parentId)

def removeChange (ids : Value) : ArrayChange where
  make := do
    let ids := (← Step.ofExcept ids.iterateGiven).map Value.display
    if ids.isEmpty then Step.fail (.idsRequired m.embeddedName)
    else
      let parent ← m.loadParent parentId
      let items ← Step.ofExcept (m.items parent)
      return items.filter fun item => !ids.contains (Fields.get item "id").display
  answer _ := return removalDone

/-- The change that an operation makes. Getting elements makes none. -/
def change? (args : Fields) : EmbeddedApi → Option ArrayChange
  | .create => some (m.createChange (Fields.get args "parent_id") (Fields.get args "input"))
  | .bulkUpdate => some (m.bulkUpdateChange (Fields.get args "parent_id") (Fields.get args "input"))
  | .updateOne => some (m.updateOneChange (Fields.get args "parent_id") (Fields.get args "id")
      (Fields.get args "input"))
  | .remove => some (m.removeChange (Fields.get args "parent_id") (Fields.get args "ids"))
  | .getOne | .getAll => none

variable {m parentId} {args : Fields} {api : EmbeddedApi} {c : ArrayChange}

/-- An operation makes an array, stores it and answers. -/
theorem runEmbedded_change (hc : m.change? args api = some c) :
    Operation.runEmbedded m api args = (do
      let new ← c.make
      let saved ← m.save (Fields.get args "parent_id") new
      c.answer saved) := by
  cases api with
  | create =>
    cases hc
    unfold Operation.runEmbedded create createChange
    simp only [bind_assoc]
    refine bind_congr fun parent => bind_congr fun given => bind_congr fun id => ?_
    refine bind_congr fun item => bind_congr fun items => ?_
    rfl
  | bulkUpdate =>
    cases hc
    unfold Operation.runEmbedded bulkUpdate bulkUpdateChange
    simp only [bind_assoc]
    refine bind_congr fun parent => bind_congr fun items => bind_congr fun payload => ?_
    generalize payload.find? _ = missing
    cases missing <;> rfl
  | updateOne =>
    cases hc
    unfold Operation.runEmbedded updateOne updateOneChange
    simp only [bind_assoc]
    refine bind_congr fun parent => bind_congr fun items => bind_congr fun given => ?_
    refine bind_congr fun changed => ?_
    cases changed <;> rfl
  | remove =>
    cases hc
    unfold Operation.runEmbedded remove removeChange
    simp only [bind_assoc]
    refine bind_congr fun ids => ?_
    split
    · rfl
    · simp only [bind_assoc, pure_bind]
  | getOne | getAll => cases hc

theorem change?_isSome (m : EmbeddedOperations) (args : Fields) (api : EmbeddedApi) :
    (m.change? args api).isSome = api.writes := by
  cases api <;> rfl

theorem make_spares (hc : m.change? args api = some c) : c.make.SparesStore := by
  have hclosed := Step.SparesStore.closed m.registry
  cases api with
  | create =>
    cases hc
    refine hclosed.bind (loadParent_closed hclosed _) fun parent _ => ?_
    refine hclosed.bind (hclosed.ofExcept _) fun given _ => ?_
    refine hclosed.bind (hclosed.onIds _) fun id _ => ?_
    refine hclosed.bind (hclosed.onIds _) fun item _ => ?_
    exact hclosed.bind (hclosed.ofExcept _) fun items _ => hclosed.pure _
  | bulkUpdate =>
    cases hc
    refine hclosed.bind (loadParent_closed hclosed _) fun parent _ => ?_
    refine hclosed.bind (hclosed.ofExcept _) fun items _ => ?_
    refine hclosed.bind (hclosed.ofExcept _) fun payload _ => ?_
    split
    · exact hclosed.fail _
    · exact mergeItems_closed hclosed _ _
  | updateOne =>
    cases hc
    refine hclosed.bind (loadParent_closed hclosed _) fun parent _ => ?_
    refine hclosed.bind (hclosed.ofExcept _) fun items _ => ?_
    refine hclosed.bind (hclosed.ofExcept _) fun given _ => ?_
    refine hclosed.bind ?_ fun changed _ => ?_
    · exact changeFirst_closed hclosed _ (fun item => hclosed.onIds _) _
    cases changed with
    | none => exact hclosed.fail _
    | some items => exact hclosed.pure _
  | remove =>
    cases hc
    refine hclosed.bind (hclosed.ofExcept _) fun ids _ => ?_
    dsimp only
    split
    · exact hclosed.fail _
    · refine hclosed.bind (loadParent_closed hclosed _) fun parent _ => ?_
      exact hclosed.bind (hclosed.ofExcept _) fun items _ => hclosed.pure _
  | getOne | getAll => cases hc

theorem answer_spares (hc : m.change? args api = some c) (saved : List Fields) :
    (c.answer saved).SparesStore := by
  have hclosed := Step.SparesStore.closed m.registry
  cases api with
  | create =>
    cases hc
    refine hclosed.bind (loadParent_closed hclosed _) fun parent _ => ?_
    refine hclosed.bind (hclosed.ofExcept _) fun items _ => ?_
    split
    · exact hclosed.output _ _
    · exact hclosed.fail _
  | bulkUpdate =>
    cases hc
    refine hclosed.bind (loadParent_closed hclosed _) fun parent _ => ?_
    refine hclosed.bind (hclosed.ofExcept _) fun items _ => ?_
    exact hclosed.bind (hclosed.each fun item _ => hclosed.output _ _) fun shown _ => hclosed.pure _
  | updateOne =>
    cases hc
    unfold updateOneChange
    dsimp only
    split
    · exact hclosed.output _ _
    · exact hclosed.fail _
  | remove => cases hc; exact hclosed.pure _
  | getOne | getAll => cases hc

/-! ## The arrays that are made -/

section Making

variable {old new : List Fields} {s t : State}

theorem changeFirst_ok {id : String} {change : Fields → Step State Fields}
    (h : changeFirst id change old s = (.ok (some new), t)) :
    ∃ before item after changed, old = before ++ item :: after ∧ idOf item = id ∧
      (∀ other ∈ before, idOf other ≠ id) ∧ change item s = (.ok changed, t) ∧
      new = before ++ changed :: after := by
  induction old generalizing new with
  | nil => cases h
  | cons item old ih =>
    unfold changeFirst at h
    by_cases hid : hasId id item
    · rw [if_pos hid] at h
      obtain ⟨changed, u, hchange, h⟩ := Step.bind_ok h
      cases h
      exact ⟨[], item, old, changed, rfl, hasId_iff.mp hid,
        fun _ h => absurd h List.not_mem_nil, hchange, rfl⟩
    · rw [if_neg hid] at h
      obtain ⟨rest?, u, hrest, h⟩ := Step.bind_ok h
      cases rest? with
      | none => cases h
      | some rest =>
        cases h
        obtain ⟨before, found, after, changed, rfl, hfound, hfirst, hchange, rfl⟩ := ih hrest
        refine ⟨item :: before, found, after, changed, rfl, hfound, ?_, hchange, rfl⟩
        intro other hother
        rcases List.mem_cons.mp hother with rfl | hother
        · exact fun hsame => hid (hasId_iff.mpr hsame)
        · exact hfirst other hother

theorem byId_mem {key : String} {item : Fields} (h : Table.find? (byId old) key = some item) :
    item ∈ old ∧ idOf item = key := by
  unfold byId Table.ofPairs at h
  rw [Table.find?_merge, Table.find?_nil, Option.orElse_eq_orElse, Option.orElse_eq_or,
    Option.or_none] at h
  obtain ⟨other, hother, hsame⟩ := List.mem_map.mp (List.mem_reverse.mp (Table.mem_of_find? h))
  cases hsame
  exact ⟨hother, rfl⟩

/-- Items that are merged over the elements that they name. Elements that were named before have
gained ids at most. -/
theorem mergeItems_ok (hr : m.registry.Distinct) {existing : Table Fields} {payload : List Fields}
    (hexisting : ∀ key item, Table.find? existing key = some item → ∃ named ∈ old,
      idOf named = key ∧ ∀ declared,
        m.registry.fieldsOfEmbedded m.field.embeddedName = .ok declared →
          DocumentGains m.registry declared named item)
    (hnamed : ∀ given ∈ payload, Table.has existing (idOf given))
    (h : m.mergeItems existing payload s = (.ok new, t)) :
    List.Forall₂ (fun given item => ∃ named ∈ old, idOf named = idOf given ∧
      m.Gains (Table.set (Table.merge named given) "id" (.text (idOf given))) item) payload new := by
  induction payload generalizing existing new s with
  | nil => cases h; exact .nil
  | cons given payload ih =>
    unfold mergeItems at h
    cases hid : Table.find? given "id" with
    | none => rw [hid] at h; cases h
    | some id =>
      rw [hid] at h
      dsimp only at h
      have hgiven : idOf given = id.display := by
        unfold idOf
        rw [Fields.get_of_find? hid]
      have hhas := hnamed given List.mem_cons_self
      rw [hgiven] at hhas
      obtain ⟨item, hitem⟩ := Option.isSome_iff_exists.mp hhas
      rw [hitem, Option.getD_some] at h
      obtain ⟨merged, u, hmerged, h⟩ := Step.bind_ok h
      obtain ⟨rest, u', hrest, h⟩ := Step.bind_ok h
      cases h
      obtain ⟨⟨declared, hdeclared, hgains⟩, -⟩ := withIds_ok hr hmerged
      obtain ⟨named, hmem, hsame, hown⟩ := hexisting _ item hitem
      have hown := hown declared hdeclared
      refine .cons ⟨named, hmem, hsame.trans hgiven.symm, declared, hdeclared, ?_⟩ (ih ?_ ?_ hrest)
      · rw [hgiven]
        rw [Table.set_eq_merge] at hgains ⊢
        exact ((hown.merge given).merge _).trans hgains
      · intro key other hother
        rw [Table.find?_set] at hother
        by_cases hkey : id.display = key
        · rw [if_pos hkey, Option.some.injEq] at hother
          refine ⟨named, hmem, hsame.trans hkey, fun declared' hdeclared' => ?_⟩
          rw [hdeclared] at hdeclared'
          cases hdeclared'
          rw [← hother]
          exact hown.trans (keepOwn_gains (by rw [Table.has, hid]; rfl) hgains)
        · rw [if_neg hkey] at hother
          exact hexisting key other hother
      · intro other hother
        rw [Table.has_set, hnamed other (List.mem_cons_of_mem _ hother), Bool.true_or]

/-- What is made is made of the array in the parent document. -/
theorem make_makes (hr : m.registry.Distinct) (hc : m.change? args api = some c)
    (h : c.make s = (.ok new, t)) : ∃ old, m.Holds (Fields.get args "parent_id") s.store old ∧
      m.Makes args s.ids old api new := by
  cases api with
  | create =>
    cases hc
    obtain ⟨doc, u, hload, h⟩ := Step.bind_ok h
    obtain ⟨rfl, e, hfound, rfl⟩ := loadParent_ok hload
    obtain ⟨given, u, hread, h⟩ := Step.bind_ok h
    obtain ⟨hgiven, rfl⟩ := Step.ofExcept_ok hread
    obtain ⟨id, u, hid, h⟩ := Step.bind_ok h
    unfold State.newId State.onIds at hid
    obtain ⟨ids, hdraw, -⟩ := Step.zoom_eq hid
    obtain ⟨item, v, hitem, h⟩ := Step.bind_ok h
    obtain ⟨old, w, hold, h⟩ := Step.bind_ok h
    cases h
    exact ⟨old, ⟨e, hfound, (Step.ofExcept_ok hold).1⟩,
      .create hgiven hdraw (withIds_ok hr hitem).1⟩
  | bulkUpdate =>
    cases hc
    obtain ⟨old, hold, h⟩ := readItems_ok h
    obtain ⟨payload, u', hgiven, h⟩ := Step.bind_ok h
    obtain ⟨hlisted, rfl⟩ := Step.ofExcept_ok hgiven
    obtain ⟨values, hvalues, hpayload⟩ := exceptBind_ok hlisted
    refine ⟨old, hold, ?_⟩
    cases hmissing : payload.find? fun item =>
        !Table.has (byId old) (Fields.get item "id").display with
    | some item => rw [hmissing] at h; cases h
    | none =>
      rw [hmissing] at h
      refine .bulkUpdate hvalues hpayload (mergeItems_ok hr (fun key item hitem => ?_) ?_ h)
      · obtain ⟨hmem, hkey⟩ := byId_mem hitem
        exact ⟨item, hmem, hkey, fun declared _ => .refl m.registry declared item⟩
      · intro given hgiven
        simpa [idOf] using List.find?_eq_none.mp hmissing given hgiven
  | updateOne =>
    cases hc
    obtain ⟨old, hold, h⟩ := readItems_ok h
    obtain ⟨given, u, hread', h⟩ := Step.bind_ok h
    obtain ⟨hgiven, rfl⟩ := Step.ofExcept_ok hread'
    obtain ⟨changed?, u, hchange, h⟩ := Step.bind_ok h
    refine ⟨old, hold, ?_⟩
    cases changed? with
    | none => cases h
    | some items =>
      cases h
      obtain ⟨before, item, after, changed, rfl, hid, hfirst, hran, rfl⟩ := changeFirst_ok hchange
      obtain ⟨hgains, ids, hassign, -⟩ := withIds_ok hr hran
      exact .updateOne hgiven rfl hid hfirst hgains hgains.idOf_eq ⟨ids, hassign⟩
  | remove =>
    cases hc
    obtain ⟨values, u, hread, h⟩ := Step.bind_ok h
    obtain ⟨hvalues, rfl⟩ := Step.ofExcept_ok hread
    dsimp only at h
    split at h
    · cases h
    · obtain ⟨old, hold, h⟩ := readItems_ok h
      cases h
      exact ⟨old, hold, .remove hvalues⟩
  | getOne | getAll => cases hc

/-- Of no elements only a creation makes any. -/
theorem Makes.eq_nil (h : m.Makes args s.ids old api new) (hold : old = []) :
    api = .create ∨ new = [] := by
  cases h with
  | create => exact Or.inl rfl
  | bulkUpdate _ _ hnew =>
    cases hnew with
    | nil => exact Or.inr rfl
    | cons hnamed =>
      obtain ⟨named, hmem, -⟩ := hnamed
      rw [hold] at hmem
      cases hmem
  | updateOne _ hsplit => rw [hold] at hsplit; simp at hsplit
  | remove => exact Or.inr (by rw [hold]; rfl)
  | getOne | getAll => exact Or.inr hold

end Making

/-! ## The outcome of an operation -/

section Outcome

variable {old items : List Fields} {s t : State} {answer : Value}

/-- An answer shows elements of the array that was read. -/
theorem answer_shows (hc : m.change? args api = some c)
    (hholds : m.Holds (Fields.get args "parent_id") s.store items)
    (h : c.answer items s = (.ok answer, t)) : m.Shows args items api answer := by
  cases api with
  | create =>
    cases hc
    replace h := (readItems_eq hholds _).symm.trans h
    rw [ite_self] at h
    cases hlast : items.getLast? with
    | none => rw [hlast] at h; cases h
    | some last =>
      rw [hlast] at h
      exact ⟨last, hlast, s, t, h⟩
  | bulkUpdate =>
    cases hc
    replace h := (readItems_eq hholds _).symm.trans h
    obtain ⟨shown, u, hshown, h⟩ := Step.bind_ok h
    cases h
    exact ⟨shown, Step.each_answers hshown, rfl⟩
  | updateOne =>
    cases hc
    unfold updateOneChange at h
    dsimp only at h
    cases hitem : items.find? (hasId (Fields.get args "id").display) with
    | none => rw [hitem] at h; cases h
    | some item =>
      rw [hitem] at h
      exact ⟨item, hitem, s, t, h⟩
  | remove => cases hc; cases h; rfl
  | getOne | getAll => cases hc

/-- An operation that stores an array fails before it stores, or answers from what it has stored. -/
theorem runEmbedded_cases (hr : m.registry.Distinct) (hc : m.change? args api = some c)
    (hids : (s.store.entries.map Entry.id).Nodup) {result : Except Error Value}
    (h : Operation.runEmbedded m api args s = (result, t)) :
    (∃ fault, result = .error fault ∧ t.store = s.store) ∨
      ∃ old new saved u, m.Holds (Fields.get args "parent_id") s.store old ∧
        m.Makes args s.ids old api new ∧
        m.Rewritten (Fields.get args "parent_id") saved s.store t.store ∧
        (saved = new ∨ old = [] ∧ saved = []) ∧ u.store = t.store ∧
        c.answer saved u = (result, t) := by
  rw [runEmbedded_change hc, Step.bind_run] at h
  rcases hmake : c.make s with ⟨fault | new, u⟩
  · rw [hmake] at h
    cases h
    exact Or.inl ⟨fault, rfl, (make_spares hc).eq hmake⟩
  · rw [hmake] at h
    dsimp only at h
    obtain ⟨old, hold, hmakes⟩ := make_makes hr hc hmake
    have hstore := (make_spares hc).eq hmake
    obtain ⟨saved, store, hsave, hrewritten, hsaved⟩ :=
      save_ok (hstore.symm ▸ hids) (hstore.symm ▸ hold) new
    rw [Step.bind_of_ok hsave] at h
    have hkept : t.store = store := (answer_spares hc saved).eq h
    rw [hstore, ← hkept] at hrewritten
    exact Or.inr ⟨old, new, saved, { u with store }, hold, hmakes, hrewritten, hsaved,
      hkept.symm, h⟩

theorem Rewritten.refl {s : Store} {parentId : Value} (hold : m.Holds parentId s old) :
    m.Rewritten parentId old s s := by
  obtain ⟨e, hfound, hitems⟩ := hold
  obtain ⟨hat, before, after, hentries⟩ := Store.find?_some hfound
  exact ⟨before, e, after, e.fields, hentries, hat, hentries, fun _ _ => rfl, hitems⟩

theorem runEmbedded_spares (m : EmbeddedOperations) (args : Fields) (hapi : api.writes = false) :
    (Operation.runEmbedded m api args).SparesStore := by
  have hclosed := Step.SparesStore.closed m.registry
  cases api with
  | getOne => exact getOne_closed hclosed _ _
  | getAll => exact getAll_closed hclosed _
  | _ => cases hapi

/-- An operation that gets elements shows them as they are. -/
theorem runEmbedded_reads (hapi : api.writes = false)
    (hold : m.Holds (Fields.get args "parent_id") s.store old)
    (h : Operation.runEmbedded m api args s = (.ok answer, t)) :
    m.Makes args s.ids old api old ∧ t.store = s.store ∧ m.Shows args old api answer := by
  have hstore := (runEmbedded_spares m args hapi).eq h
  cases api with
  | getOne =>
    refine ⟨.getOne, hstore, ?_⟩
    replace h := (readItems_eq hold _).symm.trans h
    cases hitem : old.find? (hasId (Fields.get args "id").display) with
    | none => rw [hitem] at h; cases h
    | some item =>
      rw [hitem] at h
      exact ⟨item, hitem, s, t, h⟩
  | getAll =>
    refine ⟨.getAll, hstore, ?_⟩
    replace h := (readItems_eq hold _).symm.trans h
    obtain ⟨shown, u, hshown, h⟩ := Step.bind_ok h
    cases h
    exact ⟨shown, Step.each_answers hshown, rfl⟩
  | _ => cases hapi

/-- An operation that succeeds makes an array of the one in its parent document, stores it there and
nowhere else, and shows it in its answer. Getting elements stores nothing. -/
theorem runEmbedded_makes (hr : m.registry.Reachable)
    (hids : (s.store.entries.map Entry.id).Nodup)
    (hold : m.Holds (Fields.get args "parent_id") s.store old)
    (h : Operation.runEmbedded m api args s = (.ok answer, t)) :
    ∃ new, m.Makes args s.ids old api new ∧
      m.Rewritten (Fields.get args "parent_id") new s.store t.store ∧
      m.Shows args new api answer ∧ (api.writes = false → t.store = s.store) := by
  cases hapi : api.writes with
  | false =>
    obtain ⟨hmakes, hstore, hshows⟩ := runEmbedded_reads hapi hold h
    exact ⟨old, hmakes, hstore.symm ▸ Rewritten.refl hold, hshows, fun _ => hstore⟩
  | true =>
    rw [← change?_isSome m args] at hapi
    obtain ⟨c, hc⟩ := Option.isSome_iff_exists.mp hapi
    rcases runEmbedded_cases hr.distinct hc hids h with
      ⟨fault, hfault, -⟩ | ⟨old', new, saved, u, hold', hmakes, hrewritten, hsaved, hu, hanswer⟩
    · cases hfault
    · obtain rfl := hold.unique hold'
      have hshows := answer_shows hc (hu ▸ hrewritten.holds hids) hanswer
      have hsame : saved = new := by
        rcases hsaved with hsame | ⟨hnone, hsaved⟩
        · exact hsame
        · rcases hmakes.eq_nil hnone with rfl | hnew
          · -- a creation shows the element that it has stored
            obtain ⟨item, hlast, -⟩ := hshows
            rw [hsaved] at hlast
            cases hlast
          · rw [hsaved, hnew]
      subst hsame
      exact ⟨saved, hmakes, hrewritten, hshows, nofun⟩

end Outcome

end EmbeddedOperations

/-! ## Lines of an order -/

/-- The lines of orders. -/
def orderLines : EmbeddedOperations :=
  ⟨orderModels, orderModel,
    { name := "lines", storageType := "array", embedding := some (.named "Line"), many := true }⟩

/-- A line with a part. -/
def lineOf (id part : String) : Fields :=
  [("id", .text id), ("count", .int 1),
    ("part", .record [("id", .text part), ("name", .text "Nut")])]

/-- An order of two lines beside a note. -/
def lineState : State where
  types := (buildAll orderModels {}).2
  store := ⟨[⟨"Order", "o1", [("status", .text "open"),
      ("lines", .list [.record (lineOf "l1" "p1"), .record (lineOf "l2" "p2")])]⟩,
    ⟨"Note", "n1", [("text", .text "Milk")]⟩]⟩

theorem lineState_holds : orderLines.Holds (.text "o1") lineState.store
    [lineOf "l1" "p1", lineOf "l2" "p2"] :=
  ⟨_, rfl, rfl⟩

/-- Another part for the second line. -/
def boltForSecond : Fields :=
  [("parent_id", .text "o1"), ("id", .text "l2"), ("input", .record [("id", .text "l1"),
    ("part", .record [("name", .text "Bolt")])])]

theorem lines_evaluated :
    (Operation.runEmbedded orderLines .updateOne boltForSecond lineState).1.isOk := by
  -- The recursions are opened to the depth of the models; the rest is evaluated.
  have hwhile := funext fun begun => funext (typeWhile.eq_def orderModels begun)
  have hfields := funext fun begun => funext fun key =>
    funext (fieldsWhile.eq_def orderModels begun key)
  have houtput := funext fun model => funext (toOutput_eq orderModels model)
  have hfield := funext fun f => funext (fieldOutput_eq orderModels f)
  have htype := funext fun key => funext (typeOf_eq orderModels key)
  have hregistry : orderLines.registry = orderModels := rfl
  unfold Operation.runEmbedded EmbeddedOperations.updateOne EmbeddedOperations.shape lineState
  rw [hregistry, houtput, hfield, houtput, hfield, htype]
  unfold buildAll buildModel filterTypeOf sortTypeOf typeOf
  rw [hwhile, hfields, hfields, hfields, hfields, hfields, hfields, hwhile]
  decide +kernel

namespace EmbeddedOperations

/-- The second line keeps its id and gets a part with a new id. -/
theorem runEmbedded_boltForSecond : orderLines.registry.Reachable ∧
    (lineState.store.entries.map Entry.id).Nodup ∧
    orderLines.Holds (.text "o1") lineState.store [lineOf "l1" "p1", lineOf "l2" "p2"] ∧
    ∃ answer t changed, Operation.runEmbedded orderLines .updateOne boltForSecond lineState =
        (.ok answer, t) ∧
      orderLines.Rewritten (.text "o1") [lineOf "l1" "p1", changed] lineState.store t.store ∧
      orderLines.Gains (Table.set (lineOf "l2" "p2") "part" (.record [("name", .text "Bolt")]))
        changed := by
  have hids : (lineState.store.entries.map Entry.id).Nodup := by decide
  generalize hrun : Operation.runEmbedded orderLines .updateOne boltForSecond lineState = result
  have hok := lines_evaluated
  rw [hrun] at hok
  obtain ⟨fault | answer, t⟩ := result
  · cases hok
  obtain ⟨new, hmakes, hrewritten, -, -⟩ :=
    runEmbedded_makes orderModels_reachable hids lineState_holds hrun
  cases hmakes with
  | @updateOne _ _ _ before _ hgiven hsplit hid _ hchanged =>
    cases hgiven
    rcases before with _ | ⟨first, _ | ⟨second, before⟩⟩
    · cases hsplit
      exact absurd hid (by decide)
    · cases hsplit
      exact ⟨orderModels_reachable, hids, lineState_holds, answer, t, _, rfl, hrewritten, hchanged⟩
    · simp at hsplit

end EmbeddedOperations

end DocumentApi
