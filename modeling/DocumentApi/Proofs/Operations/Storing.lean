import DocumentApi.Operations.Crud
import DocumentApi.Proofs.Operations.Preparing

/-!
# Documents stored with their sub-objects

* `storeWithParts`: a document is stored, then its sub-objects, and its id is answered; inline
  sub-objects (`createInline_eq`) and documents that are created (`create_ok`) are stored by it.
* `State.insert_ok`, `linkIds_ok`: one document is added under an id that no document has, and only
  one document changes when ids are linked to it.
-/

namespace DocumentApi

/-- Stores a document and then its sub-objects, and answers its id. -/
def storeWithParts (r : Registry) (d : Definition) (data : Fields) : Step State String := do
  let (doc, inline) ← Step.ofExcept (splitDocument r d.name (.record data))
  let doc ← State.onIds (assignIds r (some d.name) doc)
  let stored ← State.insert d.storedIn doc
  let id := (Fields.get stored "id").display
  let _ ← Step.each (linkInline r d id) inline
  return id

theorem createInline_eq (r : Registry) (target : Definition) (item : Value) :
    createInline r target item = Step.ofExcept item.asFields >>= storeWithParts r target := by
  have hparts : ∀ (inline : Inline) (id : String),
      Step.each (fun part : { part // part ∈ inline } => do
        let next ← Step.ofExcept (relationTarget r part.1.1)
        let ids ← Step.each (fun item : { item // item ∈ part.1.2 } =>
          createInline r next item.1) part.1.2.attach
        linkIds target id (linkFieldOf part.1.1) ids) inline.attach =
      Step.each (linkInline r target id) inline := by
    intro inline id
    rw [← Step.each_attach (linkInline r target id)]
    refine congrArg (Step.each · _) (funext fun part => ?_)
    unfold linkInline
    refine congrArg (_ >>= ·) (funext fun next => ?_)
    rw [Step.each_attach (createInline r next)]
  rw [createInline]
  split
  · rename_i e he
    rw [he]
    rfl
  · rename_i data hdata
    rw [hdata]
    show _ = storeWithParts r target data
    unfold storeWithParts
    split
    · rename_i e he
      rw [he]
      rfl
    · rename_i doc inline hsplit
      rw [hsplit]
      simp only [hparts]
      rfl

namespace Store

theorem uses_eq_false {s : Store} {id : String} :
    s.uses id = false ↔ ∀ e ∈ s.entries, e.id ≠ id := by
  simp [uses]

/-- The only entry of an id is found by it. -/
theorem find?_middle {before after : List Entry} {e : Entry}
    (hbefore : ∀ other ∈ before, other.id ≠ e.id) :
    find? ⟨before ++ e :: after⟩ e.collection e.id = some e := by
  unfold find?
  rw [List.find?_append, List.find?_eq_none.mpr, Option.none_or,
    List.find?_cons_of_pos (by simp [Entry.isAt])]
  intro other hother
  simp [Entry.isAt, hbefore other hother]

/-- Changing the only entry of an id leaves all others as they are. -/
theorem change_middle {before after : List Entry} {e : Entry} (f : Fields → Fields)
    (hbefore : ∀ other ∈ before, other.id ≠ e.id) (hafter : ∀ other ∈ after, other.id ≠ e.id) :
    change ⟨before ++ e :: after⟩ e.collection e.id f =
      ⟨before ++ { e with fields := f e.fields } :: after⟩ := by
  have hothers : ∀ es : List Entry, (∀ other ∈ es, other.id ≠ e.id) →
      es.map (fun other => if other.isAt e.collection e.id then
        { other with fields := f other.fields } else other) = es := by
    intro es hes
    refine (List.map_congr_left fun other hother => ?_).trans (List.map_id es)
    rw [if_neg (by simp [Entry.isAt, hes other hother])]
    rfl
  unfold change
  rw [List.map_append, List.map_cons, hothers before hbefore, hothers after hafter,
    if_pos (by simp [Entry.isAt])]

theorem insert_eq (collection id : String) (fields : Fields) (s : Store) :
    insert collection id fields s =
      if s.uses id then (.error .idTaken, s)
      else (.ok (Entry.mk collection id fields).document,
        ⟨s.entries ++ [⟨collection, id, fields⟩]⟩) := by
  unfold insert
  rw [Step.bind_run]
  dsimp only [Step.state]
  split <;> rfl

theorem insert_ok {collection id : String} {fields stored : Fields} {s t : Store}
    (h : insert collection id fields s = (.ok stored, t)) :
    s.uses id = false ∧ stored = (Entry.mk collection id fields).document ∧
      t = ⟨s.entries ++ [⟨collection, id, fields⟩]⟩ := by
  rw [insert_eq] at h
  by_cases huses : s.uses id
  · rw [if_pos huses] at h
    cases h
  · rw [if_neg huses] at h
    cases h
    exact ⟨Bool.eq_false_iff.mpr huses, rfl, rfl⟩

/-- Values are added to a set of the only document of an id. -/
theorem addToSet_ok {before after : List Entry} {e : Entry} {field : String} {values : List Value}
    {doc? : Option Fields} {t : Store} (hbefore : ∀ other ∈ before, other.id ≠ e.id)
    (hafter : ∀ other ∈ after, other.id ≠ e.id)
    (h : addToSet e.collection e.id field (.list values) ⟨before ++ e :: after⟩ = (.ok doc?, t)) :
    t = ⟨before ++
      ⟨e.collection, e.id, Table.set e.fields field
        (.list (union (Fields.get e.fields field).items values))⟩ :: after⟩ := by
  unfold addToSet at h
  rw [Step.bind_run] at h
  dsimp only [Step.state] at h
  rw [find?_middle hbefore] at h
  dsimp only at h
  obtain ⟨items, u, hitems, h⟩ := Step.bind_ok h
  obtain ⟨hread, rfl⟩ := Step.ofExcept_ok hitems
  obtain ⟨values', u, hvalues, h⟩ := Step.bind_ok h
  obtain ⟨hsame, rfl⟩ := Step.ofExcept_ok hvalues
  cases hsame
  rw [Value.items_of_iterateGiven hread]
  cases h
  exact change_middle _ hbefore hafter

end Store

/-- A document is stored at the end, under an id that no document had. -/
theorem State.insert_ok {collection : String} {data stored : Fields} {s t : State}
    (h : State.insert collection data s = (.ok stored, t)) :
    ∃ id, s.store.uses id = false ∧ Fields.get stored "id" = .text id ∧
      ((Fields.get data "id").truthy = false → id ≠ "") ∧
      ∃ ids, t = { s with
        store := ⟨s.store.entries ++ [⟨collection, id, Table.remove data "id"⟩]⟩, ids } := by
  have hinsert : ∀ id u, State.onStore (Store.insert collection id (Table.remove data "id")) u =
      (.ok stored, t) → u.store.uses id = false ∧ Fields.get stored "id" = .text id ∧
        t = { u with store := ⟨u.store.entries ++ [⟨collection, id, Table.remove data "id"⟩]⟩ } := by
    intro id u h
    obtain ⟨store, hstore, rfl⟩ := Step.zoom_eq h
    obtain ⟨huses, rfl, rfl⟩ := Store.insert_ok hstore
    exact ⟨huses, Fields.get_set_self _ "id" _, rfl⟩
  unfold State.insert at h
  by_cases hgiven : (Fields.get data "id").truthy
  · dsimp only at h
    rw [if_pos hgiven] at h
    obtain ⟨huses, hid, rfl⟩ := hinsert _ _ h
    exact ⟨_, huses, hid, fun hnone => absurd hgiven (by simp [hnone]), s.ids, rfl⟩
  · dsimp only at h
    rw [if_neg hgiven] at h
    obtain ⟨id, u, hdraw, h⟩ := Step.bind_ok h
    unfold State.newId State.onIds at hdraw
    obtain ⟨ids, hdrawn, rfl⟩ := Step.zoom_eq hdraw
    obtain ⟨huses, hid, rfl⟩ := hinsert _ _ h
    exact ⟨id, huses, hid, fun _ => IdSource.draw_ne_empty hdrawn, _, rfl⟩

/-- Ids are linked to the only document of the owner's id. -/
theorem linkIds_ok {owner : Definition} {linkField : String} {ids : List String}
    {before after : List Entry} {e : Entry} {s t : State} {answer : Unit}
    (hs : s.store.entries = before ++ e :: after) (howner : e.collection = owner.storedIn)
    (hbefore : ∀ other ∈ before, other.id ≠ e.id) (hafter : ∀ other ∈ after, other.id ≠ e.id)
    (h : linkIds owner e.id linkField ids s = (.ok answer, t)) :
    t = { s with store := ⟨before ++
      ⟨e.collection, e.id, Table.set e.fields linkField
        (.list (Store.union (Fields.get e.fields linkField).items (ids.map .text)))⟩ :: after⟩ } := by
  have hstore : s.store = ⟨before ++ e :: after⟩ := by rw [← hs]
  unfold linkIds at h
  obtain ⟨doc?, u, hadd, h⟩ := Step.bind_ok h
  obtain ⟨-, rfl⟩ := Step.pure_ok h
  obtain ⟨store, hset, rfl⟩ := Step.zoom_eq hadd
  rw [hstore, ← howner] at hset
  rw [Store.addToSet_ok hbefore hafter hset]

/-- Without hooks nothing happens to the arguments of a phase. -/
theorem ModelOperations.dispatch_eq {m : ModelOperations} (hhooks : m.hooks = {})
    (phase : HookPhase) (payload : Fields) : m.dispatch phase payload = pure payload := by
  unfold dispatch
  rw [hhooks]
  rfl

/-- A document is prepared, stored and followed by its sub-objects. -/
theorem storeWithParts_of_prepared {r : Registry} {d : Definition} {input : Value}
    {data doc stored : Fields} {inline : Inline} {units : List Unit} {s s₁ s₂ s₃ : State}
    (hdata : splitDocument r d.name input.plain = splitDocument r d.name (.record data))
    (hprepare : State.onIds (prepareDocument r d.name input) s = (.ok (doc, inline), s₁))
    (hinsert : State.insert d.storedIn doc s₁ = (.ok stored, s₂))
    (hparts : Step.each (linkInline r d (Fields.get stored "id").display) inline s₂ =
      (.ok units, s₃)) :
    storeWithParts r d data s = (.ok (Fields.get stored "id").display, s₃) := by
  obtain ⟨ids, hprepared, rfl⟩ := Step.zoom_eq hprepare
  unfold prepareDocument at hprepared
  obtain ⟨⟨doc', inline'⟩, ids', hsplit, hassign⟩ := Step.bind_ok hprepared
  obtain ⟨hpayload, rfl⟩ := Step.ofExcept_ok hsplit
  obtain ⟨doc'', ids'', hassigned, hpair⟩ := Step.bind_ok hassign
  cases hpair
  have hdoc : State.onIds (assignIds r (some d.name) doc') s = (.ok doc, { s with ids }) := by
    unfold State.onIds Step.zoom
    rw [hassigned]
  unfold storeWithParts
  rw [← hdata, hpayload]
  refine (Step.bind_of_ok (t := s) rfl).trans ?_
  dsimp only
  rw [Step.bind_of_ok hdoc, Step.bind_of_ok hinsert, Step.bind_of_ok hparts]
  rfl

/-- Without hooks a document is stored with its sub-objects, loaded and shaped. -/
theorem ModelOperations.create_ok {m : ModelOperations} {ctx input created : Value} {s t : State}
    (hhooks : m.hooks = {}) (h : m.create ctx input s = (.ok created, t)) :
    ∃ data id u, input.asFields = .ok data ∧
      storeWithParts m.registry m.model (Value.plainFields data) s = (.ok id, u) ∧
      (m.load (.text id) >>= m.shape) u = (.ok created, t) := by
  have hdispatch := m.dispatch_eq hhooks
  unfold create at h
  obtain ⟨data, s', hdata, h⟩ := Step.bind_ok h
  obtain ⟨hread, rfl⟩ := Step.ofExcept_ok hdata
  rw [hdispatch] at h
  obtain ⟨before, s', hbefore, h⟩ := Step.bind_ok h
  obtain ⟨rfl, rfl⟩ := Step.pure_ok hbefore
  have hinput : Fields.get [("ctx", ctx), ("input", Value.record data)] "input" = .record data := rfl
  rw [hinput] at h
  dsimp only at h
  obtain ⟨⟨doc, inline⟩, s₁, hprepare, h⟩ := Step.bind_ok h
  obtain ⟨stored, s₂, hinsert, h⟩ := Step.bind_ok h
  obtain ⟨units, s₃, hparts, h⟩ := Step.bind_ok h
  obtain ⟨loaded, s₄, hload, h⟩ := Step.bind_ok h
  obtain ⟨shaped, s₅, hshape, h⟩ := Step.bind_ok h
  rw [hdispatch] at h
  cases h
  obtain ⟨id, -, hid, -⟩ := State.insert_ok hinsert
  have hstore := storeWithParts_of_prepared rfl hprepare hinsert hparts
  rw [hid] at hstore hload
  exact ⟨data, id, s₃, hread, hstore, (Step.bind_of_ok hload).trans hshape⟩

end DocumentApi
