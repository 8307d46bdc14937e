import DocumentApi.Proofs.Operations.Closure
import DocumentApi.Proofs.Store.Ledger
import Mathlib.Data.List.Nodup
import Mathlib.Logic.Relation

/-!
# Writes to one collection

What may happen to the documents of one collection while operations run.

* `Grown keys adds before after`: the documents from before are all still there, in their order, with
  other values at most under some keys; more documents follow them only if `adds` holds.
* `Confined`: a step that leaves a collection grown in this sense, whether it succeeds or not.
* `HookTable.Spares`: hooks that do not ask the store to write a collection.
* `Operation.run_confined`: what an operation does to the collection of a model. The operations of
  its embedded arrays change the arrays, and creations that relations lead from to the model add
  documents.
-/

namespace DocumentApi

/-- The documents of a collection. -/
def Store.within (s : Store) (collection : String) : List Entry :=
  s.entries.filter fun e => e.collection = collection

/-- A document with other values under some keys. -/
def Entry.Revised (keys : String → Prop) (e e' : Entry) : Prop :=
  ∃ changes : Fields, (∀ entry ∈ changes, keys entry.1) ∧
    e' = { e with fields := Table.merge e.fields changes }

/-- Documents of which none is gone: values differ under some keys at most, and new documents come
at the end. -/
def Grown (keys : String → Prop) (adds : Prop) (before after : List Entry) : Prop :=
  ∃ kept added, after = kept ++ added ∧ List.Forall₂ (Entry.Revised keys) before kept ∧
    (added ≠ [] → adds)

section Grown

variable {keys : String → Prop} {adds : Prop} {e e' e'' : Entry} {base l : List Entry}

theorem Entry.Revised.refl (keys : String → Prop) (e : Entry) : e.Revised keys e :=
  ⟨[], fun _ h => absurd h List.not_mem_nil, rfl⟩

theorem Entry.Revised.trans (h : e.Revised keys e') (h' : e'.Revised keys e'') :
    e.Revised keys e'' := by
  obtain ⟨changes, hchanges, rfl⟩ := h
  obtain ⟨changes', hchanges', rfl⟩ := h'
  refine ⟨changes ++ changes', fun entry hentry => ?_, ?_⟩
  · exact (List.mem_append.mp hentry).elim (hchanges entry) (hchanges' entry)
  · unfold Table.merge
    rw [List.foldl_append]

theorem Entry.Revised.id_eq (h : e.Revised keys e') : e'.id = e.id := by
  obtain ⟨changes, -, rfl⟩ := h
  rfl

theorem Grown.refl (keys : String → Prop) (adds : Prop) (l : List Entry) : Grown keys adds l l :=
  ⟨l, [], (List.append_nil l).symm, List.forall₂_same.mpr fun e _ => .refl keys e,
    fun h => absurd rfl h⟩

/-- Nothing changes under no keys. -/
theorem Grown.eq (h : Grown keys adds base l) (hkeys : ∀ key, ¬ keys key) (hadds : ¬ adds) :
    l = base := by
  obtain ⟨kept, added, rfl, hkept, hadded⟩ := h
  have hnone : added = [] := by_contra fun hne => hadds (hadded hne)
  have hsame : List.Forall₂ Eq base kept := by
    refine hkept.imp fun e e' he => ?_
    obtain ⟨changes, hchanges, rfl⟩ := he
    cases changes with
    | nil => rfl
    | cons entry changes => exact absurd (hchanges entry List.mem_cons_self) (hkeys entry.1)
  rw [List.forall₂_eq_eq_eq] at hsame
  rw [hnone, List.append_nil, hsame]

/-- The documents from before have kept their ids and their places. -/
theorem Grown.ids_prefix (h : Grown keys adds base l) :
    base.map Entry.id <+: l.map Entry.id := by
  obtain ⟨kept, added, rfl, hkept, -⟩ := h
  refine ⟨added.map Entry.id, ?_⟩
  rw [List.map_append]
  refine congrArg (· ++ _) ?_
  induction hkept with
  | nil => rfl
  | cons hrevised _ ih => rw [List.map_cons, List.map_cons, hrevised.id_eq, ih]

theorem Grown.append (h : Grown keys adds base l) (hadds : adds) (e : Entry) :
    Grown keys adds base (l ++ [e]) := by
  obtain ⟨kept, added, rfl, hkept, -⟩ := h
  exact ⟨kept, added ++ [e], List.append_assoc _ _ _, hkept, fun _ => hadds⟩

/-- Documents may change, those from before under the keys only. -/
theorem Grown.map (h : Grown keys adds base l) {g : Entry → Entry}
    (hg : ∀ e ∈ l, e.id ∈ base.map Entry.id → e.Revised keys (g e)) :
    Grown keys adds base (l.map g) := by
  obtain ⟨kept, added, rfl, hkept, hadded⟩ := h
  refine ⟨kept.map g, added.map g, List.map_append, ?_, fun hne => hadded ?_⟩
  · obtain ⟨hlength, hzip⟩ := List.forall₂_iff_zip.mp hkept
    refine List.forall₂_map_right_iff.mpr (List.forall₂_iff_zip.mpr ⟨hlength, fun hmem => ?_⟩)
    obtain ⟨he, he'⟩ := List.of_mem_zip hmem
    have hrevised := hzip hmem
    refine hrevised.trans (hg _ (List.mem_append_left _ he') ?_)
    exact hrevised.id_eq ▸ List.mem_map_of_mem he
  · exact fun hnil => hne (by rw [hnil, List.map_nil])

end Grown

/-! ## Steps -/

/-- A store whose documents have ids of their own, and of which one collection has grown. -/
structure Growing (collection : String) (keys : String → Prop) (adds : Prop) (base : List Entry)
    (s : Store) : Prop where
  ids : (s.entries.map Entry.id).Nodup
  grown : Grown keys adds base (s.within collection)

/-- A step after which a collection has grown, whether it succeeds or not. -/
def Confined (collection : String) (keys : String → Prop) (adds : Prop) (base : List Entry)
    {α : Type} (x : Step State α) : Prop :=
  x.Preserves fun s => Growing collection keys adds base s.store

namespace Store

variable {s : Store} {collection other id : String} {f : Fields → Fields}

theorem change_ids (s : Store) (collection id : String) (f : Fields → Fields) :
    (s.change collection id f).entries.map Entry.id = s.entries.map Entry.id := by
  unfold change
  rw [List.map_map]
  refine List.map_congr_left fun e _ => ?_
  dsimp only [Function.comp]
  split <;> rfl

/-- A change of a document, seen in one collection. -/
theorem change_within (s : Store) (other id : String) (f : Fields → Fields) (collection : String) :
    (s.change other id f).within collection = (s.within collection).map fun e =>
      if e.isAt other id then { e with fields := f e.fields } else e := by
  unfold change within
  dsimp only
  rw [List.filter_map]
  refine congrArg (List.map _) (List.filter_congr fun e _ => ?_)
  dsimp only [Function.comp]
  split <;> rfl

end Store

section Writes

variable {c : String} {keys : String → Prop} {adds : Prop} {base : List Entry} {s : Store}
  {collection id : String}

theorem Growing.change (hs : Growing c keys adds base s) {f : Fields → Fields}
    (h : collection = c → ∀ e ∈ s.entries, e.isAt collection id → e.id ∈ base.map Entry.id →
      e.Revised keys { e with fields := f e.fields }) :
    Growing c keys adds base (s.change collection id f) := by
  refine ⟨(s.change_ids collection id f).symm ▸ hs.ids, ?_⟩
  rw [Store.change_within]
  refine hs.grown.map fun e he hbase => ?_
  obtain ⟨hmem, hc⟩ := List.mem_filter.mp he
  split
  · rename_i hat
    have hcollection : e.collection = collection := by
      simp only [Entry.isAt, Bool.and_eq_true, beq_iff_eq] at hat
      exact hat.1
    exact h (hcollection.symm.trans (of_decide_eq_true hc)) e hmem hat hbase
  · exact .refl keys e

/-- The only entry of an id in a collection is the one that is found. -/
theorem Store.find?_unique {e e' : Entry} (hids : (s.entries.map Entry.id).Nodup)
    (h : s.find? collection id = some e) (he' : e' ∈ s.entries) (hat : e'.isAt collection id) :
    e' = e := by
  obtain ⟨⟨-, hid⟩, -⟩ := Store.find?_some h
  refine List.inj_on_of_nodup_map hids he' (List.mem_of_find?_eq_some h) ?_
  simp only [Entry.isAt, Bool.and_eq_true, beq_iff_eq] at hat
  exact hat.2.trans hid.symm

namespace Confined

theorem update {changes : Fields} (h : collection = c → ∀ entry ∈ changes, keys entry.1) :
    Confined c keys adds base (State.onStore (Store.update collection id changes)) := by
  intro s hs
  unfold Step.Ends
  rw [State.onStore_eq, Store.update_eq]
  cases hfound : s.store.find? collection id with
  | none => exact hs
  | some e =>
    dsimp only
    refine hs.change fun hc e' he' hat _ => ?_
    rw [Store.find?_unique hs.ids hfound he' hat]
    refine ⟨Table.remove changes "id", fun entry hentry => ?_, rfl⟩
    exact h hc entry (List.mem_of_mem_filter hentry)

/-- Values are added to a set of a document that is not one of those from before. -/
theorem addToSet {field : String} {values : Value} (h : collection = c → id ∉ base.map Entry.id) :
    Confined c keys adds base (State.onStore (Store.addToSet collection id field values)) := by
  intro s hs
  unfold Step.Ends
  rw [State.onStore_eq, Store.addToSet_eq]
  cases s.store.find? collection id with
  | none => exact hs
  | some e =>
    dsimp only
    cases (Fields.get e.fields field).iterateGiven with
    | error fault => exact hs
    | ok items =>
      cases values.iterate with
      | error fault => exact hs
      | ok values =>
        dsimp only
        refine hs.change fun hc e' _ hat hbase => ?_
        simp only [Entry.isAt, Bool.and_eq_true, beq_iff_eq] at hat
        exact absurd (hat.2 ▸ hbase) (h hc)

theorem delete (h : collection ≠ c) :
    Confined c keys adds base (State.onStore (Store.delete collection id)) := by
  intro s hs
  unfold Step.Ends
  rw [State.onStore_eq, Store.delete_eq]
  cases s.store.find? collection id with
  | none => exact hs
  | some e =>
    refine ⟨(List.filter_sublist.map Entry.id).nodup hs.ids, ?_⟩
    have hsame : Store.within ⟨s.store.entries.filter fun e => !e.isAt collection id⟩ c =
        s.store.within c := by
      unfold Store.within
      rw [List.filter_filter]
      refine List.filter_congr fun e _ => ?_
      by_cases hc : e.collection = c
      · simp [hc, Entry.isAt, Ne.symm h]
      · simp [hc]
    show Grown keys adds base (Store.within _ c)
    rw [hsame]
    exact hs.grown

/-- A document is added under an id that none of those from before has. -/
theorem insert (h : collection = c → adds) (data : Fields) (s : State)
    (hs : Growing c keys adds base s.store) :
    (State.insert collection data).Ends s fun answer t => Growing c keys adds base t.store ∧
      ∀ stored, answer = .ok stored →
        collection = c → (Fields.get stored "id").display ∉ base.map Entry.id := by
  unfold Step.Ends
  rw [State.insert_eq]
  rcases idFor data s.ids with ⟨fault | id, ids⟩
  · exact ⟨hs, fun _ h => by cases h⟩
  dsimp only
  by_cases huses : s.store.uses id
  · rw [if_pos huses]
    exact ⟨hs, fun _ h => by cases h⟩
  rw [if_neg huses]
  have hnew := Store.uses_eq_false.mp (Bool.eq_false_iff.mpr huses)
  refine ⟨⟨?_, ?_⟩, fun stored hstored _ hmem => ?_⟩
  · rw [List.map_append, List.nodup_append]
    refine ⟨hs.ids, List.nodup_singleton _, fun a ha b hb => ?_⟩
    obtain ⟨e, he, rfl⟩ := List.mem_map.mp ha
    rw [List.mem_singleton.mp hb]
    exact hnew e he
  · show Grown keys adds base (List.filter _ (_ ++ _))
    rw [List.filter_append]
    by_cases hc : collection = c
    · rw [List.filter_cons_of_pos (by simpa using hc)]
      exact hs.grown.append (h hc) _
    · rw [List.filter_cons_of_neg (by simpa using hc), List.filter_nil, List.append_nil]
      exact hs.grown
  · cases hstored
    obtain ⟨e, he, hid⟩ := List.mem_map.mp (hs.grown.ids_prefix.subset hmem)
    rw [Entry.document, Fields.get_set_self] at hid
    exact hnew e (List.mem_of_mem_filter he) hid

end Confined

end Writes

section Operations

variable {r : Registry} {c : String} {keys : String → Prop} {adds : Prop} {base : List Entry}

/-! ## Operations -/

/-- Steps that leave the store alone are confined, and so are steps one after another. -/
theorem Confined.closed : Closed r (Confined c keys adds base) where
  pure := Step.Preserves.pure
  fail := Step.Preserves.fail
  bind := Step.Preserves.bind
  onIds _ _ hs := hs
  output _ _ _ hs := hs
  typeOf _ _ hs := hs
  readStore _ _ hs := hs
  findById _ _ _ hs := hs

theorem linkInline_confined {owner : Definition} {id : String} {part : Field × List Value}
    (h : owner.storedIn = c → id ∉ base.map Entry.id)
    (hitems : ∀ target, relationTarget r part.1 = .ok target → ∀ item ∈ part.2,
      Confined c keys adds base (createInline r target item)) :
    Confined c keys adds base (linkInline r owner id part) := by
  refine Step.Preserves.bind (.ofExcept _) fun target htarget => ?_
  refine Step.Preserves.bind (.each (hitems target htarget.ofExcept)) fun ids _ => ?_
  exact Step.Preserves.bind (Confined.addToSet h) fun _ _ => .pure ()

/-- A document that is added may go to the collection only if `adds` holds. Links go to the new
document, not to those from before. -/
theorem Confined.stores {d : Definition} (h : d.storedIn = c → adds) :
    Stores r (Confined c keys adds base) d := by
  intro data inline hitems α x hx s hs
  refine Step.Ends.bind (Confined.insert h data s hs) (fun stored t ht => ?_) fun _ _ ht => ht.1
  have hnew := ht.2 stored rfl
  exact Step.Preserves.bind (.each fun part hpart => linkInline_confined hnew (hitems part hpart))
    (fun _ _ => hx stored) t ht.1

/-! ## Hooks -/

/-- Whether a call of a store may write a collection. -/
def Request.writes (collection : String) : Request → Bool
  | .insert other _ => other == collection
  | .update other _ _ => other == collection
  | .addToSet other _ _ _ => other == collection
  | .delete other _ => other == collection
  | .dropAll => true
  | .findById .. | .find .. | .paginate .. | .createAll | .malformed _ => false

/-- No hook asks the store to write a collection. -/
def HookTable.Spares (hooks : HookTable) (collection : String) : Prop :=
  ∀ e ∈ hooks.entries, ∀ call ∈ e.handler.requests, call.writes collection = false

instance (hooks : HookTable) (collection : String) : Decidable (hooks.Spares collection) :=
  inferInstanceAs (Decidable
    (∀ e ∈ hooks.entries, ∀ call ∈ e.handler.requests, call.writes collection = false))

theorem Request.run_confined {call : Request} (h : call.writes c = false) :
    Confined c keys adds base call.run := by
  cases call with
  | insert collection data =>
    refine Step.Preserves.bind (.ofExcept _) fun fields _ => ?_
    refine Step.Preserves.bind (fun s hs => ?_) fun stored _ => .pure _
    refine (Confined.insert (fun hc => ?_) fields s hs).mono fun _ _ ht => ht.1
    exact absurd hc (by simpa [writes] using h)
  | findById collection id => exact Step.Preserves.bind (fun _ hs => hs) fun doc _ => .pure _
  | find collection query => exact Step.Preserves.bind (fun _ hs => hs) fun docs _ => .pure _
  | paginate collection query page limit =>
    exact Step.Preserves.bind (fun _ hs => hs) fun page _ => .pure _
  | update collection id changes =>
    have hother : collection ≠ c := by simpa [writes] using h
    cases changes with
    | record fields =>
      refine Step.Preserves.bind (Confined.update fun hc => absurd hc hother) fun doc _ => ?_
      exact Step.Preserves.pure _
    | _ => exact Step.Preserves.fail _
  | addToSet collection id field values =>
    have hother : collection ≠ c := by simpa [writes] using h
    exact Step.Preserves.bind (Confined.addToSet fun hc => absurd hc hother) fun doc _ => .pure _
  | delete collection id =>
    exact Step.Preserves.bind (Confined.delete (by simpa [writes] using h)) fun gone _ => .pure _
  | createAll => exact Step.Preserves.pure _
  | dropAll => cases h
  | malformed e => exact Step.Preserves.fail e

theorem dispatch_confined {hooks : HookTable} (h : hooks.Spares c) (d : Definition)
    (phase : HookPhase) (payload : Fields) :
    Confined c keys adds base (ModelOperations.dispatch ⟨r, hooks, d⟩ phase payload) := by
  have hclosed : Closed r (Confined c keys adds base) := Confined.closed
  refine hclosed.fold fun payload handler hhandler => ?_
  obtain ⟨e, he, rfl⟩ := List.mem_map.mp hhandler
  have hcalls := h e (List.mem_of_mem_filter he)
  refine hclosed.bind (hclosed.each fun call hcall => Request.run_confined (hcalls call hcall)) ?_
  refine fun _ _ => hclosed.bind (fun _ hs => hs) fun _ _ => ?_
  refine hclosed.bind (hclosed.ofExcept _) fun payload _ => ?_
  split
  · exact hclosed.fail _
  · exact hclosed.pure _

/-! ## Writes to the collection of a model -/

/-- An operation stores an embedded array of a model. -/
def Operation.Rewrites (op : Operation) (m : Definition) (f : Field) : Prop :=
  op.model = m.name ∧ ∃ api : EmbeddedApi, api.writes ∧ op.action = .embedded api f

/-- An operation creates documents of a model from which relations lead to another one. -/
def Operation.Cascades (op : Operation) (r : Registry) (m : Definition) : Prop :=
  op.action = .model .create ∧
    ∃ d, r.modelOf op.model = .ok d ∧ Relation.TransGen r.Points d m

theorem Registry.Named.of_modelOf {model : String} {d : Definition} (hr : r.Named)
    (h : r.modelOf model = .ok d) : d.name = model ∧ d ∈ r.registered :=
  hr.of_model? (model?_of_modelOf h)

theorem Registry.Points.registered {d target : Definition} (hr : r.Named)
    (h : r.Points d target) : target ∈ r.registered := by
  obtain ⟨declared, -, f, -, -, htarget⟩ := h
  unfold relationTarget at htarget
  split at htarget
  · exact (hr.of_modelOf htarget).2
  · cases htarget

/-- What an operation does to the collection of a model that no other model is kept in, when it is
none of the operations that create, update or remove the documents of the model. -/
theorem Operation.run_confined {m : Definition} {hooks : HookTable} {op : Operation} {ctx : Value}
    {args : Fields} (hr : r.Named)
    (halone : ∀ d ∈ r.registered, d.storedIn = m.storedIn → d = m)
    (hhooks : hooks.Spares m.storedIn)
    (hwrites : op.model = m.name → ∀ api ∈ [Api.create, .update, .remove], op.action ≠ .model api)
    (hkeys : ∀ f, op.Rewrites m f → keys f.name) (hadds : op.Cascades r m → adds) :
    Confined m.storedIn keys adds base (op.run r hooks ctx args) := by
  have hclosed : Closed r (Confined m.storedIn keys adds base) := Confined.closed
  refine run_closed hclosed ctx fun d hd => ?_
  obtain ⟨hname, hregistered⟩ := hr.of_modelOf hd
  have hother : ∀ api ∈ [Api.create, .update, .remove], op.action = .model api →
      d.storedIn ≠ m.storedIn := by
    intro api hapi haction hsame
    obtain rfl := halone d hregistered hsame
    exact hwrites hname.symm api hapi haction
  constructor
  case hooks => exact dispatch_confined hhooks d
  case stores =>
    intro haction
    refine ⟨Confined.stores fun hsame => absurd hsame (hother _ (by simp) haction), ?_⟩
    intro target htarget item
    -- every model on the way is one that relations lead to from the created one
    refine createInline_closed hclosed (Q := Relation.TransGen r.Points d) (fun next hnext => ?_)
      (fun _ _ => .tail) (.single htarget) item
    refine Confined.stores fun hsame => hadds ⟨haction, d, hd, ?_⟩
    obtain ⟨last, -, hpoints⟩ := Relation.TransGen.tail'_iff.mp hnext
    exact halone next (hpoints.registered hr) hsame ▸ hnext
  case update =>
    intro haction data _ changes
    exact Confined.update fun hsame => absurd hsame (hother _ (by simp) haction)
  case delete => exact fun haction => Confined.delete (hother _ (by simp) haction)
  case save =>
    intro api f haction hapi items
    refine Confined.update fun hsame entry hentry => ?_
    rw [List.mem_singleton.mp hentry]
    obtain rfl := halone d hregistered hsame
    exact hkeys f ⟨hname.symm, api, hapi, haction⟩

end Operations

end DocumentApi
