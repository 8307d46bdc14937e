import DocumentApi.Proofs.Operations.ElementIds
import DocumentApi.Proofs.Operations.Refusals

/-!
# When an operation of an embedded array is refused

* `EmbeddedOperations.runEmbedded_refused`: an operation that is refused has changed nothing, unless it
  is an update that has lost the id of its element.
* `EmbeddedOperations.runEmbedded_refuses`, `EmbeddedOperations.runEmbedded_loses`: each of the reasons
  refuses it.
* `Operation.run_refused_iff`: the reasons for which an operation of an api is refused.
* `run_renameItem`: an update that is refused for an item that it has stored.
-/

namespace DocumentApi

/-! ## Operations of an embedded array -/

namespace EmbeddedOperations

open ModelOperations (ofExcept_of_ok)

section Steps

variable {m : EmbeddedOperations} {β : Type} {s t : State} {e : Error} {parentId : Value}

theorem shape_grants (m : EmbeddedOperations) (item : Fields) : (m.shape item).Grants :=
  .zoom (toOutput_grants m.registry _ _)

theorem items_unrefused (m : EmbeddedOperations) (parent : Fields) :
    Unrefused (m.items parent) :=
  (Value.iterateGiven_unrefused _).bind fun items _ => .mapM Value.toFields_unrefused items

theorem withIds_grants (m : EmbeddedOperations) (item : Fields) : (m.withIds item).Grants :=
  .zoom (assignIds_grants m.registry _ _)

theorem loadParent_missing
    (hmissing : s.store.find? m.parent.storedIn parentId.display = none)
    (f : Fields → Step State β) :
    (m.loadParent parentId >>= f) s = (.error (.documentMissing m.parent.name parentId), s) :=
  ModelOperations.load_missing (m := ⟨m.registry, {}, m.parent⟩) hmissing f

theorem loadParent_refused {f : Fields → Step State β}
    (h : (m.loadParent parentId >>= f) s = (.error e, t)) :
    (s.store.find? m.parent.storedIn parentId.display = none ∧
      e = .documentMissing m.parent.name parentId ∧ t = s) ∨
    ∃ entry, s.store.find? m.parent.storedIn parentId.display = some entry ∧
      f entry.document s = (.error e, t) :=
  ModelOperations.load_refused (m := ⟨m.registry, {}, m.parent⟩) h

theorem loadParent_not_refused {f : Fields → Step State β}
    (h : (m.loadParent parentId >>= f) s = (.error e, t)) (he : e.refuses)
    (hstored : Stored m.parent.storedIn parentId.display s) : ¬ ∀ doc, (f doc).Grants :=
  ModelOperations.load_not_refused (m := ⟨m.registry, {}, m.parent⟩) h he hstored

theorem readItems_refused {f : List Fields → Step State β}
    (h : (m.loadParent parentId >>= fun doc => Step.ofExcept (m.items doc) >>= f) s =
      (.error e, t)) (he : e.refuses) :
    (s.store.find? m.parent.storedIn parentId.display = none ∧
      e = .documentMissing m.parent.name parentId ∧ t = s) ∨
    ∃ items, m.Holds parentId s.store items ∧ f items s = (.error e, t) := by
  rcases loadParent_refused h with hmissing | ⟨entry, hfound, h⟩
  · exact Or.inl hmissing
  · obtain ⟨items, hitems, h⟩ := Step.Grants.of_ofExcept_bind (m.items_unrefused _) h he
    exact Or.inr ⟨items, ⟨entry, hfound, hitems⟩, h⟩

theorem Holds.stored {items : List Fields} (h : m.Holds parentId s.store items) :
    Stored m.parent.storedIn parentId.display s := by
  obtain ⟨entry, hfound, -⟩ := h
  unfold Stored
  rw [hfound]
  rfl

/-- An array is saved in a parent document that is there, and the document stays there. -/
theorem Holds.save {old : List Fields} (hold : m.Holds parentId s.store old) (new : List Fields) :
    ∃ saved u, m.save parentId new s = (.ok saved, u) ∧
      Stored m.parent.storedIn parentId.display u ∧ (saved = new ∨ old = [] ∧ saved = []) := by
  have hstored := hold.stored
  obtain ⟨entry, hfound, hitems⟩ := hold
  obtain ⟨saved, hsaved, hcases⟩ := items_saved hitems new
  refine ⟨saved, _, by rw [save_eq hfound, hsaved], ?_, hcases⟩
  exact (Store.find?_change_isSome ..).mpr hstored

theorem mergeItems_grants (m : EmbeddedOperations) (existing : Table Fields)
    (payload : List Fields) : (m.mergeItems existing payload).Grants := by
  induction payload generalizing existing with
  | nil => exact .pure []
  | cons item payload ih =>
    unfold mergeItems
    split
    · exact .fail rfl
    · refine .bind (m.withIds_grants _) fun merged _ => ?_
      exact .bind (ih _) fun rest _ => .pure _

theorem changeFirst_grants (id : String) {change : Fields → Step State Fields}
    (h : ∀ item, (change item).Grants) (items : List Fields) :
    (changeFirst id change items).Grants := by
  induction items with
  | nil => exact .pure none
  | cons item items ih =>
    unfold changeFirst
    split
    · exact .bind (h item) fun changed _ => .pure _
    · exact .bind ih fun rest _ => .pure _

/-- Nothing is changed among elements of which none has the id. -/
theorem changeFirst_none_iff {id : String} {change : Fields → Step State Fields}
    {items : List Fields} :
    changeFirst id change items s = (.ok none, t) ↔ t = s ∧ ∀ item ∈ items, idOf item ≠ id := by
  induction items with
  | nil =>
    constructor
    · intro h
      cases h
      exact ⟨rfl, fun item hitem => absurd hitem List.not_mem_nil⟩
    · rintro ⟨rfl, -⟩
      rfl
  | cons item items ih =>
    unfold changeFirst
    rw [List.forall_mem_cons]
    by_cases hid : hasId id item
    · rw [if_pos hid]
      constructor
      · intro h
        obtain ⟨changed, u, -, h⟩ := Step.bind_ok h
        cases h
      · rintro ⟨-, hother, -⟩
        exact absurd (hasId_iff.mp hid) hother
    · rw [if_neg hid]
      constructor
      · intro h
        obtain ⟨rest?, u, hrest, h⟩ := Step.bind_ok h
        cases rest? with
        | none =>
          cases h
          obtain ⟨rfl, hnone⟩ := ih.mp hrest
          exact ⟨rfl, fun hsame => hid (hasId_iff.mpr hsame), hnone⟩
        | some rest => cases h
      · rintro ⟨rfl, -, hnone⟩
        rw [Step.bind_of_ok (ih.mpr ⟨rfl, hnone⟩)]
        rfl

theorem has_byId_iff {items : List Fields} {key : String} :
    Table.has (byId items) key ↔ ∃ item ∈ items, idOf item = key := by
  constructor
  · intro h
    obtain ⟨item, hitem⟩ := Option.isSome_iff_exists.mp h
    exact ⟨item, byId_mem hitem⟩
  · rintro ⟨item, hitem, rfl⟩
    by_contra hnone
    have hnone : Table.find? (byId items) (idOf item) = none := by simpa [Table.has] using hnone
    unfold byId Table.ofPairs at hnone
    rw [Table.find?_merge, Table.find?_nil, Option.orElse_eq_orElse, Option.orElse_eq_or,
      Option.or_none, Table.find?_eq_none_iff] at hnone
    refine hnone (List.mem_map.mpr ⟨(idOf item, item), ?_, rfl⟩)
    exact List.mem_reverse.mpr (List.mem_map_of_mem hitem)

end Steps

variable {r : Registry} {d : Definition} {f : Field} {s t : State} {e : Error} {args : Fields}
  {api : EmbeddedApi} {c : ArrayChange}

/-- An operation that is refused while it makes an array has changed nothing yet. -/
theorem make_refused (hc : change? ⟨r, d, f⟩ args api = some c) (h : c.make s = (.error e, t))
    (he : e.refuses) : t = s ∧ Refuses r d args s.store (.embedded api f) e := by
  cases api with
  | create =>
    cases hc
    rcases loadParent_refused h with ⟨hmissing, rfl, rfl⟩ | ⟨entry, -, h⟩
    · exact ⟨rfl, .parentMissing (fun hapi => by cases hapi) hmissing⟩
    · refine absurd h (Step.Grants.not_error ?_ he)
      refine .bind (.ofExcept (Value.asFields_unrefused _)) fun given _ => ?_
      refine .bind (.zoom IdSource.draw_grants) fun id _ => ?_
      refine .bind (withIds_grants _ _) fun item _ => ?_
      exact .bind (.ofExcept (items_unrefused _ _)) fun items _ => .pure _
  | bulkUpdate =>
    cases hc
    rcases readItems_refused h he with ⟨hmissing, rfl, rfl⟩ | ⟨items, hholds, h⟩
    · exact ⟨rfl, .parentMissing (fun hapi => by cases hapi) hmissing⟩
    have hread : Unrefused (do
        (← (Fields.get args "input").iterateGiven).mapM Value.asFields) :=
      (Value.iterateGiven_unrefused _).bind fun values _ => .mapM Value.asFields_unrefused values
    obtain ⟨payload, hpayload, h⟩ := Step.Grants.of_ofExcept_bind hread h he
    obtain ⟨values, hvalues, hpayload⟩ := exceptBind_ok hpayload
    cases hmissing : payload.find? fun item =>
        !Table.has (byId items) (Fields.get item "id").display with
    | none =>
      rw [hmissing] at h
      exact absurd h ((mergeItems_grants _ _ _).not_error he)
    | some item =>
      rw [hmissing] at h
      cases h
      obtain ⟨hnone, before, after, rfl, hbefore⟩ := List.find?_eq_some_iff_append.mp hmissing
      refine ⟨rfl, .itemMissing hholds hvalues hpayload (fun other hother => ?_) ?_⟩
      · exact has_byId_iff.mp (by simpa [idOf] using hbefore other hother)
      · intro named hnamed hsame
        rw [show Table.has (byId items) (Fields.get item "id").display = true from
          has_byId_iff.mpr ⟨named, hnamed, hsame⟩] at hnone
        cases hnone
  | updateOne =>
    cases hc
    rcases readItems_refused h he with ⟨hmissing, rfl, rfl⟩ | ⟨items, hholds, h⟩
    · exact ⟨rfl, .parentMissing (fun hapi => by cases hapi) hmissing⟩
    obtain ⟨given, -, h⟩ := Step.Grants.of_ofExcept_bind (Value.asFields_unrefused _) h he
    obtain ⟨changed?, u, hchange, h⟩ :=
      (changeFirst_grants _ (fun item => withIds_grants _ _) items).of_bind h he
    cases changed? with
    | none =>
      cases h
      obtain ⟨rfl, hmissing⟩ := changeFirst_none_iff.mp hchange
      exact ⟨rfl, .elementMissing (Or.inr rfl) hholds hmissing⟩
    | some changed => cases h
  | remove =>
    cases hc
    obtain ⟨values, hvalues, h⟩ :=
      Step.Grants.of_ofExcept_bind (Value.iterateGiven_unrefused _) h he
    dsimp only at h
    split at h
    · rename_i hempty
      cases h
      refine ⟨rfl, .idsMissing ?_⟩
      by_contra hgiven
      refine Value.items_ne_nil (by simpa using hgiven) hvalues ?_
      simpa using hempty
    · rename_i hsome
      rcases readItems_refused h he with ⟨hmissing, rfl, rfl⟩ | ⟨items, hholds, h⟩
      · refine ⟨rfl, .parentMissing (fun _ => ?_) hmissing⟩
        by_contra hgiven
        unfold Value.iterateGiven at hvalues
        rw [if_neg hgiven] at hvalues
        cases hvalues
        exact hsome rfl
      · cases h
  | getOne | getAll => cases hc

/-- Once an array is saved, only an update can be refused, which has lost the id of its element. -/
theorem answer_refused (hc : change? ⟨r, d, f⟩ args api = some c) {saved : List Fields}
    (hstored : Stored d.storedIn (Fields.get args "parent_id").display s)
    (h : c.answer saved s = (.error e, t)) (he : e.refuses) :
    api = .updateOne ∧ (∀ item ∈ saved, idOf item ≠ (Fields.get args "id").display) ∧
      e = notFound ⟨r, d, f⟩ (Fields.get args "id") (Fields.get args "parent_id") := by
  cases api with
  | create =>
    cases hc
    refine (loadParent_not_refused h he hstored fun doc => ?_).elim
    refine .bind (.ofExcept (items_unrefused _ doc)) fun items _ => ?_
    split
    · exact shape_grants _ _
    · exact .fail rfl
  | bulkUpdate =>
    cases hc
    refine (loadParent_not_refused h he hstored fun doc => ?_).elim
    refine .bind (.ofExcept (items_unrefused _ doc)) fun items _ => ?_
    exact .bind (.each fun item _ => shape_grants _ item) fun shown _ => .pure _
  | updateOne =>
    cases hc
    unfold updateOneChange at h
    dsimp only at h
    cases hfound : saved.find? (hasId (Fields.get args "id").display) with
    | some item =>
      rw [hfound] at h
      exact absurd h ((shape_grants _ item).not_error he)
    | none =>
      rw [hfound] at h
      cases h
      refine ⟨rfl, fun item hitem hsame => ?_, rfl⟩
      exact List.find?_eq_none.mp hfound item hitem (hasId_iff.mpr hsame)
  | remove => cases hc; cases h
  | getOne | getAll => cases hc

/-- An operation of an embedded array that is refused has changed nothing, unless it is an update that
has lost the id of its element. -/
theorem runEmbedded_refused (hr : r.Distinct)
    (h : Operation.runEmbedded ⟨r, d, f⟩ api args s = (.error e, t)) (he : e.refuses) :
    (t = s ∧ Refuses r d args s.store (.embedded api f) e) ∨ Loses r d args s (.embedded api f) e := by
  cases hapi : change? ⟨r, d, f⟩ args api with
  | none =>
    left
    cases api with
    | getOne =>
      rcases readItems_refused h he with ⟨hmissing, rfl, rfl⟩ | ⟨items, hholds, h⟩
      · exact ⟨rfl, .parentMissing (fun hapi => by cases hapi) hmissing⟩
      cases hfound : items.find? (hasId (Fields.get args "id").display) with
      | some item =>
        rw [hfound] at h
        exact absurd h ((shape_grants _ item).not_error he)
      | none =>
        rw [hfound] at h
        cases h
        refine ⟨rfl, .elementMissing (Or.inl rfl) hholds fun item hitem hsame => ?_⟩
        exact List.find?_eq_none.mp hfound item hitem (hasId_iff.mpr hsame)
    | getAll =>
      rcases readItems_refused h he with ⟨hmissing, rfl, rfl⟩ | ⟨items, -, h⟩
      · exact ⟨rfl, .parentMissing (fun hapi => by cases hapi) hmissing⟩
      · refine absurd h (Step.Grants.not_error ?_ he)
        exact .bind (.each fun item _ => shape_grants _ item) fun shown _ => .pure _
    | _ => cases hapi
  | some c =>
    rw [runEmbedded_change hapi, Step.bind_run] at h
    rcases hmake : c.make s with ⟨e' | new, u⟩
    · rw [hmake] at h
      cases h
      exact Or.inl (make_refused hapi hmake he)
    · right
      rw [hmake] at h
      dsimp only at h
      obtain ⟨old, hold, hmakes⟩ := make_makes hr hapi hmake
      have hstore := (make_spares hapi).eq hmake
      obtain ⟨saved, v, hsave, hstored, hsaved⟩ := Holds.save (hstore.symm ▸ hold) new
      rw [Step.bind_of_ok hsave] at h
      obtain ⟨rfl, hlost, rfl⟩ := answer_refused hapi hstored h he
      refine .update hold hmakes ?_
      rcases hsaved with rfl | ⟨hnone, -⟩
      · exact hlost
      · rcases hmakes.eq_nil hnone with hapi | rfl
        · cases hapi
        · exact fun item hitem => absurd hitem List.not_mem_nil

theorem changeFirst_eq {id : String} {change : Fields → Step State Fields}
    {before after : List Fields} {item changed : Fields} (hid : idOf item = id)
    (hfirst : ∀ other ∈ before, idOf other ≠ id) (hchange : change item s = (.ok changed, t)) :
    changeFirst id change (before ++ item :: after) s =
      (.ok (some (before ++ changed :: after)), t) := by
  induction before with
  | nil =>
    rw [List.nil_append, changeFirst, if_pos (hasId_iff.mpr hid), Step.bind_of_ok hchange]
    rfl
  | cons other before ih =>
    have hother := hfirst other List.mem_cons_self
    rw [List.cons_append, changeFirst, if_neg fun hsame => hother (hasId_iff.mp hsame),
      Step.bind_of_ok (ih fun other hmem => hfirst other (List.mem_cons_of_mem _ hmem))]
    rfl

/-- On well-formed arguments each of the reasons refuses an operation of an embedded array. -/
theorem runEmbedded_refuses (hargs : (OperationAction.embedded api f).WellFormed args)
    (h : Refuses r d args s.store (.embedded api f) e) :
    Operation.runEmbedded ⟨r, d, f⟩ api args s = (.error e, s) := by
  cases h with
  | parentMissing hids hmissing =>
    cases api with
    | remove =>
      obtain ⟨values, hvalues⟩ := hargs
      have hsome := Value.items_ne_nil (hids rfl) hvalues
      unfold Operation.runEmbedded remove
      dsimp only
      rw [ofExcept_of_ok hvalues, pure_bind, if_neg (by simpa using hsome)]
      exact loadParent_missing (m := ⟨r, d, f⟩) hmissing _
    | create | bulkUpdate | updateOne | getOne | getAll =>
      exact loadParent_missing (m := ⟨r, d, f⟩) hmissing _
  | elementMissing hapi hholds hmissing =>
    rcases hapi with rfl | rfl
    · refine (readItems_eq (m := ⟨r, d, f⟩) hholds _).trans ?_
      rw [List.find?_eq_none.mpr fun item hitem hsame => hmissing item hitem (hasId_iff.mp hsame)]
      rfl
    · obtain ⟨given, hgiven⟩ := hargs
      refine (readItems_eq (m := ⟨r, d, f⟩) hholds _).trans ?_
      rw [ofExcept_of_ok hgiven, pure_bind,
        Step.bind_of_ok (changeFirst_none_iff.mpr ⟨rfl, hmissing⟩)]
      rfl
  | @itemMissing _ items before after item values hholds hvalues hpayload hbefore hmissing =>
    have hread : (do (← (Fields.get args "input").iterateGiven).mapM Value.asFields) =
        Except.ok (before ++ item :: after) := by
      rw [hvalues]
      exact hpayload
    have hfirst : (before ++ item :: after).find? (fun item =>
        !Table.has (byId items) (Fields.get item "id").display) = some item := by
      refine List.find?_eq_some_iff_append.mpr ⟨?_, before, after, rfl, fun other hother => ?_⟩
      · rw [Bool.not_eq_true', ← Bool.not_eq_true]
        intro hhas
        obtain ⟨named, hnamed, hsame⟩ := has_byId_iff.mp hhas
        exact hmissing named hnamed hsame
      · rw [Bool.not_not]
        exact has_byId_iff.mpr (hbefore other hother)
    refine (readItems_eq (m := ⟨r, d, f⟩) hholds _).trans ?_
    rw [ofExcept_of_ok hread, pure_bind, hfirst]
    rfl
  | idsMissing hids =>
    have hnone : (Fields.get args "ids").iterateGiven = .ok [] := by
      unfold Value.iterateGiven
      rw [if_neg (by simp [hids])]
    unfold Operation.runEmbedded remove
    dsimp only
    rw [ofExcept_of_ok hnone, pure_bind]
    rfl

/-- An update that loses the id of its element has stored the element and is refused. -/
theorem runEmbedded_loses (h : Loses r d args s (.embedded api f) e) :
    ∃ t, Operation.runEmbedded ⟨r, d, f⟩ api args s = (.error e, t) := by
  cases h with
  | update hholds hmakes hlost =>
  cases hmakes with
  | @updateOne given item changed before after hgiven hold hid hfirst hchanged hkept hran =>
  subst hold
  obtain ⟨rest, hran⟩ := hran
  have hchange : withIds ⟨r, d, f⟩ (Table.merge item (Table.remove given "id")) s =
      (.ok changed, { s with ids := rest }) := by
    unfold withIds State.onIds Step.zoom
    dsimp only
    rw [hran]
  obtain ⟨saved, u, hsave, -, hsaved⟩ := Holds.save (s := { s with ids := rest }) hholds
    (before ++ changed :: after)
  obtain rfl : saved = before ++ changed :: after :=
    hsaved.resolve_right fun hnone => by simp at hnone
  refine ⟨u, (readItems_eq (m := ⟨r, d, f⟩) hholds _).trans ?_⟩
  rw [ofExcept_of_ok hgiven, pure_bind]
  refine (Step.bind_of_ok (changeFirst_eq hid hfirst hchange)).trans ?_
  refine (Step.bind_of_ok hsave).trans ?_
  rw [List.find?_eq_none.mpr fun item hitem hsame => hlost item hitem (hasId_iff.mp hsame)]
  rfl

end EmbeddedOperations

/-- Only an element whose id is itself an embedded document can lose it. -/
theorem Loses.not_plainId {r : Registry} {d : Definition} {f : Field} {s : State} {args : Fields}
    {api : EmbeddedApi} {e : Error} (h : Loses r d args s (.embedded api f) e) :
    ¬ EmbeddedOperations.PlainId ⟨r, d, f⟩ := by
  intro hplain
  cases h with
  | update hholds hmakes hlost =>
  cases hmakes with
  | updateOne hgiven hold hid hfirst hchanged hkept hran =>
  exact hlost _ (by simp) ((hkept hplain).trans hid)

/-! ## Operations of an api -/

theorem Refuses.refuses {r : Registry} {d : Definition} {args : Fields} {store : Store}
    {action : OperationAction} {e : Error} (h : Refuses r d args store action e) : e.refuses := by
  cases h <;> rfl

theorem Operation.run_model {r : Registry} {hooks : HookTable} {d : Definition} {op : Operation}
    {api : Api} {ctx : Value} {args : Fields} (hd : r.modelOf op.model = .ok d)
    (haction : op.action = .model api) :
    op.run r hooks ctx args = runModel ⟨r, hooks, d⟩ api ctx args := by
  unfold Operation.run
  rw [ModelOperations.ofExcept_of_ok hd, haction]
  exact pure_bind d _

theorem Operation.run_embedded {r : Registry} {hooks : HookTable} {d : Definition}
    {op : Operation} {api : EmbeddedApi} {f : Field} {ctx : Value} {args : Fields}
    (hd : r.modelOf op.model = .ok d) (haction : op.action = .embedded api f) :
    op.run r hooks ctx args = runEmbedded ⟨r, d, f⟩ api args := by
  unfold Operation.run
  rw [ModelOperations.ofExcept_of_ok hd, haction]
  exact pure_bind d _

/-- Without hooks, an operation that is refused has changed nothing, and on well-formed arguments it
is refused for the reasons of `Refuses` and for no other. The exception is an update of an element
whose id is itself an embedded document: it gains an id of its own, so that the element is stored
and then not found. -/
theorem Operation.run_refused_iff {r : Registry} {d : Definition} {op : Operation} {s : State}
    {args : Fields} (hr : r.Reachable) (hd : r.modelOf op.model = .ok d) (ctx : Value) :
    (∀ e t, op.run r {} ctx args s = (.error e, t) → e.refuses →
      t = s ∨ Loses r d args s op.action e) ∧
    (∀ f e, op.action = .embedded .updateOne f → Loses r d args s op.action e →
      ¬ EmbeddedOperations.PlainId ⟨r, d, f⟩) ∧
    (op.action.WellFormed args → ∀ e, (e.refuses ∧ ∃ t, op.run r {} ctx args s = (.error e, t)) ↔
      Refuses r d args s.store op.action e ∨ Loses r d args s op.action e) := by
  obtain ⟨-, hmem⟩ := hr.named.of_model? (Registry.model?_of_modelOf hd)
  cases haction : op.action with
  | model api =>
    rw [Operation.run_model hd haction]
    refine ⟨fun e t h he => Or.inl (ModelOperations.runModel_refusal h he).1, ?_, ?_⟩
    · intro f e h
      cases h
    intro hargs e
    constructor
    · rintro ⟨he, t, h⟩
      exact Or.inl ((ModelOperations.runModel_refusal h he).2 hargs)
    · rintro (h | h)
      · exact ⟨h.refuses, s, ModelOperations.runModel_refuses hr.named hmem hargs h⟩
      · cases h
  | embedded api f =>
    rw [Operation.run_embedded hd haction]
    refine ⟨fun e t h he => ?_, ?_, fun hargs e => ⟨?_, ?_⟩⟩
    · exact (EmbeddedOperations.runEmbedded_refused hr.distinct h he).imp_left And.left
    · rintro _ e ⟨⟩ h
      exact h.not_plainId
    · rintro ⟨he, t, h⟩
      exact (EmbeddedOperations.runEmbedded_refused hr.distinct h he).imp_left And.right
    · rintro (h | h)
      · exact ⟨h.refuses, s, EmbeddedOperations.runEmbedded_refuses hargs h⟩
      · exact ⟨by cases h; rfl, EmbeddedOperations.runEmbedded_loses h⟩

/-! ## A line that there is not -/

/-- The update of one line of an order. -/
def updateLine : Operation where
  name := "updateOrderLine"
  kind := .mutation
  model := "Order"
  action := .embedded .updateOne orderLines.field
  returns := .model ⟨"Line", .output⟩
  args := [("orderId", .scalar .id), ("id", .scalar .id), ("input", .model ⟨"Line", .update⟩)]
  params := [("orderId", "parent_id")]

/-- A change of a third line. -/
def threeOfThird : Fields :=
  [("parent_id", .text "o1"), ("id", .text "l3"), ("input", .record [("count", .int 3)])]

/-- The third line is not there, and nothing is changed. -/
theorem run_threeOfThird : orderModels.Reachable ∧
    orderModels.modelOf updateLine.model = .ok orderModel ∧
    updateLine.action.WellFormed threeOfThird ∧ ∃ e,
      updateLine.run orderModels {} .null threeOfThird lineState = (.error e, lineState) ∧
      e.message? = some "No Line found with ID: l3 in Order with ID: o1" := by
  have hargs : updateLine.action.WellFormed threeOfThird := ⟨_, rfl⟩
  have hmissing : Refuses orderModels orderModel threeOfThird lineState.store updateLine.action
      (EmbeddedOperations.notFound orderLines (.text "l3") (.text "o1")) :=
    .elementMissing (Or.inr rfl) lineState_holds (by decide)
  obtain ⟨hkept, hplain, hiff⟩ := @Operation.run_refused_iff orderModels orderModel updateLine
    lineState threeOfThird orderModels_reachable rfl .null
  obtain ⟨he, t, hrun⟩ := (hiff hargs _).mpr (Or.inl hmissing)
  refine ⟨orderModels_reachable, rfl, hargs,
    EmbeddedOperations.notFound orderLines (.text "l3") (.text "o1"), ?_, rfl⟩
  rcases hkept _ t hrun he with hsame | hloses
  · exact hsame ▸ hrun
  · exact absurd orderLines_plainId (hplain _ _ rfl hloses)

/-! ## Items with keys for ids -/

def keyModel : Definition :=
  ⟨"Key", [{ name := "a" }], .all, false, "", true, none⟩

/-- The id of an item, which is a key and is not shown. -/
def itemId : Field where
  name := "id"
  storageType := "object"
  embedding := some (.named "Key")
  excludedOnOutput := true

def keyedItemModel : Definition :=
  ⟨"Item", [itemId, { name := "name" }], .all, false, "", true, none⟩

/-- The items of boxes. -/
def keyedItems : Field :=
  { name := "items", storageType := "array", embedding := some (.named "Item"), many := true }

def keyedBoxModel : Definition :=
  ⟨"Box", [{ name := "label" }, keyedItems], .all, false, "", false, none⟩

def keyedBoxes : Registry where
  definitions := [keyModel, keyedItemModel, keyedBoxModel]
  models := [("Key", ⟨0, keyModel.declaredFields⟩), ("Item", ⟨1, keyedItemModel.declaredFields⟩),
    ("Box", ⟨2, keyedBoxModel.declaredFields⟩)]

theorem keyedBoxes_reachable : keyedBoxes.Reachable := by
  have hdefined := Registry.Reachable.defined keyedBoxes.definitions
  exact ((hdefined.registered 0 rfl).registered 1 rfl).registered 2 rfl

/-- A box with an item, and a box whose only item is a number. -/
def keyedBoxState : State where
  types := (buildAll keyedBoxes {}).2
  store := ⟨[⟨"Box", "b1", [("label", .text "Left"),
      ("items", .list [.record [("id", .record [("a", .text "x")]), ("name", .text "n")]])]⟩,
    ⟨"Box", "b2", [("label", .text "Right"), ("items", .list [.int 7])]⟩]⟩

/-- Another name for the item. -/
def renameItem : Fields :=
  [("parent_id", .text "b1"), ("id", .text "\x7b'a': 'x'\x7d"), ("input", .record [("name", .text "m")])]

/-- An item of the other box. -/
def ninthItem : Fields :=
  [("parent_id", .text "b2"), ("id", .text "i9")]

/-- The update of one item of a box. -/
def updateItem : Operation where
  name := "updateBoxItem"
  kind := .mutation
  model := "Box"
  action := .embedded .updateOne keyedItems
  returns := .model ⟨"Item", .output⟩
  args := [("boxId", .scalar .id), ("id", .scalar .id), ("input", .model ⟨"Item", .update⟩)]
  params := [("boxId", "parent_id")]

/-- One item of a box. -/
def findItem : Operation where
  name := "boxItem"
  kind := .query
  model := "Box"
  action := .embedded .getOne keyedItems
  returns := .model ⟨"Item", .output⟩
  args := [("boxId", .scalar .id), ("id", .scalar .id)]
  params := [("boxId", "parent_id")]

/-- The item gets another name, and its key gets an id: the item is stored and then not found. An
item of the box that holds a number is not reported as missing. -/
theorem run_renameItem : keyedBoxes.Reachable ∧ updateItem.action.WellFormed renameItem ∧
    findItem.action.WellFormed ninthItem ∧
    (∃ e t, updateItem.run keyedBoxes {} .null renameItem keyedBoxState = (.error e, t) ∧
      e.refuses ∧
      e.message? = some "No Item found with ID: \x7b'a': 'x'\x7d in Box with ID: b1" ∧
      t.store ≠ keyedBoxState.store) ∧
    findItem.run keyedBoxes {} .null ninthItem keyedBoxState = (.error .wrongKind, keyedBoxState) ∧
    Error.refuses .wrongKind = false := by
  refine ⟨keyedBoxes_reachable, ⟨_, rfl⟩, trivial, ⟨_, _, rfl, rfl, rfl, fun hsame => ?_⟩, rfl, rfl⟩
  have hshown := congrArg (fun store =>
    (store.find? "Box" "b1").map fun e => (Fields.get e.fields "items").display) hsame
  exact absurd hshown (by decide +kernel)

end DocumentApi
