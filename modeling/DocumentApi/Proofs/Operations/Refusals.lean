import DocumentApi.Proofs.Operations.ArrayEdits
import DocumentApi.Proofs.Operations.Granting
import DocumentApi.Proofs.Store.Planning

/-!
# When an operation is refused

An operation is refused when what it asks for is not there or an argument of it is not valid.

* `Refuses`: the reasons for which an operation without hooks is refused, each with its error.
* `Loses`: an update of an element that takes the id from it by which it was found.
* `ModelOperations.runModel_refusal`: an operation of a model that is refused has changed nothing,
  and on well-formed arguments it has one of the reasons.
* `ModelOperations.runModel_refuses`: each of the reasons refuses it.
-/

namespace DocumentApi

/-! ## Reasons -/

/-- The id by which an operation addresses a document of its model. -/
inductive Addresses (args : Fields) : Api → Value → Prop
  | update {data : Fields} (hinput : (Fields.get args "input").asFields = .ok data)
      (hid : (Fields.get data "id").truthy) : Addresses args .update (Fields.get data "id")
  | remove : Addresses args .remove (Fields.get args "id")
  | findOne : Addresses args .findOne (Fields.get args "id")

/-- The first condition of a filter whose operator there is not. -/
def FirstUnknown (filter : Value) (c : NamedCondition) : Prop :=
  ∃ fields named, filter.asFilter = .ok fields ∧ namedConditions (.record fields) = .ok named ∧
    named.find? NamedCondition.isUnknown = some c

/-- Why an operation without hooks is refused, and by which error. -/
inductive Refuses (r : Registry) (d : Definition) (args : Fields) (store : Store) :
    OperationAction → Error → Prop
  | idMissing {data : Fields} (hinput : (Fields.get args "input").asFields = .ok data)
      (hid : (Fields.get data "id").truthy = false) :
    Refuses r d args store (.model .update) (.idRequired d.name)
  | documentMissing {api : Api} {id : Value} (haddressed : Addresses args api id)
      (hmissing : store.find? d.storedIn id.display = none) :
    Refuses r d args store (.model api) (.documentMissing d.name id)
  | pageTooSmall {page : Int} (hpage : Fields.get args "page" = .int page) (hsmall : page < 1) :
    Refuses r d args store (.model .paginate) (.pageTooSmall (.int page))
  | limitTooSmall {page limit : Int} (hpage : Fields.get args "page" = .int page)
      (hpositive : 1 ≤ page) (hlimit : Fields.get args "limit" = .int limit) (hsmall : limit < 1) :
    Refuses r d args store (.model .paginate) (.limitTooSmall (.int limit))
  | operatorUnknown {c : NamedCondition} (hfirst : FirstUnknown (Fields.get args "filter") c) :
    Refuses r d args store (.model .findAll) (.filterOperatorUnknown c.operator c.key)
  | operatorUnknownInPage {page limit : Int} {c : NamedCondition}
      (hpage : Fields.get args "page" = .int page) (hpositive : 1 ≤ page)
      (hlimit : Fields.get args "limit" = .int limit) (hpositive' : 1 ≤ limit)
      (hfirst : FirstUnknown (Fields.get args "filter") c) :
    Refuses r d args store (.model .paginate) (.filterOperatorUnknown c.operator c.key)
  | parentMissing {api : EmbeddedApi} {f : Field}
      (hids : api = .remove → (Fields.get args "ids").truthy)
      (hmissing : store.find? d.storedIn (Fields.get args "parent_id").display = none) :
    Refuses r d args store (.embedded api f) (.documentMissing d.name (Fields.get args "parent_id"))
  | elementMissing {api : EmbeddedApi} {f : Field} {items : List Fields}
      (hapi : api = .getOne ∨ api = .updateOne)
      (hholds : EmbeddedOperations.Holds ⟨r, d, f⟩ (Fields.get args "parent_id") store items)
      (hmissing : ∀ item ∈ items, idOf item ≠ (Fields.get args "id").display) :
    Refuses r d args store (.embedded api f) (EmbeddedOperations.notFound ⟨r, d, f⟩
      (Fields.get args "id") (Fields.get args "parent_id"))
  /-- An item of a bulk update names no element; the first such item is reported. -/
  | itemMissing {f : Field} {items before after : List Fields} {item : Fields} {values : List Value}
      (hholds : EmbeddedOperations.Holds ⟨r, d, f⟩ (Fields.get args "parent_id") store items)
      (hvalues : (Fields.get args "input").iterateGiven = .ok values)
      (hpayload : values.mapM Value.asFields = .ok (before ++ item :: after))
      (hbefore : ∀ other ∈ before, ∃ named ∈ items, idOf named = idOf other)
      (hmissing : ∀ named ∈ items, idOf named ≠ idOf item) :
    Refuses r d args store (.embedded .bulkUpdate f) (EmbeddedOperations.notFound ⟨r, d, f⟩
      (Fields.get item "id") (Fields.get args "parent_id"))
  /-- No ids are listed, whether there is the parent document or not. -/
  | idsMissing {f : Field} (hids : (Fields.get args "ids").truthy = false) :
    Refuses r d args store (.embedded .remove f)
      (.idsRequired (EmbeddedOperations.embeddedName ⟨r, d, f⟩))

/-- An update of an element takes the id from it: in the array that is made, and stored, no element
has the id that was asked for. -/
inductive Loses (r : Registry) (d : Definition) (args : Fields) (s : State) :
    OperationAction → Error → Prop
  | update {f : Field} {old new : List Fields}
      (hholds : EmbeddedOperations.Holds ⟨r, d, f⟩ (Fields.get args "parent_id") s.store old)
      (hmakes : EmbeddedOperations.Makes ⟨r, d, f⟩ args s.ids old .updateOne new)
      (hlost : ∀ item ∈ new, idOf item ≠ (Fields.get args "id").display) :
    Loses r d args s (.embedded .updateOne f) (EmbeddedOperations.notFound ⟨r, d, f⟩
      (Fields.get args "id") (Fields.get args "parent_id"))

/-- The conditions of a filter fit their operators. -/
def FilterFits (filter : Value) : Prop :=
  ∃ fields named, filter.asFilter = .ok fields ∧ namedConditions (.record fields) = .ok named ∧
    ∀ c ∈ named, c.Fits

/-- The arguments of an operation are well formed, as far as it is refused for what they are. -/
def OperationAction.WellFormed (args : Fields) : OperationAction → Prop
  | .model .findAll =>
    FilterFits (Fields.get args "filter") ∧ ∃ sort, (Fields.get args "sort").asFields = .ok sort
  | .model .paginate =>
    (∃ page, Fields.get args "page" = .int page) ∧
      (∃ limit, Fields.get args "limit" = .int limit) ∧
      FilterFits (Fields.get args "filter") ∧ ∃ sort, (Fields.get args "sort").asFields = .ok sort
  | .embedded .updateOne _ => ∃ given, (Fields.get args "input").asFields = .ok given
  | .embedded .remove _ => ∃ ids, (Fields.get args "ids").iterateGiven = .ok ids
  | _ => True

/-! ## Documents that are there -/

/-- A document of an id is in a collection. -/
def Stored (collection id : String) (s : State) : Prop := (s.store.find? collection id).isSome

section Presence

variable {r : Registry} {collection id : String} {s : State}

theorem Store.find?_isSome {s : Store} :
    (s.find? collection id).isSome ↔ ∃ e ∈ s.entries, e.isAt collection id :=
  List.find?_isSome

theorem Store.find?_change_isSome (s : Store) (other otherId : String) (f : Fields → Fields) :
    ((s.change other otherId f).find? collection id).isSome ↔ (s.find? collection id).isSome := by
  rw [find?_isSome, find?_isSome]
  unfold change
  dsimp only
  have hsame : ∀ e : Entry, (if e.isAt other otherId then { e with fields := f e.fields }
      else e).isAt collection id = e.isAt collection id := by
    intro e
    split <;> rfl
  constructor
  · rintro ⟨changed, hchanged, hat⟩
    obtain ⟨e, he, rfl⟩ := List.mem_map.mp hchanged
    exact ⟨e, he, hsame e ▸ hat⟩
  · rintro ⟨e, he, hat⟩
    exact ⟨_, List.mem_map_of_mem he, (hsame e).symm ▸ hat⟩

theorem Stored.closed : Closed r (Step.Preserves (Stored collection id)) where
  pure := Step.Preserves.pure
  fail := Step.Preserves.fail
  bind := Step.Preserves.bind
  onIds _ _ hs := hs
  output _ _ _ hs := hs
  typeOf _ _ hs := hs
  readStore _ _ hs := hs
  findById _ _ _ hs := hs

theorem linkInline_stored {owner : Definition} {ownerId : String} {part : Field × List Value}
    (hitems : ∀ target, relationTarget r part.1 = .ok target → ∀ item ∈ part.2,
      (createInline r target item).Preserves (Stored collection id)) :
    (linkInline r owner ownerId part).Preserves (Stored collection id) := by
  refine Step.Preserves.bind (.ofExcept _) fun target htarget => ?_
  refine Step.Preserves.bind (.each (hitems target htarget.ofExcept)) fun ids _ => ?_
  refine Step.Preserves.bind (fun s hs => ?_) fun _ _ => .pure ()
  unfold Step.Ends
  rw [State.onStore_eq, Store.addToSet_eq]
  cases s.store.find? owner.storedIn ownerId with
  | none => exact hs
  | some e =>
    dsimp only
    cases (Fields.get e.fields (linkFieldOf part.1)).iterateGiven with
    | error fault => exact hs
    | ok items => exact (Store.find?_change_isSome ..).mpr hs

/-- Storing a document drops none. -/
theorem Stored.stores (d : Definition) : Stores r (Step.Preserves (Stored collection id)) d := by
  intro data inline hitems α x hx
  refine Step.Preserves.bind (fun s hs => ?_) fun stored _ => ?_
  · unfold Step.Ends
    rw [State.insert_eq]
    rcases idFor data s.ids with ⟨fault | new, ids⟩
    · exact hs
    dsimp only
    split
    · exact hs
    · obtain ⟨e, he, hat⟩ := Store.find?_isSome.mp hs
      exact Store.find?_isSome.mpr ⟨e, List.mem_append_left _ he, hat⟩
  · refine Step.Preserves.bind (.each fun part hpart => linkInline_stored (hitems part hpart))
      fun _ _ => hx stored

theorem createInline_stored (target : Definition) (item : Value) :
    (createInline r target item).Preserves (Stored collection id) :=
  createInline_closed Stored.closed (fun d _ => Stored.stores d) (fun _ _ _ _ => trivial)
    (Q := fun _ => True) trivial item

end Presence

/-! ## Operations of a model -/

namespace ModelOperations

section Refused

variable {m : ModelOperations} {β : Type} {s t : State} {e : Error} {id : Value}

theorem searchOf_unrefused (m : ModelOperations) (search : Value) :
    Unrefused (m.searchOf search) := by
  unfold searchOf searchFields
  split
  · exact .ok _
  · refine Unrefused.bind ?_ fun fields _ => .ok _
    exact (m.registry.fieldsOf_unrefused _).bind fun declared _ => .ok _

theorem shape_grants (m : ModelOperations) (doc : Fields) : (m.shape doc).Grants :=
  .zoom (toOutput_grants m.registry _ _)

/-- What goes on from a document is refused if there is none, or by what goes on. -/
theorem load_refused {f : Fields → Step State β} (h : (m.load id >>= f) s = (.error e, t)) :
    (s.store.find? m.model.storedIn id.display = none ∧ e = .documentMissing m.model.name id ∧
      t = s) ∨
    ∃ entry, s.store.find? m.model.storedIn id.display = some entry ∧
      f entry.document s = (.error e, t) := by
  rw [Step.bind_run, load_answer] at h
  cases hfound : s.store.find? m.model.storedIn id.display with
  | none =>
    rw [hfound] at h
    cases h
    exact Or.inl ⟨rfl, rfl, rfl⟩
  | some entry =>
    rw [hfound] at h
    exact Or.inr ⟨entry, rfl, h⟩

theorem readStore_refused {α : Type} {g : Store → Except Error α} {f : α → Step State β}
    (hf : ∀ a, (f a).Grants) (h : (State.readStore g >>= f) s = (.error e, t)) (he : e.refuses) :
    g s.store = .error e ∧ t = s := by
  rw [Step.bind_run] at h
  unfold State.readStore at h
  cases hread : g s.store with
  | error e' =>
    rw [hread] at h
    cases h
    exact ⟨rfl, rfl⟩
  | ok a =>
    rw [hread] at h
    exact absurd h ((hf a).not_error he)

theorem load_missing (hmissing : s.store.find? m.model.storedIn id.display = none)
    (f : Fields → Step State β) :
    (m.load id >>= f) s = (.error (.documentMissing m.model.name id), s) := by
  rw [Step.bind_run, load_answer, hmissing]
  rfl

/-- What follows the loading of a document that is there refuses on its own, if at all. -/
theorem load_not_refused {f : Fields → Step State β} (h : (m.load id >>= f) s = (.error e, t))
    (he : e.refuses) (hstored : Stored m.model.storedIn id.display s) : ¬ ∀ doc, (f doc).Grants := by
  intro hf
  obtain ⟨entry, hfound⟩ := Option.isSome_iff_exists.mp hstored
  rw [Step.bind_run, load_answer, hfound] at h
  exact (hf entry.document).not_error he h

end Refused

variable {r : Registry} {d : Definition} {s t : State} {ctx input : Value} {e : Error}

/-- A document that is stored can be loaded, so a creation is never refused. -/
theorem create_not_refused (h : create ⟨r, {}, d⟩ ctx input s = (.error e, t)) (he : e.refuses) :
    False := by
  have hdispatch := dispatch_eq (m := ⟨r, {}, d⟩) rfl
  unfold create at h
  simp only [hdispatch, pure_bind] at h
  obtain ⟨data, -, h⟩ := Step.Grants.of_ofExcept_bind input.asFields_unrefused h he
  obtain ⟨⟨doc, inline⟩, s₁, -, h⟩ :=
    (Step.Grants.zoom (prepareDocument_grants r d.name _)).of_bind h he
  obtain ⟨stored, s₂, hinsert, h⟩ := (State.insert_grants d.storedIn doc).of_bind h he
  obtain ⟨units, s₃, hlinks, h⟩ := (Step.Grants.each fun part _ =>
    linkInline_grants r fun target item _ => createInline_grants r target item).of_bind h he
  have hfound : Stored d.storedIn (Fields.get stored "id").display s₃ := by
    obtain ⟨id, -, hid, -, ids, hs₂⟩ := State.insert_ok hinsert
    have hnew : Stored d.storedIn id s₂ := by
      rw [hs₂]
      exact Store.find?_isSome.mpr
        ⟨_, List.mem_append_right _ List.mem_cons_self, by simp [Entry.isAt]⟩
    rw [hid] at hlinks ⊢
    exact Step.Preserves.run (.each fun part _ => linkInline_stored fun target _ item _ =>
      createInline_stored target item) hnew hlinks
  refine load_not_refused h he hfound fun doc => ?_
  exact .bind (shape_grants _ doc) fun _ _ => .pure _

/-- An update is refused before it changes anything. -/
theorem update_refused (h : update ⟨r, {}, d⟩ ctx input s = (.error e, t)) (he : e.refuses) :
    t = s ∧ ∃ data, input.asFields = .ok data ∧
      ((Fields.get data "id").truthy = false ∧ e = .idRequired d.name ∨
        (Fields.get data "id").truthy ∧
          s.store.find? d.storedIn (Fields.get data "id").display = none ∧
          e = .documentMissing d.name (Fields.get data "id")) := by
  have hdispatch := dispatch_eq (m := ⟨r, {}, d⟩) rfl
  unfold update at h
  simp only [hdispatch, pure_bind] at h
  obtain ⟨data, hdata, h⟩ := Step.Grants.of_ofExcept_bind input.asFields_unrefused h he
  split at h
  · rename_i hid
    cases h
    exact ⟨rfl, data, hdata, Or.inl ⟨by simpa using hid, rfl⟩⟩
  · rename_i hid
    rcases load_refused h with ⟨hmissing, hcause, rfl⟩ | ⟨entry, hfound, h⟩
    · exact ⟨rfl, data, hdata, Or.inr ⟨by simpa using hid, hmissing, hcause⟩⟩
    · -- the document is there, and stays there
      exfalso
      obtain ⟨old, s₁, hold, h⟩ := (shape_grants _ entry.document).of_bind h he
      have hstore₁ := (Step.SparesStore.closed r).output (some d.name) (.record entry.document)
      obtain ⟨given, -, h⟩ := Step.Grants.of_ofExcept_bind (Value.toFields_unrefused _) h he
      obtain ⟨changes, s₂, hchanges, h⟩ :=
        (Step.Grants.zoom (assignIds_grants r _ _)).of_bind h he
      have hstore₂ := (Step.SparesStore.closed r).onIds
        (assignIds r (some d.name) (Table.remove given "id"))
      have hsame : s₂.store = s.store := (hstore₂.eq hchanges).trans (hstore₁.eq hold)
      rw [Step.bind_run, State.onStore_eq, Store.update_eq, hsame, hfound] at h
      dsimp only at h
      refine load_not_refused h he ?_ fun doc => ?_
      · refine (Store.find?_change_isSome ..).mpr ?_
        show (s.store.find? d.storedIn _).isSome
        rw [hfound]
        rfl
      · exact .bind (shape_grants _ doc) fun _ _ => .pure _

theorem findOne_refused {id : Value} (h : findOne ⟨r, {}, d⟩ ctx id s = (.error e, t))
    (he : e.refuses) :
    t = s ∧ s.store.find? d.storedIn id.display = none ∧ e = .documentMissing d.name id := by
  have hdispatch := dispatch_eq (m := ⟨r, {}, d⟩) rfl
  unfold findOne at h
  simp only [hdispatch, pure_bind] at h
  rcases load_refused h with ⟨hmissing, hcause, rfl⟩ | ⟨entry, -, h⟩
  · exact ⟨rfl, hmissing, hcause⟩
  · exact absurd h (Step.Grants.not_error (.bind (shape_grants _ _) fun _ _ => .pure _) he)

/-- A removal is refused before it changes anything. -/
theorem remove_refused {id : Value} (h : remove ⟨r, {}, d⟩ ctx id s = (.error e, t))
    (he : e.refuses) :
    t = s ∧ s.store.find? d.storedIn id.display = none ∧ e = .documentMissing d.name id := by
  have hdispatch := dispatch_eq (m := ⟨r, {}, d⟩) rfl
  unfold remove at h
  simp only [hdispatch, pure_bind] at h
  rcases load_refused h with ⟨hmissing, hcause, rfl⟩ | ⟨entry, hfound, h⟩
  · exact ⟨rfl, hmissing, hcause⟩
  · exfalso
    obtain ⟨old, s₁, hold, h⟩ := (shape_grants _ entry.document).of_bind h he
    have hsame : s₁.store = s.store :=
      ((Step.SparesStore.closed r).output (some d.name) (.record entry.document)).eq hold
    rw [Step.bind_run, State.onStore_eq, Store.delete_eq, hsame, hfound] at h
    cases h

/-- A query is refused for the first of its operators that there is not. -/
theorem plan_refused {filter search : Value} {fields : Fields} (hfields : filter.asFilter = .ok fields)
    (h : Plan.make (.record fields) search = .error e) (he : e.refuses) :
    ∃ c, FirstUnknown filter c ∧ e = .filterOperatorUnknown c.operator c.key := by
  obtain ⟨named, hnamed, hsort⟩ := Plan.make_refused h he
  obtain ⟨c, hfirst, hcause⟩ := Plan.sortOut_refused hsort he
  exact ⟨c, ⟨fields, named, hfields, hnamed, hfirst⟩, hcause⟩

theorem findMany_refused {filter sort search : Value}
    (h : findMany ⟨r, {}, d⟩ ctx filter sort search s = (.error e, t)) (he : e.refuses) :
    t = s ∧ ∃ c, FirstUnknown filter c ∧ e = .filterOperatorUnknown c.operator c.key := by
  have hdispatch := dispatch_eq (m := ⟨r, {}, d⟩) rfl
  unfold findMany at h
  simp only [hdispatch, pure_bind] at h
  obtain ⟨fields, hfields, h⟩ := Step.Grants.of_ofExcept_bind filter.asFilter_unrefused h he
  obtain ⟨order, -, h⟩ := Step.Grants.of_ofExcept_bind sort.asFields_unrefused h he
  obtain ⟨keys, -, h⟩ := Step.Grants.of_ofExcept_bind (sortKeys_unrefused _) h he
  obtain ⟨texts, -, h⟩ := Step.Grants.of_ofExcept_bind (searchOf_unrefused _ search) h he
  obtain ⟨hfind, rfl⟩ := readStore_refused (fun docs =>
    .bind (.each fun doc _ => shape_grants _ doc) fun items _ => .pure _) h he
  exact ⟨rfl, plan_refused hfields (Store.find_refused hfind he) he⟩

theorem paginate_refused {filter sort page limit search : Value}
    (h : paginate ⟨r, {}, d⟩ filter sort page limit search s = (.error e, t)) (he : e.refuses) :
    t = s ∧ (checkPositive .pageTooSmall page = .error e ∨
      checkPositive .pageTooSmall page = .ok () ∧
        (checkPositive .limitTooSmall limit = .error e ∨
          checkPositive .limitTooSmall limit = .ok () ∧
            ∃ c, FirstUnknown filter c ∧ e = .filterOperatorUnknown c.operator c.key)) := by
  unfold paginate at h
  cases hpage : checkPositive .pageTooSmall page with
  | error e' =>
    rw [hpage] at h
    cases h
    exact ⟨rfl, Or.inl rfl⟩
  | ok _ =>
    rw [hpage] at h
    replace h := (Step.bind_of_ok (s := s) (t := s) rfl).symm.trans h
    cases hlimit : checkPositive .limitTooSmall limit with
    | error e' =>
      rw [hlimit] at h
      cases h
      exact ⟨rfl, Or.inr ⟨rfl, Or.inl rfl⟩⟩
    | ok _ =>
      rw [hlimit] at h
      replace h := (Step.bind_of_ok (s := s) (t := s) rfl).symm.trans h
      obtain ⟨fields, hfields, h⟩ := Step.Grants.of_ofExcept_bind filter.asFilter_unrefused h he
      obtain ⟨order, -, h⟩ := Step.Grants.of_ofExcept_bind sort.asFields_unrefused h he
      obtain ⟨keys, -, h⟩ := Step.Grants.of_ofExcept_bind (sortKeys_unrefused _) h he
      obtain ⟨texts, -, h⟩ := Step.Grants.of_ofExcept_bind (searchOf_unrefused _ search) h he
      obtain ⟨hpages, rfl⟩ := readStore_refused (fun shown =>
        .bind (.zoom (typeOf_grants r _)) fun shape _ =>
          .bind (.each fun doc _ => .bind (.ofExcept doc.toFields_unrefused) fun fields _ =>
            shape_grants _ fields) fun docs _ => .ofExcept (shape.instantiate_unrefused _)) h he
      exact ⟨rfl, Or.inr ⟨rfl, Or.inr ⟨rfl,
        plan_refused hfields (Store.paginate_refused hpages he) he⟩⟩⟩

/-- The first page and the smallest limit are one. -/
theorem checkPositive_int_eq (refuse : Value → Error) (i : Int) :
    checkPositive refuse (.int i) = if i < 1 then .error (refuse (.int i)) else .ok () := by
  have horder : Value.compare? (.int i) (.int 1) = some (Ord.compare i 1) := rfl
  unfold checkPositive
  rw [if_neg (by simp [Value.isNull]), horder]
  split
  · rename_i hlt
    rw [if_pos (compare_lt_iff_lt.mp (Option.some.inj hlt))]
  · rename_i hother hsome
    rw [if_neg fun hlt => hother (Option.some.inj hsome ▸ compare_lt_iff_lt.mpr hlt)]
  · rename_i hnone
    cases hnone

variable {api : Api} {args : Fields}

/-- An operation of a model that is refused has changed nothing. -/
theorem runModel_refusal (h : Operation.runModel ⟨r, {}, d⟩ api ctx args s = (.error e, t))
    (he : e.refuses) :
    t = s ∧ ((OperationAction.model api).WellFormed args →
      Refuses r d args s.store (.model api) e) := by
  cases api with
  | create => exact absurd he fun he => create_not_refused h he
  | update =>
    obtain ⟨rfl, data, hdata, ⟨hid, rfl⟩ | ⟨hid, hmissing, rfl⟩⟩ := update_refused h he
    · exact ⟨rfl, fun _ => .idMissing hdata hid⟩
    · exact ⟨rfl, fun _ => .documentMissing (.update hdata hid) hmissing⟩
  | remove =>
    obtain ⟨rfl, hmissing, rfl⟩ := remove_refused h he
    exact ⟨rfl, fun _ => .documentMissing .remove hmissing⟩
  | findOne =>
    obtain ⟨rfl, hmissing, rfl⟩ := findOne_refused h he
    exact ⟨rfl, fun _ => .documentMissing .findOne hmissing⟩
  | findAll =>
    obtain ⟨rfl, c, hfirst, rfl⟩ := findMany_refused h he
    exact ⟨rfl, fun _ => .operatorUnknown hfirst⟩
  | paginate =>
    obtain ⟨rfl, hcause⟩ := paginate_refused h he
    refine ⟨rfl, fun hargs => ?_⟩
    obtain ⟨⟨page, hpage⟩, ⟨limit, hlimit⟩, -⟩ := hargs
    rw [hpage, hlimit, checkPositive_int_eq, checkPositive_int_eq] at hcause
    by_cases hsmall : page < 1
    · rw [if_pos hsmall] at hcause
      rcases hcause with hcause | ⟨hok, -⟩
      · cases hcause
        exact .pageTooSmall hpage hsmall
      · cases hok
    rw [if_neg hsmall] at hcause
    have hpositive : 1 ≤ page := by omega
    rcases hcause with hok | ⟨-, hcause⟩
    · cases hok
    by_cases hsmall' : limit < 1
    · rw [if_pos hsmall'] at hcause
      rcases hcause with hcause | ⟨hok, -⟩
      · cases hcause
        exact .limitTooSmall hpage hpositive hlimit hsmall'
      · cases hok
    · rw [if_neg hsmall'] at hcause
      rcases hcause with hok | ⟨-, c, hfirst, rfl⟩
      · cases hok
      · exact .operatorUnknownInPage hpage hpositive hlimit (by omega) hfirst

theorem sortKeys_record (sort : Fields) : ∃ keys, sortKeys (.record sort) = .ok keys := by
  unfold sortKeys sortDirections
  split <;> exact ⟨_, rfl⟩

theorem searchOf_ok (hr : r.Named) (hd : d ∈ r.registered) (search : Value) :
    ∃ texts, searchOf ⟨r, {}, d⟩ search = .ok texts := by
  obtain ⟨declared, hdeclared⟩ := Registry.fieldsOf_ok (hr.model? hd)
  unfold searchOf searchFields
  dsimp only
  rw [hdeclared]
  split <;> exact ⟨_, rfl⟩

/-- A filter whose conditions fit is refused for the first operator that there is not. -/
theorem plan_unknown {filter : Value} {fields : Fields} {c : NamedCondition}
    (hfields : filter.asFilter = .ok fields) (hfits : FilterFits filter)
    (hfirst : FirstUnknown filter c) (search : Value) :
    Plan.make (.record fields) search = .error (.filterOperatorUnknown c.operator c.key) := by
  obtain ⟨fields', named, hfields', hnamed, hfind⟩ := hfirst
  obtain ⟨fields'', named', hfields'', hnamed', hfits⟩ := hfits
  rw [hfields] at hfields' hfields''
  cases hfields'
  cases hfields''
  rw [hnamed] at hnamed'
  cases hnamed'
  unfold Plan.make
  rw [hnamed]
  dsimp only [bind, Except.bind]
  rw [Plan.sortOut_unknown hfits hfind]

theorem ofExcept_of_ok {σ α : Type} {x : Except Error α} {a : α} (h : x = .ok a) :
    (Step.ofExcept x : Step σ α) = pure a := by
  rw [h]
  rfl

theorem readStore_refuses {α β : Type} {g : Store → Except Error α} {f : α → Step State β}
    (h : g s.store = .error e) : (State.readStore g >>= f) s = (.error e, s) := by
  rw [Step.bind_run]
  unfold State.readStore
  rw [h]

theorem findMany_refuses (hr : r.Named) (hd : d ∈ r.registered) {filter sort : Value}
    {c : NamedCondition} {order : Fields} (hfits : FilterFits filter)
    (hsort : sort.asFields = .ok order) (hfirst : FirstUnknown filter c) (search : Value) :
    findMany ⟨r, {}, d⟩ ctx filter sort search s =
      (.error (.filterOperatorUnknown c.operator c.key), s) := by
  have hdispatch := dispatch_eq (m := ⟨r, {}, d⟩) rfl
  obtain ⟨fields, -, hfields, -⟩ := id hfits
  obtain ⟨keys, hkeys⟩ := sortKeys_record order
  obtain ⟨texts, htexts⟩ := searchOf_ok hr hd search
  unfold findMany
  simp only [hdispatch, pure_bind, ofExcept_of_ok hfields, ofExcept_of_ok hsort]
  rw [show Fields.get _ "sort" = Value.record order from rfl, ofExcept_of_ok hkeys, pure_bind,
    ofExcept_of_ok htexts, pure_bind]
  refine readStore_refuses ?_
  unfold Store.find
  rw [show Fields.get _ "filter" = .record fields from rfl, plan_unknown hfields hfits hfirst]
  rfl

theorem paginate_refuses (hr : r.Named) (hd : d ∈ r.registered) {filter sort : Value}
    {page limit : Int} {c : NamedCondition} {order : Fields} (hpage : 1 ≤ page) (hlimit : 1 ≤ limit)
    (hfits : FilterFits filter) (hsort : sort.asFields = .ok order)
    (hfirst : FirstUnknown filter c) (search : Value) :
    paginate ⟨r, {}, d⟩ filter sort (.int page) (.int limit) search s =
      (.error (.filterOperatorUnknown c.operator c.key), s) := by
  obtain ⟨fields, -, hfields, -⟩ := id hfits
  obtain ⟨keys, hkeys⟩ := sortKeys_record order
  obtain ⟨texts, htexts⟩ := searchOf_ok hr hd search
  have hone : ∀ (refuse : Value → Error) (i : Int), 1 ≤ i →
      checkPositive refuse (.int i) = .ok () := by
    intro refuse i hi
    rw [checkPositive_int_eq, if_neg (by omega)]
  unfold paginate
  rw [ofExcept_of_ok (hone _ _ hpage), pure_bind, ofExcept_of_ok (hone _ _ hlimit), pure_bind,
    ofExcept_of_ok hfields, pure_bind, ofExcept_of_ok hsort, pure_bind, ofExcept_of_ok hkeys,
    pure_bind, ofExcept_of_ok htexts, pure_bind]
  refine readStore_refuses ?_
  unfold Store.paginate
  rw [plan_unknown hfields hfits hfirst]
  rfl

/-- On well-formed arguments each of the reasons refuses an operation of a model. -/
theorem runModel_refuses (hr : r.Named) (hd : d ∈ r.registered)
    (hargs : (OperationAction.model api).WellFormed args)
    (h : Refuses r d args s.store (.model api) e) :
    Operation.runModel ⟨r, {}, d⟩ api ctx args s = (.error e, s) := by
  have hdispatch := dispatch_eq (m := ⟨r, {}, d⟩) rfl
  have hpages : ∀ (refuse : Value → Error) (i : Int), i < 1 →
      checkPositive refuse (.int i) = .error (refuse (.int i)) := by
    intro refuse i hi
    rw [checkPositive_int_eq, if_pos hi]
  cases h with
  | idMissing hdata hid =>
    unfold Operation.runModel update
    dsimp only
    rw [ofExcept_of_ok hdata, pure_bind, if_pos (by simp [hid])]
    rfl
  | documentMissing haddressed hmissing =>
    cases haddressed with
    | update hdata hid =>
      unfold Operation.runModel update
      dsimp only
      rw [ofExcept_of_ok hdata, pure_bind, if_neg (by simp [hid])]
      exact load_missing (m := ⟨r, {}, d⟩) hmissing _
    | remove => exact load_missing (m := ⟨r, {}, d⟩) hmissing _
    | findOne =>
      unfold Operation.runModel findOne
      simp only [hdispatch, pure_bind]
      exact load_missing (m := ⟨r, {}, d⟩) hmissing _
  | pageTooSmall hpage hsmall =>
    unfold Operation.runModel paginate
    dsimp only
    rw [hpage, hpages _ _ hsmall]
    rfl
  | limitTooSmall hpage hpositive hlimit hsmall =>
    unfold Operation.runModel paginate
    dsimp only
    rw [hpage, hlimit, checkPositive_int_eq, if_neg (by omega), hpages _ _ hsmall]
    rfl
  | operatorUnknown hfirst =>
    obtain ⟨hfits, order, hsort⟩ := hargs
    exact findMany_refuses hr hd hfits hsort hfirst _
  | operatorUnknownInPage hpage hpositive hlimit hpositive' hfirst =>
    obtain ⟨-, -, hfits, order, hsort⟩ := hargs
    unfold Operation.runModel
    dsimp only
    rw [hpage, hlimit]
    exact paginate_refuses hr hd hpositive hpositive' hfits hsort hfirst _

end ModelOperations

end DocumentApi
