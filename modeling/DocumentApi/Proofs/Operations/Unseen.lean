import DocumentApi.Proofs.Operations.Paging
import DocumentApi.Proofs.Store.Redaction

/-!
# Fields that are not seen

A field of a model is unseen if it is not shown and is neither filtered nor sorted by. Three
operations read documents, and none of them shows what an unseen field holds, but a text search
looks into it.

* `findOne_answer`, `findMany_answer`, `paginate_answer`: in every state of an api, what a read
  answers is made of the stored documents alone.
* `TypeShape.Admits`: the inputs of an input type.
* `instanceOf_without`, `queryOf_overlooks`: neither an instance nor a query depends on unseen
  fields.
* `reads_unseen`: reads answer the same in states that differ in unseen fields, unless a text search
  finds other documents.
-/

namespace DocumentApi

/-! ## Reads -/

theorem State.readStore_bind_answer {α β : Type} (f : Store → Except Error α) (g : α → Step State β)
    (s : State) : ((readStore f >>= g) s).1 = f s.store >>= fun a => (g a s).1 :=
  Step.bind_answer rfl

/-- A document as an instance of the output type of its model. -/
def Registry.instanceOf (r : Registry) (model : String) (doc : Fields) : Except Error Value :=
  (toOutput r (some model) (.record doc) r.builtTypes).1

namespace ModelOperations

variable {r : Registry} {d : Definition} {s : State}

theorem findOne_answer (hr : r.Named) (hs : s.types.Serves r) (ctx id : Value) :
    (findOne ⟨r, {}, d⟩ ctx id s).1 = (s.store.find? d.storedIn id.display).elim
      (.error (.documentMissing d.name id)) fun e => r.instanceOf d.name e.document := by
  unfold findOne
  rw [dispatch_eq rfl, pure_bind, Step.bind_answer (load_answer _ id s)]
  cases s.store.find? d.storedIn id.display with
  | none => rfl
  | some e =>
    show ((shape ⟨r, {}, d⟩ e.document >>= _) s).1 = r.instanceOf d.name e.document
    rw [Step.bind_answer (shape_eq hr hs e.document)]
    show (r.instanceOf d.name e.document >>= _) = _
    cases r.instanceOf d.name e.document <;> rfl

theorem findMany_answer (hr : r.Named) (hs : s.types.Serves r) (ctx filter sort search : Value) :
    (findMany ⟨r, {}, d⟩ ctx filter sort search s).1 = do
      let q ← queryOf ⟨r, {}, d⟩ filter sort search
      let docs ← s.store.find d.storedIn q
      return .list (← docs.mapM (r.instanceOf d.name)) := by
  unfold findMany queryOf
  rw [Step.ofExcept_bind_answer, bind_assoc]
  refine bind_congr fun filter' => ?_
  rw [Step.ofExcept_bind_answer, bind_assoc]
  refine bind_congr fun sort' => ?_
  rw [dispatch_eq rfl, pure_bind, Step.ofExcept_bind_answer, bind_assoc]
  refine bind_congr fun keys => ?_
  rw [Step.ofExcept_bind_answer, bind_assoc]
  refine bind_congr fun search' => ?_
  rw [State.readStore_bind_answer, pure_bind]
  refine bind_congr fun docs => ?_
  rw [Step.bind_answer (Step.each_eq_mapM (shape_eq hr hs) docs)]
  refine bind_congr fun items => ?_
  rw [dispatch_eq rfl]
  rfl

/-- A page of documents becomes an instance of the page type. -/
def pageOfInstances (r : Registry) (model : String) (p : Page) : Except Error Value := do
  let docs ← p.docs.mapM fun doc => doc.toFields >>= r.instanceOf model
  (pageShape model).instantiate [
    ("docs", .list docs),
    ("totalDocs", p.totalDocs),
    ("page", p.page),
    ("limit", p.limit),
    ("hasPrevPage", .bool p.hasPrevPage),
    ("hasNextPage", .bool p.hasNextPage),
    ("totalPages", .int p.totalPages)]

theorem paginate_answer (hr : r.Named) (hd : d ∈ r.registered) (hs : s.types.Serves r)
    (filter sort page limit search : Value) :
    (paginate ⟨r, {}, d⟩ filter sort page limit search s).1 = (do
      checkPositive .pageTooSmall page
      checkPositive .limitTooSmall limit
      let q ← queryOf ⟨r, {}, d⟩ filter sort search
      pageOfInstances r d.name (← s.store.paginate d.storedIn q page limit)) := by
  obtain ⟨types, htype, hserves⟩ := hs.typeOf_page hr (hr.model? hd)
  have hpage : State.onTypes (typeOf r ⟨d.name, .pagination⟩) s =
      (.ok (pageShape d.name), { s with types }) := by
    unfold State.onTypes Step.zoom
    dsimp only
    rw [htype]
  have hshow : ∀ doc : Value,
      (do shape ⟨r, {}, d⟩ (← Step.ofExcept doc.toFields)) { s with types } =
        (doc.toFields >>= r.instanceOf d.name, { s with types }) := by
    intro doc
    cases doc.toFields with
    | error e => rfl
    | ok doc => exact shape_eq hr hserves doc
  unfold paginate queryOf
  rw [Step.ofExcept_bind_answer]
  refine bind_congr fun _ => ?_
  rw [Step.ofExcept_bind_answer]
  refine bind_congr fun _ => ?_
  rw [Step.ofExcept_bind_answer, bind_assoc]
  refine bind_congr fun filter' => ?_
  rw [Step.ofExcept_bind_answer, bind_assoc]
  refine bind_congr fun sort' => ?_
  rw [Step.ofExcept_bind_answer, bind_assoc]
  refine bind_congr fun keys => ?_
  rw [Step.ofExcept_bind_answer, bind_assoc]
  refine bind_congr fun search' => ?_
  rw [State.readStore_bind_answer, pure_bind]
  refine bind_congr fun p => ?_
  rw [Step.bind_of_ok hpage]
  exact Step.bind_answer (Step.each_eq_mapM hshow p.docs)

end ModelOperations

/-! ## Inputs -/

/-- The inputs of a type: nothing, an instance or a record, with fields of the type alone. -/
inductive TypeShape.Admits (shape : TypeShape) : Value → Prop
  | nothing : Admits shape .null
  | instance {name : Option String} {fields : Fields}
      (h : ∀ key ∈ Table.names fields, key ∈ shape.fields.map TypeField.attr) :
      Admits shape (.object name fields)
  | record {fields : Fields}
      (h : ∀ key ∈ Table.names fields, key ∈ shape.fields.map TypeField.attr) :
      Admits shape (.record fields)

theorem TypeShape.Admits.asFields {shape : TypeShape} {v : Value} {fields : Fields}
    (h : shape.Admits v) (hv : v.asFields = .ok fields) :
    ∀ key ∈ Table.names fields, key ∈ shape.fields.map TypeField.attr := by
  have hplain : ∀ given : Fields,
      (∀ key ∈ Table.names given, key ∈ shape.fields.map TypeField.attr) →
      ∀ key ∈ Table.names (Value.plainFields given), key ∈ shape.fields.map TypeField.attr := by
    intro given hgiven key hkey
    by_contra hother
    exact Table.find?_eq_none_iff.mp
      (Value.find?_plainFields_eq_none fun hmem => hother (hgiven key hmem)) hkey
  unfold Value.asFields at hv
  cases h with
  | nothing =>
    cases hv
    exact nofun
  | «instance» h | record h =>
    rw [Value.plain] at hv
    split at hv
    · cases hv
      exact hplain _ h
    · cases hv
      exact nofun

/-- A filter is on the names of its fields. -/
theorem namedConditions_keys {fields : Fields} {named : List NamedCondition}
    (h : namedConditions (.record fields) = .ok named) :
    ∀ c ∈ named, c.key ∈ Table.names fields := by
  intro c hc
  unfold namedConditions at h
  split at h
  · cases h
    cases hc
  · cases h
    obtain ⟨entry, hentry, hc⟩ := List.mem_flatMap.mp hc
    have hkey : c.key = entry.1 := by
      unfold conditionsOfEntry at hc
      split at hc
      · obtain ⟨-, -, rfl⟩ := List.mem_map.mp hc
        rfl
      · rw [List.mem_singleton.mp hc]
    exact hkey ▸ List.mem_map_of_mem hentry

/-- A sort order is on the names of its fields. -/
theorem sortKeys_fields {fields : Fields} {keys : List SortKey}
    (h : sortKeys (.record fields) = .ok keys) :
    ∀ order ∈ keys, order.field ∈ Table.names fields := by
  intro order horder
  unfold sortKeys at h
  obtain ⟨directions, hdirections, h⟩ := exceptBind_ok h
  cases h
  obtain ⟨direction, hdirection, rfl⟩ := List.mem_map.mp horder
  unfold sortDirections at hdirections
  split at hdirections
  · cases hdirections
    cases hdirection
  · cases hdirections
    obtain ⟨entry, hentry, hsome⟩ := List.mem_filterMap.mp hdirection
    split at hsome
    · cases hsome
    · cases hsome
      exact List.mem_map_of_mem hentry

/-- A filter by the names of operators is on the same fields. -/
theorem TypeShape.Admits.asFilter {shape : TypeShape} {v : Value} {fields : Fields}
    (h : shape.Admits v) (hv : v.asFilter = .ok fields) :
    ∀ key ∈ Table.names fields, key ∈ shape.fields.map TypeField.attr := by
  unfold Value.asFilter at hv
  obtain ⟨given, hgiven, hv⟩ := exceptBind_ok hv
  cases hv
  intro key hkey
  refine h.asFields hgiven key ?_
  unfold Table.names Table.mapEntries at hkey
  rwa [List.map_map] at hkey

/-! ## Unseen fields -/

/-- A field that is not shown, and neither filtered nor sorted by. The id is seen by whoever asks
for a document by it. -/
structure Field.Unseen (f : Field) : Prop where
  excluded : f.excludedOnOutput = true
  unfiltered : f.filterable = false
  unsorted : f.sortable = false
  other : f.name ≠ "id"

/-- The names are those of unseen fields of a model. -/
def Registry.Hides (r : Registry) (model : String) (names : List String) : Prop :=
  ∃ declared, r.fieldsOf model = .ok declared ∧
    ∀ name ∈ names, ∃ f ∈ declared, f.name = name ∧ f.Unseen

section Unseen

variable {r : Registry} {d : Definition} {model : String} {names : List String}

namespace Registry.Hides

theorem not_id (h : r.Hides model names) : "id" ∉ names := by
  obtain ⟨declared, -, hnames⟩ := h
  intro hid
  obtain ⟨f, -, hname, hunseen⟩ := hnames "id" hid
  exact hunseen.other hname

/-- A field that is seen has another name. -/
theorem seen (h : r.Hides model names) (hr : r.Distinct) {declared : List Field} {f : Field}
    (hdeclared : r.fieldsOf model = .ok declared) (hf : f ∈ declared) (hseen : ¬ f.Unseen) :
    f.name ∉ names := by
  obtain ⟨declared', hdeclared', hnames⟩ := h
  rw [hdeclared] at hdeclared'
  cases hdeclared'
  intro hmem
  obtain ⟨g, hg, hname, hunseen⟩ := hnames f.name hmem
  obtain rfl := List.inj_on_of_nodup_map (hr.fieldsOf hdeclared) hg hf hname
  exact hseen hunseen

theorem outputs (h : r.Hides model names) (hr : r.Distinct) {fields : List Field} {f : Field}
    (hfields : r.outputFields (some model) = .ok fields) (hf : f ∈ fields) : f.name ∉ names := by
  have hhides := h
  obtain ⟨declared, hdeclared, -⟩ := hhides
  obtain ⟨hmem, hshown, -⟩ := Registry.mem_outputFields hdeclared hfields hf
  exact h.seen hr hdeclared hmem fun hunseen => by simp [hunseen.excluded] at hshown

/-- Filters and sort orders are on fields that are seen. -/
theorem inputs (h : r.Hides model names) (hr : r.Distinct) :
    (∀ key ∈ (r.shapeOf ⟨model, .filter⟩).fields.map TypeField.attr, key ∉ names) ∧
      ∀ key ∈ (r.shapeOf ⟨model, .sort⟩).fields.map TypeField.attr, key ∉ names := by
  have hhides := h
  obtain ⟨declared, hdeclared, -⟩ := hhides
  have hscalars : r.scalarFields model = .ok (declared.filter Field.isScalar) := by
    unfold Registry.scalarFields
    rw [hdeclared]
    rfl
  unfold Registry.shapeOf
  dsimp only
  rw [hscalars]
  constructor
  · intro key hkey
    obtain ⟨tf, htf, rfl⟩ := List.mem_map.mp hkey
    obtain ⟨f, hf, rfl⟩ := List.mem_map.mp htf
    obtain ⟨hscalar, hfilterable⟩ := List.mem_filter.mp hf
    exact h.seen hr hdeclared (List.mem_filter.mp hscalar).1 fun hunseen => by
      simp [hunseen.unfiltered] at hfilterable
  · intro key hkey
    obtain ⟨tf, htf, rfl⟩ := List.mem_map.mp hkey
    obtain ⟨f, hf, rfl⟩ := List.mem_map.mp htf
    obtain ⟨hscalar, hsortable⟩ := List.mem_filter.mp hf
    exact h.seen hr hdeclared (List.mem_filter.mp hscalar).1 fun hunseen => by
      simp [hunseen.unsorted] at hsortable

end Registry.Hides

/-- An instance of a document does not depend on unseen fields. -/
theorem Registry.instanceOf_without (h : r.Hides model names) (hr : r.Distinct) (e : Entry) :
    r.instanceOf model (Fields.without names e.document) = r.instanceOf model e.document := by
  have hfound : Table.find? e.document "id" = some (.text e.id) := Table.find?_set_self _ _ _
  have hget : ∀ key, key ∉ names → Fields.get (normalizeId (Fields.without names e.document)) key =
      Fields.get (normalizeId e.document) key := by
    intro key hkey
    rw [normalizeId_eq hfound,
      normalizeId_eq ((Fields.find?_without e.document h.not_id).trans hfound), Fields.get_set,
      Fields.get_set]
    unfold Fields.get
    rw [Table.find?_remove, Table.find?_remove, Fields.find?_without e.document hkey]
  unfold instanceOf
  rw [toOutput_eq, toOutput_eq]
  cases hfields : r.outputFields (some model) with
  | error e => rfl
  | ok fields =>
    have hvalues : Step.each (fun f => do
          let v ← fieldOutput r f
            (Fields.get (normalizeId (Fields.without names e.document)) f.name)
          pure (f.name, v)) fields =
        Step.each (fun f => do
          let v ← fieldOutput r f (Fields.get (normalizeId e.document) f.name)
          pure (f.name, v)) fields :=
      Step.each_congr fun f hf => by rw [hget f.name (h.outputs hr hfields hf)]
    show ((Step.each _ fields >>= _) r.builtTypes).1 = ((Step.each _ fields >>= _) r.builtTypes).1
    rw [hvalues]

/-- A text search of a query finds the same documents in stores that differ in names alone. -/
def ModelOperations.SearchesAlike (m : ModelOperations) (search : Value) (names : List String)
    (s t : Store) : Prop :=
  ∀ v found, m.searchOf search = .ok v → Search.ofValue v = .ok (some found) →
    found.FindsAlike m.model.storedIn names s t

theorem Search.fields_of_ofValue {text : Value} {fields : List String} {found : Search}
    (h : Search.ofValue (.list [text, .list (fields.map .text)]) = .ok (some found)) :
    found.fields = fields := by
  have htexts : (fields.map Value.text).filterMap Value.asText? = fields := by
    rw [List.filterMap_map]
    exact List.filterMap_some
  unfold ofValue at h
  rw [if_neg (by simp [Value.truthy])] at h
  dsimp only [Value.elements] at h
  obtain ⟨items, hitems, h⟩ := exceptBind_ok h
  cases hitems
  split at h
  · cases h
  · split at h
    · cases h
      exact htexts
    · cases h

/-- A search finds the same documents if it looks in no field that they differ in. -/
theorem ModelOperations.searchesAlike_of_fields {search : Value} {declared : List Field}
    (hdeclared : r.fieldsOf d.name = .ok declared)
    (h : search.truthy → d.textSearch → ∀ f ∈ declared, f.isSearched → f.name ∉ names)
    (s t : Store) : SearchesAlike ⟨r, {}, d⟩ search names s t := by
  intro v found hv hfound
  unfold searchOf searchFields at hv
  dsimp only at hv
  rw [hdeclared] at hv
  split at hv
  · cases hv
    cases hfound
  · rename_i hsearches
    cases hv
    obtain ⟨htruthy, htext⟩ : search.truthy = true ∧ d.textSearch = true := by
      simpa using hsearches
    refine Search.findsAlike_of_fields (fun key hkey => ?_) d.storedIn s t
    rw [Search.fields_of_ofValue hfound] at hkey
    obtain ⟨f, hf, rfl⟩ := List.mem_map.mp hkey
    obtain ⟨hmem, hsearched⟩ := List.mem_filter.mp hf
    exact h htruthy htext f hmem hsearched

/-- A query does not ask for unseen fields. -/
theorem ModelOperations.queryOf_overlooks {filter sort search : Value} {q : Query} {s t : Store}
    (h : r.Hides d.name names) (hr : r.Distinct)
    (hstore : s.without d.storedIn names = t.without d.storedIn names)
    (hfilter : (r.shapeOf ⟨d.name, .filter⟩).Admits filter)
    (hsort : (r.shapeOf ⟨d.name, .sort⟩).Admits sort)
    (hsearch : SearchesAlike ⟨r, {}, d⟩ search names s t)
    (hq : queryOf ⟨r, {}, d⟩ filter sort search = .ok q) : q.Overlooks d.storedIn names s t := by
  obtain ⟨hfilters, hsorts⟩ := h.inputs hr
  unfold queryOf at hq
  obtain ⟨filter', hfilter', hq⟩ := exceptBind_ok hq
  obtain ⟨sort', hsort', hq⟩ := exceptBind_ok hq
  obtain ⟨keys, hkeys, hq⟩ := exceptBind_ok hq
  obtain ⟨search', hsearch', hq⟩ := exceptBind_ok hq
  cases hq
  refine ⟨hstore, h.not_id, fun named hnamed c hc => ?_, fun order horder => ?_,
    fun found hfound => hsearch search' found hsearch' hfound⟩
  · exact hfilters _ (hfilter.asFilter hfilter' _ (namedConditions_keys hnamed c hc))
  · exact hsorts _ (hsort.asFields hsort' _ (sortKeys_fields hkeys order horder))

/-- Documents that a query finds become instances that do not depend on unseen fields. -/
theorem Store.instances_without {s : Store} {q : Query} {docs : List Fields}
    (h : r.Hides model names) (hr : r.Distinct) {collection : String}
    (hfind : s.find collection q = .ok docs) :
    docs.mapM (r.instanceOf model) =
      (docs.map (Fields.without names)).mapM (r.instanceOf model) := by
  refine mapM_map_eq fun doc hdoc => ?_
  obtain ⟨e, -, -, rfl⟩ := Store.find_holds ⟨docs, hfind, hdoc⟩
  exact (r.instanceOf_without h hr e).symm

/-- So does a page of them. -/
theorem Store.pageOfInstances_without {s : Store} {q : Query} {page limit : Value} {p : Page}
    (h : r.Hides model names) (hr : r.Distinct) {collection : String}
    (hpage : s.paginate collection q page limit = .ok p) :
    ModelOperations.pageOfInstances r model p =
      ModelOperations.pageOfInstances r model (p.without names) := by
  have hdocs : ∀ v ∈ p.docs, v.toFields >>= r.instanceOf model =
      (Value.without names v).toFields >>= r.instanceOf model := by
    intro v hv
    cases v with
    | record doc =>
      obtain ⟨e, -, -, rfl⟩ :=
        Store.find_holds (Store.paginate_mem ⟨page, limit, p, hpage, hv⟩)
      exact (r.instanceOf_without h hr e).symm
    | _ => rfl
  unfold ModelOperations.pageOfInstances
  rw [mapM_map_eq (g := fun v : Value => v.toFields >>= r.instanceOf model) hdocs]
  rfl

open ModelOperations

/-- In two states of an api that differ in unseen fields of a model alone, a document of an id is
answered alike, and so is every query of its documents and every page of one: by any filter and sort
order of the model, unless the query has a text search that finds other documents in one state. -/
theorem reads_unseen {s t : State} (hr : r.Reachable) (hd : d ∈ r.registered) (hs : r.Running s)
    (ht : r.Running t)
    (hnames : r.Hides d.name names)
    (hstore : s.store.without d.storedIn names = t.store.without d.storedIn names) :
    (∀ ctx id, (findOne ⟨r, {}, d⟩ ctx id s).1 = (findOne ⟨r, {}, d⟩ ctx id t).1) ∧
    ∀ filter sort search, (r.shapeOf ⟨d.name, .filter⟩).Admits filter →
      (r.shapeOf ⟨d.name, .sort⟩).Admits sort →
      SearchesAlike ⟨r, {}, d⟩ search names s.store t.store →
        (∀ ctx, (findMany ⟨r, {}, d⟩ ctx filter sort search s).1 =
          (findMany ⟨r, {}, d⟩ ctx filter sort search t).1) ∧
        ∀ page limit, (paginate ⟨r, {}, d⟩ filter sort page limit search s).1 =
          (paginate ⟨r, {}, d⟩ filter sort page limit search t).1 := by
  have hinstance := r.instanceOf_without hnames hr.distinct
  refine ⟨fun ctx id => ?_, fun filter sort search hfilter hsort hsearch => ?_⟩
  · have helim : ∀ found : Option Entry,
        (found.elim (.error (.documentMissing d.name id)) fun e => r.instanceOf d.name e.document) =
          (found.map (Entry.without names)).elim (.error (.documentMissing d.name id)) fun e =>
            r.instanceOf d.name e.document := by
      intro found
      cases found with
      | none => rfl
      | some e =>
        exact (hinstance e).symm.trans (congrArg _ (e.document_without hnames.not_id).symm)
    rw [findOne_answer hr.named hs.serves, findOne_answer hr.named ht.serves, helim,
      Store.find?_redacted hstore, ← helim]
  · have hoverlooks : ∀ {q}, queryOf ⟨r, {}, d⟩ filter sort search = .ok q →
        q.Overlooks d.storedIn names s.store t.store :=
      queryOf_overlooks hnames hr.distinct hstore hfilter hsort hsearch
    constructor
    · intro ctx
      rw [findMany_answer hr.named hs.serves, findMany_answer hr.named ht.serves]
      refine exceptBind_congr (w := fun q => q) rfl fun q q' hq _ hsame => ?_
      obtain rfl : q = q' := hsame
      refine exceptBind_congr (Store.find_redacted (hoverlooks hq))
        fun docs docs' hdocs hdocs' hsame => ?_
      rw [Store.instances_without hnames hr.distinct hdocs, hsame,
        ← Store.instances_without hnames hr.distinct hdocs']
    · intro page limit
      rw [paginate_answer hr.named hd hs.serves, paginate_answer hr.named hd ht.serves]
      refine bind_congr fun _ => bind_congr fun _ => ?_
      refine exceptBind_congr (w := fun q => q) rfl fun q q' hq _ hsame => ?_
      obtain rfl : q = q' := hsame
      refine exceptBind_congr (Store.paginate_redacted (hoverlooks hq) page limit)
        fun p p' hp hp' hsame => ?_
      rw [Store.pageOfInstances_without hnames hr.distinct hp, hsame,
        ← Store.pageOfInstances_without hnames hr.distinct hp']

end Unseen

/-! ## Agents -/

/-- An agent whose id, alias and rank are not shown. -/
def agentModel : Definition :=
  ⟨"Agent", [{ name := "id", storageType := "id", excludedOnOutput := true },
    { name := "codename", filterable := true, sortable := true },
    { name := "alias", excludedOnOutput := true },
    { name := "rank", storageType := "number", excludedOnOutput := true }],
    .all, true, "", false, none⟩

def agentModels : Registry where
  definitions := [agentModel]
  models := [("Agent", ⟨0, agentModel.declaredFields⟩)]

/-- An agent of an id, an alias and a rank beside another one. -/
def agentState (id name : String) (rank : Int) : State where
  types := agentModels.builtTypes
  store := ⟨[⟨"Agent", id, [("codename", .text "Blue"), ("alias", .text name),
      ("rank", .int rank)]⟩,
    ⟨"Agent", "a2", [("codename", .text "Red"), ("alias", .text "owl"), ("rank", .int 2)]⟩]⟩

theorem agentModels_reachable : agentModels.Reachable :=
  (Registry.Reachable.empty.define agentModel).registered 0 rfl

/-- The count of agents that a text search finds. -/
def agentsFound (search : String) (s : State) : Option Nat := do
  let found ← (ModelOperations.findMany ⟨agentModels, {}, agentModel⟩ .null .null .null
    (.text search) s).1.toOption
  return (← found.elements).length

theorem agents_evaluated : (buildAll agentModels {}).1.isOk ∧
    agentsFound "tiger" (agentState "a1" "tiger" 1) = some 1 ∧
    agentsFound "tiger" (agentState "a1" "lion" 1) = some 0 ∧
    (ModelOperations.findOne ⟨agentModels, {}, agentModel⟩ .null (.text "a1")
      (agentState "a1" "tiger" 1)).1.isOk ∧
    (ModelOperations.findOne ⟨agentModels, {}, agentModel⟩ .null (.text "a1")
      (agentState "a3" "tiger" 1)).1.isOk = false := by
  -- The recursions are opened to the depth of the model; the rest is evaluated.
  have hwhile := funext fun begun => funext (typeWhile.eq_def agentModels begun)
  have hfields := funext fun begun => funext fun key =>
    funext (fieldsWhile.eq_def agentModels begun key)
  have houtput := funext fun model => funext (toOutput_eq agentModels model)
  have hfield := funext fun f => funext (fieldOutput_eq agentModels f)
  have htype := funext fun key => funext (typeOf_eq agentModels key)
  unfold agentsFound agentState Registry.builtTypes ModelOperations.findMany
    ModelOperations.findOne ModelOperations.shape
  rw [houtput, hfield, htype]
  unfold buildAll buildModel filterTypeOf sortTypeOf typeOf
  rw [hwhile, hfields, hfields, hfields, hfields, hfields, hwhile]
  decide +kernel

theorem agentState_running (id name : String) (rank : Int) :
    agentModels.Running (agentState id name rank) := by
  have hbuilt : buildAll agentModels {} = (.ok (), agentModels.builtTypes) :=
    Step.eq_of_isOk agents_evaluated.1
  exact .built hbuilt _ ⟨0, 0, 0⟩ []

/-- Names of fields of agents that are unseen. -/
theorem agentModels_hides {name : String} (h : name = "alias" ∨ name = "rank") :
    agentModels.Hides "Agent" [name] := by
  refine ⟨agentModel.declaredFields, rfl, fun other hother => ?_⟩
  rw [List.mem_singleton.mp hother]
  rcases h with rfl | rfl
  · exact ⟨_, List.mem_cons_of_mem _ (List.mem_cons_of_mem _ List.mem_cons_self), rfl,
      rfl, rfl, rfl, by decide⟩
  · exact ⟨_, List.mem_cons_of_mem _ (List.mem_cons_of_mem _ (List.mem_cons_of_mem _
      List.mem_cons_self)), rfl, rfl, rfl, rfl, by decide⟩

def notRed : Value :=
  .object (some "AgentFilter") [("codename", .object (some "AgentCodenameFilter")
    [("ne", .text "Red")])]

def byCodename : Value :=
  .record [("codename", .text "desc")]

/-- A rank, which no text search looks into, is not noticed. -/
theorem reads_agents : agentModels.Reachable ∧ agentModel ∈ agentModels.registered ∧
    agentModels.Running (agentState "a1" "tiger" 1) ∧
    agentModels.Running (agentState "a1" "tiger" 7) ∧ agentModels.Hides "Agent" ["rank"] ∧
    (agentState "a1" "tiger" 1).store.without "Agent" ["rank"] =
      (agentState "a1" "tiger" 7).store.without "Agent" ["rank"] ∧
    (agentModels.shapeOf ⟨"Agent", .filter⟩).Admits notRed ∧
    (agentModels.shapeOf ⟨"Agent", .sort⟩).Admits byCodename ∧
    ModelOperations.SearchesAlike ⟨agentModels, {}, agentModel⟩ (.text "tiger") ["rank"]
      (agentState "a1" "tiger" 1).store (agentState "a1" "tiger" 7).store ∧
    (ModelOperations.findOne ⟨agentModels, {}, agentModel⟩ .null (.text "a1")
      (agentState "a1" "tiger" 1)).1 =
      (ModelOperations.findOne ⟨agentModels, {}, agentModel⟩ .null (.text "a1")
        (agentState "a1" "tiger" 7)).1 ∧
    (ModelOperations.findMany ⟨agentModels, {}, agentModel⟩ .null notRed byCodename (.text "tiger")
      (agentState "a1" "tiger" 1)).1 =
      (ModelOperations.findMany ⟨agentModels, {}, agentModel⟩ .null notRed byCodename
        (.text "tiger") (agentState "a1" "tiger" 7)).1 ∧
    (ModelOperations.paginate ⟨agentModels, {}, agentModel⟩ notRed byCodename (.int 1) (.int 5)
      (.text "tiger") (agentState "a1" "tiger" 1)).1 =
      (ModelOperations.paginate ⟨agentModels, {}, agentModel⟩ notRed byCodename (.int 1) (.int 5)
        (.text "tiger") (agentState "a1" "tiger" 7)).1 := by
  have hmem : agentModel ∈ agentModels.registered := List.mem_cons_self
  have hhides := agentModels_hides (Or.inr rfl)
  have hstore : (agentState "a1" "tiger" 1).store.without "Agent" ["rank"] =
      (agentState "a1" "tiger" 7).store.without "Agent" ["rank"] := rfl
  have hfilter : (agentModels.shapeOf ⟨"Agent", .filter⟩).Admits notRed := .instance (by decide)
  have hsort : (agentModels.shapeOf ⟨"Agent", .sort⟩).Admits byCodename := .record (by decide)
  have hsearch : ModelOperations.SearchesAlike ⟨agentModels, {}, agentModel⟩ (.text "tiger")
      ["rank"] (agentState "a1" "tiger" 1).store (agentState "a1" "tiger" 7).store :=
    ModelOperations.searchesAlike_of_fields
      (show agentModels.fieldsOf "Agent" = .ok agentModel.declaredFields from rfl)
      (fun _ _ => by decide) _ _
  have hreads := reads_unseen agentModels_reachable hmem (agentState_running "a1" "tiger" 1)
    (agentState_running "a1" "tiger" 7) hhides hstore
  obtain ⟨hmany, hpages⟩ := hreads.2 notRed byCodename (.text "tiger") hfilter hsort hsearch
  exact ⟨agentModels_reachable, hmem, agentState_running "a1" "tiger" 1,
    agentState_running "a1" "tiger" 7, hhides, hstore, hfilter, hsort, hsearch,
    hreads.1 .null (.text "a1"), hmany .null, hpages (.int 1) (.int 5)⟩

/-- An alias is not shown, but a text search tells whether it holds the text. An id that is not
shown tells whether a document is found by it. -/
theorem findMany_alias_told : agentModels.Reachable ∧ agentModel ∈ agentModels.registered ∧
    (∀ id name rank, agentModels.Running (agentState id name rank)) ∧
    agentModels.Hides "Agent" ["alias"] ∧
    (agentState "a1" "tiger" 1).store.without "Agent" ["alias"] =
      (agentState "a1" "lion" 1).store.without "Agent" ["alias"] ∧
    (ModelOperations.findMany ⟨agentModels, {}, agentModel⟩ .null .null .null (.text "tiger")
      (agentState "a1" "tiger" 1)).1 ≠
      (ModelOperations.findMany ⟨agentModels, {}, agentModel⟩ .null .null .null (.text "tiger")
        (agentState "a1" "lion" 1)).1 ∧
    (∃ f ∈ agentModel.declaredFields, f.isId ∧ f.excludedOnOutput ∧ f.filterable = false ∧
      f.sortable = false) ∧
    (ModelOperations.findOne ⟨agentModels, {}, agentModel⟩ .null (.text "a1")
      (agentState "a1" "tiger" 1)).1 ≠
      (ModelOperations.findOne ⟨agentModels, {}, agentModel⟩ .null (.text "a1")
        (agentState "a3" "tiger" 1)).1 := by
  obtain ⟨-, htiger, hlion, hfound, hmissing⟩ := agents_evaluated
  refine ⟨agentModels_reachable, List.mem_cons_self, agentState_running,
    agentModels_hides (Or.inl rfl), rfl, fun hsame => ?_,
    ⟨_, List.mem_cons_self, rfl, rfl, rfl, rfl⟩, fun hsame => ?_⟩
  · unfold agentsFound at htiger hlion
    rw [hsame, hlion] at htiger
    cases htiger
  · rw [hsame, hmissing] at hfound
    cases hfound

end DocumentApi
