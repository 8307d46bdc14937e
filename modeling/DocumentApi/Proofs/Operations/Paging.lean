import DocumentApi.Proofs.Operations.RoundTrip
import DocumentApi.Proofs.Store.Pages
import DocumentApi.Proofs.Types.Steady
import Mathlib.Order.Bounds.Defs

/-!
# Pages of the documents that a query finds

* `ModelOperations.queryOf`: the query that `findMany` and `paginate` make of the same arguments.
* `ModelOperations.paginate_ok`: a page of the documents of a query, in every state of an api.
* `paginate_findMany`: the pages one after another are what `findMany` answers.
-/

namespace DocumentApi

theorem pageOf_forall₂ {α β : Type} {R : α → β → Prop} {xs : List α} {ys : List β}
    (h : List.Forall₂ R xs ys) (page limit : Nat) :
    List.Forall₂ R (pageOf xs page limit) (pageOf ys page limit) :=
  List.forall₂_take _ (List.forall₂_drop _ h)

namespace ModelOperations

variable {r : Registry} {d : Definition} {s t u : State} {filter sort search found : Value}

/-- The query of a filter, a sort order and a search. -/
def queryOf (m : ModelOperations) (filter sort search : Value) : Except Error Query := do
  let filter ← filter.asFilter
  let sort ← sort.asFields
  let keys ← sortKeys (.record sort)
  let search ← m.searchOf search
  return ⟨.record filter, keys, search⟩

/-- Without hooks the documents of the query become the answer one by one. -/
theorem findMany_ok {m : ModelOperations} (hhooks : m.hooks = {}) {ctx : Value}
    (h : m.findMany ctx filter sort search s = (.ok found, t)) :
    ∃ q docs items, m.queryOf filter sort search = .ok q ∧
      s.store.find m.model.storedIn q = .ok docs ∧ Step.each m.shape docs s = (.ok items, t) ∧
      found = .list items := by
  have hdispatch := m.dispatch_eq hhooks
  unfold findMany at h
  obtain ⟨filter', s', hstep, h⟩ := Step.bind_ok h
  obtain ⟨hfilter, rfl⟩ := Step.ofExcept_ok hstep
  obtain ⟨sort', s', hstep, h⟩ := Step.bind_ok h
  obtain ⟨hsort, rfl⟩ := Step.ofExcept_ok hstep
  rw [hdispatch] at h
  obtain ⟨before, s', hstep, h⟩ := Step.bind_ok h
  obtain ⟨rfl, rfl⟩ := Step.pure_ok hstep
  obtain ⟨keys, s', hstep, h⟩ := Step.bind_ok h
  obtain ⟨hkeys, rfl⟩ := Step.ofExcept_ok hstep
  obtain ⟨search', s', hstep, h⟩ := Step.bind_ok h
  obtain ⟨hsearch, rfl⟩ := Step.ofExcept_ok hstep
  obtain ⟨docs, s', hstep, h⟩ := Step.bind_ok h
  obtain ⟨hdocs, rfl⟩ := Prod.mk.inj hstep
  obtain ⟨items, s', hitems, h⟩ := Step.bind_ok h
  rw [hdispatch] at h
  cases h
  refine ⟨⟨.record filter', keys, search'⟩, docs, items, ?_, hdocs, hitems, rfl⟩
  unfold queryOf
  rw [hfilter, hsort]
  dsimp only [bind, Except.bind]
  rw [show sortKeys (.record sort') = .ok keys from hkeys, hsearch]
  rfl

theorem checkPositive_int {refuse : Value → Error} {i : Nat} (h : 1 ≤ i) :
    checkPositive refuse (.int i) = .ok () := by
  have horder : Value.compare? (.int i) (.int 1) = some (Ord.compare (i : Int) 1) := rfl
  unfold checkPositive
  rw [if_neg (by simp [Value.isNull]), horder]
  split
  · rename_i hlt
    have := compare_lt_iff_lt.mp (Option.some.inj hlt)
    omega
  · rfl
  · rename_i hnone
    cases hnone

/-- The page of instances. -/
def pageAnswer (model : String) (items : List Value) (page limit : Nat) : Value :=
  .object (some (TypeKind.pagination.typeName model)) [
    ("docs", .list (pageOf items page limit)),
    ("totalDocs", .int items.length),
    ("page", .int page),
    ("limit", .int limit),
    ("hasPrevPage", .bool (decide (1 < page))),
    ("hasNextPage", .bool (decide (page * limit < items.length))),
    ("totalPages", .int (items.length ⌈/⌉ limit : Nat))]

theorem shape_eq (hr : r.Named) (hs : s.types.Serves r) (doc : Fields) :
    shape ⟨r, {}, d⟩ doc s = ((toOutput r (some d.name) (.record doc) r.builtTypes).1, s) := by
  unfold shape State.onTypes Step.zoom
  dsimp only
  rw [hs.toOutput_eq hr]

/-- A page of the documents of a query is made of their instances, in every state of an api. -/
theorem paginate_ok (hr : r.Named) (hd : d ∈ r.registered) (hs : s.types.Serves r) {q : Query}
    {docs : List Fields} {items : List Value} {page limit : Nat}
    (hq : queryOf ⟨r, {}, d⟩ filter sort search = .ok q)
    (hdocs : s.store.find d.storedIn q = .ok docs)
    (hitems : List.Forall₂ (fun doc item =>
      (toOutput r (some d.name) (.record doc) r.builtTypes).1 = .ok item) docs items)
    (hsize : docs.length < 2 ^ 53) (hp : 1 ≤ page) (hl : 1 ≤ limit) (hl' : limit < 2 ^ 53)
    (hoffset : (page - 1) * limit < 2 ^ 63) :
    ∃ types, paginate ⟨r, {}, d⟩ filter sort (.int page) (.int limit) search s =
      (.ok (pageAnswer d.name items page limit), { s with types }) := by
  obtain ⟨types, htype, hserves⟩ := hs.typeOf_page hr (hr.model? hd)
  refine ⟨types, ?_⟩
  have hpage := Store.paginate_eq hdocs hsize hp hl hl' hoffset
  have hshown : Step.each (fun doc : Value => do shape ⟨r, {}, d⟩ (← Step.ofExcept doc.toFields))
      ((pageOf docs page limit).map .record) { s with types } =
        (.ok (pageOf items page limit), { s with types }) := by
    rw [Step.each_map]
    refine Step.each_of_forall₂ ((pageOf_forall₂ hitems page limit).imp fun doc item hitem => ?_)
    show shape ⟨r, {}, d⟩ doc { s with types } = _
    rw [shape_eq hr hserves, hitem]
  obtain ⟨filter', hfilter, hq⟩ := exceptBind_ok hq
  obtain ⟨sort', hsort, hq⟩ := exceptBind_ok hq
  obtain ⟨keys, hkeys, hq⟩ := exceptBind_ok hq
  obtain ⟨search', hsearch, hq⟩ := exceptBind_ok hq
  cases hq
  have hof : ∀ {α : Type} {x : Except Error α} {a : α}, x = .ok a →
      (Step.ofExcept x : Step State α) s = (.ok a, s) := by
    intro α x a hx
    rw [hx]
    rfl
  have hread : State.readStore (fun s => s.paginate d.storedIn ⟨.record filter', keys, search'⟩
      (.int page) (.int limit)) s = (.ok (Page.ofDocuments docs page limit), s) :=
    Prod.ext hpage rfl
  have hpageType : State.onTypes (typeOf r ⟨d.name, .pagination⟩) s =
      (.ok (pageShape d.name), { s with types }) := by
    unfold State.onTypes Step.zoom
    dsimp only
    rw [htype]
  unfold paginate
  refine (Step.bind_of_ok (hof (checkPositive_int hp))).trans ?_
  refine (Step.bind_of_ok (hof (checkPositive_int hl))).trans ?_
  refine (Step.bind_of_ok (hof hfilter)).trans ((Step.bind_of_ok (hof hsort)).trans ?_)
  refine (Step.bind_of_ok (hof hkeys)).trans ((Step.bind_of_ok (hof hsearch)).trans ?_)
  refine (Step.bind_of_ok hread).trans ((Step.bind_of_ok hpageType).trans ?_)
  refine (Step.bind_of_ok hshown).trans ?_
  unfold pageAnswer
  rw [← hitems.length_eq]
  rfl

end ModelOperations

/-- The pages of a query, from the first to the last, hold what `findMany` answers in its order, and
later pages hold nothing. Every page tells the length of the whole list, the least count of pages
that hold it, and whether there are items before and after it. -/
theorem paginate_findMany {r : Registry} {d : Definition} {s t : State}
    {ctx filter sort search found : Value} {limit : Nat} (hr : r.Reachable) (hd : d ∈ r.registered)
    (hs : r.Running s)
    (hfind : ModelOperations.findMany ⟨r, {}, d⟩ ctx filter sort search s = (.ok found, t))
    (hsize : s.store.entries.length < 2 ^ 53) (hl : 1 ≤ limit) (hl' : limit < 2 ^ 31) :
    ∃ (items : List Value) (pages : Nat) (docs : Nat → List Value), found = .list items ∧
      IsLeast {p | items.length ≤ p * limit} pages ∧
      ((List.range pages).flatMap fun i => docs (i + 1)) = items ∧
      (∀ page, pages < page → docs page = []) ∧
      ∀ u, r.Running u → u.store = s.store → ∀ page, 1 ≤ page → page < 2 ^ 31 ∨ page ≤ pages →
        ∃ types, ModelOperations.paginate ⟨r, {}, d⟩ filter sort (.int page) (.int limit) search u =
          (.ok (.object (some (TypeKind.pagination.typeName d.name)) [
            ("docs", .list (docs page)),
            ("totalDocs", .int items.length),
            ("page", .int page),
            ("limit", .int limit),
            ("hasPrevPage", .bool (decide (1 < page))),
            ("hasNextPage", .bool (decide (page * limit < items.length))),
            ("totalPages", .int pages)]), { u with types }) := by
  obtain ⟨q, docs, items, hq, hdocs, hitems, rfl⟩ := ModelOperations.findMany_ok rfl hfind
  obtain ⟨hitems, -⟩ := Step.forall₂_of_each
    (ModelOperations.shape_eq (d := d) hr.named hs.serves) hitems
  have hcount : docs.length < 2 ^ 53 := lt_of_le_of_lt (Store.find_length_le hdocs) hsize
  have hpages : ∀ p, items.length ≤ p * limit ↔ items.length ⌈/⌉ limit ≤ p := fun p => by
    rw [mul_comm]
    exact (ceilDiv_le_iff_le_mul hl).symm
  refine ⟨items, items.length ⌈/⌉ limit, fun page => pageOf items page limit, rfl,
    ⟨(hpages _).mpr le_rfl, fun p hp => (hpages p).mp hp⟩, flatMap_pages_ceil items hl,
    fun page => pageOf_past hl, ?_⟩
  intro u hu hstore page hp hpage
  refine ModelOperations.paginate_ok hr.named hd hu.serves hq (hstore ▸ hdocs) hitems hcount hp hl
    (hl'.trans (by norm_num)) ?_
  -- The offset fits a column: the page is small, or it begins within the documents.
  rcases hpage with hpage | hpage
  · calc (page - 1) * limit ≤ 2 ^ 31 * 2 ^ 31 := Nat.mul_le_mul (by omega) hl'.le
      _ < 2 ^ 63 := by norm_num
  · have hbefore : (page - 1) * limit < items.length := by
      rw [← not_le, hpages]
      omega
    rw [← hitems.length_eq] at hbefore
    exact hbefore.trans (hcount.trans (by norm_num))

/-! ## Notes -/

/-- Notes among which an order is stored, one of them without a text. -/
def noteState : State where
  types := (buildAll orderModels {}).2
  store := ⟨[⟨"Note", "n1", [("text", .text "Milk")]⟩, ⟨"Order", "o1", []⟩,
    ⟨"Note", "n2", [("text", .text "Bread")]⟩, ⟨"Note", "n3", []⟩,
    ⟨"Note", "n4", [("text", .text "Apples")]⟩, ⟨"Note", "n5", [("text", .text "Milk")]⟩]⟩

/-- The notes that are not about bread, by a condition that is left over for the documents. -/
def notBread : Value :=
  .record [("text", .record [("notIn", .list [.text "Bread", .int 7])])]

/-- The ids of the instances in a list. -/
def Value.shownIds : Value → List String
  | .list items => items.map fun item => (Fields.get item.shown "id").display
  | _ => []

theorem notes_evaluated :
    (ModelOperations.findMany ⟨orderModels, {}, noteModel⟩ .null notBread .null .null
      noteState).1.toOption.map Value.shownIds =
        some ["n1", "n3", "n4", "n5"] := by
  -- The recursions are opened to the depth of the model; the rest is evaluated.
  have hwhile := funext fun begun => funext (typeWhile.eq_def orderModels begun)
  have hfields := funext fun begun => funext fun key =>
    funext (fieldsWhile.eq_def orderModels begun key)
  have houtput := funext fun model => funext (toOutput_eq orderModels model)
  have hfield := funext fun f => funext (fieldOutput_eq orderModels f)
  have htype := funext fun key => funext (typeOf_eq orderModels key)
  unfold noteState ModelOperations.findMany ModelOperations.shape
  rw [houtput, hfield, htype]
  unfold buildAll buildModel filterTypeOf sortTypeOf typeOf
  rw [hwhile, hfields, hfields, hfields, hfields, hfields, hfields, hwhile]
  decide +kernel

/-- Four notes are found, which fill a page of three and begin a second one. -/
theorem paginate_notes : orderModels.Reachable ∧ noteModel ∈ orderModels.registered ∧
    orderModels.Running noteState ∧ noteState.store.entries.length < 2 ^ 53 ∧ ∃ found t,
      ModelOperations.findMany ⟨orderModels, {}, noteModel⟩ .null notBread .null .null noteState =
        (.ok found, t) ∧
      ∃ docs : Nat → List Value, found = .list (docs 1 ++ docs 2) ∧ docs 3 = [] ∧ ∃ types,
        ModelOperations.paginate ⟨orderModels, {}, noteModel⟩ notBread .null (.int 2) (.int 3) .null
          noteState = (.ok (.object (some "NotePagination") [
            ("docs", .list (docs 2)), ("totalDocs", .int 4), ("page", .int 2), ("limit", .int 3),
            ("hasPrevPage", .bool true), ("hasNextPage", .bool false), ("totalPages", .int 2)]),
          { noteState with types }) := by
  have hmem : noteModel ∈ orderModels.registered :=
    List.mem_cons_of_mem _ (List.mem_cons_of_mem _ List.mem_cons_self)
  have hsize : noteState.store.entries.length < 2 ^ 53 := by decide
  have hrunning : orderModels.Running noteState := by
    obtain ⟨types, hbuilt⟩ := orderState_running.serves.built
    have hanswer : buildAll orderModels {} = (.ok (), noteState.types) :=
      Prod.ext (by rw [hbuilt]) rfl
    exact .built hanswer noteState.store ⟨0, 0, 0⟩ []
  have hshown := notes_evaluated
  generalize hfind : ModelOperations.findMany ⟨orderModels, {}, noteModel⟩ .null notBread .null .null
    noteState = result at hshown
  obtain ⟨e | found, t⟩ := result
  · cases hshown
  obtain ⟨items, pages, docs, rfl, ⟨hholds, hleast⟩, hall, hpast, hpages⟩ :=
    paginate_findMany orderModels_reachable hmem hrunning hfind hsize (show 1 ≤ 3 by decide)
      (by decide)
  have hfour : items.length = 4 := by
    have := congrArg List.length (Option.some.inj hshown)
    simpa [Value.shownIds] using this
  have htwo : pages = 2 := by
    have hle := hleast (show items.length ≤ 2 * 3 by omega)
    have hge : items.length ≤ pages * 3 := hholds
    omega
  subst htwo
  obtain ⟨types, hpage⟩ := hpages noteState hrunning rfl 2 (by decide) (Or.inl (by decide))
  rw [hfour] at hpage
  refine ⟨orderModels_reachable, hmem, hrunning, hsize, .list items, t, rfl, docs, ?_,
    hpast 3 (by decide), types, hpage⟩
  rw [← hall]
  simp [List.range_succ]

end DocumentApi
