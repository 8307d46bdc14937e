import DocumentApi.Proofs.Store.Orderings

/-!
# Queries of redacted documents

A document is redacted by taking the values of some names out of it. A query that asks for none of
these names cannot tell a document from a redacted one.

* `Fields.without`, `Entry.without`, `Store.without`: documents without the values of names.
* `Query.Overlooks`: a query that asks for none of the names that two stores differ in, and whose
  search finds the same documents in both.
* `Store.find?_redacted`, `Store.find_redacted`, `Store.paginate_redacted`: what two such stores
  answer differs in these names alone.
-/

namespace DocumentApi

variable {names : List String} {key collection : String}

/-! ## Redacted documents -/

/-- The fields apart from those of names. -/
def Fields.without (names : List String) (fields : Fields) : Fields :=
  fields.filter fun entry => !names.contains entry.1

/-- A document without the values of names. -/
def Value.without (names : List String) : Value → Value
  | .record doc => .record (Fields.without names doc)
  | v => v

/-- An entry without the values of names. -/
def Entry.without (names : List String) (e : Entry) : Entry :=
  { e with fields := Fields.without names e.fields }

/-- A store whose documents in a collection have no values of names. -/
def Store.without (s : Store) (collection : String) (names : List String) : Store :=
  ⟨s.entries.map fun e => if e.collection = collection then e.without names else e⟩

/-- A page whose documents have no values of names. -/
def Page.without (names : List String) (p : Page) : Page :=
  { p with docs := p.docs.map (Value.without names) }

theorem Fields.find?_without (fields : Fields) (h : key ∉ names) :
    Table.find? (Fields.without names fields) key = Table.find? fields key := by
  induction fields with
  | nil => rfl
  | cons entry fields ih =>
    unfold without at ih ⊢
    rw [Table.find?_cons]
    by_cases hsame : entry.1 = key
    · rw [List.filter_cons_of_pos (by simpa [hsame] using h), Table.find?_cons, if_pos hsame,
        if_pos hsame]
    · rw [if_neg hsame, ← ih, List.filter_cons]
      split
      · rw [Table.find?_cons, if_neg hsame]
      · rfl

theorem Fields.get_without (fields : Fields) (h : key ∉ names) :
    Fields.get (Fields.without names fields) key = Fields.get fields key := by
  unfold get
  rw [Fields.find?_without fields h]

theorem Fields.without_set (fields : Fields) (v : Value) (h : key ∉ names) :
    Fields.without names (Table.set fields key v) =
      Table.set (Fields.without names fields) key v := by
  have hkept : ∀ w : Value, !names.contains (key, w).1 := fun w => by simpa using h
  induction fields with
  | nil => exact List.filter_cons_of_pos (hkept v)
  | cons entry fields ih =>
    obtain ⟨name, w⟩ := entry
    have hset : ∀ rest : Fields, Table.set ((name, w) :: rest) key v =
        if name = key then (name, v) :: rest else (name, w) :: Table.set rest key v := fun _ => rfl
    unfold without at ih ⊢
    rw [hset]
    by_cases hsame : name = key
    · subst hsame
      rw [if_pos rfl, List.filter_cons, List.filter_cons, if_pos (hkept v), if_pos (hkept w), hset,
        if_pos rfl]
    · rw [if_neg hsame, List.filter_cons, List.filter_cons, ih]
      split
      · rw [hset, if_neg hsame]
      · rfl

/-- The id of a document is no field of its entry. -/
theorem Entry.document_without (e : Entry) (h : "id" ∉ names) :
    (e.without names).document = Fields.without names e.document :=
  (Fields.without_set e.fields _ h).symm

/-! ## Queries -/

theorem ColumnCondition.holds_without {c : ColumnCondition} (h : c.key ∉ names) (e : Entry) :
    c.holds (e.without names) = c.holds e := by
  unfold holds cell Entry.without
  dsimp only
  rw [Fields.get_without _ h]

theorem Condition.allMatch_without {cs : List Condition} (h : ∀ c ∈ cs, c.key ∉ names)
    (doc : Fields) : allMatch (Fields.without names doc) cs = allMatch doc cs := by
  induction cs with
  | nil => rfl
  | cons c cs ih =>
    unfold allMatch matchesDocument
    rw [Fields.get_without _ (h c List.mem_cons_self),
      ih fun c hc => h c (List.mem_cons_of_mem _ hc)]

theorem Plan.keepMatching_without {leftover : List Condition} (h : ∀ c ∈ leftover, c.key ∉ names)
    (docs : List Fields) :
    keepMatching leftover (docs.map (Fields.without names)) =
      (keepMatching leftover docs).map (List.map (Fields.without names)) := by
  induction docs with
  | nil => rfl
  | cons doc docs ih =>
    rw [List.map_cons]
    unfold keepMatching
    rw [Condition.allMatch_without h, ih]
    cases Condition.allMatch doc leftover with
    | error e => rfl
    | ok kept =>
      cases keepMatching leftover docs with
      | error e => rfl
      | ok rest => cases kept <;> rfl

/-- A plan asks for the names that its conditions are on. -/
theorem Plan.sortOut_keys {named : List NamedCondition} {columns : List ColumnCondition}
    {leftover : List Condition} (h : sortOut named = .ok (columns, leftover)) :
    (∀ c ∈ columns, ∃ n ∈ named, n.key = c.key) ∧ ∀ c ∈ leftover, ∃ n ∈ named, n.key = c.key := by
  induction named generalizing columns leftover with
  | nil =>
    cases h
    exact ⟨fun c hc => absurd hc List.not_mem_nil, fun c hc => absurd hc List.not_mem_nil⟩
  | cons n named ih =>
    unfold sortOut at h
    obtain ⟨c, hc, h⟩ := exceptBind_ok h
    obtain ⟨column?, hcolumn, h⟩ := exceptBind_ok h
    obtain ⟨⟨columns', leftover'⟩, hrest, h⟩ := exceptBind_ok h
    obtain ⟨hcolumns, hleftover⟩ := ih hrest
    have hlater : ∀ {key}, (∃ n ∈ named, n.key = key) → ∃ m ∈ n :: named, m.key = key := by
      rintro key ⟨m, hm, hkey⟩
      exact ⟨m, List.mem_cons_of_mem _ hm, hkey⟩
    have hkey : n.key = c.key := by
      unfold Condition.read at hc
      split at hc
      · cases hc
        rfl
      · cases hc
    cases column? with
    | none =>
      cases h
      refine ⟨fun c' hc' => hlater (hcolumns c' hc'), fun c' hc' => ?_⟩
      rcases List.mem_cons.mp hc' with rfl | hc'
      · exact ⟨n, List.mem_cons_self, hkey⟩
      · exact hlater (hleftover c' hc')
    | some column =>
      cases h
      refine ⟨fun c' hc' => ?_, fun c' hc' => hlater (hleftover c' hc')⟩
      rcases List.mem_cons.mp hc' with rfl | hc'
      · exact ⟨n, List.mem_cons_self, hkey.trans (Condition.toColumn_eq_some hcolumn).1.symm⟩
      · exact hlater (hcolumns c' hc')

theorem allComparable_without (h : key ∉ names) (docs : List Fields) :
    allComparable key (docs.map (Fields.without names)) = allComparable key docs := by
  induction docs with
  | nil => rfl
  | cons doc docs ih =>
    rw [List.map_cons]
    unfold allComparable
    rw [ih, List.all_map]
    simp only [Function.comp_def, Fields.get_without _ h]

theorem sortByKey_without {order : SortKey} (h : order.field ∉ names) (docs : List Fields) :
    sortByKey (docs.map (Fields.without names)) order =
      (sortByKey docs order).map (List.map (Fields.without names)) := by
  unfold sortByKey
  rw [allComparable_without h]
  split
  · refine congrArg Except.ok (List.map_mergeSort fun a _ b _ => ?_).symm
    unfold notAfter
    rw [Fields.get_without a h, Fields.get_without b h]
  · rfl

theorem sortDocuments_without {keys : List SortKey} (h : ∀ order ∈ keys, order.field ∉ names)
    (docs : List Fields) :
    sortDocuments (docs.map (Fields.without names)) keys =
      (sortDocuments docs keys).map (List.map (Fields.without names)) := by
  have hreverse : ∀ order ∈ keys.reverse, order.field ∉ names :=
    fun order horder => h order (List.mem_reverse.mp horder)
  unfold sortDocuments
  generalize keys.reverse = orders at hreverse
  induction orders generalizing docs with
  | nil => rfl
  | cons order orders ih =>
    rw [List.foldlM_cons, List.foldlM_cons, sortByKey_without (hreverse order List.mem_cons_self)]
    cases sortByKey docs order with
    | error e => rfl
    | ok sorted => exact ih sorted fun o ho => hreverse o (List.mem_cons_of_mem _ ho)

/-! ## Pages -/

/-- A page is counted without a look at its documents. -/
theorem Page.build_without (docs : List Value) (total page limit : Value) :
    Page.build (docs.map (Value.without names)) total page limit =
      (Page.build docs total page limit).map (Page.without names) := by
  unfold build
  cases countPages total limit with
  | error e => rfl
  | ok pages =>
    dsimp only [bind, Except.bind]
    cases isPast page (.int 1) with
    | error e => rfl
    | ok prev =>
      dsimp only
      cases isPast (.int pages) page <;> rfl

theorem window_map {α β : Type} (f : α → β) (items : List α) (start stop : Int) :
    window (items.map f) start stop = (window items start stop).map f := by
  unfold window
  rw [List.length_map, List.map_drop, List.map_take]

namespace Store

theorem cut_map (f : Entry → Entry) (selected : List Entry) (offset count : Int) :
    cut (selected.map f) offset count = (cut selected offset count).map (List.map f) := by
  unfold cut
  split
  · rfl
  · refine congrArg Except.ok ?_
    split
    · rw [List.map_drop]
    · rw [List.map_take, List.map_drop]

theorem columnPage_without (hid : "id" ∉ names) (selected : List Entry) (page limit : Value) :
    columnPage (selected.map (Entry.without names)) page limit =
      (columnPage selected page limit).map (Page.without names) := by
  unfold columnPage
  cases Page.countBefore page limit with
  | error e => rfl
  | ok offset =>
    dsimp only [bind, Except.bind]
    cases limit.number? with
    | none => rfl
    | some count =>
      dsimp only
      rw [cut_map, List.length_map]
      cases cut selected offset.truncate count.truncate with
      | error e => rfl
      | ok shown =>
        have hshown : (shown.map (Entry.without names)).map (fun e => Value.record e.document) =
            (shown.map fun e => Value.record e.document).map (Value.without names) := by
          rw [List.map_map, List.map_map]
          exact List.map_congr_left fun e _ => congrArg Value.record (e.document_without hid)
        show Page.build ((shown.map (Entry.without names)).map _) _ _ _ = _
        rw [hshown, Page.build_without]

theorem slicePage_without (docs : List Fields) (page limit : Value) :
    slicePage (docs.map (Fields.without names)) page limit =
      (slicePage docs page limit).map (Page.without names) := by
  unfold slicePage
  cases Page.countBefore page limit with
  | error e => rfl
  | ok before =>
    dsimp only [bind, Except.bind]
    split
    · rw [window_map, List.length_map, ← Page.build_without, List.map_map, List.map_map]
      rfl
    · rfl

end Store

/-! ## Stores that differ in names -/

theorem filter_map_congr {α β : Type} {f : α → β} {p q : α → Bool} {xs ys : List α}
    (h : xs.map f = ys.map f) (hpq : ∀ x ∈ xs, ∀ y ∈ ys, f x = f y → p x = q y) :
    (xs.filter p).map f = (ys.filter q).map f := by
  induction xs generalizing ys with
  | nil =>
    cases ys with
    | nil => rfl
    | cons y ys => cases h
  | cons x xs ih =>
    cases ys with
    | nil => cases h
    | cons y ys =>
      obtain ⟨hxy, hrest⟩ := List.cons.inj h
      have ih := ih hrest fun a ha b hb =>
        hpq a (List.mem_cons_of_mem _ ha) b (List.mem_cons_of_mem _ hb)
      rw [List.filter_cons, List.filter_cons,
        hpq x List.mem_cons_self y List.mem_cons_self hxy]
      split
      · rw [List.map_cons, List.map_cons, hxy, ih]
      · exact ih

/-- Of two documents that differ in names alone, one in each store, a search finds both or
neither. -/
def Search.FindsAlike (search : Search) (collection : String) (names : List String) (s t : Store) :
    Prop :=
  ∀ e ∈ s.entries, ∀ e' ∈ t.entries, e.collection = collection → e'.collection = collection →
    e.without names = e'.without names → search.selects e = search.selects e'

/-- A search that looks in none of the names. -/
theorem Search.findsAlike_of_fields {search : Search} (h : ∀ key ∈ search.fields, key ∉ names)
    (collection : String) (s t : Store) : search.FindsAlike collection names s t := by
  intro e _ e' _ _ _ hsame
  have hselects : ∀ e : Entry, search.selects (e.without names) = search.selects e := by
    intro e
    unfold selects
    rw [Bool.eq_iff_iff, List.any_eq_true, List.any_eq_true]
    refine exists_congr fun key => and_congr_right fun hkey => ?_
    rw [← Fields.get_without e.fields (h key hkey)]
    rfl
  rw [← hselects, hsame, hselects]

/-- The stores differ in values of names alone, none of which is the id, and the query asks for none
of them; what it searches, it finds in the same documents. -/
structure Query.Overlooks (q : Query) (collection : String) (names : List String) (s t : Store) :
    Prop where
  apart : s.without collection names = t.without collection names
  id : "id" ∉ names
  filter : ∀ named, namedConditions q.filter = .ok named → ∀ c ∈ named, c.key ∉ names
  sort : ∀ order ∈ q.sort, order.field ∉ names
  search : ∀ search, Search.ofValue q.search = .ok (some search) →
    search.FindsAlike collection names s t

variable {s t : Store} {q : Query} {plan : Plan}

/-- A plan of such a query is on no name. -/
theorem Query.Overlooks.of_plan (h : q.Overlooks collection names s t)
    (hplan : Plan.make q.filter q.search = .ok plan) :
    (∀ c ∈ plan.columns, c.key ∉ names) ∧ (∀ c ∈ plan.leftover, c.key ∉ names) ∧
      ∀ search, plan.search = some search → search.FindsAlike collection names s t := by
  unfold Plan.make at hplan
  obtain ⟨named, hnamed, hplan⟩ := exceptBind_ok hplan
  obtain ⟨⟨columns, leftover⟩, hsort, hplan⟩ := exceptBind_ok hplan
  obtain ⟨search?, hsearch, hplan⟩ := exceptBind_ok hplan
  cases hplan
  obtain ⟨hcolumns, hleftover⟩ := Plan.sortOut_keys hsort
  refine ⟨fun c hc => ?_, fun c hc => ?_, fun search hsome => h.search search (hsome ▸ hsearch)⟩
  · obtain ⟨n, hn, hkey⟩ := hcolumns c hc
    exact hkey ▸ h.filter named hnamed n hn
  · obtain ⟨n, hn, hkey⟩ := hleftover c hc
    exact hkey ▸ h.filter named hnamed n hn

/-- Entries that differ in the names alone are selected alike. -/
theorem Query.Overlooks.selects (h : q.Overlooks collection names s t)
    (hplan : Plan.make q.filter q.search = .ok plan) {e e' : Entry} (he : e ∈ s.entries)
    (he' : e' ∈ t.entries) (hcollection : e.collection = collection)
    (hcollection' : e'.collection = collection) (hsame : e.without names = e'.without names) :
    plan.selects e = plan.selects e' := by
  obtain ⟨hcolumns, -, hsearch⟩ := h.of_plan hplan
  have hall : plan.columns.all (·.holds e) = plan.columns.all (·.holds e') := by
    rw [Bool.eq_iff_iff, List.all_eq_true, List.all_eq_true]
    refine forall₂_congr fun c hc => ?_
    rw [← c.holds_without (hcolumns c hc) e, hsame, c.holds_without (hcolumns c hc) e']
  unfold Plan.selects
  rw [hall]
  cases hplanned : plan.search with
  | none => rfl
  | some search =>
    dsimp only
    rw [hsearch search hplanned e he e' he' hcollection hcollection' hsame]

namespace Store

/-- A document that is looked for by its id is there in both stores or in neither. -/
theorem find?_redacted (h : s.without collection names = t.without collection names) (id : String) :
    (s.find? collection id).map (Entry.without names) =
      (t.find? collection id).map (Entry.without names) := by
  have hfind : ∀ u : Store, (u.find? collection id).map (Entry.without names) =
      (u.without collection names).find? collection id := by
    intro u
    have hplace : ((fun e : Entry => e.isAt collection id) ∘
        fun e => if e.collection = collection then e.without names else e) =
          fun e => e.isAt collection id := by
      funext e
      dsimp only [Function.comp]
      split <;> rfl
    unfold find? Store.without
    rw [List.find?_map, hplace]
    cases hfound : u.entries.find? fun e => e.isAt collection id with
    | none => rfl
    | some e =>
      obtain ⟨hat, -⟩ := List.find?_eq_some_iff_append.mp hfound
      exact congrArg some (if_pos (beq_iff_eq.mp (Bool.and_eq_true_iff.mp hat).1)).symm
  rw [hfind, hfind, h]

/-- A plan of such a query selects the same documents. -/
theorem selected_redacted (h : q.Overlooks collection names s t)
    (hplan : Plan.make q.filter q.search = .ok plan) :
    (plan.selected collection s.entries).map (Entry.without names) =
      (plan.selected collection t.entries).map (Entry.without names) := by
  have hselected : ∀ u : Store, (plan.selected collection u.entries).map (Entry.without names) =
      (plan.selected collection u.entries).map
        fun e => if e.collection = collection then e.without names else e := by
    intro u
    refine List.map_congr_left fun e he => ?_
    obtain ⟨-, he⟩ := List.mem_filter.mp he
    exact (if_pos (beq_iff_eq.mp (Bool.and_eq_true_iff.mp he).1)).symm
  rw [hselected, hselected]
  refine filter_map_congr (Store.mk.inj h.apart) fun e he e' he' hsame => ?_
  have hcollection : ∀ e : Entry,
      (if e.collection = collection then e.without names else e).collection = e.collection := by
    intro e
    split <;> rfl
  have hcollections : e.collection = e'.collection :=
    (hcollection e).symm.trans ((congrArg Entry.collection hsame).trans (hcollection e'))
  rw [hcollections]
  by_cases hin : e'.collection = collection
  · rw [if_pos (hcollections.trans hin), if_pos hin] at hsame
    rw [h.selects hplan he he' (hcollections.trans hin) hin hsame]
  · rw [beq_eq_false_iff_ne.mpr hin, Bool.false_and, Bool.false_and]

/-- What a query finds in both stores differs in the names alone. -/
theorem find_redacted (h : q.Overlooks collection names s t) :
    (s.find collection q).map (List.map (Fields.without names)) =
      (t.find collection q).map (List.map (Fields.without names)) := by
  unfold find
  cases hplan : Plan.make q.filter q.search with
  | error e => rfl
  | ok plan =>
    obtain ⟨-, hleftover, -⟩ := h.of_plan hplan
    have hdocs : ∀ u : Store,
        ((plan.selected collection u.entries).map Entry.document).map (Fields.without names) =
          ((plan.selected collection u.entries).map (Entry.without names)).map Entry.document := by
      intro u
      rw [List.map_map, List.map_map]
      exact List.map_congr_left fun e _ => (e.document_without h.id).symm
    have hrun : (plan.run collection s.entries).map (List.map (Fields.without names)) =
        (plan.run collection t.entries).map (List.map (Fields.without names)) := by
      unfold Plan.run
      rw [← Plan.keepMatching_without hleftover, ← Plan.keepMatching_without hleftover, hdocs,
        hdocs, selected_redacted h hplan]
    show (plan.run collection s.entries >>= _).map _ = (plan.run collection t.entries >>= _).map _
    refine exceptBind_map_congr hrun fun docs docs' hsame => ?_
    split
    · exact congrArg Except.ok hsame
    · rw [← sortDocuments_without h.sort, hsame, sortDocuments_without h.sort]

/-- The pages that a query answers in both stores differ in the names alone. -/
theorem paginate_redacted (h : q.Overlooks collection names s t) (page limit : Value) :
    (s.paginate collection q page limit).map (Page.without names) =
      (t.paginate collection q page limit).map (Page.without names) := by
  unfold paginate
  cases hplan : Plan.make q.filter q.search with
  | error e => rfl
  | ok plan =>
    dsimp only [bind, Except.bind]
    split
    · rw [← columnPage_without h.id, selected_redacted h hplan, columnPage_without h.id]
    · refine exceptBind_map_congr (find_redacted h) fun docs docs' hsame => ?_
      rw [← slicePage_without, hsame, slicePage_without]

end Store

end DocumentApi
