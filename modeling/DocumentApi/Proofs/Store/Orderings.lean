import DocumentApi.Proofs.Store.Pages

/-!
# Ordering conditions

A condition that asks for an order fails on a document whose value has no order with the operand. A
column casts the value to the kind of the operand first, and then any two of them have an order.

* `Store.find_sound`, `Store.paginate_mem`: a document that a query answers is stored, and passes
  every condition of the filter in its column or by itself.
* `Condition.CastOrdered`: the order that a condition asks for holds of the cast value.
* `Store.answers_unordered_iff`: a document without an order is answered if and only if its cast
  value has the order.
-/

namespace DocumentApi

/-- The test that an operator makes on an order, none for one that asks for no order. -/
def Operator.orderTest? : Operator → Option (Ordering → Bool)
  | gt => some (· == .gt)
  | gte => some (· != .lt)
  | lt => some (· == .lt)
  | lte => some (· != .gt)
  | _ => none

namespace Plan

variable {named : List NamedCondition} {cs leftover : List Condition}
  {columns : List ColumnCondition} {docs kept : List Fields} {doc : Fields}

/-- Every condition of a plan is one of a column or left over. -/
theorem sortOut_mem (h : sortOut named = .ok (columns, leftover))
    (hread : named.mapM Condition.read = .ok cs) :
    ∀ c ∈ cs, (∃ column ∈ columns, c.toColumn = .ok (some column)) ∨ c ∈ leftover := by
  have hread := mapM_ok_iff.mp hread
  induction hread generalizing columns leftover with
  | nil => exact fun c hc => absurd hc List.not_mem_nil
  | @cons n c named cs hn _ ih =>
    unfold sortOut at h
    obtain ⟨c', hc', h⟩ := exceptBind_ok h
    rw [hn] at hc'
    cases hc'
    obtain ⟨column?, hcolumn, h⟩ := exceptBind_ok h
    obtain ⟨⟨columns', leftover'⟩, hrest, h⟩ := exceptBind_ok h
    have ih := ih hrest (mapM_ok_iff.mpr ‹_›)
    intro d hd
    cases column? with
    | none =>
      cases h
      rcases List.mem_cons.mp hd with rfl | hd
      · exact Or.inr List.mem_cons_self
      · exact (ih d hd).imp_right (List.mem_cons_of_mem _)
    | some column =>
      cases h
      rcases List.mem_cons.mp hd with rfl | hd
      · exact Or.inl ⟨column, List.mem_cons_self, hcolumn⟩
      · refine (ih d hd).imp_left ?_
        rintro ⟨other, hother, hsome⟩
        exact ⟨other, List.mem_cons_of_mem _ hother, hsome⟩

theorem keepMatching_mem (h : keepMatching leftover docs = .ok kept) (hdoc : doc ∈ kept) :
    doc ∈ docs ∧ Condition.allMatch doc leftover = .ok true := by
  refine ⟨(keepMatching_sublist h).subset hdoc, ?_⟩
  induction docs generalizing kept with
  | nil => cases h; cases hdoc
  | cons first docs ih =>
    unfold keepMatching at h
    obtain ⟨keep, hkeep, h⟩ := exceptBind_ok h
    obtain ⟨rest, hrest, h⟩ := exceptBind_ok h
    cases h
    cases keep with
    | false => exact ih hrest hdoc
    | true =>
      rcases List.mem_cons.mp hdoc with rfl | hdoc
      · exact hkeep
      · exact ih hrest hdoc

end Plan

theorem Condition.allMatch_mem {doc : Fields} {cs : List Condition} (h : allMatch doc cs = .ok true) :
    ∀ c ∈ cs, c.matchesDocument doc = .ok true := by
  induction cs with
  | nil => exact fun c hc => absurd hc List.not_mem_nil
  | cons first cs ih =>
    unfold allMatch at h
    obtain ⟨matched, hmatched, h⟩ := exceptBind_ok h
    cases matched with
    | false => cases h
    | true =>
      intro c hc
      rcases List.mem_cons.mp hc with rfl | hc
      · exact hmatched
      · exact ih h c hc

/-! ## Documents that a query answers -/

theorem Page.build_docs {docs : List Value} {total page limit : Value} {shown : Page}
    (h : Page.build docs total page limit = .ok shown) :
    shown.docs = docs ∧ shown.totalDocs = total := by
  unfold Page.build at h
  obtain ⟨pages, -, h⟩ := exceptBind_ok h
  obtain ⟨prev, -, h⟩ := exceptBind_ok h
  obtain ⟨next, -, h⟩ := exceptBind_ok h
  cases h
  exact ⟨rfl, rfl⟩

theorem mem_of_mem_window {α : Type} {items : List α} {start stop : Int} {a : α}
    (h : a ∈ window items start stop) : a ∈ items :=
  List.mem_of_mem_take (List.mem_of_mem_drop h)

namespace Store

variable {s : Store} {collection : String} {q : Query} {docs : List Fields} {doc : Fields}

/-- A query finds a document. -/
def Finds (s : Store) (collection : String) (q : Query) (doc : Fields) : Prop :=
  ∃ docs, s.find collection q = .ok docs ∧ doc ∈ docs

/-- A page of a query holds a document. -/
def Shows (s : Store) (collection : String) (q : Query) (doc : Fields) : Prop :=
  ∃ page limit shown, s.paginate collection q page limit = .ok shown ∧
    Value.record doc ∈ shown.docs

/-- A document is one of a collection. -/
def Holds (s : Store) (collection : String) (doc : Fields) : Prop :=
  ∃ e ∈ s.entries, e.collection = collection ∧ e.document = doc

/-- A document that is found is stored, and selected by the plan of the query. -/
theorem find_planned (h : s.Finds collection q doc) :
    ∃ plan, Plan.make q.filter q.search = .ok plan ∧ ∃ e ∈ s.entries, e.collection = collection ∧
      e.document = doc ∧ plan.selects e ∧ Condition.allMatch doc plan.leftover = .ok true := by
  obtain ⟨docs, hfind, hdoc⟩ := h
  unfold find at hfind
  obtain ⟨plan, hplan, hfind⟩ := exceptBind_ok hfind
  obtain ⟨kept, hrun, hfind⟩ := exceptBind_ok hfind
  have hkept : doc ∈ kept := by
    split at hfind
    · cases hfind
      exact hdoc
    · exact (sortDocuments_perm hfind).mem_iff.mp hdoc
  obtain ⟨hselected, hleft⟩ := Plan.keepMatching_mem hrun hkept
  obtain ⟨e, he, rfl⟩ := List.mem_map.mp hselected
  obtain ⟨hentry, hselects⟩ := List.mem_filter.mp he
  obtain ⟨hcollection, hselects⟩ := Bool.and_eq_true_iff.mp hselects
  exact ⟨plan, hplan, e, hentry, beq_iff_eq.mp hcollection, rfl, hselects, hleft⟩

theorem find_holds (h : s.Finds collection q doc) : s.Holds collection doc := by
  obtain ⟨-, -, e, he, hcollection, hdoc, -⟩ := find_planned h
  exact ⟨e, he, hcollection, hdoc⟩

/-- A document that is found is stored, and each condition selects it where it is read. -/
theorem find_sound {cs : List Condition} (hread : Condition.readAll q.filter = .ok cs)
    (h : s.Finds collection q doc) :
    ∃ e ∈ s.entries, e.collection = collection ∧ e.document = doc ∧
      ∀ c ∈ cs, (∃ column, c.toColumn = .ok (some column) ∧ column.holds e) ∨
        c.matchesDocument doc = .ok true := by
  obtain ⟨plan, hplan, e, he, hcollection, rfl, hselects, hleft⟩ := find_planned h
  refine ⟨e, he, hcollection, rfl, fun c hc => ?_⟩
  unfold Condition.readAll at hread
  obtain ⟨named, hnamed, hread⟩ := exceptBind_ok hread
  unfold Plan.make at hplan
  obtain ⟨named', hnamed', hplan⟩ := exceptBind_ok hplan
  rw [hnamed] at hnamed'
  cases hnamed'
  obtain ⟨⟨columns, leftover⟩, hsort, hplan⟩ := exceptBind_ok hplan
  obtain ⟨search, -, hplan⟩ := exceptBind_ok hplan
  cases hplan
  rcases Plan.sortOut_mem hsort hread c hc with ⟨column, hmem, hcolumn⟩ | hmem
  · exact Or.inl ⟨column, hcolumn,
      List.all_eq_true.mp (Bool.and_eq_true_iff.mp hselects).1 column hmem⟩
  · exact Or.inr (Condition.allMatch_mem hleft c hmem)

theorem cut_subset {selected shown : List Entry} {offset count : Int}
    (h : cut selected offset count = .ok shown) : shown ⊆ selected := by
  unfold cut at h
  split at h
  · cases h
  · cases h
    intro e he
    split at he
    · exact List.mem_of_mem_drop he
    · exact List.mem_of_mem_drop (List.mem_of_mem_take he)

/-- A page of a query shows some of the documents that the query finds, and counts all of them. -/
theorem paginate_found {page limit : Value} {shown : Page}
    (h : s.paginate collection q page limit = .ok shown) :
    ∃ docs part, s.find collection q = .ok docs ∧ part ⊆ docs ∧ shown.docs = part.map .record ∧
      shown.totalDocs = .int docs.length := by
  unfold paginate at h
  obtain ⟨plan, hplan, h⟩ := exceptBind_ok h
  split at h
  · rename_i hcolumns
    obtain ⟨hsort, hleft⟩ := Bool.and_eq_true_iff.mp hcolumns
    unfold columnPage at h
    obtain ⟨offset, -, h⟩ := exceptBind_ok h
    split at h
    · cases h
    · obtain ⟨entries, hcut, h⟩ := exceptBind_ok h
      obtain ⟨hdocs, htotal⟩ := Page.build_docs h
      refine ⟨_, entries.map Entry.document, find_of_columns hplan hsort hleft,
        List.map_subset _ (cut_subset hcut), ?_, ?_⟩
      · rw [hdocs, List.map_map]
        rfl
      · rw [htotal, List.length_map]
  · obtain ⟨docs, hfind, h⟩ := exceptBind_ok h
    unfold slicePage at h
    obtain ⟨before, -, h⟩ := exceptBind_ok h
    split at h
    · obtain ⟨hdocs, htotal⟩ := Page.build_docs h
      exact ⟨docs, _, hfind, fun doc hdoc => mem_of_mem_window hdoc, hdocs, htotal⟩
    · cases h

/-- A document on a page of a query is one that the query finds. -/
theorem paginate_mem (h : s.Shows collection q doc) : s.Finds collection q doc := by
  obtain ⟨page, limit, shown, h, hdoc⟩ := h
  obtain ⟨docs, part, hfind, hpart, hshown, -⟩ := paginate_found h
  rw [hshown] at hdoc
  obtain ⟨other, hother, hsame⟩ := List.mem_map.mp hdoc
  cases hsame
  exact ⟨docs, hfind, hpart hother⟩

end Store

/-! ## Orders of cast values -/

namespace Operator

variable {op : Operator} {test : Ordering → Bool}

theorem holds_of_orderTest? (h : op.orderTest? = some test) (v operand : Value) :
    Condition.holds op v operand = .ok (Condition.ordered test v operand) := by
  cases op <;> cases h <;> rfl

theorem passes_of_orderTest? (h : op.orderTest? = some test) (cell operand : Value) :
    ColumnCondition.passes op cell [operand] = Condition.ordered test cell operand := by
  cases op <;> cases h <;> exact Bool.or_false _

theorem takesList_of_orderTest? (h : op.orderTest? = some test) : op.takesList = false := by
  cases op <;> cases h <;> rfl

/-- An operator that orders is answered by columns of numbers and of texts. -/
theorem columnAnswers_of_orderTest? (h : op.orderTest? = some test) (kind : ColumnKind) :
    Condition.columnAnswers op kind = (kind != .boolean) := by
  cases op <;> cases h <;> rfl

theorem not_selects_null (h : op.orderTest? = some test) : (op == .ne || op == .notIn) = false := by
  cases op <;> cases h <;> rfl

theorem ofName?_name (op : Operator) : ofName? op.name = some op := by
  cases op <;> decide

end Operator

namespace Condition

variable {c : Condition} {test : Ordering → Bool}

/-- The order that a condition asks for holds of a value as a column casts it: to the kind of the
operand, which is a number or a text. -/
def castOrdered (c : Condition) (v : Value) : Bool :=
  match ColumnKind.ofValue? c.operand, c.operator.orderTest? with
  | some kind, some test => kind != .boolean && hasColumn c.key kind &&
    match kind.castOperand c.operand with
    | .ok operand => ordered test (kind.cast v) operand
    | .error _ => false
  | _, _ => false

/-- What a column of an ordering condition selects. -/
theorem holds_of_orderTest? {column : ColumnCondition} {operand : Value} {e : Entry}
    (hop : column.operator.orderTest? = some test) (hoperands : column.operands = [operand])
    (hcolumn : hasColumn column.key column.kind) :
    column.holds e = ordered test (column.kind.cast (Fields.get e.document column.key)) operand := by
  unfold ColumnCondition.holds
  dsimp only
  rw [ColumnCondition.cell_eq e hcolumn, hoperands, Operator.passes_of_orderTest? hop,
    Operator.not_selects_null hop]
  cases column.kind.cast (Fields.get e.document column.key) <;> rfl

/-- A column answers an ordering condition, and selects an entry, if the cast value has the order. -/
theorem column_selects_iff (hop : c.operator.orderTest? = some test) (e : Entry) :
    (∃ column, c.toColumn = .ok (some column) ∧ column.holds e) ↔
      c.castOrdered (Fields.get e.document c.key) := by
  unfold toColumn castOrdered
  rw [if_neg (by rw [Operator.takesList_of_orderTest? hop]; exact Bool.false_ne_true), hop]
  cases hkind : ColumnKind.ofValue? c.operand with
  | none => simp [Pure.pure, Except.pure]
  | some kind =>
    dsimp only
    rw [Operator.columnAnswers_of_orderTest? hop]
    by_cases hcolumn : (kind != .boolean && hasColumn c.key kind) = true
    · rw [if_pos hcolumn, hcolumn, Bool.true_and]
      cases hcast : kind.castOperand c.operand with
      | error fault => simp [bind, Except.bind]
      | ok operand =>
        have hholds : ColumnCondition.holds ⟨c.key, c.operator, kind, [operand]⟩ e = _ :=
          holds_of_orderTest? hop rfl (Bool.and_eq_true_iff.mp hcolumn).2
        simp [bind, Except.bind, Pure.pure, Except.pure, hholds]
    · rw [if_neg hcolumn, Bool.eq_false_iff.mpr hcolumn]
      simp [Pure.pure, Except.pure]

/-- The filter of one condition. -/
def alone (c : Condition) : Value :=
  .record [(c.key, .record [(c.operator.name, c.operand)])]

theorem read_named (c : Condition) : read ⟨c.key, c.operator.name, c.operand⟩ = .ok c := by
  unfold read
  dsimp only
  rw [Operator.ofName?_name]

theorem readAll_alone (c : Condition) : readAll c.alone = .ok [c] :=
  mapM_ok_iff.mpr (.cons c.read_named .nil)

end Condition

namespace Store

variable {s : Store} {collection : String} {c : Condition} {doc : Fields}

/-- What a query by one condition answers from its column. -/
theorem find_alone {column : ColumnCondition} (hcolumn : c.toColumn = .ok (some column)) :
    s.find collection { filter := c.alone } =
      .ok ((s.entries.filter fun e => e.collection == collection && column.holds e).map
        Entry.document) := by
  have hsort : Plan.sortOut [⟨c.key, c.operator.name, c.operand⟩] = .ok ([column], []) :=
    Plan.sortOut_cons c.read_named hcolumn rfl
  have hplan : Plan.make c.alone .null = .ok ⟨[column], [], none⟩ := by
    show Plan.sortOut [⟨c.key, c.operator.name, c.operand⟩] >>= _ = _
    rw [hsort]
    rfl
  unfold find
  rw [hplan]
  dsimp only [bind, Except.bind]
  rw [run_of_columns rfl]
  simp [Plan.selected, Plan.selects, Pure.pure, Except.pure]

/-- All documents that a query finds fit on one page. -/
theorem shows_of_finds {q : Query} (hlen : s.entries.length < 2 ^ 53)
    (h : s.Finds collection q doc) : s.Shows collection q doc := by
  obtain ⟨docs, hfind, hdoc⟩ := h
  have hle := find_length_le hfind
  have hpos := List.length_pos_of_mem hdoc
  have hpage : s.paginate collection q (.int (1 : Nat)) (.int docs.length) =
      .ok (Page.ofDocuments docs 1 docs.length) :=
    paginate_eq hfind (by omega) le_rfl hpos (by omega) (by simp)
  refine ⟨_, _, _, hpage, ?_⟩
  have hall : pageOf docs 1 docs.length = docs := by simp [pageOf]
  unfold Page.ofDocuments
  dsimp only
  rw [hall]
  exact List.mem_map_of_mem hdoc

/-- A document whose value has no order with the operand of a condition is answered if and only if
the value has the order once a column has cast it. -/
theorem answers_unordered_iff (hop : c.operator.orderTest?.isSome)
    (hnone : (Fields.get doc c.key).compare? c.operand = none) (hstored : s.Holds collection doc) :
    (∀ q cs, Condition.readAll q.filter = .ok cs → c ∈ cs →
        s.Finds collection q doc ∨ s.Shows collection q doc →
          c.castOrdered (Fields.get doc c.key)) ∧
      (s.Finds collection { filter := c.alone } doc ↔ c.castOrdered (Fields.get doc c.key)) ∧
      (s.entries.length < 2 ^ 53 →
        (s.Shows collection { filter := c.alone } doc ↔ c.castOrdered (Fields.get doc c.key))) := by
  obtain ⟨test, hop⟩ := Option.isSome_iff_exists.mp hop
  have hcast : ∀ q cs, Condition.readAll q.filter = .ok cs → c ∈ cs →
      s.Finds collection q doc → c.castOrdered (Fields.get doc c.key) := by
    intro q cs hread hc hfinds
    obtain ⟨e, -, -, rfl, hconditions⟩ := find_sound hread hfinds
    rcases hconditions c hc with hcolumn | hmatches
    · exact (Condition.column_selects_iff hop e).mp hcolumn
    · -- left over for the document itself, the condition fails
      unfold Condition.matchesDocument Condition.matchesValue at hmatches
      rw [Operator.holds_of_orderTest? hop] at hmatches
      unfold Condition.ordered at hmatches
      rw [hnone] at hmatches
      cases hmatches
  have halone := hcast { filter := c.alone } [c] c.readAll_alone List.mem_cons_self
  have hfound : c.castOrdered (Fields.get doc c.key) →
      s.Finds collection { filter := c.alone } doc := by
    intro hordered
    obtain ⟨e, he, hcollection, rfl⟩ := hstored
    obtain ⟨column, hcolumn, hholds⟩ := (Condition.column_selects_iff hop e).mpr hordered
    refine ⟨_, find_alone hcolumn, List.mem_map_of_mem (List.mem_filter.mpr ⟨he, ?_⟩)⟩
    rw [hholds, hcollection]
    simp
  refine ⟨fun q cs hread hc hanswers => ?_, ⟨halone, hfound⟩, fun hlen => ⟨?_, ?_⟩⟩
  · exact hcast q cs hread hc (hanswers.elim id paginate_mem)
  · exact fun hshows => halone (paginate_mem hshows)
  · exact fun hordered => shows_of_finds hlen (hfound hordered)

/-- A person with a name. -/
def ada : Store := ⟨[⟨"people", "a", [("name", .text "Ada")]⟩]⟩

def adaDocument : Fields := [("name", .text "Ada"), ("id", .text "a")]

/-- A name that is below the number 3, and one that is above it. -/
def belowThree : Condition := ⟨"name", .lt, .int 3⟩

def aboveThree : Condition := ⟨"name", .gt, .int 3⟩

/-- As a number, a name without digits is zero: below 3, and not above it. -/
theorem answers_ada :
    (belowThree.operator.orderTest?.isSome ∧ aboveThree.operator.orderTest?.isSome ∧
      (Value.text "Ada").compare? (.int 3) = none ∧ ada.Holds "people" adaDocument) ∧
    ada.Finds "people" { filter := belowThree.alone } adaDocument ∧
    ¬ ada.Shows "people" { filter := aboveThree.alone } adaDocument := by
  have hstored : ada.Holds "people" adaDocument := ⟨_, List.mem_cons_self, rfl, rfl⟩
  have hbelow := answers_unordered_iff (c := belowThree) rfl rfl hstored
  have habove := answers_unordered_iff (c := aboveThree) rfl rfl hstored
  refine ⟨⟨rfl, rfl, rfl, hstored⟩, hbelow.2.1.mpr (by decide +kernel), fun hshows => ?_⟩
  have hcast := (habove.2.2 (by decide)).mp hshows
  exact absurd hcast (by decide +kernel)

/-- A condition between a text and a number is false of the document, and its column selects it. -/
theorem finds_ada_below_three :
    (Value.text "Ada").compare? (.int 3) = none ∧
    matchesFilter adaDocument belowThree.alone = .ok false ∧
    ada.find "people" { filter := belowThree.alone } = .ok [adaDocument] ∧
    ada.paginate "people" { filter := belowThree.alone } (.int 1) (.int 10) =
      .ok (Page.ofDocuments [adaDocument] 1 10) := by
  have hcast : belowThree.castOrdered (.text "Ada") := by decide +kernel
  obtain ⟨column, hcolumn, hholds⟩ := (Condition.column_selects_iff (c := belowThree) rfl
    ⟨"people", "a", [("name", .text "Ada")]⟩).mpr hcast
  have hfind : ada.find "people" { filter := belowThree.alone } = .ok [adaDocument] := by
    rw [find_alone hcolumn]
    simp [ada, hholds]
    rfl
  exact ⟨rfl, rfl, hfind, paginate_eq hfind (by decide) le_rfl (by decide) (by decide) (by decide)⟩

end Store

end DocumentApi
