import DocumentApi.Proofs.Number.Ceiling
import DocumentApi.Proofs.Store.Queries
import Mathlib.Data.List.Permutation

/-!
# Pages of a store

Page `i` of length `l` starts after `(i - 1) * l` items.

* `flatMap_pages`: pages one after another are the start of the list that they are cut from.
* `Page.build_eq`: the counts of a page at a positive place.
* `Store.paginate_eq`: a page of a query is the page of the documents that `Store.find` answers.
* `Store.paginate_sliced`: columns that count and cut answer the page that is cut out of all that is
  found, failures included; the page of a sorted query is cut after the documents were sorted.
-/

namespace DocumentApi

/-! ## Pages of a list -/

/-- The items of a page of a list, pages counted from one. -/
def pageOf {α : Type} (items : List α) (page limit : Nat) : List α :=
  (items.drop ((page - 1) * limit)).take limit

variable {α : Type} {limit : Nat}

theorem flatMap_pages (items : List α) (limit count : Nat) :
    ((List.range count).flatMap fun i => pageOf items (i + 1) limit) =
      items.take (count * limit) := by
  induction count with
  | zero => simp
  | succ count ih =>
    rw [List.range_succ, List.flatMap_append, ih, Nat.succ_mul, List.take_add]
    simp [pageOf]

/-- As many pages as the ceiling of the quotient hold all items. -/
theorem flatMap_pages_ceil (items : List α) (hl : 0 < limit) :
    ((List.range (items.length ⌈/⌉ limit)).flatMap fun i => pageOf items (i + 1) limit) = items := by
  rw [flatMap_pages]
  refine List.take_of_length_le ?_
  rw [mul_comm]
  exact (ceilDiv_le_iff_le_mul hl).mp le_rfl

/-- A page past the last one is empty. -/
theorem pageOf_past {items : List α} {page : Nat} (hl : 0 < limit)
    (h : items.length ⌈/⌉ limit < page) : pageOf items page limit = [] := by
  have hlen : items.length ≤ (page - 1) * limit := by
    rw [mul_comm]
    exact (ceilDiv_le_iff_le_mul hl).mp (by omega)
  unfold pageOf
  rw [List.drop_eq_nil_of_le hlen, List.take_nil]

/-- A window from one place to a later one. -/
theorem window_eq (items : List α) (start count : Nat) :
    window items start (start + count) = (items.drop start).take count := by
  have hplace : ∀ i : Nat, placeIn items.length i = min i items.length := by
    intro i
    unfold placeIn
    rw [if_neg (Int.not_lt.mpr (Int.natCast_nonneg i)), Int.toNat_natCast]
  unfold window
  dsimp only
  rw [show (start : Int) + count = ((start + count : Nat) : Int) by push_cast; rfl, hplace, hplace,
    List.drop_take]
  rcases le_total start items.length with hstart | hstart
  · rw [min_eq_left hstart]
    refine List.take_eq_take_iff.mpr ?_
    rw [List.length_drop]
    omega
  · rw [min_eq_right hstart, List.drop_eq_nil_of_le hstart, List.drop_eq_nil_of_le le_rfl,
      List.take_nil, List.take_nil]

/-! ## The counts of a page -/

namespace Page

/-- The page of a list of documents. -/
def ofDocuments (docs : List Fields) (page limit : Nat) : Page where
  docs := (pageOf docs page limit).map .record
  totalDocs := .int docs.length
  page := .int page
  limit := .int limit
  totalPages := (docs.length ⌈/⌉ limit : Nat)
  hasPrevPage := decide (1 < page)
  hasNextPage := decide (page * limit < docs.length)

theorem countBefore_eq {page : Nat} (hp : 1 ≤ page) (limit : Nat) :
    countBefore (.int page) (.int limit) = .ok (.int ((page - 1) * limit : Nat)) := by
  show Except.ok (Number.int (((page : Int) - 1) * limit)) = _
  push_cast [hp]
  rfl

theorem countPages_eq {total : Nat} (ht : total < 2 ^ 53) (hl : 0 < limit) (hl' : limit < 2 ^ 53) :
    countPages (.int total) (.int limit) = .ok ((total ⌈/⌉ limit : Nat) : Int) := by
  have htruthy : (Value.int limit).truthy = true := by
    simp only [Value.truthy, bne_iff_ne, ne_eq, Int.natCast_eq_zero]
    omega
  have hceil : Number.quotientCeil? (.int total) (.int limit) =
      some ((total ⌈/⌉ limit : Nat) : Int) := quotientCeil_eq hl ht hl'
  simp only [countPages, htruthy, Bool.not_true, Bool.false_eq_true, if_false, Value.number?,
    hceil]

theorem isPast_int (i j : Int) : isPast (.int i) (.int j) = .ok (decide (j < i)) := by
  show Except.ok ((Number.int i).compare (.int j) == .gt) = _
  refine congrArg Except.ok ?_
  rw [Bool.eq_iff_iff, beq_iff_eq, decide_eq_true_iff]
  exact compare_gt_iff_gt

/-- There is a page after a page if and only if items are left after it. -/
theorem lt_ceilDiv_iff (hl : 0 < limit) (page total : Nat) :
    page < total ⌈/⌉ limit ↔ page * limit < total := by
  rw [← not_le, ceilDiv_le_iff_le_mul hl, not_le, mul_comm]

theorem build_eq (page : Nat) (docs : List Fields) (ht : docs.length < 2 ^ 53) (hl : 0 < limit)
    (hl' : limit < 2 ^ 53) :
    build ((pageOf docs page limit).map .record) (.int docs.length) (.int page) (.int limit) =
      .ok (ofDocuments docs page limit) := by
  have hprev : isPast (.int page) (.int 1) = .ok (decide (1 < page)) := by
    rw [isPast_int]
    simp
  have hnext : isPast (.int (docs.length ⌈/⌉ limit : Nat)) (.int page) =
      .ok (decide (page * limit < docs.length)) := by
    rw [isPast_int]
    simp [lt_ceilDiv_iff hl]
  unfold build
  rw [countPages_eq ht hl hl']
  dsimp only [bind, Except.bind]
  rw [hprev, hnext]
  rfl

end Page

/-! ## Pages of a store -/

theorem sortDocuments_perm {docs sorted : List Fields} {keys : List SortKey}
    (h : sortDocuments docs keys = .ok sorted) : sorted.Perm docs := by
  unfold sortDocuments at h
  generalize keys.reverse = order at h
  induction order generalizing docs with
  | nil => cases h; exact .refl _
  | cons key order ih =>
    rw [List.foldlM_cons] at h
    unfold sortByKey at h
    split at h
    · exact (ih h).trans (List.mergeSort_perm docs _)
    · cases h

theorem Plan.keepMatching_sublist {leftover : List Condition} {docs kept : List Fields}
    (h : keepMatching leftover docs = .ok kept) : kept.Sublist docs := by
  induction docs generalizing kept with
  | nil => cases h; exact .slnil
  | cons doc docs ih =>
    unfold keepMatching at h
    cases hmatch : Condition.allMatch doc leftover with
    | error e => rw [hmatch] at h; cases h
    | ok b =>
      cases hrest : keepMatching leftover docs with
      | error e => rw [hmatch, hrest] at h; cases h
      | ok rest =>
        rw [hmatch, hrest] at h
        cases h
        cases b
        · exact (ih hrest).cons doc
        · exact (ih hrest).cons_cons doc

namespace Store

/-- A query answers at most as many documents as are stored. -/
theorem find_length_le {s : Store} {collection : String} {q : Query} {docs : List Fields}
    (h : s.find collection q = .ok docs) : docs.length ≤ s.entries.length := by
  unfold find at h
  cases hplan : Plan.make q.filter q.search with
  | error e => rw [hplan] at h; cases h
  | ok plan =>
    rw [hplan] at h
    dsimp only [bind, Except.bind] at h
    cases hrun : plan.run collection s.entries with
    | error e => rw [hrun] at h; cases h
    | ok kept =>
      have hkept : kept.length ≤ s.entries.length := by
        have := (Plan.keepMatching_sublist hrun).length_le
        rw [List.length_map] at this
        exact this.trans (List.length_filter_le _ _)
      rw [hrun] at h
      dsimp only at h
      split at h
      · cases h
        exact hkept
      · rwa [(sortDocuments_perm h).length_eq]

/-- The entries after an offset that fits a column. -/
theorem cut_eq (selected : List Entry) {offset count : Nat} (ho : offset < 2 ^ 63)
    (hc : count < 2 ^ 63) : cut selected offset count = .ok ((selected.drop offset).take count) := by
  have hfits : ∀ i : Nat, i < 2 ^ 63 → fitsColumn i = true := by
    intro i hi
    unfold fitsColumn
    rw [decide_eq_true_iff]
    omega
  unfold cut
  rw [hfits offset ho, hfits count hc]
  simp

/-- Without conditions left over, a plan answers the documents of the selected entries. -/
theorem run_of_columns {plan : Plan} (h : plan.leftover = []) (collection : String)
    (entries : List Entry) :
    plan.run collection entries = .ok ((plan.selected collection entries).map Entry.document) := by
  unfold Plan.run
  rw [h, Plan.keepMatching_eq (by simp)]
  simp

/-- The page that the columns count and cut at whole places. -/
theorem columnPage_of_ints {selected : List Entry} {page limit : Value} {offset count : Int}
    (hbefore : Page.countBefore page limit = .ok (.int offset))
    (hlimit : limit.number? = some (.int count)) :
    columnPage selected page limit = (do
      let shown ← cut selected offset count
      Page.build (shown.map fun e : Entry => .record e.document) (.int selected.length) page
        limit) := by
  unfold columnPage
  rw [hbefore, hlimit]
  rfl

/-- The page that is cut out of all documents at whole places. -/
theorem slicePage_of_ints {docs : List Fields} {page limit : Value} {start count : Int}
    (hbefore : Page.countBefore page limit = .ok (.int start))
    (hlimit : limit.number? = some (.int count)) :
    slicePage docs page limit = Page.build ((window docs start (start + count)).map .record)
      (.int docs.length) page limit := by
  unfold slicePage
  rw [hbefore, hlimit]
  rfl

/-- Columns count and cut as the documents themselves are counted and cut. -/
theorem columnPage_eq_slicePage {selected : List Entry} {page limit : Value} {offset count : Nat}
    (hbefore : Page.countBefore page limit = .ok (.int offset))
    (hlimit : limit.number? = some (.int count)) (ho : offset < 2 ^ 63) (hc : count < 2 ^ 63) :
    columnPage selected page limit = slicePage (selected.map Entry.document) page limit := by
  rw [columnPage_of_ints hbefore hlimit, slicePage_of_ints hbefore hlimit,
    cut_eq selected ho hc, window_eq]
  simp [List.map_drop, List.map_take, bind, Except.bind, Function.comp_def]

/-- The page that is cut out of all documents. -/
theorem slicePage_eq {docs : List Fields} {page : Nat} (hdocs : docs.length < 2 ^ 53)
    (hp : 1 ≤ page) (hl : 1 ≤ limit) (hl' : limit < 2 ^ 53) :
    slicePage docs (.int page) (.int limit) = .ok (Page.ofDocuments docs page limit) := by
  have hbuild := Page.build_eq page docs hdocs hl hl'
  unfold slicePage
  rw [Page.countBefore_eq hp]
  show Page.build ((window docs ((page - 1) * limit : Nat)
    (((page - 1) * limit : Nat) + limit)).map .record) _ _ _ = _
  rw [window_eq]
  exact hbuild

/-! ## Pages out of all that is found -/

/-- The page of a query, cut out of all documents that the query finds. -/
def slicedPage (s : Store) (collection : String) (q : Query) (page limit : Value) :
    Except Error Page := do
  slicePage (← s.find collection q) page limit

/-- Without conditions left over, a query that is not sorted finds what the columns select. -/
theorem find_of_columns {s : Store} {collection : String} {q : Query} {plan : Plan}
    (hplan : Plan.make q.filter q.search = .ok plan) (hsort : q.sort.isEmpty)
    (hleft : plan.leftover.isEmpty) : s.find collection q =
      .ok ((plan.selected collection s.entries).map Entry.document) := by
  unfold find
  rw [hplan]
  dsimp only [bind, Except.bind]
  rw [run_of_columns (List.isEmpty_iff.mp hleft)]
  simp [hsort, Pure.pure, Except.pure]

/-- Whether the columns answer all of a query or not, its page is cut out of all that is found. -/
theorem paginate_eq_slicedPage {s : Store} {collection : String} {q : Query} {page limit : Value}
    {offset count : Nat} (hbefore : Page.countBefore page limit = .ok (.int offset))
    (hlimit : limit.number? = some (.int count)) (ho : offset < 2 ^ 63) (hc : count < 2 ^ 63) :
    s.paginate collection q page limit = s.slicedPage collection q page limit := by
  unfold paginate slicedPage
  cases hplan : Plan.make q.filter q.search with
  | error e =>
    unfold find
    rw [hplan]
    rfl
  | ok plan =>
    dsimp only [bind, Except.bind]
    split
    · rename_i hcolumns
      obtain ⟨hsort, hleft⟩ := Bool.and_eq_true_iff.mp hcolumns
      rw [find_of_columns hplan hsort hleft]
      exact columnPage_eq_slicePage hbefore hlimit ho hc
    · rfl

/-- A page of a query is the page of the documents that the query answers. -/
theorem paginate_eq {s : Store} {collection : String} {q : Query} {docs : List Fields}
    {page limit : Nat} (hfind : s.find collection q = .ok docs) (hdocs : docs.length < 2 ^ 53)
    (hp : 1 ≤ page) (hl : 1 ≤ limit) (hl' : limit < 2 ^ 53)
    (hoffset : (page - 1) * limit < 2 ^ 63) :
    s.paginate collection q (.int page) (.int limit) = .ok (Page.ofDocuments docs page limit) := by
  rw [paginate_eq_slicedPage (Page.countBefore_eq hp limit) rfl hoffset (by omega)]
  unfold slicedPage
  rw [hfind]
  exact slicePage_eq hdocs hp hl hl'

/-- A sorted query sorts what the query finds without a sort order. -/
theorem find_eq_sorted (s : Store) (collection : String) (q : Query) :
    s.find collection q =
      (do sortDocuments (← s.find collection { q with sort := [] }) q.sort) := by
  unfold find
  cases Plan.make q.filter q.search with
  | error e => rfl
  | ok plan =>
    dsimp only [bind, Except.bind]
    cases plan.run collection s.entries with
    | error e => rfl
    | ok docs =>
      by_cases hsort : q.sort = []
      · rw [hsort]
        rfl
      · simp [hsort, Pure.pure, Except.pure]

/-- From the first page on, with an offset and a limit that columns can hold, a page of a query is
cut out of all that the query finds, by whichever way it is answered and with the same failures:
out of the sorted documents if the query is sorted, and with the count of all that were found. -/
theorem paginate_sliced (s : Store) (collection : String) (q : Query) {page limit : Value}
    {p l : Int} (hpage : page.number? = some (.int p)) (hlimit : limit.number? = some (.int l))
    (hp : 1 ≤ p) (hl : 1 ≤ l) (hoffset : (p - 1) * l < 2 ^ 63) (hl' : l < 2 ^ 63) :
    s.paginate collection q page limit = s.slicedPage collection q page limit ∧
    s.slicedPage collection q page limit = (do
      let found ← s.find collection { q with sort := [] }
      let sorted ← sortDocuments found q.sort
      Page.build (((sorted.drop ((p - 1) * l).toNat).take l.toNat).map .record)
        (.int found.length) page limit) := by
  obtain ⟨count, rfl⟩ := Int.eq_ofNat_of_zero_le (show 0 ≤ l by omega)
  obtain ⟨before, hbefore⟩ := Int.eq_ofNat_of_zero_le (show 0 ≤ p - 1 by omega)
  have hcount : Page.countBefore page limit = .ok (.int (before * count : Nat)) := by
    unfold Page.countBefore
    rw [hpage, hlimit]
    simp [Number.pred, Number.times?, hbefore]
  rw [hbefore] at hoffset ⊢
  refine ⟨paginate_eq_slicedPage hcount hlimit (by exact_mod_cast hoffset) (by omega), ?_⟩
  unfold slicedPage
  rw [find_eq_sorted]
  cases s.find collection { q with sort := [] } with
  | error e => rfl
  | ok found =>
    dsimp only [bind, Except.bind]
    cases hsort : sortDocuments found q.sort with
    | error e => rfl
    | ok sorted =>
      dsimp only
      rw [slicePage_of_ints hcount hlimit, window_eq, (sortDocuments_perm hsort).length_eq,
        ← Int.natCast_mul, Int.toNat_natCast, Int.toNat_natCast]

/-- A condition that a column answers and one that is left over. -/
def boOrNameless : Value :=
  .record [("name", .record [("ne", .text "Cy"), ("in", .list [.text "Bo", .null])])]

/-- Everyone whose name is not Cy, the oldest first. -/
def notCyByAge : Query where
  filter := .record [("name", .record [("ne", .text "Cy")])]
  sort := [⟨"age", true⟩]

def annDocument : Fields := [("name", .text "Ann"), ("age", .int 30), ("id", .text "a")]

def boDocument : Fields := [("name", .text "Bo"), ("id", .text "b")]

def namelessDocument : Fields := [("name", .null), ("age", .int 40), ("id", .text "d")]

/-- A page that the columns count and cut, as no condition is left over; a page past a condition
that is left over; and a page of documents that are sorted. -/
theorem paginate_peopleAndPets :
    ((∃ plan, Plan.make notCyByAge.filter .null = .ok plan ∧ plan.leftover = []) ∧
      peopleAndPets.paginate "people" { filter := notCyByAge.filter } (.int 2) (.int 2) =
        .ok (Page.ofDocuments [annDocument, boDocument, namelessDocument] 2 2)) ∧
    peopleAndPets.paginate "people" { filter := boOrNameless } (.int 2) (.int 1) =
      .ok (Page.ofDocuments [boDocument, namelessDocument] 2 1) ∧
    peopleAndPets.paginate "people" notCyByAge (.bool true) (.int 2) =
      Page.build [.record namelessDocument, .record annDocument] (.int 3) (.bool true) (.int 2) := by
  have hone : (Value.int 1).number? = some (.int 1) := rfl
  have htwo : (Value.int 2).number? = some (.int 2) := rfl
  have htrue : (Value.bool true).number? = some (.int 1) := rfl
  have hfound : peopleAndPets.find "people" { filter := notCyByAge.filter } =
      .ok [annDocument, boDocument, namelessDocument] := rfl
  refine ⟨⟨⟨_, rfl, rfl⟩, ?_⟩, ?_, ?_⟩
  · rw [(paginate_sliced peopleAndPets "people" { filter := notCyByAge.filter } htwo htwo
      (by decide) (by decide) (by decide) (by decide)).1]
    unfold slicedPage
    rw [hfound]
    exact slicePage_eq (by decide) (by decide) (by decide) (by decide)
  · have hfound : peopleAndPets.find "people" { filter := boOrNameless } =
        .ok [boDocument, namelessDocument] := rfl
    rw [(paginate_sliced peopleAndPets "people" { filter := boOrNameless } htwo hone
      (by decide) le_rfl (by decide) (by decide)).1]
    unfold slicedPage
    rw [hfound]
    exact slicePage_eq (by decide) (by decide) le_rfl (by decide)
  · have hsorted : sortDocuments [annDocument, boDocument, namelessDocument] notCyByAge.sort =
        .ok [namelessDocument, annDocument, boDocument] := by cbv
    have hunsorted : { notCyByAge with sort := [] } = ({ filter := notCyByAge.filter } : Query) :=
      rfl
    obtain ⟨hsliced, hcut⟩ := paginate_sliced peopleAndPets "people" notCyByAge htrue htwo le_rfl
      (by decide) (by decide) (by decide)
    rw [hsliced, hcut, hunsorted, hfound]
    dsimp only [bind, Except.bind]
    rw [hsorted]
    rfl

end Store

end DocumentApi
