import DocumentApi.Proofs.Store.Pages
import DocumentApi.Proofs.Text.Lowering
import Mathlib.Data.String.Basic
import Mathlib.Data.Sum.Order
import Mathlib.Order.WithBot
import Mathlib.Tactic.FinCases

/-!
# Sorted documents

A list is sorted once for each key, the first key last. As each sort is stable, the list is sorted by
all keys in the end, the first key the most significant.

* `Value.rank`: the place of a null, a number or a text in a linear order, which is the order of cells
  of one kind (`OneKind.compareCells_eq`).
* `SortKey.compareAll`: the order by the first key on which two documents differ.
* `SortedBy`: what a stable sort by some keys answers.
* `SortedBy.step`: a sort by one more key, which counts before the others.
* `sortByPairs_sorted`: sorting by pairs of a field and a direction is a stable sort by all of them.
-/

namespace DocumentApi

/-! ## The order of values -/

/-- Places in the order of values: that of nulls, then those of numbers, then those of texts. -/
abbrev Rank := WithBot (Lex (ℚ ⊕ String))

namespace Rank

def ofRat (x : ℚ) : Rank := WithBot.some (toLex (Sum.inl x))

def ofText (s : String) : Rank := WithBot.some (toLex (Sum.inr s))

theorem compare_ofRat (x y : ℚ) : Ord.compare (ofRat x) (ofRat y) = Ord.compare x y := by
  have hmono : StrictMono ofRat := WithBot.coe_strictMono.comp Sum.Lex.inl_strictMono
  rw [← cmp_eq_compare, hmono.cmp_map_eq, cmp_eq_compare]

theorem compare_ofText (s t : String) : Ord.compare (ofText s) (ofText t) = Ord.compare s t := by
  have hmono : StrictMono ofText := WithBot.coe_strictMono.comp Sum.Lex.inr_strictMono
  rw [← cmp_eq_compare, hmono.cmp_map_eq, cmp_eq_compare]

end Rank

namespace Value

variable {v : Value} {x : Number}

/-- The place of a value: numbers by value, texts by code points. -/
def rank (v : Value) : Rank :=
  match v.number?, v with
  | some x, _ => .ofRat x.toRat
  | none, text s => .ofText s
  | none, _ => ⊥

theorem rank_of_number (h : v.number? = some x) : v.rank = .ofRat x.toRat := by
  unfold rank
  rw [h]

theorem isNull_of_number (h : v.number? = some x) : v.isNull = false := by
  cases v <;> first | rfl | cases h

end Value

theorem compareCells_numbers {v w : Value} (hv : v.NullOrNumber) (hw : w.NullOrNumber) :
    compareCells v w = some (Ord.compare v.rank w.rank) := by
  unfold compareCells
  rcases hv with rfl | ⟨x, hx⟩ <;> rcases hw with rfl | ⟨y, hy⟩
  · rfl
  · rw [Value.isNull_of_number hy, Value.rank_of_number hy]
    rfl
  · rw [Value.isNull_of_number hx, Value.rank_of_number hx]
    rfl
  · rw [Value.isNull_of_number hx, Value.isNull_of_number hy, Value.rank_of_number hx,
      Value.rank_of_number hy, Rank.compare_ofRat, Value.same_of_number hx hy,
      Value.compare?_of_number hx hy]
    cases Ord.compare x.toRat y.toRat <;> rfl

theorem compareCells_texts {v w : Value} (hv : v.NullOrText) (hw : w.NullOrText) :
    compareCells v w = some (Ord.compare v.rank w.rank) := by
  unfold compareCells
  rcases hv with rfl | ⟨s, rfl⟩ <;> rcases hw with rfl | ⟨t, rfl⟩
  · rfl
  · rfl
  · rfl
  · show _ = some (Ord.compare (Rank.ofText s) (Rank.ofText t))
    rw [Rank.compare_ofText]
    by_cases hst : s = t
    · subst hst
      simp [Value.isNull, Value.same]
    · simp [Value.isNull, Value.same, Value.compare?, hst]

/-- A field of the documents holds nothing but numbers and nulls, or nothing but texts and nulls. -/
def OneKind (docs : List Fields) (field : String) : Prop :=
  (∀ doc ∈ docs, (Fields.get doc field).NullOrNumber) ∨
    ∀ doc ∈ docs, (Fields.get doc field).NullOrText

namespace OneKind

variable {docs sorted : List Fields} {field : String} {a b : Fields}

theorem perm (hperm : sorted.Perm docs) (h : OneKind docs field) : OneKind sorted field := by
  have hmem : ∀ doc ∈ sorted, doc ∈ docs := fun doc hdoc => hperm.mem_iff.mp hdoc
  rcases h with h | h
  · exact Or.inl fun doc hdoc => h doc (hmem doc hdoc)
  · exact Or.inr fun doc hdoc => h doc (hmem doc hdoc)

/-- The order of cells of one kind is that of their places. -/
theorem compareCells_eq (h : OneKind docs field) (ha : a ∈ docs) (hb : b ∈ docs) :
    compareCells (Fields.get a field) (Fields.get b field) =
      some (Ord.compare (Fields.get a field).rank (Fields.get b field).rank) := by
  rcases h with h | h
  · exact compareCells_numbers (h a ha) (h b hb)
  · exact compareCells_texts (h a ha) (h b hb)

theorem allComparable (h : OneKind docs field) : allComparable field docs = true := by
  induction docs with
  | nil => rfl
  | cons doc docs ih =>
    unfold DocumentApi.allComparable
    have htail : OneKind docs field := by
      rcases h with h | h
      · exact Or.inl (List.forall_mem_cons.mp h).2
      · exact Or.inr (List.forall_mem_cons.mp h).2
    rw [ih htail, Bool.and_true, List.all_eq_true]
    intro other hother
    rw [h.compareCells_eq List.mem_cons_self (List.mem_cons_of_mem _ hother)]
    rfl

end OneKind

/-! ## The order of documents -/

namespace SortKey

/-- The order of two documents on a key. -/
def compare (key : SortKey) (a b : Fields) : Ordering :=
  let order := Ord.compare (Fields.get a key.field).rank (Fields.get b key.field).rank
  if key.descending then order.swap else order

/-- The order of two documents on the first key that tells them apart. -/
def compareAll (keys : List SortKey) (a b : Fields) : Ordering :=
  keys.foldr (fun key later => (key.compare a b).then later) .eq

variable {key : SortKey} {docs : List Fields} {a b : Fields}

/-- The order on a key is one of places, read backward when the key is descending. -/
instance : Std.TransCmp key.compare := by
  have hplaces : Std.TransCmp (compareOn fun doc : Fields => (Fields.get doc key.field).rank) :=
    inferInstance
  cases hdescending : key.descending with
  | false =>
    have : key.compare = compareOn fun doc => (Fields.get doc key.field).rank := by
      funext a b
      unfold compare
      rw [hdescending]
      rfl
    rwa [this]
  | true =>
    have : key.compare = fun a b => compareOn (fun doc => (Fields.get doc key.field).rank) b a := by
      funext a b
      unfold compare
      rw [hdescending]
      exact Std.OrientedCmp.eq_swap.symm
    rw [this]
    infer_instance

theorem notAfter_eq (h : OneKind docs key.field) (ha : a ∈ docs) (hb : b ∈ docs) :
    notAfter key a b = (key.compare a b).isLE := by
  unfold notAfter compare
  rw [h.compareCells_eq ha hb]
  dsimp only
  cases key.descending <;>
    cases Ord.compare (Fields.get a key.field).rank (Fields.get b key.field).rank <;> rfl

end SortKey

/-- Documents of one kind on a key are sorted by the order on it. -/
theorem sortByKey_eq {docs : List Fields} {key : SortKey} (h : OneKind docs key.field) :
    sortByKey docs key = .ok (docs.mergeSort fun a b => (key.compare a b).isLE) := by
  unfold sortByKey
  rw [if_pos h.allComparable]
  have hsame := List.map_mergeSort (r := notAfter key) (s := fun a b => (key.compare a b).isLE)
    (f := id) (l := docs) fun a ha b hb => SortKey.notAfter_eq h ha hb
  simpa using hsame

/-! ## Stable sorts -/

/-- A stable sort keeps the order of items that are all below one another. -/
theorem filter_mergeSort {α : Type} {le : α → α → Bool} {p : α → Bool}
    (trans : ∀ a b c, le a b = true → le b c = true → le a c = true)
    (total : ∀ a b, (le a b || le b a) = true) (hp : ∀ a b, p a = true → p b = true → le a b = true)
    (items : List α) : (items.mergeSort le).filter p = items.filter p := by
  have hordered : (items.filter p).Pairwise fun a b => le a b = true :=
    List.pairwise_of_forall_mem_list fun a ha b hb =>
      hp a b (List.mem_filter.mp ha).2 (List.mem_filter.mp hb).2
  have hsub : (items.filter p).Sublist (items.mergeSort le) :=
    List.sublist_mergeSort trans total hordered List.filter_sublist
  have hsub' : (items.filter p).Sublist ((items.mergeSort le).filter p) := by
    simpa using hsub.filter p
  refine (hsub'.eq_of_length ?_).symm
  exact ((List.mergeSort_perm items le).filter p).length_eq.symm

/-- What a stable sort of documents by some keys answers: the same documents, ordered by the keys,
and those that the keys do not tell apart in the order that they had. -/
structure SortedBy (keys : List SortKey) (docs sorted : List Fields) : Prop where
  perm : sorted.Perm docs
  ordered : sorted.Pairwise fun a b => SortKey.compareAll keys a b ≠ .gt
  stable : ∀ doc, sorted.filter (fun other => SortKey.compareAll keys doc other == .eq) =
    docs.filter fun other => SortKey.compareAll keys doc other == .eq

namespace SortedBy

variable {keys : List SortKey} {docs sorted : List Fields}

theorem nil (docs : List Fields) : SortedBy [] docs docs where
  perm := .refl docs
  ordered := List.pairwise_of_forall fun _ _ => by simp [SortKey.compareAll]
  stable _ := rfl

/-- A stable sort by one more key makes it the most significant one. -/
theorem step (key : SortKey) (h : SortedBy keys docs sorted) :
    SortedBy (key :: keys) docs (sorted.mergeSort fun a b => (key.compare a b).isLE) := by
  have htrans : ∀ a b c, (key.compare a b).isLE = true → (key.compare b c).isLE = true →
      (key.compare a c).isLE = true := fun _ _ _ => Std.TransCmp.isLE_trans
  have htotal : ∀ a b, ((key.compare a b).isLE || (key.compare b a).isLE) = true := by
    intro a b
    have hswap : key.compare b a = (key.compare a b).swap := Std.OrientedCmp.eq_swap
    rw [hswap]
    cases key.compare a b <;> rfl
  -- the documents that the key does not tell apart stay as they were
  have hkept : ∀ doc, (sorted.mergeSort fun a b => (key.compare a b).isLE).filter
      (fun other => key.compare doc other == .eq) =
        sorted.filter fun other => key.compare doc other == .eq := by
    refine fun doc => filter_mergeSort htrans htotal (fun a b ha hb => ?_) sorted
    have hab : key.compare doc b = key.compare a b :=
      Std.TransCmp.congr_left (eq_of_beq ha)
    rw [← hab, eq_of_beq hb]
    rfl
  have hclass : ∀ doc other, (SortKey.compareAll (key :: keys) doc other == .eq) =
      ((key.compare doc other == .eq) && (SortKey.compareAll keys doc other == .eq)) := by
    intro doc other
    show ((key.compare doc other).then (SortKey.compareAll keys doc other) == .eq) = _
    cases key.compare doc other <;> rfl
  refine ⟨(List.mergeSort_perm sorted _).trans h.perm, ?_, fun doc => ?_⟩
  · rw [List.pairwise_iff_forall_sublist]
    intro a b hsub
    show (key.compare a b).then (SortKey.compareAll keys a b) ≠ .gt
    have hle := List.pairwise_iff_forall_sublist.mp (List.pairwise_mergeSort htrans htotal sorted) hsub
    cases horder : key.compare a b with
    | lt => simp
    | gt =>
      rw [horder] at hle
      cases hle
    | eq =>
      have hboth : [a, b].Sublist (sorted.filter fun other => key.compare a other == .eq) := by
        have := hsub.filter fun other => key.compare a other == .eq
        rw [hkept] at this
        simpa [horder, Std.ReflCmp.compare_self] using this
      exact List.pairwise_iff_forall_sublist.mp h.ordered (hboth.trans List.filter_sublist)
  · simp only [hclass, ← List.filter_filter]
    rw [List.filter_comm, hkept, List.filter_comm, h.stable]

end SortedBy

theorem sortDocuments_cons (docs : List Fields) (key : SortKey) (keys : List SortKey) :
    sortDocuments docs (key :: keys) = (do sortByKey (← sortDocuments docs keys) key) := by
  unfold sortDocuments
  simp [List.foldlM_append]

/-- Sorting by keys whose fields hold one kind each is a stable sort by all of them. -/
theorem sortDocuments_sorted {docs : List Fields} {keys : List SortKey}
    (h : ∀ key ∈ keys, OneKind docs key.field) :
    ∃ sorted, sortDocuments docs keys = .ok sorted ∧ SortedBy keys docs sorted := by
  induction keys with
  | nil => exact ⟨docs, rfl, .nil docs⟩
  | cons key keys ih =>
    obtain ⟨hkey, hkeys⟩ := List.forall_mem_cons.mp h
    obtain ⟨sorted, hsorted, hby⟩ := ih hkeys
    refine ⟨_, ?_, hby.step key⟩
    rw [sortDocuments_cons, hsorted]
    exact sortByKey_eq (hkey.perm hby.perm)

/-! ## Pairs of a field and a direction -/

/-- A direction is descending if it is `desc` in capital or small letters. -/
theorem SortKey.ofDirection_eq (field direction : String) :
    ofDirection field direction =
      ⟨field, decide (foldAscii direction.toList = "desc".toList)⟩ := by
  have hword : PlainWord "desc".toList := by simp [PlainWord]
  unfold ofDirection
  congr 1
  rw [Bool.eq_iff_iff, beq_iff_eq, decide_eq_true_eq, lowerText_eq_iff hword]

/-- A pair as the list that the keys are read from. -/
def sortPair (pair : String × String) : Value := .list [.text pair.1, .text pair.2]

theorem sortByPairs_eq (docs : List Fields) (pairs : List (String × String)) :
    sortByPairs docs (.list (pairs.map sortPair)) =
      sortDocuments docs (pairs.map fun pair => .ofDirection pair.1 pair.2) := by
  show (pairs.map sortPair).reverse.foldlM _ docs = _
  unfold sortDocuments
  rw [← List.map_reverse, ← List.map_reverse, List.foldlM_map, List.foldlM_map]
  rfl

/-- A list of documents sorted by pairs of a field and a direction: the documents ordered by the first
field on which they differ, backward where its direction is `desc` in any case, and in the order that
they had where they differ on none. -/
theorem sortByPairs_sorted (docs : List Fields) (pairs : List (String × String))
    (h : ∀ pair ∈ pairs, OneKind docs pair.1) :
    ∃ sorted, sortByPairs docs (.list (pairs.map sortPair)) = .ok sorted ∧
      sortDocuments docs (pairs.map fun pair => .ofDirection pair.1 pair.2) = .ok sorted ∧
      SortedBy (pairs.map fun pair =>
        ⟨pair.1, decide (foldAscii pair.2.toList = "desc".toList)⟩) docs sorted := by
  have hkeys : ∀ key ∈ pairs.map fun pair => SortKey.ofDirection pair.1 pair.2,
      OneKind docs key.field := by
    intro key hkey
    obtain ⟨pair, hpair, rfl⟩ := List.mem_map.mp hkey
    exact h pair hpair
  obtain ⟨sorted, hsorted, hby⟩ := sortDocuments_sorted hkeys
  simp only [SortKey.ofDirection_eq] at hby
  exact ⟨sorted, (sortByPairs_eq docs pairs).trans hsorted, hsorted, hby⟩

/-- People in the order in which they came: Bo has no name on record, and the flag of Cy counts as
one. -/
def arrivals : List Fields :=
  [[("id", .text "ann"), ("name", .text "Ann"), ("age", .int 7)],
    [("id", .text "bo"), ("age", .int 7)],
    [("id", .text "cy"), ("name", .text "Cy"), ("age", .bool true)],
    [("id", .text "di"), ("name", .text "Ann"), ("age", .int 7)]]

def oldestThenName : List (String × String) := [("age", "DesC"), ("name", "asc"), ("age", "asc")]

theorem sortByPairs_arrivals :
    (∀ pair ∈ oldestThenName, OneKind arrivals pair.1) ∧
    ∃ sorted, sortByPairs arrivals (.list (oldestThenName.map sortPair)) = .ok sorted ∧
      sorted.map (fun doc => Fields.get doc "id") =
        [.text "bo", .text "ann", .text "di", .text "cy"] ∧
      SortedBy [⟨"age", true⟩, ⟨"name", false⟩, ⟨"age", false⟩] arrivals sorted := by
  have hage : OneKind arrivals "age" := by
    refine Or.inl fun doc hdoc => Or.inr ?_
    fin_cases hdoc <;> exact ⟨_, rfl⟩
  have hname : OneKind arrivals "name" := by
    refine Or.inr fun doc hdoc => ?_
    fin_cases hdoc
    · exact Or.inr ⟨_, rfl⟩
    · exact Or.inl rfl
    · exact Or.inr ⟨_, rfl⟩
    · exact Or.inr ⟨_, rfl⟩
  have hkind : ∀ pair ∈ oldestThenName, OneKind arrivals pair.1 := by
    simp [oldestThenName, hage, hname]
  obtain ⟨sorted, hpairs, hsorted, hby⟩ := sortByPairs_sorted arrivals oldestThenName hkind
  have hdirections : (oldestThenName.map fun pair => SortKey.mk pair.1
      (decide (foldAscii pair.2.toList = "desc".toList))) =
        [⟨"age", true⟩, ⟨"name", false⟩, ⟨"age", false⟩] := by
    simp [oldestThenName, foldAscii]
  simp only [SortKey.ofDirection_eq] at hsorted
  rw [hdirections] at hsorted hby
  refine ⟨hkind, sorted, hpairs, ?_, hby⟩
  have hresult : (sortDocuments arrivals
      [⟨"age", true⟩, ⟨"name", false⟩, ⟨"age", false⟩]).map
        (List.map fun doc => Fields.get doc "id") =
          .ok [.text "bo", .text "ann", .text "di", .text "cy"] := by
    cbv
  rw [hsorted] at hresult
  exact Except.ok.inj hresult

end DocumentApi
