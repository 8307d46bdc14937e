import DocumentApi.Proofs.Store.Columns

/-!
# Queries and filters

A query splits its filter between the columns and the documents.

* `Condition.meets`: whether a document meets a condition that answers.
* `Plan.sortOut_spec`: a plan has every condition of its filter, and both parts of it together
  select what the conditions do.
* `Store.find_eq_filter`: a query answers the documents that meet its filter, in order.
-/

namespace DocumentApi

namespace Condition

variable {doc : Fields} {c : Condition} {cs : List Condition}

/-- Whether a document meets a condition. -/
def meets (doc : Fields) (c : Condition) : Bool :=
  (c.matchesDocument doc).toOption.getD false

theorem Plain.matchesDocument (h : c.Plain) (doc : Fields) :
    c.matchesDocument doc = .ok (c.meets doc) := by
  obtain ⟨os, -, hmatches⟩ := matchesValue_eq h (Fields.get doc c.key)
  unfold meets Condition.matchesDocument
  rw [hmatches]
  rfl

theorem allMatch_eq (h : ∀ c ∈ cs, c.Plain) (doc : Fields) :
    allMatch doc cs = .ok (cs.all (meets doc)) := by
  induction cs with
  | nil => rfl
  | cons c cs ih =>
    have ih := ih fun c hc => h c (List.mem_cons_of_mem _ hc)
    unfold allMatch
    rw [(h c List.mem_cons_self).matchesDocument, List.all_cons]
    dsimp only [bind, Except.bind]
    cases c.meets doc with
    | false => rfl
    | true => rw [if_pos rfl, ih]; rfl

end Condition

theorem meetsNamed_eq {named : List NamedCondition} {cs : List Condition} (doc : Fields)
    (hread : named.mapM Condition.read = .ok cs) (h : ∀ c ∈ cs, c.Plain) :
    meetsNamed doc named = .ok (cs.all (Condition.meets doc)) := by
  have hread := mapM_ok_iff.mp hread
  induction hread with
  | nil => rfl
  | cons hc _ ih =>
    have ih := ih (mapM_ok_iff.mpr ‹_›) fun c hc => h c (List.mem_cons_of_mem _ hc)
    unfold meetsNamed
    rw [hc, List.all_cons]
    dsimp only [bind, Except.bind]
    rw [(h _ List.mem_cons_self).matchesDocument]
    dsimp only
    cases Condition.meets doc _ with
    | false => rfl
    | true => rw [if_pos rfl, ih]; rfl

namespace Plan

theorem sortOut_cons {n : NamedCondition} {c : Condition} {column? : Option ColumnCondition}
    {named : List NamedCondition} {columns : List ColumnCondition} {leftover : List Condition}
    (hn : Condition.read n = .ok c) (hcolumn : c.toColumn = .ok column?)
    (hplan : sortOut named = .ok (columns, leftover)) :
    sortOut (n :: named) = .ok
      (column?.elim (columns, c :: leftover) fun column => (column :: columns, leftover)) := by
  unfold sortOut
  rw [hn]
  dsimp only [bind, Except.bind]
  rw [hcolumn]
  dsimp only
  rw [hplan]
  cases column? <;> rfl

/-- Both parts of a plan together select what the conditions of its filter do. -/
theorem sortOut_spec {named : List NamedCondition} {cs : List Condition}
    (hread : List.Forall₂ (fun n c => Condition.read n = .ok c) named cs)
    (hcolumns : ∀ c ∈ cs, ∃ column?, c.toColumn = .ok column?) :
    ∃ columns leftover, sortOut named = .ok (columns, leftover) ∧ (∀ c ∈ leftover, c ∈ cs) ∧
      ∀ e : Entry, (∀ c ∈ cs, ∀ column, c.toColumn = .ok (some column) →
          column.holds e = c.meets e.document) →
        (columns.all (·.holds e) && leftover.all (Condition.meets e.document)) =
          cs.all (Condition.meets e.document) := by
  induction hread with
  | nil => exact ⟨[], [], rfl, nofun, fun _ _ => rfl⟩
  | @cons n c named cs hn _ ih =>
    obtain ⟨column?, hcolumn⟩ := hcolumns c List.mem_cons_self
    obtain ⟨columns, leftover, hplan, hsub, hselect⟩ :=
      ih fun c hc => hcolumns c (List.mem_cons_of_mem _ hc)
    have hsort := sortOut_cons hn hcolumn hplan
    cases column? with
    | some column =>
      refine ⟨column :: columns, leftover, hsort, fun c hc => List.mem_cons_of_mem _ (hsub c hc),
        fun e hagree => ?_⟩
      rw [List.all_cons, List.all_cons, Bool.and_assoc, hagree c List.mem_cons_self column hcolumn,
        hselect e fun c hc => hagree c (List.mem_cons_of_mem _ hc)]
    | none =>
      refine ⟨columns, c :: leftover, hsort, fun c' hc' => ?_, fun e hagree => ?_⟩
      · rcases List.mem_cons.mp hc' with rfl | hc'
        · exact List.mem_cons_self
        · exact List.mem_cons_of_mem _ (hsub c' hc')
      · rw [List.all_cons, List.all_cons, Bool.and_left_comm,
          hselect e fun c hc => hagree c (List.mem_cons_of_mem _ hc)]

theorem keepMatching_eq {leftover : List Condition} (h : ∀ c ∈ leftover, c.Plain)
    (docs : List Fields) : keepMatching leftover docs =
      .ok (docs.filter fun doc => leftover.all (Condition.meets doc)) := by
  induction docs with
  | nil => rfl
  | cons doc docs ih =>
    unfold keepMatching
    rw [Condition.allMatch_eq h, ih, List.filter_cons]
    rfl

end Plan

namespace Store

/-- The numbers that a condition compares in a store are held by doubles. -/
structure Exact (s : Store) (collection : String) (c : Condition) : Prop where
  operands : ∀ os, c.operands = .ok os → ∀ o ∈ os, o.Exact
  stored : ∀ e ∈ s.entries, e.collection = collection → (Fields.get e.document c.key).Exact

/-- In every document, the field of a column condition is absent, null or of the operand's kind. -/
def OfOperandKind (s : Store) (collection : String) (c : Condition) : Prop :=
  ∀ column, c.toColumn = .ok (some column) → ∀ e ∈ s.entries, e.collection = collection →
    Fields.get e.document c.key = .null ∨
      ColumnKind.ofValue? (Fields.get e.document c.key) = some column.kind

/-- A query answers the documents of a collection that meet its filter, in the order of the store,
however the filter is split between columns and documents. -/
theorem find_eq_filter {s : Store} {collection : String} {filter : Value} {cs : List Condition}
    (hread : Condition.readAll filter = .ok cs) (hplain : ∀ c ∈ cs, c.Plain)
    (hexact : ∀ c ∈ cs, s.Exact collection c) (hkind : ∀ c ∈ cs, s.OfOperandKind collection c) :
    (∀ doc, ∃ meets, matchesFilter doc filter = .ok meets) ∧
    s.find collection { filter } =
      .ok (((s.entries.filter fun e => e.collection == collection).map Entry.document).filter
        fun doc => (matchesFilter doc filter).toOption == some true) := by
  obtain ⟨named, hnamed, hread⟩ : ∃ named, namedConditions filter = .ok named ∧
      named.mapM Condition.read = .ok cs := by
    unfold Condition.readAll at hread
    cases hnamed : namedConditions filter with
    | error e => rw [hnamed] at hread; cases hread
    | ok named => rw [hnamed] at hread; exact ⟨named, rfl, hread⟩
  have hmatches : ∀ doc, matchesFilter doc filter = .ok (cs.all (Condition.meets doc)) := by
    intro doc
    unfold matchesFilter
    rw [hnamed]
    exact meetsNamed_eq doc hread hplain
  refine ⟨fun doc => ⟨_, hmatches doc⟩, ?_⟩
  obtain ⟨columns, leftover, hplan, hsub, hselect⟩ := Plan.sortOut_spec (mapM_ok_iff.mp hread)
    fun c hc => Condition.toColumn_ok (hplain c hc) (hexact c hc).operands
  have hmake : Plan.make filter .null = .ok ⟨columns, leftover, none⟩ := by
    unfold Plan.make
    rw [hnamed]
    dsimp only [bind, Except.bind]
    rw [hplan]
    rfl
  unfold find
  rw [hmake]
  dsimp only [bind, Except.bind]
  unfold Plan.run
  rw [Plan.keepMatching_eq fun c hc => hplain c (hsub c hc)]
  refine congrArg Except.ok ?_
  rw [List.filter_map, List.filter_map]
  refine congrArg (List.map Entry.document) ?_
  unfold Plan.selected
  rw [List.filter_filter, List.filter_filter]
  refine List.filter_congr fun e he => ?_
  by_cases hcollection : e.collection = collection
  · have hagree := hselect e fun c hc column hcolumn => by
      have := Condition.toColumn_holds (hplain c hc) hcolumn (hexact c hc).operands
        ((hexact c hc).stored e he hcollection) (hkind c hc column hcolumn e he hcollection)
      rw [(hplain c hc).matchesDocument] at this
      exact (Except.ok.inj this).symm
    dsimp only [Function.comp]
    rw [hmatches, ← hagree, Bool.and_comm]
    simp [Plan.selects, hcollection, Except.toOption]
  · rw [beq_eq_false_iff_ne.mpr hcollection, Bool.false_and, Bool.and_false, Bool.and_false]

/-- People of whom one has no age, beside a pet whose age is a text. -/
def peopleAndPets : Store :=
  ⟨[⟨"people", "a", [("name", .text "Ann"), ("age", .int 30)]⟩,
    ⟨"people", "b", [("name", .text "Bo")]⟩,
    ⟨"pets", "c", [("name", .text "Bo"), ("age", .text "old")]⟩,
    ⟨"people", "d", [("name", .null), ("age", .int 40)]⟩]⟩

/-- A condition that columns answer and one that is left over, as its list holds null. -/
def otherAgeNamedBo : Value :=
  .record [("age", .record [("notIn", .list [.int 30, .int 31])]),
    ("name", .record [("in", .list [.text "Bo", .null])])]

def otherAgeNamedBoConditions : List Condition :=
  [⟨"age", .notIn, .list [.int 30, .int 31]⟩, ⟨"name", .isIn, .list [.text "Bo", .null]⟩]

/-- A missing age is not among the given ones, and null is a name of the list. -/
theorem find_otherAgeNamedBo :
    (Condition.readAll otherAgeNamedBo = .ok otherAgeNamedBoConditions ∧
      (∀ c ∈ otherAgeNamedBoConditions, c.Plain) ∧
      (∀ c ∈ otherAgeNamedBoConditions, peopleAndPets.Exact "people" c) ∧
      ∀ c ∈ otherAgeNamedBoConditions, peopleAndPets.OfOperandKind "people" c) ∧
    peopleAndPets.find "people" { filter := otherAgeNamedBo } =
      .ok [[("name", .text "Bo"), ("id", .text "b")],
        [("name", .null), ("age", .int 40), ("id", .text "d")]] := by
  have hread : Condition.readAll otherAgeNamedBo = .ok otherAgeNamedBoConditions := rfl
  have hplain : ∀ c ∈ otherAgeNamedBoConditions, c.Plain := by
    intro c hc
    rcases hc with _ | ⟨_, _ | ⟨_, ⟨⟩⟩⟩
    · exact ⟨by decide, fun _ => Or.inr ⟨_, rfl⟩⟩
    · exact ⟨by decide, fun _ => Or.inr ⟨_, rfl⟩⟩
  have hexact : ∀ c ∈ otherAgeNamedBoConditions, peopleAndPets.Exact "people" c := by
    intro c hc
    rcases hc with _ | ⟨_, _ | ⟨_, ⟨⟩⟩⟩
    · refine ⟨fun os hos o ho i hi => ?_, fun e he _ i hi => ?_⟩
      · cases hos
        subst hi
        rcases ho with _ | ⟨_, _ | ⟨_, ⟨⟩⟩⟩ <;> decide
      · rcases he with _ | ⟨_, _ | ⟨_, _ | ⟨_, _ | ⟨_, ⟨⟩⟩⟩⟩⟩ <;> cases hi <;> decide
    · refine ⟨fun os hos o ho i hi => ?_, fun e he _ i hi => ?_⟩
      · cases hos
        subst hi
        rcases ho with _ | ⟨_, _ | ⟨_, ⟨⟩⟩⟩
      · rcases he with _ | ⟨_, _ | ⟨_, _ | ⟨_, _ | ⟨_, ⟨⟩⟩⟩⟩⟩ <;> cases hi
  have hkind : ∀ c ∈ otherAgeNamedBoConditions, peopleAndPets.OfOperandKind "people" c := by
    intro c hc column hcolumn e he hcollection
    rcases hc with _ | ⟨_, _ | ⟨_, ⟨⟩⟩⟩
    · obtain ⟨-, -, -, os, hos, hkinds, -⟩ := Condition.toColumn_eq_some hcolumn
      cases hos
      rw [← hkinds _ List.mem_cons_self]
      rcases he with _ | ⟨_, _ | ⟨_, _ | ⟨_, _ | ⟨_, ⟨⟩⟩⟩⟩⟩
      · exact Or.inr rfl
      · exact Or.inl rfl
      · exact absurd hcollection (by decide)
      · exact Or.inr rfl
    · cases hcolumn
  exact ⟨⟨hread, hplain, hexact, hkind⟩, (find_eq_filter hread hplain hexact hkind).2.trans rfl⟩

end Store

end DocumentApi
