import DocumentApi.Proofs.Store.Searching
import DocumentApi.Proofs.Text.Folding

/-!
# Documents that contain a text

A condition that a field contains a text is answered by a column, which has ASCII letters alone in
lower case; on a document itself it holds by the full lower case.

* `Value.mentionsInLowerCase`: whether a value is a text that contains another by its full lower case.
* `Condition.holds_containing`: what the column of such a condition selects.
* `Store.find_containing_iff`: what a store answers, and when these are the documents that meet the
  condition.
-/

namespace DocumentApi

/-- Whether a value is a text that contains another one, both in lower case. -/
def Value.mentionsInLowerCase (v : Value) (needle : String) : Bool :=
  match v with
  | text s => decide (lowerChars needle.toList <:+: lowerChars s.toList)
  | _ => false

namespace Value

variable {v : Value} {needle : String}

/-- A text without capitals beyond ASCII is found in lower case where it is found by ASCII letters. -/
theorem mentionsInLowerCase_of_mentions (hneedle : ∀ c ∈ needle.toList, AsciiCased c)
    (h : v.mentions needle) : v.mentionsInLowerCase needle := by
  cases v with
  | text s =>
    unfold mentions at h
    unfold mentionsInLowerCase
    rw [decide_eq_true_eq] at h ⊢
    exact infix_lowerChars hneedle h
  | _ => cases h

theorem mentions_eq (hneedle : ∀ c ∈ needle.toList, AsciiCased c)
    (hapart : ∀ s, v = .text s → KeepsApart needle.toList s.toList) :
    v.mentions needle = v.mentionsInLowerCase needle := by
  cases v with
  | text s =>
    unfold mentions mentionsInLowerCase
    rw [Bool.eq_iff_iff, decide_eq_true_eq, decide_eq_true_eq]
    exact (infix_lowerChars_iff hneedle (hapart s rfl)).symm
  | _ => rfl

end Value

namespace Condition

/-- The condition that a field contains a text. -/
def containing (key needle : String) : Condition := ⟨key, .contains, .text needle⟩

/-- A filter of one condition. -/
def filter (c : Condition) : Value := .record [(c.key, .record [(c.operator.name, c.operand)])]

variable (key needle : String)

theorem matchesDocument_containing (doc : Fields) :
    (containing key needle).matchesDocument doc =
      .ok ((Fields.get doc key).mentionsInLowerCase needle) := by
  show holds .contains (Fields.get doc key) (.text needle) = _
  cases Fields.get doc key with
  | text s =>
    refine congrArg Except.ok ?_
    show hasInfix (lowerChars needle.toList) (lowerChars s.toList) = decide _
    rw [Bool.eq_iff_iff, hasInfix_iff, decide_eq_true_eq]
  | _ => rfl

theorem meets_containing (doc : Fields) :
    (containing key needle).meets doc = (Fields.get doc key).mentionsInLowerCase needle := by
  unfold meets
  rw [matchesDocument_containing]
  rfl

/-- The column that answers the condition, also for the id. -/
def containingColumn : ColumnCondition := ⟨key, .contains, .text, [.text needle]⟩

theorem toColumn_containing :
    (containing key needle).toColumn = .ok (some (containingColumn key needle)) := by
  have hcolumn : hasColumn key .text = true := by simp [hasColumn]
  show (if columnAnswers .contains .text && hasColumn key .text then _ else _) = _
  rw [hcolumn]
  rfl

theorem make_containing : Plan.make (containing key needle).filter .null =
    .ok ⟨[containingColumn key needle], [], none⟩ := by
  have hread : Condition.read ⟨key, Operator.contains.name, .text needle⟩ =
      .ok (containing key needle) := rfl
  have hsort : Plan.sortOut [⟨key, Operator.contains.name, .text needle⟩] =
      .ok ([containingColumn key needle], []) :=
    Plan.sortOut_cons hread (toColumn_containing key needle) rfl
  have hnamed : namedConditions (containing key needle).filter =
      .ok [⟨key, Operator.contains.name, .text needle⟩] := rfl
  unfold Plan.make
  rw [hnamed]
  dsimp only [bind, Except.bind]
  rw [hsort]
  rfl

variable {key needle}

/-- A column finds a text by its ASCII letters. -/
theorem holds_containing {e : Entry} (h : (Fields.get e.document key).NullOrText) :
    (containingColumn key needle).holds e = (Fields.get e.document key).mentions needle := by
  have hcell : (containingColumn key needle).cell e =
      ColumnKind.text.cast (Fields.get e.document key) :=
    ColumnCondition.cell_eq e (by simp [containingColumn, hasColumn])
  unfold ColumnCondition.holds
  rw [hcell]
  rcases h with hnull | ⟨s, htext⟩
  · rw [hnull]
    rfl
  · rw [htext]
    show (ColumnCondition.cellContains (.text s) (.text needle) || false) = _
    rw [Bool.or_false]
    show Search.finds ⟨needle, []⟩ (.text s) = _
    exact Search.finds_eq (Or.inr ⟨s, rfl⟩)

end Condition

/-- Two tests keep the same items if and only if they agree on all items. -/
theorem filter_eq_filter_iff {α : Type} {p q : α → Bool} {xs : List α} :
    xs.filter p = xs.filter q ↔ ∀ x ∈ xs, p x = q x := by
  refine ⟨fun h x hx => ?_, List.filter_congr⟩
  rw [Bool.eq_iff_iff]
  constructor
  · intro hp
    exact (List.mem_filter.mp (h ▸ List.mem_filter.mpr ⟨hx, hp⟩)).2
  · intro hq
    exact (List.mem_filter.mp (h ▸ List.mem_filter.mpr ⟨hx, hq⟩)).2

namespace Store

variable {s : Store} {collection key needle : String}

/-- The documents of a collection, in the order of their creation. -/
def documents (s : Store) (collection : String) : List Fields :=
  (s.entries.filter fun e => e.collection == collection).map Entry.document

theorem find_containing (hstored : ∀ doc ∈ s.documents collection, (Fields.get doc key).NullOrText) :
    s.find collection { filter := (Condition.containing key needle).filter } =
      .ok ((s.documents collection).filter fun doc => (Fields.get doc key).mentions needle) := by
  rw [find_of_columns (Condition.make_containing key needle) rfl rfl]
  unfold documents
  rw [List.filter_map, List.filter_filter]
  congr 2
  refine List.filter_congr fun e he => ?_
  by_cases hcollection : e.collection = collection
  · have hdoc : e.document ∈ s.documents collection :=
      List.mem_map_of_mem (List.mem_filter.mpr ⟨he, by simpa using hcollection⟩)
    have hholds : (Condition.containingColumn key needle).holds e = _ :=
      Condition.holds_containing (hstored _ hdoc)
    simp [Plan.selects, hholds, hcollection]
  · rw [beq_false_of_ne hcollection, Bool.false_and, Bool.and_false]

/-- A condition that a field of texts and nulls contains a text is answered by the documents that
contain it up to the case of ASCII letters, and met by those that contain it in lower case. These are
the same documents if and only if both ways of comparing agree on every stored text. They do when the
text has no capital beyond ASCII and those of the stored texts become none of its characters; of a
text without such capitals nothing is answered that does not meet the condition. -/
theorem find_containing_iff
    (hstored : ∀ doc ∈ s.documents collection, (Fields.get doc key).NullOrText) :
    s.find collection { filter := (Condition.containing key needle).filter } =
        .ok ((s.documents collection).filter fun doc => (Fields.get doc key).mentions needle) ∧
    (∀ doc, (Condition.containing key needle).matchesDocument doc =
        .ok ((Fields.get doc key).mentionsInLowerCase needle)) ∧
    (s.find collection { filter := (Condition.containing key needle).filter } =
        .ok ((s.documents collection).filter (Condition.containing key needle).meets) ↔
      ∀ doc ∈ s.documents collection, (Fields.get doc key).mentions needle =
        (Fields.get doc key).mentionsInLowerCase needle) ∧
    ((∀ c ∈ needle.toList, AsciiCased c) →
      (∀ doc, (Fields.get doc key).mentions needle →
        (Fields.get doc key).mentionsInLowerCase needle) ∧
      ((∀ doc ∈ s.documents collection, ∀ text, Fields.get doc key = .text text →
          KeepsApart needle.toList text.toList) →
        s.find collection { filter := (Condition.containing key needle).filter } =
          .ok ((s.documents collection).filter (Condition.containing key needle).meets))) := by
  refine ⟨find_containing hstored, Condition.matchesDocument_containing key needle, ?_,
    fun hneedle => ⟨fun doc => Value.mentionsInLowerCase_of_mentions hneedle, fun hapart => ?_⟩⟩
  · rw [find_containing hstored, Except.ok.injEq, filter_eq_filter_iff]
    simp only [Condition.meets_containing]
  · rw [find_containing hstored]
    refine congrArg Except.ok (List.filter_congr fun doc hdoc => ?_)
    rw [Condition.meets_containing]
    exact Value.mentions_eq hneedle (hapart doc hdoc)

/-- Names with capitals beyond ASCII. -/
def dishes : Store :=
  ⟨[⟨"dishes", "a", [("name", .text "ÉCLAIR")]⟩, ⟨"dishes", "b", [("name", .text "ΑΣΑ")]⟩,
    ⟨"dishes", "c", [("name", .null)]⟩, ⟨"dishes", "d", []⟩, ⟨"drinks", "e", [("name", .int 1)]⟩]⟩

theorem documents_dishes : dishes.documents "dishes" =
    [[("name", .text "ÉCLAIR"), ("id", .text "a")], [("name", .text "ΑΣΑ"), ("id", .text "b")],
      [("name", .null), ("id", .text "c")], [("id", .text "d")]] := rfl

theorem dishes_nullOrText :
    ∀ doc ∈ dishes.documents "dishes", (Fields.get doc "name").NullOrText := by
  intro doc hdoc
  fin_cases hdoc <;> first | exact Or.inl rfl | exact Or.inr ⟨_, rfl⟩

/-- A text of ASCII letters is found among them by the condition and by the column. -/
theorem find_dishes_containing :
    (∀ doc ∈ dishes.documents "dishes", (Fields.get doc "name").NullOrText) ∧
    dishes.find "dishes" { filter := (Condition.containing "name" "Cla").filter } =
      .ok [[("name", .text "ÉCLAIR"), ("id", .text "a")]] ∧
    dishes.find "dishes" { filter := (Condition.containing "name" "Cla").filter } =
      .ok ((dishes.documents "dishes").filter (Condition.containing "name" "Cla").meets) := by
  obtain ⟨hfind, -, -, hagree⟩ :=
    @find_containing_iff dishes "dishes" "name" "Cla" dishes_nullOrText
  have hascii : ∀ c ∈ "Cla".toList, c.toNat < 128 ∧ c.toLower ≠ 'i' ∧ c.toLower ≠ 'k' := by
    intro c hc
    fin_cases hc <;> decide
  have hfound : (Value.text "ÉCLAIR").mentions "Cla" = true := by decide +kernel
  have hother : (Value.text "ΑΣΑ").mentions "Cla" = false := by decide +kernel
  have hnull : Value.null.mentions "Cla" = false := rfl
  refine ⟨dishes_nullOrText, ?_, ?_⟩
  · rw [hfind, documents_dishes]
    simp [Fields.get, Table.find?, hfound, hother, hnull]
  · exact (hagree fun c hc => AsciiCased.of_ascii (hascii c hc).1).2 fun _ _ _ _ =>
      KeepsApart.of_ascii hascii

/-- The column misses a capital beyond ASCII, and answers a sigma that is a final one in the text that
it looks for alone. -/
theorem find_dishes_beyond_ascii :
    (dishes.find "dishes" { filter := (Condition.containing "name" "éclair").filter } = .ok [] ∧
      (Condition.containing "name" "éclair").matchesDocument
        [("name", .text "ÉCLAIR"), ("id", .text "a")] = .ok true) ∧
    (dishes.find "dishes" { filter := (Condition.containing "name" "ΑΣ").filter } =
        .ok [[("name", .text "ΑΣΑ"), ("id", .text "b")]] ∧
      (Condition.containing "name" "ΑΣ").matchesDocument
        [("name", .text "ΑΣΑ"), ("id", .text "b")] = .ok false) := by
  have hacute : (Value.text "ÉCLAIR").mentions "éclair" = false := by decide +kernel
  have hgreek : (Value.text "ΑΣΑ").mentions "éclair" = false := by decide +kernel
  have hlatin : (Value.text "ÉCLAIR").mentions "ΑΣ" = false := by decide +kernel
  have hsigma : (Value.text "ΑΣΑ").mentions "ΑΣ" = true := by decide +kernel
  have hnull : ∀ needle, Value.null.mentions needle = false := fun _ => rfl
  refine ⟨⟨?_, ?_⟩, ?_, ?_⟩
  · rw [find_containing dishes_nullOrText, documents_dishes]
    simp [Fields.get, Table.find?, hacute, hgreek, hnull]
  · rw [Condition.matchesDocument_containing]
    refine congrArg Except.ok ?_
    decide +kernel
  · rw [find_containing dishes_nullOrText, documents_dishes]
    simp [Fields.get, Table.find?, hlatin, hsigma, hnull]
  · rw [Condition.matchesDocument_containing]
    refine congrArg Except.ok ?_
    decide +kernel

end Store
end DocumentApi
