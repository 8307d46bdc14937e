import DocumentApi.Proofs.Store.Pages
import DocumentApi.Proofs.Text.Patterns
import Mathlib.Tactic.FinCases

/-!
# Searched documents

* `Value.mentions`: whether a value is a text that contains another, letters of both in lower case.
* `Search.finds_eq`: a search finds a text or a null exactly if it mentions the text that is searched.
* `Store.find_search`: a search answers the documents that mention its text in one of its fields.
-/

namespace DocumentApi

/-- Whether a value is a text that contains another one, ASCII letters of both in lower case. -/
def Value.mentions (v : Value) (needle : String) : Bool :=
  match v with
  | text s => decide (foldAscii needle.toList <:+: foldAscii s.toList)
  | _ => false

namespace Search

variable {search : Search} {v : Value} {e : Entry}

/-- A search finds its text as it is: the pattern that it is read through adds nothing to it. -/
theorem finds_eq (h : v.NullOrText) : search.finds v = v.mentions search.text := by
  rcases h with rfl | ⟨s, rfl⟩
  · rfl
  · show likeIgnoringCase (likePattern search.text.toList) s.toList = decide _
    rw [likeIgnoringCase_likePattern, Bool.eq_iff_iff, hasInfix_iff, decide_eq_true_eq]

theorem selects_eq (h : ∀ f ∈ search.fields, (Fields.get e.fields f).NullOrText) :
    search.selects e = search.fields.any fun f => (Fields.get e.fields f).mentions search.text := by
  unfold selects
  rw [Bool.eq_iff_iff, List.any_eq_true, List.any_eq_true]
  constructor
  · rintro ⟨f, hf, hfinds⟩
    exact ⟨f, hf, finds_eq (h f hf) ▸ hfinds⟩
  · rintro ⟨f, hf, hmentions⟩
    exact ⟨f, hf, (finds_eq (h f hf)).trans hmentions⟩

/-- A search as the pair that it is read from. -/
def toValue (search : Search) : Value :=
  .list [.text search.text, .list (search.fields.map .text)]

theorem ofValue_toValue (search : Search) (htext : search.text ≠ "") (hfields : search.fields ≠ []) :
    ofValue search.toValue = .ok (some search) := by
  have hgiven : (Value.text search.text).truthy = true := by simp [Value.truthy, htext]
  have hsome : (search.fields.map Value.text).isEmpty = false := by simp [hfields]
  have hnames : (search.fields.map Value.text).filterMap Value.asText? = search.fields := by
    rw [List.filterMap_map]
    exact List.filterMap_some
  show (if !(Value.text search.text).truthy || (search.fields.map Value.text).isEmpty then
    Except.ok none else Except.ok (some (Search.mk search.text _))) = _
  rw [hgiven, hsome, hnames]
  rfl

end Search

namespace Store

/-- A search answers, in the order in which they were stored, the documents of which a listed field
contains the searched text, letters of both in lower case and every other character for itself. The
fields are the stored ones; the id, which is kept beside them, is not searched. -/
theorem find_search (s : Store) (collection text : String) (fields : List String)
    (htext : text ≠ "") (hfields : fields ≠ [])
    (hstored : ∀ e ∈ s.entries, e.collection = collection → ∀ f ∈ fields,
      (Fields.get e.fields f).NullOrText) :
    s.find collection { search := .list [.text text, .list (fields.map .text)] } =
      .ok ((s.entries.filter fun e => e.collection == collection &&
        fields.any fun f => (Fields.get e.fields f).mentions text).map Entry.document) := by
  have hsearch : Search.ofValue (.list [.text text, .list (fields.map .text)]) =
      .ok (some ⟨text, fields⟩) := Search.ofValue_toValue ⟨text, fields⟩ htext hfields
  have hplan : Plan.make .null (.list [.text text, .list (fields.map .text)]) =
      .ok ⟨[], [], some ⟨text, fields⟩⟩ := by
    unfold Plan.make
    rw [hsearch]
    rfl
  rw [find_of_columns hplan rfl rfl]
  congr 2
  refine List.filter_congr fun e he => ?_
  by_cases hcollection : e.collection = collection
  · show (_ && (true && Search.selects ⟨text, fields⟩ e)) = _
    rw [Bool.true_and, Search.selects_eq (hstored e he hcollection)]
  · have helsewhere : (e.collection == collection) = false := by simpa using hcollection
    show ((e.collection == collection) && _) = ((e.collection == collection) && _)
    rw [helsewhere]
    rfl

/-- Labels with characters that have a meaning in patterns. -/
def labels : Store :=
  ⟨[⟨"labels", "a", [("name", .text "100%_OFF\\now")]⟩, ⟨"labels", "b", [("name", .text "100 off")]⟩,
    ⟨"labels", "c", [("name", .null), ("note", .text "50%_off\\NOW")]⟩, ⟨"labels", "d", []⟩]⟩

/-- The percent sign, the low line and the backslash are searched for like letters. -/
theorem find_labels :
    ("%_off\\n" ≠ "" ∧ ["name", "note"] ≠ [] ∧
      ∀ e ∈ labels.entries, e.collection = "labels" → ∀ f ∈ ["name", "note"],
        (Fields.get e.fields f).NullOrText) ∧
    (labels.find "labels"
      { search := .list [.text "%_off\\n", .list (["name", "note"].map .text)] }).map
        (List.map fun doc => Fields.get doc "id") = .ok [.text "a", .text "c"] := by
  have hstored : ∀ e ∈ labels.entries, e.collection = "labels" → ∀ f ∈ ["name", "note"],
      (Fields.get e.fields f).NullOrText := by
    intro e he _ f hf
    fin_cases he <;> fin_cases hf <;> first | exact Or.inl rfl | exact Or.inr ⟨_, rfl⟩
  refine ⟨⟨by decide, by decide, hstored⟩, ?_⟩
  rw [find_search labels "labels" "%_off\\n" ["name", "note"] (by decide) (by decide) hstored]
  have hname : (Value.text "100%_OFF\\now").mentions "%_off\\n" = true := by
    simp [Value.mentions, foldAscii]
    decide
  have hnote : (Value.text "50%_off\\NOW").mentions "%_off\\n" = true := by
    simp [Value.mentions, foldAscii]
    decide
  have hother : (Value.text "100 off").mentions "%_off\\n" = false := by
    simp [Value.mentions, foldAscii]
    decide
  have hnull : Value.null.mentions "%_off\\n" = false := rfl
  simp [labels, Fields.get, Table.find?, hname, hnote, hother, hnull, Except.map, Entry.document,
    Table.set]

end Store

end DocumentApi
