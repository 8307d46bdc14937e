import DocumentApi.Naming.Inflection
import DocumentApi.Proofs.Naming.Casing
import Mathlib.Tactic.FinCases

/-!
# Endings of words

A word has a singular of its own exactly if it ends in one `s`.

* `EndingChanged`: another ending of letters, or a last `s` dropped.
* `singularChars_changes`, `singularChars_keeps`: the singular changes the ending of a word that ends
  in `s` but not in `ss`, and is the word itself for every other word.
* `toPascalChars_singular_eq_iff`: so it is in pascal case.
* `head?_pluralChars`: the plural of a word starts as the word does.
-/

namespace DocumentApi

/-- Words that end in `s` but not in `ss`, in capital or small letters. -/
def EndsInOneS (cs : List Char) : Prop :=
  ['s'] <:+ foldAscii cs ∧ ¬ ['s', 's'] <:+ foldAscii cs

instance (cs : List Char) : Decidable (EndsInOneS cs) :=
  inferInstanceAs (Decidable (_ ∧ _))

/-- A word with its ending of letters replaced by another one, or with a last `s` dropped. -/
inductive EndingChanged : List Char → List Char → Prop
  | replaced (v : List Char) {e e' : List Char} (he : Letters e) (he' : Letters e') (hne : e' ≠ [])
      (hdiff : foldAscii e ≠ foldAscii e') (hshort : e'.length ≤ e.length)
      (hlong : e.length ≤ e'.length + 3) : EndingChanged (v ++ e) (v ++ e')
  | dropped (v : List Char) {c : Char} (hc : c.toLower = 's') : EndingChanged (v ++ [c]) v

section Endings

variable {cs v e word : List Char} {endings : List String}

theorem endsInAny_iff :
    endsInAny endings cs = true ↔ ∃ ending ∈ endings, ending.toList <:+ cs := by
  unfold endsInAny
  simp only [List.any_eq_true, List.isSuffixOf_iff_suffix]

theorem exists_of_suffix (hword : PlainWord word) (h : word <:+ lowerChars cs) :
    ∃ v e, cs = v ++ e ∧ foldAscii e = word := by
  obtain ⟨front, hfront⟩ := (suffix_lowerChars_iff hword).mp h
  obtain ⟨v, e, hcs, -, he⟩ := List.map_eq_append_iff.mp hfront.symm
  exact ⟨v, e, hcs, he⟩

theorem dropEnd_append (v e : List Char) : dropEnd e.length (v ++ e) = v := by
  unfold dropEnd
  simp

theorem length_foldAscii (cs : List Char) : (foldAscii cs).length = cs.length :=
  List.length_map _

theorem letters_of_foldAscii (h : Letters (foldAscii e)) : Letters e := by
  intro c hc
  exact isAlpha_of_isAlpha_toLower (h _ (List.mem_map_of_mem hc))

theorem suffix_of_endsInAny (h : endsInAny endings cs = true)
    (hword : ∀ ending ∈ endings, word <:+ ending.toList) : word <:+ cs := by
  obtain ⟨ending, hending, hsuffix⟩ := endsInAny_iff.mp h
  exact (hword ending hending).trans hsuffix

/-- Endings of three letters, with what the singular has in their place. -/
def singularEndings : List (List Char × List Char) :=
  [(['i', 'e', 's'], ['y']), (['v', 'e', 's'], ['f', 'e']), (['v', 'e', 's'], ['f'])]

theorem endingChanged_of_rule (rule : List Char × List Char) (hrule : rule ∈ singularEndings)
    (h : rule.1 <:+ lowerChars cs) : EndingChanged cs (dropEnd 3 cs ++ rule.2) := by
  have hletters : PlainWord rule.1 ∧ Letters rule.1 ∧ Letters rule.2 := by
    fin_cases hrule <;> simp [PlainWord, Letters]
  have hchange : rule.2 ≠ [] ∧ rule.1 ≠ foldAscii rule.2 ∧ rule.1.length = 3 ∧
      rule.2.length ≤ 3 := by
    fin_cases hrule <;> decide
  obtain ⟨hplain, hword, htaken⟩ := hletters
  obtain ⟨hne, hdiff, hthree, hshort⟩ := hchange
  obtain ⟨v, e, rfl, he⟩ := exists_of_suffix hplain h
  have hlength : e.length = 3 := by rw [← length_foldAscii, he, hthree]
  rw [← hlength, dropEnd_append]
  refine .replaced v (letters_of_foldAscii (he ▸ hword)) htaken hne (he ▸ hdiff) ?_ ?_
  · omega
  · omega

theorem endsInOneS_of_es (h : endsInAny endings (lowerChars cs) = true)
    (hes : ∀ ending ∈ endings, ['e', 's'] <:+ ending.toList) : EndsInOneS cs := by
  have hword : PlainWord ['e', 's'] := by simp [PlainWord]
  obtain ⟨v, e, rfl, he⟩ := exists_of_suffix hword (suffix_of_endsInAny h hes)
  unfold EndsInOneS
  rw [foldAscii_append, he]
  constructor
  · exact ⟨foldAscii v ++ ['e'], by simp⟩
  · rintro ⟨front, hfront⟩
    have := congrArg List.reverse hfront
    simp at this

theorem endsInOneS_iff : (endsInAny ["s"] (lowerChars cs) && !endsInAny ["ss"] (lowerChars cs)) = true ↔
    EndsInOneS cs := by
  have hs : PlainWord "s".toList := by simp [PlainWord]
  have hss : PlainWord "ss".toList := by simp [PlainWord]
  rw [Bool.and_eq_true, Bool.not_eq_true', ← Bool.not_eq_true, endsInAny_iff, endsInAny_iff]
  simp only [List.mem_singleton, exists_eq_left, suffix_lowerChars_iff hs, suffix_lowerChars_iff hss]
  exact Iff.rfl

/-- A word that does not end in one `s` is its own singular. -/
theorem singularChars_keeps (h : ¬ EndsInOneS cs) : singularChars cs = cs := by
  have hno : ∀ endings : List String, (∀ ending ∈ endings, ['e', 's'] <:+ ending.toList) →
      endsInAny endings (lowerChars cs) = false := fun endings hes =>
    Bool.eq_false_iff.mpr fun hends => h (endsInOneS_of_es hends hes)
  have hlast : (endsInAny ["s"] (lowerChars cs) && !endsInAny ["ss"] (lowerChars cs)) = false :=
    Bool.eq_false_iff.mpr fun hends => h (endsInOneS_iff.mp hends)
  unfold singularChars
  dsimp only
  rw [hlast, hno ["ies"] (by decide), hno ["knives", "wives"] (by decide), hno ["lves"] (by decide),
    hno ["ses", "xes", "zes", "ches", "shes"] (by decide)]
  simp

/-- Of an ending in `es` after a sibilant the `es` goes. -/
theorem endingChanged_of_sibilant
    (h : endsInAny ["ses", "xes", "zes", "ches", "shes"] (lowerChars cs) = true) :
    EndingChanged cs (dropEnd 2 cs) := by
  obtain ⟨ending, hending, hsuffix⟩ := endsInAny_iff.mp h
  have hsibilant : ∀ ending ∈ ["ses", "xes", "zes", "ches", "shes"],
      ∃ x ∈ ['s', 'x', 'z', 'h'], [x, 'e', 's'] <:+ ending.toList := by
    intro ending hending
    fin_cases hending
    · exact ⟨'s', by simp, by decide⟩
    · exact ⟨'x', by simp, by decide⟩
    · exact ⟨'z', by simp, by decide⟩
    · exact ⟨'h', by simp, by decide⟩
    · exact ⟨'h', by simp, by decide⟩
  obtain ⟨x, hx, hword⟩ := hsibilant ending hending
  have hplain : PlainWord [x, 'e', 's'] ∧ Letters [x, 'e', 's'] := by
    fin_cases hx <;> simp [PlainWord, Letters]
  obtain ⟨v, e, rfl, he⟩ := exists_of_suffix hplain.1 (hword.trans hsuffix)
  obtain ⟨c, e, rfl, hc, he⟩ := List.map_eq_cons_iff.mp he
  have hletters : Letters (c :: e) := letters_of_foldAscii (by simpa [foldAscii, hc, he] using hplain.2)
  have hlength : e.length = 2 := by simpa using congrArg List.length he
  have hdrop : dropEnd 2 (v ++ c :: e) = v ++ [c] := by
    rw [← hlength, show v ++ c :: e = (v ++ [c]) ++ e by simp, dropEnd_append]
  rw [hdrop]
  refine .replaced v hletters (fun d hd => hletters d ?_) (by simp) ?_ (by simp) (by simp [hlength])
  · obtain rfl := List.mem_singleton.mp hd
    exact List.mem_cons_self
  · intro hsame
    have := congrArg List.length hsame
    simp [foldAscii, hlength] at this

/-- The singular of a word that ends in one `s` has another ending. -/
theorem singularChars_changes (h : EndsInOneS cs) : EndingChanged cs (singularChars cs) := by
  unfold singularChars
  dsimp only
  split
  · rename_i hempty
    obtain rfl := List.isEmpty_iff.mp hempty
    exact absurd h (by decide)
  split
  · rename_i hies
    have hsuffix : ['i', 'e', 's'] <:+ lowerChars cs :=
      suffix_of_endsInAny (Bool.and_eq_true_iff.mp hies).1 (by decide)
    exact endingChanged_of_rule (['i', 'e', 's'], ['y']) (by simp [singularEndings]) hsuffix
  split
  · rename_i hives
    have hsuffix : ['v', 'e', 's'] <:+ lowerChars cs := suffix_of_endsInAny hives (by decide)
    exact endingChanged_of_rule (['v', 'e', 's'], ['f', 'e']) (by simp [singularEndings]) hsuffix
  split
  · rename_i hlves
    have hsuffix : ['v', 'e', 's'] <:+ lowerChars cs :=
      suffix_of_endsInAny (Bool.and_eq_true_iff.mp hlves).1 (by decide)
    exact endingChanged_of_rule (['v', 'e', 's'], ['f']) (by simp [singularEndings]) hsuffix
  split
  · exact endingChanged_of_sibilant ‹_›
  split
  · have hs : PlainWord ['s'] := by simp [PlainWord]
    obtain ⟨v, e, rfl, he⟩ := exists_of_suffix hs ((suffix_lowerChars_iff hs).mpr h.1)
    obtain ⟨c, rfl, hc⟩ := List.map_eq_singleton_iff.mp he
    rw [show (1 : Nat) = [c].length from rfl, dropEnd_append]
    exact .dropped v hc
  · exact absurd (endsInOneS_iff.mpr h) ‹_›

end Endings

/-! ## Pascal case -/

/-- What becomes in pascal case of a word and of the word with another ending: the end differs, or
only low lines are left of the word. -/
inductive PascalChanged : List Char → List Char → Prop
  | ending (v : List Char) {x y : List Char} (hdiff : x ≠ y) (hshort : y.length ≤ x.length)
      (hlong : x.length ≤ y.length + 3) : PascalChanged (v ++ x) (v ++ y)
  | lowLines {d : Char} {v : List Char} (hd : d ≠ '_') (hv : ∀ c ∈ v, c = '_') :
      PascalChanged [d] v

theorem EndingChanged.pascal {cs cs' : List Char} (h : EndingChanged cs cs') :
    PascalChanged (toPascalChars cs) (toPascalChars cs') := by
  cases h with
  | replaced v he he' hne hdiff hshort hlong =>
    obtain ⟨x, hx, hfold⟩ := toPascalChars_append v he
      (List.ne_nil_of_length_pos (Nat.lt_of_lt_of_le (List.length_pos_iff.mpr hne) hshort))
    obtain ⟨y, hy, hfold'⟩ := toPascalChars_append v he' hne
    have hlength : ∀ {s t : List Char}, foldAscii s = foldAscii t → s.length = t.length :=
      fun {s t} hsame => by rw [← length_foldAscii, hsame, length_foldAscii]
    rw [hx, hy]
    refine .ending _ (fun hsame => hdiff ?_) ?_ ?_
    · rw [← hfold, ← hfold', hsame]
    · rw [hlength hfold, hlength hfold']
      exact hshort
    · rw [hlength hfold, hlength hfold']
      exact hlong
  | @dropped _ c hc =>
    have hletters : Letters [c] := letters_of_foldAscii (by simp [foldAscii, hc, Letters])
    obtain ⟨x, hx, hfold⟩ := toPascalChars_append cs' hletters (by simp)
    have hs : foldAscii x = ['s'] := by rw [hfold, foldAscii_cons, hc]; rfl
    obtain ⟨d, rfl, hd⟩ := List.map_eq_singleton_iff.mp hs
    rw [hx]
    by_cases hparts : nameParts cs' = []
    · -- nothing is left in front of the letter
      rw [stem, if_pos hparts, toPascalChars_of_nameParts hparts]
      refine .lowLines ?_ (eq_lowLine_of_nameParts hparts)
      rintro rfl
      exact absurd hd (by decide)
    · have h := PascalChanged.ending (stem cs') (x := [d]) (y := []) (by simp) (by simp) (by simp)
      rw [toPascalChars_eq_stem hparts]
      rwa [List.append_nil] at h

namespace PascalChanged

variable {many one : List Char}

theorem ne (h : PascalChanged many one) : many ≠ one := by
  cases h with
  | ending v hdiff => exact fun hsame => hdiff (List.append_cancel_left hsame)
  | lowLines hd hv =>
    rintro rfl
    exact hd (hv _ List.mem_cons_self)

theorem length_le (h : PascalChanged many one) : many.length ≤ one.length + 3 := by
  cases h with
  | ending v _ _ hlong =>
    rw [List.length_append, List.length_append]
    omega
  | lowLines => simp

/-- The changed name is no longer, or no text that ends in it ends in the name. -/
theorem length_ge (h : PascalChanged many one) :
    one.length ≤ many.length ∨ ∀ a b : List Char, a ++ one ≠ b ++ many := by
  cases h with
  | ending v _ hshort =>
    rw [List.length_append, List.length_append]
    exact Or.inl (by omega)
  | @lowLines d v hd hv =>
    rcases List.eq_nil_or_concat one with rfl | ⟨front, c, rfl⟩
    · exact Or.inl (by simp)
    · refine Or.inr fun a b hsame => hd ?_
      rw [List.concat_eq_append, ← List.append_assoc] at hsame
      obtain ⟨-, hlast⟩ := List.append_inj' hsame rfl
      rw [← List.singleton_inj.mp hlast]
      exact hv c (by simp)

end PascalChanged

/-- In pascal case a word is its singular exactly if it does not end in one `s`. -/
theorem toPascalChars_singular_eq_iff (cs : List Char) :
    toPascalChars (singularChars cs) = toPascalChars cs ↔ ¬ EndsInOneS cs := by
  constructor
  · exact fun hsame hends => (singularChars_changes hends).pascal.ne hsame.symm
  · exact fun hends => by rw [singularChars_keeps hends]

/-! ## Plurals -/

/-- Only from a word of one ending is nothing left when the ending is dropped. -/
theorem head?_dropEnd_append {c : Char} {cs word : List Char} (rest : List Char)
    (hword : PlainWord word) (h : word <:+ lowerChars (c :: cs)) (hc : c.toLower ∉ word.head?) :
    (dropEnd word.length (c :: cs) ++ rest).head? = some c := by
  obtain ⟨v, e, hcs, rfl⟩ := exists_of_suffix hword h
  rw [hcs, length_foldAscii, dropEnd_append]
  cases v with
  | nil =>
    rw [List.nil_append] at hcs
    rw [← hcs] at hc
    exact absurd rfl hc
  | cons d v =>
    rw [List.cons_append] at hcs
    rw [(List.cons.inj hcs).1]
    rfl

/-- The plural of a word starts as the word does, `f` and `y` at its start apart. -/
theorem head?_pluralChars {c : Char} (cs : List Char) (hf : c.toLower ≠ 'f') (hy : c.toLower ≠ 'y') :
    (pluralChars (c :: cs)).head? = some c := by
  unfold pluralChars
  dsimp only
  split
  · rfl
  split
  · rename_i h
    have hsuffix : ['f', 'e'] <:+ lowerChars (c :: cs) :=
      suffix_of_endsInAny (Bool.and_eq_true_iff.mp h).2 (by decide)
    exact head?_dropEnd_append _ (by simp [PlainWord]) hsuffix (by simpa using hf.symm)
  split
  · rename_i h
    have hsuffix : ['f'] <:+ lowerChars (c :: cs) :=
      suffix_of_endsInAny (Bool.and_eq_true_iff.mp h).2 (by decide)
    exact head?_dropEnd_append _ (by simp [PlainWord]) hsuffix (by simpa using hf.symm)
  split
  · rename_i h
    have hsuffix : ['y'] <:+ lowerChars (c :: cs) :=
      suffix_of_endsInAny (Bool.and_eq_true_iff.mp h).1 (by decide)
    exact head?_dropEnd_append _ (by simp [PlainWord]) hsuffix (by simpa using hy.symm)
  split <;> rfl

/-- The plural of a name in pascal case starts with the capital of the name, `f` and `y` apart. -/
theorem head?_plural_toPascalChars {c : Char} (hc : c.isAlpha = true) (hf : c.toLower ≠ 'f')
    (hy : c.toLower ≠ 'y') (w : List Char) :
    (pluralChars (toPascalChars (c :: w))).head? = some c.toUpper := by
  obtain ⟨us, hus⟩ := List.head?_eq_some_iff.mp (head?_toPascalChars hc w)
  have hlower : c.toUpper.toLower = c.toLower := (letterCase hc).toLower_toUpper
  rw [hus, head?_pluralChars us (by rwa [hlower]) (by rwa [hlower])]

end DocumentApi
