import DocumentApi.Text.Case
import Mathlib.Data.List.Basic

/-!
# ASCII in the lower case of text

The full case mapping and the one of ASCII letters alone agree on what they make of ASCII. Of all
other characters only the Kelvin sign and the capital dotted `İ` have ASCII in their lower case.

* `lowersTo_lowerChar`: the lower case of one character, by what it is.
* `suffix_lowerChars_iff`: a text in lower case ends in a word of ASCII letters (`k` apart) if and
  only if it does with its ASCII letters alone in lower case.
* `lowerText_eq_iff`: the same for a word that is the whole text.
-/

namespace DocumentApi

/-! ## Single characters

The case of a character is read off its code point. -/

theorem isUpper_iff (c : Char) : c.isUpper = true ↔ 65 ≤ c.toNat ∧ c.toNat ≤ 90 :=
  decide_eq_true_iff

theorem isLower_iff (c : Char) : c.isLower = true ↔ 97 ≤ c.toNat ∧ c.toNat ≤ 122 :=
  Bool.and_eq_true_iff.trans (and_congr decide_eq_true_iff decide_eq_true_iff)

theorem toNat_toLower (c : Char) :
    c.toLower.toNat = if c.isUpper then c.toNat + 32 else c.toNat := by
  by_cases hupper : c.isUpper = true
  · have hle : c.val.toNat ≤ 90 := ((isUpper_iff c).mp hupper).2
    have hplace : c.toLower.val = c.val + 32 :=
      congrArg Char.val (dif_pos (of_decide_eq_true hupper))
    rw [if_pos hupper]
    show c.toLower.val.toNat = c.val.toNat + 32
    rw [hplace, UInt32.toNat_add]
    exact Nat.mod_eq_of_lt (show c.val.toNat + 32 < 2 ^ 32 by omega)
  · have hsame : c.toLower = c := dif_neg fun hrange => hupper (decide_eq_true hrange)
    rw [if_neg hupper, hsame]

theorem toLower_of_not_isUpper {c : Char} (h : ¬ c.isUpper = true) : c.toLower = c := by
  rw [← Char.toNat_inj, toNat_toLower, if_neg h]

theorem not_isUpper_toLower (c : Char) : ¬ c.toLower.isUpper = true := by
  intro hupper
  by_cases hc : c.isUpper = true
  · rw [isUpper_iff, toNat_toLower, if_pos hc] at hupper
    have := (isUpper_iff c).mp hc
    omega
  · rw [toLower_of_not_isUpper hc] at hupper
    exact hc hupper

theorem toNat_toLower_lt_iff (c : Char) : c.toLower.toNat < 128 ↔ c.toNat < 128 := by
  rw [toNat_toLower]
  split
  · have := (isUpper_iff c).mp ‹_›
    omega
  · rfl

/-- What a character becomes in lower case. -/
inductive LowersTo : Char → List Char → Prop
  | ascii {c : Char} (h : c.toNat < 128) : LowersTo c [c.toLower]
  | beyond {c : Char} {cs : List Char} (h : 128 ≤ c.toNat) (hne : cs ≠ [])
      (hcs : ∀ d ∈ cs, 128 ≤ d.toNat) : LowersTo c cs
  | kelvin {c : Char} (h : 128 ≤ c.toNat) : LowersTo c ['k']
  | dotted {c : Char} (h : 128 ≤ c.toNat) : LowersTo c ['i', '\u0307']

/-- No run of the table leads into ASCII but that of the ASCII capitals and that of the Kelvin sign,
and none leads out of the code points. -/
theorem lowerRuns_beyond : ∀ run ∈ lowerRuns, run.2.1 < 128 ∨ run = (0x212a, 0x212a, 1, -8383) ∨
    (128 ≤ run.1 + run.2.2.2 ∧ (run.2.1 + run.2.2.2 < 0xd800 ∨
      0xe000 ≤ run.1 + run.2.2.2 ∧ run.2.1 + run.2.2.2 < 0x110000)) := by
  decide +kernel

theorem ofNat_mapRuns {c : Char} (hc : 128 ≤ c.toNat) :
    Char.ofNat (mapRuns lowerRuns c.toNat) = 'k' ∨
      128 ≤ (Char.ofNat (mapRuns lowerRuns c.toNat)).toNat := by
  unfold mapRuns
  split
  · rename_i first last step shift hfound
    have hin : first ≤ c.toNat ∧ c.toNat ≤ last := by
      have := List.find?_some hfound
      simp at this
      exact this.1
    rcases lowerRuns_beyond _ (List.mem_of_find?_eq_some hfound) with h | h | ⟨hlow, hvalid⟩
    · dsimp only at h
      omega
    · obtain ⟨rfl, rfl, rfl, rfl⟩ : first = 0x212a ∧ last = 0x212a ∧ step = 1 ∧ shift = -8383 := by
        simpa using h
      have : c.toNat = 0x212a := by omega
      rw [this]
      exact Or.inl rfl
    · dsimp only at hlow hvalid
      have hchar : ((c.toNat : Int) + shift).toNat.isValidChar := by
        unfold Nat.isValidChar
        omega
      right
      unfold Char.ofNat
      rw [dif_pos hchar]
      show 128 ≤ ((c.toNat : Int) + shift).toNat
      omega
  · rw [Char.ofNat_toNat]
    exact Or.inr hc

theorem lowersTo_lowerChar (c : Char) : LowersTo c (lowerChar c) := by
  unfold lowerChar mapCase
  split
  · exact .ascii ‹_›
  have hc : 128 ≤ c.toNat := by omega
  split
  · rename_i ns hfound
    have hdotted : ∀ special ∈ lowerSpecials, special.2 = [105, 0x307] := by decide
    obtain ⟨l₁, l₂, hmem, -⟩ := List.lookup_eq_some_iff.mp hfound
    have hns := hdotted (c.toNat, ns) (by rw [hmem]; simp)
    obtain rfl : ns = [105, 0x307] := hns
    exact .dotted hc
  · rcases ofNat_mapRuns hc with hk | hbeyond
    · rw [hk]
      exact .kelvin hc
    · exact .beyond hc (by simp) (by simpa using hbeyond)

namespace LowersTo

variable {c d : Char} {cs : List Char}

theorem ne_nil (h : LowersTo c cs) : cs ≠ [] := by
  cases h with
  | beyond _ hne _ => exact hne
  | _ => simp

/-- Only an ASCII letter and the Kelvin sign end in an ASCII letter. -/
theorem of_getLast (h : LowersTo c cs) (hd : d ∈ cs.getLast?) (hascii : d.toNat < 128)
    (hk : d ≠ 'k') : cs = [c.toLower] := by
  cases h with
  | ascii => rfl
  | beyond _ _ hcs =>
    have := hcs d (List.mem_of_getLast? hd)
    omega
  | kelvin =>
    obtain rfl : 'k' = d := by simpa using hd
    exact absurd rfl hk
  | dotted =>
    obtain rfl : '\u0307' = d := by simpa using hd
    exact absurd hascii (by decide)

/-- An ASCII character of a lower case, `i` and `k` apart, comes from an ASCII letter. -/
theorem of_mem (h : LowersTo c cs) (hd : d ∈ cs) (hascii : d.toNat < 128) (hi : d ≠ 'i')
    (hk : d ≠ 'k') : cs = [c.toLower] ∧ d = c.toLower := by
  cases h with
  | ascii => simpa using hd
  | beyond _ _ hcs =>
    have := hcs d hd
    omega
  | kelvin => simp_all
  | dotted =>
    rcases List.mem_cons.mp hd with rfl | hd
    · exact absurd rfl hi
    · obtain rfl := List.mem_singleton.mp hd
      exact absurd hascii (by decide)

end LowersTo

/-! ## Texts -/

/-- The lower case of a text is that of its characters, one after another. -/
theorem lowerFrom_cons (before : List Char) (c : Char) (rest : List Char) :
    ∃ here, LowersTo c here ∧ lowerFrom before (c :: rest) = here ++ lowerFrom (c :: before) rest := by
  by_cases hc : c = 'Σ'
  · refine ⟨[if startsCased before && !startsCased rest then 'ς' else 'σ'], ?_, ?_⟩
    · have hsigma : 128 ≤ 'Σ'.toNat ∧ 128 ≤ 'ς'.toNat ∧ 128 ≤ 'σ'.toNat := by decide
      refine .beyond (hc ▸ hsigma.1) (by simp) ?_
      rw [List.forall_mem_singleton]
      split
      · exact hsigma.2.1
      · exact hsigma.2.2
    · rw [lowerFrom, if_pos hc]
  · exact ⟨lowerChar c, lowersTo_lowerChar c, by rw [lowerFrom, if_neg hc]⟩

theorem foldAscii_cons (c : Char) (cs : List Char) :
    foldAscii (c :: cs) = c.toLower :: foldAscii cs := rfl

theorem foldAscii_append (cs ds : List Char) :
    foldAscii (cs ++ ds) = foldAscii cs ++ foldAscii ds := List.map_append

/-- Words of ASCII characters other than `k`, which is also the lower case of the Kelvin sign. -/
def PlainWord (word : List Char) : Prop := ∀ d ∈ word, d.toNat < 128 ∧ d ≠ 'k'

theorem PlainWord.of_append_right {v w : List Char} (h : PlainWord (v ++ w)) : PlainWord w :=
  fun d hd => h d (List.mem_append_right v hd)

/-- A lower case without other characters than ASCII is that of the ASCII letters alone. -/
theorem lowerFrom_eq_of_plain {before cs : List Char} (h : PlainWord (lowerFrom before cs)) :
    lowerFrom before cs = foldAscii cs := by
  induction cs generalizing before with
  | nil => rfl
  | cons c cs ih =>
    obtain ⟨here, hhere, heq⟩ := lowerFrom_cons before c cs
    rw [heq] at h ⊢
    obtain ⟨d, hd⟩ := Option.isSome_iff_exists.mp (List.getLast?_isSome.mpr hhere.ne_nil)
    obtain ⟨hascii, hk⟩ := h d (List.mem_append_left _ (List.mem_of_getLast? hd))
    rw [hhere.of_getLast hd hascii hk, ih h.of_append_right]
    rfl

theorem lowerFrom_of_ascii {before cs : List Char} (h : ∀ c ∈ cs, c.toNat < 128) :
    lowerFrom before cs = foldAscii cs := by
  induction cs generalizing before with
  | nil => rfl
  | cons c cs ih =>
    obtain ⟨hc, hcs⟩ := List.forall_mem_cons.mp h
    obtain ⟨here, hhere, heq⟩ := lowerFrom_cons before c cs
    rw [heq, ih hcs, foldAscii_cons]
    cases hhere with
    | ascii => rfl
    | beyond hbeyond | kelvin hbeyond | dotted hbeyond => omega

/-- A word at the end of a lower case comes from as many characters at the end of the text. -/
theorem suffix_foldAscii {before cs word : List Char} (hword : PlainWord word)
    (h : word <:+ lowerFrom before cs) : word <:+ foldAscii cs := by
  induction cs generalizing before with
  | nil => exact h
  | cons c cs ih =>
    obtain ⟨here, hhere, heq⟩ := lowerFrom_cons before c cs
    rw [heq] at h
    obtain ⟨front, hfront⟩ := h
    rw [foldAscii_cons]
    rcases List.append_eq_append_iff.mp hfront with ⟨mid, rfl, hmid⟩ | ⟨mid, -, hmid⟩
    · -- the word takes in the end of what the first character became
      rw [hmid] at hword ⊢
      rw [lowerFrom_eq_of_plain hword.of_append_right]
      rcases List.eq_nil_or_concat mid with rfl | ⟨mid, d, rfl⟩
      · exact List.suffix_cons _ _
      · obtain ⟨hascii, hk⟩ := hword d (by simp)
        have hone := hhere.of_getLast (d := d) (by simp) hascii hk
        obtain ⟨hnil, rfl⟩ : front ++ mid = [] ∧ d = c.toLower := by
          have := congrArg List.reverse hone
          simp at this
          simp [this]
        rw [(List.append_eq_nil_iff.mp hnil).2]
        exact List.suffix_refl _
    · exact (ih ⟨mid, hmid.symm⟩).trans (List.suffix_cons _ _)

theorem lowerFrom_suffix (before v w : List Char) :
    ∃ before', lowerFrom before' w <:+ lowerFrom before (v ++ w) := by
  induction v generalizing before with
  | nil => exact ⟨before, List.suffix_refl _⟩
  | cons c v ih =>
    obtain ⟨before', h⟩ := ih (c :: before)
    obtain ⟨here, -, heq⟩ := lowerFrom_cons before c (v ++ w)
    refine ⟨before', ?_⟩
    rw [List.cons_append, heq]
    exact h.trans (List.suffix_append _ _)

/-- A text ends in a word in lower case if and only if it does once its ASCII letters alone are in
lower case. -/
theorem suffix_lowerChars_iff {cs word : List Char} (hword : PlainWord word) :
    word <:+ lowerChars cs ↔ word <:+ foldAscii cs := by
  refine ⟨suffix_foldAscii hword, fun h => ?_⟩
  obtain ⟨front, hfront⟩ := h
  obtain ⟨v, e, rfl, rfl, rfl⟩ := List.map_eq_append_iff.mp hfront.symm
  obtain ⟨before, hsuffix⟩ := lowerFrom_suffix [] v e
  refine List.IsSuffix.trans ?_ hsuffix
  rw [lowerFrom_of_ascii fun c hc =>
    (toNat_toLower_lt_iff c).mp (hword _ (List.mem_map_of_mem hc)).1]
  exact List.suffix_refl _

/-- A text is a word in lower case if and only if it is once its ASCII letters alone are in lower
case. -/
theorem lowerText_eq_iff {s word : String} (hword : PlainWord word.toList) :
    lowerText s = word ↔ foldAscii s.toList = word.toList := by
  unfold lowerText lowerChars
  constructor
  · rintro rfl
    rw [String.toList_ofList] at hword ⊢
    exact (lowerFrom_eq_of_plain hword).symm
  · intro h
    have hascii : ∀ c ∈ s.toList, c.toNat < 128 := fun c hc =>
      (toNat_toLower_lt_iff c).mp (hword _ (h ▸ List.mem_map_of_mem hc)).1
    rw [lowerFrom_of_ascii hascii, h, String.ofList_toList]

/-- A lower case that starts with an ASCII letter, `i` and `k` apart, is one of a text that does. -/
theorem exists_of_head?_lowerChars {cs : List Char} {d : Char} (h : (lowerChars cs).head? = some d)
    (hascii : d.toNat < 128) (hi : d ≠ 'i') (hk : d ≠ 'k') :
    ∃ c rest, cs = c :: rest ∧ c.toLower = d := by
  cases cs with
  | nil => cases h
  | cons c rest =>
    obtain ⟨here, hhere, heq⟩ := lowerFrom_cons [] c rest
    unfold lowerChars at h
    rw [heq, List.head?_append_of_ne_nil _ hhere.ne_nil] at h
    exact ⟨c, rest, rfl, (hhere.of_mem (List.mem_of_head? h) hascii hi hk).2.symm⟩

/-- No ASCII capital is in lower case. -/
theorem not_isUpper_of_mem_lowerFrom {before cs : List Char} {d : Char}
    (h : d ∈ lowerFrom before cs) : d.isUpper = false := by
  induction cs generalizing before with
  | nil => cases h
  | cons c cs ih =>
    obtain ⟨here, hhere, heq⟩ := lowerFrom_cons before c cs
    rw [heq, List.mem_append] at h
    rcases h with h | h
    · by_contra hupper
      have hrange := (isUpper_iff d).mp (by simpa using hupper)
      obtain ⟨-, rfl⟩ := hhere.of_mem h (by omega) (by rintro rfl; simp at hupper)
        (by rintro rfl; simp at hupper)
      exact not_isUpper_toLower c ((isUpper_iff _).mpr hrange)
    · exact ih h

end DocumentApi
