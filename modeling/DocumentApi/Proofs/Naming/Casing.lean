import DocumentApi.Naming.Case
import DocumentApi.Proofs.Text.Lowering

/-!
# Letters at the end of a name

Camel and pascal case take a name apart at its low lines. Letters at the end of a name come out at the
end, at most the case of the first of them changed.

* `LetterCase`: an ASCII letter is in one case and has the other one.
* `splitLowLines_append`: letters after a name belong to its last part.
* `toPascalChars_append`: pascal case of a name followed by letters, from that of the name alone.
* `length_toCamelChars_le`: pascal case is no shorter than camel case.
-/

namespace DocumentApi

/-! ## Letters and their cases -/

theorem isAlpha_iff (c : Char) : c.isAlpha = true ↔ c.isUpper = true ∨ c.isLower = true :=
  Bool.or_eq_true_iff

theorem isAlpha_of_isUpper {c : Char} (h : c.isUpper = true) : c.isAlpha = true :=
  (isAlpha_iff c).mpr (.inl h)

theorem isAlpha_of_isLower {c : Char} (h : c.isLower = true) : c.isAlpha = true :=
  (isAlpha_iff c).mpr (.inr h)

theorem toNat_toUpper (c : Char) :
    c.toUpper.toNat = if c.isLower then c.toNat - 32 else c.toNat := by
  by_cases hlower : c.isLower = true
  · have hle : 97 ≤ c.val.toNat ∧ c.val.toNat ≤ 122 := (isLower_iff c).mp hlower
    have hrange : 'a'.val ≤ c.val ∧ c.val ≤ 'z'.val :=
      (Bool.and_eq_true_iff.mp hlower).imp of_decide_eq_true of_decide_eq_true
    have hplace : c.toUpper.val = c.val + ('A'.val - 'a'.val) := by
      rw [show c.toUpper = _ from dif_pos hrange]
    rw [if_pos hlower]
    show c.toUpper.val.toNat = c.val.toNat - 32
    rw [hplace, UInt32.toNat_add]
    -- the distance between the cases is added as it wraps around
    show (c.val.toNat + 4294967264) % 2 ^ 32 = c.val.toNat - 32
    omega
  · have hsame : c.toUpper = c := dif_neg fun hrange =>
      hlower (Bool.and_eq_true_iff.mpr (hrange.imp decide_eq_true decide_eq_true))
    rw [if_neg hlower, hsame]

theorem not_isUpper_of_isLower {c : Char} (h : c.isLower = true) : ¬ c.isUpper = true := by
  have := (isLower_iff c).mp h
  rw [isUpper_iff]
  omega

theorem toLower_of_isLower {c : Char} (h : c.isLower = true) : c.toLower = c :=
  toLower_of_not_isUpper (not_isUpper_of_isLower h)

theorem toUpper_of_isUpper {c : Char} (h : c.isUpper = true) : c.toUpper = c := by
  have hlower : ¬ c.isLower = true := fun hlower => not_isUpper_of_isLower hlower h
  rw [← Char.toNat_inj, toNat_toUpper, if_neg hlower]

/-- A letter of ASCII is in one case and has the other one. -/
inductive LetterCase (c : Char) : Prop
  | capital (upper : c.isUpper = true) (lower : c.toLower.isLower = true)
      (back : c.toLower.toUpper = c)
  | small (lower : c.isLower = true) (upper : c.toUpper.isUpper = true)
      (back : c.toUpper.toLower = c)

theorem letterCase {c : Char} (h : c.isAlpha = true) : LetterCase c := by
  rcases (isAlpha_iff c).mp h with hupper | hlower
  · have hplace : c.toLower.toNat = c.toNat + 32 := by rw [toNat_toLower, if_pos hupper]
    have hother : c.toLower.isLower = true := by
      have := (isUpper_iff c).mp hupper
      rw [isLower_iff, hplace]
      omega
    refine .capital hupper hother ?_
    rw [← Char.toNat_inj, toNat_toUpper, if_pos hother, hplace, Nat.add_sub_cancel]
  · have hrange := (isLower_iff c).mp hlower
    have hplace : c.toUpper.toNat = c.toNat - 32 := by rw [toNat_toUpper, if_pos hlower]
    have hother : c.toUpper.isUpper = true := by
      rw [isUpper_iff, hplace]
      omega
    refine .small hlower hother ?_
    rw [← Char.toNat_inj, toNat_toLower, if_pos hother, hplace]
    omega

namespace LetterCase

variable {c : Char}

theorem isLower_toLower (h : LetterCase c) : c.toLower.isLower = true := by
  cases h with
  | capital _ lower => exact lower
  | small lower => rwa [toLower_of_isLower lower]

theorem isUpper_toUpper (h : LetterCase c) : c.toUpper.isUpper = true := by
  cases h with
  | capital upper => rwa [toUpper_of_isUpper upper]
  | small _ upper => exact upper

theorem isAlpha_toLower (h : LetterCase c) : c.toLower.isAlpha = true :=
  isAlpha_of_isLower h.isLower_toLower

theorem toUpper_toLower (h : LetterCase c) : c.toLower.toUpper = c.toUpper := by
  cases h with
  | capital upper _ back => rw [back, toUpper_of_isUpper upper]
  | small lower => rw [toLower_of_isLower lower]

theorem toLower_toUpper (h : LetterCase c) : c.toUpper.toLower = c.toLower := by
  cases h with
  | capital upper => rw [toUpper_of_isUpper upper]
  | small lower _ back => rw [back, toLower_of_isLower lower]

end LetterCase

theorem isAlpha_of_isAlpha_toLower {c : Char} (h : c.toLower.isAlpha = true) :
    c.isAlpha = true := by
  by_cases hupper : c.isUpper = true
  · exact isAlpha_of_isUpper hupper
  · rwa [toLower_of_not_isUpper hupper] at h

/-- Texts of ASCII letters. -/
def Letters (t : List Char) : Prop := ∀ c ∈ t, c.isAlpha = true

theorem toNat_lt_of_isAlpha {c : Char} (h : c.isAlpha = true) : c.toNat < 128 := by
  rw [isAlpha_iff, isUpper_iff, isLower_iff] at h
  omega

theorem Letters.not_mem_lowLine {t : List Char} (h : Letters t) : '_' ∉ t :=
  fun hmem => absurd (h '_' hmem) (by decide)

theorem capitalize_cons {c : Char} (h : c.toNat < 128) (t : List Char) :
    capitalize (c :: t) = c.toUpper :: t := by
  show upperChar c ++ t = _
  unfold upperChar
  rw [if_pos h]
  rfl

theorem decapitalize_cons {c : Char} (h : c.toNat < 128) (t : List Char) :
    decapitalize (c :: t) = c.toLower :: t := by
  have hlower : lowerChars [c] = [c.toLower] := lowerFrom_of_ascii (by simpa using h)
  show lowerChars [c] ++ t = _
  rw [hlower]
  rfl

namespace Letters

variable {t : List Char}

theorem foldAscii_capitalize (h : Letters t) : foldAscii (capitalize t) = foldAscii t := by
  cases t with
  | nil => rfl
  | cons c t =>
    have hc := h c List.mem_cons_self
    rw [capitalize_cons (toNat_lt_of_isAlpha hc), foldAscii_cons, foldAscii_cons,
      (letterCase hc).toLower_toUpper]

theorem decapitalize (h : Letters t) : Letters (decapitalize t) := by
  cases t with
  | nil => exact h
  | cons c t =>
    obtain ⟨hc, ht⟩ := List.forall_mem_cons.mp h
    rw [decapitalize_cons (toNat_lt_of_isAlpha hc)]
    exact List.forall_mem_cons.mpr ⟨(letterCase hc).isAlpha_toLower, ht⟩

theorem foldAscii_decapitalize (h : Letters t) :
    foldAscii (DocumentApi.decapitalize t) = foldAscii t := by
  cases t with
  | nil => rfl
  | cons c t =>
    have hc := h c List.mem_cons_self
    rw [decapitalize_cons (toNat_lt_of_isAlpha hc), foldAscii_cons, foldAscii_cons,
      toLower_of_isLower (letterCase hc).isLower_toLower]

end Letters

/-! ## Capitals -/

theorem upperChar_ne_nil (c : Char) : upperChar c ≠ [] := by
  have hspecials : ∀ special ∈ upperSpecials, special.2 ≠ [] := by decide
  unfold upperChar mapCase
  split
  · simp
  · split
    · rename_i ns hfound
      obtain ⟨l₁, l₂, hmem, -⟩ := List.lookup_eq_some_iff.mp hfound
      have hns : ns ≠ [] := hspecials (c.toNat, ns) (by rw [hmem]; simp)
      simpa using hns
    · simp

theorem capitalize_append {w : List Char} (hw : w ≠ []) (t : List Char) :
    capitalize (w ++ t) = capitalize w ++ t := by
  cases w with
  | nil => exact absurd rfl hw
  | cons c w => simp [capitalize]

theorem decapitalize_append {w : List Char} (hw : w ≠ []) (t : List Char) :
    decapitalize (w ++ t) = decapitalize w ++ t := by
  cases w with
  | nil => exact absurd rfl hw
  | cons c w => simp [decapitalize]

theorem decapitalize_ne_nil {w : List Char} (hw : w ≠ []) : decapitalize w ≠ [] := by
  cases w with
  | nil => exact absurd rfl hw
  | cons c w =>
    obtain ⟨here, hhere, heq⟩ := lowerFrom_cons [] c []
    show lowerFrom [] [c] ++ w ≠ []
    rw [heq]
    simp [hhere.ne_nil]

theorem length_le_capitalize (w : List Char) : w.length ≤ (capitalize w).length := by
  cases w with
  | nil => exact Nat.le_refl _
  | cons c w =>
    have := List.length_pos_iff.mpr (upperChar_ne_nil c)
    unfold capitalize
    rw [List.length_cons, List.length_append]
    omega

theorem length_toCamelChars_le (w : List Char) :
    (toCamelChars w).length ≤ (toPascalChars w).length :=
  length_le_capitalize _

/-! ## Parts of a name -/

theorem splitLowLines_of_not_mem {t : List Char} (ht : '_' ∉ t) : splitLowLines t = [t] := by
  induction t with
  | nil => rfl
  | cons c t ih =>
    rw [List.mem_cons, not_or] at ht
    unfold splitLowLines
    rw [if_neg (Ne.symm ht.1), ih ht.2]

/-- Characters after a name that hold no low line belong to its last part. -/
theorem splitLowLines_append (w : List Char) {t : List Char} (ht : '_' ∉ t) :
    ∃ front last, splitLowLines w = front ++ [last] ∧
      splitLowLines (w ++ t) = front ++ [last ++ t] := by
  induction w with
  | nil => exact ⟨[], [], rfl, splitLowLines_of_not_mem ht⟩
  | cons c w ih =>
    obtain ⟨front, last, hw, hwt⟩ := ih
    rw [List.cons_append]
    unfold splitLowLines
    by_cases hc : c = '_'
    · rw [if_pos hc, if_pos hc, hw, hwt]
      exact ⟨[] :: front, last, rfl, rfl⟩
    · rw [if_neg hc, if_neg hc, hw, hwt]
      cases front with
      | nil => exact ⟨[], c :: last, rfl, rfl⟩
      | cons part front => exact ⟨(c :: part) :: front, last, rfl, rfl⟩

/-- The pascal case of a name that starts with a letter starts with its capital. -/
theorem head?_toPascalChars {c : Char} (hc : c.isAlpha = true) (w : List Char) :
    (toPascalChars (c :: w)).head? = some c.toUpper := by
  obtain ⟨part, parts, hparts⟩ : ∃ part parts, nameParts (c :: w) = (c :: part) :: parts := by
    have hne : c ≠ '_' := by
      rintro rfl
      exact absurd hc (by decide)
    unfold nameParts splitLowLines
    rw [if_neg hne]
    split
    · exact ⟨_, _, rfl⟩
    · exact ⟨[], [], rfl⟩
  have hlower := (letterCase hc).isAlpha_toLower
  unfold toPascalChars toCamelChars
  rw [hparts]
  dsimp only
  rw [decapitalize_cons (toNat_lt_of_isAlpha hc), List.cons_append,
    capitalize_cons (toNat_lt_of_isAlpha hlower), (letterCase hc).toUpper_toLower]
  rfl

/-- The pascal case of a name in front of letters: nothing, if the name has no parts of its own. -/
def stem (w : List Char) : List Char :=
  if nameParts w = [] then [] else toPascalChars w

theorem toPascalChars_eq_stem {w : List Char} (h : nameParts w ≠ []) : toPascalChars w = stem w :=
  (if_neg h).symm

/-- A name without parts is made of low lines. -/
theorem eq_lowLine_of_nameParts {w : List Char} (h : nameParts w = []) : ∀ c ∈ w, c = '_' := by
  induction w with
  | nil => exact fun c hc => absurd hc List.not_mem_nil
  | cons c w ih =>
    unfold nameParts splitLowLines at h
    by_cases hc : c = '_'
    · rw [if_pos hc] at h
      exact List.forall_mem_cons.mpr ⟨hc, ih (by simpa [nameParts] using h)⟩
    · rw [if_neg hc] at h
      split at h <;> simp at h

theorem toPascalChars_of_nameParts {w : List Char} (h : nameParts w = []) : toPascalChars w = w := by
  unfold toPascalChars toCamelChars
  rw [h]
  cases w with
  | nil => rfl
  | cons c w =>
    obtain rfl := eq_lowLine_of_nameParts h c List.mem_cons_self
    exact capitalize_cons (by decide) w

/-- The pascal case of a name from its parts. -/
def joinParts : List (List Char) → List Char
  | [] => []
  | first :: rest => capitalize (decapitalize first ++ rest.flatMap capitalize)

theorem stem_eq (w : List Char) : stem w = joinParts (nameParts w) := by
  unfold stem toPascalChars toCamelChars
  cases nameParts w <;> rfl

theorem joinParts_append {parts : List (List Char)} (hne : parts ≠ [])
    (hparts : ∀ part ∈ parts, part ≠ []) (part : List Char) :
    joinParts (parts ++ [part]) = joinParts parts ++ capitalize part := by
  cases parts with
  | nil => exact absurd rfl hne
  | cons first rest =>
    have hfirst := decapitalize_ne_nil (hparts first List.mem_cons_self)
    show capitalize (decapitalize first ++ (rest ++ [part]).flatMap capitalize) = _
    rw [List.flatMap_append, ← List.append_assoc, capitalize_append (by simp [hfirst])]
    simp [joinParts]

/-- Letters after a name come out after what the name does, up to the case of the first of them. -/
theorem toPascalChars_append (w : List Char) {t : List Char} (ht : Letters t) (hne : t ≠ []) :
    ∃ t', toPascalChars (w ++ t) = stem w ++ t' ∧ foldAscii t' = foldAscii t := by
  obtain ⟨front, last, hw, hwt⟩ := splitLowLines_append w ht.not_mem_lowLine
  obtain ⟨parts, hparts⟩ : ∃ parts, parts = front.filter (!·.isEmpty) := ⟨_, rfl⟩
  have hnonempty : ∀ part ∈ parts, part ≠ [] := by
    rintro _ hpart rfl
    simp [hparts] at hpart
  have hname : nameParts w = parts ++ [last].filter (!·.isEmpty) := by
    unfold nameParts
    rw [hw, List.filter_append, hparts]
  have hname' : nameParts (w ++ t) = parts ++ [last ++ t] := by
    unfold nameParts
    rw [hwt, List.filter_append, hparts]
    simp [hne]
  rw [toPascalChars_eq_stem (by simp [hname']), stem_eq, stem_eq, hname, hname']
  by_cases hlast : last = []
  · -- the letters are a part of their own
    subst hlast
    by_cases hempty : parts = []
    · refine ⟨capitalize (decapitalize t), by simp [hempty, joinParts], ?_⟩
      rw [ht.decapitalize.foldAscii_capitalize, ht.foldAscii_decapitalize]
    · refine ⟨capitalize t, ?_, ht.foldAscii_capitalize⟩
      rw [joinParts_append hempty hnonempty]
      simp
  · refine ⟨t, ?_, rfl⟩
    have hkept : [last].filter (!·.isEmpty) = [last] := by simp [hlast]
    rw [hkept]
    by_cases hempty : parts = []
    · simp only [hempty, List.nil_append, joinParts, List.flatMap_nil, List.append_nil]
      rw [decapitalize_append hlast, capitalize_append (decapitalize_ne_nil hlast)]
    · rw [joinParts_append hempty hnonempty, joinParts_append hempty hnonempty,
        capitalize_append hlast, List.append_assoc]

end DocumentApi
