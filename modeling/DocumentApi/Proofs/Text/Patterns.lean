import DocumentApi.Proofs.Text.Lowering
import DocumentApi.Text.Like

/-!
# Patterns of contained texts

No character of a text has a meaning of its own in the pattern that is made of it.

* `likePattern_eq_replaced`: the pattern as it is made by three replacements, the one of backslashes
  first.
* `readLike_escaped`: what is read from an escaped text are its characters, each for itself.
* `likeIgnoringCase_likePattern`: the pattern of a text matches the texts that contain it, once both
  have their ASCII letters in lower case.
-/

namespace DocumentApi

/-! ## Escaped text -/

/-- A text with every occurrence of a character replaced. -/
def replaceChar (c : Char) (replacement cs : List Char) : List Char :=
  cs.flatMap fun d => if d = c then replacement else [d]

/-- Backslashes are escaped before the characters that are escaped by one. -/
theorem likePattern_eq_replaced (cs : List Char) :
    likePattern cs = '%' :: replaceChar '_' ['\\', '_']
      (replaceChar '%' ['\\', '%'] (replaceChar '\\' ['\\', '\\'] cs)) ++ ['%'] := by
  have hescape : ∀ c, escapeLike c = replaceChar '_' ['\\', '_']
      (replaceChar '%' ['\\', '%'] (if c = '\\' then ['\\', '\\'] else [c])) := by
    intro c
    unfold escapeLike
    by_cases hback : c = '\\'
    · subst hback
      rfl
    · by_cases hmany : c = '%'
      · subst hmany
        rfl
      · by_cases hone : c = '_'
        · subst hone
          rfl
        · simp [replaceChar, hback, hmany, hone]
  unfold likePattern
  rw [funext hescape]
  simp [replaceChar, List.flatMap_assoc]

theorem toLower_eq_iff {c d : Char} (hd : d.isAlpha = false) : c.toLower = d ↔ c = d := by
  by_cases hupper : c.isUpper = true
  · obtain ⟨hdupper, hdlower⟩ := Bool.or_eq_false_iff.mp hd
    rw [Bool.eq_false_iff, Ne, isUpper_iff] at hdupper
    rw [Bool.eq_false_iff, Ne, isLower_iff] at hdlower
    have hrange := (isUpper_iff c).mp hupper
    rw [← Char.toNat_inj, ← Char.toNat_inj, toNat_toLower, if_pos hupper]
    omega
  · rw [toLower_of_not_isUpper hupper]

theorem escapeLike_toLower (c : Char) : escapeLike c.toLower = foldAscii (escapeLike c) := by
  have hback : c.toLower = '\\' ↔ c = '\\' := toLower_eq_iff (by decide)
  have hmany : c.toLower = '%' ↔ c = '%' := toLower_eq_iff (by decide)
  have hone : c.toLower = '_' ↔ c = '_' := toLower_eq_iff (by decide)
  unfold escapeLike foldAscii
  simp only [hback, hmany, hone]
  split <;> rfl

theorem foldAscii_likePattern (cs : List Char) :
    foldAscii (likePattern cs) = likePattern (foldAscii cs) := by
  have hescaped : foldAscii (cs.flatMap escapeLike) = (foldAscii cs).flatMap escapeLike := by
    unfold foldAscii
    rw [List.map_flatMap, List.flatMap_map]
    exact congrArg cs.flatMap (funext fun c => (escapeLike_toLower c).symm)
  unfold likePattern
  rw [← hescaped]
  simp [foldAscii]

/-! ## Reading and matching -/

theorem readLike_escapeLike (c : Char) (rest : List Char) :
    readLike (escapeLike c ++ rest) = .literal c :: readLike rest := by
  unfold escapeLike
  split
  · rfl
  · rename_i h
    simp only [Bool.or_eq_true, decide_eq_true_eq, not_or] at h
    obtain ⟨⟨hback, hmany⟩, hone⟩ := h
    show readLike (c :: rest) = _
    simp [readLike, hback]

theorem readLike_escaped (cs rest : List Char) :
    readLike (cs.flatMap escapeLike ++ rest) = cs.map .literal ++ readLike rest := by
  induction cs with
  | nil => rfl
  | cons c cs ih =>
    rw [List.flatMap_cons, List.append_assoc, readLike_escapeLike, ih]
    rfl

theorem likeMatches_many (cs : List Char) : likeMatches [.many] cs = true := by
  show anyEnd (likeMatches []) cs = true
  induction cs with
  | nil => rfl
  | cons c cs ih => simp [anyEnd, ih]

/-- Characters before a percent sign match what starts with them. -/
theorem likeMatches_literals (needle cs : List Char) :
    likeMatches (needle.map .literal ++ [.many]) cs = needle.isPrefixOf cs := by
  induction needle generalizing cs with
  | nil => simpa using likeMatches_many cs
  | cons c needle ih =>
    cases cs with
    | nil => rfl
    | cons d cs =>
      show (c == d && likeMatches (needle.map .literal ++ [.many]) cs) = _
      rw [ih]
      rfl

/-- The pattern of a text matches what contains the text, letters of both in lower case. -/
theorem likeIgnoringCase_likePattern (needle cs : List Char) :
    likeIgnoringCase (likePattern needle) cs = hasInfix (foldAscii needle) (foldAscii cs) := by
  unfold likeIgnoringCase
  rw [foldAscii_likePattern]
  show anyEnd (likeMatches (readLike ((foldAscii needle).flatMap escapeLike ++ ['%']))) _ = _
  rw [readLike_escaped]
  exact congrArg (anyEnd · _) (funext (likeMatches_literals (foldAscii needle)))

theorem hasInfix_iff (needle cs : List Char) : hasInfix needle cs = true ↔ needle <:+: cs := by
  unfold hasInfix
  induction cs with
  | nil => simp [anyEnd, List.infix_nil]
  | cons c cs ih =>
    rw [anyEnd, Bool.or_eq_true, ih, List.isPrefixOf_iff_prefix, List.infix_cons_iff]

end DocumentApi
