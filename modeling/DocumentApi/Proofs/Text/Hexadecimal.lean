import DocumentApi.Text.Hex
import Mathlib.Algebra.Ring.Nat
import Mathlib.Data.List.Basic

/-!
# Numbers in hexadecimal digits

* `readHex_hexDigits`: digits of a fixed width read back as the number, up to what the width holds.
* `isLowerHex_of_mem_hexDigits`: they are digits in lower case.
* `hexDigits_lt`: digits of one width are in the order of their numbers.
-/

namespace DocumentApi

/-- The hexadecimal digits in lower case. -/
def isLowerHex (c : Char) : Bool :=
  c.isDigit || (decide ('a' ≤ c) && decide (c ≤ 'f'))

/-! ## One digit -/

theorem hexDigit_mod (n : Nat) : hexDigit (n % 16) = hexDigit n := by
  unfold hexDigit
  rw [Nat.mod_mod]

theorem isLowerHex_hexDigit (n : Nat) : isLowerHex (hexDigit n) = true := by
  have hall : ∀ d < 16, isLowerHex (hexDigit d) = true := by decide
  rw [← hexDigit_mod]
  exact hall _ (Nat.mod_lt n (by decide))

theorem hexValue?_hexDigit (n : Nat) : hexValue? (hexDigit n) = some (n % 16) := by
  have hall : ∀ d < 16, hexValue? (hexDigit d) = some d := by decide
  rw [← hexDigit_mod]
  exact hall _ (Nat.mod_lt n (by decide))

theorem hexDigit_lt {m n : Nat} (h : m % 16 < n % 16) : hexDigit m < hexDigit n := by
  have hall : ∀ d < 16, ∀ e < d, hexDigit e < hexDigit d := by decide
  rw [← hexDigit_mod m, ← hexDigit_mod n]
  exact hall _ (Nat.mod_lt n (by decide)) _ h

/-! ## Digits of one width -/

@[simp] theorem length_hexDigits (width n : Nat) : (hexDigits width n).length = width := by
  induction width generalizing n with
  | zero => rfl
  | succ width ih => rw [hexDigits, List.length_append, ih, List.length_singleton]

theorem isLowerHex_of_mem_hexDigits {width n : Nat} {c : Char} (h : c ∈ hexDigits width n) :
    isLowerHex c = true := by
  induction width generalizing n with
  | zero => cases h
  | succ width ih =>
    rcases List.mem_append.mp h with h | h
    · exact ih h
    · rw [List.mem_singleton.mp h]
      exact isLowerHex_hexDigit n

theorem readHex_append (cs : List Char) (c : Char) :
    readHex (cs ++ [c]) = (readHex cs).bind fun n => (hexValue? c).map (16 * n + ·) := by
  unfold readHex
  rw [List.foldlM_append]
  refine congrArg (Option.bind _) (funext fun n => ?_)
  show ((hexValue? c).map (16 * n + ·)).bind some = _
  rw [Option.bind_fun_some]

/-- Digits read back as the number that they write, as far as it fits them. -/
theorem readHex_hexDigits (width n : Nat) :
    readHex (hexDigits width n) = some (n % 16 ^ width) := by
  induction width generalizing n with
  | zero => rw [Nat.pow_zero, Nat.mod_one]; rfl
  | succ width ih =>
    rw [hexDigits, readHex_append, ih, hexValue?_hexDigit, Nat.pow_succ', Nat.mod_mul]
    exact congrArg some (Nat.add_comm _ _)

/-- Numbers that fit their digits can be told apart by them. -/
theorem hexDigits_inj {width m n : Nat} (hm : m < 16 ^ width) (hn : n < 16 ^ width)
    (h : hexDigits width m = hexDigits width n) : m = n := by
  have hread := congrArg readHex h
  rw [readHex_hexDigits, readHex_hexDigits, Nat.mod_eq_of_lt hm, Nat.mod_eq_of_lt hn] at hread
  exact Option.some.inj hread

/-! ## Order -/

/-- Of two texts of one length the first that is smaller stays so, whatever comes after them. -/
theorem lt_append_of_lt {cs ds : List Char} (hlength : cs.length = ds.length) (h : cs < ds)
    (as bs : List Char) : cs ++ as < ds ++ bs := by
  induction cs generalizing ds with
  | nil =>
    obtain rfl := List.eq_nil_of_length_eq_zero hlength.symm
    exact absurd h (List.lt_irrefl _)
  | cons c cs ih =>
    cases ds with
    | nil => cases hlength
    | cons d ds =>
      rw [List.cons_append, List.cons_append, List.cons_lt_cons_iff]
      exact (List.cons_lt_cons_iff.mp h).imp id fun ⟨hcd, htail⟩ =>
        ⟨hcd, ih (Nat.succ.inj hlength) htail⟩

theorem hexDigits_lt {width m n : Nat} (hn : n < 16 ^ width) (h : m < n) :
    hexDigits width m < hexDigits width n := by
  induction width generalizing m n with
  | zero => omega
  | succ width ih =>
    rw [Nat.pow_succ] at hn
    unfold hexDigits
    rcases Nat.lt_or_eq_of_le (Nat.div_le_div_right (Nat.le_of_lt h)) with hlt | heq
    · exact lt_append_of_lt (by simp) (ih (by omega) hlt) _ _
    · -- the last digit alone decides
      rw [heq]
      exact List.append_left_lt (List.cons_lt_cons_iff.mpr (Or.inl (hexDigit_lt (by omega))))

end DocumentApi
