import DocumentApi.Value.Equality
import Mathlib.Algebra.Order.Field.Power
import Mathlib.Data.Rat.Cast.Order
import Mathlib.Tactic.Ring

/-!
# Numbers by value

* `Double.toRat`, `Number.toRat`: the rational number that a number is; comparison of numbers is
  that of rational numbers (`Number.compare_eq`).
* `Double.ofInt_exact`: up to `2 ^ 53` an integer is its own nearest double.
-/

namespace DocumentApi

theorem compare_intCast (i j : Int) : Ord.compare (i : ℚ) (j : ℚ) = Ord.compare i j := by
  rcases lt_trichotomy i j with h | rfl | h
  · rw [compare_lt_iff_lt.mpr h, compare_lt_iff_lt.mpr (Int.cast_lt.mpr h)]
  · rw [compare_eq_iff_eq.mpr rfl, compare_eq_iff_eq.mpr rfl]
  · rw [compare_gt_iff_gt.mpr h, compare_gt_iff_gt.mpr (Int.cast_lt.mpr h)]

namespace Double

/-- The rational number that a double is. -/
def toRat (x : Double) : ℚ := (x.significand : ℚ) * 2 ^ x.exponent

theorem twoPower_cast (k : Nat) : (twoPower k : ℚ) = 2 ^ k := by
  show ((2 ^ k : Nat) : ℚ) = 2 ^ k
  rw [Nat.cast_pow, Nat.cast_ofNat]

/-- A scaled significand over a smaller power of two. -/
theorem scaled_cast {m e least : Int} (h : least ≤ e) :
    ((m * (twoPower (e - least).toNat : Int) : Int) : ℚ) * 2 ^ least = m * 2 ^ e := by
  obtain ⟨k, hk⟩ := Int.eq_ofNat_of_zero_le (show 0 ≤ e - least by omega)
  have he : e = k + least := by omega
  rw [hk, Int.toNat_natCast, he, zpow_add₀ two_ne_zero, zpow_natCast]
  push_cast [twoPower_cast]
  ring

theorem compareScaled_eq (m e n f : Int) :
    compareScaled m e n f = Ord.compare ((m : ℚ) * 2 ^ e) ((n : ℚ) * 2 ^ f) := by
  have hpos : (0 : ℚ) < 2 ^ min e f := zpow_pos two_pos _
  rw [← scaled_cast (min_le_left e f), ← scaled_cast (m := n) (min_le_right e f),
    ← cmp_eq_compare, cmp_mul_pos_right hpos, cmp_eq_compare, compare_intCast]
  rfl

theorem compare_eq (x y : Double) : x.compare y = Ord.compare x.toRat y.toRat :=
  compareScaled_eq _ _ _ _

theorem compareInt_eq (x : Double) (i : Int) : x.compareInt i = Ord.compare x.toRat (i : ℚ) := by
  unfold compareInt
  rw [compareScaled_eq, zpow_zero, mul_one]
  rfl

/-! ## Integers up to `2 ^ 53` -/

theorem stripTwos_cast (m : Nat) (e : Int) :
    ((stripTwos m e).1 : ℚ) * 2 ^ (stripTwos m e).2 = m * 2 ^ e := by
  fun_induction stripTwos m e with
  | case1 => simp
  | case2 m e hm heven ih =>
    obtain ⟨k, rfl⟩ := Nat.dvd_of_mod_eq_zero heven
    rw [ih, Nat.mul_div_cancel_left k two_pos, zpow_add_one₀ two_ne_zero]
    push_cast
    ring
  | case3 => rfl

/-- Below the range of infinity, a double has the value of the parts that it is made of. -/
theorem ofParts_exact {negative : Bool} {m : Nat} {e : Int} (h : (m : ℚ) * 2 ^ e < 2 ^ 1024) :
    (ofParts negative m e).toRat = (if negative then -1 else 1) * (m * 2 ^ e) ∧
      (ofParts negative m e).isInfinite = false := by
  have hvalue := stripTwos_cast m e
  unfold ofParts
  rcases hparts : stripTwos m e with ⟨m', e'⟩
  rw [hparts] at hvalue
  dsimp only at hvalue ⊢
  rw [← hvalue] at h ⊢
  have hsmall : m' ≠ 0 → e' + (m'.log2 : Int) < 1024 := by
    intro hm
    have hlog : ((2 : ℚ) ^ m'.log2) ≤ m' := by exact_mod_cast Nat.log2_self_le hm
    refine (zpow_lt_zpow_iff_right₀ (one_lt_two (α := ℚ))).mp ?_
    calc (2 : ℚ) ^ (e' + (m'.log2 : Int)) = 2 ^ m'.log2 * 2 ^ e' := by
          rw [add_comm, zpow_add₀ two_ne_zero, zpow_natCast]
      _ ≤ m' * 2 ^ e' := by gcongr
      _ < 2 ^ (1024 : Int) := by exact_mod_cast h
  have finite : ¬ (m' ≠ 0 ∧ overflowExponent ≤ e' + (m'.log2 : Int)) := by
    rintro ⟨hm, hover⟩
    have := hsmall hm
    unfold overflowExponent at hover
    omega
  rw [if_neg finite]
  constructor
  · cases negative <;> simp [toRat, significand]
  · by_cases hm : m' = 0
    · simp [isInfinite, hm]
    · have below : ¬ (1024 : Int) ≤ e' := by have := hsmall hm; omega
      simp [isInfinite, overflowExponent, below]

theorem roundHalfEven_mul (k : Nat) {d : Nat} (hd : 0 < d) : roundHalfEven (k * d) d = k := by
  unfold roundHalfEven
  simp [Nat.mul_div_cancel k hd, hd]

/-- The last place of an integer of `l + 1` bits, at most 54 of them. -/
theorem placeOf_one {n : Nat} (hn : n ≠ 0) (hl : n.log2 ≤ 53) :
    placeOf n 1 = (n.log2 : Int) - 52 := by
  have hlow : 2 ^ n.log2 ≤ n := Nat.log2_self_le hn
  have one : Nat.log2 1 = 0 := by decide
  have hplace : twoPower 53 ≤ (scaleRatio n 1 ((n.log2 : Int) - 53)).1 /
      (scaleRatio n 1 ((n.log2 : Int) - 53)).2 := by
    unfold scaleRatio
    split
    · have hl' : n.log2 = 53 := by omega
      rw [hl'] at hlow ⊢
      simpa [twoPower] using hlow
    · have hk : (-((n.log2 : Int) - 53)).toNat = 53 - n.log2 := by omega
      rw [hk, Nat.div_one]
      calc twoPower 53 = 2 ^ n.log2 * 2 ^ (53 - n.log2) := by
            rw [← pow_add, Nat.add_sub_cancel' hl]; rfl
        _ ≤ n * twoPower (53 - n.log2) := Nat.mul_le_mul_right _ hlow
  unfold placeOf leastExponent
  rw [one]
  simp only [Nat.cast_zero, sub_zero]
  rw [if_pos hplace]
  omega

/-- The quotient that is rounded for an integer up to `2 ^ 53` is an integer itself. -/
theorem scaleRatio_placeOf {n : Nat} (hn : n ≠ 0) (h : n ≤ 2 ^ 53) :
    ∃ k d : Nat, 0 < d ∧ scaleRatio n 1 (placeOf n 1) = (k * d, d) ∧
      (k : ℚ) * 2 ^ placeOf n 1 = n := by
  have hlow : 2 ^ n.log2 ≤ n := Nat.log2_self_le hn
  have hl : n.log2 ≤ 53 := (Nat.pow_le_pow_iff_right one_lt_two).mp (hlow.trans h)
  rw [placeOf_one hn hl]
  rcases Nat.eq_or_lt_of_le hl with hmax | hless
  · have hn' : n = 2 ^ 53 := le_antisymm h (by rw [hmax] at hlow; exact hlow)
    subst hn'
    exact ⟨2 ^ 52, 2, two_pos, by rw [hmax]; norm_num [scaleRatio, twoPower],
      by rw [hmax]; norm_num⟩
  · refine ⟨n * 2 ^ (52 - n.log2), 1, one_pos, ?_, ?_⟩
    · unfold scaleRatio
      split
      · have : n.log2 = 52 := by omega
        rw [this]
        norm_num [twoPower]
      · have : (-((n.log2 : Int) - 52)).toNat = 52 - n.log2 := by omega
        rw [this, mul_one]
        rfl
    · have : ((n.log2 : Int) - 52) = -((52 - n.log2 : Nat) : Int) := by omega
      rw [this, zpow_neg, zpow_natCast]
      push_cast
      rw [mul_assoc, mul_inv_cancel₀ (pow_ne_zero _ two_ne_zero), mul_one]

/-- Up to `2 ^ 53` an integer is its own nearest double. -/
theorem ofInt_exact {i : Int} (h : i.natAbs ≤ 2 ^ 53) :
    (ofInt i).toRat = i ∧ (ofInt i).isInfinite = false := by
  unfold ofInt ofRatio
  by_cases hzero : i.natAbs = 0
  · have hi : i = 0 := Int.natAbs_eq_zero.mp hzero
    subst hi
    simp [toRat, significand, isInfinite]
  rw [if_neg hzero]
  obtain ⟨k, d, hd, hscale, hvalue⟩ := scaleRatio_placeOf hzero h
  dsimp only
  rw [hscale]
  dsimp only
  rw [roundHalfEven_mul k hd]
  have hbound : (k : ℚ) * 2 ^ placeOf i.natAbs 1 < 2 ^ 1024 := by
    rw [hvalue]
    calc (i.natAbs : ℚ) ≤ 2 ^ 53 := by exact_mod_cast h
      _ < 2 ^ 1024 := pow_lt_pow_right₀ one_lt_two (by decide)
  refine ⟨?_, (ofParts_exact hbound).2⟩
  rw [(ofParts_exact hbound).1, hvalue]
  rcases lt_or_ge i 0 with hneg | hpos
  · have : ((i.natAbs : Int) : ℚ) = -i := by rw [Int.ofNat_natAbs_of_nonpos hneg.le]; push_cast; rfl
    rw [Int.cast_natCast] at this
    simp [hneg, this]
  · have : ((i.natAbs : Int) : ℚ) = i := by rw [Int.natAbs_of_nonneg hpos]
    rw [Int.cast_natCast] at this
    simp [not_lt.mpr hpos, this]

end Double

namespace Number

/-- The rational number that a number is. -/
def toRat : Number → ℚ
  | int i => i
  | float x => x.toRat

theorem compare_eq (x y : Number) : x.compare y = Ord.compare x.toRat y.toRat := by
  cases x with
  | int i =>
    cases y with
    | int j => exact (compare_intCast i j).symm
    | float y =>
      show (y.compareInt i).swap = Ord.compare (i : ℚ) y.toRat
      rw [Double.compareInt_eq, ← cmp_eq_compare, ← cmp_eq_compare, cmp_swap]
  | float x =>
    cases y with
    | int j => exact Double.compareInt_eq x j
    | float y => exact Double.compare_eq x y

end Number

theorem Value.same_of_number {v w : Value} {x y : Number} (hv : v.number? = some x)
    (hw : w.number? = some y) : v.same w = (Ord.compare x.toRat y.toRat == .eq) := by
  have hsame : v.same w = v.sameNumber w := by
    cases v <;> first | rfl | cases hv
  rw [hsame, sameNumber, hv, hw, ← Number.compare_eq]

end DocumentApi
