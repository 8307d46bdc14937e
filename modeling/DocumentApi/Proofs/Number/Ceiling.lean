import DocumentApi.Proofs.Number.Exact
import Mathlib.Algebra.Order.Floor.Div
import Mathlib.Data.Nat.Cast.Order.Field
import Mathlib.Data.Rat.Floor
import Mathlib.Tactic.Linarith

/-!
# Ceilings of quotients

A ceiling of a quotient is taken of the double nearest to it.

* `Double.ceil_eq`: the ceiling of a double is that of its rational number.
* `Double.ofRatio_le_iff`: below `2 ^ 53` an integer bounds a rounded quotient if and only if it
  bounds the quotient. One rounding moves a quotient by less than `1 / d`, the least distance of a
  quotient over `d` from an integer.
* `quotientCeil_eq`: below `2 ^ 53` rounding changes no ceiling of a quotient.
-/

namespace DocumentApi

namespace Double

/-! ## The ceiling of a double -/

/-- A scaled mantissa lies between its integer part and the next integer. -/
theorem integerPart_near (m : Nat) (e : Int) :
    ((if 0 ≤ e then m * twoPower e.toNat else m / twoPower (-e).toNat : Nat) : ℚ) ≤ m * 2 ^ e ∧
      (m : ℚ) * 2 ^ e <
        ((if 0 ≤ e then m * twoPower e.toNat else m / twoPower (-e).toNat : Nat) : ℚ) + 1 := by
  by_cases he : 0 ≤ e
  · rw [if_pos he]
    obtain ⟨k, rfl⟩ := Int.eq_ofNat_of_zero_le he
    rw [Int.toNat_natCast, Nat.cast_mul, twoPower_cast, zpow_natCast]
    exact ⟨le_rfl, lt_add_one _⟩
  · rw [if_neg he]
    obtain ⟨k, hk⟩ := Int.eq_ofNat_of_zero_le (show 0 ≤ -e by omega)
    have hpos : (0 : ℚ) < 2 ^ k := by positivity
    have hscale : (m : ℚ) * 2 ^ e = m / 2 ^ k := by
      rw [show e = -(k : Int) by omega, zpow_neg, zpow_natCast, div_eq_mul_inv]
    rw [hk, Int.toNat_natCast, hscale, le_div_iff₀ hpos, div_lt_iff₀ hpos]
    have hlow : m / 2 ^ k * 2 ^ k ≤ m := Nat.div_mul_le_self m (2 ^ k)
    have hhigh : m < (m / 2 ^ k + 1) * 2 ^ k := by
      rw [mul_comm]
      exact Nat.lt_mul_div_succ m (Nat.two_pow_pos k)
    exact ⟨by exact_mod_cast hlow, by exact_mod_cast hhigh⟩

/-- The integer part of a double is less than one away from it. -/
theorem truncate_near (x : Double) :
    (x.truncate : ℚ) - 1 < x.toRat ∧ x.toRat < x.truncate + 1 := by
  obtain ⟨hlow, hhigh⟩ := integerPart_near x.mantissa x.exponent
  unfold truncate toRat significand
  dsimp only
  cases x.negative
  · rw [if_neg Bool.false_ne_true, if_neg Bool.false_ne_true, Int.cast_natCast, Int.cast_natCast]
    constructor <;> linarith
  · rw [if_pos rfl, if_pos rfl, Int.cast_neg, Int.cast_neg, Int.cast_natCast, Int.cast_natCast]
    constructor <;> linarith

theorem ceil_eq (x : Double) : x.ceil = ⌈x.toRat⌉ := by
  obtain ⟨hlow, hhigh⟩ := truncate_near x
  unfold ceil
  dsimp only
  rw [compareInt_eq]
  refine (Int.ceil_eq_iff.mpr ?_).symm
  by_cases habove : (x.truncate : ℚ) < x.toRat
  · rw [if_pos (compare_gt_iff_gt.mpr habove)]
    push_cast
    constructor <;> linarith
  · rw [if_neg (fun h => habove (compare_gt_iff_gt.mp h))]
    exact ⟨hlow, not_lt.mp habove⟩

/-! ## Rounding of a quotient -/

theorem roundHalfEven_le {n d m : Nat} (hd : 0 < d) (h : n ≤ m * d) : roundHalfEven n d ≤ m := by
  have hdiv : n / d * d + n % d = n := by rw [mul_comm]; exact Nat.div_add_mod n d
  have hq : n / d ≤ m := Nat.div_le_of_le_mul (by rwa [mul_comm])
  rcases Nat.eq_or_lt_of_le hq with heq | hlt
  · have hr : n % d = 0 := by rw [heq] at hdiv; omega
    unfold roundHalfEven
    simp [hr, hd, heq]
  · unfold roundHalfEven
    dsimp only
    split_ifs <;> omega

/-- An integer nearest to a quotient is at most one half below it. -/
theorem le_roundHalfEven {n d : Nat} (hd : 0 < d) :
    (n : ℚ) / d ≤ roundHalfEven n d + 1 / 2 := by
  have hdiv : d * (n / d) + n % d = n := Nat.div_add_mod n d
  have hr : n % d < d := Nat.mod_lt n hd
  have hhalf : 2 * n ≤ (2 * roundHalfEven n d + 1) * d := by
    unfold roundHalfEven
    dsimp only
    split_ifs <;> nlinarith
  have hpos : (0 : ℚ) < d := by exact_mod_cast hd
  rw [div_le_iff₀ hpos]
  have hcast : (2 : ℚ) * n ≤ (2 * roundHalfEven n d + 1) * d := by exact_mod_cast hhalf
  linarith

theorem scaleRatio_pos {n d : Nat} (e : Int) (hd : 0 < d) : 0 < (scaleRatio n d e).2 := by
  unfold scaleRatio
  split
  · exact Nat.mul_pos hd (Nat.two_pow_pos _)
  · exact hd

/-- A scaled quotient is the quotient over the power of two. -/
theorem scaleRatio_eq {n d : Nat} (e : Int) (hd : 0 < d) :
    ((scaleRatio n d e).1 : ℚ) / (scaleRatio n d e).2 = n / d / 2 ^ e := by
  have hne : (d : ℚ) ≠ 0 := by exact_mod_cast hd.ne'
  unfold scaleRatio
  split
  · rename_i he
    obtain ⟨k, rfl⟩ := Int.eq_ofNat_of_zero_le he
    rw [Int.toNat_natCast, Nat.cast_mul, twoPower_cast, zpow_natCast, div_div]
  · rename_i he
    obtain ⟨k, hk⟩ := Int.eq_ofNat_of_zero_le (show 0 ≤ -e by omega)
    rw [hk, Int.toNat_natCast, Nat.cast_mul, twoPower_cast, show e = -(k : Int) by omega,
      zpow_neg, zpow_natCast, div_inv_eq_mul]
    ring

/-- Below `2 ^ 53` the place of a quotient is a fraction, above the least one, and the quotient has
53 bits over it. -/
theorem placeOf_spec {n d : Nat} (hn : n ≠ 0) (hd : 0 < d) (hn' : n < 2 ^ 53) (hd' : d < 2 ^ 53) :
    placeOf n d ≤ 0 ∧ (2 : ℚ) ^ 52 * 2 ^ placeOf n d ≤ n / d := by
  have hln : n.log2 < 53 := (Nat.log2_lt hn).mpr hn'
  have hld : d.log2 < 53 := (Nat.log2_lt hd.ne').mpr hd'
  have hlow : ((2 : ℚ) ^ n.log2) ≤ n := by exact_mod_cast Nat.log2_self_le hn
  have hhigh : (d : ℚ) < 2 ^ (d.log2 + 1) := by exact_mod_cast Nat.lt_log2_self
  have hpos : (0 : ℚ) < d := by exact_mod_cast hd
  unfold placeOf leastExponent
  dsimp only
  split
  · rename_i hplace
    refine ⟨by omega, ?_⟩
    rw [max_eq_right (by omega)]
    have hquot : (2 : ℚ) ^ 53 ≤ n / d / 2 ^ ((n.log2 : Int) - (d.log2 : Int) - 53) := by
      rw [← scaleRatio_eq _ hd]
      refine le_trans ?_ Nat.cast_div_le
      rw [← twoPower_cast]
      exact_mod_cast hplace
    rw [le_div_iff₀ (zpow_pos two_pos _)] at hquot
    calc (2 : ℚ) ^ 52 * (2 : ℚ) ^ ((n.log2 : Int) - (d.log2 : Int) - 53 + 1)
        = (2 : ℚ) ^ 53 * 2 ^ ((n.log2 : Int) - (d.log2 : Int) - 53) := by
          rw [zpow_add_one₀ two_ne_zero]; ring
      _ ≤ (n : ℚ) / d := hquot
  · refine ⟨by omega, ?_⟩
    rw [max_eq_right (by omega), le_div_iff₀ hpos]
    calc (2 : ℚ) ^ 52 * 2 ^ ((n.log2 : Int) - (d.log2 : Int) - 53) * d
        ≤ 2 ^ 52 * 2 ^ ((n.log2 : Int) - (d.log2 : Int) - 53) * 2 ^ (d.log2 + 1) := by gcongr
      _ = 2 ^ n.log2 := by
          rw [← zpow_natCast, ← zpow_natCast, ← zpow_natCast, ← zpow_add₀ two_ne_zero,
            ← zpow_add₀ two_ne_zero]
          congr 1
          push_cast
          ring
      _ ≤ n := hlow

/-- An integer that bounds a quotient bounds the quotient rounded at a place that is a fraction. -/
theorem roundedQuotient_le {n d k : Nat} {e : Int} (hd : 0 < d) (he : e ≤ 0) (h : n ≤ k * d) :
    (roundHalfEven (scaleRatio n d e).1 (scaleRatio n d e).2 : ℚ) * 2 ^ e ≤ k := by
  obtain ⟨j, hj⟩ := Int.eq_ofNat_of_zero_le (show 0 ≤ -e by omega)
  have hpos : (0 : ℚ) < 2 ^ j := by positivity
  have hscaled : (scaleRatio n d e).1 ≤ k * 2 ^ j * (scaleRatio n d e).2 := by
    have hd0 : (0 : ℚ) < (scaleRatio n d e).2 := by exact_mod_cast scaleRatio_pos (n := n) e hd
    have hquot : ((scaleRatio n d e).1 : ℚ) / (scaleRatio n d e).2 ≤ k * 2 ^ j := by
      rw [scaleRatio_eq e hd, show e = -(j : Int) by omega, zpow_neg, zpow_natCast, div_inv_eq_mul]
      gcongr
      rw [div_le_iff₀ (by exact_mod_cast hd)]
      exact_mod_cast h
    rw [div_le_iff₀ hd0] at hquot
    exact_mod_cast hquot
  have hround := roundHalfEven_le (scaleRatio_pos (n := n) e hd) hscaled
  rw [show e = -(j : Int) by omega, zpow_neg, zpow_natCast, ← div_eq_mul_inv, div_le_iff₀ hpos]
  rw [show e = -(j : Int) by omega] at hround
  exact_mod_cast hround

/-- The double nearest to a quotient below `2 ^ 53`: the rounded quotient over its place. -/
theorem ofRatio_toRat {n d : Nat} (hn : n ≠ 0) (hd : 0 < d) (hn' : n < 2 ^ 53) (hd' : d < 2 ^ 53) :
    (ofRatio false n d).toRat =
        roundHalfEven (scaleRatio n d (placeOf n d)).1 (scaleRatio n d (placeOf n d)).2 *
          2 ^ placeOf n d ∧
      (ofRatio false n d).isInfinite = false := by
  have hbound := roundedQuotient_le (k := n) hd (placeOf_spec hn hd hn' hd').1
    (Nat.le_mul_of_pos_right n hd)
  have hsmall : (n : ℚ) < 2 ^ 1024 := by
    calc (n : ℚ) < 2 ^ 53 := by exact_mod_cast hn'
      _ < 2 ^ 1024 := pow_lt_pow_right₀ one_lt_two (by decide)
  unfold ofRatio
  rw [if_neg hn]
  dsimp only
  obtain ⟨hvalue, hfinite⟩ := @ofParts_exact false _ _ (lt_of_le_of_lt hbound hsmall)
  rw [hvalue, if_neg Bool.false_ne_true, one_mul]
  exact ⟨rfl, hfinite⟩

/-- An integer bounds a rounded quotient if and only if it bounds the quotient. -/
theorem ofRatio_le_iff {n d k : Nat} (hn : n ≠ 0) (hd : 0 < d) (hn' : n < 2 ^ 53)
    (hd' : d < 2 ^ 53) : (ofRatio false n d).toRat ≤ k ↔ n ≤ k * d := by
  obtain ⟨hplace, hbits⟩ := placeOf_spec hn hd hn' hd'
  rw [(ofRatio_toRat hn hd hn' hd').1]
  refine ⟨fun hle => ?_, roundedQuotient_le hd hplace⟩
  by_contra habove
  have hd0 : (0 : ℚ) < d := by exact_mod_cast hd
  have hunit : (0 : ℚ) < 2 ^ placeOf n d := zpow_pos two_pos _
  -- A quotient above `k` is at least `1 / d` above it.
  have hgap : (k : ℚ) + 1 / d ≤ n / d := by
    rw [le_div_iff₀ hd0, add_mul, one_div_mul_cancel hd0.ne']
    exact_mod_cast not_le.mp habove
  have hhalf : (n : ℚ) / d ≤
      roundHalfEven (scaleRatio n d (placeOf n d)).1 (scaleRatio n d (placeOf n d)).2 *
        2 ^ placeOf n d + 1 / 2 * 2 ^ placeOf n d := by
    have := le_roundHalfEven (n := (scaleRatio n d (placeOf n d)).1)
      (scaleRatio_pos (n := n) (placeOf n d) hd)
    rwa [scaleRatio_eq _ hd, div_le_iff₀ hunit, add_mul] at this
  have herror : 1 / 2 * (2 : ℚ) ^ placeOf n d < 1 / d := by
    have hsmall : (n : ℚ) < 2 ^ 53 := by exact_mod_cast hn'
    have : 1 / 2 * (2 : ℚ) ^ placeOf n d * 2 ^ 53 < 1 / d * 2 ^ 53 := by
      calc 1 / 2 * (2 : ℚ) ^ placeOf n d * 2 ^ 53 = 2 ^ 52 * 2 ^ placeOf n d := by ring
        _ ≤ (n : ℚ) / d := hbits
        _ < 2 ^ 53 / d := by gcongr
        _ = 1 / d * 2 ^ 53 := by ring
    exact lt_of_mul_lt_mul_right this (by positivity)
  linarith

end Double

/-! ## The ceiling of a quotient -/

/-- Below `2 ^ 53` the ceiling of a rounded quotient is that of the quotient. -/
theorem quotientCeil_eq {n d : Nat} (hd : 0 < d) (hn' : n < 2 ^ 53) (hd' : d < 2 ^ 53) :
    quotientCeil n d = some ((n ⌈/⌉ d : Nat) : Int) := by
  have hquotient : quotient n d = Double.ofRatio false n d := by
    simp [quotient, Int.not_lt.mpr (Int.natCast_nonneg _)]
  unfold quotientCeil
  rw [hquotient]
  dsimp only
  by_cases hn : n = 0
  · subst hn
    rw [zero_ceilDiv]
    rfl
  rw [(Double.ofRatio_toRat hn hd hn' hd').2, if_neg Bool.false_ne_true, Double.ceil_eq]
  refine congrArg some (Int.ceil_eq_iff.mpr ⟨?_, ?_⟩)
  · obtain ⟨p, hp⟩ : ∃ p, n ⌈/⌉ d = p + 1 := by
      refine Nat.exists_eq_succ_of_ne_zero fun hzero => ?_
      have := (ceilDiv_le_iff_le_mul hd).mp hzero.le
      omega
    have hnot : ¬ n ≤ p * d := by
      intro h
      have := (ceilDiv_le_iff_le_mul hd).mpr (by rwa [mul_comm] : n ≤ d * p)
      omega
    rw [hp]
    push_cast
    rw [add_sub_cancel_right]
    exact not_le.mp fun h => hnot ((Double.ofRatio_le_iff hn hd hn' hd').mp h)
  · rw [Int.cast_natCast]
    exact (Double.ofRatio_le_iff hn hd hn' hd').mpr
      (by rw [mul_comm]; exact (ceilDiv_le_iff_le_mul hd).mp le_rfl)

end DocumentApi
