/-!
# Doubles by value

A `Double` is the exact value `± mantissa * 2 ^ exponent` of an IEEE double, so comparison,
rounding and printing are arithmetic on natural numbers.

* `Double.ofRatio`: the double nearest to a quotient, a tie going to the even mantissa.
* `Double.ofInt`, `Double.ofDecimal`: the double nearest to an integer and to a decimal.
* `Double.compare`: exact comparison; `compareInt` compares with an integer of any size.
* `Double.sub`, `Double.mul`, `Double.div`: the double nearest to the exact result.
* `quotientCeil`: the ceiling of the double nearest to a quotient of integers.

A mantissa is odd or zero, so equal doubles are equal terms, zeros of both signs apart.
Values past the largest double are held as `2 ^ 1024`, which stands for infinity.
-/

namespace DocumentApi

/-- The double `± mantissa * 2 ^ exponent`; the mantissa is odd, or zero with exponent zero. -/
structure Double where
  negative : Bool
  mantissa : Nat
  exponent : Int
deriving DecidableEq, Repr, Inhabited

/-- The power `2 ^ k`. -/
def twoPower (k : Nat) : Nat :=
  Nat.pow 2 k

/-- The integer nearest to `n / d`, a tie going to the even one. -/
def roundHalfEven (n d : Nat) : Nat :=
  let q := n / d
  let r := n % d
  if 2 * r < d then q
  else if d < 2 * r then q + 1
  else if q % 2 = 0 then q else q + 1

/-- Moves the factors of two of a positive mantissa into the exponent. -/
def stripTwos (m : Nat) (e : Int) : Nat × Int :=
  if m = 0 then (0, 0)
  else if m % 2 = 0 then stripTwos (m / 2) (e + 1)
  else (m, e)
termination_by m
decreasing_by omega

namespace Double

/-- The exponent that a double past the largest finite one is held with. -/
def overflowExponent : Int := 1024

/-- The least exponent of a double's unit in the last place. -/
def leastExponent : Int := -1074

/-- The canonical double of a mantissa and an exponent, infinity from `2 ^ 1024` on. -/
def ofParts (negative : Bool) (mantissa : Nat) (exponent : Int) : Double :=
  let (m, e) := stripTwos mantissa exponent
  if m ≠ 0 ∧ overflowExponent ≤ e + m.log2 then ⟨negative, 1, overflowExponent⟩
  else ⟨negative, m, e⟩

/-- The quotient `num / den` over `2 ^ e`, as a quotient of natural numbers. -/
def scaleRatio (num den : Nat) (e : Int) : Nat × Nat :=
  if 0 ≤ e then (num, den * twoPower e.toNat) else (num * twoPower (-e).toNat, den)

/-- The exponent of the last place of `num / den` in 53 bits, not below the least one. -/
def placeOf (num den : Nat) : Int :=
  let e : Int := (num.log2 : Int) - (den.log2 : Int) - 53
  let (n, d) := scaleRatio num den e
  max leastExponent (if twoPower 53 ≤ n / d then e + 1 else e)

/-- The double nearest to `± num / den`, a tie going to the even mantissa. -/
def ofRatio (negative : Bool) (num den : Nat) : Double :=
  if num = 0 then ⟨negative, 0, 0⟩
  else
    let e := placeOf num den
    let (n, d) := scaleRatio num den e
    ofParts negative (roundHalfEven n d) e

/-- The double nearest to an integer. -/
def ofInt (i : Int) : Double :=
  ofRatio (decide (i < 0)) i.natAbs 1

/-- The double nearest to `± digits * 10 ^ exponent`. Decimals far outside the range of doubles
are answered without building the power of ten. -/
def ofDecimal (negative : Bool) (digits : Nat) (exponent : Int) : Double :=
  if digits = 0 then ⟨negative, 0, 0⟩
  else if 400 < exponent then ⟨negative, 1, overflowExponent⟩
  else if exponent + digits.log2 < -400 then ⟨negative, 0, 0⟩
  else if 0 ≤ exponent then ofRatio negative (digits * Nat.pow 10 exponent.toNat) 1
  else ofRatio negative digits (Nat.pow 10 (-exponent).toNat)

/-- Whether a double stands for a value past the largest finite double. -/
def isInfinite (x : Double) : Bool :=
  x.mantissa != 0 && decide (overflowExponent ≤ x.exponent)

def isZero (x : Double) : Bool :=
  x.mantissa == 0

/-- The signed mantissa. -/
def significand (x : Double) : Int :=
  if x.negative then -(x.mantissa : Int) else (x.mantissa : Int)

/-- The order of `m * 2 ^ e` and `n * 2 ^ f`. -/
def compareScaled (m : Int) (e : Int) (n : Int) (f : Int) : Ordering :=
  let least := min e f
  Ord.compare (m * (twoPower (e - least).toNat : Int)) (n * (twoPower (f - least).toNat : Int))

/-- The exact order of two doubles; zeros of both signs are equal. -/
def compare (x y : Double) : Ordering :=
  compareScaled x.significand x.exponent y.significand y.exponent

/-- The exact order of a double and an integer. -/
def compareInt (x : Double) (i : Int) : Ordering :=
  compareScaled x.significand x.exponent i 0

/-- The integer part, rounded toward zero. -/
def truncate (x : Double) : Int :=
  let size : Nat := if 0 ≤ x.exponent then x.mantissa * twoPower x.exponent.toNat
    else x.mantissa / twoPower (-x.exponent).toNat
  if x.negative then -(size : Int) else (size : Int)

/-- The least integer that is not below the double. -/
def ceil (x : Double) : Int :=
  let t := x.truncate
  if x.compareInt t = .gt then t + 1 else t

/-- The double nearest to `m * 2 ^ e`. -/
def ofScaled (m : Int) (e : Int) : Double :=
  let (n, d) := if 0 ≤ e then (m.natAbs * twoPower e.toNat, 1) else (m.natAbs, twoPower (-e).toNat)
  ofRatio (decide (m < 0)) n d

/-- The double nearest to `x - y`. -/
def sub (x y : Double) : Double :=
  let least := min x.exponent y.exponent
  let m := x.significand * (twoPower (x.exponent - least).toNat : Int)
  let n := y.significand * (twoPower (y.exponent - least).toNat : Int)
  ofScaled (m - n) least

/-- The double nearest to `x * y`. -/
def mul (x y : Double) : Double :=
  ofScaled (x.significand * y.significand) (x.exponent + y.exponent)

/-- The double nearest to `x / y` for a `y` other than zero. -/
def div (x y : Double) : Double :=
  let shift := x.exponent - y.exponent
  let (n, d) := if 0 ≤ shift then (x.mantissa * twoPower shift.toNat, y.mantissa)
    else (x.mantissa, y.mantissa * twoPower (-shift).toNat)
  ofRatio (x.negative != y.negative) n d

end Double

/-- The double nearest to `a / b`. -/
def quotient (a b : Int) : Double :=
  Double.ofRatio (decide (a < 0) != decide (b < 0)) a.natAbs b.natAbs

/-- The ceiling of the double nearest to `a / b`, or none when that double is infinite. -/
def quotientCeil (a b : Int) : Option Int :=
  let q := quotient a b
  if q.isInfinite then none else some q.ceil

end DocumentApi
