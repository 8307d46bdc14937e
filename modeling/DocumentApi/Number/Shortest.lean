import DocumentApi.Number.Double

/-!
# Decimal digits of a double

* `Decimal`: digits with the place of the point, the value `0.d₁d₂… * 10 ^ point`.
* `Double.shortest`: the fewest digits that read back as the same double, and of those the
  nearest to it.
* `Double.significant`: a fixed count of significant digits, correctly rounded.
* `DecimalLayout`: where positional writing ends and how an exponent is written; `Decimal.write`
  lays digits out by such a record.
-/

namespace DocumentApi

/-- Digits, first digit not zero, for the value `0.d₁d₂… * 10 ^ point`. -/
structure Decimal where
  digits : List Char
  point : Int
deriving DecidableEq, Repr

/-- The decimal digits of a natural number. -/
def decimalDigits (n : Nat) : List Char :=
  Nat.toDigits 10 n

/-- Digits without the zeros at their end. -/
def trimZeros (cs : List Char) : List Char :=
  (cs.reverse.dropWhile (· == '0')).reverse

/-- `10 ^ k` as a quotient. -/
def tenPower (k : Int) : Nat × Nat :=
  if 0 ≤ k then (Nat.pow 10 k.toNat, 1) else (1, Nat.pow 10 (-k).toNat)

/-- Whether `10 ^ k ≤ n / d`. -/
def tenPowerLe (k : Int) (n d : Nat) : Bool :=
  let (a, b) := tenPower k
  a * d ≤ n * b

/-- The count of digits before the point of `n / d`: the `k` with `10 ^ (k - 1) ≤ n / d < 10 ^ k`. -/
def pointOf (n d : Nat) : Int :=
  let guess : Int := ((n.log2 : Int) - (d.log2 : Int)) * 30103 / 100000
  if tenPowerLe (guess + 1) n d then guess + 2
  else if tenPowerLe guess n d then guess + 1
  else guess

/-- An interval of quotients over one denominator, its ends included or not. -/
structure Interval where
  low : Nat
  high : Nat
  closed : Bool

def Interval.contains (i : Interval) (x : Nat) : Bool :=
  if i.closed then i.low ≤ x && x ≤ i.high else i.low < x && x < i.high

namespace Double

/-- The mantissa in full width and its exponent: 53 bits, or fewer at the least exponent. -/
def widen (x : Double) : Nat × Int :=
  let shift : Int := min (52 - (x.mantissa.log2 : Int)) (x.exponent - leastExponent)
  (x.mantissa * twoPower shift.toNat, x.exponent - shift.toNat)

/-- The numerators of the value and of the interval that rounds to it, over one denominator. -/
def neighbourhood (x : Double) : Nat × Interval × Nat :=
  let (f, q) := x.widen
  let up := twoPower q.toNat
  let below := if f = twoPower 52 && decide (leastExponent < q) then 1 else 2
  (4 * f * up, ⟨(4 * f - below) * up, (4 * f + 2) * up, f % 2 == 0⟩, 4 * twoPower (-q).toNat)

/-- Of the two multiples of `10 ^ k` beside `v / d`, the nearest one that lies in the interval. -/
def gridPoint (v : Nat) (i : Interval) (d : Nat) (k : Int) : Option Nat :=
  let (a, b) := tenPower k
  let unit := a * d
  let target := v * b
  let low := target / unit
  let inside (c : Nat) : Bool := (Interval.mk (i.low * b) (i.high * b) i.closed).contains (c * unit)
  let rest := target % unit
  match inside low, inside (low + 1) with
  | true, true =>
    if 2 * rest < unit then some low
    else if unit < 2 * rest then some (low + 1)
    else if low % 2 = 0 then some low else some (low + 1)
  | true, false => some low
  | false, true => some (low + 1)
  | false, false => none

/-- The first grid of at most `count` more digits with a point in the interval. -/
def shortestFrom (v : Nat) (i : Interval) (d : Nat) (point : Int) : (digits count : Nat) → Decimal
  | digits, 0 => ⟨decimalDigits (roundHalfEven v d), digits⟩
  | digits, count + 1 =>
    match gridPoint v i d (point - digits) with
    | some c =>
      let cs := decimalDigits c
      ⟨trimZeros cs, point - digits + cs.length⟩
    | none => shortestFrom v i d point (digits + 1) count

/-- The fewest digits that read back as the double, for a finite double other than zero. -/
def shortest (x : Double) : Decimal :=
  let (v, i, d) := x.neighbourhood
  shortestFrom v i d (pointOf v d) 1 17

/-- The double rounded to `count` significant digits, zeros at the end dropped. -/
def significant (count : Nat) (x : Double) : Decimal :=
  let (v, _, d) := x.neighbourhood
  let k := pointOf v d - count
  let (a, b) := tenPower k
  let cs := decimalDigits (roundHalfEven (v * b) (a * d))
  ⟨trimZeros cs, k + cs.length⟩

end Double

/-- The decisions of a way to write decimals. `leastPoint ≤ point ≤ greatestPoint` is written
positionally; all else with an exponent, whose mantissa of one digit gets `.0` or nothing. -/
structure DecimalLayout where
  leastPoint : Int
  greatestPoint : Int
  pointInMantissa : Bool

/-- At least two digits with a sign. -/
def exponentText (e : Int) : List Char :=
  let cs := decimalDigits e.natAbs
  (if e < 0 then '-' else '+') :: (if cs.length < 2 then '0' :: cs else cs)

/-- Writes digits positionally, always with a point, or with an exponent. -/
def Decimal.write (layout : DecimalLayout) (x : Decimal) : List Char :=
  if layout.leastPoint ≤ x.point ∧ x.point ≤ layout.greatestPoint then
    if x.point ≤ 0 then
      '0' :: '.' :: (List.replicate (-x.point).toNat '0' ++ x.digits)
    else
      let whole := x.digits.take x.point.toNat
      let rest := x.digits.drop x.point.toNat
      whole ++ List.replicate (x.point.toNat - x.digits.length) '0' ++
        '.' :: (if rest.isEmpty then ['0'] else rest)
  else
    let mantissa := match x.digits with
      | [] => []
      | [c] => if layout.pointInMantissa then [c, '.', '0'] else [c]
      | c :: cs => c :: '.' :: cs
    mantissa ++ 'e' :: exponentText (x.point - 1)

/-- Values are written positionally from `0.0001` to below `10 ^ 16`. -/
def valueLayout : DecimalLayout := ⟨-3, 16, false⟩

/-- Stored numbers read as text are written positionally from `0.0001` to below `10 ^ 15`. -/
def columnLayout : DecimalLayout := ⟨-3, 15, true⟩

namespace Double

/-- The text of a double in a layout, with the digits that `digitsOf` picks. -/
def write (layout : DecimalLayout) (digitsOf : Double → Decimal) (infinite : String) (x : Double) :
    String :=
  let body := if x.isZero then ['0', '.', '0']
    else if x.isInfinite then infinite.toList
    else (digitsOf x).write layout
  String.ofList (if x.negative then '-' :: body else body)

/-- The text of a double as a value: the fewest digits that read back. -/
def text (x : Double) : String :=
  x.write valueLayout shortest "inf"

/-- The text of a stored double as a text column: fifteen significant digits. -/
def columnText (x : Double) : String :=
  x.write columnLayout (significant 15) "Inf"

end Double

end DocumentApi
