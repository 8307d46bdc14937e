import DocumentApi.Number.Double

/-!
# Numbers read from text

* `Double.ofLongestNumber`: the value of the longest numeral that a text starts with, blanks before
  it skipped and zero when there is none. A stored text counts as this number in a numeric column.
* `Double.ofText?`, `integerOfText?`: the value of a text that is a numeral as a whole, blanks
  around it and single low lines between its digits allowed.
-/

namespace DocumentApi

/-- The number that decimal digits write. -/
def digitsValue (cs : List Char) : Nat :=
  cs.foldl (fun n c => 10 * n + (c.toNat - 48)) 0

/-- Digits at the start of a text and the rest. -/
def spanDigits (cs : List Char) : List Char × List Char :=
  (cs.takeWhile Char.isDigit, cs.dropWhile Char.isDigit)

/-- A sign at the start of a text, true when it is a minus, and the rest. -/
def spanSign : List Char → Bool × List Char
  | '-' :: cs => (true, cs)
  | '+' :: cs => (false, cs)
  | cs => (false, cs)

/-- The value of an exponent at the start of a text, zero when its digits are missing, and the
rest. -/
def spanExponent : List Char → Int × List Char
  | c :: cs =>
    if c = 'e' || c = 'E' then
      let (negative, rest) := spanSign cs
      match spanDigits rest with
      | ([], _) => (0, c :: cs)
      | (ds, rest) => (if negative then -(digitsValue ds : Int) else digitsValue ds, rest)
    else (0, c :: cs)
  | [] => (0, [])

/-- A numeral without sign at the start of a text: its digits, the decimal exponent of the last one
and the rest; none when there is no digit. -/
def spanNumeral (cs : List Char) : Option (List Char × Int × List Char) :=
  let (whole, rest) := spanDigits cs
  let (fraction, rest) := match rest with
    | '.' :: more => spanDigits more
    | _ => ([], rest)
  if whole.isEmpty && fraction.isEmpty then none
  else
    let (e, rest) := spanExponent rest
    some (whole ++ fraction, e - fraction.length, rest)

/-- Blanks before a numeral in a stored text. -/
def isColumnBlank (c : Char) : Bool :=
  c == ' ' || (9 ≤ c.toNat && c.toNat ≤ 13)

/-- The value of the longest numeral at the start of a text, blanks skipped, or zero. -/
def Double.ofLongestNumber (cs : List Char) : Double :=
  let (negative, rest) := spanSign (cs.dropWhile isColumnBlank)
  match spanNumeral rest with
  | some (digits, e, _) => Double.ofDecimal negative (digitsValue digits) e
  | none => ⟨false, 0, 0⟩

/-- The blanks that may stand around a numeral. -/
def isBlank (c : Char) : Bool :=
  [(0x9, 0xd), (0x1c, 0x20), (0x85, 0x85), (0xa0, 0xa0), (0x1680, 0x1680), (0x2000, 0x200a),
    (0x2028, 0x2029), (0x202f, 0x202f), (0x205f, 0x205f), (0x3000, 0x3000)].any
    fun ((first, last) : Nat × Nat) => first ≤ c.toNat && c.toNat ≤ last

/-- The zeros of the scripts that have decimal digits beyond ASCII. -/
def decimalZeros : List Nat :=
  [0x660, 0x6f0, 0x7c0, 0x966, 0x9e6, 0xa66, 0xae6, 0xb66, 0xbe6, 0xc66, 0xce6, 0xd66, 0xde6, 0xe50,
  0xed0, 0xf20, 0x1040, 0x1090, 0x17e0, 0x1810, 0x1946, 0x19d0, 0x1a80, 0x1a90, 0x1b50, 0x1bb0,
  0x1c40, 0x1c50, 0xa620, 0xa8d0, 0xa900, 0xa9d0, 0xa9f0, 0xaa50, 0xabf0, 0xff10, 0x104a0, 0x10d30,
  0x11066, 0x110f0, 0x11136, 0x111d0, 0x112f0, 0x11450, 0x114d0, 0x11650, 0x116c0, 0x11730, 0x118e0,
  0x11950, 0x11c50, 0x11d50, 0x11da0, 0x16a60, 0x16ac0, 0x16b50, 0x1d7ce, 0x1d7d8, 0x1d7e2, 0x1d7ec,
  0x1d7f6, 0x1e140, 0x1e2f0, 0x1e950, 0x1fbf0]

/-- A decimal digit of any script as its ASCII digit. -/
def asciiDigit (c : Char) : Char :=
  match decimalZeros.find? fun z => z ≤ c.toNat && c.toNat < z + 10 with
  | some z => Char.ofNat (48 + (c.toNat - z))
  | none => c

/-- Drops low lines that stand between two digits. -/
def dropSeparators : List Char → List Char
  | a :: '_' :: b :: cs =>
    if a.isDigit && b.isDigit then a :: dropSeparators (b :: cs) else a :: '_' :: dropSeparators (b :: cs)
  | c :: cs => c :: dropSeparators cs
  | [] => []

/-- A numeral without the blanks around it and the low lines inside. -/
def bareNumeral (s : String) : List Char :=
  let cs := (s.toList.dropWhile isBlank).reverse.dropWhile isBlank
  dropSeparators (cs.reverse.map asciiDigit)

/-- The double nearest to a text that is a decimal numeral as a whole. -/
def Double.ofText? (s : String) : Option Double :=
  let (negative, rest) := spanSign (bareNumeral s)
  match spanNumeral rest with
  | some (digits, e, []) => some (Double.ofDecimal negative (digitsValue digits) e)
  | _ => none

/-- The value of a text that is an integer numeral as a whole. -/
def integerOfText? (s : String) : Option Int :=
  let (negative, rest) := spanSign (bareNumeral s)
  match spanDigits rest with
  | ([], _) => none
  | (ds, []) => some (if negative then -(digitsValue ds : Int) else digitsValue ds)
  | _ => none

end DocumentApi
