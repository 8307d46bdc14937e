import DocumentApi.Number.Reading
import DocumentApi.Text.Hex
import DocumentApi.Value.Basic

/-!
# Values read from JSON text

`Value.ofJson?` reads a text that is one JSON value.

* A number without point and exponent is an integer of any size, any other the nearest double.
* The fields of a record keep their order; a name that comes twice has its last value in its first
  place.
-/

namespace DocumentApi

/-- The blanks between the parts of a JSON text. -/
def skipJsonBlanks (cs : List Char) : List Char :=
  cs.dropWhile fun c => c == ' ' || c == '\n' || c == '\r' || c == '\t'

/-- The character of one or two escaped units of sixteen bits. -/
def charOfUnits (high low : Nat) : Char :=
  Char.ofNat (0x10000 + (high - 0xd800) * 0x400 + (low - 0xdc00))

/-- The value of four hexadecimal digits at the start of a text, and the rest. -/
def readUnit (cs : List Char) : Option (Nat × List Char) :=
  match cs with
  | a :: b :: c :: d :: rest => (readHex [a, b, c, d]).map fun n => (n, rest)
  | _ => none

/-- An escape after its backslash, and the rest. -/
def readEscape : List Char → Option (Char × List Char)
  | 'n' :: cs => some ('\n', cs)
  | 'r' :: cs => some ('\r', cs)
  | 't' :: cs => some ('\t', cs)
  | 'b' :: cs => some (Char.ofNat 8, cs)
  | 'f' :: cs => some (Char.ofNat 12, cs)
  | 'u' :: cs => do
    let (high, rest) ← readUnit cs
    if 0xd800 ≤ high ∧ high < 0xe000 then
      match rest with
      | '\\' :: 'u' :: more => do
        let (low, rest) ← readUnit more
        some (charOfUnits high low, rest)
      | _ => some (Char.ofNat 0xfffd, rest)
    else some (Char.ofNat high, rest)
  | c :: cs => some (c, cs)
  | [] => none

/-- The characters of a text after its first quote, in reverse after `read`, and the rest. -/
def readJsonText : (fuel : Nat) → (read : List Char) → List Char → Option (String × List Char)
  | 0, _, _ => none
  | fuel + 1, read, cs => match cs with
    | '"' :: rest => some (String.ofList read.reverse, rest)
    | '\\' :: rest => do
      let (c, rest) ← readEscape rest
      readJsonText fuel (c :: read) rest
    | c :: rest => readJsonText fuel (c :: read) rest
    | [] => none

/-- A number at the start of a text, and the rest. -/
def readJsonNumber (cs : List Char) : Option (Value × List Char) :=
  let (negative, unsigned) := spanSign cs
  match spanNumeral unsigned with
  | none => none
  | some (digits, e, rest) =>
    let written := unsigned.take (unsigned.length - rest.length)
    if written.all Char.isDigit then
      let n : Int := digitsValue digits
      some (.int (if negative then -n else n), rest)
    else some (.float (Double.ofDecimal negative (digitsValue digits) e), rest)

/-- The rest of a text that starts with a word. -/
def afterWord (word : String) (cs : List Char) : Option (List Char) :=
  if word.toList.isPrefixOf cs then some (cs.drop word.length) else none

mutual

/-- A value at the start of a text, and the rest. -/
def readJson : (fuel : Nat) → List Char → Option (Value × List Char)
  | 0, _ => none
  | fuel + 1, cs => match skipJsonBlanks cs with
    | 'n' :: rest => (afterWord "ull" rest).map fun rest => (.null, rest)
    | 't' :: rest => (afterWord "rue" rest).map fun rest => (.bool true, rest)
    | 'f' :: rest => (afterWord "alse" rest).map fun rest => (.bool false, rest)
    | '"' :: rest => (readJsonText (rest.length + 1) [] rest).map fun (s, rest) => (.text s, rest)
    | '[' :: rest => match skipJsonBlanks rest with
      | ']' :: rest => some (.list [], rest)
      | rest => (readJsonItems fuel rest).map fun (items, rest) => (.list items, rest)
    | '{' :: rest => match skipJsonBlanks rest with
      | '}' :: rest => some (.record [], rest)
      | rest => (readJsonFields fuel rest).map fun (fields, rest) =>
          (.record (Table.ofPairs fields), rest)
    | rest => readJsonNumber rest

/-- Items up to the closing bracket, and the rest. -/
def readJsonItems : (fuel : Nat) → List Char → Option (List Value × List Char)
  | 0, _ => none
  | fuel + 1, cs => do
    let (item, rest) ← readJson fuel cs
    match skipJsonBlanks rest with
    | ',' :: rest => do
      let (items, rest) ← readJsonItems fuel rest
      some (item :: items, rest)
    | ']' :: rest => some ([item], rest)
    | _ => none

/-- Fields up to the closing brace, and the rest. -/
def readJsonFields : (fuel : Nat) → List Char → Option (List (String × Value) × List Char)
  | 0, _ => none
  | fuel + 1, cs => match skipJsonBlanks cs with
    | '"' :: rest => do
      let (name, rest) ← readJsonText (rest.length + 1) [] rest
      match skipJsonBlanks rest with
      | ':' :: rest => do
        let (v, rest) ← readJson fuel rest
        match skipJsonBlanks rest with
        | ',' :: rest => do
          let (fields, rest) ← readJsonFields fuel rest
          some ((name, v) :: fields, rest)
        | '}' :: rest => some ([(name, v)], rest)
        | _ => none
      | _ => none
    | _ => none

end

/-- The value of a JSON text, or none when the text is not one JSON value. -/
def Value.ofJson? (s : String) : Option Value :=
  let cs := s.toList
  match readJson (cs.length + 1) cs with
  | some (v, rest) => if (skipJsonBlanks rest).isEmpty then some v else none
  | none => none

end DocumentApi
