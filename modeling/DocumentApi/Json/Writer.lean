import DocumentApi.Number.Shortest
import DocumentApi.Text.Hex
import DocumentApi.Value.Basic

/-!
# JSON text of values

`Value.toJson` writes a value without blanks, the fields of a record in their order.

* An integer is written with all its digits, a double with the fewest that read back.
* `JsonEscapes` decides which characters of a text are escaped besides quote, backslash and control
  characters.
-/

namespace DocumentApi

/-- Which characters beyond ASCII are escaped. -/
inductive JsonEscapes where
  | control
  | beyondAscii
deriving DecidableEq, Repr

/-- The escape of one unit of sixteen bits. -/
def escapeUnit (n : Nat) : List Char :=
  '\\' :: 'u' :: hexDigits 4 n

/-- The escape of a code point, in two units beyond the first plane. -/
def escapeCodePoint (n : Nat) : List Char :=
  if n < 0x10000 then escapeUnit n
  else escapeUnit (0xd800 + (n - 0x10000) / 0x400) ++ escapeUnit (0xdc00 + (n - 0x10000) % 0x400)

def JsonEscapes.covers (escapes : JsonEscapes) (c : Char) : Bool :=
  c.toNat < 32 || (escapes == .beyondAscii && 127 ≤ c.toNat)

/-- A character inside a JSON text. -/
def jsonChar (escapes : JsonEscapes) (c : Char) : List Char :=
  if c = '"' || c = '\\' then ['\\', c]
  else if c = '\n' then ['\\', 'n']
  else if c = '\r' then ['\\', 'r']
  else if c = '\t' then ['\\', 't']
  else if c.toNat = 12 then ['\\', 'f']
  else if c.toNat = 8 then ['\\', 'b']
  else if escapes.covers c then escapeCodePoint c.toNat
  else [c]

/-- A text between quotes. -/
def jsonText (escapes : JsonEscapes) (s : String) : List Char :=
  '"' :: s.toList.flatMap (jsonChar escapes) ++ ['"']

namespace Value

mutual

/-- The JSON text of a value; kinds that JSON does not have are written as null. -/
def jsonChars (escapes : JsonEscapes) : Value → List Char
  | bool b => (if b then "true" else "false").toList
  | int i => (toString i).toList
  | float x => x.text.toList
  | text s => jsonText escapes s
  | list items => '[' :: jsonItems escapes true items ++ [']']
  | record fields => '{' :: jsonFields escapes true fields ++ ['}']
  | null => "null".toList
  | unset => "null".toList
  | member .. => "null".toList
  | object .. => "null".toList
  | token _ => "null".toList
  | wildcard => "null".toList
termination_by structural v => v

/-- Items, with a comma before each but the first. -/
def jsonItems (escapes : JsonEscapes) (first : Bool) : List Value → List Char
  | [] => []
  | item :: items =>
    (if first then [] else [',']) ++ jsonChars escapes item ++ jsonItems escapes false items
termination_by structural items => items

def jsonFields (escapes : JsonEscapes) (first : Bool) : List (String × Value) → List Char
  | [] => []
  | entry :: fields =>
    (if first then [] else [',']) ++ jsonEntry escapes entry ++ jsonFields escapes false fields
termination_by structural fields => fields

def jsonEntry (escapes : JsonEscapes) : String × Value → List Char
  | (name, v) => jsonText escapes name ++ ':' :: jsonChars escapes v
termination_by structural entry => entry

end

/-- The JSON text of a value without blanks. -/
def toJson (escapes : JsonEscapes) (v : Value) : String :=
  String.ofList (v.jsonChars escapes)

end Value

end DocumentApi
