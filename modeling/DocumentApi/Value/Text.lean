import DocumentApi.Number.Shortest
import DocumentApi.Text.Quoted
import DocumentApi.Value.Basic

/-!
# Text of values

* `Value.display`: how a value stands inside a longer text or as an id; a text stands for itself.
* `Value.inspect`: the same with texts between quotes, as they stand inside lists and records.
-/

namespace DocumentApi

namespace Value

/-- Texts joined by a comma and a blank. -/
def commaJoin (parts : List String) : String :=
  ", ".intercalate parts

mutual

/-- The written form of a value, texts between quotes. -/
def inspect : Value → String
  | null => "None"
  | bool b => if b then "True" else "False"
  | int i => toString i
  | float x => x.text
  | text s => quoted s
  | list items => "[" ++ commaJoin (inspectItems items) ++ "]"
  | record fields => "\x7b" ++ commaJoin (inspectFields ": " true fields) ++ "\x7d"
  | unset => "UNSET"
  | member enumName name stored => "<" ++ enumName ++ "." ++ name ++ ": " ++ inspect stored ++ ">"
  | object typeName fields => match typeName with
    | some typeName => typeName ++ "(" ++ commaJoin (inspectFields "=" false fields) ++ ")"
    | none => "<object>"
  | token label => "<opaque " ++ label ++ ">"
  | wildcard => "ALL_MODELS"
termination_by structural v => v

def inspectItems : List Value → List String
  | [] => []
  | item :: items => inspect item :: inspectItems items
termination_by structural items => items

/-- Entries with a mark between name and value; the name quoted or plain. -/
def inspectFields (mark : String) (quoteNames : Bool) : List (String × Value) → List String
  | [] => []
  | entry :: fields => inspectEntry mark quoteNames entry :: inspectFields mark quoteNames fields
termination_by structural fields => fields

def inspectEntry (mark : String) (quoteNames : Bool) : String × Value → String
  | (name, v) => (if quoteNames then quoted name else name) ++ mark ++ inspect v
termination_by structural entry => entry

end

/-- The text of a value inside a longer text. -/
def display : Value → String
  | text s => s
  | unset => ""
  | member enumName name _ => enumName ++ "." ++ name
  | v => inspect v

end Value

end DocumentApi
