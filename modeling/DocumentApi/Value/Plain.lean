import DocumentApi.Value.Basic

/-!
# Plain values

`Value.plain` turns an input into the data that is stored: instances become records, enum members
the values that they are stored as, and what was left out is dropped from records and instances.
-/

namespace DocumentApi

namespace Value

mutual

/-- The stored form of an input value. -/
def plain : Value → Value
  | unset => null
  | member _ _ stored => stored
  | list items => list (plainItems items)
  | record fields => record (plainFields fields)
  | object _ fields => record (plainFields fields)
  | null => null
  | bool b => bool b
  | int i => int i
  | float x => float x
  | text s => text s
  | token label => token label
  | wildcard => wildcard
termination_by structural v => v

def plainItems : List Value → List Value
  | [] => []
  | item :: items => plain item :: plainItems items
termination_by structural items => items

/-- The fields that were given, in stored form. -/
def plainFields : List (String × Value) → List (String × Value)
  | [] => []
  | entry :: fields => plainEntry entry (plainFields fields)
termination_by structural fields => fields

/-- Puts the stored form of an entry in front, unless the entry was left out. -/
def plainEntry : String × Value → List (String × Value) → List (String × Value)
  | (name, v), rest => if v.isUnset then rest else (name, plain v) :: rest
termination_by structural entry => entry

end

end Value

end DocumentApi
