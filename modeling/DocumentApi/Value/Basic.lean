import DocumentApi.Number.Double
import DocumentApi.Table

/-!
# Values

`Value` is what documents, inputs and answers are made of: the kinds of JSON with integers and
doubles apart, and the kinds that only inputs and answers have.

* `Value.truthy`: whether a value counts as given: not null, false, zero or empty.
* `Value.elements`: the values that a list, record or text is a sequence of.
* `Value.field`: the entry of a record, null when it is absent.
-/

namespace DocumentApi

/-- A value of a document, an input or an answer. -/
inductive Value where
  | null
  | bool (b : Bool)
  | int (i : Int)
  | float (x : Double)
  | text (s : String)
  | list (items : List Value)
  | record (fields : List (String × Value))
  /-- The value of an input field that was left out. -/
  | unset
  /-- The member of an enum, with the value that it is stored as. -/
  | member (enumName name : String) (stored : Value)
  /-- An instance of a named type, or of a record type without a name. -/
  | object (typeName : Option String) (fields : List (String × Value))
  /-- A value without any attributes, known by a label. -/
  | token (label : String)
  /-- The wildcard that stands for every model. -/
  | wildcard
deriving Repr, Inhabited

/-- Values by field name, in order. -/
abbrev Fields := Table Value

/-- The entry of a field, null when it is absent. -/
def Fields.get (fields : Fields) (key : String) : Value :=
  (Table.find? fields key).getD .null

namespace Value

def isNull : Value → Bool
  | null => true
  | _ => false

def isUnset : Value → Bool
  | unset => true
  | _ => false

/-- Whether a value counts as given. -/
def truthy : Value → Bool
  | null => false
  | bool b => b
  | int i => i != 0
  | float x => !x.isZero
  | text s => !s.isEmpty
  | list items => !items.isEmpty
  | record fields => !fields.isEmpty
  | unset => false
  | member .. => true
  | object .. => true
  | token _ => true
  | wildcard => true

def asText? : Value → Option String
  | text s => some s
  | _ => none

def asRecord? : Value → Option Fields
  | record fields => some fields
  | _ => none

/-- The elements of a list, the keys of a record, the characters of a text. -/
def elements : Value → Option (List Value)
  | list items => some items
  | record fields => some (fields.map fun entry => text entry.1)
  | text s => some (s.toList.map fun c => text (String.singleton c))
  | _ => none

/-- A value that is not null. -/
def present (v : Value) : Option Value :=
  if v.isNull then none else some v

end Value

end DocumentApi
