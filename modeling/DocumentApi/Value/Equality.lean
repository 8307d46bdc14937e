import DocumentApi.Value.Basic

/-!
# Equality and order of values

* `Value.same`: numbers are equal by value, whatever their kind, and a boolean counts as one or
  zero; lists are equal item by item, records by name whatever their order.
* `Value.compare?`: the order of two numbers, of two texts by code point, and of two lists by the
  first pair of items that differ. Other values have no order.
-/

namespace DocumentApi

/-- An integer of any size or a double. -/
inductive Number where
  | int (i : Int)
  | float (x : Double)
deriving DecidableEq, Repr

/-- The exact order of two numbers. -/
def Number.compare : Number → Number → Ordering
  | int i, int j => Ord.compare i j
  | int i, float y => (y.compareInt i).swap
  | float x, int j => x.compareInt j
  | float x, float y => x.compare y

namespace Value

/-- The number that a value counts as. -/
def number? : Value → Option Number
  | bool b => some (.int (if b then 1 else 0))
  | int i => some (.int i)
  | float x => some (.float x)
  | _ => none

/-- Whether two values are numbers of one value. -/
def sameNumber (v w : Value) : Bool :=
  match v.number?, w.number? with
  | some x, some y => x.compare y == .eq
  | _, _ => false

mutual

/-- Whether two values are equal. -/
def same : Value → Value → Bool
  | null, w => w.isNull
  | bool b, w => sameNumber (bool b) w
  | int i, w => sameNumber (int i) w
  | float x, w => sameNumber (float x) w
  | text s, w => match w with
    | text t => s == t
    | _ => false
  | list items, w => match w with
    | list others => sameItems items others
    | _ => false
  | record fields, w => match w with
    | record others => fields.length == others.length && sameFields fields others
    | _ => false
  | unset, w => w.isUnset
  | member enumName name _, w => match w with
    | member otherEnum other _ => enumName == otherEnum && name == other
    | _ => false
  | object typeName fields, w => match w with
    | object otherType others =>
      typeName == otherType && fields.length == others.length && sameFields fields others
    | _ => false
  | token label, w => match w with
    | token other => label == other
    | _ => false
  | wildcard, w => match w with
    | wildcard => true
    | _ => false
termination_by structural v => v

/-- Whether two lists have equal items in order. -/
def sameItems : List Value → List Value → Bool
  | [], others => others.isEmpty
  | item :: items, others => match others with
    | other :: rest => same item other && sameItems items rest
    | [] => false
termination_by structural items => items

/-- Whether every field has an equal entry in `others`. -/
def sameFields : List (String × Value) → List (String × Value) → Bool
  | [], _ => true
  | entry :: fields, others => sameEntry entry others && sameFields fields others
termination_by structural fields => fields

def sameEntry : String × Value → List (String × Value) → Bool
  | (name, v), others => match Table.find? others name with
    | some w => same v w
    | none => false
termination_by structural entry => entry

end

mutual

/-- The order of two values that have one. -/
def compare? : Value → Value → Option Ordering
  | list items, w => match w with
    | list others => compareItems items others
    | _ => none
  | text s, w => match w with
    | text t => some (Ord.compare s t)
    | _ => none
  | v, w => match v.number?, w.number? with
    | some x, some y => some (x.compare y)
    | _, _ => none
termination_by structural v => v

/-- The order of the first items that differ, or of the lengths. -/
def compareItems : List Value → List Value → Option Ordering
  | [], others => some (if others.isEmpty then .eq else .lt)
  | item :: items, others => match others with
    | other :: rest => if same item other then compareItems items rest else compare? item other
    | [] => some .gt
termination_by structural items => items

end

/-- Whether a list holds an equal value. -/
def memberOf (v : Value) (items : List Value) : Bool :=
  items.any fun item => v.same item

end Value

end DocumentApi
