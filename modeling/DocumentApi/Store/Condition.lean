import DocumentApi.Model.Operator
import DocumentApi.Text.Like
import DocumentApi.Value.Equality
import DocumentApi.Value.Views

/-!
# Filter conditions on documents

A filter is a record whose entries hold for a document one and all. An entry is a value that a field
equals, or a record of operators with their operands.

* `Condition.readAll`: the conditions of a filter; an unknown operator fails when it is reached.
* `Condition.matchesValue`: whether a condition holds of a value.
* `matchesFilter`: whether a document meets a filter, conditions after the first that fails unread.
-/

namespace DocumentApi

/-- A condition on one field. -/
structure Condition where
  key : String
  operator : Operator
  operand : Value
deriving Repr, Inhabited

/-- A condition whose operator is a name. -/
structure NamedCondition where
  key : String
  operator : String
  operand : Value
deriving Repr, Inhabited

/-- The conditions of one entry of a filter. -/
def conditionsOfEntry (key : String) (v : Value) : List NamedCondition :=
  match v with
  | .record operators => operators.map fun entry => ⟨key, entry.1, entry.2⟩
  | _ => [⟨key, Operator.eq.name, v⟩]

/-- The conditions of a filter, in order. -/
def namedConditions (filter : Value) : Except Error (List NamedCondition) :=
  if !filter.truthy then .ok []
  else match filter with
    | .record fields => .ok (fields.flatMap fun entry => conditionsOfEntry entry.1 entry.2)
    | _ => .error .missingPart

namespace Condition

/-- A condition with its operator known. -/
def read (c : NamedCondition) : Except Error Condition :=
  match Operator.ofName? c.operator with
  | some operator => .ok ⟨c.key, operator, c.operand⟩
  | none => .error (.filterOperatorUnknown c.operator c.key)

/-- All conditions of a filter. -/
def readAll (filter : Value) : Except Error (List Condition) := do
  (← namedConditions filter).mapM read

/-- Whether a value is among those of an operand. A text holds its parts, and a record its keys. -/
def isAmong (v operand : Value) : Except Error Bool :=
  if !operand.truthy then .ok false
  else match operand with
    | .list items => .ok (v.memberOf items)
    | .text s => match v with
      | .text part => .ok (hasInfix part.toList s.toList)
      | _ => .error .wrongKind
    | .record fields => match v with
      | .list _ => .error .wrongKind
      | .record _ => .error .wrongKind
      | .text key => .ok (Table.has fields key)
      | _ => .ok false
    | _ => .error .wrongKind

/-- Whether two values have an order, and one that passes a test. -/
def ordered (test : Ordering → Bool) (v operand : Value) : Bool :=
  (v.compare? operand).any test

/-- Whether an operator holds of a value and an operand. -/
def holds (operator : Operator) (v operand : Value) : Except Error Bool :=
  match operator with
  | .eq => .ok (v.same operand)
  | .ne => .ok !(v.same operand)
  | .isIn => isAmong v operand
  | .notIn => (isAmong v operand).map not
  | .contains => match v with
    | .text s =>
      if operand.isNull then .ok false
      else .ok (hasInfix (lowerChars operand.display.toList) (lowerChars s.toList))
    | _ => .ok false
  | .gt => .ok (ordered (· == .gt) v operand)
  | .gte => .ok (ordered (· != .lt) v operand)
  | .lt => .ok (ordered (· == .lt) v operand)
  | .lte => .ok (ordered (· != .gt) v operand)

/-- Whether the operator of a name holds of a value and an operand. An unknown operator orders nothing:
it is refused where there are two values to order, unless it could not even be looked for. -/
def holdsNamed (operator v operand : Value) : Except Error Bool :=
  match operator.asText?.bind Operator.ofName? with
  | some op => holds op v operand
  | none =>
    if v.isNull || operand.isNull then .ok false
    else match operator with
      | .list _ => .ok false
      | .record _ => .ok false
      | _ => .error .missingKey

/-- Whether a condition holds of a value. -/
def matchesValue (c : Condition) (v : Value) : Except Error Bool :=
  holds c.operator v c.operand

/-- Whether a condition holds of a document. -/
def matchesDocument (c : Condition) (doc : Fields) : Except Error Bool :=
  c.matchesValue (Fields.get doc c.key)

/-- Whether a document meets conditions, up to the first that it does not. -/
def allMatch (doc : Fields) : List Condition → Except Error Bool
  | [] => .ok true
  | c :: rest => do
    if ← c.matchesDocument doc then allMatch doc rest else return false

end Condition

/-- Whether a document meets conditions whose operators are read one at a time. -/
def meetsNamed (doc : Fields) : List NamedCondition → Except Error Bool
  | [] => .ok true
  | c :: rest => do
    if ← (← Condition.read c).matchesDocument doc then meetsNamed doc rest else return false

/-- Whether a document meets a filter. -/
def matchesFilter (doc : Fields) (filter : Value) : Except Error Bool := do
  meetsNamed doc (← namedConditions filter)

end DocumentApi
