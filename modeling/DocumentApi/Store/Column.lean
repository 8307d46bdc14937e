import DocumentApi.Json.Writer
import DocumentApi.Number.Reading
import DocumentApi.Store.Condition
import DocumentApi.Store.Entry

/-!
# Column conditions

A condition whose operand is a boolean, a number or a text can be answered from a column: the stored
values of a field, cast to the kind of the operand.

* `ColumnKind.cast`: a stored value in a column. As a number, a text counts as the longest number that
  it starts with; as a text, a number is written out and a list or record as JSON text.
* `Condition.toColumn`: the column condition for a condition, or none when it has to be answered from
  the documents themselves.
* `ColumnCondition.holds`: whether a column condition selects an entry. Null is selected by `ne` and
  `notIn` alone.
-/

namespace DocumentApi

/-- The kinds of values in a column. -/
inductive ColumnKind where
  | boolean
  | number
  | text
deriving DecidableEq, Repr, Inhabited

/-- Whether an integer fits a column of integers, which have 64 bits. -/
def fitsColumn (i : Int) : Bool :=
  decide (-9223372036854775808 ≤ i ∧ i < 9223372036854775808)

namespace ColumnKind

/-- The kind of column that an operand is compared with. -/
def ofValue? : Value → Option ColumnKind
  | .bool _ => some boolean
  | .int _ => some number
  | .float _ => some number
  | .text _ => some text
  | _ => none

/-- The text of a stored value. -/
def textOf : Value → String
  | .bool b => if b then "1" else "0"
  | .int i => if fitsColumn i then toString i else (Double.ofInt i).columnText
  | .float x => x.columnText
  | .text s => s
  | v => v.toJson .beyondAscii

/-- A stored value as a number, integers as they are. -/
def numberOf : Value → Value
  | .bool b => .int (if b then 1 else 0)
  | .int i => .int i
  | .float x => .float x
  | v => .float (Double.ofLongestNumber (textOf v).toList)

/-- A number as a double. -/
def toDouble : Value → Value
  | .bool b => .float (Double.ofInt (if b then 1 else 0))
  | .int i => .float (Double.ofInt i)
  | v => v

/-- A stored value in a column of a kind. -/
def cast (kind : ColumnKind) (v : Value) : Value :=
  if v.isNull then .null
  else match kind with
    | boolean => numberOf v
    | number => toDouble (numberOf v)
    | text => .text (textOf v)

/-- An operand of a column condition; a number is used as a double. -/
def castOperand (kind : ColumnKind) (v : Value) : Except Error Value :=
  match kind, v with
  | boolean, .bool b => .ok (.int (if b then 1 else 0))
  | number, .int i =>
    let x := Double.ofInt i
    if x.isInfinite then .error .tooLarge else .ok (.float x)
  | _, v => .ok v

end ColumnKind

/-- A condition on a column, its operands cast. -/
structure ColumnCondition where
  key : String
  operator : Operator
  kind : ColumnKind
  operands : List Value
deriving Repr, Inhabited

/-- The kind of column that all values of a list are compared with. -/
def commonKind? : List Value → Option ColumnKind
  | [] => none
  | v :: rest => match ColumnKind.ofValue? v with
    | some kind => if rest.all fun w => ColumnKind.ofValue? w == some kind then some kind else none
    | none => none

/-- The id is a column of texts. -/
def hasColumn (key : String) (kind : ColumnKind) : Bool :=
  key != "id" || kind == .text

namespace Condition

/-- Whether a column of a kind answers an operator that takes one operand. -/
def columnAnswers (operator : Operator) (kind : ColumnKind) : Bool :=
  match operator with
  | .contains => kind == .text
  | .gt | .gte | .lt | .lte => kind != .boolean
  | _ => true

/-- The column condition for a condition, if a column answers it. -/
def toColumn (c : Condition) : Except Error (Option ColumnCondition) := do
  if c.operator.takesList then
    let values ← c.operand.iterateGiven
    match commonKind? values with
    | some kind =>
      if hasColumn c.key kind then
        return some ⟨c.key, c.operator, kind, ← values.mapM kind.castOperand⟩
      else return none
    | none => return none
  else match ColumnKind.ofValue? c.operand with
    | some kind =>
      if columnAnswers c.operator kind && hasColumn c.key kind then
        return some ⟨c.key, c.operator, kind, [← kind.castOperand c.operand]⟩
      else return none
    | none => return none

end Condition

namespace ColumnCondition

/-- The cell of an entry that a condition is on. -/
def cell (c : ColumnCondition) (e : Entry) : Value :=
  if c.key = "id" then .text e.id else c.kind.cast (Fields.get e.fields c.key)

/-- Whether a cell that is not null contains a text. -/
def cellContains (cell operand : Value) : Bool :=
  match cell, operand with
  | .text s, .text part => likeIgnoringCase (likePattern part.toList) s.toList
  | _, _ => false

/-- Whether a cell that is not null passes an operator. -/
def passes (operator : Operator) (cell : Value) (operands : List Value) : Bool :=
  match operator with
  | .eq => cell.memberOf operands
  | .ne => !cell.memberOf operands
  | .isIn => cell.memberOf operands
  | .notIn => !cell.memberOf operands
  | .gt => operands.any fun o => Condition.ordered (· == .gt) cell o
  | .gte => operands.any fun o => Condition.ordered (· != .lt) cell o
  | .lt => operands.any fun o => Condition.ordered (· == .lt) cell o
  | .lte => operands.any fun o => Condition.ordered (· != .gt) cell o
  | .contains => operands.any (cellContains cell)

/-- Whether a condition selects an entry. -/
def holds (c : ColumnCondition) (e : Entry) : Bool :=
  let cell := c.cell e
  if cell.isNull then c.operator == .ne || c.operator == .notIn
  else passes c.operator cell c.operands

end ColumnCondition

end DocumentApi
