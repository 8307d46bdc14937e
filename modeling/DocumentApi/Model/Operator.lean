/-!
# Filter operators

The operators of filter conditions, their names, and the attributes under which filter inputs hold
them.
-/

namespace DocumentApi

/-- An operator of a filter condition. -/
inductive Operator where
  | eq
  | ne
  | isIn
  | notIn
  | gt
  | gte
  | lt
  | lte
  | contains
deriving DecidableEq, Repr, Inhabited

namespace Operator

/-- All operators, in the order in which a filterable field offers them. -/
def all : List Operator :=
  [eq, ne, isIn, notIn, gt, gte, lt, lte, contains]

def name : Operator → String
  | eq => "eq"
  | ne => "ne"
  | isIn => "in"
  | notIn => "notIn"
  | gt => "gt"
  | gte => "gte"
  | lt => "lt"
  | lte => "lte"
  | contains => "contains"

/-- The operator of a name. -/
def ofName? (s : String) : Option Operator :=
  all.find? fun op => op.name == s

/-- The attribute that holds an operator's operand in a filter input. -/
def attr : Operator → String
  | isIn => "in_"
  | op => op.name

/-- Whether the operand is a list. -/
def takesList : Operator → Bool
  | isIn | notIn => true
  | _ => false

end Operator

/-- The operator name for an attribute of a filter input. -/
def operatorName (attr : String) : String :=
  if attr = "in_" then "in" else attr

end DocumentApi
