import DocumentApi.Schema.Basic
import DocumentApi.Types.Output

/-!
# Arguments of requests

The arguments of a request are read by the types of the operation's arguments.

* `Scalar.argument?`: the value of a scalar argument, which has to be of its kind.
* `readArgument`: the value of an argument. A value that is no list counts as a list of one, members of
  enums are given by name, and inputs become instances with what is left out.
-/

namespace DocumentApi

/-- The integer that a value is, a double without a fraction included. -/
def Value.integral? : Value → Option Int
  | int i => some i
  | float x =>
    if x.isInfinite then none
    else if x.compareInt x.truncate == .eq then some x.truncate
    else none
  | _ => none

/-- Whether an integer fits into 32 bits. -/
def fitsInt (i : Int) : Bool :=
  -2147483648 ≤ i && i ≤ 2147483647

/-- A double that is finite. -/
def finiteFloat? (x : Double) : Option Value :=
  if x.isInfinite then none else some (.float x)

/-- The value of a scalar argument. -/
def Scalar.argument? (s : Scalar) (v : Value) : Option Value :=
  match s, v with
  | string, .text _ => some v
  | boolean, .bool _ => some v
  | int, v => match v.integral? with
    | some i => if fitsInt i then some (.int i) else none
    | none => none
  | float, .int i => finiteFloat? (Double.ofInt i)
  | float, .float x => finiteFloat? x
  | id, .text _ => some v
  | id, v => v.integral?.map fun i => .text (toString i)
  | _, _ => none

namespace TypeRef

/-- The type of the items of a list type. -/
def item? : TypeRef → Option TypeRef
  | list item => some item
  | optional t => t.item?
  | _ => none

/-- A value inside as many lists as its type has. -/
def wrap : TypeRef → Value → Value
  | list item, v => .list [item.wrap v]
  | optional t, v => t.wrap v
  | _, v => v

def isOptional : TypeRef → Bool
  | optional _ => true
  | _ => false

end TypeRef

/-- The value of an argument that is given by a single value. -/
def TypeBody.argument? : TypeBody → Value → Option Value
  | scalar s, v => s.argument? v
  | enum enumName members, .text name =>
    (Table.find? members name).map fun stored => .member enumName name stored
  | _, _ => none

/-- The result of reading a part of a request. -/
def requested {α : Type} : Option α → Except Error α
  | some a => .ok a
  | none => .error .badRequest

mutual

/-- The value of an argument of a type. -/
def readArgument (bodyOf : TypeRef → Option TypeBody) (t : TypeRef) : Value → Except Error Value
  | .null => if t.isOptional then .ok .null else .error .badRequest
  | .list items => match t.item? with
    | some item => do return .list (← readArguments bodyOf item items)
    | none => .error .badRequest
  | .record fields => match bodyOf t.core with
    | some (.shape shape) => do
      let given ← readFields bodyOf shape fields
      return t.wrap (← requested (shape.instantiate given).toOption)
    | _ => .error .badRequest
  | v => do return t.wrap (← requested ((bodyOf t.core).bind fun body => body.argument? v))
termination_by structural v => v

/-- The values of the items of a list. -/
def readArguments (bodyOf : TypeRef → Option TypeBody) (item : TypeRef) :
    List Value → Except Error (List Value)
  | [] => .ok []
  | v :: items => do
    return (← readArgument bodyOf item v) :: (← readArguments bodyOf item items)
termination_by structural items => items

/-- The values of the fields of an input, by the attributes that hold them. -/
def readFields (bodyOf : TypeRef → Option TypeBody) (shape : TypeShape) :
    List (String × Value) → Except Error (List (String × Value))
  | [] => .ok []
  | entry :: fields => do
    return (← readField bodyOf shape entry) :: (← readFields bodyOf shape fields)
termination_by structural fields => fields

def readField (bodyOf : TypeRef → Option TypeBody) (shape : TypeShape) :
    String × Value → Except Error (String × Value)
  | (name, v) => match shape.fields.find? fun f => f.name == name with
    | some f => do return (f.attr, ← readArgument bodyOf f.type v)
    | none => .error .badRequest
termination_by structural entry => entry

end

end DocumentApi
