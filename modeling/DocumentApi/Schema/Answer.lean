import DocumentApi.Number.Reading
import DocumentApi.Schema.Argument
import DocumentApi.Value.Text

/-!
# Answers to requests

The result of an operation is written by the type that the operation returns, every field of it.

* `Scalar.answer?`: the value of a scalar in an answer. Numbers and truth values turn into texts, texts
  that are numerals into numbers.
* `writeAnswer`: the answer for a result. Members of enums are named, and null stands only where the
  type lets it.
-/

namespace DocumentApi

/-- The text that a value stands for in an answer. Lists and records have none. -/
def Value.answerText? : Value → Option String
  | text s => some s
  | bool b => some (if b then "true" else "false")
  | int i => some (toString i)
  | float x => if x.isInfinite then none else some x.text
  | null => none
  | list _ => none
  | record _ => none
  | v => some v.display

/-- The text that a value stands for as an id: numbers only without a fraction, truth values never. -/
def Value.answerId? : Value → Option String
  | bool _ => none
  | float x => (float x).integral?.map toString
  | v => v.answerText?

/-- The integer that a value stands for. -/
def Value.answerInt? : Value → Option Int
  | bool b => some (if b then 1 else 0)
  | text s => integerOfText? s
  | v => v.integral?

/-- The number that a value stands for. -/
def Value.answerFloat? : Value → Option Value
  | bool b => some (int (if b then 1 else 0))
  | int i => finiteFloat? (Double.ofInt i)
  | float x => finiteFloat? x
  | text s => (Double.ofText? s).bind finiteFloat?
  | _ => none

/-- The truth value that a value stands for. -/
def Value.answerBool? : Value → Option Bool
  | bool b => some b
  | int i => some (i != 0)
  | float x => if x.isInfinite then none else some (!x.isZero)
  | _ => none

/-- The value of a scalar in an answer. -/
def Scalar.answer? (s : Scalar) (v : Value) : Option Value :=
  match s with
  | string => v.answerText?.map .text
  | id => v.answerId?.map .text
  | int => (v.answerInt?.filter fitsInt).map .int
  | float => v.answerFloat?
  | boolean => v.answerBool?.map .bool

/-- The value that an enum's member has in answers: a member that is stored as null has its name. -/
def memberKey (entry : String × Value) : Value :=
  if entry.2.isNull then .text entry.1 else entry.2

/-- The name of a value of an enum. -/
def memberName? (enumName : String) (members : Table Value) (v : Value) : Option String :=
  match v with
  | .member other name _ => if other = enumName && Table.has members name then some name else none
  | _ => (List.find? (fun entry => (memberKey entry).same v) members).map Prod.fst

/-- The answer for a result that is a single value. -/
def TypeBody.answer? : TypeBody → Value → Option Value
  | scalar s, v => s.answer? v
  | enum enumName members, v => (memberName? enumName members v).map .text
  | shape _, _ => none

mutual

/-- The answer for a result of a type. -/
def writeAnswer (bodyOf : TypeRef → Option TypeBody) (t : TypeRef) : Value → Except Error Value
  | .null => if t.isOptional then .ok .null else .error .badRequest
  | .list items => match t.item? with
    | some item => do return .list (← writeAnswers bodyOf item items)
    | none => .error .badRequest
  | .object typeName fields =>
    if t.item?.isSome then .error .badRequest
    else match bodyOf t.core with
      | some (.shape shape) => do
        let answers ← writeFields bodyOf shape fields
        if shape.fields.all fun f => Table.has answers f.name then return .record answers
        else throw .badRequest
      | body => requested (body.bind fun body => body.answer? (.object typeName fields))
  | v =>
    if t.item?.isSome then .error .badRequest
    else requested ((bodyOf t.core).bind fun body => body.answer? v)
termination_by structural v => v

/-- The answers for the items of a list. -/
def writeAnswers (bodyOf : TypeRef → Option TypeBody) (item : TypeRef) :
    List Value → Except Error (List Value)
  | [] => .ok []
  | v :: items => do
    return (← writeAnswer bodyOf item v) :: (← writeAnswers bodyOf item items)
termination_by structural items => items

/-- The answers for the fields of an instance that its type has. -/
def writeFields (bodyOf : TypeRef → Option TypeBody) (shape : TypeShape) :
    List (String × Value) → Except Error (List (String × Value))
  | [] => .ok []
  | entry :: fields => do
    return (← writeField bodyOf shape entry) ++ (← writeFields bodyOf shape fields)
termination_by structural fields => fields

def writeField (bodyOf : TypeRef → Option TypeBody) (shape : TypeShape) :
    String × Value → Except Error (List (String × Value))
  | (attr, v) => match shape.fields.find? fun f => f.attr == attr with
    | some f => do return [(f.name, ← writeAnswer bodyOf f.type v)]
    | none => .ok []
termination_by structural entry => entry

end

end DocumentApi
