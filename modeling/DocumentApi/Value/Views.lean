import DocumentApi.Error

/-!
# Values read as other kinds

* `Value.iterate`: the elements of a value that is a sequence.
* `Value.toFields`: the fields of a record, or of a sequence of pairs, the last pair of a name
  winning.
-/

namespace DocumentApi

namespace Value

/-- The elements of a sequence. -/
def iterate (v : Value) : Except Error (List Value) :=
  match v.elements with
  | some items => .ok items
  | none => .error .wrongKind

/-- The elements of a sequence; a value that is not given has none. -/
def iterateGiven (v : Value) : Except Error (List Value) :=
  if v.truthy then v.iterate else .ok []

/-- The name and value of a sequence of two elements. A list or record cannot be a name. -/
def toPair (v : Value) : Except Error (String × Value) :=
  match v.elements with
  | none => .error .wrongKind
  | some [key, w] => match key with
    | list _ => .error .wrongKind
    | record _ => .error .wrongKind
    | _ => .ok (key.display, w)
  | some _ => .error .badValue

/-- The fields of a record or of a sequence of pairs. -/
def toFields (v : Value) : Except Error Fields :=
  match v with
  | record fields => .ok fields
  | _ => do
    let items ← v.iterate
    return Table.ofPairs (← items.mapM toPair)

end Value

end DocumentApi
