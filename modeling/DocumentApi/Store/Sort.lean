import DocumentApi.Store.Condition

/-!
# Sorting documents

* `compareCells`: null comes before every other value; other values must have an order.
* `sortDocuments`: documents sorted by keys, the first key the most significant. Documents that are
  equal on all keys keep their order, also when a key is descending.
-/

namespace DocumentApi

/-- A field to sort by. -/
structure SortKey where
  field : String
  descending : Bool
deriving DecidableEq, Repr, Inhabited

namespace SortKey

/-- A key from a field and the text of a direction; all but `desc`, in any case, is ascending. -/
def ofDirection (field direction : String) : SortKey :=
  ⟨field, lowerText direction == "desc"⟩

/-- A key from a pair of a field and a direction. -/
def ofValue (v : Value) : Except Error SortKey :=
  match v.elements with
  | none => .error .wrongKind
  | some [field, direction] => .ok (ofDirection field.display direction.display)
  | some _ => .error .badValue

/-- The keys of a list of pairs. -/
def readAll (v : Value) : Except Error (List SortKey) := do
  let keys ← (← v.iterate).reverse.mapM ofValue
  return keys.reverse

end SortKey

/-- The order of two values to sort by. -/
def compareCells (v w : Value) : Option Ordering :=
  if v.isNull then some (if w.isNull then .eq else .lt)
  else if w.isNull then some .gt
  else if v.same w then some .eq
  else v.compare? w

/-- Whether every two documents have an order on a field. -/
def allComparable (field : String) : List Fields → Bool
  | [] => true
  | doc :: rest =>
    rest.all (fun other =>
      (compareCells (Fields.get doc field) (Fields.get other field)).isSome) &&
      allComparable field rest

/-- Whether a document comes no later than another on a key. -/
def notAfter (key : SortKey) (a b : Fields) : Bool :=
  let order := compareCells (Fields.get a key.field) (Fields.get b key.field)
  if key.descending then order != some .lt else order != some .gt

/-- Documents sorted by one key. -/
def sortByKey (docs : List Fields) (key : SortKey) : Except Error (List Fields) :=
  if allComparable key.field docs then .ok (docs.mergeSort (notAfter key)) else .error .wrongKind

/-- Documents sorted by keys, the last one first. -/
def sortDocuments (docs : List Fields) (keys : List SortKey) : Except Error (List Fields) :=
  keys.reverse.foldlM sortByKey docs

/-- Documents sorted by a list of pairs of a field and a direction, each pair read when its turn
comes. -/
def sortByPairs (docs : List Fields) (pairs : Value) : Except Error (List Fields) := do
  (← pairs.iterate).reverse.foldlM (fun docs pair => do sortByKey docs (← SortKey.ofValue pair)) docs

end DocumentApi
