import DocumentApi.Value.Equality
import DocumentApi.Value.Views

/-!
# Pages

* `window`: the items from one place to another, places below zero counted from the end.
* `Page.countBefore`: how many items come before a page.
* `Page.build`: a page with its counts. The count of pages is the ceiling of the quotient as a double;
  a limit that is not given makes no pages.
-/

namespace DocumentApi

/-- A place in a list of `n` items, counted from the end when it is negative. -/
def placeIn (n : Nat) (i : Int) : Nat :=
  if i < 0 then (i + n).toNat else min i.toNat n

/-- The items from one place up to another. -/
def window {α : Type u} (items : List α) (start stop : Int) : List α :=
  let first := placeIn items.length start
  let last := placeIn items.length stop
  (items.take last).drop first

/-- Items of a list with its counts. -/
structure Page where
  docs : List Value
  totalDocs : Value
  page : Value
  limit : Value
  totalPages : Int
  hasPrevPage : Bool
  hasNextPage : Bool
deriving Repr, Inhabited

/-- A number as a double, if it is not past the largest one. -/
def Number.toDouble? : Number → Option Double
  | .int i => let x := Double.ofInt i; if x.isInfinite then none else some x
  | .float x => if x.isInfinite then none else some x

/-- The ceiling of a quotient as a double. -/
def Number.quotientCeil? : Number → Number → Option Int
  | .int a, .int b => quotientCeil a b
  | a, b => do
    let x ← a.toDouble?
    let y ← b.toDouble?
    let q := x.div y
    if q.isInfinite then none else some q.ceil

/-- The number before a number. -/
def Number.pred : Number → Number
  | .int i => .int (i - 1)
  | .float x => .float (x.sub (.ofInt 1))

/-- The product of two numbers, a double if one of them is. -/
def Number.times? : Number → Number → Option Number
  | .int a, .int b => some (.int (a * b))
  | a, b => do return .float ((← a.toDouble?).mul (← b.toDouble?))

/-- A number without what follows its point. -/
def Number.truncate : Number → Int
  | .int i => i
  | .float x => x.truncate

namespace Page

/-- The number of items before a page, each page before it being as long as the limit. -/
def countBefore (page limit : Value) : Except Error Number :=
  match page.number?, limit.number? with
  | some p, some l => match p.pred.times? l with
    | some n => .ok n
    | none => .error .tooLarge
  | _, _ => .error .wrongKind

/-- The count of pages. -/
def countPages (total limit : Value) : Except Error Int :=
  if !limit.truthy then .ok 0
  else match total.number?, limit.number? with
    | some a, some b => match a.quotientCeil? b with
      | some n => .ok n
      | none => .error .tooLarge
    | _, _ => .error .wrongKind

/-- Whether a number is past another. -/
def isPast (v w : Value) : Except Error Bool :=
  match v.compare? w with
  | some order => .ok (order == .gt)
  | none => .error .wrongKind

/-- A page with its counts. -/
def build (docs : List Value) (totalDocs page limit : Value) : Except Error Page := do
  let totalPages ← countPages totalDocs limit
  return {
    docs
    totalDocs
    page
    limit
    totalPages
    hasPrevPage := ← isPast page (.int 1)
    hasNextPage := ← isPast (.int totalPages) page }

/-- A page as an answer of a store. -/
def toValue (p : Page) : Value :=
  .object (some "Page") [
    ("docs", .list p.docs),
    ("total_docs", p.totalDocs),
    ("page", p.page),
    ("limit", p.limit),
    ("total_pages", .int p.totalPages),
    ("has_prev_page", .bool p.hasPrevPage),
    ("has_next_page", .bool p.hasNextPage)]

end Page

end DocumentApi
