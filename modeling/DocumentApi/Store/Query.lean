import DocumentApi.Store.Column

/-!
# Queries

A query is planned before any entry is read.

* `Plan.make`: the column conditions of a filter, the conditions that are left over for the documents,
  and the search. A fault of the filter comes before one of the search.
* `Plan.selects`: whether the columns select an entry.
* `Plan.run`: the selected documents of a collection that meet the conditions left over.
-/

namespace DocumentApi

/-- A text and the fields that are searched for it. -/
structure Search where
  text : String
  fields : List String
deriving DecidableEq, Repr, Inhabited

/-- A search from a pair of a text and field names; an empty text or no fields search nothing. -/
def Search.ofValue (v : Value) : Except Error (Option Search) :=
  if !v.truthy then .ok none
  else match v.elements with
    | none => .error .wrongKind
    | some [text, fields] => do
      let fields ← fields.iterate
      if !text.truthy || fields.isEmpty then return none
      else match text with
        | .text s => return some ⟨s, fields.filterMap Value.asText?⟩
        | _ => throw .missingPart
    | some _ => .error .badValue

/-- Whether a stored value, as a text, contains the text of a search. -/
def Search.finds (s : Search) (v : Value) : Bool :=
  ColumnCondition.cellContains (ColumnKind.text.cast v) (.text s.text)

/-- Whether a search finds its text in one of its fields. -/
def Search.selects (s : Search) (e : Entry) : Bool :=
  s.fields.any fun key => s.finds (Fields.get e.fields key)

/-- A planned query. -/
structure Plan where
  columns : List ColumnCondition
  leftover : List Condition
  search : Option Search
deriving Repr, Inhabited

namespace Plan

/-- Sorts named conditions into column conditions and those left over, in order. -/
def sortOut : List NamedCondition → Except Error (List ColumnCondition × List Condition)
  | [] => .ok ([], [])
  | c :: rest => do
    let c ← Condition.read c
    let column? ← c.toColumn
    let (columns, leftover) ← sortOut rest
    match column? with
    | some column => return (column :: columns, leftover)
    | none => return (columns, c :: leftover)

/-- The plan of a filter and a search. -/
def make (filter search : Value) : Except Error Plan := do
  let (columns, leftover) ← sortOut (← namedConditions filter)
  return ⟨columns, leftover, ← Search.ofValue search⟩

/-- Whether the columns of an entry are selected. -/
def selects (p : Plan) (e : Entry) : Bool :=
  p.columns.all (·.holds e) && match p.search with
    | some search => search.selects e
    | none => true

/-- The entries of a collection that the columns select. -/
def selected (p : Plan) (collection : String) (entries : List Entry) : List Entry :=
  entries.filter fun e => e.collection == collection && p.selects e

/-- The documents that meet the conditions left over, in order. -/
def keepMatching (leftover : List Condition) : List Fields → Except Error (List Fields)
  | [] => .ok []
  | doc :: rest => do
    let kept ← Condition.allMatch doc leftover
    let docs ← keepMatching leftover rest
    return if kept then doc :: docs else docs

/-- The documents of a collection that a plan answers. -/
def run (p : Plan) (collection : String) (entries : List Entry) : Except Error (List Fields) :=
  keepMatching p.leftover ((p.selected collection entries).map Entry.document)

end Plan

end DocumentApi
