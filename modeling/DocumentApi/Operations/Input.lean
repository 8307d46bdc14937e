import DocumentApi.Model.Registry
import DocumentApi.Store.Sort
import DocumentApi.Value.Weight

/-!
# Inputs of operations

Inputs come as instances of input types or as plain records, and are used as plain records.

* `Value.asFields`: an input as fields; what is not given has none.
* `Value.asFilter`: a filter by the names of its operators.
* `sortDirections`: the fields of a sort order with their directions, nulls left out.
-/

namespace DocumentApi

/-- An input as the fields that it gives. -/
def Value.asFields (v : Value) : Except Error Fields :=
  if v.plain.truthy then v.plain.toFields else .ok []

theorem weight_asFields {v : Value} {fields : Fields} (h : v.asFields = .ok fields) :
    ∀ e ∈ fields, e.2.weight < v.weight := by
  unfold Value.asFields at h
  split at h
  · intro e he
    exact Nat.lt_of_lt_of_le (Value.weight_toFields h e he) (Value.weight_plain v)
  · simp only [Except.ok.injEq] at h
    simp [← h]

/-- The conditions on a field, by the names of operators. -/
def renameOperators (v : Value) : Value :=
  match v with
  | .record conditions =>
    .record (Table.ofPairs (conditions.map fun entry => (operatorName entry.1, entry.2)))
  | _ => v

/-- A filter input as fields, its conditions by the names of operators. -/
def Value.asFilter (v : Value) : Except Error Fields := do
  return Table.mapEntries renameOperators (← v.asFields)

/-- The text of a direction: that of an enum member, or of a record that has a value, is that of the
value. -/
def directionText (v : Value) : String :=
  match v with
  | .member _ _ stored => lowerText stored.display
  | .object _ fields => lowerText ((Table.find? fields "value").getD v).display
  | _ => lowerText v.display

/-- The fields of a sort order with their directions. -/
def sortDirections (sort : Value) : Except Error (List (String × String)) :=
  if !sort.truthy then .ok []
  else match sort with
    | .record fields => .ok (fields.filterMap fun entry =>
        if entry.2.isNull then none else some (entry.1, directionText entry.2))
    | _ => .error .missingPart

/-- The keys of a sort order. -/
def sortKeys (sort : Value) : Except Error (List SortKey) := do
  return (← sortDirections sort).map fun entry => SortKey.ofDirection entry.1 entry.2

end DocumentApi
