/-!
# Tables

A table holds entries by name, in the order in which their names came first.

* `Table.set` replaces the entry of a name in its place, or adds one at the end.
* `Table.remove` drops a name; `Table.merge` sets the entries of a second table one after another.
* `Table.ofPairs` reads pairs in order, so that a later pair of one name wins in the earlier place.
-/

namespace DocumentApi

universe u v

/-- Entries by name, in order. -/
abbrev Table (α : Type u) := List (String × α)

namespace Table

variable {α : Type u} {β : Type v}

/-- The entry of a name. -/
def find? : Table α → String → Option α
  | [], _ => none
  | (name, a) :: rest, key => if name = key then some a else find? rest key

def has (t : Table α) (key : String) : Bool :=
  (find? t key).isSome

def names (t : Table α) : List String :=
  t.map Prod.fst

def set : Table α → String → α → Table α
  | [], key, a => [(key, a)]
  | (name, b) :: rest, key, a => if name = key then (name, a) :: rest else (name, b) :: set rest key a

def remove (t : Table α) (key : String) : Table α :=
  t.filter fun entry => entry.1 != key

def merge (t changes : Table α) : Table α :=
  changes.foldl (fun t entry => set t entry.1 entry.2) t

def ofPairs (pairs : List (String × α)) : Table α :=
  merge [] pairs

/-- The table with every entry mapped in place. -/
def mapEntries (f : α → β) (t : Table α) : Table β :=
  t.map fun entry => (entry.1, f entry.2)

theorem has_set (t : Table α) (key other : String) (a : α) :
    has (set t key a) other = (has t other || key == other) := by
  induction t with
  | nil => by_cases h : key = other <;> simp [set, has, find?, h]
  | cons entry t ih =>
    obtain ⟨name, b⟩ := entry
    simp only [has] at ih
    by_cases h : name = key <;> by_cases h' : name = other <;>
      simp_all [set, has, find?]

end Table

/-- A list filtered by a stronger test that fails on a member is shorter. -/
theorem length_filter_lt {α : Type u} {p q : α → Bool} {xs : List α} {x : α}
    (hpq : ∀ y, q y = true → p y = true) (hx : x ∈ xs) (hp : p x = true) (hq : q x = false) :
    (xs.filter q).length < (xs.filter p).length := by
  have hkept : xs.filter q = (xs.filter p).filter q := by
    rw [List.filter_filter]
    refine List.filter_congr fun y _ => ?_
    cases hy : q y with
    | false => rfl
    | true => rw [hpq y hy]; rfl
  rw [hkept]
  exact List.length_filter_lt_length_iff_exists.mpr
    ⟨x, List.mem_filter.mpr ⟨hx, hp⟩, by rw [hq]; exact Bool.false_ne_true⟩

end DocumentApi
