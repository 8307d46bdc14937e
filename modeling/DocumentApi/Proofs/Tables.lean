import DocumentApi.Value.Basic

/-!
# Look-ups in tables

What `Table.find?` answers after each operation on a table, how changes of a table that are made one
after another are made at once, and `Fields.get` for tables of values.
-/

namespace DocumentApi

namespace Table

variable {α β : Type} {t u : Table α} {key other : String} {a : α}

@[simp] theorem find?_nil (key : String) : find? ([] : Table α) key = none := rfl

theorem find?_cons (entry : String × α) (t : Table α) (key : String) :
    find? (entry :: t) key = if entry.1 = key then some entry.2 else find? t key := rfl

theorem find?_append (t u : Table α) (key : String) :
    find? (t ++ u) key = (find? t key <|> find? u key) := by
  induction t with
  | nil => rfl
  | cons entry t ih =>
    rw [List.cons_append, find?_cons, find?_cons, ih]
    split <;> rfl

theorem find?_append_of_some (h : find? t key = some a) : find? (t ++ u) key = some a := by
  rw [find?_append, h]
  rfl

theorem find?_set (t : Table α) (key other : String) (a : α) :
    find? (set t key a) other = if key = other then some a else find? t other := by
  induction t with
  | nil => rfl
  | cons entry t ih =>
    obtain ⟨name, b⟩ := entry
    unfold set
    by_cases h : name = key
    · subst h
      rw [if_pos rfl, find?_cons, find?_cons]
      by_cases h' : name = other <;> simp [h']
    · rw [if_neg h, find?_cons, find?_cons, ih]
      by_cases h' : name = other
      · subst h'
        rw [if_pos rfl, if_neg (Ne.symm h), if_pos rfl]
      · rw [if_neg h', if_neg h']

@[simp] theorem find?_set_self (t : Table α) (key : String) (a : α) :
    find? (set t key a) key = some a := by
  rw [find?_set, if_pos rfl]

theorem find?_set_ne (h : key ≠ other) : find? (set t key a) other = find? t other := by
  rw [find?_set, if_neg h]

/-- A name that a table does not have is set in what comes behind it. -/
theorem set_append_of_none (h : find? t key = none) (u : Table α) (a : α) :
    set (t ++ u) key a = t ++ set u key a := by
  induction t with
  | nil => rfl
  | cons entry t ih =>
    rw [find?_cons] at h
    by_cases hname : entry.1 = key
    · simp [hname] at h
    · rw [if_neg hname] at h
      rw [List.cons_append, List.cons_append, ← ih h]
      exact if_neg hname

theorem mem_set {entry : String × α} (h : entry ∈ set t key a) : entry ∈ t ∨ entry = (key, a) := by
  induction t with
  | nil => exact Or.inr (List.mem_singleton.mp h)
  | cons first t ih =>
    unfold set at h
    split at h
    · rename_i hname
      rcases List.mem_cons.mp h with rfl | h
      · exact Or.inr (by rw [hname])
      · exact Or.inl (List.mem_cons_of_mem _ h)
    · rcases List.mem_cons.mp h with rfl | h
      · exact Or.inl List.mem_cons_self
      · exact (ih h).imp (List.mem_cons_of_mem _) id

theorem nodup_names_set (h : (names t).Nodup) : (names (set t key a)).Nodup := by
  induction t with
  | nil => simp [set, names]
  | cons first t ih =>
    obtain ⟨hfirst, hrest⟩ := List.nodup_cons.mp h
    unfold set
    split
    · exact h
    · rename_i hname
      refine List.nodup_cons.mpr ⟨fun hmem => ?_, ih hrest⟩
      obtain ⟨entry, hentry, hsame⟩ := List.mem_map.mp hmem
      rcases mem_set hentry with hentry | rfl
      · exact hfirst (List.mem_map.mpr ⟨entry, hentry, hsame⟩)
      · exact hname hsame.symm

/-- A set entry keeps the names and their order, as far as its own was there. -/
theorem names_set_of_mem (h : key ∈ names t) : names (set t key a) = names t := by
  induction t with
  | nil => cases h
  | cons first t ih =>
    unfold set
    split
    · rfl
    · rename_i hname
      refine congrArg (first.1 :: ·) (ih ?_)
      exact (List.mem_cons.mp h).resolve_left (Ne.symm hname)

theorem names_set_congr (h : names t = names u) (key : String) (a b : α) :
    names (set t key a) = names (set u key b) := by
  induction t generalizing u with
  | nil =>
    cases u with
    | nil => rfl
    | cons entry u => cases h
  | cons entry t ih =>
    cases u with
    | nil => cases h
    | cons entry' u =>
      obtain ⟨name, c⟩ := entry
      obtain ⟨name', c'⟩ := entry'
      obtain ⟨rfl, htail⟩ := List.cons.inj h
      unfold set
      split
      · exact congrArg (name :: ·) htail
      · exact congrArg (name :: ·) (ih htail)

theorem find?_eq_none_iff : find? t key = none ↔ key ∉ names t := by
  induction t with
  | nil => simp [names]
  | cons entry t ih =>
    rw [find?_cons]
    unfold names at ih ⊢
    rw [List.map_cons, List.mem_cons]
    by_cases h : entry.1 = key
    · simp [h]
    · rw [if_neg h, ih]
      simp [Ne.symm h]

/-- Names at the same places lead to entries, or not, in both tables. -/
theorem find?_isSome_congr {u : Table β} (h : names t = names u) (key : String) :
    (find? t key).isSome = (find? u key).isSome := by
  rw [Bool.eq_iff_iff, Option.isSome_iff_ne_none, Option.isSome_iff_ne_none, Ne, Ne,
    find?_eq_none_iff, find?_eq_none_iff, h]

theorem exists_find?_of_mem (h : key ∈ names t) : ∃ a, find? t key = some a := by
  induction t with
  | nil => cases h
  | cons first t ih =>
    rw [find?_cons]
    by_cases hname : first.1 = key
    · exact ⟨first.2, if_pos hname⟩
    · rw [if_neg hname]
      exact ih ((List.mem_cons.mp h).resolve_left (Ne.symm hname))

/-- Among names that differ, an entry is the one of its name. -/
theorem find?_of_mem (h : (names t).Nodup) {entry : String × α} (hentry : entry ∈ t) :
    find? t entry.1 = some entry.2 := by
  induction t with
  | nil => cases hentry
  | cons first t ih =>
    obtain ⟨hfirst, hrest⟩ := List.nodup_cons.mp h
    rw [find?_cons]
    rcases List.mem_cons.mp hentry with rfl | hentry
    · rw [if_pos rfl]
    · rw [if_neg fun hname => hfirst (List.mem_map.mpr ⟨entry, hentry, hname.symm⟩), ih hrest hentry]

theorem find?_remove (t : Table α) (key other : String) :
    find? (remove t key) other = if key = other then none else find? t other := by
  induction t with
  | nil => by_cases h : key = other <;> simp [remove, h]
  | cons entry t ih =>
    obtain ⟨name, b⟩ := entry
    unfold remove at ih ⊢
    by_cases h : name = key
    · subst h
      rw [List.filter_cons_of_neg (by simp), ih, find?_cons]
      by_cases h' : name = other <;> simp [h']
    · rw [List.filter_cons_of_pos (by simpa using h), find?_cons, find?_cons, ih]
      by_cases h' : name = other
      · subst h'
        rw [if_pos rfl, if_neg (Ne.symm h), if_pos rfl]
      · rw [if_neg h', if_neg h']

theorem merge_cons (t : Table α) (entry : String × α) (changes : Table α) :
    merge t (entry :: changes) = merge (set t entry.1 entry.2) changes := rfl

theorem set_eq_merge (t : Table α) (key : String) (a : α) : set t key a = merge t [(key, a)] := rfl

/-- The last change of a name wins over the entry that was there. -/
theorem find?_merge (t changes : Table α) (key : String) :
    find? (merge t changes) key = (find? changes.reverse key <|> find? t key) := by
  induction changes generalizing t with
  | nil => rfl
  | cons entry changes ih =>
    rw [merge_cons, ih, find?_set, List.reverse_cons, find?_append, find?_cons]
    cases find? changes.reverse key with
    | some a => rfl
    | none =>
      by_cases h : entry.1 = key <;> simp [h]

theorem names_merge_congr (h : names t = names u) (changes : Table α) :
    names (merge t changes) = names (merge u changes) := by
  induction changes generalizing t u with
  | nil => exact h
  | cons entry changes ih => exact ih (names_set_congr h _ _ _)

theorem find?_remove_ne (h : key ≠ other) : find? (remove t key) other = find? t other := by
  rw [find?_remove, if_neg h]

/-! ## Changes over changes -/

variable {c : Table α}

/-- A value that is there already. -/
theorem set_of_find? (h : find? t key = some a) : set t key a = t := by
  induction t with
  | nil => cases h
  | cons entry t ih =>
    obtain ⟨name, b⟩ := entry
    rw [find?_cons] at h
    unfold set
    by_cases hname : name = key
    · rw [if_pos hname] at h ⊢
      cases h
      rfl
    · rw [if_neg hname] at h ⊢
      rw [ih h]

theorem set_cons (name : String) (b : α) (t : Table α) (key : String) (a : α) :
    set ((name, b) :: t) key a =
      if name = key then (name, a) :: t else (name, b) :: set t key a := rfl

theorem set_set_self (t : Table α) (key : String) (a b : α) :
    set (set t key a) key b = set t key b := by
  induction t with
  | nil => simp [set]
  | cons entry t ih =>
    obtain ⟨name, v⟩ := entry
    by_cases hname : name = key <;> simp [set, hname, ih]

/-- An entry that is there keeps its place when another one is set. -/
theorem set_comm_of_mem (h : key ∈ names t) (hne : key ≠ other) (a b : α) :
    set (set t other b) key a = set (set t key a) other b := by
  induction t with
  | nil => cases h
  | cons entry t ih =>
    obtain ⟨name, v⟩ := entry
    by_cases hkey : name = key
    · subst hkey
      simp [set, hne]
    · have hmem : key ∈ names t := (List.mem_cons.mp h).resolve_left (Ne.symm hkey)
      by_cases hother : name = other
      · subst hother
        simp [set, hkey]
      · simp [set, hkey, hother, ih hmem]

theorem mem_names_set {b : α} : key ∈ names (set t other b) ↔ other = key ∨ key ∈ names t := by
  rw [← Decidable.not_iff_not, ← find?_eq_none_iff, find?_set]
  by_cases h : other = key <;> simp [h, find?_eq_none_iff]

theorem set_merge_of_mem (h : key ∈ names t) (hc : key ∉ names c) (a : α) :
    set (merge t c) key a = merge (set t key a) c := by
  induction c generalizing t with
  | nil => rfl
  | cons entry c ih =>
    obtain ⟨hne, hrest⟩ := List.ne_and_not_mem_of_not_mem_cons hc
    rw [merge_cons, merge_cons, ih (mem_names_set.mpr (Or.inr h)) hrest, set_comm_of_mem h hne]

theorem merge_set (t : Table α) (hc : (names c).Nodup) (key : String) (a : α) :
    merge t (set c key a) = set (merge t c) key a := by
  induction c generalizing t with
  | nil => rfl
  | cons entry c ih =>
    obtain ⟨name, b⟩ := entry
    obtain ⟨hnew, hc⟩ := List.nodup_cons.mp hc
    rw [set_cons, merge_cons]
    by_cases hname : name = key
    · subst hname
      rw [if_pos rfl, merge_cons,
        set_merge_of_mem (mem_names_set.mpr (Or.inl rfl)) hnew, set_set_self]
    · rw [if_neg hname, merge_cons, ih _ hc]

/-- Changes one after another are the changes that the later ones were made to. -/
theorem merge_merge (t : Table α) (hc : (names c).Nodup) (d : Table α) :
    merge t (merge c d) = merge (merge t c) d := by
  induction d generalizing c with
  | nil => rfl
  | cons entry d ih => rw [merge_cons, merge_cons, ih (nodup_names_set hc), merge_set t hc]

theorem remove_set_self (t : Table α) (key : String) (a : α) :
    remove (set t key a) key = remove t key := by
  induction t with
  | nil => simp [set, remove]
  | cons entry t ih =>
    obtain ⟨name, v⟩ := entry
    unfold remove at ih ⊢
    by_cases hname : name = key <;> simp [set, hname, ih]

theorem remove_set_ne (h : other ≠ key) (t : Table α) (a : α) :
    remove (set t other a) key = set (remove t key) other a := by
  induction t with
  | nil => simp [set, remove, h]
  | cons entry t ih =>
    obtain ⟨name, v⟩ := entry
    unfold remove at ih ⊢
    rw [set_cons]
    by_cases hother : name = other
    · subst hother
      simp [set, h]
    · rw [if_neg hother, List.filter_cons, List.filter_cons, ih]
      by_cases hname : name = key <;> simp [set, hother, hname]

theorem remove_merge (t c : Table α) (key : String) :
    remove (merge t c) key = merge (remove t key) (remove c key) := by
  induction c generalizing t with
  | nil => rfl
  | cons entry c ih =>
    obtain ⟨name, a⟩ := entry
    rw [merge_cons, ih]
    by_cases hname : name = key
    · subst hname
      rw [remove_set_self]
      simp [remove]
    · rw [remove_set_ne hname]
      simp [remove, hname, merge_cons]

theorem mem_merge {entry : String × α} (h : entry ∈ merge t c) : entry ∈ t ∨ entry ∈ c := by
  induction c generalizing t with
  | nil => exact Or.inl h
  | cons change c ih =>
    rcases ih h with h | h
    · rcases mem_set h with h | rfl
      · exact Or.inl h
      · exact Or.inr List.mem_cons_self
    · exact Or.inr (List.mem_cons_of_mem _ h)

theorem remove_eq_self (h : key ∉ names t) : remove t key = t := by
  refine List.filter_eq_self.mpr fun entry hentry => ?_
  rw [bne_iff_ne]
  rintro rfl
  exact h (List.mem_map_of_mem hentry)

theorem nodup_names_remove (h : (names t).Nodup) (key : String) : (names (remove t key)).Nodup :=
  h.sublist (List.filter_sublist.map _)

/-- Among changes of distinct names the order does not matter. -/
theorem find?_merge_of_nodup (hc : (names c).Nodup) (t : Table α) (key : String) :
    find? (merge t c) key = (find? c key <|> find? t key) := by
  induction c generalizing t with
  | nil => rfl
  | cons entry c ih =>
    obtain ⟨name, a⟩ := entry
    obtain ⟨hnew, hc⟩ := List.nodup_cons.mp hc
    rw [merge_cons, ih hc, find?_set, find?_cons]
    by_cases hname : name = key
    · subst hname
      rw [if_pos rfl, if_pos rfl, find?_eq_none_iff.mpr hnew]
      rfl
    · rw [if_neg hname, if_neg hname]

end Table

namespace Fields

variable {fields : Fields} {key other : String} {v : Value}

theorem get_set (fields : Fields) (key other : String) (v : Value) :
    get (Table.set fields key v) other = if key = other then v else get fields other := by
  unfold get
  rw [Table.find?_set]
  split <;> rfl

@[simp] theorem get_set_self (fields : Fields) (key : String) (v : Value) :
    get (Table.set fields key v) key = v := by
  rw [get_set, if_pos rfl]

theorem get_set_ne (h : key ≠ other) : get (Table.set fields key v) other = get fields other := by
  rw [get_set, if_neg h]

theorem get_remove_ne (h : key ≠ other) :
    get (Table.remove fields key) other = get fields other := by
  unfold get
  rw [Table.find?_remove_ne h]

theorem get_of_find? (h : Table.find? fields key = some v) : get fields key = v := by
  unfold get
  rw [h]
  rfl

end Fields

end DocumentApi
