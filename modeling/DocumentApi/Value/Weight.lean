import DocumentApi.Value.Plain
import DocumentApi.Value.Views

/-!
# Weight of values

The weight of a value counts the values that it is made of, null apart.

* `weight_toFields`: the fields of a value weigh less than the value.
* `weight_elements`: the elements of a value weigh no more than the value.
* `weight_plain`: the stored form of a value weighs no more than the value.
-/

namespace DocumentApi

namespace Value

mutual

/-- The count of values, null apart, that a value is made of; every place in it counts too. -/
def weight : Value → Nat
  | null => 0
  | list items => 1 + weightItems items
  | record fields => 1 + weightFields fields
  | bool _ => 1
  | int _ => 1
  | float _ => 1
  | text _ => 1
  | unset => 1
  | member _ _ stored => 1 + weight stored
  | object _ fields => 1 + weightFields fields
  | token _ => 1
  | wildcard => 1
termination_by structural v => v

def weightItems : List Value → Nat
  | [] => 0
  | item :: items => 1 + weight item + weightItems items
termination_by structural items => items

def weightFields : List (String × Value) → Nat
  | [] => 0
  | entry :: fields => 1 + weightEntry entry + weightFields fields
termination_by structural fields => fields

def weightEntry : String × Value → Nat
  | (_, v) => weight v
termination_by structural entry => entry

end

theorem weight_pos {v : Value} (h : v.isNull = false) : 0 < v.weight := by
  cases v with
  | null => cases h
  | list items => exact Nat.lt_add_right _ Nat.one_pos
  | record fields => exact Nat.lt_add_right _ Nat.one_pos
  | member enumName name stored => exact Nat.lt_add_right _ Nat.one_pos
  | object typeName fields => exact Nat.lt_add_right _ Nat.one_pos
  | _ => exact Nat.one_pos

theorem weight_text_le {v : Value} (h : v.isNull = false) (s : String) :
    (text s).weight ≤ v.weight := by
  have := weight_pos h
  simp [weight]; omega

theorem weight_le_weightItems {item : Value} {items : List Value} (h : item ∈ items) :
    item.weight + 1 ≤ weightItems items := by
  induction items with
  | nil => simp at h
  | cons other items ih =>
    rcases List.mem_cons.1 h with rfl | h
    · simp [weightItems]; omega
    · have := ih h
      simp [weightItems]; omega

theorem weight_le_weightFields {entry : String × Value} {fields : List (String × Value)}
    (h : entry ∈ fields) : entry.2.weight + 1 ≤ weightFields fields := by
  induction fields with
  | nil => simp at h
  | cons other fields ih =>
    rcases List.mem_cons.1 h with rfl | h
    · obtain ⟨name, v⟩ := entry
      simp [weightFields, weightEntry]; omega
    · have := ih h
      simp [weightFields]; omega

theorem weight_elements {v : Value} {items : List Value} (h : v.elements = some items) {item : Value}
    (mem : item ∈ items) : item.weight ≤ v.weight := by
  cases v with
  | list items' =>
    simp only [elements, Option.some.injEq] at h
    subst h
    have := weight_le_weightItems mem
    simp [weight]; omega
  | record fields =>
    simp only [elements, Option.some.injEq] at h
    subst h
    obtain ⟨entry, -, rfl⟩ := List.mem_map.1 mem
    simp [weight]
  | text s =>
    simp only [elements, Option.some.injEq] at h
    subst h
    obtain ⟨c, -, rfl⟩ := List.mem_map.1 mem
    simp [weight]
  | _ => simp [elements] at h

end Value

namespace Table

variable {α : Type u}

/-- What holds of the entries of two tables holds of those of the table that they merge to. -/
theorem forall_set {P : α → Prop} {t : Table α} {key : String} {a : α} (ht : ∀ e ∈ t, P e.2)
    (ha : P a) : ∀ e ∈ set t key a, P e.2 := by
  induction t with
  | nil => simpa [set] using ha
  | cons entry t ih =>
    obtain ⟨name, b⟩ := entry
    have := ih fun e h => ht e (List.mem_cons_of_mem _ h)
    have hb := ht (name, b) List.mem_cons_self
    by_cases h : name = key
    · simp only [set, h, if_true]
      intro e he
      rcases List.mem_cons.1 he with rfl | he
      · exact ha
      · exact ht e (List.mem_cons_of_mem _ he)
    · simp only [set, h, if_false]
      intro e he
      rcases List.mem_cons.1 he with rfl | he
      · exact hb
      · exact this e he

theorem forall_merge {P : α → Prop} {t changes : Table α} (ht : ∀ e ∈ t, P e.2)
    (hc : ∀ e ∈ changes, P e.2) : ∀ e ∈ merge t changes, P e.2 := by
  unfold merge
  induction changes generalizing t with
  | nil => simpa using ht
  | cons entry changes ih =>
    exact ih (forall_set ht (hc _ List.mem_cons_self))
      fun e h => hc e (List.mem_cons_of_mem _ h)

theorem forall_remove {P : α → Prop} {t : Table α} {key : String} (ht : ∀ e ∈ t, P e.2) :
    ∀ e ∈ remove t key, P e.2 :=
  fun e h => ht e (List.mem_filter.1 h).1

theorem mem_of_find? {t : Table α} {key : String} {a : α} (h : find? t key = some a) :
    (key, a) ∈ t := by
  induction t with
  | nil => simp [find?] at h
  | cons entry t ih =>
    obtain ⟨name, b⟩ := entry
    by_cases e : name = key
    · simp only [find?, e, if_true, Option.some.injEq] at h
      simp [e, h]
    · simp only [find?, e, if_false] at h
      exact List.mem_cons_of_mem _ (ih h)

end Table

namespace Value

theorem mapM_forall {α β : Type} {f : α → Except Error β} {xs : List α} {ys : List β}
    (h : xs.mapM f = .ok ys) : ∀ y ∈ ys, ∃ x ∈ xs, f x = .ok y := by
  induction xs generalizing ys with
  | nil =>
    simp [List.mapM_nil, Pure.pure, Except.pure] at h
    simp [h]
  | cons x xs ih =>
    rw [List.mapM_cons] at h
    simp only [bind, Except.bind] at h
    split at h
    · simp at h
    rename_i y hy
    split at h
    · simp at h
    rename_i zs hz
    simp only [Pure.pure, Except.pure, Except.ok.injEq] at h
    subst h
    intro w hw
    rcases List.mem_cons.1 hw with rfl | hw
    · exact ⟨x, List.mem_cons_self, hy⟩
    · obtain ⟨x', mem, e⟩ := ih hz w hw
      exact ⟨x', List.mem_cons_of_mem _ mem, e⟩

theorem weight_toPair {v w : Value} {name : String} (h : v.toPair = .ok (name, w)) :
    w.weight ≤ v.weight := by
  unfold toPair at h
  split at h
  · simp at h
  · rename_i key w' found
    have := weight_elements found (show w' ∈ [key, w'] by simp)
    split at h <;> simp at h
    all_goals
      obtain ⟨-, rfl⟩ := h
      exact this
  · simp at h

theorem weight_toFields {v : Value} {fields : Fields} (h : v.toFields = .ok fields) :
    ∀ e ∈ fields, e.2.weight < v.weight := by
  unfold toFields at h
  split at h
  · simp only [Except.ok.injEq] at h
    subst h
    intro e he
    have := weight_le_weightFields he
    simp [weight]; omega
  · rename_i notRecord
    simp only [bind, Except.bind] at h
    split at h
    · simp at h
    rename_i items found
    split at h
    · simp at h
    rename_i pairs read
    simp only [Pure.pure, Except.pure, Except.ok.injEq] at h
    subst h
    refine Table.forall_merge (P := fun w : Value => w.weight < v.weight) (t := []) (by simp) fun e he => ?_
    obtain ⟨item, mem, pair⟩ := mapM_forall read e he
    obtain ⟨name, w⟩ := e
    have le := weight_toPair pair
    unfold iterate at found
    split at found <;> simp at found
    rename_i items' elems
    subst found
    cases v with
    | list items' =>
      simp only [elements, Option.some.injEq] at elems
      subst elems
      have := weight_le_weightItems mem
      simp [weight]; omega
    | text s =>
      simp only [elements, Option.some.injEq] at elems
      subst elems
      obtain ⟨c, -, rfl⟩ := List.mem_map.1 mem
      simp [toPair, elements] at pair
    | record fields => exact absurd rfl (notRecord fields)
    | _ => simp [elements] at elems

mutual

theorem weight_plain : (v : Value) → v.plain.weight ≤ v.weight
  | null => Nat.le_refl _
  | bool _ => Nat.le_refl _
  | int _ => Nat.le_refl _
  | float _ => Nat.le_refl _
  | text _ => Nat.le_refl _
  | unset => Nat.zero_le _
  | token _ => Nat.le_refl _
  | wildcard => Nat.le_refl _
  | member _ _ _ => Nat.le_add_left _ _
  | list items => Nat.add_le_add_left (weightItems_plain items) 1
  | record fields => Nat.add_le_add_left (weightFields_plain fields) 1
  | object _ fields => Nat.add_le_add_left (weightFields_plain fields) 1

theorem weightItems_plain : (items : List Value) → weightItems (plainItems items) ≤ weightItems items
  | [] => Nat.le_refl _
  | item :: items => by
    have := weight_plain item
    have := weightItems_plain items
    simp only [plainItems, weightItems]
    omega

theorem weightFields_plain :
    (fields : List (String × Value)) → weightFields (plainFields fields) ≤ weightFields fields
  | [] => Nat.le_refl _
  | (name, v) :: fields => by
    have := weight_plain v
    have := weightFields_plain fields
    simp only [plainFields, plainEntry]
    split <;> simp only [weightFields, weightEntry] <;> omega

end

end Value

end DocumentApi
