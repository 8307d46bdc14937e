import DocumentApi.Proofs.Number.Exact
import DocumentApi.Proofs.Tables
import DocumentApi.Value.Weight
import Mathlib.Data.List.Perm.Subperm

/-!
# Equality of values

Two values are equal if they mean the same: numbers by their value, whatever their kind, and records
by the values under their names, whatever the order.

* `Value.IsData`: the values that documents are made of.
* `Value.meaning`: what a value is up to equality.
* `Value.same_iff`: values are equal exactly if their meanings are.
-/

namespace DocumentApi

/-- What a value is up to equality. -/
inductive Meaning where
  | null
  | number (value : ℚ)
  | text (s : String)
  | list (items : List Meaning)
  | record (entry : String → Option Meaning)
  | unset
  | member (enumName name : String)
  | object (typeName : Option String) (entry : String → Option Meaning)
  | token (label : String)
  | wildcard

namespace Value

/-- JSON in which every record names each of its fields once. -/
inductive IsData : Value → Prop
  | null : IsData .null
  | bool (b : Bool) : IsData (.bool b)
  | int (i : Int) : IsData (.int i)
  | float (x : Double) : IsData (.float x)
  | text (s : String) : IsData (.text s)
  | list {items : List Value} (h : ∀ v ∈ items, IsData v) : IsData (.list items)
  | record {fields : Fields} (hnames : (Table.names fields).Nodup)
      (h : ∀ name v, (name, v) ∈ fields → IsData v) : IsData (.record fields)

attribute [simp] IsData.null IsData.bool IsData.int IsData.float IsData.text

@[simp] theorem isData_list_iff {items : List Value} :
    IsData (.list items) ↔ ∀ v ∈ items, IsData v :=
  ⟨fun | .list h => h, .list⟩

@[simp] theorem isData_record_iff {fields : Fields} : IsData (.record fields) ↔
    (Table.names fields).Nodup ∧ ∀ entry ∈ fields, IsData entry.2 :=
  ⟨fun | .record hnames h => ⟨hnames, fun entry => h entry.1 entry.2⟩,
    fun ⟨hnames, h⟩ => .record hnames fun name v => h (name, v)⟩

mutual

/-- The meaning of a value; a boolean means one or zero. -/
def meaning : Value → Meaning
  | null => .null
  | bool b => .number (if b then 1 else 0)
  | int i => .number i
  | float x => .number x.toRat
  | text s => .text s
  | list items => .list (meanings items)
  | record fields => .record (entryMeaning fields)
  | unset => .unset
  | member enumName name _ => .member enumName name
  | object typeName fields => .object typeName (entryMeaning fields)
  | token label => .token label
  | wildcard => .wildcard
termination_by structural v => v

def meanings : List Value → List Meaning
  | [] => []
  | item :: items => meaning item :: meanings items
termination_by structural items => items

/-- The meaning of the entry of a name. -/
def entryMeaning : List (String × Value) → String → Option Meaning
  | [], _ => none
  | entry :: fields, key =>
    if entry.1 = key then some (pairMeaning entry) else entryMeaning fields key
termination_by structural fields => fields

def pairMeaning : String × Value → Meaning
  | (_, v) => meaning v
termination_by structural entry => entry

end

theorem meanings_eq_map (items : List Value) : meanings items = items.map meaning := by
  induction items with
  | nil => rfl
  | cons item items ih => rw [meanings, ih, List.map_cons]

theorem entryMeaning_eq (fields : Fields) (key : String) :
    entryMeaning fields key = (Table.find? fields key).map meaning := by
  induction fields with
  | nil => rfl
  | cons entry fields ih =>
    obtain ⟨name, v⟩ := entry
    rw [entryMeaning, Table.find?_cons, ih]
    split <;> rfl

/-! ## Numbers, lists and records -/

variable {v w : Value}

theorem meaning_of_number {x : Number} (hv : v.number? = some x) :
    v.meaning = .number x.toRat := by
  cases v with
  | bool b =>
    cases hv
    cases b <;> simp [meaning, Number.toRat]
  | int i | float y =>
    cases hv
    rfl
  | _ => cases hv

/-- A number equals the numbers of its value and nothing else. -/
theorem same_iff_of_number {x : Number} (hv : v.number? = some x) :
    v.same w = true ↔ v.meaning = w.meaning := by
  cases hw : w.number? with
  | some y =>
    rw [same_of_number hv hw, beq_iff_eq, compare_eq_iff_eq, meaning_of_number hv,
      meaning_of_number hw, Meaning.number.injEq]
  | none =>
    have hsame : v.same w = false := by
      cases v with
      | bool | int | float => simp [same, sameNumber, hw]
      | _ => cases hv
    rw [hsame, meaning_of_number hv]
    cases w with
    | bool | int | float => cases hw
    | _ => simp [meaning]

theorem sameItems_iff {items : List Value} :
    ∀ {others : List Value}, (∀ v ∈ items, ∀ w ∈ others, v.same w = true ↔ v.meaning = w.meaning) →
      (sameItems items others = true ↔ items.map meaning = others.map meaning) := by
  induction items with
  | nil =>
    intro others _
    cases others <;> simp [sameItems]
  | cons item items ih =>
    intro others h
    cases others with
    | nil => simp [sameItems]
    | cons other others =>
      rw [sameItems, Bool.and_eq_true, List.map_cons, List.map_cons, List.cons.injEq,
        h item List.mem_cons_self other List.mem_cons_self,
        ih fun v hv w hw => h v (List.mem_cons_of_mem _ hv) w (List.mem_cons_of_mem _ hw)]

theorem sameFields_iff {fields others : Fields} : sameFields fields others = true ↔
    ∀ entry ∈ fields, ∃ w, Table.find? others entry.1 = some w ∧ entry.2.same w = true := by
  induction fields with
  | nil => simp [sameFields]
  | cons entry fields ih =>
    obtain ⟨name, v⟩ := entry
    rw [sameFields, Bool.and_eq_true, ih, List.forall_mem_cons]
    refine and_congr ?_ Iff.rfl
    unfold sameEntry
    cases Table.find? others name <;> simp

/-- Tables of one length, the names of one distinct and all in the other, have the same names. -/
theorem names_perm {fields others : Fields} (hnames : (Table.names fields).Nodup)
    (hlength : fields.length = others.length)
    (hsub : Table.names fields ⊆ Table.names others) :
    (Table.names fields).Perm (Table.names others) := by
  refine (List.subperm_of_subset hnames hsub).perm_of_length_le ?_
  unfold Table.names
  rw [List.length_map, List.length_map, hlength]

theorem entryMeaning_eq_none_iff {fields : Fields} {key : String} :
    entryMeaning fields key = none ↔ key ∉ Table.names fields := by
  rw [entryMeaning_eq, Option.map_eq_none_iff, Table.find?_eq_none_iff]

theorem sameRecord_iff {fields others : Fields} (hnames : (Table.names fields).Nodup)
    (hnames' : (Table.names others).Nodup)
    (h : ∀ name v, (name, v) ∈ fields → ∀ name' w, (name', w) ∈ others →
      (v.same w = true ↔ v.meaning = w.meaning)) :
    (fields.length == others.length && sameFields fields others) = true ↔
      entryMeaning fields = entryMeaning others := by
  rw [Bool.and_eq_true, beq_iff_eq, sameFields_iff]
  constructor
  · rintro ⟨hlength, hsame⟩
    have hsub : Table.names fields ⊆ Table.names others := by
      intro key hkey
      obtain ⟨entry, hentry, rfl⟩ := List.mem_map.mp hkey
      obtain ⟨w, hw, -⟩ := hsame entry hentry
      exact List.mem_map.mpr ⟨(entry.1, w), Table.mem_of_find? hw, rfl⟩
    have hperm := names_perm hnames hlength hsub
    funext key
    by_cases hkey : key ∈ Table.names fields
    · obtain ⟨⟨name, v⟩, hentry, rfl⟩ := List.mem_map.mp hkey
      obtain ⟨w, hw, hvw⟩ := hsame _ hentry
      have hmeaning := (h name v hentry name w (Table.mem_of_find? hw)).mp hvw
      rw [entryMeaning_eq, entryMeaning_eq, hw, Table.find?_of_mem hnames hentry]
      exact congrArg some hmeaning
    · rw [entryMeaning_eq_none_iff.mpr hkey,
        entryMeaning_eq_none_iff.mpr fun hother => hkey (hperm.mem_iff.mpr hother)]
  · intro hmeaning
    have hmem : ∀ key, key ∈ Table.names fields ↔ key ∈ Table.names others := by
      intro key
      rw [← not_iff_not, ← entryMeaning_eq_none_iff, ← entryMeaning_eq_none_iff, hmeaning]
    have hperm := (List.perm_ext_iff_of_nodup hnames hnames').mpr hmem
    refine ⟨by simpa [Table.names] using hperm.length_eq, fun entry hentry => ?_⟩
    obtain ⟨w, hw⟩ := Table.exists_find?_of_mem ((hmem entry.1).mp (List.mem_map_of_mem hentry))
    refine ⟨w, hw, (h entry.1 entry.2 hentry entry.1 w (Table.mem_of_find? hw)).mpr ?_⟩
    have hentries := congrFun hmeaning entry.1
    rw [entryMeaning_eq, entryMeaning_eq, hw, Table.find?_of_mem hnames hentry] at hentries
    exact Option.some.inj hentries

/-! ## Equality by meaning -/

/-- Values of documents are equal exactly if they mean the same. -/
theorem same_iff (hv : v.IsData) (hw : w.IsData) : v.same w = true ↔ v.meaning = w.meaning := by
  induction hv generalizing w with
  | null => cases hw <;> simp [same, meaning, isNull]
  | bool | int | float => exact same_iff_of_number rfl
  | text s => cases hw <;> simp [same, meaning]
  | list h ih =>
    cases hw with
    | list hw =>
      rw [same, sameItems_iff fun v hv w hother => ih v hv (hw w hother), meaning, meaning,
        meanings_eq_map, meanings_eq_map, Meaning.list.injEq]
    | _ => simp [same, meaning]
  | record hnames h ih =>
    cases hw with
    | record hnames' hw =>
      rw [same, sameRecord_iff hnames hnames' fun name v hv name' w hother =>
        ih name v hv (hw name' w hother), meaning, meaning, Meaning.record.injEq]
    | _ => simp [same, meaning]

/-- A list holds an equal value exactly if the meaning of one of its items is that of the value. -/
theorem memberOf_iff {items : List Value} (hv : v.IsData) (hitems : ∀ w ∈ items, w.IsData) :
    v.memberOf items = true ↔ v.meaning ∈ items.map meaning := by
  unfold memberOf
  rw [List.any_eq_true, List.mem_map]
  refine exists_congr fun w => and_congr_right fun hw => ?_
  rw [same_iff hv (hitems w hw), eq_comm]

/-- Two lists have equal values, up to the order of the lists. -/
def SameUpToOrder (items others : List Value) : Prop :=
  ∃ reordered : List Value, reordered.Perm items ∧ sameItems reordered others = true

/-- Lists of the same meanings have equal values up to order. -/
theorem sameUpToOrder_of_perm {items others : List Value} (hitems : ∀ v ∈ items, v.IsData)
    (hothers : ∀ v ∈ others, v.IsData)
    (h : (items.map meaning).Perm (others.map meaning)) : SameUpToOrder items others := by
  have hmeanings : List.Forall₂ (fun m v => m = v.meaning) (items.map meaning) items :=
    List.forall₂_map_left_iff.mpr (List.forall₂_same.mpr fun _ _ => rfl)
  obtain ⟨reordered, hreordered, hperm⟩ := List.perm_comp_forall₂ h.symm hmeanings
  refine ⟨reordered, hperm, (sameItems_iff fun v hv w hw => ?_).mpr ?_⟩
  · exact same_iff (hitems v (hperm.mem_iff.mp hv)) (hothers w hw)
  · have hsame : List.Forall₂ (· = ·) (others.map meaning) (reordered.map meaning) :=
      List.forall₂_map_right_iff.mpr hreordered
    rw [List.forall₂_eq_eq_eq] at hsame
    exact hsame.symm

end Value

end DocumentApi
