import DocumentApi.Operations.Input
import DocumentApi.Proofs.Types.Values
import DocumentApi.Proofs.Value.Equality

/-!
# Stored forms of inputs

What is stored of an input at each place in it.

* `Value.IsInput`, `Value.IsPlain`: the values that inputs are made of, and those that are stored.
* `Value.at?`: the value at a path of items and fields.
* `Value.child?_plain`: one step of a path into a stored form. By it a path leads to something
  exactly if it does so in the input and not to a field that was left out
  (`Value.at?_plain_eq_none_iff`), and then to the stored form of what is there in the input
  (`Value.at?_plain`).
* `Value.plain_input`: what becomes of inputs of any depth.
-/

namespace DocumentApi

namespace Value

/-- The values that inputs are made of: members of enums are stored as data, and records and
instances name each of their fields once. -/
inductive IsInput : Value → Prop
  | null : IsInput .null
  | bool (b : Bool) : IsInput (.bool b)
  | int (i : Int) : IsInput (.int i)
  | float (x : Double) : IsInput (.float x)
  | text (s : String) : IsInput (.text s)
  | unset : IsInput .unset
  | token (label : String) : IsInput (.token label)
  | wildcard : IsInput .wildcard
  | member (enumName name : String) {stored : Value} (h : stored.IsData) :
      IsInput (.member enumName name stored)
  | list {items : List Value} (h : ∀ v ∈ items, IsInput v) : IsInput (.list items)
  | record {fields : Fields} (hnames : (Table.names fields).Nodup)
      (h : ∀ name v, (name, v) ∈ fields → IsInput v) : IsInput (.record fields)
  | object (typeName : Option String) {fields : Fields} (hnames : (Table.names fields).Nodup)
      (h : ∀ name v, (name, v) ∈ fields → IsInput v) : IsInput (.object typeName fields)

attribute [simp] IsInput.null IsInput.bool IsInput.int IsInput.float IsInput.text IsInput.unset
  IsInput.token IsInput.wildcard

@[simp] theorem isInput_member_iff {enumName name : String} {stored : Value} :
    IsInput (.member enumName name stored) ↔ stored.IsData :=
  ⟨fun | .member _ _ h => h, .member enumName name⟩

@[simp] theorem isInput_list_iff {items : List Value} :
    IsInput (.list items) ↔ ∀ v ∈ items, IsInput v :=
  ⟨fun | .list h => h, .list⟩

@[simp] theorem isInput_record_iff {fields : Fields} : IsInput (.record fields) ↔
    (Table.names fields).Nodup ∧ ∀ entry ∈ fields, IsInput entry.2 :=
  ⟨fun | .record hnames h => ⟨hnames, fun entry => h entry.1 entry.2⟩,
    fun ⟨hnames, h⟩ => .record hnames fun name v => h (name, v)⟩

@[simp] theorem isInput_object_iff {typeName : Option String} {fields : Fields} :
    IsInput (.object typeName fields) ↔
      (Table.names fields).Nodup ∧ ∀ entry ∈ fields, IsInput entry.2 :=
  ⟨fun | .object _ hnames h => ⟨hnames, fun entry => h entry.1 entry.2⟩,
    fun ⟨hnames, h⟩ => .object typeName hnames fun name v => h (name, v)⟩

/-- Values without anything left out, a member of an enum or an instance in them. -/
inductive IsPlain : Value → Prop
  | null : IsPlain .null
  | bool (b : Bool) : IsPlain (.bool b)
  | int (i : Int) : IsPlain (.int i)
  | float (x : Double) : IsPlain (.float x)
  | text (s : String) : IsPlain (.text s)
  | token (label : String) : IsPlain (.token label)
  | wildcard : IsPlain .wildcard
  | list {items : List Value} (h : ∀ v ∈ items, IsPlain v) : IsPlain (.list items)
  | record {fields : Fields} (h : ∀ name v, (name, v) ∈ fields → IsPlain v) :
      IsPlain (.record fields)

variable {v w : Value}

/-! ## Plain values -/

theorem IsPlain.isUnset (h : v.IsPlain) : v.isUnset = false := by
  cases h <;> rfl

/-- A plain value is stored as it is. -/
theorem IsPlain.plain (h : v.IsPlain) : v.plain = v := by
  induction h with
  | list _ ih =>
    rw [Value.plain, plainItems_eq_map, List.map_congr_left ih, List.map_id']
  | record h ih =>
    rw [Value.plain, plainFields_eq_self (fun name v hv => (h name v hv).isUnset) ih]
  | _ => rfl

theorem IsData.isPlain (h : v.IsData) : v.IsPlain := by
  induction h with
  | null => exact .null
  | bool b => exact .bool b
  | int i => exact .int i
  | float x => exact .float x
  | text s => exact .text s
  | list _ ih => exact .list ih
  | record _ _ ih => exact .record ih

theorem IsData.isInput (h : v.IsData) : v.IsInput := by
  induction h with
  | null => exact .null
  | bool b => exact .bool b
  | int i => exact .int i
  | float x => exact .float x
  | text s => exact .text s
  | list _ ih => exact .list ih
  | record hnames _ ih => exact .record hnames ih

theorem isPlain_plainFields {fields : Fields}
    (h : ∀ name v, (name, v) ∈ fields → v.plain.IsPlain) :
    ∀ name v, (name, v) ∈ plainFields fields → v.IsPlain := by
  intro name v hv
  rw [plainFields_eq] at hv
  obtain ⟨entry, hentry, heq⟩ := List.mem_map.mp hv
  cases heq
  exact h entry.1 entry.2 (List.mem_filter.mp hentry).1

/-- What is stored of an input is plain. -/
theorem IsInput.isPlain_plain (h : v.IsInput) : v.plain.IsPlain := by
  induction h with
  | null | unset => exact .null
  | bool b => exact .bool b
  | int i => exact .int i
  | float x => exact .float x
  | text s => exact .text s
  | token label => exact .token label
  | wildcard => exact .wildcard
  | member _ _ h => exact h.isPlain
  | list _ ih =>
    rw [Value.plain, plainItems_eq_map]
    refine .list fun w hw => ?_
    obtain ⟨v, hv, rfl⟩ := List.mem_map.mp hw
    exact ih v hv
  | record _ _ ih | object _ _ _ ih => exact .record (isPlain_plainFields ih)

/-! ## Places -/

/-- A step into a value: to an item of a list, or to a field of a record or an instance. -/
inductive Place where
  | item (index : Nat)
  | field (name : String)

/-- The value at a place; those of a member of an enum are in the value that it is stored as. -/
def child? : Value → Place → Option Value
  | list items, .item index => items[index]?
  | record fields, .field name => Table.find? fields name
  | object _ fields, .field name => Table.find? fields name
  | member _ _ stored, place => child? stored place
  | _, _ => none

/-- The value at a path. -/
def at? : Value → List Place → Option Value
  | v, [] => some v
  | v, place :: path => (v.child? place).bind fun w => at? w path

/-- A path leads to a field that was left out. -/
def LeftOut (v : Value) (path : List Place) : Prop :=
  v.at? path = some .unset ∧ ∃ name, path.getLast? = some (.field name)

/-- What is stored of the value at a place, if anything is. -/
def kept? (place : Place) (v : Value) : Option Value :=
  match place with
  | .item _ => some v.plain
  | .field _ => if v.isUnset then none else some v.plain

theorem IsData.child? {place : Place} (h : v.IsData) (hw : v.child? place = some w) :
    w.IsData := by
  cases h with
  | list h =>
    cases place with
    | item index => exact h w (List.mem_of_getElem? hw)
    | field name => cases hw
  | record hnames h =>
    cases place with
    | item index => cases hw
    | field name => exact h name w (Table.mem_of_find? hw)
  | _ => cases place <;> cases hw

theorem IsInput.child? {place : Place} (h : v.IsInput) (hw : v.child? place = some w) :
    w.IsInput := by
  cases h with
  | list h =>
    cases place with
    | item index => exact h w (List.mem_of_getElem? hw)
    | field name => cases hw
  | record hnames h | object typeName hnames h =>
    cases place with
    | item index => cases hw
    | field name => exact h name w (Table.mem_of_find? hw)
  | member enumName name h => exact (h.child? hw).isInput
  | _ => cases place <;> cases hw

theorem kept?_eq_none {place : Place} (h : kept? place v = none) :
    v = .unset ∧ ∃ name, place = .field name := by
  cases place with
  | item index => cases h
  | field name =>
    refine ⟨?_, name, rfl⟩
    cases v with
    | unset => rfl
    | _ => cases h

theorem kept?_eq_some {place : Place} (h : kept? place v = some w) :
    w = v.plain ∧ ¬ (v = .unset ∧ ∃ name, place = .field name) := by
  cases place with
  | item index => exact ⟨(Option.some.inj h).symm, fun ⟨_, name, hplace⟩ => nomatch hplace⟩
  | field name =>
    cases v with
    | unset => cases h
    | _ => exact ⟨(Option.some.inj h).symm, fun ⟨hunset, _⟩ => nomatch hunset⟩

theorem IsPlain.kept? (h : v.IsPlain) (place : Place) : kept? place v = some v := by
  cases place with
  | item index => exact congrArg some h.plain
  | field name =>
    unfold Value.kept?
    rw [h.isUnset, if_neg Bool.false_ne_true, h.plain]

theorem names_plainFields (fields : Fields) : Table.names (plainFields fields) =
    Table.names (fields.filter fun entry => !entry.2.isUnset) := by
  rw [plainFields_eq, Table.names, List.map_map]
  rfl

theorem find?_plainFields_eq {fields : Fields} (hnames : (Table.names fields).Nodup)
    (name : String) : Table.find? (plainFields fields) name =
      (Table.find? fields name).bind (kept? (.field name)) := by
  cases hfind : Table.find? fields name with
  | none => exact find?_plainFields_eq_none (Table.find?_eq_none_iff.mp hfind)
  | some v =>
    cases hv : v.isUnset with
    | false =>
      rw [find?_plainFields hfind hv, Option.bind_some, kept?, hv, if_neg Bool.false_ne_true]
    | true =>
      rw [Option.bind_some, kept?, hv, if_pos rfl, Table.find?_eq_none_iff,
        names_plainFields]
      intro hmem
      obtain ⟨entry, hentry, rfl⟩ := List.mem_map.mp hmem
      obtain ⟨hin, hgiven⟩ := List.mem_filter.mp hentry
      -- the only entry of the name is the one left out
      have hsame := Table.find?_of_mem hnames hin
      rw [hfind] at hsame
      cases hsame
      rw [hv] at hgiven
      cases hgiven

/-- One step into the stored form of an input. -/
theorem child?_plain (h : v.IsInput) (place : Place) :
    v.plain.child? place = (v.child? place).bind (kept? place) := by
  cases h with
  | @list items h =>
    cases place with
    | item index =>
      show (plainItems items)[index]? = items[index]?.bind fun w => some w.plain
      rw [plainItems_eq_map, List.getElem?_map]
      cases items[index]? <;> rfl
    | field name => rfl
  | record hnames h | object typeName hnames h =>
    cases place with
    | item index => rfl
    | field name => exact find?_plainFields_eq hnames name
  | @member enumName name stored h =>
    show stored.child? place = (stored.child? place).bind (kept? place)
    cases hw : stored.child? place with
    | none => rfl
    | some w => exact ((h.child? hw).isPlain.kept? place).symm
  | _ => cases place <;> rfl

/-- A path leads nowhere in a stored form exactly if it does so in the input, or to a field that was
left out. -/
theorem at?_plain_eq_none_iff (h : v.IsInput) (path : List Place) :
    v.plain.at? path = none ↔ v.at? path = none ∨ v.LeftOut path := by
  induction path generalizing v with
  | nil =>
    constructor
    · intro hnone
      cases hnone
    · rintro (hnone | ⟨-, name, hlast⟩)
      · cases hnone
      · cases hlast
  | cons place path ih =>
    rw [at?, child?_plain h]
    cases hw : v.child? place with
    | none => exact ⟨fun _ => Or.inl (by rw [at?, hw]; rfl), fun _ => rfl⟩
    | some w =>
      have hat : v.at? (place :: path) = w.at? path := by
        rw [at?, hw]
        rfl
      rw [Option.bind_some]
      cases hkept : kept? place w with
      | none =>
        obtain ⟨rfl, name, rfl⟩ := kept?_eq_none hkept
        refine ⟨fun _ => ?_, fun _ => rfl⟩
        cases path with
        | nil => exact Or.inr ⟨hat, name, rfl⟩
        | cons next path => exact Or.inl hat
      | some stored =>
        obtain ⟨rfl, hgiven⟩ := kept?_eq_some hkept
        rw [Option.bind_some, ih (h.child? hw)]
        unfold LeftOut
        rw [hat]
        refine or_congr Iff.rfl ?_
        cases path with
        | nil =>
          constructor
          · rintro ⟨-, name, hlast⟩
            cases hlast
          · rintro ⟨hunset, name, hlast⟩
            exact absurd ⟨Option.some.inj hunset, name, Option.some.inj hlast⟩ hgiven
        | cons next path => rw [List.getLast?_cons_cons]

/-- A path that leads to something in a stored form leads to the stored form of what is there in the
input. -/
theorem at?_plain {path : List Place} {x y : Value} (h : v.IsInput) (hx : v.at? path = some x)
    (hy : v.plain.at? path = some y) : y = x.plain := by
  induction path generalizing v with
  | nil =>
    cases hx
    cases hy
    rfl
  | cons place path ih =>
    obtain ⟨w, hw, hx⟩ := Option.bind_eq_some_iff.mp hx
    obtain ⟨stored, hstored, hy⟩ := Option.bind_eq_some_iff.mp hy
    rw [child?_plain h, hw, Option.bind_some] at hstored
    obtain ⟨rfl, -⟩ := kept?_eq_some hstored
    exact ih (h.child? hw) hx hy

/-- What is stored in place of a value, as far as it can be told without looking into it: as many
items, the names of the fields that were given in their order, the value of a member of an enum,
null for what was left out, and any other value as it is. -/
def Keeps : Value → Value → Prop
  | list items, w => ∃ stored, w = list stored ∧ stored.length = items.length
  | record fields, w | object _ fields, w => ∃ stored, w = record stored ∧
      Table.names stored = Table.names (fields.filter fun entry => !entry.2.isUnset)
  | member _ _ stored, w => w = stored
  | unset, w => w = null
  | v, w => w = v

theorem keeps_plain (v : Value) : v.Keeps v.plain := by
  cases v with
  | list items => exact ⟨_, rfl, by rw [plainItems_eq_map, List.length_map]⟩
  | record fields | object typeName fields => exact ⟨_, rfl, names_plainFields fields⟩
  | _ => rfl

/-! ## Inputs as fields -/

theorem IsPlain.elements {items : List Value} (h : v.IsPlain) (hitems : v.elements = some items) :
    ∀ w ∈ items, w.IsPlain := by
  have htexts : ∀ (texts : List String), ∀ w ∈ texts.map Value.text, w.IsPlain := by
    intro texts w hw
    obtain ⟨s, -, rfl⟩ := List.mem_map.mp hw
    exact .text s
  cases h with
  | list h =>
    cases hitems
    exact h
  | @record fields h =>
    cases hitems
    have hnames := htexts (fields.map Prod.fst)
    rwa [List.map_map] at hnames
  | text s =>
    cases hitems
    have hletters := htexts (s.toList.map String.singleton)
    rwa [List.map_map] at hletters
  | _ => cases hitems

theorem IsPlain.toPair {name : String} (h : v.IsPlain) (hpair : v.toPair = .ok (name, w)) :
    w.IsPlain := by
  unfold Value.toPair at hpair
  split at hpair
  · cases hpair
  · rename_i key w' hitems
    have hw := h.elements hitems w' (by simp)
    split at hpair <;> cases hpair
    exact hw
  · cases hpair

/-- Fields read from a plain value are plain. -/
theorem IsPlain.toFields {fields : Fields} (h : v.IsPlain) (hfields : v.toFields = .ok fields) :
    (Value.record fields).IsPlain := by
  unfold Value.toFields at hfields
  split at hfields
  · cases hfields
    exact h
  · unfold iterate at hfields
    cases hitems : v.elements with
    | none =>
      rw [hitems] at hfields
      cases hfields
    | some items =>
      rw [hitems] at hfields
      dsimp only [bind, Except.bind] at hfields
      cases hpairs : items.mapM Value.toPair with
      | error fault =>
        rw [hpairs] at hfields
        cases hfields
      | ok pairs =>
        rw [hpairs] at hfields
        cases hfields
        have hplain : ∀ entry ∈ pairs, entry.2.IsPlain := by
          intro entry hentry
          obtain ⟨item, hitem, hpair⟩ := mapM_forall hpairs entry hentry
          exact (h.elements hitems item hitem).toPair hpair
        exact .record fun name w hw => Table.forall_merge (fun _ hnone => nomatch hnone) hplain _ hw

theorem IsInput.asFields {fields : Fields} (h : v.IsInput) (hfields : v.asFields = .ok fields) :
    (Value.record fields).IsPlain := by
  unfold Value.asFields at hfields
  split at hfields
  · exact h.isPlain_plain.toFields hfields
  · cases hfields
    exact .record fun _ _ hnone => nomatch hnone

/-- Plain fields are read as they are. -/
theorem IsPlain.asFields {fields : Fields} (h : (Value.record fields).IsPlain) :
    (Value.record fields).asFields = .ok fields := by
  unfold Value.asFields
  rw [h.plain]
  cases fields <;> rfl

/-- What is stored of an input has nothing left out, no member of an enum and no instance at any
depth. The fields that were left out are dropped and nothing else is: nulls, lengths of lists, names
in order and opaque values are kept. What is stored is stored as it is again, also as the fields that
operations read. -/
theorem plain_input (h : v.IsInput) : v.plain.IsPlain ∧
    (∀ path, v.plain.at? path = none ↔ v.at? path = none ∨ v.LeftOut path) ∧
    (∀ path x y, v.at? path = some x → v.plain.at? path = some y → x.Keeps y) ∧
    v.plain.plain = v.plain ∧
    ∀ fields, v.asFields = .ok fields →
      (record fields).plain = .record fields ∧ (record fields).asFields = .ok fields := by
  have hplain := h.isPlain_plain
  refine ⟨hplain, at?_plain_eq_none_iff h, fun path x y hx hy => ?_, hplain.plain,
    fun fields hfields => ?_⟩
  · rw [at?_plain h hx hy]
    exact keeps_plain x
  · have hrecord := h.asFields hfields
    exact ⟨hrecord.plain, hrecord.asFields⟩

/-- An instance with fields left out of it, of an instance in a list and of a record, an item left
out, a null, a member of an enum that is stored as a record, and a value without attributes. -/
def draft : Value :=
  .object (some "PostInput") [("title", .text "New"), ("subtitle", .unset), ("note", .null),
    ("status", .member "Status" "OPEN" (.record [("code", .int 1)])),
    ("parts", .list [.object none [("name", .unset), ("file", .token "upload")], .unset]),
    ("extra", .record [("first", .unset), ("second", .bool false)])]

theorem plain_draft : draft.IsInput ∧ draft.plain.IsPlain ∧
    draft.plain.at? [.field "subtitle"] = none ∧
    draft.plain.at? [.field "parts", .item 0, .field "name"] = none ∧
    draft.plain.at? [.field "extra", .field "first"] = none ∧
    (∃ w, draft.plain.at? [.field "parts", .item 1] = some w ∧ w = .null) ∧
    draft.plain.plain = draft.plain ∧
    ∃ fields, draft.asFields = .ok fields ∧ (record fields).asFields = .ok fields := by
  have hinput : draft.IsInput := by simp [draft, Table.names]
  obtain ⟨hplain, hnone, hkeeps, hagain, hfields⟩ := plain_input hinput
  have hitem : Keeps .unset .null := hkeeps [.field "parts", .item 1] .unset .null rfl rfl
  refine ⟨hinput, hplain, ?_, ?_, ?_, ⟨.null, rfl, hitem⟩, hagain, _, rfl, ?_⟩
  · exact (hnone _).mpr (Or.inr ⟨rfl, _, rfl⟩)
  · exact (hnone _).mpr (Or.inr ⟨rfl, _, rfl⟩)
  · exact (hnone _).mpr (Or.inr ⟨rfl, _, rfl⟩)
  · exact (hfields _ rfl).2

end Value

end DocumentApi
