import DocumentApi.Proofs.Types.Cache
import DocumentApi.Value.Plain

/-!
# Values of types

* `Value.IsJson`: the values that are stored as they are.
* `Inhabits`: the values of the types that were built, as inputs of documents give them.
* `Registry.Regular`: what models keep to, so that the fields of a document can be told apart and
  read by one rule each.
* `Inhabits.plain_isJson`: what is stored of a value is JSON.
-/

namespace DocumentApi

namespace Value

/-- A value that is made of JSON alone. -/
inductive IsJson : Value → Prop
  | null : IsJson .null
  | bool (b : Bool) : IsJson (.bool b)
  | int (i : Int) : IsJson (.int i)
  | float (x : Double) : IsJson (.float x)
  | text (s : String) : IsJson (.text s)
  | list {items : List Value} (h : ∀ v ∈ items, IsJson v) : IsJson (.list items)
  | record {fields : Fields} (h : ∀ name v, (name, v) ∈ fields → IsJson v) :
      IsJson (.record fields)

theorem plainItems_eq_map (items : List Value) : plainItems items = items.map plain := by
  induction items with
  | nil => rfl
  | cons item items ih => rw [plainItems, ih, List.map_cons]

theorem plainFields_cons (name : String) (v : Value) (fields : Fields) :
    plainFields ((name, v) :: fields) =
      if v.isUnset then plainFields fields else (name, v.plain) :: plainFields fields := by
  rw [plainFields, plainEntry]

/-- The fields that are given are stored under their names, in order. -/
theorem plainFields_eq (fields : Fields) : plainFields fields =
    (fields.filter fun entry => !entry.2.isUnset).map fun entry => (entry.1, entry.2.plain) := by
  induction fields with
  | nil => rfl
  | cons entry fields ih =>
    obtain ⟨name, v⟩ := entry
    rw [plainFields_cons, ih, List.filter_cons]
    cases v.isUnset <;> rfl

theorem plainFields_eq_self {fields : Fields}
    (hgiven : ∀ name v, (name, v) ∈ fields → v.isUnset = false)
    (hplain : ∀ name v, (name, v) ∈ fields → v.plain = v) : plainFields fields = fields := by
  have hall : (fields.filter fun entry => !entry.2.isUnset) = fields :=
    List.filter_eq_self.mpr fun entry hentry => by rw [hgiven entry.1 entry.2 hentry]; rfl
  rw [plainFields_eq, hall]
  refine (List.map_congr_left fun entry hentry => ?_).trans (List.map_id fields)
  rw [hplain entry.1 entry.2 hentry]
  rfl

theorem IsJson.isUnset {v : Value} (h : v.IsJson) : v.isUnset = false := by
  cases h <;> rfl

/-- JSON is stored as it is. -/
theorem IsJson.plain {v : Value} (h : v.IsJson) : v.plain = v := by
  induction h with
  | list _ ih =>
    rw [Value.plain, plainItems_eq_map, List.map_congr_left ih, List.map_id']
  | record h ih =>
    rw [Value.plain, plainFields_eq_self (fun name v hv => (h name v hv).isUnset) ih]
  | _ => rfl

/-- A field that is given is stored. -/
theorem find?_plainFields {fields : Fields} {key : String} {v : Value}
    (h : Table.find? fields key = some v) (hv : v.isUnset = false) :
    Table.find? (plainFields fields) key = some v.plain := by
  induction fields with
  | nil => cases h
  | cons entry fields ih =>
    obtain ⟨name, w⟩ := entry
    rw [plainFields_cons]
    rw [Table.find?_cons] at h
    by_cases hname : name = key
    · rw [if_pos hname] at h
      cases h
      rw [hv, if_neg Bool.false_ne_true, Table.find?_cons, if_pos hname]
    · rw [if_neg hname] at h
      by_cases hw : w.isUnset
      · rw [if_pos hw]
        exact ih h
      · rw [if_neg hw, Table.find?_cons, if_neg hname]
        exact ih h

/-- A field of no name that is there is not stored. -/
theorem find?_plainFields_eq_none {fields : Fields} {key : String}
    (h : key ∉ Table.names fields) : Table.find? (plainFields fields) key = none := by
  induction fields with
  | nil => rfl
  | cons entry fields ih =>
    obtain ⟨name, w⟩ := entry
    obtain ⟨hname, hrest⟩ := not_or.mp (List.mem_cons.not.mp h)
    rw [plainFields_cons]
    by_cases hw : w.isUnset
    · rw [if_pos hw]
      exact ih hrest
    · rw [if_neg hw, Table.find?_cons, if_neg (Ne.symm hname)]
      exact ih hrest

end Value

mutual

/-- A value of a type, as an input gives it. Members of enums are given under the first name of what
they are stored as. -/
inductive Inhabits (types : TypeCache) : TypeRef → Value → Prop
  | string (s : String) : Inhabits types (.scalar .string) (.text s)
  | id (s : String) : Inhabits types (.scalar .id) (.text s)
  | int (i : Int) : Inhabits types (.scalar .int) (.int i)
  | float (x : Double) : Inhabits types (.scalar .float) (.float x)
  | whole (i : Int) : Inhabits types (.scalar .float) (.int i)
  | boolean (b : Bool) : Inhabits types (.scalar .boolean) (.bool b)
  | member {enumName name : String} {members : Table Value} {stored : Value}
      (declared : Table.find? types.enums enumName = some members)
      (first : memberStoredAs members stored = some (name, stored)) :
      Inhabits types (.enum enumName) (.member enumName name stored)
  | list {t : TypeRef} {items : List Value} (h : ∀ v ∈ items, Inhabits types t v) :
      Inhabits types (.list t) (.list items)
  | null {t : TypeRef} : Inhabits types (.optional t) .null
  | given {t : TypeRef} {v : Value} (h : Inhabits types t v) : Inhabits types (.optional t) v
  | object {key : TypeKey} {shape : TypeShape} {entries : Fields}
      (built : types.shape? key = some shape) (h : FieldsInhabit types shape.fields entries) :
      Inhabits types (.model key) (.object (some shape.name) entries)

/-- The values of the fields of a type. A field may be left out where its default says so. -/
inductive FieldsInhabit (types : TypeCache) : List TypeField → Fields → Prop
  | nil : FieldsInhabit types [] []
  | given {f : TypeField} {v : Value} {fields : List TypeField} {entries : Fields}
      (value : Inhabits types f.type v) (rest : FieldsInhabit types fields entries) :
      FieldsInhabit types (f :: fields) ((f.attr, v) :: entries)
  | leftOut {f : TypeField} {fields : List TypeField} {entries : Fields}
      (may : f.default = .unset) (rest : FieldsInhabit types fields entries) :
      FieldsInhabit types (f :: fields) ((f.attr, .unset) :: entries)

end

theorem FieldsInhabit.names {types : TypeCache} {fields : List TypeField} {entries : Fields}
    (h : FieldsInhabit types fields entries) :
    Table.names entries = fields.map TypeField.attr := by
  induction entries generalizing fields with
  | nil => cases h; rfl
  | cons entry entries ih =>
    cases h with
    | given _ rest | leftOut _ rest => exact congrArg (_ :: ·) (ih rest)

/-- A value that is given for a field is one of the field's type. -/
theorem FieldsInhabit.find? {types : TypeCache} {fields : List TypeField} {entries : Fields}
    {key : String} {v : Value} (h : FieldsInhabit types fields entries)
    (hfound : Table.find? entries key = some v) (hv : v.isUnset = false) :
    ∃ f ∈ fields, f.attr = key ∧ Inhabits types f.type v := by
  induction entries generalizing fields with
  | nil => cases hfound
  | cons entry entries ih =>
    rw [Table.find?_cons] at hfound
    cases h with
    | @given f w fields _ value rest =>
      by_cases hname : f.attr = key
      · rw [if_pos hname] at hfound
        cases hfound
        exact ⟨f, List.mem_cons_self, hname, value⟩
      · rw [if_neg hname] at hfound
        obtain ⟨g, hg, h⟩ := ih rest hfound
        exact ⟨g, List.mem_cons_of_mem _ hg, h⟩
    | @leftOut f fields _ may rest =>
      by_cases hname : f.attr = key
      · rw [if_pos hname] at hfound
        cases hfound
        cases hv
      · rw [if_neg hname] at hfound
        obtain ⟨g, hg, h⟩ := ih rest hfound
        exact ⟨g, List.mem_cons_of_mem _ hg, h⟩

/-- The members of enums are stored as JSON and never as null, no field has the name that ids are
kept under elsewhere, and a field that embeds documents has no other type. -/
structure Registry.Regular (r : Registry) : Prop where
  names : ∀ f, r.HasField f → f.name ≠ "_id"
  embeds : ∀ f, r.HasField f → f.embedding.isSome → ¬ f.Shadowed
  enums : ∀ f spec, r.HasField f → f.enumSpec = some spec →
    ∀ member ∈ spec.members, member.2.isNull = false ∧ member.2.IsJson

theorem mem_of_memberStoredAs {members : Table Value} {name : String} {v stored : Value}
    (h : memberStoredAs members v = some (name, stored)) : (name, stored) ∈ members :=
  List.mem_of_find?_eq_some h

variable {r : Registry} {types : TypeCache}

/-- The members of an enum that was declared are stored as JSON. -/
theorem TypeCache.Sound.member (hs : types.Sound r) (hr : r.Regular) {enumName name : String}
    {members : Table Value} {v stored : Value}
    (declared : Table.find? types.enums enumName = some members)
    (h : memberStoredAs members v = some (name, stored)) :
    stored.isNull = false ∧ stored.IsJson := by
  obtain ⟨f, spec, hf, hspec, rfl⟩ := hs.enums enumName members declared
  exact hr.enums f spec hf hspec _ (mem_of_memberStoredAs h)

mutual

theorem Inhabits.plain_isJson (hs : types.Sound r) (hr : r.Regular) {t : TypeRef} {v : Value}
    (h : Inhabits types t v) : v.plain.IsJson :=
  match h with
  | .string s => .text s
  | .id s => .text s
  | .int i => .int i
  | .float x => .float x
  | .whole i => .int i
  | .boolean b => .bool b
  | .member declared first => (hs.member hr declared first).2
  | .list h => by
    rw [Value.plain, Value.plainItems_eq_map]
    refine .list fun w hw => ?_
    obtain ⟨v, hv, rfl⟩ := List.mem_map.mp hw
    exact (h v hv).plain_isJson hs hr
  | .null => .null
  | .given h => h.plain_isJson hs hr
  | .object _ h => .record (h.plain_isJson hs hr)

theorem FieldsInhabit.plain_isJson (hs : types.Sound r) (hr : r.Regular) {fields : List TypeField}
    {entries : Fields} (h : FieldsInhabit types fields entries) :
    ∀ name v, (name, v) ∈ Value.plainFields entries → v.IsJson :=
  match h with
  | .nil => fun _ _ h => absurd h List.not_mem_nil
  | .given value rest => by
    intro name w hw
    rw [Value.plainFields_cons] at hw
    split at hw
    · exact rest.plain_isJson hs hr name w hw
    · rcases List.mem_cons.mp hw with heq | hw
      · cases heq
        exact value.plain_isJson hs hr
      · exact rest.plain_isJson hs hr name w hw
  | .leftOut _ rest => rest.plain_isJson hs hr

end

end DocumentApi
