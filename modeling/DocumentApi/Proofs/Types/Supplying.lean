import DocumentApi.Proofs.Types.Enums
import DocumentApi.Proofs.Types.Values
import DocumentApi.Schema.Basic

/-!
# What instances of input types supply

Inputs come as instances of the input types that were built, or as plain records by the names of
fields, with the values that members of enums are stored as.

* `Supplies`: a value of a type, and the plain value of what it gives. What is left out of an
  instance is left out of its record, and what is given as null stays null.
* `Supplies.unique`, `Inhabits.supplies`: a value supplies one plain value; the inputs of documents
  supply what is stored of them.
* `TypeRef.Conditional`: the types by which filters are given. Only their fields are held under
  other names than their own.
* `Supplies.plain_eq`: without conditions, what is stored of a value is what it supplies.
-/

namespace DocumentApi

mutual

/-- A value of a type, as an instance gives it, and the plain value that it supplies. -/
inductive Supplies (r : Registry) (types : TypeCache) : TypeRef → Value → Value → Prop
  | scalar {s : Scalar} {v : Value} (json : v.IsJson) : Supplies r types (.scalar s) v v
  | member {t : TypeRef} {enumName name : String} {members : Table Value} {stored : Value}
      (body : r.bodyOf? types t = some (.enum enumName members)) (mem : (name, stored) ∈ members)
      (json : stored.IsJson) : Supplies r types t (.member enumName name stored) stored
  | list {t : TypeRef} {items plain : List Value} (h : ItemsSupply r types t items plain) :
      Supplies r types (.list t) (.list items) (.list plain)
  | null {t : TypeRef} : Supplies r types (.optional t) .null .null
  | given {t : TypeRef} {v w : Value} (h : Supplies r types t v w) :
      Supplies r types (.optional t) v w
  | object {t : TypeRef} {shape : TypeShape} {name : Option String} {entries plain : Fields}
      (body : r.bodyOf? types t = some (.shape shape)) (named : name = some shape.name)
      (h : FieldsSupply r types shape.fields entries plain) :
      Supplies r types t (.object name entries) (.record plain)

inductive ItemsSupply (r : Registry) (types : TypeCache) :
    TypeRef → List Value → List Value → Prop
  | nil {t : TypeRef} : ItemsSupply r types t [] []
  | cons {t : TypeRef} {v w : Value} {items plain : List Value} (item : Supplies r types t v w)
      (rest : ItemsSupply r types t items plain) :
      ItemsSupply r types t (v :: items) (w :: plain)

/-- The entries of an instance, by the attributes of its fields, and those of its record, by their
names. -/
inductive FieldsSupply (r : Registry) (types : TypeCache) :
    List TypeField → Fields → Fields → Prop
  | nil : FieldsSupply r types [] [] []
  | given {f : TypeField} {v w : Value} {fields : List TypeField} {entries plain : Fields}
      (value : Supplies r types f.type v w) (rest : FieldsSupply r types fields entries plain) :
      FieldsSupply r types (f :: fields) ((f.attr, v) :: entries) ((f.name, w) :: plain)
  | leftOut {f : TypeField} {fields : List TypeField} {entries plain : Fields}
      (rest : FieldsSupply r types fields entries plain) :
      FieldsSupply r types (f :: fields) ((f.attr, .unset) :: entries) plain

end

section Values

variable {r : Registry} {types : TypeCache}

theorem Supplies.isUnset {t : TypeRef} {v w : Value} (h : Supplies r types t v w) :
    v.isUnset = false :=
  match h with
  | .scalar json => json.isUnset
  | .member .. => rfl
  | .list _ => rfl
  | .null => rfl
  | .given h => h.isUnset
  | .object .. => rfl

mutual

/-- What is supplied is JSON. -/
theorem Supplies.isJson {t : TypeRef} {v w : Value} (h : Supplies r types t v w) : w.IsJson :=
  match h with
  | .scalar json => json
  | .member _ _ json => json
  | .list h => .list h.isJson
  | .null => .null
  | .given h => h.isJson
  | .object _ _ h => .record h.isJson

theorem ItemsSupply.isJson {t : TypeRef} {items plain : List Value}
    (h : ItemsSupply r types t items plain) : ∀ w ∈ plain, w.IsJson :=
  match h with
  | .nil => fun _ h => absurd h List.not_mem_nil
  | .cons item rest => List.forall_mem_cons.mpr ⟨item.isJson, rest.isJson⟩

theorem FieldsSupply.isJson {fields : List TypeField} {entries plain : Fields}
    (h : FieldsSupply r types fields entries plain) : ∀ name w, (name, w) ∈ plain → w.IsJson :=
  match h with
  | .nil => fun _ _ h => absurd h List.not_mem_nil
  | .given value rest => by
    intro name w hw
    rcases List.mem_cons.mp hw with heq | hw
    · cases heq
      exact value.isJson
    · exact rest.isJson name w hw
  | .leftOut rest => rest.isJson

end

mutual

/-- A scalar supplies itself, and so do lists of scalars. -/
theorem Supplies.eq_of_scalar {t : TypeRef} {s : Scalar} {v w : Value} (ht : t.core = .scalar s)
    (h : Supplies r types t v w) : v = w :=
  match h with
  | .scalar _ => rfl
  | .member body _ _ => by
    cases t with
    | scalar => cases body
    | list | optional => cases body
    | _ => cases ht
  | .list h => congrArg Value.list (h.eq_of_scalar (by exact ht))
  | .null => rfl
  | .given h => h.eq_of_scalar (by exact ht)
  | .object body _ _ => by
    cases t with
    | scalar => cases body
    | list | optional => cases body
    | _ => cases ht

theorem ItemsSupply.eq_of_scalar {t : TypeRef} {s : Scalar} {items plain : List Value}
    (ht : t.core = .scalar s) (h : ItemsSupply r types t items plain) : items = plain :=
  match h with
  | .nil => rfl
  | .cons item rest => congrArg₂ List.cons (item.eq_of_scalar ht) (rest.eq_of_scalar ht)

end

theorem Supplies.eq_null {t : TypeRef} {w : Value} (h : Supplies r types t .null w) : w = .null :=
  match h with
  | .scalar _ => rfl
  | .null => rfl
  | .given h => h.eq_null

mutual

/-- A value supplies one plain value. -/
theorem Supplies.unique {t : TypeRef} {v w w' : Value} (h : Supplies r types t v w)
    (h' : Supplies r types t v w') : w = w' :=
  match h with
  | .scalar json => by
    cases h' with
    | scalar => rfl
    | member | object => cases json
  | .member body _ _ => by
    cases h' with
    | scalar json => cases json
    | member => rfl
    | given => cases body
  | .list h => by
    cases h' with
    | list h' => exact congrArg Value.list (h.unique h')
  | .null => h'.eq_null.symm
  | .given h => by
    cases h' with
    | null => exact h.eq_null
    | given h' => exact h.unique h'
    | member body | object body => cases body
  | .object body _ h => by
    cases h' with
    | scalar json => cases json
    | given => cases body
    | object body' _ h' =>
      cases body.symm.trans body'
      exact congrArg Value.record (h.unique h')

theorem ItemsSupply.unique {t : TypeRef} {items plain plain' : List Value}
    (h : ItemsSupply r types t items plain) (h' : ItemsSupply r types t items plain') :
    plain = plain' :=
  match h with
  | .nil => by cases h'; rfl
  | .cons item rest => by
    cases h' with
    | cons item' rest' => rw [item.unique item', rest.unique rest']

theorem FieldsSupply.unique {fields : List TypeField} {entries plain plain' : Fields}
    (h : FieldsSupply r types fields entries plain)
    (h' : FieldsSupply r types fields entries plain') : plain = plain' :=
  match h with
  | .nil => by cases h'; rfl
  | .given value rest => by
    cases h' with
    | given value' rest' => rw [value.unique value', rest.unique rest']
    | leftOut => cases value.isUnset
  | .leftOut rest => by
    cases h' with
    | given value' => cases value'.isUnset
    | leftOut rest' => exact rest.unique rest'

end

/-! ## Types with conditions -/

/-- Conditions are given by the values of a type. -/
def TypeRef.Conditional (t : TypeRef) : Prop :=
  match t.core with
  | .conditions _ _ => True
  | .model key => key.kind = .filter
  | _ => False

theorem Field.plainType?_not_conditional {f : Field} {t : TypeRef} (h : f.plainType? = some t) :
    ¬ t.Conditional := by
  rcases plainType?_core h with ⟨s, hs⟩ | ⟨spec, -, -, rfl⟩
  · unfold TypeRef.Conditional
    rw [hs]
    exact id
  · exact id

theorem Field.typeIn_not_conditional (f : Field) {kind : TypeKind} (hkind : kind ≠ .filter) :
    ¬ (f.typeIn kind).Conditional := by
  unfold typeIn
  split
  · rename_i t h
    exact plainType?_not_conditional h
  · dsimp only
    split
    · split <;> exact hkind
    · exact fun h => by cases h

/-- The fields of a type that was derived from a model are held under their names. -/
theorem Registry.shapeOf_attr (r : Registry) (key : TypeKey) :
    ∀ f ∈ (r.shapeOf key).fields, f.attr = f.name := by
  obtain ⟨model, kind⟩ := key
  intro f hf
  cases kind with
  | pagination =>
    revert f
    simp [Registry.shapeOf, pageShape]
  | _ =>
    obtain ⟨g, -, rfl⟩ := List.mem_map.mp hf
    rfl

/-- Only the fields of filters take conditions. -/
theorem Registry.shapeOf_not_conditional (r : Registry) {key : TypeKey} (hkey : key.kind ≠ .filter) :
    ∀ f ∈ (r.shapeOf key).fields, ¬ f.type.Conditional := by
  obtain ⟨model, kind⟩ := key
  intro f hf
  have hfield : ∀ g : Field, ¬ (g.toTypeField kind (g.typeIn kind)).type.Conditional := by
    intro g
    unfold Field.toTypeField
    dsimp only
    split <;> exact g.typeIn_not_conditional hkey
  cases kind with
  | filter => exact absurd rfl hkey
  | pagination =>
    revert f
    simp [Registry.shapeOf, pageShape, TypeRef.Conditional, TypeRef.core]
  | sort =>
    obtain ⟨g, -, rfl⟩ := List.mem_map.mp hf
    exact id
  | output | create | update =>
    obtain ⟨g, -, rfl⟩ := List.mem_map.mp hf
    exact hfield g

/-- A type without conditions has fields without conditions, held under their names. -/
theorem TypeCache.Sound.fields (hs : types.Sound r) {t : TypeRef} {shape : TypeShape}
    (hbody : r.bodyOf? types t = some (.shape shape)) (ht : ¬ t.Conditional) :
    ∀ f ∈ shape.fields, f.attr = f.name ∧ ¬ f.type.Conditional := by
  cases t with
  | model key =>
    obtain ⟨_, hkept, hshape⟩ := Option.map_eq_some_iff.mp hbody
    cases hshape
    obtain ⟨-, rfl⟩ := hs.shapes _ _ hkept
    exact fun f hf => ⟨r.shapeOf_attr key f hf, r.shapeOf_not_conditional ht f hf⟩
  | success =>
    cases hbody
    intro f hf
    obtain rfl := List.mem_singleton.mp hf
    exact ⟨rfl, id⟩
  | conditions => exact absurd trivial ht
  | enum name =>
    obtain ⟨_, -, hshape⟩ := Option.map_eq_some_iff.mp hbody
    cases hshape
  | _ => cases hbody

mutual

/-- Without conditions, what is stored of an instance is what it supplies. -/
theorem Supplies.plain_eq (hs : types.Sound r) {t : TypeRef} {v w : Value} (ht : ¬ t.Conditional)
    (h : Supplies r types t v w) : v.plain = w :=
  match h with
  | .scalar json => json.plain
  | .member .. => rfl
  | .list h => congrArg Value.list (h.plain_eq hs (by exact ht))
  | .null => rfl
  | .given h => h.plain_eq hs (by exact ht)
  | .object body _ h => congrArg Value.record (h.plain_eq hs (hs.fields body ht))

theorem ItemsSupply.plain_eq (hs : types.Sound r) {t : TypeRef} {items plain : List Value}
    (ht : ¬ t.Conditional) (h : ItemsSupply r types t items plain) :
    Value.plainItems items = plain :=
  match h with
  | .nil => rfl
  | .cons item rest => congrArg₂ List.cons (item.plain_eq hs ht) (rest.plain_eq hs ht)

theorem FieldsSupply.plain_eq (hs : types.Sound r) {fields : List TypeField}
    {entries plain : Fields} (hfields : ∀ f ∈ fields, f.attr = f.name ∧ ¬ f.type.Conditional)
    (h : FieldsSupply r types fields entries plain) : Value.plainFields entries = plain :=
  match h with
  | .nil => rfl
  | .given value rest => by
    obtain ⟨⟨hattr, htype⟩, hrest⟩ := List.forall_mem_cons.mp hfields
    rw [Value.plainFields_cons, value.isUnset, if_neg Bool.false_ne_true, hattr,
      value.plain_eq hs htype, rest.plain_eq hs hrest]
  | .leftOut rest => by
    rw [Value.plainFields_cons, if_pos (show Value.unset.isUnset = true from rfl)]
    exact rest.plain_eq hs (List.forall_mem_cons.mp hfields).2

end

theorem ItemsSupply.of_forall {t : TypeRef} {items : List Value}
    (h : ∀ v ∈ items, Supplies r types t v v.plain) :
    ItemsSupply r types t items (Value.plainItems items) := by
  induction items with
  | nil => exact .nil
  | cons item items ih =>
    obtain ⟨hitem, hrest⟩ := List.forall_mem_cons.mp h
    exact .cons hitem (ih hrest)

mutual

/-- The inputs of documents supply what is stored of them. -/
theorem Inhabits.supplies (hs : types.Sound r) (hr : r.Regular) {t : TypeRef} {v : Value}
    (h : Inhabits types t v) : Supplies r types t v v.plain :=
  match h with
  | .string s => .scalar (.text s)
  | .id s => .scalar (.text s)
  | .int i => .scalar (.int i)
  | .float x => .scalar (.float x)
  | .whole i => .scalar (.int i)
  | .boolean b => .scalar (.bool b)
  | .member declared first =>
    .member (by rw [Registry.bodyOf?, declared]; rfl)
      (mem_canonicalMembers.mpr ⟨mem_of_memberStoredAs first, _, first⟩)
      (hs.member hr declared first).2
  | .list h => .list (.of_forall fun v hv => (h v hv).supplies hs hr)
  | .null => .null
  | .given h => .given (h.supplies hs hr)
  | .object built h => by
    refine .object (by rw [Registry.bodyOf?, built]; rfl) rfl (h.supplies hs hr ?_)
    obtain ⟨-, rfl⟩ := hs.shapes _ _ built
    exact r.shapeOf_attr _

theorem FieldsInhabit.supplies (hs : types.Sound r) (hr : r.Regular) {fields : List TypeField}
    {entries : Fields} (h : FieldsInhabit types fields entries)
    (hattr : ∀ f ∈ fields, f.attr = f.name) :
    FieldsSupply r types fields entries (Value.plainFields entries) :=
  match h with
  | .nil => .nil
  | .given value rest => by
    obtain ⟨hfirst, hrest⟩ := List.forall_mem_cons.mp hattr
    have hvalue := value.supplies hs hr
    rw [Value.plainFields_cons, hvalue.isUnset, if_neg Bool.false_ne_true]
    nth_rewrite 2 [hfirst]
    exact .given hvalue (rest.supplies hs hr hrest)
  | .leftOut _ rest => by
    rw [Value.plainFields_cons, if_pos (show Value.unset.isUnset = true from rfl)]
    exact .leftOut (rest.supplies hs hr (List.forall_mem_cons.mp hattr).2)

end

end Values

end DocumentApi
