import DocumentApi.Proofs.Operations.RoundTrip

/-!
# Documents without gaps

Whether the instance of a document has a value in every field that must not be null.

* `Registry.Demanding`: models whose create inputs ask for all that their outputs must show, ids and
  embedded arrays apart.
* `FieldsInhabit.required`: what an input supplies, at least.
* `Complete`: an instance that is null only where it may be, also in what it embeds.
* `Full`: an embedded document that was supplied with every array that must not be null.
* `completeWhenFull`: the instance of an embedded document is complete exactly if the document was
  supplied full.
-/

namespace DocumentApi

open TypeCache (Sound)

/-- Each field of an output may be null, or the create input asks for it; ids and embedded arrays
apart. -/
def Registry.Demanding (r : Registry) : Prop :=
  ∀ model fields, r.outputFields (some model) = .ok fields → ∀ f ∈ fields, f.isId = false →
    f.isEmbeddedArray = false →
    f.nullableOnOutput ∨ (f.requiredOnCreate ∧ f.excludedOnCreate = false)

mutual

/-- `FieldComplete r f y`: the output `y` of the field `f` is null only if it may be, and the
documents that it embeds are complete. -/
inductive FieldComplete (r : Registry) : Field → Value → Prop
  | null {f : Field} (may : f.nullableOnOutput) : FieldComplete r f .null
  | plain {f : Field} {y : Value} (plain : f.embedding = none ∨ f.isId) (given : y.isNull = false) :
      FieldComplete r f y
  | one {f : Field} {model : String} {y : Value} (single : f.many = false)
      (embeds : f.embeddedName = some model) (item : Complete r model y) : FieldComplete r f y
  | many {f : Field} {model : String} {ys : List Value} (list : f.many)
      (embeds : f.embeddedName = some model) (items : ∀ y ∈ ys, Complete r model y) :
      FieldComplete r f (.list ys)

/-- An instance of a model with every field of the model's output, each of them complete. -/
inductive Complete (r : Registry) : String → Value → Prop
  | object {model : String} {out : Fields} {fields : List Field}
      (shown : r.outputFields (some model) = .ok fields)
      (names : Table.names out = fields.map Field.name)
      (complete : ∀ f ∈ fields, ∀ y, Table.find? out f.name = some y → FieldComplete r f y) :
      Complete r model (.object (some model) out)

end

mutual

/-- `FieldFull r f v`: nothing is supplied for the field `f` only if it is no array that must not be
null, and the embedded documents that are supplied for it are full. -/
inductive FieldFull (r : Registry) : Field → Value → Prop
  | leftOut {f : Field} {v : Value} (none : v.isNull)
      (may : f.isEmbeddedArray → f.nullableOnOutput) : FieldFull r f v
  | plain {f : Field} {v : Value} (plain : f.embedding = none ∨ f.isId) : FieldFull r f v
  | one {f : Field} {model : String} {v : Value} (single : f.many = false)
      (embeds : f.embeddedName = some model) (item : Full r model v) : FieldFull r f v
  | many {f : Field} {model : String} {vs : List Value} (list : f.many)
      (embeds : f.embeddedName = some model) (items : ∀ v ∈ vs, Full r model v) :
      FieldFull r f (.list vs)

/-- An embedded document that is supplied with every array that its model's output needs. -/
inductive Full (r : Registry) : String → Value → Prop
  | record {model : String} {data : Fields} {fields : List Field}
      (shown : r.outputFields (some model) = .ok fields)
      (full : ∀ f ∈ fields, FieldFull r f (Fields.get data f.name)) : Full r model (.record data)

end

variable {r : Registry} {types c c' : TypeCache}

/-! ## What an input supplies -/

theorem Field.typeIn_ne_optional (f : Field) (kind : TypeKind) (t : TypeRef) :
    f.typeIn kind ≠ .optional t := by
  unfold typeIn
  cases htype : f.plainType? with
  | none =>
    dsimp only
    split
    · split <;> simp
    · simp
  | some plain =>
    rintro rfl
    unfold plainType? at htype
    cases hoverride : f.typeOverride with
    | some declared =>
      rw [hoverride] at htype
      cases declared <;> cases htype
    | none =>
      rw [hoverride] at htype
      cases hspec : f.enumSpec with
      | some spec =>
        rw [hspec] at htype
        cases htype
      | none =>
        rw [hspec] at htype
        obtain ⟨s, -, h⟩ := Option.map_eq_some_iff.mp htype
        cases h

theorem Inhabits.isNull_eq_false {t : TypeRef} {v : Value} (h : Inhabits types t v)
    (ht : ∀ u, t ≠ .optional u) : v.isNull = false ∧ v.isUnset = false := by
  cases h with
  | null => exact absurd rfl (ht _)
  | given => exact absurd rfl (ht _)
  | _ => exact ⟨rfl, rfl⟩

/-- Each field of a type has a value, or is left out by its default. -/
theorem FieldsInhabit.entry {fields : List TypeField} {entries : Fields} {f : TypeField}
    (h : FieldsInhabit types fields entries) (hnames : (fields.map TypeField.attr).Nodup)
    (hf : f ∈ fields) : ∃ v, Table.find? entries f.attr = some v ∧
      (Inhabits types f.type v ∨ (v = .unset ∧ f.default = .unset)) := by
  induction entries generalizing fields with
  | nil =>
    cases h
    exact absurd hf List.not_mem_nil
  | cons entry entries ih =>
    have hother : ∀ {g : TypeField} {rest : List TypeField},
        (g.attr :: rest.map TypeField.attr).Nodup → f ∈ rest → g.attr ≠ f.attr :=
      fun hnew hf hsame => (List.nodup_cons.mp hnew).1 (hsame ▸ List.mem_map_of_mem hf)
    cases h with
    | @given g v _ _ value rest =>
      rw [Table.find?_cons]
      rcases List.mem_cons.mp hf with rfl | hf
      · exact ⟨v, if_pos rfl, Or.inl value⟩
      · rw [if_neg (hother hnames hf)]
        exact ih rest (List.nodup_cons.mp hnames).2 hf
    | @leftOut g _ _ may rest =>
      rw [Table.find?_cons]
      rcases List.mem_cons.mp hf with rfl | hf
      · exact ⟨.unset, if_pos rfl, Or.inr ⟨rfl, may⟩⟩
      · rw [if_neg (hother hnames hf)]
        exact ih rest (List.nodup_cons.mp hnames).2 hf

theorem Value.get_plainFields {entries : Fields} (h : (Table.names entries).Nodup) (key : String) :
    Fields.get (plainFields entries) key = (Fields.get entries key).plain := by
  induction entries with
  | nil => rfl
  | cons entry entries ih =>
    obtain ⟨name, v⟩ := entry
    obtain ⟨hnew, hrest⟩ := List.nodup_cons.mp h
    have ih := ih hrest
    unfold Fields.get at ih ⊢
    rw [plainFields_cons, Table.find?_cons]
    by_cases hname : name = key
    · subst hname
      rw [if_pos rfl]
      cases hunset : v.isUnset with
      | true =>
        rw [if_pos rfl, find?_plainFields_eq_none hnew]
        cases v with
        | unset => rfl
        | _ => cases hunset
      | false => rw [if_neg Bool.false_ne_true, Table.find?_cons, if_pos rfl, Option.getD_some,
          Option.getD_some]
    · rw [if_neg hname]
      split
      · exact ih
      · rw [Table.find?_cons, if_neg hname]
        exact ih

section Input

variable {model : String} {shape : TypeShape} {entries : Fields} {declared : List Field} {f : Field}

theorem FieldsInhabit.nodup_names (hs : Sound r types) (hr : r.Distinct)
    (hbuilt : types.shape? ⟨model, .create⟩ = some shape)
    (h : FieldsInhabit types shape.fields entries) : (Table.names entries).Nodup := by
  obtain ⟨declared, hdeclared⟩ := hs.fieldsOf hbuilt
  obtain ⟨-, rfl⟩ := hs.shapes _ _ hbuilt
  rw [h.names, Registry.shapeOf_fields (Or.inr (Or.inl rfl)) (Registry.fieldsFor_create hdeclared),
    List.map_map]
  exact (List.filter_sublist.map Field.name).nodup (hr.fieldsOf hdeclared)

/-- A value is stored for a field only if it was supplied. -/
theorem FieldsInhabit.supplied (hs : Sound r types) (hr : r.Distinct)
    (hbuilt : types.shape? ⟨model, .create⟩ = some shape)
    (h : FieldsInhabit types shape.fields entries) {key : String}
    (hnull : (Fields.get (Value.plainFields entries) key).isNull = false) :
    ∃ x, Table.find? entries key = some x ∧ x.isNull = false ∧ x.isUnset = false ∧
      Fields.get (Value.plainFields entries) key = x.plain := by
  rw [Value.get_plainFields (h.nodup_names hs hr hbuilt)] at hnull ⊢
  cases hx : Table.find? entries key with
  | none =>
    unfold Fields.get at hnull
    rw [hx] at hnull
    cases hnull
  | some x =>
    rw [Fields.get_of_find? hx] at hnull ⊢
    refine ⟨x, rfl, ?_, ?_, rfl⟩ <;> cases x <;> first | rfl | cases hnull

/-- Something is supplied for a field that the create input asks for. -/
theorem FieldsInhabit.required (hs : Sound r types) (hd : r.Distinct) (hr : r.Regular)
    (hbuilt : types.shape? ⟨model, .create⟩ = some shape)
    (h : FieldsInhabit types shape.fields entries) (hdeclared : r.fieldsOf model = .ok declared)
    (hf : f ∈ declared) (hid : f.isId = false) (hrequired : f.requiredOnCreate)
    (hexcluded : f.excludedOnCreate = false) :
    (Fields.get (Value.plainFields entries) f.name).isNull = false := by
  have hnames := h.nodup_names hs hd hbuilt
  have hshape := (hs.shapes _ _ hbuilt).2
  have hfields := Registry.fieldsFor_create hdeclared
  have hlisted : f ∈ declared.filter fun f => !f.isId && !f.excludedOnCreate :=
    List.mem_filter.mpr ⟨hf, by rw [hid, hexcluded]; rfl⟩
  have hentry := h.entry (f := f.toTypeField .create (f.typeIn .create)) (h.names ▸ hnames) (by
    rw [hshape, Registry.shapeOf_fields (Or.inr (Or.inl rfl)) hfields]
    exact List.mem_map_of_mem hlisted)
  unfold Field.toTypeField Field.defaultIn Field.isOptional at hentry
  dsimp only at hentry
  rw [hrequired] at hentry
  -- the type is not optional and has no default, so what the entry holds is a value
  obtain ⟨x, hx, hvalue | ⟨-, hmay⟩⟩ := hentry
  · have hvalue : Inhabits types (f.typeIn .create) x := hvalue
    obtain ⟨hnull, hset⟩ := hvalue.isNull_eq_false (f.typeIn_ne_optional .create)
    rw [Fields.get_of_find? (Value.find?_plainFields hx hset)]
    exact hvalue.plain_isNull hs hr hnull
  · cases hmay

/-- Where nothing was supplied for a field other than an array, the output may be null. -/
theorem FieldsInhabit.nullable (hs : Sound r types) (hd : r.Distinct) (hr : r.Regular)
    (hdemanding : r.Demanding) (hbuilt : types.shape? ⟨model, .create⟩ = some shape)
    (h : FieldsInhabit types shape.fields entries) {fields : List Field}
    (hfields : r.outputFields (some model) = .ok fields) (hf : f ∈ fields) (hid : f.isId = false)
    (harray : f.isEmbeddedArray = false)
    (hnull : (Fields.get (Value.plainFields entries) f.name).isNull) : f.nullableOnOutput := by
  obtain ⟨declared, hdeclared⟩ := hs.fieldsOf hbuilt
  rcases hdemanding model fields hfields f hf hid harray with hmay | ⟨hrequired, hexcluded⟩
  · exact hmay
  · have hmem := (Registry.mem_outputFields hdeclared hfields hf).1
    have hgiven := h.required hs hd hr hbuilt hdeclared hmem hid hrequired hexcluded
    rw [hnull] at hgiven
    cases hgiven

end Input

/-! ## Embedded documents -/

/-- The instance of an embedded document is complete exactly if the document was supplied full. -/
def CompleteWhenFull (r : Registry) (model : String) (x y : Value) : Prop :=
  y.isNull = false ∧ (Complete r model y ↔ Full r model x.plain)

theorem FieldComplete.of_isNull {f : Field} {v : Value} (h : FieldComplete r f v) (hv : v.isNull) :
    f.nullableOnOutput := by
  cases h with
  | null may => exact may
  | plain _ given =>
    rw [hv] at given
    cases given
  | one _ _ item =>
    cases item
    cases hv
  | many => cases hv

/-- A complete instance has a value for each field of the output. -/
theorem Complete.get {model : String} {y : Value} {fields : List Field} {f : Field}
    (h : Complete r model y) (hfields : r.outputFields (some model) = .ok fields)
    (hf : f ∈ fields) : FieldComplete r f (Fields.get y.shown f.name) := by
  cases h with
  | object shown names complete =>
    rw [hfields] at shown
    cases shown
    obtain ⟨v, hv⟩ := Table.exists_find?_of_mem (names ▸ List.mem_map_of_mem hf)
    unfold Value.shown
    rw [Fields.get_of_find? hv]
    exact complete f hf v hv

section Embedding

variable {f : Field} {model : String} {v : Value} {vs : List Value}

theorem Field.embedding_ne_none (h : f.embeddedName = some model) (hid : f.isId = false) :
    ¬ (f.embedding = none ∨ f.isId) := by
  rintro (hnone | hisId)
  · unfold embeddedName at h
    rw [hnone] at h
    cases h
  · rw [hid] at hisId
    cases hisId

theorem fieldComplete_one_iff (hid : f.isId = false) (single : f.many = false)
    (embeds : f.embeddedName = some model) (hv : v.isNull = false) :
    FieldComplete r f v ↔ Complete r model v := by
  refine ⟨fun h => ?_, .one single embeds⟩
  cases h with
  | null => cases hv
  | plain plain => exact absurd plain (Field.embedding_ne_none embeds hid)
  | one _ embeds' item =>
    rw [embeds] at embeds'
    cases embeds'
    exact item
  | many list =>
    rw [single] at list
    cases list

theorem fieldComplete_many_iff (hid : f.isId = false) (list : f.many)
    (embeds : f.embeddedName = some model) :
    FieldComplete r f (.list vs) ↔ ∀ v ∈ vs, Complete r model v := by
  refine ⟨fun h => ?_, .many list embeds⟩
  cases h with
  | plain plain => exact absurd plain (Field.embedding_ne_none embeds hid)
  | one single =>
    rw [list] at single
    cases single
  | many _ embeds' items =>
    rw [embeds] at embeds'
    cases embeds'
    exact items

theorem fieldFull_one_iff (hid : f.isId = false) (single : f.many = false)
    (embeds : f.embeddedName = some model) (hv : v.isNull = false) :
    FieldFull r f v ↔ Full r model v := by
  refine ⟨fun h => ?_, .one single embeds⟩
  cases h with
  | leftOut none =>
    rw [hv] at none
    cases none
  | plain plain => exact absurd plain (Field.embedding_ne_none embeds hid)
  | one _ embeds' item =>
    rw [embeds] at embeds'
    cases embeds'
    exact item
  | many list =>
    rw [single] at list
    cases list

theorem fieldFull_many_iff (hid : f.isId = false) (list : f.many)
    (embeds : f.embeddedName = some model) :
    FieldFull r f (.list vs) ↔ ∀ v ∈ vs, Full r model v := by
  refine ⟨fun h => ?_, .many list embeds⟩
  cases h with
  | leftOut none => cases none
  | plain plain => exact absurd plain (Field.embedding_ne_none embeds hid)
  | one single =>
    rw [list] at single
    cases single
  | many _ embeds' items =>
    rw [embeds] at embeds'
    cases embeds'
    exact items

end Embedding

/-- What is shown of a field is complete exactly if what was supplied for it is full. -/
theorem Shows.complete_iff {f : Field} {x y : Value} (h : Shows (CompleteWhenFull r) f x y)
    (hid : f.isId = false) (hnull : x.isNull = false) (hplain : x.plain.isNull = false) :
    FieldComplete r f y ↔ FieldFull r f x.plain := by
  cases h with
  | plain plain => exact ⟨fun _ => .plain (Or.inl plain), fun _ => .plain (Or.inl plain) hnull⟩
  | one single embeds item =>
    rw [fieldComplete_one_iff hid single embeds item.1,
      fieldFull_one_iff hid single embeds hplain, item.2]
  | many list embeds items =>
    rw [Value.plain, Value.plainItems_eq_map, fieldComplete_many_iff hid list embeds,
      fieldFull_many_iff hid list embeds]
    clear hnull hplain
    induction items with
    | nil => simp
    | cons item _ ih =>
      rw [List.forall_mem_cons, List.map_cons, List.forall_mem_cons, item.2, ih]

/-- A field of an embedded document for which nothing was supplied is shown as null, also an array. -/
theorem fieldComplete_leftOut_iff {f : Field} {v : Value} (hv : v.isNull)
    (hmay : f.isEmbeddedArray = false → f.nullableOnOutput) (hid : f.isId = false) :
    FieldComplete r f .null ↔ FieldFull r f v := by
  constructor
  · exact fun h => .leftOut hv fun _ => h.of_isNull rfl
  · intro h
    refine .null ?_
    by_cases harray : f.isEmbeddedArray
    · cases h with
      | leftOut _ may => exact may harray
      | plain plain =>
        unfold Field.isEmbeddedArray at harray
        rcases plain with hnone | hisId
        · rw [hnone] at harray
          cases harray
        · rw [hid] at hisId
          cases hisId
      | one _ _ item =>
        cases item
        cases hv
      | many => cases hv
    · exact hmay (Bool.eq_false_iff.mpr harray)

/-- Every embedded document is complete exactly if it was supplied full. -/
theorem completeWhenFull (hs : Sound r types) (hd : r.Distinct) (hr : r.Regular)
    (hdemanding : r.Demanding) (x : Value) : ComesAs r types (CompleteWhenFull r) x := by
  refine comesAs hs hd hr (fun model shape fields entries out hbuilt hentries hfields h => ?_) x
  have hfield : ∀ f ∈ fields, ∀ y, Table.find? out f.name = some y →
      (FieldComplete r f y ↔
        FieldFull r f (Fields.get (Value.plainFields entries) f.name)) := by
    intro f hf y hy
    cases hid : f.isId with
    | true =>
      -- the id was drawn, whatever was supplied
      obtain ⟨s, -, hplain⟩ := h.id f y hf hid hy
      refine ⟨fun _ => .plain (Or.inr hid), fun _ => .plain (Or.inr hid) ?_⟩
      cases y <;> first | rfl | cases hplain
    | false =>
      cases hnull : (Fields.get (Value.plainFields entries) f.name).isNull with
      | true =>
        rw [h.leftOut f y hf hid hnull hy]
        exact fieldComplete_leftOut_iff hnull (fun harray => hentries.nullable hs hd hr hdemanding
          hbuilt hfields hf hid harray hnull) hid
      | false =>
        obtain ⟨x, hx, hgiven, hset, hplain⟩ := hentries.supplied hs hd hbuilt hnull
        rw [hplain] at hnull ⊢
        exact (h.given f x y hf hx hgiven hset hy).complete_iff hid hgiven hnull
  refine ⟨rfl, fun hcomplete => ?_, fun hfull => ?_⟩
  · cases hcomplete with
    | object shown _ complete =>
      rw [hfields] at shown
      cases shown
      refine .record hfields fun f hf => ?_
      obtain ⟨y, hy⟩ := Table.exists_find?_of_mem (h.names ▸ List.mem_map_of_mem hf)
      exact (hfield f hf y hy).mp (complete f hf y hy)
  · rw [Value.plain] at hfull
    cases hfull with
    | record shown full =>
      rw [hfields] at shown
      cases shown
      exact .object hfields h.names fun f hf y hy => (hfield f hf y hy).mpr (full f hf)

end DocumentApi
