import DocumentApi.Proofs.Types.Steady
import DocumentApi.Proofs.Types.Values
import Mathlib.Data.List.Nodup

/-!
# Stored values in output types

The type of a field and the value of a field are found by two lists of rules. A field's own type, an
override, an enum or a scalar, comes before an embedded model in the first list and after it in the
second one.

* `Field.Mixes`: a field on which the two lists disagree.
* `TypeRef.Takes`, `Field.Fits`, `DocumentFits`: stored values that fit the type of a field.
* `Renders`: what a stored value becomes by its type: itself for scalars, the member that is stored
  as it for enums, and an instance of the kept type for models.
* `DocumentFits.renders`, `Field.Fits.renders`: what documents without mixed fields become.
* `rendered_iff`: every value that fits a field becomes what its type says exactly if the field is
  not mixed.
-/

namespace DocumentApi

open TypeCache (Sound)

/-! ## Values that fit -/

/-- The field has a type of its own and embeds a model as well. -/
def Field.Mixes (f : Field) : Prop := f.embedding.isSome ∧ f.Shadowed

/-- The stored values of a type that refers to no model. An enum takes any value, since one that
none of its members is stored as stays what it is. -/
inductive TypeRef.Takes : TypeRef → Value → Prop
  | string (s : String) : Takes (.scalar .string) (.text s)
  | id (s : String) : Takes (.scalar .id) (.text s)
  | int (i : Int) : Takes (.scalar .int) (.int i)
  | float (x : Double) : Takes (.scalar .float) (.float x)
  | whole (i : Int) : Takes (.scalar .float) (.int i)
  | boolean (b : Bool) : Takes (.scalar .boolean) (.bool b)
  | enum {name : String} {v : Value} (given : v.isNull = false) (json : v.IsJson) :
      Takes (.enum name) v
  | list {t : TypeRef} {items : List Value} (h : ∀ v ∈ items, Takes t v) :
      Takes (.list t) (.list items)

mutual

/-- A stored value fits the type of a field. -/
inductive Field.Fits (r : Registry) : Field → Value → Prop
  | plain {f : Field} {type : TypeRef} {v : Value} (h : f.plainType? = some type)
      (takes : type.Takes v) : Field.Fits r f v
  | one {f : Field} {model : String} {v : Value} (shadow : ¬ f.Shadowed)
      (name : f.embeddedName = some model) (single : f.many = false)
      (document : DocumentFits r model v) : Field.Fits r f v
  | many {f : Field} {model : String} {items : List Value} (shadow : ¬ f.Shadowed)
      (name : f.embeddedName = some model) (many : f.many = true)
      (documents : ∀ item ∈ items, DocumentFits r model item) : Field.Fits r f (.list items)

/-- The values of a stored document fit the output fields of its model, and none is held by a mixed
field. -/
inductive DocumentFits (r : Registry) : String → Value → Prop
  | record {model : String} {fields : List Field} {data : Fields}
      (hfields : r.outputFields (some model) = .ok fields)
      (fits : ∀ f ∈ fields, (Fields.get (normalizeId data) f.name).isNull = false →
        Field.Fits r f (Fields.get (normalizeId data) f.name))
      (unmixed : ∀ f ∈ fields, (Fields.get (normalizeId data) f.name).isNull = false → ¬ f.Mixes) :
      DocumentFits r model (.record data)

end

/-! ## Values by their types -/

mutual

/-- `Renders types t v w`: by the type `t`, the stored value `v` becomes `w`. -/
inductive Renders (types : TypeCache) : TypeRef → Value → Value → Prop
  | optional {t : TypeRef} {v w : Value} (h : Renders types t v w) : Renders types (.optional t) v w
  | plain {t : TypeRef} {s : Scalar} {v : Value} (scalar : t.core = .scalar s) : Renders types t v v
  | member {name member : String} {members : Table Value} {v stored : Value}
      (declared : Table.find? types.enums name = some members)
      (found : memberStoredAs members v = some (member, stored)) :
      Renders types (.enum name) v (.member name member stored)
  | raw {name : String} {members : Table Value} {v : Value}
      (declared : Table.find? types.enums name = some members)
      (none : memberStoredAs members v = none) : Renders types (.enum name) v v
  | document {key : TypeKey} {shape : TypeShape} {data out : Fields}
      (kept : types.shape? key = some shape)
      (fields : FieldsRender types shape.fields (normalizeId data) out) :
      Renders types (.model key) (.record data) (.object (some shape.name) out)
  | list {key : TypeKey} {items outs : List Value} (h : ItemsRender types key items outs) :
      Renders types (.list (.model key)) (.list items) (.list outs)

/-- The documents of a list become instances one by one. -/
inductive ItemsRender (types : TypeCache) : TypeKey → List Value → List Value → Prop
  | nil {key : TypeKey} : ItemsRender types key [] []
  | cons {key : TypeKey} {item out : Value} {items outs : List Value}
      (first : Renders types (.model key) item out) (rest : ItemsRender types key items outs) :
      ItemsRender types key (item :: items) (out :: outs)

/-- The fields of an instance, each by its type. Absent ones are null. -/
inductive FieldsRender (types : TypeCache) : List TypeField → Fields → Fields → Prop
  | nil {data : Fields} : FieldsRender types [] data []
  | absent {f : TypeField} {fields : List TypeField} {data out : Fields}
      (null : (Fields.get data f.attr).isNull) (rest : FieldsRender types fields data out) :
      FieldsRender types (f :: fields) data ((f.attr, .null) :: out)
  | given {f : TypeField} {fields : List TypeField} {data out : Fields} {w : Value}
      (present : (Fields.get data f.attr).isNull = false)
      (value : Renders types f.type (Fields.get data f.attr) w)
      (rest : FieldsRender types fields data out) :
      FieldsRender types (f :: fields) data ((f.attr, w) :: out)

end

section Rendering

variable {r : Registry} {c : TypeCache} {f : Field} {model : String} {v w : Value}

/-- What is given does not become null. -/
theorem Renders.isNull {types : TypeCache} {t : TypeRef} {v w : Value} (h : Renders types t v w)
    (hv : v.isNull = false) : w.isNull = false :=
  match h with
  | .optional h => Renders.isNull h hv
  | .plain _ => hv
  | .member _ _ => rfl
  | .raw _ _ => hv
  | .document _ _ => rfl
  | .list _ => rfl

theorem TypeRef.Takes.isNull {t : TypeRef} (h : t.Takes v) : v.isNull = false := by
  cases h with
  | enum given => exact given
  | _ => rfl

/-- The type of a field in an output type. -/
theorem Renders.toTypeField (h : Renders c (f.typeIn .output) v w) :
    Renders c (f.toTypeField .output (f.typeIn .output)).type v w := by
  unfold Field.toTypeField
  dsimp only
  split
  · exact .optional h
  · exact h

/-! ## Instances -/

/-- Fields take the values of their names. -/
theorem TypeField.valuesIn_of_attrs {fields : List TypeField} {values entries : Fields}
    (hattrs : fields.map TypeField.attr = Table.names entries)
    (hfind : ∀ e ∈ entries, Table.find? values e.1 = some e.2) :
    (fields.mapM fun f => do return (f.attr, ← f.valueIn values) : Except Error Fields) =
      .ok entries := by
  induction fields generalizing entries with
  | nil =>
    cases entries with
    | nil => rfl
    | cons e entries => cases hattrs
  | cons f fields ih =>
    cases entries with
    | nil => cases hattrs
    | cons e entries =>
      obtain ⟨hattr, hrest⟩ := List.cons.inj hattrs
      have hvalue : f.valueIn values = .ok e.2 := by
        unfold valueIn
        rw [hattr, hfind e List.mem_cons_self]
      rw [List.mapM_cons, hvalue, ih hrest fun e he => hfind e (List.mem_cons_of_mem _ he), hattr]
      rfl

/-- A type that has a field for each of the values has an instance of these. -/
theorem TypeShape.instantiate_of_attrs {shape : TypeShape} {values : Fields}
    (hattrs : shape.fields.map TypeField.attr = Table.names values)
    (hnames : (Table.names values).Nodup) :
    shape.instantiate values = .ok (.object (some shape.name) values) := by
  unfold TypeShape.instantiate
  rw [if_pos, TypeField.valuesIn_of_attrs hattrs fun e he => Table.find?_of_mem hnames he]
  · rfl
  · rw [List.all_eq_true]
    intro entry hentry
    have hmem : entry.1 ∈ shape.fields.map TypeField.attr := hattrs ▸ List.mem_map_of_mem hentry
    obtain ⟨f, hf, hattr⟩ := List.mem_map.mp hmem
    exact List.any_eq_true.mpr ⟨f, hf, by simp [hattr]⟩

/-- All types of an api are known in each of its states. -/
theorem TypeCache.Serves.complete (hc : c.Serves r) (hr : r.Named) : c.Complete r :=
  ⟨fun model fields hfields f hf => ((hc.built_complete hr).declares model fields hfields f hf).mono
    hc.later, fun model d hd => ((hc.built_complete hr).outputs model d hd).mono hc.later⟩

/-- The output type of a model in an api. -/
theorem TypeCache.Serves.output (hc : c.Serves r) (hr : r.Named) {fields : List Field}
    (hfields : r.outputFields (some model) = .ok fields) :
    c.shape? ⟨model, .output⟩ = some (r.shapeOf ⟨model, .output⟩) ∧
      ¬ r.Unbuildable ⟨model, .output⟩ := by
  obtain ⟨d, hd⟩ := hr.model?_of_outputFields hfields
  obtain ⟨shape, hshape⟩ := (hc.complete hr).outputs model d hd
  obtain ⟨hbuildable, rfl⟩ := hc.sound.shapes _ _ hshape
  exact ⟨hshape, hbuildable⟩

/-- A value becomes the first member of a declared enum that is stored as it, if there is one. -/
theorem enumOutput_run {spec : EnumSpec} {members : Table Value}
    (hmembers : Table.find? c.enums spec.name = some members) (hjson : v.IsJson) :
    enumOutput spec v c = (.ok ((memberStoredAs members v).elim v fun entry =>
      .member spec.name entry.1 entry.2), c) := by
  unfold enumOutput
  rw [Step.bind_of_ok (declareEnum_run hmembers)]
  cases hjson <;> (dsimp only; cases memberStoredAs members _ <;> rfl)

/-- A value becomes the member of a declared enum that is stored as it, or stays what it is. -/
theorem enumOutput_renders {spec : EnumSpec} (hdeclared : c.Declares f)
    (hplain : f.typeOverride = none) (hspec : f.enumSpec = some spec) (hjson : v.IsJson) :
    ∃ w, enumOutput spec v c = (.ok w, c) ∧ Renders c (.enum spec.name) v w := by
  obtain ⟨members, hmembers⟩ := hdeclared spec hspec hplain
  rw [enumOutput_run hmembers hjson]
  cases hfound : memberStoredAs members v with
  | none => exact ⟨v, rfl, .raw hmembers hfound⟩
  | some entry => exact ⟨_, rfl, .member hmembers hfound⟩

/-- The value of a field whose type is its own. -/
theorem plainOutput_renders {type : TypeRef} (hdeclared : c.Declares f)
    (hplain : f.plainType? = some type) (hunmixed : ¬ f.Mixes) (htakes : type.Takes v) :
    ∃ w, fieldOutput r f v c = (.ok w, c) ∧ Renders c type v w := by
  have hshadow : f.Shadowed := Field.shadowed_iff.mpr (by rw [hplain]; rfl)
  rw [fieldOutput_eq, if_neg (by simp [htakes.isNull]), if_neg fun he => hunmixed ⟨he, hshadow⟩]
  rcases Field.plainType?_core hplain with ⟨s, hcore⟩ | ⟨spec, hover, hspec, rfl⟩
  · refine ⟨v, ?_, .plain hcore⟩
    cases hspec : f.enumSpec with
    | none => rfl
    | some spec =>
      cases hover : f.typeOverride with
      | some t => rfl
      | none =>
        -- Without an override the enum would be the type.
        unfold Field.plainType? at hplain
        rw [hspec, hover] at hplain
        cases hplain
        cases hcore
  · rw [hspec, hover]
    cases htakes with
    | enum _ json => exact enumOutput_renders hdeclared hover hspec json

/-- The documents of a list become instances one by one. -/
theorem itemsOutput_renders {items : List Value}
    (h : ∀ item ∈ items, ∃ w, toOutput r (some model) item c = (.ok w, c) ∧
      Renders c (.model ⟨model, .output⟩) item w) :
    ∃ outs, Step.each (toOutput r (some model)) items c = (.ok outs, c) ∧
      ItemsRender c ⟨model, .output⟩ items outs := by
  induction items with
  | nil => exact ⟨[], rfl, .nil⟩
  | cons item items ih =>
    obtain ⟨w, hrun, hw⟩ := h item List.mem_cons_self
    obtain ⟨outs, hrest, houts⟩ := ih fun item hitem => h item (List.mem_cons_of_mem _ hitem)
    exact ⟨w :: outs, (Step.bind_of_ok hrun).trans ((Step.bind_of_ok hrest).trans rfl),
      .cons hw houts⟩

/-- The values of fields, each as its type says, are those of an instance of these fields. -/
theorem each_fieldOutput_renders {fields : List Field} {data : Fields}
    (h : ∀ f ∈ fields, (Fields.get data f.name).isNull = false →
      ∃ w, fieldOutput r f (Fields.get data f.name) c = (.ok w, c) ∧
        Renders c (f.typeIn .output) (Fields.get data f.name) w) :
    ∃ out, Step.each (fun f => do
        let v ← fieldOutput r f (Fields.get data f.name)
        pure (f.name, v)) fields c = (.ok out, c) ∧ Table.names out = fields.map Field.name ∧
      FieldsRender c (fields.map fun f => f.toTypeField .output (f.typeIn .output)) data out := by
  induction fields with
  | nil => exact ⟨[], rfl, rfl, .nil⟩
  | cons f fields ih =>
    obtain ⟨out, hrun, hnames, hrest⟩ := ih fun g hg => h g (List.mem_cons_of_mem _ hg)
    cases hnull : (Fields.get data f.name).isNull with
    | true =>
      have hvalue : fieldOutput r f (Fields.get data f.name) c = (.ok .null, c) := by
        rw [fieldOutput_eq, if_pos hnull]
        rfl
      refine ⟨(f.name, .null) :: out, ?_, congrArg (f.name :: ·) hnames, .absent hnull hrest⟩
      refine (Step.bind_of_ok ((Step.bind_of_ok hvalue).trans rfl)).trans ?_
      exact (Step.bind_of_ok hrun).trans rfl
    | false =>
      obtain ⟨w, hvalue, hw⟩ := h f List.mem_cons_self hnull
      refine ⟨(f.name, w) :: out, ?_, congrArg (f.name :: ·) hnames,
        .given hnull hw.toTypeField hrest⟩
      refine (Step.bind_of_ok ((Step.bind_of_ok hvalue).trans rfl)).trans ?_
      exact (Step.bind_of_ok hrun).trans rfl

/-- The values of output fields, each as its type says, make an instance. -/
theorem toOutput_renders (hc : c.Serves r) (hr : r.Named) (hdistinct : r.Distinct)
    {fields : List Field} {data : Fields} (hfields : r.outputFields (some model) = .ok fields)
    (h : ∀ f ∈ fields, (Fields.get (normalizeId data) f.name).isNull = false →
      ∃ w, fieldOutput r f (Fields.get (normalizeId data) f.name) c = (.ok w, c) ∧
        Renders c (f.typeIn .output) (Fields.get (normalizeId data) f.name) w) :
    ∃ out, toOutput r (some model) (.record data) c =
        (.ok (.object (some (r.shapeOf ⟨model, .output⟩).name) out), c) ∧
      FieldsRender c (r.shapeOf ⟨model, .output⟩).fields (normalizeId data) out := by
  obtain ⟨hshape, -⟩ := hc.output hr hfields
  obtain ⟨out, hrun, hnames, hrender⟩ := each_fieldOutput_renders h
  have hlist := Registry.shapeOf_fields (Or.inl rfl) hfields
  have hinstance : (r.shapeOf ⟨model, .output⟩).instantiate out =
      .ok (.object (some (r.shapeOf ⟨model, .output⟩).name) out) :=
    TypeShape.instantiate_of_attrs (by rw [hlist, List.map_map, hnames]; rfl)
      (hnames ▸ hdistinct.outputFields hfields)
  refine ⟨out, ?_, hlist ▸ hrender⟩
  have htype : typeOf r ⟨model, .output⟩ c = (.ok (r.shapeOf ⟨model, .output⟩), c) := by
    rw [typeOf_eq, hshape]
  rw [toOutput_eq, if_neg (by simp [Value.isNull]), hfields]
  refine (Step.bind_of_ok hrun).trans ((Step.bind_of_ok htype).trans ?_)
  rw [hinstance]
  rfl

mutual

/-- A document that fits becomes an instance of the kept type. -/
theorem DocumentFits.renders {model : String} {v : Value} (hc : c.Serves r) (hr : r.Named)
    (hdistinct : r.Distinct) (h : DocumentFits r model v) :
    ∃ w, toOutput r (some model) v c = (.ok w, c) ∧ Renders c (.model ⟨model, .output⟩) v w :=
  match h with
  | .record hfields fits unmixed => by
    obtain ⟨out, hrun, hrender⟩ := toOutput_renders hc hr hdistinct hfields fun f hf hgiven =>
      Field.Fits.renders hc hr hdistinct ((hc.complete hr).declares _ _ hfields f hf)
        (unmixed f hf hgiven)
        (fits f hf hgiven) hgiven
    exact ⟨_, hrun, .document (hc.output hr hfields).1 hrender⟩

/-- A value that fits a field becomes what the type of the field says. -/
theorem Field.Fits.renders {f : Field} {v : Value} (hc : c.Serves r) (hr : r.Named)
    (hdistinct : r.Distinct) (hdeclared : c.Declares f) (hunmixed : ¬ f.Mixes) (h : f.Fits r v)
    (hv : v.isNull = false) :
    ∃ w, fieldOutput r f v c = (.ok w, c) ∧ Renders c (f.typeIn .output) v w :=
  match h with
  | .plain hplain takes => by
    rw [show f.typeIn .output = _ by unfold Field.typeIn; rw [hplain]]
    exact plainOutput_renders hdeclared hplain hunmixed takes
  | .one shadow name single document => by
    obtain ⟨w, hrun, hw⟩ := document.renders hc hr hdistinct
    obtain ⟨he, htype⟩ := Field.typeIn_embedded shadow name
    rw [fieldOutput_eq, if_neg (by simp [hv]), if_pos he, if_neg (by simp [single]), name, htype,
      single]
    exact ⟨w, hrun, hw⟩
  | @Field.Fits.many _ _ _ items shadow name many documents => by
    have hitems : ∀ item ∈ items, _ := fun item hitem =>
      (documents item hitem).renders hc hr hdistinct
    obtain ⟨he, htype⟩ := Field.typeIn_embedded shadow name
    rw [fieldOutput_eq, if_neg (by simp [hv]), if_pos he, if_pos many, name, htype, many]
    obtain ⟨outs, hrun, hall⟩ := itemsOutput_renders hitems
    exact ⟨.list outs, (Step.bind_of_ok hrun).trans rfl, .list hall⟩

end

/-! ## Mixed fields -/

/-- A value of a type that refers to no model. -/
def TypeRef.sample : TypeRef → Value
  | .scalar .string | .scalar .id => .text "x"
  | .scalar .boolean => .bool true
  | .list t => .list [t.sample]
  | _ => .int 1

theorem TypeRef.sample_isNull (t : TypeRef) : t.sample.isNull = false := by
  unfold sample
  split <;> rfl

theorem plainType?_sample {type : TypeRef} (h : f.plainType? = some type) :
    type.Takes type.sample := by
  have hscalar : ∀ s : Scalar, (TypeRef.scalar s).Takes (TypeRef.scalar s).sample := by
    intro s
    cases s with
    | string => exact .string _
    | int => exact .int _
    | float => exact .whole _
    | boolean => exact .boolean _
    | id => exact .id _
  have hdeclared : ∀ t : DeclaredType, t.ref.Takes t.ref.sample := by
    intro t
    induction t with
    | scalar s => exact hscalar s
    | list item ih =>
      refine .list fun v hv => ?_
      rw [List.mem_singleton.mp hv]
      exact ih
  unfold Field.plainType? at h
  split at h
  · cases h
    exact hdeclared _
  · cases h
    exact .enum rfl (.int 1)
  · obtain ⟨s, -, rfl⟩ := Option.map_eq_some_iff.mp h
    exact hscalar s

/-- A sample is no pair of a name and a value. -/
theorem TypeRef.toPair_sample (t : TypeRef) : ∃ e, t.sample.toPair = .error e := by
  unfold sample
  split <;> exact ⟨_, rfl⟩

/-- A sample has no fields. -/
theorem TypeRef.toFields_sample (t : TypeRef) : ∃ e, t.sample.toFields = .error e := by
  unfold sample
  split
  · exact ⟨_, rfl⟩
  · exact ⟨_, rfl⟩
  · exact ⟨_, rfl⟩
  · rename_i t
    obtain ⟨e, he⟩ := t.toPair_sample
    refine ⟨e, ?_⟩
    show (do return Table.ofPairs (← [t.sample].mapM Value.toPair)) = _
    rw [List.mapM_cons, he]
    rfl
  · exact ⟨_, rfl⟩

/-- A mixed field has values of its type that are refused, since no documents can be read from
them. -/
theorem fieldOutput_sample {type : TypeRef} (hmixes : f.Mixes) (c : TypeCache) :
    ∃ e, (fieldOutput r f type.sample c).1 = .error e := by
  have hdocument : ∀ (t : TypeRef) model c, ∃ e, toOutput r model t.sample c = (.error e, c) := by
    intro t model c
    obtain ⟨e, he⟩ := t.toFields_sample
    rw [toOutput_eq, if_neg (by simp [t.sample_isNull]), he]
    exact ⟨e, rfl⟩
  rw [fieldOutput_eq, if_neg (by simp [type.sample_isNull]), if_pos hmixes.1]
  split
  · have hfirst : ∀ (t : TypeRef) (items : List Value), ∃ e,
        ((do
          let items ← Step.each (toOutput r f.embeddedName) (t.sample :: items)
          pure (.list items) : Step TypeCache Value) c).1 = .error e := by
      intro t items
      obtain ⟨e, he⟩ := hdocument t f.embeddedName c
      refine ⟨e, ?_⟩
      have heach : Step.each (toOutput r f.embeddedName) (t.sample :: items) c = (.error e, c) := by
        show (toOutput r f.embeddedName t.sample >>= _) c = _
        rw [Step.bind_run, he]
      rw [Step.bind_run, heach]
    unfold TypeRef.sample
    split
    · exact hfirst (.scalar .string) []
    · exact hfirst (.scalar .string) []
    · exact ⟨_, rfl⟩
    · exact hfirst _ []
    · exact ⟨_, rfl⟩
  · obtain ⟨e, he⟩ := hdocument type f.embeddedName c
    rw [he]
    exact ⟨e, rfl⟩

/-- A field of an output type of an api has values that are not null. -/
theorem exists_fits (hc : c.Serves r) (hr : r.Named) {fields : List Field}
    (hfields : r.outputFields (some model) = .ok fields) (hf : f ∈ fields) :
    ∃ v, v.isNull = false ∧ f.Fits r v := by
  obtain ⟨-, hbuildable⟩ := hc.output hr hfields
  cases hplain : f.plainType? with
  | some type => exact ⟨type.sample, type.sample_isNull, .plain hplain (plainType?_sample hplain)⟩
  | none =>
    have hshadow := Field.not_shadowed_iff.mpr hplain
    obtain ⟨nested, hnests⟩ : ∃ nested, f.Nests .output nested := by
      by_contra hnone
      refine hbuildable
        ⟨_, .refl, Or.inr (Or.inl ⟨Or.inl rfl, fields, hfields, f, hf, hshadow, ?_⟩)⟩
      exact fun nested h => hnone ⟨nested, h⟩
    have hnested : r.Nests ⟨model, .output⟩ nested := .field (Or.inl rfl) hfields hf hnests
    cases hnests with
    | @embedded _ embedded _ name _ =>
      cases hregistered : r.model? embedded with
      | none =>
        exact absurd ((Registry.Unbuildable.of_unregistered hregistered).of_nests hnested)
          hbuildable
      | some d =>
        obtain ⟨declared, hdeclared⟩ := Registry.fieldsFor_ok hregistered .output
        cases hmany : f.many with
        | true => exact ⟨.list [], rfl, .many hshadow name hmany nofun⟩
        | false =>
          refine ⟨.record [], rfl, .one hshadow name hmany (.record hdeclared ?_ ?_)⟩ <;>
            exact fun g _ hgiven => absurd hgiven (by simp [normalizeId, Fields.get, Value.isNull])

/-- A document holds in a field a value that fits it, and in other fields at most values that fit
them and that no mixed field holds. -/
structure Field.HeldIn (r : Registry) (fields : List Field) (f : Field) (data : Fields) : Prop where
  given : (Fields.get data f.name).isNull = false
  fits : f.Fits r (Fields.get data f.name)
  others : ∀ g ∈ fields, g.name ≠ f.name → (Fields.get (normalizeId data) g.name).isNull = false →
    g.Fits r (Fields.get (normalizeId data) g.name) ∧ ¬ g.Mixes

/-- A document becomes an instance of the kept output type, whose field has what the stored value
becomes by the type of the field. -/
def Field.RenderedIn (r : Registry) (c : TypeCache) (model : String) (f : Field) (data : Fields) :
    Prop :=
  ∃ shape out tf w, c.shape? ⟨model, .output⟩ = some shape ∧
    toOutput r (some model) (.record data) c = (.ok (.object (some shape.name) out), c) ∧
    tf ∈ shape.fields ∧ tf.attr = f.name ∧ Table.find? out f.name = some w ∧
    Renders c tf.type (Fields.get data f.name) w

theorem FieldsRender.find? {types : TypeCache} {fields : List TypeField} {data out : Fields}
    (h : FieldsRender types fields data out) {key : String}
    (hgiven : (Fields.get data key).isNull = false) (hkey : key ∈ fields.map TypeField.attr) :
    ∃ tf ∈ fields, tf.attr = key ∧ ∃ w, Table.find? out key = some w ∧
      Renders types tf.type (Fields.get data key) w := by
  induction fields generalizing out with
  | nil => cases hkey
  | cons tf fields ih =>
    by_cases hsame : tf.attr = key
    · subst hsame
      cases h with
      | absent null =>
        rw [null] at hgiven
        cases hgiven
      | given _ value => exact ⟨tf, List.mem_cons_self, rfl, _, if_pos rfl, value⟩
    · have hrest : ∀ {w rest}, FieldsRender types fields data rest → ∃ tf' ∈ tf :: fields,
          tf'.attr = key ∧ ∃ v, Table.find? ((tf.attr, w) :: rest) key = some v ∧
            Renders types tf'.type (Fields.get data key) v := by
        intro w rest hrest
        obtain ⟨tf', htf, hattr, v, hfind, hv⟩ :=
          ih hrest ((List.mem_cons.mp hkey).resolve_left (Ne.symm hsame))
        refine ⟨tf', List.mem_cons_of_mem _ htf, hattr, v, ?_, hv⟩
        rw [Table.find?_cons, if_neg hsame, hfind]
      cases h with
      | absent _ rest => exact hrest rest
      | given _ _ rest => exact hrest rest

/-- The value of a field that is rendered is found, and not null. -/
theorem Field.RenderedIn.value (hr : r.Distinct) (hs : Sound r c) {fields : List Field}
    {data : Fields} (hfields : r.outputFields (some model) = .ok fields) (hf : f ∈ fields)
    (hgiven : (Fields.get data f.name).isNull = false) (h : f.RenderedIn r c model data) :
    ∃ c₁ c₂ w, fieldOutput r f (Fields.get (normalizeId data) f.name) c₁ = (.ok w, c₂) ∧
      w.isNull = false := by
  obtain ⟨shape, out, tf, w, -, hrun, -, -, hw, hrender⟩ := h
  obtain ⟨fields', out', hfields', hout, -, -, hvalues⟩ := toOutput_record hr hs hrun
  rw [hfields] at hfields'
  cases hfields'
  cases hout
  obtain ⟨c₁, c₂, w', -, -, hvalue, hw'⟩ := hvalues f hf
  rw [hw] at hw'
  cases hw'
  exact ⟨c₁, c₂, w, hvalue, hrender.isNull hgiven⟩

/-- The other name of the id is dropped from a document with an id, be it null. -/
theorem exists_heldIn_of_id (hc : c.Serves r) (hr : r.Named) {fields : List Field}
    (hfields : r.outputFields (some model) = .ok fields) (hf : f ∈ fields)
    (hname : f.name = "_id") :
    ∃ data, f.HeldIn r fields data ∧ Fields.get (normalizeId data) f.name = .null := by
  obtain ⟨v, hv, hfits⟩ := exists_fits hc hr hfields hf
  have hnormal : normalizeId [("id", .null), ("_id", v)] = [("id", .null)] := rfl
  refine ⟨[("id", .null), ("_id", v)], ⟨by rw [hname]; exact hv, by rw [hname]; exact hfits,
    fun g _ _ hgiven => ?_⟩, by rw [hname]; rfl⟩
  rw [hnormal] at hgiven
  by_cases hgid : "id" = g.name <;> simp [Fields.get, Table.find?, hgid, Value.isNull] at hgiven

/-- A mixed field is held by a document with a value of its type alone. -/
theorem exists_heldIn_of_mixes {fields : List Field} (hmixes : f.Mixes) (hid : f.name ≠ "id")
    (hother : f.name ≠ "_id") : ∃ data type, f.HeldIn r fields data ∧
      Fields.get (normalizeId data) f.name = TypeRef.sample type := by
  obtain ⟨type, hplain⟩ := Option.isSome_iff_exists.mp (Field.shadowed_iff.mp hmixes.2)
  have hget : ∀ key, Fields.get [(f.name, type.sample)] key =
      if f.name = key then type.sample else .null := by
    intro key
    unfold Fields.get
    rw [Table.find?_cons]
    split <;> rfl
  have hnormal : normalizeId [(f.name, type.sample)] = [(f.name, type.sample)] := by
    unfold normalizeId
    rw [Table.find?_cons, if_neg hother]
    dsimp only [Table.find?_nil]
    rw [hget, if_neg hid]
    rfl
  refine ⟨[(f.name, type.sample)], type, ⟨?_, ?_, fun g _ hne hgiven => ?_⟩, ?_⟩
  · rw [hget, if_pos rfl]
    exact type.sample_isNull
  · rw [hget, if_pos rfl]
    exact .plain hplain (plainType?_sample hplain)
  · rw [hnormal, hget, if_neg (Ne.symm hne)] at hgiven
    cases hgiven
  · rw [hnormal, hget, if_pos rfl]

/-- A field that is not mixed is rendered in every document that holds it. -/
theorem Field.HeldIn.rendered (hc : c.Serves r) (hr : r.Named) (hdistinct : r.Distinct)
    {fields : List Field} {data : Fields} (hfields : r.outputFields (some model) = .ok fields)
    (hf : f ∈ fields) (hunmixed : ¬ f.Mixes) (hid : f.name ≠ "id") (hother : f.name ≠ "_id")
    (h : f.HeldIn r fields data) : f.RenderedIn r c model data := by
  have hget : Fields.get (normalizeId data) f.name = Fields.get data f.name :=
    normalizeId_get hid hother
  have hvalues : ∀ g ∈ fields, (Fields.get (normalizeId data) g.name).isNull = false → ∃ w,
      fieldOutput r g (Fields.get (normalizeId data) g.name) c = (.ok w, c) ∧
        Renders c (g.typeIn .output) (Fields.get (normalizeId data) g.name) w := by
    intro g hg hgiven
    have hdeclared := (hc.complete hr).declares model fields hfields g hg
    by_cases hsame : g.name = f.name
    · obtain rfl := List.inj_on_of_nodup_map (hdistinct.outputFields hfields) hg hf hsame
      rw [hget] at hgiven ⊢
      exact h.fits.renders hc hr hdistinct hdeclared hunmixed hgiven
    · obtain ⟨hfits, hunmixed'⟩ := h.others g hg hsame hgiven
      exact hfits.renders hc hr hdistinct hdeclared hunmixed' hgiven
  obtain ⟨out, hrun, hrender⟩ := toOutput_renders hc hr hdistinct hfields hvalues
  have hattrs : f.name ∈ (r.shapeOf ⟨model, .output⟩).fields.map TypeField.attr := by
    rw [Registry.shapeOf_fields (Or.inl rfl) hfields, List.map_map]
    exact List.mem_map_of_mem hf
  obtain ⟨tf, htf, hattr, w, hfind, hw⟩ := hrender.find? (by rw [hget]; exact h.given) hattrs
  rw [hget] at hw
  exact ⟨_, out, tf, w, (hc.output hr hfields).1, hrun, htf, hattr, hfind, hw⟩

/-- What a field of an api shows, of all documents that hold nothing in mixed fields apart from it,
is what its type says, exactly if it is not mixed itself. The field may not be the id under either
of its names, one of which is dropped. -/
theorem rendered_iff (hr : r.Reachable) {s : State} (hs : r.Running s) {fields : List Field}
    (hfields : r.outputFields (some model) = .ok fields) (hf : f ∈ fields) (hid : f.name ≠ "id") :
    (∀ data, f.HeldIn r fields data → f.RenderedIn r s.types model data) ↔
      ¬ f.Mixes ∧ f.name ≠ "_id" := by
  have hc := hs.serves
  constructor
  · intro hall
    have hvalue : ∀ data, f.HeldIn r fields data → ∃ c₁ c₂ w,
        fieldOutput r f (Fields.get (normalizeId data) f.name) c₁ = (.ok w, c₂) ∧
          w.isNull = false :=
      fun data hheld => (hall data hheld).value hr.distinct hc.sound hfields hf hheld.given
    have hother : f.name ≠ "_id" := by
      intro hname
      obtain ⟨data, hheld, hnull⟩ := exists_heldIn_of_id hc hr.named hfields hf hname
      obtain ⟨c₁, c₂, w, hrun, hw⟩ := hvalue data hheld
      rw [hnull, fieldOutput_eq, if_pos (show Value.null.isNull = true from rfl)] at hrun
      cases hrun
      cases hw
    refine ⟨fun hmixes => ?_, hother⟩
    obtain ⟨data, type, hheld, hsample⟩ := exists_heldIn_of_mixes hmixes hid hother
    obtain ⟨c₁, c₂, w, hrun, -⟩ := hvalue data hheld
    obtain ⟨e, he⟩ : ∃ e, (fieldOutput r f type.sample c₁).1 = .error e :=
      fieldOutput_sample hmixes c₁
    rw [← hsample, hrun] at he
    cases he
  · rintro ⟨hunmixed, hother⟩ data hheld
    exact hheld.rendered hc hr.named hr.distinct hfields hf hunmixed hid hother

end Rendering

/-! ## Addresses of a person -/

def addressModel : Definition :=
  ⟨"Address", [{ name := "street" }], .all, false, "", true, none⟩

/-- The address of a document, as one that is embedded. -/
def homeField : Field :=
  { name := "home", storageType := "object", embedding := some (.named "Address") }

/-- An address that is declared as a text and embeds a model as well. -/
def addressField : Field :=
  { name := "address", embedding := some (.named "Address") }

def personModel : Definition :=
  ⟨"Person", [homeField, addressField], .all, false, "", false, none⟩

def personModels : Registry where
  definitions := [addressModel, personModel]
  models := [("Address", ⟨0, addressModel.declaredFields⟩),
    ("Person", ⟨1, personModel.declaredFields⟩)]

def personState : State where
  types := personModels.builtTypes

theorem personModels_reachable : personModels.Reachable := by
  have hdefined := Registry.Reachable.defined personModels.definitions
  exact (hdefined.registered 0 rfl).registered 1 rfl

theorem person_evaluated : (buildAll personModels {}).1.isOk ∧
    (toOutput personModels (some "Person") (.record [("address", .text "Main street")])
      personState.types).1.isOk = false := by
  -- The recursions are opened to the depth of the models; the rest is evaluated.
  have hwhile := funext fun begun => funext (typeWhile.eq_def personModels begun)
  have hfields := funext fun begun => funext fun key =>
    funext (fieldsWhile.eq_def personModels begun key)
  have houtput := funext fun model => funext (toOutput_eq personModels model)
  have hfield := funext fun f => funext (fieldOutput_eq personModels f)
  unfold personState Registry.builtTypes
  rw [houtput, hfield, houtput]
  unfold buildAll buildModel filterTypeOf sortTypeOf typeOf
  rw [hwhile, hfields, hfields, hfields, hfields, hwhile]
  decide +kernel

theorem personState_running : personModels.Running personState := by
  have hbuilt : buildAll personModels {} = (.ok (), personModels.builtTypes) :=
    Step.eq_of_isOk person_evaluated.1
  exact .built hbuilt {} ⟨0, 0, 0⟩ []

/-- A home is shown by its type, and the text that an address is declared as is not. -/
theorem rendered_person : personModels.Reachable ∧ personModels.Running personState ∧
    personModels.outputFields (some "Person") = .ok personModel.declaredFields ∧
    homeField ∈ personModel.declaredFields ∧ homeField.name ≠ "id" ∧
    addressField ∈ personModel.declaredFields ∧ addressField.name ≠ "id" ∧
    homeField.RenderedIn personModels personState.types "Person"
      [("home", .record [("street", .text "Main street")])] ∧
    ¬ ∀ data, addressField.HeldIn personModels personModel.declaredFields data →
      addressField.RenderedIn personModels personState.types "Person" data := by
  have hhome : homeField ∈ personModel.declaredFields := List.mem_cons_of_mem _ List.mem_cons_self
  have haddress : addressField ∈ personModel.declaredFields :=
    List.mem_cons_of_mem _ (List.mem_cons_of_mem _ List.mem_cons_self)
  refine ⟨personModels_reachable, personState_running, rfl, hhome, by decide, haddress, by decide,
    ?_, fun hall => ?_⟩
  · refine (rendered_iff personModels_reachable personState_running rfl hhome (by decide)).mpr
      ⟨fun hmixes => ?_, by decide⟩ _ ⟨rfl, ?_, ?_⟩
    · exact absurd hmixes.2 (Field.not_shadowed_iff.mpr rfl)
    · refine .one (Field.not_shadowed_iff.mpr rfl) rfl rfl (.record rfl ?_ ?_)
      · intro f hf hgiven
        obtain rfl | rfl := List.mem_pair.mp hf
        · cases hgiven
        · exact .plain rfl (.string "Main street")
      · intro f hf hgiven hmixes
        obtain rfl | rfl := List.mem_pair.mp hf <;> cases hmixes.1
    · intro g hg hne hgiven
      rcases List.mem_cons.mp hg with rfl | hg
      · cases hgiven
      · obtain rfl | rfl := List.mem_pair.mp hg
        · exact absurd rfl hne
        · cases hgiven
  · refine ((rendered_iff personModels_reachable personState_running rfl haddress (by decide)).mp
      hall).1 ⟨rfl, Field.shadowed_iff.mpr rfl⟩

/-- The text that an address is declared as is refused. -/
theorem toOutput_address_refused : personModels.Reachable ∧ personModels.Running personState ∧
    personModels.outputFields (some "Person") = .ok personModel.declaredFields ∧
    addressField ∈ personModel.declaredFields ∧ addressField.plainType? = some (.scalar .string) ∧
    (TypeRef.scalar .string).Takes (.text "Main street") ∧
    (toOutput personModels (some "Person") (.record [("address", .text "Main street")])
      personState.types).1.isOk = false :=
  ⟨personModels_reachable, personState_running, rfl,
    List.mem_cons_of_mem _ (List.mem_cons_of_mem _ List.mem_cons_self), rfl, .string _,
    person_evaluated.2⟩

end DocumentApi
