import DocumentApi.Proofs.Model.Reachable
import DocumentApi.Proofs.Types.Building
import DocumentApi.Types.Output

/-!
# Instances of output types

* `toOutput_eq`, `fieldOutput_eq`: how a document and the values of its fields become instances.
* `Settles`: a step on types that has answered once answers the same again, from any later cache,
  and leaves that cache as it is.
* `output_settles`: documents become the same instances at any later time.
* `toOutput_record`: the instance of a document has a field for each output field of its model.
-/

namespace DocumentApi

open TypeCache (Sound Builds)

theorem toOutput_eq (r : Registry) (model : Option String) (doc : Value) :
    toOutput r model doc =
      (if doc.isNull then pure .null
      else do
        let data ← Step.ofExcept doc.toFields
        let fields ← Step.ofExcept (r.outputFields model)
        let values ← Step.each (fun f => do
          let v ← fieldOutput r f (Fields.get (normalizeId data) f.name)
          pure (f.name, v)) fields
        let shape ← typeOf r ⟨model.getD "", .output⟩
        Step.ofExcept (shape.instantiate values)) := by
  rw [toOutput]
  split
  · rfl
  · split
    · rename_i e he
      rw [he]
      rfl
    · rename_i data hdata
      rw [hdata]
      rfl

theorem fieldOutput_eq (r : Registry) (f : Field) (raw : Value) :
    fieldOutput r f raw =
      if raw.isNull then pure .null
      else if f.embedding.isSome then
        if f.many then
          match raw.elements with
          | none => Step.fail .wrongKind
          | some items => do
            let items ← Step.each (toOutput r f.embeddedName) items
            pure (.list items)
        else toOutput r f.embeddedName raw
      else match f.enumSpec, f.typeOverride with
        | some spec, none => enumOutput spec raw
        | _, _ => pure raw := by
  rw [fieldOutput]
  split
  · rfl
  split
  · split
    · split
      · rename_i he
        rw [he]
      · rename_i items hitems
        rw [hitems, Step.each_attach (toOutput r f.embeddedName)]
    · rfl
  · rfl

/-- A type that is kept is answered without being built. -/
theorem typeOf_eq (r : Registry) (key : TypeKey) (c : TypeCache) :
    typeOf r key c = match c.shape? key with
      | some shape => (.ok shape, c)
      | none => typeWhile r [] key c := by
  unfold typeOf
  cases cached : c.shape? key with
  | none => rfl
  | some shape =>
    rw [typeWhile, Step.bind_run]
    dsimp only [Step.state]
    rw [cached]
    rfl

theorem normalizeId_get {doc : Fields} {key : String} (hid : key ≠ "id") (hother : key ≠ "_id") :
    Fields.get (normalizeId doc) key = Fields.get doc key := by
  have hset : ∀ fields : Fields, Fields.get (if (Fields.get fields "id").isNull then fields
      else Table.set fields "id" (.text (Fields.get fields "id").display)) key =
        Fields.get fields key := by
    intro fields
    split
    · rfl
    · exact Fields.get_set_ne hid.symm
  unfold normalizeId
  dsimp only
  rw [hset]
  cases Table.find? doc "_id" with
  | none => rfl
  | some id =>
    dsimp only
    split
    · exact Fields.get_remove_ne hother.symm
    · rw [Fields.get_set_ne hid.symm, Fields.get_remove_ne hother.symm]

/-- A document that has a text as its id keeps it, under its own name alone. -/
theorem normalizeId_eq {doc : Fields} {id : String} (h : Table.find? doc "id" = some (.text id)) :
    normalizeId doc = Table.set (Table.remove doc "_id") "id" (.text id) := by
  have hset : ∀ fields : Fields, Table.find? fields "id" = some (.text id) →
      (if (Fields.get fields "id").isNull then fields
        else Table.set fields "id" (.text (Fields.get fields "id").display)) =
          Table.set fields "id" (.text id) := by
    intro fields hid
    rw [Fields.get_of_find? hid]
    rfl
  have hrest : Table.find? (Table.remove doc "_id") "id" = some (.text id) := by
    rw [Table.find?_remove_ne (by decide), h]
  unfold normalizeId
  dsimp only
  cases hother : Table.find? doc "_id" with
  | none =>
    have hkept : Table.remove doc "_id" = doc := List.filter_eq_self.mpr fun entry hentry => by
      have hname : entry.1 ≠ "_id" := fun hname =>
        Table.find?_eq_none_iff.mp hother (List.mem_map.mpr ⟨entry, hentry, hname⟩)
      simpa using hname
    rw [hkept]
    exact hset doc h
  | some other =>
    have hhas : Table.has (Table.remove doc "_id") "id" = true := by
      unfold Table.has
      rw [hrest]
      rfl
    refine (hset (if Table.has (Table.remove doc "_id") "id" then _ else _) ?_).trans ?_
    · rw [if_pos hhas, hrest]
    · rw [if_pos hhas]

theorem normalizeId_id {doc : Fields} {id : String} (h : Table.find? doc "id" = some (.text id)) :
    Fields.get (normalizeId doc) "id" = .text id := by
  rw [normalizeId_eq h, Fields.get_set_self]

/-! ## Steps that settle -/

/-- A step on types that builds, and once it has answered answers the same from any later cache and
leaves that cache as it is. -/
def Settles {α : Type} (r : Registry) (x : Step TypeCache α) : Prop :=
  ∀ c, Sound r c → Builds r x c fun answer c' =>
    ∀ a, answer = .ok a → ∀ later, c' ≤ later → Sound r later → x later = (.ok a, later)

namespace Settles

variable {α β : Type} {r : Registry}

theorem pure (a : α) : Settles r (Pure.pure a) :=
  fun _ hs => Builds.pure hs fun a h later _ _ => by cases h; rfl

theorem fail (e : Error) : Settles r (Step.fail e : Step TypeCache α) :=
  fun _ hs => Builds.fail hs fun a h => by cases h

theorem ofExcept (x : Except Error α) : Settles r (Step.ofExcept x) :=
  fun _ hs => Builds.ofExcept hs fun a h later _ _ => by rw [h]; rfl

theorem bind {x : Step TypeCache α} {f : α → Step TypeCache β} (hx : Settles r x)
    (hf : ∀ a, Settles r (f a)) : Settles r (x >>= f) := by
  intro c hs
  refine (hx c hs).bind (fun a c₁ _ hs₁ hsettled => ?_) fun e _ _ a h => by cases h
  obtain ⟨hle, hs₂, hlast⟩ := hf a c₁ hs₁
  refine ⟨hle, hs₂, fun b hb later hlater hslater => ?_⟩
  rw [Step.bind_of_ok (hsettled a rfl later (TypeCache.le_trans hle hlater) hslater)]
  exact hlast b hb later hlater hslater

theorem each {f : α → Step TypeCache β} {xs : List α} (hf : ∀ x ∈ xs, Settles r (f x)) :
    Settles r (Step.each f xs) := by
  induction xs with
  | nil => exact pure []
  | cons x xs ih =>
    refine bind (hf x List.mem_cons_self) fun b => ?_
    exact bind (ih fun y hy => hf y (List.mem_cons_of_mem _ hy)) fun bs => pure (b :: bs)

end Settles

theorem typeOf_settles (r : Registry) (key : TypeKey) : Settles r (typeOf r key) := by
  intro c hs
  refine (typeWhile_builds r [] key c hs).mono fun answer c' hanswer shape hshape later hle _ => ?_
  subst hshape
  rw [typeOf_eq, hle.shapes key shape hanswer.2.2]

theorem TypeCache.declare_of_has {c : TypeCache} {spec : EnumSpec} {members : Table Value}
    (h : Table.find? c.enums spec.name = some members) : c.declare spec = c := by
  unfold TypeCache.declare Table.has
  rw [h]
  rfl

/-- An enum that was declared has members of its name. -/
theorem TypeCache.find?_declare (c : TypeCache) (spec : EnumSpec) :
    Table.find? (c.declare spec).enums spec.name = some (c.membersOf spec) := by
  unfold TypeCache.declare TypeCache.membersOf Table.has
  cases found : Table.find? c.enums spec.name with
  | some members => exact found
  | none =>
    show Table.find? (c.enums ++ [(spec.name, spec.members)]) spec.name = _
    rw [Table.find?_append, found, Table.find?_cons, if_pos rfl]
    rfl

theorem TypeCache.find?_declare_ne (c : TypeCache) {spec : EnumSpec} {name : String}
    (h : spec.name ≠ name) :
    Table.find? (c.declare spec).enums name = Table.find? c.enums name := by
  unfold TypeCache.declare
  split
  · rfl
  · rw [Table.find?_append, Table.find?_cons, if_neg h]
    cases Table.find? c.enums name <;> rfl

theorem declareEnum_settles {r : Registry} {f : Field} {spec : EnumSpec} (hf : r.HasField f)
    (hspec : f.enumSpec = some spec) : Settles r (declareEnum spec) := by
  intro c hs
  refine (declareEnum_builds hs hf hspec).mono fun answer c' ⟨hc', hanswer⟩ a ha later hle _ => ?_
  have hmembers := hle.enums _ _ (hc' ▸ TypeCache.find?_declare c spec)
  have hsame : c'.membersOf spec = c.membersOf spec := by
    rw [hc']
    show ((c.declare spec).enums.find? spec.name).getD spec.members = _
    rw [TypeCache.find?_declare]
    rfl
  rw [hanswer, hsame] at ha
  cases ha
  show (Except.ok ((later.declare spec).membersOf spec), later.declare spec) = _
  rw [TypeCache.declare_of_has hmembers]
  unfold TypeCache.membersOf at hmembers ⊢
  rw [hmembers]
  rfl

theorem enumOutput_settles {r : Registry} {f : Field} {spec : EnumSpec} (hf : r.HasField f)
    (hspec : f.enumSpec = some spec) (raw : Value) : Settles r (enumOutput spec raw) := by
  unfold enumOutput
  refine (declareEnum_settles hf hspec).bind fun members => ?_
  dsimp only
  split
  · split
    · exact Settles.pure _
    · split <;> exact Settles.pure _
  · split <;> exact Settles.pure _

theorem Registry.hasField_of_outputFields {r : Registry} {model : Option String}
    {fields : List Field} {f : Field} (h : r.outputFields model = .ok fields) (hf : f ∈ fields) :
    r.HasField f := by
  cases model with
  | none => cases h
  | some model => exact ⟨model, @Registry.mem_of_fieldsFor r model .output fields f h hf⟩

theorem Registry.HasField.mem {r : Registry} {f : Field} (h : r.HasField f) :
    f ∈ r.models.flatMap fun m => m.2.fields := by
  obtain ⟨model, fields, hfields, hf⟩ := h
  unfold fieldsOf at hfields
  cases found : Table.find? r.models model with
  | none =>
    rw [found] at hfields
    cases hfields
  | some m =>
    rw [found] at hfields
    cases hfields
    exact List.mem_flatMap.mpr ⟨_, Table.mem_of_find? found, hf⟩

/-- The fields of an output are declared, not excluded and no relations. -/
theorem Registry.mem_outputFields {r : Registry} {model : String} {declared fields : List Field}
    {f : Field} (hdeclared : r.fieldsOf model = .ok declared)
    (h : r.outputFields (some model) = .ok fields) (hf : f ∈ fields) :
    f ∈ declared ∧ f.excludedOnOutput = false ∧ f.isRelation = false := by
  unfold outputFields fieldsOfEmbedded at h
  dsimp only at h
  rw [hdeclared] at h
  cases h
  obtain ⟨hf, hkept⟩ := List.mem_filter.mp hf
  exact ⟨hf, by simpa using hkept⟩

/-- A document becomes the same instance again, and so does the value of a field. -/
theorem output_settles (r : Registry) : (∀ model doc, Settles r (toOutput r model doc)) ∧
    ∀ f raw, r.HasField f → Settles r (fieldOutput r f raw) := by
  refine toOutput.mutual_induct (fun model doc => Settles r (toOutput r model doc))
    (fun f raw => r.HasField f → Settles r (fieldOutput r f raw)) ?_ ?_ ?_ ?_ ?_ ?_ ?_ ?_ ?_
  · intro model doc hnull
    rw [toOutput_eq, if_pos hnull]
    exact Settles.pure _
  · intro model doc hnull e he
    rw [toOutput_eq, if_neg hnull, he]
    exact Settles.fail e
  · intro model doc hnull data hdata ih
    rw [toOutput_eq, if_neg hnull, hdata]
    cases hfields : r.outputFields model with
    | error e => exact Settles.fail e
    | ok fields =>
      have heach : Settles r (Step.each (fun f => do
          let v ← fieldOutput r f (Fields.get (normalizeId data) f.name)
          pure (f.name, v)) fields) := Settles.each fun f hf =>
        (ih f (Registry.hasField_of_outputFields hfields hf)).bind fun v => Settles.pure _
      exact heach.bind fun values => (typeOf_settles r _).bind fun shape => Settles.ofExcept _
  · intro f raw hnull _
    rw [fieldOutput_eq, if_pos hnull]
    exact Settles.pure _
  · intro f raw hnull hembeds hmany hnone _
    rw [fieldOutput_eq, if_neg hnull, if_pos hembeds, if_pos hmany, hnone]
    exact Settles.fail _
  · intro f raw hnull hembeds hmany items hitems ih _
    rw [fieldOutput_eq, if_neg hnull, if_pos hembeds, if_pos hmany, hitems]
    exact (Settles.each fun item h => ih ⟨item, h⟩).bind fun items => Settles.pure _
  · intro f raw hnull hembeds hmany ih _
    rw [fieldOutput_eq, if_neg hnull, if_pos hembeds, if_neg hmany]
    exact ih
  · intro f raw hnull hembeds spec htype hspec hf
    rw [fieldOutput_eq, if_neg hnull, if_neg hembeds, hspec, htype]
    exact enumOutput_settles hf hspec raw
  · intro f raw hnull hembeds hspec _
    rw [fieldOutput_eq, if_neg hnull, if_neg hembeds]
    split
    · rename_i spec hsome hnone
      exact absurd hnone (hspec spec hsome)
    · exact Settles.pure raw

/-- The items of a list that steps settle on, each from a cache that is sound. -/
theorem Settles.each_ok {α β : Type} {r : Registry} {f : α → Step TypeCache β} {xs : List α}
    {ys : List β} {c c' : TypeCache} (hf : ∀ x ∈ xs, Settles r (f x)) (hs : Sound r c)
    (h : Step.each f xs c = (.ok ys, c')) :
    List.Forall₂ (fun x y => ∃ c₁ c₂, c ≤ c₁ ∧ Sound r c₁ ∧ f x c₁ = (.ok y, c₂)) xs ys := by
  induction xs generalizing c ys with
  | nil => cases h; exact .nil
  | cons x xs ih =>
    obtain ⟨y, c₁, hy, h⟩ := Step.bind_ok h
    obtain ⟨rest, c₂, hrest, h⟩ := Step.bind_ok h
    cases h
    obtain ⟨hle, hs₁, -⟩ := (hf x List.mem_cons_self c hs).of_eq hy
    refine .cons ⟨c, c₁, TypeCache.le_refl c, hs, hy⟩ ?_
    refine (ih (fun x hx => hf x (List.mem_cons_of_mem _ hx)) hs₁ hrest).imp ?_
    rintro x y ⟨c₃, c₄, hle', h⟩
    exact ⟨c₃, c₄, TypeCache.le_trans hle hle', h⟩

/-- The fields of an instance have the values that are given for them. -/
theorem TypeField.valuesIn_ok {fields : List TypeField} {values out : Fields}
    (h : fields.mapM (fun f => do return (f.attr, ← f.valueIn values)) = .ok out) :
    Table.names out = fields.map TypeField.attr ∧
      ∀ f ∈ fields, ∀ v, Table.find? values f.attr = some v → Table.find? out f.attr = some v := by
  rw [mapM_ok_iff] at h
  induction h with
  | nil => exact ⟨rfl, fun f hf => absurd hf List.not_mem_nil⟩
  | @cons f p fields out hp _ ih =>
    obtain ⟨hnames, hfind⟩ := ih
    cases hvalue : f.valueIn values with
    | error e => rw [hvalue] at hp; cases hp
    | ok value =>
      rw [hvalue] at hp
      cases hp
      refine ⟨congrArg (f.attr :: ·) hnames, fun g hg v hv => ?_⟩
      rw [Table.find?_cons]
      by_cases hsame : f.attr = g.attr
      · unfold valueIn at hvalue
        rw [hsame, hv] at hvalue
        cases hvalue
        rw [if_pos hsame]
      · rw [if_neg hsame]
        rcases List.mem_cons.mp hg with rfl | hg
        · exact absurd rfl hsame
        · exact hfind g hg v hv

theorem TypeShape.instantiate_ok {shape : TypeShape} {values : Fields} {v : Value}
    (h : shape.instantiate values = .ok v) :
    ∃ out, v = .object (some shape.name) out ∧ Table.names out = shape.fields.map TypeField.attr ∧
      ∀ f ∈ shape.fields, ∀ w, Table.find? values f.attr = some w →
        Table.find? out f.attr = some w := by
  unfold TypeShape.instantiate at h
  split at h
  · cases hout : shape.fields.mapM fun f => do return (f.attr, ← f.valueIn values) with
    | error e => rw [hout] at h; cases h
    | ok out =>
      rw [hout] at h
      cases h
      obtain ⟨hnames, hfind⟩ := TypeField.valuesIn_ok hout
      exact ⟨out, rfl, hnames, hfind⟩
  · cases h

/-- The values of fields, each made from a sound cache, by the names of the fields. -/
theorem each_fieldOutput_ok {r : Registry} {data values : Fields} {fields : List Field}
    {c c' : TypeCache} (hfields : ∀ f ∈ fields, r.HasField f)
    (hnames : (fields.map Field.name).Nodup) (hs : Sound r c)
    (h : Step.each (fun f => do
      let v ← fieldOutput r f (Fields.get data f.name)
      pure (f.name, v)) fields c = (.ok values, c')) :
    (c ≤ c' ∧ Sound r c') ∧ ∀ f ∈ fields, ∃ c₁ c₂ v, c ≤ c₁ ∧ Sound r c₁ ∧
      fieldOutput r f (Fields.get data f.name) c₁ = (.ok v, c₂) ∧
      Table.find? values f.name = some v := by
  induction fields generalizing c values with
  | nil =>
    cases h
    exact ⟨⟨TypeCache.le_refl _, hs⟩, fun f hf => absurd hf List.not_mem_nil⟩
  | cons f fields ih =>
    obtain ⟨entry, c₁, hentry, h⟩ := Step.bind_ok h
    obtain ⟨rest, c₂, hrest, h⟩ := Step.bind_ok h
    cases h
    obtain ⟨v, c₃, hv, hentry⟩ := Step.bind_ok hentry
    cases hentry
    obtain ⟨hnew, hnames⟩ := List.nodup_cons.mp hnames
    obtain ⟨hle, hs₁, -⟩ := ((output_settles r).2 f (Fields.get data f.name)
      (hfields f List.mem_cons_self) c hs).of_eq hv
    obtain ⟨⟨hle', hs₂⟩, hothers⟩ :=
      ih (fun f hf => hfields f (List.mem_cons_of_mem _ hf)) hnames hs₁ hrest
    refine ⟨⟨TypeCache.le_trans hle hle', hs₂⟩, fun g hg => ?_⟩
    rcases List.mem_cons.mp hg with rfl | hg
    · exact ⟨c, c₁, v, TypeCache.le_refl c, hs, hv, by rw [Table.find?_cons, if_pos rfl]⟩
    · obtain ⟨c₃, c₄, w, hle₃, hs₃, hw, hfind⟩ := hothers g hg
      refine ⟨c₃, c₄, w, TypeCache.le_trans hle hle₃, hs₃, hw, ?_⟩
      rw [Table.find?_cons, if_neg fun hname => hnew ?_, hfind]
      exact List.mem_map.mpr ⟨g, hg, hname.symm⟩

theorem Registry.Distinct.outputFields {r : Registry} {model : Option String} {fields : List Field}
    (hr : r.Distinct) (h : r.outputFields model = .ok fields) : (fields.map Field.name).Nodup := by
  unfold Registry.outputFields at h
  cases hdeclared : r.fieldsOfEmbedded model with
  | error e => rw [hdeclared] at h; cases h
  | ok declared =>
    rw [hdeclared] at h
    cases h
    cases model with
    | none => cases hdeclared
    | some model => exact (List.filter_sublist.map Field.name).nodup (hr.fieldsOf hdeclared)

/-- The instance of a document has the output fields of its model, each with what its value
becomes. -/
theorem toOutput_record {r : Registry} (hr : r.Distinct) {model : String} {data : Fields}
    {v : Value} {c c' : TypeCache} (hs : Sound r c)
    (h : toOutput r (some model) (.record data) c = (.ok v, c')) :
    ∃ fields out, r.outputFields (some model) = .ok fields ∧ v = .object (some model) out ∧
      Table.names out = fields.map Field.name ∧ (∀ f ∈ fields, ¬ f.Untyped .output) ∧
      ∀ f ∈ fields, ∃ c₁ c₂ w, c ≤ c₁ ∧ Sound r c₁ ∧
        fieldOutput r f (Fields.get (normalizeId data) f.name) c₁ = (.ok w, c₂) ∧
        Table.find? out f.name = some w := by
  rw [toOutput_eq, if_neg (by simp [Value.isNull])] at h
  obtain ⟨given, c₁, hgiven, h⟩ := Step.bind_ok h
  cases hgiven
  obtain ⟨fields, c₁, hlisted, h⟩ := Step.bind_ok h
  obtain ⟨hfields, rfl⟩ := Step.ofExcept_ok hlisted
  obtain ⟨values, c₁, hvalues, h⟩ := Step.bind_ok h
  obtain ⟨shape, c₂, hshape, h⟩ := Step.bind_ok h
  obtain ⟨hinstance, -⟩ := Step.ofExcept_ok h
  obtain ⟨⟨-, hs₁⟩, hvalues⟩ := each_fieldOutput_ok
    (fun f hf => Registry.hasField_of_outputFields hfields hf) (hr.outputFields hfields) hs hvalues
  obtain ⟨-, -, hbuildable, rfl, -⟩ := (typeWhile_builds r [] ⟨model, .output⟩ c₁ hs₁).of_eq hshape
  obtain ⟨out, rfl, hnames, hfind⟩ := TypeShape.instantiate_ok hinstance
  rw [Registry.shapeOf_fields (Or.inl rfl) hfields] at hnames hfind
  rw [List.map_map] at hnames
  refine ⟨fields, out, hfields, rfl, hnames, fun f hf huntyped => hbuildable ?_, fun f hf => ?_⟩
  · exact ⟨_, .refl, Or.inr (Or.inl ⟨Or.inl rfl, _, hfields, f, hf, huntyped⟩)⟩
  obtain ⟨c₃, c₄, w, hle, hs₃, hw, hfound⟩ := hvalues f hf
  exact ⟨c₃, c₄, w, hle, hs₃, hw, hfind _ (List.mem_map_of_mem hf) w hfound⟩

end DocumentApi
