import DocumentApi.Proofs.Operations.Returning
import DocumentApi.Proofs.Types.History
import DocumentApi.Proofs.Types.Rendering
import DocumentApi.Proofs.Types.Standing

/-!
# Enums that fields share

Fields that name one enum share it. Its members are those of the field that was built first, and a
field that declares others under the name is built all the same.

* `EnumSpec.Apart`: an enum whose entries are told apart by their names and by their values.
* `EnumSpec.Gives`: the members that an enum offers are the entries of another one.
* `TypeCache.Offers`: a type whose values are the entries of a table.
* `Field.KeepsMembers`: a field shows and offers the entries that it declares itself.
* `Field.Shows`: a field in which a value can be seen as a member at all.
* `Registry.Running.enum_of`: the field from which an enum has its members.
* `keepsMembers_iff`: a field keeps its members exactly if that field gives them.
-/

namespace DocumentApi

open TypeCache (Sound Arises)

/-! ## Members -/

/-- The entries of an enum have different names and different values. -/
structure EnumSpec.Apart (spec : EnumSpec) : Prop where
  names : (Table.names spec.members).Nodup
  values : ∀ e ∈ spec.members, ∀ e' ∈ spec.members, e.2.same e'.2 ↔ e = e'

/-- The members of an enum, each under the first name of its value, are the entries of another. -/
def EnumSpec.Gives (first spec : EnumSpec) : Prop :=
  ∀ e, e ∈ canonicalMembers first.members ↔ e ∈ spec.members

/-- The values of a type are the members of an enum, which are the entries of a table. -/
def TypeCache.Offers (c : TypeCache) (t : TypeRef) (members : Table Value) : Prop :=
  ∃ spec : EnumSpec, t.core = .enum spec.name ∧ Table.find? c.enums spec.name = some spec.members ∧
    ∀ e, e ∈ canonicalMembers spec.members ↔ e ∈ members

/-- The member under the first name of its value is the one that the value is read as. -/
theorem mem_canonicalMembers {members : Table Value} {e : String × Value} :
    e ∈ canonicalMembers members ↔
      e ∈ members ∧ ∃ stored, memberStoredAs members e.2 = some (e.1, stored) := by
  unfold canonicalMembers
  rw [List.mem_filter]
  refine and_congr_right fun _ => ?_
  cases memberStoredAs members e.2 with
  | none => simp
  | some first =>
    obtain ⟨name, stored⟩ := first
    simp

/-- An enum with the entries of one that tells them apart offers all of them. -/
theorem EnumSpec.Apart.gives {first spec : EnumSpec} (h : spec.Apart)
    (hsame : ∀ e, e ∈ first.members ↔ e ∈ spec.members) : first.Gives spec := by
  intro e
  rw [mem_canonicalMembers, hsame]
  refine ⟨And.left, fun he => ⟨he, ?_⟩⟩
  have hself : e.2.same e.2 := (h.values e he e he).mpr rfl
  cases hfound : memberStoredAs first.members e.2 with
  | none => exact absurd hself (List.find?_eq_none.mp hfound e ((hsame e).mpr he))
  | some d =>
    unfold memberStoredAs at hfound
    have hd : d ∈ first.members := List.mem_of_find?_eq_some hfound
    have hvalue : d.2.same e.2 := by simpa using List.find?_some hfound
    obtain rfl := (h.values d ((hsame d).mp hd) e he).mp hvalue
    exact ⟨d.2, rfl⟩

section Enums

variable {r : Registry} {c c' : TypeCache} {f : Field} {model : String} {fields : List Field}
  {data : Fields} {spec : EnumSpec} {v w : Value}

/-! ## Fields of an enum -/

/-- A document holds a value in a field, and in others at most values that fit them and that no
mixed field holds. -/
structure Field.Holds (r : Registry) (fields : List Field) (f : Field) (v : Value) (data : Fields) :
    Prop where
  found : Table.find? data f.name = some v
  others : ∀ g ∈ fields, g.name ≠ f.name → (Fields.get (normalizeId data) g.name).isNull = false →
    g.Fits r (Fields.get (normalizeId data) g.name) ∧ ¬ g.Mixes

/-- A document becomes an instance of the kept output type, whose field has the member of a name. -/
def Field.ShowsMember (r : Registry) (c : TypeCache) (model : String) (f : Field) (enumName : String)
    (data : Fields) (name : String) : Prop :=
  ∃ shape out stored, c.shape? ⟨model, .output⟩ = some shape ∧
    toOutput r (some model) (.record data) c = (.ok (.object (some shape.name) out), c) ∧
    Table.find? out f.name = some (.member enumName name stored)

/-- A field shows each of the values that it declares as the member of that name, and its types
offer the members that it declares. -/
structure Field.KeepsMembers (r : Registry) (c : TypeCache) (model : String) (fields : List Field)
    (f : Field) (spec : EnumSpec) : Prop where
  shown : ∀ e ∈ spec.members, e.2.IsJson → ∀ data, f.Holds r fields e.2 data →
    f.ShowsMember r c model spec.name data e.1
  offered : ∀ kind : TypeKind, kind.OfFields → ∀ declared, r.fieldsFor model kind = .ok declared →
    f ∈ declared → ∃ shape tf, c.shape? ⟨model, kind⟩ = some shape ∧ tf ∈ shape.fields ∧
      tf.name = f.name ∧ c.Offers tf.type spec.members
  filtered : ∀ shape, f.conditionsShape model = some shape → ∀ tf ∈ shape.fields,
    c.Offers tf.type spec.members

/-- Null is no member, a mixed field is read as a document, the second name of the id is dropped and
an id is a text. -/
structure Field.Shows (f : Field) (v : Value) : Prop where
  given : v.isNull = false
  unmixed : ¬ f.Mixes
  other : f.name ≠ "_id"
  id : f.name = "id" → ∃ s, v = .text s

theorem Field.plainType?_enum (hplain : f.typeOverride = none) (hspec : f.enumSpec = some spec) :
    f.plainType? = some (.enum spec.name) := by
  unfold plainType?
  rw [hplain, hspec]

theorem Field.toTypeField_core (h : f.plainType? = some (.enum spec.name)) (kind : TypeKind) :
    (f.toTypeField kind (f.typeIn kind)).type.core = .enum spec.name := by
  unfold toTypeField typeIn
  rw [h]
  dsimp only
  split <;> rfl

/-- An enum of a running api has the members that some field declares under its name. -/
theorem Registry.Running.enum_of {s : State} (hs : r.Running s) (hr : r.Named)
    (hfields : r.outputFields (some model) = .ok fields) (hf : f ∈ fields)
    (hplain : f.typeOverride = none) (hspec : f.enumSpec = some spec) :
    ∃ g first, r.HasField g ∧ g.enumSpec = some first ∧ first.name = spec.name ∧
      Table.find? s.types.enums spec.name = some first.members := by
  have hc := hs.serves
  obtain ⟨members, hmembers⟩ :=
    (hc.built_complete hr).declares model fields hfields f hf spec hspec hplain
  have hbuilt : Arises r r.builtTypes := buildAll_grows (TypeCache.sound_empty r) {} .refl
  obtain ⟨g, first, hg, hfirst, hname, rfl⟩ := hbuilt.enums hmembers
  exact ⟨g, first, hg, hfirst, hname, hc.later.enums _ _ hmembers⟩

/-- The output and input types of the registered models are kept in a running api. -/
theorem Registry.Running.kept {s : State} (hs : r.Running s) (hr : r.Named) {d : Definition}
    (hd : r.model? model = some d) {kind : TypeKind} (hkind : kind.OfFields) :
    s.types.shape? ⟨model, kind⟩ = some (r.shapeOf ⟨model, kind⟩) := by
  have hc := hs.serves
  obtain ⟨types, hbuilt⟩ := hc.built
  obtain ⟨hsound, hall⟩ := buildAll_stands (TypeCache.sound_empty r) hbuilt
  obtain ⟨rfl, hmem⟩ := hr.of_model? hd
  have hstands : ∃ shape, Stands r types (typeOf r ⟨d.name, kind⟩) shape := by
    rcases hkind with rfl | rfl | rfl
    · exact (hall d hmem).output
    · exact (hall d hmem).create
    · exact (hall d hmem).update
  obtain ⟨shape, hshape⟩ := hstands
  obtain ⟨-, -, -, rfl, hkept⟩ :=
    (typeWhile_builds r [] ⟨d.name, kind⟩ types hsound).of_eq (hshape.run hsound)
  have hlater : types ≤ s.types := by
    have h := hc.later
    unfold Registry.builtTypes at h
    rwa [hbuilt] at h
  exact hlater.shapes _ _ hkept

/-! ## Documents -/

/-- A document becomes null or an instance. -/
theorem toOutput_kind {model : Option String} (h : toOutput r model v c = (.ok w, c')) :
    w = .null ∨ ∃ name out, w = .object name out := by
  rw [toOutput_eq] at h
  by_cases hnull : v.isNull
  · rw [if_pos hnull] at h
    cases h
    exact Or.inl rfl
  · rw [if_neg hnull] at h
    obtain ⟨data, c₁, -, h⟩ := Step.bind_ok h
    obtain ⟨fields, c₂, -, h⟩ := Step.bind_ok h
    obtain ⟨values, c₃, -, h⟩ := Step.bind_ok h
    obtain ⟨shape, c₄, -, h⟩ := Step.bind_ok h
    obtain ⟨hinstance, -⟩ := Step.ofExcept_ok h
    obtain ⟨out, rfl, -⟩ := TypeShape.instantiate_ok hinstance
    exact Or.inr ⟨_, out, rfl⟩

/-- A field that embeds a model never has a member. -/
theorem fieldOutput_embeds (he : f.embedding.isSome) {enumName name : String} {stored : Value} :
    fieldOutput r f v c ≠ (.ok (.member enumName name stored), c') := by
  intro h
  rw [fieldOutput_eq] at h
  by_cases hnull : v.isNull
  · rw [if_pos hnull] at h
    cases h
  rw [if_neg hnull, if_pos he] at h
  by_cases hmany : f.many
  · rw [if_pos hmany] at h
    cases hitems : v.elements with
    | none =>
      rw [hitems] at h
      cases h
    | some items =>
      rw [hitems] at h
      obtain ⟨outs, c₁, -, h⟩ := Step.bind_ok h
      cases h
  · rw [if_neg hmany] at h
    obtain hnone | ⟨_, _, hobject⟩ := toOutput_kind h
    · cases hnone
    · cases hobject

/-- The value of a field of an enum is the first member that is stored as it, if there is one. -/
theorem fieldOutput_enum {members : Table Value} (hplain : f.typeOverride = none)
    (hspec : f.enumSpec = some spec) (hunmixed : ¬ f.Mixes)
    (hdeclared : Table.find? c.enums spec.name = some members) (hjson : v.IsJson)
    (hgiven : v.isNull = false) :
    fieldOutput r f v c = (.ok ((memberStoredAs members v).elim v fun entry =>
      .member spec.name entry.1 entry.2), c) := by
  have hshadow : f.Shadowed := Or.inr (Or.inl (by rw [hspec]; rfl))
  rw [fieldOutput_eq, if_neg (by simp [hgiven]), if_neg fun he => hunmixed ⟨he, hshadow⟩, hspec,
    hplain]
  exact enumOutput_run hdeclared hjson

/-- A document of one field keeps it, as a text if it is the id. -/
theorem normalizeId_alone {name : String} (hother : name ≠ "_id") :
    normalizeId [(name, v)] =
      if name = "id" ∧ v.isNull = false then [(name, .text v.display)] else [(name, v)] := by
  unfold normalizeId
  rw [Table.find?_cons, if_neg hother]
  dsimp only [Table.find?_nil]
  by_cases hid : name = "id"
  · subst hid
    cases hnull : v.isNull <;> simp [Fields.get, Table.find?, Table.set, hnull]
  · simp [Fields.get, Table.find?, hid, Value.isNull]

/-- A document that holds a value in one field alone. -/
theorem Field.holds_alone (hother : f.name ≠ "_id") : f.Holds r fields v [(f.name, v)] := by
  refine ⟨if_pos rfl, fun g _ hne hgiven => ?_⟩
  rw [normalizeId_alone hother] at hgiven
  split at hgiven <;> simp [Fields.get, Table.find?, Ne.symm hne, Value.isNull] at hgiven

/-- The second name of the id is dropped from a document with an id, be it null. -/
theorem Field.holds_dropped (hname : f.name = "_id") :
    f.Holds r fields v [("id", .null), ("_id", v)] ∧
      Fields.get (normalizeId [("id", .null), ("_id", v)]) f.name = .null := by
  have hnormal : normalizeId [("id", .null), ("_id", v)] = [("id", .null)] := rfl
  rw [hnormal, hname]
  refine ⟨⟨by rw [hname]; rfl, fun g _ _ hgiven => ?_⟩, rfl⟩
  rw [hnormal] at hgiven
  by_cases hgid : "id" = g.name <;> simp [Fields.get, Table.find?, hgid, Value.isNull] at hgiven

theorem Field.ShowsMember.value (hr : r.Distinct) (hs : Sound r c)
    (hfields : r.outputFields (some model) = .ok fields) (hf : f ∈ fields)
    {enumName name : String} (h : f.ShowsMember r c model enumName data name) :
    ∃ c₁ c₂ stored, c ≤ c₁ ∧ fieldOutput r f (Fields.get (normalizeId data) f.name) c₁ =
      (.ok (.member enumName name stored), c₂) := by
  obtain ⟨shape, out, stored, -, hrun, hfound⟩ := h
  obtain ⟨fields', out', hfields', hout, -, -, hvalues⟩ := toOutput_record hr hs hrun
  rw [hfields] at hfields'
  cases hfields'
  cases hout
  obtain ⟨c₁, c₂, w, hle, -, hvalue, hw⟩ := hvalues f hf
  rw [hfound] at hw
  cases hw
  exact ⟨c₁, c₂, stored, hle, hvalue⟩

/-- A field in which every document shows a value as a member can show it. -/
theorem Field.shows_of_all {first : EnumSpec} {e : String × Value} (hr : r.Distinct)
    (hs : Sound r c) (hfields : r.outputFields (some model) = .ok fields) (hf : f ∈ fields)
    (hplain : f.typeOverride = none) (hspec : f.enumSpec = some spec)
    (hdeclared : Table.find? c.enums spec.name = some first.members)
    (hnames : (Table.names spec.members).Nodup) (hgives : first.Gives spec)
    (he : e ∈ spec.members)
    (hall : ∀ data, f.Holds r fields e.2 data → f.ShowsMember r c model spec.name data e.1) :
    f.Shows e.2 := by
  have hother : f.name ≠ "_id" := by
    intro hname
    have hdropped : f.Holds r fields e.2 [("id", .null), ("_id", e.2)] ∧
        Fields.get (normalizeId [("id", .null), ("_id", e.2)]) f.name = .null :=
      Field.holds_dropped hname
    obtain ⟨hholds, hnull⟩ := hdropped
    obtain ⟨c₁, c₂, stored, -, hvalue⟩ := (hall _ hholds).value hr hs hfields hf
    rw [hnull, fieldOutput_eq, if_pos (show Value.null.isNull = true from rfl)] at hvalue
    cases hvalue
  obtain ⟨c₁, c₂, stored, hle, hvalue⟩ :=
    (hall _ (Field.holds_alone hother)).value hr hs hfields hf
  have hget : ∀ w, Fields.get [(f.name, w)] f.name = w := fun w => by
    simp [Fields.get, Table.find?]
  rw [normalizeId_alone hother] at hvalue
  have hunmixed : ¬ f.Mixes := fun hmixes => fieldOutput_embeds hmixes.1 hvalue
  have hgiven : e.2.isNull = false := by
    by_contra hnull
    rw [if_neg fun h => hnull h.2, hget, fieldOutput_eq, if_pos (by simpa using hnull)] at hvalue
    cases hvalue
  refine ⟨hgiven, hunmixed, hother, fun hid => ?_⟩
  rw [if_pos ⟨hid, hgiven⟩, hget, fieldOutput_enum hplain hspec hunmixed
    (hle.enums _ _ hdeclared) (.text _) rfl] at hvalue
  cases hfound : memberStoredAs first.members (.text e.2.display) with
  | none =>
    rw [hfound] at hvalue
    cases hvalue
  | some d =>
    rw [hfound] at hvalue
    obtain ⟨hname, -⟩ : d.1 = e.1 ∧ d.2 = stored := by simpa using congrArg Prod.fst hvalue
    -- The text is read as an entry of the same name, which is the entry itself.
    have hstored : d.2 = .text e.2.display :=
      Value.eq_text_of_same (by unfold memberStoredAs at hfound; simpa using List.find?_some hfound)
    have hd : d ∈ spec.members := (hgives d).mp (mem_canonicalMembers.mpr
      ⟨List.mem_of_find?_eq_some hfound, d.2, by rw [hstored, hfound, ← hstored]⟩)
    have hfirst := Table.find?_of_mem hnames hd
    rw [hname, Table.find?_of_mem hnames he] at hfirst
    exact ⟨_, (Option.some.inj hfirst).trans hstored⟩

/-- A value that can be seen as a member is shown as the one that is stored as it. -/
theorem Field.Holds.showsMember {members : Table Value} {name : String} {stored : Value}
    (hc : c.Serves r) (hr : r.Named) (hdistinct : r.Distinct)
    (hfields : r.outputFields (some model) = .ok fields) (hf : f ∈ fields)
    (hplain : f.typeOverride = none) (hspec : f.enumSpec = some spec)
    (hdeclared : Table.find? c.enums spec.name = some members) (hjson : v.IsJson)
    (hfound : memberStoredAs members v = some (name, stored)) (hshows : f.Shows v)
    (h : f.Holds r fields v data) : f.ShowsMember r c model spec.name data name := by
  have hget : Fields.get (normalizeId data) f.name = v := by
    by_cases hid : f.name = "id"
    · obtain ⟨s, rfl⟩ := hshows.id hid
      rw [hid]
      exact normalizeId_id (hid ▸ h.found)
    · rw [normalizeId_get hid hshows.other, Fields.get_of_find? h.found]
  have hvalues : ∀ g ∈ fields, (Fields.get (normalizeId data) g.name).isNull = false → ∃ w,
      fieldOutput r g (Fields.get (normalizeId data) g.name) c = (.ok w, c) ∧
        Renders c (g.typeIn .output) (Fields.get (normalizeId data) g.name) w := by
    intro g hg hgiven
    have hfield := (hc.complete hr).declares model fields hfields g hg
    by_cases hsame : g.name = f.name
    · obtain rfl := List.inj_on_of_nodup_map (hdistinct.outputFields hfields) hg hf hsame
      have htype := Field.plainType?_enum hplain hspec
      rw [hget, show g.typeIn .output = .enum spec.name by unfold Field.typeIn; rw [htype]]
      exact plainOutput_renders hfield htype hshows.unmixed (.enum hshows.given hjson)
    · obtain ⟨hfits, hunmixed⟩ := h.others g hg hsame hgiven
      exact hfits.renders hc hr hdistinct hfield hunmixed hgiven
  obtain ⟨out, hrun, -⟩ := toOutput_renders hc hr hdistinct hfields hvalues
  obtain ⟨fields', out', hfields', hout, -, -, hall⟩ := toOutput_record hdistinct hc.sound hrun
  rw [hfields] at hfields'
  cases hfields'
  cases hout
  obtain ⟨c₁, c₂, w, hle, -, hvalue, hw⟩ := hall f hf
  rw [hget, fieldOutput_enum hplain hspec hshows.unmixed (hle.enums _ _ hdeclared) hjson
    hshows.given, hfound] at hvalue
  cases hvalue
  exact ⟨_, out, stored, (hc.output hr hfields).1, hrun, hw⟩

/-! ## Types -/

/-- A type of an enum offers the members that were declared under its name, and no others. -/
theorem TypeCache.offers_iff {t : TypeRef} {first : EnumSpec} (ht : t.core = .enum spec.name)
    (hdeclared : Table.find? c.enums spec.name = some first.members) :
    c.Offers t spec.members ↔ first.Gives spec := by
  constructor
  · rintro ⟨shared, hcore, hfound, hoffers⟩
    have hname : spec.name = shared.name := TypeRef.enum.inj (ht.symm.trans hcore)
    rw [← hname, hdeclared] at hfound
    rw [← Option.some.inj hfound] at hoffers
    exact hoffers
  · intro hgives
    exact ⟨⟨spec.name, first.members⟩, ht, hdeclared, hgives⟩

/-- The conditions on a field of an enum take members of it. -/
theorem Field.conditionsShape_core (h : f.plainType? = some (.enum spec.name)) {shape : TypeShape}
    (hshape : f.conditionsShape model = some shape) {tf : TypeField} (htf : tf ∈ shape.fields) :
    tf.type.core = .enum spec.name := by
  unfold conditionsShape at hshape
  rw [h] at hshape
  cases hshape
  obtain ⟨op, -, rfl⟩ := List.mem_map.mp htf
  dsimp only [TypeRef.core]
  split <;> rfl

/-- A field of an enum keeps the members that it declares exactly if those of the field `g`, under
which the enum was declared, are the same and it can show them all. So of two fields that declare
different members under one name at most one keeps its own, though the types of both are built. -/
theorem keepsMembers_iff (hr : r.Reachable) {s : State} (hs : r.Running s)
    (hfields : r.outputFields (some model) = .ok fields) (hf : f ∈ fields)
    (hplain : f.typeOverride = none) (hspec : f.enumSpec = some spec) (hapart : spec.Apart) :
    ∃ g first, r.HasField g ∧ g.enumSpec = some first ∧ first.name = spec.name ∧
      Table.find? s.types.enums spec.name = some first.members ∧
      ((∀ e, e ∈ first.members ↔ e ∈ spec.members) → first.Gives spec) ∧
      (f.KeepsMembers r s.types model fields spec ↔
        first.Gives spec ∧ ∀ e ∈ spec.members, e.2.IsJson → f.Shows e.2) := by
  obtain ⟨g, first, hg, hfirst, hname, hdeclared⟩ := hs.enum_of hr.named hfields hf hplain hspec
  have hc := hs.serves
  have htype := Field.plainType?_enum hplain hspec
  refine ⟨g, first, hg, hfirst, hname, hdeclared, hapart.gives, ?_⟩
  constructor
  · intro hkeeps
    obtain ⟨shape, tf, hshape, htf, hattr, hoffers⟩ :=
      hkeeps.offered .output (Or.inl rfl) fields hfields hf
    obtain ⟨d, hd⟩ := hr.named.model?_of_outputFields hfields
    rw [hs.kept hr.named hd (Or.inl rfl)] at hshape
    cases hshape
    rw [Registry.shapeOf_fields (Or.inl rfl) hfields] at htf
    obtain ⟨f', hf', rfl⟩ := List.mem_map.mp htf
    obtain rfl := List.inj_on_of_nodup_map (hr.distinct.outputFields hfields) hf' hf hattr
    have hgives : first.Gives spec :=
      (TypeCache.offers_iff (Field.toTypeField_core htype .output) hdeclared).mp hoffers
    exact ⟨hgives, fun e he hjson => Field.shows_of_all hr.distinct hc.sound hfields hf hplain hspec
      hdeclared hapart.names hgives he (hkeeps.shown e he hjson)⟩
  · rintro ⟨hgives, hshows⟩
    have hoffers : ∀ {t : TypeRef}, t.core = .enum spec.name → s.types.Offers t spec.members :=
      fun ht => (TypeCache.offers_iff ht hdeclared).mpr hgives
    refine ⟨fun e he hjson data hholds => ?_, fun kind hkind declared hlisted hmem => ?_,
      fun shape hshape tf htf => hoffers (Field.conditionsShape_core htype hshape htf)⟩
    · obtain ⟨-, stored, hfound⟩ := mem_canonicalMembers.mp ((hgives e).mpr he)
      exact hholds.showsMember hc hr.named hr.distinct hfields hf hplain hspec hdeclared hjson
        hfound (hshows e he hjson)
    · obtain ⟨d, hd⟩ := hr.named.model?_of_outputFields hfields
      refine ⟨_, _, hs.kept hr.named hd hkind, ?_, rfl,
        hoffers (Field.toTypeField_core htype kind)⟩
      rw [Registry.shapeOf_fields hkind hlisted]
      exact List.mem_map_of_mem hmem

end Enums

/-! ## Colors of tags and paints -/

/-- The color of a tag, which is built first. -/
def tagColor : Field :=
  { name := "color", enumSpec := some ⟨"Color", [("RED", .text "red")]⟩ }

/-- The color of a paint, which declares other members under the same name. -/
def paintColor : Field :=
  { name := "color",
    enumSpec := some ⟨"Color", [("CRIMSON", .text "red"), ("BLUE", .text "blue")]⟩ }

def tagModel : Definition :=
  ⟨"Tag", [tagColor], .all, false, "", false, none⟩

def paintModel : Definition :=
  ⟨"Paint", [paintColor], .all, false, "", false, none⟩

def colorModels : Registry where
  definitions := [tagModel, paintModel]
  models := [("Tag", ⟨0, tagModel.declaredFields⟩), ("Paint", ⟨1, paintModel.declaredFields⟩)]

def colorState : State where
  types := colorModels.builtTypes

theorem colorModels_reachable : colorModels.Reachable := by
  have hdefined := Registry.Reachable.defined colorModels.definitions
  exact (hdefined.registered 0 rfl).registered 1 rfl

theorem colors_evaluated : (buildAll colorModels {}).1.isOk ∧
    (Table.find? colorModels.builtTypes.enums "Color").map Table.names = some ["RED"] ∧
    (toOutput colorModels (some "Paint") (.record [("color", .text "blue")])
      colorModels.builtTypes).1.isOk := by
  -- The recursions are opened to the depth of the models; the rest is evaluated.
  have hwhile := funext fun begun => funext (typeWhile.eq_def colorModels begun)
  have hfields := funext fun begun => funext fun key =>
    funext (fieldsWhile.eq_def colorModels begun key)
  have houtput := funext fun model => funext (toOutput_eq colorModels model)
  have hfield := funext fun f => funext (fieldOutput_eq colorModels f)
  unfold Registry.builtTypes
  rw [houtput, hfield]
  unfold buildAll buildModel filterTypeOf sortTypeOf typeOf
  rw [hwhile, hfields, hfields, hfields, hwhile]
  decide +kernel

theorem colorState_running : colorModels.Running colorState :=
  .built (Step.eq_of_isOk colors_evaluated.1) {} ⟨0, 0, 0⟩ []

/-- The enum has the members that tags declare. -/
theorem colorState_enum :
    Table.find? colorState.types.enums "Color" = some [("RED", .text "red")] := by
  obtain ⟨-, hnames, -⟩ := colors_evaluated
  have hc := colorState_running.serves
  have hbuilt : Arises colorModels colorModels.builtTypes :=
    buildAll_grows (TypeCache.sound_empty colorModels) {} .refl
  cases hfound : Table.find? colorModels.builtTypes.enums "Color" with
  | none =>
    rw [hfound] at hnames
    cases hnames
  | some members =>
    obtain ⟨f, spec, hf, hspec, -, rfl⟩ := hbuilt.enums hfound
    rw [hfound] at hnames
    have hlist : (colorModels.models.flatMap fun m => m.2.fields) =
        [Field.defaultId, tagColor, Field.defaultId, paintColor] := rfl
    have hmem : f ∈ [Field.defaultId, tagColor, Field.defaultId, paintColor] := hlist ▸ hf.mem
    simp only [List.mem_cons, List.not_mem_nil, or_false] at hmem
    obtain rfl | rfl | rfl | rfl := hmem
    · cases hspec
    · cases hspec
      exact hfound
    · cases hspec
    · cases hspec
      exact absurd hnames (by decide)

theorem tagColor_mem : tagColor ∈ tagModel.declaredFields :=
  List.mem_cons_of_mem _ List.mem_cons_self

theorem paintColor_mem : paintColor ∈ paintModel.declaredFields :=
  List.mem_cons_of_mem _ List.mem_cons_self

theorem tagColors_apart : EnumSpec.Apart ⟨"Color", [("RED", .text "red")]⟩ := by
  refine ⟨by decide, fun e he e' he' => ?_⟩
  rw [List.mem_singleton.mp he, List.mem_singleton.mp he']
  exact ⟨fun _ => rfl, fun _ => by decide⟩

theorem paintColors_apart :
    EnumSpec.Apart ⟨"Color", [("CRIMSON", .text "red"), ("BLUE", .text "blue")]⟩ := by
  refine ⟨by decide, fun e he e' he' => ?_⟩
  obtain rfl | rfl := List.mem_pair.mp he <;> obtain rfl | rfl := List.mem_pair.mp he' <;>
    simp [Value.same]

/-- Tags keep their color, and paints do not. -/
theorem keepsMembers_tag : colorModels.Reachable ∧ colorModels.Running colorState ∧
    colorModels.outputFields (some "Tag") = .ok tagModel.declaredFields ∧
    colorModels.outputFields (some "Paint") = .ok paintModel.declaredFields ∧
    tagColor.KeepsMembers colorModels colorState.types "Tag" tagModel.declaredFields
      ⟨"Color", [("RED", .text "red")]⟩ ∧
    ¬ paintColor.KeepsMembers colorModels colorState.types "Paint" paintModel.declaredFields
      ⟨"Color", [("CRIMSON", .text "red"), ("BLUE", .text "blue")]⟩ := by
  refine ⟨colorModels_reachable, colorState_running, rfl, rfl, ?_, fun hkeeps => ?_⟩
  · obtain ⟨g, first, -, -, -, hdeclared, hgives, hiff⟩ := keepsMembers_iff colorModels_reachable
      colorState_running (show colorModels.outputFields (some "Tag") = .ok _ from rfl) tagColor_mem
      rfl rfl tagColors_apart
    rw [colorState_enum] at hdeclared
    refine hiff.mpr ⟨hgives fun e => by rw [← Option.some.inj hdeclared], fun e he _ => ?_⟩
    obtain rfl := List.mem_singleton.mp he
    exact ⟨rfl, fun hmixes => (nomatch hmixes.1), by decide, fun hid => absurd hid (by decide)⟩
  · obtain ⟨g, first, -, -, -, hdeclared, -, hiff⟩ := keepsMembers_iff colorModels_reachable
      colorState_running (show colorModels.outputFields (some "Paint") = .ok _ from rfl)
      paintColor_mem rfl rfl paintColors_apart
    rw [colorState_enum] at hdeclared
    have hblue := ((hiff.mp hkeeps).1 ("BLUE", .text "blue")).mpr (by simp)
    rw [← Option.some.inj hdeclared] at hblue
    exact absurd (List.mem_singleton.mp (mem_canonicalMembers.mp hblue).1) (by simp)

/-- A paint declares that `blue` is stored for the member `BLUE`. Its type is built, and a paint of
that color is shown with the text, under an enum whose one member is that of tags. -/
theorem toOutput_paint_raw : colorModels.Reachable ∧ colorModels.Running colorState ∧
    colorModels.outputFields (some "Paint") = .ok paintModel.declaredFields ∧
    paintColor ∈ paintModel.declaredFields ∧ paintColor.typeOverride = none ∧
    paintColor.enumSpec = some ⟨"Color", [("CRIMSON", .text "red"), ("BLUE", .text "blue")]⟩ ∧
    EnumSpec.Apart ⟨"Color", [("CRIMSON", .text "red"), ("BLUE", .text "blue")]⟩ ∧
    paintColor.Holds colorModels paintModel.declaredFields (.text "blue")
      [("color", .text "blue")] ∧
    (∃ out c, toOutput colorModels (some "Paint") (.record [("color", .text "blue")])
        colorState.types = (.ok (.object (some "Paint") out), c) ∧
      Table.find? out "color" = some (.text "blue")) ∧
    Table.find? colorState.types.enums "Color" = some [("RED", .text "red")] := by
  refine ⟨colorModels_reachable, colorState_running, rfl, paintColor_mem, rfl, rfl,
    paintColors_apart, Field.holds_alone (by decide), ?_, colorState_enum⟩
  have hsound := colorState_running.serves.sound
  obtain ⟨v, c, hrun⟩ : ∃ v c, toOutput colorModels (some "Paint")
      (.record [("color", .text "blue")]) colorState.types = (.ok v, c) := by
    have hok := colors_evaluated.2.2
    revert hok
    show (toOutput colorModels (some "Paint") _ colorState.types).1.isOk → _
    rcases toOutput colorModels (some "Paint") (.record [("color", .text "blue")])
      colorState.types with ⟨e | v, c⟩
    · exact fun hok => nomatch hok
    · exact fun _ => ⟨v, c, rfl⟩
  obtain ⟨fields, out, hfields, rfl, -, -, hvalues⟩ :=
    toOutput_record colorModels_reachable.distinct hsound hrun
  cases hfields
  obtain ⟨c₁, c₂, w, hle, -, hvalue, hw⟩ := hvalues paintColor paintColor_mem
  rw [show Fields.get (normalizeId [("color", .text "blue")]) paintColor.name = .text "blue" from rfl,
    fieldOutput_enum (f := paintColor) rfl rfl (fun hmixes => nomatch hmixes.1)
      (hle.enums _ _ colorState_enum) (.text _) rfl] at hvalue
  cases hvalue
  exact ⟨out, c, hrun, hw⟩

end DocumentApi
