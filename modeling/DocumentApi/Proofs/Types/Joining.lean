import DocumentApi.Proofs.Model.Completing
import DocumentApi.Proofs.Types.History

/-!
# Types of a registry that more models join

A registration adds models behind those that there are and leaves the fields of these alone. What
was built before stays as it would be built then, also when it was left by a request that failed.

* `Registry.Joined`: a registry that further models have joined.
* `Joined.shapeOf_eq`, `Joined.buildable`: a type that could be built is the same one then.
* `Joined.arises`: a cache that building types led to is one that building them then leads to.
-/

namespace DocumentApi

namespace Registry

/-- Further models have joined those of a registry, which keep their fields. -/
structure Joined (r s : Registry) : Prop extends r.Extends s where
  registrations : r.models <+: s.models

variable {r s t : Registry}

theorem Joined.refl (r : Registry) : r.Joined r := ⟨.refl r, List.prefix_refl _⟩

theorem Joined.trans (h : r.Joined s) (h' : s.Joined t) : r.Joined t :=
  ⟨h.toExtends.trans h'.toExtends, h.registrations.trans h'.registrations⟩

/-! ## Registrations -/

theorem define_joined (r : Registry) (d : Definition) : r.Joined (r.define d).1 :=
  ⟨define_extends r d, List.prefix_refl _⟩

/-- The fields of the model that came last are added behind all others. -/
theorem addFields_registrations {front : Table Registration} {model : String} {m : Registration}
    (hnew : Table.find? front model = none) (hr : r.models = front ++ [(model, m)])
    (fields : List Field) : front <+: (r.addFields model fields).1.models := by
  induction fields generalizing r m with
  | nil => exact hr ▸ List.prefix_append _ _
  | cons f rest ih =>
    unfold addFields
    cases h : r.addField model f with
    | error e => exact hr ▸ List.prefix_append _ _
    | ok u =>
      unfold addField at h
      split at h
      · cases h
      rename_i m' hm'
      split at h
      · cases h
      split at h
      · cases h
      cases h
      refine ih (m := { m' with fields := m'.fields ++ [f] }) ?_
      show Table.set r.models model _ = _
      rw [hr, Table.set_append_of_none hnew]
      simp [Table.set]

theorem registerOne_registrations (r : Registry) (place : Nat) :
    r.models <+: (r.registerOne place).1.models := by
  cases hd : r.definitions[place]? with
  | none => simp [registerOne, hd]
  | some d =>
    rcases registerOne_cases hd with ⟨-, h⟩ | ⟨m, -, ⟨-, h⟩ | ⟨-, h⟩⟩ | ⟨hnew, t, answer, hadd, h⟩
    · simp [h]
    · simp [h]
    · simp [h]
    · have hentered : Table.set r.models d.name ⟨place, []⟩ =
          r.models ++ [(d.name, ⟨place, []⟩)] := by
        have hset := Table.set_append_of_none hnew [] (⟨place, []⟩ : Registration)
        rwa [List.append_nil] at hset
      have hadded := addFields_registrations hnew
        (r := { r with models := Table.set r.models d.name ⟨place, []⟩ }) hentered d.declaredFields
      rw [hadd] at hadded
      rw [h]
      exact hadded

theorem registerEmbedded_registrations (r : Registry) (work : List Nat) :
    r.models <+: (r.registerEmbedded work).1.models := by
  fun_induction registerEmbedded r work with
  | case1 r => exact List.prefix_refl _
  | case2 r place rest s places hs ih =>
    have hone := registerOne_registrations (r.markEmbedded place) place
    rw [hs] at hone
    exact hone.trans ih
  | case3 r place rest s e hs =>
    have hone := registerOne_registrations (r.markEmbedded place) place
    rw [hs] at hone
    exact hone

/-- A registration leaves the fields of all models alone that were registered before. -/
theorem register_joined (r : Registry) (place : Nat) : r.Joined (r.register place).1 := by
  refine ⟨register_extends r place, ?_⟩
  have hone := registerOne_registrations r place
  unfold register
  split
  · rename_i s places hs
    rw [hs] at hone
    exact hone.trans (registerEmbedded_registrations s places)
  · rename_i s e hs
    rw [hs] at hone
    exact hone

/-! ## Models that were there before -/

namespace Joined

variable {model : String} {d : Definition} {kind : TypeKind} {key nested : TypeKey}

theorem find?_eq (h : r.Joined s) {m : Registration} (hm : Table.find? r.models model = some m) :
    Table.find? s.models model = some m := by
  obtain ⟨added, hadded⟩ := h.registrations
  rw [← hadded]
  exact Table.find?_append_of_some hm

theorem model? (h : r.Joined s) (hd : r.model? model = some d) :
    ∃ d', s.model? model = some d' ∧ d.Raised d' := by
  obtain ⟨m, hm, hplace⟩ := Option.bind_eq_some_iff.mp hd
  obtain ⟨d', hd', hraised⟩ := h.definitions m.place d hplace
  exact ⟨d', Option.bind_eq_some_iff.mpr ⟨m, h.find?_eq hm, hd'⟩, hraised⟩

theorem fieldsOf_eq (h : r.Joined s) (hd : r.model? model = some d) :
    s.fieldsOf model = r.fieldsOf model := by
  obtain ⟨m, hm, -⟩ := Option.bind_eq_some_iff.mp hd
  unfold fieldsOf
  rw [hm, h.find?_eq hm]

theorem scalarFields_eq (h : r.Joined s) (hd : r.model? model = some d) :
    s.scalarFields model = r.scalarFields model := by
  unfold scalarFields
  rw [h.fieldsOf_eq hd]

theorem fieldsFor_eq (h : r.Joined s) (hd : r.model? model = some d) (kind : TypeKind) :
    s.fieldsFor model kind = r.fieldsFor model kind := by
  cases kind <;> unfold fieldsFor <;> dsimp only <;>
    simp only [createFields, updateFields, outputFields, fieldsOfEmbedded, h.fieldsOf_eq hd]

theorem filterShape_eq (h : r.Joined s) (hd : r.model? model = some d) :
    filterShape s model = filterShape r model := by
  unfold filterShape
  rw [h.scalarFields_eq hd]

theorem hasField (h : r.Joined s) {f : Field} (hf : r.HasField f) : s.HasField f := by
  obtain ⟨model, fields, hfields, hmem⟩ := hf
  refine ⟨model, fields, ?_, hmem⟩
  unfold fieldsOf at hfields ⊢
  split at hfields
  · rename_i m hm
    rw [h.find?_eq hm]
    exact hfields
  · cases hfields

theorem nests_iff (h : r.Joined s) (hd : r.model? key.model = some d) :
    s.Nests key nested ↔ r.Nests key nested := by
  constructor
  · intro hnests
    cases hnests with
    | page => exact .page
    | field hkind hfields hf nests => exact .field hkind (h.fieldsFor_eq hd _ ▸ hfields) hf nests
  · intro hnests
    cases hnests with
    | page => exact .page
    | field hkind hfields hf nests =>
      exact .field hkind ((h.fieldsFor_eq hd _).trans hfields) hf nests

theorem partOf_iff (h : r.Joined s) (hd : r.model? key.model = some d) {f : Field} :
    s.PartOf key f ↔ r.PartOf key f := by
  constructor
  · intro hpart
    cases hpart with
    | field hkind hfields hf => exact .field hkind (h.fieldsFor_eq hd _ ▸ hfields) hf
    | condition hscalars hf hfilter =>
      exact .condition (h.scalarFields_eq hd ▸ hscalars) hf hfilter
  · intro hpart
    cases hpart with
    | field hkind hfields hf => exact .field hkind ((h.fieldsFor_eq hd _).trans hfields) hf
    | condition hscalars hf hfilter =>
      exact .condition ((h.scalarFields_eq hd).trans hscalars) hf hfilter

end Joined

theorem exists_model? {key : TypeKey} (h : ¬ r.Unbuildable key) :
    ∃ d, r.model? key.model = some d :=
  Option.ne_none_iff_exists'.mp fun hnone => h (.of_unregistered hnone)

namespace Joined

variable {key nested : TypeKey}

/-- What a type that can be built leads to is what it led to before. -/
theorem reaches (h : r.Joined s) (hb : ¬ r.Unbuildable key)
    (hreach : Relation.ReflTransGen s.Nests key nested) :
    Relation.ReflTransGen r.Nests key nested := by
  induction hreach with
  | refl => exact .refl
  | @tail last next _ hnests ih =>
    have hlast : ¬ r.Unbuildable last := fun ⟨reached, hreached, hfault⟩ =>
      hb ⟨reached, ih.trans hreached, hfault⟩
    obtain ⟨d, hd⟩ := exists_model? hlast
    exact ih.tail ((h.nests_iff hd).mp hnests)

theorem buildable (h : r.Joined s) (hb : ¬ r.Unbuildable key) : ¬ s.Unbuildable key := by
  rintro ⟨reached, hreach, hfault⟩
  have hbefore := h.reaches hb hreach
  have hreached : ¬ r.Unbuildable reached := fun ⟨last, hlast, hfault⟩ =>
    hb ⟨last, hbefore.trans hlast, hfault⟩
  obtain ⟨d, hd⟩ := exists_model? hreached
  rcases hfault with hnone | ⟨hkind, fields, hfields, huntyped⟩ | hcycle
  · obtain ⟨d', hd', -⟩ := h.model? hd
    rw [hd'] at hnone
    cases hnone
  · exact hreached ⟨reached, .refl, .inr (.inl ⟨hkind, fields, h.fieldsFor_eq hd _ ▸ hfields,
      huntyped⟩)⟩
  · obtain ⟨next, hnext, hback⟩ := Relation.TransGen.head'_iff.mp hcycle
    have hnext := (h.nests_iff hd).mp hnext
    have hback := h.reaches (fun hun => hreached (hun.of_nests hnext)) hback
    exact hreached (.of_cycle hnext hback)

/-- The description of a model does not tell whether it is embedded. -/
theorem describe_eq {d d' : Definition} (h : d.Raised d') (kind : TypeKind) :
    describe d' kind = describe d kind := by
  rcases h with rfl | rfl
  · rfl
  · cases kind <;> rfl

theorem shapeOf_eq (h : r.Joined s) (hb : ¬ r.Unbuildable key) :
    s.shapeOf key = r.shapeOf key := by
  obtain ⟨model, kind⟩ := key
  obtain ⟨d, hd⟩ := exists_model? hb
  obtain ⟨d', hd', hraised⟩ := h.model? hd
  dsimp only at hd hd'
  have hdescribed : (s.model? model).map (describe · kind) =
      (r.model? model).map (describe · kind) := by
    rw [hd, hd', Option.map_some, Option.map_some, describe_eq hraised]
  have hfields := h.fieldsFor_eq hd kind
  unfold shapeOf
  rw [h.scalarFields_eq hd]
  cases kind <;> first | rfl | (dsimp only; rw [hdescribed, hfields])

end Joined

end Registry

/-! ## Caches -/

namespace TypeCache

variable {r s : Registry} {c : TypeCache}

/-- A cache that building types led to before further models joined. -/
theorem Arises.joined (hc : Arises r c) (h : r.Joined s) : Arises s c := by
  unfold Arises at hc ⊢
  induction hc with
  | refl => exact .refl
  | declare _ hf hspec ih => exact ih.declare (h.hasField hf) hspec
  | @keep c' key _ may ih =>
    obtain ⟨d, hd⟩ := Registry.exists_model? may.buildable
    rw [← h.shapeOf_eq may.buildable]
    exact ih.keep
      { unbegun := may.unbegun
        new := may.new
        buildable := h.buildable may.buildable
        nested := fun nested hnests => may.nested nested ((h.nests_iff hd).mp hnests)
        declared := fun f hf => may.declared f ((h.partOf_iff hd).mp hf)
        filter := fun hkind => h.filterShape_eq hd ▸ may.filter hkind }

end TypeCache

end DocumentApi
