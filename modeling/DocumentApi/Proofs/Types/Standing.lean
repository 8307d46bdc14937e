import DocumentApi.Proofs.Types.Steady

/-!
# Types that stand after all were built

A step that settles answers the same for ever once it has answered. What stands for a step of
several parts stands for each part, so after all types were built every type of every model stands.

* `Stands`: the answer of a step from every later cache.
* `Stands.of_bind`, `Stands.of_each`: the answers of the parts of a step that stands.
* `ModelStands`: the types of one model stand.
* `buildAll_stands`: so do those of all models after all were built.
-/

namespace DocumentApi

open TypeCache (Sound Builds)

/-- Every later cache gives the answer and stays as it is. -/
def Stands {α : Type} (r : Registry) (c : TypeCache) (x : Step TypeCache α) (a : α) : Prop :=
  ∀ later, c ≤ later → Sound r later → x later = (.ok a, later)

section Stands

variable {α β : Type} {r : Registry} {c : TypeCache}

namespace Stands

theorem run {x : Step TypeCache α} {a : α} (h : Stands r c x a) (hs : Sound r c) :
    x c = (.ok a, c) :=
  h c (TypeCache.le_refl c) hs

/-- The first answer of a step that settles stands from then on. -/
theorem of_settles {x : Step TypeCache α} {a : α} {c' : TypeCache} (hx : Settles r x)
    (hs : Sound r c) (h : x c = (.ok a, c')) : Sound r c' ∧ Stands r c' x a := by
  obtain ⟨-, hs', hsettled⟩ := (hx c hs).of_eq h
  exact ⟨hs', hsettled a rfl⟩

/-- A step whose answer stands consists of steps whose answers stand. -/
theorem of_bind {x : Step TypeCache α} {f : α → Step TypeCache β} {b : β} (hs : Sound r c)
    (hx : Settles r x) (hf : ∀ a, Settles r (f a)) (h : Stands r c (x >>= f) b) :
    ∃ a, Stands r c x a ∧ Stands r c (f a) b := by
  obtain ⟨a, c₁, hxc, hfc⟩ := Step.bind_ok (h.run hs)
  obtain ⟨hs₁, hstands⟩ := of_settles hx hs hxc
  -- The second step leads back to `c`, so the first one had not left it.
  have hle : c₁ ≤ c := ((hf a c₁ hs₁).of_eq hfc).1
  have hfirst : Stands r c x a := fun later hlater =>
    hstands later (TypeCache.le_trans hle hlater)
  refine ⟨a, hfirst, fun later hlater hslater => ?_⟩
  rw [← h later hlater hslater]
  exact (Step.bind_of_ok (hfirst later hlater hslater)).symm

theorem of_each {f : α → Step TypeCache β} {xs : List α} {ys : List β} (hs : Sound r c)
    (hf : ∀ x ∈ xs, Settles r (f x)) (h : Stands r c (Step.each f xs) ys) :
    ∀ x ∈ xs, ∃ y, Stands r c (f x) y := by
  induction xs generalizing ys with
  | nil => exact fun x hx => absurd hx List.not_mem_nil
  | cons x xs ih =>
    have hrest : ∀ y ∈ xs, Settles r (f y) := fun y hy => hf y (List.mem_cons_of_mem _ hy)
    have hall : Settles r (Step.each f xs) := .each hrest
    obtain ⟨y, hy, h⟩ := of_bind (f := fun y => Step.each f xs >>= fun ys => pure (y :: ys)) hs
      (hf x List.mem_cons_self) (fun y => hall.bind fun ys => .pure (y :: ys)) h
    obtain ⟨ys, hys, -⟩ := of_bind hs hall (fun ys => .pure (y :: ys)) h
    intro x' hx'
    rcases List.mem_cons.mp hx' with rfl | hx'
    · exact ⟨y, hy⟩
    · exact ih hrest hys x' hx'

end Stands

/-! ## Types of models -/

/-- The types of a model stand, and if it is not embedded in others those that list it. -/
structure ModelStands (r : Registry) (c : TypeCache) (d : Definition) : Prop where
  output : ∃ shape, Stands r c (typeOf r ⟨d.name, .output⟩) shape
  create : ∃ shape, Stands r c (typeOf r ⟨d.name, .create⟩) shape
  update : ∃ shape, Stands r c (typeOf r ⟨d.name, .update⟩) shape
  pagination : d.embedded = false → ∃ shape, Stands r c (typeOf r ⟨d.name, .pagination⟩) shape
  filter : d.embedded = false → ∃ filter, Stands r c (filterTypeOf r d.name) filter
  sort : d.embedded = false → ∃ sort, Stands r c (sortTypeOf r d.name) sort

theorem buildModel_stands {d : Definition} (hs : Sound r c) (h : Stands r c (buildModel r d) ()) :
    ModelStands r c d := by
  have htype := typeOf_settles r
  have hsort := fun _ : Option TypeShape => (sortTypeOf_settles r d.name).bind fun _ => .pure ()
  have hfilter := fun _ : TypeShape => (filterTypeOf_settles r d.name).bind hsort
  have hlists : Settles r (if !d.embedded then do
      let _ ← typeOf r ⟨d.name, .pagination⟩
      let _ ← filterTypeOf r d.name
      let _ ← sortTypeOf r d.name
      pure ()
    else pure ()) := by
    split
    · exact (htype _).bind hfilter
    · exact .pure ()
  have hupdate := fun _ : TypeShape => (htype ⟨d.name, .update⟩).bind fun _ => hlists
  obtain ⟨output, houtput, h⟩ :=
    h.of_bind hs (htype _) fun _ => (htype ⟨d.name, .create⟩).bind hupdate
  obtain ⟨create, hcreate, h⟩ := h.of_bind hs (htype _) hupdate
  obtain ⟨update, hupdate, h⟩ := h.of_bind hs (htype _) fun _ => hlists
  have hlisted : d.embedded = false →
      (∃ shape, Stands r c (typeOf r ⟨d.name, .pagination⟩) shape) ∧
      (∃ filter, Stands r c (filterTypeOf r d.name) filter) ∧
      ∃ sort, Stands r c (sortTypeOf r d.name) sort := by
    intro htop
    rw [htop, Bool.not_false, if_pos rfl] at h
    obtain ⟨page, hpage, h⟩ := h.of_bind hs (htype _) hfilter
    obtain ⟨filter, hfilter, h⟩ := h.of_bind hs (filterTypeOf_settles r d.name) hsort
    obtain ⟨sort, hsort, -⟩ := h.of_bind hs (sortTypeOf_settles r d.name) fun _ => .pure ()
    exact ⟨⟨page, hpage⟩, ⟨filter, hfilter⟩, ⟨sort, hsort⟩⟩
  exact ⟨⟨output, houtput⟩, ⟨create, hcreate⟩, ⟨update, hupdate⟩, fun htop => (hlisted htop).1,
    fun htop => (hlisted htop).2.1, fun htop => (hlisted htop).2.2⟩

/-- After all types were built, those of every registered model stand. -/
theorem buildAll_stands {types : TypeCache} (hs : Sound r c)
    (h : buildAll r c = (.ok (), types)) :
    Sound r types ∧ ∀ d ∈ r.registered, ModelStands r types d := by
  have hmodels : ∀ d ∈ r.registered, Settles r (buildModel r d) := fun d _ => buildModel_settles r d
  obtain ⟨hs, hall⟩ := Stands.of_settles (buildAll_settles r) hs h
  obtain ⟨answers, hall, -⟩ := hall.of_bind hs (.each hmodels) fun _ => .pure ()
  refine ⟨hs, fun d hd => ?_⟩
  obtain ⟨answer, hmodel⟩ := hall.of_each hs hmodels d hd
  exact buildModel_stands hs hmodel

theorem isSome_of_present {present : Bool} {key : TypeKey} {type : Option TypeShape}
    {c' : TypeCache}
    (h : (if present then do return some (← typeOf r key) else pure none : Step TypeCache _) c =
      (.ok type, c')) : type.isSome = present := by
  cases present with
  | false =>
    cases h
    rfl
  | true =>
    obtain ⟨shape, c₁, -, h⟩ := Step.bind_ok h
    cases h
    rfl

/-- There is a type for the filter of a model if it has a plain field to filter by. -/
theorem filterTypeOf_isSome {model : String} {fields : List Field} {filter : Option TypeShape}
    {c' : TypeCache} (hfields : r.scalarFields model = .ok fields)
    (h : filterTypeOf r model c = (.ok filter, c')) :
    filter.isSome = fields.any Field.filterable := by
  unfold filterTypeOf at h
  rw [hfields] at h
  exact isSome_of_present h

/-- There is a type for the sort order of a model if it has a plain field to sort by. -/
theorem sortTypeOf_isSome {model : String} {fields : List Field} {sort : Option TypeShape}
    {c' : TypeCache} (hfields : r.scalarFields model = .ok fields)
    (h : sortTypeOf r model c = (.ok sort, c')) : sort.isSome = fields.any Field.sortable := by
  unfold sortTypeOf at h
  rw [hfields] at h
  exact isSome_of_present h

end Stands

end DocumentApi
