import DocumentApi.Proofs.Service.Surface
import DocumentApi.Proofs.Types.Resuming

/-!
# Builds after builds that failed

A build that fails in the types adds no operations, and models can still be registered after it. The
next build finds the types and enums that it left.

* `Service.Attempted`: a service with such builds among its registrations, beside one with the same
  registrations and none of these builds.
* `Attempted.invariant`: no operations are there, and the types are some of those of the models.
* `Attempted.foreseen`: what failed builds leave of the enums.
* `build_resumes`: a build ends as it would without them, and leaves the same operations and types.
  Only an enum that the filter of a now embedded model had may differ.
-/

namespace DocumentApi

open TypeCache (Sound Arises Foreseen)

namespace Service

/-- Two services with the same registrations. Between those of the first one were builds that failed
in the types; the second one was never built. -/
inductive Attempted : Service → Service → Prop
  | start (hooks : HookTable) (state : State) (h : state.types = {}) :
      Attempted { hooks, state } { hooks, state }
  | define {s u : Service} (h : Attempted s u) (d : Definition) :
      Attempted (define d s).2 (define d u).2
  | register {s t u : Service} {place : Nat} (h : Attempted s u)
      (hs : register place s = (.ok (), t)) : Attempted t (register place u).2
  | build {s u : Service} {e : Error} (h : Attempted s u)
      (hs : (buildAll s.registry s.state.types).1 = .error e) : Attempted (build s).2 u

variable {s t u v : Service}

theorem register_eq (hs : s.built = false) (place : Nat) :
    register place s = ((s.registry.register place).2,
      { s with registry := (s.registry.register place).1 }) := by
  unfold register
  rw [hs]
  rfl

/-- A build that fails in the types leaves nothing but types. -/
theorem build_fails {e : Error} (hs : s.built = false)
    (h : (buildAll s.registry s.state.types).1 = .error e) :
    build s = (.error e, { s with
      state := { s.state with types := (buildAll s.registry s.state.types).2 } }) := by
  have hrun : onTypes (buildAll s.registry) s = (.error e, { s with
      state := { s.state with types := (buildAll s.registry s.state.types).2 } }) := by
    rw [onTypes_eq, h]
  unfold build
  rw [Step.bind_run]
  dsimp only [Step.state]
  rw [if_neg (by simp [hs]), Step.bind_run, hrun]

namespace Attempted

theorem fresh (h : Attempted s u) : u.Fresh := by
  induction h with
  | start hooks state h => exact ⟨.empty, h, rfl, rfl⟩
  | define _ d ih => exact ⟨ih.registry.define d, ih.types, ih.operations, ih.built⟩
  | @register s t u place _ _ ih =>
    rw [register_eq ih.built]
    exact ⟨ih.registry.register place, ih.types, ih.operations, ih.built⟩
  | build _ _ ih => exact ih

/-- The types of a service in which builds failed come about as those of its models do. -/
theorem invariant (h : Attempted s u) : s.registry = u.registry ∧ s.operations = [] ∧
    s.built = false ∧ Arises s.registry s.state.types := by
  induction h with
  | start hooks state h => exact ⟨rfl, rfl, rfl, h ▸ .empty _⟩
  | @define s u _ d ih =>
    obtain ⟨hsame, hnone, hopen, hc⟩ := ih
    refine ⟨?_, hnone, hopen, hc.joined (Registry.define_joined s.registry d)⟩
    show (s.registry.define d).1 = (u.registry.define d).1
    rw [hsame]
  | @register s t u place h hs ih =>
    obtain ⟨hsame, hnone, hopen, hc⟩ := ih
    rw [register_eq hopen] at hs
    cases (Prod.mk.inj hs).2
    rw [register_eq h.fresh.built, hsame]
    refine ⟨rfl, hnone, hopen, ?_⟩
    rw [← hsame]
    exact hc.joined (Registry.register_joined s.registry place)
  | @build s u e _ hs ih =>
    obtain ⟨hsame, hnone, hopen, hc⟩ := ih
    rw [build_fails hopen hs]
    exact ⟨hsame, hnone, hopen, (buildAll_making s.registry).preserves _ hc⟩

/-- The enums that failed builds leave are those of a build of all models that there will be, but
for those that are hidden then. -/
theorem foreseen {r : Registry} {full : TypeCache} (h : Attempted s u) (hr : s.registry.Joined r)
    (hfull : buildAll r {} = (.ok (), full)) : Foreseen r full s.state.types := by
  induction h with
  | start hooks state h => exact h ▸ nofun
  | @define s u _ d ih => exact ih ((Registry.define_joined s.registry d).trans hr)
  | @register s t u place h hs ih =>
    rw [register_eq h.invariant.2.2.1] at hs
    cases (Prod.mk.inj hs).2
    exact ih ((Registry.register_joined s.registry place).trans hr)
  | @build s u e h hs ih =>
    obtain ⟨hsame, -, hopen, hc⟩ := h.invariant
    rw [build_fails hopen hs] at hr ⊢
    have hnamed : s.registry.Named := hsame ▸ h.fresh.registry.named
    exact buildAll_foreseen hr hnamed hc (ih hr) hfull

end Attempted

theorem Attempted.unbuilt (h : Attempted s u) : s.Unbuilt := by
  obtain ⟨hsame, hnone, hopen, hc⟩ := h.invariant
  exact ⟨hsame ▸ h.fresh.registry, hc.sound, hnone, hopen⟩

/-- A build succeeds exactly if it would have as the first one. -/
theorem Attempted.build_iff (h : Attempted s u) :
    (∃ t, Service.build s = (.ok (), t)) ↔ ∃ v, Service.build u = (.ok (), v) := by
  obtain ⟨hsame, -, -, hc⟩ := h.invariant
  have hbuilds : (buildAll s.registry s.state.types).1 = (buildAll u.registry u.state.types).1 := by
    rw [← hsame, h.fresh.types]
    exact buildAll_uniform s.registry _ _ hc (.empty _)
  rw [build_ok_iff h.unbuilt, build_ok_iff h.fresh.unbuilt, hbuilds, hsame]

/-- After builds that failed in the types there are no operations and models can be registered. The
next build succeeds exactly if it would have as the first one, and then it leaves the same
operations and the same types. An enum has the same members, but for one of which a failed build
left those that the filter of a model had which has been embedded in others since. -/
theorem build_resumes (h : Attempted s u) :
    s.operations = [] ∧ checkOpen s = (.ok (), s) ∧
    ((∃ t, build s = (.ok (), t)) ↔ ∃ v, build u = (.ok (), v)) ∧
    ∀ t v, build s = (.ok (), t) → build u = (.ok (), v) →
      t.registry = v.registry ∧ t.operations = v.operations ∧
      (∀ key shape, v.state.types.shape? key = some shape →
        t.state.types.shape? key = some shape) ∧
      ∀ name members, Table.find? v.state.types.enums name = some members →
        ∃ others, Table.find? t.state.types.enums name = some others ∧
          (others = members ∨ t.registry.HidesEnum name others) := by
  obtain ⟨hsame, hnone, hopen, hc⟩ := h.invariant
  have hs := h.unbuilt
  have hu := h.fresh.unbuilt
  refine ⟨hnone, ?_, h.build_iff, fun t v ht hv => ?_⟩
  · unfold checkOpen
    rw [hopen]
    rfl
  obtain ⟨-, hops, htypes, hmodels⟩ := build_leaves hs ht
  obtain ⟨-, hops', htypes', hmodels'⟩ := build_leaves hu hv
  have hfull : buildAll s.registry {} = (.ok (), v.state.types) := by
    rw [htypes', hsame, ← h.fresh.types]
    exact Prod.ext (buildAll_of_build hu hv) rfl
  have hrun : buildAll s.registry s.state.types = (.ok (), t.state.types) :=
    htypes ▸ Prod.ext (buildAll_of_build hs ht) rfl
  have hahead :=
    buildAll_ahead hs.registry.named hc (h.foreseen (.refl _) hfull) hfull hrun
  have hsound := ((buildAll_making s.registry).run hc hrun).1.sound
  have hsound' := ((buildAll_making s.registry).run (.empty _) hfull).1.sound
  refine ⟨by rw [hmodels, hmodels', hsame], by rw [hops, hops', hsame],
    fun key shape hshape => ?_, fun name members hmembers => ?_⟩
  · obtain ⟨shape', hshape'⟩ := hahead.kept key ⟨shape, hshape⟩
    rw [hshape', (hsound.shapes key shape' hshape').2, (hsound'.shapes key shape hshape).2]
  · cases hfound : Table.find? t.state.types.enums name with
    | none =>
      rw [hahead.undeclared name hfound] at hmembers
      cases hmembers
    | some others =>
      refine ⟨others, rfl, ?_⟩
      rcases hahead.foreseen name others hfound with hothers | hhides
      · rw [hmembers] at hothers
        exact .inl (Option.some.inj hothers).symm
      · exact .inr (hmodels ▸ hhides)

/-! ## A wheel that becomes part of a bike -/

def wheelSizes : EnumSpec :=
  ⟨"Size", [("SMALL", .text "s")]⟩

def bikeSizes : EnumSpec :=
  ⟨"Size", [("LARGE", .text "l")]⟩

/-- A wheel, which can be filtered by its size but does not show it. -/
def wheelModel : Definition :=
  ⟨"Wheel", [{ name := "name" },
    { name := "size", enumSpec := some wheelSizes, filterable := true, excludedOnCreate := true,
      excludedOnUpdate := true, excludedOnOutput := true }],
    .only [.create], false, "", false, none⟩

def garageModel : Definition :=
  ⟨"Garage", [{ name := "bike", storageType := "object", embedding := some (.named "Bike") }],
    .only [.create], false, "", false, none⟩

/-- A bike embeds a wheel: the definition at place 0. -/
def bikeModel : Definition :=
  ⟨"Bike", [Registry.embeddedAt "wheel" 0 "Wheel", { name := "size", enumSpec := some bikeSizes }],
    .only [.create], false, "", false, none⟩

/-- A garage cannot be built before there are bikes. -/
def garageModels : Registry where
  definitions := [wheelModel, garageModel]
  models := [("Wheel", ⟨0, wheelModel.declaredFields⟩), ("Garage", ⟨1, garageModel.declaredFields⟩)]

def bikeModels : Registry where
  definitions := [{ wheelModel with embedded := true }, garageModel, bikeModel]
  models := garageModels.models ++ [("Bike", ⟨2, bikeModel.declaredFields⟩)]

/-- Bikes after a build without them, which has given a wheel its filter. -/
def resumedBikes : Service where
  registry := bikeModels
  state := { types := (buildAll garageModels {}).2 }

def freshBikes : Service where
  registry := bikeModels

theorem bikes_evaluated :
    ((buildAll garageModels {}).1.isOk = false ∧
      (Table.find? (buildAll garageModels {}).2.enums "Size").map Table.names = some ["SMALL"]) ∧
    (buildAll bikeModels {}).1.isOk ∧
      (Table.find? (buildAll bikeModels {}).2.enums "Size").map Table.names = some ["LARGE"] := by
  -- The recursions are opened to the depth of the models; the rest is evaluated.
  have hwhile := funext fun r => funext fun begun => funext (typeWhile.eq_def r begun)
  have hfields := funext fun r => funext fun begun => funext fun key =>
    funext (fieldsWhile.eq_def r begun key)
  unfold buildAll buildModel filterTypeOf sortTypeOf typeOf
  rw [hwhile, hfields, hfields, hfields, hwhile, hfields, hfields, hfields, hfields, hwhile]
  decide +kernel

theorem bikes_attempted : Attempted resumedBikes freshBikes := by
  have registers : ∀ (place depth : Nat) {r r' : Registry} {c : TypeCache},
      Attempted { registry := r, state := { types := c } } { registry := r } →
      r.pending < depth → Registry.registerWithin depth r place = some (r', .ok ()) →
      Attempted { registry := r', state := { types := c } } { registry := r' } := by
    intro place depth r r' c h hdepth hwithin
    have hr : r.register place = (r', .ok ()) := Registry.register_of_within hdepth hwithin
    have hrun : register place { registry := r, state := { types := c } } =
        (.ok (), { registry := r', state := { types := c } }) := by rw [register_eq rfl, hr]
    have hstep := h.register hrun
    rwa [register_eq rfl, hr] at hstep
  have hdefined := ((Attempted.start {} {} rfl).define wheelModel).define garageModel
  have hwheel := registers 0 3 hdefined (by decide) rfl
  have hgarage : Attempted { registry := garageModels } { registry := garageModels } :=
    registers 1 2 hwheel (by decide) rfl
  obtain ⟨⟨hfails, -⟩, -⟩ := bikes_evaluated
  obtain ⟨e, he⟩ : ∃ e, (buildAll garageModels {}).1 = .error e := by
    cases hanswer : (buildAll garageModels {}).1 with
    | error e => exact ⟨e, rfl⟩
    | ok answer => rw [hanswer] at hfails; cases hfails
  have hbuilt := hgarage.build he
  rw [build_fails rfl he] at hbuilt
  have hlast : Attempted
      { registry := ⟨garageModels.definitions ++ [bikeModel], garageModels.models⟩
        state := { types := (buildAll garageModels {}).2 } }
      { registry := ⟨garageModels.definitions ++ [bikeModel], garageModels.models⟩ } :=
    hbuilt.define bikeModel
  exact registers 2 2 hlast (by decide) rfl

theorem bikes_build : ∃ t v, build resumedBikes = (.ok (), t) ∧ build freshBikes = (.ok (), v) := by
  obtain ⟨-, hbuilt, -⟩ := bikes_evaluated
  have harrays : bikeModels.ArraysRegistered := by
    rintro d hd f ⟨declared, hdeclared, hf, harray⟩
    have hnone : ∀ d ∈ bikeModels.topLevel, ∀ f ∈ (bikeModels.fieldsOf d.name).toOption.getD [],
        f.isEmbeddedArray = false := by decide
    rw [hnone d hd f (by rw [hdeclared]; exact hf)] at harray
    cases harray
  have hfresh : ∃ v, build freshBikes = (.ok (), v) :=
    (build_ok_iff bikes_attempted.fresh.unbuilt).mpr
      ⟨congrArg Prod.fst (Step.eq_of_isOk hbuilt), harrays, by decide +kernel⟩
  obtain ⟨t, ht⟩ := bikes_attempted.build_iff.mpr hfresh
  obtain ⟨v, hv⟩ := hfresh
  exact ⟨t, v, ht, hv⟩

/-- The failed build makes no difference to the operations. -/
theorem bikes_build_resumes : Attempted resumedBikes freshBikes ∧
    ∃ t v, build resumedBikes = (.ok (), t) ∧ build freshBikes = (.ok (), v) ∧
      t.operations = v.operations ∧
      operationNames t.operations = ["createGarage", "createBike"] := by
  obtain ⟨t, v, ht, hv⟩ := bikes_build
  obtain ⟨-, -, -, hleaves⟩ := build_resumes bikes_attempted
  obtain ⟨-, hops, -⟩ := hleaves t v ht hv
  refine ⟨bikes_attempted, t, v, ht, hv, hops, ?_⟩
  rw [(build_leaves bikes_attempted.unbuilt ht).2.1]
  decide +kernel

/-- The size of a bike has the members that the size of a wheel had for its filter. -/
theorem bikes_sizes_differ : ∃ s u t v, Attempted s u ∧ build s = (.ok (), t) ∧
    build u = (.ok (), v) ∧
    (⟨"size", "size", .enum "Size", none, .none⟩ : TypeField) ∈
      (t.registry.shapeOf ⟨"Bike", .create⟩).fields ∧
    (Table.find? t.state.types.enums "Size").map Table.names = some ["SMALL"] ∧
    (Table.find? v.state.types.enums "Size").map Table.names = some ["LARGE"] := by
  obtain ⟨t, v, ht, hv⟩ := bikes_build
  obtain ⟨⟨-, hsmall⟩, -, hlarge⟩ := bikes_evaluated
  have hs := bikes_attempted.unbuilt
  obtain ⟨-, -, htypes, hmodels⟩ := build_leaves hs ht
  obtain ⟨-, -, htypes', -⟩ := build_leaves bikes_attempted.fresh.unbuilt hv
  refine ⟨_, _, t, v, bikes_attempted, ht, hv, ?_, ?_, ?_⟩
  · rw [hmodels]
    decide +kernel
  · obtain ⟨members, hmembers, hnames⟩ := Option.map_eq_some_iff.mp hsmall
    have hle := (buildAll_settles resumedBikes.registry _ hs.types).1
    rw [htypes, hle.enums _ _ hmembers, Option.map_some, hnames]
  · rw [htypes']
    exact hlarge

end Service

end DocumentApi
