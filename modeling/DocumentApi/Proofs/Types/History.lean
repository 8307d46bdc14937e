import DocumentApi.Proofs.Types.Growth

/-!
# Requests for types in any order

* `Uniform`: a step whose answer is the same from all states of an invariant.
* `typeWhile_uniform`: the answer to a request for a type is the same from all caches that building
  types leads to, its failures included. Only types that lead to the requested one may be begun.
* `TypeRequest`: a request for one type or for all; `afterRequests` is the cache that requests
  leave, whatever each of them answers.
* `Instance`: the one place in a cache where a type is kept.
* `typeOf_history`: the answer to a request after any others is that of the first request, the type
  keeps its place for ever, and so do the types that it is made of.
-/

namespace DocumentApi

open TypeCache (Sound Grows GrowsTo Arises)

namespace Step

variable {σ α β : Type} {I : σ → Prop}

/-- The answer of a step is the same from all states of an invariant. -/
def Uniform (I : σ → Prop) (x : Step σ α) : Prop := ∀ s t, I s → I t → (x s).1 = (x t).1

theorem Uniform.pure (a : α) : Uniform I (Pure.pure a) := fun _ _ _ _ => rfl

theorem Uniform.fail (e : Error) : Uniform I (Step.fail e : Step σ α) := fun _ _ _ _ => rfl

theorem Uniform.ofExcept (r : Except Error α) : Uniform I (Step.ofExcept r) := fun _ _ _ _ => rfl

theorem Uniform.bind {x : Step σ α} {f : α → Step σ β} (hx : Uniform I x)
    (hkeeps : x.Preserves I) (hf : ∀ a, x.Answers a → Uniform I (f a)) :
    Uniform I (x >>= f) := by
  intro s t hs ht
  have hanswer := hx s t hs ht
  have hs' := hkeeps s hs
  have ht' := hkeeps t ht
  unfold Ends at hs' ht'
  rw [bind_run, bind_run]
  rcases hxs : x s with ⟨e | a, s'⟩ <;> rcases hxt : x t with ⟨e' | a', t'⟩ <;>
    rw [hxs, hxt] at hanswer <;> cases hanswer
  · rfl
  · rw [hxs] at hs'
    rw [hxt] at ht'
    exact hf a ⟨s, s', hxs⟩ s' t' hs' ht'

theorem Uniform.each {f : α → Step σ β} {xs : List α} (hf : ∀ x ∈ xs, Uniform I (f x))
    (hkeeps : ∀ x ∈ xs, (f x).Preserves I) : Uniform I (Step.each f xs) := by
  induction xs with
  | nil => exact .pure []
  | cons x xs ih =>
    have hrest : ∀ y ∈ xs, (f y).Preserves I := fun y hy => hkeeps y (List.mem_cons_of_mem _ hy)
    refine (hf x List.mem_cons_self).bind (hkeeps x List.mem_cons_self) fun b _ => ?_
    exact (ih (fun y hy => hf y (List.mem_cons_of_mem _ hy)) hrest).bind (.each hrest) fun bs _ =>
      .pure (b :: bs)

end Step

open Step (Uniform)

/-! ## Answers -/

section Answers

variable {r : Registry} {begun : List TypeKey} {key : TypeKey} {f : Field} {c c₂ : TypeCache}

theorem declareType_uniform {I : TypeCache → Prop} (f : Field) : Uniform I f.declareType := by
  have hanswer : ∀ c, (f.declareType c).1 = .ok () := by
    intro c
    unfold Field.declareType
    cases f.typeOverride <;> cases f.enumSpec <;> rfl
  exact fun c c₂ _ _ => (hanswer c).trans (hanswer c₂).symm

/-- Whether the filter of a model can be built does not depend on what was built before. -/
theorem filterShape_uniform (r : Registry) (model : String) :
    Uniform (fun _ => True) (filterShape r model) := by
  have hkeeps : ∀ {α : Type} (x : Step TypeCache α), x.Preserves fun _ => True :=
    fun _ _ _ => trivial
  refine (Uniform.ofExcept _).bind (hkeeps _) fun scalars _ => ?_
  refine (Uniform.each (fun f _ => ?_) fun f _ => hkeeps _).bind (hkeeps _) fun _ _ => .pure _
  refine (declareType_uniform f).bind (hkeeps _) fun _ _ => ?_
  split
  · exact .fail _
  split
  · exact .fail _
  · exact .pure _

/-- Building a type leads from caches that come about to such caches. -/
theorem typeWhile_arises (r : Registry) (begun : List TypeKey) (key : TypeKey) :
    (typeWhile r begun key).Preserves (Arises r) :=
  fun c hc => hc.grows (typeWhile_grows r begun key c hc.sound).1

/-- A filter that can be built from one cache can be built from every other. -/
theorem typeWhile_filter_isOk {model : String} {c₀ : TypeCache}
    (hok : (filterShape r model c₀).1.isOk) (hbegun : ⟨model, .filter⟩ ∉ begun)
    (registered : (r.model? model).isSome) : (typeWhile r begun ⟨model, .filter⟩ c).1.isOk := by
  rw [filterShape_uniform r model c₀ c trivial trivial] at hok
  obtain ⟨d, hd⟩ := Option.isSome_iff_exists.mp registered
  rw [typeWhile_eq]
  cases c.shape? ⟨model, .filter⟩ with
  | some shape => rfl
  | none =>
    dsimp only
    rw [if_neg hbegun, hd]
    dsimp only
    rw [Step.bind_run]
    unfold shapeWhile
    dsimp only
    rcases hshape : filterShape r model c with ⟨e | shape, c'⟩
    · rw [hshape] at hok
      cases hok
    · rfl

/-- What is kept in one cache is answered from every other, unless what is begun is made of it. -/
theorem typeWhile_of_kept {shape : TypeShape} (hc : Arises r c) (hc₂ : Arises r c₂)
    (h : c.shape? key = some shape) (hbegun : ∀ b ∈ begun, Relation.TransGen r.Nests b key) :
    (typeWhile r begun key c₂).1 = .ok shape := by
  obtain ⟨buildable, rfl⟩ := hc.sound.shapes key shape h
  obtain ⟨-, -, hanswer⟩ := typeWhile_builds r begun key c₂ hc₂.sound
  have hacyclic : ∀ b ∈ begun, ¬ Relation.ReflTransGen r.Nests key b := fun b hb hreach =>
    buildable ⟨key, .refl, Or.inr (Or.inr (.trans_right hreach (hbegun b hb)))⟩
  rcases hrun : typeWhile r begun key c₂ with ⟨e | shape, c'⟩ <;> rw [hrun] at hanswer
  · obtain ⟨-, hfilter | hunbuildable | ⟨b, hb, hreach⟩⟩ := hanswer
    · -- A failure can only be that of a filter, which can be built.
      obtain ⟨model, kind⟩ := key
      obtain rfl : kind = .filter := hfilter
      obtain ⟨c₀, hok⟩ := hc.filters h
      have registered : (r.model? model).isSome :=
        Option.isSome_iff_ne_none.mpr fun hnone => buildable (.of_unregistered hnone)
      have hbuilds := typeWhile_filter_isOk (c := c₂) hok (fun hmem => hacyclic _ hmem .refl)
        registered
      rw [hrun] at hbuilds
      cases hbuilds
    · exact absurd hunbuildable buildable
    · exact absurd hreach (hacyclic b hb)
  · rw [hanswer.2.1]

theorem fieldTypeWhile_uniform (hf : r.HasField f)
    (hnested : ∀ nested, f.Nests key.kind nested → Uniform (Arises r) (typeWhile r begun nested)) :
    Uniform (Arises r) (fieldTypeWhile r begun key f) := by
  have hdeclare : f.declareType.Preserves (Arises r) := fun c hc =>
    hc.trans (declareType_grows hf c).1
  cases fieldTyping r begun key f with
  | plain _ run =>
    rw [run]
    exact (declareType_uniform f).bind hdeclare fun _ _ => .pure _
  | fails e run =>
    rw [run]
    exact (declareType_uniform f).bind hdeclare fun _ _ => .fail e
  | nests nested nests _ run =>
    rw [run]
    exact (declareType_uniform f).bind hdeclare fun _ _ =>
      (hnested nested nests).bind (typeWhile_arises r begun nested) fun _ _ => .pure _

theorem fieldTypeWhile_arises (hf : r.HasField f) :
    (fieldTypeWhile r begun key f).Preserves (Arises r) :=
  fun _ hc => hc.grows (fieldTypeWhile_grows hf hc.sound fun nested _ c hs =>
    typeWhile_grows r begun nested c hs).1

theorem fieldsWhile_uniform {fields : List Field} (hfields : ∀ f ∈ fields, r.HasField f)
    (hnested : ∀ f ∈ fields, ∀ nested, f.Nests key.kind nested →
      Uniform (Arises r) (typeWhile r begun nested)) :
    Uniform (Arises r) (fieldsWhile r begun key fields) := by
  induction fields with
  | nil =>
    rw [fieldsWhile]
    exact .pure []
  | cons f rest ih =>
    have hrest : ∀ g ∈ rest, r.HasField g := fun g hg => hfields g (List.mem_cons_of_mem _ hg)
    rw [fieldsWhile_cons_eq]
    refine (fieldTypeWhile_uniform (hfields f List.mem_cons_self)
      (hnested f List.mem_cons_self)).bind (fieldTypeWhile_arises (hfields f List.mem_cons_self))
      fun type _ => ?_
    refine (ih hrest fun g hg => hnested g (List.mem_cons_of_mem _ hg)).bind (fun c hc => ?_)
      fun types _ => .pure _
    exact hc.grows (fieldsWhile_grows hrest hc.sound fun g _ nested _ c hs =>
      typeWhile_grows r begun nested c hs).1

theorem shapeWhile_uniform {d : Definition} (hd : r.model? key.model = some d)
    (hnested : ∀ nested, r.Nests key nested →
      Uniform (Arises r) (typeWhile r (begun ++ [key]) nested)) :
    Uniform (Arises r) (shapeWhile r begun key d) := by
  obtain ⟨model, kind⟩ := key
  have fields : kind.OfFields → Uniform (Arises r) (shapeWhile r begun ⟨model, kind⟩ d) := by
    intro hkind
    obtain ⟨fields, hfields⟩ := Registry.fieldsFor_ok hd kind
    have hdeclared : ∀ f ∈ fields, r.HasField f := fun f hf =>
      ⟨model, Registry.mem_of_fieldsFor hfields hf⟩
    rw [shapeWhile_fields hkind hfields]
    refine (fieldsWhile_uniform hdeclared fun f hf nested h =>
      hnested nested (.field hkind hfields hf h)).bind (fun c hc => ?_) fun _ _ => .pure _
    exact hc.grows (fieldsWhile_grows hdeclared hc.sound fun g _ nested _ c hs =>
      typeWhile_grows r _ nested c hs).1
  cases kind with
  | output => exact fields (Or.inl rfl)
  | create => exact fields (Or.inr (Or.inl rfl))
  | update => exact fields (Or.inr (Or.inr rfl))
  | pagination => exact (hnested _ .page).bind (typeWhile_arises r _ _) fun _ _ => .pure _
  | filter => exact fun s t _ _ => filterShape_uniform r model s t trivial trivial
  | sort => exact (Uniform.ofExcept _).bind (.ofExcept _) fun _ _ => .pure _

/-- A request for a type has one answer, whatever was built before. -/
theorem typeWhile_uniform (r : Registry) (begun : List TypeKey) (key : TypeKey)
    (hbegun : ∀ b ∈ begun, Relation.TransGen r.Nests b key) :
    Uniform (Arises r) (typeWhile r begun key) := by
  induction begun, key using typeWhile_induction r with | step begun key hnested
  intro c c₂ hc hc₂
  cases cached : c.shape? key with
  | some shape => rw [typeWhile_of_kept hc hc₂ cached hbegun, typeWhile_eq, cached]
  | none =>
  cases cached₂ : c₂.shape? key with
  | some shape => rw [typeWhile_of_kept hc₂ hc cached₂ hbegun, typeWhile_eq, cached₂]
  | none =>
    rw [typeWhile_eq, typeWhile_eq, cached, cached₂]
    dsimp only
    by_cases new : key ∈ begun
    · rw [if_pos new, if_pos new]
    rw [if_neg new, if_neg new]
    cases registered : r.model? key.model with
    | none => rfl
    | some d =>
      have hreach : ∀ nested, r.Nests key nested →
          ∀ b ∈ begun ++ [key], Relation.TransGen r.Nests b nested := by
        intro nested h b hb
        rcases List.mem_append.mp hb with hb | hb
        · exact (hbegun b hb).tail h
        · exact List.mem_singleton.mp hb ▸ .single h
      have hshape : Uniform (Arises r) (shapeWhile r begun key d) :=
        shapeWhile_uniform registered fun nested h =>
          hnested d new registered nested h (hreach nested h)
      have hanswer := hshape c c₂ hc hc₂
      dsimp only
      rw [Step.bind_run, Step.bind_run]
      rcases hbuilt : shapeWhile r begun key d c with ⟨answer, c'⟩
      rcases hbuilt₂ : shapeWhile r begun key d c₂ with ⟨answer₂, c₂'⟩
      rw [hbuilt, hbuilt₂] at hanswer
      obtain rfl : answer = answer₂ := hanswer
      cases answer <;> rfl

end Answers

/-! ## Requests -/

/-- A request for one type or for all. -/
inductive TypeRequest where
  | type (key : TypeKey)
  | all

/-- The cache that a request leaves, whatever it answers. -/
def TypeRequest.leaves (r : Registry) (c : TypeCache) : TypeRequest → TypeCache
  | .type key => (typeOf r key c).2
  | .all => (buildAll r c).2

namespace TypeCache

/-- The cache that requests leave one after another. -/
def afterRequests (r : Registry) (c : TypeCache) (requests : List TypeRequest) : TypeCache :=
  requests.foldl (TypeRequest.leaves r) c

/-- A type is kept at one place and at no other. -/
structure Instance (c : TypeCache) (key : TypeKey) (place : Nat) (shape : TypeShape) : Prop where
  kept : c.shapes[place]? = some (key, shape)
  only : ∀ (other : Nat) shape', c.shapes[other]? = some (key, shape') → other = place

/-- After any further requests, the type is answered from its one place. -/
def Lasts (r : Registry) (c : TypeCache) (key : TypeKey) (place : Nat) (shape : TypeShape) : Prop :=
  ∀ later, typeOf r key (c.afterRequests r later) = (.ok shape, c.afterRequests r later) ∧
    (c.afterRequests r later).Instance key place shape

end TypeCache

section Requests

variable {r : Registry} {c c' : TypeCache} {key nested : TypeKey} {shape : TypeShape}

theorem typeOf_grows (hs : Sound r c) (key : TypeKey) :
    (typeOf r key).Preserves (Grows r [] c) :=
  fun c' hc' => hc'.trans (typeWhile_grows r [] key c' (hc'.sound hs)).1

theorem buildAll_grows (hs : Sound r c) : (buildAll r).Preserves (Grows r [] c) := by
  have htype := typeOf_grows hs
  have hoptional : ∀ (x : Except Error (List Field)) (p : Field → Bool) key,
      (do if (← Step.ofExcept x).any p then return some (← typeOf r key) else return none :
        Step TypeCache (Option TypeShape)).Preserves (Grows r [] c) := by
    intro x p key
    refine (Step.Preserves.ofExcept x).bind fun fields _ => ?_
    split
    · exact (htype key).bind fun _ _ => .pure _
    · exact .pure none
  have hmodel : ∀ d, (buildModel r d).Preserves (Grows r [] c) := by
    intro d
    refine (htype _).bind fun _ _ => (htype _).bind fun _ _ => (htype _).bind fun _ _ => ?_
    split
    · refine (htype _).bind fun _ _ => (hoptional _ _ _).bind fun _ _ => ?_
      exact (hoptional _ _ _).bind fun _ _ => .pure ()
    · exact .pure ()
  exact (Step.Preserves.each fun d _ => hmodel d).bind fun _ _ => .pure ()

/-- A request only builds types, and so do requests one after another. -/
theorem afterRequests_grows (hs : Sound r c) (requests : List TypeRequest) :
    Grows r [] c (c.afterRequests r requests) := by
  have hone : ∀ c', Grows r [] c c' → ∀ request : TypeRequest,
      Grows r [] c (request.leaves r c') := by
    intro c' hc' request
    cases request with
    | type key => exact typeOf_grows hs key c' hc'
    | all => exact buildAll_grows hs c' hc'
  suffices hall : ∀ c', Grows r [] c c' → Grows r [] c (c'.afterRequests r requests) from
    hall c .refl
  induction requests with
  | nil => exact fun c' hc' => hc'
  | cons request requests ih => exact fun c' hc' => ih _ (hone c' hc' request)

/-! ## Instances -/

/-- A type that is kept is answered from its place for ever. -/
theorem lasts_of_kept (hc : Arises r c) {place : Nat}
    (hplace : c.shapes[place]? = some (key, shape)) : c.Lasts r key place shape := by
  intro later
  have hgrows := afterRequests_grows hc.sound later
  have hkept : (c.afterRequests r later).shapes[place]? = some (key, shape) := by
    obtain ⟨added, hadded⟩ := hgrows.isPrefix
    rw [← hadded, List.getElem?_append_left (List.getElem?_eq_some_iff.mp hplace).1, hplace]
  have hlater := hc.grows hgrows
  refine ⟨?_, hkept, fun other shape' hother => hlater.unique hother hkept⟩
  cases hfound : (c.afterRequests r later).shape? key with
  | none =>
    unfold TypeCache.shape? at hfound
    rw [Option.map_eq_none_iff, List.find?_eq_none] at hfound
    exact absurd (beq_self_eq_true key) (hfound _ (List.mem_of_getElem? hkept))
  | some shape' =>
    obtain ⟨place', hplace'⟩ := TypeCache.exists_place hfound
    obtain rfl := hlater.unique hkept hplace'
    rw [hkept] at hplace'
    cases hplace'
    rw [typeOf_eq, hfound]

theorem Field.Nests.typeIn_core {f : Field} {kind : TypeKind} (h : f.Nests kind nested) :
    (f.typeIn kind).core = .model nested := by
  cases h with
  | embedded shadow name =>
    rw [(Field.typeIn_embedded shadow name).2]
    split <;> rfl
  | related shadow plain relates =>
    unfold Field.typeIn
    rw [Field.not_shadowed_iff.mp shadow, plain, if_neg (by simp), relates]
    rfl

/-- The models that the fields of a type refer to are those of the types that it is made of. -/
theorem nests_of_core (buildable : ¬ r.Unbuildable key) {tf : TypeField}
    (htf : tf ∈ (r.shapeOf key).fields) (hcore : tf.type.core = .model nested) :
    r.Nests key nested := by
  obtain ⟨model, kind⟩ := key
  have fields : kind.OfFields → r.Nests ⟨model, kind⟩ nested := by
    intro hkind
    cases registered : r.model? model with
    | none => exact absurd (.of_unregistered registered) buildable
    | some d =>
      obtain ⟨fields, hfields⟩ := Registry.fieldsFor_ok registered kind
      rw [Registry.shapeOf_fields hkind hfields] at htf
      obtain ⟨f, hf, rfl⟩ := List.mem_map.mp htf
      have htype : (f.typeIn kind).core = .model nested := by
        unfold Field.toTypeField at hcore
        dsimp only at hcore
        split at hcore <;> exact hcore
      cases hplain : f.plainType? with
      | some type =>
        unfold Field.typeIn at htype
        rw [hplain] at htype
        rcases Field.plainType?_core hplain with ⟨s, hs⟩ | ⟨spec, -, -, rfl⟩
        · exact absurd (hs.symm.trans htype) nofun
        · cases htype
      | none =>
        by_contra hnests
        refine buildable ⟨_, .refl, Or.inr (Or.inl ⟨hkind, fields, hfields, f, hf,
          Field.not_shadowed_iff.mpr hplain, fun other hother => ?_⟩)⟩
        have hsame := hother.typeIn_core.symm.trans htype
        cases hsame
        exact hnests (.field hkind hfields hf hother)
  cases kind with
  | output => exact fields (Or.inl rfl)
  | create => exact fields (Or.inr (Or.inl rfl))
  | update => exact fields (Or.inr (Or.inr rfl))
  | pagination =>
    have hpage : ∀ tf ∈ (pageShape model).fields, tf.type.core = .model nested →
        nested = ⟨model, .output⟩ := by
      simp [pageShape, TypeRef.core, eq_comm]
    exact hpage tf htf hcore ▸ .page
  | filter | sort =>
    obtain ⟨f, -, rfl⟩ := List.mem_map.mp htf
    cases hcore

/-- Fields that name the same enum give it the same members. -/
def Registry.SharesEnums (r : Registry) : Prop :=
  ∀ f g spec spec', r.HasField f → r.HasField g → f.enumSpec = some spec → g.enumSpec = some spec' →
    spec.name = spec'.name → spec.members = spec'.members

theorem TypeCache.Arises.find?_enum (hc : Arises r c) (hr : r.SharesEnums) (hhas : c.Has key)
    {f : Field} {spec : EnumSpec} (hf : r.PartOf key f) (hplain : f.typeOverride = none)
    (hspec : f.enumSpec = some spec) : Table.find? c.enums spec.name = some spec.members := by
  obtain ⟨members, hmembers⟩ := hc.declares hhas hf spec hspec hplain
  obtain ⟨g, spec', hg, hspec', hname, rfl⟩ := hc.enums hmembers
  have hdeclared : r.HasField f := by
    cases hf with
    | field _ hfields hf => exact ⟨_, Registry.mem_of_fieldsFor hfields hf⟩
    | condition hscalars hf => exact ⟨_, Registry.mem_of_scalarFields hscalars hf⟩
  rw [hmembers, hr g f spec' spec hg hdeclared hspec' hspec hname]

/-- Requests for types answer the same in any order. After any requests, whatever each of them
answered, the answer to a request is the one of a first request, be it a type or a failure. A type
that is answered has one place, from which every later request answers it; its enums have the
members that its fields declare; and what its fields refer to are types that were made before it
and are answered from their own places in the same way. -/
theorem typeOf_history (hr : r.SharesEnums) (earlier : List TypeRequest) (key : TypeKey) :
    (typeOf r key (TypeCache.afterRequests r {} earlier)).1 = (typeOf r key {}).1 ∧
    ∀ shape c, typeOf r key (TypeCache.afterRequests r {} earlier) = (.ok shape, c) →
      (∀ f spec, r.PartOf key f → f.typeOverride = none → f.enumSpec = some spec →
        ∀ later, Table.find? (c.afterRequests r later).enums spec.name = some spec.members) ∧
      ∃ place, c.Lasts r key place shape ∧
        ∀ tf ∈ shape.fields, ∀ nested, tf.type.core = .model nested →
          ∃ place' shape', place' < place ∧ c.Lasts r nested place' shape' := by
  have hearlier : Arises r (TypeCache.afterRequests r {} earlier) :=
    afterRequests_grows (TypeCache.sound_empty r) earlier
  refine ⟨typeWhile_uniform r [] key (fun b hb => absurd hb List.not_mem_nil) _ _ hearlier
    (.empty r), fun shape c hrun => ?_⟩
  obtain ⟨hgrows, -⟩ := typeWhile_grows r [] key _ hearlier.sound
  obtain ⟨-, -, buildable, rfl, hkept⟩ := (typeWhile_builds r [] key _ hearlier.sound).of_eq hrun
  unfold typeOf at hrun
  rw [hrun] at hgrows
  have hc : Arises r c := hearlier.grows hgrows
  refine ⟨fun f spec hf hplain hspec later => ?_, ?_⟩
  · have hlater := afterRequests_grows hc.sound later
    exact hlater.le.enums _ _ (hc.find?_enum hr ⟨_, hkept⟩ hf hplain hspec)
  · obtain ⟨place, hplace⟩ := TypeCache.exists_place hkept
    refine ⟨place, lasts_of_kept hc hplace, fun tf htf nested hcore => ?_⟩
    obtain ⟨place', shape', hlt, hplace'⟩ := hc.before hplace (nests_of_core buildable htf hcore)
    exact ⟨place', shape', hlt, lasts_of_kept hc hplace'⟩

end Requests

/-! ## Books of a library -/

def genres : EnumSpec :=
  ⟨"Genre", [("POETRY", .text "poetry"), ("CRIME", .text "crime")]⟩

/-- A library has a genre and books of the same genres. A knot is made of itself. -/
def genreModels : Registry where
  definitions :=
    [⟨"Book", [], .all, false, "", true, none⟩, ⟨"Library", [], .all, false, "", false, none⟩,
      ⟨"Knot", [], .all, false, "", true, none⟩]
  models :=
    [("Book", ⟨0, [{ name := "genre", enumSpec := some genres }]⟩),
      ("Library", ⟨1, [
        { name := "books", storageType := "array", embedding := some (.named "Book"),
          many := true },
        { name := "genre", enumSpec := some genres }]⟩),
      ("Knot", ⟨2,
        [{ name := "end", storageType := "object", embedding := some (.named "Knot") }]⟩)]

theorem genreModels_sharesEnums : genreModels.SharesEnums := by
  have hall : ∀ f ∈ genreModels.models.flatMap fun m => m.2.fields,
      f.enumSpec = none ∨ f.enumSpec = some genres := by
    simp [genreModels]
  intro f g spec spec' hf hg hspec hspec' _
  have hgenres := (hall f hf.mem).resolve_left (by simp [hspec])
  have hgenres' := (hall g hg.mem).resolve_left (by simp [hspec'])
  rw [hspec] at hgenres
  rw [hspec'] at hgenres'
  rw [Option.some.inj hgenres, Option.some.inj hgenres']

theorem library_built :
    (typeOf genreModels ⟨"Library", .output⟩ {}).1 =
      .ok (genreModels.shapeOf ⟨"Library", .output⟩) := by
  -- The recursion is opened to the depth of the models; the rest is evaluated.
  have hwhile := funext fun begun => funext (typeWhile.eq_def genreModels begun)
  have hfields := funext fun begun => funext fun key =>
    funext (fieldsWhile.eq_def genreModels begun key)
  have hbuilt : (typeOf genreModels ⟨"Library", .output⟩ {}).1.isOk := by
    unfold typeOf
    rw [hwhile, hfields, hfields, hfields, hwhile, hfields, hfields]
    decide +kernel
  obtain ⟨-, -, hanswer⟩ :=
    typeWhile_builds genreModels [] ⟨"Library", .output⟩ {} (TypeCache.sound_empty _)
  unfold typeOf at hbuilt ⊢
  revert hbuilt hanswer
  cases (typeWhile genreModels [] ⟨"Library", .output⟩ {}).1 with
  | error e => exact fun hok => nomatch hok
  | ok shape => exact fun _ hanswer => congrArg Except.ok hanswer.2.1

/-- After a failure and a request for all types, which fails as well, a library has its type, and
the books in it are those of the earlier request for books. -/
theorem typeOf_library : genreModels.SharesEnums ∧
    ∃ c place place' shape', let earlier := [.type ⟨"Knot", .create⟩, .all, .type ⟨"Book", .output⟩]
      typeOf genreModels ⟨"Library", .output⟩ (TypeCache.afterRequests genreModels {} earlier) =
        (.ok (genreModels.shapeOf ⟨"Library", .output⟩), c) ∧
      Table.find? c.enums "Genre" = some genres.members ∧
      c.Lasts genreModels ⟨"Library", .output⟩ place
        (genreModels.shapeOf ⟨"Library", .output⟩) ∧
      place' < place ∧ c.Lasts genreModels ⟨"Book", .output⟩ place' shape' := by
  obtain ⟨hsame, hinstances⟩ := typeOf_history genreModels_sharesEnums
    [.type ⟨"Knot", .create⟩, .all, .type ⟨"Book", .output⟩] ⟨"Library", .output⟩
  rw [library_built] at hsame
  obtain ⟨henums, place, hlasts, hnested⟩ := hinstances _ _ (Prod.ext hsame rfl)
  obtain ⟨place', shape', hlt, hbooks⟩ := hnested
    ⟨"books", "books", .list (.model ⟨"Book", .output⟩), none, .null⟩ (by decide)
    ⟨"Book", .output⟩ rfl
  refine ⟨genreModels_sharesEnums, _, place, place', shape', Prod.ext hsame rfl, ?_, hlasts, hlt,
    hbooks⟩
  refine henums { name := "genre", enumSpec := some genres } genres ?_ rfl rfl []
  exact .field (Or.inl rfl) rfl (List.mem_cons_of_mem _ List.mem_cons_self)

end DocumentApi
