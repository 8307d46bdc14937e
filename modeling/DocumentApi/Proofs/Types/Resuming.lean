import DocumentApi.Proofs.Types.Joining

/-!
# Builds that go on where others failed

A build that fails leaves types and enums behind, and more models may join before the next one. Each
build makes the same steps as a single build of all models would, up to where it fails, so what it
leaves is part of what that build makes. A filter is the exception: a model may be embedded in
others later, and then it is given none.

* `Making`: a step that only builds types.
* `buildAll_uniform`: whether all types can be built does not depend on what was left.
* `Registry.HidesEnum`: the enum of a field that only the filter of an embedded model would have.
* `Ahead`: the cache of a build that goes on, beside that of the single build.
* `Trails`: a step of a build and the same step of the single build, with what the caches of both
  have in common after it. `typeWhile_trails` is the induction on the recursion of building a type.
* `buildAll_foreseen`: what a build leaves of the enums, failed or not.
* `buildAll_ahead`: what a build leaves that succeeds at last.
-/

namespace DocumentApi

open Step (Uniform)
open TypeCache (Sound Grows Arises)

/-! ## Steps that only build types -/

/-- A step that only builds types. -/
def Making {α : Type} (r : Registry) (x : Step TypeCache α) : Prop :=
  ∀ c, Sound r c → x.Ends c fun _ c' => Grows r [] c c'

section Making

variable {α β : Type} {r : Registry} {c c' : TypeCache} {x : Step TypeCache α}

namespace Making

theorem pure (a : α) : Making r (Pure.pure a) := fun _ _ => .refl

theorem fail (e : Error) : Making r (Step.fail e : Step TypeCache α) := fun _ _ => .refl

theorem ofExcept (answer : Except Error α) : Making r (Step.ofExcept answer) := fun _ _ => .refl

theorem bind {f : α → Step TypeCache β} (hx : Making r x) (hf : ∀ a, Making r (f a)) :
    Making r (x >>= f) := fun c hs =>
  Step.Ends.bind (hx c hs) (fun a c' h => Step.Ends.mono (hf a c' (h.sound hs)) fun _ _ => h.trans)
    fun _ _ h => h

theorem each {f : α → Step TypeCache β} {xs : List α} (hf : ∀ x ∈ xs, Making r (f x)) :
    Making r (Step.each f xs) := by
  induction xs with
  | nil => exact pure []
  | cons x xs ih =>
    refine bind (hf x List.mem_cons_self) fun b => ?_
    exact bind (ih fun y hy => hf y (List.mem_cons_of_mem _ hy)) fun bs => pure (b :: bs)

theorem run {answer : Except Error α} (hx : Making r x) (hc : Arises r c)
    (h : x c = (answer, c')) : Arises r c' ∧ c ≤ c' := by
  have hgrows := hx c hc.sound
  unfold Step.Ends at hgrows
  rw [h] at hgrows
  exact ⟨hc.trans hgrows, hgrows.le⟩

theorem preserves (hx : Making r x) : x.Preserves (Arises r) :=
  fun _ hc => hc.trans (hx _ hc.sound)

end Making

theorem typeWhile_making (r : Registry) (begun : List TypeKey) (key : TypeKey) :
    Making r (typeWhile r begun key) :=
  fun c hs => (typeWhile_grows r begun key c hs).1.weaken (List.nil_subset _)

theorem declareType_making {f : Field} (hf : r.HasField f) : Making r f.declareType :=
  fun c _ => (declareType_grows hf c).1

theorem fieldTypeWhile_making {f : Field} (hf : r.HasField f) (begun : List TypeKey)
    (key : TypeKey) : Making r (fieldTypeWhile r begun key f) :=
  fun _ hs => (fieldTypeWhile_grows hf hs fun nested _ c hs =>
    typeWhile_grows r begun nested c hs).1.weaken (List.nil_subset _)

theorem fieldsWhile_making {fields : List Field} (hfields : ∀ f ∈ fields, r.HasField f)
    (begun : List TypeKey) (key : TypeKey) : Making r (fieldsWhile r begun key fields) :=
  fun _ hs => (fieldsWhile_grows hfields hs fun _ _ nested _ c hs =>
    typeWhile_grows r begun nested c hs).1.weaken (List.nil_subset _)

theorem filterField_making {f : Field} (hf : r.HasField f) (model : String) :
    Making r (filterField model f) := by
  refine (declareType_making hf).bind fun _ => ?_
  split
  · exact .fail _
  split
  · exact .fail _
  · exact .pure _

theorem typeOf_making (r : Registry) (key : TypeKey) : Making r (typeOf r key) :=
  typeWhile_making r [] key

/-- A type of a model that has one if any of its fields is for it. -/
def typeIfAny (r : Registry) (fields : Except Error (List Field)) (p : Field → Bool)
    (key : TypeKey) : Step TypeCache (Option TypeShape) := do
  if (← Step.ofExcept fields).any p then return some (← typeOf r key)
  else return none

theorem filterTypeOf_eq (r : Registry) (model : String) : filterTypeOf r model =
    typeIfAny r (r.scalarFields model) Field.filterable ⟨model, .filter⟩ := rfl

theorem sortTypeOf_eq (r : Registry) (model : String) : sortTypeOf r model =
    typeIfAny r (r.scalarFields model) Field.sortable ⟨model, .sort⟩ := rfl

theorem typeIfAny_making (r : Registry) (fields : Except Error (List Field)) (p : Field → Bool)
    (key : TypeKey) : Making r (typeIfAny r fields p key) := by
  refine (Making.ofExcept fields).bind fun fields => ?_
  split
  · exact (typeOf_making r key).bind fun _ => .pure _
  · exact .pure none

theorem filterTypeOf_making (r : Registry) (model : String) : Making r (filterTypeOf r model) :=
  typeIfAny_making r _ _ _

theorem sortTypeOf_making (r : Registry) (model : String) : Making r (sortTypeOf r model) :=
  typeIfAny_making r _ _ _

/-- The types by which the documents of a model are listed. -/
def buildListing (r : Registry) (d : Definition) : Step TypeCache Unit := do
  let _ ← typeOf r ⟨d.name, .pagination⟩
  let _ ← filterTypeOf r d.name
  let _ ← sortTypeOf r d.name

theorem buildModel_eq (r : Registry) (d : Definition) : buildModel r d = (do
    let _ ← typeOf r ⟨d.name, .output⟩
    let _ ← typeOf r ⟨d.name, .create⟩
    let _ ← typeOf r ⟨d.name, .update⟩
    if !d.embedded then buildListing r d else pure ()) := rfl

theorem buildListing_making (r : Registry) (d : Definition) : Making r (buildListing r d) :=
  (typeOf_making r _).bind fun _ => (filterTypeOf_making r _).bind fun _ =>
    (sortTypeOf_making r _).bind fun _ => .pure ()

theorem buildModel_making (r : Registry) (d : Definition) : Making r (buildModel r d) := by
  rw [buildModel_eq]
  refine (typeOf_making r _).bind fun _ => (typeOf_making r _).bind fun _ => ?_
  refine (typeOf_making r _).bind fun _ => ?_
  split
  · exact buildListing_making r d
  · exact .pure ()

theorem buildAll_making (r : Registry) : Making r (buildAll r) :=
  fun c hs => buildAll_grows hs c .refl

end Making

/-! ## Whether types can be built -/

section Uniform

variable {r : Registry}

theorem typeOf_uniform (r : Registry) (key : TypeKey) : Uniform (Arises r) (typeOf r key) :=
  typeWhile_uniform r [] key fun _ hb => absurd hb List.not_mem_nil

theorem typeIfAny_uniform (r : Registry) (fields : Except Error (List Field)) (p : Field → Bool)
    (key : TypeKey) : Uniform (Arises r) (typeIfAny r fields p key) := by
  refine (Uniform.ofExcept fields).bind (.ofExcept fields) fun fields _ => ?_
  split
  · exact (typeOf_uniform r key).bind (typeOf_making r key).preserves fun _ _ => .pure _
  · exact .pure none

/-- Whether all types can be built does not depend on what was built before. -/
theorem buildAll_uniform (r : Registry) : Uniform (Arises r) (buildAll r) := by
  have htype := typeOf_uniform r
  have hkeeps := fun key => (typeOf_making r key).preserves
  have hlisting : ∀ d, Uniform (Arises r) (buildListing r d) := by
    intro d
    refine (htype _).bind (hkeeps _) fun _ _ => ?_
    refine (typeIfAny_uniform r _ _ _).bind (filterTypeOf_making r _).preserves fun _ _ => ?_
    exact (typeIfAny_uniform r _ _ _).bind (sortTypeOf_making r _).preserves fun _ _ => .pure ()
  have hmodel : ∀ d, Uniform (Arises r) (buildModel r d) := by
    intro d
    refine (htype _).bind (hkeeps _) fun _ _ => (htype _).bind (hkeeps _) fun _ _ => ?_
    refine (htype _).bind (hkeeps _) fun _ _ => ?_
    split
    · exact hlisting d
    · exact .pure ()
  refine Uniform.bind (.each (fun d _ => hmodel d) fun d _ => (buildModel_making r d).preserves)
    (.each fun d _ => (buildModel_making r d).preserves) fun _ _ => .pure ()

end Uniform

/-! ## Two builds -/

/-- An embedded model has a field to filter by that is in no other type of the model, and the enum
of that field has a name and members. -/
def Registry.HidesEnum (r : Registry) (name : String) (members : Table Value) : Prop :=
  ∃ d ∈ r.registered, d.embedded = true ∧ ∃ f spec, r.PartOf ⟨d.name, .filter⟩ f ∧
    (∀ kind : TypeKind, kind.OfFields → ¬ r.PartOf ⟨d.name, kind⟩ f) ∧
    f.typeOverride = none ∧ f.enumSpec = some spec ∧ spec.name = name ∧ spec.members = members

namespace TypeCache

variable {r s : Registry} {full c c' u : TypeCache} {key nested : TypeKey} {f : Field}

/-- The enums of a cache are those of the cache `full`, or are hidden. -/
def Foreseen (s : Registry) (full c : TypeCache) : Prop :=
  ∀ name members, Table.find? c.enums name = some members →
    Table.find? full.enums name = some members ∨ s.HidesEnum name members

theorem Foreseen.declare {spec : EnumSpec} (h : Foreseen s full c)
    (hnew : Table.find? c.enums spec.name = none →
      Table.find? full.enums spec.name = some spec.members ∨ s.HidesEnum spec.name spec.members) :
    Foreseen s full (c.declare spec) := by
  intro name members hfound
  by_cases hname : spec.name = name
  · subst hname
    rw [find?_declare] at hfound
    cases hfound
    unfold membersOf
    cases hold : Table.find? c.enums spec.name with
    | some known => exact h _ known hold
    | none => exact hnew hold
  · rw [find?_declare_ne c hname] at hfound
    exact h name members hfound

/-- A later cache all of whose enums are foreseen. -/
structure Continues (s : Registry) (full c c' : TypeCache) : Prop where
  le : c ≤ c'
  foreseen : Foreseen s full c'

theorem Continues.keep (h : Continues s full c c') (key : TypeKey) (shape : TypeShape) :
    Continues s full c (c'.keep key shape) :=
  ⟨le_trans h.le (le_keep c' key shape), h.foreseen⟩

/-- The cache `c` of a build that goes on has what the cache `u` of a single build has, and of the
enums only those that the single build comes to have. -/
structure Ahead (s : Registry) (full c u : TypeCache) : Prop where
  foreseen : Foreseen s full c
  kept : ∀ key, u.Has key → c.Has key
  undeclared : ∀ name, Table.find? c.enums name = none → Table.find? u.enums name = none

namespace Ahead

theorem start (h : Foreseen s full c) : Ahead s full c {} :=
  ⟨h, fun _ hkey => absurd hkey.choose_spec nofun, fun _ _ => rfl⟩

theorem mono (h : Ahead s full c u) (hc' : Continues s full c c') : Ahead s full c' u := by
  refine ⟨hc'.foreseen, fun key hkey => (h.kept key hkey).mono hc'.le, fun name hnone => ?_⟩
  refine h.undeclared name ?_
  cases hfound : Table.find? c.enums name with
  | none => rfl
  | some members =>
    rw [hc'.le.enums name members hfound] at hnone
    cases hnone

/-- Both builds declare the enum of a field, which is new to the single build if it is new. -/
theorem declare {spec : EnumSpec} (h : Ahead s full c u) (hle : u.declare spec ≤ full) :
    Ahead s full (c.declare spec) (u.declare spec) := by
  refine ⟨h.foreseen.declare fun hnew => ?_, fun key ⟨shape, hshape⟩ => ?_, fun name hnone => ?_⟩
  · have hlater := hle.enums _ _ (find?_declare u spec)
    unfold membersOf at hlater
    rw [h.undeclared _ hnew] at hlater
    exact .inl hlater
  · rw [shape?_declare] at hshape
    obtain ⟨shape', hshape'⟩ := h.kept key ⟨shape, hshape⟩
    exact ⟨shape', by rwa [shape?_declare]⟩
  · have hname : spec.name ≠ name := by
      rintro rfl
      rw [find?_declare] at hnone
      cases hnone
    rw [find?_declare_ne c hname] at hnone
    rw [find?_declare_ne u hname]
    exact h.undeclared name hnone

theorem keep_right (h : Ahead s full c u) (hkey : c.Has key) (shape : TypeShape) :
    Ahead s full c (u.keep key shape) := by
  refine ⟨h.foreseen, fun other ⟨shape', hshape'⟩ => ?_, h.undeclared⟩
  rcases of_shape?_keep hshape' with hknown | rfl
  · exact h.kept other ⟨shape', hknown⟩
  · exact hkey

theorem keep (h : Ahead s full c u) (key : TypeKey) (shape shape' : TypeShape) :
    Ahead s full (c.keep key shape) (u.keep key shape') :=
  (h.mono ⟨le_keep c key shape, h.foreseen⟩).keep_right (has_keep c key shape) shape'

end Ahead

end TypeCache

open TypeCache (Foreseen Continues Ahead)

/-- The step `x` of a build that goes on from `c` stays ahead of the step `y` of the single build
while that succeeds. If `x` fails, what it has declared was foreseen all the same. -/
def Trails {α β : Type} (s : Registry) (full c : TypeCache) (x : Step TypeCache α)
    (y : Step TypeCache β) : Prop :=
  ∀ u b u', Arises s u → Ahead s full c u → y u = (.ok b, u') → u' ≤ full →
    x.Ends c fun answer c' => Foreseen s full c' ∧ (answer.isOk → Ahead s full c' u')

/-- The step `y` of the single build makes nothing that is not in `c`. -/
def Behind {β : Type} (s : Registry) (full c : TypeCache) (y : Step TypeCache β) : Prop :=
  ∀ u b u', Arises s u → Ahead s full c u → y u = (.ok b, u') → u' ≤ full → Ahead s full c u'

section Rules

variable {α β γ δ : Type} {r s : Registry} {full c : TypeCache}

namespace Trails

theorem pure (a : α) (b : β) : Trails s full c (Pure.pure a) (Pure.pure b) := by
  intro u _ u' _ hahead hrun _
  cases hrun
  exact ⟨hahead.foreseen, fun _ => hahead⟩

theorem fail (e : Error) (y : Step TypeCache β) :
    Trails s full c (Step.fail e : Step TypeCache α) y :=
  fun _ _ _ _ hahead _ _ => ⟨hahead.foreseen, fun h => absurd h Bool.false_ne_true⟩

theorem ofExcept (answer : Except Error α) (answer' : Except Error β) :
    Trails s full c (Step.ofExcept answer) (Step.ofExcept answer') := by
  intro u b u' _ hahead hrun _
  cases (Step.ofExcept_ok hrun).2
  exact ⟨hahead.foreseen, fun _ => hahead⟩

theorem bind {x : Step TypeCache α} {y : Step TypeCache β} {f : α → Step TypeCache γ}
    {g : β → Step TypeCache δ} (hx : Trails s full c x y) (hy : Making s y)
    (hg : ∀ b, Making s (g b))
    (hf : ∀ a b c', x c = (.ok a, c') → Trails s full c' (f a) (g b)) :
    Trails s full c (x >>= f) (y >>= g) := by
  intro u d u' hu hahead hrun hle
  obtain ⟨b, v, hyu, hgv⟩ := Step.bind_ok hrun
  obtain ⟨hv, -⟩ := hy.run hu hyu
  have hfirst := hx u b v hu hahead hyu
    (TypeCache.le_trans ((hg b).run hv hgv).2 hle)
  unfold Step.Ends at hfirst ⊢
  rw [Step.bind_run]
  rcases hxc : x c with ⟨e | a, c'⟩
  · rw [hxc] at hfirst
    exact ⟨hfirst.1, fun h => absurd h Bool.false_ne_true⟩
  · rw [hxc] at hfirst
    exact hf a b c' hxc v d u' hv (hfirst.2 rfl) hgv hle

theorem each {f : α → Step TypeCache β} {g : γ → Step TypeCache δ} {xs : List α} {ys : List γ}
    (h : List.Forall₂ (fun x y => Making r (f x) ∧
      ∀ c, Arises r c → Trails s full c (f x) (g y)) xs ys)
    (hys : ∀ y ∈ ys, Making s (g y)) (hc : Arises r c) :
    Trails s full c (Step.each f xs) (Step.each g ys) := by
  induction h generalizing c with
  | nil => exact pure [] []
  | @cons x y xs ys hxy _ ih =>
    obtain ⟨hx, htrails⟩ := hxy
    have hrest : ∀ z ∈ ys, Making s (g z) := fun z hz => hys z (List.mem_cons_of_mem _ hz)
    have hall : Making s (Step.each g ys) := .each hrest
    refine bind (htrails c hc) (hys y List.mem_cons_self) (fun _ => hall.bind fun _ => .pure _) ?_
    intro b d c' hrun
    exact bind (ih hrest (hx.run hc hrun).1) hall (fun _ => .pure _) fun _ _ _ _ => pure _ _

/-- A step that changes nothing stays ahead of what makes nothing new. -/
theorem behind {x : Step TypeCache α} {y : Step TypeCache β} {a : α} (h : Trails s full c x y)
    (hx : x c = (.ok a, c)) : Behind s full c y := by
  intro u b u' hu hahead hrun hle
  have hend := h u b u' hu hahead hrun hle
  unfold Step.Ends at hend
  rw [hx] at hend
  exact hend.2 rfl

end Trails

namespace Behind

theorem pure (b : β) : Behind s full c (Pure.pure b) :=
  (Trails.pure () b).behind rfl

theorem fail (e : Error) : Behind s full c (Step.fail e : Step TypeCache β) :=
  fun _ _ _ _ _ hrun _ => by cases hrun

theorem ofExcept (answer : Except Error β) : Behind s full c (Step.ofExcept answer) :=
  (Trails.ofExcept (.ok ()) answer).behind rfl

theorem bind {y : Step TypeCache β} {g : β → Step TypeCache γ} (hy : Behind s full c y)
    (hgrows : Making s y) (hg : ∀ b, Making s (g b) ∧ Behind s full c (g b)) :
    Behind s full c (y >>= g) := by
  intro u d u' hu hahead hrun hle
  obtain ⟨b, v, hyu, hgv⟩ := Step.bind_ok hrun
  obtain ⟨hv, -⟩ := hgrows.run hu hyu
  have hfirst := hy u b v hu hahead hyu (TypeCache.le_trans ((hg b).1.run hv hgv).2 hle)
  exact (hg b).2 v d u' hv hfirst hgv hle

theorem each {g : α → Step TypeCache β} {xs : List α}
    (h : ∀ x ∈ xs, Making s (g x) ∧ Behind s full c (g x)) :
    Behind s full c (Step.each g xs) := by
  induction xs with
  | nil => exact pure []
  | cons x xs ih =>
    obtain ⟨hgrows, hbehind⟩ := h x List.mem_cons_self
    have hrest : ∀ y ∈ xs, Making s (g y) ∧ Behind s full c (g y) :=
      fun y hy => h y (List.mem_cons_of_mem _ hy)
    have hall : Making s (Step.each g xs) := .each fun y hy => (hrest y hy).1
    exact bind hbehind hgrows fun b => ⟨hall.bind fun _ => .pure _,
      bind (ih hrest) hall fun bs => ⟨.pure _, pure _⟩⟩

end Behind

end Rules

/-! ## Fields -/

section Fields

variable {r s : Registry} {full c : TypeCache} {begun : List TypeKey} {key : TypeKey} {f : Field}

/-- A field declares the enum that gives it its type, if there is one. -/
theorem declareType_cases (f : Field) :
    (∃ spec, f.enumSpec = some spec ∧ f.typeOverride = none ∧
      f.declareType = Step.modify fun c => c.declare spec) ∨ f.declareType = pure () := by
  unfold Field.declareType
  split
  · rename_i spec hplain hspec
    exact .inl ⟨spec, hspec, hplain, rfl⟩
  · exact .inr rfl

/-- What a filter makes of a field does not depend on the types that are kept. -/
theorem filterField_eq (model : String) (f : Field) : ∃ answer, filterField model f =
    f.declareType >>= fun _ => Step.ofExcept answer := by
  unfold filterField
  by_cases hplain : f.plainType?.isNone
  · simp only [hplain]
    exact ⟨.error (.fieldTypeUnresolved model f.name), rfl⟩
  by_cases hcontains : (f.filterOperators.contains .contains && !f.isTextual) = true
  · simp only [hplain, hcontains]
    exact ⟨.error (.containsNeedsText model f.name), rfl⟩
  · simp only [hplain, hcontains]
    exact ⟨.ok _, rfl⟩

theorem declareType_trails (f : Field) : Trails s full c f.declareType f.declareType := by
  rcases declareType_cases f with ⟨spec, -, -, hrun⟩ | hrun <;> rw [hrun]
  · intro u b u' _ hahead hrun hle
    cases hrun
    have hdeclared := hahead.declare hle
    exact ⟨hdeclared.foreseen, fun _ => hdeclared⟩
  · exact .pure () ()

theorem declareType_behind (h : c.Declares f) : Behind s full c f.declareType := by
  refine (declareType_trails f).behind (a := ()) ?_
  rcases declareType_cases f with ⟨spec, hspec, hplain, hrun⟩ | hrun <;> rw [hrun]
  · obtain ⟨members, hmembers⟩ := h spec hspec hplain
    exact Prod.ext rfl (TypeCache.declare_of_has hmembers)
  · rfl

theorem fieldTypeWhile_behind (hf : s.HasField f) (hmade : FieldMade c key.kind f)
    (hnested : ∀ nested, f.Nests key.kind nested → c.Has nested →
      Behind s full c (typeWhile s begun nested)) :
    Behind s full c (fieldTypeWhile s begun key f) := by
  have hdeclare : Behind s full c f.declareType := declareType_behind hmade.declared
  have hgrows := declareType_making hf
  cases fieldTyping s begun key f with
  | plain _ run =>
    rw [run]
    exact hdeclare.bind hgrows fun _ => ⟨.pure _, .pure _⟩
  | fails e run =>
    rw [run]
    exact hdeclare.bind hgrows fun _ => ⟨.fail e, .fail e⟩
  | nests nested nests _ run =>
    rw [run]
    have hbehind := hnested nested nests (hmade.nested nested nests)
    have htype := typeWhile_making s begun nested
    exact hdeclare.bind hgrows fun _ => ⟨htype.bind fun _ => .pure _,
      hbehind.bind htype fun _ => ⟨.pure _, .pure _⟩⟩

theorem fieldsWhile_behind {fields : List Field} (hfields : ∀ f ∈ fields, s.HasField f)
    (hmade : ∀ f ∈ fields, FieldMade c key.kind f)
    (hnested : ∀ f ∈ fields, ∀ nested, f.Nests key.kind nested → c.Has nested →
      Behind s full c (typeWhile s begun nested)) :
    Behind s full c (fieldsWhile s begun key fields) := by
  induction fields with
  | nil =>
    rw [fieldsWhile]
    exact .pure []
  | cons f rest ih =>
    have hf := hfields f List.mem_cons_self
    have hrest : ∀ g ∈ rest, s.HasField g := fun g hg => hfields g (List.mem_cons_of_mem _ hg)
    have hall := fieldsWhile_making hrest begun key
    rw [fieldsWhile_cons_eq]
    refine (fieldTypeWhile_behind hf (hmade f List.mem_cons_self)
      (hnested f List.mem_cons_self)).bind (fieldTypeWhile_making hf begun key) fun type =>
        ⟨hall.bind fun _ => .pure _, ?_⟩
    exact (ih hrest (fun g hg => hmade g (List.mem_cons_of_mem _ hg)) fun g hg =>
      hnested g (List.mem_cons_of_mem _ hg)).bind hall fun types => ⟨.pure _, .pure _⟩

/-- A field that has a type in the later registry has the same one in the earlier, or fails. -/
theorem fieldTypeWhile_trails (hc : Arises r c) (hf : r.HasField f) (hf' : s.HasField f)
    (hnested : ∀ nested, f.Nests key.kind nested → ∀ c, Arises r c →
      Trails s full c (typeWhile r begun nested) (typeWhile s begun nested)) :
    Trails s full c (fieldTypeWhile r begun key f) (fieldTypeWhile s begun key f) := by
  have hdeclare : Trails s full c f.declareType f.declareType := declareType_trails f
  have hgrows := declareType_making hf'
  cases fieldTyping s begun key f with
  | plain shadowed run =>
    rw [run]
    cases fieldTyping r begun key f with
    | plain _ run' =>
      rw [run']
      exact hdeclare.bind hgrows (fun _ => .pure _) fun _ _ _ _ => .pure _ _
    | fails e run' =>
      rw [run']
      exact hdeclare.bind hgrows (fun _ => .pure _) fun _ _ _ _ => .fail e _
    | nests nested nests => exact absurd shadowed nests.not_shadowed
  | fails e run =>
    rw [run]
    intro u b u' _ _ hrun _
    obtain ⟨_, v, -, hfail⟩ := Step.bind_ok hrun
    cases hfail
  | nests nested nests unique run =>
    have htype := typeWhile_making s begun nested
    have hlast : Making s (typeWhile s begun nested >>= fun _ => pure (f.typeIn key.kind)) :=
      htype.bind fun _ => .pure _
    rw [run]
    cases fieldTyping r begun key f with
    | plain shadowed => exact absurd shadowed nests.not_shadowed
    | fails e run' =>
      rw [run']
      exact hdeclare.bind hgrows (fun _ => hlast) fun _ _ _ _ => .fail e _
    | nests nested' nests' _ run' =>
      obtain rfl := unique nested' nests'
      rw [run']
      refine hdeclare.bind hgrows (fun _ => hlast) fun _ _ c' hrun => ?_
      obtain ⟨hc', -⟩ := (declareType_making hf).run hc hrun
      exact (hnested nested' nests' c' hc').bind htype (fun _ => .pure _) fun _ _ _ _ => .pure _ _

theorem fieldsWhile_trails {fields : List Field} (hc : Arises r c)
    (hfields : ∀ f ∈ fields, r.HasField f ∧ s.HasField f)
    (hnested : ∀ f ∈ fields, ∀ nested, f.Nests key.kind nested → ∀ c, Arises r c →
      Trails s full c (typeWhile r begun nested) (typeWhile s begun nested)) :
    Trails s full c (fieldsWhile r begun key fields) (fieldsWhile s begun key fields) := by
  induction fields generalizing c with
  | nil =>
    rw [fieldsWhile, fieldsWhile]
    exact .pure [] []
  | cons f rest ih =>
    obtain ⟨hf, hf'⟩ := hfields f List.mem_cons_self
    have hrest : ∀ g ∈ rest, r.HasField g ∧ s.HasField g :=
      fun g hg => hfields g (List.mem_cons_of_mem _ hg)
    have hall := fieldsWhile_making (fun g hg => (hrest g hg).2) begun key
    rw [fieldsWhile_cons_eq, fieldsWhile_cons_eq]
    refine (fieldTypeWhile_trails hc hf hf' (hnested f List.mem_cons_self)).bind
      (fieldTypeWhile_making hf' begun key) (fun _ => hall.bind fun _ => .pure _)
      fun _ _ c' hrun => ?_
    obtain ⟨hc', -⟩ := (fieldTypeWhile_making hf begun key).run hc hrun
    exact (ih hc' hrest fun g hg => hnested g (List.mem_cons_of_mem _ hg)).bind hall
      (fun _ => .pure _) fun _ _ _ _ => .pure _ _

theorem filterField_trails (model : String) (hf : s.HasField f) :
    Trails s full c (filterField model f) (filterField model f) := by
  obtain ⟨answer, hanswer⟩ := filterField_eq model f
  rw [hanswer]
  exact (declareType_trails f).bind (declareType_making hf) (fun _ => .ofExcept answer)
    fun _ _ _ _ => .ofExcept answer answer

theorem filterField_behind (model : String) (hf : s.HasField f) (hdeclared : c.Declares f) :
    Behind s full c (filterField model f) := by
  obtain ⟨answer, hanswer⟩ := filterField_eq model f
  rw [hanswer]
  exact (declareType_behind hdeclared).bind (declareType_making hf) fun _ =>
    ⟨.ofExcept answer, .ofExcept answer⟩

end Fields

/-! ## Types -/

section Types

variable {r s : Registry} {full c : TypeCache} {begun : List TypeKey} {key : TypeKey}
  {d d' : Definition}

theorem filterShape_eq {model : String} {scalars : List Field}
    (hscalars : r.scalarFields model = .ok scalars) : filterShape r model =
      Step.each (filterField model) (scalars.filter Field.filterable) >>= fun fields =>
        pure ⟨TypeKind.filter.typeName model, true, none, fields⟩ := by
  unfold filterShape
  rw [hscalars]
  rfl

/-- The type of a key makes nothing new where it is kept, if what it nests makes nothing new. -/
theorem shapeWhile_behind (hc : Arises s c) (hhas : c.Has key) (hd : s.model? key.model = some d)
    (hnested : ∀ nested, s.Nests key nested → c.Has nested →
      Behind s full c (typeWhile s (begun ++ [key]) nested)) :
    Behind s full c (shapeWhile s begun key d) := by
  obtain ⟨model, kind⟩ := key
  have fields : kind.OfFields → Behind s full c (shapeWhile s begun ⟨model, kind⟩ d) := by
    intro hkind
    obtain ⟨fields, hfields⟩ := Registry.fieldsFor_ok hd kind
    have hdeclared : ∀ f ∈ fields, s.HasField f := fun f hf =>
      ⟨model, Registry.mem_of_fieldsFor hfields hf⟩
    rw [shapeWhile_fields hkind hfields]
    refine (fieldsWhile_behind hdeclared (fun f hf => ⟨?_, fun nested h => ?_⟩)
      fun f hf nested h => hnested nested (.field hkind hfields hf h)).bind
        (fieldsWhile_making hdeclared _ _) fun _ => ⟨.pure _, .pure _⟩
    · exact hc.declares hhas (.field hkind hfields hf)
    · exact hc.has_nested hhas (.field hkind hfields hf h)
  cases kind with
  | output => exact fields (Or.inl rfl)
  | create => exact fields (Or.inr (Or.inl rfl))
  | update => exact fields (Or.inr (Or.inr rfl))
  | pagination =>
    exact (hnested _ .page (hc.has_nested hhas .page)).bind (typeWhile_making s _ _) fun _ =>
      ⟨.pure _, .pure _⟩
  | filter =>
    obtain ⟨scalars, hscalars⟩ := Registry.scalarFields_ok hd
    have hfields : ∀ f ∈ scalars.filter Field.filterable, Making s (filterField model f) ∧
        Behind s full c (filterField model f) := by
      intro f hf
      obtain ⟨hmem, hfilter⟩ := List.mem_filter.mp hf
      have hdeclared : s.HasField f := ⟨model, Registry.mem_of_scalarFields hscalars hmem⟩
      exact ⟨filterField_making hdeclared model, filterField_behind model hdeclared
        (hc.declares hhas (.condition hscalars hmem hfilter))⟩
    show Behind s full c (filterShape s model)
    rw [filterShape_eq hscalars]
    exact (Behind.each hfields).bind (.each fun f hf => (hfields f hf).1) fun _ =>
      ⟨.pure _, .pure _⟩
  | sort => exact (Behind.ofExcept _).bind (.ofExcept _) fun _ => ⟨.pure _, .pure _⟩

/-- Both builds make the type of a key of the same fields. -/
theorem shapeWhile_trails (h : r.Joined s) (hc : Arises r c) (hd : r.model? key.model = some d)
    (hd' : s.model? key.model = some d')
    (hnested : ∀ nested, s.Nests key nested → ∀ c, Arises r c →
      Trails s full c (typeWhile r (begun ++ [key]) nested)
        (typeWhile s (begun ++ [key]) nested)) :
    Trails s full c (shapeWhile r begun key d) (shapeWhile s begun key d') := by
  obtain ⟨model, kind⟩ := key
  have fields : kind.OfFields → Trails s full c (shapeWhile r begun ⟨model, kind⟩ d)
      (shapeWhile s begun ⟨model, kind⟩ d') := by
    intro hkind
    obtain ⟨fields, hfields⟩ := Registry.fieldsFor_ok hd kind
    have hfields' := (h.fieldsFor_eq hd kind).trans hfields
    have hdeclared : ∀ f ∈ fields, r.HasField f ∧ s.HasField f := by
      intro f hf
      have hf' : r.HasField f := ⟨model, Registry.mem_of_fieldsFor hfields hf⟩
      exact ⟨hf', h.hasField hf'⟩
    rw [shapeWhile_fields hkind hfields, shapeWhile_fields hkind hfields']
    exact (fieldsWhile_trails hc hdeclared fun f hf nested h =>
      hnested nested (.field hkind hfields' hf h)).bind
        (fieldsWhile_making (fun f hf => (hdeclared f hf).2) _ _) (fun _ => .pure _)
        fun _ _ _ _ => .pure _ _
  cases kind with
  | output => exact fields (Or.inl rfl)
  | create => exact fields (Or.inr (Or.inl rfl))
  | update => exact fields (Or.inr (Or.inr rfl))
  | pagination =>
    exact (hnested _ .page c hc).bind (typeWhile_making s _ _) (fun _ => .pure _)
      fun _ _ _ _ => .pure _ _
  | filter =>
    obtain ⟨scalars, hscalars⟩ := Registry.scalarFields_ok hd
    have hfields : ∀ f ∈ scalars.filter Field.filterable, r.HasField f := fun f hf =>
      ⟨model, Registry.mem_of_scalarFields hscalars (List.mem_filter.mp hf).1⟩
    have hgrows : ∀ f ∈ scalars.filter Field.filterable, Making s (filterField model f) :=
      fun f hf => filterField_making (h.hasField (hfields f hf)) model
    show Trails s full c (filterShape r model) (filterShape s model)
    rw [h.filterShape_eq hd, filterShape_eq hscalars]
    refine (Trails.each (r := r) (List.forall₂_same.mpr fun f hf => ⟨?_, fun c _ => ?_⟩) hgrows
      hc).bind (.each hgrows) (fun _ => .pure _) fun _ _ _ _ => .pure _ _
    · exact filterField_making (hfields f hf) model
    · exact filterField_trails model (h.hasField (hfields f hf))
  | sort =>
    exact (Trails.ofExcept _ _).bind (.ofExcept _) (fun _ => .pure _) fun _ _ _ _ => .pure _ _

/-- Building a type goes on from what was left as the single build does from what it has: it keeps
the type that is kept there, or makes it of the same fields, or fails where a model is missing. -/
theorem typeWhile_trails (h : r.Joined s) (begun : List TypeKey) (key : TypeKey) :
    ∀ c, Arises r c → Trails s full c (typeWhile r begun key) (typeWhile s begun key) := by
  induction begun, key using typeWhile_induction s with | step begun key hnested
  intro c hc u shape u' hu hahead hrun hle
  have hfails : ∀ e : Error, Foreseen s full c ∧
      ((Except.error e : Except Error TypeShape).isOk → Ahead s full c u') :=
    fun _ => ⟨hahead.foreseen, fun hok => absurd hok Bool.false_ne_true⟩
  unfold Step.Ends
  rw [typeWhile_eq] at hrun ⊢
  cases known : u.shape? key with
  | some shape' =>
    rw [known] at hrun
    cases hrun
    obtain ⟨shape', hshape'⟩ := hahead.kept key ⟨shape, known⟩
    rw [hshape']
    exact ⟨hahead.foreseen, fun _ => hahead⟩
  | none =>
    rw [known] at hrun
    dsimp only at hrun
    by_cases new : key ∈ begun
    · rw [if_pos new] at hrun
      cases hrun
    rw [if_neg new] at hrun
    cases registered : s.model? key.model with
    | none =>
      rw [registered] at hrun
      cases hrun
    | some d' =>
      rw [registered] at hrun
      obtain ⟨shape', v, hmade', hlast⟩ := Step.bind_ok hrun
      cases hlast
      have hv : v ≤ full := TypeCache.le_trans (TypeCache.le_keep v key shape) hle
      have hnested := hnested d' new registered
      cases cached : c.shape? key with
      | some shape' =>
        -- The type is kept already, and so is all that it is made of.
        have hbehind : Behind s full c (shapeWhile s begun key d') :=
          shapeWhile_behind (hc.joined h) ⟨shape', cached⟩ registered
            fun nested hnests ⟨part, hpart⟩ =>
              (hnested nested hnests c hc).behind (by rw [typeWhile_eq, hpart])
        refine ⟨hahead.foreseen, fun _ => ?_⟩
        exact (hbehind u shape v hu hahead hmade' hv).keep_right ⟨shape', cached⟩ shape
      | none =>
        dsimp only
        rw [if_neg new]
        cases hd : r.model? key.model with
        | none => exact hfails _
        | some d =>
          have hend := shapeWhile_trails h hc hd registered hnested u shape v hu hahead hmade' hv
          unfold Step.Ends at hend
          dsimp only
          rw [Step.bind_run]
          rcases hmade : shapeWhile r begun key d c with ⟨e | made, c'⟩ <;> rw [hmade] at hend
          · exact ⟨hend.1, fun hok => absurd hok Bool.false_ne_true⟩
          · exact ⟨hend.1, fun _ => (hend.2 rfl).keep key made shape⟩

end Types

/-! ## Models -/

section Models

variable {r s : Registry} {full c c' : TypeCache} {begun : List TypeKey} {key : TypeKey}
  {d d' : Definition}

theorem typeOf_run {shape : TypeShape} (hc : Arises r c) (h : typeOf r key c = (.ok shape, c')) :
    Arises r c' ∧ c ≤ c' ∧ c'.Has key := by
  obtain ⟨hc', hle⟩ := (typeOf_making r key).run hc h
  exact ⟨hc', hle, ((typeWhile_has r [] key hc.sound).of_eq h).2.2 rfl⟩

/-- What keeping a type and making it have in common is said of building it. -/
theorem typeWhile_ends {P : TypeCache → Prop} (hkeep : ∀ c shape, P c → P (c.keep key shape))
    (hc : P c) (hshape : ∀ d, (shapeWhile r begun key d).Ends c fun _ => P) :
    (typeWhile r begun key).Ends c fun _ => P := by
  unfold Step.Ends
  rw [typeWhile_eq]
  cases c.shape? key with
  | some shape => exact hc
  | none =>
    dsimp only
    split
    · exact hc
    cases r.model? key.model with
    | none => exact hc
    | some d =>
      exact Step.Ends.bind (P := fun _ => P) (Q := fun _ => P) (hshape d)
        (fun shape c' h => hkeep c' shape h) fun _ _ h => h

theorem typeIfAny_trails (h : r.Joined s) (hc : Arises r c) (fields : Except Error (List Field))
    (p : Field → Bool) (key : TypeKey) :
    Trails s full c (typeIfAny r fields p key) (typeIfAny s fields p key) := by
  cases fields with
  | error e => exact .fail e _
  | ok fields =>
    show Trails s full c (if fields.any p then _ else _) (if fields.any p then _ else _)
    split
    · exact (typeWhile_trails h [] key c hc).bind (typeOf_making s key) (fun _ => .pure _)
        fun _ _ _ _ => .pure _ _
    · exact .pure none none

theorem buildListing_trails (h : r.Joined s) (hc : Arises r c) (hd : r.model? d.name = some d)
    (hname : d'.name = d.name) : Trails s full c (buildListing r d) (buildListing s d') := by
  have hsort : Making s (sortTypeOf s d.name >>= fun _ => pure ()) :=
    (sortTypeOf_making s _).bind fun _ => .pure ()
  have hlists : Making s (filterTypeOf s d.name >>= fun _ => sortTypeOf s d.name >>= fun _ =>
      pure ()) := (filterTypeOf_making s _).bind fun _ => hsort
  unfold buildListing
  rw [hname]
  refine (typeWhile_trails h [] _ c hc).bind (typeOf_making s _) (fun _ => hlists)
    fun _ _ c₁ hrun => ?_
  obtain ⟨hc₁, -⟩ := (typeOf_making r _).run hc hrun
  rw [filterTypeOf_eq s, sortTypeOf_eq s, h.scalarFields_eq hd]
  refine (typeIfAny_trails h hc₁ _ _ _).bind (typeIfAny_making s _ _ _) (fun _ => ?_)
    fun _ _ c₂ hrun => ?_
  · exact (typeIfAny_making s _ _ _).bind fun _ => .pure ()
  obtain ⟨hc₂, -⟩ := (filterTypeOf_making r d.name).run hc₁ hrun
  exact (typeIfAny_trails h hc₂ _ _ _).bind (typeIfAny_making s _ _ _) (fun _ => .pure ())
    fun _ _ _ _ => .pure () ()

/-- A filter field declares an enum that another type of the model has declared, or one that would
be hidden. -/
theorem filterField_continues {model : String} {f : Field} (hc : Arises r c)
    (hkept : ∀ kind : TypeKind, kind.OfFields → c.Has ⟨model, kind⟩)
    (hf : r.PartOf ⟨model, .filter⟩ f)
    (hhides : ∀ f spec, r.PartOf ⟨model, .filter⟩ f →
      (∀ kind : TypeKind, kind.OfFields → ¬ r.PartOf ⟨model, kind⟩ f) →
      f.typeOverride = none → f.enumSpec = some spec → s.HidesEnum spec.name spec.members) :
    (filterField model f).Preserves (Continues s full c) := by
  obtain ⟨answer, hanswer⟩ := filterField_eq model f
  rw [hanswer]
  refine Step.Preserves.bind (fun c' h => ?_) fun _ _ => .ofExcept answer
  rcases declareType_cases f with ⟨spec, hspec, hplain, hrun⟩ | hrun <;> rw [hrun]
  · refine ⟨TypeCache.le_trans h.le (TypeCache.le_declare c' spec),
      h.foreseen.declare fun hnew => .inr ?_⟩
    refine hhides f spec hf (fun kind hkind hpart => ?_) hplain hspec
    obtain ⟨members, hmembers⟩ := hc.declares (hkept kind hkind) hpart spec hspec hplain
    rw [h.le.enums _ _ hmembers] at hnew
    cases hnew
  · exact h

theorem typeIfAny_continues (fields : Except Error (List Field)) (p : Field → Bool)
    (h : (typeOf r key).Preserves (Continues s full c)) :
    (typeIfAny r fields p key).Preserves (Continues s full c) := by
  refine (Step.Preserves.ofExcept fields).bind fun fields _ => ?_
  split
  · exact h.bind fun _ _ => .pure _
  · exact .pure none

/-- The types by which a model is listed, after its other types were built. -/
theorem buildListing_continues (hc : Arises r c) (hd : r.model? d.name = some d)
    (hkept : ∀ kind : TypeKind, kind.OfFields → c.Has ⟨d.name, kind⟩)
    (hhides : ∀ f spec, r.PartOf ⟨d.name, .filter⟩ f →
      (∀ kind : TypeKind, kind.OfFields → ¬ r.PartOf ⟨d.name, kind⟩ f) →
      f.typeOverride = none → f.enumSpec = some spec → s.HidesEnum spec.name spec.members) :
    (buildListing r d).Preserves (Continues s full c) := by
  have hpage : (typeOf r ⟨d.name, .pagination⟩).Preserves (Continues s full c) := by
    refine fun c' h => typeWhile_ends (fun _ shape h => h.keep _ shape) h fun _ => ?_
    obtain ⟨shape, hshape⟩ := (hkept .output (.inl rfl)).mono h.le
    have hrun : typeWhile r ([] ++ [⟨d.name, .pagination⟩]) ⟨d.name, .output⟩ c' =
        (.ok shape, c') := by rw [typeWhile_eq, hshape]
    unfold Step.Ends shapeWhile
    dsimp only
    rw [Step.bind_of_ok hrun]
    exact h
  have hfilter : (typeOf r ⟨d.name, .filter⟩).Preserves (Continues s full c) := by
    obtain ⟨scalars, hscalars⟩ := Registry.scalarFields_ok hd
    have hshape : (filterShape r d.name).Preserves (Continues s full c) := by
      rw [filterShape_eq hscalars]
      refine (Step.Preserves.each fun f hf => ?_).bind fun _ _ => .pure _
      obtain ⟨hmem, hfilterable⟩ := List.mem_filter.mp hf
      exact filterField_continues hc hkept (.condition hscalars hmem hfilterable) hhides
    exact fun c' h => typeWhile_ends (fun _ shape h => h.keep _ shape) h fun _ => hshape c' h
  have hsort : (typeOf r ⟨d.name, .sort⟩).Preserves (Continues s full c) := by
    have hshape : (sortShape r d.name).Preserves (Continues s full c) :=
      (Step.Preserves.ofExcept _).bind fun _ _ => .pure _
    exact fun c' h => typeWhile_ends (fun _ shape h => h.keep _ shape) h fun _ => hshape c' h
  exact hpage.bind fun _ _ => (typeIfAny_continues _ _ hfilter).bind fun _ _ =>
    (typeIfAny_continues _ _ hsort).bind fun _ _ => .pure ()

/-- The types of a model in both builds. The earlier one may also build those that list it, when it
is not embedded in others yet. -/
theorem buildModel_trails (h : r.Joined s) (hr : r.Named) (hc : Arises r c) (hd : d ∈ r.registered)
    (hd' : d' ∈ s.registered) (hraised : d.Raised d') :
    Trails s full c (buildModel r d) (buildModel s d') := by
  have hmodel := hr.model? hd
  have hlisting : Making s (if !d'.embedded then buildListing s d' else pure ()) := by
    split
    · exact buildListing_making s d'
    · exact .pure ()
  have htype : ∀ key c, Arises r c → Trails s full c (typeOf r key) (typeOf s key) :=
    typeWhile_trails h []
  rw [buildModel_eq, buildModel_eq, hraised.name_eq]
  refine (htype _ c hc).bind (typeOf_making s _) (fun _ => (typeOf_making s _).bind fun _ =>
    (typeOf_making s _).bind fun _ => hlisting) fun _ _ c₁ hrun => ?_
  obtain ⟨hc₁, -, houtput⟩ := typeOf_run hc hrun
  refine (htype _ c₁ hc₁).bind (typeOf_making s _) (fun _ => (typeOf_making s _).bind fun _ =>
    hlisting) fun _ _ c₂ hrun => ?_
  obtain ⟨hc₂, hle₂, hcreate⟩ := typeOf_run hc₁ hrun
  refine (htype _ c₂ hc₂).bind (typeOf_making s _) (fun _ => hlisting) fun _ _ c₃ hrun => ?_
  obtain ⟨hc₃, hle₃, hupdate⟩ := typeOf_run hc₂ hrun
  cases hnow : d'.embedded with
  | false =>
    have hbefore : d.embedded = false := by
      cases hembedded : d.embedded with
      | false => rfl
      | true => rw [hraised.embedded hembedded] at hnow; cases hnow
    rw [hbefore]
    exact buildListing_trails h hc₃ hmodel hraised.name_eq
  | true =>
    cases hbefore : d.embedded with
    | true => exact .pure () ()
    | false =>
      intro u _ u' _ hahead hrun _
      cases hrun
      have hkept : ∀ kind : TypeKind, kind.OfFields → c₃.Has ⟨d.name, kind⟩ := by
        rintro kind (rfl | rfl | rfl)
        · exact (houtput.mono hle₂).mono hle₃
        · exact hcreate.mono hle₃
        · exact hupdate
      refine Step.Ends.mono (buildListing_continues hc₃ hmodel hkept ?_ c₃
        ⟨TypeCache.le_refl c₃, hahead.foreseen⟩) fun _ c₄ h => ⟨h.foreseen, fun _ => hahead.mono h⟩
      intro f spec hfilter hnone hplain hspec
      refine ⟨d', hd', hnow, f, spec, ?_, fun kind hkind hpart => ?_, hplain, hspec, rfl, rfl⟩
      · rw [hraised.name_eq]
        exact (h.partOf_iff hmodel).mpr hfilter
      · rw [hraised.name_eq] at hpart
        exact hnone kind hkind ((h.partOf_iff hmodel).mp hpart)

/-- The models that were registered stay in front of those that join. -/
theorem Registry.Joined.registered (h : r.Joined s) (hr : r.Named) : ∃ front rest,
    s.registered = front ++ rest ∧ List.Forall₂ (fun d d' => d ∈ r.registered ∧
      d' ∈ s.registered ∧ d.Raised d') r.registered front := by
  obtain ⟨added, hadded⟩ := h.registrations
  refine ⟨r.models.filterMap fun m => s.definitions[m.2.place]?,
    added.filterMap fun m => s.definitions[m.2.place]?, ?_, ?_⟩
  · unfold Registry.registered
    rw [← hadded, List.filterMap_append]
  suffices hall : ∀ models : Table Registration, models ⊆ r.models →
      List.Forall₂ (fun d d' => d ∈ r.registered ∧ d' ∈ s.registered ∧ d.Raised d')
        (models.filterMap fun m => r.definitions[m.2.place]?)
        (models.filterMap fun m => s.definitions[m.2.place]?) from hall _ (List.Subset.refl _)
  intro models
  induction models with
  | nil => exact fun _ => .nil
  | cons entry models ih =>
    intro hsub
    have hentry := hsub List.mem_cons_self
    obtain ⟨d, hd, -⟩ := hr.defined entry hentry
    obtain ⟨d', hd', hraised⟩ := h.definitions _ d hd
    rw [List.filterMap_cons, List.filterMap_cons, hd, hd']
    refine .cons ⟨List.mem_filterMap.mpr ⟨entry, hentry, hd⟩, List.mem_filterMap.mpr
      ⟨entry, h.registrations.subset hentry, hd'⟩, hraised⟩ ?_
    exact ih fun m hm => hsub (List.mem_cons_of_mem _ hm)

theorem buildModels_trails (h : r.Joined s) (hr : r.Named) (hc : Arises r c)
    {front : List Definition} (hfront : List.Forall₂ (fun d d' => d ∈ r.registered ∧
      d' ∈ s.registered ∧ d.Raised d') r.registered front) :
    Trails s full c (Step.each (buildModel r) r.registered) (Step.each (buildModel s) front) := by
  refine .each (hfront.imp fun d d' ⟨hd, hd', hraised⟩ => ⟨buildModel_making r d, fun c hc => ?_⟩)
    (fun d _ => buildModel_making s d) hc
  exact buildModel_trails h hr hc hd hd' hraised

/-- The types of all models are built model by model. -/
theorem buildAll_ok (h : buildAll r c = (.ok (), c')) :
    ∃ made, Step.each (buildModel r) r.registered c = (.ok made, c') := by
  obtain ⟨made, u, hmade, hlast⟩ := Step.bind_ok h
  cases hlast
  exact ⟨made, hmade⟩

theorem buildAll_leaves (r : Registry) (c : TypeCache) :
    (buildAll r c).2 = (Step.each (buildModel r) r.registered c).2 := by
  unfold buildAll
  rw [Step.bind_run]
  rcases Step.each (buildModel r) r.registered c with ⟨e | made, c'⟩ <;> rfl

/-- Of the enums that a build leaves, failed or not, those that are not hidden are those of the
single build. -/
theorem buildAll_foreseen (h : r.Joined s) (hr : r.Named) (hc : Arises r c)
    (hforeseen : Foreseen s full c) (hfull : buildAll s {} = (.ok (), full)) :
    Foreseen s full (buildAll r c).2 := by
  obtain ⟨front, rest, hregistered, hfront⟩ := h.registered hr
  obtain ⟨made, hmade⟩ := buildAll_ok hfull
  rw [hregistered] at hmade
  obtain ⟨first, u, hfirst, last, hlast⟩ := Step.each_append hmade
  have hgrows : ∀ ds, Making s (Step.each (buildModel s) ds) :=
    fun _ => .each fun d _ => buildModel_making s d
  obtain ⟨hu, -⟩ := (hgrows front).run (.empty s) hfirst
  obtain ⟨-, hle⟩ := (hgrows rest).run hu hlast
  rw [buildAll_leaves]
  exact (buildModels_trails h hr hc hfront {} _ u (.empty s) (.start hforeseen) hfirst hle).1

/-- A build that succeeds at last has all that the single build has. -/
theorem buildAll_ahead (hs : s.Named) (hc : Arises s c) (hforeseen : Foreseen s full c)
    (hfull : buildAll s {} = (.ok (), full)) (hrun : buildAll s c = (.ok (), c')) :
    Ahead s full c' full := by
  obtain ⟨made, hmade⟩ := buildAll_ok hfull
  obtain ⟨made', hmade'⟩ := buildAll_ok hrun
  have hend := buildModels_trails (.refl s) hs hc
    (List.forall₂_same.mpr fun d hd => ⟨hd, hd, .refl d⟩) {} made full (.empty s)
    (.start hforeseen) hmade (TypeCache.le_refl full)
  unfold Step.Ends at hend
  rw [hmade'] at hend
  exact hend.2 rfl

end Models

end DocumentApi
