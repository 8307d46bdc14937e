import DocumentApi.Proofs.Operations.Keeping

/-!
# Types of a running api

Building an api builds every output type and declares the enums of its fields, so what a document
becomes is settled then.

* `typeWhile_declared`: the enums of the fields of an output type that is kept are declared.
* `buildAll_complete`: after all types were built, every output type is kept.
* `Fixed`: a step on types that answers the same from every later cache and leaves it as it is.
* `TypeCache.Serves.toOutput_eq`: documents become the same instances in all states of an api.
-/

namespace DocumentApi

open TypeCache (Sound Builds)

namespace TypeCache

variable {r : Registry} {c c' : TypeCache} {f : Field}

/-- The enum that gives a field its type is declared. -/
def Declares (c : TypeCache) (f : Field) : Prop :=
  ∀ spec, f.enumSpec = some spec → f.typeOverride = none →
    ∃ members, Table.find? c.enums spec.name = some members

theorem Declares.mono (h : c.Declares f) (hle : c ≤ c') : c'.Declares f := by
  intro spec hspec hplain
  obtain ⟨members, hmembers⟩ := h spec hspec hplain
  exact ⟨members, hle.enums _ _ hmembers⟩

/-- The enums of the fields of an output type are declared. -/
def Declared (r : Registry) (c : TypeCache) : Prop :=
  ∀ model shape fields, c.shape? ⟨model, .output⟩ = some shape →
    r.outputFields (some model) = .ok fields → ∀ f ∈ fields, c.Declares f

theorem declared_empty (r : Registry) : Declared r {} := nofun

theorem Declared.declare (h : Declared r c) (spec : EnumSpec) : Declared r (c.declare spec) := by
  intro model shape fields hshape hfields f hf
  rw [shape?_declare] at hshape
  exact (h model shape fields hshape hfields f hf).mono (le_declare c spec)

theorem Declared.keep {key : TypeKey} (h : Declared r c) (shape : TypeShape)
    (hkey : key.kind = .output → ∀ fields, r.outputFields (some key.model) = .ok fields →
      ∀ f ∈ fields, c.Declares f) : Declared r (c.keep key shape) := by
  intro model shape' fields hshape hfields f hf
  suffices c.Declares f from this.mono (le_keep c key shape)
  rw [shape?_keep] at hshape
  cases found : c.shape? ⟨model, .output⟩ with
  | some known => exact h model known fields found hfields f hf
  | none =>
    rw [found] at hshape
    by_cases hsame : key = ⟨model, .output⟩
    · subst hsame
      exact hkey rfl fields hfields f hf
    · simp [hsame] at hshape

theorem Declared.keep_other {key : TypeKey} {shape : TypeShape} (h : Declared r c)
    (hkey : key.kind ≠ .output) : Declared r (c.keep key shape) :=
  h.keep shape fun hsame => absurd hsame hkey

/-- A step on types that keeps the enums of output types declared. -/
def Declaring {α : Type} (r : Registry) (x : Step TypeCache α) : Prop :=
  ∀ c, Sound r c → Declared r c → Builds r x c fun _ c' => Declared r c'

/-- What is said of a step apart from what it keeps is said of it as well. -/
theorem Builds.and {α : Type} {x : Step TypeCache α} {P Q : Except Error α → TypeCache → Prop}
    (hx : Builds r x c P) (h : x.Ends c Q) : Builds r x c fun answer c' => P answer c' ∧ Q answer c' :=
  ⟨hx.1, hx.2.1, hx.2.2, h⟩

end TypeCache

open TypeCache (Declared Declaring)

section Building

variable {r : Registry} {begun : List TypeKey} {key : TypeKey} {f : Field} {rest : List Field}
  {c : TypeCache}

theorem declareType_declared (hs : Sound r c) (hd : Declared r c) (hf : r.HasField f) :
    Builds r f.declareType c fun _ c' => Declared r c' ∧ c'.Declares f := by
  refine ((declareType_builds hs hf).and ?_).mono fun _ _ h => h.2
  unfold Field.declareType
  split
  · rename_i spec _ hspec
    refine ⟨hd.declare spec, fun spec' hspec' _ => ?_⟩
    rw [hspec] at hspec'
    cases hspec'
    exact ⟨_, TypeCache.find?_declare c spec⟩
  · rename_i hplain
    exact ⟨hd, fun spec hspec hnone => absurd hspec (hplain spec hnone)⟩

/-- What is said of fields once their types were built. -/
def FieldsDeclared (r : Registry) (fields : List Field) :
    Except Error (List TypeField) → TypeCache → Prop :=
  fun answer c => Declared r c ∧ (answer.isOk → ∀ f ∈ fields, c.Declares f)

theorem FieldsDeclared.error {fields : List Field} {e : Error} (h : Declared r c) :
    FieldsDeclared r fields (.error e) c :=
  ⟨h, fun hok => by cases hok⟩

/-- A field whose enum is declared, followed by the fields after it. -/
theorem fieldsWhile_rest_declared {type : TypeRef} (hs : Sound r c) (hd : Declared r c)
    (hf : c.Declares f) (ih : ∀ c, Sound r c → Declared r c →
      Builds r (fieldsWhile r begun key rest) c (FieldsDeclared r rest)) :
    Builds r (do
      let fields ← fieldsWhile r begun key rest
      pure (f.toTypeField key.kind type :: fields)) c (FieldsDeclared r (f :: rest)) := by
  refine (ih c hs hd).bind (fun types c' hle hs' ⟨hd', hrest⟩ => Builds.pure hs' ⟨hd', ?_⟩)
    fun e _ h => .error h.1
  intro _ g hg
  rcases List.mem_cons.mp hg with rfl | hg
  · exact hf.mono hle
  · exact hrest rfl g hg

/-- A field that nests a type, followed by the fields after it. -/
theorem fieldsWhile_nested_declared {nested : TypeKey} {type : TypeRef} (hs : Sound r c)
    (hd : Declared r c) (hf : c.Declares f)
    (hnested : Declaring r (typeWhile r begun nested))
    (ih : ∀ c, Sound r c → Declared r c →
      Builds r (fieldsWhile r begun key rest) c (FieldsDeclared r rest)) :
    Builds r (do
      let _ ← typeWhile r begun nested
      let type ← pure type
      let fields ← fieldsWhile r begun key rest
      pure (f.toTypeField key.kind type :: fields)) c (FieldsDeclared r (f :: rest)) :=
  (hnested c hs hd).bind
    (fun _ _ hle hs' hd' => fieldsWhile_rest_declared hs' hd' (hf.mono hle) ih)
    fun _ _ hd' => .error hd'

theorem fieldsWhile_cons_declared (hf : r.HasField f)
    (hmodel : ∀ model, Declaring r (typeWhile r begun ⟨model, key.kind⟩))
    (htarget : ∀ relation : Relation,
      Declaring r (typeWhile r begun ⟨relation.target, .create⟩))
    (ih : ∀ c, Sound r c → Declared r c →
      Builds r (fieldsWhile r begun key rest) c (FieldsDeclared r rest))
    (hs : Sound r c) (hd : Declared r c) :
    Builds r (fieldsWhile r begun key (f :: rest)) c (FieldsDeclared r (f :: rest)) := by
  rw [fieldsWhile]
  refine (declareType_declared hs hd hf).bind (fun _ c' _ hs' h => ?_) fun _ _ h => .error h.1
  obtain ⟨hd', hf'⟩ := h
  have hfails : ∀ (e : Error) (k : TypeRef → Step TypeCache (List TypeField)),
      Builds r (Step.fail e >>= k) c' (FieldsDeclared r (f :: rest)) :=
    fun e k => ⟨TypeCache.le_refl c', hs', .error hd'⟩
  dsimp only
  split
  · exact fieldsWhile_rest_declared hs' hd' hf' ih
  split
  · split
    · split
      · exact hfails _ _
      · exact fieldsWhile_nested_declared hs' hd' hf' (hmodel _) ih
    · exact hfails _ _
  split
  · split
    · split
      · exact fieldsWhile_nested_declared hs' hd' hf' (htarget _) ih
      · exact hfails _ _
    · exact hfails _ _
  · exact hfails _ _

/-- The fields of a filter declare enums only. -/
theorem filterShape_declared (hd : Declared r c) (model : String) :
    (filterShape r model).Ends c fun _ c' => Declared r c' := by
  have hfield : ∀ f c, Declared r c → (filterField model f).Ends c fun _ c' => Declared r c' := by
    intro f c hd
    refine Step.Ends.bind (P := fun _ c' => Declared r c') ?_ (fun _ c' hd' => ?_) fun _ _ h => h
    · unfold Field.declareType
      split
      · exact hd.declare _
      · exact hd
    · split
      · exact hd'
      split
      · exact hd'
      · exact hd'
  refine Step.Ends.bind (P := fun _ c' => Declared r c') hd (fun fields c' hd' => ?_) fun _ _ h => h
  exact (Step.Ends.each hd' fun f _ => hfield f).bind (fun _ _ h => h) fun _ _ h => h

/-- A type with fields is kept after their enums were declared. -/
theorem fields_declared {model : String} {kind : TypeKind} {d : Definition} (hs : Sound r c)
    (hd : Declared r c) (ih : ∀ fields, (∀ f ∈ fields, r.HasField f) → ∀ c, Sound r c →
      Declared r c → Builds r (fieldsWhile r (begun ++ [⟨model, kind⟩]) ⟨model, kind⟩ fields) c
        (FieldsDeclared r fields)) :
    Step.Ends (do
      let fields ← Step.ofExcept (r.fieldsFor model kind)
      let fields ← fieldsWhile r (begun ++ [⟨model, kind⟩]) ⟨model, kind⟩ fields
      let shape : TypeShape ← pure
        ⟨kind.typeName model, kind != .output, some (Registry.describe d kind), fields⟩
      Step.modify fun cache => cache.keep ⟨model, kind⟩ shape
      pure shape) c fun _ c' => Declared r c' := by
  cases hfields : r.fieldsFor model kind with
  | error e => exact hd
  | ok fields =>
    have hdeclared : ∀ f ∈ fields, r.HasField f := fun f hf =>
      ⟨model, Registry.mem_of_fieldsFor hfields hf⟩
    refine Step.Ends.bind (P := FieldsDeclared r fields) (ih fields hdeclared c hs hd).2.2
      (fun types c' ⟨hd', hall⟩ => ?_) fun _ _ h => h.1
    refine hd'.keep _ fun hkind outputs houtputs f hf => hall rfl f ?_
    subst hkind
    rw [show r.fieldsFor model .output = r.outputFields (some model) from rfl, houtputs] at hfields
    cases hfields
    exact hf

/-- The enums of the fields of an output type are declared before the type is kept. -/
theorem typeWhile_declared (r : Registry) (begun : List TypeKey) (key : TypeKey) :
    Declaring r (typeWhile r begun key) := by
  refine typeWhile.induct r (fun begun key => Declaring r (typeWhile r begun key))
    (fun begun key fields => (∀ f ∈ fields, r.HasField f) → ∀ c, Sound r c → Declared r c →
      Builds r (fieldsWhile r begun key fields) c (FieldsDeclared r fields)) ?_ ?_ ?_ begun key
  · rintro begun ⟨model, kind⟩ houtput hfields c hs hd
    refine ((typeWhile_builds r begun ⟨model, kind⟩ c hs).and ?_).mono fun _ _ h => h.2
    rw [typeWhile]
    refine Step.Ends.state_bind ?_
    dsimp only
    split
    · exact hd
    split
    · exact hd
    rename_i new
    split
    · exact hd
    rename_i d registered
    have fields := @fields_declared r begun c model kind d hs hd fun fields hfs c hs hd =>
      hfields new d registered kind fields hfs c hs hd
    cases kind with
    | output => exact fields
    | create => exact fields
    | update => exact fields
    | pagination =>
      exact Step.Ends.bind (P := fun _ c' => Declared r c') (houtput new d registered c hs hd).2.2
        (fun _ c' hd' => hd'.keep_other fun h => by cases h) fun _ _ h => h
    | filter =>
      exact (filterShape_declared hd model).bind (fun _ c' hd' => hd'.keep_other fun h => by cases h) fun _ _ h => h
    | sort =>
      refine Step.Ends.bind (P := fun _ c' => Declared r c') ?_ (fun _ c' hd' => hd'.keep_other fun h => by cases h)
        fun _ _ h => h
      exact Step.Ends.bind (P := fun _ c' => Declared r c') hd (fun _ _ h => h) fun _ _ h => h
  · intro begun key _ c hs hd
    rw [fieldsWhile]
    exact Builds.pure hs ⟨hd, fun _ f hf => absurd hf List.not_mem_nil⟩
  · intro begun key f rest ih hmodel htarget hfs c hs hd
    exact fieldsWhile_cons_declared (hfs f List.mem_cons_self) hmodel htarget
      (ih fun g hg => hfs g (List.mem_cons_of_mem _ hg)) hs hd

end Building

/-! ## Types after all were built -/

/-- A type is kept in a cache. -/
def TypeCache.Has (c : TypeCache) (key : TypeKey) : Prop :=
  ∃ shape, c.shape? key = some shape

/-- Every output type is kept, with the enums of its fields. -/
structure TypeCache.Complete (r : Registry) (c : TypeCache) : Prop where
  declares : ∀ model fields, r.outputFields (some model) = .ok fields → ∀ f ∈ fields, c.Declares f
  outputs : ∀ model d, r.model? model = some d → c.Has ⟨model, .output⟩

/-- The types of an api after all were built. -/
def Registry.builtTypes (r : Registry) : TypeCache :=
  (buildAll r {}).2

section Complete

variable {r : Registry} {c c' : TypeCache}

/-- What the first of two steps leaves, and the second one keeps, is left by both. -/
theorem Builds.first {α β : Type} {x : Step TypeCache α} {f : α → Step TypeCache β}
    {P : TypeCache → Prop} (hmono : ∀ c c', c ≤ c' → P c → P c')
    (hx : Builds r x c fun answer c' => answer.isOk → P c') (hf : ∀ a, Settles r (f a)) :
    Builds r (x >>= f) c fun answer c' => answer.isOk → P c' := by
  refine hx.bind (fun a c₁ _ hs₁ hP => ?_) fun _ _ _ h => nomatch h
  obtain ⟨hle, hs₂, -⟩ := hf a c₁ hs₁
  exact ⟨hle, hs₂, fun _ => hmono _ _ hle (hP rfl)⟩

/-- What the step for an item leaves, and later ones keep, is left by the steps for all. -/
theorem Builds.each {α β : Type} {f : α → Step TypeCache β} {P : α → TypeCache → Prop}
    (hmono : ∀ x c c', c ≤ c' → P x c → P x c')
    (hf : ∀ x c, Sound r c → Builds r (f x) c fun answer c' => answer.isOk → P x c')
    (xs : List α) (hs : Sound r c) :
    Builds r (Step.each f xs) c fun answer c' => answer.isOk → ∀ x ∈ xs, P x c' := by
  induction xs generalizing c with
  | nil => exact Builds.pure hs fun _ x hx => absurd hx List.not_mem_nil
  | cons x xs ih =>
    refine (hf x c hs).bind (fun b c₁ _ hs₁ hx => ?_) fun _ _ _ h => nomatch h
    refine (ih hs₁).bind (fun bs c₂ hle hs₂ hxs => Builds.pure hs₂ fun _ y hy => ?_)
      fun _ _ _ h => nomatch h
    rcases List.mem_cons.mp hy with rfl | hy
    · exact hmono y c₁ c₂ hle (hx rfl)
    · exact hxs rfl y hy

theorem TypeCache.Has.mono {key : TypeKey} (hle : c ≤ c') (h : c.Has key) : c'.Has key :=
  h.imp fun _ hshape => hle.shapes _ _ hshape

/-- A type that is built is kept. -/
theorem typeWhile_has (r : Registry) (begun : List TypeKey) (key : TypeKey) (hs : Sound r c) :
    Builds r (typeWhile r begun key) c fun answer c' => answer.isOk → c'.Has key := by
  refine (typeWhile_builds r begun key c hs).mono fun answer c' h hok => ?_
  cases answer with
  | error e => cases hok
  | ok shape => exact ⟨shape, h.2.2⟩

theorem buildModel_output (d : Definition) (c : TypeCache) (hs : Sound r c) :
    Builds r (buildModel r d) c fun answer c' => answer.isOk → c'.Has ⟨d.name, .output⟩ := by
  refine Builds.first (fun _ _ => TypeCache.Has.mono) (typeWhile_has r [] _ hs) fun _ => ?_
  refine (typeOf_settles r _).bind fun _ => (typeOf_settles r _).bind fun _ => ?_
  split
  · refine (typeOf_settles r _).bind fun _ => (filterTypeOf_settles r _).bind fun _ => ?_
    exact (sortTypeOf_settles r _).bind fun _ => Settles.pure ()
  · exact Settles.pure ()

namespace TypeCache.Declaring

variable {α β : Type}

theorem ofExcept (x : Except Error α) : Declaring r (Step.ofExcept x) :=
  fun _ hs hd => Builds.ofExcept hs hd

theorem pure (a : α) : Declaring r (Pure.pure a : Step TypeCache α) :=
  fun _ hs hd => Builds.pure hs hd

theorem bind {x : Step TypeCache α} {f : α → Step TypeCache β} (hx : Declaring r x)
    (hf : ∀ a, Declaring r (f a)) : Declaring r (x >>= f) :=
  fun c hs hd => (hx c hs hd).bind (fun a c₁ _ hs₁ hd₁ => hf a c₁ hs₁ hd₁) fun _ _ h => h

theorem each {f : α → Step TypeCache β} (hf : ∀ x, Declaring r (f x)) (xs : List α) :
    Declaring r (Step.each f xs) := by
  induction xs with
  | nil => exact pure []
  | cons x xs ih => exact (hf x).bind fun b => ih.bind fun bs => pure (b :: bs)

end TypeCache.Declaring

theorem buildModel_declared (r : Registry) (d : Definition) : Declaring r (buildModel r d) := by
  have htype : ∀ key, Declaring r (typeOf r key) := fun key => typeWhile_declared r [] key
  refine (htype _).bind fun _ => (htype _).bind fun _ => (htype _).bind fun _ => ?_
  split
  · refine (htype _).bind fun _ => Declaring.bind ?_ fun _ => Declaring.bind ?_ fun _ => .pure ()
    · refine (Declaring.ofExcept _).bind fun fields => ?_
      split
      · exact (htype _).bind fun _ => .pure _
      · exact .pure none
    · refine (Declaring.ofExcept _).bind fun fields => ?_
      split
      · exact (htype _).bind fun _ => .pure _
      · exact .pure none
  · exact .pure ()

theorem buildAll_declared (r : Registry) : Declaring r (buildAll r) :=
  (Declaring.each (buildModel_declared r) r.registered).bind fun _ => .pure ()

/-- A model whose output fields are known is registered with its definition. -/
theorem Registry.Named.model?_of_outputFields {model : String} {fields : List Field}
    (hr : r.Named) (h : r.outputFields (some model) = .ok fields) :
    ∃ d, r.model? model = some d := by
  unfold Registry.outputFields Registry.fieldsOfEmbedded Registry.fieldsOf at h
  dsimp only at h
  cases found : Table.find? r.models model with
  | none => rw [found] at h; cases h
  | some m =>
    obtain ⟨d, hd, -⟩ := hr.defined _ (Table.mem_of_find? found)
    exact ⟨d, Option.bind_eq_some_iff.mpr ⟨m, found, hd⟩⟩

theorem buildAll_complete {types : TypeCache} (hr : r.Named)
    (h : buildAll r {} = (.ok (), types)) : types.Complete r := by
  have hempty := TypeCache.sound_empty r
  obtain ⟨-, -, hdeclared⟩ :=
    (buildAll_declared r {} hempty (TypeCache.declared_empty r)).of_eq h
  have houtputs : ∀ model d, r.model? model = some d → types.Has ⟨model, .output⟩ := by
    intro model d hd
    obtain ⟨rfl, hmem⟩ := hr.of_model? hd
    have hall := Builds.each (P := fun d c => c.Has ⟨d.name, .output⟩)
      (fun _ _ _ => TypeCache.Has.mono) buildModel_output r.registered hempty
    obtain ⟨-, -, hall⟩ := (Builds.first (f := fun _ => pure ()) (fun c c' hle hP d hd =>
      TypeCache.Has.mono hle (hP d hd)) hall fun _ => .pure ()).of_eq h
    exact hall rfl d hmem
  refine ⟨fun model fields hfields f hf => ?_, houtputs⟩
  obtain ⟨d, hd⟩ := hr.model?_of_outputFields hfields
  obtain ⟨shape, hshape⟩ := houtputs model d hd
  exact hdeclared model shape fields hshape hfields f hf

end Complete

/-! ## Steps that are fixed -/

/-- A step on types that answers from every later cache what it answers from `c`, and leaves that
cache as it is. -/
def Fixed {α : Type} (r : Registry) (c : TypeCache) (x : Step TypeCache α) : Prop :=
  ∀ later, c ≤ later → Sound r later → x later = ((x c).1, later)

section Fixed

variable {α β : Type} {r : Registry} {c : TypeCache}

namespace Fixed

theorem pure (a : α) : Fixed r c (Pure.pure a) := fun _ _ _ => rfl

theorem fail (e : Error) : Fixed r c (Step.fail e : Step TypeCache α) := fun _ _ _ => rfl

theorem ofExcept (x : Except Error α) : Fixed r c (Step.ofExcept x) := fun _ _ _ => rfl

theorem bind (hs : Sound r c) {x : Step TypeCache α} {f : α → Step TypeCache β}
    (hx : Fixed r c x) (hf : ∀ a, Fixed r c (f a)) : Fixed r c (x >>= f) := by
  intro later hle hlater
  have hnow := hx c (TypeCache.le_refl c) hs
  rw [Step.bind_run, Step.bind_run, hx later hle hlater, hnow]
  cases (x c).1 with
  | error e => rfl
  | ok a => exact hf a later hle hlater

theorem each (hs : Sound r c) {f : α → Step TypeCache β} {xs : List α}
    (hf : ∀ x ∈ xs, Fixed r c (f x)) : Fixed r c (Step.each f xs) := by
  induction xs with
  | nil => exact pure []
  | cons x xs ih =>
    refine bind hs (hf x List.mem_cons_self) fun b => ?_
    exact bind hs (ih fun y hy => hf y (List.mem_cons_of_mem _ hy)) fun bs => pure (b :: bs)

end Fixed

theorem typeOf_fixed {key : TypeKey} (h : c.Has key) : Fixed r c (typeOf r key) := by
  obtain ⟨shape, hshape⟩ := h
  intro later hle _
  rw [typeOf_eq, typeOf_eq, hle.shapes key shape hshape, hshape]

/-- An enum that was declared is answered as it was. -/
theorem declareEnum_run {spec : EnumSpec} {members : Table Value}
    (h : Table.find? c.enums spec.name = some members) :
    declareEnum spec c = (.ok members, c) := by
  show (Except.ok ((c.declare spec).membersOf spec), c.declare spec) = _
  rw [TypeCache.declare_of_has h]
  unfold TypeCache.membersOf
  rw [h]
  rfl

theorem declareEnum_fixed {f : Field} {spec : EnumSpec} (h : c.Declares f)
    (hspec : f.enumSpec = some spec) (hplain : f.typeOverride = none) :
    Fixed r c (declareEnum spec) := by
  obtain ⟨members, hmembers⟩ := h spec hspec hplain
  intro later hle _
  rw [declareEnum_run hmembers, declareEnum_run (hle.enums _ _ hmembers)]

theorem enumOutput_fixed (hs : Sound r c) {f : Field} {spec : EnumSpec} (h : c.Declares f)
    (hspec : f.enumSpec = some spec) (hplain : f.typeOverride = none) (raw : Value) :
    Fixed r c (enumOutput spec raw) := by
  unfold enumOutput
  refine (declareEnum_fixed h hspec hplain).bind hs fun members => ?_
  dsimp only
  split
  · split
    · exact Fixed.pure _
    · split <;> exact Fixed.pure _
  · split <;> exact Fixed.pure _

/-- Once every output type is kept, documents become the same instances at any later time. -/
theorem output_fixed (hr : r.Named) (hs : Sound r c) (hc : c.Complete r) :
    (∀ model doc, Fixed r c (toOutput r model doc)) ∧
      ∀ f raw, c.Declares f → Fixed r c (fieldOutput r f raw) := by
  refine toOutput.mutual_induct (fun model doc => Fixed r c (toOutput r model doc))
    (fun f raw => c.Declares f → Fixed r c (fieldOutput r f raw)) ?_ ?_ ?_ ?_ ?_ ?_ ?_ ?_ ?_
  · intro model doc hnull
    rw [toOutput_eq, if_pos hnull]
    exact Fixed.pure _
  · intro model doc hnull e he
    rw [toOutput_eq, if_neg hnull, he]
    exact Fixed.fail e
  · intro model doc hnull data hdata ih
    rw [toOutput_eq, if_neg hnull, hdata]
    cases hfields : r.outputFields model with
    | error e => exact Fixed.fail e
    | ok fields =>
      cases model with
      | none => cases hfields
      | some model =>
        obtain ⟨d, hd⟩ := hr.model?_of_outputFields hfields
        have heach : Fixed r c (Step.each (fun f => do
            let v ← fieldOutput r f (Fields.get (normalizeId data) f.name)
            pure (f.name, v)) fields) := Fixed.each hs fun f hf =>
          (ih f (hc.declares model fields hfields f hf)).bind hs fun v => Fixed.pure _
        refine heach.bind hs fun values => ?_
        exact (typeOf_fixed (hc.outputs model d hd)).bind hs fun shape => Fixed.ofExcept _
  · intro f raw hnull _
    rw [fieldOutput_eq, if_pos hnull]
    exact Fixed.pure _
  · intro f raw hnull hembeds hmany hnone _
    rw [fieldOutput_eq, if_neg hnull, if_pos hembeds, if_pos hmany, hnone]
    exact Fixed.fail _
  · intro f raw hnull hembeds hmany items hitems ih _
    rw [fieldOutput_eq, if_neg hnull, if_pos hembeds, if_pos hmany, hitems]
    exact (Fixed.each hs fun item h => ih ⟨item, h⟩).bind hs fun items => Fixed.pure _
  · intro f raw hnull hembeds hmany ih _
    rw [fieldOutput_eq, if_neg hnull, if_pos hembeds, if_neg hmany]
    exact ih
  · intro f raw hnull hembeds spec htype hspec hf
    rw [fieldOutput_eq, if_neg hnull, if_neg hembeds, hspec, htype]
    exact enumOutput_fixed hs hf hspec htype raw
  · intro f raw hnull hembeds hspec _
    rw [fieldOutput_eq, if_neg hnull, if_neg hembeds]
    split
    · rename_i spec hsome hnone
      exact absurd hnone (hspec spec hsome)
    · exact Fixed.pure raw

end Fixed

/-! ## States of an api -/

/-- A cache of an api whose types were all built. -/
structure TypeCache.Serves (r : Registry) (c : TypeCache) : Prop where
  built : ∃ types, buildAll r {} = (.ok (), types)
  later : r.builtTypes ≤ c
  sound : Sound r c

namespace TypeCache.Serves

variable {r : Registry} {c c' : TypeCache}

theorem mono (h : c.Serves r) (hle : c ≤ c') (hs : Sound r c') : c'.Serves r :=
  ⟨h.built, le_trans h.later hle, hs⟩

theorem built_sound (h : c.Serves r) : Sound r r.builtTypes := by
  obtain ⟨types, hbuilt⟩ := h.built
  exact (buildAll_settles r {} (sound_empty r)).2.1

theorem built_complete (h : c.Serves r) (hr : r.Named) : r.builtTypes.Complete r := by
  obtain ⟨types, hbuilt⟩ := h.built
  unfold Registry.builtTypes
  rw [hbuilt]
  exact buildAll_complete hr hbuilt

/-- In every state of an api a document becomes the same instance, and the types stay as they
are. -/
theorem toOutput_eq (h : c.Serves r) (hr : r.Named) (model : Option String) (doc : Value) :
    toOutput r model doc c = ((toOutput r model doc r.builtTypes).1, c) :=
  (output_fixed hr h.built_sound (h.built_complete hr)).1 model doc c h.later h.sound

/-- The page type of a registered model is answered in every state of an api. -/
theorem typeOf_page (h : c.Serves r) (hr : r.Named) {model : String} {d : Definition}
    (hd : r.model? model = some d) :
    ∃ c', typeOf r ⟨model, .pagination⟩ c = (.ok (pageShape model), c') ∧ c'.Serves r := by
  obtain ⟨shape, hshape⟩ := (h.built_complete hr).outputs model d hd
  have hbuildable := page_buildable hd (h.built_sound.shapes _ _ hshape).1
  obtain ⟨hle, hsound, hanswer⟩ := typeWhile_builds r [] ⟨model, .pagination⟩ c h.sound
  unfold typeOf
  rcases hrun : typeWhile r [] ⟨model, .pagination⟩ c with ⟨e | built, c'⟩
  · rw [hrun] at hanswer
    rcases hanswer.2 with hfilter | hun | ⟨other, hother, -⟩
    · cases hfilter
    · exact absurd hun hbuildable
    · cases hother
  · rw [hrun] at hle hsound hanswer
    exact ⟨c', by rw [hanswer.2.1]; rfl, h.mono hle hsound⟩

end TypeCache.Serves

/-- The types of a running api are those that it was built with, and what was built since. -/
theorem Registry.Running.serves {r : Registry} {s : State} (hs : r.Running s) :
    s.types.Serves r := by
  induction hs with
  | @built types h store ids events =>
    refine ⟨⟨types, h⟩, ?_, (Running.built h store ids events).sound⟩
    unfold Registry.builtTypes
    rw [h]
    exact TypeCache.le_refl types
  | @call s hs op ctx args ih =>
    have hkept := op.run_keeps ctx args (fun e he => absurd he List.not_mem_nil) s
      (.of_sound hs.sound)
    exact ih.mono hkept.types hkept.sound

end DocumentApi
