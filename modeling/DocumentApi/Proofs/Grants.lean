import DocumentApi.Operations.Cascade
import DocumentApi.Proofs.Steps
import DocumentApi.Types.Synthesis

/-!
# Refusals

An operation is refused when what it asks for is not there or an argument of it is not valid. Most
steps that an operation takes fail, if at all, for other reasons.

* `Error.refuses`: the errors by which an operation is refused.
* `Unrefused`, `Step.Grants`: a result that is no refusal, and a step that never ends in one.
* `Step.Grants.of_bind`: a refusal of one step after another, of which the first refuses nothing.
* Values are read, and fields of models listed, without refusals.
-/

namespace DocumentApi

/-- Whether an error refuses what is asked for: it is not there, or an argument is not valid. -/
def Error.refuses (e : Error) : Bool :=
  e.kind? == some .notFound || e.kind? == some .invalidArgument

/-- A result that is no refusal. It may be a failure of another kind. -/
def Unrefused {α : Type} (x : Except Error α) : Prop := ∀ e, x = .error e → e.refuses = false

namespace Unrefused

variable {α β : Type}

theorem ok (a : α) : Unrefused (.ok a) := nofun

theorem error {e : Error} (h : e.refuses = false) : Unrefused (.error e : Except Error α) := by
  rintro _ ⟨⟩
  exact h

theorem bind {x : Except Error α} {f : α → Except Error β} (hx : Unrefused x)
    (hf : ∀ a, x = .ok a → Unrefused (f a)) : Unrefused (x >>= f) := by
  cases x with
  | error e => exact .error (hx e rfl)
  | ok a => exact hf a rfl

theorem mapM {f : α → Except Error β} (hf : ∀ a, Unrefused (f a)) (xs : List α) :
    Unrefused (xs.mapM f) := by
  induction xs with
  | nil => exact .ok _
  | cons x xs ih =>
    rw [List.mapM_cons]
    exact (hf x).bind fun y _ => ih.bind fun ys _ => .ok _

theorem foldlM {f : β → α → Except Error β} (hf : ∀ b a, Unrefused (f b a)) (xs : List α) (b : β) :
    Unrefused (xs.foldlM f b) := by
  induction xs generalizing b with
  | nil => exact .ok _
  | cons x xs ih =>
    rw [List.foldlM_cons]
    exact (hf b x).bind fun b _ => ih b

end Unrefused

section Refused

variable {α β : Type} {x : Except Error α} {f : α → Except Error β} {e : Error}

theorem Unrefused.not_error (hx : Unrefused x) (he : e.refuses) : x ≠ .error e := by
  intro h
  rw [hx e h] at he
  cases he

/-- What goes on without refusals is refused only by what it begins with. -/
theorem refused_first (hf : ∀ a, Unrefused (f a)) (h : x >>= f = .error e) (he : e.refuses) :
    x = .error e := by
  cases x with
  | error e' =>
    cases h
    rfl
  | ok a => exact absurd h ((hf a).not_error he)

/-- What begins without a refusal is refused by what goes on. -/
theorem Unrefused.of_bind (hx : Unrefused x) (h : x >>= f = .error e) (he : e.refuses) :
    ∃ a, x = .ok a ∧ f a = .error e := by
  cases x with
  | error e' =>
    cases h
    exact absurd rfl (hx.not_error he)
  | ok a => exact ⟨a, rfl, h⟩

end Refused

namespace Step

variable {σ τ α β : Type}

/-- A step that refuses nothing, from any state. -/
def Grants (x : Step σ α) : Prop := ∀ s, Unrefused (x s).1

namespace Grants

theorem pure (a : α) : (Pure.pure a : Step σ α).Grants := fun _ => .ok a

theorem fail {e : Error} (h : e.refuses = false) : (fail e : Step σ α).Grants := fun _ => .error h

theorem ofExcept {x : Except Error α} (h : Unrefused x) : (ofExcept x : Step σ α).Grants :=
  fun _ => h

theorem modify (f : σ → σ) : (modify f).Grants := fun _ => .ok ()

theorem zoom {part : σ → τ} {put : τ → σ → σ} {x : Step τ α} (hx : x.Grants) :
    (zoom part put x).Grants := fun s => hx (part s)

theorem bind {x : Step σ α} {f : α → Step σ β} (hx : x.Grants)
    (hf : ∀ a, x.Answers a → (f a).Grants) : (x >>= f).Grants := by
  intro s
  have hgranted := hx s
  rw [bind_run]
  rcases hrun : x s with ⟨e | a, t⟩
  · rw [hrun] at hgranted
    exact .error (hgranted e rfl)
  · exact hf a ⟨s, t, hrun⟩ t

theorem each {f : α → Step σ β} {xs : List α} (hf : ∀ x ∈ xs, (f x).Grants) :
    (each f xs).Grants := by
  induction xs with
  | nil => exact pure []
  | cons x xs ih =>
    refine bind (hf x List.mem_cons_self) fun y _ => ?_
    exact bind (ih fun z hz => hf z (List.mem_cons_of_mem _ hz)) fun ys _ => pure (y :: ys)

variable {x : Step σ α} {f : α → Step σ β} {s t : σ} {e : Error}

theorem not_error (hx : x.Grants) (he : e.refuses) : x s ≠ (.error e, t) :=
  fun h => (hx s).not_error he (congrArg Prod.fst h)

/-- What begins without a refusal is refused by what goes on. -/
theorem of_bind (hx : x.Grants) (h : (x >>= f) s = (.error e, t)) (he : e.refuses) :
    ∃ a u, x s = (.ok a, u) ∧ f a u = (.error e, t) := by
  rw [bind_run] at h
  rcases hrun : x s with ⟨e' | a, u⟩
  · rw [hrun] at h
    cases h
    exact absurd hrun (hx.not_error he)
  · rw [hrun] at h
    exact ⟨a, u, rfl, h⟩

theorem of_ofExcept_bind {y : Except Error α} (hy : Unrefused y)
    (h : (Step.ofExcept y >>= f) s = (.error e, t)) (he : e.refuses) :
    ∃ a, y = .ok a ∧ f a s = (.error e, t) := by
  obtain ⟨a, u, hread, h⟩ := (ofExcept hy).of_bind h he
  obtain ⟨hy, rfl⟩ := ofExcept_ok hread
  exact ⟨a, hy, h⟩

end Grants

end Step

/-! ## Values and fields -/

theorem Value.iterate_unrefused (v : Value) : Unrefused v.iterate := by
  unfold iterate
  split
  · exact .ok _
  · exact .error rfl

theorem Value.iterateGiven_unrefused (v : Value) : Unrefused v.iterateGiven := by
  unfold iterateGiven
  split
  · exact v.iterate_unrefused
  · exact .ok _

theorem Value.toPair_unrefused (v : Value) : Unrefused v.toPair := by
  unfold toPair
  split
  · exact .error rfl
  · split
    · exact .error rfl
    · exact .error rfl
    · exact .ok _
  · exact .error rfl

theorem Value.toFields_unrefused (v : Value) : Unrefused v.toFields := by
  unfold toFields
  split
  · exact .ok _
  · refine v.iterate_unrefused.bind fun items _ => ?_
    exact (Unrefused.mapM toPair_unrefused items).bind fun pairs _ => .ok _

theorem Value.asFields_unrefused (v : Value) : Unrefused v.asFields := by
  unfold asFields
  split
  · exact v.plain.toFields_unrefused
  · exact .ok _

theorem Value.asFilter_unrefused (v : Value) : Unrefused v.asFilter :=
  v.asFields_unrefused.bind fun _ _ => .ok _

theorem sortKeys_unrefused (sort : Value) : Unrefused (sortKeys sort) := by
  refine Unrefused.bind ?_ fun directions _ => .ok _
  unfold sortDirections
  split
  · exact .ok _
  · split
    · exact .ok _
    · exact .error rfl

section Fields

variable (r : Registry)

theorem Registry.fieldsOf_unrefused (model : String) : Unrefused (r.fieldsOf model) := by
  unfold fieldsOf
  split
  · exact .ok _
  · exact .error rfl

theorem Registry.fieldsOfEmbedded_unrefused (model : Option String) :
    Unrefused (r.fieldsOfEmbedded model) := by
  unfold fieldsOfEmbedded
  split
  · exact r.fieldsOf_unrefused _
  · exact .error rfl

theorem Registry.modelOf_unrefused (model : String) : Unrefused (r.modelOf model) := by
  unfold modelOf
  split
  · exact .ok _
  · exact .error rfl

theorem Registry.outputFields_unrefused (model : Option String) :
    Unrefused (r.outputFields model) :=
  (r.fieldsOfEmbedded_unrefused model).bind fun _ _ => .ok _

theorem Registry.scalarFields_unrefused (model : String) : Unrefused (r.scalarFields model) :=
  (r.fieldsOf_unrefused model).bind fun _ _ => .ok _

theorem Registry.fieldsFor_unrefused (model : String) (kind : TypeKind) :
    Unrefused (r.fieldsFor model kind) := by
  unfold fieldsFor
  split
  · exact (r.fieldsOf_unrefused model).bind fun _ _ => .ok _
  · exact (r.fieldsOf_unrefused model).bind fun _ _ => .ok _
  · exact r.outputFields_unrefused _

theorem relationTarget_unrefused (f : Field) : Unrefused (relationTarget r f) := by
  unfold relationTarget
  split
  · exact r.modelOf_unrefused _
  · exact .error rfl

end Fields

end DocumentApi
