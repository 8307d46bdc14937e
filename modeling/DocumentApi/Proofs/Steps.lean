import DocumentApi.Step
import Mathlib.Data.List.Forall2

/-!
# Reasoning about steps

`x.Ends s Q`: what the step `x` answers from the state `s` and the state it leaves satisfy `Q`. A
failure is an answer like any other, so `Q` says what holds of the state then as well.

* `Ends.bind`: the rule for a step after a step. A failure of the first one is the answer of both.
* `Ends.each`: a step for every item of a list, from an invariant of the state that each item keeps.
* `x.Preserves I`: the step `x` preserves the invariant `I`, from every state.
* `bind_answer`, `each_eq_mapM`: steps that keep the state answer like computations without one.
* `exceptBind_congr`: computations that go on alike from results that are the same in part.
* `mapM_ok_iff`: the answers to the items of a list, when none fails.
-/

namespace DocumentApi

namespace Step

variable {σ τ α β : Type}

instance : LawfulMonad (Step σ) := LawfulMonad.mk' (Step σ)
  (fun x => by
    funext s
    show (x >>= _) s = _
    rw [bind_run]
    rcases x s with ⟨e | a, t⟩ <;> rfl)
  (fun _ _ => rfl)
  (fun x f g => by
    funext s
    rw [bind_run, bind_run, bind_run]
    rcases x s with ⟨e | a, t⟩ <;> rfl)

/-- `Q` holds of the answer of a step and of the state that it leaves. -/
def Ends (x : Step σ α) (s : σ) (Q : Except Error α → σ → Prop) : Prop := Q (x s).1 (x s).2

theorem Ends.mono {x : Step σ α} {s : σ} {P Q : Except Error α → σ → Prop} (hx : x.Ends s P)
    (h : ∀ r t, P r t → Q r t) : x.Ends s Q := h _ _ hx

theorem Ends.bind {x : Step σ α} {f : α → Step σ β} {s : σ} {P : Except Error α → σ → Prop}
    {Q : Except Error β → σ → Prop} (hx : x.Ends s P) (hok : ∀ a t, P (.ok a) t → (f a).Ends t Q)
    (herror : ∀ e t, P (.error e) t → Q (.error e) t) : (x >>= f).Ends s Q := by
  unfold Ends at hx ⊢
  rw [bind_run]
  rcases hr : x s with ⟨a | a, t⟩
  · rw [hr] at hx
    exact herror a t hx
  · rw [hr] at hx
    exact hok a t hx

/-- The state is read and handed on. -/
theorem Ends.state_bind {s : σ} {f : σ → Step σ β} {Q : Except Error β → σ → Prop}
    (h : (f s).Ends s Q) : (state >>= f).Ends s Q := h

/-- A step on a part of a state, with the part put back. -/
theorem Ends.zoom {part : σ → τ} {put : τ → σ → σ} {x : Step τ α} {s : σ}
    {Q : Except Error α → σ → Prop} (h : x.Ends (part s) fun answer t => Q answer (put t s)) :
    (zoom part put x).Ends s Q := h

/-- An invariant that the step for each item keeps is kept by the steps for all. -/
theorem Ends.each {f : α → Step σ β} {xs : List α} {s : σ} {I : σ → Prop} (hs : I s)
    (h : ∀ x ∈ xs, ∀ t, I t → (f x).Ends t fun _ u => I u) :
    (Step.each f xs).Ends s fun _ u => I u := by
  induction xs generalizing s with
  | nil => exact hs
  | cons x xs ih =>
    refine Ends.bind (h x List.mem_cons_self s hs) (fun b t ht => ?_) fun _ _ ht => ht
    refine Ends.bind (ih ht fun y hy => h y (List.mem_cons_of_mem _ hy)) (fun _ _ ht => ht)
      fun _ _ ht => ht

theorem each_map {γ : Type} (f : β → Step σ γ) (g : α → β) (xs : List α) :
    each f (xs.map g) = each (fun x => f (g x)) xs := by
  induction xs with
  | nil => rfl
  | cons x xs ih =>
    rw [List.map_cons]
    unfold each
    rw [ih]

theorem fold_map {γ : Type} (f : β → γ → Step σ β) (g : α → γ) (b : β) (xs : List α) :
    fold f b (xs.map g) = fold (fun b x => f b (g x)) b xs := by
  induction xs generalizing b with
  | nil => rfl
  | cons x xs ih =>
    rw [List.map_cons]
    exact bind_congr fun b => ih b

theorem each_attach (f : α → Step σ β) (xs : List α) :
    each (fun x : { x // x ∈ xs } => f x.1) xs.attach = each f xs := by
  rw [← each_map f Subtype.val, List.attach_map_subtype_val]

/-! ## Invariants -/

/-- A step answers a value, from one state or another. -/
def Answers (x : Step σ α) (a : α) : Prop := ∃ s t, x s = (.ok a, t)

theorem Answers.ofExcept {r : Except Error α} {a : α} (h : (ofExcept r : Step σ α).Answers a) :
    r = .ok a := by
  obtain ⟨s, t, h⟩ := h
  exact congrArg Prod.fst h

/-- A step for every item answers what the steps answer. -/
theorem each_answers {f : α → Step σ β} {xs : List α} {ys : List β} {s t : σ}
    (h : each f xs s = (.ok ys, t)) : List.Forall₂ (fun x y => (f x).Answers y) xs ys := by
  induction xs generalizing ys s with
  | nil => cases h; exact .nil
  | cons x xs ih =>
    obtain ⟨y, u, hy, h⟩ := bind_ok h
    obtain ⟨rest, u', hrest, h⟩ := bind_ok h
    cases h
    exact .cons ⟨s, u, hy⟩ (ih hrest)

/-- A step preserves an invariant of the state, whether it succeeds or not. -/
def Preserves (I : σ → Prop) (x : Step σ α) : Prop := ∀ s, I s → x.Ends s fun _ t => I t

section Preserves

variable {I : σ → Prop}

theorem Preserves.run {x : Step σ α} (hx : x.Preserves I) {s t : σ} {answer : Except Error α}
    (hs : I s) (h : x s = (answer, t)) : I t := by
  have hend := hx s hs
  unfold Ends at hend
  rwa [h] at hend

theorem Preserves.pure (a : α) : Preserves I (Pure.pure a : Step σ α) := fun _ hs => hs

theorem Preserves.fail (e : Error) : Preserves I (fail e : Step σ α) := fun _ hs => hs

theorem Preserves.ofExcept (r : Except Error α) : Preserves I (ofExcept r) := fun _ hs => hs

theorem Preserves.bind {x : Step σ α} {f : α → Step σ β} (hx : x.Preserves I)
    (hf : ∀ a, x.Answers a → (f a).Preserves I) : (x >>= f).Preserves I := by
  intro s hs
  unfold Ends
  rw [bind_run]
  rcases hr : x s with ⟨e | a, t⟩
  · exact hx.run hs hr
  · exact hf a ⟨s, t, hr⟩ t (hx.run hs hr)

theorem Preserves.each {f : α → Step σ β} {xs : List α} (hf : ∀ x ∈ xs, (f x).Preserves I) :
    (Step.each f xs).Preserves I := fun _ hs => Ends.each hs fun x hx t ht => hf x hx t ht

/-- Each of the steps for the items of a list that succeed was taken in a state of the invariant. -/
theorem Preserves.each_ok {f : α → Step σ β} {xs : List α} {ys : List β} {s t : σ}
    (hf : ∀ x ∈ xs, (f x).Preserves I) (hs : I s) (h : Step.each f xs s = (.ok ys, t)) :
    ∀ x ∈ xs, ∃ y u v, I u ∧ f x u = (.ok y, v) := by
  induction xs generalizing ys s t with
  | nil => exact fun x hx => absurd hx List.not_mem_nil
  | cons x xs ih =>
    obtain ⟨y, u, hy, h⟩ := bind_ok h
    obtain ⟨rest, v, hrest, -⟩ := bind_ok h
    have hu : I u := (hf x List.mem_cons_self).run hs hy
    intro x' hx'
    rcases List.mem_cons.mp hx' with rfl | hx'
    · exact ⟨y, s, u, hs, hy⟩
    · exact ih (fun z hz => hf z (List.mem_cons_of_mem _ hz)) hu hrest x' hx'

end Preserves

/-! ## Steps that succeed -/

/-- A step without an answer of its own, when it succeeds. -/
theorem eq_of_isOk {result : Except Error Unit × σ} (h : result.1.isOk) :
    result = (.ok (), result.2) := by
  obtain ⟨answer | answer, s⟩ := result
  · cases h
  · rfl

theorem bind_of_ok {x : Step σ α} {f : α → Step σ β} {s t : σ} {a : α} (h : x s = (.ok a, t)) :
    (x >>= f) s = f a t := by
  rw [bind_run, h]

/-- Steps for all items are those for the first ones and then those for the others. -/
theorem each_append {f : α → Step σ β} {xs ys : List α} {bs : List β} {s t : σ}
    (h : each f (xs ++ ys) s = (.ok bs, t)) :
    ∃ first u, each f xs s = (.ok first, u) ∧ ∃ last, each f ys u = (.ok last, t) := by
  induction xs generalizing bs s with
  | nil => exact ⟨[], s, rfl, bs, h⟩
  | cons x xs ih =>
    obtain ⟨b, v, hx, h⟩ := bind_ok h
    obtain ⟨rest, w, hrest, h⟩ := bind_ok h
    cases h
    obtain ⟨first, u, hfirst, hlast⟩ := ih hrest
    exact ⟨b :: first, u, (bind_of_ok hx).trans ((bind_of_ok hfirst).trans rfl), hlast⟩

theorem pure_ok {s t : σ} {a b : α} (h : (Pure.pure a : Step σ α) s = (.ok b, t)) :
    a = b ∧ s = t := by
  cases h
  exact ⟨rfl, rfl⟩

theorem ofExcept_ok {r : Except Error α} {s t : σ} {a : α}
    (h : ofExcept r s = (.ok a, t)) : r = .ok a ∧ s = t :=
  ⟨congrArg Prod.fst h, congrArg Prod.snd h⟩

/-- A step on a part of a state is that step, with the part put back. -/
theorem zoom_eq {part : σ → τ} {put : τ → σ → σ} {x : Step τ α} {s t : σ} {r : Except Error α}
    (h : zoom part put x s = (r, t)) : ∃ u, x (part s) = (r, u) ∧ put u s = t := by
  obtain ⟨hr, ht⟩ := Prod.mk.inj h
  exact ⟨(x (part s)).2, Prod.ext hr rfl, ht⟩

/-! ## Steps that keep the state -/

/-- Steps that keep the state answer item by item. -/
theorem each_of_forall₂ {f : α → Step σ β} {s : σ} {xs : List α} {ys : List β}
    (h : List.Forall₂ (fun x y => f x s = (.ok y, s)) xs ys) : each f xs s = (.ok ys, s) := by
  induction h with
  | nil => rfl
  | cons hx _ ih => exact (bind_of_ok hx).trans ((bind_of_ok ih).trans rfl)

/-- A step that keeps the state hands its answer on. -/
theorem bind_answer {x : Step σ α} {f : α → Step σ β} {s : σ} {a : Except Error α}
    (h : x s = (a, s)) : ((x >>= f) s).1 = a >>= fun b => (f b s).1 := by
  rw [bind_run, h]
  cases a <;> rfl

theorem ofExcept_bind_answer (x : Except Error α) (f : α → Step σ β) (s : σ) :
    ((ofExcept x >>= f) s).1 = x >>= fun a => (f a s).1 := bind_answer rfl

theorem each_eq_mapM {f : α → Step σ β} {g : α → Except Error β} {s : σ}
    (hf : ∀ x, f x s = (g x, s)) (xs : List α) : each f xs s = (xs.mapM g, s) := by
  induction xs with
  | nil => rfl
  | cons x xs ih =>
    show (f x >>= fun y => each f xs >>= fun ys => Pure.pure (y :: ys)) s = _
    rw [List.mapM_cons, bind_run, hf]
    cases g x with
    | error e => rfl
    | ok y =>
      dsimp only
      rw [bind_run, ih]
      cases xs.mapM g <;> rfl

theorem each_congr {f g : α → Step σ β} {xs : List α} (h : ∀ x ∈ xs, f x = g x) :
    each f xs = each g xs := by
  induction xs with
  | nil => rfl
  | cons x xs ih =>
    unfold each
    rw [h x List.mem_cons_self, ih fun y hy => h y (List.mem_cons_of_mem _ hy)]

end Step

theorem exceptBind_ok {α β : Type} {x : Except Error α} {f : α → Except Error β} {b : β}
    (h : x >>= f = .ok b) : ∃ a, x = .ok a ∧ f a = .ok b := by
  cases x with
  | error e => cases h
  | ok a => exact ⟨a, rfl, h⟩

/-- Results that are the same after `w` are followed by the same. -/
theorem exceptBind_congr {α β γ : Type} {x y : Except Error α} {f g : α → Except Error β}
    {w : α → γ} (h : x.map w = y.map w)
    (hfg : ∀ a b, x = .ok a → y = .ok b → w a = w b → f a = g b) : x >>= f = y >>= g := by
  cases x with
  | error e =>
    cases y with
    | error e' => cases h; rfl
    | ok b => cases h
  | ok a =>
    cases y with
    | error e => cases h
    | ok b => exact hfg a b rfl rfl (Except.ok.inj h)

theorem exceptBind_map_congr {α β γ δ : Type} {x y : Except Error α} {f g : α → Except Error β}
    {w : α → γ} {v : β → δ} (h : x.map w = y.map w)
    (hfg : ∀ a b, w a = w b → (f a).map v = (g b).map v) :
    (x >>= f).map v = (y >>= g).map v := by
  have hbind : ∀ (z : Except Error α) (k : α → Except Error β),
      (z >>= k).map v = z >>= fun a => (k a).map v := fun z k => by cases z <;> rfl
  rw [hbind, hbind]
  exact exceptBind_congr h fun a b _ _ => hfg a b

theorem mapM_ok_iff {α β : Type} {f : α → Except Error β} {xs : List α} {ys : List β} :
    xs.mapM f = .ok ys ↔ List.Forall₂ (fun x y => f x = .ok y) xs ys := by
  induction xs generalizing ys with
  | nil =>
    rw [List.mapM_nil, List.forall₂_nil_left_iff]
    exact ⟨fun h => by cases h; rfl, fun h => by rw [h]; rfl⟩
  | cons x xs ih =>
    rw [List.mapM_cons, List.forall₂_cons_left_iff]
    constructor
    · intro h
      cases hx : f x with
      | error e => rw [hx] at h; cases h
      | ok y =>
        rw [hx] at h
        cases hxs : xs.mapM f with
        | error e => rw [hxs] at h; cases h
        | ok rest =>
          rw [hxs] at h
          cases h
          exact ⟨y, rest, rfl, ih.mp hxs, rfl⟩
    · rintro ⟨y, rest, hy, hrest, rfl⟩
      rw [hy, ih.mpr hrest]
      rfl

/-- The answers of steps that keep the state. -/
theorem Step.forall₂_of_each {σ α β : Type} {f : α → Step σ β} {g : α → Except Error β} {s t : σ}
    {xs : List α} {ys : List β} (hf : ∀ x, f x s = (g x, s)) (h : each f xs s = (.ok ys, t)) :
    List.Forall₂ (fun x y => g x = .ok y) xs ys ∧ t = s := by
  rw [each_eq_mapM hf] at h
  obtain ⟨hanswer, rfl⟩ := Prod.mk.inj h
  exact ⟨mapM_ok_iff.mp hanswer, rfl⟩

theorem mapM_ok_of_forall {α β : Type} {f : α → Except Error β} {xs : List α}
    (h : ∀ x ∈ xs, ∃ y, f x = .ok y) : ∃ ys, xs.mapM f = .ok ys := by
  induction xs with
  | nil => exact ⟨[], rfl⟩
  | cons x xs ih =>
    obtain ⟨y, hy⟩ := h x List.mem_cons_self
    obtain ⟨ys, hys⟩ := ih fun x hx => h x (List.mem_cons_of_mem _ hx)
    exact ⟨y :: ys, mapM_ok_iff.mpr (.cons hy (mapM_ok_iff.mp hys))⟩

theorem mapM_map_eq {α β γ : Type} {f : α → Except Error β} {g : γ → Except Error β} {w : α → γ}
    {xs : List α} (h : ∀ x ∈ xs, f x = g (w x)) : xs.mapM f = (xs.map w).mapM g := by
  induction xs with
  | nil => rfl
  | cons x xs ih =>
    rw [List.map_cons, List.mapM_cons, List.mapM_cons, h x List.mem_cons_self,
      ih fun y hy => h y (List.mem_cons_of_mem _ hy)]

end DocumentApi
