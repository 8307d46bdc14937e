import DocumentApi.Error

/-!
# Steps

A step of type `Step σ α` works on a state `σ` and answers an `α` or fails; a failure keeps the state
that the step had reached.

* `Step.zoom`: a step on a part of a state.
* `Step.each`: a step for every item of a list, up to the first that fails.
-/

namespace DocumentApi

/-- A computation that answers or fails, and leaves a state either way. -/
def Step (σ α : Type) : Type := σ → Except Error α × σ

namespace Step

variable {σ τ α β : Type}

def pure (a : α) : Step σ α := fun s => (.ok a, s)

def bind (x : Step σ α) (f : α → Step σ β) : Step σ β := fun s =>
  match x s with
  | (.ok a, s) => f a s
  | (.error e, s) => (.error e, s)

instance : Monad (Step σ) where
  pure := Step.pure
  bind := Step.bind

/-- Runs a step from a state. -/
def run (x : Step σ α) (s : σ) : Except Error α × σ := x s

def fail (e : Error) : Step σ α := fun s => (.error e, s)

/-- A result that needs no state. -/
def ofExcept (r : Except Error α) : Step σ α := fun s => (r, s)

/-- The state. -/
def state : Step σ σ := fun s => (.ok s, s)

def modify (f : σ → σ) : Step σ Unit := fun s => (.ok (), f s)

/-- A step on a part of a state. -/
def zoom (part : σ → τ) (put : τ → σ → σ) (x : Step τ α) : Step σ α := fun s =>
  let (r, t) := x (part s)
  (r, put t s)

/-- A step whose failures are reported in other terms. -/
def mapError (f : Error → Error) (x : Step σ α) : Step σ α := fun s =>
  match x s with
  | (.ok a, s) => (.ok a, s)
  | (.error e, s) => (.error (f e), s)

/-- A step for every item, up to the first that fails. -/
def each (f : α → Step σ β) : List α → Step σ (List β)
  | [] => pure []
  | a :: rest => bind (f a) fun b => bind (each f rest) fun bs => pure (b :: bs)

/-- Steps over a list that hand a value from one to the next. -/
def fold (f : β → α → Step σ β) : β → List α → Step σ β
  | b, [] => pure b
  | b, a :: rest => bind (f b a) fun b => fold f b rest

@[simp] theorem pure_run (a : α) (s : σ) : (Pure.pure a : Step σ α) s = (.ok a, s) := rfl

@[simp] theorem fail_run (e : Error) (s : σ) : (fail e : Step σ α) s = (.error e, s) := rfl

theorem bind_run (x : Step σ α) (f : α → Step σ β) (s : σ) :
    (x >>= f) s = match x s with
      | (.ok a, s) => f a s
      | (.error e, s) => (.error e, s) := rfl

theorem bind_ok {x : Step σ α} {f : α → Step σ β} {s t : σ} {b : β}
    (h : (x >>= f) s = (.ok b, t)) : ∃ a u, x s = (.ok a, u) ∧ f a u = (.ok b, t) := by
  rw [bind_run] at h
  split at h
  · rename_i a u found
    exact ⟨a, u, found, h⟩
  · simp at h

end Step

end DocumentApi
