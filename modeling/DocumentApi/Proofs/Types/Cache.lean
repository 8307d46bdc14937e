import DocumentApi.Proofs.Steps
import DocumentApi.Proofs.Tables
import DocumentApi.Proofs.Types.Nesting

/-!
# Types that are kept

A cache of types is sound for a registry when every type in it is buildable and is the one that
belongs to its key. Building a type keeps the cache sound and only adds to it, whether it succeeds
or not.

* `TypeCache.Sound.keep`, `TypeCache.Sound.declare`: a buildable type and the enum of a field may be
  kept.
* `Builds.bind`: steps that keep the cache sound and add to it do so one after the other.
-/

namespace DocumentApi

namespace TypeCache

/-- Whatever `c` knows, `c'` knows as well. -/
structure Le (c c' : TypeCache) : Prop where
  shapes : ∀ key shape, c.shape? key = some shape → c'.shape? key = some shape
  enums : ∀ name members, Table.find? c.enums name = some members →
    Table.find? c'.enums name = some members

instance : LE TypeCache := ⟨Le⟩

variable {c c' c'' : TypeCache}

theorem le_refl (c : TypeCache) : c ≤ c := ⟨fun _ _ h => h, fun _ _ h => h⟩

theorem le_trans (h : c ≤ c') (h' : c' ≤ c'') : c ≤ c'' :=
  ⟨fun key shape hs => h'.shapes key shape (h.shapes key shape hs),
    fun name members hm => h'.enums name members (h.enums name members hm)⟩

theorem shape?_keep (c : TypeCache) (key other : TypeKey) (shape : TypeShape) :
    (c.keep key shape).shape? other =
      (c.shape? other <|> if key = other then some shape else none) := by
  unfold keep shape?
  rw [List.find?_append]
  cases c.shapes.find? fun entry => entry.1 == other with
  | some entry => rfl
  | none => by_cases h : key = other <;> simp [h]

theorem le_keep (c : TypeCache) (key : TypeKey) (shape : TypeShape) : c ≤ c.keep key shape := by
  refine ⟨fun other s hs => ?_, fun _ _ h => h⟩
  rw [shape?_keep, hs]
  rfl

theorem shape?_declare (c : TypeCache) (spec : EnumSpec) (key : TypeKey) :
    (c.declare spec).shape? key = c.shape? key := by
  unfold declare
  split <;> rfl

theorem le_declare (c : TypeCache) (spec : EnumSpec) : c ≤ c.declare spec := by
  refine ⟨fun key shape h => by rwa [shape?_declare], fun name members h => ?_⟩
  unfold declare
  split
  · exact h
  · exact Table.find?_append_of_some h

/-- Every type in the cache is buildable and belongs to its key, and every enum is that of a
field. -/
structure Sound (r : Registry) (c : TypeCache) : Prop where
  shapes : ∀ key shape, c.shape? key = some shape → ¬ r.Unbuildable key ∧ shape = r.shapeOf key
  enums : ∀ name members, Table.find? c.enums name = some members →
    ∃ f spec, r.HasField f ∧ f.enumSpec = some spec ∧ spec.members = members

theorem sound_empty (r : Registry) : Sound r {} := by
  refine ⟨fun key shape h => ?_, fun name members h => ?_⟩ <;> cases h

theorem Sound.declare {r : Registry} {f : Field} {spec : EnumSpec} (h : Sound r c)
    (hf : r.HasField f) (hspec : f.enumSpec = some spec) : Sound r (c.declare spec) := by
  refine ⟨fun key shape hs => ?_, fun name members hm => ?_⟩
  · rw [shape?_declare] at hs
    exact h.shapes key shape hs
  · unfold TypeCache.declare at hm
    split at hm
    · exact h.enums name members hm
    · rw [Table.find?_append, Table.find?_cons] at hm
      cases found : Table.find? c.enums name with
      | some known =>
        rw [found] at hm
        cases hm
        exact h.enums name _ found
      | none =>
        rw [found] at hm
        by_cases e : spec.name = name
        · rw [if_pos e] at hm
          cases hm
          exact ⟨f, spec, hf, hspec, rfl⟩
        · rw [if_neg e] at hm
          cases hm

theorem Sound.keep {r : Registry} {key : TypeKey} (h : Sound r c) (hk : ¬ r.Unbuildable key) :
    Sound r (c.keep key (r.shapeOf key)) := by
  refine ⟨fun other shape hs => ?_, h.enums⟩
  rw [shape?_keep] at hs
  cases found : c.shape? other with
  | some s =>
    rw [found] at hs
    cases hs
    exact h.shapes other _ found
  | none =>
    rw [found] at hs
    by_cases e : key = other
    · subst e
      rw [if_pos rfl] at hs
      cases hs
      exact ⟨hk, rfl⟩
    · rw [if_neg e] at hs
      cases hs

/-- A step on types that keeps the cache sound and only adds to it, with what is said of its answer
and of the cache that it leaves. -/
def Builds {α : Type} (r : Registry) (x : Step TypeCache α) (c : TypeCache)
    (Q : Except Error α → TypeCache → Prop) : Prop :=
  x.Ends c fun answer c' => c ≤ c' ∧ Sound r c' ∧ Q answer c'

theorem Builds.bind {α β : Type} {r : Registry} {x : Step TypeCache α}
    {f : α → Step TypeCache β} {P : Except Error α → TypeCache → Prop}
    {Q : Except Error β → TypeCache → Prop} (hx : Builds r x c P)
    (hok : ∀ a c', c ≤ c' → Sound r c' → P (.ok a) c' → Builds r (f a) c' Q)
    (herror : ∀ e c', P (.error e) c' → Q (.error e) c') : Builds r (x >>= f) c Q := by
  refine Step.Ends.bind hx (fun a c' ⟨hle, hs, hp⟩ => ?_) fun e c' ⟨hle, hs, hp⟩ =>
    ⟨hle, hs, herror e c' hp⟩
  exact (hok a c' hle hs hp).mono fun _ c'' ⟨hle', hs', hq⟩ => ⟨le_trans hle hle', hs', hq⟩

theorem Builds.pure {α : Type} {r : Registry} {a : α} {Q : Except Error α → TypeCache → Prop}
    (hs : Sound r c) (h : Q (.ok a) c) : Builds r (Pure.pure a) c Q :=
  ⟨le_refl c, hs, h⟩

theorem Builds.fail {α : Type} {r : Registry} {e : Error} {Q : Except Error α → TypeCache → Prop}
    (hs : Sound r c) (h : Q (.error e) c) : Builds r (Step.fail e : Step TypeCache α) c Q :=
  ⟨le_refl c, hs, h⟩

theorem Builds.ofExcept {α : Type} {r : Registry} {x : Except Error α}
    {Q : Except Error α → TypeCache → Prop} (hs : Sound r c) (h : Q x c) :
    Builds r (Step.ofExcept x) c Q :=
  ⟨le_refl c, hs, h⟩

theorem Builds.mono {α : Type} {r : Registry} {x : Step TypeCache α}
    {P Q : Except Error α → TypeCache → Prop} (hx : Builds r x c P)
    (h : ∀ answer c', P answer c' → Q answer c') : Builds r x c Q :=
  Step.Ends.mono hx fun answer c' ⟨hle, hs, hp⟩ => ⟨hle, hs, h answer c' hp⟩

theorem Builds.of_eq {α : Type} {r : Registry} {x : Step TypeCache α} {answer : Except Error α}
    {Q : Except Error α → TypeCache → Prop} (hx : Builds r x c Q) (h : x c = (answer, c')) :
    c ≤ c' ∧ Sound r c' ∧ Q answer c' := by
  unfold Builds Step.Ends at hx
  rw [h] at hx
  exact hx

end TypeCache

end DocumentApi
