import DocumentApi.Proofs.Types.Steady
import Mathlib.Data.List.Nodup

/-!
# What building types does to a cache

Building a type writes to the cache in two ways only: it declares the enum of a field, and it keeps
a type that was not kept, after the types that it is made of.

* `Grows`: writes of these two ways, while some types are begun.
* `Grows.sound`, `Grows.le`, `Grows.isPrefix`, `Grows.spares`: what such writes leave as it is.
* `Arises`: a cache that they lead to from none. Its types have one place each (`Arises.unique`),
  those that a type is made of come before it (`Arises.before`), and a kept filter can be built
  again (`Arises.filters`).
* `fieldsWhile_cons_eq`, `fieldTyping`: the type of one field.
* `typeWhile_induction`: the recursion of building a type, by the types that it nests.
* `typeWhile_grows`: building a type makes such writes only.
-/

namespace DocumentApi

open TypeCache (Sound Builds)

/-- A field that a type has, or that a filter has conditions on. -/
inductive Registry.PartOf (r : Registry) : TypeKey → Field → Prop
  | field {model : String} {kind : TypeKind} {fields : List Field} {f : Field}
      (hkind : kind.OfFields) (hfields : r.fieldsFor model kind = .ok fields) (hf : f ∈ fields) :
      PartOf r ⟨model, kind⟩ f
  | condition {model : String} {scalars : List Field} {f : Field}
      (hscalars : r.scalarFields model = .ok scalars) (hf : f ∈ scalars) (hfilter : f.filterable) :
      PartOf r ⟨model, .filter⟩ f

namespace TypeCache

/-! ## Writes -/

/-- A type may be kept while others are begun: it is neither kept nor begun, and what it is made of
is there. -/
structure MayKeep (r : Registry) (begun : List TypeKey) (c : TypeCache) (key : TypeKey) : Prop where
  unbegun : key ∉ begun
  new : c.shape? key = none
  buildable : ¬ r.Unbuildable key
  nested : ∀ nested, r.Nests key nested → c.Has nested
  declared : ∀ f, r.PartOf key f → c.Declares f
  filter : key.kind = .filter → ∃ c₀, (filterShape r key.model c₀).1.isOk

/-- The writes of a cache by which types are built while others are begun. -/
inductive Grows (r : Registry) (begun : List TypeKey) (c : TypeCache) : TypeCache → Prop
  | refl : Grows r begun c c
  | declare {c' : TypeCache} {f : Field} {spec : EnumSpec} (h : Grows r begun c c')
      (hf : r.HasField f) (hspec : f.enumSpec = some spec) : Grows r begun c (c'.declare spec)
  | keep {c' : TypeCache} {key : TypeKey} (h : Grows r begun c c')
      (may : MayKeep r begun c' key) : Grows r begun c (c'.keep key (r.shapeOf key))

variable {r : Registry} {begun : List TypeKey} {c c' c'' : TypeCache} {key : TypeKey}

theorem shapes_declare (c : TypeCache) (spec : EnumSpec) : (c.declare spec).shapes = c.shapes := by
  unfold declare
  split <;> rfl

/-- A type in a cache in which one was kept is that one or was there. -/
theorem of_shape?_keep {shape shape' : TypeShape} {other : TypeKey}
    (h : (c.keep key shape).shape? other = some shape') :
    c.shape? other = some shape' ∨ key = other := by
  rw [shape?_keep] at h
  cases hfound : c.shape? other with
  | some known =>
    rw [hfound] at h
    exact Or.inl h
  | none =>
    by_contra hother
    rw [hfound, if_neg fun hsame => hother (Or.inr hsame)] at h
    cases h

theorem has_keep (c : TypeCache) (key : TypeKey) (shape : TypeShape) :
    (c.keep key shape).Has key := by
  unfold Has
  rw [shape?_keep, if_pos rfl]
  cases c.shape? key with
  | some known => exact ⟨known, rfl⟩
  | none => exact ⟨shape, rfl⟩

theorem exists_place {shape : TypeShape} (h : c.shape? key = some shape) :
    ∃ place : Nat, c.shapes[place]? = some (key, shape) := by
  obtain ⟨entry, hentry, rfl⟩ := Option.map_eq_some_iff.mp h
  have hkey : entry.1 = key := by simpa using List.find?_some hentry
  obtain ⟨place, hplace⟩ := List.getElem?_of_mem (List.mem_of_find?_eq_some hentry)
  exact ⟨place, by rw [hplace, ← hkey]⟩

namespace Grows

theorem trans (h : Grows r begun c c') (h' : Grows r begun c' c'') : Grows r begun c c'' := by
  induction h' with
  | refl => exact h
  | declare _ hf hspec ih => exact ih.declare hf hspec
  | keep _ may ih => exact ih.keep may

/-- Fewer types that are begun allow as much. -/
theorem weaken {others : List TypeKey} (h : Grows r begun c c') (hsub : others ⊆ begun) :
    Grows r others c c' := by
  induction h with
  | refl => exact .refl
  | declare _ hf hspec ih => exact ih.declare hf hspec
  | keep _ may ih => exact ih.keep { may with unbegun := fun h => may.unbegun (hsub h) }

theorem le (h : Grows r begun c c') : c ≤ c' := by
  induction h with
  | refl => exact le_refl c
  | declare _ _ _ ih => exact le_trans ih (le_declare _ _)
  | keep _ _ ih => exact le_trans ih (le_keep _ _ _)

theorem sound (h : Grows r begun c c') (hs : Sound r c) : Sound r c' := by
  induction h with
  | refl => exact hs
  | declare _ hf hspec ih => exact ih.declare hf hspec
  | keep _ may ih => exact ih.keep may.buildable

/-- Types stay at their places. -/
theorem isPrefix (h : Grows r begun c c') : c.shapes <+: c'.shapes := by
  induction h with
  | refl => exact List.prefix_refl _
  | declare _ _ _ ih => rwa [shapes_declare]
  | keep _ _ ih => exact ih.trans (List.prefix_append _ _)

/-- What is begun is not kept by others. -/
theorem spares (h : Grows r begun c c') (hkey : key ∈ begun) (hnone : c.shape? key = none) :
    c'.shape? key = none := by
  induction h with
  | refl => exact hnone
  | declare _ _ _ ih => rwa [shape?_declare]
  | @keep c' other _ may ih =>
    rw [shape?_keep, ih, if_neg fun hsame : other = key => may.unbegun (hsame ▸ hkey)]
    rfl

end Grows

/-! ## Caches that come about -/

/-- A cache that building types leads to. -/
def Arises (r : Registry) (c : TypeCache) : Prop := Grows r [] {} c

namespace Arises

variable {shape : TypeShape}

theorem empty (r : Registry) : Arises r {} := .refl

theorem grows (h : Arises r c) (hgrows : Grows r begun c c') : Arises r c' :=
  h.trans (hgrows.weaken (List.nil_subset _))

theorem sound (h : Arises r c) : Sound r c := Grows.sound h (sound_empty r)

/-- A kept filter is one that can be built. -/
theorem filters (h : Arises r c) {model : String}
    (hshape : c.shape? ⟨model, .filter⟩ = some shape) :
    ∃ c₀, (filterShape r model c₀).1.isOk := by
  induction h with
  | refl => cases hshape
  | declare _ _ _ ih => exact ih (by rwa [shape?_declare] at hshape)
  | keep _ may ih =>
    rcases of_shape?_keep hshape with hknown | rfl
    · exact ih hknown
    · exact may.filter rfl

/-- The enums of what a kept type is made of are declared. -/
theorem declares (h : Arises r c) {f : Field} (hhas : c.Has key) (hf : r.PartOf key f) :
    c.Declares f := by
  induction h with
  | refl => obtain ⟨shape, hshape⟩ := hhas; cases hshape
  | declare _ _ _ ih =>
    obtain ⟨shape, hshape⟩ := hhas
    rw [shape?_declare] at hshape
    exact (ih ⟨shape, hshape⟩).mono (le_declare _ _)
  | keep _ may ih =>
    obtain ⟨shape, hshape⟩ := hhas
    refine Declares.mono ?_ (le_keep _ _ _)
    rcases of_shape?_keep hshape with hknown | rfl
    · exact ih ⟨shape, hknown⟩
    · exact may.declared f hf

/-- An enum that is declared is that of a field that names it. -/
theorem enums (h : Arises r c) {name : String} {members : Table Value}
    (hfound : Table.find? c.enums name = some members) :
    ∃ f spec, r.HasField f ∧ f.enumSpec = some spec ∧ spec.name = name ∧
      spec.members = members := by
  induction h with
  | refl => cases hfound
  | @declare c' f spec _ hf hspec ih =>
    unfold declare at hfound
    split at hfound
    · exact ih hfound
    · rw [Table.find?_append, Table.find?_cons] at hfound
      cases hknown : Table.find? c'.enums name with
      | some known => exact ih (hknown.trans (by rw [hknown] at hfound; exact hfound))
      | none =>
        rw [hknown] at hfound
        by_cases hname : spec.name = name
        · rw [if_pos hname] at hfound
          cases hfound
          exact ⟨f, spec, hf, hspec, hname, rfl⟩
        · rw [if_neg hname] at hfound
          cases hfound
  | keep _ _ ih => exact ih hfound

/-- Each type is kept at one place. -/
theorem unique (h : Arises r c) {place place' : Nat} {shape' : TypeShape}
    (hplace : c.shapes[place]? = some (key, shape))
    (hplace' : c.shapes[place']? = some (key, shape')) : place = place' := by
  have hnodup : (c.shapes.map Prod.fst).Nodup := by
    clear hplace hplace'
    induction h with
    | refl => exact List.nodup_nil
    | declare _ _ _ ih => rwa [shapes_declare]
    | @keep c' other _ may ih =>
      unfold TypeCache.keep
      rw [List.map_append, List.map_singleton, List.nodup_append]
      refine ⟨ih, List.nodup_singleton _, fun a ha b hb hsame => ?_⟩
      obtain ⟨entry, hentry, rfl⟩ := List.mem_map.mp ha
      obtain rfl := List.mem_singleton.mp hb
      have hnone := may.new
      unfold shape? at hnone
      rw [Option.map_eq_none_iff, List.find?_eq_none] at hnone
      exact hnone entry hentry (by simpa using hsame)
  have hkey : ∀ {i : Nat} {s}, c.shapes[i]? = some (key, s) →
      (c.shapes.map Prod.fst)[i]? = some key := by
    intro i s hi
    rw [List.getElem?_map, hi]
    rfl
  obtain ⟨hlt, hget⟩ := List.getElem?_eq_some_iff.mp (hkey hplace)
  obtain ⟨hlt', hget'⟩ := List.getElem?_eq_some_iff.mp (hkey hplace')
  exact (hnodup.getElem_inj_iff).mp (hget.trans hget'.symm)

/-- What a type is made of is kept at an earlier place. -/
theorem before (h : Arises r c) {place : Nat} {nested : TypeKey}
    (hplace : c.shapes[place]? = some (key, shape)) (hnests : r.Nests key nested) :
    ∃ place' shape', place' < place ∧ c.shapes[place']? = some (nested, shape') := by
  induction h with
  | refl => cases hplace
  | declare _ _ _ ih =>
    rw [shapes_declare] at hplace ⊢
    exact ih hplace
  | @keep c' other _ may ih =>
    unfold TypeCache.keep at hplace ⊢
    dsimp only at hplace ⊢
    have hlater : ∀ {i : Nat} {s k}, c'.shapes[i]? = some (k, s) →
        (c'.shapes ++ [(other, r.shapeOf other)])[i]? = some (k, s) := fun hi => by
      rw [List.getElem?_append_left (List.getElem?_eq_some_iff.mp hi).1, hi]
    by_cases hold : place < c'.shapes.length
    · rw [List.getElem?_append_left hold] at hplace
      obtain ⟨place', shape', hlt, hfound⟩ := ih hplace
      exact ⟨place', shape', hlt, hlater hfound⟩
    · rw [List.getElem?_append_right (by omega)] at hplace
      have hlast : (key, shape) = (other, r.shapeOf other) := by
        have hmem := List.mem_of_getElem? hplace
        exact List.mem_singleton.mp hmem
      cases hlast
      obtain ⟨shape', hshape'⟩ := may.nested nested hnests
      obtain ⟨place', hplace'⟩ := exists_place hshape'
      have hlt := (List.getElem?_eq_some_iff.mp hplace').1
      exact ⟨place', shape', by omega, hlater hplace'⟩

theorem has_nested (hc : Arises r c) (hhas : c.Has key) (hnests : r.Nests key nested) :
    c.Has nested := by
  obtain ⟨shape, hshape⟩ := hhas
  obtain ⟨place, hplace⟩ := exists_place hshape
  obtain ⟨place', shape', -, hnested⟩ := hc.before hplace hnests
  refine Option.ne_none_iff_exists'.mp fun hnone => ?_
  unfold shape? at hnone
  rw [Option.map_eq_none_iff, List.find?_eq_none] at hnone
  exact hnone _ (List.mem_of_getElem? hnested) (by simp)

end Arises

/-! ## Steps that only build types -/

/-- A step whose writes are those by which types are built, with what is said of its end. -/
def GrowsTo {α : Type} (r : Registry) (begun : List TypeKey) (x : Step TypeCache α) (c : TypeCache)
    (Q : Except Error α → TypeCache → Prop) : Prop :=
  x.Ends c fun answer c' => Grows r begun c c' ∧ Q answer c'

namespace GrowsTo

variable {α β : Type} {Q : Except Error α → TypeCache → Prop}

theorem pure {a : α} (h : Q (.ok a) c) : GrowsTo r begun (Pure.pure a) c Q := ⟨.refl, h⟩

theorem fail {e : Error} (h : Q (.error e) c) :
    GrowsTo r begun (Step.fail e : Step TypeCache α) c Q := ⟨.refl, h⟩

theorem bind {x : Step TypeCache α} {f : α → Step TypeCache β}
    {P : Except Error α → TypeCache → Prop} {Q : Except Error β → TypeCache → Prop}
    (hx : GrowsTo r begun x c P)
    (hok : ∀ a c', Grows r begun c c' → P (.ok a) c' → GrowsTo r begun (f a) c' Q)
    (herror : ∀ e c', P (.error e) c' → Q (.error e) c') : GrowsTo r begun (x >>= f) c Q := by
  refine Step.Ends.bind hx (fun a c' ⟨hgrows, hp⟩ => ?_) fun e c' ⟨hgrows, hp⟩ =>
    ⟨hgrows, herror e c' hp⟩
  exact Step.Ends.mono (hok a c' hgrows hp) fun _ c'' ⟨hgrows', hq⟩ => ⟨hgrows.trans hgrows', hq⟩

/-- What is promised of a success alone is kept where a part fails. -/
theorem bind_isOk {x : Step TypeCache α} {f : α → Step TypeCache β}
    {P : Except Error α → TypeCache → Prop} {Q : TypeCache → Prop} (hx : GrowsTo r begun x c P)
    (hok : ∀ a c', Grows r begun c c' → P (.ok a) c' →
      GrowsTo r begun (f a) c' fun answer c'' => answer.isOk → Q c'') :
    GrowsTo r begun (x >>= f) c fun answer c' => answer.isOk → Q c' :=
  hx.bind hok fun _ _ _ h => absurd h Bool.false_ne_true

end GrowsTo

end TypeCache

open TypeCache (Grows GrowsTo MayKeep Arises)

/-! ## Fields -/

/-- The type of one field of a type that is being built. -/
def fieldTypeWhile (r : Registry) (begun : List TypeKey) (key : TypeKey) (f : Field) :
    Step TypeCache TypeRef := do
  f.declareType
  match f.plainType? with
  | some type => pure type
  | none =>
    if f.embedding.isSome then
      match f.embeddedName with
      | some model =>
        if model.isEmpty || !r.has model then
          Step.fail (.embeddedModelUnknown key.model f.name (some model))
        else do
          let nested : TypeKey := ⟨model, key.kind⟩
          let _ ← typeWhile r begun nested
          pure (if f.many then .list (.model nested) else .model nested)
      | none => Step.fail (.embeddedModelUnknown key.model f.name none)
    else match f.relation with
      | some relation =>
        if f.isRelation && key.kind == .create then
          if r.has relation.target then do
            let _ ← typeWhile r begun ⟨relation.target, .create⟩
            pure (.list (.model ⟨relation.target, .create⟩))
          else Step.fail (.relationTargetUnknown key.model f.name relation.target)
        else Step.fail (.fieldTypeUnresolved key.model f.name)
      | none => Step.fail (.fieldTypeUnresolved key.model f.name)

section Fields

variable {r : Registry} {begun : List TypeKey} {key : TypeKey} {f : Field} {c : TypeCache}

theorem fieldsWhile_cons_eq (r : Registry) (begun : List TypeKey) (key : TypeKey) (f : Field)
    (rest : List Field) :
    fieldsWhile r begun key (f :: rest) = (do
      let type ← fieldTypeWhile r begun key f
      let fields ← fieldsWhile r begun key rest
      return f.toTypeField key.kind type :: fields) := by
  rw [fieldsWhile]
  unfold fieldTypeWhile
  rw [bind_assoc]
  refine bind_congr fun _ => ?_
  dsimp only
  cases f.plainType? with
  | some type => rfl
  | none =>
    dsimp only
    split
    · cases f.embeddedName with
      | none => rfl
      | some model =>
        dsimp only
        split
        · rfl
        · exact (bind_assoc ..).symm
    · cases f.relation with
      | none => rfl
      | some relation =>
        dsimp only
        split
        · split
          · exact (bind_assoc ..).symm
          · rfl
        · rfl

/-- How a field of a type that is being built comes to its type. -/
inductive FieldTyping (r : Registry) (begun : List TypeKey) (key : TypeKey) (f : Field) : Prop where
  /-- The field has its own type. -/
  | plain (shadowed : f.Shadowed) (run : fieldTypeWhile r begun key f =
      f.declareType >>= fun _ => pure (f.typeIn key.kind))
  /-- The field fails whatever was built before. -/
  | fails (e : Error) (run : fieldTypeWhile r begun key f = f.declareType >>= fun _ => Step.fail e)
  /-- The field has the one type that it nests. -/
  | nests (nested : TypeKey) (nests : f.Nests key.kind nested)
      (unique : ∀ other, f.Nests key.kind other → other = nested)
      (run : fieldTypeWhile r begun key f = f.declareType >>= fun _ =>
        typeWhile r begun nested >>= fun _ => pure (f.typeIn key.kind))

theorem fieldTyping_embedded (r : Registry) (begun : List TypeKey) (key : TypeKey)
    (shadow : f.plainType? = none) (he : f.embedding.isSome) : FieldTyping r begun key f := by
  have nests := fun nested => @Field.nests_embedded_iff f key.kind nested shadow he
  cases name : f.embeddedName with
  | none =>
    refine .fails (.embeddedModelUnknown key.model f.name none) ?_
    unfold fieldTypeWhile
    rw [shadow, if_pos he, name]
  | some model =>
    by_cases hknown : (model.isEmpty || !r.has model) = true
    · refine .fails (.embeddedModelUnknown key.model f.name (some model)) ?_
      unfold fieldTypeWhile
      rw [shadow, if_pos he, name]
      dsimp only
      rw [if_pos hknown]
    · have hempty : model ≠ "" := fun h => hknown (by rw [h]; rfl)
      refine .nests ⟨model, key.kind⟩ ((nests _).mpr ⟨model, name, hempty, rfl⟩) ?_ ?_
      · intro other h
        obtain ⟨model', hname, -, rfl⟩ := (nests other).mp h
        rw [name] at hname
        cases hname
        rfl
      · unfold fieldTypeWhile
        rw [shadow, if_pos he, name, show f.typeIn key.kind = if f.many then
          .list (.model ⟨model, key.kind⟩) else .model ⟨model, key.kind⟩ by
            simp [Field.typeIn, shadow, he, name]]
        dsimp only
        rw [if_neg hknown]

theorem fieldTyping_related (r : Registry) (begun : List TypeKey) (key : TypeKey)
    (shadow : f.plainType? = none) (he : f.embedding = none) : FieldTyping r begun key f := by
  have nests := fun nested => @Field.nests_related_iff f key.kind nested shadow he
  have hnone : ¬ f.embedding.isSome := by simp [he]
  cases relates : f.relation with
  | none =>
    refine .fails (.fieldTypeUnresolved key.model f.name) ?_
    unfold fieldTypeWhile
    rw [shadow, if_neg hnone, relates]
  | some relation =>
    by_cases hinline : (f.isRelation && key.kind == .create) = true
    · by_cases hhas : r.has relation.target
      · obtain ⟨inline, hcreate⟩ : f.isRelation = true ∧ key.kind = .create := by
          simpa using hinline
        refine .nests ⟨relation.target, .create⟩
          ((nests _).mpr ⟨hcreate, inline, relation, relates, rfl⟩) ?_ ?_
        · intro other h
          obtain ⟨-, -, relation', hother, rfl⟩ := (nests other).mp h
          rw [relates] at hother
          cases hother
          rfl
        · unfold fieldTypeWhile
          rw [shadow, if_neg hnone, relates, show f.typeIn key.kind =
            .list (.model ⟨relation.target, .create⟩) by
              simp [Field.typeIn, shadow, he, relates]]
          dsimp only
          rw [if_pos hinline, if_pos hhas]
      · refine .fails (.relationTargetUnknown key.model f.name relation.target) ?_
        unfold fieldTypeWhile
        rw [shadow, if_neg hnone, relates]
        dsimp only
        rw [if_pos hinline, if_neg hhas]
    · refine .fails (.fieldTypeUnresolved key.model f.name) ?_
      unfold fieldTypeWhile
      rw [shadow, if_neg hnone, relates]
      dsimp only
      rw [if_neg hinline]

theorem fieldTyping (r : Registry) (begun : List TypeKey) (key : TypeKey) (f : Field) :
    FieldTyping r begun key f := by
  cases shadow : f.plainType? with
  | some type =>
    refine .plain (Field.shadowed_iff.mpr (by rw [shadow]; rfl)) ?_
    unfold fieldTypeWhile
    rw [shadow, show f.typeIn key.kind = type by simp [Field.typeIn, shadow]]
  | none =>
    cases he : f.embedding with
    | some e => exact fieldTyping_embedded r begun key shadow (by rw [he]; rfl)
    | none => exact fieldTyping_related r begun key shadow he

/-- The enum that gives a field its type is declared. -/
theorem declareType_grows (hf : r.HasField f) (c : TypeCache) :
    GrowsTo r begun f.declareType c fun answer c' => answer = .ok () ∧ c'.Declares f := by
  unfold Field.declareType
  split
  · rename_i spec _ hspec
    refine ⟨.declare .refl hf hspec, rfl, fun spec' hspec' _ => ?_⟩
    rw [hspec] at hspec'
    cases hspec'
    exact ⟨_, TypeCache.find?_declare c spec⟩
  · rename_i hplain
    exact .pure ⟨rfl, fun spec hspec hnone => absurd hspec (hplain spec hnone)⟩

/-- What the type of a field is made of is there: its enum and the type that it nests. -/
structure FieldMade (c : TypeCache) (kind : TypeKind) (f : Field) : Prop where
  declared : c.Declares f
  nested : ∀ nested, f.Nests kind nested → c.Has nested

theorem FieldMade.mono {c' : TypeCache} {kind : TypeKind} (h : FieldMade c kind f) (hle : c ≤ c') :
    FieldMade c' kind f :=
  ⟨h.declared.mono hle, fun nested hnested => (h.nested nested hnested).mono hle⟩

theorem fieldTypeWhile_grows (hf : r.HasField f) (hs : Sound r c)
    (hnested : ∀ nested, f.Nests key.kind nested → ∀ c, Sound r c →
      GrowsTo r begun (typeWhile r begun nested) c fun answer c' => answer.isOk → c'.Has nested) :
    GrowsTo r begun (fieldTypeWhile r begun key f) c fun answer c' =>
      answer.isOk → FieldMade c' key.kind f := by
  have hdeclare : GrowsTo r begun f.declareType c _ := declareType_grows hf c
  cases fieldTyping r begun key f with
  | plain shadowed run =>
    rw [run]
    refine hdeclare.bind_isOk fun _ c' _ hf' => .pure fun _ => ⟨hf'.2, ?_⟩
    exact fun nested h => absurd shadowed h.not_shadowed
  | fails e run =>
    rw [run]
    exact hdeclare.bind_isOk fun _ c' _ _ => .fail fun h => absurd h Bool.false_ne_true
  | nests nested nests unique run =>
    rw [run]
    refine hdeclare.bind_isOk fun _ c' hgrows hf' => ?_
    refine (hnested nested nests c' (hgrows.sound hs)).bind_isOk fun _ c'' hgrows' hhas => ?_
    refine .pure fun _ => ⟨hf'.2.mono hgrows'.le, fun other h => ?_⟩
    rw [unique other h]
    exact hhas rfl

end Fields

/-! ## Types -/

/-- The type of a key that is neither kept nor begun. -/
def shapeWhile (r : Registry) (begun : List TypeKey) (key : TypeKey) (d : Definition) :
    Step TypeCache TypeShape :=
  match key.kind with
  | .pagination => do
    let _ ← typeWhile r (begun ++ [key]) ⟨key.model, .output⟩
    pure (pageShape key.model)
  | .filter => filterShape r key.model
  | .sort => sortShape r key.model
  | kind => do
    let fields ← Step.ofExcept (r.fieldsFor key.model kind)
    let fields ← fieldsWhile r (begun ++ [key]) ⟨key.model, kind⟩ fields
    pure ⟨key.name, kind != .output, some (Registry.describe d kind), fields⟩

section Types

variable {r : Registry} {begun : List TypeKey} {key : TypeKey} {d : Definition} {c : TypeCache}

theorem typeWhile_eq (r : Registry) (begun : List TypeKey) (key : TypeKey) (c : TypeCache) :
    typeWhile r begun key c = match c.shape? key with
      | some shape => (.ok shape, c)
      | none =>
        if key ∈ begun then (.error (.modelCycle ((begun ++ [key]).map TypeKey.model)), c)
        else match r.model? key.model with
          | none => (.error (.modelNotRegistered key.model), c)
          | some d => (do
              let shape ← shapeWhile r begun key d
              Step.modify fun cache => cache.keep key shape
              return shape) c := by
  rw [typeWhile, Step.bind_run]
  dsimp only [Step.state]
  cases c.shape? key with
  | some shape => rfl
  | none =>
    dsimp only
    by_cases hnew : key ∈ begun
    · rw [dif_pos hnew, if_pos hnew]
      rfl
    · rw [dif_neg hnew, if_neg hnew]
      obtain ⟨model, kind⟩ := key
      cases r.model? model with
      | none => cases kind <;> rfl
      | some d =>
        dsimp only
        unfold shapeWhile
        cases kind <;> dsimp only <;> simp only [bind_assoc]

/-- The fields of a type are made one after another. -/
theorem fieldsWhile_grows {fields : List Field} (hfields : ∀ f ∈ fields, r.HasField f)
    (hs : Sound r c) (hnested : ∀ f ∈ fields, ∀ nested, f.Nests key.kind nested → ∀ c, Sound r c →
      GrowsTo r begun (typeWhile r begun nested) c fun answer c' => answer.isOk → c'.Has nested) :
    GrowsTo r begun (fieldsWhile r begun key fields) c fun answer c' =>
      answer.isOk → ∀ f ∈ fields, FieldMade c' key.kind f := by
  induction fields generalizing c with
  | nil =>
    rw [fieldsWhile]
    exact .pure fun _ f hf => absurd hf List.not_mem_nil
  | cons f rest ih =>
    rw [fieldsWhile_cons_eq]
    refine (fieldTypeWhile_grows (hfields f List.mem_cons_self) hs
      (hnested f List.mem_cons_self)).bind_isOk fun type c' hgrows hmade => ?_
    refine (ih (fun g hg => hfields g (List.mem_cons_of_mem _ hg)) (hgrows.sound hs) fun g hg =>
      hnested g (List.mem_cons_of_mem _ hg)).bind_isOk fun types c'' hgrows' hrest => ?_
    refine .pure fun _ g hg => ?_
    rcases List.mem_cons.mp hg with rfl | hg
    · exact (hmade rfl).mono hgrows'.le
    · exact hrest rfl g hg

/-- A type is built from the types that it nests, with itself begun. -/
theorem typeWhile_induction (r : Registry) {P : List TypeKey → TypeKey → Prop}
    (step : ∀ begun key, (∀ d, key ∉ begun → r.model? key.model = some d →
      ∀ nested, r.Nests key nested → P (begun ++ [key]) nested) → P begun key)
    (begun : List TypeKey) (key : TypeKey) : P begun key := by
  refine typeWhile.induct r P
    (fun begun key fields => ∀ f ∈ fields, ∀ nested, f.Nests key.kind nested → P begun nested)
    ?_ ?_ ?_ begun key
  · intro begun key houtput hfields
    refine step begun key fun d new registered nested h => ?_
    obtain ⟨model, kind⟩ := key
    cases h with
    | page => exact houtput new d registered
    | field _ _ hf nests => exact hfields new d registered kind _ _ hf nested nests
  · exact fun begun key f hf => absurd hf List.not_mem_nil
  · rintro begun ⟨model, kind⟩ f rest ih hmodel htarget g hg nested h
    rcases List.mem_cons.mp hg with rfl | hg
    · cases h with
      | embedded => exact hmodel _
      | related => exact htarget _
    · exact ih g hg nested h

theorem shapeWhile_fields {model : String} {kind : TypeKind} {fields : List Field}
    (hkind : kind.OfFields) (hfields : r.fieldsFor model kind = .ok fields) (d : Definition) :
    shapeWhile r begun ⟨model, kind⟩ d = (do
      let types ← fieldsWhile r (begun ++ [⟨model, kind⟩]) ⟨model, kind⟩ fields
      pure ⟨kind.typeName model, kind != .output, some (Registry.describe d kind), types⟩) := by
  rcases hkind with rfl | rfl | rfl <;>
  · unfold shapeWhile
    dsimp only
    rw [hfields]
    rfl

/-- What the type of a key is made of is there, and its filter can be built. -/
structure Made (r : Registry) (c : TypeCache) (key : TypeKey) : Prop where
  nested : ∀ nested, r.Nests key nested → c.Has nested
  declared : ∀ f, r.PartOf key f → c.Declares f
  filter : key.kind = .filter → ∃ c₀, (filterShape r key.model c₀).1.isOk

theorem filterShape_grows {model : String} (hd : r.model? model = some d) (c : TypeCache) :
    GrowsTo r begun (filterShape r model) c fun answer c' =>
      answer.isOk → ∀ f, r.PartOf ⟨model, .filter⟩ f → c'.Declares f := by
  obtain ⟨scalars, hscalars⟩ := Registry.scalarFields_ok hd
  have hfield : ∀ f ∈ scalars.filter Field.filterable, ∀ c,
      GrowsTo r begun (filterField model f) c fun _ c' => c'.Declares f := by
    intro f hf c
    have hdeclared : r.HasField f :=
      ⟨model, Registry.mem_of_scalarFields hscalars (List.mem_filter.mp hf).1⟩
    refine (declareType_grows hdeclared c).bind (fun _ c' _ hf' => ?_) fun _ _ h => nomatch h.1
    split
    · exact .fail hf'.2
    split
    · exact .fail hf'.2
    · exact .pure hf'.2
  have heach : ∀ fields : List Field, fields ⊆ scalars.filter Field.filterable → ∀ c,
      GrowsTo r begun (Step.each (filterField model) fields) c fun answer c' =>
        answer.isOk → ∀ f ∈ fields, c'.Declares f := by
    intro fields
    induction fields with
    | nil => exact fun _ _ => .pure fun _ f hf => absurd hf List.not_mem_nil
    | cons f fields ih =>
      intro hsub c
      refine (hfield f (hsub List.mem_cons_self) c).bind_isOk fun _ c' _ hf' => ?_
      refine (ih (fun g hg => hsub (List.mem_cons_of_mem _ hg)) c').bind_isOk
        fun _ c'' hgrows hrest => .pure fun _ g hg => ?_
      rcases List.mem_cons.mp hg with rfl | hg
      · exact hf'.mono hgrows.le
      · exact hrest rfl g hg
  unfold filterShape
  rw [hscalars]
  refine (heach _ (List.Subset.refl _) c).bind_isOk fun _ c' _ hall => .pure fun _ f hf => ?_
  cases hf with
  | field hkind => rcases hkind with h | h | h <;> cases h
  | condition hscalars' hf hfilter =>
    rw [hscalars] at hscalars'
    cases hscalars'
    exact hall rfl f (List.mem_filter.mpr ⟨hf, hfilter⟩)

/-- A type of fields is built after the types of its fields. -/
theorem shapeWhile_fields_grows {model : String} {kind : TypeKind} (hs : Sound r c)
    (hd : r.model? model = some d) (hkind : kind.OfFields)
    (hnested : ∀ nested, r.Nests ⟨model, kind⟩ nested → ∀ c, Sound r c →
      GrowsTo r (begun ++ [⟨model, kind⟩]) (typeWhile r (begun ++ [⟨model, kind⟩]) nested) c
        fun answer c' => answer.isOk → c'.Has nested) :
    GrowsTo r (begun ++ [⟨model, kind⟩]) (shapeWhile r begun ⟨model, kind⟩ d) c fun answer c' =>
      answer.isOk → Made r c' ⟨model, kind⟩ := by
  obtain ⟨fields, hfields⟩ := Registry.fieldsFor_ok hd kind
  rw [shapeWhile_fields hkind hfields]
  refine (fieldsWhile_grows (fun f hf => ⟨model, Registry.mem_of_fieldsFor hfields hf⟩) hs
    fun f hf nested h => hnested nested (.field hkind hfields hf h)).bind_isOk
    fun types c' _ hmade => .pure fun _ => ⟨fun nested h => ?_, fun f h => ?_, fun h => ?_⟩
  · cases h with
    | page => rcases hkind with h | h | h <;> cases h
    | field _ hfields' hf nests =>
      rw [hfields] at hfields'
      cases hfields'
      exact (hmade rfl _ hf).nested nested nests
  · cases h with
    | field _ hfields' hf =>
      rw [hfields] at hfields'
      cases hfields'
      exact (hmade rfl f hf).declared
    | condition => rcases hkind with h | h | h <;> cases h
  · obtain rfl : kind = .filter := h
    rcases hkind with h | h | h <;> cases h

/-- A filter and a sort order are not made of other types. -/
theorem not_nests {model : String} {kind : TypeKind} (hkind : kind = .filter ∨ kind = .sort)
    (nested : TypeKey) : ¬ r.Nests ⟨model, kind⟩ nested := by
  intro h
  cases h with
  | page => rcases hkind with h | h <;> cases h
  | field hof => rcases hkind with rfl | rfl <;> rcases hof with h | h | h <;> cases h

/-- The type of a key is built after what it is made of. -/
theorem shapeWhile_grows (hs : Sound r c) (hd : r.model? key.model = some d)
    (hnested : ∀ nested, r.Nests key nested → ∀ c, Sound r c →
      GrowsTo r (begun ++ [key]) (typeWhile r (begun ++ [key]) nested) c fun answer c' =>
        answer.isOk → c'.Has nested) :
    GrowsTo r (begun ++ [key]) (shapeWhile r begun key d) c fun answer c' =>
      answer.isOk → Made r c' key := by
  obtain ⟨model, kind⟩ := key
  cases kind with
  | output => exact shapeWhile_fields_grows hs hd (Or.inl rfl) hnested
  | create => exact shapeWhile_fields_grows hs hd (Or.inr (Or.inl rfl)) hnested
  | update => exact shapeWhile_fields_grows hs hd (Or.inr (Or.inr rfl)) hnested
  | pagination =>
    refine (hnested _ .page c hs).bind_isOk fun _ c' _ hhas => .pure fun _ =>
      ⟨fun nested h => ?_, fun f h => ?_, fun h => by cases h⟩
    · cases h with
      | page => exact hhas rfl
      | field hkind => rcases hkind with h | h | h <;> cases h
    · cases h with
      | field hkind => rcases hkind with h | h | h <;> cases h
  | filter =>
    have hfilter : GrowsTo r (begun ++ [⟨model, .filter⟩]) (filterShape r model) c _ :=
      filterShape_grows hd c
    refine ⟨hfilter.1, fun hok => ⟨?_, hfilter.2 hok, fun _ => ⟨c, hok⟩⟩⟩
    exact fun nested h => absurd h (not_nests (Or.inl rfl) nested)
  | sort =>
    obtain ⟨scalars, hscalars⟩ := Registry.scalarFields_ok hd
    unfold shapeWhile sortShape
    dsimp only
    rw [hscalars]
    refine ⟨.refl, fun _ => ⟨fun nested h => absurd h (not_nests (Or.inr rfl) nested),
      fun f h => ?_, fun h => by cases h⟩⟩
    cases h with
    | field hkind => rcases hkind with h | h | h <;> cases h

/-- Building a type only declares the enums of fields and keeps types, and at its end the type is
kept. -/
theorem typeWhile_grows (r : Registry) (begun : List TypeKey) (key : TypeKey) :
    ∀ c, Sound r c → GrowsTo r begun (typeWhile r begun key) c fun answer c' =>
      answer.isOk → c'.Has key := by
  induction begun, key using typeWhile_induction r with | step begun key hnested
  intro c hs
  refine ⟨?_, (typeWhile_has r begun key hs).2.2⟩
  obtain ⟨-, -, hanswer⟩ := typeWhile_builds r begun key c hs
  rw [typeWhile_eq] at hanswer ⊢
  cases cached : c.shape? key with
  | some shape => exact .refl
  | none =>
    dsimp only
    rw [cached] at hanswer
    dsimp only at hanswer
    by_cases new : key ∈ begun
    · rw [if_pos new]
      exact .refl
    rw [if_neg new] at hanswer ⊢
    cases registered : r.model? key.model with
    | none => exact .refl
    | some d =>
      rw [registered] at hanswer
      dsimp only at hanswer ⊢
      obtain ⟨hgrows, hmade⟩ := shapeWhile_grows hs registered (hnested d new registered)
      rw [Step.bind_run] at hanswer ⊢
      rcases hbuilt : shapeWhile r begun key d c with ⟨e | shape, c'⟩
      · rw [hbuilt] at hgrows
        exact hgrows.weaken (List.subset_append_left _ _)
      · rw [hbuilt] at hgrows hmade hanswer
        obtain ⟨buildable, rfl, -⟩ := hanswer
        have hmade := hmade rfl
        have hnew := hgrows.spares (List.mem_append_right _ List.mem_cons_self) cached
        exact (hgrows.weaken (List.subset_append_left _ _)).keep
          ⟨new, hnew, buildable, hmade.nested, hmade.declared, hmade.filter⟩

end Types

end DocumentApi
