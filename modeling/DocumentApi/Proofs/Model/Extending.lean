import DocumentApi.Proofs.Model.Reachable
import Mathlib.Data.List.Basic

/-!
# What a registration keeps

A registration that fails half way leaves what it had stored. Whether it fails or not, a registry
only grows: models stay where they were entered, with their definitions and the fields they had.

* `Registry.Extends`: what a registry keeps of an earlier one. `register_extends` and
  `addField_extends` follow from what each step of a registration does.
* `Registry.Listable`: fields that a model can list, of which names are distinct identifiers.
* `Registry.registerWithin`: the registration of a definition as calls nested in each other.
  `registerWithin_eq`: they nest no deeper than there are definitions to register.
* `Registry.Reachable.calls_extend`: all of it for every registry that comes about.
-/

namespace DocumentApi

namespace Table

variable {α : Type}

/-- An entry stays where it is when a name is set, unless it is the one of that name. -/
theorem getElem?_set {t : Table α} {i : Nat} {entry : String × α} (h : t[i]? = some entry)
    (key : String) (a : α) :
    (set t key a)[i]? = some entry ∨
      entry.1 = key ∧ find? t key = some entry.2 ∧ (set t key a)[i]? = some (key, a) := by
  induction t generalizing i with
  | nil => simp at h
  | cons first t ih =>
    unfold set
    by_cases hname : first.1 = key
    · rw [if_pos hname, find?_cons, if_pos hname]
      cases i with
      | zero =>
        obtain rfl : first = entry := by simpa using h
        exact .inr ⟨hname, rfl, by simp [hname]⟩
      | succ i => exact .inl (by simpa using h)
    · rw [if_neg hname, find?_cons, if_neg hname]
      cases i with
      | zero => exact .inl (by simpa using h)
      | succ i => simpa using ih (by simpa using h)

end Table

/-- A definition as it was, but that it may have become one embedded in others. -/
def Definition.Raised (d d' : Definition) : Prop := d' = d ∨ d' = { d with embedded := true }

namespace Definition.Raised

variable {d d' d'' : Definition}

theorem refl (d : Definition) : d.Raised d := .inl rfl

theorem trans (h : d.Raised d') (h' : d'.Raised d'') : d.Raised d'' := by
  rcases h with rfl | rfl
  · exact h'
  · rcases h' with rfl | rfl <;> exact .inr rfl

theorem name_eq (h : d.Raised d') : d'.name = d.name := by
  rcases h with rfl | rfl <;> rfl

theorem fields_eq (h : d.Raised d') : d'.fields = d.fields := by
  rcases h with rfl | rfl <;> rfl

theorem declaredFields_eq (h : d.Raised d') : d'.declaredFields = d.declaredFields := by
  unfold declaredFields
  rw [h.fields_eq]

theorem embedded (h : d.Raised d') (hd : d.embedded = true) : d'.embedded = true := by
  rcases h with rfl | rfl
  · exact hd
  · rfl

end Definition.Raised

namespace Registry

/-- A model as it was entered, with further fields behind those it had. -/
structure Kept (entry later : String × Registration) : Prop where
  name : later.1 = entry.1
  place : later.2.place = entry.2.place
  fields : entry.2.fields <+: later.2.fields

theorem Kept.refl (entry : String × Registration) : Kept entry entry :=
  ⟨rfl, rfl, List.prefix_refl _⟩

/-- Every definition and every model stays where it is; others may have come behind them. -/
structure Extends (r s : Registry) : Prop where
  definitions : ∀ (place : Nat) (d : Definition), r.definitions[place]? = some d →
    ∃ d', s.definitions[place]? = some d' ∧ d.Raised d'
  models : ∀ (i : Nat) (entry : String × Registration), r.models[i]? = some entry →
    ∃ later, s.models[i]? = some later ∧ Kept entry later

variable {r s t : Registry}

namespace Extends

theorem refl (r : Registry) : r.Extends r :=
  ⟨fun _ d hd => ⟨d, hd, .refl d⟩, fun _ entry h => ⟨entry, h, .refl entry⟩⟩

theorem trans (h : r.Extends s) (h' : s.Extends t) : r.Extends t := by
  refine ⟨fun place d hd => ?_, fun i entry hentry => ?_⟩
  · obtain ⟨d', hd', hraised⟩ := h.definitions place d hd
    obtain ⟨d'', hd'', hraised'⟩ := h'.definitions place d' hd'
    exact ⟨d'', hd'', hraised.trans hraised'⟩
  · obtain ⟨later, hlater, hkept⟩ := h.models i entry hentry
    obtain ⟨last, hlast, hkept'⟩ := h'.models i later hlater
    exact ⟨last, hlast, hkept'.name.trans hkept.name, hkept'.place.trans hkept.place,
      hkept.fields.trans hkept'.fields⟩

/-- The names of the models keep their order. -/
theorem names (h : r.Extends s) : Table.names r.models <+: Table.names s.models := by
  rw [List.prefix_iff_getElem?]
  intro i hi
  unfold Table.names at hi ⊢
  rw [List.length_map] at hi
  obtain ⟨later, hlater, hkept⟩ := h.models i _ (List.getElem?_eq_getElem hi)
  rw [List.getElem?_map, hlater, List.getElem_map]
  exact congrArg some hkept.name

/-- A model keeps its definition and the fields that it had. -/
theorem find? (h : r.Extends s) (hs : s.Named) {model : String} {m : Registration}
    (hm : Table.find? r.models model = some m) :
    ∃ m', Table.find? s.models model = some m' ∧ m'.place = m.place ∧ m.fields <+: m'.fields := by
  obtain ⟨i, hi, hentry⟩ := List.getElem_of_mem (Table.mem_of_find? hm)
  obtain ⟨⟨name, m'⟩, hlater, hkept⟩ := h.models i _ (List.getElem?_eq_some_iff.mpr ⟨hi, hentry⟩)
  obtain rfl : name = model := hkept.name
  exact ⟨m', Table.find?_of_mem hs.names (List.mem_of_getElem? hlater), hkept.place, hkept.fields⟩

/-- The models that are listed keep their order. -/
theorem registered (h : r.Extends s) (hr : r.Named) (hs : s.Named) :
    r.registered.map Definition.name <+: s.registered.map Definition.name := by
  have hnames : ∀ u : Registry, u.Named →
      u.registered.map Definition.name = Table.names u.models := by
    intro u hu
    unfold Registry.registered Table.names
    rw [List.map_filterMap, ← List.filterMap_eq_map]
    refine List.filterMap_congr fun entry hentry => ?_
    obtain ⟨d, hd, hname⟩ := hu.defined entry hentry
    simp [hd, hname]
  rw [hnames r hr, hnames s hs]
  exact h.names

end Extends

/-! ## The steps of a registration -/

theorem define_extends (r : Registry) (d : Definition) : r.Extends (r.define d).1 := by
  refine ⟨fun place d' hd' => ⟨d', ?_, .refl d'⟩, (Extends.refl r).models⟩
  unfold define
  rw [List.getElem?_append_left (List.getElem?_eq_some_iff.mp hd').1, hd']

theorem markEmbedded_extends (r : Registry) (place : Nat) : r.Extends (r.markEmbedded place) := by
  refine ⟨fun other d hd => ?_, (Extends.refl r).models⟩
  unfold markEmbedded
  rw [List.getElem?_modify, hd]
  by_cases hplace : place = other
  · exact ⟨{ d with embedded := true }, by simp [hplace], .inr rfl⟩
  · exact ⟨d, by simp [hplace], .refl d⟩

theorem enter_extends {model : String} (hnew : Table.find? r.models model = none)
    (m : Registration) : r.Extends { r with models := Table.set r.models model m } := by
  refine ⟨(Extends.refl r).definitions, fun i entry hentry => ?_⟩
  rcases Table.getElem?_set hentry model m with h | ⟨-, hold, -⟩
  · exact ⟨entry, h, .refl entry⟩
  · rw [hnew] at hold
    cases hold

theorem addField_extends {model : String} {f : Field} (h : r.addField model f = .ok s) :
    r.Extends s := by
  unfold addField at h
  split at h
  · cases h
  rename_i m hm
  split at h
  · cases h
  split at h
  · cases h
  cases h
  refine ⟨(Extends.refl r).definitions, fun i entry hentry => ?_⟩
  rcases Table.getElem?_set hentry model { m with fields := m.fields ++ [f] } with
    h | ⟨hname, hold, h⟩
  · exact ⟨entry, h, .refl entry⟩
  · rw [hm] at hold
    obtain rfl := Option.some.inj hold
    exact ⟨_, h, hname.symm, rfl, List.prefix_append _ _⟩

theorem addFields_extends (r : Registry) (model : String) (fields : List Field) :
    r.Extends (r.addFields model fields).1 := by
  induction fields generalizing r with
  | nil => exact .refl r
  | cons f rest ih =>
    unfold addFields
    split
    · rename_i s hs
      exact (addField_extends hs).trans (ih s)
    · exact .refl r

theorem registerOne_extends (r : Registry) (place : Nat) : r.Extends (r.registerOne place).1 := by
  unfold registerOne
  split
  · exact .refl r
  rename_i d hd
  split
  · exact .refl r
  split
  · split <;> exact .refl r
  rename_i hnew
  have hadd := (enter_extends hnew ⟨place, []⟩).trans (addFields_extends _ d.name d.declaredFields)
  dsimp only
  split
  · rename_i hs; rw [hs] at hadd; exact hadd
  · rename_i hs; rw [hs] at hadd; exact hadd

theorem registerEmbedded_extends (r : Registry) (work : List Nat) :
    r.Extends (r.registerEmbedded work).1 := by
  fun_induction registerEmbedded r work with
  | case1 r => exact .refl r
  | case2 r place rest s places hs ih =>
    have hone := registerOne_extends (r.markEmbedded place) place
    rw [hs] at hone
    exact ((markEmbedded_extends r place).trans hone).trans ih
  | case3 r place rest s e hs =>
    have hone := registerOne_extends (r.markEmbedded place) place
    rw [hs] at hone
    exact (markEmbedded_extends r place).trans hone

/-- A registration keeps what was registered, whether it succeeds or not. -/
theorem register_extends (r : Registry) (place : Nat) : r.Extends (r.register place).1 := by
  have hone := registerOne_extends r place
  unfold register
  split
  · rename_i s places hs
    rw [hs] at hone
    exact hone.trans (registerEmbedded_extends s places)
  · rename_i s e hs
    rw [hs] at hone
    exact hone

/-! ## Calls -/

/-- A call that registers a definition or adds a field to a model. -/
inductive Call where
  | register (place : Nat)
  | addField (model : String) (f : Field)

/-- The registry that a call leaves, and how the call ends. -/
def call (r : Registry) : Call → Registry × Except Error Unit
  | .register place => r.register place
  | .addField model f => match r.addField model f with
    | .ok s => (s, .ok ())
    | .error e => (r, .error e)

theorem call_extends (r : Registry) (c : Call) : r.Extends (r.call c).1 := by
  cases c with
  | register place => exact register_extends r place
  | addField model f =>
    unfold call
    dsimp only
    split
    · rename_i s hs
      exact addField_extends hs
    · exact .refl r

theorem Reachable.call (hr : r.Reachable) (c : Call) : (r.call c).1.Reachable := by
  cases c with
  | register place => exact hr.register place
  | addField model f =>
    unfold Registry.call
    dsimp only
    split
    · rename_i s hs
      exact hr.addField hs
    · exact hr

/-! ## Names -/

/-- Fields that a model can list: their names are identifiers, and no two are the same. -/
structure Listable (fields : List Field) : Prop where
  distinct : (fields.map Field.name).Nodup
  identifiers : ∀ f ∈ fields, isIdentifier f.name = true

theorem Listable.nil : Listable [] :=
  ⟨List.nodup_nil, fun _ h => absurd h List.not_mem_nil⟩

theorem Listable.of_prefix {fields more : List Field} (h : Listable more) (hp : fields <+: more) :
    Listable fields :=
  ⟨h.distinct.sublist (hp.sublist.map _), fun f hf => h.identifiers f (hp.subset hf)⟩

/-- A field is added to a model exactly if the model can list it behind its others. -/
theorem addField_iff {model : String} {m : Registration} {f : Field}
    (hm : Table.find? r.models model = some m) (hfields : Listable m.fields) :
    r.addField model f = .ok s ↔ Listable (m.fields ++ [f]) ∧
      s = { r with models := Table.set r.models model { m with fields := m.fields ++ [f] } } := by
  have hlistable : Listable (m.fields ++ [f]) ↔
      isIdentifier f.name = true ∧ m.fields.any (fun g => g.name == f.name) = false := by
    constructor
    · rintro ⟨hdistinct, hids⟩
      refine ⟨hids f (by simp), ?_⟩
      rw [List.map_append, List.nodup_append] at hdistinct
      simpa using fun (g : Field) hg =>
        hdistinct.2.2 g.name (List.mem_map_of_mem hg) f.name (by simp)
    · rintro ⟨hid, hnew⟩
      refine ⟨?_, fun g hg => ?_⟩
      · rw [List.map_append, List.nodup_append]
        refine ⟨hfields.distinct, by simp, ?_⟩
        simpa using hnew
      · rcases List.mem_append.mp hg with hg | hg
        · exact hfields.identifiers g hg
        · rw [List.mem_singleton.mp hg]
          exact hid
  rw [hlistable]
  unfold addField
  rw [hm]
  dsimp only
  cases isIdentifier f.name with
  | false => simp
  | true =>
    cases m.fields.any (fun g => g.name == f.name) with
    | true => simp
    | false => simp [eq_comm]

/-- Each model is named by an identifier and lists its fields. -/
def Lists (r : Registry) : Prop :=
  ∀ model m, Table.find? r.models model = some m → isIdentifier model = true ∧ Listable m.fields

theorem Lists.set {model : String} {m : Registration} (hr : r.Lists)
    (hmodel : isIdentifier model = true) (hm : Listable m.fields) :
    Lists { r with models := Table.set r.models model m } := by
  intro other m' hm'
  dsimp only at hm'
  rw [Table.find?_set] at hm'
  split at hm'
  · rename_i heq
    cases hm'
    exact ⟨heq ▸ hmodel, hm⟩
  · exact hr other m' hm'

theorem Lists.addField {model : String} {f : Field} (hr : r.Lists)
    (h : r.addField model f = .ok s) : s.Lists := by
  cases hm : Table.find? r.models model with
  | none => simp [Registry.addField, hm] at h
  | some m =>
    obtain ⟨hmodel, hfields⟩ := hr model m hm
    obtain ⟨hlistable, rfl⟩ := (addField_iff hm hfields).mp h
    exact hr.set (m := { m with fields := m.fields ++ [f] }) hmodel hlistable

theorem Reachable.lists (hr : r.Reachable) : r.Lists := by
  refine Invariant.holds ⟨fun model m h => ?_, fun _ h => h, fun _ h => h,
    fun _ hname _ h => h.set (m := ⟨_, []⟩) hname .nil, fun hs h => h.addField hs⟩ hr
  cases h

/-! ## Nested calls -/

theorem registerEmbedded_cons (r : Registry) (place : Nat) (rest : List Nat) :
    r.registerEmbedded (place :: rest) = match (r.markEmbedded place).registerOne place with
      | (s, .ok places) => s.registerEmbedded (places ++ rest)
      | (s, .error e) => (s, .error e) := by
  rw [registerEmbedded]
  split <;> rename_i hs <;> rw [hs]

/-- Definitions are registered in a row. -/
theorem registerEmbedded_append (r : Registry) (front rest : List Nat) :
    r.registerEmbedded (front ++ rest) = match r.registerEmbedded front with
      | (s, .ok ()) => s.registerEmbedded rest
      | (s, .error e) => (s, .error e) := by
  fun_induction registerEmbedded r front with
  | case1 r => rfl
  | case2 r place front s places hs ih =>
    rw [List.cons_append, registerEmbedded_cons, hs]
    dsimp only
    rw [← List.append_assoc, ih]
  | case3 r place front s e hs => rw [List.cons_append, registerEmbedded_cons, hs]

/-- A definition is registered with all that it embeds before the next one is. -/
theorem registerEmbedded_cons_register (r : Registry) (place : Nat) (rest : List Nat) :
    r.registerEmbedded (place :: rest) = match (r.markEmbedded place).register place with
      | (s, .ok ()) => s.registerEmbedded rest
      | (s, .error e) => (s, .error e) := by
  rw [registerEmbedded_cons]
  unfold register
  rcases (r.markEmbedded place).registerOne place with ⟨s, e | places⟩
  · rfl
  · exact registerEmbedded_append s places rest

/-- A registration leaves no more to register than there was. -/
theorem pending_registerEmbedded {work : List Nat} (h : r.registerEmbedded work = (s, .ok ())) :
    s.pending ≤ r.pending := by
  fun_induction registerEmbedded r work with
  | case1 r =>
    cases h
    exact Nat.le_refl _
  | case2 r place rest u places hu ih =>
    have hle := ih h
    have hmark := pending_markEmbedded r place
    rcases pending_registerOne hu with hlt | ⟨rfl, -⟩ <;> omega
  | case3 r place rest u e hu => cases h

theorem pending_register {place : Nat} (h : r.register place = (s, .ok ())) :
    s.pending ≤ r.pending := by
  unfold register at h
  split at h
  · rename_i u places hu
    have hle := pending_registerEmbedded h
    rcases pending_registerOne hu with hlt | ⟨rfl, -⟩ <;> omega
  · cases h

/-- Calls for the definitions that a model embeds, up to the first that fails or does not end. -/
def registerEach (nested : Registry → Nat → Option (Registry × Except Error Unit)) (r : Registry) :
    List Nat → Option (Registry × Except Error Unit)
  | [] => some (r, .ok ())
  | place :: rest => match nested (r.markEmbedded place) place with
    | some (s, .ok ()) => registerEach nested s rest
    | ended => ended

/-- The registration of a definition as calls that are nested in each other, for a definition in a
field by the call for the one that it is embedded in. No result when more than `depth` of them would
be open at once. -/
def registerWithin : Nat → Registry → Nat → Option (Registry × Except Error Unit)
  | 0, _, _ => none
  | depth + 1, r, place => match r.registerOne place with
    | (s, .ok places) => registerEach (registerWithin depth) s places
    | (s, .error e) => some (s, .error e)

theorem registerEach_eq {nested : Registry → Nat → Option (Registry × Except Error Unit)}
    {depth : Nat} (h : ∀ s place, s.pending < depth → nested s place = some (s.register place))
    (hr : r.pending < depth) (places : List Nat) :
    registerEach nested r places = some (r.registerEmbedded places) := by
  induction places generalizing r with
  | nil =>
    rw [registerEmbedded]
    rfl
  | cons place rest ih =>
    have hmark := pending_markEmbedded r place
    unfold registerEach
    rw [registerEmbedded_cons_register, h _ place (by omega)]
    rcases hs : (r.markEmbedded place).register place with ⟨s, e | answer⟩
    · rfl
    · have hle := pending_register hs
      exact ih (by omega)

/-- Every registration ends, also of definitions that embed each other: of its calls no more are
open at once than there are definitions to register, and one that finds its own registered. -/
theorem registerWithin_eq {depth : Nat} (hr : r.pending < depth) (place : Nat) :
    registerWithin depth r place = some (r.register place) := by
  induction depth generalizing r place with
  | zero => omega
  | succ depth ih =>
    unfold registerWithin register
    rcases hs : r.registerOne place with ⟨s, e | places⟩
    · rfl
    · dsimp only
      rcases pending_registerOne hs with hlt | ⟨rfl, rfl⟩
      · exact registerEach_eq (fun u place hu => ih hu place) (by omega) places
      · rw [registerEmbedded]
        rfl

/-- A registration that was followed through its nested calls. -/
theorem register_of_within {depth place : Nat} {answer : Registry × Except Error Unit}
    (hr : r.pending < depth) (h : registerWithin depth r place = some answer) :
    r.register place = answer :=
  Option.some.inj ((registerWithin_eq hr place).symm.trans h)

/-! ## Every registry -/

/-- In a registry that comes about the models with fields are those that are registered, models and
fields are named by identifiers, and no two fields of a model alike. Every call ends and keeps what
was registered, whether it succeeds or fails half way. -/
theorem Reachable.calls_extend (hr : r.Reachable) :
    (∀ model, (∃ fields, r.fieldsOf model = .ok fields) ↔ ∃ d, r.model? model = some d) ∧
    (∀ model d, r.model? model = some d → d.name = model ∧ isIdentifier model = true) ∧
    (∀ model fields, r.fieldsOf model = .ok fields → Listable fields) ∧
    (∀ c, r.Extends (r.call c).1 ∧
      r.registered.map Definition.name <+: (r.call c).1.registered.map Definition.name) ∧
    ∀ place depth, r.pending < depth → registerWithin depth r place = some (r.register place) := by
  have hfields : ∀ {model fields}, r.fieldsOf model = .ok fields ↔
      ∃ m, Table.find? r.models model = some m ∧ m.fields = fields := by
    intro model fields
    unfold Registry.fieldsOf
    cases Table.find? r.models model <;> simp
  refine ⟨fun model => ⟨?_, ?_⟩, fun model d hd => ?_, fun model fields h => ?_, fun c => ?_,
    fun place depth h => registerWithin_eq h place⟩
  · rintro ⟨fields, h⟩
    obtain ⟨m, hm, -⟩ := hfields.mp h
    obtain ⟨d, hd, -⟩ := hr.named.defined _ (Table.mem_of_find? hm)
    exact ⟨d, by unfold Registry.model?; rw [hm]; exact hd⟩
  · rintro ⟨d, hd⟩
    obtain ⟨m, hm, -⟩ := Option.bind_eq_some_iff.mp hd
    exact ⟨m.fields, hfields.mpr ⟨m, hm, rfl⟩⟩
  · obtain ⟨m, hm, -⟩ := Option.bind_eq_some_iff.mp hd
    exact ⟨(hr.named.of_model? hd).1, (hr.lists model m hm).1⟩
  · obtain ⟨m, hm, rfl⟩ := hfields.mp h
    exact (hr.lists model m hm).2
  · have hextends := call_extends r c
    exact ⟨hextends, hextends.registered hr.named (hr.call c).named⟩

/-! ## Nodes and branches -/

/-- A field that embeds a document of the definition at `place`. -/
def embeddedAt (name : String) (place : Nat) (model : String) : Field :=
  { name
    storageType := "object"
    embedding := some (.defined place model) }

/-- A node, which embeds a branch: the definition behind its own. -/
def nodeModel : Definition :=
  ⟨"Node", [{ name := "label" }, embeddedAt "branch" 1 "Branch"], .all, false, "", false, none⟩

/-- A branch, which embeds a node. It has a field whose name is refused. -/
def branchModel : Definition :=
  ⟨"Branch", [embeddedAt "node" 0 "Node", { name := "not-valid" }], .all, false, "", false, none⟩

def nodeModels : Registry where
  definitions := [nodeModel, branchModel]

/-- What the registration of nodes leaves when it fails in a branch. -/
def halfNodes : Registry where
  definitions := [nodeModel, { branchModel with embedded := true }]
  models := [("Node", ⟨0, nodeModel.declaredFields⟩),
    ("Branch", ⟨1, branchModel.declaredFields.take 2⟩)]

theorem nodeModels_register :
    nodeModels.register 0 = (halfNodes, .error (.fieldNameInvalid "Branch" "not-valid")) :=
  register_of_within (show nodeModels.pending < 3 by decide) rfl

/-- A branch that was registered in part lists what it has, and no call takes it away. -/
theorem halfNodes_calls_extend : halfNodes.Reachable ∧
    halfNodes.fieldsOf "Branch" = .ok (branchModel.declaredFields.take 2) ∧
    Listable (branchModel.declaredFields.take 2) ∧
    (∀ c, halfNodes.Extends (halfNodes.call c).1) ∧
    registerWithin 1 halfNodes 0 = some (halfNodes.register 0) := by
  have hr : halfNodes.Reachable := by
    have hregistered := ((Reachable.empty.define nodeModel).define branchModel).register 0
    rwa [show ((define {} nodeModel).1.define branchModel).1 = nodeModels from rfl,
      nodeModels_register] at hregistered
  obtain ⟨-, -, hfields, hcalls, hends⟩ := hr.calls_extend
  exact ⟨hr, rfl, hfields "Branch" _ rfl, fun c => (hcalls c).1, hends 0 1 (by decide)⟩

end Registry

end DocumentApi
