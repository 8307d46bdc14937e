import DocumentApi.Model.Registry
import DocumentApi.Proofs.Tables
import DocumentApi.Value.Weight
import Mathlib.Data.List.Induction

/-!
# Registries that come about

* `Registry.Reachable`: the registries that definitions, registrations and added fields lead to,
  with what a registration that fails half way leaves.
* `Invariant.holds`: what each step of a registration keeps holds of these registries.
* `Reachable.distinct`: no model of such a registry has two fields of one name.
* `Reachable.named`: a model is entered under the name of its definition.
* `Reachable.defined`, `Reachable.registered`: definitions, and their registrations one by one.
-/

namespace DocumentApi

namespace Registry

/-- What registering models leads to. -/
inductive Reachable : Registry → Prop
  | empty : Reachable {}
  | define {r : Registry} (hr : Reachable r) (d : Definition) : Reachable (r.define d).1
  | register {r : Registry} (hr : Reachable r) (place : Nat) : Reachable (r.register place).1
  | addField {r s : Registry} {model : String} {f : Field} (hr : Reachable r)
      (hs : r.addField model f = .ok s) : Reachable s

variable {r s : Registry}

/-! ## Invariants of registering -/

/-- What each step of a registration keeps. -/
structure Invariant (P : Registry → Prop) : Prop where
  empty : P {}
  define : ∀ {r : Registry} (d : Definition), P r → P (r.define d).1
  mark : ∀ {r : Registry} (place : Nat), P r → P (r.markEmbedded place)
  /-- A definition of a new name is entered without fields. -/
  enter : ∀ {r : Registry} {place : Nat} {d : Definition}, r.definitions[place]? = some d →
    isIdentifier d.name = true → Table.find? r.models d.name = none → P r →
    P { r with models := Table.set r.models d.name ⟨place, []⟩ }
  addField : ∀ {r s : Registry} {model : String} {f : Field}, r.addField model f = .ok s →
    P r → P s

namespace Invariant

variable {P : Registry → Prop}

theorem addFields (hP : Invariant P) (hr : P r) (model : String) (fields : List Field) :
    P (r.addFields model fields).1 := by
  induction fields generalizing r with
  | nil => exact hr
  | cons f rest ih =>
    unfold Registry.addFields
    split
    · rename_i s hs
      exact ih (hP.addField hs hr)
    · exact hr

theorem registerOne (hP : Invariant P) (hr : P r) (place : Nat) : P (r.registerOne place).1 := by
  unfold Registry.registerOne
  split
  · exact hr
  rename_i d hd
  split
  · exact hr
  rename_i hname
  split
  · split <;> exact hr
  rename_i hnew
  have hadd := hP.addFields (hP.enter hd (by simpa using hname) hnew hr) d.name d.declaredFields
  dsimp only
  split
  · rename_i hs; rw [hs] at hadd; exact hadd
  · rename_i hs; rw [hs] at hadd; exact hadd

theorem registerEmbedded (hP : Invariant P) (hr : P r) (places : List Nat) :
    P (r.registerEmbedded places).1 := by
  fun_induction Registry.registerEmbedded r places with
  | case1 => exact hr
  | case2 r place rest s places hs ih =>
    have hone := hP.registerOne (hP.mark place hr) place
    rw [hs] at hone
    exact ih hone
  | case3 r place rest s e hs =>
    have hone := hP.registerOne (hP.mark place hr) place
    rw [hs] at hone
    exact hone

theorem register (hP : Invariant P) (hr : P r) (place : Nat) : P (r.register place).1 := by
  have hone := hP.registerOne hr place
  unfold Registry.register
  split
  · rename_i hs
    rw [hs] at hone
    exact hP.registerEmbedded hone _
  · rename_i hs
    rw [hs] at hone
    exact hone

/-- What each step keeps holds of every registry that comes about. -/
theorem holds (hP : Invariant P) (hr : r.Reachable) : P r := by
  induction hr with
  | empty => exact hP.empty
  | define _ d ih => exact hP.define d ih
  | register _ place ih => exact hP.register ih place
  | addField _ hs ih => exact hP.addField hs ih

end Invariant

/-! ## Fields of a model -/

/-- The fields of each model have names of their own. -/
def Distinct (r : Registry) : Prop :=
  ∀ model m, Table.find? r.models model = some m → (m.fields.map Field.name).Nodup

theorem Distinct.set {m : Registration} (hr : r.Distinct) (hm : (m.fields.map Field.name).Nodup)
    (model : String) : Distinct { r with models := Table.set r.models model m } := by
  intro other m' hm'
  dsimp only at hm'
  rw [Table.find?_set] at hm'
  split at hm'
  · cases hm'
    exact hm
  · exact hr other m' hm'

theorem Distinct.addField {model : String} {f : Field} (hr : r.Distinct)
    (h : r.addField model f = .ok s) : s.Distinct := by
  unfold Registry.addField at h
  split at h
  · cases h
  rename_i m found
  split at h
  · cases h
  split at h
  · cases h
  rename_i hnew
  cases h
  refine hr.set ?_ model
  rw [List.map_append, List.nodup_append]
  refine ⟨hr model m found, by simp, fun a ha b hb => ?_⟩
  obtain ⟨g, hg, rfl⟩ := List.mem_map.mp ha
  rw [List.map_singleton, List.mem_singleton] at hb
  subst hb
  intro heq
  exact hnew (List.any_eq_true.mpr ⟨g, hg, by simp [heq]⟩)

theorem Reachable.distinct (hr : r.Reachable) : r.Distinct := by
  refine Invariant.holds ⟨?_, fun _ h => h, fun _ h => h, ?_, fun hs h => h.addField hs⟩ hr
  · intro model m h
    cases h
  · exact fun _ _ _ h => h.set (m := ⟨_, []⟩) List.nodup_nil _

theorem Distinct.fieldsOf {model : String} {fields : List Field} (hr : r.Distinct)
    (h : r.fieldsOf model = .ok fields) : (fields.map Field.name).Nodup := by
  unfold Registry.fieldsOf at h
  split at h
  · rename_i m found
    cases h
    exact hr model m found
  · cases h

/-! ## Names of models -/

/-- Each model is entered once, under the name of its definition. -/
structure Named (r : Registry) : Prop where
  defined : ∀ entry ∈ r.models, ∃ d, r.definitions[entry.2.place]? = some d ∧ d.name = entry.1
  names : (Table.names r.models).Nodup

theorem Named.set {m : Registration} {d : Definition} (hr : r.Named)
    (hd : r.definitions[m.place]? = some d) :
    Named { r with models := Table.set r.models d.name m } := by
  refine ⟨fun entry hentry => ?_, Table.nodup_names_set hr.names⟩
  rcases Table.mem_set hentry with hold | rfl
  · exact hr.defined entry hold
  · exact ⟨d, hd, rfl⟩

theorem Named.addField {model : String} {f : Field} (hr : r.Named)
    (h : r.addField model f = .ok s) : s.Named := by
  unfold Registry.addField at h
  split at h
  · cases h
  rename_i m found
  split at h
  · cases h
  split at h
  · cases h
  cases h
  obtain ⟨d, hd, hname⟩ := hr.defined _ (Table.mem_of_find? found)
  dsimp only at hd hname
  subst hname
  exact hr.set (m := { m with fields := m.fields ++ [f] }) hd

theorem Named.invariant : Invariant Named := by
  refine ⟨⟨nofun, List.nodup_nil⟩, ?_, ?_, fun hd _ _ h => h.set hd, fun hs h => h.addField hs⟩
  · refine fun d h => ⟨fun entry hentry => ?_, h.names⟩
    obtain ⟨d', hd', hname⟩ := h.defined entry hentry
    refine ⟨d', ?_, hname⟩
    unfold Registry.define
    rw [List.getElem?_append_left (List.getElem?_eq_some_iff.mp hd').1, hd']
  · refine fun place h => ⟨fun entry hentry => ?_, h.names⟩
    obtain ⟨d, hd, hname⟩ := h.defined entry hentry
    refine ⟨if place = entry.2.place then { d with embedded := true } else d, ?_, ?_⟩
    · show (_ : List Definition)[_]? = _
      unfold markEmbedded
      rw [List.getElem?_modify, hd]
      split <;> rfl
    · split <;> exact hname

theorem Reachable.named (hr : r.Reachable) : r.Named := Named.invariant.holds hr

theorem model?_of_modelOf {model : String} {d : Definition} (h : r.modelOf model = .ok d) :
    r.model? model = some d := by
  unfold modelOf at h
  split at h
  · rename_i d' hd
    cases h
    exact hd
  · cases h

/-- The definition of a model has its name and is one of those registered. -/
theorem Named.of_model? {model : String} {d : Definition} (hr : r.Named)
    (h : r.model? model = some d) : d.name = model ∧ d ∈ r.registered := by
  obtain ⟨m, found, hd⟩ := Option.bind_eq_some_iff.mp h
  obtain ⟨d', hd', hname⟩ := hr.defined _ (Table.mem_of_find? found)
  rw [hd] at hd'
  cases hd'
  exact ⟨hname, List.mem_filterMap.mpr ⟨_, Table.mem_of_find? found, hd⟩⟩

/-- A registered definition is that of the model of its name. -/
theorem Named.model? {d : Definition} (hr : r.Named) (h : d ∈ r.registered) :
    r.model? d.name = some d := by
  obtain ⟨⟨model, m⟩, hentry, hd⟩ := List.mem_filterMap.mp h
  obtain ⟨d', hd', hname⟩ := hr.defined _ hentry
  rw [hd] at hd'
  cases hd'
  unfold Registry.model?
  rw [hname, Table.find?_of_mem hr.names hentry]
  exact hd

/-- Registered definitions have names of their own. -/
theorem Named.eq_of_name {d d' : Definition} (hr : r.Named) (hd : d ∈ r.registered)
    (hd' : d' ∈ r.registered) (h : d.name = d'.name) : d = d' := by
  have hmodel := hr.model? hd
  rw [h, hr.model? hd'] at hmodel
  exact (Option.some.inj hmodel).symm

/-- Definitions of which none is registered yet. -/
theorem Reachable.defined (definitions : List Definition) : Reachable ⟨definitions, []⟩ := by
  induction definitions using List.reverseRecOn with
  | nil => exact .empty
  | append_singleton _ d ih => exact ih.define d

/-- A registration of a definition that embeds no other one. -/
theorem Reachable.registered (hr : Reachable r) (place : Nat)
    (h : r.registerOne place = (s, .ok [])) : Reachable s := by
  have hregister : (r.register place).1 = s := by
    unfold Registry.register
    rw [h]
    dsimp only
    rw [registerEmbedded]
  exact hregister ▸ hr.register place

end Registry

end DocumentApi
