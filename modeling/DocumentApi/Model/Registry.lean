import DocumentApi.Error
import DocumentApi.Model.Definition
import DocumentApi.Text.Identifier

/-!
# Registry of models

A registry knows all definitions, and for each registered model its definition and its fields.

* `Registry.register`: registers a definition with its fields, an id field in front when it declares
  none, and then every definition that its fields embed, each before the next.
* `Registry.addField`: adds a field to a registered model.
* A registration that fails half way keeps what it had stored.

Each registration of a new name leaves one definition fewer to register, which is why embedded
definitions may refer to each other in circles.
-/

namespace DocumentApi

/-- A registered model: the place of its definition and its fields. -/
structure Registration where
  place : Nat
  fields : List Field
deriving Repr, Inhabited

/-- All definitions, and the registered models by name. -/
structure Registry where
  definitions : List Definition := []
  models : Table Registration := []
deriving Repr, Inhabited

/-- The field that a model gets when it declares no id. -/
def Field.defaultId : Field :=
  { name := "id"
    storageType := "id"
    typeOverride := some (.scalar .id)
    excludedOnCreate := true }

/-- The fields of a definition with an id among them. -/
def Definition.declaredFields (d : Definition) : List Field :=
  if d.fields.any Field.isId then d.fields else Field.defaultId :: d.fields

/-- The places of the definitions that fields embed. -/
def embeddedPlaces (fields : List Field) : List Nat :=
  fields.filterMap fun f => match f.embedding with
    | some (.defined place _) => some place
    | _ => none

namespace Registry

/-- Adds a definition to those known and answers its place. -/
def define (r : Registry) (d : Definition) : Registry × Nat :=
  ({ r with definitions := r.definitions ++ [d] }, r.definitions.length)

def has (r : Registry) (model : String) : Bool :=
  Table.has r.models model

/-- Adds a field to a registered model. -/
def addField (r : Registry) (model : String) (f : Field) : Except Error Registry :=
  match Table.find? r.models model with
  | none => .error (.modelNotRegistered model)
  | some m =>
    if !isIdentifier f.name then .error (.fieldNameInvalid model f.name)
    else if m.fields.any fun g => g.name == f.name then .error (.fieldRegistered model f.name)
    else .ok { r with models := Table.set r.models model { m with fields := m.fields ++ [f] } }

/-- Adds fields up to the first that is refused. -/
def addFields (r : Registry) (model : String) : List Field → Registry × Except Error Unit
  | [] => (r, .ok ())
  | f :: rest => match r.addField model f with
    | .ok r => addFields r model rest
    | .error e => (r, .error e)

/-- The registry with a definition marked as embedded. -/
def markEmbedded (r : Registry) (place : Nat) : Registry :=
  { r with definitions := r.definitions.modify place fun d => { d with embedded := true } }

/-- Registers one definition with its fields. Answers the definitions that it embeds, which are to
be registered next; none when it was registered before. -/
def registerOne (r : Registry) (place : Nat) : Registry × Except Error (List Nat) :=
  match r.definitions[place]? with
  | none => (r, .ok [])
  | some d =>
    if !isIdentifier d.name then (r, .error (.modelNameInvalid d.name))
    else match Table.find? r.models d.name with
      | some m =>
        if m.place = place then (r, .ok []) else (r, .error (.modelRegistered d.name))
      | none =>
        let r := { r with models := Table.set r.models d.name ⟨place, []⟩ }
        match r.addFields d.name d.declaredFields with
        | (r, .ok ()) => (r, .ok (embeddedPlaces d.declaredFields))
        | (r, .error e) => (r, .error e)

/-- The count of definitions whose names are not registered. -/
def pending (r : Registry) : Nat :=
  (r.definitions.filter fun d => !r.has d.name).length

theorem has_addField {r s : Registry} {model : String} {f : Field}
    (h : r.addField model f = .ok s) :
    s.definitions = r.definitions ∧ ∀ name, s.has name = r.has name := by
  unfold addField at h
  split at h
  · simp at h
  · rename_i m found
    split at h
    · simp at h
    split at h
    · simp at h
    simp only [Except.ok.injEq] at h
    subst h
    refine ⟨rfl, fun name => ?_⟩
    simp only [has, Table.has_set]
    by_cases e : model = name
    · subst e
      simp [Table.has, found]
    · simp [e]

theorem has_addFields (r : Registry) (model : String) (fields : List Field) :
    (r.addFields model fields).1.definitions = r.definitions ∧
      ∀ name, (r.addFields model fields).1.has name = r.has name := by
  induction fields generalizing r with
  | nil => simp [addFields]
  | cons f rest ih =>
    unfold addFields
    split
    · rename_i s h
      obtain ⟨hd, hh⟩ := has_addField h
      exact ⟨(ih s).1.trans hd, fun name => ((ih s).2 name).trans (hh name)⟩
    · simp

/-- A registration that embeds further definitions leaves fewer to register. -/
theorem pending_registerOne {r s : Registry} {place : Nat} {places : List Nat}
    (h : r.registerOne place = (s, .ok places)) :
    s.pending < r.pending ∨ (s = r ∧ places = []) := by
  unfold registerOne at h
  split at h
  · simp_all
  rename_i d found
  split at h
  · simp at h
  split at h
  · split at h <;> simp_all
  rename_i absent
  have has := has_addFields { r with models := Table.set r.models d.name ⟨place, []⟩ } d.name
    d.declaredFields
  dsimp only at h has
  split at h
  · rename_i s' ok
    simp only [Prod.mk.injEq, Except.ok.injEq] at h
    obtain ⟨rfl, -⟩ := h
    rw [ok] at has
    left
    unfold pending
    rw [has.1]
    refine length_filter_lt (x := d) ?_ (List.mem_of_getElem? found) ?_ ?_
    · intro y hy
      rw [has.2] at hy
      simp only [Registry.has, Table.has_set] at hy ⊢
      simp_all
    · simp [Registry.has, Table.has, absent]
    · rw [has.2]
      simp [Registry.has, Table.has_set]
  · simp at h

theorem pending_markEmbedded (r : Registry) (place : Nat) :
    (r.markEmbedded place).pending = r.pending := by
  have key : ∀ (ds : List Definition) (n : Nat),
      ((ds.modify n fun d => { d with embedded := true }).filter fun d => !r.has d.name).length =
        (ds.filter fun d => !r.has d.name).length := by
    intro ds
    induction ds with
    | nil => simp
    | cons d ds ih =>
      intro n
      cases n with
      | zero => by_cases h : r.has d.name = true <;> simp [h]
      | succ n => by_cases h : r.has d.name = true <;> simp [h, ih]
  exact key r.definitions place

/-- Registers embedded definitions one after another, those that each embeds right behind it. -/
def registerEmbedded (r : Registry) : List Nat → Registry × Except Error Unit
  | [] => (r, .ok ())
  | place :: rest => match _h : (r.markEmbedded place).registerOne place with
    | (s, .ok places) => registerEmbedded s (places ++ rest)
    | (s, .error e) => (s, .error e)
termination_by work => (r.pending, work.length)
decreasing_by
  rcases pending_registerOne _h with lt | ⟨rfl, rfl⟩
  · rw [pending_markEmbedded] at lt
    exact Prod.Lex.left _ _ lt
  · rw [pending_markEmbedded]
    exact Prod.Lex.right _ (by simp)

/-- Registers a definition, its fields and every definition that it embeds. -/
def register (r : Registry) (place : Nat) : Registry × Except Error Unit :=
  match r.registerOne place with
  | (r, .ok places) => r.registerEmbedded places
  | (r, .error e) => (r, .error e)

/-- The fields of a registered model. -/
def fieldsOf (r : Registry) (model : String) : Except Error (List Field) :=
  match Table.find? r.models model with
  | some m => .ok m.fields
  | none => .error (.modelNotRegistered model)

/-- The fields of the model that a field embeds. -/
def fieldsOfEmbedded (r : Registry) (model : Option String) : Except Error (List Field) :=
  match model with
  | some model => r.fieldsOf model
  | none => .error (.modelNotRegistered "None")

/-- A field of a registered model. -/
def field? (r : Registry) (model field : String) : Option Field :=
  match Table.find? r.models model with
  | some m => m.fields.find? fun f => f.name == field
  | none => none

/-- The definition of a registered model. -/
def model? (r : Registry) (model : String) : Option Definition :=
  (Table.find? r.models model).bind fun m => r.definitions[m.place]?

/-- The definition of a model that has to be registered. -/
def modelOf (r : Registry) (model : String) : Except Error Definition :=
  match r.model? model with
  | some d => .ok d
  | none => .error (.modelNotRegistered model)

/-- The definitions of the registered models, in the order of their registration. -/
def registered (r : Registry) : List Definition :=
  r.models.filterMap fun m => r.definitions[m.2.place]?

/-- The registered models that are not embedded in others. -/
def topLevel (r : Registry) : List Definition :=
  r.registered.filter fun d => !d.embedded

end Registry

end DocumentApi
