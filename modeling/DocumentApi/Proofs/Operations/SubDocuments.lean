import DocumentApi.Proofs.Operations.NestedIds
import DocumentApi.Proofs.Operations.RoundTrip

/-!
# Sub-documents

The documents that are embedded in a document, outer ones before inner ones, and the ids that are
drawn for them.

* `subDocuments`: the sub-documents of a document, fields in the order of their declaration.
* `Iterates`: nothing but sequences, texts and null stands where an array is embedded.
* `Identified`: sub-documents before and after ids were drawn, one for each that lacked one.
* `subDocumentsIn_record`: below a sub-document are those that it has once it has an id.
-/

namespace DocumentApi

/-- A document that is embedded in another one, with the model that its field embeds. -/
structure SubDocument where
  model : Option String
  fields : Fields

/-- A sub-document has an id that counts as given. -/
def SubDocument.hasId (d : SubDocument) : Bool := (Fields.get d.fields "id").truthy

/-- The fields that are looked into for sub-documents. The field of the id is not in a document that
has none: it is given a text there. -/
def Registry.embeddedFields (r : Registry) (model : Option String) (hasId : Bool) : List Field :=
  ((r.fieldsOfEmbedded model).toOption.getD []).filter fun f =>
    isEmbedding f && (hasId || f.name != "id")

mutual

/-- The sub-documents in the value of an embedded field, an outer one before those within it. -/
def subDocumentsIn (r : Registry) (many : Bool) (model : Option String) : Value → List SubDocument
  | .record fields =>
    if many then []
    else ⟨model, fields⟩ :: (r.embeddedFields model (Fields.get fields "id").truthy).flatMap fun f =>
      subDocumentsAt r fields f
  | .list items => if many then subDocumentsOf r model items else []
  | _ => []
termination_by structural v => v

/-- The sub-documents in the items of an embedded array. -/
def subDocumentsOf (r : Registry) (model : Option String) : List Value → List SubDocument
  | [] => []
  | item :: items => subDocumentsIn r false model item ++ subDocumentsOf r model items
termination_by structural items => items

/-- The sub-documents in a field of a document. -/
def subDocumentsAt (r : Registry) : List (String × Value) → Field → List SubDocument
  | [], _ => []
  | entry :: rest, f =>
    if entry.1 = f.name then subDocumentsPair r entry f else subDocumentsAt r rest f
termination_by structural fields => fields

def subDocumentsPair (r : Registry) : String × Value → Field → List SubDocument
  | (_, v), f => subDocumentsIn r f.many f.embeddedName v
termination_by structural entry => entry

end

/-- The sub-documents of a document. -/
def subDocuments (r : Registry) (model : Option String) (doc : Fields) : List SubDocument :=
  (r.embeddedFields model true).flatMap fun f => subDocumentsAt r doc f

/-- A value in which items can be looked for: null, or one that has elements. -/
def Value.MayHoldItems (v : Value) : Prop := v.isNull ∨ v.elements.isSome

instance (v : Value) : Decidable v.MayHoldItems :=
  inferInstanceAs (Decidable (v.isNull = true ∨ v.elements.isSome = true))

/-- Where a document embeds an array, items can be looked for. -/
def Registry.Iterates (r : Registry) (model : Option String) (hasId : Bool) (doc : Fields) : Prop :=
  ∀ f ∈ r.embeddedFields model hasId, f.many → (Fields.get doc f.name).MayHoldItems

/-- Ids drawn one after another. -/
inductive IdSource.Draws : IdSource → List String → IdSource → Prop
  | nil (ids : IdSource) : Draws ids [] ids
  | cons {ids mid last : IdSource} {id : String} {drawn : List String}
    (h : ids.draw = (.ok id, mid)) (hrest : Draws mid drawn last) : Draws ids (id :: drawn) last

/-- Sub-documents before and after ids were drawn: an id for each that lacked one, in their order. -/
inductive Identified : List SubDocument → List SubDocument → List String → Prop
  | nil : Identified [] [] []
  | kept {d e : SubDocument} {before after : List SubDocument} {drawn : List String}
    (hd : d.hasId) (he : e.hasId) (hmodel : e.model = d.model)
    (hrest : Identified before after drawn) : Identified (d :: before) (e :: after) drawn
  | drawn {d e : SubDocument} {before after : List SubDocument} {id : String} {drawn : List String}
    (hd : d.hasId = false) (he : Fields.get e.fields "id" = .text id) (hmodel : e.model = d.model)
    (hrest : Identified before after drawn) : Identified (d :: before) (e :: after) (id :: drawn)

/-! ## Ids that are drawn -/

section Draws

variable {ids mid last : IdSource} {drawn more : List String}

theorem IdSource.Draws.append (h : ids.Draws drawn mid) (h' : mid.Draws more last) :
    ids.Draws (drawn ++ more) last := by
  induction h with
  | nil => exact h'
  | cons hdraw _ ih => exact .cons hdraw (ih h')

theorem IdSource.Draws.ne_empty (h : ids.Draws drawn last) : ∀ id ∈ drawn, id ≠ "" := by
  induction h with
  | nil => exact fun _ h => absurd h List.not_mem_nil
  | cons hdraw _ ih => exact List.forall_mem_cons.mpr ⟨draw_ne_empty hdraw, ih⟩

variable {before after before' after' : List SubDocument}

theorem Identified.append (h : Identified before after drawn)
    (h' : Identified before' after' more) :
    Identified (before ++ before') (after ++ after') (drawn ++ more) := by
  induction h with
  | nil => exact h'
  | kept hd he hmodel _ ih => exact .kept hd he hmodel ih
  | drawn hd he hmodel _ ih => exact .drawn hd he hmodel ih

/-- Afterwards every sub-document has an id. -/
theorem Identified.hasId (h : Identified before after drawn) (hdrawn : ∀ id ∈ drawn, id ≠ "") :
    ∀ e ∈ after, e.hasId := by
  induction h with
  | nil => exact fun _ h => absurd h List.not_mem_nil
  | kept _ he _ _ ih => exact List.forall_mem_cons.mpr ⟨he, ih hdrawn⟩
  | drawn _ he _ _ ih =>
    obtain ⟨hid, hrest⟩ := List.forall_mem_cons.mp hdrawn
    refine List.forall_mem_cons.mpr ⟨?_, ih hrest⟩
    unfold SubDocument.hasId
    rw [he]
    simpa [Value.truthy] using hid

/-- As many ids are drawn as sub-documents lacked one. -/
theorem Identified.length (h : Identified before after drawn) :
    drawn.length = before.countP fun d => !d.hasId := by
  induction h with
  | nil => rfl
  | kept hd _ _ _ ih => simp [hd, ih]
  | drawn hd _ _ _ ih => simp [hd, ih]

end Draws

/-! ## What is looked into -/

section Looking

variable {r : Registry} {model : Option String} {declared : List Field} {fields : Fields}
  {hasId : Bool} {f : Field}

/-- A document with an id: the one that it has, or a text. -/
def withId (fields : Fields) (id : String) : Fields :=
  if (Fields.get fields "id").truthy then fields else Table.set fields "id" (.text id)

theorem withId_of_truthy (h : (Fields.get fields "id").truthy) (id : String) :
    withId fields id = fields := if_pos h

theorem withId_of_not_truthy (h : ¬ (Fields.get fields "id").truthy) (id : String) :
    withId fields id = Table.set fields "id" (.text id) := if_neg h

theorem embeddedFields_eq (h : r.fieldsOfEmbedded model = .ok declared) :
    r.embeddedFields model hasId = declared.filter fun f =>
      isEmbedding f && (hasId || f.name != "id") := by
  unfold Registry.embeddedFields
  rw [h]
  rfl

theorem subDocumentsAt_eq (r : Registry) (fields : Fields) (f : Field) :
    subDocumentsAt r fields f = match Table.find? fields f.name with
      | some v => subDocumentsIn r f.many f.embeddedName v
      | none => [] := by
  induction fields with
  | nil => rfl
  | cons entry fields ih =>
    obtain ⟨name, v⟩ := entry
    unfold subDocumentsAt
    rw [Table.find?_cons]
    by_cases hname : name = f.name
    · rw [if_pos hname, if_pos hname]
      rfl
    · rw [if_neg hname, if_neg hname, ih]

theorem subDocumentsOf_eq (r : Registry) (model : Option String) (items : List Value) :
    subDocumentsOf r model items = items.flatMap (subDocumentsIn r false model) := by
  induction items with
  | nil => rfl
  | cons item items ih =>
    unfold subDocumentsOf
    rw [ih, List.flatMap_cons]

theorem flatMap_filter_congr {α β : Type} {p q : α → Bool} {g k : α → List β} {xs : List α}
    (h : ∀ x, (if p x then g x else []) = if q x then k x else []) :
    (xs.filter p).flatMap g = (xs.filter q).flatMap k := by
  have hfilter : ∀ (p : α → Bool) (g : α → List β),
      (xs.filter p).flatMap g = xs.flatMap fun x => if p x then g x else [] := by
    intro p g
    induction xs with
    | nil => rfl
    | cons x xs ih =>
      rw [List.filter_cons, List.flatMap_cons, ← ih]
      split <;> rfl
  rw [hfilter, hfilter]
  exact List.flatMap_congr fun x _ => h x

/-- Below a sub-document are the sub-documents that it has once it has an id. -/
theorem subDocumentsIn_record (r : Registry) (model : Option String) (fields : Fields) (id : String) :
    subDocumentsIn r false model (.record fields) =
      ⟨model, fields⟩ :: subDocuments r model (withId fields id) := by
  unfold subDocumentsIn
  rw [if_neg Bool.false_ne_true]
  refine congrArg _ ?_
  unfold subDocuments Registry.embeddedFields
  by_cases hid : (Fields.get fields "id").truthy
  · rw [withId_of_truthy hid, hid]
  · rw [withId_of_not_truthy hid, Bool.eq_false_iff.mpr hid]
    refine flatMap_filter_congr fun f => ?_
    rw [subDocumentsAt_eq, subDocumentsAt_eq]
    by_cases hname : f.name = "id"
    · rw [hname, Table.find?_set_self]
      simp [subDocumentsIn]
    · rw [Table.find?_set_ne (Ne.symm hname)]
      simp [hname]

theorem mem_embeddedFields : f ∈ r.embeddedFields model hasId ↔
    f ∈ r.embeddedFields model true ∧ (hasId = true ∨ f.name ≠ "id") := by
  simp [Registry.embeddedFields, and_assoc]

theorem iterates_withId (r : Registry) (model : Option String) (fields : Fields) (id : String) :
    r.Iterates model (Fields.get fields "id").truthy fields ↔
      r.Iterates model true (withId fields id) := by
  unfold Registry.Iterates
  by_cases hid : (Fields.get fields "id").truthy
  · rw [withId_of_truthy hid, hid]
  · rw [withId_of_not_truthy hid, Bool.eq_false_iff.mpr hid]
    constructor
    · intro h f hf hmany
      by_cases hname : f.name = "id"
      · rw [hname, Fields.get_set_self]
        exact Or.inr rfl
      · rw [Fields.get_set_ne (Ne.symm hname)]
        exact h f (mem_embeddedFields.mpr ⟨hf, Or.inr hname⟩) hmany
    · intro h f hf hmany
      obtain ⟨hf, hname⟩ := mem_embeddedFields.mp hf
      have hne : f.name ≠ "id" := hname.resolve_left Bool.false_ne_true
      have hvalue := h f hf hmany
      rwa [Fields.get_set_ne (Ne.symm hne)] at hvalue

/-- The sub-documents in an item of an embedded array. -/
theorem subDocumentsIn_item {vs : List Value} {v : Value} (hv : v ∈ vs) :
    ∀ d ∈ subDocumentsIn r false model v, d ∈ subDocumentsIn r true model (.list vs) := by
  intro d hd
  show d ∈ subDocumentsOf r model vs
  rw [subDocumentsOf_eq]
  exact List.mem_flatMap.mpr ⟨v, hv, hd⟩

/-- The sub-documents in an embedded field of a document. -/
theorem subDocumentsIn_subset {v : Value} (hf : f ∈ r.embeddedFields model true)
    (hv : Table.find? fields f.name = some v) :
    ∀ d ∈ subDocumentsIn r f.many f.embeddedName v, d ∈ subDocuments r model fields := by
  intro d hd
  refine List.mem_flatMap.mpr ⟨f, hf, ?_⟩
  rw [subDocumentsAt_eq, hv]
  exact hd

end Looking

end DocumentApi
