import DocumentApi.Proofs.Operations.Fullness

/-!
# Created documents without gaps

* `StoredFields.leftOut`: a document is stored with empty lists for the arrays that it was not
  supplied with.
* `create_shows`: what the answer of a creation shows of an input.
* `create_complete_iff`: the answer is complete exactly if every document that is embedded in the
  input is full. The arrays of the document itself need not be supplied.
* `create_room_incomplete`: an array that is left out of an embedded document comes back as null.
* `create_room_complete`: supplied as an empty list, it comes back as one.
-/

namespace DocumentApi

open TypeCache (Sound)

variable {r : Registry} {types c c' : TypeCache}

/-! ## Created documents -/

/-- The fields of a model that keep ids of sub-objects embed nothing. -/
def Registry.PlainLinks (r : Registry) (model : String) : Prop :=
  ∀ declared, r.fieldsOf model = .ok declared → ∀ f ∈ declared, r.IsLink model f.name →
    f.embedding = none

/-- What a document is stored with for a field other than an id for which nothing was supplied. -/
theorem StoredFields.leftOut (hr : r.Distinct) {model : String} {data stored : Fields}
    {declared : List Field} {f : Field} (h : StoredFields r model data stored)
    (hdeclared : r.fieldsOf model = .ok declared) (hf : f ∈ declared) (hid : f.name ≠ "id")
    (hrelation : f.isRelation = false) (hnull : (Fields.get data f.name).isNull) :
    Fields.get stored f.name = if f.isEmbeddedArray then .list [] else .null := by
  obtain ⟨doc, inline, out, ids, ids', hsplit, hassign, rfl⟩ := h
  obtain ⟨declared', hdeclared', hinline⟩ := splitDocument_record hsplit
  rw [hdeclared] at hdeclared'
  cases hdeclared'
  have hnames := hr.fieldsOf hdeclared
  have hembedded : r.fieldsOfEmbedded (some model) = .ok declared := hdeclared
  have hdoc := splitInline_find? hnames hinline f.name
  rw [Field.find?_of_mem hnames hf] at hdoc
  dsimp only at hdoc
  rw [hrelation, if_neg Bool.false_ne_true, hnull, Bool.and_true] at hdoc
  rw [Fields.get_remove_ne hid.symm]
  by_cases harray : f.isEmbeddedArray
  · rw [if_pos harray] at hdoc ⊢
    obtain ⟨w, hw, hcarries⟩ := assignIds_carries hembedded hnames hf hdoc hassign
    rw [Fields.get_of_find? hw]
    unfold Field.isEmbeddedArray at harray
    obtain ⟨hembeds, hmany⟩ := Bool.and_eq_true_iff.mp harray
    unfold Carries at hcarries
    rw [if_pos hembeds, hmany] at hcarries
    obtain ⟨i, i', hcarries⟩ := hcarries
    rw [assignIn, if_pos rfl] at hcarries
    cases hcarries
    rfl
  · rw [if_neg harray] at hdoc ⊢
    cases hv : Table.find? data f.name with
    | none =>
      rw [hv] at hdoc
      unfold Fields.get
      rw [assignIds_find? hembedded hassign (Or.inr hdoc), hdoc]
      rfl
    | some v =>
      rw [Fields.get_of_find? hv] at hnull
      rw [hv] at hdoc
      obtain ⟨w, hw, hcarries⟩ := assignIds_carries hembedded hnames hf hdoc hassign
      rw [Fields.get_of_find? hw, hcarries.null hnull]

/-- A field of a value keeps one when ids are linked to it. -/
theorem LinkedBy.isNull_eq_false {start fields : Fields} {children : List (Field × Tree)}
    {key : String} (h : LinkedBy start children fields)
    (hstart : (Fields.get start key).isNull = false) : (Fields.get fields key).isNull = false := by
  unfold Fields.get at hstart ⊢
  rw [h key]
  split
  · exact hstart
  · rfl

theorem enumOutput_isNull_eq_false {spec : EnumSpec} {raw y : Value} (hraw : raw.isNull = false)
    (h : enumOutput spec raw c = (.ok y, c')) : y.isNull = false := by
  unfold enumOutput at h
  obtain ⟨members, c₁, -, h⟩ := Step.bind_ok h
  cases hfirst : memberStoredAs members raw with
  | none =>
    rw [hfirst] at h
    cases raw with
    | member =>
      dsimp only at h
      split at h <;> cases h <;> rfl
    | _ =>
      cases h
      exact hraw
  | some member =>
    rw [hfirst] at h
    cases raw with
    | member =>
      dsimp only at h
      split at h <;> cases h <;> rfl
    | _ =>
      cases h
      rfl

/-- A value that embeds nothing is not shown as null. -/
theorem fieldOutput_isNull_eq_false {f : Field} {raw y : Value} (hplain : f.embedding = none)
    (hraw : raw.isNull = false) (h : fieldOutput r f raw c = (.ok y, c')) : y.isNull = false := by
  rw [fieldOutput_eq, if_neg (by simp [hraw]), if_neg (by simp [hplain])] at h
  cases hspec : f.enumSpec with
  | none =>
    rw [hspec] at h
    cases h
    exact hraw
  | some spec =>
    cases htype : f.typeOverride with
    | some t =>
      rw [hspec, htype] at h
      cases h
      exact hraw
    | none =>
      rw [hspec, htype] at h
      dsimp only at h
      exact enumOutput_isNull_eq_false hraw h

/-- What the answer of a creation shows of an input of fields. -/
structure DocumentShows (r : Registry) (Q : String → Value → Value → Prop) (fields : List Field)
    (entries out : Fields) : Prop where
  names : Table.names out = fields.map Field.name
  typed : ∀ f ∈ fields, ¬ f.Untyped .output
  given : ∀ f x y, f ∈ fields → f.embedding.isSome → Table.find? entries f.name = some x →
    x.isNull = false → x.isUnset = false → Table.find? out f.name = some y → Shows Q f x y
  leftOut : ∀ f y, f ∈ fields → f.isId = false → f.embedding.isSome →
    (Fields.get (Value.plainFields entries) f.name).isNull → Table.find? out f.name = some y →
    y = if f.isEmbeddedArray then .list [] else .null
  plain : ∀ f y, f ∈ fields → f.isId = false → f.embedding = none →
    (Fields.get (Value.plainFields entries) f.name).isNull = false →
    Table.find? out f.name = some y → y.isNull = false
  id : ∀ f y, f ∈ fields → f.isId → Table.find? out f.name = some y → y.isNull = false

/-- Whether the answer has a value for a field, from what was supplied for it. -/
theorem DocumentShows.fieldComplete_iff {model : String} {shape : TypeShape}
    {entries out : Fields} {fields : List Field} {f : Field} {y : Value}
    (h : DocumentShows r (CompleteWhenFull r) fields entries out) (hs : Sound r types)
    (hd : r.Distinct) (hr : r.Regular) (hdemanding : r.Demanding)
    (hbuilt : types.shape? ⟨model, .create⟩ = some shape)
    (hentries : FieldsInhabit types shape.fields entries)
    (hfields : r.outputFields (some model) = .ok fields) (hf : f ∈ fields)
    (hy : Table.find? out f.name = some y) :
    FieldComplete r f y ↔ (Fields.get (Value.plainFields entries) f.name).isNull ∨
      FieldFull r f (Fields.get (Value.plainFields entries) f.name) := by
  cases hid : f.isId with
  | true =>
    exact ⟨fun _ => Or.inr (.plain (Or.inr hid)),
      fun _ => .plain (Or.inr hid) (h.id f y hf hid hy)⟩
  | false =>
    cases hnull : (Fields.get (Value.plainFields entries) f.name).isNull with
    | true =>
      refine ⟨fun _ => Or.inl rfl, fun _ => ?_⟩
      by_cases hembeds : f.embedding.isSome
      · rw [h.leftOut f y hf hid hembeds hnull hy]
        by_cases harray : f.isEmbeddedArray
        · -- an array of the document itself is shown as an empty list
          rw [if_pos harray]
          have hshadow := Field.not_shadowed_iff.mp
            (hr.embeds f (Registry.hasField_of_outputFields hfields hf) hembeds)
          obtain ⟨model, hmodel⟩ := Field.embeddedName_of_typed hshadow hembeds (h.typed f hf)
          exact .many (Bool.and_eq_true_iff.mp harray).2 hmodel fun y hy =>
            absurd hy List.not_mem_nil
        · rw [if_neg harray]
          exact .null (hentries.nullable hs hd hr hdemanding hbuilt hfields hf hid
            (Bool.eq_false_iff.mpr harray) hnull)
      · have hplain : f.embedding = none := by simpa using hembeds
        cases hy : y.isNull with
        | false => exact .plain (Or.inl hplain) hy
        | true =>
          cases y with
          | null =>
            refine .null (hentries.nullable hs hd hr hdemanding hbuilt hfields hf hid ?_ hnull)
            unfold Field.isEmbeddedArray
            rw [hplain]
            rfl
          | _ => cases hy
    | false =>
      rw [or_iff_right Bool.false_ne_true]
      by_cases hembeds : f.embedding.isSome
      · obtain ⟨x, hx, hgiven, hset, hplain⟩ := hentries.supplied hs hd hbuilt hnull
        rw [hplain] at hnull ⊢
        exact (h.given f x y hf hembeds hx hgiven hset hy).complete_iff hid hgiven hnull
      · have hplain : f.embedding = none := by simpa using hembeds
        exact ⟨fun _ => .plain (Or.inl hplain),
          fun _ => .plain (Or.inl hplain) (h.plain f y hf hid hplain hnull hy)⟩

/-- What the answer of a creation shows of its input. -/
theorem create_shows {d : Definition} {ctx created : Value} {shape : TypeShape} {entries : Fields}
    {s t : State} {Q : String → Value → Value → Prop} (hd : r.Distinct) (hr : r.Regular)
    (hlinks : r.PlainLinks d.name) (hs : Sound r s.types)
    (hbuilt : s.types.shape? ⟨d.name, .create⟩ = some shape)
    (hentries : FieldsInhabit s.types shape.fields entries) (hcome : ∀ v, ComesAs r s.types Q v)
    (h : ModelOperations.create ⟨r, {}, d⟩ ctx (.object (some shape.name) entries) s =
      (.ok created, t)) :
    ∃ fields out, r.outputFields (some d.name) = .ok fields ∧
      created = .object (some d.name) out ∧ DocumentShows r Q fields entries out := by
  have hjson : (Value.record (Value.plainFields entries)).IsJson :=
    (Inhabits.object hbuilt hentries).plain_isJson hs hr
  obtain ⟨declared, hdeclared⟩ := hs.fieldsOf hbuilt
  obtain ⟨children, e, u, later, hof, he, hne, -, hle, hu, houtput, rfl⟩ := create_stored hd hs
    (Value.asFields_object (some shape.name) entries) hjson h
  obtain ⟨fields, out, hfields, rfl, hnames, htyped, hshows, hread, hshown⟩ :=
    fieldsShow hs hd hr hle hu hbuilt hentries hdeclared (fun _ _ v _ => hcome v) houtput
  have hid := hne (hentries.no_id hs hbuilt hdeclared)
  obtain ⟨start, hstart, hlinked⟩ := he.fields
  have hdocument : ∀ f : Field, f.name ≠ "id" →
      Fields.get e.document f.name = Fields.get e.fields f.name := fun f hname =>
    Fields.get_set_ne (Ne.symm hname)
  -- Nothing is linked in a field that embeds documents.
  have hkept : ∀ f ∈ fields, f.embedding.isSome →
      Table.find? e.fields f.name = Table.find? start f.name := by
    intro f hf hembeds
    have hlink : ¬ r.IsLink d.name f.name := by
      intro hlink
      have hmem := (Registry.mem_outputFields hdeclared hfields hf).1
      rw [hlinks declared hdeclared f hmem hlink] at hembeds
      cases hembeds
    have hkept := hlinked f.name
    rwa [if_pos (hof.linkedIds_eq_nil hlink)] at hkept
  have hcarries : ∀ f x, f ∈ fields → f.isId = false → Table.find? entries f.name = some x →
      x.isNull = false → x.isUnset = false →
      ∃ w, Table.find? start f.name = some w ∧ Carries r f x.plain w := by
    intro f x hf hnotId hx hnull hset
    obtain ⟨hmem, -, hrelation⟩ := Registry.mem_outputFields hdeclared hfields hf
    obtain ⟨-, -, hvalue⟩ := FieldsInhabit.declared hs hd hbuilt hentries hdeclared hmem hx hnull
      hset
    exact hstart.carries hd hdeclared hmem (by simpa [Field.isId] using hnotId) hrelation
      (Value.find?_plainFields hx hset) (hvalue.plain_isNull hs hr hnull)
  refine ⟨fields, out, hfields, rfl, hnames, htyped, ?_, ?_, ?_, ?_⟩
  · intro f x y hf hembeds hx hnull hset hy
    refine hshows f x y hf hx hnull hset hy fun hmem _ hname => ?_
    obtain ⟨w, hw, hcarried⟩ := hcarries f x hf (by simpa [Field.isId] using hname) hx hnull hset
    refine ⟨w, ?_, hcarried⟩
    exact (Table.find?_set_ne (Ne.symm hname)).trans ((hkept f hf hembeds).trans hw)
  · intro f y hf hnotId hembeds hnull hy
    have hname : f.name ≠ "id" := by simpa [Field.isId] using hnotId
    obtain ⟨hmem, -, hrelation⟩ := Registry.mem_outputFields hdeclared hfields hf
    obtain ⟨c₁, c₂, hread⟩ := hread f y hf hnotId hy
    have hraw : Fields.get e.document f.name = if f.isEmbeddedArray then .list [] else .null := by
      rw [hdocument f hname]
      unfold Fields.get
      rw [hkept f hf hembeds]
      exact hstart.leftOut hd hdeclared hmem hname hrelation hnull
    rw [hraw, fieldOutput_eq] at hread
    by_cases harray : f.isEmbeddedArray
    · rw [if_pos harray] at hread ⊢
      have hmany : f.many := (Bool.and_eq_true_iff.mp harray).2
      rw [if_neg (by simp [Value.isNull]), if_pos hembeds, if_pos hmany] at hread
      cases hread
      rfl
    · rw [if_neg harray] at hread ⊢
      cases hread
      rfl
  · intro f y hf hnotId hplain hnull hy
    have hname : f.name ≠ "id" := by simpa [Field.isId] using hnotId
    obtain ⟨x, hx, hgiven, hset, hsame⟩ := hentries.supplied hs hd hbuilt hnull
    obtain ⟨w, hw, hcarried⟩ := hcarries f x hf hnotId hx hgiven hset
    obtain ⟨c₁, c₂, hread⟩ := hread f y hf hnotId hy
    refine fieldOutput_isNull_eq_false hplain ?_ hread
    rw [hdocument f hname]
    refine hlinked.isNull_eq_false ?_
    unfold Carries at hcarried
    rw [if_neg (by simp [hplain])] at hcarried
    rw [Fields.get_of_find? hw, hcarried, ← hsame]
    exact hnull
  · intro f y hf hisId hy
    obtain ⟨c₁, c₂, hread⟩ := hshown f y e.id hf hisId (Table.find?_set_self _ _ _) hy
    have hplain := fieldOutput_id hid hread
    cases y <;> first | rfl | cases hplain

/-- The answer of a creation is complete exactly if all that was supplied for its fields is full. Its
own arrays always come back as lists. -/
theorem create_complete_iff {d : Definition} {ctx input created : Value} {data : Fields}
    {s t : State} (hr : r.Reachable) (hregular : r.Regular) (hdemanding : r.Demanding)
    (hlinks : r.PlainLinks d.name) (hs : r.Running s)
    (hinput : Inhabits s.types (.model ⟨d.name, .create⟩) input)
    (hdata : input.asFields = .ok data)
    (h : ModelOperations.create ⟨r, {}, d⟩ ctx input s = (.ok created, t)) :
    ∃ fields out, r.outputFields (some d.name) = .ok fields ∧
      created = .object (some d.name) out ∧
      (∀ f ∈ fields, f.isId = false → f.isEmbeddedArray →
        ∃ ys, Table.find? out f.name = some (.list ys)) ∧
      (Complete r d.name created ↔ ∀ f ∈ fields, (Fields.get data f.name).isNull ∨
        FieldFull r f (Fields.get data f.name)) := by
  have hsound := hs.sound
  have hdistinct := hr.distinct
  cases hinput with
  | @object _ shape entries hbuilt hentries =>
    rw [Value.asFields_object] at hdata
    cases hdata
    obtain ⟨fields, out, hfields, rfl, hshows⟩ := create_shows hdistinct hregular hlinks hsound
      hbuilt hentries (completeWhenFull hsound hdistinct hregular hdemanding) h
    have hfield := fun f hf y => hshows.fieldComplete_iff (f := f) (y := y) hsound hdistinct
      hregular hdemanding hbuilt hentries hfields hf
    refine ⟨fields, out, hfields, rfl, ?_, fun hcomplete f hf => ?_, fun hfull => ?_⟩
    · intro f hf hid harray
      obtain ⟨y, hy⟩ := Table.exists_find?_of_mem (hshows.names ▸ List.mem_map_of_mem hf)
      obtain ⟨hembeds, hmany⟩ := Bool.and_eq_true_iff.mp harray
      cases hnull : (Fields.get (Value.plainFields entries) f.name).isNull with
      | true =>
        rw [hshows.leftOut f y hf hid hembeds hnull hy, if_pos harray] at hy
        exact ⟨[], hy⟩
      | false =>
        obtain ⟨x, hx, hgiven, hset, -⟩ := hentries.supplied hsound hdistinct hbuilt hnull
        cases hshows.given f x y hf hembeds hx hgiven hset hy with
        | plain plain =>
          rw [plain] at hembeds
          cases hembeds
        | one single =>
          rw [hmany] at single
          cases single
        | many => exact ⟨_, hy⟩
    · cases hcomplete with
      | object shown _ complete =>
        rw [hfields] at shown
        cases shown
        obtain ⟨y, hy⟩ := Table.exists_find?_of_mem (hshows.names ▸ List.mem_map_of_mem hf)
        exact (hfield f hf y hy).mp (complete f hf y hy)
    · exact .object hfields hshows.names fun f hf y hy => (hfield f hf y hy).mpr (hfull f hf)

/-! ## Rooms -/

/-- A field that embeds an array of documents, which need not be supplied. -/
def Field.array (name model : String) : Field :=
  { name
    storageType := "array"
    requiredOnCreate := false
    embedding := some (.named model)
    many := true }

def boxModel : Definition :=
  ⟨"Box", [{ name := "label" }], .all, false, "", true, none⟩

def shelfModel : Definition :=
  ⟨"Shelf", [{ name := "label" }, .array "boxes" "Box"], .all, false, "", true, none⟩

def roomModel : Definition :=
  ⟨"Room", [{ name := "name" }, .array "shelves" "Shelf"], .all, false, "", false, none⟩

/-- Rooms with shelves of boxes. -/
def roomModels : Registry where
  definitions := [boxModel, shelfModel, roomModel]
  models := [("Box", ⟨0, boxModel.declaredFields⟩), ("Shelf", ⟨1, shelfModel.declaredFields⟩),
    ("Room", ⟨2, roomModel.declaredFields⟩)]

theorem roomModels_room : roomModels.outputFields (some "Room") =
    .ok [.defaultId, { name := "name" }, .array "shelves" "Shelf"] := rfl

theorem roomModels_shelf : roomModels.outputFields (some "Shelf") =
    .ok [.defaultId, { name := "label" }, .array "boxes" "Box"] := rfl

theorem roomModels_reachable : roomModels.Reachable := by
  have hdefined := Registry.Reachable.defined roomModels.definitions
  exact ((hdefined.registered 0 rfl).registered 1 rfl).registered 2 rfl

theorem roomModels_regular : roomModels.Regular := by
  have hall : ∀ f ∈ roomModels.models.flatMap fun m => m.2.fields,
      f.name ≠ "_id" ∧ (f.embedding.isSome → f.plainType?.isNone) ∧ f.enumSpec.isNone := by decide
  refine ⟨fun f hf => (hall f hf.mem).1, fun f hf hembeds => ?_, fun f spec hf hspec => ?_⟩
  · exact Field.not_shadowed_iff.mpr (by simpa using (hall f hf.mem).2.1 hembeds)
  · have hnone := (hall f hf.mem).2.2
    rw [hspec] at hnone
    cases hnone

theorem roomModels_demanding : roomModels.Demanding := by
  have hall : ∀ f ∈ roomModels.models.flatMap fun m => m.2.fields, f.isId = false →
      f.isEmbeddedArray = false → f.requiredOnCreate ∧ f.excludedOnCreate = false := by decide
  exact fun model fields hfields f hf hid harray =>
    Or.inr (hall f (Registry.hasField_of_outputFields hfields hf).mem hid harray)

/-- Rooms are related to nothing. -/
theorem roomModels_links {model : String} : roomModels.PlainLinks model := by
  have hall : ∀ f ∈ roomModels.models.flatMap fun m => m.2.fields, f.isRelation = false := by
    decide
  rintro declared hdeclared f - ⟨declared', hdeclared', g, hg, hrelation, -⟩
  rw [hall g (Registry.HasField.mem ⟨model, declared', hdeclared', hg⟩)] at hrelation
  cases hrelation

/-- A state in which the types of rooms were built. -/
def roomState : State where
  types := (buildAll roomModels {}).2

/-- A room with a shelf, for whose boxes a value was supplied. -/
def roomInput (boxes : Value) : Value :=
  .object (some "CreateRoomInput") [("name", .text "Attic"),
    ("shelves", .list [.object (some "CreateShelfInput") [("label", .text "A"),
      ("boxes", boxes)]])]

/-- What a room shows of the boxes of its only shelf. -/
def shownBoxes (room : Value) : Value :=
  Fields.get (Fields.get room.shown "shelves").shown "boxes"

/-- The types of rooms are built, and rooms are created with a shelf. -/
theorem rooms_evaluated : (buildAll roomModels {}).1.isOk ∧
    (∀ model ∈ ["Box", "Shelf", "Room"], (roomState.types.shape? ⟨model, .create⟩).isSome) ∧
    ∀ boxes ∈ [Value.unset, .list []],
      (ModelOperations.create ⟨roomModels, {}, roomModel⟩ .null (roomInput boxes)
        roomState).1.toOption.map (fun room => ((Fields.get room.shown "shelves").items.length,
          (shownBoxes room).isNull)) = some (1, boxes.isUnset) := by
  -- The recursions are opened to the depth of the models and the input; the rest is evaluated.
  have hwhile := funext fun begun => funext (typeWhile.eq_def roomModels begun)
  have hfields := funext fun begun => funext fun key =>
    funext (fieldsWhile.eq_def roomModels begun key)
  have hinline := funext fun target => funext (createInline_eq roomModels target)
  have houtput := funext fun model => funext (toOutput_eq roomModels model)
  have hfield := funext fun f => funext (fieldOutput_eq roomModels f)
  have htype := funext fun key => funext (typeOf_eq roomModels key)
  unfold roomState ModelOperations.create linkInline
  rw [hinline]
  unfold storeWithParts linkInline ModelOperations.shape
  rw [houtput, hfield, houtput, hfield, houtput, hfield, htype]
  unfold buildAll buildModel filterTypeOf sortTypeOf typeOf
  rw [hwhile, hfields, hfields, hfields, hfields, hfields, hwhile]
  decide +kernel

theorem roomState_running : roomModels.Running roomState :=
  .built (Step.eq_of_isOk rooms_evaluated.1) {} ⟨0, 0, 0⟩ []

theorem roomInput_inhabits {boxes : Value} (h : boxes ∈ [Value.unset, .list []]) :
    Inhabits roomState.types (.model ⟨"Room", .create⟩) (roomInput boxes) := by
  have hshape : ∀ model ∈ ["Box", "Shelf", "Room"],
      roomState.types.shape? ⟨model, .create⟩ = some (roomModels.shapeOf ⟨model, .create⟩) := by
    intro model hmodel
    obtain ⟨shape, hshape⟩ := Option.isSome_iff_exists.mp (rooms_evaluated.2.1 model hmodel)
    rw [hshape, (roomState_running.sound.shapes _ _ hshape).2]
  have hshelf : Inhabits roomState.types (.model ⟨"Shelf", .create⟩)
      (.object (some "CreateShelfInput") [("label", .text "A"), ("boxes", boxes)]) := by
    refine .object (hshape "Shelf" (by simp)) (.given (.string _) ?_)
    rcases List.mem_cons.mp h with rfl | h
    · exact .leftOut rfl .nil
    · obtain rfl := List.mem_singleton.mp h
      exact .given (.given (.list nofun)) .nil
  refine .object (hshape "Room" (by simp)) (.given (.string _) (.given (.given (.list ?_)) .nil))
  intro v hv
  rw [List.mem_singleton.mp hv]
  exact hshelf

theorem create_room_ok {boxes : Value} (h : boxes ∈ [Value.unset, .list []]) : ∃ created t,
    ModelOperations.create ⟨roomModels, {}, roomModel⟩ .null (roomInput boxes) roomState =
      (.ok created, t) ∧
    (Fields.get created.shown "shelves").items.length = 1 ∧
    (shownBoxes created).isNull = boxes.isUnset := by
  have hshown := rooms_evaluated.2.2 boxes h
  generalize hcreate : ModelOperations.create ⟨roomModels, {}, roomModel⟩ .null (roomInput boxes)
    roomState = result at hshown
  obtain ⟨e | created, t⟩ := result
  · cases hshown
  · obtain ⟨hcount, hnull⟩ := Prod.mk.inj (Option.some.inj hshown)
    exact ⟨created, t, rfl, hcount, hnull⟩

/-- A room whose only shelf shows null for its boxes is not complete. -/
theorem not_complete_room {room : Value}
    (hcount : (Fields.get room.shown "shelves").items.length = 1)
    (hnull : (shownBoxes room).isNull) : ¬ Complete roomModels "Room" room := by
  intro hroom
  have hshelves : FieldComplete roomModels (.array "shelves" "Shelf")
      (Fields.get room.shown "shelves") := hroom.get roomModels_room (by simp)
  have hboxes : ∀ shelf, Complete roomModels "Shelf" shelf →
      (Fields.get shelf.shown "boxes").isNull = false := by
    intro shelf hshelf
    have hfield : FieldComplete roomModels (.array "boxes" "Box")
        (Fields.get shelf.shown "boxes") := hshelf.get roomModels_shelf (by simp)
    exact Bool.eq_false_iff.mpr fun hnull => by cases hfield.of_isNull hnull
  unfold shownBoxes at hnull
  generalize Fields.get room.shown "shelves" = shelves at hcount hnull hshelves
  cases hshelves with
  | null may => cases may
  | plain plain => exact absurd plain (Field.embedding_ne_none rfl rfl)
  | one single => cases single
  | many _ embeds items =>
    cases embeds
    rw [Value.items_list] at hcount
    obtain ⟨shelf, rfl⟩ := List.length_eq_one_iff.mp hcount
    have hshelf := items shelf List.mem_cons_self
    have hgiven := hboxes shelf hshelf
    cases hshelf
    exact Bool.false_ne_true (hgiven.symm.trans hnull)

/-- The boxes of a shelf are null when they are left out, though they must not be. -/
theorem create_room_incomplete : roomModels.Reachable ∧ roomModels.Regular ∧
    roomModels.Demanding ∧ roomModels.PlainLinks roomModel.name ∧ roomModels.Running roomState ∧
    Inhabits roomState.types (.model ⟨roomModel.name, .create⟩) (roomInput .unset) ∧ ∃ created t,
      ModelOperations.create ⟨roomModels, {}, roomModel⟩ .null (roomInput .unset) roomState =
        (.ok created, t) ∧
      ¬ Complete roomModels roomModel.name created := by
  obtain ⟨created, t, hcreate, hcount, hnull⟩ := create_room_ok List.mem_cons_self
  exact ⟨roomModels_reachable, roomModels_regular, roomModels_demanding, roomModels_links,
    roomState_running, roomInput_inhabits List.mem_cons_self, created, t, hcreate,
    not_complete_room hcount hnull⟩

/-- A room with a shelf without boxes is full when they were supplied as an empty list. -/
theorem full_room : ∀ f ∈ [Field.defaultId, { name := "name" }, .array "shelves" "Shelf"],
    FieldFull roomModels f (Fields.get [("name", .text "Attic"),
      ("shelves", .list [.record [("label", .text "A"), ("boxes", .list [])]])] f.name) := by
  have hshelf : Full roomModels "Shelf" (.record [("label", .text "A"), ("boxes", .list [])]) := by
    refine .record roomModels_shelf (List.forall_mem_cons.mpr ⟨.plain (Or.inl rfl),
      List.forall_mem_cons.mpr ⟨.plain (Or.inl rfl), List.forall_mem_singleton.mpr ?_⟩⟩)
    exact .many rfl rfl nofun
  refine List.forall_mem_cons.mpr ⟨.plain (Or.inl rfl),
    List.forall_mem_cons.mpr ⟨.plain (Or.inl rfl), List.forall_mem_singleton.mpr ?_⟩⟩
  exact .many rfl rfl (List.forall_mem_singleton.mpr hshelf)

/-- The boxes of a shelf come back when they were supplied, and the room is complete. -/
theorem create_room_complete : roomModels.Reachable ∧ roomModels.Regular ∧
    roomModels.Demanding ∧ roomModels.PlainLinks roomModel.name ∧ roomModels.Running roomState ∧
    Inhabits roomState.types (.model ⟨roomModel.name, .create⟩) (roomInput (.list [])) ∧
    ∃ data, (roomInput (.list [])).asFields = .ok data ∧ ∃ created t,
      ModelOperations.create ⟨roomModels, {}, roomModel⟩ .null (roomInput (.list [])) roomState =
        (.ok created, t) ∧
      Complete roomModels roomModel.name created ∧
      ∃ shelves, Fields.get created.shown "shelves" = .list shelves := by
  have hboxes : Value.list [] ∈ [Value.unset, .list []] := by simp
  have hinput := roomInput_inhabits hboxes
  obtain ⟨created, t, hcreate, -⟩ := create_room_ok hboxes
  refine ⟨roomModels_reachable, roomModels_regular, roomModels_demanding, roomModels_links,
    roomState_running, hinput, _, Value.asFields_object _ _, created, t, hcreate, ?_⟩
  obtain ⟨fields, out, hfields, rfl, harrays, hiff⟩ := create_complete_iff roomModels_reachable
    roomModels_regular roomModels_demanding roomModels_links roomState_running hinput
    (Value.asFields_object _ _) hcreate
  obtain rfl := Except.ok.inj (roomModels_room.symm.trans hfields)
  obtain ⟨shelves, hshelves⟩ := harrays (.array "shelves" "Shelf") (by simp) rfl rfl
  exact ⟨hiff.mpr fun f hf => Or.inr (full_room f hf), shelves, Fields.get_of_find? hshelves⟩

end DocumentApi
