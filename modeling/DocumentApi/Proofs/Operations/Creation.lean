import DocumentApi.Proofs.Operations.Trees
import DocumentApi.Proofs.Types.Outputs
import Mathlib.Data.List.Nodup

/-!
# What a creation adds

* `Tree.expected`: what a document holds in a field, from its node alone: what the payload supplied,
  without sub-objects, and then the ids of the sub-objects that are linked in the field.
* `create_adds_tree`: a creation adds the documents of its payload's tree, in order, and changes no
  document that was there.
* `create_author_adds_tree`: an author is created with books and chapters.
-/

namespace DocumentApi

/-- Ids that differ are added to a set unless it has them. -/
theorem Store.union_texts {ids : List String} (hids : ids.Nodup) (items : List Value) :
    Store.union items (ids.map .text) =
      items ++ (ids.filter fun id => !(Value.text id).memberOf items).map .text := by
  unfold Store.union
  induction ids generalizing items with
  | nil => rw [List.map_nil, List.filter_nil, List.map_nil, List.append_nil]; rfl
  | cons id ids ih =>
    obtain ⟨hnew, hids⟩ := List.nodup_cons.mp hids
    rw [List.map_cons, List.foldl_cons, List.filter_cons]
    by_cases hmember : (Value.text id).memberOf items
    · rw [if_pos hmember, ih hids, if_neg (by simp [hmember])]
    · rw [if_neg hmember, ih hids, if_pos (by simp [hmember]), List.map_cons, List.append_assoc]
      refine congrArg (items ++ ·) (congrArg (Value.text id :: ·) ?_)
      refine congrArg (List.map Value.text) (List.filter_congr fun other hother => ?_)
      have hne : (other == id) = false := beq_eq_false_iff_ne.mpr fun heq => hnew (heq ▸ hother)
      unfold Value.memberOf
      rw [List.any_append]
      simp [Value.same, hne]

/-- What a payload supplies for a field, apart from the sub-objects of a relation. -/
def suppliedFor (declared : List Field) (data : Fields) (key : String) : Option Value :=
  if declared.any fun f => f.name == key && f.isRelation then none else Table.find? data key

/-- What the document of a node holds in a field: the value that was supplied, or a list of the
supplied values and the ids that are linked in the field and not among them. -/
def Tree.expected (declared : List Field) (t : Tree) (key : String) : Option Value :=
  let supplied := suppliedFor declared t.data key
  let ids := linkedIds t.children key
  if ids = [] then supplied
  else
    let items := (supplied.getD .null).items
    some (.list (items ++ (ids.filter fun id => !(Value.text id).memberOf items).map .text))

/-- An entry is the document of a node. Of its fields, those that embed documents are left out. -/
structure Tree.IsStored (r : Registry) (t : Tree) (e : Entry) : Prop where
  collection : e.collection = t.model.storedIn
  id : e.id = t.id
  fields : ∀ declared, r.fieldsOf t.model.name = .ok declared → ∀ key, key ≠ "id" →
    (∀ f ∈ declared, f.name = key → f.isRelation ∨ f.embedding = none) →
    Table.find? e.fields key = t.expected declared key

/-- A document is stored with what was supplied for it, without its sub-objects. -/
theorem StoredFields.find? {r : Registry} (hr : r.Distinct) {model : String}
    {data stored : Fields} {declared : List Field} {key : String}
    (h : StoredFields r model data stored) (hdeclared : r.fieldsOf model = .ok declared)
    (hid : key ≠ "id")
    (hplain : ∀ f ∈ declared, f.name = key → f.isRelation ∨ f.embedding = none) :
    Table.find? stored key = suppliedFor declared data key := by
  obtain ⟨doc, inline, out, ids, ids', hsplit, hassign, rfl⟩ := h
  obtain ⟨declared', hdeclared', hinline⟩ := splitDocument_record hsplit
  rw [hdeclared] at hdeclared'
  cases hdeclared'
  have hnames := hr.fieldsOf hdeclared
  have hdoc := splitInline_find? hnames hinline key
  have hembedded : r.fieldsOfEmbedded (some model) = .ok declared := hdeclared
  have hassigned : _ → Table.find? out key = Table.find? doc key :=
    assignIds_find? hembedded hassign
  rw [Table.find?_remove_ne hid.symm]
  cases found : declared.find? fun f => f.name == key with
  | none =>
    have hnone : ∀ f ∈ declared, f.name ≠ key := by simpa using List.find?_eq_none.mp found
    rw [found] at hdoc
    rw [hassigned (Or.inl fun f hf hname => absurd hname (hnone f hf)), hdoc]
    unfold suppliedFor
    rw [if_neg]
    rw [List.any_eq_true]
    rintro ⟨f, hf, h⟩
    exact hnone f hf (beq_iff_eq.mp (Bool.and_eq_true_iff.mp h).1)
  | some f =>
    have hf := List.mem_of_find?_eq_some found
    have hname : f.name = key := by simpa using List.find?_some found
    have honly : ∀ g ∈ declared, g.name = key → g = f := fun g hg h =>
      List.inj_on_of_nodup_map hnames hg hf (h.trans hname.symm)
    rw [found] at hdoc
    unfold suppliedFor
    by_cases hrelation : f.isRelation
    · dsimp only at hdoc
      rw [if_pos hrelation] at hdoc
      rw [hassigned (Or.inr hdoc), hdoc, if_pos]
      exact List.any_eq_true.mpr ⟨f, hf, by simp [hname, hrelation]⟩
    · have hembeds := (hplain f hf hname).resolve_left hrelation
      dsimp only at hdoc
      rw [if_neg hrelation, if_neg (by simp [Field.isEmbeddedArray, hembeds])] at hdoc
      rw [hassigned (Or.inl fun g hg h => honly g hg h ▸ hembeds), hdoc, if_neg]
      rw [List.any_eq_true]
      rintro ⟨g, hg, h⟩
      obtain ⟨hg', hgr⟩ := Bool.and_eq_true_iff.mp h
      exact hrelation (honly g hg (beq_iff_eq.mp hg') ▸ hgr)

theorem Tree.StoredAs.isStored {r : Registry} (hr : r.Distinct) {t : Tree} {e : Entry}
    (h : t.StoredAs r e) : t.IsStored r e := by
  refine ⟨h.collection, h.id, fun declared hdeclared key hid hplain => ?_⟩
  obtain ⟨start, hstart, hlinked⟩ := h.fields
  have hsupplied := hstart.find? hr hdeclared hid hplain
  have hids : (linkedIds t.children key).Nodup :=
    (List.filter_sublist.map fun child : Field × Tree => child.2.id).nodup h.distinct
  rw [hlinked key]
  unfold Tree.expected Fields.get
  rw [hsupplied, Store.union_texts hids]

/-- The fields of a record are what it gives. -/
theorem Value.asFields_record (data : Fields) :
    Value.asFields (.record data) = .ok (Value.plainFields data) := by
  unfold Value.asFields
  show (if (Value.record (Value.plainFields data)).truthy then _ else _) = _
  split
  · rfl
  · rename_i h
    have hempty : Value.plainFields data = [] := by simpa [Value.truthy] using h
    rw [hempty]

theorem ModelOperations.load_shape_store {m : ModelOperations} {id created : Value} {s t : State}
    (h : (m.load id >>= m.shape) s = (.ok created, t)) : t.store = s.store := by
  obtain ⟨doc, u, hload, hshape⟩ := Step.bind_ok h
  unfold shape State.onTypes at hshape
  obtain ⟨types, -, rfl⟩ := Step.zoom_eq hshape
  unfold load at hload
  obtain ⟨found, u', hfind, hdoc⟩ := Step.bind_ok hload
  obtain ⟨store, hfind', rfl⟩ := Step.zoom_eq hfind
  cases hfind'
  cases hfound : (s.store.find? m.model.storedIn id.display).map Entry.document with
  | none => rw [hfound] at hdoc; cases hdoc
  | some doc => rw [hfound] at hdoc; cases hdoc; rfl

/-- A creation without hooks adds the documents of its payload's tree, one for each node in the
order of the nodes, under new ids, and changes no document that was there. -/
theorem create_adds_tree {m : ModelOperations} {ctx input created : Value} {s t : State}
    (hr : m.registry.Reachable) (hhooks : m.hooks = {})
    (h : m.create ctx input s = (.ok created, t)) :
    ∃ data tree added, input.asFields = .ok data ∧
      Tree.Of m.registry m.model (.record data) tree ∧
      t.store.entries = s.store.entries ++ added ∧
      List.Forall₂ (Tree.IsStored m.registry) tree.nodes added ∧
      (added.map Entry.id).Nodup ∧ ∀ e ∈ added, s.store.uses e.id = false := by
  obtain ⟨data, id, u, hdata, hstore, hload⟩ := ModelOperations.create_ok hhooks h
  have hdistinct := hr.distinct
  obtain ⟨tree, added, hof, -, hadds⟩ := storeWithParts_ok hdistinct (Value.asFields_record data)
    (fun _ _ _ _ _ target item _ => createInline_storesTree hdistinct target item) hstore
  refine ⟨data, tree, added, hdata, hof, ?_, hadds.stored.imp fun _ _ h => h.isStored hdistinct,
    hadds.distinct, hadds.fresh⟩
  rw [ModelOperations.load_shape_store hload]
  exact hadds.entries

/-- A field that lists sub-objects of a model, whose ids are kept in another field. -/
def Field.listing (name target link : String) : Field :=
  { name
    storageType := "array"
    requiredOnCreate := false
    excludedOnUpdate := true
    excludedOnOutput := true
    relation := some ⟨some referencesManyKind, target, link⟩ }

/-- A field that holds a list of ids. -/
def Field.idList (name : String) : Field :=
  { name
    storageType := "array"
    requiredOnCreate := false
    typeOverride := some (.list (.scalar .id)) }

def authorModel : Definition :=
  ⟨"Author", [{ name := "name" }, .listing "books" "Book" "bookIds", .idList "bookIds"],
    .all, false, "", false, none⟩

def bookModel : Definition :=
  ⟨"Book", [{ name := "title" }, .listing "chapters" "Chapter" "chapterIds", .idList "chapterIds"],
    .all, false, "", false, none⟩

def chapterModel : Definition :=
  ⟨"Chapter", [{ name := "title" }], .all, false, "", false, none⟩

/-- Authors with books with chapters. -/
def libraryModels : Registry where
  definitions := [authorModel, bookModel, chapterModel]
  models := [("Author", ⟨0, authorModel.declaredFields⟩), ("Book", ⟨1, bookModel.declaredFields⟩),
    ("Chapter", ⟨2, chapterModel.declaredFields⟩)]

theorem libraryModels_reachable : libraryModels.Reachable := by
  have hdefined := Registry.Reachable.defined libraryModels.definitions
  exact ((hdefined.registered 0 rfl).registered 1 rfl).registered 2 rfl

/-- An author with two books, of which one has two chapters and the other one none. -/
def authorInput : Value :=
  .record [("name", .text "Ada"), ("bookIds", .list [.text "0"]), ("books", .list [
    .record [("title", .text "One"),
      ("chapters", .list [.record [("title", .text "I")], .record [("title", .text "II")]])],
    .record [("title", .text "Two"), ("chapters", .null)]])]

/-- A state in which the output type of authors was built. -/
def libraryState : State where
  types := ⟨[(⟨"Author", .output⟩, libraryModels.shapeOf ⟨"Author", .output⟩)], []⟩

/-- The author, both books and both chapters are created. -/
theorem create_author_adds_tree :
    libraryModels.Reachable ∧ ∃ created t,
      ModelOperations.create ⟨libraryModels, {}, authorModel⟩ .null authorInput libraryState =
        (.ok created, t) ∧
      ∃ data tree added, authorInput.asFields = .ok data ∧
        Tree.Of libraryModels authorModel (.record data) tree ∧
        t.store.entries = libraryState.store.entries ++ added ∧
        List.Forall₂ (Tree.IsStored libraryModels) tree.nodes added ∧
        (added.map Entry.id).Nodup ∧ ∀ e ∈ added, libraryState.store.uses e.id = false := by
  -- The recursions are opened to the depth of the input; the rest is evaluated.
  have hinline := funext fun target => funext (createInline_eq libraryModels target)
  have houtput := funext fun model => funext (toOutput_eq libraryModels model)
  have hfield := funext fun f => funext (fieldOutput_eq libraryModels f)
  have htype := funext fun key => funext (typeOf_eq libraryModels key)
  have hcreated : (ModelOperations.create ⟨libraryModels, {}, authorModel⟩ .null authorInput
      libraryState).1.isOk = true := by
    unfold ModelOperations.create linkInline
    rw [hinline]
    unfold storeWithParts linkInline
    rw [hinline]
    unfold storeWithParts linkInline ModelOperations.shape
    rw [houtput, hfield, htype]
    decide +kernel
  generalize hcreate : ModelOperations.create ⟨libraryModels, {}, authorModel⟩ .null authorInput
    libraryState = result at hcreated
  obtain ⟨e | created, t⟩ := result
  · cases hcreated
  · exact ⟨libraryModels_reachable, created, t, rfl,
      create_adds_tree libraryModels_reachable rfl hcreate⟩

end DocumentApi
