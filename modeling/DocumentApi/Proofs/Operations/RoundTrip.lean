import DocumentApi.Proofs.Operations.Keeping
import DocumentApi.Proofs.Operations.Returning
import DocumentApi.Proofs.Operations.Creation

/-!
# What a creation gives back

* `StoredFields.carries`: a document is stored with every value that was supplied for it.
* `create_stored`: a creation stores the document of its payload and answers its instance.
* `findOne_after`: what was answered once is found again until an operation writes the document.
* `create_givesBack`: the answer of a creation gives back every output field that was supplied, and
  the document is found again with the same answer.
* `create_order_givesBack`: an order with lines and notes comes back.
* `create_order_hides_id`: a part in a line of an order comes back without an id.
-/

namespace DocumentApi

open TypeCache (Sound)

/-- A field of a document keeps ids of its sub-objects. -/
def Registry.IsLink (r : Registry) (model key : String) : Prop :=
  ∃ declared, r.fieldsOf model = .ok declared ∧
    ∃ f ∈ declared, f.isRelation ∧ linkFieldOf f = key

variable {r : Registry} {types : TypeCache}

theorem Tree.ChildrenOf.mem {parts : List (Field × Value)} {children : List (Field × Tree)}
    (h : ChildrenOf r parts children) {child : Field × Tree} (hchild : child ∈ children) :
    ∃ v, (child.1, v) ∈ parts := by
  induction children generalizing parts with
  | nil => exact absurd hchild List.not_mem_nil
  | cons other children ih =>
    cases h with
    | @cons f v _ _ _ _ _ _ rest =>
      rcases List.mem_cons.mp hchild with rfl | hchild
      · exact ⟨v, List.mem_cons_self⟩
      · obtain ⟨w, hw⟩ := ih rest hchild
        exact ⟨w, List.mem_cons_of_mem _ hw⟩

/-- Nothing is linked in a field that is no link field. -/
theorem Tree.Of.linkedIds_eq_nil {d : Definition} {v : Value} {t : Tree} {key : String}
    (h : t.Of r d v) (hkey : ¬ r.IsLink d.name key) : Tree.linkedIds t.children key = [] := by
  cases h with
  | @node _ _ _ _ declared children _ hdeclared hparts =>
    unfold linkedIds
    rw [List.map_eq_nil_iff, List.filter_eq_nil_iff]
    intro child hchild hlink
    obtain ⟨w, hw⟩ := hparts.mem hchild
    obtain ⟨f, hf, hitem⟩ := List.mem_flatMap.mp hw
    obtain ⟨item, -, hpair⟩ := List.mem_map.mp hitem
    cases hpair
    obtain ⟨hmem, hrelation⟩ := List.mem_filter.mp hf
    exact hkey ⟨declared, hdeclared, child.1, hmem, hrelation, by simpa using hlink⟩

theorem Inhabits.plain_isNull (hs : Sound r types) (hr : r.Regular) {t : TypeRef} {v : Value}
    (h : Inhabits types t v) (hv : v.isNull = false) : v.plain.isNull = false :=
  match h with
  | .string _ => rfl
  | .id _ => rfl
  | .int _ => rfl
  | .float _ => rfl
  | .whole _ => rfl
  | .boolean _ => rfl
  | .member declared first => (hs.member hr declared first).1
  | .list _ => rfl
  | .null => hv
  | .given h => h.plain_isNull hs hr hv
  | .object _ _ => rfl

theorem Value.asFields_object (typeName : Option String) (entries : Fields) :
    Value.asFields (.object typeName entries) = .ok (Value.plainFields entries) := by
  unfold Value.asFields
  rw [Value.plain]
  split
  · rfl
  · rename_i h
    have hempty : Value.plainFields entries = [] := by simpa [Value.truthy] using h
    rw [hempty]

theorem Field.find?_of_mem {declared : List Field} {f : Field}
    (hnames : (declared.map Field.name).Nodup) (hf : f ∈ declared) :
    declared.find? (fun g => g.name == f.name) = some f := by
  cases found : declared.find? fun g => g.name == f.name with
  | none => exact absurd (beq_self_eq_true f.name) (List.find?_eq_none.mp found f hf)
  | some g =>
    have hname : g.name = f.name := by simpa using List.find?_some found
    rw [List.inj_on_of_nodup_map hnames (List.mem_of_find?_eq_some found) hf hname]

/-- A document is stored with every value that its payload has for a declared field. -/
theorem StoredFields.carries (hr : r.Distinct) {model : String} {data stored : Fields}
    {declared : List Field} {f : Field} {v : Value} (h : StoredFields r model data stored)
    (hdeclared : r.fieldsOf model = .ok declared) (hf : f ∈ declared) (hid : f.name ≠ "id")
    (hrelation : f.isRelation = false) (hv : Table.find? data f.name = some v)
    (hnull : v.isNull = false) : ∃ w, Table.find? stored f.name = some w ∧ Carries r f v w := by
  obtain ⟨doc, inline, out, ids, ids', hsplit, hassign, rfl⟩ := h
  obtain ⟨declared', hdeclared', hinline⟩ := splitDocument_record hsplit
  rw [hdeclared] at hdeclared'
  cases hdeclared'
  have hnames := hr.fieldsOf hdeclared
  have hfound := Field.find?_of_mem hnames hf
  have hdoc := splitInline_find? hnames hinline f.name
  rw [hfound] at hdoc
  dsimp only at hdoc
  rw [hrelation, if_neg Bool.false_ne_true, Fields.get_of_find? hv, hnull, Bool.and_false,
    if_neg Bool.false_ne_true, hv] at hdoc
  have hembedded : r.fieldsOfEmbedded (some model) = .ok declared := hdeclared
  rw [Table.find?_remove_ne hid.symm]
  exact assignIds_carries hembedded hnames hf hdoc hassign

/-- A document that is stored without an id is not given one with its parts. -/
theorem assignIds_no_id (hr : r.Distinct) {model : String} {data doc out : Fields}
    {inline : Inline} {ids ids' : IdSource} (hid : Table.find? data "id" = none)
    (hsplit : splitDocument r model (.record data) = .ok (doc, inline))
    (hassign : assignIds r (some model) doc ids = (.ok out, ids')) :
    (Fields.get out "id").truthy = false := by
  obtain ⟨declared, hdeclared, hinline⟩ := splitDocument_record hsplit
  have hnames := hr.fieldsOf hdeclared
  have hembedded : r.fieldsOfEmbedded (some model) = .ok declared := hdeclared
  have hdoc := splitInline_find? hnames hinline "id"
  have habsent : Table.find? doc "id" = none → (Fields.get out "id").truthy = false := by
    intro hnone
    unfold Fields.get
    rw [assignIds_find? hembedded hassign (Or.inr hnone), hnone]
    rfl
  cases found : declared.find? fun f => f.name == "id" with
  | none =>
    rw [found] at hdoc
    exact habsent (hdoc.trans hid)
  | some f =>
    have hf := List.mem_of_find?_eq_some found
    have hname : f.name = "id" := by simpa using List.find?_some found
    rw [found] at hdoc
    dsimp only at hdoc
    by_cases hrelation : f.isRelation
    · rw [if_pos hrelation] at hdoc
      exact habsent hdoc
    rw [if_neg hrelation] at hdoc
    by_cases hempty : (f.isEmbeddedArray && (Fields.get data "id").isNull) = true
    · -- A field `id` that embeds a list starts with an empty list, and keeps it.
      rw [if_pos hempty, ← hname] at hdoc
      obtain ⟨w, hw, hcarries⟩ := assignIds_carries hembedded hnames hf hdoc hassign
      rw [← hname, Fields.get_of_find? hw]
      unfold Field.isEmbeddedArray at hempty
      simp only [Bool.and_eq_true] at hempty
      unfold Carries at hcarries
      rw [if_pos hempty.1.1, hempty.1.2] at hcarries
      obtain ⟨i, i', hcarries⟩ := hcarries
      rw [assignIn, if_pos rfl] at hcarries
      obtain ⟨ws, i₁, hws, hcarries⟩ := Step.bind_ok hcarries
      cases hcarries
      cases hws
      rfl
    · rw [if_neg hempty] at hdoc
      exact habsent (hdoc.trans hid)

/-- A document that is stored without an id gets one. -/
theorem storeWithParts_ne_empty (hr : r.Distinct) {d : Definition} {data : Fields} {s t : State}
    {id : String} (hid : Table.find? data "id" = none)
    (h : storeWithParts r d data s = (.ok id, t)) : id ≠ "" := by
  unfold storeWithParts at h
  obtain ⟨⟨doc, inline⟩, s', hsplit, h⟩ := Step.bind_ok h
  obtain ⟨hsplit', rfl⟩ := Step.ofExcept_ok hsplit
  obtain ⟨out, s₁, hout, h⟩ := Step.bind_ok h
  obtain ⟨ids, hassign, rfl⟩ := Step.zoom_eq hout
  obtain ⟨stored, s₂, hinsert, h⟩ := Step.bind_ok h
  obtain ⟨id', -, hstored, hnew, -⟩ := State.insert_ok hinsert
  obtain ⟨answers, s₃, -, h⟩ := Step.bind_ok h
  cases h
  rw [hstored]
  exact hnew (assignIds_no_id hr hid hsplit' hassign)

/-- The first of the nodes that are added is found by its id. -/
theorem Adds.find? {s t : Store} {tree : Tree} {nodes : List Tree} {added : List Entry}
    (h : Adds r s t (tree :: nodes) added) :
    ∃ e, tree.StoredAs r e ∧ t.find? tree.model.storedIn tree.id = some e := by
  obtain ⟨hentries, hstored, -, hfresh⟩ := h
  obtain ⟨e, rest, he, -, rfl⟩ := List.forall₂_cons_left_iff.mp hstored
  refine ⟨e, he, ?_⟩
  have hstore : t = ⟨s.entries ++ e :: rest⟩ := by rw [← hentries]
  rw [hstore, ← he.collection, ← he.id]
  exact Store.find?_middle (Store.uses_eq_false.mp (hfresh e List.mem_cons_self))

namespace ModelOperations

variable {m : ModelOperations} {id : String} {e : Entry} {s t : State} {v : Value}

theorem load_eq (h : s.store.find? m.model.storedIn id = some e) :
    m.load (.text id) s = (.ok e.document, s) := by
  have hfind : State.onStore (Store.findById m.model.storedIn (Value.text id).display) s =
      (.ok (some e.document), s) := by
    change (Except.ok ((s.store.find? m.model.storedIn id).map Entry.document), s) = _
    rw [h]
    rfl
  exact Step.bind_of_ok hfind

/-- A document whose instance the types of a state have settled is answered by that instance. -/
theorem findOne_eq (hhooks : m.hooks = {}) (hfound : s.store.find? m.model.storedIn id = some e)
    (hshape : m.shape e.document s = (.ok v, s)) (ctx : Value) :
    m.findOne ctx (.text id) s = (.ok v, s) := by
  unfold findOne
  rw [m.dispatch_eq hhooks]
  refine (Step.bind_of_ok (t := s) rfl).trans ((Step.bind_of_ok (load_eq hfound)).trans ?_)
  refine (Step.bind_of_ok hshape).trans ?_
  rw [m.dispatch_eq hhooks]
  rfl

end ModelOperations

/-- A document that was answered once is found with the same answer after calls that do not write
it. -/
theorem findOne_after {d : Definition} {e : Entry} {v : Value} {s : State} {later : TypeCache}
    {calls : List Call} (hs : Sound r s.types) (hcollection : e.collection = d.storedIn)
    (hfound : s.store.find? d.storedIn e.id = some e)
    (houtput : toOutput r (some d.name) (.record e.document) s.types = (.ok v, later))
    (hcalls : ∀ call ∈ calls, call.op.written? r call.args ≠ some (d.storedIn, e.id))
    (ctx : Value) :
    ModelOperations.findOne ⟨r, {}, d⟩ ctx (.text e.id) ({ s with types := later }.runAll r calls) =
      (.ok v, { s with types := later }.runAll r calls) := by
  obtain ⟨-, hlater, hsettled⟩ := ((output_settles r).1 _ _ s.types hs).of_eq houtput
  have hkept : Kept r later [e] { s with types := later } := by
    refine ⟨TypeCache.le_refl _, hlater, fun other hother => ?_⟩
    rw [List.mem_singleton.mp hother, hcollection]
    exact hfound
  have hapart : ∀ call ∈ calls, ∀ other ∈ [e],
      call.op.written? r call.args ≠ some (other.collection, other.id) := by
    intro call hcall other hother
    rw [List.mem_singleton.mp hother, hcollection]
    exact hcalls call hcall
  have hended := hkept.runAll hapart
  have hstored := hended.found e List.mem_cons_self
  rw [hcollection] at hstored
  refine ModelOperations.findOne_eq rfl hstored ?_ ctx
  unfold ModelOperations.shape State.onTypes Step.zoom
  dsimp only
  rw [hsettled _ rfl _ hended.types hended.sound]

/-- A creation stores the document of its payload, which is found by its id, and answers its
instance. -/
theorem create_stored {d : Definition} {ctx input created : Value} {data : Fields} {s t : State}
    (hr : r.Distinct) (hs : Sound r s.types) (hdata : input.asFields = .ok data)
    (hjson : (Value.record data).IsJson)
    (h : ModelOperations.create ⟨r, {}, d⟩ ctx input s = (.ok created, t)) :
    ∃ (children : List (Field × Tree)) (e : Entry) (u : State) (later : TypeCache),
      Tree.Of r d (.record data) (.node d e.id data children) ∧
      (Tree.node d e.id data children).StoredAs r e ∧
      (Table.find? data "id" = none → e.id ≠ "") ∧
      u.store.find? d.storedIn e.id = some e ∧ s.types ≤ u.types ∧ Sound r u.types ∧
      toOutput r (some d.name) (.record e.document) u.types = (.ok created, later) ∧
      t = { u with types := later } := by
  obtain ⟨data', id, u, hread, hstore, hload⟩ := ModelOperations.create_ok rfl h
  rw [hdata] at hread
  cases hread
  have hplain : Value.plainFields data = data := Value.record.inj hjson.plain
  rw [hplain] at hstore
  have hfields : Value.asFields (.record data) = .ok data := by
    rw [Value.asFields_record, hplain]
  obtain ⟨tree, added, hof, rfl, hadds⟩ := storeWithParts_ok hr hfields
    (fun _ _ _ _ _ target item _ => createInline_storesTree hr target item) hstore
  cases hof with
  | @node _ _ id data' declared children hread hdeclared hparts =>
    rw [hfields] at hread
    cases hread
    rw [Tree.nodes] at hadds
    obtain ⟨e, he, hfound⟩ := hadds.find?
    have hid : e.id = id := he.id
    subst hid
    have hkept : Kept r s.types [] u :=
      Step.Preserves.run (storeWithParts_keeps d data) (.of_sound hs) hstore
    obtain ⟨doc, u', hdoc, hshape⟩ := Step.bind_ok hload
    rw [ModelOperations.load_eq hfound] at hdoc
    cases hdoc
    unfold ModelOperations.shape State.onTypes at hshape
    obtain ⟨later, houtput, rfl⟩ := Step.zoom_eq hshape
    have hof : Tree.Of r d (.record data) (.node d e.id data children) :=
      .node hfields hdeclared hparts
    exact ⟨children, e, u, later, hof, he, fun hnone => storeWithParts_ne_empty hr hnone hstore,
      hfound, hkept.types, hkept.sound, houtput, rfl⟩

/-- `DocumentBack r d id x y`: for the input `x` of a document, the answer `y` gives it back under
an id, with every output field for which a value was supplied. Fields that keep ids of sub-objects
are left out. -/
inductive DocumentBack (r : Registry) (d : Definition) (id : String) : Value → Value → Prop
  | instance {typeName : Option String} {entries out : Fields} {fields : List Field}
      (shown : r.outputFields (some d.name) = .ok fields)
      (names : Table.names out = fields.map Field.name)
      (back : ∀ f x y, f ∈ fields → ¬ r.IsLink d.name f.name → Table.find? entries f.name = some x →
        x.isNull = false → x.isUnset = false → Table.find? out f.name = some y → GivesBack r f x y)
      (given : id ≠ "")
      (showsId : ∀ f y, f ∈ fields → f.isId → Table.find? out f.name = some y →
        y.plain = .text id) :
      DocumentBack r d id (.object typeName entries) (.object (some d.name) out)

/-- A creation without hooks gives back what was supplied. The document is found with the same
answer after any calls of operations that do not write it, whatever those calls answer. -/
theorem create_givesBack {d : Definition} {ctx input created : Value} {s t : State}
    (hr : r.Reachable) (hregular : r.Regular) (hs : r.Running s)
    (hinput : Inhabits s.types (.model ⟨d.name, .create⟩) input)
    (h : ModelOperations.create ⟨r, {}, d⟩ ctx input s = (.ok created, t)) :
    ∃ id, DocumentBack r d id input created ∧ ∀ calls : List Call,
      (∀ call ∈ calls, call.op.written? r call.args ≠ some (d.storedIn, id)) →
      ∀ ctx', ModelOperations.findOne ⟨r, {}, d⟩ ctx' (.text id) (t.runAll r calls) =
        (.ok created, t.runAll r calls) := by
  have hsound := hs.sound
  have hdistinct := hr.distinct
  have hjson := hinput.plain_isJson hsound hregular
  cases hinput with
  | @object _ shape entries hbuilt hentries =>
    obtain ⟨declared, hdeclared⟩ := hsound.fieldsOf hbuilt
    obtain ⟨children, e, u, later, hof, he, hne, hfound, hle, hu, houtput, rfl⟩ := create_stored
      hdistinct hsound (Value.asFields_object (some shape.name) entries) hjson h
    obtain ⟨fields, out, hfields, rfl, hnames, hback, hshown⟩ := fieldsBack hsound hdistinct
      hregular hle hu hbuilt hentries hdeclared
      (fun _ _ v _ => comesBack hsound hdistinct hregular v) houtput
    have hid := hne (hentries.no_id hsound hbuilt hdeclared)
    have hcollection : e.collection = d.storedIn := he.collection
    refine ⟨e.id, .instance hfields hnames ?_ hid ?_, ?_⟩
    · intro f x y hf hlink hx hnull hset hy
      refine hback f x y hf hx hnull hset hy fun hmem hrelation hname => ?_
      obtain ⟨-, -, hvalue⟩ := FieldsInhabit.declared hsound hdistinct hbuilt hentries hdeclared
        hmem hx hnull hset
      obtain ⟨start, hstart, hlinked⟩ := he.fields
      obtain ⟨w, hw, hcarries⟩ := hstart.carries hdistinct hdeclared hmem hname hrelation
        (Value.find?_plainFields hx hset) (hvalue.plain_isNull hsound hregular hnull)
      refine ⟨w, ?_, hcarries⟩
      have hkept := hlinked f.name
      rw [if_pos (hof.linkedIds_eq_nil hlink), hw] at hkept
      exact (Table.find?_set_ne (Ne.symm hname)).trans hkept
    · intro f y hf hisId hy
      obtain ⟨c₁, c₂, hread⟩ := hshown f y e.id hf hisId (Table.find?_set_self _ _ _) hy
      exact fieldOutput_id hid hread
    · exact fun calls hcalls ctx' => findOne_after hu hcollection hfound houtput hcalls ctx'

/-! ## Orders -/

def orderStatus : EnumSpec := ⟨"Status", [("OPEN", .text "open"), ("DONE", .text "done")]⟩

/-- Parts show no id. -/
def partModel : Definition :=
  ⟨"Part", [{ Field.defaultId with excludedOnOutput := true }, { name := "name" }],
    .all, false, "", true, none⟩

def lineModel : Definition :=
  ⟨"Line", [{ name := "count", storageType := "number" },
    { name := "part", storageType := "object", embedding := some (.named "Part") }],
    .all, false, "", true, none⟩

def noteModel : Definition :=
  ⟨"Note", [{ name := "text" }], .all, false, "", false, none⟩

def orderModel : Definition :=
  ⟨"Order", [{ name := "status", enumSpec := some orderStatus },
    { name := "lines", storageType := "array", embedding := some (.named "Line"), many := true },
    .listing "notes" "Note" "noteIds", .idList "noteIds"],
    .all, false, "", false, none⟩

/-- Orders with lines of parts, and with notes beside them. -/
def orderModels : Registry where
  definitions := [partModel, lineModel, noteModel, orderModel]
  models := [("Part", ⟨0, partModel.declaredFields⟩), ("Line", ⟨1, lineModel.declaredFields⟩),
    ("Note", ⟨2, noteModel.declaredFields⟩), ("Order", ⟨3, orderModel.declaredFields⟩)]

theorem orderModels_reachable : orderModels.Reachable := by
  have hdefined := Registry.Reachable.defined orderModels.definitions
  exact (((hdefined.registered 0 rfl).registered 1 rfl).registered 2 rfl).registered 3 rfl

/-- The status of an order is the only enum. -/
theorem orderModels_enum {f : Field} {spec : EnumSpec} (hf : orderModels.HasField f)
    (hspec : f.enumSpec = some spec) : spec = orderStatus := by
  have hall : ∀ f ∈ orderModels.models.flatMap fun m => m.2.fields,
      f.enumSpec = none ∨ f.enumSpec = some orderStatus := by
    simp [orderModels, partModel, lineModel, noteModel, orderModel, Definition.declaredFields,
      Field.isId, Field.defaultId, Field.listing, Field.idList]
  rcases hall f hf.mem with hnone | hsome
  · rw [hnone] at hspec
    cases hspec
  · rw [hsome] at hspec
    cases hspec
    rfl

theorem orderModels_regular : orderModels.Regular := by
  have hall : ∀ f ∈ orderModels.models.flatMap fun m => m.2.fields,
      f.name ≠ "_id" ∧ (f.embedding.isSome → f.plainType?.isNone) := by decide
  refine ⟨fun f hf => (hall f hf.mem).1, fun f hf hembeds => ?_, fun f spec hf hspec => ?_⟩
  · exact Field.not_shadowed_iff.mpr (by simpa using (hall f hf.mem).2 hembeds)
  · rw [orderModels_enum hf hspec]
    intro member hmember
    rcases List.mem_cons.mp hmember with rfl | hmember
    · exact ⟨rfl, .text _⟩
    · rcases List.mem_cons.mp hmember with rfl | hmember
      · exact ⟨rfl, .text _⟩
      · exact absurd hmember List.not_mem_nil

/-- A state in which the types of orders were built. -/
def orderState : State where
  types := (buildAll orderModels {}).2

/-- An order of one line, with a note. -/
def orderInput : Value :=
  .object (some "CreateOrderInput") [("status", .member "Status" "DONE" (.text "done")),
    ("lines", .list [.object (some "CreateLineInput") [("count", .int 2),
      ("part", .object (some "CreatePartInput") [("name", .text "Nut")])]]),
    ("notes", .list [.object (some "CreateNoteInput") [("text", .text "Thanks")]]),
    ("noteIds", .unset)]

/-- The fields of an instance, or of the only instance of a list. -/
def Value.shown : Value → Fields
  | .object _ fields => fields
  | .list [.object _ fields] => fields
  | _ => []

/-- The names of what an order shows of the part of its only line. -/
def shownOfPart (order : Value) : List String :=
  Table.names (Fields.get (Fields.get order.shown "lines").shown "part").shown

/-- The types of orders are built, and the order is created. -/
theorem orders_evaluated : (buildAll orderModels {}).1.isOk ∧
    (∀ model ∈ ["Part", "Line", "Note", "Order"],
      (orderState.types.shape? ⟨model, .create⟩).isSome) ∧
    (Table.find? orderState.types.enums "Status").isSome ∧
    (ModelOperations.create ⟨orderModels, {}, orderModel⟩ .null orderInput
      orderState).1.toOption.map shownOfPart = some ["name"] := by
  -- The recursions are opened to the depth of the models and the input; the rest is evaluated.
  have hwhile := funext fun begun => funext (typeWhile.eq_def orderModels begun)
  have hfields := funext fun begun => funext fun key =>
    funext (fieldsWhile.eq_def orderModels begun key)
  have hinline := funext fun target => funext (createInline_eq orderModels target)
  have houtput := funext fun model => funext (toOutput_eq orderModels model)
  have hfield := funext fun f => funext (fieldOutput_eq orderModels f)
  have htype := funext fun key => funext (typeOf_eq orderModels key)
  unfold orderState ModelOperations.create linkInline
  rw [hinline]
  unfold storeWithParts linkInline ModelOperations.shape
  rw [houtput, hfield, houtput, hfield, houtput, hfield, htype]
  unfold buildAll buildModel filterTypeOf sortTypeOf typeOf
  rw [hwhile, hfields, hfields, hfields, hfields, hfields, hfields, hwhile]
  decide +kernel

theorem orderState_running : orderModels.Running orderState := by
  have hbuilt : buildAll orderModels {} = (.ok (), orderState.types) := by
    refine Prod.ext ?_ rfl
    have hok := orders_evaluated.1
    cases hanswer : (buildAll orderModels {}).1 with
    | error e =>
      rw [hanswer] at hok
      cases hok
    | ok answer => rfl
  exact .built hbuilt {} ⟨0, 0, 0⟩ []

theorem orderInput_inhabits :
    Inhabits orderState.types (.model ⟨"Order", .create⟩) orderInput := by
  have hsound := orderState_running.sound
  have hshape : ∀ model ∈ ["Part", "Line", "Note", "Order"],
      orderState.types.shape? ⟨model, .create⟩ = some (orderModels.shapeOf ⟨model, .create⟩) := by
    intro model hmodel
    obtain ⟨shape, hshape⟩ := Option.isSome_iff_exists.mp (orders_evaluated.2.1 model hmodel)
    rw [hshape, (hsound.shapes _ _ hshape).2]
  have henum : Table.find? orderState.types.enums "Status" = some orderStatus.members := by
    obtain ⟨members, hmembers⟩ := Option.isSome_iff_exists.mp orders_evaluated.2.2.1
    obtain ⟨f, spec, hf, hspec, rfl⟩ := hsound.enums _ _ hmembers
    rw [hmembers, orderModels_enum hf hspec]
  have hpart : Inhabits orderState.types (.model ⟨"Part", .create⟩)
      (.object (some "CreatePartInput") [("name", .text "Nut")]) :=
    .object (hshape "Part" (by simp)) (.given (.string _) .nil)
  have hline : Inhabits orderState.types (.model ⟨"Line", .create⟩)
      (.object (some "CreateLineInput") [("count", .int 2),
        ("part", .object (some "CreatePartInput") [("name", .text "Nut")])]) :=
    .object (hshape "Line" (by simp)) (.given (.whole 2) (.given hpart .nil))
  have hnote : Inhabits orderState.types (.model ⟨"Note", .create⟩)
      (.object (some "CreateNoteInput") [("text", .text "Thanks")]) :=
    .object (hshape "Note" (by simp)) (.given (.string _) .nil)
  refine .object (hshape "Order" (by simp)) (.given (.member henum rfl) (.given (.list ?_)
    (.given (.given (.list ?_)) (.leftOut rfl .nil))))
  · intro v hv
    rw [List.mem_singleton.mp hv]
    exact hline
  · intro v hv
    rw [List.mem_singleton.mp hv]
    exact hnote

/-- The order is created, and comes back. -/
theorem create_order_givesBack : orderModels.Reachable ∧ orderModels.Regular ∧
    orderModels.Running orderState ∧
    Inhabits orderState.types (.model ⟨orderModel.name, .create⟩) orderInput ∧ ∃ created t,
      ModelOperations.create ⟨orderModels, {}, orderModel⟩ .null orderInput orderState =
        (.ok created, t) ∧
      ∃ id, DocumentBack orderModels orderModel id orderInput created ∧ ∀ calls : List Call,
        (∀ call ∈ calls,
          call.op.written? orderModels call.args ≠ some (orderModel.storedIn, id)) →
        ∀ ctx', ModelOperations.findOne ⟨orderModels, {}, orderModel⟩ ctx' (.text id)
          (t.runAll orderModels calls) = (.ok created, t.runAll orderModels calls) := by
  have hshown := orders_evaluated.2.2.2
  generalize hcreate : ModelOperations.create ⟨orderModels, {}, orderModel⟩ .null orderInput
    orderState = result at hshown
  obtain ⟨e | created, t⟩ := result
  · cases hshown
  · exact ⟨orderModels_reachable, orderModels_regular, orderState_running, orderInput_inhabits,
      created, t, rfl, create_givesBack orderModels_reachable orderModels_regular
        orderState_running orderInput_inhabits hcreate⟩

/-- An embedded document does not come back with an id when its model shows none. -/
theorem create_order_hides_id : orderModels.Reachable ∧ orderModels.Regular ∧
    orderModels.Running orderState ∧
    Inhabits orderState.types (.model ⟨orderModel.name, .create⟩) orderInput ∧ ∃ created t,
      ModelOperations.create ⟨orderModels, {}, orderModel⟩ .null orderInput orderState =
        (.ok created, t) ∧
      shownOfPart created = ["name"] := by
  have hshown := orders_evaluated.2.2.2
  generalize hcreate : ModelOperations.create ⟨orderModels, {}, orderModel⟩ .null orderInput
    orderState = result at hshown
  obtain ⟨e | created, t⟩ := result
  · cases hshown
  · exact ⟨orderModels_reachable, orderModels_regular, orderState_running, orderInput_inhabits,
      created, t, rfl, Option.some.inj hshown⟩

end DocumentApi
