import DocumentApi.Proofs.Operations.RoundTrip
import DocumentApi.Proofs.Service.Offers
import DocumentApi.Proofs.Types.Supplying

/-!
# Operations that are given instances

* `Supplies.asFields_eq`, `Supplies.asFilter_eq`: all that an operation reads of an instance is what
  it supplies; in a filter the names of operators are read alike, too.
* `Operation.Supplied`: arguments, some of which are instances, and the same given plainly.
* `Operation.run_supplied`: an operation ends with instances as it does with what they supply.
-/

namespace DocumentApi

section Values

variable {r : Registry} {types : TypeCache}

/-! ## What is read of inputs -/

/-- What is stored of an instance's entries is what they supply, as far as a reading of entries
does not tell the attributes from the names. -/
theorem FieldsSupply.map_plainFields {α : Type} {read : String × Value → α}
    {fields : List TypeField} {entries plain : Fields}
    (hread : ∀ f ∈ fields, ∀ v w, Supplies r types f.type v w →
      read (f.attr, v.plain) = read (f.name, w))
    (h : FieldsSupply r types fields entries plain) :
    (Value.plainFields entries).map read = plain.map read := by
  induction entries generalizing fields plain with
  | nil => cases h; rfl
  | cons entry entries ih =>
    cases h with
    | @given f v w fields entries plain value rest =>
      obtain ⟨hfirst, hrest⟩ := List.forall_mem_cons.mp hread
      rw [Value.plainFields_cons, value.isUnset, if_neg Bool.false_ne_true, List.map_cons,
        List.map_cons, hfirst v w value, ih hrest rest]
    | leftOut rest =>
      rw [Value.plainFields_cons, if_pos (show Value.unset.isUnset = true from rfl)]
      exact ih (List.forall_mem_cons.mp hread).2 rest

theorem Value.IsJson.asFields {fields : Fields} (h : (Value.record fields).IsJson) :
    Value.asFields (.record fields) = .ok fields := by
  unfold Value.asFields
  rw [h.plain]
  cases fields with
  | nil => rfl
  | cons entry fields => rfl

theorem Supplies.asFields_eq (hs : types.Sound r) {t : TypeRef} {v w : Value}
    (ht : ¬ t.Conditional) (h : Supplies r types t v w) : v.asFields = w.asFields := by
  unfold Value.asFields
  rw [h.plain_eq hs ht, h.isJson.plain]

/-- A list of instances is read like the list of what they supply. -/
theorem Supplies.readItems_eq (hs : types.Sound r) {t : TypeRef} {v w : Value}
    (ht : ¬ t.Conditional) (h : Supplies r types (.list t) v w) :
    (do (← v.iterateGiven).mapM Value.asFields : Except Error (List Fields)) =
      (do (← w.iterateGiven).mapM Value.asFields) := by
  cases h with
  | member body | object body => cases body
  | @list t items plain h =>
    have hitems : items.mapM Value.asFields = plain.mapM Value.asFields := by
      induction items generalizing plain with
      | nil => cases h; rfl
      | cons item items ih =>
        cases h with
        | cons item rest => rw [List.mapM_cons, List.mapM_cons, item.asFields_eq hs ht, ih rest]
    cases h with
    | nil => rfl
    | cons => exact hitems

/-- The attribute of an operator stands for its name. -/
theorem Operator.operatorName_attr (op : Operator) : operatorName op.attr = operatorName op.name := by
  cases op <;> decide

/-- Conditions of an instance are read by the names of their operators. -/
theorem Supplies.renameOperators_eq (hs : types.Sound r) {owner field : String} {v w : Value}
    (h : Supplies r types (.optional (.conditions owner field)) v w) :
    renameOperators v.plain = renameOperators w := by
  cases h with
  | member body | object body => cases body
  | null => rfl
  | given h =>
    cases h with
    | member body =>
      obtain ⟨_, -, hbody⟩ := Option.map_eq_some_iff.mp body
      cases hbody
    | @object _ shape name entries plain body named h =>
      obtain ⟨_, hshape, hbody⟩ := Option.map_eq_some_iff.mp body
      cases hbody
      obtain ⟨f, -, hshape⟩ := Option.bind_eq_some_iff.mp hshape
      obtain ⟨t, ht, rfl⟩ := Option.map_eq_some_iff.mp hshape
      refine congrArg (fun conditions => Value.record (Table.ofPairs conditions))
        (h.map_plainFields fun tf htf v w hvalue => ?_)
      obtain ⟨op, -, rfl⟩ := List.mem_map.mp htf
      have htype := Field.plainType?_not_conditional ht
      refine Prod.ext op.operatorName_attr (hvalue.plain_eq hs ?_)
      dsimp only
      split <;> exact htype

/-- A filter is read like the record of what it supplies. -/
theorem Supplies.asFilter_eq (hs : types.Sound r) {model : String} {v w : Value}
    (h : Supplies r types (.optional (.model ⟨model, .filter⟩)) v w) : v.asFilter = w.asFilter := by
  cases h with
  | member body | object body => cases body
  | null => rfl
  | given h =>
    cases h with
    | member body =>
      obtain ⟨_, -, hbody⟩ := Option.map_eq_some_iff.mp body
      cases hbody
    | @object _ shape name entries plain body named h =>
      have hjson := Value.IsJson.record h.isJson
      obtain ⟨_, hkept, hbody⟩ := Option.map_eq_some_iff.mp body
      cases hbody
      obtain ⟨-, rfl⟩ := hs.shapes _ _ hkept
      unfold Value.asFilter
      rw [Value.asFields_object, hjson.asFields]
      refine congrArg Except.ok (h.map_plainFields fun tf htf v w hvalue => ?_)
      obtain ⟨f, -, rfl⟩ := List.mem_map.mp htf
      exact Prod.ext rfl (hvalue.renameOperators_eq hs)

end Values

/-! ## Operations -/

/-- The operations that are made of models and of embedded arrays. -/
inductive Operation.Generated : Operation → Prop
  | model (d : Definition) (listing : ListingArguments) (api : Api) :
    Generated (modelOperation d listing api)
  | embedded {d : Definition} {f : Field} {embedded : String} {op : Operation}
    (h : op ∈ embeddedOperations d f embedded) : Generated op

/-- Arguments of an operation, some of them given as instances, and the same arguments with what
these supply. -/
def Operation.Supplied (r : Registry) (types : TypeCache) (op : Operation) (args plain : Fields) :
    Prop :=
  ∀ key, Fields.get args key = Fields.get plain key ∨
    ∃ t, (key, t) ∈ op.args ∧ Supplies r types t (Fields.get args key) (Fields.get plain key)

section Operations

variable {r : Registry} {types : TypeCache} {op : Operation} {args plain : Fields}

/-- A reading of an argument that is the same for all that instances of its types supply. -/
theorem Operation.Supplied.read_eq (h : op.Supplied r types args plain) {α : Type}
    (read : Value → α) {key : String}
    (hread : ∀ t v w, (key, t) ∈ op.args → Supplies r types t v w → read v = read w) :
    read (Fields.get args key) = read (Fields.get plain key) := by
  rcases h key with heq | ⟨t, ht, hsupplies⟩
  · rw [heq]
  · exact hread t _ _ ht hsupplies

theorem ListingArguments.mem_args {l : ListingArguments} {model key : String} {t : TypeRef}
    (h : (key, t) ∈ l.args model) :
    (key = "filter" ∧ t = .optional (.model ⟨model, .filter⟩)) ∨
      (key = "sort" ∧ t = .optional (.model ⟨model, .sort⟩)) ∨
      key = "search" ∧ t = .optional (.scalar .string) := by
  simp only [args, List.mem_append] at h
  rcases h with (h | h) | h <;> split at h <;> simp_all

/-- The arguments by which documents are listed are read alike. -/
theorem Operation.Supplied.listing_eq (hs : types.Sound r) {l : ListingArguments} {model : String}
    (hop : ∀ e ∈ op.args, e = ("page", .scalar .int) ∨ e = ("limit", .scalar .int) ∨
      e ∈ l.args model) (h : op.Supplied r types args plain) :
    (Fields.get args "filter").asFilter = (Fields.get plain "filter").asFilter ∧
      (Fields.get args "sort").asFields = (Fields.get plain "sort").asFields ∧
      ∀ key ∈ ["search", "page", "limit"], Fields.get args key = Fields.get plain key := by
  have htype : ∀ {key : String} {t : TypeRef}, (key, t) ∈ op.args →
      (key = "filter" ∧ t = .optional (.model ⟨model, .filter⟩)) ∨
        (key = "sort" ∧ t = .optional (.model ⟨model, .sort⟩)) ∨
        key ∈ ["search", "page", "limit"] ∧ ∃ s, t.core = .scalar s := by
    intro key t ht
    rcases hop _ ht with heq | heq | hlisted
    · cases heq
      exact Or.inr (Or.inr ⟨by decide, _, rfl⟩)
    · cases heq
      exact Or.inr (Or.inr ⟨by decide, _, rfl⟩)
    · rcases ListingArguments.mem_args hlisted with hfilter | hsort | ⟨rfl, rfl⟩
      · exact Or.inl hfilter
      · exact Or.inr (Or.inl hsort)
      · exact Or.inr (Or.inr ⟨by decide, _, rfl⟩)
  refine ⟨h.read_eq Value.asFilter fun t v w ht hvalue => ?_,
    h.read_eq Value.asFields fun t v w ht hvalue => ?_, fun key hkey => h.read_eq id fun t v w ht hvalue => ?_⟩
  · rcases htype ht with ⟨-, rfl⟩ | ⟨hkey, -⟩ | ⟨hkey, -⟩
    · exact hvalue.asFilter_eq hs
    · exact absurd hkey (by decide)
    · exact absurd hkey (by decide)
  · rcases htype ht with ⟨hkey, -⟩ | ⟨-, rfl⟩ | ⟨hkey, -⟩
    · exact absurd hkey (by decide)
    · exact hvalue.asFields_eq hs fun hkind => by cases hkind
    · exact absurd hkey (by decide)
  · rcases htype ht with ⟨rfl, -⟩ | ⟨rfl, -⟩ | ⟨-, s, hs⟩
    · exact absurd hkey (by decide)
    · exact absurd hkey (by decide)
    · exact hvalue.eq_of_scalar hs

theorem Operation.runModel_supplied (hs : types.Sound r) {d : Definition}
    {listing : ListingArguments} {api : Api}
    (h : (modelOperation d listing api).Supplied r types args plain) (m : ModelOperations)
    (ctx : Value) : runModel m api ctx args = runModel m api ctx plain := by
  cases api with
  | create | update =>
    have hinput : (Fields.get args "input").asFields = (Fields.get plain "input").asFields :=
      h.read_eq Value.asFields fun t v w ht hvalue => by
        cases List.mem_singleton.mp ht
        exact hvalue.asFields_eq hs fun hkind => by cases hkind
    unfold runModel ModelOperations.create ModelOperations.update
    dsimp only
    rw [hinput]
  | remove | findOne =>
    have hid : Fields.get args "id" = Fields.get plain "id" :=
      h.read_eq id fun t v w ht hvalue => by
        cases List.mem_singleton.mp ht
        exact hvalue.eq_of_scalar rfl
    unfold runModel
    dsimp only
    rw [hid]
  | findAll =>
    have hargs : ∀ e ∈ (modelOperation d listing .findAll).args, e = ("page", .scalar .int) ∨
        e = ("limit", .scalar .int) ∨ e ∈ listing.args d.name := fun e he => Or.inr (Or.inr he)
    obtain ⟨hfilter, hsort, hscalars⟩ := h.listing_eq hs hargs
    have hsearch := hscalars "search" (by decide)
    unfold runModel ModelOperations.findMany
    dsimp only
    rw [hfilter, hsort, hsearch]
  | paginate =>
    have hargs : ∀ e ∈ (modelOperation d listing .paginate).args, e = ("page", .scalar .int) ∨
        e = ("limit", .scalar .int) ∨ e ∈ listing.args d.name := by
      intro e he
      rcases List.mem_append.mp he with he | he
      · rcases List.mem_pair.mp he with rfl | rfl
        · exact Or.inl rfl
        · exact Or.inr (Or.inl rfl)
      · exact Or.inr (Or.inr he)
    obtain ⟨hfilter, hsort, hscalars⟩ := h.listing_eq hs hargs
    have hsearch := hscalars "search" (by decide)
    have hpage := hscalars "page" (by decide)
    have hlimit := hscalars "limit" (by decide)
    unfold runModel ModelOperations.paginate
    dsimp only
    rw [hfilter, hsort, hsearch, hpage, hlimit]

/-- The type of the input of an operation of an embedded array. -/
def EmbeddedApi.inputType (embedded : String) : EmbeddedApi → TypeRef
  | .create => .model ⟨embedded, .create⟩
  | .bulkUpdate => .list (.model ⟨embedded, .update⟩)
  | _ => .model ⟨embedded, .update⟩

/-- An operation of an embedded array takes an input beside scalars. -/
theorem embeddedOperations_args {d : Definition} {f : Field} {embedded : String} {op : Operation}
    (h : op ∈ embeddedOperations d f embedded) :
    ∃ api : EmbeddedApi, op.action = .embedded api f ∧ ∀ e ∈ op.args,
      (∃ s, e.2.core = .scalar s) ∨ e = ("input", api.inputType embedded) := by
  have hscalar : ∀ {api : EmbeddedApi} {arg : String} {t : TypeRef}, t.core = .scalar .id →
      (∃ s, ((arg, t) : String × TypeRef).2.core = .scalar s) ∨
        (arg, t) = ("input", api.inputType embedded) := fun ht => Or.inl ⟨_, ht⟩
  simp only [embeddedOperations, List.mem_cons, List.not_mem_nil, or_false] at h
  rcases h with rfl | rfl | rfl | rfl | rfl | rfl
  · exact ⟨.create, rfl, List.forall_mem_cons.mpr
      ⟨hscalar rfl, List.forall_mem_singleton.mpr (Or.inr rfl)⟩⟩
  · exact ⟨.bulkUpdate, rfl, List.forall_mem_cons.mpr
      ⟨hscalar rfl, List.forall_mem_singleton.mpr (Or.inr rfl)⟩⟩
  · exact ⟨.updateOne, rfl, List.forall_mem_cons.mpr ⟨hscalar rfl, List.forall_mem_cons.mpr
      ⟨hscalar rfl, List.forall_mem_singleton.mpr (Or.inr rfl)⟩⟩⟩
  · exact ⟨.remove, rfl, List.forall_mem_cons.mpr
      ⟨hscalar rfl, List.forall_mem_singleton.mpr (hscalar rfl)⟩⟩
  · exact ⟨.getOne, rfl, List.forall_mem_cons.mpr
      ⟨hscalar rfl, List.forall_mem_singleton.mpr (hscalar rfl)⟩⟩
  · exact ⟨.getAll, rfl, List.forall_mem_singleton.mpr (hscalar rfl)⟩

theorem Operation.runEmbedded_supplied (hs : types.Sound r) {d : Definition} {f : Field}
    {embedded : String} (hop : op ∈ embeddedOperations d f embedded)
    (h : op.Supplied r types args plain) :
    ∃ api, op.action = .embedded api f ∧
      ∀ m, runEmbedded m api args = runEmbedded m api plain := by
  obtain ⟨api, haction, hargs⟩ := embeddedOperations_args hop
  refine ⟨api, haction, fun m => ?_⟩
  have hscalar : ∀ key, key ≠ "input" → Fields.get args key = Fields.get plain key := by
    intro key hkey
    refine h.read_eq id fun t v w ht hvalue => ?_
    rcases hargs _ ht with ⟨s, hscalar⟩ | hinput
    · exact hvalue.eq_of_scalar hscalar
    · exact absurd (congrArg Prod.fst hinput) hkey
  have hinput : ∀ {α : Type} {read : Value → α},
      (∀ v w, Supplies r types (api.inputType embedded) v w → read v = read w) →
      read (Fields.get args "input") = read (Fields.get plain "input") := by
    intro α read hread
    refine h.read_eq read fun t v w ht hvalue => ?_
    rcases hargs _ ht with ⟨s, hscalar⟩ | hinput
    · rw [hvalue.eq_of_scalar hscalar]
    · cases hinput
      exact hread v w hvalue
  have hparent := hscalar "parent_id" (by decide)
  have hid := hscalar "id" (by decide)
  cases api with
  | create =>
    have hfields := hinput fun v w hvalue => hvalue.asFields_eq hs fun hkind => by cases hkind
    unfold runEmbedded EmbeddedOperations.create
    dsimp only
    rw [hparent, hfields]
  | bulkUpdate =>
    have hitems := hinput fun v w hvalue => hvalue.readItems_eq hs fun hkind => by cases hkind
    unfold runEmbedded EmbeddedOperations.bulkUpdate
    dsimp only at hitems ⊢
    rw [hparent, hitems]
  | updateOne =>
    have hfields := hinput fun v w hvalue => hvalue.asFields_eq hs fun hkind => by cases hkind
    unfold runEmbedded EmbeddedOperations.updateOne
    dsimp only
    rw [hparent, hid, hfields]
  | remove =>
    have hids := hscalar "ids" (by decide)
    unfold runEmbedded
    dsimp only
    rw [hparent, hids]
  | getOne =>
    unfold runEmbedded
    dsimp only
    rw [hparent, hid]
  | getAll =>
    unfold runEmbedded
    dsimp only
    rw [hparent]

/-- An operation that is given instances ends, in every state, as if it were given what they
supply. -/
theorem Operation.run_supplied (hs : types.Sound r) (hop : op.Generated)
    (h : op.Supplied r types args plain) (hooks : HookTable) (ctx : Value) :
    op.run r hooks ctx args = op.run r hooks ctx plain := by
  unfold run
  refine bind_congr fun d => ?_
  cases hop with
  | model d' listing api =>
    rw [(modelOperation_model d' listing api).2]
    exact runModel_supplied hs h _ ctx
  | embedded hop =>
    obtain ⟨api, haction, heq⟩ := runEmbedded_supplied hs hop h
    rw [haction]
    exact heq _

end Operations

/-! ## Tasks -/

def taskStatus : EnumSpec := ⟨"TaskStatus", [("OPEN", .text "open"), ("DONE", .text "done")]⟩

/-- A step of a task may have a remark. -/
def stepModel : Definition :=
  ⟨"Step", [{ name := "text" }, { name := "remark", requiredOnCreate := false }],
    .all, false, "", true, none⟩

def taskModel : Definition :=
  ⟨"Task", [{ name := "title", sortable := true },
    { name := "status", enumSpec := some taskStatus, filterable := true },
    { name := "steps", storageType := "array", embedding := some (.named "Step"), many := true }],
    .all, false, "", false, none⟩

def taskModels : Registry where
  definitions := [stepModel, taskModel]
  models := [("Step", ⟨0, stepModel.declaredFields⟩), ("Task", ⟨1, taskModel.declaredFields⟩)]

def taskState : State where
  types := taskModels.builtTypes

theorem tasks_evaluated : (buildAll taskModels {}).1.isOk ∧
    (∀ key ∈ ([⟨"Step", .create⟩, ⟨"Task", .create⟩, ⟨"Task", .filter⟩, ⟨"Task", .sort⟩] :
      List TypeKey), (taskModels.builtTypes.shape? key).isSome) ∧
    (Table.find? taskModels.builtTypes.enums "TaskStatus").isSome := by
  -- The recursions are opened to the depth of the models; the rest is evaluated.
  have hwhile := funext fun begun => funext (typeWhile.eq_def taskModels begun)
  have hfields := funext fun begun => funext fun key =>
    funext (fieldsWhile.eq_def taskModels begun key)
  unfold Registry.builtTypes buildAll buildModel filterTypeOf sortTypeOf typeOf
  rw [hwhile, hfields, hfields, hfields, hfields, hfields, hwhile]
  decide +kernel

theorem taskState_running : taskModels.Running taskState :=
  .built (Step.eq_of_isOk tasks_evaluated.1) {} ⟨0, 0, 0⟩ []

theorem taskState_shape {key : TypeKey}
    (hkey : key ∈ ([⟨"Step", .create⟩, ⟨"Task", .create⟩, ⟨"Task", .filter⟩, ⟨"Task", .sort⟩] :
      List TypeKey)) :
    taskModels.bodyOf? taskState.types (.model key) = some (.shape (taskModels.shapeOf key)) := by
  obtain ⟨shape, hshape⟩ := Option.isSome_iff_exists.mp (tasks_evaluated.2.1 key hkey)
  obtain ⟨-, rfl⟩ := taskState_running.sound.shapes _ _ hshape
  show (taskModels.builtTypes.shape? key).map TypeBody.shape = _
  rw [hshape]
  rfl

/-- The status of a task is the only enum. -/
theorem taskState_enum : taskModels.bodyOf? taskState.types (.enum "TaskStatus") =
    some (.enum "TaskStatus" taskStatus.members) := by
  obtain ⟨members, hmembers⟩ := Option.isSome_iff_exists.mp tasks_evaluated.2.2
  obtain ⟨f, spec, hf, hspec, rfl⟩ := taskState_running.sound.enums _ _ hmembers
  have hall : ∀ f ∈ taskModels.models.flatMap fun m => m.2.fields,
      f.enumSpec = none ∨ f.enumSpec = some taskStatus := by
    simp [taskModels, stepModel, taskModel, Definition.declaredFields, Field.isId, Field.defaultId]
  rcases hall f hf.mem with hnone | hsome
  · rw [hnone] at hspec
    cases hspec
  · rw [hsome] at hspec
    cases hspec
    show (Table.find? taskModels.builtTypes.enums "TaskStatus").map _ = _
    rw [hmembers]
    rfl

/-- A task of two steps, of which one has no remark and the other leaves it out. -/
def taskInput : Fields :=
  [("input", .object (some "CreateTaskInput") [("title", .text "Shelf"),
    ("status", .member "TaskStatus" "OPEN" (.text "open")),
    ("steps", .list [
      .object (some "CreateStepInput") [("text", .text "Saw"), ("remark", .null)],
      .object (some "CreateStepInput") [("text", .text "Drill"), ("remark", .unset)]])])]

def plainTask : Fields :=
  [("input", .record [("title", .text "Shelf"), ("status", .text "open"),
    ("steps", .list [.record [("text", .text "Saw"), ("remark", .null)],
      .record [("text", .text "Drill")]])])]

/-- Open tasks, the last title first. -/
def openTasks : Fields :=
  [("filter", .object (some "TaskFilter") [("status", .object (some "TaskStatusFilter")
      [("eq", .unset), ("ne", .unset),
        ("in_", .list [.member "TaskStatus" "OPEN" (.text "open")]), ("notIn", .unset),
        ("gt", .unset), ("gte", .unset), ("lt", .unset), ("lte", .null)])]),
    ("sort", .object (some "TaskSort") [("title", .member "SortDirection" "DESC" (.text "desc"))])]

def plainOpenTasks : Fields :=
  [("filter", .record [("status", .record [("in", .list [.text "open"]), ("lte", .null)])]),
    ("sort", .record [("title", .text "desc")])]

theorem taskInput_supplied :
    (modelOperation taskModel ⟨true, true, false⟩ .create).Supplied taskModels taskState.types
      taskInput plainTask := by
  have hstep : taskModels.bodyOf? taskState.types (.model ⟨"Step", .create⟩) =
      some (.shape (taskModels.shapeOf ⟨"Step", .create⟩)) := taskState_shape (by decide)
  have htext : ∀ s : String, Supplies taskModels taskState.types (.scalar .string) (.text s)
      (.text s) := fun s => .scalar (.text s)
  have htask : Supplies taskModels taskState.types (.model ⟨"Task", .create⟩)
      (Fields.get taskInput "input") (Fields.get plainTask "input") :=
    .object (taskState_shape (by decide)) rfl (.given (htext _) (.given
      (.member taskState_enum List.mem_cons_self (.text _)) (.given (.list
        (.cons (.object hstep rfl (.given (htext _) (.given .null .nil)))
          (.cons (.object hstep rfl (.given (htext _) (.leftOut .nil))) .nil))) .nil)))
  intro key
  by_cases hkey : key = "input"
  · subst hkey
    exact Or.inr ⟨_, List.mem_cons_self, htask⟩
  · left
    simp [Fields.get, taskInput, plainTask, Table.find?, Ne.symm hkey]

theorem openTasks_supplied :
    (modelOperation taskModel ⟨true, true, false⟩ .findAll).Supplied taskModels taskState.types
      openTasks plainOpenTasks := by
  have hconditions : taskModels.bodyOf? taskState.types (.conditions "Task" "status") =
      (taskModel.fields[1].conditionsShape "Task").map .shape := rfl
  have hopen : Supplies taskModels taskState.types (.list (.enum "TaskStatus"))
      (.list [.member "TaskStatus" "OPEN" (.text "open")]) (.list [.text "open"]) :=
    .list (.cons (.member taskState_enum List.mem_cons_self (.text _)) .nil)
  have hfilter : Supplies taskModels taskState.types (.optional (.model ⟨"Task", .filter⟩))
      (Fields.get openTasks "filter") (Fields.get plainOpenTasks "filter") :=
    .given (.object (taskState_shape (by decide)) rfl (.given (.given (.object hconditions rfl
      (.leftOut (.leftOut (.given (.given hopen) (.leftOut (.leftOut (.leftOut (.leftOut
        (.given .null .nil)))))))))) .nil))
  have hsort : Supplies taskModels taskState.types (.optional (.model ⟨"Task", .sort⟩))
      (Fields.get openTasks "sort") (Fields.get plainOpenTasks "sort") :=
    .given (.object (taskState_shape (by decide)) rfl (.given (.given
      (.member rfl (List.mem_cons_of_mem _ List.mem_cons_self) (.text _))) .nil))
  intro key
  by_cases hkey : key = "filter"
  · subst hkey
    exact Or.inr ⟨_, List.mem_cons_self, hfilter⟩
  by_cases hkey' : key = "sort"
  · subst hkey'
    exact Or.inr ⟨_, List.mem_cons_of_mem _ List.mem_cons_self, hsort⟩
  · left
    simp [Fields.get, openTasks, plainOpenTasks, Table.find?, Ne.symm hkey, Ne.symm hkey']

/-- A task is created, and open tasks are found, alike by instances and by records. -/
theorem run_tasks_supplied : taskModels.Running taskState ∧
    (modelOperation taskModel ⟨true, true, false⟩ .create).Supplied taskModels taskState.types
      taskInput plainTask ∧
    (modelOperation taskModel ⟨true, true, false⟩ .findAll).Supplied taskModels taskState.types
      openTasks plainOpenTasks ∧
    (modelOperation taskModel ⟨true, true, false⟩ .create).run taskModels {} .null taskInput =
      (modelOperation taskModel ⟨true, true, false⟩ .create).run taskModels {} .null plainTask ∧
    (modelOperation taskModel ⟨true, true, false⟩ .findAll).run taskModels {} .null openTasks =
      (modelOperation taskModel ⟨true, true, false⟩ .findAll).run taskModels {} .null
        plainOpenTasks :=
  ⟨taskState_running, taskInput_supplied, openTasks_supplied,
    Operation.run_supplied taskState_running.sound (.model _ _ _) taskInput_supplied {} .null,
    Operation.run_supplied taskState_running.sound (.model _ _ _) openTasks_supplied {} .null⟩

end DocumentApi
