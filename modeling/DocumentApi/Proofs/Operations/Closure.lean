import DocumentApi.Proofs.Operations.Storing
import DocumentApi.Service.Operation

/-!
# What operations keep

An operation reads documents, draws ids, looks types up and runs hooks; beside these it makes a few
writes. A property of steps that all of the former have is one of the operation as soon as its
writes have it.

* `Closed r P`: steps that write no document have the property `P`, and so do steps one after another
  that have it.
* `Stores r P d`: storing a document of `d` and linking its sub-objects to it has the property.
* `Step.SparesStore`: the stored documents stay as they are, which is such a property.
* `createInline_closed`: a sub-object is stored with the property, when every model that is met on
  the way is.
* `Operation.run_closed`: an operation has the property when its writes and its hooks have it.
-/

namespace DocumentApi

/-- A property that steps have which write no document, also one after another. -/
structure Closed (r : Registry) (P : ∀ {α : Type}, Step State α → Prop) : Prop where
  pure : ∀ {α : Type} (a : α), P (Pure.pure a : Step State α)
  fail : ∀ {α : Type} (e : Error), P (Step.fail e : Step State α)
  bind : ∀ {α β : Type} {x : Step State α} {f : α → Step State β}, P x →
    (∀ a, x.Answers a → P (f a)) → P (x >>= f)
  onIds : ∀ {α : Type} (x : Step IdSource α), P (State.onIds x)
  output : ∀ (model : Option String) (doc : Value), P (State.onTypes (toOutput r model doc))
  typeOf : ∀ key : TypeKey, P (State.onTypes (typeOf r key))
  readStore : ∀ {α : Type} (f : Store → Except Error α), P (State.readStore f)
  findById : ∀ collection id : String, P (State.onStore (Store.findById collection id))

/-- A relation of a model points to another one. -/
def Registry.Points (r : Registry) (owner target : Definition) : Prop :=
  ∃ declared, r.fieldsOf owner.name = .ok declared ∧
    ∃ f ∈ declared, f.isRelation ∧ relationTarget r f = .ok target

/-- Storing a document of a model and linking its sub-objects to it has a property. -/
def Stores (r : Registry) (P : ∀ {α : Type}, Step State α → Prop) (d : Definition) : Prop :=
  ∀ (data : Fields) (inline : Inline),
    (∀ part ∈ inline, ∀ target, relationTarget r part.1 = .ok target → ∀ item ∈ part.2,
      P (createInline r target item)) →
    ∀ {α : Type} (x : Fields → Step State α), (∀ stored, P (x stored)) → P (do
      let stored ← State.insert d.storedIn data
      let _ ← Step.each (linkInline r d (Fields.get stored "id").display) inline
      x stored)

theorem splitDocument_points {r : Registry} {d : Definition} {v : Value} {doc : Fields}
    {inline : Inline} (h : splitDocument r d.name v = .ok (doc, inline)) :
    ∀ part ∈ inline, ∀ target, relationTarget r part.1 = .ok target → r.Points d target := by
  intro part hpart target htarget
  obtain ⟨declared, hdeclared, h⟩ := exceptBind_ok h
  split at h
  · obtain ⟨hmem, hrelation, -⟩ := splitInline_given h part hpart
    exact ⟨declared, hdeclared, part.1, hmem, hrelation, htarget⟩
  · cases h

namespace Closed

variable {r : Registry} {P : ∀ {α : Type}, Step State α → Prop} {α β : Type}

theorem ofExcept (hP : Closed r P) (x : Except Error α) : P (Step.ofExcept x) := by
  cases x with
  | error e => exact hP.fail e
  | ok a => exact hP.pure a

theorem each (hP : Closed r P) {f : α → Step State β} {xs : List α} (hf : ∀ x ∈ xs, P (f x)) :
    P (Step.each f xs) := by
  induction xs with
  | nil => exact hP.pure []
  | cons x xs ih =>
    refine hP.bind (hf x List.mem_cons_self) fun b _ => ?_
    refine hP.bind (ih fun y hy => hf y (List.mem_cons_of_mem _ hy)) fun bs _ => ?_
    exact hP.pure (b :: bs)

theorem fold (hP : Closed r P) {f : β → α → Step State β} {xs : List α} {b : β}
    (hf : ∀ b, ∀ x ∈ xs, P (f b x)) : P (Step.fold f b xs) := by
  induction xs generalizing b with
  | nil => exact hP.pure b
  | cons x xs ih =>
    refine hP.bind (hf b x List.mem_cons_self) fun b _ => ?_
    exact ih fun b y hy => hf b y (List.mem_cons_of_mem _ hy)

end Closed

/-- A step leaves the stored documents as they are. -/
def Step.SparesStore {α : Type} (x : Step State α) : Prop :=
  ∀ store, x.Preserves fun s => s.store = store

namespace Step.SparesStore

theorem eq {α : Type} {x : Step State α} (hx : x.SparesStore) {s t : State} {answer : Except Error α}
    (h : x s = (answer, t)) : t.store = s.store := (hx s.store).run rfl h

theorem closed (r : Registry) : Closed r Step.SparesStore where
  pure a := fun _ => .pure a
  fail e := fun _ => .fail e
  bind hx hf := fun store => .bind (hx store) fun a ha => hf a ha store
  onIds _ := fun _ _ hs => hs
  output _ _ := fun _ _ hs => hs
  typeOf _ := fun _ _ hs => hs
  readStore _ := fun _ _ hs => hs
  findById _ _ := fun _ _ hs => hs

end Step.SparesStore

/-! ## Sub-objects -/

section SubObjects

variable {r : Registry} {P : ∀ {α : Type}, Step State α → Prop} {d : Definition}

theorem storeWithParts_closed (hP : Closed r P) (hd : Stores r P d) {data : Fields}
    (hitems : ∀ doc inline, splitDocument r d.name (.record data) = .ok (doc, inline) →
      ∀ part ∈ inline, ∀ target, relationTarget r part.1 = .ok target → ∀ item ∈ part.2,
        P (createInline r target item)) : P (storeWithParts r d data) := by
  refine hP.bind (hP.ofExcept _) fun split hsplit => ?_
  obtain ⟨doc, inline⟩ := split
  refine hP.bind (hP.onIds _) fun doc' _ => ?_
  exact hd doc' inline (hitems doc inline hsplit.ofExcept) _ fun stored => hP.pure _

/-- A sub-object and all that it holds are stored by steps with a property, when the model that it is
of and those that its relations lead to are. -/
theorem createInline_closed (hP : Closed r P) {Q : Definition → Prop}
    (hQ : ∀ d, Q d → Stores r P d) (hnext : ∀ d next, Q d → r.Points d next → Q next)
    {target : Definition} (htarget : Q target) (item : Value) :
    P (createInline r target item) := by
  induction target, item using createInline.induct r with
  | case1 target item e he =>
    rw [createInline_eq, he]
    exact hP.fail e
  | case2 target item data hdata e he =>
    rw [createInline_eq, hdata]
    refine storeWithParts_closed hP (hQ target htarget) fun doc inline hsplit => ?_
    rw [he] at hsplit
    cases hsplit
  | case3 target item data hdata doc inline hsplit ih =>
    rw [createInline_eq, hdata]
    refine storeWithParts_closed hP (hQ target htarget) ?_
    intro doc' inline' hsplit' part hpart next hpoints v hv
    rw [hsplit] at hsplit'
    cases hsplit'
    exact ih ⟨part, hpart⟩ next ⟨v, hv⟩
      (hnext target next htarget (splitDocument_points hsplit part hpart next hpoints))

end SubObjects

/-! ## Operations of a model -/

namespace ModelOperations

variable {m : ModelOperations} {P : ∀ {α : Type}, Step State α → Prop}

theorem load_closed (hP : Closed m.registry P) (id : Value) : P (m.load id) := by
  refine hP.bind (hP.findById _ _) fun found _ => ?_
  cases found with
  | some doc => exact hP.pure doc
  | none => exact hP.fail _

/-- What is loaded of an id is the document that is stored under it. -/
theorem load_answer (m : ModelOperations) (id : Value) (s : State) :
    m.load id s = ((s.store.find? m.model.storedIn id.display).elim
      (.error (.documentMissing m.model.name id)) fun e => .ok e.document, s) := by
  have hfind : State.onStore (Store.findById m.model.storedIn id.display) s =
      (.ok ((s.store.find? m.model.storedIn id.display).map Entry.document), s) := rfl
  refine (Step.bind_of_ok hfind).trans ?_
  cases s.store.find? m.model.storedIn id.display <;> rfl

variable (hP : Closed m.registry P) (hhooks : ∀ phase payload, P (m.dispatch phase payload))
  (ctx : Value)

include hP

include hhooks in
theorem create_closed (hstores : Stores m.registry P m.model)
    (hparts : ∀ target, m.registry.Points m.model target → ∀ item,
      P (createInline m.registry target item)) (input : Value) : P (m.create ctx input) := by
  refine hP.bind (hP.ofExcept _) fun data _ => hP.bind (hhooks _ _) fun before _ => ?_
  refine hP.bind (hP.onIds _) fun prepared hprepared => ?_
  obtain ⟨doc, inline⟩ := prepared
  refine hstores doc inline ?_ _ fun stored => ?_
  · -- the sub-objects are those of relations that the model declares
    intro part hpart target hpoints item _
    obtain ⟨s, t, h⟩ := hprepared
    obtain ⟨ids, h, -⟩ := Step.zoom_eq h
    obtain ⟨⟨rest, inline'⟩, ids', hsplit, h⟩ := Step.bind_ok h
    obtain ⟨out, ids'', -, h⟩ := Step.bind_ok h
    cases (Step.pure_ok h).1
    exact hparts target (splitDocument_points (Step.ofExcept_ok hsplit).1 part hpart target hpoints)
      item
  · refine hP.bind (load_closed hP _) fun doc _ => hP.bind (hP.output _ _) fun created _ => ?_
    exact hP.bind (hhooks _ _) fun after _ => hP.pure _

include hhooks in
theorem update_closed {input : Value} (hupdate : ∀ data, input.asFields = .ok data → ∀ changes,
      P (State.onStore
        (Store.update m.model.storedIn (Fields.get data "id").display changes))) :
    P (m.update ctx input) := by
  refine hP.bind (hP.ofExcept _) fun data hdata => ?_
  dsimp only
  split
  · exact hP.fail _
  refine hP.bind (load_closed hP _) fun doc _ => hP.bind (hP.output _ _) fun old _ => ?_
  refine hP.bind (hhooks _ _) fun before _ => hP.bind (hP.ofExcept _) fun given _ => ?_
  refine hP.bind (hP.onIds _) fun changes _ => ?_
  refine hP.bind (hupdate data hdata.ofExcept changes) fun found _ => ?_
  cases found with
  | none => exact hP.fail _
  | some found =>
    refine hP.bind (load_closed hP _) fun doc _ => hP.bind (hP.output _ _) fun updated _ => ?_
    exact hP.bind (hhooks _ _) fun after _ => hP.pure _

include hhooks in
theorem findOne_closed (id : Value) : P (m.findOne ctx id) := by
  refine hP.bind (hhooks _ _) fun before _ => hP.bind (load_closed hP id) fun doc _ => ?_
  refine hP.bind (hP.output _ _) fun result _ => hP.bind (hhooks _ _) fun after _ => ?_
  exact hP.pure _

include hhooks in
theorem findMany_closed (filter sort search : Value) : P (m.findMany ctx filter sort search) := by
  refine hP.bind (hP.ofExcept _) fun filter _ => hP.bind (hP.ofExcept _) fun sort _ => ?_
  refine hP.bind (hhooks _ _) fun before _ => hP.bind (hP.ofExcept _) fun keys _ => ?_
  refine hP.bind (hP.ofExcept _) fun search _ => hP.bind (hP.readStore _) fun docs _ => ?_
  refine hP.bind (hP.each fun doc _ => hP.output _ _) fun items _ => ?_
  exact hP.bind (hhooks _ _) fun after _ => hP.pure _

include hhooks in
theorem remove_closed {id : Value}
    (hdelete : P (State.onStore (Store.delete m.model.storedIn id.display))) :
    P (m.remove ctx id) := by
  refine hP.bind (load_closed hP id) fun doc _ => hP.bind (hP.output _ _) fun old _ => ?_
  refine hP.bind (hhooks _ _) fun before _ => hP.bind hdelete fun existed _ => ?_
  cases existed with
  | true => exact hP.bind (hhooks _ _) fun after _ => hP.pure _
  | false => exact hP.fail _

theorem paginate_closed (filter sort page limit search : Value) :
    P (m.paginate filter sort page limit search) := by
  refine hP.bind (hP.ofExcept _) fun _ _ => hP.bind (hP.ofExcept _) fun _ _ => ?_
  refine hP.bind (hP.ofExcept _) fun filter _ => hP.bind (hP.ofExcept _) fun sort _ => ?_
  refine hP.bind (hP.ofExcept _) fun keys _ => hP.bind (hP.ofExcept _) fun search _ => ?_
  refine hP.bind (hP.readStore _) fun result _ => hP.bind (hP.typeOf _) fun shape _ => ?_
  refine hP.bind (hP.each fun doc _ => ?_) fun docs _ => hP.ofExcept _
  exact hP.bind (hP.ofExcept _) fun doc _ => hP.output _ _

end ModelOperations

/-! ## Operations of an embedded array -/

namespace EmbeddedOperations

variable {m : EmbeddedOperations} {P : ∀ {α : Type}, Step State α → Prop}

section Reading

variable (hP : Closed m.registry P)

include hP

theorem loadParent_closed (parentId : Value) : P (m.loadParent parentId) := by
  refine hP.bind (hP.findById _ _) fun found _ => ?_
  cases found with
  | some doc => exact hP.pure doc
  | none => exact hP.fail _

theorem getAll_closed (parentId : Value) : P (m.getAll parentId) := by
  refine hP.bind (loadParent_closed hP parentId) fun parent _ => ?_
  refine hP.bind (hP.ofExcept _) fun items _ => ?_
  exact hP.bind (hP.each fun item _ => hP.output _ _) fun items _ => hP.pure _

theorem getOne_closed (parentId id : Value) : P (m.getOne parentId id) := by
  refine hP.bind (loadParent_closed hP parentId) fun parent _ => ?_
  refine hP.bind (hP.ofExcept _) fun items _ => ?_
  split
  · exact hP.output _ _
  · exact hP.fail _

theorem mergeItems_closed (existing : Table Fields) (items : List Fields) :
    P (m.mergeItems existing items) := by
  induction items generalizing existing with
  | nil => exact hP.pure []
  | cons item items ih =>
    unfold mergeItems
    split
    · exact hP.fail _
    · refine hP.bind (hP.onIds _) fun merged _ => ?_
      exact hP.bind (ih _) fun rest _ => hP.pure (merged :: rest)

theorem changeFirst_closed (id : String) {change : Fields → Step State Fields}
    (h : ∀ item, P (change item)) (items : List Fields) : P (changeFirst id change items) := by
  induction items with
  | nil => exact hP.pure none
  | cons item items ih =>
    unfold changeFirst
    split
    · exact hP.bind (h item) fun changed _ => hP.pure _
    · exact hP.bind ih fun rest _ => hP.pure _

end Reading

variable {parentId : Value} (hP : Closed m.registry P)
  (hsave : ∀ items : Value, P (State.onStore
    (Store.update m.parent.storedIn parentId.display [(m.field.name, items)])))

include hP hsave

theorem save_closed (items : List Fields) : P (m.save parentId items) := by
  refine hP.bind (hsave _) fun found _ => ?_
  cases found with
  | some doc => exact hP.ofExcept _
  | none => exact hP.fail _

theorem create_closed (input : Value) : P (m.create parentId input) := by
  refine hP.bind (loadParent_closed hP parentId) fun parent _ => ?_
  refine hP.bind (hP.ofExcept _) fun given _ => hP.bind (hP.onIds _) fun id _ => ?_
  refine hP.bind (hP.onIds _) fun item _ => hP.bind (hP.ofExcept _) fun items _ => ?_
  refine hP.bind (save_closed hP hsave _) fun saved _ => ?_
  refine hP.bind (loadParent_closed hP parentId) fun parent _ => ?_
  refine hP.bind (hP.ofExcept _) fun items _ => ?_
  split
  · exact hP.output _ _
  · exact hP.fail _

theorem bulkUpdate_closed (input : Value) : P (m.bulkUpdate parentId input) := by
  refine hP.bind (loadParent_closed hP parentId) fun parent _ => ?_
  refine hP.bind (hP.ofExcept _) fun items _ => hP.bind (hP.ofExcept _) fun payload _ => ?_
  split
  · exact hP.fail _
  refine hP.bind (mergeItems_closed hP _ _) fun items _ => ?_
  refine hP.bind (save_closed hP hsave items) fun saved _ => ?_
  refine hP.bind (loadParent_closed hP parentId) fun parent _ => ?_
  refine hP.bind (hP.ofExcept _) fun items _ => ?_
  exact hP.bind (hP.each fun item _ => hP.output _ _) fun items _ => hP.pure _

theorem updateOne_closed (id input : Value) : P (m.updateOne parentId id input) := by
  refine hP.bind (loadParent_closed hP parentId) fun parent _ => ?_
  refine hP.bind (hP.ofExcept _) fun items _ => hP.bind (hP.ofExcept _) fun changes _ => ?_
  refine hP.bind (changeFirst_closed hP _ (fun item => hP.onIds _) _) fun items _ => ?_
  cases items with
  | none => exact hP.fail _
  | some items =>
    refine hP.bind (save_closed hP hsave items) fun saved _ => ?_
    split
    · exact hP.output _ _
    · exact hP.fail _

theorem remove_closed (ids : Value) : P (m.remove parentId ids) := by
  refine hP.bind (hP.ofExcept _) fun ids _ => ?_
  dsimp only
  split
  · exact hP.fail _
  refine hP.bind (loadParent_closed hP parentId) fun parent _ => ?_
  refine hP.bind (hP.ofExcept _) fun items _ => ?_
  exact hP.bind (save_closed hP hsave _) fun saved _ => hP.pure _

end EmbeddedOperations

/-! ## Operations of an api -/

/-- Whether an operation of an embedded array stores the array. -/
def EmbeddedApi.writes : EmbeddedApi → Bool
  | create | bulkUpdate | updateOne | remove => true
  | getOne | getAll => false

namespace Operation

/-- What an operation writes on behalf of a model, and the hooks that it runs, have a property. -/
structure Writes (op : Operation) (r : Registry) (hooks : HookTable) (args : Fields)
    (d : Definition) (P : ∀ {α : Type}, Step State α → Prop) : Prop where
  hooks : ∀ phase payload, P (ModelOperations.dispatch ⟨r, hooks, d⟩ phase payload)
  stores : op.action = .model .create →
    Stores r P d ∧ ∀ target, r.Points d target → ∀ item, P (createInline r target item)
  update : op.action = .model .update → ∀ data, (Fields.get args "input").asFields = .ok data →
    ∀ changes, P (State.onStore (Store.update d.storedIn (Fields.get data "id").display changes))
  delete : op.action = .model .remove →
    P (State.onStore (Store.delete d.storedIn (Fields.get args "id").display))
  save : ∀ api f, op.action = .embedded api f → api.writes → ∀ items, P (State.onStore
    (Store.update d.storedIn (Fields.get args "parent_id").display [(f.name, items)]))

variable {r : Registry} {hooks : HookTable} {P : ∀ {α : Type}, Step State α → Prop}
  {op : Operation} {args : Fields}

theorem run_closed (hP : Closed r P) (ctx : Value)
    (h : ∀ d, r.modelOf op.model = .ok d → op.Writes r hooks args d P) :
    P (op.run r hooks ctx args) := by
  refine hP.bind (hP.ofExcept _) fun d hd => ?_
  have h := h d hd.ofExcept
  cases haction : op.action with
  | model api =>
    have hm : Closed (ModelOperations.mk r hooks d).registry P := hP
    have hhooks := h.hooks
    cases api with
    | create =>
      obtain ⟨hstores, hparts⟩ := h.stores haction
      exact ModelOperations.create_closed hm hhooks ctx hstores hparts _
    | update => exact ModelOperations.update_closed hm hhooks ctx (h.update haction)
    | remove => exact ModelOperations.remove_closed hm hhooks ctx (h.delete haction)
    | findOne => exact ModelOperations.findOne_closed hm hhooks ctx _
    | findAll => exact ModelOperations.findMany_closed hm hhooks ctx _ _ _
    | paginate => exact ModelOperations.paginate_closed hm _ _ _ _ _
  | embedded api f =>
    have hm : Closed (EmbeddedOperations.mk r d f).registry P := hP
    have hsave := h.save api f haction
    cases api with
    | create => exact EmbeddedOperations.create_closed hm (hsave rfl) _
    | bulkUpdate => exact EmbeddedOperations.bulkUpdate_closed hm (hsave rfl) _
    | updateOne => exact EmbeddedOperations.updateOne_closed hm (hsave rfl) _ _
    | remove => exact EmbeddedOperations.remove_closed hm (hsave rfl) _
    | getOne => exact EmbeddedOperations.getOne_closed hm _ _
    | getAll => exact EmbeddedOperations.getAll_closed hm _

end Operation

end DocumentApi
