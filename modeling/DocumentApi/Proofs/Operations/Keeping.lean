import DocumentApi.Proofs.Operations.Closure
import DocumentApi.Proofs.Types.Outputs

/-!
# Documents that stay as they are

* `Kept`: a state knows at least the types of a cache, and has every document of a list.
* `Keeps`: a step that keeps that, whether it succeeds or not.
* `Operation.written?`: the document that an operation may change or remove.
* `Operation.run_keeps`: without hooks an operation keeps every other document.
* `Registry.Running`: the states of an api whose types were built. Their types are sound.
-/

namespace DocumentApi

open TypeCache (Sound)

/-- A state that knows what a cache of types knows, and has the documents of a list. -/
structure Kept (r : Registry) (c : TypeCache) (documents : List Entry) (s : State) : Prop where
  types : c ≤ s.types
  sound : Sound r s.types
  found : ∀ e ∈ documents, s.store.find? e.collection e.id = some e

/-- A state keeps its own types. -/
theorem Kept.of_sound {r : Registry} {s : State} (h : Sound r s.types) : Kept r s.types [] s :=
  ⟨TypeCache.le_refl _, h, fun _ he => absurd he List.not_mem_nil⟩

/-- A step that keeps the types and the documents, whether it succeeds or not. -/
def Keeps {α : Type} (r : Registry) (c : TypeCache) (documents : List Entry) (x : Step State α) :
    Prop :=
  x.Preserves (Kept r c documents)

/-- None of the documents is the one of an id in a collection. -/
def Apart (documents : List Entry) (collection id : String) : Prop :=
  ∀ e ∈ documents, ¬ (e.collection = collection ∧ e.id = id)

namespace Keeps

variable {α : Type} {r : Registry} {c : TypeCache} {documents : List Entry}

theorem onIds (x : Step IdSource α) : Keeps r c documents (State.onIds x) :=
  fun _ hs => ⟨hs.types, hs.sound, hs.found⟩

theorem onTypes {x : Step TypeCache α} (hx : Settles r x) :
    Keeps r c documents (State.onTypes x) := by
  intro s hs
  obtain ⟨hle, hs', -⟩ := hx s.types hs.sound
  exact ⟨TypeCache.le_trans hs.types hle, hs', hs.found⟩

/-- A step on the store that keeps each of the documents. -/
theorem onStore {x : Step Store α} (hx : ∀ e ∈ documents, ∀ s : Store,
    s.find? e.collection e.id = some e → (x s).2.find? e.collection e.id = some e) :
    Keeps r c documents (State.onStore x) :=
  fun s hs => ⟨hs.types, hs.sound, fun e he => hx e he s.store (hs.found e he)⟩

theorem findById (collection id : String) :
    Keeps r c documents (State.onStore (Store.findById collection id)) :=
  onStore fun _ _ _ h => h

end Keeps

namespace Store

/-- A change of one document leaves the others as they are. -/
theorem find?_change {s : Store} {collection id : String} {e : Entry} (f : Fields → Fields)
    (hother : ¬ (e.collection = collection ∧ e.id = id))
    (h : s.find? e.collection e.id = some e) :
    (s.change collection id f).find? e.collection e.id = some e := by
  unfold find? change at *
  dsimp only
  rw [List.find?_map]
  have hsame : (fun e' : Entry => e'.isAt e.collection e.id) ∘
      (fun e' : Entry =>
        if e'.isAt collection id then ⟨e'.collection, e'.id, f e'.fields⟩ else e') =
        fun e' => e'.isAt e.collection e.id := by
    funext e'
    dsimp only [Function.comp]
    split <;> rfl
  rw [hsame, h, Option.map_some, if_neg]
  simpa [Entry.isAt] using hother

theorem find?_remove {s : Store} {collection id : String} {e : Entry}
    (hother : ¬ (e.collection = collection ∧ e.id = id))
    (h : s.find? e.collection e.id = some e) :
    find? ⟨s.entries.filter fun e => !e.isAt collection id⟩ e.collection e.id = some e := by
  unfold find? at *
  dsimp only
  rw [List.find?_filter]
  have hsame : (fun e' : Entry => decide ((!e'.isAt collection id) = true ∧
      e'.isAt e.collection e.id = true)) = fun e' => e'.isAt e.collection e.id := by
    funext e'
    by_cases hat : e'.isAt e.collection e.id
    · have hkey : e'.collection = e.collection ∧ e'.id = e.id := by simpa [Entry.isAt] using hat
      have hnot : e'.isAt collection id = false := by
        simpa [Entry.isAt, hkey.1, hkey.2] using hother
      rw [hat, hnot]
      rfl
    · simp [hat]
  rw [hsame, h]

end Store

namespace Keeps

variable {r : Registry} {c : TypeCache} {documents : List Entry} {collection id : String}

theorem update (h : Apart documents collection id) (changes : Fields) :
    Keeps r c documents (State.onStore (Store.update collection id changes)) := by
  refine onStore fun e he s hfound => ?_
  unfold Store.update
  rw [Step.bind_run]
  dsimp only [Step.state]
  cases s.find? collection id with
  | none => exact hfound
  | some other => exact Store.find?_change _ (h e he) hfound

theorem delete (h : Apart documents collection id) :
    Keeps r c documents (State.onStore (Store.delete collection id)) := by
  refine onStore fun e he s hfound => ?_
  unfold Store.delete
  rw [Step.bind_run]
  dsimp only [Step.state]
  cases s.find? collection id with
  | none => exact hfound
  | some other => exact Store.find?_remove (h e he) hfound

theorem addToSet (h : Apart documents collection id) (field : String) (values : Value) :
    Keeps r c documents (State.onStore (Store.addToSet collection id field values)) := by
  refine onStore fun e he s hfound => ?_
  unfold Store.addToSet
  rw [Step.bind_run]
  dsimp only [Step.state]
  cases s.find? collection id with
  | none => exact hfound
  | some other =>
    dsimp only
    cases (Fields.get other.fields field).iterateGiven with
    | error e => exact hfound
    | ok items =>
      cases values.iterate with
      | error e => exact hfound
      | ok values => exact Store.find?_change _ (h e he) hfound

/-- A document is added beside the others, under an id that none of them has. -/
theorem insert (collection : String) (data : Fields) (s : State) (hs : Kept r c documents s) :
    (State.insert collection data).Ends s fun answer t => Kept r c documents t ∧
      ∀ stored, answer = .ok stored →
        ∀ owner, Apart documents owner (Fields.get stored "id").display := by
  have hinsert : ∀ id u, Kept r c documents u →
      (State.onStore (Store.insert collection id (Table.remove data "id"))).Ends u fun answer t =>
        Kept r c documents t ∧ ∀ stored, answer = .ok stored →
          ∀ owner, Apart documents owner (Fields.get stored "id").display := by
    intro id u hu
    refine Step.Ends.zoom ?_
    unfold Step.Ends
    rw [Store.insert_eq]
    by_cases huses : u.store.uses id
    · rw [if_pos huses]
      exact ⟨hu, fun stored h => by cases h⟩
    · rw [if_neg huses]
      refine ⟨⟨hu.types, hu.sound, fun e he => ?_⟩, fun stored h owner e he hsame => huses ?_⟩
      · have hfound := hu.found e he
        unfold Store.find? at hfound ⊢
        rw [List.find?_append, hfound]
        rfl
      · cases h
        have hid : e.id = id := by
          rw [hsame.2, Entry.document, Fields.get_set_self]
          rfl
        exact List.any_eq_true.mpr ⟨e, List.mem_of_find?_eq_some (hu.found e he), by simp [hid]⟩
  unfold State.insert
  dsimp only
  split
  · exact hinsert _ s hs
  · refine Step.Ends.bind (P := fun _ t => Kept r c documents t) (onIds _ s hs)
      (fun id t ht => hinsert id t ht) fun e t ht => ⟨ht, fun stored h => by cases h⟩

end Keeps

section Operations

variable {r : Registry} {c : TypeCache} {documents : List Entry}

/-! ## Operations -/

theorem Keeps.closed : Closed r (Keeps r c documents) where
  pure := Step.Preserves.pure
  fail := Step.Preserves.fail
  bind := Step.Preserves.bind
  onIds := Keeps.onIds
  output _ _ := Keeps.onTypes ((output_settles r).1 _ _)
  typeOf key := Keeps.onTypes (typeOf_settles r key)
  readStore _ _ hs := hs
  findById := Keeps.findById

theorem linkInline_keeps {owner : Definition} {id : String} {part : Field × List Value}
    (h : Apart documents owner.storedIn id)
    (hitems : ∀ target, relationTarget r part.1 = .ok target → ∀ item ∈ part.2,
      Keeps r c documents (createInline r target item)) :
    Keeps r c documents (linkInline r owner id part) := by
  refine Step.Preserves.bind (.ofExcept _) fun target htarget => ?_
  refine Step.Preserves.bind (.each (hitems target htarget.ofExcept)) fun ids _ => ?_
  exact Step.Preserves.bind (Keeps.addToSet h _ _) fun _ _ => .pure ()

/-- A document is added, and only its own fields change when its sub-objects are linked to it. -/
theorem Keeps.stores (d : Definition) : Stores r (Keeps r c documents) d := by
  intro data inline hitems α x hx s hs
  refine Step.Ends.bind (Keeps.insert d.storedIn data s hs) (fun stored t ht => ?_)
    fun _ _ ht => ht.1
  have hapart := ht.2 stored rfl d.storedIn
  exact Step.Preserves.bind (.each fun part hpart => linkInline_keeps hapart (hitems part hpart))
    (fun _ _ => hx stored) t ht.1

theorem createInline_keeps (target : Definition) (item : Value) :
    Keeps r c documents (createInline r target item) :=
  createInline_closed Keeps.closed (Q := fun _ => True) (fun d _ => Keeps.stores d)
    (fun _ _ _ _ => trivial) trivial item

theorem storeWithParts_keeps (d : Definition) (data : Fields) :
    Keeps r c documents (storeWithParts r d data) :=
  storeWithParts_closed Keeps.closed (Keeps.stores d) fun _ _ _ _ _ target _ item _ =>
    createInline_keeps target item

theorem dispatch_keeps (d : Definition) (phase : HookPhase) (payload : Fields) :
    Keeps r c documents (ModelOperations.dispatch ⟨r, {}, d⟩ phase payload) := by
  rw [ModelOperations.dispatch_eq rfl]
  exact Step.Preserves.pure payload

/-! ## Runs of operations -/

namespace Operation

/-- The id of the document that an operation may change or remove. -/
def writtenId? (op : Operation) (args : Fields) : Option Value :=
  match op.action with
  | .model .update =>
    (Fields.get args "input").asFields.toOption.map fun data => Fields.get data "id"
  | .model .remove => some (Fields.get args "id")
  | .model _ => none
  | .embedded .getOne _ => none
  | .embedded .getAll _ => none
  | .embedded _ _ => some (Fields.get args "parent_id")

/-- The document that an operation may change or remove, by its collection and its id. -/
def written? (op : Operation) (r : Registry) (args : Fields) : Option (String × String) :=
  match r.model? op.model, op.writtenId? args with
  | some d, some id => some (d.storedIn, id.display)
  | _, _ => none

/-- Without hooks an operation keeps every document that it does not write. -/
theorem run_keeps (op : Operation) (ctx : Value) (args : Fields)
    (h : ∀ e ∈ documents, op.written? r args ≠ some (e.collection, e.id)) :
    Keeps r c documents (op.run r {} ctx args) := by
  refine run_closed Keeps.closed ctx fun d hd => ?_
  have hapart : ∀ id, op.writtenId? args = some id → Apart documents d.storedIn id.display := by
    rintro id hid e he ⟨hcollection, hsame⟩
    refine h e he ?_
    unfold written?
    rw [Registry.model?_of_modelOf hd, hid, hcollection, hsame]
  unfold writtenId? at hapart
  constructor
  case hooks => exact dispatch_keeps d
  case stores => exact fun _ => ⟨Keeps.stores d, fun target _ item => createInline_keeps target item⟩
  case update =>
    intro haction data hdata changes
    refine Keeps.update (hapart _ ?_) changes
    rw [haction, hdata]
    rfl
  case delete =>
    intro haction
    rw [haction] at hapart
    exact Keeps.delete (hapart _ rfl)
  case save =>
    intro api f haction hwrites items
    rw [haction] at hapart
    refine Keeps.update (hapart _ ?_) _
    cases api with
    | getOne | getAll => cases hwrites
    | _ => rfl

end Operation

/-- A call of an operation with bound arguments. -/
structure Call where
  op : Operation
  ctx : Value
  args : Fields

/-- The state after calls without hooks, one after another, whatever each of them answers. -/
def State.runAll (r : Registry) (calls : List Call) (s : State) : State :=
  calls.foldl (fun s call => (call.op.run r {} call.ctx call.args s).2) s

/-- Calls keep every document that none of them writes. -/
theorem Kept.runAll {s : State} {calls : List Call} (hs : Kept r c documents s)
    (h : ∀ call ∈ calls, ∀ e ∈ documents,
      call.op.written? r call.args ≠ some (e.collection, e.id)) :
    Kept r c documents (s.runAll r calls) := by
  induction calls generalizing s with
  | nil => exact hs
  | cons call calls ih =>
    refine ih ?_ fun call hcall => h call (List.mem_cons_of_mem _ hcall)
    exact Operation.run_keeps call.op call.ctx call.args (h call List.mem_cons_self) s hs

end Operations

/-! ## States of a running api -/

theorem filterTypeOf_settles (r : Registry) (model : String) :
    Settles r (filterTypeOf r model) := by
  refine (Settles.ofExcept _).bind fun fields => ?_
  split
  · exact (typeOf_settles r _).bind fun shape => Settles.pure _
  · exact Settles.pure none

theorem sortTypeOf_settles (r : Registry) (model : String) : Settles r (sortTypeOf r model) := by
  refine (Settles.ofExcept _).bind fun fields => ?_
  split
  · exact (typeOf_settles r _).bind fun shape => Settles.pure _
  · exact Settles.pure none

theorem buildModel_settles (r : Registry) (d : Definition) : Settles r (buildModel r d) := by
  refine (typeOf_settles r _).bind fun _ => (typeOf_settles r _).bind fun _ => ?_
  refine (typeOf_settles r _).bind fun _ => ?_
  split
  · refine (typeOf_settles r _).bind fun _ => (filterTypeOf_settles r _).bind fun _ => ?_
    exact (sortTypeOf_settles r _).bind fun _ => Settles.pure ()
  · exact Settles.pure ()

theorem buildAll_settles (r : Registry) : Settles r (buildAll r) :=
  (Settles.each fun d _ => buildModel_settles r d).bind fun _ => Settles.pure ()

/-- The states of an api without hooks: its types were built, over any documents, and operations
were called after that. -/
inductive Registry.Running (r : Registry) : State → Prop
  | built {types : TypeCache} (h : buildAll r {} = (.ok (), types)) (store : Store)
      (ids : IdSource) (events : List Event) : Running r ⟨types, store, ids, events⟩
  | call {s : State} (hs : Running r s) (op : Operation) (ctx : Value) (args : Fields) :
      Running r (op.run r {} ctx args s).2

/-- The types of a running api are those of its models. -/
theorem Registry.Running.sound {r : Registry} {s : State} (hs : r.Running s) : Sound r s.types := by
  induction hs with
  | built h store ids events =>
    exact ((buildAll_settles r {} (TypeCache.sound_empty r)).of_eq h).2.1
  | @call s hs op ctx args ih =>
    have hapart : ∀ e ∈ ([] : List Entry), op.written? r args ≠ some (e.collection, e.id) :=
      fun e he => absurd he List.not_mem_nil
    exact (op.run_keeps ctx args hapart s (.of_sound ih)).sound

end DocumentApi
