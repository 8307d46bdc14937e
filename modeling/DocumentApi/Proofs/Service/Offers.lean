import DocumentApi.Proofs.Model.Reachable
import DocumentApi.Proofs.Steps
import DocumentApi.Service.Basic

/-!
# What a service offers

* `Service.Declared`: a service with its models, over the documents that were stored before, that was
  not built yet.
* `Operation.Offered`: an operation that a build gives to a model or to an embedded array of it.
* `Service.build_offers`: a build leaves the models, hooks and documents as they are, and offers such
  operations only.
* `Service.execute_built`: a call of a built service runs an operation that it offers, or nothing.
-/

namespace DocumentApi

/-- A service before it is built. The documents that are stored have ids of their own. -/
structure Service.Declared (s : Service) : Prop where
  registry : s.registry.Reachable
  operations : s.operations = []
  built : s.built = false
  ids : (s.state.store.entries.map Entry.id).Nodup

/-- A field of a model holds an embedded array. -/
def Registry.EmbedsArray (r : Registry) (d : Definition) (f : Field) : Prop :=
  ∃ declared, r.fieldsOf d.name = .ok declared ∧ f ∈ declared ∧ f.isEmbeddedArray

/-- An operation of a top-level model that allows it, or of an embedded array of such a model. -/
def Operation.Offered (r : Registry) (op : Operation) : Prop :=
  ∃ d ∈ r.topLevel, op.model = d.name ∧ match op.action with
    | .model api => d.allows api = true
    | .embedded _ f => r.EmbedsArray d f

theorem modelOperation_model (d : Definition) (listing : ListingArguments) (api : Api) :
    (modelOperation d listing api).model = d.name ∧
      (modelOperation d listing api).action = .model api := by
  cases api <;> exact ⟨rfl, rfl⟩

theorem embeddedOperations_model {d : Definition} {f : Field} {embedded : String} {op : Operation}
    (h : op ∈ embeddedOperations d f embedded) :
    op.model = d.name ∧ ∃ api, op.action = .embedded api f := by
  have hall : ∀ op ∈ embeddedOperations d f embedded,
      op.model = d.name ∧ ∃ api, op.action = .embedded api f := by
    unfold embeddedOperations
    simp
  exact hall op h

namespace Service

/-- What a build keeps of a service, while all that it offers is offered by a model. -/
structure Offers (s t : Service) : Prop where
  registry : t.registry = s.registry
  hooks : t.hooks = s.hooks
  store : t.state.store = s.state.store
  operations : ∀ op ∈ t.operations, op.Offered s.registry

variable {s t : Service}

theorem onTypes_offers {α : Type} (x : Step TypeCache α) :
    (Service.onTypes x).Preserves (Offers s) :=
  fun _ h => ⟨h.registry, h.hooks, h.store, h.operations⟩

theorem addOperation_offers {op : Operation} (hop : op.Offered s.registry) :
    (addOperation op).Preserves (Offers s) := by
  refine fun t h => Step.Ends.state_bind ?_
  split
  · exact h
  · refine ⟨h.registry, h.hooks, h.store, fun other hother => ?_⟩
    rcases List.mem_append.mp hother with hold | hnew
    · exact h.operations other hold
    · rw [List.mem_singleton.mp hnew]
      exact hop

theorem addModel_offers {d : Definition} (hd : d ∈ s.registry.topLevel) :
    (addModel s.registry d).Preserves (Offers s) := by
  refine Step.Preserves.bind (onTypes_offers _) fun _ _ => ?_
  refine Step.Preserves.bind (onTypes_offers _) fun listing _ => ?_
  refine Step.Preserves.bind (onTypes_offers _) fun _ _ => ?_
  refine Step.Preserves.bind (onTypes_offers _) fun _ _ => ?_
  refine Step.Preserves.bind (onTypes_offers _) fun _ _ => ?_
  refine Step.Preserves.bind (.each fun api hapi => addOperation_offers ?_) fun _ _ => .pure ()
  obtain ⟨hmodel, haction⟩ := modelOperation_model d listing api
  refine ⟨d, hd, hmodel, ?_⟩
  rw [haction]
  exact (List.mem_filter.mp hapi).2

theorem addEmbedded_offers {d : Definition} (hd : d ∈ s.registry.topLevel) {f : Field}
    (hf : s.registry.EmbedsArray d f) : (addEmbedded s.registry d f).Preserves (Offers s) := by
  unfold addEmbedded
  split
  · exact .fail _
  refine Step.Preserves.bind (onTypes_offers _) fun _ _ => ?_
  refine Step.Preserves.bind (onTypes_offers _) fun _ _ => ?_
  refine Step.Preserves.bind (onTypes_offers _) fun _ _ => ?_
  refine Step.Preserves.bind (.each fun op hop => addOperation_offers ?_) fun _ _ => .pure ()
  obtain ⟨hmodel, api, haction⟩ := embeddedOperations_model hop
  refine ⟨d, hd, hmodel, ?_⟩
  rw [haction]
  exact hf

theorem addOperations_offers {d : Definition} (hd : d ∈ s.registry.topLevel) :
    (addOperations s.registry d).Preserves (Offers s) := by
  refine Step.Preserves.bind (addModel_offers hd) fun _ _ => ?_
  refine Step.Preserves.bind (.ofExcept _) fun declared hdeclared => ?_
  refine Step.Preserves.bind (.each fun f hf => addEmbedded_offers hd ?_) fun _ _ => .pure ()
  obtain ⟨hmem, harray⟩ := List.mem_filter.mp hf
  exact ⟨declared, hdeclared.ofExcept, hmem, harray⟩

/-- A build that succeeds offers operations of the models only, and keeps the documents. -/
theorem build_offers (hs : s.Declared) (h : build s = (.ok (), t)) : t.built ∧ Offers s t := by
  have hstart : Offers s s :=
    ⟨rfl, rfl, rfl, fun op hop => absurd (hs.operations ▸ hop) List.not_mem_nil⟩
  have hend : build.Ends s fun answer t => answer = .ok () → t.built ∧ Offers s t := by
    refine Step.Ends.state_bind ?_
    rw [if_neg (by simp [hs.built])]
    refine (onTypes_offers _ s hstart).bind (fun _ t ht => ?_) fun _ _ _ herror => by cases herror
    refine (Step.Preserves.each (fun d hd => addOperations_offers hd) t ht).bind
      (fun _ u hu _ => ?_) fun _ _ _ herror => by cases herror
    exact ⟨rfl, hu.registry, hu.hooks, hu.store, hu.operations⟩
  unfold Step.Ends at hend
  rw [h] at hend
  exact hend rfl

/-- A call of a built service runs an operation that it offers, or nothing. -/
theorem execute_built (hbuilt : s.built) (name : String) (ctx : Value) (args : Fields) :
    ∃ state, (execute name ctx args s).2 = { s with state } ∧ (state = s.state ∨
      ∃ op ∈ s.operations, s.operation? name = some op ∧ ∃ bound,
        state = (op.run s.registry s.hooks ctx bound s.state).2) := by
  have hbuild : build s = (.ok (), s) := by
    unfold build
    rw [Step.bind_run]
    dsimp only [Step.state]
    rw [if_pos hbuilt]
    rfl
  unfold execute
  split
  · exact ⟨s.state, rfl, Or.inl rfl⟩
  unfold builtOperation
  rw [Step.bind_run, Step.bind_of_ok hbuild]
  rw [Step.bind_run]
  dsimp only [Step.state]
  cases hop : s.operation? name with
  | none => exact ⟨s.state, rfl, Or.inl rfl⟩
  | some op =>
    dsimp only [Step.pure_run]
    rw [Step.bind_run]
    cases op.bindArguments args with
    | error e => exact ⟨s.state, rfl, Or.inl rfl⟩
    | ok bound => exact ⟨_, rfl, Or.inr ⟨op, List.mem_of_find?_eq_some hop, rfl, bound, rfl⟩⟩

end Service

end DocumentApi
