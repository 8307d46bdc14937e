import DocumentApi.Proofs.Service.ReadOnly
import DocumentApi.Proofs.Types.Standing
import Mathlib.Data.Set.Function

/-!
# The table of operations

A service offers each top-level model's apis that the model allows, and six operations on each of
its embedded arrays.

* `Offer`: one of these, with the name, the kind and the arguments that its operation has.
* `Adds`: a step that adds operations to the table, all of them if no two of the table have one
  name, and fails for the schema otherwise.
* `addOperations_adds`: what a build adds for each model, once all types were built.
* `build_surface`: the table that a build leaves has one operation for each offer, and a build fails
  exactly if two offers have one name.
-/

namespace DocumentApi

open TypeCache (Sound)

/-! ## Offers -/

/-- An api of a model, or an operation on an embedded array of a model. -/
inductive Offer where
  | model (d : Definition) (api : Api)
  | embedded (d : Definition) (f : Field) (api : EmbeddedApi)

/-- The name of an api among those of a model. -/
def OperationNames.of (names : OperationNames) : Api → String
  | .create => names.create
  | .update => names.update
  | .remove => names.remove
  | .findOne => names.findOne
  | .findAll => names.findAll
  | .paginate => names.paginate

/-- The name of an operation among those of an embedded array. -/
def EmbeddedNames.of (names : EmbeddedNames) : EmbeddedApi → String
  | .create => names.create
  | .bulkUpdate => names.update
  | .updateOne => names.updateOne
  | .remove => names.remove
  | .getOne => names.getOne
  | .getAll => names.getAll

def EmbeddedApi.all : List EmbeddedApi :=
  [create, bulkUpdate, updateOne, remove, getOne, getAll]

theorem EmbeddedApi.mem_all (api : EmbeddedApi) : api ∈ all := by
  cases api <;> decide

theorem Api.mem_all (api : Api) : api ∈ all := by
  cases api <;> decide

namespace Registry

/-- The arguments by which the documents of a model are listed: by a filter and a sort order if it
has plain fields for them. -/
def listing (r : Registry) (d : Definition) : ListingArguments :=
  let scalars := (r.scalarFields d.name).toOption.getD []
  ⟨scalars.any Field.filterable, scalars.any Field.sortable, d.textSearch⟩

/-- The embedded arrays of a model. -/
def arraysOf (r : Registry) (d : Definition) : List Field :=
  ((r.fieldsOf d.name).toOption.getD []).filter Field.isEmbeddedArray

/-- The models of the embedded arrays of top-level models are registered. -/
def ArraysRegistered (r : Registry) : Prop :=
  ∀ d ∈ r.topLevel, ∀ f, r.EmbedsArray d f → ∃ model, f.embeddedName = some model ∧ r.has model

/-- What a registry offers. -/
def Offers (r : Registry) : Offer → Prop
  | .model d api => d ∈ r.topLevel ∧ d.allows api
  | .embedded d f _ => d ∈ r.topLevel ∧ r.EmbedsArray d f

/-- What is offered for a model. -/
def offersOf (r : Registry) (d : Definition) : List Offer :=
  (Api.all.filter d.allows).map (Offer.model d) ++
    (r.arraysOf d).flatMap fun f => EmbeddedApi.all.map (Offer.embedded d f)

def offers (r : Registry) : List Offer :=
  r.topLevel.flatMap r.offersOf

/-- The operations of a model and of its embedded arrays. -/
def operationsOf (r : Registry) (d : Definition) : List Operation :=
  (Api.all.filter d.allows).map (modelOperation d (r.listing d)) ++
    (r.arraysOf d).flatMap fun f => embeddedOperations d f (f.embeddedName.getD "")

def operations (r : Registry) : List Operation :=
  r.topLevel.flatMap r.operationsOf

end Registry

namespace Offer

/-- The model that an offer belongs to. -/
def owner : Offer → Definition
  | model d _ | embedded d _ _ => d

def name : Offer → String
  | model d api => (OperationNames.ofModel d.name).of api
  | embedded d f api => (EmbeddedNames.ofField d.name f.name).of api

def action : Offer → OperationAction
  | model _ api => .model api
  | embedded _ f api => .embedded api f

/-- Whether an offer only reads. -/
def kind : Offer → OperationKind
  | model _ .create | model _ .update | model _ .remove => .mutation
  | model _ .findOne | model _ .findAll | model _ .paginate => .query
  | embedded _ _ .getOne | embedded _ _ .getAll => .query
  | embedded _ _ _ => .mutation

/-- The names of the arguments by which documents are listed. -/
def listingNames (l : ListingArguments) : List String :=
  (if l.filter then ["filter"] else []) ++ (if l.sort then ["sort"] else []) ++
    if l.search then ["search"] else []

/-- The names of the arguments of an offer, in their order. -/
def arguments (r : Registry) : Offer → List String
  | model _ .create | model _ .update => ["input"]
  | model _ .remove | model _ .findOne => ["id"]
  | model d .findAll => listingNames (r.listing d)
  | model d .paginate => ["page", "limit"] ++ listingNames (r.listing d)
  | embedded d f api =>
    (EmbeddedNames.ofField d.name f.name).parentIdArg :: match api with
      | .create | .bulkUpdate => ["input"]
      | .updateOne => ["id", "input"]
      | .remove => ["ids"]
      | .getOne => ["id"]
      | .getAll => []

/-- An operation is the one that an offer stands for. -/
structure Is (r : Registry) (o : Offer) (op : Operation) : Prop where
  name : op.name = o.name
  model : op.model = o.owner.name
  kind : op.kind = o.kind
  arguments : Table.names op.args = o.arguments r
  action : op.action = o.action

end Offer

section Offers

variable {r : Registry} {d : Definition} {f : Field} {o : Offer} {op : Operation}

theorem listingNames_eq (l : ListingArguments) (model : String) :
    Table.names (l.args model) = Offer.listingNames l := by
  obtain ⟨filter, sort, search⟩ := l
  cases filter <;> cases sort <;> cases search <;> rfl

theorem modelOperation_is (r : Registry) (d : Definition) (api : Api) :
    (Offer.model d api).Is r (modelOperation d (r.listing d) api) := by
  have hlisting := listingNames_eq (r.listing d) d.name
  cases api with
  | findAll => exact ⟨rfl, rfl, rfl, hlisting, rfl⟩
  | paginate => exact ⟨rfl, rfl, rfl, congrArg (["page", "limit"] ++ ·) hlisting, rfl⟩
  | _ => exact ⟨rfl, rfl, rfl, rfl, rfl⟩

theorem embeddedOperations_is (r : Registry) (d : Definition) (f : Field) (model : String) :
    List.Forall₂ (Offer.Is r) (EmbeddedApi.all.map (Offer.embedded d f))
      (embeddedOperations d f model) := by
  unfold embeddedOperations EmbeddedApi.all
  repeat' first | exact ⟨rfl, rfl, rfl, rfl, rfl⟩ | constructor

/-- Offers stand for operations one by one, in their order. -/
theorem Registry.operations_are (r : Registry) :
    List.Forall₂ (Offer.Is r) r.offers r.operations := by
  have hflat : ∀ {α : Type} (xs : List α) (offers : α → List Offer) (ops : α → List Operation),
      (∀ x, List.Forall₂ (Offer.Is r) (offers x) (ops x)) →
      List.Forall₂ (Offer.Is r) (xs.flatMap offers) (xs.flatMap ops) := by
    intro α xs offers ops h
    induction xs with
    | nil => exact .nil
    | cons x xs ih => exact List.rel_append (h x) ih
  refine hflat r.topLevel _ _ fun d => List.rel_append ?_ (hflat _ _ _ fun f => ?_)
  · rw [List.forall₂_map_left_iff, List.forall₂_map_right_iff, List.forall₂_same]
    exact fun api _ => modelOperation_is r d api
  · exact embeddedOperations_is r d f _

theorem Registry.mem_arraysOf (hd : r.model? d.name = some d) :
    f ∈ r.arraysOf d ↔ r.EmbedsArray d f := by
  obtain ⟨declared, hdeclared⟩ := Registry.fieldsOf_ok hd
  unfold Registry.arraysOf Registry.EmbedsArray
  rw [hdeclared]
  simp [Except.toOption, List.mem_filter]

theorem Registry.Named.mem_offers (hr : r.Named) : o ∈ r.offers ↔ r.Offers o := by
  have harrays : ∀ d ∈ r.topLevel, ∀ f, f ∈ r.arraysOf d ↔ r.EmbedsArray d f := fun d hd _ =>
    Registry.mem_arraysOf (hr.model? (List.mem_filter.mp hd).1)
  unfold Registry.offers Registry.offersOf
  cases o with
  | model d api => simp [Registry.Offers, Api.mem_all]
  | embedded d f api =>
    simp only [Registry.Offers, List.mem_flatMap, List.mem_append, List.mem_map]
    constructor
    · rintro ⟨d', hd', ⟨api', -, h⟩ | ⟨f', hf', api', -, h⟩⟩
      · cases h
      · cases h
        exact ⟨hd', (harrays d hd' f).mp hf'⟩
    · rintro ⟨hd, hf⟩
      exact ⟨d, hd, Or.inr ⟨f, (harrays d hd f).mpr hf, api, EmbeddedApi.mem_all api, rfl⟩⟩

/-- Registered models are listed under the names of the registry. -/
theorem Registry.Named.registered_names (hr : r.Named) :
    r.registered.map Definition.name = Table.names r.models := by
  have hdefined := hr.defined
  unfold Registry.registered Table.names
  generalize r.models = models at hdefined
  induction models with
  | nil => rfl
  | cons entry models ih =>
    obtain ⟨d, hd, hname⟩ := hdefined entry List.mem_cons_self
    rw [List.filterMap_cons, hd]
    dsimp only
    rw [List.map_cons, List.map_cons, hname,
      ih fun other hother => hdefined other (List.mem_cons_of_mem _ hother)]

theorem Registry.Named.topLevel_nodup (hr : r.Named) : r.topLevel.Nodup :=
  (List.Nodup.of_map Definition.name (hr.registered_names ▸ hr.names)).filter _

/-- No offer is listed twice. -/
theorem Registry.offers_nodup (hr : r.Named) (hdistinct : r.Distinct) : r.offers.Nodup := by
  refine List.nodup_flatMap.mpr ⟨fun d hd => ?_, ?_⟩
  · obtain ⟨declared, hdeclared⟩ := Registry.fieldsOf_ok (hr.model? (List.mem_filter.mp hd).1)
    have harrays : (r.arraysOf d).Nodup := by
      unfold Registry.arraysOf
      rw [hdeclared]
      exact (hdistinct.fieldsOf hdeclared).of_map.filter _
    refine List.nodup_append'.mpr ⟨?_, List.nodup_flatMap.mpr ⟨fun f _ => ?_, ?_⟩, ?_⟩
    · refine List.Nodup.map (fun api api' h => ?_) ((by decide : Api.all.Nodup).filter _)
      cases h
      rfl
    · refine List.Nodup.map (fun api api' h => ?_) (by decide : EmbeddedApi.all.Nodup)
      cases h
      rfl
    · refine harrays.imp fun {f f'} hne o ho ho' => ?_
      obtain ⟨api, -, rfl⟩ := List.mem_map.mp ho
      obtain ⟨api', -, h⟩ := List.mem_map.mp ho'
      cases h
      exact hne rfl
    · intro o ho ho'
      obtain ⟨api, -, rfl⟩ := List.mem_map.mp ho
      obtain ⟨f, -, ho'⟩ := List.mem_flatMap.mp ho'
      obtain ⟨api', -, h⟩ := List.mem_map.mp ho'
      cases h
  · have howner : ∀ d, ∀ o ∈ r.offersOf d, o.owner = d := by
      intro d o ho
      unfold Registry.offersOf at ho
      rcases List.mem_append.mp ho with ho | ho
      · obtain ⟨api, -, rfl⟩ := List.mem_map.mp ho
        rfl
      · obtain ⟨f, -, ho⟩ := List.mem_flatMap.mp ho
        obtain ⟨api, -, rfl⟩ := List.mem_map.mp ho
        rfl
    refine hr.topLevel_nodup.imp fun {d d'} hne o ho ho' => hne ?_
    rw [← howner d o ho, howner d' o ho']

end Offers

/-! ## Adding operations -/

namespace Service

/-- The names of the operations of a service. -/
def operationNames (ops : List Operation) : List String :=
  ops.map Operation.name

/-- A step on the types of a service answers as it does alone. -/
theorem onTypes_eq {α : Type} (x : Step TypeCache α) (s : Service) :
    Service.onTypes x s = ((x s.state.types).1,
      { s with state := { s.state with types := (x s.state.types).2 } }) := rfl

/-- A step of a service whose types are `c` that adds operations to the table: it succeeds when no
two operations then have one name, and fails for the schema otherwise. -/
def Adds {α : Type} (c : TypeCache) (x : Step Service α) (ops : List Operation) : Prop :=
  ∀ s : Service, s.state.types = c → (operationNames s.operations).Nodup →
    ((operationNames (s.operations ++ ops)).Nodup →
      ∃ a, x s = (.ok a, { s with operations := s.operations ++ ops })) ∧
    (¬ (operationNames (s.operations ++ ops)).Nodup →
      ∃ e t, x s = (.error e, t) ∧ e.kind? = some .schemaDefinition)

namespace Adds

variable {α β : Type} {c : TypeCache} {ops ops' : List Operation}

theorem pure (a : α) : Adds c (Pure.pure a) [] := by
  intro s _ hnames
  rw [List.append_nil]
  exact ⟨fun _ => ⟨a, rfl⟩, fun h => absurd hnames h⟩

/-- A type that is known is answered without a change of the service. -/
theorem onTypes_bind {x : Step TypeCache α} {a : α} {f : α → Step Service β}
    (hx : x c = (.ok a, c)) (hf : Adds c (f a) ops) : Adds c (Service.onTypes x >>= f) ops := by
  rintro s rfl hnames
  have hrun : Service.onTypes x s = (.ok a, s) := by rw [onTypes_eq, hx]
  rw [Step.bind_of_ok hrun]
  exact hf s rfl hnames

theorem bind {x : Step Service α} {f : α → Step Service β} (hx : Adds c x ops)
    (hf : ∀ a, Adds c (f a) ops') : Adds c (x >>= f) (ops ++ ops') := by
  intro s hs hnames
  rw [← List.append_assoc]
  by_cases hfirst : (operationNames (s.operations ++ ops)).Nodup
  · obtain ⟨a, ha⟩ := (hx s hs hnames).1 hfirst
    rw [Step.bind_of_ok ha]
    exact hf a { s with operations := s.operations ++ ops } hs hfirst
  · obtain ⟨e, t, he, hkind⟩ := (hx s hs hnames).2 hfirst
    refine ⟨fun h => absurd ?_ hfirst, fun _ => ⟨e, t, ?_, hkind⟩⟩
    · unfold operationNames at h ⊢
      rw [List.map_append] at h
      exact h.of_append_left
    · rw [Step.bind_run, he]

theorem bind_pure {x : Step Service α} (hx : Adds c x ops) (f : α → β) :
    Adds c (x >>= fun a => Pure.pure (f a)) ops := by
  have h := hx.bind fun a => Adds.pure (f a)
  rwa [List.append_nil] at h

theorem each {f : α → Step Service β} {added : α → List Operation} {xs : List α}
    (hf : ∀ x ∈ xs, Adds c (f x) (added x)) : Adds c (Step.each f xs) (xs.flatMap added) := by
  induction xs with
  | nil => exact pure []
  | cons x xs ih =>
    exact (hf x List.mem_cons_self).bind fun b =>
      (ih fun y hy => hf y (List.mem_cons_of_mem _ hy)).bind_pure (b :: ·)

/-- An operation is added unless one in the table has its name. -/
theorem addOperation (op : Operation) : Adds c (Service.addOperation op) [op] := by
  intro s _ hnames
  have hfree : (operationNames (s.operations ++ [op])).Nodup ↔ s.operation? op.name = none := by
    unfold operationNames Service.operation?
    rw [List.map_append, List.map_singleton, List.nodup_append, List.find?_eq_none]
    constructor
    · rintro ⟨-, -, hne⟩ other hother hsame
      exact hne _ (List.mem_map_of_mem hother) _ List.mem_cons_self (by simpa using hsame)
    · refine fun hfree => ⟨hnames, List.nodup_singleton _, fun a ha b hb => ?_⟩
      obtain ⟨other, hother, rfl⟩ := List.mem_map.mp ha
      obtain rfl := List.mem_singleton.mp hb
      simpa using hfree other hother
  rw [hfree]
  unfold Service.addOperation
  rw [Step.bind_run]
  dsimp only [Step.state]
  cases s.operation? op.name with
  | none => exact ⟨fun _ => ⟨(), rfl⟩, fun h => absurd rfl h⟩
  | some other => exact ⟨nofun, fun _ => ⟨_, _, rfl, rfl⟩⟩

end Adds

variable {r : Registry} {c : TypeCache} {d : Definition}

/-- The arguments by which a model is listed are known once its types stand. -/
theorem listingOf_run (hs : Sound r c) (hd : r.model? d.name = some d) (htop : d.embedded = false)
    (h : ModelStands r c d) : listingOf r d c = (.ok (r.listing d), c) := by
  obtain ⟨scalars, hscalars⟩ := Registry.scalarFields_ok hd
  obtain ⟨filter, hfilter⟩ := h.filter htop
  obtain ⟨sort, hsort⟩ := h.sort htop
  unfold listingOf Registry.listing
  rw [Step.bind_of_ok (hfilter.run hs), Step.bind_of_ok (hsort.run hs),
    filterTypeOf_isSome hscalars (hfilter.run hs), sortTypeOf_isSome hscalars (hsort.run hs),
    hscalars]
  rfl

theorem addModel_adds (hs : Sound r c) (hd : r.model? d.name = some d) (htop : d.embedded = false)
    (h : ModelStands r c d) :
    Adds c (addModel r d) ((Api.all.filter d.allows).map (modelOperation d (r.listing d))) := by
  obtain ⟨output, houtput⟩ := h.output
  obtain ⟨create, hcreate⟩ := h.create
  obtain ⟨update, hupdate⟩ := h.update
  obtain ⟨page, hpage⟩ := h.pagination htop
  rw [List.map_eq_flatMap]
  refine .onTypes_bind (houtput.run hs) (.onTypes_bind (listingOf_run hs hd htop h) ?_)
  refine .onTypes_bind (hcreate.run hs) (.onTypes_bind (hupdate.run hs) ?_)
  refine .onTypes_bind (hpage.run hs) (.bind_pure (.each fun api _ => ?_) fun _ => ())
  exact .addOperation (modelOperation d (r.listing d) api)

theorem addEmbedded_adds {f : Field} {m : Definition} (hs : Sound r c)
    (hname : f.embeddedName = some m.name) (h : ModelStands r c m) :
    Adds c (addEmbedded r d f) (embeddedOperations d f m.name) := by
  obtain ⟨output, houtput⟩ := h.output
  obtain ⟨create, hcreate⟩ := h.create
  obtain ⟨update, hupdate⟩ := h.update
  have hadd : Adds c (Step.each addOperation (embeddedOperations d f m.name))
      ((embeddedOperations d f m.name).flatMap fun op => [op]) := .each fun op _ => .addOperation op
  rw [List.flatMap_singleton'] at hadd
  unfold addEmbedded
  rw [hname]
  refine .onTypes_bind (houtput.run hs) (.onTypes_bind (hupdate.run hs) ?_)
  exact .onTypes_bind (hcreate.run hs) (hadd.bind_pure fun _ => ())

/-- What is added for a top-level model once the types of all models stand. -/
theorem addOperations_adds (hr : r.Named) (hs : Sound r c)
    (hstand : ∀ d ∈ r.registered, ModelStands r c d) (harrays : r.ArraysRegistered)
    (hd : d ∈ r.topLevel) : Adds c (addOperations r d) (r.operationsOf d) := by
  obtain ⟨hregistered, htop⟩ := List.mem_filter.mp hd
  have hmodel := hr.model? hregistered
  obtain ⟨declared, hdeclared⟩ := Registry.fieldsOf_ok hmodel
  unfold addOperations
  refine (addModel_adds hs hmodel (by simpa using htop) (hstand d hregistered)).bind fun _ => ?_
  have hlist : r.arraysOf d = declared.filter Field.isEmbeddedArray := by
    unfold Registry.arraysOf
    rw [hdeclared]
    rfl
  rw [hdeclared, hlist]
  refine Adds.bind_pure (.each fun f hf => ?_) fun _ => ()
  obtain ⟨model, hname, hhas⟩ :=
    harrays d hd f ((Registry.mem_arraysOf hmodel).mp (hlist ▸ hf))
  obtain ⟨registration, hfound⟩ := Option.isSome_iff_exists.mp hhas
  obtain ⟨m, hplace, rfl⟩ := hr.defined _ (Table.mem_of_find? hfound)
  have hm : m ∈ r.registered := List.mem_filterMap.mpr ⟨_, Table.mem_of_find? hfound, hplace⟩
  rw [hname]
  exact addEmbedded_adds hs hname (hstand m hm)

/-! ## Builds -/

/-- A service whose models are registered, before anything was built. -/
structure Fresh (s : Service) : Prop where
  registry : s.registry.Reachable
  types : s.state.types = {}
  operations : s.operations = []
  built : s.built = false

/-- A service that is not built: it has no operations, and its types are some of those of its
models. -/
structure Unbuilt (s : Service) : Prop where
  registry : s.registry.Reachable
  types : Sound s.registry s.state.types
  operations : s.operations = []
  built : s.built = false

variable {s t : Service}

theorem Fresh.unbuilt (hs : s.Fresh) : s.Unbuilt :=
  ⟨hs.registry, hs.types ▸ TypeCache.sound_empty _, hs.operations, hs.built⟩

/-- The types of a service belong to its models. -/
def SoundTypes (r : Registry) (s : Service) : Prop := Sound r s.state.types

theorem onTypes_sound {α : Type} {x : Step TypeCache α} (hx : Settles r x) :
    (Service.onTypes x).Preserves (SoundTypes r) :=
  fun s hs => (hx s.state.types hs).2.1

theorem addOperation_sound (op : Operation) : (addOperation op).Preserves (SoundTypes r) := by
  refine fun s hs => Step.Ends.state_bind ?_
  split
  · exact hs
  · exact hs

theorem addModel_sound (r : Registry) (d : Definition) :
    (addModel r d).Preserves (SoundTypes r) := by
  have hlisting : Settles r (listingOf r d) := (filterTypeOf_settles r _).bind fun _ =>
    (sortTypeOf_settles r _).bind fun _ => .pure _
  refine (onTypes_sound (typeOf_settles r _)).bind fun _ _ => ?_
  refine (onTypes_sound hlisting).bind fun _ _ => ?_
  refine (onTypes_sound (typeOf_settles r _)).bind fun _ _ => ?_
  refine (onTypes_sound (typeOf_settles r _)).bind fun _ _ => ?_
  refine (onTypes_sound (typeOf_settles r _)).bind fun _ _ => ?_
  exact (Step.Preserves.each fun _ _ => addOperation_sound _).bind fun _ _ => .pure ()

theorem addEmbedded_sound (r : Registry) (d : Definition) (f : Field) :
    (addEmbedded r d f).Preserves (SoundTypes r) := by
  unfold addEmbedded
  split
  · exact .fail _
  refine (onTypes_sound (typeOf_settles r _)).bind fun _ _ => ?_
  refine (onTypes_sound (typeOf_settles r _)).bind fun _ _ => ?_
  refine (onTypes_sound (typeOf_settles r _)).bind fun _ _ => ?_
  exact (Step.Preserves.each fun _ _ => addOperation_sound _).bind fun _ _ => .pure ()

/-- The operations of an embedded array are added only if its model is registered. -/
theorem addEmbedded_registered {f : Field} (hs : SoundTypes r s)
    (h : addEmbedded r d f s = (.ok (), t)) :
    ∃ model, f.embeddedName = some model ∧ r.has model := by
  unfold addEmbedded at h
  cases hname : f.embeddedName with
  | none =>
    rw [hname] at h
    cases h
  | some model =>
    rw [hname] at h
    obtain ⟨shape, u, hshape, -⟩ := Step.bind_ok h
    rw [onTypes_eq] at hshape
    have htype : typeOf r ⟨model, .output⟩ s.state.types = (.ok shape, _) :=
      Prod.ext (Prod.mk.inj hshape).1 rfl
    obtain ⟨-, -, hbuildable, -, -⟩ := (typeWhile_builds r [] ⟨model, .output⟩ _ hs).of_eq htype
    refine ⟨model, rfl, ?_⟩
    by_contra hnone
    exact hbuildable (.of_unregistered (Registry.model?_eq_none hnone))

/-- A build that succeeds finds the models of all embedded arrays. -/
theorem build_registered (hs : s.Unbuilt) (h : build s = (.ok (), t)) :
    s.registry.ArraysRegistered := by
  have hops : ∀ d, (addOperations s.registry d).Preserves (SoundTypes s.registry) := fun d =>
    (addModel_sound s.registry d).bind fun _ _ => (Step.Preserves.ofExcept _).bind fun _ _ =>
      (Step.Preserves.each fun f _ => addEmbedded_sound s.registry d f).bind fun _ _ => .pure ()
  unfold build at h
  rw [Step.bind_run] at h
  dsimp only [Step.state] at h
  rw [if_neg (by simp [hs.built])] at h
  obtain ⟨_, u, hbuilt, h⟩ := Step.bind_ok h
  obtain ⟨_, v, hadded, -⟩ := Step.bind_ok h
  have hsound : SoundTypes s.registry u :=
    Step.Preserves.run (onTypes_sound (buildAll_settles s.registry)) hs.types hbuilt
  rintro d hd f ⟨declared, hdeclared, hf, harray⟩
  obtain ⟨_, u, v, hsound, hmodel⟩ := Step.Preserves.each_ok (fun d _ => hops d) hsound hadded d hd
  obtain ⟨_, w, hown, hmodel⟩ := Step.bind_ok hmodel
  obtain ⟨fields, w', hfields, hmodel⟩ := Step.bind_ok hmodel
  obtain ⟨hfields, rfl⟩ := Step.ofExcept_ok hfields
  obtain ⟨_, w', harrays, -⟩ := Step.bind_ok hmodel
  rw [hdeclared] at hfields
  cases hfields
  have hsound : SoundTypes s.registry w :=
    Step.Preserves.run (addModel_sound s.registry d) hsound hown
  obtain ⟨_, x, y, hsound, hf⟩ := Step.Preserves.each_ok
    (fun f _ => addEmbedded_sound s.registry d f) hsound harrays f
    (List.mem_filter.mpr ⟨hf, harray⟩)
  exact addEmbedded_registered hsound hf

/-- The types of a build that succeeds were built. -/
theorem buildAll_of_build (hs : s.Unbuilt) (h : build s = (.ok (), t)) :
    (buildAll s.registry s.state.types).1 = .ok () := by
  unfold build at h
  rw [Step.bind_run] at h
  dsimp only [Step.state] at h
  rw [if_neg (by simp [hs.built])] at h
  obtain ⟨_, u, hbuilt, -⟩ := Step.bind_ok h
  rw [onTypes_eq] at hbuilt
  exact congrArg Prod.fst hbuilt

/-- Once all types are built, a build adds the operations of all models, or fails for the schema
when two of them have one name. -/
theorem build_run (hs : s.Unbuilt) (h : (buildAll s.registry s.state.types).1 = .ok ())
    (harrays : s.registry.ArraysRegistered) :
    ((operationNames s.registry.operations).Nodup →
      ∃ t, build s = (.ok (), t) ∧ t.operations = s.registry.operations ∧
        t.state.types = (buildAll s.registry s.state.types).2 ∧ t.registry = s.registry) ∧
    (¬ (operationNames s.registry.operations).Nodup →
      ∃ e t, build s = (.error e, t) ∧ e.kind? = some .schemaDefinition) := by
  obtain ⟨types, hbuilt⟩ : ∃ types, buildAll s.registry s.state.types = (.ok (), types) :=
    ⟨_, Prod.ext h rfl⟩
  obtain ⟨hsound, hstand⟩ := buildAll_stands hs.types hbuilt
  have hadds : Adds types (Step.each (addOperations s.registry) s.registry.topLevel)
      s.registry.operations :=
    .each fun d hd => addOperations_adds hs.registry.named hsound hstand harrays hd
  obtain ⟨u, htypes, hknown, hnone, hmodels⟩ : ∃ u,
      Service.onTypes (buildAll s.registry) s = (.ok (), u) ∧ u.state.types = types ∧
        u.operations = [] ∧ u.registry = s.registry :=
    ⟨{ s with state := { s.state with types } }, by rw [onTypes_eq, hbuilt], rfl,
      hs.operations, rfl⟩
  have hrun := hadds u hknown (by rw [hnone]; exact List.nodup_nil)
  rw [show u.operations ++ s.registry.operations = s.registry.operations by
    rw [hnone, List.nil_append]] at hrun
  unfold build
  rw [Step.bind_run]
  dsimp only [Step.state]
  rw [if_neg (by simp [hs.built]), Step.bind_of_ok htypes]
  refine ⟨fun hnames => ?_, fun hnames => ?_⟩
  · obtain ⟨a, ha⟩ := hrun.1 hnames
    rw [Step.bind_of_ok ha]
    exact ⟨_, rfl, rfl, by rw [hbuilt]; exact hknown, hmodels⟩
  · obtain ⟨e, t, he, hkind⟩ := hrun.2 hnames
    refine ⟨e, t, ?_, hkind⟩
    rw [Step.bind_run, he]

/-- The names of the table are those of the offers. -/
theorem operationNames_eq (r : Registry) :
    operationNames r.operations = r.offers.map Offer.name := by
  have h := r.operations_are
  unfold operationNames
  generalize r.offers = offers at h
  generalize r.operations = ops at h
  induction h with
  | nil => rfl
  | cons ho _ ih => rw [List.map_cons, List.map_cons, ho.name, ih]

/-- The operations of the table have names of their own exactly if the offers have. -/
theorem operationNames_nodup_iff (hr : r.Named) (hdistinct : r.Distinct) :
    (operationNames r.operations).Nodup ↔
      ∀ o o', r.Offers o → r.Offers o' → o.name = o'.name → o = o' := by
  rw [operationNames_eq, List.nodup_map_iff_inj_on (Registry.offers_nodup hr hdistinct)]
  constructor
  · exact fun h o o' ho ho' => h o (hr.mem_offers.mpr ho) o' (hr.mem_offers.mpr ho')
  · exact fun h o ho o' ho' => h o o' (hr.mem_offers.mp ho) (hr.mem_offers.mp ho')

/-- In a table of operations of different names, each is found under its own. -/
theorem operation?_of_mem {op : Operation} (hnames : (operationNames t.operations).Nodup)
    (hop : op ∈ t.operations) : t.operation? op.name = some op := by
  unfold operation?
  cases hfound : t.operations.find? fun other => other.name == op.name with
  | none => exact absurd (List.find?_eq_none.mp hfound op hop) (by simp)
  | some other =>
    have hsame : other.name = op.name := by simpa using List.find?_some hfound
    exact congrArg some
      (List.inj_on_of_nodup_map hnames (List.mem_of_find?_eq_some hfound) hop hsame)

/-- Two offers of one name are made. -/
def Clashes (r : Registry) : Prop :=
  ∃ o o', r.Offers o ∧ r.Offers o' ∧ o ≠ o' ∧ o.name = o'.name

theorem clashes_iff (hr : r.Named) (hdistinct : r.Distinct) :
    Clashes r ↔ ¬ (operationNames r.operations).Nodup := by
  rw [operationNames_nodup_iff hr hdistinct]
  unfold Clashes
  push Not
  exact ⟨fun ⟨o, o', ho, ho', hne, hname⟩ => ⟨o, o', ho, ho', hname, hne⟩,
    fun ⟨o, o', ho, ho', hname, hne⟩ => ⟨o, o', ho, ho', hne, hname⟩⟩

end Service

theorem exists_of_forall₂ {α β : Type} {R : α → β → Prop} {xs : List α} {ys : List β} {x : α}
    (h : List.Forall₂ R xs ys) (hx : x ∈ xs) : ∃ y ∈ ys, R x y := by
  induction h with
  | nil => cases hx
  | cons hxy _ ih =>
    rcases List.mem_cons.mp hx with rfl | hx
    · exact ⟨_, List.mem_cons_self, hxy⟩
    · obtain ⟨y, hy, h⟩ := ih hx
      exact ⟨y, List.mem_cons_of_mem _ hy, h⟩

namespace Service

variable {s t : Service}

/-- A build that succeeds leaves the operations of all models, under names that differ, and the
types of all models. -/
theorem build_leaves (hs : s.Unbuilt) (h : Service.build s = (.ok (), t)) :
    (operationNames s.registry.operations).Nodup ∧ t.operations = s.registry.operations ∧
      t.state.types = (buildAll s.registry s.state.types).2 ∧ t.registry = s.registry := by
  obtain ⟨hok, hfails⟩ := build_run hs (buildAll_of_build hs h) (build_registered hs h)
  by_cases hnames : (operationNames s.registry.operations).Nodup
  · obtain ⟨t', hbuild, hleaves⟩ := hok hnames
    rw [h] at hbuild
    cases hbuild
    exact ⟨hnames, hleaves⟩
  · obtain ⟨e, t', herror, -⟩ := hfails hnames
    rw [h] at herror
    cases herror

theorem build_table (hs : s.Fresh) (h : Service.build s = (.ok (), t)) :
    (operationNames t.operations).Nodup ∧ t.operations = s.registry.operations := by
  obtain ⟨hnames, hops, -⟩ := build_leaves hs.unbuilt h
  exact ⟨hops ▸ hnames, hops⟩

/-- Whether a build succeeds depends on the models, and on the types that were built before only as
far as building all types does. -/
theorem build_ok_iff (hs : s.Unbuilt) : (∃ t, Service.build s = (.ok (), t)) ↔
    (buildAll s.registry s.state.types).1 = .ok () ∧ s.registry.ArraysRegistered ∧
      (operationNames s.registry.operations).Nodup := by
  constructor
  · rintro ⟨t, hbuild⟩
    exact ⟨buildAll_of_build hs hbuild, build_registered hs hbuild, (build_leaves hs hbuild).1⟩
  · rintro ⟨hbuilt, harrays, hnames⟩
    obtain ⟨t, hbuild, -⟩ := (build_run hs hbuilt harrays).1 hnames
    exact ⟨t, hbuild⟩

/-- An offer has an operation under its name. -/
theorem exists_operation (hr : s.registry.Named) (hnames : (operationNames t.operations).Nodup)
    (hops : t.operations = s.registry.operations) {o : Offer} (ho : s.registry.Offers o) :
    ∃ op ∈ t.operations, t.operation? o.name = some op ∧ o.Is s.registry op := by
  obtain ⟨op, hop, his⟩ := exists_of_forall₂ s.registry.operations_are (hr.mem_offers.mpr ho)
  rw [← hops] at hop
  exact ⟨op, hop, his.name ▸ operation?_of_mem hnames hop, his⟩

/-- A build succeeds or fails for the schema, by whether two offers have one name. -/
theorem build_iff (hs : s.Fresh) (hbuilt : (buildAll s.registry {}).1 = .ok ())
    (harrays : s.registry.ArraysRegistered) :
    ((∃ e t, Service.build s = (.error e, t) ∧ e.kind? = some .schemaDefinition) ↔
      Clashes s.registry) ∧ ((∃ t, Service.build s = (.ok (), t)) ↔ ¬ Clashes s.registry) := by
  obtain ⟨hok, hfails⟩ := build_run hs.unbuilt (hs.types ▸ hbuilt) harrays
  rw [clashes_iff hs.registry.named hs.registry.distinct]
  by_cases hnames : (operationNames s.registry.operations).Nodup
  · obtain ⟨t, hbuild, -⟩ := hok hnames
    refine ⟨⟨?_, fun h => absurd hnames h⟩, fun _ => not_not.mpr hnames, fun _ => ⟨t, hbuild⟩⟩
    rintro ⟨e, t', herror, -⟩
    rw [hbuild] at herror
    cases herror
  · obtain ⟨e, t, herror, hkind⟩ := hfails hnames
    refine ⟨⟨fun _ => hnames, fun _ => ⟨e, t, herror, hkind⟩⟩, ?_, fun h => absurd hnames h⟩
    rintro ⟨t', hbuild⟩
    rw [herror] at hbuild
    cases hbuild

end Service

/-- The table that a build leaves has one operation for each offer, found under its name, with the
model, the kind and the arguments of the offer, and no other operations. If the types of all models
can be built and the models of embedded arrays are registered, a build fails for the schema exactly
if two offers have one name, and otherwise succeeds. -/
theorem build_surface {s : Service} (hs : s.Fresh) :
    (∀ t, Service.build s = (.ok (), t) → ∃ entry : Offer → Operation,
      Set.BijOn entry {o | s.registry.Offers o} {op | op ∈ t.operations} ∧
      (t.operations.map Operation.name).Nodup ∧
      ∀ o, s.registry.Offers o →
        t.operation? o.name = some (entry o) ∧ o.Is s.registry (entry o)) ∧
    ((buildAll s.registry {}).1 = .ok () → s.registry.ArraysRegistered →
      ((∃ e t, Service.build s = (.error e, t) ∧ e.kind? = some .schemaDefinition) ↔
        Service.Clashes s.registry) ∧
      ((∃ t, Service.build s = (.ok (), t)) ↔ ¬ Service.Clashes s.registry)) := by
  have hr := hs.registry.named
  refine ⟨fun t hbuild => ?_, Service.build_iff hs⟩
  obtain ⟨hnames, hops⟩ := Service.build_table hs hbuild
  have hinj := (Service.operationNames_nodup_iff hr hs.registry.distinct).mp (hops ▸ hnames)
  have hentry : ∀ o, s.registry.Offers o →
      ∃ op ∈ t.operations, t.operation? o.name = some op ∧ o.Is s.registry op :=
    fun o ho => Service.exists_operation hr hnames hops ho
  refine ⟨fun o => (t.operation? o.name).getD default, ⟨?_, ?_, ?_⟩, hnames, ?_⟩
  · intro o ho
    obtain ⟨op, hop, hfound, -⟩ := hentry o ho
    simpa [hfound] using hop
  · intro o ho o' ho' hsame
    obtain ⟨op, -, hfound, his⟩ := hentry o ho
    obtain ⟨op', -, hfound', his'⟩ := hentry o' ho'
    dsimp only at hsame
    rw [hfound, hfound'] at hsame
    cases hsame
    exact hinj o o' ho ho' (his.name.symm.trans his'.name)
  · intro op hop
    obtain ⟨o, ho, his⟩ := exists_of_forall₂ s.registry.operations_are.flip (hops ▸ hop)
    refine ⟨o, hr.mem_offers.mp ho, ?_⟩
    dsimp only
    rw [← Offer.Is.name his, Service.operation?_of_mem hnames hop]
    rfl
  · intro o ho
    obtain ⟨op, hop, hfound, his⟩ := hentry o ho
    show t.operation? o.name = some ((t.operation? o.name).getD default) ∧
      o.Is s.registry ((t.operation? o.name).getD default)
    rw [hfound]
    exact ⟨rfl, his⟩

/-! ## A country and two notes -/

theorem atlas_fresh : atlas.Fresh :=
  ⟨atlasModels_reachable, rfl, rfl, rfl⟩

/-- Two models whose operations have the same names. -/
def twinModels : Registry where
  definitions :=
    [⟨"Note", [], .only [.create], false, "", false, none⟩,
      ⟨"note", [], .only [.create], false, "", false, none⟩]
  models := [("Note", ⟨0, [.defaultId]⟩), ("note", ⟨1, [.defaultId]⟩)]

def twins : Service :=
  { registry := twinModels }

theorem twins_fresh : twins.Fresh := by
  have hdefined := Registry.Reachable.defined twinModels.definitions
  exact ⟨(hdefined.registered 0 rfl).registered 1 rfl, rfl, rfl, rfl⟩

theorem twins_built : (buildAll twinModels {}).1 = .ok () := by
  have hwhile := funext fun begun => funext (typeWhile.eq_def twinModels begun)
  have hfields := funext fun begun => funext fun key =>
    funext (fieldsWhile.eq_def twinModels begun key)
  have hbuilt : (buildAll twinModels {}).1.isOk := by
    unfold buildAll buildModel filterTypeOf sortTypeOf typeOf
    rw [hwhile, hfields, hfields, hwhile]
    decide +kernel
  exact congrArg Prod.fst (Step.eq_of_isOk hbuilt)

/-- The six operations on the cities of a country are offered; two notes cannot be told apart. -/
theorem build_surface_atlas : atlas.Fresh ∧ twins.Fresh ∧ (buildAll twinModels {}).1 = .ok () ∧
    twinModels.ArraysRegistered ∧
    (∃ t op, Service.build atlas = (.ok (), t) ∧ t.operation? "createCountryCity" = some op ∧
      op.kind = .mutation ∧ Table.names op.args = ["countryId", "input"]) ∧
    ∃ e t, Service.build twins = (.error e, t) ∧ e.kind? = some .schemaDefinition := by
  have harrays : twinModels.ArraysRegistered := by
    rintro d hd f ⟨declared, hdeclared, hf, harray⟩
    have hnone : ∀ d ∈ twinModels.topLevel, ∀ f ∈ ((twinModels.fieldsOf d.name).toOption.getD []),
        f.isEmbeddedArray = false := by decide
    rw [hnone d hd f (by rw [hdeclared]; exact hf)] at harray
    cases harray
  refine ⟨atlas_fresh, twins_fresh, twins_built, harrays, ?_, ?_⟩
  · obtain ⟨t, hbuild⟩ := atlas_built
    obtain ⟨entry, -, -, hentries⟩ := (build_surface atlas_fresh).1 t hbuild
    let cities : Field :=
      { name := "cities", storageType := "array", embedding := some (.named "City"), many := true }
    obtain ⟨hfound, his⟩ := hentries (.embedded countryModel cities .create)
      ⟨List.mem_cons_self, _, rfl,
        List.mem_cons_of_mem _ (List.mem_cons_of_mem _ List.mem_cons_self),
        rfl⟩
    refine ⟨t, _, hbuild, ?_, his.kind, ?_⟩
    · rw [← hfound]
      exact congrArg t.operation? (by decide +kernel)
    · rw [his.arguments]
      decide +kernel
  · refine ((build_surface twins_fresh).2 twins_built harrays).1.mpr ?_
    refine ⟨.model _ .create, .model _ .create, ⟨List.mem_cons_self, rfl⟩,
      ⟨List.mem_cons_of_mem _ List.mem_cons_self, rfl⟩, ?_, ?_⟩
    · exact fun h => absurd (congrArg (fun o : Offer => o.owner.name) h) (by decide)
    · decide +kernel

end DocumentApi
