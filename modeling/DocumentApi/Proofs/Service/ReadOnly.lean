import DocumentApi.Proofs.Operations.Confined
import DocumentApi.Proofs.Operations.RoundTrip
import DocumentApi.Proofs.Service.Offers

/-!
# Models that are only read

A model that allows none of the operations that create, update and remove its documents.

* `Service.afterCalls`: a service after calls of operations by their names.
* `readOnly_grown`: what calls do to the documents of such a model. None is ever removed. They change
  in embedded arrays, by the operations of these arrays, and more are added by creations of models
  from which relations lead to it.
* `readOnly_country_written`: both happen, and a hook may write as well.
-/

namespace DocumentApi

/-- A model allows no operation that creates, updates or removes its documents. -/
def Definition.ReadOnly (d : Definition) : Prop :=
  ∀ api ∈ [Api.create, .update, .remove], d.allows api = false

instance (d : Definition) : Decidable d.ReadOnly :=
  inferInstanceAs (Decidable (∀ api ∈ [Api.create, .update, .remove], d.allows api = false))

/-- A call of an operation by its name. -/
structure NamedCall where
  name : String
  ctx : Value
  args : Fields

namespace Service

/-- A service after calls one after another, whatever each of them answers. -/
def afterCalls (s : Service) (calls : List NamedCall) : Service :=
  calls.foldl (fun s call => (execute call.name call.ctx call.args s).2) s

/-- One of the calls is of an operation with a property. -/
def Calls (s : Service) (calls : List NamedCall) (P : Operation → Prop) : Prop :=
  ∃ call ∈ calls, ∃ op ∈ s.operations, s.operation? call.name = some op ∧ P op

/-- The documents of a model. -/
def documentsOf (s : Service) (d : Definition) : List Entry :=
  s.state.store.within d.storedIn

/-- A key is the embedded array of a model, and one of the calls stores that array. -/
def Rewrites (s : Service) (calls : List NamedCall) (m : Definition) (key : String) : Prop :=
  ∃ f, s.registry.EmbedsArray m f ∧ f.name = key ∧ s.Calls calls fun op => op.Rewrites m f

/-- One of the calls creates a document of a model from which relations lead to another one. -/
def Cascades (s : Service) (calls : List NamedCall) (m : Definition) : Prop :=
  s.Calls calls fun op => op.Cascades s.registry m

end Service

section Offered

variable {r : Registry} {m : Definition} {op : Operation}

/-- What is offered on behalf of a model of a name is offered by that model. -/
theorem Operation.Offered.of_name (hop : op.Offered r) (hr : r.Named) (hm : m ∈ r.topLevel)
    (hname : op.model = m.name) : match op.action with
      | .model api => m.allows api = true
      | .embedded _ f => r.EmbedsArray m f := by
  obtain ⟨d, hd, hmodel, hoffered⟩ := hop
  obtain rfl := hr.eq_of_name (List.mem_of_mem_filter hd) (List.mem_of_mem_filter hm)
    (hmodel.symm.trans hname)
  exact hoffered

theorem Operation.Offered.action_ne (hop : op.Offered r) (hr : r.Named) (hm : m ∈ r.topLevel)
    (hreadOnly : m.ReadOnly) (hname : op.model = m.name) :
    ∀ api ∈ [Api.create, .update, .remove], op.action ≠ .model api := by
  intro api hapi haction
  have hallows := hop.of_name hr hm hname
  rw [haction] at hallows
  exact Bool.false_ne_true ((hreadOnly api hapi).symm.trans hallows)

theorem Operation.Offered.embedsArray (hop : op.Offered r) (hr : r.Named) (hm : m ∈ r.topLevel)
    {f : Field} (h : op.Rewrites m f) : r.EmbedsArray m f := by
  obtain ⟨hname, api, -, haction⟩ := h
  have harray := hop.of_name hr hm hname
  rw [haction] at harray
  exact harray

end Offered

namespace Service

variable {s t : Service} {m : Definition} {keys : String → Prop} {adds : Prop} {base : List Entry}

/-- Calls let the documents of a model grow, when only operations of its embedded arrays and
creations that lead to it are among them. -/
theorem afterCalls_growing (hr : s.registry.Named) (hbuilt : s.built)
    (hoffered : ∀ op ∈ s.operations, op.Offered s.registry) (hm : m ∈ s.registry.topLevel)
    (hreadOnly : m.ReadOnly)
    (halone : ∀ d ∈ s.registry.registered, d.storedIn = m.storedIn → d = m)
    (hhooks : s.hooks.Spares m.storedIn) {calls : List NamedCall}
    (hkeys : ∀ key, s.Rewrites calls m key → keys key) (hadds : s.Cascades calls m → adds)
    (hgrown : Growing m.storedIn keys adds base s.state.store) :
    Growing m.storedIn keys adds base (s.afterCalls calls).state.store := by
  obtain ⟨registry, hooks, operations, built, state⟩ := s
  induction calls generalizing state with
  | nil => exact hgrown
  | cons call calls ih =>
    obtain ⟨state', hstate, hcases⟩ := execute_built hbuilt call.name call.ctx call.args
    have hcalled : ∀ {P : Operation → Prop},
        Calls ⟨registry, hooks, operations, built, state⟩ calls P →
        Calls ⟨registry, hooks, operations, built, state⟩ (call :: calls) P :=
      fun ⟨other, hother, h⟩ => ⟨other, List.mem_cons_of_mem _ hother, h⟩
    unfold afterCalls at ih ⊢
    rw [List.foldl_cons, hstate]
    refine ih state' hr hbuilt hoffered hm halone hhooks (fun key h => hkeys key ?_)
      (fun h => hadds (hcalled h)) ?_
    · obtain ⟨f, hf, hkey, hcall⟩ := h
      exact ⟨f, hf, hkey, hcalled hcall⟩
    · rcases hcases with rfl | ⟨op, hop, hnamed, bound, rfl⟩
      · exact hgrown
      have hof : op.Offered registry := hoffered op hop
      have hcall : ∀ {P : Operation → Prop}, P op →
          Calls ⟨registry, hooks, operations, built, state⟩ (call :: calls) P :=
        fun h => ⟨call, List.mem_cons_self, op, hop, hnamed, h⟩
      refine Operation.run_confined hr halone hhooks (hof.action_ne hr hm hreadOnly)
        (fun f hf => hkeys _ ?_) (fun h => hadds (hcall h)) state hgrown
      exact ⟨f, hof.embedsArray hr hm hf, rfl, hcall hf⟩

end Service

/-- What calls do to the documents of a model that is only read and shares its collection with no
other model, when no hook writes that collection. Those that were stored remain, with other values
at most in the embedded arrays for which an operation that stores them is called; more documents
come after them only if a creation is called from whose model relations lead to this one. So nothing
changes for a model without embedded arrays that no creation leads to. -/
theorem readOnly_grown {s t : Service} {m : Definition} (hs : s.Declared)
    (hbuild : Service.build s = (.ok (), t)) (hm : m ∈ s.registry.topLevel)
    (hreadOnly : m.ReadOnly)
    (halone : ∀ d ∈ s.registry.registered, d.storedIn = m.storedIn → d = m)
    (hhooks : s.hooks.Spares m.storedIn) (calls : List NamedCall) :
    Grown (t.Rewrites calls m) (t.Cascades calls m) (t.documentsOf m)
      ((t.afterCalls calls).documentsOf m) ∧
    ((∀ f, ¬ s.registry.EmbedsArray m f) →
      (∀ d ∈ s.registry.topLevel, d.allows .create →
        ¬ Relation.TransGen s.registry.Points d m) →
      (t.afterCalls calls).documentsOf m = t.documentsOf m) := by
  obtain ⟨hbuilt, hoffers⟩ := Service.build_offers hs hbuild
  have hr := hs.registry.named
  have hoffered := hoffers.operations
  have hids : (t.state.store.entries.map Entry.id).Nodup := hoffers.store ▸ hs.ids
  rw [← hoffers.registry] at hm halone hr hoffered ⊢
  rw [← hoffers.hooks] at hhooks
  have hgrown : Grown (t.Rewrites calls m) (t.Cascades calls m) (t.documentsOf m)
      ((t.afterCalls calls).documentsOf m) :=
    (Service.afterCalls_growing hr hbuilt hoffered hm hreadOnly halone hhooks (fun _ h => h) id
      ⟨hids, .refl _ _ _⟩).grown
  refine ⟨hgrown, fun hnone hleads => hgrown.eq ?_ ?_⟩
  · rintro key ⟨f, hf, -⟩
    exact hnone f hf
  · rintro ⟨call, -, op, hop, -, haction, d, hd, hlead⟩
    obtain ⟨hname, hregistered⟩ := hr.of_modelOf hd
    obtain ⟨d', hd', hmodel, hallows⟩ := hoffered op hop
    obtain rfl := hr.eq_of_name (List.mem_of_mem_filter hd') hregistered
      (hmodel.symm.trans hname.symm)
    rw [haction] at hallows
    exact hleads d' hd' hallows hlead

/-! ## Countries of continents -/

def cityModel : Definition :=
  ⟨"City", [{ name := "name" }], .all, false, "", true, none⟩

/-- Countries are only found, but they hold cities. -/
def countryModel : Definition :=
  ⟨"Country", [{ name := "name" },
    { name := "cities", storageType := "array", embedding := some (.named "City"), many := true }],
    .only [.findOne, .findAll], false, "", false, none⟩

/-- Continents are created with their countries. -/
def continentModel : Definition :=
  ⟨"Continent", [{ name := "name" }, .listing "countries" "Country" "countryIds",
    .idList "countryIds"], .all, false, "", false, none⟩

/-- Currencies are only found, and nothing refers to them. -/
def currencyModel : Definition :=
  ⟨"Currency", [{ name := "code" }], .only [.findOne], false, "", false, none⟩

def atlasModels : Registry where
  definitions := [cityModel, countryModel, continentModel, currencyModel]
  models := [("City", ⟨0, cityModel.declaredFields⟩), ("Country", ⟨1, countryModel.declaredFields⟩),
    ("Continent", ⟨2, continentModel.declaredFields⟩),
    ("Currency", ⟨3, currencyModel.declaredFields⟩)]

theorem atlasModels_reachable : atlasModels.Reachable := by
  have hdefined := Registry.Reachable.defined atlasModels.definitions
  exact (((hdefined.registered 0 rfl).registered 1 rfl).registered 2 rfl).registered 3 rfl

/-- No two models share a collection. -/
theorem atlasModels_alone {m : Definition} (hm : m ∈ atlasModels.registered) :
    ∀ d ∈ atlasModels.registered, d.storedIn = m.storedIn → d = m := by
  intro d hd hsame
  refine atlasModels_reachable.named.eq_of_name hd hm ?_
  have hall : ∀ d ∈ atlasModels.registered, d.storedIn = d.name := by decide
  rw [← hall d hd, ← hall m hm, hsame]

/-- Only countries are related to anything. -/
theorem atlasModels_points {d m : Definition} (h : Relation.TransGen atlasModels.Points d m) :
    m.name = "Country" := by
  obtain ⟨last, -, declared, hdeclared, f, hf, hrelation, htarget⟩ :=
    Relation.TransGen.tail'_iff.mp h
  have hall : ∀ f ∈ atlasModels.models.flatMap fun m => m.2.fields,
      f.isRelation → (f.relation.map Relation.target) = some "Country" := by decide
  have hcountry := hall f (Registry.HasField.mem ⟨last.name, declared, hdeclared, hf⟩) hrelation
  unfold relationTarget at htarget
  cases hspec : f.relation with
  | none =>
    rw [hspec] at htarget
    cases htarget
  | some relation =>
    rw [hspec] at htarget hcountry
    rw [(atlasModels_reachable.named.of_modelOf htarget).1]
    exact Option.some.inj hcountry

/-- A service with a country and a currency. Creations are logged by a hook. -/
def atlas : Service where
  registry := atlasModels
  hooks := ⟨[⟨.all, .beforeCreate,
    { label := .text "log", requests := [.insert "Log" (.record [])] }⟩]⟩
  state := { store := ⟨[⟨"Country", "fr", [("name", .text "France")]⟩,
    ⟨"Currency", "eur", [("code", .text "EUR")]⟩]⟩ }

theorem atlas_declared : atlas.Declared :=
  ⟨atlasModels_reachable, rfl, rfl, by decide⟩

/-- The service with a hook that removes the country when one is looked for. -/
def atlasPurged : Service :=
  { atlas with hooks := ⟨[⟨.model "Country", .beforeFindOne,
    { label := .text "purge", requests := [.delete "Country" (.text "fr")] }⟩]⟩ }

/-- Creates a continent with a country. -/
def createEurope : NamedCall :=
  ⟨"createContinent", .null, [("input", .record [("name", .text "Europe"),
    ("countries", .list [.record [("name", .text "Spain")]])])]⟩

/-- Creates a city of the country. -/
def createLyon : NamedCall :=
  ⟨"createCountryCity", .null, [("countryId", .text "fr"), ("input", .record [("name", .text "Lyon")])]⟩

def findFrance : NamedCall :=
  ⟨"country", .null, [("id", .text "fr")]⟩

/-- The ids of countries, with the counts of their cities. -/
def countCities (countries : List Entry) : List (String × Nat) :=
  countries.map fun e => (e.id, (Fields.get e.fields "cities").items.length)

theorem atlas_evaluated : (Service.build atlas).1.isOk ∧ (Service.build atlasPurged).1.isOk ∧
    countCities ((Service.build atlas).2.documentsOf countryModel) = [("fr", 0)] ∧
    countCities (((Service.build atlas).2.afterCalls [createEurope]).documentsOf countryModel) =
      [("fr", 0), ("000000000000000000000003", 0)] ∧
    countCities (((Service.build atlas).2.afterCalls [createLyon]).documentsOf countryModel) =
      [("fr", 1)] ∧
    countCities ((Service.build atlasPurged).2.documentsOf countryModel) = [("fr", 0)] ∧
    countCities (((Service.build atlasPurged).2.afterCalls [findFrance]).documentsOf
      countryModel) = [] := by
  -- The recursions are opened to the depth of the models and the calls; the rest is evaluated.
  have hwhile := funext fun r => funext fun begun => funext (typeWhile.eq_def r begun)
  have hfields := funext fun r => funext fun begun => funext fun key =>
    funext (fieldsWhile.eq_def r begun key)
  have hinline := funext fun r => funext fun target => funext (createInline_eq r target)
  have houtput := funext fun r => funext fun model => funext (toOutput_eq r model)
  have hfield := funext fun r => funext fun f => funext (fieldOutput_eq r f)
  unfold Service.afterCalls Service.execute Service.builtOperation Service.runOperation
    Operation.run Operation.runModel Operation.runEmbedded ModelOperations.create
    ModelOperations.findOne EmbeddedOperations.create linkInline ModelOperations.shape
    EmbeddedOperations.shape
  rw [hinline]
  unfold storeWithParts linkInline
  rw [houtput, hfield, houtput, hfield]
  unfold Service.build Service.addOperations Service.addModel Service.addEmbedded Service.listingOf
    buildAll buildModel filterTypeOf sortTypeOf typeOf
  rw [hwhile, hfields, hfields, hfields, hfields, hfields, hwhile]
  decide +kernel

theorem atlas_built : ∃ t, Service.build atlas = (.ok (), t) :=
  ⟨_, Step.eq_of_isOk atlas_evaluated.1⟩

/-- A model that is only read is written all the same: by a creation whose relations lead to it, by
an operation of its embedded array, and by a hook. -/
theorem readOnly_country_written : countryModel ∈ atlasModels.topLevel ∧ countryModel.ReadOnly ∧
    (∀ d ∈ atlasModels.registered, d.storedIn = countryModel.storedIn → d = countryModel) ∧
    (∃ t, Service.build atlas = (.ok (), t) ∧
      (t.afterCalls [createEurope]).documentsOf countryModel ≠ t.documentsOf countryModel ∧
      (t.afterCalls [createLyon]).documentsOf countryModel ≠ t.documentsOf countryModel) ∧
    ∃ t, Service.build atlasPurged = (.ok (), t) ∧
      (t.afterCalls [findFrance]).documentsOf countryModel ≠ t.documentsOf countryModel := by
  obtain ⟨hatlas, hpurged, hfrance, heurope, hlyon, hfrance', hfound⟩ := atlas_evaluated
  have hcounts : ∀ {l l' : List Entry} {counts counts' : List (String × Nat)},
      countCities l = counts → countCities l' = counts' → counts ≠ counts' → l ≠ l' := by
    rintro l _ _ _ rfl rfl hne rfl
    exact hne rfl
  refine ⟨List.mem_cons_self, by decide, atlasModels_alone (List.mem_cons_of_mem _ List.mem_cons_self),
    ⟨_, Step.eq_of_isOk hatlas, ?_, ?_⟩, _, Step.eq_of_isOk hpurged, ?_⟩
  · exact hcounts heurope hfrance (by decide)
  · exact hcounts hlyon hfrance (by decide)
  · exact hcounts hfound hfrance' (by decide)

/-- A country and a city are created, and the currency stays as it is. -/
theorem readOnly_country_grown : atlas.Declared ∧
    (∀ m ∈ [countryModel, currencyModel], m ∈ atlasModels.topLevel ∧ m.ReadOnly ∧
      (∀ d ∈ atlasModels.registered, d.storedIn = m.storedIn → d = m) ∧
      atlas.hooks.Spares m.storedIn) ∧
    ∃ t, Service.build atlas = (.ok (), t) ∧
      Grown (t.Rewrites [createEurope, createLyon] countryModel)
        (t.Cascades [createEurope, createLyon] countryModel) (t.documentsOf countryModel)
        ((t.afterCalls [createEurope, createLyon]).documentsOf countryModel) ∧
      (t.afterCalls [createEurope, createLyon]).documentsOf currencyModel =
        t.documentsOf currencyModel := by
  have hcountry : countryModel ∈ atlasModels.registered := List.mem_cons_of_mem _ List.mem_cons_self
  have hcurrency : currencyModel ∈ atlasModels.registered :=
    List.mem_cons_of_mem _ (List.mem_cons_of_mem _ (List.mem_cons_of_mem _ List.mem_cons_self))
  have hmodels : ∀ m ∈ [countryModel, currencyModel], m ∈ atlasModels.topLevel ∧ m.ReadOnly ∧
      (∀ d ∈ atlasModels.registered, d.storedIn = m.storedIn → d = m) ∧
      atlas.hooks.Spares m.storedIn := by
    intro m hm
    rcases List.mem_cons.mp hm with rfl | hm
    · exact ⟨List.mem_filter.mpr ⟨hcountry, rfl⟩, by decide, atlasModels_alone hcountry, by decide⟩
    · obtain rfl := List.mem_singleton.mp hm
      exact ⟨List.mem_filter.mpr ⟨hcurrency, rfl⟩, by decide, atlasModels_alone hcurrency, by decide⟩
  obtain ⟨t, hbuild⟩ := atlas_built
  obtain ⟨hm, hread, halone, hspares⟩ := hmodels countryModel List.mem_cons_self
  obtain ⟨hm', hread', halone', hspares'⟩ :=
    hmodels currencyModel (List.mem_cons_of_mem _ List.mem_cons_self)
  refine ⟨atlas_declared, hmodels, t, hbuild,
    (readOnly_grown atlas_declared hbuild hm hread halone hspares _).1,
    (readOnly_grown atlas_declared hbuild hm' hread' halone' hspares' _).2 ?_ ?_⟩
  · rintro f ⟨declared, hdeclared, hf, harray⟩
    cases hdeclared
    have hnone : ∀ f ∈ currencyModel.declaredFields, f.isEmbeddedArray = false := by decide
    exact Bool.false_ne_true ((hnone f hf).symm.trans harray)
  · intro d _ _ hleads
    exact absurd (atlasModels_points hleads) (by decide)

end DocumentApi
