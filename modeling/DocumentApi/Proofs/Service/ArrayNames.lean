import DocumentApi.Proofs.Naming.Inflecting
import DocumentApi.Proofs.Service.Surface

/-!
# Names of the operations on an array

Of the six names for an array two are made of the name of its field and two of the singular of it in
the same way.

* `EmbeddedNames.nodup_iff`: the six names differ exactly if the field name ends in one `s`.
* `OperationNames.nodup`: the names for a model always differ.
* `build_of_one_array`: a model with one array builds exactly if the names for the array differ from
  each other and from those for the model.
-/

namespace DocumentApi

/-! ## The names for an array -/

section Names

variable {pascal camel many one : List Char}

/-- The words that the names for an array are made of: a model in pascal and in camel case, a field
and its singular. Their lengths keep the names that start with a verb apart from the others. -/
structure NameWords (pascal camel many one : List Char) : Prop where
  camel_le : camel.length ≤ pascal.length
  many_le : many.length ≤ one.length + 3
  /-- A singular longer than its field is made of low lines. -/
  one_le : one.length ≤ many.length ∨ ∀ a b : List Char, a ++ one ≠ b ++ many

theorem nameWords (parent field : List Char) : NameWords (toPascalChars parent)
    (toCamelChars parent) (toPascalChars field) (toPascalChars (singularChars field)) := by
  have hcamel := length_toCamelChars_le parent
  by_cases hends : EndsInOneS field
  · have hpascal := (singularChars_changes hends).pascal
    exact ⟨hcamel, hpascal.length_le, hpascal.length_ge⟩
  · rw [singularChars_keeps hends]
    exact ⟨hcamel, by omega, Or.inl le_rfl⟩

/-- The name of an operation that reads an array is none of those that start with a verb. -/
theorem NameWords.read_ne_write (h : NameWords pascal camel many one) {verb x y : List Char}
    (hverb : verb.length = 6) (hx : x = many ∨ x = one) (hy : y = many ∨ y = one) :
    camel ++ x ≠ verb ++ pascal ++ y := by
  obtain ⟨hcamel, hmany, hone⟩ := h
  have hlonger : x.length ≤ y.length + 3 → camel ++ x ≠ verb ++ pascal ++ y := by
    intro hlength hsame
    have := congrArg List.length hsame
    simp only [List.length_append] at this
    omega
  rcases hx with rfl | rfl <;> rcases hy with rfl | rfl
  · exact hlonger (by omega)
  · exact hlonger hmany
  · rcases hone with hone | hone
    · exact hlonger (by omega)
    · exact hone _ _
  · exact hlonger (by omega)

/-- Six names that are made like those for an array. -/
def arrayNames (pascal camel many one : List Char) : List (List Char) :=
  ["create".toList ++ pascal ++ one, "update".toList ++ pascal ++ many,
    "update".toList ++ pascal ++ one, "remove".toList ++ pascal ++ many, camel ++ one, camel ++ many]

/-- Only the names that differ in their last word alone can be the same. -/
theorem NameWords.nodup_iff (h : NameWords pascal camel many one) :
    (arrayNames pascal camel many one).Nodup ↔ many ≠ one := by
  have hread : ∀ verb x y, verb.length = 6 → (x = many ∨ x = one) → (y = many ∨ y = one) →
      verb ++ (pascal ++ y) ≠ camel ++ x := by
    intro verb x y hverb hx hy hsame
    rw [← List.append_assoc] at hsame
    exact h.read_ne_write hverb hx hy hsame.symm
  unfold arrayNames
  constructor
  · rintro hnodup rfl
    simp at hnodup
  · intro hne
    have hcreate := hread "create".toList
    have hupdate := hread "update".toList
    have hremove := hread "remove".toList
    simp at hcreate hupdate hremove
    simp [hne, hne.symm, hcreate, hupdate, hremove]

end Names

/-- The names of the operations on an array. -/
def EmbeddedNames.list (names : EmbeddedNames) : List String :=
  EmbeddedApi.all.map names.of

/-- The names of the operations of a model. -/
def OperationNames.list (names : OperationNames) : List String :=
  Api.all.map names.of

theorem nodup_toList_iff {names : List String} :
    (names.map String.toList).Nodup ↔ names.Nodup :=
  List.nodup_map_iff fun _ _ => String.toList_inj.mp

/-- The six names for an array differ exactly if its field name ends in one `s`. -/
theorem EmbeddedNames.nodup_iff (parent field : String) :
    (EmbeddedNames.ofField parent field).list.Nodup ↔ EndsInOneS field.toList := by
  have hlist : (EmbeddedNames.ofField parent field).list.map String.toList =
      arrayNames (toPascalChars parent.toList) (toCamelChars parent.toList)
        (toPascalChars field.toList) (toPascalChars (singularChars field.toList)) := by
    simp [arrayNames, EmbeddedNames.list, EmbeddedApi.all, EmbeddedNames.of, EmbeddedNames.ofField,
      toPascal, toCamel, singular]
  rw [← nodup_toList_iff, hlist, (nameWords parent.toList field.toList).nodup_iff, ne_comm, Ne,
    toPascalChars_singular_eq_iff, not_not]

/-! ## The names for a model -/

/-- A name that starts with the letter that a model starts with and keeps the capital of the model is
not the model in lower case. -/
theorem lowerChars_ne_of_capital {model verb word : List Char} {d : Char} (hd : d.isAlpha = true)
    (hi : d ≠ 'i') (hk : d ≠ 'k')
    (hword : ∀ c rest, model = c :: rest → c.isAlpha = true → c.toLower = d →
      word.head? = some c.toUpper) : lowerChars model ≠ d :: verb ++ word := by
  intro hsame
  obtain ⟨c, rest, hmodel, hc⟩ :=
    exists_of_head?_lowerChars (d := d) (by rw [hsame]; rfl) (toNat_lt_of_isAlpha hd) hi hk
  have halpha : c.isAlpha = true := isAlpha_of_isAlpha_toLower (by rw [hc, hd])
  have hcapital : c.toUpper ∈ lowerChars model := by
    rw [hsame]
    exact List.mem_append_right _ (List.mem_of_head? (hword c rest hmodel halpha hc))
  have hupper := not_isUpper_of_mem_lowerFrom hcapital
  rw [(letterCase halpha).isUpper_toUpper] at hupper
  cases hupper

/-- The operations of a model never have one name. -/
theorem OperationNames.nodup (model : String) : (OperationNames.ofModel model).list.Nodup := by
  have hone : ∀ d verb, d.isAlpha = true → d ≠ 'i' → d ≠ 'k' →
      lowerChars model.toList ≠ d :: verb ++ toPascalChars model.toList := by
    intro d verb hd hi hk
    refine lowerChars_ne_of_capital hd hi hk fun c rest hmodel hc _ => ?_
    rw [hmodel, head?_toPascalChars hc]
  have hmany : ∀ d verb, d.isAlpha = true → d ≠ 'i' → d ≠ 'k' → d ≠ 'f' → d ≠ 'y' →
      lowerChars model.toList ≠ d :: verb ++ pluralChars (toPascalChars model.toList) := by
    intro d verb hd hi hk hf hy
    refine lowerChars_ne_of_capital hd hi hk fun c rest hmodel hc hlower => ?_
    rw [hmodel, head?_plural_toPascalChars hc (hlower ▸ hf) (hlower ▸ hy)]
  have hlist : (OperationNames.ofModel model).list.map String.toList =
      ["create".toList ++ toPascalChars model.toList, "update".toList ++ toPascalChars model.toList,
        "remove".toList ++ toPascalChars model.toList, lowerChars model.toList,
        "all".toList ++ pluralChars (toPascalChars model.toList),
        "paginate".toList ++ pluralChars (toPascalChars model.toList)] := by
    simp [OperationNames.list, Api.all, OperationNames.of, OperationNames.ofModel, toPascal, plural,
      lowerText]
  have hcreate := hone 'c' "reate".toList (by decide) (by decide) (by decide)
  have hupdate := hone 'u' "pdate".toList (by decide) (by decide) (by decide)
  have hremove := hone 'r' "emove".toList (by decide) (by decide) (by decide)
  have hall := hmany 'a' "ll".toList (by decide) (by decide) (by decide) (by decide) (by decide)
  have hpaginate := hmany 'p' "aginate".toList (by decide) (by decide) (by decide) (by decide)
    (by decide)
  rw [← nodup_toList_iff, hlist]
  simp at hcreate hupdate hremove hall hpaginate
  simp [Ne.symm hcreate, Ne.symm hupdate, Ne.symm hremove, hall, hpaginate]

/-! ## Builds -/

section Builds

variable {r : Registry} {d : Definition} {f : Field}

/-- The names for an array differ from each other and from those of the operations that its model
allows. -/
def ArrayFits (d : Definition) (f : Field) : Prop :=
  EndsInOneS f.name.toList ∧ ∀ api, d.allows api →
    (OperationNames.ofModel d.name).of api ∉ (EmbeddedNames.ofField d.name f.name).list

theorem operations_nodup_iff (htop : r.topLevel = [d]) (harray : r.arraysOf d = [f]) :
    (Service.operationNames r.operations).Nodup ↔ ArrayFits d f := by
  have hnames : r.offers.map Offer.name =
      (Api.all.filter d.allows).map (OperationNames.ofModel d.name).of ++
        (EmbeddedNames.ofField d.name f.name).list := by
    unfold Registry.offers Registry.offersOf EmbeddedNames.list
    rw [htop, List.flatMap_singleton, harray, List.flatMap_singleton, List.map_append, List.map_map,
      List.map_map]
    rfl
  have hown : ((Api.all.filter d.allows).map (OperationNames.ofModel d.name).of).Nodup :=
    (OperationNames.nodup d.name).sublist (List.filter_sublist.map _)
  rw [Service.operationNames_eq, hnames, List.nodup_append', EmbeddedNames.nodup_iff]
  unfold ArrayFits
  constructor
  · rintro ⟨-, hends, hdisjoint⟩
    refine ⟨hends, fun api hallows hmem => hdisjoint (List.mem_map_of_mem ?_) hmem⟩
    exact List.mem_filter.mpr ⟨Api.mem_all api, hallows⟩
  · rintro ⟨hends, hother⟩
    refine ⟨hown, hends, fun name hname hmem => ?_⟩
    obtain ⟨api, hapi, rfl⟩ := List.mem_map.mp hname
    exact hother api (List.mem_filter.mp hapi).2 hmem

/-- A service before its build, whose types can be built, with one top-level model that has one
embedded array, of a registered model. -/
structure Service.WithOneArray (s : Service) (d : Definition) (f : Field) : Prop where
  fresh : s.Fresh
  types : (buildAll s.registry {}).1 = .ok ()
  registered : s.registry.ArraysRegistered
  topLevel : s.registry.topLevel = [d]
  arrays : s.registry.arraysOf d = [f]

/-- Whether a service with one array builds depends on the names alone. -/
theorem Service.WithOneArray.build_iff {s : Service} (h : s.WithOneArray d f) :
    ((∃ t, build s = (.ok (), t)) ↔ ArrayFits d f) ∧
    ((∃ e t, build s = (.error e, t) ∧ e.kind? = some .schemaDefinition) ↔ ¬ ArrayFits d f) := by
  obtain ⟨hfails, hbuilds⟩ := Service.build_iff h.fresh h.types h.registered
  have hclashes : Clashes s.registry ↔ ¬ ArrayFits d f := by
    rw [clashes_iff h.fresh.registry.named h.fresh.registry.distinct,
      operations_nodup_iff h.topLevel h.arrays]
  rw [hclashes] at hfails hbuilds
  exact ⟨hbuilds.trans not_not, hfails⟩

end Builds

/-- The six names for an array differ exactly if its field name ends in `s` but not in `ss`. A service
with one top-level model that has one embedded array builds exactly if the names for the array
differ from each other and from those of the operations that the model allows; otherwise the build
fails for the schema. -/
theorem build_of_one_array :
    (∀ parent field : String,
      (EmbeddedNames.ofField parent field).list.Nodup ↔ EndsInOneS field.toList) ∧
    ∀ (s : Service) (d : Definition) (f : Field), s.WithOneArray d f →
      ((∃ t, Service.build s = (.ok (), t)) ↔ EndsInOneS f.name.toList ∧ ∀ api, d.allows api →
        (OperationNames.ofModel d.name).of api ∉ (EmbeddedNames.ofField d.name f.name).list) ∧
      ((¬ ∃ t, Service.build s = (.ok (), t)) →
        ∃ e t, Service.build s = (.error e, t) ∧ e.kind? = some .schemaDefinition) := by
  refine ⟨EmbeddedNames.nodup_iff, fun s d f h => ?_⟩
  obtain ⟨hbuilds, hfails⟩ := h.build_iff
  exact ⟨hbuilds, fun hnone => hfails.mpr (mt hbuilds.mpr hnone)⟩

/-! ## A store with books, and one with data -/

/-- Items of a store, in an array of a given name. -/
def itemsField (name : String) : Field :=
  { name, storageType := "array", embedding := some (.named "Item"), many := true }

def itemModel : Definition :=
  ⟨"Item", [{ name := "label" }], .all, false, "", true, none⟩

def storeModel (field : String) : Definition :=
  ⟨"Store", [itemsField field], .all, false, "", false, none⟩

def storeModels (field : String) : Registry where
  definitions := [itemModel, storeModel field]
  models := [("Item", ⟨0, itemModel.declaredFields⟩), ("Store", ⟨1, (storeModel field).declaredFields⟩)]

/-- A service with stores whose items are in an array of a given name. -/
def storeOf (field : String) : Service :=
  { registry := storeModels field }

theorem stores_built : (buildAll (storeModels "books") {}).1.isOk ∧
    (buildAll (storeModels "data") {}).1.isOk := by
  -- The recursions are opened to the depth of the models; the rest is evaluated.
  have hwhile := funext fun r => funext fun begun => funext (typeWhile.eq_def r begun)
  have hfields := funext fun r => funext fun begun => funext fun key =>
    funext (fieldsWhile.eq_def r begun key)
  unfold buildAll buildModel filterTypeOf sortTypeOf typeOf
  rw [hwhile, hfields, hfields, hfields, hwhile, hfields, hfields, hfields, hwhile]
  decide +kernel

theorem stores_withOneArray :
    (storeOf "books").WithOneArray (storeModel "books") (itemsField "books") ∧
      (storeOf "data").WithOneArray (storeModel "data") (itemsField "data") := by
  have hwith : ∀ field,
      (Registry.mk [itemModel, storeModel field] [("Item", ⟨0, itemModel.declaredFields⟩)]).registerOne
        1 = (storeModels field, .ok []) → (buildAll (storeModels field) {}).1.isOk →
      (storeModels field).arraysOf (storeModel field) = [itemsField field] →
      (storeOf field).WithOneArray (storeModel field) (itemsField field) := by
    intro field hregister hbuilt harrays
    have hitem : Registry.Reachable
        ⟨[itemModel, storeModel field], [("Item", ⟨0, itemModel.declaredFields⟩)]⟩ :=
      ((Registry.Reachable.empty.define itemModel).define (storeModel field)).registered 0 rfl
    refine ⟨⟨hitem.registered 1 hregister, rfl, rfl, rfl⟩,
      congrArg Prod.fst (Step.eq_of_isOk hbuilt), ?_, rfl, harrays⟩
    intro d hd f hf
    obtain rfl : d = storeModel field := List.mem_singleton.mp hd
    rw [← Registry.mem_arraysOf rfl] at hf
    obtain rfl : f = itemsField field := List.mem_singleton.mp (harrays ▸ hf)
    exact ⟨"Item", rfl, rfl⟩
  exact ⟨hwith "books" rfl stores_built.1 rfl, hwith "data" rfl stores_built.2 rfl⟩

/-- The names for an array of books differ, and the service builds. -/
theorem build_of_books :
    (storeOf "books").WithOneArray (storeModel "books") (itemsField "books") ∧
    (EmbeddedNames.ofField "Store" "books").list.Nodup ∧
    ∃ t, Service.build (storeOf "books") = (.ok (), t) := by
  obtain ⟨hnames, hbuild⟩ := build_of_one_array
  have hends : EndsInOneS "books".toList := by decide
  refine ⟨stores_withOneArray.1, (hnames "Store" "books").mpr hends,
    (hbuild _ _ _ stores_withOneArray.1).1.mpr ⟨hends, fun api _ => ?_⟩⟩
  cases api <;> decide +kernel

/-- Data is its own singular: two pairs of the names for it coincide, and the build fails. -/
theorem build_of_data_fails :
    (storeOf "data").WithOneArray (storeModel "data") (itemsField "data") ∧
    ¬ (EmbeddedNames.ofField "Store" "data").list.Nodup ∧
    ∃ e t, Service.build (storeOf "data") = (.error e, t) ∧ e.kind? = some .schemaDefinition := by
  have hends : ¬ EndsInOneS "data".toList := by decide
  refine ⟨stores_withOneArray.2, mt (EmbeddedNames.nodup_iff "Store" "data").mp hends, ?_⟩
  exact stores_withOneArray.2.build_iff.2.mpr fun hfits => hends hfits.1

end DocumentApi
