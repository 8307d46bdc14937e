import DocumentApi.Proofs.Operations.Preparing
import DocumentApi.Proofs.Types.Outputs
import DocumentApi.Proofs.Types.Values
import Mathlib.Data.List.Nodup

/-!
# Documents that come back

* `GivesBack`: an output gives back the value that was supplied for a field. Documents that are
  embedded come back as instances with ids, lists of them in the same order.
* `fieldOutput_plain`: a value that embeds nothing comes back as it is.
* `fieldsShow`: what the instance of a document shows of the fields that the document carries.
* `comesAs`: an embedded document that was supplied, given ids and made an instance is related to the
  instance by whatever follows from the fields. So it comes back (`comesBack`).
-/

namespace DocumentApi

open TypeCache (Sound)

mutual

/-- `GivesBack r f x y`: for the value `x` of the field `f`, the output `y` gives it back. -/
inductive GivesBack (r : Registry) : Field → Value → Value → Prop
  | plain {f : Field} {v : Value} (plain : f.embedding = none) : GivesBack r f v v
  | one {f : Field} {model : String} {x y : Value} (single : f.many = false)
      (embeds : f.embeddedName = some model) (item : ItemBack r model x y) : GivesBack r f x y
  | many {f : Field} {model : String} {xs ys : List Value} (list : f.many)
      (embeds : f.embeddedName = some model) (items : ItemsBack r model xs ys) :
      GivesBack r f (.list xs) (.list ys)

/-- An embedded document comes back: as an instance of its model with every output field for which
a value was supplied, and with an id if the model shows one. -/
inductive ItemBack (r : Registry) : String → Value → Value → Prop
  | instance {model : String} {typeName : Option String} {entries out : Fields}
      {fields : List Field} (shown : r.outputFields (some model) = .ok fields)
      (names : Table.names out = fields.map Field.name)
      (back : ∀ f x y, f ∈ fields → Table.find? entries f.name = some x → x.isNull = false →
        x.isUnset = false → Table.find? out f.name = some y → GivesBack r f x y)
      (id : ∀ f y, f ∈ fields → f.isId → Table.find? out f.name = some y →
        ∃ s, s ≠ "" ∧ y.plain = .text s) :
      ItemBack r model (.object typeName entries) (.object (some model) out)

inductive ItemsBack (r : Registry) : String → List Value → List Value → Prop
  | nil {model : String} : ItemsBack r model [] []
  | cons {model : String} {x y : Value} {xs ys : List Value} (item : ItemBack r model x y)
      (items : ItemsBack r model xs ys) : ItemsBack r model (x :: xs) (y :: ys)

end

/-- `Shows Q f x y`: for the value `x` that was supplied for the field `f`, the output has `y`. A value
that embeds nothing is the same; documents that are embedded are related as `Q` says for their
model. -/
inductive Shows (Q : String → Value → Value → Prop) : Field → Value → Value → Prop
  | plain {f : Field} {v : Value} (plain : f.embedding = none) : Shows Q f v v
  | one {f : Field} {model : String} {x y : Value} (single : f.many = false)
      (embeds : f.embeddedName = some model) (item : Q model x y) : Shows Q f x y
  | many {f : Field} {model : String} {xs ys : List Value} (list : f.many)
      (embeds : f.embeddedName = some model) (items : List.Forall₂ (Q model) xs ys) :
      Shows Q f (.list xs) (.list ys)

variable {r : Registry} {types c c' : TypeCache} {Q : String → Value → Value → Prop}

theorem Shows.givesBack {f : Field} {x y : Value} (h : Shows (ItemBack r) f x y) :
    GivesBack r f x y := by
  cases h with
  | plain plain => exact .plain plain
  | one single embeds item => exact .one single embeds item
  | many list embeds items =>
    refine .many list embeds ?_
    induction items with
    | nil => exact .nil
    | cons item _ ih => exact .cons item ih

/-! ## Values that embed nothing -/

/-- A value of a declared type is stored as it is. -/
theorem Inhabits.declared {t : DeclaredType} {x : Value} (h : Inhabits types t.ref x) :
    x.plain = x ∧ x.isNull = false := by
  induction t generalizing x with
  | scalar s => cases h <;> exact ⟨rfl, rfl⟩
  | list item ih =>
    cases h with
    | @list _ items h =>
      refine ⟨?_, rfl⟩
      rw [Value.plain, Value.plainItems_eq_map, List.map_congr_left fun v hv => (ih (h v hv)).1,
        List.map_id']

theorem Inhabits.scalar {s : Scalar} {x : Value} (h : Inhabits types (.scalar s) x) :
    x.plain = x ∧ x.isNull = false := by
  cases h <;> exact ⟨rfl, rfl⟩

/-- A member that is stored as it should be is read as the same member. -/
theorem enumOutput_member {spec : EnumSpec} {members : Table Value} {name : String}
    {stored y : Value} (hle : types ≤ c)
    (declared : Table.find? types.enums spec.name = some members)
    (first : memberStoredAs members stored = some (name, stored)) (hjson : stored.IsJson)
    (h : enumOutput spec stored c = (.ok y, c')) : y = .member spec.name name stored := by
  have hdeclared := hle.enums _ _ declared
  unfold enumOutput at h
  obtain ⟨found, c₁, henum, h⟩ := Step.bind_ok h
  have hfound : found = members := by
    change (Except.ok ((c.declare spec).membersOf spec), c.declare spec) = _ at henum
    rw [TypeCache.declare_of_has hdeclared] at henum
    unfold TypeCache.membersOf at henum
    rw [hdeclared] at henum
    cases henum
    rfl
  subst hfound
  cases hjson <;> dsimp only at h <;> rw [first] at h <;> cases h <;> rfl

/-- A value that embeds nothing comes back as it is. -/
theorem fieldOutput_plain {f : Field} {x y : Value} (hs : Sound r types) (hr : r.Regular)
    (hle : types ≤ c) (hplain : f.embedding = none) (hrelation : f.isRelation = false)
    (htyped : ¬ f.Untyped .create) (hx : Inhabits types (f.typeIn .create) x)
    (h : fieldOutput r f x.plain c = (.ok y, c')) : y = x := by
  rw [fieldOutput_eq] at h
  have hembeds : ¬ f.embedding.isSome := by simp [hplain]
  cases htype : f.plainType? with
  | none =>
    refine absurd ⟨Field.not_shadowed_iff.mpr htype, fun nested hnested => ?_⟩ htyped
    rw [Field.nests_related_iff htype hplain, hrelation] at hnested
    cases hnested.2.1
  | some t =>
    unfold Field.typeIn at hx
    rw [htype] at hx
    dsimp only at hx
    unfold Field.plainType? at htype
    cases hoverride : f.typeOverride with
    | some declared =>
      rw [hoverride] at htype h
      cases htype
      obtain ⟨hsame, hnull⟩ := hx.declared
      rw [hsame, if_neg (by simp [hnull]), if_neg hembeds] at h
      cases hspec : f.enumSpec <;> rw [hspec] at h <;> cases h <;> rfl
    | none =>
      rw [hoverride] at htype h
      cases hspec : f.enumSpec with
      | some spec =>
        rw [hspec] at htype h
        cases htype
        cases hx with
        | @member _ name members stored declared first =>
          obtain ⟨hnull, hjson⟩ := hs.member hr declared first
          rw [Value.plain, if_neg (by simp [hnull]), if_neg hembeds] at h
          exact enumOutput_member hle declared first hjson h
      | none =>
        rw [hspec] at htype h
        obtain ⟨s, -, rfl⟩ := Option.map_eq_some_iff.mp htype
        obtain ⟨hsame, hnull⟩ := hx.scalar
        rw [hsame, if_neg (by simp [hnull]), if_neg hembeds] at h
        cases h
        rfl

/-! ## Ids -/

theorem Value.elements_text (s : String) :
    (Value.text s).elements = some (s.toList.map fun ch => .text (String.singleton ch)) := rfl

/-- A text that is not empty is no sequence of pairs. -/
theorem Value.toFields_text {s : String} (hs : s ≠ "") :
    (Value.text s).toFields = .error .badValue := by
  have hpair : ∀ ch : Char, (Value.text (String.singleton ch)).toPair = .error .badValue := by
    intro ch
    unfold toPair
    rw [elements_text, String.toList_singleton]
    rfl
  cases hchars : s.toList with
  | nil => exact absurd (String.toList_eq_nil_iff.mp hchars) hs
  | cons ch rest =>
    have hread : (Value.text s).iterate =
        .ok (.text (String.singleton ch) :: rest.map fun ch => .text (String.singleton ch)) := by
      unfold iterate
      rw [elements_text, hchars]
      rfl
    change (do return Table.ofPairs (← (← (Value.text s).iterate).mapM toPair)) = _
    rw [hread]
    change (do return Table.ofPairs (← List.mapM toPair (_ :: _))) = _
    rw [List.mapM_cons, hpair]
    rfl

theorem toOutput_text {model : Option String} {s : String} {y : Value} (hs : s ≠ "") :
    toOutput r model (.text s) c ≠ (.ok y, c') := by
  rw [toOutput_eq, if_neg (by simp [Value.isNull]), Value.toFields_text hs]
  exact fun h => by cases h

theorem Value.eq_text_of_same {v : Value} {s : String} (h : v.same (.text s)) : v = .text s := by
  cases v <;> simp_all [Value.same, Value.sameNumber, Value.number?, Value.isNull, Value.isUnset]

/-- An id that is shown stands for the id. -/
theorem fieldOutput_id {f : Field} {s : String} {y : Value} (hs : s ≠ "")
    (h : fieldOutput r f (.text s) c = (.ok y, c')) : y.plain = .text s := by
  rw [fieldOutput_eq, if_neg (by simp [Value.isNull])] at h
  by_cases hembeds : f.embedding.isSome
  · rw [if_pos hembeds] at h
    by_cases hmany : f.many
    · rw [if_pos hmany] at h
      cases hchars : s.toList with
      | nil => exact absurd (String.toList_eq_nil_iff.mp hchars) hs
      | cons ch rest =>
        rw [Value.elements_text, hchars] at h
        obtain ⟨ys, c₁, heach, -⟩ := Step.bind_ok h
        obtain ⟨item, c₂, hitem, -⟩ := Step.bind_ok heach
        exact absurd hitem (toOutput_text (by simp))
    · rw [if_neg hmany] at h
      exact absurd h (toOutput_text hs)
  · rw [if_neg hembeds] at h
    cases hspec : f.enumSpec with
    | none =>
      rw [hspec] at h
      cases h
      rfl
    | some spec =>
      cases htype : f.typeOverride with
      | some t =>
        rw [hspec, htype] at h
        cases h
        rfl
      | none =>
        rw [hspec, htype] at h
        obtain ⟨members, c₁, -, h⟩ := Step.bind_ok h
        dsimp only at h
        cases hfirst : memberStoredAs members (.text s) with
        | none =>
          rw [hfirst] at h
          cases h
          rfl
        | some member =>
          rw [hfirst] at h
          cases h
          have hsame : member.2.same (.text s) := @List.find?_some _ _ member members hfirst
          exact Value.eq_text_of_same hsame

/-! ## Embedded documents -/

theorem Registry.fieldsFor_create {model : String} {declared : List Field}
    (h : r.fieldsOf model = .ok declared) : r.fieldsFor model .create =
      .ok (declared.filter fun f => !f.isId && !f.excludedOnCreate) := by
  unfold fieldsFor createFields
  rw [h]
  rfl

/-- A value that is given for a declared field is one of the type that the field has in the create
input. -/
theorem FieldsInhabit.declared (hs : Sound r types) (hr : r.Distinct) {model : String}
    {shape : TypeShape} {entries : Fields} {declared : List Field} {f : Field} {x : Value}
    (hbuilt : types.shape? ⟨model, .create⟩ = some shape)
    (hentries : FieldsInhabit types shape.fields entries)
    (hdeclared : r.fieldsOf model = .ok declared) (hf : f ∈ declared)
    (hx : Table.find? entries f.name = some x) (hnull : x.isNull = false)
    (hset : x.isUnset = false) :
    f.isId = false ∧ ¬ f.Untyped .create ∧ Inhabits types (f.typeIn .create) x := by
  obtain ⟨hbuildable, rfl⟩ := hs.shapes _ _ hbuilt
  have hfields := Registry.fieldsFor_create hdeclared
  rw [Registry.shapeOf_fields (Or.inr (Or.inl rfl)) hfields] at hentries
  obtain ⟨t, ht, hname, hvalue⟩ := hentries.find? hx hset
  obtain ⟨g, hg, rfl⟩ := List.mem_map.mp ht
  obtain ⟨hmem, hkept⟩ := List.mem_filter.mp hg
  have hsame : g = f := List.inj_on_of_nodup_map (hr.fieldsOf hdeclared) hmem hf hname
  subst hsame
  refine ⟨by simpa using (Bool.and_eq_true_iff.mp hkept).1, fun huntyped => hbuildable ?_, ?_⟩
  · exact ⟨_, .refl, Or.inr (Or.inl ⟨Or.inr (Or.inl rfl), _, hfields, g, hg, huntyped⟩)⟩
  · unfold Field.toTypeField at hvalue
    dsimp only at hvalue
    split at hvalue
    · cases hvalue with
      | null => cases hnull
      | given h => exact h
    · exact hvalue

/-- The model of a type that was built is registered. -/
theorem TypeCache.Sound.fieldsOf (hs : Sound r types) {key : TypeKey} {shape : TypeShape}
    (hbuilt : types.shape? key = some shape) : ∃ declared, r.fieldsOf key.model = .ok declared := by
  obtain ⟨hbuildable, -⟩ := hs.shapes key shape hbuilt
  cases hmodel : r.model? key.model with
  | some d => exact Registry.fieldsOf_ok hmodel
  | none => exact absurd (.of_unregistered hmodel) hbuildable

/-- The create input takes no id. -/
theorem FieldsInhabit.no_id (hs : Sound r types) {model : String} {shape : TypeShape}
    {entries : Fields} {declared : List Field}
    (hbuilt : types.shape? ⟨model, .create⟩ = some shape)
    (hentries : FieldsInhabit types shape.fields entries)
    (hdeclared : r.fieldsOf model = .ok declared) :
    Table.find? (Value.plainFields entries) "id" = none := by
  obtain ⟨-, rfl⟩ := hs.shapes _ _ hbuilt
  have hfields := Registry.fieldsFor_create hdeclared
  rw [Registry.shapeOf_fields (Or.inr (Or.inl rfl)) hfields] at hentries
  refine Value.find?_plainFields_eq_none fun hid => ?_
  rw [hentries.names, List.map_map] at hid
  obtain ⟨f, hf, hname⟩ := List.mem_map.mp hid
  have hname : f.name = "id" := hname
  simpa [Field.isId, hname] using (List.mem_filter.mp hf).2

/-- An embedded document is related to what it becomes once it was given ids and made an
instance. -/
def ComesAs (r : Registry) (types : TypeCache) (Q : String → Value → Value → Prop) (x : Value) :
    Prop :=
  ∀ model w y ids ids' c c', types ≤ c → Sound r c →
    Inhabits types (.model ⟨model, .create⟩) x →
    assignIn r false (some model) x.plain ids = (.ok w, ids') →
    toOutput r (some model) w c = (.ok y, c') → Q model x y

theorem itemsShow {model : String} {xs ws ys : List Value} {ids ids' : IdSource}
    (hle : types ≤ c) (hcome : ∀ x ∈ xs, ComesAs r types Q x)
    (hx : ∀ x ∈ xs, Inhabits types (.model ⟨model, .create⟩) x)
    (hids : assignItems r (some model) (Value.plainItems xs) ids = (.ok ws, ids'))
    (hy : List.Forall₂ (fun w y => ∃ c₁ c₂, c ≤ c₁ ∧ Sound r c₁ ∧
      toOutput r (some model) w c₁ = (.ok y, c₂)) ws ys) : List.Forall₂ (Q model) xs ys := by
  induction xs generalizing ws ys ids with
  | nil =>
    cases hids
    cases hy
    exact .nil
  | cons x xs ih =>
    obtain ⟨w, ids₁, hw, hids⟩ := Step.bind_ok hids
    obtain ⟨rest, ids₂, hrest, hids⟩ := Step.bind_ok hids
    cases hids
    obtain ⟨y, ys, ⟨c₁, c₂, hle₁, hs₁, hout⟩, hys, rfl⟩ := List.forall₂_cons_left_iff.mp hy
    refine .cons ?_ (ih (fun x h => hcome x (List.mem_cons_of_mem _ h))
      (fun x h => hx x (List.mem_cons_of_mem _ h)) hrest hys)
    exact hcome x List.mem_cons_self model w y ids ids₁ c₁ c₂ (TypeCache.le_trans hle hle₁) hs₁
      (hx x List.mem_cons_self) hw hout

/-- A field that embeds documents has a type only if it names their model. -/
theorem Field.embeddedName_of_typed {f : Field} {kind : TypeKind} (hshadow : f.plainType? = none)
    (hembeds : f.embedding.isSome) (htyped : ¬ f.Untyped kind) :
    ∃ model, f.embeddedName = some model := by
  cases hname : f.embeddedName with
  | some model => exact ⟨model, rfl⟩
  | none =>
    refine absurd ⟨not_shadowed_iff.mpr hshadow, fun nested hnested => ?_⟩ htyped
    obtain ⟨model, hmodel, -⟩ := (nests_embedded_iff hshadow hembeds).mp hnested
    rw [hname] at hmodel
    cases hmodel

/-- What was supplied for a field is shown, when the documents that it embeds are. -/
theorem fieldShows {f : Field} {x w y : Value} (hs : Sound r types) (hr : r.Regular)
    (hle : types ≤ c) (hsc : Sound r c) (hf : r.HasField f) (hrelation : f.isRelation = false)
    (htyped : ¬ f.Untyped .create) (hx : Inhabits types (f.typeIn .create) x)
    (hcome : ∀ v, v.weight ≤ x.weight → ComesAs r types Q v) (hcarries : Carries r f x.plain w)
    (h : fieldOutput r f w c = (.ok y, c')) : Shows Q f x y := by
  unfold Carries at hcarries
  by_cases hembeds : f.embedding.isSome
  · rw [if_pos hembeds] at hcarries
    obtain ⟨ids, ids', hids⟩ := hcarries
    have hshadow := Field.not_shadowed_iff.mp (hr.embeds f hf hembeds)
    obtain ⟨model, hmodel⟩ := Field.embeddedName_of_typed hshadow hembeds htyped
    unfold Field.typeIn at hx
    rw [hshadow] at hx
    dsimp only at hx
    rw [if_pos hembeds, hmodel, Option.getD_some] at hx
    rw [hmodel] at hids
    by_cases hmany : f.many
    · rw [if_pos hmany] at hx
      rw [hmany] at hids
      cases hx with
      | @list _ xs hxs =>
        rw [Value.plain, assignIn, if_pos rfl] at hids
        obtain ⟨ws, ids₁, hws, hids⟩ := Step.bind_ok hids
        cases hids
        rw [fieldOutput_eq, if_neg (by simp [Value.isNull]), if_pos hembeds, if_pos hmany,
          hmodel] at h
        obtain ⟨ys, c₁, hys, h⟩ := Step.bind_ok h
        cases h
        refine .many hmany hmodel (itemsShow hle (fun v hv => hcome v ?_) hxs hws
          (Settles.each_ok (fun v _ => (output_settles r).1 (some model) v) hsc hys))
        exact Value.weight_elements rfl hv
    · rw [if_neg hmany] at hx
      rw [Bool.eq_false_iff.mpr hmany] at hids
      obtain ⟨out, rfl⟩ : ∃ out, w = .record out := by
        cases hx with
        | object =>
          rw [Value.plain] at hids
          exact assignIn_isRecord hids
      rw [fieldOutput_eq, if_neg (by simp [Value.isNull]), if_pos hembeds, if_neg hmany,
        hmodel] at h
      exact .one (Bool.eq_false_iff.mpr hmany) hmodel
        (hcome x (Nat.le_refl _) model _ y ids ids' c c' hle hsc hx hids h)
  · rw [if_neg hembeds] at hcarries
    subst hcarries
    have hplain : f.embedding = none := by simpa using hembeds
    rw [fieldOutput_plain hs hr hle hplain hrelation htyped hx h]
    exact .plain hplain

/-- The instance of a document shows what was supplied for the fields that the document carries, and
its id. What stands in a field of the document is all that the instance shows of the field. -/
theorem fieldsShow {model : String} {shape : TypeShape} {entries doc : Fields} {y : Value}
    {declared : List Field} (hs : Sound r types) (hd : r.Distinct) (hr : r.Regular)
    (hle : types ≤ c) (hsc : Sound r c) (hbuilt : types.shape? ⟨model, .create⟩ = some shape)
    (hentries : FieldsInhabit types shape.fields entries)
    (hdeclared : r.fieldsOf model = .ok declared)
    (hcome : ∀ entry ∈ entries, ∀ v, v.weight ≤ entry.2.weight → ComesAs r types Q v)
    (h : toOutput r (some model) (.record doc) c = (.ok y, c')) :
    ∃ fields out, r.outputFields (some model) = .ok fields ∧ y = .object (some model) out ∧
      Table.names out = fields.map Field.name ∧ (∀ f ∈ fields, ¬ f.Untyped .output) ∧
      (∀ f x z, f ∈ fields → Table.find? entries f.name = some x → x.isNull = false →
        x.isUnset = false → Table.find? out f.name = some z →
        (f ∈ declared → f.isRelation = false → f.name ≠ "id" →
          ∃ w, Table.find? doc f.name = some w ∧ Carries r f x.plain w) → Shows Q f x z) ∧
      (∀ f z, f ∈ fields → f.isId = false → Table.find? out f.name = some z →
        ∃ c₁ c₂, fieldOutput r f (Fields.get doc f.name) c₁ = (.ok z, c₂)) ∧
      ∀ f z id, f ∈ fields → f.isId → Table.find? doc "id" = some (.text id) →
        Table.find? out f.name = some z → ∃ c₁ c₂, fieldOutput r f (.text id) c₁ = (.ok z, c₂) := by
  obtain ⟨fields, out, hfields, rfl, hnames, htyped, hout⟩ := toOutput_record hd hsc h
  have hread : ∀ f z, f ∈ fields → f.name ≠ "id" → Table.find? out f.name = some z →
      ∃ c₁ c₂, c ≤ c₁ ∧ Sound r c₁ ∧
        fieldOutput r f (Fields.get doc f.name) c₁ = (.ok z, c₂) := by
    intro f z hf hname hz
    obtain ⟨c₁, c₂, z', hle₁, hs₁, hread, hz'⟩ := hout f hf
    rw [hz'] at hz
    cases hz
    rw [normalizeId_get hname (hr.names f (Registry.hasField_of_outputFields hfields hf))] at hread
    exact ⟨c₁, c₂, hle₁, hs₁, hread⟩
  refine ⟨fields, out, hfields, rfl, hnames, htyped, ?_, ?_, ?_⟩
  · intro f x z hf hx hnull hset hz hcarried
    obtain ⟨hmem, -, hrelation⟩ := Registry.mem_outputFields hdeclared hfields hf
    obtain ⟨hid, htyped, hinhabits⟩ := FieldsInhabit.declared hs hd hbuilt hentries hdeclared
      hmem hx hnull hset
    have hname : f.name ≠ "id" := by simpa [Field.isId] using hid
    obtain ⟨w, hw, hcarries⟩ := hcarried hmem hrelation hname
    obtain ⟨c₁, c₂, hle₁, hs₁, hread⟩ := hread f z hf hname hz
    rw [Fields.get_of_find? hw] at hread
    exact fieldShows hs hr (TypeCache.le_trans hle hle₁) hs₁
      (Registry.hasField_of_outputFields hfields hf) hrelation htyped hinhabits
      (hcome _ (Table.mem_of_find? hx)) hcarries hread
  · intro f z hf hid hz
    obtain ⟨c₁, c₂, -, -, hread⟩ := hread f z hf (by simpa [Field.isId] using hid) hz
    exact ⟨c₁, c₂, hread⟩
  · intro f z id hf hid hdoc hz
    obtain ⟨c₁, c₂, z', -, -, hread, hz'⟩ := hout f hf
    rw [hz'] at hz
    cases hz
    have hname : f.name = "id" := by simpa [Field.isId] using hid
    rw [hname, normalizeId_id hdoc] at hread
    exact ⟨c₁, c₂, hread⟩

/-- What the output of an embedded document shows of an input of fields. -/
structure ItemShows (r : Registry) (Q : String → Value → Value → Prop) (fields : List Field)
    (entries out : Fields) : Prop where
  names : Table.names out = fields.map Field.name
  given : ∀ f x y, f ∈ fields → Table.find? entries f.name = some x → x.isNull = false →
    x.isUnset = false → Table.find? out f.name = some y → Shows Q f x y
  leftOut : ∀ f y, f ∈ fields → f.isId = false →
    (Fields.get (Value.plainFields entries) f.name).isNull → Table.find? out f.name = some y →
    y = .null
  id : ∀ f y, f ∈ fields → f.isId → Table.find? out f.name = some y →
    ∃ s, s ≠ "" ∧ y.plain = .text s

/-- Every embedded document is related to what it becomes, when that follows from what is shown of
its fields. Those that are embedded in it are lighter. -/
theorem comesAs (hs : Sound r types) (hd : r.Distinct) (hr : r.Regular)
    (hQ : ∀ model shape fields entries out, types.shape? ⟨model, .create⟩ = some shape →
      FieldsInhabit types shape.fields entries → r.outputFields (some model) = .ok fields →
      ItemShows r Q fields entries out →
      Q model (.object (some shape.name) entries) (.object (some model) out)) (x : Value) :
    ComesAs r types Q x := by
  induction hn : x.weight using Nat.strongRecOn generalizing x with
  | _ n ih =>
  subst hn
  intro model w y ids ids' c c' hle hsc hx hids h
  cases hx with
  | @object _ shape entries hbuilt hentries =>
    have hlighter : ∀ entry ∈ entries, ∀ v, v.weight ≤ entry.2.weight → ComesAs r types Q v := by
      intro entry hentry v hv
      refine ih v.weight ?_ v rfl
      have := Value.weight_le_weightFields hentry
      rw [Value.weight]
      omega
    obtain ⟨declared, hdeclared⟩ := hs.fieldsOf hbuilt
    rw [Value.plain] at hids
    obtain ⟨declared', out, id, hembedded, rfl, hne, hid, hcarries, hleft⟩ :=
      assignIn_record (hentries.no_id hs hbuilt hdeclared) hids
    have hsame : r.fieldsOf model = .ok declared' := hembedded
    rw [hdeclared] at hsame
    cases hsame
    obtain ⟨fields, shown, hfields, rfl, hnames, -, hshows, hread, hshown⟩ :=
      fieldsShow hs hd hr hle hsc hbuilt hentries hdeclared hlighter h
    refine hQ model shape fields entries shown hbuilt hentries hfields ⟨hnames, ?_, ?_, ?_⟩
    · intro f x z hf hx hnull hset hz
      exact hshows f x z hf hx hnull hset hz fun hmem _ hname =>
        hcarries (hd.fieldsOf hdeclared) f hmem hname _ (Value.find?_plainFields hx hset)
    · intro f z hf hnotId hnull hz
      obtain ⟨c₁, c₂, hread⟩ := hread f z hf hnotId hz
      obtain ⟨hmem, -, -⟩ := Registry.mem_outputFields hdeclared hfields hf
      have hname : f.name ≠ "id" := by simpa [Field.isId] using hnotId
      rw [hleft (hd.fieldsOf hdeclared) f hmem hname hnull, fieldOutput_eq] at hread
      cases hread
      rfl
    · intro f z hf hisId hz
      obtain ⟨c₁, c₂, hread⟩ := hshown f z id hf hisId hid hz
      exact ⟨id, hne, fieldOutput_id hne hread⟩

/-- An embedded document comes back once it was given ids and made an instance. -/
def ComesBack (r : Registry) (types : TypeCache) (x : Value) : Prop :=
  ComesAs r types (ItemBack r) x

/-- Every embedded document comes back. -/
theorem comesBack (hs : Sound r types) (hd : r.Distinct) (hr : r.Regular) (x : Value) :
    ComesBack r types x :=
  comesAs hs hd hr (fun _ _ _ _ _ _ _ hfields h => .instance hfields h.names
    (fun f x y hf hx hnull hset hy => (h.given f x y hf hx hnull hset hy).givesBack) h.id) x

/-- The instance of a document gives back what was supplied for the fields that the document
carries, and shows its id. -/
theorem fieldsBack {model : String} {shape : TypeShape} {entries doc : Fields} {y : Value}
    {declared : List Field} (hs : Sound r types) (hd : r.Distinct) (hr : r.Regular)
    (hle : types ≤ c) (hsc : Sound r c) (hbuilt : types.shape? ⟨model, .create⟩ = some shape)
    (hentries : FieldsInhabit types shape.fields entries)
    (hdeclared : r.fieldsOf model = .ok declared)
    (hcome : ∀ entry ∈ entries, ∀ v, v.weight ≤ entry.2.weight → ComesBack r types v)
    (h : toOutput r (some model) (.record doc) c = (.ok y, c')) :
    ∃ fields out, r.outputFields (some model) = .ok fields ∧ y = .object (some model) out ∧
      Table.names out = fields.map Field.name ∧
      (∀ f x z, f ∈ fields → Table.find? entries f.name = some x → x.isNull = false →
        x.isUnset = false → Table.find? out f.name = some z →
        (f ∈ declared → f.isRelation = false → f.name ≠ "id" →
          ∃ w, Table.find? doc f.name = some w ∧ Carries r f x.plain w) → GivesBack r f x z) ∧
      ∀ f z id, f ∈ fields → f.isId → Table.find? doc "id" = some (.text id) →
        Table.find? out f.name = some z → ∃ c₁ c₂, fieldOutput r f (.text id) c₁ = (.ok z, c₂) := by
  obtain ⟨fields, out, hfields, rfl, hnames, -, hshows, -, hid⟩ :=
    fieldsShow hs hd hr hle hsc hbuilt hentries hdeclared hcome h
  exact ⟨fields, out, hfields, rfl, hnames, fun f x z hf hx hnull hset hz hcarried =>
    (hshows f x z hf hx hnull hset hz hcarried).givesBack, hid⟩

end DocumentApi
