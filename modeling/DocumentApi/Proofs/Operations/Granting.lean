import DocumentApi.Proofs.Grants
import DocumentApi.Proofs.Operations.Closure
import DocumentApi.Proofs.Store.Ledger
import DocumentApi.Proofs.Types.Growth

/-!
# Instances and stored documents without refusals

Types are built, documents become instances, ids are given and sub-objects are stored by steps that
refuse nothing: what they may fail for is a fault of the schema or of a value that does not fit it.

* `typeWhile_grants`, `toOutput_grants`: types and instances.
* `assignIds_grants`, `prepareDocument_grants`: documents before they are stored.
* `createInline_grants`: sub-objects with all that they hold.
-/

namespace DocumentApi

/-! ## Instances -/

section Instances

variable (r : Registry)

theorem Field.declareType_grants (f : Field) : f.declareType.Grants := by
  unfold declareType
  split
  · exact fun _ => .ok ()
  · exact .pure ()

theorem fieldTypeWhile_grants {begun : List TypeKey} {key : TypeKey} {f : Field}
    (h : ∀ nested, f.Nests key.kind nested → (typeWhile r begun nested).Grants) :
    (fieldTypeWhile r begun key f).Grants := by
  refine .bind f.declareType_grants fun _ _ => ?_
  cases shadow : f.plainType? with
  | some type => exact .pure type
  | none =>
    dsimp only
    by_cases hembeds : f.embedding.isSome
    · rw [if_pos hembeds]
      split
      · rename_i model hname
        split
        · exact .fail rfl
        · rename_i hknown
          have hgiven : model ≠ "" := fun hempty => hknown (by rw [hempty]; rfl)
          refine .bind (h ⟨model, key.kind⟩ ?_) fun _ _ => .pure _
          exact .embedded (Field.not_shadowed_iff.mpr shadow) hname hgiven
      · exact .fail rfl
    · rw [if_neg hembeds]
      split
      · rename_i relation hrelates
        split
        · rename_i hinline
          obtain ⟨hrelation, hcreate⟩ : f.isRelation = true ∧ key.kind = .create := by
            simpa using hinline
          split
          · refine .bind (h ⟨relation.target, .create⟩ ?_) fun _ _ => .pure _
            rw [hcreate]
            exact .related (Field.not_shadowed_iff.mpr shadow) (by simpa using hembeds) hrelates
              hrelation
          · exact .fail rfl
        · exact .fail rfl
      · exact .fail rfl

theorem fieldsWhile_grants {begun : List TypeKey} {key : TypeKey} {fields : List Field}
    (h : ∀ f ∈ fields, ∀ nested, f.Nests key.kind nested → (typeWhile r begun nested).Grants) :
    (fieldsWhile r begun key fields).Grants := by
  induction fields with
  | nil =>
    rw [fieldsWhile]
    exact .pure []
  | cons f rest ih =>
    rw [fieldsWhile_cons_eq]
    refine .bind (fieldTypeWhile_grants r (h f List.mem_cons_self)) fun type _ => ?_
    refine .bind (ih fun g hg => h g (List.mem_cons_of_mem _ hg)) fun types _ => ?_
    exact .pure _

theorem filterShape_grants (model : String) : (filterShape r model).Grants := by
  refine .bind (.ofExcept (r.scalarFields_unrefused model)) fun fields _ => ?_
  refine .bind (.each fun f _ => ?_) fun _ _ => .pure _
  refine .bind f.declareType_grants fun _ _ => ?_
  split
  · exact .fail rfl
  · split
    · exact .fail rfl
    · exact .pure _

theorem shapeWhile_grants {begun : List TypeKey} {key : TypeKey} (d : Definition)
    (h : ∀ nested, r.Nests key nested → (typeWhile r (begun ++ [key]) nested).Grants) :
    (shapeWhile r begun key d).Grants := by
  obtain ⟨model, kind⟩ := key
  have hfields : ∀ kind' : TypeKind, kind'.OfFields → kind' = kind →
      Step.Grants (do
        let fields ← Step.ofExcept (r.fieldsFor model kind')
        let types ← fieldsWhile r (begun ++ [⟨model, kind'⟩]) ⟨model, kind'⟩ fields
        pure (⟨kind'.typeName model, kind' != .output, some (Registry.describe d kind'), types⟩ :
          TypeShape)) := by
    rintro kind' hof rfl
    refine .bind (.ofExcept (r.fieldsFor_unrefused model _)) fun fields hlisted => ?_
    refine .bind (fieldsWhile_grants r fun f hf nested hnests => ?_) fun types _ => .pure _
    exact h nested (.field hof hlisted.ofExcept hf hnests)
  cases kind with
  | pagination => exact .bind (h _ .page) fun _ _ => .pure _
  | filter => exact filterShape_grants r model
  | sort => exact .bind (.ofExcept (r.scalarFields_unrefused model)) fun _ _ => .pure _
  | output => exact hfields .output (Or.inl rfl) rfl
  | create => exact hfields .create (Or.inr (Or.inl rfl)) rfl
  | update => exact hfields .update (Or.inr (Or.inr rfl)) rfl

/-- A type that cannot be built is a fault of the schema. -/
theorem typeWhile_grants (begun : List TypeKey) (key : TypeKey) :
    (typeWhile r begun key).Grants := by
  induction begun, key using typeWhile_induction r with | step begun key hnested
  intro c
  rw [typeWhile_eq]
  split
  · exact .ok _
  by_cases new : key ∈ begun
  · rw [if_pos new]
    exact .error rfl
  rw [if_neg new]
  cases registered : r.model? key.model with
  | none => exact .error rfl
  | some d =>
    refine Step.Grants.bind (shapeWhile_grants r d (hnested d new registered)) (fun shape _ => ?_) c
    exact .bind (.modify _) fun _ _ => .pure shape

theorem typeOf_grants (key : TypeKey) : (typeOf r key).Grants := typeWhile_grants r [] key

theorem TypeShape.instantiate_unrefused (shape : TypeShape) (values : Fields) :
    Unrefused (shape.instantiate values) := by
  unfold instantiate
  split
  · refine Unrefused.bind (.mapM (fun f => ?_) _) fun fields _ => .ok _
    refine Unrefused.bind ?_ fun v _ => .ok _
    unfold TypeField.valueIn
    split
    · exact .ok _
    · exact .ok _
    · exact .ok _
    · exact .error rfl
  · exact .error rfl

theorem enumOutput_grants (spec : EnumSpec) (raw : Value) : (enumOutput spec raw).Grants := by
  refine .bind (fun _ => .ok _) fun members _ => ?_
  dsimp only
  split
  · split
    · exact .pure _
    · split <;> exact .pure _
  · split <;> exact .pure _

/-- A document that cannot be made an instance does not fit its model. -/
theorem toOutput_grants (model : Option String) (doc : Value) : (toOutput r model doc).Grants := by
  refine (toOutput.mutual_induct (fun model doc => (toOutput r model doc).Grants)
    (fun f raw => (fieldOutput r f raw).Grants) ?_ ?_ ?_ ?_ ?_ ?_ ?_ ?_ ?_).1 model doc
  · intro model doc hnull
    rw [toOutput_eq, if_pos hnull]
    exact .pure _
  · intro model doc hnull e he
    rw [toOutput_eq, if_neg hnull, he]
    exact .fail (doc.toFields_unrefused e he)
  · intro model doc hnull data hdata ih
    rw [toOutput_eq, if_neg hnull, hdata]
    refine .bind (.ofExcept (.ok data)) fun data' hsame => ?_
    cases hsame.ofExcept
    refine .bind (.ofExcept (r.outputFields_unrefused model)) fun fields _ => ?_
    refine .bind (.each fun f _ => .bind (ih f) fun v _ => .pure _) fun values _ => ?_
    refine .bind (typeOf_grants r _) fun shape _ => ?_
    exact .ofExcept (shape.instantiate_unrefused values)
  · intro f raw hnull
    rw [fieldOutput_eq, if_pos hnull]
    exact .pure _
  · intro f raw hnull hembeds hmany hnone
    rw [fieldOutput_eq, if_neg hnull, if_pos hembeds, if_pos hmany, hnone]
    exact .fail rfl
  · intro f raw hnull hembeds hmany items hitems ih
    rw [fieldOutput_eq, if_neg hnull, if_pos hembeds, if_pos hmany, hitems]
    exact .bind (.each fun item h => ih ⟨item, h⟩) fun items _ => .pure _
  · intro f raw hnull hembeds hmany ih
    rw [fieldOutput_eq, if_neg hnull, if_pos hembeds, if_neg hmany]
    exact ih
  · intro f raw hnull hembeds spec htype hspec
    rw [fieldOutput_eq, if_neg hnull, if_neg hembeds, hspec, htype]
    exact enumOutput_grants spec raw
  · intro f raw hnull hembeds hspec
    rw [fieldOutput_eq, if_neg hnull, if_neg hembeds]
    split
    · rename_i spec hsome hnone
      exact absurd hnone (hspec spec hsome)
    · exact .pure raw

end Instances

/-! ## Documents that are stored -/

section Storing

variable (r : Registry)

theorem IdSource.draw_grants : Step.Grants IdSource.draw := by
  intro ids
  unfold IdSource.draw
  dsimp only
  split
  · exact .ok _
  · exact .error rfl

theorem replaceFields_grants {step : Field → Step IdSource (Option Value)} {declared : List Field}
    (hstep : ∀ f ∈ declared, (step f).Grants) (start : Fields) :
    (replaceFields step start declared).Grants := by
  induction declared generalizing start with
  | nil => exact .pure start
  | cons f declared ih =>
    have hrest := ih fun g hg => hstep g (List.mem_cons_of_mem _ hg)
    refine .bind (hstep f List.mem_cons_self) fun v? _ => ?_
    cases v? with
    | some v => exact hrest _
    | none => exact hrest _

theorem assignEntry_grants {fields : Fields}
    (h : ∀ entry ∈ fields, ∀ many model, (assignIn r many model entry.2).Grants) (f : Field) :
    (assignEntry r fields f).Grants := by
  rw [assignEntry_eq]
  cases hv : Table.find? fields f.name with
  | none => exact .pure none
  | some v =>
    refine .bind (h _ (Table.mem_of_find? hv) f.many f.embeddedName) fun w _ => ?_
    exact .pure (some w)

theorem assignIn_grants (many : Bool) (model : Option String) (v : Value) :
    (assignIn r many model v).Grants := by
  induction hn : v.weight using Nat.strongRecOn generalizing many model v with
  | ind n ih =>
    subst hn
    cases v with
    | record fields =>
      unfold assignIn
      split
      · exact .pure _
      have hentries : ∀ entry ∈ fields, ∀ many model, (assignIn r many model entry.2).Grants := by
        intro entry hentry many model
        have := Value.weight_le_weightFields hentry
        exact ih entry.2.weight (by simp [Value.weight]; omega) many model entry.2 rfl
      have hembedded : ∀ (q : Field → Bool) (start : Fields), Step.Grants (do
          let declared ← Step.ofExcept (r.fieldsOfEmbedded model)
          let out ← replaceFields
            (fun f => if q f then assignEntry r fields f else Pure.pure none) start declared
          Pure.pure (Value.record out)) := by
        intro q start
        refine .bind (.ofExcept (r.fieldsOfEmbedded_unrefused model)) fun declared _ => ?_
        refine .bind (replaceFields_grants (fun f _ => ?_) start) fun out _ => .pure _
        split
        · exact assignEntry_grants r hentries f
        · exact .pure none
      dsimp only
      split
      · exact .bind (.pure fields) fun start _ => hembedded _ start
      · refine .bind (.bind IdSource.draw_grants fun id _ => .pure _) fun start _ => ?_
        exact hembedded _ start
    | list items =>
      unfold assignIn
      split
      · have hitems : ∀ rest, rest ⊆ items → (assignItems r model rest).Grants := by
          intro rest
          induction rest with
          | nil => exact fun _ => .pure []
          | cons item rest ihrest =>
            intro hsub
            have := Value.weight_le_weightItems (hsub List.mem_cons_self)
            refine .bind (ih item.weight (by simp [Value.weight]; omega) false model item rfl)
              fun w _ => ?_
            refine .bind (ihrest fun w hw => hsub (List.mem_cons_of_mem _ hw)) fun ws _ => ?_
            exact .pure _
        exact .bind (hitems items (List.Subset.refl items)) fun ws _ => .pure _
      · exact .pure _
    | null => exact .pure _
    | text s => exact .pure _
    | bool | int | float | unset | member | object | token | wildcard =>
      unfold assignIn
      split
      · exact .fail rfl
      · exact .pure _

theorem assignIds_grants (model : Option String) (doc : Fields) :
    (assignIds r model doc).Grants := by
  refine .bind (.ofExcept (r.fieldsOfEmbedded_unrefused model)) fun declared _ => ?_
  refine replaceFields_grants (fun f _ => ?_) doc
  split
  · exact assignEntry_grants r (fun entry _ many model => assignIn_grants r many model entry.2) f
  · exact .pure none

theorem splitInline_unrefused (doc : Fields) (fields : List Field) :
    Unrefused (splitInline doc fields) := by
  induction fields generalizing doc with
  | nil => exact .ok _
  | cons f fields ih =>
    unfold splitInline
    dsimp only
    split
    · refine (Value.iterateGiven_unrefused _).bind fun items _ => ?_
      exact (ih _).bind fun split _ => .ok _
    · split
      · exact ih _
      · exact ih _

theorem splitDocument_unrefused (model : String) (doc : Value) :
    Unrefused (splitDocument r model doc) := by
  refine (r.fieldsOf_unrefused model).bind fun declared _ => ?_
  split
  · exact splitInline_unrefused _ _
  · exact .error rfl

theorem prepareDocument_grants (model : String) (input : Value) :
    (prepareDocument r model input).Grants := by
  refine .bind (.ofExcept (splitDocument_unrefused r model _)) fun split _ => ?_
  obtain ⟨doc, inline⟩ := split
  exact .bind (assignIds_grants r (some model) doc) fun doc _ => .pure _

theorem State.insert_grants (collection : String) (data : Fields) :
    (State.insert collection data).Grants := by
  have hstore : ∀ id : String,
      (State.onStore (Store.insert collection id (Table.remove data "id"))).Grants := by
    refine fun id => .zoom fun s => ?_
    rw [Store.insert_eq]
    split
    · exact .error rfl
    · exact .ok _
  unfold State.insert
  dsimp only
  split
  · exact hstore _
  · exact .bind (.zoom IdSource.draw_grants) fun id _ => hstore id

theorem linkIds_grants (owner : Definition) (ownerId linkField : String) (ids : List String) :
    (linkIds owner ownerId linkField ids).Grants := by
  refine .bind (.zoom fun s => ?_) fun _ _ => .pure ()
  rw [Store.addToSet_eq]
  cases s.find? owner.storedIn ownerId with
  | none => exact .ok none
  | some e =>
    dsimp only
    cases hitems : (Fields.get e.fields linkField).iterateGiven with
    | error fault => exact .error (Value.iterateGiven_unrefused _ fault hitems)
    | ok items => exact .ok _

theorem linkInline_grants {owner : Definition} {ownerId : String} {part : Field × List Value}
    (h : ∀ target, ∀ item ∈ part.2, (createInline r target item).Grants) :
    (linkInline r owner ownerId part).Grants := by
  refine .bind (.ofExcept (relationTarget_unrefused r part.1)) fun target _ => ?_
  exact .bind (.each (h target)) fun ids _ => linkIds_grants owner ownerId _ ids

/-- A sub-object that cannot be stored does not fit its model, or an id is taken. -/
theorem createInline_grants (target : Definition) (item : Value) :
    (createInline r target item).Grants := by
  have hparts : ∀ (target : Definition) (data : Fields),
      (∀ doc inline, splitDocument r target.name (.record data) = .ok (doc, inline) →
        ∀ part ∈ inline, ∀ next, ∀ item ∈ part.2, (createInline r next item).Grants) →
      (storeWithParts r target data).Grants := by
    intro target data hitems
    refine .bind (.ofExcept (splitDocument_unrefused r _ _)) fun split hsplit => ?_
    obtain ⟨doc, inline⟩ := split
    refine .bind (.zoom (assignIds_grants r _ doc)) fun doc' _ => ?_
    refine .bind (State.insert_grants _ doc') fun stored _ => ?_
    refine .bind (.each fun part hpart => ?_) fun _ _ => .pure _
    exact linkInline_grants r (hitems doc inline hsplit.ofExcept part hpart)
  induction target, item using createInline.induct r with
  | case1 target item e he =>
    rw [createInline_eq]
    exact .bind (.ofExcept item.asFields_unrefused) fun data hdata => by
      rw [he] at hdata
      cases hdata.ofExcept
  | case2 target item data hdata e he =>
    rw [createInline_eq, hdata]
    refine hparts target data fun doc inline hsplit => ?_
    rw [he] at hsplit
    cases hsplit
  | case3 target item data hdata doc inline hsplit ih =>
    rw [createInline_eq, hdata]
    refine hparts target data fun doc' inline' hsplit' part hpart next v hv => ?_
    rw [hsplit] at hsplit'
    cases hsplit'
    exact ih ⟨part, hpart⟩ next ⟨v, hv⟩

end Storing

end DocumentApi
