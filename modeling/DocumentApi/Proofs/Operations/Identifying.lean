import DocumentApi.Proofs.Operations.SubDocuments

/-!
# Ids of sub-documents

Each sub-document that lacks an id is given one, and then the documents within it are.

* `assignIn_document`: the assignment of ids to a document as two steps.
* `embedded_induction`: values by what is embedded in them.
* `Assigned`: what has become of a value.
* `assignIds_same`: documents whose sub-documents have ids stay as they are.
* `assignIds_subDocuments`: when ids can be assigned, and what has become of a document then.
-/

namespace DocumentApi

/-! ## How ids are assigned -/

section Assigning

variable {r : Registry} {model : Option String} {declared : List Field} {many : Bool}
  {doc start fields out : Fields} {ids ids' : IdSource} {v w : Value}

theorem replaceFields_filter (p : Field → Bool) (step : Field → Step IdSource (Option Value))
    (start : Fields) (declared : List Field) :
    replaceFields (fun f => if p f then step f else pure none) start declared =
      replaceFields step start (declared.filter p) := by
  induction declared generalizing start with
  | nil => rfl
  | cons f declared ih =>
    by_cases hp : p f
    · rw [List.filter_cons_of_pos hp]
      unfold replaceFields
      rw [if_pos hp]
      refine bind_congr fun v? => ?_
      cases v? with
      | none => exact ih start
      | some v => exact ih (Table.set start f.name v)
    · rw [List.filter_cons_of_neg hp, ← ih start]
      conv_lhs => unfold replaceFields
      rw [if_neg hp]
      rfl

theorem assignIds_eq (hdeclared : r.fieldsOfEmbedded model = .ok declared) (doc : Fields) :
    assignIds r model doc = replaceFields (assignEntry r doc) doc (r.embeddedFields model true) := by
  unfold assignIds
  rw [hdeclared, embeddedFields_eq hdeclared]
  refine (replaceFields_filter isEmbedding (assignEntry r doc) doc declared).trans ?_
  simp

/-- A text that stands in a field stays there, whether or not the field is looked into. -/
theorem replaceFields_text {step step' : Field → Step IdSource (Option Value)} {key : String}
    (hstart : Table.find? start key = some v) (hothers : ∀ f, f.name ≠ key → step f = step' f)
    (hstep : ∀ f, f.name = key → step f = pure none)
    (hstep' : ∀ f, f.name = key → step' f = pure none ∨ step' f = pure (some v)) :
    replaceFields step start declared = replaceFields step' start declared := by
  induction declared generalizing start with
  | nil => rfl
  | cons f declared ih =>
    unfold replaceFields
    by_cases hname : f.name = key
    · rw [hstep f hname]
      rcases hstep' f hname with hsame | hsame
      · rw [hsame]
        exact ih hstart
      · rw [hsame, hname]
        show _ = replaceFields step' (Table.set start key v) declared
        rw [Table.set_of_find? hstart]
        exact ih hstart
    · rw [hothers f hname]
      refine bind_congr fun u? => ?_
      cases u? with
      | none => exact ih hstart
      | some u =>
        refine ih ?_
        rw [Table.find?_set_ne hname, hstart]

/-- A document with an id that is drawn when it has none. -/
def identify (fields : Fields) : Step IdSource Fields :=
  if (Fields.get fields "id").truthy then pure fields
  else (fun id => Table.set fields "id" (.text id)) <$> (IdSource.draw : Step IdSource String)

/-- A sub-document is given an id when it has none, and then the documents within it are. -/
theorem assignIn_document (r : Registry) (model : Option String) (fields : Fields) :
    assignIn r false model (.record fields) =
      identify fields >>= fun start => Value.record <$> assignIds r model start := by
  unfold assignIn identify
  rw [if_neg Bool.false_ne_true]
  by_cases hid : (Fields.get fields "id").truthy
  · simp only [hid, if_true, pure_bind, Bool.true_or, Bool.and_true, assignIds, map_bind,
      bind_pure_comp]
  · simp only [Bool.eq_false_iff.mpr hid, Bool.false_eq_true, if_false, assignIds, map_bind,
      bind_pure_comp, Bool.false_or]
    refine (bind_map_left _ _ _).trans (Eq.trans ?_ (bind_map_left _ _ _).symm)
    refine bind_congr fun id => bind_congr fun declared => congrArg _ ?_
    refine replaceFields_text (Table.find?_set_self fields "id" (.text id)) ?_ ?_ ?_
    · intro f hname
      simp [hname, assignEntry_eq, Table.find?_set_ne (Ne.symm hname)]
    · intro f hname
      simp [hname]
    · intro f hname
      by_cases hembeds : isEmbedding f
      · right
        rw [if_pos hembeds, assignEntry_eq, hname, Table.find?_set_self]
        rfl
      · left
        rw [if_neg hembeds]

/-- What has happened when a sub-document was given ids. -/
theorem assignIn_document_ok (h : assignIn r false model (.record fields) ids = (.ok w, ids')) :
    ∃ id start mid out, start = withId fields id ∧
      (((Fields.get fields "id").truthy ∧ mid = ids) ∨
        ((Fields.get fields "id").truthy = false ∧ ids.draw = (.ok id, mid))) ∧
      assignIds r model start mid = (.ok out, ids') ∧ w = .record out := by
  rw [assignIn_document] at h
  obtain ⟨start, mid, hstart, h⟩ := Step.bind_ok h
  obtain ⟨out, last, hids, h⟩ := Step.bind_ok h
  cases h
  unfold identify at hstart
  by_cases hid : (Fields.get fields "id").truthy
  · rw [if_pos hid] at hstart
    cases hstart
    exact ⟨"", _, _, out, (withId_of_truthy hid "").symm, Or.inl ⟨hid, rfl⟩, hids, rfl⟩
  · rw [if_neg hid] at hstart
    obtain ⟨id, mid', hdraw, hset⟩ := Step.bind_ok hstart
    cases hset
    exact ⟨id, _, mid, out, (withId_of_not_truthy hid id).symm,
      Or.inr ⟨Bool.eq_false_iff.mpr hid, hdraw⟩, hids, rfl⟩

/-- Values are documents with what they embed, arrays of items, or have nothing embedded in them. -/
theorem embedded_induction (r : Registry) {motive : Bool → Option String → Value → Prop}
    (document : ∀ model fields, (∀ id (f : Field) v, Table.find? (withId fields id) f.name = some v →
      motive f.many f.embeddedName v) → motive false model (.record fields))
    (items : ∀ model vs, (∀ v ∈ vs, motive false model v) → motive true model (.list vs))
    (other : ∀ many model v, subDocumentsIn r many model v = [] →
      assignIn r many model v =
        (if many = true ∧ ¬ v.MayHoldItems then Step.fail .wrongKind else pure v) →
      motive many model v)
    (many : Bool) (model : Option String) (v : Value) : motive many model v := by
  induction hn : v.weight using Nat.strongRecOn generalizing many model v with
  | ind n ih =>
    subst hn
    cases v with
    | record fields =>
      cases many with
      | true => exact other _ _ _ rfl (by simp [assignIn, Value.MayHoldItems, Value.elements])
      | false =>
        refine document model fields fun id f v hv => ?_
        have hlight : Table.find? fields f.name = some v → motive f.many f.embeddedName v := by
          intro hv
          have : v.weight + 1 ≤ Value.weightFields fields :=
            Value.weight_le_weightFields (Table.mem_of_find? hv)
          exact ih v.weight (by simp [Value.weight]; omega) _ _ v rfl
        unfold withId at hv
        split at hv
        · exact hlight hv
        · rw [Table.find?_set] at hv
          split at hv
          · cases hv
            exact other _ _ _ rfl (by simp [assignIn, Value.MayHoldItems, Value.elements])
          · exact hlight hv
    | list vs =>
      cases many with
      | false => exact other _ _ _ rfl (by simp [assignIn])
      | true =>
        refine items model vs fun v hv => ?_
        have := Value.weight_le_weightItems hv
        exact ih v.weight (by simp [Value.weight]; omega) _ _ v rfl
    | _ =>
      refine other _ _ _ rfl ?_
      cases many <;> simp [assignIn, Value.MayHoldItems, Value.elements, Value.isNull]

/-- What has become of a value: its sub-documents have ids and the next time are left alone, and it
had sequences where they are looked for. -/
structure Assigned (r : Registry) (many : Bool) (model : Option String) (v w : Value)
    (ids ids' : IdSource) : Prop where
  drawn : ∃ drawn, ids.Draws drawn ids' ∧
    Identified (subDocumentsIn r many model v) (subDocumentsIn r many model w) drawn
  settled : ∀ i, assignIn r many model w i = (.ok w, i)
  holdsItems : many → v.MayHoldItems
  iterates : ∀ d ∈ subDocumentsIn r many model v, r.Iterates d.model d.hasId d.fields

/-- The same of some fields of a document. -/
structure FieldsAssigned (r : Registry) (declared : List Field) (doc out : Fields)
    (ids ids' : IdSource) : Prop where
  drawn : ∃ drawn, ids.Draws drawn ids' ∧
    Identified (declared.flatMap (subDocumentsAt r doc)) (declared.flatMap (subDocumentsAt r out))
      drawn
  settled : ∀ f ∈ declared, ∀ i, assignEntry r out f i = (.ok (Table.find? out f.name), i)
  holdsItems : ∀ f ∈ declared, f.many → (Fields.get doc f.name).MayHoldItems
  iterates : ∀ d ∈ declared.flatMap (subDocumentsAt r doc), r.Iterates d.model d.hasId d.fields

theorem FieldsAssigned.cons {f : Field} {mid : IdSource} (h : FieldsAssigned r [f] doc out ids mid)
    (h' : FieldsAssigned r declared doc out mid ids') :
    FieldsAssigned r (f :: declared) doc out ids ids' := by
  obtain ⟨first, hfirst, hid⟩ := h.drawn
  obtain ⟨others, hothers, hids⟩ := h'.drawn
  rw [List.flatMap_singleton, List.flatMap_singleton] at hid
  have hiterates := h.iterates
  rw [List.flatMap_singleton] at hiterates
  refine ⟨⟨first ++ others, hfirst.append hothers, ?_⟩, ?_, ?_, ?_⟩
  · rw [List.flatMap_cons, List.flatMap_cons]
    exact hid.append hids
  · exact List.forall_mem_cons.mpr ⟨h.settled f List.mem_cons_self, h'.settled⟩
  · exact List.forall_mem_cons.mpr ⟨h.holdsItems f List.mem_cons_self, h'.holdsItems⟩
  · rw [List.flatMap_cons]
    exact List.forall_mem_append.mpr ⟨hiterates, h'.iterates⟩

/-- The value of one field. -/
theorem assignEntry_assigned {f : Field} {v? : Option Value}
    (ih : ∀ v w i i', Table.find? doc f.name = some v →
      assignIn r f.many f.embeddedName v i = (.ok w, i') →
        Assigned r f.many f.embeddedName v w i i')
    (h : assignEntry r doc f ids = (.ok v?, ids')) (hout : Table.find? out f.name = v?) :
    FieldsAssigned r [f] doc out ids ids' := by
  rw [assignEntry_eq] at h
  cases hfound : Table.find? doc f.name with
  | none =>
    rw [hfound] at h
    cases h
    have hdoc : [f].flatMap (subDocumentsAt r doc) = [] := by simp [subDocumentsAt_eq, hfound]
    have hnone : [f].flatMap (subDocumentsAt r out) = [] := by simp [subDocumentsAt_eq, hout]
    refine ⟨⟨[], .nil ids, ?_⟩, ?_, ?_, ?_⟩
    · rw [hdoc, hnone]
      exact .nil
    · intro g hg i
      rw [List.mem_singleton.mp hg, assignEntry_eq, hout]
      rfl
    · intro g hg _
      rw [List.mem_singleton.mp hg]
      unfold Fields.get
      rw [hfound]
      exact Or.inl rfl
    · rw [hdoc]
      exact fun _ h => absurd h List.not_mem_nil
  | some v =>
    rw [hfound] at h
    obtain ⟨w, mid, hw, hsome⟩ := Step.bind_ok h
    cases hsome
    have hassigned := ih v w ids ids' hfound hw
    have hdoc : [f].flatMap (subDocumentsAt r doc) = subDocumentsIn r f.many f.embeddedName v := by
      simp [subDocumentsAt_eq, hfound]
    have hafter : [f].flatMap (subDocumentsAt r out) = subDocumentsIn r f.many f.embeddedName w := by
      simp [subDocumentsAt_eq, hout]
    refine ⟨?_, ?_, ?_, ?_⟩
    · rw [hdoc, hafter]
      exact hassigned.drawn
    · intro g hg i
      rw [List.mem_singleton.mp hg, assignEntry_eq, hout]
      exact Step.bind_of_ok (hassigned.settled i)
    · intro g hg hmany
      rw [List.mem_singleton.mp hg, Fields.get_of_find? hfound]
      exact hassigned.holdsItems (List.mem_singleton.mp hg ▸ hmany)
    · rw [hdoc]
      exact hassigned.iterates

theorem find?_of_assignEntry {f : Field} (h : assignEntry r doc f ids = (.ok none, ids')) :
    Table.find? doc f.name = none := by
  rw [assignEntry_eq] at h
  cases hfound : Table.find? doc f.name with
  | none => rfl
  | some v =>
    rw [hfound] at h
    obtain ⟨w, mid, -, hsome⟩ := Step.bind_ok h
    cases hsome

theorem replaceFields_assigned (hnames : (declared.map Field.name).Nodup)
    (hstart : ∀ f ∈ declared, Table.find? start f.name = Table.find? doc f.name)
    (ih : ∀ (f : Field) v w i i', Table.find? doc f.name = some v →
      assignIn r f.many f.embeddedName v i = (.ok w, i') →
        Assigned r f.many f.embeddedName v w i i')
    (h : replaceFields (assignEntry r doc) start declared ids = (.ok out, ids')) :
    FieldsAssigned r declared doc out ids ids' := by
  induction declared generalizing start ids with
  | nil =>
    cases h
    exact ⟨⟨[], .nil ids', .nil⟩, by simp, by simp, by simp⟩
  | cons f declared ihfields =>
    obtain ⟨hnew, hnames⟩ := List.nodup_cons.mp hnames
    obtain ⟨hf, hstart⟩ := List.forall_mem_cons.mp hstart
    unfold replaceFields at h
    obtain ⟨v?, mid, hv, h⟩ := Step.bind_ok h
    have hne : ∀ g ∈ declared, g.name ≠ f.name := fun g hg hname =>
      hnew (hname ▸ List.mem_map_of_mem hg)
    have hothers : ∀ g ∈ declared, g.name = f.name → assignEntry r doc g = pure none :=
      fun g hg hname => absurd hname (hne g hg)
    cases v? with
    | none =>
      have hout : Table.find? out f.name = none := by
        rw [replaceFields_find? hothers h, hf, find?_of_assignEntry hv]
      exact (assignEntry_assigned (ih f) hv hout).cons (ihfields hnames hstart h)
    | some v =>
      have hout : Table.find? out f.name = some v := by
        rw [replaceFields_find? hothers h, Table.find?_set_self]
      refine (assignEntry_assigned (ih f) hv hout).cons (ihfields hnames (fun g hg => ?_) h)
      rw [Table.find?_set_ne (Ne.symm (hne g hg)), hstart g hg]

theorem embeddedFields_nodup (hr : r.Distinct) (hdeclared : r.fieldsOfEmbedded model = .ok declared)
    (hasId : Bool) : ((r.embeddedFields model hasId).map Field.name).Nodup := by
  rw [embeddedFields_eq hdeclared]
  exact (hr.fieldsOfEmbedded hdeclared).sublist (List.filter_sublist.map _)

/-- A document in which each embedded field is settled. -/
theorem assignIds_settled (hdeclared : r.fieldsOfEmbedded model = .ok declared)
    (h : ∀ f ∈ r.embeddedFields model true, ∀ i,
      assignEntry r out f i = (.ok (Table.find? out f.name), i)) :
    assignIds r model out ids = (.ok out, ids) := by
  rw [assignIds_eq hdeclared]
  generalize r.embeddedFields model true = fields at h ⊢
  induction fields with
  | nil => rfl
  | cons f fields ih =>
    obtain ⟨hf, hfields⟩ := List.forall_mem_cons.mp h
    unfold replaceFields
    rw [Step.bind_of_ok (hf ids)]
    cases hfound : Table.find? out f.name with
    | none => exact ih hfields
    | some v =>
      dsimp only
      rw [Table.set_of_find? hfound]
      exact ih hfields

theorem DocumentGains.get_text {key s : String} (h : DocumentGains r declared doc out)
    (hdoc : Fields.get doc key = .text s) : Fields.get out key = .text s := by
  have hfound : Table.find? doc key = some (.text s) := by
    unfold Fields.get at hdoc
    cases hfound : Table.find? doc key with
    | none => rw [hfound] at hdoc; cases hdoc
    | some v => rw [hfound] at hdoc; exact congrArg some hdoc
  by_cases hplain : ∀ f ∈ declared, f.name = key → f.embedding = none
  · rw [Fields.get_of_find? ((h.others key hplain).trans hfound)]
  · push Not at hplain
    obtain ⟨f, hf, rfl, hembeds⟩ := hplain
    have hsome := Table.find?_isSome_congr h.names f.name
    rw [hfound] at hsome
    obtain ⟨w, hw⟩ := Option.isSome_iff_exists.mp hsome
    have hgains := h.embedded f hf (Option.isSome_iff_ne_none.mpr hembeds) _ w hfound hw
    rw [Fields.get_of_find? hw, hgains.text_eq]

/-- The ids of a document whose values are given theirs. -/
theorem assignIds_assigned_of (hr : r.Distinct)
    (ih : ∀ (f : Field) v w i i', Table.find? doc f.name = some v →
      assignIn r f.many f.embeddedName v i = (.ok w, i') →
        Assigned r f.many f.embeddedName v w i i')
    (h : assignIds r model doc ids = (.ok out, ids')) :
    ∃ declared, r.fieldsOfEmbedded model = .ok declared ∧ DocumentGains r declared doc out ∧
      FieldsAssigned r (r.embeddedFields model true) doc out ids ids' := by
  have hrun := h
  unfold assignIds at h
  obtain ⟨declared, mid, hlisted, -⟩ := Step.bind_ok h
  obtain ⟨hdeclared, -⟩ := Step.ofExcept_ok hlisted
  have hgains := assignIds_gains hr hdeclared hrun
  rw [assignIds_eq hdeclared] at hrun
  exact ⟨declared, hdeclared, hgains, replaceFields_assigned (embeddedFields_nodup hr hdeclared true)
    (fun _ _ => rfl) ih hrun⟩

theorem assignItems_assigned {vs ws : List Value}
    (ih : ∀ v ∈ vs, ∀ w i i', assignIn r false model v i = (.ok w, i') →
      Assigned r false model v w i i')
    (h : assignItems r model vs ids = (.ok ws, ids')) :
    Assigned r true model (.list vs) (.list ws) ids ids' := by
  have hdrawn : (∃ drawn, ids.Draws drawn ids' ∧
      Identified (subDocumentsOf r model vs) (subDocumentsOf r model ws) drawn) ∧
      (∀ i, assignItems r model ws i = (.ok ws, i)) ∧
      ∀ d ∈ subDocumentsOf r model vs, r.Iterates d.model d.hasId d.fields := by
    induction vs generalizing ws ids with
    | nil =>
      cases h
      exact ⟨⟨[], .nil ids', .nil⟩, fun _ => rfl, fun _ h => absurd h List.not_mem_nil⟩
    | cons v vs ihitems =>
      obtain ⟨hv, hvs⟩ := List.forall_mem_cons.mp ih
      unfold assignItems at h
      obtain ⟨w, mid, hw, h⟩ := Step.bind_ok h
      obtain ⟨rest, last, hrest, h⟩ := Step.bind_ok h
      cases h
      have hfirst := hv w ids mid hw
      obtain ⟨first, hdraws, hid⟩ := hfirst.drawn
      obtain ⟨⟨others, hdraws', hids⟩, hsettled, hiterates⟩ := ihitems hvs hrest
      refine ⟨⟨first ++ others, hdraws.append hdraws', hid.append hids⟩, fun i => ?_,
        List.forall_mem_append.mpr ⟨hfirst.iterates, hiterates⟩⟩
      unfold assignItems
      exact (Step.bind_of_ok (hfirst.settled i)).trans
        ((Step.bind_of_ok (hsettled i)).trans rfl)
  obtain ⟨hdrawn, hsettled, hiterates⟩ := hdrawn
  refine ⟨hdrawn, fun i => ?_, fun _ => Or.inr rfl, hiterates⟩
  unfold assignIn
  exact (Step.bind_of_ok (hsettled i)).trans rfl

/-- What has become of a value that was assigned ids. -/
theorem assignIn_assigned (hr : r.Distinct) (h : assignIn r many model v ids = (.ok w, ids')) :
    Assigned r many model v w ids ids' := by
  induction many, model, v using embedded_induction r generalizing w ids ids' with
  | document model fields ih =>
    obtain ⟨id, start, mid, out, hstart, hown, hids, rfl⟩ := assignIn_document_ok h
    subst hstart
    obtain ⟨declared, hdeclared, hgains, hfields⟩ := assignIds_assigned_of hr
      (fun f v w i i' hv hw => ih id f v hv hw) hids
    obtain ⟨drawn, hdraws, hidentified⟩ := hfields.drawn
    have hset : (Fields.get fields "id").truthy = false →
        Fields.get out "id" = .text id := by
      intro hnone
      apply hgains.get_text
      rw [withId_of_not_truthy (Bool.eq_false_iff.mp hnone), Fields.get_set_self]
    have hgiven : (Fields.get out "id").truthy := by
      rcases hown with ⟨hkept, -⟩ | ⟨hnone, hdraw⟩
      · refine hgains.get_truthy ?_
        rwa [withId_of_truthy hkept]
      · rw [hset hnone]
        simpa [Value.truthy] using IdSource.draw_ne_empty hdraw
    have hafter : subDocumentsIn r false model (.record out) =
        ⟨model, out⟩ :: subDocuments r model out := by
      rw [subDocumentsIn_record r model out id, withId_of_truthy hgiven]
    refine ⟨?_, fun i => ?_, fun h => absurd h Bool.false_ne_true, ?_⟩
    · rw [subDocumentsIn_record r model fields id, hafter]
      rcases hown with ⟨hkept, rfl⟩ | ⟨hnone, hdraw⟩
      · exact ⟨drawn, hdraws, .kept hkept hgiven rfl hidentified⟩
      · exact ⟨id :: drawn, .cons hdraw hdraws, .drawn hnone (hset hnone) rfl hidentified⟩
    · rw [assignIn_document, identify, if_pos hgiven, pure_bind]
      exact Step.bind_of_ok (assignIds_settled hdeclared hfields.settled)
    · rw [subDocumentsIn_record r model fields id]
      exact List.forall_mem_cons.mpr
        ⟨(iterates_withId r model fields id).mpr hfields.holdsItems, hfields.iterates⟩
  | items model vs ih =>
    unfold assignIn at h
    obtain ⟨ws, last, hitems, h⟩ := Step.bind_ok h
    cases h
    exact assignItems_assigned (fun v hv w i i' hw => ih v hv hw) hitems
  | other many model v hnone hassign =>
    rw [hassign] at h
    by_cases hmany : many = true ∧ ¬ v.MayHoldItems
    · rw [if_pos hmany] at h
      cases h
    · rw [if_neg hmany] at h
      cases h
      refine ⟨⟨[], .nil _, ?_⟩, fun i => ?_, fun hm => ?_, ?_⟩
      · rw [hnone]
        exact .nil
      · rw [hassign, if_neg hmany]
        rfl
      · by_contra hholds
        exact hmany ⟨hm, hholds⟩
      · rw [hnone]
        exact fun _ h => absurd h List.not_mem_nil

/-! ## Nothing to assign -/

/-- Fields that are replaced by what they hold. -/
theorem replaceFields_same {step : Field → Step IdSource (Option Value)}
    (hstep : ∀ f ∈ declared, ∀ v? i i', step f i = (.ok v?, i') →
      i' = i ∧ (v? = none ∨ v? = Table.find? start f.name))
    (h : replaceFields step start declared ids = (.ok out, ids')) : out = start ∧ ids' = ids := by
  induction declared generalizing ids with
  | nil => cases h; exact ⟨rfl, rfl⟩
  | cons f declared ih =>
    obtain ⟨hf, hrest⟩ := List.forall_mem_cons.mp hstep
    unfold replaceFields at h
    obtain ⟨v?, mid, hv, h⟩ := Step.bind_ok h
    obtain ⟨rfl, hvalue⟩ := hf v? ids mid hv
    cases v? with
    | none => exact ih hrest h
    | some v =>
      have hfound : Table.find? start f.name = some v :=
        (hvalue.resolve_left (Option.some_ne_none v)).symm
      dsimp only at h
      rw [Table.set_of_find? hfound] at h
      exact ih hrest h

theorem assignIds_same_of
    (hfields : ∀ f ∈ r.embeddedFields model true, ∀ v, Table.find? doc f.name = some v →
      ∀ w i i', assignIn r f.many f.embeddedName v i = (.ok w, i') → w = v ∧ i' = i)
    (h : assignIds r model doc ids = (.ok out, ids')) : out = doc ∧ ids' = ids := by
  have hrun := h
  unfold assignIds at h
  obtain ⟨declared, mid, hlisted, -⟩ := Step.bind_ok h
  rw [assignIds_eq (Step.ofExcept_ok hlisted).1] at hrun
  refine replaceFields_same (fun f hf v? i i' hv => ?_) hrun
  rw [assignEntry_eq] at hv
  cases hfound : Table.find? doc f.name with
  | none =>
    rw [hfound] at hv
    cases hv
    exact ⟨rfl, Or.inl rfl⟩
  | some v =>
    rw [hfound] at hv
    obtain ⟨w, last, hw, hsome⟩ := Step.bind_ok hv
    cases hsome
    obtain ⟨rfl, rfl⟩ := hfields f hf v hfound w i i' hw
    exact ⟨rfl, Or.inr rfl⟩

theorem assignItems_same_of {vs ws : List Value}
    (hitems : ∀ v ∈ vs, ∀ w i i', assignIn r false model v i = (.ok w, i') → w = v ∧ i' = i)
    (h : assignItems r model vs ids = (.ok ws, ids')) : ws = vs ∧ ids' = ids := by
  induction vs generalizing ws ids with
  | nil => cases h; exact ⟨rfl, rfl⟩
  | cons v vs ih =>
    obtain ⟨hv, hvs⟩ := List.forall_mem_cons.mp hitems
    unfold assignItems at h
    obtain ⟨w, mid, hw, h⟩ := Step.bind_ok h
    obtain ⟨rest, last, hrest, h⟩ := Step.bind_ok h
    cases h
    obtain ⟨rfl, rfl⟩ := hv w ids mid hw
    obtain ⟨rfl, rfl⟩ := ih hvs hrest
    exact ⟨rfl, rfl⟩

/-- A value whose sub-documents have ids stays as it is. -/
theorem assignIn_same (hall : ∀ d ∈ subDocumentsIn r many model v, d.hasId)
    (h : assignIn r many model v ids = (.ok w, ids')) : w = v ∧ ids' = ids := by
  induction many, model, v using embedded_induction r generalizing w ids ids' with
  | document model fields ih =>
    obtain ⟨id, start, mid, out, rfl, hown, hids, rfl⟩ := assignIn_document_ok h
    rw [subDocumentsIn_record r model fields id] at hall
    obtain ⟨hgiven, hbelow⟩ := List.forall_mem_cons.mp hall
    change (Fields.get fields "id").truthy at hgiven
    have hmid : mid = ids := by
      rcases hown with ⟨-, hmid⟩ | ⟨hnone, -⟩
      · exact hmid
      · rw [hnone] at hgiven
        cases hgiven
    obtain ⟨rfl, rfl⟩ := assignIds_same_of (fun f hf v hv w i i' hw =>
      ih id f v hv (fun d hd => hbelow d (subDocumentsIn_subset hf hv d hd)) hw) hids
    rw [withId_of_truthy hgiven]
    exact ⟨rfl, hmid⟩
  | items model vs ih =>
    unfold assignIn at h
    obtain ⟨ws, last, hitems, h⟩ := Step.bind_ok h
    cases h
    have hsame : ws = vs ∧ ids' = ids :=
      assignItems_same_of (fun v hv w i i' hw => ih v hv (fun d hd => hall d
        (subDocumentsIn_item hv d hd)) hw) hitems
    exact ⟨congrArg Value.list hsame.1, hsame.2⟩
  | other many model v hnone hassign =>
    rw [hassign] at h
    split at h
    · cases h
    · cases h
      exact ⟨rfl, rfl⟩

/-- A document whose sub-documents have ids stays as it is. -/
theorem assignIds_same (hall : ∀ d ∈ subDocuments r model doc, d.hasId)
    (h : assignIds r model doc ids = (.ok out, ids')) : out = doc ∧ ids' = ids :=
  assignIds_same_of (fun _ hf _ hv _ _ _ hw =>
    assignIn_same (fun d hd => hall d (subDocumentsIn_subset hf hv d hd)) hw) h

end Assigning

/-! ## When ids can be assigned -/

/-- The clock of a source of ids shows a second that an id can hold. -/
def IdSource.Ticks (ids : IdSource) : Prop := 0 ≤ ids.seconds ∧ ids.seconds < 4294967296

instance (ids : IdSource) : Decidable ids.Ticks :=
  inferInstanceAs (Decidable (0 ≤ ids.seconds ∧ ids.seconds < 4294967296))

/-- The models that the fields of registered models embed are registered. -/
def Registry.Resolves (r : Registry) : Prop :=
  ∀ model declared, r.fieldsOfEmbedded model = .ok declared → ∀ f ∈ declared, f.embedding.isSome →
    ∃ fields, r.fieldsOfEmbedded f.embeddedName = .ok fields

/-- The ids that sub-documents lack can be drawn. -/
def IdSource.Serves (ids : IdSource) (ds : List SubDocument) : Prop :=
  (∀ d ∈ ds, d.hasId) ∨ ids.Ticks

/-- A step on a source of ids succeeds, and leaves the clock ticking. -/
def Step.Succeeds {α : Type} (x : Step IdSource α) (ids : IdSource) : Prop :=
  ∃ a ids', x ids = (.ok a, ids') ∧ (ids.Ticks → ids'.Ticks)

section Succeeding

variable {r : Registry} {model : Option String} {declared : List Field} {doc : Fields}
  {ids ids' : IdSource} {ds es : List SubDocument} {id : String} {drawn : List String}

theorem Step.Succeeds.bind {α β : Type} {x : Step IdSource α} {f : α → Step IdSource β}
    (hx : x.Succeeds ids) (hf : ∀ a ids', (ids.Ticks → ids'.Ticks) → (f a).Succeeds ids') :
    (x >>= f).Succeeds ids := by
  obtain ⟨a, mid, ha, hmid⟩ := hx
  obtain ⟨b, ids', hb, hticks⟩ := hf a mid hmid
  exact ⟨b, ids', (Step.bind_of_ok ha).trans hb, fun h => hticks (hmid h)⟩

theorem Step.Succeeds.pure {α : Type} (a : α) (ids : IdSource) :
    (Pure.pure a : Step IdSource α).Succeeds ids := ⟨a, ids, rfl, id⟩

theorem IdSource.Serves.mono (h : ids.Serves ds) (hsub : ∀ d ∈ es, d ∈ ds)
    (hticks : ids.Ticks → ids'.Ticks) : ids'.Serves es :=
  h.imp (fun hall d hd => hall d (hsub d hd)) hticks

theorem IdSource.draw_succeeds (h : ids.Ticks) : Step.Succeeds IdSource.draw ids := by
  refine ⟨idText ids.seconds.toNat ids.random ids.advance.counter, ids.advance, ?_, id⟩
  unfold draw
  exact if_pos h

theorem IdSource.ticks_of_draw (h : ids.draw = (.ok id, ids')) : ids.Ticks := by
  unfold draw at h
  dsimp only at h
  split at h
  · assumption
  · cases h

/-- Whatever sub-documents were given, their ids could be drawn. -/
theorem Identified.serves (h : Identified ds es drawn) (hdraws : ids.Draws drawn ids') :
    ids.Serves ds := by
  cases hdraws with
  | cons hdraw => exact Or.inr (IdSource.ticks_of_draw hdraw)
  | nil =>
    left
    have hnone := h.length
    rw [List.length_nil, eq_comm, List.countP_eq_zero] at hnone
    exact fun d hd => by simpa using hnone d hd

theorem replaceFields_succeeds {step : Field → Step IdSource (Option Value)} {start : Fields}
    (hstep : ∀ f ∈ declared, ∀ ids', (ids.Ticks → ids'.Ticks) → (step f).Succeeds ids') :
    (replaceFields step start declared).Succeeds ids := by
  induction declared generalizing start ids with
  | nil => exact .pure start ids
  | cons f declared ih =>
    obtain ⟨hf, hrest⟩ := List.forall_mem_cons.mp hstep
    unfold replaceFields
    refine (hf ids id).bind fun v? mid hmid => ?_
    have hlater : ∀ start, (replaceFields step start declared).Succeeds mid := fun start =>
      ih fun g hg ids' hticks => hrest g hg ids' fun h => hticks (hmid h)
    cases v? with
    | none => exact hlater start
    | some v => exact hlater _

/-- A document can be given ids when the values of its embedded fields can. -/
theorem assignIds_succeeds_of (hdeclared : r.fieldsOfEmbedded model = .ok declared)
    (hfields : ∀ f ∈ r.embeddedFields model true, ∀ v, Table.find? doc f.name = some v →
      ∀ ids', (ids.Ticks → ids'.Ticks) → (assignIn r f.many f.embeddedName v).Succeeds ids') :
    (assignIds r model doc).Succeeds ids := by
  rw [assignIds_eq hdeclared]
  refine replaceFields_succeeds fun f hf ids' hticks => ?_
  rw [assignEntry_eq]
  cases hfound : Table.find? doc f.name with
  | none => exact .pure none ids'
  | some v => exact (hfields f hf v hfound ids' hticks).bind fun w last _ => .pure _ last

theorem assignItems_succeeds {vs : List Value}
    (hitems : ∀ v ∈ vs, ∀ ids', (ids.Ticks → ids'.Ticks) →
      (assignIn r false model v).Succeeds ids') :
    (assignItems r model vs).Succeeds ids := by
  induction vs generalizing ids with
  | nil => exact .pure [] ids
  | cons v vs ih =>
    obtain ⟨hv, hvs⟩ := List.forall_mem_cons.mp hitems
    unfold assignItems
    refine (hv ids id).bind fun w mid hmid => ?_
    refine (ih fun u hu ids' hticks => hvs u hu ids' fun h => hticks (hmid h)).bind
      fun ws last _ => .pure _ last

theorem Registry.Resolves.embeddedFields (hr : r.Resolves)
    (hdeclared : r.fieldsOfEmbedded model = .ok declared) {f : Field}
    (hf : f ∈ r.embeddedFields model true) :
    ∃ fields, r.fieldsOfEmbedded f.embeddedName = .ok fields := by
  rw [embeddedFields_eq hdeclared] at hf
  obtain ⟨hmem, hembeds⟩ := List.mem_filter.mp hf
  exact hr model declared hdeclared f hmem (Bool.and_eq_true_iff.mp hembeds).1

theorem assignIn_succeeds (hr : r.Resolves) {many : Bool} {v : Value}
    (hmodel : ∃ declared, r.fieldsOfEmbedded model = .ok declared)
    (hmany : many → v.MayHoldItems)
    (hiterates : ∀ d ∈ subDocumentsIn r many model v, r.Iterates d.model d.hasId d.fields)
    (hserves : ids.Serves (subDocumentsIn r many model v)) :
    (assignIn r many model v).Succeeds ids := by
  induction many, model, v using embedded_induction r generalizing ids with
  | document model fields ih =>
    obtain ⟨declared, hdeclared⟩ := hmodel
    rw [assignIn_document]
    have hstart : ∃ id ids', identify fields ids = (.ok (withId fields id), ids') ∧
        (ids.Ticks → ids'.Ticks) := by
      unfold identify
      by_cases hid : (Fields.get fields "id").truthy
      · rw [if_pos hid]
        exact ⟨"", ids, by rw [withId_of_truthy hid]; rfl, id⟩
      · rw [if_neg hid]
        rw [subDocumentsIn_record r model fields ""] at hserves
        have hticks : ids.Ticks := hserves.resolve_left fun hall =>
          hid (hall ⟨model, fields⟩ List.mem_cons_self)
        obtain ⟨id, ids', hdraw, hkeeps⟩ := IdSource.draw_succeeds hticks
        refine ⟨id, ids', ?_, hkeeps⟩
        rw [withId_of_not_truthy hid]
        exact Step.bind_of_ok hdraw
    obtain ⟨id, mid, hown, hmid⟩ := hstart
    rw [subDocumentsIn_record r model fields id] at hiterates hserves
    obtain ⟨hhere, hbelow⟩ := List.forall_mem_cons.mp hiterates
    have hholds := (iterates_withId r model fields id).mp hhere
    have hids : (assignIds r model (withId fields id)).Succeeds mid := by
      refine assignIds_succeeds_of hdeclared fun f hf v hv ids' hticks => ?_
      have hsub := subDocumentsIn_subset hf hv
      refine ih id f v hv (hr.embeddedFields hdeclared hf) (fun hmany => ?_)
        (fun d hd => hbelow d (hsub d hd))
        (hserves.mono (fun d hd => List.mem_cons_of_mem _ (hsub d hd)) fun h => hticks (hmid h))
      rw [← Fields.get_of_find? hv]
      exact hholds f hf hmany
    obtain ⟨out, ids', hout, hlast⟩ := hids
    exact ⟨.record out, ids', (Step.bind_of_ok hown).trans (Step.bind_of_ok hout),
      fun h => hlast (hmid h)⟩
  | items model vs ih =>
    unfold assignIn
    refine (assignItems_succeeds fun v hv ids' hticks => ?_).bind fun ws last _ => .pure _ last
    exact ih v hv hmodel (fun h => absurd h Bool.false_ne_true)
      (fun d hd => hiterates d (subDocumentsIn_item hv d hd))
      (hserves.mono (subDocumentsIn_item hv) hticks)
  | other many model v hnone hassign =>
    rw [hassign, if_neg fun h => h.2 (hmany h.1)]
    exact .pure v ids

/-- The ids that a document's sub-documents lack are drawn, one after another. It fails exactly where
an array is to be embedded and nothing can be looked for, or when an id cannot be drawn. When it succeeds,
every sub-document has an id, and nothing else has changed; the next time nothing is drawn. -/
theorem assignIds_subDocuments (hr : r.Reachable) (hresolves : r.Resolves)
    (hdeclared : r.fieldsOfEmbedded model = .ok declared) (doc : Fields) (ids : IdSource) :
    ((∃ out ids', assignIds r model doc ids = (.ok out, ids')) ↔
      r.Iterates model true doc ∧
      (∀ d ∈ subDocuments r model doc, r.Iterates d.model d.hasId d.fields) ∧
      ((∀ d ∈ subDocuments r model doc, d.hasId) ∨ ids.Ticks)) ∧
    ∀ out ids', assignIds r model doc ids = (.ok out, ids') →
      (∀ d ∈ subDocuments r model out, d.hasId) ∧
      DocumentGains r declared doc out ∧
      (∃ drawn, ids.Draws drawn ids' ∧
        Identified (subDocuments r model doc) (subDocuments r model out) drawn) ∧
      ∀ later, assignIds r model out later = (.ok out, later) := by
  have hdone : ∀ out ids', assignIds r model doc ids = (.ok out, ids') →
      DocumentGains r declared doc out ∧
        FieldsAssigned r (r.embeddedFields model true) doc out ids ids' := by
    intro out ids' h
    obtain ⟨declared', hdeclared', hgains, hfields⟩ := assignIds_assigned_of hr.distinct
      (fun f v w i i' _ hw => assignIn_assigned hr.distinct hw) h
    rw [hdeclared] at hdeclared'
    cases hdeclared'
    exact ⟨hgains, hfields⟩
  refine ⟨⟨?_, ?_⟩, ?_⟩
  · rintro ⟨out, ids', h⟩
    obtain ⟨-, hfields⟩ := hdone out ids' h
    obtain ⟨drawn, hdraws, hidentified⟩ := hfields.drawn
    exact ⟨hfields.holdsItems, hfields.iterates, hidentified.serves hdraws⟩
  · rintro ⟨hholds, hbelow, hserves⟩
    have hids : (assignIds r model doc).Succeeds ids := by
      refine assignIds_succeeds_of hdeclared fun f hf v hv ids' hticks => ?_
      have hsub := subDocumentsIn_subset hf hv
      refine assignIn_succeeds hresolves (hresolves.embeddedFields hdeclared hf) (fun hmany => ?_)
        (fun d hd => hbelow d (hsub d hd)) (IdSource.Serves.mono hserves hsub hticks)
      rw [← Fields.get_of_find? hv]
      exact hholds f hf hmany
    obtain ⟨out, ids', hout, -⟩ := hids
    exact ⟨out, ids', hout⟩
  · intro out ids' h
    obtain ⟨hgains, hfields⟩ := hdone out ids' h
    obtain ⟨drawn, hdraws, hidentified⟩ := hfields.drawn
    exact ⟨hidentified.hasId hdraws.ne_empty, hgains, ⟨drawn, hdraws, hidentified⟩,
      fun later => assignIds_settled hdeclared hfields.settled⟩

end Succeeding

/-! ## Orders -/

theorem orderModels_resolves : orderModels.Resolves := by
  have hall : ∀ m ∈ orderModels.models, ∀ f ∈ m.2.fields, f.embedding.isSome →
      (orderModels.fieldsOfEmbedded f.embeddedName).isOk := by decide
  intro model declared hdeclared f hf hembeds
  cases model with
  | none => cases hdeclared
  | some model =>
    have hfound : ∃ m, Table.find? orderModels.models model = some m ∧ m.fields = declared := by
      unfold Registry.fieldsOfEmbedded Registry.fieldsOf at hdeclared
      dsimp only at hdeclared
      split at hdeclared
      · exact ⟨_, ‹_›, Except.ok.inj hdeclared⟩
      · cases hdeclared
    obtain ⟨m, hm, rfl⟩ := hfound
    have hok := hall (model, m) (Table.mem_of_find? hm) f hf hembeds
    cases hfields : orderModels.fieldsOfEmbedded f.embeddedName with
    | ok fields => exact ⟨fields, rfl⟩
    | error e => rw [hfields] at hok; cases hok

/-- An order of two lines, of which the first one and its part have no id. -/
def orderOfTwo : Fields :=
  [("lines", .list [.record [("count", .int 2), ("part", .record [("name", .text "Nut")])],
    .text "free", .record [("id", .text "b"), ("part", .record [("id", .text "c")])]])]

/-- Two ids are drawn for it. -/
theorem assignIds_orderOfTwo : orderModels.Reachable ∧ orderModels.Resolves ∧
    orderModels.fieldsOfEmbedded (some "Order") = .ok orderModel.declaredFields ∧
    ∃ out ids' drawn, assignIds orderModels (some "Order") orderOfTwo ⟨0, 0, 0⟩ = (.ok out, ids') ∧
      drawn.length = 2 ∧ IdSource.Draws ⟨0, 0, 0⟩ drawn ids' ∧
      (∀ d ∈ subDocuments orderModels (some "Order") out, d.hasId) ∧
      ∀ later, assignIds orderModels (some "Order") out later = (.ok out, later) := by
  have hdeclared : orderModels.fieldsOfEmbedded (some "Order") = .ok orderModel.declaredFields := rfl
  obtain ⟨hiff, hdone⟩ := assignIds_subDocuments orderModels_reachable orderModels_resolves hdeclared
    orderOfTwo ⟨0, 0, 0⟩
  have hsub : subDocuments orderModels (some "Order") orderOfTwo =
      [⟨some "Line", [("count", .int 2), ("part", .record [("name", .text "Nut")])]⟩,
        ⟨some "Part", [("name", .text "Nut")]⟩,
        ⟨some "Line", [("id", .text "b"), ("part", .record [("id", .text "c")])]⟩,
        ⟨some "Part", [("id", .text "c")]⟩] := rfl
  have hlists : orderModels.Iterates (some "Order") true orderOfTwo := by
    unfold Registry.Iterates
    decide
  have hbelow : ∀ d ∈ subDocuments orderModels (some "Order") orderOfTwo,
      orderModels.Iterates d.model d.hasId d.fields := by
    rw [hsub]
    unfold Registry.Iterates
    decide
  obtain ⟨out, ids', hout⟩ := hiff.mpr ⟨hlists, hbelow, Or.inr (by decide)⟩
  obtain ⟨hids, -, ⟨drawn, hdraws, hidentified⟩, hlater⟩ := hdone out ids' hout
  refine ⟨orderModels_reachable, orderModels_resolves, hdeclared, out, ids', drawn, hout, ?_, hdraws,
    hids, hlater⟩
  rw [hidentified.length, hsub]
  rfl

/-- A document in the place of an array of documents is left without an id, and a number there is
refused. -/
theorem assignIds_orderUnlisted :
    (orderModels.field? "Order" "lines").any isEmbedding ∧
    (assignIds orderModels (some "Order") [("lines", .record [("count", .int 2)])] ⟨0, 0, 0⟩ =
      (.ok [("lines", .record [("count", .int 2)])], ⟨0, 0, 0⟩) ∧
      (Fields.get [("count", .int 2)] "id").truthy = false) ∧
    (assignIds orderModels (some "Order") [("lines", .int 2)] ⟨0, 0, 0⟩).1 = .error .wrongKind :=
  ⟨by decide, ⟨rfl, rfl⟩, rfl⟩

end DocumentApi
