import DocumentApi.Proofs.Operations.Preparing

/-!
# Ids of nested documents

What a document looks like once every document that is embedded in it has an id.

* `GainsIds`: a value that differs from another one by ids of embedded documents that had none.
* `DocumentGains`: the same of the fields of a document, whose own id is none of them.
* `assignIn_gains`, `assignIds_gains`: documents are given ids in this sense, and in no other way.
-/

namespace DocumentApi

/-- A document keeps the id that it has, or is given one. -/
inductive OwnId (fields : Fields) : Fields → Prop
  | kept (h : (Fields.get fields "id").truthy) : OwnId fields fields
  | given {id : String} (h : (Fields.get fields "id").truthy = false) (hid : id ≠ "") :
    OwnId fields (Table.set fields "id" (.text id))

/-- A value of a field with an id for every embedded document in it that had none. -/
inductive GainsIds (r : Registry) : Bool → Option String → Value → Value → Prop
  | same {many : Bool} {model : Option String} (v : Value) : GainsIds r many model v v
  | document {model : Option String} {declared : List Field} {fields start out : Fields}
      (hdeclared : r.fieldsOfEmbedded model = .ok declared) (hid : OwnId fields start)
      (hnames : Table.names out = Table.names start)
      (hothers : ∀ key, (∀ f ∈ declared, f.name = key → f.embedding = none) →
        Table.find? out key = Table.find? start key)
      (hembedded : ∀ f ∈ declared, f.embedding.isSome → ∀ v w, Table.find? start f.name = some v →
        Table.find? out f.name = some w → GainsIds r f.many f.embeddedName v w) :
    GainsIds r false model (.record fields) (.record out)
  | items {model : Option String} {vs ws : List Value} (hlength : ws.length = vs.length)
      (hitems : ∀ (i : Nat) (v w : Value), vs[i]? = some v → ws[i]? = some w →
        GainsIds r false model v w) :
    GainsIds r true model (.list vs) (.list ws)

/-- The fields of a document with ids for what is embedded in them. -/
structure DocumentGains (r : Registry) (declared : List Field) (doc out : Fields) : Prop where
  names : Table.names out = Table.names doc
  others : ∀ key, (∀ f ∈ declared, f.name = key → f.embedding = none) →
    Table.find? out key = Table.find? doc key
  embedded : ∀ f ∈ declared, f.embedding.isSome → ∀ v w, Table.find? doc f.name = some v →
    Table.find? out f.name = some w → GainsIds r f.many f.embeddedName v w

section Gains

variable {r : Registry} {declared : List Field} {many : Bool} {model : Option String}
  {u v w : Value} {doc mid out : Fields} {key : String}

theorem DocumentGains.record (h : DocumentGains r declared mid out)
    (hdeclared : r.fieldsOfEmbedded model = .ok declared) (hid : OwnId doc mid) :
    GainsIds r false model (.record doc) (.record out) :=
  .document hdeclared hid h.names h.others h.embedded

theorem DocumentGains.refl (r : Registry) (declared : List Field) (doc : Fields) :
    DocumentGains r declared doc doc :=
  ⟨rfl, fun _ _ => rfl, fun f _ _ v w hv hw => by
    rw [hv] at hw
    cases hw
    exact .same v⟩

/-- A text has nothing to gain. -/
theorem GainsIds.text_eq {s : String} (h : GainsIds r many model (.text s) w) : w = .text s := by
  cases h
  rfl

theorem truthy_record_of_names (h : Table.names out ≠ []) : (Value.record out).truthy := by
  cases out with
  | nil => exact absurd rfl h
  | cons entry out => rfl

theorem OwnId.names_ne_nil (h : OwnId doc mid) : Table.names mid ≠ [] := by
  have hmem : "id" ∈ Table.names mid := by
    by_contra hnone
    have := Table.find?_eq_none_iff.mpr hnone
    cases h with
    | kept h =>
      unfold Fields.get at h
      rw [this] at h
      cases h
    | given =>
      rw [Table.find?_set_self] at this
      cases this
  exact List.ne_nil_of_mem hmem

/-- What is given stays given. -/
theorem GainsIds.truthy (h : GainsIds r many model v w) (hv : v.truthy) : w.truthy := by
  cases h with
  | same => exact hv
  | document _ hid hnames => exact truthy_record_of_names (hnames ▸ hid.names_ne_nil)
  | @items _ vs ws hlength =>
    cases vs with
    | nil => cases hv
    | cons v vs =>
      cases ws with
      | nil => cases hlength
      | cons w ws => rfl

/-- A field of a document with ids has the value that it had, or one with ids in it. -/
theorem DocumentGains.get_truthy (h : DocumentGains r declared doc out)
    (hv : (Fields.get doc key).truthy) : (Fields.get out key).truthy := by
  unfold Fields.get at hv ⊢
  by_cases hplain : ∀ f ∈ declared, f.name = key → f.embedding = none
  · rwa [h.others key hplain]
  · push Not at hplain
    obtain ⟨f, hf, rfl, hembeds⟩ := hplain
    cases hfound : Table.find? doc f.name with
    | none => rw [hfound] at hv; cases hv
    | some v =>
      have hsome := Table.find?_isSome_congr h.names f.name
      rw [hfound] at hv hsome
      obtain ⟨w, hw⟩ := Option.isSome_iff_exists.mp hsome
      rw [hw]
      exact (h.embedded f hf (Option.isSome_iff_ne_none.mpr hembeds) v w hfound hw).truthy hv

/-- Gaining ids again gains nothing that could not be gained at once. -/
theorem GainsIds.trans (h : GainsIds r many model u v) (h' : GainsIds r many model v w) :
    GainsIds r many model u w := by
  induction h generalizing w with
  | same => exact h'
  | @document model declared fields start mid hdeclared hid hnames hothers hembedded ih =>
    have hfirst : DocumentGains r declared start mid := ⟨hnames, hothers, hembedded⟩
    cases h' with
    | same => exact hfirst.record hdeclared hid
    | @document _ declared' _ start' out hdeclared' hid' hnames' hothers' hembedded' =>
      rw [hdeclared] at hdeclared'
      cases hdeclared'
      have hown : (Fields.get mid "id").truthy := by
        refine hfirst.get_truthy ?_
        cases hid with
        | kept h => exact h
        | given _ hne => simpa [Value.truthy] using hne
      have hsame : start' = mid := by
        cases hid' with
        | kept => rfl
        | given hnone => rw [hown] at hnone; cases hnone
      subst hsame
      refine .document hdeclared hid (hnames'.trans hnames)
        (fun key hkey => (hothers' key hkey).trans (hothers key hkey)) ?_
      intro f hf hembeds v w hv hw
      have hsome := Table.find?_isSome_congr hnames f.name
      rw [hv] at hsome
      obtain ⟨u, hu⟩ := Option.isSome_iff_exists.mp hsome
      exact ih f hf hembeds v u hv hu (hembedded' f hf hembeds u w hu hw)
  | @items model vs us hlength hitems ih =>
    cases h' with
    | same => exact .items hlength hitems
    | @items _ _ ws hlength' hitems' =>
      refine .items (hlength'.trans hlength) fun i v w hv hw => ?_
      have hi : i < us.length := hlength ▸ (List.getElem?_eq_some_iff.mp hv).1
      have hu : us[i]? = some us[i] := List.getElem?_eq_getElem hi
      exact ih i v us[i] hv hu (hitems' i us[i] w hu hw)

theorem DocumentGains.trans (h : DocumentGains r declared doc mid)
    (h' : DocumentGains r declared mid out) : DocumentGains r declared doc out := by
  refine ⟨h'.names.trans h.names, fun key hkey => (h'.others key hkey).trans (h.others key hkey), ?_⟩
  intro f hf hembeds v w hv hw
  have hsome := Table.find?_isSome_congr h.names f.name
  rw [hv] at hsome
  obtain ⟨u, hu⟩ := Option.isSome_iff_exists.mp hsome
  exact (h.embedded f hf hembeds v u hv hu).trans (h'.embedded f hf hembeds u w hu hw)

/-- The same changes to two documents, of which one has gained ids. -/
theorem DocumentGains.merge (h : DocumentGains r declared doc out) (changes : Fields) :
    DocumentGains r declared (Table.merge doc changes) (Table.merge out changes) := by
  refine ⟨Table.names_merge_congr h.names changes, fun key hkey => ?_, ?_⟩
  · rw [Table.find?_merge, Table.find?_merge, h.others key hkey]
  · intro f hf hembeds v w hv hw
    rw [Table.find?_merge] at hv hw
    cases hchange : Table.find? changes.reverse f.name with
    | some u =>
      rw [hchange] at hv hw
      cases hv
      cases hw
      exact .same _
    | none =>
      rw [hchange] at hv hw
      exact h.embedded f hf hembeds v w hv hw

end Gains

/-! ## Ids are assigned -/

section Assign

variable {r : Registry} {declared : List Field} {many : Bool} {model : Option String}
  {doc start out : Fields} {ids ids' : IdSource}

theorem replaceFields_names {step : Field → Step IdSource (Option Value)}
    (hstep : ∀ f ∈ declared, ∀ i v i', step f i = (.ok (some v), i') → f.name ∈ Table.names start)
    (h : replaceFields step start declared ids = (.ok out, ids')) :
    Table.names out = Table.names start := by
  induction declared generalizing start ids with
  | nil => cases h; rfl
  | cons f declared ih =>
    unfold replaceFields at h
    obtain ⟨v?, ids₁, hv, h⟩ := Step.bind_ok h
    have hrest := fun g hg => hstep g (List.mem_cons_of_mem _ hg)
    cases v? with
    | none => exact ih hrest h
    | some v =>
      have hset : Table.names (Table.set start f.name v) = Table.names start :=
        Table.names_set_of_mem (hstep f List.mem_cons_self _ _ _ hv)
      rw [← hset] at hrest ⊢
      exact ih hrest h

/-- Fields that are replaced by their values with ids. -/
theorem replaceFields_gains {p : Field → Bool} (hnames : (declared.map Field.name).Nodup)
    (hp : ∀ f, p f → f.embedding.isSome)
    (hstart : ∀ f ∈ declared, p f → Table.find? start f.name = Table.find? doc f.name)
    (hgains : ∀ (f : Field) v i w i', Table.find? doc f.name = some v →
      assignIn r f.many f.embeddedName v i = (.ok w, i') → GainsIds r f.many f.embeddedName v w)
    (h : replaceFields (fun f => if p f then assignEntry r doc f else return none) start declared
      ids = (.ok out, ids')) : DocumentGains r declared start out := by
  have hstep : ∀ f i v i', (if p f then assignEntry r doc f else pure none) i = (.ok (some v), i') →
      p f ∧ ∃ u, Table.find? doc f.name = some u ∧
        assignIn r f.many f.embeddedName u i = (.ok v, i') := by
    intro f i v i' hran
    by_cases hpf : p f
    · rw [if_pos hpf, assignEntry_eq] at hran
      cases hfound : Table.find? doc f.name with
      | none => rw [hfound] at hran; cases hran
      | some u =>
        rw [hfound] at hran
        obtain ⟨v', i'', hv, hsome⟩ := Step.bind_ok hran
        cases hsome
        exact ⟨hpf, u, rfl, hv⟩
    · rw [if_neg hpf] at hran
      cases hran
  refine ⟨replaceFields_names (fun f hf i v i' hran => ?_) h, fun key hkey => ?_, ?_⟩
  · obtain ⟨hpf, u, hu, -⟩ := hstep f i v i' hran
    by_contra hnone
    have := Table.find?_eq_none_iff.mpr hnone
    rw [hstart f hf hpf, hu] at this
    cases this
  · refine replaceFields_find? (fun f hf hname => if_neg fun hpf => ?_) h
    have := hp f hpf
    rw [hkey f hf hname] at this
    cases this
  · intro f hf hembeds v w hv hw
    obtain ⟨i, i', v?, hran, hfound⟩ := replaceFields_declared hnames hf h
    rw [hw, hv] at hfound
    cases v? with
    | none => cases hfound; exact .same v
    | some v' =>
      obtain rfl : w = v' := by simpa using hfound
      obtain ⟨hpf, u, hu, hassign⟩ := hstep f i w i' hran
      rw [hstart f hf hpf, hu] at hv
      cases hv
      exact hgains f v i w i' hu hassign

theorem Registry.Distinct.fieldsOfEmbedded (hr : r.Distinct)
    (h : r.fieldsOfEmbedded model = .ok declared) : (declared.map Field.name).Nodup := by
  cases model with
  | none => cases h
  | some model => exact hr.fieldsOf h

theorem assignItems_ok {items ws : List Value} (h : assignItems r model items ids = (.ok ws, ids')) :
    List.Forall₂ (fun v w => ∃ i i', assignIn r false model v i = (.ok w, i')) items ws := by
  induction items generalizing ids ws with
  | nil => cases h; exact .nil
  | cons v items ih =>
    unfold assignItems at h
    obtain ⟨w, ids₁, hw, h⟩ := Step.bind_ok h
    obtain ⟨rest, ids₂, hrest, h⟩ := Step.bind_ok h
    cases h
    exact .cons ⟨ids, ids₁, hw⟩ (ih hrest)

/-- What is assigned in a value are ids of embedded documents that had none. -/
theorem assignIn_gains (hr : r.Distinct) {v w : Value}
    (h : assignIn r many model v ids = (.ok w, ids')) : GainsIds r many model v w := by
  induction hn : v.weight using Nat.strongRecOn generalizing many model v w ids ids' with
  | ind n ih =>
    subst hn
    unfold assignIn at h
    cases v with
    | record fields =>
      dsimp only at h
      cases many with
      | true => cases h; exact .same _
      | false =>
        rw [if_neg Bool.false_ne_true] at h
        have hgains : ∀ (f : Field) v i w i', Table.find? fields f.name = some v →
            assignIn r f.many f.embeddedName v i = (.ok w, i') →
              GainsIds r f.many f.embeddedName v w := by
          intro f v i w i' hv hassign
          have : v.weight + 1 ≤ Value.weightFields fields :=
            Value.weight_le_weightFields (Table.mem_of_find? hv)
          exact ih v.weight (by simp [Value.weight]; omega) hassign rfl
        have hembeds : ∀ (q : Field → Bool) f, (isEmbedding f && q f) = true → f.embedding.isSome :=
          fun q f hq => (Bool.and_eq_true_iff.mp hq).1
        by_cases hgiven : (Fields.get fields "id").truthy
        · rw [if_pos hgiven] at h
          obtain ⟨start, ids₁, hown, h⟩ := Step.bind_ok h
          cases hown
          obtain ⟨declared, ids₂, hlisted, h⟩ := Step.bind_ok h
          obtain ⟨hdeclared, rfl⟩ := Step.ofExcept_ok hlisted
          obtain ⟨out, ids₃, hout, h⟩ := Step.bind_ok h
          cases h
          exact (replaceFields_gains (hr.fieldsOfEmbedded hdeclared) (hembeds _)
            (fun _ _ _ => rfl) hgains hout).record hdeclared (.kept hgiven)
        · have hnone := Bool.eq_false_iff.mpr hgiven
          rw [if_neg hgiven] at h
          obtain ⟨start, ids₁, hown, h⟩ := Step.bind_ok h
          obtain ⟨id, ids₄, hdraw, hset⟩ := Step.bind_ok hown
          cases hset
          obtain ⟨declared, ids₂, hlisted, h⟩ := Step.bind_ok h
          obtain ⟨hdeclared, rfl⟩ := Step.ofExcept_ok hlisted
          obtain ⟨out, ids₃, hout, h⟩ := Step.bind_ok h
          cases h
          -- the document's own id was set, so only fields of other names are looked into
          have hstart : ∀ f ∈ declared,
              (isEmbedding f && ((Fields.get fields "id").truthy || f.name != "id")) = true →
                Table.find? (Table.set fields "id" (.text id)) f.name =
                  Table.find? fields f.name := by
            intro f _ hf
            rw [hnone, Bool.false_or, Bool.and_eq_true_iff, bne_iff_ne] at hf
            exact Table.find?_set_ne (Ne.symm hf.2)
          exact (replaceFields_gains (hr.fieldsOfEmbedded hdeclared) (hembeds _) hstart hgains
            hout).record hdeclared (.given hnone (IdSource.draw_ne_empty hdraw))
    | list items =>
      cases many with
      | false => cases h; exact .same _
      | true =>
        obtain ⟨ws, ids₁, hitems, h⟩ := Step.bind_ok h
        cases h
        obtain ⟨hlength, hget⟩ := List.forall₂_iff_get.mp (assignItems_ok hitems)
        refine .items hlength.symm fun i v w hv hw => ?_
        obtain ⟨hi, rfl⟩ := List.getElem?_eq_some_iff.mp hv
        obtain ⟨hi', rfl⟩ := List.getElem?_eq_some_iff.mp hw
        obtain ⟨j, j', hassign⟩ := hget i hi hi'
        have := Value.weight_le_weightItems (List.getElem_mem hi)
        exact ih items[i].weight (by simp [Value.weight]; omega) hassign rfl
    | null => cases h; exact .same _
    | text s => cases h; exact .same _
    | _ =>
      cases many with
      | true => cases h
      | false => cases h; exact .same _

/-- A document gains ids in its fields. -/
theorem assignIds_gains (hr : r.Distinct) (hdeclared : r.fieldsOfEmbedded model = .ok declared)
    (h : assignIds r model doc ids = (.ok out, ids')) : DocumentGains r declared doc out := by
  unfold assignIds at h
  rw [hdeclared] at h
  exact replaceFields_gains (hr.fieldsOfEmbedded hdeclared) (fun _ hf => hf) (fun _ _ _ => rfl)
    (fun _ _ _ _ _ _ hassign => assignIn_gains hr hassign) h

end Assign

end DocumentApi
