import DocumentApi.Operations.Cascade
import DocumentApi.Proofs.Model.Reachable
import DocumentApi.Proofs.Steps

/-!
# Documents taken apart

* `subObjects`: the sub-objects of a document with their relations, in the order in which they are
  stored.
* `splitInline_find?`, `splitInline_parts`: what is left of a document without its sub-objects, and
  the sub-objects.
* `assignIds_find?`: ids for embedded documents leave all other fields as they are.
-/

namespace DocumentApi

/-- The elements of a value; one that is not given, or is no sequence, has none. -/
def Value.items (v : Value) : List Value := v.iterateGiven.toOption.getD []

theorem Value.items_of_iterateGiven {v : Value} {items : List Value}
    (h : v.iterateGiven = .ok items) : v.items = items := by
  unfold Value.items
  rw [h]
  rfl

@[simp] theorem Value.items_list (items : List Value) : Value.items (.list items) = items := by
  cases items <;> rfl

theorem Value.items_of_not_truthy {v : Value} (h : v.truthy = false) : v.items = [] := by
  unfold Value.items Value.iterateGiven
  rw [h]
  rfl

/-- The sub-objects of a document, by relation in the order of the declared fields. -/
def subObjects (doc : Fields) (declared : List Field) : List (Field × Value) :=
  (declared.filter Field.isRelation).flatMap fun f =>
    (Fields.get doc f.name).items.map fun v => (f, v)

variable {doc rest : Fields} {declared : List Field} {inline : Inline} {key : String}

theorem subObjects_congr {doc' : Fields}
    (h : ∀ f ∈ declared, Fields.get doc' f.name = Fields.get doc f.name) :
    subObjects doc' declared = subObjects doc declared := by
  unfold subObjects
  refine congrArg List.flatten (List.map_congr_left fun f hf => ?_)
  rw [h f (List.mem_of_mem_filter hf)]

/-- How the first field of a document is taken apart: with the document that the others see. -/
theorem splitInline_cons {f : Field} (h : splitInline doc (f :: declared) = .ok (rest, inline)) :
    ∃ doc' inline', splitInline doc' declared = .ok (rest, inline') ∧
      (∀ key, Table.find? doc' key = if f.name = key then
        (if f.isRelation then none
          else if f.isEmbeddedArray && (Fields.get doc key).isNull then some (.list [])
          else Table.find? doc key)
        else Table.find? doc key) ∧
      (f.isRelation → ∃ items, (Fields.get doc f.name).iterateGiven = .ok items ∧
        inline = if (Fields.get doc f.name).truthy then (f, items) :: inline' else inline') ∧
      (¬ f.isRelation → inline = inline') := by
  unfold splitInline at h
  dsimp only at h
  by_cases hrelation : f.isRelation
  · rw [if_pos hrelation] at h
    cases hitems : (Fields.get doc f.name).iterateGiven with
    | error e => rw [hitems] at h; cases h
    | ok items =>
      rw [hitems] at h
      dsimp only [bind, Except.bind] at h
      cases hrest : splitInline (Table.remove doc f.name) declared with
      | error e => rw [hrest] at h; cases h
      | ok result =>
        obtain ⟨rest', inline'⟩ := result
        rw [hrest] at h
        cases h
        refine ⟨_, inline', hrest, fun key => ?_, fun _ => ⟨items, rfl, rfl⟩,
          fun hn => absurd hrelation hn⟩
        rw [Table.find?_remove, if_pos hrelation]
  · rw [if_neg hrelation] at h
    by_cases hempty : (f.isEmbeddedArray && (Fields.get doc f.name).isNull) = true
    · rw [if_pos hempty] at h
      refine ⟨_, inline, h, fun key => ?_, fun hr => absurd hr hrelation, fun _ => rfl⟩
      rw [Table.find?_set]
      by_cases hkey : f.name = key
      · subst hkey
        rw [if_pos rfl, if_pos rfl, if_neg hrelation, if_pos hempty]
      · rw [if_neg hkey, if_neg hkey]
    · rw [if_neg hempty] at h
      refine ⟨_, inline, h, fun key => ?_, fun hr => absurd hr hrelation, fun _ => rfl⟩
      by_cases hkey : f.name = key
      · subst hkey
        rw [if_pos rfl, if_neg hrelation, if_neg hempty]
      · rw [if_neg hkey]

/-- What is left of a document without its sub-objects, its embedded arrays completed. -/
theorem splitInline_find? (hnames : (declared.map Field.name).Nodup)
    (h : splitInline doc declared = .ok (rest, inline)) (key : String) :
    Table.find? rest key = match declared.find? fun f => f.name == key with
      | some f =>
        if f.isRelation then none
        else if f.isEmbeddedArray && (Fields.get doc key).isNull then some (.list [])
        else Table.find? doc key
      | none => Table.find? doc key := by
  induction declared generalizing doc inline with
  | nil => cases h; rfl
  | cons f declared ih =>
    obtain ⟨doc', inline', hrest, hdoc, -, -⟩ := splitInline_cons h
    rw [List.map_cons, List.nodup_cons] at hnames
    rw [ih hnames.2 hrest]
    by_cases hkey : f.name = key
    · have hlast : (declared.find? fun g => g.name == key) = none := by
        refine List.find?_eq_none.mpr fun g hg hname => hnames.1 ?_
        rw [hkey, ← beq_iff_eq.mp hname]
        exact List.mem_map_of_mem hg
      rw [hlast, List.find?_cons_of_pos (by simp [hkey]), hdoc, if_pos hkey]
    · rw [List.find?_cons_of_neg (by simp [hkey])]
      unfold Fields.get
      rw [hdoc, if_neg hkey]

/-- The sub-objects of a document, none for a relation that is not given. -/
theorem splitInline_parts (hnames : (declared.map Field.name).Nodup)
    (h : splitInline doc declared = .ok (rest, inline)) :
    (inline.flatMap fun part => part.2.map fun v => (part.1, v)) = subObjects doc declared := by
  induction declared generalizing doc inline with
  | nil => cases h; rfl
  | cons f declared ih =>
    obtain ⟨doc', inline', hrest, hdoc, hrelation, hplain⟩ := splitInline_cons h
    rw [List.map_cons, List.nodup_cons] at hnames
    have hsame : subObjects doc' declared = subObjects doc declared := by
      refine subObjects_congr fun g hg => ?_
      have hne : f.name ≠ g.name := fun heq => hnames.1 (heq ▸ List.mem_map_of_mem hg)
      unfold Fields.get
      rw [hdoc, if_neg hne]
    have ih := ih hnames.2 hrest
    rw [hsame] at ih
    unfold subObjects at ih ⊢
    by_cases hr : f.isRelation
    · obtain ⟨items, hitems, rfl⟩ := hrelation hr
      rw [List.filter_cons_of_pos hr, List.flatMap_cons, Value.items_of_iterateGiven hitems, ← ih]
      by_cases htruthy : (Fields.get doc f.name).truthy
      · rw [if_pos htruthy, List.flatMap_cons]
      · have hnone := Value.items_of_not_truthy (Bool.eq_false_iff.mpr htruthy)
        rw [Value.items_of_iterateGiven hitems] at hnone
        rw [if_neg htruthy, hnone]
        rfl
    · rw [hplain hr, List.filter_cons_of_neg hr, ih]

theorem Value.items_ne_nil {v : Value} {items : List Value} (hv : v.truthy)
    (h : v.iterateGiven = .ok items) : items ≠ [] := by
  unfold Value.iterateGiven Value.iterate at h
  rw [if_pos hv] at h
  cases v with
  | list vs => cases h; rintro rfl; cases hv
  | record fields =>
    cases h
    rw [Ne, List.map_eq_nil_iff]
    rintro rfl
    cases hv
  | text s =>
    cases h
    rw [Ne, List.map_eq_nil_iff]
    intro hs
    rw [String.toList_eq_nil_iff] at hs
    subst hs
    cases hv
  | _ => cases h

/-- What belongs to a declared relation was given, and is not empty. -/
theorem splitInline_given (h : splitInline doc declared = .ok (rest, inline)) :
    ∀ part ∈ inline, part.1 ∈ declared ∧ part.1.isRelation ∧ part.2 ≠ [] := by
  induction declared generalizing doc inline with
  | nil => cases h; exact fun part hpart => absurd hpart List.not_mem_nil
  | cons f declared ih =>
    obtain ⟨doc', inline', hrest, -, hrelation, hplain⟩ := splitInline_cons h
    have ih : ∀ part ∈ inline', part.1 ∈ f :: declared ∧ part.1.isRelation ∧ part.2 ≠ [] :=
      fun part hpart => (ih hrest part hpart).imp_left (List.mem_cons_of_mem f)
    by_cases hr : f.isRelation
    · obtain ⟨items, hitems, rfl⟩ := hrelation hr
      split
      · rename_i htruthy
        intro part hpart
        rcases List.mem_cons.mp hpart with rfl | hpart
        · exact ⟨List.mem_cons_self, hr, Value.items_ne_nil htruthy hitems⟩
        · exact ih part hpart
      · exact ih
    · rw [hplain hr]
      exact ih

/-! ## Ids of embedded documents -/

theorem assignEntry_eq (r : Registry) (fields : Fields) (f : Field) :
    assignEntry r fields f = match Table.find? fields f.name with
      | some v => some <$> assignIn r f.many f.embeddedName v
      | none => pure none := by
  induction fields with
  | nil => rfl
  | cons entry fields ih =>
    obtain ⟨name, v⟩ := entry
    unfold assignEntry
    rw [Table.find?_cons]
    by_cases hname : name = f.name
    · rw [if_pos hname, if_pos hname]
      rfl
    · rw [if_neg hname, if_neg hname, ih]

/-- A name for which a step has no value keeps its entry. -/
theorem replaceFields_find? {step : Field → Step IdSource (Option Value)} {start out : Fields}
    {ids ids' : IdSource} {key : String}
    (hstep : ∀ f ∈ declared, f.name = key → step f = pure none)
    (h : replaceFields step start declared ids = (.ok out, ids')) :
    Table.find? out key = Table.find? start key := by
  induction declared generalizing start ids with
  | nil => cases h; rfl
  | cons f declared ih =>
    have hrest := fun g hg => hstep g (List.mem_cons_of_mem _ hg)
    unfold replaceFields at h
    obtain ⟨v?, ids₁, hv, h⟩ := Step.bind_ok h
    cases v? with
    | none => exact ih hrest h
    | some v =>
      rw [ih hrest h]
      refine Table.find?_set_ne fun hname => ?_
      rw [hstep f List.mem_cons_self hname] at hv
      cases hv

/-- Only embedded documents are given ids. -/
theorem assignIds_find? {r : Registry} {model : Option String} {ids ids' : IdSource} {out : Fields}
    (hdeclared : r.fieldsOfEmbedded model = .ok declared)
    (h : assignIds r model doc ids = (.ok out, ids'))
    (hkey : (∀ f ∈ declared, f.name = key → f.embedding = none) ∨ Table.find? doc key = none) :
    Table.find? out key = Table.find? doc key := by
  unfold assignIds at h
  rw [hdeclared] at h
  refine replaceFields_find? (fun f hf hname => ?_) h
  rcases hkey with hplain | habsent
  · have := hplain f hf hname
    simp [isEmbedding, this]
  · rw [assignEntry_eq, hname, habsent]
    split <;> rfl

/-- What is said of a declared field after fields were replaced: its step has run once. -/
theorem replaceFields_declared {step : Field → Step IdSource (Option Value)} {start out : Fields}
    {ids ids' : IdSource} {f : Field} (hnames : (declared.map Field.name).Nodup)
    (hf : f ∈ declared) (h : replaceFields step start declared ids = (.ok out, ids')) :
    ∃ i i' v?, step f i = (.ok v?, i') ∧
      Table.find? out f.name = (v? <|> Table.find? start f.name) := by
  induction declared generalizing start ids with
  | nil => exact absurd hf List.not_mem_nil
  | cons g declared ih =>
    obtain ⟨hnew, hnames⟩ := List.nodup_cons.mp hnames
    unfold replaceFields at h
    obtain ⟨v?, ids₁, hv, h⟩ := Step.bind_ok h
    rcases List.mem_cons.mp hf with rfl | hf
    · have hothers : ∀ g ∈ declared, g.name = f.name → step g = pure none := fun g hg hname =>
        absurd (hname ▸ List.mem_map_of_mem hg) hnew
      refine ⟨ids, ids₁, v?, hv, ?_⟩
      cases v? with
      | none => exact replaceFields_find? hothers h
      | some v =>
        rw [replaceFields_find? hothers h, Table.find?_set_self]
        rfl
    · have hne : g.name ≠ f.name := fun hname => hnew (hname ▸ List.mem_map_of_mem hf)
      cases v? with
      | none => exact ih hnames hf h
      | some v =>
        obtain ⟨i, i', v?, hstep, hfound⟩ := ih hnames hf h
        rw [Table.find?_set_ne hne] at hfound
        exact ⟨i, i', v?, hstep, hfound⟩

/-- What a document holds in a field for a value that was supplied for it: the value, or what it
embeds with ids. -/
def Carries (r : Registry) (f : Field) (v w : Value) : Prop :=
  if f.embedding.isSome then
    ∃ ids ids', assignIn r f.many f.embeddedName v ids = (.ok w, ids')
  else w = v

theorem replaceFields_carries {r : Registry} {step : Field → Step IdSource (Option Value)}
    {start out : Fields} {ids ids' : IdSource} {f : Field} {v : Value}
    (hnames : (declared.map Field.name).Nodup) (hf : f ∈ declared)
    (hstep : step f = if f.embedding.isSome then assignEntry r doc f else pure none)
    (hstart : Table.find? start f.name = some v) (hdoc : Table.find? doc f.name = some v)
    (h : replaceFields step start declared ids = (.ok out, ids')) :
    ∃ w, Table.find? out f.name = some w ∧ Carries r f v w := by
  obtain ⟨i, i', v?, hran, hfound⟩ := replaceFields_declared hnames hf h
  rw [hstart] at hfound
  rw [hstep] at hran
  by_cases hembeds : f.embedding.isSome
  · rw [if_pos hembeds, assignEntry_eq, hdoc] at hran
    obtain ⟨w, i'', hw, hsome⟩ := Step.bind_ok hran
    cases hsome
    refine ⟨w, hfound, ?_⟩
    unfold Carries
    rw [if_pos hembeds]
    exact ⟨i, i', hw⟩
  · rw [if_neg hembeds] at hran
    cases hran
    refine ⟨v, hfound, ?_⟩
    unfold Carries
    rw [if_neg hembeds]

/-- A document with ids carries every value of a declared field. -/
theorem assignIds_carries {r : Registry} {model : Option String} {ids ids' : IdSource}
    {out : Fields} {f : Field} {v : Value} (hdeclared : r.fieldsOfEmbedded model = .ok declared)
    (hnames : (declared.map Field.name).Nodup) (hf : f ∈ declared)
    (hv : Table.find? doc f.name = some v) (h : assignIds r model doc ids = (.ok out, ids')) :
    ∃ w, Table.find? out f.name = some w ∧ Carries r f v w := by
  unfold assignIds at h
  rw [hdeclared] at h
  exact replaceFields_carries hnames hf rfl hv hv h

theorem assignIn_isRecord {r : Registry} {model : Option String} {ids ids' : IdSource} {w : Value}
    (h : assignIn r false model (.record doc) ids = (.ok w, ids')) : ∃ out, w = .record out := by
  unfold assignIn at h
  rw [if_neg Bool.false_ne_true] at h
  dsimp only at h
  split at h
  all_goals
    obtain ⟨start, ids₁, -, h⟩ := Step.bind_ok h
    obtain ⟨declared, ids₂, -, h⟩ := Step.bind_ok h
    obtain ⟨out, ids₃, -, h⟩ := Step.bind_ok h
    cases h
    exact ⟨out, rfl⟩

theorem IdSource.draw_ne_empty {source source' : IdSource} {id : String}
    (h : source.draw = (.ok id, source')) : id ≠ "" := by
  unfold draw at h
  dsimp only at h
  split at h
  · cases h
    unfold idText
    rw [Ne, String.ofList_eq_empty_iff]
    simp [hexDigits]
  · cases h

/-- Nothing is carried for null. -/
theorem Carries.null {r : Registry} {f : Field} {v w : Value} (h : Carries r f v w)
    (hv : v.isNull) : w = .null := by
  obtain rfl : v = .null := by
    cases v with
    | null => rfl
    | _ => cases hv
  unfold Carries at h
  split at h
  · obtain ⟨ids, ids', h⟩ := h
    rw [assignIn] at h
    cases h
    rfl
  · exact h

/-- An embedded document without an id gets one, and carries every other value and no more. -/
theorem assignIn_record {r : Registry} {model : Option String} {ids ids' : IdSource} {w : Value}
    (hid : Table.find? doc "id" = none)
    (h : assignIn r false model (.record doc) ids = (.ok w, ids')) :
    ∃ declared out id, r.fieldsOfEmbedded model = .ok declared ∧ w = .record out ∧ id ≠ "" ∧
      Table.find? out "id" = some (.text id) ∧
      ((declared.map Field.name).Nodup → ∀ f ∈ declared, f.name ≠ "id" → ∀ v,
        Table.find? doc f.name = some v →
          ∃ w, Table.find? out f.name = some w ∧ Carries r f v w) ∧
      ((declared.map Field.name).Nodup → ∀ f ∈ declared, f.name ≠ "id" →
        (Fields.get doc f.name).isNull → Fields.get out f.name = .null) := by
  have hgiven : (Fields.get doc "id").truthy = false := by
    unfold Fields.get
    rw [hid]
    rfl
  unfold assignIn at h
  rw [if_neg Bool.false_ne_true, hgiven] at h
  dsimp only at h
  rw [if_neg Bool.false_ne_true] at h
  obtain ⟨start, ids₁, hstart, h⟩ := Step.bind_ok h
  obtain ⟨id, ids₂, hdraw, hset⟩ := Step.bind_ok hstart
  cases hset
  obtain ⟨declared, ids₃, hlisted, h⟩ := Step.bind_ok h
  obtain ⟨hdeclared, rfl⟩ := Step.ofExcept_ok hlisted
  obtain ⟨out, ids₄, hout, h⟩ := Step.bind_ok h
  cases h
  have hcarries : (declared.map Field.name).Nodup → ∀ f ∈ declared, f.name ≠ "id" → ∀ v,
      Table.find? doc f.name = some v →
        ∃ w, Table.find? out f.name = some w ∧ Carries r f v w := by
    intro hnames f hf hname v hv
    refine replaceFields_carries hnames hf ?_ ?_ hv hout
    · simp [isEmbedding, hname]
    · rw [Table.find?_set_ne (Ne.symm hname), hv]
  refine ⟨declared, out, id, hdeclared, rfl, IdSource.draw_ne_empty hdraw, ?_, hcarries,
    fun hnames f hf hname hnull => ?_⟩
  · rw [replaceFields_find? (fun f _ hname => by simp [hname]) hout, Table.find?_set_self]
  · cases hv : Table.find? doc f.name with
    | some v =>
      rw [Fields.get_of_find? hv] at hnull
      obtain ⟨w, hw, hcarried⟩ := hcarries hnames f hf hname v hv
      rw [Fields.get_of_find? hw]
      exact hcarried.null hnull
    | none =>
      unfold Fields.get
      rw [replaceFields_find? (fun g _ hsame => ?_) hout, Table.find?_set_ne (Ne.symm hname), hv]
      · rfl
      · rw [assignEntry_eq, hsame, hv]
        split <;> rfl

end DocumentApi
