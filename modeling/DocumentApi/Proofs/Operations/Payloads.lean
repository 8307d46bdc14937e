import DocumentApi.Proofs.Operations.Completeness
import DocumentApi.Proofs.Operations.Hooked
import DocumentApi.Proofs.Operations.NestedIds
import DocumentApi.Proofs.Operations.RoundTrip

/-!
# Inline sub-objects in stored documents

A creation takes the sub-objects of relations out of the document that it stores and out of each
sub-object that becomes a document in turn. It does not look into embedded documents: what is
supplied for the relations of an embedded document is stored in it.

* `HoldsPayload`: a value holds inline sub-objects, at some depth of embedded documents.
* `GainsIds.holdsPayload_iff`: ids for embedded documents neither add nor remove any.
* `Tree.EmbedsPayload`: inline sub-objects are supplied in an embedded document of a node.
* `create_payloads_iff`: every sub-object on the level of a document becomes a document, and a
  stored document holds inline sub-objects exactly if its node embeds some.
-/

namespace DocumentApi

open DocumentApi.Tree (linkedIds)

/-- A name under which inline sub-objects are supplied for a model: that of a relation, unless ids
are kept under it. -/
def Registry.IsPayload (r : Registry) (model key : String) : Prop :=
  key ≠ "id" ∧ ¬ r.IsLink model key ∧
    ∃ declared, r.fieldsOf model = .ok declared ∧ ∃ f ∈ declared, f.isRelation ∧ f.name = key

/-- A document, or with `many` an array of documents, has inline sub-objects in it or in what it
embeds. -/
inductive HoldsPayload (r : Registry) : Bool → Option String → Value → Prop
  | here {model key : String} {fields : Fields} (hkey : r.IsPayload model key)
      (hmem : (Table.find? fields key).isSome) : HoldsPayload r false (some model) (.record fields)
  | inside {model : String} {declared : List Field} {fields : Fields} {f : Field} {v : Value}
      (hdeclared : r.fieldsOf model = .ok declared) (hf : f ∈ declared)
      (hembeds : f.embedding.isSome) (hv : Table.find? fields f.name = some v)
      (h : HoldsPayload r f.many f.embeddedName v) :
      HoldsPayload r false (some model) (.record fields)
  | item {model : Option String} {vs : List Value} {v : Value} (hv : v ∈ vs)
      (h : HoldsPayload r false model v) : HoldsPayload r true model (.list vs)

section Payload

variable {r : Registry} {many : Bool} {model : Option String} {v w : Value} {fields start : Fields}
  {key : String}

theorem HoldsPayload.truthy (h : HoldsPayload r many model v) : v.truthy := by
  have hrecord : ∀ {fields : Fields} {key : String}, (Table.find? fields key).isSome →
      (Value.record fields).truthy := by
    intro fields key hfound
    cases fields with
    | nil => cases hfound
    | cons entry fields => rfl
  cases h with
  | here _ hmem => exact hrecord hmem
  | inside _ _ _ hv => exact hrecord (Option.isSome_of_eq_some hv)
  | @item _ vs v hv =>
    cases vs with
    | nil => cases hv
    | cons v vs => rfl

theorem not_holdsPayload_text {s : String} : ¬ HoldsPayload r many model (.text s) := nofun

theorem not_holdsPayload_list {vs : List Value} : ¬ HoldsPayload r false model (.list vs) := nofun

theorem Value.items_of_no_elements (h : v.elements = none) : v.items = [] := by
  unfold Value.items Value.iterateGiven Value.iterate
  rw [h]
  split <;> rfl

/-- An array holds what its elements hold. -/
theorem holdsPayload_many_iff :
    HoldsPayload r true model v ↔ ∃ x ∈ v.items, HoldsPayload r false model x := by
  have htexts : ∀ {α : Type} (name : α → String) (xs : List α),
      ¬ ∃ x ∈ xs.map fun a => Value.text (name a), HoldsPayload r false model x := by
    rintro α name xs ⟨x, hx, h⟩
    obtain ⟨a, -, rfl⟩ := List.mem_map.mp hx
    exact not_holdsPayload_text h
  constructor
  · rintro (_ | _ | ⟨hv, h⟩)
    exact ⟨_, by rwa [Value.items_list], h⟩
  · rintro ⟨x, hx, h⟩
    cases v with
    | list vs => exact .item (by rwa [Value.items_list] at hx) h
    | record fields =>
      cases fields with
      | nil => cases hx
      | cons entry fields => exact absurd ⟨x, hx, h⟩ (htexts Prod.fst (entry :: fields))
    | text s =>
      by_cases hs : (Value.text s).truthy
      · have hitems : Value.items (.text s) = s.toList.map fun c => .text (String.singleton c) := by
          unfold Value.items Value.iterateGiven
          rw [if_pos hs]
          rfl
        rw [hitems] at hx
        exact absurd ⟨x, hx, h⟩ (htexts String.singleton s.toList)
      · rw [Value.items_of_not_truthy (Bool.eq_false_iff.mpr hs)] at hx
        cases hx
    | _ =>
      rw [Value.items_of_no_elements rfl] at hx
      cases hx

theorem OwnId.find?_ne (h : OwnId fields start) (hkey : key ≠ "id") :
    Table.find? start key = Table.find? fields key := by
  cases h with
  | kept => rfl
  | given => exact Table.find?_set_ne hkey.symm

/-- Ids for embedded documents neither add inline sub-objects nor remove any. -/
theorem GainsIds.holdsPayload_iff (h : GainsIds r many model v w) :
    HoldsPayload r many model w ↔ HoldsPayload r many model v := by
  induction h with
  | same => exact Iff.rfl
  | @document model declared fields start out hdeclared hid hnames hothers hembedded ih =>
    constructor
    · intro hout
      cases hout with
      | here hkey hmem =>
        refine .here hkey ?_
        rwa [← hid.find?_ne hkey.1, ← Table.find?_isSome_congr hnames]
      | @inside model declared' _ f w hdeclared' hf hembeds hw hpayload =>
        obtain rfl : declared = declared' := Except.ok.inj (hdeclared.symm.trans hdeclared')
        have hsome := Table.find?_isSome_congr hnames f.name
        rw [hw] at hsome
        obtain ⟨v, hv⟩ := Option.isSome_iff_exists.mp hsome.symm
        have hheld := (ih f hf hembeds v w hv hw).mp hpayload
        refine .inside hdeclared' hf hembeds ?_ hheld
        cases hid with
        | kept => exact hv
        | given =>
          by_cases hname : f.name = "id"
          · rw [hname, Table.find?_set_self] at hv
            cases hv
            exact absurd hheld not_holdsPayload_text
          · rwa [Table.find?_set_ne (Ne.symm hname)] at hv
    · intro hfields
      cases hfields with
      | here hkey hmem =>
        refine .here hkey ?_
        rwa [Table.find?_isSome_congr hnames, hid.find?_ne hkey.1]
      | @inside model declared' _ f v hdeclared' hf hembeds hv hpayload =>
        obtain rfl : declared = declared' := Except.ok.inj (hdeclared.symm.trans hdeclared')
        have hstart : Table.find? start f.name = some v := by
          cases hid with
          | kept => exact hv
          | given hnone =>
            by_cases hname : f.name = "id"
            · rw [hname] at hv
              rw [Fields.get_of_find? hv, hpayload.truthy] at hnone
              cases hnone
            · rwa [Table.find?_set_ne (Ne.symm hname)]
        have hsome := Table.find?_isSome_congr hnames f.name
        rw [hstart] at hsome
        obtain ⟨w, hw⟩ := Option.isSome_iff_exists.mp hsome
        exact .inside hdeclared' hf hembeds hw ((ih f hf hembeds v w hstart hw).mpr hpayload)
  | @items model vs ws hlength hitems ih =>
    have hmem : ∀ {xs ys : List Value}, xs.length = ys.length →
        (∀ (i : Nat) x y, xs[i]? = some x → ys[i]? = some y →
          HoldsPayload r false model x → HoldsPayload r false model y) →
        (∃ x ∈ xs, HoldsPayload r false model x) → ∃ y ∈ ys, HoldsPayload r false model y := by
      rintro xs ys hxs hstep ⟨x, hx, hheld⟩
      obtain ⟨i, hi, rfl⟩ := List.getElem_of_mem hx
      have hi' : i < ys.length := hxs ▸ hi
      exact ⟨ys[i], List.getElem_mem hi', hstep i _ _ (List.getElem?_eq_getElem hi)
        (List.getElem?_eq_getElem hi') hheld⟩
    rw [holdsPayload_many_iff, holdsPayload_many_iff, Value.items_list, Value.items_list]
    exact ⟨hmem hlength fun i w v hw hv => (ih i v w hv hw).mp,
      hmem hlength.symm fun i v w hv hw => (ih i v w hv hw).mpr⟩

/-! ## The documents of a tree -/

/-- Inline sub-objects are supplied in what a node embeds, where nothing else is stored: an embedded
document gives way to the ids of sub-objects that are kept under its name. -/
def Tree.EmbedsPayload (r : Registry) (t : Tree) : Prop :=
  ∃ declared f v, r.fieldsOf t.model.name = .ok declared ∧ f ∈ declared ∧ f.embedding.isSome ∧
    f.isRelation = false ∧ f.name ≠ "id" ∧ (f.many ∨ linkedIds t.children f.name = []) ∧
    Table.find? t.data f.name = some v ∧ HoldsPayload r f.many f.embeddedName v

theorem Value.isNull_of_truthy (h : v.truthy) : v.isNull = false := by
  cases v <;> first | rfl | cases h

/-- A document is stored with the inline sub-objects that its embedded documents were supplied
with. -/
theorem StoredFields.holdsPayload_iff (hr : r.Distinct) {name : String} {data stored : Fields}
    {declared : List Field} {f : Field} (h : StoredFields r name data stored)
    (hdeclared : r.fieldsOf name = .ok declared) (hf : f ∈ declared) (hembeds : f.embedding.isSome)
    (hrelation : f.isRelation = false) (hid : f.name ≠ "id") :
    (∃ w, Table.find? stored f.name = some w ∧ HoldsPayload r f.many f.embeddedName w) ↔
      ∃ v, Table.find? data f.name = some v ∧ HoldsPayload r f.many f.embeddedName v := by
  obtain ⟨doc, inline, out, ids, ids', hsplit, hassign, rfl⟩ := h
  obtain ⟨declared', hdeclared', hinline⟩ := splitDocument_record hsplit
  obtain rfl : declared = declared' := Except.ok.inj (hdeclared.symm.trans hdeclared')
  have hnames := hr.fieldsOf hdeclared
  have hgains : DocumentGains r declared doc out :=
    assignIds_gains hr (show r.fieldsOfEmbedded (some name) = .ok declared from hdeclared) hassign
  have hsome := Table.find?_isSome_congr hgains.names f.name
  have hdoc := splitInline_find? hnames hinline f.name
  rw [Field.find?_of_mem hnames hf] at hdoc
  dsimp only at hdoc
  rw [hrelation, if_neg Bool.false_ne_true] at hdoc
  rw [Table.find?_remove_ne hid.symm]
  constructor
  · rintro ⟨w, hw, hheld⟩
    rw [hw] at hsome
    obtain ⟨v, hv⟩ := Option.isSome_iff_exists.mp hsome.symm
    have hheld := (hgains.embedded f hf hembeds v w hv hw).holdsPayload_iff.mp hheld
    rw [hdoc] at hv
    split at hv
    · cases hv
      cases hheld.truthy
    · exact ⟨v, hv, hheld⟩
  · rintro ⟨v, hv, hheld⟩
    have hnull : (f.isEmbeddedArray && (Fields.get data f.name).isNull) = false := by
      rw [Fields.get_of_find? hv, Value.isNull_of_truthy hheld.truthy, Bool.and_false]
    rw [hnull, if_neg Bool.false_ne_true, hv] at hdoc
    rw [hdoc] at hsome
    obtain ⟨w, hw⟩ := Option.isSome_iff_exists.mp hsome
    exact ⟨w, hw, (hgains.embedded f hf hembeds v w hdoc hw).holdsPayload_iff.mpr hheld⟩

theorem Entry.find?_document (e : Entry) (key : String) :
    Table.find? e.document key =
      if "id" = key then some (.text e.id) else Table.find? e.fields key :=
  Table.find?_set ..

/-- Ids that are linked under a name take the place of an embedded document, and stand behind those
of an embedded array. -/
theorem LinkedBy.holdsPayload_iff {children : List (Field × Tree)}
    (h : LinkedBy start children fields) (hids : (linkedIds children key).Nodup) :
    (∃ w, Table.find? fields key = some w ∧ HoldsPayload r many model w) ↔
      (many ∨ linkedIds children key = []) ∧
        ∃ w, Table.find? start key = some w ∧ HoldsPayload r many model w := by
  rw [h key]
  by_cases hnone : linkedIds children key = []
  · simp [hnone]
  · rw [if_neg hnone, Store.union_texts hids]
    cases many with
    | false =>
      refine ⟨?_, fun ⟨hor, _⟩ => (hor.elim Bool.false_ne_true hnone).elim⟩
      rintro ⟨w, hw, hheld⟩
      cases hw
      exact absurd hheld not_holdsPayload_list
    | true =>
      constructor
      · rintro ⟨w, hw, hheld⟩
        cases hw
        obtain ⟨x, hx, hheld⟩ := holdsPayload_many_iff.mp hheld
        rw [Value.items_list] at hx
        rcases List.mem_append.mp hx with hx | hx
        · unfold Fields.get at hx
          cases hstart : Table.find? start key with
          | none =>
            rw [hstart] at hx
            cases hx
          | some w =>
            rw [hstart] at hx
            exact ⟨.inl rfl, w, rfl, holdsPayload_many_iff.mpr ⟨x, hx, hheld⟩⟩
        · obtain ⟨id, -, rfl⟩ := List.mem_map.mp hx
          exact absurd hheld not_holdsPayload_text
      · rintro ⟨-, w, hw, hheld⟩
        obtain ⟨x, hx, hheld⟩ := holdsPayload_many_iff.mp hheld
        rw [Fields.get_of_find? hw]
        exact ⟨_, rfl, .item (List.mem_append_left _ hx) hheld⟩

/-- Nothing is stored for a relation but the ids that are linked under its name. -/
theorem StoredFields.find?_relation (hr : r.Distinct) {name : String} {data stored : Fields}
    {declared : List Field} {f : Field} (h : StoredFields r name data stored)
    (hdeclared : r.fieldsOf name = .ok declared) (hf : f ∈ declared) (hrelation : f.isRelation)
    (hid : f.name ≠ "id") : Table.find? stored f.name = none := by
  have hnames := hr.fieldsOf hdeclared
  rw [h.find? hr hdeclared hid fun g hg hname =>
    .inl (List.inj_on_of_nodup_map hnames hg hf hname ▸ hrelation)]
  unfold suppliedFor
  rw [if_pos (List.any_eq_true.mpr ⟨f, hf, by simp [hrelation]⟩)]

/-- The document of a node has no inline sub-objects on its own level, and in what it embeds those
that were supplied there. -/
theorem Tree.StoredAs.holdsPayload_iff (hr : r.Distinct) {t : Tree} {e : Entry}
    (h : t.StoredAs r e)
    (hlinks : ∀ key, ¬ r.IsLink t.model.name key → linkedIds t.children key = []) :
    (∀ key, r.IsPayload t.model.name key → Table.find? e.document key = none) ∧
      (HoldsPayload r false (some t.model.name) (.record e.document) ↔ t.EmbedsPayload r) := by
  obtain ⟨stored, hstored, hlinked⟩ := h.fields
  have hids : ∀ key, (linkedIds t.children key).Nodup := fun key =>
    (List.filter_sublist.map fun child : Field × Tree => child.2.id).nodup h.distinct
  have hlevel : ∀ key, r.IsPayload t.model.name key → Table.find? e.document key = none := by
    rintro key ⟨hid, hlink, declared, hdeclared, f, hf, hrelation, rfl⟩
    rw [Entry.find?_document, if_neg hid.symm, hlinked, if_pos (hlinks f.name hlink)]
    exact hstored.find?_relation hr hdeclared hf hrelation hid
  refine ⟨hlevel, ?_, ?_⟩
  · intro hheld
    cases hheld with
    | here hkey hmem =>
      rw [hlevel _ hkey] at hmem
      cases hmem
    | @inside _ declared _ f v hdeclared hf hembeds hv hheld =>
      rw [Entry.find?_document] at hv
      split at hv
      · cases hv
        exact absurd hheld not_holdsPayload_text
      · rename_i hid
        obtain ⟨hplace, w, hw, hheld⟩ := (hlinked.holdsPayload_iff (hids f.name)).mp ⟨v, hv, hheld⟩
        have hrelation : f.isRelation = false := by
          by_contra hrelation
          rw [hstored.find?_relation hr hdeclared hf (by simpa using hrelation) (Ne.symm hid)] at hw
          cases hw
        obtain ⟨u, hu, hheld⟩ := (hstored.holdsPayload_iff hr hdeclared hf hembeds hrelation
          (Ne.symm hid)).mp ⟨w, hw, hheld⟩
        exact ⟨declared, f, u, hdeclared, hf, hembeds, hrelation, Ne.symm hid, hplace, hu, hheld⟩
  · rintro ⟨declared, f, v, hdeclared, hf, hembeds, hrelation, hid, hplace, hv, hheld⟩
    have hdata :=
      (hstored.holdsPayload_iff hr hdeclared hf hembeds hrelation hid).mpr ⟨v, hv, hheld⟩
    obtain ⟨w, hw, hheld⟩ := (hlinked.holdsPayload_iff (hids f.name)).mpr ⟨hplace, hdata⟩
    refine .inside hdeclared hf hembeds ?_ hheld
    rw [Entry.find?_document, if_neg hid.symm, hw]

end Payload

/-! ## Creations -/

mutual

/-- Each node of a tree is the tree of a payload. -/
theorem Tree.Of.of_mem {r : Registry} {d : Definition} {v : Value} {t : Tree} (h : Tree.Of r d v t)
    {node : Tree} (hnode : node ∈ t.nodes) : ∃ w, Tree.Of r node.model w node := by
  match h with
  | .node read fields parts =>
    rw [Tree.nodes] at hnode
    rcases List.mem_cons.mp hnode with rfl | hnode
    · exact ⟨v, .node read fields parts⟩
    · exact parts.of_mem hnode

theorem Tree.ChildrenOf.of_mem {r : Registry} {parts : List (Field × Value)}
    {children : List (Field × Tree)} (h : Tree.ChildrenOf r parts children) {node : Tree}
    (hnode : node ∈ Tree.nodesOf children) : ∃ w, Tree.Of r node.model w node := by
  match h with
  | .nil => cases hnode
  | .cons _ item rest =>
    rw [Tree.nodesOf] at hnode
    rcases List.mem_append.mp hnode with hnode | hnode
    · exact item.of_mem hnode
    · exact rest.of_mem hnode

end

/-- What can be taken apart was read as fields. -/
theorem splitDocument_asFields {r : Registry} {model : String} {input : Value}
    {result : Fields × Inline} (h : splitDocument r model input.plain = .ok result) :
    ∃ data, input.asFields = .ok data ∧
      splitDocument r model input.plain = splitDocument r model (.record data) := by
  unfold Value.asFields
  by_cases hgiven : input.plain.truthy
  · rw [if_pos hgiven]
    obtain ⟨declared, -, hread⟩ := exceptBind_ok h
    rw [if_pos hgiven] at hread
    cases hinput : input.plain with
    | record data => exact ⟨data, rfl, rfl⟩
    | _ =>
      rw [hinput] at hread
      cases hread
  · rw [if_neg hgiven]
    refine ⟨[], rfl, ?_⟩
    unfold splitDocument
    rw [if_neg hgiven]
    rfl

/-- The work of a creation is to store what is left of its input, and its sub-objects. -/
theorem ModelOperations.create_work_ok {m : ModelOperations} {ctx input kept : Value}
    {before made : Fields} {u v : State}
    (h : (m.hookedCreate ctx input).work kept before u = (.ok made, v)) :
    ∃ data id w, (Fields.get before "input").asFields = .ok data ∧
      storeWithParts m.registry m.model data u = (.ok id, w) ∧ v.store = w.store := by
  unfold hookedCreate at h
  dsimp only at h
  obtain ⟨⟨doc, inline⟩, s₁, hprepare, h⟩ := Step.bind_ok h
  obtain ⟨stored, s₂, hinsert, h⟩ := Step.bind_ok h
  obtain ⟨units, s₃, hparts, h⟩ := Step.bind_ok h
  obtain ⟨loaded, s₄, hload, h⟩ := Step.bind_ok h
  obtain ⟨shaped, s₅, hshape, h⟩ := Step.bind_ok h
  cases h
  obtain ⟨ids, hprepared, -⟩ := Step.zoom_eq hprepare
  obtain ⟨split, ids', hsplit, -⟩ := Step.bind_ok hprepared
  obtain ⟨data, hdata, hsame⟩ := splitDocument_asFields (Step.ofExcept_ok hsplit).1
  exact ⟨data, _, s₃, hdata, storeWithParts_of_prepared hsame hprepare hinsert hparts,
    load_shape_store ((Step.bind_of_ok hload).trans hshape)⟩

/-- A creation stores the documents of the tree of its input, as the hooks before it leave that. On
the level of a document every sub-object of a relation is a document of its own, and none is left
inline. What an embedded document was supplied with for its relations is left there: a stored
document holds inline sub-objects exactly if they were supplied in what its node embeds. -/
theorem create_payloads_iff {m : ModelOperations} {ctx input created : Value} {s t : State}
    (hr : m.registry.Reachable) (h : m.create ctx input s = (.ok created, t)) :
    ∃ data before u made v tree added,
      input.asFields = .ok data ∧
      m.dispatch .beforeCreate [("ctx", ctx), ("input", .record data)] s = (.ok before, u) ∧
      (m.hookedCreate ctx input).work .null before u = (.ok made, v) ∧
      (∃ after, m.dispatch .afterCreate made v = (.ok after, t)) ∧
      Tree.Of m.registry m.model (Fields.get before "input") tree ∧
      v.store.entries = u.store.entries ++ added ∧
      List.Forall₂ (fun node e => node.IsStored m.registry e ∧
        (∀ key, m.registry.IsPayload node.model.name key → Table.find? e.document key = none) ∧
        (HoldsPayload m.registry false (some node.model.name) (.record e.document) ↔
          node.EmbedsPayload m.registry)) tree.nodes added := by
  rw [m.create_hooked] at h
  unfold HookedOperation.run at h
  obtain ⟨⟨kept, payload⟩, u', hopening, h⟩ := Step.bind_ok h
  obtain ⟨before, u, hbefore, h⟩ := Step.bind_ok h
  obtain ⟨made, v, hwork, h⟩ := Step.bind_ok h
  obtain ⟨after, t', hafter, h⟩ := Step.bind_ok h
  obtain ⟨-, rfl⟩ := Step.pure_ok h
  obtain ⟨data, w, hdata, hopened⟩ := Step.bind_ok hopening
  obtain ⟨hread, rfl⟩ := Step.ofExcept_ok hdata
  cases hopened
  rw [← HookTable.dispatch_handlers] at hbefore hafter
  obtain ⟨fields, id, w, hfields, hstore, hsame⟩ := ModelOperations.create_work_ok hwork
  have hdistinct := hr.distinct
  obtain ⟨tree, added, hof, -, hadds⟩ := storeWithParts_ok hdistinct hfields
    (fun _ _ _ _ _ target item _ => createInline_storesTree hdistinct target item) hstore
  refine ⟨data, before, u, made, v, tree, added, hread, hbefore, hwork, ⟨after, hafter⟩, hof,
    by rw [hsame]; exact hadds.entries, ?_⟩
  have hnodes := List.forall₂_iff_zip.mp hadds.stored
  refine List.forall₂_iff_zip.mpr ⟨hnodes.1, fun {node e} hmem => ?_⟩
  have hstored := hnodes.2 hmem
  obtain ⟨payload, hpayload⟩ := hof.of_mem (List.of_mem_zip hmem).1
  exact ⟨hstored.isStored hdistinct, hstored.holdsPayload_iff hdistinct fun key hkey =>
    hpayload.linkedIds_eq_nil hkey⟩

/-! ## Shops with racks of marked goods -/

def markModel : Definition :=
  ⟨"Mark", [{ name := "name" }], .all, false, "", false, none⟩

def rackModel : Definition :=
  ⟨"Rack", [{ name := "label" }, .listing "marks" "Mark" "markIds", .idList "markIds"],
    .all, false, "", true, none⟩

def shopModel : Definition :=
  ⟨"Shop", [{ name := "name" }, .array "racks" "Rack"], .all, false, "", false, none⟩

/-- Shops, which embed racks, which are related to marks. -/
def shopModels : Registry where
  definitions := [markModel, rackModel, shopModel]
  models := [("Mark", ⟨0, markModel.declaredFields⟩), ("Rack", ⟨1, rackModel.declaredFields⟩),
    ("Shop", ⟨2, shopModel.declaredFields⟩)]

theorem shopModels_reachable : shopModels.Reachable := by
  have hdefined := Registry.Reachable.defined shopModels.definitions
  exact ((hdefined.registered 0 rfl).registered 1 rfl).registered 2 rfl

/-- A state in which the types of shops were built. -/
def shopState : State where
  types := (buildAll shopModels {}).2

/-- A shop with a rack that is supplied with marks. -/
def shopInput (marks : Value) : Value :=
  .object (some "CreateShopInput") [("name", .text "Corner"),
    ("racks", .list [.object (some "CreateRackInput") [("label", .text "A"), ("marks", marks),
      ("markIds", .unset)]])]

/-- Marks that are supplied: one that is new. -/
def newMark : Value :=
  .list [.object (some "CreateMarkInput") [("name", .text "x")]]

/-- Whether the only rack of a document is stored with marks. -/
def Entry.keepsMarks (e : Entry) : Bool :=
  match Table.find? e.document "racks" with
  | some (.list [.record rack]) => (Table.find? rack "marks").isSome
  | _ => false

/-- Wherever racks are declared, marks are supplied for them inline. -/
theorem Registry.isPayload_marks {r : Registry}
    (hrack : r.fieldsOf "Rack" = .ok rackModel.declaredFields) : r.IsPayload "Rack" "marks" := by
  have hlinks : ∀ f ∈ rackModel.declaredFields, f.isRelation → linkFieldOf f ≠ "marks" := by decide
  refine ⟨by decide, ?_, rackModel.declaredFields, hrack, .listing "marks" "Mark" "markIds",
    .tail _ (.tail _ (.head _)), rfl, rfl⟩
  rintro ⟨declared, hdeclared, f, hf, hrelation, hlink⟩
  obtain rfl := Except.ok.inj (hrack.symm.trans hdeclared)
  exact hlinks f hf hrelation hlink

theorem Entry.keepsMarks_holdsPayload {r : Registry} {e : Entry} {model : String}
    {declared : List Field} (hrack : r.fieldsOf "Rack" = .ok rackModel.declaredFields)
    (hdeclared : r.fieldsOf model = .ok declared) (hracks : .array "racks" "Rack" ∈ declared)
    (h : e.keepsMarks) : HoldsPayload r false (some model) (.record e.document) := by
  unfold Entry.keepsMarks at h
  split at h
  · rename_i rack hfound
    have hheld : HoldsPayload r false (some "Rack") (.record rack) :=
      .here (Registry.isPayload_marks hrack) h
    exact .inside hdeclared hracks rfl hfound (.item (List.mem_singleton_self _) hheld)
  · cases h

/-- The types of shops are built, and a shop is created with a mark in a rack. -/
theorem shops_evaluated : (buildAll shopModels {}).1.isOk ∧
    (∀ model ∈ ["Mark", "Rack", "Shop"], (shopState.types.shape? ⟨model, .create⟩).isSome) ∧
    let result := ModelOperations.create ⟨shopModels, {}, shopModel⟩ .null (shopInput newMark)
      shopState
    result.1.isOk ∧ result.2.store.entries.map (fun e => (e.collection, e.keepsMarks)) =
      [("Shop", true)] := by
  -- The recursions are opened to the depth of the models and the input; the rest is evaluated.
  have hwhile := funext fun begun => funext (typeWhile.eq_def shopModels begun)
  have hfields := funext fun begun => funext fun key =>
    funext (fieldsWhile.eq_def shopModels begun key)
  have hinline := funext fun target => funext (createInline_eq shopModels target)
  have houtput := funext fun model => funext (toOutput_eq shopModels model)
  have hfield := funext fun f => funext (fieldOutput_eq shopModels f)
  have htype := funext fun key => funext (typeOf_eq shopModels key)
  unfold shopState ModelOperations.create linkInline
  rw [hinline]
  unfold storeWithParts linkInline ModelOperations.shape
  rw [houtput, hfield, houtput, hfield, htype]
  unfold buildAll buildModel filterTypeOf sortTypeOf typeOf
  rw [hwhile, hfields, hfields, hfields, hfields, hfields, hwhile]
  decide +kernel

theorem shopState_running : shopModels.Running shopState :=
  .built (Step.eq_of_isOk shops_evaluated.1) {} ⟨0, 0, 0⟩ []

theorem shopInput_inhabits : Inhabits shopState.types (.model ⟨"Shop", .create⟩)
    (shopInput newMark) := by
  have hshape : ∀ model ∈ ["Mark", "Rack", "Shop"],
      shopState.types.shape? ⟨model, .create⟩ = some (shopModels.shapeOf ⟨model, .create⟩) := by
    intro model hmodel
    obtain ⟨shape, hshape⟩ := Option.isSome_iff_exists.mp (shops_evaluated.2.1 model hmodel)
    rw [hshape, (shopState_running.sound.shapes _ _ hshape).2]
  have hmark : Inhabits shopState.types (.model ⟨"Mark", .create⟩)
      (.object (some "CreateMarkInput") [("name", .text "x")]) :=
    .object (hshape "Mark" (by simp)) (.given (.string _) .nil)
  have hrack : Inhabits shopState.types (.model ⟨"Rack", .create⟩)
      (.object (some "CreateRackInput") [("label", .text "A"), ("marks", newMark),
        ("markIds", .unset)]) := by
    refine .object (hshape "Rack" (by simp)) (.given (.string _)
      (.given (.given (.list fun v hv => ?_)) (.leftOut rfl .nil)))
    rw [List.mem_singleton.mp hv]
    exact hmark
  refine .object (hshape "Shop" (by simp)) (.given (.string _)
    (.given (.given (.list fun v hv => ?_)) .nil))
  rw [List.mem_singleton.mp hv]
  exact hrack

/-- A shop is created with a mark that is supplied for a rack in it. The mark is stored in the shop,
as it was supplied, and does not become a document. -/
theorem create_shop_keepsMarks : shopModels.Reachable ∧ shopModels.Running shopState ∧
    Inhabits shopState.types (.model ⟨"Shop", .create⟩) (shopInput newMark) ∧ ∃ created t e,
      ModelOperations.create ⟨shopModels, {}, shopModel⟩ .null (shopInput newMark) shopState =
        (.ok created, t) ∧
      t.store.entries = [e] ∧ e.collection = "Shop" ∧
      HoldsPayload shopModels false (some "Shop") (.record e.document) := by
  obtain ⟨hok, hentries⟩ := shops_evaluated.2.2
  refine ⟨shopModels_reachable, shopState_running, shopInput_inhabits, ?_⟩
  generalize ModelOperations.create ⟨shopModels, {}, shopModel⟩ .null (shopInput newMark)
    shopState = result at hok hentries
  obtain ⟨answer | created, t⟩ := result
  · cases hok
  · obtain ⟨e, he, hsame⟩ := List.map_eq_singleton_iff.mp hentries
    obtain ⟨hcollection, hmarks⟩ := Prod.mk.inj hsame
    exact ⟨created, t, e, rfl, he, hcollection,
      e.keepsMarks_holdsPayload rfl rfl (.tail _ (.tail _ (.head _))) hmarks⟩

/-! ## A market with a mark and a rack -/

def marketModel : Definition :=
  ⟨"Market", [{ name := "name" }, .array "racks" "Rack", .listing "marks" "Mark" "markIds",
    .idList "markIds"], .all, false, "", false, none⟩

/-- Markets, which are related to marks as well as the racks in them. -/
def marketModels : Registry where
  definitions := [markModel, rackModel, marketModel]
  models := [("Mark", ⟨0, markModel.declaredFields⟩), ("Rack", ⟨1, rackModel.declaredFields⟩),
    ("Market", ⟨2, marketModel.declaredFields⟩)]

theorem marketModels_reachable : marketModels.Reachable := by
  have hdefined := Registry.Reachable.defined marketModels.definitions
  exact ((hdefined.registered 0 rfl).registered 1 rfl).registered 2 rfl

/-- A state in which the output types of markets and racks were built. -/
def marketState : State where
  types := ⟨[(⟨"Market", .output⟩, marketModels.shapeOf ⟨"Market", .output⟩),
    (⟨"Rack", .output⟩, marketModels.shapeOf ⟨"Rack", .output⟩)], []⟩

/-- A market that is supplied with a mark, with a rack that is supplied with another one. -/
def marketInput : Value :=
  .object (some "CreateMarketInput") [("name", .text "Square"),
    ("racks", .list [.object (some "CreateRackInput") [("label", .text "A"), ("marks", newMark),
      ("markIds", .unset)]]), ("marks", newMark), ("markIds", .unset)]

/-- The mark of the market becomes a document, that of the rack is kept in the market. -/
theorem market_evaluated :
    let result := ModelOperations.create ⟨marketModels, {}, marketModel⟩ .null marketInput
      marketState
    result.1.isOk ∧ result.2.store.entries.map (fun e => (e.collection, e.keepsMarks)) =
      [("Market", true), ("Mark", false)] := by
  -- The recursions are opened to the depth of the input; the rest is evaluated.
  have hinline := funext fun target => funext (createInline_eq marketModels target)
  have houtput := funext fun model => funext (toOutput_eq marketModels model)
  have hfield := funext fun f => funext (fieldOutput_eq marketModels f)
  have htype := funext fun key => funext (typeOf_eq marketModels key)
  unfold ModelOperations.create linkInline
  rw [hinline]
  unfold storeWithParts linkInline ModelOperations.shape
  rw [houtput, hfield, houtput, hfield, htype]
  decide +kernel

/-- A market is created with a mark of its own, which becomes a document, and with one that is
supplied for a rack in it, which is stored where it was supplied. -/
theorem create_market_payloads : marketModels.Reachable ∧ ∃ created t,
    ModelOperations.create ⟨marketModels, {}, marketModel⟩ .null marketInput marketState =
      (.ok created, t) ∧
    t.store.entries.map (fun e => (e.collection, e.keepsMarks)) =
      [("Market", true), ("Mark", false)] ∧
    ∃ data before u made v tree added,
      marketInput.asFields = .ok data ∧
      ModelOperations.dispatch ⟨marketModels, {}, marketModel⟩ .beforeCreate
        [("ctx", .null), ("input", .record data)] marketState = (.ok before, u) ∧
      (ModelOperations.hookedCreate ⟨marketModels, {}, marketModel⟩ .null marketInput).work .null
        before u = (.ok made, v) ∧
      (∃ after, ModelOperations.dispatch ⟨marketModels, {}, marketModel⟩ .afterCreate made v =
        (.ok after, t)) ∧
      Tree.Of marketModels marketModel (Fields.get before "input") tree ∧
      v.store.entries = u.store.entries ++ added ∧
      List.Forall₂ (fun node e => node.IsStored marketModels e ∧
        (∀ key, marketModels.IsPayload node.model.name key → Table.find? e.document key = none) ∧
        (HoldsPayload marketModels false (some node.model.name) (.record e.document) ↔
          node.EmbedsPayload marketModels)) tree.nodes added ∧
      tree.EmbedsPayload marketModels := by
  obtain ⟨hok, hentries⟩ := market_evaluated
  generalize hcreate : ModelOperations.create ⟨marketModels, {}, marketModel⟩ .null marketInput
    marketState = result at hok hentries
  obtain ⟨e | created, t⟩ := result
  · cases hok
  obtain ⟨data, before, u, made, v, tree, added, hread, hbefore, hwork, ⟨after, hafter⟩, hof,
    hadded, hnodes⟩ := create_payloads_iff marketModels_reachable hcreate
  refine ⟨marketModels_reachable, created, t, rfl, hentries, data, before, u, made, v, tree, added,
    hread, hbefore, hwork, ⟨after, hafter⟩, hof, hadded, hnodes, ?_⟩
  -- without handlers nothing but the work changes the state
  cases hbefore
  cases hafter
  rw [hadded] at hentries
  cases hof with
  | node read fields parts =>
    rw [Tree.nodes] at hnodes
    cases hnodes with
    | cons hroot =>
      have hmarks := (Prod.mk.inj (List.cons.inj hentries).1).2
      exact hroot.2.2.mp
        (Entry.keepsMarks_holdsPayload rfl rfl (.tail _ (.tail _ (.head _))) hmarks)

end DocumentApi
