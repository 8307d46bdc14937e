import DocumentApi.Proofs.Operations.Storing

/-!
# Payloads as trees

A payload with inline sub-objects is a tree of documents.

* `Tree.Of`: the tree of a payload. Its nodes are the document and the sub-objects that relations
  lead to, in the order of the declared fields and of the items of each list.
* `Tree.nodes`: the nodes of a tree, an owner before its sub-objects.
* `LinkedBy`: the fields of a document once the ids of its sub-objects are linked to it.
* `storeWithParts_ok`: a document that is stored with its parts adds the nodes of its tree, in
  order, and changes nothing else.
-/

namespace DocumentApi

/-- A payload as a tree: the model, the id and the given fields of a document, and its sub-objects
with the relations that they belong to. -/
inductive Tree where
  | node (model : Definition) (id : String) (data : Fields) (children : List (Field × Tree))

namespace Tree

def model : Tree → Definition
  | node model _ _ _ => model

def id : Tree → String
  | node _ id _ _ => id

def data : Tree → Fields
  | node _ _ data _ => data

def children : Tree → List (Field × Tree)
  | node _ _ _ children => children

mutual

/-- All nodes of a tree, each before its sub-objects. -/
def nodes : Tree → List Tree
  | node model id data children => node model id data children :: nodesOf children
termination_by structural t => t

def nodesOf : List (Field × Tree) → List Tree
  | [] => []
  | child :: children => nodesIn child ++ nodesOf children
termination_by structural children => children

def nodesIn : Field × Tree → List Tree
  | (_, t) => t.nodes
termination_by structural child => child

end

theorem nodesOf_append (children more : List (Field × Tree)) :
    nodesOf (children ++ more) = nodesOf children ++ nodesOf more := by
  induction children with
  | nil => rfl
  | cons child children ih =>
    rw [List.cons_append, nodesOf, nodesOf, ih, List.append_assoc]

theorem nodesOf_map (f : Field) (trees : List Tree) :
    nodesOf (trees.map fun t => (f, t)) = trees.flatMap nodes := by
  induction trees with
  | nil => rfl
  | cons t trees ih =>
    rw [List.map_cons, nodesOf, ih, nodesIn, List.flatMap_cons]

theorem mem_nodes (t : Tree) : t ∈ t.nodes := by
  cases t
  rw [nodes]
  exact List.mem_cons_self

/-- The sub-objects of an owner are among the nodes below it, in order. -/
theorem children_sublist (children : List (Field × Tree)) :
    (children.map Prod.snd).Sublist (nodesOf children) := by
  induction children with
  | nil => exact .slnil
  | cons child children ih =>
    obtain ⟨f, t⟩ := child
    rw [List.map_cons, nodesOf]
    exact (List.singleton_sublist.mpr t.mem_nodes).append ih

mutual

/-- `t.Of r d v`: the tree of a payload `v` for the model `d`. -/
inductive Of (r : Registry) : Definition → Value → Tree → Prop
  | node {d : Definition} {v : Value} {id : String} {data : Fields} {declared : List Field}
      {children : List (Field × Tree)} (read : v.asFields = .ok data)
      (fields : r.fieldsOf d.name = .ok declared)
      (parts : ChildrenOf r (subObjects data declared) children) :
      Of r d v (.node d id data children)

/-- The sub-objects of a payload as trees, each for the model that its relation points to. -/
inductive ChildrenOf (r : Registry) : List (Field × Value) → List (Field × Tree) → Prop
  | nil : ChildrenOf r [] []
  | cons {f : Field} {v : Value} {target : Definition} {t : Tree} {parts : List (Field × Value)}
      {children : List (Field × Tree)} (points : relationTarget r f = .ok target)
      (item : Of r target v t) (rest : ChildrenOf r parts children) :
      ChildrenOf r ((f, v) :: parts) ((f, t) :: children)

end

theorem ChildrenOf.append {r : Registry} {parts more : List (Field × Value)}
    {children others : List (Field × Tree)} (h : ChildrenOf r parts children)
    (h' : ChildrenOf r more others) : ChildrenOf r (parts ++ more) (children ++ others) := by
  induction parts generalizing children with
  | nil => cases h; exact h'
  | cons part parts ih =>
    cases h with
    | cons points item rest => exact .cons points item (ih rest)

theorem ChildrenOf.of_items {r : Registry} {f : Field} {target : Definition} {items : List Value}
    {trees : List Tree} (points : relationTarget r f = .ok target)
    (h : List.Forall₂ (Of r target) items trees) :
    ChildrenOf r (items.map fun v => (f, v)) (trees.map fun t => (f, t)) := by
  induction h with
  | nil => exact .nil
  | cons item _ ih => exact .cons points item ih

/-- The ids of the sub-objects whose relation keeps its ids in a field. -/
def linkedIds (children : List (Field × Tree)) (key : String) : List String :=
  (children.filter fun child => linkFieldOf child.1 == key).map fun child => child.2.id

theorem linkedIds_append (children : List (Field × Tree)) (f : Field) (trees : List Tree)
    (key : String) : linkedIds (children ++ trees.map fun t => (f, t)) key =
      linkedIds children key ++ if linkFieldOf f = key then trees.map Tree.id else [] := by
  unfold linkedIds
  rw [List.filter_append, List.map_append]
  refine congrArg (_ ++ ·) ?_
  by_cases hkey : linkFieldOf f = key
  · rw [if_pos hkey, List.filter_eq_self.mpr, List.map_map]
    · rfl
    · simp [hkey]
  · rw [if_neg hkey, List.filter_eq_nil_iff.mpr]
    · rfl
    · simp [hkey]

end Tree

open DocumentApi.Tree (linkedIds)

/-- The fields of a document, from those that it started with, after the ids of its sub-objects were
linked to it. -/
def LinkedBy (start : Fields) (children : List (Field × Tree)) (fields : Fields) : Prop :=
  ∀ key, Table.find? fields key =
    if linkedIds children key = [] then Table.find? start key
    else some (.list (Store.union (Fields.get start key).items
      ((linkedIds children key).map .text)))

theorem LinkedBy.append {start fields : Fields} {children : List (Field × Tree)}
    (h : LinkedBy start children fields) (f : Field) {trees : List Tree} (hne : trees ≠ []) :
    LinkedBy start (children ++ trees.map fun t => (f, t))
      (Table.set fields (linkFieldOf f) (.list (Store.union
        (Fields.get fields (linkFieldOf f)).items ((trees.map Tree.id).map .text)))) := by
  intro key
  rw [Table.find?_set, Tree.linkedIds_append]
  by_cases hkey : linkFieldOf f = key
  · rw [if_pos hkey, if_pos hkey, if_neg (by simp [hne]), hkey]
    unfold Fields.get
    rw [h key, List.map_append]
    by_cases hfirst : linkedIds children key = []
    · rw [if_pos hfirst, hfirst]
      rfl
    · rw [if_neg hfirst]
      unfold Store.union
      rw [List.foldl_append, Option.getD_some, Value.items_list]
      rfl
  · rw [if_neg hkey, if_neg hkey, List.append_nil]
    exact h key

/-- The fields that a document is stored with, its sub-objects taken out and its embedded documents
with ids. -/
def StoredFields (r : Registry) (model : String) (data stored : Fields) : Prop :=
  ∃ doc inline out ids ids', splitDocument r model (.record data) = .ok (doc, inline) ∧
    assignIds r (some model) doc ids = (.ok out, ids') ∧ stored = Table.remove out "id"

/-- An entry is the document of a node, with the ids of its sub-objects linked to it. -/
structure Tree.StoredAs (r : Registry) (t : Tree) (e : Entry) : Prop where
  collection : e.collection = t.model.storedIn
  id : e.id = t.id
  distinct : (t.children.map fun child => child.2.id).Nodup
  fields : ∃ start, StoredFields r t.model.name t.data start ∧ LinkedBy start t.children e.fields

/-- The nodes are added to a store in order, under ids that no document had. -/
structure Adds (r : Registry) (s t : Store) (nodes : List Tree) (added : List Entry) : Prop where
  entries : t.entries = s.entries ++ added
  stored : List.Forall₂ (Tree.StoredAs r) nodes added
  distinct : (added.map Entry.id).Nodup
  fresh : ∀ e ∈ added, s.uses e.id = false

theorem Adds.trans {r : Registry} {s t u : Store} {nodes more : List Tree}
    {added others : List Entry} (h : Adds r s t nodes added) (h' : Adds r t u more others) :
    Adds r s u (nodes ++ more) (added ++ others) := by
  have hold : ∀ e ∈ others, ∀ b ∈ s.entries ++ added, b.id ≠ e.id := fun e he =>
    Store.uses_eq_false.mp (h.entries ▸ h'.fresh e he)
  refine ⟨?_, List.rel_append h.stored h'.stored, ?_, fun e he => ?_⟩
  · rw [h'.entries, h.entries, List.append_assoc]
  · rw [List.map_append, List.nodup_append]
    refine ⟨h.distinct, h'.distinct, fun a ha b hb => ?_⟩
    obtain ⟨e, he, rfl⟩ := List.mem_map.mp ha
    obtain ⟨e', he', rfl⟩ := List.mem_map.mp hb
    exact hold e' he' e (List.mem_append_right _ he)
  · rcases List.mem_append.mp he with he | he
    · exact h.fresh e he
    · exact Store.uses_eq_false.mpr fun b hb => hold e he b (List.mem_append_left _ hb)

/-- Storing a sub-object adds the nodes of its tree. -/
def StoresTree (r : Registry) (target : Definition) (item : Value) : Prop :=
  ∀ s id t, createInline r target item s = (.ok id, t) →
    ∃ tree added, Tree.Of r target item tree ∧ tree.id = id ∧
      Adds r s.store t.store tree.nodes added

theorem each_createInline_ok {r : Registry} {target : Definition} {items : List Value} {s t : State}
    {ids : List String} (hitems : ∀ item ∈ items, StoresTree r target item)
    (h : Step.each (createInline r target) items s = (.ok ids, t)) :
    ∃ trees added, List.Forall₂ (Tree.Of r target) items trees ∧ ids = trees.map Tree.id ∧
      Adds r s.store t.store (trees.flatMap Tree.nodes) added := by
  induction items generalizing s ids with
  | nil =>
    cases h
    exact ⟨[], [], .nil, rfl, by simp, .nil, List.nodup_nil, by simp⟩
  | cons item items ih =>
    obtain ⟨id, u, hitem, h⟩ := Step.bind_ok h
    obtain ⟨rest, u', hrest, h⟩ := Step.bind_ok h
    cases h
    obtain ⟨tree, added, hof, rfl, hadds⟩ := hitems item List.mem_cons_self s id u hitem
    obtain ⟨trees, others, hofs, rfl, hadds'⟩ :=
      ih (fun item h => hitems item (List.mem_cons_of_mem _ h)) hrest
    exact ⟨tree :: trees, added ++ others, .cons hof hofs, rfl, hadds.trans hadds'⟩

/-- An owner in the course of storing its sub-objects: what is linked to it so far, and the entries
that were added after it. -/
structure Underway (r : Registry) (before : List Entry) (start : Fields)
    (children : List (Field × Tree)) (e : Entry) (after : List Entry) : Prop where
  linked : LinkedBy start children e.fields
  stored : List.Forall₂ (Tree.StoredAs r) (Tree.nodesOf children) after
  distinct : ((e :: after).map Entry.id).Nodup
  fresh : ∀ o ∈ e :: after, ∀ b ∈ before, b.id ≠ o.id

/-- The sub-objects of one relation are added after the owner and linked to it. -/
theorem linkInline_ok {r : Registry} {d : Definition} {part : Field × List Value} {s t : State}
    {before after : List Entry} {start : Fields} {children : List (Field × Tree)} {e : Entry}
    {answer : Unit} (hitems : ∀ target, ∀ item ∈ part.2, StoresTree r target item)
    (hgiven : part.2 ≠ []) (hs : s.store.entries = before ++ e :: after)
    (howner : e.collection = d.storedIn) (hunderway : Underway r before start children e after)
    (h : linkInline r d e.id part s = (.ok answer, t)) :
    ∃ more fields after', Tree.ChildrenOf r (part.2.map fun v => (part.1, v)) more ∧
      t.store.entries = before ++ ⟨e.collection, e.id, fields⟩ :: after' ∧
      Underway r before start (children ++ more) ⟨e.collection, e.id, fields⟩ after' := by
  obtain ⟨target, u, htarget, h⟩ := Step.bind_ok h
  obtain ⟨hpoints, rfl⟩ := Step.ofExcept_ok htarget
  obtain ⟨ids, u, hids, h⟩ := Step.bind_ok h
  obtain ⟨trees, added, hofs, rfl, hadds⟩ := each_createInline_ok (hitems target) hids
  have hne : trees ≠ [] := by
    rintro rfl
    exact hgiven (List.forall₂_nil_right_iff.mp hofs)
  have hold : ∀ o ∈ added, ∀ b ∈ before ++ e :: after, b.id ≠ o.id := fun o ho =>
    Store.uses_eq_false.mp (by rw [← hs]; exact hadds.fresh o ho)
  have hu : u.store.entries = before ++ e :: (after ++ added) := by
    rw [hadds.entries, hs, List.append_assoc, List.cons_append]
  obtain ⟨hself, hafter⟩ := List.nodup_cons.mp hunderway.distinct
  have hlater : ∀ o ∈ after ++ added, o.id ≠ e.id := by
    intro o ho heq
    rcases List.mem_append.mp ho with ho | ho
    · exact hself (heq ▸ List.mem_map_of_mem ho)
    · exact hold o ho e (by simp) heq.symm
  have ht := linkIds_ok hu howner (hunderway.fresh e List.mem_cons_self) hlater h
  refine ⟨trees.map fun t => (part.1, t), _, after ++ added, .of_items hpoints hofs, by rw [ht], ?_⟩
  refine ⟨hunderway.linked.append part.1 hne, ?_, ?_, fun o ho => ?_⟩
  · rw [Tree.nodesOf_append, Tree.nodesOf_map]
    exact List.rel_append hunderway.stored hadds.stored
  · rw [List.map_cons, List.nodup_cons, List.map_append, List.nodup_append]
    refine ⟨?_, hafter, hadds.distinct, fun a ha b hb heq => ?_⟩
    · rw [← List.map_append]
      intro hmem
      obtain ⟨o, ho, heq⟩ := List.mem_map.mp hmem
      exact hlater o ho heq
    · obtain ⟨o, ho, rfl⟩ := List.mem_map.mp ha
      obtain ⟨o', ho', rfl⟩ := List.mem_map.mp hb
      exact hold o' ho' o (by simp [ho]) heq
  · rcases List.mem_cons.mp ho with rfl | ho
    · exact hunderway.fresh e List.mem_cons_self
    · rcases List.mem_append.mp ho with ho | ho
      · exact hunderway.fresh o (List.mem_cons_of_mem _ ho)
      · exact fun b hb => hold o ho b (by simp [hb])

theorem each_linkInline_ok {r : Registry} {d : Definition} {inline : Inline} {s t : State}
    {before after : List Entry} {start : Fields} {children : List (Field × Tree)} {e : Entry}
    {answers : List Unit}
    (hitems : ∀ part ∈ inline, ∀ target, ∀ item ∈ part.2, StoresTree r target item)
    (hgiven : ∀ part ∈ inline, part.2 ≠ []) (hs : s.store.entries = before ++ e :: after)
    (howner : e.collection = d.storedIn) (hunderway : Underway r before start children e after)
    (h : Step.each (linkInline r d e.id) inline s = (.ok answers, t)) :
    ∃ more fields after',
      Tree.ChildrenOf r (inline.flatMap fun part => part.2.map fun v => (part.1, v)) more ∧
      t.store.entries = before ++ ⟨e.collection, e.id, fields⟩ :: after' ∧
      Underway r before start (children ++ more) ⟨e.collection, e.id, fields⟩ after' := by
  induction inline generalizing s e after children answers with
  | nil =>
    cases h
    refine ⟨[], e.fields, after, .nil, hs, ?_⟩
    rw [List.append_nil]
    exact hunderway
  | cons part inline ih =>
    obtain ⟨answer, u, hpart, h⟩ := Step.bind_ok h
    obtain ⟨rest, u', hrest, h⟩ := Step.bind_ok h
    cases h
    obtain ⟨more, fields, after', hof, hu, hunderway'⟩ := linkInline_ok
      (hitems part List.mem_cons_self) (hgiven part List.mem_cons_self) hs howner hunderway hpart
    obtain ⟨others, fields', after'', hofs, ht, hunderway''⟩ := ih
      (fun part h => hitems part (List.mem_cons_of_mem _ h))
      (fun part h => hgiven part (List.mem_cons_of_mem _ h)) hu howner hunderway' hrest
    rw [List.append_assoc] at hunderway''
    exact ⟨more ++ others, fields', after'', hof.append hofs, ht, hunderway''⟩

theorem splitDocument_record {r : Registry} {model : String} {data doc : Fields} {inline : Inline}
    (h : splitDocument r model (.record data) = .ok (doc, inline)) :
    ∃ declared, r.fieldsOf model = .ok declared ∧ splitInline data declared = .ok (doc, inline) := by
  unfold splitDocument at h
  cases hdeclared : r.fieldsOf model with
  | error e => rw [hdeclared] at h; cases h
  | ok declared =>
    rw [hdeclared] at h
    cases data with
    | nil => exact ⟨declared, rfl, h⟩
    | cons entry data => exact ⟨declared, rfl, h⟩

/-- A document that is stored with its parts adds the nodes of its tree. -/
theorem storeWithParts_ok {r : Registry} (hr : r.Distinct) {d : Definition} {v : Value}
    {data : Fields} {s t : State} {id : String} (hdata : v.asFields = .ok data)
    (hitems : ∀ doc inline, splitDocument r d.name (.record data) = .ok (doc, inline) →
      ∀ part ∈ inline, ∀ target, ∀ item ∈ part.2, StoresTree r target item)
    (h : storeWithParts r d data s = (.ok id, t)) :
    ∃ tree added, Tree.Of r d v tree ∧ tree.id = id ∧ Adds r s.store t.store tree.nodes added := by
  unfold storeWithParts at h
  obtain ⟨⟨doc, inline⟩, s', hsplit, h⟩ := Step.bind_ok h
  obtain ⟨hsplit', rfl⟩ := Step.ofExcept_ok hsplit
  obtain ⟨out, s₁, hout, h⟩ := Step.bind_ok h
  obtain ⟨ids, hassign, rfl⟩ := Step.zoom_eq hout
  obtain ⟨stored, s₂, hinsert, h⟩ := Step.bind_ok h
  obtain ⟨id', hfresh, hid, -, ids', hs₂⟩ := State.insert_ok hinsert
  rw [hid] at h
  obtain ⟨answers, s₃, hparts, h⟩ := Step.bind_ok h
  cases h
  obtain ⟨declared, hdeclared, hinline⟩ := splitDocument_record hsplit'
  have hstart : Underway r s.store.entries (Table.remove out "id") []
      ⟨d.storedIn, id', Table.remove out "id"⟩ [] := by
    refine ⟨fun key => rfl, .nil, by simp, fun o ho => ?_⟩
    rw [List.mem_singleton.mp ho]
    exact Store.uses_eq_false.mp hfresh
  obtain ⟨children, fields, after, hof, ht, hunderway⟩ := each_linkInline_ok
    (hitems doc inline hsplit') (fun part hpart => (splitInline_given hinline part hpart).2.2)
    (by rw [hs₂]) rfl hstart hparts
  rw [splitInline_parts (hr.fieldsOf hdeclared) hinline] at hof
  refine ⟨.node d id' data children, ⟨d.storedIn, id', fields⟩ :: after,
    .node hdata hdeclared hof, rfl, ht, ?_, hunderway.distinct, fun o ho => ?_⟩
  · rw [Tree.nodes]
    refine .cons ⟨rfl, rfl, ?_, _, ⟨doc, inline, out, _, _, hsplit', hassign, rfl⟩,
      hunderway.linked⟩ hunderway.stored
    have hids : (Tree.nodesOf children).map Tree.id = after.map Entry.id :=
      List.forall₂_eq_eq_eq ▸ List.forall₂_map_left_iff.mpr
        (List.forall₂_map_right_iff.mpr (hunderway.stored.imp fun _ _ h => h.id.symm))
    have hnodes := (List.nodup_cons.mp hunderway.distinct).2
    rw [← hids] at hnodes
    have hchildren := (Tree.children_sublist children).map Tree.id
    rw [List.map_map] at hchildren
    exact hchildren.nodup hnodes
  · exact Store.uses_eq_false.mpr (hunderway.fresh o ho)

theorem createInline_storesTree {r : Registry} (hr : r.Distinct) (target : Definition)
    (item : Value) : StoresTree r target item := by
  induction target, item using createInline.induct r with
  | case1 target item e he =>
    intro s id t h
    rw [createInline_eq, he] at h
    cases h
  | case2 target item data hdata e he =>
    intro s id t h
    rw [createInline_eq, hdata] at h
    refine storeWithParts_ok hr hdata (fun doc inline hsplit => ?_) h
    rw [he] at hsplit
    cases hsplit
  | case3 target item data hdata doc inline hsplit ih =>
    intro s id t h
    rw [createInline_eq, hdata] at h
    refine storeWithParts_ok hr hdata (fun doc' inline' hsplit' part hpart next v hv => ?_) h
    rw [hsplit] at hsplit'
    cases hsplit'
    exact ih ⟨part, hpart⟩ next ⟨v, hv⟩

end DocumentApi
