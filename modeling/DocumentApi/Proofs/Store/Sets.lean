import DocumentApi.Proofs.Store.Ledger
import DocumentApi.Proofs.Value.Equality
import Mathlib.Data.List.Induction
import Mathlib.Data.List.Nodup

/-!
# Lists of a document as sets

Values are added to a list in a field of a document unless an equal one is there.

* `Store.newTo`: the values that are new to a list, which a union puts behind it (`Store.union_eq`).
  They have the meanings that the list does not have, each once (`Store.mem_meanings_newTo`,
  `Store.nodup_newTo`), so the order of unions does not matter (`Store.sameUpToOrder_union`).
* `Store.addToSet_adds`: what `Store.addToSet` does to a store in one call, when the call is
  repeated, and in two calls in either order.
-/

namespace DocumentApi

namespace Store

/-- The values that equal none of a list and none of the values before them. -/
def newTo (items values : List Value) : List Value :=
  (values.zipIdx.filter fun place => !place.1.memberOf (items ++ values.take place.2)).map Prod.fst

section Lists

variable {items values again others : List Value} {v : Value}

theorem union_append (items values others : List Value) :
    union items (values ++ others) = union (union items values) others := by
  unfold union
  rw [List.foldl_append]

theorem union_concat (items values : List Value) (v : Value) :
    union items (values ++ [v]) = if v.memberOf (union items values) then union items values
      else union items values ++ [v] := by
  rw [union_append]
  rfl

theorem newTo_concat (items values : List Value) (v : Value) :
    newTo items (values ++ [v]) = newTo items values ++
      if v.memberOf (items ++ values) then [] else [v] := by
  unfold newTo
  rw [List.zipIdx_append, List.filter_append, List.map_append]
  congr 1
  · refine congrArg (List.map Prod.fst) (List.filter_congr fun place hplace => ?_)
    have hbefore : place.2 ≤ values.length := (List.snd_lt_of_mem_zipIdx hplace).le
    rw [List.take_append_of_le_length hbefore]
  · cases hv : v.memberOf (items ++ values) <;> simp [hv]

theorem newTo_sublist (items values : List Value) : (newTo items values).Sublist values := by
  have hplaces := (List.filter_sublist (p := fun place : Value × Nat =>
    !place.1.memberOf (items ++ values.take place.2)) (l := values.zipIdx)).map Prod.fst
  rwa [List.zipIdx_map_fst] at hplaces

theorem mem_of_mem_union (h : v ∈ union items values) : v ∈ items ++ values := by
  induction values using List.reverseRecOn with
  | nil => rwa [List.append_nil]
  | append_singleton values w ih =>
    rw [union_concat] at h
    rw [← List.append_assoc]
    split at h
    · exact List.mem_append_left _ (ih h)
    · exact (List.mem_append.mp h).elim (fun h => List.mem_append_left _ (ih h))
        (List.mem_append_right _)

/-- The union of two lists has the meanings of both. -/
theorem mem_meanings_union {m : Meaning} (hdata : ∀ v ∈ items ++ values, v.IsData) :
    m ∈ (union items values).map Value.meaning ↔ m ∈ (items ++ values).map Value.meaning := by
  induction values using List.reverseRecOn with
  | nil => rw [List.append_nil]; rfl
  | append_singleton values v ih =>
    rw [← List.append_assoc, List.forall_mem_append] at hdata
    obtain ⟨hbefore, hv⟩ := hdata
    replace ih := ih hbefore
    rw [union_concat, ← List.append_assoc, List.map_append, List.mem_append, ← ih]
    split
    · rename_i hmember
      have hmeaning : v.meaning ∈ (union items values).map Value.meaning :=
        (Value.memberOf_iff (hv v (by simp)) fun w hw => hbefore w (mem_of_mem_union hw)).mp hmember
      simp only [List.map_cons, List.map_nil, List.mem_singleton]
      exact ⟨Or.inl, fun h => h.elim id fun hm => hm ▸ hmeaning⟩
    · rw [List.map_append, List.mem_append]

theorem memberOf_union (hdata : ∀ v ∈ items ++ values, v.IsData) (hv : v.IsData) :
    v.memberOf (union items values) = v.memberOf (items ++ values) := by
  rw [Bool.eq_iff_iff, Value.memberOf_iff hv fun w hw => hdata w (mem_of_mem_union hw),
    Value.memberOf_iff hv hdata, mem_meanings_union hdata]

/-- A union is the first list followed by the values that are new to it. -/
theorem union_eq (hdata : ∀ v ∈ items ++ values, v.IsData) :
    union items values = items ++ newTo items values := by
  induction values using List.reverseRecOn with
  | nil => exact (List.append_nil items).symm
  | append_singleton values v ih =>
    rw [← List.append_assoc, List.forall_mem_append] at hdata
    obtain ⟨hbefore, hv⟩ := hdata
    rw [union_concat, newTo_concat, memberOf_union hbefore (hv v (by simp)), ih hbefore]
    cases v.memberOf (items ++ values) <;> simp

/-- Values that a list has already are not added. -/
theorem union_eq_self (h : ∀ v ∈ values, v.memberOf items = true) : union items values = items := by
  induction values with
  | nil => rfl
  | cons v values ih =>
    obtain ⟨hv, hrest⟩ := List.forall_mem_cons.mp h
    show union (if v.memberOf items then items else items ++ [v]) values = items
    rw [if_pos hv, ih hrest]

theorem union_again (hdata : ∀ v ∈ items ++ values, v.IsData) (hagain : again ⊆ values) :
    union (union items values) again = union items values := by
  refine union_eq_self fun v hv => ?_
  have hmem : v ∈ items ++ values := List.mem_append_right _ (hagain hv)
  rw [memberOf_union hdata (hdata v hmem), Value.memberOf_iff (hdata v hmem) hdata]
  exact List.mem_map_of_mem hmem

/-- What is new to a list are the meanings that the list does not have. -/
theorem mem_meanings_newTo {m : Meaning} (hdata : ∀ v ∈ items ++ values, v.IsData) :
    m ∈ (newTo items values).map Value.meaning ↔
      m ∈ values.map Value.meaning ∧ m ∉ items.map Value.meaning := by
  induction values using List.reverseRecOn with
  | nil => simp [newTo]
  | append_singleton values v ih =>
    rw [← List.append_assoc, List.forall_mem_append] at hdata
    obtain ⟨hbefore, hv⟩ := hdata
    have hmember := Value.memberOf_iff (hv v (by simp)) hbefore
    rw [List.map_append, List.mem_append] at hmember
    rw [newTo_concat, List.map_append, List.mem_append, ih hbefore, List.map_append,
      List.mem_append, List.map_singleton, List.mem_singleton]
    by_cases hold : v.memberOf (items ++ values) = true
    · rw [if_pos hold, List.map_nil]
      simp only [List.not_mem_nil, or_false]
      constructor
      · exact fun ⟨hvalues, hitems⟩ => ⟨Or.inl hvalues, hitems⟩
      · rintro ⟨hvalues | rfl, hitems⟩
        · exact ⟨hvalues, hitems⟩
        · exact ⟨(hmember.mp hold).resolve_left hitems, hitems⟩
    · rw [if_neg hold, List.map_singleton, List.mem_singleton]
      rw [hmember, not_or] at hold
      constructor
      · rintro (⟨hvalues, hitems⟩ | rfl)
        · exact ⟨Or.inl hvalues, hitems⟩
        · exact ⟨Or.inr rfl, hold.1⟩
      · rintro ⟨hvalues | hm, hitems⟩
        · exact Or.inl ⟨hvalues, hitems⟩
        · exact Or.inr hm

/-- No two of the values that are new to a list are equal. -/
theorem nodup_newTo (hdata : ∀ v ∈ items ++ values, v.IsData) :
    ((newTo items values).map Value.meaning).Nodup := by
  induction values using List.reverseRecOn with
  | nil => exact List.nodup_nil
  | append_singleton values v ih =>
    rw [← List.append_assoc, List.forall_mem_append] at hdata
    obtain ⟨hbefore, hv⟩ := hdata
    rw [newTo_concat]
    split
    · rw [List.append_nil]
      exact ih hbefore
    · rename_i hnew
      rw [Value.memberOf_iff (hv v (by simp)) hbefore, List.map_append, List.mem_append,
        not_or] at hnew
      rw [List.map_append, List.map_singleton]
      refine List.Nodup.append (ih hbefore) (List.nodup_singleton _)
        (List.disjoint_singleton.mpr fun hmem => ?_)
      exact hnew.2 (((newTo_sublist items values).map Value.meaning).subset hmem)

/-- The union with two lists of values, in either order. -/
theorem sameUpToOrder_union (hitems : ∀ v ∈ items, v.IsData) (hvalues : ∀ v ∈ values, v.IsData)
    (hothers : ∀ v ∈ others, v.IsData) :
    Value.SameUpToOrder (union (union items values) others)
      (union (union items others) values) := by
  have hboth : ∀ {first second : List Value}, (∀ v ∈ first, v.IsData) → (∀ v ∈ second, v.IsData) →
      ∀ v ∈ items ++ (first ++ second), v.IsData := fun hfirst hsecond =>
    List.forall_mem_append.mpr ⟨hitems, List.forall_mem_append.mpr ⟨hfirst, hsecond⟩⟩
  rw [← union_append, ← union_append]
  refine Value.sameUpToOrder_of_perm (fun v hv => hboth hvalues hothers v (mem_of_mem_union hv))
    (fun v hv => hboth hothers hvalues v (mem_of_mem_union hv)) ?_
  rw [union_eq (hboth hvalues hothers), union_eq (hboth hothers hvalues), List.map_append,
    List.map_append, List.perm_append_left_iff,
    List.perm_ext_iff_of_nodup (nodup_newTo (hboth hvalues hothers))
      (nodup_newTo (hboth hothers hvalues))]
  intro m
  rw [mem_meanings_newTo (hboth hvalues hothers), mem_meanings_newTo (hboth hothers hvalues),
    List.map_append, List.map_append, List.mem_append, List.mem_append, or_comm]

end Lists

end Store

/-- The list in a field of a document; an absent or null field counts as an empty one. -/
def Fields.listAt (fields : Fields) (field : String) : Option (List Value) :=
  match Fields.get fields field with
  | .null => some []
  | .list items => some items
  | _ => none

/-- In an entry the values that are new to the list of a field are added to it, and all else is
kept. -/
structure Entry.Extends (e e' : Entry) (field : String) (old values : List Value) : Prop where
  collection : e'.collection = e.collection
  id : e'.id = e.id
  list : Table.find? e'.document field = some (.list (old ++ Store.newTo old values))
  others : Table.remove e'.document field = Table.remove e.document field

namespace Entry

variable {e : Entry} {field : String} {old items : List Value}

/-- An entry with a list in one of its fields. -/
def withList (e : Entry) (field : String) (items : List Value) : Entry :=
  { e with fields := Table.set e.fields field (.list items) }

theorem ne_id_of_listAt (h : Fields.listAt e.document field = some old) : field ≠ "id" := by
  rintro rfl
  unfold Fields.listAt document at h
  rw [Fields.get_set_self] at h
  cases h

theorem listAt_document (h : field ≠ "id") :
    Fields.listAt e.document field = Fields.listAt e.fields field := by
  unfold Fields.listAt document
  rw [Fields.get_set_ne (Ne.symm h)]

theorem find?_withList (h : field ≠ "id") :
    Table.find? (e.withList field items).document field = some (.list items) := by
  unfold document withList
  rw [Table.find?_set_ne (Ne.symm h), Table.find?_set_self]

theorem listAt_withList (h : field ≠ "id") :
    Fields.listAt (e.withList field items).document field = some items := by
  unfold Fields.listAt
  rw [Fields.get_of_find? (find?_withList h)]

theorem withList_withList (e : Entry) (field : String) (items others : List Value) :
    (e.withList field items).withList field others = e.withList field others := by
  unfold withList
  rw [Table.set_set_self]

theorem withList_extends {values : List Value} (h : field ≠ "id")
    (hitems : items = old ++ Store.newTo old values) :
    e.Extends (e.withList field items) field old values where
  collection := rfl
  id := rfl
  list := hitems ▸ find?_withList h
  others := by
    unfold document withList
    rw [Table.remove_set_ne (Ne.symm h), Table.remove_set_ne (Ne.symm h), Table.remove_set_self]

end Entry

namespace Store

theorem iterateGiven_of_listAt {fields : Fields} {field : String} {old : List Value}
    (h : Fields.listAt fields field = some old) :
    (Fields.get fields field).iterateGiven = .ok old := by
  unfold Fields.listAt at h
  split at h
  · rename_i hnull
    cases h
    rw [hnull]
    rfl
  · rename_i items hlist
    cases h
    rw [hlist]
    cases old <;> rfl
  · cases h

variable {before after : List Entry} {e : Entry} {field : String} {old values : List Value}

/-- A call on the only entry of an id. -/
theorem addToSet_run (hids : ((before ++ e :: after).map Entry.id).Nodup)
    (hold : Fields.listAt e.document field = some old) (values : List Value) :
    addToSet e.collection e.id field (.list values) ⟨before ++ e :: after⟩ =
      (.ok (some (e.withList field (union old values)).document),
        ⟨before ++ e.withList field (union old values) :: after⟩) := by
  obtain ⟨hbefore, hafter⟩ := others_of_nodup hids
  rw [Entry.listAt_document (Entry.ne_id_of_listAt hold)] at hold
  have hiterate : (Value.list values).iterate = .ok values := rfl
  rw [addToSet_eq, find?_middle hbefore]
  dsimp only
  rw [iterateGiven_of_listAt hold, hiterate]
  dsimp only
  rw [change_middle _ hbefore hafter]
  rfl

/-- A call after another one. -/
theorem addToSet_run_withList (hids : ((before ++ e :: after).map Entry.id).Nodup)
    (hfield : field ≠ "id") (items values : List Value) :
    addToSet e.collection e.id field (.list values) ⟨before ++ e.withList field items :: after⟩ =
      (.ok (some (e.withList field (union items values)).document),
        ⟨before ++ e.withList field (union items values) :: after⟩) := by
  have hids' : ((before ++ e.withList field items :: after).map Entry.id).Nodup := by
    rw [List.map_append, List.map_cons] at hids ⊢
    exact hids
  have hrun := addToSet_run hids' (Entry.listAt_withList hfield) values
  rwa [Entry.withList_withList] at hrun

theorem addToSet_twice (hids : ((before ++ e :: after).map Entry.id).Nodup)
    (hold : Fields.listAt e.document field = some old) (values others : List Value) :
    (do
      let _ ← addToSet e.collection e.id field (.list values)
      addToSet e.collection e.id field (.list others)) ⟨before ++ e :: after⟩ =
      (.ok (some (e.withList field (union old (values ++ others))).document),
        ⟨before ++ e.withList field (union old (values ++ others)) :: after⟩) := by
  rw [Step.bind_of_ok (addToSet_run hids hold values),
    addToSet_run_withList hids (Entry.ne_id_of_listAt hold), union_append]

/-- To the list in a field of a document, an absent one being empty, the values are added that equal
none of it and none of the values before them, and nothing else changes. The same values or some of
them change nothing when they are added again. Two lists of values, added in either order, leave
equal values up to order. -/
theorem addToSet_adds (hids : ((before ++ e :: after).map Entry.id).Nodup)
    (hold : Fields.listAt e.document field = some old) (hitems : ∀ v ∈ old, v.IsData)
    (hvalues : ∀ v ∈ values, v.IsData) :
    ∃ e', e.Extends e' field old values ∧
      addToSet e.collection e.id field (.list values) ⟨before ++ e :: after⟩ =
        (.ok (some e'.document), ⟨before ++ e' :: after⟩) ∧
      (∀ again ⊆ values,
        addToSet e.collection e.id field (.list again) ⟨before ++ e' :: after⟩ =
          (.ok (some e'.document), ⟨before ++ e' :: after⟩)) ∧
      ∀ others : List Value, (∀ v ∈ others, v.IsData) → ∃ first second : Entry,
        e.Extends first field old (values ++ others) ∧
        e.Extends second field old (others ++ values) ∧
        (do
          let _ ← addToSet e.collection e.id field (.list values)
          addToSet e.collection e.id field (.list others)) ⟨before ++ e :: after⟩ =
          (.ok (some first.document), ⟨before ++ first :: after⟩) ∧
        (do
          let _ ← addToSet e.collection e.id field (.list others)
          addToSet e.collection e.id field (.list values)) ⟨before ++ e :: after⟩ =
          (.ok (some second.document), ⟨before ++ second :: after⟩) ∧
        Value.SameUpToOrder (old ++ newTo old (values ++ others))
          (old ++ newTo old (others ++ values)) := by
  have hfield := Entry.ne_id_of_listAt hold
  have hdata := List.forall_mem_append.mpr ⟨hitems, hvalues⟩
  refine ⟨e.withList field (union old values), Entry.withList_extends hfield (union_eq hdata),
    addToSet_run hids hold values, fun again hagain => ?_, fun others hothers => ?_⟩
  · have hrun := addToSet_run_withList hids hfield (union old values) again
    rwa [union_again hdata hagain] at hrun
  · have hfirst := List.forall_mem_append.mpr
      ⟨hitems, List.forall_mem_append.mpr ⟨hvalues, hothers⟩⟩
    have hsecond := List.forall_mem_append.mpr
      ⟨hitems, List.forall_mem_append.mpr ⟨hothers, hvalues⟩⟩
    refine ⟨_, _, Entry.withList_extends hfield (union_eq hfirst),
      Entry.withList_extends hfield (union_eq hsecond), addToSet_twice hids hold values others,
      addToSet_twice hids hold others values, ?_⟩
    have hsame := sameUpToOrder_union hitems hvalues hothers
    rwa [← union_append, ← union_append, union_eq hfirst, union_eq hsecond] at hsame

/-- Labels of a document: a number and a record. -/
def firstLabels : List Value := [.int 1, .record [("height", .int 1), ("open", .bool true)]]

/-- A document with labels. -/
def labelled : Entry := ⟨"boxes", "b2", [("labels", .list firstLabels), ("size", .int 3)]⟩

/-- A document without any. -/
def unlabelled : Entry := ⟨"boxes", "b1", [("size", .int 2)]⟩

/-- One as a boolean and as a double, the record with its fields in another order, and a text and a
zero, each twice. -/
def moreLabels : List Value :=
  [.bool true, .text "red", .float ⟨false, 1, 0⟩,
    .record [("open", .int 1), ("height", .float ⟨false, 1, 0⟩)], .text "red", .bool false, .int 0]

/-- The text and the zero are new to the labels; two of the values that are added again change
nothing. -/
theorem addToSet_labels :
    ((([unlabelled] ++ [labelled]).map Entry.id).Nodup ∧
      Fields.listAt labelled.document "labels" = some firstLabels ∧
      (∀ v ∈ firstLabels, v.IsData) ∧ ∀ v ∈ moreLabels, v.IsData) ∧
    ∃ e', addToSet "boxes" "b2" "labels" (.list moreLabels) ⟨[unlabelled, labelled]⟩ =
        (.ok (some e'.document), ⟨[unlabelled, e']⟩) ∧
      Table.find? e'.document "labels" =
        some (.list (firstLabels ++ [.text "red", .bool false])) ∧
      addToSet "boxes" "b2" "labels" (.list [.int 0, .bool true]) ⟨[unlabelled, e']⟩ =
        (.ok (some e'.document), ⟨[unlabelled, e']⟩) := by
  have hids : (([unlabelled] ++ [labelled]).map Entry.id).Nodup := by decide
  have hold : Fields.listAt labelled.document "labels" = some firstLabels := rfl
  have hitems : ∀ v ∈ firstLabels, v.IsData := by simp [firstLabels, Table.names]
  have hvalues : ∀ v ∈ moreLabels, v.IsData := by simp [moreLabels, Table.names]
  obtain ⟨e', hextends, hrun, hagain, -⟩ := addToSet_adds hids hold hitems hvalues
  have hsome : [.int 0, .bool true] ⊆ moreLabels := by simp [moreLabels]
  exact ⟨⟨hids, hold, hitems, hvalues⟩, e', hrun, hextends.list, hagain _ hsome⟩

end Store

end DocumentApi
