import DocumentApi.Proofs.Grants

/-!
# Refused queries

* `Store.find_refused`, `Store.paginate_refused`: a query is refused only while it is planned.
* `Plan.sortOut_refused`, `Plan.sortOut_unknown`: it is refused for the first of its operators that
  there is not.
-/

namespace DocumentApi

theorem Condition.toColumn_unrefused (c : Condition) : Unrefused c.toColumn := by
  have hcast : ∀ (kind : ColumnKind) (v : Value), Unrefused (kind.castOperand v) := by
    intro kind v
    unfold ColumnKind.castOperand
    split
    · exact .ok _
    · dsimp only
      split
      · exact .error rfl
      · exact .ok _
    · exact .ok _
  unfold toColumn
  split
  · refine c.operand.iterateGiven_unrefused.bind fun values _ => ?_
    split
    · split
      · exact (Unrefused.mapM (hcast _) values).bind fun _ _ => .ok _
      · exact .ok _
    · exact .ok _
  · split
    · split
      · exact (hcast _ _).bind fun _ _ => .ok _
      · exact .ok _
    · exact .ok _

theorem Search.ofValue_unrefused (v : Value) : Unrefused (ofValue v) := by
  unfold ofValue
  split
  · exact .ok _
  · split
    · exact .error rfl
    · refine (Value.iterate_unrefused _).bind fun fields _ => ?_
      split
      · exact .ok _
      · split
        · exact .ok _
        · exact .error rfl
    · exact .error rfl

theorem Condition.matchesDocument_unrefused (c : Condition) (doc : Fields) :
    Unrefused (c.matchesDocument doc) := by
  have hamong : ∀ v operand : Value, Unrefused (isAmong v operand) := by
    intro v operand
    unfold isAmong
    split
    · exact .ok _
    · split
      · exact .ok _
      · split
        · exact .ok _
        · exact .error rfl
      · split
        · exact .error rfl
        · exact .error rfl
        · exact .ok _
        · exact .ok _
      · exact .error rfl
  unfold matchesDocument matchesValue holds
  split
  · exact .ok _
  · exact .ok _
  · exact hamong _ _
  · have := hamong (Fields.get doc c.key) c.operand
    cases hresult : isAmong (Fields.get doc c.key) c.operand with
    | error e => exact .error (this e hresult)
    | ok holds => exact .ok _
  · split
    · split <;> exact .ok _
    · exact .ok _
  · exact .ok _
  · exact .ok _
  · exact .ok _
  · exact .ok _

theorem Plan.run_unrefused (p : Plan) (collection : String) (entries : List Entry) :
    Unrefused (p.run collection entries) := by
  have hall : ∀ (doc : Fields) (cs : List Condition), Unrefused (Condition.allMatch doc cs) := by
    intro doc cs
    induction cs with
    | nil => exact .ok _
    | cons c cs ih =>
      refine (c.matchesDocument_unrefused doc).bind fun holds _ => ?_
      split
      · exact ih
      · exact .ok _
  have hkeep : ∀ docs : List Fields, Unrefused (keepMatching p.leftover docs) := by
    intro docs
    induction docs with
    | nil => exact .ok _
    | cons doc docs ih => exact (hall doc _).bind fun kept _ => ih.bind fun docs _ => .ok _
  exact hkeep _

theorem sortDocuments_unrefused (docs : List Fields) (keys : List SortKey) :
    Unrefused (sortDocuments docs keys) := by
  refine Unrefused.foldlM (fun docs key => ?_) _ docs
  unfold sortByKey
  split
  · exact .ok _
  · exact .error rfl

namespace Page

theorem countBefore_unrefused (page limit : Value) : Unrefused (countBefore page limit) := by
  unfold countBefore
  split
  · split
    · exact .ok _
    · exact .error rfl
  · exact .error rfl

theorem build_unrefused (docs : List Value) (total page limit : Value) :
    Unrefused (build docs total page limit) := by
  have hpast : ∀ v w : Value, Unrefused (isPast v w) := by
    intro v w
    unfold isPast
    split
    · exact .ok _
    · exact .error rfl
  refine Unrefused.bind ?_ fun pages _ => ?_
  · unfold countPages
    split
    · exact .ok _
    · split
      · split
        · exact .ok _
        · exact .error rfl
      · exact .error rfl
  · exact (hpast _ _).bind fun _ _ => (hpast _ _).bind fun _ _ => .ok _

end Page

namespace Store

theorem columnPage_unrefused (selected : List Entry) (page limit : Value) :
    Unrefused (columnPage selected page limit) := by
  refine (Page.countBefore_unrefused page limit).bind fun offset _ => ?_
  split
  · exact .error rfl
  · refine Unrefused.bind ?_ fun shown _ => Page.build_unrefused _ _ _ _
    unfold cut
    split
    · exact .error rfl
    · exact .ok _

theorem slicePage_unrefused (docs : List Fields) (page limit : Value) :
    Unrefused (slicePage docs page limit) := by
  refine (Page.countBefore_unrefused page limit).bind fun offset _ => ?_
  split
  · exact Page.build_unrefused _ _ _ _
  · exact .error rfl

variable {s : Store} {collection : String} {q : Query} {e : Error}

/-- A query is refused only while it is planned. -/
theorem find_refused (h : s.find collection q = .error e) (he : e.refuses) :
    Plan.make q.filter q.search = .error e := by
  refine refused_first (fun plan => ?_) h he
  refine (plan.run_unrefused collection s.entries).bind fun docs _ => ?_
  split
  · exact .ok _
  · exact sortDocuments_unrefused docs q.sort

theorem paginate_refused {page limit : Value} (h : s.paginate collection q page limit = .error e)
    (he : e.refuses) : Plan.make q.filter q.search = .error e := by
  cases hplan : Plan.make q.filter q.search with
  | error e' =>
    unfold paginate at h
    rw [hplan] at h
    cases h
    rfl
  | ok plan =>
    refine absurd h (Unrefused.not_error ?_ he)
    unfold paginate
    rw [hplan]
    show Unrefused (if _ then _ else _)
    split
    · exact columnPage_unrefused _ page limit
    · refine Unrefused.bind (fun e' hfind => ?_) fun docs _ => slicePage_unrefused docs page limit
      by_contra hrefuses
      have := find_refused hfind (by simpa using hrefuses)
      rw [hplan] at this
      cases this

end Store

/-- A condition has an operator that there is not. -/
def NamedCondition.isUnknown (c : NamedCondition) : Bool := (Operator.ofName? c.operator).isNone

theorem NamedCondition.known {c : NamedCondition} (h : ¬ c.isUnknown) :
    ∃ op, Operator.ofName? c.operator = some op :=
  Option.ne_none_iff_exists'.mp fun hnone => h (by rw [isUnknown, hnone]; rfl)

/-- The operand of a condition fits its operator: a list or nothing where a list is taken, and no
integer past the largest double. -/
structure NamedCondition.Fits (c : NamedCondition) : Prop where
  list : ∀ op, Operator.ofName? c.operator = some op → op.takesList →
    c.operand = .null ∨ ∃ items, c.operand = .list items
  number : ∀ i, c.operand = .int i ∨ (∃ items, c.operand = .list items ∧ .int i ∈ items) →
    (Double.ofInt i).isInfinite = false

namespace Plan

variable {named : List NamedCondition} {e : Error}

/-- A filter of conditions is planned before the search is read. -/
theorem make_refused {filter search : Value} (h : make filter search = .error e) (he : e.refuses) :
    ∃ named, namedConditions filter = .ok named ∧ sortOut named = .error e := by
  have hnames : Unrefused (namedConditions filter) := by
    unfold namedConditions
    split
    · exact .ok _
    · split
      · exact .ok _
      · exact .error rfl
  obtain ⟨named, hnamed, h⟩ := hnames.of_bind h he
  refine ⟨named, hnamed, refused_first (fun split => ?_) h he⟩
  exact (Search.ofValue_unrefused search).bind fun _ _ => .ok _

theorem read_known {c : NamedCondition} {op : Operator}
    (hop : Operator.ofName? c.operator = some op) :
    Condition.read c = .ok ⟨c.key, op, c.operand⟩ := by
  unfold Condition.read
  rw [hop]

theorem read_unknown {c : NamedCondition} (h : c.isUnknown) :
    Condition.read c = .error (.filterOperatorUnknown c.operator c.key) := by
  unfold Condition.read
  rw [Option.isNone_iff_eq_none.mp h]

/-- A filter is refused for the first of its operators that there is not. -/
theorem sortOut_refused (h : sortOut named = .error e) (he : e.refuses) :
    ∃ c, named.find? NamedCondition.isUnknown = some c ∧
      e = .filterOperatorUnknown c.operator c.key := by
  induction named with
  | nil => cases h
  | cons c named ih =>
    unfold sortOut at h
    by_cases hknown : c.isUnknown
    · rw [read_unknown hknown] at h
      cases h
      exact ⟨c, List.find?_cons_of_pos hknown, rfl⟩
    · obtain ⟨op, hop⟩ := NamedCondition.known hknown
      rw [read_known hop] at h
      obtain ⟨column?, -, h⟩ := (Condition.toColumn_unrefused _).of_bind h he
      have hrest := refused_first (fun split => ?_) h he
      · obtain ⟨c', hfirst, hcause⟩ := ih hrest
        exact ⟨c', (List.find?_cons_of_neg hknown).trans hfirst, hcause⟩
      · cases column? <;> exact .ok _

/-- The operand of a known operator is cast if it fits. -/
theorem toColumn_fits {c : NamedCondition} {op : Operator} (hfits : c.Fits)
    (hop : Operator.ofName? c.operator = some op) :
    ∃ column?, Condition.toColumn ⟨c.key, op, c.operand⟩ = .ok column? := by
  have hcast : ∀ (kind : ColumnKind) (v : Value),
      (∀ i, v = .int i → (Double.ofInt i).isInfinite = false) →
        ∃ w, kind.castOperand v = .ok w := by
    intro kind v hv
    unfold ColumnKind.castOperand
    split
    · exact ⟨_, rfl⟩
    · rename_i i
      dsimp only
      rw [hv i rfl]
      exact ⟨_, rfl⟩
    · exact ⟨_, rfl⟩
  unfold Condition.toColumn
  dsimp only
  by_cases htakes : op.takesList
  · rw [if_pos htakes]
    obtain ⟨items, hitems, hnumbers⟩ : ∃ items, c.operand.iterateGiven = .ok items ∧
        ∀ v ∈ items, ∀ i, v = .int i → (Double.ofInt i).isInfinite = false := by
      rcases hfits.list op hop htakes with hnull | ⟨items, hlist⟩
      · exact ⟨[], by rw [hnull]; rfl, nofun⟩
      · refine ⟨items, by rw [hlist]; cases items <;> rfl, fun v hv i hi => ?_⟩
        exact hfits.number i (Or.inr ⟨items, hlist, hi ▸ hv⟩)
    rw [hitems]
    dsimp only [bind, Except.bind]
    cases commonKind? items with
    | none => exact ⟨none, rfl⟩
    | some kind =>
      dsimp only
      split
      · obtain ⟨operands, hoperands⟩ := mapM_ok_of_forall fun v hv => hcast kind v (hnumbers v hv)
        rw [hoperands]
        exact ⟨_, rfl⟩
      · exact ⟨none, rfl⟩
  · rw [if_neg htakes]
    cases ColumnKind.ofValue? c.operand with
    | none => exact ⟨none, rfl⟩
    | some kind =>
      dsimp only
      split
      · obtain ⟨operand, hoperand⟩ := hcast kind c.operand fun i hi => hfits.number i (Or.inl hi)
        rw [hoperand]
        exact ⟨_, rfl⟩
      · exact ⟨none, rfl⟩

/-- Conditions before an operator that there is not are read first, so they have to fit. -/
theorem sortOut_unknown {c : NamedCondition} (hfits : ∀ c ∈ named, c.Fits)
    (h : named.find? NamedCondition.isUnknown = some c) :
    sortOut named = .error (.filterOperatorUnknown c.operator c.key) := by
  induction named with
  | nil => cases h
  | cons d named ih =>
    unfold sortOut
    by_cases hknown : d.isUnknown
    · rw [List.find?_cons_of_pos hknown] at h
      cases h
      rw [read_unknown hknown]
      rfl
    · rw [List.find?_cons_of_neg hknown] at h
      obtain ⟨op, hop⟩ := NamedCondition.known hknown
      obtain ⟨column?, hcolumn⟩ := toColumn_fits (hfits d List.mem_cons_self) hop
      rw [read_known hop]
      dsimp only [bind, Except.bind]
      rw [hcolumn]
      dsimp only
      rw [ih (fun c' hc' => hfits c' (List.mem_cons_of_mem _ hc')) h]

end Plan

end DocumentApi
