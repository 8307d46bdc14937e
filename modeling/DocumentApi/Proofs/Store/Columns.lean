import DocumentApi.Proofs.Number.Exact
import DocumentApi.Proofs.Steps
import DocumentApi.Proofs.Tables
import DocumentApi.Store.Documents

/-!
# Columns and documents

A condition that a column answers is answered as the documents themselves would, as long as each of
them has nothing or a value of the operand's kind in its field.

* `ColumnKind.memberOf_cast`, `ColumnKind.ordered_cast`: values of one kind are compared in their
  column as they are outside of it.
* `Condition.matchesValue_eq`: an operator on a value of a document, from its operands alone.
* `Condition.toColumn_holds`: a column condition and the condition that it answers agree.
-/

namespace DocumentApi

namespace Value

variable {v w : Value} {x y : Number}

theorem compare?_of_number (hv : v.number? = some x) (hw : w.number? = some y) :
    v.compare? w = some (Ord.compare x.toRat y.toRat) := by
  have hcompare : v.compare? w = some (x.compare y) := by
    cases v <;> first | (unfold compare?; rw [hv, hw]) | cases hv
  rw [hcompare, Number.compare_eq]

/-- A double holds the value if it is an integer. -/
def Exact (v : Value) : Prop := ∀ i, v = .int i → i.natAbs ≤ 2 ^ 53

/-- A null or a number, a boolean counted as one. -/
def NullOrNumber (v : Value) : Prop := v = null ∨ ∃ x, v.number? = some x

/-- A null or a text. -/
def NullOrText (v : Value) : Prop := v = null ∨ ∃ s, v = text s

end Value

namespace ColumnKind

variable {kind : ColumnKind} {v o o' : Value}

/-- A number or a boolean keeps its value in a column of its kind. -/
theorem cast_number (hv : ofValue? v = some kind) (hkind : kind ≠ .text) (hexact : v.Exact) :
    ∃ x y, v.number? = some x ∧ (kind.cast v).number? = some y ∧ y.toRat = x.toRat := by
  cases v with
  | bool b => cases hv; exact ⟨_, _, rfl, rfl, rfl⟩
  | int i => cases hv; exact ⟨_, _, rfl, rfl, (Double.ofInt_exact (hexact i rfl)).1⟩
  | float x => cases hv; exact ⟨_, _, rfl, rfl, rfl⟩
  | text s => cases hv; exact absurd rfl hkind
  | _ => cases hv

theorem castOperand_number (ho : ofValue? o = some kind) (hkind : kind ≠ .text)
    (hexact : o.Exact) : ∃ o' x y, kind.castOperand o = .ok o' ∧ o.number? = some x ∧
      o'.number? = some y ∧ y.toRat = x.toRat := by
  cases o with
  | bool b => cases ho; exact ⟨_, _, _, rfl, rfl, rfl, rfl⟩
  | int i =>
    cases ho
    obtain ⟨hvalue, hfinite⟩ := Double.ofInt_exact (hexact i rfl)
    refine ⟨.float (Double.ofInt i), _, _, ?_, rfl, rfl, hvalue⟩
    simp [castOperand, hfinite]
  | float x => cases ho; exact ⟨_, _, _, rfl, rfl, rfl, rfl⟩
  | text s => cases ho; exact absurd rfl hkind
  | _ => cases ho

theorem eq_text (h : ofValue? v = some .text) : ∃ s, v = .text s := by
  cases v <;> first | exact ⟨_, rfl⟩ | cases h

theorem castOperand_ok (ho : ofValue? o = some kind) (hexact : o.Exact) :
    ∃ o', kind.castOperand o = .ok o' := by
  by_cases hkind : kind = .text
  · subst hkind
    exact ⟨o, rfl⟩
  · obtain ⟨o', -, -, h, -⟩ := castOperand_number ho hkind hexact
    exact ⟨o', h⟩

/-- Two values of one kind compare in their column as they do outside of it. -/
theorem compare_cast (hv : ofValue? v = some kind) (ho : ofValue? o = some kind) (hve : v.Exact)
    (hoe : o.Exact) (hcast : kind.castOperand o = .ok o') :
    (kind.cast v).same o' = v.same o ∧ (kind.cast v).compare? o' = v.compare? o := by
  by_cases hkind : kind = .text
  · subst hkind
    obtain ⟨s, rfl⟩ := eq_text hv
    cases hcast
    exact ⟨rfl, rfl⟩
  · obtain ⟨x, x', hx, hx', heq⟩ := cast_number hv hkind hve
    obtain ⟨o'', y, y', hcast', hy, hy', heq'⟩ := castOperand_number ho hkind hoe
    rw [hcast] at hcast'
    cases hcast'
    rw [Value.same_of_number hx' hy', Value.same_of_number hx hy, Value.compare?_of_number hx' hy',
      Value.compare?_of_number hx hy, heq, heq']
    exact ⟨rfl, rfl⟩

theorem memberOf_cast {os os' : List Value} (hv : ofValue? v = some kind) (hve : v.Exact)
    (hos : ∀ o ∈ os, ofValue? o = some kind) (hoe : ∀ o ∈ os, o.Exact)
    (hcast : List.Forall₂ (fun o o' => kind.castOperand o = .ok o') os os') :
    (kind.cast v).memberOf os' = v.memberOf os := by
  unfold Value.memberOf
  induction hcast with
  | nil => rfl
  | cons ho _ ih =>
    rw [List.any_cons, List.any_cons,
      ih (fun o h => hos o (List.mem_cons_of_mem _ h)) fun o h => hoe o (List.mem_cons_of_mem _ h),
      (compare_cast hv (hos _ List.mem_cons_self) hve (hoe _ List.mem_cons_self) ho).1]

theorem ordered_cast {os os' : List Value} (test : Ordering → Bool) (hv : ofValue? v = some kind)
    (hve : v.Exact) (hos : ∀ o ∈ os, ofValue? o = some kind) (hoe : ∀ o ∈ os, o.Exact)
    (hcast : List.Forall₂ (fun o o' => kind.castOperand o = .ok o') os os') :
    (os'.any fun o => Condition.ordered test (kind.cast v) o) =
      os.any fun o => Condition.ordered test v o := by
  unfold Condition.ordered
  induction hcast with
  | nil => rfl
  | cons ho _ ih =>
    rw [List.any_cons, List.any_cons,
      ih (fun o h => hos o (List.mem_cons_of_mem _ h)) fun o h => hoe o (List.mem_cons_of_mem _ h),
      (compare_cast hv (hos _ List.mem_cons_self) hve (hoe _ List.mem_cons_self) ho).2]

theorem cast_isNull (hv : ofValue? v = some kind) : (kind.cast v).isNull = false := by
  cases v <;> cases hv <;> rfl

end ColumnKind

namespace ColumnCondition

variable {kind : ColumnKind} {v : Value} {op : Operator}

/-- An operator holds in a column of a value's own kind when it holds of the value itself. -/
theorem passes_cast {os os' : List Value} (hop : op ≠ .contains)
    (hv : ColumnKind.ofValue? v = some kind) (hve : v.Exact)
    (hos : ∀ o ∈ os, ColumnKind.ofValue? o = some kind) (hoe : ∀ o ∈ os, o.Exact)
    (hcast : List.Forall₂ (fun o o' => kind.castOperand o = .ok o') os os') :
    passes op (kind.cast v) os' = passes op v os := by
  have hmember := ColumnKind.memberOf_cast hv hve hos hoe hcast
  have hordered := fun test => ColumnKind.ordered_cast test hv hve hos hoe hcast
  cases op with
  | contains => exact absurd rfl hop
  | eq | isIn => exact hmember
  | ne | notIn => exact congrArg not hmember
  | gt | gte | lt | lte => exact hordered _

/-- Null differs from all operands of a column and has no order among them. -/
theorem passes_null {os : List Value} (hop : op ≠ .contains)
    (hos : ∀ o ∈ os, ColumnKind.ofValue? o = some kind) :
    passes op .null os = (op == .ne || op == .notIn) := by
  have hmember : Value.memberOf .null os = false := by
    refine List.any_eq_false.mpr fun o ho => ?_
    have := hos o ho
    cases o <;> first | exact Bool.false_ne_true | cases this
  have hordered : ∀ test, (os.any fun o => Condition.ordered test .null o) = false :=
    fun test => List.any_eq_false.mpr fun o _ => Bool.false_ne_true
  cases op with
  | contains => exact absurd rfl hop
  | eq | isIn => exact hmember
  | ne | notIn => exact congrArg not hmember
  | gt | gte | lt | lte => exact hordered _

end ColumnCondition

namespace Condition

variable {c : Condition}

/-- The values that a condition compares with. -/
def operands (c : Condition) : Except Error (List Value) :=
  if c.operator.takesList then c.operand.iterateGiven else .ok [c.operand]

/-- The condition has an operator other than `contains`, and a list or nothing for one that takes a
list. -/
structure Plain (c : Condition) : Prop where
  operator : c.operator ≠ .contains
  operand : c.operator.takesList → c.operand = .null ∨ ∃ items, c.operand = .list items

/-- An operator holds of a value as its operands say. -/
theorem matchesValue_eq (h : c.Plain) (v : Value) :
    ∃ os, c.operands = .ok os ∧ c.matchesValue v = .ok (ColumnCondition.passes c.operator v os) := by
  obtain ⟨key, operator, operand⟩ := c
  have hlist : operator.takesList → ∃ os, operand.iterateGiven = .ok os ∧
      isAmong v operand = .ok (v.memberOf os) := by
    intro htakes
    rcases h.operand htakes with hnull | ⟨items, hitems⟩
    · dsimp only at hnull
      subst hnull
      exact ⟨[], rfl, rfl⟩
    · dsimp only at hitems
      subst hitems
      cases items with
      | nil => exact ⟨[], rfl, rfl⟩
      | cons item items => exact ⟨item :: items, rfl, rfl⟩
  unfold operands matchesValue
  cases operator with
  | contains => exact absurd rfl h.operator
  | isIn =>
    obtain ⟨os, hos, hamong⟩ := hlist rfl
    exact ⟨os, hos, hamong⟩
  | notIn =>
    obtain ⟨os, hos, hamong⟩ := hlist rfl
    refine ⟨os, hos, ?_⟩
    show (isAmong v operand).map not = _
    rw [hamong]
    rfl
  | eq | ne | gt | gte | lt | lte =>
    refine ⟨[operand], rfl, ?_⟩
    simp [holds, ColumnCondition.passes, Value.memberOf]

theorem commonKind?_eq_some {os : List Value} {kind : ColumnKind} (h : commonKind? os = some kind) :
    ∀ o ∈ os, ColumnKind.ofValue? o = some kind := by
  cases os with
  | nil => cases h
  | cons v rest =>
    unfold commonKind? at h
    dsimp only at h
    cases hv : ColumnKind.ofValue? v with
    | none => rw [hv] at h; cases h
    | some k =>
      rw [hv] at h
      dsimp only at h
      split at h
      · rename_i hall
        cases h
        intro o ho
        rcases List.mem_cons.mp ho with rfl | ho
        · exact hv
        · simpa using List.all_eq_true.mp hall o ho
      · cases h

/-- What a column condition is made of. -/
theorem toColumn_eq_some {column : ColumnCondition} (h : c.toColumn = .ok (some column)) :
    column.key = c.key ∧ column.operator = c.operator ∧ hasColumn c.key column.kind ∧
      ∃ os, c.operands = .ok os ∧ (∀ o ∈ os, ColumnKind.ofValue? o = some column.kind) ∧
        List.Forall₂ (fun o o' => column.kind.castOperand o = .ok o') os column.operands := by
  unfold toColumn at h
  unfold operands
  by_cases htakes : c.operator.takesList
  · rw [if_pos htakes] at h ⊢
    cases hos : c.operand.iterateGiven with
    | error e => rw [hos] at h; cases h
    | ok os =>
      rw [hos] at h
      dsimp only [bind, Except.bind] at h
      cases hkind : commonKind? os with
      | none => rw [hkind] at h; cases h
      | some kind =>
        rw [hkind] at h
        dsimp only at h
        by_cases hcol : hasColumn c.key kind
        · rw [if_pos hcol] at h
          cases hcast : os.mapM kind.castOperand with
          | error e => rw [hcast] at h; cases h
          | ok os' =>
            rw [hcast] at h
            cases h
            exact ⟨rfl, rfl, hcol, os, rfl, commonKind?_eq_some hkind, mapM_ok_iff.mp hcast⟩
        · rw [if_neg hcol] at h
          cases h
  · rw [if_neg htakes] at h ⊢
    cases hkind : ColumnKind.ofValue? c.operand with
    | none => rw [hkind] at h; cases h
    | some kind =>
      rw [hkind] at h
      dsimp only at h
      by_cases hcol : (columnAnswers c.operator kind && hasColumn c.key kind) = true
      · rw [if_pos hcol] at h
        cases hcast : kind.castOperand c.operand with
        | error e => rw [hcast] at h; cases h
        | ok o' =>
          rw [hcast] at h
          cases h
          refine ⟨rfl, rfl, (Bool.and_eq_true_iff.mp hcol).2, [c.operand], rfl, ?_, .cons hcast .nil⟩
          intro o ho
          rw [List.mem_singleton.mp ho]
          exact hkind
      · rw [if_neg hcol] at h
        cases h

/-- Operands that doubles hold are cast without a failure. -/
theorem toColumn_ok (h : c.Plain) (hexact : ∀ os, c.operands = .ok os → ∀ o ∈ os, o.Exact) :
    ∃ column?, c.toColumn = .ok column? := by
  obtain ⟨os, hos, -⟩ := matchesValue_eq h .null
  have hexact := hexact os hos
  unfold operands at hos
  unfold toColumn
  by_cases htakes : c.operator.takesList
  · rw [if_pos htakes] at hos ⊢
    rw [hos]
    dsimp only [bind, Except.bind]
    cases hkind : commonKind? os with
    | none => exact ⟨none, rfl⟩
    | some kind =>
      dsimp only
      by_cases hcol : hasColumn c.key kind
      · rw [if_pos hcol]
        obtain ⟨ys, hys⟩ := mapM_ok_of_forall fun o ho =>
          ColumnKind.castOperand_ok (commonKind?_eq_some hkind o ho) (hexact o ho)
        rw [hys]
        exact ⟨_, rfl⟩
      · rw [if_neg hcol]
        exact ⟨none, rfl⟩
  · rw [if_neg htakes] at hos ⊢
    cases hos
    cases hkind : ColumnKind.ofValue? c.operand with
    | none => exact ⟨none, rfl⟩
    | some kind =>
      dsimp only
      split
      · obtain ⟨y, hy⟩ := ColumnKind.castOperand_ok hkind (hexact _ List.mem_cons_self)
        rw [hy]
        exact ⟨_, rfl⟩
      · exact ⟨none, rfl⟩

end Condition

theorem Entry.get_document_id (e : Entry) : Fields.get e.document "id" = .text e.id :=
  Fields.get_set_self e.fields "id" _

theorem Entry.get_document_of_ne {key : String} (e : Entry) (h : key ≠ "id") :
    Fields.get e.document key = Fields.get e.fields key :=
  Fields.get_set_ne h.symm

/-- The cell of an entry is the value in its document. -/
theorem ColumnCondition.cell_eq {column : ColumnCondition} (e : Entry)
    (h : hasColumn column.key column.kind) :
    column.cell e = column.kind.cast (Fields.get e.document column.key) := by
  unfold cell
  by_cases hid : column.key = "id"
  · rw [if_pos hid, hid, Entry.get_document_id]
    have hkind : column.kind = .text := by simpa [hasColumn, hid] using h
    rw [hkind]
    rfl
  · rw [if_neg hid, Entry.get_document_of_ne e hid]

/-- A column answers a condition on an entry whose value is null or of the operand's kind. -/
theorem Condition.toColumn_holds {c : Condition} {column : ColumnCondition} {e : Entry}
    (hplain : c.Plain) (hcol : c.toColumn = .ok (some column))
    (hexact : ∀ os, c.operands = .ok os → ∀ o ∈ os, o.Exact)
    (hstored : (Fields.get e.document c.key).Exact)
    (hkind : Fields.get e.document c.key = .null ∨
      ColumnKind.ofValue? (Fields.get e.document c.key) = some column.kind) :
    c.matchesDocument e.document = .ok (column.holds e) := by
  obtain ⟨hkey, hoperator, hcolumn, os, hos, hkinds, hcast⟩ := toColumn_eq_some hcol
  obtain ⟨os', hos', hmatches⟩ := matchesValue_eq hplain (Fields.get e.document c.key)
  rw [hos] at hos'
  cases hos'
  unfold matchesDocument
  rw [hmatches]
  have hcell : column.cell e = _ := ColumnCondition.cell_eq e (by rw [hkey]; exact hcolumn)
  unfold ColumnCondition.holds
  rw [hcell, hkey, hoperator]
  dsimp only
  rcases hkind with hnull | hkind
  · rw [hnull]
    exact congrArg Except.ok (ColumnCondition.passes_null hplain.operator hkinds)
  · rw [ColumnKind.cast_isNull hkind]
    exact congrArg Except.ok
      (ColumnCondition.passes_cast hplain.operator hkind hstored hkinds (hexact os hos) hcast).symm

end DocumentApi
