import DatabaseEngine.Proofs.Semantic.Agreement
import Mathlib.Tactic.Push

/-!
# `DatabaseEngine.Proofs.Semantic.Sides`: when the two sides of a comparison have one type

The values that a row gives the two sides of a comparison, in a condition that was checked.

* `Checked.value_iff`: a side has a value other than NULL if and only if it has one when the
  expression alone is bound.
* `sides_agree_iff`: in a condition that was accepted, the sides of each comparison agree on every
  row if and only if the types are settled where it is checked.
* `sides_disagree`: an IN list and a subquery that were accepted and drop a row.
-/

set_option autoImplicit false

namespace DatabaseEngine

/-- Two values of one type, neither of them NULL, compare to TRUE or FALSE. -/
theorem comparePredicate_known {left right : Value} {op : CompareOp} (hl : left.isNull = false)
    (hr : right.isNull = false) (heq : left.type = right.type) :
    comparePredicate left right op ≠ .TRI_UNKNOWN := by
  have hbool : ∀ b, TriState.ofBool b ≠ .TRI_UNKNOWN := by decide
  unfold comparePredicate
  split
  · exact hbool _
  · split
    · exact hbool _
    · rw [if_neg (by simp [hl, hr]), if_neg (not_not.mpr heq)]
      have hfalse : TriState.TRI_FALSE ≠ .TRI_UNKNOWN := by decide
      cases op <;> first | exact hbool _ | exact hfalse

/-- A value of a type. -/
def sampleValue (type : ColType) : Value := { zeroValue with type := type }

/-- Subqueries that return one value each. -/
def sampleResults (types : Nat → ColType) : Subqueries := fun k => [sampleValue (types k)]

/-- The sample results of subqueries have the types asked for. -/
theorem sampleResults_of (types : Nat → ColType) : ResultsOf types (sampleResults types) := by
  intro k value hvalue
  obtain rfl := List.mem_singleton.mp hvalue
  exact .inr rfl

section
variable {table : CatalogNode} {cond : Condition} {pool : ExprPool} {compare : Predicate}
  {types : Nat → ColType}

/-- A predicate with operands is no EXISTS. -/
theorem Predicate.op_of_mem {i : Int32} (hi : i ∈ compare.operands) : compare.op ≠ .OP_EXISTS := by
  intro hop
  simp [Predicate.operands, hop] at hi

/-- The left side of any predicate but EXISTS is an operand. -/
theorem Predicate.left_mem (hop : compare.op ≠ .OP_EXISTS) : compare.left ∈ compare.operands := by
  unfold Predicate.operands
  rw [if_neg hop]
  split <;> simp

/-- The right side of a comparison that is not of two expressions is a pattern. -/
theorem Predicate.right_mem (hplain : compare.plain = false) (hi : compare.right ∈ compare.operands) :
    compare.right = compare.left ∨ compare.matchesPattern = true := by
  unfold Predicate.operands at hi
  split at hi
  · exact absurd hi (by simp)
  · split at hi
    · exact .inl (List.mem_singleton.mp hi)
    · rename_i hboth
      simp only [Bool.or_eq_true, not_or, Bool.not_eq_true] at hboth
      exact .inr (by simpa [Predicate.plain, hboth.1, hboth.2] using hplain)

/-- Each side of a comparison that was checked can be bound by itself. -/
theorem Checked.boundSides (hw : cond.Written) (h : Checked table cond (comparisons cond) pool)
    (hin : compare ∈ comparisons cond) {i : Int32} (hi : i ∈ compare.operands)
    (hno : exprLiteral cond.exprs i = none) {j : Int32} {n : ExprNode}
    (hreach : reaches cond.exprs i j = true)
    (hn : (boundSides table cond.exprs compare).node j = some n) : n.Bound table := by
  have hfirst : Settles table (fun _ => False) cond.exprs
      (exprResolve table cond.exprs compare.left).2 := exprResolve_settles
  have hleft : reaches cond.exprs compare.left j = true → n.Bound table := by
    intro hj
    obtain ⟨type, htype, -⟩ := h.leftTyped compare hin (compare.op_of_mem hi)
    have hok := exprResolve_ok (i := compare.left)
      (by rw [htype]; rfl)
    exact exprResolve_settles.bound (fun m hm => (exprResolve_stamped hok hj hm).bound) n hn
  rcases compare.operands_plain hi with rfl | rfl
  · exact hleft hreach
  · cases hplain : compare.plain with
    | true =>
      obtain ⟨type, htype⟩ := h.rightTyped compare hin hplain
      refine (exprResolve_stamped (exprResolve_ok ?_) (by rwa [hfirst.reaches_eq]) hn).bound
      rw [hfirst.typeOf_eq fun _ _ => id, htype]
      rfl
    | false =>
      rcases compare.right_mem hplain hi with hsame | hmatch
      · exact hleft (hsame ▸ hreach)
      · obtain ⟨v, hv, -⟩ :=
          (Option.any_eq_true _ _).mp ((hw.each compare hin).pattern hmatch)
        exact absurd (hv.symm.trans hno) (by simp)

/-- A side has a value other than NULL on a row if and only if the expression alone has. -/
theorem Checked.value_iff (hw : cond.Written) (h : Checked table cond (comparisons cond) pool)
    (hin : compare ∈ comparisons cond) {i : Int32} (hi : i ∈ compare.operands) (row : Row) :
    (∃ v, exprEvaluate pool i row = .ok v ∧ v.isNull = false) ↔
      ∃ v, exprEvaluate (DatabaseEngine.boundSides table cond.exprs compare) i row = .ok v ∧
        v.isNull = false := by
  have hbound : Settles table (fun _ => False) cond.exprs
      (DatabaseEngine.boundSides table cond.exprs compare) :=
    (exprResolve_settles.trans exprResolve_settles).mono fun j hj => hj.elim id id
  cases hlit : exprLiteral cond.exprs i with
  | some v =>
    obtain ⟨v₁, hv₁, hnull₁⟩ := h.settles.literal hlit
    obtain ⟨v₂, hv₂, hnull₂⟩ := hbound.literal hlit
    rw [exprEvaluate_literal hv₁, exprEvaluate_literal hv₂]
    simp only [Except.ok.injEq, exists_eq_left', hnull₁, hnull₂]
  | none =>
    have heq : exprEvaluate pool i row =
        exprEvaluate (DatabaseEngine.boundSides table cond.exprs compare) i row := by
      unfold exprEvaluate
      rw [h.settles.length, hbound.length]
      exact exprEvaluateFrom_congr h.settles hbound
        (fun j n hj hn => h.bound compare hin i hi j n hj hn)
        (fun j n hj hn => h.boundSides hw hin hi hlit hj hn)
        (fun j hj => not_fitted hw hin hi (.inr hlit) hj) fun _ _ => id
    rw [heq]

/-- The value of a side has the type of the pool. -/
theorem Checked.value_type (h : Checked table cond (comparisons cond) pool)
    (hin : compare ∈ comparisons cond) {i : Int32} (hi : i ∈ compare.operands) {row : Row}
    (hrow : RowOf table row) {v : Value} {type : ColType}
    (htype : typeOf table pool i = some type)
    (heval : exprEvaluate pool i row = .ok v) (hv : v.isNull = false) : v.type = type :=
  exprEvaluateFrom_typed hrow
    (fun j n hj hn => h.bound compare hin i hi j n
      (by rw [← h.settles.reaches_eq]; exact hj) hn) htype heval hv

/-- A comparison that is not silent has a row on which its left side has a value, and its right
side too unless it is a subquery. -/
theorem not_silent {exprs : ExprPool} (h : ¬Silent table exprs compare) :
    ∃ row, RowOf table row ∧
      (∃ v, exprEvaluate (DatabaseEngine.boundSides table exprs compare) compare.left row = .ok v ∧
        v.isNull = false) ∧
      (compare.takesSubquery = false →
        ∃ v, exprEvaluate (DatabaseEngine.boundSides table exprs compare) compare.right row = .ok v ∧
          v.isNull = false) := by
  unfold Silent at h
  push Not at h
  obtain ⟨row, hrow, v, hv, hnull, hright⟩ := h
  refine ⟨row, hrow, ⟨v, hv, hnull⟩, fun hsub => ?_⟩
  obtain ⟨w, hw, hwnull⟩ := hright hsub
  exact ⟨w, hw, by simpa using hwnull⟩

/-- What the right side of a comparison of two expressions gives. -/
theorem Predicate.mem_others {exprs : ExprPool} {sub : Subqueries} {row : Row} {right : Value}
    (h : compare.takesSubquery = false) :
    right ∈ compare.others exprs sub row ↔ exprEvaluate exprs compare.right row = .ok right := by
  simp only [Predicate.takesSubquery, Bool.or_eq_false_iff, decide_eq_false_iff_not] at h
  unfold Predicate.others
  rw [if_neg h.1, if_neg h.2]
  cases exprEvaluate exprs compare.right row with
  | error code => simp
  | ok value => simp [eq_comm]

/-- What a subquery gives has the type of its column. -/
theorem Predicate.type_of_mem_others {exprs : ExprPool} {sub : Subqueries} {row : Row}
    {right : Value} (h : compare.takesSubquery = true) (hsub : ResultsOf types sub)
    (hright : right ∈ compare.others exprs sub row) (hnull : right.isNull = false) :
    right.type = types compare.slot := by
  have hin : right ∈ sub compare.slot := by
    simp only [Predicate.takesSubquery, Bool.or_eq_true, decide_eq_true_eq] at h
    unfold Predicate.others at hright
    split at hright
    · exact hright
    · rename_i hop
      rw [if_pos (h.resolve_left hop)] at hright
      exact List.mem_of_mem_take hright
  exact (hsub _ right hin).resolve_left (by simp [hnull])

/-- The type of a side that is not bent at all. -/
theorem Checked.typeOf_kept (hw : cond.Written) (h : Checked table cond (comparisons cond) pool)
    (hin : compare ∈ comparisons cond) {i : Int32} (hi : i ∈ compare.operands)
    (hplain : compare.plain = false) : typeOf table pool i = typeOf table cond.exprs i :=
  h.settles.typeOf_eq fun _ hj => not_fitted hw hin hi (.inl hplain) hj

/-- Each side of a comparison has a type in the pool that the check leaves. -/
theorem Checked.typed (hw : cond.Written) (h : Checked table cond (comparisons cond) pool)
    (hin : compare ∈ comparisons cond) {i : Int32} (hi : i ∈ compare.operands) :
    ∃ type, typeOf table pool i = some type := by
  cases hlit : exprLiteral cond.exprs i with
  | some v =>
    obtain ⟨v', hv', -⟩ := h.settles.literal hlit
    exact ⟨v'.type, typeOf_literal hv'⟩
  | none =>
    rw [h.settles.typeOf_eq fun _ hj => not_fitted hw hin hi (.inr hlit) hj]
    rcases compare.operands_plain hi with rfl | rfl
    · obtain ⟨type, htype, -⟩ := h.leftTyped compare hin (compare.op_of_mem hi)
      exact ⟨type, htype⟩
    · cases hplain : compare.plain with
      | true => exact h.rightTyped compare hin hplain
      | false =>
        rcases compare.right_mem hplain hi with hsame | hmatch
        · obtain ⟨type, htype, -⟩ := h.leftTyped compare hin (compare.op_of_mem hi)
          exact ⟨type, by rw [hsame, htype]⟩
        · obtain ⟨v, hv, -⟩ :=
            (Option.any_eq_true _ _).mp ((hw.each compare hin).pattern hmatch)
          exact absurd (hv.symm.trans hlit) (by simp)

/-- A left side with a value is no literal NULL. -/
theorem Checked.present (h : Checked table cond (comparisons cond) pool) {row : Row} {left : Value}
    (hleft : exprEvaluate pool compare.left row = .ok left) (hnull : left.isNull = false) :
    Present cond.exprs compare.left := by
  intro v hv
  obtain ⟨v', hv', hsame⟩ := h.settles.literal hv
  rw [exprEvaluate_literal hv'] at hleft
  rw [← hsame, Except.ok.inj hleft, hnull]

end

/-- In a condition that was accepted, the two sides of every comparison have one type on every
row on which both have a value, if and only if the types are settled where the comparison is
checked, or one of the sides never has a value. -/
theorem sides_agree_iff (subqueries : List Subquery) (table : CatalogNode)
    (cond cond' : Condition) (types : Nat → ColType) (hw : cond.Written)
    (hcheck : checkCondition subqueries table cond = .ok cond') :
    (∀ row, RowOf table row → ∀ sub, ResultsOf types sub → ∀ compare ∈ comparisons cond',
        SidesAgree cond'.exprs sub compare row) ↔
      ∀ before compare after, comparisons cond = before ++ compare :: after →
        Settled table cond.exprs types before compare after ∨ Silent table cond.exprs compare := by
  obtain ⟨hchecked, hsame⟩ := checkCondition_checked hw hcheck
  rw [hsame]
  constructor
  · intro hall before compare after hsplit
    have hin : compare ∈ comparisons cond := by simp [hsplit]
    refine or_iff_not_imp_right.mpr fun hsilent => ⟨fun hone htakes => ?_, fun hplain => ?_⟩
    · -- the subquery of the comparison returns one value of its type
      have hplain : compare.plain = false := by simp [Predicate.plain, htakes]
      have hop : compare.op ≠ .OP_EXISTS := fun hop => by simp [Predicate.oneSided, hop] at hone
      have hmem := compare.left_mem hop
      obtain ⟨row, hrow, hleft, -⟩ := not_silent hsilent
      obtain ⟨left, hleft, hlnull⟩ := (hchecked.value_iff hw hin hmem row).mpr hleft
      obtain ⟨type, htype, -⟩ := hchecked.leftTyped compare hin hop
      have hsample : sampleValue (types compare.slot) ∈
          compare.others cond'.exprs (sampleResults types) row := by
        simp only [Predicate.takesSubquery, Bool.or_eq_true, decide_eq_true_eq] at htakes
        unfold Predicate.others
        split
        · exact List.mem_singleton_self _
        · rename_i hop
          rw [if_pos (htakes.resolve_left hop)]
          exact List.mem_singleton_self _
      have hagree := (hall row hrow _ (sampleResults_of types) compare hin hone left hleft hlnull
        _ hsample rfl).1
      rw [htype, ← hchecked.value_type hin hmem hrow
        ((hchecked.typeOf_kept hw hin hmem hplain).trans htype) hleft hlnull, hagree]
      rfl
    · obtain ⟨hmemL, hmemR⟩ := compare.mem_operands hplain
      obtain ⟨-, hone, htakes, -⟩ := compare.plain_op hplain
      obtain ⟨row, hrow, hleft, hright⟩ := not_silent hsilent
      obtain ⟨left, hleft, hlnull⟩ := (hchecked.value_iff hw hin hmemL row).mpr hleft
      obtain ⟨right, hright, hrnull⟩ :=
        (hchecked.value_iff hw hin hmemR row).mpr (hright htakes)
      have hpresent := hchecked.present hleft hlnull
      have hagree := (hall row hrow _ (sampleResults_of types) compare hin hone left hleft hlnull
        right ((compare.mem_others htakes).mpr hright) hrnull).1
      obtain ⟨typeL, htypeL⟩ := hchecked.typed hw hin hmemL
      obtain ⟨typeR, htypeR⟩ := hchecked.typed hw hin hmemR
      rw [← hchecked.right before compare after hsplit hplain hpresent, ← hsplit,
        ← hchecked.left compare hin hplain hpresent, htypeL, htypeR,
        ← hchecked.value_type hin hmemL hrow htypeL hleft hlnull,
        ← hchecked.value_type hin hmemR hrow htypeR hright hrnull, hagree]
  · intro hall row hrow sub hsub compare hin hone left hleft hlnull right hright hrnull
    obtain ⟨before, after, hsplit⟩ := List.append_of_mem hin
    suffices heq : left.type = right.type from ⟨heq, comparePredicate_known hlnull hrnull heq⟩
    have hop : compare.op ≠ .OP_EXISTS := fun hop => by simp [Predicate.oneSided, hop] at hone
    have hmem := compare.left_mem hop
    have hvalue := (hchecked.value_iff hw hin hmem row).mp ⟨left, hleft, hlnull⟩
    obtain ⟨typeL, htypeL⟩ := hchecked.typed hw hin hmem
    have hleftType := hchecked.value_type hin hmem hrow htypeL hleft hlnull
    cases htakes : compare.takesSubquery with
    | true =>
      have hplain : compare.plain = false := by simp [Predicate.plain, htakes]
      rw [compare.type_of_mem_others htakes hsub hright hrnull]
      rcases hall before compare after hsplit with ⟨hsettled, -⟩ | hsilent
      · have htype := hsettled hone htakes
        rw [← hchecked.typeOf_kept hw hin hmem hplain, htypeL] at htype
        rw [hleftType, Option.some.inj htype]
      · obtain ⟨v, hv, hnull⟩ := hvalue
        exact absurd ((hsilent row hrow v hv hnull).1.symm.trans htakes) (by simp)
    | false =>
      rw [compare.mem_others htakes] at hright
      have hmemR : compare.right ∈ compare.operands := by
        simp [Predicate.operands, hop, hone, htakes]
      obtain ⟨typeR, htypeR⟩ := hchecked.typed hw hin hmemR
      rw [hleftType, hchecked.value_type hin hmemR hrow htypeR hright hrnull]
      cases hplain : compare.plain with
      | true =>
        rcases hall before compare after hsplit with ⟨-, hsettled⟩ | hsilent
        · have hpresent := hchecked.present hleft hlnull
          have hfit := hsettled hplain
          rw [← hchecked.right before compare after hsplit hplain hpresent, ← hsplit,
            ← hchecked.left compare hin hplain hpresent, htypeL, htypeR] at hfit
          exact (Option.some.inj hfit).symm
        · obtain ⟨v, hv, hnull⟩ := hvalue
          obtain ⟨w, hw', hwnull⟩ :=
            (hchecked.value_iff hw hin hmemR row).mp ⟨right, hright, hrnull⟩
          exact absurd (((hsilent row hrow v hv hnull).2 w hw').symm.trans hwnull) (by simp)
      | false =>
        -- a text and its pattern
        have hmatch : compare.matchesPattern = true := by
          simpa [Predicate.plain, hone, htakes] using hplain
        obtain ⟨type, htype, htext⟩ := hchecked.leftTyped compare hin hop
        obtain ⟨v, hv, hvtype⟩ :=
          (Option.any_eq_true _ _).mp ((hw.each compare hin).pattern hmatch)
        rw [hchecked.typeOf_kept hw hin hmem hplain, htype, htext hone htakes hmatch] at htypeL
        rw [hchecked.typeOf_kept hw hin hmemR hplain, typeOf_literal hv] at htypeR
        rw [← Option.some.inj htypeL, ← Option.some.inj htypeR, of_decide_eq_true hvtype]

/-! ### A date among dates -/

/-- A table `t` with a date `d`. -/
def dayTable : CatalogNode :=
  { table := Name.ofBytes [116], cols := [plainColumn [100] .TYPE_DATE], check := none }

/-- The first of February 2024, as it is written. -/
def dayText : Value := setText [50, 48, 50, 52, 45, 48, 50, 45, 48, 49]

/-- A day, as a date. -/
def dayValue (days : Int32) : Value := { zeroValue with type := .TYPE_DATE, intValue := days }

/-- A literal as an operand. -/
def literalOperand (value : Value) : ExprNode :=
  { columnOperand [] with kind := .EXPR_LITERAL, literal := value }

/-- An equality, with a subquery or not. -/
def compareNode (left right subquery : Int32) : ConditionNode :=
  { kind := .COND_COMPARE, compare := { left, op := .OP_EQ, right, subquery },
    left := -1, right := -1 }

/-- An OR of two nodes. -/
def eitherNode (left right : Int32) : ConditionNode :=
  { compareNode 0 0 (-1) with kind := .COND_OR, left, right }

/-- `'2024-02-01' = d`. -/
def sameDay : Condition :=
  { present := true, root := 0, nodes := [compareNode 0 1 (-1)],
    exprs := [literalOperand dayText, columnOperand [100]] }

/-- `'2024-02-01' IN ('2024-02-01', d)`. -/
def dayAmong : Condition :=
  { present := true, root := 2
    nodes := [compareNode 0 1 (-1), compareNode 0 2 (-1), eitherNode 0 1],
    exprs := [literalOperand dayText, literalOperand dayText, columnOperand [100]] }

/-- `d = (SELECT ...)`, with a subquery that is accepted by itself. -/
def dayOfSelect : Condition :=
  { present := true, root := 0, nodes := [compareNode 0 (-1) 0], exprs := [columnOperand [100]] }

/-- A subquery that passes its own check. -/
def acceptedSubquery : Subquery :=
  { select := { tables := [], joins := false, combine := fun _ => [], finish := .ok,
                verdict := .ok () }
    scalar := true }

/-- The condition as the check leaves it. -/
def checkedAs (subqueries : List Subquery) (cond : Condition) : Condition :=
  (checkCondition subqueries dayTable cond).toOption.getD cond

/-- The row of one day is of its table's type. -/
theorem dayRow_typed : RowOf dayTable [dayValue 0] := by
  intro slot hslot
  obtain rfl : slot = 0 := Nat.lt_one_iff.mp hslot
  exact .inr rfl

/-- A comparison of a date with a literal date evaluates both to dates. -/
theorem sides_agree_sameDay :
    SidesAgree (checkedAs [] sameDay).exprs (fun _ => []) (compareNode 0 1 (-1)).compare
      [dayValue 0] := by
  refine (sides_agree_iff [] dayTable sameDay _ (fun _ => .TYPE_INT) (by decide +kernel) rfl).mpr
    ?_ _ dayRow_typed _ (fun _ _ hmem => absurd hmem List.not_mem_nil) _
    (List.mem_singleton_self _)
  intro before compare after hsplit
  -- there is one comparison, and its literal is fitted when it is checked
  have hone : [] ++ [(compareNode 0 1 (-1)).compare] = before ++ compare :: after := hsplit
  rcases append_singleton_split hone with ⟨rest, hrest⟩ | ⟨rfl, rfl⟩
  · exact absurd hrest (by simp)
  · refine .inl ⟨fun _ htakes => absurd htakes (by decide), fun _ => ?_⟩
    rw [← hsplit]
    rfl

/-- An IN list whose literal becomes a date at its second member, and a subquery that returns a
number for a date: both are accepted, a comparison of two values is UNKNOWN and the row is
dropped. -/
theorem sides_disagree :
    checkCondition [] dayTable dayAmong = .ok (checkedAs [] dayAmong) ∧
      RowOf dayTable [dayValue 0] ∧
      ¬SidesAgree (checkedAs [] dayAmong).exprs (fun _ => []) (compareNode 0 1 (-1)).compare
        [dayValue 0] ∧
      evaluateCondition (checkedAs [] dayAmong) (fun _ => []) [dayValue 0] = .TRI_UNKNOWN ∧
      checkCondition [acceptedSubquery] dayTable dayOfSelect =
        .ok (checkedAs [acceptedSubquery] dayOfSelect) ∧
      ¬SidesAgree (checkedAs [acceptedSubquery] dayOfSelect).exprs (fun _ => [zeroValue])
        (compareNode 0 (-1) 0).compare [dayValue 0] ∧
      evaluateCondition (checkedAs [acceptedSubquery] dayOfSelect) (fun _ => [zeroValue])
        [dayValue 0] = .TRI_UNKNOWN := by
  refine ⟨rfl, dayRow_typed, ?_, by decide +kernel, rfl, ?_, by decide +kernel⟩
  · intro h
    have hagree := h rfl (dayValue 19754) rfl rfl dayText (List.mem_singleton_self _) rfl
    exact absurd hagree.1 (by decide)
  · intro h
    have hagree := h rfl (dayValue 0) rfl rfl zeroValue (List.mem_singleton_self _) rfl
    exact absurd hagree.1 (by decide)

end DatabaseEngine
