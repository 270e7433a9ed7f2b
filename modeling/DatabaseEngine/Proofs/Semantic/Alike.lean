import DatabaseEngine.Spec.Typing

/-!
# `DatabaseEngine.Proofs.Semantic.Alike`: what an evaluation cannot tell apart

A value carries a number for each type, of which its own type uses one; a NULL uses none. Rows that
differ in nothing else give an expression and a condition the same answers.

* `Value.Alike`: what of two values can be told apart.
* `exprEvaluateFrom_alike`, `evaluateConditionFrom_alike`: alike rows give alike values, and one
  truth.
-/

set_option autoImplicit false

namespace DatabaseEngine

/-! ### Values up to what their types do not use -/

/-- Two values that nothing but a look at a number of another type tells apart. -/
structure Value.Alike (a b : Value) : Prop where
  isNull : a.isNull = b.isNull
  type : a.isNull = false → a.type = b.type
  text : a.isNull = false → a.text = b.text
  int : a.isNull = false → a.type.intLike = true → a.intValue = b.intValue
  float : a.isNull = false → a.type = .TYPE_FLOAT → a.floatValue = b.floatValue

/-- Every value is like itself. -/
theorem Value.Alike.refl (a : Value) : a.Alike a :=
  ⟨rfl, fun _ => rfl, fun _ => rfl, fun _ _ => rfl, fun _ _ => rfl⟩

/-- Likeness goes both ways. -/
theorem Value.Alike.symm {a b : Value} (h : a.Alike b) : b.Alike a where
  isNull := h.isNull.symm
  type hb := (h.type (h.isNull.trans hb)).symm
  text hb := (h.text (h.isNull.trans hb)).symm
  int hb htype := by
    have ha := h.isNull.trans hb
    exact (h.int ha (by rw [h.type ha]; exact htype)).symm
  float hb htype := by
    have ha := h.isNull.trans hb
    exact (h.float ha ((h.type ha).trans htype)).symm

/-- Likeness carries over to a third value. -/
theorem Value.Alike.trans {a b c : Value} (h : a.Alike b) (h' : b.Alike c) : a.Alike c where
  isNull := h.isNull.trans h'.isNull
  type ha := (h.type ha).trans (h'.type (h.isNull.symm.trans ha))
  text ha := (h.text ha).trans (h'.text (h.isNull.symm.trans ha))
  int ha htype := by
    have hb := h.isNull.symm.trans ha
    exact (h.int ha htype).trans (h'.int hb (by rw [← h.type ha]; exact htype))
  float ha htype := by
    have hb := h.isNull.symm.trans ha
    exact (h.float ha htype).trans (h'.float hb ((h.type ha).symm.trans htype))

/-- Any two NULLs are alike. -/
theorem Value.Alike.ofNull {a b : Value} (ha : a.isNull = true) (hb : b.isNull = true) : a.Alike b where
  isNull := ha.trans hb.symm
  type h := by rw [ha] at h; cases h
  text h := by rw [ha] at h; cases h
  int h := by rw [ha] at h; cases h
  float h := by rw [ha] at h; cases h

/-! ### Alike rows -/

/-- Two answers that nothing tells apart. -/
inductive Agrees : Except ErrorCode Value → Except ErrorCode Value → Prop
  | error (code : ErrorCode) : Agrees (.error code) (.error code)
  | ok {a b : Value} (h : a.Alike b) : Agrees (.ok a) (.ok b)

/-- Computations that agree, followed by ones that agree on like values, agree. -/
theorem Agrees.bind {x y : Except ErrorCode Value} {f g : Value → Except ErrorCode Value}
    (h : Agrees x y) (hf : ∀ a b : Value, a.Alike b → Agrees (f a) (g b)) :
    Agrees (x >>= f) (y >>= g) := by
  cases h with
  | error code => exact .error code
  | ok h => exact hf _ _ h

/-- Every answer agrees with itself. -/
theorem Agrees.refl (answer : Except ErrorCode Value) : Agrees answer answer := by
  cases answer with
  | error code => exact .error code
  | ok value => exact .ok (.refl value)

section
variable {a b c d : Value}

/-- Like numbers are the same real. -/
theorem asReal_alike (h : a.Alike b) (hnull : a.isNull = false) (hnumber : a.type.isNumber = true) :
    asReal a = asReal b := by
  unfold asReal
  rw [← h.type hnull]
  by_cases hfloat : a.type = .TYPE_FLOAT
  · rw [if_pos hfloat, if_pos hfloat, h.float hnull hfloat]
  · have hint : a.type.intLike = true := by
      generalize a.type = type at hnumber hfloat
      cases type with
      | TYPE_INT => rfl
      | TYPE_FLOAT => exact absurd rfl hfloat
      | TYPE_TEXT => cases hnumber
      | TYPE_DATE => cases hnumber
    rw [if_neg hfloat, if_neg hfloat, h.int hnull hint]

/-- Negation answers alike on like values. -/
theorem negate_alike (h : a.Alike b) : Agrees (negate a) (negate b) := by
  unfold negate
  rw [← h.isNull]
  cases hnull : a.isNull with
  | true => exact .ok h
  | false =>
    rw [if_neg Bool.false_ne_true, if_neg Bool.false_ne_true, ← h.type hnull]
    by_cases hfloat : a.type = .TYPE_FLOAT
    · rw [if_pos hfloat, if_pos hfloat, h.float hnull hfloat]
      exact .refl _
    · rw [if_neg hfloat, if_neg hfloat]
      by_cases hint : a.type = .TYPE_INT
      · rw [h.int hnull (by rw [hint]; rfl)]
        exact .refl _
      · rw [if_pos hint, if_pos hint]
        exact .refl _

/-- Arithmetic answers alike on like values. -/
theorem combine_alike (op : ArithOp) (h : a.Alike b) (h' : c.Alike d) :
    Agrees (combine op a c) (combine op b d) := by
  unfold combine
  rw [← h.isNull, ← h'.isNull]
  cases hnull : a.isNull with
  | true => exact .ok (.ofNull rfl rfl)
  | false =>
    cases hnull' : c.isNull with
    | true => exact .ok (.ofNull rfl rfl)
    | false =>
      simp only [Bool.or_self, Bool.false_eq_true, if_false]
      rw [← h.type hnull, ← h'.type hnull']
      by_cases hnumber : a.type.isNumber = true ∧ c.type.isNumber = true
      · rw [asReal_alike h hnull hnumber.1, asReal_alike h' hnull' hnumber.2]
        by_cases hfloat : a.type = .TYPE_FLOAT ∨ c.type = .TYPE_FLOAT
        · rw [if_pos hfloat, if_pos hfloat]
          exact .refl _
        · rw [not_or] at hfloat
          have hint : ∀ type : ColType, type.isNumber = true → type ≠ .TYPE_FLOAT →
              type.intLike = true := by
            intro type hnumber hne
            cases type <;> first | rfl | exact absurd rfl hne | cases hnumber
          rw [h.int hnull (hint _ hnumber.1 hfloat.1), h'.int hnull' (hint _ hnumber.2 hfloat.2)]
          exact .refl _
      · have hbad : (!a.type.isNumber || !c.type.isNumber) = true := by
          rw [Bool.or_eq_true, Bool.not_eq_true', Bool.not_eq_true']
          rw [not_and_or, Bool.not_eq_true, Bool.not_eq_true] at hnumber
          exact hnumber
        rw [if_pos hbad, if_pos hbad]
        exact .refl _

/-- Comparing does not tell like values apart. -/
theorem compareValues_alike (h : a.Alike b) (h' : c.Alike d) (hnull : a.isNull = false)
    (hnull' : c.isNull = false) (htype : a.type = c.type) :
    compareValues a c = compareValues b d ∧ valuesSame a c = valuesSame b d := by
  unfold compareValues valuesSame
  rw [← h.type hnull, ← h.text hnull, ← h'.text hnull']
  by_cases hint : a.type.intLike = true
  · rw [if_pos hint, if_pos hint, if_pos hint, if_pos hint, h.int hnull hint,
      h'.int hnull' (by rw [← htype]; exact hint)]
    exact ⟨rfl, rfl⟩
  · rw [if_neg hint, if_neg hint, if_neg hint, if_neg hint]
    by_cases hfloat : a.type = .TYPE_FLOAT
    · rw [if_pos hfloat, if_pos hfloat, if_pos hfloat, if_pos hfloat, h.float hnull hfloat,
        h'.float hnull' (htype.symm.trans hfloat)]
      exact ⟨rfl, rfl⟩
    · rw [if_neg hfloat, if_neg hfloat, if_neg hfloat, if_neg hfloat]
      exact ⟨rfl, rfl⟩

/-- No comparison of a WHERE tells like values apart. -/
theorem comparePredicate_alike (op : CompareOp) (h : a.Alike b) (h' : c.Alike d) :
    comparePredicate a c op = comparePredicate b d op := by
  unfold comparePredicate
  rw [← h.isNull, ← h'.isNull]
  cases hnull : a.isNull with
  | true => rfl
  | false =>
    cases hnull' : c.isNull with
    | true => rfl
    | false =>
      rw [← h.type hnull, ← h'.type hnull', ← h.text hnull, ← h'.text hnull']
      by_cases htype : a.type = c.type
      · obtain ⟨hcompare, hsame⟩ := compareValues_alike h h' hnull hnull' htype
        rw [hcompare, hsame]
      · simp only [if_pos (show a.type ≠ c.type from htype)]

/-- Membership in a set does not tell like values apart. -/
theorem valueInResult_alike (set : List Value) (h : a.Alike b) :
    valueInResult a set = valueInResult b set := by
  unfold valueInResult
  rw [← h.isNull]
  have hcompare : ∀ candidate, comparePredicate a candidate .OP_EQ =
      comparePredicate b candidate .OP_EQ := fun candidate =>
    comparePredicate_alike .OP_EQ h (.refl candidate)
  simp only [hcompare]

end

/-- Rows that are alike up to the deepest column give an expression alike answers. -/
theorem exprEvaluateFrom_alike {fuel : Nat} {pool : ExprPool} {i : Int32} {row row' : Row}
    (h : ∀ slot : Nat, (slot : Int) ≤ exprDeepestFrom fuel pool i →
      (row.value slot).Alike (row'.value slot)) :
    Agrees (exprEvaluateFrom fuel pool i row) (exprEvaluateFrom fuel pool i row') := by
  induction fuel generalizing i with
  | zero => exact .error _
  | succ fuel ih =>
    unfold exprDeepestFrom at h
    unfold exprEvaluateFrom
    cases hn : pool.node i with
    | none => exact .error _
    | some n =>
      simp only [hn] at h
      cases hkind : n.kind with
      | EXPR_COLUMN =>
        simp only [hkind] at h ⊢
        split
        · exact .error _
        · next hslot => exact .ok (h n.slot.toNat (by omega))
      | EXPR_LITERAL =>
        simp only [hkind]
        exact .refl _
      | EXPR_NEGATE =>
        simp only [hkind] at h ⊢
        exact (ih h).bind fun a b halike => negate_alike halike
      | EXPR_BINARY =>
        simp only [hkind] at h ⊢
        refine (ih fun slot hs => h slot (by omega)).bind fun a b hleft => ?_
        exact (ih fun slot hs => h slot (by omega)).bind fun c d hright =>
          combine_alike n.op hleft hright

section
variable {cond : Condition} {sub : Subqueries} {row row' : Row} {n : Nat}

/-- A predicate that reads only the first columns needs only those to be alike. -/
theorem evaluatePredicate_alike {compare : Predicate}
    (hreads : compare.op ≠ .OP_EXISTS →
      exprDeepest cond.exprs compare.left < n ∧ exprDeepest cond.exprs compare.right < n)
    (halike : ∀ slot < n, (row.value slot).Alike (row'.value slot)) :
    evaluatePredicate cond.exprs sub compare row =
      evaluatePredicate cond.exprs sub compare row' := by
  unfold evaluatePredicate
  split
  · rfl
  · next hop =>
    obtain ⟨hdeep, hdeep'⟩ := hreads hop
    have hleft : Agrees (exprEvaluate cond.exprs compare.left row)
        (exprEvaluate cond.exprs compare.left row') :=
      exprEvaluateFrom_alike fun slot hs =>
        halike slot (Int.ofNat_lt.mp (Int.lt_of_le_of_lt hs hdeep))
    have hright : Agrees (exprEvaluate cond.exprs compare.right row)
        (exprEvaluate cond.exprs compare.right row') :=
      exprEvaluateFrom_alike fun slot hs =>
        halike slot (Int.ofNat_lt.mp (Int.lt_of_le_of_lt hs hdeep'))
    generalize exprEvaluate cond.exprs compare.left row = left at hleft ⊢
    generalize exprEvaluate cond.exprs compare.left row' = left' at hleft ⊢
    generalize exprEvaluate cond.exprs compare.right row = right at hright ⊢
    generalize exprEvaluate cond.exprs compare.right row' = right' at hright ⊢
    cases hleft with
    | error code => rfl
    | @ok a b h =>
      dsimp only
      rw [comparePredicate_alike compare.op h h, valueInResult_alike _ h]
      split
      · rfl
      · split
        · rfl
        · split
          · -- the first value of a scalar subquery
            split
            · rfl
            · exact comparePredicate_alike _ h (.refl _)
          · cases hright with
            | error code => rfl
            | ok h' => exact comparePredicate_alike _ h h'

/-- A tree says the same of rows that are alike in the columns that its comparisons read. -/
theorem evaluateConditionFrom_alike {fuel : Nat} {i : Int32}
    (hreads : ∀ compare ∈ comparisonsFrom cond.nodes fuel i, compare.op ≠ .OP_EXISTS →
      exprDeepest cond.exprs compare.left < n ∧ exprDeepest cond.exprs compare.right < n)
    (halike : ∀ slot < n, (row.value slot).Alike (row'.value slot)) :
    evaluateConditionFrom fuel cond sub i row = evaluateConditionFrom fuel cond sub i row' := by
  induction fuel generalizing i with
  | zero => rfl
  | succ fuel ih =>
    unfold comparisonsFrom at hreads
    unfold evaluateConditionFrom Condition.node
    cases hn : (if i < 0 then none else cond.nodes[i.toInt.toNat]?) with
    | none => rfl
    | some node =>
      simp only [hn] at hreads
      cases hkind : node.kind with
      | COND_COMPARE =>
        simp only [hkind] at hreads ⊢
        exact evaluatePredicate_alike (hreads node.compare (by simp)) halike
      | COND_NOT =>
        simp only [hkind] at hreads ⊢
        rw [ih hreads]
      | COND_AND =>
        simp only [hkind] at hreads ⊢
        rw [ih (i := node.left) fun compare hc => hreads compare (List.mem_append_left _ hc),
          ih (i := node.right) fun compare hc => hreads compare (List.mem_append_right _ hc)]
      | COND_OR =>
        simp only [hkind] at hreads ⊢
        rw [ih (i := node.left) fun compare hc => hreads compare (List.mem_append_left _ hc),
          ih (i := node.right) fun compare hc => hreads compare (List.mem_append_right _ hc)]

end

end DatabaseEngine
