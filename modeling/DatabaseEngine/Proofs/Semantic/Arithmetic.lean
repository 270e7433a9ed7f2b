import DatabaseEngine.Model.Machine
import DatabaseEngine.Proofs.Semantic.Operands
import DatabaseEngine.Spec.Arithmetic
import Mathlib.Algebra.Order.Ring.Abs

/-!
# `DatabaseEngine.Proofs.Semantic.Arithmetic`: integer arithmetic is exact or refused

* `exprEvaluate_run`: evaluating the pool is evaluating the tree that stands in it.
* `applyInts_spec`: one operation on two integers, exact or refused.
* `run_ints`: the same of a whole tree, by induction on it.
* `applyIntsInt_eq`: no operation on the way overflows its type.
* `exprEvaluate_ints`: all of it.
-/

set_option autoImplicit false

namespace DatabaseEngine

open Library

/-! ### From the pool to the tree -/

/-- The value of a tree. -/
def OperandTree.run : OperandTree → Except ErrorCode Value
  | .leaf value => .ok value
  | .negate inner => do
    let left ← inner.run
    DatabaseEngine.negate left
  | .binary op left right => do
    let left ← left.run
    let right ← right.run
    combine op left right

section
variable {pool : ExprPool} {row : Row} {i : Int32} {tree : OperandTree}

/-- A step of the walk over a tree that stands in the pool. -/
def Descends (pool : ExprPool) (row : Row) (child parent : Int32) : Prop :=
  ∃ node, pool.node parent = some node ∧
    (node.kind = .EXPR_NEGATE ∧ child = node.left ∨
      node.kind = .EXPR_BINARY ∧ (child = node.left ∨ child = node.right)) ∧
    (∃ tree, OperandTree.At pool row child tree) ∧ ∃ tree, OperandTree.At pool row parent tree

/-- Where a tree stands in the pool, there is a node. -/
theorem OperandTree.At.isSome (h : tree.At pool row i) : (pool.node i).isSome := by
  cases h with
  | column h | literal h | negate h | binary h => rw [h]; rfl

/-- Going down from the node of a tree comes to an end. -/
theorem OperandTree.At.acc (h : tree.At pool row i) : Acc (Descends pool row) i := by
  induction h with
  | column h hkind =>
    refine ⟨_, fun child ⟨node, hnode, hstep, _⟩ => ?_⟩
    cases h.symm.trans hnode
    rw [hkind] at hstep
    rcases hstep with ⟨hkind', -⟩ | ⟨hkind', -⟩ <;> cases hkind'
  | literal h hkind =>
    refine ⟨_, fun child ⟨node, hnode, hstep, _⟩ => ?_⟩
    cases h.symm.trans hnode
    rw [hkind] at hstep
    rcases hstep with ⟨hkind', -⟩ | ⟨hkind', -⟩ <;> cases hkind'
  | negate h hkind _ ih =>
    refine ⟨_, fun child ⟨node, hnode, hstep, _⟩ => ?_⟩
    cases h.symm.trans hnode
    rw [hkind] at hstep
    rcases hstep with ⟨-, rfl⟩ | ⟨hkind', -⟩
    · exact ih
    · cases hkind'
  | binary h hkind _ _ ihleft ihright =>
    refine ⟨_, fun child ⟨node, hnode, hstep, _⟩ => ?_⟩
    cases h.symm.trans hnode
    rw [hkind] at hstep
    rcases hstep with ⟨hkind', -⟩ | ⟨-, rfl | rfl⟩
    · cases hkind'
    · exact ihleft
    · exact ihright

/-- Where nothing leads to a node from a tree, the node starts no walk. -/
theorem descends_wellFounded (pool : ExprPool) (row : Row) : WellFounded (Descends pool row) := by
  refine ⟨fun i => ⟨i, fun child ⟨_, _, _, ⟨_, htree⟩, _⟩ => htree.acc⟩⟩

/-- A walk with more fuel than the rank of its start reads the whole tree. -/
theorem exprEvaluateFrom_run {rank : Int32 → Nat}
    (hrank : ∀ child parent, Descends pool row child parent → rank child < rank parent)
    (h : tree.At pool row i) (fuel : Nat) (hfuel : rank i < fuel) :
    exprEvaluateFrom fuel pool i row = tree.run := by
  induction h generalizing fuel with
  | column h hkind hslot =>
    obtain ⟨fuel, rfl⟩ : ∃ n, fuel = n + 1 := ⟨fuel - 1, by omega⟩
    unfold exprEvaluateFrom
    rw [h]
    simp only [hkind]
    rw [if_neg (by omega)]
    rfl
  | literal h hkind =>
    obtain ⟨fuel, rfl⟩ : ∃ n, fuel = n + 1 := ⟨fuel - 1, by omega⟩
    unfold exprEvaluateFrom
    rw [h]
    simp only [hkind]
    rfl
  | negate h hkind hinner ih =>
    obtain ⟨fuel, rfl⟩ : ∃ n, fuel = n + 1 := ⟨fuel - 1, by omega⟩
    have hlt := hrank _ _ ⟨_, h, .inl ⟨hkind, rfl⟩, ⟨_, hinner⟩, ⟨_, .negate h hkind hinner⟩⟩
    unfold exprEvaluateFrom
    rw [h]
    simp only [hkind]
    rw [ih fuel (by omega)]
    rfl
  | binary h hkind hleft hright ihleft ihright =>
    obtain ⟨fuel, rfl⟩ : ∃ n, fuel = n + 1 := ⟨fuel - 1, by omega⟩
    have htree := OperandTree.At.binary h hkind hleft hright
    have hlt := hrank _ _ ⟨_, h, .inr ⟨hkind, .inl rfl⟩, ⟨_, hleft⟩, ⟨_, htree⟩⟩
    have hlt' := hrank _ _ ⟨_, h, .inr ⟨hkind, .inr rfl⟩, ⟨_, hright⟩, ⟨_, htree⟩⟩
    unfold exprEvaluateFrom
    rw [h]
    simp only [hkind]
    rw [ihleft fuel (by omega), ihright fuel (by omega)]
    rfl

/-- The fuel is enough for every tree: a walk meets each node of the pool once. -/
theorem exprEvaluate_run (h : tree.At pool row i) : exprEvaluate pool i row = tree.run := by
  obtain ⟨rank, hbelow, hrank⟩ := @exists_rank Int32 (fun i => (pool.node i).isSome)
    (Descends pool row) pool.length (fun i => i.toInt.toNat) (fun _ hi => (index_lt hi).2)
    (fun _ _ hi hj hsame => toNat_inj (index_lt hi).1 (index_lt hj).1 hsame)
    (fun child parent ⟨_, _, _, ⟨_, htree⟩, _⟩ => htree.isSome) (descends_wellFounded pool row)
  have hlow := hbelow i h.isSome
  exact exprEvaluateFrom_run hrank h _ (by omega)

end

/-! ### One operation -/

/-- The two errors of arithmetic. -/
def ErrorCode.Arithmetic (code : ErrorCode) : Prop :=
  code = .VALUE_OUT_OF_RANGE ∨ code = .EXEC_DIVIDE_BY_ZERO

/-- An `int` of a value. -/
def Value.IsInt (value : Value) (n : Int) : Prop :=
  value.isNull = false ∧ value.type = .TYPE_INT ∧ value.intValue.toInt = n

/-- A number an `int` holds comes through as it is. -/
theorem narrow_inRange {n : Int} (h : InRange n) : ∃ value, narrow n = .ok value ∧ value.IsInt n := by
  obtain ⟨hlow, hhigh⟩ := h
  refine ⟨{ zeroValue with intValue := Int32.ofInt n }, ?_, rfl, rfl, ?_⟩
  · exact if_neg (by omega)
  · exact Int32.toInt_ofInt_of_le (by omega) (by omega)

/-- A number an `int` does not hold is refused. -/
theorem narrow_outOfRange {n : Int} (h : ¬InRange n) : narrow n = .error .VALUE_OUT_OF_RANGE := by
  unfold InRange at h
  exact if_pos (by omega)

/-- Only 0 is the number 0. -/
theorem int32_zero {a : Int32} (h : a.toInt = 0) : a = 0 := Int32.toInt_inj.mp (h.trans rfl)

/-- A sum, a difference or a product. -/
theorem applyInts_wide {op : ArithOp} (hop : ¬(op = .ARITH_DIV ∨ op = .ARITH_MOD)) (a b : Int32) :
    applyInts op a b = narrow (op.exact a.toInt b.toInt) := by
  cases op with
  | ARITH_ADD | ARITH_SUB | ARITH_MUL => rfl
  | ARITH_DIV => exact absurd (.inl rfl) hop
  | ARITH_MOD => exact absurd (.inr rfl) hop

/-- A quotient or a remainder. -/
theorem applyInts_quotient {op : ArithOp} (hop : op = .ARITH_DIV ∨ op = .ARITH_MOD) (a b : Int32) :
    applyInts op a b =
      if b = 0 then .error .EXEC_DIVIDE_BY_ZERO
      else if a.toInt = -2147483648 ∧ b.toInt = -1 then .error .VALUE_OUT_OF_RANGE
      else narrow (op.exact a.toInt b.toInt) := by
  rcases hop with rfl | rfl <;> rfl

/-- The division that 32 bits do not hold the result of, and the remainder that goes with it. -/
theorem refuses_lowest {op : ArithOp} (hop : op = .ARITH_DIV ∨ op = .ARITH_MOD) {a b : Int}
    (h : a = -2147483648 ∧ b = -1) : op.Refuses a b := by
  obtain ⟨rfl, rfl⟩ := h
  rcases hop with rfl | rfl
  · exact .inr (.inl fun hrange => absurd hrange.2 (by decide))
  · exact .inr (.inr ⟨rfl, rfl, rfl⟩)

/-- Where the operator refuses nothing, the exact result is narrowed. -/
theorem applyInts_accepts {op : ArithOp} {a b : Int32} (h : ¬op.Refuses a.toInt b.toInt) :
    applyInts op a b = narrow (op.exact a.toInt b.toInt) := by
  by_cases hop : op = .ARITH_DIV ∨ op = .ARITH_MOD
  · have hb : b ≠ 0 := by
      rintro rfl
      exact h (.inl ⟨hop, rfl⟩)
    rw [applyInts_quotient hop, if_neg hb, if_neg fun hlow => h (refuses_lowest hop hlow)]
  · exact applyInts_wide hop a b

/-- Where it refuses, the answer is an error of arithmetic. -/
theorem applyInts_refuses {op : ArithOp} {a b : Int32} (h : op.Refuses a.toInt b.toInt) :
    ∃ code, code.Arithmetic ∧ applyInts op a b = .error code := by
  by_cases hop : op = .ARITH_DIV ∨ op = .ARITH_MOD
  · rw [applyInts_quotient hop]
    by_cases hb : b = 0
    · exact ⟨_, .inr rfl, if_pos hb⟩
    · rw [if_neg hb]
      by_cases hlow : a.toInt = -2147483648 ∧ b.toInt = -1
      · exact ⟨_, .inl rfl, if_pos hlow⟩
      · -- only the range is left to refuse
        rw [if_neg hlow]
        rcases h with ⟨-, hzero⟩ | hrange | ⟨-, hlow'⟩
        · exact absurd (int32_zero hzero) hb
        · exact ⟨_, .inl rfl, narrow_outOfRange hrange⟩
        · exact absurd hlow' hlow
  · rcases h with ⟨hop', -⟩ | hrange | ⟨hop', -⟩
    · exact absurd hop' hop
    · exact ⟨_, .inl rfl, (applyInts_wide hop a b).trans (narrow_outOfRange hrange)⟩
    · exact absurd (.inr hop') hop

/-! ### A tree -/

/-- What the walk over a tree comes to: an error, NULL, or the exact value. -/
inductive OperandTree.Comes (tree : OperandTree) : Except ErrorCode Value → Prop
  | refused {code : ErrorCode} (h : tree.Errs) (hcode : code.Arithmetic) : Comes tree (.error code)
  | null {value : Value} (h : ¬tree.Errs) (hideal : tree.ideal = none)
      (hnull : value.isNull = true) : Comes tree (.ok value)
  | int {value : Value} {n : Int} (h : ¬tree.Errs) (hideal : tree.ideal = some n)
      (hvalue : value.IsInt n) : Comes tree (.ok value)

/-- A value that comes out is the exact result, and nothing went wrong below. -/
theorem Comes.sound {tree : OperandTree} {value : Value} (h : tree.Comes (.ok value)) :
    ¬tree.Errs ∧ (value.isNull = true ∧ tree.ideal = none ∨
      ∃ n, value.IsInt n ∧ tree.ideal = some n) := by
  cases h with
  | null herrs hideal hnull => exact ⟨herrs, .inl ⟨hnull, hideal⟩⟩
  | int herrs hideal hvalue => exact ⟨herrs, .inr ⟨_, hvalue, hideal⟩⟩

/-- An operator over two operands that came to a value or to NULL. -/
theorem combine_ints {op : ArithOp} {left right : OperandTree} {value value' : Value}
    (hleft : left.Comes (.ok value)) (hright : right.Comes (.ok value')) :
    (OperandTree.binary op left right).Comes (combine op value value') := by
  obtain ⟨herrs, hvalue⟩ := Comes.sound hleft
  obtain ⟨herrs', hvalue'⟩ := Comes.sound hright
  by_cases hnull : value.isNull = true ∨ value'.isNull = true
  · -- NULL is contagious
    have heq : combine op value value' =
        .ok (setNull (if value.isNull then value.type else value'.type)) := by
      unfold combine
      rw [if_pos (by simpa using hnull)]
    have hnone : left.ideal = none ∨ right.ideal = none := by
      rcases hvalue with ⟨-, hideal⟩ | ⟨n, hint, -⟩
      · exact .inl hideal
      · rcases hvalue' with ⟨-, hideal'⟩ | ⟨n', hint', -⟩
        · exact .inr hideal'
        · rw [hint.1, hint'.1] at hnull
          exact absurd hnull (by decide)
    rw [heq]
    refine .null ?_ ?_ rfl
    · rintro (h | h | ⟨-, -, a, b, ha, hb, -⟩)
      · exact herrs h
      · exact herrs' h
      · rw [ha, hb] at hnone
        exact absurd hnone (by simp)
    · unfold OperandTree.ideal
      rcases hnone with hnone | hnone
      · rw [hnone]
        rfl
      · rw [hnone]
        cases left.ideal <;> rfl
  · rw [not_or] at hnull
    obtain ⟨n, ⟨hfull, htype, hn⟩, hideal⟩ := hvalue.resolve_left fun h => hnull.1 h.1
    obtain ⟨n', ⟨hfull', htype', hn'⟩, hideal'⟩ := hvalue'.resolve_left fun h => hnull.2 h.1
    have heq : combine op value value' = applyInts op value.intValue value'.intValue := by
      unfold combine
      rw [hfull, hfull', htype, htype']
      rfl
    have htotal : (OperandTree.binary op left right).ideal = some (op.exact n n') := by
      unfold OperandTree.ideal
      rw [hideal, hideal']
      rfl
    rw [heq]
    by_cases hrefuses : op.Refuses n n'
    · obtain ⟨code, hcode, herror⟩ := applyInts_refuses (a := value.intValue) (b := value'.intValue)
        (by rw [hn, hn']; exact hrefuses)
      rw [herror]
      exact .refused (.inr (.inr ⟨herrs, herrs', n, n', hideal, hideal', hrefuses⟩)) hcode
    · have hrange : InRange (op.exact n n') := by
        by_contra hout
        exact hrefuses (.inr (.inl hout))
      obtain ⟨result, hresult, hint⟩ := narrow_inRange hrange
      rw [applyInts_accepts (by rw [hn, hn']; exact hrefuses), hn, hn', hresult]
      refine .int ?_ htotal hint
      rintro (h | h | ⟨-, -, a, b, ha, hb, hbad⟩)
      · exact herrs h
      · exact herrs' h
      · rw [hideal] at ha
        rw [hideal'] at hb
        cases ha
        cases hb
        exact hrefuses hbad

/-- Every tree of integers comes to its exact result, to NULL or to an error. -/
theorem run_ints {tree : OperandTree} (h : tree.Ints) : tree.Comes tree.run := by
  induction tree with
  | leaf value =>
    cases hnull : value.isNull with
    | true => exact .null id (if_pos hnull) hnull
    | false =>
      have htype : value.type = .TYPE_INT := h.resolve_left (by rw [hnull]; decide)
      exact .int id (if_neg (by rw [hnull]; decide)) ⟨hnull, htype, rfl⟩
  | negate inner ih =>
    have hinner := ih h
    unfold OperandTree.run
    cases hrun : inner.run with
    | error code =>
      rw [hrun] at hinner
      obtain ⟨herrs, hcode⟩ := hinner
      exact .refused (.inl herrs) hcode
    | ok value =>
      rw [hrun] at hinner
      show OperandTree.Comes _ (DatabaseEngine.negate value)
      cases hinner with
      | null herrs hideal hnull =>
        have heq : DatabaseEngine.negate value = .ok value := if_pos hnull
        rw [heq]
        refine .null ?_ (by unfold OperandTree.ideal; rw [hideal]; rfl) hnull
        rintro (h | ⟨-, a, ha, -⟩)
        · exact herrs h
        · rw [hideal] at ha
          cases ha
      | @int _ n herrs hideal hvalue =>
        obtain ⟨hnull, htype, hn⟩ := hvalue
        have heq : DatabaseEngine.negate value = applyInts .ARITH_SUB 0 value.intValue := by
          unfold DatabaseEngine.negate
          rw [if_neg (by rw [hnull]; decide), if_neg (by rw [htype]; decide),
            if_neg (not_not.mpr htype)]
        have hexact : ArithOp.exact .ARITH_SUB (0 : Int32).toInt value.intValue.toInt = -n := by
          show (0 : Int32).toInt - value.intValue.toInt = -n
          have hzero : (0 : Int32).toInt = 0 := rfl
          omega
        have htotal : OperandTree.ideal (.negate inner) = some (-n) := by
          unfold OperandTree.ideal
          rw [hideal]
          rfl
        rw [heq]
        by_cases hrange : InRange (-n)
        · have hok : ¬ArithOp.Refuses .ARITH_SUB (0 : Int32).toInt value.intValue.toInt := by
            rintro (⟨h | h, -⟩ | h | ⟨h, -⟩)
            · cases h
            · cases h
            · rw [hexact] at h
              exact h hrange
            · cases h
          obtain ⟨result, hresult, hint⟩ := narrow_inRange hrange
          rw [applyInts_accepts hok, hexact, hresult]
          refine .int ?_ htotal hint
          rintro (h | ⟨-, a, ha, hout⟩)
          · exact herrs h
          · rw [hideal] at ha
            cases ha
            exact hout hrange
        · have hbad : ArithOp.Refuses .ARITH_SUB (0 : Int32).toInt value.intValue.toInt :=
            .inr (.inl (by rw [hexact]; exact hrange))
          obtain ⟨code, hcode, herror⟩ := applyInts_refuses hbad
          rw [herror]
          exact .refused (.inr ⟨herrs, n, hideal, hrange⟩) hcode
  | binary op left right ihleft ihright =>
    have hleft := ihleft h.1
    have hright := ihright h.2
    unfold OperandTree.run
    cases hrun : left.run with
    | error code =>
      rw [hrun] at hleft
      obtain ⟨herrs, hcode⟩ := hleft
      exact .refused (.inl herrs) hcode
    | ok value =>
      rw [hrun] at hleft
      cases hrun' : right.run with
      | error code =>
        rw [hrun'] at hright
        obtain ⟨herrs, hcode⟩ := hright
        exact .refused (.inr (.inl herrs)) hcode
      | ok value' =>
        rw [hrun'] at hright
        show OperandTree.Comes _ (combine op value value')
        exact combine_ints hleft hright

/-! ### The width of the types -/

/-- A product of two `int`s fits a `long long`. -/
theorem product_fits (a b : Int32) :
    -9223372036854775808 ≤ a.toInt * b.toInt ∧ a.toInt * b.toInt ≤ 9223372036854775807 := by
  have ha : |a.toInt| ≤ 2147483648 := abs_le.mpr ⟨a.le_toInt, by have := a.toInt_lt; omega⟩
  have hb : |b.toInt| ≤ 2147483648 := abs_le.mpr ⟨b.le_toInt, by have := b.toInt_lt; omega⟩
  have hproduct : |a.toInt * b.toInt| ≤ 2147483648 * 2147483648 := by
    rw [abs_mul]
    exact mul_le_mul ha hb (abs_nonneg _) (by decide)
  have := abs_le.mp hproduct
  omega

/-- A quotient fits an `int`, but for the one that does not. -/
theorem quotient_fits {a b : Int32} (h : ¬(a.toInt = -2147483648 ∧ b.toInt = -1)) :
    -2147483648 ≤ a.toInt.tdiv b.toInt ∧ a.toInt.tdiv b.toInt ≤ 2147483647 := by
  have ha := a.le_toInt
  have ha' := a.toInt_lt
  have hquotient : (a.toInt.tdiv b.toInt).natAbs = a.toInt.natAbs / b.toInt.natAbs :=
    Int.natAbs_tdiv ..
  have hle : a.toInt.natAbs / b.toInt.natAbs ≤ a.toInt.natAbs := Nat.div_le_self ..
  by_cases hone : b.toInt.natAbs = 1
  · rcases Int.natAbs_eq b.toInt with hb | hb
    · have hb : b.toInt = 1 := by omega
      rw [hb, Int.tdiv_one]
      omega
    · have hb : b.toInt = -1 := by omega
      rw [hb, Int.tdiv_neg, Int.tdiv_one]
      omega
  · -- a larger divisor halves the number at least
    have hhalf : a.toInt.natAbs / b.toInt.natAbs ≤ a.toInt.natAbs / 2 := by
      rcases Nat.eq_zero_or_pos b.toInt.natAbs with hzero | hpos
      · rw [hzero, Nat.div_zero]
        exact Nat.zero_le _
      · exact Nat.div_le_div_left (by omega) (by decide)
    omega

/-- A remainder is always an `int`. -/
theorem remainder_fits {a b : Int32} (hb : b ≠ 0) :
    -2147483648 ≤ a.toInt.tmod b.toInt ∧ a.toInt.tmod b.toInt ≤ 2147483647 := by
  have hne : b.toInt ≠ 0 := fun h => hb (int32_zero h)
  have hlow := b.le_toInt
  have hhigh := b.toInt_lt
  have hmod : (a.toInt.tmod b.toInt).natAbs = a.toInt.natAbs % b.toInt.natAbs :=
    Int.natAbs_tmod ..
  have hlt : a.toInt.natAbs % b.toInt.natAbs < b.toInt.natAbs := Nat.mod_lt _ (by omega)
  omega

/-- No operation of `applyInts` overflows. -/
theorem applyIntsInt_eq (op : ArithOp) (a b : Int32) :
    applyIntsInt op a b = some (applyInts op a b) := by
  have ha := a.le_toInt
  have ha' := a.toInt_lt
  have hb := b.le_toInt
  have hb' := b.toInt_lt
  cases op with
  | ARITH_ADD =>
    unfold applyIntsInt
    rw [show inLong (a.toInt + b.toInt) = some _ from if_pos (by omega)]
    rfl
  | ARITH_SUB =>
    unfold applyIntsInt
    rw [show inLong (a.toInt - b.toInt) = some _ from if_pos (by omega)]
    rfl
  | ARITH_MUL =>
    unfold applyIntsInt
    rw [show inLong (a.toInt * b.toInt) = some _ from if_pos (product_fits a b)]
    rfl
  | ARITH_DIV =>
    rw [applyInts_quotient (.inl rfl)]
    dsimp only [applyIntsInt]
    split
    · rfl
    · split
      · rfl
      · next hlow =>
        rw [show inInt (a.toInt.tdiv b.toInt) = some _ from if_pos (quotient_fits hlow)]
        rfl
  | ARITH_MOD =>
    rw [applyInts_quotient (.inr rfl)]
    dsimp only [applyIntsInt]
    split
    · rfl
    · next hzero =>
      split
      · rfl
      · next hlow =>
        rw [show inInt (a.toInt.tdiv b.toInt) = some _ from if_pos (quotient_fits hlow),
          show inInt (a.toInt.tmod b.toInt) = some _ from if_pos (remainder_fits hzero)]
        rfl

/-! ### The whole -/

/-- Only a tree with a NULL in it has no exact result. -/
theorem ideal_none_iff (tree : OperandTree) : tree.ideal = none ↔ tree.hasNull = true := by
  induction tree with
  | leaf value =>
    unfold OperandTree.ideal OperandTree.hasNull
    cases value.isNull <;> simp
  | negate inner ih =>
    unfold OperandTree.ideal OperandTree.hasNull
    rw [← ih]
    cases inner.ideal <;> simp
  | binary op left right ihleft ihright =>
    unfold OperandTree.ideal OperandTree.hasNull
    rw [Bool.or_eq_true, ← ihleft, ← ihright]
    cases left.ideal <;> cases right.ideal <;> simp

/-- An expression over integers and NULLs is an error exactly when some operation in it has
operands and no value to give; else it is NULL exactly when a leaf is NULL, and else its exact
value. No operation on the way overflows. -/
theorem exprEvaluate_ints {pool : ExprPool} {row : Row} {i : Int32} {tree : OperandTree}
    (h : tree.At pool row i) (hints : tree.Ints) :
    (tree.Errs ↔ ∃ code, exprEvaluate pool i row = .error code) ∧
    (∀ code, exprEvaluate pool i row = .error code → code.Arithmetic) ∧
    (∀ value, exprEvaluate pool i row = .ok value →
      (value.isNull = true ↔ tree.hasNull = true) ∧
        (tree.hasNull = false → ∃ n, tree.ideal = some n ∧ value.IsInt n)) ∧
    ∀ op left right, applyIntsInt op left right = some (applyInts op left right) := by
  have hcomes := run_ints hints
  rw [← exprEvaluate_run h] at hcomes
  generalize exprEvaluate pool i row = answer at hcomes ⊢
  refine ⟨?_, ?_, ?_, applyIntsInt_eq⟩
  · cases hcomes with
    | refused herrs => exact ⟨fun _ => ⟨_, rfl⟩, fun _ => herrs⟩
    | null herrs => exact ⟨fun h => absurd h herrs, fun ⟨_, h⟩ => nomatch h⟩
    | int herrs => exact ⟨fun h => absurd h herrs, fun ⟨_, h⟩ => nomatch h⟩
  · intro code hcode
    rw [hcode] at hcomes
    cases hcomes with
    | refused _ hcode => exact hcode
  · intro value hvalue
    rw [hvalue] at hcomes
    have hnone := ideal_none_iff tree
    cases hcomes with
    | null _ hideal hnull =>
      have htrue := hnone.mp hideal
      exact ⟨⟨fun _ => htrue, fun _ => hnull⟩, fun h => by rw [htrue] at h; cases h⟩
    | int _ hideal hint =>
      have hfalse : tree.hasNull = false := by
        rw [← Bool.not_eq_true, ← hnone, hideal]
        simp
      refine ⟨⟨fun h => ?_, fun h => ?_⟩, fun _ => ⟨_, hideal, hint⟩⟩
      · rw [hint.1] at h
        cases h
      · rw [hfalse] at h
        cases h

/-- A column of a row. -/
def columnAt (slot : Int) : ExprNode := { columnOperand [] with slot := slot }

/-- The remainder of the first two nodes. -/
def remainderNode : ExprNode :=
  { columnOperand [] with kind := .EXPR_BINARY, op := .ARITH_MOD, left := 0, right := 1 }

/-- The first column modulo the second. -/
def lowestPool : ExprPool := [columnAt 0, columnAt 1, remainderNode]

/-- The row of the lowest `int` and -1. -/
def lowestRow : Row :=
  [{ zeroValue with intValue := -2147483648 }, { zeroValue with intValue := -1 }]

/-- The lowest `int` divided by -1 is an error. -/
theorem exprEvaluate_ints_lowest : ∃ code, exprEvaluate lowestPool 2 lowestRow = .error code := by
  have htree : OperandTree.At lowestPool lowestRow 2
      (.binary .ARITH_MOD (.leaf (lowestRow.value 0)) (.leaf (lowestRow.value 1))) :=
    @OperandTree.At.binary lowestPool lowestRow 2 remainderNode _ _ rfl rfl
      (@OperandTree.At.column lowestPool lowestRow 0 (columnAt 0) rfl rfl (by decide))
      (@OperandTree.At.column lowestPool lowestRow 1 (columnAt 1) rfl rfl (by decide))
  refine (exprEvaluate_ints htree ⟨.inr rfl, .inr rfl⟩).1.mp ?_
  exact .inr (.inr ⟨id, id, -2147483648, -1, rfl, rfl, .inr (.inr ⟨rfl, rfl, rfl⟩)⟩)

end DatabaseEngine
