import DatabaseEngine.Proofs.Semantic.Agreement
import DatabaseEngine.Proofs.Semantic.Arithmetic
import DatabaseEngine.Spec.Soundness

/-!
# `DatabaseEngine.Proofs.Semantic.Soundness`: the types of expressions

* `Admitted.tree`: an expression that was accepted stands in its pool as a tree of its type.
* `run_value`: the operations of the code come to what the tree comes to.
* `OperandTree.Typed.run`: a typed tree comes to NULL, a value of its type or an error of
  arithmetic, or else to a remainder over a double.
* `exprEvaluate_yields`: so does an accepted expression on a row of its table.
-/

set_option autoImplicit false

namespace DatabaseEngine

/-! ### Operations -/

/-- Narrowing answers exactly the numbers an `int` holds. -/
theorem narrow_toOption (n : Int) :
    (narrow n).toOption = if InRange n then some (wholeValue n) else none := by
  by_cases hrange : InRange n
  · obtain ⟨hlow, hhigh⟩ := id hrange
    rw [if_pos hrange, narrow, if_neg (by omega)]
    rfl
  · rw [if_neg hrange, narrow_outOfRange hrange]
    rfl

/-- Integer arithmetic answers the exact result unless it is refused. -/
theorem applyInts_toOption (op : ArithOp) (a b : Int32) :
    (applyInts op a b).toOption =
      if op.Refuses a.toInt b.toInt then none else some (wholeValue (op.exact a.toInt b.toInt)) := by
  by_cases hrefused : op.Refuses a.toInt b.toInt
  · obtain ⟨code, -, herror⟩ := applyInts_refuses hrefused
    rw [if_pos hrefused, herror]
    rfl
  · have hrange : InRange (op.exact a.toInt b.toInt) := by
      by_contra hout
      exact hrefused (.inr (.inl hout))
    rw [if_neg hrefused, applyInts_accepts hrefused, narrow_toOption, if_pos hrange]

/-- Real arithmetic answers the float result, a division by zero nothing. -/
theorem applyReals_toOption (op : ArithOp) (a b : UInt64) :
    (applyReals op a b).toOption =
      if op = .ARITH_DIV ∧ isZero b = true then none
      else (op.real (Float.ofBits a) (Float.ofBits b)).map fun result =>
        setFloat result.toBits := by
  cases op with
  | ARITH_ADD | ARITH_SUB | ARITH_MUL | ARITH_MOD =>
    rw [if_neg fun hdiv => absurd hdiv.1 (by decide)]
    rfl
  | ARITH_DIV =>
    unfold applyReals
    by_cases hzero : isZero b = true
    · rw [if_pos hzero, if_pos ⟨rfl, hzero⟩]
      rfl
    · rw [if_neg hzero, if_neg fun hdiv => hzero hdiv.2]
      rfl

/-- Negation answers the opposite where there is one. -/
theorem negate_toOption (value : Value) : (negate value).toOption = value.opposite := by
  unfold negate Value.opposite
  by_cases hnull : value.isNull = true
  · rw [if_pos hnull, if_pos hnull]
    rfl
  · rw [if_neg hnull, if_neg hnull]
    cases htype : value.type with
    | TYPE_FLOAT => rfl
    | TYPE_INT =>
      rw [if_neg (by decide), if_neg (by decide)]
      have hzero : (0 : Int32).toInt = 0 := rfl
      show (narrow ((0 : Int32).toInt - value.intValue.toInt)).toOption = _
      rw [hzero, Int.zero_sub, narrow_toOption]
    | TYPE_TEXT => rfl
    | TYPE_DATE => rfl

/-- Arithmetic answers the reference's result, or an error where there is none. -/
theorem combine_toOption (op : ArithOp) (a b : Value) :
    (combine op a b).toOption = op.result a b := by
  unfold combine ArithOp.result
  cases hleft : a.isNull with
  | true => rfl
  | false =>
    cases hright : b.isNull with
    | true => rfl
    | false =>
      simp only [Bool.or_false, Bool.false_eq_true, if_false]
      split
      · rfl
      · split
        · exact applyReals_toOption op _ _
        · exact applyInts_toOption op _ _

/-- What the operations of the code come to, one after another. -/
theorem run_value (tree : OperandTree) : tree.run.toOption = tree.value := by
  induction tree with
  | leaf value => rfl
  | negate inner ih =>
    rw [OperandTree.run, OperandTree.value, ← ih]
    cases inner.run with
    | error code => rfl
    | ok value => exact negate_toOption value
  | binary op left right ihleft ihright =>
    rw [OperandTree.run, OperandTree.value, ← ihleft, ← ihright]
    cases left.run with
    | error code => rfl
    | ok a =>
      cases right.run with
      | error code => rfl
      | ok b => exact combine_toOption op a b

/-! ### Types -/

/-- The type of an operation on operands of two types. -/
def wider (left right : ColType) : ColType :=
  if left = .TYPE_FLOAT ∨ right = .TYPE_FLOAT then .TYPE_FLOAT else .TYPE_INT

/-- A tree has a type: its leaves are NULL or of theirs, and its operations are on numbers. -/
inductive OperandTree.Typed : OperandTree → ColType → Prop
  | leaf {value : Value} {type : ColType} (h : value.Of type) : Typed (.leaf value) type
  | negate {inner : OperandTree} {type : ColType} (hinner : Typed inner type)
      (hnumber : type.isNumber = true) : Typed (.negate inner) type
  | binary {op : ArithOp} {left right : OperandTree} {ltype rtype : ColType}
      (hleft : Typed left ltype) (hright : Typed right rtype) (hlnumber : ltype.isNumber = true)
      (hrnumber : rtype.isNumber = true) : Typed (.binary op left right) (wider ltype rtype)

section
variable {op : ArithOp} {type ltype rtype : ColType} {a b : Value}

/-- Integer arithmetic answers an INT or an error. -/
theorem applyInts_yields (op : ArithOp) (a b : Int32) : Yields .TYPE_INT (applyInts op a b) := by
  by_cases hrefused : op.Refuses a.toInt b.toInt
  · obtain ⟨code, hcode, herror⟩ := applyInts_refuses hrefused
    rw [herror]
    exact hcode
  · cases hresult : applyInts op a b with
    | error code =>
      have hsome := applyInts_toOption op a b
      rw [if_neg hrefused, hresult] at hsome
      exact absurd hsome (by simp [Except.toOption])
    | ok value => exact .inr (applyInts_type hresult)

/-- Real arithmetic answers a FLOAT or an error. -/
theorem applyReals_yields (hop : op ≠ .ARITH_MOD) (a b : UInt64) :
    Yields .TYPE_FLOAT (applyReals op a b) := by
  cases op with
  | ARITH_ADD | ARITH_SUB | ARITH_MUL => exact .inr rfl
  | ARITH_DIV =>
    unfold applyReals
    dsimp only
    split
    · exact .inr rfl
    · exact .inr rfl
  | ARITH_MOD => exact absurd rfl hop

/-- Negation of a number answers one of the same type or an error. -/
theorem negate_yields (h : a.Of type) (hnumber : type.isNumber = true) :
    Yields type (negate a) := by
  unfold negate
  by_cases hnull : a.isNull = true
  · rw [if_pos hnull]
    exact .inl hnull
  · obtain rfl : a.type = type := h.resolve_left hnull
    rw [if_neg hnull]
    cases htype : a.type with
    | TYPE_FLOAT => exact .inr rfl
    | TYPE_INT =>
      rw [if_neg (by decide), if_neg (by decide)]
      exact applyInts_yields _ _ _
    | TYPE_TEXT | TYPE_DATE =>
      rw [htype] at hnumber
      exact absurd hnumber (by decide)

/-- An operation on operands of the types of numbers: only a remainder over a double is refused
for its types. -/
theorem combine_yields (hleft : a.Of ltype) (hright : b.Of rtype)
    (hlnumber : ltype.isNumber = true) (hrnumber : rtype.isNumber = true) :
    (op = .ARITH_MOD ∧ a.isNull = false ∧ b.isNull = false ∧
        (a.type = .TYPE_FLOAT ∨ b.type = .TYPE_FLOAT) →
      combine op a b = .error .SEMANTIC_TYPE_MISMATCH) ∧
    (¬(op = .ARITH_MOD ∧ a.isNull = false ∧ b.isNull = false ∧
        (a.type = .TYPE_FLOAT ∨ b.type = .TYPE_FLOAT)) →
      Yields (wider ltype rtype) (combine op a b)) := by
  unfold combine
  by_cases hnull : (a.isNull || b.isNull) = true
  · rw [if_pos hnull]
    refine ⟨?_, fun _ => .inl rfl⟩
    rintro ⟨-, ha, hb, -⟩
    rw [ha, hb] at hnull
    exact absurd hnull (by decide)
  · rw [if_neg hnull]
    simp only [Bool.or_eq_true, not_or, Bool.not_eq_true] at hnull
    obtain ⟨ha, hb⟩ := hnull
    obtain rfl : a.type = ltype := hleft.resolve_left (by rw [ha]; decide)
    obtain rfl : b.type = rtype := hright.resolve_left (by rw [hb]; decide)
    have hnumbers : ¬(!a.type.isNumber || !b.type.isNumber) = true := by
      rw [hlnumber, hrnumber]
      decide
    rw [if_neg hnumbers]
    unfold wider
    by_cases hfloat : a.type = .TYPE_FLOAT ∨ b.type = .TYPE_FLOAT
    · rw [if_pos hfloat, if_pos hfloat]
      refine ⟨?_, fun hno => applyReals_yields (fun hop => hno ⟨hop, ha, hb, hfloat⟩) _ _⟩
      rintro ⟨rfl, -⟩
      rfl
    · rw [if_neg hfloat, if_neg hfloat]
      exact ⟨fun hmod => absurd hmod.2.2.2 hfloat, fun _ => applyInts_yields _ _ _⟩

end

/-- What a typed tree comes to. The induction is on the typing; on the way up an error stays what
it is, and only a value can meet a remainder. -/
theorem OperandTree.Typed.run {tree : OperandTree} {type : ColType} (h : tree.Typed type) :
    (tree.FloatRemainder → tree.run = .error .SEMANTIC_TYPE_MISMATCH) ∧
      (¬tree.FloatRemainder → Yields type tree.run) := by
  induction h with
  | leaf h => exact ⟨fun hmod => hmod.elim, fun _ => h⟩
  | @negate inner type hinner hnumber ih =>
    rw [OperandTree.run]
    constructor
    · intro hmod
      rw [ih.1 hmod]
      rfl
    · intro hfree
      have hyields := ih.2 hfree
      cases hrun : inner.run with
      | error code =>
        rw [hrun] at hyields
        exact hyields
      | ok value =>
        rw [hrun] at hyields
        exact negate_yields hyields hnumber
  | @binary op left right ltype rtype hleft hright hlnumber hrnumber ihleft ihright =>
    rw [OperandTree.run]
    have hvalue := run_value left
    have hvalue' := run_value right
    cases hrun : left.run with
    | error code =>
      rw [hrun] at hvalue
      have hnone : left.value = none := hvalue.symm
      by_cases hfree : left.FloatRemainder
      · have hcode := (ihleft.1 hfree).symm.trans hrun
        exact ⟨fun _ => hcode.symm, fun hno => absurd (.inl hfree) hno⟩
      · have hyields := ihleft.2 hfree
        rw [hrun] at hyields
        refine ⟨?_, fun _ => hyields⟩
        rintro (hmod | ⟨hsome, -⟩ | ⟨-, _, _, hsome, -⟩)
        · exact absurd hmod hfree
        · exact absurd hnone hsome
        · exact absurd (hnone.symm.trans hsome) (by simp)
    | ok a =>
      rw [hrun] at hvalue
      have hsome : left.value = some a := hvalue.symm
      have hfree : ¬left.FloatRemainder := fun hmod =>
        absurd ((ihleft.1 hmod).symm.trans hrun) (by simp)
      have ha := ihleft.2 hfree
      rw [hrun] at ha
      cases hrun' : right.run with
      | error code =>
        rw [hrun'] at hvalue'
        have hnone : right.value = none := hvalue'.symm
        by_cases hfree' : right.FloatRemainder
        · have hcode := (ihright.1 hfree').symm.trans hrun'
          refine ⟨fun _ => hcode.symm, fun hno => absurd (.inr (.inl ⟨?_, hfree'⟩)) hno⟩
          rw [hsome]
          exact Option.some_ne_none a
        · have hyields := ihright.2 hfree'
          rw [hrun'] at hyields
          refine ⟨?_, fun _ => hyields⟩
          rintro (hmod | ⟨-, hmod⟩ | ⟨-, _, _, -, hsome', -⟩)
          · exact absurd hmod hfree
          · exact absurd hmod hfree'
          · exact absurd (hnone.symm.trans hsome') (by simp)
      | ok b =>
        rw [hrun'] at hvalue'
        have hsome' : right.value = some b := hvalue'.symm
        have hfree' : ¬right.FloatRemainder := fun hmod =>
          absurd ((ihright.1 hmod).symm.trans hrun') (by simp)
        have hb := ihright.2 hfree'
        rw [hrun'] at hb
        have hcombine := @combine_yields op ltype rtype a b ha hb hlnumber hrnumber
        constructor
        · rintro (hmod | ⟨-, hmod⟩ | ⟨hop, a', b', ha', hb', hmod⟩)
          · exact absurd hmod hfree
          · exact absurd hmod hfree'
          · obtain rfl := Option.some.inj (hsome.symm.trans ha')
            obtain rfl := Option.some.inj (hsome'.symm.trans hb')
            exact hcombine.1 ⟨hop, hmod⟩
        · intro hno
          exact hcombine.2 fun hmod => hno (.inr (.inr ⟨hmod.1, a, b, hsome, hsome', hmod.2⟩))

/-- Only a remainder over a double keeps a typed tree from what its type promises. -/
theorem OperandTree.Typed.run_iff {tree : OperandTree} {type : ColType} (h : tree.Typed type) :
    Yields type tree.run ↔ ¬tree.FloatRemainder := by
  refine ⟨fun hyields hmod => ?_, h.run.2⟩
  rw [h.run.1 hmod] at hyields
  rcases hyields with hcode | hcode
  · exact absurd hcode (by decide)
  · exact absurd hcode (by decide)

/-! ### Accepted expressions -/

section
variable {table : CatalogNode} {pool pool' : ExprPool} {i : Int32} {type : ColType} {row : Row}

/-- The static type of an expression is the type of its tree on every row of the table. -/
theorem typed_tree {fuel : Nat} (hwidth : table.cols.length ≤ MAX_COLS) (hrow : RowOf table row)
    (hbound : ∀ j n, reachesFrom fuel pool i j = true → pool.node j = some n → n.Bound table)
    (htype : typeFrom table fuel pool i = some type) :
    ∃ tree, OperandTree.At pool row i tree ∧ tree.Typed type := by
  induction fuel generalizing i type with
  | zero => exact absurd htype (by simp [typeFrom])
  | succ fuel ih =>
    rw [typeFrom] at htype
    cases hn : pool.node i with
    | none =>
      rw [hn] at htype
      exact absurd htype (by simp)
    | some n =>
      have hself : n.Bound table := hbound i n (by simp [reachesFrom]) hn
      simp only [hn] at htype
      cases hkind : n.kind with
      | EXPR_COLUMN =>
        simp only [hkind] at htype
        cases hslot : findColumn table n.column.1 with
        | negSucc slot =>
          rw [hslot] at htype
          exact absurd htype (by simp)
        | ofNat slot =>
          rw [hslot] at htype
          have hlt := findColumn_lt hslot
          have hpos : n.slot = Int.ofNat slot := (hself hkind).trans hslot
          refine ⟨_, .column hn hkind ?_, .leaf ?_⟩
          · rw [hpos]
            exact ⟨Int.natCast_nonneg slot, Int.ofNat_lt.mpr (by omega)⟩
          · rw [hpos, ← Option.some.inj htype]
            exact hrow slot hlt
      | EXPR_LITERAL =>
        simp only [hkind] at htype
        exact ⟨_, .literal hn hkind, .leaf (.inr (Option.some.inj htype))⟩
      | EXPR_NEGATE =>
        simp only [hkind] at htype
        obtain ⟨hleft, hnumber⟩ := Option.filter_eq_some_iff.mp htype
        obtain ⟨inner, hat, htyped⟩ :=
          ih (fun j m hj => hbound j m (by simp [reachesFrom, hn, hkind, hj])) hleft
        exact ⟨_, .negate hn hkind hat, .negate htyped hnumber⟩
      | EXPR_BINARY =>
        simp only [hkind] at htype
        cases hleft : typeFrom table fuel pool n.left with
        | none =>
          rw [hleft] at htype
          exact absurd htype (by simp)
        | some ltype =>
          cases hright : typeFrom table fuel pool n.right with
          | none =>
            rw [hleft, hright] at htype
            exact absurd htype (by simp)
          | some rtype =>
            obtain ⟨left, hat, htyped⟩ :=
              ih (fun j m hj => hbound j m (by simp [reachesFrom, hn, hkind, hj])) hleft
            obtain ⟨right, hat', htyped'⟩ :=
              ih (fun j m hj => hbound j m (by simp [reachesFrom, hn, hkind, hj])) hright
            rw [hleft, hright] at htype
            dsimp only at htype
            split at htype
            · exact absurd htype (by simp)
            · rename_i hnumbers
              simp only [Bool.or_eq_true, Bool.not_eq_true', not_or, Bool.not_eq_false] at hnumbers
              have hwider : wider ltype rtype = type := by
                unfold wider
                split at htype
                · rename_i hfloat
                  rw [if_pos hfloat, Option.some.inj htype]
                · rename_i hints
                  rw [if_neg hints, Option.some.inj htype]
              rw [← hwider]
              exact ⟨_, .binary hn hkind hat hat', .binary htyped htyped' hnumbers.1 hnumbers.2⟩

/-- An expression that was accepted is bound and has its type, whatever has been fitted since. -/
theorem Admitted.typed (h : Admitted table pool i type pool') :
    typeOf table pool' i = some type ∧
      ∀ j n, reaches pool' i j = true → pool'.node j = some n → n.Bound table := by
  have hkeeps : ∀ {fitted : Int32 → Prop} {before after : ExprPool},
      Settles table fitted before after →
      (∀ j n, reaches before i j = true → before.node j = some n → n.Bound table) →
      ∀ j n, reaches after i j = true → after.node j = some n → n.Bound table := by
    intro fitted before after hsettles hbound j n hj hn
    rw [hsettles.reaches_eq] at hj
    cases hm : before.node j with
    | none =>
      rw [(hsettles.none_iff j).mpr hm] at hn
      exact absurd hn (by simp)
    | some m =>
      obtain ⟨n', hn', -, hkept, -⟩ := hsettles.node j m hm
      obtain rfl := Option.some.inj (hn.symm.trans hn')
      exact hkept (hbound j m hj hm)
  induction h with
  | checked h =>
    obtain ⟨hsettles, htype, hstamped⟩ := resolveType_ok h
    refine ⟨(hsettles.typeOf_eq fun _ _ => id).trans htype, fun j n hj hn => ?_⟩
    rw [hsettles.reaches_eq] at hj
    exact (hstamped j n hj hn).bound
  | fitted h hliteral hfit ih =>
    obtain ⟨v, hv⟩ := Option.isSome_iff_exists.mp hliteral
    obtain ⟨v', hcoerce, hsettles, hv'⟩ := coerceAt_settles hv hfit
    refine ⟨?_, hkeeps hsettles ih.2⟩
    rw [typeOf_literal hv', (coerceLiteral_ok hcoerce).1]
  | @resolved type pool' h j ih =>
    have hsettles := @exprResolve_settles table pool' j
    exact ⟨(hsettles.typeOf_eq fun _ _ => id).trans ih.1, hkeeps hsettles ih.2⟩
  | @other type type' pool' pool'' j h hliteral hfit hfree ih =>
    obtain ⟨v, hv⟩ := Option.isSome_iff_exists.mp hliteral
    obtain ⟨v', -, hsettles, -⟩ := @coerceAt_settles table _ _ _ _ _ hv hfit
    refine ⟨(hsettles.typeOf_eq fun k hk hj => ?_).trans ih.1, hkeeps hsettles ih.2⟩
    rw [hj, hfree] at hk
    exact absurd hk (by decide)

/-- On a row of its table an accepted expression comes to what its type promises, but for a
remainder over a double. -/
theorem exprEvaluate_yields (hwidth : table.cols.length ≤ MAX_COLS)
    (h : Admitted table pool i type pool') (hrow : RowOf table row) :
    ∃ tree, OperandTree.At pool' row i tree ∧
      (Yields type (exprEvaluate pool' i row) ↔ ¬tree.FloatRemainder) := by
  obtain ⟨htype, hbound⟩ := h.typed
  obtain ⟨tree, hat, htyped⟩ := typed_tree hwidth hrow hbound htype
  exact ⟨tree, hat, by rw [exprEvaluate_run hat]; exact htyped.run_iff⟩

end

end DatabaseEngine
