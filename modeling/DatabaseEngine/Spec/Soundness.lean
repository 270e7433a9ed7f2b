import DatabaseEngine.Spec.Aggregate
import DatabaseEngine.Spec.Arithmetic

/-!
# `DatabaseEngine.Spec.Soundness`: values and the types that were announced for them

* `Admitted`: an expression as the checks leave it, with the type that it was accepted with.
* `OperandTree.value`: what a tree comes to, in unbounded integers and doubles.
* `OperandTree.FloatRemainder`: a remainder is asked for with a double among its operands.
* `ResultSet.Announced`: the values of a result have the types of their columns.
-/

set_option autoImplicit false

namespace DatabaseEngine

/-- NULL, or of the type. -/
def Value.Of (value : Value) (type : ColType) : Prop := value.isNull = true ∨ value.type = type

instance (value : Value) (type : ColType) : Decidable (value.Of type) :=
  inferInstanceAs (Decidable (_ ∨ _))

/-! ### What is accepted -/

/-- The expression at an index was resolved and has a type; since then it may have been fitted,
when it is a literal, and the other expressions of its pool may have been resolved and fitted. -/
inductive Admitted (table : CatalogNode) (pool : ExprPool) (i : Int32) : ColType → ExprPool → Prop
  | checked {type : ColType} {pool' : ExprPool} (h : resolveType table pool i = .ok (type, pool')) :
      Admitted table pool i type pool'
  | fitted {type type' : ColType} {pool' pool'' : ExprPool} (h : Admitted table pool i type pool')
      (hliteral : (exprLiteral pool' i).isSome = true) (hfit : coerceAt pool' i type' = .ok pool'') :
      Admitted table pool i type' pool''
  | resolved {type : ColType} {pool' : ExprPool} (h : Admitted table pool i type pool')
      (j : Int32) : Admitted table pool i type (exprResolve table pool' j).2
  | other {type type' : ColType} {pool' pool'' : ExprPool} {j : Int32}
      (h : Admitted table pool i type pool') (hliteral : (exprLiteral pool' j).isSome = true)
      (hfit : coerceAt pool' j type' = .ok pool'') (hfree : reaches pool' i j = false) :
      Admitted table pool i type pool''

/-- NULL, a value of the type, or one of the two errors of arithmetic. -/
def Yields (type : ColType) (result : Except ErrorCode Value) : Prop :=
  match result with
  | .ok value => value.Of type
  | .error code => code = .VALUE_OUT_OF_RANGE ∨ code = .EXEC_DIVIDE_BY_ZERO

/-! ### What a tree comes to -/

instance (n : Int) : Decidable (InRange n) := inferInstanceAs (Decidable (_ ∧ _))

instance (op : ArithOp) (a b : Int) : Decidable (op.Refuses a b) :=
  inferInstanceAs (Decidable (_ ∧ _ ∨ _ ∨ _))

/-- An INT. -/
def wholeValue (n : Int) : Value := { zeroValue with intValue := Int32.ofInt n }

/-- The operation in doubles; there is no remainder. -/
def ArithOp.real (op : ArithOp) (a b : Float) : Option Float :=
  match op with
  | .ARITH_ADD => some (a + b)
  | .ARITH_SUB => some (a - b)
  | .ARITH_MUL => some (a * b)
  | .ARITH_DIV => some (a / b)
  | .ARITH_MOD => none

/-- A value with its sign changed, none when there is no such value. -/
def Value.opposite (value : Value) : Option Value :=
  if value.isNull then some value
  else
    match value.type with
    | .TYPE_FLOAT => some (setFloat (value.floatValue ^^^ 0x8000000000000000))
    | .TYPE_INT =>
      if InRange (-value.intValue.toInt) then some (wholeValue (-value.intValue.toInt)) else none
    | .TYPE_TEXT | .TYPE_DATE => none

/-- What an operation comes to, none when it is refused. -/
def ArithOp.result (op : ArithOp) (left right : Value) : Option Value :=
  if left.isNull then some (setNull left.type)
  else if right.isNull then some (setNull right.type)
  else if !left.type.isNumber || !right.type.isNumber then none
  else if left.type = .TYPE_FLOAT ∨ right.type = .TYPE_FLOAT then
    if op = .ARITH_DIV ∧ isZero (asReal right) = true then none
    else
      (op.real (Float.ofBits (asReal left)) (Float.ofBits (asReal right))).map fun result =>
        setFloat result.toBits
  else if op.Refuses left.intValue.toInt right.intValue.toInt then none
  else some (wholeValue (op.exact left.intValue.toInt right.intValue.toInt))

/-- What a tree comes to, none when some operation in it is refused. -/
def OperandTree.value : OperandTree → Option Value
  | .leaf value => some value
  | .negate inner => inner.value.bind Value.opposite
  | .binary op left right =>
    left.value.bind fun a => right.value.bind fun b => op.result a b

/-- A remainder is met whose operands are both there, one of them a double. The left operand comes
first, and where it is refused the right one is not looked at. -/
def OperandTree.FloatRemainder : OperandTree → Prop
  | .leaf _ => False
  | .negate inner => inner.FloatRemainder
  | .binary op left right =>
    left.FloatRemainder ∨ (left.value ≠ none ∧ right.FloatRemainder) ∨
      op = .ARITH_MOD ∧ ∃ a b, left.value = some a ∧ right.value = some b ∧
        a.isNull = false ∧ b.isNull = false ∧ (a.type = .TYPE_FLOAT ∨ b.type = .TYPE_FLOAT)

/-! ### Results -/

/-- Every value has the type of its column, or is NULL. -/
def ResultSet.Announced (out : ResultSet) : Prop :=
  ∀ row ∈ out.rows, List.Forall₂ Value.Of row out.types

end DatabaseEngine
