import DatabaseEngine.Model.Expr

/-!
# `DatabaseEngine.Spec.Arithmetic`: what an expression over integers should come to

An expression as a tree on one row (`OperandTree`), with the values that its columns and literals
stand for at the leaves, and the exact value of such a tree in unbounded integers.

* `OperandTree.ideal`: the exact value, none where a leaf is NULL.
* `OperandTree.Errs`: some operation in the tree has operands that are there and sound, and no
  value to give.
-/

set_option autoImplicit false

namespace DatabaseEngine

/-- An expression on a row. -/
inductive OperandTree
  | leaf (value : Value)
  | negate (inner : OperandTree)
  | binary (op : ArithOp) (left right : OperandTree)

/-- The tree stands in the pool at the index, with the values that the row gives its columns. -/
inductive OperandTree.At (pool : ExprPool) (row : Row) : Int32 → OperandTree → Prop
  | column {i : Int32} {node : ExprNode} (h : pool.node i = some node)
      (hkind : node.kind = .EXPR_COLUMN) (hslot : 0 ≤ node.slot ∧ node.slot < (MAX_COLS : Int)) :
      At pool row i (.leaf (row.value node.slot.toNat))
  | literal {i : Int32} {node : ExprNode} (h : pool.node i = some node)
      (hkind : node.kind = .EXPR_LITERAL) : At pool row i (.leaf node.literal)
  | negate {i : Int32} {node : ExprNode} {inner : OperandTree} (h : pool.node i = some node)
      (hkind : node.kind = .EXPR_NEGATE) (hinner : At pool row node.left inner) :
      At pool row i (.negate inner)
  | binary {i : Int32} {node : ExprNode} {left right : OperandTree} (h : pool.node i = some node)
      (hkind : node.kind = .EXPR_BINARY) (hleft : At pool row node.left left)
      (hright : At pool row node.right right) : At pool row i (.binary node.op left right)

/-- An `int`, or NULL. -/
def Value.Whole (value : Value) : Prop := value.isNull = true ∨ value.type = .TYPE_INT

/-- Every leaf is an `int` or NULL. -/
def OperandTree.Ints : OperandTree → Prop
  | .leaf value => value.Whole
  | .negate inner => inner.Ints
  | .binary _ left right => left.Ints ∧ right.Ints

/-- Some leaf is NULL. -/
def OperandTree.hasNull : OperandTree → Bool
  | .leaf value => value.isNull
  | .negate inner => inner.hasNull
  | .binary _ left right => left.hasNull || right.hasNull

/-- The exact result, with division and remainder towards zero. -/
def ArithOp.exact : ArithOp → Int → Int → Int
  | .ARITH_ADD, a, b => a + b
  | .ARITH_SUB, a, b => a - b
  | .ARITH_MUL, a, b => a * b
  | .ARITH_DIV, a, b => a.tdiv b
  | .ARITH_MOD, a, b => a.tmod b

/-- Whether 32 bits are enough. -/
def InRange (n : Int) : Prop := -2147483648 ≤ n ∧ n ≤ 2147483647

/-- A division or a remainder by zero, a result that 32 bits do not hold, or the remainder of the
division that overflows. -/
def ArithOp.Refuses (op : ArithOp) (a b : Int) : Prop :=
  (op = .ARITH_DIV ∨ op = .ARITH_MOD) ∧ b = 0 ∨ ¬InRange (op.exact a b) ∨
    op = .ARITH_MOD ∧ a = -2147483648 ∧ b = -1

/-- The exact value, none where a leaf is NULL. -/
def OperandTree.ideal : OperandTree → Option Int
  | .leaf value => if value.isNull then none else some value.intValue.toInt
  | .negate inner => inner.ideal.map fun a => -a
  | .binary op left right => left.ideal.bind fun a => right.ideal.map fun b => op.exact a b

/-- Some operation whose operands are not NULL, and free of errors themselves, is refused. -/
def OperandTree.Errs : OperandTree → Prop
  | .leaf _ => False
  | .negate inner =>
    inner.Errs ∨ ¬inner.Errs ∧ ∃ a, inner.ideal = some a ∧ ¬InRange (-a)
  | .binary op left right =>
    left.Errs ∨ right.Errs ∨ ¬left.Errs ∧ ¬right.Errs ∧
      ∃ a b, left.ideal = some a ∧ right.ideal = some b ∧ op.Refuses a b

end DatabaseEngine
