import DatabaseEngine.Model.Value

/-!
# `DatabaseEngine.Model.Expr`: expressions, columns and their binding

The expression pool of `17_expr.c` and the part of `02_catalog.c` that binds a name to a
column. The pool is the list of its nodes; edges are indices, `-1` when unused. A walk takes
as much fuel as the pool has nodes, and one for the index that leads out of it: a path
through a tree meets each node once. A walk that runs out of fuel, which needs a cycle,
answers what an index out of range answers.

Columns and tables stand here because an expression is bound to them.
-/

set_option autoImplicit false

namespace DatabaseEngine

/-- The kinds of a node. -/
inductive ExprKind
  | EXPR_COLUMN
  | EXPR_LITERAL
  | EXPR_BINARY
  | EXPR_NEGATE
  deriving DecidableEq, Repr

/-- The operators. -/
inductive ArithOp
  | ARITH_ADD
  | ARITH_SUB
  | ARITH_MUL
  | ARITH_DIV
  | ARITH_MOD
  deriving DecidableEq, Repr

/-- A node of an expression, as all kinds of it. -/
structure ExprNode where
  kind : ExprKind
  op : ArithOp
  /-- Pool indices, `-1` when unused. -/
  left : Int32
  right : Int32
  column : Name
  literal : Value
  /-- The column's position once resolved; negative when it is not. -/
  slot : Int
  type : ColType
  deriving DecidableEq

/-- The nodes of a statement's expressions. -/
abbrev ExprPool := List ExprNode

/-- The comparisons. -/
inductive CompareOp
  | OP_EQ
  | OP_NE
  | OP_LT
  | OP_LTE
  | OP_GT
  | OP_GTE
  | OP_IS_NULL
  | OP_IS_NOT_NULL
  | OP_LIKE
  | OP_NOT_LIKE
  | OP_IN
  | OP_EXISTS
  deriving DecidableEq, Repr

/-- A comparison of two expressions, or of one with a subquery. -/
structure Predicate where
  left : Int32
  op : CompareOp
  right : Int32
  /-- `-1`, or an index into the subquery pool. -/
  subquery : Int32
  deriving DecidableEq

/-- The kinds of a condition's node. -/
inductive ConditionKind
  | COND_COMPARE
  | COND_AND
  | COND_OR
  | COND_NOT
  deriving DecidableEq, Repr

/-- A node of a condition. -/
structure ConditionNode where
  kind : ConditionKind
  compare : Predicate
  left : Int32
  right : Int32
  deriving DecidableEq

/-- A condition tree, flat, with the operands of its predicates. -/
structure Condition where
  present : Bool
  root : Int32
  nodes : List ConditionNode
  exprs : ExprPool
  deriving DecidableEq

/-- A column: its flags are `COL_NOT_NULL`, `COL_UNIQUE` and `COL_PRIMARY`. -/
structure Column where
  name : Name
  type : ColType
  /-- `varchar(n)`; 0 means unbounded text. -/
  size : Int32
  notNull : Bool
  unique : Bool
  primary : Bool
  hasDefault : Bool
  defaultValue : Value
  deriving DecidableEq

/-- A table as the catalog holds it. -/
structure CatalogNode where
  table : Name
  cols : List Column
  check : Option Condition
  deriving DecidableEq

/-- What a C array of values holds where nothing was stored: all bytes zero. -/
def zeroValue : Value :=
  { type := .TYPE_INT, isNull := false, intValue := 0, floatValue := 0, text := [] }

/-- `row->values[slot]`. -/
def Row.value (row : Row) (slot : Nat) : Value := row.getD slot zeroValue

/-- The node an index leads to. -/
def ExprPool.node (pool : ExprPool) (i : Int32) : Option ExprNode :=
  if i < 0 then none else pool[i.toInt.toNat]?

/-- Whether an expression is a column by itself. -/
def exprIsColumn (pool : ExprPool) (i : Int32) : Bool :=
  match pool.node i with
  | some node => node.kind == .EXPR_COLUMN
  | none => false

/-- The literal at an index, when there is one. -/
def exprLiteral (pool : ExprPool) (i : Int32) : Option Value :=
  match pool.node i with
  | some node => if node.kind = .EXPR_LITERAL then some node.literal else none
  | none => none

/-- The name of the column it is. -/
def exprColumn (pool : ExprPool) (i : Int32) : List UInt8 :=
  match pool.node i with
  | some node => if node.kind = .EXPR_COLUMN then node.column.1 else []
  | none => []

/-- Replaces the node at an index. -/
def ExprPool.setNode (pool : ExprPool) (i : Int32) (node : ExprNode) : ExprPool :=
  pool.set i.toInt.toNat node

/-! ### Binding to a table -/

/-- `findColumn`: the first column of exactly that name. -/
def columnNamed (cols : List Column) (name : List UInt8) : Option Nat :=
  cols.findIdx? fun c => sameText c.name.1 name

/-- More than one column answers to the bare name. -/
def COLUMN_AMBIGUOUS : Int := -2

/-- The column's position, `-1` when there is none, `COLUMN_AMBIGUOUS` when a bare name
matches more than one qualified column. -/
def findColumn (table : CatalogNode) (name : List UInt8) : Int :=
  match columnNamed table.cols name with
  | some i => i
  | none =>
    match afterDot name with
    | some rest =>
      -- "users.id" against the columns of users, which are stored unqualified
      if sameText (beforeDot name) table.table.1 then
        match columnNamed table.cols rest with
        | some i => i
        | none => -1
      else -1
    | none =>
      match (List.range table.cols.length).filter fun i =>
          (table.cols[i]?).any fun c => sameText (bareName c.name.1) name with
      | [] => -1
      | [i] => i
      | _ => COLUMN_AMBIGUOUS

/-- The type of the column at a position. -/
def CatalogNode.columnType (table : CatalogNode) (slot : Nat) : ColType :=
  match table.cols[slot]? with
  | some c => c.type
  | none => .TYPE_INT

/-- Resolves the columns of a tree to their positions. Nodes met before an error stay
resolved. -/
def exprResolveFrom : Nat → CatalogNode → ExprPool → Int32 → Except ErrorCode Unit × ExprPool
  | 0, _, pool, _ => (.error .SEMANTIC_COLUMN_NOT_FOUND, pool)
  | fuel + 1, table, pool, i =>
    match pool.node i with
    | none => (.error .SEMANTIC_COLUMN_NOT_FOUND, pool)
    | some node =>
      match node.kind with
      | .EXPR_COLUMN =>
        let slot := findColumn table node.column.1
        if slot = COLUMN_AMBIGUOUS then
          (.error .SEMANTIC_AMBIGUOUS_COLUMN, pool.setNode i { node with slot := slot })
        else if slot < 0 then
          (.error .SEMANTIC_COLUMN_NOT_FOUND, pool.setNode i { node with slot := slot })
        else
          (.ok (), pool.setNode i
            { node with slot := slot, type := table.columnType slot.toNat })
      | .EXPR_LITERAL => (.ok (), pool.setNode i { node with type := node.literal.type })
      | .EXPR_NEGATE => exprResolveFrom fuel table pool node.left
      | .EXPR_BINARY =>
        match exprResolveFrom fuel table pool node.left with
        | (.error e, pool) => (.error e, pool)
        | (.ok (), pool) => exprResolveFrom fuel table pool node.right

/-- Binds every column of an expression. -/
def exprResolve (table : CatalogNode) (pool : ExprPool) (i : Int32) :
    Except ErrorCode Unit × ExprPool :=
  exprResolveFrom (pool.length + 1) table pool i

/-- The types that there is arithmetic on. -/
def ColType.isNumber : ColType → Bool
  | TYPE_INT | TYPE_FLOAT => true
  | TYPE_TEXT | TYPE_DATE => false

/-- The type a resolved tree produces, or a mismatch when it produces none. -/
def exprTypeFrom : Nat → ExprPool → Int32 → Except ErrorCode ColType
  | 0, _, _ => .error .SEMANTIC_COLUMN_NOT_FOUND
  | fuel + 1, pool, i =>
    match pool.node i with
    | none => .error .SEMANTIC_COLUMN_NOT_FOUND
    | some node =>
      match node.kind with
      | .EXPR_COLUMN | .EXPR_LITERAL => .ok node.type
      | .EXPR_NEGATE => do
        let left ← exprTypeFrom fuel pool node.left
        if left.isNumber then .ok left else .error .SEMANTIC_TYPE_MISMATCH
      | .EXPR_BINARY => do
        let left ← exprTypeFrom fuel pool node.left
        let right ← exprTypeFrom fuel pool node.right
        if !left.isNumber || !right.isNumber then .error .SEMANTIC_TYPE_MISMATCH
        else if left = .TYPE_FLOAT ∨ right = .TYPE_FLOAT then .ok .TYPE_FLOAT
        else .ok .TYPE_INT

/-- The type of a whole expression. -/
def exprType (pool : ExprPool) (i : Int32) : Except ErrorCode ColType :=
  exprTypeFrom (pool.length + 1) pool i

/-! ### Evaluating -/

/-- `(double)i`. -/
def intToDouble (i : Int32) : UInt64 := (Float.ofInt i.toInt).toBits

/-- Computed wide and checked once. -/
def narrow (result : Int) : Except ErrorCode Value :=
  if result < -2147483648 ∨ 2147483647 < result then .error .VALUE_OUT_OF_RANGE
  else .ok { zeroValue with intValue := Int32.ofInt result }

/-- An operator on two integers, refused where it overflows. -/
def applyInts (op : ArithOp) (left right : Int32) : Except ErrorCode Value :=
  match op with
  | .ARITH_ADD => narrow (left.toInt + right.toInt)
  | .ARITH_SUB => narrow (left.toInt - right.toInt)
  | .ARITH_MUL => narrow (left.toInt * right.toInt)
  | .ARITH_DIV =>
    if right = 0 then .error .EXEC_DIVIDE_BY_ZERO
    else if left.toInt = -2147483648 ∧ right.toInt = -1 then .error .VALUE_OUT_OF_RANGE
    else narrow (left.toInt.tdiv right.toInt)
  | .ARITH_MOD =>
    if right = 0 then .error .EXEC_DIVIDE_BY_ZERO
    else if left.toInt = -2147483648 ∧ right.toInt = -1 then .error .VALUE_OUT_OF_RANGE
    else narrow (left.toInt.tmod right.toInt)

/-- An operator on two doubles. -/
def applyReals (op : ArithOp) (left right : UInt64) : Except ErrorCode Value :=
  match op with
  | .ARITH_ADD => .ok (setFloat (Float.ofBits left + Float.ofBits right).toBits)
  | .ARITH_SUB => .ok (setFloat (Float.ofBits left - Float.ofBits right).toBits)
  | .ARITH_MUL => .ok (setFloat (Float.ofBits left * Float.ofBits right).toBits)
  | .ARITH_DIV =>
    if isZero right then .error .EXEC_DIVIDE_BY_ZERO
    else .ok (setFloat (Float.ofBits left / Float.ofBits right).toBits)
  | .ARITH_MOD => .error .SEMANTIC_TYPE_MISMATCH

/-- A number as a double. -/
def asReal (value : Value) : UInt64 :=
  if value.type = .TYPE_FLOAT then value.floatValue else intToDouble value.intValue

/-- What a negation does to the value below it. -/
def negate (left : Value) : Except ErrorCode Value :=
  if left.isNull then .ok left
  else if left.type = .TYPE_FLOAT then .ok (setFloat (left.floatValue ^^^ 0x8000000000000000))
  else if left.type ≠ .TYPE_INT then .error .SEMANTIC_TYPE_MISMATCH
  else applyInts .ARITH_SUB 0 left.intValue

/-- What an operator does to the values below it. NULL is contagious. -/
def combine (op : ArithOp) (left right : Value) : Except ErrorCode Value :=
  if left.isNull || right.isNull then
    .ok (setNull (if left.isNull then left.type else right.type))
  else if !left.type.isNumber || !right.type.isNumber then .error .SEMANTIC_TYPE_MISMATCH
  else if left.type = .TYPE_FLOAT ∨ right.type = .TYPE_FLOAT then
    applyReals op (asReal left) (asReal right)
  else applyInts op left.intValue right.intValue

/-- One row through the tree. -/
def exprEvaluateFrom : Nat → ExprPool → Int32 → Row → Except ErrorCode Value
  | 0, _, _, _ => .error .SEMANTIC_COLUMN_NOT_FOUND
  | fuel + 1, pool, i, row =>
    match pool.node i with
    | none => .error .SEMANTIC_COLUMN_NOT_FOUND
    | some node =>
      match node.kind with
      | .EXPR_COLUMN =>
        if node.slot < 0 ∨ (MAX_COLS : Int) ≤ node.slot then .error .SEMANTIC_COLUMN_NOT_FOUND
        else .ok (row.value node.slot.toNat)
      | .EXPR_LITERAL => .ok node.literal
      | .EXPR_NEGATE => do
        let left ← exprEvaluateFrom fuel pool node.left row
        negate left
      | .EXPR_BINARY => do
        let left ← exprEvaluateFrom fuel pool node.left row
        let right ← exprEvaluateFrom fuel pool node.right row
        combine node.op left right

/-- An expression on a row. -/
def exprEvaluate (pool : ExprPool) (i : Int32) (row : Row) : Except ErrorCode Value :=
  exprEvaluateFrom (pool.length + 1) pool i row

end DatabaseEngine
