import DatabaseEngine.Model.Expr

/-!
# `DatabaseEngine.Model.Condition`: conditions on a row

The condition trees of `06_executor.c`: what one comparison says, `LIKE`, and the
three-valued walk over the tree. What the statement's subqueries returned is a parameter
(`Subqueries`): the first column of each row, in order.
-/

set_option autoImplicit false

namespace DatabaseEngine

/-- Three truth values. -/
inductive TriState
  | TRI_FALSE
  | TRI_TRUE
  | TRI_UNKNOWN
  deriving DecidableEq, Repr

/-- What each subquery of the statement produced, `subqueryResult[k]`. -/
abbrev Subqueries := Nat → List Value

/-- Two of them. -/
def TriState.ofBool (b : Bool) : TriState := if b then TRI_TRUE else TRI_FALSE

/-- NOT leaves UNKNOWN as it is. -/
def TriState.not : TriState → TriState
  | TRI_UNKNOWN => TRI_UNKNOWN
  | TRI_TRUE => TRI_FALSE
  | TRI_FALSE => TRI_TRUE

/-- FALSE decides an AND. -/
def TriState.and (left right : TriState) : TriState :=
  if left = TRI_FALSE ∨ right = TRI_FALSE then TRI_FALSE
  else if left = TRI_UNKNOWN ∨ right = TRI_UNKNOWN then TRI_UNKNOWN
  else TRI_TRUE

/-- TRUE decides an OR. -/
def TriState.or (left right : TriState) : TriState :=
  if left = TRI_TRUE ∨ right = TRI_TRUE then TRI_TRUE
  else if left = TRI_UNKNOWN ∨ right = TRI_UNKNOWN then TRI_UNKNOWN
  else TRI_FALSE

/-- The loop of `likeMatch`: the text and the pattern still to read, and where to go back to
on a mismatch, just past the last `%` and one character further on in the text. -/
def likeLoop : Nat → List UInt8 → List UInt8 → Option (List UInt8 × List UInt8) → Bool
  | 0, _, _, _ => false
  | _ + 1, [], pattern, _ => pattern.all (· == 37)
  | fuel + 1, c :: text, pattern, star =>
    let back :=
      match star with
      | some (afterStar, _ :: retry) => likeLoop fuel retry afterStar (some (afterStar, retry))
      | _ => false
    match pattern with
    | [] => back
    | p :: rest =>
      if p = 37 then likeLoop fuel (c :: text) rest (some (rest, c :: text))
      else if p = 95 ∨ p = c then likeLoop fuel text rest star
      else back

/-- SQL `LIKE`: `%` matches any run of characters, `_` exactly one. -/
def likeMatch (text pattern : List UInt8) : Bool :=
  likeLoop ((text.length + 1) * (text.length + pattern.length + 2)) text
    (pattern.takeWhile (· ≠ 0)) none

/-- The literal head of a pattern, up to the first wildcard. -/
def likePrefix (pattern : List UInt8) : List UInt8 :=
  (pattern.takeWhile fun c => c ≠ 0 ∧ c ≠ 37 ∧ c ≠ 95).take (VALUE_LEN - 1)

/-- One comparison of two values. -/
def comparePredicate (value other : Value) (op : CompareOp) : TriState :=
  if op = .OP_IS_NULL then .ofBool value.isNull
  else if op = .OP_IS_NOT_NULL then .ofBool !value.isNull
  else if value.isNull || other.isNull then .TRI_UNKNOWN
  else if value.type ≠ other.type then .TRI_UNKNOWN
  else
    match op with
    | .OP_LIKE => .ofBool (likeMatch value.text other.text)
    | .OP_NOT_LIKE => .ofBool !likeMatch value.text other.text
    | .OP_EQ => .ofBool (valuesSame value other)
    | .OP_NE => .ofBool !valuesSame value other
    | .OP_LT => .ofBool (compareValues value other == .lt)
    | .OP_LTE => .ofBool (compareValues value other != .gt)
    | .OP_GT => .ofBool (compareValues value other == .gt)
    | .OP_GTE => .ofBool (compareValues value other != .lt)
    | _ => .TRI_FALSE

/-- `x IN (values)`: no match among values with a NULL is unknown. -/
def valueInResult (value : Value) (set : List Value) : TriState :=
  if value.isNull then .TRI_UNKNOWN
  else if set.any fun candidate =>
      !candidate.isNull && comparePredicate value candidate .OP_EQ == .TRI_TRUE then .TRI_TRUE
  else if set.any Value.isNull then .TRI_UNKNOWN
  else .TRI_FALSE

/-- The node an index leads to. -/
def Condition.node (cond : Condition) (i : Int32) : Option ConditionNode :=
  if i < 0 then none else cond.nodes[i.toInt.toNat]?

/-- One predicate on a row. An operand that cannot be computed makes it unknown. -/
def evaluatePredicate (exprs : ExprPool) (sub : Subqueries) (compare : Predicate) (row : Row) :
    TriState :=
  if compare.op = .OP_EXISTS then
    .ofBool !(sub compare.subquery.toInt.toNat).isEmpty
  else
    match exprEvaluate exprs compare.left row with
    | .error _ => .TRI_UNKNOWN
    | .ok left =>
      if compare.op = .OP_IS_NULL ∨ compare.op = .OP_IS_NOT_NULL then
        comparePredicate left left compare.op
      else if compare.op = .OP_IN then valueInResult left (sub compare.subquery.toInt.toNat)
      else if 0 ≤ compare.subquery then
        match sub compare.subquery.toInt.toNat with
        | [] => .TRI_UNKNOWN
        | value :: _ => comparePredicate left value compare.op
      else
        match exprEvaluate exprs compare.right row with
        | .error _ => .TRI_UNKNOWN
        | .ok right => comparePredicate left right compare.op

/-- The tree on a row. A walk as long as the tree has nodes ends; one that does not, or that
leads out of the tree, answers unknown. -/
def evaluateConditionFrom : Nat → Condition → Subqueries → Int32 → Row → TriState
  | 0, _, _, _, _ => .TRI_UNKNOWN
  | fuel + 1, cond, sub, i, row =>
    match cond.node i with
    | none => .TRI_UNKNOWN
    | some node =>
      match node.kind with
      | .COND_COMPARE => evaluatePredicate cond.exprs sub node.compare row
      | .COND_NOT => (evaluateConditionFrom fuel cond sub node.left row).not
      | .COND_AND =>
        (evaluateConditionFrom fuel cond sub node.left row).and
          (evaluateConditionFrom fuel cond sub node.right row)
      | .COND_OR =>
        (evaluateConditionFrom fuel cond sub node.left row).or
          (evaluateConditionFrom fuel cond sub node.right row)

/-- A condition on a row. -/
def evaluateCondition (cond : Condition) (sub : Subqueries) (row : Row) : TriState :=
  evaluateConditionFrom cond.nodes.length cond sub cond.root row

/-- Binds the operands of one predicate. -/
def resolvePredicate (table : CatalogNode) (exprs : ExprPool) (compare : Predicate) :
    Except ErrorCode Unit × ExprPool :=
  if compare.op = .OP_EXISTS then (.ok (), exprs)
  else
    match exprResolve table exprs compare.left with
    | (.error e, exprs) => (.error e, exprs)
    | (.ok (), exprs) =>
      -- IS NULL has no right side
      if compare.right < 0 then (.ok (), exprs) else exprResolve table exprs compare.right

/-- Binds every column of every comparison to a position in the row. -/
def resolveNodes (table : CatalogNode) : List ConditionNode → ExprPool →
    Except ErrorCode Unit × ExprPool
  | [], exprs => (.ok (), exprs)
  | node :: rest, exprs =>
    if node.kind = .COND_COMPARE then
      match resolvePredicate table exprs node.compare with
      | (.error e, exprs) => (.error e, exprs)
      | (.ok (), exprs) => resolveNodes table rest exprs
    else resolveNodes table rest exprs

/-- Binds the operands of a whole condition. -/
def resolveCondition (table : CatalogNode) (cond : Condition) :
    Except ErrorCode Unit × Condition :=
  let (result, exprs) := resolveNodes table cond.nodes cond.exprs
  (result, { cond with exprs := exprs })

/-- The deepest column an expression reads, `-1` when it reads none. -/
def exprDeepestFrom : Nat → ExprPool → Int32 → Int
  | 0, _, _ => -1
  | fuel + 1, pool, i =>
    match pool.node i with
    | none => -1
    | some node =>
      match node.kind with
      | .EXPR_COLUMN => node.slot
      | .EXPR_LITERAL => -1
      | .EXPR_NEGATE => exprDeepestFrom fuel pool node.left
      | .EXPR_BINARY => max (exprDeepestFrom fuel pool node.left) (exprDeepestFrom fuel pool node.right)

/-- The last column an expression reads, or -1. -/
def exprDeepest (pool : ExprPool) (i : Int32) : Int := exprDeepestFrom (pool.length + 1) pool i

/-- The deepest column any comparison reads. -/
def conditionDeepest (cond : Condition) : Int :=
  cond.nodes.foldl (fun deepest node =>
    if node.kind = .COND_COMPARE then
      max deepest (max (exprDeepest cond.exprs node.compare.left)
        (exprDeepest cond.exprs node.compare.right))
    else deepest) (-1)

end DatabaseEngine
