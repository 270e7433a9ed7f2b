import DatabaseEngine.Model.Semantic

/-!
# `DatabaseEngine.Spec.Typing`: the types of a condition's operands

What a table's columns and the literals alone say of an expression (`typeOf`), before any
literal is fitted to a column; the comparisons of a condition in the order in which a check
meets them; and how a condition that the parser wrote shares its operands.

* `Values`: the values a row can give a comparison on its two sides.
* `SidesAgree`: whenever both are there and neither is NULL, they have one type.
* `fittedType`: the type of a left side after the comparisons that have been checked.
-/

set_option autoImplicit false

namespace DatabaseEngine

/-! ### Expressions -/

/-- The type of an expression on the columns of a table, none when it has none. -/
def typeFrom (table : CatalogNode) : Nat → ExprPool → Int32 → Option ColType
  | 0, _, _ => none
  | fuel + 1, pool, i =>
    match pool.node i with
    | none => none
    | some node =>
      match node.kind with
      | .EXPR_COLUMN =>
        match findColumn table node.column.1 with
        | .ofNat slot => some (table.columnType slot)
        | .negSucc _ => none
      | .EXPR_LITERAL => some node.literal.type
      | .EXPR_NEGATE => (typeFrom table fuel pool node.left).filter ColType.isNumber
      | .EXPR_BINARY =>
        match typeFrom table fuel pool node.left, typeFrom table fuel pool node.right with
        | some left, some right =>
          if !left.isNumber || !right.isNumber then none
          else if left = .TYPE_FLOAT ∨ right = .TYPE_FLOAT then some .TYPE_FLOAT
          else some .TYPE_INT
        | _, _ => none

/-- The type of an expression, if it has one. -/
def typeOf (table : CatalogNode) (pool : ExprPool) (i : Int32) : Option ColType :=
  typeFrom table (pool.length + 1) pool i

/-- Whether the expression at `i` contains the node at `j`. -/
def reachesFrom : Nat → ExprPool → Int32 → Int32 → Bool
  | 0, _, _, _ => false
  | fuel + 1, pool, i, j =>
    i == j ||
      match pool.node i with
      | none => false
      | some node =>
        match node.kind with
        | .EXPR_COLUMN | .EXPR_LITERAL => false
        | .EXPR_NEGATE => reachesFrom fuel pool node.left j
        | .EXPR_BINARY => reachesFrom fuel pool node.left j || reachesFrom fuel pool node.right j

/-- Whether an expression contains a node. -/
def reaches (pool : ExprPool) (i j : Int32) : Bool := reachesFrom (pool.length + 1) pool i j

/-! ### Comparisons -/

/-- The comparisons of a tree, the ones to the left first. -/
def comparisonsFrom (nodes : List ConditionNode) : Nat → Int32 → List Predicate
  | 0, _ => []
  | fuel + 1, i =>
    match if i < 0 then none else nodes[i.toInt.toNat]? with
    | none => []
    | some node =>
      match node.kind with
      | .COND_COMPARE => [node.compare]
      | .COND_NOT => comparisonsFrom nodes fuel node.left
      | .COND_AND | .COND_OR =>
        comparisonsFrom nodes fuel node.left ++ comparisonsFrom nodes fuel node.right

/-- The comparisons of a condition. -/
def comparisons (cond : Condition) : List Predicate :=
  comparisonsFrom cond.nodes cond.nodes.length cond.root

/-- A comparison with what a subquery returned. -/
def Predicate.takesSubquery (compare : Predicate) : Bool :=
  compare.op = .OP_IN || decide (0 ≤ compare.subquery)

/-- A comparison that looks at one side or none. -/
def Predicate.oneSided (compare : Predicate) : Bool :=
  compare.op = .OP_EXISTS || compare.op = .OP_IS_NULL || compare.op = .OP_IS_NOT_NULL

/-- LIKE or NOT LIKE. -/
def Predicate.matchesPattern (compare : Predicate) : Bool :=
  compare.op = .OP_LIKE || compare.op = .OP_NOT_LIKE

/-- A comparison of two expressions, the kind in which a literal bends. -/
def Predicate.plain (compare : Predicate) : Bool :=
  !compare.oneSided && !compare.takesSubquery && !compare.matchesPattern

/-- The expressions of a comparison. -/
def Predicate.operands (compare : Predicate) : List Int32 :=
  if compare.op = .OP_EXISTS then []
  else if compare.oneSided || compare.takesSubquery then [compare.left]
  else [compare.left, compare.right]

/-- The comparison contains the node. -/
def Predicate.reads (exprs : ExprPool) (compare : Predicate) (j : Int32) : Bool :=
  compare.operands.any fun i => reaches exprs i j

/-- The nodes in which `other` may fit a literal are not in `compare`, unless the two are
equalities of one IN list, which share their left side. -/
def Predicate.Spares (exprs : ExprPool) (compare other : Predicate) : Prop :=
  other.plain = true →
    compare.reads exprs other.right = false ∧
      (compare.reads exprs other.left = true →
        compare.plain = true ∧ compare.left = other.left ∧
          reaches exprs compare.right other.left = false)

instance (exprs : ExprPool) (compare other : Predicate) :
    Decidable (compare.Spares exprs other) :=
  inferInstanceAs (Decidable (_ → _))

/-- One comparison as the parser writes it: its sides are two expressions, and a pattern is a
text. -/
structure Predicate.Written (exprs : ExprPool) (compare : Predicate) : Prop where
  apart : compare.plain = true →
    reaches exprs compare.left compare.right = false ∧
      reaches exprs compare.right compare.left = false
  pattern : compare.matchesPattern = true →
    (exprLiteral exprs compare.right).any (fun literal => literal.type = .TYPE_TEXT) = true

instance (exprs : ExprPool) (compare : Predicate) : Decidable (compare.Written exprs) :=
  decidable_of_iff (_ ∧ _) ⟨fun ⟨h₁, h₂⟩ => ⟨h₁, h₂⟩, fun ⟨h₁, h₂⟩ => ⟨h₁, h₂⟩⟩

/-- A condition as the parser writes it. -/
structure Condition.Written (cond : Condition) : Prop where
  each : ∀ compare ∈ comparisons cond, compare.Written cond.exprs
  apart : (comparisons cond).Pairwise fun compare other =>
    compare.Spares cond.exprs other ∧ other.Spares cond.exprs compare

instance (cond : Condition) : Decidable cond.Written :=
  decidable_of_iff (_ ∧ _) ⟨fun ⟨h₁, h₂⟩ => ⟨h₁, h₂⟩, fun ⟨h₁, h₂⟩ => ⟨h₁, h₂⟩⟩

/-! ### Rows and values -/

/-- A row of a table: each value is NULL or of its column's type. -/
def RowOf (table : CatalogNode) (row : Row) : Prop :=
  ∀ slot, slot < table.cols.length →
    (row.value slot).isNull = true ∨ (row.value slot).type = table.columnType slot

/-- What the subqueries returned: values of the column that each selects, or NULL. -/
def ResultsOf (types : Nat → ColType) (sub : Subqueries) : Prop :=
  ∀ k, ∀ value ∈ sub k, value.isNull = true ∨ value.type = types k

/-- The subquery of a comparison. -/
def Predicate.slot (compare : Predicate) : Nat := compare.subquery.toInt.toNat

/-- What a comparison compares its left side with: the values of an IN, the first value of a
scalar subquery, or the value of its right side. -/
def Predicate.others (exprs : ExprPool) (sub : Subqueries) (compare : Predicate) (row : Row) :
    List Value :=
  if compare.op = .OP_IN then sub compare.slot
  else if 0 ≤ compare.subquery then (sub compare.slot).take 1
  else
    match exprEvaluate exprs compare.right row with
    | .error _ => []
    | .ok right => [right]

/-- The operator that an IN compares with. -/
def Predicate.operator (compare : Predicate) : CompareOp :=
  if compare.op = .OP_IN then .OP_EQ else compare.op

/-- On this row, two sides that are both there and not NULL have one type, and the comparison
is TRUE or FALSE. -/
def SidesAgree (exprs : ExprPool) (sub : Subqueries) (compare : Predicate) (row : Row) : Prop :=
  compare.oneSided = false →
    ∀ left, exprEvaluate exprs compare.left row = .ok left → left.isNull = false →
      ∀ right ∈ compare.others exprs sub row, right.isNull = false →
        left.type = right.type ∧
          comparePredicate left right compare.operator ≠ .TRI_UNKNOWN

/-! ### The condition -/

/-- The type of a bare literal is bent to that of the right side. -/
def fits (table : CatalogNode) (exprs : ExprPool) (left : Int32) (compare : Predicate) : Bool :=
  compare.plain && compare.left == left && (exprLiteral exprs left).isSome
    && (exprLiteral exprs compare.right).isNone
    && typeOf table exprs compare.right != typeOf table exprs left

/-- The type of a left side once the comparisons in the list have been checked: a bare literal
takes the type of the first expression it meets that has another one. -/
def fittedType (table : CatalogNode) (exprs : ExprPool) (checked : List Predicate)
    (left : Int32) : Option ColType :=
  match checked.find? (fits table exprs left) with
  | some compare => typeOf table exprs compare.right
  | none => typeOf table exprs left

/-- The expressions of a comparison bound to the columns of the table. -/
def boundSides (table : CatalogNode) (exprs : ExprPool) (compare : Predicate) : ExprPool :=
  (exprResolve table (exprResolve table exprs compare.left).2 compare.right).2

/-- The left side is an error or NULL on every row, or the right side is wherever the left
side is not. -/
def Silent (table : CatalogNode) (exprs : ExprPool) (compare : Predicate) : Prop :=
  ∀ row, RowOf table row → ∀ left,
    exprEvaluate (boundSides table exprs compare) compare.left row = .ok left →
      left.isNull = false → compare.takesSubquery = false ∧
        ∀ right, exprEvaluate (boundSides table exprs compare) compare.right row = .ok right →
          right.isNull = true

/-- The types of the two sides are settled when the comparison is checked: a subquery's column
has the type of the left side, and a literal on the left does not take its type from a later
member of an IN list. -/
def Settled (table : CatalogNode) (exprs : ExprPool) (types : Nat → ColType)
    (before : List Predicate) (compare : Predicate) (after : List Predicate) : Prop :=
  (compare.oneSided = false → compare.takesSubquery = true →
    typeOf table exprs compare.left = some (types compare.slot)) ∧
  (compare.plain = true →
    fittedType table exprs (before ++ [compare]) compare.left =
      fittedType table exprs (before ++ compare :: after) compare.left)

end DatabaseEngine
