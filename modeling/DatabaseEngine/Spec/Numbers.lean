import DatabaseEngine.Spec.Printing

/-!
# `DatabaseEngine.Spec.Numbers`: the places where a number meets a column

A number is written alone or behind one minus sign. `Place` is a column of a type together with
what stands around the number in each clause: what the clause has read before it, and tokens
behind it that go on with neither the number nor the clause. `Place.meaning` is what the engine
makes of the number at a position there, through the reader and the check of that clause: the
value that is stored, or compared with, or the error that refuses the statement.
-/

set_option autoImplicit false

namespace DatabaseEngine

/-- A number token, alone or behind one minus sign. -/
def numberTokens (negative : Bool) (digits : List UInt8) : List Token :=
  if negative then [minusToken, ⟨.TOKEN_NUMBER, digits⟩] else [⟨.TOKEN_NUMBER, digits⟩]

/-- Tokens that go on with no expression, no list and no constraint. -/
def Apart (tokens : List Token) : Prop :=
  typeAt tokens 0 ∉ [TokenType.TOKEN_PLUS, .TOKEN_MINUS, .TOKEN_STAR, .TOKEN_SLASH, .TOKEN_PERCENT,
    .TOKEN_COMMA, .TOKEN_KEYWORD_PRIMARY, .TOKEN_KEYWORD_UNIQUE, .TOKEN_KEYWORD_NOT,
    .TOKEN_KEYWORD_DEFAULT, .TOKEN_KEYWORD_CHECK]

/-- A column of a type, and what stands around a number that meets it. -/
structure Place (type : ColType) where
  table : CatalogNode
  /-- The column's name as the statement writes it. -/
  column : List UInt8
  slot : Nat
  found : findColumn table (Name.ofBytes column).1 = (slot : Int)
  typed : table.columnType slot = type
  /-- The tokens behind the number. -/
  behind : List Token
  apart : Apart behind
  /-- The values that stand before it in VALUES. -/
  values : List Value
  fewValues : values.length < MAX_COLS
  /-- A column of the type that is being made, by CREATE TABLE or by ALTER TABLE. -/
  made : Column
  madeType : made.type = type
  db : Database
  altered : Name
  stands : (findTable db.tables altered).isSome = true
  addable : made.unique = false ∧ made.primary = false
  /-- What the condition has read before the comparison, with room for one more. -/
  relation : Relation
  before : ConditionRead
  fewNodes : before.nodes.length < MAX_CONDITION_NODES
  fewOperands : before.exprs.length + 3 ≤ MAX_EXPR_NODES
  subqueries : List Subquery
  /-- The assignments before it, with room for one more. -/
  sets : List Assignment
  fewSets : sets.length < MAX_COLS
  exprs : ExprPool
  fewExprs : exprs.length + 2 ≤ MAX_EXPR_NODES
  /-- The row that the comparison or the assignment is made on. -/
  row : Row

/-- The places where a number may stand. -/
inductive Position
  | VALUES
  | LISTED_VALUES
  | DEFAULT
  | ADDED_DEFAULT
  | COMPARISON
  | SET
  deriving DecidableEq, Repr

namespace Place
variable {type : ColType} (p : Place type) (number : List Token)

/-- The name of the column. -/
def name : Token := ⟨.TOKEN_IDENTIFIER, p.column⟩

/-- The value of an INSERT that the number becomes. -/
def listedValue : Except ErrorCode Value := do
  let tokens := number ++ p.behind
  let (values, _) ← parseValues (parseFuel tokens) p.values tokens
  .ok (values.getLastD zeroValue)

/-- In VALUES, where the values stand in the order of the columns. -/
def inValues : Except ErrorCode Value := do
  let value ← p.listedValue number
  let fitted ← coerceAll [p.made] [value]
  .ok (fitted.headD zeroValue)

/-- In VALUES, behind a list of columns. -/
def inListedValues : Except ErrorCode Value := do
  let value ← p.listedValue number
  let (fitted, _) ← coerceListed p.table [Name.ofBytes p.column] [value] []
  .ok (fitted.headD zeroValue)

/-- The column that is made, with its DEFAULT as it is read. -/
def constrained : Except ErrorCode Column := do
  let tokens := ⟨.TOKEN_KEYWORD_DEFAULT, ascii "default"⟩ :: (number ++ p.behind)
  let (read, _) ← parseColumnConstraints parseSubquery (parseFuel tokens) tokens
    { column := p.made, checkRoot := -1, check := emptyRead [] }
  .ok read.column

/-- In a DEFAULT of a CREATE TABLE. -/
def asDefault : Except ErrorCode Value := do
  let column ← p.constrained number
  let checked ← checkDefault column
  .ok checked.defaultValue

/-- In a DEFAULT of an ALTER TABLE ADD COLUMN. -/
def asAddedDefault : Except ErrorCode Value := do
  let column ← p.constrained number
  let alter ← checkAlter p.db { table := p.altered, action := .ALTER_ADD_COLUMN column }
  match alter.action with
  | .ALTER_ADD_COLUMN column => .ok column.defaultValue
  | _ => .error .GENERAL_ERROR

/-- On the right of a comparison with the column: the value of the right side on a row. -/
def compared : Except ErrorCode Value := do
  let (i, _, cond) ← parseComparison parseSubquery false
    (p.name :: p.relation.token :: (number ++ p.behind)) p.before
  match cond.nodes[i.toInt.toNat]? with
  | none => .error .GENERAL_ERROR
  | some node => do
    let exprs ← checkPredicate p.subqueries p.table cond.exprs node.compare
    exprEvaluate exprs node.compare.right p.row

/-- On the right of a SET of the column: the value that the row is given. -/
def assigned : Except ErrorCode Value := do
  let tokens := p.name :: Relation.eq.token :: (number ++ p.behind)
  let (sets, _, pool) ← parseSets (parseFuel tokens) p.sets tokens p.exprs
  match sets.getLast? with
  | none => .error .GENERAL_ERROR
  | some set => do
    let exprs ← checkSets p.table [set] pool
    exprEvaluate exprs set.expr p.row

/-- What the number means at a position. -/
def meaning : Position → Except ErrorCode Value
  | .VALUES => p.inValues number
  | .LISTED_VALUES => p.inListedValues number
  | .DEFAULT => p.asDefault number
  | .ADDED_DEFAULT => p.asAddedDefault number
  | .COMPARISON => p.compared number
  | .SET => p.assigned number

end Place

/-- The numbers that the clauses part over: the smallest integer beside an int, and a negative
integer beside a float. -/
def PartsWays (type : ColType) (negative : Bool) (digits : List UInt8) : Prop :=
  negative = true ∧ 46 ∉ digits ∧
    (type = .TYPE_INT ∧ strtoll digits = 2147483648 ∨
      type = .TYPE_FLOAT ∧ strtoll digits ≤ 2147483648)

end DatabaseEngine
