import DatabaseEngine.Model.Catalog

/-!
# `DatabaseEngine.Model.Semantic`: statements and their check against the catalog

The statements that the parser hands on, and `semanticCheck` of `05_semantic.c`, which fits
the literals of a statement to the columns they meet and binds its columns. A check that
succeeds answers the statement as it left it.

A SELECT is modelled by what it does to pages. The tables that it reads are its own; what
WHERE, ON, GROUP BY and the rest make of the rows is a parameter of the statement (`combine`
and `finish`), and so is the answer of its check (`verdict`).
-/

set_option autoImplicit false

namespace DatabaseEngine

/-- A SELECT. -/
structure SelectStatement where
  tables : List Name
  /-- `joinSchemaNeeded`: more than one table, or an alias. -/
  joins : Bool
  /-- The rows the join stores, of the rows of each table. -/
  combine : List (List Row) → List Row
  /-- The answer, of the rows of the table or of the join. -/
  finish : List Row → Except ErrorCode (List Row)
  /-- What `checkSelect`, or `checkSubquery` of a subquery, says of it. -/
  verdict : Except ErrorCode Unit

/-- CREATE TABLE, with its CHECK. -/
structure CreateStatement where
  table : Name
  cols : List Column
  check : Condition

/-- CREATE INDEX. -/
structure CreateIndexStatement where
  name : Name
  table : Name
  column : Name

/-- INSERT. -/
structure InsertStatement where
  table : Name
  /-- Empty without a column list. -/
  columns : List Name
  values : List Value

/-- A column and the expression it is set to. -/
structure Assignment where
  column : Name
  expr : Int32

/-- UPDATE. -/
structure UpdateStatement where
  table : Name
  sets : List Assignment
  exprs : ExprPool
  wher : Condition

/-- DELETE. -/
structure DeleteStatement where
  table : Name
  wher : Condition

/-- What an ALTER TABLE does. -/
inductive AlterAction
  | ALTER_ADD_COLUMN (column : Column)
  | ALTER_DROP_COLUMN (name : Name)
  | ALTER_RENAME_COLUMN (name newName : Name)
  | ALTER_RENAME_TABLE (newName : Name)

/-- ALTER TABLE. -/
structure AlterStatement where
  table : Name
  action : AlterAction

/-- What a statement does, without its subqueries. -/
inductive StatementKind
  | STMT_CREATE_TABLE (create : CreateStatement)
  | STMT_CREATE_INDEX (create : CreateIndexStatement)
  | STMT_INSERT (insert : InsertStatement)
  | STMT_SELECT (select : SelectStatement)
  | STMT_DELETE (del : DeleteStatement)
  | STMT_UPDATE (update : UpdateStatement)
  | STMT_VACUUM (table : Name)
  | STMT_ALTER_TABLE (alter : AlterStatement)
  | STMT_CREATE_DATABASE (name : Name)
  | STMT_USE_DATABASE (name : Name)
  | STMT_DROP_DATABASE (name : Name)
  | STMT_DROP_TABLE (name : Name)
  | STMT_DROP_INDEX (name : Name)
  | STMT_BEGIN
  | STMT_COMMIT
  | STMT_ROLLBACK

/-- A subquery, and whether it has to answer one value at most. -/
structure Subquery where
  select : SelectStatement
  scalar : Bool

/-- A parsed statement with the subqueries written in it. -/
structure Statement where
  kind : StatementKind
  subqueries : List Subquery

/-- A statement without subqueries. -/
def StatementKind.alone (kind : StatementKind) : Statement := { kind := kind, subqueries := [] }

/-- The statements on databases and transactions. -/
def StatementKind.bare : StatementKind → Bool
  | .STMT_CREATE_DATABASE _ | .STMT_USE_DATABASE _ | .STMT_DROP_DATABASE _
  | .STMT_BEGIN | .STMT_COMMIT | .STMT_ROLLBACK => true
  | _ => false

/-- A statement as the parser makes it: one on databases or transactions has no subquery. -/
def Statement.Parsed (statement : Statement) : Prop :=
  statement.kind.bare = true → statement.subqueries = []

/-- A statement without a subquery is as the parser leaves it. -/
theorem StatementKind.alone_parsed (kind : StatementKind) : kind.alone.Parsed := fun _ => rfl

/-- No WHERE or CHECK. -/
def noCondition : Condition := { present := false, root := 0, nodes := [], exprs := [] }

/-- A column with a name and a type, and nothing more asked of it. -/
def plainColumn (name : List UInt8) (type : ColType) : Column :=
  { name := Name.ofBytes name, type := type, size := 0, notNull := false, unique := false,
    primary := false, hasDefault := false, defaultValue := zeroValue }

/-- An operand that names a column. -/
def columnOperand (name : List UInt8) : ExprNode :=
  { kind := .EXPR_COLUMN, op := .ARITH_ADD, left := -1, right := -1, column := Name.ofBytes name,
    literal := zeroValue, slot := -1, type := .TYPE_INT }

/-! ### Dates -/

/-- The days from 1970-01-01 to a date. -/
def daysFromCivil (year month day : Int) : Int :=
  let year := if month ≤ 2 then year - 1 else year
  let era := (if 0 ≤ year then year else year - 399).tdiv 400
  let yoe := year - era * 400
  let doy := (153 * (month + (if 2 < month then -3 else 9)) + 2) / 5 + day - 1
  let doe := yoe * 365 + yoe / 4 - yoe / 100 + doy
  era * 146097 + doe - 719468

/-- The days of a month. -/
def daysInMonth (year month : Nat) : Nat :=
  if month = 2 ∧ (year % 4 = 0 ∧ year % 100 ≠ 0 ∨ year % 400 = 0) then 29
  else [31, 28, 31, 30, 31, 30, 31, 31, 30, 31, 30, 31].getD (month - 1) 0

/-- The number that digits write, none when one of them is not a digit. -/
def readDigits (digits : List UInt8) : Option Nat :=
  digits.foldl (fun n c =>
    n.bind fun n => if c < 48 ∨ 57 < c then none else some (n * 10 + (c.toNat - 48))) (some 0)

/-- Reads exactly `YYYY-MM-DD`. -/
def textToDate (text : List UInt8) : Except ErrorCode Int32 :=
  if text.length ≠ 10 ∨ text[4]? ≠ some 45 ∨ text[7]? ≠ some 45 then
    .error .SEMANTIC_INVALID_DATE
  else
    match readDigits (text.take 4), readDigits ((text.drop 5).take 2),
      readDigits ((text.drop 8).take 2) with
    | some year, some month, some day =>
      if month < 1 ∨ 12 < month then .error .SEMANTIC_INVALID_DATE
      else if day < 1 ∨ daysInMonth year month < day then .error .SEMANTIC_INVALID_DATE
      else .ok (Int32.ofInt (daysFromCivil year month day))
    | _, _, _ => .error .SEMANTIC_INVALID_DATE

/-! ### Literals and conditions -/

/-- Fits a literal to the column it is about to meet. -/
def coerceLiteral (value : Value) (type : ColType) : Except ErrorCode Value :=
  if value.isNull then .ok { value with type := type }
  else if value.type = type then .ok value
  else if type = .TYPE_FLOAT ∧ value.type = .TYPE_INT then
    .ok (setFloat (intToDouble value.intValue))
  else if type = .TYPE_DATE ∧ value.type = .TYPE_TEXT then
    match textToDate value.text with
    | .error code => .error code
    | .ok days => .ok { value with type := .TYPE_DATE, intValue := days, text := [] }
  else .error .SEMANTIC_TYPE_MISMATCH

/-- The expression at an index with its literal fitted to a type. -/
def coerceAt (exprs : ExprPool) (i : Int32) (type : ColType) : Except ErrorCode ExprPool :=
  match exprs.node i with
  | none => .error .SEMANTIC_TYPE_MISMATCH
  | some node =>
    match coerceLiteral node.literal type with
    | .error code => .error code
    | .ok literal => .ok (exprs.setNode i { node with literal := literal })

/-- Resolves an expression and answers its type. -/
def resolveType (table : CatalogNode) (exprs : ExprPool) (i : Int32) :
    Except ErrorCode (ColType × ExprPool) :=
  match exprResolve table exprs i with
  | (.error code, _) => .error code
  | (.ok (), exprs) =>
    match exprType exprs i with
    | .error code => .error code
    | .ok type => .ok (type, exprs)

/-- Two sides of a comparison brought to one type, by fitting a literal. -/
def agreeSides (table : CatalogNode) (exprs : ExprPool) (compare : Predicate)
    (left right : ColType) : Except ErrorCode ExprPool :=
  if left = right then .ok exprs
  else
    let fitted :=
      if (exprLiteral exprs compare.right).isSome then coerceAt exprs compare.right left
      else if (exprLiteral exprs compare.left).isSome then coerceAt exprs compare.left right
      else .error .SEMANTIC_TYPE_MISMATCH
    match fitted with
    | .error code => .error code
    | .ok exprs =>
      -- the node remembers what its literal became
      .ok (exprResolve table (exprResolve table exprs compare.left).2 compare.right).2

/-- What the check of a subquery says. -/
def checkSubquery (subqueries : List Subquery) (i : Int32) : Except ErrorCode Unit :=
  if i < 0 then .error .SEMANTIC_COLUMN_NOT_FOUND
  else
    match subqueries[i.toInt.toNat]? with
    | none => .error .SEMANTIC_COLUMN_NOT_FOUND
    | some sub => sub.select.verdict

/-- Checks one comparison against the table. -/
def checkPredicate (subqueries : List Subquery) (table : CatalogNode) (exprs : ExprPool)
    (compare : Predicate) : Except ErrorCode ExprPool :=
  if compare.op = .OP_EXISTS then
    (checkSubquery subqueries compare.subquery).map fun _ => exprs
  else
    match resolveType table exprs compare.left with
    | .error code => .error code
    | .ok (left, exprs) =>
      if compare.op = .OP_IS_NULL ∨ compare.op = .OP_IS_NOT_NULL then .ok exprs
      else if compare.op = .OP_IN ∨ 0 ≤ compare.subquery then
        (checkSubquery subqueries compare.subquery).map fun _ => exprs
      else if compare.op = .OP_LIKE ∨ compare.op = .OP_NOT_LIKE then
        if left = .TYPE_TEXT then .ok exprs else .error .SEMANTIC_TYPE_MISMATCH
      else
        match resolveType table exprs compare.right with
        | .error code => .error code
        | .ok (right, exprs) => agreeSides table exprs compare left right

/-- Checks every comparison of a tree against the table. -/
def checkConditionFrom (subqueries : List Subquery) (table : CatalogNode)
    (nodes : List ConditionNode) : Nat → ExprPool → Int32 → Except ErrorCode ExprPool
  | 0, _, _ => .error .GENERAL_ERROR
  | fuel + 1, exprs, i =>
    match if i < 0 then none else nodes[i.toInt.toNat]? with
    | none => .error .GENERAL_ERROR
    | some node =>
      match node.kind with
      | .COND_COMPARE => checkPredicate subqueries table exprs node.compare
      | .COND_NOT => checkConditionFrom subqueries table nodes fuel exprs node.left
      | .COND_AND | .COND_OR =>
        match checkConditionFrom subqueries table nodes fuel exprs node.left with
        | .error code => .error code
        | .ok exprs => checkConditionFrom subqueries table nodes fuel exprs node.right

/-- Checks a condition from its root. -/
def checkCondition (subqueries : List Subquery) (table : CatalogNode) (cond : Condition) :
    Except ErrorCode Condition :=
  (checkConditionFrom subqueries table cond.nodes cond.nodes.length cond.exprs cond.root).map
    fun exprs => { cond with exprs := exprs }

/-- Checks a WHERE if there is one. -/
def checkWhere (subqueries : List Subquery) (table : CatalogNode) (cond : Condition) :
    Except ErrorCode Condition :=
  if cond.present then checkCondition subqueries table cond else .ok cond

/-! ### One check for each kind of statement -/

/-- Whether two members of a list of names are the same. -/
def hasDuplicate : List Name → Bool
  | [] => false
  | name :: rest => rest.any (name.same ·) || hasDuplicate rest

/-- A column's default, fitted to the column. -/
def checkDefault (column : Column) : Except ErrorCode Column :=
  if !column.hasDefault then .ok column
  else
    match coerceLiteral column.defaultValue column.type with
    | .error code => .error code
    | .ok value =>
      if value.isNull && column.notNull then .error .EXEC_NOT_NULL
      else .ok { column with defaultValue := value }

/-- Checks a CREATE TABLE. -/
def checkCreate (tables : List CatalogNode) (subqueries : List Subquery)
    (create : CreateStatement) : Except ErrorCode CreateStatement := do
  if (findTable tables create.table).isSome then .error .SEMANTIC_TABLE_EXISTS
  else if hasDuplicate (create.cols.map Column.name) then .error .SEMANTIC_DUPLICATE_COLUMN
  else
    let cols ← create.cols.mapM checkDefault
    let check ← checkWhere subqueries { table := create.table, cols := cols, check := none }
      create.check
    .ok { create with cols := cols, check := check }

/-- Checks a CREATE INDEX. -/
def checkCreateIndex (db : Database) (create : CreateIndexStatement) :
    Except ErrorCode CreateIndexStatement :=
  if (findIndexByName db.indexes create.name).isSome then .error .SEMANTIC_INDEX_EXISTS
  else
    match findTable db.tables create.table with
    | none => .error .SEMANTIC_TABLE_NOT_FOUND
    | some table =>
      if findColumn table create.column.1 < 0 then .error .SEMANTIC_COLUMN_NOT_FOUND
      else .ok create

/-- Checks an ALTER TABLE. -/
def checkAlter (db : Database) (alter : AlterStatement) : Except ErrorCode AlterStatement :=
  match findTable db.tables alter.table with
  | none => .error .SEMANTIC_TABLE_NOT_FOUND
  | some table =>
    match alter.action with
    | .ALTER_ADD_COLUMN column =>
      if column.unique || column.primary then .error .SEMANTIC_ALTER_UNSUPPORTED
      else if column.notNull && !column.hasDefault
          && (findHeap db.heaps alter.table).any fun heap => decide (0 < heap.nlive) then
        .error .SEMANTIC_MISSING_VALUE
      else if column.hasDefault then
        match coerceLiteral column.defaultValue column.type with
        | .error code => .error code
        | .ok value =>
          .ok { alter with action := .ALTER_ADD_COLUMN { column with defaultValue := value } }
      else .ok alter
    | .ALTER_RENAME_TABLE newName =>
      if (findTable db.tables newName).isSome then .error .SEMANTIC_TABLE_EXISTS else .ok alter
    | .ALTER_DROP_COLUMN name =>
      if findColumn table name.1 < 0 then .error .SEMANTIC_COLUMN_NOT_FOUND
      else if table.check.isSome then .error .SEMANTIC_CHECK_BLOCKS_DROP
      else .ok alter
    | .ALTER_RENAME_COLUMN name _ =>
      if findColumn table name.1 < 0 then .error .SEMANTIC_COLUMN_NOT_FOUND else .ok alter

/-- The assignments of an UPDATE, one after another, with the ones still to come. -/
def checkSets (table : CatalogNode) : List Assignment → ExprPool → Except ErrorCode ExprPool
  | [], exprs => .ok exprs
  | set :: rest, exprs =>
    match findColumn table set.column.1 with
    | .negSucc _ => .error .SEMANTIC_COLUMN_NOT_FOUND
    | .ofNat slot =>
      match resolveType table exprs set.expr with
      | .error code => .error code
      | .ok (type, exprs) =>
        let fitted :=
          if type = table.columnType slot then .ok exprs
          else if (exprLiteral exprs set.expr).isNone then .error .SEMANTIC_TYPE_MISMATCH
          else
            (coerceAt exprs set.expr (table.columnType slot)).map fun exprs =>
              (exprResolve table exprs set.expr).2
        match fitted with
        | .error code => .error code
        | .ok exprs =>
          if rest.any fun other => set.column.same other.column then
            .error .SEMANTIC_DUPLICATE_COLUMN
          else checkSets table rest exprs

/-- Checks an UPDATE. -/
def checkUpdate (tables : List CatalogNode) (subqueries : List Subquery)
    (update : UpdateStatement) : Except ErrorCode UpdateStatement :=
  match findTable tables update.table with
  | none => .error .SEMANTIC_TABLE_NOT_FOUND
  | some table =>
    match checkSets table update.sets update.exprs with
    | .error code => .error code
    | .ok exprs =>
      match checkWhere subqueries table update.wher with
      | .error code => .error code
      | .ok wher => .ok { update with exprs := exprs, wher := wher }

/-- Checks a DELETE. -/
def checkDelete (tables : List CatalogNode) (subqueries : List Subquery)
    (del : DeleteStatement) : Except ErrorCode DeleteStatement :=
  match findTable tables del.table with
  | none => .error .SEMANTIC_TABLE_NOT_FOUND
  | some table =>
    match checkWhere subqueries table del.wher with
    | .error code => .error code
    | .ok wher => .ok { del with wher := wher }

/-- `findColumn` folds two failures into one negative answer; only the message differs. -/
def columnError (slot : Int) : ErrorCode :=
  if slot = COLUMN_AMBIGUOUS then .SEMANTIC_AMBIGUOUS_COLUMN else .SEMANTIC_COLUMN_NOT_FOUND

/-- The values of an INSERT without a column list, each fitted to its column. -/
def coerceAll : List Column → List Value → Except ErrorCode (List Value)
  | column :: cols, value :: values => do
    let value ← coerceLiteral value column.type
    let rest ← coerceAll cols values
    .ok (value :: rest)
  | _, _ => .ok []

/-- The values of an INSERT with a column list. Answers them, and the columns listed. -/
def coerceListed (table : CatalogNode) :
    List Name → List Value → List Nat → Except ErrorCode (List Value × List Nat)
  | name :: names, value :: values, listed =>
    match findColumn table name.1 with
    | .negSucc n => .error (columnError (.negSucc n))
    | .ofNat slot =>
      if slot ∈ listed then .error .SEMANTIC_DUPLICATE_COLUMN
      else do
        let value ← coerceLiteral value (table.columnType slot)
        let (rest, listed) ← coerceListed table names values (slot :: listed)
        .ok (value :: rest, listed)
  | _, _, listed => .ok ([], listed)

/-- Checks an INSERT. -/
def checkInsert (tables : List CatalogNode) (insert : InsertStatement) :
    Except ErrorCode InsertStatement :=
  match findTable tables insert.table with
  | none => .error .SEMANTIC_TABLE_NOT_FOUND
  | some table =>
    if insert.columns.isEmpty then
      if insert.values.length ≠ table.cols.length then .error .SEMANTIC_COLUMN_COUNT
      else (coerceAll table.cols insert.values).map fun values => { insert with values := values }
    else if insert.values.length ≠ insert.columns.length then .error .SEMANTIC_COLUMN_COUNT
    else
      match coerceListed table insert.columns insert.values [] with
      | .error code => .error code
      | .ok (values, listed) =>
        -- every column left out needs its default, or to take a NULL
        if table.cols.zipIdx.any fun c => !listed.contains c.2 && !c.1.hasDefault && c.1.notNull
        then .error .SEMANTIC_MISSING_VALUE
        else .ok { insert with values := values }

/-- Checks the parsed statement against the catalog. -/
def semanticCheck (engine : Engine) (statement : Statement) : Except ErrorCode Statement :=
  let db := engine.database
  let keep (kind : StatementKind) : Statement := { statement with kind := kind }
  match statement.kind with
  | .STMT_CREATE_TABLE create =>
    (checkCreate db.tables statement.subqueries create).map fun c => keep (.STMT_CREATE_TABLE c)
  | .STMT_CREATE_INDEX create =>
    (checkCreateIndex db create).map fun c => keep (.STMT_CREATE_INDEX c)
  | .STMT_INSERT insert => (checkInsert db.tables insert).map fun i => keep (.STMT_INSERT i)
  | .STMT_SELECT select => select.verdict.map fun _ => statement
  | .STMT_DELETE del =>
    (checkDelete db.tables statement.subqueries del).map fun d => keep (.STMT_DELETE d)
  | .STMT_UPDATE update =>
    (checkUpdate db.tables statement.subqueries update).map fun u => keep (.STMT_UPDATE u)
  | .STMT_VACUUM table =>
    if (findTable db.tables table).isSome then .ok statement else .error .SEMANTIC_TABLE_NOT_FOUND
  | .STMT_ALTER_TABLE alter => (checkAlter db alter).map fun a => keep (.STMT_ALTER_TABLE a)
  | .STMT_CREATE_DATABASE name =>
    if (findDatabase engine.databases name).isSome then .error .SEMANTIC_DATABASE_EXISTS
    else .ok statement
  | .STMT_USE_DATABASE name =>
    if (findDatabase engine.databases name).isSome then .ok statement
    else .error .SEMANTIC_DATABASE_NOT_FOUND
  | .STMT_DROP_DATABASE name =>
    match findDatabase engine.databases name with
    | none => .error .SEMANTIC_DATABASE_NOT_FOUND
    | some 0 => .error .SEMANTIC_CANNOT_DROP_DEFAULT
    | some _ => .ok statement
  | .STMT_DROP_TABLE name =>
    if (findTable db.tables name).isSome then .ok statement else .error .SEMANTIC_TABLE_NOT_FOUND
  | .STMT_DROP_INDEX name =>
    if (findIndexByName db.indexes name).isSome then .ok statement
    else .error .SEMANTIC_INDEX_NOT_FOUND
  | .STMT_BEGIN | .STMT_COMMIT | .STMT_ROLLBACK => .ok statement

end DatabaseEngine
