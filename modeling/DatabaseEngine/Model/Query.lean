import DatabaseEngine.Model.Executor
import DatabaseEngine.Model.Select

/-!
# `DatabaseEngine.Model.Query`: SELECT statements and subqueries in full

What the parser makes of a SELECT, the pool that it keeps the subqueries of a statement in, and
`semanticCheck` of `05_semantic.c` over both, which walks from a statement into its subqueries
through the conditions they are written in. `Model/Select` has the select list that this builds
on, and `Model/Semantic` the statements.

The check fits the literals of each SELECT that it reaches and leaves it so in the pool.
`Checking.accepted` remembers which slots `checkSelect` has accepted; nothing reads it. A subquery
that fails on a column gives the error of that column: the source looks the name up in the query
outside and may answer that the subquery is correlated.
-/

set_option autoImplicit false

namespace DatabaseEngine

open Library

/-- How many tables a FROM may list. -/
def MAX_JOIN_TABLES : Nat := 4

/-! ### Statements -/

/-- A term of ORDER BY. -/
structure OrderTerm where
  /-- Matched against the headers of the result. -/
  column : Name
  descending : Bool
  deriving DecidableEq

/-- A table of a FROM list. What its columns are qualified by is its alias, or its name. -/
structure FromTable where
  table : Name
  aliasName : Name
  /-- The right side of a LEFT JOIN. -/
  outer : Bool
  deriving DecidableEq

/-- A SELECT as the parser leaves it. -/
structure ParsedSelect extends SelectList where
  tables : List FromTable
  distinct : Bool
  order : List OrderTerm
  limit : Option Nat
  deriving DecidableEq

/-- A slot of the subquery pool. -/
structure PooledSelect where
  select : ParsedSelect
  scalar : Bool
  deriving DecidableEq

/-- What a parsed statement does. -/
inductive ParsedKind
  | STMT_SELECT (select : ParsedSelect)
  /-- Any other statement. -/
  | plain (kind : StatementKind)

/-- A statement with its subqueries. -/
structure ParsedStatement where
  kind : ParsedKind
  pool : List PooledSelect

/-! ### Schemas -/

/-- Whether a SELECT needs the schema of a join. -/
def joinSchemaNeeded (select : ParsedSelect) : Bool :=
  match select.tables with
  | [from0] => !from0.aliasName.same from0.table
  | _ => true

/-- The columns of a table under an alias: no constraint survives the flattening. -/
def flattened (aliasName : Name) (source : CatalogNode) : List Column :=
  source.cols.map fun column =>
    { column with
      name := Name.ofBytes (aliasName.1.take (NAME_LEN / 2) ++ 46 :: column.name.1)
      notNull := false
      unique := false
      primary := false
      hasDefault := false }

/-- Flattens the tables of a FROM list into one schema. -/
def flattenTables (tables : List CatalogNode) :
    List FromTable → List Name → List Column → Except ErrorCode (List Column)
  | [], _, cols => .ok cols
  | entry :: rest, prior, cols =>
    -- two aliases alike would make half the schema unaddressable
    if prior.any fun other => other.same entry.aliasName then .error .SEMANTIC_DUPLICATE_TABLE
    else
      match findTable tables entry.table with
      | none => .error .SEMANTIC_TABLE_NOT_FOUND
      | some source =>
        if MAX_COLS < cols.length + source.cols.length then .error .SEMANTIC_JOIN_TOO_WIDE
        else
          flattenTables tables rest (prior ++ [entry.aliasName])
            (cols ++ flattened entry.aliasName source)

/-- The columns of all tables, with their aliases in front. -/
def buildJoinSchema (tables : List CatalogNode) (list : List FromTable) :
    Except ErrorCode CatalogNode :=
  (flattenTables tables list [] []).map fun cols =>
    { table := Name.ofBytes JOIN_SCHEMA_NAME, cols := cols, check := none }

/-- The table that a SELECT is checked and run against. -/
def selectSchema (tables : List CatalogNode) (select : ParsedSelect) :
    Except ErrorCode CatalogNode :=
  if joinSchemaNeeded select then buildJoinSchema tables select.tables
  else
    match select.tables.head?.bind fun entry => findTable tables entry.table with
    | none => .error .SEMANTIC_TABLE_NOT_FOUND
    | some table => .ok table

/-! ### The check -/

/-- Where the check is: the pool, and the slots that `checkSelect` has accepted. -/
structure Checking where
  pool : List PooledSelect
  accepted : List Nat

/-- A subquery to be checked, at an index, and whether it has to answer one column. -/
abbrev SubqueryCheck := Int32 → Bool → Checking → Except ErrorCode Checking

namespace Query

/-- `checkSubquery`, given `checkSelect`. -/
def checkSubquery
    (checkSelect : ParsedSelect → Checking → Except ErrorCode (ParsedSelect × Checking)) :
    SubqueryCheck :=
  fun i wantOneColumn checking =>
    let slot := i.toInt.toNat
    if i < 0 then .error .SEMANTIC_COLUMN_NOT_FOUND
    else
      match checking.pool[slot]? with
      | none => .error .SEMANTIC_COLUMN_NOT_FOUND
      | some sub =>
        match checkSelect sub.select checking with
        | .error code => .error code
        | .ok (select, checking) =>
          -- a star is not counted
          if wantOneColumn && !select.selectAll && select.items.length != 1 then
            .error .SEMANTIC_SUBQUERY_COLUMNS
          else
            .ok
              { pool := checking.pool.set slot { sub with select := select }
                accepted := checking.accepted ++ [slot] }

/-- Checks one comparison against the table. -/
def checkPredicate (sub : SubqueryCheck) (table : CatalogNode) (compare : Predicate)
    (exprs : ExprPool) (checking : Checking) : Except ErrorCode (ExprPool × Checking) :=
  if compare.op = .OP_EXISTS then
    (sub compare.subquery false checking).map fun checking => (exprs, checking)
  else
    match resolveType table exprs compare.left with
    | .error code => .error code
    | .ok (left, exprs) =>
      if compare.op = .OP_IS_NULL ∨ compare.op = .OP_IS_NOT_NULL then .ok (exprs, checking)
      else if compare.op = .OP_IN ∨ 0 ≤ compare.subquery then
        (sub compare.subquery true checking).map fun checking => (exprs, checking)
      else if compare.op = .OP_LIKE ∨ compare.op = .OP_NOT_LIKE then
        if left = .TYPE_TEXT then .ok (exprs, checking) else .error .SEMANTIC_TYPE_MISMATCH
      else
        match resolveType table exprs compare.right with
        | .error code => .error code
        | .ok (right, exprs) =>
          (agreeSides table exprs compare left right).map fun exprs => (exprs, checking)

/-- Checks every comparison of a tree against the table. -/
def checkConditionFrom (sub : SubqueryCheck) (table : CatalogNode) (nodes : List ConditionNode) :
    Nat → Int32 → ExprPool → Checking → Except ErrorCode (ExprPool × Checking)
  | 0, _, _, _ => .error .GENERAL_ERROR
  | fuel + 1, i, exprs, checking =>
    match if i < 0 then none else nodes[i.toInt.toNat]? with
    | none => .error .GENERAL_ERROR
    | some node =>
      match node.kind with
      | .COND_COMPARE => checkPredicate sub table node.compare exprs checking
      | .COND_NOT => checkConditionFrom sub table nodes fuel node.left exprs checking
      | .COND_AND | .COND_OR =>
        match checkConditionFrom sub table nodes fuel node.left exprs checking with
        | .error code => .error code
        | .ok (exprs, checking) =>
          checkConditionFrom sub table nodes fuel node.right exprs checking

/-- Checks the tree at a node of a condition. -/
def checkConditionAt (sub : SubqueryCheck) (table : CatalogNode) (cond : Condition) (root : Int32)
    (checking : Checking) : Except ErrorCode (Condition × Checking) :=
  (checkConditionFrom sub table cond.nodes cond.nodes.length root cond.exprs checking).map
    fun (exprs, checking) => ({ cond with exprs := exprs }, checking)

/-- Checks a WHERE if there is one. -/
def checkWhere (sub : SubqueryCheck) (table : CatalogNode) (cond : Condition)
    (checking : Checking) : Except ErrorCode (Condition × Checking) :=
  if cond.present then checkConditionAt sub table cond cond.root checking else .ok (cond, checking)

/-- Each ON tree, in the pool of the WHERE. -/
def checkOnRoots (sub : SubqueryCheck) (table : CatalogNode) :
    List Int32 → Condition → Checking → Except ErrorCode (Condition × Checking)
  | [], cond, checking => .ok (cond, checking)
  | root :: rest, cond, checking =>
    if root < 0 then checkOnRoots sub table rest cond checking
    else
      match checkConditionAt sub table cond root checking with
      | .error code => .error code
      | .ok (cond, checking) => checkOnRoots sub table rest cond checking

/-- What `checkSelect` says of the select list, once the conditions are checked. -/
def checkList (table : CatalogNode) (select : ParsedSelect) : Except ErrorCode ParsedSelect :=
  match checkGroupBy table select.groupBy with
  | .error code => .error code
  | .ok () =>
    if select.selectAll then
      if select.groupBy ≠ [] then .error .SEMANTIC_NOT_GROUPED
      else if select.having.present then .error .SEMANTIC_HAVING_WITHOUT_GROUP
      else .ok select
    else if select.having.present ∧ select.groupBy = [] ∧ select.hasAggregate = false then
      .error .SEMANTIC_HAVING_WITHOUT_GROUP
    else
      (checkItems table select.toSelectList select.items select.exprs).map fun exprs =>
        { select with exprs := exprs }

/-- `checkSelect`. A subquery is nested no deeper than there are slots, so the fuel is one
more than these. -/
def checkSelectFrom (tables : List CatalogNode) :
    Nat → ParsedSelect → Checking → Except ErrorCode (ParsedSelect × Checking)
  | 0, _, _ => .error .GENERAL_ERROR
  | fuel + 1, select, checking =>
    match selectSchema tables select with
    | .error code => .error code
    | .ok table =>
      let sub := checkSubquery (checkSelectFrom tables fuel)
      match checkWhere sub table select.wher checking with
      | .error code => .error code
      | .ok (wher, checking) =>
        match checkOnRoots sub table select.onRoots wher checking with
        | .error code => .error code
        | .ok (wher, checking) =>
          (checkList table { select with wher := wher }).map fun select => (select, checking)

/-- The check of a statement's subqueries, from its own conditions. -/
def subqueryCheck (tables : List CatalogNode) (pool : List PooledSelect) : SubqueryCheck :=
  checkSubquery (checkSelectFrom tables pool.length)

/-- Checks a CREATE TABLE. -/
def checkCreate (tables : List CatalogNode) (sub : SubqueryCheck) (create : CreateStatement)
    (checking : Checking) : Except ErrorCode (CreateStatement × Checking) :=
  if (findTable tables create.table).isSome then .error .SEMANTIC_TABLE_EXISTS
  else if hasDuplicate (create.cols.map Column.name) then .error .SEMANTIC_DUPLICATE_COLUMN
  else
    match create.cols.mapM checkDefault with
    | .error code => .error code
    | .ok cols =>
      (checkWhere sub { table := create.table, cols := cols, check := none } create.check
        checking).map fun (check, checking) => ({ create with cols := cols, check := check }, checking)

/-- Checks a DELETE. -/
def checkDelete (tables : List CatalogNode) (sub : SubqueryCheck) (del : DeleteStatement)
    (checking : Checking) : Except ErrorCode (DeleteStatement × Checking) :=
  match findTable tables del.table with
  | none => .error .SEMANTIC_TABLE_NOT_FOUND
  | some table =>
    (checkWhere sub table del.wher checking).map fun (wher, checking) =>
      ({ del with wher := wher }, checking)

/-- Checks an UPDATE. -/
def checkUpdate (tables : List CatalogNode) (sub : SubqueryCheck) (update : UpdateStatement)
    (checking : Checking) : Except ErrorCode (UpdateStatement × Checking) :=
  match findTable tables update.table with
  | none => .error .SEMANTIC_TABLE_NOT_FOUND
  | some table =>
    match checkSets table update.sets update.exprs with
    | .error code => .error code
    | .ok exprs =>
      (checkWhere sub table update.wher checking).map fun (wher, checking) =>
        ({ update with exprs := exprs, wher := wher }, checking)

/-- `semanticCheck`: the statement and its subqueries as the check leaves them, and the slots
that were accepted. -/
def semanticCheck (engine : Engine) (statement : ParsedStatement) :
    Except ErrorCode (ParsedStatement × List Nat) :=
  let tables := engine.database.tables
  let sub := subqueryCheck tables statement.pool
  let start : Checking := { pool := statement.pool, accepted := [] }
  let finish (kind : ParsedKind) (checking : Checking) : ParsedStatement × List Nat :=
    ({ kind := kind, pool := checking.pool }, checking.accepted)
  match statement.kind with
  | .STMT_SELECT select =>
    (checkSelectFrom tables (statement.pool.length + 1) select start).map fun (select, checking) =>
      finish (.STMT_SELECT select) checking
  | .plain (.STMT_CREATE_TABLE create) =>
    (checkCreate tables sub create start).map fun (create, checking) =>
      finish (.plain (.STMT_CREATE_TABLE create)) checking
  | .plain (.STMT_DELETE del) =>
    (checkDelete tables sub del start).map fun (del, checking) =>
      finish (.plain (.STMT_DELETE del)) checking
  | .plain (.STMT_UPDATE update) =>
    (checkUpdate tables sub update start).map fun (update, checking) =>
      finish (.plain (.STMT_UPDATE update)) checking
  | .plain kind =>
    (DatabaseEngine.semanticCheck engine kind.alone).map fun checked =>
      finish (.plain checked.kind) start

end Query

end DatabaseEngine
