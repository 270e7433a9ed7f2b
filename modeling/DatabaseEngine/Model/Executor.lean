import DatabaseEngine.Model.Semantic

/-!
# `DatabaseEngine.Model.Executor`: what a checked statement does

The statements of `06_executor.c` on the catalog, the heaps and the trees of the current
database. What an error leaves half done stays half done, as in the source.

A scan reads each page once. `collectRows` is only asked for every row here: the `stopAt` of
the source serves a LIMIT, which is a matter of a SELECT's `finish`. The access path follows
the source: the tree of the first comparison it can narrow by, otherwise the heap.
-/

set_option autoImplicit false

namespace DatabaseEngine

open Library

/-- A page program that answers an error code, as a step. -/
def checked {σ α : Type} (x : PageM Bytes (Except ErrorCode α)) : Step σ α := do
  let r ← Action.lift x
  Action.ofExcept r

/-! ### Constraints -/

/-- The record at a position as a scan reads it, none when there is no live row. -/
def heapScanAt (heap : Heap) (position : Nat) : PageM Bytes (Option (Bytes × Nat)) := do
  match ← pinFor heap position with
  | none => return none
  | some (_, page, offset) => return some (page, offset)

/-- Whether a record holds the value in a column. -/
def holdsValue (slot : Nat) (value : Value) (row : Row) : Bool :=
  !(row.value slot).isNull && valuesSame (row.value slot) value

/-- Whether one of the candidates other than `exclude` holds the value. -/
def takenAmong (heap : Heap) (slot : Nat) (value : Value) (exclude : Option Nat) :
    List Nat → Row → PageM Bytes Bool
  | [], _ => pure false
  | position :: rest, row =>
    if exclude = some position then takenAmong heap slot value exclude rest row
    else do
      match ← heapScanAt heap position with
      | none => takenAmong heap slot value exclude rest row
      | some (page, offset) =>
        let row := decodeRecord page offset row slot
        if holdsValue slot value row then return true
        else takenAmong heap slot value exclude rest row

/-- The test of a full scan on one record. -/
def takenVisit (slot : Nat) (value : Value) (exclude : Option Nat) (acc : Bool × Row)
    (position : Nat) (page : Bytes) (offset : Nat) : (Bool × Row) × Bool :=
  if exclude = some position then (acc, true)
  else
    let row := decodeRecord page offset acc.2 slot
    ((holdsValue slot value row, row), !holdsValue slot value row)

/-- Whether some other live row already holds this value in this column. -/
def valueIsTaken (indexes : List Index) (table : Name) (heap : Heap) (column : Name) (slot : Nat)
    (value : Value) (exclude : Option Nat) : PageM Bytes (Except ErrorCode Bool) := do
  match findIndexOn indexes table column.1 with
  | some index =>
    match ← indexScan index .OP_EQ value (heap.nslots + 1) with
    | .error code => return .error code
    | .ok rows =>
      let taken ← takenAmong heap slot value exclude rows []
      return .ok taken
  | none =>
    let acc ← heapScan heap (takenVisit slot value exclude) (false, [])
    return .ok acc.1

/-- What one column asks of its value. -/
def checkColumn (indexes : List Index) (table : Name) (heap : Heap) (exclude : Option Nat)
    (slot : Nat) (column : Column) (value : Value) : PageM Bytes (Except ErrorCode Unit) :=
  if value.isNull then
    pure (if column.notNull then .error .EXEC_NOT_NULL else .ok ())
  else if column.type = .TYPE_TEXT ∧ 0 < column.size
      ∧ column.size.toInt < (value.text.length : Int) then
    pure (.error .EXEC_VALUE_TOO_LONG)
  else if column.unique then do
    match ← valueIsTaken indexes table heap column.name slot value exclude with
    | .error code => return .error code
    | .ok taken => return if taken then .error .EXEC_NOT_UNIQUE else .ok ()
  else pure (.ok ())

/-- The columns from a slot on. -/
def checkColumns (indexes : List Index) (table : Name) (heap : Heap) (exclude : Option Nat)
    (row : Row) : Nat → List Column → PageM Bytes (Except ErrorCode Unit)
  | _, [] => pure (.ok ())
  | slot, column :: rest => do
    match ← checkColumn indexes table heap exclude slot column (row.value slot) with
    | .error code => return .error code
    | .ok () => checkColumns indexes table heap exclude row (slot + 1) rest

/-- What a table's CHECK says of a row. -/
def checkPasses (check : Option Condition) (sub : Subqueries) (row : Row) : Bool :=
  match check with
  | none => true
  | some cond => evaluateCondition cond sub row != .TRI_FALSE

/-- Everything the table promises about a row, tested before the row is stored. -/
def checkConstraints (indexes : List Index) (table : CatalogNode) (heap : Heap)
    (sub : Subqueries) (row : Row) (exclude : Option Nat) :
    PageM Bytes (Except ErrorCode Unit) := do
  match ← checkColumns indexes table.table heap exclude row 0 table.cols with
  | .error code => return .error code
  | .ok () => return if checkPasses table.check sub row then .ok () else .error .EXEC_CHECK_FAILED

/-! ### CREATE -/

/-- `"%.24s_%.24s_key"`. -/
def keyName (table column : Name) : Name :=
  Name.ofBytes (table.1.take 24 ++ [95] ++ column.1.take 24 ++ [95, 107, 101, 121])

/-- An index behind every column from a slot on that has to stay unique. -/
def createKeys (table : Name) : Nat → List Column → Step (List Index) Unit
  | _, [] => return ()
  | slot, column :: rest => do
    if !column.unique then createKeys table (slot + 1) rest
    else
      let indexes ← Action.get
      if (findIndexByName indexes (keyName table column.name)).isSome then
        createKeys table (slot + 1) rest
      else
        createIndex (keyName table column.name) table column.name slot column.type
        createKeys table (slot + 1) rest

/-- CREATE TABLE makes a heap and links the table in. -/
def executeCreate (create : CreateStatement) : Step Database Unit := do
  let db ← Action.get
  let heaps ← Action.ofExcept (createHeap create.table db.heaps)
  Action.set { db with heaps := heaps }
  let tables ← Action.ofExcept
    (addTable create.table create.cols (some create.check) db.tables)
  Action.set { db with heaps := heaps, tables := tables }
  onIndexes (createKeys create.table 0 create.cols)

/-- A step on the index that a name finds. -/
def onIndex {α : Type} (name : Name) (x : Step Index α) : Step (List Index) α := do
  let indexes ← Action.get
  match findIndexByName indexes name with
  | none => Action.throw .SEMANTIC_INDEX_NOT_FOUND
  | some index =>
    Action.onPart (fun _ => index) (fun index indexes =>
      replaceFirst (fun other => other.name.same name) index indexes) x

/-- Builds an index and fills it from the rows already in the table. -/
def executeCreateIndex (create : CreateIndexStatement) : Step Database Unit := do
  let db ← Action.get
  match findTable db.tables create.table, findHeap db.heaps create.table with
  | some table, some heap =>
    match findColumn table create.column.1 with
    | .negSucc _ => Action.throw .SEMANTIC_COLUMN_NOT_FOUND
    | .ofNat slot =>
      let column := ((table.cols[slot]?).map Column.name).getD create.column
      onIndexes (createIndex create.name table.table column slot (table.columnType slot))
      match ← Action.attempt
          (onIndexes (onIndex create.name (indexRows heap (heapPositions heap)))) with
      | .ok () => return ()
      | .error code =>
        -- a half-filled index is worse than none
        onIndexes (dropIndexByName create.name)
        Action.throw code
  | _, _ => Action.throw .SEMANTIC_TABLE_NOT_FOUND

/-! ### INSERT -/

/-- What every column holds if the statement never mentions it. -/
def defaultRow (cols : List Column) : Row :=
  cols.map fun column => if column.hasDefault then column.defaultValue else setNull column.type

/-- A NULL takes the column's type. -/
def typedValue (type : ColType) (value : Value) : Value :=
  if value.isNull then { value with type := type } else value

/-- The values of an INSERT put where they go, by name or by position. -/
def placeValues (table : CatalogNode) (columns : List Name) :
    Nat → List Value → Row → Except ErrorCode Row
  | _, [], row => .ok row
  | i, value :: rest, row =>
    let slot : Int :=
      if columns.isEmpty then i
      else match columns[i]? with
        | some name => findColumn table name.1
        | none => -1
    match slot with
    | .negSucc _ => .error .SEMANTIC_COLUMN_NOT_FOUND
    | .ofNat slot =>
      placeValues table columns (i + 1) rest
        (row.set slot (typedValue (table.columnType slot) value))

/-- Stores a row and puts it into every index of the table, or takes it back. -/
def storeRow (table : Name) (row : Row) : Step Database Nat := do
  let position ← onHeap table (heapInsert row)
  match ← Action.attempt (onIndexes (indexInsertRow table row position)) with
  | .ok () => return position
  | .error code =>
    onHeap table (heapMarkDeleted position)
    Action.throw code

/-- INSERT checks the row and puts it into the heap and every index. -/
def executeInsert (sub : Subqueries) (insert : InsertStatement) : Step Database Unit := do
  let db ← Action.get
  match findTable db.tables insert.table, findHeap db.heaps insert.table with
  | some table, some heap =>
    let row ← Action.ofExcept
      (placeValues table insert.columns 0 insert.values (defaultRow table.cols))
    checked (checkConstraints db.indexes table heap sub row none)
    let _ ← storeRow table.table row
    return ()
  | _, _ => Action.throw .SEMANTIC_TABLE_NOT_FOUND

/-! ### ALTER TABLE and VACUUM -/

/-- The row without a column. -/
def dropField (slot : Nat) (row : Row) : Row :=
  if slot < row.length then row.eraseIdx slot else row.dropLast

/-- Each live row at the positions stored again as `change` makes it, the old one deleted. -/
def rewriteEach (change : Row → Row) : List Nat → Step Heap Unit
  | [] => return ()
  | position :: rest => do
    let heap ← Action.get
    match ← Action.lift (heapRead heap position) with
    | none => rewriteEach change rest
    | some row =>
      let _ ← heapInsert (change row)
      heapMarkDeleted position
      rewriteEach change rest

/-- Compacts a table's heap and builds its indexes again. -/
def compactTable (table : Name) : Step Database Unit := do
  onHeap table heapCompact
  let db ← Action.get
  match findHeap db.heaps table with
  | none => Action.throw .SEMANTIC_TABLE_NOT_FOUND
  | some heap => onIndexes (rebuildIndexes table heap)

/-- Writes every row anew and compacts the table. -/
def rewriteRows (table : Name) (change : Row → Row) : Step Database Unit := do
  onHeap table do
    let heap ← Action.get
    rewriteEach change (heapPositions heap)
  compactTable table

/-- Replaces a table in the catalog. -/
def setTable (name : Name) (node : CatalogNode) : Step Database Unit :=
  Action.modify fun db => { db with tables := putTable name node db.tables }

/-- ADD COLUMN fills the new column with its default. -/
def alterAddColumn (table : CatalogNode) (column : Column) : Step Database Unit := do
  if 0 ≤ findColumn table column.name.1 then Action.throw .SEMANTIC_DUPLICATE_COLUMN
  else if table.cols.length = MAX_COLS then Action.throw .EXEC_TABLE_TOO_WIDE
  else
    let filled := if column.hasDefault then column.defaultValue else setNull column.type
    setTable table.table { table with cols := table.cols ++ [column] }
    match ← Action.attempt (rewriteRows table.table fun row => row ++ [filled]) with
    | .ok () => return ()
    | .error code =>
      setTable table.table table
      Action.throw code

/-- DROP COLUMN takes it out of every row, with the indexes on it. -/
def alterDropColumn (table : CatalogNode) (name : Name) : Step Database Unit := do
  match findColumn table name.1 with
  | .negSucc _ => Action.throw .SEMANTIC_COLUMN_NOT_FOUND
  | .ofNat slot =>
    if table.cols.length = 1 then Action.throw .SEMANTIC_LAST_COLUMN
    else
      let column := ((table.cols[slot]?).map Column.name).getD name
      onIndexes (indexesColumnDropped table.table column slot)
      setTable table.table { table with cols := table.cols.eraseIdx slot }
      rewriteRows table.table (dropField slot)

/-- RENAME COLUMN, in the indexes too. -/
def alterRenameColumn (table : CatalogNode) (name newName : Name) : Step Database Unit := do
  match findColumn table name.1 with
  | .negSucc _ => Action.throw .SEMANTIC_COLUMN_NOT_FOUND
  | .ofNat slot =>
    if 0 ≤ findColumn table newName.1 then Action.throw .SEMANTIC_DUPLICATE_COLUMN
    else
      let was := ((table.cols[slot]?).map Column.name).getD name
      Action.modify fun db =>
        { db with indexes := indexesColumnRenamed table.table was newName db.indexes }
      setTable table.table
        { table with cols := table.cols.modify slot fun c => { c with name := newName } }

/-- RENAME TO, in the catalog, the heaps and the indexes. -/
def alterRenameTable (table : CatalogNode) (newName : Name) : Step Database Unit := do
  let db ← Action.get
  let tables ← Action.ofExcept (renameTableInCatalog table.table newName db.tables)
  Action.set
    { db with
      tables := tables
      heaps := renameHeap table.table newName db.heaps
      indexes := indexesTableRenamed table.table newName db.indexes }

/-- ALTER TABLE. -/
def executeAlter (alter : AlterStatement) : Step Database Unit := do
  let db ← Action.get
  match findTable db.tables alter.table, findHeap db.heaps alter.table with
  | some table, some _ =>
    match alter.action with
    | .ALTER_ADD_COLUMN column => alterAddColumn table column
    | .ALTER_DROP_COLUMN name => alterDropColumn table name
    | .ALTER_RENAME_COLUMN name newName => alterRenameColumn table name newName
    | .ALTER_RENAME_TABLE newName => alterRenameTable table newName
  | _, _ => Action.throw .SEMANTIC_TABLE_NOT_FOUND

/-- VACUUM compacts the table. -/
def executeVacuum (name : Name) : Step Database Unit := do
  let db ← Action.get
  match findTable db.tables name, findHeap db.heaps name with
  | some table, some _ => compactTable table.table
  | _, _ => Action.throw .SEMANTIC_TABLE_NOT_FOUND

/-! ### UPDATE and DELETE -/

/-- Picks one comparison the tree can be narrowed by. -/
def findIndexableLeaf (indexes : List Index) (table : Name) (cond : Condition) :
    Nat → Int32 → Option Predicate
  | 0, _ => none
  | fuel + 1, i =>
    match cond.node i with
    | none => none
    | some node =>
      match node.kind with
      | .COND_COMPARE =>
        match exprLiteral cond.exprs node.compare.right with
        | none => none
        | some literal =>
          if !exprIsColumn cond.exprs node.compare.left then none
          else if (findIndexOn indexes table (exprColumn cond.exprs node.compare.left)).isNone then
            none
          else if indexableOperator node.compare.op then some node.compare
          else if node.compare.op = .OP_LIKE ∧ likePrefix literal.text ≠ [] then some node.compare
          else none
      | .COND_AND =>
        (findIndexableLeaf indexes table cond fuel node.left).or
          (findIndexableLeaf indexes table cond fuel node.right)
      | .COND_OR | .COND_NOT => none

/-- Which of the candidates satisfy the condition. -/
def keepMatching (heap : Heap) (sub : Subqueries) (wher : Condition) :
    List Nat → Row → PageM Bytes (List Nat)
  | [], _ => pure []
  | position :: rest, row => do
    match ← heapScanAt heap position with
    | none => keepMatching heap sub wher rest row
    | some (page, offset) =>
      let row := decodeRecord page offset row (conditionDeepest wher)
      let kept ← keepMatching heap sub wher rest row
      return if evaluateCondition wher sub row = .TRI_TRUE then position :: kept else kept

/-- The test of a full scan on one record. -/
def matchVisit (sub : Subqueries) (wher : Condition) (acc : List Nat × Row) (position : Nat)
    (page : Bytes) (offset : Nat) : (List Nat × Row) × Bool :=
  let row := decodeRecord page offset acc.2 (conditionDeepest wher)
  ((if evaluateCondition wher sub row = .TRI_TRUE then acc.1 ++ [position] else acc.1, row), true)

/-- Chooses the access path and answers the positions that satisfy WHERE. -/
def collectRows (indexes : List Index) (table : CatalogNode) (heap : Heap) (sub : Subqueries)
    (wher : Condition) : PageM Bytes (Except ErrorCode (List Nat)) := do
  if !wher.present then
    let rows ← heapScan heap (fun acc position _ _ => (acc ++ [position], true)) []
    return .ok rows
  else
    match resolveCondition table wher with
    | (.error code, _) => return .error code
    | (.ok (), wher) =>
      match findIndexableLeaf indexes table.table wher wher.nodes.length wher.root with
      | none =>
        let acc ← heapScan heap (matchVisit sub wher) ([], [])
        return .ok acc.1
      | some predicate =>
        let key := (exprLiteral wher.exprs predicate.right).getD zeroValue
        match findIndexOn indexes table.table (exprColumn wher.exprs predicate.left) with
        | none => return .error .GENERAL_ERROR
        | some index =>
          let found ←
            if predicate.op = .OP_LIKE then indexPrefixScan index (likePrefix key.text) heap.nslots
            else indexScan index predicate.op key heap.nslots
          match found with
          | .error code => return .error code
          | .ok rows =>
            let kept ← keepMatching heap sub wher rows []
            return .ok kept

/-- The columns an UPDATE sets, by slot. -/
def setSlots (table : CatalogNode) : List Assignment → Except ErrorCode (List Nat)
  | [] => .ok []
  | set :: rest =>
    match findColumn table set.column.1 with
    | .negSucc _ => .error .SEMANTIC_COLUMN_NOT_FOUND
    | .ofNat slot => (setSlots table rest).map (slot :: ·)

/-- One SET value computed from the old row. -/
def computeSet (exprs : ExprPool) (row : Row) (expr : Int32) (type : ColType) :
    Except ErrorCode Value :=
  match exprEvaluate exprs expr row with
  | .error code => .error code
  | .ok computed =>
    let computed :=
      if !computed.isNull ∧ computed.type = .TYPE_INT ∧ type = .TYPE_FLOAT then
        setFloat (intToDouble computed.intValue)
      else computed
    if !computed.isNull ∧ computed.type ≠ type then .error .SEMANTIC_TYPE_MISMATCH
    else .ok (typedValue type computed)

/-- Every assignment sees the row as it was; the values are stored when all are known. -/
def assignSets (table : CatalogNode) (exprs : ExprPool) (old : Row) :
    List (Assignment × Nat) → Row → Except ErrorCode Row
  | [], row => .ok row
  | (set, slot) :: rest, row =>
    match computeSet exprs old set.expr (table.columnType slot) with
    | .error code => .error code
    | .ok value => assignSets table exprs old rest (row.set slot value)

/-- Puts the statement's SET values into a row read from the heap. -/
def applyAssignments (table : CatalogNode) (update : UpdateStatement) (slots : List Nat)
    (row : Row) : Except ErrorCode Row :=
  assignSets table update.exprs row (update.sets.zip slots) row

/-- The row at a position, or the empty row that a deleted one reads as. -/
def readOld (heap : Heap) (position : Nat) : PageM Bytes Row := do
  let row ← heapRead heap position
  return row.getD []

/-- Every row is checked before any row is written. -/
def checkUpdated (db : Database) (table : CatalogNode) (heap : Heap) (sub : Subqueries)
    (update : UpdateStatement) (slots : List Nat) : List Nat → PageM Bytes (Except ErrorCode Unit)
  | [] => pure (.ok ())
  | position :: rest => do
    let row ← readOld heap position
    match applyAssignments table update slots row with
    | .error code => return .error code
    | .ok updated =>
      match ← checkConstraints db.indexes table heap sub updated (some position) with
      | .error code => return .error code
      | .ok () => checkUpdated db table heap sub update slots rest

/-- Whether a unique column is set to one literal that is not NULL. -/
def setsUniqueLiteral (table : CatalogNode) (update : UpdateStatement) (slots : List Nat) : Bool :=
  (update.sets.zip slots).any fun s =>
    (table.cols[s.2]?).any Column.unique
      && (exprLiteral update.exprs s.1.expr).any fun literal => !literal.isNull

/-- Writes a new version of each row and retires the old one. -/
def writeUpdated (table : CatalogNode) (update : UpdateStatement) (slots : List Nat) :
    List Nat → Step Database Unit
  | [] => return ()
  | position :: rest => do
    let db ← Action.get
    match findHeap db.heaps table.table with
    | none => Action.throw .SEMANTIC_TABLE_NOT_FOUND
    | some heap =>
      let row ← Action.lift (readOld heap position)
      let updated ← Action.ofExcept (applyAssignments table update slots row)
      let _ ← storeRow table.table updated
      onHeap table.table (heapMarkDeleted position)
      writeUpdated table update slots rest

/-- UPDATE on every row that WHERE takes. -/
def executeUpdate (sub : Subqueries) (update : UpdateStatement) : Step Database Unit := do
  let db ← Action.get
  match findTable db.tables update.table, findHeap db.heaps update.table with
  | some table, some heap =>
    let slots ← Action.ofExcept (setSlots table update.sets)
    let rows ← checked (collectRows db.indexes table heap sub update.wher)
    checked (checkUpdated db table heap sub update slots rows)
    if 1 < rows.length && setsUniqueLiteral table update slots then
      Action.throw .EXEC_NOT_UNIQUE
    else writeUpdated table update slots rows
  | _, _ => Action.throw .SEMANTIC_TABLE_NOT_FOUND

/-- Marks the rows at some positions deleted. -/
def markEach : List Nat → Step Heap Unit
  | [] => return ()
  | position :: rest => do
    heapMarkDeleted position
    markEach rest

/-- DELETE marks the rows that WHERE takes deleted. -/
def executeDelete (sub : Subqueries) (del : DeleteStatement) : Step Database Unit := do
  let db ← Action.get
  match findTable db.tables del.table, findHeap db.heaps del.table with
  | some table, some heap =>
    let rows ← checked (collectRows db.indexes table heap sub del.wher)
    onHeap table.table (markEach rows)
  | _, _ => Action.throw .SEMANTIC_TABLE_NOT_FOUND

/-! ### SELECT -/

/-- `<join>`. -/
def JOIN_SCHEMA_NAME : List UInt8 := [60, 106, 111, 105, 110, 62]

/-- Every live row of a heap. -/
def heapRows (heap : Heap) : PageM Bytes (List Row) :=
  heapScan heap (fun acc _ page offset => (acc ++ [readRecord page offset], true)) []

/-- The rows of each table of a FROM list. -/
def readTables (heaps : List Heap) : List Name → PageM Bytes (Except ErrorCode (List (List Row)))
  | [] => pure (.ok [])
  | name :: rest => do
    match findHeap heaps name with
    | none => return .error .SEMANTIC_TABLE_NOT_FOUND
    | some heap =>
      let rows ← heapRows heap
      match ← readTables heaps rest with
      | .error code => return .error code
      | .ok tables => return .ok (rows :: tables)

/-- Puts rows into a heap, one after another. -/
def insertEach : List Row → Step Heap Unit
  | [] => return ()
  | row :: rest => do
    let _ ← heapInsert row
    insertEach rest

/-- A step on the heap of the join. -/
def onJoinHeap {α : Type} (x : Step Heap α) : Step Engine α :=
  Action.onPart Engine.joinHeap (fun heap engine => { engine with joinHeap := heap }) x

/-- Materialises the rows of a join in the scratch heap. -/
def buildJoin (select : SelectStatement) : Step Engine Unit := do
  onJoinHeap do
    heapReset
    Action.modify fun heap => { heap with table := Name.ofBytes JOIN_SCHEMA_NAME }
  let engine ← Action.get
  let tables ← checked (readTables engine.database.heaps select.tables)
  onJoinHeap (insertEach (select.combine tables))

/-- A SELECT, through the join's heap if it needs one. -/
def executeSelect (select : SelectStatement) : Step Engine (List Row) := do
  if select.joins then
    buildJoin select
    let engine ← Action.get
    let rows ← Action.lift (heapRows engine.joinHeap)
    Action.ofExcept (select.finish rows)
  else
    let engine ← Action.get
    let tables ← checked (readTables engine.database.heaps (select.tables.take 1))
    Action.ofExcept (select.finish tables.flatten)

/-- Fills one entry of `subqueryResult`. -/
def keepResult (i : Nat) (rows : List Row) (engine : Engine) : Engine :=
  { engine with
    subqueryResult := engine.subqueryResult.set i (rows.map fun row => row.value 0) }

/-- Runs the subqueries numbered below `n`, the last one first. -/
def materialiseFrom (subqueries : List Subquery) : Nat → Step Engine Unit
  | 0 => return ()
  | i + 1 => do
    match subqueries[i]? with
    | none => Action.throw .SEMANTIC_TABLE_NOT_FOUND
    | some sub =>
      let rows ← executeSelect sub.select
      Action.modify (keepResult i rows)
      if sub.scalar && decide (1 < rows.length) then Action.throw .EXEC_SUBQUERY_NOT_SCALAR
      else materialiseFrom subqueries i

/-- Runs every subquery the statement parsed, before the statement itself. Without any, the
results of an earlier statement stay where they are. -/
def materialiseSubqueries (subqueries : List Subquery) : Step Engine Unit := do
  if subqueries.isEmpty then return ()
  else
    Action.modify fun engine =>
      { engine with subqueryResult := List.replicate MAX_SUBQUERIES [] }
    materialiseFrom subqueries subqueries.length

/-- What `evaluateCondition` sees of the subqueries. -/
def Engine.subqueries (engine : Engine) : Subqueries := fun k => engine.subqueryResult.getD k []

/-! ### DROP -/

/-- Drops a table with its indexes and its heap. -/
def dropEverything (table : Name) : Step Database Unit := do
  onIndexes (dropIndexesForTable table)
  let _ ← Action.attempt (onHeaps (dropHeap table))
  Action.modify fun db => { db with tables := dropTable table db.tables }

/-- DROP TABLE, with heap and indexes. -/
def executeDropTable (name : Name) : Step Database Unit := do
  let db ← Action.get
  match findTable db.tables name with
  | none => Action.throw .SEMANTIC_TABLE_NOT_FOUND
  | some table => dropEverything table.table

/-- Drops the first table of the listing, `n` times at most. -/
def dropAllTables : Nat → Step Database Unit
  | 0 => return ()
  | n + 1 => do
    let db ← Action.get
    match db.tables with
    | [] => return ()
    | table :: _ =>
      dropEverything table.table
      dropAllTables n

/-- DROP DATABASE, with all its tables. -/
def executeDropDatabase (name : Name) : Step Engine Unit := do
  let engine ← Action.get
  match findDatabase engine.databases name with
  | none => Action.throw .SEMANTIC_DATABASE_NOT_FOUND
  | some 0 => Action.throw .SEMANTIC_CANNOT_DROP_DEFAULT
  | some (i + 1) =>
    let id := i + 1
    let restoreTo := engine.current
    Action.modify fun engine => { engine with current := id }
    onDatabase do
      let db ← Action.get
      dropAllTables db.tables.length
    -- dropping the database you are standing in leaves you in the default one
    Action.modify fun engine =>
      { engine with
        databases := engine.databases.modify id fun db => { db with used := false }
        current := if restoreTo = id then 0 else restoreTo }

/-! ### Dispatch -/

/-- What a checked statement does, apart from BEGIN, COMMIT and ROLLBACK, which are not the
executor's to do. -/
def executeKind (kind : StatementKind) : Step Engine Unit := do
  let engine ← Action.get
  let sub := engine.subqueries
  match kind with
  | .STMT_CREATE_TABLE create => onDatabase (executeCreate create)
  | .STMT_CREATE_INDEX create => onDatabase (executeCreateIndex create)
  | .STMT_INSERT insert => onDatabase (executeInsert sub insert)
  | .STMT_SELECT select =>
    let _ ← executeSelect select
    return ()
  | .STMT_DELETE del => onDatabase (executeDelete sub del)
  | .STMT_UPDATE update => onDatabase (executeUpdate sub update)
  | .STMT_VACUUM table => onDatabase (executeVacuum table)
  | .STMT_ALTER_TABLE alter => onDatabase (executeAlter alter)
  | .STMT_CREATE_DATABASE name =>
    let databases ← Action.ofExcept (createDatabase name engine.databases)
    Action.set { engine with databases := databases }
  | .STMT_USE_DATABASE name =>
    match findDatabase engine.databases name with
    | none => Action.throw .SEMANTIC_DATABASE_NOT_FOUND
    | some id => Action.set { engine with current := id }
  | .STMT_DROP_DATABASE name => executeDropDatabase name
  | .STMT_DROP_TABLE name => onDatabase (executeDropTable name)
  | .STMT_DROP_INDEX name => onDatabase (onIndexes (dropIndexByName name))
  | .STMT_BEGIN | .STMT_COMMIT | .STMT_ROLLBACK => return ()

end DatabaseEngine
