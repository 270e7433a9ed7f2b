import DatabaseEngine.Library.Selecting
import DatabaseEngine.Model.Join
import DatabaseEngine.Model.Parser

/-!
# `DatabaseEngine.Model.Answer`: what a SELECT answers

`executeSelect` of `06_executor.c` on the rows of the tables: the access path and where LIMIT
stops it, the projection, DISTINCT, ORDER BY and LIMIT. Rows stand for the positions at which the
source finds them; what the tree of an index answers is a parameter (`Data.candidates`), and
`indexPath_spec` says what it is of the tree of `DatabaseEngine.Model.Index`.

The work row of a join, the table of groups and the buckets of the two hash tables are memory that
a thread keeps. `Statics` is what of it a SELECT finds. `qsort` is an insertion sort: the
comparisons it is given are strict.
-/

set_option autoImplicit false

namespace DatabaseEngine

open Library

/-- What a SELECT reads: the tables, and what each index answers for a comparison with a key, the
live rows in the order of the tree. -/
structure Data where
  tables : List StoredTable
  indexes : List Index
  candidates : Index → CompareOp → Value → Except ErrorCode (List Row)

/-- What a thread has kept of earlier SELECTs. -/
structure Statics where
  memory : GroupMemory
  work : Row
  joinBucketCount : Nat
  distinctCount : Nat
  /-- The sizes double, from what they start at. -/
  join : joinBucketCount = 0 ∨ ∃ e, joinBucketCount = 2 ^ e
  distinct : distinctCount = 0 ∨ ∃ e, distinctCount = 2 ^ e
  width : work.length = MAX_COLS

/-! ### The rows -/

/-- Where LIMIT stops a scan: when nothing above it decides which rows there are. -/
def stopAt (select : ParsedSelect) : Option Nat :=
  if select.order = [] ∧ select.distinct = false ∧ select.groupBy = [] ∧
      select.hasAggregate = false then select.limit
  else none

/-- The records of a scan without a condition; `kept` have been kept before. -/
def scanRows (stop : Option Nat) : List Row → Nat → List Row
  | [], _ => []
  | record :: rest, kept =>
    record :: if stop = some (kept + 1) then [] else scanRows stop rest (kept + 1)

/-- The records on which the condition is TRUE; `row` is what they are decoded into. -/
def keepRows (wher : Condition) (sub : Subqueries) (stop : Option Nat) :
    List Row → Row → Nat → List Row
  | [], _, _ => []
  | record :: rest, row, kept =>
    let row := decodeInto record row (conditionDeepest wher)
    if evaluateCondition wher sub row = .TRI_TRUE then
      record :: if stop = some (kept + 1) then [] else keepRows wher sub stop rest row (kept + 1)
    else keepRows wher sub stop rest row kept

/-- Chooses the access path and answers the rows that satisfy WHERE, which is bound. -/
def collectBound (data : Data) (table : CatalogNode) (rows : List Row) (sub : Subqueries)
    (wher : Condition) (stop : Option Nat) : Except ErrorCode (List Row) :=
  match findIndexableLeaf data.indexes table.table wher wher.nodes.length wher.root with
  | none => .ok (keepRows wher sub stop rows [] 0)
  | some predicate =>
    let key := (exprLiteral wher.exprs predicate.right).getD zeroValue
    match findIndexOn data.indexes table.table (exprColumn wher.exprs predicate.left) with
    | none => .error .GENERAL_ERROR
    | some index =>
      (data.candidates index predicate.op key).map fun found => keepRows wher sub stop found [] 0

/-- The rows of a SELECT, by the index where one can be used. -/
def collectSelect (data : Data) (table : CatalogNode) (rows : List Row) (sub : Subqueries)
    (wher : Condition) (stop : Option Nat) : Except ErrorCode (List Row) :=
  if !wher.present then .ok (scanRows stop rows 0)
  else
    match resolveCondition table wher with
    | (.error code, _) => .error code
    | (.ok (), wher) => collectBound data table rows sub wher stop

/-! ### The projection -/

/-- The header of an item of a plain projection: its column's own name, or its label. -/
def plainHeader (table : CatalogNode) (exprs : ExprPool) (item : SelectItem) :
    Except ErrorCode Name :=
  if !item.aliased && exprIsColumn exprs item.expr then
    match findColumn table (exprColumn exprs item.expr) with
    | .negSucc _ => .error .SEMANTIC_COLUMN_NOT_FOUND
    | .ofNat slot =>
      match table.cols[slot]? with
      | some column => .ok column.name
      | none => .error .SEMANTIC_COLUMN_NOT_FOUND
  else .ok item.label

/-- Binds the items: the header and the type of each. -/
def bindItems (table : CatalogNode) :
    List SelectItem → ExprPool → Except ErrorCode (List (Name × ColType) × ExprPool)
  | [], exprs => .ok ([], exprs)
  | item :: rest, exprs =>
    match resolveType table exprs item.expr with
    | .error code => .error code
    | .ok (type, exprs) =>
      match plainHeader table exprs item with
      | .error code => .error code
      | .ok header =>
        (bindItems table rest exprs).map fun (columns, exprs) => ((header, type) :: columns, exprs)

/-- The values of the items on a row. -/
def projectItems (exprs : ExprPool) (row : Row) (items : List SelectItem) :
    Except ErrorCode (List Value) :=
  items.mapM fun item => exprEvaluate exprs item.expr row

/-- One output row for each input row; `storage` is what they are decoded into. -/
def projectEach (project : Row → Except ErrorCode Row) (deepest : Int) :
    List Row → Row → Except ErrorCode (List Row)
  | [], _ => .ok []
  | record :: rest, storage =>
    let source := decodeInto record storage deepest
    match project source with
    | .error code => .error code
    | .ok row => (projectEach project deepest rest source).map (row :: ·)

/-- Plain projection: no GROUP BY, no aggregates. -/
def projectRows (table : CatalogNode) (select : SelectList) (rows : List Row) :
    Except ErrorCode ResultSet :=
  if select.selectAll then
    (projectEach (fun row => .ok ((List.range table.cols.length).map row.value))
      (table.cols.length - 1 : Int) rows []).map fun rows =>
      { headers := table.cols.map Column.name, types := table.cols.map Column.type, rows := rows }
  else
    match bindItems table select.items select.exprs with
    | .error code => .error code
    | .ok (columns, exprs) =>
      let deepest :=
        select.items.foldl (fun deepest item => max deepest (exprDeepest exprs item.expr)) (-1)
      (projectEach (fun row => projectItems exprs row select.items) deepest rows []).map fun rows =>
        { headers := columns.map Prod.fst, types := columns.map Prod.snd, rows := rows }

/-! ### DISTINCT -/

/-- Whether two rows agree in their first columns. -/
def rowsEqual (a b : Row) (ncols : Nat) : Bool :=
  (List.range ncols).all fun c => valuesEqual (a.value c) (b.value c)

/-- How many buckets there are for so many rows. -/
def distinctBucketCount (kept nrows : Nat) : Nat := max kept (grown nrows 1 (nrows * 2))

/-- The loop of `applyDistinct`: the first `kept` rows are the kept ones, and the row at `r` is
the next to look at. -/
def distinctLoop (ncols : Nat) : Nat → Nat → List Row → Nat → List Nat → List Row
  | 0, _, rows, kept, _ => rows.take kept
  | n + 1, r, rows, kept, buckets =>
    let row := rows.getD r []
    let hash := (hashKey row (List.range ncols)).toNat
    match lookup buckets (fun i => rowsEqual row (rows.getD i []) ncols) hash with
    | some _ => distinctLoop ncols n (r + 1) rows kept buckets
    | none =>
      distinctLoop ncols n (r + 1) (rows.set kept row) (kept + 1) (place buckets hash kept)

/-- Drops duplicate result rows. -/
def applyDistinct (distinctCount : Nat) (select : ParsedSelect) (out : ResultSet) : ResultSet :=
  if select.distinct = false ∨ out.rows = [] then out
  else
    { out with
      rows := distinctLoop out.headers.length out.rows.length 0 out.rows 0
        (List.replicate (distinctBucketCount distinctCount out.rows.length) 0) }

/-! ### ORDER BY and LIMIT -/

/-- A result row by its first ORDER BY value and its position. -/
structure SortKey where
  first : Value
  index : Nat

/-- An ORDER BY term bound to a result column. -/
structure SortTerm where
  slot : Nat
  descending : Bool

/-- Here NULL is a value that comes first. -/
def orderCompare (a b : Value) : Ordering :=
  if a.isNull || b.isNull then
    if a.isNull && b.isNull then .eq else if a.isNull then .lt else .gt
  else compareValues a b

/-- The order of two values under a term. -/
def SortTerm.compare (term : SortTerm) (a b : Value) : Ordering :=
  if term.descending then (orderCompare a b).swap else orderCompare a b

/-- The terms behind the first one, on the rows themselves. -/
def compareTerms : List SortTerm → Row → Row → Ordering
  | [], _, _ => .eq
  | term :: rest, a, b =>
    (term.compare (a.value term.slot) (b.value term.slot)).then (compareTerms rest a b)

/-- Ties fall back to the order the rows arrived in. -/
def sortCompare (rows : List Row) (terms : List SortTerm) (a b : SortKey) : Ordering :=
  match terms with
  | [] => compare a.index b.index
  | term :: rest =>
    (term.compare a.first b.first).then
      ((compareTerms rest (rows.getD a.index []) (rows.getD b.index [])).then
        (compare a.index b.index))

/-- The ORDER BY terms bound to the headers. -/
def bindOrder (headers : List Name) : List OrderTerm → Except ErrorCode (List SortTerm)
  | [] => .ok []
  | term :: rest =>
    match findHeader headers term.column.1 with
    | .error code => .error code
    | .ok slot =>
      (bindOrder headers rest).map fun terms =>
        { slot := slot, descending := term.descending } :: terms

/-- `qsort`. -/
def sortBy {α : Type} (compare : α → α → Ordering) (keys : List α) : List α :=
  keys.insertionSort fun a b => compare a b ≠ .gt

/-- The keys of the rows, by their value in a result column. -/
def sortKeys (rows : List Row) (slot : Nat) : List SortKey :=
  rows.zipIdx.map fun (row, i) => { first := row.value slot, index := i }

/-- The rows that are wanted moved to the front in the order they lie in: row `j` is only written
when those behind it are still where they were. -/
def compact : Nat → List SortKey → List Row → List Row
  | _, [], rows => rows
  | j, key :: rest, rows =>
    compact (j + 1) rest (if key.index = j then rows else rows.set j (rows.getD key.index []))

/-- The best `wanted` rows moved to the front, and their keys. -/
def selectTopRows (terms : List SortTerm) (wanted : Nat) (keys : List SortKey) (rows : List Row) :
    List SortKey × List Row :=
  let kept := sortBy (fun a b => compare a.index b.index)
    (selectTop (sortCompare rows terms) wanted keys)
  (kept.zipIdx.map fun (key, j) => { key with index := j }, (compact 0 kept rows).take wanted)

/-- The rows put in the order of the keys, each moved once. -/
def sortRows (terms : List SortTerm) (keys : List SortKey) (rows : List Row) : List Row :=
  reorder rows.length 0 ((sortBy (sortCompare rows terms) keys).map SortKey.index) rows

/-- ORDER BY over the finished result. -/
def orderRows (terms : List SortTerm) (limit : Option Nat) (rows : List Row) : List Row :=
  match terms with
  | [] => rows
  | term :: _ =>
    let keys := sortKeys rows term.slot
    match limit with
    | some wanted =>
      if wanted < rows.length then
        if wanted = 0 then []
        else
          let (keys, rows) := selectTopRows terms wanted keys rows
          sortRows terms keys rows
      else sortRows terms keys rows
    | none => sortRows terms keys rows

/-- `applyOrder`: sorts, and keeps the rows that LIMIT asks for. -/
def applyOrder (select : ParsedSelect) (out : ResultSet) : Except ErrorCode ResultSet :=
  (bindOrder out.headers select.order).map fun terms =>
    { out with rows := orderRows terms select.limit out.rows }

/-- `applyLimit`: the first rows, where there is a LIMIT. -/
def applyLimit (select : ParsedSelect) (out : ResultSet) : ResultSet :=
  match select.limit with
  | some limit => { out with rows := out.rows.take limit }
  | none => out

/-! ### A SELECT -/

/-- A table by its name. -/
def Data.table (data : Data) (name : Name) : Option StoredTable :=
  data.tables.find? fun stored => stored.node.table.same name

/-- The tables of a FROM list with their ON trees. -/
def joinTablesOf (data : Data) : List FromTable → List Int32 → Except ErrorCode (List JoinTable)
  | [], _ => .ok []
  | entry :: rest, roots =>
    match data.table entry.table with
    | none => .error .SEMANTIC_TABLE_NOT_FOUND
    | some stored =>
      (joinTablesOf data rest roots.tail).map fun tables =>
        { stored := stored, outer := entry.outer, onRoot := roots.headD (-1) } :: tables

/-- `buildJoin`: the rows that go into the join heap. -/
def joinedRows (data : Data) (statics : Statics) (sub : Subqueries) (schema : CatalogNode)
    (select : ParsedSelect) : Except ErrorCode (List Row) :=
  match resolveCondition schema select.wher with
  | (.error code, _) => .error code
  | (.ok (), wher) =>
    match joinTablesOf data select.tables select.onRoots with
    | .error code => .error code
    | .ok tables =>
      (joinRows wher sub statics.joinBucketCount schema.cols.length tables
        { out := [], work := statics.work }).map JoinState.out

/-- `heapInsert` of rows one after another. -/
def insertRows : List Row → Step Heap Unit
  | [] => return ()
  | row :: rest => do
    let _ ← heapInsert row
    insertRows rest

/-- A visit of a scan that wants every row. -/
def takeRecord (rows : List Row) (_ : Nat) (page : Bytes) (offset : Nat) : List Row × Bool :=
  (rows ++ [readRecord page offset], true)

/-- The live rows of a heap as a scan reads them. -/
def scanRecords (heap : Heap) : PageM Bytes (List Row) := heapScan heap takeRecord []

/-- The join heap from its reset on: the rows of the join go in, and a scan reads it. -/
def throughHeap (rows : List Row) : Step Heap (List Row) := do
  insertRows rows
  let heap ← Action.get
  Action.lift (scanRecords heap)

/-- The rows that the join heap holds once those of the join have gone in. Its pages are its own:
nothing else has to be on the store. -/
def joinHeapRows (table : Name) (rows : List Row) : Except ErrorCode (List Row) :=
  ((throughHeap rows (clearHeap table)).run zeroPage
    { count := 0, free := [], body := fun _ => none }).1.1

/-- `buildJoin`, and the rows of the join heap. -/
def buildJoinRows (data : Data) (statics : Statics) (sub : Subqueries) (schema : CatalogNode)
    (select : ParsedSelect) : Except ErrorCode (List Row) :=
  match joinedRows data statics sub schema select with
  | .error code => .error code
  | .ok rows => joinHeapRows schema.table rows

/-- The schema and the rows that a SELECT is run against. -/
def selectSource (data : Data) (statics : Statics) (sub : Subqueries) (select : ParsedSelect) :
    Except ErrorCode (CatalogNode × List Row) :=
  if joinSchemaNeeded select then
    match buildJoinSchema (data.tables.map StoredTable.node) select.tables with
    | .error code => .error code
    | .ok schema =>
      (buildJoinRows data statics sub schema select).map fun rows => (schema, rows)
  else
    match select.tables.head?.bind fun entry => data.table entry.table with
    | none => .error .SEMANTIC_TABLE_NOT_FOUND
    | some stored => .ok (stored.node, stored.rows)

/-- One output row per row, or per group. -/
def projectSelect (statics : Statics) (sub : Subqueries) (table : CatalogNode)
    (select : ParsedSelect) (rows : List Row) : Except ErrorCode ResultSet :=
  if select.groupBy = [] ∧ select.hasAggregate = false then
    projectRows table select.toSelectList rows
  else projectGroups statics.memory sub table select.toSelectList rows

/-- `executeSelect`. -/
def answerSelect (data : Data) (statics : Statics) (sub : Subqueries) (select : ParsedSelect) :
    Except ErrorCode ResultSet :=
  match selectSource data statics sub select with
  | .error code => .error code
  | .ok (table, rows) =>
    match collectSelect data table rows sub select.wher (stopAt select) with
    | .error code => .error code
    | .ok rows =>
      match projectSelect statics sub table select rows with
      | .error code => .error code
      | .ok out =>
        (applyOrder select (applyDistinct statics.distinctCount select out)).map
          (applyLimit select)

/-! ### Subqueries -/

/-- What `evaluateCondition` sees of the results: the first column of each row. -/
def firstColumns (results : Nat → Option ResultSet) : Subqueries := fun k =>
  match results k with
  | some out => out.rows.map fun row => row.value 0
  | none => []

/-- Runs the subqueries numbered below `n`, the last one first, given `executeSelect`. -/
def materialiseWith (execute : Nat → Subqueries → ParsedSelect → Except ErrorCode ResultSet)
    (pool : List PooledSelect) :
    Nat → (Nat → Option ResultSet) → Except ErrorCode (Nat → Option ResultSet)
  | 0, results => .ok results
  | k + 1, results =>
    match pool[k]? with
    | none => .error .SEMANTIC_TABLE_NOT_FOUND
    | some sub =>
      match execute k (firstColumns results) sub.select with
      | .error code => .error code
      | .ok out =>
        if sub.scalar && decide (1 < out.rows.length) then .error .EXEC_SUBQUERY_NOT_SCALAR
        else materialiseWith execute pool k fun i => if i = k then some out else results i

/-- `materialiseSubqueries`; each SELECT finds statics of its own. -/
def materialise (data : Data) (statics : Nat → Statics) (pool : List PooledSelect) :
    Except ErrorCode (Nat → Option ResultSet) :=
  materialiseWith (fun k sub select => answerSelect data (statics k) sub select) pool pool.length
    fun _ => none

/-- A SELECT with its subqueries: these run first. -/
def answerStatement (data : Data) (statics : Nat → Statics) (pool : List PooledSelect)
    (select : ParsedSelect) : Except ErrorCode ResultSet :=
  match materialise data statics pool with
  | .error code => .error code
  | .ok results => answerSelect data (statics pool.length) (firstColumns results) select

/-- A SELECT from its text, as `semanticCheck` leaves it, with its subqueries. -/
def acceptSelect (tables : List CatalogNode) (sql : List UInt8) :
    Except ErrorCode (ParsedSelect × List PooledSelect) := do
  let tokens ← tokenizeStatement sql
  let (select, pool) ← parseSelect tokens []
  let (select, checking) ←
    Query.checkSelectFrom tables (pool.length + 1) select { pool := pool, accepted := [] }
  .ok (select, checking.pool)

end DatabaseEngine
