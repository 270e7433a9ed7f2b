import DatabaseEngine.Library.Probing
import DatabaseEngine.Model.Query

/-!
# `DatabaseEngine.Model.Join`: the rows of a join

`joinTables`, `hashJoin` and `buildJoin` of `06_executor.c`, as the rows that they hand to
`heapInsert` in this order. A table is read row by row in the order of a scan, and a row of the
join is put together in one work row that a thread keeps: what it held before is a parameter.

The buckets of the hash join are kept by a thread too, and only grow.
-/

set_option autoImplicit false

namespace DatabaseEngine

open Library

/-- A table as a SELECT finds it: its schema, and its live rows as a scan reads them. -/
structure StoredTable where
  node : CatalogNode
  rows : List Row

/-- A table of a join. -/
structure JoinTable where
  stored : StoredTable
  outer : Bool
  /-- The tree of its ON, negative when it has none of its own. -/
  onRoot : Int32

/-- Values stored into a row from a position on. -/
def storeAt (work : Row) (base : Nat) (values : List Value) : Row :=
  work.take base ++ values ++ work.drop (base + values.length)

/-- What completes a row of the left side that found no partner. -/
def nullRow (node : CatalogNode) : Row := node.cols.map fun column => setNull column.type

/-- A tree of a condition on a row. -/
def evaluateAt (cond : Condition) (sub : Subqueries) (root : Int32) (row : Row) : TriState :=
  evaluateConditionFrom cond.nodes.length cond sub root row

/-- Whether a condition keeps a row. -/
def keeps (cond : Condition) (sub : Subqueries) (row : Row) : Bool :=
  !cond.present || evaluateCondition cond sub row == .TRI_TRUE

/-- The rows that the join has stored, and the work row. -/
structure JoinState where
  out : List Row
  work : Row

/-- `heapInsert` of the work row, `ncols` values of it, into the heap of the join. -/
def storeWork (ncols : Nat) (state : JoinState) : Except ErrorCode JoinState :=
  let row := state.work.take ncols
  if PAGE_SIZE - PAGE_HEADER - SLOT_WIDTH < recordSize row then .error .EXEC_ROW_TOO_LARGE
  else .ok { state with out := state.out ++ [row] }

/-- The values of a row put into the work row from a position on. -/
def JoinState.fill (state : JoinState) (base : Nat) (values : List Value) : JoinState :=
  { state with work := storeAt state.work base values }

/-- What is done with the work row once every table has filled its part. -/
def joinLeaf (wher : Condition) (sub : Subqueries) (ncols : Nat) (state : JoinState) :
    Except ErrorCode JoinState :=
  if keeps wher sub state.work then storeWork ncols state else .ok state

/-- The scan of one table, given what the tables behind it do with the work row. The answer says
whether one of its rows matched the ON of the table. -/
def joinScan (wher : Condition) (sub : Subqueries) (onRoot : Int32)
    (below : Nat → JoinState → Except ErrorCode JoinState) (base : Nat) :
    List Row → Bool → JoinState → Except ErrorCode (Bool × JoinState)
  | [], matched, state => .ok (matched, state)
  | source :: rest, matched, state =>
    let state := state.fill base source
    if 0 ≤ onRoot ∧ evaluateAt wher sub onRoot state.work ≠ .TRI_TRUE then
      joinScan wher sub onRoot below base rest matched state
    else
      match below (base + source.length) state with
      | .error code => .error code
      | .ok state =>
        joinScan wher sub onRoot below base rest (matched || decide (0 ≤ onRoot)) state

/-- One level for each table, whose rows are put behind the prefix. -/
def joinTables (wher : Condition) (sub : Subqueries) :
    List JoinTable → Nat → JoinState → Except ErrorCode JoinState
  | [], base, state => joinLeaf wher sub base state
  | table :: rest, base, state =>
    match joinScan wher sub table.onRoot (joinTables wher sub rest) base table.stored.rows false
      state with
    | .error code => .error code
    | .ok (matched, state) =>
      -- the left row survives, completed with NULLs
      if table.outer && !matched then
        joinTables wher sub rest (base + table.stored.node.cols.length)
          (state.fill base (nullRow table.stored.node))
      else .ok state

/-! ### The hash join -/

/-- The slot of the column that an expression is. -/
def columnSlot (pool : ExprPool) (i : Int32) : Option Nat :=
  match pool.node i with
  | some node => if node.kind = .EXPR_COLUMN ∧ 0 ≤ node.slot then some node.slot.toNat else none
  | none => none

/-- The columns of an equality whose two sides are in different tables, the first of which has
`split` columns. -/
def equiSlots (exprs : ExprPool) (compare : Predicate) (split : Nat) : Option (Nat × Nat) :=
  if compare.op ≠ .OP_EQ then none
  else
    match columnSlot exprs compare.left, columnSlot exprs compare.right with
    | some left, some right =>
      if left < split ∧ split ≤ right then some (left, right - split)
      else if right < split ∧ split ≤ left then some (right, left - split)
      else none
    | _, _ => none

/-- The first such equality on the AND spine. -/
def findEquiJoin (cond : Condition) (split : Nat) : Nat → Int32 → Option (Nat × Nat)
  | 0, _ => none
  | fuel + 1, i =>
    match cond.node i with
    | none => none
    | some node =>
      match node.kind with
      | .COND_COMPARE => equiSlots cond.exprs node.compare split
      | .COND_AND =>
        (findEquiJoin cond split fuel node.left).or (findEquiJoin cond split fuel node.right)
      | .COND_OR | .COND_NOT => none

/-- A row of the build side under its key. -/
structure JoinEntry where
  hash : UInt32
  key : Value
  row : Row

/-- Every row of the build side whose key is not NULL; `storage` is what the rows are decoded
into. -/
def buildEntries (buildSlot : Nat) : List Row → Row → List JoinEntry
  | [], _ => []
  | record :: rest, storage =>
    let storage := decodeInto record storage buildSlot
    let key := storage.value buildSlot
    if key.isNull then buildEntries buildSlot rest storage
    else { hash := hashValue key, key := key, row := record } :: buildEntries buildSlot rest storage

/-- Doubles a size until there is room. -/
def grown : Nat → Nat → Nat → Nat
  | 0, size, _ => size
  | fuel + 1, size, room => if size < room then grown fuel (size * 2) room else size

/-- How many buckets there are for so many entries. -/
def joinBucketCount (kept count : Nat) : Nat := max kept (grown count 16 (count * 2))

/-- The rows of the build side that a key finds, in the order in which they are found. -/
def joinMatches (entries : List JoinEntry) (buckets : List Nat) (key : Value) : List Row :=
  (walkFrom buckets (hashValue key).toNat).filterMap fun i =>
    match entries[i]? with
    | none => none
    | some entry =>
      if entry.hash = hashValue key ∧ valuesEqual entry.key key then some entry.row else none

/-- The rows that a key has found, each completed and put through the whole WHERE. -/
def joinFound (wher : Condition) (sub : Subqueries) (split width : Nat) (row : Row) :
    List Row → JoinState → Except ErrorCode JoinState
  | [], state => .ok state
  | built :: rest, state =>
    match joinLeaf wher sub width ((state.fill 0 row).fill split built) with
    | .error code => .error code
    | .ok state => joinFound wher sub split width row rest state

/-- The rows of the first table against the table of keys. -/
def probeRows (wher : Condition) (sub : Subqueries) (split width probeSlot : Nat)
    (entries : List JoinEntry) (buckets : List Nat) :
    List Row → JoinState → Except ErrorCode JoinState
  | [], state => .ok state
  | row :: rest, state =>
    let key := row.value probeSlot
    if key.isNull then probeRows wher sub split width probeSlot entries buckets rest state
    else
      match joinFound wher sub split width row (joinMatches entries buckets key) state with
      | .error code => .error code
      | .ok state => probeRows wher sub split width probeSlot entries buckets rest state

/-- Two tables joined on an equality; `kept` is how many buckets there are from before. -/
def hashJoin (wher : Condition) (sub : Subqueries) (kept width : Nat) (first second : StoredTable)
    (probeSlot buildSlot : Nat) (state : JoinState) : Except ErrorCode JoinState :=
  let entries := buildEntries buildSlot second.rows []
  let buckets := rehash (joinBucketCount kept entries.length)
    (entries.map fun entry => entry.hash.toNat)
  probeRows wher sub first.node.cols.length width probeSlot entries buckets first.rows state

/-- The equality that a join of these tables is keyed on: only an inner join of two tables is. -/
def joinKey (wher : Condition) (tables : List JoinTable) : Option (Nat × Nat) :=
  match tables with
  | [first, second] =>
    if wher.present && !first.outer && !second.outer then
      findEquiJoin wher first.stored.node.cols.length wher.nodes.length wher.root
    else none
  | _ => none

/-- `buildJoin`, once the WHERE is bound to the schema of the join. -/
def joinRows (wher : Condition) (sub : Subqueries) (kept width : Nat) (tables : List JoinTable)
    (state : JoinState) : Except ErrorCode JoinState :=
  match joinKey wher tables, tables with
  | some (probeSlot, buildSlot), [first, second] =>
    hashJoin wher sub kept width first.stored second.stored probeSlot buildSlot state
  | _, _ => joinTables wher sub tables 0 state

end DatabaseEngine
