import DatabaseEngine.Library.Probing
import DatabaseEngine.Model.Semantic
import DatabaseEngine.Model.Heap

/-!
# `DatabaseEngine.Model.Select`: GROUP BY and the aggregates

The select list of a SELECT, `checkSelect` of `05_semantic.c` over it, and
`projectGroups` of `06_executor.c` with the hash table in which it finds a row's group.

The group table lives in memory that a thread keeps from one statement to the next. What of it
an earlier statement can still be seen in is `GroupMemory`: the number of buckets, and whatever
the accumulators hold before they are written. The rows are the records that the scan has kept;
`decodeInto` says what of one the row storage takes. A count of rows is a `Nat` and their sum an
`Int`: there are at most `INT_MAX` rows, so neither `int` nor `long long` wraps.
-/

set_option autoImplicit false

namespace DatabaseEngine

open Library

/-- The aggregates. -/
inductive AggregateType
  | AGG_NONE
  | AGG_COUNT
  | AGG_SUM
  | AGG_AVG
  | AGG_MIN
  | AGG_MAX
  deriving DecidableEq, Repr

/-- An item of a select list. -/
structure SelectItem where
  aggregate : AggregateType
  /-- Into the pool of the select list; `-1` for `count(*)`. -/
  expr : Int32
  star : Bool
  label : Name
  aliased : Bool
  /-- Only a count has a star, and then no expression. -/
  starred : star = true → aggregate = .AGG_COUNT ∧ expr = -1
  deriving DecidableEq

/-- The parts of a SELECT that decide what it answers of its rows. -/
structure SelectList where
  items : List SelectItem
  exprs : ExprPool
  selectAll : Bool
  /-- The ON tree of each outer join, inside the pool of the WHERE. -/
  onRoots : List Int32
  wher : Condition
  having : Condition
  groupBy : List Name
  deriving DecidableEq

/-! ### The check -/

/-- Whether a column is one of GROUP BY. -/
def isGrouped (select : SelectList) (column : List UInt8) : Bool :=
  select.groupBy.any fun name => sameText name.1 column

/-- Whether some item is an aggregate. -/
def SelectList.hasAggregate (select : SelectList) : Bool :=
  select.items.any fun item => item.aggregate ≠ .AGG_NONE

/-- The GROUP BY columns have to be columns. -/
def checkGroupBy (table : CatalogNode) : List Name → Except ErrorCode Unit
  | [] => .ok ()
  | name :: rest =>
    let slot := findColumn table name.1
    if slot < 0 then .error (columnError slot) else checkGroupBy table rest

/-- Each ON tree, in the pool of the WHERE. -/
def checkOnRoots (subqueries : List Subquery) (table : CatalogNode) :
    List Int32 → Condition → Except ErrorCode Condition
  | [], cond => .ok cond
  | root :: rest, cond =>
    if root < 0 then checkOnRoots subqueries table rest cond
    else
      match checkConditionFrom subqueries table cond.nodes cond.nodes.length cond.exprs root with
      | .error code => .error code
      | .ok exprs => checkOnRoots subqueries table rest { cond with exprs := exprs }

/-- One item of the select list. -/
def checkItem (table : CatalogNode) (select : SelectList) (exprs : ExprPool) (item : SelectItem) :
    Except ErrorCode ExprPool :=
  if item.star then .ok exprs
  else
    match resolveType table exprs item.expr with
    | .error code => .error code
    | .ok (type, exprs) =>
      if (item.aggregate = .AGG_SUM ∨ item.aggregate = .AGG_AVG) ∧
          type ≠ .TYPE_INT ∧ type ≠ .TYPE_FLOAT then .error .SEMANTIC_TYPE_MISMATCH
      else if item.aggregate ≠ .AGG_NONE ∨ select.groupBy = [] ∧ select.hasAggregate = false then
        .ok exprs
      -- beside an aggregate, an item has to be one value per group
      else if !exprIsColumn exprs item.expr || !isGrouped select (exprColumn exprs item.expr) then
        .error .SEMANTIC_NOT_GROUPED
      else .ok exprs

/-- Checks the items of a select list in turn. -/
def checkItems (table : CatalogNode) (select : SelectList) :
    List SelectItem → ExprPool → Except ErrorCode ExprPool
  | [], exprs => .ok exprs
  | item :: rest, exprs =>
    match checkItem table select exprs item with
    | .error code => .error code
    | .ok exprs => checkItems table select rest exprs

/-- Checks a SELECT against its table, or the schema of its join. -/
def checkSelect (subqueries : List Subquery) (table : CatalogNode) (select : SelectList) :
    Except ErrorCode SelectList :=
  match checkWhere subqueries table select.wher with
  | .error code => .error code
  | .ok wher =>
    match checkOnRoots subqueries table select.onRoots wher with
    | .error code => .error code
    | .ok wher =>
      match checkGroupBy table select.groupBy with
      | .error code => .error code
      | .ok () =>
        if select.selectAll then
          if select.groupBy ≠ [] then .error .SEMANTIC_NOT_GROUPED
          else if select.having.present then .error .SEMANTIC_HAVING_WITHOUT_GROUP
          else .ok { select with wher := wher }
        else if select.having.present ∧ select.groupBy = [] ∧ select.hasAggregate = false then
          .error .SEMANTIC_HAVING_WITHOUT_GROUP
        else
          match checkItems table select select.items select.exprs with
          | .error code => .error code
          | .ok exprs => .ok { select with wher := wher, exprs := exprs }

/-! ### Reading a row as far as it is needed -/

/-- `decodeRecord` of a record with these values: the columns up to `upto`, and what the storage
held beyond them. -/
def decodeInto (record out : Row) (upto : Int) : Row :=
  let count := min (upto + 1).toNat record.length
  record.take count ++ out.drop count

/-! ### The group table -/

/-- What an aggregate has taken in. -/
structure Accumulator where
  count : Nat
  /-- Exact, for a sum over an `int` column. -/
  sum : Int
  /-- The same total as a double. -/
  real : UInt64
  /-- The running minimum or maximum. -/
  extreme : Value
  /-- False until the first value lands here. -/
  seen : Bool
  deriving DecidableEq

/-- What a thread keeps of earlier groupings: how many buckets there are, and the accumulator of
a group and an item as its memory happens to be. -/
structure GroupMemory where
  bucketCount : Nat
  accumulatorAt : Nat → Nat → Accumulator
  /-- There is no table yet, or it has doubled from 256. -/
  size : bucketCount = 0 ∨ ∃ e, bucketCount = 2 ^ e

/-- A group with its key and an accumulator for each item. -/
structure Group where
  hash : UInt32
  key : List Value
  accs : List Accumulator

/-- The groups and the hash table over their keys. -/
structure GroupTable where
  groups : List Group
  /-- Each a group's number and one, or zero. -/
  buckets : List Nat

/-- Equality for grouping, where two NULLs belong together. -/
def valuesEqual (a b : Value) : Bool :=
  if a.isNull || b.isNull then a.isNull && b.isNull
  else if a.type ≠ b.type then false
  else valuesSame a b

/-- FNV-1a, one byte. -/
def hashByte (hash : UInt32) (byte : UInt8) : UInt32 := (hash ^^^ byte.toUInt32) * 16777619

/-- The bytes that a value carries, the low one first. -/
def hashedBytes (value : Value) : List UInt8 :=
  if value.type = .TYPE_INT ∨ value.type = .TYPE_DATE then
    (List.range 4).map fun i => (value.intValue.toUInt32 >>> (UInt32.ofNat (i * 8))).toUInt8
  else if value.type = .TYPE_FLOAT then
    (List.range 8).map fun i => (value.floatValue >>> (UInt64.ofNat (i * 8))).toUInt8
  else value.text

/-- The hash of a value. -/
def hashValue (value : Value) : UInt32 :=
  if value.isNull then 2166136261 ^^^ 0x9E3779B9
  else (hashedBytes value).foldl hashByte 2166136261

/-- The hash of a row's key. -/
def hashKey (row : Row) (groupSlots : List Nat) : UInt32 :=
  groupSlots.foldl (fun hash slot => (hash ^^^ hashValue (row.value slot)) * 16777619) 2166136261

/-- Whether the row has the key of a group. -/
def keyMatches (row : Row) (groupSlots : List Nat) (key : List Value) : Bool :=
  (groupSlots.zip key).all fun (slot, value) => valuesEqual (row.value slot) value

/-- The key of a group. -/
def GroupTable.keyAt (t : GroupTable) (group : Nat) : List Value :=
  match t.groups[group]? with
  | some g => g.key
  | none => []

/-- The group this row belongs to. -/
def findGroup (t : GroupTable) (row : Row) (groupSlots : List Nat) (hash : UInt32) : Option Nat :=
  if t.buckets.length = 0 then none
  else lookup t.buckets (fun group => keyMatches row groupSlots (t.keyAt group)) hash.toNat

/-- Reinserts every group into a larger bucket array. -/
def rehashGroups (t : GroupTable) : GroupTable :=
  { t with
    buckets := rehash (if t.buckets.length = 0 then 256 else t.buckets.length * 2)
      (t.groups.map fun group => group.hash.toNat) }

/-- Room for one more group: the table is kept under two thirds full. -/
def reserveGroup (t : GroupTable) : GroupTable :=
  if t.buckets.length * 2 ≤ (t.groups.length + 1) * 3 then rehashGroups t else t

/-- Enters a group into the hash table. -/
def recordGroup (t : GroupTable) (group : Nat) (hash : UInt32) : GroupTable :=
  { t with buckets := place t.buckets hash.toNat group }

/-! ### Accumulating -/

/-- `acc->real += ...`. -/
def addReal (real value : UInt64) : UInt64 := (Float.ofBits real + Float.ofBits value).toBits

/-- One value into an accumulator. For `count(*)` there is no value to look at. -/
def accumulate (acc : Accumulator) (item : SelectItem) (value : Value) : Accumulator :=
  if item.aggregate = .AGG_NONE then acc
  else if item.star then { acc with count := acc.count + 1, seen := true }
  else if value.isNull then acc
  else
    let acc := { acc with count := acc.count + 1 }
    let acc :=
      if item.aggregate = .AGG_SUM ∨ item.aggregate = .AGG_AVG then
        if value.type = .TYPE_FLOAT then { acc with real := addReal acc.real value.floatValue }
        else
          { acc with
            sum := acc.sum + value.intValue.toInt
            real := addReal acc.real (intToDouble value.intValue) }
      else if item.aggregate = .AGG_MIN ∨ item.aggregate = .AGG_MAX then
        if !acc.seen
            || (item.aggregate == .AGG_MIN && compareValues value acc.extreme == .lt)
            || (item.aggregate != .AGG_MIN && compareValues value acc.extreme == .gt) then
          { acc with extreme := value }
        else acc
      else acc
    { acc with seen := true }

/-- A row into the accumulators of its group, one for each item. -/
def accumulateItems (exprs : ExprPool) (row : Row) :
    List SelectItem → List Accumulator → Except ErrorCode (List Accumulator)
  | item :: items, acc :: accs =>
    match if item.star then .ok zeroValue else exprEvaluate exprs item.expr row with
    | .error code => .error code
    | .ok computed =>
      match accumulateItems exprs row items accs with
      | .error code => .error code
      | .ok rest => .ok (accumulate acc item computed :: rest)
  | _, _ => .ok []

/-- An accumulator set to nothing, or by the shortcut to a number of rows. -/
def Accumulator.set (acc : Accumulator) (count : Nat) (seen : Bool) : Accumulator :=
  { acc with count := count, sum := 0, real := 0, seen := seen }

/-- The accumulators of a group. -/
def GroupMemory.accumulators (memory : GroupMemory) (group count : Nat) (seen : Bool)
    (items : List SelectItem) : List Accumulator :=
  (List.range items.length).map fun c => (memory.accumulatorAt group c).set count seen

/-- A new group for the row. -/
def addGroup (memory : GroupMemory) (items : List SelectItem) (t : GroupTable) (row : Row)
    (groupSlots : List Nat) (hash : UInt32) : GroupTable :=
  let t := reserveGroup t
  let g := t.groups.length
  let t := recordGroup t g hash
  let group :=
    { hash := hash, key := groupSlots.map row.value, accs := memory.accumulators g 0 false items }
  { t with groups := t.groups ++ [group] }

/-- The body of the loop over the rows. -/
def groupRow (memory : GroupMemory) (items : List SelectItem) (exprs : ExprPool)
    (groupSlots : List Nat) (row : Row) (t : GroupTable) : Except ErrorCode GroupTable :=
  let hash := hashKey row groupSlots
  let (t, g) :=
    match findGroup t row groupSlots hash with
    | some g => (t, g)
    | none => (addGroup memory items t row groupSlots hash, t.groups.length)
  match t.groups[g]? with
  | none => .error .GENERAL_ERROR
  | some group =>
    match accumulateItems exprs row items group.accs with
    | .error code => .error code
    | .ok accs => .ok { t with groups := t.groups.set g { group with accs := accs } }

/-- The loop over the rows; `row` is the storage into which each is decoded. -/
def groupRows (memory : GroupMemory) (items : List SelectItem) (exprs : ExprPool)
    (groupSlots : List Nat) (deepest : Int) :
    List Row → Row → GroupTable → Except ErrorCode GroupTable
  | [], _, t => .ok t
  | record :: rest, row, t =>
    let row := decodeInto record row deepest
    match groupRow memory items exprs groupSlots row t with
    | .error code => .error code
    | .ok t => groupRows memory items exprs groupSlots deepest rest row t

/-! ### The answer -/

/-- A result: what a client sees. -/
structure ResultSet where
  headers : List Name
  types : List ColType
  rows : List Row
  deriving DecidableEq

/-- The position of each GROUP BY column. -/
def groupBySlots (table : CatalogNode) : List Name → Except ErrorCode (List Nat)
  | [] => .ok []
  | name :: rest =>
    match findColumn table name.1 with
    | .negSucc _ => .error .SEMANTIC_COLUMN_NOT_FOUND
    | .ofNat slot =>
      match groupBySlots table rest with
      | .error code => .error code
      | .ok slots => .ok (slot :: slots)

/-- The GROUP BY position of a plain column, the last one that has its name. -/
def itemKey (select : SelectList) (exprs : ExprPool) (item : SelectItem) : Option Nat :=
  if item.aggregate = .AGG_NONE && exprIsColumn exprs item.expr then
    ((List.range select.groupBy.length).filter fun k =>
      (select.groupBy[k]?).any fun name => sameText name.1 (exprColumn exprs item.expr)).getLast?
  else none

/-- What the answer needs to know of an item: its GROUP BY position and its type. -/
structure ItemPlan where
  item : SelectItem
  key : Option Nat
  type : ColType

/-- Binds the items of the select list. -/
def planItems (table : CatalogNode) (select : SelectList) :
    List SelectItem → ExprPool → Except ErrorCode (List ItemPlan × ExprPool)
  | [], exprs => .ok ([], exprs)
  | item :: rest, exprs =>
    let bound : Except ErrorCode (ItemPlan × ExprPool) :=
      if item.star then .ok ({ item, key := none, type := .TYPE_INT }, exprs)
      else
        match resolveType table exprs item.expr with
        | .error code => .error code
        | .ok (type, exprs) => .ok ({ item, key := itemKey select exprs item, type }, exprs)
    match bound with
    | .error code => .error code
    | .ok (plan, exprs) =>
      match planItems table select rest exprs with
      | .error code => .error code
      | .ok (plans, exprs) => .ok (plan :: plans, exprs)

/-- The value of an item for a group. -/
def groupValue (plan : ItemPlan) (key : List Value) (acc : Accumulator) : Except ErrorCode Value :=
  match plan.item.aggregate with
  | .AGG_NONE => .ok ((plan.key.bind (key[·]?)).getD zeroValue)
  | .AGG_COUNT => .ok { zeroValue with intValue := Int32.ofNat acc.count }
  | .AGG_AVG =>
    if !acc.seen || acc.count == 0 then .ok (setNull .TYPE_FLOAT)
    else
      .ok (setFloat (Float.ofBits acc.real /
        Float.ofBits (intToDouble (Int32.ofNat acc.count))).toBits)
  | .AGG_SUM =>
    if !acc.seen then .ok (setNull plan.type)
    else if plan.type = .TYPE_FLOAT then .ok (setFloat acc.real)
    -- a total that does not fit is an error
    else if acc.sum < -2147483648 ∨ 2147483647 < acc.sum then .error .VALUE_OUT_OF_RANGE
    else .ok { zeroValue with intValue := Int32.ofInt acc.sum }
  | .AGG_MIN | .AGG_MAX => if acc.seen then .ok acc.extreme else .ok (setNull plan.type)

/-- The row of a group. -/
def groupValues (key : List Value) : List ItemPlan → List Accumulator → Except ErrorCode Row
  | plan :: plans, acc :: accs =>
    match groupValue plan key acc with
    | .error code => .error code
    | .ok value =>
      match groupValues key plans accs with
      | .error code => .error code
      | .ok values => .ok (value :: values)
  | _, _ => .ok []

/-- The result column that a name means. -/
def findHeader (headers : List Name) (name : List UInt8) : Except ErrorCode Nat :=
  match headers.findIdx? fun header => sameText header.1 name with
  | some slot => .ok slot
  | none =>
    match (List.range headers.length).filter fun c =>
        (headers[c]?).any fun header =>
          sameText (bareName header.1) (bareName name) with
    | [] => .error .SEMANTIC_COLUMN_NOT_FOUND
    | [slot] => .ok slot
    | _ => .error .SEMANTIC_AMBIGUOUS_COLUMN

/-- HAVING names result columns. -/
def resolveHavingExprs (headers : List Name) : ExprPool → Except ErrorCode ExprPool
  | [] => .ok []
  | node :: rest =>
    if node.kind ≠ .EXPR_COLUMN then (resolveHavingExprs headers rest).map (node :: ·)
    else
      match findHeader headers node.column.1 with
      | .error code => .error code
      | .ok slot => (resolveHavingExprs headers rest).map ({ node with slot := slot } :: ·)

/-- The HAVING of a statement, bound to the headers. -/
def boundHaving (headers : List Name) (having : Condition) : Except ErrorCode Condition :=
  if having.present then
    (resolveHavingExprs headers having.exprs).map fun exprs => { having with exprs := exprs }
  else .ok having

/-- Whether a HAVING keeps a row. -/
def havingKeeps (having : Condition) (sub : Subqueries) (row : Row) : Bool :=
  !having.present || evaluateCondition having sub row == .TRI_TRUE

/-- The rows of the groups that HAVING keeps. -/
def emitGroups (having : Condition) (sub : Subqueries) (plans : List ItemPlan) :
    List Group → Except ErrorCode (List Row)
  | [] => .ok []
  | group :: rest =>
    match groupValues group.key plans group.accs with
    | .error code => .error code
    | .ok row =>
      match emitGroups having sub plans rest with
      | .error code => .error code
      | .ok rows => .ok (if havingKeeps having sub row then row :: rows else rows)

/-- The header of an item: its column's own name, or its label. -/
def itemHeader (table : CatalogNode) (exprs : ExprPool) (item : SelectItem) : Name :=
  if item.aggregate = .AGG_NONE && !item.aliased && exprIsColumn exprs item.expr then
    match findColumn table (exprColumn exprs item.expr) with
    | .negSucc _ => item.label
    | .ofNat slot =>
      match table.cols[slot]? with
      | some column => column.name
      | none => item.label
  else item.label

/-- The type that an item is announced with. -/
def ItemPlan.resultType (plan : ItemPlan) : ColType :=
  match plan.item.aggregate with
  | .AGG_COUNT => .TYPE_INT
  | .AGG_AVG => .TYPE_FLOAT
  | _ => plan.type

/-- How far the rows have to be read. -/
def deepestRead (groupSlots : List Nat) (exprs : ExprPool) (items : List SelectItem) : Int :=
  items.foldl (fun deepest item => max deepest (exprDeepest exprs item.expr))
    (groupSlots.foldl (fun (deepest : Int) (slot : Nat) => max deepest (slot : Int)) (-1))

/-- The groups of the rows, before the answer is put together. -/
def collectGroups (memory : GroupMemory) (items : List SelectItem) (exprs : ExprPool)
    (groupSlots : List Nat) (rows : List Row) : Except ErrorCode (List Group) :=
  let deepest := deepestRead groupSlots exprs items
  if deepest < 0 ∧ 0 < rows.length then
    -- nothing to read: the answer is how many rows the scan kept
    .ok [{ hash := 0, key := [], accs := memory.accumulators 0 rows.length true items }]
  else
    match groupRows memory items exprs groupSlots deepest rows []
      { groups := [], buckets := List.replicate memory.bucketCount 0 } with
    | .error code => .error code
    | .ok t =>
      -- an aggregate over no rows still returns one row, but only without GROUP BY
      if t.groups = [] ∧ groupSlots = [] then
        .ok [{ hash := 0, key := [], accs := memory.accumulators 0 0 false items }]
      else .ok t.groups

/-- One output row per group. -/
def projectGroups (memory : GroupMemory) (sub : Subqueries) (table : CatalogNode)
    (select : SelectList) (rows : List Row) : Except ErrorCode ResultSet :=
  match groupBySlots table select.groupBy with
  | .error code => .error code
  | .ok groupSlots =>
    match planItems table select select.items select.exprs with
    | .error code => .error code
    | .ok (plans, exprs) =>
      match collectGroups memory select.items exprs groupSlots rows with
      | .error code => .error code
      | .ok groups =>
        let headers := select.items.map (itemHeader table exprs)
        match boundHaving headers select.having with
        | .error code => .error code
        | .ok having =>
          match emitGroups having sub plans groups with
          | .error code => .error code
          | .ok rows => .ok { headers, types := plans.map ItemPlan.resultType, rows }

end DatabaseEngine
