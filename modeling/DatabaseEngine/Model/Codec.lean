import DatabaseEngine.Model.Executor

/-!
# `DatabaseEngine.Model.Codec`: the catalog as bytes

The writer and the reader of the catalog in `12_persist.c`. A `Buffer` of the source is the
list of its bytes. A `Reader` is the list of the bytes that it has not read, and a `Parser`
fails where the source answers `ERROR_IO_BAD_FORMAT`.

Reading builds the engine as it goes, so an error leaves behind what had been built. Versions
before 4 carry no trees and versions before 3 no pages; their rows are replayed.
-/

set_option autoImplicit false

namespace DatabaseEngine

open Library

/-- The version that is written: a CHECK holds expressions. -/
def SAVE_VERSION : Nat := 8
/-- The first version whose pages carry checksums. -/
def CHECKSUM_VERSION : Nat := 7
/-- The first version with column sizes and constraints. -/
def META_VERSION : Nat := 6
/-- The first version with the catalog inside the pages. -/
def CHAIN_VERSION : Nat := 5
/-- The first version that keeps index trees. -/
def TAIL_VERSION : Nat := 4
/-- The first version with the rows in pages; its indexes are rebuilt on load. -/
def TREELESS_VERSION : Nat := 3
/-- The first version: a single database without names. -/
def LEGACY_VERSION : Nat := 1

/-! ### Numbers of the enumerations -/

/-- The comparisons in the order of their numbers. -/
def CompareOp.codes : List CompareOp :=
  [.OP_EQ, .OP_NE, .OP_LT, .OP_LTE, .OP_GT, .OP_GTE, .OP_IS_NULL, .OP_IS_NOT_NULL, .OP_LIKE,
    .OP_NOT_LIKE, .OP_IN, .OP_EXISTS]

/-- The kinds of a condition's node in that order. -/
def ConditionKind.codes : List ConditionKind := [.COND_COMPARE, .COND_AND, .COND_OR, .COND_NOT]

/-- The kinds of an expression's node in that order. -/
def ExprKind.codes : List ExprKind := [.EXPR_COLUMN, .EXPR_LITERAL, .EXPR_BINARY, .EXPR_NEGATE]

/-- The operators in that order. -/
def ArithOp.codes : List ArithOp := [.ARITH_ADD, .ARITH_SUB, .ARITH_MUL, .ARITH_DIV, .ARITH_MOD]

/-- The types in that order. -/
def ColType.codes : List ColType := [.TYPE_INT, .TYPE_TEXT, .TYPE_FLOAT, .TYPE_DATE]

/-! ### Writing -/

/-- Four bytes, least significant first. -/
def putU32 (n : Nat) : List UInt8 := le32 (UInt32.ofNat n)

/-- An `int` in four bytes. -/
def putInt (n : Int32) : List UInt8 := le32 n.toUInt32

/-- A flag in four bytes. -/
def putBool (b : Bool) : List UInt8 := putU32 (if b then 1 else 0)

/-- An enumeration is written as the number of the constructor. -/
def putCode {α : Type} [BEq α] (codes : List α) (a : α) : List UInt8 := putU32 (codes.idxOf a)

/-- A C string ends at its first zero byte. -/
def cString (text : List UInt8) : List UInt8 := text.takeWhile (· ≠ 0)

/-- A length and the bytes of a C string. -/
def putString (text : List UInt8) : List UInt8 :=
  putU32 (cString text).length ++ cString text

/-- A literal, written in full rather than by type. -/
def putValue (value : Value) : List UInt8 :=
  putCode ColType.codes value.type ++ putBool value.isNull ++ putInt value.intValue
    ++ le64 value.floatValue
    ++ putString (if value.type = .TYPE_TEXT ∧ !value.isNull then value.text else [])

/-- Only a comparison has a predicate. -/
def putConditionNode (node : ConditionNode) : List UInt8 :=
  putCode ConditionKind.codes node.kind ++ putInt node.left ++ putInt node.right ++
    if node.kind = .COND_COMPARE then
      putInt node.compare.left ++ putCode CompareOp.codes node.compare.op
        ++ putInt node.compare.right
    else []

/-- A node of an expression. -/
def putExprNode (node : ExprNode) : List UInt8 :=
  putCode ExprKind.codes node.kind ++ putCode ArithOp.codes node.op ++ putInt node.left
    ++ putInt node.right ++ putString node.column.1 ++ putValue node.literal

/-- A table's CHECK, node by node, with its operands. -/
def putCondition (check : Option Condition) : List UInt8 :=
  match check.filter Condition.present with
  | none => putBool false
  | some cond =>
    putBool true ++ putU32 cond.nodes.length ++ putInt cond.root
      ++ cond.nodes.flatMap putConditionNode
      ++ putU32 cond.exprs.length ++ cond.exprs.flatMap putExprNode

/-- `COL_NOT_NULL | COL_UNIQUE | COL_PRIMARY`. -/
def Column.flags (column : Column) : Nat :=
  (if column.notNull then 1 else 0) + (if column.unique then 2 else 0)
    + (if column.primary then 4 else 0)

/-- A column, with its default if it has one. -/
def putColumn (column : Column) : List UInt8 :=
  putString column.name.1 ++ putCode ColType.codes column.type ++ putInt column.size
    ++ putU32 column.flags ++ putBool column.hasDefault
    ++ if column.hasDefault then putValue column.defaultValue else []

/-- Which pages hold a table, how many slots each uses, and the live count. -/
def putHeapPages (heap : Option Heap) : List UInt8 :=
  match heap with
  | none => putU32 0 ++ putU32 0
  | some heap =>
    putU32 heap.pages.length ++ heap.pages.flatMap (fun p => putU32 p.1 ++ putU32 p.2)
      ++ putInt (Int32.ofInt heap.nlive)

/-- A table with its columns, its CHECK and the pages of its heap. -/
def putTableEntry (heaps : List Heap) (table : CatalogNode) : List UInt8 :=
  putString table.table.1 ++ putU32 table.cols.length ++ table.cols.flatMap putColumn
    ++ putCondition table.check ++ putHeapPages (findHeap heaps table.table)

/-- An index with the page of its root. -/
def putIndex (index : Index) : List UInt8 :=
  putString index.name.1 ++ putString index.table.1 ++ putString index.column.1
    ++ putU32 index.rootPage ++ putInt (Int32.ofInt index.keyCount)

/-- Writes one database. -/
def saveCurrentDatabase (db : Database) : List UInt8 :=
  let tables := listTables db.tables MAX_TABLES
  let indexes := listIndexes db.indexes MAX_INDEXES
  putU32 tables.length ++ tables.flatMap (putTableEntry db.heaps)
    ++ putU32 indexes.length ++ indexes.flatMap putIndex

/-- The catalog: every database in use, with its tables and indexes. -/
def saveCatalog (engine : Engine) : List UInt8 :=
  let used := engine.databases.filter Database.used
  putString engine.database.name.1 ++ putU32 used.length
    ++ used.flatMap fun db => putString db.name.1 ++ saveCurrentDatabase db

/-! ### Reading -/

/-- A reader's step: none is `ERROR_IO_BAD_FORMAT`. -/
abbrev Parser := StateT (List UInt8) Option

/-- Four bytes back. -/
def getU32 : Parser UInt32 := fun bytes =>
  match bytes with
  | a :: b :: c :: d :: rest => some (ofLe32 a b c d, rest)
  | _ => none

/-- So many bytes. -/
def getBytes (length : Nat) : Parser (List UInt8) := fun bytes =>
  if bytes.length < length then none else some (bytes.take length, bytes.drop length)

/-- Goes on only if the condition holds. -/
def require (b : Bool) : Parser Unit := fun bytes => if b then some ((), bytes) else none

/-- A number from 0 on. -/
def getNat : Parser Nat := do
  let n ← getU32
  return n.toNat

/-- An `int`. -/
def getInt : Parser Int32 := do
  let n ← getU32
  return n.toInt32

/-- A number below `bound`, as the constructor it stands for. -/
def getCode {α : Type} (codes : List α) : Parser α := do
  let n ← getNat
  fun bytes => codes[n]?.map fun a => (a, bytes)

/-- A string shorter than its buffer. -/
def getString (capacity : Nat) : Parser (List UInt8) := do
  let length ← getNat
  require (length < capacity)
  getBytes length

/-- A name. -/
def getName : Parser Name := do
  let text ← getString NAME_LEN
  return Name.ofBytes text

/-- Eight bytes, least significant first. -/
def ofLe64 (bytes : List UInt8) : UInt64 := UInt64.ofNat (leNumber bytes)

/-- A literal that was written in full. -/
def getValue : Parser Value := do
  let type ← getCode ColType.codes
  let isNull ← getNat
  let intValue ← getInt
  let bits ← getBytes 8
  let text ← getString VALUE_LEN
  if isNull ≠ 0 then return setNull type
  else if type = .TYPE_TEXT then return setText (cString text)
  else
    return { type := type, isNull := false, intValue := intValue, floatValue := ofLe64 bits,
             text := [] }

/-- The predicate of a comparison; an operator above `OP_NOT_LIKE` is refused. -/
def getPredicate : Parser Predicate := do
  let left ← getInt
  let op ← getCode (CompareOp.codes.take 10)
  let right ← getInt
  return { left := left, op := op, right := right, subquery := -1 }

/-- What a node that is no comparison carries for a predicate: zeroes. -/
def noPredicate : Predicate := { left := 0, op := .OP_EQ, right := 0, subquery := 0 }

/-- A node of a condition. -/
def getConditionNode : Parser ConditionNode := do
  let kind ← getCode ConditionKind.codes
  let left ← getInt
  let right ← getInt
  let compare ← if kind = .COND_COMPARE then getPredicate else pure noPredicate
  return { kind := kind, compare := compare, left := left, right := right }

/-- `n` things, one after another. -/
def getMany {α : Type} (item : Parser α) : Nat → Parser (List α)
  | 0 => return []
  | n + 1 => do
    let a ← item
    let rest ← getMany item n
    return a :: rest

/-- An operand; `addTable` binds it to its table. -/
def getExprNode : Parser ExprNode := do
  let kind ← getCode ExprKind.codes
  let op ← getCode ArithOp.codes
  let left ← getInt
  let right ← getInt
  let column ← getName
  let literal ← getValue
  return { kind := kind, op := op, left := left, right := right, column := column,
           literal := literal, slot := -1, type := literal.type }

/-- A condition, or none. -/
def getCondition : Parser (Option Condition) := do
  let flag ← getNat
  if flag = 0 then return none
  else
    let count ← getNat
    require (0 < count && count ≤ MAX_CONDITION_NODES)
    let root ← getNat
    require (root < count)
    let nodes ← getMany getConditionNode count
    let operands ← getNat
    require (operands ≤ MAX_EXPR_NODES)
    let exprs ← getMany getExprNode operands
    return some { present := true, root := Int32.ofNat root, nodes := nodes, exprs := exprs }

/-- A column; an older file keeps no promises about it. -/
def getColumn (version : Nat) : Parser Column := do
  let name ← getName
  let type ← getCode ColType.codes
  if version < META_VERSION then
    return { name := name, type := type, size := 0, notNull := false, unique := false,
             primary := false, hasDefault := false, defaultValue := zeroValue }
  else
    let size ← getInt
    let flags ← getNat
    let hasDefault ← getNat
    let value ← if hasDefault ≠ 0 then getValue else pure zeroValue
    return { name := name, type := type, size := size, notNull := flags.testBit 0,
             unique := flags.testBit 1, primary := flags.testBit 2,
             hasDefault := hasDefault != 0, defaultValue := value }

/-- A value of a row in a file of version 1 or 2. -/
def getField (type : ColType) : Parser Value := do
  let isNull ← getBytes 1
  if isNull ≠ [0] then return setNull type
  else if type = .TYPE_INT then
    let n ← getInt
    return { zeroValue with intValue := n }
  else
    let text ← getString VALUE_LEN
    return setText (cString text)

/-- A row of the first version, one field for each column. -/
def readRow : List Column → Parser Row
  | [] => return []
  | column :: rest => do
    let value ← getField column.type
    let row ← readRow rest
    return value :: row

/-! ### Building -/

/-- A reader and the engine it fills. -/
structure Loading where
  reader : List UInt8
  engine : Engine

/-- Reads on; what cannot be read is a bad format. -/
def parse {α : Type} (item : Parser α) : Step Loading α := fun loading =>
  match item loading.reader with
  | none => .pure (.error .IO_BAD_FORMAT, loading)
  | some (a, rest) => .pure (.ok a, { loading with reader := rest })

/-- A step on the engine that is loaded. -/
def onEngine {α : Type} (x : Step Engine α) : Step Loading α :=
  Action.onPart Loading.engine (fun engine loading => { loading with engine := engine }) x

/-- A step on the database that is currently selected. -/
def onLoaded {α : Type} (x : Step Database α) : Step Loading α := onEngine (onDatabase x)

/-- A step on the heap that was made last. -/
def onLastHeap {α : Type} (x : Step Heap α) : Step Database α := do
  let db ← Action.get
  match db.heaps.getLast? with
  | none => Action.throw .GENERAL_ERROR
  | some heap =>
    Action.onPart (fun _ => heap)
      (fun heap db => { db with heaps := db.heaps.dropLast ++ [heap] }) x

/-- Takes over the pages of a table, with the slots each uses. -/
def adoptPages : Nat → Step Loading Unit
  | 0 => return ()
  | n + 1 => do
    let pageId ← parse getNat
    let slots ← parse getNat
    onLoaded (onLastHeap (Action.modify fun heap => heapAdoptPage heap pageId slots))
    adoptPages n

/-- Replays the rows of an older file. -/
def replayRows (cols : List Column) : Nat → Step Loading Unit
  | 0 => return ()
  | n + 1 => do
    let row ← parse (readRow cols)
    let _ ← onLoaded (onLastHeap (heapInsert row))
    replayRows cols n

/-- Reads one table with its heap. -/
def loadTable (version : Nat) : Step Loading Unit := do
  let name ← parse getName
  let ncols ← parse getNat
  parse (require (0 < ncols && ncols ≤ MAX_COLS))
  let cols ← parse (getMany (getColumn version) ncols)
  let check ← parse (if META_VERSION ≤ version then getCondition else return none)
  onLoaded do
    let db ← Action.get
    let tables ← Action.ofExcept (addTable name cols check db.tables)
    Action.set { db with tables := tables }
  onLoaded do
    let db ← Action.get
    let heaps ← Action.ofExcept (createHeap name db.heaps)
    Action.set { db with heaps := heaps }
  if TREELESS_VERSION ≤ version then
    let pages ← parse getNat
    adoptPages pages
    let live ← parse getInt
    onLoaded (onLastHeap (Action.modify fun heap => { heap with nlive := live.toInt }))
  else
    let rows ← parse getNat
    replayRows cols rows

/-- So many tables. -/
def loadTables (version : Nat) : Nat → Step Loading Unit
  | 0 => return ()
  | n + 1 => do
    loadTable version
    loadTables version n

/-- Reads one index; its tree is in the file, or is made to be filled below. -/
def loadIndex (version : Nat) : Step Loading Unit := do
  let name ← parse getName
  let tableName ← parse getName
  let column ← parse getName
  let db ← onLoaded Action.get
  match findTable db.tables tableName with
  | none => Action.throw .IO_BAD_FORMAT
  | some table =>
    match findColumn table column.1 with
    | .negSucc _ => Action.throw .IO_BAD_FORMAT
    | .ofNat slot =>
      let column := ((table.cols[slot]?).map Column.name).getD column
      if TAIL_VERSION ≤ version then
        let rootPage ← parse getNat
        let keyCount ← parse getInt
        onLoaded (onIndexes (Action.modify
          (adoptIndex name table.table column slot rootPage keyCount.toInt)))
      else
        onLoaded (onIndexes (createIndex name table.table column slot (table.columnType slot)))

/-- So many indexes. -/
def loadIndexes (version : Nat) : Nat → Step Loading Unit
  | 0 => return ()
  | n + 1 => do
    loadIndex version
    loadIndexes version n

/-- Fills the trees of the tables. -/
def rebuildAll : List CatalogNode → Step Database Unit
  | [] => return ()
  | table :: rest => do
    let db ← Action.get
    match findHeap db.heaps table.table with
    | none => rebuildAll rest
    | some heap =>
      onIndexes (rebuildIndexes table.table heap)
      rebuildAll rest

/-- Reads one database into whichever database is currently selected. -/
def loadCurrentDatabase (version : Nat) : Step Loading Unit := do
  let tableCount ← parse getNat
  parse (require (tableCount ≤ MAX_TABLES))
  loadTables version tableCount
  let indexCount ← parse getNat
  loadIndexes version indexCount
  if TAIL_VERSION ≤ version then return ()
  else
    onLoaded do
      let db ← Action.get
      rebuildAll (listTables db.tables MAX_TABLES)

/-- Finds or makes the database of a name, and selects it. -/
def selectNamed (name : Name) : Step Engine Unit := do
  let engine ← Action.get
  match findDatabase engine.databases name with
  | some id => Action.set { engine with current := id }
  | none =>
    let databases ← Action.ofExcept (createDatabase name engine.databases)
    Action.set
      { engine with databases := databases, current := (findDatabase databases name).getD 0 }

/-- So many databases. -/
def loadDatabases (version : Nat) : Nat → Step Loading Unit
  | 0 => return ()
  | n + 1 => do
    let name ← parse getName
    onEngine (selectNamed name)
    loadCurrentDatabase version
    loadDatabases version n

/-- `useDatabase`, falling back to the default. -/
def useNamed (name : Name) (engine : Engine) : Engine :=
  { engine with current := (findDatabase engine.databases name).getD 0 }

/-- The name of the database that was current, and how many there are. Version 1 predates
databases: the whole file is one unnamed database. -/
def loadNames (version : Nat) : Step Loading (Name × Nat) :=
  if version = LEGACY_VERSION then return (Name.ofBytes DEFAULT_DB_NAME, 1)
  else do
    let current ← parse getName
    let total ← parse getNat
    parse (require (total ≤ MAX_DATABASES))
    return (current, total)

/-- Everything after the names. -/
def loadBody (version total : Nat) : Step Loading Unit :=
  if version = LEGACY_VERSION then do
    -- everything lands in "main"
    onEngine (Action.modify fun engine => { engine with current := 0 })
    loadCurrentDatabase version
  else loadDatabases version total

end DatabaseEngine
