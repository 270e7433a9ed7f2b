import DatabaseEngine.Model.Index

/-!
# `DatabaseEngine.Model.Catalog`: databases and what they hold

The catalog of `02_catalog.c` and the databases of `13_database.c`. The state that the source
keeps in arrays with one entry for each database is the fields of `Database`; `Engine` is all
of it, with the thread's current database, its join heap and its subquery results.

The tables of a database stand in the order of the hash buckets, which is the order of
`listTables`; `insertNode` puts a table in front of its bucket. Two names that differ in
letter case only have one bucket, so a search of the list is a search of the bucket.
-/

set_option autoImplicit false

namespace DatabaseEngine

open Library

/-- The number of hash buckets. -/
def CATALOG_SIZE : Nat := 101
/-- `main`. -/
def DEFAULT_DB_NAME : List UInt8 := [109, 97, 105, 110]

/-- One database. -/
structure Database where
  name : Name
  used : Bool
  tables : List CatalogNode
  heaps : List Heap
  indexes : List Index

/-- A slot that no database uses. -/
def freeSlot : Database :=
  { name := Name.ofBytes [], used := false, tables := [], heaps := [], indexes := [] }

/-- What the engine holds besides its pages. -/
structure Engine where
  databases : List Database
  current : Nat
  /-- `joinHeap`, the scratch of the last join. -/
  joinHeap : Heap
  /-- `subqueryResult`, the first column of each. -/
  subqueryResult : List (List Value)

/-- The list with its first member that the test finds replaced. -/
def replaceFirst {α : Type} (found : α → Bool) (a : α) : List α → List α
  | [] => []
  | other :: rest => if found other then a :: rest else other :: replaceFirst found a rest

/-! ### Tables -/

/-- The bucket of a name, by the lower case of its bytes. -/
def hashName (name : Name) : Nat :=
  (name.1.foldl (fun h c => h * 33 + (tolower c).toUInt32) (5381 : UInt32)).toNat % CATALOG_SIZE

/-- The first table under a name. -/
def findTable (tables : List CatalogNode) (name : Name) : Option CatalogNode :=
  tables.find? fun node => node.table.same name

/-- Links a table in at the head of its bucket. -/
def insertNode (node : CatalogNode) (tables : List CatalogNode) : List CatalogNode :=
  tables.takeWhile (fun other => decide (hashName other.table < hashName node.table)) ++
    node :: tables.dropWhile fun other => decide (hashName other.table < hashName node.table)

/-- Binds the operands of each comparison, whatever comes of it. -/
def bindNodes (table : CatalogNode) : List ConditionNode → ExprPool → ExprPool
  | [], exprs => exprs
  | node :: rest, exprs =>
    if node.kind = .COND_COMPARE then
      bindNodes table rest
        (exprResolve table (exprResolve table exprs node.compare.left).2 node.compare.right).2
    else bindNodes table rest exprs

/-- A table's CHECK bound to the table. -/
def bindCheck (table : CatalogNode) : CatalogNode :=
  { table with
    check := table.check.map fun cond =>
      { cond with exprs := bindNodes table cond.nodes cond.exprs } }

/-- Registers a table. -/
def addTable (name : Name) (cols : List Column) (check : Option Condition)
    (tables : List CatalogNode) : Except ErrorCode (List CatalogNode) :=
  if cols.length = 0 ∨ MAX_COLS < cols.length then .error .SYNTAX_TOO_MANY_COLUMNS
  else
    .ok (insertNode
      (bindCheck { table := name, cols := cols, check := check.filter Condition.present }) tables)

/-- Unlinks the first table under a name. -/
def dropTable (name : Name) (tables : List CatalogNode) : List CatalogNode :=
  tables.eraseP fun node => node.table.same name

/-- The table leaves one bucket and joins another. -/
def renameTableInCatalog (was newName : Name) (tables : List CatalogNode) :
    Except ErrorCode (List CatalogNode) :=
  if (findTable tables newName).isSome then .error .SEMANTIC_TABLE_EXISTS
  else
    match findTable tables was with
    | none => .error .SEMANTIC_TABLE_NOT_FOUND
    | some node => .ok (insertNode { node with table := newName } (dropTable was tables))

/-- What `listTables` fills an array of `max` entries with. -/
def listTables (tables : List CatalogNode) (max : Nat) : List CatalogNode := tables.take max

/-- What `listIndexes` fills an array of `max` entries with. -/
def listIndexes (indexes : List Index) (max : Nat) : List Index := indexes.take max

/-- Replaces the table that a name finds. -/
def putTable (name : Name) (node : CatalogNode) (tables : List CatalogNode) :
    List CatalogNode :=
  replaceFirst (fun other => other.table.same name) node tables

/-! ### Heaps of a database -/

/-- The first heap under a table's name. -/
def findHeap (heaps : List Heap) (table : Name) : Option Heap :=
  heaps.find? fun heap => heap.table.same table

/-- Replaces the heap that the table's name finds. -/
def putHeap (table : Name) (heap : Heap) (heaps : List Heap) : List Heap :=
  replaceFirst (fun other => other.table.same table) heap heaps

/-- The heap goes by the new name of its table. -/
def renameHeap (was newName : Name) (heaps : List Heap) : List Heap :=
  match findHeap heaps was with
  | none => heaps
  | some heap => putHeap was { heap with table := newName } heaps

/-- A heap more, while there is room. -/
def createHeap (table : Name) (heaps : List Heap) : Except ErrorCode (List Heap) :=
  if heaps.length = MAX_TABLES then .error .EXEC_TOO_MANY_TABLES
  else .ok (heaps ++ [clearHeap table])

/-- `heaps[i] = heaps[--heapCount]` for the heap of that name. -/
def removeHeap (table : Name) (heaps : List Heap) : List Heap :=
  match heaps.findIdx? fun heap => heap.table.same table with
  | none => heaps
  | some i =>
    match heaps.getLast? with
    | none => heaps
    | some last => (heaps.set i last).dropLast

/-- Frees a table's heap and takes it off the list. -/
def dropHeap (table : Name) : Step (List Heap) Unit := do
  let heaps ← Action.get
  match findHeap heaps table with
  | none => Action.throw .SEMANTIC_TABLE_NOT_FOUND
  | some heap =>
    Action.lift (freePages (heap.pages.map Prod.fst))
    Action.set (removeHeap table heaps)

/-! ### Databases -/

/-- The slot of a database, among those in use. -/
def findDatabase (databases : List Database) (name : Name) : Option Nat :=
  databases.findIdx? fun db => db.used && db.name.same name

/-- A database in the first free slot. -/
def createDatabase (name : Name) (databases : List Database) :
    Except ErrorCode (List Database) :=
  if (findDatabase databases name).isSome then .error .SEMANTIC_DATABASE_EXISTS
  else
    match databases.findIdx? fun db => !db.used with
    | none => .error .EXEC_TOO_MANY_DATABASES
    | some i => .ok (databases.modify i fun db => { db with name := name, used := true })

/-- The engine as `initDatabases`, `initCatalog`, `initStorage` and `initIndexes` leave it;
the join heap and the subquery results are not theirs. -/
def initEngine (engine : Engine) : Engine :=
  { engine with
    databases := { freeSlot with name := Name.ofBytes DEFAULT_DB_NAME, used := true }
      :: List.replicate (MAX_DATABASES - 1) freeSlot
    current := 0 }

/-- The current database. -/
def Engine.database (engine : Engine) : Database := engine.databases.getD engine.current freeSlot

/-- Replaces the current database. -/
def Engine.setDatabase (db : Database) (engine : Engine) : Engine :=
  { engine with databases := engine.databases.set engine.current db }

/-- A step on the current database. -/
def onDatabase {α : Type} (x : Step Database α) : Step Engine α :=
  Action.onPart Engine.database Engine.setDatabase x

/-- A step on the indexes of a database. -/
def onIndexes {α : Type} (x : Step (List Index) α) : Step Database α :=
  Action.onPart Database.indexes (fun indexes db => { db with indexes := indexes }) x

/-- A step on the heaps of a database. -/
def onHeaps {α : Type} (x : Step (List Heap) α) : Step Database α :=
  Action.onPart Database.heaps (fun heaps db => { db with heaps := heaps }) x

/-- A step on the heap that a table's name finds. -/
def onHeap {α : Type} (table : Name) (x : Step Heap α) : Step Database α := do
  let db ← Action.get
  match findHeap db.heaps table with
  | none => Action.throw .SEMANTIC_TABLE_NOT_FOUND
  | some heap =>
    Action.onPart (fun _ => heap)
      (fun heap db => { db with heaps := putHeap table heap db.heaps }) x

end DatabaseEngine
