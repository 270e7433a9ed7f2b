import DatabaseEngine.Model.Codec
import DatabaseEngine.Model.Pool

/-!
# `DatabaseEngine.Model.Session`: files, transactions and the life of a session

The rest of `12_persist.c`, `ProcessStatement` of `10_controller.c`, the opening and closing
of a log and its replay in `15_wal.c`, and what `main.c` makes of them. There is one session,
so `holdingForTransaction` is `transactionOpen`.

`PageM.onPool` runs a page program on the pool. A path names an inode; a save writes a new
inode and moves the name. The log of a path is the list of its whole frames; `logs` holds the
ones that are not open. A list of frames stands for every file that has them behind its header,
and behind them nothing or part of one more frame: such a rest is never read back
(`walFrames_whole`). What is lost when frames go behind it is said by `LoggedSession` in
`Model.Failure`. What the surroundings decide is part of the state: which paths can be
opened (`canOpen`) and how large a buffer the library can give (`memory`).

A catalog chain that does not end is read for as many pages as the pool has and then refused;
the source would not return from it.
-/

set_option autoImplicit false

namespace DatabaseEngine

open Library

/-- No page. -/
def INVALID_CATALOG : UInt32 := 0xFFFFFFFF
/-- The bytes of a chain page before its piece. -/
def CATALOG_HEADER : Nat := 8
/-- The bytes of a piece. -/
def CATALOG_PAYLOAD : Nat := PAGE_USABLE - CATALOG_HEADER
/-- The length of the magic. -/
def MAGIC_LENGTH : Nat := 8
/-- `MINISQL1`. -/
def SAVE_MAGIC : List UInt8 := [77, 73, 78, 73, 83, 81, 76, 49]

/-- A path. -/
abbrev Path := List UInt8

/-- A page program on the pool: each access pins its page and lets it go. -/
def onPool {α : Type} : PageM Bytes α → Pool Bytes → α × Pool Bytes
  | .pure a, p => (a, p)
  | .alloc next, p => onPool (next (poolAllocate p).1) (poolAllocate p).2
  | .read id next, p =>
    match poolPin id p with
    | (none, p) => onPool (next none) p
    | (some i, p) => onPool (next ((p.pageIn i).map Page.body)) (poolUnpin id false p)
  | .write id body next, p =>
    match poolPin id p with
    | (none, p) => onPool next p
    | (some i, p) =>
      let page := ((p.pageIn i).getD Page.zero).rewrite body
      onPool next (poolUnpin id true (poolStore id page p))
  | .free id next, p => onPool next (poolFree id p)
  | .count next, p => onPool (next p.pageCount) p

/-- The statics of the modules above the pool, and what is around the process. -/
structure Session where
  engine : Engine
  pool : Pool Bytes
  /-- What a path names. -/
  names : Path → Option Nat
  nextInode : Nat
  canOpen : Path → Bool
  memory : Nat
  logs : Path → Option (List (LogFrame Bytes))
  walDatabase : Path
  openPath : Path
  catalogRoot : UInt32
  schemaChanged : Bool
  transactionOpen : Bool
  transactionPages : Nat
  /-- `main.c`: the file the session writes to at exit, and whether a log is attached to it. -/
  sessionPath : Path
  usingLog : Bool

/-- `fopen` of a file that is to exist. -/
def Session.openFile (s : Session) (path : Path) : Option Nat :=
  if s.canOpen path then s.names path else none

/-- Whether a log is open. -/
def walIsOpen (s : Session) : Bool := s.pool.wal.isSome

/-! ### The catalog as a chain of pages -/

/-- The pieces a blob goes into pages in; an empty one still takes a page. -/
def chunks : Nat → List UInt8 → List (List UInt8)
  | 0, _ => []
  | fuel + 1, blob =>
    if blob.length ≤ CATALOG_PAYLOAD then [blob]
    else blob.take CATALOG_PAYLOAD :: chunks fuel (blob.drop CATALOG_PAYLOAD)

/-- A chain page without a piece and without a successor. -/
def blankChainPage : Bytes := putU32At (putU32At (fun _ => 0) 0 INVALID_CATALOG) 4 0

/-- A fresh page at the end of a chain. -/
def newChainPage (previous : Option Nat) : PageM Bytes (Except ErrorCode Nat) := do
  let fresh ← allocatePage
  writePage fresh blankChainPage
  match previous with
  | none => return .ok fresh
  | some back =>
    match ← readPage back with
    | none => return .error .EXEC_OUT_OF_MEMORY
    | some page =>
      writePage back (putU32At page 0 (UInt32.ofNat fresh))
      return .ok fresh

/-- Releases what is left over of a chain. -/
def releaseChain : Nat → UInt32 → PageM Bytes Unit
  | 0, _ => pure ()
  | fuel + 1, next =>
    if next = INVALID_CATALOG then pure ()
    else do
      match ← readPage next.toNat with
      | none => return ()
      | some stale =>
        freePage next.toNat
        releaseChain fuel (u32At stale 0)

/-- A page of the chain with its part of the blob. -/
def chainPage (page : Bytes) (chunk : List UInt8) : Bytes :=
  putU32At (putBytesAt page CATALOG_HEADER chunk) 4 (UInt32.ofNat chunk.length)

/-- The page of the chain that the next chunk goes into: the one that is there, or a fresh
one. -/
def chainTarget (previous : Option Nat) (current : UInt32) : PageM Bytes (Except ErrorCode Nat) :=
  if current = INVALID_CATALOG then newChainPage previous else pure (.ok current.toNat)

/-- Lays chunks across the chain from `current` on. Answers the page of the first one. -/
def writeChunks : List (List UInt8) → Option Nat → UInt32 → PageM Bytes (Except ErrorCode Nat)
  | [], _, current => pure (.ok current.toNat)
  | chunk :: rest, previous, current => do
    match ← chainTarget previous current with
    | .error code => return .error code
    | .ok id =>
      match ← readPage id with
      | none => return .error .EXEC_OUT_OF_MEMORY
      | some page =>
        let next := u32At page 0
        if rest.isEmpty then
          writePage id (putU32At (chainPage page chunk) 0 INVALID_CATALOG)
          let fuel ← poolPageCount
          releaseChain fuel next
          return .ok id
        else
          writePage id (chainPage page chunk)
          match ← writeChunks rest (some id) next with
          | .error code => return .error code
          | .ok _ => return .ok id

/-- Lays the serialised catalog across a chain of pages, reusing the chain that is already
there and extending or trimming it to fit. Answers the root. -/
def writeCatalogChain (blob : List UInt8) (root : UInt32) :
    PageM Bytes (Except ErrorCode UInt32) := do
  match ← writeChunks (chunks (blob.length + 1) blob) none root with
  | .error code => return .error code
  | .ok id => return .ok (UInt32.ofNat id)

/-- The bytes of a chain. An `int` page id below zero ends it, as the end mark does. -/
def readCatalogChain (memory : Nat) :
    Nat → UInt32 → List UInt8 → PageM Bytes (Except ErrorCode (List UInt8))
  | 0, _, _ => pure (.error .IO_BAD_FORMAT)
  | fuel + 1, page, out =>
    if 0x80000000 ≤ page then pure (.ok out)
    else do
      match ← readPage page.toNat with
      | none => return .error .IO_BAD_FORMAT
      | some pinned =>
        let used := (u32At pinned 4).toNat
        if PAGE_SIZE - CATALOG_HEADER < used then return .error .IO_BAD_FORMAT
        else if memory < out.length + used then return .error .EXEC_OUT_OF_MEMORY
        else
          readCatalogChain memory fuel (u32At pinned 0) (out ++ bytesAt pinned CATALOG_HEADER used)

/-! ### Running steps on the session -/

/-- A page program on the session's pool. -/
def Session.pages {α : Type} (x : PageM Bytes α) (s : Session) : α × Session :=
  let (a, pool) := onPool x s.pool
  (a, { s with pool := pool })

/-- A step of the engine on the session. -/
def Session.engineStep {α : Type} (x : Step Engine α) (s : Session) :
    Except ErrorCode α × Session :=
  let ((r, engine), pool) := onPool (x s.engine) s.pool
  (r, { s with engine := engine, pool := pool })

/-- Continues after a success. -/
def andThen {α β : Type} (r : Except ErrorCode α × Session)
    (next : α → Session → Except ErrorCode β × Session) : Except ErrorCode β × Session :=
  match r.1 with
  | .error code => (.error code, r.2)
  | .ok a => next a r.2

/-! ### The log -/

/-- Opens the log of a path, at its end. -/
def walOpen (path : Path) (s : Session) : Session :=
  { s with
    walDatabase := path
    pool := { s.pool with wal := some ((s.logs path).getD []) }
    logs := fun other => if other = path then none else s.logs other }

/-- Closes the log and removes it. -/
def walClose (s : Session) : Session := { s with pool := { s.pool with wal := none } }

/-- Throws away the log belonging to a file that has just been written whole. -/
def walDiscard (path : Path) (s : Session) : Session :=
  if walIsOpen s && sameText s.walDatabase path then { s with pool := walTruncate s.pool }
  else { s with logs := fun other => if other = path then none else s.logs other }

/-! ### Opening and closing -/

/-- The fields of a header, none when the file is not one of ours. -/
structure Header where
  version : Nat
  pageTotal : Nat
  catalog : UInt32
  deriving DecidableEq

/-- Whether a file is one this build may write single pages into. -/
def isPageFile (path : Path) (s : Session) : Bool :=
  match s.openFile path with
  | none => false
  | some inode =>
    let head := (s.pool.files inode).head
    decide (12 ≤ head.length) && head.take MAGIC_LENGTH == SAVE_MAGIC
      && ((head.drop 8).take 4 == putU32 SAVE_VERSION)

/-- Reopens the page file for writing and attaches the log. -/
def openForWrite (path : Path) (s : Session) : Except ErrorCode Unit × Session :=
  match s.openFile path with
  | none => (.error .IO_CANNOT_OPEN, s)
  | some inode =>
    let pool := poolSetCatalogRoot s.catalogRoot
      (poolSetChecksums true (poolSetWritable inode s.pool.pageCount s.pool))
    (.ok (), walOpen path { s with pool := pool, openPath := path })

/-- Folds the log into the database file and removes it. -/
def closeDatabase (s : Session) : Session := walClose { s with pool := poolCheckpoint s.pool }

/-- The checks of the header, in the order in which `loadDatabase` makes them. -/
def readHeader (head : List UInt8) : Except ErrorCode Header :=
  if head.length < 24 ∨ head.take MAGIC_LENGTH ≠ SAVE_MAGIC then .error .IO_BAD_FORMAT
  else
    let field (n : Nat) : UInt32 := u32At (fun i => head.getD i 0) n
    let version := (field 8).toNat
    if SAVE_VERSION < version ∨ version < LEGACY_VERSION then .error .IO_VERSION
    else
      .ok
        { version := version
          pageTotal := if TREELESS_VERSION ≤ version then (field 12).toNat else 0
          catalog := if CHAIN_VERSION ≤ version then field 16 else INVALID_CATALOG }

/-- Drops whatever is open. The scratch heap of the last join is not part of it. -/
def teardown (s : Session) : Session :=
  { s with engine := initEngine s.engine, pool := poolInit (poolClear s.pool) }

/-- The metadata of a file, from its chain or from outside of its pages. -/
def readBlob (header : Header) (inode : Nat) (s : Session) :
    Except ErrorCode (List UInt8) × Session :=
  if CHAIN_VERSION ≤ header.version then
    s.pages (readCatalogChain s.memory (s.pool.pageCount + 1) header.catalog [])
  else
    match (s.pool.files inode).tail with
    | none => (.error .IO_BAD_FORMAT, s)
    | some blob =>
      if s.memory < blob.length then (.error .EXEC_OUT_OF_MEMORY, s) else (.ok blob, s)

/-- Compacts every table of a database and builds its trees again. -/
def compactAll : List CatalogNode → Step Database Unit
  | [] => return ()
  | table :: rest => do
    let db ← Action.get
    match findHeap db.heaps table.table with
    | none => compactAll rest
    | some _ =>
      compactTable table.table
      compactAll rest

/-- Moves every row of the databases numbered in the list off the bytes of the trailer. -/
def reservePageTrailers (restoreTo : Nat) : List Nat → Step Engine Unit
  | [] => Action.modify fun engine => { engine with current := restoreTo }
  | d :: rest => do
    let engine ← Action.get
    if !(engine.databases.getD d freeSlot).used then reservePageTrailers restoreTo rest
    else
      Action.set { engine with current := d }
      match ← Action.attempt (onDatabase do
          let db ← Action.get
          compactAll (listTables db.tables MAX_TABLES)) with
      | .error code =>
        Action.modify fun engine => { engine with current := restoreTo }
        Action.throw code
      | .ok () => reservePageTrailers restoreTo rest

/-- A step of a load on the session. -/
def Session.loadStep {α : Type} (x : Step Loading α) (reader : List UInt8) (s : Session) :
    Except ErrorCode α × List UInt8 × Session :=
  let ((r, loading), pool) := onPool (x { reader := reader, engine := s.engine }) s.pool
  (r, loading.reader, { s with engine := loading.engine, pool := pool })

/-- The catalog of a file whose pages the pool has taken over. -/
def loadFrom (path : Path) (header : Header) (blob : List UInt8) (s : Session) :
    Except ErrorCode Unit × Session :=
  match s.loadStep (loadNames header.version) blob with
  | (.error code, _, s) => (.error code, s)
  | (.ok (current, total), reader, s) =>
    let (r, _, s) := s.loadStep (loadBody header.version total) reader
    let root := if CHAIN_VERSION ≤ header.version then header.catalog else INVALID_CATALOG
    let s :=
      { s with
        openPath := if TREELESS_VERSION ≤ header.version then path else []
        catalogRoot := root
        pool := poolSetCatalogRoot root s.pool }
    match r with
    | .error code => (.error code, s)
    | .ok () =>
      let (r, s) :=
        if header.version < CHECKSUM_VERSION then
          s.engineStep (reservePageTrailers s.engine.current (List.range MAX_DATABASES))
        else (.ok (), s)
      match r with
      | .error code => (.error code, s)
      | .ok () => (.ok (), { s with engine := useNamed current s.engine })

/-- Everything after the header has been accepted. -/
def loadPages (path : Path) (inode : Nat) (header : Header) (s : Session) :
    Except ErrorCode Unit × Session :=
  let s := teardown s
  let s :=
    if TREELESS_VERSION ≤ header.version then
      { s with
        pool := poolSetChecksums (decide (CHECKSUM_VERSION ≤ header.version))
          (poolAdopt inode header.pageTotal s.pool) }
    else s
  andThen (readBlob header inode s) fun blob s => loadFrom path header blob s

/-- `loadDatabase`: drops what is open under a log and reads the file of a path. -/
def loadDatabase (path : Path) (s : Session) : Except ErrorCode Unit × Session :=
  -- whatever is open now is about to be dropped
  let s := if walIsOpen s then closeDatabase s else s
  match s.openFile path with
  | none => (.error .IO_CANNOT_OPEN, s)
  | some inode =>
    match readHeader (s.pool.files inode).head with
    | .error code => (.error code, s)
    | .ok header => loadPages path inode header s

/-! ### Saving -/

/-- The header page `writeHeader` fills. -/
def headerPage (pages : Nat) (catalog : UInt32) : List UInt8 :=
  let fields := SAVE_MAGIC ++ putU32 SAVE_VERSION ++ putU32 pages ++ le32 catalog
  fields ++ List.replicate (PAGE_SIZE - fields.length) 0

/-- Hands the pool the file again after a save has replaced it. -/
def reopenPageFile (path : Path) (writable : Bool) (s : Session) : Session :=
  match s.openFile path with
  | none => s
  | some inode =>
    if writable then { s with pool := poolSetWritable inode s.pool.pageCount s.pool }
    else { s with pool := poolAdopt inode s.pool.pageCount s.pool }

/-- `"%s.tmp"`. -/
def tempPath (path : Path) : Path := path ++ [46, 116, 109, 112]

/-- The file a save writes, under a new inode. -/
def writeFile (pages : List (Page Bytes)) (s : Session) : Nat × Session :=
  let file : DbFile Bytes :=
    { head := headerPage s.pool.pageCount s.catalogRoot, count := pages.length,
      page := fun i => pages.getD i Page.zero, tail := none }
  (s.nextInode,
    { s with pool := s.pool.setFile s.nextInode file, nextInode := s.nextInode + 1 })

/-- What a save does once the file has been written and synced. -/
def moveInPlace (path : Path) (inode : Nat) (s : Session) : Session :=
  let replacingOpenFile := s.openPath ≠ [] && sameText s.openPath path
  let wasWritable := s.pool.writable
  let s := if replacingOpenFile then { s with pool := poolDetachFile s.pool } else s
  let s := { s with names := fun other => if other = path then some inode else s.names other }
  -- every page is in the file just written, which is the pool's own only when it replaced it
  let s :=
    if replacingOpenFile || !s.pool.writable then { s with pool := poolMarkAllClean s.pool } else s
  let s :=
    if replacingOpenFile then
      let s := reopenPageFile path wasWritable s
      { s with pool := poolSetChecksums true s.pool }
    else s
  walDiscard path s

/-- Writes the catalog into its pages, then streams every page into a new file and renames it
into place. -/
def saveDatabase (path : Path) (s : Session) : Except ErrorCode Unit × Session :=
  andThen (s.pages (writeCatalogChain (saveCatalog s.engine) s.catalogRoot)) fun root s =>
    let s := { s with catalogRoot := root }
    if LINE_LEN ≤ (tempPath path).length ∨ !s.canOpen (tempPath path) then
      (.error .IO_CANNOT_OPEN, s)
    else
      let (pages, pool) := poolWriteAll s.pool
      let (inode, s) := writeFile pages { s with pool := pool }
      (.ok (), moveInPlace path inode s)

/-! ### Transactions -/

/-- Puts the catalog into its pages and commits everything the statement touched. -/
def commitDatabase (s : Session) : Except ErrorCode Unit × Session :=
  if !walIsOpen s || (!poolHasDirty s.pool && !s.schemaChanged) then (.ok (), s)
  else
    andThen (s.pages (writeCatalogChain (saveCatalog s.engine) s.catalogRoot)) fun root s =>
      (.ok (),
        { s with
          catalogRoot := root
          pool := poolCommit (poolSetCatalogRoot root s.pool)
          schemaChanged := false })

/-- BEGIN, with a checkpoint. -/
def beginTransaction (s : Session) : Except ErrorCode Unit × Session :=
  if s.transactionOpen then (.error .EXEC_TRANSACTION_ACTIVE, s)
  else
    let pool := poolCheckpoint s.pool
    (.ok (), { s with pool := pool, transactionPages := pool.pageCount, transactionOpen := true })

/-- COMMIT. -/
def commitTransaction (s : Session) : Except ErrorCode Unit × Session :=
  if !s.transactionOpen then (.error .EXEC_NO_TRANSACTION, s)
  else (.ok (), { s with transactionOpen := false })

/-- Throws the transaction's pages away and rebuilds the session from the file. -/
def rollbackTransaction (s : Session) : Except ErrorCode Unit × Session :=
  if !s.transactionOpen then (.error .EXEC_NO_TRANSACTION, s)
  else
    let s := { s with schemaChanged := false }
    if s.openPath = [] then (.error .EXEC_CANNOT_ROLLBACK, s)
    else
      let path := s.openPath
      let hadLog := walIsOpen s
      let s := { s with transactionOpen := false, pool := poolRollback s.transactionPages s.pool }
      andThen (loadDatabase path s) fun _ s =>
        if hadLog then openForWrite path s else (.ok (), s)

/-! ### Statements -/

/-- What the executor does with a checked statement: its subqueries first. -/
def executeStatement (statement : Statement) (s : Session) : Except ErrorCode Unit × Session :=
  andThen (s.engineStep (materialiseSubqueries statement.subqueries)) fun _ s =>
    match statement.kind with
    | .STMT_BEGIN => beginTransaction s
    | .STMT_COMMIT => commitTransaction s
    | .STMT_ROLLBACK => rollbackTransaction s
    | kind => s.engineStep (executeKind kind)

/-- Whether a statement changes nothing. -/
def readsOnly (kind : StatementKind) : Bool :=
  match kind with
  | .STMT_SELECT _ => true
  | _ => false

/-- A schema change need not touch a single page. -/
def changesSchema (kind : StatementKind) : Bool :=
  match kind with
  | .STMT_CREATE_TABLE _ | .STMT_DROP_TABLE _ | .STMT_CREATE_INDEX _ | .STMT_DROP_INDEX _
  | .STMT_ALTER_TABLE _ | .STMT_VACUUM _ | .STMT_CREATE_DATABASE _ | .STMT_DROP_DATABASE _ => true
  | _ => false

/-- One parsed statement through the rest of the pipeline. -/
def processStatement (statement : Statement) (s : Session) : Except ErrorCode Unit × Session :=
  let shared := !s.transactionOpen && readsOnly statement.kind
  match semanticCheck s.engine statement with
  | .error code => (.error code, s)
  | .ok statement =>
    let damaged := s.pool.corrupt
    andThen (executeStatement statement s) fun _ s =>
      if s.pool.corrupt ≠ damaged then (.error .IO_CHECKSUM, s)
      else
        let s := if changesSchema statement.kind then { s with schemaChanged := true } else s
        if !shared && !s.transactionOpen then commitDatabase s else (.ok (), s)

/-! ### The session -/

/-- Attaches the log, if this file is one that may be written in place. -/
def attachLog (path : Path) (current : Bool) (s : Session) : Session :=
  let s := { s with usingLog := false }
  if !current && s.openPath = [] then s
  else if !isPageFile path s then s
  else
    match openForWrite path s with
    | (.ok (), s) => { s with usingLog := true }
    | (.error _, s) => s

/-- `.load`. -/
def loadCommand (path : Path) (s : Session) : Except ErrorCode Unit × Session :=
  andThen (loadDatabase path s) fun _ s =>
    if s.sessionPath ≠ [] then (.ok (), attachLog path false { s with sessionPath := path })
    else (.ok (), s)

/-- `.save`. -/
def saveCommand (path : Path) (s : Session) : Except ErrorCode Unit × Session :=
  saveDatabase path s

/-- How far a log commits: the frames up to the last commit marker. -/
def committedFrames (log : List (LogFrame Bytes)) : List (LogFrame Bytes) :=
  (log.reverse.dropWhile fun frame => !frame.commit).reverse

/-- The frames of a log written into a file, and its header after the last of them. -/
def replayFrames (file : DbFile Bytes) (frames : List (LogFrame Bytes)) : DbFile Bytes :=
  let file := frames.foldl (fun file frame => file.writePage frame.pageId frame.page) file
  match frames.getLast? with
  | none => file
  | some last =>
    if PAGE_SIZE ≤ file.head.length then file.writeFields last.pageCount last.catalogRoot else file

/-- Replays a log into its database file and removes it. -/
def walRecover (path : Path) (s : Session) : Except ErrorCode Unit × Session :=
  match s.logs path with
  | none => (.ok (), s)
  | some log =>
    let s' := { s with logs := fun other => if other = path then none else s.logs other }
    if (committedFrames log).isEmpty || !isPageFile path s then (.ok (), s')
    else
      match s.openFile path with
      | none => (.error .IO_CANNOT_OPEN, s)
      | some inode =>
        (.ok (),
          { s' with
            pool := s.pool.setFile inode (replayFrames (s.pool.files inode) (committedFrames log)) })

/-- What `main` does with the database named on its command line. -/
def openSession (path : Path) (s : Session) : Session :=
  let (_, s) := walRecover path s
  match loadDatabase path s with
  | (.ok (), s) => attachLog path false { s with sessionPath := path }
  | (.error .IO_CANNOT_OPEN, s) =>
    match saveDatabase path s with
    | (.ok (), s) => attachLog path true { s with sessionPath := path }
    | (.error _, s) => s
  | (.error _, s) => s

/-- What `main` does at the end. -/
def closeSession (s : Session) : Session :=
  let s := if s.transactionOpen && s.sessionPath ≠ [] then (rollbackTransaction s).2 else s
  if s.sessionPath = [] then s
  else if s.usingLog then closeDatabase s
  else (saveDatabase s.sessionPath s).2

/-! ### Where it starts -/

/-- The pool before `poolInit` has run on anything. -/
def startPool : Pool Bytes where
  frames := []
  hand := 0
  pageFrame _ := none
  pageFile := none
  files _ := { head := [], count := 0, page := fun _ => Page.zero, tail := none }
  writable := false
  catalogRootPage := INVALID_CATALOG
  pageCount := 0
  freeIds := []
  checksums := false
  corrupt := 0
  wal := none
  io := []

/-- The engine as `main` sets it up. -/
def startEngine : Engine :=
  initEngine
    { databases := []
      current := 0
      joinHeap := clearHeap (Name.ofBytes [])
      subqueryResult := List.replicate MAX_SUBQUERIES [] }

/-- A process that has opened nothing yet, on a disk without files. -/
def startSession : Session where
  engine := startEngine
  pool := startPool
  names _ := none
  nextInode := 0
  canOpen _ := true
  memory := 2 ^ 32
  logs _ := none
  walDatabase := []
  openPath := []
  catalogRoot := INVALID_CATALOG
  schemaChanged := false
  transactionOpen := false
  transactionPages := 0
  sessionPath := []
  usingLog := false

end DatabaseEngine
