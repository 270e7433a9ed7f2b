import DatabaseEngine.Model.Session

/-!
# `DatabaseEngine.Model.Failure`: commits and checkpoints that fail

`Model.Session` lets every write through. Here the write of a statement that fails is given:
in `commitDatabase` the catalog, a frame of the log, or the sync behind the frames; in the
checkpoint of BEGIN a page, the header, the sync, or the new log. Without a fault the functions
are those of `Model.Session`.

`Pool.wal` holds whole frames. Where a frame fails in the middle, the part of it that was written
stays in the file, and `walRecover` reads nothing behind it: `LoggedSession` keeps how many frames
are in front of such a part.
-/

set_option autoImplicit false

namespace DatabaseEngine

open Library

/-- The first accesses of a page program. -/
def firstAccesses {α : Type} : Nat → PageM Bytes α → PageM Bytes Unit
  | 0, _ => .pure ()
  | _, .pure _ => .pure ()
  | n + 1, .alloc next => .alloc fun id => firstAccesses n (next id)
  | n + 1, .read id next => .read id fun body => firstAccesses n (next body)
  | n + 1, .write id body next => .write id body (firstAccesses n next)
  | n + 1, .free id next => .free id (firstAccesses n next)
  | n + 1, .count next => .count fun pages => firstAccesses n (next pages)

/-- What fails in a commit. -/
inductive CommitFault
  /-- The catalog: no memory for its bytes, or none for a page after some accesses. -/
  | catalog (accesses : Nat)
  /-- `walAppend`, after some whole frames, and whether a part of the next was written. -/
  | append (whole : Nat) (part : Bool)
  /-- `walSync`. -/
  | sync
  deriving DecidableEq

/-- What fails in a checkpoint. -/
inductive CheckpointFault
  /-- `flushFrame`, after some frames. -/
  | flush (frames : Nat)
  | header
  | sync
  /-- `walTruncate`: the log is gone and cannot be opened again. -/
  | truncate
  deriving DecidableEq

/-- What fails while a statement runs. -/
inductive Fault
  | commit (fault : CommitFault)
  | begin (fault : CheckpointFault)
  deriving DecidableEq

section
variable {α : Type} [PageBody α]

/-- Stamps the first `n` unlogged frames. -/
def stampFirst : Nat → List (Frame α) → List (Frame α)
  | 0, frames => frames
  | _ + 1, [] => []
  | n + 1, f :: rest =>
    if f.unlogged then { f with page := poolStampPage f.page } :: stampFirst n rest
    else f :: stampFirst (n + 1) rest

/-- The pool after `n` frames of a commit have reached the log and `stamped` were tried. No page
is marked logged. -/
def Pool.appended (p : Pool α) (log : List (LogFrame α)) (n stamped : Nat) : Pool α :=
  let written := (commitFrames p.pageCount p.catalogRootPage p.frames).take n
  { p with
    wal := some (log ++ written)
    io := written.reverse.map Io.append ++ p.io
    frames := stampFirst stamped p.frames }

/-- `poolCommit` with a write that may fail. -/
def poolCommitUnder (fault : Option CommitFault) (p : Pool α) : Except ErrorCode Unit × Pool α :=
  match p.wal with
  | none => (.ok (), p)
  | some log =>
    let last := (commitFrames p.pageCount p.catalogRootPage p.frames).length
    if last = 0 then (.ok (), p)
    else
      match fault with
      | some (.append whole _) =>
        if whole < last then (.error .IO_WRITE, p.appended log whole (whole + 1))
        else (.ok (), poolCommit p)
      | some .sync => (.error .IO_WRITE, p.appended log last last)
      | _ => (.ok (), poolCommit p)

/-- `poolCheckpoint` with a write that may fail. -/
def poolCheckpointUnder (fault : Option CheckpointFault) (p : Pool α) :
    Except ErrorCode Unit × Pool α :=
  match fault, p.writable, p.pageFile with
  | some fault, true, some h =>
    let flushed := flushDirty 0 p.frames.length p
    match fault with
    | .flush frames => (.error .IO_WRITE, flushDirty 0 (min frames p.frames.length) p)
    | .header => (.error .IO_WRITE, flushed)
    | .sync => (.error .IO_WRITE, poolWriteHeader flushed)
    | .truncate =>
      (.error .IO_CANNOT_OPEN, { (poolWriteHeader flushed).note (Io.syncFile h) with wal := none })
  | _, _, _ => (.ok (), poolCheckpoint p)

end

/-- The part of the fault that a commit meets. -/
def Fault.inCommit : Option Fault → Option CommitFault
  | some (.commit fault) => some fault
  | _ => none

/-- The part of the fault that a checkpoint meets. -/
def Fault.inBegin : Option Fault → Option CheckpointFault
  | some (.begin fault) => some fault
  | _ => none

/-- `commitDatabase` with a write that may fail. -/
def commitDatabaseUnder (fault : Option CommitFault) (s : Session) :
    Except ErrorCode Unit × Session :=
  if !walIsOpen s || (!poolHasDirty s.pool && !s.schemaChanged) then (.ok (), s)
  else
    let chain := writeCatalogChain (saveCatalog s.engine) s.catalogRoot
    match fault with
    | some (.catalog accesses) =>
      (.error .EXEC_OUT_OF_MEMORY, (s.pages (firstAccesses accesses chain)).2)
    | _ =>
      andThen (s.pages chain) fun root s =>
        let (r, pool) := poolCommitUnder fault (poolSetCatalogRoot root s.pool)
        let s := { s with catalogRoot := root, pool := pool }
        match r with
        | .error code => (.error code, s)
        | .ok () => (.ok (), { s with schemaChanged := false })

/-- `beginTransaction` with a checkpoint that may fail. -/
def beginTransactionUnder (fault : Option CheckpointFault) (s : Session) :
    Except ErrorCode Unit × Session :=
  if s.transactionOpen then (.error .EXEC_TRANSACTION_ACTIVE, s)
  else
    let (r, pool) := poolCheckpointUnder fault s.pool
    match r with
    | .error code => (.error code, { s with pool := pool })
    | .ok () =>
      (.ok (), { s with pool := pool, transactionPages := pool.pageCount, transactionOpen := true })

/-- `executeStatement` with a checkpoint of BEGIN that may fail. -/
def executeStatementUnder (fault : Option CheckpointFault) (statement : Statement) (s : Session) :
    Except ErrorCode Unit × Session :=
  andThen (s.engineStep (materialiseSubqueries statement.subqueries)) fun _ s =>
    match statement.kind with
    | .STMT_BEGIN => beginTransactionUnder fault s
    | .STMT_COMMIT => commitTransaction s
    | .STMT_ROLLBACK => rollbackTransaction s
    | kind => s.engineStep (executeKind kind)

/-- What `ProcessStatement` does between taking the lock and giving it back. `shared` is whether
it took the lock as a reader. -/
def runLocked (shared : Bool) (fault : Option Fault) (statement : Statement) (s : Session) :
    Except ErrorCode Unit × Session :=
  match semanticCheck s.engine statement with
  | .error code => (.error code, s)
  | .ok statement =>
    let damaged := s.pool.corrupt
    andThen (executeStatementUnder (Fault.inBegin fault) statement s) fun _ s =>
      if s.pool.corrupt ≠ damaged then (.error .IO_CHECKSUM, s)
      else
        let s := if changesSchema statement.kind then { s with schemaChanged := true } else s
        if !shared && !s.transactionOpen then commitDatabaseUnder (Fault.inCommit fault) s
        else (.ok (), s)

/-- `processStatement` with a write that may fail. -/
def processStatementUnder (fault : Option Fault) (statement : Statement) (s : Session) :
    Except ErrorCode Unit × Session :=
  runLocked (!s.transactionOpen && readsOnly statement.kind) fault statement s

/-! ### Torn logs -/

/-- Whether a part of a frame was written. -/
def CommitFault.tears : CommitFault → Bool
  | .append _ part => part
  | _ => false

/-- A session, and how many frames of its log are in front of a part of a frame, if there is one. -/
structure LoggedSession where
  session : Session
  tear : Option Nat

/-- What a commit that failed leaves. -/
def LoggedSession.failed (fault : CommitFault) (s : Session) : LoggedSession :=
  { session := s, tear := if fault.tears then s.pool.wal.map List.length else none }

/-- The next statement. BEGIN empties the log. -/
def LoggedSession.process (s : LoggedSession) (statement : Statement) : LoggedSession :=
  let (answer, session) := processStatement statement s.session
  { session := session
    tear :=
      match statement.kind, answer with
      | .STMT_BEGIN, .ok () => none
      | _, _ => s.tear }

/-- The session with the frames of its log that can be read. -/
def LoggedSession.readable (s : LoggedSession) : Session :=
  match s.tear with
  | none => s.session
  | some n =>
    { s.session with
      pool := { s.session.pool with wal := s.session.pool.wal.map (List.take n) } }

/-! ### Without a fault -/

/-- A checkpoint without a fault is the one of the pool. -/
theorem poolCheckpointUnder_none {α : Type} [PageBody α] (p : Pool α) :
    poolCheckpointUnder none p = (.ok (), poolCheckpoint p) := rfl

/-- A commit without a fault is the one of the pool. -/
theorem poolCommitUnder_none {α : Type} [PageBody α] (p : Pool α) :
    poolCommitUnder none p = (.ok (), poolCommit p) := by
  unfold poolCommitUnder
  cases hwal : p.wal with
  | none => simp only [poolCommit, hwal]
  | some log =>
    dsimp only
    split
    · rename_i hnone
      simp only [poolCommit, hwal, List.length_eq_zero_iff.mp hnone, List.isEmpty_nil, if_true]
    · rfl

/-- A commit without a fault is the one of the session. -/
theorem commitDatabaseUnder_none (s : Session) :
    commitDatabaseUnder none s = commitDatabase s := by
  unfold commitDatabaseUnder commitDatabase andThen
  split
  · rfl
  · dsimp only
    cases (s.pages (writeCatalogChain (saveCatalog s.engine) s.catalogRoot)).1 with
    | error code => rfl
    | ok root =>
      dsimp only
      rw [poolCommitUnder_none]

/-- A statement without a fault is executed as in the session. -/
theorem executeStatementUnder_none (statement : Statement) (s : Session) :
    executeStatementUnder none statement s = executeStatement statement s := rfl

/-- A statement without a fault is processed as in the session. -/
theorem processStatementUnder_none (statement : Statement) (s : Session) :
    processStatementUnder none statement s = processStatement statement s := by
  unfold processStatementUnder runLocked processStatement
  cases hcheck : semanticCheck s.engine statement with
  | error code => rfl
  | ok checked =>
    simp only [Fault.inBegin, Fault.inCommit, executeStatementUnder_none, commitDatabaseUnder_none]

end DatabaseEngine
