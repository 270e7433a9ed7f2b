import DatabaseEngine.Model.Session

/-!
# `DatabaseEngine.Model.Directory`: files under more than one spelling

A directory finds a file by an entry, and more than one spelling of a path can stand for one
entry: `d` and `./d`. `saveDatabase` of `12_persist.c` and `walDiscard` of `15_wal.c` ask whether
a path is that of the open file by comparing spellings without regard to case, and the rename
and the removal of a log act on entries.

A `Desk` is a session whose files, logs and paths go by entry, with the spellings that
`openPath` and `walDatabase` keep. While a log is open both are the spelling that
`openForWrite` was given. The files `path.tmp` and `path-wal` are entries too, so a save can
meet the session's own file or log there.

The file that a save writes has a new inode, whether or not there was a file of that name.
-/

set_option autoImplicit false

namespace DatabaseEngine

open Library

/-- `walName`: `"%s-wal"`. -/
def walName (path : Path) : Path := path ++ [45, 119, 97, 108]

/-- What a save does once the file has been written and synced, from how the two comparisons of
spellings come out. -/
def moveAs (replacingOpenFile ours : Bool) (path : Path) (inode : Nat) (s : Session) : Session :=
  let wasWritable := s.pool.writable
  let s := if replacingOpenFile then { s with pool := poolDetachFile s.pool } else s
  let s := { s with names := fun other => if other = path then some inode else s.names other }
  let s :=
    if replacingOpenFile || !s.pool.writable then { s with pool := poolMarkAllClean s.pool } else s
  let s :=
    if replacingOpenFile then
      let s := reopenPageFile path wasWritable s
      { s with pool := poolSetChecksums true s.pool }
    else s
  if walIsOpen s && ours then { s with pool := walTruncate s.pool }
  else { s with logs := fun other => if other = path then none else s.logs other }

/-- A file that has lost its name. -/
def dropName (path : Path) (s : Session) : Session :=
  { s with names := fun other => if other = path then none else s.names other }

/-- A session by entries, and the spellings that it keeps. -/
structure Desk where
  session : Session
  /-- `openPath` as it was spelled. -/
  openText : Path
  /-- `walDatabase` as it was spelled. -/
  walText : Path
  /-- The open log has lost its name. -/
  unlinked : Bool

section
variable (entry : Path → Path)

/-- The rename of a saved file, and the log of the path thrown away. -/
def Desk.moved (path : Path) (inode : Nat) (w : Desk) (s : Session) : Desk :=
  let log := entry (walName w.walText)
  let ours := sameText w.walText path
  let s := moveAs (s.openPath ≠ [] && sameText w.openText path) ours (entry path) inode
    (dropName (entry (tempPath path)) s)
  -- the open log is emptied under its own name, any other is removed
  if walIsOpen s && ours then { w with session := s, unlinked := false }
  else
    { w with
      session := dropName (entry (walName path)) s
      unlinked := w.unlinked || walIsOpen s && (entry (tempPath path) == log
        || entry path == log || entry (walName path) == log) }

/-- `saveDatabase`. -/
def Desk.save (path : Path) (w : Desk) : Except ErrorCode Unit × Desk :=
  let (r, s) := andThen
    (w.session.pages (writeCatalogChain (saveCatalog w.session.engine) w.session.catalogRoot))
    fun root s =>
      let s := { s with catalogRoot := root }
      if LINE_LEN ≤ (tempPath path).length ∨ !s.canOpen (entry (tempPath path)) then
        (.error .IO_CANNOT_OPEN, s)
      else
        let (pages, pool) := poolWriteAll s.pool
        let (inode, s) := writeFile pages { s with pool := pool }
        (.ok inode, s)
  match r with
  | .error code => (.error code, { w with session := s })
  | .ok inode => (.ok (), w.moved entry path inode s)

/-- `.load`. Whatever log was open is closed first. -/
def Desk.load (path : Path) (w : Desk) : Except ErrorCode Unit × Desk :=
  let (r, s) := loadCommand (entry path) w.session
  let placed := r = .ok () ∨ s.openPath ≠ w.session.openPath
  (r,
    { session := s, openText := if placed then path else w.openText
      walText := if walIsOpen s then path else w.walText, unlinked := false })

/-- A statement. ROLLBACK closes the log and opens it again under its spelling. -/
def Desk.process (statement : Statement) (w : Desk) : Except ErrorCode Unit × Desk :=
  let (r, s) := processStatement statement w.session
  let reopened :=
    match statement.kind, r with
    | .STMT_ROLLBACK, .ok () => true
    | _, _ => false
  (r, { w with session := s, unlinked := w.unlinked && !reopened })

/-- What `main` does with the database named on its command line. -/
def Desk.opened (path : Path) (disk : Session) : Desk :=
  { session := openSession (entry path) disk, openText := path, walText := path, unlinked := false }

end

end DatabaseEngine
