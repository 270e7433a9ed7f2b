import DatabaseEngine.Model.File

/-!
# `DatabaseEngine.Model.Pool`: the buffer pool

The pool of `14_pool.c`, with the parts of `15_wal.c` that it appends to. Its static
variables are the fields of `Pool`; a function of the source that changes them takes the
pool and returns the next one, after what it answers.

`frames[i]` is the list position `i`, `pageFrame[id]` is `none` for the source's `-1`, and
`pageId` of a free frame is `none`. A `Page*` into a frame is the frame's position. The free
ids are a stack with the most recent one first. `files` holds the content of every open or
closed file by its inode and `pageFile` is the inode behind the pool's handle, so a file that
is renamed over stays readable through the handle, as it does in the source.

`io` records what the pool and the log wrote and synced, most recent first. Nothing reads
it while the engine runs. It is what a crash leaves something of.

Allocation of memory never fails here and no read or write of an open file fails, except a
read past the file's end and a page that fails its checksum.
-/

set_option autoImplicit false

namespace DatabaseEngine

/-- One frame. `pageId` is `none` when the frame is free. -/
structure Frame (α : Type) where
  pageId : Option Nat
  pins : Nat
  dirty : Bool
  /-- Its contents are in the log. -/
  logged : Bool
  /-- CLOCK: survives one sweep. -/
  referenced : Bool
  page : Page α

/-- One frame of the log, `FRAME_HEADER` and page together. -/
structure LogFrame (α : Type) where
  pageId : Nat
  commit : Bool
  pageCount : Nat
  catalogRoot : UInt32
  page : Page α

/-- What reaches the operating system, in the order in which it does. -/
inductive Io (α : Type)
  | page (inode : Nat) (id : Nat) (page : Page α)
  | header (inode : Nat) (pageCount : Nat) (catalogRoot : UInt32)
  | syncFile (inode : Nat)
  | append (frame : LogFrame α)
  | syncLog
  | resetLog

/-- The static variables of `14_pool.c` and the open log of `15_wal.c`. -/
structure Pool (α : Type) where
  frames : List (Frame α)
  hand : Nat
  pageFrame : Nat → Option Nat
  /-- The handle the pool reads pages through, none for an in-memory database. -/
  pageFile : Option Nat
  files : Nat → DbFile α
  writable : Bool
  catalogRootPage : UInt32
  pageCount : Nat
  freeIds : List Nat
  checksums : Bool
  corrupt : Nat
  /-- The frames of the open log, oldest first; none when no log is attached. -/
  wal : Option (List (LogFrame α))
  io : List (Io α)

section
variable {α : Type} [PageBody α]

/-- How many frames the pool starts with. -/
def INITIAL_FRAMES : Nat := 64

/-- A frame as `growFrames` sets it up. -/
def Frame.free : Frame α :=
  { pageId := none, pins := 0, dirty := false, logged := false, referenced := false,
    page := Page.zero }

/-- `poolInit` forgets everything; the files and the log are not the pool's. -/
def poolInit (p : Pool α) : Pool α :=
  { p with
    frames := [], hand := 0, pageFrame := fun _ => none, pageFile := none, writable := false,
    catalogRootPage := 0xFFFFFFFF, pageCount := 0, freeIds := [], checksums := false,
    corrupt := 0 }

/-- `poolClear` frees the frames, closes the file and starts over. -/
def poolClear (p : Pool α) : Pool α := poolInit p

/-- Whether pages are checked as they are read. -/
def poolSetChecksums (on : Bool) (p : Pool α) : Pool α := { p with checksums := on }

/-- Where the catalog starts. -/
def poolSetCatalogRoot (page : UInt32) (p : Pool α) : Pool α := { p with catalogRootPage := page }

/-- Hands the pool an open file for reading and the number of pages in it. -/
def poolAdopt (file pages : Nat) (p : Pool α) : Pool α :=
  { p with pageFile := some file, pageCount := pages, writable := false }

/-- Takes a handle the pool may write through. -/
def poolSetWritable (file pages : Nat) (p : Pool α) : Pool α :=
  { p with pageFile := some file, pageCount := pages, writable := true }

/-- Lets go of the backing file without disturbing the pages in memory. -/
def poolDetachFile (p : Pool α) : Pool α := { p with pageFile := none }

/-- Whether a page waits to be written. -/
def poolHasDirty (p : Pool α) : Bool :=
  p.frames.any fun f => f.pageId.isSome && f.dirty

/-- Replaces the frame at a position. -/
def Pool.setFrame (p : Pool α) (i : Nat) (f : Frame α) : Pool α :=
  { p with frames := p.frames.set i f }

/-- `pageFrame[id] = frame`. -/
def Pool.setDirectory (p : Pool α) (id : Nat) (frame : Option Nat) : Pool α :=
  { p with pageFrame := Function.update p.pageFrame id frame }

/-- Replaces the content of a file. -/
def Pool.setFile (p : Pool α) (inode : Nat) (file : DbFile α) : Pool α :=
  { p with files := Function.update p.files inode file }

/-- Records a write or a sync. -/
def Pool.note (p : Pool α) (event : Io α) : Pool α := { p with io := event :: p.io }

/-- Doubles the frames; the new ones are free. -/
def growFrames (p : Pool α) : Pool α :=
  let grown := if p.frames.length ≠ 0 then p.frames.length * 2 else INITIAL_FRAMES
  { p with frames := p.frames ++ List.replicate (grown - p.frames.length) Frame.free }

/-- A frame that holds nothing, with the page bytes it had. -/
def Frame.cleared (f : Frame α) : Frame α :=
  { f with pageId := none, pins := 0, dirty := false, logged := false, referenced := false }

/-- Forgets every dirty page and takes the page count back. -/
def poolRollback (pages : Nat) (p : Pool α) : Pool α :=
  { p with
    frames := p.frames.map fun f => if f.pageId.isSome && f.dirty then f.cleared else f
    pageFrame := fun id =>
      if p.frames.any fun f => f.pageId == some id && f.dirty then none else p.pageFrame id
    pageCount := if pages < p.pageCount then pages else p.pageCount }

/-- After a save every page is in the file, so nothing has to stay resident. -/
def poolMarkAllClean (p : Pool α) : Pool α :=
  { p with frames := p.frames.map fun f => { f with dirty := false, logged := false } }

/-- Writes one frame into the database file at its page's offset; `none` when the pool may
not write there. -/
def flushFrame (i : Nat) (p : Pool α) : Option (Pool α) :=
  match p.pageFile, p.frames[i]? with
  | some h, some f =>
    match p.writable, f.pageId with
    | true, some id =>
      let page := poolStampPage f.page
      some (((p.setFile h ((p.files h).writePage id page)).setFrame i
        { f with page := page, dirty := false, logged := false }).note (Io.page h id page))
    | _, _ => none
  | _, _ => none

/-- Updates the two fields of the header page that move as the database grows. -/
def poolWriteHeader (p : Pool α) : Pool α :=
  match p.writable, p.pageFile with
  | true, some h =>
    (p.setFile h ((p.files h).writeFields p.pageCount p.catalogRootPage)).note
      (Io.header h p.pageCount p.catalogRootPage)
  | _, _ => p

/-- Where a page is resident. -/
def findFrame (pageId : Nat) (p : Pool α) : Option Nat := p.pageFrame pageId

/-- The hand moves on to the next frame. -/
def Pool.turn (p : Pool α) : Pool α := { p with hand := (p.hand + 1) % p.frames.length }

/-- One turn of the CLOCK hand for each unit of fuel: the first frame that is free or may be
evicted, with its page written out and its directory entry cleared. -/
def sweep : Nat → Pool α → Option Nat × Pool α
  | 0, p => (none, p)
  | fuel + 1, p =>
    match p.turn.frames[p.hand]? with
    | none => (none, p.turn)
    | some f =>
      match f.pageId with
      | none => (some p.hand, p.turn)
      | some id =>
        if f.pins > 0 then sweep fuel p.turn
        -- Unlogged changes have nowhere safe to go yet.
        else if f.dirty && !(p.turn.writable && f.logged) then sweep fuel p.turn
        else if f.referenced then
          sweep fuel (p.turn.setFrame p.hand { f with referenced := false })
        else if f.dirty then
          match flushFrame p.hand p.turn with
          | none => sweep fuel p.turn
          | some q => (some p.hand, q.setDirectory id none)
        else (some p.hand, p.turn.setDirectory id none)

/-- A free frame, or the least recently used one holding a page that may go; the pool grows
when there is none. The frame still carries the id of the page it held. -/
def acquireFrame (p : Pool α) : Nat × Pool α :=
  match sweep (p.frames.length * 2) p with
  | (some i, p) => (i, p)
  | (none, p) => (p.frames.length, { growFrames p with hand := 0 })

/-- Sets the page id of a frame to `-1`. -/
def Pool.disown (p : Pool α) (i : Nat) : Pool α :=
  { p with frames := p.frames.modify i fun f => { f with pageId := none } }

/-- Fills a frame with a page and enters it in the directory. -/
def Pool.place (p : Pool α) (i id : Nat) (f : Frame α) : Pool α :=
  (p.setFrame i f).setDirectory id (some i)

/-- The page `fread` brings in from the pool's file, unless it is refused: past the end, or
not what was written. -/
def Pool.fetch (p : Pool α) (id : Nat) : Option (Page α) :=
  match p.pageFile with
  | none => none
  | some h => ((p.files h).readPage id).filter fun page => !p.checksums || page.intact

/-- Whether a page lies in the file whole and is refused for its checksum. -/
def Pool.damaged (p : Pool α) (id : Nat) : Bool :=
  match p.pageFile with
  | none => false
  | some h =>
    match (p.files h).readPage id with
    | none => false
    | some page => p.checksums && !page.intact

/-- Returns the frame that holds the page, reading the page from the file if it is not
resident, and keeps it in place until the matching `poolUnpin`. -/
def poolPin (pageId : Nat) (p : Pool α) : Option Nat × Pool α :=
  if pageId < p.pageCount then
    match findFrame pageId p with
    | some i =>
      (some i, { p with
        frames := p.frames.modify i fun f => { f with referenced := true, pins := f.pins + 1 } })
    | none =>
      let (i, p) := acquireFrame p
      -- The frame is nobody's until the read below succeeds.
      let p := p.disown i
      match p.fetch pageId with
      | none => (none, if p.damaged pageId then { p with corrupt := p.corrupt + 1 } else p)
      | some page =>
        (some i, p.place i pageId
          { pageId := some pageId, pins := 1, dirty := false, logged := false,
            referenced := false, page := page })
  else (none, p)

/-- Lets a page go; a page that changed is dirty, and no longer what the log holds. -/
def poolUnpin (pageId : Nat) (dirty : Bool) (p : Pool α) : Pool α :=
  match findFrame pageId p with
  | none => p
  | some i =>
    { p with
      frames := p.frames.modify i fun f =>
        { f with
          pins := f.pins - 1
          dirty := f.dirty || dirty
          logged := f.logged && !dirty } }

/-- The page bytes a `Page*` into a frame points at. -/
def Pool.pageIn (p : Pool α) (i : Nat) : Option (Page α) := p.frames[i]?.map Frame.page

/-- What a holder does to a page through its `Page*`. -/
def poolStore (pageId : Nat) (page : Page α) (p : Pool α) : Pool α :=
  match findFrame pageId p with
  | none => p
  | some i => { p with frames := p.frames.modify i fun f => { f with page := page } }

/-- The id an allocation hands out: the last one freed, or the next one never used. -/
def Pool.nextId (p : Pool α) : Nat := p.freeIds.headD p.pageCount

/-- The pool after an id has been taken: `freeIds[--freeCount]`, or `pageCount++`. -/
def Pool.taken (p : Pool α) : Pool α :=
  { p with
    freeIds := p.freeIds.tail
    pageCount := if p.freeIds.isEmpty then p.pageCount + 1 else p.pageCount }

/-- A fresh zeroed page, reusing a freed id where there is one. It starts dirty because
nothing in the file corresponds to it yet. -/
def poolAllocate (p : Pool α) : Nat × Pool α :=
  let (i, p) := acquireFrame p
  (p.nextId, p.taken.place i p.nextId
    { pageId := some p.nextId, pins := 0, dirty := true, logged := false, referenced := true,
      page := Page.zero })

/-- Returns a page to the free list. The file keeps its slot. -/
def poolFree (pageId : Nat) (p : Pool α) : Pool α :=
  let p :=
    match findFrame pageId p with
    | none => p
    | some i =>
      { p with frames := p.frames.modify i Frame.cleared }.setDirectory pageId none
  { p with freeIds := pageId :: p.freeIds }

/-- Streams the pages from `start` on, `n` of them, faulting each one in and letting it go. A
page that cannot be had is written as zeroes. -/
def writePages : Nat → Nat → Pool α → List (Page α) × Pool α
  | _, 0, p => ([], p)
  | start, n + 1, p =>
    match poolPin start p with
    | (none, p) =>
      let (rest, p) := writePages (start + 1) n p
      (Page.zero :: rest, p)
    | (some i, p) =>
      let page := poolStampPage ((p.pageIn i).getD Page.zero)
      let p := poolUnpin start false (poolStore start page p)
      let (rest, p) := writePages (start + 1) n p
      (page :: rest, p)

/-- Every page of the pool, in the order of the ids, as it goes to a new file. -/
def poolWriteAll (p : Pool α) : List (Page α) × Pool α := writePages 0 p.pageCount p

/-- A frame whose change is in memory only. -/
def Frame.unlogged (f : Frame α) : Bool := f.pageId.isSome && f.dirty && !f.logged

/-- The log frames a commit appends: every unlogged change, in frame order, the marker on
the last one. -/
def commitFrames (pageCount : Nat) (root : UInt32) : List (Frame α) → List (LogFrame α)
  | [] => []
  | f :: rest =>
    match f.unlogged, f.pageId with
    | true, some id =>
      { pageId := id, commit := !rest.any Frame.unlogged, pageCount := pageCount,
        catalogRoot := root, page := poolStampPage f.page }
        :: commitFrames pageCount root rest
    | _, _ => commitFrames pageCount root rest

/-- Writes every unlogged change into the log, puts the log on disk, and only then marks
the pages logged. -/
def poolCommit (p : Pool α) : Pool α :=
  match p.wal with
  | none => p
  | some log =>
    let written := commitFrames p.pageCount p.catalogRootPage p.frames
    if written.isEmpty then p
    else
      { p with
        wal := some (log ++ written)
        io := Io.syncLog :: (written.reverse.map Io.append ++ p.io)
        frames := p.frames.map fun f =>
          let f := if f.unlogged then { f with page := poolStampPage f.page } else f
          if f.pageId.isSome && f.dirty then { f with logged := true } else f }

/-- Flushes the dirty frames among the `n` from position `i` on. -/
def flushDirty : Nat → Nat → Pool α → Pool α
  | _, 0, p => p
  | i, n + 1, p =>
    match p.frames[i]? with
    | none => p
    | some f =>
      if f.pageId.isSome && f.dirty then
        match flushFrame i p with
        | none => p
        | some p => flushDirty (i + 1) n p
      else flushDirty (i + 1) n p

/-- Empties the open log. -/
def walTruncate (p : Pool α) : Pool α :=
  match p.wal with
  | none => p
  | some _ => ({ p with wal := some [] } : Pool α).note Io.resetLog

/-- Moves everything the log is holding into the database file and empties the log: pages
out, header, file synced, only then the log removed. -/
def poolCheckpoint (p : Pool α) : Pool α :=
  match p.writable, p.pageFile with
  | true, some h =>
    walTruncate ((poolWriteHeader (flushDirty 0 p.frames.length p)).note (Io.syncFile h))
  | _, _ => p

end

end DatabaseEngine
