import DatabaseEngine.Proofs.Pool.WriteBack
import DatabaseEngine.Proofs.Session.Rollback

/-!
# `DatabaseEngine.Proofs.Session.Opening`: opening a file with a log, and leaving one

A file is opened at startup, where its log is replayed first, or by `.load`, where it is not.
`DbFile.shown` is all that an opening sees of a file: the header, and the pages that it counts
and that are intact. `Session.Presents` says that a session holds what a file shows.

* `startup_presents`: an opening at startup presents the file with its log replayed, and
  attaches an empty log.
* `opening_sees_log_iff`: `.load` does so exactly when the file already holds the frames of
  the log, the torn ones included when a log is attached.
* `load_misses_log`: a crashed session's file, loaded without the table that it had committed.
* `load_never_contained`: no `.load` of a file inside a transaction is contained.
* `load_leaks_transaction`: a `.load` inside a transaction that deletes a row of the old file
  for good and takes pages off the new one.
-/

set_option autoImplicit false

namespace DatabaseEngine

open Library

/-! ### What a file shows -/

/-- The pages of a file that it counts and that are intact. -/
def DbFile.visible (file : DbFile Bytes) (pages id : Nat) : Option Bytes :=
  if id < pages then ((file.readPage id).filter Page.intact).map Page.body else none

/-- How many pages a file's header counts. -/
def DbFile.pageTotal (file : DbFile Bytes) : Nat :=
  match readHeader file.head with
  | .ok header => header.pageTotal
  | .error _ => 0

/-- What an opening sees of a file. -/
def DbFile.shown (file : DbFile Bytes) : Except ErrorCode Header × (Nat → Option Bytes) :=
  (readHeader file.head, file.visible file.pageTotal)

/-- A pool that was just opened on a file alone. -/
def filePool (file : DbFile Bytes) (pages : Nat) : Pool Bytes :=
  openedPool 0 pages { startPool with files := fun _ => file }

/-- A file of this build that opens: its header, and the catalog of its chain. -/
structure DbFile.Opens (file : DbFile Bytes) (memory pages : Nat) (root : UInt32) (e : Engine) :
    Prop where
  header : readHeader file.head = .ok { version := SAVE_VERSION, pageTotal := pages, catalog := root }
  catalog : storedCatalog memory root (filePool file pages) = some e

/-- The session holds what the file shows. -/
def Session.Presents (u : Session) (file : DbFile Bytes) (memory : Nat) : Prop :=
  ∃ pages root e, file.Opens memory pages root e ∧ u.engine.Alike e ∧
    u.pool.pageCount = pages ∧ u.catalogRoot = root ∧ u.pool.visible = file.visible pages

/-- The frames are in the file already: to replay them shows nothing new. -/
def DbFile.Holds (file : DbFile Bytes) (frames : List (LogFrame Bytes)) : Prop :=
  (replayFrames file frames).shown = file.shown

/-- A pool that was opened shows the pages of its file. -/
theorem openedPool_shows (inode pages : Nat) (p : Pool Bytes) :
    (openedPool inode pages p).visible = (p.files inode).visible pages := by
  funext id
  simp only [Pool.visible, Pool.supplies, Pool.fetch, openedPool, poolSetChecksums, poolAdopt,
    poolInit, poolClear, DbFile.visible]
  rfl

/-- What a chain holds depends on what the file shows alone. -/
theorem storedCatalog_file (memory : Nat) (root : UInt32) (inode pages : Nat) (p : Pool Bytes) :
    storedCatalog memory root (openedPool inode pages p)
      = storedCatalog memory root (filePool (p.files inode) pages) :=
  storedCatalog_congr _ _ (openedPool_mirrors _ _ _ _) (openedPool_mirrors _ _ _ _) rfl
    ((openedPool_shows _ _ _).trans (openedPool_shows _ _ _).symm)

/-- The catalog of a file is that of its pages. -/
theorem storedCatalog_visible {file file' : DbFile Bytes} {pages : Nat}
    (h : file'.visible pages = file.visible pages) (memory : Nat) (root : UInt32) :
    storedCatalog memory root (filePool file' pages)
      = storedCatalog memory root (filePool file pages) :=
  storedCatalog_congr _ _ (openedPool_mirrors _ _ _ _) (openedPool_mirrors _ _ _ _) rfl
    ((openedPool_shows _ _ _).trans
      (h.trans (openedPool_shows 0 pages { startPool with files := fun _ => file }).symm))

/-- What a file shows is its header and its pages. -/
theorem DbFile.shown_eq {file : DbFile Bytes} {header : Header}
    (h : readHeader file.head = .ok header) :
    file.shown = (.ok header, file.visible header.pageTotal) := by
  unfold DbFile.shown DbFile.pageTotal
  rw [h]

/-- Two files of this build that show the same open alike. -/
theorem DbFile.Opens.congr {file file' : DbFile Bytes} {memory pages : Nat} {root : UInt32}
    {e : Engine} (h : file.Opens memory pages root e) (hshown : file'.shown = file.shown) :
    file'.Opens memory pages root e ∧ file'.visible pages = file.visible pages := by
  rw [DbFile.shown_eq h.header] at hshown
  have hhead : readHeader file'.head = .ok _ := congrArg Prod.fst hshown
  rw [DbFile.shown_eq hhead] at hshown
  have hvisible : file'.visible pages = file.visible pages := congrArg Prod.snd hshown
  exact ⟨⟨hhead, (storedCatalog_visible hvisible memory root).trans h.catalog⟩, hvisible⟩

/-! ### The two ways in -/

/-- How a file is opened. -/
inductive Opening
  | startup
  | load
  deriving DecidableEq

/-- What an opening answers, and the session it leaves. -/
def Opening.enter (opening : Opening) (path : Path) (s : Session) : Except ErrorCode Unit × Session :=
  match opening with
  | .startup => ((loadDatabase path (walRecover path s).2).1, openSession path s)
  | .load => loadCommand path s

/-- The opening presents the file with the committed frames of its log in it, and whatever log
is attached then has its frames in the file. -/
structure Opening.SeesLog (opening : Opening) (path : Path) (s : Session) (inode : Nat)
    (log : List (LogFrame Bytes)) : Prop where
  succeeds : (opening.enter path s).1 = .ok ()
  presents : (opening.enter path s).2.Presents
    (replayFrames (s.pool.files inode) (committedFrames log)) s.memory
  applied : ∀ frames, (opening.enter path s).2.pool.wal = some frames →
    ((opening.enter path s).2.pool.files inode).Holds frames

/-- A file of this build that a path names. It is not the file that the session writes to. -/
structure Session.Finds (s : Session) (path : Path) (inode : Nat) : Prop where
  named : path ≠ []
  opens : s.openFile path = some inode
  head : CurrentHead (s.pool.files inode).head
  other : s.pool.pageFile ≠ some inode

/-- A replay keeps the head of a file of this version. -/
theorem replayFrames_head (file : DbFile Bytes) (frames : List (LogFrame Bytes))
    (h : CurrentHead file.head) : CurrentHead (replayFrames file frames).head := by
  have hpages := foldl_writePage_head
  unfold replayFrames
  dsimp only
  split
  · rw [hpages]
    exact h
  · split
    · show CurrentHead (overwrite _ 12 _)
      rw [hpages]
      exact currentHead_overwrite h rfl
    · rw [hpages]
      exact h

/-! ### Loading -/

/-- The head of a file of this version is read. -/
theorem readHeader_current {head : List UInt8} (h : CurrentHead head) :
    ∃ pages root, readHeader head =
      .ok { version := SAVE_VERSION, pageTotal := pages, catalog := root } := by
  obtain ⟨hlong, htake⟩ := h
  have hmagic : head.take MAGIC_LENGTH = SAVE_MAGIC := by
    have := congrArg (List.take 8) htake
    rw [List.take_take] at this
    exact this
  have hversion : u32At (fun i => head.getD i 0) 8 = UInt32.ofNat SAVE_VERSION := by
    have heq : head = SAVE_MAGIC ++ putU32 SAVE_VERSION ++ head.drop 12 := by
      rw [← htake, List.take_append_drop]
    rw [heq]
    rfl
  unfold readHeader
  rw [if_neg (by rw [hmagic]; simp; omega)]
  simp only [hversion]
  exact ⟨_, _, rfl⟩

/-- What a load that succeeded leaves, with no log attached yet. -/
structure Session.Loaded (s v : Session) (path : Path) (inode pages : Nat) (root : UInt32)
    (e : Engine) : Prop where
  engine : v.engine.Alike e
  pageCount : v.pool.pageCount = pages
  root : v.catalogRoot = root
  pageFile : v.pool.pageFile = some inode
  checksums : v.pool.checksums = true
  file : v.pool.files inode = s.pool.files inode
  wal : v.pool.wal = none
  logs : v.logs path = s.logs path
  opens : v.openFile path = some inode
  openPath : v.openPath = path
  sessionPath : v.sessionPath = s.sessionPath
  visible : v.pool.visible = (s.pool.files inode).visible pages

/-- Closing what is open leaves another file alone. -/
theorem closeDatabase_other {s : Session} {inode : Nat} (h : s.pool.pageFile ≠ some inode) :
    (closeDatabase s).pool.files inode = s.pool.files inode := by
  show (poolCheckpoint s.pool).files inode = s.pool.files inode
  cases hwritable : s.pool.writable with
  | false => simp only [poolCheckpoint, hwritable]
  | true =>
    cases hfile : s.pool.pageFile with
    | none => simp only [poolCheckpoint, hwritable, hfile]
    | some k =>
      refine (poolCheckpoint_checkpointed hfile hwritable).otherFiles inode fun heq => h ?_
      rw [hfile, heq]

/-- A load of a file fails without a catalog in its pages, and takes the file over as it
stands otherwise. -/
theorem loadDatabase_cases {s : Session} {path : Path} {inode : Nat} (h : s.Finds path inode)
    {pages : Nat} {root : UInt32}
    (hheader : readHeader (s.pool.files inode).head =
      .ok { version := SAVE_VERSION, pageTotal := pages, catalog := root }) :
    (storedCatalog s.memory root (filePool (s.pool.files inode) pages) = none →
      ∃ code v, loadDatabase path s = (.error code, v)) ∧
    ∀ e, storedCatalog s.memory root (filePool (s.pool.files inode) pages) = some e →
      ∃ v, loadDatabase path s = (.ok (), v) ∧ s.Loaded v path inode pages root e := by
  obtain ⟨c, hc, hfile, hwal, hlogs, hopens, hmemory, hpath⟩ : ∃ c : Session,
      loadDatabase path s = loadPages path inode
        { version := SAVE_VERSION, pageTotal := pages, catalog := root } c ∧
      c.pool.files inode = s.pool.files inode ∧ c.pool.wal = none ∧ c.logs path = s.logs path ∧
      c.openFile path = some inode ∧ c.memory = s.memory ∧ c.sessionPath = s.sessionPath := by
    unfold loadDatabase
    cases hopen : walIsOpen s with
    | true =>
      have hclosed := closeDatabase_other h.other
      refine ⟨closeDatabase s, ?_, hclosed, rfl, rfl, h.opens, rfl, rfl⟩
      have hopens : (closeDatabase s).openFile path = some inode := h.opens
      simp only [if_true, hopens, hclosed, hheader]
    | false =>
      refine ⟨s, ?_, rfl, by simpa [walIsOpen] using hopen, rfl, h.opens, rfl, rfl⟩
      simp only [Bool.false_eq_true, if_false, h.opens, hheader]
  rw [hc, ← hmemory, ← hfile, ← storedCatalog_file]
  refine ⟨fun hnone => loadPages_refused hnone, fun e he => ?_⟩
  obtain ⟨e', hlike, hload⟩ := loadPages_stored he
  refine ⟨_, hload, ?_⟩
  obtain ⟨-, hsame⟩ := (openedPool_mirrors inode pages c.pool fun _ => True).onPool _
    (readCatalogChain_readOnly c.memory (pages + 1) root [])
  exact ⟨hlike, hsame.pageCount, rfl, hsame.pageFile, hsame.checksums,
    (congrFun hsame.files inode).trans hfile, hsame.wal.trans hwal, hlogs, hopens, rfl, hpath,
    hsame.visible.trans ((openedPool_shows _ _ _).trans (by rw [hfile]))⟩

/-- The log is attached to a file that was just loaded: it goes on where it ended. -/
theorem Session.Loaded.attach {s v : Session} {path : Path} {inode pages : Nat} {root : UInt32}
    {e : Engine} (h : s.Loaded v path inode pages root e) (hfinds : s.Finds path inode) :
    ∃ u, attachLog path false { v with sessionPath := path } = u ∧ u.engine = v.engine ∧
      u.pool.pageCount = pages ∧ u.catalogRoot = root ∧
      u.pool.visible = (s.pool.files inode).visible pages ∧
      u.pool.files inode = s.pool.files inode ∧ u.pool.wal = some ((s.logs path).getD []) := by
  let v' : Session := { v with sessionPath := path, usingLog := false }
  have hopens : v'.openFile path = some inode := h.opens
  have hpage : isPageFile path v' = true :=
    isPageFile_of_currentHead hopens (by
      show CurrentHead (v.pool.files inode).head
      rw [h.file]
      exact hfinds.head)
  have hpath : v'.openPath ≠ [] := by
    show v.openPath ≠ []
    rw [h.openPath]
    exact hfinds.named
  refine ⟨_, rfl, ?_⟩
  have hattach : attachLog path false { v with sessionPath := path } =
      { (openForWrite path v').2 with usingLog := true } := by
    unfold attachLog
    dsimp only
    rw [if_neg (by simpa using hpath), if_neg (by simpa using hpage)]
    unfold openForWrite
    rw [hopens]
  rw [hattach]
  unfold openForWrite
  rw [hopens]
  refine ⟨rfl, h.pageCount, h.root, ?_, h.file, ?_⟩
  · rw [← h.visible]
    funext id
    simp only [Pool.visible, Pool.supplies, Pool.fetch, h.pageFile, h.checksums]
    rfl
  · show some ((v.logs path).getD []) = _
    rw [h.logs]

/-! ### Startup -/

/-- Replaying a log that is there removes it and writes its frames into the file. -/
theorem walRecover_left {s : Session} {path : Path} {inode : Nat} {log : List (LogFrame Bytes)}
    (h : s.Finds path inode) (hlog : s.logs path = some log) :
    ∃ t, walRecover path s = (.ok (), t) ∧ t.logs path = none ∧
      t.pool.files inode = replayFrames (s.pool.files inode) (committedFrames log) ∧
      t.memory = s.memory ∧ t.Finds path inode := by
  have hpage := isPageFile_of_currentHead h.opens h.head
  unfold walRecover
  simp only [hlog, hpage, Bool.not_true, Bool.or_false]
  split
  · rename_i hempty
    have hnil : committedFrames log = [] := by simpa using hempty
    exact ⟨_, rfl, by simp, by rw [hnil]; rfl, rfl, h.named, h.opens, h.head, h.other⟩
  · rw [h.opens]
    refine ⟨_, rfl, by simp, by simp [Pool.setFile], rfl, h.named, h.opens, ?_, h.other⟩
    show CurrentHead ((s.pool.setFile inode _).files inode).head
    simp only [Pool.setFile, Function.update_self]
    exact replayFrames_head _ _ h.head

/-- An opening at startup presents the file with the log replayed, and attaches an empty
log. -/
theorem startup_presents {s : Session} {path : Path} {inode : Nat} {log : List (LogFrame Bytes)}
    (h : s.Finds path inode) (hlog : s.logs path = some log) {pages : Nat} {root : UInt32}
    {e : Engine}
    (hopens : (replayFrames (s.pool.files inode) (committedFrames log)).Opens s.memory pages root e) :
    Opening.startup.SeesLog path s inode log := by
  obtain ⟨t, hrecover, hlogs, hfile, hmemory, hfinds⟩ := walRecover_left h hlog
  rw [← hfile, ← hmemory] at hopens
  obtain ⟨v, hload, hloaded⟩ := (loadDatabase_cases hfinds hopens.header).2 e hopens.catalog
  obtain ⟨u, hattach, hengine, hcount, hroot, hvisible, hkept, hwal⟩ := hloaded.attach hfinds
  have henter : Opening.startup.enter path s = (.ok (), u) := by
    show ((loadDatabase path (walRecover path s).2).1, openSession path s) = _
    unfold openSession
    simp only [hrecover, hload, hattach]
  constructor
  · rw [henter]
  · rw [henter, ← hfile, ← hmemory]
    exact ⟨pages, root, e, hopens, hengine ▸ hloaded.engine, hcount, hroot, hvisible⟩
  · rw [henter, hwal, hlogs]
    intro frames hframes
    obtain rfl : frames = [] := (Option.some.inj hframes).symm
    rfl

/-! ### `.load` -/

/-- What `.load` leaves: the file as it stands, and its log, if a log is attached at all. -/
theorem loadCommand_loaded {s v : Session} {path : Path} {inode pages : Nat} {root : UInt32}
    {e : Engine} (hfinds : s.Finds path inode) (hload : loadDatabase path s = (.ok (), v))
    (h : s.Loaded v path inode pages root e) :
    ∃ u, loadCommand path s = (.ok (), u) ∧ u.engine.Alike e ∧ u.pool.pageCount = pages ∧
      u.catalogRoot = root ∧ u.pool.visible = (s.pool.files inode).visible pages ∧
      u.pool.files inode = s.pool.files inode ∧
      u.pool.wal = if s.sessionPath ≠ [] then some ((s.logs path).getD []) else none := by
  obtain ⟨u, hattach, hengine, hcount, hroot, hvisible, hkept, hwal⟩ := h.attach hfinds
  unfold loadCommand andThen
  rw [hload]
  dsimp only
  rw [h.sessionPath]
  split
  · exact ⟨u, by rw [hattach], hengine ▸ h.engine, hcount, hroot, hvisible, hkept, hwal⟩
  · exact ⟨v, rfl, h.engine, h.pageCount, h.root, h.visible, h.file, h.wal⟩

/-- An opening of a file with a log presents the committed frames, and goes on behind frames
that are in the file alone, exactly when it is the opening at startup, or the file holds the
frames already: the committed ones, and every one where the log is attached. The frames are the
whole ones; whatever part of another stands behind them, `walRecover` reads the same
(`walFrames_whole`). -/
theorem opening_sees_log_iff (opening : Opening) (path : Path) (s : Session) (inode : Nat)
    (log : List (LogFrame Bytes)) (h : s.Finds path inode) (hlog : s.logs path = some log)
    (hopens : ∃ pages root e,
      (replayFrames (s.pool.files inode) (committedFrames log)).Opens s.memory pages root e) :
    opening.SeesLog path s inode log ↔
      opening = .startup ∨ (s.pool.files inode).Holds (committedFrames log) ∧
        (s.sessionPath ≠ [] → (s.pool.files inode).Holds log) := by
  obtain ⟨pages, root, e, hopens⟩ := hopens
  cases opening with
  | startup => exact ⟨fun _ => Or.inl rfl, fun _ => startup_presents h hlog hopens⟩
  | load =>
    obtain ⟨pages₁, root₁, hheader⟩ := readHeader_current h.head
    obtain ⟨hnone, hsome⟩ := loadDatabase_cases h hheader
    constructor
    · intro hsees
      refine Or.inr ?_
      cases hstored : storedCatalog s.memory root₁ (filePool (s.pool.files inode) pages₁) with
      | none =>
        obtain ⟨code, v, hload⟩ := hnone hstored
        have hfails : (loadCommand path s).1 = .error code := by
          unfold loadCommand andThen
          rw [hload]
        exact absurd (hfails.symm.trans hsees.succeeds) (by simp)
      | some e₁ =>
        obtain ⟨v, hload, hloaded⟩ := hsome e₁ hstored
        obtain ⟨u, hdone, -, hcount, hroot, hvisible, hkept, hwal⟩ :=
          loadCommand_loaded h hload hloaded
        have henter : Opening.load.enter path s = (.ok (), u) := hdone
        obtain ⟨pages', root', e', hopens', -, hcount', hroot', hvisible'⟩ := hsees.presents
        have happlied := hsees.applied
        rw [henter] at hcount' hroot' hvisible' happlied
        obtain rfl : pages₁ = pages' := hcount.symm.trans hcount'
        obtain rfl : root₁ = root' := hroot.symm.trans hroot'
        refine ⟨?_, fun hattached => ?_⟩
        · unfold DbFile.Holds
          rw [DbFile.shown_eq hopens'.header, DbFile.shown_eq hheader]
          exact congrArg _ (hvisible'.symm.trans hvisible)
        · rw [← hkept]
          refine happlied log ?_
          show u.pool.wal = some log
          rw [hwal, if_pos hattached, hlog]
          rfl
    · rintro (hne | ⟨hholds, hall⟩)
      · exact absurd hne (by decide)
      · obtain ⟨hopens₁, hvisible₁⟩ := hopens.congr hholds.symm
        obtain ⟨v, hload, hloaded⟩ := (loadDatabase_cases h hopens₁.header).2 e hopens₁.catalog
        obtain ⟨u, hdone, hengine, hcount, hroot, hvisible, hkept, hwal⟩ :=
          loadCommand_loaded h hload hloaded
        have henter : Opening.load.enter path s = (.ok (), u) := hdone
        constructor
        · rw [henter]
        · rw [henter]
          exact ⟨pages, root, e, hopens, hengine, hcount, hroot, hvisible.trans hvisible₁⟩
        · rw [henter]
          intro frames hframes
          change u.pool.wal = some frames at hframes
          rw [hwal] at hframes
          split at hframes
          · rename_i hattached
            rw [hlog] at hframes
            obtain rfl : log = frames := Option.some.inj hframes
            show (u.pool.files inode).Holds log
            rw [hkept]
            exact hall hattached
          · exact absurd hframes (by simp)

/-! ### A crash -/

/-- What a crash leaves of a session: the files, and the log that was open. -/
def afterCrash (s : Session) : Session :=
  { startSession with
    pool := { startPool with files := s.pool.files }
    names := s.names
    nextInode := s.nextInode
    canOpen := s.canOpen
    memory := s.memory
    logs := fun path =>
      match s.pool.wal with
      | some log => if path = s.walDatabase then some log else s.logs path
      | none => s.logs path }

/-- The session has created a table, which is in its log, and is killed. -/
def killedSession : Session := afterStatements (openSession somePath startSession) [createPair]

/-- A session on a file of its own, after the crash. -/
def nextSession : Session := openSession [101] (afterCrash killedSession)

/-- The log that the killed session left. -/
def killedLog : List (LogFrame Bytes) := (nextSession.logs somePath).getD []

/-- The file and the log that the next session finds. -/
theorem nextSession_finds : nextSession.Finds somePath 0 ∧
    nextSession.logs somePath = some killedLog ∧
    readHeader (replayFrames (nextSession.pool.files 0) (committedFrames killedLog)).head =
      .ok { version := SAVE_VERSION, pageTotal := 1, catalog := 0 } ∧
    (storedCatalog nextSession.memory 0 (filePool
      (replayFrames (nextSession.pool.files 0) (committedFrames killedLog)) 1)).map
        (fun e => e.database.tables.length) = some 1 := by
  have hrun : (nextSession.openFile somePath = some 0 ∧
      CurrentHead (nextSession.pool.files 0).head ∧ nextSession.pool.pageFile ≠ some 0) ∧
      readHeader (replayFrames (nextSession.pool.files 0) (committedFrames killedLog)).head =
        .ok { version := SAVE_VERSION, pageTotal := 1, catalog := 0 } ∧
      (storedCatalog nextSession.memory 0 (filePool
        (replayFrames (nextSession.pool.files 0) (committedFrames killedLog)) 1)).map
          (fun e => e.database.tables.length) = some 1 ∧
      (nextSession.logs somePath).isSome = true := by
    decide +kernel
  obtain ⟨⟨hopens, hhead, hother⟩, hheader, htables, hsome⟩ := hrun
  obtain ⟨log, hlog⟩ := Option.isSome_iff_exists.mp hsome
  refine ⟨⟨by decide, hopens, hhead, hother⟩, ?_, hheader, htables⟩
  unfold killedLog
  rw [hlog]
  rfl

/-- At startup the next process finds the table that the log has. -/
theorem opening_sees_log_iff_next :
    Opening.startup.SeesLog somePath nextSession 0 killedLog ∧
      (Opening.load.SeesLog somePath nextSession 0 killedLog ↔
        Opening.load = .startup ∨ (nextSession.pool.files 0).Holds (committedFrames killedLog) ∧
          (nextSession.sessionPath ≠ [] → (nextSession.pool.files 0).Holds killedLog)) := by
  obtain ⟨hfinds, hlog, hheader, htables⟩ := nextSession_finds
  obtain ⟨e, he, -⟩ := Option.map_eq_some_iff.mp htables
  constructor
  · refine (opening_sees_log_iff .startup somePath nextSession 0 killedLog hfinds hlog ?_).mpr
      (.inl rfl)
    exact ⟨1, 0, e, hheader, he⟩
  · refine opening_sees_log_iff .load somePath nextSession 0 killedLog hfinds hlog ?_
    exact ⟨1, 0, e, hheader, he⟩

/-- Loaded by its neighbour, the file comes without the table that its log had committed. -/
theorem load_misses_log : ¬Opening.load.SeesLog somePath nextSession 0 killedLog := by
  intro hsees
  obtain ⟨-, -, hheader, htables⟩ := nextSession_finds
  obtain ⟨pages, root, e, hopens, hlike, -, -, -⟩ := hsees.presents
  have hfields := hopens.header.symm.trans hheader
  obtain ⟨rfl, rfl⟩ : pages = 1 ∧ root = 0 := by simpa using hfields
  rw [hopens.catalog] at htables
  have hloaded : (Opening.load.enter somePath nextSession).2.engine.database.tables.length = 0 := by
    decide +kernel
  have hsame : (Opening.load.enter somePath nextSession).2.engine.database = e.database := by
    unfold Engine.database
    rw [hlike.1, hlike.2]
  rw [hsame] at hloaded
  have hone : e.database.tables.length = 1 := by simpa using htables
  omega

/-! ### `.load` inside a transaction -/

/-- What `.load` owes a transaction that is open: it is refused, or the old file shows what it
showed at BEGIN and no transaction is open any more. -/
def Session.LoadContained (s : Session) (path : Path) (inode : Nat) (begun : DbFile Bytes) : Prop :=
  (loadCommand path s).1 ≠ .ok () ∨
    (((loadCommand path s).2.pool.files inode).shown = begun.shown ∧
      (loadCommand path s).2.transactionOpen = false)

/-- The transaction flag, and the page count that BEGIN kept, are as they were. -/
structure Session.KeepsTransaction (s t : Session) : Prop where
  transactionOpen : t.transactionOpen = s.transactionOpen
  transactionPages : t.transactionPages = s.transactionPages

/-- Two steps that keep the transaction. -/
theorem Session.KeepsTransaction.trans {s t u : Session} (h : s.KeepsTransaction t)
    (h' : t.KeepsTransaction u) : s.KeepsTransaction u :=
  ⟨h'.transactionOpen.trans h.transactionOpen, h'.transactionPages.trans h.transactionPages⟩

/-- Every part of a load keeps the transaction. -/
theorem keepsTransaction_load (s : Session) : LoadKeeps s.KeepsTransaction where
  pages _ _ _ h := ⟨h.transactionOpen, h.transactionPages⟩
  placed _ _ _ h := ⟨h.transactionOpen, h.transactionPages⟩
  engine _ _ h := ⟨h.transactionOpen, h.transactionPages⟩

/-- A load keeps the transaction. -/
theorem loadDatabase_keepsTransaction (path : Path) (s : Session) :
    s.KeepsTransaction (loadDatabase path s).2 := by
  have hclosed : s.KeepsTransaction (if walIsOpen s then closeDatabase s else s) := by
    split <;> exact ⟨rfl, rfl⟩
  unfold loadDatabase
  dsimp only
  split
  · exact hclosed
  · split
    · exact hclosed
    · exact hclosed.trans ((keepsTransaction_load _).loadPages ⟨rfl, rfl⟩ fun _ _ => ⟨rfl, rfl⟩)

/-- A log that is opened keeps the transaction. -/
theorem attachLog_keepsTransaction (path : Path) (current : Bool) (s : Session) :
    s.KeepsTransaction (attachLog path current s) := by
  unfold attachLog openForWrite
  dsimp only
  split
  · exact ⟨rfl, rfl⟩
  · split
    · exact ⟨rfl, rfl⟩
    · cases { s with usingLog := false }.openFile path with
      | none => exact ⟨rfl, rfl⟩
      | some inode => exact ⟨rfl, rfl⟩

/-- A `.load` never looks at the transaction that is open. -/
theorem loadCommand_keepsTransaction (path : Path) (s : Session) :
    s.KeepsTransaction (loadCommand path s).2 := by
  unfold loadCommand
  refine andThen_keeps s.KeepsTransaction (loadDatabase_keepsTransaction path s)
    fun (_ : Unit) (t : Session) ht => ?_
  have hnamed : t.KeepsTransaction { t with sessionPath := path } := ⟨rfl, rfl⟩
  split
  · exact ht.trans (hnamed.trans (attachLog_keepsTransaction path false _))
  · exact ht

/-- A file of this build that opens is loaded. -/
theorem loadCommand_succeeds {s : Session} {path : Path} {inode pages : Nat} {root : UInt32}
    {e : Engine} (h : s.Finds path inode)
    (hopens : (s.pool.files inode).Opens s.memory pages root e) :
    (loadCommand path s).1 = .ok () := by
  obtain ⟨v, hload, hloaded⟩ := (loadDatabase_cases h hopens.header).2 e hopens.catalog
  obtain ⟨u, hdone, -⟩ := loadCommand_loaded h hload hloaded
  rw [hdone]

/-- No `.load` that succeeds is contained when a transaction is open, whatever the version of the
file: both the transaction and the page count of the old file are still there. And every file of
this build that opens is loaded. -/
theorem load_never_contained (s : Session) (path : Path) (old : Nat) (begun : DbFile Bytes)
    (hopen : s.transactionOpen = true) :
    ((loadCommand path s).1 = .ok () → ¬s.LoadContained path old begun) ∧
      (∀ (inode pages : Nat) (root : UInt32) (e : Engine), s.Finds path inode →
        (s.pool.files inode).Opens s.memory pages root e → ¬s.LoadContained path old begun) ∧
      (loadCommand path s).2.transactionPages = s.transactionPages := by
  have hkeeps := loadCommand_keepsTransaction path s
  have hloaded : (loadCommand path s).1 = .ok () → ¬s.LoadContained path old begun := by
    rintro hok (hrefused | ⟨-, hended⟩)
    · exact hrefused hok
    · rw [hkeeps.transactionOpen, hopen] at hended
      exact absurd hended (by decide)
  refine ⟨hloaded, ?_, hkeeps.transactionPages⟩
  intro inode pages root e hfinds hopens
  exact hloaded (loadCommand_succeeds hfinds hopens)

/-! ### A row lost in each file -/

/-- `CREATE TABLE u (a TEXT)`. -/
def createOther : Statement :=
  (StatementKind.STMT_CREATE_TABLE
    { table := Name.ofBytes [117]
      cols := [plainColumn [97] .TYPE_TEXT]
      check := noCondition }).alone

/-- `INSERT INTO u VALUES (a)`. -/
def insertOther : Statement :=
  (StatementKind.STMT_INSERT
    { table := Name.ofBytes [117], columns := [], values := [setText [1]] }).alone

/-- `DELETE FROM t`. -/
def deleteRows : Statement :=
  (StatementKind.STMT_DELETE { table := Name.ofBytes [116], wher := noCondition }).alone

/-- A file of three pages, of which the last holds a row. -/
def neighbour : Session :=
  closeSession (afterStatements (openSession [101] startSession)
    [createPair, insertPair [1] [2], createOther, insertOther])

/-- Another process, with a file of two pages, after its BEGIN. -/
def rowBegun : Session :=
  afterStatements (openSession somePath (afterCrash neighbour))
    [createPair, insertPair [1] [2], beginStatement]

/-- The transaction has deleted the row. -/
def rowGone : Session := afterStatements rowBegun [deleteRows]

/-- `ROLLBACK` after a `.load` of the first file. -/
def rolledAcross : Except ErrorCode Unit × Session :=
  processStatement rollbackStatement (loadCommand [101] rowGone).2

/-- A row is gone after a load inside a transaction. -/
theorem load_never_contained_gone :
    rowGone.transactionOpen = true ∧
      ∃ pages root e, (rowGone.pool.files 0).Opens rowGone.memory pages root e ∧
        ¬rowGone.LoadContained [101] 1 (rowBegun.pool.files 1) ∧
        (loadCommand [101] rowGone).2.transactionPages = rowGone.transactionPages := by
  have hrun : (rowGone.openFile [101] = some 0 ∧ CurrentHead (rowGone.pool.files 0).head ∧
      rowGone.pool.pageFile ≠ some 0) ∧ rowGone.transactionOpen = true ∧
      readHeader (rowGone.pool.files 0).head =
        .ok { version := SAVE_VERSION, pageTotal := 3, catalog := 0 } ∧
      (storedCatalog rowGone.memory 0 (filePool (rowGone.pool.files 0) 3)).isSome = true := by
    decide +kernel
  obtain ⟨⟨hopens, hhead, hother⟩, hopen, hheader, hsome⟩ := hrun
  obtain ⟨e, he⟩ := Option.isSome_iff_exists.mp hsome
  obtain ⟨-, hnever, hpages⟩ := load_never_contained rowGone [101] 1 (rowBegun.pool.files 1) hopen
  exact ⟨hopen, 3, 0, e, ⟨hheader, he⟩,
    hnever 0 3 0 e ⟨by decide, hopens, hhead, hother⟩ ⟨hheader, he⟩, hpages⟩

/-- The `.load` writes the deletion into the old file and leaves the transaction open; ROLLBACK
then leaves the new file with a page fewer than it had. -/
theorem load_leaks_transaction :
    (loadCommand [101] rowGone).1 = .ok () ∧
      ¬rowGone.LoadContained [101] 1 (rowBegun.pool.files 1) ∧
      ((loadCommand [101] rowGone).2.pool.files 1).shown ≠ (rowBegun.pool.files 1).shown ∧
      rolledAcross.1 = .ok () ∧ (rowGone.pool.files 0).pageTotal = 3 ∧
      (rolledAcross.2.pool.files 0).pageTotal = 2 := by
  have hrun : ((loadCommand [101] rowGone).1 = .ok () ∧
      (loadCommand [101] rowGone).2.transactionOpen = true) ∧
      ((((loadCommand [101] rowGone).2.pool.files 1).shown.2 1).map fun b => b 8) = some 0 ∧
      (((rowBegun.pool.files 1).shown.2 1).map fun b => b 8) = some 236 ∧
      rolledAcross.1 = .ok () ∧ (rowGone.pool.files 0).pageTotal = 3 ∧
      (rolledAcross.2.pool.files 0).pageTotal = 2 := by
    decide +kernel
  obtain ⟨⟨hok, hopen⟩, hloaded, hbegun, hrest⟩ := hrun
  refine ⟨hok, ?_, fun hsame => ?_, hrest⟩
  · rintro (hrefused | ⟨-, hended⟩)
    · exact hrefused hok
    · rw [hopen] at hended
      exact absurd hended (by decide)
  · rw [hsame, hbegun] at hloaded
    exact absurd hloaded (by decide)

end DatabaseEngine
