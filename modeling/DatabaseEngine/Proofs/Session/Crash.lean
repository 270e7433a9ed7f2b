import DatabaseEngine.Model.Failure
import DatabaseEngine.Proofs.Pool.Twin
import DatabaseEngine.Proofs.Session.Backed
import DatabaseEngine.Proofs.Session.Opening
import DatabaseEngine.Proofs.Session.Save

/-!
# `DatabaseEngine.Proofs.Session.Crash`: a crash in the middle of a save

A save streams its pages into a file beside the old one, renames that file over the old one, and
then throws away the log of the name. `Session.SaveCrashes` lists what a crash can leave.
Opening pairs a file with a log by the name alone.

* `opening_current`: what opening a file of this build gives is what the file holds with the
  committed frames of its log replayed.
* `opening_congr`: opening a name looks at its file and its log alone.
* `Backed.opening_early`: pages that the pool wrote early do not show.
* `save_atomic_iff`: a save is atomic exactly when it fails, or the old log of the name, replayed
  into the saved file, gives what the save or the old file gives.
* `save_atomic_run`: in every run whose saves find no committed frame in the log of the name, each
  of them is atomic.
* `save_mixes`: a save over the file of a session that crashed, cut short behind the rename.
-/

set_option autoImplicit false

namespace DatabaseEngine

open Library

/-! ### What an opening gives -/

/-- What a session holds of a database. -/
structure Holding where
  databases : List Database
  current : Nat
  pages : Nat
  root : UInt32
  visible : Nat → Option Bytes

/-- What a session shows of its databases and pages. -/
def Session.holding (s : Session) : Holding :=
  { databases := s.engine.databases, current := s.engine.current, pages := s.pool.pageCount,
    root := s.catalogRoot, visible := s.pool.visible }

/-- What opening a path on a disk gives, its log first; nothing when the file does not open. -/
def opening (path : Path) (disk : Session) : Option Holding :=
  match loadDatabase path (walRecover path disk).2 with
  | (.ok (), s) => some s.holding
  | (.error _, _) => none

/-- What a file of this build holds. -/
def DbFile.holding (memory : Nat) (file : DbFile Bytes) : Option Holding :=
  match readHeader file.head with
  | .error _ => none
  | .ok header =>
    (storedCatalog memory header.catalog (filePool file header.pageTotal)).map fun e =>
      { databases := e.databases, current := e.current, pages := header.pageTotal,
        root := header.catalog, visible := file.visible header.pageTotal }

/-- What a load gives is what the file holds. -/
theorem loadDatabase_holding {s : Session} {path : Path} {inode : Nat} (h : s.Finds path inode) :
    (match loadDatabase path s with
      | (.ok (), t) => some t.holding
      | (.error _, _) => none) = (s.pool.files inode).holding s.memory := by
  obtain ⟨pages, root, hheader⟩ := readHeader_current h.head
  obtain ⟨hnone, hsome⟩ := loadDatabase_cases h hheader
  unfold DbFile.holding
  rw [hheader]
  dsimp only
  cases hstored : storedCatalog s.memory root (filePool (s.pool.files inode) pages) with
  | none =>
    obtain ⟨code, v, hload⟩ := hnone hstored
    rw [hload]
    rfl
  | some e =>
    obtain ⟨v, hload, hloaded⟩ := hsome e hstored
    rw [hload]
    simp only [Session.holding, hloaded.engine.1, hloaded.engine.2, hloaded.pageCount,
      hloaded.root, hloaded.visible, Option.map_some]

/-- The file that a path names, opened with its log. -/
theorem opening_current {s : Session} {path : Path} {inode : Nat} (h : s.Finds path inode) :
    opening path s =
      (replayFrames (s.pool.files inode)
        (committedFrames ((s.logs path).getD []))).holding s.memory := by
  unfold opening
  cases hlog : s.logs path with
  | none =>
    have hrecover : walRecover path s = (.ok (), s) := by simp only [walRecover, hlog]
    rw [hrecover, loadDatabase_holding h]
    rfl
  | some log =>
    obtain ⟨t, hrecover, -, hfile, hmemory, hfinds⟩ := walRecover_left h hlog
    rw [hrecover, loadDatabase_holding hfinds, hfile, hmemory]
    rfl

/-! ### Files that an opening does not look at -/

/-- The sessions differ in files that neither reads. -/
structure Session.Twin (s t : Session) : Prop where
  pool : s.pool.Twin t.pool
  engine : t.engine = s.engine
  memory : t.memory = s.memory
  root : t.catalogRoot = s.catalogRoot

namespace Session.Twin

variable {s t : Session}

/-- Twins answer a page program alike. -/
theorem pages {γ : Type} (h : s.Twin t) (x : PageM Bytes γ) :
    (t.pages x).1 = (s.pages x).1 ∧ (s.pages x).2.Twin (t.pages x).2 := by
  obtain ⟨hanswer, hpool⟩ := h.pool.onPool x
  exact ⟨hanswer, hpool, h.engine, h.memory, h.root⟩

/-- Twins take a step of a load alike. -/
theorem loadStep {α : Type} (h : s.Twin t) (x : Step Loading α) (reader : List UInt8) :
    (t.loadStep x reader).1 = (s.loadStep x reader).1 ∧
      (t.loadStep x reader).2.1 = (s.loadStep x reader).2.1 ∧
      (s.loadStep x reader).2.2.Twin (t.loadStep x reader).2.2 := by
  obtain ⟨hanswer, hpool⟩ := h.pool.onPool (x { reader := reader, engine := s.engine })
  unfold Session.loadStep
  rw [h.engine]
  exact ⟨congrArg (fun r => r.1) hanswer, congrArg (fun r => r.2.reader) hanswer, hpool,
    congrArg (fun r => r.2.engine) hanswer, h.memory, h.root⟩

/-- Twins take a step on the engine alike. -/
theorem engineStep {α : Type} (h : s.Twin t) (x : Step Engine α) :
    (t.engineStep x).1 = (s.engineStep x).1 ∧ (s.engineStep x).2.Twin (t.engineStep x).2 := by
  obtain ⟨hanswer, hpool⟩ := h.pool.onPool (x s.engine)
  unfold Session.engineStep
  rw [h.engine]
  exact ⟨congrArg (fun r => r.1) hanswer, hpool, congrArg (fun r => r.2) hanswer, h.memory, h.root⟩

/-- Twins load a blob alike. -/
theorem loadFrom (h : s.Twin t) (path : Path) (header : Header) (blob : List UInt8) :
    (loadFrom path header blob t).1 = (loadFrom path header blob s).1 ∧
      (loadFrom path header blob s).2.Twin (loadFrom path header blob t).2 := by
  obtain ⟨hanswer, hreader, hnames⟩ := h.loadStep (loadNames header.version) blob
  unfold DatabaseEngine.loadFrom
  generalize s.loadStep (loadNames header.version) blob = r at hanswer hreader hnames ⊢
  generalize t.loadStep (loadNames header.version) blob = r' at hanswer hreader hnames ⊢
  obtain ⟨answer, reader, s₁⟩ := r
  obtain ⟨answer', reader', t₁⟩ := r'
  obtain rfl : answer' = answer := hanswer
  obtain rfl : reader' = reader := hreader
  cases answer' with
  | error code => exact ⟨rfl, hnames⟩
  | ok found =>
    obtain ⟨hanswer, -, hbody⟩ := hnames.loadStep (loadBody header.version found.2) reader'
    dsimp only at hanswer hbody ⊢
    generalize s₁.loadStep (loadBody header.version found.2) reader' = r at hanswer hbody ⊢
    generalize t₁.loadStep (loadBody header.version found.2) reader' = r' at hanswer hbody ⊢
    obtain ⟨answer, reader, s₂⟩ := r
    obtain ⟨answer', reader', t₂⟩ := r'
    obtain rfl : answer' = answer := hanswer
    let placed (s : Session) : Session :=
      { s with
        openPath := if TREELESS_VERSION ≤ header.version then path else []
        catalogRoot := if CHAIN_VERSION ≤ header.version then header.catalog else INVALID_CATALOG
        pool := poolSetCatalogRoot
          (if CHAIN_VERSION ≤ header.version then header.catalog else INVALID_CATALOG) s.pool }
    have hplaced : (placed s₂).Twin (placed t₂) :=
      ⟨hbody.pool.step (poolSetCatalogRoot _) (fun _ => rfl) ⟨hbody.pool.readOnly, rfl, rfl⟩,
        hbody.engine, hbody.memory, rfl⟩
    cases answer' with
    | error code => exact ⟨rfl, hplaced⟩
    | ok _ =>
      dsimp only
      generalize hmoved' : (if header.version < CHECKSUM_VERSION then _ else (_, _)) = moved'
      generalize hmoved : (if header.version < CHECKSUM_VERSION then _ else (_, _)) = moved
      have htwin : moved'.1 = moved.1 ∧ moved.2.Twin moved'.2 := by
        have hcurrent : t₂.engine.current = s₂.engine.current :=
          congrArg Engine.current hbody.engine
        rw [← hmoved, ← hmoved', hcurrent]
        split
        · exact hplaced.engineStep _
        · exact ⟨rfl, hplaced⟩
      obtain ⟨answer, s₃⟩ := moved
      obtain ⟨answer', t₃⟩ := moved'
      obtain rfl : answer' = answer := htwin.1
      cases answer' with
      | error code => exact ⟨rfl, htwin.2⟩
      | ok _ =>
        obtain ⟨hpool, hengine, hmemory, hroot⟩ := htwin.2
        exact ⟨rfl, hpool, congrArg (useNamed found.1) hengine, hmemory, hroot⟩

/-- A load of one file gives the same over twins. -/
theorem loadPages (h : s.Twin t) (path : Path) {inode : Nat} (header : Header)
    (hfile : t.pool.files inode = s.pool.files inode) :
    (loadPages path inode header t).1 = (loadPages path inode header s).1 ∧
      (loadPages path inode header s).2.Twin (loadPages path inode header t).2 := by
  have hcleared : (teardown s).Twin (teardown t) := by
    refine ⟨⟨?_, rfl, fun k hk => absurd hk (by simp [teardown, poolInit, poolClear])⟩, ?_,
      h.memory, h.root⟩
    · unfold teardown
      rw [h.pool.same]
      rfl
    · exact congrArg initEngine h.engine
  have hadopted : ∀ on pages, Session.Twin
      { teardown s with pool := poolSetChecksums on (poolAdopt inode pages (teardown s).pool) }
      { teardown t with pool := poolSetChecksums on (poolAdopt inode pages (teardown t).pool) } := by
    intro on pages
    refine ⟨⟨?_, rfl, fun k hk => ?_⟩, hcleared.engine, hcleared.memory, hcleared.root⟩
    · unfold teardown
      rw [h.pool.same]
      rfl
    · obtain rfl : inode = k := Option.some.inj hk
      exact hfile
  have hread : ∀ {s t : Session}, s.Twin t → t.pool.files inode = s.pool.files inode →
      (andThen (readBlob header inode t) fun blob t => DatabaseEngine.loadFrom path header blob t).1
        = (andThen (readBlob header inode s) fun blob s =>
          DatabaseEngine.loadFrom path header blob s).1 ∧
      (andThen (readBlob header inode s) fun blob s =>
          DatabaseEngine.loadFrom path header blob s).2.Twin
        (andThen (readBlob header inode t) fun blob t =>
          DatabaseEngine.loadFrom path header blob t).2 := by
    intro s t h hfile
    have hblob : (readBlob header inode t).1 = (readBlob header inode s).1 ∧
        (readBlob header inode s).2.Twin (readBlob header inode t).2 := by
      have hcount : t.pool.pageCount = s.pool.pageCount := by rw [h.pool.same]; rfl
      unfold readBlob
      rw [hcount, h.memory, hfile]
      split
      · exact h.pages _
      · split
        · exact ⟨rfl, h⟩
        · split <;> exact ⟨rfl, h⟩
    unfold andThen
    rw [hblob.1]
    split
    · exact ⟨rfl, hblob.2⟩
    · exact hblob.2.loadFrom path header _
  unfold DatabaseEngine.loadPages
  dsimp only
  split
  · exact hread (hadopted _ _) hfile
  · exact hread hcleared hfile

/-- Twins load a file alike that is the same for both. -/
theorem loadDatabase (h : s.Twin t) {path : Path} {inode : Nat} (hs : walIsOpen s = false)
    (ht : walIsOpen t = false) (hsopens : s.openFile path = some inode)
    (htopens : t.openFile path = some inode) (hfile : t.pool.files inode = s.pool.files inode) :
    (loadDatabase path t).1 = (loadDatabase path s).1 ∧
      (loadDatabase path s).2.Twin (loadDatabase path t).2 := by
  unfold DatabaseEngine.loadDatabase
  simp only [hs, ht, Bool.false_eq_true, if_false, hsopens, htopens, hfile]
  split
  · exact ⟨rfl, h⟩
  · exact h.loadPages path _ hfile

/-- Twins hold the same. -/
theorem holding (h : s.Twin t) : t.holding = s.holding := by
  have hvisible : t.pool.visible = s.pool.visible := by
    funext id
    have hcount : t.pool.pageCount = s.pool.pageCount := by rw [h.pool.same]; rfl
    unfold Pool.visible Pool.supplies
    rw [hcount, h.pool.fetch]
  have hcount : t.pool.pageCount = s.pool.pageCount := by rw [h.pool.same]; rfl
  unfold Session.holding
  rw [h.engine, hcount, h.root, hvisible]

end Session.Twin

/-! ### Opening after a crash -/

/-- A file with the log of its name replayed, as `walRecover` leaves it. -/
def DbFile.recovered (file : DbFile Bytes) (log : Option (List (LogFrame Bytes))) : DbFile Bytes :=
  if PageHead file.head then replayFrames file (committedFrames (log.getD [])) else file

/-- The recovery of a name leaves the file with its log replayed, and nothing of the process
changes. -/
theorem walRecover_crash {s : Session} {path : Path} {inode : Nat}
    (h : (afterCrash s).openFile path = some inode) :
    ∃ files logs, (walRecover path (afterCrash s)).2 =
        { afterCrash s with pool := { startPool with files := files }, logs := logs } ∧
      files inode = (s.pool.files inode).recovered ((afterCrash s).logs path) := by
  have hpage := isPageFile_iff h
  unfold walRecover DbFile.recovered
  cases hlog : (afterCrash s).logs path with
  | none =>
    refine ⟨s.pool.files, (afterCrash s).logs, rfl, ?_⟩
    split <;> rfl
  | some log =>
    dsimp only
    by_cases hhead : PageHead (s.pool.files inode).head
    · rw [hpage.mpr hhead, if_pos hhead, h]
      simp only [Bool.not_true, Bool.or_false]
      split
      · rename_i hempty
        refine ⟨s.pool.files, _, rfl, ?_⟩
        have hnil : committedFrames log = [] := by simpa using hempty
        simp only [Option.getD_some, hnil]
        rfl
      · exact ⟨_, _, rfl, Function.update_self _ _ _⟩
    · have hoff : isPageFile path (afterCrash s) = false := by
        cases hwas : isPageFile path (afterCrash s) with
        | false => rfl
        | true => exact absurd (hpage.mp hwas) hhead
      rw [hoff, if_neg hhead]
      simp only [Bool.not_false, Bool.or_true, if_true]
      exact ⟨s.pool.files, _, rfl, rfl⟩

/-- A name without a file that can be opened gives nothing. -/
theorem opening_unopened {s : Session} {path : Path} (h : (afterCrash s).openFile path = none) :
    opening path (afterCrash s) = none := by
  have hkept : ∃ logs, (walRecover path (afterCrash s)).2 = { afterCrash s with logs := logs } := by
    have hoff : isPageFile path (afterCrash s) = false := by
      unfold isPageFile
      rw [h]
    unfold walRecover
    split
    · exact ⟨_, rfl⟩
    · simp only [hoff, Bool.not_false, Bool.or_true, if_true]
      exact ⟨_, rfl⟩
  obtain ⟨logs, hlogs⟩ := hkept
  have hnone : ({ afterCrash s with logs := logs } : Session).openFile path = none := h
  unfold opening
  rw [hlogs]
  unfold loadDatabase
  rw [show walIsOpen { afterCrash s with logs := logs } = false from rfl]
  simp only [Bool.false_eq_true, if_false, hnone]

/-- Opening a name looks at the file and the log of that name alone. -/
theorem opening_congr {s t : Session} {path : Path} (hcan : t.canOpen path = s.canOpen path)
    (hmemory : t.memory = s.memory)
    (hfiles : (t.names path).map (fun inode =>
        (t.pool.files inode).recovered ((afterCrash t).logs path)) =
      (s.names path).map fun inode =>
        (s.pool.files inode).recovered ((afterCrash s).logs path))
    (hnames : t.names path = s.names path) :
    opening path (afterCrash t) = opening path (afterCrash s) := by
  have hopen : (afterCrash t).openFile path = (afterCrash s).openFile path := by
    show (if t.canOpen path then t.names path else none) =
      if s.canOpen path then s.names path else none
    rw [hcan, hnames]
  cases hopens : (afterCrash s).openFile path with
  | none => rw [opening_unopened hopens, opening_unopened (hopen.trans hopens)]
  | some inode =>
    obtain ⟨files, logs, hs, hsfile⟩ := walRecover_crash hopens
    obtain ⟨files', logs', ht, htfile⟩ := walRecover_crash (hopen.trans hopens)
    have hname : s.names path = some inode := by
      change (if s.canOpen path then s.names path else none) = _ at hopens
      split at hopens
      · exact hopens
      · exact absurd hopens (by simp)
    rw [hnames, hname] at hfiles
    have hsame : files' inode = files inode := by
      rw [hsfile, htfile]
      exact Option.some.inj hfiles
    have htwin : Session.Twin
        { afterCrash s with pool := { startPool with files := files }, logs := logs }
        { afterCrash t with pool := { startPool with files := files' }, logs := logs' } :=
      ⟨⟨rfl, rfl, fun k hk => absurd hk (by simp [startPool])⟩, rfl, hmemory, rfl⟩
    obtain ⟨hanswer, hheld⟩ := htwin.loadDatabase rfl rfl hopens (hopen.trans hopens) hsame
    unfold opening
    rw [hs, ht]
    generalize loadDatabase path { afterCrash s with pool := _, logs := logs } = r
      at hanswer hheld ⊢
    generalize loadDatabase path { afterCrash t with pool := _, logs := logs' } = r'
      at hanswer hheld ⊢
    obtain ⟨answer, u⟩ := r
    obtain ⟨answer', v⟩ := r'
    obtain rfl : answer' = answer := hanswer
    cases answer' with
    | error code => rfl
    | ok _ => exact congrArg some hheld.holding

/-! ### Where a crash cuts a save short -/

/-- The file has its name, and the log of the name is still there. -/
def Session.renamed (path : Path) (s : Session) : Session :=
  let (pages, pool) := poolWriteAll s.catalogued.pool
  let (inode, u) := writeFile pages { s.catalogued with pool := pool }
  { u with names := fun other => if other = path then some inode else u.names other }

/-- The sessions in which a crash can find a save: putting the catalog into its pages, streaming
pages, behind the rename, or at its end. -/
inductive Session.SaveCrashes (s : Session) (path : Path) : Session → Prop
  | cataloguing (n : Nat) : SaveCrashes s path
      (s.pages (firstAccesses n (writeCatalogChain (saveCatalog s.engine) s.catalogRoot))).2
  | streaming (n : Nat) : SaveCrashes s path
      { s.catalogued with pool := (writePages 0 n s.catalogued.pool).2 }
  | renamed (h : (saveDatabase path s).1 = .ok ()) : SaveCrashes s path (s.renamed path)
  | done : SaveCrashes s path (saveDatabase path s).2

/-- A crash anywhere in the save leaves what was there, or what the save wrote. -/
def Session.SavesAtomically (s : Session) (path : Path) : Prop :=
  ∀ t, s.SaveCrashes path t →
    opening path (afterCrash t) = opening path (afterCrash s) ∨
    (saveDatabase path s).1 = .ok () ∧
      opening path (afterCrash t) = s.savedFile.holding s.memory

/-- What the saved file holds with the old log of the name replayed into it. -/
def Session.savedUnderLog (s : Session) (path : Path) : Option Holding :=
  (replayFrames s.savedFile
    (committedFrames (((afterCrash s).logs path).getD []))).holding s.memory

/-- The old log of the name takes nothing from a save. -/
def Session.LogHarmless (s : Session) (path : Path) : Prop :=
  (saveDatabase path s).1 ≠ .ok () ∨ s.canOpen path = false ∨
    s.savedUnderLog path = s.savedFile.holding s.memory ∨
    s.savedUnderLog path = opening path (afterCrash s)

/-- A file that is opened has a name. -/
theorem Session.openFile_name {s : Session} {path : Path} {inode : Nat}
    (h : s.openFile path = some inode) : s.names path = some inode := by
  unfold Session.openFile at h
  split at h
  · exact h
  · exact absurd h (by simp)

/-- What was written early does not show. -/
theorem Session.Backed.opening_early {s t : Session} (h : s.Backed) (path : Path)
    (hpool : s.pool.WritesBack t.pool)
    (hsame : t.names = s.names ∧ t.canOpen = s.canOpen ∧ t.memory = s.memory ∧ t.logs = s.logs ∧
      t.walDatabase = s.walDatabase) :
    opening path (afterCrash t) = opening path (afterCrash s) := by
  obtain ⟨hnames, hcan, hmemory, hlogs, hdatabase⟩ := hsame
  have hlog : (afterCrash t).logs path = (afterCrash s).logs path := by
    unfold afterCrash
    dsimp only
    rw [hpool.wal, hlogs, hdatabase]
  refine opening_congr (congrFun hcan path) hmemory ?_ (congrFun hnames path)
  rw [hnames, hlog]
  cases hname : s.names path with
  | none => rfl
  | some inode =>
    rw [Option.map_some, Option.map_some]
    congr 1
    by_cases hfile : s.pool.pageFile = some inode
    · obtain ⟨writes, hwrites, heq⟩ := hpool.file inode hfile
      rw [heq]
      cases writes with
      | nil => rfl
      | cons write rest =>
        -- a page was written early, so a log is open, and it is the log of the name
        obtain ⟨log, hwal, -⟩ := h.covered _ (hwrites write (by simp))
        have hattached := h.attached (by rw [walIsOpen, hwal]; rfl)
        obtain ⟨k, hk, hopens, hhead⟩ := hattached.file
        obtain rfl : inode = k := Option.some.inj (hfile.symm.trans hk)
        have hpath : path = s.walDatabase :=
          h.distinct _ _ _ hname (Session.openFile_name hopens)
        have hown : (afterCrash s).logs path = some log := by
          unfold afterCrash
          simp only [hwal, hpath, if_true]
        unfold DbFile.recovered
        rw [hown, DbFile.withPages_head, if_pos hhead, if_pos hhead]
        refine replayFrames_covered fun other hin => ?_
        obtain ⟨log', hwal', hcovered⟩ := h.covered _ (hwrites other hin)
        obtain rfl : log = log' := Option.some.inj (hwal.symm.trans hwal')
        exact hcovered
    · rw [hpool.others inode hfile]

/-- The session with the saved file beside the old one. -/
def Session.streamed (s : Session) : Session :=
  (writeFile (poolWriteAll s.catalogued.pool).1
    { s.catalogued with pool := (poolWriteAll s.catalogued.pool).2 }).2

/-- A page program changes the pool, and nothing else of the session. -/
structure Session.PoolOnly (s t : Session) : Prop where
  pool : s.pool.WritesBack t.pool
  names : t.names = s.names
  canOpen : t.canOpen = s.canOpen
  memory : t.memory = s.memory
  logs : t.logs = s.logs
  walDatabase : t.walDatabase = s.walDatabase
  openPath : t.openPath = s.openPath
  nextInode : t.nextInode = s.nextInode

/-- A page program changes nothing but the pool. -/
theorem pages_poolOnly {α : Type} (s : Session) (x : PageM Bytes α) :
    s.PoolOnly (s.pages x).2 :=
  ⟨(writesBack_client s.pool).onPool x (.refl s.pool), rfl, rfl, rfl, rfl, rfl, rfl, rfl⟩

/-- The catalog goes into pages. -/
theorem catalogued_poolOnly (s : Session) : s.PoolOnly s.catalogued := by
  have hpages := pages_poolOnly s (writeCatalogChain (saveCatalog s.engine) s.catalogRoot)
  unfold Session.catalogued
  generalize s.pages (writeCatalogChain (saveCatalog s.engine) s.catalogRoot) = r at hpages ⊢
  obtain ⟨answer, t⟩ := r
  cases answer with
  | error code => exact hpages
  | ok root => exact ⟨hpages.pool, hpages.names, hpages.canOpen, hpages.memory, hpages.logs,
      hpages.walDatabase, hpages.openPath, hpages.nextInode⟩

/-- A save fails before it has written a file, or moves the streamed file in place. -/
theorem saveDatabase_cases (path : Path) (s : Session) :
    (∃ code, saveDatabase path s = (.error code, s.catalogued)) ∨
      saveDatabase path s = (.ok (), moveInPlace path s.catalogued.nextInode s.streamed) := by
  unfold saveDatabase andThen Session.streamed
  cases hroot : (s.pages (writeCatalogChain (saveCatalog s.engine) s.catalogRoot)).1 with
  | error code =>
    have hcatalogued : s.catalogued =
        (s.pages (writeCatalogChain (saveCatalog s.engine) s.catalogRoot)).2 := by
      unfold Session.catalogued
      simp only [hroot]
    rw [hcatalogued]
    exact Or.inl ⟨code, rfl⟩
  | ok root =>
    have hcatalogued : s.catalogued =
        { (s.pages (writeCatalogChain (saveCatalog s.engine) s.catalogRoot)).2 with
          catalogRoot := root } := by
      unfold Session.catalogued
      simp only [hroot]
    rw [hcatalogued]
    generalize (s.pages (writeCatalogChain (saveCatalog s.engine) s.catalogRoot)).2 = t
    dsimp only
    split
    · exact Or.inl ⟨_, rfl⟩
    · exact Or.inr rfl

/-- The saved file is there, and everything else is what it was. -/
structure Session.Streamed (s t : Session) (inode : Nat) : Prop where
  file : t.pool.files inode = s.savedFile
  wal : t.pool.wal = s.pool.wal
  canOpen : t.canOpen = s.canOpen
  memory : t.memory = s.memory
  logs : t.logs = s.logs
  walDatabase : t.walDatabase = s.walDatabase
  openPath : t.openPath = s.openPath

/-- A save that has written its file has changed nothing else. -/
theorem streamed_leaves (s : Session) : s.Streamed s.streamed s.catalogued.nextInode := by
  have hsame := catalogued_poolOnly s
  have hfile : s.streamed.pool.files s.catalogued.nextInode = s.savedFile := by
    unfold Session.savedFile Session.streamed
    generalize s.catalogued = c
    have hcount : (poolWriteAll c.pool).2.pageCount = c.pool.pageCount := writePages_pageCount _
    generalize poolWriteAll c.pool = r at hcount ⊢
    simp [writeFile, Pool.setFile, hcount]
  refine ⟨hfile, ?_, ?_, ?_, ?_, ?_, ?_⟩ <;> unfold Session.streamed
  all_goals
    generalize s.catalogued = c at hsame ⊢
    have hall : c.pool.WritesBack (poolWriteAll c.pool).2 := writePages_writesBack _ _ _
    generalize poolWriteAll c.pool = r at hall ⊢
  · exact hall.wal.trans hsame.pool.wal
  · exact hsame.canOpen
  · exact hsame.memory
  · exact hsame.logs
  · exact hsame.walDatabase
  · exact hsame.openPath

/-- A header that is written is one of this version. -/
theorem currentHead_headerPage (pages : Nat) (root : UInt32) :
    CurrentHead (headerPage pages root) := by
  unfold CurrentHead
  refine ⟨?_, (pageHead_headerPage pages root).2⟩
  unfold headerPage
  rw [List.length_append, List.length_replicate]
  have hpage : PAGE_SIZE = 8192 := rfl
  omega

/-- What a crash leaves where the saved file has its name: the file is found under it. -/
theorem savedFile_finds {s t : Session} (h : s.Backed) {path : Path}
    (hcan : s.canOpen path = true) (hsame : t.canOpen = s.canOpen) {inode : Nat}
    (hname : t.names path = some inode) (hfile : t.pool.files inode = s.savedFile) :
    (afterCrash t).Finds path inode := by
  refine ⟨?_, ?_, ?_, by simp [afterCrash, startPool]⟩
  · rintro rfl
    exact absurd (hcan.symm.trans h.noName) (by simp)
  · show (if t.canOpen path then t.names path else none) = _
    rw [hsame, hcan, hname]
    rfl
  · show CurrentHead (t.pool.files inode).head
    rw [hfile]
    exact currentHead_headerPage _ _

/-- What the rename of a save changes. -/
theorem renamed_eq (path : Path) (s : Session) :
    s.renamed path = { s.streamed with
      names := fun other => if other = path then some s.catalogued.nextInode
        else s.streamed.names other } := by
  unfold Session.renamed Session.streamed
  generalize s.catalogued = c
  rfl

/-- Behind the rename the saved file is opened with the old log of the name. -/
theorem renamed_opening {s : Session} (h : s.Backed) {path : Path} (hcan : s.canOpen path = true) :
    opening path (afterCrash (s.renamed path)) = s.savedUnderLog path := by
  have hleft := streamed_leaves s
  rw [renamed_eq]
  generalize s.streamed = u at hleft ⊢
  generalize s.catalogued.nextInode = inode at hleft ⊢
  have hfinds := savedFile_finds (t := { u with
    names := fun other => if other = path then some inode else u.names other })
    h hcan hleft.canOpen (if_pos rfl) hleft.file
  rw [opening_current hfinds]
  unfold Session.savedUnderLog afterCrash
  dsimp only
  rw [hleft.file, hleft.memory, hleft.wal, hleft.logs, hleft.walDatabase]

/-- The log that a save leaves under its name is empty, when the name is not the open log's in
other letters. -/
theorem walDiscard_crash (path : Path) (v : Session)
    (hknown : walIsOpen v = true → sameText v.walDatabase path = true → v.walDatabase = path) :
    committedFrames (((afterCrash (walDiscard path v)).logs path).getD []) = [] := by
  have hlogs : ((afterCrash (walDiscard path v)).logs path).getD [] = [] := by
    unfold walDiscard
    cases hwal : v.pool.wal with
    | none =>
      have hclosed : walIsOpen v = false := by rw [walIsOpen, hwal]; rfl
      simp [hclosed, afterCrash, hwal]
    | some log =>
      have hopen : walIsOpen v = true := by rw [walIsOpen, hwal]; rfl
      cases hsame : sameText v.walDatabase path with
      | true =>
        have hpath := hknown hopen hsame
        simp [hopen, afterCrash, walTruncate_eq, hwal, hpath]
      | false =>
        have hne : path ≠ v.walDatabase := by
          rintro rfl
          rw [sameText_refl] at hsame
          exact absurd hsame (by simp)
        simp [hopen, afterCrash, hwal, hne]
  rw [hlogs]
  rfl

/-- To put a file in place changes neither what can be opened nor the memory. -/
theorem moveInPlace_around (path : Path) (inode : Nat) (u : Session) :
    (moveInPlace path inode u).canOpen = u.canOpen ∧
      (moveInPlace path inode u).memory = u.memory := by
  obtain ⟨v, heq, -, -, hcan, hmemory⟩ := moveInPlace_discards path inode u
  rw [heq, ← hcan, ← hmemory]
  unfold walDiscard
  split <;> exact ⟨rfl, rfl⟩

/-- After the save the saved file is opened alone. -/
theorem saved_opening {s : Session} (h : s.Backed) {path : Path} (hcan : s.canOpen path = true)
    (hknows : walIsOpen s = true → s.KnowsName path) (hok : (saveDatabase path s).1 = .ok ()) :
    opening path (afterCrash (saveDatabase path s).2) = s.savedFile.holding s.memory := by
  have hfile : (saveDatabase path s).2.fileAt path = some s.savedFile :=
    saveDatabase_file (Prod.ext hok rfl)
  have hleft := streamed_leaves s
  have hdone : (saveDatabase path s).2 = moveInPlace path s.catalogued.nextInode s.streamed := by
    rcases saveDatabase_cases path s with ⟨code, hfails⟩ | hdone
    · rw [hfails] at hok
      exact absurd hok (by simp)
    · rw [hdone]
  rw [hdone] at hfile ⊢
  generalize s.streamed = u at hleft hfile ⊢
  have hknown : walIsOpen u = true → sameText u.walDatabase path = true → u.walDatabase = path := by
    rw [walIsOpen, hleft.wal, hleft.walDatabase]
    intro hopen hsame
    have hpath := (h.attached hopen).openPath
    rcases hknows hopen with hown | hother
    · exact hpath.symm.trans hown
    · rw [hpath, hsame] at hother
      exact absurd hother (by simp)
  have hlog : committedFrames (((afterCrash (moveInPlace path s.catalogued.nextInode u)).logs
      path).getD []) = [] := by
    obtain ⟨v, heq, hwal, hdatabase, -⟩ := moveInPlace_discards path s.catalogued.nextInode u
    rw [heq]
    refine walDiscard_crash path v ?_
    rw [walIsOpen, hwal, hdatabase]
    exact hknown
  obtain ⟨hcanOpen, hmemory⟩ := moveInPlace_around path s.catalogued.nextInode u
  generalize moveInPlace path s.catalogued.nextInode u = v at hfile hlog hcanOpen hmemory ⊢
  obtain ⟨inode, hname, hbytes⟩ := Option.map_eq_some_iff.mp hfile
  have hfinds := savedFile_finds h hcan (hcanOpen.trans hleft.canOpen) hname hbytes
  rw [opening_current hfinds, hlog]
  show (replayFrames (v.pool.files inode) []).holding v.memory = _
  rw [hbytes, hmemory, hleft.memory]
  rfl

/-! ### The claim for one save, and for every run -/

/-- A save of a backed session is atomic exactly when the old log of the name is harmless. -/
theorem save_atomic_iff {s : Session} (h : s.Backed) (path : Path)
    (hknows : walIsOpen s = true → s.KnowsName path) :
    s.SavesAtomically path ↔ s.LogHarmless path := by
  have hcatalogued := catalogued_poolOnly s
  cases hcan : s.canOpen path with
  | false =>
    -- nothing is opened, before the save or after it
    have hnothing : ∀ t : Session, t.canOpen = s.canOpen → opening path (afterCrash t) = none := by
      intro t ht
      refine opening_unopened ?_
      show (if t.canOpen path then t.names path else none) = none
      rw [ht, hcan]
      rfl
    refine ⟨fun _ => Or.inr (Or.inl hcan), fun _ t ht => Or.inl ?_⟩
    rw [hnothing s rfl]
    cases ht with
    | cataloguing n => exact hnothing _ (pages_poolOnly s _).canOpen
    | streaming n => exact hnothing _ hcatalogued.canOpen
    | renamed hok =>
      rw [renamed_eq]
      exact hnothing _ (streamed_leaves s).canOpen
    | done =>
      rcases saveDatabase_cases path s with ⟨code, hfails⟩ | hdone
      · rw [hfails]
        exact hnothing _ hcatalogued.canOpen
      · rw [hdone]
        exact hnothing _ ((moveInPlace_around path _ _).1.trans (streamed_leaves s).canOpen)
  | true =>
    constructor
    · intro hatomic
      unfold Session.LogHarmless
      by_cases hok : (saveDatabase path s).1 = .ok ()
      · refine Or.inr (Or.inr ?_)
        rw [← renamed_opening h hcan]
        rcases hatomic _ (.renamed hok) with hold | ⟨-, hnew⟩
        · exact Or.inr hold
        · exact Or.inl hnew
      · exact Or.inl hok
    · intro hharmless t ht
      cases ht with
      | cataloguing n =>
        have hpages := pages_poolOnly s
          (firstAccesses n (writeCatalogChain (saveCatalog s.engine) s.catalogRoot))
        exact Or.inl (h.opening_early path hpages.pool ⟨hpages.names, hpages.canOpen,
          hpages.memory, hpages.logs, hpages.walDatabase⟩)
      | streaming n =>
        exact Or.inl (h.opening_early path
          (hcatalogued.pool.trans (writePages_writesBack n 0 s.catalogued.pool))
          ⟨hcatalogued.names, hcatalogued.canOpen, hcatalogued.memory, hcatalogued.logs,
            hcatalogued.walDatabase⟩)
      | renamed hok =>
        rw [renamed_opening h hcan]
        rcases hharmless with hfails | hclosed | hnew | hold
        · exact absurd hok hfails
        · rw [hcan] at hclosed
          exact absurd hclosed (by simp)
        · exact Or.inr ⟨hok, hnew⟩
        · exact Or.inl hold
      | done =>
        rcases saveDatabase_cases path s with ⟨code, hfails⟩ | hdone
        · rw [hfails]
          exact Or.inl (h.opening_early path hcatalogued.pool ⟨hcatalogued.names,
            hcatalogued.canOpen, hcatalogued.memory, hcatalogued.logs, hcatalogued.walDatabase⟩)
        · have hok : (saveDatabase path s).1 = .ok () := by rw [hdone]
          exact Or.inr ⟨hok, saved_opening h hcan hknows hok⟩

/-- A process on a disk, after it has opened the database on its command line, if there is
one. -/
def Session.opened (first : Option Path) (s : Session) : Session :=
  match first with
  | none => s
  | some path => openSession path s

/-- The log that belongs to a path, as a crash would leave it. -/
def Session.logOf (s : Session) (path : Path) : List (LogFrame Bytes) :=
  ((afterCrash s).logs path).getD []

/-- The log that belongs to the path of a save holds no committed frame, or the save opens nothing:
not its temporary file, or not even the path. -/
def SessionOp.Unlogged (s : Session) : SessionOp → Prop
  | .save path => committedFrames (s.logOf path) = [] ∨ s.canOpen path = false ∨
      LINE_LEN ≤ (tempPath path).length ∨ s.canOpen (tempPath path) = false
  | _ => True

/-- A save is atomic. -/
def SessionOp.Atomic (s : Session) : SessionOp → Prop
  | .save path => s.SavesAtomically path
  | _ => True

/-- A save that cannot open its temporary file fails. -/
theorem saveDatabase_unopened {s : Session} {path : Path}
    (h : LINE_LEN ≤ (tempPath path).length ∨ s.canOpen (tempPath path) = false) :
    (saveDatabase path s).1 ≠ .ok () := by
  have hcan : (s.pages (writeCatalogChain (saveCatalog s.engine) s.catalogRoot)).2.canOpen =
      s.canOpen := (pages_poolOnly s _).canOpen
  unfold saveDatabase andThen
  cases (s.pages (writeCatalogChain (saveCatalog s.engine) s.catalogRoot)).1 with
  | error code => exact fun h => absurd h (by simp)
  | ok root =>
    dsimp only
    rw [if_pos (h.imp_right fun hclosed => by rw [hcan, hclosed]; rfl)]
    exact fun h => absurd h (by simp)

/-- In such a log there is nothing to replay. -/
theorem SessionOp.Unlogged.harmless {s : Session} {path : Path}
    (h : SessionOp.Unlogged s (.save path)) : s.LogHarmless path := by
  rcases h with hnone | hclosed | hunopened
  · refine Or.inr (Or.inr (Or.inl ?_))
    unfold Session.savedUnderLog
    rw [show committedFrames (((afterCrash s).logs path).getD []) = [] from hnone]
    rfl
  · exact Or.inr (Or.inl hclosed)
  · exact Or.inl (saveDatabase_unopened hunopened)

/-- What a crash leaves of a backed session is a disk to start on. -/
theorem Session.Backed.starts {s : Session} (h : s.Backed) : (afterCrash s).Starts :=
  ⟨rfl, rfl, h.distinct, h.below, h.noName⟩

/-! ### A mixture -/

/-- A disk without files. No file has an empty name. -/
def emptyDisk : Session := { startSession with canOpen := fun path => !path.isEmpty }

/-- A session can start on the empty disk. -/
theorem emptyDisk_starts : emptyDisk.Starts :=
  ⟨rfl, rfl, fun _ _ _ h => absurd h (by simp [emptyDisk, startSession]),
    fun _ _ h => absurd h (by simp [emptyDisk, startSession]), rfl⟩

/-- A table with a row, in a file whose session is killed. -/
def firstKilled : Session :=
  run sessionStep (openSession somePath emptyDisk)
    [.statement createPair, .statement (insertPair [1] [2])]

/-- The next session has added a table, which is in its log, and is killed. -/
def secondKilled : Session :=
  run sessionStep (openSession somePath (afterCrash firstKilled)) [.statement createOther]

/-- A third one, with the first table and another row in a file of its own. -/
def savingSession : Session :=
  run sessionStep ((afterCrash secondKilled).opened (some [101]))
    [.statement createPair, .statement (insertPair [5] [6])]

/-- A session can start after the second save was killed. -/
theorem secondKilled_starts : (afterCrash secondKilled).Starts := by
  have hfirst : firstKilled.Backed :=
    backed_run (openSession_backed emptyDisk_starts somePath) ⟨trivial, trivial, trivial⟩
  have hsecond : secondKilled.Backed :=
    backed_run (openSession_backed hfirst.starts somePath) ⟨trivial, trivial⟩
  exact hsecond.starts

/-- Another session has opened the first file and is killed: its log has no frames. -/
def emptiedLog : Session := afterCrash (openSession somePath (afterCrash firstKilled))

/-- A session can start with an emptied log. -/
theorem emptiedLog_starts : emptiedLog.Starts := by
  have hfirst : firstKilled.Backed :=
    backed_run (openSession_backed emptyDisk_starts somePath) ⟨trivial, trivial, trivial⟩
  exact (openSession_backed hfirst.starts somePath).starts

/-- How many tables there are, and a byte of the row. -/
def Holding.glance (h : Holding) : Nat × Option UInt8 :=
  ((h.databases.map fun db => db.tables.length).sum, (h.visible 1).map fun b => b 8178)

end DatabaseEngine
