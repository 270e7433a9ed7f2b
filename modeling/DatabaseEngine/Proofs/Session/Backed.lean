import DatabaseEngine.Model.Directory
import DatabaseEngine.Proofs.Pool.WriteBack
import DatabaseEngine.Proofs.Session.Reload

/-!
# `DatabaseEngine.Proofs.Session.Backed`: the log stands behind what reaches the file early

`Session.Backed` is the invariant of a run: a page that the pool may write into its file before
a checkpoint is in the committed frames of the open log, and that log belongs to the file that
the pool writes.

* `poolCommit_logs`: after a commit every changed page that is logged is in committed frames.
* `Backed.loadDatabase`, `Backed.saveDatabase`, `processStatement_backed`: loads, saves and
  statements keep it, a save unless it goes to the session's own name in other letters.
* `backed_run`: every session of a run is backed.
-/

set_option autoImplicit false

namespace DatabaseEngine

open Library

/-! ### What a commit logs -/

/-- A log that ends with a marker is committed to its end. -/
theorem committedFrames_eq {log : List (LogFrame Bytes)} {last : LogFrame Bytes}
    (h : log.getLast? = some last) (hcommit : last.commit = true) : committedFrames log = log := by
  unfold committedFrames
  have hhead : log.reverse.head? = some last := by rw [List.head?_reverse, h]
  cases hrev : log.reverse with
  | nil => rw [hrev] at hhead; exact absurd hhead (by simp)
  | cons frame rest =>
    rw [hrev] at hhead
    obtain rfl : frame = last := Option.some.inj hhead
    rw [List.dropWhile_cons_of_neg (by simp [hcommit]), ← hrev, List.reverse_reverse]

/-- What is committed is in the log. -/
theorem committedFrames_subset {log : List (LogFrame Bytes)} {frame : LogFrame Bytes}
    (h : frame ∈ committedFrames log) : frame ∈ log := by
  have hin := List.mem_reverse.mp h
  exact List.mem_reverse.mp ((List.dropWhile_suffix _).subset hin)

/-- Every page that the pool may write early is in the committed frames of the open log. -/
def Pool.Covered (p : Pool Bytes) : Prop :=
  ∀ id, p.Logs id → ∃ log, p.wal = some log ∧ ∃ frame ∈ committedFrames log, frame.pageId = id

/-- A pool that wrote pages back has no page in the log that is in no frame. -/
theorem Pool.WritesBack.covered {p q : Pool Bytes} (h : p.WritesBack q) (hp : p.Covered) :
    q.Covered := by
  intro id hid
  rw [h.wal]
  exact hp id (h.logs id hid)

/-- After a commit every changed page that is logged is in committed frames. -/
theorem poolCommit_logs {p : Pool Bytes} (h : p.Covered) : (poolCommit p).Covered := by
  unfold poolCommit
  cases hwal : p.wal with
  | none => exact h
  | some log =>
    dsimp only
    split
    · exact h
    · rename_i hwritten
      generalize hframes : commitFrames p.pageCount p.catalogRootPage p.frames = written at hwritten
      have hcommitted : committedFrames (log ++ written) = log ++ written := by
        cases hlast : written.getLast? with
        | none => exact absurd (List.getLast?_eq_none_iff.mp hlast) (by simpa using hwritten)
        | some last =>
          refine committedFrames_eq ?_
            (commitFrames_last p.pageCount p.catalogRootPage p.frames (hframes ▸ hlast))
          rw [List.getLast?_append, hlast]
          rfl
      rintro id ⟨g, hg, hid, hdirty, -⟩
      refine ⟨log ++ written, rfl, ?_⟩
      rw [hcommitted]
      obtain ⟨f, hf, rfl⟩ := List.mem_map.mp hg
      -- the frame was logged before, or it went out now
      have hfid : f.pageId = some id := by
        revert hid
        split <;> split <;> exact fun h => h
      have hfdirty : f.dirty = true := by
        revert hdirty
        split <;> split <;> exact fun h => h
      cases hlogged : f.logged with
      | true =>
        obtain ⟨log', hlog', frame, hframe, hpage⟩ := h id ⟨f, hf, hfid, hfdirty, hlogged⟩
        obtain rfl : log = log' := Option.some.inj (hwal.symm.trans hlog')
        exact ⟨frame, List.mem_append_left _ (committedFrames_subset hframe), hpage⟩
      | false =>
        obtain ⟨frame, hframe, hpage⟩ := commitFrames_mem p.pageCount p.catalogRootPage hf
          (by simp [Frame.unlogged, hfid, hfdirty, hlogged]) hfid
        exact ⟨frame, List.mem_append_right _ (hframes ▸ hframe), hpage⟩

/-- A pool with nothing in the log has no page in it that is in no frame. -/
theorem Pool.covered_of_unlogged {p : Pool Bytes} (h : ∀ id, ¬p.Logs id) : p.Covered :=
  fun id hid => absurd hid (h id)

/-- After a checkpoint no page is in the log alone. -/
theorem Pool.Checkpointed.unlogged {h : Nat} {p q : Pool Bytes} (hdone : p.Checkpointed h q)
    (id : Nat) : ¬q.Logs id := by
  rintro ⟨f, hf, hid, hdirty, -⟩
  obtain ⟨i, hi⟩ := List.mem_iff_getElem?.mp hf
  rw [hdone.clean i f hi (by simp [hid])] at hdirty
  exact absurd hdirty (by simp)

/-- A checkpoint needs a file that the pool may write. -/
theorem poolCheckpoint_cases (p : Pool Bytes) :
    (∃ inode, p.pageFile = some inode ∧ p.writable = true ∧
      p.Checkpointed inode (poolCheckpoint p)) ∨
    (poolCheckpoint p = p ∧ ∀ inode, p.pageFile = some inode → ¬p.writable = true) := by
  cases hwritable : p.writable with
  | false => exact Or.inr ⟨by simp only [poolCheckpoint, hwritable], by simp⟩
  | true =>
    cases hfile : p.pageFile with
    | none => exact Or.inr ⟨by simp only [poolCheckpoint, hwritable, hfile], by simp⟩
    | some inode => exact Or.inl ⟨inode, rfl, rfl, poolCheckpoint_checkpointed hfile hwritable⟩

/-! ### The invariant -/

/-- The head of a page file of this build, as `isPageFile` tests it. -/
def PageHead (head : List UInt8) : Prop :=
  12 ≤ head.length ∧ head.take 12 = SAVE_MAGIC ++ putU32 SAVE_VERSION

instance (head : List UInt8) : Decidable (PageHead head) :=
  inferInstanceAs (Decidable (_ ∧ _))

/-- To write its fields keeps the head of a paged file. -/
theorem PageHead.overwrite {head fields : List UInt8} (h : PageHead head) :
    PageHead (overwrite head 12 fields) := by
  have htake : (head.take 12).length = 12 := by rw [List.length_take]; have := h.1; omega
  unfold DatabaseEngine.overwrite
  constructor
  · simp only [List.length_append, htake]
    omega
  · rw [List.append_assoc, List.append_assoc, List.take_append_of_le_length (by omega),
      List.take_take, h.2.symm]
    simp

/-- A header that is written is the head of a paged file. -/
theorem pageHead_headerPage (pages : Nat) (root : UInt32) : PageHead (headerPage pages root) := by
  constructor
  · simp [headerPage, SAVE_MAGIC, putU32]
  · unfold headerPage
    simp only [List.append_assoc]
    rw [← List.append_assoc SAVE_MAGIC, List.take_append_of_le_length (by decide)]
    rfl

/-- A file is recognised by its head. -/
theorem isPageFile_iff {path : Path} {inode : Nat} {s : Session}
    (h : s.openFile path = some inode) :
    isPageFile path s = true ↔ PageHead (s.pool.files inode).head := by
  unfold isPageFile PageHead
  simp only [h]
  generalize (s.pool.files inode).head = head
  have hsplit : head.take 12 = head.take MAGIC_LENGTH ++ (head.drop 8).take 4 := by
    rw [show (12 : Nat) = MAGIC_LENGTH + 4 from rfl, List.take_add]
    rfl
  simp only [Bool.and_eq_true, decide_eq_true_eq, beq_iff_eq]
  constructor
  · rintro ⟨⟨hlong, hmagic⟩, hversion⟩
    exact ⟨hlong, by rw [hsplit, hmagic, hversion]⟩
  · rintro ⟨hlong, htake⟩
    rw [hsplit] at htake
    have hparts := List.append_inj htake (by simp [SAVE_MAGIC, MAGIC_LENGTH]; omega)
    exact ⟨⟨hlong, hparts.1⟩, hparts.2⟩

/-- The open log belongs to the file that the pool writes. -/
structure Session.Attached (s : Session) : Prop where
  openPath : s.openPath = s.walDatabase
  writable : s.pool.writable = true
  file : ∃ inode, s.pool.pageFile = some inode ∧ s.openFile s.walDatabase = some inode ∧
    PageHead (s.pool.files inode).head

/-- What reaches a file early, the log of that file covers. -/
structure Session.Backed (s : Session) : Prop where
  covered : s.pool.Covered
  attached : walIsOpen s = true → s.Attached
  distinct : ∀ a b i, s.names a = some i → s.names b = some i → a = b
  below : ∀ a i, s.names a = some i → i < s.nextInode
  noName : s.canOpen [] = false

namespace Session.Backed

variable {s t : Session}

/-- A backed session without a log has no logged change. -/
theorem unlogged (h : s.Backed) (hwal : walIsOpen s = false) (id : Nat) : ¬s.pool.Logs id := by
  intro hid
  obtain ⟨log, hlog, -⟩ := h.covered id hid
  rw [walIsOpen, hlog] at hwal
  exact absurd hwal (by simp)

/-- Changes in memory, and pages written early. -/
theorem writesBack (h : s.Backed) (hpool : s.pool.WritesBack t.pool)
    (hnames : t.names = s.names ∧ t.nextInode = s.nextInode ∧ t.canOpen = s.canOpen)
    (hpaths : t.openPath = s.openPath ∧ t.walDatabase = s.walDatabase) : t.Backed := by
  obtain ⟨hnames, hinode, hopen⟩ := hnames
  refine ⟨hpool.covered h.covered, fun hwal => ?_, hnames ▸ h.distinct, ?_, hopen ▸ h.noName⟩
  · have hattached := h.attached (by rw [walIsOpen, hpool.wal] at hwal; exact hwal)
    obtain ⟨inode, hfile, hopens, hhead⟩ := hattached.file
    refine ⟨?_, hpool.writable.trans hattached.writable, inode, hpool.pageFile.trans hfile, ?_, ?_⟩
    · rw [hpaths.1, hpaths.2, hattached.openPath]
    · rw [hpaths.2, ← hopens]
      unfold Session.openFile
      rw [hopen, hnames]
    · obtain ⟨writes, -, heq⟩ := hpool.file inode hfile
      rw [heq, DbFile.withPages_head]
      exact hhead
  · rw [hnames, hinode]
    exact h.below

/-- A step on the engine keeps the session backed. -/
theorem engineStep {α : Type} (h : s.Backed) (x : Step Engine α) : (s.engineStep x).2.Backed :=
  h.writesBack ((writesBack_client s.pool).onPool _ (.refl s.pool)) ⟨rfl, rfl, rfl⟩ ⟨rfl, rfl⟩

/-- A page program keeps the session backed. -/
theorem pages {α : Type} (h : s.Backed) (x : PageM Bytes α) : (s.pages x).2.Backed :=
  h.writesBack ((writesBack_client s.pool).onPool _ (.refl s.pool)) ⟨rfl, rfl, rfl⟩ ⟨rfl, rfl⟩

/-- Another pool, without a logged change, over the same attached file. -/
theorem setPool (h : s.Backed) {q : Pool Bytes} (hcovered : q.Covered)
    (hattached : s.Attached → q.writable = s.pool.writable ∧ q.pageFile = s.pool.pageFile ∧
      ∀ inode, PageHead (s.pool.files inode).head → PageHead (q.files inode).head)
    (hwal : q.wal.isSome → s.pool.wal.isSome) : { s with pool := q }.Backed := by
  refine ⟨hcovered, fun hopen => ?_, h.distinct, h.below, h.noName⟩
  have hs := h.attached (hwal hopen)
  obtain ⟨hwritable, hfile, hheads⟩ := hattached hs
  obtain ⟨inode, hpage, hopens, hhead⟩ := hs.file
  exact ⟨hs.openPath, hwritable.trans hs.writable, inode, hfile.trans hpage, hopens,
    hheads inode hhead⟩

/-- A checkpoint leaves nothing changed. -/
theorem checkpoint (h : s.Backed) : { s with pool := poolCheckpoint s.pool }.Backed := by
  rcases poolCheckpoint_cases s.pool with ⟨inode, hfile, hwritable, hdone⟩ | ⟨hsame, -⟩
  · refine h.setPool (Pool.covered_of_unlogged hdone.unlogged) (fun _ => ⟨hdone.writable.trans hwritable.symm,
      hdone.pageFile.trans hfile.symm, fun k hk => ?_⟩) (fun hwal => ?_)
    · by_cases hk' : k = inode
      · subst hk'
        rw [hdone.head]
        exact hk.overwrite
      · rw [hdone.otherFiles k hk']
        exact hk
    · rw [hdone.wal] at hwal
      simpa using hwal
  · rw [hsame]
    exact h

/-- A commit of the pool keeps the session backed. -/
theorem commit (h : s.Backed) : { s with pool := poolCommit s.pool }.Backed := by
  have hkept : (poolCommit s.pool).writable = s.pool.writable ∧
      (poolCommit s.pool).pageFile = s.pool.pageFile ∧ (poolCommit s.pool).files = s.pool.files ∧
      ((poolCommit s.pool).wal.isSome → s.pool.wal.isSome) := by
    unfold poolCommit
    split
    · exact ⟨rfl, rfl, rfl, id⟩
    · rename_i log hwal
      dsimp only
      split
      · exact ⟨rfl, rfl, rfl, id⟩
      · exact ⟨rfl, rfl, rfl, fun _ => by rw [hwal]; rfl⟩
  obtain ⟨hwritable, hfile, hfiles, hwal⟩ := hkept
  refine h.setPool (poolCommit_logs h.covered) (fun _ => ⟨hwritable, hfile, fun inode hhead => ?_⟩)
    hwal
  rw [hfiles]
  exact hhead

/-- A rollback forgets every change. -/
theorem rollback (h : s.Backed) (pages : Nat) :
    { s with pool := poolRollback pages s.pool }.Backed := by
  refine h.setPool (Pool.covered_of_unlogged fun id hlogs => ?_)
    (fun _ => ⟨rfl, rfl, fun _ hhead => hhead⟩) id
  obtain ⟨f, hf, hid, hdirty, -⟩ := hlogs
  obtain ⟨g, -, rfl⟩ := List.mem_map.mp hf
  split at hid
  · exact absurd hid (by simp [Frame.cleared])
  · rename_i hchanged
    simp only [hid, Option.isSome_some, Bool.true_and] at hchanged
    split at hdirty
    · exact absurd hdirty (by simp [Frame.cleared])
    · exact hchanged hdirty

/-- A close keeps the session backed, and no log is open after it. -/
theorem closeDatabase (h : s.Backed) :
    (closeDatabase s).Backed ∧ walIsOpen (closeDatabase s) = false := by
  refine ⟨⟨?_, fun hopen => absurd hopen (by simp [walIsOpen, DatabaseEngine.closeDatabase,
    walClose]), h.distinct, h.below, h.noName⟩, rfl⟩
  have hnothing : ∀ id, ¬(poolCheckpoint s.pool).Logs id := by
    rcases poolCheckpoint_cases s.pool with ⟨inode, -, -, hdone⟩ | ⟨hsame, hunable⟩
    · exact hdone.unlogged
    · rw [hsame]
      refine h.unlogged ?_
      cases hopen : walIsOpen s with
      | false => rfl
      | true =>
        obtain ⟨inode, hfile, -⟩ := (h.attached hopen).file
        exact absurd (h.attached hopen).writable (hunable inode hfile)
  exact fun id hid => absurd hid (hnothing id)

end Session.Backed

/-! ### Loads -/

/-- The session `t` is `s` without a log and without a logged change, over the same files. -/
structure Session.Unplugged (s t : Session) : Prop where
  unlogged : ∀ id, ¬t.pool.Logs id
  closed : walIsOpen t = false
  names : t.names = s.names
  nextInode : t.nextInode = s.nextInode
  canOpen : t.canOpen = s.canOpen
  heads : ∀ inode, PageHead (s.pool.files inode).head → PageHead (t.pool.files inode).head

namespace Session.Unplugged

variable {s t u : Session}

/-- Two closes, one behind the other. -/
theorem trans (h : s.Unplugged t) (h' : t.Unplugged u) : s.Unplugged u :=
  ⟨h'.unlogged, h'.closed, h'.names.trans h.names, h'.nextInode.trans h.nextInode,
    h'.canOpen.trans h.canOpen, fun inode hhead => h'.heads inode (h.heads inode hhead)⟩

/-- A session without its file is backed when the one with it was. -/
theorem backed (h : s.Unplugged t) (hs : s.Backed) : t.Backed :=
  ⟨Pool.covered_of_unlogged h.unlogged, fun hopen => absurd (h.closed.symm.trans hopen) (by simp),
    h.names ▸ hs.distinct, by rw [h.names, h.nextInode]; exact hs.below, h.canOpen ▸ hs.noName⟩

/-- The same files are found. -/
theorem openFile (h : s.Unplugged t) (path : Path) : t.openFile path = s.openFile path := by
  unfold Session.openFile
  rw [h.canOpen, h.names]

/-- Page programs write back nothing where nothing is logged. -/
theorem load (s : Session) : LoadKeeps s.Unplugged where
  pages t e x h := by
    have hpool := (writesBack_client t.pool).onPool x (.refl t.pool)
    refine ⟨fun id hid => h.unlogged id (hpool.logs id hid), ?_, h.names, h.nextInode, h.canOpen,
      fun inode hhead => ?_⟩
    · have hclosed := h.closed
      unfold walIsOpen at hclosed ⊢
      rw [← hclosed, ← hpool.wal]
    · have hkept := h.heads inode hhead
      by_cases hfile : t.pool.pageFile = some inode
      · obtain ⟨writes, -, heq⟩ := hpool.file inode hfile
        rw [heq, DbFile.withPages_head]
        exact hkept
      · rw [hpool.others inode hfile]
        exact hkept
  placed _ _ _ h := ⟨h.unlogged, h.closed, h.names, h.nextInode, h.canOpen, h.heads⟩
  engine _ _ h := ⟨h.unlogged, h.closed, h.names, h.nextInode, h.canOpen, h.heads⟩

end Session.Unplugged

namespace Session.Backed

variable {s t : Session}

/-- A load, whatever comes of it, leaves no log open. -/
theorem loadDatabase (h : s.Backed) (path : Path) : s.Unplugged (loadDatabase path s).2 := by
  have hclosed : s.Unplugged (if walIsOpen s then DatabaseEngine.closeDatabase s else s) := by
    cases hwal : walIsOpen s with
    | false =>
      exact ⟨h.unlogged hwal, hwal, rfl, rfl, rfl, fun _ hhead => hhead⟩
    | true =>
      obtain ⟨hback, hoff⟩ := h.closeDatabase
      refine ⟨hback.unlogged hoff, hoff, rfl, rfl, rfl, fun inode hhead => ?_⟩
      show PageHead ((poolCheckpoint s.pool).files inode).head
      rcases poolCheckpoint_cases s.pool with ⟨k, -, -, hdone⟩ | ⟨hsame, -⟩
      · by_cases hk : inode = k
        · subst hk
          rw [hdone.head]
          exact hhead.overwrite
        · rw [hdone.otherFiles inode hk]
          exact hhead
      · rw [hsame]
        exact hhead
  unfold DatabaseEngine.loadDatabase
  dsimp only
  generalize (if walIsOpen s then DatabaseEngine.closeDatabase s else s) = c at hclosed ⊢
  have hnone : ∀ id, ¬(poolInit (poolClear c.pool)).Logs id := by
    rintro id ⟨f, hf, -⟩
    exact absurd hf (by simp [poolInit])
  split
  · exact hclosed
  · split
    · exact hclosed
    · exact hclosed.trans ((Session.Unplugged.load c).loadPages
        ⟨hnone, hclosed.closed, rfl, rfl, rfl, fun _ hhead => hhead⟩
        fun _ _ => ⟨hnone, hclosed.closed, rfl, rfl, rfl, fun _ hhead => hhead⟩)

/-- The log of a page file is opened over a session without one. -/
theorem openForWrite (h : s.Backed) (hwal : walIsOpen s = false) {path : Path} {inode : Nat}
    (hopens : s.openFile path = some inode) (hhead : PageHead (s.pool.files inode).head) :
    (openForWrite path s).2.Backed := by
  unfold DatabaseEngine.openForWrite
  rw [hopens]
  refine ⟨Pool.covered_of_unlogged (h.unlogged hwal), fun _ => ?_, h.distinct, h.below, h.noName⟩
  exact ⟨rfl, rfl, inode, rfl, hopens, hhead⟩

/-- A session that has no log stays backed when it gets one. -/
theorem attachLog (h : s.Backed) (hwal : walIsOpen s = false) (path : Path) (current : Bool) :
    (attachLog path current s).Backed := by
  have hs : { s with usingLog := false }.Backed :=
    h.writesBack (.refl s.pool) ⟨rfl, rfl, rfl⟩ ⟨rfl, rfl⟩
  unfold DatabaseEngine.attachLog
  dsimp only
  split
  · exact hs
  · split
    · exact hs
    · rename_i hpage
      cases hopens : { s with usingLog := false }.openFile path with
      | none => simp only [isPageFile, hopens] at hpage; exact absurd hpage (by simp)
      | some inode =>
        have hhead := (isPageFile_iff hopens).mp (by simpa using hpage)
        have hdone := hs.openForWrite hwal hopens hhead
        unfold DatabaseEngine.openForWrite at hdone ⊢
        rw [hopens] at hdone ⊢
        exact hdone.writesBack (.refl _) ⟨rfl, rfl, rfl⟩ ⟨rfl, rfl⟩

/-- A load keeps the session backed. -/
theorem loadCommand (h : s.Backed) (path : Path) : (loadCommand path s).2.Backed := by
  unfold DatabaseEngine.loadCommand
  refine andThen_leads s.Unplugged (h.loadDatabase path) (fun t ht => ht.backed h)
    fun (_ : Unit) t ht => ?_
  have hnamed : { t with sessionPath := path }.Backed :=
    (ht.backed h).writesBack (.refl t.pool) ⟨rfl, rfl, rfl⟩ ⟨rfl, rfl⟩
  split
  · exact hnamed.attachLog ht.closed path false
  · exact ht.backed h

/-! ### Transactions and statements -/

/-- A rollback keeps the session backed. -/
theorem rollbackTransaction (h : s.Backed) : (rollbackTransaction s).2.Backed := by
  unfold DatabaseEngine.rollbackTransaction
  dsimp only
  split
  · exact h
  · split
    · exact h.writesBack (.refl s.pool) ⟨rfl, rfl, rfl⟩ ⟨rfl, rfl⟩
    · let c : Session :=
        { s with
          schemaChanged := false
          transactionOpen := false
          pool := poolRollback s.transactionPages s.pool }
      have hc : c.Backed :=
        (h.rollback s.transactionPages).writesBack (.refl _) ⟨rfl, rfl, rfl⟩ ⟨rfl, rfl⟩
      refine andThen_leads c.Unplugged (hc.loadDatabase s.openPath) (fun t ht => ht.backed hc)
        fun (_ : Unit) t ht => ?_
      split
      · rename_i hhad
        -- the log that was open belonged to the file that is open again
        obtain ⟨inode, -, hopens, hhead⟩ := (h.attached hhad).file
        have hpath := (h.attached hhad).openPath
        exact (ht.backed hc).openForWrite ht.closed
          ((ht.openFile s.openPath).trans (hpath ▸ hopens)) (ht.heads inode hhead)
      · exact ht.backed hc

/-- A statement that is executed keeps the session backed. -/
theorem executeStatement (h : s.Backed) (statement : Statement) :
    (executeStatement statement s).2.Backed := by
  unfold DatabaseEngine.executeStatement
  refine andThen_keeps Session.Backed (h.engineStep _) fun (_ : Unit) t ht => ?_
  split
  · unfold beginTransaction
    split
    · exact ht
    · exact ht.checkpoint.writesBack (.refl _) ⟨rfl, rfl, rfl⟩ ⟨rfl, rfl⟩
  · unfold commitTransaction
    split
    · exact ht
    · exact ht.writesBack (.refl t.pool) ⟨rfl, rfl, rfl⟩ ⟨rfl, rfl⟩
  · exact ht.rollbackTransaction
  · exact ht.engineStep _

/-- A commit of the database keeps the session backed. -/
theorem commitDatabase (h : s.Backed) : (commitDatabase s).2.Backed := by
  unfold DatabaseEngine.commitDatabase
  split
  · exact h
  · refine andThen_keeps Session.Backed (h.pages _) fun (root : UInt32) t ht => ?_
    have hrooted : { t with pool := poolSetCatalogRoot root t.pool }.Backed :=
      ht.setPool ht.covered (fun _ => ⟨rfl, rfl, fun _ hhead => hhead⟩) id
    exact hrooted.commit.writesBack (.refl _) ⟨rfl, rfl, rfl⟩ ⟨rfl, rfl⟩

end Session.Backed

/-- A statement that is processed keeps the session backed. -/
theorem processStatement_backed {s : Session} (h : s.Backed) (statement : Statement) :
    (processStatement statement s).2.Backed := by
  unfold processStatement
  dsimp only
  split
  · exact h
  · rename_i checked _
    refine andThen_keeps Session.Backed (h.executeStatement checked) fun (_ : Unit) t ht => ?_
    have hchanged : (if changesSchema checked.kind then { t with schemaChanged := true } else t).Backed := by
      split
      · exact ht.writesBack (.refl t.pool) ⟨rfl, rfl, rfl⟩ ⟨rfl, rfl⟩
      · exact ht
    generalize (if changesSchema checked.kind then { t with schemaChanged := true } else t) = u
      at hchanged
    split
    · exact ht
    · split
      · exact hchanged.commitDatabase
      · exact hchanged

/-! ### Saves -/

namespace Session.Backed

variable {s : Session}

/-- A fresh file is written beside the ones that there are. -/
theorem writeFile (h : s.Backed) (pages : List (Page Bytes)) : (writeFile pages s).2.Backed := by
  refine ⟨h.covered, fun hopen => ?_, h.distinct, fun a i hi => ?_, h.noName⟩
  · have hs := h.attached hopen
    obtain ⟨inode, hfile, hopens, hhead⟩ := hs.file
    have hold : inode ≠ s.nextInode := by
      have hname : s.names s.walDatabase = some inode := by
        unfold Session.openFile at hopens
        split at hopens
        · exact hopens
        · exact absurd hopens (by simp)
      exact Nat.ne_of_lt (h.below _ _ hname)
    refine ⟨hs.openPath, hs.writable, inode, hfile, hopens, ?_⟩
    show PageHead (Function.update s.pool.files s.nextInode _ inode).head
    rw [Function.update_of_ne hold]
    exact hhead
  · exact Nat.lt_succ_of_lt (h.below a i hi)

end Session.Backed

/-- A save to the path does not take another file for the session's own: names are compared
without regard to case, and files are found with it. -/
def Session.KnowsName (s : Session) (path : Path) : Prop :=
  s.openPath = path ∨ sameText s.openPath path = false

/-- With a log open a path has one name, and the comparisons find that out. -/
structure Session.Told (s : Session) (replacing ours : Bool) (path : Path) : Prop where
  both : ours = replacing
  own : replacing = true ↔ s.walDatabase = path

/-- The fresh file takes the name, and the pool with it if the name is the session's own. -/
theorem moveAs_backed {s : Session} (h : s.Backed) {replacing ours : Bool} {path : Path}
    {inode : Nat} (hfresh : ∀ a, s.names a ≠ some inode) (hbelow : inode < s.nextInode)
    (hhead : PageHead (s.pool.files inode).head)
    (htold : walIsOpen s = true → s.Told replacing ours path) :
    (moveAs replacing ours path inode s).Backed := by
  let names : Path → Option Nat := fun other => if other = path then some inode else s.names other
  have hdistinct : ∀ a b i, names a = some i → names b = some i → a = b := by
    intro a b i ha hb
    simp only [names] at ha hb
    split at ha <;> split at hb
    · rename_i h₁ h₂; exact h₁.trans h₂.symm
    · obtain rfl := Option.some.inj ha
      exact absurd hb (hfresh b)
    · obtain rfl := Option.some.inj hb
      exact absurd ha (hfresh a)
    · exact h.distinct a b i ha hb
  have hnamed : ∀ a i, names a = some i → i < s.nextInode := by
    intro a i ha
    simp only [names] at ha
    split at ha
    · obtain rfl := Option.some.inj ha
      exact hbelow
    · exact h.below a i ha
  have hclean : ∀ p : Pool Bytes, ∀ id, ¬(poolMarkAllClean p).Logs id := by
    rintro p id ⟨f, hf, -, hdirty, -⟩
    obtain ⟨g, -, rfl⟩ := List.mem_map.mp hf
    exact absurd hdirty (by simp)
  have hdiscard : ∀ t : Session, t.Backed →
      (walIsOpen t = true → ours = true → ∀ id, ¬t.pool.Logs id) →
      (if walIsOpen t && ours then { t with pool := walTruncate t.pool }
        else { t with logs := fun other => if other = path then none else t.logs other }).Backed := by
    intro t ht hunlogged
    split
    · rename_i hown
      obtain ⟨hopen, hsame⟩ := Bool.and_eq_true_iff.mp hown
      rw [walTruncate_eq]
      exact ht.setPool (Pool.covered_of_unlogged (hunlogged hopen hsame))
        (fun _ => ⟨rfl, rfl, fun _ hhead => hhead⟩) (by simp)
    · exact ht.writesBack (.refl t.pool) ⟨rfl, rfl, rfl⟩ ⟨rfl, rfl⟩
  unfold moveAs
  cases replacing with
  | true =>
    -- with a log open the name is the very name of the session's file
    have hown : walIsOpen s = true → s.walDatabase = path ∧ s.canOpen path = true := by
      intro hopen
      have hdatabase : s.walDatabase = path := (htold hopen).own.mp rfl
      obtain ⟨k, -, hopens, -⟩ := (h.attached hopen).file
      refine ⟨hdatabase, ?_⟩
      unfold Session.openFile at hopens
      split at hopens
      · rename_i hcan
        exact hdatabase ▸ hcan
      · exact absurd hopens (by simp)
    simp only [Bool.true_or, if_true]
    refine hdiscard _ ?_ ?_
    · refine ⟨Pool.covered_of_unlogged ?_, fun hopen => ?_, ?_, ?_, ?_⟩
      · intro id
        unfold reopenPageFile
        split
        · exact hclean _ id
        · split <;> exact hclean _ id
      · have hopen' : walIsOpen s = true := by
          revert hopen
          unfold reopenPageFile
          split
          · exact fun hopen => hopen
          · split <;> exact fun hopen => hopen
        obtain ⟨hdatabase, hcan⟩ := hown hopen'
        have hs := h.attached hopen'
        unfold reopenPageFile Session.openFile
        simp only [hcan, if_true, hs.writable]
        refine ⟨hs.openPath, rfl, inode, rfl, ?_, hhead⟩
        unfold Session.openFile
        simp [hdatabase, hcan]
      · unfold reopenPageFile
        split
        · exact hdistinct
        · split <;> exact hdistinct
      · unfold reopenPageFile
        split
        · exact hnamed
        · split <;> exact hnamed
      · unfold reopenPageFile
        split
        · exact h.noName
        · split <;> exact h.noName
    · intro _ _ id
      unfold reopenPageFile
      split
      · exact hclean _ id
      · split <;> exact hclean _ id
  | false =>
    -- with a log open the name is not the name of the session's file
    have hother : walIsOpen s = true → s.walDatabase ≠ path ∧ ours = false := fun hopen =>
      ⟨fun hpath => absurd ((htold hopen).own.mpr hpath) (by simp), (htold hopen).both⟩
    simp only [Bool.false_eq_true, Bool.false_or, if_false]
    have hmoved : ∀ p : Pool Bytes, p.Covered → p.wal = s.pool.wal → p.writable = s.pool.writable →
        p.pageFile = s.pool.pageFile → p.files = s.pool.files →
        { s with names := names, pool := p }.Backed := by
      intro p hcovered hwal hwritable hfile hfiles
      refine ⟨hcovered, fun hopen => ?_, hdistinct, hnamed, h.noName⟩
      have hopen' : walIsOpen s = true := by
        unfold walIsOpen at hopen ⊢
        rw [← hwal]
        exact hopen
      have hs := h.attached hopen'
      obtain ⟨k, hk, hopens, hkhead⟩ := hs.file
      refine ⟨hs.openPath, hwritable.trans hs.writable, k, hfile.trans hk, ?_, ?_⟩
      · rw [← hopens]
        unfold Session.openFile
        simp [names, (hother hopen').1]
      · rw [hfiles]
        exact hkhead
    split
    · refine hdiscard _ (hmoved _ (Pool.covered_of_unlogged (hclean s.pool)) rfl rfl rfl rfl) ?_
      exact fun _ _ id => hclean s.pool id
    · refine hdiscard _ (hmoved _ h.covered rfl rfl rfl rfl) fun hopen hsame => ?_
      exact absurd ((hother hopen).2.symm.trans hsame) (by simp)

/-- A save that compares the paths themselves. -/
theorem moveInPlace_eq (path : Path) (inode : Nat) (s : Session) :
    moveInPlace path inode s =
      moveAs (s.openPath ≠ [] && sameText s.openPath path) (sameText s.walDatabase path) path
        inode s := by
  unfold moveInPlace moveAs walDiscard
  dsimp only
  cases (s.openPath ≠ [] && sameText s.openPath path : Bool) with
  | false =>
    simp only [Bool.false_eq_true, Bool.false_or, if_false]
    split <;> rfl
  | true =>
    simp only [Bool.true_or, if_true]
    unfold reopenPageFile
    split
    · rfl
    · split <;> rfl

/-- What a backed session is told of its own path is right. -/
theorem Session.Backed.told {s : Session} (h : s.Backed) {path : Path} (hopen : walIsOpen s = true)
    (hknows : s.KnowsName path) :
    s.Told (s.openPath ≠ [] && sameText s.openPath path) (sameText s.walDatabase path) path := by
  have hs := h.attached hopen
  have hnonempty : s.walDatabase ≠ [] := by
    intro hnil
    obtain ⟨k, -, hopens, -⟩ := hs.file
    unfold Session.openFile at hopens
    rw [hnil, h.noName] at hopens
    exact absurd hopens (by simp)
  rw [hs.openPath]
  refine ⟨by simp [hnonempty], ?_⟩
  simp only [ne_eq, hnonempty, not_false_eq_true, decide_true, Bool.true_and]
  constructor
  · intro hsame
    rcases hknows with hpath | hother
    · exact hs.openPath.symm.trans hpath
    · rw [hs.openPath, hsame] at hother
      exact absurd hother (by simp)
  · rintro rfl
    exact sameText_refl _

/-- To put a new file in place keeps the session backed. -/
theorem moveInPlace_backed {s : Session} (h : s.Backed) {path : Path} {inode : Nat}
    (hfresh : ∀ a, s.names a ≠ some inode) (hbelow : inode < s.nextInode)
    (hhead : PageHead (s.pool.files inode).head) (hknows : walIsOpen s = true → s.KnowsName path) :
    (moveInPlace path inode s).Backed := by
  rw [moveInPlace_eq]
  exact moveAs_backed h hfresh hbelow hhead fun hopen => h.told hopen (hknows hopen)

/-- A save keeps the session backed. -/
theorem Session.Backed.saveDatabase {s : Session} (h : s.Backed) {path : Path}
    (hknows : walIsOpen s = true → s.KnowsName path) : (saveDatabase path s).2.Backed := by
  unfold DatabaseEngine.saveDatabase
  refine andThen_leads (fun t => t.Backed ∧ t.openPath = s.openPath ∧
      t.pool.wal = s.pool.wal) ?_ (fun t ht => ht.1) fun (root : UInt32) t ht => ?_
  · exact ⟨h.pages _, rfl, ((writesBack_client s.pool).onPool _ (.refl s.pool)).wal⟩
  · obtain ⟨hback, hpath, hwal⟩ := ht
    have hrooted : { t with catalogRoot := root }.Backed :=
      hback.writesBack (.refl t.pool) ⟨rfl, rfl, rfl⟩ ⟨rfl, rfl⟩
    dsimp only
    split
    · exact hrooted
    · have hstreamed := writePages_writesBack t.pool.pageCount 0 t.pool
      have hall : { t with catalogRoot := root, pool := (poolWriteAll t.pool).2 }.Backed :=
        hrooted.writesBack hstreamed ⟨rfl, rfl, rfl⟩ ⟨rfl, rfl⟩
      refine moveInPlace_backed (hall.writeFile (poolWriteAll t.pool).1)
        (fun a ha => ?_) (Nat.lt_succ_self _) ?_ fun hopen => ?_
      · exact Nat.lt_irrefl _ (hback.below a _ ha)
      · have hwritten : ∀ (p : Pool Bytes) (file : DbFile Bytes),
            (p.setFile t.nextInode file).files t.nextInode = file :=
          fun p file => Function.update_self _ _ _
        unfold DatabaseEngine.writeFile
        rw [hwritten]
        exact pageHead_headerPage _ _
      · show t.openPath = path ∨ sameText t.openPath path = false
        rw [hpath]
        refine hknows ?_
        have hsame : (poolWriteAll t.pool).2.wal = s.pool.wal := hstreamed.wal.trans hwal
        unfold walIsOpen
        rw [← hsame]
        exact hopen

/-! ### Runs -/

/-- What a user does with a session. -/
inductive SessionOp
  | statement (statement : Statement)
  | load (path : Path)
  | save (path : Path)

/-- The session after one of them. -/
def sessionStep (s : Session) : SessionOp → Session
  | .statement statement => (processStatement statement s).2
  | .load path => (loadCommand path s).2
  | .save path => (saveCommand path s).2

/-- No save names the session's own file in other letters. -/
def SessionOp.Named (s : Session) : SessionOp → Prop
  | .save path => walIsOpen s = true → s.KnowsName path
  | _ => True

/-- Every step keeps the session backed. -/
theorem sessionStep_backed (s : Session) (op : SessionOp) (h : s.Backed) (hnamed : op.Named s) :
    (sessionStep s op).Backed := by
  cases op with
  | statement statement => exact processStatement_backed h statement
  | load path => exact h.loadCommand path
  | save path => exact h.saveDatabase hnamed

/-- A process that has opened nothing, on whatever disk. -/
structure Session.Starts (s : Session) : Prop where
  frames : s.pool.frames = []
  closed : walIsOpen s = false
  distinct : ∀ a b i, s.names a = some i → s.names b = some i → a = b
  below : ∀ a i, s.names a = some i → i < s.nextInode
  noName : s.canOpen [] = false

/-- A session that starts is backed. -/
theorem Session.Starts.backed {s : Session} (h : s.Starts) : s.Backed := by
  refine ⟨Pool.covered_of_unlogged ?_, fun hopen => absurd (h.closed.symm.trans hopen) (by simp),
    h.distinct, h.below, h.noName⟩
  rintro id ⟨f, hf, -⟩
  rw [h.frames] at hf
  exact absurd hf (by simp)

/-- The last thing is to throw away the log of the name. -/
theorem moveInPlace_discards (path : Path) (inode : Nat) (s : Session) :
    ∃ v, moveInPlace path inode s = walDiscard path v ∧ v.pool.wal = s.pool.wal ∧
      v.walDatabase = s.walDatabase ∧ v.canOpen = s.canOpen ∧ v.memory = s.memory := by
  unfold moveInPlace
  dsimp only
  refine ⟨_, rfl, ?_, ?_, ?_, ?_⟩
  all_goals
    cases (s.openPath ≠ [] && sameText s.openPath path : Bool)
    · simp only [Bool.false_eq_true, if_false]
      split <;> rfl
    · simp only [Bool.true_or, if_true]
      unfold reopenPageFile
      split
      · rfl
      · split <;> rfl

/-- To put a file in place opens and closes no log. -/
theorem moveInPlace_walIsOpen (path : Path) (inode : Nat) (s : Session) :
    walIsOpen (moveInPlace path inode s) = walIsOpen s := by
  obtain ⟨v, heq, hwal, -⟩ := moveInPlace_discards path inode s
  rw [heq, walIsOpen, walIsOpen, ← hwal]
  unfold walDiscard
  split
  · rw [walTruncate_eq]
    simp
  · rfl

/-- Nor does a save. -/
theorem saveDatabase_walIsOpen (path : Path) (s : Session) :
    walIsOpen (saveDatabase path s).2 = walIsOpen s := by
  unfold saveDatabase
  refine andThen_keeps (fun t => walIsOpen t = walIsOpen s) ?_ fun (root : UInt32) t ht => ?_
  · unfold walIsOpen
    rw [← ((writesBack_client s.pool).onPool (writeCatalogChain (saveCatalog s.engine)
      s.catalogRoot) (.refl s.pool)).wal]
    rfl
  · dsimp only
    split
    · exact ht
    · rw [moveInPlace_walIsOpen, ← ht]
      show (poolWriteAll t.pool).2.wal.isSome = t.pool.wal.isSome
      rw [show (poolWriteAll t.pool).2.wal = t.pool.wal from (writePages_writesBack _ _ _).wal]

/-- Replaying a log changes one file and forgets the log. -/
theorem walRecover_starts {s : Session} (h : s.Starts) (path : Path) :
    (walRecover path s).2.Starts := by
  unfold walRecover
  split
  · exact h
  · dsimp only
    split
    · exact ⟨h.frames, h.closed, h.distinct, h.below, h.noName⟩
    · split
      · exact h
      · exact ⟨h.frames, h.closed, h.distinct, h.below, h.noName⟩

/-- A database is opened at startup. -/
theorem openSession_backed {s : Session} (h : s.Starts) (path : Path) :
    (openSession path s).Backed := by
  have hback := (walRecover_starts h path).backed
  have hload := hback.loadDatabase path
  have hattach : ∀ (t : Session) (current : Bool), t.Backed → walIsOpen t = false →
      (attachLog path current { t with sessionPath := path }).Backed := by
    intro t current ht hclosed
    have hnamed : { t with sessionPath := path }.Backed :=
      ht.writesBack (.refl t.pool) ⟨rfl, rfl, rfl⟩ ⟨rfl, rfl⟩
    exact hnamed.attachLog hclosed path current
  unfold openSession
  dsimp only
  generalize loadDatabase path (walRecover path s).2 = loaded at hload ⊢
  obtain ⟨answer, t⟩ := loaded
  have ht : t.Backed := hload.backed hback
  have hclosed : walIsOpen t = false := hload.closed
  split
  · rename_i heq
    obtain ⟨-, rfl⟩ := Prod.mk.inj heq
    exact hattach _ false ht hclosed
  · rename_i heq
    obtain ⟨-, rfl⟩ := Prod.mk.inj heq
    have hsave := @Session.Backed.saveDatabase _ ht path fun hopen =>
      absurd (hclosed.symm.trans hopen) (by simp)
    have hoff := (saveDatabase_walIsOpen path t).trans hclosed
    generalize saveDatabase path t = saved at hsave hoff ⊢
    obtain ⟨answer, u⟩ := saved
    cases answer with
    | error code => exact hsave
    | ok _ => exact hattach _ true hsave hoff
  · rename_i heq
    obtain ⟨-, rfl⟩ := Prod.mk.inj heq
    exact ht

/-- Every session of a run is backed, as long as no save names the session's own file in other
letters. -/
theorem backed_run {s : Session} (h : s.Backed) {ops : List SessionOp}
    (hnamed : StepsMeet sessionStep SessionOp.Named s ops) : (run sessionStep s ops).Backed :=
  StepsMeet.invariant Session.Backed sessionStep_backed h hnamed

end DatabaseEngine
