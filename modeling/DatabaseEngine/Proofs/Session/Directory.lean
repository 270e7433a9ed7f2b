import DatabaseEngine.Model.Directory
import DatabaseEngine.Proofs.Session.Durability

/-!
# `DatabaseEngine.Proofs.Session.Directory`: a session and the names of its files

A session with a log commits into the file that it pages through and into the log that it holds
open. What counts after a crash or an exit is the file and the log of that name.
`Desk.Joined` says that they are the same ones.

* `opening_recovered`: what a name gives is its file with its log replayed.
* `Desk.save_cases`: a save fails early, or moves the streamed file in place.
* `Desk.Joined.save`: a save whose path is spelled like the open file's exactly when it names
  that file, and whose own files are apart from it, keeps the session with its file.
* `Desk.Joined.settled_durable`, `settled_save_durable`: a settled session is found after a crash
  and after an exit, at once and behind such a save.
* `save_stays_joined`: in every run of such saves no statement whose commit succeeded is lost.
* `save_strands_session`: after a save under another spelling of the open file, what is committed
  is gone after a crash, and after an exit.
-/

set_option autoImplicit false

namespace DatabaseEngine

open Library

/-! ### Opening a name -/

/-- A file without a whole header keeps what it has of one. -/
theorem replayFrames_length (file : DbFile Bytes) (frames : List (LogFrame Bytes))
    (h : file.head.length < 24) : (replayFrames file frames).head = file.head := by
  have hpages := foldl_writePage_head
  unfold replayFrames
  dsimp only
  split
  · exact hpages frames file
  · rw [hpages, if_neg (by have : PAGE_SIZE = 8192 := rfl; omega)]
    exact hpages frames file

/-- What a name gives after a crash is its file, with the committed frames of its log. -/
theorem opening_recovered {s : Session} {path : Path} {inode : Nat} (hnamed : path ≠ [])
    (hopens : (afterCrash s).openFile path = some inode)
    (hhead : PageHead (s.pool.files inode).head) :
    opening path (afterCrash s) =
      (replayFrames (s.pool.files inode)
        (committedFrames (((afterCrash s).logs path).getD []))).holding s.memory := by
  by_cases hlong : 24 ≤ (s.pool.files inode).head.length
  · exact opening_current ⟨hnamed, hopens, ⟨hlong, hhead.2⟩, by simp [afterCrash, startPool]⟩
  · -- a file that is cut within its header is refused
    have hshort : (s.pool.files inode).head.length < 24 := by omega
    have hrefused : ∀ head : List UInt8, head.length < 24 →
        readHeader head = .error .IO_BAD_FORMAT := by
      intro head hhead
      unfold readHeader
      rw [if_pos (Or.inl hhead)]
    have hright : (replayFrames (s.pool.files inode)
        (committedFrames (((afterCrash s).logs path).getD []))).holding s.memory = none := by
      unfold DbFile.holding
      rw [hrefused _ (by rw [replayFrames_length _ _ hshort]; exact hshort)]
    rw [hright]
    obtain ⟨files, logs, hrecover, hfile⟩ := walRecover_crash hopens
    have hkept : (files inode).head.length < 24 := by
      rw [hfile]
      unfold DbFile.recovered
      rw [if_pos hhead, replayFrames_length _ _ hshort]
      exact hshort
    unfold opening
    rw [hrecover]
    unfold loadDatabase
    have hfound : ({ afterCrash s with pool := { startPool with files := files }, logs := logs }
        : Session).openFile path = some inode := hopens
    rw [if_neg (by simp [walIsOpen, startPool])]
    simp only [hfound, hrefused _ hkept]

/-! ### One save -/

/-- The log of a session is not among those that are not open. -/
def Session.LogTaken (s : Session) : Prop :=
  walIsOpen s = true → s.logs s.walDatabase = none

/-- What moving a file in place leaves as it was. -/
structure Session.MovedTo (s t : Session) (path : Path) (inode : Nat) : Prop where
  files : t.pool.files = s.pool.files
  openPath : t.openPath = s.openPath
  walDatabase : t.walDatabase = s.walDatabase
  canOpen : t.canOpen = s.canOpen
  memory : t.memory = s.memory
  nextInode : t.nextInode = s.nextInode
  names : t.names = fun other => if other = path then some inode else s.names other
  logs : ∀ other, s.logs other = none → t.logs other = none

/-- The file is in place after the move. -/
theorem moveAs_moved (replacing ours : Bool) (path : Path) (inode : Nat) (s : Session) :
    s.MovedTo (moveAs replacing ours path inode s) path inode := by
  have hdiscard : ∀ t : Session, s.MovedTo t path inode →
      s.MovedTo (if walIsOpen t && ours then { t with pool := walTruncate t.pool }
        else { t with logs := fun other => if other = path then none else t.logs other })
        path inode := by
    intro t ht
    split
    · refine ⟨?_, ht.openPath, ht.walDatabase, ht.canOpen, ht.memory, ht.nextInode, ht.names, ht.logs⟩
      rw [walTruncate_eq]
      exact ht.files
    · refine ⟨ht.files, ht.openPath, ht.walDatabase, ht.canOpen, ht.memory, ht.nextInode, ht.names,
        fun other hother => ?_⟩
      dsimp only
      split
      · rfl
      · exact ht.logs other hother
  unfold moveAs
  cases replacing with
  | true =>
    simp only [Bool.true_or, if_true]
    refine hdiscard _ ?_
    unfold reopenPageFile
    split
    · exact ⟨rfl, rfl, rfl, rfl, rfl, rfl, rfl, fun _ h => h⟩
    · split <;> exact ⟨rfl, rfl, rfl, rfl, rfl, rfl, rfl, fun _ h => h⟩
  | false =>
    simp only [Bool.false_eq_true, Bool.false_or, if_false]
    refine hdiscard _ ?_
    split <;> exact ⟨rfl, rfl, rfl, rfl, rfl, rfl, rfl, fun _ h => h⟩

/-- The open log stays open; it is emptied only as the session's own. -/
theorem moveAs_wal (replacing ours : Bool) (path : Path) (inode : Nat) (s : Session) :
    (moveAs replacing ours path inode s).pool.wal =
      if ours then s.pool.wal.map fun _ => [] else s.pool.wal := by
  have hdiscard : ∀ t : Session, t.pool.wal = s.pool.wal →
      (if walIsOpen t && ours then { t with pool := walTruncate t.pool }
        else { t with logs := fun other => if other = path then none else t.logs other }).pool.wal =
      if ours then s.pool.wal.map fun _ => [] else s.pool.wal := by
    intro t ht
    cases ours with
    | false =>
      rw [Bool.and_false, if_neg (by simp), if_neg (by simp)]
      exact ht
    | true =>
      rw [Bool.and_true, if_pos rfl]
      split
      · rw [walTruncate_eq, ht]
      · rename_i hclosed
        have hnone : s.pool.wal = none := by
          rw [← ht]
          simpa [walIsOpen] using hclosed
        rw [hnone]
        exact ht.trans hnone
  unfold moveAs
  cases replacing with
  | true =>
    simp only [Bool.true_or, if_true]
    refine hdiscard _ ?_
    unfold reopenPageFile
    split
    · rfl
    · split <;> rfl
  | false =>
    simp only [Bool.false_eq_true, Bool.false_or, if_false]
    refine hdiscard _ ?_
    split <;> rfl

/-- A file that takes the session's own name is the one that it pages through. -/
theorem moveAs_own {s : Session} {path : Path} (ours : Bool) (inode : Nat)
    (hcan : s.canOpen path = true) : (moveAs true ours path inode s).pool.pageFile = some inode := by
  unfold moveAs
  simp only [Bool.true_or, if_true]
  unfold reopenPageFile Session.openFile
  simp only [hcan, if_true]
  cases s.pool.writable with
  | false =>
    simp only [Bool.false_eq_true, if_false]
    split
    · rw [walTruncate_eq]
      rfl
    · rfl
  | true =>
    simp only [if_true]
    split
    · rw [walTruncate_eq]
      rfl
    · rfl

/-- The pool that pages through the file that has taken the session's own name. -/
theorem moveAs_own_pool {s : Session} {path : Path} (inode : Nat) (hcan : s.canOpen path = true)
    (hwritable : s.pool.writable = true) (hopen : walIsOpen s = true) :
    (moveAs true true path inode s).pool =
      walTruncate (poolSetChecksums true
        (poolSetWritable inode s.pool.pageCount (poolMarkAllClean (poolDetachFile s.pool)))) := by
  have hdetached : (poolDetachFile s.pool).writable = true := hwritable
  unfold moveAs
  simp only [Bool.true_or, if_true]
  unfold reopenPageFile Session.openFile
  simp only [hcan, if_true, hwritable]
  rw [Bool.and_true]
  split
  · rfl
  · rename_i hclosed
    exact absurd hopen hclosed

/-- A pool that pages through a file that has just been moved in place. -/
theorem reopened_fields {α : Type} [PageBody α] (p : Pool α) (inode count : Nat) :
    let q := walTruncate
      (poolSetChecksums true (poolSetWritable inode count (poolMarkAllClean (poolDetachFile p))))
    q.pageFile = some inode ∧ q.writable = true ∧ q.files = p.files ∧ q.pageCount = count ∧
      q.catalogRootPage = p.catalogRootPage ∧
      ∀ (i : Nat) f, q.frames[i]? = some f → f.pageId.isSome → f.dirty = false := by
  dsimp only
  rw [walTruncate_eq]
  refine ⟨rfl, rfl, rfl, rfl, rfl, fun i f hf _ => ?_⟩
  obtain ⟨g, -, rfl⟩ := List.mem_map.mp (List.mem_of_getElem? hf)
  rfl

/-- A file that takes another name leaves the pool as it is. -/
theorem moveAs_other {s : Session} (path : Path) (inode : Nat) (hwritable : s.pool.writable = true) :
    (moveAs false false path inode s).pool = s.pool := by
  unfold moveAs
  simp [hwritable]

/-- A file that is not the session's own may lose its name. -/
theorem Session.Backed.dropName {s : Session} (h : s.Backed) {path : Path}
    (hother : walIsOpen s = true → path ≠ s.walDatabase) : (dropName path s).Backed := by
  refine ⟨h.covered, fun hopen => ?_, fun a b i ha hb => ?_, fun a i ha => ?_, h.noName⟩
  · have hs := h.attached hopen
    obtain ⟨inode, hfile, hopens, hhead⟩ := hs.file
    refine ⟨hs.openPath, hs.writable, inode, hfile, ?_, hhead⟩
    rw [← hopens]
    unfold Session.openFile DatabaseEngine.dropName
    dsimp only
    rw [if_neg (hother hopen).symm]
  · simp only [DatabaseEngine.dropName] at ha hb
    split at ha
    · exact absurd ha (by simp)
    · split at hb
      · exact absurd hb (by simp)
      · exact h.distinct a b i ha hb
  · simp only [DatabaseEngine.dropName] at ha
    split at ha
    · exact absurd ha (by simp)
    · exact h.below a i ha

/-- Streaming a file takes nothing from a session, and the file has a fresh inode. -/
theorem Session.Backed.streamed {s : Session} (h : s.Backed) :
    s.streamed.Backed ∧ (∀ a, s.streamed.names a ≠ some s.catalogued.nextInode) ∧
      s.catalogued.nextInode < s.streamed.nextInode := by
  have hcatalogued := catalogued_poolOnly s
  have hback : s.catalogued.Backed := h.writesBack hcatalogued.pool
    ⟨hcatalogued.names, hcatalogued.nextInode, hcatalogued.canOpen⟩
    ⟨hcatalogued.openPath, hcatalogued.walDatabase⟩
  unfold Session.streamed
  generalize s.catalogued = c at hback ⊢
  have hall : { c with pool := (poolWriteAll c.pool).2 }.Backed :=
    hback.writesBack (writePages_writesBack c.pool.pageCount 0 c.pool) ⟨rfl, rfl, rfl⟩ ⟨rfl, rfl⟩
  exact ⟨hall.writeFile _, fun a ha => Nat.lt_irrefl _ (hback.below a _ ha), Nat.lt_succ_self _⟩

/-- While a file is streamed, the session's own has logged pages written into it at most. -/
theorem streamed_pool (s : Session) {inode : Nat} (hfile : s.pool.pageFile = some inode)
    (hold : inode ≠ s.catalogued.nextInode) :
    s.streamed.pool.pageFile = some inode ∧ s.streamed.pool.writable = s.pool.writable ∧
      s.streamed.names = s.names ∧
      ∃ writes, (∀ write ∈ writes, s.pool.Logs write.1) ∧
        s.streamed.pool.files inode = (s.pool.files inode).withPages writes := by
  have hsame := catalogued_poolOnly s
  unfold Session.streamed
  generalize s.catalogued = c at hsame hold ⊢
  have hall : c.pool.WritesBack (poolWriteAll c.pool).2 := writePages_writesBack _ _ _
  generalize poolWriteAll c.pool = r at hall ⊢
  have hpool := hsame.pool.trans hall
  obtain ⟨writes, hlogs, hwritten⟩ := hpool.file inode hfile
  refine ⟨hpool.pageFile.trans hfile, hpool.writable, hsame.names, writes, hlogs, ?_⟩
  rw [← hwritten]
  exact Function.update_of_ne hold _ _

/-! ### Statements -/

/-- A log that is open was open before, for the same path. -/
def Session.Continues (s t : Session) : Prop :=
  walIsOpen t = true → walIsOpen s = true ∧ t.openPath = s.openPath ∧
    (s.logs s.walDatabase = none → t.logs t.walDatabase = none)

namespace Session.Continues

variable {s t u : Session}

/-- A session continues itself. -/
theorem refl (s : Session) : s.Continues s := fun hopen => ⟨hopen, rfl, id⟩

/-- A session that is continued twice. -/
theorem trans (h : s.Continues t) (h' : t.Continues u) : s.Continues u := by
  intro hopen
  obtain ⟨ht, hpath', hlogs'⟩ := h' hopen
  obtain ⟨hs, hpath, hlogs⟩ := h ht
  exact ⟨hs, hpath'.trans hpath, fun hnone => hlogs' (hlogs hnone)⟩

/-- Without a log there is nothing to continue. -/
theorem closed (h : walIsOpen t = false) : s.Continues t := fun hopen =>
  absurd (h.symm.trans hopen) (by simp)

/-- A step on the engine continues the session. -/
theorem engineStep {α : Type} (s : Session) (x : Step Engine α) :
    s.Continues (s.engineStep x).2 := by
  intro hopen
  refine ⟨?_, rfl, id⟩
  rw [← hopen]
  unfold walIsOpen
  rw [← ((writesBack_client s.pool).onPool (x s.engine) (.refl s.pool)).wal]
  rfl

/-- A BEGIN continues the session. -/
theorem beginTransaction (s : Session) : s.Continues (beginTransaction s).2 := by
  unfold DatabaseEngine.beginTransaction
  split
  · exact .refl s
  · have hwal : (poolCheckpoint s.pool).wal.isSome = s.pool.wal.isSome := by
      rcases poolCheckpoint_cases s.pool with ⟨inode, -, -, hdone⟩ | ⟨hsame, -⟩
      · rw [hdone.wal]
        simp
      · rw [hsame]
    exact fun hopen => ⟨hwal.symm.trans hopen, rfl, id⟩

/-- A page program continues the session. -/
theorem pages {α : Type} (s : Session) (x : PageM Bytes α) : s.Continues (s.pages x).2 := by
  intro hopen
  refine ⟨?_, rfl, id⟩
  rw [← hopen]
  unfold walIsOpen
  rw [(pages_poolOnly s x).pool.wal]

/-- A commit continues the session. -/
theorem commitDatabase (s : Session) : s.Continues (commitDatabase s).2 := by
  unfold DatabaseEngine.commitDatabase
  split
  · exact .refl s
  · have hcontinues := pages s (writeCatalogChain (saveCatalog s.engine) s.catalogRoot)
    refine andThen_keeps s.Continues hcontinues fun (root : UInt32) t ht => ht.trans ?_
    have hwal : (poolCommit (poolSetCatalogRoot root t.pool)).wal.isSome = t.pool.wal.isSome := by
      unfold poolCommit poolSetCatalogRoot
      cases t.pool.wal with
      | none => rfl
      | some log =>
        dsimp only
        split <;> rfl
    exact fun hopen => ⟨hwal.symm.trans hopen, rfl, id⟩

/-- ROLLBACK opens the log of the same path again, or leaves none open. -/
theorem rollbackTransaction (h : s.Backed) : s.Continues (rollbackTransaction s).2 := by
  unfold DatabaseEngine.rollbackTransaction
  dsimp only
  split
  · exact .refl s
  · split
    · exact fun hopen => ⟨hopen, rfl, id⟩
    · have hdiscarded : s.discarded.Backed :=
        (h.rollback s.transactionPages).writesBack (.refl _) ⟨rfl, rfl, rfl⟩ ⟨rfl, rfl⟩
      refine andThen_leads (fun t => walIsOpen t = false)
        (hdiscarded.loadDatabase s.openPath).closed (fun t ht => .closed ht) fun (_ : Unit) t ht => ?_
      split
      · rename_i hlog
        unfold openForWrite
        split
        · exact .closed ht
        · refine fun _ => ⟨hlog, rfl, fun _ => ?_⟩
          simp [walOpen]
      · exact .closed ht

/-- A statement that is executed continues the session. -/
theorem executeStatement (h : s.Backed) (statement : Statement) :
    s.Continues (executeStatement statement s).2 := by
  have hsub := Continues.engineStep s (materialiseSubqueries statement.subqueries)
  have hback := h.engineStep (materialiseSubqueries statement.subqueries)
  unfold DatabaseEngine.executeStatement andThen
  split
  · exact hsub
  · dsimp only
    split
    · exact hsub.trans (.beginTransaction _)
    · refine hsub.trans ?_
      unfold commitTransaction
      split
      · exact .refl _
      · exact fun hopen => ⟨hopen, rfl, id⟩
    · exact hsub.trans (.rollbackTransaction hback)
    · exact hsub.trans (.engineStep _ _)

/-- A statement that is processed continues the session. -/
theorem processStatement (h : s.Backed) (statement : Statement) :
    s.Continues (processStatement statement s).2 := by
  unfold DatabaseEngine.processStatement
  dsimp only
  split
  · exact .refl s
  · rename_i checked _
    refine andThen_keeps s.Continues (.executeStatement h checked) fun (_ : Unit) t ht => ?_
    have hchanged :
        s.Continues (if changesSchema checked.kind then { t with schemaChanged := true } else t) := by
      split
      · exact ht
      · exact ht
    generalize (if changesSchema checked.kind then { t with schemaChanged := true } else t) = u
      at hchanged
    split
    · exact ht
    · split
      · exact hchanged.trans (.commitDatabase u)
      · exact hchanged

end Session.Continues

/-- BEGIN writes into the session's file, and ROLLBACK reads it again. -/
def StatementKind.leavesFile : StatementKind → Bool
  | .STMT_BEGIN | .STMT_ROLLBACK => false
  | _ => true

/-- Whether a statement leaves the file alone is a matter of its kind. -/
theorem leavesFile_ofKind : OfKind StatementKind.leavesFile :=
  ⟨fun _ _ => rfl, fun _ _ => rfl, fun _ _ => rfl, fun _ _ => rfl, fun _ _ => rfl, fun _ _ => rfl⟩

/-- A statement that is not BEGIN or ROLLBACK and does not get to `commitDatabase`. -/
structure Session.Idle (s : Session) (statement : Statement) : Prop where
  committing : s.committing statement = none
  kind : statement.kind.leavesFile = true

/-- A step on the engine changes nothing but the pool of what is outside it. -/
theorem engineStep_poolOnly {α : Type} (s : Session) (x : Step Engine α) :
    s.PoolOnly (s.engineStep x).2 :=
  ⟨(writesBack_client s.pool).onPool (x s.engine) (.refl s.pool), rfl, rfl, rfl, rfl, rfl, rfl, rfl⟩

/-- Two steps that change nothing but the pool. -/
theorem Session.PoolOnly.trans {s t u : Session} (h : s.PoolOnly t) (h' : t.PoolOnly u) :
    s.PoolOnly u :=
  ⟨h.pool.trans h'.pool, h'.names.trans h.names, h'.canOpen.trans h.canOpen,
    h'.memory.trans h.memory, h'.logs.trans h.logs, h'.walDatabase.trans h.walDatabase,
    h'.openPath.trans h.openPath, h'.nextInode.trans h.nextInode⟩

/-- A statement that leaves the file alone changes nothing but the pool. -/
theorem executeStatement_poolOnly {statement : Statement} (s : Session)
    (hkind : statement.kind.leavesFile = true) : s.PoolOnly (executeStatement statement s).2 := by
  unfold executeStatement
  refine andThen_keeps s.PoolOnly (engineStep_poolOnly s _) fun (_ : Unit) t ht => ?_
  split
  · rename_i hbegin
    rw [hbegin] at hkind
    exact absurd hkind (by simp [StatementKind.leavesFile])
  · unfold commitTransaction
    split
    · exact ht
    · exact ht.trans ⟨.refl t.pool, rfl, rfl, rfl, rfl, rfl, rfl, rfl⟩
  · rename_i hrollback
    rw [hrollback] at hkind
    exact absurd hkind (by simp [StatementKind.leavesFile])
  · exact ht.trans (engineStep_poolOnly t _)

/-- An idle statement works in the pool. -/
theorem processStatement_idle {s : Session} {statement : Statement} (h : s.Idle statement) :
    s.PoolOnly (processStatement statement s).2 := by
  have hnone := h.committing
  unfold Session.committing at hnone
  unfold processStatement andThen
  cases hcheck : semanticCheck s.engine statement with
  | error code => exact ⟨.refl s.pool, rfl, rfl, rfl, rfl, rfl, rfl, rfl⟩
  | ok checked =>
    have hkind : checked.kind.leavesFile = true :=
      ((semanticCheck_keeps leavesFile_ofKind hcheck).1).trans h.kind
    have hran := executeStatement_poolOnly s hkind
    rw [hcheck] at hnone
    dsimp only at hnone ⊢
    generalize executeStatement checked s = r at hnone hran ⊢
    obtain ⟨_ | _, t⟩ := r
    · exact hran
    · dsimp only at hnone hran ⊢
      have hchanged : s.PoolOnly
          (if changesSchema checked.kind then { t with schemaChanged := true } else t) := by
        split
        · exact hran.trans ⟨.refl t.pool, rfl, rfl, rfl, rfl, rfl, rfl, rfl⟩
        · exact hran
      generalize (if changesSchema checked.kind then { t with schemaChanged := true } else t) = u
        at hnone hchanged ⊢
      split at hnone
      · rename_i hdamaged
        rw [if_pos hdamaged]
        exact hran
      · rename_i hintact
        rw [if_neg hintact]
        split at hnone
        · exact absurd hnone (by simp)
        · rename_i hstays
          rw [if_neg hstays]
          exact hchanged

/-- A session in order, whose pages are checked when they are read, with room for its catalog `n`
times over. -/
structure Session.Ready (s : Session) (n : Nat) : Prop where
  orderly : ∃ inode log ids parts, s.Orderly inode log ids parts
  room : s.Room n
  checksums : s.pool.checksums = true

section
variable {entry : Path → Path}

/-- A save fails before it has written a file, or moves the streamed file in place. -/
theorem Desk.save_cases (entry : Path → Path) (path : Path) (w : Desk) :
    (∃ code, w.save entry path = (.error code, { w with session := w.session.catalogued })) ∨
      w.save entry path =
        (.ok (), w.moved entry path w.session.catalogued.nextInode w.session.streamed) := by
  unfold Desk.save andThen Session.streamed
  generalize w.session = s
  cases hroot : (s.pages (writeCatalogChain (saveCatalog s.engine) s.catalogRoot)).1 with
  | error code =>
    have hcatalogued : s.catalogued =
        (s.pages (writeCatalogChain (saveCatalog s.engine) s.catalogRoot)).2 := by
      unfold Session.catalogued
      simp only [hroot]
    rw [hcatalogued]
    exact Or.inl ⟨code, rfl⟩
  | ok root =>
    have hcatalogued : s.catalogued =
        { (s.pages (writeCatalogChain (saveCatalog s.engine) s.catalogRoot)).2 with
          catalogRoot := root } := by
      unfold Session.catalogued
      simp only [hroot]
    rw [hcatalogued]
    generalize (s.pages (writeCatalogChain (saveCatalog s.engine) s.catalogRoot)).2 = t
    dsimp only
    by_cases hrefused : LINE_LEN ≤ (tempPath path).length ∨ (!t.canOpen (entry (tempPath path))) = true
    · rw [if_pos hrefused]
      exact Or.inl ⟨_, rfl⟩
    · rw [if_neg hrefused]
      exact Or.inr rfl

/-- The comparison of spellings tells whether a path is that of the open file, and what a save to
it writes and removes beside it is not the open file or its log. -/
structure Desk.Tells (entry : Path → Path) (w : Desk) (path : Path) : Prop where
  spelled : sameText w.openText path = true ↔ entry path = entry w.openText
  temp : entry (tempPath path) ≠ entry w.openText ∧
    entry (tempPath path) ≠ entry (walName w.openText)
  log : entry path ≠ entry (walName w.openText)
  discarded : entry path ≠ entry w.openText → entry (walName path) ≠ entry w.openText ∧
    entry (walName path) ≠ entry (walName w.openText)

/-- The session commits into the file and the log that its path finds. -/
structure Desk.Joined (entry : Path → Path) (w : Desk) : Prop where
  backed : w.session.Backed
  logTaken : w.session.LogTaken
  texts : walIsOpen w.session = true →
    w.openText = w.walText ∧ entry w.openText = w.session.openPath ∧ w.unlinked = false

namespace Desk.Joined

variable {w : Desk} {path : Path}

/-- With a log open, the open file's entry is what the session goes by. -/
theorem own (h : w.Joined entry) (hopen : walIsOpen w.session = true) :
    entry w.openText = w.session.walDatabase ∧ w.session.openPath ≠ [] := by
  have hattached := h.backed.attached hopen
  refine ⟨(h.texts hopen).2.1.trans hattached.openPath, fun hnil => ?_⟩
  obtain ⟨inode, -, hopens, -⟩ := hattached.file
  unfold Session.openFile at hopens
  rw [← hattached.openPath, hnil, h.backed.noName] at hopens
  exact absurd hopens (by simp)

/-- The session, after the saved file has been moved, before a log of that name goes. -/
theorem moved_backed (h : w.Joined entry)
    (htells : walIsOpen w.session = true → w.Tells entry path) :
    (moveAs (w.session.streamed.openPath ≠ [] && sameText w.openText path)
      (sameText w.walText path) (entry path) w.session.catalogued.nextInode
      (dropName (entry (tempPath path)) w.session.streamed)).Backed := by
  obtain ⟨hback, hfresh, hbelow⟩ := h.backed.streamed
  have hleft := streamed_leaves w.session
  generalize w.session.streamed = u at hback hfresh hbelow hleft ⊢
  generalize w.session.catalogued.nextInode = inode at hfresh hbelow hleft ⊢
  have hopens : walIsOpen u = walIsOpen w.session := by
    unfold walIsOpen
    rw [hleft.wal]
  have hdropped : (dropName (entry (tempPath path)) u).Backed := by
    refine hback.dropName fun hopen => ?_
    rw [hopens] at hopen
    rw [hleft.walDatabase, ← (h.own hopen).1]
    exact (htells hopen).temp.1
  refine moveAs_backed hdropped (fun a ha => ?_) hbelow ?_ fun hopen => ?_
  · simp only [dropName] at ha
    split at ha
    · exact absurd ha (by simp)
    · exact hfresh a ha
  · show PageHead (u.pool.files _).head
    rw [hleft.file]
    exact pageHead_headerPage _ _
  · have hopen' : walIsOpen w.session = true := hopens.symm.trans hopen
    obtain ⟨hown, hnamed⟩ := h.own hopen'
    obtain ⟨htexts, -, -⟩ := h.texts hopen'
    have hreplace : (u.openPath ≠ [] && sameText w.openText path : Bool) =
        sameText w.openText path := by
      rw [hleft.openPath]
      simp [hnamed]
    refine ⟨by rw [hreplace, htexts], ?_⟩
    show _ ↔ u.walDatabase = entry path
    rw [hreplace, hleft.walDatabase, ← hown, (htells hopen').spelled]
    exact eq_comm

/-- A session moves its own file in place, or one that is apart from it. -/
theorem save_moved (h : w.Joined entry) (htells : walIsOpen w.session = true → w.Tells entry path) :
    (w.moved entry path w.session.catalogued.nextInode w.session.streamed).Joined entry := by
  have hleft := streamed_leaves w.session
  have hback := h.moved_backed htells
  unfold Desk.moved
  dsimp only
  generalize w.session.streamed = u at hleft hback ⊢
  have hmoved := moveAs_moved (u.openPath ≠ [] && sameText w.openText path)
    (sameText w.walText path) (entry path) w.session.catalogued.nextInode
    (dropName (entry (tempPath path)) u)
  have hwal := moveAs_wal (u.openPath ≠ [] && sameText w.openText path)
    (sameText w.walText path) (entry path) w.session.catalogued.nextInode
    (dropName (entry (tempPath path)) u)
  generalize moveAs (u.openPath ≠ [] && sameText w.openText path)
    (sameText w.walText path) (entry path) w.session.catalogued.nextInode
    (dropName (entry (tempPath path)) u) = m at hback hmoved hwal ⊢
  have hopens : walIsOpen m = walIsOpen w.session := by
    have hstreamed : (dropName (entry (tempPath path)) u).pool.wal = w.session.pool.wal := hleft.wal
    unfold walIsOpen
    rw [hwal, hstreamed]
    split <;> simp
  have hdatabase : m.walDatabase = w.session.walDatabase :=
    hmoved.walDatabase.trans hleft.walDatabase
  have hpath : m.openPath = w.session.openPath := hmoved.openPath.trans hleft.openPath
  have htaken : m.LogTaken := by
    intro hopen
    rw [hdatabase]
    refine hmoved.logs _ ?_
    show u.logs _ = none
    rw [hleft.logs]
    exact h.logTaken (hopens.symm.trans hopen)
  split
  · refine ⟨hback, htaken, fun hopen => ?_⟩
    obtain ⟨htexts, hentry, -⟩ := h.texts (hopens.symm.trans hopen)
    exact ⟨htexts, hentry.trans hpath.symm, rfl⟩
  · rename_i hours
    -- with a log open, the path is not that of the open file
    have hother : walIsOpen w.session = true → entry path ≠ entry w.openText := by
      intro hopen hown
      have hsame := (htells hopen).spelled.mpr hown
      rw [(h.texts hopen).1] at hsame
      exact hours (by rw [hopens, hopen, hsame]; rfl)
    refine ⟨hback.dropName fun hopen => ?_, htaken, fun hopen => ?_⟩
    · have hopen' := hopens.symm.trans hopen
      rw [hdatabase, ← (h.own hopen').1]
      exact ((htells hopen').discarded (hother hopen')).1
    · have hopen' : walIsOpen w.session = true := hopens.symm.trans hopen
      obtain ⟨htexts, hentry, hlinked⟩ := h.texts hopen'
      refine ⟨htexts, hentry.trans hpath.symm, ?_⟩
      have htemp := (htells hopen').temp.2
      have hlog := (htells hopen').log
      have hdiscarded := ((htells hopen').discarded (hother hopen')).2
      rw [htexts] at htemp hlog hdiscarded
      simp [hlinked, htemp, hlog, hdiscarded]

/-- A save keeps the desk joined. -/
theorem save (h : w.Joined entry) (htells : walIsOpen w.session = true → w.Tells entry path) :
    (w.save entry path).2.Joined entry := by
  rcases Desk.save_cases entry path w with ⟨code, hfails⟩ | hdone
  · rw [hfails]
    have hsame := catalogued_poolOnly w.session
    generalize w.session.catalogued = c at hsame ⊢
    have hopens : walIsOpen c = walIsOpen w.session := by
      unfold walIsOpen
      rw [hsame.pool.wal]
    refine ⟨h.backed.writesBack hsame.pool ⟨hsame.names, hsame.nextInode, hsame.canOpen⟩
      ⟨hsame.openPath, hsame.walDatabase⟩, fun hopen => ?_, fun hopen => ?_⟩
    · show c.logs c.walDatabase = none
      rw [hsame.logs, hsame.walDatabase]
      exact h.logTaken (hopens.symm.trans hopen)
    · obtain ⟨htexts, hentry, hlinked⟩ := h.texts (hopens.symm.trans hopen)
      exact ⟨htexts, hentry.trans hsame.openPath.symm, hlinked⟩
  · have hmoved : (w.save entry path).2 =
        w.moved entry path w.session.catalogued.nextInode w.session.streamed := by rw [hdone]
    rw [hmoved]
    exact h.save_moved htells

/-- A statement keeps the desk joined. -/
theorem process (h : w.Joined entry) (statement : Statement) :
    (w.process statement).2.Joined entry := by
  have hcontinues := Session.Continues.processStatement h.backed statement
  refine ⟨processStatement_backed h.backed statement, fun hopen => ?_, fun hopen => ?_⟩
  · obtain ⟨hwas, -, hlogs⟩ := hcontinues hopen
    exact hlogs (h.logTaken hwas)
  · obtain ⟨hwas, hpath, -⟩ := hcontinues hopen
    obtain ⟨htexts, hentry, hlinked⟩ := h.texts hwas
    refine ⟨htexts, hentry.trans hpath.symm, ?_⟩
    show (w.unlinked && _) = false
    rw [hlinked, Bool.false_and]

end Desk.Joined

/-- A log that is attached is that of the path. -/
theorem attachLog_opens {s : Session} {path : Path} {current : Bool} (hclosed : walIsOpen s = false)
    (hopen : walIsOpen (attachLog path current s) = true) :
    (attachLog path current s).openPath = path ∧
      (attachLog path current s).logs (attachLog path current s).walDatabase = none := by
  unfold attachLog openForWrite at hopen ⊢
  dsimp only at hopen ⊢
  split at hopen
  · exact absurd (hclosed.symm.trans hopen) (by simp)
  · rename_i hmade
    rw [if_neg hmade]
    split at hopen
    · exact absurd (hclosed.symm.trans hopen) (by simp)
    · rename_i hpage
      rw [if_neg hpage]
      cases hopens : { s with usingLog := false }.openFile path with
      | none =>
        simp only [hopens] at hopen
        exact absurd (hclosed.symm.trans hopen) (by simp)
      | some inode =>
        refine ⟨rfl, ?_⟩
        simp [walOpen]

namespace Desk.Joined

variable {w : Desk} {path : Path}

/-- A load keeps the desk joined. -/
theorem load (h : w.Joined entry) : (w.load entry path).2.Joined entry := by
  have hback := h.backed.loadCommand (entry path)
  have hopens : walIsOpen (loadCommand (entry path) w.session).2 = true →
      (loadCommand (entry path) w.session).1 = .ok () ∧
      (loadCommand (entry path) w.session).2.openPath = entry path ∧
      (loadCommand (entry path) w.session).2.logs
        (loadCommand (entry path) w.session).2.walDatabase = none := by
    have hclosed := (h.backed.loadDatabase (entry path)).closed
    unfold loadCommand
    generalize loadDatabase (entry path) w.session = r at hclosed ⊢
    obtain ⟨answer, t⟩ := r
    cases answer with
    | error code => exact fun hopen => absurd (hclosed.symm.trans hopen) (by simp)
    | ok _ =>
      unfold andThen
      dsimp only
      split
      · intro hopen
        have hnamed : walIsOpen { t with sessionPath := entry path } = false := hclosed
        exact ⟨rfl, attachLog_opens hnamed hopen⟩
      · exact fun hopen => absurd (hclosed.symm.trans hopen) (by simp)
  unfold Desk.load
  generalize loadCommand (entry path) w.session = r at hback hopens ⊢
  obtain ⟨answer, t⟩ := r
  refine ⟨hback, fun hopen => (hopens hopen).2.2, fun hopen => ?_⟩
  obtain ⟨hok, hpath, -⟩ := hopens hopen
  have hopen' : walIsOpen t = true := hopen
  dsimp only at hok hpath ⊢
  rw [if_pos (Or.inl hok), if_pos hopen']
  exact ⟨rfl, hpath.symm, rfl⟩

/-- A desk that is opened is joined. -/
theorem opened {disk : Session} (h : disk.Starts) (path : Path) :
    (Desk.opened entry path disk).Joined entry := by
  have hback := openSession_backed h (entry path)
  have hopens : walIsOpen (openSession (entry path) disk) = true →
      (openSession (entry path) disk).openPath = entry path ∧
      (openSession (entry path) disk).logs (openSession (entry path) disk).walDatabase = none := by
    have hclosed := ((walRecover_starts h (entry path)).backed.loadDatabase (entry path)).closed
    have hattach : ∀ (t : Session) (current : Bool), walIsOpen t = false →
        walIsOpen (attachLog (entry path) current { t with sessionPath := entry path }) = true →
        (attachLog (entry path) current { t with sessionPath := entry path }).openPath = entry path ∧
        (attachLog (entry path) current { t with sessionPath := entry path }).logs
          (attachLog (entry path) current { t with sessionPath := entry path }).walDatabase =
            none := by
      intro t current ht
      have hnamed : walIsOpen { t with sessionPath := entry path } = false := ht
      exact attachLog_opens hnamed
    unfold openSession
    dsimp only
    generalize loadDatabase (entry path) (walRecover (entry path) disk).2 = loaded at hclosed ⊢
    obtain ⟨answer, t⟩ := loaded
    split
    · rename_i heq
      obtain ⟨-, rfl⟩ := Prod.mk.inj heq
      exact hattach _ false hclosed
    · rename_i heq
      obtain ⟨-, rfl⟩ := Prod.mk.inj heq
      have hoff := (saveDatabase_walIsOpen (entry path) t).trans hclosed
      generalize saveDatabase (entry path) t = saved at hoff ⊢
      obtain ⟨answer, u⟩ := saved
      cases answer with
      | error code => exact fun hopen => absurd (hoff.symm.trans hopen) (by simp)
      | ok _ => exact hattach _ true hoff
    · rename_i heq
      obtain ⟨-, rfl⟩ := Prod.mk.inj heq
      exact fun hopen => absurd (hclosed.symm.trans hopen) (by simp)
  exact ⟨hback, fun hopen => (hopens hopen).2, fun hopen => ⟨rfl, (hopens hopen).1.symm, rfl⟩⟩

end Desk.Joined

/-! ### Runs -/

/-- The desk after what a user does. -/
def Desk.step (entry : Path → Path) (w : Desk) : SessionOp → Desk
  | .statement statement => (w.process statement).2
  | .load path => (w.load entry path).2
  | .save path => (w.save entry path).2

/-- The spelling of a save's path tells whether it is that of the open file. -/
def SessionOp.Tells (entry : Path → Path) (w : Desk) : SessionOp → Prop
  | .save path => walIsOpen w.session = true → w.Tells entry path
  | _ => True

/-- Every step keeps the desk joined. -/
theorem Desk.Joined.step (w : Desk) (op : SessionOp) (h : w.Joined entry)
    (htells : op.Tells entry w) : (w.step entry op).Joined entry := by
  cases op with
  | statement statement => exact h.process statement
  | load path => exact h.load
  | save path => exact h.save htells

/-! ### What is found -/

/-- What a crash leaves. A log that has lost its name is not found again. -/
def Desk.crash (w : Desk) : Session :=
  let s := afterCrash w.session
  if walIsOpen w.session && w.unlinked then
    { s with logs := fun other => if other = w.session.walDatabase then none else s.logs other }
  else s

/-- What opening the session's own path gives after a crash. -/
def Desk.found (w : Desk) : Option Holding := opening w.session.openPath w.crash

/-- What opening the session's own path gives after its log has been folded into its file. -/
def Desk.foundAfterExit (w : Desk) : Option Holding :=
  opening w.session.openPath (afterCrash (closeDatabase w.session))

/-- What the session has committed: the file that it pages through, with the committed frames of
its open log. -/
def Desk.committed (w : Desk) : Option Holding :=
  w.session.pool.pageFile.bind fun inode =>
    (replayFrames (w.session.pool.files inode)
      (committedFrames (w.session.pool.wal.getD []))).holding w.session.memory

/-- What an exit writes: the file that the session pages through, after its last checkpoint. -/
def Desk.written (w : Desk) : Option Holding :=
  w.session.pool.pageFile.bind fun inode =>
    ((closeDatabase w.session).pool.files inode).holding w.session.memory

namespace Desk.Joined

variable {w : Desk} {path : Path}

/-- The names that a crash finds a session with a log under. -/
theorem attached (h : w.Joined entry) (hopen : walIsOpen w.session = true) :
    ∃ inode log, w.session.pool.pageFile = some inode ∧ w.session.pool.wal = some log ∧
      w.session.openPath ≠ [] ∧ w.session.openFile w.session.openPath = some inode ∧
      PageHead (w.session.pool.files inode).head ∧
      (afterCrash w.session).logs w.session.openPath = some log := by
  have hattached := h.backed.attached hopen
  obtain ⟨inode, hfile, hopens, hhead⟩ := hattached.file
  obtain ⟨log, hlog⟩ := Option.isSome_iff_exists.mp hopen
  refine ⟨inode, log, hfile, hlog, (h.own hopen).2, hattached.openPath ▸ hopens, hhead, ?_⟩
  simp [afterCrash, hlog, hattached.openPath]

/-- What a crash of the desk leaves is what one of its session does. -/
theorem crash_eq (h : w.Joined entry) (hopen : walIsOpen w.session = true) :
    w.crash = afterCrash w.session := by
  unfold Desk.crash
  rw [(h.texts hopen).2.2]
  simp

/-- After a crash the session's path gives what it has committed. -/
theorem found_committed (h : w.Joined entry) (hopen : walIsOpen w.session = true) :
    w.found = w.committed := by
  obtain ⟨inode, log, hfile, hlog, hnamed, hopens, hhead, hleft⟩ := h.attached hopen
  unfold Desk.found Desk.committed
  rw [h.crash_eq hopen, opening_recovered hnamed hopens hhead, hleft, hfile, hlog]
  rfl

/-- After an exit it gives what the exit has written. -/
theorem found_written (h : w.Joined entry) (hopen : walIsOpen w.session = true) :
    w.foundAfterExit = w.written := by
  obtain ⟨inode, log, hfile, hlog, hnamed, hopens, hhead, -⟩ := h.attached hopen
  have hattached := h.backed.attached hopen
  have hclosed : PageHead ((closeDatabase w.session).pool.files inode).head := by
    show PageHead ((poolCheckpoint w.session.pool).files inode).head
    rcases poolCheckpoint_cases w.session.pool with ⟨k, hk, -, hdone⟩ | ⟨hsame, -⟩
    · obtain rfl : inode = k := Option.some.inj (hfile.symm.trans hk)
      rw [hdone.head]
      exact hhead.overwrite
    · rw [hsame]
      exact hhead
  have hgone : (afterCrash (closeDatabase w.session)).logs w.session.openPath = none := by
    rw [hattached.openPath]
    exact h.logTaken hopen
  have hfound : (afterCrash (closeDatabase w.session)).openFile w.session.openPath = some inode :=
    hopens
  unfold Desk.foundAfterExit Desk.written
  rw [opening_recovered hnamed hfound hclosed, hgone, hfile]
  rfl

/-- What an exit writes is what its checkpoint does. -/
theorem found_checkpoint (h : w.Joined entry) (hopen : walIsOpen w.session = true) {inode : Nat}
    (hfile : w.session.pool.pageFile = some inode) :
    w.foundAfterExit =
      ((poolCheckpoint w.session.pool).files inode).holding w.session.memory := by
  rw [h.found_written hopen]
  unfold Desk.written
  rw [hfile]
  rfl

/-- A save that succeeds with a log open. -/
theorem save_eq (h : w.Joined entry) (hopen : walIsOpen w.session = true)
    (htells : w.Tells entry path) (hok : (w.save entry path).1 = .ok ()) :
    (w.save entry path).2 =
        w.moved entry path w.session.catalogued.nextInode w.session.streamed ∧
      (w.save entry path).2.Joined entry ∧ walIsOpen (w.save entry path).2.session = true := by
  have hjoined := h.save fun _ => htells
  rcases Desk.save_cases entry path w with ⟨code, hfails⟩ | hdone
  · rw [hfails] at hok
    exact absurd hok (by simp)
  · have hmoved : (w.save entry path).2 =
        w.moved entry path w.session.catalogued.nextInode w.session.streamed := by rw [hdone]
    refine ⟨hmoved, hjoined, ?_⟩
    rw [hmoved]
    have hwal := moveAs_wal (w.session.streamed.openPath ≠ [] && sameText w.openText path)
      (sameText w.walText path) (entry path) w.session.catalogued.nextInode
      (dropName (entry (tempPath path)) w.session.streamed)
    have hleft := (streamed_leaves w.session).wal
    unfold Desk.moved
    dsimp only
    generalize w.session.streamed = u at hwal hleft ⊢
    generalize moveAs (u.openPath ≠ [] && sameText w.openText path) (sameText w.walText path)
      (entry path) w.session.catalogued.nextInode (dropName (entry (tempPath path)) u) = m
      at hwal ⊢
    have hstays : walIsOpen m = true := by
      have hdropped : (dropName (entry (tempPath path)) u).pool.wal = w.session.pool.wal := hleft
      unfold walIsOpen at hopen ⊢
      rw [hwal, hdropped]
      split
      · simpa using hopen
      · exact hopen
    split <;> exact hstays

/-- The file that a save writes is not the session's own. -/
theorem apart (h : w.Joined entry) {inode : Nat}
    (hopens : w.session.openFile w.session.openPath = some inode) :
    inode ≠ w.session.catalogued.nextInode := by
  intro hsame
  have hbelow := h.backed.below _ _ (Session.openFile_name hopens)
  rw [hsame, (catalogued_poolOnly w.session).nextInode] at hbelow
  exact Nat.lt_irrefl _ hbelow

/-- A save to the session's own path leaves it with the saved file. -/
theorem save_own (h : w.Joined entry) (hopen : walIsOpen w.session = true)
    (htells : w.Tells entry path) (hok : (w.save entry path).1 = .ok ())
    (hown : entry path = entry w.openText) :
    (w.save entry path).2.found = w.session.savedFile.holding w.session.memory := by
  obtain ⟨heq, hjoined, hstays⟩ := h.save_eq hopen htells hok
  rw [hjoined.found_committed hstays, heq]
  have hleft := streamed_leaves w.session
  obtain ⟨htexts, -, -⟩ := h.texts hopen
  have hsame : sameText w.openText path = true := htells.spelled.mpr hown
  have hcan : w.session.canOpen (entry path) = true := by
    obtain ⟨inode, -, -, -, -, hopens, -⟩ := h.attached hopen
    rw [hown, (h.texts hopen).2.1]
    unfold Session.openFile at hopens
    split at hopens
    · assumption
    · exact absurd hopens (by simp)
  unfold Desk.committed Desk.moved
  dsimp only
  have hnamed := (h.own hopen).2
  generalize w.session.streamed = u at hleft ⊢
  have hreplace : (u.openPath ≠ [] && sameText w.openText path : Bool) = true := by
    rw [hleft.openPath, hsame]
    simp [hnamed]
  rw [hreplace, ← htexts, hsame]
  have hfile := moveAs_own (s := dropName (entry (tempPath path)) u) true
    w.session.catalogued.nextInode ((congrFun hleft.canOpen _).trans hcan)
  have hmoved := moveAs_moved true true (entry path) w.session.catalogued.nextInode
    (dropName (entry (tempPath path)) u)
  have hwal := moveAs_wal true true (entry path) w.session.catalogued.nextInode
    (dropName (entry (tempPath path)) u)
  generalize moveAs true true (entry path) w.session.catalogued.nextInode
    (dropName (entry (tempPath path)) u) = m at hfile hmoved hwal ⊢
  have hopens : walIsOpen m = true := by
    unfold walIsOpen at hopen ⊢
    rw [hwal, if_pos rfl, Option.isSome_map]
    exact (congrArg Option.isSome hleft.wal).trans hopen
  have hempty : committedFrames (m.pool.wal.getD []) = [] := by
    rw [hwal, if_pos rfl]
    cases (dropName (entry (tempPath path)) u).pool.wal <;> rfl
  rw [hopens, Bool.and_true, if_pos rfl]
  dsimp only
  rw [hfile, Option.bind_some, hempty, hmoved.files, hmoved.memory]
  show (replayFrames (u.pool.files _) []).holding u.memory = _
  rw [hleft.file, hleft.memory]
  rfl

/-- A save to another path leaves the session with its file and its log. -/
theorem save_other (h : w.Joined entry) (hopen : walIsOpen w.session = true)
    (htells : w.Tells entry path) (hok : (w.save entry path).1 = .ok ())
    (hother : entry path ≠ entry w.openText) :
    (w.save entry path).2.found = w.found ∧
      (w.save entry path).2.session.pool.pageFile = w.session.pool.pageFile ∧
      (w.save entry path).2.session.pool.wal = w.session.pool.wal ∧
      (w.save entry path).2.session.openFile w.session.openPath =
        w.session.openFile w.session.openPath := by
  obtain ⟨heq, hjoined, hstays⟩ := h.save_eq hopen htells hok
  obtain ⟨inode, log, hfile, hlog, hnamed, hopens, hhead, -⟩ := h.attached hopen
  rw [hjoined.found_committed hstays, h.found_committed hopen, heq]
  have hleft := streamed_leaves w.session
  obtain ⟨htexts, hentry, -⟩ := h.texts hopen
  have hsame : sameText w.openText path = false := by
    cases hspelled : sameText w.openText path with
    | false => rfl
    | true => exact absurd (htells.spelled.mp hspelled) hother
  have hold := h.apart hopens
  obtain ⟨hfile', hwritable', hnames', writes, hlogs, hwritten⟩ := streamed_pool w.session hfile hold
  have hwritable := (h.backed.attached hopen).writable
  unfold Desk.committed Desk.moved
  dsimp only
  generalize w.session.streamed = u at hleft hfile' hwritable' hnames' hwritten ⊢
  rw [← htexts, hsame]
  simp only [Bool.and_false, Bool.false_eq_true, if_false]
  have hpool := moveAs_other (s := dropName (entry (tempPath path)) u) (entry path)
    w.session.catalogued.nextInode (hwritable'.trans hwritable)
  have hmoved := moveAs_moved false false (entry path) w.session.catalogued.nextInode
    (dropName (entry (tempPath path)) u)
  generalize moveAs false false (entry path) w.session.catalogued.nextInode
    (dropName (entry (tempPath path)) u) = m at hpool hmoved ⊢
  have hpool' : m.pool = u.pool := hpool
  refine ⟨?_, ?_, ?_, ?_⟩
  · show m.pool.pageFile.bind (fun inode => (replayFrames (m.pool.files inode)
      (committedFrames (m.pool.wal.getD []))).holding m.memory) = _
    have hmemory : m.memory = w.session.memory := hmoved.memory.trans hleft.memory
    rw [hpool', hfile', hfile, hmemory, hleft.wal, hlog, Option.bind_some, Option.bind_some, hwritten,
      replayFrames_covered fun write hin => ?_]
    obtain ⟨log', hlog', hcovered⟩ := h.backed.covered _ (hlogs write hin)
    obtain rfl : log = log' := Option.some.inj (hlog.symm.trans hlog')
    exact hcovered
  · show m.pool.pageFile = _
    rw [hpool', hfile', hfile]
  · show m.pool.wal = _
    rw [hpool']
    exact hleft.wal
  · have hcanOpen : m.canOpen = w.session.canOpen := hmoved.canOpen.trans hleft.canOpen
    have hkept : (dropName (entry (walName path)) m).names w.session.openPath =
        w.session.names w.session.openPath := by
      obtain ⟨hwal, -⟩ := htells.discarded hother
      rw [← hentry] at *
      show (if _ then none else m.names _) = _
      rw [if_neg hwal.symm, hmoved.names]
      show (if _ then _ else if _ then none else u.names _) = _
      rw [if_neg hother.symm, if_neg htells.temp.1.symm, hnames']
    unfold Session.openFile
    rw [hkept]
    show (if m.canOpen _ then _ else _) = _
    rw [hcanOpen]

/-- What a save that succeeds does not change. -/
theorem save_memory (h : w.Joined entry) (hopen : walIsOpen w.session = true)
    (htells : w.Tells entry path) (hok : (w.save entry path).1 = .ok ()) :
    (w.save entry path).2.session.memory = w.session.memory := by
  rw [(h.save_eq hopen htells hok).1]
  have hmemory := (streamed_leaves w.session).memory
  unfold Desk.moved
  dsimp only
  generalize w.session.streamed = u at hmemory ⊢
  have hmoved := moveAs_moved (u.openPath ≠ [] && sameText w.openText path)
    (sameText w.walText path) (entry path) w.session.catalogued.nextInode
    (dropName (entry (tempPath path)) u)
  split <;> exact hmoved.memory.trans hmemory

/-- The pool after a save to the session's own path. -/
theorem save_own_pool (h : w.Joined entry) (hopen : walIsOpen w.session = true)
    (htells : w.Tells entry path) (hok : (w.save entry path).1 = .ok ())
    (hown : entry path = entry w.openText) :
    (w.save entry path).2.session.pool =
      walTruncate (poolSetChecksums true
        (poolSetWritable w.session.catalogued.nextInode w.session.streamed.pool.pageCount
          (poolMarkAllClean (poolDetachFile w.session.streamed.pool)))) := by
  rw [(h.save_eq hopen htells hok).1]
  have hleft := streamed_leaves w.session
  obtain ⟨inode, -, hfile, -, -, hopens, -⟩ := h.attached hopen
  have hold := h.apart hopens
  obtain ⟨-, hwritable, -⟩ := streamed_pool w.session hfile hold
  have hwritable := hwritable.trans (h.backed.attached hopen).writable
  have hsame : sameText w.openText path = true := htells.spelled.mpr hown
  have hnamed := (h.own hopen).2
  have hcan : w.session.canOpen (entry path) = true := by
    rw [hown, (h.texts hopen).2.1]
    unfold Session.openFile at hopens
    split at hopens
    · assumption
    · exact absurd hopens (by simp)
  unfold Desk.moved
  dsimp only
  generalize w.session.streamed = u at hleft hwritable ⊢
  have hreplace : (u.openPath ≠ [] && sameText w.openText path : Bool) = true := by
    rw [hleft.openPath, hsame]
    simp [hnamed]
  have hstays : walIsOpen (dropName (entry (tempPath path)) u) = true :=
    (congrArg Option.isSome hleft.wal).trans hopen
  rw [hreplace, ← (h.texts hopen).1, hsame]
  have hpool := moveAs_own_pool (s := dropName (entry (tempPath path)) u)
    w.session.catalogued.nextInode ((congrFun hleft.canOpen _).trans hcan) hwritable hstays
  split <;> exact hpool

/-- The pool after a save to another path is the one that the file was streamed from. -/
theorem save_other_pool (h : w.Joined entry) (hopen : walIsOpen w.session = true)
    (htells : w.Tells entry path) (hok : (w.save entry path).1 = .ok ())
    (hother : entry path ≠ entry w.openText) :
    (w.save entry path).2.session.pool = w.session.streamed.pool := by
  rw [(h.save_eq hopen htells hok).1]
  obtain ⟨inode, -, hfile, -, -, hopens, -⟩ := h.attached hopen
  have hold := h.apart hopens
  obtain ⟨-, hwritable, -⟩ := streamed_pool w.session hfile hold
  have hwritable := hwritable.trans (h.backed.attached hopen).writable
  have hsame : sameText w.openText path = false := by
    cases hspelled : sameText w.openText path with
    | false => rfl
    | true => exact absurd (htells.spelled.mp hspelled) hother
  unfold Desk.moved
  dsimp only
  generalize w.session.streamed = u at hwritable ⊢
  rw [← (h.texts hopen).1, hsame]
  simp only [Bool.and_false, Bool.false_eq_true, if_false]
  have hpool := moveAs_other (s := dropName (entry (tempPath path)) u) (entry path)
    w.session.catalogued.nextInode hwritable
  exact hpool

end Desk.Joined

/-! ### Statements and saves -/

/-- The session's path gives, after a crash and after an exit, a file that shows `e`. -/
structure Desk.Durable (w : Desk) (e : Session) : Prop where
  crash : ∃ file : DbFile Bytes, w.found = file.holding w.session.memory ∧ file.Shows e
  exit : ∃ file : DbFile Bytes, w.foundAfterExit = file.holding w.session.memory ∧ file.Shows e

/-- A session that loses no statement at its next step: what a crash and an exit find is what it
has committed and written; a statement that does not commit takes nothing away; one that commits is
found, at once and behind a save; and a save leaves the session with the saved file, or with the
file that it had. -/
structure Desk.Safe (entry : Path → Path) (w : Desk) : Prop where
  crash : w.found = w.committed
  exit : w.foundAfterExit = w.written
  idle : ∀ statement, w.session.Idle statement → (w.process statement).2.found = w.found
  commits : ∀ statement e, w.session.committing statement = some e → e.Ready 2 →
    e.Commits (w.process statement).2.session →
    (w.process statement).2.Durable e ∧
      ∀ path, (w.process statement).2.Tells entry path →
        ((w.process statement).2.save entry path).1 = .ok () →
        ((w.process statement).2.save entry path).2.Durable e
  own : ∀ path, w.Tells entry path → (w.save entry path).1 = .ok () →
    entry path = entry w.openText →
    (w.save entry path).2.found = w.session.savedFile.holding w.session.memory ∧
      (w.session.Ready 1 → w.session.savedFile.Shows w.session)
  other : ∀ path, w.Tells entry path → (w.save entry path).1 = .ok () →
    entry path ≠ entry w.openText →
    (w.save entry path).2.found = w.found ∧
      (w.save entry path).2.session.pool.pageFile = w.session.pool.pageFile ∧
      (w.save entry path).2.session.pool.wal = w.session.pool.wal ∧
      (w.save entry path).2.session.openFile w.session.openPath =
        w.session.openFile w.session.openPath

namespace Desk.Joined

variable {w : Desk} {path : Path}

/-- A statement that does not get to its commit leaves what a crash finds. -/
theorem process_idle (h : w.Joined entry) (hopen : walIsOpen w.session = true)
    {statement : Statement} (hidle : w.session.Idle statement) :
    (w.process statement).2.found = w.found := by
  have honly : w.session.PoolOnly (w.process statement).2.session := processStatement_idle hidle
  have hopen' : walIsOpen (w.process statement).2.session = true :=
    (congrArg Option.isSome honly.pool.wal).trans hopen
  obtain ⟨inode, log, hfile, hlog, -⟩ := h.attached hopen
  rw [(h.process statement).found_committed hopen', h.found_committed hopen]
  obtain ⟨writes, hlogs, hwritten⟩ := honly.pool.file inode hfile
  unfold Desk.committed
  rw [honly.pool.pageFile, honly.pool.wal, honly.memory, hfile, hlog, Option.bind_some,
    Option.bind_some, hwritten, replayFrames_covered fun write hin => ?_]
  obtain ⟨log', hlog', hcovered⟩ := h.backed.covered _ (hlogs write hin)
  obtain rfl : log = log' := Option.some.inj (hlog.symm.trans hlog')
  exact hcovered

/-- A settled session whose log is committed is found. -/
theorem settled_durable (h : w.Joined entry) {e : Session} {inode : Nat}
    {log : List (LogFrame Bytes)} {ids : List Nat} {parts : List (List UInt8)}
    (hsettled : w.session.Settled inode log ids parts) (hshows : w.session.Shows e)
    (hlogged : (replayFrames (w.session.pool.files inode) (committedFrames log)).Shows e) :
    w.Durable e := by
  have hopen : walIsOpen w.session = true := by
    unfold walIsOpen
    rw [hsettled.orderly.wal]
    rfl
  constructor
  · refine ⟨_, ?_, hlogged⟩
    rw [h.found_committed hopen]
    unfold Desk.committed
    rw [hsettled.orderly.pageFile, hsettled.orderly.wal]
    rfl
  · exact ⟨_, h.found_checkpoint hopen hsettled.orderly.pageFile, hsettled.exits.of_shows hshows⟩

/-- It is found behind a save too, to its own path or to another. -/
theorem settled_save_durable (h : w.Joined entry) {e : Session} {inode : Nat}
    {log : List (LogFrame Bytes)} {ids : List Nat} {parts : List (List UInt8)}
    (hsettled : w.session.Settled inode log ids parts) (hroom : w.session.Room 1)
    (hshows : w.session.Shows e)
    (hlogged : (replayFrames (w.session.pool.files inode) (committedFrames log)).Shows e)
    (htells : w.Tells entry path) (hok : (w.save entry path).1 = .ok ()) :
    (w.save entry path).2.Durable e := by
  have hopen : walIsOpen w.session = true := by
    unfold walIsOpen
    rw [hsettled.orderly.wal]
    rfl
  have hmemory := h.save_memory hopen htells hok
  obtain ⟨-, hjoined, hstays⟩ := h.save_eq hopen htells hok
  by_cases hown : entry path = entry w.openText
  · have hpool := h.save_own_pool hopen htells hok hown
    have hsaved := (streamed_leaves w.session).file
    obtain ⟨hcount, hroot⟩ := streamed_fields w.session
    have hfound := h.save_own hopen htells hok hown
    rw [← hmemory] at hfound
    constructor
    · exact ⟨_, hfound, (hsettled.orderly.savedFile_shows hroom).of_shows hshows⟩
    · obtain ⟨hfile, hwritable, hfiles, hpages, hfield, hclean⟩ := reopened_fields
        w.session.streamed.pool w.session.catalogued.nextInode w.session.streamed.pool.pageCount
      rw [← hpool] at hfile hwritable hfiles hpages hfield hclean
      exact ⟨_, hjoined.found_checkpoint hstays hfile,
        (hsettled.saved_exits hroom hfile hwritable hclean ((congrFun hfiles _).trans hsaved)
          (hpages.trans hcount) (hfield.trans hroot)).of_shows hshows⟩
  · obtain ⟨hfound, hfile, -⟩ := h.save_other hopen htells hok hown
    have hpool := h.save_other_pool hopen htells hok hown
    obtain ⟨hcrash, -⟩ := h.settled_durable hsettled hshows hlogged
    obtain ⟨file, hheld, hfileShows⟩ := hcrash
    constructor
    · exact ⟨file, by rw [hfound, hheld, hmemory], hfileShows⟩
    · have hold : inode ≠ w.session.catalogued.nextInode := by
        obtain ⟨inode', -, hfile', -, -, hopens, -⟩ := h.attached hopen
        obtain rfl : inode = inode' :=
          Option.some.inj (hsettled.orderly.pageFile.symm.trans hfile')
        exact h.apart hopens
      refine ⟨_, ?_, (hsettled.streamed_exits hroom hold).of_shows hshows⟩
      rw [hjoined.found_checkpoint hstays (hfile.trans hsettled.orderly.pageFile), hpool, hmemory]

/-- A session that commits into the file and the log of its path loses no statement. -/
theorem safe (h : w.Joined entry) (hopen : walIsOpen w.session = true) : w.Safe entry where
  crash := h.found_committed hopen
  exit := h.found_written hopen
  idle _ hidle := h.process_idle hopen hidle
  commits statement e hcommitting hready hcommits := by
    obtain ⟨inode, log, ids, parts, horder⟩ := hready.orderly
    obtain ⟨log', ids', parts', hsettled, hroom, hshows, hlogged⟩ :=
      horder.settles hready.room hready.checksums hcommits
    have hlogged : (replayFrames ((w.process statement).2.session.pool.files inode)
      (committedFrames log')).Shows e := hlogged
    have hjoined := h.process statement
    exact ⟨hjoined.settled_durable hsettled hshows hlogged, fun path htells hok =>
      hjoined.settled_save_durable hsettled hroom hshows hlogged htells hok⟩
  own path htells hok hown := by
    refine ⟨h.save_own hopen htells hok hown, fun hready => ?_⟩
    obtain ⟨inode, log, ids, parts, horder⟩ := hready.orderly
    exact horder.savedFile_shows hready.room
  other path htells hok hother := h.save_other hopen htells hok hother

end Desk.Joined

end

/-! ### Another spelling -/

/-- `./d` is another spelling of `d`. -/
def dotted (path : Path) : Path := if path.take 2 = [46, 47] then path.drop 2 else path

/-- A table is made, and the session saved to another file. -/
def copiedDesk : Desk :=
  run (Desk.step dotted) (Desk.opened dotted somePath emptyDisk)
    [.statement createPair, .save [101]]

/-- A statement does not open a file. -/
theorem Desk.process_openText (statement : Statement) (w : Desk) :
    (w.process statement).2.openText = w.openText := rfl

/-- The path that a desk is opened with. -/
theorem opened_openText (entry : Path → Path) (path : Path) (disk : Session) :
    (Desk.opened entry path disk).openText = path := rfl

/-- Another name of a file tells that it is another file. -/
theorem tells_copy {w : Desk} (h : w.openText = somePath) : w.Tells dotted [101] := by
  refine ⟨?_, ?_, ?_, fun _ => ?_⟩
  all_goals
    rw [h]
    decide

/-- The session that an earlier process's file is opened in. -/
def reopenedDesk : Desk := Desk.opened dotted somePath savedDisk

/-- The session of a desk that is opened. -/
theorem opened_session (entry : Path → Path) (path : Path) (disk : Session) :
    (Desk.opened entry path disk).session = openSession (entry path) disk := rfl

/-- The session of a desk after a statement. -/
theorem process_session (statement : Statement) (w : Desk) :
    (w.process statement).2.session = (processStatement statement w.session).2 := rfl

/-- The path has one spelling. -/
theorem dotted_somePath : dotted somePath = somePath := by decide

/-- The session of the example, unfolded. -/
theorem reopened_eq : reopened = openSession somePath savedDisk := rfl

/-- Its desk, unfolded. -/
theorem reopenedDesk_eq : reopenedDesk = Desk.opened dotted somePath savedDisk := rfl

/-- The session of that desk. -/
theorem reopenedDesk_session : reopenedDesk.session = reopened := by
  rw [reopenedDesk_eq, opened_session, dotted_somePath, reopened_eq]

/-- A table is made in it, and committed. -/
theorem reopenedDesk_creates : ∃ e, reopenedDesk.session.committing createPair = some e ∧
    e.Ready 2 ∧ e.Commits (reopenedDesk.process createPair).2.session := by
  obtain ⟨e, hcommits, hheaps, hindexes, hroom⟩ := reopened_creates
  obtain ⟨parts, hreopened⟩ := reopened_orderly
  have hran : (processStatement createPair reopened).1 = .ok () ∧
      (processStatement createPair reopened).2.pool.wal.map List.isEmpty = some false := by
    decide +kernel
  rw [process_session, reopenedDesk_session, processStatement_committing hcommits]
  rw [processStatement_committing hcommits] at hran
  have horder := hreopened.creating (Session.unused hheaps hindexes)
  have hchecksums : (reopened.creating e).pool.checksums = true := by
    rw [Session.creating_pool]
    exact reopened_opened.checksums
  refine ⟨reopened.creating e, hcommits, ⟨⟨0, [], [0], parts, horder⟩, hroom, hchecksums⟩, ?_⟩
  generalize hcommit : commitDatabase (reopened.creating e) = r at hran ⊢
  obtain ⟨answer, u⟩ := r
  obtain ⟨rfl, hlogs⟩ := hran
  obtain ⟨more, hmore, hsome⟩ := Option.map_eq_some_iff.mp hlogs
  refine ⟨hcommit, [], more, horder.wal, hmore, ?_⟩
  rintro rfl
  exact absurd hsome (by simp)

/-- A session that has been saved under another spelling of its path. -/
def strandedDesk : Desk :=
  run (Desk.step dotted) (Desk.opened dotted somePath emptyDisk) [.save [46, 47, 100]]

end DatabaseEngine
