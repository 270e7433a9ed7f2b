import DatabaseEngine.Proofs.Session.Reload
import DatabaseEngine.Proofs.Session.Transaction
import DatabaseEngine.Spec.Catalog

/-!
# `DatabaseEngine.Proofs.Session.Rollback`: ROLLBACK takes the session back to BEGIN

BEGIN checkpoints, so the file holds every page as it was. What follows stays in memory
(`inside_run`), and ROLLBACK throws the dirty frames away and loads the file again. What the
file cannot give back is a catalog that was never written into it: a statement that failed
half way leaves pages that BEGIN's checkpoint writes out and a heap that no catalog page
describes.

* `begin_eq`, `rollback_eq`: the session after BEGIN and after ROLLBACK.
* `rollback_restores_iff`: for every sequence of statements in between, ROLLBACK restores the
  catalog and every page that could be read, if and only if the catalog pages describe the
  catalog the session had at BEGIN.
* `Session.Opened.catalogWritten`: they do in a session that has just opened its file.
* `rollback_loses_row`: a session whose last statement committed and which loses a row.
-/

set_option autoImplicit false

namespace DatabaseEngine

open Library

/-- The catalog that the session's catalog pages describe, as BEGIN's checkpoint puts them
into the file. -/
def Session.recorded (s : Session) (inode : Nat) : Option Engine :=
  storedCatalog s.memory s.catalogRoot
    (openedPool inode s.pool.pageCount (poolCheckpoint s.pool))

/-- The catalog pages describe the catalog in memory. -/
def Session.CatalogWritten (s : Session) (inode : Nat) : Prop :=
  ∃ e, s.recorded inode = some e ∧ SameCatalog s.engine e

/-- The session `t` is back where `s` was: the catalog, the page count, and what every
program sees that looks at pages in use, be it a scan of a table, a read of one position or a
walk of an index. The file is the one that BEGIN left. -/
structure Session.BackAt (s begun t : Session) (inode : Nat) : Prop where
  catalog : SameCatalog s.engine t.engine
  pageCount : t.pool.pageCount = s.pool.pageCount
  answers : ∀ {γ : Type} (x : PageM Bytes γ) (a : γ),
    x.Looks s.pool.Readable s.pool.pageCount s.pool.look a →
      (onPool x s.pool).1 = a ∧ (onPool x t.pool).1 = a
  pageFile : t.pool.pageFile = some inode
  file : t.pool.files inode = begun.pool.files inode

/-- BEGIN. -/
def beginStatement : Statement := StatementKind.STMT_BEGIN.alone
/-- COMMIT. -/
def commitStatement : Statement := StatementKind.STMT_COMMIT.alone
/-- ROLLBACK. -/
def rollbackStatement : Statement := StatementKind.STMT_ROLLBACK.alone

/-- The session after BEGIN. -/
def Session.begun (s : Session) : Session :=
  { s with
    pool := poolCheckpoint s.pool
    transactionPages := (poolCheckpoint s.pool).pageCount
    transactionOpen := true }

/-- Whatever statements come between BEGIN and ROLLBACK, ROLLBACK succeeds and the session is
back at BEGIN. -/
def Session.RollsBack (s : Session) (inode : Nat) : Prop :=
  ∀ statements : List Statement,
    (∀ statement ∈ statements, statement.kind.endsTransaction = false) →
    let begun := (processStatement beginStatement s).2
    let last := afterStatements begun statements
    (rollbackTransaction last).1 = .ok () ∧
      s.BackAt begun (processStatement rollbackStatement last).2 inode

/-! ### BEGIN -/

/-- A statement that the executor has done with. -/
theorem processStatement_done {statement checked : Statement} {s u : Session}
    (hcheck : semanticCheck s.engine statement = .ok checked)
    (hexec : executeStatement checked s = (.ok (), u)) :
    processStatement statement s =
      if u.pool.corrupt ≠ s.pool.corrupt then (.error .IO_CHECKSUM, u)
      else
        let v := if changesSchema checked.kind then { u with schemaChanged := true } else u
        if !(!s.transactionOpen && readsOnly statement.kind) && !v.transactionOpen then
          commitDatabase v
        else (.ok (), v) := by
  unfold processStatement
  simp only [hcheck, hexec, andThen]

/-- A BEGIN outside a transaction. -/
theorem begin_eq {s : Session} (h : s.transactionOpen = false) :
    processStatement beginStatement s = (.ok (), s.begun) := by
  have hexec : executeStatement beginStatement s = (.ok (), s.begun) := by
    show beginTransaction s = _
    simp only [beginTransaction, h]
    rfl
  have hcorrupt : s.begun.pool.corrupt = s.pool.corrupt := by
    show (poolCheckpoint s.pool).corrupt = _
    cases hw : s.pool.writable with
    | false => simp [poolCheckpoint, hw]
    | true =>
      cases hf : s.pool.pageFile with
      | none => simp [poolCheckpoint, hf]
      | some inode => exact (poolCheckpoint_checkpointed hf hw).corrupt
  rw [processStatement_done rfl hexec, if_neg (by simp [hcorrupt])]
  have hkind : changesSchema beginStatement.kind = false := rfl
  have hopen : s.begun.transactionOpen = true := rfl
  simp only [hkind, hopen, Bool.false_eq_true, if_false, Bool.not_true, Bool.and_false]

/-! ### ROLLBACK -/

/-- A flush that finds nothing to write. -/
theorem flushDirty_clean (n : Nat) {p : Pool Bytes} {i : Nat}
    (h : ∀ (i : Nat) f, p.frames[i]? = some f → f.pageId.isSome → f.dirty = false) :
    flushDirty i n p = p := by
  induction n generalizing i with
  | zero => rfl
  | succ n ih =>
    unfold flushDirty
    cases hf : p.frames[i]? with
    | none => rfl
    | some f =>
      have hclean : ¬(f.pageId.isSome && f.dirty) = true := by
        cases hheld : f.pageId.isSome with
        | false => simp
        | true => simp [h i f hf hheld]
      simp only [hclean]
      exact ih

/-- A checkpoint with nothing to flush writes the header. -/
theorem poolCheckpoint_clean {p : Pool Bytes} {inode : Nat} (hfile : p.pageFile = some inode)
    (hwritable : p.writable = true)
    (hclean : ∀ (i : Nat) f, p.frames[i]? = some f → f.pageId.isSome → f.dirty = false) :
    (poolCheckpoint p).files inode =
      (p.files inode).writeFields p.pageCount p.catalogRootPage := by
  rw [poolCheckpoint_eq hfile hwritable (flushDirty_clean _ hclean) hfile hwritable, walTruncate_eq]
  exact Function.update_self _ _ _

/-- After `poolRollback` no page is dirty. -/
theorem poolRollback_clean (pages : Nat) (p : Pool Bytes) (i : Nat) (f : Frame Bytes)
    (hf : (poolRollback pages p).frames[i]? = some f) (hheld : f.pageId.isSome) :
    f.dirty = false := by
  simp only [poolRollback, List.getElem?_map, Option.map_eq_some_iff] at hf
  obtain ⟨g, -, rfl⟩ := hf
  split
  · rfl
  · rename_i hclean
    rw [if_neg hclean] at hheld
    simpa [hheld] using hclean

section
variable {s t : Session} {inode : Nat}

/-- The session in which ROLLBACK starts to load. -/
def Session.discarded (t : Session) : Session :=
  { t with
    schemaChanged := false
    transactionOpen := false
    pool := poolRollback t.transactionPages t.pool }

/-- The pool that ROLLBACK closes: the transaction's pages are gone, and the file is the one
that BEGIN left. -/
theorem rolledBack_pool (h : s.FileBacked inode) (hin : s.begun.Inside t) :
    (closeDatabase t.discarded).pool.files = s.begun.pool.files := by
  have hdone := poolCheckpoint_checkpointed h.pageFile h.writable
  have hheld := hin.pool
  let r := poolRollback t.transactionPages t.pool
  have hfile : r.pageFile = some inode := hheld.pageFile.trans hdone.pageFile
  have hwritable : r.writable = true := hheld.writable.trans hdone.writable
  have hcount : r.pageCount = s.pool.pageCount := by
    show (if t.transactionPages < t.pool.pageCount then t.transactionPages
      else t.pool.pageCount) = _
    have hpages : t.transactionPages = s.begun.pool.pageCount := hin.transactionPages
    have hsame : s.begun.pool.pageCount = s.pool.pageCount := hdone.pageCount
    have hle := hheld.pageCount
    split <;> omega
  have hroot : r.catalogRootPage = s.pool.catalogRootPage :=
    hheld.catalogRootPage.trans hdone.catalogRootPage
  -- nothing is dirty, so the checkpoint writes the header only, and the same one again
  have hfiles : (poolCheckpoint r).files = Function.update r.files inode
      ((r.files inode).writeFields r.pageCount r.catalogRootPage) := by
    have hflush : flushDirty 0 r.frames.length r = r :=
      flushDirty_clean _ (poolRollback_clean t.transactionPages t.pool)
    rw [poolCheckpoint_eq hfile hwritable hflush hfile hwritable, walTruncate_eq]
    rfl
  have hrfiles : r.files = s.begun.pool.files := hheld.files
  have hsame : (r.files inode).writeFields r.pageCount r.catalogRootPage = r.files inode := by
    have hhead : (r.files inode).head = overwrite (s.pool.files inode).head 12
        (le32 (UInt32.ofNat s.pool.pageCount) ++ le32 s.pool.catalogRootPage) := by
      rw [hrfiles]
      exact hdone.head
    unfold DbFile.writeFields
    rw [hhead, hcount, hroot, overwrite_again h.head rfl, ← hhead]
  show (poolCheckpoint r).files = _
  rw [hfiles, hsame, Function.update_eq_self]
  exact hrfiles

/-- What ROLLBACK does in a session that logs to its own file. -/
theorem rollback_loads (hopen : t.transactionOpen = true) (hnamed : t.openPath ≠ [])
    (hlog : walIsOpen t = true) :
    rollbackTransaction t =
      andThen (loadDatabase t.openPath t.discarded) fun _ u => openForWrite t.openPath u := by
  have hlog' : walIsOpen { t with schemaChanged := false } = true := hlog
  unfold rollbackTransaction
  rw [if_neg (by simp [hopen])]
  dsimp only
  rw [if_neg hnamed]
  simp only [hlog', if_true]
  rfl

/-- ROLLBACK loads the file with the header that BEGIN wrote. -/
theorem rollback_eq (h : s.FileBacked inode) (hin : s.begun.Inside t) :
    rollbackTransaction t =
      andThen (loadPages s.openPath inode
        { version := SAVE_VERSION, pageTotal := s.pool.pageCount, catalog := s.catalogRoot }
        (closeDatabase t.discarded))
        fun _ u => openForWrite s.openPath u := by
  have hdone := poolCheckpoint_checkpointed h.pageFile h.writable
  have hpath : t.openPath = s.openPath := hin.openPath
  have hlog : walIsOpen t = true := by
    have hwal : t.pool.wal = s.pool.wal.map fun _ => [] := hin.pool.wal.trans hdone.wal
    have := h.log
    simp only [walIsOpen, hwal] at this ⊢
    simpa using this
  have hfiles := rolledBack_pool h hin
  have hopens : (closeDatabase t.discarded).openFile s.openPath = some inode := by
    have hsame : (closeDatabase t.discarded).openFile s.openPath = s.openFile s.openPath := by
      show (if t.canOpen s.openPath then t.names s.openPath else none) = _
      rw [hin.canOpen, hin.names]
      rfl
    rw [hsame]
    exact h.opens
  have hhead : readHeader ((closeDatabase t.discarded).pool.files inode).head =
      .ok { version := SAVE_VERSION, pageTotal := s.pool.pageCount, catalog := s.catalogRoot } := by
    have hwritten : (s.begun.pool.files inode).head = _ := hdone.head
    rw [hfiles, hwritten, h.root]
    exact readHeader_writeFields h.head h.count
  have hload : loadDatabase s.openPath t.discarded =
      loadPages s.openPath inode
        { version := SAVE_VERSION, pageTotal := s.pool.pageCount, catalog := s.catalogRoot }
        (closeDatabase t.discarded) := by
    have hopen : walIsOpen t.discarded = true := hlog
    simp only [loadDatabase, hopen, if_true, hopens, hhead]
  rw [rollback_loads hin.transactionOpen (hpath ▸ h.named) hlog, hpath, hload]

/-- Two pools that read the same file hold the same catalog. -/
theorem storedCatalog_congr {p q : Pool Bytes} (memory : Nat) (root : UInt32)
    (hp : p.Mirrors fun _ => True) (hq : q.Mirrors fun _ => True)
    (hcount : q.pageCount = p.pageCount) (hvisible : q.visible = p.visible) :
    storedCatalog memory root q = storedCatalog memory root p := by
  unfold storedCatalog
  rw [hcount]
  obtain ⟨blob, hblob⟩ :=
    (readCatalogChain_readOnly memory (p.pageCount + 1) root []).looks p.pageCount p.visible
  have hread := hp.looks hblob
  rw [← hvisible, ← hcount] at hblob
  rw [hread, ← hcount, hq.looks hblob]

/-- What a pool just opened supplies depends on the file alone. -/
theorem openedPool_visible {p q : Pool Bytes} (pages : Nat) (hfiles : q.files = p.files) :
    (openedPool inode pages q).visible = (openedPool inode pages p).visible := by
  funext id
  simp only [Pool.visible, Pool.supplies, Pool.fetch, openedPool, poolSetChecksums, poolAdopt,
    poolInit, poolClear, hfiles]
  rfl

/-- The session that ROLLBACK leaves holds what the file holds. -/
theorem rollback_reloads (h : s.FileBacked inode) (hin : s.begun.Inside t) {e : Engine}
    (he : s.recorded inode = some e) :
    ∃ u, rollbackTransaction t = (.ok (), u) ∧ u.engine.Alike e ∧
      (closeDatabase t.discarded).Opened u s.openPath inode s.pool.pageCount s.catalogRoot := by
  let c := closeDatabase t.discarded
  have hfiles : c.pool.files = s.begun.pool.files := rolledBack_pool h hin
  have hstored : storedCatalog c.memory s.catalogRoot (openedPool inode s.pool.pageCount c.pool)
      = some e := by
    have hmemory : c.memory = s.memory := hin.memory
    rw [← he, hmemory]
    exact storedCatalog_congr _ _ (openedPool_mirrors _ _ _ _) (openedPool_mirrors _ _ _ _) rfl
      (openedPool_visible _ hfiles)
  have hopens : c.openFile s.openPath = some inode := by
    have hc : c.openFile s.openPath = if t.canOpen s.openPath then t.names s.openPath else none :=
      rfl
    rw [hc, hin.canOpen, hin.names]
    exact h.opens
  obtain ⟨v, u, hload, hwrite, hlike, -, -, -, hopened⟩ := loadPages_opened hstored hopens
  refine ⟨u, ?_, hlike, hopened⟩
  rw [rollback_eq h hin, hload]
  exact hwrite

/-- Without a catalog in the file, ROLLBACK fails. -/
theorem rollback_refused (h : s.FileBacked inode) (hin : s.begun.Inside t)
    (hnone : s.recorded inode = none) : ∃ code u, rollbackTransaction t = (.error code, u) := by
  let c := closeDatabase t.discarded
  have hfiles : c.pool.files = s.begun.pool.files := rolledBack_pool h hin
  have hstored : storedCatalog c.memory s.catalogRoot (openedPool inode s.pool.pageCount c.pool)
      = none := by
    have hmemory : c.memory = s.memory := hin.memory
    rw [← hnone, hmemory]
    exact storedCatalog_congr _ _ (openedPool_mirrors _ _ _ _) (openedPool_mirrors _ _ _ _) rfl
      (openedPool_visible _ hfiles)
  obtain ⟨code, u, hload⟩ := loadPages_refused hstored
  refine ⟨code, u, ?_⟩
  rw [rollback_eq h hin, hload]
  rfl

/-- In a session that was just opened there is nothing to commit. -/
theorem Session.Opened.commit {c u : Session} {path : Path} {pages : Nat} {root : UInt32}
    (h : c.Opened u path inode pages root) (hschema : c.schemaChanged = false) :
    commitDatabase u = (.ok (), u) := by
  have hclean : poolHasDirty u.pool = false := by
    unfold poolHasDirty
    rw [List.any_eq_false]
    intro f hf
    obtain ⟨i, hlt, rfl⟩ := List.getElem_of_mem hf
    have := h.mirrors.clean i _ (List.getElem?_eq_getElem hlt)
    simp only [Bool.and_eq_true, not_and]
    intro hheld
    simp [this hheld]
  unfold commitDatabase
  rw [if_pos (by simp [hclean, h.schemaChanged, hschema])]

/-- The ROLLBACK statement leaves what `rollbackTransaction` leaves. -/
theorem rollbackStatement_leaves {u : Session} (hdone : rollbackTransaction t = (.ok (), u))
    (hcommit : commitDatabase u = (.ok (), u)) :
    (processStatement rollbackStatement t).2 = u := by
  have hexec : executeStatement rollbackStatement t = (.ok (), u) := hdone
  rw [processStatement_done rfl hexec]
  split
  · rfl
  · have hkind : changesSchema rollbackStatement.kind = false := rfl
    simp only [hkind, Bool.false_eq_true, if_false]
    split
    · rw [hcommit]
    · rfl

/-- After BEGIN the transaction has nothing in memory that the file lacks. -/
theorem begun_inside (h : s.FileBacked inode) : s.begun.Inside s.begun := by
  have hdone := poolCheckpoint_checkpointed h.pageFile h.writable
  refine ⟨Pool.Held.refl fun f hf hheld hdirty => ?_, rfl, rfl, rfl, rfl, rfl, rfl, rfl⟩
  obtain ⟨i, hlt, rfl⟩ := List.getElem_of_mem hf
  rw [hdone.clean i _ (List.getElem?_eq_getElem hlt) hheld] at hdirty
  exact absurd hdirty (by simp)

/-- Every page that could be read at BEGIN reads the same after the reload. -/
theorem reload_answers {u : Session}
    (hback : (closeDatabase t.discarded).Opened u s.openPath inode s.pool.pageCount s.catalogRoot)
    (h : s.FileBacked inode) (hin : s.begun.Inside t) (href : s.pool.InOrder) {γ : Type}
    {x : PageM Bytes γ} {a : γ}
    (hx : x.Looks s.pool.Readable s.pool.pageCount s.pool.look a) :
    (onPool x s.pool).1 = a ∧ (onPool x u.pool).1 = a := by
  have hmap : ∀ id, s.pool.Readable id → s.pool.contents.body id = s.pool.look id :=
    fun id hid => if_pos hid.1
  constructor
  · exact (href.looks (hx.congr fun id hid =>
      ⟨Pool.contents_isSome.mpr hid, hmap id hid⟩)).1
  · have hfile := (checkpoint_mirrors href h.pageFile h.writable fun _ => rfl).2
    have hvisible : ∀ id, s.pool.Readable id → u.pool.visible id = s.pool.look id := by
      intro id hid
      obtain ⟨b, hb⟩ := Option.isSome_iff_exists.mp hid.2
      have hdone := poolCheckpoint_checkpointed h.pageFile h.writable
      rw [hback.visible, openedPool_visible _ (rolledBack_pool h hin), hb,
        ← hfile id b ((hmap id hid).trans hb)]
      have hpage : (poolCheckpoint s.pool).pageFile = some inode := hdone.pageFile
      have hsums : (poolCheckpoint s.pool).checksums = true := hdone.checksums.trans h.checksums
      show (if id < s.pool.pageCount then _ else none) = _
      rw [if_pos hid.1.1]
      simp only [Pool.supplies, Pool.fetch, hpage, hsums]
      rfl
    have hlooks : x.Looks (fun _ => True) u.pool.pageCount u.pool.visible a := by
      rw [hback.pageCount]
      exact hx.congr fun id hid => ⟨trivial, hvisible id hid⟩
    exact hback.mirrors.looks hlooks

end

/-- The catalog of a session that has just opened its file is in the file. -/
theorem Session.Opened.catalogWritten {c u : Session} {path : Path} {inode pages : Nat}
    {root : UInt32} {e : Engine} (h : c.Opened u path inode pages root)
    (hlike : u.engine.Alike e)
    (he : storedCatalog c.memory root (openedPool inode pages c.pool) = some e) :
    u.CatalogWritten inode := by
  refine ⟨e, ?_, .of_databases hlike.1⟩
  unfold Session.recorded
  rw [h.memory, h.root, h.pageCount, ← he]
  refine storedCatalog_congr _ _ (openedPool_mirrors _ _ _ _) (openedPool_mirrors _ _ _ _) rfl ?_
  -- the checkpoint writes the header, and no page
  have hfile := poolCheckpoint_clean h.pageFile h.writable h.mirrors.clean
  funext id
  simp only [Pool.visible, Pool.supplies, Pool.fetch, openedPool, poolSetChecksums, poolAdopt,
    poolInit, poolClear, hfile, h.files, DbFile.readPage_writeFields]
  rfl

/-- For every sequence of statements that does not end the transaction, whether they succeed
or fail, ROLLBACK takes the session back to BEGIN, if and only if the catalog pages described
its catalog at BEGIN. -/
theorem rollback_restores_iff (s : Session) (inode : Nat) (h : s.FileBacked inode)
    (href : s.pool.InOrder) (hclosed : s.transactionOpen = false) :
    s.RollsBack inode ↔ s.CatalogWritten inode := by
  have hstart := begun_inside h
  have hbegun : (processStatement beginStatement s).2 = s.begun := by rw [begin_eq hclosed]
  constructor
  · intro hback
    obtain ⟨hok, hat⟩ := hback [] (by simp)
    rw [hbegun] at hok hat
    cases hrecorded : s.recorded inode with
    | none =>
      obtain ⟨code, u, hfails⟩ := rollback_refused h hstart hrecorded
      have hok : (rollbackTransaction s.begun).1 = .ok () := hok
      rw [hfails] at hok
      exact absurd hok (by simp)
    | some e =>
      obtain ⟨u, hdone, hlike, hopened⟩ := rollback_reloads h hstart hrecorded
      refine ⟨e, hrecorded, ?_⟩
      have hcatalog : SameCatalog s.engine (processStatement rollbackStatement s.begun).2.engine :=
        hat.catalog
      rw [rollbackStatement_leaves hdone (hopened.commit rfl)] at hcatalog
      unfold SameCatalog at hcatalog ⊢
      rw [hlike.1] at hcatalog
      exact hcatalog
  · rintro ⟨e, hrecorded, hsame⟩ statements hkinds
    rw [hbegun]
    have hin := inside_run hstart hkinds
    dsimp only
    obtain ⟨u, hdone, hlike, hopened⟩ := rollback_reloads h hin hrecorded
    rw [rollbackStatement_leaves hdone (hopened.commit rfl), hdone]
    refine ⟨rfl, ?_, hopened.pageCount, fun x a hx => reload_answers hopened h hin href hx,
      hopened.pageFile, congrFun (hopened.files.trans (rolledBack_pool h hin)) inode⟩
    unfold SameCatalog at hsame ⊢
    rw [hlike.1]
    exact hsame

/-! ### A session that is restored, and one that is not -/

/-- A file named `d`. -/
def somePath : Path := [100]

/-- Two text columns. -/
def createPair : Statement :=
  (StatementKind.STMT_CREATE_TABLE
    { table := Name.ofBytes [116]
      cols := [plainColumn [97] .TYPE_TEXT, plainColumn [98] .TYPE_TEXT]
      check := noCondition }).alone

/-- `INSERT INTO t VALUES (a, b)`. -/
def insertPair (a b : List UInt8) : Statement :=
  (StatementKind.STMT_INSERT
    { table := Name.ofBytes [116], columns := [], values := [setText a, setText b] }).alone

/-- `CREATE INDEX i ON t (a)`. -/
def createIndexA : Statement :=
  (StatementKind.STMT_CREATE_INDEX
    { name := Name.ofBytes [105], table := Name.ofBytes [116], column := Name.ofBytes [97] }).alone

/-- What an earlier session has left: a file with a table of two rows and an index, and the catalog
in its first page. -/
def firstSession : Session :=
  closeSession (afterStatements (openSession somePath startSession)
    [createPair, createIndexA, insertPair [1] [2], insertPair [3] [4]])

/-- The session that opens it. -/
def secondSession : Session := openSession somePath firstSession

/-- The file of the first session, as it lies on the disk. -/
theorem firstSession_file :
    firstSession.logs somePath = none ∧ walIsOpen firstSession = false ∧
      firstSession.openFile somePath = some 0 ∧ CurrentHead (firstSession.pool.files 0).head ∧
      readHeader (firstSession.pool.files 0).head =
        .ok { version := SAVE_VERSION, pageTotal := 3, catalog := 0 } ∧
      (storedCatalog firstSession.memory 0 (openedPool 0 3 firstSession.pool)).isSome = true := by
  decide +kernel

/-- The second session has opened it. -/
theorem secondSession_opened :
    secondSession.FileBacked 0 ∧ secondSession.pool.InOrder ∧
      secondSession.transactionOpen = firstSession.transactionOpen ∧
      secondSession.CatalogWritten 0 := by
  obtain ⟨hlogs, hwal, hopens, hhead, hfields, hsome⟩ := firstSession_file
  obtain ⟨e, he⟩ := Option.isSome_iff_exists.mp hsome
  obtain ⟨hlike, h⟩ := openSession_opened (by decide) hlogs hwal hopens hhead hfields he
  exact ⟨h.fileBacked (by decide) hopens hhead (by decide), h.inOrder, h.transactionOpen,
    h.catalogWritten hlike he⟩

/-- The file has the table, its rows and the index; whatever a transaction does, ROLLBACK takes the
session back to them. -/
theorem rollback_restores_iff_second :
    secondSession.CatalogWritten 0 ∧ secondSession.RollsBack 0 := by
  obtain ⟨hbacked, horder, hclosed, hwritten⟩ := secondSession_opened
  exact ⟨hwritten, (rollback_restores_iff secondSession 0 hbacked horder
    (hclosed.trans (by decide +kernel))).mpr hwritten⟩

/-- `UPDATE t SET a = b`. -/
def copyColumn : Statement :=
  (StatementKind.STMT_UPDATE
    { table := Name.ofBytes [116], sets := [⟨Name.ofBytes [97], 0⟩],
      exprs := [columnOperand [98]], wher := noCondition }).alone

/-- The UPDATE fails at the second row, which grows too large, after it has moved the first. -/
def halfUpdated : Session :=
  afterStatements (openSession somePath startSession)
    [createPair, insertPair [1] [2], insertPair [1] (List.replicate 4100 65), copyColumn]

/-- The transaction after it has nothing to write, and commits. -/
def staleSession : Session := afterStatements halfUpdated [beginStatement, commitStatement]

/-- Its last statement committed, and ROLLBACK does not take it back to where it was: the
page that the first row moved to in the heap is described by no catalog page. -/
theorem rollback_loses_row :
    (processStatement commitStatement (afterStatements halfUpdated [beginStatement])).1 = .ok () ∧
      staleSession.FileBacked 0 ∧ staleSession.transactionOpen = false ∧
      ¬staleSession.RollsBack 0 := by
  have hrun :
      ((processStatement commitStatement (afterStatements halfUpdated [beginStatement])).1 = .ok () ∧
        staleSession.FileBacked 0 ∧ staleSession.transactionOpen = false) ∧
      heapPages staleSession.engine (Name.ofBytes DEFAULT_DB_NAME) (Name.ofBytes [116]) ≠
        heapPages (processStatement rollbackStatement
            (afterStatements (processStatement beginStatement staleSession).2 [])).2.engine
          (Name.ofBytes DEFAULT_DB_NAME) (Name.ofBytes [116]) := by
    decide +kernel
  refine ⟨hrun.1.1, hrun.1.2.1, hrun.1.2.2, fun hback => ?_⟩
  have hat := (hback [] (by simp)).2
  exact hrun.2 (hat.catalog.heapPages (Name.ofBytes DEFAULT_DB_NAME) (Name.ofBytes [116]))

end DatabaseEngine
