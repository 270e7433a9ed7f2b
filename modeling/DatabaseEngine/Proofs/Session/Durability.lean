import DatabaseEngine.Proofs.Session.Failure

/-!
# `DatabaseEngine.Proofs.Session.Durability`: where a commit is found again

After a commit that reaches the log, the catalog is in its pages and the log has every change
(`Session.Settled`). Such a session is found again: by a crash in its file and log, by an exit in
its file, and by a save in the file that the save writes.

* `Orderly.settles`: a commit leaves the session settled.
* `Orderly.cataloguedSettled`: so does putting the catalog into its pages again, as a save does.
* `checkpoint_shows`: a checkpoint writes what the pages hold into the file.
* `Settled.exits`, `Orderly.savedFile_shows`: an exit, and a saved file.
-/

set_option autoImplicit false

namespace DatabaseEngine

open Library

/-! ### The root of a chain -/

/-- A chain starts at the page of its root. -/
theorem Chain.head? {body : Nat → Option Bytes} {root : UInt32} {ids : List Nat}
    {parts : List (List UInt8)} (h : Chain body root ids parts) (hne : ids ≠ []) :
    ids.head? = some root.toNat := by
  cases h with
  | nil => exact absurd rfl hne
  | cons _ _ _ => rfl

/-- A chain that is written over keeps its root. -/
theorem writeCatalogChain_root {s : Store Bytes} {root : UInt32} {ids : List Nat}
    {parts : List (List UInt8)} (blob : List UInt8) (hs : s.Sound)
    (hchain : Chain s.body root ids parts) (hnodup : ids.Nodup) (hne : ids ≠ [])
    (hcount : s.count + (blob.length / CATALOG_PAYLOAD + 1) ≤ 2 ^ 31) :
    (writeCatalogChain blob root).wp zeroPage (fun r _ => r = .ok root) s := by
  have hwithin : (writeCatalogChain blob root).within zeroPage (2 ^ 31)
      (fun r _ => r = .ok root) s := by
    refine PageM.within_traced.mp (PageM.within_mono
      (writeCatalogChain_within blob hs hchain hnodup (Nat.le_trans (Nat.le_add_right ..) hcount)) ?_)
    rintro _ s' ⟨root', ids', released, rfl, hlaid, -, kept, added, hids, hids', hside⟩
    have hne' : ids' ≠ [] := by
      intro hnil
      have hparts := chunks_ne_nil blob.length blob
      rw [hnil] at hlaid
      generalize chunks (blob.length + 1) blob = parts' at hlaid hparts
      cases hlaid
      exact hparts rfl
    -- both chains begin with the first page that is kept
    have hkept : kept ≠ [] := by
      rintro rfl
      rcases hside with rfl | rfl
      · exact hne hids
      · exact hne' hids'
    obtain ⟨first, rest, rfl⟩ := List.exists_cons_of_ne_nil hkept
    have hfirst := hchain.head? hne
    have hfirst' := hlaid.head? hne'
    rw [hids] at hfirst
    rw [hids'] at hfirst'
    have hroots : root'.toNat = root.toNat :=
      (Option.some.inj hfirst').symm.trans (Option.some.inj hfirst)
    exact congrArg Except.ok (UInt32.toNat.inj hroots)
  exact PageM.wp_of_within hwithin hs (Nat.le_trans (writeCatalogChain_count blob root s) hcount)

/-! ### Files that a save or a checkpoint writes -/

/-- The fields of a header page are the ones that it was made with. -/
theorem overwrite_headerPage (pages : Nat) (root : UInt32) :
    overwrite (headerPage pages root) 12 (le32 (UInt32.ofNat pages) ++ le32 root) =
      headerPage pages root := by
  rw [overwrite_head (currentHead_headerPage pages root) rfl]
  unfold headerPage putU32
  simp only [List.append_assoc]
  rfl

/-- A header that was written is read back. -/
theorem readHeader_headerPage {pages : Nat} {root : UInt32} (h : pages < 2 ^ 32) :
    readHeader (headerPage pages root) =
      .ok { version := SAVE_VERSION, pageTotal := pages, catalog := root } := by
  rw [← overwrite_headerPage]
  exact readHeader_writeFields (currentHead_headerPage pages root) h

section
variable {α : Type} [PageBody α]

/-- A streamed page is stamped, or blank. -/
theorem writePages_intact (n : Nat) {start : Nat} {p : Pool α} {page : Page α}
    (h : page ∈ (writePages start n p).1) : page.intact = true := by
  induction n generalizing start p with
  | zero => exact absurd h (by simp [writePages])
  | succ n ih =>
    unfold writePages at h
    rcases hpin : poolPin start p with ⟨_ | i, q⟩
    · rw [hpin] at h
      rcases List.mem_cons.mp h with rfl | hin
      · rfl
      · exact ih hin
    · rw [hpin] at h
      rcases List.mem_cons.mp h with rfl | hin
      · rfl
      · exact ih hin

/-- Another file may come to be. -/
theorem Pool.Refines.setOther {p : Pool α} {m : PageMap α} (h : p.Refines m) {inode : Nat}
    (hother : p.pageFile ≠ some inode) (file : DbFile α) : (p.setFile inode file).Refines m := by
  have hsupplies : (p.setFile inode file).supplies = p.supplies := by
    funext id
    unfold Pool.supplies Pool.fetch Pool.setFile
    cases hopen : p.pageFile with
    | none => rfl
    | some own =>
      have hne : own ≠ inode := fun heq => hother (heq ▸ hopen)
      simp only [Function.update_of_ne hne]
  constructor
  case directory => exact h.directory
  case sound => exact fun i f hf id hid => hsupplies ▸ h.sound i f hf id hid
  case absent => exact fun id b hnone hb => hsupplies ▸ h.absent id b hnone hb
  case unallocated => exact h.unallocated
  case owedResident => exact h.owedResident
  case freeInRange => exact h.freeInRange
  case freeNodup => exact h.freeNodup

end

/-- Opening a file with these pages, whose header names a chain of the catalog, shows the
session. -/
theorem DbFile.shows_of_pages {file : DbFile Bytes} {s : Session} {body : Nat → Option Bytes}
    {count : Nat} {root : UInt32} {ids : List Nat} {parts : List (List UInt8)}
    (hheader : readHeader file.head =
      .ok { version := SAVE_VERSION, pageTotal := count, catalog := root })
    (hholds : ∀ id b, body id = some b → id < count ∧ file.holds id = some b)
    (hchain : Chain body root ids parts) (hblob : parts.flatten = saveCatalog s.engine)
    (huses : ∀ id, s.Uses id → (body id).isSome ∧ body id = s.pool.contents.body id) :
    file.Shows s := by
  have hvisible : ∀ id, (body id).isSome → file.visible count id = body id := by
    intro id hid
    obtain ⟨b, hb⟩ := Option.isSome_iff_exists.mp hid
    obtain ⟨hlt, hread⟩ := hholds id b hb
    rw [hb, ← hread]
    exact if_pos hlt
  exact ⟨count, root, ids, parts, hheader,
    hchain.congr fun id hid => hvisible id (hchain.isSome id hid), hblob,
    fun id hid => (hvisible id (huses id hid).1).trans (huses id hid).2⟩

/-- A pool that reads with checksums hands out what its file holds. -/
theorem Pool.supplies_holds {p : Pool Bytes} {inode : Nat} (hfile : p.pageFile = some inode)
    (hchecksums : p.checksums = true) (id : Nat) : p.supplies id = (p.files inode).holds id := by
  simp only [Pool.supplies, Pool.fetch, hfile, hchecksums, Bool.not_true, Bool.false_or]
  rfl

/-- A checkpoint of a pool that holds a session's pages and root leaves a file that shows the
session. -/
theorem checkpoint_shows {p : Pool Bytes} {s : Session} {body : Nat → Option Bytes} {inode : Nat}
    {ids : List Nat} {parts : List (List UInt8)} (href : p.Refines ⟨body, fun _ => false⟩)
    (hfile : p.pageFile = some inode) (hwritable : p.writable = true)
    (hchecksums : p.checksums = true) (hcount : p.pageCount < 2 ^ 32)
    (hhead : CurrentHead (p.files inode).head) (hchain : Chain body p.catalogRootPage ids parts)
    (hblob : parts.flatten = saveCatalog s.engine)
    (huses : ∀ id, s.Uses id → (body id).isSome ∧ body id = s.pool.contents.body id) :
    ((poolCheckpoint p).files inode).Shows s := by
  have hdone := poolCheckpoint_checkpointed hfile hwritable
  have hsupplied := (checkpoint_mirrors href hfile hwritable fun _ => rfl).2
  have hheader := @readHeader_writeFields _ _ p.catalogRootPage hhead hcount
  rw [← hdone.head] at hheader
  refine DbFile.shows_of_pages hheader (fun id b hb => ⟨?_, ?_⟩) hchain hblob huses
  · by_contra hout
    have hnone : body id = none := href.unallocated id fun hallocated => hout hallocated.1
    exact absurd (hb.symm.trans hnone) (by simp)
  · rw [← Pool.supplies_holds hdone.pageFile (hdone.checksums.trans hchecksums)]
    exact hsupplied id b hb

/-- A page program leaves the engine as it is. -/
theorem pages_engine {α : Type} (s : Session) (x : PageM Bytes α) : (s.pages x).2.engine = s.engine :=
  rfl

/-- A session in order whose catalog is in its pages, with every change in the log. -/
structure Session.Settled (s : Session) (inode : Nat) (log : List (LogFrame Bytes))
    (ids : List Nat) (parts : List (List UInt8)) : Prop where
  orderly : s.Orderly inode log ids parts
  blob : parts.flatten = saveCatalog s.engine
  root : s.pool.catalogRootPage = s.catalogRoot
  checksums : s.pool.checksums = true
  count : s.pool.pageCount < 2 ^ 32

namespace Session.Orderly

variable {s : Session} {inode : Nat} {log : List (LogFrame Bytes)} {ids : List Nat}
  {parts : List (List UInt8)}

/-- The header of the session's file is one of this build. -/
theorem currentHead (h : s.Orderly inode log ids parts) :
    CurrentHead (s.pool.files inode).head := by
  have hattached := h.backed.attached (by rw [walIsOpen, h.wal]; rfl)
  obtain ⟨inode', hfile, -, hhead⟩ := hattached.file
  obtain rfl : inode = inode' := Option.some.inj (h.pageFile.symm.trans hfile)
  have hlong := h.head
  have hpage : PAGE_SIZE = 8192 := rfl
  exact ⟨by omega, hhead.2⟩

/-- The file of an orderly session can be written. -/
theorem writable (h : s.Orderly inode log ids parts) : s.pool.writable = true :=
  (h.backed.attached (by rw [walIsOpen, h.wal]; rfl)).writable

/-- The pages of tables and indexes are there. -/
theorem used (h : s.Orderly inode log ids parts) (id : Nat) (hid : s.Uses id) :
    (s.pool.plain.body id).isSome ∧ s.pool.plain.body id = s.pool.contents.body id :=
  ⟨h.full id (h.apart id hid).1, rfl⟩

/-- Putting the catalog into its pages leaves the session in order, and its root where it was if
there was one. -/
theorem cataloguedOrderly (h : s.Orderly inode log ids parts) (hroom : s.Room 1) :
    ∃ ids' parts', s.catalogued.Orderly inode log ids' parts' ∧
      parts'.flatten = saveCatalog s.engine ∧ s.catalogued.engine = s.engine ∧
      (∀ b, s.catalogued.Shows b ↔ s.Shows b) ∧ s.catalogued.pool.pageCount ≤ 2 ^ 31 ∧
      (ids ≠ [] → s.catalogued.catalogRoot = s.catalogRoot) := by
  obtain ⟨root, ids', parts', hanswer, hblob, hwritten⟩ := h.catalogued hroom
  have hsame : s.catalogued = { (s.pages s.cataloguer).2 with
      catalogRoot := root
      pool := poolSetCatalogRoot (s.pages s.cataloguer).2.pool.catalogRootPage
        (s.pages s.cataloguer).2.pool } := by
    have hpages : s.pages (writeCatalogChain (saveCatalog s.engine) s.catalogRoot)
        = s.pages s.cataloguer := rfl
    unfold Session.catalogued
    rw [hpages]
    generalize s.pages s.cataloguer = r at hanswer ⊢
    obtain ⟨answer, t⟩ := r
    obtain rfl : answer = .ok root := hanswer
    rfl
  obtain ⟨horder, hspares⟩ := h.written s.cataloguer hwritten hsame
  have hengine : s.catalogued.engine = s.engine :=
    (congrArg Session.engine hsame).trans (pages_engine s s.cataloguer)
  have hcount := hwritten.count
  have hlimit := counts hroom
  refine ⟨ids', parts', horder, hblob, hengine, (h.moved hengine hspares).2, ?_, fun hne => ?_⟩
  · rw [hsame]
    exact Nat.le_trans hcount hlimit
  · have hroot := (h.runs (x := s.cataloguer) (writeCatalogChain_root (saveCatalog s.engine)
      (h.serves.sound.hide (F := Others s ids)) h.hidden h.nodup hne (counts hroom))).1
    rw [hanswer] at hroot
    rw [hsame]
    exact Except.ok.inj hroot

/-- The file that a save writes shows the session. -/
theorem savedFile_shows (h : s.Orderly inode log ids parts) (hroom : s.Room 1) :
    s.savedFile.Shows s := by
  obtain ⟨ids', parts', horder, hblob, hengine, hshows, hcount, -⟩ := h.cataloguedOrderly hroom
  refine DbFile.Shows.of_shows (t := s.catalogued) ?_ ((hshows s).mpr ⟨⟨rfl, rfl⟩, fun _ _ => rfl⟩)
  unfold Session.savedFile
  generalize s.catalogued = c at horder hengine hcount ⊢
  have hlength : (poolWriteAll c.pool).1.length = c.pool.pageCount := writePages_length _
  have hheader := @readHeader_headerPage c.pool.pageCount c.catalogRoot (by omega)
  refine DbFile.shows_of_pages hheader (fun id b hb => ?_) horder.chain (hengine ▸ hblob)
    horder.used
  · have hlt : id < c.pool.pageCount := (horder.serves.sound.allocated (by rw [hb]; rfl)).1
    refine ⟨hlt, ?_⟩
    have hstart : c.pool.plain.body (0 + id) = some b := by rw [Nat.zero_add]; exact hb
    have hbody := writePages_body c.pool.pageCount horder.serves.refines hlt hstart
    obtain ⟨page, hpage, rfl⟩ := Option.map_eq_some_iff.mp hbody
    have hintact := writePages_intact c.pool.pageCount (List.mem_of_getElem? hpage)
    refine DbFile.holds_of_readPage ?_ hintact
    unfold DbFile.readPage
    dsimp only
    rw [if_pos (hlength.symm ▸ hlt), List.getD_eq_getElem?_getD]
    unfold poolWriteAll
    rw [hpage]
    rfl

/-- A commit of the pool leaves the session in order, with a longer log. -/
theorem poolCommit_orderly (h : s.Orderly inode log ids parts)
    (hsome : commitFrames s.pool.pageCount s.pool.catalogRootPage s.pool.frames ≠ []) {u : Session}
    (hu : u = { s with pool := poolCommit s.pool, schemaChanged := false }) :
    u.Orderly inode
        (log ++ commitFrames s.pool.pageCount s.pool.catalogRootPage s.pool.frames) ids parts ∧
      ∀ b, u.Shows b ↔ s.Shows b := by
  have hpool : (poolCommit s.pool).files = s.pool.files ∧
      (poolCommit s.pool).pageFile = s.pool.pageFile ∧
      (poolCommit s.pool).pageFrame = s.pool.pageFrame ∧
      (poolCommit s.pool).pageCount = s.pool.pageCount ∧
      (poolCommit s.pool).freeIds = s.pool.freeIds ∧
      (poolCommit s.pool).wal = some (log ++
        commitFrames s.pool.pageCount s.pool.catalogRootPage s.pool.frames) := by
    unfold poolCommit
    simp only [h.wal]
    rw [if_neg (by simpa using hsome)]
    exact ⟨rfl, rfl, rfl, rfl, rfl, rfl⟩
  obtain ⟨hfiles, hfile, hframe, hcount, hfree, hwal⟩ := hpool
  have hserves : (poolCommit s.pool).Serves s.pool.plain :=
    ⟨h.serves.refines.commit, hcount.trans h.serves.count, hfree.trans h.serves.free, fun id hid =>
      (congrFun hframe id).trans (h.serves.freeAbsent id hid)⟩
  have hplain := hserves.plain_eq h.full
  have hspares : s.pool.plain.Spares (Others s ids) (poolCommit s.pool).plain :=
    hplain.symm ▸ .refl fun _ hid => hid.1
  have hback := h.backed.commit.writesBack (.refl (poolCommit s.pool)) ⟨rfl, rfl, rfl⟩
    (t := { s with pool := poolCommit s.pool, schemaChanged := false }) ⟨rfl, rfl⟩
  subst hu
  obtain ⟨huses, hshows⟩ := h.moved
    (t := { s with pool := poolCommit s.pool, schemaChanged := false }) rfl hspares
  refine ⟨⟨hwal, hfile.trans h.pageFile, hplain.symm ▸ hserves, hplain.symm ▸ h.full, ?_, h.nodup,
    fun id hid => ?_, ?_, hback, ?_⟩, hshows⟩
  · show Chain (poolCommit s.pool).plain.body s.catalogRoot ids parts
    rw [hplain]
    exact h.chain
  · show (poolCommit s.pool).plain.Allocated id ∧ id ∉ ids
    rw [hplain]
    exact h.apart id ((huses id).mp hid)
  · show (poolCommit s.pool).KeptBy
      (replayFrames ((poolCommit s.pool).files inode) _).holds (poolCommit s.pool).plain
    rw [hplain, hfiles]
    exact fun id b hb => Or.inr (poolCommit_shows h.serves h.kept hb)
  · show PAGE_SIZE ≤ ((poolCommit s.pool).files inode).head.length
    rw [hfiles]
    exact h.head

/-- A commit that reaches the log leaves the session settled, and its log committed to the
end. -/
theorem settles (h : s.Orderly inode log ids parts) (hroom : s.Room 2)
    (hchecksums : s.pool.checksums = true) {u : Session} (hu : s.Commits u) :
    ∃ log' ids' parts', u.Settled inode log' ids' parts' ∧ u.Room 1 ∧ u.Shows s ∧
      (replayFrames (u.pool.files inode) (committedFrames log')).Shows s := by
  have hroom' : s.Room 1 := by unfold Session.Room at hroom ⊢; omega
  obtain ⟨v, ids', parts', hv, hblob, hroot, hengine, hsums, hbound, hshows, hsome, hrun⟩ :=
    h.commit_eq hroom' hu
  obtain ⟨horder, hshows'⟩ := hv.poolCommit_orderly hsome hrun
  have hsame : u.pool.pageCount = v.pool.pageCount ∧ u.pool.files = v.pool.files ∧
      u.pool.catalogRootPage = v.pool.catalogRootPage ∧ u.pool.checksums = v.pool.checksums := by
    rw [hrun]
    unfold poolCommit
    split
    · exact ⟨rfl, rfl, rfl, rfl⟩
    · dsimp only
      split <;> exact ⟨rfl, rfl, rfl, rfl⟩
  obtain ⟨hcount, hfiles, hpageRoot, hflag⟩ := hsame
  have hcatalog : u.engine = s.engine := by rw [hrun]; exact hengine
  have hfits : u.pool.pageCount + ((saveCatalog s.engine).length / CATALOG_PAYLOAD + 1) ≤ 2 ^ 31 := by
    unfold Session.Room at hroom
    omega
  have hfound := h.commits hroom' hu
  have hself : u.Shows s := (hshows' s).mpr ((hshows s).mpr ⟨⟨rfl, rfl⟩, fun _ _ => rfl⟩)
  refine ⟨_, ids', parts', ⟨horder, ?_, ?_, ?_, ?_⟩, ?_, hself, ?_⟩
  · rw [hblob, hengine, hcatalog]
  · rw [hpageRoot, hroot, hrun]
  · rw [hflag, hsums, hchecksums]
  · exact Nat.lt_of_le_of_lt (Nat.le_trans (Nat.le_add_right _ _) hfits) (by decide)
  · unfold Session.Room
    rw [hcatalog, Nat.one_mul]
    exact hfits
  · -- the log ends with a marker, so a crash replays all of it
    obtain ⟨last, hlast⟩ := Option.isSome_iff_exists.mp
      (Option.isSome_iff_ne_none.mpr fun hnone => hsome (List.getLast?_eq_none_iff.mp hnone))
    have hcommit := commitFrames_last _ _ _ hlast
    have hend := @List.getLast?_append _ log
      (commitFrames v.pool.pageCount v.pool.catalogRootPage v.pool.frames)
    rw [hlast, Option.some_or] at hend
    rw [hv.crashed_eq hfiles (by rw [hrun]; exact ⟨rfl, rfl, rfl⟩) horder.wal hend hcommit] at hfound
    rw [committedFrames_eq hend hcommit, hfiles]
    exact hfound

end Session.Orderly

/-- Streaming leaves the page count and the root of the pool alone. -/
theorem streamed_fields (s : Session) :
    s.streamed.pool.pageCount = s.catalogued.pool.pageCount ∧
      s.streamed.pool.catalogRootPage = s.pool.catalogRootPage := by
  have honly := (catalogued_poolOnly s).pool
  unfold Session.streamed
  generalize s.catalogued = c at honly ⊢
  have hall : c.pool.WritesBack (poolWriteAll c.pool).2 := writePages_writesBack _ _ _
  have hpages : (poolWriteAll c.pool).2.pageCount = c.pool.pageCount := writePages_pageCount _
  generalize poolWriteAll c.pool = r at hall hpages ⊢
  exact ⟨hpages, hall.catalogRootPage.trans honly.catalogRootPage⟩

/-! ### Where a settled session is found -/

namespace Session.Settled

variable {s : Session} {inode : Nat} {log : List (LogFrame Bytes)} {ids : List Nat}
  {parts : List (List UInt8)}

/-- The chain of a catalog has a page. -/
theorem chained (h : s.Settled inode log ids parts) : ids ≠ [] := by
  rintro rfl
  have hchain := h.orderly.chain
  have hblob := h.blob
  generalize s.catalogRoot = root at hchain
  cases hchain
  have hlength := congrArg List.length hblob
  unfold saveCatalog at hlength
  simp [putU32, le32] at hlength

/-- An exit leaves a file that shows the session. -/
theorem exits (h : s.Settled inode log ids parts) :
    ((closeDatabase s).pool.files inode).Shows s := by
  have hchain := h.orderly.chain
  rw [← h.root] at hchain
  exact checkpoint_shows h.orderly.serves.refines h.orderly.pageFile h.orderly.writable h.checksums
    h.count h.orderly.currentHead hchain h.blob h.orderly.used

/-- So does an exit behind a save to another path. -/
theorem streamed_exits (h : s.Settled inode log ids parts) (hroom : s.Room 1)
    (hold : inode ≠ s.catalogued.nextInode) :
    ((poolCheckpoint s.streamed.pool).files inode).Shows s := by
  obtain ⟨ids', parts', horder, hblob, hengine, hshows, hcount, hroot⟩ :=
    h.orderly.cataloguedOrderly hroom
  have honly := (catalogued_poolOnly s).pool
  have hsame : s.catalogued.pool.catalogRootPage = s.catalogued.catalogRoot := by
    rw [honly.catalogRootPage, h.root, hroot h.chained]
  have hchecksums : s.catalogued.pool.checksums = true := honly.checksums.trans h.checksums
  refine DbFile.Shows.of_shows (t := s.catalogued) ?_ ((hshows s).mpr ⟨⟨rfl, rfl⟩, fun _ _ => rfl⟩)
  unfold Session.streamed
  generalize s.catalogued = c at horder hengine hcount hold hsame hchecksums ⊢
  have hall : c.pool.WritesBack (poolWriteAll c.pool).2 := writePages_writesBack _ _ _
  have hpages : (poolWriteAll c.pool).2.pageCount = c.pool.pageCount := writePages_pageCount _
  have href := horder.serves.refines.writeAll
  have hhead : ((poolWriteAll c.pool).2.files inode).head = (c.pool.files inode).head :=
    horder.head_kept hall
  generalize poolWriteAll c.pool = r at hall hpages href hhead ⊢
  have hfile : r.2.pageFile = some inode := hall.pageFile.trans horder.pageFile
  have hother : r.2.pageFile ≠ some c.nextInode := by
    rw [hfile]
    exact fun heq => hold (Option.some.inj heq)
  have hchain := horder.chain
  rw [← hsame, ← hall.catalogRootPage] at hchain
  refine checkpoint_shows (href.setOther hother _) hfile (hall.writable.trans horder.writable)
    (hall.checksums.trans hchecksums) ?_ ?_ hchain (hengine ▸ hblob) horder.used
  · show r.2.pageCount < 2 ^ 32
    omega
  · show CurrentHead (Function.update r.2.files c.nextInode _ inode).head
    rw [Function.update_of_ne hold, hhead]
    exact horder.currentHead

/-- An exit of a session that pages through its saved file writes the header that is there. -/
theorem saved_exits (h : s.Settled inode log ids parts) (hroom : s.Room 1) {p : Pool Bytes}
    {saved : Nat} (hfile : p.pageFile = some saved) (hwritable : p.writable = true)
    (hclean : ∀ (i : Nat) f, p.frames[i]? = some f → f.pageId.isSome → f.dirty = false)
    (hsaved : p.files saved = s.savedFile) (hcount : p.pageCount = s.catalogued.pool.pageCount)
    (hroot : p.catalogRootPage = s.pool.catalogRootPage) :
    ((poolCheckpoint p).files saved).Shows s := by
  obtain ⟨-, -, -, -, -, -, -, hkept⟩ := h.orderly.cataloguedOrderly hroom
  have hfields : s.savedFile.writeFields p.pageCount p.catalogRootPage = s.savedFile := by
    rw [hcount, hroot, h.root, ← hkept h.chained]
    unfold DbFile.writeFields Session.savedFile
    dsimp only
    rw [overwrite_headerPage]
  rw [poolCheckpoint_clean hfile hwritable hclean, hsaved, hfields]
  exact h.orderly.savedFile_shows hroom

end Session.Settled

end DatabaseEngine
