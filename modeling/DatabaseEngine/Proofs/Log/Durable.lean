import DatabaseEngine.Library.Run
import DatabaseEngine.Model.Log
import DatabaseEngine.Proofs.Session.Failure

/-!
# `DatabaseEngine.Proofs.Log.Durable`: what a crash leaves of a log with failed writes

The pool and its log are to be a durable store: what the pages hold when a commit or a checkpoint
succeeds is what a crash leaves of them, until the next one succeeds. `Saved` is that store.
Frames are found by their place in the file, so all of it depends on where an append begins.

* `walFrames_whole`: from a file of whole frames, and a rest, the committed ones are read back.
* `Durable.work`, `Durable.commit`, `Durable.checkpoint`: what each step keeps.
* `durable_run`: as long as every append begins at the end of a frame, a crash leaves `Saved`.
* `torn_frame_loses`: one byte of a frame, and what the next commit wrote is gone.
-/

set_option autoImplicit false

namespace DatabaseEngine

open Library

/-! ### Reading the log back -/

/-- The header of a log has its size. -/
theorem walHeader_length : walHeader.length = WAL_HEADER := rfl

/-- What is committed is everything up to the last mark. -/
theorem committedFrames_upTo (log : List (LogFrame Bytes)) :
    committedFrames log = upTo LogFrame.commit log := rfl

/-- A file without a whole header has no frames. -/
theorem walFrames_short {bytes : List UInt8} (h : bytes.length < WAL_HEADER) :
    walFrames bytes = [] := by
  unfold walFrames
  rw [if_pos (Or.inl h)]

/-- The frames that were written whole and are committed are read back. -/
theorem walFrames_whole (log : List (LogFrame Bytes)) {torn : List UInt8}
    (htorn : torn.length < FRAME_SIZE) :
    walFrames (walHeader ++ log.flatMap frameBytes ++ torn)
      = (committedFrames log).map LogFrame.raw := by
  generalize hrest : log.flatMap frameBytes ++ torn = rest
  have hbytes : walHeader ++ log.flatMap frameBytes ++ torn = walHeader ++ rest := by
    rw [List.append_assoc, hrest]
  have hmagic : (walHeader ++ rest).take WAL_MAGIC_LEN = WAL_MAGIC := rfl
  have hsize : getU32At (walHeader ++ rest) 12 = UInt32.ofNat PAGE_SIZE :=
    @getU32At_le32 _ (WAL_MAGIC ++ putU32 WAL_VERSION) _ _ (by
      rw [← List.append_assoc]
      rfl)
  have hlong : ¬(walHeader ++ rest).length < WAL_HEADER := by
    rw [List.length_append, walHeader_length]
    omega
  have hscan : frameFraming.scan (walHeader ++ rest).length ((walHeader ++ rest).drop WAL_HEADER)
      = log.map LogFrame.raw := by
    rw [← walHeader_length, List.drop_left, ← hrest]
    refine frameFraming.scan_whole htorn ?_
    have hlength := frameFraming.flatMap_length log
    have hone : log.length ≤ log.length * FRAME_SIZE := Nat.le_mul_of_pos_right _ (by decide)
    rw [List.length_append, List.length_append, show (log.flatMap frameBytes).length = _ from hlength]
    exact Nat.le_trans hone (Nat.le_trans (Nat.le_add_right _ _) (Nat.le_add_left _ _))
  have hlog : ¬((walHeader ++ rest).length < WAL_HEADER ∨
      (walHeader ++ rest).take WAL_MAGIC_LEN ≠ WAL_MAGIC ∨
      getU32At (walHeader ++ rest) 12 ≠ UInt32.ofNat PAGE_SIZE) := by
    rintro (hshort | hother | hother)
    · exact hlong hshort
    · exact hother hmagic
    · exact hother hsize
  rw [hbytes]
  unfold walFrames
  rw [if_neg hlog, hscan, upTo_map]
  congr 1
  rw [committedFrames_upTo]
  congr 1
  funext frame
  unfold LogFrame.raw
  cases frame.commit <;> rfl

/-- Frames without a marker change nothing of what is committed. -/
theorem committedFrames_unmarked (log : List (LogFrame Bytes)) {back : List (LogFrame Bytes)}
    (hback : ∀ frame ∈ back, frame.commit = false) :
    committedFrames (log ++ back) = committedFrames log :=
  upTo_append log hback

/-- Before the last frame of a commit there is no marker. -/
theorem commitFrames_unmarked (pages : Nat) (root : UInt32) (frames : List (Frame Bytes)) {n : Nat}
    (hn : n < (commitFrames pages root frames).length) :
    ∀ frame ∈ (commitFrames pages root frames).take n, frame.commit = false := by
  induction frames generalizing n with
  | nil => simp [commitFrames]
  | cons f rest ih =>
    unfold commitFrames at hn ⊢
    split at hn
    · rename_i id hunlogged hid
      cases n with
      | zero => simp
      | succ n =>
        have hn : n < (commitFrames pages root rest).length := by
          rw [List.length_cons] at hn
          omega
        intro frame hframe
        rw [List.take_succ_cons] at hframe
        rcases List.mem_cons.mp hframe with rfl | hin
        · have hmore : (commitFrames pages root rest).isEmpty = false := by
            cases hrest : commitFrames pages root rest with
            | nil =>
              rw [hrest] at hn
              exact absurd hn (by simp)
            | cons => rfl
          rw [commitFrames_isEmpty] at hmore
          exact hmore
        · exact ih hn frame hin
    · exact ih hn

/-! ### The durable store -/

/-- What a crash is to leave: the pages, and the two fields of the header. -/
structure Saved where
  body : Nat → Option Bytes
  pages : Nat
  root : UInt32

/-- What the pool holds now. -/
def Logging.now (l : Logging) : Saved where
  body := l.pool.plain.body
  pages := l.pool.pageCount
  root := l.pool.catalogRootPage

/-- What a commit would append. -/
def Logging.pending (l : Logging) : List (LogFrame Bytes) :=
  commitFrames l.pool.pageCount l.pool.catalogRootPage l.pool.frames

/-- What is done to the pool and its log. -/
inductive LogInput
  /-- A statement works on the pages. -/
  | work (x : PageM Bytes Unit)
  /-- `poolSetCatalogRoot`. -/
  | root (root : UInt32)
  | commit (fault : Option AppendFault)
  | checkpoint (fault : Option TruncateFault)

/-- The pool and the log behind it. -/
def Logging.apply (l : Logging) : LogInput → Logging
  | .work x => { l with pool := (onPool x l.pool).2 }
  | .root root => { l with pool := poolSetCatalogRoot root l.pool }
  | .commit fault => (l.commit fault).2
  | .checkpoint fault => (l.checkpoint fault).2

/-- What a crash is to leave behind it. A commit saves what the pages hold when it succeeds, and
also when its frames have all been written and only the sync fails. A checkpoint that has written
the file saves it whatever becomes of the log. -/
def Logging.saving (l : Logging) (saved : Saved) : LogInput → Saved
  | .work _ | .root _ => saved
  | .commit none => if l.pending.isEmpty then saved else l.now
  | .commit (some fault) =>
    if l.pending.isEmpty then saved
    else if l.buffer.length + l.pending.length * FRAME_SIZE ≤ fault.bytes then l.now
    else saved
  | .checkpoint _ =>
    if l.pool.writable = true ∧ l.pool.pageFile.isSome then l.now else saved

/-- One input, to the log and to what should be found in it. -/
def logStep (state : Logging × Saved) (input : LogInput) : Logging × Saved :=
  (state.1.apply input, state.1.saving state.2 input)

/-- The log is open, and with what is buffered it begins with the header and ends where a frame
ends. -/
def Logging.Aligned (l : Logging) : Prop :=
  l.pool.wal.isSome = true ∧ walHeader <+: l.bytes ++ l.buffer ∧
    ((l.bytes ++ l.buffer).length - WAL_HEADER) % FRAME_SIZE = 0

/-- The condition on a step: a statement uses pages that are allocated, and what a commit appends
begins at the end of a frame. -/
def Logging.Meets (state : Logging × Saved) : LogInput → Prop
  | .work x => x.wp zeroPage (fun _ _ => True) state.1.pool.plain
  | .root _ => True
  | .commit _ => state.1.pending ≠ [] → state.1.Aligned
  | .checkpoint _ => True

/-- The two fields of the header of a file. -/
def DbFile.Fields (file : DbFile Bytes) (pages : Nat) (root : UInt32) : Prop :=
  ∃ head, PAGE_SIZE ≤ head.length ∧
    file.head = overwrite head 12 (le32 (UInt32.ofNat pages) ++ le32 root)

/-- After a crash the frames that `walRecover` finds are `frames`, and when they are replayed the
file holds what was saved. -/
def Logging.Recovers (l : Logging) (inode : Nat) (saved : Saved) : Prop :=
  ∃ frames : List (LogFrame Bytes), walFrames l.bytes = frames.map LogFrame.raw ∧
    (∀ id b, saved.body id = some b →
      (replayFrames (l.pool.files inode) frames).holds id = some b) ∧
    (replayFrames (l.pool.files inode) frames).Fields saved.pages saved.root

/-! ### The invariant -/

/-- What file and log make of the pages that no frame behind the last marker is of. -/
def laidDown (file : DbFile Bytes) (log : List (LogFrame Bytes)) (id : Nat) : Option Bytes :=
  if id ∈ (behind LogFrame.commit log).map LogFrame.pageId then none
  else (replayFrames file (committedFrames log)).holds id

/-- The bytes of the log file: whole frames and a rest, or nothing with the header still buffered,
or less than a header. -/
inductive Logging.Written (l : Logging) : List (LogFrame Bytes) → Prop
  | whole {log : List (LogFrame Bytes)} {torn : List UInt8} (hwal : l.pool.wal = some log)
      (hbytes : l.bytes = walHeader ++ log.flatMap frameBytes ++ torn)
      (htorn : torn.length < FRAME_SIZE) (hbuffer : l.buffer = []) : Written l log
  | fresh (hwal : l.pool.wal = some []) (hbytes : l.bytes = []) (hbuffer : l.buffer = walHeader) :
      Written l []
  | short (hwal : l.pool.wal = none ∨ l.pool.wal = some [])
      (hbytes : (l.bytes ++ l.buffer).length < WAL_HEADER) : Written l []

/-- Pool, file and log are in order, and they keep what was saved. -/
structure Logging.Durable (inode : Nat) (state : Logging × Saved) (log : List (LogFrame Bytes)) :
    Prop where
  pageFile : state.1.pool.pageFile = some inode
  writable : state.1.pool.writable = true
  checksums : state.1.pool.checksums = true
  serves : state.1.pool.Serves state.1.pool.plain
  full : state.1.pool.plain.Full
  head : PAGE_SIZE ≤ (state.1.pool.files inode).head.length
  covered : state.1.pool.Covered
  kept : state.1.pool.KeptBy (laidDown (state.1.pool.files inode) log) state.1.pool.plain
  written : state.1.Written log
  saved : ∀ id b, state.2.body id = some b →
    (replayFrames (state.1.pool.files inode) (committedFrames log)).holds id = some b
  fields : (replayFrames (state.1.pool.files inode) (committedFrames log)).Fields state.2.pages
    state.2.root

/-- A page program leaves the checks of the pool as they are. -/
theorem checksums_client (on : Bool) :
    ClientKeeps fun p : Pool Bytes => p.checksums = on where
  quiet p q hmove h := by cases hmove <;> exact h
  refused _ h := h
  fetched _ _ _ _ _ h _ _ _ _ _ := h
  allocated _ _ _ h _ _ := h
  pinned _ _ h := h
  unpinned p id h := by
    unfold poolUnpin
    split <;> exact h
  changed p id page h := by
    unfold poolUnpin poolStore
    split <;> split <;> exact h
  freed p id h := by
    unfold poolFree
    split <;> exact h

/-- An overwritten file is not shorter. -/
theorem overwrite_long {bytes fields : List UInt8} {n offset : Nat} (h : n ≤ bytes.length) :
    n ≤ (overwrite bytes offset fields).length := by
  unfold overwrite
  simp only [List.length_append, List.length_take, List.length_replicate, List.length_drop]
  omega

/-- A checkpoint that cannot open the log again is one without a log. -/
theorem poolCheckpointUnder_truncate {p : Pool Bytes} {inode : Nat} (hwritable : p.writable = true)
    (hfile : p.pageFile = some inode) :
    ∃ io, (poolCheckpointUnder (some .truncate) p).2
      = { poolCheckpoint p with wal := none, io := io } := by
  unfold poolCheckpointUnder poolCheckpoint
  simp only [hwritable, hfile, walTruncate_eq]
  exact ⟨_, rfl⟩

namespace Logging.Durable

variable {inode : Nat} {l : Logging} {saved : Saved} {log : List (LogFrame Bytes)}

/-- What is kept is what a crash leaves. -/
theorem recovers (h : Durable inode (l, saved) log) : l.Recovers inode saved := by
  refine ⟨committedFrames log, ?_, h.saved, h.fields⟩
  cases h.written with
  | whole hwal hbytes htorn hbuffer =>
    rw [hbytes]
    exact walFrames_whole log htorn
  | fresh hwal hbytes hbuffer =>
    rw [hbytes]
    exact walFrames_short (by decide)
  | short hwal hbytes =>
    rw [List.length_append] at hbytes
    exact walFrames_short (Nat.lt_of_le_of_lt (Nat.le_add_right _ _) hbytes)

/-- Where an append begins at the end of a frame, nothing is torn, and what is buffered is the
header. -/
theorem aligned (h : Durable inode (l, saved) log) (haligned : l.Aligned) :
    l.pool.wal = some log ∧ l.bytes ++ l.buffer = walHeader ++ log.flatMap frameBytes ∧
      (l.buffer = [] ∨ l.bytes = [] ∧ log = []) := by
  obtain ⟨hopen, hheader, hends⟩ := haligned
  cases h.written with
  | @whole _ torn hwal hbytes htorn hbuffer =>
    have hbuffer : l.buffer = [] := hbuffer
    have hlength : (log.flatMap frameBytes).length = log.length * FRAME_SIZE :=
      frameFraming.flatMap_length log
    have hnone : torn.length = 0 := by
      rw [hbuffer, List.append_nil, hbytes, List.length_append, List.length_append,
        walHeader_length, hlength, Nat.add_assoc, Nat.add_sub_cancel_left,
        Nat.mul_add_mod_self_right, Nat.mod_eq_of_lt htorn] at hends
      exact hends
    refine ⟨hwal, ?_, .inl hbuffer⟩
    rw [hbuffer, List.append_nil, hbytes, List.length_eq_zero_iff.mp hnone, List.append_nil]
  | fresh hwal hbytes hbuffer =>
    have hbytes : l.bytes = [] := hbytes
    have hbuffer : l.buffer = walHeader := hbuffer
    refine ⟨hwal, ?_, .inr ⟨hbytes, rfl⟩⟩
    rw [hbytes, hbuffer]
    rfl
  | short hwal hbytes =>
    have hbytes : (l.bytes ++ l.buffer).length < WAL_HEADER := hbytes
    have hlong := hheader.length_le
    rw [walHeader_length] at hlong
    omega

/-- A statement works on the pages. What it makes the pool write early, the log covers. -/
theorem work (h : Durable inode (l, saved) log) {x : PageM Bytes Unit}
    (hx : x.wp zeroPage (fun _ _ => True) l.pool.plain) :
    Durable inode ({ l with pool := (onPool x l.pool).2 }, saved) log := by
  have hwp := PageM.wp_sound hx h.serves.sound
  obtain ⟨S, ⟨-, -, hfull⟩, hserves, hkept⟩ := h.serves.kept h.kept hwp
  have hfull := hfull h.full
  obtain rfl : (onPool x l.pool).2.plain = S := hserves.plain_eq hfull
  have hback := (writesBack_client l.pool).onPool x (.refl l.pool)
  have hchecksums := (checksums_client l.pool.checksums).onPool x rfl
  generalize (onPool x l.pool).2 = q at hserves hkept hfull hback hchecksums
  obtain ⟨writes, hwrites, hfile⟩ := hback.file inode h.pageFile
  have hsame : replayFrames (q.files inode) (committedFrames log)
      = replayFrames (l.pool.files inode) (committedFrames log) := by
    rw [hfile]
    refine replayFrames_covered fun write hin => ?_
    obtain ⟨log', hlog', frame, hframe, hid⟩ := h.covered _ (hwrites write hin)
    have hlog : log' = log ∨ log' = [] := by
      cases h.written with
      | whole hwal => exact Or.inl (Option.some.inj (hlog'.symm.trans hwal))
      | fresh hwal => exact Or.inl (Option.some.inj (hlog'.symm.trans hwal))
      | short hwal =>
        rcases hwal with hwal | hwal
        · exact absurd (hlog'.symm.trans hwal) (by simp)
        · exact Or.inl (Option.some.inj (hlog'.symm.trans hwal))
    rcases hlog with rfl | rfl
    · exact ⟨frame, hframe, hid⟩
    · exact absurd hframe (by simp [committedFrames])
  have hlaid : laidDown (q.files inode) log = laidDown (l.pool.files inode) log := by
    funext id
    unfold laidDown
    rw [hsame]
  refine ⟨hback.pageFile.trans h.pageFile, hback.writable.trans h.writable,
    hchecksums.trans h.checksums, hserves, hfull, ?_, hback.covered h.covered, ?_, ?_, ?_, ?_⟩
  · show PAGE_SIZE ≤ (q.files inode).head.length
    rw [hfile, DbFile.withPages_head]
    exact h.head
  · show q.KeptBy (laidDown (q.files inode) log) q.plain
    rw [hlaid]
    exact hkept
  · cases h.written with
    | whole hwal hbytes htorn hbuffer => exact .whole (hback.wal.trans hwal) hbytes htorn hbuffer
    | fresh hwal hbytes hbuffer => exact .fresh (hback.wal.trans hwal) hbytes hbuffer
    | short hwal hbytes =>
      refine .short ?_ hbytes
      rw [show ({ l with pool := q } : Logging).pool.wal = l.pool.wal from hback.wal]
      exact hwal
  · intro id b hb
    show (replayFrames (q.files inode) (committedFrames log)).holds id = some b
    rw [hsame]
    exact h.saved id b hb
  · show (replayFrames (q.files inode) (committedFrames log)).Fields saved.pages saved.root
    rw [hsame]
    exact h.fields

/-- The root is written with the next commit. -/
theorem root (h : Durable inode (l, saved) log) (page : UInt32) :
    Durable inode ({ l with pool := poolSetCatalogRoot page l.pool }, saved) log := by
  have hserves := h.serves.setCatalogRoot page
  have hplain := hserves.plain_eq h.full
  refine ⟨h.pageFile, h.writable, h.checksums, hplain.symm ▸ hserves, hplain.symm ▸ h.full, h.head,
    h.covered, hplain.symm ▸ h.kept, ?_, h.saved, h.fields⟩
  cases h.written with
  | whole hwal hbytes htorn hbuffer => exact .whole hwal hbytes htorn hbuffer
  | fresh hwal hbytes hbuffer => exact .fresh hwal hbytes hbuffer
  | short hwal hbytes => exact .short hwal hbytes

/-- With what waits behind it, the log shows every page. -/
theorem shows (h : Durable inode (l, saved) log) {id : Nat} {b : Bytes}
    (hb : l.pool.plain.body id = some b) :
    (replayFrames (l.pool.files inode) (log ++ l.pending)).holds id = some b := by
  by_cases hwaits : l.pool.Unlogged id
  · obtain ⟨f, hf, hid, hunlogged⟩ := hwaits
    refine replayFrames_holds_on (commitFrames_mem _ _ hf hunlogged hid) fun frame hframe heq => ?_
    subst heq
    exact h.serves.commitFrames_body hframe hb
  · have hlaid := (h.kept id b hb).resolve_left hwaits
    unfold laidDown at hlaid
    split at hlaid
    · exact absurd hlaid (by simp)
    · rename_i hbehind
      rw [← upTo_behind LogFrame.commit log, List.append_assoc]
      refine replayFrames_holds_off hlaid fun frame hframe heq => ?_
      rcases List.mem_append.mp hframe with hin | hin
      · exact hbehind (List.mem_map.mpr ⟨frame, hin, heq⟩)
      · obtain ⟨f, hf, hfwaits, -⟩ := commitFrames_from _ _ hin
        exact hwaits ⟨f, hf, heq ▸ hfwaits⟩

/-- The header after a replay is that of the last frame. -/
theorem replayFrames_fields {file : DbFile Bytes} {frames : List (LogFrame Bytes)}
    {last : LogFrame Bytes} (hlast : frames.getLast? = some last)
    (hlong : PAGE_SIZE ≤ file.head.length) :
    (replayFrames file frames).Fields last.pageCount last.catalogRoot := by
  have hpages := foldl_writePage_head frames file
  unfold replayFrames
  simp only [hlast, hpages]
  rw [if_pos hlong]
  exact ⟨_, hpages.symm ▸ hlong, rfl⟩

/-- All frames of a commit are in the log, whether the commit succeeds or its sync fails. -/
theorem logged (h : Durable inode (l, saved) log) (hpending : l.pending ≠ []) {q : Pool Bytes}
    (hserves : q.Serves l.pool.plain)
    (hfile : q.pageFile = l.pool.pageFile ∧ q.writable = l.pool.writable ∧
      q.checksums = l.pool.checksums ∧ q.files = l.pool.files)
    (hwal : q.wal = some (log ++ l.pending)) (hcovered : q.Covered) {bytes : List UInt8}
    (hbytes : bytes = walHeader ++ (log ++ l.pending).flatMap frameBytes) :
    Durable inode ({ pool := q, bytes := bytes, buffer := [] }, l.now) (log ++ l.pending) := by
  obtain ⟨hpageFile, hwritable, hchecksums, hfiles⟩ := hfile
  have hplain := hserves.plain_eq h.full
  obtain ⟨last, hlast⟩ : ∃ last, (log ++ l.pending).getLast? = some last ∧
      last ∈ l.pending ∧ last.commit = true := by
    cases hlast : l.pending.getLast? with
    | none => exact absurd (List.getLast?_eq_none_iff.mp hlast) hpending
    | some last =>
      refine ⟨last, ?_, List.mem_of_getLast? hlast, commitFrames_last _ _ _ hlast⟩
      rw [List.getLast?_append, hlast]
      rfl
  obtain ⟨hlast, hin, hmarked⟩ := hlast
  have hcommitted : committedFrames (log ++ l.pending) = log ++ l.pending :=
    upTo_closed hlast hmarked
  have hnone : behind LogFrame.commit (log ++ l.pending) = [] := behind_closed hlast hmarked
  refine ⟨hpageFile.trans h.pageFile, hwritable.trans h.writable, hchecksums.trans h.checksums,
    hplain.symm ▸ hserves, hplain.symm ▸ h.full, ?_, hcovered, ?_, ?_, ?_, ?_⟩
  · show PAGE_SIZE ≤ (q.files inode).head.length
    rw [hfiles]
    exact h.head
  · show q.KeptBy (laidDown (q.files inode) (log ++ l.pending)) q.plain
    rw [hplain, hfiles]
    intro id b hb
    refine Or.inr ?_
    unfold laidDown
    rw [hnone, hcommitted, if_neg (by simp)]
    exact h.shows hb
  · refine @Written.whole _ _ [] hwal ?_ (by decide) rfl
    rw [List.append_nil]
    exact hbytes
  · intro id b hb
    show (replayFrames (q.files inode) _).holds id = some b
    rw [hfiles, hcommitted]
    exact h.shows hb
  · show (replayFrames (q.files inode) _).Fields l.pool.pageCount l.pool.catalogRootPage
    rw [hfiles, hcommitted]
    obtain ⟨hcount, hroot⟩ := commitFrames_fields _ _ hin
    rw [← hcount, ← hroot]
    exact replayFrames_fields hlast h.head

/-- A commit stops before its last frame: nothing of it is committed. -/
theorem torn (h : Durable inode (l, saved) log) {n stamped : Nat}
    (hn : n < l.pending.length) (hserves : (l.pool.appended log n stamped).Serves l.pool.plain)
    (hcovered : (l.pool.appended log n stamped).Covered) {bytes : List UInt8}
    (hwritten : Logging.Written
      { pool := l.pool.appended log n stamped, bytes := bytes, buffer := [] }
      (log ++ l.pending.take n)) :
    Durable inode ({ pool := l.pool.appended log n stamped, bytes := bytes, buffer := [] }, saved)
      (log ++ l.pending.take n) := by
  have hplain := hserves.plain_eq h.full
  have hunmarked := commitFrames_unmarked l.pool.pageCount l.pool.catalogRootPage l.pool.frames hn
  have hcommitted : committedFrames (log ++ l.pending.take n) = committedFrames log :=
    committedFrames_unmarked log hunmarked
  have hbehind : behind LogFrame.commit (log ++ l.pending.take n)
      = behind LogFrame.commit log ++ l.pending.take n := behind_append log hunmarked
  refine ⟨h.pageFile, h.writable, h.checksums, hplain.symm ▸ hserves, hplain.symm ▸ h.full, h.head,
    hcovered, ?_, hwritten, ?_, ?_⟩
  · show (l.pool.appended log n stamped).KeptBy
      (laidDown (l.pool.files inode) (log ++ l.pending.take n)) (l.pool.appended log n stamped).plain
    rw [hplain]
    intro id b hb
    by_cases hwaits : l.pool.Unlogged id
    · exact Or.inl (appended_waits l.pool log n stamped id hwaits)
    · refine Or.inr ?_
      have hlaid := (h.kept id b hb).resolve_left hwaits
      unfold laidDown at hlaid ⊢
      split at hlaid
      · exact absurd hlaid (by simp)
      · rename_i hnot
        rw [hcommitted, hbehind, if_neg ?_]
        · exact hlaid
        · rw [List.map_append, List.mem_append]
          rintro (hin | hin)
          · exact hnot hin
          · obtain ⟨frame, hframe, hid⟩ := List.mem_map.mp hin
            obtain ⟨f, hf, hfwaits, -⟩ := commitFrames_from _ _ (List.mem_of_mem_take hframe)
            exact hwaits ⟨f, hf, hid ▸ hfwaits⟩
  · intro id b hb
    rw [hcommitted]
    exact h.saved id b hb
  · rw [hcommitted]
    exact h.fields

/-- What an append that fails leaves in the file, by where in the header or in a frame it ends. -/
theorem appended_written (h : Durable inode (l, saved) log) (haligned : l.Aligned)
    {n : Nat} {frames : List (LogFrame Bytes)} {p : Pool Bytes}
    (hpool : p.wal = some (log ++ frames.take ((n - l.buffer.length) / FRAME_SIZE))) :
    Logging.Written
      { pool := p, bytes := l.bytes ++ (l.buffer ++ frames.flatMap frameBytes).take n,
        buffer := [] } (log ++ frames.take ((n - l.buffer.length) / FRAME_SIZE)) := by
  obtain ⟨-, hbytes, hbuffer⟩ := h.aligned haligned
  obtain ⟨rest, hrest, htake⟩ := frameFraming.take_flatMap frames (n - l.buffer.length)
  have htake : (frames.flatMap frameBytes).take (n - l.buffer.length) =
      (frames.take ((n - l.buffer.length) / FRAME_SIZE)).flatMap frameBytes ++ rest := htake
  by_cases hlong : l.buffer.length ≤ n
  · refine .whole hpool ?_ hrest rfl
    show l.bytes ++ (l.buffer ++ frames.flatMap frameBytes).take n = _
    rw [List.take_append, List.take_of_length_le hlong, htake, ← List.append_assoc, hbytes,
      List.flatMap_append]
    simp only [List.append_assoc]
  · -- the header itself is cut off
    rcases hbuffer with hnone | ⟨hnone, rfl⟩
    · rw [hnone] at hlong
      exact absurd (Nat.zero_le n) hlong
    · have hshort : n < WAL_HEADER := by
        have hheader : l.buffer = walHeader := by simpa [hnone] using hbytes
        rw [hheader, walHeader_length] at hlong
        exact Nat.lt_of_not_le hlong
      rw [Nat.sub_eq_zero_of_le (Nat.le_of_not_le hlong), Nat.zero_div, List.take_zero] at hpool ⊢
      refine .short (.inr hpool) ?_
      rw [hnone, List.nil_append, List.append_nil, List.length_take]
      omega

/-- A commit that begins at the end of a frame, whatever fails of it. -/
theorem commit (h : Durable inode (l, saved) log) (fault : Option AppendFault)
    (hmeets : l.pending ≠ [] → l.Aligned) :
    ∃ log', Durable inode ((l.commit fault).2, l.saving saved (.commit fault)) log' := by
  by_cases hpending : l.pending = []
  · -- nothing to commit
    have hsame : (l.commit fault).2 = l := by
      unfold Logging.commit
      cases l.pool.wal with
      | none => rfl
      | some log' =>
        dsimp only
        rw [if_pos (by rw [show commitFrames _ _ _ = l.pending from rfl, hpending]; rfl)]
    have hsaved : l.saving saved (.commit fault) = saved := by
      cases fault <;> unfold Logging.saving <;> rw [hpending] <;> rfl
    rw [hsame, hsaved]
    exact ⟨log, h⟩
  · obtain ⟨hwal, hbytes, -⟩ := h.aligned (hmeets hpending)
    have hempty : l.pending.isEmpty = false := by
      cases hlist : l.pending with
      | nil => exact absurd hlist hpending
      | cons => rfl
    have hcontent : l.bytes ++ (l.buffer ++ l.pending.flatMap frameBytes)
        = walHeader ++ (log ++ l.pending).flatMap frameBytes := by
      rw [← List.append_assoc, hbytes, List.flatMap_append, List.append_assoc]
    cases fault with
    | none =>
      have hrun : (l.commit none).2 =
          { pool := poolCommit l.pool
            bytes := l.bytes ++ (l.buffer ++ l.pending.flatMap frameBytes)
            buffer := [] } := by
        unfold Logging.commit
        rw [hwal]
        dsimp only
        rw [if_neg (by rw [show commitFrames _ _ _ = l.pending from rfl, hempty]; simp)]
        rfl
      have hpool : (poolCommit l.pool).wal = some (log ++ l.pending) ∧
          ((poolCommit l.pool).pageFile = l.pool.pageFile ∧
            (poolCommit l.pool).writable = l.pool.writable ∧
            (poolCommit l.pool).checksums = l.pool.checksums ∧
            (poolCommit l.pool).files = l.pool.files) ∧
          (poolCommit l.pool).pageCount = l.pool.pageCount ∧
          (poolCommit l.pool).freeIds = l.pool.freeIds ∧
          (poolCommit l.pool).pageFrame = l.pool.pageFrame := by
        unfold poolCommit
        rw [hwal]
        dsimp only
        rw [if_neg (by rw [show commitFrames _ _ _ = l.pending from rfl, hempty]; simp)]
        exact ⟨rfl, ⟨rfl, rfl, rfl, rfl⟩, rfl, rfl, rfl⟩
      obtain ⟨hwal', hfile, hcount, hfree, hframe⟩ := hpool
      have hserves : (poolCommit l.pool).Serves l.pool.plain :=
        ⟨h.serves.refines.commit, hcount.trans h.serves.count, hfree.trans h.serves.free,
          fun id hid => (congrFun hframe id).trans (h.serves.freeAbsent id hid)⟩
      have hsaved : l.saving saved (.commit none) = l.now := by
        unfold Logging.saving
        rw [hempty]
        rfl
      rw [hrun, hsaved]
      exact ⟨_, h.logged hpending hserves hfile hwal' (poolCommit_logs h.covered) hcontent⟩
    | some fault =>
      have hrun : (l.commit (some fault)).2 =
          { pool := l.pool.appended log ((fault.bytes - l.buffer.length) / FRAME_SIZE) fault.stamped
            bytes := l.bytes ++ (l.buffer ++ l.pending.flatMap frameBytes).take fault.bytes
            buffer := [] } := by
        unfold Logging.commit
        rw [hwal]
        dsimp only
        rw [if_neg (by rw [show commitFrames _ _ _ = l.pending from rfl, hempty]; simp)]
        rfl
      have hwritten := @appended_written _ _ _ _ h (hmeets hpending) fault.bytes l.pending
        (l.pool.appended log ((fault.bytes - l.buffer.length) / FRAME_SIZE) fault.stamped) rfl
      have hserves :=
        h.serves.appended log ((fault.bytes - l.buffer.length) / FRAME_SIZE) fault.stamped
      have hcovered := appended_covered h.covered hwal
        ((fault.bytes - l.buffer.length) / FRAME_SIZE) fault.stamped
      have hlength : (l.pending.flatMap frameBytes).length = l.pending.length * FRAME_SIZE :=
        frameFraming.flatMap_length l.pending
      by_cases hall : l.buffer.length + l.pending.length * FRAME_SIZE ≤ fault.bytes
      · -- everything is written, and the sync fails
        have hfull : l.pending.take ((fault.bytes - l.buffer.length) / FRAME_SIZE) = l.pending :=
          List.take_of_length_le ((Nat.le_div_iff_mul_le (by decide)).mpr (by omega))
        have hsaved : l.saving saved (.commit (some fault)) = l.now := by
          simp only [Logging.saving, hempty, hall, Bool.false_eq_true, if_false, if_true]
        rw [hrun, hsaved,
          List.take_of_length_le (by rw [List.length_append, hlength]; exact hall)]
        refine ⟨_, h.logged hpending hserves ⟨rfl, rfl, rfl, rfl⟩ ?_ hcovered hcontent⟩
        show some (log ++ l.pending.take ((fault.bytes - l.buffer.length) / FRAME_SIZE)) = _
        rw [hfull]
      · have hsaved : l.saving saved (.commit (some fault)) = saved := by
          simp only [Logging.saving, hempty, hall, Bool.false_eq_true, if_false]
        have hsome : 0 < l.pending.length := List.length_pos_iff.mpr hpending
        have hless : (fault.bytes - l.buffer.length) / FRAME_SIZE < l.pending.length := by
          refine Nat.div_lt_of_lt_mul ?_
          rw [Nat.mul_comm]
          have hpositive : 0 < l.pending.length * FRAME_SIZE := Nat.mul_pos hsome (by decide)
          omega
        rw [hrun, hsaved]
        exact ⟨_, h.torn hless hserves hcovered hwritten⟩

/-- After a checkpoint everything is in the file, whatever has become of the log. -/
theorem checkpointed (h : Durable inode (l, saved) log) {wal : Option (List (LogFrame Bytes))}
    {io : List (Io Bytes)} {bytes buffer : List UInt8}
    (hwritten : Logging.Written
      { pool := { poolCheckpoint l.pool with wal := wal, io := io }, bytes := bytes,
        buffer := buffer } []) :
    Durable inode
      ({ pool := { poolCheckpoint l.pool with wal := wal, io := io }, bytes := bytes,
         buffer := buffer }, l.now) [] := by
  have hdone := poolCheckpoint_checkpointed h.pageFile h.writable
  have href := h.serves.refines.checkpoint
  have hserves : ({ poolCheckpoint l.pool with wal := wal, io := io } : Pool Bytes).Serves
      l.pool.plain :=
    ⟨⟨href.directory, href.sound, href.absent, href.unallocated, href.owedResident,
      href.freeInRange, href.freeNodup⟩, hdone.pageCount.trans h.serves.count,
      hdone.freeIds.trans h.serves.free,
      fun id hid => (congrFun hdone.pageFrame id).trans (h.serves.freeAbsent id hid)⟩
  have hplain := hserves.plain_eq h.full
  have hholds : ∀ id b, l.pool.plain.body id = some b →
      (replayFrames ((poolCheckpoint l.pool).files inode) []).holds id = some b := by
    intro id b hb
    have hsupplied := (checkpoint_mirrors h.serves.refines h.pageFile h.writable
      (fun _ => rfl)).2 id b hb
    rw [← hsupplied]
    simp only [Pool.supplies, Pool.fetch, hdone.pageFile, hdone.checksums.trans h.checksums,
      Bool.not_true, Bool.false_or]
    rfl
  refine ⟨hdone.pageFile, hdone.writable, hdone.checksums.trans h.checksums, hplain.symm ▸ hserves,
    hplain.symm ▸ h.full, ?_, Pool.covered_of_unlogged hdone.unlogged, ?_, hwritten, hholds, ?_⟩
  · show PAGE_SIZE ≤ ((poolCheckpoint l.pool).files inode).head.length
    rw [hdone.head]
    exact overwrite_long h.head
  · rw [hplain]
    exact fun id b hb => Or.inr (hholds id b hb)
  · exact ⟨_, h.head, hdone.head⟩

/-- A checkpoint, whatever fails of the log behind it. -/
theorem checkpoint (h : Durable inode (l, saved) log) (fault : Option TruncateFault) :
    ∃ log', Durable inode ((l.checkpoint fault).2, l.saving saved (.checkpoint fault)) log' := by
  have hdone := poolCheckpoint_checkpointed h.pageFile h.writable
  have hsaved : l.saving saved (.checkpoint fault) = l.now := by
    simp only [Logging.saving]
    rw [if_pos ⟨h.writable, by rw [show l.pool.pageFile = _ from h.pageFile]; rfl⟩]
  rw [hsaved]
  have hwal' := hdone.wal
  refine ⟨[], ?_⟩
  cases hwal : l.pool.wal with
  | none =>
    have hrun : (l.checkpoint fault).2 = { l with pool := poolCheckpoint l.pool } := by
      unfold Logging.checkpoint
      rw [hwal, show l.pool.writable = true from h.writable,
        show l.pool.pageFile = some inode from h.pageFile]
    rw [hrun]
    refine h.checkpointed ?_
    cases h.written with
    | whole hopen => exact absurd (hwal.symm.trans hopen) (by simp)
    | fresh hopen => exact absurd (hwal.symm.trans hopen) (by simp)
    | short hopen hbytes =>
      refine .short (Or.inl ?_) hbytes
      rw [hwal] at hwal'
      exact hwal'
  | some whole =>
    rw [hwal] at hwal'
    have hwritable : l.pool.writable = true := h.writable
    have hfile : l.pool.pageFile = some inode := h.pageFile
    cases fault with
    | none =>
      have hrun : (l.checkpoint none).2 =
          { pool := poolCheckpoint l.pool, bytes := [], buffer := walHeader } := by
        unfold Logging.checkpoint
        rw [hwal, hwritable, hfile]
      rw [hrun]
      exact h.checkpointed (.fresh hwal' rfl rfl)
    | some fault =>
      cases fault with
      | reopen =>
        have hrun : (l.checkpoint (some .reopen)).2 =
            { pool := (poolCheckpointUnder (some .truncate) l.pool).2, bytes := [],
              buffer := [] } := by
          unfold Logging.checkpoint
          rw [hwal, hwritable, hfile]
        obtain ⟨io, hpool⟩ := poolCheckpointUnder_truncate hwritable hfile
        rw [hrun, hpool]
        exact h.checkpointed (.short (Or.inl rfl) (show 0 < WAL_HEADER by decide))
      | header n =>
        have hrun : (l.checkpoint (some (.header n))).2 =
            { pool := poolCheckpoint l.pool, bytes := [], buffer := walHeader.take n } := by
          unfold Logging.checkpoint
          rw [hwal, hwritable, hfile]
        rw [hrun]
        refine h.checkpointed ?_
        by_cases hn : n < WAL_HEADER
        · refine .short (Or.inr hwal') ?_
          rw [List.nil_append, List.length_take, walHeader_length]
          omega
        · refine .fresh hwal' rfl ?_
          exact List.take_of_length_le (by rw [walHeader_length]; omega)

/-- One step. -/
theorem step (h : Durable inode (l, saved) log) (input : LogInput)
    (hmeets : Logging.Meets (l, saved) input) :
    ∃ log', Durable inode (logStep (l, saved) input) log' := by
  cases input with
  | work x => exact ⟨log, h.work hmeets⟩
  | root page => exact ⟨log, h.root page⟩
  | commit fault => exact h.commit fault hmeets
  | checkpoint fault => exact h.checkpoint fault

end Logging.Durable

/-! ### Runs -/

/-- A pool that has just been given its file, with a log that `walOpen` has made: nothing is changed
yet, and the header of the file says what the pool does. -/
structure Logging.Opened (l : Logging) (inode : Nat) : Prop where
  pageFile : l.pool.pageFile = some inode
  writable : l.pool.writable = true
  checksums : l.pool.checksums = true
  serves : l.pool.Serves l.pool.plain
  full : l.pool.plain.Full
  mirrors : l.pool.Mirrors fun _ => True
  head : PAGE_SIZE ≤ (l.pool.files inode).head.length
  fields : (l.pool.files inode).Fields l.pool.pageCount l.pool.catalogRootPage
  wal : l.pool.wal = some []
  bytes : l.bytes = []
  buffer : l.buffer = walHeader

/-- A log that was opened holds what it was opened with. -/
theorem Logging.Opened.durable {l : Logging} {inode : Nat} (h : l.Opened inode) :
    Logging.Durable inode (l, l.now) [] := by
  have hkept := h.mirrors.keptBy h.serves h.pageFile h.checksums
  have hnone : ∀ id, ¬l.pool.Unlogged id := by
    rintro id ⟨f, hf, hid, hunlogged⟩
    obtain ⟨i, hi⟩ := List.mem_iff_getElem?.mp hf
    rw [Frame.unlogged, h.mirrors.clean i f hi (by simp [hid])] at hunlogged
    exact absurd hunlogged (by simp)
  have hholds : ∀ id b, l.pool.plain.body id = some b →
      (replayFrames (l.pool.files inode) []).holds id = some b :=
    fun id b hb => (hkept id b hb).resolve_left (hnone id)
  refine ⟨h.pageFile, h.writable, h.checksums, h.serves, h.full, h.head,
    Pool.covered_of_unlogged fun id hlogs => ?_, fun id b hb => Or.inr (hholds id b hb), ?_, hholds,
    h.fields⟩
  · obtain ⟨f, hf, hid, hdirty, -⟩ := hlogs
    obtain ⟨i, hi⟩ := List.mem_iff_getElem?.mp hf
    rw [h.mirrors.clean i f hi (by simp [hid])] at hdirty
    exact absurd hdirty (by simp)
  · exact .fresh h.wal h.bytes h.buffer

/-- In a run whose appends all begin at the end of a frame, however many log writes fail, a crash
leaves what the last commit that succeeded saved, or what has been written whole since. -/
theorem durable_run (l : Logging) (inode : Nat) (hopened : l.Opened inode) (inputs : List LogInput)
    (hmeets : StepsMeet logStep Logging.Meets (l, l.now) inputs) :
    (run logStep (l, l.now) inputs).1.Recovers inode (run logStep (l, l.now) inputs).2 := by
  have hkeep : ∀ state input, (∃ log, Logging.Durable inode state log) →
      Logging.Meets state input → ∃ log, Logging.Durable inode (logStep state input) log := by
    rintro ⟨l, saved⟩ input ⟨log, h⟩ hmeets
    exact h.step input hmeets
  obtain ⟨log, h⟩ := StepsMeet.invariant (fun state => ∃ log, Logging.Durable inode state log) hkeep
    ⟨[], hopened.durable⟩ hmeets
  exact h.recovers

/-- A new file without pages. -/
def emptyFile : DbFile Bytes where
  head := headerPage 0 INVALID_CATALOG
  count := 0
  page _ := Page.zero
  tail := none

/-- A pool on the new file, and its log. -/
def emptyLogging : Logging where
  pool :=
    { startPool with
      pageFile := some 0
      files := fun _ => emptyFile
      writable := true
      checksums := true
      wal := some [] }
  bytes := []
  buffer := walHeader

/-- A statement that asks for a page. -/
def onePage : PageM Bytes Unit := .alloc fun _ => .pure ()

/-- A header page says what it was made for. -/
theorem headerPage_fields (pages : Nat) (root : UInt32) :
    PAGE_SIZE ≤ (headerPage pages root).length ∧
      headerPage pages root
        = overwrite (headerPage pages root) 12 (le32 (UInt32.ofNat pages) ++ le32 root) := by
  have hsplit : ∃ rest, rest.length = PAGE_SIZE - 20 ∧
      headerPage pages root = (SAVE_MAGIC ++ putU32 SAVE_VERSION)
        ++ ((le32 (UInt32.ofNat pages) ++ le32 root) ++ rest) := by
    refine ⟨List.replicate (PAGE_SIZE - 20) 0, List.length_replicate, ?_⟩
    unfold headerPage
    simp only [List.append_assoc]
    rfl
  obtain ⟨rest, hrest, hpage⟩ := hsplit
  have hfront : (SAVE_MAGIC ++ putU32 SAVE_VERSION).length = 12 := rfl
  have hfields : (le32 (UInt32.ofNat pages) ++ le32 root).length = 8 := rfl
  rw [hpage]
  generalize SAVE_MAGIC ++ putU32 SAVE_VERSION = front at hfront ⊢
  generalize le32 (UInt32.ofNat pages) ++ le32 root = fields at hfields ⊢
  constructor
  · rw [List.length_append, List.length_append, hfront, hfields, hrest]
    decide
  · unfold overwrite
    rw [← hfront, List.take_left, List.append_assoc, List.drop_append, List.append_assoc,
      List.length_append, Nat.sub_eq_zero_of_le (Nat.le_add_right _ _), List.drop_append]
    simp

/-- A log without a frame is opened. -/
theorem emptyLogging_opened : emptyLogging.Opened 0 := by
  have hcount : emptyLogging.pool.pageCount = 0 := rfl
  have hframes : emptyLogging.pool.frames = [] := rfl
  have hlook : emptyLogging.pool.pageFrame = fun _ => none := rfl
  have hfree : emptyLogging.pool.freeIds = [] := rfl
  have hunallocated : ∀ id, ¬emptyLogging.pool.Allocated id := by
    rintro id ⟨hid, -⟩
    rw [hcount] at hid
    exact absurd hid (Nat.not_lt_zero id)
  have hnone : ∀ id, emptyLogging.pool.plain.body id = none := by
    intro id
    show (if emptyLogging.pool.Allocated id then emptyLogging.pool.look id else none) = none
    exact if_neg (hunallocated id)
  have hfields := headerPage_fields 0 INVALID_CATALOG
  have hrefines : emptyLogging.pool.Refines ⟨emptyLogging.pool.plain.body, fun _ => false⟩ := by
    refine ⟨fun id i => ?_, fun i f hf => ?_, fun id b _ hb => ?_, fun id _ => hnone id,
      fun id h => absurd h (by simp), ?_, ?_⟩
    · rw [hlook, hframes]
      simp
    · rw [hframes] at hf
      exact absurd hf (by simp)
    · exact absurd ((hnone id).symm.trans hb) (by simp)
    · rw [hfree]
      simp
    · rw [hfree]
      exact List.nodup_nil
  have hmirrors : emptyLogging.pool.Mirrors fun _ => True := by
    refine ⟨fun id i h => ?_, fun i f hf => ?_, fun id i f _ h => ?_⟩
    · rw [hlook] at h
      exact absurd h (by simp)
    · rw [hframes] at hf
      exact absurd hf (by simp)
    · rw [hlook] at h
      exact absurd h (by simp)
  refine ⟨rfl, rfl, rfl, ⟨hrefines, rfl, rfl, fun id _ => rfl⟩, fun id hid => ?_, hmirrors,
    hfields.1, ⟨_, hfields.1, hfields.2⟩, rfl, rfl, rfl⟩
  exact absurd hid.1 (by
    show ¬id < emptyLogging.pool.pageCount
    rw [hcount]
    exact Nat.not_lt_zero id)

/-- A statement writes nothing into the log. -/
theorem work_bytes (l : Logging) (saved : Saved) (x : PageM Bytes Unit) :
    (logStep (l, saved) (.work x)).1.bytes = l.bytes ∧
      (logStep (l, saved) (.work x)).1.buffer = l.buffer := ⟨rfl, rfl⟩

/-- A statement that asks for a page, and its commit. -/
theorem durable_run_create :
    (run logStep (emptyLogging, emptyLogging.now) [.work onePage, .commit none]).1.Recovers 0
      (run logStep (emptyLogging, emptyLogging.now) [.work onePage, .commit none]).2 := by
  refine durable_run emptyLogging 0 emptyLogging_opened _ ⟨trivial, fun _ => ⟨?_, ?_, ?_⟩, trivial⟩
  · decide +kernel
  · rw [(work_bytes ..).1, (work_bytes ..).2]
    exact List.prefix_refl _
  · rw [(work_bytes ..).1, (work_bytes ..).2]
    rfl

/-- A page, a commit that tears its frame after the header and one byte, and a commit. -/
def tornInputs : List LogInput :=
  [.work onePage, .commit (some { bytes := 17, stamped := 1 }), .commit none]

/-- The second commit succeeds, and nothing of the log can be read. -/
theorem torn_frame_loses :
    ((run logStep (emptyLogging, emptyLogging.now) (tornInputs.take 1)).1.commit
        (some { bytes := 17, stamped := 1 })).1 = .error .IO_WRITE ∧
      ((run logStep (emptyLogging, emptyLogging.now) (tornInputs.take 2)).1.commit none).1 = .ok () ∧
      ¬(run logStep (emptyLogging, emptyLogging.now) tornInputs).1.Recovers 0
        (run logStep (emptyLogging, emptyLogging.now) tornInputs).2 := by
  have hrun :
      ((run logStep (emptyLogging, emptyLogging.now) (tornInputs.take 1)).1.commit
          (some { bytes := 17, stamped := 1 })).1 = .error .IO_WRITE ∧
        ((run logStep (emptyLogging, emptyLogging.now) (tornInputs.take 2)).1.commit none).1
          = .ok () ∧
        (walFrames (run logStep (emptyLogging, emptyLogging.now) tornInputs).1.bytes).isEmpty
          = true ∧
        ((run logStep (emptyLogging, emptyLogging.now) tornInputs).2.body 0).isSome = true ∧
        ((run logStep (emptyLogging, emptyLogging.now) tornInputs).1.pool.files 0).count = 0 := by
    decide +kernel
  obtain ⟨hfails, hcommits, hread, hsaved, hfile⟩ := hrun
  refine ⟨hfails, hcommits, ?_⟩
  generalize run logStep (emptyLogging, emptyLogging.now) tornInputs = ending at hread hsaved hfile ⊢
  rintro ⟨frames, hframes, hholds, -⟩
  obtain rfl : frames = [] := by
    rw [List.isEmpty_iff.mp hread] at hframes
    exact (List.map_eq_nil_iff.mp hframes.symm)
  obtain ⟨b, hb⟩ := Option.isSome_iff_exists.mp hsaved
  have hnone : (replayFrames (ending.1.pool.files 0) []).holds 0 = none := by
    show (((ending.1.pool.files 0).readPage 0).filter Page.intact).map Page.body = none
    rw [DbFile.readPage, if_neg (by rw [hfile]; exact Nat.not_lt_zero 0)]
    rfl
  exact absurd ((hholds 0 b hb).symm.trans hnone) (by simp)

end DatabaseEngine
