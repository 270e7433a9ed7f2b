import DatabaseEngine.Proofs.Pool.Client

/-!
# `DatabaseEngine.Proofs.Pool.WriteBack`: what reaches the file between checkpoints

To free a frame the pool may write a changed page into its file, but only one that the log
holds. A replay of that log writes the page again, so nothing shows of it.

* `writesBack_client`: a page program writes into the file of the pool pages that the log
  held, and logs none.
* `writePages_writesBack`: nor does the streaming of all pages.
* `replayFrames_covered`: pages that a replay covers may be written before it.
-/

set_option autoImplicit false

namespace DatabaseEngine

open Library

section
variable {α : Type} [PageBody α]

/-- Pages written into a file one after another. -/
def DbFile.withPages (file : DbFile α) (writes : List (Nat × Page α)) : DbFile α :=
  writes.foldl (fun file write => file.writePage write.1 write.2) file

/-- Pages written one after the other. -/
theorem DbFile.withPages_append (file : DbFile α) (front back : List (Nat × Page α)) :
    file.withPages (front ++ back) = (file.withPages front).withPages back :=
  List.foldl_append

/-- Pages are no part of the header. -/
@[simp] theorem DbFile.withPages_head (file : DbFile α) (writes : List (Nat × Page α)) :
    (file.withPages writes).head = file.head := by
  induction writes generalizing file with
  | nil => rfl
  | cons write rest ih => exact ih _

/-- A change that the log holds: the pool may write the page into its file. -/
def Frame.logs (f : Frame α) (id : Nat) : Prop :=
  f.pageId = some id ∧ f.dirty = true ∧ f.logged = true

/-- The page is changed, and the log holds the change. -/
def Pool.Logs (p : Pool α) (id : Nat) : Prop := ∃ f ∈ p.frames, f.logs id

/-- The pool `q` is `p` after changes in memory, with some of the logged pages written into the
file. -/
structure Pool.WritesBack (p q : Pool α) : Prop where
  logs : ∀ id, q.Logs id → p.Logs id
  pageFile : q.pageFile = p.pageFile
  writable : q.writable = p.writable
  wal : q.wal = p.wal
  checksums : q.checksums = p.checksums
  catalogRootPage : q.catalogRootPage = p.catalogRootPage
  others : ∀ k, p.pageFile ≠ some k → q.files k = p.files k
  file : ∀ h, p.pageFile = some h → ∃ writes : List (Nat × Page α),
    (∀ write ∈ writes, p.Logs write.1) ∧ q.files h = (p.files h).withPages writes

namespace Pool.WritesBack

variable {p q r : Pool α}

/-- Nothing has been written. -/
@[refl] theorem refl (p : Pool α) : p.WritesBack p :=
  ⟨fun _ h => h, rfl, rfl, rfl, rfl, rfl, fun _ _ => rfl, fun _ _ => ⟨[], by simp, rfl⟩⟩

/-- Two steps that write pages back. -/
theorem trans (h : p.WritesBack q) (h' : q.WritesBack r) : p.WritesBack r where
  logs id hid := h.logs id (h'.logs id hid)
  pageFile := h'.pageFile.trans h.pageFile
  writable := h'.writable.trans h.writable
  wal := h'.wal.trans h.wal
  checksums := h'.checksums.trans h.checksums
  catalogRootPage := h'.catalogRootPage.trans h.catalogRootPage
  others k hk := (h'.others k (h.pageFile ▸ hk)).trans (h.others k hk)
  file inode hinode := by
    obtain ⟨front, hfront, hq⟩ := h.file inode hinode
    obtain ⟨back, hback, hr⟩ := h'.file inode (h.pageFile.trans hinode)
    refine ⟨front ++ back, fun write hin => ?_, ?_⟩
    · rcases List.mem_append.mp hin with hin | hin
      · exact hfront write hin
      · exact h.logs _ (hback write hin)
    · rw [DbFile.withPages_append, ← hq, hr]

/-- Nothing but the frames moves, and no page comes to be logged. -/
theorem inMemory (hlogs : ∀ id, q.Logs id → p.Logs id)
    (hsame : q.files = p.files ∧ q.pageFile = p.pageFile ∧ q.writable = p.writable ∧
      q.wal = p.wal ∧ q.checksums = p.checksums ∧ q.catalogRootPage = p.catalogRootPage) :
    p.WritesBack q := by
  obtain ⟨hfiles, hfile, hwritable, hwal, hchecksums, hroot⟩ := hsame
  exact ⟨hlogs, hfile, hwritable, hwal, hchecksums, hroot, fun k _ => congrFun hfiles k,
    fun h _ => ⟨[], by simp, congrFun hfiles h⟩⟩

end Pool.WritesBack

omit [PageBody α] in
/-- A frame is replaced by one that logs nothing new. -/
theorem Pool.logs_set {p : Pool α} {i : Nat} {g : Frame α} {frames : List (Frame α)}
    (hframes : frames = p.frames.set i g) (hg : ∀ id, g.logs id → p.Logs id) {id : Nat}
    (h : ∃ f ∈ frames, f.logs id) : p.Logs id := by
  obtain ⟨f, hf, hlogs⟩ := h
  subst hframes
  rcases List.mem_or_eq_of_mem_set hf with hin | rfl
  · exact ⟨f, hin, hlogs⟩
  · exact hg id hlogs

omit [PageBody α] in
/-- A change of a frame that logs nothing new. -/
theorem Pool.logs_modify {p : Pool α} {i : Nat} {k : Frame α → Frame α}
    (hk : ∀ f id, (k f).logs id → f.logs id) {id : Nat}
    (h : ∃ f ∈ p.frames.modify i k, f.logs id) : p.Logs id := by
  cases hf : p.frames[i]? with
  | none =>
    rw [List.modify_eq_self (List.getElem?_eq_none_iff.mp hf)] at h
    exact h
  | some f =>
    rw [modify_eq_set_of_getElem? k hf] at h
    exact Pool.logs_set rfl (fun id hid => ⟨f, List.mem_of_getElem? hf, hk f id hid⟩) h

/-- A quiet move writes back at most one page, which the log holds. -/
theorem Quiet.writesBack {p q : Pool α} (hmove : Quiet p q) : p.WritesBack q := by
  cases hmove with
  | turn hand _ => exact .inMemory (fun _ h => h) ⟨rfl, rfl, rfl, rfl, rfl, rfl⟩
  | touch i f hf referenced more =>
    refine .inMemory (fun id h => ?_) ⟨rfl, rfl, rfl, rfl, rfl, rfl⟩
    exact Pool.logs_set (g := { f with referenced := referenced, pins := f.pins + more }) rfl
      (fun id hid => ⟨f, List.mem_of_getElem? hf, hid⟩) h
  | writeBack i f id inode hf hid hunpinned hlogged hdirty hfile hwritable =>
    refine ⟨fun id h => Pool.logs_set rfl (fun id hid => ?_) h, rfl, rfl, rfl, rfl, rfl, ?_, ?_⟩
    · exact absurd hid.2.1 (by simp)
    · intro k hk
      exact Function.update_of_ne (fun heq => hk (by rw [hfile, heq])) _ _
    · intro h hh
      obtain rfl : inode = h := Option.some.inj (hfile.symm.trans hh)
      refine ⟨[(id, poolStampPage f.page)], ?_, ?_⟩
      · intro write hin
        obtain rfl := List.mem_singleton.mp hin
        exact ⟨f, List.mem_of_getElem? hf, hid, hdirty, hlogged⟩
      · exact Function.update_self _ _ _
  | drop i f id hf hid _ _ =>
    exact .inMemory (fun id h => Pool.logs_modify (fun f id hid => absurd hid.1 (by simp)) h)
      ⟨rfl, rfl, rfl, rfl, rfl, rfl⟩
  | grow n _ =>
    refine .inMemory (fun id h => ?_) ⟨rfl, rfl, rfl, rfl, rfl, rfl⟩
    obtain ⟨f, hf, hlogs⟩ := h
    rcases List.mem_append.mp hf with hin | hin
    · exact ⟨f, hin, hlogs⟩
    · obtain rfl := List.eq_of_mem_replicate hin
      exact absurd hlogs.1 (by simp [Frame.free])

/-- An unpin writes nothing. -/
theorem poolUnpin_writesBack (p : Pool α) (id : Nat) (dirty : Bool) :
    p.WritesBack (poolUnpin id dirty p) := by
  unfold poolUnpin
  split
  · rfl
  · refine .inMemory (fun id h => Pool.logs_modify (fun f id hid => ?_) h) ⟨rfl, rfl, rfl, rfl, rfl, rfl⟩
    obtain ⟨hpage, hdirty, hlogged⟩ := hid
    cases dirty <;> simp_all [Frame.logs]

/-- A change of a frame writes nothing. -/
theorem poolStore_writesBack (p : Pool α) (id : Nat) (page : Page α) :
    p.WritesBack (poolStore id page p) := by
  unfold poolStore
  split
  · rfl
  · refine .inMemory (fun id h => ?_) ⟨rfl, rfl, rfl, rfl, rfl, rfl⟩
    exact Pool.logs_modify (p := p) (k := fun f => { f with page := page }) (fun _ _ hid => hid) h

/-- A page program writes logged pages back, and has none logged. -/
theorem writesBack_client (p : Pool α) : ClientKeeps (Pool.WritesBack p) where
  quiet q r hmove h := h.trans hmove.writesBack
  refused q h := h.trans (.inMemory (fun _ h => h) ⟨rfl, rfl, rfl, rfl, rfl, rfl⟩)
  fetched q i id f page h _ _ _ _ _ :=
    h.trans (.inMemory (fun id h => Pool.logs_set rfl (fun _ hid => absurd hid.2.1 (by simp)) h)
      ⟨rfl, rfl, rfl, rfl, rfl, rfl⟩)
  allocated q i f h _ _ :=
    h.trans (.inMemory (fun id h => Pool.logs_set rfl (fun _ hid => absurd hid.2.2 (by simp)) h)
      ⟨rfl, rfl, rfl, rfl, rfl, rfl⟩)
  pinned q i h := by
    refine h.trans (.inMemory (fun id h => ?_) ⟨rfl, rfl, rfl, rfl, rfl, rfl⟩)
    exact Pool.logs_modify (p := q)
      (k := fun f => { f with referenced := true, pins := f.pins + 1 }) (fun _ _ hid => hid) h
  unpinned q id h := h.trans (poolUnpin_writesBack q id false)
  changed q id page h :=
    (h.trans (poolStore_writesBack q id page)).trans (poolUnpin_writesBack _ id true)
  freed q id h := by
    refine h.trans ?_
    unfold poolFree
    split
    · exact .inMemory (fun _ h => h) ⟨rfl, rfl, rfl, rfl, rfl, rfl⟩
    · exact .inMemory (fun id h => Pool.logs_modify
        (fun f id hid => absurd hid.1 (by simp [Frame.cleared])) h) ⟨rfl, rfl, rfl, rfl, rfl, rfl⟩

/-- So does the streaming of pages. -/
theorem writePages_writesBack (n : Nat) (start : Nat) (p : Pool α) :
    p.WritesBack (writePages start n p).2 := by
  induction n generalizing start p with
  | zero => rfl
  | succ n ih =>
    unfold writePages
    rcases hpin : poolPin start p with ⟨_ | i, q⟩
    · exact ((writesBack_client p).pin hpin (.refl p)).trans (ih _ _)
    · exact ((((writesBack_client p).pin hpin (.refl p)).trans
        (poolStore_writesBack _ _ _)).trans (poolUnpin_writesBack _ _ _)).trans (ih _ _)

/-! ### What a commit appends -/

omit [PageBody α] in
/-- There is nothing to commit when every frame is in the log. -/
theorem commitFrames_isEmpty (pages : Nat) (root : UInt32) (frames : List (Frame α)) :
    (commitFrames pages root frames).isEmpty = !frames.any Frame.unlogged := by
  induction frames with
  | nil => rfl
  | cons f rest ih =>
    unfold commitFrames
    cases hid : f.pageId with
    | none => simp [Frame.unlogged, hid, ih]
    | some id => cases hunlogged : f.unlogged <;> simp [hunlogged, ih]

omit [PageBody α] in
/-- The marker stands on the last frame. -/
theorem commitFrames_last (pages : Nat) (root : UInt32) (frames : List (Frame α))
    {last : LogFrame α} (h : (commitFrames pages root frames).getLast? = some last) :
    last.commit = true := by
  induction frames with
  | nil => exact absurd h (by simp [commitFrames])
  | cons f rest ih =>
    unfold commitFrames at h
    split at h
    · rename_i id hunlogged hid
      have hempty := commitFrames_isEmpty pages root rest
      cases hrest : commitFrames pages root rest with
      | nil =>
        rw [hrest] at h hempty
        obtain rfl := Option.some.inj h
        simpa using hempty
      | cons frame more =>
        refine ih ?_
        rw [hrest] at h ⊢
        rw [← h, List.getLast?_cons_cons]
    · exact ih h

omit [PageBody α] in
/-- Every change that is not logged yet goes out. -/
theorem commitFrames_mem (pages : Nat) (root : UInt32) {frames : List (Frame α)} {f : Frame α}
    {id : Nat} (hf : f ∈ frames) (hunlogged : f.unlogged = true) (hid : f.pageId = some id) :
    ∃ frame ∈ commitFrames pages root frames, frame.pageId = id := by
  induction frames with
  | nil => exact absurd hf (by simp)
  | cons g rest ih =>
    rcases List.mem_cons.mp hf with rfl | hin
    · simp [commitFrames, hunlogged, hid]
    · obtain ⟨frame, hframe, hpage⟩ := ih hin
      unfold commitFrames
      split
      · exact ⟨frame, List.mem_cons_of_mem _ hframe, hpage⟩
      · exact ⟨frame, hframe, hpage⟩

/-! ### What a replay covers -/

/-- The second of two writes of a page is what stays. -/
theorem DbFile.writePage_again (file : DbFile α) (id : Nat) (old page : Page α) :
    (file.writePage id old).writePage id page = file.writePage id page := by
  unfold DbFile.writePage
  simp only [DbFile.mk.injEq, true_and, and_true]
  refine ⟨by omega, ?_⟩
  funext i
  by_cases hi : i = id
  · simp [hi]
  · by_cases hlt : i < file.count
    · simp [hi, hlt, Nat.lt_of_lt_of_le hlt (Nat.le_max_left _ _)]
    · simp [hi, hlt]

/-- Writes of two pages may change places. -/
theorem DbFile.writePage_comm (file : DbFile α) {id other : Nat} (hne : other ≠ id)
    (page otherPage : Page α) :
    (file.writePage id page).writePage other otherPage
      = (file.writePage other otherPage).writePage id page := by
  unfold DbFile.writePage
  simp only [DbFile.mk.injEq, true_and, and_true]
  refine ⟨by omega, ?_⟩
  funext i
  by_cases hother : i = other
  · have hlt : i < max file.count (other + 1) := by omega
    subst hother
    simp [hne, hlt]
  · by_cases hid : i = id
    · have hlt : i < max file.count (id + 1) := by omega
      subst hid
      simp [hother, hlt]
    · by_cases hlt : i < file.count
      · simp [hother, hid, hlt, Nat.lt_of_lt_of_le hlt (Nat.le_max_left _ _)]
      · simp [hother, hid, hlt]

/-- A page may be written before the replay that covers it. -/
theorem foldl_writePage_covered {file : DbFile α} {id : Nat} {page : Page α}
    {frames : List (LogFrame α)} (h : ∃ frame ∈ frames, frame.pageId = id) :
    frames.foldl (fun file frame => file.writePage frame.pageId frame.page)
        (file.writePage id page)
      = frames.foldl (fun file frame => file.writePage frame.pageId frame.page) file := by
  induction frames generalizing file with
  | nil => obtain ⟨frame, hin, -⟩ := h; exact absurd hin (by simp)
  | cons frame rest ih =>
    rw [List.foldl_cons, List.foldl_cons]
    by_cases hframe : frame.pageId = id
    · subst hframe
      rw [DbFile.writePage_again]
    · obtain ⟨other, hin, hother⟩ := h
      rcases List.mem_cons.mp hin with rfl | hin
      · exact absurd hother hframe
      · rw [DbFile.writePage_comm _ hframe]
        exact ih ⟨other, hin, hother⟩

end

/-- Writing pages leaves the header alone. -/
theorem foldl_writePage_head (frames : List (LogFrame Bytes)) (file : DbFile Bytes) :
    (frames.foldl (fun file frame => file.writePage frame.pageId frame.page) file).head
      = file.head := by
  induction frames generalizing file with
  | nil => rfl
  | cons frame rest ih => exact ih _

/-- Pages that the replay covers may be written before it. -/
theorem replayFrames_covered {file : DbFile Bytes} {writes : List (Nat × Page Bytes)}
    {frames : List (LogFrame Bytes)}
    (h : ∀ write ∈ writes, ∃ frame ∈ frames, frame.pageId = write.1) :
    replayFrames (file.withPages writes) frames = replayFrames file frames := by
  have hpages : frames.foldl (fun file frame => file.writePage frame.pageId frame.page)
        (file.withPages writes)
      = frames.foldl (fun file frame => file.writePage frame.pageId frame.page) file := by
    induction writes generalizing file with
    | nil => rfl
    | cons write rest ih =>
      exact (ih fun other hin => h other (by simp [hin])).trans
        (foldl_writePage_covered (h write (by simp)))
  unfold replayFrames
  rw [hpages]

end DatabaseEngine
