import DatabaseEngine.Proofs.Log.Durable
import DatabaseEngine.Spec.Recovery
import Mathlib.Data.List.Find

/-!
# `DatabaseEngine.Proofs.Log.Recovery`: a recovery that is stopped and run again

* `stopped_recovers`: what a crash leaves of a recovery recovers to the same file.
* `recovery_restartable`: the same for any number of crashes, with what a recovery leaves in the
  file at any time.
-/

set_option autoImplicit false

namespace DatabaseEngine

open Library

/-! ### The writes of a recovery -/

section
variable {frames : List WalFrame} {last : WalFrame} {file file' : List UInt8} {i : Nat}

/-- The pages lie behind the header. -/
theorem pageWrite_behind {w : FileWrite} (hw : w ∈ frames.map pageWrite) : PAGE_SIZE ≤ w.offset := by
  obtain ⟨frame, -, rfl⟩ := List.mem_map.mp hw
  exact Nat.le_mul_of_pos_right _ (Nat.succ_pos _)

/-- The pages of a log leave the header of the file alone. -/
theorem pages_spare_header (hi : i < PAGE_SIZE) :
    (applyWrites (frames.map pageWrite) file).getD i 0 = file.getD i 0 :=
  applyWrites_outside fun w hw hcovers => by
    have := pageWrite_behind hw
    have := hcovers.1
    omega

/-- Behind the pages there is a whole header. -/
theorem header_whole (hlast : last ∈ frames) :
    PAGE_SIZE ≤ (applyWrites (frames.map pageWrite) file).length := by
  have hends := applyWrites_length_le.mp
    (Nat.le_refl (applyWrites (frames.map pageWrite) file).length)
  have hpage := hends.2 (pageWrite last) (List.mem_map_of_mem hlast)
  have := pageWrite_behind (List.mem_map_of_mem (f := pageWrite) hlast)
  omega

/-- Outside of its fields the header is what was there. -/
theorem recoveredHeader_outside (hi : i < 12 ∨ 20 ≤ i) :
    recoveredHeader last file i = file.getD i 0 := by
  unfold recoveredHeader putU32At
  have hlength : ∀ value : UInt32, (le32 value).length = 4 := fun _ => rfl
  rw [putBytesAt_outside (by rw [hlength]; omega), putBytesAt_outside (by rw [hlength]; omega)]

/-- In its fields it is not. -/
theorem recoveredHeader_congr (h : i < 12 ∨ 20 ≤ i → file.getD i 0 = file'.getD i 0) :
    recoveredHeader last file i = recoveredHeader last file' i := by
  by_cases hi : i < 12 ∨ 20 ≤ i
  · rw [recoveredHeader_outside hi, recoveredHeader_outside hi, h hi]
  · have hfields : 12 ≤ i ∧ i < 20 := by omega
    unfold recoveredHeader putU32At
    by_cases hlow : i < 16
    · have hfirst : i < 12 + (le32 last.pageCount).length := hlow
      rw [putBytesAt_outside (Or.inl hlow), putBytesAt_outside (Or.inl hlow),
        putBytesAt_inside hfields.1 hfirst, putBytesAt_inside hfields.1 hfirst]
    · have hsecond : i < 16 + (le32 last.catalogRoot).length := hfields.2
      rw [putBytesAt_inside (Nat.le_of_not_lt hlow) hsecond,
        putBytesAt_inside (Nat.le_of_not_lt hlow) hsecond]

/-- The last write is the header that the last frame tells. -/
theorem headerWrite_eq (hlast : last ∈ frames) :
    headerWrite last (applyWrites (frames.map pageWrite) file)
      = [{ offset := 0, bytes := (List.range PAGE_SIZE).map (recoveredHeader last file) }] := by
  unfold headerWrite
  rw [if_pos (header_whole hlast)]
  have hsame : ∀ j ∈ List.range PAGE_SIZE,
      recoveredHeader last (applyWrites (frames.map pageWrite) file) j
        = recoveredHeader last file j := fun j hj =>
    recoveredHeader_congr fun _ => pages_spare_header (List.mem_range.mp hj)
  rw [List.map_congr_left hsame]

/-- A recovery writes the pages of the log and then the header. -/
theorem recoveryWrites_eq (hlast : last ∈ frames) :
    recoveryWrites frames last file = frames.map pageWrite ++
      [{ offset := 0, bytes := (List.range PAGE_SIZE).map (recoveredHeader last file) }] := by
  unfold recoveryWrites
  dsimp only
  rw [headerWrite_eq hlast]

/-- The first page holds what it held, and at most the fields of the header are new. -/
theorem stopped_header {kept : List FileWrite} (hlast : last ∈ frames)
    (hkept : ∀ w ∈ kept, w ∈ recoveryWrites frames last file) (hi : i < 12 ∨ 20 ≤ i)
    (hpage : i < PAGE_SIZE) : (applyWrites kept file).getD i 0 = file.getD i 0 := by
  refine applyWrites_getD (fun w hw hcovers => ?_) rfl
  have hin := hkept w hw
  rw [recoveryWrites_eq hlast] at hin
  rcases List.mem_append.mp hin with hin | hin
  · have := pageWrite_behind hin
    have := hcovers.1
    omega
  · obtain rfl := List.mem_singleton.mp hin
    unfold FileWrite.byte
    rw [List.getD_eq_getElem?_getD, List.getElem?_map,
      List.getElem?_range (by simpa using hpage)]
    exact recoveredHeader_outside hi

/-- Recovery makes the same writes again. -/
theorem recoveryWrites_again {kept : List FileWrite} (hlast : last ∈ frames)
    (hkept : ∀ w ∈ kept, w ∈ recoveryWrites frames last file) :
    recoveryWrites frames last (applyWrites kept file) = recoveryWrites frames last file := by
  have hsame : ∀ j ∈ List.range PAGE_SIZE,
      recoveredHeader last (applyWrites kept file) j = recoveredHeader last file j := fun j hj =>
    recoveredHeader_congr fun hfield =>
      stopped_header hlast hkept hfield (List.mem_range.mp hj)
  rw [recoveryWrites_eq hlast, recoveryWrites_eq hlast, List.map_congr_left hsame]

/-- And finds the file in the same layout. -/
theorem isPageFile_again {kept : List FileWrite} (hlast : last ∈ frames)
    (hkept : ∀ w ∈ kept, w ∈ recoveryWrites frames last file)
    (hpage : isPageFileBytes file = true) : isPageFileBytes (applyWrites kept file) = true := by
  have hlong : 12 ≤ file.length := by
    unfold isPageFileBytes at hpage
    simp only [Bool.and_eq_true, decide_eq_true_eq] at hpage
    exact hpage.1.1
  have hgrown : 12 ≤ (applyWrites kept file).length :=
    Nat.le_trans hlong ((applyWrites_length_le.mp (Nat.le_refl _)).1)
  have hfront : (applyWrites kept file).take 12 = file.take 12 := by
    refine file_ext (by simp; omega) fun j => ?_
    by_cases hj : j < 12
    · have := stopped_header hlast hkept (Or.inl hj) (Nat.lt_trans hj (by decide))
      simpa [List.getD_eq_getElem?_getD, List.getElem?_take, hj] using this
    · rw [List.getD_eq_default _ _ (by simp; omega), List.getD_eq_default _ _ (by simp; omega)]
  have hfirst : ∀ bytes : List UInt8, bytes.take MAGIC_LENGTH = (bytes.take 12).take MAGIC_LENGTH :=
    fun bytes => by rw [List.take_take]; rfl
  have hsecond : ∀ bytes : List UInt8, (bytes.drop 8).take 4 = (bytes.take 12).drop 8 :=
    fun bytes => by rw [List.drop_take]
  unfold isPageFileBytes at hpage ⊢
  rw [hfirst, hsecond] at hpage ⊢
  rw [hfront]
  simpa [hlong, hgrown] using hpage

end

/-! ### A recovery that is stopped -/

/-- A log with a committed frame is replayed. -/
theorem recoveryOps_replays {disk : Disk} {log : List UInt8} {last : WalFrame}
    (hlog : disk.log = some log) (hlast : (walFrames log).getLast? = some last)
    (hpage : isPageFileBytes disk.file = true) : recoveryOps disk =
      (recoveryWrites (walFrames log) last disk.file).map .write ++ [.sync, .removeLog] := by
  unfold recoveryOps
  rw [hlog]
  dsimp only
  rw [hlast]
  dsimp only
  rw [if_neg (by simp [hpage])]

/-- A recovery finds no log, or removes it, or replays the frames that it commits to. -/
theorem recovery_cases (disk : Disk) :
    (recoveryOps disk = [] ∧ disk.log = none) ∨ recoveryOps disk = [.removeLog] ∨
      ∃ log last, disk.log = some log ∧ (walFrames log).getLast? = some last ∧
        isPageFileBytes disk.file = true := by
  unfold recoveryOps
  split
  · exact Or.inl ⟨rfl, ‹_›⟩
  · rename_i log hlog
    split
    · exact Or.inr (Or.inl rfl)
    · rename_i last hlast
      split
      · exact Or.inr (Or.inl rfl)
      · rename_i hpage
        exact Or.inr (Or.inr ⟨log, last, hlog, hlast, by simpa using hpage⟩)

/-- After a replay the file has the writes and the log is gone. -/
theorem recoverDisk_replays {disk : Disk} {log : List UInt8} {last : WalFrame}
    (hlog : disk.log = some log) (hlast : (walFrames log).getLast? = some last)
    (hpage : isPageFileBytes disk.file = true) : recoverDisk disk =
      { file := applyWrites (recoveryWrites (walFrames log) last disk.file) disk.file
        log := none } := by
  unfold recoverDisk
  rw [recoveryOps_replays hlog hlast hpage, runDisk_writes]

/-- Without a log there is nothing to do. -/
theorem recoverDisk_noLog (file : List UInt8) :
    recoverDisk { file := file, log := none } = { file := file, log := none } := rfl

/-- Behind a recovery there is no log. -/
theorem recoverDisk_log (disk : Disk) : (recoverDisk disk).log = none := by
  rcases recovery_cases disk with ⟨hops, hnone⟩ | hops | ⟨log, last, hlog, hlast, hpage⟩
  · unfold recoverDisk
    rw [hops]
    exact hnone
  · unfold recoverDisk
    rw [hops]
    rfl
  · rw [recoverDisk_replays hlog hlast hpage]

/-- A second recovery has nothing to do. -/
theorem recoverDisk_again (disk : Disk) : recoverDisk (recoverDisk disk) = recoverDisk disk := by
  have hlog := recoverDisk_log disk
  generalize recoverDisk disk = d at hlog ⊢
  obtain ⟨file, log⟩ := d
  obtain rfl : log = none := hlog
  exact recoverDisk_noLog file

/-- What a crash leaves: nothing was written, or some of the writes of the frames that are replayed.
The log is there unless the recovery is over. -/
theorem RecoveryStopped.cases {disk d : Disk} (h : RecoveryStopped disk d) :
    (d.log = disk.log ∨ d = recoverDisk disk) ∧
      (d.file = disk.file ∨ ∃ log last kept, disk.log = some log ∧
        (walFrames log).getLast? = some last ∧ isPageFileBytes disk.file = true ∧
        (∀ w ∈ kept, w ∈ recoveryWrites (walFrames log) last disk.file) ∧
        d.file = applyWrites kept disk.file) := by
  rcases recovery_cases disk with ⟨hops, -⟩ | hops | ⟨log, last, hlog, hlast, hpage⟩
  · obtain ⟨front, hfront, kept, hkept, rfl⟩ := h
    obtain rfl : front = [] := by simpa [hops] using hfront
    obtain rfl : kept = [] := List.eq_nil_iff_forall_not_mem.mpr fun w hw => by
      simpa using hkept w hw
    exact ⟨Or.inl rfl, Or.inl rfl⟩
  · have hend : recoverDisk disk = { disk with log := none } := by
      unfold recoverDisk
      rw [hops]
      rfl
    obtain ⟨front, hfront, kept, hkept, rfl⟩ := h
    rw [hops, List.prefix_cons_iff] at hfront
    rcases hfront with rfl | ⟨rest, rfl, hrest⟩
    · obtain rfl : kept = [] := List.eq_nil_iff_forall_not_mem.mpr fun w hw => by
        simpa using hkept w hw
      exact ⟨Or.inl rfl, Or.inl rfl⟩
    · obtain rfl : rest = [] := by simpa using hrest
      obtain rfl : kept = [] := List.eq_nil_iff_forall_not_mem.mpr fun w hw => by
        simpa [Cached.step] using hkept w hw
      exact ⟨Or.inr hend.symm, Or.inl rfl⟩
  · unfold RecoveryStopped at h
    rw [recoveryOps_replays hlog hlast hpage] at h
    have hend := recoverDisk_replays hlog hlast hpage
    rcases interrupts_cases h with ⟨kept, hkept, rfl⟩ | rfl | rfl
    · exact ⟨Or.inl rfl, Or.inr ⟨log, last, kept, hlog, hlast, hpage, hkept, rfl⟩⟩
    · exact ⟨Or.inl rfl, Or.inr ⟨log, last, _, hlog, hlast, hpage, fun w hw => hw, rfl⟩⟩
    · exact ⟨Or.inr hend.symm, Or.inr ⟨log, last, _, hlog, hlast, hpage, fun w hw => hw, rfl⟩⟩

/-- What a crash leaves recovers to the same file as if there had been none. -/
theorem stopped_recovers {disk d : Disk} (h : RecoveryStopped disk d) :
    recoverDisk d = recoverDisk disk := by
  obtain ⟨hlogs | rfl, hfile⟩ := h.cases
  · obtain ⟨file, kept⟩ := disk
    obtain ⟨file', kept'⟩ := d
    dsimp only at hlogs hfile
    subst hlogs
    rcases hfile with rfl | ⟨log, last, kept, rfl, hlast, hpage, hkept, rfl⟩
    · rfl
    · have hmem : last ∈ walFrames log := List.mem_of_getLast? hlast
      have hagain := isPageFile_again hmem hkept hpage
      have hfirst : recoverDisk { file := file, log := some log } = _ :=
        recoverDisk_replays rfl hlast hpage
      have hsecond : recoverDisk { file := applyWrites kept file, log := some log } = _ :=
        recoverDisk_replays rfl hlast hagain
      rw [hfirst, hsecond]
      dsimp only
      rw [recoveryWrites_again hmem hkept, applyWrites_again hkept]
  · exact recoverDisk_again disk

/-! ### What is in the file -/

/-- The first pass finds the frames that the log commits to. -/
theorem walFrames_commits (log : List UInt8) : CommitsTo log (walFrames log) := by
  have hrecord : ∀ k, frameAt log k = frameFraming.record (log.drop WAL_HEADER) k := by
    intro k
    unfold frameAt Framing.record
    rw [List.drop_drop]
    rfl
  by_cases husable : UsableLog log
  · have hframes : walFrames log = upTo (fun frame => frame.commit ≠ 0)
        (frameFraming.scan log.length (log.drop WAL_HEADER)) := by
      unfold walFrames
      obtain ⟨hlength, hmagic, hsize⟩ := husable
      rw [if_neg (by simp [hmagic, hsize, hlength])]
    rw [hframes]
    refine ⟨fun h => absurd husable h, fun _ => ⟨behind (fun frame => frame.commit ≠ 0)
      (frameFraming.scan log.length (log.drop WAL_HEADER)), ?_, fun frame hframe => ?_⟩,
      fun last hlast => by simpa using upTo_last hlast⟩
    · rw [upTo_behind]
      refine ⟨fun k hk => ?_, ?_⟩
      · rw [hrecord, frameFraming.scan_record hk]
      · rw [hrecord]
        exact frameFraming.scan_stops (by rw [List.length_drop]; omega)
    · simpa using behind_unmarked frame hframe
  · have hframes : walFrames log = [] := by
      unfold walFrames
      unfold UsableLog at husable
      rw [if_pos]
      by_cases hlength : log.length < WAL_HEADER
      · exact Or.inl hlength
      · by_cases hmagic : log.take WAL_MAGIC_LEN = WAL_MAGIC
        · exact Or.inr (Or.inr fun hsize => husable ⟨Nat.le_of_not_lt hlength, hmagic, hsize⟩)
        · exact Or.inr (Or.inl hmagic)
    rw [hframes]
    exact ⟨fun _ => rfl, fun h => absurd h husable, by simp⟩

/-- The image of a frame is a page. -/
theorem frameAt_image {log : List UInt8} {k : Nat} {frame : WalFrame}
    (h : frameAt log k = some frame) : frame.image.length = PAGE_SIZE := by
  unfold frameAt readFrame at h
  dsimp only at h
  split at h
  · cases h
  · rename_i hlong
    split at h
    · cases h
    · obtain rfl := Option.some.inj h
      rw [List.length_drop, List.length_take, Nat.min_eq_left (Nat.le_of_not_lt hlong)]
      rfl

/-- Every frame has the image of a page. -/
theorem walFrames_image {log : List UInt8} {frame : WalFrame} (h : frame ∈ walFrames log) :
    frame.image.length = PAGE_SIZE := by
  have hcommits := walFrames_commits log
  by_cases husable : UsableLog log
  · obtain ⟨behind, hunbroken, -⟩ := hcommits.front husable
    obtain ⟨k, hk, hget⟩ := List.mem_iff_getElem.mp (List.mem_append_left behind h)
    refine @frameAt_image log k _ ?_
    rw [hunbroken.whole k hk, List.getElem?_eq_getElem hk, hget]
  · rw [hcommits.unusable husable] at h
    cases h

/-- The byte of a page write, by the page that it lies in. -/
theorem pageWrite_covers {frame : WalFrame} (himage : frame.image.length = PAGE_SIZE) (i : Nat) :
    ((pageWrite frame).Covers i ↔ frame.pageId.toNat + 1 = i / PAGE_SIZE) ∧
      ((pageWrite frame).Covers i → (pageWrite frame).byte i
        = frame.image.getD (i % PAGE_SIZE) 0) := by
  have hpositive : 0 < PAGE_SIZE := by decide
  have hcovers : (pageWrite frame).Covers i ↔ frame.pageId.toNat + 1 = i / PAGE_SIZE := by
    unfold FileWrite.Covers pageWrite
    dsimp only
    rw [himage, eq_comm, Nat.div_eq_iff hpositive, Nat.mul_comm PAGE_SIZE]
    omega
  refine ⟨hcovers, fun h => ?_⟩
  unfold FileWrite.byte pageWrite
  rw [hcovers.mp h, Nat.mod_eq_sub_mul_div]

/-- Behind the header the file has the last image of each page. -/
theorem replayed_byte {frames : List WalFrame} {file : List UInt8}
    (himages : ∀ frame ∈ frames, frame.image.length = PAGE_SIZE) (i : Nat) :
    (applyWrites (frames.map pageWrite) file).getD i 0 = replayedByte frames file i := by
  have hfind : frames.reverse.find? (fun frame => decide ((pageWrite frame).Covers i))
      = frames.reverse.find? fun frame => frame.pageId.toNat + 1 == i / PAGE_SIZE := by
    refine List.find?_congr fun frame hframe => ?_
    have hcovers := (pageWrite_covers (himages frame (List.mem_reverse.mp hframe)) i).1
    rw [beq_eq_decide]
    exact decide_eq_decide.mpr hcovers
  rw [applyWrites_last, ← List.map_reverse, List.find?_map]
  unfold Function.comp
  rw [hfind]
  unfold replayedByte
  cases hfound : frames.reverse.find? fun frame => frame.pageId.toNat + 1 == i / PAGE_SIZE with
  | none => rfl
  | some frame =>
    have hpage := pageWrite_covers
      (himages frame (List.mem_reverse.mp (List.mem_of_find?_eq_some hfound))) i
    exact hpage.2 (hpage.1.mpr (by simpa using List.find?_some hfound))

/-- A replayed log: the header with the fields of the last commit, and behind it the pages. -/
theorem recovered_byte {disk : Disk} {log : List UInt8} {last : WalFrame}
    (hlog : disk.log = some log) (hlast : (walFrames log).getLast? = some last)
    (hpage : isPageFileBytes disk.file = true) (i : Nat) :
    (recoverDisk disk).file.getD i 0 =
      if i < PAGE_SIZE then recoveredHeader last disk.file i
      else replayedByte (walFrames log) disk.file i := by
  rw [recoverDisk_replays hlog hlast hpage, recoveryWrites_eq (List.mem_of_getLast? hlast),
    applyWrites_append, applyWrites_cons, applyWrites_nil, FileWrite.getD_on]
  have hcovers : ∀ bytes : List UInt8, bytes.length = PAGE_SIZE →
      (FileWrite.Covers { offset := 0, bytes := bytes } i ↔ i < PAGE_SIZE) := by
    intro bytes hlength
    unfold FileWrite.Covers
    dsimp only
    rw [hlength]
    omega
  by_cases hi : i < PAGE_SIZE
  · rw [if_pos ((hcovers _ (by simp)).mpr hi), if_pos hi]
    unfold FileWrite.byte
    rw [List.getD_eq_getElem?_getD, List.getElem?_map, List.getElem?_range (by simpa using hi)]
    rfl
  · rw [if_neg (fun h => hi ((hcovers _ (by simp)).mp h)), if_neg hi]
    exact replayed_byte (fun _ hframe => walFrames_image hframe) i

/-- What a stopped recovery has put at a byte of the file: an image of a frame that the log commits
to, or the fields of the header. -/
def AppliedAt (disk : Disk) (i : Nat) (byte : UInt8) : Prop :=
  ∃ log, disk.log = some log ∧ walFrames log ≠ [] ∧
    ((12 ≤ i ∧ i < 20) ∨ ∃ frame ∈ walFrames log, frame.pageId.toNat + 1 = i / PAGE_SIZE ∧
      byte = frame.image.getD (i % PAGE_SIZE) 0)

/-- Writes of a recovery, any of them. -/
theorem kept_applied {disk : Disk} {log : List UInt8} {last : WalFrame} {kept : List FileWrite}
    (hlog : disk.log = some log) (hlast : (walFrames log).getLast? = some last)
    (hkept : ∀ w ∈ kept, w ∈ recoveryWrites (walFrames log) last disk.file) (i : Nat) :
    (applyWrites kept disk.file).getD i 0 = disk.file.getD i 0 ∨
      AppliedAt disk i ((applyWrites kept disk.file).getD i 0) := by
  have hmem := List.mem_of_getLast? hlast
  have hne : walFrames log ≠ [] := List.ne_nil_of_mem hmem
  rw [applyWrites_last]
  cases hfound : kept.reverse.find? fun w => decide (w.Covers i) with
  | none => exact Or.inl rfl
  | some w =>
    have hcovers : w.Covers i := by simpa using List.find?_some hfound
    have hin := hkept w (List.mem_reverse.mp (List.mem_of_find?_eq_some hfound))
    rw [recoveryWrites_eq hmem] at hin
    rcases List.mem_append.mp hin with hin | hin
    · obtain ⟨frame, hframe, rfl⟩ := List.mem_map.mp hin
      have hpage := pageWrite_covers (walFrames_image hframe) i
      exact Or.inr ⟨log, hlog, hne, Or.inr ⟨frame, hframe, hpage.1.mp hcovers, hpage.2 hcovers⟩⟩
    · by_cases hfield : i < 12 ∨ 20 ≤ i
      · obtain rfl := List.mem_singleton.mp hin
        have hlow : i < PAGE_SIZE := by simpa [FileWrite.Covers] using hcovers
        refine Or.inl ?_
        show FileWrite.byte _ i = _
        unfold FileWrite.byte
        rw [List.getD_eq_getElem?_getD, List.getElem?_map, List.getElem?_range (by simpa using hlow)]
        exact recoveredHeader_outside hfield
      · exact Or.inr ⟨log, hlog, hne, Or.inl (by omega)⟩

/-- One recovery, stopped somewhere or not. -/
theorem stopped_applied {disk d : Disk} (h : RecoveryStopped disk d) (i : Nat) :
    d.file.getD i 0 = disk.file.getD i 0 ∨ AppliedAt disk i (d.file.getD i 0) := by
  rcases h.cases.2 with hsame | ⟨log, last, kept, hlog, hlast, -, hkept, hfile⟩
  · exact Or.inl (by rw [hsame])
  · rw [hfile]
    exact kept_applied hlog hlast hkept i

/-- So does what any number of crashes leave. -/
theorem stopped_again {disk d : Disk} (h : Relation.ReflTransGen RecoveryStopped disk d) :
    recoverDisk d = recoverDisk disk := by
  induction h with
  | refl => rfl
  | tail _ hstep ih => exact (stopped_recovers hstep).trans ih

/-- The log is there until the file is recovered. -/
theorem stopped_log {disk d : Disk} (h : Relation.ReflTransGen RecoveryStopped disk d) :
    d.log = disk.log ∨ d = recoverDisk disk := by
  induction h with
  | refl => exact Or.inl rfl
  | @tail d d' hrun hstep ih =>
    obtain ⟨hlogs' | hend, hfile⟩ := hstep.cases
    · rcases ih with hlogs | rfl
      · exact Or.inl (hlogs'.trans hlogs)
      · -- without a log nothing is written
        rcases hfile with hfile | ⟨log, -, -, hlog, -⟩
        · obtain ⟨file, log⟩ := d'
          dsimp only at hlogs' hfile
          subst hlogs' hfile
          exact Or.inr rfl
        · rw [recoverDisk_log] at hlog
          cases hlog
    · exact Or.inr (hend.trans (stopped_again hrun))

/-- A recovery that is stopped any number of times, wherever: the one that comes to its end leaves
the file that a single one would have left, the log is there until the file is that one, and all
that was ever applied are frames that the log commits to. What is left is the last image of each
page, and the header with the fields of the last commit. -/
theorem recovery_restartable {disk d : Disk} (h : Relation.ReflTransGen RecoveryStopped disk d) :
    recoverDisk d = recoverDisk disk ∧ (d.log = disk.log ∨ d = recoverDisk disk) ∧
      (∀ i, d.file.getD i 0 = disk.file.getD i 0 ∨ AppliedAt disk i (d.file.getD i 0)) ∧
      ∀ log, disk.log = some log → CommitsTo log (walFrames log) ∧
        ∀ last, (walFrames log).getLast? = some last → isPageFileBytes disk.file = true →
          ∀ i, (recoverDisk disk).file.getD i 0 =
            if i < PAGE_SIZE then recoveredHeader last disk.file i
            else replayedByte (walFrames log) disk.file i := by
  refine ⟨stopped_again h, stopped_log h, fun i => ?_, fun log hlog =>
    ⟨walFrames_commits log, fun last hlast hpage => recovered_byte hlog hlast hpage⟩⟩
  induction h with
  | refl => exact Or.inl rfl
  | tail hrun hstep ih =>
    rcases stopped_applied hstep i with hsame | ⟨log, hlog, happlied⟩
    · rw [hsame]
      exact ih
    · rcases stopped_log hrun with hlogs | rfl
      · exact Or.inr ⟨log, hlogs ▸ hlog, happlied⟩
      · rw [recoverDisk_log] at hlog
        cases hlog

/-- A page of zeroes, and a commit. -/
def blankFrame : LogFrame Bytes where
  pageId := 0
  commit := true
  pageCount := 1
  catalogRoot := INVALID_CATALOG
  page := Page.zero

/-- A file that has its magic and its version and nothing more, and a log of one committed frame. -/
def shortDisk : Disk where
  file := SAVE_MAGIC ++ putU32 SAVE_VERSION
  log := some (walHeader ++ [blankFrame].flatMap frameBytes ++ [])

/-- The page is written and the header is not. -/
theorem recovery_restartable_short :
    let d : Disk := { shortDisk with file := applyWrites [pageWrite blankFrame.raw] shortDisk.file }
    recoverDisk d = recoverDisk shortDisk ∧ (d.log = shortDisk.log ∨ d = recoverDisk shortDisk) ∧
      (∀ i, d.file.getD i 0 = shortDisk.file.getD i 0 ∨
        AppliedAt shortDisk i (d.file.getD i 0)) ∧
      ∀ log, shortDisk.log = some log → CommitsTo log (walFrames log) ∧
        ∀ last, (walFrames log).getLast? = some last → isPageFileBytes shortDisk.file = true →
          ∀ i, (recoverDisk shortDisk).file.getD i 0 =
            if i < PAGE_SIZE then recoveredHeader last shortDisk.file i
            else replayedByte (walFrames log) shortDisk.file i := by
  intro d
  refine recovery_restartable (.single ?_)
  have hframes : walFrames (walHeader ++ [blankFrame].flatMap frameBytes ++ [])
      = [blankFrame.raw] := walFrames_whole [blankFrame] (by decide)
  have hlast : (walFrames (walHeader ++ [blankFrame].flatMap frameBytes ++ [])).getLast?
      = some blankFrame.raw := by rw [hframes]; rfl
  have hops : recoveryOps shortDisk = _ := recoveryOps_replays rfl hlast (by decide)
  unfold RecoveryStopped
  rw [hops, hframes, recoveryWrites_eq (List.mem_singleton.mpr rfl)]
  refine ⟨[.write (pageWrite blankFrame.raw)], ⟨_, rfl⟩, [pageWrite blankFrame.raw], ?_, rfl⟩
  intro w hw
  exact hw

end DatabaseEngine
