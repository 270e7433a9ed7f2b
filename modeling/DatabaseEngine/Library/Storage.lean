import Mathlib.Data.List.GetD
import Mathlib.Data.List.Induction
import Mathlib.Logic.Relation

/-!
# `DatabaseEngine.Library.Storage`: writes into a file, and what a crash leaves of them

A file is its bytes, and a write puts bytes at an offset. What lies between the end of the file and
the offset reads as zeroes. A program writes through a cache: until it syncs, a crash may keep any of
its writes and lose the others, in any order.

* `applyWrites_again`: writes that are all made in the end may be made before, any of them.
* `applyWrites_getD`: a byte that all writes agree on.
* `Cached.Crashed`: the disks that a crash may leave.
-/

set_option autoImplicit false

namespace Library

/-! ### Writes -/

/-- Bytes written at an offset. -/
structure FileWrite where
  offset : Nat
  bytes : List UInt8
  deriving DecidableEq

namespace FileWrite

/-- Whether a write is about the byte at `i`. -/
def Covers (w : FileWrite) (i : Nat) : Prop := w.offset ≤ i ∧ i < w.offset + w.bytes.length

instance (w : FileWrite) (i : Nat) : Decidable (w.Covers i) := inferInstanceAs (Decidable (_ ∧ _))

/-- What it writes there. -/
def byte (w : FileWrite) (i : Nat) : UInt8 := w.bytes.getD (i - w.offset) 0

/-- The file behind a write. -/
def on (w : FileWrite) (file : List UInt8) : List UInt8 :=
  (List.range (max file.length (w.offset + w.bytes.length))).map fun i =>
    if w.Covers i then w.byte i else file.getD i 0

/-- A file grows to the end of a write. -/
@[simp] theorem length_on (w : FileWrite) (file : List UInt8) :
    (w.on file).length = max file.length (w.offset + w.bytes.length) := by
  simp [on]

/-- A byte of a file after a write. -/
theorem getD_on (w : FileWrite) (file : List UInt8) (i : Nat) :
    (w.on file).getD i 0 = if w.Covers i then w.byte i else file.getD i 0 := by
  unfold on
  by_cases hi : i < max file.length (w.offset + w.bytes.length)
  · rw [List.getD_eq_getElem?_getD, List.getElem?_map, List.getElem?_range hi]
    rfl
  · have hout : ¬w.Covers i := fun h => hi (Nat.lt_of_lt_of_le h.2 (Nat.le_max_right ..))
    rw [if_neg hout, List.getD_eq_default _ _ (by simpa using hi),
      List.getD_eq_default _ _ (by omega)]

end FileWrite

/-- Two files of one length with the same bytes. -/
theorem file_ext {file file' : List UInt8} (hlength : file.length = file'.length)
    (hbyte : ∀ i, file.getD i 0 = file'.getD i 0) : file = file' := by
  refine List.ext_getElem hlength fun i hi hi' => ?_
  have h := hbyte i
  rwa [List.getD_eq_getElem _ _ hi, List.getD_eq_getElem _ _ hi'] at h

/-- The writes, one after another. -/
def applyWrites (ws : List FileWrite) (file : List UInt8) : List UInt8 :=
  ws.foldl (fun file w => w.on file) file

section
variable {ws kept : List FileWrite} {file file' : List UInt8} {i : Nat}

/-- No writes. -/
@[simp] theorem applyWrites_nil : applyWrites [] file = file := rfl

/-- The first write, and then the others. -/
@[simp] theorem applyWrites_cons (w : FileWrite) :
    applyWrites (w :: ws) file = applyWrites ws (w.on file) := rfl

/-- Writes one after the other. -/
theorem applyWrites_append (more : List FileWrite) :
    applyWrites (ws ++ more) file = applyWrites more (applyWrites ws file) :=
  List.foldl_append ..

/-- The file grows to the furthest write. -/
theorem applyWrites_length_le {n : Nat} :
    (applyWrites ws file).length ≤ n ↔
      file.length ≤ n ∧ ∀ w ∈ ws, w.offset + w.bytes.length ≤ n := by
  induction ws generalizing file with
  | nil => simp
  | cons w ws ih =>
    rw [applyWrites_cons, ih, FileWrite.length_on, List.forall_mem_cons, Nat.max_le, and_assoc]

/-- A byte is as it was or as one of the writes has it. -/
theorem applyWrites_getD {value : UInt8} (hws : ∀ w ∈ ws, w.Covers i → w.byte i = value)
    (hfile : file.getD i 0 = value) : (applyWrites ws file).getD i 0 = value := by
  induction ws generalizing file with
  | nil => exact hfile
  | cons w ws ih =>
    refine ih (fun w' hw' => hws w' (List.mem_cons_of_mem _ hw')) ?_
    rw [FileWrite.getD_on]
    split
    · exact hws w (List.mem_cons_self ..) ‹_›
    · exact hfile

/-- A byte depends on what it was, and on no other byte. -/
theorem applyWrites_congr (h : file.getD i 0 = file'.getD i 0) :
    (applyWrites ws file).getD i 0 = (applyWrites ws file').getD i 0 := by
  induction ws generalizing file file' with
  | nil => exact h
  | cons w ws ih => exact ih (by rw [FileWrite.getD_on, FileWrite.getD_on, h])

/-- What is written over does not matter. -/
theorem applyWrites_covered {w : FileWrite} (hw : w ∈ ws) (hcovers : w.Covers i) :
    (applyWrites ws file).getD i 0 = (applyWrites ws file').getD i 0 := by
  induction ws generalizing file file' with
  | nil => simp at hw
  | cons first ws ih =>
    rcases List.mem_cons.mp hw with rfl | hw
    · rw [applyWrites_cons, applyWrites_cons]
      refine applyWrites_congr ?_
      rw [FileWrite.getD_on, FileWrite.getD_on, if_pos hcovers, if_pos hcovers]
    · exact ih hw

/-- What no write covers stays. -/
theorem applyWrites_outside (h : ∀ w ∈ ws, ¬w.Covers i) :
    (applyWrites ws file).getD i 0 = file.getD i 0 :=
  applyWrites_getD (fun w hw hcovers => absurd hcovers (h w hw)) rfl

/-- The last write that covers a byte wins. -/
theorem applyWrites_last :
    (applyWrites ws file).getD i 0 =
      match ws.reverse.find? fun w => decide (w.Covers i) with
      | some w => w.byte i
      | none => file.getD i 0 := by
  induction ws using List.reverseRecOn with
  | nil => rfl
  | append_singleton ws w ih =>
    rw [applyWrites_append, applyWrites_cons, applyWrites_nil, FileWrite.getD_on, ih,
      List.reverse_append, List.reverse_singleton, List.singleton_append, List.find?_cons]
    by_cases hcovers : w.Covers i
    · rw [if_pos hcovers, decide_eq_true hcovers]
    · rw [if_neg hcovers, decide_eq_false hcovers]

/-- Writes that are all made in the end may be made before, any of them and in any order. -/
theorem applyWrites_again (hkept : ∀ w ∈ kept, w ∈ ws) :
    applyWrites ws (applyWrites kept file) = applyWrites ws file := by
  have hlength : ∀ n, (applyWrites ws (applyWrites kept file)).length ≤ n ↔
      (applyWrites ws file).length ≤ n := by
    intro n
    rw [applyWrites_length_le, applyWrites_length_le, applyWrites_length_le]
    exact ⟨fun h => ⟨h.1.1, h.2⟩, fun h => ⟨⟨h.1, fun w hw => h.2 w (hkept w hw)⟩, h.2⟩⟩
  refine file_ext (Nat.le_antisymm ((hlength _).mpr (Nat.le_refl _))
    ((hlength _).mp (Nat.le_refl _))) fun i => ?_
  by_cases hcovered : ∃ w ∈ ws, w.Covers i
  · obtain ⟨w, hw, hcovers⟩ := hcovered
    exact applyWrites_covered hw hcovers
  · have hout : ∀ w ∈ ws, ¬w.Covers i := fun w hw hcovers => hcovered ⟨w, hw, hcovers⟩
    exact applyWrites_congr (applyWrites_outside fun w hw => hout w (hkept w hw))

end

/-! ### A disk behind a cache -/

/-- A file and a log of it. -/
structure Disk where
  file : List UInt8
  log : Option (List UInt8)
  deriving DecidableEq

/-- What is done to the disk. -/
inductive DiskOp
  | write (w : FileWrite)
  /-- Puts what was written on the disk. -/
  | sync
  | removeLog

/-- A disk, and the writes that it may not have yet. -/
structure Cached where
  disk : Disk
  pending : List FileWrite

namespace Cached

/-- The disk with everything that waits in the cache. -/
def settled (c : Cached) : Disk := { c.disk with file := applyWrites c.pending c.disk.file }

/-- One operation. -/
def step (c : Cached) : DiskOp → Cached
  | .write w => { c with pending := c.pending ++ [w] }
  | .sync => { disk := c.settled, pending := [] }
  | .removeLog => { c with disk := { c.disk with log := none } }

/-- What a crash may leave: any of the writes that were not synced, in any order. -/
def Crashed (c : Cached) (disk : Disk) : Prop :=
  ∃ kept : List FileWrite, (∀ w ∈ kept, w ∈ c.pending) ∧
    disk = { c.disk with file := applyWrites kept c.disk.file }

/-- Writes wait for the next sync. -/
theorem foldl_write (c : Cached) (ws : List FileWrite) :
    (ws.map DiskOp.write).foldl step c = { c with pending := c.pending ++ ws } := by
  induction ws generalizing c with
  | nil => simp
  | cons w ws ih =>
    rw [List.map_cons, List.foldl_cons, ih]
    simp [step]

end Cached

/-- A program on a disk that runs to its end. -/
def runDisk (ops : List DiskOp) (disk : Disk) : Disk :=
  (ops.foldl Cached.step { disk := disk, pending := [] }).settled

/-- A program on a disk that is interrupted somewhere. -/
def Interrupts (ops : List DiskOp) (disk disk' : Disk) : Prop :=
  ∃ front, front <+: ops ∧ (front.foldl Cached.step { disk := disk, pending := [] }).Crashed disk'

/-- What a crash leaves of a program that writes, syncs and then removes the log. -/
theorem interrupts_cases {ws : List FileWrite} {disk disk' : Disk}
    (h : Interrupts (ws.map .write ++ [.sync, .removeLog]) disk disk') :
    (∃ kept : List FileWrite, (∀ w ∈ kept, w ∈ ws) ∧
        disk' = { disk with file := applyWrites kept disk.file }) ∨
      disk' = { disk with file := applyWrites ws disk.file } ∨
      disk' = { file := applyWrites ws disk.file, log := none } := by
  obtain ⟨front, hfront, kept, hkept, rfl⟩ := h
  rw [List.append_cons, List.prefix_concat_iff, List.prefix_concat_iff] at hfront
  rcases hfront with rfl | rfl | hfront
  · -- all of it: nothing is pending
    simp only [List.foldl_append, Cached.foldl_write] at hkept ⊢
    obtain rfl : kept = [] := List.eq_nil_iff_forall_not_mem.mpr fun w hw => by
      simpa [Cached.step] using hkept w hw
    exact Or.inr (Or.inr (by simp [Cached.step, Cached.settled]))
  · -- up to the sync
    simp only [List.foldl_append, Cached.foldl_write] at hkept ⊢
    obtain rfl : kept = [] := List.eq_nil_iff_forall_not_mem.mpr fun w hw => by
      simpa [Cached.step] using hkept w hw
    exact Or.inr (Or.inl (by simp [Cached.step, Cached.settled]))
  · -- some of the writes are pending
    obtain ⟨made, hmade, rfl⟩ := List.prefix_map_iff.mp hfront
    rw [Cached.foldl_write] at hkept ⊢
    exact Or.inl ⟨kept, fun w hw => hmade.subset (by simpa using hkept w hw), rfl⟩

/-- Writes, a sync and the removal of the log. -/
theorem runDisk_writes (ws : List FileWrite) (disk : Disk) :
    runDisk (ws.map .write ++ [.sync, .removeLog]) disk
      = { file := applyWrites ws disk.file, log := none } := by
  unfold runDisk
  rw [List.foldl_append, Cached.foldl_write]
  simp [Cached.step, Cached.settled]

end Library
