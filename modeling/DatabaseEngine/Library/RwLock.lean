import Mathlib.Data.List.Basic

/-!
# `DatabaseEngine.Library.RwLock`: a reader–writer lock and its log

A lock that many threads hold as readers or one as the writer, and the log of who took it and
who gave it back.

* `Kept.acquire`, `Kept.release`: as long as a thread takes the lock only when it has none of it,
  and gives back what it has, each acquisition in the log is followed by its release, once.
* `Kept.alone`: a thread that writes is the only one.
* `InBlocks.extend`: a history whose events leave something open or not falls into blocks of one
  owner each.
-/

set_option autoImplicit false

namespace Library

universe u v

/-- How a thread holds the lock. -/
inductive LockMode
  | shared
  | exclusive
  deriving DecidableEq

/-- Who holds the lock. -/
structure RwLock (ι : Type u) where
  readers : List ι
  writer : Option ι

/-- What a thread does with the lock. -/
inductive LockEvent (ι : Type u)
  | acquire (thread : ι) (mode : LockMode)
  | release (thread : ι) (mode : LockMode)
  deriving DecidableEq

section
variable {ι : Type u}

/-- The thread of an event. -/
def LockEvent.thread : LockEvent ι → ι
  | .acquire i _ => i
  | .release i _ => i

namespace RwLock

/-- The lock that nobody holds. -/
def free : RwLock ι := { readers := [], writer := none }

/-- Whether a thread that asks now gets the lock. -/
def grants (l : RwLock ι) : LockMode → Prop
  | .shared => l.writer = none
  | .exclusive => l.writer = none ∧ l.readers = []

/-- The lock once a thread has it. -/
def lock (l : RwLock ι) (i : ι) : LockMode → RwLock ι
  | .shared => { l with readers := i :: l.readers }
  | .exclusive => { l with writer := some i }

variable [DecidableEq ι]

/-- The lock once a thread has let it go. -/
def unlock (l : RwLock ι) (i : ι) : LockMode → RwLock ι
  | .shared => { l with readers := l.readers.erase i }
  | .exclusive => { l with writer := none }

/-- What a thread holds of the lock. -/
def holds (l : RwLock ι) (i : ι) : Option LockMode :=
  if l.writer = some i then some .exclusive
  else if i ∈ l.readers then some .shared
  else none

/-- The writer is who holds the lock alone. -/
theorem holds_exclusive {l : RwLock ι} {i : ι} :
    l.holds i = some .exclusive ↔ l.writer = some i := by
  unfold holds
  split
  · rename_i hwriter
    exact ⟨fun _ => hwriter, fun _ => rfl⟩
  · rename_i hwriter
    split <;> simp [hwriter]

/-- Who is neither the writer nor a reader holds nothing. -/
theorem holds_none {l : RwLock ι} {i : ι} :
    l.holds i = none ↔ l.writer ≠ some i ∧ i ∉ l.readers := by
  unfold holds
  split
  · rename_i hwriter
    simp [hwriter]
  · rename_i hwriter
    split <;> simp_all

/-- A writer excludes the readers, and no thread reads twice. -/
structure Sound (l : RwLock ι) : Prop where
  apart : ∀ i, l.writer = some i → l.readers = []
  nodup : l.readers.Nodup

/-- The readers are who hold it together. -/
theorem Sound.holds_shared {l : RwLock ι} (h : l.Sound) {i : ι} :
    l.holds i = some .shared ↔ i ∈ l.readers := by
  unfold holds
  split
  · rename_i hwriter
    simp [h.apart i hwriter]
  · split <;> simp_all

/-- A lock that is granted to someone who holds none leaves a sound one. -/
theorem Sound.lock {l : RwLock ι} (h : l.Sound) {i : ι} {mode : LockMode} (hgrants : l.grants mode)
    (hnone : l.holds i = none) : (l.lock i mode).Sound := by
  obtain ⟨-, hout⟩ := holds_none.mp hnone
  cases mode with
  | shared =>
    refine ⟨fun j hj => ?_, List.nodup_cons.mpr ⟨hout, h.nodup⟩⟩
    rw [show (l.lock i .shared).writer = l.writer from rfl, show l.writer = none from hgrants] at hj
    exact absurd hj (by simp)
  | exclusive => exact ⟨fun _ _ => hgrants.2, h.nodup⟩

/-- So does giving it back. -/
theorem Sound.unlock {l : RwLock ι} (h : l.Sound) (i : ι) (mode : LockMode) :
    (l.unlock i mode).Sound := by
  cases mode with
  | shared =>
    refine ⟨fun j hj => ?_, h.nodup.erase i⟩
    show l.readers.erase i = []
    rw [h.apart j hj, List.erase_nil]
  | exclusive => exact ⟨fun j hj => absurd hj (by simp [RwLock.unlock]), h.nodup⟩

/-- Who was granted the lock holds it. -/
theorem holds_lock_self {l : RwLock ι} {i : ι} {mode : LockMode} (hgrants : l.grants mode) :
    (l.lock i mode).holds i = some mode := by
  cases mode with
  | shared =>
    have hwriter : l.writer = none := hgrants
    simp [holds, lock, hwriter]
  | exclusive => simp [holds, lock]

/-- For all others nothing has changed. -/
theorem holds_lock_other {l : RwLock ι} {i j : ι} {mode : LockMode} (hgrants : l.grants mode)
    (hne : j ≠ i) : (l.lock i mode).holds j = l.holds j := by
  cases mode with
  | shared => simp [holds, lock, hne]
  | exclusive =>
    obtain ⟨hwriter, hreaders⟩ := hgrants
    simp [holds, lock, hwriter, hreaders, hne.symm]

/-- Who gave it back holds nothing. -/
theorem Sound.holds_unlock_self {l : RwLock ι} (h : l.Sound) {i : ι} {mode : LockMode}
    (hheld : l.holds i = some mode) : (l.unlock i mode).holds i = none := by
  rw [holds_none]
  cases mode with
  | shared =>
    have hwriter : l.writer ≠ some i := by
      intro hwriter
      rw [holds_exclusive.mpr hwriter] at hheld
      exact absurd hheld (by simp)
    exact ⟨hwriter, h.nodup.not_mem_erase⟩
  | exclusive =>
    have hreaders := h.apart i (holds_exclusive.mp hheld)
    exact ⟨by simp [RwLock.unlock], by simp [RwLock.unlock, hreaders]⟩

/-- For all others nothing has changed. -/
theorem Sound.holds_unlock_other {l : RwLock ι} (h : l.Sound) {i j : ι} {mode : LockMode}
    (hheld : l.holds i = some mode) (hne : j ≠ i) : (l.unlock i mode).holds j = l.holds j := by
  cases mode with
  | shared => simp [holds, RwLock.unlock, List.mem_erase_of_ne hne]
  | exclusive =>
    have hwriter := holds_exclusive.mp hheld
    have hreaders := h.apart i hwriter
    simp [holds, RwLock.unlock, hwriter, hreaders, hne.symm]

end RwLock

variable [DecidableEq ι]

/-- Every acquisition of the thread in the log is released exactly once, in the mode it was taken
in, before the next. The last one may still be held. -/
def Paired (i : ι) (log : List (LockEvent ι)) (held : Option LockMode) : Prop :=
  ∃ modes : List LockMode,
    log.filter (fun event => event.thread = i)
      = (modes.flatMap fun mode => [.acquire i mode, .release i mode])
        ++ (held.map fun mode => .acquire i mode).toList

namespace Paired

variable {i : ι} {log : List (LockEvent ι)} {held : Option LockMode} {mode : LockMode}

/-- Nothing has happened and nothing is held. -/
theorem nil : Paired i ([] : List (LockEvent ι)) none := ⟨[], rfl⟩

/-- What another thread does changes nothing. -/
theorem other (h : Paired i log held) {event : LockEvent ι} (hother : event.thread ≠ i) :
    Paired i (log ++ [event]) held := by
  obtain ⟨modes, heq⟩ := h
  refine ⟨modes, ?_⟩
  rw [List.filter_append, heq]
  simp [hother]

/-- The lock is taken. -/
theorem acquire (h : Paired i log none) : Paired i (log ++ [.acquire i mode]) (some mode) := by
  obtain ⟨modes, heq⟩ := h
  refine ⟨modes, ?_⟩
  rw [List.filter_append, heq]
  simp [LockEvent.thread]

/-- It is given back. -/
theorem release (h : Paired i log (some mode)) : Paired i (log ++ [.release i mode]) none := by
  obtain ⟨modes, heq⟩ := h
  refine ⟨modes ++ [mode], ?_⟩
  rw [List.filter_append, heq]
  simp [LockEvent.thread]

end Paired

/-- The lock is what its log says. -/
structure Kept (l : RwLock ι) (log : List (LockEvent ι)) : Prop where
  sound : l.Sound
  paired : ∀ i, Paired i log (l.holds i)

namespace Kept

variable {l : RwLock ι} {log : List (LockEvent ι)} {i : ι} {mode : LockMode}

/-- At the start nobody holds the lock. -/
theorem free : Kept (RwLock.free : RwLock ι) [] where
  sound := ⟨fun _ h => absurd h (by simp [RwLock.free]), List.nodup_nil⟩
  paired i := by
    have hnone : (RwLock.free : RwLock ι).holds i = none := by simp [RwLock.holds, RwLock.free]
    rw [hnone]
    exact .nil

/-- The lock is granted, and the log says so. -/
theorem acquire (h : Kept l log) (hgrants : l.grants mode) (hnone : l.holds i = none) :
    Kept (l.lock i mode) (log ++ [.acquire i mode]) where
  sound := h.sound.lock hgrants hnone
  paired j := by
    by_cases hj : j = i
    · subst hj
      rw [RwLock.holds_lock_self hgrants]
      have hpaired := h.paired j
      rw [hnone] at hpaired
      exact hpaired.acquire
    · rw [RwLock.holds_lock_other hgrants hj]
      exact (h.paired j).other (Ne.symm hj)

/-- It is given back, and the log says so. -/
theorem release (h : Kept l log) (hheld : l.holds i = some mode) :
    Kept (l.unlock i mode) (log ++ [.release i mode]) where
  sound := h.sound.unlock i mode
  paired j := by
    by_cases hj : j = i
    · subst hj
      rw [h.sound.holds_unlock_self hheld]
      have hpaired := h.paired j
      rw [hheld] at hpaired
      exact hpaired.release
    · rw [h.sound.holds_unlock_other hheld hj]
      exact (h.paired j).other (Ne.symm hj)

/-- A thread that writes is the only one that holds anything. -/
theorem alone (h : Kept l log) (hwriter : l.writer = some i) {j : ι}
    (hheld : l.holds j = some mode) : j = i := by
  cases mode with
  | shared =>
    have hin := h.sound.holds_shared.mp hheld
    rw [h.sound.apart i hwriter] at hin
    exact absurd hin (by simp)
  | exclusive => exact Option.some.inj ((RwLock.holds_exclusive.mp hheld).symm.trans hwriter)

end Kept

end

/-! ### Blocks -/

section
variable {ι : Type u} {ε : Type v} (owner : ε → ι) (leavesOpen : ε → Bool)

/-- Events of one owner, of which the last and no other closes what they opened. -/
def Whole (block : List ε) : Prop :=
  ∃ front last, block = front ++ [last] ∧ (∀ e ∈ front, leavesOpen e = true ∧ owner e = owner last) ∧
    leavesOpen last = false

/-- The history is a sequence of whole blocks, and then the events of one owner that has not
closed yet. -/
structure InBlocks (history current : List ε) : Prop where
  blocks : ∃ blocks : List (List ε),
    history = blocks.flatten ++ current ∧ ∀ b ∈ blocks, Whole owner leavesOpen b
  opens : ∀ e ∈ current, leavesOpen e = true
  one : ∀ d ∈ current, ∀ e ∈ current, owner d = owner e

namespace InBlocks

variable {owner leavesOpen} {history current : List ε}

/-- Nothing has been done and no block is open. -/
theorem nil : InBlocks owner leavesOpen [] [] where
  blocks := ⟨[], rfl, by simp⟩
  opens := by simp
  one := by simp

/-- What the owner of the current block, or anyone when there is none, does next. -/
theorem extend (h : InBlocks owner leavesOpen history current) {e : ε}
    (hone : ∀ d ∈ current, owner d = owner e) :
    InBlocks owner leavesOpen (history ++ [e]) (if leavesOpen e then current ++ [e] else []) := by
  obtain ⟨⟨blocks, hsplit, hwhole⟩, hopens, hsame⟩ := h
  cases hopen : leavesOpen e with
  | true =>
    refine ⟨⟨blocks, by simp [hsplit], hwhole⟩, fun d hd => ?_, fun d hd d' hd' => ?_⟩
    · rcases List.mem_append.mp hd with hd | hd
      · exact hopens d hd
      · rw [List.mem_singleton.mp hd, hopen]
    · have howner : ∀ d ∈ current ++ [e], owner d = owner e := by
        intro d hd
        rcases List.mem_append.mp hd with hd | hd
        · exact hone d hd
        · rw [List.mem_singleton.mp hd]
      rw [howner d hd, howner d' hd']
  | false =>
    refine ⟨⟨blocks ++ [current ++ [e]], by simp [hsplit], fun b hb => ?_⟩, by simp, by simp⟩
    rcases List.mem_append.mp hb with hb | hb
    · exact hwhole b hb
    · rw [List.mem_singleton.mp hb]
      exact ⟨current, e, rfl, fun d hd => ⟨hopens d hd, hone d hd⟩, hopen⟩

end InBlocks

end

end Library
