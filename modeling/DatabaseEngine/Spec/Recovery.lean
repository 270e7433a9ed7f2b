import DatabaseEngine.Model.Recovery

/-!
# `DatabaseEngine.Spec.Recovery`: what a recovery is for

A log commits to the frames up to the last commit marker of its unbroken prefix, and the recovered
file has the last image of each of their pages.
-/

set_option autoImplicit false

namespace DatabaseEngine

open Library

/-- The `k`-th frame of a log, if it is there whole and checks. -/
def frameAt (log : List UInt8) (k : Nat) : Option WalFrame :=
  let bytes := log.drop (WAL_HEADER + k * FRAME_SIZE)
  if bytes.length < FRAME_SIZE then none else readFrame (bytes.take FRAME_SIZE)

/-- The frames of a log up to the first that is torn. -/
structure Unbroken (log : List UInt8) (frames : List WalFrame) : Prop where
  whole : ∀ k < frames.length, frameAt log k = frames[k]?
  torn : frameAt log frames.length = none

/-- A file that `walRecover` takes for a log. -/
def UsableLog (log : List UInt8) : Prop :=
  WAL_HEADER ≤ log.length ∧ log.take WAL_MAGIC_LEN = WAL_MAGIC ∧
    getU32At log 12 = UInt32.ofNat PAGE_SIZE

/-- `frames` are those that a log commits to. -/
structure CommitsTo (log : List UInt8) (frames : List WalFrame) : Prop where
  unusable : ¬UsableLog log → frames = []
  /-- What is behind them in the unbroken prefix has no commit marker. -/
  front : UsableLog log → ∃ behind, Unbroken log (frames ++ behind) ∧
    ∀ frame ∈ behind, frame.commit = 0
  closed : ∀ last, frames.getLast? = some last → last.commit ≠ 0

/-- A byte of the pages, behind the frames: the last image of its page, or what was there. -/
def replayedByte (frames : List WalFrame) (file : List UInt8) (i : Nat) : UInt8 :=
  match frames.reverse.find? fun frame => frame.pageId.toNat + 1 == i / PAGE_SIZE with
  | some frame => frame.image.getD (i % PAGE_SIZE) 0
  | none => file.getD i 0

end DatabaseEngine
