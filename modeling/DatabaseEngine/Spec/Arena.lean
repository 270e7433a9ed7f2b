import DatabaseEngine.Library.Run
import DatabaseEngine.Model.Arena

/-!
# `DatabaseEngine.Spec.Arena`: which texts of an arena are alive

`ArenaUse` is an arena with an account of its use: the texts that are alive and the marks that
may still be unwound to, the oldest first. A copy adds a text, with the number of marks taken
before it; a mark is added on top; unwinding to a mark releases the texts that were copied after
it, and gives up the marks above it.

`ArenaUse.Meets` is what the account asks of a call. A mark that is unwound to must not have been
given up, which is the order of a stack. What `malloc` answers is a block clear of the blocks
that the arena has.
-/

set_option autoImplicit false

namespace DatabaseEngine

open Library

/-- Two chunks whose blocks share no byte. -/
def ArenaChunk.Apart (c d : ArenaChunk) : Prop :=
  c.data + c.size ≤ d.block ∨ d.data + d.size ≤ c.block

instance (c d : ArenaChunk) : Decidable (c.Apart d) := inferInstanceAs (Decidable (_ ∨ _))

/-- A text in the arena: where it lies, what it says, and how many marks are older. -/
structure ArenaText where
  start : Nat
  bytes : List UInt8
  depth : Nat
  deriving DecidableEq

/-- What lies in memory for a text: its bytes and the terminator. -/
def ArenaText.stored (t : ArenaText) : List UInt8 := t.bytes ++ [0]

/-- The address is one of the text's. -/
def ArenaText.Covers (t : ArenaText) (address : Nat) : Prop :=
  t.start ≤ address ∧ address < t.start + t.stored.length

/-- Two texts that share no byte. -/
def ArenaText.Apart (s t : ArenaText) : Prop := ∀ address, ¬(s.Covers address ∧ t.Covers address)

/-- An arena with an account of its use. -/
structure ArenaUse where
  arena : TextArena
  alive : List ArenaText
  marks : List ArenaMark

/-- What is asked of the arena. -/
inductive ArenaCall
  /-- `arenaCopy`, with what `malloc` answers if it is asked. -/
  | copy (text : List UInt8) (block : Option Nat)
  | mark
  /-- `textReset` to a mark, by its place among the marks. -/
  | reset (i : Nat)
  deriving DecidableEq

namespace ArenaUse

/-- An arena that nothing was copied into. -/
def start (memory : Nat → UInt8) : ArenaUse :=
  { arena := { memory := memory, chunks := [] }, alive := [], marks := [] }

/-- One call. -/
def step (u : ArenaUse) : ArenaCall → ArenaUse
  | .copy text block =>
    match arenaCopy block text u.arena with
    | (none, arena) => { u with arena := arena }
    | (some start, arena) =>
      { u with
        arena := arena
        alive := { start := start, bytes := text, depth := u.marks.length } :: u.alive }
  | .mark => { u with marks := u.marks ++ [textMark u.arena] }
  | .reset i =>
    match (u.marks[i]?).bind fun mark => textReset mark u.arena with
    | none => u
    | some arena =>
      { arena := arena
        alive := u.alive.filter fun t => t.depth ≤ i
        marks := u.marks.take (i + 1) }

/-- What a call may ask for, and what `malloc` may answer. -/
def Meets (u : ArenaUse) : ArenaCall → Prop
  | .copy text block =>
    ∀ address ∈ block, ∀ c ∈ u.arena.chunks, (freshChunk address (text.length + 1)).Apart c
  | .mark => True
  | .reset i => i < u.marks.length

/-- A copy that finds room needs no new chunk. -/
theorem meets_none (u : ArenaUse) (text : List UInt8) : u.Meets (.copy text none) :=
  fun _ h => nomatch h

/-- A copy that needs a new chunk gets one apart from all others. -/
theorem meets_some (u : ArenaUse) (text : List UInt8) (address : Nat) :
    (∀ c ∈ u.arena.chunks, (freshChunk address (text.length + 1)).Apart c) ↔
      u.Meets (.copy text (some address)) := by
  simp [Meets]

instance (u : ArenaUse) : (call : ArenaCall) → Decidable (u.Meets call)
  | .copy text none => isTrue (u.meets_none text)
  | .copy text (some address) => decidable_of_iff _ (u.meets_some text address)
  | .mark => isTrue trivial
  | .reset i => Nat.decLt i u.marks.length

end ArenaUse

end DatabaseEngine
