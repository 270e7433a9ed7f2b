import DatabaseEngine.Library.Bytes

/-!
# `DatabaseEngine.Model.Arena`: the text arena

The bump allocator of `07_storage.c` that texts are copied into. Its chunks come from `malloc`
and are never moved, so a text is known by its address. `memory` holds the bytes of every
address, and the list of the chunks stands for their `next` pointers, the newest chunk first.

What `malloc` answers is given with each copy: the address of a block, or none when it has no
memory left. The three fields before a chunk's bytes take up room in its block; their values are
kept in the list, not in `memory`.
-/

set_option autoImplicit false

namespace DatabaseEngine

open Library

/-- The least size of a chunk. -/
def ARENA_CHUNK : Nat := 65536

/-- What the fields before a chunk's bytes take up. -/
def CHUNK_HEADER : Nat := 24

/-- A chunk, the block it is in and how far it is filled. -/
structure ArenaChunk where
  /-- The address of the block. -/
  block : Nat
  used : Nat
  size : Nat
  deriving DecidableEq

/-- The address of a chunk's bytes. -/
def ArenaChunk.data (c : ArenaChunk) : Nat := c.block + CHUNK_HEADER

/-- The chunks of an arena and the memory they lie in. -/
structure TextArena where
  memory : Nat → UInt8
  chunks : List ArenaChunk

/-- A position to unwind an arena back to. The chunk is none for `NULL`. -/
structure ArenaMark where
  chunk : Option Nat
  used : Nat
  deriving DecidableEq

/-- The chunk that `arenaCopy` makes in a block. -/
def freshChunk (block need : Nat) : ArenaChunk :=
  { block := block, used := 0, size := if need > ARENA_CHUNK then need else ARENA_CHUNK }

/-- The chunk that a copy goes into, and the chunks behind it: the head if it has room, and a
fresh one otherwise. -/
def roomFor (block : Option Nat) (need : Nat) :
    List ArenaChunk → Option (ArenaChunk × List ArenaChunk)
  | [] => block.map fun block => (freshChunk block need, [])
  | head :: rest =>
    if head.size - head.used < need then
      block.map fun block => (freshChunk block need, head :: rest)
    else some (head, rest)

/-- Copies a text into the arena, with a terminator, and answers its address. -/
def arenaCopy (block : Option Nat) (text : List UInt8) (arena : TextArena) :
    Option Nat × TextArena :=
  let need := text.length + 1
  match roomFor block need arena.chunks with
  | none => (none, arena)
  | some (head, rest) =>
    let start := head.data + head.used
    (some start,
      { memory := putBytesAt arena.memory start (text ++ [0])
        chunks := { head with used := head.used + need } :: rest })

/-- `textMark`: the head chunk and how far it is filled. -/
def textMark (arena : TextArena) : ArenaMark :=
  match arena.chunks with
  | [] => { chunk := none, used := 0 }
  | head :: _ => { chunk := some head.block, used := head.used }

/-- Frees chunks until the marked one is the head. There is no answer when the chunks end before
that: the source then reads through a null pointer. -/
def popTo (chunk : Option Nat) : List ArenaChunk → Option (List ArenaChunk)
  | [] => if chunk = none then some [] else none
  | head :: rest => if chunk = some head.block then some (head :: rest) else popTo chunk rest

/-- The head is filled up to the mark again. -/
def refill (used : Nat) : List ArenaChunk → List ArenaChunk
  | [] => []
  | head :: rest => { head with used := used } :: rest

/-- Unwinds the chunks to a mark. -/
def unwind (mark : ArenaMark) (chunks : List ArenaChunk) : Option (List ArenaChunk) :=
  (popTo mark.chunk chunks).map (refill mark.used)

/-- `textReset`: back to a mark. -/
def textReset (mark : ArenaMark) (arena : TextArena) : Option TextArena :=
  (unwind mark arena.chunks).map fun chunks => { arena with chunks := chunks }

end DatabaseEngine
