import DatabaseEngine.Model.Pool

/-!
# `DatabaseEngine.Model.Readers`: the pool under several readers

`poolPin`, `poolUnpin`, `poolAllocate` and `poolFree` hold the pool's mutex from end to end, so the
calls of several readers come one after another. `Sharing` is the pool with an account of its
use: which reader has which page pinned, once for each pin, and which page belongs to whom.

`Model.Pool` lets every write and read of an open file through. Here the operating system may refuse
them (`DiskFaults`): the write of a frame at any turn of the CLOCK hand, and the read of the page
that is pinned. Without faults the functions are those of `Model.Pool`.
-/

set_option autoImplicit false

namespace DatabaseEngine

/-- How the write of a frame fails. -/
inductive WriteFault (α : Type)
  /-- In `fseek`: nothing is written. -/
  | seek
  /-- In `fwrite`, which leaves the file as given. -/
  | write (left : DbFile α)

/-- What fails during one call: the write at some turns of the hand, counted from the first, and
the read of the page. -/
structure DiskFaults (α : Type) where
  flush : Nat → Option (WriteFault α)
  read : Bool

/-- Nothing fails. -/
def DiskFaults.none {α : Type} : DiskFaults α := { flush := fun _ => .none, read := false }

section
variable {α : Type} [PageBody α]

/-- `flushFrame` with a write that may fail, and whether it did not. The page of the frame is
stamped before it is written. -/
def flushFrameUnder (fault : Option (WriteFault α)) (i : Nat) (p : Pool α) : Bool × Pool α :=
  match fault with
  | none =>
    match flushFrame i p with
    | none => (false, p)
    | some p => (true, p)
  | some .seek => (false, p)
  | some (.write left) =>
    match p.writable, p.pageFile with
    | true, some h =>
      (false, { p.setFile h left with
        frames := p.frames.modify i fun f => { f with page := poolStampPage f.page } })
    | _, _ => (false, p)

/-- `sweep` with writes that may fail, one answer for each turn of the hand. -/
def sweepUnder (faults : Nat → Option (WriteFault α)) : Nat → Pool α → Option Nat × Pool α
  | 0, p => (none, p)
  | fuel + 1, p =>
    let later := fun n => faults (n + 1)
    match p.turn.frames[p.hand]? with
    | none => (none, p.turn)
    | some f =>
      match f.pageId with
      | none => (some p.hand, p.turn)
      | some id =>
        if f.pins > 0 then sweepUnder later fuel p.turn
        -- Unlogged changes have nowhere safe to go yet.
        else if f.dirty && !(p.turn.writable && f.logged) then sweepUnder later fuel p.turn
        else if f.referenced then
          sweepUnder later fuel (p.turn.setFrame p.hand { f with referenced := false })
        else if f.dirty then
          match flushFrameUnder (faults 0) p.hand p.turn with
          -- It could not be written: leave it.
          | (false, q) => sweepUnder later fuel q
          | (true, q) => (some p.hand, q.setDirectory id none)
        else (some p.hand, p.turn.setDirectory id none)

/-- A frame to read into, where the disk may fail. -/
def acquireFrameUnder (faults : DiskFaults α) (p : Pool α) : Nat × Pool α :=
  match sweepUnder faults.flush (p.frames.length * 2) p with
  | (some i, p) => (i, p)
  | (none, p) => (p.frames.length, { growFrames p with hand := 0 })

/-- `poolPin` with reads and writes that may fail. -/
def poolPinUnder (faults : DiskFaults α) (pageId : Nat) (p : Pool α) : Option Nat × Pool α :=
  if pageId < p.pageCount then
    match findFrame pageId p with
    | some i =>
      (some i, { p with
        frames := p.frames.modify i fun f => { f with referenced := true, pins := f.pins + 1 } })
    | none =>
      let (i, p) := acquireFrameUnder faults p
      -- The frame is nobody's until the read below succeeds.
      let p := p.disown i
      if faults.read then (none, p)
      else
        match p.fetch pageId with
        | none => (none, if p.damaged pageId then { p with corrupt := p.corrupt + 1 } else p)
        | some page =>
          (some i, p.place i pageId
            { pageId := some pageId, pins := 1, dirty := false, logged := false,
              referenced := false, page := page })
  else (none, p)

/-- `poolAllocate` with writes that may fail. -/
def poolAllocateUnder (faults : DiskFaults α) (p : Pool α) : Nat × Pool α :=
  let (i, p) := acquireFrameUnder faults p
  (p.nextId, p.taken.place i p.nextId
    { pageId := some p.nextId, pins := 0, dirty := true, logged := false, referenced := true,
      page := Page.zero })

/-! ### Without a fault -/

/-- Without a fault the sweep is the one of the pool. -/
theorem sweepUnder_none (fuel : Nat) (p : Pool α) :
    sweepUnder (fun _ => none) fuel p = sweep fuel p := by
  induction fuel generalizing p with
  | zero => rfl
  | succ fuel ih =>
    unfold sweepUnder sweep flushFrameUnder
    simp only [ih]
    cases flushFrame p.hand p.turn with
    | none => rfl
    | some q => rfl

/-- Without a fault a frame is found as in the pool. -/
theorem acquireFrameUnder_none (p : Pool α) :
    acquireFrameUnder DiskFaults.none p = acquireFrame p := by
  have hsweep : sweepUnder DiskFaults.none.flush (p.frames.length * 2) p =
      sweep (p.frames.length * 2) p := sweepUnder_none _ p
  unfold acquireFrameUnder
  exact hsweep ▸ rfl

/-- Without a fault a page is pinned as in the pool. -/
theorem poolPinUnder_none (pageId : Nat) (p : Pool α) :
    poolPinUnder DiskFaults.none pageId p = poolPin pageId p := by
  unfold poolPinUnder
  exact acquireFrameUnder_none p ▸ rfl

/-- Without a fault a page is allocated as in the pool. -/
theorem poolAllocateUnder_none (p : Pool α) :
    poolAllocateUnder DiskFaults.none p = poolAllocate p := by
  unfold poolAllocateUnder
  exact acquireFrameUnder_none p ▸ rfl

end

/-! ### Several readers -/

/-- The pool, the pins outstanding as pairs of a reader and a page, and the pages that belong to a
reader. -/
structure Sharing (α : Type) where
  pool : Pool α
  held : List (Nat × Nat)
  own : List (Nat × Nat)

/-- A call, with what the operating system refuses while it runs. -/
inductive PoolCall (α : Type)
  | pin (pageId : Nat) (faults : DiskFaults α)
  | unpin (pageId : Nat) (dirty : Bool)
  | allocate (faults : DiskFaults α)
  | free (pageId : Nat)

variable {α : Type} [PageBody α]

/-- A call of a reader. -/
def Sharing.step (s : Sharing α) : Nat × PoolCall α → Sharing α
  | (reader, .pin pageId faults) =>
    match poolPinUnder faults pageId s.pool with
    | (none, pool) => { s with pool := pool }
    | (some _, pool) => { s with pool := pool, held := (reader, pageId) :: s.held }
  | (reader, .unpin pageId dirty) =>
    { s with pool := poolUnpin pageId dirty s.pool, held := s.held.erase (reader, pageId) }
  | (reader, .allocate faults) =>
    let (pageId, pool) := poolAllocateUnder faults s.pool
    { s with pool := pool, own := (reader, pageId) :: s.own }
  | (reader, .free pageId) =>
    { s with pool := poolFree pageId s.pool, own := s.own.erase (reader, pageId) }

/-- A reader unpins only what it pinned, and frees only pages of its own that nobody has pinned. -/
def Sharing.Permits (s : Sharing α) : Nat × PoolCall α → Prop
  | (_, .pin _ _) => True
  | (reader, .unpin pageId _) => (reader, pageId) ∈ s.held
  | (_, .allocate _) => True
  | (reader, .free pageId) => (reader, pageId) ∈ s.own ∧ ∀ pin ∈ s.held, pin.2 ≠ pageId

instance (s : Sharing α) : (call : Nat × PoolCall α) → Decidable (s.Permits call)
  | (_, .pin _ _) => isTrue trivial
  | (reader, .unpin pageId _) => inferInstanceAs (Decidable ((reader, pageId) ∈ s.held))
  | (_, .allocate _) => isTrue trivial
  | (reader, .free pageId) =>
    inferInstanceAs (Decidable ((reader, pageId) ∈ s.own ∧ ∀ pin ∈ s.held, pin.2 ≠ pageId))

end DatabaseEngine
