import Mathlib.Data.List.Forall2
import DatabaseEngine.Model.Scan
import DatabaseEngine.Proofs.Pool.Refinement

/-!
# `DatabaseEngine.Spec.Scan`: what it is that the ways over a heap agree on

A heap has slots: the pairs of a page's place in the heap and a slot of the page that is in use. A
position is a number for one of them (`Names`). `ScansAgree` says of a list of positions that it is
what `heapFirst` and `heapNext` give, that they name the heap's slots in order, and that scans and
fetches answer by it what `heapRead` answers.

A scan is used call by call (`ScanRun`), and between two of its calls the rest of the engine may
do with the pool what it likes, as long as the pages of the heap stay what they are and the page
that the scan holds stays in its frame.
-/

set_option autoImplicit false

namespace DatabaseEngine

open Library HeapScan

/-! ### Slots and positions -/

/-- The slots in use of the pages from the `n`-th on. -/
def slotsFrom : Nat → List (Nat × Nat) → List (Nat × Nat)
  | _, [] => []
  | n, (_, slots) :: rest => (List.range slots).map (n, ·) ++ slotsFrom (n + 1) rest

/-- Every slot ever allocated, tombstones included. -/
def Heap.allSlots (heap : Heap) : List (Nat × Nat) := slotsFrom 0 heap.pages

/-- The position is the slot's. -/
def Names (position : Int) (slot : Nat × Nat) : Prop :=
  positionPage position = slot.1 ∧ positionSlot position = slot.2

/-- The positions of the loop `for (r = heapFirst(h); r >= 0; r = heapNext(h, r))` from one on. -/
inductive Heap.Walk (heap : Heap) : Int → List Int → Prop
  | ended {position : Int} (below : position < 0) : Walk heap position []
  | step {position : Int} {rest : List Int} (above : 0 ≤ position)
      (onward : Walk heap (heapNext heap position) rest) : Walk heap position (position :: rest)

/-- The number of pages whose slots have a position of their own. -/
def MAX_HEAP_PAGES : Nat := 2 ^ 21

/-- Each slot can be told by its position: no page has more of them than fit into the bits for a
slot, and no page that has any is too far back for the bits that are left. -/
def Heap.Addressable (heap : Heap) : Prop :=
  ∀ k id slots, heap.pages[k]? = some (id, slots) →
    slots ≤ SLOTS_PER_PAGE ∧ (0 < slots → k < MAX_HEAP_PAGES)

/-! ### A scan at work -/

/-- The pool has the heap's pages, with the given contents and nothing owed to them. -/
def Heap.Shown (heap : Heap) (page : Nat → Bytes) (p : Pool Bytes) : Prop :=
  ∃ m : PageMap Bytes, p.Refines m ∧
    ∀ entry ∈ heap.pages, m.body entry.1 = some (page entry.1) ∧ m.owed entry.1 = false

/-- The page that a scan holds is in the frame it was pinned in. -/
def HeapScan.InPlace (scan : HeapScan) (p : Pool Bytes) : Prop :=
  ∀ id frame, scan.pageId = some id → scan.pinned = some frame → p.pageFrame id = some frame

/-- A call of a scan, with what was answered to `heapScanNext`. -/
inductive ScanCall
  | next (answer : Option (Int × Record))
  | fetch (position : Int)
  | finish

/-- A scan after some calls in any order, and the pool it is on. -/
inductive ScanRun (heap : Heap) (page : Nat → Bytes) (pool : Pool Bytes) :
    List ScanCall → HeapScan → Pool Bytes → Prop
  | start : ScanRun heap page pool [] heapScanStart pool
  | next {calls : List ScanCall} {scan : HeapScan} {p : Pool Bytes}
      (before : ScanRun heap page pool calls scan p) :
      ScanRun heap page pool (calls ++ [.next (heapScanNext heap scan p).1])
        (heapScanNext heap scan p).2.1 (heapScanNext heap scan p).2.2
  | fetch {calls : List ScanCall} {scan : HeapScan} {p : Pool Bytes} (position : Int)
      (before : ScanRun heap page pool calls scan p) :
      ScanRun heap page pool (calls ++ [.fetch position])
        (HeapScan.heapScanAt heap position scan p).2.1 (HeapScan.heapScanAt heap position scan p).2.2
  | finish {calls : List ScanCall} {scan : HeapScan} {p : Pool Bytes}
      (before : ScanRun heap page pool calls scan p) :
      ScanRun heap page pool (calls ++ [.finish]) (heapScanEnd scan p).1 (heapScanEnd scan p).2
  | elsewhere {calls : List ScanCall} {scan : HeapScan} {p q : Pool Bytes}
      (before : ScanRun heap page pool calls scan p) (shown : heap.Shown page q)
      (kept : scan.InPlace q) : ScanRun heap page pool calls scan q

/-- The row of a record. -/
def Record.row (record : Record) : Row := readRecord record.1 record.2

/-- What `heapScanNext` answered, with the records decoded. -/
def ScanCall.answer : ScanCall → Option (Option (Int × Row))
  | .next found => some (found.map fun a => (a.1, a.2.row))
  | _ => none

/-- The scan is over: it was ended, or it has come to the end of the heap. -/
def ScanCall.Last : ScanCall → Prop
  | .next found => found = none
  | .fetch _ => False
  | .finish => True

/-- Each page pinned has been unpinned once, save the one that is held. -/
def PinsMatch (asked : List PinCall) (held : Option Nat) : Prop :=
  ∃ done : List Nat, asked.reverse =
    done.flatMap (fun id => [PinCall.pin id, PinCall.unpin id]) ++ (held.map PinCall.pin).toList

/-- The live rows among some positions, as `heapRead` has them. -/
def Heap.liveRows (heap : Heap) (pool : Pool Bytes) (positions : List Int) : List (Int × Row) :=
  positions.filterMap fun position =>
    ((onPool (heapReadInt heap position) pool).1).map (position, ·)

/-- The ways over a heap agree. -/
structure ScansAgree (heap : Heap) (page : Nat → Bytes) (pool : Pool Bytes)
    (positions : List Int) : Prop where
  walk : heap.Walk (heapFirst heap) positions
  all : List.Forall₂ Names positions heap.allSlots
  ascending : positions.Pairwise (· < ·)
  /-- The `i`-th call of `heapScanNext` answers the `i`-th live row, and none after the last. -/
  nexts : ∀ calls scan p, ScanRun heap page pool calls scan p →
    (∀ position, .fetch position ∉ calls) →
    calls.filterMap ScanCall.answer =
      (List.range (calls.filterMap ScanCall.answer).length).map
        fun i => (heap.liveRows pool positions)[i]?
  fetches : ∀ calls scan p, ScanRun heap page pool calls scan p → ∀ position,
    (HeapScan.heapScanAt heap position scan p).1.map Record.row
      = (onPool (heapReadInt heap position) pool).1
  pins : ∀ calls scan p, ScanRun heap page pool calls scan p → PinsMatch scan.asked scan.pageId
  released : ∀ calls scan p, ScanRun heap page pool calls scan p →
    ∀ call ∈ calls.getLast?, call.Last → scan.pageId = none

end DatabaseEngine
