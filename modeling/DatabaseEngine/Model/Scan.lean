import DatabaseEngine.Model.Session

/-!
# `DatabaseEngine.Model.Scan`: the four ways over a heap

`heapScanNext`, `heapScanAt`, `heapFirst` with `heapNext`, and `heapRead` of `07_storage.c`, on the
pool. A scan keeps the page it is on pinned from one call to the next; `pinned` is the frame that
its `Page*` points at, and a record is given as the page's bytes and where in them it begins. The
heap that `scan->heap` points at is an argument of each call.

Positions are the source's `int`, so a page number that is too high for one wraps around.
`asked` records what a scan has asked of the pool, most recent first. Nothing reads it.
-/

set_option autoImplicit false

namespace DatabaseEngine

open Library

/-- The bits of a slot in a position. -/
def SLOT_BITS : Nat := 10

/-- `(page << SLOT_BITS) | slot`, an `int`. -/
def joinPosition (page slot : Nat) : Int :=
  Int.bmod ((page <<< SLOT_BITS ||| slot : Nat) : Int) (2 ^ 32)

/-- `position >> SLOT_BITS`, which keeps the sign. -/
def positionPage (position : Int) : Int := position >>> SLOT_BITS

/-- `position & SLOT_MASK` of a number in two's complement. -/
def positionSlot (position : Int) : Nat := (position % SLOTS_PER_PAGE).toNat

/-- `heap->pageIds[page]` for a page of the heap. -/
def Heap.pageIds (heap : Heap) (page : Nat) : Nat := ((heap.pages[page]?).map Prod.fst).getD 0

/-- `heap->pageSlots[page]` for a page of the heap. -/
def Heap.pageSlots (heap : Heap) (page : Nat) : Nat := ((heap.pages[page]?).map Prod.snd).getD 0

/-! ### Scans -/

/-- What a scan asks of the pool. -/
inductive PinCall
  | pin (id : Nat)
  | unpin (id : Nat)

/-- A walk over a heap that keeps the page it is on pinned. -/
structure HeapScan where
  /-- Index into the heap's page list. -/
  page : Nat
  slot : Nat
  /-- The pinned page, none when none is. -/
  pageId : Option Nat
  pinned : Option Nat
  asked : List PinCall

/-- A record in the page it lies in. -/
abbrev Record : Type := Bytes × Nat

/-- `scan->pinned->data`. -/
def HeapScan.data (scan : HeapScan) (p : Pool Bytes) : Option Bytes :=
  scan.pinned.bind fun frame => (p.pageIn frame).map Page.body

namespace HeapScan

/-- Gives back the page that a scan holds. -/
def releaseScanPage (scan : HeapScan) (p : Pool Bytes) : HeapScan × Pool Bytes :=
  match scan.pinned, scan.pageId with
  | none, _ => (scan, p)
  -- `poolUnpin(-1)` finds no frame
  | some _, none => ({ scan with pinned := none }, p)
  | some _, some id =>
    ({ scan with pinned := none, pageId := none, asked := .unpin id :: scan.asked },
      poolUnpin id false p)

/-- Pins a page for the scan; one that cannot be read leaves it without a page. -/
def pinScanPage (id : Nat) (scan : HeapScan) (p : Pool Bytes) : HeapScan × Pool Bytes :=
  match poolPin id p with
  | (none, p) => ({ scan with pinned := none, pageId := none }, p)
  | (some frame, p) =>
    ({ scan with pinned := some frame, pageId := some id, asked := .pin id :: scan.asked }, p)

/-- A scan before its first row. -/
def heapScanStart : HeapScan := { page := 0, slot := 0, pageId := none, pinned := none, asked := [] }

section
variable (scan : HeapScan) (p : Pool Bytes)

/-- To release its page leaves a scan where it is. -/
@[simp] theorem releaseScanPage_page : (releaseScanPage scan p).1.page = scan.page := by
  unfold releaseScanPage
  split <;> rfl

/-- To release its page leaves a scan at its slot. -/
@[simp] theorem releaseScanPage_slot : (releaseScanPage scan p).1.slot = scan.slot := by
  unfold releaseScanPage
  split <;> rfl

/-- To pin a page leaves a scan where it is. -/
@[simp] theorem pinScanPage_page (id : Nat) : (pinScanPage id scan p).1.page = scan.page := by
  unfold pinScanPage
  split <;> rfl

end

/-- The next live row with its position, none at the end. Tombstones are stepped over here. -/
def heapScanNext (heap : Heap) (scan : HeapScan) (p : Pool Bytes) :
    Option (Int × Record) × HeapScan × Pool Bytes :=
  if heap.pages.length ≤ scan.page then (none, releaseScanPage scan p)
  else if heap.pageSlots scan.page ≤ scan.slot then
    let (left, p) := releaseScanPage scan p
    heapScanNext heap { left with page := scan.page + 1, slot := 0 } p
  else
    let (held, p) :=
      if scan.pinned = none then pinScanPage (heap.pageIds scan.page) scan p else (scan, p)
    match held.data p with
    -- unreadable: stop here
    | none => (none, held, p)
    | some data =>
      if slotOffset data scan.slot = 0 then
        heapScanNext heap { held with page := scan.page, slot := scan.slot + 1 } p
      else
        (some (joinPosition scan.page scan.slot, data, slotOffset data scan.slot),
          { held with page := scan.page, slot := scan.slot + 1 }, p)
termination_by (heap.pages.length - scan.page, heap.pageSlots scan.page - scan.slot)

/-- Lets go of whatever the scan was holding. -/
def heapScanEnd (scan : HeapScan) (p : Pool Bytes) : HeapScan × Pool Bytes := releaseScanPage scan p

/-- The scan with the page at an index pinned, which may be the one it has from the last call. -/
def turnTo (heap : Heap) (page : Nat) (scan : HeapScan) (p : Pool Bytes) : HeapScan × Pool Bytes :=
  if scan.pinned = none ∨ scan.page ≠ page then
    let (left, p) := releaseScanPage scan p
    pinScanPage (heap.pageIds page) { left with page := page } p
  else (scan, p)

/-- One record by position. The page from the last call stays pinned. -/
def heapScanAt (heap : Heap) (position : Int) (scan : HeapScan) (p : Pool Bytes) :
    Option Record × HeapScan × Pool Bytes :=
  let page := positionPage position
  let slot := positionSlot position
  if page < 0 ∨ (heap.pages.length : Int) ≤ page then (none, scan, p)
  else if heap.pageSlots page.toNat ≤ slot then (none, scan, p)
  else
    let (held, p) := turnTo heap page.toNat scan p
    match held.data p with
    | none => (none, held, p)
    | some data =>
      let offset := slotOffset data slot
      if offset = 0 then (none, held, p) else (some (data, offset), held, p)

end HeapScan

/-! ### Positions without the pages -/

/-- The first page from the `n`-th on with a slot in use, as the position of its first slot. -/
def firstPosition : Nat → List (Nat × Nat) → Int
  | _, [] => -1
  | n, (_, slots) :: rest => if 0 < slots then joinPosition n 0 else firstPosition (n + 1) rest

/-- The first position of a heap, or -1. -/
def heapFirst (heap : Heap) : Int := firstPosition 0 heap.pages

/-- The position behind another, or -1. -/
def heapNext (heap : Heap) (position : Int) : Int :=
  let page := positionPage position
  let slot := positionSlot position + 1
  if page < 0 ∨ (heap.pages.length : Int) ≤ page then -1
  else if slot < heap.pageSlots page.toNat then joinPosition page.toNat slot
  else firstPosition (page.toNat + 1) (heap.pages.drop (page.toNat + 1))

/-- `heapRead` at an `int`: what is below zero lies on no page. -/
def heapReadInt (heap : Heap) (position : Int) : PageM Bytes (Option Row) :=
  if position < 0 then pure none else heapRead heap position.toNat

end DatabaseEngine
