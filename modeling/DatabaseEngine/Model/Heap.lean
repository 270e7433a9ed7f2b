import DatabaseEngine.Model.Value
import DatabaseEngine.Library.Action

/-!
# `DatabaseEngine.Model.Heap`: records, slotted pages and table heaps

The heaps of `07_storage.c`. A row is written as a record at the end of a slotted page, and a
heap is the list of its pages with the number of slots of each. A position is a page of the
heap and a slot of the page.

Functions that touch pages are page programs. Every access pins its page for itself, so a
page that the source keeps pinned over a loop is read once here and its bytes are kept.
`heapPositions` is what a walk by `heapFirst` and `heapNext` meets, and `heapScan` is the
loop over `heapScanNext`.
-/

set_option autoImplicit false

namespace DatabaseEngine

open Library

/-- A step of the engine on a part of its state. -/
abbrev Step (σ α : Type) := Action Bytes ErrorCode σ α

/-- `poolPin`, a look at the page, `poolUnpin`. -/
def readPage (id : Nat) : PageM Bytes (Option Bytes) := .read id .pure

/-- `poolPin`, a change of the page, `poolUnpin(id, ONE)`. -/
def writePage (id : Nat) (page : Bytes) : PageM Bytes Unit := .write id page (.pure ())

/-- A cleared page, as an allocation hands it out. -/
def zeroPage : Bytes := fun _ => 0

/-- A page of the file. -/
def allocatePage : PageM Bytes Nat := .alloc .pure

/-- Gives a page back. -/
def freePage (id : Nat) : PageM Bytes Unit := .free id (.pure ())

/-- The number of pages of the file. -/
def poolPageCount : PageM Bytes Nat := .count .pure

/-- How many slots a page may count. -/
def SLOTS_PER_PAGE : Nat := 1024
/-- The bytes before the first slot. -/
def PAGE_HEADER : Nat := 8
/-- The bytes of a slot. -/
def SLOT_WIDTH : Nat := 8

/-! ### Records -/

/-- Two bytes, least significant first. -/
def le16 (n : Nat) : List UInt8 := [UInt8.ofNat n, UInt8.ofNat (n / 256)]

/-- The bytes of a double, least significant first. -/
def le64 (bits : UInt64) : List UInt8 :=
  (List.range 8).map fun i => UInt8.ofNat (bits.toNat / 256 ^ i)

/-- A double is eight bytes. -/
theorem le64_length (bits : UInt64) : (le64 bits).length = 8 := rfl

/-- Two bytes of a page as a number. -/
def u16At (page : Bytes) (n : Nat) : Nat := (page n).toNat + 256 * (page (n + 1)).toNat

/-- Eight bytes of a page as the bits of a double. -/
def u64At (page : Bytes) (n : Nat) : UInt64 :=
  UInt64.ofNat ((List.range 8).foldr (fun i high => (page (n + i)).toNat + 256 * high) 0)

/-- A type read back from its number; an unknown one is taken as text, as the branches of
the source do. -/
def ColType.ofCode (code : Nat) : ColType :=
  if code = 0 then .TYPE_INT else if code = 2 then .TYPE_FLOAT
  else if code = 3 then .TYPE_DATE else .TYPE_TEXT

/-- One field of a record. -/
def fieldBytes (value : Value) : List UInt8 :=
  if value.isNull then [1]
  else
    0 :: UInt8.ofNat value.type.code ::
      (if value.type.intLike then le32 value.intValue.toUInt32
      else if value.type = .TYPE_FLOAT then le64 value.floatValue
      else le16 value.text.length ++ value.text)

/-- What `writeRecord` stores. -/
def recordBytes (row : Row) : List UInt8 := le16 row.length ++ row.flatMap fieldBytes

/-- What one field takes up. -/
def fieldSize (value : Value) : Nat :=
  if value.isNull then 1
  else if value.type.intLike then 6
  else if value.type = .TYPE_FLOAT then 10
  else 4 + value.text.length

/-- Measures the record a row would need. -/
def recordSize (row : Row) : Nat := 2 + (row.map fieldSize).sum

/-- The field at an offset, and where the next one begins. The type of a NULL is refined by
the caller's schema. -/
def readField (page : Bytes) (n : Nat) : Value × Nat :=
  if page n ≠ 0 then (setNull .TYPE_TEXT, n + 1)
  else
    let type := ColType.ofCode (page (n + 1)).toNat
    if type.intLike then
      ({ type := type, isNull := false, intValue := (u32At page (n + 2)).toInt32,
         floatValue := 0, text := [] }, n + 6)
    else if type = .TYPE_FLOAT then (setFloat (u64At page (n + 2)), n + 10)
    else (setText (bytesAt page (n + 4) (u16At page (n + 2))), n + 4 + u16At page (n + 2))

/-- So many fields, one behind the other. -/
def readFields (page : Bytes) : Nat → Nat → List Value
  | _, 0 => []
  | n, count + 1 => (readField page n).1 :: readFields page (readField page n).2 count

/-- The row of a record. -/
def readRecord (page : Bytes) (offset : Nat) : Row :=
  readFields page (offset + 2) (min (u16At page offset) MAX_COLS)

/-- Decodes the columns up to `upto` into a row that may hold another record's values
beyond them. -/
def decodeRecord (page : Bytes) (offset : Nat) (out : Row) (upto : Int) : Row :=
  let count := min (upto + 1).toNat (min (u16At page offset) MAX_COLS)
  readFields page (offset + 2) count ++ out.drop count

/-- The field at an offset, written over the value that an earlier record left: a number that the
type has no use for stays what it was. -/
def decodeField (page : Bytes) (n : Nat) (old : Value) : Value × Nat :=
  if page n ≠ 0 then ({ old with isNull := true, type := .TYPE_TEXT, text := [] }, n + 1)
  else
    let type := ColType.ofCode (page (n + 1)).toNat
    if type.intLike then
      ({ old with
         isNull := false, type := type, intValue := (u32At page (n + 2)).toInt32, text := [] }, n + 6)
    else if type = .TYPE_FLOAT then
      ({ old with
         isNull := false, type := type, floatValue := u64At page (n + 2), text := [] }, n + 10)
    else
      ({ old with
         isNull := false, type := type, text := bytesAt page (n + 4) (u16At page (n + 2)) },
        n + 4 + u16At page (n + 2))

/-- The fields up to a column, over those of another row. -/
def decodeFields (page : Bytes) : Nat → Nat → Row → Row
  | _, _, [] => []
  | _, 0, row => row
  | n, count + 1, old :: row =>
    (decodeField page n old).1 :: decodeFields page (decodeField page n old).2 count row

/-- `decodeRecord` value by value, into a row that holds what is left of earlier records. -/
def decodeOver (page : Bytes) (offset : Nat) (out : Row) (upto : Int) : Row :=
  decodeFields page (offset + 2) (min (upto + 1).toNat (min (u16At page offset) MAX_COLS)) out

/-! ### Slotted pages -/

/-- How many slots a page counts. -/
def slotCount (page : Bytes) : Nat := (u32At page 0).toNat

/-- Where its records start. -/
def dataStart (page : Bytes) : Nat := (u32At page 4).toNat

/-- Where a slot lies. -/
def slotAt (slot : Nat) : Nat := PAGE_HEADER + slot * SLOT_WIDTH

/-- The offset a slot holds; zero is a tombstone. -/
def slotOffset (page : Bytes) (slot : Nat) : Nat := (u32At page (slotAt slot)).toNat

/-- A page without records. -/
def initPage : Bytes := putU32At (fun _ => 0) 4 (UInt32.ofNat PAGE_USABLE)

/-- Whether a page takes one more record of a size. -/
def hasRoom (page : Bytes) (size : Nat) : Bool :=
  !(slotCount page == SLOTS_PER_PAGE
    || decide (dataStart page < PAGE_HEADER + (slotCount page + 1) * SLOT_WIDTH + size))

/-- The page with one more record below the others and a slot for it. -/
def placeRecord (page : Bytes) (row : Row) : Bytes :=
  let slot := slotCount page
  let start := dataStart page - recordSize row
  let page := putBytesAt page start (recordBytes row)
  let page := putU32At page (slotAt slot) (UInt32.ofNat start)
  let page := putU32At page (slotAt slot + 4) (UInt32.ofNat (recordSize row))
  let page := putU32At page 0 (UInt32.ofNat (slot + 1))
  putU32At page 4 (UInt32.ofNat start)

/-! ### Heaps -/

/-- A heap: its pages in order, each with the slots it has used. -/
structure Heap where
  table : Name
  pages : List (Nat × Nat)
  nlive : Int
  nslots : Int

/-- A heap with no pages. -/
def clearHeap (table : Name) : Heap := { table := table, pages := [], nlive := 0, nslots := 0 }

/-- Frees pages one after another. -/
def freePages : List Nat → PageM Bytes Unit
  | [] => pure ()
  | id :: rest => do
    freePage id
    freePages rest

/-- Releases a heap's pages back to the pool. -/
def heapReset : Step Heap Unit := do
  let heap ← Action.get
  Action.lift (freePages (heap.pages.map Prod.fst))
  Action.set (clearHeap heap.table)

/-- Takes over a page a save recorded. -/
def heapAdoptPage (heap : Heap) (pageId slotsUsed : Nat) : Heap :=
  { heap with pages := heap.pages ++ [(pageId, slotsUsed)], nslots := heap.nslots + slotsUsed }

/-- Gives the heap one more page, and answers its id and its bytes. -/
def appendPage : Step Heap (Nat × Bytes) := do
  let id ← Action.lift allocatePage
  Action.lift (writePage id initPage)
  Action.modify fun heap => { heap with pages := heap.pages ++ [(id, 0)] }
  return (id, initPage)

/-- The page the next record goes to: the last one, if it can be had and has room. -/
def insertionPage (size : Nat) : Step Heap (Nat × Bytes) := do
  let heap ← Action.get
  match heap.pages.getLast? with
  | none => appendPage
  | some (id, _) =>
    match ← Action.lift (readPage id) with
    | none => appendPage
    | some page => if hasRoom page size then return (id, page) else appendPage

/-- The heap after a record has gone into the last page. -/
def Heap.entered (heap : Heap) (slot : Nat) : Heap :=
  { heap with
    pages := heap.pages.modify (heap.pages.length - 1) fun p => (p.1, slot + 1)
    nlive := heap.nlive + 1
    nslots := heap.nslots + 1 }

/-- Appends a row and answers where it landed. -/
def heapInsert (row : Row) : Step Heap Nat := do
  if PAGE_SIZE - PAGE_HEADER - SLOT_WIDTH < recordSize row then
    Action.throw .EXEC_ROW_TOO_LARGE
  else
    let (id, page) ← insertionPage (recordSize row)
    Action.lift (writePage id (placeRecord page row))
    let heap ← Action.get
    Action.set (heap.entered (slotCount page))
    -- `|` in the source: a slot is below SLOTS_PER_PAGE
    return (heap.pages.length - 1) * SLOTS_PER_PAGE + slotCount page

/-- The page a position lives on, with its id and the record's offset. -/
def pinFor (heap : Heap) (position : Nat) : PageM Bytes (Option (Nat × Bytes × Nat)) :=
  match heap.pages[position / SLOTS_PER_PAGE]? with
  | none => pure none
  | some (id, slots) =>
    if slots ≤ position % SLOTS_PER_PAGE then pure none
    else do
      match ← readPage id with
      | none => return none
      | some page =>
        let offset := slotOffset page (position % SLOTS_PER_PAGE)
        return if offset = 0 then none else some (id, page, offset)

/-- The row at a position, none when there is no live row there. -/
def heapRead (heap : Heap) (position : Nat) : PageM Bytes (Option Row) := do
  match ← pinFor heap position with
  | none => return none
  | some (_, page, offset) => return some (readRecord page offset)

/-- Clears a slot's offset, keeping the slot itself. -/
def heapMarkDeleted (position : Nat) : Step Heap Unit := do
  let heap ← Action.get
  match ← Action.lift (pinFor heap position) with
  | none => return ()
  | some (id, page, _) =>
    Action.lift (writePage id (putU32At page (slotAt (position % SLOTS_PER_PAGE)) 0))
    Action.set { heap with nlive := heap.nlive - 1 }

/-- The positions of the pages from the `n`-th on. -/
def positionsFrom : Nat → List (Nat × Nat) → List Nat
  | _, [] => []
  | n, (_, slots) :: rest =>
    (List.range slots).map (n * SLOTS_PER_PAGE + ·) ++ positionsFrom (n + 1) rest

/-- Every position ever handed out, in order. -/
def heapPositions (heap : Heap) : List Nat := positionsFrom 0 heap.pages

section
variable {γ : Type}

/-- The live slots of one page, from a slot on, until a visit says to stop. -/
def scanSlots (visit : γ → Nat → Bytes → Nat → γ × Bool) (page : Bytes) (base : Nat) :
    Nat → Nat → γ → γ × Bool
  | 0, _, acc => (acc, true)
  | n + 1, slot, acc =>
    if slotOffset page slot = 0 then scanSlots visit page base n (slot + 1) acc
    else
      match visit acc (base + slot) page (slotOffset page slot) with
      | (acc, false) => (acc, false)
      | (acc, true) => scanSlots visit page base n (slot + 1) acc

/-- The live records of the pages from the `n`-th on. A page that cannot be had ends the
scan. -/
def scanPages (visit : γ → Nat → Bytes → Nat → γ × Bool) :
    Nat → List (Nat × Nat) → γ → PageM Bytes γ
  | _, [], acc => pure acc
  | n, (id, slots) :: rest, acc =>
    if slots = 0 then scanPages visit (n + 1) rest acc
    else do
      match ← readPage id with
      | none => return acc
      | some page =>
        match scanSlots visit page (n * SLOTS_PER_PAGE) slots 0 acc with
        | (acc, false) => return acc
        | (acc, true) => scanPages visit (n + 1) rest acc

/-- Every live record in turn, with its position, until a visit says to stop. -/
def heapScan (heap : Heap) (visit : γ → Nat → Bytes → Nat → γ × Bool) (acc : γ) :
    PageM Bytes γ :=
  scanPages visit 0 heap.pages acc

end

/-- The live rows at the positions, copied into another heap. -/
def copyRows (heap : Heap) : List Nat → Step Heap Unit
  | [] => return ()
  | position :: rest => do
    match ← Action.lift (heapRead heap position) with
    | none => copyRows heap rest
    | some row =>
      let _ ← heapInsert row
      copyRows heap rest

/-- Rewrites the heap onto fresh pages with the tombstones dropped. -/
def heapCompact : Step Heap Unit := do
  let heap ← Action.get
  Action.set (clearHeap heap.table)
  match ← Action.attempt (copyRows heap (heapPositions heap)) with
  | .error code =>
    heapReset
    Action.set heap
    Action.throw code
  | .ok () =>
    Action.lift (freePages (heap.pages.map Prod.fst))

end DatabaseEngine
