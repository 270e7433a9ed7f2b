import DatabaseEngine.Proofs.Pool.Plain

/-!
# `DatabaseEngine.Spec.Heap`: what a heap is for

A ledger has the positions that a heap has handed out and the rows at them. A heap keeps its
ledger when every row that is in it can be read at its position, its records lie apart from
everything else on their pages, and its counts are right.
-/

set_option autoImplicit false

namespace DatabaseEngine

open Library

/-- What a record says of a value: of a NULL no type, and of the others only what it is. -/
def Value.recorded (value : Value) : Value :=
  if value.isNull then setNull .TYPE_TEXT
  else if value.type.intLike then
    { type := value.type, isNull := false, intValue := value.intValue, floatValue := 0, text := [] }
  else if value.type = .TYPE_FLOAT then setFloat value.floatValue
  else setText value.text

/-- What became of the rows given to a heap: where each of them landed, the first one first, and
the rows that have not been deleted. -/
structure Ledger where
  handed : List Nat
  rows : Nat → Option Row

namespace Ledger

/-- Nothing handed out. -/
def blank : Ledger := { handed := [], rows := fun _ => none }

/-- A row is put in at a fresh position. -/
def enter (ledger : Ledger) (position : Nat) (row : Row) : Ledger where
  handed := ledger.handed ++ [position]
  rows := Function.update ledger.rows position (some row)

/-- The row at a position is deleted. -/
def strike (ledger : Ledger) (position : Nat) : Ledger :=
  { ledger with rows := Function.update ledger.rows position none }

/-- The rows of the `k`-th page of a heap, by their slots. -/
def onPage (ledger : Ledger) (k : Nat) : Nat → Option Row := fun slot =>
  ledger.rows (k * SLOTS_PER_PAGE + slot)

/-- How many rows have not been deleted. -/
def live (ledger : Ledger) : Nat := ledger.handed.countP fun position => (ledger.rows
    position).isSome

/-- A row that was entered, and the others. -/
@[simp] theorem enter_rows (ledger : Ledger) (position other : Nat) (row : Row) :
    (ledger.enter position row).rows other
      = if other = position then some row else ledger.rows other := Function.update_apply ..

/-- At the start there is no row. -/
@[simp] theorem blank_rows (position : Nat) : blank.rows position = none := rfl

end Ledger

/-- The records of a page lie between its slot directory and the trailer, and apart from one
another. -/
structure LaidOut (page : Bytes) (slots : Nat) (rows : Nat → Option Row) : Prop where
  counted : slotCount page = slots
  few : slotAt slots ≤ PAGE_USABLE
  between : ∀ i < slots, ∀ row, rows i = some row →
    slotAt slots ≤ slotOffset page i ∧ slotOffset page i + recordSize row ≤ PAGE_USABLE
  apart : ∀ i < slots, ∀ j < slots, i ≠ j → ∀ row other, rows i = some row → rows j = some other →
    slotOffset page i + recordSize row ≤ slotOffset page j ∨
      slotOffset page j + recordSize other ≤ slotOffset page i

/-- A heap has what its ledger says. A row is read back as records know it: what a NULL's type was
is up to the caller's schema. -/
structure HeapKeeps (pool : Pool Bytes) (heap : Heap) (ledger : Ledger) : Prop where
  laidOut : ∀ k id slots, heap.pages[k]? = some (id, slots) →
    ∃ page, pool.look id = some page ∧ LaidOut page slots (ledger.onPage k)
  reads : ∀ position, (onPool (heapRead heap position) pool).1
    = (ledger.rows position).map (List.map Value.recorded)
  handedOnce : ledger.handed.Nodup
  live : heap.nlive = ledger.live
  slots : heap.nslots = ledger.handed.length
  pageSlots : ∀ k id slots, heap.pages[k]? = some (id, slots) →
    slots = ledger.handed.countP fun position => position / SLOTS_PER_PAGE == k

/-- A heap at work, on the pool it shares with the rest of the engine. -/
structure HeapRun where
  pool : Pool Bytes
  heap : Heap
  ledger : Ledger

/-- What a heap comes to from nothing, through rows that go in and rows that are deleted, while
the rest of the engine is at work on pages of its own. -/
inductive HeapRun.Reached : HeapRun → Prop
  | start {pool : Pool Bytes} {store : Store Bytes} (table : Name) (serves : pool.Serves store) :
      Reached ⟨pool, clearHeap table, .blank⟩
  | insert {run : HeapRun} {row : Row} {position : Nat} {heap : Heap} {pool : Pool Bytes}
      (before : run.Reached) (columns : row.length ≤ MAX_COLS)
      (inserted : onPool (heapInsert row run.heap) run.pool = ((.ok position, heap), pool)) :
      Reached ⟨pool, heap, run.ledger.enter position row⟩
  | delete {run : HeapRun} {answer : Except ErrorCode Unit} {heap : Heap} {pool : Pool Bytes}
      (position : Nat) (before : run.Reached)
      (deleted : onPool (heapMarkDeleted position run.heap) run.pool = ((answer, heap), pool)) :
      Reached ⟨pool, heap, run.ledger.strike position⟩
  | elsewhere {run : HeapRun} {pool : Pool Bytes} {store : Store Bytes} (before : run.Reached)
      (serves : pool.Serves store)
      (spared : ∀ entry ∈ run.heap.pages, store.body entry.1 = run.pool.look entry.1) :
      Reached ⟨pool, run.heap, run.ledger⟩

end DatabaseEngine
