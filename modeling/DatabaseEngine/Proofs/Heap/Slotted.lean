import DatabaseEngine.Proofs.Heap.Records
import DatabaseEngine.Spec.Heap

/-!
# `DatabaseEngine.Proofs.Heap.Slotted`: a page keeps the records placed on it

`Slotted` is the invariant of a page on which every record fits with its slot: the records lie
below one another from the trailer down to `dataStart`, and the directory ends above.

* `Slotted.place`: a record that there is room for is added.
* `Slotted.clear`: a deleted record is gone, the others stay.
* `Overfull`: the page of a record that leaves no room for its own slot.
-/

set_option autoImplicit false

namespace DatabaseEngine

open Library

/-- The largest record for which a fresh page has room, its slot included. -/
def FITTING : Nat := PAGE_USABLE - PAGE_HEADER - SLOT_WIDTH

/-- A page with the records of `rows` in its first `n` slots. -/
structure Slotted (page : Bytes) (n : Nat) (rows : Nat → Option Row) : Prop where
  count : slotCount page = n
  few : n ≤ SLOTS_PER_PAGE
  room : slotAt n ≤ dataStart page
  bottom : dataStart page ≤ PAGE_USABLE
  dead : ∀ i < n, rows i = none → slotOffset page i = 0
  inside : ∀ i < n, ∀ row, rows i = some row →
    dataStart page ≤ slotOffset page i ∧ slotOffset page i + recordSize row ≤ PAGE_USABLE
  held : ∀ i < n, ∀ row, rows i = some row →
    HoldsAt page (slotOffset page i) (recordBytes row) ∧ row.length ≤ MAX_COLS
  apart : ∀ i < n, ∀ j < n, i ≠ j → ∀ row other, rows i = some row → rows j = some other →
    slotOffset page i + recordSize row ≤ slotOffset page j ∨
      slotOffset page j + recordSize other ≤ slotOffset page i

/-! ### The fields of a page with one more record -/

section
variable {page : Bytes} {row : Row}

/-- A slot entry takes eight bytes. -/
theorem slotAt_succ (slot : Nat) : slotAt (slot + 1) = slotAt slot + 8 := by
  unfold slotAt SLOT_WIDTH
  omega

/-- The slots stand behind the page's header. -/
theorem slotAt_ge (slot : Nat) : 8 ≤ slotAt slot := Nat.le_add_right ..

/-- Where the record of a row will begin. -/
def newStart (page : Bytes) (row : Row) : Nat := dataStart page - recordSize row

/-- A field of the directory or the header, other than those that `placeRecord` writes. -/
theorem placeRecord_outside {i : Nat} (hrecord : i < newStart page row ∨ dataStart page ≤ i)
    (hfits : recordSize row ≤ dataStart page) (hheader : 8 ≤ i)
    (hslot : i < slotAt (slotCount page) ∨ slotAt (slotCount page) + 8 ≤ i) :
    placeRecord page row i = page i := by
  have hlen := recordBytes_length row
  unfold newStart at hrecord
  unfold placeRecord
  simp only [putU32At]
  rw [putBytesAt_outside (by simp; omega), putBytesAt_outside (by simp; omega),
    putBytesAt_outside (by simp; omega), putBytesAt_outside (by simp; omega),
    putBytesAt_outside (by omega)]

/-- Placing a record counts one slot more. -/
theorem placeRecord_slotCount (hfew : slotCount page < SLOTS_PER_PAGE) :
    slotCount (placeRecord page row) = slotCount page + 1 := by
  have hfew' : slotCount page < 1024 := hfew
  unfold slotCount at hfew' ⊢
  unfold placeRecord
  rw [u32At_putU32At_disjoint (by omega), u32At_putU32At, UInt32.toNat_ofNat']
  unfold slotCount
  omega

/-- Placing a record moves the data's start down to the record. -/
theorem placeRecord_dataStart : dataStart (placeRecord page row) = newStart page row := by
  have hlt := (u32At page 4).toNat_lt
  unfold newStart dataStart placeRecord
  rw [u32At_putU32At, UInt32.toNat_ofNat']
  unfold dataStart
  omega

/-- The new slot points to the record. -/
theorem placeRecord_newSlot :
    slotOffset (placeRecord page row) (slotCount page) = newStart page row := by
  have hlt := (u32At page 4).toNat_lt
  have hslot := slotAt_ge (slotCount page)
  unfold slotOffset newStart placeRecord
  rw [u32At_putU32At_disjoint (by omega), u32At_putU32At_disjoint (by omega),
    u32At_putU32At_disjoint (by omega), u32At_putU32At, UInt32.toNat_ofNat']
  unfold dataStart
  omega

/-- The slots before it stay, if the record leaves them room. -/
theorem placeRecord_oldSlot {i : Nat} (hi : i < slotCount page)
    (hroom : slotAt (slotCount page) ≤ newStart page row) :
    slotOffset (placeRecord page row) i = slotOffset page i := by
  have hslot := slotAt_ge i
  have hbelow : slotAt i + 8 ≤ slotAt (slotCount page) := by
    unfold slotAt SLOT_WIDTH
    omega
  unfold slotOffset placeRecord
  rw [u32At_putU32At_disjoint (by omega), u32At_putU32At_disjoint (by omega),
    u32At_putU32At_disjoint (by omega), u32At_putU32At_disjoint (by omega),
    u32At_putBytesAt_disjoint (by unfold newStart at hroom; omega)]

/-- The record lies where its slot says, unless it runs into the directory. -/
theorem placeRecord_holds (hroom : slotAt (slotCount page + 1) ≤ newStart page row) :
    HoldsAt (placeRecord page row) (newStart page row) (recordBytes row) := by
  have hslot := slotAt_ge (slotCount page)
  rw [slotAt_succ] at hroom
  have hwritten : HoldsAt (putBytesAt page (newStart page row) (recordBytes row))
      (newStart page row) (recordBytes row) := holdsAt_putBytesAt
  refine hwritten.congr fun i hlow _ => ?_
  unfold placeRecord
  simp only [putU32At]
  rw [putBytesAt_outside (by simp; omega), putBytesAt_outside (by simp; omega),
    putBytesAt_outside (by simp; omega), putBytesAt_outside (by simp; omega)]
  rfl

end

/-! ### One more record -/

section
variable {page : Bytes} {n : Nat} {rows : Nat → Option Row}

/-- A page has room if a slot is free and the record ends before the data. -/
theorem hasRoom_iff {size : Nat} :
    hasRoom page size = true ↔
      slotCount page ≠ SLOTS_PER_PAGE ∧ slotAt (slotCount page + 1) + size ≤ dataStart page := by
  unfold hasRoom slotAt
  simp only [Bool.not_eq_true', Bool.or_eq_false_iff, beq_eq_false_iff_ne, decide_eq_false_iff_not,
    Nat.not_lt, ne_eq]

/-- Only the rows of slots in use count. -/
theorem Slotted.congr {rows' : Nat → Option Row} (h : Slotted page n rows)
    (hrows : ∀ i < n, rows' i = rows i) : Slotted page n rows' :=
  ⟨h.count, h.few, h.room, h.bottom, fun i hi hrow => h.dead i hi (hrows i hi ▸ hrow),
    fun i hi row hrow => h.inside i hi row (hrows i hi ▸ hrow),
    fun i hi row hrow => h.held i hi row (hrows i hi ▸ hrow),
    fun i hi j hj hne row other hrow hother =>
      h.apart i hi j hj hne row other (hrows i hi ▸ hrow) (hrows j hj ▸ hother)⟩

/-- A page made ready holds no row. -/
theorem initPage_slotted (rows : Nat → Option Row) : Slotted initPage 0 rows := by
  have hstart : dataStart initPage = PAGE_USABLE := by
    unfold dataStart initPage
    rw [u32At_putU32At]
    decide
  have hcount : slotCount initPage = 0 := by
    unfold slotCount initPage
    rw [u32At_putU32At_disjoint (by decide)]
    rfl
  have hnone : ∀ {P : Nat → Prop}, ∀ i < 0, P i := fun i hi => absurd hi (Nat.not_lt_zero i)
  exact ⟨hcount, by decide, by rw [hstart]; decide, by rw [hstart], hnone, hnone, hnone, hnone⟩

/-- A record that there is room for is added below the others. -/
theorem Slotted.place {row : Row} (h : Slotted page n rows)
    (hroom : hasRoom page (recordSize row) = true) (hcols : row.length ≤ MAX_COLS) :
    Slotted (placeRecord page row) (n + 1) (Function.update rows n (some row)) := by
  obtain ⟨hfull, hfits⟩ := hasRoom_iff.mp hroom
  rw [h.count] at hfull hfits
  have hfew : slotCount page < SLOTS_PER_PAGE := by
    rw [h.count]
    exact Nat.lt_of_le_of_ne h.few hfull
  have hstart : newStart page row + recordSize row = dataStart page :=
    Nat.sub_add_cancel (by omega)
  have hroom' : slotAt (n + 1) ≤ newStart page row := by omega
  have hnewSlot : slotOffset (placeRecord page row) n = newStart page row :=
    h.count ▸ placeRecord_newSlot
  have holdSlot : ∀ i < n, slotOffset (placeRecord page row) i = slotOffset page i := fun i hi =>
    placeRecord_oldSlot (h.count.symm ▸ hi) (by rw [h.count]; rw [slotAt_succ] at hroom'; omega)
  have hold : ∀ i < n, Function.update rows n (some row) i = rows i := fun i hi =>
    Function.update_of_ne (Nat.ne_of_lt hi) ..
  have hnew : Function.update rows n (some row) n = some row := Function.update_self ..
  have hbottom := h.bottom
  have hcases : ∀ i, i < n + 1 → i < n ∨ i = n := fun i hi => Nat.lt_succ_iff_lt_or_eq.mp hi
  refine ⟨?_, Nat.succ_le_of_lt (h.count ▸ hfew), ?_, ?_, ?_, ?_, ?_, ?_⟩
  · rw [placeRecord_slotCount hfew, h.count]
  · rw [placeRecord_dataStart]
    exact hroom'
  · rw [placeRecord_dataStart]
    omega
  · intro i hi hrow
    rcases hcases i hi with hi | rfl
    · rw [holdSlot i hi]
      exact h.dead i hi (hold i hi ▸ hrow)
    · rw [hnew] at hrow
      exact absurd hrow (by simp)
  · intro i hi other hrow
    rw [placeRecord_dataStart]
    rcases hcases i hi with hi | rfl
    · have hinside := h.inside i hi other (hold i hi ▸ hrow)
      rw [holdSlot i hi]
      omega
    · obtain rfl := Option.some.inj (hnew.symm.trans hrow)
      rw [hnewSlot]
      omega
  · intro i hi other hrow
    rcases hcases i hi with hi | rfl
    · have hinside := h.inside i hi other (hold i hi ▸ hrow)
      obtain ⟨hheld, hlength⟩ := h.held i hi other (hold i hi ▸ hrow)
      rw [holdSlot i hi]
      -- an older record lies above the new one
      refine ⟨hheld.congr fun k hlow _ => placeRecord_outside ?_ ?_ ?_ ?_, hlength⟩
      · omega
      · omega
      · have := slotAt_ge (n + 1)
        omega
      · rw [h.count]
        rw [slotAt_succ] at hfits
        omega
    · obtain rfl := Option.some.inj (hnew.symm.trans hrow)
      rw [hnewSlot]
      exact ⟨placeRecord_holds (by rw [h.count]; exact hroom'), hcols⟩
  · intro i hi j hj hne first second hfirst hsecond
    rcases hcases i hi with hi | rfl
    · have hi' := h.inside i hi first (hold i hi ▸ hfirst)
      rcases hcases j hj with hj | rfl
      · rw [holdSlot i hi, holdSlot j hj]
        exact h.apart i hi j hj hne first second (hold i hi ▸ hfirst) (hold j hj ▸ hsecond)
      · obtain rfl := Option.some.inj (hnew.symm.trans hsecond)
        rw [holdSlot i hi, hnewSlot]
        omega
    · obtain rfl := Option.some.inj (hnew.symm.trans hfirst)
      rcases hcases j hj with hj | rfl
      · have hj' := h.inside j hj second (hold j hj ▸ hsecond)
        rw [holdSlot j hj, hnewSlot]
        omega
      · exact absurd rfl hne

/-- A fresh page has room for the first record, if that leaves room for its slot. -/
theorem initPage_hasRoom {size : Nat} (h : size ≤ FITTING) : hasRoom initPage size = true := by
  have hpage := initPage_slotted fun _ => none
  have hstart : dataStart initPage = PAGE_USABLE := by
    unfold dataStart initPage
    rw [u32At_putU32At]
    decide
  refine hasRoom_iff.mpr ⟨by rw [hpage.count]; decide, ?_⟩
  have hfitting : FITTING + slotAt (0 + 1) = PAGE_USABLE := by decide
  rw [hpage.count, hstart]
  omega

/-! ### Deleting a record -/

/-- Clearing a slot leaves the data's start. -/
theorem clear_dataStart (i : Nat) : dataStart (putU32At page (slotAt i) 0) = dataStart page := by
  have hslot := slotAt_ge i
  unfold dataStart
  rw [u32At_putU32At_disjoint (by omega)]

/-- Clearing a slot leaves the number of slots. -/
theorem clear_slotCount (i : Nat) : slotCount (putU32At page (slotAt i) 0) = slotCount page := by
  have hslot := slotAt_ge i
  unfold slotCount
  rw [u32At_putU32At_disjoint (by omega)]

/-- A cleared slot points nowhere. -/
theorem clear_slot (i : Nat) : slotOffset (putU32At page (slotAt i) 0) i = 0 := by
  unfold slotOffset
  rw [u32At_putU32At]
  rfl

/-- Clearing a slot leaves the others. -/
theorem clear_otherSlot {i j : Nat} (hne : j ≠ i) :
    slotOffset (putU32At page (slotAt i) 0) j = slotOffset page j := by
  unfold slotOffset
  rw [u32At_putU32At_disjoint (by unfold slotAt SLOT_WIDTH; omega)]

/-- The other records stay when one is deleted. -/
theorem Slotted.clear {i : Nat} (h : Slotted page n rows) (hi : i < n) :
    Slotted (putU32At page (slotAt i) 0) n (Function.update rows i none) := by
  have hother : ∀ {j : Nat} {row : Row}, Function.update rows i none j = some row →
      j ≠ i ∧ rows j = some row := by
    intro j row hrow
    by_cases hne : j = i
    · rw [hne, Function.update_self] at hrow
      exact absurd hrow (by simp)
    · rw [Function.update_of_ne hne] at hrow
      exact ⟨hne, hrow⟩
  have hbelow : slotAt i + 8 ≤ slotAt n := by
    unfold slotAt SLOT_WIDTH
    omega
  have hroom := h.room
  refine ⟨(clear_slotCount i).trans h.count, h.few, by rw [clear_dataStart]; exact h.room,
    by rw [clear_dataStart]; exact h.bottom, ?_, ?_, ?_, ?_⟩
  · intro j hj hrow
    by_cases hne : j = i
    · rw [hne]
      exact clear_slot i
    · rw [Function.update_of_ne hne] at hrow
      rw [clear_otherSlot hne]
      exact h.dead j hj hrow
  · intro j hj row hrow
    obtain ⟨hne, hrow⟩ := hother hrow
    rw [clear_dataStart, clear_otherSlot hne]
    exact h.inside j hj row hrow
  · intro j hj row hrow
    obtain ⟨hne, hrow⟩ := hother hrow
    have hinside := h.inside j hj row hrow
    rw [clear_otherSlot hne]
    exact ⟨(h.held j hj row hrow).1.beside (Or.inr (by simp; omega)), (h.held j hj row hrow).2⟩
  · intro j hj k hk hjk row other hrow hrow'
    obtain ⟨hne, hrow⟩ := hother hrow
    obtain ⟨hne', hrow'⟩ := hother hrow'
    rw [clear_otherSlot hne, clear_otherSlot hne']
    exact h.apart j hj k hk hjk row other hrow hrow'

end

/-! ### A record that leaves no room for its slot -/

/-- The page of a record that was accepted although it leaves no room for its slot: it has been
written over by the slot, and nothing more goes on the page. -/
structure Overfull (page : Bytes) (entry : Option Row) : Prop where
  count : slotCount page = 1
  full : dataStart page < slotAt 1
  dead : entry = none → slotOffset page 0 = 0
  live : ∀ row, entry = some row →
    FITTING < recordSize row ∧ slotOffset page 0 + recordSize row = PAGE_USABLE ∧
      0 < slotOffset page 0

/-- A record longer than fits, accepted on an empty page, overwrites its own slot. -/
theorem overfull_place {row : Row} (hlarge : FITTING < recordSize row)
    (haccepted : recordSize row ≤ PAGE_SIZE - PAGE_HEADER - SLOT_WIDTH) :
    Overfull (placeRecord initPage row) (some row) := by
  have hcount : slotCount initPage = 0 := (initPage_slotted fun _ => none).count
  have hstart : dataStart initPage = PAGE_USABLE := by
    unfold dataStart initPage
    rw [u32At_putU32At]
    decide
  have hnew : newStart initPage row + recordSize row = PAGE_USABLE ∧ 0 < newStart initPage row ∧
      newStart initPage row < slotAt 1 := by
    have hfitting : FITTING + slotAt 1 = PAGE_USABLE := by decide
    have hpage : PAGE_SIZE - PAGE_HEADER - SLOT_WIDTH < PAGE_USABLE := by decide
    unfold newStart
    rw [hstart]
    omega
  have hslot : slotOffset (placeRecord initPage row) 0 = newStart initPage row :=
    hcount ▸ placeRecord_newSlot
  refine ⟨?_, ?_, fun h => absurd h (by simp), fun other hother => ?_⟩
  · rw [placeRecord_slotCount (by rw [hcount]; decide), hcount]
  · rw [placeRecord_dataStart]
    exact hnew.2.2
  · obtain rfl := Option.some.inj hother
    rw [hslot]
    exact ⟨hlarge, hnew.1, hnew.2.1⟩

/-- Clearing the slot of such a page keeps it as it is. -/
theorem Overfull.clear {page : Bytes} {entry : Option Row} (h : Overfull page entry) :
    Overfull (putU32At page (slotAt 0) 0) none :=
  ⟨(clear_slotCount 0).trans h.count, by rw [clear_dataStart]; exact h.full,
    fun _ => clear_slot 0, fun _ hrow => absurd hrow (by simp)⟩

/-! ### Both kinds of pages -/

/-- What a page of a heap is like, with the rows of its first `n` slots. -/
inductive PageKeeps (page : Bytes) (n : Nat) (rows : Nat → Option Row) : Prop
  | slotted (h : Slotted page n rows)
  | overfull (hn : n = 1) (h : Overfull page (rows 0))

namespace PageKeeps

variable {page : Bytes} {n i : Nat} {rows : Nat → Option Row} {row : Row}

/-- Only the rows of slots in use count. -/
theorem congr {rows' : Nat → Option Row} (h : PageKeeps page n rows)
    (hrows : ∀ i < n, rows' i = rows i) : PageKeeps page n rows' := by
  cases h with
  | slotted h => exact .slotted (h.congr hrows)
  | overfull hn h => exact .overfull hn ((hrows 0 (by omega)).symm ▸ h)

/-- The page counts its slots, and they are no more than a page takes. -/
theorem counted (h : PageKeeps page n rows) : slotCount page = n ∧ n ≤ SLOTS_PER_PAGE := by
  cases h with
  | slotted h => exact ⟨h.count, h.few⟩
  | overfull hn h =>
    rw [hn]
    exact ⟨h.count, by decide⟩

/-- The slots end before the trailer. -/
theorem directory (h : PageKeeps page n rows) : slotAt n ≤ PAGE_USABLE := by
  cases h with
  | slotted h => exact Nat.le_trans h.room h.bottom
  | overfull hn h =>
    rw [hn]
    decide

/-- A slot is a tombstone where there is no row. -/
theorem offset_eq_zero (h : PageKeeps page n rows) (hi : i < n) :
    slotOffset page i = 0 ↔ rows i = none := by
  constructor
  · intro hzero
    cases hrow : rows i with
    | none => rfl
    | some row =>
      cases h with
      | slotted h =>
        have hinside := h.inside i hi row hrow
        have hroom := h.room
        have hslot := slotAt_ge n
        omega
      | overfull hn h =>
        obtain rfl : i = 0 := by omega
        have hlive := (h.live row hrow).2.2
        omega
  · intro hrow
    cases h with
    | slotted h => exact h.dead i hi hrow
    | overfull hn h =>
      obtain rfl : i = 0 := by omega
      exact h.dead hrow

/-- More goes only on a page on which everything fits. -/
theorem place (h : PageKeeps page n rows) (hroom : hasRoom page (recordSize row) = true)
    (hcols : row.length ≤ MAX_COLS) :
    PageKeeps (placeRecord page row) (n + 1) (Function.update rows n (some row)) := by
  cases h with
  | slotted h => exact .slotted (h.place hroom hcols)
  | overfull hn h =>
    have hfits := (hasRoom_iff.mp hroom).2
    have hfull := h.full
    rw [h.count, slotAt_succ] at hfits
    omega

/-- The first record of a fresh page. -/
theorem first (rows : Nat → Option Row) (hcols : row.length ≤ MAX_COLS)
    (haccepted : recordSize row ≤ PAGE_SIZE - PAGE_HEADER - SLOT_WIDTH) :
    PageKeeps (placeRecord initPage row) 1 (Function.update rows 0 (some row)) := by
  by_cases hfits : recordSize row ≤ FITTING
  · exact .slotted ((initPage_slotted rows).place (initPage_hasRoom hfits) hcols)
  · refine .overfull rfl ?_
    rw [Function.update_self]
    exact overfull_place (Nat.lt_of_not_le hfits) haccepted

/-- Clearing a slot takes its row out and leaves the others. -/
theorem clear (h : PageKeeps page n rows) (hi : i < n) :
    PageKeeps (putU32At page (slotAt i) 0) n (Function.update rows i none) := by
  cases h with
  | slotted h => exact .slotted (h.clear hi)
  | overfull hn h =>
    obtain rfl : i = 0 := by omega
    refine .overfull hn ?_
    rw [Function.update_self]
    exact h.clear

/-- The records lie apart if every one of them leaves room for its slot. -/
theorem laidOut (h : PageKeeps page n rows)
    (hfits : ∀ i < n, ∀ row, rows i = some row → recordSize row ≤ FITTING) :
    LaidOut page n rows := by
  have hdirectory := h.directory
  cases h with
  | slotted h =>
    refine ⟨h.count, hdirectory, fun i hi row hrow => ?_, h.apart⟩
    have hinside := h.inside i hi row hrow
    have hroom := h.room
    omega
  | overfull hn h =>
    -- no record is left on the page
    have hnone : ∀ i < n, ∀ row, rows i ≠ some row := by
      intro i hi row hrow
      obtain rfl : i = 0 := by omega
      have hlarge := (h.live row hrow).1
      have hsmall := hfits 0 hi row hrow
      omega
    refine ⟨hn ▸ h.count, hdirectory, fun i hi row hrow => absurd hrow (hnone i hi row),
      fun i hi _ _ _ row _ hrow => absurd hrow (hnone i hi row)⟩

/-- A record that leaves no room for its slot is not clear of the directory. -/
theorem overlaps (h : LaidOut page n rows) (hi : i < n) (hrow : rows i = some row) :
    recordSize row ≤ FITTING := by
  have hbetween := h.between i hi row hrow
  have hslot : slotAt 1 ≤ slotAt n := by
    unfold slotAt SLOT_WIDTH
    omega
  have hfitting : FITTING + slotAt 1 = PAGE_USABLE := by decide
  omega

/-- A row that fits is read back from its slot. -/
theorem reads (h : PageKeeps page n rows) (hi : i < n) (hrow : rows i = some row)
    (hfits : recordSize row ≤ FITTING) :
    readRecord page (slotOffset page i) = row.map Value.recorded := by
  cases h with
  | slotted h =>
    obtain ⟨hheld, hcols⟩ := h.held i hi row hrow
    have hpage : FITTING ≤ PAGE_SIZE := by decide
    exact readRecord_holds hheld hcols (Nat.le_trans hfits hpage)
  | overfull hn h =>
    obtain rfl : i = 0 := by omega
    have hlarge := (h.live row hrow).1
    omega

end PageKeeps

end DatabaseEngine
