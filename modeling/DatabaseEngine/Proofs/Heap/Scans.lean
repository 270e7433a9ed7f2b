import DatabaseEngine.Spec.Scan
import DatabaseEngine.Proofs.Pool.Client
import DatabaseEngine.Proofs.Heap.Keeping

/-!
# `DatabaseEngine.Proofs.Heap.Scans`: the ways over a heap agree

`Heap.onward` is the list of the slots from one on, which both `heapScanNext` and `heapNext` walk
down; `Scanning` is what every call keeps of a scan.

* `walk_onward`: `heapFirst` and `heapNext` give the positions of the slots.
* `Scanning.next`: `heapScanNext` answers the next live slot, or none.
* `Scanning.fetch`, `heapReadInt_eq`: `heapScanAt` and `heapRead` find the same record.
* `scans_agree_iff`: the four agree if and only if each slot can be told by its position.
-/

set_option autoImplicit false

namespace DatabaseEngine

open Library HeapScan

/-! ### Positions -/

section
variable {page slot : Nat} {position : Int}

/-- Within the bounds, the C expression of a position does not overflow. -/
theorem joinPosition_eq (hslot : slot < SLOTS_PER_PAGE) (hpage : page < MAX_HEAP_PAGES) :
    joinPosition page slot = page * SLOTS_PER_PAGE + slot := by
  unfold SLOTS_PER_PAGE at hslot ⊢
  unfold MAX_HEAP_PAGES at hpage
  have hor : page <<< SLOT_BITS ||| slot = page * 1024 + slot := by
    rw [← Nat.shiftLeft_add_eq_or_of_lt (by exact hslot), Nat.shiftLeft_eq]
    rfl
  unfold joinPosition
  rw [hor, Int.bmod_eq_of_le (by omega) (by omega), Int.natCast_add, Int.natCast_mul]

/-- The page of a position is its quotient. -/
theorem positionPage_eq : positionPage position = position / SLOTS_PER_PAGE := by
  unfold positionPage
  rw [Int.shiftRight_eq_div_pow]
  rfl

/-- The position put together of a page and a slot names that slot. -/
theorem joinPosition_names (hslot : slot < SLOTS_PER_PAGE) (hpage : page < MAX_HEAP_PAGES) :
    Names (joinPosition page slot) (page, slot) := by
  unfold Names positionSlot
  rw [positionPage_eq, joinPosition_eq hslot hpage]
  unfold SLOTS_PER_PAGE at hslot ⊢
  constructor <;> omega

/-- An `int` is too short for the positions of pages further back. -/
theorem joinPosition_lt : joinPosition page slot < 2 ^ 31 := by
  unfold joinPosition
  have := Int.bmod_lt (x := ((page <<< SLOT_BITS ||| slot : Nat) : Int)) (m := 2 ^ 32) (by decide)
  omega

/-- The first position of a page list is an `int`. -/
theorem firstPosition_lt (n : Nat) (pages : List (Nat × Nat)) : firstPosition n pages < 2 ^ 31 := by
  induction pages generalizing n with
  | nil =>
    show (-1 : Int) < 2 ^ 31
    decide
  | cons entry pages ih =>
    unfold firstPosition
    split
    · exact joinPosition_lt
    · exact ih (n + 1)

/-- What follows a position is an `int`. -/
theorem heapNext_lt (heap : Heap) (position : Int) : heapNext heap position < 2 ^ 31 := by
  unfold heapNext
  dsimp only
  split
  · decide
  · split
    · exact joinPosition_lt
    · exact firstPosition_lt ..

/-- Every position of a walk is an `int`. -/
theorem Heap.Walk.lt {heap : Heap} {positions : List Int} (h : heap.Walk position positions)
    (hlt : position < 2 ^ 31) : ∀ other ∈ positions, other < 2 ^ 31 := by
  induction h with
  | ended below => exact fun _ hin => absurd hin (by simp)
  | @step position rest above onward ih =>
    intro other hin
    rcases List.mem_cons.mp hin with rfl | hin
    · exact hlt
    · exact ih (heapNext_lt heap position) other hin

end

/-! ### The slots from one on -/

/-- A slot is listed exactly if its page is there and holds it. -/
theorem mem_slotsFrom {n k slot : Nat} {pages : List (Nat × Nat)} :
    (k, slot) ∈ slotsFrom n pages ↔
      ∃ i id slots, k = n + i ∧ pages[i]? = some (id, slots) ∧ slot < slots := by
  induction pages generalizing n with
  | nil => simp [slotsFrom]
  | cons entry pages ih =>
    obtain ⟨id, slots⟩ := entry
    rw [slotsFrom, List.mem_append, ih]
    constructor
    · rintro (h | ⟨i, id', slots', rfl, hi, hslot⟩)
      · obtain ⟨_, hslot, heq⟩ := List.mem_map.mp h
        obtain ⟨rfl, rfl⟩ := Prod.mk.inj heq
        exact ⟨0, id, slots, rfl, rfl, List.mem_range.mp hslot⟩
      · exact ⟨i + 1, id', slots', by omega, hi, hslot⟩
    · rintro ⟨i, id', slots', rfl, hi, hslot⟩
      cases i with
      | zero =>
        obtain ⟨rfl, rfl⟩ := Prod.mk.inj (Option.some.inj hi)
        exact .inl (List.mem_map.mpr ⟨slot, List.mem_range.mpr hslot, rfl⟩)
      | succ i => exact .inr ⟨i, id', slots', by omega, hi, hslot⟩

section
variable {heap : Heap} {k slot : Nat}

/-- The slots of the heap from one on. -/
def Heap.onward (heap : Heap) (k slot : Nat) : List (Nat × Nat) :=
  (List.range' slot (heap.pageSlots k - slot)).map (k, ·) ++
    slotsFrom (k + 1) (heap.pages.drop (k + 1))

/-- The entry of a page gives its id and its number of slots. -/
theorem Heap.pageSlots_of {id slots : Nat} (h : heap.pages[k]? = some (id, slots)) :
    heap.pageIds k = id ∧ heap.pageSlots k = slots := by
  unfold Heap.pageIds Heap.pageSlots
  rw [h]
  exact ⟨rfl, rfl⟩

/-- A page within the list has its id and its number of slots as entry. -/
theorem Heap.entry_of (h : k < heap.pages.length) :
    heap.pages[k]? = some (heap.pageIds k, heap.pageSlots k) := by
  unfold Heap.pageIds Heap.pageSlots
  rw [List.getElem?_eq_getElem h]
  rfl

/-- No slot is in use on a page that the heap does not have. -/
theorem Heap.inRange_of_slot (h : slot < heap.pageSlots k) : k < heap.pages.length := by
  by_contra hout
  unfold Heap.pageSlots at h
  rw [List.getElem?_eq_none (by omega)] at h
  exact absurd h (Nat.not_lt_zero slot)

/-- The slots behind a number of pages are those onward from the next page. -/
theorem slotsFrom_drop : slotsFrom k (heap.pages.drop k) = heap.onward k 0 := by
  unfold Heap.onward
  rcases Nat.lt_or_ge k heap.pages.length with h | h
  · rw [List.drop_eq_getElem_cons h]
    have hentry := heap.entry_of h
    rw [List.getElem?_eq_getElem h] at hentry
    rw [Option.some.inj hentry, slotsFrom, Nat.sub_zero, List.range_eq_range']
  · have hnone : heap.pageSlots k = 0 := by
      by_contra hsome
      exact absurd (Heap.inRange_of_slot (Nat.pos_of_ne_zero hsome)) (by omega)
    rw [hnone, List.drop_eq_nil_of_le h, List.drop_eq_nil_of_le (by omega)]
    rfl

/-- Onward from the first slot are all slots. -/
theorem Heap.onward_start : heap.onward 0 0 = heap.allSlots := slotsFrom_drop.symm

/-- Nothing is onward from behind the last page. -/
theorem Heap.onward_last (h : heap.pages.length ≤ k) : heap.onward k slot = [] := by
  have hnone : heap.pageSlots k = 0 := by
    by_contra hsome
    exact absurd (Heap.inRange_of_slot (Nat.pos_of_ne_zero hsome)) (by omega)
  unfold Heap.onward
  rw [hnone, Nat.zero_sub, List.drop_eq_nil_of_le (by omega)]
  rfl

/-- Behind the last slot of a page come those of the next. -/
theorem Heap.onward_turn (h : heap.pageSlots k ≤ slot) :
    heap.onward k slot = heap.onward (k + 1) 0 := by
  rw [← slotsFrom_drop]
  unfold Heap.onward
  rw [Nat.sub_eq_zero_of_le h]
  rfl

/-- Onward from a slot are the slot itself and what is onward from the next. -/
theorem Heap.onward_step (h : slot < heap.pageSlots k) :
    heap.onward k slot = (k, slot) :: heap.onward k (slot + 1) := by
  unfold Heap.onward
  rw [show heap.pageSlots k - slot = heap.pageSlots k - (slot + 1) + 1 by omega, List.range'_succ]
  rfl

/-- Where the slots from one on go on from. -/
theorem Heap.onward_cons {k' slot' : Nat} {rest : List (Nat × Nat)}
    (h : heap.onward k slot = (k', slot') :: rest) :
    slot' < heap.pageSlots k' ∧ rest = heap.onward k' (slot' + 1) := by
  -- on the pages that are left
  induction hleft : heap.pages.length - k generalizing k slot with
  | zero =>
    rw [heap.onward_last (by omega)] at h
    exact absurd h (by simp)
  | succ left ih =>
    rcases Nat.lt_or_ge slot (heap.pageSlots k) with hslot | hslot
    · rw [heap.onward_step hslot] at h
      obtain ⟨hhead, htail⟩ := List.cons.inj h
      obtain ⟨rfl, rfl⟩ := Prod.mk.inj hhead
      exact ⟨hslot, htail.symm⟩
    · rw [heap.onward_turn hslot] at h
      exact ih h (by omega)

end

/-! ### `heapFirst` and `heapNext` -/

/-- The position of the first of some slots. -/
def firstOf (slots : List (Nat × Nat)) : Int :=
  (slots.head?.map fun slot => joinPosition slot.1 slot.2).getD (-1)

/-- The first of some slots is the position of their head. -/
theorem firstOf_cons (k slot : Nat) (rest : List (Nat × Nat)) :
    firstOf ((k, slot) :: rest) = joinPosition k slot := by
  unfold firstOf
  rw [List.head?_cons, Option.map_some, Option.getD_some]

/-- The first position of some pages is that of their first slot. -/
theorem firstPosition_eq (n : Nat) (pages : List (Nat × Nat)) :
    firstPosition n pages = firstOf (slotsFrom n pages) := by
  induction pages generalizing n with
  | nil => rfl
  | cons entry pages ih =>
    obtain ⟨id, slots⟩ := entry
    unfold firstPosition slotsFrom
    cases slots with
    | zero => exact ih (n + 1)
    | succ slots =>
      rw [if_pos (Nat.succ_pos slots), List.range_succ_eq_map]
      exact (firstOf_cons ..).symm

namespace Heap.Addressable

variable {heap : Heap} {k slot : Nat}

/-- A slot of an addressable heap lies within both bounds of a position. -/
theorem of_slot (h : heap.Addressable) (hslot : slot < heap.pageSlots k) :
    slot < SLOTS_PER_PAGE ∧ k < MAX_HEAP_PAGES := by
  obtain ⟨hslots, hpage⟩ := h k _ _ (heap.entry_of (Heap.inRange_of_slot hslot))
  exact ⟨Nat.lt_of_lt_of_le hslot hslots, hpage (Nat.zero_lt_of_lt hslot)⟩

/-- From a slot in use `heapNext` goes on to the one behind it. -/
theorem heapNext_eq (h : heap.Addressable) (hslot : slot < heap.pageSlots k) :
    heapNext heap (joinPosition k slot) = firstOf (heap.onward k (slot + 1)) := by
  obtain ⟨hfits, hpage⟩ := h.of_slot hslot
  obtain ⟨hnamed, hnumber⟩ := joinPosition_names hfits hpage
  have hin := Heap.inRange_of_slot hslot
  unfold heapNext
  dsimp only at hnamed hnumber ⊢
  rw [hnamed, hnumber, if_neg (by omega), Int.toNat_natCast]
  rcases Nat.lt_or_ge (slot + 1) (heap.pageSlots k) with hmore | hlast
  · rw [if_pos hmore, heap.onward_step hmore, firstOf_cons]
  · rw [if_neg (by omega), firstPosition_eq, slotsFrom_drop, heap.onward_turn hlast]

/-- From any slot on the walk gives the positions of the slots that are left. -/
theorem walk_onward (h : heap.Addressable) {slots : List (Nat × Nat)}
    (hslots : heap.onward k slot = slots) :
    heap.Walk (firstOf slots) (slots.map fun slot => joinPosition slot.1 slot.2) := by
  induction slots generalizing k slot with
  | nil => exact .ended (by decide)
  | cons first rest ih =>
    obtain ⟨k', slot'⟩ := first
    obtain ⟨hslot, hrest⟩ := Heap.onward_cons hslots
    obtain ⟨hfits, hpage⟩ := h.of_slot hslot
    have habove : 0 ≤ joinPosition k' slot' := by
      rw [joinPosition_eq hfits hpage]
      exact Int.add_nonneg (Int.mul_nonneg (Int.natCast_nonneg _) (Int.natCast_nonneg _))
        (Int.natCast_nonneg _)
    have hnext : heapNext heap (joinPosition k' slot') = firstOf rest := by
      rw [h.heapNext_eq hslot, ← hrest]
    rw [firstOf_cons, List.map_cons]
    exact .step habove (hnext ▸ ih hrest.symm)

end Heap.Addressable

/-! ### The pages of a scan -/

namespace Heap.Shown

variable {heap : Heap} {page : Nat → Bytes} {p : Pool Bytes} {k : Nat}

/-- The entry of a page within the list is listed. -/
theorem entry_mem (hk : k < heap.pages.length) :
    (heap.pageIds k, heap.pageSlots k) ∈ heap.pages := List.mem_of_getElem? (heap.entry_of hk)

/-- Pinning a page of a heap that is shown succeeds, and the heap stays shown. -/
theorem pin (h : heap.Shown page p) (hk : k < heap.pages.length) :
    ∃ frame q, poolPin (heap.pageIds k) p = (some frame, q) ∧
      q.pageFrame (heap.pageIds k) = some frame ∧ heap.Shown page q := by
  obtain ⟨m, hrefines, hpages⟩ := h
  rcases hpin : poolPin (heap.pageIds k) p with ⟨answer, q⟩
  obtain ⟨hq, hresident, hbody⟩ := hrefines.pin hpin
  obtain ⟨frame, rfl, -⟩ := hbody _ (hpages _ (entry_mem hk)).1
  exact ⟨frame, q, rfl, hresident frame rfl, m, hq, hpages⟩

/-- Giving a clean page back leaves the heap shown. -/
theorem unpin (h : heap.Shown page p) (hk : k < heap.pages.length) :
    heap.Shown page (poolUnpin (heap.pageIds k) false p) := by
  obtain ⟨m, hrefines, hpages⟩ := h
  refine ⟨m, hrefines.unpinClean fun howed => ?_, hpages⟩
  rw [(hpages _ (entry_mem hk)).2] at howed
  exact absurd howed (by simp)

/-- The frame that a page is in has what the page has. -/
theorem data (h : heap.Shown page p) (hk : k < heap.pages.length) {frame : Nat}
    (hresident : p.pageFrame (heap.pageIds k) = some frame) :
    (p.pageIn frame).map Page.body = some (page (heap.pageIds k)) := by
  obtain ⟨m, hrefines, hpages⟩ := h
  obtain ⟨f, hf, hid⟩ := hrefines.frame_of_resident hresident
  have hbody := (hrefines.sound frame f hf _ hid).body _ (hpages _ (entry_mem hk)).1
  unfold Pool.pageIn
  rw [hf]
  exact congrArg some hbody

end Heap.Shown

/-- What every call keeps of a scan: it holds no page, or the one it is on, which is in the frame
that the scan has a pointer to; and all pages that it held before have been let go. -/
structure Scanning (heap : Heap) (page : Nat → Bytes) (scan : HeapScan) (p : Pool Bytes) : Prop where
  shown : heap.Shown page p
  held : (scan.pageId = none ∧ scan.pinned = none) ∨
    ∃ frame, scan.page < heap.pages.length ∧ scan.pageId = some (heap.pageIds scan.page) ∧
      scan.pinned = some frame ∧ p.pageFrame (heap.pageIds scan.page) = some frame
  pins : PinsMatch scan.asked scan.pageId

namespace Scanning

variable {heap : Heap} {page : Nat → Bytes} {scan : HeapScan} {p : Pool Bytes} {k slot : Nat}

/-- A scan that starts holds no page. -/
theorem start (h : heap.Shown page p) : Scanning heap page heapScanStart p :=
  ⟨h, .inl ⟨rfl, rfl⟩, [], rfl⟩

/-- A scan that holds nothing may go anywhere. -/
theorem move (h : Scanning heap page scan p) (hfree : scan.pageId = none) :
    Scanning heap page { scan with page := k, slot := slot } p := by
  refine ⟨h.shown, ?_, h.pins⟩
  rcases h.held with hnone | ⟨frame, -, hid, -⟩
  · exact .inl hnone
  · rw [hfree] at hid
    exact absurd hid (by simp)

/-- On its page a scan may go to any slot. -/
theorem step (h : Scanning heap page scan p) :
    Scanning heap page { scan with slot := slot } p := ⟨h.shown, h.held, h.pins⟩

/-- A scan that lets go of its page holds none, and the heap stays shown. -/
theorem release (h : Scanning heap page scan p) :
    Scanning heap page (releaseScanPage scan p).1 (releaseScanPage scan p).2 ∧
      (releaseScanPage scan p).1.pageId = none := by
  rcases h.held with ⟨hid, hpinned⟩ | ⟨frame, hin, hid, hpinned, -⟩
  · have hsame : releaseScanPage scan p = (scan, p) := by
      unfold releaseScanPage
      rw [hpinned]
    rw [hsame]
    exact ⟨h, hid⟩
  · have hleft : releaseScanPage scan p =
        ({ scan with
           pinned := none
           pageId := none
           asked := .unpin (heap.pageIds scan.page) :: scan.asked },
          poolUnpin (heap.pageIds scan.page) false p) := by
      unfold releaseScanPage
      rw [hpinned, hid]
    rw [hleft]
    refine ⟨⟨h.shown.unpin hin, .inl ⟨rfl, rfl⟩, ?_⟩, rfl⟩
    -- the pin that was open is now one of those that are done
    obtain ⟨done, hdone⟩ := h.pins
    refine ⟨done ++ [heap.pageIds scan.page], ?_⟩
    show (PinCall.unpin (heap.pageIds scan.page) :: scan.asked).reverse = _
    rw [List.reverse_cons, hdone, hid]
    simp

/-- A scan that holds nothing takes its page. -/
theorem pin (h : Scanning heap page scan p) (hfree : scan.pageId = none)
    (hin : scan.page < heap.pages.length) :
    Scanning heap page (pinScanPage (heap.pageIds scan.page) scan p).1
        (pinScanPage (heap.pageIds scan.page) scan p).2 ∧
      (pinScanPage (heap.pageIds scan.page) scan p).1.pinned ≠ none := by
  obtain ⟨frame, q, hpin, hresident, hshown⟩ := h.shown.pin hin
  have htaken : pinScanPage (heap.pageIds scan.page) scan p =
      ({ scan with
         pinned := some frame
         pageId := some (heap.pageIds scan.page)
         asked := .pin (heap.pageIds scan.page) :: scan.asked }, q) := by
    unfold pinScanPage
    rw [hpin]
  rw [htaken]
  refine ⟨⟨hshown, .inr ⟨frame, hin, rfl, rfl, hresident⟩, ?_⟩, by simp⟩
  obtain ⟨done, hdone⟩ := h.pins
  refine ⟨done, ?_⟩
  show (PinCall.pin (heap.pageIds scan.page) :: scan.asked).reverse = _
  rw [List.reverse_cons, hdone, hfree]
  simp

/-- What a scan that holds a page sees of it. -/
theorem data (h : Scanning heap page scan p) (hheld : scan.pinned ≠ none) :
    scan.page < heap.pages.length ∧ scan.data p = some (page (heap.pageIds scan.page)) := by
  rcases h.held with ⟨-, hpinned⟩ | ⟨frame, hin, -, hpinned, hresident⟩
  · exact absurd hpinned hheld
  · refine ⟨hin, ?_⟩
    unfold HeapScan.data
    rw [hpinned]
    exact h.shown.data hin hresident

/-- A scan without a pinned page remembers no page id. -/
theorem free_of_unpinned (h : Scanning heap page scan p) (hpinned : scan.pinned = none) :
    scan.pageId = none := by
  rcases h.held with ⟨hid, -⟩ | ⟨frame, -, -, hsome, -⟩
  · exact hid
  · rw [hpinned] at hsome
    exact absurd hsome (by simp)

end Scanning

/-! ### `heapScanNext` -/

/-- What a scan has to say about a slot: nothing if it is a tombstone. -/
def Heap.found (heap : Heap) (page : Nat → Bytes) (slot : Nat × Nat) : Option (Int × Record) :=
  let data := page (heap.pageIds slot.1)
  let offset := slotOffset data slot.2
  if offset = 0 then none else some (joinPosition slot.1 slot.2, data, offset)

/-- What a scan will answer yet. -/
def HeapScan.left (scan : HeapScan) (heap : Heap) (page : Nat → Bytes) : List (Int × Record) :=
  (heap.onward scan.page scan.slot).filterMap (heap.found page)

/-- What one call of `heapScanNext` does. -/
structure Stepped (heap : Heap) (page : Nat → Bytes) (scan : HeapScan)
    (r : Option (Int × Record) × HeapScan × Pool Bytes) : Prop where
  answer : r.1 = (scan.left heap page).head?
  left : r.2.1.left heap page = (scan.left heap page).tail
  scanning : Scanning heap page r.2.1 r.2.2
  released : r.1 = none → r.2.1.pageId = none

namespace Scanning

variable {heap : Heap} {page : Nat → Bytes} {scan : HeapScan} {p : Pool Bytes}

/-- The page that a scan is on is pinned, if it was not. -/
theorem hold (h : Scanning heap page scan p) (hin : scan.page < heap.pages.length)
    {held : HeapScan} {q : Pool Bytes}
    (hheld : (if scan.pinned = none then pinScanPage (heap.pageIds scan.page) scan p
      else (scan, p)) = (held, q)) :
    Scanning heap page held q ∧ held.page = scan.page ∧
      held.data q = some (page (heap.pageIds scan.page)) := by
  split at hheld
  · next hpinned =>
    have hpage : held.page = scan.page := by
      rw [← pinScanPage_page scan p (heap.pageIds scan.page), hheld]
    obtain ⟨hscan, hsome⟩ := h.pin (h.free_of_unpinned hpinned) hin
    rw [hheld] at hscan hsome
    exact ⟨hscan, hpage, hpage ▸ (hscan.data hsome).2⟩
  · next hpinned =>
    obtain ⟨rfl, rfl⟩ := Prod.mk.inj hheld
    exact ⟨h, rfl, (h.data hpinned).2⟩

/-- One call of the scan: a live row or the end, with the page it is on pinned. -/
theorem next (h : Scanning heap page scan p) :
    Stepped heap page scan (heapScanNext heap scan p) := by
  induction scan, p using heapScanNext.induct_unfolding heap with
  | case1 scan p hlast =>
    obtain ⟨hscan, hfree⟩ := h.release
    have hnone : scan.left heap page = [] := by
      unfold HeapScan.left
      rw [heap.onward_last hlast]
      rfl
    have hstill : (releaseScanPage scan p).1.left heap page = [] := by
      unfold HeapScan.left
      rw [releaseScanPage_page, heap.onward_last hlast]
      rfl
    exact ⟨by rw [hnone]; rfl, by rw [hnone]; exact hstill, hscan, fun _ => hfree⟩
  | case2 scan p hin hturn left q heq ih =>
    obtain ⟨hscan, hfree⟩ := h.release
    rw [heq] at hscan hfree
    have hsame : scan.left heap page
        = { left with page := scan.page + 1, slot := 0 : HeapScan }.left heap page := by
      unfold HeapScan.left
      rw [heap.onward_turn hturn]
    have hnext := ih (hscan.move hfree)
    exact ⟨hsame ▸ hnext.answer, hsame ▸ hnext.left, hnext.scanning, hnext.released⟩
  | case3 scan p hin hmore held q heq hdata =>
    -- the page can be had
    obtain ⟨-, -, hpage⟩ := h.hold (by omega) heq
    rw [hdata] at hpage
    exact absurd hpage (by simp)
  | case4 scan p hin hmore held q heq data hdata hzero ih =>
    obtain ⟨hscan, hpage, hbytes⟩ := h.hold (by omega) heq
    obtain rfl := Option.some.inj (hdata.symm.trans hbytes)
    have hnone : heap.found page (scan.page, scan.slot) = none := if_pos hzero
    have hsame : scan.left heap page
        = { held with page := scan.page, slot := scan.slot + 1 : HeapScan }.left heap page := by
      unfold HeapScan.left
      rw [heap.onward_step (by omega), List.filterMap_cons_none hnone]
    have hnext := ih (hpage ▸ hscan.step)
    exact ⟨hsame ▸ hnext.answer, hsame ▸ hnext.left, hnext.scanning, hnext.released⟩
  | case5 scan p hin hmore held q heq data hdata hlive =>
    obtain ⟨hscan, hpage, hbytes⟩ := h.hold (by omega) heq
    obtain rfl := Option.some.inj (hdata.symm.trans hbytes)
    have hsome : heap.found page (scan.page, scan.slot) = some (joinPosition scan.page scan.slot,
        page (heap.pageIds scan.page),
        slotOffset (page (heap.pageIds scan.page)) scan.slot) := if_neg hlive
    have hleft : scan.left heap page
        = (joinPosition scan.page scan.slot, page (heap.pageIds scan.page),
            slotOffset (page (heap.pageIds scan.page)) scan.slot)
          :: { held with page := scan.page, slot := scan.slot + 1 : HeapScan }.left heap page := by
      unfold HeapScan.left
      rw [heap.onward_step (by omega), List.filterMap_cons_some hsome]
    refine ⟨?_, ?_, hpage ▸ hscan.step, fun hnone => absurd hnone (by simp)⟩
    · rw [hleft]
      rfl
    · rw [hleft]
      rfl

end Scanning

/-! ### `heapScanAt` and `heapRead` -/

/-- The record at a position, none when no live row is there. -/
def Heap.recordAt (heap : Heap) (page : Nat → Bytes) (position : Int) : Option Record :=
  let k := position.toNat / SLOTS_PER_PAGE
  let slot := position.toNat % SLOTS_PER_PAGE
  let data := page (heap.pageIds k)
  if position < 0 ∨ heap.pageSlots k ≤ slot ∨ slotOffset data slot = 0 then none
  else some (data, slotOffset data slot)

section
variable {heap : Heap} {page : Nat → Bytes} {p : Pool Bytes} {position : Int}

/-- From 0 on, the page and the slot of a position are quotient and remainder. -/
theorem position_parts (h : 0 ≤ position) :
    positionPage position = (position.toNat / SLOTS_PER_PAGE : Nat) ∧
      positionSlot position = position.toNat % SLOTS_PER_PAGE := by
  rw [positionPage_eq]
  unfold positionSlot SLOTS_PER_PAGE
  omega

/-- A negative position is on a negative page. -/
theorem positionPage_neg (h : position < 0) : positionPage position < 0 := by
  rw [positionPage_eq]
  unfold SLOTS_PER_PAGE
  omega

/-- A position out of range has no record. -/
theorem Heap.recordAt_none (h : position < 0 ∨
      heap.pageSlots (position.toNat / SLOTS_PER_PAGE) ≤ position.toNat % SLOTS_PER_PAGE) :
    heap.recordAt page position = none := by
  unfold Heap.recordAt
  exact if_pos (h.imp_right .inl)

/-- With a slot in use only its offset is left to ask for. -/
theorem Heap.recordAt_slot (habove : 0 ≤ position)
    (hslot : position.toNat % SLOTS_PER_PAGE < heap.pageSlots (position.toNat / SLOTS_PER_PAGE)) :
    heap.recordAt page position =
      if slotOffset (page (heap.pageIds (position.toNat / SLOTS_PER_PAGE)))
          (position.toNat % SLOTS_PER_PAGE) = 0 then none
      else some (page (heap.pageIds (position.toNat / SLOTS_PER_PAGE)),
        slotOffset (page (heap.pageIds (position.toNat / SLOTS_PER_PAGE)))
          (position.toNat % SLOTS_PER_PAGE)) := by
  have hin : ¬position < 0 := by omega
  have huse : ¬heap.pageSlots (position.toNat / SLOTS_PER_PAGE)
      ≤ position.toNat % SLOTS_PER_PAGE := by omega
  unfold Heap.recordAt
  simp only [hin, huse, false_or]

/-- `pinFor` finds the page of the record and where in it the record is. -/
theorem pinFor_looks (habove : 0 ≤ position) {m : PageMap Bytes}
    (hpages : ∀ entry ∈ heap.pages, m.body entry.1 = some (page entry.1)) (count : Nat) :
    (pinFor heap position.toNat).Looks (fun id => (m.body id).isSome) count m.body
      ((heap.recordAt page position).map fun record =>
        (heap.pageIds (position.toNat / SLOTS_PER_PAGE), record.1, record.2)) := by
  unfold pinFor
  cases hentry : heap.pages[position.toNat / SLOTS_PER_PAGE]? with
  | none =>
    have hslots : heap.pageSlots (position.toNat / SLOTS_PER_PAGE) = 0 := by
      unfold Heap.pageSlots
      rw [hentry]
      rfl
    rw [Heap.recordAt_none (.inr (hslots ▸ Nat.zero_le _))]
    rfl
  | some entry =>
    obtain ⟨id, slots⟩ := entry
    obtain ⟨hid, hslots⟩ := Heap.pageSlots_of hentry
    dsimp only
    split
    · next hout =>
      rw [Heap.recordAt_none (.inr (by rw [hslots]; exact hout))]
      rfl
    · next huse =>
      have hbody : m.body id = some (page id) := hpages (id, slots) (List.mem_of_getElem? hentry)
      rw [Heap.recordAt_slot habove (by rw [hslots]; omega), hid]
      refine PageM.looks_bind.mpr ⟨some (page id), ⟨?_, hbody⟩, ?_⟩
      · exact Option.isSome_iff_exists.mpr ⟨_, hbody⟩
      · dsimp only
        split <;> rfl

/-- Reading by position answers the record there, when the heap is shown. -/
theorem heapReadInt_eq (h : heap.Shown page p) :
    (onPool (heapReadInt heap position) p).1 = (heap.recordAt page position).map Record.row := by
  unfold heapReadInt
  rcases Int.lt_or_le position 0 with hneg | habove
  · rw [if_pos hneg]
    unfold Heap.recordAt
    rw [if_pos (.inl hneg)]
    rfl
  · rw [if_neg (by omega)]
    obtain ⟨m, hrefines, hpages⟩ := h
    refine (hrefines.looks ?_).1
    unfold heapRead
    refine PageM.looks_bind.mpr ⟨(heap.recordAt page position).map fun record =>
      (heap.pageIds (position.toNat / SLOTS_PER_PAGE), record.1, record.2), ?_, ?_⟩
    · exact pinFor_looks habove (fun entry hin => (hpages entry hin).1) p.pageCount
    · cases heap.recordAt page position with
      | none => rfl
      | some record => rfl

/-- A scan that is on another page, or on none, goes over to the page that is asked for. -/
theorem Scanning.turn {scan : HeapScan} (h : Scanning heap page scan p) {k : Nat}
    (hin : k < heap.pages.length) {held : HeapScan} {q : Pool Bytes}
    (hheld : turnTo heap k scan p = (held, q)) :
    Scanning heap page held q ∧ held.data q = some (page (heap.pageIds k)) := by
  unfold turnTo at hheld
  split at hheld
  · obtain ⟨hleft, hfree⟩ := h.release
    rcases hr : releaseScanPage scan p with ⟨left, r⟩
    rw [hr] at hheld hleft hfree
    dsimp only at hheld hleft hfree
    have hmoved := @Scanning.move _ _ _ _ k left.slot hleft hfree
    have hpage : held.page = k := congrArg (·.1.page) hheld ▸ pinScanPage_page ..
    obtain ⟨hscan, hsome⟩ := hmoved.pin hfree hin
    dsimp only at hscan hsome
    rw [hheld] at hscan hsome
    exact ⟨hscan, hpage ▸ (hscan.data hsome).2⟩
  · next hsame =>
    obtain ⟨rfl, rfl⟩ := Prod.mk.inj hheld
    obtain ⟨hpinned, hpage⟩ := not_or.mp hsame
    exact ⟨h, not_not.mp hpage ▸ (h.data hpinned).2⟩

/-- `heapScanAt` finds the record, whatever page the scan was on. -/
theorem Scanning.fetch {scan : HeapScan} (h : Scanning heap page scan p) (position : Int) :
    (HeapScan.heapScanAt heap position scan p).1 = heap.recordAt page position ∧
      Scanning heap page (HeapScan.heapScanAt heap position scan p).2.1
        (HeapScan.heapScanAt heap position scan p).2.2 := by
  unfold HeapScan.heapScanAt
  rcases Int.lt_or_le position 0 with hneg | habove
  · rw [if_pos (.inl (positionPage_neg hneg)), Heap.recordAt_none (.inl hneg)]
    exact ⟨rfl, h⟩
  · obtain ⟨hpage, hslot⟩ := position_parts habove
    simp only [hpage, hslot, Int.toNat_natCast]
    by_cases hin : position.toNat / SLOTS_PER_PAGE < heap.pages.length
    · rw [if_neg (not_or.mpr ⟨Int.not_lt.mpr (Int.natCast_nonneg _), by omega⟩)]
      split
      · next hout => exact ⟨(Heap.recordAt_none (.inr hout)).symm, h⟩
      · next huse =>
        rw [Heap.recordAt_slot habove (Nat.lt_of_not_le huse)]
        rcases hheld : turnTo heap (position.toNat / SLOTS_PER_PAGE) scan p with ⟨held, q⟩
        obtain ⟨hscan, hdata⟩ := h.turn hin hheld
        dsimp only
        rw [hdata]
        dsimp only
        split
        · exact ⟨rfl, hscan⟩
        · exact ⟨rfl, hscan⟩
    · rw [if_pos (.inr (by omega))]
      refine ⟨(Heap.recordAt_none (.inr (Nat.le_of_not_lt fun huse => ?_))).symm, h⟩
      exact hin (Heap.inRange_of_slot huse)

end

/-! ### Runs -/

section
variable {heap : Heap} {page : Nat → Bytes} {pool p : Pool Bytes} {scan : HeapScan}
  {calls : List ScanCall}

/-- Every run of scan calls, with foreign work in between, keeps the scan in order. -/
theorem ScanRun.scanning (shown : heap.Shown page pool) (h : ScanRun heap page pool calls scan p) :
    Scanning heap page scan p := by
  induction h with
  | start => exact .start shown
  | next before ih => exact ih.next.scanning
  | fetch position before ih => exact (ih.fetch position).2
  | finish before ih => exact ih.release.1
  | elsewhere before hshown kept ih =>
    refine ⟨hshown, ih.held.imp_right ?_, ih.pins⟩
    rintro ⟨frame, hin, hid, hpinned, -⟩
    exact ⟨frame, hin, hid, hpinned, kept _ frame hid hpinned⟩

/-- After its last call a scan holds no page. -/
theorem ScanRun.released (shown : heap.Shown page pool) (h : ScanRun heap page pool calls scan p) :
    ∀ call ∈ calls.getLast?, call.Last → scan.pageId = none := by
  induction h with
  | start => exact fun _ hlast => absurd hlast (by simp)
  | next before ih =>
    intro call hlast hend
    rw [List.getLast?_concat] at hlast
    obtain rfl := Option.some.inj hlast
    exact (before.scanning shown).next.released hend
  | fetch position before ih =>
    intro call hlast hend
    rw [List.getLast?_concat] at hlast
    obtain rfl := Option.some.inj hlast
    exact hend.elim
  | finish before ih => exact fun _ _ _ => (before.scanning shown).release.2
  | elsewhere before hshown kept ih => exact ih

/-- What a scan has to answer, with the records decoded. -/
def Heap.answers (heap : Heap) (page : Nat → Bytes) : List (Int × Row) :=
  (heap.allSlots.filterMap (heap.found page)).map fun a => (a.1, a.2.row)

/-- A scan that is not used for anything else answers one live slot after another: what it has
answered and what it will answer yet is all there is. -/
theorem ScanRun.nexts (shown : heap.Shown page pool) (h : ScanRun heap page pool calls scan p)
    (hnexts : ∀ position, .fetch position ∉ calls) :
    calls.filterMap ScanCall.answer =
        (List.range (calls.filterMap ScanCall.answer).length).map
          (fun i => (heap.answers page)[i]?) ∧
      scan.left heap page = (heap.allSlots.filterMap (heap.found page)).drop
        (calls.filterMap ScanCall.answer).length := by
  induction h with
  | start =>
    refine ⟨rfl, ?_⟩
    unfold HeapScan.left
    exact congrArg _ heap.onward_start
  | @next calls scan p before ih =>
    obtain ⟨hanswers, hleft⟩ := ih fun position hin => hnexts position (by simp [hin])
    have hnext := (before.scanning shown).next
    have hcalls : (calls ++ [ScanCall.next (heapScanNext heap scan p).1]).filterMap ScanCall.answer
        = calls.filterMap ScanCall.answer ++
          [(heapScanNext heap scan p).1.map fun a => (a.1, a.2.row)] := List.filterMap_append
    rw [hcalls, List.length_append, List.length_singleton]
    refine ⟨?_, ?_⟩
    · rw [List.range_succ, List.map_append, ← hanswers, List.map_singleton, hnext.answer, hleft,
        List.head?_drop]
      unfold Heap.answers
      rw [List.getElem?_map]
    · rw [hnext.left, hleft, List.tail_drop]
  | fetch position before ih => exact absurd (by simp) (hnexts position)
  | @finish calls scan p before ih =>
    obtain ⟨hanswers, hleft⟩ := ih fun position hin => hnexts position (by simp [hin])
    have hcalls : (calls ++ [ScanCall.finish]).filterMap ScanCall.answer
        = calls.filterMap ScanCall.answer :=
      List.filterMap_append.trans (List.append_nil _)
    have hstill : (heapScanEnd scan p).1.left heap page = scan.left heap page := by
      unfold HeapScan.left heapScanEnd
      rw [releaseScanPage_page, releaseScanPage_slot]
    rw [hcalls, hstill]
    exact ⟨hanswers, hleft⟩
  | elsewhere before hshown kept ih => exact ih hnexts

end

/-! ### All together -/

section
variable {heap : Heap} {page : Nat → Bytes} {pool : Pool Bytes}

/-- What lies at the position of a slot is the slot's record. -/
theorem Heap.Addressable.found_eq (h : heap.Addressable) {k slot : Nat}
    (hslot : slot < heap.pageSlots k) :
    heap.found page (k, slot) =
      (heap.recordAt page (joinPosition k slot)).map (joinPosition k slot, ·) := by
  obtain ⟨hfits, hpage⟩ := h.of_slot hslot
  have hjoin := joinPosition_eq hfits hpage
  obtain ⟨hsplit, hnumber⟩ := position_split (k := k) hfits
  have hnat : (joinPosition k slot).toNat = k * SLOTS_PER_PAGE + slot := by omega
  have hk : (joinPosition k slot).toNat / SLOTS_PER_PAGE = k := by rw [hnat, hsplit]
  have hs : (joinPosition k slot).toNat % SLOTS_PER_PAGE = slot := by rw [hnat, hnumber]
  rw [Heap.recordAt_slot (by omega) (by rw [hk, hs]; exact hslot), hk, hs]
  unfold Heap.found
  dsimp only
  split <;> rfl

/-- A slot that is listed is one its page holds. -/
theorem slot_of_mem {k slot : Nat} (h : (k, slot) ∈ heap.allSlots) : slot < heap.pageSlots k := by
  obtain ⟨i, id, slots, rfl, hentry, hslot⟩ := mem_slotsFrom.mp h
  rw [Nat.zero_add]
  exact (Heap.pageSlots_of hentry).2.symm ▸ hslot

/-- The positions are those that a walk was taken to meet. -/
theorem positionsFrom_eq (n : Nat) (pages : List (Nat × Nat)) :
    (slotsFrom n pages).map (fun slot => slot.1 * SLOTS_PER_PAGE + slot.2)
      = positionsFrom n pages := by
  induction pages generalizing n with
  | nil => rfl
  | cons entry pages ih =>
    obtain ⟨id, slots⟩ := entry
    rw [slotsFrom, positionsFrom, List.map_append, List.map_map, ih]
    rfl

/-- The position of each slot of a heap, in order. -/
def Heap.slotPositions (heap : Heap) : List Int :=
  heap.allSlots.map fun slot => joinPosition slot.1 slot.2

/-- As numbers, the positions of the slots are those the heap lists. -/
theorem Heap.Addressable.slotPositions_eq (h : heap.Addressable) :
    heap.slotPositions = (heapPositions heap).map Int.ofNat := by
  unfold Heap.slotPositions heapPositions
  rw [← positionsFrom_eq, List.map_map]
  refine List.map_congr_left fun slot hin => ?_
  obtain ⟨hfits, hpage⟩ := h.of_slot (slot_of_mem hin)
  exact joinPosition_eq hfits hpage

/-- The positions of the slots rise. -/
theorem Heap.Addressable.slotPositions_sorted (h : heap.Addressable) :
    heap.slotPositions.Pairwise (· < ·) := by
  have hfew : ∀ entry ∈ heap.pages, entry.2 ≤ SLOTS_PER_PAGE := by
    intro entry hin
    obtain ⟨k, hk⟩ := List.mem_iff_getElem?.mp hin
    exact (h k entry.1 entry.2 hk).1
  rw [h.slotPositions_eq]
  exact List.pairwise_map.mpr ((positionsFrom_sorted hfew 0).imp fun hlt => Int.ofNat_lt.mpr hlt)

/-- The positions of the slots name the slots, one by one. -/
theorem Heap.Addressable.named (h : heap.Addressable) :
    List.Forall₂ Names heap.slotPositions heap.allSlots := by
  unfold Heap.slotPositions
  rw [List.forall₂_map_left_iff, List.forall₂_same]
  intro slot hin
  obtain ⟨hfits, hpage⟩ := h.of_slot (slot_of_mem hin)
  exact joinPosition_names hfits hpage

/-- What the scan answers is what `heapRead` says of the positions. -/
theorem Heap.Addressable.liveRows_eq (h : heap.Addressable) (shown : heap.Shown page pool) :
    heap.liveRows pool heap.slotPositions = heap.answers page := by
  unfold Heap.liveRows Heap.answers Heap.slotPositions
  rw [List.filterMap_map, List.map_filterMap]
  refine List.filterMap_congr fun slot hin => ?_
  rw [Function.comp_apply, heapReadInt_eq shown, h.found_eq (slot_of_mem hin)]
  generalize joinPosition slot.1 slot.2 = position
  cases heap.recordAt page position <;> rfl

/-- The walk's positions are no larger than an `int`, which leaves so many bits for the page. -/
theorem ScansAgree.addressable {positions : List Int} (h : ScansAgree heap page pool positions) :
    heap.Addressable := by
  -- a slot in use has a position that names it
  have hslots : ∀ k slot, (k, slot) ∈ heap.allSlots →
      slot < SLOTS_PER_PAGE ∧ k < MAX_HEAP_PAGES := by
    intro k slot hin
    obtain ⟨position, hposition, hpage, hslot⟩ : ∃ position ∈ positions,
        Names position (k, slot) := by
      obtain ⟨i, hi⟩ := List.get_of_mem hin
      have hlength : i < positions.length := by
        rw [h.all.length_eq]
        exact i.isLt
      have hnames := h.all.get hlength i.isLt
      rw [hi] at hnames
      exact ⟨positions.get ⟨i, hlength⟩, List.get_mem .., hnames⟩
    dsimp only at hpage hslot
    have hlt := h.walk.lt (firstPosition_lt 0 heap.pages) position hposition
    rw [positionPage_eq] at hpage
    unfold positionSlot at hslot
    unfold SLOTS_PER_PAGE at *
    unfold MAX_HEAP_PAGES
    omega
  intro k id slots hentry
  rcases Nat.eq_zero_or_pos slots with rfl | hpos
  · exact ⟨Nat.zero_le _, fun hsome => absurd hsome (Nat.lt_irrefl 0)⟩
  · obtain ⟨hfits, hpage⟩ := hslots k (slots - 1)
      (mem_slotsFrom.mpr ⟨k, id, slots, (Nat.zero_add k).symm, hentry, by omega⟩)
    exact ⟨by omega, fun _ => hpage⟩

end

/-- The four ways over a heap agree, if and only if each slot of the heap can be told by its
position. -/
theorem scans_agree_iff {heap : Heap} {page : Nat → Bytes} {pool : Pool Bytes}
    (shown : heap.Shown page pool) :
    (∃ positions, ScansAgree heap page pool positions) ↔ heap.Addressable := by
  constructor
  · rintro ⟨positions, h⟩
    exact h.addressable
  · intro h
    have hfirst : heapFirst heap = firstOf (heap.onward 0 0) := by
      rw [heap.onward_start]
      exact firstPosition_eq 0 heap.pages
    refine ⟨heap.slotPositions, ?_, h.named, h.slotPositions_sorted, ?_, ?_, ?_, ?_⟩
    · rw [hfirst, heap.onward_start]
      exact h.walk_onward heap.onward_start
    · intro calls scan p hrun hnexts
      rw [h.liveRows_eq shown]
      exact (hrun.nexts shown hnexts).1
    · intro calls scan p hrun position
      rw [heapReadInt_eq shown, ((hrun.scanning shown).fetch position).1]
    · exact fun calls scan p hrun => (hrun.scanning shown).pins
    · exact fun calls scan p hrun => hrun.released shown

/-! ### A heap of one page, and one with too long a page -/

/-- A pool in memory with one page, of which the first slot is a tombstone. -/
def tombstonePage : Bytes := putU32At (fun _ => 0) (slotAt 1) 4096

/-- The pool that holds the page. -/
def onePool : Pool Bytes := (onPool (writePage 0 tombstonePage) (poolAllocate startPool).2).2

/-- The heap of that page. -/
def onePageHeap : Heap :=
  { table := Name.ofBytes [116], pages := [(0, 2)], nlive := 1, nslots := 2 }

/-- A fresh pool hands out a blank page 0. -/
theorem startPool_allocated : ∃ store : Store Bytes, (poolAllocate startPool).2.Serves store ∧
    store.body 0 = some zeroPage := by
  have hstart := startPool_inOrder.serves (by simp [startPool])
  exact ⟨_, hstart.alloc.2, rfl⟩

/-- The heap of one page is shown by the pool that holds that page. -/
theorem onePageHeap_shown : onePageHeap.Shown (fun _ => tombstonePage) onePool := by
  obtain ⟨store, hserves, hbody⟩ := startPool_allocated
  have hwrite : (writePage 0 tombstonePage).wp zeroPage
      (fun _ store' => store'.body 0 = some tombstonePage) store :=
    ⟨by rw [hbody]; rfl, by simp [PageM.wp, Store.write]⟩
  obtain ⟨store', hpage, hserves'⟩ := hserves.onPool hwrite
  refine ⟨_, hserves'.refines, fun entry hin => ?_⟩
  obtain rfl := List.mem_singleton.mp hin
  exact ⟨hpage, rfl⟩

/-- The three ways to scan agree on a page whose only row was deleted. -/
theorem scans_agree_iff_tombstone :
    ∃ positions, ScansAgree onePageHeap (fun _ => tombstonePage) onePool positions := by
  refine (scans_agree_iff onePageHeap_shown).mpr fun k id slots hentry => ?_
  have hin := List.mem_of_getElem? hentry
  obtain ⟨-, rfl⟩ := Prod.mk.inj (List.mem_singleton.mp hin)
  have hk : k < onePageHeap.pages.length :=
    (List.getElem?_eq_some_iff.mp hentry).1
  exact ⟨by decide, fun _ => Nat.lt_trans hk (by decide)⟩

/-- A heap whose second page is said to have more slots than a position can tell apart. -/
def longHeap : Heap :=
  { table := Name.ofBytes [116], pages := [(0, 0), (1, 1025)], nlive := 0, nslots := 1025 }

/-- From the page's last slot `heapNext` goes back to its first, and the walk has no end. -/
theorem long_page_walks_on :
    (heapFirst longHeap = 1024 ∧ heapNext longHeap 2047 = 1024) ∧
      longHeap.Shown (fun _ => zeroPage) (poolAllocate (poolAllocate startPool).2).2 ∧
      ¬∃ positions, ScansAgree longHeap (fun _ => zeroPage)
        (poolAllocate (poolAllocate startPool).2).2 positions := by
  refine ⟨by decide +kernel, ?_, ?_⟩
  · have hstart := startPool_inOrder.serves (by simp [startPool])
    refine ⟨_, hstart.alloc.2.alloc.2.refines, fun entry hin => ?_⟩
    rcases List.mem_pair.mp hin with rfl | rfl
    · exact ⟨rfl, rfl⟩
    · exact ⟨rfl, rfl⟩
  · rintro ⟨positions, h⟩
    exact absurd (h.addressable 1 1 1025 rfl).1 (by decide)

end DatabaseEngine
