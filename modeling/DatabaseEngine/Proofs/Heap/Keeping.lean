import DatabaseEngine.Proofs.Heap.Slotted
import Mathlib.Data.List.Nodup

/-!
# `DatabaseEngine.Proofs.Heap.Keeping`: a heap keeps the rows it was given

`Heap.Stores` is the invariant of a heap and the store its pages are in: every page keeps the rows
of its slots, and the positions handed out are those of the pages in order.

* `heapInsert_spec`, `heapMarkDeleted_spec`: what one step preserves.
* `HeapRun.Reached.stores`: what holds after any run.
* `heap_keeps_iff`: a heap has what its ledger says, if and only if none of the rows in it is so
  large that its record runs into its own slot.
-/

set_option autoImplicit false

namespace DatabaseEngine

open Library

/-! ### Positions -/

/-- The positions of a longer page list are those of its front and of its back. -/
theorem positionsFrom_append (n : Nat) (front back : List (Nat × Nat)) :
    positionsFrom n (front ++ back)
      = positionsFrom n front ++ positionsFrom (n + front.length) back := by
  induction front generalizing n with
  | nil => rfl
  | cons entry front ih =>
    simp only [List.cons_append, positionsFrom, ih, List.append_assoc, List.length_cons,
      Nat.add_assoc, Nat.add_comm 1]

/-- A position is listed exactly if its page is there and holds its slot. -/
theorem mem_positionsFrom {n position : Nat} {pages : List (Nat × Nat)} :
    position ∈ positionsFrom n pages ↔ ∃ k id slots slot, pages[k]? = some (id, slots) ∧
      slot < slots ∧ (n + k) * SLOTS_PER_PAGE + slot = position := by
  induction pages generalizing n with
  | nil => simp [positionsFrom]
  | cons entry pages ih =>
    obtain ⟨id, slots⟩ := entry
    rw [positionsFrom, List.mem_append, ih]
    constructor
    · rintro (h | ⟨k, id', slots', slot, hk, hslot, rfl⟩)
      · obtain ⟨slot, hslot, rfl⟩ := List.mem_map.mp h
        exact ⟨0, id, slots, slot, rfl, List.mem_range.mp hslot, rfl⟩
      · exact ⟨k + 1, id', slots', slot, hk, hslot, by rw [Nat.add_assoc, Nat.add_comm 1]⟩
    · rintro ⟨k, id', slots', slot, hk, hslot, rfl⟩
      cases k with
      | zero =>
        obtain ⟨rfl, rfl⟩ := Prod.mk.inj (Option.some.inj hk)
        exact .inl (List.mem_map.mpr ⟨slot, List.mem_range.mpr hslot, rfl⟩)
      | succ k =>
        exact .inr ⟨k, id', slots', slot, hk, hslot, by rw [Nat.add_assoc, Nat.add_comm 1]⟩

/-- A position tells its page and its slot apart. -/
theorem position_split {k slot : Nat} (hslot : slot < SLOTS_PER_PAGE) :
    (k * SLOTS_PER_PAGE + slot) / SLOTS_PER_PAGE = k ∧
      (k * SLOTS_PER_PAGE + slot) % SLOTS_PER_PAGE = slot := by
  unfold SLOTS_PER_PAGE at hslot ⊢
  omega

/-- A position is its page and its slot put together again. -/
theorem position_join (position : Nat) :
    position / SLOTS_PER_PAGE * SLOTS_PER_PAGE + position % SLOTS_PER_PAGE = position :=
  Nat.div_add_mod' ..

section
variable {pages : List (Nat × Nat)} (hfew : ∀ entry ∈ pages, entry.2 ≤ SLOTS_PER_PAGE)
include hfew

/-- The same for a whole heap, with page and slot read off the position. -/
theorem mem_positions {position : Nat} :
    position ∈ positionsFrom 0 pages ↔ ∃ id slots,
      pages[position / SLOTS_PER_PAGE]? = some (id, slots) ∧ position % SLOTS_PER_PAGE < slots := by
  rw [mem_positionsFrom]
  constructor
  · rintro ⟨k, id, slots, slot, hk, hslot, rfl⟩
    have hlt : slot < SLOTS_PER_PAGE :=
      Nat.lt_of_lt_of_le hslot (hfew _ (List.mem_of_getElem? hk))
    rw [Nat.zero_add, (position_split hlt).1, (position_split hlt).2]
    exact ⟨id, slots, hk, hslot⟩
  · rintro ⟨id, slots, hk, hslot⟩
    exact ⟨_, id, slots, _, hk, hslot, by rw [Nat.zero_add]; exact position_join position⟩

/-- Positions go up. -/
theorem positionsFrom_sorted (n : Nat) :
    (positionsFrom n pages).Pairwise (· < ·) := by
  induction pages generalizing n with
  | nil => exact List.Pairwise.nil
  | cons entry pages ih =>
    obtain ⟨id, slots⟩ := entry
    have hslots : slots ≤ SLOTS_PER_PAGE := hfew (id, slots) (List.mem_cons_self ..)
    rw [positionsFrom]
    refine List.pairwise_append.mpr ⟨?_, ih (fun other h => hfew other (by simp [h])) _, ?_⟩
    · exact List.pairwise_map.mpr (List.pairwise_lt_range.imp fun h => Nat.add_lt_add_left h _)
    · intro position hposition later hlater
      obtain ⟨slot, hslot, rfl⟩ := List.mem_map.mp hposition
      obtain ⟨k, -, -, slot', -, -, rfl⟩ := mem_positionsFrom.mp hlater
      have hslot := List.mem_range.mp hslot
      have hpage : (n + 1 + k) * SLOTS_PER_PAGE
          = n * SLOTS_PER_PAGE + SLOTS_PER_PAGE + k * SLOTS_PER_PAGE := by
        rw [Nat.add_mul, Nat.add_mul, Nat.one_mul]
      omega

/-- A page has as many positions as slots. -/
theorem positionsFrom_count {n k id slots : Nat} (hk : pages[k]? = some (id, slots)) :
    (positionsFrom n pages).countP (fun position => position / SLOTS_PER_PAGE == n + k)
      = slots := by
  induction pages generalizing n k with
  | nil => exact absurd hk (by simp)
  | cons entry pages ih =>
    obtain ⟨id', slots'⟩ := entry
    have hslots : slots' ≤ SLOTS_PER_PAGE := hfew (id', slots') (List.mem_cons_self ..)
    have hown : ∀ m, ((List.range slots').map (n * SLOTS_PER_PAGE + ·)).countP
        (fun position => position / SLOTS_PER_PAGE == m) = if n = m then slots' else 0 := by
      intro m
      rw [List.countP_map]
      split
      · next h =>
        rw [List.countP_eq_length.mpr, List.length_range]
        intro slot hslot
        have hlt : slot < SLOTS_PER_PAGE := Nat.lt_of_lt_of_le (List.mem_range.mp hslot) hslots
        simp only [Function.comp_apply, (position_split hlt).1, h, beq_self_eq_true]
      · next h =>
        refine List.countP_eq_zero.mpr fun slot hslot => ?_
        have hlt : slot < SLOTS_PER_PAGE := Nat.lt_of_lt_of_le (List.mem_range.mp hslot) hslots
        simpa only [Function.comp_apply, (position_split hlt).1, beq_iff_eq] using h
    rw [positionsFrom, List.countP_append, hown]
    cases k with
    | zero =>
      obtain ⟨rfl, rfl⟩ := Prod.mk.inj (Option.some.inj hk)
      -- the positions behind are on later pages
      rw [if_pos (Nat.add_zero n).symm, List.countP_eq_zero.mpr, Nat.add_zero]
      intro position hposition
      obtain ⟨k, id, slots, slot, hk, hslot, rfl⟩ := mem_positionsFrom.mp hposition
      have hlt : slot < SLOTS_PER_PAGE := Nat.lt_of_lt_of_le hslot
        (hfew (id, slots) (List.mem_cons_of_mem _ (List.mem_of_getElem? hk)))
      rw [(position_split hlt).1, beq_iff_eq]
      omega
    | succ k =>
      have hrest : (positionsFrom (n + 1) pages).countP
          (fun position => position / SLOTS_PER_PAGE == n + 1 + k) = slots :=
        ih (fun other h => hfew other (by simp [h])) hk
      rw [if_neg (by omega), Nat.zero_add, show n + (k + 1) = n + 1 + k by omega]
      exact hrest

end

/-! ### The invariant -/

/-- An entry of an extended list is one of the front or the one at the end. -/
theorem getElem?_concat_cases {α : Type} {front : List α} {last a : α} {k : Nat}
    (h : (front ++ [last])[k]? = some a) :
    (k < front.length ∧ front[k]? = some a) ∨ (k = front.length ∧ a = last) := by
  rcases Nat.lt_trichotomy k front.length with hk | hk | hk
  · exact .inl ⟨hk, by rwa [List.getElem?_append_left hk] at h⟩
  · rw [hk, List.getElem?_concat_length] at h
    exact .inr ⟨hk, (Option.some.inj h).symm⟩
  · rw [List.getElem?_eq_none (by simp; omega)] at h
    exact absurd h (by simp)

/-- A heap and the store its pages are in, after a ledger. -/
structure Heap.Stores (heap : Heap) (ledger : Ledger) (store : Store Bytes) : Prop where
  ids : (heap.pages.map Prod.fst).Nodup
  pages : ∀ k id slots, heap.pages[k]? = some (id, slots) →
    ∃ page, store.body id = some page ∧ PageKeeps page slots (ledger.onPage k)
  handed : ledger.handed = heapPositions heap
  blank : ∀ position, position ∉ ledger.handed → ledger.rows position = none
  live : heap.nlive = ledger.live
  slots : heap.nslots = ledger.handed.length

/-- One of the rows is struck out. -/
theorem countP_strike {position : Nat} {handed : List Nat} (rows : Nat → Option Row)
    (hnodup : handed.Nodup) (hin : position ∈ handed) (hrow : (rows position).isSome) :
    handed.countP (fun other => (rows other).isSome)
      = handed.countP (fun other => (Function.update rows position none other).isSome) + 1 := by
  induction handed with
  | nil => exact absurd hin (by simp)
  | cons first handed ih =>
    obtain ⟨hfirst, hrest⟩ := List.nodup_cons.mp hnodup
    rw [List.countP_cons, List.countP_cons]
    rcases List.mem_cons.mp hin with rfl | hin
    · have hsame : handed.countP (fun other => (Function.update rows position none other).isSome)
          = handed.countP fun other => (rows other).isSome := by
        refine List.countP_congr fun other hother => ?_
        have hne : other ≠ position := fun heq => hfirst (heq ▸ hother)
        rw [Function.update_of_ne hne]
      rw [hsame, Function.update_self, hrow]
      rfl
    · have hne : first ≠ position := fun heq => hfirst (heq ▸ hin)
      rw [ih hrest hin, Function.update_of_ne hne]
      omega

namespace Heap.Stores

variable {heap : Heap} {ledger : Ledger} {store store' : Store Bytes} {position : Nat}

/-- No page of a heap in order has more slots than a page takes. -/
theorem few (h : heap.Stores ledger store) : ∀ entry ∈ heap.pages, entry.2 ≤ SLOTS_PER_PAGE := by
  intro entry hentry
  obtain ⟨k, hk⟩ := List.mem_iff_getElem?.mp hentry
  obtain ⟨page, -, hkeeps⟩ := h.pages k entry.1 entry.2 hk
  exact hkeeps.counted.2

/-- The positions handed out are those the page list has a slot for. -/
theorem mem_handed (h : heap.Stores ledger store) :
    position ∈ ledger.handed ↔ ∃ id slots,
      heap.pages[position / SLOTS_PER_PAGE]? = some (id, slots) ∧
        position % SLOTS_PER_PAGE < slots := by
  rw [h.handed]
  exact mem_positions h.few

/-- Only the pages of the heap matter. -/
theorem congr (h : heap.Stores ledger store)
    (hbody : ∀ entry ∈ heap.pages, store'.body entry.1 = store.body entry.1) :
    heap.Stores ledger store' := by
  refine ⟨h.ids, fun k id slots hk => ?_, h.handed, h.blank, h.live, h.slots⟩
  obtain ⟨page, hpage, hkeeps⟩ := h.pages k id slots hk
  exact ⟨page, (hbody (id, slots) (List.mem_of_getElem? hk)).trans hpage, hkeeps⟩

/-- A cleared heap stores nothing. -/
theorem clear (table : Name) (store : Store Bytes) : (clearHeap table).Stores .blank store :=
  ⟨List.nodup_nil, fun _ _ _ hk => absurd hk (by simp [clearHeap]), rfl, fun _ _ => rfl, rfl, rfl⟩

/-- One more page, without records so far. -/
theorem grow (h : heap.Stores ledger store) {id : Nat} (hid : store.body id = none)
    (hpage : store'.body id = some initPage)
    (hbody : ∀ other, other ≠ id → store'.body other = store.body other) :
    { heap with pages := heap.pages ++ [(id, 0)] : Heap }.Stores ledger store' := by
  have hne : ∀ entry ∈ heap.pages, entry.1 ≠ id := by
    rintro entry hentry rfl
    obtain ⟨k, hk⟩ := List.mem_iff_getElem?.mp hentry
    obtain ⟨page, hpage, -⟩ := h.pages k entry.1 entry.2 hk
    rw [hid] at hpage
    exact absurd hpage (by simp)
  refine ⟨?_, ?_, ?_, h.blank, h.live, h.slots⟩
  · rw [List.map_append, List.nodup_append]
    refine ⟨h.ids, List.nodup_singleton id, ?_⟩
    intro other hother last hlast
    obtain ⟨entry, hentry, rfl⟩ := List.mem_map.mp hother
    rw [List.mem_singleton.mp hlast]
    exact hne entry hentry
  · intro k other slots hk
    rcases getElem?_concat_cases hk with ⟨-, hk⟩ | ⟨-, hlast⟩
    · obtain ⟨page, hpage, hkeeps⟩ := h.pages k other slots hk
      exact ⟨page, (hbody other (hne (other, slots) (List.mem_of_getElem? hk))).trans hpage, hkeeps⟩
    · obtain ⟨rfl, rfl⟩ := Prod.mk.inj hlast
      exact ⟨initPage, hpage, .slotted (initPage_slotted _)⟩
  · rw [h.handed]
    show positionsFrom 0 heap.pages = positionsFrom 0 (heap.pages ++ [(id, 0)])
    rw [positionsFrom_append]
    exact (List.append_nil _).symm

/-- The slots of a page do not meet those of another. -/
theorem onPage_enter {k k' slot n : Nat} (row : Row) (hslot : slot < SLOTS_PER_PAGE)
    (hn : n < SLOTS_PER_PAGE) :
    (ledger.enter (k' * SLOTS_PER_PAGE + n) row).onPage k slot
      = if k = k' ∧ slot = n then some row else ledger.onPage k slot := by
  unfold Ledger.onPage Ledger.enter
  split
  · next h =>
    obtain ⟨rfl, rfl⟩ := h
    exact Function.update_self (k * SLOTS_PER_PAGE + slot) (some row) ledger.rows
  · next h =>
    have hne : k * SLOTS_PER_PAGE + slot ≠ k' * SLOTS_PER_PAGE + n := by
      intro heq
      obtain ⟨hpage, hrest⟩ := position_split (k := k) hslot
      rw [heq, (position_split hn).1] at hpage
      rw [heq, (position_split hn).2] at hrest
      exact h ⟨hpage.symm, hrest.symm⟩
    dsimp only
    rw [Function.update_of_ne hne]

/-- One more record on the last page. -/
theorem enter (h : heap.Stores ledger store) {front : List (Nat × Nat)} {id n : Nat} {row : Row}
    {page : Bytes} (hpages : heap.pages = front ++ [(id, n)])
    (hpage : PageKeeps page (n + 1) (Function.update (ledger.onPage front.length) n (some row))) :
    (heap.entered n).Stores (ledger.enter (front.length * SLOTS_PER_PAGE + n) row)
      (store.write id page) := by
  have hn : n < SLOTS_PER_PAGE := hpage.counted.2
  have hentered : (heap.entered n).pages = front ++ [(id, n + 1)] := by
    show heap.pages.modify (heap.pages.length - 1) _ = _
    rw [hpages, List.length_append, List.length_singleton, Nat.add_sub_cancel,
      List.modify_eq_take_cons_drop (by simp)]
    simp
  have hfresh : front.length * SLOTS_PER_PAGE + n ∉ ledger.handed := by
    intro hin
    obtain ⟨other, slots, hk, hlt⟩ := h.mem_handed.mp hin
    rw [(position_split hn).1, hpages, List.getElem?_concat_length] at hk
    obtain ⟨rfl, rfl⟩ := Prod.mk.inj (Option.some.inj hk)
    rw [(position_split hn).2] at hlt
    omega
  refine ⟨?_, ?_, ?_, ?_, ?_, ?_⟩
  · rw [hentered]
    have hids := h.ids
    rw [hpages] at hids
    simpa using hids
  · intro k other slots hk
    rw [hentered] at hk
    rcases getElem?_concat_cases hk with ⟨hlt, hfront⟩ | ⟨rfl, hlast⟩
    · have hold : heap.pages[k]? = some (other, slots) := by
        rw [hpages, List.getElem?_append_left hlt]
        exact hfront
      obtain ⟨body, hbody, hkeeps⟩ := h.pages k other slots hold
      have hne : other ≠ id := by
        rintro rfl
        have hids := h.ids
        rw [hpages, List.map_append, List.nodup_append] at hids
        have hin : other ∈ front.map Prod.fst :=
          List.mem_map.mpr ⟨(other, slots), List.mem_of_getElem? hfront, rfl⟩
        exact hids.2.2 other hin other (by simp) rfl
      refine ⟨body, by simpa [Store.write, hne] using hbody, hkeeps.congr fun slot hslot => ?_⟩
      rw [onPage_enter row (Nat.lt_of_lt_of_le hslot hkeeps.counted.2) hn,
        if_neg (fun heq => absurd heq.1 (Nat.ne_of_lt hlt))]
    · obtain ⟨rfl, rfl⟩ := Prod.mk.inj hlast
      refine ⟨page, by simp [Store.write], hpage.congr fun slot hslot => ?_⟩
      rw [onPage_enter row (Nat.lt_of_lt_of_le hslot hpage.counted.2) hn]
      by_cases hsame : slot = n
      · rw [hsame, if_pos ⟨rfl, rfl⟩, Function.update_self]
      · rw [if_neg fun heq => hsame heq.2, Function.update_of_ne hsame]
  · show ledger.handed ++ [front.length * SLOTS_PER_PAGE + n]
      = positionsFrom 0 (heap.entered n).pages
    rw [h.handed, hentered]
    show positionsFrom 0 heap.pages ++ _ = _
    rw [hpages, positionsFrom_append, positionsFrom_append, List.append_assoc]
    congr 1
    simp [positionsFrom, List.range_succ]
  · intro position hposition
    have hout : position ∉ ledger.handed ∧ position ≠ front.length * SLOTS_PER_PAGE + n := by
      simpa [Ledger.enter] using hposition
    exact (Function.update_of_ne hout.2 ..).trans (h.blank position hout.1)
  · show heap.nlive + 1 = ((ledger.enter (front.length * SLOTS_PER_PAGE + n) row).live : Int)
    rw [h.live]
    unfold Ledger.live Ledger.enter
    rw [List.countP_append]
    have hold : ledger.handed.countP (fun position => (Function.update ledger.rows
          (front.length * SLOTS_PER_PAGE + n) (some row) position).isSome)
        = ledger.handed.countP fun position => (ledger.rows position).isSome := by
      refine List.countP_congr fun position hposition => ?_
      have hne : position ≠ front.length * SLOTS_PER_PAGE + n := fun heq => hfresh (heq ▸ hposition)
      rw [Function.update_of_ne hne]
    rw [hold]
    simp
  · show heap.nslots + 1 = ((ledger.handed ++ [_]).length : Int)
    rw [h.slots, List.length_append]
    rfl

/-- No position was handed out twice. -/
theorem nodup (h : heap.Stores ledger store) : ledger.handed.Nodup := by
  rw [h.handed]
  exact (positionsFrom_sorted h.few 0).imp Nat.ne_of_lt

/-- A position that was never handed out, or has been deleted before. -/
theorem strike_none (hnone : ledger.rows position = none) : ledger.strike position = ledger := by
  unfold Ledger.strike
  rw [← hnone, Function.update_eq_self]

/-- A record is deleted. -/
theorem strike (h : heap.Stores ledger store) {id slots : Nat} {page : Bytes}
    (hk : heap.pages[position / SLOTS_PER_PAGE]? = some (id, slots))
    (hslot : position % SLOTS_PER_PAGE < slots) (hrow : (ledger.rows position).isSome)
    (hpage : PageKeeps page slots (Function.update (ledger.onPage (position / SLOTS_PER_PAGE))
      (position % SLOTS_PER_PAGE) none)) :
    { heap with nlive := heap.nlive - 1 : Heap }.Stores (ledger.strike position)
      (store.write id page) := by
  have hfew := h.few
  have hsplit := position_join position
  have hout : ∀ k slot, slot < SLOTS_PER_PAGE →
      ¬(k = position / SLOTS_PER_PAGE ∧ slot = position % SLOTS_PER_PAGE) →
      (ledger.strike position).onPage k slot = ledger.onPage k slot := by
    intro k slot hlt hne
    refine Function.update_of_ne (fun heq => hne ?_) ..
    rw [← heq, (position_split hlt).1, (position_split hlt).2]
    exact ⟨rfl, rfl⟩
  refine ⟨h.ids, ?_, h.handed, ?_, ?_, h.slots⟩
  · intro k other slots' hk'
    obtain ⟨body, hbody, hkeeps⟩ := h.pages k other slots' hk'
    by_cases hsame : k = position / SLOTS_PER_PAGE
    · rw [hsame] at hk'
      obtain ⟨rfl, rfl⟩ := Prod.mk.inj (Option.some.inj (hk'.symm.trans hk))
      refine ⟨page, by simp [Store.write], hpage.congr fun slot hslot => ?_⟩
      by_cases hsame' : slot = position % SLOTS_PER_PAGE
      · rw [hsame, hsame', Function.update_self]
        unfold Ledger.onPage Ledger.strike
        rw [hsplit]
        exact Function.update_self position none ledger.rows
      · rw [Function.update_of_ne hsame', hsame]
        exact hout _ slot (Nat.lt_of_lt_of_le hslot hpage.counted.2) fun heq => hsame' heq.2
    · have hne : other ≠ id := by
        rintro rfl
        -- an id is listed once
        have hlt : k < (heap.pages.map Prod.fst).length := by
          rw [List.length_map]
          exact (List.getElem?_eq_some_iff.mp hk').1
        refine hsame ((List.getElem?_inj hlt h.ids).mp ?_)
        rw [List.getElem?_map, List.getElem?_map, hk', hk]
        rfl
      refine ⟨body, by simpa [Store.write, hne] using hbody, hkeeps.congr fun slot hslot => ?_⟩
      exact hout k slot (Nat.lt_of_lt_of_le hslot hkeeps.counted.2) fun heq => hsame heq.1
  · intro other hother
    by_cases hsame : other = position
    · rw [hsame]
      exact Function.update_self position none ledger.rows
    · exact (Function.update_of_ne hsame ..).trans (h.blank other hother)
  · have hin : position ∈ ledger.handed := by
      by_contra hnot
      rw [h.blank position hnot] at hrow
      exact absurd hrow (by simp)
    show heap.nlive - 1 = ((ledger.strike position).live : Int)
    rw [h.live]
    have hlive := countP_strike ledger.rows h.nodup hin hrow
    unfold Ledger.live Ledger.strike
    dsimp only
    omega

end Heap.Stores

/-! ### The operations -/

section
variable {heap : Heap} {ledger : Ledger} {store : Store Bytes}

/-- The page a record goes to is the last one, and has room or is fresh. -/
structure Inserting (ledger : Ledger) (size id : Nat) (page : Bytes) (heap : Heap)
    (store : Store Bytes) : Prop where
  stores : heap.Stores ledger store
  last : ∃ front n, heap.pages = front ++ [(id, n)]
  body : store.body id = some page
  room : hasRoom page size = true ∨ page = initPage

/-- A heap grows by a fresh page at its end. -/
theorem appendPage_spec (hs : store.Sound) (h : heap.Stores ledger store) (size : Nat) :
    appendPage.wp zeroPage (fun r heap' store' => ∃ id page, r = .ok (id, page) ∧
      Inserting ledger size id page heap' store') heap store := by
  unfold appendPage
  rw [Action.wp_bind, Action.wp_lift]
  -- the page that is allocated belongs to nobody
  have hfresh : store.body store.nextId = none :=
    hs.unallocated _ (hs.nextId_fresh zeroPage).1
  unfold allocatePage
  simp only [PageM.wp]
  rw [Action.wp_bind, Action.wp_lift]
  refine ⟨by simp [Store.alloc], ?_⟩
  refine ⟨store.nextId, initPage, rfl, ?_, ⟨heap.pages, 0, rfl⟩, by simp [Store.write], .inr rfl⟩
  exact h.grow hfresh (by simp [Store.write]) fun other hne => by
    simp [Store.write, Store.alloc, hne]

/-- The page an insertion goes to is the last one, with room for the row or fresh. -/
theorem insertionPage_spec (hs : store.Sound) (h : heap.Stores ledger store) (size : Nat) :
    (insertionPage size).wp zeroPage (fun r heap' store' => ∃ id page, r = .ok (id, page) ∧
      Inserting ledger size id page heap' store') heap store := by
  unfold insertionPage
  rw [Action.wp_bind, Action.wp_get]
  dsimp only
  cases hlast : heap.pages.getLast? with
  | none => exact appendPage_spec hs h size
  | some entry =>
    obtain ⟨id, n⟩ := entry
    obtain ⟨front, hpages⟩ := List.getLast?_eq_some_iff.mp hlast
    have hk : heap.pages[front.length]? = some (id, n) := by
      rw [hpages, List.getElem?_concat_length]
    obtain ⟨page, hpage, -⟩ := h.pages front.length id n hk
    dsimp only
    rw [Action.wp_bind, Action.wp_lift]
    refine ⟨.inl (by rw [hpage]; rfl), ?_⟩
    simp only [hpage, PageM.wp]
    split
    · next hroom => exact ⟨id, page, rfl, h, ⟨front, n, hpages⟩, hpage, .inl hroom⟩
    · exact appendPage_spec hs h size

/-- A row that is accepted is entered at the position that is answered, and only one that is too
large is refused. -/
theorem heapInsert_spec {row : Row} (hs : store.Sound) (h : heap.Stores ledger store)
    (hcols : row.length ≤ MAX_COLS) :
    (heapInsert row).wp zeroPage (fun r heap' store' =>
      match r with
      | .ok position => heap'.Stores (ledger.enter position row) store'
      | .error _ => heap'.Stores ledger store' ∧
          PAGE_SIZE - PAGE_HEADER - SLOT_WIDTH < recordSize row) heap store := by
  unfold heapInsert
  split
  · next hrefused => exact ⟨h, hrefused⟩
  · next haccepted =>
    rw [Action.wp_bind]
    refine Action.wp_mono (insertionPage_spec hs h (recordSize row)) fun r heap' store' hpage => ?_
    obtain ⟨id, page, rfl, hstores, ⟨front, n, hpages⟩, hbody, hroom⟩ := hpage
    have hk : heap'.pages[front.length]? = some (id, n) := by
      rw [hpages, List.getElem?_concat_length]
    obtain ⟨body, hbody', hkeeps⟩ := hstores.pages front.length id n hk
    obtain rfl : body = page := Option.some.inj (hbody'.symm.trans hbody)
    have hcount : slotCount body = n := hkeeps.counted.1
    have hplaced : PageKeeps (placeRecord body row) (n + 1)
        (Function.update (ledger.onPage front.length) n (some row)) := by
      rcases hroom with hroom | rfl
      · exact hkeeps.place hroom hcols
      · obtain rfl : n = 0 := hcount.symm.trans (initPage_slotted fun _ => none).count
        exact .first _ hcols (Nat.le_of_not_lt haccepted)
    dsimp only
    rw [Action.wp_bind, Action.wp_lift]
    refine ⟨by rw [hbody]; rfl, ?_⟩
    have hlength : heap'.pages.length - 1 = front.length := by
      rw [hpages]
      simp
    have hentered := hstores.enter hpages hplaced
    rw [← hlength, ← hcount] at hentered
    exact hentered

/-- What a pin of a position answers: the page of a row that is there, and nothing elsewhere. -/
inductive Pins (heap : Heap) (ledger : Ledger) (store : Store Bytes) (position : Nat) :
    Option (Nat × Bytes × Nat) → Prop
  | nothing (hrow : ledger.rows position = none) : Pins heap ledger store position none
  | live {id slots : Nat} {page : Bytes} {row : Row}
      (hk : heap.pages[position / SLOTS_PER_PAGE]? = some (id, slots))
      (hslot : position % SLOTS_PER_PAGE < slots) (hbody : store.body id = some page)
      (hkeeps : PageKeeps page slots (ledger.onPage (position / SLOTS_PER_PAGE)))
      (hrow : ledger.rows position = some row) :
      Pins heap ledger store position (some (id, page, slotOffset page (position % SLOTS_PER_PAGE)))

/-- Pinning for a position answers the page that holds it, or refuses one out of range. -/
theorem pinFor_spec (h : heap.Stores ledger store) (position : Nat) :
    (pinFor heap position).wp zeroPage
      (fun r store' => store' = store ∧ Pins heap ledger store position r) store := by
  have hblank : position ∉ ledger.handed → Pins heap ledger store position none := fun hnot =>
    .nothing (h.blank position hnot)
  unfold pinFor
  cases hk : heap.pages[position / SLOTS_PER_PAGE]? with
  | none =>
    refine ⟨rfl, hblank fun hin => ?_⟩
    obtain ⟨id, slots, hk', -⟩ := h.mem_handed.mp hin
    rw [hk] at hk'
    exact absurd hk' (by simp)
  | some entry =>
    obtain ⟨id, slots⟩ := entry
    dsimp only
    split
    · next hslot =>
      refine ⟨rfl, hblank fun hin => ?_⟩
      obtain ⟨id', slots', hk', hlt⟩ := h.mem_handed.mp hin
      obtain ⟨rfl, rfl⟩ := Prod.mk.inj (Option.some.inj (hk'.symm.trans hk))
      omega
    · next hslot =>
      have hslot := Nat.lt_of_not_le hslot
      obtain ⟨page, hbody, hkeeps⟩ := h.pages _ id slots hk
      have hrow : ledger.onPage (position / SLOTS_PER_PAGE) (position % SLOTS_PER_PAGE)
          = ledger.rows position := congrArg ledger.rows (position_join position)
      have hzero := hkeeps.offset_eq_zero hslot
      rw [hrow] at hzero
      simp only [readPage, PageM.bind_eq, PageM.bind, PageM.wp, hbody]
      refine ⟨.inl rfl, rfl, ?_⟩
      split
      · next hoffset => exact .nothing (hzero.mp hoffset)
      · next hoffset =>
        obtain ⟨row, hlive⟩ := Option.ne_none_iff_exists'.mp fun hnone => hoffset (hzero.mpr hnone)
        exact .live hk hslot hbody hkeeps hlive

/-- A row is gone from its position, and nothing else has changed. -/
theorem heapMarkDeleted_spec (h : heap.Stores ledger store) (position : Nat) :
    (heapMarkDeleted position).wp zeroPage
      (fun _ heap' store' => heap'.Stores (ledger.strike position) store') heap store := by
  unfold heapMarkDeleted
  rw [Action.wp_bind, Action.wp_get]
  dsimp only
  rw [Action.wp_bind, Action.wp_lift]
  refine PageM.wp_mono (pinFor_spec h position) fun r store' hpins => ?_
  obtain ⟨rfl, hpins⟩ := hpins
  cases hpins with
  | nothing hrow =>
    show heap.Stores (ledger.strike position) store'
    rw [Heap.Stores.strike_none hrow]
    exact h
  | live hk hslot hbody hkeeps hrow =>
    dsimp only
    rw [Action.wp_bind, Action.wp_lift]
    refine ⟨by rw [hbody]; rfl, ?_⟩
    exact h.strike hk hslot (by rw [hrow]; rfl) (hkeeps.clear hslot)

/-- Rows that leave room for their slots are read back. -/
theorem heapRead_spec (h : heap.Stores ledger store)
    (hfits : ∀ position row, ledger.rows position = some row → recordSize row ≤ FITTING)
    (position : Nat) :
    (heapRead heap position).wp zeroPage
      (fun r _ => r = (ledger.rows position).map (List.map Value.recorded)) store := by
  unfold heapRead
  rw [PageM.bind_eq, PageM.wp_bind]
  refine PageM.wp_mono (pinFor_spec h position) fun r store' hpins => ?_
  obtain ⟨rfl, hpins⟩ := hpins
  cases hpins with
  | nothing hrow =>
    rw [hrow]
    rfl
  | live hk hslot hbody hkeeps hrow =>
    have hjoined : ledger.onPage (position / SLOTS_PER_PAGE) (position % SLOTS_PER_PAGE)
        = some _ := (congrArg ledger.rows (position_join position)).trans hrow
    rw [hrow]
    exact congrArg some (hkeeps.reads hslot hjoined (hfits position _ hrow))

end

/-! ### Runs -/

/-- After any run, the heap's pages are what its ledger says, as far as they can be. -/
theorem HeapRun.Reached.stores {run : HeapRun} (h : run.Reached) :
    ∃ store, run.pool.Serves store ∧ run.heap.Stores run.ledger store := by
  induction h with
  | @start pool store table hserves => exact ⟨store, hserves, .clear table store⟩
  | @insert run row position heap pool before columns inserted ih =>
    obtain ⟨store, hserves, hstores⟩ := ih
    obtain ⟨store', hdone, hserves'⟩ :=
      hserves.action (heapInsert_spec hserves.sound hstores columns)
    rw [inserted] at hdone hserves'
    exact ⟨store', hserves', hdone⟩
  | @delete run answer heap pool position before deleted ih =>
    obtain ⟨store, hserves, hstores⟩ := ih
    obtain ⟨store', hdone, hserves'⟩ := hserves.action (heapMarkDeleted_spec hstores position)
    rw [deleted] at hdone hserves'
    exact ⟨store', hserves', hdone⟩
  | @elsewhere run pool store' before serves spared ih =>
    obtain ⟨store, hserves, hstores⟩ := ih
    refine ⟨store', serves, hstores.congr fun entry hentry => ?_⟩
    obtain ⟨k, hk⟩ := List.mem_iff_getElem?.mp hentry
    obtain ⟨page, hpage, -⟩ := hstores.pages k entry.1 entry.2 hk
    -- what the pool shows of a page is what the store has
    rw [spared entry hentry, hpage]
    exact hserves.refines.look hpage

section
variable {pool : Pool Bytes} {heap : Heap} {ledger : Ledger} {store : Store Bytes}

/-- While no row is longer than fits, a heap in order reads back what was put in. -/
theorem Heap.Stores.keeps (h : heap.Stores ledger store) (hserves : pool.Serves store)
    (hfits : ∀ position row, ledger.rows position = some row → recordSize row ≤ FITTING) :
    HeapKeeps pool heap ledger := by
  refine ⟨?_, ?_, h.nodup, h.live, h.slots, ?_⟩
  · intro k id slots hk
    obtain ⟨page, hpage, hkeeps⟩ := h.pages k id slots hk
    exact ⟨page, hserves.refines.look hpage, hkeeps.laidOut fun slot _ row hrow => hfits _ row hrow⟩
  · intro position
    obtain ⟨store', hread, -⟩ := hserves.onPool (heapRead_spec h hfits position)
    exact hread
  · intro k id slots hk
    have hcount := positionsFrom_count h.few (n := 0) hk
    rw [Nat.zero_add] at hcount
    rw [h.handed]
    exact hcount.symm

/-- A record too large for its slot lies across the directory. -/
theorem HeapKeeps.fits (h : HeapKeeps pool heap ledger) (hstores : heap.Stores ledger store)
    {position : Nat} {row : Row} (hrow : ledger.rows position = some row) :
    recordSize row ≤ FITTING := by
  have hin : position ∈ ledger.handed := by
    by_contra hnot
    rw [hstores.blank position hnot] at hrow
    exact absurd hrow (by simp)
  obtain ⟨id, slots, hk, hslot⟩ := hstores.mem_handed.mp hin
  obtain ⟨page, -, hlaid⟩ := h.laidOut _ id slots hk
  refine PageKeeps.overlaps hlaid hslot ?_
  exact (congrArg ledger.rows (position_join position)).trans hrow

end

/-- After any run of insertions and deletions, a heap has what it was given if and only if no row
in it takes more than a fresh page has beside the row's slot. -/
theorem heap_keeps_iff {run : HeapRun} (h : run.Reached) :
    HeapKeeps run.pool run.heap run.ledger ↔
      ∀ position row, run.ledger.rows position = some row → recordSize row ≤ FITTING := by
  obtain ⟨store, hserves, hstores⟩ := h.stores
  constructor
  · exact fun hkeeps position row hrow => hkeeps.fits hstores hrow
  · exact fun hfits => hstores.keeps hserves hfits

/-- A row that is not too large goes in. -/
theorem HeapRun.Reached.exists_insert {run : HeapRun} (h : run.Reached) (row : Row)
    (hcols : row.length ≤ MAX_COLS)
    (haccepted : recordSize row ≤ PAGE_SIZE - PAGE_HEADER - SLOT_WIDTH) :
    ∃ run' position, HeapRun.Reached run' ∧ run'.ledger = run.ledger.enter position row := by
  obtain ⟨store, hserves, hstores⟩ := h.stores
  rcases hrun : onPool (heapInsert row run.heap) run.pool with ⟨⟨answer, heap⟩, pool⟩
  cases answer with
  | ok position => exact ⟨_, position, .insert h hcols hrun, rfl⟩
  | error code =>
    obtain ⟨store', hdone, -⟩ :=
      hserves.action (heapInsert_spec hserves.sound hstores hcols)
    rw [hrun] at hdone
    exact absurd hdone.2 (Nat.not_lt.mpr haccepted)

/-- A deletion comes to an end. -/
theorem HeapRun.Reached.exists_delete {run : HeapRun} (h : run.Reached) (position : Nat) :
    ∃ run', HeapRun.Reached run' ∧ run'.ledger = run.ledger.strike position := by
  rcases hrun : onPool (heapMarkDeleted position run.heap) run.pool with ⟨⟨answer, heap⟩, pool⟩
  exact ⟨_, .delete position h hrun, rfl⟩

/-- A heap without a row. -/
theorem exists_empty : ∃ run, HeapRun.Reached run ∧ run.ledger = Ledger.blank :=
  ⟨_, .start (Name.ofBytes []) (startPool_inOrder.serves fun id hid =>
    absurd hid (by simp [startPool])), rfl⟩

/-- Three rows, of which the first is deleted before the last goes in. -/
theorem heap_keeps_several : ∃ run first second third, HeapRun.Reached run ∧
    run.ledger.handed = [first, second, third] ∧ run.ledger.rows first = none ∧
    run.ledger.rows second = some [setText [104, 105]] ∧
    run.ledger.rows third = some [setText [7]] ∧ HeapKeeps run.pool run.heap run.ledger := by
  obtain ⟨run₀, h₀, hledger₀⟩ := exists_empty
  obtain ⟨run₁, first, h₁, hledger₁⟩ := h₀.exists_insert [setText [97]] (by decide) (by decide)
  obtain ⟨run₂, second, h₂, hledger₂⟩ :=
    h₁.exists_insert [setText [104, 105]] (by decide) (by decide)
  obtain ⟨run₃, h₃, hledger₃⟩ := h₂.exists_delete first
  obtain ⟨run₄, third, h₄, hledger₄⟩ := h₃.exists_insert [setText [7]] (by decide) (by decide)
  rw [hledger₃, hledger₂, hledger₁, hledger₀] at hledger₄
  have hhanded : run₄.ledger.handed = [first, second, third] := by
    rw [hledger₄]
    rfl
  -- no position is handed out twice
  obtain ⟨store, -, hstores⟩ := h₄.stores
  have hnodup := hstores.nodup
  rw [hhanded] at hnodup
  have hne : second ≠ first ∧ third ≠ first ∧ third ≠ second := by
    simp only [List.nodup_cons, List.mem_cons, List.not_mem_nil, or_false, not_or] at hnodup
    exact ⟨Ne.symm hnodup.1.1, Ne.symm hnodup.1.2, Ne.symm hnodup.2.1⟩
  have hrows : ∀ position, run₄.ledger.rows position =
      if position = third then some [setText [7]]
      else if position = first then none
      else if position = second then some [setText [104, 105]] else none := by
    intro position
    rw [hledger₄, Ledger.enter_rows]
    unfold Ledger.strike
    simp only [Function.update_apply, Ledger.enter_rows, Ledger.blank_rows]
    by_cases hfirst : position = first
    · simp [hfirst]
    · simp [hfirst]
  refine ⟨run₄, first, second, third, h₄, hhanded, ?_, ?_, ?_, (heap_keeps_iff h₄).mpr ?_⟩
  · rw [hrows, if_neg (Ne.symm hne.2.1), if_pos rfl]
  · rw [hrows, if_neg (Ne.symm hne.2.2), if_neg hne.1, if_pos rfl]
  · rw [hrows, if_pos rfl]
  · intro position row hrow
    rw [hrows] at hrow
    split at hrow
    · rw [← Option.some.inj hrow]
      decide
    · split at hrow
      · exact absurd hrow (by simp)
      · split at hrow
        · rw [← Option.some.inj hrow]
          decide
        · exact absurd hrow (by simp)

/-- A text of 8170 bytes is accepted, and lies across its own slot. -/
theorem heap_overlaps :
    ¬∀ run : HeapRun, run.Reached → HeapKeeps run.pool run.heap run.ledger := by
  intro hkeeps
  obtain ⟨text, hlength⟩ : ∃ text : List UInt8, text.length = 8170 :=
    ⟨List.replicate 8170 97, List.length_replicate⟩
  have hsize : recordSize [setText text] = 8176 := by
    show 2 + (4 + text.length + 0) = 8176
    rw [hlength]
  obtain ⟨run₀, h₀, -⟩ := exists_empty
  obtain ⟨run, position, hrun, hledger⟩ := h₀.exists_insert [setText text]
    (Nat.le_of_ble_eq_true rfl) (by rw [hsize]; decide)
  obtain ⟨store, -, hstores⟩ := hrun.stores
  have hrow : run.ledger.rows position = some [setText text] := by simp [hledger]
  have hfits := (hkeeps run hrun).fits hstores hrow
  rw [hsize] at hfits
  exact absurd hfits (by decide)

end DatabaseEngine
