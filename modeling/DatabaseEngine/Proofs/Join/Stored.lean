import DatabaseEngine.Model.Answer
import DatabaseEngine.Proofs.Heap.Keeping

/-!
# `DatabaseEngine.Proofs.Join.Stored`: the join heap gives back the rows of a join

The rows of a join go through the pages of a heap before anything else of the SELECT sees them.

* `insertRows_spec`: rows that go in one after another are listed in this order.
* `scanRecords_spec`: a scan reads the rows that are listed.
* `joinHeapRows_fitting`: rows that leave room for their slots come back as records know them.
* `throughHeap_onPool`: so they do on the pool, whatever else is in it.
-/

set_option autoImplicit false

namespace DatabaseEngine

open Library

/-- The rows that have not been deleted, in the order in which they were given. -/
def Ledger.listed (ledger : Ledger) : List Row := ledger.handed.filterMap ledger.rows

/-- A row that is entered comes last. -/
theorem Ledger.listed_enter {ledger : Ledger} {position : Nat} (row : Row)
    (hnew : position ∉ ledger.handed) :
    (ledger.enter position row).listed = ledger.listed ++ [row] := by
  show (ledger.handed ++ [position]).filterMap (ledger.enter position row).rows = _
  rw [List.filterMap_append]
  have hold : ledger.handed.filterMap (ledger.enter position row).rows = ledger.listed := by
    refine List.filterMap_congr fun other hother => ?_
    have hne : other ≠ position := fun heq => hnew (heq ▸ hother)
    rw [Ledger.enter_rows, if_neg hne]
  have hlast : [position].filterMap (ledger.enter position row).rows = [row] :=
    List.filterMap_cons_some (by rw [Ledger.enter_rows, if_pos rfl])
  rw [hold, hlast]

section
variable {heap : Heap} {ledger : Ledger} {store : Store Bytes} {rows : List Row}

/-- The row at a position is one of those that are listed. -/
theorem Heap.Stores.mem_listed (h : heap.Stores ledger store) {position : Nat} {row : Row}
    (hrow : ledger.rows position = some row) : row ∈ ledger.listed := by
  have hin : position ∈ ledger.handed := by
    by_contra hnot
    rw [h.blank position hnot] at hrow
    exact absurd hrow (by simp)
  exact List.mem_filterMap.mpr ⟨position, hin, hrow⟩

/-! ### Rows go in -/

/-- Rows that are small enough go in, one behind the other. -/
theorem insertRows_spec (hs : store.Sound) (h : heap.Stores ledger store)
    (hcols : ∀ row ∈ rows, row.length ≤ MAX_COLS)
    (haccepted : ∀ row ∈ rows, recordSize row ≤ PAGE_SIZE - PAGE_HEADER - SLOT_WIDTH) :
    (insertRows rows).wp zeroPage (fun r heap' store' => r = .ok () ∧
      ∃ ledger', heap'.Stores ledger' store' ∧ ledger'.listed = ledger.listed ++ rows)
      heap store := by
  induction rows generalizing heap ledger store with
  | nil => exact ⟨rfl, ledger, h, (List.append_nil _).symm⟩
  | cons row rest ih =>
    unfold insertRows
    rw [Action.wp_bind]
    have hfirst := heapInsert_spec hs h (hcols row List.mem_cons_self)
    refine PageM.wp_mono (PageM.wp_sound hfirst hs) ?_
    rintro ⟨r, heap₁⟩ store₁ ⟨hinserted, hs₁, -⟩
    cases r with
    | error code => exact absurd hinserted.2 (Nat.not_lt.mpr (haccepted row List.mem_cons_self))
    | ok position =>
      have hstores : heap₁.Stores (ledger.enter position row) store₁ := hinserted
      -- a position is handed out once
      have hnodup : (ledger.handed ++ [position]).Nodup := hstores.nodup
      have hnew : position ∉ ledger.handed := fun hin =>
        (List.nodup_append.mp hnodup).2.2 position hin position (by simp) rfl
      refine PageM.wp_mono (ih hs₁ hstores (fun other ho => hcols other (List.mem_cons_of_mem _ ho))
        fun other ho => haccepted other (List.mem_cons_of_mem _ ho)) ?_
      rintro ⟨r, heap'⟩ store' ⟨hr, ledger', hstores', hlisted⟩
      refine ⟨hr, ledger', hstores', ?_⟩
      rw [hlisted, Ledger.listed_enter row hnew, List.append_assoc]
      rfl

/-! ### A scan reads them -/

section
variable (hfits : ∀ position row, ledger.rows position = some row → recordSize row ≤ FITTING)
include hfits

/-- The slots of one page, from a slot on. -/
theorem scanSlots_records {page : Bytes} {k slots base : Nat}
    (hkeeps : PageKeeps page slots (ledger.onPage k)) (n slot : Nat) (hn : slot + n = slots)
    (acc : List Row) :
    scanSlots takeRecord page base n slot acc =
      (acc ++ ((List.range' slot n).filterMap (ledger.onPage k)).map (List.map Value.recorded),
        true) := by
  induction n generalizing slot acc with
  | zero => simp [scanSlots]
  | succ n ih =>
    have hslot : slot < slots := by omega
    rw [scanSlots, List.range'_succ]
    cases hrow : ledger.onPage k slot with
    | none =>
      rw [if_pos ((hkeeps.offset_eq_zero hslot).mpr hrow), List.filterMap_cons_none hrow]
      exact ih (slot + 1) (by omega) acc
    | some row =>
      have hlive : slotOffset page slot ≠ 0 := fun hzero => by
        rw [(hkeeps.offset_eq_zero hslot).mp hzero] at hrow
        exact absurd hrow (by simp)
      have hread : readRecord page (slotOffset page slot) = row.map Value.recorded :=
        hkeeps.reads hslot hrow (hfits _ row hrow)
      rw [if_neg hlive, List.filterMap_cons_some hrow]
      show scanSlots takeRecord page base n (slot + 1)
        (acc ++ [readRecord page (slotOffset page slot)]) = _
      rw [ih (slot + 1) (by omega), hread, List.append_assoc]
      rfl

/-- The pages from one on. -/
theorem scanPages_records (n : Nat) {pages : List (Nat × Nat)}
    (hpages : ∀ k id slots, pages[k]? = some (id, slots) →
      ∃ page, store.body id = some page ∧ PageKeeps page slots (ledger.onPage (n + k)))
    (acc : List Row) :
    (scanPages takeRecord n pages acc).wp zeroPage (fun r _ =>
      r = acc ++ ((positionsFrom n pages).filterMap ledger.rows).map (List.map Value.recorded))
      store := by
  induction pages generalizing n acc with
  | nil => exact (List.append_nil _).symm
  | cons entry pages ih =>
    obtain ⟨id, slots⟩ := entry
    obtain ⟨page, hbody, hkeeps⟩ := hpages 0 id slots rfl
    rw [Nat.add_zero] at hkeeps
    have hrest : ∀ k id slots, pages[k]? = some (id, slots) →
        ∃ page, store.body id = some page ∧ PageKeeps page slots (ledger.onPage (n + 1 + k)) := by
      intro k id slots hk
      have hnext := hpages (k + 1) id slots hk
      rwa [show n + (k + 1) = n + 1 + k by omega] at hnext
    have hown : ((List.range slots).map (n * SLOTS_PER_PAGE + ·)).filterMap ledger.rows =
        (List.range' 0 slots).filterMap (ledger.onPage n) := by
      rw [List.filterMap_map, List.range_eq_range']
      rfl
    rw [scanPages, positionsFrom, List.filterMap_append, List.map_append, hown, ← List.append_assoc]
    split
    · next hzero =>
      subst hzero
      rw [List.range'_zero, List.filterMap_nil, List.map_nil, List.append_nil]
      exact ih (n + 1) hrest acc
    · refine ⟨.inl (by rw [hbody]; rfl), ?_⟩
      rw [hbody]
      simp only [PageM.bind]
      rw [scanSlots_records hfits hkeeps slots 0 (Nat.zero_add slots) acc]
      exact ih (n + 1) hrest _

/-- A scan reads the rows that are listed, as records know them. -/
theorem scanRecords_spec (h : heap.Stores ledger store) :
    (scanRecords heap).wp zeroPage
      (fun r _ => r = ledger.listed.map (List.map Value.recorded)) store := by
  have hpages : ∀ k id slots, heap.pages[k]? = some (id, slots) →
      ∃ page, store.body id = some page ∧ PageKeeps page slots (ledger.onPage (0 + k)) := by
    intro k id slots hk
    rw [Nat.zero_add]
    exact h.pages k id slots hk
  have hscan := scanPages_records hfits 0 hpages []
  rw [List.nil_append] at hscan
  unfold Ledger.listed
  rw [h.handed]
  exact hscan

end

/-! ### The join heap -/

/-- The rows of a join that leave room for their slots, on whatever store the heap works. -/
theorem throughHeap_spec (hs : store.Sound) (table : Name)
    (hcols : ∀ row ∈ rows, row.length ≤ MAX_COLS)
    (hfits : ∀ row ∈ rows, recordSize row ≤ FITTING) :
    (throughHeap rows).wp zeroPage
      (fun r _ _ => r = .ok (rows.map (List.map Value.recorded))) (clearHeap table) store := by
  have hfitting : FITTING ≤ PAGE_SIZE - PAGE_HEADER - SLOT_WIDTH := by decide
  unfold throughHeap
  rw [Action.wp_bind]
  refine Action.wp_mono (insertRows_spec hs (.clear table store) hcols
    fun row hrow => Nat.le_trans (hfits row hrow) hfitting) fun r heap' store' hinserted => ?_
  obtain ⟨rfl, ledger, hstores, hlisted⟩ := hinserted
  have hrows : ledger.listed = rows := hlisted
  dsimp only
  rw [Action.wp_bind, Action.wp_get]
  dsimp only
  rw [Action.wp_lift]
  have hsmall : ∀ position row, ledger.rows position = some row → recordSize row ≤ FITTING :=
    fun position row hrow => hfits row (hrows ▸ hstores.mem_listed hrow)
  refine PageM.wp_mono (scanRecords_spec hsmall hstores) fun found _ hfound => ?_
  rw [hfound, hrows]

/-- The join heap has the rows of the join. -/
theorem joinHeapRows_fitting (table : Name) (hcols : ∀ row ∈ rows, row.length ≤ MAX_COLS)
    (hfits : ∀ row ∈ rows, recordSize row ≤ FITTING) :
    joinHeapRows table rows = .ok (rows.map (List.map Value.recorded)) := by
  have hsound : Store.Sound { count := 0, free := [], body := fun _ : Nat => (none : Option Bytes) } :=
    ⟨fun id hid => absurd hid (by simp), List.nodup_nil, fun _ _ => rfl⟩
  exact PageM.wp_run (throughHeap_spec hsound table hcols hfits)

/-- On the pool of the engine, whatever else is in it, the join heap has the same rows. -/
theorem throughHeap_onPool {pool : Pool Bytes} (hserves : pool.Serves store) (table : Name)
    (hcols : ∀ row ∈ rows, row.length ≤ MAX_COLS)
    (hfits : ∀ row ∈ rows, recordSize row ≤ FITTING) :
    (onPool (throughHeap rows (clearHeap table)) pool).1.1 = joinHeapRows table rows := by
  obtain ⟨_, hdone, -⟩ :=
    hserves.action (throughHeap_spec hserves.sound table hcols hfits)
  rw [hdone, joinHeapRows_fitting table hcols hfits]

end

end DatabaseEngine
