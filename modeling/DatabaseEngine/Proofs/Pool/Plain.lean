import DatabaseEngine.Proofs.Pool.Client

/-!
# `DatabaseEngine.Proofs.Pool.Plain`: page programs on the pool are page programs on a map

`Pool.Serves` relates the pool to the plain store: the same ids in use and on the free list,
the same contents, and no freed page resident. A program whose requests are legal on the
store runs the same on the pool.

* `Serves.onPool`: what `PageM.wp` promises of the store, the pool keeps, and it goes on to
  serve the store that results; `Serves.onPool_within` is the same below a limit of page ids.
* `Serves.action`: the same for a step of the engine.
-/

set_option autoImplicit false

namespace DatabaseEngine

open Library

/-- The pool holds the pages of a store. -/
structure Pool.Serves (p : Pool Bytes) (s : Store Bytes) : Prop where
  refines : p.Refines ⟨s.body, fun _ => false⟩
  count : p.pageCount = s.count
  free : p.freeIds = s.free
  /-- An id on the free list is in no frame, so it can be handed out. -/
  freeAbsent : ∀ id ∈ s.free, p.pageFrame id = none

namespace Pool.Serves

variable {p q : Pool Bytes} {s : Store Bytes} {id i : Nat}

/-- The store that a pool serves is sound. -/
theorem sound (h : p.Serves s) : s.Sound where
  freeInRange id hid := by
    rw [← h.count]
    exact h.refines.freeInRange id (h.free ▸ hid)
  freeNodup := h.free ▸ h.refines.freeNodup
  unallocated id hid := h.refines.unallocated id fun hal => hid (by
    unfold Store.Allocated
    rw [← h.count, ← h.free]
    exact hal)

/-- A page with contents in the store is allocated in the pool. -/
theorem allocated (h : p.Serves s) (hid : (s.body id).isSome) : p.Allocated id := by
  have hal := h.sound.allocated hid
  unfold Store.Allocated at hal
  rw [← h.count, ← h.free] at hal
  exact hal

/-- A pin of a page in use answers its contents and touches no freed page. -/
theorem pin (h : p.Serves s) {b : Bytes} (hb : s.body id = some b) :
    ∃ i q, poolPin id p = (some i, q) ∧ q.pageFrame id = some i ∧
      (q.pageIn i).map Page.body = some b ∧ q.Serves s ∧ 0 < q.pinsOf id := by
  rcases hpin : poolPin id p with ⟨answer, q⟩
  obtain ⟨hq, hres, hbody⟩ := h.refines.pin hpin
  obtain ⟨i, rfl, hpage⟩ := hbody b hb
  obtain ⟨hcount, hfree⟩ := poolPin_ids hpin
  have hal := h.allocated (by rw [hb]; rfl)
  refine ⟨i, q, rfl, hres i rfl, hpage, ⟨hq, hcount.trans h.count, hfree.trans h.free, ?_⟩, ?_⟩
  · intro other hother
    have hne : other ≠ id := by
      rintro rfl
      exact hal.2 (h.free ▸ hother)
    have habsent := h.freeAbsent other hother
    rcases poolPin_cases hpin with ⟨hnone, -, -⟩ | ⟨j, -, -, -, rfl⟩ |
      ⟨r, -, -, hrun, -, ⟨hnone, -, -⟩ | ⟨j, f, page, -, -, -, -, rfl⟩⟩
    · exact absurd hnone (by simp)
    · exact habsent
    · exact absurd hnone (by simp)
    · have hr : r.pageFrame other = none :=
        hrun.keeps (fun p => p.pageFrame other = none) (fun _ _ hmove h => hmove.absent h) habsent
      simpa [Pool.place, Pool.setDirectory, Pool.setFrame, hne] using hr
  · rcases poolPin_cases hpin with ⟨hnone, -, -⟩ | ⟨j, -, -, hdir, rfl⟩ |
      ⟨r, -, -, -, -, ⟨hnone, -, -⟩ | ⟨j, f, page, -, hf, -, -, rfl⟩⟩
    · exact absurd hnone (by simp)
    · obtain ⟨f, hf, -⟩ := h.refines.frame_of_resident hdir
      simp [Pool.pinsOf, findFrame, hdir, hf]
    · exact absurd hnone (by simp)
    · simp [Pool.pinsOf, findFrame, Pool.place, Pool.setDirectory, Pool.setFrame,
        lt_of_getElem? hf]

/-- A page out of range is refused and changes nothing. -/
theorem pin_outside (h : p.Serves s) (hid : s.count ≤ id) : poolPin id p = (none, p) := by
  unfold poolPin
  rw [if_neg (by rw [h.count]; omega)]

/-- Only the frames of a page have changed. -/
theorem unpinned (h : p.Serves s) {dirty : Bool} {m : Nat → Option Bytes}
    (href : (poolUnpin id dirty p).Refines ⟨m, fun _ => false⟩) :
    (poolUnpin id dirty p).Serves { s with body := m } := by
  obtain ⟨hcount, hfree⟩ := poolUnpin_ids p id dirty
  refine ⟨href, hcount.trans h.count, hfree.trans h.free, fun other hother => ?_⟩
  have habsent := h.freeAbsent other hother
  unfold poolUnpin
  split <;> exact habsent

/-- A read of the store is a pin and an unpin. -/
theorem read (h : p.Serves s) {b : Bytes} (hb : s.body id = some b) :
    ∃ i q, poolPin id p = (some i, q) ∧ (q.pageIn i).map Page.body = some b ∧
      (poolUnpin id false q).Serves s := by
  obtain ⟨i, q, hpin, -, hpage, hq, -⟩ := h.pin hb
  exact ⟨i, q, hpin, hpage, hq.unpinned (h.refines.visited hpin)⟩

/-- A write of the store is a pin, a change of the frame and an unpin. -/
theorem write (h : p.Serves s) (hid : (s.body id).isSome) (page : Bytes → Page Bytes)
    (b : Bytes) (hpage : ∀ old, (page old).body = b) :
    ∃ i q, poolPin id p = (some i, q) ∧ ∀ old,
      (poolUnpin id true (poolStore id (page old) q)).Serves (s.write id b) := by
  obtain ⟨old, hold⟩ := Option.isSome_iff_exists.mp hid
  obtain ⟨i, q, hpin, hres, -, hq, hpins⟩ := h.pin hold
  refine ⟨i, q, hpin, fun old => ?_⟩
  have hal := hq.allocated hid
  have hstored := @Pool.Refines.store _ _ _ _ _ (page old) hq.refines hal hpins
  have hkept : (poolStore id (page old) q).pageCount = q.pageCount ∧
      (poolStore id (page old) q).freeIds = q.freeIds ∧
      (poolStore id (page old) q).pageFrame = q.pageFrame := by
    unfold poolStore
    split <;> exact ⟨rfl, rfl, rfl⟩
  have hal' : (poolStore id (page old) q).Allocated id := by
    unfold Pool.Allocated
    rw [hkept.1, hkept.2.1]
    exact hal
  have hdirty := hstored.unpinDirty hal'
  have hmap : ((((⟨s.body, fun _ => false⟩ : PageMap Bytes).setBody id (some (page old).body)).setOwed
      id true).setOwed id false) = ⟨Function.update s.body id (some b), fun _ => false⟩ := by
    rw [hpage]
    simp [PageMap.setBody, PageMap.setOwed]
  rw [hmap] at hdirty
  obtain ⟨hcount, hfree⟩ := poolUnpin_ids (poolStore id (page old) q) id true
  refine ⟨hdirty, (hcount.trans hkept.1).trans hq.count,
    (hfree.trans hkept.2.1).trans hq.free, fun other hother => ?_⟩
  have habsent := hq.freeAbsent other hother
  rw [← hkept.2.2] at habsent
  unfold poolUnpin
  split <;> exact habsent

/-- An allocation in the store is one in the pool. -/
theorem alloc (h : p.Serves s) :
    (poolAllocate p).1 = s.nextId ∧ (poolAllocate p).2.Serves (s.alloc zeroPage) := by
  rcases halloc : poolAllocate p with ⟨id, q⟩
  have hfresh : ∀ top ∈ p.freeIds.head?, p.pageFrame top = none := by
    intro top htop
    refine h.freeAbsent top ?_
    rw [← h.free]
    exact List.mem_of_mem_head? htop
  have href := (h.refines.allocate halloc hfresh).1
  obtain ⟨r, i, f, hrun, hf, hfree, rfl, rfl⟩ := poolAllocate_cases halloc
  obtain ⟨hcount, hids⟩ := hrun.ids
  have hnext : r.nextId = s.nextId := by
    simp only [Pool.nextId, Store.nextId, hcount, hids, h.count, h.free]
  refine ⟨hnext, ⟨?_, ?_, ?_, ?_⟩⟩
  · have hmap : ((⟨s.body, fun _ => false⟩ : PageMap Bytes).setBody r.nextId
        (some PageBody.zero)).setOwed r.nextId false =
        ⟨(s.alloc zeroPage).body, fun _ => false⟩ := by
      rw [hnext]
      simp only [PageMap.setBody, PageMap.setOwed, Store.alloc]
      congr 1
      simp
    rw [← hmap]
    exact href
  · show (if r.freeIds.isEmpty then r.pageCount + 1 else r.pageCount) = _
    rw [hids, hcount, h.free, h.count]
    rfl
  · show r.freeIds.tail = s.free.tail
    rw [hids, h.free]
  · intro other hother
    have hin : other ∈ s.free := List.mem_of_mem_tail hother
    have hne : other ≠ r.nextId := by
      rw [hnext]
      rintro rfl
      have hnodup := h.sound.freeNodup
      unfold Store.nextId at hother
      cases hs : s.free with
      | nil =>
        rw [hs] at hin
        exact absurd hin (by simp)
      | cons top rest =>
        rw [hs] at hnodup
        simp only [Store.alloc, hs, List.tail_cons, List.headD_cons] at hother
        exact (List.nodup_cons.mp hnodup).1 hother
    have hr : r.pageFrame other = none :=
      hrun.keeps (fun p => p.pageFrame other = none) (fun _ _ hmove h => hmove.absent h)
        (h.freeAbsent other hin)
    simpa [Pool.place, Pool.setDirectory, Pool.setFrame, Pool.taken, hne] using hr

/-- A release in the store is a free in the pool. -/
theorem release (h : p.Serves s) (hid : (s.body id).isSome) :
    (poolFree id p).Serves (s.release id) := by
  have href := h.refines.free (h.allocated hid)
  have hmap : ((⟨s.body, fun _ => false⟩ : PageMap Bytes).setBody id none).setOwed id false =
      ⟨(s.release id).body, fun _ => false⟩ := by
    simp [PageMap.setBody, PageMap.setOwed, Store.release]
  rw [hmap] at href
  refine ⟨href, ?_, ?_, fun other hother => ?_⟩
  · unfold poolFree
    split <;> exact h.count
  · unfold poolFree
    split
    · exact congrArg (id :: ·) h.free
    · exact congrArg (id :: ·) h.free
  · unfold poolFree findFrame
    cases hres : p.pageFrame id with
    | none =>
      rcases List.mem_cons.mp hother with rfl | hin
      · exact hres
      · exact h.freeAbsent other hin
    | some i =>
      show Function.update p.pageFrame id none other = none
      rcases List.mem_cons.mp hother with rfl | hin
      · simp
      · by_cases hne : other = id
        · simp [hne]
        · rw [Function.update_of_ne hne]
          exact h.freeAbsent other hin

/-- What a program promises as long as no page id reaches the limit holds of its run on the pool,
when the pool has not passed the limit. -/
theorem onPool_within {γ : Type} {limit : Nat} {x : PageM Bytes γ} {Q : γ → Store Bytes → Prop}
    (h : p.Serves s) (hx : x.within zeroPage limit Q s)
    (hcount : (DatabaseEngine.onPool x p).2.pageCount ≤ limit) :
    ∃ s', Q (DatabaseEngine.onPool x p).1 s' ∧ (DatabaseEngine.onPool x p).2.Serves s' := by
  induction x generalizing p s with
  | pure a => exact ⟨s, hx, h⟩
  | alloc next ih =>
    obtain ⟨hid, hserves⟩ := h.alloc
    unfold DatabaseEngine.onPool at hcount ⊢
    rw [hid] at hcount ⊢
    have hnext : s.nextId < (s.alloc zeroPage).count := (h.sound.nextId_fresh zeroPage).2.1
    have hgrows := (pageCount_grows (poolAllocate p).2.pageCount).onPool (next s.nextId)
      (Nat.le_refl _)
    rw [hserves.count] at hgrows
    exact ih _ hserves (hx (by omega)) hcount
  | read id next ih =>
    obtain ⟨hlegal, hx⟩ := hx
    unfold DatabaseEngine.onPool at hcount ⊢
    cases hb : s.body id with
    | some b =>
      obtain ⟨i, q, hpin, hpage, hq⟩ := h.read hb
      rw [hpin] at hcount ⊢
      dsimp only at hcount ⊢
      rw [hpage] at hcount ⊢
      rw [hb] at hx
      exact ih _ hq hx hcount
    | none =>
      have hout : s.count ≤ id := by simpa [hb] using hlegal
      rw [h.pin_outside hout] at hcount ⊢
      rw [hb] at hx
      exact ih _ h hx hcount
  | write id body next ih =>
    obtain ⟨hlegal, hx⟩ := hx
    obtain ⟨old, hold⟩ := Option.isSome_iff_exists.mp hlegal
    obtain ⟨i, q, hpin, hres, hpage, hq, hpins⟩ := h.pin hold
    unfold DatabaseEngine.onPool at hcount ⊢
    rw [hpin] at hcount ⊢
    dsimp only at hcount ⊢
    obtain ⟨j, q', hpin', hwritten⟩ := h.write hlegal
      (fun _ => ((q.pageIn i).getD Page.zero).rewrite body) body fun _ => rfl
    rw [hpin] at hpin'
    obtain ⟨hj, rfl⟩ := Prod.mk.inj hpin'
    exact ih (hwritten old) hx hcount
  | free id next ih =>
    obtain ⟨hlegal, hx⟩ := hx
    exact ih (h.release hlegal) hx hcount
  | count next ih =>
    unfold DatabaseEngine.onPool at hcount ⊢
    rw [h.count] at hcount ⊢
    exact ih _ h hx hcount

/-- A program whose requests are legal on the store does on the pool what it does there. -/
theorem onPool {γ : Type} {x : PageM Bytes γ} {Q : γ → Store Bytes → Prop} (h : p.Serves s)
    (hx : x.wp zeroPage Q s) :
    ∃ s', Q (DatabaseEngine.onPool x p).1 s' ∧ (DatabaseEngine.onPool x p).2.Serves s' :=
  h.onPool_within (PageM.within_of_wp hx) (Nat.le_refl _)

/-- A step of the engine whose requests are legal on the store. -/
theorem action {σ α : Type} {x : Step σ α} {Q : Except ErrorCode α → σ → Store Bytes → Prop}
    {e : σ} (h : p.Serves s) (hx : x.wp zeroPage Q e s) :
    ∃ s', Q (DatabaseEngine.onPool (x e) p).1.1 (DatabaseEngine.onPool (x e) p).1.2 s' ∧
      (DatabaseEngine.onPool (x e) p).2.Serves s' := h.onPool hx

end Pool.Serves

/-- A pool in order, none of whose freed pages is in a frame, serves what it shows. -/
theorem Pool.InOrder.serves {p : Pool Bytes} (h : p.InOrder)
    (hfree : ∀ id ∈ p.freeIds, p.pageFrame id = none) :
    p.Serves { count := p.pageCount, free := p.freeIds, body := p.contents.body } :=
  ⟨h, rfl, rfl, hfree⟩

end DatabaseEngine
