import DatabaseEngine.Proofs.Codec.Chain

/-!
# `DatabaseEngine.Proofs.Codec.RoundTrip`: the catalog through its chain of pages

The chain is written and read through the pool, page by page, over whatever chain there was.

* `catalogChain_returns`: what was written is what is read. The new chain begins with pages of the
  old one; it goes on with pages nobody had, or the old one goes on with pages that are freed, each
  of them once.
-/

set_option autoImplicit false

namespace DatabaseEngine

open Library

/-- The trace changes nothing on the pool. -/
theorem onPool_traced {γ : Type} (x : PageM Bytes γ) (p : Pool Bytes) :
    (onPool x.traced p).1.1 = (onPool x p).1 ∧ (onPool x.traced p).2 = (onPool x p).2 := by
  induction x generalizing p with
  | pure a => exact ⟨rfl, rfl⟩
  | alloc next ih => exact ih _ _
  | read id next ih =>
    simp only [PageM.traced, onPool]
    rcases poolPin id p with ⟨_ | i, q⟩ <;> exact ih _ _
  | write id body next ih =>
    simp only [PageM.traced, onPool]
    rcases poolPin id p with ⟨_ | i, q⟩ <;> exact ih _
  | free id next ih =>
    simp only [PageM.traced, onPool, onPool_bind]
    exact ih _
  | count next ih => exact ih _ _

/-- For every blob and every chain, or none, that is there before: the writer answers the root of a
chain without a cycle, from which the reader gets the blob. Its pages are the first pages of the old
chain, and, when these were not enough, pages that were not allocated; what is left of the old chain
is freed, each page once and in order. -/
theorem catalogChain_returns {p : Pool Bytes} {s : Store Bytes} {root : UInt32} {ids : List Nat}
    {parts : List (List UInt8)} {memory : Nat} (blob : List UInt8) (h : p.Serves s)
    (hchain : Chain s.body root ids parts) (hnodup : ids.Nodup)
    (hroom : (onPool (writeCatalogChain blob root) p).2.pageCount ≤ 2 ^ 31)
    (hmemory : blob.length ≤ memory) :
    ∃ s' root' kept added released,
      (onPool (writeCatalogChain blob root).traced p).1 = (.ok root', released) ∧
      (onPool (writeCatalogChain blob root) p).1 = .ok root' ∧
      (onPool (writeCatalogChain blob root) p).2.Serves s' ∧
      (∀ fuel, (kept ++ added).length < fuel →
        (onPool (readCatalogChain memory fuel root' [])
          (onPool (writeCatalogChain blob root) p).2).1 = .ok blob) ∧
      (∃ parts', Chain s'.body root' (kept ++ added) parts') ∧ (kept ++ added).Nodup ∧
      ids = kept ++ released ∧ (released = [] ∨ added = []) ∧
      (∀ id ∈ added, ¬s.Allocated id) ∧ s.Moves s' ids (kept ++ added) := by
  obtain ⟨htrace, hpool⟩ := onPool_traced (writeCatalogChain blob root) p
  have hcount : s.count ≤ 2 ^ 31 := by
    have hgrows := (pageCount_grows p.pageCount).onPool (writeCatalogChain blob root)
      (Nat.le_refl _)
    rw [← h.count]
    omega
  have hwithin := PageM.within_count (writeCatalogChain_within blob h.sound hchain hnodup hcount)
    hcount
  obtain ⟨s', ⟨⟨root', ids', released, hanswer, hlaid, hmoves, kept, added, rfl, rfl, hone⟩, hsmall⟩,
    hserves⟩ := h.onPool_within hwithin (hpool ▸ hroom)
  rw [hpool] at hserves
  refine ⟨s', root', kept, added, released, hanswer, ?_, hserves, fun fuel hfuel => ?_,
    ⟨_, hlaid⟩, hmoves.nodup, rfl, hone, fun id hid => ?_, hmoves⟩
  · rw [← htrace, hanswer]
  · have hflatten : (chunks (blob.length + 1) blob).flatten = blob :=
      chunks_flatten _ (Nat.lt_succ_self _)
    have hfits : ([] : List UInt8).length + (chunks (blob.length + 1) blob).flatten.length
        ≤ memory := by
      rw [hflatten]
      simpa using hmemory
    have hlooks := readCatalogChain_looks
      (n := (onPool (writeCatalogChain blob root) p).2.pageCount) fuel [] hlaid
      (fun id hid => Nat.lt_of_lt_of_le (hmoves.allocated id hid).1 hsmall) (chunks_length _ _)
      hfits hfuel
    rw [hflatten] at hlooks
    exact (hserves.refines.looks (hlooks.congr fun id hid => ⟨hlaid.isSome id hid, rfl⟩)).1
  · -- a page behind the old chain is no page of it
    have hnew : id ∉ kept := fun hkept =>
      (List.nodup_append.mp hmoves.nodup).2.2 id hkept id hid rfl
    rcases hmoves.fresh id (List.mem_append_right _ hid) with hold | hfree
    · rcases hone with rfl | rfl
      · exact absurd (by simpa using hold) hnew
      · exact absurd hid (by simp)
    · exact hfree

/-- More bytes than a page takes. -/
def twoPages : List UInt8 := List.replicate 9000 7

/-- Two pages, in a pool that had none. -/
def grownPool : Pool Bytes := (onPool (writeCatalogChain twoPages INVALID_CATALOG) startPool).2

/-- Three bytes in their place. -/
def shrunkPool : Pool Bytes := (onPool (writeCatalogChain [1, 2, 3] 0) grownPool).2

/-- The two pages again. -/
def regrownPool : Pool Bytes := (onPool (writeCatalogChain twoPages 0) shrunkPool).2

/-- A chain of two pages is cut to one and grows to two again. -/
theorem resized_pages :
    (onPool (writeCatalogChain twoPages INVALID_CATALOG) startPool).1 = .ok 0 ∧
      grownPool.pageCount = 2 ∧
      (onPool (writeCatalogChain [1, 2, 3] 0).traced grownPool).1 = (.ok 0, [1]) ∧
      shrunkPool.pageCount = 2 ∧ (onPool (writeCatalogChain twoPages 0) shrunkPool).1 = .ok 0 ∧
      regrownPool.pageCount = 2 := by
  decide +kernel

/-- A chain of two pages that shrinks to one, the second page being freed, and grows again: each
blob is read back. -/
theorem catalogChain_returns_resized :
    (∀ fuel, 2 < fuel →
      (onPool (readCatalogChain 9000 fuel 0 []) grownPool).1 = .ok twoPages) ∧
      (onPool (writeCatalogChain [1, 2, 3] 0).traced grownPool).1 = (.ok 0, [1]) ∧
      (∀ fuel, 1 < fuel →
        (onPool (readCatalogChain 3 fuel 0 []) shrunkPool).1 = .ok [1, 2, 3]) ∧
      ∀ fuel, 2 < fuel →
        (onPool (readCatalogChain 9000 fuel 0 []) regrownPool).1 = .ok twoPages := by
  obtain ⟨hroot₁, hcount₁, hshrunk, hcount₂, hroot₃, hcount₃⟩ := resized_pages
  have hmemory : twoPages.length ≤ 9000 := Nat.le_of_eq List.length_replicate
  have hroom : ∀ {p : Pool Bytes}, p.pageCount = 2 → p.pageCount ≤ 2 ^ 31 := by
    intro p hcount
    rw [hcount]
    decide
  -- a chain has at most as many pages as there are
  have hlength : ∀ {p : Pool Bytes} {s : Store Bytes} {root : UInt32} {ids : List Nat}
      {parts : List (List UInt8)}, p.Serves s → Chain s.body root ids parts → ids.Nodup →
      p.pageCount = 2 → ids.length ≤ 2 := by
    intro p s root ids parts hserves hchain hnodup hcount
    rw [← hcount, hserves.count]
    exact length_le_count hserves.sound hnodup hchain.isSome
  unfold grownPool at hcount₁
  unfold shrunkPool at hcount₂
  unfold regrownPool at hcount₃
  have hserves := startPool_inOrder.serves (by simp [startPool])
  obtain ⟨s₁, root₁, kept₁, added₁, _, _, hok₁, hserves₁, hread₁, ⟨parts₁, hchain₁⟩, hnodup₁, _⟩ :=
    catalogChain_returns twoPages hserves .nil List.nodup_nil (hroom hcount₁) hmemory
  obtain rfl : root₁ = 0 := Except.ok.inj (hok₁.symm.trans hroot₁)
  have hlength₁ := hlength hserves₁ hchain₁ hnodup₁ hcount₁
  have hserves₁ : grownPool.Serves s₁ := hserves₁
  obtain ⟨s₂, root₂, kept₂, added₂, released, htrace, hok₂, hserves₂, hread₂, ⟨parts₂, hchain₂⟩,
    hnodup₂, hsplit, hone, _⟩ :=
    catalogChain_returns [1, 2, 3] hserves₁ hchain₁ hnodup₁ (hroom hcount₂) (Nat.le_refl 3)
  obtain ⟨hanswer, rfl⟩ := Prod.mk.inj (htrace.symm.trans hshrunk)
  obtain rfl : root₂ = 0 := Except.ok.inj hanswer
  obtain rfl : added₂ = [] := hone.resolve_left (by simp)
  have hserves₂ : shrunkPool.Serves s₂ := hserves₂
  have hone₂ : (kept₂ ++ []).length ≤ 1 := by
    rw [hsplit, List.length_append, List.length_singleton] at hlength₁
    rw [List.append_nil]
    omega
  obtain ⟨s₃, root₃, kept₃, added₃, _, _, hok₃, hserves₃, hread₃, ⟨parts₃, hchain₃⟩, hnodup₃, _⟩ :=
    catalogChain_returns twoPages hserves₂ hchain₂ hnodup₂ (hroom hcount₃) hmemory
  obtain rfl : root₃ = 0 := Except.ok.inj (hok₃.symm.trans hroot₃)
  have hlength₃ := hlength hserves₃ hchain₃ hnodup₃ hcount₃
  exact ⟨fun fuel hfuel => hread₁ fuel (Nat.lt_of_le_of_lt hlength₁ hfuel), hshrunk,
    fun fuel hfuel => hread₂ fuel (Nat.lt_of_le_of_lt hone₂ hfuel),
    fun fuel hfuel => hread₃ fuel (Nat.lt_of_le_of_lt hlength₃ hfuel)⟩

end DatabaseEngine
