import DatabaseEngine.Proofs.Pool.Plain
import DatabaseEngine.Model.Session
import Mathlib.Data.List.Perm.Subperm

/-!
# `DatabaseEngine.Proofs.Codec.Chain`: the chain of catalog pages

`Chain` says which pages a chain runs through and which part of the catalog each holds. The
writer reuses the pages that are there, adds pages behind the last one, and releases what is
left over.

* `releaseChain_spec`: the pages of a chain are freed, and no others.
* `writeCatalogChain_spec`: the chain that results holds the bytes; it took its pages from the
  old chain and from the pages nobody had, and every other page is as it was.
* `readCatalogChain_looks`: a reader of the chain gets the bytes.
-/

set_option autoImplicit false

namespace DatabaseEngine

open Library

/-- A chain of pages from `root` on: the pages, and the bytes that each holds. -/
inductive Chain (body : Nat → Option Bytes) : UInt32 → List Nat → List (List UInt8) → Prop
  | nil : Chain body INVALID_CATALOG [] []
  | cons {root : UInt32} {page : Bytes} {ids : List Nat} {parts : List (List UInt8)}
      (hroot : root ≠ INVALID_CATALOG) (hpage : body root.toNat = some page)
      (rest : Chain body (u32At page 0) ids parts) :
      Chain body root (root.toNat :: ids)
        (bytesAt page CATALOG_HEADER (u32At page 4).toNat :: parts)

namespace Chain

variable {body body' : Nat → Option Bytes} {root : UInt32} {ids : List Nat}
  {parts : List (List UInt8)}

/-- Only the pages of the chain matter. -/
theorem congr (h : Chain body root ids parts) (hbody : ∀ id ∈ ids, body' id = body id) :
    Chain body' root ids parts := by
  induction h with
  | nil => exact .nil
  | cons hroot hpage _ ih =>
    refine .cons hroot ((hbody _ (by simp)).trans hpage) ?_
    exact ih fun id hid => hbody id (by simp [hid])

/-- Every page of a chain has contents. -/
theorem isSome (h : Chain body root ids parts) : ∀ id ∈ ids, (body id).isSome := by
  induction h with
  | nil => simp
  | cons _ hpage _ ih =>
    intro id hid
    rcases List.mem_cons.mp hid with rfl | hid
    · rw [hpage]
      rfl
    · exact ih id hid

/-- A chain that has ended has no pages. -/
theorem of_invalid (h : Chain body INVALID_CATALOG ids parts) : ids = [] ∧ parts = [] := by
  generalize hroot : INVALID_CATALOG = root at h
  cases h with
  | nil => exact ⟨rfl, rfl⟩
  | cons hne _ _ => exact absurd hroot.symm hne

/-- A chain that has not ended has a page. -/
theorem of_valid (h : Chain body root ids parts) (hroot : root ≠ INVALID_CATALOG) :
    ∃ page rest parts', ids = root.toNat :: rest ∧ body root.toNat = some page ∧
      Chain body (u32At page 0) rest parts' := by
  cases h with
  | nil => exact absurd rfl hroot
  | cons _ hpage hrest => exact ⟨_, _, _, rfl, hpage, hrest⟩

end Chain

/-- A list of pages without repetition is no longer than the store is large. -/
theorem length_le_count {s : Store Bytes} {ids : List Nat} (hs : s.Sound) (hnodup : ids.Nodup)
    (hbody : ∀ id ∈ ids, (s.body id).isSome) : ids.length ≤ s.count := by
  have hsub : ids ⊆ List.range s.count := fun id hid =>
    List.mem_range.mpr (hs.allocated (hbody id hid)).1
  have := (hnodup.subperm hsub).length_le
  simpa using this

/-! ### Releasing -/

/-- The pages of a chain are freed, one after another. -/
theorem releaseChain_frees {limit : Nat} (fuel : Nat) {s : Store Bytes} {next : UInt32}
    {ids : List Nat} {parts : List (List UInt8)} (hs : s.Sound)
    (hchain : Chain s.body next ids parts) (hnodup : ids.Nodup) (hfuel : ids.length ≤ fuel) :
    (releaseChain fuel next).traced.within zeroPage limit
      (fun r s' => r.2 = ids ∧ s'.Sound ∧ s.Moves s' ids [] ∧ s'.count = s.count) s := by
  induction fuel generalizing s next ids parts with
  | zero =>
    obtain rfl : ids = [] := List.length_eq_zero_iff.mp (by omega)
    exact ⟨rfl, hs, .refl (by simp) (by simp), rfl⟩
  | succ fuel ih =>
    unfold releaseChain
    split
    · rename_i hinvalid
      subst hinvalid
      obtain ⟨rfl, -⟩ := hchain.of_invalid
      exact ⟨rfl, hs, .refl (by simp) (by simp), rfl⟩
    · rename_i hvalid
      obtain ⟨page, rest, parts', rfl, hpage, hrest⟩ := hchain.of_valid hvalid
      have hcons := List.nodup_cons.mp hnodup
      have hall : ∀ id ∈ next.toNat :: rest, s.Allocated id := fun id hid =>
        hs.allocated (hchain.isSome id hid)
      have hsome : (s.body next.toNat).isSome := by rw [hpage]; rfl
      refine ⟨Or.inl hsome, ?_⟩
      rw [hpage]
      refine ⟨hsome, ?_⟩
      have hkept : Chain (s.release next.toNat).body (u32At page 0) rest parts' :=
        hrest.congr fun id hid => by
          have hne : id ≠ next.toNat := fun heq => hcons.1 (heq ▸ hid)
          simp [Store.release, hne]
      rw [PageM.within_bind]
      refine PageM.within_mono (ih (hs.release hsome) hkept hcons.2 (by simpa using hfuel)) ?_
      rintro ⟨⟨⟩, freed⟩ s' ⟨rfl, hsound, hmoves, hcount⟩
      exact ⟨rfl, hsound, (Store.Moves.release hnodup hall).trans hmoves, hcount⟩

/-- All pages of a chain are given back and no other. -/
theorem releaseChain_spec (fuel : Nat) {s : Store Bytes} {next : UInt32} {ids : List Nat}
    {parts : List (List UInt8)} (hs : s.Sound) (hchain : Chain s.body next ids parts)
    (hnodup : ids.Nodup) (hfuel : ids.length ≤ fuel) :
    (releaseChain fuel next).wp zeroPage
      (fun _ s' => s'.Sound ∧ s.Moves s' ids [] ∧ s'.count = s.count) s := by
  have hfrees := @releaseChain_frees (((releaseChain fuel next).run zeroPage s).2.count) fuel _ _ _
    _ hs hchain hnodup hfuel
  refine PageM.wp_of_within (PageM.within_traced.mp ?_) hs (Nat.le_refl _)
  exact PageM.within_mono hfrees fun _ _ h => h.2

/-! ### One page of the chain -/

/-- The bytes of the catalog that a page of the chain holds. -/
def chainPart (page : Bytes) : List UInt8 := bytesAt page CATALOG_HEADER (u32At page 4).toNat

/-- The part that a page was filled with is read from it. -/
theorem chainPart_chainPage {page : Bytes} {chunk : List UInt8}
    (hlen : chunk.length ≤ CATALOG_PAYLOAD) : chainPart (chainPage page chunk) = chunk := by
  have hsmall : (UInt32.ofNat chunk.length).toNat = chunk.length := by
    rw [UInt32.toNat_ofNat']
    refine Nat.mod_eq_of_lt (Nat.lt_of_le_of_lt hlen (by decide))
  unfold chainPart chainPage
  rw [u32At_putU32At, hsmall, bytesAt_putU32At_disjoint (Or.inr (by decide)),
    bytesAt_putBytesAt]

/-- To fill a page leaves its link. -/
theorem next_chainPage (page : Bytes) (chunk : List UInt8) :
    u32At (chainPage page chunk) 0 = u32At page 0 := by
  unfold chainPage
  rw [u32At_putU32At_disjoint (Or.inl (by decide)),
    u32At_putBytesAt_disjoint (Or.inl (by decide))]

/-- The pointer to the next page is no part of the catalog. -/
theorem chainPart_setNext (page : Bytes) (next : UInt32) :
    chainPart (putU32At page 0 next) = chainPart page := by
  unfold chainPart
  rw [u32At_putU32At_disjoint (Or.inr (by decide)), bytesAt_putU32At_disjoint (Or.inr (by decide))]

/-- A page in front of a chain that it leads to. -/
theorem chain_cons {body : Nat → Option Bytes} {id : Nat} {page : Bytes} {ids : List Nat}
    {parts : List (List UInt8)} (hid : id < 2 ^ 31) (hpage : body id = some page)
    (hrest : Chain body (u32At page 0) ids parts) :
    Chain body (UInt32.ofNat id) (id :: ids) (chainPart page :: parts) := by
  have hnat : (UInt32.ofNat id).toNat = id := by
    rw [UInt32.toNat_ofNat']
    exact Nat.mod_eq_of_lt (by omega)
  have hne : UInt32.ofNat id ≠ INVALID_CATALOG := by
    intro heq
    have := congrArg UInt32.toNat heq
    rw [hnat] at this
    rw [this] at hid
    exact absurd hid (by decide)
  have := Chain.cons hne (hnat.symm ▸ hpage) hrest
  rw [hnat] at this
  exact this

/-! ### The page that the next chunk goes into -/

/-- The last page of the chain so far, with its pointer to a page that was added. -/
def pointed (added : Bool) (page : Bytes) (id : Nat) : Bytes :=
  if added then putU32At page 0 (UInt32.ofNat id) else page

/-- What `chainTarget` leaves: the page `id` and the old chain behind it. -/
structure Target (s s' : Store Bytes) (previous : Option Nat) (current : UInt32) (ids : List Nat)
    (id : Nat) (page : Bytes) (rest : List Nat) (parts : List (List UInt8)) : Prop where
  sound : s'.Sound
  small : id < 2 ^ 31
  holds : s'.body id = some page
  chain : Chain s'.body (u32At page 0) rest parts
  moves : s.Moves s' (previous.toList ++ ids) (previous.toList ++ id :: rest)
  count : s'.count ≤ s.count + 1
  same : current ≠ INVALID_CATALOG → id = current.toNat
  back : ∀ back old, previous = some back → s.body back = some old →
    s'.body back = some (pointed (current == INVALID_CATALOG) old id)
  /-- The page is the first of the old chain, unless that has ended. -/
  taken : ids = id :: rest ∨ (ids = [] ∧ rest = [])

/-- Ids stay in range as long as the count does. -/
theorem nextId_small {s : Store Bytes} (hs : s.Sound) (hcount : s.count < 2 ^ 31) :
    s.nextId < 2 ^ 31 := by
  unfold Store.nextId
  cases hfree : s.free with
  | nil => simpa using hcount
  | cons top rest =>
    have := hs.freeInRange top (by simp [hfree])
    simp only [List.headD_cons]
    omega

/-- The page for the next part is the one of the old chain, or a new one that is linked behind. -/
theorem chainTarget_spec {s : Store Bytes} {previous : Option Nat} {current : UInt32}
    {ids : List Nat} {parts : List (List UInt8)} (hs : s.Sound)
    (hchain : Chain s.body current ids parts) (hnodup : (previous.toList ++ ids).Nodup)
    (hback : ∀ back, previous = some back → (s.body back).isSome) (hcount : s.count ≤ 2 ^ 31)
    (hnext : current = INVALID_CATALOG → s.nextId < 2 ^ 31) :
    (chainTarget previous current).wp zeroPage
      (fun r s' => ∃ id page rest parts', r = .ok id ∧
        Target s s' previous current ids id page rest parts') s := by
  have hall : ∀ id ∈ previous.toList ++ ids, s.Allocated id := by
    intro id hid
    rcases List.mem_append.mp hid with hin | hin
    · exact hs.allocated (hback id (Option.mem_toList.mp hin))
    · exact hs.allocated (hchain.isSome id hin)
  unfold chainTarget
  split
  · rename_i hinvalid
    subst hinvalid
    obtain ⟨rfl, -⟩ := hchain.of_invalid
    have hsmall := hnext rfl
    have hfresh := (hs.nextId_fresh zeroPage).1
    let s₁ := s.alloc zeroPage
    let s₂ := s₁.write s.nextId blankChainPage
    have hs₁ : s₁.Sound := hs.alloc zeroPage
    have hsome₁ : (s₁.body s.nextId).isSome := by simp [s₁, Store.alloc]
    have hs₂ : s₂.Sound := hs₁.write hsome₁ _
    have hpage : s₂.body s.nextId = some blankChainPage := by simp [s₂, Store.write]
    have hmoves : s.Moves s₂ (previous.toList ++ []) (s.nextId :: (previous.toList ++ [])) := by
      have halloc := Store.Moves.alloc hs zeroPage hnodup hall
      exact halloc.trans (Store.Moves.write halloc.nodup halloc.allocated (by simp) _)
    have hgrown : s₂.count ≤ s.count + 1 := by
      show (if s.free.isEmpty then s.count + 1 else s.count) ≤ _
      split <;> omega
    have hend : u32At blankChainPage 0 = INVALID_CATALOG := by
      unfold blankChainPage
      rw [u32At_putU32At_disjoint (Or.inl (by decide)), u32At_putU32At]
    cases previous with
    | none =>
      refine ⟨hsome₁, s.nextId, blankChainPage, [], [], rfl, hs₂, hsmall, hpage, ?_, ?_, hgrown,
        fun h => absurd rfl h, fun back old h => absurd h (by simp), Or.inr ⟨rfl, rfl⟩⟩
      · rw [hend]
        exact .nil
      · simpa using hmoves
    | some back =>
      obtain ⟨old, hold⟩ := Option.isSome_iff_exists.mp (hback back rfl)
      have hne : back ≠ s.nextId := by
        rintro rfl
        exact hfresh (hall _ (by simp))
      have hold₂ : s₂.body back = some old := by
        simp [s₂, s₁, Store.write, Store.alloc, hne, hold]
      have hsome₂ : (s₂.body back).isSome := by rw [hold₂]; rfl
      refine ⟨hsome₁, Or.inl hsome₂, ?_⟩
      rw [hold₂]
      let s₃ := s₂.write back (putU32At old 0 (UInt32.ofNat s.nextId))
      have hpage₃ : s₃.body s.nextId = some blankChainPage := by
        simp [s₃, Store.write, hne.symm, hpage]
      refine ⟨hsome₂, s.nextId, blankChainPage, [], [], rfl, hs₂.write hsome₂ _, hsmall, hpage₃, ?_,
        ?_, hgrown, fun h => absurd rfl h, ?_, Or.inr ⟨rfl, rfl⟩⟩
      · rw [hend]
        exact .nil
      · have hwritten := hmoves.trans (@Store.Moves.write _ _ back _ hmoves.nodup hmoves.allocated
          (by simp) (putU32At old 0 (UInt32.ofNat s.nextId)))
        exact hwritten.perm (List.Perm.refl _) (List.Perm.swap _ _ _)
      · intro back' old' hback' hold'
        obtain rfl := Option.some.inj hback'
        obtain rfl : old = old' := by rw [hold] at hold'; exact Option.some.inj hold'
        simp [Store.write, pointed]
  · rename_i hvalid
    obtain ⟨page, rest, parts', rfl, hpage, hrest⟩ := hchain.of_valid hvalid
    have hin : s.Allocated current.toNat := hall _ (by simp)
    have hsmall : current.toNat < 2 ^ 31 := Nat.lt_of_lt_of_le hin.1 hcount
    refine ⟨current.toNat, page, rest, parts', rfl, hs, hsmall, hpage, hrest, .refl hnodup hall,
      Nat.le_succ _, fun _ => rfl, fun back old _ hold => ?_, Or.inl rfl⟩
    simp [pointed, hvalid, hold]

/-- Finding the page for a chunk frees nothing. -/
theorem chainTarget_traced (previous : Option Nat) (current : UInt32) :
    (chainTarget previous current).traced =
      (chainTarget previous current).bind fun r => .pure (r, []) := by
  unfold chainTarget
  split
  · refine congrArg PageM.alloc (funext fun id => congrArg (PageM.write id blankChainPage) ?_)
    cases previous with
    | none => rfl
    | some back =>
      refine congrArg (PageM.read back) (funext fun body => ?_)
      cases body <;> rfl
  · rfl

/-- The same as long as no page id reaches the limit. -/
theorem chainTarget_within {s : Store Bytes} {previous : Option Nat} {current : UInt32}
    {ids : List Nat} {parts : List (List UInt8)} (hs : s.Sound)
    (hchain : Chain s.body current ids parts) (hnodup : (previous.toList ++ ids).Nodup)
    (hback : ∀ back, previous = some back → (s.body back).isSome) (hcount : s.count ≤ 2 ^ 31) :
    (chainTarget previous current).traced.within zeroPage (2 ^ 31)
      (fun r s' => ∃ id page rest parts', r = (.ok id, []) ∧
        Target s s' previous current ids id page rest parts') s := by
  have hspec : (chainTarget previous current).within zeroPage (2 ^ 31)
      (fun r s' => ∃ id page rest parts', r = .ok id ∧
        Target s s' previous current ids id page rest parts') s := by
    by_cases hinvalid : current = INVALID_CATALOG
    · have hwp := fun hnext => @PageM.within_of_wp _ _ _ (2 ^ 31) _ _ _
        (chainTarget_spec hs hchain hnodup hback hcount hnext)
      unfold chainTarget at hwp ⊢
      rw [if_pos hinvalid] at hwp ⊢
      exact fun hlt => hwp (fun _ => hlt) hlt
    · exact PageM.within_of_wp
        (chainTarget_spec hs hchain hnodup hback hcount fun h => absurd h hinvalid)
  rw [chainTarget_traced, PageM.within_bind]
  refine PageM.within_mono hspec ?_
  rintro _ s' ⟨id, page, rest, parts', rfl, ht⟩
  exact ⟨id, page, rest, parts', rfl, ht⟩

/-! ### All the chunks -/

/-- The pages behind `id`, and the ones before them. -/
theorem perm_behind (front rest : List Nat) (id : Nat) :
    (front ++ id :: rest).Perm (rest ++ (front ++ [id])) := by
  rw [List.append_cons]
  exact List.perm_append_comm

/-- What laying chunks across a chain leaves: a chain of them, on pages of the old chain and
on pages nobody had. Behind the pages that both chains have there are pages of the old one, which
were freed, or pages that were added, but not both. -/
structure Laid (s s' : Store Bytes) (previous : Option Nat) (current : UInt32) (ids : List Nat)
    (chunks : List (List UInt8)) (id : Nat) (laid released : List Nat) : Prop where
  sound : s'.Sound
  small : id < 2 ^ 31
  chain : Chain s'.body (UInt32.ofNat id) (id :: laid) chunks
  moves : s.Moves s' (previous.toList ++ ids) (previous.toList ++ id :: laid)
  same : current ≠ INVALID_CATALOG → id = current.toNat
  back : ∀ back old, previous = some back → s.body back = some old →
    s'.body back = some (pointed (current == INVALID_CATALOG) old id)
  reused : ∃ kept added, ids = kept ++ released ∧ id :: laid = kept ++ added ∧
    (released = [] ∨ added = [])

/-- The parts are on a chain afterwards, on pages of the old one as far as they reach. -/
theorem writeChunks_spec (chunks : List (List UInt8)) {s : Store Bytes} {previous : Option Nat}
    {current : UInt32} {ids : List Nat} {parts : List (List UInt8)} (hs : s.Sound)
    (hchain : Chain s.body current ids parts) (hnodup : (previous.toList ++ ids).Nodup)
    (hback : ∀ back, previous = some back → (s.body back).isSome) (hne : chunks ≠ [])
    (hlen : ∀ chunk ∈ chunks, chunk.length ≤ CATALOG_PAYLOAD)
    (hcount : s.count ≤ 2 ^ 31) :
    (writeChunks chunks previous current).traced.within zeroPage (2 ^ 31)
      (fun r s' => ∃ id laid released, r = (.ok id, released) ∧
        Laid s s' previous current ids chunks id laid released) s := by
  induction chunks generalizing s previous current ids parts with
  | nil => exact absurd rfl hne
  | cons chunk others ih =>
    unfold writeChunks
    rw [PageM.bind_eq, PageM.traced_bind, PageM.within_bind]
    refine PageM.within_mono
      (PageM.within_count (chainTarget_within hs hchain hnodup hback hcount) hcount) ?_
    rintro _ s₁ ⟨⟨id, page, rest, parts', rfl, ht⟩, hcount₁⟩
    have hsome : (s₁.body id).isSome := by rw [ht.holds]; rfl
    have hchunk : chunk.length ≤ CATALOG_PAYLOAD := hlen chunk (by simp)
    have hown := ht.moves.nodup
    have hid : id ∉ previous.toList := fun hin =>
      (List.nodup_append.mp hown).2.2 id hin id (by simp) rfl
    have hcons := (List.nodup_append.mp hown).2.1
    have hrest : id ∉ rest := (List.nodup_cons.mp hcons).1
    refine ⟨Or.inl hsome, ?_⟩
    rw [ht.holds]
    dsimp only
    -- the page of this chunk is written; its owner keeps what it owned
    have hwrite : ∀ new : Bytes, (s₁.write id new).Sound ∧
        s.Moves (s₁.write id new) (previous.toList ++ ids) (previous.toList ++ id :: rest) ∧
        Chain (s₁.write id new).body (u32At page 0) rest parts' ∧
        (s₁.write id new).body id = some new ∧
        ∀ back old, previous = some back → s.body back = some old →
          (s₁.write id new).body back = some (pointed (current == INVALID_CATALOG) old id) := by
      intro new
      refine ⟨ht.sound.write hsome new,
        ht.moves.trans (Store.Moves.write hown ht.moves.allocated (by simp) new),
        ht.chain.congr fun other hother => ?_, by simp [Store.write],
        fun back old hprev hold => ?_⟩
      · have hdiff : other ≠ id := fun heq => hrest (heq ▸ hother)
        simp [Store.write, hdiff]
      · have hdiff : back ≠ id := by
          rintro rfl
          exact hid (Option.mem_toList.mpr hprev)
        simpa [Store.write, hdiff] using ht.back back old hprev hold
    cases others with
    | nil =>
      -- the last chunk: the chain ends here, and the pages behind it go
      obtain ⟨hs₂, hmoves, hleft, hpage, hbacks⟩ :=
        hwrite (putU32At (chainPage page chunk) 0 INVALID_CATALOG)
      generalize hw : s₁.write id (putU32At (chainPage page chunk) 0 INVALID_CATALOG) = s₂ at *
      refine ⟨hsome, ?_⟩
      show ((PageM.bind (releaseChain _ _) _).traced.bind _).within _ _ _ (s₁.write id _)
      rw [hw, PageM.traced_bind, PageM.bind_assoc, PageM.within_bind]
      have hrestNodup : rest.Nodup := (List.nodup_cons.mp hcons).2
      have hfuel := length_le_count hs₂ hrestNodup hleft.isSome
      refine PageM.within_mono (releaseChain_frees _ hs₂ hleft hrestNodup hfuel) ?_
      rintro ⟨⟨⟩, freed⟩ s₃ ⟨hrest', hs₃, hfreed, -⟩
      have hkeep : ∀ other, s₂.Allocated other → other ∉ rest → s₃.body other = s₂.body other :=
        fun other hal hout => (hfreed.keeps other hal hout).2
      have hidAl : s₂.Allocated id := hs₂.allocated (by rw [hpage]; rfl)
      have hpage₃ : s₃.body id = some (putU32At (chainPage page chunk) 0 INVALID_CATALOG) :=
        (hkeep id hidAl hrest).trans hpage
      refine ⟨id, [], rest, by simpa using hrest', hs₃, ht.small, ?_, ?_, ht.same, ?_, ?_⟩
      · have hend : Chain s₃.body
            (u32At (putU32At (chainPage page chunk) 0 INVALID_CATALOG) 0) [] [] := by
          rw [u32At_putU32At]
          exact .nil
        have := chain_cons ht.small hpage₃ hend
        rw [chainPart_setNext, chainPart_chainPage hchunk] at this
        exact this
      · have hperm := perm_behind previous.toList rest id
        have hframed := hfreed.frame (F := previous.toList ++ [id])
          (hperm.nodup_iff.mp hmoves.nodup)
          fun other hin => hmoves.allocated other (hperm.mem_iff.mpr hin)
        exact hmoves.trans (hframed.perm hperm.symm (List.Perm.refl _))
      · intro back old hprev hold
        have hal : s₂.Allocated back :=
          hmoves.allocated back (List.mem_append_left _ (Option.mem_toList.mpr hprev))
        have hout : back ∉ rest := fun hin =>
          (List.nodup_append.mp hown).2.2 back (Option.mem_toList.mpr hprev) back (by simp [hin]) rfl
        exact (hkeep back hal hout).trans (hbacks back old hprev hold)
      · rcases ht.taken with rfl | ⟨rfl, rfl⟩
        · exact ⟨[id], [], rfl, rfl, Or.inr rfl⟩
        · exact ⟨[], [id], rfl, rfl, Or.inl rfl⟩
    | cons chunk' others =>
      obtain ⟨hs₂, hmoves, hleft, hpage, hbacks⟩ := hwrite (chainPage page chunk)
      generalize hw : s₁.write id (chainPage page chunk) = s₂ at *
      have hcount₂ : s₂.count ≤ 2 ^ 31 := by
        rw [← hw]
        exact hcount₁
      refine ⟨hsome, ?_⟩
      show ((PageM.bind (writeChunks _ _ _) _).traced.bind _).within _ _ _ (s₁.write id _)
      rw [hw, PageM.traced_bind, PageM.bind_assoc, PageM.within_bind]
      refine PageM.within_mono (ih hs₂ hleft (by simpa using hcons) (fun back hprev => by
        obtain rfl := Option.some.inj hprev
        rw [hpage]
        rfl) (by simp) (fun c hc => hlen c (by simp [hc])) hcount₂) ?_
      rintro _ s₃ ⟨first, laid, released, rfl, hl⟩
      -- the pointer of this page is the first page of the rest
      have hown' : s₂.body id = some (chainPage page chunk) := hpage
      have hpage₃ := hl.back id (chainPage page chunk) rfl hown'
      have hnext : u32At (pointed (u32At page 0 == INVALID_CATALOG) (chainPage page chunk) first) 0
          = UInt32.ofNat first := by
        unfold pointed
        split
        · exact u32At_putU32At ..
        · rename_i hvalid
          rw [next_chainPage, hl.same (by simpa using hvalid)]
          simp
      have hpart : chainPart (pointed (u32At page 0 == INVALID_CATALOG) (chainPage page chunk) first)
          = chunk := by
        unfold pointed
        split
        · rw [chainPart_setNext, chainPart_chainPage hchunk]
        · exact chainPart_chainPage hchunk
      have hframed := hl.moves.frame (F := previous.toList)
        (List.perm_append_comm.nodup_iff.mp hmoves.nodup)
        fun other hin => hmoves.allocated other (List.perm_append_comm.mem_iff.mp hin)
      refine ⟨id, first :: laid, released, by simp, hl.sound, ht.small, ?_, ?_, ht.same, ?_, ?_⟩
      · have := chain_cons ht.small hpage₃ (by
          rw [hnext]
          exact hl.chain)
        rw [hpart] at this
        exact this
      · exact hmoves.trans (hframed.perm List.perm_append_comm List.perm_append_comm)
      · intro back old hprev hold
        have hal : s₂.Allocated back :=
          hmoves.allocated back (List.mem_append_left _ (Option.mem_toList.mpr hprev))
        have hout : back ∉ (some id).toList ++ rest := fun hin =>
          (List.nodup_append.mp hown).2.2 back (Option.mem_toList.mpr hprev) back
            (by simpa using hin) rfl
        exact (hl.moves.keeps back hal hout).2.trans (hbacks back old hprev hold)
      · obtain ⟨kept, added, hkept, hlaid, hone⟩ := hl.reused
        rcases ht.taken with rfl | ⟨rfl, rfl⟩
        · exact ⟨id :: kept, added, by rw [hkept]; rfl, by rw [hlaid]; rfl, hone⟩
        · obtain ⟨rfl, rfl⟩ := List.append_eq_nil_iff.mp hkept.symm
          exact ⟨[], id :: added, rfl, by rw [hlaid]; rfl, Or.inl rfl⟩

/-! ### The catalog -/

/-- There is a part even of nothing. -/
theorem chunks_ne_nil (n : Nat) (blob : List UInt8) : chunks (n + 1) blob ≠ [] := by
  unfold chunks
  split <;> simp

/-- No part is longer than a page holds. -/
theorem chunks_length (n : Nat) (blob : List UInt8) :
    ∀ chunk ∈ chunks n blob, chunk.length ≤ CATALOG_PAYLOAD := by
  induction n generalizing blob with
  | zero => simp [chunks]
  | succ n ih =>
    unfold chunks
    split
    · rename_i hlast
      simpa using hlast
    · intro chunk hin
      rcases List.mem_cons.mp hin with rfl | hin
      · exact List.length_take_le ..
      · exact ih _ chunk hin

/-- The chunks are the blob, cut. -/
theorem chunks_flatten (n : Nat) {blob : List UInt8} (h : blob.length < n) :
    (chunks n blob).flatten = blob := by
  induction n generalizing blob with
  | zero => omega
  | succ n ih =>
    unfold chunks
    split
    · simp
    · rename_i hlong
      have hpos : 0 < CATALOG_PAYLOAD := by decide
      rw [List.flatten_cons, ih (by rw [List.length_drop]; omega)]
      exact List.take_append_drop ..

/-- How many pages a blob takes, at most. -/
theorem chunks_count (n : Nat) (blob : List UInt8) :
    (chunks n blob).length ≤ blob.length / CATALOG_PAYLOAD + 1 := by
  induction n generalizing blob with
  | zero => simp [chunks]
  | succ n ih =>
    unfold chunks
    split
    · simp
    · rename_i hlong
      have hpos : 0 < CATALOG_PAYLOAD := by decide
      have hrest := ih (blob.drop CATALOG_PAYLOAD)
      have hdiv : blob.length / CATALOG_PAYLOAD = (blob.length - CATALOG_PAYLOAD) / CATALOG_PAYLOAD + 1 := by
        rw [Nat.div_eq_sub_div hpos (by omega)]
      rw [List.length_drop] at hrest
      rw [List.length_cons]
      omega

/-- A read answers the contents and changes nothing. -/
theorem run_readPage (id : Nat) (s : Store Bytes) : (readPage id).run zeroPage s = (s.body id, s) :=
  rfl

/-- To release pages makes no file shorter. -/
theorem releaseChain_count (fuel : Nat) (next : UInt32) (s : Store Bytes) :
    ((releaseChain fuel next).run zeroPage s).2.count = s.count := by
  induction fuel generalizing next s with
  | zero => rfl
  | succ fuel ih =>
    unfold releaseChain
    split
    · rfl
    · rw [PageM.bind_eq, PageM.run_bind, run_readPage]
      cases s.body next.toNat with
      | none => rfl
      | some stale => exact ih _ _

/-- At most one page is new. -/
theorem chainTarget_count (previous : Option Nat) (current : UInt32) (s : Store Bytes) :
    ((chainTarget previous current).run zeroPage s).2.count ≤ s.count + 1 := by
  have halloc : (s.alloc zeroPage).count ≤ s.count + 1 := by
    show (if s.free.isEmpty then s.count + 1 else s.count) ≤ _
    split <;> omega
  unfold chainTarget
  split
  · cases previous with
    | none => exact halloc
    | some back =>
      show (PageM.run zeroPage ((readPage back).bind _)
        ((s.alloc zeroPage).write s.nextId blankChainPage)).2.count ≤ _
      rw [PageM.run_bind, run_readPage]
      cases ((s.alloc zeroPage).write s.nextId blankChainPage).body back with
      | none => exact halloc
      | some page => exact halloc
  · exact Nat.le_succ _

/-- A chain takes a page for each chunk, at most. -/
theorem writeChunks_count (chunks : List (List UInt8)) (previous : Option Nat) (current : UInt32)
    (s : Store Bytes) :
    ((writeChunks chunks previous current).run zeroPage s).2.count ≤ s.count + chunks.length := by
  induction chunks generalizing previous current s with
  | nil => exact Nat.le_refl _
  | cons chunk others ih =>
    have htarget := chainTarget_count previous current s
    unfold writeChunks
    rw [PageM.bind_eq, PageM.run_bind, List.length_cons]
    generalize (chainTarget previous current).run zeroPage s = reached at htarget ⊢
    obtain ⟨r, s₁⟩ := reached
    cases r with
    | error code => exact Nat.le_trans htarget (by omega)
    | ok id =>
      dsimp only
      rw [PageM.bind_eq, PageM.run_bind, run_readPage]
      cases s₁.body id with
      | none => exact Nat.le_trans htarget (by omega)
      | some page =>
        cases others with
        | nil =>
          show (PageM.run zeroPage (PageM.bind (releaseChain _ _) _) _).2.count ≤ _
          rw [PageM.run_bind]
          exact Nat.le_trans (Nat.le_of_eq (releaseChain_count _ _ _)) htarget
        | cons chunk' others =>
          show (PageM.run zeroPage (PageM.bind (writeChunks _ _ _) _)
            (s₁.write id (chainPage page chunk))).2.count ≤ _
          rw [PageM.run_bind]
          have hrest := ih (some id) (u32At page 0) (s₁.write id (chainPage page chunk))
          generalize (writeChunks (chunk' :: others) (some id) (u32At page 0)).run zeroPage
            (s₁.write id (chainPage page chunk)) = laid at hrest ⊢
          obtain ⟨r, s₂⟩ := laid
          have hsum : s₂.count ≤ s.count + ((chunk' :: others).length + 1) := by
            have hwritten : (s₁.write id (chainPage page chunk)).count = s₁.count := rfl
            dsimp only at htarget hrest
            omega
          cases r <;> exact hsum

/-- The pages that a blob of this length takes at most are all that a chain takes. -/
theorem writeCatalogChain_count (blob : List UInt8) (root : UInt32) (s : Store Bytes) :
    ((writeCatalogChain blob root).run zeroPage s).2.count
      ≤ s.count + (blob.length / CATALOG_PAYLOAD + 1) := by
  have hpages := chunks_count (blob.length + 1) blob
  have hlaid := writeChunks_count (chunks (blob.length + 1) blob) none root s
  unfold writeCatalogChain
  rw [PageM.bind_eq, PageM.run_bind]
  generalize (writeChunks (chunks (blob.length + 1) blob) none root).run zeroPage s = laid at *
  obtain ⟨r, s'⟩ := laid
  have hsum : s'.count ≤ s.count + (blob.length / CATALOG_PAYLOAD + 1) :=
    Nat.le_trans hlaid (by omega)
  cases r <;> exact hsum

/-- A chain that is written anew holds the blob. Its pages come from the old chain and from
the pages nobody had, and every other page is as it was. -/
theorem writeCatalogChain_within {s : Store Bytes} {root : UInt32} {ids : List Nat}
    {parts : List (List UInt8)} (blob : List UInt8) (hs : s.Sound)
    (hchain : Chain s.body root ids parts) (hnodup : ids.Nodup) (hcount : s.count ≤ 2 ^ 31) :
    (writeCatalogChain blob root).traced.within zeroPage (2 ^ 31)
      (fun r s' => ∃ root' ids' released, r = (.ok root', released) ∧
        Chain s'.body root' ids' (chunks (blob.length + 1) blob) ∧ s.Moves s' ids ids' ∧
        ∃ kept added, ids = kept ++ released ∧ ids' = kept ++ added ∧
          (released = [] ∨ added = [])) s := by
  unfold writeCatalogChain
  rw [PageM.bind_eq, PageM.traced_bind, PageM.within_bind]
  refine PageM.within_mono (writeChunks_spec (chunks (blob.length + 1) blob) hs hchain
    (by simpa using hnodup) (fun _ h => absurd h (by simp)) (chunks_ne_nil _ _)
    (chunks_length _ _) hcount) ?_
  rintro _ s' ⟨id, laid, released, rfl, hl⟩
  exact ⟨UInt32.ofNat id, id :: laid, released, by simp, hl.chain, by simpa using hl.moves,
    hl.reused⟩

/-- The chain holds the new blob, whatever was on it before. -/
theorem writeCatalogChain_spec {s : Store Bytes} {root : UInt32} {ids : List Nat}
    {parts : List (List UInt8)} (blob : List UInt8) (hs : s.Sound)
    (hchain : Chain s.body root ids parts) (hnodup : ids.Nodup)
    (hcount : s.count + (blob.length / CATALOG_PAYLOAD + 1) ≤ 2 ^ 31) :
    (writeCatalogChain blob root).wp zeroPage
      (fun r s' => ∃ root' ids' parts', r = .ok root' ∧ s'.Sound ∧
        Chain s'.body root' ids' parts' ∧ parts'.flatten = blob ∧ s.Moves s' ids ids' ∧
        (∀ part ∈ parts', part.length ≤ CATALOG_PAYLOAD) ∧
        s'.count ≤ s.count + (blob.length / CATALOG_PAYLOAD + 1)) s := by
  have hbound := writeCatalogChain_count blob root s
  have hwithin : (writeCatalogChain blob root).within zeroPage (2 ^ 31)
      (fun r s' => ∃ root' ids', r = .ok root' ∧
        Chain s'.body root' ids' (chunks (blob.length + 1) blob) ∧ s.Moves s' ids ids') s := by
    refine PageM.within_traced.mp (PageM.within_mono
      (writeCatalogChain_within blob hs hchain hnodup (Nat.le_trans (Nat.le_add_right ..) hcount)) ?_)
    rintro _ s' ⟨root', ids', released, rfl, hlaid, hmoves, -⟩
    exact ⟨root', ids', rfl, hlaid, hmoves⟩
  have hwp := PageM.wp_of_within hwithin hs (Nat.le_trans hbound hcount)
  refine PageM.wp_mono (PageM.wp_ends (PageM.wp_sound hwp hs)) ?_
  rintro _ s' ⟨⟨⟨root', ids', rfl, hlaid, hmoves⟩, hsound, -⟩, hs'⟩
  exact ⟨root', ids', _, rfl, hsound, hlaid, chunks_flatten _ (Nat.lt_succ_self _), hmoves,
    chunks_length _ _, hs' ▸ hbound⟩

/-! ### Reading it back -/

/-- A reader of a chain gets the bytes of its pages, one after another. -/
theorem readCatalogChain_looks {n : Nat} {body : Nat → Option Bytes} {memory : Nat} (fuel : Nat)
    {root : UInt32} {ids : List Nat} {parts : List (List UInt8)} (out : List UInt8)
    (hchain : Chain body root ids parts) (hsmall : ∀ id ∈ ids, id < 2 ^ 31)
    (hlen : ∀ part ∈ parts, part.length ≤ CATALOG_PAYLOAD)
    (hmemory : out.length + parts.flatten.length ≤ memory) (hfuel : ids.length < fuel) :
    (readCatalogChain memory fuel root out).Looks (· ∈ ids) n body (.ok (out ++ parts.flatten)) := by
  induction fuel generalizing root ids parts out with
  | zero => omega
  | succ fuel ih =>
    unfold readCatalogChain
    cases hchain with
    | nil =>
      rw [if_pos (by decide)]
      simp [PageM.Looks]
    | @cons _ page ids parts hroot hpage hrest =>
      have hin := hsmall root.toNat (by simp)
      have hlow : ¬(0x80000000 : UInt32) ≤ root := by
        rw [UInt32.le_iff_toNat_le]
        have : (0x80000000 : UInt32).toNat = 2 ^ 31 := rfl
        omega
      rw [if_neg hlow]
      refine ⟨by simp, ?_⟩
      rw [hpage]
      have hpart := hlen (bytesAt page CATALOG_HEADER (u32At page 4).toNat) (by simp)
      rw [bytesAt_length] at hpart
      have hsize : CATALOG_PAYLOAD ≤ PAGE_SIZE - CATALOG_HEADER := by decide
      simp only [List.flatten_cons, List.length_append, bytesAt_length] at hmemory
      show PageM.Looks _ _ _ (if _ then _ else if _ then _ else _) _
      rw [if_neg (by omega), if_neg (by omega)]
      have hnext := ih (out ++ bytesAt page CATALOG_HEADER (u32At page 4).toNat) hrest
        (fun id hid => hsmall id (by simp [hid])) (fun part hp => hlen part (by simp [hp]))
        (by rw [List.length_append, bytesAt_length]; omega) (by simpa using hfuel)
      rw [List.append_assoc, ← List.flatten_cons] at hnext
      exact hnext.congr fun id hid => ⟨by simp [hid], rfl⟩

end DatabaseEngine
