import DatabaseEngine.Model.Failure
import DatabaseEngine.Proofs.Codec.Chain

/-!
# `DatabaseEngine.Proofs.Codec.Intact`: a catalog that is written halfway

The writer of the chain may stop behind any of its accesses. What the pointers lead to from the
old root is a chain even then, though its bytes are of no one catalog.

* `firstAccesses_wp`: the first accesses of a legal program are legal, and end in one of the
  stores on its way.
* `writeCatalogChain_intact`: every store on the way of the writer has a chain at the old root.
-/

set_option autoImplicit false

namespace DatabaseEngine

open Library

/-- What holds on the way holds where the run is cut off. -/
theorem firstAccesses_wp {α : Type} {zero : Bytes} {x : PageM Bytes α}
    {Q : α → Store Bytes → Prop} {I : Store Bytes → Prop} {s : Store Bytes} (h : x.wp zero Q s)
    (hI : x.during zero I s) (n : Nat) : (firstAccesses n x).wp zero (fun _ s' => I s') s := by
  induction x generalizing n s with
  | pure a => cases n <;> exact hI
  | alloc next ih =>
    cases n with
    | zero => exact hI.1
    | succ n => exact ih _ h hI.2 n
  | read id next ih =>
    cases n with
    | zero => exact hI.1
    | succ n => exact ⟨h.1, ih _ h.2 hI.2 n⟩
  | write id body next ih =>
    cases n with
    | zero => exact hI.1
    | succ n => exact ⟨h.1, ih h.2 hI.2 n⟩
  | free id next ih =>
    cases n with
    | zero => exact hI.1
    | succ n => exact ⟨h.1, ih h.2 hI.2 n⟩
  | count next ih =>
    cases n with
    | zero => exact hI.1
    | succ n => exact ih _ h hI.2 n

/-- The pointers lead from `root` through the pages to `next`. -/
inductive Leads (body : Nat → Option Bytes) : UInt32 → List Nat → UInt32 → Prop
  | nil {root : UInt32} : Leads body root [] root
  | cons {root next : UInt32} {page : Bytes} {ids : List Nat} (hroot : root ≠ INVALID_CATALOG)
      (hpage : body root.toNat = some page) (rest : Leads body (u32At page 0) ids next) :
      Leads body root (root.toNat :: ids) next

namespace Leads

variable {body body' : Nat → Option Bytes} {root next : UInt32} {ids front : List Nat}

/-- Only the pages on the way matter. -/
theorem congr (h : Leads body root ids next) (hbody : ∀ id ∈ ids, body' id = body id) :
    Leads body' root ids next := by
  induction h with
  | nil => exact .nil
  | cons hroot hpage _ ih =>
    refine .cons hroot ((hbody _ (by simp)).trans hpage) ?_
    exact ih fun id hid => hbody id (by simp [hid])

/-- A chain begins where the pointers lead to. -/
theorem chain (h : Leads body root front next) {parts : List (List UInt8)}
    (hchain : Chain body next ids parts) : ∃ parts', Chain body root (front ++ ids) parts' := by
  induction h with
  | nil => exact ⟨parts, hchain⟩
  | cons hroot hpage _ ih =>
    obtain ⟨parts', hrest⟩ := ih hchain
    exact ⟨_, .cons hroot hpage hrest⟩

/-- One page further. -/
theorem snoc (h : Leads body root ids next) {page : Bytes} (hnext : next ≠ INVALID_CATALOG)
    (hpage : body next.toNat = some page) :
    Leads body root (ids ++ [next.toNat]) (u32At page 0) := by
  induction h with
  | nil => exact .cons hnext hpage .nil
  | cons hroot hfirst _ ih => exact .cons hroot hfirst (ih hnext hpage)

/-- The last page on the way. -/
theorem last {back : Nat} (h : Leads body root (front ++ [back]) next) :
    ∃ back' page, back = back'.toNat ∧ back' ≠ INVALID_CATALOG ∧ Leads body root front back' ∧
      body back = some page ∧ next = u32At page 0 := by
  induction front generalizing root with
  | nil =>
    cases h with
    | cons hroot hpage rest =>
      cases rest
      exact ⟨root, _, rfl, hroot, .nil, hpage, rfl⟩
  | cons id front ih =>
    cases h with
    | cons hroot hpage rest =>
      obtain ⟨back', page, hback, hvalid, hlead, hlast, hnext⟩ := ih rest
      exact ⟨back', page, hback, hvalid, .cons hroot hpage hlead, hlast, hnext⟩

end Leads

/-- There is a chain at the root. -/
def Intact (root : UInt32) (s : Store Bytes) : Prop :=
  ∃ ids parts, Chain s.body root ids parts ∧ ids.Nodup

/-- A chain that can be followed to a link and from there to its end is intact. -/
theorem Leads.intact {s : Store Bytes} {root next : UInt32} {front ids : List Nat}
    {parts : List (List UInt8)} (h : Leads s.body root front next)
    (hchain : Chain s.body next ids parts) (hnodup : (front ++ ids).Nodup) : Intact root s :=
  let ⟨parts', hwhole⟩ := h.chain hchain
  ⟨front ++ ids, parts', hwhole, hnodup⟩

/-! ### The page that the next chunk goes into -/

/-- The writer has come as far as `current`: the pages before it, and the chain behind. -/
structure Reached (s : Store Bytes) (root : UInt32) (front : List Nat) (current : UInt32)
    (ids : List Nat) (parts : List (List UInt8)) : Prop where
  sound : s.Sound
  leads : Leads s.body root front current
  chain : Chain s.body current ids parts
  nodup : (front ++ ids).Nodup
  started : front = [] → current ≠ INVALID_CATALOG

namespace Reached

variable {s : Store Bytes} {root current : UInt32} {front ids : List Nat}
  {parts : List (List UInt8)} {id : Nat}

/-- A chain is intact wherever a write of it has come to. -/
theorem intact (h : Reached s root front current ids parts) : Intact root s :=
  h.leads.intact h.chain h.nodup

/-- Pages on the way have contents. -/
theorem isSome (h : Reached s root front current ids parts) (hid : id ∈ front) :
    (s.body id).isSome := by
  obtain ⟨parts', hwhole⟩ := h.leads.chain h.chain
  exact hwhole.isSome id (List.mem_append_left _ hid)

/-- The page behind which the rest is linked has contents. -/
theorem back (h : Reached s root front current ids parts) :
    ∀ id, front.getLast? = some id → (s.body id).isSome := fun _ hid =>
  h.isSome (List.mem_of_getLast? hid)

/-- That page and the rest are different pages. -/
theorem ownNodup (h : Reached s root front current ids parts) :
    (front.getLast?.toList ++ ids).Nodup := by
  refine List.Nodup.sublist (List.Sublist.append_right ?_ ids) h.nodup
  cases hlast : front.getLast? with
  | none => simp
  | some back => simpa using List.mem_of_getLast? hlast

/-- Adding a page behind the last one breaks no pointer on the way. -/
theorem newChainPage (h : Reached s root front INVALID_CATALOG ids parts)
    (hcount : s.count < 2 ^ 31) :
    (newChainPage front.getLast?).during zeroPage (Intact root) s := by
  have hne : front ≠ [] := fun hnil => h.started hnil rfl
  obtain ⟨before, back, rfl⟩ := List.eq_nil_or_concat'  front |>.resolve_left hne
  obtain ⟨rfl, -⟩ := h.chain.of_invalid
  have hnodup : (before ++ [back]).Nodup := by simpa using h.nodup
  have hal : ∀ id ∈ before ++ [back], s.Allocated id := fun id hid =>
    h.sound.allocated (h.isSome hid)
  have hfresh := (h.sound.nextId_fresh zeroPage).1
  have hnew : ∀ id ∈ before ++ [back], id ≠ s.nextId := fun id hid heq =>
    hfresh (heq ▸ hal id hid)
  let s₁ := s.alloc zeroPage
  let s₂ := s₁.write s.nextId blankChainPage
  have hbody₁ : ∀ id ∈ before ++ [back], s₁.body id = s.body id := fun id hid => by
    simp [s₁, Store.alloc, hnew id hid]
  have hbody₂ : ∀ id ∈ before ++ [back], s₂.body id = s.body id := fun id hid => by
    simp [s₂, Store.write, hnew id hid, hbody₁ id hid]
  have hintact : ∀ t : Store Bytes, (∀ id ∈ before ++ [back], t.body id = s.body id) →
      Intact root t := fun t ht =>
    (h.leads.congr ht).intact .nil (by simpa using hnodup)
  obtain ⟨back', old, rfl, hvalid, hlead, hold, -⟩ := h.leads.last
  have hold₂ : s₂.body back'.toNat = some old := (hbody₂ _ (by simp)).trans hold
  unfold DatabaseEngine.newChainPage
  rw [List.getLast?_concat]
  refine ⟨h.intact, hintact s₁ hbody₁, hintact s₂ hbody₂, ?_⟩
  have hread : ((s.alloc zeroPage).write s.nextId blankChainPage).body back'.toNat = some old := hold₂
  rw [hread]
  refine ⟨hintact s₂ hbody₂, ?_⟩
  -- the last page points at the blank one
  let s₃ := s₂.write back'.toNat (putU32At old 0 (UInt32.ofNat s.nextId))
  show Intact root s₃
  have hapart := List.nodup_append.mp hnodup
  have hlead₃ : Leads s₃.body root before back' := hlead.congr fun id hid => by
    have hne : id ≠ back'.toNat := hapart.2.2 id hid _ (by simp)
    rw [show s₃.body id = s₂.body id from Function.update_of_ne hne _ _]
    exact hbody₂ id (List.mem_append_left _ hid)
  have hback₃ : s₃.body back'.toNat = some (putU32At old 0 (UInt32.ofNat s.nextId)) :=
    Function.update_self _ _ _
  have hblank₃ : s₃.body s.nextId = some blankChainPage := by
    have hne : s.nextId ≠ back'.toNat := (hnew _ (by simp)).symm
    rw [show s₃.body s.nextId = s₂.body s.nextId from Function.update_of_ne hne _ _]
    exact Function.update_self _ _ _
  have hpointed := hlead₃.snoc hvalid hback₃
  rw [u32At_putU32At] at hpointed
  have hend : Chain s₃.body (u32At blankChainPage 0) [] [] := by
    unfold blankChainPage
    rw [u32At_putU32At_disjoint (Or.inl (by decide)), u32At_putU32At]
    exact .nil
  refine hpointed.intact (chain_cons (nextId_small h.sound hcount) hblank₃ hend) ?_
  refine List.nodup_append.mpr ⟨hnodup, by simp, ?_⟩
  rintro id hid other hother rfl
  exact hnew _ hid (List.mem_singleton.mp hother)

/-- Where the writer stands when it has found the page of the next chunk. -/
theorem target (h : Reached s root front current ids parts) {s₁ : Store Bytes} {page : Bytes}
    {rest : List Nat} {parts₁ : List (List UInt8)}
    (ht : Target s s₁ front.getLast? current ids id page rest parts₁) :
    Reached s₁ root (front ++ [id]) (u32At page 0) rest parts₁ := by
  have hof : (UInt32.ofNat id).toNat = id := by
    rw [UInt32.toNat_ofNat']
    exact Nat.mod_eq_of_lt (by have := ht.small; omega)
  have hvalid : UInt32.ofNat id ≠ INVALID_CATALOG := by
    intro heq
    have hnat := congrArg UInt32.toNat heq
    rw [hof] at hnat
    have hsmall := ht.small
    rw [hnat] at hsmall
    exact absurd hsmall (by decide)
  have hlead : Leads s₁.body root front (UInt32.ofNat id) := by
    rcases List.eq_nil_or_concat' front with rfl | ⟨before, back, rfl⟩
    · have hstart := h.started rfl
      have hroot : current = root := by
        cases h.leads
        rfl
      rw [ht.same hstart, UInt32.ofNat_toNat, hroot]
      exact .nil
    · obtain ⟨back', old, rfl, hback, hlead, hold, hnext⟩ := h.leads.last
      have hkept : ∀ other ∈ before, s₁.body other = s.body other := by
        intro other hother
        have hin : other ∈ before ++ [back'.toNat] := List.mem_append_left _ hother
        refine (ht.moves.keeps other (h.sound.allocated (h.isSome hin)) fun hown => ?_).2
        rw [List.getLast?_concat] at hown
        rcases List.mem_append.mp hown with hlast | hids
        · obtain rfl : other = back'.toNat := by simpa using hlast
          exact (List.nodup_append.mp (List.nodup_append.mp h.nodup).1).2.2 _ hother _ (by simp) rfl
        · exact (List.nodup_append.mp h.nodup).2.2 other hin other hids rfl
      have hback₁ := ht.back back'.toNat old (by simp) hold
      have hpointed := (hlead.congr hkept).snoc hback hback₁
      have hpointer : u32At (pointed (current == INVALID_CATALOG) old id) 0 = UInt32.ofNat id := by
        unfold pointed
        split
        · exact u32At_putU32At ..
        · rename_i hcurrent
          rw [ht.same (by simpa using hcurrent), UInt32.ofNat_toNat, hnext]
      rw [hpointer] at hpointed
      exact hpointed
  have hholds : s₁.body (UInt32.ofNat id).toNat = some page := hof.symm ▸ ht.holds
  have hsnoc := hlead.snoc hvalid hholds
  rw [hof] at hsnoc
  refine ⟨ht.sound, hsnoc, ht.chain, ?_, by simp⟩
  rw [List.append_assoc, List.singleton_append]
  have hown := List.nodup_append.mp ht.moves.nodup
  refine List.nodup_append.mpr ⟨(List.nodup_append.mp h.nodup).1, hown.2.1, ?_⟩
  rintro other hin new hnew rfl
  by_cases hlast : other ∈ front.getLast?.toList
  · exact hown.2.2 other hlast other hnew rfl
  · refine ht.moves.notMem (h.sound.allocated (h.isSome hin)) (fun hold => ?_)
      (List.mem_append_right _ hnew)
    rcases List.mem_append.mp hold with hlast' | hids
    · exact hlast hlast'
    · exact (List.nodup_append.mp h.nodup).2.2 other hin other hids rfl

/-- The page of a chunk is written by the writer. -/
theorem write (h : Reached s root (front ++ [id]) current ids parts) {new : Bytes}
    {next : UInt32} (hnext : u32At new 0 = next) {rest : List Nat}
    {parts' : List (List UInt8)} (hchain : Chain s.body next rest parts')
    (hnodup : (front ++ [id] ++ rest).Nodup) :
    Reached (s.write id new) root (front ++ [id]) next rest parts' := by
  have hin : id ∈ front ++ [id] := by simp
  have happ := List.nodup_append.mp hnodup
  obtain ⟨id', old, rfl, hid', hlead, -, -⟩ := h.leads.last
  have hfront := List.nodup_append.mp happ.1
  have hlead' : Leads (s.write id'.toNat new).body root front id' := hlead.congr fun other hother =>
    Function.update_of_ne (hfront.2.2 other hother _ (by simp)) _ _
  have hsnoc := hlead'.snoc hid' (Function.update_self _ _ _)
  rw [hnext] at hsnoc
  refine ⟨h.sound.write (h.isSome hin) new, hsnoc, hchain.congr fun other hother => ?_, hnodup,
    by simp⟩
  exact Function.update_of_ne (fun heq => happ.2.2 id'.toNat hin other hother heq.symm) _ _

end Reached

/-! ### All the chunks -/

/-- Releasing what is left over breaks no pointer before it. -/
theorem releaseChain_intact (fuel : Nat) {s : Store Bytes} {root next : UInt32}
    {front ids : List Nat} {parts : List (List UInt8)} (hs : s.Sound)
    (hlead : Leads s.body root front INVALID_CATALOG) (hchain : Chain s.body next ids parts)
    (hnodup : (front ++ ids).Nodup) (hfuel : ids.length ≤ fuel) :
    (releaseChain fuel next).during zeroPage (Intact root) s := by
  have happ := List.nodup_append.mp hnodup
  have hfront : ∀ id ∈ front, s.Allocated id := fun id hid => by
    obtain ⟨parts', hwhole⟩ := hlead.chain .nil
    exact hs.allocated (hwhole.isSome id (by simpa using hid))
  have hhidden : Chain (s.hide (· ∈ front)).body next ids parts := hchain.congr fun id hid =>
    Store.hide_body fun hin => happ.2.2 id hin id hid rfl
  have hwp := releaseChain_spec fuel (hs.hide (F := (· ∈ front))) hhidden happ.2.1 hfuel
  refine PageM.during_mono (PageM.during_hide hs (.refl hfront) hwp) fun t ht => ?_
  exact (hlead.congr fun id hid => (ht id hid).2).intact .nil (by simpa using happ.1)

/-- Every store on the way of the writer has a chain at the old root. -/
theorem writeChunks_intact (chunks : List (List UInt8)) {s : Store Bytes} {root current : UInt32}
    {front ids : List Nat} {parts : List (List UInt8)}
    (h : Reached s root front current ids parts) (hne : chunks ≠ [])
    (hlen : ∀ chunk ∈ chunks, chunk.length ≤ CATALOG_PAYLOAD)
    (hcount : s.count + chunks.length ≤ 2 ^ 31) :
    (writeChunks chunks front.getLast? current).during zeroPage (Intact root) s := by
  induction chunks generalizing s current front ids parts with
  | nil => exact absurd rfl hne
  | cons chunk others ih =>
    simp only [List.length_cons] at hcount
    unfold writeChunks
    have htarget := PageM.wp_run (chainTarget_spec h.sound h.chain h.ownNodup h.back (by omega)
      fun _ => nextId_small h.sound (by omega))
    obtain ⟨id, page, rest, parts₁, hanswer, ht⟩ := htarget
    refine PageM.during_bind ?_ ?_
    · unfold chainTarget
      split
      · rename_i hinvalid
        subst hinvalid
        exact h.newChainPage (by omega)
      · exact h.intact
    · rw [hanswer]
      generalize ((chainTarget front.getLast? current).run zeroPage s).2 = s₁ at ht
      have hat := h.target ht
      have hchunk : chunk.length ≤ CATALOG_PAYLOAD := hlen chunk (by simp)
      refine ⟨hat.intact, ?_⟩
      rw [ht.holds]
      show PageM.during _ _ (if _ then _ else _) _
      split
      · -- the last chunk: the chain ends here, and the pages behind it go
        rename_i hlast
        have hend : u32At (putU32At (chainPage page chunk) 0 INVALID_CATALOG) 0
            = INVALID_CATALOG := u32At_putU32At ..
        have hwritten := hat.write hend .nil (by simpa using (List.nodup_append.mp hat.nodup).1)
        have hrest := @Chain.congr _ ((s₁.write id
          (putU32At (chainPage page chunk) 0 INVALID_CATALOG)).body) _ _ _ hat.chain fun other
                hother =>
          Function.update_of_ne (fun heq =>
            (List.nodup_append.mp hat.nodup).2.2 id (by simp) other hother heq.symm) _ _
        refine ⟨hat.intact, hwritten.intact, ?_⟩
        have hrestNodup := (List.nodup_append.mp hat.nodup).2.1
        have hreleased := releaseChain_intact _ hwritten.sound hwritten.leads hrest hat.nodup
          (length_le_count hwritten.sound hrestNodup hrest.isSome)
        show PageM.during _ _ (PageM.bind (releaseChain _ _) _) _
        exact PageM.during_bind hreleased (PageM.during_end hreleased)
      · rename_i hmore
        have hnext := next_chainPage page chunk
        have hrest := hat.chain
        have hwritten := hat.write hnext hrest hat.nodup
        have hothers : others ≠ [] := by simpa using hmore
        have hgrown : (s₁.write id (chainPage page chunk)).count ≤ s.count + 1 := ht.count
        have hbelow := ih hwritten hothers (fun c hc => hlen c (by simp [hc])) (by omega)
        rw [List.getLast?_concat] at hbelow
        refine ⟨hat.intact, ?_⟩
        show PageM.during _ _ (PageM.bind (writeChunks _ _ _) _) _
        refine PageM.during_bind hbelow ?_
        have hdone := PageM.during_end hbelow
        split <;> exact hdone

/-- Every store on the way of the catalog's writer has a chain at the old root. -/
theorem writeCatalogChain_intact {s : Store Bytes} {root : UInt32} {ids : List Nat}
    {parts : List (List UInt8)} (blob : List UInt8) (hs : s.Sound)
    (hchain : Chain s.body root ids parts) (hnodup : ids.Nodup)
    (hcount : s.count + (blob.length / CATALOG_PAYLOAD + 1) ≤ 2 ^ 31) :
    (writeCatalogChain blob root).during zeroPage (Intact root) s := by
  by_cases hroot : root = INVALID_CATALOG
  · -- nothing leads anywhere from the mark of an end
    subst hroot
    exact PageM.during_of_forall fun _ => ⟨[], [], .nil, List.nodup_nil⟩
  · have hpages := chunks_count (blob.length + 1) blob
    have hreached : Reached s root [] root ids parts :=
      ⟨hs, .nil, hchain, by simpa using hnodup, fun _ => hroot⟩
    have hlaid := writeChunks_intact _ hreached (chunks_ne_nil _ _) (chunks_length _ _)
      (Nat.le_trans (Nat.add_le_add_left hpages _) hcount)
    unfold writeCatalogChain
    refine PageM.during_bind hlaid ?_
    have hdone := PageM.during_end hlaid
    split <;> exact hdone

end DatabaseEngine
