import DatabaseEngine.Library.Run
import DatabaseEngine.Proofs.Pool.Quiet

/-!
# `DatabaseEngine.Proofs.Pool.Refinement`: the pool as a map from page id to contents

`PageMap` is what a holder of pages expects of the pool: for each allocated page the last
body written to it, and which pages it changed through a pointer without having said so in
`poolUnpin` yet. `Refines` relates a pool to such a map:

* the directory and the frames agree, so a page is resident at most once;
* a resident page holds the map's body, and if it is clean the file supplies that body too;
* for a page that is not resident the file supplies the map's body.

`Refines.quiet` and one lemma for each operation keep it, with the map changed as the
operation says (`PoolOp.next`). `Refines.run` is the induction over a run.

Two things a caller can do break the relation, and `PoolOp.Meets` is what remains: to free,
change or mark dirty a page that is not allocated; and to let an allocation hand out an id
that a freed page still holds a frame under. `poolWriteAll` faults freed pages in, so the
second does happen.
-/

set_option autoImplicit false

namespace DatabaseEngine

variable {α : Type} [PageBody α]

/-- What a holder of pages expects of the pool. -/
structure PageMap (α : Type) where
  /-- The last contents of each allocated page. -/
  body : Nat → Option α
  /-- Changed through a pointer, and not unpinned as dirty yet. -/
  owed : Nat → Bool

namespace PageMap

/-- The map with another body for a page. -/
def setBody (m : PageMap α) (id : Nat) (body : Option α) : PageMap α :=
  { m with body := Function.update m.body id body }

/-- The map where a page is owed to the log, or no longer. -/
def setOwed (m : PageMap α) (id : Nat) (owed : Bool) : PageMap α :=
  { m with owed := Function.update m.owed id owed }

/-- Two maps say the same of every page but one. -/
def AgreeOff (m m' : PageMap α) (id : Nat) : Prop :=
  ∀ other, other ≠ id → m'.body other = m.body other ∧ m'.owed other = m.owed other

omit [PageBody α] in
/-- The contents of a page are set and no other's. -/
theorem agreeOff_setBody (m : PageMap α) (id : Nat) (body : Option α) :
    m.AgreeOff (m.setBody id body) id := fun other hne => by
  simp [setBody, Function.update, hne]

omit [PageBody α] in
/-- What is owed for a page is set and for no other. -/
theorem agreeOff_setOwed (m : PageMap α) (id : Nat) (owed : Bool) :
    m.AgreeOff (m.setOwed id owed) id := fun other hne => by
  simp [setOwed, Function.update, hne]

omit [PageBody α] in
/-- Two changes of one page. -/
theorem AgreeOff.trans {m m' m'' : PageMap α} {id : Nat} (h : m.AgreeOff m' id)
    (h' : m'.AgreeOff m'' id) : m.AgreeOff m'' id := fun other hne =>
  ⟨(h' other hne).1.trans (h other hne).1, (h' other hne).2.trans (h other hne).2⟩

omit [PageBody α] in
/-- Nothing has changed. -/
theorem AgreeOff.rfl {m : PageMap α} {id : Nat} : m.AgreeOff m id := fun _ _ => ⟨by simp, by simp⟩

end PageMap

/-- A page that exists and is not on the free list. -/
def Pool.Allocated (p : Pool α) (id : Nat) : Prop := id < p.pageCount ∧ id ∉ p.freeIds

instance (p : Pool α) (id : Nat) : Decidable (p.Allocated id) :=
  inferInstanceAs (Decidable (_ ∧ _))

/-- The body the file would bring in for a page. -/
def Pool.supplies (p : Pool α) (id : Nat) : Option α := (p.fetch id).map Page.body

/-- `pageFrame[id]` is the frame that holds the page. -/
def Pool.Directory (p : Pool α) : Prop :=
  ∀ id i, p.pageFrame id = some i ↔ ∃ f, p.frames[i]? = some f ∧ f.pageId = some id

namespace Pool.Directory

variable {p : Pool α} {i : Nat} {f g : Frame α}

omit [PageBody α] in
/-- A page is resident at most once. -/
theorem unique (h : p.Directory) {id j : Nat} (hf : p.frames[i]? = some f)
    (hid : f.pageId = some id) (hg : p.frames[j]? = some g) (hid' : g.pageId = some id) :
    i = j := by
  have hi := (h id i).mpr ⟨f, hf, hid⟩
  have hj := (h id j).mpr ⟨g, hg, hid'⟩
  rw [hi] at hj
  exact Option.some.inj hj

omit [PageBody α] in
/-- No other frame holds a page that a frame held or holds from now on. -/
theorem other (h : p.Directory) (hf : p.frames[i]? = some f)
    (henter : ∀ id, g.pageId = some id → f.pageId = some id ∨ p.pageFrame id = none)
    {j id : Nat} {k : Frame α} (hij : i ≠ j) (hk : p.frames[j]? = some k)
    (hid : k.pageId = some id) : f.pageId ≠ some id ∧ g.pageId ≠ some id := by
  have hleft : f.pageId ≠ some id := fun hf' => hij (h.unique hf hf' hk hid)
  refine ⟨hleft, fun hg => ?_⟩
  have hres := (h id j).mpr ⟨k, hk, hid⟩
  rcases henter id hg with hf' | hnone
  · exact hleft hf'
  · rw [hnone] at hres
    exact absurd hres (by simp)

omit [PageBody α] in
/-- A frame is given another content, and the directory is told. -/
theorem exchange {q : Pool α} (h : p.Directory) (hf : p.frames[i]? = some f)
    (hframes : q.frames = p.frames.set i g)
    (hdir : ∀ id, q.pageFrame id = if g.pageId = some id then some i
      else if f.pageId = some id then none else p.pageFrame id)
    (henter : ∀ id, g.pageId = some id → f.pageId = some id ∨ p.pageFrame id = none) :
    q.Directory := by
  have hlt := lt_of_getElem? hf
  intro id j
  rw [hdir, hframes, List.getElem?_set]
  by_cases hij : i = j
  · subst hij
    rw [if_pos rfl, if_pos hlt]
    by_cases hg : g.pageId = some id
    · simp [hg]
    · by_cases hf' : f.pageId = some id
      · simp [hg, hf']
      · have hold := h id i
        simp only [hf] at hold
        simpa [hg, hf'] using hold
  · rw [if_neg hij]
    constructor
    · intro hres
      split at hres
      · exact absurd (Option.some.inj hres) hij
      · split at hres
        · exact absurd hres (by simp)
        · exact (h id j).mp hres
    · rintro ⟨k, hk, hid⟩
      obtain ⟨hf', hg⟩ := h.other hf henter hij hk hid
      rw [if_neg hg, if_neg hf']
      exact (h id j).mpr ⟨k, hk, hid⟩

end Pool.Directory

/-- What a frame that holds a page owes the map. -/
structure Frame.Sound (pageCount : Nat) (freeIds : List Nat) (supplies : Nat → Option α)
    (m : PageMap α) (f : Frame α) (id : Nat) : Prop where
  inRange : id < pageCount
  freeClean : id ∈ freeIds → f.dirty = false
  body : ∀ b, m.body id = some b → f.page.body = b
  supplied : f.dirty = false → m.owed id = false → ∀ b, m.body id = some b → supplies id = some b
  pinned : m.owed id = true → 0 < f.pins

/-- The pool holds the contents the map says. -/
structure Pool.Refines (p : Pool α) (m : PageMap α) : Prop where
  /-- `pageFrame[id]` is the frame that holds the page. -/
  directory : ∀ id i, p.pageFrame id = some i ↔ ∃ f, p.frames[i]? = some f ∧ f.pageId = some id
  sound : ∀ (i : Nat) f, p.frames[i]? = some f → ∀ id, f.pageId = some id →
    f.Sound p.pageCount p.freeIds p.supplies m id
  absent : ∀ id b, p.pageFrame id = none → m.body id = some b → p.supplies id = some b
  unallocated : ∀ id, ¬p.Allocated id → m.body id = none
  owedResident : ∀ id, m.owed id = true → p.pageFrame id ≠ none
  freeInRange : ∀ id ∈ p.freeIds, id < p.pageCount
  freeNodup : p.freeIds.Nodup

omit [PageBody α] in
/-- A frame stays sound when its reference bit changes, its page is stamped, and a page that
is owed stays pinned. -/
theorem Frame.Sound.touch {pageCount : Nat} {freeIds : List Nat} {supplies : Nat → Option α}
    {m : PageMap α} {f g : Frame α} {id : Nat} (h : f.Sound pageCount freeIds supplies m id)
    (hdirty : g.dirty = f.dirty) (hbody : g.page.body = f.page.body)
    (hpins : m.owed id = true → 0 < g.pins) : g.Sound pageCount freeIds supplies m id :=
  ⟨h.inRange, hdirty ▸ h.freeClean, hbody ▸ h.body, hdirty ▸ h.supplied, hpins⟩

namespace Pool.Refines

variable {p q : Pool α} {m m' : PageMap α} {id i : Nat} {f g : Frame α}

/-- A page that is not owed may be dropped from a clean frame. -/
theorem owed_eq_false (h : p.Refines m) (hf : p.frames[i]? = some f) (hid : f.pageId = some id)
    (hpins : f.pins = 0) : m.owed id = false := by
  cases howed : m.owed id with
  | false => rfl
  | true =>
    have := (h.sound i f hf id hid).pinned howed
    omega

/-- A page is resident at most once. -/
theorem frame_unique (h : p.Refines m) {j : Nat} (hf : p.frames[i]? = some f)
    (hid : f.pageId = some id) (hg : p.frames[j]? = some g) (hid' : g.pageId = some id) :
    i = j := by
  exact Pool.Directory.unique h.directory hf hid hg hid'

/-- A frame is given another content: the page it held leaves it, unless the new content is
of the same page, and the page it holds from then on was resident nowhere else. -/
theorem exchange (h : p.Refines m) {d : Nat → Option Nat} (hf : p.frames[i]? = some f)
    (hdir : ∀ id, d id = if g.pageId = some id then some i
      else if f.pageId = some id then none else p.pageFrame id)
    (hagree : ∀ id, f.pageId ≠ some id → g.pageId ≠ some id →
      m'.body id = m.body id ∧ m'.owed id = m.owed id)
    (henter : ∀ id, g.pageId = some id → (f.pageId = some id ∨ p.pageFrame id = none) ∧
      g.Sound p.pageCount p.freeIds p.supplies m' id)
    (hleave : ∀ id, f.pageId = some id → g.pageId ≠ some id → m'.owed id = false ∧
      ∀ b, m'.body id = some b → p.supplies id = some b)
    (hunallocated : ∀ id, ¬p.Allocated id → m'.body id = none) :
    ({ p.setFrame i g with pageFrame := d } : Pool α).Refines m' := by
  have hlt := lt_of_getElem? hf
  have hother := fun {j id : Nat} {k : Frame α} =>
    @Pool.Directory.other _ p i f g h.directory hf (fun id hg => (henter id hg).1) j id k
  constructor
  case directory =>
    exact Pool.Directory.exchange h.directory hf rfl hdir fun id hg => (henter id hg).1
  case sound =>
    intro j k hk id hid
    change (p.frames.set i g)[j]? = some k at hk
    rw [List.getElem?_set] at hk
    by_cases hij : i = j
    · subst hij
      obtain rfl : g = k := by simpa [hlt] using hk
      exact (henter id hid).2
    · rw [if_neg hij] at hk
      obtain ⟨hf', hg⟩ := hother hij hk hid
      obtain ⟨hbody, howed⟩ := hagree id hf' hg
      have hold := h.sound j k hk id hid
      exact ⟨hold.inRange, hold.freeClean, hbody ▸ hold.body,
        by rw [hbody, howed]; exact hold.supplied, howed ▸ hold.pinned⟩
  case absent =>
    intro id b hnone hb
    change d id = none at hnone
    rw [hdir] at hnone
    by_cases hg : g.pageId = some id
    · simp [hg] at hnone
    · by_cases hf' : f.pageId = some id
      · exact (hleave id hf' hg).2 b hb
      · rw [if_neg hg, if_neg hf'] at hnone
        exact h.absent id b hnone ((hagree id hf' hg).1 ▸ hb)
  case unallocated => exact hunallocated
  case owedResident =>
    intro id howed
    show d id ≠ none
    rw [hdir]
    by_cases hg : g.pageId = some id
    · simp [hg]
    · by_cases hf' : f.pageId = some id
      · rw [(hleave id hf' hg).1] at howed
        exact absurd howed (by simp)
      · rw [if_neg hg, if_neg hf']
        exact h.owedResident id ((hagree id hf' hg).2 ▸ howed)
  case freeInRange => exact h.freeInRange
  case freeNodup => exact h.freeNodup

/-- A frame changes and keeps its page, and with it what the map says of that page. -/
theorem setFrame (h : p.Refines m) (hf : p.frames[i]? = some f) (hid : f.pageId = some id)
    (hagree : m.AgreeOff m' id) (hg : g.pageId = some id)
    (hsound : g.Sound p.pageCount p.freeIds p.supplies m' id)
    (hunallocated : ∀ other, ¬p.Allocated other → m'.body other = none) :
    (p.setFrame i g).Refines m' := by
  have hres := (h.directory id i).mpr ⟨f, hf, hid⟩
  refine h.exchange hf (d := p.pageFrame) ?_ ?_ ?_ ?_ hunallocated
  · intro other
    by_cases hne : id = other
    · subst hne
      simp [hg, hres]
    · simp [hg, hid, hne]
  · intro other hother _
    exact hagree other fun hne => hother (hne ▸ hid)
  · intro other hother
    obtain rfl : id = other := by rw [hg] at hother; exact Option.some.inj hother
    exact ⟨Or.inl hid, hsound⟩
  · intro other hother hne
    obtain rfl : id = other := by rw [hid] at hother; exact Option.some.inj hother
    exact absurd hg hne

/-- A page that is resident nowhere is put into a free frame. -/
theorem place (h : p.Refines m) (hf : p.frames[i]? = some f) (hfree : f.pageId = none)
    (habsent : p.pageFrame id = none) (hagree : m.AgreeOff m' id) (hg : g.pageId = some id)
    (hsound : g.Sound p.pageCount p.freeIds p.supplies m' id)
    (hunallocated : ∀ other, ¬p.Allocated other → m'.body other = none) :
    (p.place i id g).Refines m' := by
  refine h.exchange hf (d := Function.update p.pageFrame id (some i)) ?_ ?_ ?_ ?_
    hunallocated
  · intro other
    by_cases hne : id = other
    · subst hne
      simp [hg]
    · simp [hg, hfree, hne, Function.update_of_ne (Ne.symm hne)]
  · intro other _ hother
    exact hagree other fun hne => hother (hne ▸ hg)
  · intro other hother
    obtain rfl : id = other := by rw [hg] at hother; exact Option.some.inj hother
    exact ⟨Or.inr habsent, hsound⟩
  · intro other hother
    exact absurd hother (by simp [hfree])

/-- The page in a frame leaves it. What the map says of the page afterwards, the file has to
supply. -/
theorem vacate (h : p.Refines m) (hf : p.frames[i]? = some f) (hid : f.pageId = some id)
    (hg : g.pageId = none) (hagree : m.AgreeOff m' id) (howed : m'.owed id = false)
    (hsupplies : ∀ b, m'.body id = some b → p.supplies id = some b)
    (hunallocated : ∀ other, ¬p.Allocated other → m'.body other = none) :
    ((p.setFrame i g).setDirectory id none).Refines m' := by
  refine h.exchange hf (d := Function.update p.pageFrame id none) ?_ ?_ ?_ ?_
    hunallocated
  · intro other
    by_cases hne : id = other
    · subst hne
      simp [hg, hid]
    · simp [hg, hid, hne, Function.update_of_ne (Ne.symm hne)]
  · intro other hother _
    exact hagree other fun hne => hother (hne ▸ hid)
  · intro other hother
    exact absurd hother (by simp [hg])
  · intro other hother _
    obtain rfl : id = other := by rw [hid] at hother; exact Option.some.inj hother
    exact ⟨howed, hsupplies⟩

/-- Pages the file supplied before a write of an intact page, it supplies afterwards. -/
theorem supplies_write {h : Nat} {page : Page α} (hfile : p.pageFile = some h)
    (hintact : page.intact = true) (other : Nat) :
    (p.setFile h ((p.files h).writePage id page)).supplies other
      = if other = id then some page.body
        else if p.supplies other = none
          then (p.setFile h ((p.files h).writePage id page)).supplies other
          else p.supplies other := by
  by_cases hne : other = id
  · subst hne
    simp [Pool.supplies, Pool.fetch, Pool.setFile, hfile, DbFile.readPage_writePage_same,
      Option.filter, hintact]
  · rw [if_neg hne]
    split
    · rfl
    · rename_i hsome
      have hold : ∃ old, (p.files h).readPage other = some old := by
        cases hread : (p.files h).readPage other with
        | none => simp [Pool.supplies, Pool.fetch, hfile, hread] at hsome
        | some old => exact ⟨old, rfl⟩
      obtain ⟨old, hold⟩ := hold
      simp [Pool.supplies, Pool.fetch, Pool.setFile, hfile, hold,
        DbFile.readPage_writePage_of_ne hne hold]

/-- A page is written into the file with the contents the map says. -/
theorem write {h : Nat} {page : Page α} (id : Nat) (href : p.Refines m) (hfile : p.pageFile = some h)
    (hintact : page.intact = true) (hbody : ∀ b, m.body id = some b → page.body = b) :
    (p.setFile h ((p.files h).writePage id page)).Refines m := by
  have hkeep : ∀ other b, m.body other = some b → p.supplies other = some b →
      (p.setFile h ((p.files h).writePage id page)).supplies other = some b := by
    intro other b hb hold
    rw [supplies_write hfile hintact]
    by_cases hne : other = id
    · subst hne
      simp [hbody b hb]
    · simp [hne, hold]
  constructor
  case directory => exact href.directory
  case sound =>
    intro j k hk other hother
    have hold := href.sound j k hk other hother
    exact ⟨hold.inRange, hold.freeClean, hold.body,
      fun hclean howed b hb => hkeep other b hb (hold.supplied hclean howed b hb), hold.pinned⟩
  case absent => exact fun other b hnone hb => hkeep other b hb (href.absent other b hnone hb)
  case unallocated => exact href.unallocated
  case owedResident => exact href.owedResident
  case freeInRange => exact href.freeInRange
  case freeNodup => exact href.freeNodup

/-- A frame is touched: what it holds, and whether that is clean, stays. -/
theorem touch (h : p.Refines m) (hf : p.frames[i]? = some f) (hid : g.pageId = f.pageId)
    (hdirty : g.dirty = f.dirty) (hbody : g.page.body = f.page.body)
    (hpins : ∀ id, f.pageId = some id → m.owed id = true → 0 < g.pins) :
    (p.setFrame i g).Refines m := by
  refine h.exchange hf (d := p.pageFrame) ?_ (fun _ _ _ => ⟨rfl, rfl⟩) ?_ ?_
    h.unallocated
  · intro id
    rw [hid]
    split
    · rename_i hf'
      exact (h.directory id i).mpr ⟨f, hf, hf'⟩
    · rfl
  · intro id hg
    rw [hid] at hg
    exact ⟨Or.inl hg, (h.sound i f hf id hg).touch hdirty hbody (hpins id hg)⟩
  · intro id hf' hg
    exact absurd (hid.trans hf') hg

/-- The notes on what was written, the hand and the log are nothing to the map. -/
theorem note (h : p.Refines m) (event : Io α) : (p.note event).Refines m :=
  ⟨h.directory, h.sound, h.absent, h.unallocated, h.owedResident, h.freeInRange, h.freeNodup⟩

/-- Free frames at the end of the pool change nothing. -/
theorem grow (h : p.Refines m) (n hand : Nat) :
    ({ p with frames := p.frames ++ List.replicate n Frame.free, hand := hand } :
      Pool α).Refines m := by
  have hget : ∀ (j : Nat) (f : Frame α) id, f.pageId = some id →
      ((p.frames ++ List.replicate n Frame.free)[j]? = some f ↔ p.frames[j]? = some f) := by
    intro j f id hid
    by_cases hlt : j < p.frames.length
    · rw [List.getElem?_append_left hlt]
    · rw [List.getElem?_append_right (by omega), List.getElem?_replicate,
        List.getElem?_eq_none (by omega)]
      have hne : Frame.free ≠ f := by
        rintro rfl
        exact absurd hid (by simp [Frame.free])
      simp [hne]
  constructor
  case directory =>
    intro id j
    show p.pageFrame id = some j ↔
      ∃ f, (p.frames ++ List.replicate n Frame.free)[j]? = some f ∧ f.pageId = some id
    rw [h.directory]
    exact exists_congr fun f => ⟨fun hf => ⟨(hget j f id hf.2).mpr hf.1, hf.2⟩,
      fun hf => ⟨(hget j f id hf.2).mp hf.1, hf.2⟩⟩
  case sound => exact fun j f hf id hid => h.sound j f ((hget j f id hid).mp hf) id hid
  case absent => exact h.absent
  case unallocated => exact h.unallocated
  case owedResident => exact h.owedResident
  case freeInRange => exact h.freeInRange
  case freeNodup => exact h.freeNodup

/-- The page of a frame is written out, and the frame is clean from then on. -/
theorem flush {inode : Nat} (h : p.Refines m) (hf : p.frames[i]? = some f)
    (hid : f.pageId = some id) (hfile : p.pageFile = some inode) :
    (((p.setFile inode ((p.files inode).writePage id (poolStampPage f.page))).setFrame i
      { f with page := poolStampPage f.page, dirty := false, logged := false }).note
      (Io.page inode id (poolStampPage f.page))).Refines m := by
  have hsound := h.sound i f hf id hid
  have hintact := poolStampPage_intact f.page
  have hwritten := h.write id hfile hintact hsound.body
  refine (hwritten.setFrame
    (g := { f with page := poolStampPage f.page, dirty := false, logged := false })
    hf hid PageMap.AgreeOff.rfl hid ?_ h.unallocated).note _
  refine ⟨hsound.inRange, fun _ => rfl, hsound.body, fun _ _ b hb => ?_, hsound.pinned⟩
  show (p.setFile inode _).supplies id = some b
  rw [supplies_write hfile hintact, if_pos rfl]
  exact congrArg some (hsound.body b hb)

/-- What the pool does of its own accord keeps the map. -/
theorem quiet (h : p.Refines m) (hmove : Quiet p q) : q.Refines m := by
  cases hmove with
  | turn hand _ =>
    exact ⟨h.directory, h.sound, h.absent, h.unallocated, h.owedResident, h.freeInRange,
      h.freeNodup⟩
  | touch i f hf referenced more =>
    refine h.touch hf rfl rfl rfl fun id hid howed => ?_
    exact Nat.lt_of_lt_of_le ((h.sound i f hf id hid).pinned howed) (Nat.le_add_right _ _)
  | writeBack i f id inode hf hid _ _ _ hfile _ => exact h.flush hf hid hfile
  | drop i f id hf hid hunpinned hclean =>
    have hsound := h.sound i f hf id hid
    have howed := h.owed_eq_false hf hid hunpinned
    have hdisown : p.disown i = p.setFrame i { f with pageId := none } := by
      simp only [Pool.disown, Pool.setFrame, modify_eq_set_of_getElem? _ hf]
    rw [hdisown]
    exact h.vacate hf hid rfl PageMap.AgreeOff.rfl howed (hsound.supplied hclean howed)
      h.unallocated
  | grow n _ => exact h.grow n 0

/-- Nothing that the pool does by itself ends the refinement. -/
theorem quietRun (h : p.Refines m) (hrun : QuietRun p q) : q.Refines m :=
  hrun.keeps (fun p => p.Refines m) (fun _ _ hmove h => h.quiet hmove) h

/-- Every frame changes in what the map does not see. -/
theorem mapEach (h : p.Refines m) (frames : List (Frame α))
    (hframes : ∀ i : Nat, ∃ k : Frame α → Frame α, frames[i]? = p.frames[i]?.map k ∧
      ∀ f, (k f).pageId = f.pageId ∧ (k f).dirty = f.dirty ∧ (k f).page.body = f.page.body ∧
        (k f).pins = f.pins) :
    ({ p with frames := frames } : Pool α).Refines m := by
  constructor
  case directory =>
    intro id i
    show p.pageFrame id = some i ↔ ∃ f, frames[i]? = some f ∧ f.pageId = some id
    obtain ⟨k, hk, hsame⟩ := hframes i
    rw [h.directory, hk]
    cases p.frames[i]? with
    | none => simp
    | some f => simp [(hsame f).1]
  case sound =>
    intro i g hg id hgid
    change frames[i]? = some g at hg
    obtain ⟨k, hk, hsame⟩ := hframes i
    rw [hk] at hg
    obtain ⟨f, hf, rfl⟩ := Option.map_eq_some_iff.mp hg
    obtain ⟨hid, hdirty, hbody, hpins⟩ := hsame f
    rw [hid] at hgid
    have hold := h.sound i f hf id hgid
    exact hold.touch hdirty hbody (hpins ▸ hold.pinned)
  case absent => exact h.absent
  case unallocated => exact h.unallocated
  case owedResident => exact h.owedResident
  case freeInRange => exact h.freeInRange
  case freeNodup => exact h.freeNodup

/-- A change of the frames that keeps their pages, their pins and whether they are dirty. -/
theorem mapFrames (h : p.Refines m) (k : Frame α → Frame α) (hid : ∀ f, (k f).pageId = f.pageId)
    (hdirty : ∀ f, (k f).dirty = f.dirty) (hbody : ∀ f, (k f).page.body = f.page.body)
    (hpins : ∀ f, (k f).pins = f.pins) :
    ({ p with frames := p.frames.map k } : Pool α).Refines m :=
  h.mapEach _ fun _ =>
    ⟨k, List.getElem?_map, fun f => ⟨hid f, hdirty f, hbody f, hpins f⟩⟩

/-- The frame of a resident page. -/
theorem frame_of_resident (h : p.Refines m) (hres : p.pageFrame id = some i) :
    ∃ f, p.frames[i]? = some f ∧ f.pageId = some id := (h.directory id i).mp hres

/-- A pin keeps the map, and answers the contents the map has for the page. -/
theorem pin {answer : Option Nat} (h : p.Refines m) (hpin : poolPin id p = (answer, q)) :
    q.Refines m ∧ (∀ i, answer = some i → q.pageFrame id = some i) ∧
    ∀ b, m.body id = some b → ∃ i, answer = some i ∧ (q.pageIn i).map Page.body = some b := by
  rcases poolPin_cases hpin with ⟨rfl, hrange, rfl⟩ | ⟨i, rfl, hrange, hres, rfl⟩ |
    ⟨r, hrange, habsent, hrun, hnone, ⟨rfl, hfetch, hq⟩ | ⟨i, f, page, rfl, hf, hfree, hfetch, rfl⟩⟩
  · refine ⟨h, by simp, fun b hb => ?_⟩
    have hout := h.unallocated id fun hallocated => absurd hallocated.1 (by omega)
    rw [hout] at hb
    exact absurd hb (by simp)
  · obtain ⟨f, hf, hid⟩ := h.frame_of_resident hres
    rw [modify_eq_set_of_getElem? _ hf]
    have hsound := h.sound i f hf id hid
    refine ⟨h.touch hf rfl rfl rfl fun _ _ _ => by simp, ?_, fun b hb => ⟨i, rfl, ?_⟩⟩
    · intro j hj
      obtain rfl := Option.some.inj hj
      exact hres
    · simp [Pool.pageIn, lt_of_getElem? hf, hsound.body b hb]
  · have hr := h.quietRun hrun
    have hsupplies : r.supplies id = none := by simp [Pool.supplies, hfetch]
    refine ⟨?_, by simp, fun b hb => ?_⟩
    · rcases hq with rfl | rfl
      · exact hr
      · exact ⟨hr.directory, hr.sound, hr.absent, hr.unallocated, hr.owedResident,
          hr.freeInRange, hr.freeNodup⟩
    · have := hr.absent id b hnone hb
      rw [hsupplies] at this
      exact absurd this (by simp)
  · have hr := h.quietRun hrun
    have hsupplies : r.supplies id = some page.body := by simp [Pool.supplies, hfetch]
    have hbody : ∀ b, m.body id = some b → page.body = b := by
      intro b hb
      have := hr.absent id b hnone hb
      rw [hsupplies] at this
      exact Option.some.inj this
    have hcount : r.pageCount = p.pageCount :=
      hrun.keeps (fun q => q.pageCount = p.pageCount) (fun _ _ hmove hq => by
        cases hmove <;> exact hq) rfl
    refine ⟨hr.place hf hfree hnone PageMap.AgreeOff.rfl rfl ?_ hr.unallocated, ?_, ?_⟩
    · exact ⟨hcount ▸ hrange, fun _ => rfl, hbody,
        fun _ _ b hb => by rw [hsupplies, hbody b hb], fun _ => Nat.one_pos⟩
    · intro j hj
      obtain rfl := Option.some.inj hj
      simp [Pool.place, Pool.setDirectory]
    · intro b hb
      refine ⟨i, rfl, ?_⟩
      simp [Pool.pageIn, Pool.place, Pool.setDirectory, Pool.setFrame, lt_of_getElem? hf,
        hbody b hb]

end Pool.Refines

/-- How often a page is pinned. -/
def Pool.pinsOf (p : Pool α) (id : Nat) : Nat :=
  match (findFrame id p).bind (p.frames[·]?) with
  | none => 0
  | some f => f.pins

namespace Pool.Refines

variable {p q : Pool α} {m m' : PageMap α} {id i : Nat} {f g : Frame α}

omit [PageBody α] in
/-- The pins of a page are those of its frame. -/
theorem pinsOf_eq (hres : p.pageFrame id = some i) (hf : p.frames[i]? = some f) :
    p.pinsOf id = f.pins := by
  simp [Pool.pinsOf, findFrame, hres, hf]

/-- A clean unpin keeps the map, if a page that is owed stays pinned. -/
theorem unpinClean (h : p.Refines m) (hpins : m.owed id = true → 2 ≤ p.pinsOf id) :
    (poolUnpin id false p).Refines m := by
  unfold poolUnpin findFrame
  split
  · exact h
  · rename_i i hres
    obtain ⟨f, hf, hid⟩ := h.frame_of_resident hres
    rw [modify_eq_set_of_getElem? _ hf]
    refine h.touch hf rfl (by simp) rfl fun other hother howed => ?_
    obtain rfl : id = other := by rw [hid] at hother; exact Option.some.inj hother
    have := hpins howed
    rw [pinsOf_eq hres hf] at this
    show 0 < f.pins - 1
    omega

/-- Unpinning a page as dirty settles what was owed. -/
theorem unpinDirty (h : p.Refines m) (hallocated : p.Allocated id) :
    (poolUnpin id true p).Refines (m.setOwed id false) := by
  unfold poolUnpin findFrame
  split
  · rename_i hnone
    have howed : m.owed id = false := by
      cases howed : m.owed id with
      | false => rfl
      | true => exact absurd hnone (h.owedResident id howed)
    have hsame : m.setOwed id false = m := by
      simp [PageMap.setOwed, ← howed]
    rw [hsame]
    exact h
  · rename_i i hres
    obtain ⟨f, hf, hid⟩ := h.frame_of_resident hres
    have hsound := h.sound i f hf id hid
    rw [modify_eq_set_of_getElem? _ hf]
    refine h.setFrame hf hid (m.agreeOff_setOwed id false) hid ?_ h.unallocated
    exact ⟨hsound.inRange, fun hin => absurd hin hallocated.2, hsound.body,
      fun hclean => absurd hclean (by simp), fun howed => absurd howed (by simp [PageMap.setOwed])⟩

/-- What a holder stores through its pointer is what the page holds. -/
theorem store {page : Page α} (h : p.Refines m) (hallocated : p.Allocated id)
    (hpins : 0 < p.pinsOf id) :
    (poolStore id page p).Refines ((m.setBody id (some page.body)).setOwed id true) := by
  cases hres : p.pageFrame id with
  | none => exact absurd hpins (by simp [Pool.pinsOf, findFrame, hres])
  | some i =>
    obtain ⟨f, hf, hid⟩ := h.frame_of_resident hres
    have hsound := h.sound i f hf id hid
    rw [pinsOf_eq hres hf] at hpins
    simp only [poolStore, findFrame, hres]
    rw [modify_eq_set_of_getElem? _ hf]
    refine h.setFrame hf hid
      ((m.agreeOff_setBody id _).trans (PageMap.agreeOff_setOwed _ id true)) hid ?_ ?_
    · refine ⟨hsound.inRange, fun hin => absurd hin hallocated.2, ?_, ?_, fun _ => hpins⟩
      · intro b hb
        simpa [PageMap.setBody, PageMap.setOwed] using hb
      · intro _ howed
        exact absurd howed (by simp [PageMap.setOwed])
    · intro other hother
      have hne : other ≠ id := by
        rintro rfl
        exact hother hallocated
      simpa [PageMap.setBody, PageMap.setOwed, hne] using h.unallocated other hother

/-- An id is taken: an allocated page is one still, and no page changes. -/
theorem taken (h : p.Refines m) : p.taken.Refines m := by
  have hcount : p.pageCount ≤ p.taken.pageCount := by
    simp only [Pool.taken]
    split <;> omega
  have htail : ∀ id ∈ p.taken.freeIds, id ∈ p.freeIds := fun id hin => List.mem_of_mem_tail hin
  constructor
  case directory => exact h.directory
  case sound =>
    intro i f hf id hid
    have hold := h.sound i f hf id hid
    exact ⟨Nat.lt_of_lt_of_le hold.inRange hcount, fun hin => hold.freeClean (htail id hin),
      hold.body, hold.supplied, hold.pinned⟩
  case absent => exact h.absent
  case unallocated =>
    intro id hid
    refine h.unallocated id fun hallocated => hid ⟨Nat.lt_of_lt_of_le hallocated.1 hcount, ?_⟩
    exact fun hin => hallocated.2 (htail id hin)
  case owedResident => exact h.owedResident
  case freeInRange =>
    exact fun id hin => Nat.lt_of_lt_of_le (h.freeInRange id (htail id hin)) hcount
  case freeNodup => exact h.freeNodup.tail

/-- The id an allocation takes is not allocated before it and is allocated after. -/
theorem nextId_allocated (h : p.Refines m) :
    ¬p.Allocated p.nextId ∧ p.taken.Allocated p.nextId := by
  unfold Pool.Allocated Pool.nextId Pool.taken
  cases hids : p.freeIds with
  | nil => simp
  | cons id rest =>
    have hrange := h.freeInRange id (by simp [hids])
    have hnodup := h.freeNodup
    rw [hids] at hnodup
    simpa using ⟨hrange, (List.nodup_cons.mp hnodup).1⟩

/-- An allocation hands out an id that was not allocated, with a cleared page. -/
theorem allocate (h : p.Refines m) (halloc : poolAllocate p = (id, q))
    (hfresh : ∀ top ∈ p.freeIds.head?, p.pageFrame top = none) :
    q.Refines ((m.setBody id (some PageBody.zero)).setOwed id false) ∧ ¬p.Allocated id ∧
      q.Allocated id := by
  obtain ⟨r, i, f, hrun, hf, hfree, rfl, rfl⟩ := poolAllocate_cases halloc
  have hr := h.quietRun hrun
  have hkept : r.freeIds = p.freeIds ∧ r.pageCount = p.pageCount :=
    hrun.keeps (fun q => q.freeIds = p.freeIds ∧ q.pageCount = p.pageCount)
      (fun _ _ hmove hq => by cases hmove <;> exact hq) ⟨rfl, rfl⟩
  have hnext : r.nextId = p.nextId := by simp [Pool.nextId, hkept.1, hkept.2]
  have habsent : r.pageFrame r.nextId = none := by
    cases hids : p.freeIds with
    | nil =>
      have hid : r.nextId = r.pageCount := by simp [Pool.nextId, hkept.1, hids]
      cases hres : r.pageFrame r.nextId with
      | none => rfl
      | some j =>
        obtain ⟨g, hg, hgid⟩ := hr.frame_of_resident hres
        have := (hr.sound j g hg _ hgid).inRange
        omega
    | cons top rest =>
      have htop : r.nextId = top := by simp [Pool.nextId, hkept.1, hids]
      rw [htop]
      exact hrun.keeps (fun q => q.pageFrame top = none) (fun _ _ hmove hq => hmove.absent hq)
        (hfresh top (by simp [hids]))
  obtain ⟨hbefore, hafter⟩ := hr.nextId_allocated
  refine ⟨?_, ?_, hafter⟩
  · refine hr.taken.place hf hfree habsent
      ((m.agreeOff_setBody _ _).trans (PageMap.agreeOff_setOwed _ _ false)) rfl ?_ ?_
    · refine ⟨hafter.1, fun hin => absurd hin hafter.2, ?_, fun hclean => absurd hclean (by simp),
        fun howed => absurd howed (by simp [PageMap.setOwed])⟩
      intro b hb
      simpa [PageMap.setBody, PageMap.setOwed] using hb
    · intro other hother
      have hne : other ≠ r.nextId := by
        rintro rfl
        exact hother hafter
      simpa [PageMap.setBody, PageMap.setOwed, hne] using hr.taken.unallocated other hother
  · rw [hnext]
    exact h.nextId_allocated.1

/-- A freed page is dropped, and its id may be handed out again. -/
theorem free (h : p.Refines m) (hallocated : p.Allocated id) :
    (poolFree id p).Refines ((m.setBody id none).setOwed id false) := by
  have hagree := (m.agreeOff_setBody id none).trans (PageMap.agreeOff_setOwed _ id false)
  -- The frame goes first, then the id goes on the list.
  have hdropped : ∀ r : Pool α, r.Refines ((m.setBody id none).setOwed id false) →
      r.freeIds = p.freeIds → r.pageCount = p.pageCount → r.pageFrame id = none →
      ({ r with freeIds := id :: r.freeIds } : Pool α).Refines
        ((m.setBody id none).setOwed id false) := by
    intro r hr hids hcount hnone
    constructor
    case directory => exact hr.directory
    case sound =>
      intro i f hf other hother
      have hold := hr.sound i f hf other hother
      refine ⟨hold.inRange, fun hin => ?_, hold.body, hold.supplied, hold.pinned⟩
      rcases List.mem_cons.mp hin with rfl | hin
      · have hres := (hr.directory other i).mpr ⟨f, hf, hother⟩
        rw [hnone] at hres
        exact absurd hres (by simp)
      · exact hold.freeClean hin
    case absent => exact hr.absent
    case unallocated =>
      intro other hother
      by_cases hne : other = id
      · simp [hne, PageMap.setBody, PageMap.setOwed]
      · refine hr.unallocated other fun hallocated => hother ⟨hallocated.1, fun hin => ?_⟩
        rcases List.mem_cons.mp hin with rfl | hin
        · exact hne rfl
        · exact hallocated.2 hin
    case owedResident => exact hr.owedResident
    case freeInRange =>
      intro other hin
      rcases List.mem_cons.mp hin with rfl | hin
      · exact hcount ▸ hallocated.1
      · exact hr.freeInRange other hin
    case freeNodup => exact List.nodup_cons.mpr ⟨hids ▸ hallocated.2, hr.freeNodup⟩
  have hmap : ∀ other, ¬p.Allocated other →
      ((m.setBody id none).setOwed id false).body other = none := by
    intro other hother
    by_cases hne : other = id
    · simp [hne, PageMap.setBody, PageMap.setOwed]
    · simpa [PageMap.setBody, PageMap.setOwed, hne] using h.unallocated other hother
  unfold poolFree findFrame
  cases hres : p.pageFrame id with
  | none =>
    refine hdropped p ?_ rfl rfl hres
    constructor
    case directory => exact h.directory
    case sound =>
      intro i f hf other hother
      have hold := h.sound i f hf other hother
      have hne : other ≠ id := by
        rintro rfl
        have := (h.directory other i).mpr ⟨f, hf, hother⟩
        rw [hres] at this
        exact absurd this (by simp)
      obtain ⟨hbody, howed⟩ := hagree other hne
      exact ⟨hold.inRange, hold.freeClean, hbody ▸ hold.body,
        by rw [hbody, howed]; exact hold.supplied, howed ▸ hold.pinned⟩
    case absent =>
      intro other b hnone hb
      by_cases hne : other = id
      · simp [hne, PageMap.setBody, PageMap.setOwed] at hb
      · exact h.absent other b hnone ((hagree other hne).1 ▸ hb)
    case unallocated => exact hmap
    case owedResident =>
      intro other howed
      by_cases hne : other = id
      · simp [hne, PageMap.setOwed] at howed
      · exact h.owedResident other ((hagree other hne).2 ▸ howed)
    case freeInRange => exact h.freeInRange
    case freeNodup => exact h.freeNodup
  | some i =>
    obtain ⟨f, hf, hid⟩ := h.frame_of_resident hres
    have hvacated := h.vacate (g := f.cleared) hf hid rfl hagree
      (by simp [PageMap.setOwed]) (by simp [PageMap.setBody, PageMap.setOwed]) hmap
    refine hdropped _ ?_ rfl rfl (by simp [Pool.setDirectory])
    show (({ p with frames := p.frames.modify i Frame.cleared } : Pool α).setDirectory id
      none).Refines _
    rw [modify_eq_set_of_getElem? _ hf]
    exact hvacated

/-- A commit changes nothing that the map sees. -/
theorem commit (h : p.Refines m) : (poolCommit p).Refines m := by
  unfold poolCommit
  split
  · exact h
  · dsimp only
    split
    · exact h
    · have hmapped := h.mapFrames
        (fun f =>
          let f := if f.unlogged then { f with page := poolStampPage f.page } else f
          if f.pageId.isSome && f.dirty then { f with logged := true } else f)
        (by intro f; dsimp only; split <;> split <;> rfl)
        (by intro f; dsimp only; split <;> split <;> rfl)
        (by intro f; dsimp only; split <;> split <;> rfl)
        (by intro f; dsimp only; split <;> split <;> rfl)
      exact ⟨hmapped.directory, hmapped.sound, hmapped.absent, hmapped.unallocated,
        hmapped.owedResident, hmapped.freeInRange, hmapped.freeNodup⟩

/-- A frame that is flushed. -/
theorem flushFrame (h : p.Refines m) (hflush : flushFrame i p = some q) : q.Refines m := by
  obtain ⟨f, id, inode, hf, hid, hfile, -, rfl⟩ := flushFrame_eq hflush
  exact h.flush hf hid hfile

/-- All frames that are dirty are flushed. -/
theorem flushDirty (n : Nat) (h : p.Refines m) : (flushDirty i n p).Refines m := by
  induction n generalizing i p with
  | zero => exact h
  | succ n ih =>
    unfold DatabaseEngine.flushDirty
    split
    · exact h
    · split
      · split
        · exact h
        · rename_i hflush
          exact ih (h.flushFrame hflush)
      · exact ih h

/-- The header is no page. -/
theorem writeHeader (h : p.Refines m) : (poolWriteHeader p).Refines m := by
  unfold poolWriteHeader
  split
  · rename_i inode _ hfile
    refine note ?_ _
    have hsupplies : (p.setFile inode
        ((p.files inode).writeFields p.pageCount p.catalogRootPage)).supplies = p.supplies := by
      funext id
      simp [Pool.supplies, Pool.fetch, Pool.setFile, hfile]
    constructor
    case directory => exact h.directory
    case sound => exact fun i f hf id hid => hsupplies ▸ h.sound i f hf id hid
    case absent => exact fun id b hnone hb => hsupplies ▸ h.absent id b hnone hb
    case unallocated => exact h.unallocated
    case owedResident => exact h.owedResident
    case freeInRange => exact h.freeInRange
    case freeNodup => exact h.freeNodup
  · exact h

/-- A checkpoint writes pages out with the contents the map has for them. -/
theorem checkpoint (h : p.Refines m) : (poolCheckpoint p).Refines m := by
  unfold poolCheckpoint
  split
  · rename_i inode _ _
    have hsynced := ((h.flushDirty (i := 0) p.frames.length).writeHeader).note
      (Io.syncFile inode)
    unfold walTruncate
    split
    · exact hsynced
    · exact ⟨hsynced.directory, hsynced.sound, hsynced.absent, hsynced.unallocated,
        hsynced.owedResident, hsynced.freeInRange, hsynced.freeNodup⟩
  · exact h

/-- A page that is owed is pinned twice after a pin. -/
theorem pinsOf_of_pin (h : p.Refines m) (hpin : poolPin id p = (some i, q))
    (howed : m.owed id = true) : 2 ≤ q.pinsOf id := by
  rcases poolPin_cases hpin with ⟨hnone, -, -⟩ | ⟨j, hj, -, hres, rfl⟩ | ⟨r, -, habsent, -⟩
  · exact absurd hnone (by simp)
  · obtain ⟨f, hf, hid⟩ := h.frame_of_resident hres
    have hpins := (h.sound j f hf id hid).pinned howed
    simp only [Pool.pinsOf, findFrame, hres, Option.bind_some, List.getElem?_modify_eq, hf,
      Option.map_eq_map, Option.map_some]
    omega
  · exact absurd habsent (h.owedResident id howed)

/-- A page that is pinned, stamped and let go is what it was. -/
theorem visit (h : p.Refines m) {start : Nat} (hpin : poolPin start p = (some i, q)) :
    (poolUnpin start false
      (poolStore start (poolStampPage ((q.pageIn i).getD Page.zero)) q)).Refines m := by
  have hq := h.pin hpin
  have hres := hq.2.1 i rfl
  obtain ⟨f, hf, hid⟩ := hq.1.frame_of_resident hres
  have hpins := h.pinsOf_of_pin hpin
  rw [pinsOf_eq hres hf] at hpins
  have hpage : (q.pageIn i).getD Page.zero = f.page := by simp [Pool.pageIn, hf]
  have hstore : poolStore start (poolStampPage f.page) q
      = q.setFrame i { f with page := poolStampPage f.page } := by
    simp [poolStore, findFrame, hres, Pool.setFrame, modify_eq_set_of_getElem? _ hf]
  rw [hpage, hstore]
  have hstored := hq.1.touch (g := { f with page := poolStampPage f.page }) hf rfl rfl rfl
    fun other hother howed => (hq.1.sound i f hf other hother).pinned howed
  have hget : (q.setFrame i { f with page := poolStampPage f.page }).frames[i]?
      = some { f with page := poolStampPage f.page } := by
    simp [Pool.setFrame, lt_of_getElem? hf]
  refine hstored.unpinClean fun howed => ?_
  rw [pinsOf_eq (p := q.setFrame i _) hres hget]
  exact hpins howed

/-- Pages that are written out. -/
theorem writePages (n : Nat) {start : Nat} (h : p.Refines m) :
    (writePages start n p).2.Refines m := by
  induction n generalizing start p with
  | zero => exact h
  | succ n ih =>
    unfold DatabaseEngine.writePages
    rcases hpin : poolPin start p with ⟨_ | i, q⟩
    · exact ih (h.pin hpin).1
    · exact ih (h.visit hpin)

/-- Streaming the pages out changes nothing that the map sees. -/
theorem writeAll (h : p.Refines m) : (poolWriteAll p).2.Refines m := h.writePages _

end Pool.Refines

end DatabaseEngine
