import DatabaseEngine.Library.Run
import DatabaseEngine.Model.Readers
import DatabaseEngine.Proofs.Pool.Runs

/-!
# `DatabaseEngine.Proofs.Pool.Readers`: pins of several readers, and the frames they keep

A frame is busy while it is pinned or holds changes that are not in the log. `Pool.Spares` says that
the busy frames of a pool are as they were, and `Pool.Regular` is what the sweep needs of the
directory and the hand. One turn of the hand is taken apart once (`sweepUnder_turn`); everything
about a sweep follows from that.

* `acquireFrameUnder_spares`: whatever the disk refuses, the frame that is acquired was not busy.
* `sweepUnder_refused`: a sweep that finds nothing has tried every frame that is free, clean or
  logged, and the disk has refused the last of these.
* `Sharing.Counted.step`: every call keeps the pins counted.
* `readers_keep_pins`: in every run of calls in which no allocation hands out an id that is
  resident, the pins are counted, no busy frame is given up, and the pool grows only when it has to.
* `freed_page_pinned`: a page that was freed is read in again, and then handed out as a new one.
-/

set_option autoImplicit false

namespace DatabaseEngine

open Library

variable {α : Type} [PageBody α]

/-- A frame that may not be given up: it is pinned, or has changes that are not in the log. -/
def Frame.Busy (f : Frame α) : Prop := 0 < f.pins ∨ (f.dirty = true ∧ f.logged = false)

/-- The directory and the hand are as the sweep needs them. -/
structure Pool.Regular (p : Pool α) : Prop where
  directory : p.Directory
  hand : p.frames.length = 0 ∨ p.hand < p.frames.length

/-- The frame is as it was, but for what a sweep may change in it, or it was not busy and holds
nothing. -/
def Frame.Spared (f g : Frame α) : Prop :=
  g.pageId = f.pageId ∧ g.pins = f.pins ∧
      (f.Busy → g.dirty = f.dirty ∧ g.logged = f.logged ∧ g.page = f.page) ∨
    ¬f.Busy ∧ g.pageId = none

/-- Every frame is spared, and further frames are free. -/
structure Pool.Spares (p q : Pool α) : Prop where
  frame : ∀ (i : Nat) f, p.frames[i]? = some f → ∃ g, q.frames[i]? = some g ∧ f.Spared g
  fresh : ∀ (i : Nat) g, q.frames[i]? = some g → p.frames.length ≤ i → g.pageId = none
  pageCount : q.pageCount = p.pageCount
  freeIds : q.freeIds = p.freeIds

omit [PageBody α] in
/-- A frame that was not touched is spared. -/
theorem Frame.Spared.refl (f : Frame α) : f.Spared f :=
  .inl ⟨rfl, rfl, fun _ => ⟨rfl, rfl, rfl⟩⟩

omit [PageBody α] in
/-- A frame that two steps spare. -/
theorem Frame.Spared.trans {f g k : Frame α} (h : f.Spared g) (h' : g.Spared k) : f.Spared k := by
  rcases h with ⟨hid, hpins, hsame⟩ | ⟨hidle, hnone⟩
  · -- what is busy before is busy in between
    have hbusy : f.Busy → g.Busy := by
      intro hf
      obtain ⟨hdirty, hlogged, -⟩ := hsame hf
      rcases hf with hpinned | ⟨hd, hl⟩
      · exact .inl (hpins ▸ hpinned)
      · exact .inr ⟨hdirty ▸ hd, hlogged ▸ hl⟩
    rcases h' with ⟨hid', hpins', hsame'⟩ | ⟨hidle', hnone'⟩
    · refine .inl ⟨hid'.trans hid, hpins'.trans hpins, fun hf => ?_⟩
      obtain ⟨hdirty, hlogged, hpage⟩ := hsame hf
      obtain ⟨hdirty', hlogged', hpage'⟩ := hsame' (hbusy hf)
      exact ⟨hdirty'.trans hdirty, hlogged'.trans hlogged, hpage'.trans hpage⟩
    · exact .inr ⟨fun hf => hidle' (hbusy hf), hnone'⟩
  · rcases h' with ⟨hid', -, -⟩ | ⟨-, hnone'⟩
    · exact .inr ⟨hidle, hid'.trans hnone⟩
    · exact .inr ⟨hidle, hnone'⟩

namespace Pool.Spares

variable {p q r : Pool α}

omit [PageBody α] in
/-- No frame is lost. -/
theorem length (h : p.Spares q) : p.frames.length ≤ q.frames.length := by
  rcases Nat.eq_zero_or_pos p.frames.length with hzero | hpos
  · omega
  · have hlast : p.frames.length - 1 < p.frames.length := by omega
    obtain ⟨f, hf⟩ := getElem?_of_lt hlast
    obtain ⟨g, hg, -⟩ := h.frame _ f hf
    have hlt := lt_of_getElem? hg
    omega

omit [PageBody α] in
/-- A pool that was not touched spares its frames. -/
theorem refl (p : Pool α) : p.Spares p where
  frame := fun _ f hf => ⟨f, hf, .refl f⟩
  fresh := fun i _ hg hle => absurd (lt_of_getElem? hg) (by omega)
  pageCount := rfl
  freeIds := rfl

omit [PageBody α] in
/-- Two steps that spare the frames, one behind the other. -/
theorem trans (h : p.Spares q) (h' : q.Spares r) : p.Spares r where
  frame := by
    intro i f hf
    obtain ⟨g, hg, hspared⟩ := h.frame i f hf
    obtain ⟨k, hk, hspared'⟩ := h'.frame i g hg
    exact ⟨k, hk, hspared.trans hspared'⟩
  fresh := by
    intro i k hk hle
    rcases Nat.lt_or_ge i q.frames.length with hlt | hge
    · obtain ⟨g, hg⟩ := getElem?_of_lt hlt
      obtain ⟨k', hk', hspared⟩ := h'.frame i g hg
      obtain rfl : k = k' := Option.some.inj (hk.symm.trans hk')
      have hfree := h.fresh i g hg hle
      rcases hspared with ⟨hid, -, -⟩ | ⟨-, hnone⟩
      · exact hid.trans hfree
      · exact hnone
    · exact h'.fresh i k hk hge
  pageCount := h'.pageCount.trans h.pageCount
  freeIds := h'.freeIds.trans h.freeIds

omit [PageBody α] in
/-- Nothing but one frame changes, and that is spared. -/
theorem of_set {i : Nat} {f g : Frame α} (hf : p.frames[i]? = some f) (hspared : f.Spared g)
    (hframes : q.frames = p.frames.set i g) (hcount : q.pageCount = p.pageCount)
    (hids : q.freeIds = p.freeIds) : p.Spares q where
  frame := by
    intro j k hk
    rw [hframes, List.getElem?_set]
    by_cases hij : i = j
    · subst hij
      obtain rfl : f = k := Option.some.inj (hf.symm.trans hk)
      exact ⟨g, by simp [lt_of_getElem? hf], hspared⟩
    · exact ⟨k, by rw [if_neg hij]; exact hk, .refl k⟩
  fresh := by
    intro j k hk hle
    have hlt := lt_of_getElem? hk
    rw [hframes, List.length_set] at hlt
    omega
  pageCount := hcount
  freeIds := hids

omit [PageBody α] in
/-- A page that is not resident stays so. -/
theorem absent (h : p.Spares q) (hp : p.Directory) (hq : q.Directory) {id : Nat}
    (habsent : p.pageFrame id = none) : q.pageFrame id = none := by
  cases hres : q.pageFrame id with
  | none => rfl
  | some i =>
    obtain ⟨g, hg, hid⟩ := (hq id i).mp hres
    rcases Nat.lt_or_ge i p.frames.length with hlt | hge
    · obtain ⟨f, hf⟩ := getElem?_of_lt hlt
      obtain ⟨g', hg', hspared⟩ := h.frame i f hf
      obtain rfl : g = g' := Option.some.inj (hg.symm.trans hg')
      rcases hspared with ⟨hsame, -, -⟩ | ⟨-, hnone⟩
      · have hold := (hp id i).mpr ⟨f, hf, hsame.symm.trans hid⟩
        rw [habsent] at hold
        exact absurd hold (by simp)
      · rw [hnone] at hid
        exact absurd hid (by simp)
    · have hfree := h.fresh i g hg hge
      rw [hfree] at hid
      exact absurd hid (by simp)

end Pool.Spares

/-! ### One turn of the hand -/

/-- The pools differ in the frames, the files and the notes on what was written only. -/
structure Pool.Beside (p q : Pool α) : Prop where
  hand : q.hand = p.hand
  pageFrame : q.pageFrame = p.pageFrame
  pageFile : q.pageFile = p.pageFile
  writable : q.writable = p.writable
  pageCount : q.pageCount = p.pageCount
  freeIds : q.freeIds = p.freeIds

/-- A flush writes the frame out and leaves it clean, or leaves it dirty with its page stamped or
not. It fails where the pool may not write, and where the disk says so. -/
theorem flushFrameUnder_cases {fault : Option (WriteFault α)} {p q : Pool α} {i id : Nat}
    {f : Frame α} {written : Bool} (hf : p.frames[i]? = some f) (hid : f.pageId = some id)
    (h : flushFrameUnder fault i p = (written, q)) :
    p.Beside q ∧
      (written = true ∧
          q.frames = p.frames.set i
            { f with page := poolStampPage f.page, dirty := false, logged := false } ∨
        written = false ∧ (p.writable = false ∨ p.pageFile = none ∨ fault.isSome) ∧
          (q.frames = p.frames ∨
            q.frames = p.frames.set i { f with page := poolStampPage f.page })) := by
  unfold flushFrameUnder at h
  split at h
  · split at h
    · rename_i hflush
      obtain ⟨rfl, rfl⟩ := Prod.mk.inj h
      refine ⟨⟨rfl, rfl, rfl, rfl, rfl, rfl⟩, .inr ⟨rfl, ?_, .inl rfl⟩⟩
      -- without a fault a flush fails only where the pool may not write
      cases hfile : p.pageFile with
      | none => exact .inr (.inl rfl)
      | some inode =>
        refine .inl (Bool.eq_false_iff.mpr fun hwritable => ?_)
        simp [flushFrame, hfile, hf, hid, hwritable] at hflush
    · rename_i hflush
      obtain ⟨rfl, rfl⟩ := Prod.mk.inj h
      obtain ⟨f', id', inode, hf', -, -, -, rfl⟩ := flushFrame_eq hflush
      obtain rfl : f = f' := Option.some.inj (hf.symm.trans hf')
      exact ⟨⟨rfl, rfl, rfl, rfl, rfl, rfl⟩, .inl ⟨rfl, rfl⟩⟩
  · obtain ⟨rfl, rfl⟩ := Prod.mk.inj h
    exact ⟨⟨rfl, rfl, rfl, rfl, rfl, rfl⟩, .inr ⟨rfl, .inr (.inr rfl), .inl rfl⟩⟩
  · split at h
    · obtain ⟨rfl, rfl⟩ := Prod.mk.inj h
      refine ⟨⟨rfl, rfl, rfl, rfl, rfl, rfl⟩, .inr ⟨rfl, .inr (.inr rfl), .inr ?_⟩⟩
      exact modify_eq_set_of_getElem? _ hf
    · obtain ⟨rfl, rfl⟩ := Prod.mk.inj h
      exact ⟨⟨rfl, rfl, rfl, rfl, rfl, rfl⟩, .inr ⟨rfl, .inr (.inr rfl), .inl rfl⟩⟩

/-- The hand passes over the frame it stands at. -/
inductive PassesBy (fault : Option (WriteFault α)) (p : Pool α) (f : Frame α) : Pool α → Prop
  | pinned (h : 0 < f.pins) : PassesBy fault p f p.turn
  | unlogged (hdirty : f.dirty = true) (h : p.writable = false ∨ f.logged = false) :
      PassesBy fault p f p.turn
  | referenced (hpins : f.pins = 0) (h : f.referenced = true) :
      PassesBy fault p f (p.turn.setFrame p.hand { f with referenced := false })
  | refused (q : Pool α) (hpins : f.pins = 0) (hdirty : f.dirty = true)
      (hwritable : p.writable = true) (hlogged : f.logged = true)
      (h : flushFrameUnder fault p.hand p.turn = (false, q)) : PassesBy fault p f q

/-- The hand stops at the frame, which is free or is made so. -/
inductive Stops (fault : Option (WriteFault α)) (p : Pool α) (f : Frame α) : Pool α → Prop
  | free (h : f.pageId = none) : Stops fault p f p.turn
  | clean (id : Nat) (hid : f.pageId = some id) (hpins : f.pins = 0) (h : f.dirty = false) :
      Stops fault p f (p.turn.setDirectory id none)
  | written (id : Nat) (q : Pool α) (hid : f.pageId = some id) (hpins : f.pins = 0)
      (hlogged : f.logged = true) (h : flushFrameUnder fault p.hand p.turn = (true, q)) :
      Stops fault p f (q.setDirectory id none)

/-- One turn of the hand. -/
theorem sweepUnder_turn {faults : Nat → Option (WriteFault α)} {fuel : Nat} {p q : Pool α}
    {answer : Option Nat} {f : Frame α} (hf : p.frames[p.hand]? = some f)
    (h : sweepUnder faults (fuel + 1) p = (answer, q)) :
    (∃ r id, f.pageId = some id ∧ PassesBy (faults 0) p f r ∧
        sweepUnder (fun n => faults (n + 1)) fuel r = (answer, q)) ∨
      answer = some p.hand ∧ Stops (faults 0) p f q := by
  unfold sweepUnder at h
  split at h
  · rename_i hnone
    exact absurd (hf.symm.trans hnone) (by simp)
  · rename_i g hg
    obtain rfl : f = g := Option.some.inj (hf.symm.trans hg)
    split at h
    · rename_i hid
      obtain ⟨rfl, rfl⟩ := Prod.mk.inj h
      exact .inr ⟨rfl, .free hid⟩
    · rename_i id hid
      split at h
      · rename_i hpins
        exact .inl ⟨_, id, hid, .pinned hpins, h⟩
      rename_i hpins
      have hunpinned : f.pins = 0 := by omega
      split at h
      · rename_i hmay
        have hstuck : f.dirty = true ∧ (p.writable = false ∨ f.logged = false) := by
          simpa [Pool.turn] using hmay
        exact .inl ⟨_, id, hid, .unlogged hstuck.1 hstuck.2, h⟩
      rename_i hmay
      have hfree : f.dirty = true → p.writable = true ∧ f.logged = true := by
        simpa [Pool.turn] using hmay
      split at h
      · rename_i href
        exact .inl ⟨_, id, hid, .referenced hunpinned href, h⟩
      split at h
      · rename_i hdirty
        obtain ⟨hwritable, hlogged⟩ := hfree hdirty
        split at h
        · rename_i r hflush
          exact .inl ⟨r, id, hid, .refused r hunpinned hdirty hwritable hlogged hflush, h⟩
        · rename_i r hflush
          obtain ⟨rfl, rfl⟩ := Prod.mk.inj h
          exact .inr ⟨rfl, .written id r hid hunpinned hlogged hflush⟩
      · rename_i hclean
        obtain ⟨rfl, rfl⟩ := Prod.mk.inj h
        exact .inr ⟨rfl, .clean id hid hunpinned (by simpa using hclean)⟩

/-- The frame is as it was, but for the reference bit, which was not set, and the stamp. -/
def Frame.Passed (f g : Frame α) : Prop :=
  g.pageId = f.pageId ∧ g.pins = f.pins ∧ g.dirty = f.dirty ∧ g.logged = f.logged ∧
    (g.referenced = true → f.referenced = true) ∧ (f.Busy → g.page = f.page)

omit [PageBody α] in
/-- A frame that the hand has passed is spared. -/
theorem Frame.Passed.spared {f g : Frame α} (h : f.Passed g) : f.Spared g :=
  .inl ⟨h.1, h.2.1, fun hbusy => ⟨h.2.2.1, h.2.2.2.1, h.2.2.2.2.2 hbusy⟩⟩

omit [PageBody α] in
/-- A frame that is not pinned and owes nothing is not busy. -/
theorem not_busy {f : Frame α} (hpins : f.pins = 0) (h : f.dirty = true → f.logged = true) :
    ¬f.Busy := by
  rintro (hpinned | ⟨hdirty, hlogged⟩)
  · omega
  · rw [h hdirty] at hlogged
    exact absurd hlogged (by simp)

/-- What a pool is after the hand has passed over a frame. -/
theorem PassesBy.spec {fault : Option (WriteFault α)} {p r : Pool α} {f : Frame α}
    (hf : p.frames[p.hand]? = some f) (hid : f.pageId ≠ none) (h : PassesBy fault p f r) :
    (∃ g, f.Passed g ∧ r.frames = p.frames.set p.hand g) ∧
      r.hand = (p.hand + 1) % p.frames.length ∧ r.pageFrame = p.pageFrame ∧
      r.pageFile = p.pageFile ∧ r.writable = p.writable ∧ r.pageCount = p.pageCount ∧
      r.freeIds = p.freeIds := by
  obtain ⟨hlt, hget⟩ := List.getElem?_eq_some_iff.mp hf
  have hself : p.frames = p.frames.set p.hand f := by
    rw [← hget]
    exact (List.set_getElem_self hlt).symm
  have hsame : f.Passed f := ⟨rfl, rfl, rfl, rfl, id, fun _ => rfl⟩
  cases h with
  | pinned h => exact ⟨⟨f, hsame, hself⟩, rfl, rfl, rfl, rfl, rfl, rfl⟩
  | unlogged hdirty h => exact ⟨⟨f, hsame, hself⟩, rfl, rfl, rfl, rfl, rfl, rfl⟩
  | referenced hpins h =>
    refine ⟨⟨_, ?_, rfl⟩, rfl, rfl, rfl, rfl, rfl, rfl⟩
    exact ⟨rfl, rfl, rfl, rfl, fun _ => h, fun _ => rfl⟩
  | refused q hpins hdirty hwritable hlogged h =>
    obtain ⟨id, hid⟩ := Option.ne_none_iff_exists'.mp hid
    obtain ⟨hbeside, ⟨hwritten, -⟩ | ⟨-, -, hframes⟩⟩ :=
      flushFrameUnder_cases (p := p.turn) hf hid h
    · exact absurd hwritten (by simp)
    · have hidle := not_busy hpins fun _ => hlogged
      refine ⟨?_, hbeside.hand, hbeside.pageFrame, hbeside.pageFile, hbeside.writable,
        hbeside.pageCount, hbeside.freeIds⟩
      rcases hframes with hframes | hframes
      · exact ⟨f, hsame, hframes.trans hself⟩
      · refine ⟨_, ?_, hframes⟩
        exact ⟨rfl, rfl, rfl, rfl, fun h => h, fun hbusy => absurd hbusy hidle⟩

/-- A turn of the hand spares what is busy and keeps the pool regular. -/
theorem PassesBy.spares {fault : Option (WriteFault α)} {p r : Pool α} {f : Frame α}
    (hp : p.Regular) (hf : p.frames[p.hand]? = some f) (hid : f.pageId ≠ none)
    (h : PassesBy fault p f r) :
    p.Spares r ∧ r.Regular ∧ r.frames.length = p.frames.length := by
  obtain ⟨⟨g, hpassed, hframes⟩, hhand, hdir, -, -, hcount, hids⟩ := h.spec hf hid
  have hlength : r.frames.length = p.frames.length := by rw [hframes, List.length_set]
  have hpos : 0 < p.frames.length := Nat.lt_of_le_of_lt (Nat.zero_le _) (lt_of_getElem? hf)
  refine ⟨.of_set hf hpassed.spared hframes hcount hids, ⟨?_, .inr ?_⟩, hlength⟩
  · refine hp.directory.exchange hf hframes (fun id => ?_) fun id hg => .inl (hpassed.1 ▸ hg)
    rw [hdir, hpassed.1]
    split
    · rename_i hsome
      exact (hp.directory id p.hand).mpr ⟨f, hf, hsome⟩
    · rfl
  · rw [hhand, hlength]
    exact Nat.mod_lt _ hpos

/-- The frame at which the hand stops is free once it is disowned, and was not busy. -/
theorem Stops.spares {fault : Option (WriteFault α)} {p q : Pool α} {f : Frame α}
    (hp : p.Regular) (hf : p.frames[p.hand]? = some f) (h : Stops fault p f q) :
    p.Spares (q.disown p.hand) ∧ (q.disown p.hand).Regular ∧
      (q.disown p.hand).frames.length = p.frames.length := by
  have hpos : 0 < p.frames.length := Nat.lt_of_le_of_lt (Nat.zero_le _) (lt_of_getElem? hf)
  -- in each case the frame holds nothing and the directory has lost what it held
  have hvacated : ∀ g : Frame α, g.pageId = none → f.Spared g →
      (q.disown p.hand).frames = p.frames.set p.hand g →
      q.hand = (p.hand + 1) % p.frames.length →
      (∀ id, q.pageFrame id = if f.pageId = some id then none else p.pageFrame id) →
      q.pageCount = p.pageCount → q.freeIds = p.freeIds →
      p.Spares (q.disown p.hand) ∧ (q.disown p.hand).Regular ∧
        (q.disown p.hand).frames.length = p.frames.length := by
    intro g hnone hspared hframes hhand hdir hcount hids
    have hlength : (q.disown p.hand).frames.length = p.frames.length := by
      rw [hframes, List.length_set]
    refine ⟨.of_set hf hspared hframes hcount hids, ⟨?_, .inr ?_⟩, hlength⟩
    · refine hp.directory.exchange hf hframes (fun id => ?_) fun id hg => ?_
      · rw [hnone, if_neg (by simp)]
        exact hdir id
      · rw [hnone] at hg
        exact absurd hg (by simp)
    · show q.hand < (q.disown p.hand).frames.length
      rw [hhand, hlength]
      exact Nat.mod_lt _ hpos
  cases h with
  | free hnone =>
    refine hvacated f hnone (.refl f) ?_ rfl (fun id => ?_) rfl rfl
    · show p.frames.modify p.hand (fun f => { f with pageId := none }) = _
      rw [modify_eq_set_of_getElem? _ hf]
      simp only [← hnone]
    · rw [hnone, if_neg (by simp)]
      rfl
  | clean id hid hpins hclean =>
    have hidle : ¬f.Busy := not_busy hpins fun hdirty => absurd hdirty (by simp [hclean])
    refine hvacated { f with pageId := none } rfl (.inr ⟨hidle, rfl⟩) ?_ rfl (fun other => ?_)
      rfl rfl
    · exact modify_eq_set_of_getElem? _ hf
    · show Function.update p.pageFrame id none other = _
      rw [Function.update_apply, hid]
      simp only [Option.some.injEq, eq_comm]
  | written id r hid hpins hlogged hflush =>
    have hidle : ¬f.Busy := not_busy hpins fun _ => hlogged
    obtain ⟨hbeside, ⟨-, hframes⟩ | ⟨hrefused, -⟩⟩ :=
      flushFrameUnder_cases (p := p.turn) hf hid hflush
    · refine hvacated { f with
        page := poolStampPage f.page, dirty := false, logged := false, pageId := none } rfl
        (.inr ⟨hidle, rfl⟩) ?_ hbeside.hand (fun other => ?_) hbeside.pageCount hbeside.freeIds
      · show r.frames.modify p.hand (fun f => { f with pageId := none }) = _
        have hget : r.frames[p.hand]? = some
            { f with page := poolStampPage f.page, dirty := false, logged := false } := by
          rw [hframes]
          exact List.getElem?_set_self (lt_of_getElem? hf)
        rw [modify_eq_set_of_getElem? _ hget, hframes]
        exact List.set_set ..
      · show Function.update r.pageFrame id none other = _
        rw [Function.update_apply, hid, hbeside.pageFrame]
        simp only [Option.some.injEq, eq_comm]
        rfl
    · exact absurd hrefused (by simp)

/-- The sweep spares what is busy. -/
theorem sweepUnder_spares {fuel : Nat} {faults : Nat → Option (WriteFault α)} {p q : Pool α}
    {answer : Option Nat} (hp : p.Regular) (h : sweepUnder faults fuel p = (answer, q)) :
    (answer = none → p.Spares q ∧ q.Regular ∧ q.frames.length = p.frames.length) ∧
    ∀ i, answer = some i → i < q.frames.length ∧ p.Spares (q.disown i) ∧ (q.disown i).Regular ∧
      (q.disown i).frames.length = p.frames.length := by
  induction fuel generalizing faults p with
  | zero =>
    obtain ⟨rfl, rfl⟩ : none = answer ∧ p = q := by simpa [sweepUnder] using h
    exact ⟨fun _ => ⟨.refl p, hp, rfl⟩, fun i hi => absurd hi (by simp)⟩
  | succ fuel ih =>
    rcases hp.hand with hempty | hlt
    · -- without frames the hand meets nothing
      have hnone : p.turn.frames[p.hand]? = none :=
        List.getElem?_eq_none (Nat.le_trans (Nat.le_of_eq hempty) (Nat.zero_le _))
      unfold sweepUnder at h
      rw [hnone] at h
      obtain ⟨rfl, rfl⟩ := Prod.mk.inj h
      exact ⟨fun _ => ⟨⟨(Pool.Spares.refl p).frame, (Pool.Spares.refl p).fresh, rfl, rfl⟩,
        ⟨hp.directory, .inl hempty⟩, rfl⟩, fun i hi => absurd hi (by simp)⟩
    · obtain ⟨f, hf⟩ := getElem?_of_lt hlt
      rcases sweepUnder_turn hf h with ⟨r, id, hid, hpasses, hrest⟩ | ⟨rfl, hstops⟩
      · obtain ⟨hspares, hregular, hlength⟩ := hpasses.spares hp hf (by simp [hid])
        obtain ⟨hnone, hsome⟩ := ih hregular hrest
        refine ⟨fun hanswer => ?_, fun i hi => ?_⟩
        · obtain ⟨hspares', hregular', hlength'⟩ := hnone hanswer
          exact ⟨hspares.trans hspares', hregular', hlength'.trans hlength⟩
        · obtain ⟨hi', hspares', hregular', hlength'⟩ := hsome i hi
          exact ⟨hi', hspares.trans hspares', hregular', hlength'.trans hlength⟩
      · obtain ⟨hspares, hregular, hlength⟩ := hstops.spares hp hf
        refine ⟨fun hanswer => absurd hanswer (by simp), fun i hi => ?_⟩
        obtain rfl := Option.some.inj hi
        refine ⟨?_, hspares, hregular, hlength⟩
        have hsame : (q.disown p.hand).frames.length = q.frames.length := by simp [Pool.disown]
        omega

/-- Free frames are added at the end. -/
theorem growFrames_spares {p : Pool α} (hp : p.Regular) :
    p.Spares { growFrames p with hand := 0 } ∧
      ({ growFrames p with hand := 0 } : Pool α).Regular ∧
      ({ growFrames p with hand := 0 } : Pool α).frames[p.frames.length]? = some Frame.free := by
  have hpos : 0 < (if p.frames.length ≠ 0 then p.frames.length * 2 else INITIAL_FRAMES)
      - p.frames.length := by
    have hinitial : 0 < INITIAL_FRAMES := by decide
    split <;> omega
  unfold growFrames
  dsimp only
  generalize (if p.frames.length ≠ 0 then p.frames.length * 2 else INITIAL_FRAMES)
      - p.frames.length = n at hpos ⊢
  have hnew : ∀ (i : Nat) (g : Frame α), p.frames.length ≤ i →
      (p.frames ++ List.replicate n Frame.free)[i]? = some g → g = Frame.free := by
    intro i g hle hg
    rw [List.getElem?_append_right hle] at hg
    exact List.eq_of_mem_replicate (List.mem_of_getElem? hg)
  have hold : ∀ (i : Nat) (f : Frame α), p.frames[i]? = some f →
      (p.frames ++ List.replicate n Frame.free)[i]? = some f := by
    intro i f hf
    rw [List.getElem?_append_left (lt_of_getElem? hf)]
    exact hf
  refine ⟨⟨fun i f hf => ⟨f, hold i f hf, .refl f⟩, fun i g hg hle => ?_, rfl, rfl⟩,
    ⟨fun id i => ?_, .inr ?_⟩, ?_⟩
  · rw [hnew i g hle hg]
    rfl
  · show p.pageFrame id = some i ↔
      ∃ f, (p.frames ++ List.replicate n Frame.free)[i]? = some f ∧ f.pageId = some id
    rw [hp.directory]
    constructor
    · rintro ⟨f, hf, hid⟩
      exact ⟨f, hold i f hf, hid⟩
    · rintro ⟨f, hf, hid⟩
      rcases Nat.lt_or_ge i p.frames.length with hlt | hge
      · rw [List.getElem?_append_left hlt] at hf
        exact ⟨f, hf, hid⟩
      · rw [hnew i f hge hf] at hid
        exact absurd hid (by simp [Frame.free])
  · show 0 < (p.frames ++ List.replicate n Frame.free).length
    rw [List.length_append, List.length_replicate]
    omega
  · show (p.frames ++ List.replicate n Frame.free)[p.frames.length]? = some Frame.free
    rw [List.getElem?_append_right (Nat.le_refl _), Nat.sub_self,
      List.getElem?_replicate_of_lt hpos]

/-- Whatever the disk refuses, the frame that is acquired holds nothing once it is disowned, and
nothing busy was given up for it. The pool has grown only if the sweep found nothing. -/
theorem acquireFrameUnder_spares {faults : DiskFaults α} {p q : Pool α} {i : Nat}
    (hp : p.Regular) (h : acquireFrameUnder faults p = (i, q)) :
    p.Spares (q.disown i) ∧ (q.disown i).Regular ∧
      (∃ f, (q.disown i).frames[i]? = some f ∧ f.pageId = none) ∧
      ((q.disown i).frames.length ≠ p.frames.length →
        ∃ r, sweepUnder faults.flush (p.frames.length * 2) p = (none, r)) := by
  unfold acquireFrameUnder at h
  split at h
  · rename_i j r hsweep
    obtain ⟨rfl, rfl⟩ := Prod.mk.inj h
    obtain ⟨hlt, hspares, hregular, hlength⟩ := (sweepUnder_spares hp hsweep).2 j rfl
    obtain ⟨f, hf⟩ := getElem?_of_lt hlt
    refine ⟨hspares, hregular, ⟨{ f with pageId := none }, ?_, rfl⟩, fun hne => absurd hlength hne⟩
    simp [Pool.disown, hf]
  · rename_i r hsweep
    obtain ⟨rfl, rfl⟩ := Prod.mk.inj h
    obtain ⟨hspares, hregular, hlength⟩ := (sweepUnder_spares hp hsweep).1 rfl
    obtain ⟨hgrown, hregular', hnew⟩ := growFrames_spares hregular
    rw [Pool.disown_of_free hnew rfl]
    exact ⟨hspares.trans hgrown, hregular', ⟨_, hnew, rfl⟩, fun _ => ⟨r, hsweep⟩⟩

/-- A sweep that finds nothing has met every frame. One that is not pinned and may go is dirty, and
its write was refused when the hand stood at it. -/
theorem sweepUnder_refused {fuel : Nat} {faults : Nat → Option (WriteFault α)} {p q : Pool α}
    {i k : Nat} {f : Frame α} (h : sweepUnder faults fuel p = (none, q))
    (hhand : p.hand < p.frames.length) (hf : p.frames[i]? = some f)
    (hk : (p.hand + k) % p.frames.length = i)
    (hfuel : k + (if f.referenced then p.frames.length else 0) < fuel) :
    f.pageId ≠ none ∧
      (f.pins = 0 → (f.dirty = true → p.writable = true ∧ f.logged = true) →
        f.dirty = true ∧ (p.pageFile = none ∨
          ∃ j < fuel, (p.hand + j) % p.frames.length = i ∧ (faults j).isSome)) := by
  induction fuel generalizing faults p k f with
  | zero => omega
  | succ fuel ih =>
    obtain ⟨g, hg⟩ := getElem?_of_lt hhand
    obtain ⟨r, id, hid, hpasses, hrest⟩ :=
      (sweepUnder_turn hg h).resolve_right fun hstops => absurd hstops.1 (by simp)
    obtain ⟨⟨g', -, hframes⟩, hturned, -, hfile, hwritable, -, -⟩ := hpasses.spec hg (by simp [hid])
    have hlength : r.frames.length = p.frames.length := by rw [hframes, List.length_set]
    have hhand' : r.hand < r.frames.length := by
      rw [hturned, hlength]
      exact Nat.mod_lt _ (Nat.lt_of_le_of_lt (Nat.zero_le _) hhand)
    -- a turn later the hand is one frame nearer
    have hnearer : ∀ j, (r.hand + j) % r.frames.length = (p.hand + (j + 1)) % p.frames.length := by
      intro j
      rw [hturned, hlength, Nat.mod_add_mod, Nat.add_assoc, Nat.add_comm 1 j]
    have hlater : (r.pageFile = none ∨
        ∃ j < fuel, (r.hand + j) % r.frames.length = i ∧ (faults (j + 1)).isSome) →
        p.pageFile = none ∨
          ∃ j < fuel + 1, (p.hand + j) % p.frames.length = i ∧ (faults j).isSome := by
      rintro (hnone | ⟨j, hj, hat, hfault⟩)
      · exact .inl (hfile ▸ hnone)
      · exact .inr ⟨j + 1, Nat.succ_lt_succ hj, (hnearer j) ▸ hat, hfault⟩
    by_cases hat : p.hand = i
    · -- the hand stands at the frame
      subst hat
      obtain rfl : g = f := Option.some.inj (hg.symm.trans hf)
      refine ⟨by simp [hid], fun hpins hmay => ?_⟩
      cases hpasses with
      | pinned hpinned => omega
      | unlogged hdirty hstuck =>
        obtain ⟨hw, hl⟩ := hmay hdirty
        rcases hstuck with hstuck | hstuck
        · exact absurd (hw.symm.trans hstuck) (by simp)
        · exact absurd (hl.symm.trans hstuck) (by simp)
      | referenced _ href =>
        rw [href, if_pos rfl] at hfuel
        have hget : (p.turn.setFrame p.hand { g with referenced := false }).frames[p.hand]? =
            some { g with referenced := false } := List.getElem?_set_self hhand
        obtain ⟨-, hwrote⟩ := ih (k := p.frames.length - 1) hrest hhand' hget
          (by
            rw [hnearer, show p.hand + (p.frames.length - 1 + 1) = p.hand + p.frames.length by omega,
              Nat.add_mod_right]
            exact Nat.mod_eq_of_lt hhand)
          (by
            show p.frames.length - 1 + 0 < fuel
            omega)
        exact (hwrote hpins hmay).imp_right hlater
      | refused r _ hdirty hw hl hflush =>
        refine ⟨hdirty, ?_⟩
        obtain ⟨-, ⟨hwritten, -⟩ | ⟨-, hwhy, -⟩⟩ :=
          flushFrameUnder_cases (p := p.turn) hg hid hflush
        · exact absurd hwritten (by simp)
        · rcases hwhy with hnot | hnone | hfault
          · exact absurd (hw.symm.trans hnot) (by simp)
          · exact .inl hnone
          · exact .inr ⟨0, Nat.succ_pos _, Nat.mod_eq_of_lt hhand, hfault⟩
    · cases k with
      | zero => exact absurd ((Nat.mod_eq_of_lt hhand).symm.trans hk) hat
      | succ k =>
        have hget : r.frames[i]? = some f := by
          rw [hframes, List.getElem?_set_ne hat]
          exact hf
        obtain ⟨hid', hwrote⟩ := ih (k := k) hrest hhand' hget ((hnearer k).trans hk)
          (by rw [hlength]; omega)
        refine ⟨hid', fun hpins hmay => (hwrote hpins ?_).imp_right hlater⟩
        rw [hwritable]
        exact hmay

/-- A frame to fill in a pool whose busy frames are spared. It has grown only if the sweep found
nothing. -/
structure Acquired (faults : DiskFaults α) (p r : Pool α) (i : Nat) : Prop where
  spares : p.Spares r
  regular : r.Regular
  free : ∃ f, r.frames[i]? = some f ∧ f.pageId = none
  grown : r.frames.length ≠ p.frames.length →
    ∃ q, sweepUnder faults.flush (p.frames.length * 2) p = (none, q)

/-- A pin finds the page resident, or fills a frame with it, or is refused. -/
theorem poolPinUnder_cases {faults : DiskFaults α} {p q : Pool α} {id : Nat} {answer : Option Nat}
    (hp : p.Regular) (h : poolPinUnder faults id p = (answer, q)) :
    (answer = none ∧ q = p) ∨
    (∃ i, answer = some i ∧ id < p.pageCount ∧ p.pageFrame id = some i ∧
      q = { p with
        frames := p.frames.modify i fun f => { f with referenced := true, pins := f.pins + 1 } }) ∨
    ∃ r i, id < p.pageCount ∧ p.pageFrame id = none ∧ Acquired faults p r i ∧
      ((answer = none ∧ ∃ corrupt, q = { r with corrupt := corrupt }) ∨
       ∃ g, answer = some i ∧ g.pageId = some id ∧ g.pins = 1 ∧ q = r.place i id g) := by
  unfold poolPinUnder at h
  split at h
  case isFalse =>
    obtain ⟨rfl, rfl⟩ := Prod.mk.inj h
    exact .inl ⟨rfl, rfl⟩
  case isTrue hrange =>
    cases hfind : findFrame id p with
    | some i =>
      rw [hfind] at h
      obtain ⟨rfl, rfl⟩ := Prod.mk.inj h
      exact .inr (.inl ⟨i, rfl, hrange, hfind, rfl⟩)
    | none =>
      rw [hfind] at h
      rcases hacquire : acquireFrameUnder faults p with ⟨i, r⟩
      rw [hacquire] at h
      obtain ⟨hspares, hregular, hfree, hgrown⟩ := acquireFrameUnder_spares hp hacquire
      refine .inr (.inr ⟨r.disown i, i, hrange, hfind, ⟨hspares, hregular, hfree, hgrown⟩, ?_⟩)
      dsimp only at h
      split at h
      · obtain ⟨rfl, rfl⟩ := Prod.mk.inj h
        exact .inl ⟨rfl, _, rfl⟩
      · split at h
        · obtain ⟨rfl, rfl⟩ := Prod.mk.inj h
          refine .inl ⟨rfl, ?_⟩
          split
          · exact ⟨_, rfl⟩
          · exact ⟨_, rfl⟩
        · obtain ⟨rfl, rfl⟩ := Prod.mk.inj h
          exact .inr ⟨_, rfl, rfl, rfl, rfl⟩

/-- An allocation takes an id and fills a frame for it. -/
theorem poolAllocateUnder_cases {faults : DiskFaults α} {p q : Pool α} {id : Nat}
    (hp : p.Regular) (h : poolAllocateUnder faults p = (id, q)) :
    ∃ r i g, Acquired faults p r i ∧ id = r.nextId ∧ g.pageId = some id ∧ g.pins = 0 ∧
      q = r.taken.place i id g := by
  unfold poolAllocateUnder at h
  rcases hacquire : acquireFrameUnder faults p with ⟨i, r⟩
  rw [hacquire] at h
  obtain ⟨hspares, hregular, hfree, hgrown⟩ := acquireFrameUnder_spares hp hacquire
  obtain ⟨rfl, rfl⟩ := Prod.mk.inj h
  exact ⟨r.disown i, i, _, ⟨hspares, hregular, hfree, hgrown⟩, rfl, rfl, rfl,
    (Pool.disown_place r.taken i r.nextId _).symm⟩

/-! ### The account of the pins -/

/-- How many pins on a page are outstanding. -/
def Sharing.pinsOn (s : Sharing α) (id : Nat) : Nat := s.held.countP fun pin => pin.2 = id

/-- A frame has the pins that are outstanding on its page, and every page with one is in a frame. -/
def Sharing.PinsCounted (s : Sharing α) : Prop :=
  (∀ (i : Nat) f id, s.pool.frames[i]? = some f → f.pageId = some id → f.pins = s.pinsOn id) ∧
    ∀ pin ∈ s.held, ∃ (i : Nat) (f : Frame α), s.pool.frames[i]? = some f ∧ f.pageId = some pin.2

/-- The pages in frames, on the free list and in somebody's hands exist. -/
structure Sharing.InRange (s : Sharing α) : Prop where
  frames : ∀ (i : Nat) f id, s.pool.frames[i]? = some f → f.pageId = some id →
    id < s.pool.pageCount
  free : ∀ id ∈ s.pool.freeIds, id < s.pool.pageCount
  own : ∀ owned ∈ s.own, owned.2 < s.pool.pageCount

/-- What the readers may start on: a pool in order in which nothing is pinned. -/
structure Sharing.Starts (s : Sharing α) : Prop where
  regular : s.pool.Regular
  inRange : s.InRange
  unpinned : ∀ (i : Nat) f, s.pool.frames[i]? = some f → f.pins = 0
  held : s.held = []

/-- The invariant of the readers' calls. -/
structure Sharing.Counted (s : Sharing α) : Prop where
  regular : s.pool.Regular
  inRange : s.InRange
  pins : ∀ (i : Nat) f id, s.pool.frames[i]? = some f → f.pageId = some id → f.pins = s.pinsOn id
  resident : ∀ pin ∈ s.held, s.pool.pageFrame pin.2 ≠ none

/-- An allocation that takes an id off the free list finds it in no frame. -/
def Sharing.HandsOutAbsent (s : Sharing α) : Nat × PoolCall α → Prop
  | (_, .allocate _) => ∀ id ∈ s.pool.freeIds.head?, s.pool.pageFrame id = none
  | _ => True

instance (s : Sharing α) : (call : Nat × PoolCall α) → Decidable (s.HandsOutAbsent call)
  | (_, .allocate _) =>
    decidable_of_iff ((s.pool.freeIds.head?).all fun id => s.pool.pageFrame id = none)
      (by cases h : s.pool.freeIds.head? <;> simp [Sharing.HandsOutAbsent, h])
  | (_, .pin _ _) => isTrue trivial
  | (_, .unpin _ _) => isTrue trivial
  | (_, .free _) => isTrue trivial

namespace Sharing.Counted

variable {s : Sharing α} {q : Pool α} {i id : Nat} {f g : Frame α}

omit [PageBody α] in
/-- At the start the counts are right. -/
theorem of_starts (h : s.Starts) : s.Counted where
  regular := h.regular
  inRange := h.inRange
  pins := by
    intro i f id hf _
    rw [h.unpinned i f hf, Sharing.pinsOn, h.held]
    rfl
  resident := by
    rw [h.held]
    exact fun _ hpin => absurd hpin List.not_mem_nil

omit [PageBody α] in
/-- The frame of a page that is pinned. -/
theorem frame (hs : s.Counted) (hres : s.pool.pageFrame id = some i) :
    ∃ f, s.pool.frames[i]? = some f ∧ f.pageId = some id ∧ f.pins = s.pinsOn id := by
  obtain ⟨f, hf, hid⟩ := (hs.regular.directory id i).mp hres
  exact ⟨f, hf, hid, hs.pins i f id hf hid⟩

omit [PageBody α] in
/-- A page that someone has pinned has a pin. -/
theorem pinsOn_pos {pin : Nat × Nat} (hpin : pin ∈ s.held) : 0 < s.pinsOn pin.2 :=
  List.countP_pos_iff.mpr ⟨pin, hpin, by simp⟩

omit [PageBody α] in
/-- Nobody holds a page that is in no frame. -/
theorem pinsOn_absent (hs : s.Counted) (habsent : s.pool.pageFrame id = none) :
    s.pinsOn id = 0 := by
  refine List.countP_eq_zero.mpr fun pin hpin heq => ?_
  have hid : pin.2 = id := by simpa using heq
  exact hs.resident pin hpin (hid ▸ habsent)

omit [PageBody α] in
/-- The counts of the frames are those of the readers. -/
theorem counted (hs : s.Counted) : s.PinsCounted := by
  refine ⟨hs.pins, fun pin hpin => ?_⟩
  obtain ⟨i, hi⟩ := Option.ne_none_iff_exists'.mp (hs.resident pin hpin)
  obtain ⟨f, hf, hid⟩ := (hs.regular.directory pin.2 i).mp hi
  exact ⟨i, f, hf, hid⟩

omit [PageBody α] in
/-- What spares the busy frames keeps the pins counted. -/
theorem spared (hs : s.Counted) (hspares : s.pool.Spares q) (hq : q.Regular) :
    ({ s with pool := q } : Sharing α).Counted := by
  -- a frame with a page in it had it before, with the same pins
  have hback : ∀ (i : Nat) (g : Frame α) id, q.frames[i]? = some g → g.pageId = some id →
      ∃ f, s.pool.frames[i]? = some f ∧ f.pageId = some id ∧ g.pins = f.pins := by
    intro i g id hg hid
    rcases Nat.lt_or_ge i s.pool.frames.length with hlt | hge
    · obtain ⟨f, hf⟩ := getElem?_of_lt hlt
      obtain ⟨g', hg', hspared⟩ := hspares.frame i f hf
      obtain rfl : g = g' := Option.some.inj (hg.symm.trans hg')
      rcases hspared with ⟨hsame, hpins, -⟩ | ⟨-, hnone⟩
      · exact ⟨f, hf, hsame.symm.trans hid, hpins⟩
      · rw [hnone] at hid
        exact absurd hid (by simp)
    · rw [hspares.fresh i g hg hge] at hid
      exact absurd hid (by simp)
  constructor
  case regular => exact hq
  case inRange =>
    refine ⟨fun i g id hg hid => ?_, fun id hid => ?_, fun owned howned => ?_⟩
    · obtain ⟨f, hf, hfid, -⟩ := hback i g id hg hid
      exact hspares.pageCount.symm ▸ hs.inRange.frames i f id hf hfid
    · exact hspares.pageCount.symm ▸ hs.inRange.free id (hspares.freeIds ▸ hid)
    · exact hspares.pageCount.symm ▸ hs.inRange.own owned howned
  case pins =>
    intro i g id hg hid
    obtain ⟨f, hf, hfid, hpins⟩ := hback i g id hg hid
    exact hpins.trans (hs.pins i f id hf hfid)
  case resident =>
    intro pin hpin
    obtain ⟨i, hi⟩ := Option.ne_none_iff_exists'.mp (hs.resident pin hpin)
    obtain ⟨f, hf, hid, hpins⟩ := hs.frame hi
    have hpinned : f.Busy := .inl (hpins ▸ pinsOn_pos hpin)
    obtain ⟨g, hg, hspared⟩ := hspares.frame i f hf
    rcases hspared with ⟨hsame, -, -⟩ | ⟨hidle, -⟩
    · show q.pageFrame pin.2 ≠ none
      rw [(hq.directory pin.2 i).mpr ⟨g, hg, hsame.trans hid⟩]
      exact Option.some_ne_none i
    · exact absurd hpinned hidle

omit [PageBody α] in
/-- A frame holds a page from now on, which it held before or which was resident nowhere. Its pins
are the pins outstanding on the page, and no other page gains or loses one. -/
theorem enter (hs : s.Counted) {held own : List (Nat × Nat)} (hf : s.pool.frames[i]? = some f)
    (hold : f.pageId = some id ∨ f.pageId = none ∧ s.pool.pageFrame id = none)
    (hg : g.pageId = some id) (hframes : q.frames = s.pool.frames.set i g)
    (hdir : ∀ other, q.pageFrame other = if other = id then some i else s.pool.pageFrame other)
    (hsame : q.hand = s.pool.hand ∧ q.pageCount = s.pool.pageCount ∧ q.freeIds = s.pool.freeIds)
    (hpins : g.pins = held.countP fun pin => pin.2 = id)
    (hothers : ∀ other, other ≠ id → (held.countP fun pin => pin.2 = other) = s.pinsOn other)
    (hrange : id < s.pool.pageCount) (hown : ∀ owned ∈ own, owned.2 < s.pool.pageCount)
    (hheld : ∀ pin ∈ held, pin ∈ s.held ∨ pin.2 = id) :
    ({ pool := q, held := held, own := own } : Sharing α).Counted := by
  obtain ⟨hhand, hcount, hids⟩ := hsame
  have hlength : q.frames.length = s.pool.frames.length := by rw [hframes, List.length_set]
  have henter : ∀ other, g.pageId = some other →
      f.pageId = some other ∨ s.pool.pageFrame other = none := by
    intro other hother
    obtain rfl : id = other := Option.some.inj (hg.symm.trans hother)
    exact hold.imp_right And.right
  have hdirectory : q.Directory := by
    refine hs.regular.directory.exchange hf hframes (fun other => ?_) henter
    rw [hdir, hg]
    by_cases hother : other = id
    · rw [if_pos hother, if_pos (congrArg some hother.symm)]
    · rw [if_neg hother, if_neg fun heq => hother (Option.some.inj heq).symm]
      rcases hold with hid | ⟨hnone, -⟩
      · rw [hid, if_neg fun heq => hother (Option.some.inj heq).symm]
      · rw [hnone, if_neg (by simp)]
  have hback : ∀ (j : Nat) (k : Frame α) other, q.frames[j]? = some k → k.pageId = some other →
      (other = id ∧ k.pins = g.pins) ∨ other ≠ id ∧ s.pool.frames[j]? = some k := by
    intro j k other hk hother
    rw [hframes, List.getElem?_set] at hk
    split at hk
    · rw [if_pos (lt_of_getElem? hf)] at hk
      obtain rfl := Option.some.inj hk
      exact .inl ⟨Option.some.inj (hother.symm.trans hg), rfl⟩
    · rename_i hij
      refine .inr ⟨?_, hk⟩
      rintro rfl
      exact (hs.regular.directory.other hf henter hij hk hother).2 hg
  constructor
  case regular => exact ⟨hdirectory, by rw [hhand, hlength]; exact hs.regular.hand⟩
  case inRange =>
    refine ⟨fun j k other hk hother => ?_, fun id hid => ?_, fun owned howned => ?_⟩
    · show other < q.pageCount
      rw [hcount]
      rcases hback j k other hk hother with ⟨rfl, -⟩ | ⟨-, hk⟩
      · exact hrange
      · exact hs.inRange.frames j k other hk hother
    · exact hcount.symm ▸ hs.inRange.free id (hids ▸ hid)
    · exact hcount.symm ▸ hown owned howned
  case pins =>
    intro j k other hk hother
    rcases hback j k other hk hother with ⟨rfl, heq⟩ | ⟨hne, hk⟩
    · exact heq.trans hpins
    · exact (hs.pins j k other hk hother).trans (hothers other hne).symm
  case resident =>
    intro pin hpin
    show q.pageFrame pin.2 ≠ none
    rw [hdir]
    split
    · exact Option.some_ne_none i
    · rename_i hne
      exact hs.resident pin ((hheld pin hpin).resolve_right hne)

omit [PageBody α] in
/-- One more pin is one more on its page. -/
theorem pinsOn_cons {held : List (Nat × Nat)} (reader id other : Nat) :
    (((reader, id) :: held).countP fun pin => pin.2 = other) =
      (held.countP fun pin => pin.2 = other) + if other = id then 1 else 0 := by
  rw [List.countP_cons]
  by_cases h : other = id
  · simp [h]
  · simp [h, Ne.symm h]

/-- A page is pinned. -/
theorem pin (hs : s.Counted) (reader id : Nat) (faults : DiskFaults α) :
    (s.step (reader, .pin id faults)).Counted := by
  have hcounts : ∀ other, other ≠ id →
      (((reader, id) :: s.held).countP fun pin => pin.2 = other) = s.pinsOn other := by
    intro other hne
    rw [pinsOn_cons, if_neg hne]
    rfl
  have hheld : ∀ pin ∈ (reader, id) :: s.held, pin ∈ s.held ∨ pin.2 = id := by
    intro pin hpin
    rcases List.mem_cons.mp hpin with rfl | hpin
    · exact .inr rfl
    · exact .inl hpin
  rcases hpin : poolPinUnder faults id s.pool with ⟨answer, q⟩
  rcases poolPinUnder_cases hs.regular hpin with ⟨rfl, rfl⟩ | ⟨i, rfl, hrange, hres, rfl⟩ |
    ⟨r, i, hrange, habsent, hacquired, ⟨rfl, corrupt, rfl⟩ | ⟨g, rfl, hg, hpins, rfl⟩⟩
  · simp only [Sharing.step, hpin]
    exact hs
  · simp only [Sharing.step, hpin]
    obtain ⟨f, hf, hid, hpins⟩ := hs.frame hres
    refine hs.enter (g := { f with referenced := true, pins := f.pins + 1 }) hf (.inl hid) hid
      (modify_eq_set_of_getElem? _ hf) (fun other => ?_) ⟨rfl, rfl, rfl⟩ ?_ hcounts hrange
      hs.inRange.own hheld
    · split
      · rename_i heq
        rw [heq]
        exact hres
      · rfl
    · rw [pinsOn_cons, if_pos rfl]
      exact congrArg (· + 1) hpins
  · simp only [Sharing.step, hpin]
    have hs' := hs.spared hacquired.spares hacquired.regular
    exact ⟨⟨hs'.regular.directory, hs'.regular.hand⟩,
      ⟨hs'.inRange.frames, hs'.inRange.free, hs'.inRange.own⟩, hs'.pins, hs'.resident⟩
  · simp only [Sharing.step, hpin]
    have hs' := hs.spared hacquired.spares hacquired.regular
    have hgone := hacquired.spares.absent hs.regular.directory hacquired.regular.directory habsent
    obtain ⟨f, hf, hfree⟩ := hacquired.free
    refine hs'.enter hf (.inr ⟨hfree, hgone⟩) hg rfl (fun other => Function.update_apply ..)
      ⟨rfl, rfl, rfl⟩ ?_ hcounts (hacquired.spares.pageCount.symm ▸ hrange) hs'.inRange.own hheld
    rw [pinsOn_cons, if_pos rfl, hpins]
    exact (congrArg (· + 1) (hs'.pinsOn_absent hgone)).symm

/-- A page is let go by a reader that has it pinned. -/
theorem unpin (hs : s.Counted) {reader id : Nat} (dirty : Bool) (hpin : (reader, id) ∈ s.held) :
    (s.step (reader, .unpin id dirty)).Counted := by
  obtain ⟨i, hi⟩ := Option.ne_none_iff_exists'.mp (hs.resident _ hpin)
  obtain ⟨f, hf, hid, hpins⟩ := hs.frame hi
  have hheld : ∀ other, s.pinsOn other =
      ((s.held.erase (reader, id)).countP fun pin => pin.2 = other) +
        if other = id then 1 else 0 := by
    intro other
    rw [← pinsOn_cons reader]
    exact (List.perm_cons_erase hpin).countP_eq _
  have hunpinned : poolUnpin id dirty s.pool =
      { s.pool with
        frames := s.pool.frames.modify i fun f =>
          { f with
            pins := f.pins - 1
            dirty := f.dirty || dirty
            logged := f.logged && !dirty } } := by
    unfold poolUnpin
    rw [show findFrame id s.pool = some i from hi]
  simp only [Sharing.step, hunpinned]
  refine hs.enter
    (g := { f with pins := f.pins - 1, dirty := f.dirty || dirty, logged := f.logged && !dirty })
    hf (.inl hid) hid (modify_eq_set_of_getElem? _ hf) (fun other => ?_) ⟨rfl, rfl, rfl⟩ ?_
    (fun other hne => ?_) (hs.inRange.frames i f id hf hid) hs.inRange.own
    fun pin hpin => .inl (List.mem_of_mem_erase hpin)
  · split
    · rename_i heq
      rw [heq]
      exact hi
    · rfl
  · show f.pins - 1 = _
    rw [hpins, hheld, if_pos rfl, Nat.add_sub_cancel]
  · rw [hheld, if_neg hne, Nat.add_zero]

/-- A page is allocated, with an id that is resident in no frame. -/
theorem allocate (hs : s.Counted) (reader : Nat) {faults : DiskFaults α}
    (habsent : s.HandsOutAbsent (reader, .allocate faults)) :
    (s.step (reader, .allocate faults)).Counted := by
  rcases halloc : poolAllocateUnder faults s.pool with ⟨id, q⟩
  obtain ⟨r, i, g, hacquired, rfl, hg, hpins, rfl⟩ := poolAllocateUnder_cases hs.regular halloc
  simp only [Sharing.step, halloc]
  have hs' := hs.spared hacquired.spares hacquired.regular
  obtain ⟨f, hf, hfree⟩ := hacquired.free
  have hcount : r.pageCount ≤ r.taken.pageCount := by
    simp only [Pool.taken]
    split <;> omega
  have htail : ∀ id ∈ r.taken.freeIds, id ∈ r.freeIds := fun id hid => List.mem_of_mem_tail hid
  -- the id is taken first; no frame is touched by that
  have htaken : ({ s with pool := r.taken } : Sharing α).Counted :=
    ⟨⟨hs'.regular.directory, hs'.regular.hand⟩,
      ⟨fun j k id hk hid => Nat.lt_of_lt_of_le (hs'.inRange.frames j k id hk hid) hcount,
        fun id hid => Nat.lt_of_lt_of_le (hs'.inRange.free id (htail id hid)) hcount,
        fun owned howned => Nat.lt_of_lt_of_le (hs'.inRange.own owned howned) hcount⟩,
      hs'.pins, hs'.resident⟩
  obtain ⟨hnext, hnone⟩ : r.nextId < r.taken.pageCount ∧ r.pageFrame r.nextId = none := by
    unfold Pool.nextId Pool.taken
    cases hids : r.freeIds with
    | nil =>
      refine ⟨Nat.lt_succ_self _, ?_⟩
      cases hres : r.pageFrame r.pageCount with
      | none => exact hres
      | some j =>
        obtain ⟨k, hk, hkid, -⟩ := hs'.frame hres
        exact absurd (hs'.inRange.frames j k _ hk hkid) (Nat.lt_irrefl _)
    | cons top rest =>
      have htop : s.pool.pageFrame top = none := by
        refine habsent top ?_
        rw [← hacquired.spares.freeIds, hids]
        rfl
      exact ⟨hs'.inRange.free top (hids ▸ List.mem_cons_self),
        hacquired.spares.absent hs.regular.directory hacquired.regular.directory htop⟩
  refine htaken.enter (i := i) hf (.inr ⟨hfree, hnone⟩) hg rfl
    (fun other => Function.update_apply ..) ⟨rfl, rfl, rfl⟩ ?_ (fun other _ => rfl) hnext ?_
    fun pin hpin => .inl hpin
  · exact hpins.trans (htaken.pinsOn_absent hnone).symm
  · exact List.forall_mem_cons.mpr ⟨hnext, htaken.inRange.own⟩

/-- A page that nobody has pinned is freed. -/
theorem free (hs : s.Counted) {reader id : Nat} (hown : (reader, id) ∈ s.own)
    (hunpinned : ∀ pin ∈ s.held, pin.2 ≠ id) : (s.step (reader, .free id)).Counted := by
  have hrange := hs.inRange.own _ hown
  -- the frame goes first, then the id goes on the list
  have hdropped : ∀ r : Pool α, ({ s with pool := r } : Sharing α).Counted →
      r.pageCount = s.pool.pageCount →
      ({ s with
        pool := { r with freeIds := id :: r.freeIds }
        own := s.own.erase (reader, id) } : Sharing α).Counted := by
    intro r hr hcount
    refine ⟨⟨hr.regular.directory, hr.regular.hand⟩, ⟨hr.inRange.frames, ?_, ?_⟩, hr.pins,
      hr.resident⟩
    · exact List.forall_mem_cons.mpr ⟨hcount.symm ▸ hrange, hr.inRange.free⟩
    · exact fun owned howned => hr.inRange.own owned (List.mem_of_mem_erase howned)
  unfold Sharing.step poolFree
  dsimp only
  cases hfind : findFrame id s.pool with
  | none => exact hdropped s.pool hs rfl
  | some i =>
    refine hdropped _ ?_ rfl
    obtain ⟨f, hf, hid, -⟩ := hs.frame hfind
    have hframes : s.pool.frames.modify i Frame.cleared = s.pool.frames.set i f.cleared :=
      modify_eq_set_of_getElem? _ hf
    have hdir : ∀ other, Function.update s.pool.pageFrame id none other =
        if f.cleared.pageId = some other then some i
        else if f.pageId = some other then none else s.pool.pageFrame other := by
      intro other
      rw [Function.update_apply, hid]
      by_cases hother : other = id
      · simp [hother, Frame.cleared]
      · simp [hother, Ne.symm hother, Frame.cleared]
    have hback : ∀ (j : Nat) (k : Frame α) other,
        (s.pool.frames.set i f.cleared)[j]? = some k → k.pageId = some other →
        s.pool.frames[j]? = some k := by
      intro j k other hk hother
      rw [List.getElem?_set] at hk
      split at hk
      · rw [if_pos (lt_of_getElem? hf)] at hk
        rw [← Option.some.inj hk] at hother
        exact absurd hother (by simp [Frame.cleared])
      · exact hk
    constructor
    case regular =>
      refine ⟨hs.regular.directory.exchange hf hframes hdir fun other h => ?_, ?_⟩
      · exact absurd h (by simp [Frame.cleared])
      · simpa [Pool.setDirectory] using hs.regular.hand
    case inRange =>
      refine ⟨fun j k other hk hother => ?_, hs.inRange.free, hs.inRange.own⟩
      change (s.pool.frames.modify i Frame.cleared)[j]? = some k at hk
      rw [hframes] at hk
      exact hs.inRange.frames j k other (hback j k other hk hother) hother
    case pins =>
      intro j k other hk hother
      change (s.pool.frames.modify i Frame.cleared)[j]? = some k at hk
      rw [hframes] at hk
      exact hs.pins j k other (hback j k other hk hother) hother
    case resident =>
      intro pin hpin
      show Function.update s.pool.pageFrame id none pin.2 ≠ none
      rw [Function.update_of_ne (hunpinned pin hpin)]
      exact hs.resident pin hpin

/-- A permitted call keeps the counts right. -/
theorem step (hs : s.Counted) {call : Nat × PoolCall α} (hpermits : s.Permits call)
    (habsent : s.HandsOutAbsent call) : (s.step call).Counted := by
  obtain ⟨reader, call⟩ := call
  cases call with
  | pin id faults => exact hs.pin reader id faults
  | unpin id dirty => exact hs.unpin dirty hpermits
  | allocate faults => exact hs.allocate reader habsent
  | free id => exact hs.free hpermits.1 hpermits.2

end Sharing.Counted

/-! ### Busy frames, and the growth of the pool -/

/-- The disk's refusals during a call. -/
def PoolCall.faults : PoolCall α → DiskFaults α
  | .pin _ faults => faults
  | .allocate faults => faults
  | .unpin _ _ | .free _ => .none

/-- A call leaves every busy frame with its page and what is on it, unless it frees that page. -/
def Sharing.SparesBusy (s : Sharing α) (call : Nat × PoolCall α) : Prop :=
  ∀ (i : Nat) f id, s.pool.frames[i]? = some f → f.pageId = some id → f.Busy →
    call.2 ≠ .free id →
      ∃ g, (s.step call).pool.frames[i]? = some g ∧ g.pageId = some id ∧ g.page = f.page

/-- A call adds frames only where no frame is free, and each that is not pinned is dirty and cannot
be flushed: its changes are not in the log, the pool may not write, or the disk has refused the write
when the hand stood at the frame. -/
def Sharing.GrowsLast (s : Sharing α) (call : Nat × PoolCall α) : Prop :=
  (s.step call).pool.frames.length ≠ s.pool.frames.length →
    ∀ (i : Nat) f, s.pool.frames[i]? = some f → f.pageId ≠ none ∧
      (0 < f.pins ∨ f.dirty = true ∧
        (f.logged = false ∨ s.pool.writable = false ∨ s.pool.pageFile = none ∨
          ∃ turn < s.pool.frames.length * 2,
            (s.pool.hand + turn) % s.pool.frames.length = i ∧
              (call.2.faults.flush turn).isSome))

namespace Sharing.Counted

variable {s : Sharing α} {p r : Pool α} {faults : DiskFaults α} {i : Nat} {f : Frame α}

/-- A frame that the pool could have used is not there when it grows. -/
theorem refused (hs : s.Counted) (hacquired : Acquired faults s.pool r i)
    (hgrown : r.frames.length ≠ s.pool.frames.length) (j : Nat)
    (hf : s.pool.frames[j]? = some f) :
    f.pageId ≠ none ∧ (0 < f.pins ∨ f.dirty = true ∧
      (f.logged = false ∨ s.pool.writable = false ∨ s.pool.pageFile = none ∨
        ∃ turn < s.pool.frames.length * 2,
          (s.pool.hand + turn) % s.pool.frames.length = j ∧ (faults.flush turn).isSome)) := by
  obtain ⟨q, hsweep⟩ := hacquired.grown hgrown
  have hlt := lt_of_getElem? hf
  have hhand : s.pool.hand < s.pool.frames.length := hs.regular.hand.resolve_left (by omega)
  -- the hand reaches the frame in less than one round
  obtain ⟨k, hk, hat⟩ : ∃ k < s.pool.frames.length,
      (s.pool.hand + k) % s.pool.frames.length = j := by
    rcases Nat.lt_or_ge j s.pool.hand with hbefore | hafter
    · refine ⟨j + s.pool.frames.length - s.pool.hand, by omega, ?_⟩
      rw [show s.pool.hand + (j + s.pool.frames.length - s.pool.hand) =
        j + s.pool.frames.length by omega, Nat.add_mod_right, Nat.mod_eq_of_lt hlt]
    · refine ⟨j - s.pool.hand, by omega, ?_⟩
      rw [show s.pool.hand + (j - s.pool.hand) = j by omega, Nat.mod_eq_of_lt hlt]
  have hfuel : k + (if f.referenced then s.pool.frames.length else 0) <
      s.pool.frames.length * 2 := by
    split <;> omega
  obtain ⟨hid, hmust⟩ := sweepUnder_refused hsweep hhand hf hat hfuel
  refine ⟨hid, ?_⟩
  rcases Nat.eq_zero_or_pos f.pins with hpins | hpins
  · -- it could not be flushed, or it was and the disk refused
    refine .inr ?_
    by_cases hmay : f.dirty = true → s.pool.writable = true ∧ f.logged = true
    · obtain ⟨hdirty, hwrote⟩ := hmust hpins hmay
      exact ⟨hdirty, .inr (.inr hwrote)⟩
    · obtain ⟨hdirty, hnot⟩ := Classical.not_imp.mp hmay
      refine ⟨hdirty, ?_⟩
      cases hwritable : s.pool.writable with
      | false => exact .inr (.inl rfl)
      | true => exact .inl (Bool.eq_false_iff.mpr fun hlogged => hnot ⟨hwritable, hlogged⟩)
  · exact .inl hpins

/-- A new frame is the last one. -/
theorem growsLast (hs : s.Counted) (call : Nat × PoolCall α) : s.GrowsLast call := by
  obtain ⟨reader, call⟩ := call
  intro hgrown j f hf
  cases call with
  | pin id faults =>
    rcases hpin : poolPinUnder faults id s.pool with ⟨answer, q⟩
    simp only [Sharing.step, hpin] at hgrown
    rcases poolPinUnder_cases hs.regular hpin with ⟨rfl, rfl⟩ | ⟨i, rfl, -, -, rfl⟩ |
      ⟨r, i, -, -, hacquired, ⟨rfl, corrupt, rfl⟩ | ⟨g, rfl, -, -, rfl⟩⟩
    · exact absurd rfl hgrown
    · exact absurd (List.length_modify ..) hgrown
    · exact hs.refused hacquired hgrown j hf
    · refine hs.refused hacquired (fun hsame => hgrown ?_) j hf
      exact (List.length_set ..).trans hsame
  | unpin id dirty =>
    refine absurd ?_ hgrown
    simp only [Sharing.step, poolUnpin]
    split
    · rfl
    · exact List.length_modify ..
  | allocate faults =>
    rcases halloc : poolAllocateUnder faults s.pool with ⟨id, q⟩
    obtain ⟨r, i, g, hacquired, -, -, -, rfl⟩ := poolAllocateUnder_cases hs.regular halloc
    simp only [Sharing.step, halloc] at hgrown
    refine hs.refused hacquired (fun hsame => hgrown ?_) j hf
    exact (List.length_set ..).trans hsame
  | free id =>
    refine absurd ?_ hgrown
    simp only [Sharing.step, poolFree]
    split
    · rfl
    · exact List.length_modify ..

/-- The frame that is filled was not a busy one. -/
theorem beside {g : Frame α} {j id : Nat} (hacquired : Acquired faults p r i)
    (hf : p.frames[j]? = some f) (hid : f.pageId = some id) (hbusy : f.Busy) :
    ∃ k, (r.frames.set i g)[j]? = some k ∧ k.pageId = some id ∧ k.page = f.page := by
  obtain ⟨k, hk, hspared⟩ := hacquired.spares.frame j f hf
  obtain ⟨free, hfree, hnone⟩ := hacquired.free
  rcases hspared with ⟨hsame, -, hkept⟩ | ⟨hidle, -⟩
  · have hij : i ≠ j := by
      rintro rfl
      obtain rfl : free = k := Option.some.inj (hfree.symm.trans hk)
      rw [hnone, hid] at hsame
      exact absurd hsame (by simp)
    exact ⟨k, (List.getElem?_set_ne hij).trans hk, hsame.trans hid, (hkept hbusy).2.2⟩
  · exact absurd hbusy hidle

omit [PageBody α] in
/-- A change that keeps pages where they are keeps a frame's page. -/
theorem modified {frames : List (Frame α)} {change : Frame α → Frame α} {j : Nat} (i : Nat)
    (hf : frames[j]? = some f) (hid : (change f).pageId = f.pageId)
    (hpage : (change f).page = f.page) :
    ∃ g, (frames.modify i change)[j]? = some g ∧ g.pageId = f.pageId ∧ g.page = f.page := by
  rw [List.getElem?_modify, hf]
  by_cases hij : i = j
  · exact ⟨change f, by simp [hij], hid, hpage⟩
  · exact ⟨f, by simp [hij], rfl, rfl⟩

/-- No call takes a busy frame. -/
theorem sparesBusy (hs : s.Counted) (call : Nat × PoolCall α) : s.SparesBusy call := by
  obtain ⟨reader, call⟩ := call
  intro j f id hf hid hbusy hother
  cases call with
  | pin pinned faults =>
    rcases hpin : poolPinUnder faults pinned s.pool with ⟨answer, q⟩
    rcases poolPinUnder_cases hs.regular hpin with ⟨rfl, rfl⟩ | ⟨i, rfl, -, -, rfl⟩ |
      ⟨r, i, -, -, hacquired, ⟨rfl, corrupt, rfl⟩ | ⟨g, rfl, -, -, rfl⟩⟩
    · simp only [Sharing.step, hpin]
      exact ⟨f, hf, hid, rfl⟩
    · simp only [Sharing.step, hpin]
      exact hid ▸ modified i hf rfl rfl
    · simp only [Sharing.step, hpin]
      obtain ⟨free, hfree, -⟩ := hacquired.free
      have hset : r.frames.set i free = r.frames := by
        obtain ⟨hlt, rfl⟩ := List.getElem?_eq_some_iff.mp hfree
        exact List.set_getElem_self hlt
      exact hset ▸ beside (g := free) hacquired hf hid hbusy
    · simp only [Sharing.step, hpin]
      exact beside hacquired hf hid hbusy
  | unpin unpinned dirty =>
    simp only [Sharing.step, poolUnpin]
    split
    · exact ⟨f, hf, hid, rfl⟩
    · exact hid ▸ modified _ hf rfl rfl
  | allocate faults =>
    rcases halloc : poolAllocateUnder faults s.pool with ⟨allocated, q⟩
    obtain ⟨r, i, g, hacquired, -, -, -, rfl⟩ := poolAllocateUnder_cases hs.regular halloc
    simp only [Sharing.step, halloc]
    show ∃ k, (r.frames.set i g)[j]? = some k ∧ k.pageId = some id ∧ k.page = f.page
    exact beside hacquired hf hid hbusy
  | free freed =>
    simp only [Sharing.step, poolFree]
    split
    · exact ⟨f, hf, hid, rfl⟩
    · rename_i i hfind
      obtain ⟨g, hg, hgid, -⟩ := hs.frame hfind
      have hij : i ≠ j := by
        rintro rfl
        obtain rfl : g = f := Option.some.inj (hg.symm.trans hf)
        obtain rfl : freed = id := Option.some.inj (hgid.symm.trans hid)
        exact hother rfl
      refine ⟨f, ?_, hid, rfl⟩
      show (s.pool.frames.modify i Frame.cleared)[j]? = some f
      rw [List.getElem?_modify, hf]
      simp [hij]

end Sharing.Counted

/-! ### Runs -/

/-- Whatever several readers pin, unpin, allocate and free, and whatever the disk refuses: as long as
no allocation hands out an id that a frame holds, the pins are counted, a busy frame keeps its page,
and the pool grows only where it has nothing to give up. -/
theorem readers_keep_pins {s : Sharing α} (hs : s.Starts) {calls : List (Nat × PoolCall α)}
    (h : StepsMeet Sharing.step (fun s call => s.Permits call ∧ s.HandsOutAbsent call) s calls) :
    (run Sharing.step s calls).PinsCounted ∧
      ∀ front call back, calls = front ++ call :: back →
        (run Sharing.step s front).SparesBusy call ∧
          (run Sharing.step s front).GrowsLast call := by
  have hkeep : ∀ (s : Sharing α) call, s.Counted → s.Permits call ∧ s.HandsOutAbsent call →
      (s.step call).Counted := fun s call hs hmeets => hs.step hmeets.1 hmeets.2
  have hstart := Sharing.Counted.of_starts hs
  refine ⟨(StepsMeet.invariant Sharing.Counted hkeep hstart h).counted, ?_⟩
  intro front call back hsplit
  have hfront := StepsMeet.always Sharing.Counted hkeep hstart h hsplit
  exact ⟨hfront.sparesBusy call, hfront.growsLast call⟩

omit [PageBody α] in
/-- A pool that has just been given its file may be shared. -/
theorem opened_starts (p : Pool α) (file pages : Nat) (pool : Pool α)
    (h : pool = poolAdopt file pages (poolInit p) ∨ pool = poolSetWritable file pages (poolInit p))
    (own : List (Nat × Nat)) (hown : ∀ owned ∈ own, owned.2 < pages) :
    ({ pool := pool, held := [], own := own } : Sharing α).Starts := by
  have hframes : pool.frames = [] ∧ pool.pageFrame = (fun _ => none) ∧ pool.pageCount = pages ∧
      pool.freeIds = [] := by
    rcases h with rfl | rfl
    · exact ⟨rfl, rfl, rfl, rfl⟩
    · exact ⟨rfl, rfl, rfl, rfl⟩
  obtain ⟨hnone, hdir, hcount, hids⟩ := hframes
  refine ⟨⟨fun id i => ?_, .inl ?_⟩, ⟨?_, ?_, ?_⟩, ?_, rfl⟩
  · simp [hnone, hdir]
  · simp [hnone]
  · simp [hnone]
  · simp [hids]
  · simpa [hcount] using hown
  · simp [hnone]

/-- The first page of a file belongs to a reader. -/
def onePageShared : Sharing Bytes :=
  { pool := poolAdopt 0 1 (poolInit onePageMachine), held := [], own := [(1, 0)] }

/-- Two readers of one page, of which one frees it at the end. -/
theorem readers_keep_pins_page :
    (run Sharing.step onePageShared
      [(1, .pin 0 .none), (2, .pin 0 .none), (1, .unpin 0 false), (2, .allocate .none),
        (2, .unpin 0 false), (1, .free 0), (2, .allocate .none)]).PinsCounted :=
  (readers_keep_pins (opened_starts onePageMachine 0 1 _ (.inl rfl) [(1, 0)] (by decide))
    (by decide +kernel)).1

/-- Page 0 is freed and read in twice all the same, as `poolWriteAll` does in two saves. Then its id
is handed out, and a reader pins the new page. -/
def freedCalls : List (Nat × PoolCall Bytes) :=
  [(1, .free 0), (2, .pin 0 .none), (2, .unpin 0 false), (2, .pin 0 .none), (2, .unpin 0 false),
    (1, .allocate .none), (2, .pin 0 .none)]

/-- The page is in two frames then, and one of them has none of its pins. -/
theorem freed_page_pinned :
    StepsMeet Sharing.step Sharing.Permits onePageShared freedCalls ∧
      ¬(run Sharing.step onePageShared freedCalls).PinsCounted := by
  refine ⟨by decide +kernel, fun h => ?_⟩
  have hframe : (((run Sharing.step onePageShared freedCalls).pool.frames[0]?).map
      fun f => (f.pageId, f.pins)) = some (some 0, 0) ∧
      (run Sharing.step onePageShared freedCalls).pinsOn 0 = 1 := by
    decide +kernel
  obtain ⟨hold, hheld⟩ := hframe
  obtain ⟨f, hf, hpair⟩ := Option.map_eq_some_iff.mp hold
  obtain ⟨hid, hpins⟩ := Prod.mk.inj hpair
  have hcounted := h.1 0 f 0 hf hid
  rw [hheld, hpins] at hcounted
  exact absurd hcounted (by decide)

end DatabaseEngine
