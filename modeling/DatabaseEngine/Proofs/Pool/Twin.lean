import DatabaseEngine.Proofs.Pool.Client

/-!
# `DatabaseEngine.Proofs.Pool.Twin`: pools that differ in files they do not read

A pool that may not write reads one file and leaves all of them as they are. `Pool.Twin` says
that two such pools differ in other files at most.

* `sweep_over`: to find a frame such a pool looks at no file.
* `Pool.Twin.onPool`: a page program answers the same over twin pools, and leaves twins.
-/

set_option autoImplicit false

namespace DatabaseEngine

open Library

section
variable {α : Type} [PageBody α]

/-- The pool over other files. -/
def Pool.over (p : Pool α) (files : Nat → DbFile α) : Pool α := { p with files := files }

/-- The pool is over a file that it may not write. -/
structure Pool.Reading (p q : Pool α) : Prop where
  writable : q.writable = false
  pageFile : q.pageFile = p.pageFile
  files : q.files = p.files

/-- A pool that may not write looks at no file to find a frame. -/
theorem sweep_over (files : Nat → DbFile α) (fuel : Nat) {p : Pool α} (h : p.writable = false) :
    sweep fuel (p.over files) = ((sweep fuel p).1, (sweep fuel p).2.over files) ∧
      p.Reading (sweep fuel p).2 := by
  induction fuel generalizing p with
  | zero => exact ⟨rfl, h, rfl, rfl⟩
  | succ fuel ih =>
    obtain ⟨hturn, hwritable, hfile, hfiles⟩ := ih (p := p.turn) h
    have hover : (p.over files).turn = p.turn.over files := rfl
    unfold sweep
    rw [hover]
    have hframes : (p.turn.over files).frames[(p.over files).hand]? = p.turn.frames[p.hand]? := rfl
    rw [hframes]
    cases hf : p.turn.frames[p.hand]? with
    | none => exact ⟨rfl, h, rfl, rfl⟩
    | some f =>
      dsimp only
      cases hid : f.pageId with
      | none => exact ⟨rfl, h, rfl, rfl⟩
      | some id =>
        dsimp only
        have hblocked : (p.turn.writable && f.logged) = false := by
          rw [show p.turn.writable = false from h, Bool.false_and]
        have hblocked' : ((p.turn.over files).writable && f.logged) = false := hblocked
        rw [hblocked, hblocked']
        by_cases hpins : f.pins > 0
        · simp only [hpins, if_true]
          exact ⟨hturn, hwritable, hfile, hfiles⟩
        · simp only [hpins, if_false]
          by_cases hdirty : f.dirty = true
          · simp only [hdirty, Bool.not_false, Bool.and_true, if_true]
            exact ⟨hturn, hwritable, hfile, hfiles⟩
          · simp only [hdirty, Bool.false_and, Bool.false_eq_true, if_false]
            by_cases href : f.referenced = true
            · simp only [href, if_true]
              obtain ⟨hsweep, hwritable, hfile, hfiles⟩ :=
                ih (p := p.turn.setFrame p.hand { f with referenced := false }) h
              rw [hid, eq_false_of_ne_true hdirty] at *
              exact ⟨hsweep, hwritable, hfile, hfiles⟩
            · simp only [href, Bool.false_eq_true, if_false]
              exact ⟨rfl, h, rfl, rfl⟩

/-- A pool that is only read finds a frame whatever the other files hold. -/
theorem acquireFrame_over (files : Nat → DbFile α) {p : Pool α} (h : p.writable = false) :
    acquireFrame (p.over files) = ((acquireFrame p).1, (acquireFrame p).2.over files) ∧
      p.Reading (acquireFrame p).2 := by
  obtain ⟨hsweep, hreading⟩ := sweep_over files (p.frames.length * 2) h
  unfold acquireFrame
  rw [show (p.over files).frames = p.frames from rfl, hsweep]
  generalize sweep (p.frames.length * 2) p = swept at hreading ⊢
  obtain ⟨_ | i, q⟩ := swept
  · exact ⟨rfl, hreading.writable, hreading.pageFile, hreading.files⟩
  · exact ⟨rfl, hreading⟩

/-- The pools are the same but for files that neither reads. -/
structure Pool.Twin (p q : Pool α) : Prop where
  same : q = p.over q.files
  readOnly : p.writable = false
  file : ∀ h, p.pageFile = some h → q.files h = p.files h

namespace Pool.Twin

variable {p q : Pool α}

omit [PageBody α] in
/-- A change that reads no file. -/
theorem step (h : p.Twin q) (next : Pool α → Pool α)
    (hover : ∀ files, next (p.over files) = (next p).over files) (hreads : p.Reading (next p)) :
    (next p).Twin (next q) := by
  have hq : next q = (next p).over q.files := by rw [h.same]; exact hover q.files
  refine ⟨?_, hreads.writable, fun k hk => ?_⟩
  · rw [hq]; rfl
  · rw [hq, hreads.files]
    exact h.file k (hreads.pageFile ▸ hk)

/-- Twins read the same. -/
theorem fetch (h : p.Twin q) (id : Nat) : q.fetch id = p.fetch id := by
  unfold Pool.fetch
  rw [h.same]
  cases hfile : p.pageFile with
  | none => simp only [Pool.over, hfile]
  | some k => simp only [Pool.over, hfile, h.file k hfile]

/-- Twins find the same pages damaged. -/
theorem damaged (h : p.Twin q) (id : Nat) : q.damaged id = p.damaged id := by
  unfold Pool.damaged
  rw [h.same]
  cases hfile : p.pageFile with
  | none => simp only [Pool.over, hfile]
  | some k => simp only [Pool.over, hfile, h.file k hfile]

/-- A change of the frames that reads no file. -/
theorem acquire (h : p.Twin q) :
    (acquireFrame q).1 = (acquireFrame p).1 ∧ (acquireFrame p).2.Twin (acquireFrame q).2 := by
  obtain ⟨hover, hreads⟩ := acquireFrame_over q.files h.readOnly
  have hq : acquireFrame q = _ := (congrArg acquireFrame h.same).trans hover
  rw [hq]
  refine ⟨rfl, rfl, hreads.writable, fun k hk => ?_⟩
  rw [hreads.files]
  exact h.file k (hreads.pageFile ▸ hk)

/-- Twins pin the same frame. -/
theorem pin (h : p.Twin q) (id : Nat) :
    (poolPin id q).1 = (poolPin id p).1 ∧ (poolPin id p).2.Twin (poolPin id q).2 := by
  have hcount : q.pageCount = p.pageCount := by rw [h.same]; rfl
  have hfind : findFrame id q = findFrame id p := by rw [h.same]; rfl
  unfold poolPin
  rw [hcount, hfind]
  split
  · split
    · rename_i i _
      have hpinned := h.step (fun p => { p with
        frames := p.frames.modify i fun f => { f with referenced := true, pins := f.pins + 1 } })
        (fun _ => rfl) ⟨h.readOnly, rfl, rfl⟩
      simp only [hcount] at hpinned
      exact ⟨rfl, hpinned⟩
    · obtain ⟨hframe, hacquired⟩ := h.acquire
      generalize acquireFrame p = r at hframe hacquired ⊢
      generalize acquireFrame q = r' at hframe hacquired ⊢
      obtain ⟨i, p'⟩ := r
      obtain ⟨i', q'⟩ := r'
      obtain rfl : i' = i := hframe
      have hdisowned : (p'.disown i').Twin (q'.disown i') :=
        hacquired.step (fun p => p.disown i') (fun _ => rfl) ⟨hacquired.readOnly, rfl, rfl⟩
      dsimp only
      rw [hdisowned.fetch id]
      split
      · rw [hdisowned.damaged id]
        split
        · exact ⟨rfl, hdisowned.step (fun p => { p with corrupt := p.corrupt + 1 })
            (fun _ => rfl) ⟨hdisowned.readOnly, rfl, rfl⟩⟩
        · exact ⟨rfl, hdisowned⟩
      · rename_i page _
        exact ⟨rfl, hdisowned.step (fun p => p.place i' id
          { pageId := some id, pins := 1, dirty := false, logged := false, referenced := false,
            page := page }) (fun _ => rfl) ⟨hdisowned.readOnly, rfl, rfl⟩⟩
  · exact ⟨rfl, h⟩

omit [PageBody α] in
/-- Twins unpin alike. -/
theorem unpin (h : p.Twin q) (id : Nat) (dirty : Bool) :
    (poolUnpin id dirty p).Twin (poolUnpin id dirty q) := by
  refine h.step (poolUnpin id dirty) (fun files => ?_) ?_
  · unfold poolUnpin
    rw [show findFrame id (p.over files) = findFrame id p from rfl]
    split <;> rfl
  · unfold poolUnpin
    split <;> exact ⟨h.readOnly, rfl, rfl⟩

omit [PageBody α] in
/-- Twins store alike. -/
theorem store (h : p.Twin q) (id : Nat) (page : Page α) :
    (poolStore id page p).Twin (poolStore id page q) := by
  refine h.step (poolStore id page) (fun files => ?_) ?_
  · unfold poolStore
    rw [show findFrame id (p.over files) = findFrame id p from rfl]
    split <;> rfl
  · unfold poolStore
    split <;> exact ⟨h.readOnly, rfl, rfl⟩

omit [PageBody α] in
/-- Twins free alike. -/
theorem free (h : p.Twin q) (id : Nat) : (poolFree id p).Twin (poolFree id q) := by
  refine h.step (poolFree id) (fun files => ?_) ?_
  · unfold poolFree
    rw [show findFrame id (p.over files) = findFrame id p from rfl]
    split <;> rfl
  · unfold poolFree
    split <;> exact ⟨h.readOnly, rfl, rfl⟩

/-- Twins allocate the same page. -/
theorem allocate (h : p.Twin q) :
    (poolAllocate q).1 = (poolAllocate p).1 ∧ (poolAllocate p).2.Twin (poolAllocate q).2 := by
  obtain ⟨hframe, hacquired⟩ := h.acquire
  unfold poolAllocate
  generalize acquireFrame p = r at hframe hacquired ⊢
  generalize acquireFrame q = r' at hframe hacquired ⊢
  obtain ⟨i, p'⟩ := r
  obtain ⟨i', q'⟩ := r'
  obtain rfl : i' = i := hframe
  have hacquired' : p'.Twin q' := hacquired
  have hnext : q'.nextId = p'.nextId := by rw [hacquired'.same]; rfl
  dsimp only
  rw [hnext]
  exact ⟨rfl, hacquired.step (fun p => p.taken.place i' p'.nextId
    { pageId := some p'.nextId, pins := 0, dirty := true, logged := false, referenced := true,
      page := Page.zero }) (fun _ => rfl) ⟨hacquired.readOnly, rfl, rfl⟩⟩

end Pool.Twin

end

/-- A page program answers the same over twin pools. -/
theorem Pool.Twin.onPool {γ : Type} (x : PageM Bytes γ) {p q : Pool Bytes} (h : p.Twin q) :
    (onPool x q).1 = (onPool x p).1 ∧ (onPool x p).2.Twin (onPool x q).2 := by
  induction x generalizing p q with
  | pure a => exact ⟨rfl, h⟩
  | alloc next ih =>
    obtain ⟨hid, htwin⟩ := h.allocate
    have := ih (poolAllocate p).1 htwin
    unfold DatabaseEngine.onPool
    rw [hid]
    exact this
  | read id next ih =>
    obtain ⟨hframe, htwin⟩ := h.pin id
    unfold DatabaseEngine.onPool
    generalize poolPin id p = r at hframe htwin ⊢
    generalize poolPin id q = r' at hframe htwin ⊢
    obtain ⟨answer, p'⟩ := r
    obtain ⟨answer', q'⟩ := r'
    obtain rfl : answer' = answer := hframe
    cases answer' with
    | none => exact ih none htwin
    | some i =>
      have htwin' : p'.Twin q' := htwin
      have hpage : q'.pageIn i = p'.pageIn i := by rw [htwin'.same]; rfl
      dsimp only
      rw [hpage]
      exact ih _ (htwin.unpin id false)
  | write id body next ih =>
    obtain ⟨hframe, htwin⟩ := h.pin id
    unfold DatabaseEngine.onPool
    generalize poolPin id p = r at hframe htwin ⊢
    generalize poolPin id q = r' at hframe htwin ⊢
    obtain ⟨answer, p'⟩ := r
    obtain ⟨answer', q'⟩ := r'
    obtain rfl : answer' = answer := hframe
    cases answer' with
    | none => exact ih htwin
    | some i =>
      have htwin' : p'.Twin q' := htwin
      have hpage : q'.pageIn i = p'.pageIn i := by rw [htwin'.same]; rfl
      dsimp only
      rw [hpage]
      exact ih ((htwin.store id _).unpin id true)
  | free id next ih => exact ih (h.free id)
  | count next ih =>
    have hcount : q.pageCount = p.pageCount := by rw [h.same]; rfl
    unfold DatabaseEngine.onPool
    rw [hcount]
    exact ih _ h

end DatabaseEngine
