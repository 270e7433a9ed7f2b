import DatabaseEngine.Proofs.Pool.Client

/-!
# `DatabaseEngine.Proofs.Pool.Clean`: a pool with nothing to write

When no frame is dirty the pool is a cache of its file. `Mirrors` says so for the pages of a
set: a resident page has the contents the file supplies.

* `Mirrors.look`: a holder that looks at a page of the set sees what the file supplies.
* `Mirrors.onPool`: a program that only looks keeps this, and the file.
* `Mirrors.looks`: a program that looks at pages of the set answers by what the file supplies.
* `checkpoint_mirrors`: after a checkpoint the pool mirrors its allocated pages.
-/

set_option autoImplicit false

namespace DatabaseEngine

open Library

variable {α : Type} [PageBody α]

/-- The pool reads the same pages of the same file. -/
structure Pool.SameFile (p q : Pool α) : Prop where
  files : q.files = p.files
  pageFile : q.pageFile = p.pageFile
  checksums : q.checksums = p.checksums
  pageCount : q.pageCount = p.pageCount
  freeIds : q.freeIds = p.freeIds
  writable : q.writable = p.writable
  wal : q.wal = p.wal
  catalogRootPage : q.catalogRootPage = p.catalogRootPage

/-- What the file supplies of the pages the pool counts. -/
def Pool.visible (p : Pool α) (id : Nat) : Option α :=
  if id < p.pageCount then p.supplies id else none

namespace Pool.SameFile

variable {p q r : Pool α}

omit [PageBody α] in
/-- A pool has its own file. -/
@[refl] theorem refl (p : Pool α) : p.SameFile p := ⟨rfl, rfl, rfl, rfl, rfl, rfl, rfl, rfl⟩

omit [PageBody α] in
/-- Two steps on one file. -/
theorem trans (h : p.SameFile q) (h' : q.SameFile r) : p.SameFile r :=
  ⟨h'.files.trans h.files, h'.pageFile.trans h.pageFile, h'.checksums.trans h.checksums,
    h'.pageCount.trans h.pageCount, h'.freeIds.trans h.freeIds, h'.writable.trans h.writable,
    h'.wal.trans h.wal, h'.catalogRootPage.trans h.catalogRootPage⟩

/-- The same file is read. -/
theorem fetch (h : p.SameFile q) (id : Nat) : q.fetch id = p.fetch id := by
  unfold Pool.fetch
  rw [h.files, h.pageFile, h.checksums]

/-- The same pages can be had. -/
theorem supplies (h : p.SameFile q) : q.supplies = p.supplies := by
  funext id
  simp only [Pool.supplies, h.fetch]

/-- The same pages are seen. -/
theorem visible (h : p.SameFile q) : q.visible = p.visible := by
  funext id
  simp only [Pool.visible, h.supplies, h.pageCount]

end Pool.SameFile

/-- Nothing is dirty, and what is resident of a set of pages is what the file supplies. -/
structure Pool.Mirrors (S : Nat → Prop) (p : Pool α) : Prop where
  directory : ∀ id i, p.pageFrame id = some i → ∃ f, p.frames[i]? = some f ∧ f.pageId = some id
  clean : ∀ (i : Nat) f, p.frames[i]? = some f → f.pageId.isSome → f.dirty = false
  resident : ∀ id i f, S id → p.pageFrame id = some i → p.frames[i]? = some f →
    p.supplies id = some f.page.body

namespace Pool.Mirrors

variable {S : Nat → Prop} {p q : Pool α} {id i : Nat} {f : Frame α}

/-- A frame changes, but neither its page nor its being clean. -/
theorem setFrame (h : p.Mirrors S) (hf : p.frames[i]? = some f) (g : Frame α)
    (hid : g.pageId = f.pageId) (hpage : g.page = f.page) (hdirty : g.dirty = f.dirty) :
    (p.setFrame i g).Mirrors S := by
  have hlt := lt_of_getElem? hf
  have hget : ∀ (j : Nat) k, (p.setFrame i g).frames[j]? = some k →
      ∃ k', p.frames[j]? = some k' ∧ k.pageId = k'.pageId ∧ k.page = k'.page ∧
        k.dirty = k'.dirty := by
    intro j k hk
    by_cases hij : i = j
    · subst hij
      simp only [Pool.setFrame, List.getElem?_set_self hlt] at hk
      obtain rfl := Option.some.inj hk
      exact ⟨f, hf, hid, hpage, hdirty⟩
    · simp only [Pool.setFrame, List.getElem?_set_ne hij] at hk
      exact ⟨k, hk, rfl, rfl, rfl⟩
  constructor
  · intro id' j hdir
    obtain ⟨k, hk, hkid⟩ := h.directory id' j hdir
    by_cases hij : i = j
    · subst hij
      rw [hf] at hk
      obtain rfl := Option.some.inj hk
      exact ⟨g, by simp [Pool.setFrame, hlt], hid.trans hkid⟩
    · exact ⟨k, by simpa [Pool.setFrame, List.getElem?_set_ne hij] using hk, hkid⟩
  · intro j k hk hheld
    obtain ⟨k', hk', hi, -, hd⟩ := hget j k hk
    rw [hd]
    exact h.clean j k' hk' (hi ▸ hheld)
  · intro id' j k hS hdir hk
    obtain ⟨k', hk', -, hp, -⟩ := hget j k hk
    rw [hp]
    exact h.resident id' j k' hS hdir hk'

/-- The pool's own moves write nothing when nothing is dirty. -/
theorem quiet (h : p.Mirrors S) (hmove : Quiet p q) : q.Mirrors S ∧ p.SameFile q := by
  cases hmove with
  | turn hand _ =>
    exact ⟨⟨h.directory, h.clean, h.resident⟩, ⟨rfl, rfl, rfl, rfl, rfl, rfl, rfl, rfl⟩⟩
  | touch i f hf referenced more =>
    exact ⟨h.setFrame hf _ rfl rfl rfl, ⟨rfl, rfl, rfl, rfl, rfl, rfl, rfl, rfl⟩⟩
  | writeBack i f id inode hf hid _ _ hdirty =>
    rw [h.clean i f hf (by simp [hid])] at hdirty
    exact absurd hdirty (by simp)
  | drop i f id hf hid _ _ =>
    refine ⟨?_, ⟨rfl, rfl, rfl, rfl, rfl, rfl, rfl, rfl⟩⟩
    have hdisowned : (p.disown i).frames = p.frames.set i { f with pageId := none } :=
      modify_eq_set_of_getElem? _ hf
    have hgone : ∀ other j, ((p.disown i).setDirectory id none).pageFrame other = some j →
        other ≠ id ∧ p.pageFrame other = some j ∧ i ≠ j := by
      intro other j hdir
      have hne : other ≠ id := by
        rintro rfl
        simp [Pool.setDirectory] at hdir
      have hdir : p.pageFrame other = some j := by
        simpa [Pool.setDirectory, Pool.disown, hne] using hdir
      refine ⟨hne, hdir, ?_⟩
      rintro rfl
      obtain ⟨k, hk, hkid⟩ := h.directory other i hdir
      rw [hf] at hk
      obtain rfl := Option.some.inj hk
      rw [hid] at hkid
      exact hne (Option.some.inj hkid).symm
    constructor
    · intro other j hdir
      obtain ⟨-, hdir, hij⟩ := hgone other j hdir
      obtain ⟨k, hk, hkid⟩ := h.directory other j hdir
      refine ⟨k, ?_, hkid⟩
      show (p.disown i).frames[j]? = some k
      rw [hdisowned, List.getElem?_set_ne hij]
      exact hk
    · intro j k hk hheld
      have hk : (p.disown i).frames[j]? = some k := hk
      rw [hdisowned] at hk
      by_cases hij : i = j
      · subst hij
        rw [List.getElem?_set_self (lt_of_getElem? hf)] at hk
        obtain rfl := Option.some.inj hk
        exact absurd hheld (by simp)
      · rw [List.getElem?_set_ne hij] at hk
        exact h.clean j k hk hheld
    · intro other j k hS hdir hk
      obtain ⟨-, hdir, hij⟩ := hgone other j hdir
      have hk : (p.disown i).frames[j]? = some k := hk
      rw [hdisowned, List.getElem?_set_ne hij] at hk
      exact h.resident other j k hS hdir hk
  | grow n hn =>
    refine ⟨?_, ⟨rfl, rfl, rfl, rfl, rfl, rfl, rfl, rfl⟩⟩
    have hold : ∀ (j : Nat) k, p.frames[j]? = some k →
        (p.frames ++ List.replicate n Frame.free)[j]? = some k := fun j k hk => by
      rw [List.getElem?_append_left (lt_of_getElem? hk)]
      exact hk
    constructor
    · intro other j hdir
      obtain ⟨k, hk, hkid⟩ := h.directory other j hdir
      exact ⟨k, hold j k hk, hkid⟩
    · intro j k hk hheld
      rcases Nat.lt_or_ge j p.frames.length with hlt | hge
      · rw [List.getElem?_append_left hlt] at hk
        exact h.clean j k hk hheld
      · rw [List.getElem?_append_right hge, List.getElem?_replicate] at hk
        split at hk
        · obtain rfl := Option.some.inj hk
          rfl
        · exact absurd hk (by simp)
    · intro other j k hS hdir hk
      obtain ⟨k', hk', -⟩ := h.directory other j hdir
      have := hold j k' hk'
      rw [show (p.frames ++ List.replicate n Frame.free)[j]? = some k from hk] at this
      obtain rfl := Option.some.inj this
      exact h.resident other j k hS hdir hk'

/-- Nothing that the pool does by itself changes what it mirrors or its file. -/
theorem quietRun (h : p.Mirrors S) (hrun : QuietRun p q) : q.Mirrors S ∧ p.SameFile q := by
  induction hrun with
  | refl => exact ⟨h, .refl _⟩
  | tail _ hmove ih =>
    obtain ⟨hm, hfile⟩ := ih
    obtain ⟨hm', hfile'⟩ := hm.quiet hmove
    exact ⟨hm', hfile.trans hfile'⟩

/-- A pin of a page that mirrors the file. -/
theorem pin {answer : Option Nat} (h : p.Mirrors S) (hpin : poolPin id p = (answer, q)) :
    q.Mirrors S ∧ p.SameFile q ∧
    (S id → id < p.pageCount → answer.bind (fun i => (q.pageIn i).map Page.body) = p.supplies id)
    ∧ (p.pageCount ≤ id → answer = none) := by
  rcases poolPin_cases hpin with ⟨rfl, hrange, rfl⟩ | ⟨i, rfl, hrange, hres, rfl⟩ |
    ⟨r, hrange, habsent, hrun, hnone, ⟨rfl, hfetch, hq⟩ | ⟨i, f, page, rfl, hf, hfree, hfetch, rfl⟩⟩
  · exact ⟨h, .refl _, fun _ hlt => by omega, fun _ => rfl⟩
  · obtain ⟨f, hf, hid⟩ := h.directory id i hres
    rw [modify_eq_set_of_getElem? _ hf]
    refine ⟨h.setFrame hf _ rfl rfl rfl, ⟨rfl, rfl, rfl, rfl, rfl, rfl, rfl, rfl⟩, fun hS _ => ?_,
      fun hge => by omega⟩
    simp [Pool.pageIn, lt_of_getElem? hf, h.resident id i f hS hres hf]
  · obtain ⟨hr, hfile⟩ := h.quietRun hrun
    have hsupplies : p.supplies id = none := by
      simp [Pool.supplies, ← hfile.fetch, hfetch]
    rcases hq with rfl | rfl
    · exact ⟨hr, hfile, fun _ _ => by simp [hsupplies], fun hge => by omega⟩
    · exact ⟨⟨hr.directory, hr.clean, hr.resident⟩,
        ⟨hfile.files, hfile.pageFile, hfile.checksums, hfile.pageCount, hfile.freeIds,
          hfile.writable, hfile.wal, hfile.catalogRootPage⟩,
        fun _ _ => by simp [hsupplies], fun hge => by omega⟩
  · obtain ⟨hr, hfile⟩ := h.quietRun hrun
    have hlt := lt_of_getElem? hf
    have hsupplies : p.supplies id = some page.body := by
      simp [Pool.supplies, ← hfile.fetch, hfetch]
    have hnew : r.supplies id = some page.body := by rw [hfile.supplies, hsupplies]
    refine ⟨?_, hfile.trans ⟨rfl, rfl, rfl, rfl, rfl, rfl, rfl, rfl⟩, fun _ _ => ?_,
      fun hge => by omega⟩
    · -- the frame was nobody's, so no other page was entered under it
      have hother : ∀ other j, other ≠ id → r.pageFrame other = some j → i ≠ j := by
        rintro other j hne hdir rfl
        obtain ⟨k, hk, hkid⟩ := hr.directory other i hdir
        rw [hf] at hk
        obtain rfl := Option.some.inj hk
        rw [hfree] at hkid
        exact absurd hkid (by simp)
      constructor
      · intro other j hdir
        by_cases hne : other = id
        · subst hne
          simp only [Pool.place, Pool.setDirectory, Function.update_self] at hdir
          obtain rfl := Option.some.inj hdir
          exact ⟨_, by simp [Pool.place, Pool.setDirectory, Pool.setFrame, hlt]; rfl, rfl⟩
        · have hdir : r.pageFrame other = some j := by
            simpa [Pool.place, Pool.setDirectory, Pool.setFrame, hne] using hdir
          obtain ⟨k, hk, hkid⟩ := hr.directory other j hdir
          refine ⟨k, ?_, hkid⟩
          simpa [Pool.place, Pool.setDirectory, Pool.setFrame,
            List.getElem?_set_ne (hother other j hne hdir)] using hk
      · intro j k hk hheld
        by_cases hij : i = j
        · subst hij
          simp only [Pool.place, Pool.setDirectory, Pool.setFrame, List.getElem?_set_self hlt]
            at hk
          obtain rfl := Option.some.inj hk
          rfl
        · simp only [Pool.place, Pool.setDirectory, Pool.setFrame, List.getElem?_set_ne hij] at hk
          exact hr.clean j k hk hheld
      · intro other j k hS hdir hk
        by_cases hne : other = id
        · subst hne
          simp only [Pool.place, Pool.setDirectory, Function.update_self] at hdir
          obtain rfl := Option.some.inj hdir
          simp only [Pool.place, Pool.setDirectory, Pool.setFrame, List.getElem?_set_self hlt]
            at hk
          obtain rfl := Option.some.inj hk
          exact hnew
        · have hdir : r.pageFrame other = some j := by
            simpa [Pool.place, Pool.setDirectory, Pool.setFrame, hne] using hdir
          simp only [Pool.place, Pool.setDirectory, Pool.setFrame,
            List.getElem?_set_ne (hother other j hne hdir)] at hk
          exact hr.resident other j k hS hdir hk
    · simp [Pool.pageIn, Pool.place, Pool.setDirectory, Pool.setFrame, hlt, hsupplies]

/-- Letting a page go unchanged. -/
theorem unpin (h : p.Mirrors S) : (poolUnpin id false p).Mirrors S ∧
    p.SameFile (poolUnpin id false p) := by
  unfold poolUnpin findFrame
  split
  · exact ⟨h, .refl _⟩
  · rename_i i hres
    obtain ⟨f, hf, -⟩ := h.directory id i hres
    rw [modify_eq_set_of_getElem? _ hf]
    exact ⟨h.setFrame hf _ rfl rfl (by simp), ⟨rfl, rfl, rfl, rfl, rfl, rfl, rfl, rfl⟩⟩

end Pool.Mirrors

namespace Pool.Mirrors

variable {S : Nat → Prop} {p : Pool Bytes} {id : Nat}

/-- A holder sees what the file supplies. -/
theorem look (h : p.Mirrors S) (hS : S id) (hrange : id < p.pageCount) :
    p.look id = p.supplies id := by
  unfold Pool.look readPage onPool
  rcases hpin : poolPin id p with ⟨_ | i, q⟩
  · have := (h.pin hpin).2.2.1 hS hrange
    simpa [onPool] using this
  · have := (h.pin hpin).2.2.1 hS hrange
    simpa [onPool] using this

/-- A program that only looks keeps the pool a cache of the same file. -/
theorem onPool {γ : Type} (x : PageM Bytes γ) (hx : x.ReadOnly) (h : p.Mirrors S) :
    (onPool x p).2.Mirrors S ∧ p.SameFile (DatabaseEngine.onPool x p).2 := by
  induction x generalizing p with
  | pure a => exact ⟨h, .refl _⟩
  | alloc next ih => exact hx.elim
  | read id next ih =>
    unfold DatabaseEngine.onPool
    rcases hpin : poolPin id p with ⟨_ | i, q⟩
    · obtain ⟨hq, hfile, -⟩ := h.pin hpin
      obtain ⟨hdone, hfile'⟩ := ih none (hx none) hq
      exact ⟨hdone, hfile.trans hfile'⟩
    · obtain ⟨hq, hfile, -⟩ := h.pin hpin
      obtain ⟨hlet, hfile'⟩ := hq.unpin
      obtain ⟨hdone, hfile''⟩ := ih ((q.pageIn i).map Page.body) (hx _) hlet
      exact ⟨hdone, (hfile.trans hfile').trans hfile''⟩
  | write id body next ih => exact hx.elim
  | free id next ih => exact hx.elim
  | count next ih =>
    obtain ⟨hdone, hfile⟩ := ih p.pageCount (hx _) h
    exact ⟨hdone, hfile⟩

/-- A program that looks at pages of the set answers by what the file supplies. -/
theorem looks {γ : Type} {x : PageM Bytes γ} {a : γ} (h : p.Mirrors S)
    (hx : x.Looks S p.pageCount p.visible a) : (DatabaseEngine.onPool x p).1 = a := by
  induction x generalizing p with
  | pure b => exact hx
  | alloc next ih => exact hx.elim
  | read id next ih =>
    obtain ⟨hid, hx⟩ := hx
    unfold DatabaseEngine.onPool
    rcases hpin : poolPin id p with ⟨answer, q⟩
    obtain ⟨hq, hfile, hin, hout⟩ := h.pin hpin
    have hbody : answer.bind (fun i => (q.pageIn i).map Page.body) = p.visible id := by
      unfold Pool.visible
      split
      · rename_i hlt
        exact hin hid hlt
      · rename_i hge
        rw [hout (by omega)]
        rfl
    rcases answer with _ | i
    · rw [← hbody, ← hfile.visible, ← hfile.pageCount] at hx
      exact ih none hq hx
    · obtain ⟨hlet, hfile'⟩ := hq.unpin
      have hsame := hfile.trans hfile'
      rw [← hbody, ← hsame.visible, ← hsame.pageCount] at hx
      exact ih _ hlet hx
  | write id body next ih => exact hx.elim
  | free id next ih => exact hx.elim
  | count next ih => exact ih p.pageCount h hx

end Pool.Mirrors

/-! ### Checkpoints -/

/-- What writing dirty frames into file `h` leaves as it was. -/
structure Pool.Flushed (h : Nat) (p q : Pool α) : Prop where
  pageFrame : q.pageFrame = p.pageFrame
  pageFile : q.pageFile = p.pageFile
  writable : q.writable = p.writable
  catalogRootPage : q.catalogRootPage = p.catalogRootPage
  pageCount : q.pageCount = p.pageCount
  freeIds : q.freeIds = p.freeIds
  checksums : q.checksums = p.checksums
  corrupt : q.corrupt = p.corrupt
  wal : q.wal = p.wal
  length : q.frames.length = p.frames.length
  head : (q.files h).head = (p.files h).head
  otherFiles : ∀ k, k ≠ h → q.files k = p.files k

namespace Pool.Flushed

variable {h : Nat} {p q r : Pool α}

omit [PageBody α] in
/-- A pool that was not changed. -/
theorem refl (h : Nat) (p : Pool α) : p.Flushed h p :=
  ⟨rfl, rfl, rfl, rfl, rfl, rfl, rfl, rfl, rfl, rfl, rfl, fun _ _ => rfl⟩

omit [PageBody α] in
/-- Two flushes, one behind the other. -/
theorem trans (hp : p.Flushed h q) (hq : q.Flushed h r) : p.Flushed h r where
  pageFrame := hq.pageFrame.trans hp.pageFrame
  pageFile := hq.pageFile.trans hp.pageFile
  writable := hq.writable.trans hp.writable
  catalogRootPage := hq.catalogRootPage.trans hp.catalogRootPage
  pageCount := hq.pageCount.trans hp.pageCount
  freeIds := hq.freeIds.trans hp.freeIds
  checksums := hq.checksums.trans hp.checksums
  corrupt := hq.corrupt.trans hp.corrupt
  wal := hq.wal.trans hp.wal
  length := hq.length.trans hp.length
  head := hq.head.trans hp.head
  otherFiles := fun k hk => (hq.otherFiles k hk).trans (hp.otherFiles k hk)

end Pool.Flushed

/-- A frame of a writable pool that holds a page can be flushed, and is clean then. -/
theorem flushFrame_flushed {p : Pool α} {h i id : Nat} {f : Frame α} (hfile : p.pageFile = some h)
    (hwritable : p.writable = true) (hf : p.frames[i]? = some f) (hid : f.pageId = some id) :
    ∃ q g, flushFrame i p = some q ∧ p.Flushed h q ∧ q.frames = p.frames.set i g ∧
      g.dirty = false := by
  let page := poolStampPage f.page
  let g : Frame α := { f with page := page, dirty := false, logged := false }
  let q := ((p.setFile h ((p.files h).writePage id page)).setFrame i g).note (Io.page h id page)
  refine ⟨q, g, ?_, ?_, rfl, rfl⟩
  · simp only [flushFrame, hfile, hf, hwritable]
    split
    · rename_i id' _ hid'
      obtain rfl : id = id' := by rw [hid] at hid'; exact Option.some.inj hid'
      rfl
    · rename_i hno
      exact absurd hid (hno id rfl)
  · refine ⟨rfl, rfl, rfl, rfl, rfl, rfl, rfl, rfl, rfl, ?_, ?_, fun k hk => ?_⟩
    · simp [q, Pool.note, Pool.setFrame, Pool.setFile]
    · simp [q, Pool.note, Pool.setFrame, Pool.setFile, DbFile.writePage]
    · simp [q, Pool.note, Pool.setFrame, Pool.setFile, hk]

/-- The frames that a flush goes over are clean afterwards, the ones before them untouched. -/
theorem flushDirty_flushed {h : Nat} (n : Nat) {p : Pool α} {i : Nat}
    (hfile : p.pageFile = some h) (hwritable : p.writable = true) :
    p.Flushed h (flushDirty i n p) ∧
    (∀ j, j < i → (flushDirty i n p).frames[j]? = p.frames[j]?) ∧
    ∀ j f, i ≤ j → j < i + n → (flushDirty i n p).frames[j]? = some f → f.pageId.isSome →
      f.dirty = false := by
  induction n generalizing i p with
  | zero => exact ⟨.refl h p, fun _ _ => rfl, fun j f hlow hhigh => by omega⟩
  | succ n ih =>
    unfold flushDirty
    cases hf : p.frames[i]? with
    | none =>
      refine ⟨.refl h p, fun _ _ => rfl, fun j f hlow _ hj => ?_⟩
      have hj : p.frames[j]? = some f := hj
      have := lt_of_getElem? hj
      have := List.getElem?_eq_none_iff.mp hf
      omega
    | some f =>
      -- whatever becomes of frame `i`, the rest of the flush leaves it alone
      have hrest : ∀ {r : Pool α}, p.Flushed h r → (∀ j, j < i → r.frames[j]? = p.frames[j]?) →
          (∀ g, r.frames[i]? = some g → g.pageId.isSome → g.dirty = false) →
          p.Flushed h (flushDirty (i + 1) n r) ∧
          (∀ j, j < i → (flushDirty (i + 1) n r).frames[j]? = p.frames[j]?) ∧
          ∀ j f, i ≤ j → j < i + (n + 1) → (flushDirty (i + 1) n r).frames[j]? = some f →
            f.pageId.isSome → f.dirty = false := by
        intro r hr hbefore hclean
        obtain ⟨hflushed, hkept, hdone⟩ :=
          ih (i := i + 1) (hr.pageFile.trans hfile) (hr.writable.trans hwritable)
        refine ⟨hr.trans hflushed, fun j hj => (hkept j (by omega)).trans (hbefore j hj),
          fun j g hlow hhigh hg hheld => ?_⟩
        rcases Nat.eq_or_lt_of_le hlow with rfl | hlow
        · exact hclean g ((hkept i (by omega)) ▸ hg) hheld
        · exact hdone j g hlow (by omega) hg hheld
      dsimp only
      split
      · rename_i hdirty
        obtain ⟨hheld, -⟩ : f.pageId.isSome = true ∧ f.dirty = true := by simpa using hdirty
        obtain ⟨id, hid⟩ := Option.isSome_iff_exists.mp hheld
        obtain ⟨q, g, hflush, hq, hframes, hg⟩ := flushFrame_flushed hfile hwritable hf hid
        rw [hflush]
        refine hrest hq (fun j hj => ?_) fun g' hg' _ => ?_
        · rw [hframes, List.getElem?_set_ne (by omega)]
        · rw [hframes, List.getElem?_set_self (lt_of_getElem? hf)] at hg'
          obtain rfl := Option.some.inj hg'
          exact hg
      · rename_i hclean
        refine hrest (.refl h p) (fun _ _ => rfl) fun g hg hheld => ?_
        rw [hf] at hg
        obtain rfl := Option.some.inj hg
        simpa [hheld] using hclean

/-- What a checkpoint of a writable pool leaves. -/
structure Pool.Checkpointed (h : Nat) (p q : Pool α) : Prop where
  clean : ∀ (i : Nat) f, q.frames[i]? = some f → f.pageId.isSome → f.dirty = false
  pageFrame : q.pageFrame = p.pageFrame
  pageFile : q.pageFile = some h
  writable : q.writable = true
  catalogRootPage : q.catalogRootPage = p.catalogRootPage
  pageCount : q.pageCount = p.pageCount
  freeIds : q.freeIds = p.freeIds
  checksums : q.checksums = p.checksums
  corrupt : q.corrupt = p.corrupt
  wal : q.wal = p.wal.map fun _ => []
  head : (q.files h).head =
    overwrite (p.files h).head 12 (le32 (UInt32.ofNat p.pageCount) ++ le32 p.catalogRootPage)
  otherFiles : ∀ k, k ≠ h → q.files k = p.files k

omit [PageBody α] in
/-- A log that is truncated holds nothing. -/
theorem walTruncate_eq (p : Pool α) : walTruncate p =
    { p with
      wal := p.wal.map fun _ => []
      io := if p.wal.isSome then Io.resetLog :: p.io else p.io } := by
  unfold walTruncate
  cases hlog : p.wal with
  | none =>
    rcases p
    simp_all
  | some log => rfl

/-- A checkpoint of a writable pool, with the flush of its frames done. -/
theorem poolCheckpoint_eq {h : Nat} {p r : Pool α} (hfile : p.pageFile = some h)
    (hwritable : p.writable = true) (hr : flushDirty 0 p.frames.length p = r)
    (hrfile : r.pageFile = some h) (hrwritable : r.writable = true) :
    poolCheckpoint p = walTruncate
      (((r.setFile h ((r.files h).writeFields r.pageCount r.catalogRootPage)).note
        (Io.header h r.pageCount r.catalogRootPage)).note (Io.syncFile h)) := by
  simp only [poolCheckpoint, hwritable, hfile, hr, poolWriteHeader, hrwritable, hrfile]

/-- What a checkpoint leaves of a pool with a file that can be written. -/
theorem poolCheckpoint_checkpointed {h : Nat} {p : Pool α} (hfile : p.pageFile = some h)
    (hwritable : p.writable = true) : p.Checkpointed h (poolCheckpoint p) := by
  obtain ⟨hflushed, -, hclean⟩ := flushDirty_flushed (i := 0) p.frames.length hfile hwritable
  generalize hr : flushDirty 0 p.frames.length p = r at hflushed hclean
  have hrfile : r.pageFile = some h := hflushed.pageFile.trans hfile
  have hrwritable : r.writable = true := hflushed.writable.trans hwritable
  have hclean : ∀ (i : Nat) f, r.frames[i]? = some f → f.pageId.isSome → f.dirty = false := by
    intro i f hf hheld
    have hlt := lt_of_getElem? hf
    rw [hflushed.length] at hlt
    exact hclean i f (Nat.zero_le i) (by omega) hf hheld
  -- the header and the notes touch neither the frames nor another file
  rw [poolCheckpoint_eq hfile hwritable hr hrfile hrwritable, walTruncate_eq]
  generalize hwritten : (r.files h).writeFields r.pageCount r.catalogRootPage = file
  refine ⟨hclean, hflushed.pageFrame, hrfile, hrwritable, hflushed.catalogRootPage,
    hflushed.pageCount, hflushed.freeIds, hflushed.checksums, hflushed.corrupt, ?_, ?_,
    fun k hk => ?_⟩
  · show Option.map _ r.wal = _
    rw [hflushed.wal]
  · show (Function.update r.files h file h).head = _
    rw [Function.update_self, ← hwritten]
    show overwrite (r.files h).head 12 (le32 (UInt32.ofNat r.pageCount) ++ le32 r.catalogRootPage)
      = _
    rw [hflushed.head, hflushed.pageCount, hflushed.catalogRootPage]
  · show Function.update r.files h file k = _
    rw [Function.update_of_ne hk]
    exact hflushed.otherFiles k hk

/-- After a checkpoint the file supplies what the pages hold. -/
theorem checkpoint_mirrors {h : Nat} {p : Pool α} {m : PageMap α} (href : p.Refines m)
    (hfile : p.pageFile = some h) (hwritable : p.writable = true)
    (howed : ∀ id, m.owed id = false) :
    (poolCheckpoint p).Mirrors (fun id => (m.body id).isSome) ∧
      ∀ id b, m.body id = some b → (poolCheckpoint p).supplies id = some b := by
  have hdone := poolCheckpoint_checkpointed hfile hwritable
  have href := href.checkpoint
  refine ⟨⟨fun id i hres => href.frame_of_resident hres, hdone.clean, fun id i f hS hres hf => ?_⟩,
    fun id b hb => ?_⟩
  · obtain ⟨b, hb⟩ := Option.isSome_iff_exists.mp hS
    obtain ⟨g, hg, hid⟩ := href.frame_of_resident hres
    rw [hf] at hg
    obtain rfl := Option.some.inj hg
    have hsound := href.sound i f hf id hid
    rw [hsound.body b hb]
    exact hsound.supplied (hdone.clean i f hf (by simp [hid])) (howed id) b hb
  · cases hres : (poolCheckpoint p).pageFrame id with
    | none => exact href.absent id b hres hb
    | some i =>
      obtain ⟨f, hf, hid⟩ := href.frame_of_resident hres
      exact (href.sound i f hf id hid).supplied (hdone.clean i f hf (by simp [hid])) (howed id) b hb

end DatabaseEngine
