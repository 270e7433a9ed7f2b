import DatabaseEngine.Model.Session
import DatabaseEngine.Proofs.Pool.Refinement

/-!
# `DatabaseEngine.Proofs.Pool.Client`: what a page program can do to the pool

Whatever a page program asks for, the pool changes by quiet moves and by the few changes that
`ClientKeeps` lists: a page is read into a free frame, a frame is allocated, a resident page
is pinned, stored, let go or freed.

* `ClientKeeps.onPool`: a property of the pool that each of them keeps, every page program
  keeps. Nothing is asked of the program: it may be one that goes wrong.
* `onPool_bind`: a program runs as its parts, one after another.
* `Refines.looks`: a program that only looks answers what the map of contents says.
-/

set_option autoImplicit false

namespace DatabaseEngine

open Library

variable {α : Type} [PageBody α]

/-- A property of the pool that its own moves and its clients keep. -/
structure ClientKeeps (inv : Pool α → Prop) : Prop where
  quiet : ∀ p q, Quiet p q → inv p → inv q
  refused : ∀ p, inv p → inv { p with corrupt := p.corrupt + 1 }
  fetched : ∀ p i id (f : Frame α) page, inv p → p.frames[i]? = some f → f.pageId = none →
    id < p.pageCount → p.pageFrame id = none → p.fetch id = some page →
    inv (p.place i id
      { pageId := some id, pins := 1, dirty := false, logged := false,
        referenced := false, page := page })
  allocated : ∀ p i (f : Frame α), inv p → p.frames[i]? = some f → f.pageId = none →
    inv (p.taken.place i p.nextId
      { pageId := some p.nextId, pins := 0, dirty := true, logged := false,
        referenced := true, page := Page.zero })
  pinned : ∀ p i, inv p → inv { p with
    frames := p.frames.modify i fun f => { f with referenced := true, pins := f.pins + 1 } }
  unpinned : ∀ p id, inv p → inv (poolUnpin id false p)
  changed : ∀ p id page, inv p → inv (poolUnpin id true (poolStore id page p))
  freed : ∀ p id, inv p → inv (poolFree id p)

namespace ClientKeeps

variable {inv : Pool α → Prop}

/-- Nothing that the pool does by itself ends the invariant. -/
theorem quietRun (h : ClientKeeps inv) {p q : Pool α} (hrun : QuietRun p q) (hp : inv p) : inv q :=
  hrun.keeps inv h.quiet hp

/-- A pin keeps it. -/
theorem pin (h : ClientKeeps inv) {p q : Pool α} {id : Nat} {answer : Option Nat}
    (hpin : poolPin id p = (answer, q)) (hp : inv p) : inv q := by
  rcases poolPin_cases hpin with ⟨-, -, rfl⟩ | ⟨i, -, -, -, rfl⟩ |
    ⟨r, hrange, -, hrun, hnone, ⟨-, -, rfl | rfl⟩ | ⟨i, f, page, -, hf, hfree, hfetch, rfl⟩⟩
  · exact hp
  · exact h.pinned p i hp
  · exact h.quietRun hrun hp
  · exact h.refused r (h.quietRun hrun hp)
  · have hcount : r.pageCount = p.pageCount :=
      hrun.keeps (fun q => q.pageCount = p.pageCount) (fun _ _ hmove hq => by
        cases hmove <;> exact hq) rfl
    exact h.fetched r i id f page (h.quietRun hrun hp) hf hfree (hcount ▸ hrange) hnone hfetch

/-- An allocation keeps it. -/
theorem allocate (h : ClientKeeps inv) {p : Pool α} (hp : inv p) : inv (poolAllocate p).2 := by
  rcases halloc : poolAllocate p with ⟨id, q⟩
  obtain ⟨r, i, f, hrun, hf, hfree, rfl, rfl⟩ := poolAllocate_cases halloc
  exact h.allocated r i f (h.quietRun hrun hp) hf hfree

end ClientKeeps

/-- What the pool and its clients keep, a page program keeps. -/
theorem ClientKeeps.onPool {inv : Pool Bytes → Prop} (h : ClientKeeps inv) {α : Type}
    (x : PageM Bytes α) {p : Pool Bytes} (hp : inv p) : inv (onPool x p).2 := by
  induction x generalizing p with
  | pure a => exact hp
  | alloc next ih => exact ih _ (h.allocate hp)
  | read id next ih =>
    unfold DatabaseEngine.onPool
    rcases hpin : poolPin id p with ⟨_ | i, q⟩
    · exact ih _ (h.pin hpin hp)
    · exact ih _ (h.unpinned q id (h.pin hpin hp))
  | write id body next ih =>
    unfold DatabaseEngine.onPool
    rcases hpin : poolPin id p with ⟨_ | i, q⟩
    · exact ih (h.pin hpin hp)
    · exact ih (h.changed q id _ (h.pin hpin hp))
  | free id next ih => exact ih (h.freed p id hp)
  | count next ih => exact ih _ hp

/-- Two programs on the pool, one behind the other. -/
theorem onPool_bind {α γ : Type} (x : PageM Bytes α) (f : α → PageM Bytes γ) (p : Pool Bytes) :
    onPool (x.bind f) p = onPool (f (onPool x p).1) (onPool x p).2 := by
  induction x generalizing p with
  | pure a => rfl
  | alloc next ih => exact ih _ _
  | read id next ih =>
    simp only [PageM.bind, onPool]
    rcases poolPin id p with ⟨_ | i, q⟩ <;> exact ih _ _
  | write id body next ih =>
    simp only [PageM.bind, onPool]
    rcases poolPin id p with ⟨_ | i, q⟩ <;> exact ih _
  | free id next ih => exact ih _
  | count next ih => exact ih _ _

/-- Quiet moves leave alone which pages there are. -/
theorem QuietRun.ids {p q : Pool α} (hrun : QuietRun p q) :
    q.pageCount = p.pageCount ∧ q.freeIds = p.freeIds :=
  hrun.keeps (fun q => q.pageCount = p.pageCount ∧ q.freeIds = p.freeIds)
    (fun _ _ hmove hq => by cases hmove <;> exact hq) ⟨rfl, rfl⟩

/-- So does a pin. -/
theorem poolPin_ids {p q : Pool α} {id : Nat} {answer : Option Nat}
    (hpin : poolPin id p = (answer, q)) : q.pageCount = p.pageCount ∧ q.freeIds = p.freeIds := by
  rcases poolPin_cases hpin with ⟨-, -, rfl⟩ | ⟨i, -, -, -, rfl⟩ |
    ⟨r, -, -, hrun, -, ⟨-, -, rfl | rfl⟩ | ⟨i, f, page, -, -, -, -, rfl⟩⟩
  · exact ⟨rfl, rfl⟩
  · exact ⟨rfl, rfl⟩
  all_goals exact hrun.ids

omit [PageBody α] in
/-- And letting a page go. -/
theorem poolUnpin_ids (p : Pool α) (id : Nat) (dirty : Bool) :
    (poolUnpin id dirty p).pageCount = p.pageCount ∧
      (poolUnpin id dirty p).freeIds = p.freeIds := by
  unfold poolUnpin
  split <;> exact ⟨rfl, rfl⟩

/-- A page program never takes an id back. -/
theorem pageCount_grows (n : Nat) : ClientKeeps fun p : Pool Bytes => n ≤ p.pageCount where
  quiet _ _ hmove h := by cases hmove <;> exact h
  refused _ h := h
  fetched _ _ _ _ _ h _ _ _ _ _ := h
  allocated p i f h _ _ := by
    show n ≤ if p.freeIds.isEmpty then p.pageCount + 1 else p.pageCount
    split
    · exact Nat.le_succ_of_le h
    · exact h
  pinned _ _ h := h
  unpinned p id h := (poolUnpin_ids p id false).1 ▸ h
  changed p id page h := by
    rw [(poolUnpin_ids _ id true).1]
    unfold poolStore
    split <;> exact h
  freed p id h := by
    unfold poolFree
    split <;> exact h

/-- What a holder of a page sees. -/
def Pool.look (p : Pool Bytes) (id : Nat) : Option Bytes := (onPool (readPage id) p).1

/-- To look at a page is to pin it. -/
theorem Pool.look_eq (p : Pool Bytes) (id : Nat) :
    p.look id = (poolPin id p).1.bind fun i => ((poolPin id p).2.pageIn i).map Page.body := by
  simp only [Pool.look, readPage, onPool]
  rcases poolPin id p with ⟨_ | i, q⟩ <;> rfl

/-- What a holder sees of each page in use. -/
def Pool.contents (p : Pool Bytes) : PageMap Bytes where
  body id := if p.Allocated id then p.look id else none
  owed _ := false

/-- The pool holds what it shows, and nothing is owed to it. -/
def Pool.InOrder (p : Pool Bytes) : Prop := p.Refines p.contents

/-- A pool at the start is in order. -/
theorem startPool_inOrder : startPool.InOrder := by
  have hnone : ∀ id, ¬startPool.Allocated id := fun id h => absurd h.1 (by simp [startPool])
  refine ⟨fun id i => ?_, fun i f hf => ?_, fun id b _ hb => ?_, fun id _ => ?_, fun id h => ?_,
    fun id hid => ?_, List.nodup_nil⟩
  · simp [startPool]
  · exact absurd hf (by simp [startPool])
  · exact absurd hb (by simp [Pool.contents, hnone id])
  · simp [Pool.contents, hnone id]
  · exact absurd h (by simp [Pool.contents])
  · exact absurd hid (by simp [startPool])

/-- A page in use that can be read. -/
def Pool.Readable (p : Pool Bytes) (id : Nat) : Prop := p.Allocated id ∧ (p.look id).isSome

/-- The pages with contents are those that can be read. -/
theorem Pool.contents_isSome {p : Pool Bytes} {id : Nat} :
    (p.contents.body id).isSome ↔ p.Readable id := by
  unfold Pool.contents Pool.Readable
  dsimp only
  split <;> simp_all

/-- A map that says what the pool shows is the pool's own. -/
theorem Pool.Refines.inOrder {p : Pool Bytes} {m : PageMap Bytes} (h : p.Refines m)
    (hbody : ∀ id, p.Allocated id → m.body id = p.look id) (howed : ∀ id, m.owed id = false) :
    p.InOrder := by
  have hsame : p.contents = m := by
    obtain ⟨body, owed⟩ := m
    have hbodies : p.contents.body = body := by
      funext id
      by_cases hid : p.Allocated id
      · exact (if_pos hid).trans (hbody id hid).symm
      · exact (if_neg hid).trans (h.unallocated id hid).symm
    have howeds : p.contents.owed = owed := by
      funext id
      exact (howed id).symm
    rw [← hbodies, ← howeds]
  unfold Pool.InOrder
  rw [hsame]
  exact h

namespace Pool.Refines

variable {p q : Pool Bytes} {m : PageMap Bytes} {id : Nat}

/-- A pin that is let go at once. -/
theorem visited (h : p.Refines m) {i : Nat} (hpin : poolPin id p = (some i, q)) :
    (poolUnpin id false q).Refines m :=
  (h.pin hpin).1.unpinClean (h.pinsOf_of_pin hpin)

/-- A holder sees the contents the map has. -/
theorem look (h : p.Refines m) {b : Bytes} (hb : m.body id = some b) : p.look id = some b := by
  rw [Pool.look_eq]
  rcases hpin : poolPin id p with ⟨answer, q⟩
  obtain ⟨i, rfl, hbody⟩ := (h.pin hpin).2.2 b hb
  exact hbody

/-- A program that only looks changes nothing that the map sees. -/
theorem readOnly (h : p.Refines m) {γ : Type} {x : PageM Bytes γ} (hx : x.ReadOnly) :
    (onPool x p).2.Refines m := by
  induction x generalizing p with
  | pure a => exact h
  | alloc next ih => exact hx.elim
  | read id next ih =>
    unfold DatabaseEngine.onPool
    rcases hpin : poolPin id p with ⟨_ | i, q⟩
    · exact ih none (h.pin hpin).1 (hx none)
    · exact ih _ (h.visited hpin) (hx _)
  | write id body next ih => exact hx.elim
  | free id next ih => exact hx.elim
  | count next ih => exact ih p.pageCount h (hx _)

/-- A program that looks at pages of which the map knows the contents answers by the map. -/
theorem looks (h : p.Refines m) {γ : Type} {x : PageM Bytes γ} {a : γ}
    (hx : x.Looks (fun id => (m.body id).isSome) p.pageCount m.body a) :
    (onPool x p).1 = a ∧ (onPool x p).2.Refines m := by
  induction x generalizing p with
  | pure b => exact ⟨hx, h⟩
  | alloc next ih => exact hx.elim
  | read id next ih =>
    obtain ⟨hS, hx⟩ := hx
    obtain ⟨b, hb⟩ := Option.isSome_iff_exists.mp hS
    unfold DatabaseEngine.onPool
    rcases hpin : poolPin id p with ⟨_ | i, q⟩
    · obtain ⟨i, hi, -⟩ := (h.pin hpin).2.2 b hb
      exact absurd hi (by simp)
    · obtain ⟨j, hj, hbody⟩ := (h.pin hpin).2.2 b hb
      obtain rfl := Option.some.inj hj
      have hcount : (poolUnpin id false q).pageCount = p.pageCount :=
        (poolUnpin_ids q id false).1.trans (poolPin_ids hpin).1
      simp only [hbody]
      rw [hb] at hx
      exact ih (some b) (h.visited hpin) (hcount ▸ hx)
  | write id body next ih => exact hx.elim
  | free id next ih => exact hx.elim
  | count next ih => exact ih p.pageCount h hx

end Pool.Refines

end DatabaseEngine
