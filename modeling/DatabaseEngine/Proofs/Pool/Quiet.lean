import DatabaseEngine.Model.Pool
import Mathlib.Logic.Relation

/-!
# `DatabaseEngine.Proofs.Pool.Quiet`: what the pool does of its own accord

To find a frame the pool turns the CLOCK hand, clears reference bits, writes a logged page
back, drops a clean one, and grows. None of these is asked for by the caller. `Quiet` lists
them, one constructor each with what the source tests before it, so an invariant of the pool
needs one case for each and never unfolds the sweep.

* `sweep_quiet`, `acquireFrame_quiet`: the sweep and the growth behind it are quiet, and the
  frame they answer is in the pool and free once it is disowned.
* `poolPin_cases`, `poolAllocate_cases`: what a pin and an allocation do, quiet moves apart.
-/

set_option autoImplicit false

namespace DatabaseEngine

variable {α : Type} [PageBody α]

/-- One move of the pool that no caller asked for. -/
inductive Quiet (p : Pool α) : Pool α → Prop
  /-- The CLOCK hand stands somewhere else. -/
  | turn (hand : Nat) (h : p.frames.length = 0 ∨ hand < p.frames.length) :
      Quiet p { p with hand := hand }
  /-- A reference bit changes, or a page is pinned once more. -/
  | touch (i : Nat) (f : Frame α) (hf : p.frames[i]? = some f) (referenced : Bool) (more : Nat) :
      Quiet p (p.setFrame i { f with referenced := referenced, pins := f.pins + more })
  /-- A logged page is written into the file. -/
  | writeBack (i : Nat) (f : Frame α) (id h : Nat) (hf : p.frames[i]? = some f)
      (hid : f.pageId = some id) (hunpinned : f.pins = 0) (hlogged : f.logged = true)
      (hdirty : f.dirty = true) (hfile : p.pageFile = some h) (hwritable : p.writable = true) :
      Quiet p (((p.setFile h ((p.files h).writePage id (poolStampPage f.page))).setFrame i
        { f with page := poolStampPage f.page, dirty := false, logged := false }).note
        (Io.page h id (poolStampPage f.page)))
  /-- A clean page leaves its frame. -/
  | drop (i : Nat) (f : Frame α) (id : Nat) (hf : p.frames[i]? = some f)
      (hid : f.pageId = some id) (hunpinned : f.pins = 0) (hclean : f.dirty = false) :
      Quiet p ((p.disown i).setDirectory id none)
  /-- Free frames are added, and the hand goes back to the first. -/
  | grow (n : Nat) (hn : 0 < n) :
      Quiet p { p with frames := p.frames ++ List.replicate n Frame.free, hand := 0 }

/-- A run of quiet moves. -/
def QuietRun (p q : Pool α) : Prop := Relation.ReflTransGen Quiet p q

/-- Nothing has happened. -/
@[refl] theorem QuietRun.refl (p : Pool α) : QuietRun p p := Relation.ReflTransGen.refl

/-- One step. -/
theorem Quiet.run {p q : Pool α} (h : Quiet p q) : QuietRun p q := Relation.ReflTransGen.single h

/-- Two runs, one behind the other. -/
theorem QuietRun.trans {p q r : Pool α} (h : QuietRun p q) (h' : QuietRun q r) : QuietRun p r :=
  Relation.ReflTransGen.trans h h'

/-- What every quiet move keeps, a run of them keeps. -/
theorem QuietRun.keeps (inv : Pool α → Prop) (keep : ∀ p q, Quiet p q → inv p → inv q)
    {p q : Pool α} (h : QuietRun p q) (hp : inv p) : inv q := by
  induction h with
  | refl => exact hp
  | tail _ hmove ih => exact keep _ _ hmove ih

omit [PageBody α] in
/-- There is a frame at every number below their count. -/
theorem getElem?_of_lt {frames : List (Frame α)} {i : Nat} (h : i < frames.length) :
    ∃ f, frames[i]? = some f := ⟨frames[i], List.getElem?_eq_getElem h⟩

omit [PageBody α] in
/-- A frame that is there has a number below their count. -/
theorem lt_of_getElem? {frames : List (Frame α)} {i : Nat} {f : Frame α}
    (h : frames[i]? = some f) : i < frames.length := by
  obtain ⟨hlt, -⟩ := List.getElem?_eq_some_iff.mp h
  exact hlt

/-- A flush that the sweep asks for writes a logged page of the pool's own file. -/
theorem flushFrame_eq {p q : Pool α} {i : Nat} (h : flushFrame i p = some q) :
    ∃ f id inode, p.frames[i]? = some f ∧ f.pageId = some id ∧ p.pageFile = some inode ∧
      p.writable = true ∧
      q = ((p.setFile inode ((p.files inode).writePage id (poolStampPage f.page))).setFrame i
        { f with page := poolStampPage f.page, dirty := false, logged := false }).note
        (Io.page inode id (poolStampPage f.page)) := by
  unfold flushFrame at h
  split at h
  · rename_i inode f hfile hf
    split at h
    · rename_i id hwritable hid
      exact ⟨f, id, inode, hf, hid, hfile, hwritable, (Option.some.inj h).symm⟩
    · exact absurd h (by simp)
  · exact absurd h (by simp)

omit [PageBody α] in
/-- The hand stays on the frames. -/
theorem hand_next {p : Pool α} : p.frames.length = 0 ∨
    (p.hand + 1) % p.frames.length < p.frames.length := by
  rcases Nat.eq_zero_or_pos p.frames.length with h | h
  · exact Or.inl h
  · exact Or.inr (Nat.mod_lt _ h)

omit [PageBody α] in
/-- A frame that is changed is one that is written. -/
theorem modify_eq_set_of_getElem? {frames : List (Frame α)} {i : Nat} {f : Frame α}
    (g : Frame α → Frame α) (hf : frames[i]? = some f) :
    frames.modify i g = frames.set i (g f) := by
  apply List.ext_getElem?
  intro j
  rw [List.getElem?_modify, List.getElem?_set]
  by_cases hij : i = j
  · subst hij
    rw [hf]
    simp [lt_of_getElem? hf]
  · simp [hij]

omit [PageBody α] in
/-- A frame that holds nothing is disowned already. -/
theorem Pool.disown_of_free {p : Pool α} {i : Nat} {f : Frame α} (hf : p.frames[i]? = some f)
    (hfree : f.pageId = none) : p.disown i = p := by
  have hsame : ({ f with pageId := none } : Frame α) = f := by rw [← hfree]
  have hset : p.frames.set i f = p.frames := by
    obtain ⟨hlt, rfl⟩ := List.getElem?_eq_some_iff.mp hf
    exact List.set_getElem_self hlt
  have hmodify := modify_eq_set_of_getElem? (fun g : Frame α => { g with pageId := none }) hf
  simp only [hsame, hset] at hmodify
  simp only [Pool.disown, hmodify]

/-- The sweep is quiet. The frame it answers is in the pool, and disowning that frame is the
rest of the quiet move. -/
theorem sweep_quiet (fuel : Nat) {p q : Pool α} {answer : Option Nat}
    (h : sweep fuel p = (answer, q)) :
    (answer = none → QuietRun p q) ∧
    ∀ i, answer = some i → i < q.frames.length ∧ QuietRun p (q.disown i) := by
  induction fuel generalizing p with
  | zero =>
    obtain ⟨rfl, rfl⟩ : none = answer ∧ p = q := by simpa [sweep] using h
    exact ⟨fun _ => QuietRun.refl p, fun i hi => absurd hi (by simp)⟩
  | succ fuel ih =>
    have hturn : QuietRun p p.turn := (Quiet.turn _ hand_next).run
    simp only [sweep] at h
    generalize p.turn = p' at h hturn
    generalize p.hand = i at h
    -- The rest of the sweep starts from a state that quiet moves reach.
    have hrest : ∀ {r : Pool α}, QuietRun p r → sweep fuel r = (answer, q) →
        (answer = none → QuietRun p q) ∧
        ∀ i, answer = some i → i < q.frames.length ∧ QuietRun p (q.disown i) := by
      intro r hr hsweep
      obtain ⟨hnone, hsome⟩ := ih hsweep
      exact ⟨fun h => hr.trans (hnone h), fun i h => ⟨(hsome i h).1, hr.trans (hsome i h).2⟩⟩
    -- A frame that is handed out is reached by the moves so far and then disowned.
    have hfound : ∀ {r : Pool α}, i < r.frames.length → QuietRun p (r.disown i) →
        (some i, r) = (answer, q) →
        (answer = none → QuietRun p q) ∧
        ∀ i, answer = some i → i < q.frames.length ∧ QuietRun p (q.disown i) := by
      intro r hlt hr heq
      obtain ⟨rfl, rfl⟩ := Prod.mk.inj heq
      refine ⟨fun h => absurd h (by simp), fun j hj => ?_⟩
      obtain rfl := Option.some.inj hj
      exact ⟨hlt, hr⟩
    split at h
    · obtain ⟨rfl, rfl⟩ := Prod.mk.inj h
      exact ⟨fun _ => hturn, fun i hi => absurd hi (by simp)⟩
    · rename_i f hf
      have hlt := lt_of_getElem? hf
      split at h
      · rename_i hid
        refine hfound hlt ?_ h
        rw [Pool.disown_of_free hf hid]
        exact hturn
      · rename_i id hid
        split at h
        · exact hrest hturn h
        rename_i hpins
        have hunpinned : f.pins = 0 := by omega
        split at h
        · exact hrest hturn h
        rename_i hmay
        split at h
        · exact hrest (hturn.trans (Quiet.touch i f hf false 0).run) h
        split at h
        · rename_i hdirty
          split at h
          · exact hrest hturn h
          · rename_i r hflush
            obtain ⟨f', id', inode, hf', hid', hfile, hwritable, rfl⟩ := flushFrame_eq hflush
            obtain rfl : f = f' := by rw [hf] at hf'; exact Option.some.inj hf'
            obtain rfl : id = id' := by rw [hid] at hid'; exact Option.some.inj hid'
            have hlogged : f.logged = true := by simpa [hdirty, hwritable] using hmay
            have hback := Quiet.writeBack i f id inode hf hid hunpinned hlogged hdirty
              hfile hwritable
            refine hfound ?_ (hturn.trans (hback.run.trans ?_)) h
            · simpa [Pool.setFrame, Pool.setDirectory, Pool.setFile, Pool.note] using hlt
            · refine (Quiet.drop i
                { f with page := poolStampPage f.page, dirty := false, logged := false }
                id ?_ hid hunpinned rfl).run
              simp [Pool.setFrame, Pool.setFile, Pool.note, hlt]
        · rename_i hclean
          refine hfound (by simpa [Pool.setDirectory] using hlt) (hturn.trans ?_) h
          exact (Quiet.drop i f id hf hid hunpinned (by simpa using hclean)).run

/-- A frame to fill, at the end of quiet moves: it is in the pool and holds nothing. -/
theorem acquireFrame_quiet {p q : Pool α} {i : Nat} (h : acquireFrame p = (i, q)) :
    (∃ f, (q.disown i).frames[i]? = some f ∧ f.pageId = none) ∧ QuietRun p (q.disown i) := by
  have hfree : ∀ {r : Pool α} {j : Nat}, j < r.frames.length →
      ∃ f, (r.disown j).frames[j]? = some f ∧ f.pageId = none := by
    intro r j hlt
    obtain ⟨f, hf⟩ := getElem?_of_lt hlt
    exact ⟨{ f with pageId := none }, by simp [Pool.disown, hf], rfl⟩
  unfold acquireFrame at h
  split at h
  · rename_i j r hsweep
    obtain ⟨rfl, rfl⟩ := Prod.mk.inj h
    obtain ⟨hlt, hrun⟩ := (sweep_quiet _ hsweep).2 j rfl
    exact ⟨hfree hlt, hrun⟩
  · rename_i r hsweep
    have hrun := (sweep_quiet _ hsweep).1 rfl
    obtain ⟨rfl, rfl⟩ := Prod.mk.inj h
    have hpos : 0 < (if r.frames.length ≠ 0 then r.frames.length * 2 else INITIAL_FRAMES)
        - r.frames.length := by
      have hinitial : 0 < INITIAL_FRAMES := by decide
      split <;> omega
    have hnew : ({ growFrames r with hand := 0 } : Pool α).frames[r.frames.length]?
        = some Frame.free := by
      simp only [growFrames]
      rw [List.getElem?_append_right (Nat.le_refl _), Nat.sub_self,
        List.getElem?_replicate_of_lt hpos]
    refine ⟨hfree (lt_of_getElem? hnew), ?_⟩
    rw [Pool.disown_of_free hnew rfl]
    exact hrun.trans (Quiet.grow _ hpos).run

/-- Quiet moves bring no page in. -/
theorem Quiet.absent {p q : Pool α} (h : Quiet p q) {id : Nat} (habsent : p.pageFrame id = none) :
    q.pageFrame id = none := by
  cases h with
  | drop i f dropped =>
    by_cases hid : id = dropped <;>
      simp [Pool.setDirectory, Pool.disown, Function.update, hid, habsent]
  | _ => exact habsent

/-- A pin finds the page resident, or reads it into a frame that quiet moves made free, or
refuses it. -/
theorem poolPin_cases {id : Nat} {p q : Pool α} {answer : Option Nat}
    (h : poolPin id p = (answer, q)) :
    (answer = none ∧ p.pageCount ≤ id ∧ q = p) ∨
    (∃ i, answer = some i ∧ id < p.pageCount ∧ p.pageFrame id = some i ∧
      q = { p with
        frames := p.frames.modify i fun f => { f with referenced := true, pins := f.pins + 1 } }) ∨
    (∃ r, id < p.pageCount ∧ p.pageFrame id = none ∧ QuietRun p r ∧ r.pageFrame id = none ∧
      ((answer = none ∧ r.fetch id = none ∧ (q = r ∨ q = { r with corrupt := r.corrupt + 1 })) ∨
       (∃ i f page, answer = some i ∧ r.frames[i]? = some f ∧ f.pageId = none ∧
          r.fetch id = some page ∧
          q = r.place i id
            { pageId := some id, pins := 1, dirty := false, logged := false,
              referenced := false, page := page }))) := by
  unfold poolPin at h
  split at h
  case isFalse hrange =>
    obtain ⟨rfl, rfl⟩ := Prod.mk.inj h
    exact Or.inl ⟨rfl, by omega, rfl⟩
  case isTrue hrange =>
    cases hfind : findFrame id p with
    | some i =>
      simp only [hfind] at h
      obtain ⟨rfl, rfl⟩ := Prod.mk.inj h
      exact Or.inr (Or.inl ⟨i, rfl, hrange, hfind, rfl⟩)
    | none =>
      simp only [hfind] at h
      rcases hacquire : acquireFrame p with ⟨i, r⟩
      simp only [hacquire] at h
      obtain ⟨⟨f, hf, hfree⟩, hrun⟩ := acquireFrame_quiet hacquire
      have habsent : (r.disown i).pageFrame id = none :=
        hrun.keeps (fun p => p.pageFrame id = none) (fun _ _ hmove => hmove.absent) hfind
      refine Or.inr (Or.inr ⟨r.disown i, hrange, hfind, hrun, habsent, ?_⟩)
      cases hfetch : (r.disown i).fetch id with
      | none =>
        simp only [hfetch] at h
        obtain ⟨rfl, rfl⟩ := Prod.mk.inj h
        refine Or.inl ⟨rfl, rfl, ?_⟩
        split
        · exact Or.inr rfl
        · exact Or.inl rfl
      | some page =>
        simp only [hfetch] at h
        obtain ⟨rfl, rfl⟩ := Prod.mk.inj h
        exact Or.inr ⟨i, f, page, rfl, hf, hfree, rfl, rfl⟩

omit [PageBody α] in
/-- Filling a frame does not ask whose it was. -/
theorem Pool.disown_place (p : Pool α) (i id : Nat) (f : Frame α) :
    (p.disown i).place i id f = p.place i id f := by
  have hset : (p.disown i).frames.set i f = p.frames.set i f := by
    apply List.ext_getElem?
    intro j
    by_cases hij : i = j <;> simp [Pool.disown, List.getElem?_set, hij]
  show ({ p with
    frames := (p.disown i).frames.set i f
    pageFrame := Function.update p.pageFrame id (some i) } : Pool α) = _
  rw [hset]
  rfl

/-- An allocation takes an id and clears a frame for it that quiet moves made free. -/
theorem poolAllocate_cases {p q : Pool α} {id : Nat} (h : poolAllocate p = (id, q)) :
    ∃ r i f, QuietRun p r ∧ r.frames[i]? = some f ∧ f.pageId = none ∧ id = r.nextId ∧
      q = r.taken.place i id
        { pageId := some id, pins := 0, dirty := true, logged := false,
          referenced := true, page := Page.zero } := by
  unfold poolAllocate at h
  rcases hacquire : acquireFrame p with ⟨i, r⟩
  simp only [hacquire] at h
  obtain ⟨⟨f, hf, hfree⟩, hrun⟩ := acquireFrame_quiet hacquire
  refine ⟨r.disown i, i, f, hrun, hf, hfree, ?_⟩
  obtain ⟨rfl, rfl⟩ := Prod.mk.inj h
  exact ⟨rfl, (Pool.disown_place r.taken i r.nextId _).symm⟩

end DatabaseEngine
