import DatabaseEngine.Model.Failure
import DatabaseEngine.Proofs.Pool.Plain
import DatabaseEngine.Proofs.Pool.WriteBack
import Mathlib.Data.List.Induction

/-!
# `DatabaseEngine.Proofs.Pool.Unlogged`: what waits for the log

A change that is in no log stays in its frame until a commit takes it. So each page in use is
either waiting like this or is what file and log make of it together (`Pool.KeptBy`), and a page
program keeps that up.

* `Serves.kept`: every legal page program does.
* `appended_keeps`: so does a commit that stops in the middle, with the frames that it appended.
* `poolCommit_shows`: after a commit that succeeds, file and log show every page.
-/

set_option autoImplicit false

namespace DatabaseEngine

open Library

section
variable {α : Type} [PageBody α]

/-- The frame holds a change of the page that no log has. -/
def Frame.waits (f : Frame α) (id : Nat) : Prop := f.pageId = some id ∧ f.unlogged = true

/-- A change of the page waits for the log. -/
def Pool.Unlogged (p : Pool α) (id : Nat) : Prop := ∃ f ∈ p.frames, f.waits id

/-- What waits in one pool waits in the other. -/
def Pool.Waits (p q : Pool α) : Prop := ∀ id, p.Unlogged id → q.Unlogged id

omit [PageBody α] in
/-- A frame is replaced by one that waits for all that it waited for. -/
theorem Pool.Unlogged.set {p : Pool α} {i id : Nat} {f g : Frame α} (h : p.Unlogged id)
    (hf : p.frames[i]? = some f) (hg : f.waits id → g.waits id) :
    ∃ f ∈ p.frames.set i g, f.waits id := by
  obtain ⟨f', hin, hwaits⟩ := h
  obtain ⟨j, hj⟩ := List.mem_iff_getElem?.mp hin
  by_cases hij : i = j
  · subst hij
    obtain rfl : f = f' := Option.some.inj (hf.symm.trans hj)
    exact ⟨g, List.mem_of_getElem? (List.getElem?_set_self (lt_of_getElem? hf)), hg hwaits⟩
  · exact ⟨f', List.mem_of_getElem? ((List.getElem?_set_ne hij).trans hj), hwaits⟩

omit [PageBody α] in
/-- A frame that waits for the log still does when it is changed so that it may. -/
theorem Pool.Unlogged.modify {p : Pool α} {i id : Nat} {k : Frame α → Frame α} (h : p.Unlogged id)
    (hk : ∀ f, p.frames[i]? = some f → f.waits id → (k f).waits id) :
    ∃ f ∈ p.frames.modify i k, f.waits id := by
  cases hf : p.frames[i]? with
  | none =>
    rw [List.modify_eq_self (List.getElem?_eq_none_iff.mp hf)]
    exact h
  | some f =>
    rw [modify_eq_set_of_getElem? k hf]
    exact h.set hf (hk f hf)

/-- What the pool does of its own accord it does to logged and clean pages. -/
theorem Quiet.waits {p q : Pool α} (hmove : Quiet p q) : p.Waits q := by
  intro id h
  cases hmove with
  | turn hand _ => exact h
  | touch i f hf referenced more => exact h.set hf fun hwaits => hwaits
  | writeBack i f other inode hf _ _ hlogged _ _ _ =>
    exact h.set hf fun hwaits => absurd hwaits.2 (by simp [Frame.unlogged, hlogged])
  | drop i f other hf _ _ hclean =>
    refine h.modify fun g hg hwaits => ?_
    obtain rfl : f = g := Option.some.inj (hf.symm.trans hg)
    exact absurd hwaits.2 (by simp [Frame.unlogged, hclean])
  | grow n _ =>
    obtain ⟨f, hf, hwaits⟩ := h
    exact ⟨f, List.mem_append_left _ hf, hwaits⟩

/-- What waits for the log still does when the pool has moved its frames. -/
theorem QuietRun.waits {p q : Pool α} (hrun : QuietRun p q) : p.Waits q := fun id h =>
  hrun.keeps (fun q => q.Unlogged id) (fun _ _ hmove hq => hmove.waits id hq) h

omit [PageBody α] in
/-- A frame that holds nothing is filled. -/
theorem Pool.Unlogged.place {p : Pool α} {i id : Nat} {f : Frame α} (h : p.Unlogged id)
    (hf : p.frames[i]? = some f) (hfree : f.pageId = none) (other : Nat) (g : Frame α) :
    (p.place i other g).Unlogged id :=
  h.set hf fun hwaits => absurd hwaits.1 (by simp [hfree])

/-- A pin lets nothing go that waits. -/
theorem poolPin_waits {p q : Pool α} {id : Nat} {answer : Option Nat}
    (hpin : poolPin id p = (answer, q)) : p.Waits q := by
  intro other h
  rcases poolPin_cases hpin with ⟨-, -, rfl⟩ | ⟨i, -, -, -, rfl⟩ |
    ⟨r, -, -, hrun, -, ⟨-, -, rfl | rfl⟩ | ⟨i, f, page, -, hf, hfree, -, rfl⟩⟩
  · exact h
  · exact h.modify fun _ _ hwaits => hwaits
  · exact hrun.waits other h
  · exact hrun.waits other h
  · exact (hrun.waits other h).place hf hfree _ _

omit [PageBody α] in
/-- An unpin lets nothing go that waits. -/
theorem poolUnpin_waits (p : Pool α) (id : Nat) (dirty : Bool) :
    p.Waits (poolUnpin id dirty p) := by
  intro other h
  unfold poolUnpin
  split
  · exact h
  · refine h.modify fun f _ hwaits => ⟨hwaits.1, ?_⟩
    have hunlogged := hwaits.2
    cases dirty <;> simp_all [Frame.unlogged]

omit [PageBody α] in
/-- A change of a frame lets nothing go that waits. -/
theorem poolStore_waits (p : Pool α) (id : Nat) (page : Page α) :
    p.Waits (poolStore id page p) := by
  intro other h
  unfold poolStore
  split
  · exact h
  · exact h.modify fun _ _ hwaits => hwaits

omit [PageBody α] in
/-- A page that is let go as changed waits. -/
theorem poolUnpin_unlogged {p : Pool α} {id i : Nat} {f : Frame α} (hres : p.pageFrame id = some i)
    (hf : p.frames[i]? = some f) (hid : f.pageId = some id) : (poolUnpin id true p).Unlogged id := by
  unfold poolUnpin findFrame
  rw [hres]
  dsimp only
  rw [modify_eq_set_of_getElem? _ hf]
  exact ⟨_, List.mem_of_getElem? (List.getElem?_set_self (lt_of_getElem? hf)), hid,
    by simp [Frame.unlogged, hid]⟩

/-- An allocation lets nothing go, and the new page waits. -/
theorem poolAllocate_waits {p q : Pool α} {id : Nat} (halloc : poolAllocate p = (id, q)) :
    p.Waits q ∧ q.Unlogged id := by
  obtain ⟨r, i, f, hrun, hf, hfree, rfl, rfl⟩ := poolAllocate_cases halloc
  refine ⟨fun other h => ?_, ?_⟩
  · have hr := hrun.waits other h
    exact Pool.Unlogged.place (p := r.taken) hr hf hfree _ _
  · exact ⟨_, List.mem_of_getElem? (List.getElem?_set_self (lt_of_getElem? hf)), rfl, rfl⟩

/-- A page that is freed waits no more; the others do. -/
theorem poolFree_waits {p : Pool α} {m : PageMap α} (h : p.Refines m) {id other : Nat}
    (hne : other ≠ id) (hwaits : p.Unlogged other) : (poolFree id p).Unlogged other := by
  unfold poolFree findFrame
  cases hres : p.pageFrame id with
  | none => exact hwaits
  | some i =>
    refine hwaits.modify fun f hf hwaits => ?_
    obtain ⟨g, hg, hgid⟩ := h.frame_of_resident hres
    obtain rfl : f = g := Option.some.inj (hf.symm.trans hg)
    exact absurd (Option.some.inj (hwaits.1.symm.trans hgid)) hne

end

/-! ### What file and log make of a page -/

/-- A page waits for the log, or is what `laid` says: what file and log make of it. -/
def Pool.KeptBy (p : Pool Bytes) (laid : Nat → Option Bytes) (s : Store Bytes) : Prop :=
  ∀ id b, s.body id = some b → p.Unlogged id ∨ laid id = some b

namespace Pool.KeptBy

variable {p q : Pool Bytes} {laid : Nat → Option Bytes} {s : Store Bytes}

/-- Contents that were kept are kept as long as what waits still does. -/
theorem waits (h : p.KeptBy laid s) (hwaits : p.Waits q) : q.KeptBy laid s := fun id b hb =>
  (h id b hb).imp_left (hwaits id)

/-- A page changes, and waits from then on. -/
theorem update (h : p.KeptBy laid s) (hwaits : p.Waits q) {id : Nat} (hq : q.Unlogged id)
    {s' : Store Bytes} (hs : ∀ other, other ≠ id → s'.body other = s.body other) :
    q.KeptBy laid s' := by
  intro other b hb
  by_cases hne : other = id
  · subst hne
    exact Or.inl hq
  · exact (h other b ((hs other hne).symm.trans hb)).imp_left (hwaits other)

end Pool.KeptBy

/-- A legal page program keeps each page waiting or laid down. -/
theorem Pool.Serves.kept {γ : Type} {x : PageM Bytes γ} {Q : γ → Store Bytes → Prop}
    {p : Pool Bytes} {s : Store Bytes} {laid : Nat → Option Bytes} (h : p.Serves s)
    (hkept : p.KeptBy laid s) (hx : x.wp zeroPage Q s) :
    ∃ s', Q (DatabaseEngine.onPool x p).1 s' ∧ (DatabaseEngine.onPool x p).2.Serves s' ∧
      (DatabaseEngine.onPool x p).2.KeptBy laid s' := by
  induction x generalizing p s with
  | pure a => exact ⟨s, hx, h, hkept⟩
  | alloc next ih =>
    obtain ⟨hid, hserves⟩ := h.alloc
    obtain ⟨hwaits, hnew⟩ := poolAllocate_waits (p := p) (Prod.eta _).symm
    rw [hid] at hnew
    unfold DatabaseEngine.onPool
    rw [hid]
    refine ih _ hserves (hkept.update hwaits hnew fun other hne => ?_) hx
    exact Function.update_of_ne hne _ _
  | read id next ih =>
    obtain ⟨hlegal, hx⟩ := hx
    unfold DatabaseEngine.onPool
    cases hb : s.body id with
    | some b =>
      obtain ⟨i, q, hpin, hpage, hq⟩ := h.read hb
      have hwaits : p.Waits (poolUnpin id false q) := fun other hother =>
        poolUnpin_waits q id false other (poolPin_waits hpin other hother)
      rw [hpin]
      dsimp only
      rw [hpage]
      rw [hb] at hx
      exact ih _ hq (hkept.waits hwaits) hx
    | none =>
      have hout : s.count ≤ id := by simpa [hb] using hlegal
      rw [h.pin_outside hout]
      rw [hb] at hx
      exact ih _ h hkept hx
  | write id body next ih =>
    obtain ⟨hlegal, hx⟩ := hx
    obtain ⟨old, hold⟩ := Option.isSome_iff_exists.mp hlegal
    obtain ⟨i, q, hpin, hres, hpage, hq, hpins⟩ := h.pin hold
    unfold DatabaseEngine.onPool
    rw [hpin]
    dsimp only
    obtain ⟨j, q', hpin', hwritten⟩ := h.write hlegal
      (fun _ => ((q.pageIn i).getD Page.zero).rewrite body) body fun _ => rfl
    rw [hpin] at hpin'
    obtain ⟨-, rfl⟩ := Prod.mk.inj hpin'
    generalize hstored : poolStore id (((q.pageIn i).getD Page.zero).rewrite body) q = r at hwritten
    have hwaits : p.Waits (poolUnpin id true r) := fun other hother =>
      poolUnpin_waits r id true other
        (hstored ▸ poolStore_waits q id _ other (poolPin_waits hpin other hother))
    have hnew : (poolUnpin id true r).Unlogged id := by
      obtain ⟨f, hf, hfid⟩ := hq.refines.frame_of_resident hres
      have hres' : r.pageFrame id = some i := by
        rw [← hstored, poolStore, findFrame, hres]
        exact hres
      have hf' : ∃ g, r.frames[i]? = some g ∧ g.pageId = some id := by
        rw [← hstored, poolStore, findFrame, hres]
        dsimp only
        rw [modify_eq_set_of_getElem? _ hf, List.getElem?_set_self (lt_of_getElem? hf)]
        exact ⟨_, rfl, hfid⟩
      obtain ⟨g, hg, hgid⟩ := hf'
      exact poolUnpin_unlogged hres' hg hgid
    refine ih (hwritten old) (hkept.update hwaits hnew fun other hne => ?_) hx
    exact Function.update_of_ne hne _ _
  | free id next ih =>
    obtain ⟨hlegal, hx⟩ := hx
    refine ih (h.release hlegal) (fun other b hb => ?_) hx
    have hne : other ≠ id := by
      rintro rfl
      have hnone : Function.update s.body other none other = some b := hb
      rw [Function.update_self] at hnone
      exact absurd hnone (by simp)
    refine (hkept other b ?_).imp_left (poolFree_waits h.refines hne)
    rw [← hb]
    exact (Function.update_of_ne hne _ _).symm
  | count next ih =>
    unfold DatabaseEngine.onPool
    rw [h.count]
    exact ih _ h hkept hx

/-! ### A commit that stops in the middle -/

section
variable {α : Type} [PageBody α]

omit [PageBody α] in
/-- What goes into the log waited for it. -/
theorem commitFrames_from (pages : Nat) (root : UInt32) {frames : List (Frame α)}
    {frame : LogFrame α} (h : frame ∈ commitFrames pages root frames) :
    ∃ f ∈ frames, f.waits frame.pageId ∧ frame.page = poolStampPage f.page := by
  induction frames with
  | nil => exact absurd h (by simp [commitFrames])
  | cons f rest ih =>
    unfold commitFrames at h
    split at h
    · rename_i id hunlogged hid
      rcases List.mem_cons.mp h with rfl | hin
      · exact ⟨f, by simp, ⟨hid, hunlogged⟩, rfl⟩
      · obtain ⟨g, hg, hrest⟩ := ih hin
        exact ⟨g, List.mem_cons_of_mem _ hg, hrest⟩
    · obtain ⟨g, hg, hrest⟩ := ih h
      exact ⟨g, List.mem_cons_of_mem _ hg, hrest⟩

omit [PageBody α] in
/-- Stamping leaves a frame at its place, with the bytes it has. -/
theorem stampFirst_frame (n : Nat) (frames : List (Frame α)) (i : Nat) :
    (stampFirst n frames)[i]? = frames[i]? ∨
      (stampFirst n frames)[i]? =
        frames[i]?.map fun f => { f with page := poolStampPage f.page } := by
  induction frames generalizing n i with
  | nil => cases n <;> exact Or.inl rfl
  | cons f rest ih =>
    cases n with
    | zero => exact Or.inl rfl
    | succ n =>
      unfold stampFirst
      cases i with
      | zero =>
        split
        · exact Or.inr rfl
        · exact Or.inl rfl
      | succ i =>
        split
        · exact ih n i
        · exact ih (n + 1) i

end

/-- A commit that stops in the middle leaves the pages as they were. -/
theorem Pool.Serves.appended {p : Pool Bytes} {s : Store Bytes} (h : p.Serves s)
    (log : List (LogFrame Bytes)) (n stamped : Nat) : (p.appended log n stamped).Serves s := by
  have href := h.refines.mapEach (stampFirst stamped p.frames) fun i => by
    rcases stampFirst_frame stamped p.frames i with heq | heq
    · exact ⟨fun f => f, by simpa using heq, fun f => ⟨rfl, rfl, rfl, rfl⟩⟩
    · exact ⟨_, heq, fun f => ⟨rfl, rfl, rfl, rfl⟩⟩
  exact ⟨⟨href.directory, href.sound, href.absent, href.unallocated, href.owedResident,
    href.freeInRange, href.freeNodup⟩, h.count, h.free, h.freeAbsent⟩

/-- Frames written to the log in front of what the log has take nothing off it. -/
theorem appended_waits (p : Pool Bytes) (log : List (LogFrame Bytes)) (n stamped : Nat) :
    p.Waits (p.appended log n stamped) := by
  rintro id ⟨f, hf, hwaits⟩
  obtain ⟨i, hi⟩ := List.mem_iff_getElem?.mp hf
  rcases stampFirst_frame stamped p.frames i with heq | heq
  · exact ⟨f, List.mem_of_getElem? (heq.trans hi), hwaits⟩
  · rw [hi] at heq
    exact ⟨_, List.mem_of_getElem? heq, hwaits⟩

/-! ### File and log together -/

/-- The bytes of a page that lies in a file whole and intact. -/
def DbFile.holds (file : DbFile Bytes) (id : Nat) : Option Bytes :=
  ((file.readPage id).filter Page.intact).map Page.body

/-- A page that is read intact is held. -/
theorem DbFile.holds_of_readPage {file : DbFile Bytes} {id : Nat} {page : Page Bytes}
    (hread : file.readPage id = some page) (hintact : page.intact = true) :
    file.holds id = some page.body := by
  unfold DbFile.holds
  rw [hread, Option.filter_some, if_pos hintact, Option.map_some]

/-- The pages of a file after a replay are those of the last frames. -/
theorem replayFrames_readPage (file : DbFile Bytes) (frames : List (LogFrame Bytes)) (id : Nat) :
    (replayFrames file frames).readPage id =
      (frames.foldl (fun file frame => file.writePage frame.pageId frame.page) file).readPage id := by
  unfold replayFrames
  dsimp only
  split
  · rfl
  · split <;> rfl

/-- Frames of other pages change nothing of a page. -/
theorem replayFrames_holds_off {file : DbFile Bytes} {front back : List (LogFrame Bytes)} {id : Nat}
    {b : Bytes} (h : (replayFrames file front).holds id = some b)
    (hoff : ∀ frame ∈ back, frame.pageId ≠ id) :
    (replayFrames file (front ++ back)).holds id = some b := by
  obtain ⟨page, hpage, hbody⟩ := Option.map_eq_some_iff.mp h
  obtain ⟨hread, hintact⟩ := Option.filter_eq_some_iff.mp hpage
  rw [← hbody]
  refine DbFile.holds_of_readPage ?_ hintact
  rw [replayFrames_readPage] at hread ⊢
  rw [List.foldl_append]
  generalize front.foldl _ file = f at hread ⊢
  induction back generalizing f with
  | nil => exact hread
  | cons frame rest ih =>
    refine ih (fun other hin => hoff other (List.mem_cons_of_mem _ hin)) _ ?_
    exact DbFile.readPage_writePage_of_ne (fun heq => hoff frame (by simp) heq.symm) hread

/-- Where the frames of a page all hold the same, the page holds that. -/
theorem replayFrames_holds_on {file : DbFile Bytes} {front back : List (LogFrame Bytes)} {id : Nat}
    {b : Bytes} (hin : ∃ frame ∈ back, frame.pageId = id)
    (hall : ∀ frame ∈ back, frame.pageId = id → frame.page.intact = true ∧ frame.page.body = b) :
    (replayFrames file (front ++ back)).holds id = some b := by
  induction back using List.reverseRecOn with
  | nil => obtain ⟨frame, hframe, -⟩ := hin; exact absurd hframe (by simp)
  | append_singleton rest last ih =>
    rw [← List.append_assoc]
    by_cases hlast : last.pageId = id
    · obtain ⟨hintact, hbody⟩ := hall last (by simp) hlast
      rw [← hbody]
      refine DbFile.holds_of_readPage ?_ hintact
      rw [replayFrames_readPage, List.foldl_append, List.foldl_cons, List.foldl_nil, hlast,
        DbFile.readPage_writePage_same]
    · obtain ⟨frame, hframe, hid⟩ := hin
      have hrest : frame ∈ rest := by
        rcases List.mem_append.mp hframe with hin | hin
        · exact hin
        · obtain rfl := List.mem_singleton.mp hin
          exact absurd hid hlast
      refine replayFrames_holds_off (ih ⟨frame, hrest, hid⟩ fun frame hframe =>
        hall frame (List.mem_append_left _ hframe)) fun frame hframe => ?_
      obtain rfl := List.mem_singleton.mp hframe
      exact hlast

/-- The frames that a commit appends carry what waits. -/
theorem Pool.Serves.commitFrames_body {p : Pool Bytes} {s : Store Bytes} (h : p.Serves s)
    {frame : LogFrame Bytes} (hframe : frame ∈ commitFrames p.pageCount p.catalogRootPage p.frames)
    {b : Bytes} (hb : s.body frame.pageId = some b) :
    frame.page.intact = true ∧ frame.page.body = b := by
  obtain ⟨f, hf, hwaits, hpage⟩ := commitFrames_from _ _ hframe
  obtain ⟨i, hi⟩ := List.mem_iff_getElem?.mp hf
  rw [hpage]
  exact ⟨rfl, (h.refines.sound i f hi _ hwaits.1).body b hb⟩

/-- A commit that stops in the middle has appended frames of what waits. -/
theorem Pool.KeptBy.appended {p : Pool Bytes} {s : Store Bytes} {file : DbFile Bytes}
    {log : List (LogFrame Bytes)} (h : p.KeptBy (replayFrames file log).holds s)
    (n stamped : Nat) :
    (p.appended log n stamped).KeptBy (replayFrames file (log ++
      (commitFrames p.pageCount p.catalogRootPage p.frames).take n)).holds s := by
  intro id b hb
  by_cases hwaits : p.Unlogged id
  · exact Or.inl (appended_waits p log n stamped id hwaits)
  · refine Or.inr (replayFrames_holds_off ((h id b hb).resolve_left hwaits) fun frame hframe heq => ?_)
    obtain ⟨f, hf, hfwaits, -⟩ := commitFrames_from _ _ (List.mem_of_mem_take hframe)
    exact hwaits ⟨f, hf, heq ▸ hfwaits⟩

/-- After a commit that succeeds file and log show every page. -/
theorem poolCommit_shows {p : Pool Bytes} {s : Store Bytes} {file : DbFile Bytes}
    {log : List (LogFrame Bytes)} (h : p.Serves s)
    (hkept : p.KeptBy (replayFrames file log).holds s) {id : Nat} {b : Bytes}
    (hb : s.body id = some b) :
    (replayFrames file (log ++ commitFrames p.pageCount p.catalogRootPage p.frames)).holds id
      = some b := by
  by_cases hwaits : p.Unlogged id
  · obtain ⟨f, hf, hid, hunlogged⟩ := hwaits
    refine replayFrames_holds_on (commitFrames_mem _ _ hf hunlogged hid) fun frame hframe heq => ?_
    subst heq
    exact h.commitFrames_body hframe hb
  · refine replayFrames_holds_off ((hkept id b hb).resolve_left hwaits) fun frame hframe heq => ?_
    obtain ⟨f, hf, hfwaits, -⟩ := commitFrames_from _ _ hframe
    exact hwaits ⟨f, hf, heq ▸ hfwaits⟩

end DatabaseEngine
