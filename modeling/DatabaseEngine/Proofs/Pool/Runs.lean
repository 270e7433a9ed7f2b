import DatabaseEngine.Proofs.Pool.Refinement

/-!
# `DatabaseEngine.Proofs.Pool.Runs`: the pool over a whole run

A run of the pool is a list of the calls its clients make (`PoolOp`), with the frame
evictions inside them. The map of contents runs beside the pool (`PoolOp.next`).

* `PoolOp.keeps`: one call, met as `PoolOp.Meets` says, keeps `Pool.Refines`.
* `pool_refines_map`: along every such run from a freshly opened file a page is resident in
  at most one frame, `pageFrame` is that frame, and a pin answers the last contents.
* `pool_page_resident_twice`: a run of four calls after which a page is resident twice. The
  page is freed, `poolWriteAll` faults it in, and the allocation hands it out again.
-/

set_option autoImplicit false

namespace DatabaseEngine

open Library

variable {α : Type} [PageBody α]

/-- The calls the pool's clients make. `store` is a write through the pointer of a pin. -/
inductive PoolOp (α : Type)
  | allocate
  | pin (id : Nat)
  | store (id : Nat) (page : Page α)
  | unpin (id : Nat) (dirty : Bool)
  | free (id : Nat)
  | commit
  | checkpoint
  | writeAll

namespace PoolOp

/-- The pool after a call. -/
def apply (p : Pool α) : PoolOp α → Pool α
  | allocate => (poolAllocate p).2
  | pin id => (poolPin id p).2
  | store id page => poolStore id page p
  | unpin id dirty => poolUnpin id dirty p
  | free id => poolFree id p
  | commit => poolCommit p
  | checkpoint => poolCheckpoint p
  | writeAll => (poolWriteAll p).2

/-- What the client expects of the pool after a call. -/
def next (p : Pool α) (m : PageMap α) : PoolOp α → PageMap α
  | allocate => (m.setBody (poolAllocate p).1 (some PageBody.zero)).setOwed (poolAllocate p).1 false
  | store id page => (m.setBody id (some page.body)).setOwed id true
  | unpin id true => m.setOwed id false
  | free id => (m.setBody id none).setOwed id false
  | _ => m

/-- The pool and the expectation, one call on. -/
def step (s : Pool α × PageMap α) (op : PoolOp α) : Pool α × PageMap α :=
  (op.apply s.1, op.next s.1 s.2)

/-- What keeps the pool and the expectation together. An allocation needs the id on top of
the free list to be resident nowhere. The rest is what a client owes the pool: it stores
under a pin, frees and dirties allocated pages, and the last unpin of a page it changed says
so. -/
def Meets (s : Pool α × PageMap α) : PoolOp α → Prop
  | allocate => ∀ top ∈ s.1.freeIds.head?, s.1.pageFrame top = none
  | store id _ => s.1.Allocated id ∧ 0 < s.1.pinsOf id
  | unpin id true => s.1.Allocated id
  | unpin id false => s.2.owed id = true → 2 ≤ s.1.pinsOf id
  | free id => s.1.Allocated id
  | _ => True

instance (s : Pool α × PageMap α) : ∀ op : PoolOp α, Decidable (op.Meets s)
  | allocate => inferInstanceAs (Decidable (∀ top ∈ s.1.freeIds.head?, s.1.pageFrame top = none))
  | store id _ => inferInstanceAs (Decidable (s.1.Allocated id ∧ 0 < s.1.pinsOf id))
  | unpin id true => inferInstanceAs (Decidable (s.1.Allocated id))
  | unpin id false =>
    inferInstanceAs (Decidable (s.2.owed id = true → 2 ≤ s.1.pinsOf id))
  | free id => inferInstanceAs (Decidable (s.1.Allocated id))
  | pin _ | commit | checkpoint | writeAll => isTrue trivial

/-- One call keeps the pool and the expectation together. -/
theorem keeps (s : Pool α × PageMap α) (op : PoolOp α) (h : s.1.Refines s.2)
    (hmeets : op.Meets s) : (op.step s).1.Refines (op.step s).2 := by
  obtain ⟨p, m⟩ := s
  cases op with
  | allocate =>
    rcases halloc : poolAllocate p with ⟨id, q⟩
    have := (h.allocate halloc hmeets).1
    simpa [step, apply, next, halloc] using this
  | pin id =>
    rcases hpin : poolPin id p with ⟨answer, q⟩
    have := (h.pin hpin).1
    simpa [step, apply, next, hpin] using this
  | store id page => exact h.store hmeets.1 hmeets.2
  | unpin id dirty =>
    cases dirty with
    | true => exact h.unpinDirty hmeets
    | false => exact h.unpinClean hmeets
  | free id => exact h.free hmeets
  | commit => exact h.commit
  | checkpoint => exact h.checkpoint
  | writeAll => exact h.writeAll

end PoolOp

/-- A pool that was just given a file: no page is in memory, and no page was freed. -/
def openPool (p : Pool α) (inode pages : Nat) (writable : Bool) : Pool α :=
  if writable then poolSetWritable inode pages (poolInit p)
  else poolAdopt inode pages (poolInit p)

/-- The contents of a freshly opened pool are those of the file's pages. -/
def fileContents (p : Pool α) : PageMap α where
  body id := if id < p.pageCount then p.supplies id else none
  owed _ := false

/-- A pool that was opened on a file holds what the file does. -/
theorem openPool_refines (p : Pool α) (inode pages : Nat) (writable : Bool) :
    (openPool p inode pages writable).Refines
      (fileContents (openPool p inode pages writable)) := by
  have hframes : (openPool p inode pages writable).frames = [] := by
    unfold openPool; split <;> rfl
  have hdir : (openPool p inode pages writable).pageFrame = fun _ => none := by
    unfold openPool; split <;> rfl
  have hids : (openPool p inode pages writable).freeIds = [] := by
    unfold openPool; split <;> rfl
  constructor
  case directory => simp [hframes, hdir]
  case sound => simp [hframes]
  case absent =>
    intro id b _ hb
    simp only [fileContents] at hb
    split at hb
    · exact hb
    · exact absurd hb (by simp)
  case unallocated =>
    intro id hid
    have hrange : ¬id < (openPool p inode pages writable).pageCount := by
      simpa [Pool.Allocated, hids] using hid
    simp [fileContents, hrange]
  case owedResident => simp [fileContents]
  case freeInRange => simp [hids]
  case freeNodup => simp [hids]

/-- What the pool promises of residency and of the contents it hands out. -/
structure Pool.MapsTo (p : Pool α) (m : PageMap α) : Prop where
  once : ∀ (i j : Nat) f g id, p.frames[i]? = some f → p.frames[j]? = some g →
    f.pageId = some id → g.pageId = some id → i = j
  directory : ∀ id i, p.pageFrame id = some i ↔ ∃ f, p.frames[i]? = some f ∧ f.pageId = some id
  contents : ∀ id b, p.Allocated id → m.body id = some b →
    ∃ i, (poolPin id p).1 = some i ∧ ((poolPin id p).2.pageIn i).map Page.body = some b

/-- A pool that refines a map is one. -/
theorem Pool.Refines.mapsTo {p : Pool α} {m : PageMap α} (h : p.Refines m) : p.MapsTo m where
  once _ _ _ _ _ hf hg hfid hgid := h.frame_unique hf hfid hg hgid
  directory := h.directory
  contents id b _ hb := (h.pin (q := (poolPin id p).2) rfl).2.2 b hb

/-- A run whose calls all meet their condition refines the plain map, in every state it goes
through: one frame a page, the directory is that frame, and a pin of an allocated page
answers the last contents written to it, or those the file was opened with. -/
theorem pool_refines_map (p : Pool α) (inode pages : Nat) (writable : Bool)
    (calls : List (PoolOp α))
    (hmeet : StepsMeet PoolOp.step (fun s op => op.Meets s)
      (openPool p inode pages writable, fileContents (openPool p inode pages writable)) calls)
    (front back : List (PoolOp α)) (hsplit : calls = front ++ back) :
    let s := run PoolOp.step
      (openPool p inode pages writable, fileContents (openPool p inode pages writable)) front
    s.1.MapsTo s.2 :=
  (StepsMeet.always (fun s : Pool α × PageMap α => s.1.Refines s.2) PoolOp.keeps
    (openPool_refines p inode pages writable) hmeet hsplit).mapsTo

/-- The machine before the pool opens anything: file 0 holds one blank page. -/
def onePageMachine : Pool Bytes where
  frames := []
  hand := 0
  pageFrame _ := none
  pageFile := none
  files _ := { head := [], count := 1, page := fun _ => Page.zero, tail := none }
  writable := false
  catalogRootPage := 0xFFFFFFFF
  pageCount := 0
  freeIds := []
  checksums := true
  corrupt := 0
  wal := some []
  io := []

/-- A page is allocated, filled, committed and checkpointed, and the first page is freed. -/
theorem pool_refines_map_one_page :
    let calls : List (PoolOp Bytes) :=
      [.allocate, .pin 1, .store 1 Page.zero, .unpin 1 true, .commit, .checkpoint, .free 0]
    let start := openPool onePageMachine 0 1 true
    let s := run PoolOp.step (start, fileContents start) calls
    s.1.MapsTo s.2 :=
  pool_refines_map onePageMachine 0 1 true
    [.allocate, .pin 1, .store 1 Page.zero, .unpin 1 true, .commit, .checkpoint, .free 0]
    (by decide) _ [] (List.append_nil _).symm

/-- The pool after a page was read, freed, faulted in again by `poolWriteAll`, and its id
handed out once more. -/
def refaulted : Pool Bytes × PageMap Bytes :=
  let start := openPool onePageMachine 0 1 true
  run PoolOp.step (start, fileContents start)
    [.pin 0, .unpin 0 false, .free 0, .writeAll, .allocate]

/-- The page is then resident in two frames. -/
theorem pool_page_resident_twice : ¬refaulted.1.MapsTo refaulted.2 := by
  intro h
  have hids : (refaulted.1.frames.map Frame.pageId)[0]? = some (some 0) ∧
      (refaulted.1.frames.map Frame.pageId)[1]? = some (some 0) := by decide +kernel
  simp only [List.getElem?_map, Option.map_eq_some_iff] at hids
  obtain ⟨⟨f, hf, hfid⟩, g, hg, hgid⟩ := hids
  exact absurd (h.once 0 1 f g 0 hf hg hfid hgid) (by decide)

end DatabaseEngine
