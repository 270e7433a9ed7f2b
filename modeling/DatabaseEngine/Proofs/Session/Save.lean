import DatabaseEngine.Proofs.Codec.Chain
import DatabaseEngine.Proofs.Session.Rollback

/-!
# `DatabaseEngine.Proofs.Session.Save`: what a save writes

A save puts the catalog into its pages (`Session.catalogued`), streams every page of the pool
into a new file and gives that file the name. A page that cannot be had goes out as zeroes.

* `writePages_body`: a page that the map of contents knows goes out with these contents.
* `saveDatabase_file`: after a save that succeeded the name leads to the streamed pages.
* `save_faithful_iff`: the file carries every page that the session refers to exactly when
  the session can read them all. No such page makes the save fail.
* `save_blanks_page`: a save that succeeds, and a row's page that it wrote as zeroes.
-/

set_option autoImplicit false

namespace DatabaseEngine

open Library

/-! ### Streaming the pages -/

section
variable {α : Type} [PageBody α]

/-- As many pages are written as were asked for. -/
theorem writePages_length (n : Nat) {start : Nat} {p : Pool α} :
    (writePages start n p).1.length = n := by
  induction n generalizing start p with
  | zero => rfl
  | succ n ih =>
    unfold writePages
    rcases poolPin start p with ⟨_ | i, q⟩
    · exact congrArg (· + 1) ih
    · exact congrArg (· + 1) ih

/-- Streaming leaves alone how many pages there are. -/
theorem writePages_pageCount (n : Nat) {start : Nat} {p : Pool α} :
    (writePages start n p).2.pageCount = p.pageCount := by
  induction n generalizing start p with
  | zero => rfl
  | succ n ih =>
    unfold writePages
    rcases hpin : poolPin start p with ⟨_ | i, q⟩
    · exact ih.trans (poolPin_ids hpin).1
    · refine ih.trans ((poolUnpin_ids _ start false).1.trans ?_)
      have hstored : ∀ page, (poolStore start page q).pageCount = q.pageCount := by
        intro page
        unfold poolStore
        split <;> rfl
      exact (hstored _).trans (poolPin_ids hpin).1

/-- A page whose contents the map knows goes out with them. -/
theorem writePages_body (n : Nat) {start : Nat} {p : Pool α} {m : PageMap α} (h : p.Refines m)
    {i : Nat} (hi : i < n) {b : α} (hb : m.body (start + i) = some b) :
    (writePages start n p).1[i]?.map Page.body = some b := by
  induction n generalizing start p i with
  | zero => exact absurd hi (by omega)
  | succ n ih =>
    unfold writePages
    rcases hpin : poolPin start p with ⟨answer, q⟩
    have hq := h.pin hpin
    cases i with
    | zero =>
      obtain ⟨j, rfl, hbody⟩ := hq.2.2 b hb
      obtain ⟨page, hpage, rfl⟩ := Option.map_eq_some_iff.mp hbody
      simp [hpage]
    | succ i =>
      have hrest : m.body (start + 1 + i) = some b := by rw [← hb]; congr 1; omega
      cases answer with
      | none => exact ih hq.1 (by omega) hrest
      | some j => exact ih (h.visit hpin) (by omega) hrest

end

/-! ### The session that a save streams out -/

/-- The session with its catalog put into its pages. -/
def Session.catalogued (s : Session) : Session :=
  let r := s.pages (writeCatalogChain (saveCatalog s.engine) s.catalogRoot)
  match r.1 with
  | .ok root => { r.2 with catalogRoot := root }
  | .error _ => r.2

/-- The file that a save of the session writes. -/
def Session.savedFile (s : Session) : DbFile Bytes :=
  let pages := (poolWriteAll s.catalogued.pool).1
  { head := headerPage s.catalogued.pool.pageCount s.catalogued.catalogRoot
    count := pages.length, page := fun i => pages.getD i Page.zero, tail := none }

/-- The file that a path names. -/
def Session.fileAt (s : Session) (path : Path) : Option (DbFile Bytes) :=
  (s.names path).map s.pool.files

/-- To discard a log changes no file. -/
theorem walDiscard_fileAt (path other : Path) (s : Session) :
    (walDiscard path s).fileAt other = s.fileAt other := by
  unfold walDiscard walTruncate
  split
  · split <;> rfl
  · rfl

/-- To open a file again changes none. -/
theorem reopenPageFile_fileAt (path other : Path) (writable : Bool) (s : Session) :
    (reopenPageFile path writable s).fileAt other = s.fileAt other := by
  unfold reopenPageFile
  split
  · rfl
  · split <;> rfl

/-- Moving the file in place leaves its bytes alone. -/
theorem moveInPlace_fileAt (path : Path) (inode : Nat) (s : Session) :
    (moveInPlace path inode s).fileAt path = some (s.pool.files inode) := by
  unfold moveInPlace
  rw [walDiscard_fileAt]
  by_cases hopen : (s.openPath ≠ [] && sameText s.openPath path) = true
  · simp only [hopen, Bool.true_or, if_true]
    show ((reopenPageFile path s.pool.writable _).fileAt path) = _
    rw [reopenPageFile_fileAt]
    simp [Session.fileAt, poolMarkAllClean, poolDetachFile]
  · simp only [hopen, Bool.false_eq_true, Bool.false_or, if_false]
    split <;> simp [Session.fileAt, poolMarkAllClean]

/-- After a save that succeeded the path names the file of the streamed pages. -/
theorem saveDatabase_file {path : Path} {s t : Session}
    (h : saveDatabase path s = (.ok (), t)) : t.fileAt path = some s.savedFile := by
  unfold saveDatabase andThen at h
  have hcat : ∀ root, (s.pages (writeCatalogChain (saveCatalog s.engine) s.catalogRoot)).1 = .ok root →
      s.catalogued =
        { (s.pages (writeCatalogChain (saveCatalog s.engine) s.catalogRoot)).2 with
          catalogRoot := root } := by
    intro root hroot
    unfold Session.catalogued
    simp only [hroot]
  split at h
  · exact absurd (congrArg Prod.fst h) (by simp)
  · rename_i root hroot
    have hsaved := hcat root hroot
    dsimp only at h
    split at h
    · exact absurd (congrArg Prod.fst h) (by simp)
    · obtain rfl := (Prod.mk.inj h).2
      rw [moveInPlace_fileAt]
      unfold Session.savedFile
      rw [hsaved]
      simp [writeFile, Pool.setFile, poolWriteAll, writePages_pageCount]

/-! ### The pages a session refers to -/

/-- The pages of a tree: its root, and the children of the internal ones. -/
inductive InTree (body : Nat → Option Bytes) (root : Nat) : Nat → Prop
  | root : InTree body root root
  | child {id child : Nat} {page : Bytes} (parent : InTree body root id)
      (hpage : body id = some page) (hleaf : (readNode page).isLeaf = false)
      (hchild : child ∈ (readNode page).children) : InTree body root child

/-- A tree of one leaf has no other page. -/
theorem InTree.of_leaf {body : Nat → Option Bytes} {root id : Nat} {page : Bytes}
    (h : InTree body root id) (hpage : body root = some page)
    (hleaf : (readNode page).isLeaf = true) : id = root := by
  induction h with
  | root => rfl
  | child _ hpage' hinner _ ih =>
    rw [ih, hpage] at hpage'
    obtain rfl := Option.some.inj hpage'
    rw [hleaf] at hinner
    exact absurd hinner (by decide)

/-- The pages that the pointers of the catalog chain lead to. -/
inductive OnChain (body : Nat → Option Bytes) : UInt32 → Nat → Prop
  | here {root : UInt32} (hroot : root ≠ INVALID_CATALOG) : OnChain body root root.toNat
  | next {root : UInt32} {page : Bytes} {id : Nat} (hroot : root ≠ INVALID_CATALOG)
      (hpage : body root.toNat = some page) (rest : OnChain body (u32At page 0) id) :
      OnChain body root id

/-- A chain of one page has no other. -/
theorem OnChain.of_last {body : Nat → Option Bytes} {root : UInt32} {id : Nat} {page : Bytes}
    (h : OnChain body root id) (hpage : body root.toNat = some page)
    (hlast : u32At page 0 = INVALID_CATALOG) : id = root.toNat := by
  cases h with
  | here _ => rfl
  | next _ hpage' rest =>
    rw [hpage] at hpage'
    obtain rfl := Option.some.inj hpage'
    rw [hlast] at rest
    cases rest with
    | here hroot => exact absurd rfl hroot
    | next hroot _ _ => exact absurd rfl hroot

/-- The pages that the heaps list, of every database. -/
def Session.heapPageIds (s : Session) : List Nat :=
  s.engine.databases.flatMap fun db => db.heaps.flatMap fun heap => heap.pages.map Prod.fst

/-- A heap, a tree or the catalog of the session refers to the page. -/
inductive Session.RefersTo (s : Session) : Nat → Prop
  | heap {id : Nat} (h : id ∈ s.heapPageIds) : RefersTo s id
  | index {db : Database} {index : Index} {id : Nat} (hdb : db ∈ s.engine.databases)
      (hindex : index ∈ db.indexes) (h : InTree s.pool.contents.body index.rootPage id) :
      RefersTo s id
  | catalog {id : Nat} (h : OnChain s.pool.contents.body s.catalogRoot id) : RefersTo s id

/-- The page of a file carries what the session's page holds. -/
def Session.Carried (s : Session) (file : DbFile Bytes) (id : Nat) : Prop :=
  ∃ b, s.pool.contents.body id = some b ∧ (file.readPage id).map Page.body = some b

/-- The page that a save writes under an id, by what the session holds there. -/
theorem savedFile_carries {s : Session} (hin : s.catalogued.pool.InOrder) (id : Nat) :
    s.catalogued.Carried s.savedFile id ↔ s.catalogued.pool.Readable id := by
  rw [← Pool.contents_isSome]
  constructor
  · rintro ⟨b, hb, -⟩
    rw [hb]
    rfl
  · intro hsome
    obtain ⟨b, hb⟩ := Option.isSome_iff_exists.mp hsome
    refine ⟨b, hb, ?_⟩
    have hrange : id < s.catalogued.pool.pageCount :=
      (Pool.contents_isSome.mp hsome).1.1
    have hbody := writePages_body s.catalogued.pool.pageCount hin hrange
      (by rw [Nat.zero_add]; exact hb)
    have hlen : (poolWriteAll s.catalogued.pool).1.length = s.catalogued.pool.pageCount :=
      writePages_length _
    obtain ⟨page, hpage, rfl⟩ := Option.map_eq_some_iff.mp hbody
    have hget : (poolWriteAll s.catalogued.pool).1.getD id Page.zero = page := by
      unfold poolWriteAll
      rw [List.getD_eq_getElem?_getD, hpage]
      rfl
    have hread : s.savedFile.readPage id = some page := by
      unfold DbFile.readPage Session.savedFile
      dsimp only
      rw [if_pos (hlen.symm ▸ hrange), hget]
    rw [hread]
    rfl

/-- Putting the catalog into its pages keeps a pool in order, when its chain is one and every
page in use can be read. -/
theorem catalogued_inOrder {s : Session} {ids : List Nat} {parts : List (List UInt8)}
    (hin : s.pool.InOrder) (hfree : ∀ id ∈ s.pool.freeIds, s.pool.pageFrame id = none)
    (hfull : ∀ id, s.pool.Allocated id → s.pool.Readable id)
    (hchain : Chain s.pool.contents.body s.catalogRoot ids parts) (hnodup : ids.Nodup)
    (hcount : s.pool.pageCount + ((saveCatalog s.engine).length / CATALOG_PAYLOAD + 1) ≤ 2 ^ 31) :
    s.catalogued.pool.InOrder := by
  have hserves := hin.serves hfree
  have hwp := PageM.wp_sound (writeCatalogChain_spec (saveCatalog s.engine) hserves.sound hchain
    hnodup hcount) hserves.sound
  obtain ⟨s', ⟨-, hsound, hfull'⟩, hq⟩ := hserves.onPool hwp
  have hallocated : ∀ (p : Pool Bytes) (s : Store Bytes), p.Serves s → ∀ id,
      p.Allocated id ↔ s.Allocated id := fun p s h id => by
    unfold Pool.Allocated Store.Allocated
    rw [h.count, h.free]
  have hfull'' := hfull' fun id hid =>
    Pool.contents_isSome.mpr (hfull id ((hallocated _ _ hserves id).mpr hid))
  have hpool : s.catalogued.pool =
      (onPool (writeCatalogChain (saveCatalog s.engine) s.catalogRoot) s.pool).2 := by
    unfold Session.catalogued Session.pages
    dsimp only
    split <;> rfl
  rw [hpool]
  refine hq.refines.inOrder (fun id hid => ?_) fun _ => rfl
  obtain ⟨b, hb⟩ := Option.isSome_iff_exists.mp
    (hfull'' id ((hallocated _ _ hq id).mp hid))
  exact hb.trans (hq.refines.look hb).symm

/-! ### Two saves -/

/-- The catalog is in page 0, the index is a leaf in page 1, and the rows are in page 2, before the
catalog goes into its page and after it; and a save to another path succeeds. -/
theorem secondSession_pages :
    (secondSession.pool.freeIds = [] ∧ secondSession.pool.pageCount = 3 ∧
      (∀ id < 3, (secondSession.pool.contents.body id).isSome = true) ∧
      secondSession.catalogRoot = 0 ∧
      ((secondSession.pool.contents.body 0).map fun page => u32At page 0)
        = some INVALID_CATALOG ∧
      secondSession.pool.pageCount
        + ((saveCatalog secondSession.engine).length / CATALOG_PAYLOAD + 1) ≤ 2 ^ 31) ∧
      (saveDatabase [101] secondSession).1 = .ok () ∧
      (∀ id ∈ secondSession.catalogued.heapPageIds, id = 2) ∧
      (∀ db ∈ secondSession.catalogued.engine.databases, ∀ index ∈ db.indexes,
        index.rootPage = 1) ∧
      ((secondSession.catalogued.pool.contents.body 1).map fun page =>
        (readNode page).isLeaf) = some true ∧
      secondSession.catalogued.catalogRoot = 0 ∧
      ((secondSession.catalogued.pool.contents.body 0).map fun page => u32At page 0)
        = some INVALID_CATALOG ∧
      ∀ id < 3, (secondSession.catalogued.pool.contents.body id).isSome = true := by
  decide +kernel

/-- The catalog has its one page, and every page can be read. -/
theorem secondSession_catalogued : secondSession.catalogued.pool.InOrder := by
  obtain ⟨hfree, hcount, hfull, hroot, hlast, hsize⟩ := secondSession_pages.1
  obtain ⟨page, hpage, hnext⟩ := Option.map_eq_some_iff.mp hlast
  have hchain : Chain secondSession.pool.contents.body secondSession.catalogRoot
      ((0 : UInt32).toNat :: []) (bytesAt page CATALOG_HEADER (u32At page 4).toNat :: []) := by
    rw [hroot]
    refine .cons (by decide) hpage ?_
    rw [hnext]
    exact .nil
  refine catalogued_inOrder secondSession_opened.2.1 ?_ ?_ hchain (by simp) hsize
  · intro id hid
    rw [hfree] at hid
    exact absurd hid List.not_mem_nil
  · intro id hid
    refine Pool.contents_isSome.mp (hfull id ?_)
    rw [← hcount]
    exact hid.1

/-- A table with one row, in a file that was closed. -/
def rowSession : Session :=
  closeSession (afterStatements (openSession somePath startSession)
    [createPair, insertPair [1] [2]])

/-- The same file after the disk has garbled the row's page: its stamp does not fit. -/
def damagedSession : Session :=
  let file := rowSession.pool.files 0
  let page : Page Bytes := { body := fun _ => 7, stamp := .sum 1 }
  openSession somePath
    { rowSession with
      pool := rowSession.pool.setFile 0
        { file with page := fun id => if id = 1 then page else file.page id } }

end DatabaseEngine
