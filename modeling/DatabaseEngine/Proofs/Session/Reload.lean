import DatabaseEngine.Proofs.Codec.Offline
import DatabaseEngine.Proofs.Pool.Clean

/-!
# `DatabaseEngine.Proofs.Session.Reload`: loading a file of the current version

A load of a current file reads the header, opens the pool on the pages, reads the chain of
catalog pages and builds the catalog from its bytes.

* `readHeader_writeFields`: the header that a checkpoint leaves is accepted, with the page
  count and the root the checkpoint wrote.
* `readCatalogChain_readOnly`: reading the chain only looks.
* `storedCatalog`: the catalog that a chain of pages describes.
* `loadPages_stored`, `loadPages_refused`: a load ends with that catalog, or fails when there
  is none.
* `loadPages_opened`: and with the log attached the pool shows what the file holds.
* `LoadKeeps.loadPages`: what the few steps of a load keep, a load of any version keeps.
-/

set_option autoImplicit false

namespace DatabaseEngine

open Library

/-! ### The header -/

/-- A header page of this build. -/
def CurrentHead (head : List UInt8) : Prop :=
  24 ≤ head.length ∧ head.take 12 = SAVE_MAGIC ++ putU32 SAVE_VERSION

instance (head : List UInt8) : Decidable (CurrentHead head) :=
  inferInstanceAs (Decidable (_ ∧ _))

/-- The fields of the header page lie behind the magic and the version. -/
theorem overwrite_head {head fields : List UInt8} (h : CurrentHead head)
    (hfields : fields.length = 8) :
    overwrite head 12 fields = SAVE_MAGIC ++ putU32 SAVE_VERSION ++ fields ++ head.drop 20 := by
  have hgap : 12 - head.length = 0 := by have := h.1; omega
  simp [overwrite, h.2, hgap, hfields]

/-- To write its fields keeps the head of a file of this version. -/
theorem currentHead_overwrite {head fields : List UInt8} (h : CurrentHead head)
    (hfields : fields.length = 8) : CurrentHead (overwrite head 12 fields) := by
  have hlong := h.1
  rw [overwrite_head h hfields]
  constructor
  · simp only [List.length_append, List.length_drop, hfields]
    have : SAVE_MAGIC.length = 8 := rfl
    have : (putU32 SAVE_VERSION).length = 4 := rfl
    omega
  · rw [List.append_assoc, List.take_append_of_le_length (by decide)]
    rfl

/-- The fields written twice are the fields written once. -/
theorem overwrite_again {head fields : List UInt8} (h : CurrentHead head)
    (hfields : fields.length = 8) :
    overwrite (overwrite head 12 fields) 12 fields = overwrite head 12 fields := by
  rw [overwrite_head (currentHead_overwrite h hfields) hfields, overwrite_head h hfields]
  congr 1
  rw [List.drop_append_of_le_length (by simp [hfields, SAVE_MAGIC, putU32])]
  simp [List.drop_eq_nil_of_le, hfields, SAVE_MAGIC, putU32]

/-- The header a checkpoint leaves. -/
theorem readHeader_writeFields {head : List UInt8} {pages : Nat} {root : UInt32}
    (h : CurrentHead head) (hpages : pages < 2 ^ 32) :
    readHeader (overwrite head 12 (le32 (UInt32.ofNat pages) ++ le32 root)) =
      .ok { version := SAVE_VERSION, pageTotal := pages, catalog := root } := by
  have hcurrent := @currentHead_overwrite _ (le32 (UInt32.ofNat pages) ++ le32 root) h rfl
  have heq := @overwrite_head _ (le32 (UInt32.ofNat pages) ++ le32 root) h rfl
  generalize overwrite head 12 (le32 (UInt32.ofNat pages) ++ le32 root) = head' at hcurrent heq
  have hmagic : head'.take MAGIC_LENGTH = SAVE_MAGIC := by
    have := congrArg (List.take 8) hcurrent.2
    rw [List.take_take] at this
    exact this
  have hversion : u32At (fun i => head'.getD i 0) 8 = UInt32.ofNat SAVE_VERSION := by
    rw [heq]
    rfl
  have hcount : u32At (fun i => head'.getD i 0) 12 = UInt32.ofNat pages := by
    rw [heq]
    exact ofLe32_le32 _
  have hroot : u32At (fun i => head'.getD i 0) 16 = root := by
    rw [heq]
    exact ofLe32_le32 root
  have hlong : ¬(head'.length < 24 ∨ head'.take MAGIC_LENGTH ≠ SAVE_MAGIC) := by
    rw [hmagic]
    have := hcurrent.1
    simp
    omega
  unfold readHeader
  rw [if_neg hlong]
  simp only [hversion, hcount, hroot]
  have hnat : (UInt32.ofNat pages).toNat = pages := by
    rw [UInt32.toNat_ofNat']
    exact Nat.mod_eq_of_lt hpages
  rw [hnat]
  rfl

/-! ### The chain -/

/-- To read the chain writes nothing. -/
theorem readCatalogChain_readOnly (memory : Nat) (fuel : Nat) (page : UInt32) (out : List UInt8) :
    (readCatalogChain memory fuel page out).ReadOnly := by
  induction fuel generalizing page out with
  | zero => trivial
  | succ fuel ih =>
    unfold readCatalogChain
    split
    · trivial
    · intro body
      cases body with
      | none => trivial
      | some pinned =>
        show PageM.ReadOnly (if _ then _ else if _ then _ else _)
        split
        · trivial
        · split
          · trivial
          · exact ih _ _

/-- A pool that was just opened on the pages of a file. -/
def openedPool (inode pages : Nat) (p : Pool Bytes) : Pool Bytes :=
  poolSetChecksums true (poolAdopt inode pages (poolInit (poolClear p)))

/-- Nothing is resident in it. -/
theorem openedPool_mirrors (inode pages : Nat) (p : Pool Bytes) (S : Nat → Prop) :
    (openedPool inode pages p).Mirrors S :=
  ⟨fun _ _ h => absurd h (by simp [openedPool, poolSetChecksums, poolAdopt, poolInit]),
    fun _ _ h => absurd h (by simp [openedPool, poolSetChecksums, poolAdopt, poolInit]),
    fun _ _ _ _ h => absurd h (by simp [openedPool, poolSetChecksums, poolAdopt, poolInit])⟩

/-- The catalog that the chain at `root` describes, none when it cannot be read. -/
def storedCatalog (memory : Nat) (root : UInt32) (p : Pool Bytes) : Option Engine :=
  match (onPool (readCatalogChain memory (p.pageCount + 1) root []) p).1 with
  | .ok blob => catalogOf blob
  | .error _ => none

/-! ### The load -/

/-- An engine that is initialised is like a fresh one. -/
theorem initEngine_alike (e : Engine) : (initEngine e).Alike freshEngine := ⟨rfl, rfl⟩

/-- A step of the load that asks for no page leaves everything but the catalog alone. -/
theorem loadStep_offline {α : Type} {x : Step Loading α} (hx : Offline x) {s : Session}
    {blob : List UInt8} {l : Loading}
    (hlike : ({ reader := blob, engine := s.engine } : Loading).Alike l) :
    ∃ (r : Except ErrorCode α) (m m' : Loading), x l = .pure (r, m') ∧ m.Alike m' ∧
      s.loadStep x blob = (r, m.reader, { s with engine := m.engine }) := by
  obtain ⟨r, m, m', hm, hm', hsame⟩ := hx _ _ hlike
  refine ⟨r, m, m', hm', hsame, ?_⟩
  simp only [Session.loadStep, hm, onPool]

/-- The bytes of a catalog, loaded into an engine that was just set up. -/
theorem loadFrom_current {path : Path} {pages : Nat} {root : UInt32} {blob : List UInt8}
    {s : Session} (hfresh : s.engine.Alike freshEngine) :
    let r := loadFrom path { version := SAVE_VERSION, pageTotal := pages, catalog := root } blob s
    (∀ e, catalogOf blob = some e → ∃ e' : Engine, e'.Alike e ∧
      r = (.ok (), { s with
        engine := e'
        openPath := path
        catalogRoot := root
        pool := poolSetCatalogRoot root s.pool })) ∧
    (catalogOf blob = none → ∃ code s', r = (.error code, s')) := by
  intro r
  obtain ⟨names, m, m', hnames, hsame, hstep⟩ :=
    loadStep_offline loadNames_offline (s := s)
      (l := { reader := blob, engine := freshEngine }) ⟨rfl, hfresh⟩
  have hr : r = loadFrom path { version := SAVE_VERSION, pageTotal := pages, catalog := root }
      blob s := rfl
  unfold loadFrom at hr
  simp only [hstep] at hr
  unfold catalogOf
  rw [hnames]
  rcases names with code | ⟨current, total⟩
  · exact ⟨fun e he => by simp [settled] at he, fun _ => ⟨code, _, hr⟩⟩
  · obtain ⟨body, k, k', hbody, hsame', hstep'⟩ :=
      loadStep_offline (loadBody_offline total) (s := { s with engine := m.engine }) (l := m') ⟨hsame.1, hsame.2⟩
    simp only [hstep'] at hr
    simp only [settled, hbody]
    have hold : ¬SAVE_VERSION < CHECKSUM_VERSION := by decide
    rw [if_pos (by decide), if_pos (by decide)] at hr
    rcases body with code | ⟨⟩
    · exact ⟨fun e he => by simp at he, fun _ => ⟨code, _, hr⟩⟩
    · simp only [if_neg hold] at hr
      refine ⟨fun e he => ⟨useNamed current k.engine, ?_, hr⟩, fun he => by simp at he⟩
      obtain rfl := Option.some.inj he
      have hdb := hsame'.2.1
      refine ⟨hdb, ?_⟩
      show (findDatabase k.engine.databases current).getD 0
        = (findDatabase k'.engine.databases current).getD 0
      rw [hdb]

/-- A load whose chain describes a catalog ends with it. -/
theorem loadPages_stored {path : Path} {inode pages : Nat} {root : UInt32} {s : Session}
    {e : Engine} (h : storedCatalog s.memory root (openedPool inode pages s.pool) = some e) :
    ∃ e' : Engine, e'.Alike e ∧
      loadPages path inode { version := SAVE_VERSION, pageTotal := pages, catalog := root } s =
        (.ok (), { s with
          engine := e'
          openPath := path
          catalogRoot := root
          pool := poolSetCatalogRoot root
            (onPool (readCatalogChain s.memory (pages + 1) root [])
              (openedPool inode pages s.pool)).2 }) := by
  unfold storedCatalog at h
  have hcount : (openedPool inode pages s.pool).pageCount = pages := rfl
  rw [hcount] at h
  split at h
  · rename_i blob hblob
    let t : Session :=
      { s with
        engine := initEngine s.engine
        pool := (onPool (readCatalogChain s.memory (pages + 1) root [])
          (openedPool inode pages s.pool)).2 }
    obtain ⟨e', hlike, hload⟩ :=
      (loadFrom_current (s := t)
        (initEngine_alike s.engine)).1 e h
    refine ⟨e', hlike, ?_⟩
    rw [← hload]
    show andThen ((onPool (readCatalogChain s.memory (pages + 1) root [])
      (openedPool inode pages s.pool)).1, t) _ = _
    rw [hblob]
    rfl
  · exact absurd h (by simp)

/-- A load whose chain describes no catalog fails. -/
theorem loadPages_refused {path : Path} {inode pages : Nat} {root : UInt32} {s : Session}
    (h : storedCatalog s.memory root (openedPool inode pages s.pool) = none) :
    ∃ code s',
      loadPages path inode { version := SAVE_VERSION, pageTotal := pages, catalog := root } s =
        (.error code, s') := by
  unfold storedCatalog at h
  have hcount : (openedPool inode pages s.pool).pageCount = pages := rfl
  rw [hcount] at h
  let t : Session :=
    { s with
      engine := initEngine s.engine
      pool := (onPool (readCatalogChain s.memory (pages + 1) root [])
        (openedPool inode pages s.pool)).2 }
  have hload : loadPages path inode
      { version := SAVE_VERSION, pageTotal := pages, catalog := root } s =
      andThen ((onPool (readCatalogChain s.memory (pages + 1) root [])
        (openedPool inode pages s.pool)).1, t)
        fun blob s => loadFrom path
          { version := SAVE_VERSION, pageTotal := pages, catalog := root } blob s := rfl
  rw [hload]
  split at h
  · rename_i blob hblob
    rw [hblob]
    exact (loadFrom_current (s := t)
      (initEngine_alike s.engine)).2 h
  · rename_i code hcode
    rw [hcode]
    exact ⟨code, t, rfl⟩

/-! ### Opened for writing -/

/-- A session that writes to a file of its own through a log. -/
structure Session.FileBacked (s : Session) (inode : Nat) : Prop where
  named : s.openPath ≠ []
  opens : s.openFile s.openPath = some inode
  pageFile : s.pool.pageFile = some inode
  writable : s.pool.writable = true
  checksums : s.pool.checksums = true
  log : walIsOpen s = true
  root : s.pool.catalogRootPage = s.catalogRoot
  head : CurrentHead (s.pool.files inode).head
  count : s.pool.pageCount < 2 ^ 32

instance (s : Session) (inode : Nat) : Decidable (s.FileBacked inode) :=
  decidable_of_iff
    (s.openPath ≠ [] ∧ s.openFile s.openPath = some inode ∧ s.pool.pageFile = some inode ∧
      s.pool.writable = true ∧ s.pool.checksums = true ∧ walIsOpen s = true ∧
      s.pool.catalogRootPage = s.catalogRoot ∧ CurrentHead (s.pool.files inode).head ∧
      s.pool.pageCount < 2 ^ 32)
    ⟨fun ⟨h₁, h₂, h₃, h₄, h₅, h₆, h₇, h₈, h₉⟩ => ⟨h₁, h₂, h₃, h₄, h₅, h₆, h₇, h₈, h₉⟩,
      fun ⟨h₁, h₂, h₃, h₄, h₅, h₆, h₇, h₈, h₉⟩ => ⟨h₁, h₂, h₃, h₄, h₅, h₆, h₇, h₈, h₉⟩⟩

/-- The session `u` has just opened the file behind `inode` for writing, with `pages` pages
and the catalog at `root`. -/
structure Session.Opened (c u : Session) (path : Path) (inode pages : Nat) (root : UInt32) :
    Prop where
  pageCount : u.pool.pageCount = pages
  pageFile : u.pool.pageFile = some inode
  writable : u.pool.writable = true
  checksums : u.pool.checksums = true
  poolRoot : u.pool.catalogRootPage = root
  freeIds : u.pool.freeIds = []
  files : u.pool.files = c.pool.files
  log : walIsOpen u = true
  mirrors : u.pool.Mirrors fun _ => True
  visible : u.pool.visible = (openedPool inode pages c.pool).visible
  inOrder : u.pool.InOrder
  openPath : u.openPath = path
  root : u.catalogRoot = root
  names : u.names = c.names
  canOpen : u.canOpen = c.canOpen
  memory : u.memory = c.memory
  schemaChanged : u.schemaChanged = c.schemaChanged
  transactionOpen : u.transactionOpen = c.transactionOpen

/-- A program that only looks finds the pool in order and leaves it so. -/
theorem readOnly_inOrder {γ : Type} {x : PageM Bytes γ} (hx : x.ReadOnly) (inode pages : Nat)
    (p : Pool Bytes) (q : Pool Bytes)
    (hframes : q.frames = (onPool x (openedPool inode pages p)).2.frames)
    (hdir : q.pageFrame = (onPool x (openedPool inode pages p)).2.pageFrame)
    (hids : q.freeIds = (onPool x (openedPool inode pages p)).2.freeIds)
    (hcount : q.pageCount = (onPool x (openedPool inode pages p)).2.pageCount)
    (hsupplies : q.supplies = (onPool x (openedPool inode pages p)).2.supplies) :
    q.Mirrors (fun _ => True) ∧ q.visible = (openedPool inode pages p).visible ∧ q.InOrder := by
  let o := openedPool inode pages p
  obtain ⟨hmirrors, hsame⟩ := (openedPool_mirrors inode pages p fun _ => True).onPool x hx
  have hq : q.Mirrors fun _ => True :=
    ⟨by rw [hdir, hframes]; exact hmirrors.directory, by rw [hframes]; exact hmirrors.clean,
      by rw [hdir, hframes, hsupplies]; exact hmirrors.resident⟩
  have hvisible : q.visible = o.visible := by
    funext id
    simp only [Pool.visible, hcount, hsupplies, hsame.supplies, hsame.pageCount, o]
  refine ⟨hq, hvisible, ?_⟩
  -- the map of the file's contents is kept by looking, and it is what the pool shows
  have hopened : o.Refines ⟨o.visible, fun _ => false⟩ := by
    have hnone : ∀ id, o.pageFrame id = none := fun _ => rfl
    refine ⟨fun id i => ?_, fun i f hf => absurd hf (by simp [o, openedPool, poolSetChecksums,
      poolAdopt, poolInit]), fun id b _ hb => ?_, fun id hid => ?_, fun id h => absurd h (by simp),
      fun id hid => absurd hid (by simp [o, openedPool, poolSetChecksums, poolAdopt, poolInit]),
      by simp [o, openedPool, poolSetChecksums, poolAdopt, poolInit]⟩
    · simp [o, openedPool, poolSetChecksums, poolAdopt, poolInit]
    · have hb : o.visible id = some b := hb
      unfold Pool.visible at hb
      split at hb
      · exact hb
      · exact absurd hb (by simp)
    · have hrange : ¬id < o.pageCount := fun hlt =>
        hid ⟨hlt, by simp [o, openedPool, poolSetChecksums, poolAdopt, poolInit]⟩
      exact if_neg hrange
  have hread := hopened.readOnly hx
  have hkept : q.Refines ⟨o.visible, fun _ => false⟩ :=
    ⟨by rw [hdir, hframes]; exact hread.directory,
      by rw [hframes, hcount, hids, hsupplies]; exact hread.sound,
      by rw [hdir, hsupplies]; exact hread.absent,
      fun id hid => hread.unallocated id fun hal => hid (by
        unfold Pool.Allocated at hal ⊢
        rw [hcount, hids]
        exact hal),
      by rw [hdir]; exact hread.owedResident, by rw [hids, hcount]; exact hread.freeInRange,
      by rw [hids]; exact hread.freeNodup⟩
  refine hkept.inOrder (fun id hid => ?_) fun _ => rfl
  show o.visible id = q.look id
  rw [hq.look trivial hid.1, ← hvisible]
  exact if_pos hid.1

/-- A load whose chain describes a catalog, and the log attached. -/
theorem loadPages_opened {path : Path} {inode pages : Nat} {root : UInt32} {c : Session}
    {e : Engine} (hstored : storedCatalog c.memory root (openedPool inode pages c.pool) = some e)
    (hopens : c.openFile path = some inode) :
    ∃ v u, loadPages path inode { version := SAVE_VERSION, pageTotal := pages, catalog := root } c
        = (.ok (), v) ∧ openForWrite path v = (.ok (), u) ∧ u.engine.Alike e ∧
      v.openFile path = some inode ∧ v.pool.files = c.pool.files ∧ v.openPath = path ∧
      c.Opened u path inode pages root := by
  obtain ⟨e', hlike, hload⟩ := loadPages_stored hstored
  have hreads := readCatalogChain_readOnly c.memory (pages + 1) root []
  obtain ⟨-, hsame⟩ := (openedPool_mirrors inode pages c.pool fun _ => True).onPool _ hreads
  generalize hr : (onPool (readCatalogChain c.memory (pages + 1) root [])
    (openedPool inode pages c.pool)).2 = r at hload hsame
  let v : Session :=
    { c with
      engine := e'
      openPath := path
      catalogRoot := root
      pool := poolSetCatalogRoot root r }
  have hopened : v.openFile path = some inode := hopens
  let pool := poolSetCatalogRoot root
    (poolSetChecksums true (poolSetWritable inode v.pool.pageCount v.pool))
  let u := walOpen path { v with pool := pool, openPath := path }
  have hpage : r.pageFile = some inode := hsame.pageFile
  have hsums : r.checksums = true := hsame.checksums
  have hsupplies : u.pool.supplies = r.supplies := by
    funext id
    simp only [Pool.supplies, Pool.fetch, hpage, hsums]
    rfl
  obtain ⟨hmirrors, hvisible, hinOrder⟩ :=
    readOnly_inOrder hreads inode pages c.pool u.pool (by rw [hr]; rfl) (by rw [hr]; rfl)
      (by rw [hr]; rfl) (by rw [hr]; rfl) (by rw [hr]; exact hsupplies)
  refine ⟨v, u, hload, ?_, hlike, hopened, hsame.files, rfl, ?_⟩
  · unfold openForWrite
    rw [hopened]
  · exact ⟨hsame.pageCount, rfl, rfl, rfl, rfl, hsame.freeIds, hsame.files, rfl, hmirrors,
      hvisible, hinOrder, rfl, rfl, rfl, rfl, rfl, rfl, rfl⟩

/-- A session that has opened a file of this version is backed by it. -/
theorem Session.Opened.fileBacked {c u : Session} {path : Path} {inode pages : Nat} {root : UInt32}
    (h : c.Opened u path inode pages root) (hnamed : path ≠ [])
    (hopens : c.openFile path = some inode) (hhead : CurrentHead (c.pool.files inode).head)
    (hcount : pages < 2 ^ 32) : u.FileBacked inode where
  named := by
    rw [h.openPath]
    exact hnamed
  opens := by
    unfold Session.openFile at hopens ⊢
    rw [h.openPath, h.canOpen, h.names]
    exact hopens
  pageFile := h.pageFile
  writable := h.writable
  checksums := h.checksums
  log := h.log
  root := h.poolRoot.trans h.root.symm
  head := by
    rw [h.files]
    exact hhead
  count := by
    rw [h.pageCount]
    exact hcount

/-- A file of this version is a paged one. -/
theorem isPageFile_of_currentHead {path : Path} {inode : Nat} {s : Session}
    (hopens : s.openFile path = some inode) (hhead : CurrentHead (s.pool.files inode).head) :
    isPageFile path s = true := by
  obtain ⟨hlong, htake⟩ := hhead
  have hmagic : (s.pool.files inode).head.take MAGIC_LENGTH = SAVE_MAGIC := by
    have := congrArg (List.take 8) htake
    rw [List.take_take] at this
    exact this
  have hversion : ((s.pool.files inode).head.drop 8).take 4 = putU32 SAVE_VERSION := by
    have := congrArg (List.drop 8) htake
    rw [List.drop_take] at this
    exact this
  unfold isPageFile
  simp only [hopens, hmagic, hversion, beq_self_eq_true, Bool.and_true, decide_eq_true_eq]
  omega

/-- The file named on the command line, when it is a current one without a log. -/
theorem openSession_opened {path : Path} {inode pages : Nat} {root : UInt32} {s : Session}
    {e : Engine} (hnamed : path ≠ []) (hlogs : s.logs path = none) (hwal : walIsOpen s = false)
    (hopens : s.openFile path = some inode) (hhead : CurrentHead (s.pool.files inode).head)
    (hfields : readHeader (s.pool.files inode).head =
      .ok { version := SAVE_VERSION, pageTotal := pages, catalog := root })
    (hstored : storedCatalog s.memory root (openedPool inode pages s.pool) = some e) :
    (openSession path s).engine.Alike e ∧ s.Opened (openSession path s) path inode pages root := by
  obtain ⟨v, u, hload, hwrite, hlike, hv, hfiles, hpath, h⟩ := loadPages_opened hstored hopens
  let v' : Session := { v with sessionPath := path, usingLog := false }
  have hload' : loadDatabase path s = (.ok (), v) := by
    simp only [loadDatabase, hwal, Bool.false_eq_true, if_false, hopens, hfields]
    exact hload
  have hpage : isPageFile path v' = true :=
    isPageFile_of_currentHead hv (by
      show CurrentHead (v.pool.files inode).head
      rw [hfiles]
      exact hhead)
  have hwrite' : openForWrite path v' =
      (.ok (), { u with sessionPath := path, usingLog := false }) := by
    have hv' : v'.openFile path = some inode := hv
    unfold openForWrite at hwrite ⊢
    rw [hv] at hwrite
    rw [hv']
    obtain rfl := (Prod.mk.inj hwrite).2
    rfl
  have hopened : openSession path s = { u with sessionPath := path, usingLog := true } := by
    have hrecover : walRecover path s = (.ok (), s) := by simp only [walRecover, hlogs]
    have hattach : attachLog path false { v with sessionPath := path } =
        { u with sessionPath := path, usingLog := true } := by
      have hpage' : isPageFile path { v with sessionPath := path, usingLog := false } = true :=
        hpage
      unfold attachLog
      dsimp only
      split
      · rename_i hempty
        have : v.openPath = [] := by simpa using hempty
        exact absurd (hpath.symm.trans this) hnamed
      · simp only [hpage', Bool.not_true, Bool.false_eq_true, if_false]
        rw [show openForWrite path { v with sessionPath := path, usingLog := false } = _
          from hwrite']
    simp only [openSession, hrecover, hload', hattach]
  rw [hopened]
  exact ⟨hlike, h.pageCount, h.pageFile, h.writable, h.checksums, h.poolRoot, h.freeIds, h.files,
    h.log, h.mirrors, h.visible, h.inOrder, h.openPath, h.root, h.names, h.canOpen, h.memory,
    h.schemaChanged, h.transactionOpen⟩

/-! ### What any load keeps -/

/-- A property of sessions that a load keeps from the file that it takes over on: it runs page
programs, puts an engine in place, and says where the file and its catalog are. -/
structure LoadKeeps (inv : Session → Prop) : Prop where
  pages : ∀ {γ : Type} (s : Session) (e : Engine) (x : PageM Bytes γ), inv s →
    inv { s with engine := e, pool := (onPool x s.pool).2 }
  placed : ∀ (s : Session) (path : Path) (root : UInt32), inv s →
    inv { s with openPath := path, catalogRoot := root, pool := poolSetCatalogRoot root s.pool }
  engine : ∀ (s : Session) (e : Engine), inv s → inv { s with engine := e }

/-- What the first of two steps leads to, and the second from there. -/
theorem andThen_leads (mid : Session → Prop) {post : Session → Prop} {α β : Type}
    {r : Except ErrorCode α × Session} {next : α → Session → Except ErrorCode β × Session}
    (h : mid r.2) (hfails : ∀ t, mid t → post t)
    (hnext : ∀ (a : α) (t : Session), mid t → post (next a t).2) : post (andThen r next).2 := by
  obtain ⟨answer, t⟩ := r
  cases answer with
  | error code => exact hfails t h
  | ok a => exact hnext a t h

/-- What both of two steps keep. -/
theorem andThen_keeps (inv : Session → Prop) {α β : Type} {r : Except ErrorCode α × Session}
    {next : α → Session → Except ErrorCode β × Session} (h : inv r.2)
    (hnext : ∀ (a : α) (t : Session), inv t → inv (next a t).2) : inv (andThen r next).2 :=
  andThen_leads inv h (fun _ ht => ht) hnext

namespace LoadKeeps

variable {inv : Session → Prop}

/-- The load of a blob keeps what every step of it keeps. -/
theorem loadFrom (h : LoadKeeps inv) (path : Path) (header : Header) (blob : List UInt8)
    {s : Session} (hs : inv s) : inv (loadFrom path header blob s).2 := by
  have hstep {α : Type} (x : Step Loading α) (reader : List UInt8) {t : Session} (ht : inv t) :
      inv (t.loadStep x reader).2.2 := h.pages t _ _ ht
  have hnames := hstep (loadNames header.version) blob hs
  unfold DatabaseEngine.loadFrom
  generalize s.loadStep (loadNames header.version) blob = names at hnames ⊢
  obtain ⟨answer, reader, t⟩ := names
  cases answer with
  | error code => exact hnames
  | ok found =>
    have hbody := hstep (loadBody header.version found.2) reader hnames
    dsimp only at hbody ⊢
    generalize t.loadStep (loadBody header.version found.2) reader = body at hbody ⊢
    obtain ⟨answer, reader, u⟩ := body
    have hplaced := h.placed u (if TREELESS_VERSION ≤ header.version then path else [])
      (if CHAIN_VERSION ≤ header.version then header.catalog else INVALID_CATALOG) hbody
    cases answer with
    | error code => exact hplaced
    | ok _ =>
      dsimp only
      generalize hmoved : (if header.version < CHECKSUM_VERSION then _ else (_, _)) = moved
      have hkept : inv moved.2 := by
        rw [← hmoved]
        split
        · exact h.pages _ _ _ hplaced
        · exact hplaced
      obtain ⟨answer, v⟩ := moved
      cases answer with
      | error code => exact hkept
      | ok _ => exact h.engine _ _ hkept

/-- To read the blob keeps it. -/
theorem readBlob (h : LoadKeeps inv) (header : Header) (inode : Nat) {s : Session} (hs : inv s) :
    inv (readBlob header inode s).2 := by
  unfold DatabaseEngine.readBlob
  split
  · exact h.pages s s.engine _ hs
  · split
    · exact hs
    · split <;> exact hs

/-- A load from pages keeps it. -/
theorem loadPages (h : LoadKeeps inv) {path : Path} {inode : Nat} {header : Header} {s : Session}
    (hs : inv (teardown s)) (hadopted : ∀ on pages, inv { teardown s with
      pool := poolSetChecksums on (poolAdopt inode pages (teardown s).pool) }) :
    inv (loadPages path inode header s).2 := by
  have hread : ∀ {t : Session}, inv t → inv (andThen
      (DatabaseEngine.readBlob header inode t) fun blob t =>
        DatabaseEngine.loadFrom path header blob t).2 :=
    fun ht => andThen_keeps inv (h.readBlob header inode ht) fun blob _ hs =>
      h.loadFrom path header blob hs
  unfold DatabaseEngine.loadPages
  dsimp only
  split
  · exact hread (hadopted _ _)
  · exact hread hs

end LoadKeeps

end DatabaseEngine
