import DatabaseEngine.Proofs.Codec.Scratch
import DatabaseEngine.Proofs.Session.Crash
import DatabaseEngine.Proofs.Session.Rollback

/-!
# `DatabaseEngine.Proofs.Session.Reopening`: ROLLBACK in a session without a log

BEGIN makes the file the before-image by a checkpoint, and a session without a log has no file
that a checkpoint could write. ROLLBACK is refused where the session has no path. Where it has
one, as with a file of an older layout, ROLLBACK reads the file that the session was opened on,
and everything since then is gone.

* `Session.content`: the tables, their rows, and what the indexes find.
* `Session.Sealed`: nothing that such a session does reaches a file or a log.
* `loadDatabase_again`: to load a file again gives what the first load gave.
* `rollback_keeps_iff`: ROLLBACK keeps the work from before BEGIN exactly when it is refused for
  want of a path, or there is none.
* `rollback_drops_table`: a table made before BEGIN is gone after ROLLBACK.
-/

set_option autoImplicit false

namespace DatabaseEngine

open Library

/-! ### What a session holds -/

/-- A table and its live rows. -/
structure TableContent where
  table : CatalogNode
  rows : List Row

/-- An index and the rows its tree leads to, in the order of their keys. -/
structure IndexContent where
  name : Name
  table : Name
  column : Name
  rows : Except ErrorCode (List (Option Row))

/-- What can be read of a database. -/
structure DatabaseContent where
  name : Name
  tables : List TableContent
  indexes : List IndexContent

/-- The rows at the positions. -/
def rowsAt (heap : Heap) : List Nat → PageM Bytes (List (Option Row))
  | [] => pure []
  | position :: rest => do
    let row ← heapRead heap position
    let rows ← rowsAt heap rest
    return row :: rows

/-- The rows that a tree leads to. -/
def treeRows (heap : Heap) (index : Index) :
    PageM Bytes (Except ErrorCode (List (Option Row))) := do
  let fuel ← poolPageCount
  let leaf ← leftmostLeaf fuel index.rootPage
  match ← scanLeaves (fun _ => .take) heap.nslots fuel leaf [] with
  | .error code => return .error code
  | .ok positions =>
    let rows ← rowsAt heap positions
    return .ok rows

/-- What a page program would answer now. -/
def Session.peek {α : Type} (x : PageM Bytes α) (s : Session) : α := (onPool x s.pool).1

/-- What can be read of a table. -/
def Session.tableContent (s : Session) (db : Database) (table : CatalogNode) : TableContent :=
  { table := table
    rows := ((findHeap db.heaps table.table).map fun heap => s.peek (heapRows heap)).getD [] }

/-- What can be read of an index. -/
def Session.indexContent (s : Session) (db : Database) (index : Index) : IndexContent :=
  { name := index.name, table := index.table, column := index.column
    rows := ((findHeap db.heaps index.table).map fun heap => s.peek (treeRows heap index)).getD
      (.ok []) }

/-- Every database that is in use, with its tables and its indexes. -/
def Session.content (s : Session) : List DatabaseContent :=
  (s.engine.databases.filter Database.used).map fun db =>
    { name := db.name, tables := db.tables.map (s.tableContent db)
      indexes := db.indexes.map (s.indexContent db) }

/-- What a session holds is in its databases and its pages. -/
theorem Session.content_congr {s t : Session} (hdatabases : t.engine.databases = s.engine.databases)
    (hpool : t.pool = s.pool) : t.content = s.content := by
  have htable : t.tableContent = s.tableContent := by
    funext db
    unfold Session.tableContent Session.peek
    rw [hpool]
  have hindex : t.indexContent = s.indexContent := by
    funext db
    unfold Session.indexContent Session.peek
    rw [hpool]
  unfold Session.content
  rw [hdatabases, htable, hindex]

/-! ### Sessions that write to no file -/

section
variable {α : Type} [PageBody α]

/-- The pool `q` writes to no file, and the files and the log are those of `p`. -/
structure Pool.Sealed (p q : Pool α) : Prop where
  writable : q.writable = false
  files : q.files = p.files
  wal : q.wal = p.wal
  io : q.io = p.io

/-- Whatever a page program asks for, such a pool writes to no file. -/
theorem sealed_client (p : Pool α) : ClientKeeps (Pool.Sealed p) where
  quiet q r hmove h := by
    cases hmove with
    | writeBack i f id inode _ _ _ _ _ _ hwritable =>
      exact absurd (hwritable.symm.trans h.writable) (by simp)
    | turn | touch | drop | grow => exact ⟨h.writable, h.files, h.wal, h.io⟩
  refused q h := ⟨h.writable, h.files, h.wal, h.io⟩
  fetched q i id f page h _ _ _ _ _ := ⟨h.writable, h.files, h.wal, h.io⟩
  allocated q i f h _ _ := ⟨h.writable, h.files, h.wal, h.io⟩
  pinned q i h := ⟨h.writable, h.files, h.wal, h.io⟩
  unpinned q id h := by
    unfold poolUnpin
    split <;> exact ⟨h.writable, h.files, h.wal, h.io⟩
  changed q id page h := by
    unfold poolUnpin poolStore
    cases findFrame id q with
    | none => dsimp only; split <;> exact ⟨h.writable, h.files, h.wal, h.io⟩
    | some i => dsimp only; split <;> exact ⟨h.writable, h.files, h.wal, h.io⟩
  freed q id h := by
    unfold poolFree
    cases findFrame id q <;> exact ⟨h.writable, h.files, h.wal, h.io⟩

end

/-- The session `t` writes to no file, and what it would open is what `d` would. -/
structure Session.Sealed (d t : Session) : Prop where
  pool : d.pool.Sealed t.pool
  names : t.names = d.names
  canOpen : t.canOpen = d.canOpen
  memory : t.memory = d.memory

namespace Session.Sealed

variable {d t : Session}

/-- Another pool, engine or static that such a session comes to. -/
theorem setPool (h : d.Sealed t) {u : Session} (hpool : d.pool.Sealed u.pool)
    (hnames : u.names = t.names) (hopen : u.canOpen = t.canOpen) (hmemory : u.memory = t.memory) :
    d.Sealed u :=
  ⟨hpool, hnames.trans h.names, hopen.trans h.canOpen, hmemory.trans h.memory⟩

/-- A step on the engine leaves the disk sealed. -/
theorem engineStep {α : Type} (h : d.Sealed t) (x : Step Engine α) :
    d.Sealed (t.engineStep x).2 :=
  h.setPool ((sealed_client d.pool).onPool _ h.pool) rfl rfl rfl

/-- The log is open where it was. -/
theorem closed (h : d.Sealed t) : walIsOpen t = walIsOpen d := by
  unfold walIsOpen
  rw [h.pool.wal]

/-- The same files are found. -/
theorem openFile (h : d.Sealed t) (path : Path) : t.openFile path = d.openFile path := by
  unfold Session.openFile
  rw [h.names, h.canOpen]

/-- Whatever a load does, it leaves the session sealed. -/
theorem load (d : Session) : LoadKeeps d.Sealed where
  pages _ _ x h := h.setPool ((sealed_client d.pool).onPool x h.pool) rfl rfl rfl
  placed _ _ _ h :=
    h.setPool ⟨h.pool.writable, h.pool.files, h.pool.wal, h.pool.io⟩ rfl rfl rfl
  engine _ _ h := h.setPool h.pool rfl rfl rfl

/-- A load without a log leaves the disk sealed. -/
theorem loadDatabase (h : d.Sealed t) (hclosed : walIsOpen d = false) (path : Path) :
    d.Sealed (loadDatabase path t).2 := by
  unfold DatabaseEngine.loadDatabase
  rw [if_neg (by rw [h.closed, hclosed]; simp)]
  dsimp only
  split
  · exact h
  · split
    · exact h
    · refine (load d).loadPages ?_ fun on pages => ?_
      · exact h.setPool ⟨rfl, h.pool.files, h.pool.wal, h.pool.io⟩ rfl rfl rfl
      · exact h.setPool ⟨rfl, h.pool.files, h.pool.wal, h.pool.io⟩ rfl rfl rfl

end Session.Sealed

/-! ### A file that is loaded again -/

/-- The sessions hold the same pages and databases. -/
structure Session.Resembles (s t : Session) : Prop where
  pool : t.pool = s.pool
  engine : s.engine.Alike t.engine
  memory : t.memory = s.memory

namespace Session.Resembles

variable {s t : Session}

/-- Sessions that resemble each other answer a page program alike. -/
theorem pages {α : Type} (h : s.Resembles t) (x : PageM Bytes α) :
    (t.pages x).1 = (s.pages x).1 ∧ (s.pages x).2.Resembles (t.pages x).2 := by
  unfold Session.pages
  rw [h.pool]
  exact ⟨rfl, rfl, h.engine, h.memory⟩

/-- Sessions that resemble each other take a step of a load alike. -/
theorem loadStep {α : Type} (h : s.Resembles t) {x : Step Loading α}
    (hx : ∀ joinHeap results, Action.Ignores (Loading.scratch joinHeap results) x)
    (reader : List UInt8) :
    (t.loadStep x reader).1 = (s.loadStep x reader).1 ∧
      (t.loadStep x reader).2.1 = (s.loadStep x reader).2.1 ∧
      (s.loadStep x reader).2.2.Resembles (t.loadStep x reader).2.2 := by
  have hrun : x { reader := reader, engine := t.engine } = _ :=
    (congrArg (fun e => x { reader := reader, engine := e }) h.engine.scratch).trans
      (hx t.engine.joinHeap t.engine.subqueryResult { reader := reader, engine := s.engine })
  unfold Session.loadStep
  rw [hrun, h.pool, onPool_bind]
  exact ⟨rfl, rfl, rfl, ⟨rfl, rfl⟩, h.memory⟩

/-- Sessions that resemble each other take a step on the engine alike. -/
theorem engineStep {α : Type} (h : s.Resembles t) {x : Step Engine α}
    (hx : ∀ joinHeap results, Action.Ignores (Engine.scratch joinHeap results) x) :
    (t.engineStep x).1 = (s.engineStep x).1 ∧
      (s.engineStep x).2.Resembles (t.engineStep x).2 := by
  have hrun : x t.engine = _ := (congrArg x h.engine.scratch).trans
    (hx t.engine.joinHeap t.engine.subqueryResult s.engine)
  unfold Session.engineStep
  rw [hrun, h.pool, onPool_bind]
  exact ⟨rfl, rfl, ⟨rfl, rfl⟩, h.memory⟩

/-- Sessions that resemble each other load a blob alike. -/
theorem loadFrom (h : s.Resembles t) (path : Path) (header : Header) (blob : List UInt8) :
    (loadFrom path header blob t).1 = (loadFrom path header blob s).1 ∧
      (loadFrom path header blob s).2.Resembles (loadFrom path header blob t).2 := by
  obtain ⟨hanswer, hreader, hnames⟩ :=
    h.loadStep (fun _ _ => loadNames_ignores header.version) blob
  unfold DatabaseEngine.loadFrom
  generalize s.loadStep (loadNames header.version) blob = r at hanswer hreader hnames ⊢
  generalize t.loadStep (loadNames header.version) blob = r' at hanswer hreader hnames ⊢
  obtain ⟨answer, reader, s₁⟩ := r
  obtain ⟨answer', reader', t₁⟩ := r'
  obtain rfl : answer' = answer := hanswer
  obtain rfl : reader' = reader := hreader
  cases answer' with
  | error code => exact ⟨rfl, hnames⟩
  | ok found =>
    obtain ⟨hanswer, -, hbody⟩ :=
      hnames.loadStep (fun _ _ => loadBody_ignores header.version found.2) reader'
    dsimp only at hanswer hbody ⊢
    generalize s₁.loadStep (loadBody header.version found.2) reader' = r at hanswer hbody ⊢
    generalize t₁.loadStep (loadBody header.version found.2) reader' = r' at hanswer hbody ⊢
    obtain ⟨answer, reader, s₂⟩ := r
    obtain ⟨answer', reader', t₂⟩ := r'
    obtain rfl : answer' = answer := hanswer
    let placed (s : Session) : Session :=
      { s with
        openPath := if TREELESS_VERSION ≤ header.version then path else []
        catalogRoot := if CHAIN_VERSION ≤ header.version then header.catalog else INVALID_CATALOG
        pool := poolSetCatalogRoot
          (if CHAIN_VERSION ≤ header.version then header.catalog else INVALID_CATALOG) s.pool }
    have hplaced : (placed s₂).Resembles (placed t₂) :=
      ⟨congrArg (poolSetCatalogRoot _) hbody.pool, hbody.engine, hbody.memory⟩
    cases answer' with
    | error code => exact ⟨rfl, hplaced⟩
    | ok _ =>
      dsimp only
      generalize hmoved' : (if header.version < CHECKSUM_VERSION then _ else (_, _)) = moved'
      generalize hmoved : (if header.version < CHECKSUM_VERSION then _ else (_, _)) = moved
      have hlike : moved'.1 = moved.1 ∧ moved.2.Resembles moved'.2 := by
        have hcurrent : t₂.engine.current = s₂.engine.current := hbody.engine.2.symm
        rw [← hmoved, ← hmoved', hcurrent]
        split
        · exact hplaced.engineStep fun _ _ => reservePageTrailers_ignores _ _
        · exact ⟨rfl, hplaced⟩
      obtain ⟨answer, s₃⟩ := moved
      obtain ⟨answer', t₃⟩ := moved'
      obtain rfl : answer' = answer := hlike.1
      cases answer' with
      | error code => exact ⟨rfl, hlike.2⟩
      | ok _ =>
        obtain ⟨hpool, hengine, hmemory⟩ := hlike.2
        refine ⟨rfl, hpool, ⟨hengine.1, ?_⟩, hmemory⟩
        show (findDatabase s₃.engine.databases found.1).getD 0 =
          (findDatabase t₃.engine.databases found.1).getD 0
        rw [hengine.1]

end Session.Resembles

/-- A load starts from files alone: what the session held before makes no difference. -/
theorem Session.Sealed.loadPages {d t : Session} (h : d.Sealed t) (path : Path) (inode : Nat)
    (header : Header) :
    (loadPages path inode header t).1 = (loadPages path inode header d).1 ∧
      (loadPages path inode header d).2.Resembles (loadPages path inode header t).2 := by
  have hcleared : (teardown d).Resembles (teardown t) := by
    refine ⟨?_, ⟨rfl, rfl⟩, h.memory⟩
    show poolInit (poolClear t.pool) = poolInit (poolClear d.pool)
    unfold poolInit poolClear poolInit
    rw [h.pool.files, h.pool.wal, h.pool.io]
  have hread : ∀ {s t : Session}, s.Resembles t →
      (andThen (readBlob header inode t) fun blob t => loadFrom path header blob t).1 =
        (andThen (readBlob header inode s) fun blob s => loadFrom path header blob s).1 ∧
      (andThen (readBlob header inode s) fun blob s => loadFrom path header blob s).2.Resembles
        (andThen (readBlob header inode t) fun blob t => loadFrom path header blob t).2 := by
    intro s t h
    have hblob : (readBlob header inode t).1 = (readBlob header inode s).1 ∧
        (readBlob header inode s).2.Resembles (readBlob header inode t).2 := by
      unfold readBlob
      rw [h.pool, h.memory]
      split
      · exact h.pages _
      · split
        · exact ⟨rfl, h⟩
        · split <;> exact ⟨rfl, h⟩
    unfold andThen
    rw [hblob.1]
    split
    · exact ⟨rfl, hblob.2⟩
    · exact hblob.2.loadFrom path header _
  unfold DatabaseEngine.loadPages
  dsimp only
  split
  · exact hread ⟨congrArg (fun p => poolSetChecksums _ (poolAdopt inode _ p)) hcleared.pool,
      hcleared.engine, hcleared.memory⟩
  · exact hread hcleared

/-- A file that has a tree for each index is the one that is open. -/
theorem loadFrom_openPath {path : Path} {header : Header} {blob : List UInt8} {s u : Session}
    (h : loadFrom path header blob s = (.ok (), u)) :
    u.openPath = if TREELESS_VERSION ≤ header.version then path else [] := by
  unfold loadFrom at h
  generalize s.loadStep (loadNames header.version) blob = names at h
  obtain ⟨answer, reader, s₁⟩ := names
  cases answer with
  | error code => exact absurd h (by simp)
  | ok found =>
    dsimp only at h
    generalize s₁.loadStep (loadBody header.version found.2) reader = body at h
    obtain ⟨answer, reader, s₂⟩ := body
    cases answer with
    | error code => exact absurd h (by simp)
    | ok _ =>
      dsimp only at h
      split at h
      · exact absurd h (by simp)
      · obtain ⟨-, rfl⟩ := Prod.mk.inj h
        dsimp only
        split <;> rfl

/-- A load leaves the session with the path of the file, or with none. -/
theorem loadDatabase_openPath {path : Path} {s u : Session} (hclosed : walIsOpen s = false)
    (h : loadDatabase path s = (.ok (), u)) :
    ∃ inode header, s.openFile path = some inode ∧
      readHeader (s.pool.files inode).head = .ok header ∧
      u.openPath = if TREELESS_VERSION ≤ header.version then path else [] := by
  unfold loadDatabase at h
  rw [if_neg (by rw [hclosed]; simp)] at h
  dsimp only at h
  split at h
  · exact absurd h (by simp)
  · rename_i inode hopens
    split at h
    · exact absurd h (by simp)
    · rename_i header hheader
      refine ⟨inode, header, hopens, hheader, ?_⟩
      unfold loadPages andThen at h
      dsimp only at h
      split at h
      · exact absurd h (by simp)
      · exact loadFrom_openPath h

/-- To load a file again gives what the first load gave. -/
theorem loadDatabase_again {d t u : Session} (h : d.Sealed t) (hclosed : walIsOpen d = false)
    {path : Path} (hload : loadDatabase path d = (.ok (), u)) :
    (loadDatabase path t).1 = .ok () ∧ u.Resembles (loadDatabase path t).2 := by
  unfold loadDatabase at hload ⊢
  rw [if_neg (by rw [hclosed]; simp)] at hload
  rw [if_neg (by rw [h.closed, hclosed]; simp)]
  dsimp only at hload ⊢
  rw [h.openFile path]
  cases hopens : d.openFile path with
  | none => exact absurd hload (by simp [hopens])
  | some inode =>
    simp only [hopens] at hload
    dsimp only
    rw [h.pool.files]
    cases hheader : readHeader (d.pool.files inode).head with
    | error code => exact absurd hload (by simp [hheader])
    | ok header =>
      simp only [hheader] at hload
      obtain ⟨hanswer, hlike⟩ := h.loadPages path inode header
      rw [hload] at hanswer hlike
      exact ⟨hanswer, hlike⟩

/-! ### Statements in such a session -/

/-- A session without a log: what it loaded, it can load again, and it writes to no file. The
session `d` is the one that the load started from. -/
structure Session.LoadedFrom (opened d : Session) : Prop where
  closed : walIsOpen d = false
  sealed : d.Sealed opened
  loads : opened.openPath ≠ [] →
    ∃ u, loadDatabase opened.openPath d = (.ok (), u) ∧ opened.Resembles u ∧
      u.openPath = opened.openPath

/-- The session `t` is `opened`, some statements on. -/
structure Session.Later (d opened t : Session) : Prop where
  sealed : d.Sealed t
  openPath : t.openPath = opened.openPath

section
variable {d opened t : Session}

/-- A load of the session's own file. -/
theorem Session.LoadedFrom.reload (h : opened.LoadedFrom d) (hlater : d.Later opened t)
    (hpath : opened.openPath ≠ []) :
    (loadDatabase opened.openPath t).1 = .ok () ∧
      opened.Resembles (loadDatabase opened.openPath t).2 ∧
      d.Later opened (loadDatabase opened.openPath t).2 := by
  obtain ⟨u, hload, hlike, hnamed⟩ := h.loads hpath
  obtain ⟨hok, hagain⟩ := loadDatabase_again hlater.sealed h.closed hload
  have hresembles : opened.Resembles (loadDatabase opened.openPath t).2 :=
    ⟨hagain.pool.trans hlike.pool, ⟨hlike.engine.1.trans hagain.engine.1,
      hlike.engine.2.trans hagain.engine.2⟩, hagain.memory.trans hlike.memory⟩
  refine ⟨hok, hresembles, hlater.sealed.loadDatabase h.closed _, ?_⟩
  -- both loads read one header, which says whether the file is laid out in pages
  obtain ⟨inode, header, hopens, hheader, hfirst⟩ := loadDatabase_openPath h.closed hload
  obtain ⟨inode', header', hopens', hheader', hsecond⟩ :=
    loadDatabase_openPath (hlater.sealed.closed.trans h.closed) (Prod.ext hok rfl)
  rw [hlater.sealed.openFile, hopens] at hopens'
  obtain rfl := Option.some.inj hopens'
  rw [hlater.sealed.pool.files, hheader] at hheader'
  obtain rfl := Except.ok.inj hheader'
  exact hsecond.trans (hfirst.symm.trans hnamed)

/-- What ROLLBACK does in a transaction of such a session. -/
theorem Session.LoadedFrom.rollback (h : opened.LoadedFrom d) (hlater : d.Later opened t)
    (hopen : t.transactionOpen = true) :
    (opened.openPath = [] ∧ rollbackTransaction t =
      (.error .EXEC_CANNOT_ROLLBACK, { t with schemaChanged := false })) ∨
    (opened.openPath ≠ [] ∧ ∃ u, rollbackTransaction t = (.ok (), u) ∧ opened.Resembles u ∧
      d.Later opened u ∧ u.transactionOpen = false) := by
  unfold rollbackTransaction
  rw [if_neg (by rw [hopen]; simp)]
  dsimp only
  by_cases hpath : opened.openPath = []
  · rw [if_pos (hlater.openPath.trans hpath)]
    exact Or.inl ⟨hpath, rfl⟩
  · rw [if_neg (hlater.openPath ▸ hpath)]
    refine Or.inr ⟨hpath, ?_⟩
    have hdiscarded : d.Later opened t.discarded := by
      refine ⟨hlater.sealed.setPool ?_ rfl rfl rfl, hlater.openPath⟩
      have hpool := hlater.sealed.pool
      exact ⟨hpool.writable, hpool.files, hpool.wal, hpool.io⟩
    obtain ⟨hok, hlike, hafter⟩ := h.reload hdiscarded hpath
    have hended : (loadDatabase opened.openPath t.discarded).2.transactionOpen = false :=
      (loadDatabase_keepsTransaction opened.openPath t.discarded).transactionOpen
    have hclosed : walIsOpen { t with schemaChanged := false } = false :=
      hlater.sealed.closed.trans h.closed
    refine ⟨_, ?_, hlike, hafter, hended⟩
    rw [← hlater.openPath] at hok ⊢
    show andThen (loadDatabase t.openPath t.discarded) _ = _
    unfold andThen
    rw [hok]
    simp only [hclosed, Bool.false_eq_true, if_false]

/-- The session is `opened`, some statements on and in a transaction if it was in one. -/
def Session.Goes (d opened t u : Session) (ends : Bool) : Prop :=
  d.Later opened u ∧ (ends = false → t.transactionOpen = true → u.transactionOpen = true)

/-- A step on the engine is one of the steps after the load. -/
theorem Session.Later.engineStep {α : Type} (h : d.Later opened t) (x : Step Engine α) :
    d.Later opened (t.engineStep x).2 :=
  ⟨h.sealed.engineStep x, h.openPath⟩

/-- Without a file that it may write, BEGIN leaves the pool as it is. -/
theorem Session.Later.begin (h : d.Later opened t) :
    (beginTransaction t).2.pool = t.pool ∧ (beginTransaction t).2.engine = t.engine ∧
      d.Later opened (beginTransaction t).2 := by
  have hsame : poolCheckpoint t.pool = t.pool := by
    unfold poolCheckpoint
    simp only [h.sealed.pool.writable]
  unfold beginTransaction
  rw [hsame]
  split
  · exact ⟨rfl, rfl, h⟩
  · exact ⟨rfl, rfl, h.sealed.setPool h.sealed.pool rfl rfl rfl, h.openPath⟩

/-- What a statement does after the load. -/
theorem Session.LoadedFrom.executes (h : opened.LoadedFrom d) (hlater : d.Later opened t)
    (statement : Statement) :
    d.Goes opened t (executeStatement statement t).2 statement.kind.endsTransaction := by
  have hsub := hlater.engineStep (materialiseSubqueries statement.subqueries)
  unfold executeStatement andThen
  split
  · exact ⟨hsub, fun _ hopen => hopen⟩
  · dsimp only
    split
    · refine ⟨hsub.begin.2.2, fun _ hopen => ?_⟩
      unfold beginTransaction
      split
      · exact hopen
      · rfl
    · rename_i hkind
      rw [hkind]
      refine ⟨?_, fun hends => absurd hends (by simp [StatementKind.endsTransaction])⟩
      unfold commitTransaction
      split
      · exact hsub
      · exact ⟨hsub.sealed.setPool hsub.sealed.pool rfl rfl rfl, hsub.openPath⟩
    · rename_i hkind
      rw [hkind]
      refine ⟨?_, fun hends => absurd hends (by simp [StatementKind.endsTransaction])⟩
      cases hopen : (t.engineStep (materialiseSubqueries statement.subqueries)).2.transactionOpen with
      | false =>
        unfold rollbackTransaction
        rw [if_pos (by rw [hopen]; rfl)]
        exact hsub
      | true =>
        rcases h.rollback hsub hopen with ⟨-, hrefused⟩ | ⟨-, u, hdone, -, hafter, -⟩
        · rw [hrefused]
          exact ⟨hsub.sealed.setPool hsub.sealed.pool rfl rfl rfl, hsub.openPath⟩
        · rw [hdone]
          exact hafter
    · exact ⟨hsub.engineStep _, fun _ hopen => hopen⟩

/-- Whatever a statement does, the session could load its file again. -/
theorem Session.LoadedFrom.processes (h : opened.LoadedFrom d)
    (hlater : d.Later opened t) (statement : Statement) :
    d.Goes opened t (processStatement statement t).2 statement.kind.endsTransaction := by
  unfold processStatement
  dsimp only
  split
  · exact ⟨hlater, fun _ hopen => hopen⟩
  · rename_i checked hcheck
    have hdone := h.executes hlater checked
    rw [semanticCheck_ends hcheck] at hdone
    unfold andThen
    split
    · exact hdone
    · dsimp only
      split
      · exact hdone
      · generalize hchanged : (if changesSchema checked.kind then
            { (executeStatement checked t).2 with schemaChanged := true }
          else (executeStatement checked t).2) = u
        have hu : d.Goes opened t u statement.kind.endsTransaction := by
          rw [← hchanged]
          split
          · exact ⟨⟨hdone.1.sealed.setPool hdone.1.sealed.pool rfl rfl rfl, hdone.1.openPath⟩,
              hdone.2⟩
          · exact hdone
        split
        · -- there is no log to commit to
          unfold commitDatabase
          rw [if_pos (by rw [hu.1.sealed.closed, h.closed]; rfl)]
          exact hu
        · exact hu

/-- So does every run of statements; it stays in a transaction that no statement ends. -/
theorem Session.LoadedFrom.runs (h : opened.LoadedFrom d) (hlater : d.Later opened t)
    (statements : List Statement) :
    d.Goes opened t (afterStatements t statements)
      (statements.any fun statement => statement.kind.endsTransaction) := by
  unfold afterStatements
  induction statements generalizing t with
  | nil => exact ⟨hlater, fun _ hopen => hopen⟩
  | cons statement rest ih =>
    obtain ⟨hstep, hkeeps⟩ := h.processes hlater statement
    obtain ⟨hrest, hstays⟩ := ih hstep
    rw [run_cons]
    refine ⟨hrest, fun hends hopen => ?_⟩
    rw [List.any_cons, Bool.or_eq_false_iff] at hends
    exact hstays hends.2 (hkeeps hends.1 hopen)

end

/-! ### How a session comes to have no log -/

/-- A process that has opened nothing yet. -/
structure Session.Unopened (s : Session) : Prop extends s.Starts where
  readOnly : s.pool.writable = false
  openPath : s.openPath = []
  sessionPath : s.sessionPath = []

/-- A fresh process stays without a database on its command line, opens a file of an older version
that it finds there, or loads a file by command. -/
inductive Session.OpensUnlogged (disk : Session) : Session → Prop
  | memory : disk.OpensUnlogged disk
  | older (path : Path) (inode : Nat) (header : Header) (hopens : disk.openFile path = some inode)
      (hheader : readHeader (disk.pool.files inode).head = .ok header)
      (hversion : header.version < SAVE_VERSION)
      (hloads : (loadDatabase path (walRecover path disk).2).1 = .ok ()) :
      disk.OpensUnlogged (openSession path disk)
  | load (path : Path) (hloads : (loadCommand path disk).1 = .ok ()) :
      disk.OpensUnlogged (loadCommand path disk).2

/-- A session that has loaded a file and attached no log. -/
theorem Session.LoadedFrom.of_load {d opened u : Session} {path : Path}
    (hclosed : walIsOpen d = false) (hreadOnly : d.pool.writable = false)
    (hload : loadDatabase path d = (.ok (), u)) (hlike : opened.Resembles u)
    (haround : opened.names = u.names ∧ opened.canOpen = u.canOpen ∧ opened.openPath = u.openPath) :
    opened.LoadedFrom d := by
  obtain ⟨hnames, hcan, hpath⟩ := haround
  have hsealed : d.Sealed u := by
    have h : d.Sealed d := ⟨⟨hreadOnly, rfl, rfl, rfl⟩, rfl, rfl, rfl⟩
    have := h.loadDatabase hclosed path
    rwa [hload] at this
  obtain ⟨inode, header, -, -, hnamed⟩ := loadDatabase_openPath hclosed hload
  refine ⟨hclosed, ⟨hlike.pool ▸ hsealed.pool, hnames.trans hsealed.names, hcan.trans hsealed.canOpen,
    hlike.memory.symm.trans hsealed.memory⟩, fun hfile => ⟨u, ?_, hlike, hpath.symm⟩⟩
  -- a session with a path has the path of the file
  rw [hpath, hnamed] at hfile ⊢
  split
  · exact hload
  · rename_i hunpaged
    exact absurd (if_neg hunpaged) hfile

/-- A file of an older version is not taken for a paged one. -/
theorem isPageFile_older {path : Path} {inode : Nat} {header : Header} {s : Session}
    (hopens : s.openFile path = some inode)
    (hheader : readHeader (s.pool.files inode).head = .ok header)
    (hversion : header.version < SAVE_VERSION) : isPageFile path s = false := by
  cases hpage : isPageFile path s with
  | false => rfl
  | true =>
    have hhead := (isPageFile_iff hopens).mp hpage
    have hlong : 24 ≤ (s.pool.files inode).head.length := by
      by_contra hshort
      unfold readHeader at hheader
      rw [if_pos (Or.inl (by omega))] at hheader
      exact absurd hheader (by simp)
    obtain ⟨pages, root, hcurrent⟩ := readHeader_current ⟨hlong, hhead.2⟩
    obtain rfl := Except.ok.inj (hcurrent.symm.trans hheader)
    exact absurd hversion (by simp)

/-- A load keeps the path of the session. -/
theorem loadDatabase_sessionPath (path : Path) (s : Session) :
    (loadDatabase path s).2.sessionPath = s.sessionPath := by
  have hkeeps : LoadKeeps fun t => t.sessionPath = s.sessionPath :=
    ⟨fun _ _ _ h => h, fun _ _ _ h => h, fun _ _ h => h⟩
  unfold loadDatabase
  dsimp only
  have hclosed : (if walIsOpen s then closeDatabase s else s).sessionPath = s.sessionPath := by
    split <;> rfl
  split
  · exact hclosed
  · split
    · exact hclosed
    · exact hkeeps.loadPages hclosed fun _ _ => hclosed

/-- However a session comes to have no log, it can load again what it has loaded. -/
theorem Session.OpensUnlogged.loadedFrom {disk opened : Session} (hunopened : disk.Unopened)
    (h : disk.OpensUnlogged opened) : ∃ d, opened.LoadedFrom d := by
  cases h with
  | memory =>
    exact ⟨disk, hunopened.closed, ⟨⟨hunopened.readOnly, rfl, rfl, rfl⟩, rfl, rfl, rfl⟩,
      fun hpath => absurd hunopened.openPath hpath⟩
  | older path inode header hopens hheader hversion hloads =>
    have hpage := isPageFile_older hopens hheader hversion
    have hrecover : walRecover path disk = (.ok (), (walRecover path disk).2) ∧
        disk.Sealed (walRecover path disk).2 ∧
        walIsOpen (walRecover path disk).2 = false := by
      unfold walRecover
      rw [hpage]
      split
      · exact ⟨rfl, ⟨⟨hunopened.readOnly, rfl, rfl, rfl⟩, rfl, rfl, rfl⟩, hunopened.closed⟩
      · dsimp only
        rw [Bool.not_false, Bool.or_true, if_pos rfl]
        exact ⟨rfl, ⟨⟨hunopened.readOnly, rfl, rfl, rfl⟩, rfl, rfl, rfl⟩, hunopened.closed⟩
    obtain ⟨-, hsealed, hclosed⟩ := hrecover
    refine ⟨(walRecover path disk).2, ?_⟩
    rcases hloaded : loadDatabase path (walRecover path disk).2 with ⟨answer, u⟩
    obtain rfl : answer = .ok () := by rw [hloaded] at hloads; exact hloads
    have hafter : disk.Sealed u := by
      have := hsealed.loadDatabase hunopened.closed path
      rwa [hloaded] at this
    have hattach : openSession path disk = { u with sessionPath := path, usingLog := false } := by
      have hnot : isPageFile path { u with sessionPath := path, usingLog := false } = false := by
        refine isPageFile_older (hafter.openFile path |>.trans hopens) ?_ hversion
        show readHeader (u.pool.files inode).head = _
        rw [hafter.pool.files]
        exact hheader
      unfold openSession
      simp only [hloaded]
      unfold attachLog
      simp only [hnot, Bool.not_false, if_true, Bool.true_and]
      split <;> rfl
    rw [hattach]
    exact .of_load hclosed hsealed.pool.writable hloaded ⟨rfl, ⟨rfl, rfl⟩, rfl⟩ ⟨rfl, rfl, rfl⟩
  | load path hloads =>
    refine ⟨disk, ?_⟩
    unfold loadCommand at hloads ⊢
    rcases hloaded : loadDatabase path disk with ⟨answer, u⟩
    rw [hloaded] at hloads
    cases answer with
    | error code => exact absurd hloads (by simp [andThen])
    | ok _ =>
      have hsession : u.sessionPath = disk.sessionPath := by
        have := loadDatabase_sessionPath path disk
        rwa [hloaded] at this
      have hleaves : (andThen (Except.ok (), u) fun _ s =>
          if s.sessionPath ≠ [] then
            (Except.ok (), attachLog path false { s with sessionPath := path })
          else (Except.ok (), s)).2 = u := by
        simp only [andThen, hsession, hunopened.sessionPath, ne_eq, not_true_eq_false, if_false]
      rw [hleaves]
      exact .of_load hunopened.closed hunopened.readOnly hloaded ⟨rfl, ⟨rfl, rfl⟩, rfl⟩ ⟨rfl, rfl, rfl⟩

/-! ### What ROLLBACK keeps -/

/-- ROLLBACK returns an error and leaves what the session holds and its transaction as they were,
or leaves what the session held at BEGIN. -/
def Session.KeptByRollback (begun last : Session) : Prop :=
  let after := processStatement rollbackStatement last
  (after.1 ≠ .ok () ∧ after.2.content = last.content ∧
      after.2.transactionOpen = last.transactionOpen) ∨
    after.2.content = begun.content

/-- What the ROLLBACK statement does, from what the rollback does. -/
theorem rollbackStatement_eq (t : Session) :
    processStatement rollbackStatement t =
      andThen (rollbackTransaction t) fun _ s =>
        if s.pool.corrupt ≠ t.pool.corrupt then (.error .IO_CHECKSUM, s)
        else if !s.transactionOpen then commitDatabase s else (.ok (), s) := by
  unfold processStatement
  show andThen (rollbackTransaction t) _ = _
  unfold andThen
  split
  · rfl
  · dsimp only
    split
    · rfl
    · show (if !(!t.transactionOpen && false) && !_ then _ else _) = _
      rw [Bool.and_false, Bool.not_false, Bool.true_and]
      rfl

/-- A BEGIN that succeeds opens a transaction. -/
theorem begin_opens {s : Session} (h : (processStatement beginStatement s).1 = .ok ()) :
    (processStatement beginStatement s).2.transactionOpen = true := by
  cases hopen : s.transactionOpen with
  | false =>
    rw [begin_eq hopen]
    rfl
  | true =>
    have hexec : executeStatement beginStatement s = (.error .EXEC_TRANSACTION_ACTIVE, s) := by
      show beginTransaction s = _
      unfold beginTransaction
      rw [if_pos hopen]
    have hrefused : processStatement beginStatement s = (.error .EXEC_TRANSACTION_ACTIVE, s) := by
      unfold processStatement
      show andThen (executeStatement beginStatement s) _ = _
      rw [hexec]
      rfl
    rw [hrefused] at h
    exact absurd h (by simp)

/-- In every session without a log, ROLLBACK keeps what there was at BEGIN exactly when the session
has no path, or holds at BEGIN what it held when it was opened. -/
theorem rollback_keeps_iff (disk opened : Session) (hunopened : disk.Unopened)
    (hopened : disk.OpensUnlogged opened) (before inside : List Statement)
    (hbegin : (processStatement beginStatement (afterStatements opened before)).1 = .ok ())
    (hinside : ∀ statement ∈ inside, statement.kind.endsTransaction = false) :
    let begun := (processStatement beginStatement (afterStatements opened before)).2
    let last := afterStatements begun inside
    begun.KeptByRollback last ↔ opened.openPath = [] ∨ begun.content = opened.content := by
  intro begun last
  obtain ⟨d, hloaded⟩ := hopened.loadedFrom hunopened
  have hfirst : d.Later opened opened := ⟨hloaded.sealed, rfl⟩
  obtain ⟨hbefore, -⟩ := hloaded.runs hfirst before
  obtain ⟨hbegun, -⟩ := hloaded.processes hbefore beginStatement
  obtain ⟨hlater, hstays⟩ := hloaded.runs hbegun inside
  have hopen : last.transactionOpen = true := by
    refine hstays ?_ ?_
    · rw [List.any_eq_false]
      exact fun statement hin => by rw [hinside statement hin]; simp
    · exact begin_opens hbegin
  unfold Session.KeptByRollback
  rw [rollbackStatement_eq]
  dsimp only
  rcases hloaded.rollback hlater hopen with ⟨hpath, hrefused⟩ | ⟨hpath, u, hdone, hlike, hafter, hended⟩
  · rw [hrefused]
    exact ⟨fun _ => Or.inl hpath,
      fun _ => Or.inl ⟨by simp [andThen], Session.content_congr rfl rfl, rfl⟩⟩
  · have hcontent : u.content = opened.content :=
      Session.content_congr hlike.engine.1.symm hlike.pool
    have hcommit : commitDatabase u = (.ok (), u) := by
      unfold commitDatabase
      rw [if_pos (by rw [hafter.sealed.closed, hloaded.closed]; rfl)]
    have hleaves : (andThen (rollbackTransaction last) fun _ s =>
        if s.pool.corrupt ≠ last.pool.corrupt then (.error .IO_CHECKSUM, s)
        else if !s.transactionOpen then commitDatabase s else (.ok (), s)).2 = u := by
      rw [hdone]
      simp only [andThen, hended, hcommit, Bool.not_false, if_true]
      split <;> rfl
    rw [hleaves, hcontent, hended, hopen]
    constructor
    · rintro (⟨-, -, h⟩ | h)
      · exact absurd h (by simp)
      · exact Or.inr h.symm
    · rintro (h | h)
      · exact absurd h hpath
      · exact Or.inr h.symm

/-! ### Work that is lost -/

/-- The version before this one, which has the same layout and is not written in place. -/
def olderHead : List UInt8 :=
  SAVE_MAGIC ++ putU32 7 ++ putU32 1 ++ le32 0 ++ List.replicate (PAGE_SIZE - 20) 0

/-- The catalog of an empty database, in one page. -/
def olderFile : DbFile Bytes where
  head := olderHead
  count := 1
  page _ := poolStampPage ⟨chainPage blankChainPage (saveCatalog startEngine), .blank⟩
  tail := none

/-- A disk with one file, an empty database of an older version. -/
def olderDisk : Session :=
  { emptyDisk with
    names := fun path => if path = somePath then some 0 else none
    nextInode := 1
    pool := { startPool with files := fun _ => olderFile } }

/-- Nothing is open on the disk of the example. -/
theorem olderDisk_unopened : olderDisk.Unopened := by
  refine ⟨⟨rfl, rfl, fun a b i ha hb => ?_, fun a i ha => ?_, rfl⟩, rfl, rfl, rfl⟩
  · simp only [olderDisk] at ha hb
    split at ha <;> split at hb <;> simp_all
  · simp only [olderDisk] at ha ⊢
    split at ha <;> simp_all

/-- The older file of the example is opened without a log. -/
theorem olderDisk_opens : olderDisk.OpensUnlogged (openSession somePath olderDisk) :=
  .older somePath 0 { version := 7, pageTotal := 1, catalog := 0 } (by decide +kernel)
    (by decide +kernel) (by decide) (by decide +kernel)

/-- A table is made in the older file's session, which then begins. -/
def olderBegun : Session :=
  (processStatement beginStatement (afterStatements (openSession somePath olderDisk)
    [createPair])).2

/-- What a ROLLBACK keeps of one row in the older file of the example. -/
theorem rollback_keeps_iff_older :
    olderBegun.KeptByRollback (afterStatements olderBegun [insertPair [1] [2]]) ↔
      (openSession somePath olderDisk).openPath = [] ∨
        olderBegun.content = (openSession somePath olderDisk).content :=
  rollback_keeps_iff olderDisk (openSession somePath olderDisk) olderDisk_unopened olderDisk_opens
    [createPair] [insertPair [1] [2]] (by decide +kernel)
    fun statement hin => by rw [List.mem_singleton.mp hin]; rfl

/-- The names of the tables. -/
def tableNames (content : List DatabaseContent) : List Name :=
  content.flatMap fun db => db.tables.map fun table => table.table.table

/-- Every statement succeeds, ROLLBACK as well, and the table that was there at BEGIN is gone. -/
theorem rollback_drops_table :
    (processStatement createPair (openSession somePath olderDisk)).1 = .ok () ∧
      (processStatement beginStatement
        (afterStatements (openSession somePath olderDisk) [createPair])).1 = .ok () ∧
      (processStatement rollbackStatement olderBegun).1 = .ok () ∧
      ¬olderBegun.KeptByRollback olderBegun := by
  have hrun :
      ((processStatement createPair (openSession somePath olderDisk)).1 = .ok () ∧
        (processStatement beginStatement
          (afterStatements (openSession somePath olderDisk) [createPair])).1 = .ok () ∧
        (processStatement rollbackStatement olderBegun).1 = .ok ()) ∧
      tableNames (processStatement rollbackStatement olderBegun).2.content ≠
        tableNames olderBegun.content := by
    decide +kernel
  obtain ⟨⟨hcreate, hbegin, hrollback⟩, hlost⟩ := hrun
  refine ⟨hcreate, hbegin, hrollback, fun hkept => ?_⟩
  rcases hkept with ⟨hrefused, -⟩ | hsame
  · exact hrefused hrollback
  · exact hlost (congrArg tableNames hsame)

end DatabaseEngine
