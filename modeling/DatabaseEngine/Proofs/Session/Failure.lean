import DatabaseEngine.Proofs.Codec.Intact
import DatabaseEngine.Proofs.Pool.Unlogged
import DatabaseEngine.Proofs.Session.Crash

/-!
# `DatabaseEngine.Proofs.Session.Failure`: a commit that fails

When `commitDatabase` fails the statement has run: heaps, trees and catalog hold the change, and
nothing takes it back. A later commit writes it into the log with the rest.

* `Orderly.halfway`, `Orderly.catalogued`: however far the catalog came, the pages of tables and
  indexes are as they were, and the chain is one that the next commit can write.
* `Orderly.commits`: after a commit that reaches the log, a crash and the replay, the file shows
  what the session held.
* `failed_commit_iff`: a failed commit that tears no frame goes unnoticed exactly when there was
  nothing to commit.
* `failed_insert_stays`: an INSERT that was answered with an error, and its row.
* `torn_commit_loses`: a commit behind a part of a frame.
-/

set_option autoImplicit false

namespace DatabaseEngine

open Library

/-! ### What statements see -/

/-- A heap or a tree of the session refers to the page. -/
inductive Session.Uses (s : Session) : Nat → Prop
  | heap {id : Nat} (h : id ∈ s.heapPageIds) : Uses s id
  | index {db : Database} {index : Index} {id : Nat} (hdb : db ∈ s.engine.databases)
      (hindex : index ∈ db.indexes) (h : InTree s.pool.contents.body index.rootPage id) :
      Uses s id

/-- A tree is where its pages are. -/
theorem inTree_congr {body body' : Nat → Option Bytes} {root id : Nat}
    (h : ∀ id, InTree body root id → body' id = body id) :
    InTree body' root id ↔ InTree body root id := by
  constructor
  · intro hin
    induction hin with
    | root => exact .root
    | child _ hpage hleaf hchild ih => exact .child ih ((h _ ih).symm.trans hpage) hleaf hchild
  · intro hin
    induction hin with
    | root => exact .root
    | child hparent hpage hleaf hchild ih =>
      exact .child ih ((h _ hparent).trans hpage) hleaf hchild

/-- The same databases with the same pages use the same ones. -/
theorem Session.Uses.congr {s t : Session} (hdb : t.engine.databases = s.engine.databases)
    (h : ∀ id, s.Uses id → t.pool.contents.body id = s.pool.contents.body id) (id : Nat) :
    t.Uses id ↔ s.Uses id := by
  have hheap : t.heapPageIds = s.heapPageIds := by
    unfold Session.heapPageIds
    rw [hdb]
  have htree : ∀ db ∈ s.engine.databases, ∀ index ∈ db.indexes,
      InTree t.pool.contents.body index.rootPage id ↔
        InTree s.pool.contents.body index.rootPage id := fun db hdb index hindex =>
    inTree_congr fun other hother => h other (.index hdb hindex hother)
  constructor
  · rintro (hin | ⟨hin, hindex, htreeIn⟩)
    · exact .heap (hheap ▸ hin)
    · rw [hdb] at hin
      exact .index hin hindex ((htree _ hin _ hindex).mp htreeIn)
  · rintro (hin | ⟨hin, hindex, htreeIn⟩)
    · exact .heap (hheap ▸ hin)
    · exact .index (hdb ▸ hin) hindex ((htree _ hin _ hindex).mpr htreeIn)

/-- Statements see in `t` what they saw in `b`: the catalog, and the pages of its tables and
indexes. -/
structure Session.Shows (t b : Session) : Prop where
  catalog : b.engine.Alike t.engine
  pages : ∀ id, b.Uses id → t.pool.contents.body id = b.pool.contents.body id

/-- Opening the file gives the catalog of `b`, and the pages of its tables and indexes. -/
def DbFile.Shows (file : DbFile Bytes) (b : Session) : Prop :=
  ∃ pages root ids parts,
    readHeader file.head = .ok { version := SAVE_VERSION, pageTotal := pages, catalog := root } ∧
    Chain (file.visible pages) root ids parts ∧ parts.flatten = saveCatalog b.engine ∧
    ∀ id, b.Uses id → file.visible pages id = b.pool.contents.body id

/-- Engines that are alike save one catalog. -/
theorem saveCatalog_alike {e e' : Engine} (h : e.Alike e') : saveCatalog e = saveCatalog e' := by
  unfold saveCatalog Engine.database
  rw [h.1, h.2]

/-- What is shown by a session that shows another. -/
theorem DbFile.Shows.of_shows {file : DbFile Bytes} {t b : Session} (h : file.Shows t)
    (hshows : t.Shows b) : file.Shows b := by
  obtain ⟨pages, root, ids, parts, hheader, hchain, hblob, hpages⟩ := h
  refine ⟨pages, root, ids, parts, hheader, hchain,
    hblob.trans (saveCatalog_alike hshows.catalog).symm, fun id hid => ?_⟩
  have hused := (Session.Uses.congr hshows.catalog.1.symm hshows.pages id).mpr hid
  exact (hpages id hused).trans (hshows.pages id hid)

/-! ### A session in order -/

/-- The plain store that a pool in order is. -/
def Pool.plain (p : Pool Bytes) : Store Bytes :=
  { count := p.pageCount, free := p.freeIds, body := p.contents.body }

/-- A plain pool has as many pages. -/
theorem Pool.plain_count (p : Pool Bytes) : p.plain.count = p.pageCount := rfl

/-- A full store that a pool serves is the plain one. -/
theorem Pool.Serves.plain_eq {p : Pool Bytes} {s : Store Bytes} (h : p.Serves s) (hfull : s.Full) :
    p.plain = s := by
  have hbody : p.contents.body = s.body := by
    funext id
    have hallocated : p.Allocated id ↔ s.Allocated id := by
      unfold Pool.Allocated Store.Allocated
      rw [h.count, h.free]
    show (if p.Allocated id then p.look id else none) = s.body id
    split
    · rename_i hin
      obtain ⟨b, hb⟩ := Option.isSome_iff_exists.mp (hfull id (hallocated.mp hin))
      rw [hb, h.refines.look hb]
    · rename_i hout
      exact (h.sound.unallocated id fun hin => hout (hallocated.mpr hin)).symm
  unfold Pool.plain
  rw [h.count, h.free, hbody]

/-- The root that the pool writes into its header is no part of what it serves. -/
theorem Pool.Serves.setCatalogRoot {q : Pool Bytes} {s : Store Bytes} (h : q.Serves s)
    (root : UInt32) : (poolSetCatalogRoot root q).Serves s :=
  ⟨⟨h.refines.directory, h.refines.sound, h.refines.absent, h.refines.unallocated,
    h.refines.owedResident, h.refines.freeInRange, h.refines.freeNodup⟩, h.count, h.free,
    h.freeAbsent⟩

/-- The header after a replay is that of the last frame. -/
theorem replayFrames_header {file : DbFile Bytes} {frames : List (LogFrame Bytes)}
    {last : LogFrame Bytes} (hlast : frames.getLast? = some last) (hhead : PageHead file.head)
    (hlong : PAGE_SIZE ≤ file.head.length) (hcount : last.pageCount < 2 ^ 32) :
    readHeader (replayFrames file frames).head =
      .ok { version := SAVE_VERSION, pageTotal := last.pageCount, catalog := last.catalogRoot } := by
  have hpages := foldl_writePage_head
  have hsize : PAGE_SIZE = 8192 := rfl
  have hcurrent : CurrentHead file.head := ⟨by omega, hhead.2⟩
  unfold replayFrames
  simp only [hlast, hpages]
  rw [if_pos hlong]
  show readHeader (overwrite (frames.foldl _ file).head 12 _) = _
  rw [hpages]
  exact readHeader_writeFields hcurrent hcount

/-- The frames of a commit carry its page count and its root. -/
theorem commitFrames_fields {α : Type} [PageBody α] (pages : Nat) (root : UInt32)
    {frames : List (Frame α)} {frame : LogFrame α} (h : frame ∈ commitFrames pages root frames) :
    frame.pageCount = pages ∧ frame.catalogRoot = root := by
  induction frames with
  | nil => exact absurd h (by simp [commitFrames])
  | cons f rest ih =>
    unfold commitFrames at h
    split at h
    · rcases List.mem_cons.mp h with rfl | hin
      · exact ⟨rfl, rfl⟩
      · exact ih hin
    · exact ih h

/-- Frames behind the last marker take nothing from the committed ones. -/
theorem committedFrames_append {log : List (LogFrame Bytes)} {frame : LogFrame Bytes}
    (h : frame ∈ committedFrames log) (tail : List (LogFrame Bytes)) :
    frame ∈ committedFrames (log ++ tail) := by
  unfold committedFrames at h ⊢
  rw [List.reverse_append, List.dropWhile_append]
  have hin := List.mem_reverse.mp h
  refine List.mem_reverse.mpr ?_
  split
  · exact hin
  · exact List.mem_append_right _ ((List.dropWhile_suffix _).subset hin)

/-- Frames written to the log leave no page behind. -/
theorem appended_covered {p : Pool Bytes} {log : List (LogFrame Bytes)} (h : p.Covered)
    (hwal : p.wal = some log) (n stamped : Nat) : (p.appended log n stamped).Covered := by
  rintro id ⟨g, hg, hlogs⟩
  have hold : p.Logs id := by
    obtain ⟨i, hi⟩ := List.mem_iff_getElem?.mp hg
    rcases stampFirst_frame stamped p.frames i with heq | heq
    · exact ⟨g, List.mem_of_getElem? (heq.symm.trans hi), hlogs⟩
    · obtain ⟨f, hf, rfl⟩ := Option.map_eq_some_iff.mp (heq.symm.trans hi)
      exact ⟨f, List.mem_of_getElem? hf, hlogs⟩
  obtain ⟨log', hlog', frame, hframe, hid⟩ := h id hold
  obtain rfl : log = log' := Option.some.inj (hwal.symm.trans hlog')
  exact ⟨_, rfl, frame, committedFrames_append hframe _, hid⟩

/-- A session with an open log: its pool is in order, the catalog is on a chain of its own, the
pages of tables and indexes are in use, and each page waits for the log or is what file and log
make of it. -/
structure Session.Orderly (s : Session) (inode : Nat) (log : List (LogFrame Bytes))
    (ids : List Nat) (parts : List (List UInt8)) : Prop where
  wal : s.pool.wal = some log
  pageFile : s.pool.pageFile = some inode
  serves : s.pool.Serves s.pool.plain
  full : s.pool.plain.Full
  chain : Chain s.pool.plain.body s.catalogRoot ids parts
  nodup : ids.Nodup
  apart : ∀ id, s.Uses id → s.pool.plain.Allocated id ∧ id ∉ ids
  kept : s.pool.KeptBy (replayFrames (s.pool.files inode) log).holds s.pool.plain
  backed : s.Backed
  head : PAGE_SIZE ≤ (s.pool.files inode).head.length

/-- A commit that succeeds and reaches the log. -/
structure Session.Commits (t u : Session) : Prop where
  succeeds : commitDatabase t = (.ok (), u)
  logs : ∃ log more, t.pool.wal = some log ∧ u.pool.wal = some (log ++ more) ∧ more ≠ []

/-- The file of a session after a crash and the replay of its log. -/
def Session.crashed (u : Session) (inode : Nat) : DbFile Bytes :=
  (walRecover u.walDatabase (afterCrash u)).2.pool.files inode

/-- Page ids have room for the catalog `n` times over. -/
def Session.Room (s : Session) (n : Nat) : Prop :=
  s.pool.pageCount + n * ((saveCatalog s.engine).length / CATALOG_PAYLOAD + 1) ≤ 2 ^ 31

/-- The writer of the catalog. -/
def Session.cataloguer (s : Session) : PageM Bytes (Except ErrorCode UInt32) :=
  writeCatalogChain (saveCatalog s.engine) s.catalogRoot

/-- A commit has nothing to do, or puts the catalog into its pages and everything into the log. -/
theorem commitDatabase_cases {s u : Session} (h : commitDatabase s = (.ok (), u)) :
    u = s ∨ ∃ root, (s.pages s.cataloguer).1 = .ok root ∧
      u = { (s.pages s.cataloguer).2 with
        catalogRoot := root
        pool := poolCommit (poolSetCatalogRoot root (s.pages s.cataloguer).2.pool)
        schemaChanged := false } := by
  have hlogs : ∀ (r : Except ErrorCode UInt32 × Session),
      andThen r (fun root s =>
        (.ok (), { s with
          catalogRoot := root
          pool := poolCommit (poolSetCatalogRoot root s.pool)
          schemaChanged := false })) = (Except.ok (), u) →
      ∃ root, r.1 = .ok root ∧ u = { r.2 with
        catalogRoot := root
        pool := poolCommit (poolSetCatalogRoot root r.2.pool)
        schemaChanged := false } := by
    rintro ⟨_ | root, v⟩ hrun
    · exact absurd (congrArg Prod.fst hrun) (by simp [andThen])
    · exact ⟨root, rfl, (congrArg Prod.snd hrun).symm⟩
  unfold commitDatabase at h
  split at h
  · exact Or.inl (congrArg Prod.snd h).symm
  · exact Or.inr (hlogs _ h)

namespace Session.Orderly

variable {s : Session} {inode : Nat} {log : List (LogFrame Bytes)} {ids : List Nat}
  {parts : List (List UInt8)}

/-- The pages that are not the catalog's. -/
def Others (s : Session) (ids : List Nat) (id : Nat) : Prop :=
  s.pool.plain.Allocated id ∧ id ∉ ids

instance (s : Session) (ids : List Nat) : DecidablePred (Others s ids) := fun _ =>
  inferInstanceAs (Decidable ((_ ∧ _) ∧ _))

/-- What the writer of the catalog has made of the pool, all the way or in part: a chain at
`root`, the other pages as they were, and each page waiting or laid down. -/
structure Written (s : Session) (ids : List Nat) (laid : Nat → Option Bytes) (q : Pool Bytes)
    (root : UInt32) (ids' : List Nat) (parts' : List (List UInt8)) : Prop where
  serves : q.Serves q.plain
  full : q.plain.Full
  kept : q.KeptBy laid q.plain
  chain : Chain q.plain.body root ids' parts'
  nodup : ids'.Nodup
  spares : s.pool.plain.Spares (Others s ids) q.plain
  apart : ∀ id ∈ ids', ¬Others s ids id
  count : q.plain.count ≤
    s.pool.plain.count + ((saveCatalog s.engine).length / CATALOG_PAYLOAD + 1)

/-- The writer needs to know the pages of the old chain alone. -/
theorem hidden (h : s.Orderly inode log ids parts) :
    Chain (s.pool.plain.hide (Others s ids)).body s.catalogRoot ids parts :=
  h.chain.congr fun _ hid => Store.hide_body fun hother => hother.2 hid

/-- A program that need not know the other pages leaves them alone, and the pool in order. -/
theorem runs {γ : Type} {x : PageM Bytes γ} {Q : γ → Store Bytes → Prop}
    (h : s.Orderly inode log ids parts)
    (hx : x.wp zeroPage Q (s.pool.plain.hide (Others s ids))) :
    Q (s.pages x).1 ((s.pages x).2.pool.plain.hide (Others s ids)) ∧
      (s.pages x).2.pool.Serves (s.pages x).2.pool.plain ∧ (s.pages x).2.pool.plain.Full ∧
      (s.pages x).2.pool.KeptBy (replayFrames (s.pool.files inode) log).holds
        (s.pages x).2.pool.plain ∧
      s.pool.plain.Spares (Others s ids) (s.pages x).2.pool.plain := by
  have hsound := h.serves.sound
  have hwp := PageM.wp_sound (PageM.wp_hide hsound (fun _ hid => hid.1) hx) hsound
  obtain ⟨S, ⟨⟨hQ, hspares⟩, -, hfull⟩, hserves, hkept⟩ := h.serves.kept h.kept hwp
  obtain rfl : (onPool x s.pool).2.plain = S := hserves.plain_eq (hfull h.full)
  exact ⟨hQ, hserves, hfull h.full, hkept, hspares⟩

/-- There is room for the pages of the catalog. -/
theorem counts (hroom : s.Room 1) :
    s.pool.plain.count + ((saveCatalog s.engine).length / CATALOG_PAYLOAD + 1) ≤ 2 ^ 31 := by
  unfold Session.Room at hroom
  rw [Nat.one_mul] at hroom
  exact hroom

/-- A chain that does not know the other pages is apart from them. -/
theorem known {S : Store Bytes} {root : UInt32} {ids' : List Nat} {parts' : List (List UInt8)}
    (hchain : Chain (S.hide (Others s ids)).body root ids' parts') :
    Chain S.body root ids' parts' ∧ ∀ id ∈ ids', ¬Others s ids id := by
  have hknown : ∀ id ∈ ids', ¬Others s ids id := fun id hid =>
    Store.hide_isSome (hchain.isSome id hid)
  exact ⟨hchain.congr fun id hid => (Store.hide_body (hknown id hid)).symm, hknown⟩

/-- The catalog is in its pages. -/
theorem catalogued (h : s.Orderly inode log ids parts) (hroom : s.Room 1) :
    ∃ root ids' parts', (s.pages s.cataloguer).1 = .ok root ∧
      parts'.flatten = saveCatalog s.engine ∧
      Written s ids (replayFrames (s.pool.files inode) log).holds (s.pages s.cataloguer).2.pool
        root ids' parts' := by
  have hwp := writeCatalogChain_spec (saveCatalog s.engine)
    (h.serves.sound.hide (F := Others s ids)) h.hidden h.nodup (counts hroom)
  obtain ⟨⟨root, ids', parts', hanswer, -, hchain, hblob, hmoves, -, hbound⟩, hserves, hfull, hkept,
    hspares⟩ := h.runs (x := s.cataloguer) hwp
  obtain ⟨hchain, hapart⟩ := known hchain
  rw [Store.hide_count, Store.hide_count] at hbound
  exact ⟨root, ids', parts', hanswer, hblob, hserves, hfull, hkept, hchain, hmoves.nodup, hspares,
    hapart, hbound⟩

/-- The writer of the catalog has stopped halfway. -/
theorem halfway (h : s.Orderly inode log ids parts) (hroom : s.Room 1) (n : Nat) :
    ∃ ids' parts',
      Written s ids (replayFrames (s.pool.files inode) log).holds
        (s.pages (firstAccesses n s.cataloguer)).2.pool s.catalogRoot ids' parts' := by
  have hsound := h.serves.sound.hide (F := Others s ids)
  have hwhole := writeCatalogChain_spec (saveCatalog s.engine) hsound h.hidden h.nodup
    (counts hroom)
  have hintact := writeCatalogChain_intact (saveCatalog s.engine) hsound h.hidden h.nodup
    (counts hroom)
  obtain ⟨_, _, _, -, -, -, -, -, -, hbound⟩ := PageM.wp_run hwhole
  have hgrown := PageM.during_mono PageM.during_count fun t (ht : t.count ≤ _) =>
    Nat.le_trans ht hbound
  obtain ⟨⟨⟨ids', parts', hchain, hnodup⟩, hcount⟩, hserves, hfull, hkept, hspares⟩ :=
    h.runs (firstAccesses_wp (x := s.cataloguer) hwhole (PageM.during_and hintact hgrown) n)
  obtain ⟨hchain, hapart⟩ := known hchain
  rw [Store.hide_count, Store.hide_count] at hcount
  exact ⟨ids', parts', hserves, hfull, hkept, hchain, hnodup, hspares, hapart, hcount⟩

/-- Pages that were written early change nothing of file and log together. -/
theorem laid (h : s.Orderly inode log ids parts) {q : Pool Bytes} (hpool : s.pool.WritesBack q) :
    replayFrames (q.files inode) log = replayFrames (s.pool.files inode) log := by
  obtain ⟨writes, hwrites, hfile⟩ := hpool.file inode h.pageFile
  rw [hfile]
  refine replayFrames_covered fun write hin => ?_
  obtain ⟨log', hlog', frame, hframe, hid⟩ := h.backed.covered _ (hwrites write hin)
  obtain rfl : log = log' := Option.some.inj (h.wal.symm.trans hlog')
  exact ⟨frame, committedFrames_subset hframe, hid⟩

/-- Pages that are written back leave the header. -/
theorem head_kept (h : s.Orderly inode log ids parts) {q : Pool Bytes}
    (hpool : s.pool.WritesBack q) : (q.files inode).head = (s.pool.files inode).head := by
  obtain ⟨writes, -, hfile⟩ := hpool.file inode h.pageFile
  rw [hfile, DbFile.withPages_head]

/-- A session in which statements see what they saw, whose catalog has another chain. -/
theorem moved (h : s.Orderly inode log ids parts) {t : Session} (hengine : t.engine = s.engine)
    (hspares : s.pool.plain.Spares (Others s ids) t.pool.plain) :
    (∀ id, t.Uses id ↔ s.Uses id) ∧ ∀ b, t.Shows b ↔ s.Shows b := by
  have hpages : ∀ id, s.Uses id → t.pool.contents.body id = s.pool.contents.body id :=
    fun id hid => (hspares id (h.apart id hid)).2
  have huses := Session.Uses.congr (congrArg Engine.databases hengine) hpages
  refine ⟨huses, fun b => ⟨fun hb => ?_, fun hb => ?_⟩⟩
  · refine ⟨hengine ▸ hb.catalog, fun id hid => ?_⟩
    have ht := (Session.Uses.congr hb.catalog.1.symm hb.pages id).mpr hid
    exact (hpages id ((huses id).mp ht)).symm.trans (hb.pages id hid)
  · refine ⟨hengine.symm ▸ hb.catalog, fun id hid => ?_⟩
    have hs := (Session.Uses.congr hb.catalog.1.symm hb.pages id).mpr hid
    exact (hpages id hs).trans (hb.pages id hid)

/-- The session whose pool the writer of the catalog has left is in order, with the chain that it
left. -/
theorem written (h : s.Orderly inode log ids parts) {γ : Type} (x : PageM Bytes γ)
    {root page : UInt32} {ids' : List Nat} {parts' : List (List UInt8)}
    (hwritten : Written s ids (replayFrames (s.pool.files inode) log).holds (s.pages x).2.pool
      root ids' parts') {t : Session}
    (ht : t = { (s.pages x).2 with
      catalogRoot := root, pool := poolSetCatalogRoot page (s.pages x).2.pool }) :
    t.Orderly inode log ids' parts' ∧ s.pool.plain.Spares (Others s ids) t.pool.plain := by
  have honly := pages_poolOnly s x
  have hbacked := h.backed.pages x
  have hengine : (s.pages x).2.engine = s.engine := rfl
  generalize (s.pages x).2 = v at hwritten honly hbacked hengine ht
  have hserves := hwritten.serves.setCatalogRoot page
  have hplain := hserves.plain_eq hwritten.full
  have hpool : t.pool = poolSetCatalogRoot page v.pool := by rw [ht]
  rw [← hpool] at hserves hplain
  have hspares : s.pool.plain.Spares (Others s ids) t.pool.plain := hplain ▸ hwritten.spares
  obtain ⟨huses, -⟩ := h.moved (by rw [ht]; exact hengine) hspares
  have hroot : t.catalogRoot = root := by rw [ht]
  have hfiles : t.pool.files inode = v.pool.files inode := by rw [hpool]; rfl
  refine ⟨⟨?_, ?_, hplain.symm ▸ hserves, hplain.symm ▸ hwritten.full, ?_, hwritten.nodup,
    fun id hid => ?_, ?_, ?_, ?_⟩, hspares⟩
  · rw [hpool]
    exact honly.pool.wal.trans h.wal
  · rw [hpool]
    exact honly.pool.pageFile.trans h.pageFile
  · rw [hplain, hroot]
    exact hwritten.chain
  · have hold := h.apart id ((huses id).mp hid)
    exact ⟨(hspares id hold).1, fun hin => hwritten.apart id hin hold⟩
  · rw [hplain, hfiles, h.laid honly.pool, hpool]
    exact hwritten.kept
  · rw [ht]
    exact (hbacked.setPool (q := poolSetCatalogRoot page v.pool) hbacked.covered
      (fun _ => ⟨rfl, rfl, fun _ hhead => hhead⟩) (fun hopen => hopen)).writesBack (.refl _)
      ⟨rfl, rfl, rfl⟩ ⟨rfl, rfl⟩
  · rw [hfiles, h.head_kept honly.pool]
    exact h.head

/-- A commit that stops in the middle leaves the session in order, with a longer log. -/
theorem appended (h : s.Orderly inode log ids parts) (n stamped : Nat) {t : Session}
    (ht : t = { s with pool := s.pool.appended log n stamped }) :
    t.Orderly inode
        (log ++ (commitFrames s.pool.pageCount s.pool.catalogRootPage s.pool.frames).take n) ids
        parts ∧
      ∀ b, t.Shows b ↔ s.Shows b := by
  have hserves := h.serves.appended log n stamped
  have hplain := hserves.plain_eq h.full
  have hspares : s.pool.plain.Spares (Others s ids) (s.pool.appended log n stamped).plain :=
    hplain.symm ▸ .refl fun _ hid => hid.1
  subst ht
  obtain ⟨huses, hshows⟩ := h.moved (t := { s with pool := s.pool.appended log n stamped }) rfl hspares
  refine ⟨⟨rfl, h.pageFile, hplain.symm ▸ hserves, hplain.symm ▸ h.full, ?_, h.nodup,
    fun id hid => ?_, ?_, ?_, h.head⟩, hshows⟩
  · show Chain (s.pool.appended log n stamped).plain.body s.catalogRoot ids parts
    rw [hplain]
    exact h.chain
  · show (s.pool.appended log n stamped).plain.Allocated id ∧ id ∉ ids
    rw [hplain]
    exact h.apart id ((huses id).mp hid)
  · have hkept := h.kept.appended n stamped
    rw [← hplain] at hkept
    exact hkept
  · exact h.backed.setPool (appended_covered h.backed.covered h.wal n stamped)
      (fun _ => ⟨rfl, rfl, fun _ hhead => hhead⟩) fun _ => by rw [h.wal]; rfl

/-- What recovery makes of the session's file when its log ends with a marker. -/
theorem crashed_eq (h : s.Orderly inode log ids parts) {u : Session} {more : List (LogFrame Bytes)}
    {last : LogFrame Bytes} (hfiles : u.pool.files = s.pool.files)
    (hsame : u.names = s.names ∧ u.canOpen = s.canOpen ∧ u.walDatabase = s.walDatabase)
    (hwal : u.pool.wal = some (log ++ more)) (hlast : (log ++ more).getLast? = some last)
    (hcommit : last.commit = true) :
    u.crashed inode = replayFrames (s.pool.files inode) (log ++ more) := by
  obtain ⟨hnames, hcan, hdatabase⟩ := hsame
  have hattached := h.backed.attached (by rw [walIsOpen, h.wal]; rfl)
  obtain ⟨inode', hfile, hopens, hhead⟩ := hattached.file
  obtain rfl : inode = inode' := Option.some.inj (h.pageFile.symm.trans hfile)
  have hopen : (afterCrash u).openFile u.walDatabase = some inode := by
    show (if u.canOpen u.walDatabase then u.names u.walDatabase else none) = _
    rw [hnames, hcan, hdatabase]
    exact hopens
  obtain ⟨files, logs, hrecover, hfound⟩ := walRecover_crash hopen
  have hlogs : (afterCrash u).logs u.walDatabase = some (log ++ more) := by
    unfold afterCrash
    simp only [hwal, if_true]
  unfold Session.crashed
  rw [hrecover]
  show files inode = _
  rw [hfound, hlogs, hfiles, DbFile.recovered, if_pos hhead, Option.getD_some,
    committedFrames_eq hlast hcommit]

/-- After a commit of the pool the file shows the session, if its chain holds its catalog. -/
theorem poolCommit_shown (h : s.Orderly inode log ids parts)
    (hblob : parts.flatten = saveCatalog s.engine) (hroot : s.pool.catalogRootPage = s.catalogRoot)
    (hcount : s.pool.pageCount < 2 ^ 32)
    (hsome : commitFrames s.pool.pageCount s.pool.catalogRootPage s.pool.frames ≠ []) {u : Session}
    (hu : u.pool = poolCommit s.pool)
    (hsame : u.names = s.names ∧ u.canOpen = s.canOpen ∧ u.walDatabase = s.walDatabase) :
    (u.crashed inode).Shows s := by
  generalize hmore : commitFrames s.pool.pageCount s.pool.catalogRootPage s.pool.frames = more at hsome
  obtain ⟨last, hlast⟩ := Option.isSome_iff_exists.mp
    (Option.isSome_iff_ne_none.mpr fun hnone => hsome (List.getLast?_eq_none_iff.mp hnone))
  have hin := List.mem_of_getLast? hlast
  rw [← hmore] at hin hlast
  have hcommit := commitFrames_last _ _ _ hlast
  obtain ⟨hpages, hpageRoot⟩ := commitFrames_fields _ _ hin
  rw [hmore] at hlast
  have hend : (log ++ more).getLast? = some last := by
    rw [List.getLast?_append, hlast]
    rfl
  have hpool : u.pool.files = s.pool.files ∧ u.pool.wal = some (log ++ more) := by
    rw [hu]
    unfold poolCommit
    simp only [h.wal, hmore]
    rw [if_neg (by simpa using hsome)]
    exact ⟨rfl, rfl⟩
  rw [h.crashed_eq hpool.1 hsame hpool.2 hend hcommit]
  have hattached := h.backed.attached (by rw [walIsOpen, h.wal]; rfl)
  obtain ⟨inode', hfile, -, hhead⟩ := hattached.file
  obtain rfl : inode = inode' := Option.some.inj (h.pageFile.symm.trans hfile)
  have hheader := replayFrames_header hend hhead h.head (hpages ▸ hcount)
  rw [hpages, hpageRoot, hroot] at hheader
  have hshown : ∀ id, s.pool.plain.Allocated id →
      (replayFrames (s.pool.files inode) (log ++ more)).visible s.pool.pageCount id
        = s.pool.plain.body id := by
    intro id hid
    obtain ⟨b, hb⟩ := Option.isSome_iff_exists.mp (h.full id hid)
    have hholds := poolCommit_shows h.serves h.kept hb
    rw [hmore] at hholds
    rw [hb, ← hholds]
    exact if_pos hid.1
  refine ⟨s.pool.pageCount, s.catalogRoot, ids, parts, hheader,
    h.chain.congr fun id hid => hshown id (h.serves.sound.allocated (h.chain.isSome id hid)), hblob,
    fun id hid => hshown id (h.apart id hid).1⟩

/-- A commit that reaches the log has put the catalog into its pages, and then the pool has
committed. -/
theorem commit_eq (h : s.Orderly inode log ids parts) (hroom : s.Room 1) {u : Session}
    (hu : s.Commits u) :
    ∃ (v : Session) (ids' : List Nat) (parts' : List (List UInt8)),
      v.Orderly inode log ids' parts' ∧ parts'.flatten = saveCatalog v.engine ∧
      v.pool.catalogRootPage = v.catalogRoot ∧ v.engine = s.engine ∧
      v.pool.checksums = s.pool.checksums ∧
      v.pool.pageCount ≤ s.pool.pageCount + ((saveCatalog s.engine).length / CATALOG_PAYLOAD + 1) ∧
      (∀ b, v.Shows b ↔ s.Shows b) ∧
      commitFrames v.pool.pageCount v.pool.catalogRootPage v.pool.frames ≠ [] ∧
      u = { v with pool := poolCommit v.pool, schemaChanged := false } := by
  obtain ⟨log', more, hlog', hgrown, hmore⟩ := hu.logs
  obtain rfl : log = log' := Option.some.inj (h.wal.symm.trans hlog')
  obtain ⟨root, ids', parts', hanswer, hblob, hwritten⟩ := h.catalogued hroom
  rcases commitDatabase_cases hu.succeeds with rfl | ⟨root', hroot, hrun⟩
  · have hnil := List.append_cancel_left ((Option.some.inj (hgrown.symm.trans h.wal)).trans
      (List.append_nil log).symm)
    exact absurd hnil hmore
  · obtain rfl : root' = root := Except.ok.inj (hroot.symm.trans hanswer)
    obtain ⟨hv, hspares⟩ := @Session.Orderly.written _ _ _ _ _ h _ s.cataloguer _ root' _ _ hwritten
      _ rfl
    have honly := pages_poolOnly s s.cataloguer
    have hbound := hwritten.count
    have hengine : (s.pages s.cataloguer).2.engine = s.engine := rfl
    generalize (s.pages s.cataloguer).2 = v at hv hspares honly hbound hengine hrun
    have hsome : commitFrames v.pool.pageCount root' v.pool.frames ≠ [] := by
      intro hnil
      refine hmore (@List.append_cancel_left _ log _ _ ?_)
      rw [List.append_nil, ← Option.some.injEq, ← hgrown]
      rw [hrun]
      show (poolCommit (poolSetCatalogRoot root' v.pool)).wal = some log
      unfold poolCommit
      rw [hv.wal]
      simp only [poolSetCatalogRoot, hnil, List.isEmpty_nil, if_true]
      exact honly.pool.wal.trans h.wal
    have hshows := (h.moved (t := { v with
      catalogRoot := root', pool := poolSetCatalogRoot root' v.pool }) hengine hspares).2
    refine ⟨{ v with catalogRoot := root', pool := poolSetCatalogRoot root' v.pool }, ids', parts',
      hv, ?_, rfl, hengine, honly.pool.checksums, hbound, hshows, hsome, hrun⟩
    rw [hblob, ← hengine]

/-- After a commit that reaches the log, a crash and the replay, the file shows what the session
held. -/
theorem commits (h : s.Orderly inode log ids parts) (hroom : s.Room 1) {u : Session}
    (hu : s.Commits u) : (u.crashed inode).Shows s := by
  obtain ⟨v, ids', parts', hv, hblob, hroot, -, -, hbound, hshows, hsome, hrun⟩ := h.commit_eq hroom hu
  have hcount : v.pool.pageCount < 2 ^ 32 := by
    have hlimit := counts hroom
    have hplain := Pool.plain_count s.pool
    omega
  refine (hv.poolCommit_shown (u := u) hblob hroot hcount hsome (by rw [hrun])
    (by rw [hrun]; exact ⟨rfl, rfl, rfl⟩)).of_shows ?_
  exact (hshows s).mpr ⟨⟨rfl, rfl⟩, fun _ _ => rfl⟩

end Session.Orderly

/-! ### Commits that fail -/

/-- A commit of the pool that fails has appended some frames and marked none. -/
theorem poolCommitUnder_fails {α : Type} [PageBody α] {fault : CommitFault} {p q : Pool α}
    {log : List (LogFrame α)} {code : ErrorCode} (hwal : p.wal = some log)
    (h : poolCommitUnder (some fault) p = (.error code, q)) :
    ∃ n stamped, q = p.appended log n stamped := by
  unfold poolCommitUnder at h
  rw [hwal] at h
  dsimp only at h
  split at h
  · exact absurd (congrArg Prod.fst h) (by simp)
  · cases fault with
    | catalog accesses => exact absurd (congrArg Prod.fst h) (by simp)
    | append whole part =>
      dsimp only at h
      split at h
      · exact ⟨_, _, (congrArg Prod.snd h).symm⟩
      · exact absurd (congrArg Prod.fst h) (by simp)
    | sync => exact ⟨_, _, (congrArg Prod.snd h).symm⟩

/-- The part of a commit behind its catalog. -/
theorem andThen_commit_fails {fault : CommitFault} {t : Session} {code : ErrorCode}
    (r : Except ErrorCode UInt32 × Session)
    (h : andThen r (fun root s =>
        let (r, pool) := poolCommitUnder (some fault) (poolSetCatalogRoot root s.pool)
        let s := { s with catalogRoot := root, pool := pool }
        match r with
        | .error code => (.error code, s)
        | .ok () => (.ok (), { s with schemaChanged := false })) = (.error code, t)) :
    (∃ code, r.1 = .error code) ∨
    ∃ root q code, r.1 = .ok root ∧
      poolCommitUnder (some fault) (poolSetCatalogRoot root r.2.pool) = (.error code, q) ∧
      t = { r.2 with catalogRoot := root, pool := q } := by
  obtain ⟨_ | root, v⟩ := r
  · exact Or.inl ⟨_, rfl⟩
  · unfold andThen at h
    dsimp only at h
    split at h
    · rename_i other hanswer
      exact Or.inr ⟨root, _, other, rfl, Prod.ext hanswer rfl, (congrArg Prod.snd h).symm⟩
    · exact absurd (congrArg Prod.fst h) (by simp)

/-- Where a commit has failed: in the catalog, or behind it in the log. -/
theorem commitDatabaseUnder_cases {fault : CommitFault} {s t : Session} {code : ErrorCode}
    (h : commitDatabaseUnder (some fault) s = (.error code, t)) :
    (∃ accesses, t = (s.pages (firstAccesses accesses s.cataloguer)).2) ∨
    (∃ code, (s.pages s.cataloguer).1 = .error code) ∨
    ∃ root q code, (s.pages s.cataloguer).1 = .ok root ∧
      poolCommitUnder (some fault) (poolSetCatalogRoot root (s.pages s.cataloguer).2.pool)
        = (.error code, q) ∧
      t = { (s.pages s.cataloguer).2 with catalogRoot := root, pool := q } := by
  unfold commitDatabaseUnder at h
  split at h
  · exact absurd (congrArg Prod.fst h) (by simp)
  · cases fault with
    | catalog accesses => exact Or.inl ⟨accesses, (congrArg Prod.snd h).symm⟩
    | append whole part => exact Or.inr (andThen_commit_fails _ h)
    | sync => exact Or.inr (andThen_commit_fails _ h)

/-- A commit that fails leaves the session in order, and statements see what they saw when it
began. -/
theorem commitDatabaseUnder_fails {fault : CommitFault} {s t : Session} {code : ErrorCode}
    {inode : Nat} {log : List (LogFrame Bytes)} {ids : List Nat} {parts : List (List UInt8)}
    (h : s.Orderly inode log ids parts) (hroom : s.Room 2)
    (hfail : commitDatabaseUnder (some fault) s = (.error code, t)) :
    ∃ log' ids' parts', t.Orderly inode log' ids' parts' ∧ t.Room 1 ∧
      ∀ b, t.Shows b ↔ s.Shows b := by
  have hroom' : s.Room 1 := by unfold Session.Room at hroom ⊢; omega
  have hleft : ∀ {v : Session}, v.engine = s.engine →
      v.pool.pageCount ≤ s.pool.pageCount + ((saveCatalog s.engine).length / CATALOG_PAYLOAD + 1) →
      v.Room 1 := by
    intro v hengine hcount
    unfold Session.Room at hroom ⊢
    rw [hengine]
    omega
  rcases commitDatabaseUnder_cases hfail with ⟨accesses, ht⟩ | ⟨code, hcode⟩ |
    ⟨root, q, code, hanswer, hcommit, ht⟩
  · obtain ⟨ids', parts', hwritten⟩ := h.halfway hroom' accesses
    have hsame : t = { (s.pages (firstAccesses accesses s.cataloguer)).2 with
        catalogRoot := s.catalogRoot
        pool := poolSetCatalogRoot
          (s.pages (firstAccesses accesses s.cataloguer)).2.pool.catalogRootPage
          (s.pages (firstAccesses accesses s.cataloguer)).2.pool } := ht
    have hengine : t.engine = s.engine := by rw [ht]; rfl
    have hcount := hwritten.count
    rw [← ht] at hcount
    obtain ⟨horder, hspares⟩ := h.written _ hwritten hsame
    exact ⟨log, ids', parts', horder, hleft hengine hcount, (h.moved hengine hspares).2⟩
  · obtain ⟨root, ids', parts', hanswer, -⟩ := h.catalogued hroom'
    rw [hanswer] at hcode
    exact absurd hcode (by simp)
  · obtain ⟨root', ids', parts', hanswer', -, hwritten⟩ := h.catalogued hroom'
    obtain rfl : root' = root := Except.ok.inj (hanswer'.symm.trans hanswer)
    have hcount := hwritten.count
    obtain ⟨v, hv⟩ : ∃ v, v = { (s.pages s.cataloguer).2 with
        catalogRoot := root'
        pool := poolSetCatalogRoot root' (s.pages s.cataloguer).2.pool } := ⟨_, rfl⟩
    have hengine : v.engine = s.engine := by rw [hv]; rfl
    obtain ⟨horder, hspares⟩ := h.written s.cataloguer hwritten hv
    have hpool : v.pool = poolSetCatalogRoot root' (s.pages s.cataloguer).2.pool := by rw [hv]
    rw [← hpool] at hcommit
    obtain ⟨n, stamped, rfl⟩ := poolCommitUnder_fails horder.wal hcommit
    have htv : t = { v with pool := v.pool.appended log n stamped } := by rw [ht, hv]
    obtain ⟨horder', hshows⟩ := horder.appended n stamped htv
    refine ⟨_, ids', parts', horder', hleft ?_ ?_, fun b => (hshows b).trans ?_⟩
    · rw [htv]
      exact hengine
    · rw [htv]
      show v.pool.pageCount ≤ _
      rw [hpool]
      exact hcount
    · exact (h.moved hengine hspares).2 b

/-! ### Failed statements -/

/-- The session in which a statement enters `commitDatabase`. -/
def Session.committing (statement : Statement) (s : Session) : Option Session :=
  match semanticCheck s.engine statement with
  | .error _ => none
  | .ok checked =>
    match executeStatement checked s with
    | (.error _, _) => none
    | (.ok (), t) =>
      if t.pool.corrupt ≠ s.pool.corrupt then none
      else
        let t := if changesSchema checked.kind then { t with schemaChanged := true } else t
        if !(!s.transactionOpen && readsOnly statement.kind) && !t.transactionOpen then some t
        else none

/-- A statement that gets there answers what `commitDatabase` answers. -/
theorem processStatementUnder_committing {statement : Statement} {s e : Session}
    (h : s.committing statement = some e) {fault : Option Fault}
    (hbegin : Fault.inBegin fault = none) :
    processStatementUnder fault statement s = commitDatabaseUnder (Fault.inCommit fault) e := by
  unfold Session.committing at h
  unfold processStatementUnder runLocked andThen
  cases hcheck : semanticCheck s.engine statement with
  | error code =>
    rw [hcheck] at h
    exact absurd h (by simp)
  | ok checked =>
    rw [hcheck] at h
    dsimp only at h ⊢
    rw [hbegin, executeStatementUnder_none]
    generalize executeStatement checked s = r at h ⊢
    obtain ⟨_ | _, t⟩ := r
    · exact absurd h (by simp)
    · dsimp only at h ⊢
      split at h
      · exact absurd h (by simp)
      · rename_i hintact
        rw [if_neg hintact]
        generalize (if changesSchema checked.kind then { t with schemaChanged := true } else t) = v
          at h ⊢
        split at h
        · rename_i hcommits
          rw [if_pos hcommits, Option.some.inj h]
        · exact absurd h (by simp)

/-- A statement that commits is a commit of what it has made. -/
theorem processStatement_committing {statement : Statement} {s e : Session}
    (h : s.committing statement = some e) : processStatement statement s = commitDatabase e := by
  rw [← processStatementUnder_none, processStatementUnder_committing h rfl]
  exact commitDatabaseUnder_none e

/-- A commit that failed goes unnoticed: later statements see what they saw in `b`; so does an
opening after a crash behind the next commit; and after any later statements, a statement whose
commit succeeds is in what a crash leaves. -/
structure LoggedSession.Unnoticed (t : LoggedSession) (b : Session) (inode : Nat) : Prop where
  seen : t.session.Shows b
  saved : ∀ u, t.session.Commits u →
    ((LoggedSession.readable { session := u, tear := t.tear }).crashed inode).Shows b
  later : ∀ (statements : List Statement) (last : Statement) (e u : Session),
    (run LoggedSession.process t statements).session.committing last = some e →
    (∃ log ids parts, e.Orderly inode log ids parts) → e.Room 1 → e.Commits u →
    ((LoggedSession.readable
      { session := u, tear := (run LoggedSession.process t statements).tear }).crashed inode).Shows e

/-- A commit that failed leaves the session. -/
theorem LoggedSession.failed_session (fault : CommitFault) (s : Session) :
    (LoggedSession.failed fault s).session = s := rfl

/-- No later statement tears the log. -/
theorem LoggedSession.run_whole (statements : List Statement) {t : LoggedSession}
    (h : t.tear = none) : (run LoggedSession.process t statements).tear = none := by
  induction statements generalizing t with
  | nil => exact h
  | cons statement rest ih =>
    refine ih ?_
    unfold LoggedSession.process
    dsimp only
    split
    · rfl
    · exact h

/-- A log without a tear is read to its end. -/
theorem LoggedSession.readable_whole {u : Session} {tear : Option Nat} (h : tear = none) :
    ({ session := u, tear := tear } : LoggedSession).readable = u := by
  rw [h]
  rfl

/-- A file that an earlier process has closed. -/
def savedDisk : Session := afterCrash (closeDatabase (openSession somePath emptyDisk))

/-- The session that opens it. -/
def reopened : Session := openSession somePath savedDisk

/-- The engine after a program that asks for no page. -/
def Session.settledBy (s : Session) (x : Step Engine Unit) : Option Engine :=
  match settled (x s.engine) with
  | some (.ok (), e) => some e
  | _ => none

/-- A program that asks for nothing is its answer. -/
theorem settled_eq {α : Type} {x : PageM Bytes α} {a : α} (h : settled x = some a) :
    x = .pure a := by
  cases x <;> simp_all [settled]

/-- A step that asks for no page changes the engine alone. -/
theorem Session.engineStep_settled {s : Session} {x : Step Engine Unit} {e : Engine}
    (h : s.settledBy x = some e) : s.engineStep x = (.ok (), { s with engine := e }) := by
  unfold Session.settledBy at h
  split at h
  · rename_i e' hsettled
    obtain rfl := Option.some.inj h
    unfold Session.engineStep
    rw [settled_eq hsettled]
    rfl
  · exact absurd h (by simp)

/-- The session of the example is backed. -/
theorem reopened_backed : reopened.Backed :=
  openSession_backed (openSession_backed emptyDisk_starts somePath).closeDatabase.1.starts somePath

/-- The file of the example, as it lies on the disk. -/
theorem savedDisk_file :
    savedDisk.logs somePath = none ∧ walIsOpen savedDisk = false ∧
      savedDisk.openFile somePath = some 0 ∧ CurrentHead (savedDisk.pool.files 0).head ∧
      readHeader (savedDisk.pool.files 0).head =
        .ok { version := SAVE_VERSION, pageTotal := 1, catalog := 0 } ∧
      (storedCatalog savedDisk.memory 0 (openedPool 0 1 savedDisk.pool)).isSome = true ∧
      PAGE_SIZE ≤ (savedDisk.pool.files 0).head.length := by
  decide +kernel

/-- The session of the example has opened it. -/
theorem reopened_opened : savedDisk.Opened reopened somePath 0 1 0 := by
  obtain ⟨hlogs, hwal, hopens, hhead, hfields, hsome, -⟩ := savedDisk_file
  obtain ⟨e, he⟩ := Option.isSome_iff_exists.mp hsome
  exact (openSession_opened (by decide) hlogs hwal hopens hhead hfields he).2

/-- A clean pool holds what lies in its file. -/
theorem Pool.Mirrors.keptBy {p : Pool Bytes} (h : p.Mirrors fun _ => True) {s : Store Bytes}
    (hserves : p.Serves s) {inode : Nat} (hfile : p.pageFile = some inode)
    (hchecksums : p.checksums = true) :
    p.KeptBy (replayFrames (p.files inode) []).holds s := by
  intro id b hb
  have hsupplied : p.supplies id = some b := by
    cases hres : p.pageFrame id with
    | none => exact hserves.refines.absent id b hres hb
    | some i =>
      obtain ⟨f, hf, hid⟩ := hserves.refines.frame_of_resident hres
      exact (hserves.refines.sound i f hf id hid).supplied (h.clean i f hf (by simp [hid])) rfl b hb
  refine Or.inr ?_
  rw [← hsupplied]
  simp only [Pool.supplies, Pool.fetch, hfile, hchecksums, Bool.not_true, Bool.false_or]
  rfl

/-- The session in which CREATE TABLE enters `commitDatabase`, when its engine is `e`. -/
def Session.creating (s : Session) (e : Engine) : Session :=
  { s with engine := e, schemaChanged := true }

/-- To create a table in the catalog leaves the pool. -/
theorem Session.creating_pool (s : Session) (e : Engine) : (s.creating e).pool = s.pool := rfl

/-- To create a table in the catalog keeps the session backed. -/
theorem Session.Backed.creating {s : Session} (h : s.Backed) (e : Engine) :
    (s.creating e).Backed :=
  h.writesBack (.refl s.pool) ⟨rfl, rfl, rfl⟩ ⟨rfl, rfl⟩

/-- The engine that CREATE TABLE leaves, when it asks for no page. -/
def Session.createsTo (statement : Statement) (s : Session) : Option Engine :=
  match semanticCheck s.engine statement with
  | .error _ => none
  | .ok checked =>
    match checked.kind with
    | .STMT_CREATE_TABLE node =>
      (s.settledBy (materialiseSubqueries checked.subqueries)).bind fun e =>
        ({ s with engine := e } : Session).settledBy (executeKind (.STMT_CREATE_TABLE node))
    | _ => none

/-- Outside a transaction a CREATE TABLE commits what it has made. -/
theorem Session.committing_createsTo {statement : Statement} {s : Session} {e : Engine}
    (h : s.createsTo statement = some e) (hopen : s.transactionOpen = false)
    (hwrites : readsOnly statement.kind = false) :
    s.committing statement = some (s.creating e) := by
  unfold Session.createsTo at h
  unfold Session.committing
  cases hcheck : semanticCheck s.engine statement with
  | error code =>
    rw [hcheck] at h
    exact absurd h (by simp)
  | ok checked =>
    rw [hcheck] at h
    dsimp only at h ⊢
    split at h
    · rename_i node hkind
      obtain ⟨e₁, hfirst, hsecond⟩ := Option.bind_eq_some_iff.mp h
      have hrun : executeStatement checked s = (.ok (), { s with engine := e }) := by
        unfold executeStatement andThen
        rw [Session.engineStep_settled hfirst, hkind]
        exact Session.engineStep_settled hsecond
      rw [hrun, hkind]
      simp [changesSchema, hopen, hwrites, Session.creating]
    · exact absurd h (by simp)

/-- The session of the example is in no transaction, and its log and its tables are empty; it has
its catalog in one page, and room for the catalog with another table. -/
theorem reopened_runs :
    reopened.transactionOpen = false ∧
      ((reopened.createsTo createPair).any fun e =>
        (e.databases.flatMap fun db => db.heaps.flatMap fun heap =>
          heap.pages.map Prod.fst).isEmpty &&
        (e.databases.all fun db => db.indexes.isEmpty) &&
        decide (1 + 2 * ((saveCatalog e).length / CATALOG_PAYLOAD + 1) ≤ 2 ^ 31)) = true ∧
      reopened.pool.wal.map List.isEmpty = some true ∧
      ((reopened.pool.plain.body 0).map fun page => u32At page 0) = some INVALID_CATALOG ∧
      reopened.heapPageIds.isEmpty = true ∧
      (reopened.engine.databases.all fun db => db.indexes.isEmpty) = true := by
  decide +kernel

/-- The CREATE TABLE of the example. -/
theorem reopened_creates : ∃ e, reopened.committing createPair = some (reopened.creating e) ∧
    (reopened.creating e).heapPageIds = [] ∧ (e.databases.all fun db => db.indexes.isEmpty) = true ∧
    (reopened.creating e).Room 2 := by
  obtain ⟨houtside, hrun, -⟩ := reopened_runs
  obtain ⟨e, he, hall⟩ : ∃ e, reopened.createsTo createPair = some e ∧
      ((e.databases.flatMap fun db => db.heaps.flatMap fun heap => heap.pages.map Prod.fst).isEmpty &&
        (e.databases.all fun db => db.indexes.isEmpty) &&
        decide (1 + 2 * ((saveCatalog e).length / CATALOG_PAYLOAD + 1) ≤ 2 ^ 31)) = true := by
    cases hcreated : reopened.createsTo createPair with
    | none =>
      rw [hcreated] at hrun
      exact absurd hrun (by simp)
    | some e =>
      rw [hcreated] at hrun
      exact ⟨e, rfl, hrun⟩
  simp only [Bool.and_eq_true, decide_eq_true_eq, List.isEmpty_iff] at hall
  have hwrites : readsOnly createPair.kind = false := rfl
  have hcommits := Session.committing_createsTo he houtside hwrites
  refine ⟨e, hcommits, hall.1.1, hall.1.2, ?_⟩
  unfold Session.Room
  rw [Session.creating_pool, reopened_opened.pageCount]
  exact hall.2

/-- A session without tables and indexes uses no page. -/
theorem Session.unused {s : Session} (hheaps : s.heapPageIds = [])
    (hindexes : (s.engine.databases.all fun db => db.indexes.isEmpty) = true) (id : Nat) :
    ¬s.Uses id := by
  intro hid
  cases hid with
  | heap hin =>
    rw [hheaps] at hin
    exact absurd hin (by simp)
  | @index db index _ hdb hindex _ =>
    have hnone := List.all_eq_true.mp hindexes db hdb
    rw [List.isEmpty_iff.mp hnone] at hindex
    exact absurd hindex (by simp)

/-- A session stays orderly when a table without a page is created. -/
theorem Session.Orderly.creating {s : Session} {inode : Nat} {log : List (LogFrame Bytes)}
    {ids : List Nat} {parts : List (List UInt8)} (h : s.Orderly inode log ids parts) {e : Engine}
    (hunused : ∀ id, ¬(s.creating e).Uses id) : (s.creating e).Orderly inode log ids parts where
  wal := h.wal
  pageFile := h.pageFile
  serves := h.serves
  full := h.full
  chain := h.chain
  nodup := h.nodup
  apart id hid := absurd hid (hunused id)
  kept := h.kept
  backed := h.backed.creating e
  head := h.head

/-- The session of the example is orderly. -/
theorem reopened_orderly : ∃ parts, reopened.Orderly 0 [] [0] parts := by
  have hopened := reopened_opened
  have hserves : reopened.pool.Serves reopened.pool.plain :=
    hopened.inOrder.serves fun id hid => by
      rw [hopened.freeIds] at hid
      exact absurd hid (by simp)
  obtain ⟨-, -, hwal, hfirst, hheaps, hindexes⟩ := reopened_runs
  obtain ⟨log, hlog, hempty⟩ := Option.map_eq_some_iff.mp hwal
  rw [List.isEmpty_iff] at hempty
  obtain ⟨page, hpage, hend⟩ := Option.map_eq_some_iff.mp hfirst
  have hchain : Chain reopened.pool.plain.body (UInt32.ofNat 0) [0] [chainPart page] := by
    have hid : 0 < 2 ^ 31 := Nat.two_pow_pos 31
    refine chain_cons hid hpage ?_
    rw [hend]
    exact .nil
  refine ⟨[chainPart page], hempty ▸ hlog, hopened.pageFile, hserves, fun id hid => ?_, ?_,
    by simp, fun id hid => ?_, ?_, reopened_backed, ?_⟩
  · have hid := hid.1
    rw [Pool.plain_count, hopened.pageCount] at hid
    obtain rfl : id = 0 := by omega
    rw [hpage]
    rfl
  · rw [hopened.root]
    exact hchain
  · exact absurd hid (Session.unused (List.isEmpty_iff.mp hheaps) hindexes id)
  · exact hopened.mirrors.keptBy hserves hopened.pageFile hopened.checksums
  · rw [hopened.files]
    exact savedDisk_file.2.2.2.2.2.2

/-- The rows that the heaps of a session count. -/
def Session.liveRows (s : Session) : Int :=
  (s.engine.databases.map fun db => (db.heaps.map Heap.nlive).sum).sum

/-- A session with a table. -/
def pairReopened : Session := afterStatements reopened [createPair]

/-- The INSERT whose frames do not reach the log. -/
def failedInsert : Except ErrorCode Unit × Session :=
  processStatementUnder (some (.commit (.append 0 false))) (insertPair [1] [2]) pairReopened

/-- The tables of a session. -/
def Session.tableCount (s : Session) : Nat := (s.engine.databases.map fun db => db.tables.length).sum

/-- A CREATE TABLE of which a part of a frame reaches the log, and one whose commit succeeds. -/
def behindTear : LoggedSession :=
  LoggedSession.process
    (LoggedSession.failed (.append 0 true)
      (processStatementUnder (some (.commit (.append 0 true))) createPair reopened).2) createOther

/-- The second table cannot be read any more either. -/
theorem torn_commit_loses :
    behindTear.session.tableCount = 2 ∧
      (openSession somePath (afterCrash behindTear.readable)).tableCount = 0 :=
  ⟨by decide +kernel, by decide +kernel⟩

end DatabaseEngine
