import DatabaseEngine.Proofs.Session.Labels

/-!
# `DatabaseEngine.Proofs.Session.Naming`: names own the slots

In every engine that a process can reach, slot 0 is the default database and no two databases
have one name, so a name finds the one slot that has it.

* `WellNamed`: that invariant, with `WellNamed.find_eq`.
* `WellNamed.step`: statements keep it.
* `loadDatabase_named`: a load keeps it, whether it succeeds or fails, whatever the file holds.
* `openSession_named`: so a process has it from its start on.
-/

set_option autoImplicit false

namespace DatabaseEngine

open Library Action

/-- The name of slot 0. -/
def mainName : Name := Name.ofBytes DEFAULT_DB_NAME

/-- Slot 0 is the default database, and names are not used twice. -/
structure WellNamed (labels : List Label) : Prop where
  main : labels[0]? = some (true, mainName)
  distinct : ∀ (i j : Nat) (n m : Name), labels[i]? = some (true, n) → labels[j]? = some (true, m) →
    n.same m = true → i = j

/-- The database in a slot has the name. -/
def Stands (labels : List Label) (id : Nat) (name : Name) : Prop :=
  ∃ n, labels[id]? = some (true, n) ∧ n.same name = true

instance (labels : List Label) (id : Nat) (name : Name) : Decidable (Stands labels id name) :=
  match h : labels[id]? with
  | some (true, n) =>
    if hsame : n.same name = true then isTrue ⟨n, h, hsame⟩
    else isFalse fun ⟨m, hm, hsame'⟩ => by
      rw [h] at hm
      exact hsame (by simpa [show n = m by simpa using hm] using hsame')
  | some (false, n) => isFalse fun ⟨m, hm, _⟩ => by simp [h] at hm
  | none => isFalse fun ⟨m, hm, _⟩ => by simp [h] at hm

section
variable {labels : List Label} {name : Name} {i : Nat}

/-- The label that is found stands. -/
theorem findLabel_stands (h : findLabel labels name = some i) : Stands labels i name := by
  obtain ⟨hlt, hfound, -⟩ := List.findIdx?_eq_some_iff_getElem.mp h
  simp only [Bool.and_eq_true] at hfound
  refine ⟨labels[i].2, ?_, hfound.2⟩
  rw [List.getElem?_eq_getElem hlt, ← hfound.1]

/-- Where none is found none stands. -/
theorem findLabel_none (h : findLabel labels name = none) : ¬Stands labels i name := by
  rintro ⟨n, hn, hsame⟩
  have := List.findIdx?_eq_none_iff.mp h _ (List.mem_of_getElem? hn)
  simp [hsame] at this

namespace WellNamed

/-- A name stands in one place. -/
theorem stands_unique (h : WellNamed labels) {j : Nat} (hi : Stands labels i name)
    (hj : Stands labels j name) : i = j := by
  obtain ⟨n, hn, hni⟩ := hi
  obtain ⟨m, hm, hmj⟩ := hj
  refine h.distinct i j n m hn hm (sameText_trans hni ?_)
  rw [sameText_comm]
  exact hmj

/-- A name finds the slot that has it. -/
theorem find_eq (h : WellNamed labels) (hstands : Stands labels i name) :
    findLabel labels name = some i := by
  cases hfound : findLabel labels name with
  | none => exact absurd hstands (findLabel_none hfound)
  | some j => rw [h.stands_unique hstands (findLabel_stands hfound)]

/-- The main database stands in the first place. -/
theorem stands_main (h : WellNamed labels) : Stands labels 0 mainName :=
  ⟨mainName, h.main, sameText_refl _⟩

/-- A free slot is not the default one. -/
theorem free_ne (h : WellNamed labels) {l : Label} (hfree : labels[i]? = some l)
    (hunused : l.1 = false) : i ≠ 0 := by
  rintro rfl
  rw [h.main] at hfree
  obtain rfl := Option.some.inj hfree
  exact absurd hunused (by simp)

/-- A new name in a free slot. -/
theorem create (h : WellNamed labels) (hnew : findLabel labels name = none)
    (hslot : labels.findIdx? (fun l => !l.1) = some i) :
    WellNamed (labels.modify i fun _ => (true, name)) := by
  obtain ⟨hlt, hfree, -⟩ := List.findIdx?_eq_some_iff_getElem.mp hslot
  have hget := List.getElem?_eq_getElem hlt
  have hpos := h.free_ne hget (by simpa using hfree)
  -- a used slot is the new one, with the new name, or was used before
  have hslots : ∀ j n, (labels.modify i fun _ => (true, name))[j]? = some (true, n) →
      j = i ∧ n = name ∨ j ≠ i ∧ labels[j]? = some (true, n) := by
    intro j n hj
    rw [List.getElem?_modify] at hj
    by_cases hij : i = j
    · subst hij
      rw [hget] at hj
      simp only [if_true, Option.map_eq_map, Option.map_some, Option.some.injEq, Prod.mk.injEq,
        true_and] at hj
      exact .inl ⟨rfl, hj.symm⟩
    · simp only [if_neg hij, Option.map_eq_map, Option.map_id'] at hj
      exact .inr ⟨fun h => hij h.symm, hj⟩
  constructor
  · simp [hpos, h.main]
  · intro j k n m hj hk hsame
    rcases hslots j n hj with ⟨hji, hnew'⟩ | ⟨-, hold⟩
    · rcases hslots k m hk with ⟨hki, -⟩ | ⟨-, hold⟩
      · rw [hji, hki]
      · rw [hnew', Name.same, sameText_comm] at hsame
        exact absurd ⟨m, hold, hsame⟩ (findLabel_none hnew)
    · rcases hslots k m hk with ⟨-, hnew'⟩ | ⟨-, hold'⟩
      · rw [hnew'] at hsame
        exact absurd ⟨n, hold, hsame⟩ (findLabel_none hnew)
      · exact h.distinct j k n m hold hold' hsame

/-- A slot that is freed. -/
theorem drop (h : WellNamed labels) (hpos : i ≠ 0) :
    WellNamed (labels.modify i fun l => (false, l.2)) := by
  have hslots : ∀ (j : Nat) (n : Name),
      (labels.modify i fun l => (false, l.2))[j]? = some (true, n) →
        labels[j]? = some (true, n) := by
    intro j n hj
    rw [List.getElem?_modify] at hj
    obtain ⟨l, hl, heq⟩ := Option.map_eq_some_iff.mp hj
    split at heq
    · exact absurd heq (by simp)
    · rw [hl, heq]
  refine ⟨?_, fun j k n m hj hk => h.distinct j k n m (hslots j n hj) (hslots k m hk)⟩
  simp [hpos, h.main]

/-- Every statement keeps the names in order. -/
theorem step {s : Standing} (h : WellNamed s.labels) (kind : StatementKind) :
    WellNamed (labelStep kind s).labels := by
  unfold labelStep
  split
  · split
    · rename_i hnew hslot
      exact h.create hnew hslot
    · exact h
  · split
    · exact h
    · exact h
  · split
    · exact h
    · exact h
    · exact h.drop (by simp)
  · exact h

end WellNamed

end

/-! ### Loads -/

/-- The engine that was just set up. -/
theorem initEngine_named (engine : Engine) : WellNamed (initEngine engine).labels := by
  have hlabels : (initEngine engine).labels =
      (true, mainName) :: List.replicate (MAX_DATABASES - 1) freeSlot.label := by
    simp [initEngine, Engine.labels, Database.label, mainName]
  have hslots : ∀ i n, (initEngine engine).labels[i]? = some (true, n) → i = 0 := by
    intro i n hi
    rw [hlabels] at hi
    cases i with
    | zero => rfl
    | succ i =>
      have := List.mem_of_getElem? (by simpa using hi)
      have := List.eq_of_mem_replicate this
      exact absurd (congrArg Prod.fst this) (by simp [freeSlot, Database.label])
  refine ⟨by rw [hlabels]; rfl, fun i j n m hi hj _ => ?_⟩
  rw [hslots i n hi, hslots j m hj]

/-- The names of the engine that a load fills are in order. -/
def LoadsNamed (loading : Loading) : Prop := WellNamed loading.engine.labels

/-- To read an item keeps the names. -/
theorem parse_keeps {α : Type} (item : Parser α) : (parse item).Keeps LoadsNamed := by
  intro loading h
  unfold parse
  split
  · exact h
  · exact h

/-- A step on the engine keeps the names of a load when it keeps its own. -/
theorem onEngine_keeps {α : Type} {x : Step Engine α} (h : x.Keeps fun e => WellNamed e.labels) :
    (onEngine x).Keeps LoadsNamed := fun _ hnamed =>
  Keeps.onPart_part (I := LoadsNamed) h hnamed fun _ hengine => hengine

/-- Whatever is read into one database. -/
theorem onLoaded_keeps {α : Type} {x : Step Database α} (hx : ∀ l, x.Keeps (Labelled l)) :
    (onLoaded x).Keeps LoadsNamed :=
  onEngine_keeps (onDatabase_keeps hx fun s => WellNamed s.labels)

/-- A step on the last heap keeps the labels. -/
theorem onLastHeap_keeps {α : Type} {l : Label} (x : Step Heap α) :
    (onLastHeap x).Keeps (Labelled l) := by
  refine .get_bind fun db hdb => ?_
  split
  · exact .throw _
  · exact .onPart fun _ _ h => h

/-- To adopt the pages of a heap keeps the names. -/
theorem adoptPages_keeps (n : Nat) : (adoptPages n).Keeps LoadsNamed := by
  induction n with
  | zero => exact .pure _
  | succ n ih =>
    exact .bind (parse_keeps _) fun _ => .bind (parse_keeps _) fun _ =>
      .bind (onLoaded_keeps fun _ => onLastHeap_keeps _) fun _ => ih

/-- To put back the rows of an old file keeps the names. -/
theorem replayRows_keeps (cols : List Column) (n : Nat) : (replayRows cols n).Keeps LoadsNamed := by
  induction n with
  | zero => exact .pure _
  | succ n ih =>
    exact .bind (parse_keeps _) fun _ =>
      .bind (onLoaded_keeps fun _ => onLastHeap_keeps _) fun _ => ih

/-- To load a table keeps the names. -/
theorem loadTable_keeps (version : Nat) : (loadTable version).Keeps LoadsNamed := by
  refine .bind (parse_keeps _) fun name => .bind (parse_keeps _) fun _ =>
    .bind (parse_keeps _) fun _ => .bind (parse_keeps _) fun cols =>
    .bind (parse_keeps _) fun check => ?_
  have htables : (onLoaded do
      let db ← Action.get
      let tables ← Action.ofExcept (addTable name cols check db.tables)
      Action.set { db with tables := tables }).Keeps LoadsNamed :=
    onLoaded_keeps fun _ => .get_bind fun _ hdb => .bind (.ofExcept _) fun _ => .set hdb
  have hheaps : (onLoaded do
      let db ← Action.get
      let heaps ← Action.ofExcept (createHeap name db.heaps)
      Action.set { db with heaps := heaps }).Keeps LoadsNamed :=
    onLoaded_keeps fun _ => .get_bind fun _ hdb => .bind (.ofExcept _) fun _ => .set hdb
  refine .bind htables fun _ => .bind hheaps fun _ => ?_
  split
  · exact .bind (parse_keeps _) fun pages => .bind (adoptPages_keeps pages) fun _ =>
      .bind (parse_keeps _) fun _ => onLoaded_keeps fun _ => onLastHeap_keeps _
  · exact .bind (parse_keeps _) fun rows => replayRows_keeps cols rows

/-- To load the tables keeps the names. -/
theorem loadTables_keeps (version n : Nat) : (loadTables version n).Keeps LoadsNamed := by
  induction n with
  | zero => exact .pure _
  | succ n ih => exact .bind (loadTable_keeps version) fun _ => ih

/-- Whatever does not speak of the indexes of a database is kept. -/
def OnlyIndexes {α : Type} (x : Step Database α) : Prop :=
  ∀ J : Database → Prop, (∀ db indexes, J db → J { db with indexes := indexes }) → x.Keeps J

/-- A step on the indexes changes nothing else. -/
theorem onIndexes_only {α : Type} (x : Step (List Index) α) : OnlyIndexes (onIndexes x) :=
  fun _ hJ => .onPart hJ

/-- To build the indexes again changes nothing else. -/
theorem rebuildAll_only (tables : List CatalogNode) : OnlyIndexes (rebuildAll tables) := by
  intro J hJ
  induction tables with
  | nil => exact .pure _
  | cons table rest ih =>
    refine .get_bind fun db hdb => ?_
    split
    · exact ih
    · exact .bind (onIndexes_only _ J hJ) fun _ => ih

section
variable {I : Loading → Prop} (hparse : ∀ {α : Type} (item : Parser α), (parse item).Keeps I)
  (hloaded : ∀ {α : Type} (x : Step Database α), OnlyIndexes x → (onLoaded x).Keeps I)

include hparse hloaded

/-- To load an index keeps what no index is part of. -/
theorem loadIndex_keeps (version : Nat) : (loadIndex version).Keeps I := by
  refine .bind (hparse _) fun name => .bind (hparse _) fun _ => .bind (hparse _) fun _ =>
    .bind (hloaded _ fun _ _ => .get_bind fun _ _ => .pure _) fun db => ?_
  split
  · exact .throw _
  · split
    · exact .throw _
    · split
      · exact .bind (hparse _) fun _ => .bind (hparse _) fun _ => hloaded _ (onIndexes_only _)
      · exact hloaded _ (onIndexes_only _)

/-- To load the indexes keeps it. -/
theorem loadIndexes_keeps (version n : Nat) : (loadIndexes version n).Keeps I := by
  induction n with
  | zero => exact .pure _
  | succ n ih => exact .bind (loadIndex_keeps hparse hloaded version) fun _ => ih

/-- What a load does after the tables. -/
theorem afterTables_keeps (version : Nat) : Action.Keeps I (do
    let indexCount ← parse getNat
    loadIndexes version indexCount
    if TAIL_VERSION ≤ version then return ()
    else
      onLoaded do
        let db ← Action.get
        rebuildAll (listTables db.tables MAX_TABLES)) := by
  refine .bind (hparse _) fun indexes =>
    .bind (loadIndexes_keeps hparse hloaded version indexes) fun _ => ?_
  split
  · exact .pure _
  · exact hloaded _ fun J hJ => .get_bind fun _ _ => rebuildAll_only _ J hJ

end

/-- To load a database keeps the names. -/
theorem loadCurrentDatabase_keeps (version : Nat) :
    (loadCurrentDatabase version).Keeps LoadsNamed :=
  .bind (parse_keeps _) fun tables => .bind (parse_keeps _) fun _ =>
    .bind (loadTables_keeps version tables) fun _ =>
      afterTables_keeps parse_keeps (fun _ hx => onLoaded_keeps fun _ => hx _ fun _ _ h => h) version

/-- A database that the file names is found, or made in a free slot. -/
theorem selectNamed_keeps (name : Name) :
    (selectNamed name).Keeps fun engine => WellNamed engine.labels := by
  refine .get_bind fun engine h => ?_
  split
  · exact .set h
  · refine .ofExcept_bind fun databases hmade => .set ?_
    have hlabels := createDatabase_labels name engine
    rw [hmade] at hlabels
    have hnamed := h.step (s := engine.standing) (.STMT_CREATE_DATABASE name)
    rw [hlabels] at hnamed
    exact hnamed

/-- To load the databases keeps the names. -/
theorem loadDatabases_keeps (version n : Nat) : (loadDatabases version n).Keeps LoadsNamed := by
  induction n with
  | zero => exact .pure _
  | succ n ih =>
    exact .bind (parse_keeps _) fun name => .bind (onEngine_keeps (selectNamed_keeps name)) fun _ =>
      .bind (loadCurrentDatabase_keeps version) fun _ => ih

/-- To load their names keeps them in order. -/
theorem loadNames_keeps (version : Nat) : (loadNames version).Keeps LoadsNamed := by
  unfold loadNames
  split
  · exact .pure _
  · exact .bind (parse_keeps _) fun _ => .bind (parse_keeps _) fun _ =>
      .bind (parse_keeps _) fun _ => .pure _

/-- All of a load keeps the names. -/
theorem loadBody_keeps (version total : Nat) : (loadBody version total).Keeps LoadsNamed := by
  unfold loadBody
  split
  · exact .bind (onEngine_keeps (.modify fun _ h => h)) fun _ => loadCurrentDatabase_keeps version
  · exact loadDatabases_keeps version total

/-- To compact every table keeps the labels. -/
theorem compactAll_keeps {l : Label} (tables : List CatalogNode) :
    (compactAll tables).Keeps (Labelled l) := by
  induction tables with
  | nil => exact .pure _
  | cons table rest ih =>
    refine .get_bind fun db hdb => ?_
    split
    · exact ih
    · exact .bind (compactTable_keeps _) fun _ => ih

/-- To make room for the trailers keeps the names. -/
theorem reservePageTrailers_keeps (restoreTo : Nat) (slots : List Nat) :
    (reservePageTrailers restoreTo slots).Keeps fun engine => WellNamed engine.labels := by
  induction slots with
  | nil => exact .modify fun _ h => h
  | cons d rest ih =>
    refine .get_bind fun engine h => ?_
    split
    · exact ih
    · refine .bind (.set h) fun _ => .bind (.attempt (onDatabase_keeps
        (fun l => .get_bind fun _ _ => compactAll_keeps _) fun s => WellNamed s.labels)) fun r => ?_
      split
      · exact .bind (.modify fun _ h => h) fun _ => .throw _
      · exact ih

/-- The session's names are in order. -/
def Session.Named (s : Session) : Prop := WellNamed s.engine.labels

/-- A step of a load that keeps the names. -/
theorem loadStep_named {α : Type} {x : Step Loading α} (hx : x.Keeps LoadsNamed)
    {reader : List UInt8} {s : Session} (h : s.Named) : (s.loadStep x reader).2.2.Named :=
  onPool_ends (hx { reader := reader, engine := s.engine } h) s.pool

/-- A step on the engine that keeps the names. -/
theorem engineStep_named {α : Type} {x : Step Engine α}
    (hx : x.Keeps fun engine => WellNamed engine.labels) {s : Session} (h : s.Named) :
    (s.engineStep x).2.Named :=
  onPool_ends (hx s.engine h) s.pool

/-- The database that was in use is set behind the load. -/
theorem useNamed_ends (current : Name) {q : Except ErrorCode Unit × Session} (h : q.2.Named) :
    (match q.1 with
      | .error code => ((Except.error code : Except ErrorCode Unit), q.2)
      | .ok () => (.ok (), { q.2 with engine := useNamed current q.2.engine })).2.Named := by
  split
  · exact h
  · exact h

/-- The catalog of a file, complete or not. -/
theorem loadFrom_named (path : Path) (header : Header) (blob : List UInt8) {s : Session}
    (h : s.Named) : (loadFrom path header blob s).2.Named := by
  have hnames := @loadStep_named _ _ (loadNames_keeps header.version) blob _ h
  unfold loadFrom
  split
  · rename_i heq
    rw [heq] at hnames
    exact hnames
  · rename_i current total reader t heq
    rw [heq] at hnames
    have hbody := @loadStep_named _ _ (loadBody_keeps header.version total) reader _ hnames
    dsimp only
    split
    · exact hbody
    · refine useNamed_ends current
        (q := if header.version < CHECKSUM_VERSION then _ else (.ok (), _)) ?_
      split
      · exact engineStep_named (reservePageTrailers_keeps _ _) hbody
      · exact hbody

/-- To read the blob leaves the engine. -/
theorem readBlob_engine (header : Header) (inode : Nat) (s : Session) :
    (readBlob header inode s).2.engine = s.engine := by
  unfold readBlob
  split
  · rfl
  · split
    · rfl
    · split <;> rfl

/-- A load from pages keeps the names. -/
theorem loadPages_named (path : Path) (inode : Nat) (header : Header) (s : Session) :
    (loadPages path inode header s).2.Named := by
  have hset : ∀ pool : Pool Bytes, Session.Named { teardown s with pool := pool } := fun _ =>
    initEngine_named s.engine
  unfold loadPages
  dsimp only
  generalize hopened : (if TREELESS_VERSION ≤ header.version then _ else teardown s : Session) = t
  have ht : t.Named := by
    rw [← hopened]
    split
    · exact hset _
    · exact hset _
  have hblob : (readBlob header inode t).2.Named := by
    unfold Session.Named
    rw [readBlob_engine]
    exact ht
  unfold andThen
  split
  · exact hblob
  · exact loadFrom_named _ _ _ hblob

/-- A load that gets as far as the file's pages sets the names up anew. -/
theorem loadDatabase_named (path : Path) {s : Session} (h : s.Named) :
    (loadDatabase path s).2.Named := by
  have hclosed : (if walIsOpen s then closeDatabase s else s).Named := by
    split
    · exact h
    · exact h
  unfold loadDatabase
  dsimp only
  split
  · exact hclosed
  · split
    · exact hclosed
    · exact loadPages_named _ _ _ _

/-! ### A session from its start -/

/-- To open a file leaves the engine. -/
theorem openForWrite_engine (path : Path) (s : Session) :
    (openForWrite path s).2.engine = s.engine := by
  unfold openForWrite
  split <;> rfl

/-- To open its log leaves the engine. -/
theorem attachLog_engine (path : Path) (current : Bool) (s : Session) :
    (attachLog path current s).engine = s.engine := by
  have hopened := openForWrite_engine path { s with usingLog := false }
  unfold attachLog
  dsimp only
  split
  · rfl
  · split
    · rfl
    · split
      · rename_i heq
        rw [heq] at hopened
        exact hopened
      · rename_i heq
        rw [heq] at hopened
        exact hopened

/-- To open a paged file again leaves the engine. -/
theorem reopenPageFile_engine (path : Path) (writable : Bool) (s : Session) :
    (reopenPageFile path writable s).engine = s.engine := by
  unfold reopenPageFile
  split
  · rfl
  · split <;> rfl

/-- To discard a log leaves the engine. -/
theorem walDiscard_engine (path : Path) (s : Session) :
    (walDiscard path s).engine = s.engine := by
  unfold walDiscard
  split <;> rfl

/-- To put a file in place leaves the engine. -/
theorem moveInPlace_engine (path : Path) (inode : Nat) (s : Session) :
    (moveInPlace path inode s).engine = s.engine := by
  unfold moveInPlace
  dsimp only
  rw [walDiscard_engine]
  cases hreplacing : (decide (s.openPath ≠ []) && sameText s.openPath path) with
  | true =>
    simp only [if_true, Bool.true_or]
    rw [reopenPageFile_engine]
  | false =>
    simp only [Bool.false_eq_true, if_false, Bool.false_or]
    split <;> rfl

/-- To write a file leaves the engine. -/
theorem writeFile_engine (pages : List (Page Bytes)) (s : Session) :
    (writeFile pages s).2.engine = s.engine := rfl

/-- A save leaves the engine. -/
theorem saveDatabase_engine (path : Path) (s : Session) :
    (saveDatabase path s).2.engine = s.engine := by
  unfold saveDatabase andThen
  split
  · rfl
  · dsimp only
    split
    · rfl
    · show (moveInPlace path _ _).engine = _
      rw [moveInPlace_engine, writeFile_engine]
      rfl

/-- A recovery leaves the engine. -/
theorem walRecover_engine (path : Path) (s : Session) :
    (walRecover path s).2.engine = s.engine := by
  unfold walRecover
  split
  · rfl
  · dsimp only
    split
    · rfl
    · split <;> rfl

/-- The process that serves a file has its names in order. -/
theorem openSession_named (path : Path) {s : Session} (h : s.Named) :
    (openSession path s).Named := by
  have hattached : ∀ (current : Bool) (t : Session), t.Named →
      (attachLog path current { t with sessionPath := path }).Named := by
    intro current t ht
    unfold Session.Named
    rw [attachLog_engine]
    exact ht
  have hrecovered : (walRecover path s).2.Named := by
    unfold Session.Named
    rw [walRecover_engine]
    exact h
  have hloaded := loadDatabase_named path hrecovered
  unfold openSession
  dsimp only
  split
  · rename_i heq
    rw [heq] at hloaded
    exact hattached _ _ hloaded
  · rename_i t heq
    rw [heq] at hloaded
    have hsaved : (saveDatabase path t).2.Named := by
      unfold Session.Named
      rw [saveDatabase_engine]
      exact hloaded
    split
    · rename_i heq
      rw [heq] at hsaved
      exact hattached _ _ hsaved
    · rename_i heq
      rw [heq] at hsaved
      exact hsaved
  · rename_i heq
    rw [heq] at hloaded
    exact hloaded

end DatabaseEngine
