import DatabaseEngine.Library.Outcome
import DatabaseEngine.Proofs.Session.Transaction

/-!
# `DatabaseEngine.Proofs.Session.Labels`: which statements touch the slots of databases

A slot has a label: whether it is used, and its name. Only CREATE, USE and DROP DATABASE, and
a load, change a label or the current slot.

* `Labelled`: every step on one database keeps its label.
* `executeKind_labels`: what the execution of each kind of statement does to the labels and
  the current slot, `labelStep`.
* `processStatement_labels`: so a statement that is not a ROLLBACK does that, or nothing.
-/

set_option autoImplicit false

namespace DatabaseEngine

open Library Action

/-- What `13_database.c` knows of a slot. -/
abbrev Label := Bool × Name

/-- Whether a slot is in use, and under which name. -/
def Database.label (db : Database) : Label := (db.used, db.name)

/-- The labels of all slots. -/
def Engine.labels (engine : Engine) : List Label := engine.databases.map Database.label

/-! ### Steps on one database -/

/-- The database has the label. -/
def Labelled (l : Label) (db : Database) : Prop := db.label = l

section
variable {l : Label}

/-- A step on the indexes keeps the labels. -/
theorem onIndexes_keeps {α : Type} (x : Step (List Index) α) : (onIndexes x).Keeps (Labelled l) :=
  .onPart fun _ _ h => h

/-- A step on the heaps keeps the labels. -/
theorem onHeaps_keeps {α : Type} (x : Step (List Heap) α) : (onHeaps x).Keeps (Labelled l) :=
  .onPart fun _ _ h => h

/-- A step on one heap keeps the labels. -/
theorem onHeap_keeps {α : Type} (table : Name) (x : Step Heap α) :
    (onHeap table x).Keeps (Labelled l) := by
  refine .get_bind fun db hdb => ?_
  split
  · exact .throw _
  · exact .onPart fun _ _ h => h

/-- A table that is set keeps the labels. -/
theorem setTable_keeps (name : Name) (node : CatalogNode) :
    (setTable name node).Keeps (Labelled l) :=
  .modify fun _ h => h

/-- CREATE TABLE keeps the labels. -/
theorem executeCreate_keeps (create : CreateStatement) :
    (executeCreate create).Keeps (Labelled l) :=
  .get_bind fun _ hdb => .bind (.ofExcept _) fun _ => .bind (.set hdb) fun _ =>
    .bind (.ofExcept _) fun _ => .bind (.set hdb) fun _ => onIndexes_keeps _

/-- CREATE INDEX keeps the labels. -/
theorem executeCreateIndex_keeps (create : CreateIndexStatement) :
    (executeCreateIndex create).Keeps (Labelled l) := by
  refine .get_bind fun db hdb => ?_
  split
  · split
    · exact .throw _
    · refine .bind (onIndexes_keeps _) fun _ => .bind (.attempt (onIndexes_keeps _)) fun r => ?_
      split
      · exact .pure _
      · exact .bind (onIndexes_keeps _) fun _ => .throw _
  · exact .throw _

/-- A row that is stored keeps the labels. -/
theorem storeRow_keeps (table : Name) (row : Row) : (storeRow table row).Keeps (Labelled l) := by
  refine .bind (onHeap_keeps table _) fun position => .bind (.attempt (onIndexes_keeps _)) fun r => ?_
  split
  · exact .pure _
  · exact .bind (onHeap_keeps table _) fun _ => .throw _

/-- A page program with an error code keeps every invariant of the state. -/
theorem checked_keeps {σ α : Type} {I : σ → Prop} (x : PageM Bytes (Except ErrorCode α)) :
    (checked x : Step σ α).Keeps I :=
  .bind (.lift x) fun _ => .ofExcept _

/-- INSERT keeps the labels. -/
theorem executeInsert_keeps (sub : Subqueries) (insert : InsertStatement) :
    (executeInsert sub insert).Keeps (Labelled l) := by
  refine .get_bind fun db hdb => ?_
  split
  · exact .bind (.ofExcept _) fun row => .bind (checked_keeps _) fun _ =>
      .bind (storeRow_keeps _ row) fun _ => .pure _
  · exact .throw _

/-- To compact a table keeps the labels. -/
theorem compactTable_keeps (table : Name) : (compactTable table).Keeps (Labelled l) := by
  refine .bind (onHeap_keeps table _) fun _ => .get_bind fun db hdb => ?_
  split
  · exact .throw _
  · exact onIndexes_keeps _

/-- To rewrite its rows keeps the labels. -/
theorem rewriteRows_keeps (table : Name) (change : Row → Row) :
    (rewriteRows table change).Keeps (Labelled l) :=
  .bind (onHeap_keeps table _) fun _ => compactTable_keeps table

/-- ADD COLUMN keeps the labels. -/
theorem alterAddColumn_keeps (table : CatalogNode) (column : Column) :
    (alterAddColumn table column).Keeps (Labelled l) := by
  unfold alterAddColumn
  split
  · exact .throw _
  · split
    · exact .throw _
    · refine .bind (setTable_keeps _ _) fun _ => .bind (.attempt (rewriteRows_keeps _ _)) fun r => ?_
      split
      · exact .pure _
      · exact .bind (setTable_keeps _ _) fun _ => .throw _

/-- DROP COLUMN keeps the labels. -/
theorem alterDropColumn_keeps (table : CatalogNode) (name : Name) :
    (alterDropColumn table name).Keeps (Labelled l) := by
  unfold alterDropColumn
  split
  · exact .throw _
  · split
    · exact .throw _
    · exact .bind (onIndexes_keeps _) fun _ => .bind (setTable_keeps _ _) fun _ =>
        rewriteRows_keeps _ _

/-- RENAME COLUMN keeps the labels. -/
theorem alterRenameColumn_keeps (table : CatalogNode) (name newName : Name) :
    (alterRenameColumn table name newName).Keeps (Labelled l) := by
  unfold alterRenameColumn
  split
  · exact .throw _
  · split
    · exact .throw _
    · exact .bind (.modify fun _ h => h) fun _ => setTable_keeps _ _

/-- RENAME TO keeps the labels. -/
theorem alterRenameTable_keeps (table : CatalogNode) (newName : Name) :
    (alterRenameTable table newName).Keeps (Labelled l) :=
  .get_bind fun _ hdb => .bind (.ofExcept _) fun _ => .set hdb

/-- ALTER TABLE keeps the labels. -/
theorem executeAlter_keeps (alter : AlterStatement) : (executeAlter alter).Keeps (Labelled l) := by
  refine .get_bind fun db hdb => ?_
  split
  · split
    · exact alterAddColumn_keeps _ _
    · exact alterDropColumn_keeps _ _
    · exact alterRenameColumn_keeps _ _ _
    · exact alterRenameTable_keeps _ _
  · exact .throw _

/-- VACUUM keeps the labels. -/
theorem executeVacuum_keeps (name : Name) : (executeVacuum name).Keeps (Labelled l) := by
  refine .get_bind fun db hdb => ?_
  split
  · exact compactTable_keeps _
  · exact .throw _

/-- To write the rows of an UPDATE keeps the labels. -/
theorem writeUpdated_keeps (table : CatalogNode) (update : UpdateStatement) (slots rows : List Nat) :
    (writeUpdated table update slots rows).Keeps (Labelled l) := by
  induction rows with
  | nil => exact .pure _
  | cons position rest ih =>
    refine .get_bind fun db hdb => ?_
    split
    · exact .throw _
    · exact .bind (.lift _) fun _ => .bind (.ofExcept _) fun _ => .bind (storeRow_keeps _ _) fun _ =>
        .bind (onHeap_keeps _ _) fun _ => ih

/-- UPDATE keeps the labels. -/
theorem executeUpdate_keeps (sub : Subqueries) (update : UpdateStatement) :
    (executeUpdate sub update).Keeps (Labelled l) := by
  refine .get_bind fun db hdb => ?_
  split
  · refine .bind (.ofExcept _) fun slots => .bind (checked_keeps _) fun rows =>
      .bind (checked_keeps _) fun _ => ?_
    split
    · exact .throw _
    · exact writeUpdated_keeps _ _ _ _
  · exact .throw _

/-- DELETE keeps the labels. -/
theorem executeDelete_keeps (sub : Subqueries) (del : DeleteStatement) :
    (executeDelete sub del).Keeps (Labelled l) := by
  refine .get_bind fun db hdb => ?_
  split
  · exact .bind (checked_keeps _) fun _ => onHeap_keeps _ _
  · exact .throw _

/-- To drop all that a table has keeps the labels. -/
theorem dropEverything_keeps (table : Name) : (dropEverything table).Keeps (Labelled l) :=
  .bind (onIndexes_keeps _) fun _ => .bind (.attempt (onHeaps_keeps _)) fun _ => .modify fun _ h => h

/-- DROP TABLE keeps the labels. -/
theorem executeDropTable_keeps (name : Name) : (executeDropTable name).Keeps (Labelled l) := by
  refine .get_bind fun db hdb => ?_
  split
  · exact .throw _
  · exact dropEverything_keeps _

/-- To drop all tables keeps the labels. -/
theorem dropAllTables_keeps (n : Nat) : (dropAllTables n).Keeps (Labelled l) := by
  induction n with
  | zero => exact .pure _
  | succ n ih =>
    refine .get_bind fun db hdb => ?_
    split
    · exact .pure _
    · exact .bind (dropEverything_keeps _) fun _ => ih

end

/-! ### DROP DATABASE does not stop half way -/

/-- To drop the indexes of a table does not fail. -/
theorem dropIndexesForTable_completes (table : Name) : (dropIndexesForTable table).Completes := by
  intro indexes
  induction indexes with
  | nil => exact ⟨(), rfl⟩
  | cons index rest ih =>
    unfold dropIndexesForTable
    split
    · exact PageM.ends_bind_any fun _ => ih
    · exact ih.bind fun r hr => hr

/-- To drop all that a table has does not fail. -/
theorem dropEverything_completes (table : Name) : (dropEverything table).Completes :=
  .bind (.onPart (dropIndexesForTable_completes table)) fun _ => .bind (.attempt _) fun _ =>
    .modify _

/-- To drop all tables does not fail. -/
theorem dropAllTables_completes (n : Nat) : (dropAllTables n).Completes := by
  induction n with
  | zero => exact .pure _
  | succ n ih =>
    refine .bind .get fun db => ?_
    split
    · exact .pure _
    · exact .bind (dropEverything_completes _) fun _ => ih

/-! ### Steps on the engine -/

/-- The slots and the one that is current. -/
structure Standing where
  current : Nat
  labels : List Label
  deriving DecidableEq

/-- The labels and the slot that is current. -/
def Engine.standing (engine : Engine) : Standing :=
  { current := engine.current, labels := engine.labels }

/-- The slot of a name, by the labels. -/
def findLabel (labels : List Label) (name : Name) : Option Nat :=
  labels.findIdx? fun l => l.1 && l.2.same name

/-- A database is found by its label. -/
theorem findDatabase_eq (engine : Engine) (name : Name) :
    findDatabase engine.databases name = findLabel engine.labels name := by
  unfold findDatabase findLabel Engine.labels
  rw [List.findIdx?_map]
  rfl

/-- What a statement that was executed does to the slots. -/
def labelStep (kind : StatementKind) (s : Standing) : Standing :=
  match kind with
  | .STMT_CREATE_DATABASE name =>
    match findLabel s.labels name, s.labels.findIdx? fun l => !l.1 with
    | none, some i => { s with labels := s.labels.modify i fun _ => (true, name) }
    | _, _ => s
  | .STMT_USE_DATABASE name =>
    match findLabel s.labels name with
    | none => s
    | some id => { s with current := id }
  | .STMT_DROP_DATABASE name =>
    match findLabel s.labels name with
    | none | some 0 => s
    | some (i + 1) =>
      { current := if s.current = i + 1 then 0 else s.current
        labels := s.labels.modify (i + 1) fun l => (false, l.2) }
  | _ => s

/-- Changing an element changes its image. -/
theorem map_modify {α γ : Type} {k : α → γ} {f : α → α} {g : γ → γ} (h : ∀ a, k (f a) = g (k a))
    (l : List α) (i : Nat) : (l.modify i f).map k = (l.map k).modify i g := by
  apply List.ext_getElem?
  intro j
  simp only [List.getElem?_map, List.getElem?_modify]
  cases l[j]? with
  | none => rfl
  | some a =>
    show some (k (if i = j then f a else a)) = some (if i = j then g (k a) else k a)
    split
    · rw [h]
    · rfl

/-- A step on the current database keeps the slots. -/
theorem onDatabase_keeps {α : Type} {x : Step Database α} (hx : ∀ l, x.Keeps (Labelled l))
    (P : Standing → Prop) : (onDatabase x).Keeps fun engine => P engine.standing := by
  intro engine h
  refine Keeps.onPart_part (I := fun engine => P engine.standing) (hx engine.database.label) rfl
    fun db hdb => ?_
  have hsame : (engine.setDatabase db).standing = engine.standing := by
    unfold Engine.standing Engine.labels Engine.setDatabase
    simp only [List.map_set, Standing.mk.injEq, true_and]
    unfold Labelled at hdb
    rw [hdb]
    by_cases hlt : engine.current < engine.databases.length
    · refine List.ext_getElem? fun i => ?_
      by_cases hi : i = engine.current
      · subst hi
        rw [List.getElem?_set_self (by simpa using hlt), List.getElem?_map]
        simp [Engine.database, List.getD_eq_getElem?_getD, hlt]
      · rw [List.getElem?_set_ne (Ne.symm hi)]
    · rw [List.set_eq_of_length_le (by simpa using hlt)]
  rw [hsame]
  exact h

/-- A step on the join heap changes no database. -/
theorem onJoinHeap_keeps {α : Type} (x : Step Heap α) (P : Standing → Prop) :
    (onJoinHeap x).Keeps fun engine => P engine.standing :=
  .onPart fun _ _ h => h

/-- SELECT changes no database. -/
theorem executeSelect_keeps (select : SelectStatement) (P : Standing → Prop) :
    (executeSelect select).Keeps fun engine => P engine.standing := by
  have hbuild : (buildJoin select).Keeps fun engine => P engine.standing :=
    .bind (onJoinHeap_keeps _ P) fun _ => .get_bind fun _ _ => .bind (checked_keeps _) fun _ =>
      onJoinHeap_keeps _ P
  unfold executeSelect
  split
  · exact .bind hbuild fun _ => .get_bind fun _ _ => .bind (.lift _) fun _ => .ofExcept _
  · exact .get_bind fun _ _ => .bind (checked_keeps _) fun _ => .ofExcept _

/-- Nor do the subqueries of a statement. -/
theorem materialiseSubqueries_keeps (subqueries : List Subquery) (P : Standing → Prop) :
    (materialiseSubqueries subqueries).Keeps fun engine => P engine.standing := by
  have hfrom : ∀ n, (materialiseFrom subqueries n).Keeps fun engine => P engine.standing := by
    intro n
    induction n with
    | zero => exact .pure _
    | succ n ih =>
      unfold materialiseFrom
      split
      · exact .throw _
      · refine .bind (executeSelect_keeps _ P) fun rows => .bind (.modify fun _ h => h) fun _ => ?_
        split
        · exact .throw _
        · exact ih
  unfold materialiseSubqueries
  split
  · exact .pure _
  · exact .bind (.modify fun _ h => h) fun _ => hfrom _

/-- CREATE DATABASE takes the first free slot for a new name. -/
theorem createDatabase_labels (name : Name) (engine : Engine) :
    match createDatabase name engine.databases with
    | .ok databases =>
      labelStep (.STMT_CREATE_DATABASE name) engine.standing =
        { engine.standing with labels := databases.map Database.label }
    | .error _ => labelStep (.STMT_CREATE_DATABASE name) engine.standing = engine.standing := by
  have hfree : engine.labels.findIdx? (fun l => !l.1)
      = engine.databases.findIdx? fun db => !db.used := by
    unfold Engine.labels
    rw [List.findIdx?_map]
    rfl
  unfold createDatabase labelStep
  simp only [findDatabase_eq, Engine.standing, hfree]
  cases hfound : findLabel engine.labels name with
  | some id => simp
  | none =>
    simp only [Option.isSome_none, Bool.false_eq_true, if_false]
    cases hslot : engine.databases.findIdx? fun db => !db.used with
    | none => rfl
    | some i =>
      show Standing.mk _ _ = Standing.mk _ _
      rw [map_modify (k := Database.label) (g := fun _ => (true, name)) fun _ => rfl]
      rfl

/-- The rule for a step that reads the state first. -/
theorem ends_get_bind {σ α : Type} {Q : Except ErrorCode α × σ → Prop} {f : σ → Step σ α} {e : σ}
    (h : (f e e).Ends Q) : ((Action.get >>= f) e).Ends Q := h

/-- DROP DATABASE empties the slot and frees it. -/
theorem executeDropDatabase_labels (name : Name) (engine : Engine) :
    (executeDropDatabase name engine).Ends fun r =>
      r.2.standing = labelStep (.STMT_DROP_DATABASE name) engine.standing := by
  unfold executeDropDatabase labelStep
  refine ends_get_bind ?_
  simp only [findDatabase_eq, Engine.standing]
  rcases findLabel engine.labels name with _ | _ | i
  · rfl
  · rfl
  · let chosen : Engine := { engine with current := i + 1 }
    let emptied : Step Database Unit := do
      let db ← Action.get
      dropAllTables db.tables.length
    have hkeeps : ((onDatabase emptied) chosen).Ends fun r => r.2.standing = chosen.standing :=
      onDatabase_keeps (fun l => .get_bind fun _ _ => dropAllTables_keeps _)
        (fun s => s = chosen.standing) chosen rfl
    have hdone : ((onDatabase emptied) chosen).Ends fun r => ∃ a, r.1 = .ok a :=
      Completes.onPart (.bind .get fun _ => dropAllTables_completes _) chosen
    refine (hkeeps.and hdone).bind fun r hr => ?_
    obtain ⟨hsame, a, ha⟩ := hr
    rcases r with ⟨r, last⟩
    obtain rfl : r = .ok a := ha
    have hlabels : last.labels = engine.labels := congrArg Standing.labels hsame
    show Standing.mk _ _ = Standing.mk _ _
    congr 1
    show List.map _ _ = _
    rw [map_modify (k := Database.label) (g := fun l => (false, l.2)) fun _ => rfl]
    exact congrArg _ hlabels

/-- Execution changes the slots as `labelStep` says, and not at all when it fails. -/
theorem executeKind_labels (kind : StatementKind) (engine : Engine) :
    (executeKind kind engine).Ends fun r => r.2.standing = labelStep kind engine.standing := by
  have hdatabase : ∀ {x : Step Database Unit}, (∀ l, x.Keeps (Labelled l)) →
      (onDatabase x engine).Ends fun r => r.2.standing = engine.standing := fun hx =>
    onDatabase_keeps hx (fun s => s = engine.standing) engine rfl
  unfold executeKind
  refine ends_get_bind ?_
  cases kind with
  | STMT_CREATE_TABLE create => exact hdatabase fun _ => executeCreate_keeps create
  | STMT_CREATE_INDEX create => exact hdatabase fun _ => executeCreateIndex_keeps create
  | STMT_INSERT insert => exact hdatabase fun _ => executeInsert_keeps _ insert
  | STMT_SELECT select =>
    exact Keeps.bind (executeSelect_keeps select fun s => s = engine.standing)
      (fun _ => .pure _) engine rfl
  | STMT_DELETE del => exact hdatabase fun _ => executeDelete_keeps _ del
  | STMT_UPDATE update => exact hdatabase fun _ => executeUpdate_keeps _ update
  | STMT_VACUUM table => exact hdatabase fun _ => executeVacuum_keeps table
  | STMT_ALTER_TABLE alter => exact hdatabase fun _ => executeAlter_keeps alter
  | STMT_CREATE_DATABASE name =>
    have hlabels := createDatabase_labels name engine
    show PageM.Ends _ ((Action.ofExcept (createDatabase name engine.databases) >>= _) engine)
    cases hmade : createDatabase name engine.databases with
    | error code =>
      rw [hmade] at hlabels
      exact hlabels.symm
    | ok databases =>
      rw [hmade] at hlabels
      exact hlabels.symm
  | STMT_USE_DATABASE name =>
    simp only [findDatabase_eq, labelStep, Engine.standing]
    rcases findLabel engine.labels name with _ | id <;> rfl
  | STMT_DROP_DATABASE name => exact executeDropDatabase_labels name engine
  | STMT_DROP_TABLE name => exact hdatabase fun _ => executeDropTable_keeps name
  | STMT_DROP_INDEX name => exact hdatabase fun _ => onIndexes_keeps _
  | STMT_BEGIN | STMT_COMMIT | STMT_ROLLBACK => rfl

/-! ### Statements -/

/-- What holds of every answer holds of the one on the pool. -/
theorem onPool_ends {α : Type} {Q : α → Prop} {x : PageM Bytes α} (h : x.Ends Q)
    (p : Pool Bytes) : Q (onPool x p).1 := by
  induction x generalizing p with
  | pure a => exact h
  | alloc next ih => exact ih _ (h _) _
  | read id next ih =>
    unfold onPool
    split
    · exact ih _ (h _) _
    · exact ih _ (h _) _
  | write id body next ih =>
    unfold onPool
    split
    · exact ih h _
    · exact ih h _
  | free id next ih => exact ih h _
  | count next ih => exact ih _ (h _) _

/-- What holds of every end of a step holds of the session's. -/
theorem engineStep_ends {α : Type} {Q : Except ErrorCode α × Engine → Prop} {x : Step Engine α}
    {s : Session} (h : (x s.engine).Ends Q) : Q ((s.engineStep x).1, (s.engineStep x).2.engine) :=
  onPool_ends h s.pool

/-- COMMIT writes the catalog down; it does not change it. -/
theorem commitDatabase_engine (s : Session) : (commitDatabase s).2.engine = s.engine := by
  unfold commitDatabase andThen
  split
  · rfl
  · split <;> rfl

/-- A BEGIN leaves the engine. -/
theorem beginTransaction_engine (s : Session) : (beginTransaction s).2.engine = s.engine := by
  unfold beginTransaction
  split <;> rfl

/-- A COMMIT leaves the engine. -/
theorem commitTransaction_engine (s : Session) : (commitTransaction s).2.engine = s.engine := by
  unfold commitTransaction
  split <;> rfl

/-- Statements of the other kinds leave the slots alone. -/
theorem labelStep_eq {kind : StatementKind} (h : kind.bare = false) (s : Standing) :
    labelStep kind s = s := by
  cases kind <;> first | rfl | exact absurd h (by simp [StatementKind.bare])

/-- The kinds that the check does not rewrite, themselves. -/
theorem bare_ofKind : OfKind fun kind : StatementKind => if kind.bare then some kind else none :=
  ⟨fun _ _ => rfl, fun _ _ => rfl, fun _ _ => rfl, fun _ _ => rfl, fun _ _ => rfl, fun _ _ => rfl⟩

/-- The check of a statement without a subquery answers the statement itself. -/
theorem semanticCheck_bare {engine : Engine} {statement checked : Statement}
    (h : semanticCheck engine statement = .ok checked) :
    checked.kind.bare = statement.kind.bare ∧
      (statement.kind.bare = true → checked = statement) := by
  obtain ⟨hkind, hsubqueries⟩ := semanticCheck_keeps bare_ofKind h
  obtain ⟨kind, subqueries⟩ := checked
  obtain ⟨kind', subqueries'⟩ := statement
  obtain rfl : subqueries = subqueries' := hsubqueries
  dsimp only at hkind ⊢
  split at hkind
  · rename_i hbare
    split at hkind
    · rename_i hbare'
      exact ⟨hbare.trans hbare'.symm, fun _ => by rw [Option.some.inj hkind]⟩
    · exact absurd hkind (by simp)
  · rename_i hbare
    split at hkind
    · exact absurd hkind (by simp)
    · rename_i hbare'
      rw [Bool.not_eq_true] at hbare hbare'
      exact ⟨hbare.trans hbare'.symm, fun hyes => absurd (hbare'.symm.trans hyes) (by simp)⟩

/-- A statement that the check refuses would not touch the slots. -/
theorem semanticCheck_refuses {engine : Engine} {statement : Statement} {code : ErrorCode}
    (h : semanticCheck engine statement = .error code) :
    labelStep statement.kind engine.standing = engine.standing := by
  cases hbare : statement.kind.bare with
  | false => exact labelStep_eq hbare _
  | true =>
    unfold semanticCheck at h
    rcases hkind : statement.kind with _ | _ | _ | _ | _ | _ | _ | _ | _ | _ | _ | _ | _ | _ | _ | _
      <;> simp only [hkind, StatementKind.bare, Bool.false_eq_true] at hbare
    case STMT_CREATE_DATABASE name =>
      simp only [hkind, findDatabase_eq] at h
      simp only [labelStep, Engine.standing]
      cases hfound : findLabel engine.labels name with
      | none => simp [hfound] at h
      | some id => rfl
    case STMT_USE_DATABASE name =>
      simp only [hkind, findDatabase_eq] at h
      simp only [labelStep, Engine.standing]
      cases hfound : findLabel engine.labels name with
      | none => rfl
      | some id => simp [hfound] at h
    case STMT_DROP_DATABASE name =>
      simp only [hkind, findDatabase_eq] at h
      simp only [labelStep, Engine.standing]
      rcases hfound : findLabel engine.labels name with _ | _ | i
      · rfl
      · rfl
      · simp [hfound] at h
    case STMT_BEGIN | STMT_COMMIT | STMT_ROLLBACK => rfl

/-- The execution of a statement behind its subqueries. -/
theorem executeKind_standing {kind : StatementKind} (hkind : kind ≠ .STMT_ROLLBACK) (t : Session) :
    (match kind with
      | .STMT_BEGIN => beginTransaction t
      | .STMT_COMMIT => commitTransaction t
      | .STMT_ROLLBACK => rollbackTransaction t
      | kind => t.engineStep (executeKind kind)).2.engine.standing =
      labelStep kind t.engine.standing := by
  split
  · rw [beginTransaction_engine]
    rfl
  · rw [commitTransaction_engine]
    rfl
  · exact absurd rfl hkind
  · exact engineStep_ends (executeKind_labels kind t.engine)

/-- The execution of a statement that is not a ROLLBACK. -/
theorem executeStatement_labels {statement : Statement} (hparsed : statement.Parsed)
    (hkind : statement.kind ≠ .STMT_ROLLBACK) (s : Session) :
    (executeStatement statement s).2.engine.standing =
      labelStep statement.kind s.engine.standing := by
  have hsub : ((s.engineStep (materialiseSubqueries statement.subqueries)).2).engine.standing =
      s.engine.standing :=
    engineStep_ends (Q := fun r => r.2.standing = s.engine.standing)
      (materialiseSubqueries_keeps _ (fun t => t = s.engine.standing) s.engine rfl)
  unfold executeStatement andThen
  split
  · rename_i code hfailed
    cases hbare : statement.kind.bare with
    | false =>
      rw [labelStep_eq hbare]
      exact hsub
    | true =>
      -- without subqueries there is nothing to fail
      rw [hparsed hbare] at hfailed
      have hdone : (s.engineStep (materialiseSubqueries [])).1 = .ok () := rfl
      rw [hdone] at hfailed
      exact absurd hfailed (by simp)
  · rw [← hsub]
    exact executeKind_standing hkind _

/-- What follows the execution of a statement does not change the catalog. -/
theorem processStatement_engine {statement checked : Statement} {s : Session}
    (hcheck : semanticCheck s.engine statement = .ok checked) :
    (processStatement statement s).2.engine = (executeStatement checked s).2.engine := by
  have hcommitted : ∀ (now : Session → Bool) (v : Session),
      (if now v then commitDatabase v else (Except.ok (), v)).2.engine = v.engine := by
    intro now v
    split
    · exact commitDatabase_engine v
    · rfl
  unfold processStatement
  simp only [hcheck, andThen]
  split
  · rfl
  · split
    · rfl
    · refine (hcommitted
        (fun v => !(!s.transactionOpen && readsOnly statement.kind) && !v.transactionOpen) _).trans ?_
      split <;> rfl

/-- A statement that is not a ROLLBACK changes the slots as `labelStep` says. -/
theorem processStatement_labels {statement : Statement} (hparsed : statement.Parsed)
    (hkind : statement.kind ≠ .STMT_ROLLBACK) (s : Session) :
    (processStatement statement s).2.engine.standing = labelStep statement.kind s.engine.standing := by
  cases hcheck : semanticCheck s.engine statement with
  | error code =>
    have hsame : processStatement statement s = (.error code, s) := by
      unfold processStatement
      simp only [hcheck]
    rw [hsame]
    exact (semanticCheck_refuses hcheck).symm
  | ok checked =>
    obtain ⟨hbare, hsame⟩ := semanticCheck_bare hcheck
    rw [processStatement_engine hcheck]
    cases hb : statement.kind.bare with
    | true =>
      obtain rfl := hsame hb
      exact executeStatement_labels hparsed hkind s
    | false =>
      rw [hb] at hbare
      have hparsed' : checked.Parsed := fun h => absurd h (by simp [hbare])
      have hkind' : checked.kind ≠ .STMT_ROLLBACK := fun h => absurd hbare (by simp [h, StatementKind.bare])
      rw [executeStatement_labels hparsed' hkind', labelStep_eq hbare, labelStep_eq hb]

end DatabaseEngine
