import DatabaseEngine.Model.Connections
import DatabaseEngine.Proofs.Session.Reload
import DatabaseEngine.Proofs.Session.Transaction

/-!
# `DatabaseEngine.Proofs.Server.Ownership`: who owns the transaction

`transactionOpen` is one flag of the engine, `holdingForTransaction` one of each thread, and the
engine lock outlives the statement that took it. `Owned` ties the three.

* `runLocked_open`, `abandonTransaction_open`: all that ownership needs to know of a statement.
* `Owned.step`: every step of every thread keeps `Owned`, and `Owned.run` a whole run.
* `Owned.execute_atomic`: a statement under the lock is one step of `Model.Server`.
* `Owned.releases`: a thread that holds the lock can give it back, whatever the others do.
* `transactions_isolated`: between statements a transaction is open exactly when one thread owns
  it; every acquisition is released once; a transaction is one block of the history.
-/

set_option autoImplicit false

namespace DatabaseEngine

open Library

/-! ### What a statement does to `transactionOpen` -/

/-- A step on the engine opens and ends no transaction. -/
theorem Session.engineStep_open {α : Type} (x : Step Engine α) (s : Session) :
    (s.engineStep x).2.transactionOpen = s.transactionOpen := rfl

/-- Nor does a commit, with a fault or without one. -/
theorem commitDatabaseUnder_open (fault : Option CommitFault) (s : Session) :
    (commitDatabaseUnder fault s).2.transactionOpen = s.transactionOpen := by
  unfold commitDatabaseUnder andThen
  split
  · rfl
  · dsimp only
    have hpages : (s.pages (writeCatalogChain (saveCatalog s.engine) s.catalogRoot)).2.transactionOpen
        = s.transactionOpen := rfl
    generalize s.pages (writeCatalogChain (saveCatalog s.engine) s.catalogRoot) = written at hpages ⊢
    obtain ⟨answer, t⟩ := written
    split
    · rfl
    · cases answer with
      | error code => exact hpages
      | ok root =>
        dsimp only
        cases (poolCommitUnder fault (poolSetCatalogRoot root t.pool)).1 <;> exact hpages

/-- All that a statement does to `transactionOpen`, its execution does. -/
theorem runLocked_open {shared : Bool} {fault : Option Fault} {statement : Statement} {s : Session}
    {opened : Bool} (hs : s.transactionOpen = opened)
    (h : ∀ checked, semanticCheck s.engine statement = .ok checked →
      (executeStatementUnder (Fault.inBegin fault) checked s).2.transactionOpen = opened) :
    (runLocked shared fault statement s).2.transactionOpen = opened := by
  unfold runLocked
  cases hcheck : semanticCheck s.engine statement with
  | error code => exact hs
  | ok checked =>
    have hrun := h checked hcheck
    dsimp only
    unfold andThen
    generalize executeStatementUnder (Fault.inBegin fault) checked s = done at hrun ⊢
    obtain ⟨answer, t⟩ := done
    cases answer with
    | error code => exact hrun
    | ok _ =>
      dsimp only at hrun ⊢
      split
      · exact hrun
      · generalize hmarked : (if changesSchema checked.kind then
          ({ t with schemaChanged := true } : Session) else t) = u
        have hu : u.transactionOpen = opened := by
          rw [← hmarked]
          split <;> exact hrun
        split
        · exact (commitDatabaseUnder_open _ u).trans hu
        · exact hu

/-- What the execution of a statement does to `transactionOpen`, kind by kind. -/
theorem executeStatementUnder_open {fault : Option CheckpointFault} {statement : Statement}
    {s : Session} {opened : Bool} (hs : s.transactionOpen = opened)
    (hbegin : statement.kind = .STMT_BEGIN → opened = true)
    (hends : statement.kind.endsTransaction = true → opened = false) :
    (executeStatementUnder fault statement s).2.transactionOpen = opened := by
  unfold executeStatementUnder andThen
  have hfirst := (Session.engineStep_open (materialiseSubqueries statement.subqueries) s).trans hs
  generalize s.engineStep (materialiseSubqueries statement.subqueries) = first at hfirst ⊢
  obtain ⟨answer, t⟩ := first
  cases answer with
  | error code => exact hfirst
  | ok _ =>
    dsimp only at hfirst ⊢
    cases hkind : statement.kind with
    | STMT_BEGIN =>
      rw [hbegin hkind] at hfirst ⊢
      simp [beginTransactionUnder, hfirst]
    | STMT_COMMIT =>
      rw [hends (by rw [hkind]; rfl)] at hfirst ⊢
      simp [commitTransaction, hfirst]
    | STMT_ROLLBACK =>
      rw [hends (by rw [hkind]; rfl)] at hfirst ⊢
      simp [rollbackTransaction, hfirst]
    | _ => exact hfirst

/-- Whether a statement reads only is a matter of its kind. -/
theorem readsOnly_ofKind : OfKind readsOnly :=
  ⟨fun _ _ => rfl, fun _ _ => rfl, fun _ _ => rfl, fun _ _ => rfl, fun _ _ => rfl, fun _ _ => rfl⟩

/-- BEGIN. -/
def StatementKind.begins : StatementKind → Bool
  | .STMT_BEGIN => true
  | _ => false

/-- Whether a statement is a BEGIN is a matter of its kind. -/
theorem begins_ofKind : OfKind StatementKind.begins :=
  ⟨fun _ _ => rfl, fun _ _ => rfl, fun _ _ => rfl, fun _ _ => rfl, fun _ _ => rfl, fun _ _ => rfl⟩

/-- A statement that reads only ends no transaction. -/
theorem readsOnly_goesOn {kind : StatementKind} (h : readsOnly kind = true) :
    kind.endsTransaction = false := by
  cases kind with
  | STMT_SELECT select => rfl
  | _ => exact absurd h (by simp [readsOnly])

/-- A statement that runs under the lock of a reader leaves `transactionOpen` alone. -/
theorem runLocked_reads (fault : Option Fault) {statement : Statement} (s : Session)
    (hreads : readsOnly statement.kind = true) :
    (runLocked true fault statement s).2.transactionOpen = s.transactionOpen := by
  refine runLocked_open rfl fun checked hcheck => ?_
  have hselect := (semanticCheck_keeps readsOnly_ofKind hcheck).1.trans hreads
  refine executeStatementUnder_open rfl (fun hkind => ?_) fun hends => ?_
  · rw [hkind] at hselect
    exact absurd hselect (by simp [readsOnly])
  · rw [readsOnly_goesOn hselect] at hends
    exact absurd hends (by simp)

/-- Only BEGIN opens a transaction. -/
theorem runLocked_closed {shared : Bool} {fault : Option Fault} {statement : Statement}
    {s : Session} (hbegin : statement.kind.begins = false) (hs : s.transactionOpen = false) :
    (runLocked shared fault statement s).2.transactionOpen = false := by
  refine runLocked_open hs fun checked hcheck => ?_
  have hsame := (semanticCheck_keeps begins_ofKind hcheck).1
  refine executeStatementUnder_open hs (fun hkind => ?_) fun _ => rfl
  rw [hbegin, hkind] at hsame
  exact absurd hsame (by simp [StatementKind.begins])

/-- Only COMMIT and ROLLBACK end one. -/
theorem runLocked_stays {shared : Bool} {fault : Option Fault} {statement : Statement}
    {s : Session} (hends : statement.kind.endsTransaction = false) (hs : s.transactionOpen = true) :
    (runLocked shared fault statement s).2.transactionOpen = true := by
  refine runLocked_open hs fun checked hcheck => ?_
  refine executeStatementUnder_open hs (fun _ => rfl) fun hkind => ?_
  rw [semanticCheck_ends hcheck, hends] at hkind
  exact absurd hkind (by simp)

/-- A load does not look at `transactionOpen`. -/
theorem loadKeeps_open (opened : Bool) : LoadKeeps fun s => s.transactionOpen = opened where
  pages _ _ _ h := h
  placed _ _ _ h := h
  engine _ _ h := h

/-- A load leaves the flag of the transaction alone. -/
theorem loadDatabase_open (path : Path) (s : Session) :
    (loadDatabase path s).2.transactionOpen = s.transactionOpen := by
  have hclosed : (if walIsOpen s then closeDatabase s else s).transactionOpen
      = s.transactionOpen := by
    split <;> rfl
  unfold loadDatabase
  dsimp only
  generalize (if walIsOpen s then closeDatabase s else s) = t at hclosed ⊢
  split
  · exact hclosed
  · split
    · exact hclosed
    · exact (loadKeeps_open s.transactionOpen).loadPages hclosed fun _ _ => hclosed

/-- So does an open. -/
theorem openForWrite_open (path : Path) (s : Session) :
    (openForWrite path s).2.transactionOpen = s.transactionOpen := by
  unfold openForWrite
  split <;> rfl

/-- A ROLLBACK that succeeds ends the transaction. -/
theorem rollbackTransaction_open {s t : Session} (h : rollbackTransaction s = (.ok (), t)) :
    t.transactionOpen = false := by
  unfold rollbackTransaction at h
  split at h
  · exact absurd congr(Prod.fst $h) (by simp)
  · dsimp only at h
    split at h
    · exact absurd congr(Prod.fst $h) (by simp)
    · have hkept : (andThen (loadDatabase s.openPath
          { s with
            schemaChanged := false
            transactionOpen := false
            pool := poolRollback s.transactionPages s.pool }) fun _ u =>
          if walIsOpen s then openForWrite s.openPath u else (.ok (), u)).2.transactionOpen
            = false := by
        refine andThen_keeps (fun u => u.transactionOpen = false) (loadDatabase_open _ _)
          fun _ u hu => ?_
        split
        · exact (openForWrite_open s.openPath u).trans hu
        · exact hu
      rw [show t = (Except.ok (), t).2 from rfl, ← h]
      exact hkept

/-- A transaction whose session has gone is not open any more. -/
theorem abandonTransaction_open (s : Session) : (abandonTransaction s).transactionOpen = false := by
  unfold abandonTransaction
  split
  · rename_i hopen
    simpa using hopen
  · rename_i hopen
    cases hrun : rollbackTransaction s with
    | mk answer t =>
      cases answer with
      | error code => rfl
      | ok _ => exact rollbackTransaction_open hrun

/-! ### Where threads can be -/

/-- Whether a thread can be at a stage with its `holdingForTransaction`. A thread reads when it runs
a SELECT and holds nothing for a transaction. -/
def Stage.Fits : Stage → Bool → Prop
  | .absent, holding => holding = false
  | .idle, _ => True
  | .waiting reads statement, holding => holding = false ∧ reads = readsOnly statement.kind
  | .running reads statement, holding => reads = (!holding && readsOnly statement.kind)
  | .ran reads, holding => reads = true → holding = false
  | .leaving, _ => True
  | .abandoned, holding => holding = true
  | .gone, holding => holding = false

/-- The mode in which a stage has the lock by itself. -/
def Stage.mode : Stage → Option LockMode
  | .running reads _ => some (lockMode reads)
  | .ran reads => some (lockMode reads)
  | _ => none

/-- The work of the stage is done, and the lock not given back yet. -/
def Stage.Ending : Stage → Prop
  | .ran _ => True
  | .abandoned => True
  | _ => False

namespace Process

/-- What a thread should have of the lock. -/
def due (p : Process) (i : Nat) : Option LockMode :=
  if p.holdingForTransaction i then some .exclusive else (p.stage i).mode

/-- The transaction that is open, if one is, is the thread's. -/
def Opens (p : Process) (i : Nat) : Prop :=
  p.holdingForTransaction i = true ∨ p.stage i = .ran false

/-- Only one thread differs. -/
structure Same (p q : Process) (i : Nat) : Prop where
  stage : ∀ j, j ≠ i → q.stage j = p.stage j
  holding : ∀ j, j ≠ i → q.holdingForTransaction j = p.holdingForTransaction j

/-- What another thread has to do is the same. -/
theorem Same.due {p q : Process} {i j : Nat} (h : Same p q i) (hne : j ≠ i) :
    q.due j = p.due j := by
  unfold Process.due
  rw [h.stage j hne, h.holding j hne]

/-- Whether another thread opens a transaction is the same. -/
theorem Same.opens {p q : Process} {i j : Nat} (h : Same p q i) (hne : j ≠ i) :
    q.Opens j ↔ p.Opens j := by
  unfold Process.Opens
  rw [h.stage j hne, h.holding j hne]

/-- To enter a stage changes nothing for the others. -/
theorem same_enter (p : Process) (i : Nat) (stage : Stage) : Same p (p.enter i stage) i where
  stage _ hne := Function.update_of_ne hne ..
  holding _ _ := rfl

/-- To hold the lock for a transaction changes nothing for the others. -/
theorem same_hold (p : Process) (i : Nat) (stage : Stage) (holding : Bool) :
    Same p ((p.enter i stage).hold i holding) i where
  stage _ hne := Function.update_of_ne hne ..
  holding _ hne := Function.update_of_ne hne ..

/-- To unlock changes nothing for the others. -/
theorem Same.unlock {p q : Process} {i : Nat} (h : Same p q i) (mode : LockMode) :
    Same p (q.unlock i mode) i :=
  ⟨h.stage, h.holding⟩

/-- The stage that was entered. -/
@[simp] theorem enter_stage (p : Process) (i : Nat) (stage : Stage) :
    (p.enter i stage).stage i = stage := Function.update_self ..

/-- Whether the lock is held for a transaction. -/
@[simp] theorem hold_holding (p : Process) (i : Nat) (holding : Bool) :
    (p.hold i holding).holdingForTransaction i = holding := Function.update_self ..

/-- What a stage does not have the lock for, the thread has it for its transaction. -/
theorem due_holding {p : Process} {i : Nat} {mode : LockMode} (hdue : p.due i = some mode)
    (hmode : (p.stage i).mode = none) : p.holdingForTransaction i = true ∧ mode = .exclusive := by
  unfold Process.due at hdue
  cases hholding : p.holdingForTransaction i with
  | true =>
    rw [hholding, if_pos rfl] at hdue
    exact ⟨rfl, (Option.some.inj hdue).symm⟩
  | false =>
    rw [hholding, if_neg (by simp), hmode] at hdue
    exact absurd hdue (by simp)

/-- The thread of an open transaction has the lock to itself. -/
theorem Opens.due {p : Process} {i : Nat} (h : p.Opens i) : p.due i = some .exclusive := by
  unfold Process.due
  rcases h with hholding | hran
  · rw [if_pos hholding]
  · rw [hran]
    split <;> rfl

end Process

/-! ### Ownership -/

/-- The thread of what has been done. -/
def doneBy (done : Work × Bool) : Nat := done.1.thread

/-- The lock, the flags of the threads and the flag of the engine agree, and the history falls into
transactions. -/
structure Process.Owned (p : Process) (log : List Event) : Prop where
  kept : Kept p.engineLock (locks log)
  holds : ∀ i, p.engineLock.holds i = p.due i
  fits : ∀ i, (p.stage i).Fits (p.holdingForTransaction i)
  opened : p.session.transactionOpen = true → ∃ i, p.Opens i
  holder : ∀ i, p.holdingForTransaction i = true → ¬(p.stage i).Ending →
    p.session.transactionOpen = true
  ended : ∀ i, p.stage i = .abandoned → p.session.transactionOpen = false
  blocks : ∃ current, InBlocks doneBy Prod.snd (history log) current ∧
    (current = [] ↔ p.session.transactionOpen = false) ∧ ∀ d ∈ current, p.Opens (doneBy d)

namespace Process.Owned

variable {p q : Process} {log : List Event} {i : Nat}

/-- At the start nobody owns anything. -/
theorem listening {s : Session} (hclosed : s.transactionOpen = false) :
    (Process.listening s).Owned [] where
  kept := .free
  holds _ := rfl
  fits _ := rfl
  opened hopen := absurd (hclosed.symm.trans hopen) (by simp)
  holder _ hholding := absurd hholding (by simp [Process.listening])
  ended _ _ := hclosed
  blocks := ⟨[], .nil, by simp [Process.listening, hclosed], by simp⟩

/-- The thread of an open transaction is the writer. -/
theorem writer (h : p.Owned log) (hopens : p.Opens i) : p.engineLock.writer = some i :=
  RwLock.holds_exclusive.mp ((h.holds i).trans hopens.due)

/-- Nobody else holds anything. -/
theorem alone (h : p.Owned log) (hopens : p.Opens i) {j : Nat} {mode : LockMode}
    (hdue : p.due j = some mode) : j = i :=
  h.kept.alone (h.writer hopens) ((h.holds j).trans hdue)

/-- Under the lock of a reader no transaction is open. -/
theorem reading (h : p.Owned log) (hdue : p.due i = some .shared) :
    p.session.transactionOpen = false := by
  cases hopen : p.session.transactionOpen with
  | false => rfl
  | true =>
    obtain ⟨j, hj⟩ := h.opened hopen
    obtain rfl := h.alone hj hdue
    rw [hj.due] at hdue
    exact absurd hdue (by simp)

/-- A step of one thread that leaves the engine alone. -/
theorem move (h : p.Owned log) {more : List Event} (hsame : Process.Same p q i)
    (hshared : q.toShared = p.toShared) (hhistory : history more = [])
    (hkept : Kept q.engineLock (locks (log ++ more)))
    (hholds : ∀ j, q.engineLock.holds j = if j = i then q.due i else p.engineLock.holds j)
    (hfits : (q.stage i).Fits (q.holdingForTransaction i))
    (hopens : p.session.transactionOpen = true → p.Opens i → q.Opens i)
    (hholder : q.holdingForTransaction i = true → ¬(q.stage i).Ending →
      p.session.transactionOpen = true)
    (hended : q.stage i = .abandoned → p.session.transactionOpen = false) :
    q.Owned (log ++ more) := by
  have hopen : q.session.transactionOpen = p.session.transactionOpen := by rw [hshared]
  have hcarry : p.session.transactionOpen = true → ∀ j, p.Opens j → q.Opens j := by
    intro hopen j hj
    by_cases hne : j = i
    · subst hne
      exact hopens hopen hj
    · exact (hsame.opens hne).mpr hj
  refine ⟨hkept, fun j => ?_, fun j => ?_, fun ho => ?_, fun j hj hending => ?_, fun j hj => ?_, ?_⟩
  · rw [hholds j]
    split
    · rename_i heq
      rw [heq]
    · rename_i hne
      rw [h.holds j, hsame.due hne]
  · by_cases hne : j = i
    · subst hne
      exact hfits
    · rw [hsame.stage j hne, hsame.holding j hne]
      exact h.fits j
  · rw [hopen] at ho
    obtain ⟨j, hj⟩ := h.opened ho
    exact ⟨j, hcarry ho j hj⟩
  · rw [hopen]
    by_cases hne : j = i
    · subst hne
      exact hholder hj hending
    · rw [hsame.holding j hne] at hj
      rw [hsame.stage j hne] at hending
      exact h.holder j hj hending
  · rw [hopen]
    by_cases hne : j = i
    · subst hne
      exact hended hj
    · rw [hsame.stage j hne] at hj
      exact h.ended j hj
  · obtain ⟨current, hblocks, hempty, howner⟩ := h.blocks
    refine ⟨current, ?_, by rw [hempty, hopen], fun d hd => ?_⟩
    · rw [show history (log ++ more) = history log by
        unfold history at hhistory ⊢
        rw [List.filterMap_append, hhistory, List.append_nil]]
      exact hblocks
    · have ho : p.session.transactionOpen = true := by
        cases ho : p.session.transactionOpen with
        | true => rfl
        | false =>
          rw [hempty.mpr ho] at hd
          exact absurd hd (by simp)
      exact hcarry ho _ (howner d hd)

/-- A step in which the thread that has the lock works on the engine. -/
theorem work (h : p.Owned log) {work : Work} {stage : Stage} {mode : LockMode}
    (hi : work.thread = i) (hdue : p.due i = some mode)
    (hsame : (p.after work stage).due i = some mode)
    (hfits : stage.Fits (p.holdingForTransaction i)) (hending : stage.Ending)
    (hreads : mode = .shared →
      (work.apply p.toShared).session.transactionOpen = p.session.transactionOpen)
    (hwrites : mode = .exclusive → (work.apply p.toShared).session.transactionOpen = true →
      (p.after work stage).Opens i)
    (hended : stage = .abandoned → (work.apply p.toShared).session.transactionOpen = false) :
    (p.after work stage).Owned
      (log ++ [.did work (work.apply p.toShared).session.transactionOpen]) := by
  have hothers : Process.Same p (p.after work stage) i := by
    rw [← hi]
    exact ⟨(Process.same_enter p work.thread stage).stage, fun _ _ => rfl⟩
  have hstage : (p.after work stage).stage i = stage := by
    rw [← hi]
    exact Process.enter_stage p work.thread stage
  have hmine : (work.apply p.toShared).session.transactionOpen = true →
      (p.after work stage).Opens i := by
    intro ho
    cases hmode : mode with
    | shared =>
      rw [hmode] at hdue
      rw [hreads hmode, h.reading hdue] at ho
      exact absurd ho (by simp)
    | exclusive => exact hwrites hmode ho
  refine ⟨?_, fun j => ?_, fun j => ?_, fun ho => ⟨i, hmine ho⟩, fun j hj hnot => ?_,
    fun j hj => ?_, ?_⟩
  · rw [show locks (log ++ [.did work (work.apply p.toShared).session.transactionOpen])
      = locks log by simp [locks]]
    exact h.kept
  · rw [show (p.after work stage).engineLock = p.engineLock from rfl, h.holds j]
    by_cases hne : j = i
    · rw [hne, hdue, hsame]
    · exact (hothers.due hne).symm
  · by_cases hne : j = i
    · rw [hne, hstage]
      exact hfits
    · rw [hothers.stage j hne, hothers.holding j hne]
      exact h.fits j
  · by_cases hne : j = i
    · rw [hne, hstage] at hnot
      exact absurd hending hnot
    · have hholding : p.holdingForTransaction j = true := hj
      exact absurd (h.alone (.inl hholding) hdue).symm hne
  · by_cases hne : j = i
    · rw [hne, hstage] at hj
      exact hended hj
    · have hfit := h.fits j
      rw [hothers.stage j hne] at hj
      rw [hj] at hfit
      exact absurd (h.alone (.inl hfit) hdue).symm hne
  · obtain ⟨current, hblocks, hempty, howner⟩ := h.blocks
    have hall : ∀ d ∈ current, doneBy d = i := fun d hd => (h.alone (howner d hd) hdue).symm
    have hnext := hblocks.extend (e := (work, (work.apply p.toShared).session.transactionOpen))
      fun d hd => (hall d hd).trans hi.symm
    rw [show history log ++ [(work, (work.apply p.toShared).session.transactionOpen)]
      = history (log ++ [.did work (work.apply p.toShared).session.transactionOpen]) by
        simp [history]] at hnext
    refine ⟨_, hnext, ?_, ?_⟩
    · rw [show (p.after work stage).session = (work.apply p.toShared).session from rfl]
      cases (work.apply p.toShared).session.transactionOpen <;> simp
    · intro d hd
      cases ho : (work.apply p.toShared).session.transactionOpen with
      | false =>
        rw [ho] at hd
        exact absurd hd (by simp)
      | true =>
        rw [ho, if_pos rfl] at hd
        have hd : doneBy d = i := by
          rcases List.mem_append.mp hd with hd | hd
          · exact hall d hd
          · rw [List.mem_singleton.mp hd]
            exact hi
        rw [hd]
        exact hmine ho

/-- A step of one thread that leaves the engine and the lock alone. -/
theorem still (h : p.Owned log) {stage : Stage} (hdue : (p.enter i stage).due i = p.due i)
    (hfits : stage.Fits (p.holdingForTransaction i))
    (hopens : p.Opens i → p.holdingForTransaction i = true)
    (hholder : p.holdingForTransaction i = true → ¬stage.Ending →
      p.session.transactionOpen = true)
    (hended : stage ≠ .abandoned) : (p.enter i stage).Owned (log ++ []) := by
  have hstage := Process.enter_stage p i stage
  refine h.move (i := i) (Process.same_enter p i stage) rfl rfl ?_ (fun j => ?_) ?_
    (fun _ hj => .inl (hopens hj)) ?_ ?_
  · rw [List.append_nil]
    exact h.kept
  · rw [show (p.enter i stage).engineLock = p.engineLock from rfl]
    split
    · rename_i heq
      rw [heq, hdue, h.holds i]
    · rfl
  · rw [hstage]
    exact hfits
  · rw [hstage]
    exact hholder
  · rw [hstage]
    exact fun heq => absurd heq hended

/-- The thread gives the lock back, with no transaction open. -/
theorem unlocked (h : p.Owned log) {mode : LockMode} (hdue : p.due i = some mode)
    (hsame : Process.Same p q i) (hshared : q.toShared = p.toShared)
    (hlock : q.engineLock = p.engineLock.unlock i mode)
    (hstage : q.stage i = .idle ∨ q.stage i = .gone) (hholding : q.holdingForTransaction i = false)
    (hclosed : p.session.transactionOpen = false) :
    q.Owned (log ++ [.lock (.release i mode)]) := by
  have hheld : p.engineLock.holds i = some mode := (h.holds i).trans hdue
  have hnone : q.due i = none := by
    unfold Process.due
    rcases hstage with hstage | hstage <;> rw [hholding, hstage] <;> rfl
  refine h.move (i := i) hsame hshared rfl ?_ (fun j => ?_) ?_ (fun ho => ?_) (fun hj => ?_)
    fun _ => hclosed
  · rw [hlock, show locks (log ++ [.lock (.release i mode)]) = locks log ++ [.release i mode] by
      simp [locks]]
    exact h.kept.release hheld
  · rw [hlock]
    split
    · rename_i heq
      rw [heq, hnone]
      exact h.kept.sound.holds_unlock_self hheld
    · rename_i hne
      exact h.kept.sound.holds_unlock_other hheld hne
  · rcases hstage with hstage | hstage <;> rw [hstage, hholding]
    · trivial
    · rfl
  · exact absurd (hclosed.symm.trans ho) (by simp)
  · rw [hholding] at hj
    exact absurd hj (by simp)

/-- What the end of `ProcessStatement` comes to. -/
theorem giveBack_eq (p : Process) (i : Nat) (reads : Bool) :
    p.giveBack i reads
      = match p.holdingForTransaction i, reads, p.session.transactionOpen with
        | true, _, true => (none, p.enter i .idle)
        | true, _, false => (some .exclusive, ((p.enter i .idle).hold i false).unlock i .exclusive)
        | false, true, _ => (some .shared, (p.enter i .idle).unlock i .shared)
        | false, false, true => (none, (p.enter i .idle).hold i true)
        | false, false, false => (some .exclusive, (p.enter i .idle).unlock i .exclusive) := by
  unfold Process.giveBack
  cases p.holdingForTransaction i <;> cases reads <;> cases p.session.transactionOpen <;> rfl

/-- The end of `ProcessStatement`. -/
theorem giveBack (h : p.Owned log) {reads : Bool} (hstage : p.stage i = .ran reads) :
    (p.giveBack i reads).2.Owned
      (log ++ ((p.giveBack i reads).1.map fun mode => Event.lock (.release i mode)).toList) := by
  have hsame := Process.same_enter p i .idle
  have hidle : (p.enter i .idle).stage i = .idle := Process.enter_stage p i .idle
  rw [giveBack_eq]
  cases hholding : p.holdingForTransaction i with
  | true =>
    have hdue : p.due i = some .exclusive := Process.Opens.due (.inl hholding)
    cases hopen : p.session.transactionOpen with
    | false =>
      -- COMMIT or ROLLBACK has ended the transaction
      dsimp only
      exact h.unlocked hdue ((Process.same_hold p i .idle false).unlock .exclusive) rfl rfl (.inl hidle)
        (Process.hold_holding (p.enter i .idle) i false) hopen
    | true =>
      refine h.still ?_ trivial (fun _ => hholding) (fun _ _ => hopen) (by simp)
      rw [hdue]
      exact Process.Opens.due (.inl hholding)
  | false =>
    have hdue : p.due i = some (lockMode reads) := by
      unfold Process.due
      rw [hholding, hstage]
      rfl
    cases reads with
    | true =>
      dsimp only
      exact h.unlocked hdue (hsame.unlock .shared) rfl rfl (.inl hidle) hholding (h.reading hdue)
    | false =>
      cases hopen : p.session.transactionOpen with
      | false =>
        dsimp only
        exact h.unlocked hdue (hsame.unlock .exclusive) rfl rfl (.inl hidle) hholding hopen
      | true =>
        -- BEGIN: the lock stays with the thread
        dsimp only
        have hhold := Process.hold_holding (p.enter i .idle) i true
        have hkeeps : ((p.enter i .idle).hold i true).due i = p.due i := by
          rw [hdue]
          exact Process.Opens.due (.inl hhold)
        refine h.move (i := i) (Process.same_hold p i .idle true) rfl rfl ?_ (fun j => ?_) ?_
          (fun _ _ => .inl hhold) (fun _ _ => hopen) fun hj => ?_
        · rw [Option.map_none, Option.toList_none, List.append_nil]
          exact h.kept
        · split
          · rename_i heq
            rw [heq]
            exact (h.holds i).trans hkeeps.symm
          · rfl
        · show ((p.enter i .idle).stage i).Fits _
          rw [hidle]
          trivial
        · exact absurd (hidle.symm.trans hj) (by simp)

/-- A thread that waits or has not begun owns nothing. -/
theorem not_opens {stage : Stage} (hstage : p.stage i = stage)
    (hholding : p.holdingForTransaction i = false) (hran : stage ≠ .ran false) : ¬p.Opens i := by
  rintro (hopens | hopens)
  · exact absurd (hholding.symm.trans hopens) (by simp)
  · exact hran (hstage.symm.trans hopens)

/-- A thread goes to another stage in which it has nothing of the lock by itself. -/
theorem idles (h : p.Owned log) {stage next : Stage} (hstage : p.stage i = stage)
    (hmode : stage.mode = none) (hnext : next.mode = none) (hran : stage ≠ .ran false)
    (hfits : next.Fits (p.holdingForTransaction i)) (hending : ¬stage.Ending)
    (hended : next ≠ .abandoned) : (p.enter i next).Owned (log ++ []) := by
  refine h.still ?_ hfits (fun hopens => ?_)
    (fun hholding _ => h.holder i hholding (hstage ▸ hending)) hended
  · unfold Process.due
    rw [Process.enter_stage, hstage, hmode, hnext]
    rfl
  · rcases hopens with hholding | hopens
    · exact hholding
    · exact absurd (hstage.symm.trans hopens) hran

/-- The lock is granted. -/
theorem acquire (h : p.Owned log) {reads : Bool} {statement : Statement}
    (hstage : p.stage i = .waiting reads statement)
    (hgrants : p.engineLock.grants (lockMode reads)) :
    (p.acquire i reads statement).Owned
      (log ++ [.lock (.acquire i (lockMode reads))]) := by
  have hfits := h.fits i
  rw [hstage] at hfits
  obtain ⟨hholding, hreads⟩ := hfits
  have hnone : p.engineLock.holds i = none := by
    rw [h.holds i]
    unfold Process.due
    rw [hholding, hstage]
    rfl
  have hsame := Process.same_enter p i (.running reads statement)
  have hnext : (p.acquire i reads statement).stage i = .running reads statement :=
    Process.enter_stage p i (.running reads statement)
  have hstill : (p.acquire i reads statement).holdingForTransaction i = false := hholding
  refine h.move (i := i) ⟨hsame.stage, hsame.holding⟩ rfl rfl ?_ (fun j => ?_) ?_
    (fun _ hopens => absurd hopens (not_opens hstage hholding (by simp)))
    (fun hj => absurd (hstill.symm.trans hj) (by simp))
    fun hj => absurd (hnext.symm.trans hj) (by simp)
  · rw [show locks (log ++ [.lock (.acquire i (lockMode reads))])
      = locks log ++ [.acquire i (lockMode reads)] by simp [locks]]
    exact h.kept.acquire hgrants hnone
  · split
    · rename_i heq
      rw [heq]
      refine (RwLock.holds_lock_self hgrants).trans ?_
      unfold Process.due
      rw [hstill, hnext]
      rfl
    · rename_i hne
      exact RwLock.holds_lock_other hgrants hne
  · rw [hnext, hstill]
    exact hreads

/-- The statement that a thread runs has the lock in the mode of its thread. -/
theorem running (h : p.Owned log) {reads : Bool} {statement : Statement}
    (hstage : p.stage i = .running reads statement) :
    p.due i = some (lockMode reads) ∧ reads = (!p.holdingForTransaction i && readsOnly statement.kind) ∧
      p.session.transactionOpen = p.holdingForTransaction i := by
  have hfits := h.fits i
  rw [hstage] at hfits
  have hreads : reads = (!p.holdingForTransaction i && readsOnly statement.kind) := hfits
  have hdue : p.due i = some (lockMode reads) := by
    unfold Process.due
    cases hholding : p.holdingForTransaction i with
    | true =>
      rw [hreads, hholding]
      rfl
    | false =>
      rw [hstage]
      rfl
  refine ⟨hdue, hreads, ?_⟩
  cases hholding : p.holdingForTransaction i with
  | true => exact h.holder i hholding (by simp [hstage, Stage.Ending])
  | false =>
    cases hopen : p.session.transactionOpen with
    | false => rfl
    | true =>
      obtain ⟨j, hj⟩ := h.opened hopen
      obtain rfl := h.alone hj hdue
      exact absurd hj (not_opens hstage hholding (by simp))

/-- A statement runs. -/
theorem execute (h : p.Owned log) {reads : Bool} {statement : Statement} (world : World)
    (fault : Option Fault) (hstage : p.stage i = .running reads statement) :
    (p.after (.process i reads world fault statement) (.ran reads)).Owned
      (log ++ [.did (.process i reads world fault statement)
        ((Work.process i reads world fault statement).apply
          p.toShared).session.transactionOpen]) := by
  obtain ⟨hdue, hreads, -⟩ := h.running hstage
  have hnext : (p.after (.process i reads world fault statement) (.ran reads)).stage i
      = .ran reads := Process.enter_stage p i (.ran reads)
  refine h.work (i := i) rfl hdue ?_ (fun heq => ?_) trivial (fun hmode => ?_)
    (fun hmode _ => .inr ?_) (by simp)
  · rw [← hdue]
    unfold Process.due
    rw [hnext, hstage]
    rfl
  · rw [hreads, Bool.and_eq_true, Bool.not_eq_true'] at heq
    exact heq.1
  · have hshared : reads = true := by
      cases reads with
      | true => rfl
      | false => exact absurd hmode (by simp [lockMode])
    rw [hshared, eq_comm, Bool.and_eq_true] at hreads
    rw [hshared]
    exact runLocked_reads fault ((p.toShared.seenBy i).under world) hreads.2
  · have hwrites : reads = false := by
      cases reads with
      | false => rfl
      | true => exact absurd hmode (by simp [lockMode])
    rw [hnext, hwrites]

/-- Without a fault a statement under the lock is one step of the server that takes statements one
after another. -/
theorem execute_atomic (h : p.Owned log) {reads : Bool} {statement : Statement}
    (hstage : p.stage i = .running reads statement) :
    (Work.process i reads { canOpen := p.session.canOpen, memory := p.session.memory } none
        statement).apply p.toShared
      = p.toShared.leftBy i (processStatement statement (p.toShared.seenBy i)).2 := by
  obtain ⟨-, hreads, hopen⟩ := h.running hstage
  have hshared : reads = (!(p.toShared.seenBy i).transactionOpen && readsOnly statement.kind) := by
    rw [hreads, ← hopen]
    rfl
  rw [← processStatementUnder_none]
  unfold processStatementUnder
  rw [← hshared]
  rfl

/-- Every step keeps the lock and the flags in agreement. -/
theorem step (h : p.Owned log) {more : List Event} (hstep : Process.Step p more q) :
    q.Owned (log ++ more) := by
  cases hstep with
  | @connect i hstage => exact h.idles hstage rfl rfl (by simp) trivial id (by simp)
  | @submit i statement hstage =>
    cases statement with
    | none =>
      rw [List.append_nil]
      exact h
    | some statement =>
      unfold Process.submit
      dsimp only
      cases hholding : p.holdingForTransaction i with
      | false =>
        exact h.idles hstage rfl rfl (by simp) ⟨hholding, Bool.true_and _⟩ id (by simp)
      | true =>
        refine h.still ?_ (by rw [hholding]; rfl) (fun _ => hholding)
          (fun _ _ => h.holder i hholding (by simp [hstage, Stage.Ending])) (by simp)
        rw [show p.due i = some .exclusive from Process.Opens.due (.inl hholding)]
        exact Process.Opens.due (.inl hholding)
  | @acquire i reads statement hstage hgrants => exact h.acquire hstage hgrants
  | @execute i reads statement world fault hstage => exact h.execute world fault hstage
  | @giveBack i reads hstage => exact h.giveBack hstage
  | @timeout i hstage hholding => exact h.idles hstage rfl rfl (by simp) trivial id (by simp)
  | @hangUp i hstage => exact h.idles hstage rfl rfl (by simp) trivial id (by simp)
  | @close i hstage hholding => exact h.idles hstage rfl rfl (by simp) hholding id (by simp)
  | @abandon i world hstage hholding =>
    have hdue : p.due i = some .exclusive := Process.Opens.due (.inl hholding)
    exact h.work rfl hdue (Process.Opens.due (.inl hholding)) hholding trivial
      (fun hmode => absurd hmode (by simp)) (fun _ _ => .inl hholding)
      fun _ => abandonTransaction_open ((p.toShared.seenBy i).under world)
  | @release i hstage =>
    have hholding := h.fits i
    rw [hstage] at hholding
    have hholding : p.holdingForTransaction i = true := hholding
    unfold Process.releaseTransaction
    rw [hholding]
    have hsame := Process.same_hold p i .gone false
    exact h.unlocked (Process.Opens.due (.inl hholding)) ⟨hsame.stage, hsame.holding⟩ rfl rfl
      (.inr (Process.enter_stage _ i .gone)) (Process.hold_holding p i false) (h.ended i hstage)

/-- So does a run. -/
theorem run (h : p.Owned []) (hrun : Process.Run p log q) : q.Owned log := by
  induction hrun with
  | start => exact h
  | step _ hstep ih => exact ih.step hstep

end Process.Owned

/-! ### Giving the lock back -/

/-- The thread can go on by itself until it has released the lock. -/
def Process.Releases (p : Process) (i : Nat) (mode : LockMode) : Prop :=
  ∃ more q, Process.Run p more q ∧ (∀ event ∈ more, event.thread = i) ∧
    Event.lock (.release i mode) ∈ more

namespace Process.Releases

variable {p q : Process} {i : Nat} {mode : LockMode}

/-- A release among the events of a step is a release by the thread of the step. -/
theorem now {more : List Event} (hstep : Process.Step p more q)
    (hmine : ∀ event ∈ more, event.thread = i) (hin : Event.lock (.release i mode) ∈ more) :
    p.Releases i mode := by
  have hrun := Process.Run.start.step hstep
  exact ⟨more, q, hrun, hmine, hin⟩

/-- One step, and then on. -/
theorem after {more : List Event} (hstep : Process.Step p more q)
    (hmine : ∀ event ∈ more, event.thread = i) (h : q.Releases i mode) : p.Releases i mode := by
  obtain ⟨log, r, hrun, hlog, hin⟩ := h
  have hall : Process.Run p (more ++ log) r := by
    clear hlog hin
    induction hrun with
    | start =>
      rw [List.append_nil]
      exact Process.Run.start.step hstep
    | @step log last r t hrun hlast ih =>
      rw [← List.append_assoc]
      exact ih.step hlast
  refine ⟨more ++ log, r, hall, fun event hevent => ?_, List.mem_append_right _ hin⟩
  rcases List.mem_append.mp hevent with hevent | hevent
  · exact hmine event hevent
  · exact hlog event hevent

/-- A thread in `closeSession` that holds for its transaction rolls it back, and releases. -/
theorem leaving (hstage : p.stage i = .leaving) (hholding : p.holdingForTransaction i = true) :
    p.Releases i .exclusive := by
  have hnext : (p.after (.abandon i ⟨fun _ => true, 0⟩) .abandoned).stage i = .abandoned :=
    Process.enter_stage p i .abandoned
  refine after (.abandon ⟨fun _ => true, 0⟩ hstage hholding) (by simp [Event.thread, Work.thread]) ?_
  exact now (.release hnext) (by simp [Event.thread, LockEvent.thread]) (by simp)

/-- The owner of a transaction can hang up. -/
theorem idle (hstage : p.stage i = .idle) (hholding : p.holdingForTransaction i = true) :
    p.Releases i .exclusive :=
  after (.hangUp hstage) (by simp)
    (leaving (Process.enter_stage p i .leaving) hholding)

/-- Behind a statement the lock is released, or kept by a thread that is idle. -/
theorem ran {reads : Bool} (hstage : p.stage i = .ran reads)
    (hdue : p.due i = some (lockMode reads)) : p.Releases i (lockMode reads) := by
  have hmine : ∀ event ∈ ((p.giveBack i reads).1.map fun mode =>
      Event.lock (.release i mode)).toList, event.thread = i := by
    intro event hevent
    obtain ⟨mode, -, rfl⟩ := Option.map_eq_some_iff.mp (Option.mem_toList.mp hevent)
    rfl
  have hidle : (p.enter i .idle).stage i = .idle := Process.enter_stage p i .idle
  have hstep := Process.Step.giveBack hstage
  have heq := Process.Owned.giveBack_eq p i reads
  unfold Process.due at hdue
  cases hholding : p.holdingForTransaction i with
  | true =>
    rw [hholding, if_pos rfl] at hdue
    rw [← Option.some.inj hdue]
    cases hopen : p.session.transactionOpen with
    | false =>
      rw [hholding, hopen] at heq
      dsimp only at heq
      rw [heq] at hstep hmine
      exact now hstep hmine (by simp)
    | true =>
      rw [hholding, hopen] at heq
      dsimp only at heq
      rw [heq] at hstep hmine
      exact after hstep hmine (idle hidle hholding)
  | false =>
    cases reads with
    | true =>
      rw [hholding] at heq
      dsimp only at heq
      rw [heq] at hstep hmine
      exact now hstep hmine (by simp [lockMode])
    | false =>
      cases hopen : p.session.transactionOpen with
      | false =>
        rw [hholding, hopen] at heq
        dsimp only at heq
        rw [heq] at hstep hmine
        exact now hstep hmine (by simp [lockMode])
      | true =>
        rw [hholding, hopen] at heq
        dsimp only at heq
        rw [heq] at hstep hmine
        exact after hstep hmine (idle hidle (Process.hold_holding (p.enter i .idle) i true))

end Process.Releases

/-- Whoever holds the lock can give it back without waiting for anyone. -/
theorem Process.Owned.releases {p : Process} {log : List Event} (h : p.Owned log) {i : Nat}
    {mode : LockMode} (hheld : p.engineLock.holds i = some mode) : p.Releases i mode := by
  have hdue : p.due i = some mode := (h.holds i).symm.trans hheld
  have hfits := h.fits i
  cases hstage : p.stage i with
  | running reads statement =>
    obtain ⟨hmode, -, -⟩ := h.running hstage
    obtain rfl : lockMode reads = mode := Option.some.inj (hmode.symm.trans hdue)
    have hnext : (p.after (.process i reads ⟨fun _ => true, 0⟩ none statement) (.ran reads)).stage i
        = .ran reads := Process.enter_stage p i (.ran reads)
    refine .after (.execute ⟨fun _ => true, 0⟩ none hstage) (by simp [Event.thread, Work.thread])
      (.ran hnext ?_)
    rw [← hmode]
    unfold Process.due
    rw [hnext, hstage]
    rfl
  | ran reads =>
    rw [hstage] at hfits
    have hfits : reads = true → p.holdingForTransaction i = false := hfits
    have hmode : lockMode reads = mode := by
      unfold Process.due at hdue
      rw [hstage] at hdue
      cases hholding : p.holdingForTransaction i with
      | false =>
        rw [hholding] at hdue
        exact Option.some.inj hdue
      | true =>
        rw [hholding] at hdue
        cases reads with
        | true => exact absurd ((hfits rfl).symm.trans hholding) (by simp)
        | false => exact Option.some.inj hdue
    subst hmode
    exact .ran hstage hdue
  | idle =>
    obtain ⟨hholding, rfl⟩ := Process.due_holding hdue (by rw [hstage]; rfl)
    exact .idle hstage hholding
  | leaving =>
    obtain ⟨hholding, rfl⟩ := Process.due_holding hdue (by rw [hstage]; rfl)
    exact .leaving hstage hholding
  | abandoned =>
    obtain ⟨hholding, rfl⟩ := Process.due_holding hdue (by rw [hstage]; rfl)
    exact .now (.release hstage) (by simp [Event.thread, LockEvent.thread]) (by simp)
  | absent =>
    obtain ⟨hholding, rfl⟩ := Process.due_holding hdue (by rw [hstage]; rfl)
    rw [hstage] at hfits
    exact absurd (hfits.symm.trans hholding) (by simp)
  | waiting reads statement =>
    obtain ⟨hholding, rfl⟩ := Process.due_holding hdue (by rw [hstage]; rfl)
    rw [hstage] at hfits
    exact absurd (hfits.1.symm.trans hholding) (by simp)
  | gone =>
    obtain ⟨hholding, rfl⟩ := Process.due_holding hdue (by rw [hstage]; rfl)
    rw [hstage] at hfits
    exact absurd (hfits.symm.trans hholding) (by simp)

/-! ### What the engine has been through -/

/-- The engine after what has been done to it, one after another. -/
def Shared.replay (shared : Shared) (done : List (Work × Bool)) : Shared :=
  done.foldl (fun shared d => d.1.apply shared) shared

/-- The shared state after a step is that of its work. -/
theorem Process.Step.shared {p q : Process} {more : List Event} (h : Process.Step p more q) :
    q.toShared = p.toShared.replay (history more) := by
  cases h with
  | @submit i statement hstage =>
    cases statement with
    | none => rfl
    | some statement =>
      unfold Process.submit
      dsimp only
      split <;> rfl
  | @giveBack i reads hstage =>
    rw [Process.Owned.giveBack_eq]
    cases p.holdingForTransaction i <;> cases reads <;> cases p.session.transactionOpen <;> rfl
  | @release i hstage =>
    unfold Process.releaseTransaction
    split <;> rfl
  | _ => rfl

/-- The shared state after a run is that of its work, in order. -/
theorem Process.Run.shared {p q : Process} {log : List Event} (h : Process.Run p log q) :
    q.toShared = p.toShared.replay (history log) := by
  induction h with
  | start => rfl
  | step hrun hstep ih =>
    rw [hstep.shared, ih]
    unfold Shared.replay history
    rw [List.filterMap_append, List.foldl_append]

/-- The work is a BEGIN. -/
def Work.begins : Work → Bool
  | .process _ _ _ _ statement => statement.kind.begins
  | .abandon _ _ => false

/-- The work can end a transaction: COMMIT, ROLLBACK, or a connection that has gone. -/
def Work.ends : Work → Bool
  | .process _ _ _ _ statement => statement.kind.endsTransaction
  | .abandon _ _ => true

/-- Without a BEGIN no transaction is opened. -/
theorem Work.apply_closed {work : Work} {shared : Shared} (hbegins : work.begins = false)
    (hclosed : shared.session.transactionOpen = false) :
    (work.apply shared).session.transactionOpen = false := by
  cases work with
  | process i reads world fault statement => exact runLocked_closed hbegins hclosed
  | abandon i world => exact abandonTransaction_open ((shared.seenBy i).under world)

/-- Without an end a transaction stays open. -/
theorem Work.apply_stays {work : Work} {shared : Shared} (hends : work.ends = false)
    (hopen : shared.session.transactionOpen = true) :
    (work.apply shared).session.transactionOpen = true := by
  cases work with
  | process i reads world fault statement => exact runLocked_stays hends hopen
  | abandon i world => exact absurd hends (by simp [Work.ends])

/-- Every entry of a history says whether a transaction is open behind it. -/
def Shared.Noted (shared : Shared) (done : List (Work × Bool)) : Prop :=
  ∀ front d back, done = front ++ d :: back →
    d.2 = (shared.replay (front ++ [d])).session.transactionOpen

/-- Work that is done one after the other. -/
theorem Shared.replay_append (shared : Shared) (front back : List (Work × Bool)) :
    shared.replay (front ++ back) = (shared.replay front).replay back :=
  List.foldl_append ..

/-- One more piece of work, with the flag as it leaves it. -/
theorem Shared.Noted.extend {shared : Shared} {done : List (Work × Bool)} (h : shared.Noted done)
    (work : Work) :
    shared.Noted
      (done ++ [(work, (work.apply (shared.replay done)).session.transactionOpen)]) := by
  intro front d back heq
  rcases List.eq_nil_or_concat back with rfl | ⟨back, last, rfl⟩
  · obtain ⟨rfl, hd⟩ := List.append_inj' heq rfl
    obtain rfl := List.singleton_inj.mp hd
    rw [Shared.replay_append]
    rfl
  · rw [List.concat_eq_append, ← List.cons_append, ← List.append_assoc] at heq
    obtain ⟨hfront, -⟩ := List.append_inj' heq rfl
    exact h front d back hfront

/-- A run notes the flag as every piece of its work has left it. -/
theorem Process.Run.noted {p q : Process} {log : List Event} (h : Process.Run p log q) :
    p.toShared.Noted (history log) := by
  induction h with
  | start => exact fun front d back heq => absurd heq (by simp [history])
  | @step log more q r hrun hstep ih =>
    have hshared := hrun.shared
    have hnone : ∀ {events : List Event}, history events = [] →
        p.toShared.Noted (history (log ++ events)) := by
      intro events hevents
      unfold history at hevents ih ⊢
      rw [List.filterMap_append, hevents, List.append_nil]
      exact ih
    have hone : ∀ work : Work, p.toShared.Noted (history (log ++
        [.did work (work.apply q.toShared).session.transactionOpen])) := by
      intro work
      have hnext := ih.extend work
      rw [← hshared] at hnext
      unfold history at hnext ⊢
      rw [List.filterMap_append]
      exact hnext
    cases hstep with
    | @execute i reads statement world fault hstage => exact hone _
    | @abandon i world hstage hholding => exact hone _
    | @giveBack i reads hstage =>
      refine hnone ?_
      cases (q.giveBack i reads).1 <;> rfl
    | _ => exact hnone rfl

/-! ### Isolation -/

/-- What the lock, the flags and the history say of transactions after a run from `start`. -/
structure Process.Isolated (start : Shared) (p : Process) (log : List Event) : Prop where
  /-- Between statements a transaction is open exactly when one thread owns it. -/
  owned : (∀ i, ¬(p.stage i).Ending) →
    (p.session.transactionOpen = true ↔
      ∃! i, p.holdingForTransaction i = true ∧ p.engineLock.writer = some i)
  /-- The owner is the writer, and nobody else has anything of the lock. -/
  alone : ∀ i, p.holdingForTransaction i = true →
    p.engineLock.writer = some i ∧ ∀ j, j ≠ i → p.engineLock.holds j = none
  /-- Each acquisition is released once, before the next of the same thread. -/
  paired : ∀ i, Paired i (locks log) (p.engineLock.holds i)
  /-- Whoever holds the lock can go on to release it. -/
  releases : ∀ i mode, p.engineLock.holds i = some mode → p.Releases i mode
  gone : ∀ i, p.stage i = .gone → p.engineLock.holds i = none
  /-- What was done falls into transactions, each of one thread and in one piece. Only the last can
  be open. -/
  blocks : ∃ current, InBlocks doneBy Prod.snd (history log) current ∧
    (current = [] ↔ p.session.transactionOpen = false)
  begins : ∀ front d back, history log = front ++ d :: back → (∀ c ∈ front.getLast?, c.2 = false) →
    d.2 = true → d.1.begins = true
  ends : ∀ front c d back, history log = front ++ c :: d :: back → c.2 = true → d.2 = false →
    d.1.ends = true
  /-- The engine is what this history makes of it. -/
  serial : p.toShared = start.replay (history log)

/-- In every run of the threads of a server, transactions are owned by one thread at a time, the
lock is handed back for each time it was taken, and nothing of another thread comes between BEGIN
and the end. -/
theorem transactions_isolated (s : Session) (hclosed : s.transactionOpen = false)
    (log : List Event) (p : Process) (hrun : Process.Run (Process.listening s) log p) :
    p.Isolated (Process.listening s).toShared log := by
  have h := (Process.Owned.listening hclosed).run hrun
  have hnoted := hrun.noted
  refine ⟨fun hnone => ⟨fun hopen => ?_, ?_⟩, fun i hholding => ⟨h.writer (.inl hholding), ?_⟩,
    h.kept.paired, fun i mode hheld => h.releases hheld, fun i hgone => ?_, ?_, ?_, ?_, hrun.shared⟩
  · obtain ⟨i, hi⟩ := h.opened hopen
    have hholding : p.holdingForTransaction i = true := by
      rcases hi with hholding | hran
      · exact hholding
      · exact absurd (hran ▸ trivial) (hnone i)
    refine ⟨i, ⟨hholding, h.writer (.inl hholding)⟩, fun j hj => ?_⟩
    exact h.alone (.inl hholding) (Process.Opens.due (.inl hj.1))
  · rintro ⟨i, ⟨hholding, -⟩, -⟩
    exact h.holder i hholding (hnone i)
  · intro j hne
    cases hheld : p.engineLock.holds j with
    | none => rfl
    | some mode =>
      exact absurd (h.alone (.inl hholding) ((h.holds j).symm.trans hheld)) hne
  · have hfits := h.fits i
    rw [hgone] at hfits
    have hfits : p.holdingForTransaction i = false := hfits
    rw [h.holds i]
    unfold Process.due
    rw [hfits, hgone]
    rfl
  · obtain ⟨current, hblocks, hempty, -⟩ := h.blocks
    exact ⟨current, hblocks, hempty⟩
  · intro front d back heq hbefore hopen
    -- the engine before `d`, where no transaction is open
    have hstart : ((Process.listening s).toShared.replay front).session.transactionOpen = false := by
      rcases List.eq_nil_or_concat front with rfl | ⟨front, c, rfl⟩
      · exact hclosed
      · rw [List.concat_eq_append] at heq hbefore ⊢
        rw [← hnoted front c (d :: back) (by rw [heq, List.append_assoc]; rfl)]
        exact hbefore c (by simp)
    cases hbegins : d.1.begins with
    | true => rfl
    | false =>
      have hd := hnoted front d back heq
      rw [Shared.replay_append] at hd
      have hnot := Work.apply_closed hbegins hstart
      exact absurd (hnot.symm.trans (hd.symm.trans hopen)) (by simp)
  · intro front c d back heq hc hd
    cases hends : d.1.ends with
    | true => rfl
    | false =>
      have hbefore := hnoted front c (d :: back) heq
      have hafter := hnoted (front ++ [c]) d back (by rw [heq, List.append_assoc]; rfl)
      rw [Shared.replay_append _ (front ++ [c])] at hafter
      have hstays := Work.apply_stays hends (hbefore.symm.trans hc)
      exact absurd (hstays.symm.trans (hafter.symm.trans hd)) (by simp)

/-- BEGIN opens a transaction when none is open. -/
theorem runLocked_begin {s : Session} (hclosed : s.transactionOpen = false) :
    (runLocked false none StatementKind.STMT_BEGIN.alone s).2.transactionOpen = true := by
  have hexec : executeStatementUnder none StatementKind.STMT_BEGIN.alone s
      = (.ok (), { s with
          pool := poolCheckpoint s.pool
          transactionPages := (poolCheckpoint s.pool).pageCount
          transactionOpen := true }) := by
    show beginTransactionUnder none s = _
    simp only [beginTransactionUnder, hclosed, poolCheckpointUnder_none]
    rfl
  have hcheck : semanticCheck s.engine StatementKind.STMT_BEGIN.alone
      = .ok StatementKind.STMT_BEGIN.alone := rfl
  unfold runLocked
  rw [hcheck]
  dsimp only
  rw [show executeStatementUnder (Fault.inBegin none) StatementKind.STMT_BEGIN.alone s
    = executeStatementUnder none StatementKind.STMT_BEGIN.alone s from rfl, hexec]
  unfold andThen
  dsimp only
  split <;> rfl

/-- One connection begins a transaction while another waits with a COMMIT. It hangs up, and the
other gets the lock. -/
theorem transactions_isolated_handover :
    ∃ log p, Process.Run (Process.listening startSession) log p ∧
      p.engineLock.writer = some 1 ∧ locks log
        = [.acquire 0 .exclusive, .release 0 .exclusive, .acquire 1 .exclusive] ∧
      p.Isolated (Process.listening startSession).toShared log := by
  let world : World := { canOpen := fun _ => true, memory := 2 ^ 32 }
  let begin : Statement := StatementKind.STMT_BEGIN.alone
  let commit : Statement := StatementKind.STMT_COMMIT.alone
  let p₀ := Process.listening startSession
  let p₁ := (p₀.enter 0 .idle).enter 1 .idle
  let p₂ := (p₁.submit 0 (some begin)).submit 1 (some commit)
  let p₃ := p₂.acquire 0 false begin
  let p₄ := p₃.after (.process 0 false world none begin) (.ran false)
  have hopen : p₄.session.transactionOpen = true := runLocked_begin rfl
  let p₅ := (p₄.enter 0 .idle).hold 0 true
  have hgive : p₄.giveBack 0 false = (none, p₅) := by
    rw [Process.Owned.giveBack_eq, hopen]
    rfl
  have hrun₄ : Process.Run p₀ _ p₄ :=
    (((((Process.Run.start.step (.connect (i := 0) rfl)).step (.connect (i := 1) rfl)).step
      (.submit (i := 0) (some begin) rfl)).step (.submit (i := 1) (some commit) rfl)).step
      (@Process.Step.acquire _ 0 false _ rfl ⟨rfl, rfl⟩)).step
      (.execute (i := 0) world none rfl)
  have hstep₅ := Process.Step.giveBack (p := p₄) (i := 0) rfl
  rw [hgive] at hstep₅
  let p₆ := (p₅.enter 0 .leaving).after (.abandon 0 world) .abandoned
  have hrun₇ : Process.Run p₀ _ ((p₆.releaseTransaction 0).enter 0 .gone) :=
    (((hrun₄.step hstep₅).step (.hangUp (i := 0) rfl)).step (.abandon (i := 0) world rfl rfl)).step
      (.release (i := 0) rfl)
  have hrun := hrun₇.step (.acquire (i := 1) rfl ⟨rfl, rfl⟩)
  exact ⟨_, _, hrun, rfl, rfl, transactions_isolated startSession rfl _ _ hrun⟩

end DatabaseEngine
