import DatabaseEngine.Library.Run
import DatabaseEngine.Model.Server
import DatabaseEngine.Proofs.Session.Naming
import DatabaseEngine.Proofs.Session.Rollback

/-!
# `DatabaseEngine.Proofs.Session.Binding`: which database a session's statements run against

A session remembers the number of a slot, and names own the slots. `Tracked` follows, beside
the server, the name that each session has selected; it falls back to the default database
when no database has the name any more.

* `Tracked.Bound`: every session stands in the slot of the name it has selected.
* `Tracked.Steady`: what a request must not do to the other sessions. A DROP DATABASE takes
  no slot another session stands in, and a ROLLBACK finds in the file the slots as they are.
* `rollback_standing`: ROLLBACK takes the slots from the file.
* `sessions_stay_bound`: in every run of such requests the sessions stay bound.
* `session_lands_elsewhere`: without the condition, a dropped slot that is used again and a
  ROLLBACK after a DROP both leave a session in a database it never selected.
-/

set_option autoImplicit false

namespace DatabaseEngine

open Library

/-! ### What a session has selected -/

/-- The server, and the name of the database that each session has selected. -/
structure Tracked where
  server : Server
  selected : Nat → Name

/-- A name as long as a database has it, and the default one otherwise. -/
def orMain (labels : List Label) (name : Name) : Name :=
  if (findLabel labels name).isSome then name else mainName

/-- What a session has selected after its statement: a USE selects a database that is there. -/
def nextSelected (labels : List Label) (kind : StatementKind) (name : Name) : Name :=
  match kind with
  | .STMT_USE_DATABASE chosen => if (findLabel labels chosen).isSome then chosen else name
  | _ => name

/-- One request, to the server and to what each session has selected. -/
def trackedStep (t : Tracked) (request : Request) : Tracked :=
  let server := serverStep t.server request
  { server := server
    selected := fun j =>
      orMain server.shared.engine.labels
        (if j = request.session ∧ t.server.admits request.session then
          nextSelected t.server.shared.engine.labels request.statement.kind (t.selected j)
        else t.selected j) }

/-- A statement of each session would run against the database that it has selected. -/
def Tracked.Bound (t : Tracked) : Prop :=
  ∀ j, (t.server.seenBy j).engine.database.used = true ∧
    (t.server.seenBy j).engine.database.name.same (t.selected j) = true

/-- The session in which a load of the session's file would begin. -/
def Session.closed (s : Session) : Session :=
  if walIsOpen s.discarded then closeDatabase s.discarded else s.discarded

/-- The catalog that the session's file holds without the changes of the transaction. -/
def Session.fileCatalog (s : Session) : Option Engine :=
  match s.closed.openFile s.openPath with
  | none => none
  | some inode =>
    match readHeader (s.closed.pool.files inode).head with
    | .error _ => none
    | .ok header =>
      if header.version = SAVE_VERSION then
        storedCatalog s.memory header.catalog (openedPool inode header.pageTotal s.closed.pool)
      else none

/-- The request leaves the slots of the other sessions alone. A DROP DATABASE is not of a
database that another session has selected. A ROLLBACK that goes back to the file finds the
other sessions' databases there in the slots in which they stand, and as the current one the
database that its own session has selected. -/
def Tracked.Steady (t : Tracked) (request : Request) : Prop :=
  t.server.admits request.session = true →
    let s := t.server.seenBy request.session
    match request.statement.kind with
    | .STMT_DROP_DATABASE name => ∀ j, j ≠ request.session →
      (t.server.threads j).current = 0 ∨
        findLabel s.engine.labels name ≠ some (t.server.threads j).current
    | .STMT_ROLLBACK => s.transactionOpen = true → s.openPath ≠ [] →
      ∃ e, s.fileCatalog = some e ∧
        (∀ j, j ≠ request.session → Stands e.labels (t.server.threads j).current (t.selected j)) ∧
        Stands e.labels e.current (orMain e.labels (t.selected request.session))
    | _ => True

/-! ### Slots and names -/

section
variable {labels : List Label} {name : Name} {id : Nat}

/-- A name that stands is not replaced by the main database's. -/
theorem orMain_eq (h : WellNamed labels) (hstands : Stands labels id name) :
    orMain labels name = name := by
  unfold orMain
  rw [h.find_eq hstands]
  rfl

/-- The slot of a session that did not make the request. -/
theorem labelStep_others {s : Standing} (kind : StatementKind) (hstands : Stands s.labels id name)
    (hsteady : ∀ dropped, kind = .STMT_DROP_DATABASE dropped →
      id = 0 ∨ findLabel s.labels dropped ≠ some id) :
    Stands (labelStep kind s).labels id name := by
  obtain ⟨n, hn, hsame⟩ := hstands
  unfold labelStep
  split
  · split
    · -- the new database takes a free slot, which is not this one
      rename_i i hnew hslot
      obtain ⟨hlt, hfree, -⟩ := List.findIdx?_eq_some_iff_getElem.mp hslot
      have hne : i ≠ id := by
        rintro rfl
        rw [List.getElem?_eq_getElem hlt] at hn
        rw [Option.some.inj hn] at hfree
        exact absurd hfree (by simp)
      exact ⟨n, by simp [hne, hn], hsame⟩
    · exact ⟨n, hn, hsame⟩
  · split <;> exact ⟨n, hn, hsame⟩
  · split
    · exact ⟨n, hn, hsame⟩
    · exact ⟨n, hn, hsame⟩
    · rename_i i hfound
      have hne : i + 1 ≠ id := by
        rintro rfl
        rcases hsteady _ rfl with h | h
        · exact absurd h (by simp)
        · exact h hfound
      exact ⟨n, by simp [hne, hn], hsame⟩
  · exact ⟨n, hn, hsame⟩

/-- The slot of the session that made the request. -/
theorem labelStep_own {s : Standing} (h : WellNamed s.labels) (kind : StatementKind)
    (hstands : Stands s.labels s.current name) :
    let s' := labelStep kind s
    Stands s'.labels s'.current (orMain s'.labels (nextSelected s.labels kind name)) := by
  intro s'
  have hnamed : WellNamed s'.labels := h.step kind
  have hkept : s'.current = s.current → Stands s'.labels s.current name →
      nextSelected s.labels kind name = name →
      Stands s'.labels s'.current (orMain s'.labels (nextSelected s.labels kind name)) := by
    intro hcurrent hthere hselected
    rw [hcurrent, hselected, orMain_eq hnamed hthere]
    exact hthere
  cases kind with
  | STMT_CREATE_DATABASE created =>
    refine hkept ?_ (labelStep_others _ hstands (by simp)) rfl
    show (labelStep (.STMT_CREATE_DATABASE created) s).current = s.current
    unfold labelStep
    simp only
    split <;> rfl
  | STMT_USE_DATABASE chosen =>
    cases hfound : findLabel s.labels chosen with
    | none =>
      have hsame : s' = s := by simp [s', labelStep, hfound]
      refine hkept (by rw [hsame]) (by rw [hsame]; exact hstands) (by simp [nextSelected, hfound])
    | some i =>
      have hmoved : s' = { s with current := i } := by simp [s', labelStep, hfound]
      have hthere : Stands s.labels i chosen := findLabel_stands hfound
      have hselected : nextSelected s.labels (.STMT_USE_DATABASE chosen) name = chosen := by
        simp [nextSelected, hfound]
      rw [hmoved, hselected, orMain_eq h hthere]
      exact hthere
  | STMT_DROP_DATABASE dropped =>
    rcases hfound : findLabel s.labels dropped with _ | _ | i
    · have hsame : s' = s := by simp [s', labelStep, hfound]
      exact hkept (by rw [hsame]) (by rw [hsame]; exact hstands) rfl
    · have hsame : s' = s := by simp [s', labelStep, hfound]
      exact hkept (by rw [hsame]) (by rw [hsame]; exact hstands) rfl
    · have hfreed : s' =
          { current := if s.current = i + 1 then 0 else s.current
            labels := s.labels.modify (i + 1) fun l => (false, l.2) } := by
        simp [s', labelStep, hfound]
      by_cases hin : s.current = i + 1
      · -- dropping the database you are standing in leaves you in the default one
        have hgone : findLabel s'.labels name = none := by
          cases hstill : findLabel s'.labels name with
          | none => rfl
          | some j =>
            obtain ⟨m, hm, hsame⟩ := findLabel_stands hstill
            rw [hfreed] at hm
            simp only [List.getElem?_modify] at hm
            obtain ⟨l, hl, heq⟩ := Option.map_eq_some_iff.mp hm
            split at heq
            · exact absurd heq (by simp)
            · rename_i hne
              have hj : Stands s.labels j name := ⟨m, by rw [hl, heq], hsame⟩
              exact absurd (hin ▸ h.stands_unique hstands hj) hne
        have hcurrent : s'.current = 0 := by rw [hfreed]; simp [hin]
        have hselected : orMain s'.labels (nextSelected s.labels (.STMT_DROP_DATABASE dropped) name)
            = mainName := by
          simp [orMain, nextSelected, hgone]
        rw [hcurrent, hselected]
        exact hnamed.stands_main
      · refine hkept (by rw [hfreed]; simp [hin]) (labelStep_others _ hstands ?_) rfl
        rintro other heq
        obtain rfl := (StatementKind.STMT_DROP_DATABASE.inj heq)
        exact .inr fun h => hin (by simpa [hfound] using h.symm)
  | _ => exact hkept rfl hstands rfl

end

/-! ### ROLLBACK -/

/-- A file whose catalog can be read is loaded with it. -/
theorem loadDatabase_closed {s : Session} {e : Engine} (h : s.fileCatalog = some e) :
    ∃ u, loadDatabase s.openPath s.discarded = (.ok (), u) ∧ u.engine.Alike e := by
  unfold Session.fileCatalog at h
  have hload : loadDatabase s.openPath s.discarded =
      match s.closed.openFile s.openPath with
      | none => (.error .IO_CANNOT_OPEN, s.closed)
      | some inode =>
        match readHeader (s.closed.pool.files inode).head with
        | .error code => (.error code, s.closed)
        | .ok header => loadPages s.openPath inode header s.closed := rfl
  rw [hload]
  split at h
  · exact absurd h (by simp)
  · rename_i inode hopens
    split at h
    · exact absurd h (by simp)
    · rename_i header hheader
      split at h
      · rename_i hversion
        have hmemory : s.closed.memory = s.memory := by
          unfold Session.closed
          split <;> rfl
        rw [← hmemory] at h
        obtain ⟨e', hlike, hpages⟩ := loadPages_stored h
        have heq : header =
            { version := SAVE_VERSION, pageTotal := header.pageTotal, catalog := header.catalog } := by
          rw [← hversion]
        rw [heq, hpages]
        exact ⟨_, rfl, hlike⟩
      · exact absurd h (by simp)

/-- ROLLBACK takes the slots from the file. -/
theorem rollback_standing {s : Session} {e : Engine} (hopen : s.transactionOpen = true)
    (hnamed : s.openPath ≠ []) (h : s.fileCatalog = some e) :
    (rollbackTransaction s).2.engine.standing = e.standing := by
  obtain ⟨u, hload, hdatabases, hcurrent⟩ := loadDatabase_closed h
  have hrollback : rollbackTransaction s =
      andThen (loadDatabase s.openPath s.discarded) fun _ u =>
        if walIsOpen { s with schemaChanged := false } then openForWrite s.openPath u
        else (.ok (), u) := by
    unfold rollbackTransaction
    rw [if_neg (by simp [hopen])]
    dsimp only
    rw [if_neg hnamed]
    rfl
  have hengine : (rollbackTransaction s).2.engine = u.engine := by
    rw [hrollback, hload]
    show (if _ then openForWrite s.openPath u else (.ok (), u)).2.engine = u.engine
    split
    · exact openForWrite_engine _ _
    · rfl
  rw [hengine]
  unfold Engine.standing Engine.labels
  rw [hdatabases, hcurrent]

/-- Without a transaction or without a file there is nothing to go back to. -/
theorem rollback_refuses {s : Session} (h : ¬(s.transactionOpen = true ∧ s.openPath ≠ [])) :
    (rollbackTransaction s).2.engine = s.engine := by
  unfold rollbackTransaction
  split
  · rfl
  · rename_i hopen
    dsimp only
    split
    · rfl
    · rename_i hnamed
      exact absurd ⟨by simpa using hopen, hnamed⟩ h

/-- The ROLLBACK statement leaves the catalog that `rollbackTransaction` leaves. -/
theorem rollbackStatement_engine {statement : Statement} (hparsed : statement.Parsed)
    (hkind : statement.kind = .STMT_ROLLBACK) (s : Session) :
    (processStatement statement s).2.engine = (rollbackTransaction s).2.engine := by
  obtain ⟨kind, subqueries⟩ := statement
  obtain rfl : kind = .STMT_ROLLBACK := hkind
  obtain rfl : subqueries = [] := hparsed rfl
  rw [processStatement_engine rfl]
  rfl

/-! ### Runs -/

/-- Names are in order, and every session stands in the slot of the name it has selected. -/
structure Tracked.Standing (t : Tracked) : Prop where
  named : WellNamed t.server.shared.engine.labels
  stands : ∀ j, Stands t.server.shared.engine.labels (t.server.threads j).current (t.selected j)

/-- A name that stands is the one the session is bound to. -/
theorem Tracked.Standing.bound {t : Tracked} (h : t.Standing) : t.Bound := by
  intro j
  obtain ⟨n, hn, hsame⟩ := h.stands j
  obtain ⟨db, hdb, hlabel⟩ := List.getElem?_map .. ▸ hn |> Option.map_eq_some_iff.mp
  have hdatabase : (t.server.seenBy j).engine.database = db := by
    show t.server.shared.engine.databases.getD (t.server.threads j).current freeSlot = db
    rw [List.getD_eq_getElem?_getD, hdb]
    rfl
  rw [hdatabase]
  obtain ⟨hused, hname⟩ := Prod.mk.inj hlabel
  exact ⟨hused, hname ▸ hsame⟩

/-- What a request does to the slots, once it has the lock. -/
theorem request_stands {t : Tracked} (h : t.Standing) {request : Request}
    (hadmits : t.server.admits request.session = true) (hsteady : t.Steady request) :
    let s' := (processStatement request.statement (t.server.seenBy request.session)).2
    (∀ j, j ≠ request.session →
      Stands s'.engine.labels (t.server.threads j).current (t.selected j)) ∧
    Stands s'.engine.labels s'.engine.current (orMain s'.engine.labels
      (nextSelected t.server.shared.engine.labels request.statement.kind
        (t.selected request.session))) := by
  intro s'
  have hsteady := hsteady hadmits
  let s := t.server.seenBy request.session
  let before : DatabaseEngine.Standing := s.engine.standing
  by_cases hkind : request.statement.kind = .STMT_ROLLBACK
  · simp only [hkind] at hsteady
    have hengine : s'.engine = (rollbackTransaction s).2.engine :=
      rollbackStatement_engine request.parsed hkind s
    have hselected : nextSelected t.server.shared.engine.labels request.statement.kind
        (t.selected request.session) = t.selected request.session := by
      rw [hkind]
      rfl
    rw [hselected]
    by_cases hback : s.transactionOpen = true ∧ s.openPath ≠ []
    · obtain ⟨e, hfile, hothers, hown⟩ := hsteady hback.1 hback.2
      have hstanding : s'.engine.standing = e.standing := by
        rw [hengine]
        exact rollback_standing hback.1 hback.2 hfile
      have hlabels : s'.engine.labels = e.labels := congrArg DatabaseEngine.Standing.labels hstanding
      have hcurrent : s'.engine.current = e.current :=
        congrArg DatabaseEngine.Standing.current hstanding
      rw [hlabels, hcurrent]
      exact ⟨hothers, hown⟩
    · have hsame : s'.engine = s.engine := hengine.trans (rollback_refuses hback)
      rw [hsame]
      refine ⟨fun j _ => h.stands j, ?_⟩
      show Stands t.server.shared.engine.labels (t.server.threads request.session).current
        (orMain t.server.shared.engine.labels _)
      rw [orMain_eq h.named (h.stands _)]
      exact h.stands _
  · have hstanding : s'.engine.standing = labelStep request.statement.kind before :=
      processStatement_labels request.parsed hkind s
    have hlabels : s'.engine.labels = (labelStep request.statement.kind before).labels :=
      congrArg DatabaseEngine.Standing.labels hstanding
    have hcurrent : s'.engine.current = (labelStep request.statement.kind before).current :=
      congrArg DatabaseEngine.Standing.current hstanding
    rw [hlabels, hcurrent]
    constructor
    · intro j hj
      refine labelStep_others request.statement.kind (h.stands j) fun dropped hdrop => ?_
      simp only [hdrop] at hsteady
      exact hsteady j hj
    · exact labelStep_own h.named request.statement.kind (h.stands request.session)

/-- Whatever a ROLLBACK finds in the file, the names are in order afterwards. -/
theorem rollbackTransaction_named {s : Session} (h : s.Named) :
    (rollbackTransaction s).2.Named := by
  by_cases hback : s.transactionOpen = true ∧ s.openPath ≠ []
  · have hloaded := loadDatabase_named s.openPath (s := s.discarded) h
    unfold rollbackTransaction
    rw [if_neg (by simp [hback.1])]
    dsimp only
    rw [if_neg hback.2]
    show (andThen (loadDatabase s.openPath s.discarded) _).2.Named
    unfold andThen
    split
    · exact hloaded
    · split
      · unfold Session.Named
        rw [openForWrite_engine]
        exact hloaded
      · exact hloaded
  · unfold Session.Named
    rw [rollback_refuses hback]
    exact h

/-- A statement keeps the names in order. -/
theorem processStatement_named {statement : Statement} (hparsed : statement.Parsed) {s : Session}
    (h : s.Named) : (processStatement statement s).2.Named := by
  by_cases hkind : statement.kind = .STMT_ROLLBACK
  · unfold Session.Named
    rw [rollbackStatement_engine hparsed hkind]
    exact rollbackTransaction_named h
  · have hlabels : (processStatement statement s).2.engine.labels =
        (labelStep statement.kind s.engine.standing).labels :=
      congrArg DatabaseEngine.Standing.labels (processStatement_labels hparsed hkind s)
    unfold Session.Named
    rw [hlabels]
    exact h.step (s := s.engine.standing) statement.kind

/-- One request of any session. -/
theorem trackedStep_stands {t : Tracked} {request : Request} (h : t.Standing)
    (hsteady : t.Steady request) : (trackedStep t request).Standing := by
  cases hadmits : t.server.admits request.session with
  | false =>
    -- the session waits
    have hserver : serverStep t.server request = t.server := by
      unfold serverStep
      rw [hadmits]
      rfl
    refine ⟨by simp only [trackedStep, hserver]; exact h.named, fun j => ?_⟩
    simp only [trackedStep, hserver, hadmits, Bool.false_eq_true, and_false, if_false]
    rw [orMain_eq h.named (h.stands j)]
    exact h.stands j
  | true =>
    have hserver : serverStep t.server request =
        t.server.leftBy request.session
          (processStatement request.statement (t.server.seenBy request.session)).2 := by
      unfold serverStep
      rw [hadmits]
      rfl
    have hnamed : (processStatement request.statement (t.server.seenBy request.session)).2.Named :=
      processStatement_named request.parsed h.named
    obtain ⟨hothers, hown⟩ := request_stands h hadmits hsteady
    refine ⟨by simp only [trackedStep, hserver]; exact hnamed, fun j => ?_⟩
    simp only [trackedStep, hserver, hadmits, and_true]
    by_cases hj : j = request.session
    · subst hj
      simp only [Server.leftBy, if_true]
      exact hown
    · simp only [Server.leftBy, if_neg hj]
      rw [orMain_eq hnamed (hothers j hj)]
      exact hothers j hj

/-- A process that has opened nothing yet, over any disk. -/
structure Session.Fresh (s : Session) : Prop where
  engine : s.engine = startEngine
  transactionOpen : s.transactionOpen = false

/-- The server of a file, with all its sessions in the default database. -/
def Tracked.start (path : Path) (s : Session) : Tracked :=
  { server := serve path s, selected := fun _ => mainName }

/-- A fresh session starts with a name that stands. -/
theorem start_stands (path : Path) {s : Session} (h : s.Fresh) : (Tracked.start path s).Standing := by
  have hnamed : s.Named := by
    unfold Session.Named
    rw [h.engine]
    exact initEngine_named _
  have hopened := openSession_named path hnamed
  exact ⟨hopened, fun _ => hopened.stands_main⟩

/-- In every run of any number of sessions in which no request changes the slots under another
session, each statement runs against the database that its session has selected. -/
theorem sessions_stay_bound (path : Path) (s : Session) (h : s.Fresh) (requests : List Request)
    (hsteady : StepsMeet trackedStep Tracked.Steady (Tracked.start path s) requests)
    (front back : List Request) (hsplit : requests = front ++ back) :
    (run trackedStep (Tracked.start path s) front).Bound :=
  (hsteady.always Tracked.Standing (fun _ _ => trackedStep_stands) (start_stands path h)
    hsplit).bound

/-- A ROLLBACK is steady when the file holds the slots as its own session sees them. -/
theorem Tracked.Standing.steady {t : Tracked} (h : t.Standing) {i : Nat}
    (hfile : ((t.server.seenBy i).fileCatalog.map Engine.standing) =
      some (t.server.seenBy i).engine.standing) :
    t.Steady (StatementKind.STMT_ROLLBACK.by i) := by
  intro _ s _ _
  obtain ⟨e, he, hstanding⟩ := Option.map_eq_some_iff.mp hfile
  have hlabels : e.labels = t.server.shared.engine.labels :=
    congrArg DatabaseEngine.Standing.labels hstanding
  have hcurrent : e.current = (t.server.threads i).current :=
    congrArg DatabaseEngine.Standing.current hstanding
  refine ⟨e, he, fun j _ => ?_, ?_⟩
  · rw [hlabels]
    exact h.stands j
  · show Stands e.labels e.current (orMain e.labels (t.selected i))
    rw [hlabels, hcurrent, orMain_eq h.named (h.stands i)]
    exact h.stands i

/-! ### Two sessions -/

/-- CREATE DATABASE. -/
def createNamed (name : List UInt8) : StatementKind := .STMT_CREATE_DATABASE (Name.ofBytes name)
/-- USE. -/
def useNamedDatabase (name : List UInt8) : StatementKind := .STMT_USE_DATABASE (Name.ofBytes name)
/-- DROP DATABASE. -/
def dropNamed (name : List UInt8) : StatementKind := .STMT_DROP_DATABASE (Name.ofBytes name)

/-- The server of a new file after the requests. -/
def afterRequests (requests : List Request) : Tracked :=
  run trackedStep (Tracked.start somePath startSession) requests

/-- Session 1 selects a database that session 0 has made, and opens a transaction. -/
def selectThenBegin : List Request :=
  [(createNamed [97]).by 0, (useNamedDatabase [97]).by 1, StatementKind.STMT_BEGIN.by 1]

/-- A session selects its database, and a ROLLBACK keeps it there. -/
theorem sessions_stay_bound_rollback :
    (run trackedStep (Tracked.start somePath startSession)
      (selectThenBegin ++ [StatementKind.STMT_ROLLBACK.by 1])).Bound := by
  have hfresh : startSession.Fresh := ⟨rfl, rfl⟩
  have hbegun : StepsMeet trackedStep Tracked.Steady (Tracked.start somePath startSession)
      selectThenBegin := ⟨fun _ => trivial, fun _ => trivial, fun _ => trivial, trivial⟩
  have hfile : (((afterRequests selectThenBegin).server.seenBy 1).fileCatalog.map
      Engine.standing) = some ((afterRequests selectThenBegin).server.seenBy 1).engine.standing := by
    decide +kernel
  have hstanding : (afterRequests selectThenBegin).Standing :=
    hbegun.invariant Tracked.Standing (fun _ _ => trackedStep_stands)
      (start_stands somePath hfresh)
  have hback : StepsMeet trackedStep Tracked.Steady (afterRequests selectThenBegin)
      [StatementKind.STMT_ROLLBACK.by 1] := ⟨hstanding.steady hfile, trivial⟩
  exact sessions_stay_bound somePath startSession hfresh _ (StepsMeet.append.mpr ⟨hbegun, hback⟩)
    _ [] (List.append_nil _).symm

/-- Session 1 selects `a`, session 0 drops it and makes `b` in its slot: session 1 is in `b`.
Session 0 makes `a` and session 1 selects it, then a ROLLBACK of session 0, which has selected
nothing, leaves session 0 in `a`. -/
theorem session_lands_elsewhere :
    ¬(afterRequests [(createNamed [97]).by 0, (useNamedDatabase [97]).by 1,
        (dropNamed [97]).by 0, (createNamed [98]).by 0]).Bound ∧
      ¬(afterRequests [(createNamed [97]).by 0, (useNamedDatabase [97]).by 1,
        StatementKind.STMT_BEGIN.by 0, StatementKind.STMT_ROLLBACK.by 0]).Bound := by
  constructor
  · exact fun h => absurd (h 1).2 (by decide +kernel)
  · exact fun h => absurd (h 0).2 (by decide +kernel)

end DatabaseEngine
