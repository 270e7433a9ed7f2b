import DatabaseEngine.Library.Run
import DatabaseEngine.Proofs.Pool.Clean

/-!
# `DatabaseEngine.Proofs.Session.Transaction`: what statements inside a transaction can reach

Between BEGIN and the end of a transaction nothing is committed, so no change is logged, and a
change that is not logged has nowhere to go but its frame.

* `Pool.Held`: the file, the log and the header fields are what they were, and no dirty page
  is logged. `held_client` says that the pool's own moves and every page program keep it.
* `processStatement_inside`: so does a statement that does not end the transaction, whatever
  comes of it.
* `inside_run`: and so do all of them together.
-/

set_option autoImplicit false

namespace DatabaseEngine

open Library

section
variable {α : Type} [PageBody α]

/-- No dirty page of the frames is in the log. -/
def NothingLogged (frames : List (Frame α)) : Prop :=
  ∀ f ∈ frames, f.pageId.isSome → f.dirty = true → f.logged = false

/-- The pool `q` is `p` with changes in memory only. -/
structure Pool.Held (p q : Pool α) : Prop where
  files : q.files = p.files
  pageFile : q.pageFile = p.pageFile
  writable : q.writable = p.writable
  catalogRootPage : q.catalogRootPage = p.catalogRootPage
  checksums : q.checksums = p.checksums
  wal : q.wal = p.wal
  pageCount : p.pageCount ≤ q.pageCount
  unlogged : NothingLogged q.frames

omit [PageBody α] in
/-- A pool that nothing was done to holds what it did. -/
theorem Pool.Held.refl {p : Pool α} (h : NothingLogged p.frames) : p.Held p :=
  ⟨rfl, rfl, rfl, rfl, rfl, rfl, Nat.le_refl _, h⟩

omit [PageBody α] in
/-- Only the frames and the page count move. -/
theorem Pool.Held.frames {p q r : Pool α} (h : p.Held q)
    (hsame : r.files = q.files ∧ r.pageFile = q.pageFile ∧ r.writable = q.writable ∧
      r.catalogRootPage = q.catalogRootPage ∧ r.checksums = q.checksums ∧ r.wal = q.wal)
    (hcount : q.pageCount ≤ r.pageCount) (hframes : NothingLogged r.frames) : p.Held r := by
  obtain ⟨hfiles, hfile, hwritable, hroot, hsums, hwal⟩ := hsame
  exact ⟨hfiles.trans h.files, hfile.trans h.pageFile, hwritable.trans h.writable,
    hroot.trans h.catalogRootPage, hsums.trans h.checksums, hwal.trans h.wal,
    Nat.le_trans h.pageCount hcount, hframes⟩

omit [PageBody α] in
/-- A frame that is written has nothing in the log. -/
theorem NothingLogged.set {frames : List (Frame α)} (h : NothingLogged frames) (i : Nat)
    {g : Frame α} (hg : g.pageId.isSome → g.dirty = true → g.logged = false) :
    NothingLogged (frames.set i g) := by
  intro f hf
  rcases List.mem_or_eq_of_mem_set hf with hin | rfl
  · exact h f hin
  · exact hg

omit [PageBody α] in
/-- A frame that is changed has nothing in the log. -/
theorem NothingLogged.modify {frames : List (Frame α)} (h : NothingLogged frames) (i : Nat)
    {k : Frame α → Frame α}
    (hk : ∀ f, (f.pageId.isSome → f.dirty = true → f.logged = false) →
      (k f).pageId.isSome → (k f).dirty = true → (k f).logged = false) :
    NothingLogged (frames.modify i k) := by
  cases hf : frames[i]? with
  | none =>
    rw [List.modify_eq_self (List.getElem?_eq_none_iff.mp hf)]
    exact h
  | some f =>
    rw [modify_eq_set_of_getElem? k hf]
    exact h.set i (hk f (h f (List.mem_of_getElem? hf)))

/-- Whatever a page program asks for, the changes stay in memory. -/
theorem held_client (p : Pool α) : ClientKeeps (Pool.Held p) where
  quiet q r hmove h := by
    have hnow := h.unlogged
    cases hmove with
    | turn hand _ => exact h.frames ⟨rfl, rfl, rfl, rfl, rfl, rfl⟩ (Nat.le_refl _) hnow
    | touch i f hf referenced more =>
      exact h.frames ⟨rfl, rfl, rfl, rfl, rfl, rfl⟩ (Nat.le_refl _)
        (hnow.set i (hnow f (List.mem_of_getElem? hf)))
    | writeBack i f id inode hf hid _ hlogged hdirty =>
      -- only a logged change is written back
      rw [hnow f (List.mem_of_getElem? hf) (by simp [hid]) hdirty] at hlogged
      exact absurd hlogged (by simp)
    | drop i f id hf hid _ _ =>
      exact h.frames ⟨rfl, rfl, rfl, rfl, rfl, rfl⟩ (Nat.le_refl _)
        (hnow.modify i fun f _ hheld => absurd hheld (by simp))
    | grow n _ =>
      refine h.frames ⟨rfl, rfl, rfl, rfl, rfl, rfl⟩ (Nat.le_refl _) fun f hf hheld => ?_
      rcases List.mem_append.mp hf with hin | hin
      · exact hnow f hin hheld
      · obtain rfl := List.eq_of_mem_replicate hin
        exact absurd hheld (by simp [Frame.free])
  refused q h := h.frames ⟨rfl, rfl, rfl, rfl, rfl, rfl⟩ (Nat.le_refl _) h.unlogged
  fetched q i id f page h _ _ _ _ _ :=
    h.frames ⟨rfl, rfl, rfl, rfl, rfl, rfl⟩ (Nat.le_refl _)
      (h.unlogged.set i fun _ hdirty => absurd hdirty (by simp))
  allocated q i f h _ _ := by
    refine h.frames ⟨rfl, rfl, rfl, rfl, rfl, rfl⟩ ?_ (h.unlogged.set i fun _ _ => rfl)
    show q.pageCount ≤ if q.freeIds.isEmpty then q.pageCount + 1 else q.pageCount
    split <;> omega
  pinned q i h :=
    h.frames ⟨rfl, rfl, rfl, rfl, rfl, rfl⟩ (Nat.le_refl _)
      (h.unlogged.modify i fun _ hf => hf)
  unpinned q id h := by
    unfold poolUnpin
    split
    · exact h
    · rename_i i _
      refine h.frames ⟨rfl, rfl, rfl, rfl, rfl, rfl⟩ (Nat.le_refl _)
        (h.unlogged.modify i fun f hf hheld hdirty => ?_)
      simpa using hf hheld (by simpa using hdirty)
  changed q id page h := by
    have hstored : p.Held (poolStore id page q) := by
      unfold poolStore
      split
      · exact h
      · rename_i i _
        exact h.frames ⟨rfl, rfl, rfl, rfl, rfl, rfl⟩ (Nat.le_refl _)
          (h.unlogged.modify i fun _ hf => hf)
    unfold poolUnpin
    split
    · exact hstored
    · rename_i i _
      exact hstored.frames ⟨rfl, rfl, rfl, rfl, rfl, rfl⟩ (Nat.le_refl _)
        (hstored.unlogged.modify i fun f _ _ _ => by simp)
  freed q id h := by
    unfold poolFree
    split
    · exact h.frames ⟨rfl, rfl, rfl, rfl, rfl, rfl⟩ (Nat.le_refl _) h.unlogged
    · rename_i i _
      exact h.frames ⟨rfl, rfl, rfl, rfl, rfl, rfl⟩ (Nat.le_refl _)
        (h.unlogged.modify i fun f _ hheld => absurd hheld (by simp [Frame.cleared]))

end

/-! ### Statements -/

/-- COMMIT and ROLLBACK. -/
def StatementKind.endsTransaction : StatementKind → Bool
  | .STMT_COMMIT | .STMT_ROLLBACK => true
  | _ => false

/-- A property of statements that depends on their kind only, where the check rewrites them: on
literals and columns. -/
structure OfKind {β : Type} (f : StatementKind → β) : Prop where
  createTable : ∀ a b, f (.STMT_CREATE_TABLE a) = f (.STMT_CREATE_TABLE b)
  createIndex : ∀ a b, f (.STMT_CREATE_INDEX a) = f (.STMT_CREATE_INDEX b)
  insert : ∀ a b, f (.STMT_INSERT a) = f (.STMT_INSERT b)
  delete : ∀ a b, f (.STMT_DELETE a) = f (.STMT_DELETE b)
  update : ∀ a b, f (.STMT_UPDATE a) = f (.STMT_UPDATE b)
  alter : ∀ a b, f (.STMT_ALTER_TABLE a) = f (.STMT_ALTER_TABLE b)

/-- The check answers a statement of the same kind, with the same subqueries. -/
theorem semanticCheck_keeps {β : Type} {f : StatementKind → β} (hf : OfKind f) {engine : Engine}
    {statement checked : Statement} (h : semanticCheck engine statement = .ok checked) :
    f checked.kind = f statement.kind ∧ checked.subqueries = statement.subqueries := by
  have hmap : ∀ {β : Type} {r : Except ErrorCode β} {f : β → Statement} {out : Statement},
      r.map f = .ok out → ∃ b, out = f b := by
    intro β r f out hr
    cases r with
    | error code => exact absurd hr (by simp [Except.map])
    | ok b => exact ⟨b, by simpa [Except.map, eq_comm] using hr⟩
  have hite : ∀ {p : Bool} {code : ErrorCode} {a : Statement} {out : Statement},
      (if p then Except.ok a else Except.error code) = .ok out → out = a := by
    intro p code a out hr
    cases p <;> simp_all
  -- most of the checks answer the statement itself
  have hitself : checked = statement →
      f checked.kind = f statement.kind ∧ checked.subqueries = statement.subqueries := by
    rintro rfl
    exact ⟨rfl, rfl⟩
  unfold semanticCheck at h
  rcases hkind : statement.kind with _ | _ | _ | _ | _ | _ | _ | _ | _ | _ | _ | _ | _ | _ | _ | _
    <;> simp only [hkind] at h hitself
  case STMT_SELECT select =>
    obtain ⟨-, rfl⟩ := hmap h
    exact hitself rfl
  case STMT_VACUUM table => exact hitself (hite h)
  case STMT_CREATE_DATABASE name =>
    split at h
    · exact absurd h (by simp)
    · exact hitself (Except.ok.inj h).symm
  case STMT_USE_DATABASE name => exact hitself (hite h)
  case STMT_DROP_DATABASE name =>
    split at h
    · exact absurd h (by simp)
    · exact absurd h (by simp)
    · exact hitself (Except.ok.inj h).symm
  case STMT_DROP_TABLE name => exact hitself (hite h)
  case STMT_DROP_INDEX name => exact hitself (hite h)
  case STMT_BEGIN | STMT_COMMIT | STMT_ROLLBACK => exact hitself (Except.ok.inj h).symm
  case STMT_CREATE_TABLE =>
    obtain ⟨-, rfl⟩ := hmap h
    exact ⟨hf.createTable .., rfl⟩
  case STMT_CREATE_INDEX =>
    obtain ⟨-, rfl⟩ := hmap h
    exact ⟨hf.createIndex .., rfl⟩
  case STMT_INSERT =>
    obtain ⟨-, rfl⟩ := hmap h
    exact ⟨hf.insert .., rfl⟩
  case STMT_DELETE =>
    obtain ⟨-, rfl⟩ := hmap h
    exact ⟨hf.delete .., rfl⟩
  case STMT_UPDATE =>
    obtain ⟨-, rfl⟩ := hmap h
    exact ⟨hf.update .., rfl⟩
  case STMT_ALTER_TABLE =>
    obtain ⟨-, rfl⟩ := hmap h
    exact ⟨hf.alter .., rfl⟩

/-- Whether a statement ends a transaction is a matter of its kind. -/
theorem endsTransaction_ofKind : OfKind StatementKind.endsTransaction :=
  ⟨fun _ _ => rfl, fun _ _ => rfl, fun _ _ => rfl, fun _ _ => rfl, fun _ _ => rfl, fun _ _ => rfl⟩

/-- The check of a statement leaves open only what its literals and columns become. -/
theorem semanticCheck_ends {engine : Engine} {statement checked : Statement}
    (h : semanticCheck engine statement = .ok checked) :
    checked.kind.endsTransaction = statement.kind.endsTransaction :=
  (semanticCheck_keeps endsTransaction_ofKind h).1

/-- The session `t` is `s` some statements into a transaction. -/
structure Session.Inside (s t : Session) : Prop where
  pool : s.pool.Held t.pool
  names : t.names = s.names
  canOpen : t.canOpen = s.canOpen
  memory : t.memory = s.memory
  openPath : t.openPath = s.openPath
  catalogRoot : t.catalogRoot = s.catalogRoot
  transactionOpen : t.transactionOpen = true
  transactionPages : t.transactionPages = s.transactionPages

namespace Session.Inside

variable {s t : Session}

/-- A step of the engine changes its catalog and asks the pool for pages. -/
theorem engineStep {α : Type} (h : s.Inside t) (x : Step Engine α) :
    s.Inside (t.engineStep x).2 :=
  ⟨(held_client s.pool).onPool _ h.pool, h.names, h.canOpen, h.memory, h.openPath, h.catalogRoot,
    h.transactionOpen, h.transactionPages⟩

/-- A statement that does not end the transaction stays inside it. -/
theorem executeStatement (h : s.Inside t) (statement : Statement)
    (hkind : statement.kind.endsTransaction = false) :
    s.Inside (executeStatement statement t).2 := by
  have hsub := h.engineStep (materialiseSubqueries statement.subqueries)
  unfold DatabaseEngine.executeStatement andThen
  split
  · exact hsub
  · dsimp only
    split
    · -- a second BEGIN is refused
      unfold beginTransaction
      rw [if_pos hsub.transactionOpen]
      exact hsub
    · rename_i hcommit
      exact absurd hkind (by simp [hcommit, StatementKind.endsTransaction])
    · rename_i hrollback
      exact absurd hkind (by simp [hrollback, StatementKind.endsTransaction])
    · exact hsub.engineStep _

end Session.Inside

/-- A statement that does not end the transaction leaves its changes in memory, whether it
succeeds or fails. -/
theorem processStatement_inside {s t : Session} (h : s.Inside t) (statement : Statement)
    (hkind : statement.kind.endsTransaction = false) :
    s.Inside (processStatement statement t).2 := by
  unfold processStatement
  dsimp only
  split
  · exact h
  · rename_i checked hcheck
    have hdone := h.executeStatement checked ((semanticCheck_ends hcheck).trans hkind)
    unfold andThen
    split
    · exact hdone
    · dsimp only
      split
      · exact hdone
      · have hchanged : s.Inside
            (if changesSchema checked.kind then
              { (executeStatement checked t).2 with schemaChanged := true }
            else (executeStatement checked t).2) := by
          split
          · exact ⟨hdone.pool, hdone.names, hdone.canOpen, hdone.memory, hdone.openPath,
              hdone.catalogRoot, hdone.transactionOpen, hdone.transactionPages⟩
          · exact hdone
        rw [if_neg (by rw [hchanged.transactionOpen]; simp)]
        exact hchanged

/-- The session after statements one after another, whatever they answer. -/
def afterStatements (s : Session) (statements : List Statement) : Session :=
  run (fun s statement => (processStatement statement s).2) s statements

/-- All the statements of a transaction leave their changes in memory. -/
theorem inside_run {s t : Session} (h : s.Inside t) {statements : List Statement}
    (hkinds : ∀ statement ∈ statements, statement.kind.endsTransaction = false) :
    s.Inside (afterStatements t statements) := by
  unfold afterStatements
  induction statements generalizing t with
  | nil => exact h
  | cons statement rest ih =>
    rw [run_cons]
    exact ih (processStatement_inside h statement (hkinds statement (by simp)))
      fun other hin => hkinds other (by simp [hin])

end DatabaseEngine
