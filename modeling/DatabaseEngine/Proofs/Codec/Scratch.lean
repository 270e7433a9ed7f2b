import DatabaseEngine.Model.Session
import DatabaseEngine.Proofs.Codec.Offline

/-!
# `DatabaseEngine.Proofs.Codec.Scratch`: a load looks at the databases alone

The scratch heap of the last join and the results of the last subqueries outlive a load. No
version of the file makes a load look at them. So two loads of one file ask for the same pages
and end with the same databases, whatever ran before either of them.

* `loadNames_ignores`, `loadBody_ignores`: reading the catalog of any version.
* `reservePageTrailers_ignores`: the pass over the rows of an older file.
-/

set_option autoImplicit false

namespace DatabaseEngine

open Library

/-- The engine with another scratch heap and other subquery results. -/
def Engine.scratch (joinHeap : Heap) (results : List (List Value)) (engine : Engine) : Engine :=
  { engine with joinHeap := joinHeap, subqueryResult := results }

/-- A load whose engine has another scratch heap and other subquery results. -/
def Loading.scratch (joinHeap : Heap) (results : List (List Value)) (l : Loading) : Loading :=
  { l with engine := l.engine.scratch joinHeap results }

/-- Engines with one catalog differ in their scratch at most. -/
theorem Engine.Alike.scratch {e e' : Engine} (h : e.Alike e') :
    e' = e.scratch e'.joinHeap e'.subqueryResult := by
  obtain ⟨databases, current, joinHeap, results⟩ := e
  obtain ⟨databases', current', joinHeap', results'⟩ := e'
  obtain ⟨rfl, rfl⟩ := h
  rfl

section
variable {joinHeap : Heap} {results : List (List Value)}

/-- To read an item ignores what earlier statements have left. -/
theorem parse_ignores {α : Type} (item : Parser α) :
    Action.Ignores (Loading.scratch joinHeap results) (parse item) := by
  intro l
  have hreader : (l.scratch joinHeap results).reader = l.reader := rfl
  unfold parse
  rw [hreader]
  cases item l.reader <;> rfl

/-- A step on the database ignores it. -/
theorem onDatabase_ignores {α : Type} (x : Step Database α) :
    Action.Ignores (Engine.scratch joinHeap results) (onDatabase x) := by
  have hdatabase : ∀ e : Engine, (e.scratch joinHeap results).database = e.database := fun _ => rfl
  have hput : ∀ (db : Database) (e : Engine), Engine.setDatabase db (e.scratch joinHeap results) =
      (Engine.setDatabase db e).scratch joinHeap results := fun _ _ => rfl
  exact .onPart hdatabase hput x

/-- A step on the engine ignores it when its own state is the same. -/
theorem onEngine_ignores {α : Type} {x : Step Engine α}
    (hx : Action.Ignores (Engine.scratch joinHeap results) x) :
    Action.Ignores (Loading.scratch joinHeap results) (onEngine x) := by
  have hengine : ∀ l : Loading,
      (l.scratch joinHeap results).engine = l.engine.scratch joinHeap results := fun _ => rfl
  have hput : ∀ (e : Engine) (l : Loading),
      { l.scratch joinHeap results with engine := e.scratch joinHeap results } =
        ({ l with engine := e } : Loading).scratch joinHeap results := fun _ _ => rfl
  exact .onChanged hx hengine hput

/-- A step on the database that is being loaded ignores it. -/
theorem onLoaded_ignores {α : Type} (x : Step Database α) :
    Action.Ignores (Loading.scratch joinHeap results) (onLoaded x) :=
  onEngine_ignores (onDatabase_ignores x)

/-- To select a database ignores it. -/
theorem selectNamed_ignores (name : Name) :
    Action.Ignores (Engine.scratch joinHeap results) (selectNamed name) := by
  intro e
  rw [selectNamed_eq, selectNamed_eq]
  show PageM.pure _ = PageM.pure _
  have hdatabases : (e.scratch joinHeap results).databases = e.databases := rfl
  unfold namedOrNew
  rw [hdatabases]
  cases findDatabase e.databases name with
  | some id => rfl
  | none =>
    dsimp only [Engine.scratch]
    cases createDatabase name e.databases <;> rfl

/-! ### The steps of a load, of any version -/

/-- To adopt the pages of a heap ignores it. -/
theorem adoptPages_ignores (n : Nat) :
    Action.Ignores (Loading.scratch joinHeap results) (adoptPages n) := by
  induction n with
  | zero => exact .pure ()
  | succ n ih =>
    unfold adoptPages
    exact (parse_ignores _).bind fun pageId => (parse_ignores _).bind fun slots =>
      (onLoaded_ignores _).bind fun _ => ih

/-- To put back the rows of an old file ignores it. -/
theorem replayRows_ignores (cols : List Column) (n : Nat) :
    Action.Ignores (Loading.scratch joinHeap results) (replayRows cols n) := by
  induction n with
  | zero => exact .pure ()
  | succ n ih =>
    unfold replayRows
    exact (parse_ignores _).bind fun row => (onLoaded_ignores _).bind fun _ => ih

/-- To load a table ignores it. -/
theorem loadTable_ignores (version : Nat) :
    Action.Ignores (Loading.scratch joinHeap results) (loadTable version) := by
  unfold loadTable
  refine (parse_ignores _).bind fun name => (parse_ignores _).bind fun ncols =>
    (parse_ignores _).bind fun _ => (parse_ignores _).bind fun cols =>
    (parse_ignores _).bind fun check => (onLoaded_ignores _).bind fun _ =>
    (onLoaded_ignores _).bind fun _ => ?_
  split
  · exact (parse_ignores _).bind fun pages => (adoptPages_ignores pages).bind fun _ =>
      (parse_ignores _).bind fun live => onLoaded_ignores _
  · exact (parse_ignores _).bind fun rows => replayRows_ignores cols rows

/-- To load the tables ignores it. -/
theorem loadTables_ignores (version n : Nat) :
    Action.Ignores (Loading.scratch joinHeap results) (loadTables version n) := by
  induction n with
  | zero => exact .pure ()
  | succ n ih => exact (loadTable_ignores version).bind fun _ => ih

/-- To load an index ignores it. -/
theorem loadIndex_ignores (version : Nat) :
    Action.Ignores (Loading.scratch joinHeap results) (loadIndex version) := by
  unfold loadIndex
  refine (parse_ignores _).bind fun name => (parse_ignores _).bind fun tableName =>
    (parse_ignores _).bind fun column => (onLoaded_ignores _).bind fun db => ?_
  split
  · exact .throw _
  · split
    · exact .throw _
    · dsimp only
      split
      · exact (parse_ignores _).bind fun rootPage => (parse_ignores _).bind fun keyCount =>
          onLoaded_ignores _
      · exact onLoaded_ignores _

/-- To load the indexes ignores it. -/
theorem loadIndexes_ignores (version n : Nat) :
    Action.Ignores (Loading.scratch joinHeap results) (loadIndexes version n) := by
  induction n with
  | zero => exact .pure ()
  | succ n ih => exact (loadIndex_ignores version).bind fun _ => ih

/-- To load a database ignores it. -/
theorem loadCurrentDatabase_ignores (version : Nat) :
    Action.Ignores (Loading.scratch joinHeap results) (loadCurrentDatabase version) := by
  unfold loadCurrentDatabase
  refine (parse_ignores _).bind fun tables => (parse_ignores _).bind fun _ =>
    (loadTables_ignores version tables).bind fun _ => (parse_ignores _).bind fun indexes =>
    (loadIndexes_ignores version indexes).bind fun _ => ?_
  split
  · exact .pure ()
  · exact onLoaded_ignores _

/-- To load the databases ignores it. -/
theorem loadDatabases_ignores (version n : Nat) :
    Action.Ignores (Loading.scratch joinHeap results) (loadDatabases version n) := by
  induction n with
  | zero => exact .pure ()
  | succ n ih =>
    exact (parse_ignores _).bind fun name => (onEngine_ignores (selectNamed_ignores name)).bind
      fun _ => (loadCurrentDatabase_ignores version).bind fun _ => ih

/-- To load their names ignores it. -/
theorem loadNames_ignores (version : Nat) :
    Action.Ignores (Loading.scratch joinHeap results) (loadNames version) := by
  unfold loadNames
  split
  · exact .pure _
  · exact (parse_ignores _).bind fun current => (parse_ignores _).bind fun total =>
      (parse_ignores _).bind fun _ => .pure _

/-- All of a load ignores what earlier statements have left. -/
theorem loadBody_ignores (version total : Nat) :
    Action.Ignores (Loading.scratch joinHeap results) (loadBody version total) := by
  unfold loadBody
  split
  · exact (onEngine_ignores fun _ => rfl).bind fun _ => loadCurrentDatabase_ignores version
  · exact loadDatabases_ignores version total

/-- The pass selects each database in turn, and the one before it again at the end. -/
theorem reservePageTrailers_ignores (restoreTo : Nat) (ids : List Nat) :
    Action.Ignores (Engine.scratch joinHeap results) (reservePageTrailers restoreTo ids) := by
  induction ids with
  | nil => exact fun _ => rfl
  | cons d rest ih =>
    unfold reservePageTrailers
    intro e
    have hcompact : Action.Ignores (Engine.scratch joinHeap results) (onDatabase do
        let db ← Action.get
        compactAll (listTables db.tables MAX_TABLES)) := onDatabase_ignores _
    · show (if !(e.databases.getD d freeSlot).used then _ else _ : Step Engine Unit) _ =
        ((if !(e.databases.getD d freeSlot).used then _ else _ : Step Engine Unit) e).bind _
      split
      · exact ih e
      · refine hcompact.attempt.bind (fun r => ?_) { e with current := d }
        split
        · exact fun _ => rfl
        · exact ih

end

end DatabaseEngine
