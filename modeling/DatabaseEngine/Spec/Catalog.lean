import DatabaseEngine.Model.Executor
import Mathlib.Data.List.Forall2

/-!
# `DatabaseEngine.Spec.Catalog`: when two engines hold the same catalog

What a statement can tell of a catalog: the databases by name, the tables of each by name
with their columns and what their CHECK says of a row, the pages and counts of their heaps,
and the indexes. The order in which tables hang in a hash bucket and the order of the list of
indexes are left open, and so is what a value carries beside its type's own field.
-/

set_option autoImplicit false

namespace DatabaseEngine

/-- Two values no statement can tell apart. -/
structure SameValue (a b : Value) : Prop where
  type : a.type = b.type
  isNull : a.isNull = b.isNull
  int : a.isNull = false → a.type.intLike = true → a.intValue = b.intValue
  float : a.isNull = false → a.type = .TYPE_FLOAT → a.floatValue = b.floatValue
  text : a.isNull = false → a.type = .TYPE_TEXT → a.text = b.text

/-- A column with its type, size, flags and default. -/
structure SameColumn (a b : Column) : Prop where
  name : a.name = b.name
  type : a.type = b.type
  size : a.size = b.size
  notNull : a.notNull = b.notNull
  unique : a.unique = b.unique
  primary : a.primary = b.primary
  hasDefault : a.hasDefault = b.hasDefault
  defaultValue : a.hasDefault = true → SameValue a.defaultValue b.defaultValue

/-- A table, and a CHECK that accepts the same rows. -/
structure SameTable (a b : CatalogNode) : Prop where
  name : a.table = b.table
  cols : List.Forall₂ SameColumn a.cols b.cols
  check : ∀ (sub : Subqueries) (row : Row), checkPasses a.check sub row = checkPasses b.check sub row

/-- The same pages with the same slots in use, and the same count of live rows. -/
structure SameHeap (a b : Heap) : Prop where
  pages : a.pages = b.pages
  nlive : a.nlive = b.nlive
  nslots : a.nslots = b.nslots

/-- An index on the same column with the same tree. -/
structure SameIndex (a b : Index) : Prop where
  name : a.name = b.name
  table : a.table.same b.table = true
  column : a.column.same b.column = true
  slot : a.slot = b.slot
  rootPage : a.rootPage = b.rootPage
  keyCount : a.keyCount = b.keyCount

/-- Two databases with the same tables and heaps under every name. -/
structure SameDatabase (a b : Database) : Prop where
  name : a.name = b.name
  tables : ∀ name : Name,
    Option.Rel SameTable (findTable a.tables name) (findTable b.tables name)
  heaps : ∀ name : Name, (findTable a.tables name).isSome →
    Option.Rel SameHeap (findHeap a.heaps name) (findHeap b.heaps name)
  indexes : ∃ listed, listed.Perm b.indexes ∧ List.Forall₂ SameIndex a.indexes listed

/-- The database of a name. -/
def databaseNamed (databases : List Database) (name : Name) : Option Database :=
  (findDatabase databases name).bind (databases[·]?)

/-- A database is the same as itself. -/
theorem SameDatabase.refl (db : Database) : SameDatabase db db where
  name := rfl
  tables name := by
    have hcols : ∀ cols : List Column, List.Forall₂ SameColumn cols cols := fun cols =>
      List.forall₂_same.mpr fun _ _ =>
        ⟨rfl, rfl, rfl, rfl, rfl, rfl, rfl, fun _ => ⟨rfl, rfl, fun _ _ => rfl, fun _ _ => rfl,
          fun _ _ => rfl⟩⟩
    cases findTable db.tables name with
    | none => exact .none
    | some table => exact .some ⟨rfl, hcols table.cols, fun _ _ => rfl⟩
  heaps name _ := by
    cases findHeap db.heaps name with
    | none => exact .none
    | some heap => exact .some ⟨rfl, rfl, rfl⟩
  indexes := by
    refine ⟨db.indexes, .refl _, List.forall₂_same.mpr fun index _ => ?_⟩
    exact ⟨rfl, sameText_refl _, sameText_refl _, rfl, rfl, rfl⟩

/-- The same databases with the same tables, heaps and indexes. -/
def SameCatalog (a b : Engine) : Prop :=
  ∀ name : Name,
    Option.Rel SameDatabase (databaseNamed a.databases name) (databaseNamed b.databases name)

/-- The catalog is in the databases. -/
theorem SameCatalog.of_databases {a b : Engine} (h : a.databases = b.databases) :
    SameCatalog a b := by
  intro name
  rw [h]
  cases databaseNamed b.databases name with
  | none => exact .none
  | some db => exact .some (.refl db)

/-- The pages a table's rows are on, with the slots in use. -/
def heapPages (e : Engine) (db table : Name) : Option (List (Nat × Nat)) :=
  (databaseNamed e.databases db).bind fun d =>
    (findTable d.tables table).bind fun _ => (findHeap d.heaps table).map Heap.pages

/-- A function that respects a relation gives related options the same value. -/
theorem relMap_eq {α β γ : Type} {R : α → β → Prop} {f : α → Option γ} {g : β → Option γ}
    {a : Option α} {b : Option β} (h : Option.Rel R a b) (hfg : ∀ x y, R x y → f x = g y) :
    a.bind f = b.bind g := by
  cases h with
  | none => rfl
  | some hxy => exact hfg _ _ hxy

/-- The same catalog has the same heap pages. -/
theorem SameCatalog.heapPages {a b : Engine} (h : SameCatalog a b) (db table : Name) :
    heapPages a db table = heapPages b db table := by
  refine relMap_eq (h db) fun d d' hdb => ?_
  cases hfind : findTable d.tables table with
  | none =>
    have htable := hdb.tables table
    rw [hfind] at htable
    generalize findTable d'.tables table = found at htable
    cases htable
    rfl
  | some t =>
    have hheap := hdb.heaps table (by rw [hfind]; rfl)
    have htable := hdb.tables table
    rw [hfind] at htable
    generalize findTable d'.tables table = found at htable
    cases htable
    have hbind := relMap_eq (f := fun k : Heap => some k.pages) (g := fun k => some k.pages) hheap
      fun _ _ hsame => congrArg some hsame.pages
    simp only [Option.bind_some, Option.map_eq_bind]
    exact hbind

end DatabaseEngine
