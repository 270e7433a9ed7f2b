import DatabaseEngine.Model.Query

/-!
# `DatabaseEngine.Spec.References`: what a reference to a column means

A query refers to a column by its table's alias, a dot and the column's name, or by the name
alone. The names of a FROM list are compared as they are written, dots and all.

* `ListedColumn.NamedBy`: a reference names a column.
* `Resolves`: a reference is bound to the one column that it names, or not at all.
* `Clear`: none of the three ways to look a reference up confuses its columns.
* `NamesApart`: the columns of a FROM list are kept under names of their own.
-/

set_option autoImplicit false

namespace DatabaseEngine

/-- A column of a FROM list: the alias of its table, its name, and the name that the schema of
the query keeps it under. -/
structure ListedColumn where
  aliasName : List UInt8
  column : List UInt8
  kept : List UInt8
  deriving DecidableEq

/-- A reference is the name of the column, or that with the alias in front. -/
def ListedColumn.NamedBy (c : ListedColumn) (reference : List UInt8) : Bool :=
  sameText reference (c.aliasName ++ 46 :: c.column) || sameText reference c.column

/-- The name that a column of a join is kept under: the first 32 bytes of the alias, a dot and
the column, and of this the first 63 bytes. -/
def joinedName (aliasName column : List UInt8) : List UInt8 :=
  (aliasName.take (NAME_LEN / 2) ++ 46 :: column).take (NAME_LEN - 1)

/-- The columns of one table of a FROM list. -/
def listedIn (tables : List CatalogNode) (joined : Bool) (entry : FromTable) : List ListedColumn :=
  match findTable tables entry.table with
  | none => []
  | some source =>
    source.cols.map fun column =>
      { aliasName := entry.aliasName.1
        column := column.name.1
        kept :=
          if joined then joinedName entry.aliasName.1 column.name.1 else column.name.1 }

/-- The columns of a FROM list in their order. -/
def listedColumns (tables : List CatalogNode) (select : ParsedSelect) : List ListedColumn :=
  select.tables.flatMap (listedIn tables (joinSchemaNeeded select))

/-- The column at this position is the only one of its kind. -/
def OnlyAt (kind : ListedColumn → Bool) (cols : List ListedColumn) (k : Nat) : Prop :=
  ∀ j, (∃ c, cols[j]? = some c ∧ kind c = true) ↔ j = k

/-- The column at this position is the one that the reference names. -/
def NamesOnly (cols : List ListedColumn) (reference : List UInt8) (k : Nat) : Prop :=
  OnlyAt (fun c => c.NamedBy reference) cols k

/-- Where the reference is bound to a column, it is the one that it names. -/
def Resolves (schema : CatalogNode) (cols : List ListedColumn) (reference : List UInt8) : Prop :=
  ∀ k : Nat, findColumn schema (Name.ofBytes reference).1 = k → NamesOnly cols reference k

/-- The columns that a reference could be taken for, as far as it is kept: it is the kept name of a
column, or the name of a table and that of a column, or what a kept name ends in. -/
structure Clear (cols : List ListedColumn) (reference : List UInt8) : Prop where
  /-- The first column that is kept under the whole reference is the one it names. -/
  whole : ∀ k, (cols.findIdx? fun c => sameText c.kept (Name.ofBytes reference).1) = some k →
    NamesOnly cols reference k
  /-- So is the first of a table whose alias stands before the last dot, kept under what follows. -/
  qualified : (cols.findIdx? fun c => sameText c.kept (Name.ofBytes reference).1) = none →
    ∀ rest, afterDot (Name.ofBytes reference).1 = some rest →
      ∀ k, (cols.findIdx? fun c => sameText (beforeDot (Name.ofBytes reference).1) c.aliasName &&
          sameText c.kept rest) = some k → NamesOnly cols reference k
  /-- So is the only column whose kept name ends in a reference without a dot. -/
  tail : (cols.findIdx? fun c => sameText c.kept (Name.ofBytes reference).1) = none →
    afterDot (Name.ofBytes reference).1 = none →
      ∀ k, OnlyAt (fun c => sameText (bareName c.kept) (Name.ofBytes reference).1) cols k →
        NamesOnly cols reference k

/-- No column before this one is kept under the same name. -/
def FirstKept (cols : List ListedColumn) (k : Nat) (c : ListedColumn) : Prop :=
  ∀ j < k, ∀ d ∈ cols[j]?, sameText d.kept c.kept = false

/-- The name that a column is kept under is one of its names, and none of another column's. -/
def KeptAlone (cols : List ListedColumn) (k : Nat) (c : ListedColumn) : Prop :=
  c.NamedBy c.kept = true ∧ ∀ j < cols.length, j ≠ k → ∀ d ∈ cols[j]?, d.NamedBy c.kept = false

instance (cols : List ListedColumn) (k : Nat) (c : ListedColumn) : Decidable (FirstKept cols k c) :=
  inferInstanceAs (Decidable (∀ j < k, ∀ d ∈ cols[j]?, _))

instance (cols : List ListedColumn) (k : Nat) (c : ListedColumn) : Decidable (KeptAlone cols k c) :=
  inferInstanceAs (Decidable (_ ∧ ∀ j < cols.length, j ≠ k → ∀ d ∈ cols[j]?, _))

/-- The columns of a FROM list are kept under names of their own. -/
structure NamesApart (cols : List ListedColumn) : Prop where
  /-- No kept name is as long as a name can be: longer ones would be cut to it. -/
  short : ∀ c ∈ cols, c.kept.length < NAME_LEN - 1
  /-- Of the columns that are kept under a name, the first is the only one called so. -/
  own : ∀ k < cols.length, ∀ c ∈ cols[k]?, FirstKept cols k c → KeptAlone cols k c
  /-- Nor does such a long name come from a column without its table and the name of the table. -/
  qualified : ∀ c ∈ cols, 46 ∉ c.kept → c.aliasName.length + 1 + c.kept.length ≠ NAME_LEN - 1
  /-- The last part of a name with a dot is the last part of another one too: by itself it is
  ambiguous. -/
  dotted : ∀ k < cols.length, ∀ c ∈ cols[k]?, 46 ∈ c.column →
    ∃ j < cols.length, j ≠ k ∧ ∃ d ∈ cols[j]?, sameText (bareName d.kept) (bareName c.kept) = true

instance (cols : List ListedColumn) : Decidable (NamesApart cols) :=
  decidable_of_iff ((∀ c ∈ cols, c.kept.length < NAME_LEN - 1) ∧
    (∀ k < cols.length, ∀ c ∈ cols[k]?, FirstKept cols k c → KeptAlone cols k c) ∧
    (∀ c ∈ cols, 46 ∉ c.kept → c.aliasName.length + 1 + c.kept.length ≠ NAME_LEN - 1) ∧
    ∀ k < cols.length, ∀ c ∈ cols[k]?, 46 ∈ c.column →
      ∃ j < cols.length, j ≠ k ∧
        ∃ d ∈ cols[j]?, sameText (bareName d.kept) (bareName c.kept) = true)
    ⟨fun h => ⟨h.1, h.2.1, h.2.2.1, h.2.2.2⟩, fun h => ⟨h.short, h.own, h.qualified, h.dotted⟩⟩

end DatabaseEngine
