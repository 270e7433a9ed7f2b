import DatabaseEngine.Library.SearchTree
import DatabaseEngine.Model.Index

/-!
# `DatabaseEngine.Spec.Tree`: the tree that the pages of an index hold

The pages of an index are a B+ tree of the library: its keys are the keys that the values of the
indexed column have, in the order of `compareKeys`, and its values are positions of rows. `Stored`
says that the pages of a store hold such a tree. It speaks of the page of the root, of the first
leaf, of the leaf that follows the last one, and of every page of the tree.
-/

set_option autoImplicit false

namespace DatabaseEngine

open Library

/-- A key that a value of the column has. -/
def Keyed (type : ColType) (key : StoredKey) : Prop :=
  ∃ value : Value, value.type = type ∧ key = makeKey value

/-- The keys of a column. -/
abbrev ColumnKey (type : ColType) : Type := { key : StoredKey // Keyed type key }

/-- The order of the keys. -/
def ColumnKey.compare {type : ColType} (a b : ColumnKey type) : Ordering := compareKeys a.1 b.1

/-- The tree of a column: every key with the position of its row. -/
abbrev ColumnTree (type : ColType) : Nat → Type := BTree (ColumnKey type) UInt32

/-- An entry as it lies in a leaf. -/
def leafEntry {type : ColType} (e : ColumnKey type × UInt32) : Entry :=
  { payload := e.2, key := e.1.1 }

/-- How many entries make a node of the column full. -/
def treeOrder (type : ColType) : Nat := nodeOrder (keyBitsFor type)

/-- How many entries every node but the root has. -/
def treeMinimum (type : ColType) : Nat := (treeOrder type - 1) / 2

/-- A leaf of a column's tree. -/
def leafNode (type : ColType) (entries : List Entry) (next : UInt32) : Node :=
  { flags := NODE_LEAF ||| keyBitsFor type, entries := entries, nextLeaf := next,
    lastChild := INVALID_PAGE }

/-- An inner node of it. -/
def innerNode (type : ColType) (entries : List Entry) (last : UInt32) : Node :=
  { flags := keyBitsFor type, entries := entries, nextLeaf := INVALID_PAGE, lastChild := last }

/-- A page holds a node. -/
def Holds (s : Store Bytes) (id : Nat) (node : Node) : Prop :=
  ∃ page, s.body id = some page ∧ readNode page = node

/-- What is asked of a subtree: its tree, the page of its root, its first leaf, the leaf behind its
last one, and all its pages. -/
abbrev Placing (type : ColType) (h : Nat) : Type :=
  ColumnTree type h → Nat → UInt32 → UInt32 → List Nat → Prop

/-- The children of a node but the last, each with its entry. The first leaf of each one is behind
the last leaf of the one before. -/
def Kids {type : ColType} {h : Nat} (P : Placing type h) :
    List (ColumnTree type h × ColumnKey type) → List Entry → UInt32 → UInt32 → List Nat → Prop
  | [], entries, first, stop, ids => entries = [] ∧ first = stop ∧ ids = []
  | kid :: kids, entries, first, stop, ids =>
    ∃ entry more middle front back, entries = entry :: more ∧ entry.key = kid.2.1 ∧
      ids = front ++ back ∧ P kid.1 entry.payload.toNat first middle front ∧
      Kids P kids more middle stop back

/-- The children of a node, the last one too. -/
def Family {type : ColType} {h : Nat} (P : Placing type h) (t : ColumnTree type (h + 1))
    (entries : List Entry) (last first stop : UInt32) (ids : List Nat) : Prop :=
  ∃ middle front back, ids = front ++ back ∧ Kids P t.1 entries first middle front ∧
    P t.2 last.toNat middle stop back

/-- The pages hold the tree. -/
def Stored (s : Store Bytes) (type : ColType) : (h : Nat) → Placing type h
  | 0, (l : List (ColumnKey type × UInt32)), id, first, stop, ids =>
    first = UInt32.ofNat id ∧ ids = [id] ∧ Holds s id (leafNode type (l.map leafEntry) stop)
  | h + 1, t, id, first, stop, ids =>
    ∃ entries last below, ids = id :: below ∧ Holds s id (innerNode type entries last) ∧
      Family (Stored s type h) t entries last first stop below

/-- The pages hold a part of the chain of the leaves, from one leaf to another. -/
def LeafChain (s : Store Bytes) (type : ColType) :
    List (List (ColumnKey type × UInt32)) → UInt32 → UInt32 → Prop
  | [], first, stop => first = stop
  | l :: leaves, first, stop =>
    first ≠ INVALID_PAGE ∧ ∃ next, Holds s first.toNat (leafNode type (l.map leafEntry) next) ∧
      LeafChain s type leaves next stop

/-- The pages of an index hold a tree of its column, in order and balanced, and with an entry for
each key that it counts. -/
structure IndexStored (s : Store Bytes) (type : ColType) (index : Index)
    (t : BTree.Root (ColumnKey type) UInt32) (ids : List Nat) : Prop where
  lawful : BTree.Lawful ColumnKey.compare (treeMinimum type) (treeOrder type) t
  pages : ∃ first, Stored s type t.1 t.2 index.rootPage first INVALID_PAGE ids
  nodup : ids.Nodup
  inRange : ∀ id ∈ ids, id < INVALID_PAGE.toNat
  count : index.keyCount = t.2.entries.length

end DatabaseEngine
