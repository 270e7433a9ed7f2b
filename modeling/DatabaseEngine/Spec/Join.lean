import DatabaseEngine.Model.Answer
import DatabaseEngine.Spec.Typing

/-!
# `DatabaseEngine.Spec.Join`: what a join is

The reference rows of a join, table by table over lists of rows, without a work row and without a
hash table.

* `joined`: each row so far with its partners in the next table, or completed with NULLs when the
  join is a LEFT JOIN and there is none; WHERE at the end.
* `storeAll`: the rows put into a heap one after another, up to the first that is too large.
* `ReadsBelow`: how far a tree of a condition reads; `OnsLocal`: an ON reads no later table.
* `equalities`: what a hash join could be keyed on; `OppositeZeros`: equal keys that hash apart.
-/

set_option autoImplicit false

namespace DatabaseEngine

/-! ### The rows -/

section
variable (wher : Condition) (sub : Subqueries)

/-- The rows of a table that the ON of its join lets stand behind a row of the tables before. -/
def partners (front : Row) (table : JoinTable) : List Row :=
  table.stored.rows.filter fun row =>
    decide (table.onRoot < 0 ∨ evaluateAt wher sub table.onRoot (front ++ row) = .TRI_TRUE)

/-- A row of the tables before with one table more. -/
def extend (table : JoinTable) (front : Row) : List Row :=
  if table.outer = true ∧ partners wher sub front table = [] then
    [front ++ nullRow table.stored.node]
  else (partners wher sub front table).map (front ++ ·)

/-- The rows of all the tables, without WHERE. -/
def combined (tables : List JoinTable) : List Row :=
  tables.foldl (fun rows table => rows.flatMap (extend wher sub table)) [[]]

/-- The rows of the join. -/
def joined (tables : List JoinTable) : List Row := (combined wher sub tables).filter (keeps wher sub)

end

/-- A row that no page takes. -/
def TooLarge (row : Row) : Prop := PAGE_SIZE - PAGE_HEADER - SLOT_WIDTH < recordSize row

instance (row : Row) : Decidable (TooLarge row) := inferInstanceAs (Decidable (_ < _))

/-- Rows stored behind others. -/
def storeAll : List Row → List Row → Except ErrorCode (List Row)
  | out, [] => .ok out
  | out, row :: rest =>
    if TooLarge row then .error .EXEC_ROW_TOO_LARGE else storeAll (out ++ [row]) rest

/-! ### Columns -/

/-- No comparison of the tree reads a column from the `n`-th on. -/
def ReadsBelow (cond : Condition) (root : Int32) (n : Nat) : Prop :=
  ∀ compare ∈ comparisonsFrom cond.nodes cond.nodes.length root, compare.op ≠ .OP_EXISTS →
    exprDeepest cond.exprs compare.left < n ∧ exprDeepest cond.exprs compare.right < n

instance (cond : Condition) (root : Int32) (n : Nat) : Decidable (ReadsBelow cond root n) :=
  inferInstanceAs (Decidable (∀ _ ∈ _, _ → _))

/-- The columns of all tables. -/
def widthOf (tables : List JoinTable) : Nat :=
  (tables.map fun table => table.stored.node.cols.length).sum

/-- The ON of each LEFT JOIN reads its own table and the ones before; `base` columns stand before
the first of these tables. -/
inductive OnsLocal (wher : Condition) : Nat → List JoinTable → Prop
  | nil (base : Nat) : OnsLocal wher base []
  | cons {base : Nat} {table : JoinTable} {rest : List JoinTable}
    (own : 0 ≤ table.onRoot →
      ReadsBelow wher table.onRoot (base + table.stored.node.cols.length))
    (others : OnsLocal wher (base + table.stored.node.cols.length) rest) :
    OnsLocal wher base (table :: rest)

instance decidableOnsLocal (wher : Condition) :
    ∀ base tables, Decidable (OnsLocal wher base tables)
  | base, [] => isTrue (.nil base)
  | base, table :: rest =>
    have := decidableOnsLocal wher (base + table.stored.node.cols.length) rest
    decidable_of_iff
      ((0 ≤ table.onRoot →
          ReadsBelow wher table.onRoot (base + table.stored.node.cols.length)) ∧
        OnsLocal wher (base + table.stored.node.cols.length) rest)
      ⟨fun h => .cons h.1 h.2, fun h => by cases h with | cons own others => exact ⟨own, others⟩⟩

/-- Stored rows have a value for each column of their table. -/
def Shaped (stored : StoredTable) : Prop :=
  ∀ row ∈ stored.rows, row.length = stored.node.cols.length

instance (stored : StoredTable) : Decidable (Shaped stored) := inferInstanceAs (Decidable (∀ _ ∈ _, _))

/-- A table of a FROM list as the parser leaves it: a LEFT JOIN has an ON, and nothing else has one
of its own. -/
def JoinTable.Parsed (table : JoinTable) : Prop := table.outer = true ↔ 0 ≤ table.onRoot

/-! ### Keys -/

/-- The comparisons on the AND spine of a tree, from left to right. -/
def spineFrom (cond : Condition) : Nat → Int32 → List Predicate
  | 0, _ => []
  | fuel + 1, i =>
    match cond.node i with
    | none => []
    | some node =>
      match node.kind with
      | .COND_COMPARE => [node.compare]
      | .COND_AND => spineFrom cond fuel node.left ++ spineFrom cond fuel node.right
      | .COND_OR | .COND_NOT => []

/-- The equalities on the AND spine of a WHERE between a column of the first table, which has
`split` of them, and one of the second. -/
def equalities (wher : Condition) (split : Nat) : List (Nat × Nat) :=
  (spineFrom wher wher.nodes.length wher.root).filterMap fun compare =>
    equiSlots wher.exprs compare split

/-- The pairs of rows of two tables that WHERE keeps, in the order of nested loops. -/
def keptPairs (wher : Condition) (sub : Subqueries) (first second : List Row) : List (Row × Row) :=
  (first.product second).filter fun pair => keeps wher sub (pair.1 ++ pair.2)

/-- Two zeros of which one is negative. -/
def OppositeZeros (a b : Value) : Prop :=
  a.isNull = false ∧ b.isNull = false ∧ a.type = .TYPE_FLOAT ∧ b.type = .TYPE_FLOAT ∧
    isZero a.floatValue = true ∧ isZero b.floatValue = true ∧ a.floatValue ≠ b.floatValue

instance (a b : Value) : Decidable (OppositeZeros a b) :=
  inferInstanceAs (Decidable (_ ∧ _ ∧ _ ∧ _ ∧ _ ∧ _ ∧ _))

end DatabaseEngine
