import DatabaseEngine.Model.Codec
import DatabaseEngine.Spec.Typing

/-!
# `DatabaseEngine.Spec.Loaded`: a catalog that the engine can work on

What the rest of the engine takes for granted of the tables and heaps of a database
(`Database.WellFormed`), and the same of the bytes that a load reads: `getTables` takes the bytes
apart and builds nothing, and `WellMade` says of the parts what they have to be.
-/

set_option autoImplicit false

namespace DatabaseEngine

/-! ### Trees of conditions and expressions -/

/-- The nodes that the walk over a condition goes on to. -/
def Condition.children (cond : Condition) (i : Int32) : List Int32 :=
  match cond.node i with
  | none => []
  | some node =>
    match node.kind with
    | .COND_COMPARE => []
    | .COND_NOT => [node.left]
    | .COND_AND | .COND_OR => [node.left, node.right]

/-- The nodes that the walk over an expression goes on to. -/
def ExprPool.children (pool : ExprPool) (i : Int32) : List Int32 :=
  match pool.node i with
  | none => []
  | some node =>
    match node.kind with
    | .EXPR_COLUMN | .EXPR_LITERAL => []
    | .EXPR_NEGATE => [node.left]
    | .EXPR_BINARY => [node.left, node.right]

/-- The nodes of a condition and of its expressions lead to nodes that exist, and never round in a
circle. -/
structure Condition.Formed (cond : Condition) : Prop where
  root : (cond.node cond.root).isSome
  nodes : ∀ i, ∀ child ∈ cond.children i, (cond.node child).isSome
  operands : ∀ node ∈ cond.nodes, node.kind = .COND_COMPARE →
    ∀ operand ∈ node.compare.operands, (cond.exprs.node operand).isSome
  exprs : ∀ i, ∀ child ∈ cond.exprs.children i, (cond.exprs.node child).isSome
  acyclic : WellFounded fun child i => child ∈ cond.children i
  exprsAcyclic : WellFounded fun child i => child ∈ cond.exprs.children i

/-- The walks over a condition and over its expressions come to an end: to let them go on for
longer changes nothing. -/
structure Condition.Ends (cond : Condition) : Prop where
  condition : ∀ (sub : Subqueries) (row : Row) (fuel : Nat), cond.nodes.length ≤ fuel →
    evaluateConditionFrom fuel cond sub cond.root row = evaluateCondition cond sub row
  operands : ∀ (operand : Int32) (row : Row) (fuel : Nat), cond.exprs.length < fuel →
    exprEvaluateFrom fuel cond.exprs operand row = exprEvaluate cond.exprs operand row

/-! ### A database -/

/-- No two columns have one name. -/
def columnsDistinct (cols : List Column) : Prop :=
  cols.Pairwise fun a b => a.name.same b.name = false

/-- The pages of a heap are there, and the slots of each end before the trailer of the page: there
are 1022 at most, two fewer than a position has room to tell apart. -/
def pagesFit (limit : Nat) (pages : List (Nat × Nat)) : Prop :=
  ∀ page ∈ pages, page.1 < limit ∧ slotAt page.2 ≤ PAGE_USABLE

/-- The tables and heaps of a database are such as the engine makes them. -/
structure Database.WellFormed (limit : Nat) (db : Database) : Prop where
  checks : ∀ table ∈ db.tables, ∀ cond, table.check = some cond → cond.Formed
  columns : ∀ table ∈ db.tables, columnsDistinct table.cols
  tables : (db.tables.map CatalogNode.table).Pairwise fun a b => a.same b = false
  pages : ∀ heap ∈ db.heaps, pagesFit limit heap.pages

/-! ### The bytes of a catalog -/

/-- A table as a file has it. -/
structure TableImage where
  name : Name
  cols : List Column
  check : Option Condition
  pages : List (Nat × Nat)
  deriving DecidableEq

/-- A page and its number of slots. -/
def getPage : Parser (Nat × Nat) := do
  let pageId ← getNat
  let slots ← getNat
  return (pageId, slots)

/-- The pages of a table and the count of its rows, or, in an older file, the rows. -/
def getPages (version : Nat) (cols : List Column) : Parser (List (Nat × Nat)) := do
  let count ← getNat
  if TREELESS_VERSION ≤ version then
    let pages ← getMany getPage count
    let _ ← getInt
    return pages
  else
    let _ ← getMany (readRow cols) count
    return []

/-- The CHECK of a table, which an older file has none of. -/
def getCheck (version : Nat) : Parser (Option Condition) :=
  if META_VERSION ≤ version then getCondition else return none

/-- A table of the catalog. -/
def getTable (version : Nat) : Parser TableImage := do
  let name ← getName
  let ncols ← getNat
  require (0 < ncols && ncols ≤ MAX_COLS)
  let cols ← getMany (getColumn version) ncols
  let check ← getCheck version
  let pages ← getPages version cols
  return { name := name, cols := cols, check := check, pages := pages }

/-- The tables of a database. -/
def getTables (version : Nat) : Parser (List TableImage) := do
  let count ← getNat
  require (count ≤ MAX_TABLES)
  getMany (getTable version) count

/-- A table whose conditions are trees, whose columns have names of their own, and whose pages are
there. -/
structure TableImage.WellMade (limit : Nat) (image : TableImage) : Prop where
  check : ∀ cond, image.check = some cond → cond.Formed
  columns : columnsDistinct image.cols
  pages : pagesFit limit image.pages

/-- The bytes tell of well-made tables whose names are new. -/
def WellMade (version limit : Nat) (db : Database) (blob : List UInt8) : Prop :=
  ∃ images rest, getTables version blob = some (images, rest) ∧
    (∀ image ∈ images, image.WellMade limit) ∧
    (images.map TableImage.name ++ db.tables.map CatalogNode.table).Pairwise
      fun a b => a.same b = false

end DatabaseEngine
