import DatabaseEngine.Library.Grouping
import DatabaseEngine.Model.Select
import DatabaseEngine.Spec.Typing

/-!
# `DatabaseEngine.Spec.Aggregate`: what an aggregate means

The reference answer of a SELECT with aggregates: the rows by their keys, and for each group
the folds over the values that the items have on its rows. It knows no hash table, no
accumulator and no shortcut.

* `groupsOf`: the rows of each group, one group for each distinct key.
* `foldItem`: an item over the values of its expression on the rows of a group.
* `foldRows`: the answer.
* `ReadsNothing`, `ConstantRight`: the statements that never read a row, and for which items
  the answer that they give without reading is the right one.
-/

set_option autoImplicit false

namespace DatabaseEngine

open Library

/-! ### Groups -/

/-- What grouping sees of a value that is not a float. -/
def Value.face (value : Value) : Option (ColType × Int32 × List UInt8) :=
  if value.isNull then none
  else if value.type.intLike then some (value.type, value.intValue, [])
  else some (value.type, 0, value.text)

/-- The key of a row: what grouping sees of its GROUP BY columns. -/
abbrev RowKey := List (Option (ColType × Int32 × List UInt8))

/-- The faces of a row's key. -/
def rowKey (groupSlots : List Nat) (row : Row) : RowKey :=
  groupSlots.map fun slot => (row.value slot).face

/-- The rows of each group. Without a GROUP BY there is one, with or without rows. -/
def groupsOf (groupSlots : List Nat) (rows : List Row) : List (List Row) :=
  if groupSlots = [] then [rows] else groupsBy (rowKey groupSlots) rows

/-! ### Folds -/

/-- The values that an aggregate does not skip. -/
def present (values : List Value) : List Value := values.filter fun value => !value.isNull

/-- The exact total. -/
def exactTotal (values : List Value) : Int := (values.map fun value => value.intValue.toInt).sum

/-- The total as a double, added up in the order of the rows. -/
def realTotal (values : List Value) : UInt64 :=
  values.foldl (fun total value => addReal total (asReal value)) 0

/-- The value that no later one is on the side `before` of. -/
def extremeOf (before : Ordering) : List Value → Option Value
  | [] => none
  | first :: rest =>
    some (rest.foldl (fun extreme value =>
      if compareValues value extreme = before then value else extreme) first)

/-- One of the values, with none on the side `before` of it. -/
def ExtremeOf (before : Ordering) (values : List Value) (extreme : Value) : Prop :=
  extreme ∈ values ∧ ∀ value ∈ values, compareValues value extreme ≠ before

/-- A number of rows as a value. -/
def countValue (n : Nat) : Value := { zeroValue with intValue := Int32.ofNat n }

/-- `total / (double)n`. -/
def quotient (total : UInt64) (n : Nat) : UInt64 :=
  (Float.ofBits total / Float.ofBits (intToDouble (Int32.ofNat n))).toBits

/-- An item over the values of its expression on the rows of a group. -/
def foldItem (item : SelectItem) (type : ColType) (values : List Value) :
    Except ErrorCode Value :=
  match item.aggregate with
  | .AGG_NONE => .ok (values.headD zeroValue)
  | .AGG_COUNT =>
    .ok (countValue (if item.star then values.length else (present values).length))
  | .AGG_SUM =>
    if present values = [] then .ok (setNull type)
    else if type = .TYPE_FLOAT then .ok (setFloat (realTotal (present values)))
    else if exactTotal (present values) < -2147483648 ∨
        2147483647 < exactTotal (present values) then .error .VALUE_OUT_OF_RANGE
    else .ok { zeroValue with intValue := Int32.ofInt (exactTotal (present values)) }
  | .AGG_AVG =>
    if present values = [] then .ok (setNull .TYPE_FLOAT)
    else .ok (setFloat (quotient (realTotal (present values)) (present values).length))
  | .AGG_MIN => .ok ((extremeOf .lt (present values)).getD (setNull type))
  | .AGG_MAX => .ok ((extremeOf .gt (present values)).getD (setNull type))

/-! ### The answer -/

/-- What an item gives on a row. For `count(*)` there is nothing to compute. -/
def itemResult (exprs : ExprPool) (row : Row) (item : SelectItem) : Except ErrorCode Value :=
  if item.star then .ok zeroValue else exprEvaluate exprs item.expr row

/-- What an item gives on rows on which it can be computed. -/
def itemValues (exprs : ExprPool) (rows : List Row) (item : SelectItem) : List Value :=
  rows.map fun row => (itemResult exprs row item).toOption.getD zeroValue

/-- The static type of an item. -/
def itemType (table : CatalogNode) (exprs : ExprPool) (item : SelectItem) : ColType :=
  if item.star then .TYPE_INT else (typeOf table exprs item.expr).getD .TYPE_INT

/-- The row of a group. -/
def foldGroup (table : CatalogNode) (exprs : ExprPool) (items : List SelectItem)
    (group : List Row) : Except ErrorCode Row :=
  items.mapM fun item => foldItem item (itemType table exprs item) (itemValues exprs group item)

/-- The reference answer: an item that cannot be computed on some row is the error of the
statement, and otherwise there is one row for each group. HAVING drops rows of this answer. -/
def foldRows (sub : Subqueries) (table : CatalogNode) (select : SelectList) (rows : List Row) :
    Except ErrorCode (List Row) := do
  let groupSlots ← groupBySlots table select.groupBy
  let _ ← rows.mapM fun row => select.items.mapM (itemResult select.exprs row)
  let having ← boundHaving (select.items.map (itemHeader table select.exprs)) select.having
  let answer ← (groupsOf groupSlots rows).mapM (foldGroup table select.exprs select.items)
  .ok (answer.filter (havingKeeps having sub))

/-! ### Reading nothing -/

/-- Nothing in the statement reads a column. -/
def ReadsNothing (select : SelectList) : Prop :=
  select.groupBy = [] ∧ ∀ item ∈ select.items, exprDeepest select.exprs item.expr < 0

/-- An item that reads nothing has its right answer from the number of rows alone: it is
`count(*)`, or its constant can be computed and is one that a count counts, one by which a total
does not grow, or what the memory of the accumulator happens to hold. -/
def ConstantRight (table : CatalogNode) (exprs : ExprPool) (n : Nat) (acc : Accumulator)
    (item : SelectItem) : Prop :=
  item.star = true ∨
    ∃ value, exprEvaluate exprs item.expr [] = .ok value ∧
      match item.aggregate with
      | .AGG_NONE => True
      | .AGG_COUNT => value.isNull = false
      | .AGG_SUM =>
        value.isNull = false ∧
          if value.type = .TYPE_FLOAT then realTotal (List.replicate n value) = 0
          else value.intValue = 0
      | .AGG_AVG =>
        value.isNull = false ∧ quotient (realTotal (List.replicate n value)) n = quotient 0 n
      | .AGG_MIN | .AGG_MAX =>
        acc.extreme = if value.isNull then setNull (itemType table exprs item) else value

end DatabaseEngine
