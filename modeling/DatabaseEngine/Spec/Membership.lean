import DatabaseEngine.Model.Answer
import DatabaseEngine.Spec.Typing

/-!
# `DatabaseEngine.Spec.Membership`: what `x IN (...)` means

`inMeaning` is the OR of the equalities, in the logic of `TriState`. `InDecided` says of a value and
a set when `valueInResult` gives that, and `OrOf` is the tree that the parser writes for a list.
-/

set_option autoImplicit false

namespace DatabaseEngine

/-- `value = s OR value = t OR ...`, and FALSE for no values at all. -/
def inMeaning (value : Value) (set : List Value) : TriState :=
  set.foldl (fun met candidate => met.or (comparePredicate value candidate .OP_EQ)) .TRI_FALSE

/-- A NULL is not looked for in an empty set, and a value is looked for among NULLs and values of
its own type, unless it is found. -/
def InDecided (value : Value) (set : List Value) : Prop :=
  if value.isNull then set ≠ []
  else (∃ candidate ∈ set, candidate.isNull = true ∨
      comparePredicate value candidate .OP_EQ = .TRI_TRUE) ∨
    ∀ candidate ∈ set, candidate.type = value.type

/-- An OR of the equalities of one left side with some right sides, in order. -/
inductive OrOf (nodes : List ConditionNode) (left : Int32) : Nat → List Int32 → Prop
  | one {i : Nat} {right : Int32}
      (leaf : nodes[i]? = some (predicateNode
        { left := left, op := .OP_EQ, right := right, subquery := -1 })) :
      OrOf nodes left i [right]
  | more {root next either : Nat} {rights : List Int32} {right : Int32}
      (front : OrOf nodes left root rights)
      (leaf : nodes[next]? = some (predicateNode
        { left := left, op := .OP_EQ, right := right, subquery := -1 }))
      (branch : nodes[either]? =
        some (branchNode .COND_OR (Int32.ofNat root) (Int32.ofNat next))) :
      OrOf nodes left either (rights ++ [right])

/-- A SELECT with a star answers one column only if there is one. -/
def OneColumn (tables : List CatalogNode) (select : ParsedSelect) : Prop :=
  select.selectAll = true → ∀ table, selectSchema tables select = .ok table → table.cols.length = 1

end DatabaseEngine
