import DatabaseEngine.Library.Firsts
import DatabaseEngine.Model.Answer
import DatabaseEngine.Spec.Join

/-!
# `DatabaseEngine.Spec.Classes`: rows that are equal

`sameRow` is equality of rows on some columns, NULL equal to NULL. What DISTINCT and GROUP BY are
meant to keep is `firstsBy` of it. `DistinctState` is where the loop of `applyDistinct` is.
-/

set_option autoImplicit false

namespace DatabaseEngine

open Library

/-- Rows that are equal on the columns. -/
def sameRow (slots : List Nat) (a b : Row) : Bool :=
  slots.all fun slot => valuesEqual (a.value slot) (b.value slot)

/-- Values of a column that are equal have one hash. -/
def HashesAgree (slots : List Nat) (rows : List Row) : Prop :=
  ∀ a ∈ rows, ∀ b ∈ rows, ∀ slot ∈ slots, valuesEqual (a.value slot) (b.value slot) = true →
    hashValue (a.value slot) = hashValue (b.value slot)

/-- No column holds zeros of both signs. -/
def ZerosAgree (slots : List Nat) (rows : List Row) : Prop :=
  ∀ a ∈ rows, ∀ b ∈ rows, ∀ slot ∈ slots, ¬OppositeZeros (a.value slot) (b.value slot)

/-! ### The loop of DISTINCT -/

/-- The rows as they lie, how many are kept and the hash table. -/
structure DistinctState where
  rows : List Row
  kept : Nat
  buckets : List Nat

/-- What the loop does with the row at `r`. -/
def distinctStep (ncols : Nat) (s : DistinctState) (r : Nat) : DistinctState :=
  let row := s.rows.getD r []
  let hash := (hashKey row (List.range ncols)).toNat
  if (lookup s.buckets (fun i => rowsEqual row (s.rows.getD i []) ncols) hash).isSome then s
  else { rows := s.rows.set s.kept row, kept := s.kept + 1, buckets := place s.buckets hash s.kept }

/-- The loop over the first `r` rows, in an empty table. -/
def distinctState (ncols : Nat) (rows : List Row) (size r : Nat) : DistinctState :=
  (List.range r).foldl (distinctStep ncols)
    { rows := rows, kept := 0, buckets := List.replicate size 0 }

/-! ### The loop of GROUP BY -/

/-- There is room in the table of groups, whenever one of its loops probes: where a group is looked
for, where the groups are put into a larger array one after another, and where the next one is. -/
structure GroupsRoomy (t : GroupTable) : Prop where
  find : t.buckets ≠ [] → Roomy t.buckets
  rehash : ∀ k ≤ t.groups.length,
    Roomy (rehash (rehashGroups t).buckets.length
      ((t.groups.map fun group => group.hash.toNat).take k))
  record : Roomy (reserveGroup t).buckets

end DatabaseEngine
