import DatabaseEngine.Model.Answer
import DatabaseEngine.Proofs.Select.Order

/-!
# `DatabaseEngine.Proofs.Select.Sorting`: ORDER BY is a stable sort

The rows are not sorted themselves. The keys are, by a comparison that reads the later terms through
the rows where they lie, and then each row is moved once along the cycles of the order that results
(`reorder_eq` of the library).

* `Comparable`: the values of a result column are of one kind, so that they are in an order.
* `compareTerms_lawful`: the terms of ORDER BY then put the rows in an order.
* `applyOrder_stable`: without LIMIT the answer is the rows, sorted by the terms, and rows that tie
  in all of them stay in the order they had.
-/

set_option autoImplicit false

namespace DatabaseEngine

open Library

/-! ### One term -/

/-- The values of a column that are not NULL are ints and dates, or texts, or doubles without a
NaN. -/
def Comparable (rows : List Row) (slot : Nat) : Prop :=
  (∀ row ∈ rows, (row.value slot).isNull = false → (row.value slot).type.intLike = true) ∨
  (∀ row ∈ rows, (row.value slot).isNull = false → (row.value slot).type = .TYPE_TEXT) ∨
  ∀ row ∈ rows, (row.value slot).isNull = false →
    (row.value slot).type = .TYPE_FLOAT ∧ isNaN (row.value slot).floatValue = false

/-- NULL before everything else, and the rest by a comparison. -/
def nullsFirst (order : Value → Value → Ordering) (a b : Value) : Ordering :=
  if a.isNull || b.isNull then
    if a.isNull && b.isNull then .eq else if a.isNull then .lt else .gt
  else order a b

/-- Putting NULLs first makes a total order of a total order. -/
theorem nullsFirst_lawful {order : Value → Value → Ordering} (h : Std.TransCmp order) :
    Std.TransCmp (nullsFirst order) where
  eq_swap {a b} := by
    unfold nullsFirst
    cases ha : a.isNull <;> cases hb : b.isNull <;> simp
    exact h.eq_swap
  isLE_trans {a b c} hab hbc := by
    unfold nullsFirst at hab hbc ⊢
    cases ha : a.isNull <;> cases hb : b.isNull <;> cases hc : c.isNull <;>
      simp [ha, hb, hc] at hab hbc ⊢
    exact h.isLE_trans hab hbc

/-- The values of a column are compared by a comparison that is in order everywhere. -/
theorem orderCompare_lawful {rows : List Row} {slot : Nat} (h : Comparable rows slot) :
    ∃ order : Value → Value → Ordering, Std.TransCmp order ∧ ∀ a ∈ rows, ∀ b ∈ rows,
      orderCompare (a.value slot) (b.value slot) = order (a.value slot) (b.value slot) := by
  have hlift : ∀ order : Value → Value → Ordering, Std.TransCmp order →
      (∀ a ∈ rows, ∀ b ∈ rows, (a.value slot).isNull = false → (b.value slot).isNull = false →
        compareValues (a.value slot) (b.value slot) = order (a.value slot) (b.value slot)) →
      ∃ order : Value → Value → Ordering, Std.TransCmp order ∧ ∀ a ∈ rows, ∀ b ∈ rows,
        orderCompare (a.value slot) (b.value slot) = order (a.value slot) (b.value slot) := by
    refine fun order horder heq => ⟨nullsFirst order, nullsFirst_lawful horder,
      fun a ha b hb => ?_⟩
    unfold orderCompare nullsFirst
    split
    · rfl
    · rename_i hnull
      simp only [Bool.or_eq_true, not_or, Bool.not_eq_true] at hnull
      exact heq a ha b hb hnull.1 hnull.2
  rcases h with hint | htext | hfloat
  · refine hlift (fun a b => compare a.intValue.toInt b.intValue.toInt) ?_
      fun a ha b _ hna _ => compareValues_int (hint a ha hna)
    exact { eq_swap := Std.OrientedOrd.eq_swap, isLE_trans := Std.TransOrd.isLE_trans }
  · refine hlift (fun a b => compareText a.text b.text) ?_
      fun a ha b _ hna _ => compareValues_text (htext a ha hna)
    exact { eq_swap := Std.OrientedCmp.eq_swap, isLE_trans := Std.TransCmp.isLE_trans }
  · refine hlift (fun a b => compare (floatRank a.floatValue) (floatRank b.floatValue)) ?_
      fun a ha b hb hna hnb =>
        compareValues_float (hfloat a ha hna).1 (hfloat a ha hna).2 (hfloat b hb hnb).2
    exact { eq_swap := Std.OrientedOrd.eq_swap, isLE_trans := Std.TransOrd.isLE_trans }

/-! ### All terms -/

/-- First by one comparison and then by another. -/
theorem then_lawful {α : Type} {first second : α → α → Ordering} (h₁ : Std.TransCmp first)
    (h₂ : Std.TransCmp second) : Std.TransCmp fun a b => (first a b).then (second a b) :=
  inferInstanceAs (Std.TransCmp (compareLex first second))

/-- The terms of ORDER BY compare the rows by a comparison that is in order everywhere. -/
theorem compareTerms_lawful {rows : List Row} {terms : List SortTerm}
    (h : ∀ term ∈ terms, Comparable rows term.slot) :
    ∃ order : Row → Row → Ordering, Std.TransCmp order ∧ ∀ a ∈ rows, ∀ b ∈ rows,
      compareTerms terms a b = order a b := by
  induction terms with
  | nil =>
    refine ⟨fun _ _ => .eq, ?_, fun _ _ _ _ => rfl⟩
    exact { eq_swap := rfl, isLE_trans := fun _ _ => rfl }
  | cons term rest ih =>
    obtain ⟨later, hlater, hrest⟩ := ih fun other hother => h other (List.mem_cons_of_mem _ hother)
    obtain ⟨order, horder, hfirst⟩ := orderCompare_lawful (h term (List.mem_cons_self ..))
    have hon : Std.TransCmp fun a b : Row => order (a.value term.slot) (b.value term.slot) :=
      { eq_swap := Std.OrientedCmp.eq_swap, isLE_trans := Std.TransCmp.isLE_trans }
    by_cases hdown : term.descending = true
    · -- descending is the comparison the other way round
      have hback : Std.TransCmp fun a b : Row => order (b.value term.slot) (a.value term.slot) :=
        Std.TransCmp.opposite
      refine ⟨_, then_lawful hback hlater, fun a ha b hb => ?_⟩
      unfold compareTerms SortTerm.compare
      rw [if_pos hdown, hfirst a ha b hb, hrest a ha b hb]
      rw [← Std.OrientedCmp.eq_swap]
    · refine ⟨_, then_lawful hon hlater, fun a ha b hb => ?_⟩
      unfold compareTerms SortTerm.compare
      rw [if_neg hdown, hfirst a ha b hb, hrest a ha b hb]

/-! ### The rows -/

/-- The keys of the rows, each by its number. -/
theorem sortKeys_eq (rows : List Row) (slot : Nat) :
    sortKeys rows slot = (List.range rows.length).map fun i =>
      { first := (rows.getD i []).value slot, index := i } := by
  refine List.ext_getElem? fun i => ?_
  unfold sortKeys
  by_cases hi : i < rows.length
  · rw [List.getElem?_map, List.getElem?_map, List.getElem?_zipIdx,
      List.getElem?_range hi, List.getElem?_eq_getElem hi]
    simp [List.getD_eq_getElem?_getD, List.getElem?_eq_getElem hi]
  · rw [List.getElem?_eq_none (by simpa using hi), List.getElem?_eq_none (by simpa using hi)]

/-- The order that `qsort` finds: a permutation of the numbers of the rows in which each pair is
sorted by the terms, and by the numbers where they tie. -/
theorem sortBy_stable {rows : List Row} {term : SortTerm} {rest : List SortTerm}
    (h : ∀ other ∈ term :: rest, Comparable rows other.slot) :
    ∃ order : List Nat, order.Perm (List.range rows.length) ∧
      (sortBy (sortCompare rows (term :: rest)) (sortKeys rows term.slot)).map SortKey.index
        = order ∧
      order.Pairwise fun i j =>
        compareTerms (term :: rest) (rows.getD i []) (rows.getD j []) = .lt ∨
        compareTerms (term :: rest) (rows.getD i []) (rows.getD j []) = .eq ∧ i < j := by
  obtain ⟨first, hfirst, heq⟩ := compareTerms_lawful h
  -- the rows by the terms and then by their numbers, for any two numbers
  let full : Nat → Nat → Ordering := fun i j =>
    (first (rows.getD i []) (rows.getD j [])).then (compare i j)
  have hfull : Std.TransCmp full := by
    have hrows : Std.TransCmp fun i j => first (rows.getD i []) (rows.getD j []) :=
      { eq_swap := Std.OrientedCmp.eq_swap, isLE_trans := Std.TransCmp.isLE_trans }
    exact then_lawful hrows inferInstance
  have hmem : ∀ i < rows.length, rows.getD i [] ∈ rows := fun i hi => by
    rw [List.getD_eq_getElem?_getD, List.getElem?_eq_getElem hi]
    exact List.getElem_mem hi
  let key : Nat → SortKey := fun i => { first := (rows.getD i []).value term.slot, index := i }
  have hkey : ∀ i ∈ List.range rows.length, ∀ j ∈ List.range rows.length,
      full i j ≠ .gt ↔ sortCompare rows (term :: rest) (key i) (key j) ≠ .gt := by
    intro i hi j hj
    have hrow := heq _ (hmem i (List.mem_range.mp hi)) _ (hmem j (List.mem_range.mp hj))
    show (first _ _).then _ ≠ .gt ↔ Ordering.then _ (Ordering.then _ _) ≠ .gt
    rw [← hrow, ← Ordering.then_assoc]
    rfl
  have htotal : Std.Total fun i j => full i j ≠ .gt := ⟨fun i j => by
    rw [hfull.eq_swap (a := j)]
    cases full i j <;> simp⟩
  have htrans : IsTrans Nat fun i j => full i j ≠ .gt := ⟨fun i j k hij hjk =>
    Ordering.ne_gt_iff_isLE.mpr (hfull.isLE_trans (Ordering.ne_gt_iff_isLE.mp hij)
      (Ordering.ne_gt_iff_isLE.mp hjk))⟩
  have hperm := List.perm_insertionSort (fun i j => full i j ≠ .gt) (List.range rows.length)
  refine ⟨(List.range rows.length).insertionSort fun i j => full i j ≠ .gt, hperm, ?_, ?_⟩
  · unfold sortBy
    rw [sortKeys_eq, ← List.map_insertionSort _ _ key (List.range rows.length) hkey, List.map_map]
    exact List.map_id _
  · have hsorted : ((List.range rows.length).insertionSort fun i j => full i j ≠ .gt).Pairwise
        fun i j => full i j ≠ .gt := List.pairwise_insertionSort _ _
    have hnodup : ((List.range rows.length).insertionSort fun i j => full i j ≠ .gt).Pairwise
        fun i j => i ≠ j := hperm.nodup_iff.mpr List.nodup_range
    refine (hsorted.and hnodup).imp_of_mem fun {i j} hi hj hpair => ?_
    obtain ⟨hle, hne⟩ := hpair
    have hrow := heq _ (hmem i (List.mem_range.mp (hperm.mem_iff.mp hi))) _
      (hmem j (List.mem_range.mp (hperm.mem_iff.mp hj)))
    rw [hrow]
    change (first _ _).then (compare i j) ≠ .gt at hle
    cases hcase : first (rows.getD i []) (rows.getD j []) with
    | lt => exact Or.inl rfl
    | eq =>
      rw [hcase] at hle
      exact Or.inr ⟨rfl, Nat.lt_of_le_of_ne (Nat.compare_ne_gt.mp hle) hne⟩
    | gt =>
      rw [hcase] at hle
      exact absurd rfl hle

/-- Without LIMIT the answer is the rows in an order that is sorted by the terms, one after the
other, and in which rows that tie in all of them stay as they were. -/
theorem applyOrder_stable {select : ParsedSelect} {out : ResultSet} {terms : List SortTerm}
    (hlimit : select.limit = none) (hterms : bindOrder out.headers select.order = .ok terms)
    (hcolumns : ∀ term ∈ terms, Comparable out.rows term.slot) :
    ∃ order : List Nat, order.Perm (List.range out.rows.length) ∧
      (order.map fun i => out.rows.getD i []).Perm out.rows ∧
      applyOrder select out = .ok { out with rows := order.map fun i => out.rows.getD i [] } ∧
      order.Pairwise fun i j =>
        compareTerms terms (out.rows.getD i []) (out.rows.getD j []) = .lt ∨
        compareTerms terms (out.rows.getD i []) (out.rows.getD j []) = .eq ∧ i < j := by
  have hall : (List.range out.rows.length).map (fun i => out.rows.getD i []) = out.rows := by
    refine List.ext_getElem (by simp) fun i hi hi' => ?_
    simp [List.getD_eq_getElem?_getD, List.getElem?_eq_getElem hi']
  have hsorted : ∃ order : List Nat, order.Perm (List.range out.rows.length) ∧
      orderRows terms none out.rows = order.map (fun i => out.rows.getD i []) ∧
      order.Pairwise fun i j =>
        compareTerms terms (out.rows.getD i []) (out.rows.getD j []) = .lt ∨
        compareTerms terms (out.rows.getD i []) (out.rows.getD j []) = .eq ∧ i < j := by
    cases terms with
    | nil =>
      exact ⟨_, List.Perm.refl _, hall.symm,
        List.pairwise_lt_range.imp fun hlt => Or.inr ⟨rfl, hlt⟩⟩
    | cons term rest =>
      obtain ⟨order, hperm, hkeys, hpairs⟩ := sortBy_stable hcolumns
      refine ⟨order, hperm, ?_, hpairs⟩
      show sortRows _ _ _ = _
      unfold sortRows
      rw [hkeys, reorder_eq hperm []]
  obtain ⟨order, hperm, hrows, hpairs⟩ := hsorted
  refine ⟨order, hperm, (hperm.map _).trans (.of_eq hall), ?_, hpairs⟩
  unfold applyOrder
  rw [hterms, hlimit, ← hrows]
  rfl

/-- `ORDER BY a, b DESC` over four rows, one with a NULL and two that tie. -/
theorem applyOrder_stable_ties :
    let select : ParsedSelect :=
      { items := [], exprs := [], selectAll := true, onRoots := [], wher := noCondition,
        having := noCondition, groupBy := [], tables := [], distinct := false,
        order := [⟨Name.ofBytes [97], false⟩, ⟨Name.ofBytes [98], true⟩], limit := none }
    let one : Value := { zeroValue with isNull := false, intValue := 1 }
    let two : Value := { zeroValue with isNull := false, intValue := 2 }
    let out : ResultSet :=
      { headers := [Name.ofBytes [97], Name.ofBytes [98]], types := [.TYPE_INT, .TYPE_TEXT],
        rows := [[two, setText [120]], [one, setText [121]], [two, setText [120]],
          [setNull .TYPE_INT, setText [122]]] }
    ∃ order : List Nat, order.Perm (List.range 4) ∧
      (order.map fun i => out.rows.getD i []).Perm out.rows ∧
      applyOrder select out = .ok { out with rows := order.map fun i => out.rows.getD i [] } ∧
      order.Pairwise fun i j =>
        compareTerms [⟨0, false⟩, ⟨1, true⟩] (out.rows.getD i []) (out.rows.getD j []) = .lt ∨
        compareTerms [⟨0, false⟩, ⟨1, true⟩] (out.rows.getD i []) (out.rows.getD j []) = .eq ∧
          i < j := by
  intro select one two out
  refine @applyOrder_stable _ out _ rfl rfl fun term hterm => ?_
  rcases List.mem_cons.mp hterm with rfl | hterm
  · exact Or.inl (by decide +kernel)
  · obtain rfl := List.mem_singleton.mp hterm
    exact Or.inr (Or.inl (by decide +kernel))

end DatabaseEngine
