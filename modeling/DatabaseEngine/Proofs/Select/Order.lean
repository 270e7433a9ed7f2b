import DatabaseEngine.Proofs.Select.Keys

/-!
# `DatabaseEngine.Proofs.Select.Order`: the order of values

`compareText` is the lexicographic order of lists of bytes (`compareText_eq_compare`), so what the
library knows of such an order holds of it. The doubles are in order by their rank as long as none
is a NaN (`compareValues_float`).

* `compareValues_trans`: transitive on each side for the values of one type, NaN or not.
* `compareValues_of_same`: values that are the same are equal in the order.
-/

set_option autoImplicit false

namespace DatabaseEngine

/-- Texts compare byte by byte, the shorter first. -/
theorem compareText_eq_compare (a b : List UInt8) : compareText a b = compare a b := by
  induction a generalizing b with
  | nil => cases b <;> rfl
  | cons c a ih =>
    cases b with
    | nil => rfl
    | cons d b =>
      have hbytes : compare c d = compareOfLessAndEq c d := rfl
      rw [compareText, List.compare_cons_cons, ih, hbytes]
      unfold compareOfLessAndEq
      by_cases hlt : c < d
      · rw [if_pos hlt, if_pos hlt]
        rfl
      · by_cases heq : c = d
        · subst heq
          rw [if_neg hlt, if_neg hlt, if_neg hlt, if_pos rfl]
          rfl
        · have hgt : d < c := UInt8.lt_of_le_of_ne (UInt8.not_lt.mp hlt) fun h => heq h.symm
          rw [if_neg hlt, if_neg hlt, if_pos hgt, if_neg heq]
          rfl

instance : Std.TransCmp compareText where
  eq_swap {a b} := by
    rw [compareText_eq_compare, compareText_eq_compare]
    exact Std.OrientedOrd.eq_swap
  isLE_trans {a b c} hab hbc := by
    rw [compareText_eq_compare] at hab hbc ⊢
    exact Std.TransOrd.isLE_trans hab hbc

instance : Std.LawfulEqCmp compareText where
  eq_of_compare {a b} h := by
    rw [compareText_eq_compare] at h
    exact Std.LawfulEqOrd.eq_of_compare h

/-! ### Values -/

/-- Less carries over among floats. -/
theorem floatLt_trans {a b c : UInt64} (hab : floatLt a b = true) (hbc : floatLt b c = true) :
    floatLt a c = true := by
  simp only [floatLt, Bool.and_eq_true, decide_eq_true_eq] at hab hbc ⊢
  exact ⟨⟨hab.1.1, hbc.1.2⟩, Int.lt_trans hab.2 hbc.2⟩

/-- A value is equal to itself. -/
theorem compareValues_self (a : Value) : compareValues a a = .eq := by
  unfold compareValues
  split
  · simp
  · split
    · simp [floatLt]
    · exact Std.ReflCmp.compare_self

/-- The order of values of one type is transitive on each side. -/
theorem compareValues_trans {a b c : Value} {side : Ordering} (hside : side ≠ .eq)
    (htype : a.type = b.type) (hab : compareValues a b = side) (hbc : compareValues b c = side) :
    compareValues a c = side := by
  unfold compareValues at hab hbc ⊢
  rw [← htype] at hbc
  split
  · rename_i hint
    simp only [hint, if_true, Int32.lt_iff_toInt_lt] at hab hbc ⊢
    split at hab
    · subst hab
      split at hbc
      · rw [if_pos (by omega)]
      · split at hbc <;> exact absurd hbc (by simp)
    · split at hab
      · subst hab
        split at hbc
        · exact absurd hbc (by simp)
        · split at hbc
          · rw [if_neg (by omega), if_pos (by omega)]
          · exact absurd hbc (by simp)
      · exact absurd hab.symm hside
  · rename_i hint
    simp only [hint, Bool.false_eq_true, if_false] at hab hbc
    split
    · rename_i hfloat
      simp only [hfloat, if_true] at hab hbc
      split at hab
      · rename_i hlt
        subst hab
        split at hbc
        · rename_i hlt'
          rw [if_pos (floatLt_trans hlt hlt')]
        · split at hbc <;> exact absurd hbc (by simp)
      · split at hab
        · rename_i hgt
          subst hab
          split at hbc
          · exact absurd hbc (by simp)
          · split at hbc
            · rename_i hgt'
              have hca := floatLt_trans hgt' hgt
              have hac : floatLt a.floatValue c.floatValue = false := by
                simp only [floatLt, Bool.and_eq_true, decide_eq_true_eq] at hca
                simp only [floatLt, Bool.and_eq_false_iff, decide_eq_false_iff_not]
                exact .inr (by omega)
              rw [if_neg (by simp [hac]), if_pos hca]
            · exact absurd hbc (by simp)
        · exact absurd hab.symm hside
    · rename_i hfloat
      simp only [hfloat, if_false] at hab hbc
      cases side with
      | lt => exact Std.TransCmp.lt_trans hab hbc
      | eq => exact absurd rfl hside
      | gt => exact Std.TransCmp.gt_trans hab hbc

/-- The test of equality that stops at the lengths agrees with the order. -/
theorem compareValues_of_same {a b : Value} (h : valuesSame a b = true) : compareValues a b = .eq := by
  unfold valuesSame at h
  unfold compareValues
  split
  · rw [if_pos ‹_›, beq_iff_eq] at h
    rw [h, if_neg Int32.lt_irrefl, if_neg Int32.lt_irrefl]
  · rw [if_neg ‹_›] at h
    split
    · rw [if_pos ‹_›] at h
      have hrank : floatRank a.floatValue = floatRank b.floatValue := by
        simp only [floatEq, Bool.and_eq_true, beq_iff_eq] at h
        exact h.2
      rw [if_neg (by simp [floatLt, hrank]), if_neg (by simp [floatLt, hrank])]
    · rw [if_neg ‹_›] at h
      have htext : a.text = b.text := by
        simp only [Bool.and_eq_true, beq_iff_eq] at h
        exact h.2
      rw [htext]
      exact Std.ReflCmp.compare_self

/-- Doubles are in the order of their ranks. -/
theorem compareValues_float {a b : Value} (ha : a.type = .TYPE_FLOAT)
    (hna : isNaN a.floatValue = false) (hnb : isNaN b.floatValue = false) :
    compareValues a b = compare (floatRank a.floatValue) (floatRank b.floatValue) := by
  have hranks : compare (floatRank a.floatValue) (floatRank b.floatValue)
      = compareOfLessAndEq (floatRank a.floatValue) (floatRank b.floatValue) := rfl
  unfold compareValues floatLt
  rw [ha, hna, hnb, hranks]
  unfold compareOfLessAndEq
  simp only [ColType.intLike, Bool.not_false, Bool.true_and, decide_eq_true_eq, if_true,
    Bool.false_eq_true, if_false]
  split
  · rfl
  · split
    · rw [if_neg (by omega)]
    · rw [if_pos (by omega)]

/-- Integers, booleans and dates compare as numbers. -/
theorem compareValues_int {a b : Value} (ha : a.type.intLike = true) :
    compareValues a b = compare a.intValue.toInt b.intValue.toInt := by
  have hints : compare a.intValue.toInt b.intValue.toInt
      = compareOfLessAndEq a.intValue.toInt b.intValue.toInt := rfl
  unfold compareValues
  rw [if_pos ha, hints]
  unfold compareOfLessAndEq
  simp only [Int32.lt_iff_toInt_lt]
  split
  · rfl
  · split
    · rw [if_neg (by omega)]
    · rw [if_pos (by omega)]

/-- Texts compare as texts. -/
theorem compareValues_text {a b : Value} (ha : a.type = .TYPE_TEXT) :
    compareValues a b = compareText a.text b.text := by
  unfold compareValues
  rw [ha]
  rfl

end DatabaseEngine
