import DatabaseEngine.Spec.Aggregate
import DatabaseEngine.Proofs.Select.Order
import Mathlib.Data.List.Induction

/-!
# `DatabaseEngine.Proofs.Select.Accumulate`: an accumulator holds the folds

* `Accumulated`: what an accumulator holds after some values; `accumulate_accumulated`: one more.
* `groupValue_eq`: from such an accumulator the code answers the reference fold.
* `extremeOf_extreme`: a minimum or maximum is one of the values, and none is beyond it.
-/

set_option autoImplicit false

namespace DatabaseEngine

/-! ### One more value -/

section
variable {values : List Value} {value : Value}

/-- A NULL is not present, any other value is. -/
theorem present_append (values : List Value) (value : Value) :
    present (values ++ [value]) =
      if value.isNull then present values else present values ++ [value] := by
  unfold present
  rw [List.filter_append]
  cases h : value.isNull <;> simp [h]

/-- One value more adds to the exact total. -/
theorem exactTotal_append (values : List Value) (value : Value) :
    exactTotal (values ++ [value]) = exactTotal values + value.intValue.toInt := by
  simp [exactTotal]

/-- One value more adds to the total of reals. -/
theorem realTotal_append (values : List Value) (value : Value) :
    realTotal (values ++ [value]) = addReal (realTotal values) (asReal value) := by
  simp [realTotal]

/-- One value more replaces the extreme only if it lies beyond it. -/
theorem extremeOf_append (before : Ordering) (values : List Value) (value : Value) :
    extremeOf before (values ++ [value]) =
      match extremeOf before values with
      | none => some value
      | some extreme =>
        if compareValues value extreme = before then some value else some extreme := by
  cases values with
  | nil => rfl
  | cons first rest =>
    simp only [extremeOf, List.cons_append, List.foldl_append, List.foldl_cons, List.foldl_nil]
    split <;> rfl

/-- Only the empty list has no extreme. -/
theorem extremeOf_isSome (before : Ordering) (values : List Value) :
    extremeOf before values = none ↔ values = [] := by
  cases values <;> simp [extremeOf]

end

/-! ### The accumulator -/

/-- The side of which a minimum or a maximum has nothing. -/
def AggregateType.before : AggregateType → Ordering
  | AGG_MIN => .lt
  | _ => .gt

/-- What an accumulator of an aggregate holds after the values of its item. -/
structure Accumulated (item : SelectItem) (values : List Value) (acc : Accumulator) : Prop where
  count : acc.count = if item.star then values.length else (present values).length
  seen : item.star = false → (acc.seen = false ↔ present values = [])
  real : item.star = false → item.aggregate = .AGG_SUM ∨ item.aggregate = .AGG_AVG →
    acc.real = realTotal (present values)
  sum : item.star = false → item.aggregate = .AGG_SUM ∨ item.aggregate = .AGG_AVG →
    (∀ value ∈ present values, value.type ≠ .TYPE_FLOAT) → acc.sum = exactTotal (present values)
  extreme : item.star = false → item.aggregate = .AGG_MIN ∨ item.aggregate = .AGG_MAX →
    ∀ value, extremeOf item.aggregate.before (present values) = some value → acc.extreme = value

/-- A new accumulator. -/
theorem accumulated_nil (item : SelectItem) (acc : Accumulator) :
    Accumulated item [] (acc.set 0 false) where
  count := by simp [Accumulator.set, present]
  seen _ := by simp [Accumulator.set, present]
  real _ _ := rfl
  sum _ _ _ := rfl
  extreme _ _ value h := by simp [present, extremeOf] at h

/-- What a value that is not NULL does to an accumulator. -/
theorem accumulate_present {item : SelectItem} {value : Value} (acc : Accumulator)
    (hagg : item.aggregate ≠ .AGG_NONE) (hstar : item.star = false)
    (hnull : value.isNull = false) :
    (accumulate acc item value).count = acc.count + 1 ∧
      (accumulate acc item value).seen = true ∧
      (item.aggregate = .AGG_SUM ∨ item.aggregate = .AGG_AVG →
        (accumulate acc item value).real = addReal acc.real (asReal value) ∧
        (value.type ≠ .TYPE_FLOAT →
          (accumulate acc item value).sum = acc.sum + value.intValue.toInt)) ∧
      (item.aggregate = .AGG_MIN ∨ item.aggregate = .AGG_MAX →
        (accumulate acc item value).extreme =
          if acc.seen = false ∨ compareValues value acc.extreme = item.aggregate.before then value
          else acc.extreme) := by
  unfold accumulate asReal
  simp only [hstar, hnull, Bool.false_eq_true, if_false]
  cases hkind : item.aggregate with
  | AGG_NONE => exact absurd hkind hagg
  | AGG_COUNT => simp
  | AGG_SUM => by_cases htype : value.type = .TYPE_FLOAT <;> simp [htype]
  | AGG_AVG => by_cases htype : value.type = .TYPE_FLOAT <;> simp [htype]
  | AGG_MIN =>
    cases hseen : acc.seen <;>
      by_cases hside : compareValues value acc.extreme = .lt <;>
      simp [AggregateType.before, hside]
  | AGG_MAX =>
    have hmin : (AggregateType.AGG_MAX != .AGG_MIN) = true := rfl
    have hmin' : (AggregateType.AGG_MAX == .AGG_MIN) = false := rfl
    cases hseen : acc.seen <;>
      by_cases hside : compareValues value acc.extreme = .gt <;>
      simp [AggregateType.before, hside, hmin, hmin']

/-- One more value. -/
theorem accumulate_accumulated {item : SelectItem} {values : List Value} {acc : Accumulator}
    (h : Accumulated item values acc) (hagg : item.aggregate ≠ .AGG_NONE) (value : Value) :
    Accumulated item (values ++ [value]) (accumulate acc item value) := by
  have hcount := h.count
  cases hstar : item.star with
  | true =>
    have heq : accumulate acc item value = { acc with count := acc.count + 1, seen := true } := by
      simp [accumulate, hagg, hstar]
    rw [heq]
    exact ⟨by simp [hcount, hstar], fun hno => absurd (hstar.symm.trans hno) (by simp),
      fun hno => absurd (hstar.symm.trans hno) (by simp),
      fun hno => absurd (hstar.symm.trans hno) (by simp),
      fun hno => absurd (hstar.symm.trans hno) (by simp)⟩
  | false =>
    rw [hstar, if_neg (by simp)] at hcount
    cases hnull : value.isNull with
    | true =>
      have heq : accumulate acc item value = acc := by simp [accumulate, hstar, hnull]
      have hsame : present (values ++ [value]) = present values := by
        rw [present_append, if_pos hnull]
      rw [heq]
      exact ⟨by rw [hsame, hstar, if_neg (by simp), hcount], by rw [hsame]; exact h.seen,
        by rw [hsame]; exact h.real, by rw [hsame]; exact h.sum, by rw [hsame]; exact h.extreme⟩
    | false =>
      obtain ⟨hcount', hseen', hsums, hextremes⟩ := accumulate_present acc hagg hstar hnull
      have hmore : present (values ++ [value]) = present values ++ [value] := by
        rw [present_append, if_neg (by simp [hnull])]
      refine ⟨?_, fun _ => ?_, fun _ hsum => ?_, fun _ hsum hints => ?_, fun _ hextreme v hv => ?_⟩
      · rw [hmore, hstar, if_neg (by simp), hcount', hcount, List.length_append,
          List.length_singleton]
      · simp [hmore, hseen']
      · rw [(hsums hsum).1, h.real hstar hsum, hmore, realTotal_append]
      · have htype : value.type ≠ .TYPE_FLOAT := hints value (by rw [hmore]; simp)
        have htotal := h.sum hstar hsum fun v hv => hints v (by rw [hmore]; simp [hv])
        rw [(hsums hsum).2 htype, htotal, hmore, exactTotal_append]
      · rw [hmore, extremeOf_append] at hv
        rw [hextremes hextreme]
        cases hold : extremeOf item.aggregate.before (present values) with
        | none =>
          have hfresh := (h.seen hstar).mpr ((extremeOf_isSome _ _).mp hold)
          rw [hold] at hv
          rw [if_pos (.inl hfresh)]
          exact Option.some.inj hv
        | some extreme =>
          have hkept := h.extreme hstar hextreme extreme hold
          have hseen : acc.seen ≠ false := fun hfalse => by
            rw [(extremeOf_isSome _ _).mpr ((h.seen hstar).mp hfalse)] at hold
            exact absurd hold (by simp)
          simp only [hold] at hv
          rw [if_congr (or_iff_right hseen) rfl rfl, hkept]
          split at hv
          · rename_i hside
            rw [if_pos hside]
            exact Option.some.inj hv
          · rename_i hside
            rw [if_neg hside]
            exact Option.some.inj hv

/-- A minimum or maximum from its accumulator. -/
theorem groupValue_extreme {item : SelectItem} {values : List Value} {acc : Accumulator}
    (h : Accumulated item values acc) (hstar : item.star = false)
    (hextreme : item.aggregate = .AGG_MIN ∨ item.aggregate = .AGG_MAX) {before : Ordering}
    (hbefore : item.aggregate.before = before) {other : Value} :
    (if acc.seen then (.ok acc.extreme : Except ErrorCode Value) else .ok other) =
      .ok ((extremeOf before (present values)).getD other) := by
  subst hbefore
  have hseen := h.seen hstar
  rw [← extremeOf_isSome item.aggregate.before] at hseen
  cases hold : extremeOf item.aggregate.before (present values) with
  | none => simp [hseen.mpr hold]
  | some extreme =>
    have htrue : acc.seen = true := by
      rw [← Bool.not_eq_false]
      intro hfalse
      rw [hseen.mp hfalse] at hold
      exact absurd hold (by simp)
    simp [htrue, h.extreme hstar hextreme extreme hold]

/-- The code's answer from an accumulator is the fold of the values. -/
theorem groupValue_eq {plan : ItemPlan} {key : List Value} {values : List Value}
    {acc : Accumulator} (h : Accumulated plan.item values acc)
    (hagg : plan.item.aggregate ≠ .AGG_NONE)
    (htyped : plan.type ≠ .TYPE_FLOAT → ∀ value ∈ present values, value.type ≠ .TYPE_FLOAT) :
    groupValue plan key acc = foldItem plan.item plan.type values := by
  have hplain : plan.item.aggregate ≠ .AGG_COUNT → plan.item.star = false := by
    intro hno
    by_contra hstar
    exact hno (plan.item.starred (by simpa using hstar)).1
  have hcount := h.count
  unfold groupValue foldItem
  cases hkind : plan.item.aggregate with
  | AGG_NONE => exact absurd hkind hagg
  | AGG_COUNT => simp only [hcount, countValue]
  | AGG_SUM =>
    have hstar := hplain (by simp [hkind])
    simp only
    by_cases hempty : present values = []
    · simp [(h.seen hstar).mpr hempty, hempty]
    · have hseen : acc.seen = true := by
        rw [← Bool.not_eq_false]
        exact fun hfalse => hempty ((h.seen hstar).mp hfalse)
      rw [if_neg hempty]
      simp only [hseen, Bool.not_true, Bool.false_eq_true, if_false]
      split
      · rw [h.real hstar (.inl hkind)]
      · rename_i htype
        rw [h.sum hstar (.inl hkind) (htyped htype)]
  | AGG_AVG =>
    have hstar := hplain (by simp [hkind])
    rw [hstar, if_neg (by simp)] at hcount
    simp only
    by_cases hempty : present values = []
    · simp [(h.seen hstar).mpr hempty, hempty]
    · have hseen : acc.seen = true := by
        rw [← Bool.not_eq_false]
        exact fun hfalse => hempty ((h.seen hstar).mp hfalse)
      have hpos : (acc.count == 0) = false := by simpa [hcount] using hempty
      rw [if_neg hempty]
      simp only [hseen, hpos, Bool.not_true, Bool.or_false, Bool.false_eq_true, if_false]
      rw [h.real hstar (.inr hkind), hcount, quotient]
  | AGG_MIN => exact groupValue_extreme h (hplain (by simp [hkind])) (.inl hkind) (by rw [hkind]; rfl)
  | AGG_MAX => exact groupValue_extreme h (hplain (by simp [hkind])) (.inr hkind) (by rw [hkind]; rfl)

/-! ### Extremes -/

/-- A minimum or maximum is one of the values, and none is beyond it. -/
theorem extremeOf_extreme {side : Ordering} (hside : side ≠ .eq) {values : List Value}
    {type : ColType} (htyped : ∀ value ∈ values, value.type = type) {extreme : Value}
    (h : extremeOf side values = some extreme) : ExtremeOf side values extreme := by
  induction values using List.reverseRecOn generalizing extreme with
  | nil => exact absurd h (by simp [extremeOf])
  | append_singleton values value ih =>
    have hself : ∀ v, compareValues v v ≠ side := fun v heq =>
      hside (heq.symm.trans (compareValues_self v))
    rw [extremeOf_append] at h
    cases hold : extremeOf side values with
    | none =>
      rw [hold] at h
      obtain rfl := Option.some.inj h
      rw [(extremeOf_isSome side values).mp hold]
      simpa [ExtremeOf] using hself value
    | some last =>
      obtain ⟨hin, hlast⟩ := ih (fun v hv => htyped v (by simp [hv])) hold
      simp only [hold] at h
      split at h
      · rename_i hbeyond
        obtain rfl := Option.some.inj h
        refine ⟨by simp, fun v hv heq => ?_⟩
        rcases List.mem_append.mp hv with hv | hv
        · -- what is beyond the new one was beyond the last one
          have htype : v.type = value.type := by
            rw [htyped v (by simp [hv]), htyped value (by simp)]
          exact hlast v hv (compareValues_trans hside htype heq hbeyond)
        · rw [List.mem_singleton.mp hv] at heq
          exact hself value heq
      · rename_i hbeyond
        obtain rfl := Option.some.inj h
        refine ⟨by simp [hin], fun v hv => ?_⟩
        rcases List.mem_append.mp hv with hv | hv
        · exact hlast v hv
        · rw [List.mem_singleton.mp hv]
          exact hbeyond

end DatabaseEngine
