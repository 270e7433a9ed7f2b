import DatabaseEngine.Proofs.Select.Grouping

/-!
# `DatabaseEngine.Proofs.Select.Folds`: what a SELECT with aggregates answers

* `groupValue_fold`: from a group of the table the code answers the folds over its rows.
* `shortcut_iff`: when an item that reads nothing has its right answer.
* `projectGroups_folds_iff`: the code answers the reference folds, whatever HAVING drops of
  them, if and only if it does not skip the rows or may.
* `constants_are_not_added`: a statement that it answers wrongly.
-/

set_option autoImplicit false

namespace DatabaseEngine

open Library

/-! ### Lists of computations -/

section
variable {α β ε : Type}

/-- A list is worked out in full exactly if each of its elements is. -/
theorem mapM_ok {f : α → Except ε β} {xs : List α} {ys : List β} :
    xs.mapM f = .ok ys ↔ List.Forall₂ (fun x y => f x = .ok y) xs ys := by
  induction xs generalizing ys with
  | nil =>
    rw [List.mapM_nil, List.forall₂_nil_left_iff]
    exact ⟨fun h => (Except.ok.inj h).symm, fun h => h ▸ rfl⟩
  | cons x rest ih =>
    rw [List.mapM_cons]
    constructor
    · intro h
      cases hx : f x with
      | error e => simp [hx, bind, Except.bind] at h
      | ok y =>
        cases hrest : rest.mapM f with
        | error e => simp [hx, hrest, bind, Except.bind] at h
        | ok ys' =>
          simp only [hx, hrest, bind, Except.bind, pure, Except.pure, Except.ok.injEq] at h
          subst h
          exact .cons hx (ih.mp hrest)
    · rintro (_ | ⟨hx, hrest⟩)
      simp [hx, ih.mpr hrest, bind, Except.bind, pure, Except.pure]

/-- Only what is computed of the list's own elements counts. -/
theorem mapM_congr {f g : α → Except ε β} {xs : List α} (h : ∀ x ∈ xs, f x = g x) :
    xs.mapM f = xs.mapM g := by
  induction xs with
  | nil => rfl
  | cons x rest ih =>
    rw [List.mapM_cons, List.mapM_cons, h x (by simp), ih fun y hy => h y (by simp [hy])]

/-- A computation that succeeds on each element succeeds on the list. -/
theorem mapM_isOk {f : α → Except ε β} {xs : List α} (h : ∀ x ∈ xs, ∃ y, f x = .ok y) :
    ∃ ys, xs.mapM f = .ok ys := by
  induction xs with
  | nil => exact ⟨[], rfl⟩
  | cons x rest ih =>
    obtain ⟨y, hy⟩ := h x (by simp)
    obtain ⟨ys, hys⟩ := ih fun z hz => h z (by simp [hz])
    exact ⟨y :: ys, mapM_ok.mpr (.cons hy (mapM_ok.mp hys))⟩

/-- If a list is worked out in full, each of its elements is. -/
theorem mapM_mem {f : α → Except ε β} {xs : List α} {ys : List β} (h : xs.mapM f = .ok ys)
    {x : α} (hx : x ∈ xs) : ∃ y, f x = .ok y := by
  have hall := mapM_ok.mp h
  clear h
  induction hall with
  | nil => exact absurd hx (by simp)
  | cons hfirst _ ih =>
    rcases List.mem_cons.mp hx with rfl | hx
    · exact ⟨_, hfirst⟩
    · exact ih hx

end

/-! ### The values of an item -/

section
variable {table : CatalogNode} {select : SelectList} {groupSlots : List Nat} {rows : List Row}
  {item : SelectItem}

/-- A value that an item gives on a row of the table has the type of the item. -/
theorem ItemReady.value_type {exprs : ExprPool} (h : ItemReady table select exprs item)
    {row : Row} (hrow : RowOf table row) {value : Value}
    (hvalue : itemResult exprs row item = .ok value) (hnull : value.isNull = false) :
    value.type = itemType table exprs item := by
  unfold itemResult at hvalue
  unfold itemType
  cases hstar : item.star with
  | true =>
    rw [hstar, if_pos rfl] at hvalue
    rw [if_pos rfl, ← Except.ok.inj hvalue]
    rfl
  | false =>
    rw [hstar, if_neg (by simp)] at hvalue
    obtain ⟨type, htype⟩ := h.typed hstar
    rw [if_neg (by simp), htype]
    exact exprEvaluateFrom_typed hrow (fun j n hj hn => (h.stamped hstar j n hj hn).bound) htype
      hvalue hnull

/-- A value that is present was computed of one of the rows. -/
theorem mem_present_itemValues {exprs : ExprPool} {value : Value}
    (hcomputed : ∀ row ∈ rows, ∃ value, itemResult exprs row item = .ok value)
    (h : value ∈ present (itemValues exprs rows item)) :
    ∃ row ∈ rows, itemResult exprs row item = .ok value ∧ value.isNull = false := by
  simp only [present, List.mem_filter, Bool.not_eq_true'] at h
  obtain ⟨hin, hnull⟩ := h
  obtain ⟨row, hrow, heq⟩ := List.mem_map.mp hin
  obtain ⟨v, hv⟩ := hcomputed row hrow
  rw [hv] at heq
  exact ⟨row, hrow, by rw [hv]; exact congrArg Except.ok heq, hnull⟩

/-- The values of an item are of one type. -/
theorem ItemReady.present_type {exprs : ExprPool} (h : ItemReady table select exprs item)
    (hrows : ∀ row ∈ rows, RowOf table row)
    (hcomputed : ∀ row ∈ rows, ∃ value, itemResult exprs row item = .ok value) {value : Value}
    (hvalue : value ∈ present (itemValues exprs rows item)) :
    value.type = itemType table exprs item := by
  obtain ⟨row, hrow, hresult, hnull⟩ := mem_present_itemValues hcomputed hvalue
  exact h.value_type (hrows row hrow) hresult hnull

/-- The positions of the GROUP BY columns. -/
theorem groupBySlots_get {names : List Name} {slots : List Nat}
    (h : groupBySlots table names = .ok slots) :
    slots.length = names.length ∧ ∀ (k : Nat) (name : Name), names[k]? = some name →
      ∃ slot, slots[k]? = some slot ∧ findColumn table name.1 = .ofNat slot := by
  induction names generalizing slots with
  | nil =>
    obtain rfl := Except.ok.inj h
    exact ⟨rfl, fun k name hk => absurd hk (by simp)⟩
  | cons name rest ih =>
    unfold groupBySlots at h
    split at h
    · exact absurd h (by simp)
    · rename_i slot hslot
      split at h
      · exact absurd h (by simp)
      · rename_i slots' hslots
        obtain rfl := Except.ok.inj h
        obtain ⟨hlength, hrest⟩ := ih hslots
        refine ⟨by simp [hlength], fun k other hk => ?_⟩
        cases k with
        | zero =>
          obtain rfl := Option.some.inj hk
          exact ⟨slot, rfl, hslot⟩
        | succ k => exact hrest k other hk

/-- The slots of a GROUP BY lie within the table's columns. -/
theorem groupBySlots_lt {names : List Name} {slots : List Nat}
    (h : groupBySlots table names = .ok slots) : ∀ slot ∈ slots, slot < table.cols.length := by
  obtain ⟨hlength, hget⟩ := groupBySlots_get h
  intro slot hs
  obtain ⟨k, hk, rfl⟩ := List.getElem_of_mem hs
  obtain ⟨slot', hslot, hfind⟩ := hget k _ (List.getElem?_eq_getElem (by omega))
  rw [List.getElem?_eq_getElem hk] at hslot
  rw [Option.some.inj hslot]
  exact findColumn_lt hfind

/-- A bare column of a grouped statement is one of its keys: the key is the column's value. -/
theorem groupValue_key (hready : Ready table select groupSlots) (hin : item ∈ select.items)
    (hnone : item.aggregate = .AGG_NONE) {first : Row} {value : Value}
    (hvalue : itemResult select.exprs first item = .ok value) (acc : Accumulator) :
    groupValue (planOf table select item) (groupSlots.map first.value) acc = .ok value := by
  have hstar : item.star = false := by
    by_contra hstar
    have hcount := (item.starred (by simpa using hstar)).1
    rw [hnone] at hcount
    exact absurd hcount (by simp)
  have hitem := hready.items item hin
  obtain ⟨hcol, hgrouped⟩ := hitem.grouped hnone
  -- the position of its name among the names of the GROUP BY
  obtain ⟨k, hkey, hname⟩ : ∃ k, itemKey select select.exprs item = some k ∧
      ∃ name, select.groupBy[k]? = some name ∧
        sameText name.1 (exprColumn select.exprs item.expr) = true := by
    unfold itemKey
    rw [if_pos (by simp [hnone, hcol])]
    obtain ⟨name, hmem, hsame⟩ := List.any_eq_true.mp hgrouped
    obtain ⟨j, hj, hget⟩ := List.getElem_of_mem hmem
    have hfound : j ∈ (List.range select.groupBy.length).filter fun k =>
        (select.groupBy[k]?).any fun name =>
          sameText name.1 (exprColumn select.exprs item.expr) := by
      rw [List.mem_filter]
      exact ⟨List.mem_range.mpr hj, by simp [hj, hget, hsame]⟩
    have hsome := List.getLast?_isSome.mpr (List.ne_nil_of_mem hfound)
    obtain ⟨k, hk⟩ := Option.isSome_iff_exists.mp hsome
    refine ⟨k, hk, ?_⟩
    have hmem := (List.mem_filter.mp (List.mem_of_getLast? hk)).2
    obtain ⟨name, hget, hsame⟩ := (Option.any_eq_true _ _).mp hmem
    exact ⟨name, hget, hsame⟩
  obtain ⟨name, hget, hsame⟩ := hname
  obtain ⟨slot, hslot, hfind⟩ := (groupBySlots_get hready.slots).2 k name hget
  have hplan : (planOf table select item).key = some k := hkey
  simp only [groupValue, show (planOf table select item).item = item from rfl, hnone, hplan,
    Option.bind_some, List.getElem?_map, hslot, Option.map_some, Option.getD_some]
  -- the value of the column
  unfold exprIsColumn at hcol
  cases hn : select.exprs.node item.expr with
  | none => simp [hn] at hcol
  | some n =>
    simp only [hn, beq_iff_eq] at hcol
    obtain ⟨hbound, -⟩ := (hitem.stamped hstar item.expr n reaches_self hn).1 hcol
    have hcolumn : exprColumn select.exprs item.expr = n.column.1 := by
      simp [exprColumn, hn, hcol]
    rw [hcolumn] at hsame
    rw [← findColumn_congr table hsame, hfind] at hbound
    rw [itemResult, hstar, if_neg (by simp)] at hvalue
    simp only [exprEvaluate, exprEvaluateFrom, hn, hcol] at hvalue
    split at hvalue
    · exact absurd hvalue (by simp)
    · rw [hbound] at hvalue
      exact hvalue

/-- Bare columns only stand in statements with a GROUP BY. -/
theorem Ready.aggregated (hready : Ready table select groupSlots) (hslots : groupSlots = [])
    (hin : item ∈ select.items) : item.aggregate ≠ .AGG_NONE := by
  intro hnone
  obtain ⟨hlength, -⟩ := groupBySlots_get hready.slots
  have hempty : select.groupBy = [] := by
    rw [← List.length_eq_zero_iff, ← hlength, hslots]
    rfl
  have hgrouped := ((hready.items item hin).grouped hnone).2
  rw [isGrouped, hempty] at hgrouped
  exact absurd hgrouped (by simp)

/-! ### The groups -/

/-- From a group whose accumulators hold its rows the code answers the folds over them. -/
theorem groupValue_fold (hready : Ready table select groupSlots) (hin : item ∈ select.items)
    (hrows : ∀ row ∈ rows, RowOf table row)
    (hcomputed : ∀ row ∈ rows, ∃ value, itemResult select.exprs row item = .ok value)
    {key : List Value} {acc : Accumulator}
    (hkey : item.aggregate = .AGG_NONE →
      ∃ first rest, rows = first :: rest ∧ key = groupSlots.map first.value)
    (hacc : item.aggregate ≠ .AGG_NONE →
      Accumulated item (itemValues select.exprs rows item) acc) :
    groupValue (planOf table select item) key acc =
      foldItem item (itemType table select.exprs item) (itemValues select.exprs rows item) := by
  by_cases hnone : item.aggregate = .AGG_NONE
  · obtain ⟨first, rest, rfl, rfl⟩ := hkey hnone
    obtain ⟨value, hvalue⟩ := hcomputed first (by simp)
    rw [groupValue_key hready hin hnone hvalue]
    simp [foldItem, hnone, itemValues, hvalue, Except.toOption]
  · refine groupValue_eq (hacc hnone) hnone
      fun htype value hvalue => ?_
    rw [(hready.items item hin).present_type hrows hcomputed hvalue]
    exact htype

/-- The items of a group, one by one. -/
theorem groupValues_mapM {items : List SelectItem} {key : List Value} {accs : List Accumulator}
    {fold : SelectItem → Except ErrorCode Value}
    (h : List.Forall₂ (fun item acc =>
      groupValue (planOf table select item) key acc = fold item) items accs) :
    groupValues key (items.map (planOf table select)) accs = items.mapM fold := by
  induction h with
  | nil => rfl
  | @cons item acc items accs hitem hrest ih =>
    rw [List.mapM_cons, List.map_cons]
    unfold groupValues
    rw [hitem, ih]
    cases fold item with
    | error code => rfl
    | ok value => cases items.mapM fold <;> rfl

/-- HAVING drops rows of the answer. -/
theorem emitGroups_filter {having : Condition} {sub : Subqueries} {plans : List ItemPlan}
    {rowGroups : List (List Row)} {groups : List Group} {fold : List Row → Except ErrorCode Row}
    (h : List.Forall₂ (fun rows group => groupValues group.key plans group.accs = fold rows)
      rowGroups groups) :
    emitGroups having sub plans groups =
      (rowGroups.mapM fold).map (List.filter (havingKeeps having sub)) := by
  induction h with
  | nil => rfl
  | @cons rows group rowGroups groups hgroup hrest ih =>
    rw [List.mapM_cons]
    unfold emitGroups
    rw [hgroup, ih]
    cases fold rows with
    | error code => rfl
    | ok row =>
      cases rowGroups.mapM fold with
      | error code => rfl
      | ok answer =>
        simp only [Except.map, bind, Except.bind, pure, Except.pure, List.filter_cons]

/-- The groups of a filled table are the rows by their keys. -/
theorem Tabled.groups {exprs : ExprPool} {items : List SelectItem} {t : GroupTable}
    (h : Tabled exprs items groupSlots rows t) :
    List.Forall₂ (GroupOf exprs items groupSlots) (groupsBy (rowKey groupSlots) rows)
      t.groups := by
  rw [List.forall₂_iff_get]
  refine ⟨by simp [groupsBy, h.length], fun g hg hg' => ?_⟩
  have hk : g < (keysOf (rowKey groupSlots) rows).length := by
    rw [← h.length]
    exact hg'
  simp only [groupsBy, List.get_eq_getElem, List.getElem_map]
  exact h.group g _ _ (List.getElem?_eq_getElem hk) (List.getElem?_eq_getElem hg')

/-- The rows of a group are rows of the table. -/
theorem withKey_subset {k : RowKey} {row : Row}
    (h : row ∈ withKey (rowKey groupSlots) k rows) : row ∈ rows :=
  (List.mem_filter.mp h).1

/-- A table with nothing in it. -/
theorem tabled_nil (memory : GroupMemory) (exprs : ExprPool) (items : List SelectItem)
    (groupSlots : List Nat) :
    Tabled exprs items groupSlots []
      { groups := [], buckets := List.replicate memory.bucketCount 0 } where
  discrete row hrow := absurd hrow (by simp)
  probed := by
    rcases memory.size with hzero | hpow
    · exact .inl ⟨by simp [hzero], rfl⟩
    · refine .inr ⟨probed_empty hpow _, ?_⟩
      obtain ⟨e, he⟩ := hpow
      simp only [List.count_replicate_self, he]
      exact Nat.two_pow_pos e
  length := by simp [keysOf]
  group g k group hk := absurd hk (by simp [keysOf])

/-! ### Without reading -/

/-- A largest number is negative exactly if the start and every number are. -/
theorem foldl_max_neg {α : Type} (f : α → Int) (xs : List α) (start : Int) :
    xs.foldl (fun deepest x => max deepest (f x)) start < 0 ↔
      start < 0 ∧ ∀ x ∈ xs, f x < 0 := by
  induction xs generalizing start with
  | nil => simp
  | cons head rest ih =>
    rw [List.foldl_cons, ih, Int.max_lt]
    simp [and_assoc]

/-- Nothing is read without a GROUP BY and a column in any item. -/
theorem deepestRead_neg {exprs : ExprPool} {items : List SelectItem} :
    deepestRead groupSlots exprs items < 0 ↔
      groupSlots = [] ∧ ∀ item ∈ items, exprDeepest exprs item.expr < 0 := by
  unfold deepestRead
  rw [foldl_max_neg (fun item : SelectItem => exprDeepest exprs item.expr),
    foldl_max_neg (fun slot : Nat => (slot : Int))]
  refine and_congr_left fun _ => ⟨fun ⟨_, hslots⟩ => ?_, fun hslots => ?_⟩
  · rw [List.eq_nil_iff_forall_not_mem]
    intro slot hs
    have := hslots slot hs
    omega
  · subst hslots
    exact ⟨by decide, fun slot hs => absurd hs (by simp)⟩

/-- An item that reads nothing gives one value on every row. -/
theorem itemResult_constant {exprs : ExprPool} (h : exprDeepest exprs item.expr < 0)
    (row row' : Row) : itemResult exprs row item = itemResult exprs row' item := by
  unfold itemResult
  rw [exprEvaluate_constant h row row']

/-- An item that reads no column has one value for every row. -/
theorem itemValues_constant {exprs : ExprPool} (h : exprDeepest exprs item.expr < 0) {value : Value}
    (hvalue : itemResult exprs [] item = .ok value) (rows : List Row) :
    itemValues exprs rows item = List.replicate rows.length value := by
  unfold itemValues
  rw [List.eq_replicate_iff]
  refine ⟨by simp, fun v hv => ?_⟩
  obtain ⟨row, -, rfl⟩ := List.mem_map.mp hv
  rw [itemResult_constant h row [], hvalue]
  rfl

/-- One value for every row is present in all or in none. -/
theorem present_replicate (n : Nat) (value : Value) :
    present (List.replicate n value) = if value.isNull then [] else List.replicate n value := by
  unfold present
  rw [List.filter_replicate]
  cases value.isNull <;> simp

/-- The exact total of one value repeated is a product. -/
theorem exactTotal_replicate (n : Nat) (value : Value) :
    exactTotal (List.replicate n value) = n * value.intValue.toInt := by
  simp [exactTotal]

/-- The extreme of one value many times is that value. -/
theorem extremeOf_replicate {n : Nat} (hn : 0 < n) (before : Ordering) (value : Value) :
    extremeOf before (List.replicate n value) = some value := by
  obtain ⟨n, rfl⟩ := Nat.exists_eq_add_of_lt hn
  rw [Nat.zero_add, List.replicate_succ]
  simp only [extremeOf, Option.some.injEq]
  have hfold : ∀ rest : List Value, (∀ v ∈ rest, v = value) →
      rest.foldl (fun extreme v => if compareValues v extreme = before then v else extreme) value =
        value := by
    intro rest
    induction rest with
    | nil => exact fun _ => rfl
    | cons v rest ih =>
      intro hall
      rw [List.foldl_cons, hall v (by simp), ite_self]
      exact ih fun w hw => hall w (by simp [hw])
  exact hfold _ fun v hv => List.eq_of_mem_replicate hv

/-- A count of rows an `int` holds is 0 for no rows only. -/
theorem ofNat_ne_zero {n : Nat} (hn : 0 < n) (hlt : n < 2 ^ 31) : Int32.ofNat n ≠ 0 := by
  intro h
  have hint := congrArg Int32.toInt h
  rw [Int32.toInt_ofNat_of_lt (by omega)] at hint
  have hzero : (0 : Int32).toInt = 0 := rfl
  omega

/-- A total in the range of an `int` is zero if its value is. -/
theorem ofInt_eq_zero {total : Int} (hlow : -2147483648 ≤ total) (hhigh : total ≤ 2147483647) :
    Int32.ofInt total = Int32.ofInt 0 ↔ total = 0 := by
  refine ⟨fun h => ?_, fun h => by rw [h]⟩
  have hint := congrArg Int32.toInt h
  rw [Int32.toInt_ofInt_of_le (by omega) (by omega)] at hint
  exact hint

/-- What the shortcut answers for a minimum or maximum. -/
theorem extreme_right {n : Nat} (hn : 0 < n) {value other : Value} {before : Ordering}
    {acc : Accumulator} :
    ((if (acc.set n true).seen = true then .ok (acc.set n true).extreme else .ok other) =
        (.ok ((extremeOf before
          (if value.isNull = true then [] else List.replicate n value)).getD other) :
          Except ErrorCode Value)) ↔
      acc.extreme = if value.isNull = true then other else value := by
  cases hnull : value.isNull with
  | true => simp [Accumulator.set, extremeOf]
  | false => simp [Accumulator.set, extremeOf_replicate hn]

/-- What the shortcut answers for an item is the fold over `n` rows if and only if the item has
its right answer from the number of rows. -/
theorem shortcut_iff (hagg : item.aggregate ≠ .AGG_NONE) {value : Value}
    (hvalue : itemResult select.exprs [] item = .ok value)
    (htype : value.isNull = false → value.type = itemType table select.exprs item) {n : Nat}
    (hn : 0 < n) (hlt : n < 2 ^ 31) (key : List Value) (acc : Accumulator) :
    groupValue (planOf table select item) key (acc.set n true) =
        foldItem item (itemType table select.exprs item) (List.replicate n value) ↔
      ConstantRight table select.exprs n acc item := by
  have hplan : (planOf table select item).item = item := rfl
  have hplanType : (planOf table select item).type = itemType table select.exprs item := rfl
  cases hstar : item.star with
  | true =>
    refine ⟨fun _ => .inl hstar, fun _ => ?_⟩
    simp [groupValue, foldItem, hplan, (item.starred hstar).1, hstar, Accumulator.set, countValue]
  | false =>
    rw [itemResult, hstar, if_neg (by simp)] at hvalue
    have hright : ∀ P : Value → Prop,
        (item.star = true ∨ ∃ value, exprEvaluate select.exprs item.expr [] = .ok value ∧ P value) ↔
          P value := by
      intro P
      rw [hvalue, hstar]
      simp
    unfold groupValue foldItem ConstantRight
    rw [hright, hplan, hplanType, present_replicate]
    have hne : List.replicate n value ≠ [] := by
      rw [Ne, List.replicate_eq_nil_iff]
      omega
    cases hkind : item.aggregate with
    | AGG_NONE => exact absurd hkind hagg
    | AGG_COUNT =>
      cases hnull : value.isNull with
      | true =>
        simpa [hstar, Accumulator.set, countValue, Value.mk.injEq, zeroValue] using
          ofNat_ne_zero hn hlt
      | false => simp [hstar, Accumulator.set, countValue]
    | AGG_SUM =>
      cases hnull : value.isNull with
      | true =>
        simp only [Accumulator.set, Bool.not_true, Bool.false_eq_true, if_false, if_true]
        split <;> simp [setFloat, setNull, zeroValue]
      | false =>
        simp only [Accumulator.set, Bool.not_true, Bool.false_eq_true, if_false, hne, true_and]
        rw [htype hnull]
        by_cases hfloat : itemType table select.exprs item = .TYPE_FLOAT
        · simp only [hfloat, if_true, setFloat, Except.ok.injEq, Value.mk.injEq, true_and, and_true]
          exact eq_comm
        · simp only [hfloat, if_false]
          rw [exactTotal_replicate]
          have hzero : (n : Int) * value.intValue.toInt = 0 ↔ value.intValue = 0 := by
            rw [Int.mul_eq_zero, ← Int32.toInt_inj]
            have : (0 : Int32).toInt = 0 := rfl
            omega
          change (.ok { zeroValue with intValue := Int32.ofInt 0 } : Except ErrorCode Value) = _ ↔ _
          split
          · rename_i hout
            refine ⟨fun h => absurd h (by simp), fun h => ?_⟩
            rw [hzero.mpr h] at hout
            omega
          · rename_i hin
            simp only [Except.ok.injEq, Value.mk.injEq, zeroValue, true_and, and_true]
            rw [eq_comm, ofInt_eq_zero (by omega) (by omega), hzero]
    | AGG_AVG =>
      cases hnull : value.isNull with
      | true =>
        have hpos : (n == 0) = false := by simpa using Nat.ne_of_gt hn
        simp [Accumulator.set, hpos, setFloat, setNull]
      | false =>
        have hpos : (n == 0) = false := by simpa using Nat.ne_of_gt hn
        simp only [Accumulator.set, hpos, Bool.not_true, Bool.or_false, Bool.false_eq_true,
          if_false, hne, List.length_replicate, true_and, setFloat, Except.ok.injEq,
          Value.mk.injEq, and_true]
        exact eq_comm
    | AGG_MIN => exact extreme_right hn
    | AGG_MAX => exact extreme_right hn

/-- The shortcut always has an answer. -/
theorem shortcut_ok (hagg : item.aggregate ≠ .AGG_NONE) (n : Nat) (key : List Value)
    (acc : Accumulator) :
    ∃ value, groupValue (planOf table select item) key (acc.set n true) = .ok value := by
  have hplan : (planOf table select item).item = item := rfl
  unfold groupValue
  rw [hplan]
  cases hkind : item.aggregate with
  | AGG_NONE => exact absurd hkind hagg
  | AGG_COUNT => exact ⟨_, rfl⟩
  | AGG_SUM =>
    simp only [show (acc.set n true).seen = true from rfl, Bool.not_true, Bool.false_eq_true,
      if_false]
    split
    · exact ⟨_, rfl⟩
    · exact ⟨{ zeroValue with intValue := Int32.ofInt 0 }, rfl⟩
  | AGG_AVG =>
    dsimp only
    split <;> exact ⟨_, rfl⟩
  | AGG_MIN => exact ⟨_, rfl⟩
  | AGG_MAX => exact ⟨_, rfl⟩

/-- A group's row is made if each of its values is. -/
theorem groupValues_ok {items : List SelectItem} {key : List Value} {accs : List Accumulator}
    (h : List.Forall₂ (fun item acc =>
      ∃ value, groupValue (planOf table select item) key acc = .ok value) items accs) :
    ∃ values, groupValues key (items.map (planOf table select)) accs = .ok values := by
  induction h with
  | nil => exact ⟨[], rfl⟩
  | cons hitem _ ih =>
    obtain ⟨value, hvalue⟩ := hitem
    obtain ⟨values, hvalues⟩ := ih
    refine ⟨value :: values, ?_⟩
    rw [List.map_cons]
    unfold groupValues
    simp only [hvalue, hvalues]

/-- Each value of a group's row is that of its item. -/
theorem groupValues_get {items : List SelectItem} {key : List Value} {accs : List Accumulator}
    {values : Row} (h : groupValues key (items.map (planOf table select)) accs = .ok values)
    (hlength : accs.length = items.length) :
    values.length = items.length ∧ ∀ (c : Nat) (item : SelectItem) (acc : Accumulator),
      items[c]? = some item → accs[c]? = some acc → ∃ value, values[c]? = some value ∧
        groupValue (planOf table select item) key acc = .ok value := by
  induction items generalizing accs values with
  | nil =>
    obtain rfl := List.length_eq_zero_iff.mp hlength
    obtain rfl := Except.ok.inj h
    exact ⟨rfl, fun c item acc hc => absurd hc (by simp)⟩
  | cons item rest ih =>
    cases accs with
    | nil => exact absurd hlength (by simp)
    | cons acc accs =>
      rw [List.map_cons] at h
      unfold groupValues at h
      split at h
      · exact absurd h (by simp)
      · rename_i value hvalue
        split at h
        · exact absurd h (by simp)
        · rename_i values' hvalues
          obtain rfl := Except.ok.inj h
          obtain ⟨hlen, hrest⟩ := ih hvalues (by simpa using hlength)
          refine ⟨by simp [hlen], fun c other acc' hc hacc => ?_⟩
          cases c with
          | zero =>
            obtain rfl := Option.some.inj hc
            obtain rfl := Option.some.inj hacc
            exact ⟨value, rfl, hvalue⟩
          | succ c => exact hrest c other acc' hc hacc

/-! ### The answer -/

/-- The groups that are collected. -/
theorem projectGroups_eq (hready : Ready table select groupSlots) (memory : GroupMemory)
    (sub : Subqueries) (rows : List Row) :
    ∃ bound, Settles table (fun _ => False) select.exprs bound ∧
      (projectGroups memory sub table select rows).map ResultSet.rows =
        match collectGroups memory select.items bound groupSlots rows with
        | .error code => .error code
        | .ok groups =>
          match boundHaving (select.items.map (itemHeader table select.exprs)) select.having with
          | .error code => .error code
          | .ok having =>
            emitGroups having sub (select.items.map (planOf table select)) groups := by
  obtain ⟨bound, hplans, hsettles⟩ := planItems_ready (.refl table _ select.exprs) hready.items
  have hheader : ∀ item, itemHeader table bound item = itemHeader table select.exprs item := by
    intro item
    obtain ⟨hcol, hname⟩ := exprIsColumn_eq hsettles item.expr
    unfold itemHeader
    rw [hcol, hname]
  have hheaders : select.items.map (itemHeader table bound) =
      select.items.map (itemHeader table select.exprs) :=
    List.map_congr_left fun item _ => hheader item
  refine ⟨bound, hsettles, ?_⟩
  unfold projectGroups
  simp only [hready.slots, hplans, hheaders]
  cases collectGroups memory select.items bound groupSlots rows with
  | error code => rfl
  | ok groups =>
    simp only
    cases boundHaving (select.items.map (itemHeader table select.exprs)) select.having with
    | error code => rfl
    | ok having =>
      simp only
      cases emitGroups having sub (select.items.map (planOf table select)) groups <;> rfl

/-- The reference answer, step by step. -/
theorem foldRows_eq (hready : Ready table select groupSlots) (sub : Subqueries) (rows : List Row) :
    foldRows sub table select rows =
      match rows.mapM fun row => select.items.mapM (itemResult select.exprs row) with
      | .error code => .error code
      | .ok _ =>
        match boundHaving (select.items.map (itemHeader table select.exprs)) select.having with
        | .error code => .error code
        | .ok having =>
          ((groupsOf groupSlots rows).mapM (foldGroup table select.exprs select.items)).map
            (List.filter (havingKeeps having sub)) := by
  unfold foldRows
  simp only [hready.slots, bind, Except.bind]
  cases rows.mapM fun row => select.items.mapM (itemResult select.exprs row) with
  | error code => rfl
  | ok _ =>
    simp only
    cases boundHaving (select.items.map (itemHeader table select.exprs)) select.having with
    | error code => rfl
    | ok having =>
      simp only
      cases (groupsOf groupSlots rows).mapM (foldGroup table select.exprs select.items) <;> rfl

/-- What a row of the table is. -/
structure RowIn (table : CatalogNode) (row : Row) : Prop where
  length : row.length = table.cols.length
  typed : RowOf table row

/-- Statements that read their rows answer the reference folds. -/
theorem projectGroups_reads (hready : Ready table select groupSlots) (memory : GroupMemory)
    (sub : Subqueries) (hcols : ∀ column ∈ table.cols, column.type ≠ .TYPE_FLOAT)
    (hrows : ∀ row ∈ rows, RowIn table row)
    (hreads : ¬(ReadsNothing select ∧ rows ≠ [])) :
    (projectGroups memory sub table select rows).map ResultSet.rows =
      foldRows sub table select rows := by
  obtain ⟨bound, hsettles, heq⟩ := projectGroups_eq hready memory sub rows
  have hdeep : ∀ item ∈ select.items, exprDeepest bound item.expr = exprDeepest select.exprs item.expr :=
    fun item hi => (hready.items item hi).deepest hsettles
  have hresults : (rows.mapM fun row => select.items.mapM (itemResult bound row)) =
      rows.mapM fun row => select.items.mapM (itemResult select.exprs row) :=
    mapM_congr fun row _ => mapM_congr fun item hi => (hready.items item hi).result hsettles row
  have hvalues : ∀ item ∈ select.items, ∀ rows,
      itemValues bound rows item = itemValues select.exprs rows item := fun item hi rows =>
    List.map_congr_left fun row _ => by rw [(hready.items item hi).result hsettles row]
  -- the rows are read, if there are any
  have hnot : ¬(deepestRead groupSlots bound select.items < 0 ∧ 0 < rows.length) := by
    rintro ⟨hneg, hlen⟩
    obtain ⟨hslots, hitems⟩ := deepestRead_neg.mp hneg
    refine hreads ⟨⟨?_, fun item hi => by rw [← hdeep item hi]; exact hitems item hi⟩,
      List.ne_nil_of_length_pos hlen⟩
    rw [← List.length_eq_zero_iff, ← (groupBySlots_get hready.slots).1, hslots]
    rfl
  have hslots := groupBySlots_lt hready.slots
  have hdiscrete : ∀ row ∈ rows, DiscreteAt groupSlots row := by
    intro row hrow slot hs
    refine ((hrows row hrow).typed slot (hslots slot hs)).imp id fun htype => ?_
    rw [htype, CatalogNode.columnType, List.getElem?_eq_getElem (hslots slot hs)]
    exact hcols _ (List.getElem_mem _)
  have hlong : ∀ row ∈ rows, LongEnough bound select.items groupSlots row := fun row hrow =>
    ⟨fun slot hs => by rw [(hrows row hrow).length]; exact hslots slot hs, fun item hi => by
      rw [(hrows row hrow).length, hdeep item hi]
      exact (hready.items item hi).deepest_lt⟩
  have hloop := @groupRows_tabled _ _ _ _ _ memory _ []
    (tabled_nil memory bound select.items groupSlots) hdiscrete hlong
  rw [heq, foldRows_eq hready]
  unfold collectGroups
  simp only [if_neg hnot]
  rw [hresults] at hloop
  cases hcomputed : rows.mapM fun row => select.items.mapM (itemResult select.exprs row) with
  | error code =>
    rw [hcomputed] at hloop
    simp only [hloop]
  | ok computed =>
    rw [hcomputed] at hloop
    obtain ⟨t, ht, htabled⟩ := hloop
    rw [List.nil_append] at htabled
    have hitemsOk : ∀ row ∈ rows, ∀ item ∈ select.items,
        ∃ value, itemResult select.exprs row item = .ok value := by
      intro row hrow item hi
      obtain ⟨values, hrowOk⟩ := mapM_mem hcomputed hrow
      exact mapM_mem hrowOk hi
    simp only [ht]
    -- the groups of the table are those of the reference
    have hgroups : ∃ groups,
        (if t.groups = [] ∧ groupSlots = [] then
            (.ok [{ hash := 0, key := [], accs := memory.accumulators 0 0 false select.items }] :
              Except ErrorCode (List Group))
          else .ok t.groups) = .ok groups ∧
        List.Forall₂ (fun rows group =>
          groupValues group.key (select.items.map (planOf table select)) group.accs =
            foldGroup table select.exprs select.items rows) (groupsOf groupSlots rows) groups := by
      by_cases hempty : t.groups = [] ∧ groupSlots = []
      · refine ⟨_, if_pos hempty, ?_⟩
        have hnone : rows = [] := by
          have hkeys := htabled.length
          rw [hempty.1] at hkeys
          have hno := List.length_eq_zero_iff.mp hkeys.symm
          rw [List.eq_nil_iff_forall_not_mem]
          intro row hrow
          have hmem : rowKey groupSlots row ∈ keysOf (rowKey groupSlots) rows :=
            mem_keysOf.mpr ⟨row, hrow, rfl⟩
          rw [hno] at hmem
          exact absurd hmem (by simp)
        rw [groupsOf, if_pos hempty.2, hnone]
        refine .cons (groupValues_mapM ?_) .nil
        have hfresh := (List.forall₂_and_left _ _).mpr ⟨fun item hi => hi,
          fresh_accs memory select.exprs select.items 0⟩
        refine hfresh.imp fun item acc ⟨hi, hacc⟩ => ?_
        refine groupValue_fold hready hi (fun row hrow => absurd hrow (by simp))
          (fun row hrow => absurd hrow (by simp)) (fun hkey => ?_) hacc
        exact absurd hkey (hready.aggregated hempty.2 hi)
      · refine ⟨_, if_neg hempty, ?_⟩
        have hsame : groupsOf groupSlots rows = groupsBy (rowKey groupSlots) rows := by
          unfold groupsOf
          split
          · rename_i hno
            have hsome : rows ≠ [] := by
              rintro rfl
              refine hempty ⟨List.length_eq_zero_iff.mp ?_, hno⟩
              rw [htabled.length]
              rfl
            exact (groupsBy_const (k := []) hsome fun row _ => by rw [hno]; rfl).symm
          · rfl
        rw [hsame]
        have hsub : ∀ group ∈ groupsBy (rowKey groupSlots) rows, ∀ row ∈ group, row ∈ rows := by
          intro group hgroup row hrow
          obtain ⟨k, -, rfl⟩ := List.mem_map.mp hgroup
          exact withKey_subset hrow
        refine ((List.forall₂_and_left _ _).mpr ⟨hsub, htabled.groups⟩).imp
          fun groupRows group ⟨hin, hgroup⟩ => groupValues_mapM ?_
        obtain ⟨first, rest, hfirst, hkey, -⟩ := hgroup.first
        refine ((List.forall₂_and_left _ _).mpr ⟨fun item hi => hi, hgroup.accs⟩).imp
          fun item acc ⟨hi, hacc⟩ => ?_
        refine groupValue_fold hready hi (fun row hrow => (hrows row (hin row hrow)).typed)
          (fun row hrow => hitemsOk row (hin row hrow) item hi)
          (fun _ => ⟨first, rest, hfirst, hkey⟩) fun hagg => ?_
        rw [← hvalues item hi]
        exact hacc hagg
    obtain ⟨groups, hcollected, hall⟩ := hgroups
    rw [hcollected]
    simp only [emitGroups_filter hall]

/-- The accumulators of the shortcut, item by item. -/
theorem accumulators_get (memory : GroupMemory) (n : Nat) (items : List SelectItem) {c : Nat}
    {item : SelectItem} (hc : items[c]? = some item) :
    (memory.accumulators 0 n true items)[c]? = some ((memory.accumulatorAt 0 c).set n true) := by
  have hlt := (List.getElem?_eq_some_iff.mp hc).1
  simp [GroupMemory.accumulators, hlt]

/-- What a statement that reads nothing answers: one group, from the number of its rows. -/
theorem projectGroups_constant (hready : Ready table select groupSlots) (memory : GroupMemory)
    (sub : Subqueries) (hreads : ReadsNothing select) (hne : rows ≠ []) :
    groupSlots = [] ∧
      (projectGroups memory sub table select rows).map ResultSet.rows =
        match boundHaving (select.items.map (itemHeader table select.exprs)) select.having with
        | .error code => .error code
        | .ok having =>
          (groupValues [] (select.items.map (planOf table select))
              (memory.accumulators 0 rows.length true select.items)).map
            fun row => [row].filter (havingKeeps having sub) := by
  obtain ⟨bound, hsettles, heq⟩ := projectGroups_eq hready memory sub rows
  have hslots : groupSlots = [] := by
    rw [← List.length_eq_zero_iff, (groupBySlots_get hready.slots).1, hreads.1]
    rfl
  have hneg : deepestRead groupSlots bound select.items < 0 ∧ 0 < rows.length :=
    ⟨deepestRead_neg.mpr ⟨hslots, fun item hi => by
      rw [(hready.items item hi).deepest hsettles]
      exact hreads.2 item hi⟩, List.length_pos_iff.mpr hne⟩
  refine ⟨hslots, ?_⟩
  rw [heq]
  unfold collectGroups
  simp only [if_pos hneg]
  cases boundHaving (select.items.map (itemHeader table select.exprs)) select.having with
  | error code => rfl
  | ok having =>
    simp only [emitGroups]
    cases groupValues [] (select.items.map (planOf table select))
      (memory.accumulators 0 rows.length true select.items) with
    | error code => rfl
    | ok row =>
      simp only [Except.map, List.filter_cons, List.filter_nil]

/-- The items of a statement that reads nothing, over its rows. -/
theorem foldGroup_constant (hreads : ReadsNothing select) {values : SelectItem → Value}
    (hvalues : ∀ item ∈ select.items, itemResult select.exprs [] item = .ok (values item)) :
    foldGroup table select.exprs select.items rows =
      select.items.mapM fun item => foldItem item (itemType table select.exprs item)
        (List.replicate rows.length (values item)) :=
  mapM_congr fun item hi => by
    rw [itemValues_constant (hreads.2 item hi) (hvalues item hi)]

/-- If the items can be computed without a row, they can for every row. -/
theorem computed_constant (hreads : ReadsNothing select) {values : SelectItem → Value}
    (hvalues : ∀ item ∈ select.items, itemResult select.exprs [] item = .ok (values item)) :
    ∃ computed, (rows.mapM fun row => select.items.mapM (itemResult select.exprs row)) =
      .ok computed :=
  mapM_isOk fun row _ => mapM_isOk fun item hi => ⟨values item, by
    rw [itemResult_constant (hreads.2 item hi) row [], hvalues item hi]⟩

/-- A constant that can be computed has the type of its item. -/
theorem constant_type (hready : Ready table select groupSlots) (hreads : ReadsNothing select)
    (hrows : ∀ row ∈ rows, RowIn table row) (hne : rows ≠ []) (hi : item ∈ select.items)
    {value : Value} (hvalue : itemResult select.exprs [] item = .ok value)
    (hnull : value.isNull = false) : value.type = itemType table select.exprs item := by
  obtain ⟨row, hrow⟩ := List.exists_mem_of_ne_nil rows hne
  refine (hready.items item hi).value_type (hrows row hrow).typed ?_ hnull
  rw [itemResult_constant (hreads.2 item hi) row [], hvalue]

/-- A statement that reads nothing answers the reference folds where each of its items has its
right answer from the number of the rows. -/
theorem projectGroups_right (hready : Ready table select groupSlots) (memory : GroupMemory)
    (sub : Subqueries) (hrows : ∀ row ∈ rows, RowIn table row) (hcount : rows.length < 2 ^ 31)
    (hreads : ReadsNothing select) (hne : rows ≠ [])
    (hright : ∀ (c : Nat) (item : SelectItem), select.items[c]? = some item →
      ConstantRight table select.exprs rows.length (memory.accumulatorAt 0 c) item) :
    (projectGroups memory sub table select rows).map ResultSet.rows =
      foldRows sub table select rows := by
  obtain ⟨hslots, heq⟩ := projectGroups_constant hready memory sub hreads hne
  have hvalue : ∀ item ∈ select.items, ∃ value, itemResult select.exprs [] item = .ok value := by
    intro item hi
    obtain ⟨c, hc, hget⟩ := List.getElem_of_mem hi
    rcases hright c item (by rw [List.getElem?_eq_getElem hc, hget]) with hstar | ⟨value, hvalue, -⟩
    · exact ⟨zeroValue, by rw [itemResult, hstar, if_pos rfl]⟩
    · cases hstar : item.star with
      | true => exact ⟨zeroValue, by rw [itemResult, hstar, if_pos rfl]⟩
      | false => exact ⟨value, by rw [itemResult, hstar, if_neg (by simp), hvalue]⟩
  let values := fun item => (itemResult select.exprs [] item).toOption.getD zeroValue
  have hvalues : ∀ item ∈ select.items, itemResult select.exprs [] item = .ok (values item) := by
    intro item hi
    obtain ⟨value, h⟩ := hvalue item hi
    simp only [values, h]
    rfl
  obtain ⟨computed, hcomputed⟩ := computed_constant hreads hvalues
  rw [heq, foldRows_eq hready, hcomputed]
  simp only [groupsOf, if_pos hslots]
  cases boundHaving (select.items.map (itemHeader table select.exprs)) select.having with
  | error code => rfl
  | ok having =>
    have hgroup : groupValues [] (select.items.map (planOf table select))
        (memory.accumulators 0 rows.length true select.items) =
          foldGroup table select.exprs select.items rows := by
      rw [foldGroup_constant hreads hvalues]
      refine groupValues_mapM ?_
      rw [List.forall₂_iff_get]
      refine ⟨by simp [GroupMemory.accumulators], fun c hc hc' => ?_⟩
      have hget : select.items[c]? = some (select.items.get ⟨c, hc⟩) := by simp
      have hacc := accumulators_get memory rows.length select.items hget
      rw [List.getElem?_eq_getElem hc'] at hacc
      rw [show (memory.accumulators 0 rows.length true select.items).get ⟨c, hc'⟩ = _ from
        Option.some.inj hacc]
      have hi : select.items.get ⟨c, hc⟩ ∈ select.items := List.get_mem ..
      exact (shortcut_iff (hready.aggregated hslots hi) (hvalues _ hi)
        (constant_type hready hreads hrows hne hi (hvalues _ hi)) (List.length_pos_iff.mpr hne)
        hcount [] _).mpr (hright c _ hget)
    rw [hgroup]
    simp only [List.mapM_cons, List.mapM_nil]
    cases foldGroup table select.exprs select.items rows <;> rfl

/-- Only there: without a HAVING the answer shows each item. -/
theorem projectGroups_right_only (hready : Ready table select groupSlots) (memory : GroupMemory)
    (sub : Subqueries) (hrows : ∀ row ∈ rows, RowIn table row) (hcount : rows.length < 2 ^ 31)
    (hreads : ReadsNothing select) (hne : rows ≠ []) (hhaving : select.having.present = false)
    (h : (projectGroups memory sub table select rows).map ResultSet.rows =
      foldRows sub table select rows) :
    ∀ (c : Nat) (item : SelectItem), select.items[c]? = some item →
      ConstantRight table select.exprs rows.length (memory.accumulatorAt 0 c) item := by
  obtain ⟨hslots, heq⟩ := projectGroups_constant hready memory sub hreads hne
  have hbound : boundHaving (select.items.map (itemHeader table select.exprs)) select.having =
      .ok select.having := by
    unfold boundHaving
    rw [hhaving, if_neg (by simp)]
  have hkeeps : ∀ row, havingKeeps select.having sub row = true := fun row => by
    unfold havingKeeps
    rw [hhaving]
    rfl
  -- the shortcut has an answer, so the reference has the same
  have hlength : (memory.accumulators 0 rows.length true select.items).length =
      select.items.length := by simp [GroupMemory.accumulators]
  obtain ⟨row, hrow⟩ : ∃ row, groupValues [] (select.items.map (planOf table select))
      (memory.accumulators 0 rows.length true select.items) = .ok row := by
    refine groupValues_ok (List.forall₂_iff_get.mpr ⟨hlength.symm, fun c hc hc' => ?_⟩)
    have hi : select.items.get ⟨c, hc⟩ ∈ select.items := List.get_mem ..
    simp only [GroupMemory.accumulators, List.get_eq_getElem, List.getElem_map]
    exact shortcut_ok (hready.aggregated hslots hi) _ _ _
  rw [heq, foldRows_eq hready, hbound] at h
  simp only [hrow, groupsOf, if_pos hslots, List.mapM_cons, List.mapM_nil] at h
  cases hcomputed : rows.mapM fun row => select.items.mapM (itemResult select.exprs row) with
  | error code => simp [hcomputed, Except.map] at h
  | ok computed =>
    simp only [hcomputed] at h
    cases hfold : foldGroup table select.exprs select.items rows with
    | error code => simp [hfold, Except.map, bind, Except.bind] at h
    | ok row' =>
      simp only [hfold, Except.map, bind, Except.bind, pure, Except.pure, List.filter_cons,
        hkeeps, if_true, List.filter_nil, Except.ok.injEq, List.cons.injEq, and_true] at h
      subst h
      intro c item hc
      have hi : item ∈ select.items := List.mem_of_getElem? hc
      obtain ⟨first, hfirst⟩ := List.exists_mem_of_ne_nil rows hne
      obtain ⟨_, hcomputedRow⟩ := mapM_mem hcomputed hfirst
      obtain ⟨value, hvalue⟩ := mapM_mem hcomputedRow hi
      rw [itemResult_constant (hreads.2 item hi) first []] at hvalue
      obtain ⟨v, hv, hcode⟩ := (groupValues_get hrow hlength).2 c item _ hc
        (accumulators_get memory rows.length select.items hc)
      refine (shortcut_iff (hready.aggregated hslots hi) hvalue
        (constant_type hready hreads hrows hne hi hvalue) (List.length_pos_iff.mpr hne)
        hcount [] _).mp ?_
      rw [hcode, ← itemValues_constant (hreads.2 item hi) hvalue]
      have hall := List.forall₂_iff_get.mp (mapM_ok.mp hfold)
      obtain ⟨hlt, hget⟩ := List.getElem?_eq_some_iff.mp hc
      obtain ⟨hlt', hget'⟩ := List.getElem?_eq_some_iff.mp hv
      have hreference := hall.2 c hlt hlt'
      rw [List.get_eq_getElem, List.get_eq_getElem, hget, hget'] at hreference
      exact hreference.symm

end

/-- Whatever HAVING follows, a SELECT with aggregates that was accepted answers one row for each
key with the reference folds, if and only if it reads its rows, or has none, or each of its items
has its right answer from their number. A minimum or maximum among the folds is an extreme. -/
theorem projectGroups_folds_iff (memory : GroupMemory) (sub : Subqueries)
    (subqueries : List Subquery) (table : CatalogNode) (select checked : SelectList)
    (rows : List Row) (hcheck : checkSelect subqueries table select = .ok checked)
    (hall : select.selectAll = false)
    (hgrouped : select.groupBy ≠ [] ∨ select.hasAggregate = true)
    (hcols : ∀ column ∈ table.cols, column.type ≠ .TYPE_FLOAT)
    (hrows : ∀ row ∈ rows, RowIn table row) (hcount : rows.length < 2 ^ 31) :
    ((∀ having, (projectGroups memory sub table { checked with having := having } rows).map
          ResultSet.rows = foldRows sub table { checked with having := having } rows) ↔
      (ReadsNothing checked → rows ≠ [] → ∀ (c : Nat) (item : SelectItem),
        checked.items[c]? = some item →
          ConstantRight table checked.exprs rows.length (memory.accumulatorAt 0 c) item)) ∧
    ∀ item ∈ checked.items,
      (∀ row ∈ rows, ∃ value, itemResult checked.exprs row item = .ok value) →
      ∀ group : List Row, (∀ row ∈ group, row ∈ rows) → ∀ side, side ≠ .eq → ∀ extreme,
        extremeOf side (present (itemValues checked.exprs group item)) = some extreme →
          ExtremeOf side (present (itemValues checked.exprs group item)) extreme := by
  obtain ⟨-, -, groupSlots, hready⟩ := checkSelect_ready hall hgrouped hcheck
  have hreadyWith : ∀ having, Ready table { checked with having := having } groupSlots :=
    fun having => ⟨hready.slots, fun item hi =>
      ⟨(hready.items item hi).typed, (hready.items item hi).stamped, (hready.items item hi).grouped⟩⟩
  refine ⟨⟨fun h hreads hne => ?_, fun h having => ?_⟩, ?_⟩
  · exact projectGroups_right_only (hreadyWith noCondition) memory sub hrows hcount hreads hne rfl
      (h noCondition)
  · by_cases hreads : ReadsNothing checked ∧ rows ≠ []
    · exact projectGroups_right (hreadyWith having) memory sub hrows hcount hreads.1 hreads.2
        (h hreads.1 hreads.2)
    · exact projectGroups_reads (hreadyWith having) memory sub hcols hrows hreads
  · intro item hi hcomputed group hgroup side hside extreme hextreme
    exact extremeOf_extreme hside (fun value hvalue => (hready.items item hi).present_type
      (fun row hrow => (hrows row (hgroup row hrow)).typed)
      (fun row hrow => hcomputed row (hgroup row hrow)) hvalue) hextreme

/-! ### A total of constants -/

/-- A table `t` with an int `a`, and two rows of it. -/
def numberTable : CatalogNode :=
  { table := Name.ofBytes [116], cols := [plainColumn [97] .TYPE_INT], check := none }

/-- The rows 5 and 7. -/
def numberRows : List Row :=
  [[{ zeroValue with intValue := 5 }], [{ zeroValue with intValue := 7 }]]

/-- An aggregate over the one expression of a statement. -/
def aggregateItem (aggregate : AggregateType) : SelectItem :=
  { aggregate, expr := 0, star := false, label := Name.ofBytes [], aliased := false,
    starred := fun h => absurd h (by decide) }

/-- `SELECT <aggregate>(<expression>) FROM t`. -/
def selectOne (aggregate : AggregateType) (operand : ExprNode) : SelectList :=
  { items := [aggregateItem aggregate], exprs := [operand], selectAll := false, onRoots := [],
    wher := noCondition, having := noCondition, groupBy := [] }

/-- The statement as its check leaves it. -/
def acceptedSelect (select : SelectList) : SelectList :=
  (checkSelect [] numberTable select).toOption.getD select

/-- A literal as an expression. -/
def literalNode (value : Value) : ExprNode :=
  { columnOperand [] with kind := .EXPR_LITERAL, literal := value }

/-- `SELECT sum(5) FROM t`. -/
def sumFive : SelectList :=
  acceptedSelect (selectOne .AGG_SUM (literalNode { zeroValue with intValue := 5 }))

/-- `SELECT count(NULL) FROM t`. -/
def countNull : SelectList :=
  acceptedSelect (selectOne .AGG_COUNT (literalNode (setNull .TYPE_INT)))

/-- No buckets at all is one of the sizes there are. -/
theorem noTable_size : (0 : Nat) = 0 ∨ ∃ e, (0 : Nat) = 2 ^ e :=
  .inl rfl

/-- A thread that has not grouped anything. -/
def freshMemory : GroupMemory :=
  { bucketCount := 0
    accumulatorAt := fun _ _ => { count := 0, sum := 0, real := 0, extreme := zeroValue, seen := false }
    size := noTable_size }

/-- The rows of the example are of its table's types. -/
theorem numberRows_in : ∀ row ∈ numberRows, RowIn numberTable row := by
  intro row hrow
  refine ⟨by revert row; decide, fun slot hslot => .inr ?_⟩
  obtain rfl : slot = 0 := Nat.lt_one_iff.mp hslot
  revert row
  decide

/-- Summing up a column agrees with the reference. -/
theorem projectGroups_folds_column :
    (projectGroups freshMemory (fun _ => []) numberTable
        (acceptedSelect (selectOne .AGG_SUM (columnOperand [97]))) numberRows).map ResultSet.rows =
      foldRows (fun _ => []) numberTable (acceptedSelect (selectOne .AGG_SUM (columnOperand [97])))
        numberRows :=
  ((projectGroups_folds_iff freshMemory (fun _ => []) [] numberTable
    (selectOne .AGG_SUM (columnOperand [97])) _ numberRows rfl rfl (.inr rfl) (by decide)
    numberRows_in (by decide)).1.mpr fun hreads =>
      absurd (hreads.2 (aggregateItem .AGG_SUM) (List.mem_singleton_self _)) (by decide))
    (acceptedSelect (selectOne .AGG_SUM (columnOperand [97]))).having

/-- Over two rows `sum(5)` answers 0 and not 10, and `count(NULL)` answers 2 and not 0. -/
theorem constants_are_not_added :
    checkSelect [] numberTable sumFive = .ok sumFive ∧
      (projectGroups freshMemory (fun _ => []) numberTable sumFive numberRows).map ResultSet.rows =
        .ok [[countValue 0]] ∧
      foldRows (fun _ => []) numberTable sumFive numberRows = .ok [[countValue 10]] ∧
      checkSelect [] numberTable countNull = .ok countNull ∧
      (projectGroups freshMemory (fun _ => []) numberTable countNull numberRows).map
        ResultSet.rows = .ok [[countValue 2]] ∧
      foldRows (fun _ => []) numberTable countNull numberRows = .ok [[countValue 0]] ∧
      countValue 0 ≠ countValue 10 ∧ countValue 2 ≠ countValue 0 :=
  ⟨rfl, rfl, rfl, rfl, rfl, rfl, by decide, by decide⟩

end DatabaseEngine
