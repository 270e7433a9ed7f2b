import DatabaseEngine.Proofs.Semantic.Agreement
import DatabaseEngine.Spec.Aggregate

/-!
# `DatabaseEngine.Proofs.Select.Reading`: what a select list reads, and how it is bound

* `exprEvaluate_agree`: an expression reads no further than its deepest column.
* `decodeInto_value`: a record that was read that far has the values it needs.
* `Ready`: a select list whose check accepted it; `checkSelect_ready`.
* `planItems_ready`: binding it once more succeeds and changes no value.
-/

set_option autoImplicit false

namespace DatabaseEngine

/-! ### How far an expression reads -/

/-- Rows that agree up to the deepest column give an expression one value. -/
theorem exprEvaluateFrom_agree {fuel : Nat} {pool : ExprPool} {i : Int32} {row row' : Row}
    (h : ∀ slot : Nat, (slot : Int) ≤ exprDeepestFrom fuel pool i →
      row.value slot = row'.value slot) :
    exprEvaluateFrom fuel pool i row = exprEvaluateFrom fuel pool i row' := by
  induction fuel generalizing i with
  | zero => rfl
  | succ fuel ih =>
    unfold exprDeepestFrom at h
    unfold exprEvaluateFrom
    cases hn : pool.node i with
    | none => rfl
    | some n =>
      simp only [hn] at h
      cases hkind : n.kind with
      | EXPR_COLUMN =>
        simp only [hkind] at h ⊢
        split
        · rfl
        · rename_i hslot
          rw [h n.slot.toNat (by omega)]
      | EXPR_LITERAL => simp only [hkind]
      | EXPR_NEGATE =>
        simp only [hkind] at h ⊢
        rw [ih h]
      | EXPR_BINARY =>
        simp only [hkind] at h ⊢
        rw [ih (i := n.left) fun slot hs => h slot (by omega),
          ih (i := n.right) fun slot hs => h slot (by omega)]

/-- An expression reads no column behind its deepest one. -/
theorem exprEvaluate_agree {pool : ExprPool} {i : Int32} {row row' : Row}
    (h : ∀ slot : Nat, (slot : Int) ≤ exprDeepest pool i → row.value slot = row'.value slot) :
    exprEvaluate pool i row = exprEvaluate pool i row' :=
  exprEvaluateFrom_agree h

/-- An expression that reads no column has the same value on every row. -/
theorem exprEvaluate_constant {pool : ExprPool} {i : Int32} (h : exprDeepest pool i < 0)
    (row row' : Row) : exprEvaluate pool i row = exprEvaluate pool i row' :=
  exprEvaluate_agree fun slot hs => by omega

/-- A record read up to a column has its own values there. -/
theorem decodeInto_value {record out : Row} {upto : Int} {slot : Nat}
    (hslot : (slot : Int) ≤ upto) (hlt : slot < record.length) :
    (decodeInto record out upto).value slot = record.value slot := by
  have hcount : slot < min (upto + 1).toNat record.length := by omega
  unfold decodeInto Row.value
  rw [List.getD_eq_getElem?_getD, List.getD_eq_getElem?_getD, List.getElem?_append_left]
  · rw [List.getElem?_take, if_pos hcount]
  · rw [List.length_take]
    omega

/-- The largest is at least the start and every element's number. -/
theorem le_foldl_max {α : Type} (f : α → Int) (xs : List α) (start : Int) :
    start ≤ xs.foldl (fun deepest x => max deepest (f x)) start ∧
      ∀ x ∈ xs, f x ≤ xs.foldl (fun deepest x => max deepest (f x)) start := by
  induction xs generalizing start with
  | nil => exact ⟨Int.le_refl _, fun x hx => absurd hx (by simp)⟩
  | cons head rest ih =>
    obtain ⟨hstart, hrest⟩ := ih (max start (f head))
    refine ⟨Int.le_trans (Int.le_max_left _ _) hstart, fun x hx => ?_⟩
    rcases List.mem_cons.mp hx with rfl | hx
    · exact Int.le_trans (Int.le_max_right _ _) hstart
    · exact hrest x hx

/-- Every key and every item lies within what is read. -/
theorem deepestRead_le {groupSlots : List Nat} {exprs : ExprPool} {items : List SelectItem} :
    (∀ slot ∈ groupSlots, (slot : Int) ≤ deepestRead groupSlots exprs items) ∧
      ∀ item ∈ items, exprDeepest exprs item.expr ≤ deepestRead groupSlots exprs items := by
  obtain ⟨hkeys, hitems⟩ :=
    le_foldl_max (fun item => exprDeepest exprs item.expr) items
      (groupSlots.foldl (fun (deepest : Int) (slot : Nat) => max deepest (slot : Int)) (-1))
  exact ⟨fun slot hs => Int.le_trans ((le_foldl_max _ groupSlots (-1)).2 slot hs) hkeys, hitems⟩

/-! ### Binding -/

section
variable {table : CatalogNode} {exprs pool : ExprPool} {i : Int32}

/-- A bound expression reads columns of the table. -/
theorem exprDeepestFrom_lt {fuel : Nat}
    (hstamped : ∀ j n, reachesFrom fuel pool i j = true → pool.node j = some n → n.Stamped table) :
    exprDeepestFrom fuel pool i < table.cols.length := by
  induction fuel generalizing i with
  | zero => simp only [exprDeepestFrom]; omega
  | succ fuel ih =>
    unfold exprDeepestFrom
    cases hn : pool.node i with
    | none => simp only; omega
    | some n =>
      have hbelow : ∀ k, (∀ j, reachesFrom fuel pool k j = true →
          reachesFrom (fuel + 1) pool i j = true) →
          exprDeepestFrom fuel pool k < table.cols.length := fun k hk =>
        ih fun j m hj => hstamped j m (hk j hj)
      cases hkind : n.kind with
      | EXPR_COLUMN =>
        simp only [hkind]
        have hself := hstamped i n (by simp [reachesFrom]) hn
        obtain ⟨hslot, hpos, -⟩ := hself.1 hkind
        cases hs : n.slot with
        | negSucc slot => rw [hs] at hpos; simp at hpos
        | ofNat slot =>
          have hlt := findColumn_lt (hslot.symm.trans hs)
          exact Int.ofNat_lt.mpr hlt
      | EXPR_LITERAL => simp only [hkind]; omega
      | EXPR_NEGATE =>
        simp only [hkind]
        exact hbelow n.left fun j hj => by simp [reachesFrom, hn, hkind, hj]
      | EXPR_BINARY =>
        simp only [hkind]
        exact Int.max_lt.mpr ⟨hbelow n.left fun j hj => by simp [reachesFrom, hn, hkind, hj],
          hbelow n.right fun j hj => by simp [reachesFrom, hn, hkind, hj]⟩

/-- Binding once more moves no column. -/
theorem exprDeepestFrom_congr {fitted : Int32 → Prop} (h : Settles table fitted exprs pool)
    {fuel : Nat}
    (hbound : ∀ j n, reachesFrom fuel exprs i j = true → exprs.node j = some n → n.Bound table) :
    exprDeepestFrom fuel pool i = exprDeepestFrom fuel exprs i := by
  induction fuel generalizing i with
  | zero => rfl
  | succ fuel ih =>
    unfold exprDeepestFrom
    cases hn : exprs.node i with
    | none => rw [(h.none_iff i).mpr hn]
    | some n =>
      obtain ⟨m, hm, hlike, hkept, -⟩ := h.node i n hn
      have hbelow : ∀ k, (∀ j, reachesFrom fuel exprs k j = true →
          reachesFrom (fuel + 1) exprs i j = true) →
          exprDeepestFrom fuel pool k = exprDeepestFrom fuel exprs k := fun k hk =>
        ih fun j a hj => hbound j a (hk j hj)
      simp only [hm, hlike.kind, hlike.left, hlike.right]
      cases hkind : n.kind with
      | EXPR_COLUMN =>
        have hself := hbound i n (by simp [reachesFrom]) hn
        simp only
        rw [hkept hself (hlike.kind.trans hkind), hself hkind, hlike.column]
      | EXPR_LITERAL => rfl
      | EXPR_NEGATE =>
        exact hbelow n.left fun j hj => by simp [reachesFrom, hn, hkind, hj]
      | EXPR_BINARY =>
        simp only [hbelow n.left fun j hj => by simp [reachesFrom, hn, hkind, hj],
          hbelow n.right fun j hj => by simp [reachesFrom, hn, hkind, hj]]

/-- The code finds the type that a bound expression has. -/
theorem exprTypeFrom_of_typeFrom {fuel : Nat} {type : ColType}
    (hstamped : ∀ j n, reachesFrom fuel pool i j = true → pool.node j = some n → n.Stamped table)
    (h : typeFrom table fuel pool i = some type) : exprTypeFrom fuel pool i = .ok type := by
  induction fuel generalizing i type with
  | zero => simp [typeFrom] at h
  | succ fuel ih =>
    unfold typeFrom at h
    unfold exprTypeFrom
    cases hn : pool.node i with
    | none => simp [hn] at h
    | some n =>
      have hself : n.Stamped table := hstamped i n (by simp [reachesFrom]) hn
      simp only [hn] at h ⊢
      cases hkind : n.kind with
      | EXPR_COLUMN =>
        simp only [hkind] at h ⊢
        obtain ⟨hslot, hpos, htype⟩ := hself.1 hkind
        rw [← hslot] at h
        cases hs : n.slot with
        | negSucc slot => simp [hs] at h
        | ofNat slot =>
          rw [hs] at h htype
          rw [htype]
          exact congrArg Except.ok (Option.some.inj h)
      | EXPR_LITERAL =>
        simp only [hkind] at h ⊢
        rw [hself.2 hkind, Option.some.inj h]
      | EXPR_NEGATE =>
        simp only [hkind] at h ⊢
        obtain ⟨hleft, hnumber⟩ := Option.filter_eq_some_iff.mp h
        have hl := ih (i := n.left)
          (fun j m hj => hstamped j m (by simp [reachesFrom, hn, hkind, hj])) hleft
        simp only [hl, bind, Except.bind, hnumber, if_true]
      | EXPR_BINARY =>
        simp only [hkind] at h ⊢
        cases hleft : typeFrom table fuel pool n.left with
        | none => simp [hleft] at h
        | some left =>
          cases hright : typeFrom table fuel pool n.right with
          | none => simp [hleft, hright] at h
          | some right =>
            have hl := ih (i := n.left)
              (fun j m hj => hstamped j m (by simp [reachesFrom, hn, hkind, hj])) hleft
            have hr := ih (i := n.right)
              (fun j m hj => hstamped j m (by simp [reachesFrom, hn, hkind, hj])) hright
            simp only [hleft, hright] at h
            simp only [hl, hr, bind, Except.bind]
            split at h
            · exact absurd h (by simp)
            · rename_i hnumbers
              rw [if_neg hnumbers]
              split at h
              · rename_i hfloat
                rw [if_pos hfloat, Option.some.inj h]
              · rename_i hints
                rw [if_neg hints, Option.some.inj h]

/-- An expression with a type is bound and typed. -/
theorem resolveType_typed {type : ColType} (h : typeOf table pool i = some type) :
    resolveType table pool i = .ok (type, (exprResolve table pool i).2) := by
  have hok := exprResolve_ok (i := i) (by rw [h]; rfl)
  have hsettles : Settles table (fun _ => False) pool (exprResolve table pool i).2 :=
    exprResolve_settles
  have hstamped := fun j n hj => exprResolve_stamped hok (j := j) (n := n) hj
  unfold resolveType
  generalize exprResolve table pool i = r at hok hsettles hstamped
  obtain ⟨r, pool'⟩ := r
  obtain rfl : r = .ok () := hok
  have htype : exprType pool' i = .ok type := by
    refine exprTypeFrom_of_typeFrom (fun j n hj hn => hstamped j n ?_ hn) ?_
    · rw [← hsettles.reaches_eq]
      exact hj
    · exact (hsettles.typeOf_eq fun _ _ => id).trans h
  simp only [htype]

end

/-! ### A select list that was accepted -/

/-- An item that its check accepted, in a grouped statement. -/
structure ItemReady (table : CatalogNode) (select : SelectList) (exprs : ExprPool)
    (item : SelectItem) : Prop where
  typed : item.star = false → ∃ type, typeOf table exprs item.expr = some type
  stamped : item.star = false → ∀ j n, reaches exprs item.expr j = true →
    exprs.node j = some n → n.Stamped table
  grouped : item.aggregate = .AGG_NONE →
    exprIsColumn exprs item.expr = true ∧ isGrouped select (exprColumn exprs item.expr) = true

/-- The checks leave a column a column, and its name as it was. -/
theorem exprIsColumn_eq {table : CatalogNode} {fitted : Int32 → Prop} {exprs pool : ExprPool}
    (h : Settles table fitted exprs pool) (i : Int32) :
    exprIsColumn pool i = exprIsColumn exprs i ∧ exprColumn pool i = exprColumn exprs i := by
  unfold exprIsColumn exprColumn
  cases hn : exprs.node i with
  | none => simp [(h.none_iff i).mpr hn]
  | some n =>
    obtain ⟨m, hm, hlike, -⟩ := h.node i n hn
    simp [hm, hlike.kind, hlike.column]

section
variable {table : CatalogNode} {select : SelectList} {exprs pool : ExprPool}

/-- Binding other items leaves an accepted one accepted. -/
theorem ItemReady.settles {item : SelectItem} (h : ItemReady table select exprs item)
    (hsettles : Settles table (fun _ => False) exprs pool) : ItemReady table select pool item where
  typed hstar := by
    obtain ⟨type, htype⟩ := h.typed hstar
    exact ⟨type, (hsettles.typeOf_eq fun _ _ => id).trans htype⟩
  stamped hstar j n hj hn := by
    rw [hsettles.reaches_eq] at hj
    cases hm : exprs.node j with
    | none =>
      rw [(hsettles.none_iff j).mpr hm] at hn
      exact absurd hn (by simp)
    | some m =>
      obtain ⟨n', hn', -, -, hkept⟩ := hsettles.node j m hm
      rw [hn] at hn'
      obtain rfl := Option.some.inj hn'
      exact (hkept id).2 (h.stamped hstar j m hj hm)
  grouped hagg := by
    obtain ⟨hcol, hname⟩ := exprIsColumn_eq hsettles item.expr
    rw [hcol, hname]
    exact h.grouped hagg

/-- One item checked. -/
theorem checkItem_ready {item : SelectItem}
    (hgrouped : select.groupBy ≠ [] ∨ select.hasAggregate = true)
    (h : checkItem table select exprs item = .ok pool) :
    Settles table (fun _ => False) exprs pool ∧ ItemReady table select pool item := by
  unfold checkItem at h
  cases hstar : item.star with
  | true =>
    simp only [hstar, if_true, Except.ok.injEq] at h
    subst h
    obtain ⟨hcount, -⟩ := item.starred hstar
    exact ⟨.refl _ _ _, fun hno => absurd (hstar.symm.trans hno) (by simp),
      fun hno => absurd (hstar.symm.trans hno) (by simp),
      fun hno => absurd (hcount.symm.trans hno) (by simp)⟩
  | false =>
    simp only [hstar, Bool.false_eq_true, if_false] at h
    split at h
    · exact absurd h (by simp)
    · rename_i type bound hbound
      obtain ⟨hsettles, htype, hstamped⟩ := resolveType_ok hbound
      have hready : bound = pool → (item.aggregate = .AGG_NONE →
          exprIsColumn bound item.expr = true ∧
            isGrouped select (exprColumn bound item.expr) = true) →
          Settles table (fun _ => False) exprs pool ∧ ItemReady table select pool item := by
        rintro rfl hgroup
        refine ⟨hsettles, fun _ => ⟨type, (hsettles.typeOf_eq fun _ _ => id).trans htype⟩,
          fun _ j n hj hn => hstamped j n ?_ hn, hgroup⟩
        rw [← hsettles.reaches_eq]
        exact hj
      split at h
      · exact absurd h (by simp)
      · split at h
        · rename_i hfree
          refine hready (Except.ok.inj h) fun hnone => ?_
          -- there are groups, so a bare item cannot be here
          rcases hfree with hagg | ⟨hno, hnoagg⟩
          · exact absurd hnone hagg
          · rcases hgrouped with hby | hany
            · exact absurd hno hby
            · exact absurd (hany.symm.trans hnoagg) (by simp)
        · split at h
          · exact absurd h (by simp)
          · rename_i hcol
            simp only [Bool.or_eq_true, Bool.not_eq_true', not_or, Bool.not_eq_false] at hcol
            exact hready (Except.ok.inj h) fun _ => hcol

/-- The items checked one after another. -/
theorem checkItems_ready {items : List SelectItem}
    (hgrouped : select.groupBy ≠ [] ∨ select.hasAggregate = true)
    (h : checkItems table select items exprs = .ok pool) :
    Settles table (fun _ => False) exprs pool ∧
      ∀ item ∈ items, ItemReady table select pool item := by
  induction items generalizing exprs with
  | nil =>
    obtain rfl := Except.ok.inj h
    exact ⟨.refl _ _ _, fun item hi => absurd hi (by simp)⟩
  | cons item rest ih =>
    unfold checkItems at h
    split at h
    · exact absurd h (by simp)
    · rename_i bound hbound
      obtain ⟨hfirst, hready⟩ := checkItem_ready hgrouped hbound
      obtain ⟨hrest, hall⟩ := ih h
      refine ⟨(hfirst.trans hrest).mono fun j hj => hj.elim id id, fun other hother => ?_⟩
      rcases List.mem_cons.mp hother with rfl | hother
      · exact hready.settles hrest
      · exact hall other hother

end

/-- A select list that was accepted, with the positions of its GROUP BY columns. -/
structure Ready (table : CatalogNode) (select : SelectList) (groupSlots : List Nat) : Prop where
  slots : groupBySlots table select.groupBy = .ok groupSlots
  items : ∀ item ∈ select.items, ItemReady table select select.exprs item

/-- The columns of a GROUP BY that passes the checks have slots. -/
theorem checkGroupBy_slots {table : CatalogNode} {names : List Name}
    (h : checkGroupBy table names = .ok ()) : ∃ slots, groupBySlots table names = .ok slots := by
  induction names with
  | nil => exact ⟨[], rfl⟩
  | cons name rest ih =>
    unfold checkGroupBy at h
    dsimp only at h
    split at h
    · exact absurd h (by simp)
    · rename_i hpos
      obtain ⟨slots, hslots⟩ := ih h
      unfold groupBySlots
      cases hslot : findColumn table name.1 with
      | negSucc n => rw [hslot] at hpos; exact absurd (Int.negSucc_lt_zero n) hpos
      | ofNat slot => exact ⟨slot :: slots, by simp [hslots]⟩

/-- What the check of a grouped SELECT leaves. -/
theorem checkSelect_ready {subqueries : List Subquery} {table : CatalogNode}
    {select checked : SelectList} (hall : select.selectAll = false)
    (hgrouped : select.groupBy ≠ [] ∨ select.hasAggregate = true)
    (h : checkSelect subqueries table select = .ok checked) :
    checked.items = select.items ∧ checked.groupBy = select.groupBy ∧
      ∃ groupSlots, Ready table checked groupSlots := by
  unfold checkSelect at h
  split at h
  · exact absurd h (by simp)
  · split at h
    · exact absurd h (by simp)
    · split at h
      · exact absurd h (by simp)
      · rename_i hby
        rw [hall, if_neg (by simp)] at h
        split at h
        · exact absurd h (by simp)
        · split at h
          · exact absurd h (by simp)
          · rename_i exprs hitems
            obtain rfl := Except.ok.inj h
            obtain ⟨slots, hslots⟩ := checkGroupBy_slots hby
            obtain ⟨-, hready⟩ := checkItems_ready hgrouped hitems
            exact ⟨rfl, rfl, slots, hslots, fun item hi =>
              ⟨(hready item hi).typed, (hready item hi).stamped, (hready item hi).grouped⟩⟩

/-! ### Binding it again -/

/-- What the answer needs to know of an item. -/
def planOf (table : CatalogNode) (select : SelectList) (item : SelectItem) : ItemPlan :=
  { item, key := itemKey select select.exprs item, type := itemType table select.exprs item }

section
variable {table : CatalogNode} {select : SelectList} {exprs pool : ExprPool} {item : SelectItem}

/-- The checks leave an item's place in the key. -/
theorem itemKey_eq (h : Settles table (fun _ => False) exprs pool) :
    itemKey select pool item = itemKey select exprs item := by
  obtain ⟨hcol, hname⟩ := exprIsColumn_eq h item.expr
  unfold itemKey
  rw [hcol, hname]

/-- An accepted item gives the same values after it was bound again. -/
theorem ItemReady.result (h : ItemReady table select exprs item)
    (hsettles : Settles table (fun _ => False) exprs pool) (row : Row) :
    itemResult pool row item = itemResult exprs row item := by
  unfold itemResult
  cases hstar : item.star with
  | true => rfl
  | false =>
    simp only [Bool.false_eq_true, if_false, exprEvaluate, hsettles.length]
    exact exprEvaluateFrom_congr hsettles (.refl table (fun _ => False) exprs)
      (fun j n hj hn => ((h.settles hsettles).stamped hstar j n
        (by rw [hsettles.reaches_eq]; exact hj) hn).bound)
      (fun j n hj hn => (h.stamped hstar j n hj hn).bound) (fun _ _ => id) fun _ _ => id

/-- An accepted item reads as far as it did. -/
theorem ItemReady.deepest (h : ItemReady table select exprs item)
    (hsettles : Settles table (fun _ => False) exprs pool) :
    exprDeepest pool item.expr = exprDeepest exprs item.expr := by
  unfold exprDeepest
  rw [hsettles.length]
  cases hstar : item.star with
  | true =>
    -- a star has no expression
    have hnone : ∀ p : ExprPool, p.node item.expr = none := fun p => by
      rw [(item.starred hstar).2]
      rfl
    simp only [exprDeepestFrom, hnone]
  | false =>
    exact exprDeepestFrom_congr hsettles fun j n hj hn => (h.stamped hstar j n hj hn).bound

/-- An accepted item reads columns of the table. -/
theorem ItemReady.deepest_lt (h : ItemReady table select exprs item) :
    exprDeepest exprs item.expr < table.cols.length := by
  cases hstar : item.star with
  | true =>
    have hnone : exprs.node item.expr = none := by
      rw [(item.starred hstar).2]
      rfl
    simp only [exprDeepest, exprDeepestFrom, hnone]
    omega
  | false => exact exprDeepestFrom_lt fun j n hj hn => h.stamped hstar j n hj hn

/-- Binding an accepted select list. -/
theorem planItems_ready {items : List SelectItem}
    (hpool : Settles table (fun _ => False) select.exprs pool)
    (h : ∀ item ∈ items, ItemReady table select select.exprs item) :
    ∃ bound, planItems table select items pool = .ok (items.map (planOf table select), bound) ∧
      Settles table (fun _ => False) select.exprs bound := by
  induction items generalizing pool with
  | nil => exact ⟨pool, rfl, hpool⟩
  | cons item rest ih =>
    have hrest : ∀ other ∈ rest, ItemReady table select select.exprs other := fun other ho =>
      h other (by simp [ho])
    unfold planItems
    cases hstar : item.star with
    | true =>
      obtain ⟨bound, hbound, hsettles⟩ := ih hpool hrest
      have hplan : planOf table select item = { item, key := none, type := .TYPE_INT } := by
        simp [planOf, itemKey, itemType, (item.starred hstar).1, hstar]
      exact ⟨bound, by simp [hbound, hplan], hsettles⟩
    | false =>
      obtain ⟨type, htype⟩ := (h item (by simp)).typed hstar
      have htype' : typeOf table pool item.expr = some type :=
        (hpool.typeOf_eq fun _ _ => id).trans htype
      have hnext : Settles table (fun _ => False) select.exprs
          (exprResolve table pool item.expr).2 :=
        (hpool.trans exprResolve_settles).mono fun j hj => hj.elim id id
      obtain ⟨bound, hbound, hsettles⟩ := ih hnext hrest
      have hplan : planOf table select item =
          { item, key := itemKey select (exprResolve table pool item.expr).2 item, type } := by
        simp [planOf, itemKey_eq hnext, itemType, hstar, htype]
      refine ⟨bound, ?_, hsettles⟩
      simp [resolveType_typed htype', hbound, hplan]

end

/-! ### Names -/

/-- Folding the case makes no dot and takes none away. -/
theorem tolower_dot (c : UInt8) : tolower c = 46 ↔ c = 46 := by
  unfold tolower
  simp only [UInt8.le_iff_toNat_le, ← UInt8.toNat_inj]
  split
  · rename_i h
    have hsum : (c + 32).toNat = c.toNat + 32 := by
      have h90 : (90 : UInt8).toNat = 90 := rfl
      rw [UInt8.toNat_add]
      exact Nat.mod_eq_of_lt (by show c.toNat + 32 < 256; omega)
    have h46 : (46 : UInt8).toNat = 46 := rfl
    have h65 : (65 : UInt8).toNat = 65 := rfl
    omega
  · exact Iff.rfl

/-- Folding the case twice is folding it once. -/
theorem tolower_idem (c : UInt8) : tolower (tolower c) = tolower c := by
  unfold tolower
  simp only [UInt8.le_iff_toNat_le]
  by_cases h : (65 : UInt8).toNat ≤ c.toNat ∧ c.toNat ≤ (90 : UInt8).toNat
  · have hsum : (c + 32).toNat = c.toNat + 32 := by
      have h90 : (90 : UInt8).toNat = 90 := rfl
      rw [UInt8.toNat_add]
      exact Nat.mod_eq_of_lt (by show c.toNat + 32 < 256; omega)
    have h90 : (90 : UInt8).toNat = 90 := rfl
    have h65 : (65 : UInt8).toNat = 65 := rfl
    rw [if_pos h, if_neg (by omega)]
  · rw [if_neg h, if_neg h]

/-- Names are compared with their case folded. -/
theorem sameText_lower (c a : List UInt8) : sameText c (a.map tolower) = sameText c a := by
  have hidem : (a.map tolower).map tolower = a.map tolower := by
    rw [List.map_map]
    exact List.map_congr_left fun x _ => tolower_idem x
  unfold sameText
  rw [hidem]

/-- What stands behind the last dot is folded with the rest. -/
theorem takeWhile_lower (a : List UInt8) :
    (a.map tolower).reverse.takeWhile (· ≠ 46) = (a.reverse.takeWhile (· ≠ 46)).map tolower := by
  rw [← List.map_reverse, List.takeWhile_map]
  congr 2
  funext c
  simp [tolower_dot]

/-- The part behind the last dot, of a folded name. -/
theorem afterDot_lower (a : List UInt8) :
    afterDot (a.map tolower) = (afterDot a).map (List.map tolower) := by
  have hmem : (46 : UInt8) ∈ a.map tolower ↔ (46 : UInt8) ∈ a := by simp [tolower_dot]
  unfold afterDot
  rw [takeWhile_lower]
  by_cases h : (46 : UInt8) ∈ a
  · rw [if_pos h, if_pos (hmem.mpr h), Option.map_some, List.map_reverse]
  · rw [if_neg h, if_neg (fun hin => h (hmem.mp hin)), Option.map_none]

/-- The part before the last dot, of a folded name. -/
theorem beforeDot_lower (a : List UInt8) :
    beforeDot (a.map tolower) = (beforeDot a).map tolower := by
  unfold beforeDot
  rw [takeWhile_lower, List.length_map, List.length_map, List.map_take]

/-- A column is found under its folded name as well. -/
theorem findColumn_lower (table : CatalogNode) (a : List UInt8) :
    findColumn table (a.map tolower) = findColumn table a := by
  have hnamed : ∀ b, columnNamed table.cols (b.map tolower) = columnNamed table.cols b := by
    intro b
    unfold columnNamed
    simp only [sameText_lower]
  unfold findColumn
  rw [hnamed, afterDot_lower, beforeDot_lower]
  cases columnNamed table.cols a with
  | some i => rfl
  | none =>
    cases afterDot a with
    | none => simp only [Option.map_none, sameText_lower]
    | some rest =>
      simp only [Option.map_some, hnamed]
      rw [sameText_comm (List.map tolower _), sameText_lower, sameText_comm]

/-- Names that differ in case only mean the same column. -/
theorem findColumn_congr (table : CatalogNode) {a b : List UInt8} (h : sameText a b = true) :
    findColumn table a = findColumn table b := by
  rw [← findColumn_lower table a, ← findColumn_lower table b, eq_of_beq h]

end DatabaseEngine
