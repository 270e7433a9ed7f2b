import DatabaseEngine.Proofs.Join.Typed
import DatabaseEngine.Proofs.Select.Sorting
import DatabaseEngine.Proofs.Semantic.Soundness

/-!
# `DatabaseEngine.Proofs.Select.Announced`: the values of a SELECT and the types of its columns

* `collectSelect_typed`: the rows that a scan or an index finds are rows of the table.
* `projectRows_announced`: a plain projection answers values of the types that it announces.
* `groupRows_in`: what the groups hold has the types of the items.
* `finish_mem`: DISTINCT, ORDER BY and LIMIT bring in no row.
* `answerSelect_announced`: the values of a SELECT have the types of their columns, but for what an
  earlier SELECT left behind.
* `types_sound_iff`: expressions and SELECTs.
-/

set_option autoImplicit false

namespace DatabaseEngine

open Library

/-! ### DISTINCT, ORDER BY and LIMIT -/

section
variable {rows : List Row} {row : Row}

/-- Taking a row within the list answers one of its rows. -/
theorem getD_mem {i : Nat} (h : i < rows.length) : rows.getD i [] ∈ rows := by
  rw [List.getD_eq_getElem?_getD, List.getElem?_eq_getElem h]
  exact List.getElem_mem h

/-- DISTINCT makes up no row. -/
theorem mem_distinctLoop {ncols n r kept : Nat} {buckets : List Nat} (hlength : r + n ≤ rows.length)
    (h : row ∈ distinctLoop ncols n r rows kept buckets) : row ∈ rows := by
  induction n generalizing r rows kept buckets with
  | zero => exact List.mem_of_mem_take h
  | succ n ih =>
    rw [distinctLoop] at h
    split at h
    · exact ih (by omega) h
    · rcases List.mem_or_eq_of_mem_set (ih (by rw [List.length_set]; omega) h) with h | rfl
      · exact h
      · exact getD_mem (by omega)

/-- Nor does it when it is asked for only sometimes. -/
theorem mem_applyDistinct {count : Nat} {select : ParsedSelect} {out : ResultSet}
    (h : row ∈ (applyDistinct count select out).rows) : row ∈ out.rows := by
  unfold applyDistinct at h
  split at h
  · exact h
  · exact mem_distinctLoop (by omega) h

/-- Laying sorted rows in order makes up no row. -/
theorem mem_compact {j : Nat} {keys : List SortKey} (hkeys : ∀ key ∈ keys, key.index < rows.length)
    (h : row ∈ compact j keys rows) : row ∈ rows := by
  induction keys generalizing j rows with
  | nil => exact h
  | cons key rest ih =>
    have hfirst := hkeys key List.mem_cons_self
    have hrest : ∀ other ∈ rest, other.index < rows.length := fun other ho =>
      hkeys other (List.mem_cons_of_mem _ ho)
    rw [compact] at h
    split at h
    · exact ih hrest h
    · rcases List.mem_or_eq_of_mem_set (ih (by rw [List.length_set]; exact hrest) h) with h | rfl
      · exact h
      · exact getD_mem hfirst

/-- Sorting makes up no key. -/
theorem mem_sortBy {α : Type} {compare : α → α → Ordering} {keys : List α} {key : α}
    (h : key ∈ sortBy compare keys) : key ∈ keys :=
  (List.perm_insertionSort _ keys).mem_iff.mp h

/-- ORDER BY with its LIMIT makes up no row. -/
theorem mem_orderRows {terms : List SortTerm} {limit : Option Nat}
    (h : row ∈ orderRows terms limit rows) : row ∈ rows := by
  unfold orderRows at h
  split at h
  · exact h
  · rename_i term rest
    dsimp only at h
    have hkeys : ∀ key ∈ sortKeys rows term.slot, key.index < rows.length := by
      intro key hkey
      rw [sortKeys_eq] at hkey
      obtain ⟨i, hi, rfl⟩ := List.mem_map.mp hkey
      exact List.mem_range.mp hi
    split at h
    · rename_i wanted
      split at h
      · split at h
        · exact absurd h (by simp)
        · have hmoved := List.mem_of_mem_take (mem_reorder h)
          exact mem_compact (fun key hkey => hkeys key (mem_selectTop (mem_sortBy hkey))) hmoved
      · exact mem_reorder h
    · exact mem_reorder h

end

section
variable {count : Nat} {select : ParsedSelect} {out ordered : ResultSet}

/-- What is left of a result brings in no row, and its columns are as they were. -/
theorem finish_mem (h : applyOrder select (applyDistinct count select out) = .ok ordered) :
    (applyLimit select ordered).types = out.types ∧
      ∀ row ∈ (applyLimit select ordered).rows, row ∈ out.rows := by
  obtain ⟨terms, -, rfl⟩ := map_ok h
  have htypes : (applyDistinct count select out).types = out.types := by
    unfold applyDistinct
    split
    · rfl
    · rfl
  unfold applyLimit
  split
  · exact ⟨htypes, fun row hrow => mem_applyDistinct (mem_orderRows (List.mem_of_mem_take hrow))⟩
  · exact ⟨htypes, fun row hrow => mem_applyDistinct (mem_orderRows hrow)⟩

/-- A single row stays where it is. -/
theorem sortRows_single {terms : List SortTerm} {row : Row} {key : SortKey} (h : key.index = 0) :
    sortRows terms [key] [row] = [row] := by
  unfold sortRows sortBy
  rw [List.insertionSort_cons, List.insertionSort_nil]
  show reorder 1 0 [key.index] [row] = [row]
  rw [h]
  rfl

/-- A single row is answered unless the LIMIT is zero. -/
theorem finish_single {row : Row} (hrow : out.rows = [row])
    (h : applyOrder select (applyDistinct count select out) = .ok ordered) :
    (applyLimit select ordered).rows = if select.limit = some 0 then [] else [row] := by
  obtain ⟨terms, -, rfl⟩ := map_ok h
  have hdistinct : (applyDistinct count select out).rows = [row] := by
    unfold applyDistinct
    split
    · exact hrow
    · rw [hrow]
      show distinctLoop out.headers.length 1 0 [row] 0 _ = [row]
      rw [distinctLoop, lookup_replicate]
      rfl
  have hkey : sortKeys [row] = fun slot => [{ first := row.value slot, index := 0 }] := rfl
  have horder : orderRows terms select.limit [row] = [row] ∨ select.limit = some 0 := by
    cases terms with
    | nil => exact .inl rfl
    | cons term rest =>
      unfold orderRows
      rw [hkey]
      cases hlimit : select.limit with
      | none => exact .inl (sortRows_single rfl)
      | some wanted =>
        cases wanted with
        | zero => exact .inr rfl
        | succ wanted =>
          dsimp only
          rw [if_neg (by rw [List.length_singleton]; omega)]
          exact .inl (sortRows_single rfl)
  unfold applyLimit
  rw [hdistinct]
  cases hlimit : select.limit with
  | none =>
    rw [hlimit] at horder
    rw [if_neg (by simp)]
    exact horder.resolve_right (by simp)
  | some wanted =>
    rw [hlimit] at horder
    cases wanted with
    | zero =>
      rw [if_pos rfl]
      rfl
    | succ wanted =>
      rw [if_neg (by simp)]
      show (orderRows terms (some (wanted + 1)) [row]).take (wanted + 1) = [row]
      rw [horder.resolve_right (by simp)]
      exact List.take_of_length_le (by rw [List.length_singleton]; omega)

end

/-! ### The rows that are kept -/

section
variable {data : Data} {statics : Statics} {sub : Subqueries} {select : ParsedSelect}
  {schema : CatalogNode} {rows kept : List Row} {row : Row}

/-- A scan that stops early answers rows of the table. -/
theorem mem_scanRows {stop : Option Nat} {n : Nat} (h : row ∈ scanRows stop rows n) :
    row ∈ rows := by
  induction rows generalizing n with
  | nil => exact h
  | cons record rest ih =>
    rw [scanRows] at h
    rcases List.mem_cons.mp h with rfl | h
    · exact List.mem_cons_self
    · split at h
      · exact absurd h (by simp)
      · exact List.mem_cons_of_mem _ (ih h)

/-- The rows WHERE keeps are rows of the table. -/
theorem mem_keepRows {wher : Condition} {stop : Option Nat} {storage : Row} {n : Nat}
    (h : row ∈ keepRows wher sub stop rows storage n) : row ∈ rows := by
  induction rows generalizing storage n with
  | nil => exact h
  | cons record rest ih =>
    rw [keepRows] at h
    split at h
    · rcases List.mem_cons.mp h with rfl | h
      · exact List.mem_cons_self
      · split at h
        · exact absurd h (by simp)
        · exact List.mem_cons_of_mem _ (ih h)
    · exact List.mem_cons_of_mem _ (ih h)

/-- What a SELECT is run against is a join, or a table of its own. -/
theorem selectSource_table (h : selectSource data statics sub select = .ok (schema, rows)) :
    schema.table = Name.ofBytes JOIN_SCHEMA_NAME ∨
      ∃ stored ∈ data.tables, schema = stored.node := by
  unfold selectSource at h
  split at h
  · split at h
    · exact absurd h (by simp)
    · rename_i joined hschema
      obtain ⟨_, -, heq⟩ := map_ok h
      obtain ⟨_, -, hjoined⟩ := map_ok hschema
      rw [← (Prod.mk.inj heq).1, ← hjoined]
      exact .inl rfl
  · split at h
    · exact absurd h (by simp)
    · rename_i stored hstored
      obtain ⟨entry, -, hentry⟩ := Option.bind_eq_some_iff.mp hstored
      exact .inr ⟨stored, List.mem_of_find?_eq_some hentry,
        (Prod.mk.inj (Except.ok.inj h)).1.symm⟩

/-- The rows that WHERE keeps are rows of the schema, whichever way they were found. -/
theorem collectSelect_typed (hdata : data.Typed) (hfits : JoinFits data statics sub select)
    (hsource : selectSource data statics sub select = .ok (schema, rows)) {wher : Condition}
    {stop : Option Nat} (h : collectSelect data schema rows sub wher stop = .ok kept) :
    ∀ row ∈ kept, RowIn schema row := by
  have hrows := selectSource_typed hdata hfits hsource
  unfold collectSelect at h
  split at h
  · rw [← Except.ok.inj h]
    exact fun row hrow => hrows row (mem_scanRows hrow)
  · split at h
    · exact absurd h (by simp)
    · unfold collectBound at h
      split at h
      · rw [← Except.ok.inj h]
        exact fun row hrow => hrows row (mem_keepRows hrow)
      · dsimp only at h
        split at h
        · exact absurd h (by simp)
        · rename_i index hindex
          obtain ⟨found, hfound, rfl⟩ := map_ok h
          have hmem := List.mem_of_find?_eq_some hindex
          have hsame := List.find?_some hindex
          rw [Bool.and_eq_true] at hsame
          intro row hrow
          rcases selectSource_table hsource with hjoin | ⟨stored, hstored, rfl⟩
          · rw [hjoin, hdata.unjoined index hmem] at hsame
            exact absurd hsame.1 (by decide)
          · exact hdata.indexed index hmem stored hstored hsame.1 _ _ found hfound row
              (mem_keepRows hrow)

end

/-! ### Plain projection -/

/-- Two lists along a third. -/
theorem forall₂_through {α β γ : Type} {R : α → β → Prop} {S : α → γ → Prop} {T : β → γ → Prop}
    {xs : List α} {ys : List β} {zs : List γ} (hleft : List.Forall₂ R xs ys)
    (hright : List.Forall₂ S xs zs) (h : ∀ x ∈ xs, ∀ y z, R x y → S x z → T y z) :
    List.Forall₂ T ys zs := by
  induction hleft generalizing zs with
  | nil =>
    cases hright
    exact .nil
  | cons hfirst _ ih =>
    cases hright with
    | cons hfirst' hrest' =>
      exact .cons (h _ List.mem_cons_self _ _ hfirst hfirst')
        (ih hrest' fun x hx => h x (List.mem_cons_of_mem _ hx))

/-- An expression is bound, and has a type on the columns of a table. -/
structure BoundAs (table : CatalogNode) (pool : ExprPool) (i : Int32) (type : ColType) : Prop where
  type : typeOf table pool i = some type
  stamped : ∀ j n, reaches pool i j = true → pool.node j = some n → n.Stamped table

section
variable {table : CatalogNode} {pool pool' : ExprPool} {i : Int32} {type : ColType} {record : Row}

/-- Writing other leaves of the pool leaves an operand bound. -/
theorem BoundAs.settles (h : BoundAs table pool i type)
    (hsettles : Settles table (fun _ => False) pool pool') : BoundAs table pool' i type := by
  refine ⟨(hsettles.typeOf_eq fun _ _ => id).trans h.type, fun j n hj hn => ?_⟩
  rw [hsettles.reaches_eq] at hj
  cases hm : pool.node j with
  | none =>
    rw [(hsettles.none_iff j).mpr hm] at hn
    exact absurd hn (by simp)
  | some m =>
    obtain ⟨n', hn', -, -, hkept⟩ := hsettles.node j m hm
    obtain rfl := Option.some.inj (hn.symm.trans hn')
    exact (hkept id).2 (h.stamped j m hj hm)

/-- On a record read far enough, an expression gives a value of its type. -/
theorem BoundAs.value (h : BoundAs table pool i type) (hrecord : RowIn table record)
    {storage : Row} {upto : Int} (hupto : exprDeepest pool i ≤ upto) {value : Value}
    (hvalue : exprEvaluate pool i (decodeInto record storage upto) = .ok value) :
    value.Of type := by
  have hagree : ∀ slot : Nat, (slot : Int) ≤ exprDeepest pool i →
      (decodeInto record storage upto).value slot = record.value slot := by
    intro slot hslot
    have hlt : exprDeepest pool i < table.cols.length := exprDeepestFrom_lt h.stamped
    exact decodeInto_value (by omega) (by rw [hrecord.length]; omega)
  rw [exprEvaluate_agree hagree] at hvalue
  by_cases hnull : value.isNull = true
  · exact .inl hnull
  · exact .inr (exprEvaluateFrom_typed hrecord.typed
      (fun j n hj hn => (h.stamped j n hj hn).bound) h.type hvalue (by simpa using hnull))

/-- An operand whose type is found is bound in the pool that comes out. -/
theorem resolveType_bound (h : resolveType table pool i = .ok (type, pool')) :
    Settles table (fun _ => False) pool pool' ∧ BoundAs table pool' i type := by
  obtain ⟨hsettles, htype, hstamped⟩ := resolveType_ok h
  refine ⟨hsettles, (hsettles.typeOf_eq fun _ _ => id).trans htype, fun j n hj hn => ?_⟩
  rw [hsettles.reaches_eq] at hj
  exact hstamped j n hj hn

/-- The items of a plain projection, once they are bound. -/
theorem bindItems_bound {items : List SelectItem} {columns : List (Name × ColType)}
    (h : bindItems table items pool = .ok (columns, pool')) :
    Settles table (fun _ => False) pool pool' ∧
      List.Forall₂ (fun item (column : Name × ColType) => BoundAs table pool' item.expr column.2)
        items columns := by
  induction items generalizing pool columns with
  | nil =>
    obtain ⟨rfl, rfl⟩ := Prod.mk.inj (Except.ok.inj h)
    exact ⟨.refl _ _ _, .nil⟩
  | cons item rest ih =>
    rw [bindItems] at h
    split at h
    · exact absurd h (by simp)
    · rename_i type bound hbound
      split at h
      · exact absurd h (by simp)
      · obtain ⟨⟨columns', pool''⟩, hrest, heq⟩ := map_ok h
        obtain ⟨rfl, rfl⟩ := Prod.mk.inj heq
        obtain ⟨hsettles, hitem⟩ := resolveType_bound hbound
        obtain ⟨hsettles', hitems⟩ := ih hrest
        exact ⟨(hsettles.trans hsettles').mono fun _ hj => hj.elim id id,
          .cons (hitem.settles hsettles') hitems⟩

/-- Every row a projection answers is made of a row that was read. -/
theorem mem_projectEach {project : Row → Except ErrorCode Row} {deepest : Int}
    {rows out : List Row} {storage row : Row}
    (h : projectEach project deepest rows storage = .ok out) (hrow : row ∈ out) :
    ∃ record ∈ rows, ∃ storage, project (decodeInto record storage deepest) = .ok row := by
  induction rows generalizing storage out with
  | nil =>
    rw [← Except.ok.inj h] at hrow
    exact absurd hrow (by simp)
  | cons record rest ih =>
    rw [projectEach] at h
    split at h
    · exact absurd h (by simp)
    · rename_i first hfirst
      obtain ⟨others, hothers, rfl⟩ := map_ok h
      rcases List.mem_cons.mp hrow with rfl | hrow
      · exact ⟨record, List.mem_cons_self, storage, hfirst⟩
      · obtain ⟨record', hmem, hfound⟩ := ih hothers hrow
        exact ⟨record', List.mem_cons_of_mem _ hmem, hfound⟩

/-- `SELECT *` answers the columns of the rows. -/
theorem star_typed (hrecord : RowIn table record) (storage : Row) :
    List.Forall₂ Value.Of
      ((List.range table.cols.length).map
        (decodeInto record storage (table.cols.length - 1 : Int)).value) table.types := by
  rw [List.forall₂_iff_get]
  unfold CatalogNode.types
  refine ⟨by simp, fun slot hslot hslot' => ?_⟩
  have hlt : slot < table.cols.length := by simpa using hslot
  have hvalue : (decodeInto record storage (table.cols.length - 1 : Int)).value slot =
      record.value slot := decodeInto_value (by omega) (by rw [hrecord.length]; exact hlt)
  rw [List.get_eq_getElem, List.get_eq_getElem, List.getElem_map, List.getElem_map,
    List.getElem_range]
  show ((decodeInto record storage (table.cols.length - 1 : Int)).value slot).Of _
  rw [hvalue, ← columnType_get hlt]
  exact hrecord.typed slot hlt

/-- A plain projection answers what it announces. -/
theorem projectRows_announced {select : SelectList} {rows : List Row} {out : ResultSet}
    (hrows : ∀ row ∈ rows, RowIn table row) (h : projectRows table select rows = .ok out) :
    out.Announced := by
  unfold projectRows at h
  split at h
  · obtain ⟨projected, hprojected, rfl⟩ := map_ok h
    intro row hrow
    obtain ⟨record, hmem, storage, hvalues⟩ := mem_projectEach hprojected hrow
    rw [← Except.ok.inj hvalues]
    exact star_typed (hrows record hmem) storage
  · split at h
    · exact absurd h (by simp)
    · rename_i columns bound hbound
      obtain ⟨projected, hprojected, rfl⟩ := map_ok h
      obtain ⟨-, hitems⟩ := bindItems_bound hbound
      intro row hrow
      obtain ⟨record, hmem, storage, hvalues⟩ := mem_projectEach hprojected hrow
      have hdeepest := (le_foldl_max (fun item : SelectItem => exprDeepest bound item.expr)
        select.items (-1)).2
      rw [List.forall₂_map_right_iff]
      exact forall₂_through (mapM_ok.mp hvalues) hitems fun item hitem value column hvalue hbound =>
        hbound.value (hrows record hmem) (hdeepest item hitem) hvalue

end

/-! ### Groups -/

/-- The running minimum or maximum of an item, once there is one, has the type of the item. -/
def Accumulator.In (table : CatalogNode) (exprs : ExprPool) (item : SelectItem)
    (acc : Accumulator) : Prop :=
  item.aggregate = .AGG_MIN ∨ item.aggregate = .AGG_MAX → acc.seen = true →
    acc.extreme.Of (itemType table exprs item)

/-- What a group holds has the types of the items: a bare item finds its value among the keys. -/
structure Group.In (table : CatalogNode) (select : SelectList) (group : Group) : Prop where
  key : ∀ item ∈ select.items, item.aggregate = .AGG_NONE → ∀ acc value,
    groupValue (planOf table select item) group.key acc = .ok value →
      value.Of (itemType table select.exprs item)
  accs : List.Forall₂ (Accumulator.In table select.exprs) select.items group.accs

section
variable {table : CatalogNode} {select : SelectList} {groupSlots : List Nat} {item : SelectItem}
  {record storage : Row}

/-- Taking in a value of the item's type keeps an accumulator within that type. -/
theorem accumulate_in {acc : Accumulator} {value : Value} (h : acc.In table select.exprs item)
    (hvalue : value.Of (itemType table select.exprs item)) :
    (accumulate acc item value).In table select.exprs item := by
  intro hagg
  have hnone : item.aggregate ≠ .AGG_NONE := by
    rintro hnone
    rw [hnone] at hagg
    exact absurd hagg (by decide)
  have htotal : ¬(item.aggregate = .AGG_SUM ∨ item.aggregate = .AGG_AVG) := by
    rintro (htotal | htotal)
    · rw [htotal] at hagg
      exact absurd hagg (by decide)
    · rw [htotal] at hagg
      exact absurd hagg (by decide)
  have hstar : ¬item.star = true := by
    intro hstar
    rw [(item.starred hstar).1] at hagg
    exact absurd hagg (by decide)
  unfold accumulate
  rw [if_neg hnone, if_neg hstar]
  by_cases hnull : value.isNull = true
  · rw [if_pos hnull]
    exact h hagg
  · rw [if_neg hnull]
    dsimp only
    rw [if_neg htotal, if_pos hagg]
    intro _
    split
    · exact hvalue
    · rename_i hkept
      -- an extreme that is kept was there before
      have hseen : acc.seen = true := by
        by_contra hunseen
        rw [Bool.not_eq_true] at hunseen
        rw [hunseen] at hkept
        exact hkept rfl
      exact h hagg hseen

/-- A row into the accumulators of its group. -/
theorem accumulateItems_in {pool : ExprPool} {row : Row} {items : List SelectItem}
    {accs accs' : List Accumulator} (h : accumulateItems pool row items accs = .ok accs')
    (hvalues : ∀ item ∈ items, ∀ value, itemResult pool row item = .ok value →
      value.Of (itemType table select.exprs item))
    (haccs : List.Forall₂ (Accumulator.In table select.exprs) items accs) :
    List.Forall₂ (Accumulator.In table select.exprs) items accs' ∧
      ∀ item ∈ items, ∃ value, itemResult pool row item = .ok value := by
  induction haccs generalizing accs' with
  | nil =>
    rw [← Except.ok.inj h]
    exact ⟨.nil, fun item hi => absurd hi (by simp)⟩
  | @cons item acc items accs hacc _ ih =>
    rw [accumulateItems] at h
    split at h
    · exact absurd h (by simp)
    · rename_i computed hcomputed
      split at h
      · exact absurd h (by simp)
      · rename_i rest hrest
        have hresult : itemResult pool row item = .ok computed := hcomputed
        obtain ⟨hin, hall⟩ := ih hrest fun other ho => hvalues other (List.mem_cons_of_mem _ ho)
        rw [← Except.ok.inj h]
        refine ⟨.cons (accumulate_in hacc (hvalues item List.mem_cons_self _ hresult)) hin, ?_⟩
        intro other ho
        rcases List.mem_cons.mp ho with rfl | ho
        · exact ⟨computed, hresult⟩
        · exact hall other ho

/-- Accumulators that nothing has landed in. -/
theorem accumulators_in (memory : GroupMemory) (group : Nat) (items : List SelectItem) :
    List.Forall₂ (Accumulator.In table select.exprs) items
      (memory.accumulators group 0 false items) := by
  unfold GroupMemory.accumulators
  rw [List.forall₂_map_right_iff, List.forall₂_iff_get]
  exact ⟨by simp, fun c _ _ _ hseen => absurd hseen (by simp [Accumulator.set])⟩

/-- An item on a record that is read as far as the statement reads, with its expressions bound once
more. -/
theorem ItemReady.decoded {bound : ExprPool} (h : ItemReady table select select.exprs item)
    (hsettles : Settles table (fun _ => False) select.exprs bound) (hin : item ∈ select.items)
    (hrecord : RowIn table record) :
    itemResult bound (decodeInto record storage (deepestRead groupSlots bound select.items)) item =
      itemResult select.exprs record item := by
  rw [h.result hsettles]
  unfold itemResult
  split
  · rfl
  · refine exprEvaluate_agree fun slot hslot => ?_
    have hdeepest := (@deepestRead_le groupSlots bound select.items).2 item hin
    rw [h.deepest hsettles] at hdeepest
    have hlt := h.deepest_lt
    exact decodeInto_value (by omega) (by rw [hrecord.length]; omega)

/-- Making room for a group leaves the groups as they are. -/
theorem reserveGroup_groups (t : GroupTable) : (reserveGroup t).groups = t.groups := by
  unfold reserveGroup
  split
  · rfl
  · rfl

/-- A new group stands behind the others. -/
theorem addGroup_groups {memory : GroupMemory} {items : List SelectItem} {t : GroupTable}
    {row : Row} {groupSlots : List Nat} :
    (addGroup memory items t row groupSlots (hashKey row groupSlots)).groups =
      t.groups ++ [freshGroup memory items groupSlots t.groups.length row] := by
  show (reserveGroup t).groups ++
    [freshGroup memory items groupSlots (reserveGroup t).groups.length row] = _
  rw [reserveGroup_groups]

/-- A group updated in its place. -/
theorem in_set {t : GroupTable} {g : Nat} {group : Group} {accs : List Accumulator}
    (hgroups : ∀ other ∈ t.groups, other.In table select) (hgroup : t.groups[g]? = some group)
    (haccs : List.Forall₂ (Accumulator.In table select.exprs) select.items accs) :
    ∀ other ∈ t.groups.set g { group with accs := accs }, other.In table select := by
  intro other hother
  rcases List.mem_or_eq_of_mem_set hother with hold | rfl
  · exact hgroups other hold
  · exact ⟨(hgroups group (List.mem_of_getElem? hgroup)).key, haccs⟩

/-- One row into the groups. -/
theorem groupRow_in {memory : GroupMemory} {bound : ExprPool} {t t' : GroupTable}
    (hready : Ready table select groupSlots)
    (hsettles : Settles table (fun _ => False) select.exprs bound) (hrecord : RowIn table record)
    (hgroups : ∀ group ∈ t.groups, group.In table select)
    (h : groupRow memory select.items bound groupSlots
      (decodeInto record storage (deepestRead groupSlots bound select.items)) t = .ok t') :
    ∀ group ∈ t'.groups, group.In table select := by
  generalize hrow : decodeInto record storage (deepestRead groupSlots bound select.items) = row at h
  have hresult : ∀ item ∈ select.items,
      itemResult bound row item = itemResult select.exprs record item := by
    intro item hin
    rw [← hrow]
    exact (hready.items item hin).decoded hsettles hin hrecord
  have hvalues : ∀ item ∈ select.items, ∀ value, itemResult bound row item = .ok value →
      value.Of (itemType table select.exprs item) := by
    intro item hin value hvalue
    rw [hresult item hin] at hvalue
    by_cases hnull : value.isNull = true
    · exact .inl hnull
    · exact .inr ((hready.items item hin).value_type hrecord.typed hvalue (by simpa using hnull))
  have hkeys : groupSlots.map row.value = groupSlots.map record.value := by
    refine List.map_congr_left fun slot hslot => ?_
    rw [← hrow]
    exact decodeInto_value (deepestRead_le.1 slot hslot)
      (by rw [hrecord.length]; exact groupBySlots_lt hready.slots slot hslot)
  unfold groupRow at h
  dsimp only at h
  cases hfind : findGroup t row groupSlots (hashKey row groupSlots) with
  | some g =>
    rw [hfind] at h
    dsimp only at h
    split at h
    · exact absurd h (by simp)
    · rename_i group hgroup
      split at h
      · exact absurd h (by simp)
      · rename_i accs haccs
        have hin := (hgroups group (List.mem_of_getElem? hgroup)).accs
        rw [← Except.ok.inj h]
        exact in_set hgroups hgroup (accumulateItems_in haccs hvalues hin).1
  | none =>
    rw [hfind] at h
    dsimp only at h
    split at h
    · exact absurd h (by simp)
    · rename_i group hgroup
      split at h
      · exact absurd h (by simp)
      · rename_i accs haccs
        -- the group is new, and its key is that of the row
        have hadded := @addGroup_groups memory select.items t row groupSlots
        rw [hadded, List.getElem?_append_right (Nat.le_refl _), Nat.sub_self] at hgroup
        obtain rfl := Option.some.inj hgroup
        obtain ⟨hin, hall⟩ := accumulateItems_in haccs hvalues
          (accumulators_in memory t.groups.length select.items)
        have hgroups' : ∀ other ∈ (addGroup memory select.items t row groupSlots
            (hashKey row groupSlots)).groups, other.In table select := by
          rw [hadded]
          intro other hother
          rcases List.mem_append.mp hother with hold | hnew
          · exact hgroups other hold
          · rw [List.mem_singleton.mp hnew]
            refine ⟨fun item hi hnone acc value hvalue => ?_,
              accumulators_in memory t.groups.length select.items⟩
            obtain ⟨first, hfirst⟩ := hall item hi
            have hkey := groupValue_key hready hi hnone
              ((hresult item hi).symm.trans hfirst) acc
            rw [← hkeys] at hkey
            obtain rfl := Except.ok.inj (hvalue.symm.trans hkey)
            exact hvalues item hi value hfirst
        rw [← Except.ok.inj h]
        refine in_set hgroups' ?_ hin
        rw [hadded, List.getElem?_append_right (Nat.le_refl _), Nat.sub_self]
        rfl

/-- All rows into the groups. -/
theorem groupRows_in {memory : GroupMemory} {bound : ExprPool} {rows : List Row} {t t' : GroupTable}
    (hready : Ready table select groupSlots)
    (hsettles : Settles table (fun _ => False) select.exprs bound)
    (hrows : ∀ row ∈ rows, RowIn table row) (hgroups : ∀ group ∈ t.groups, group.In table select)
    (h : groupRows memory select.items bound groupSlots
      (deepestRead groupSlots bound select.items) rows storage t = .ok t') :
    ∀ group ∈ t'.groups, group.In table select := by
  induction rows generalizing storage t with
  | nil =>
    rw [← Except.ok.inj h]
    exact hgroups
  | cons record rest ih =>
    rw [groupRows] at h
    split at h
    · exact absurd h (by simp)
    · rename_i next hnext
      exact ih (fun row hr => hrows row (List.mem_cons_of_mem _ hr))
        (groupRow_in hready hsettles (hrows record List.mem_cons_self) hgroups hnext) h

/-- The value of an item for a group has the type that is announced for it. -/
theorem groupValue_of {key : List Value} {acc : Accumulator} {value : Value}
    (hsum : item.aggregate = .AGG_SUM → (itemType table select.exprs item).isNumber = true)
    (hkey : item.aggregate = .AGG_NONE → ∀ acc value,
      groupValue (planOf table select item) key acc = .ok value →
        value.Of (itemType table select.exprs item))
    (hacc : acc.In table select.exprs item)
    (h : groupValue (planOf table select item) key acc = .ok value) :
    value.Of (planOf table select item).resultType := by
  have hitem : (planOf table select item).item = item := rfl
  have htype : (planOf table select item).type = itemType table select.exprs item := rfl
  unfold ItemPlan.resultType
  rw [hitem, htype]
  cases hagg : item.aggregate with
  | AGG_NONE => exact hkey hagg acc value h
  | AGG_COUNT =>
    unfold groupValue at h
    rw [hitem, hagg] at h
    rw [← Except.ok.inj h]
    exact .inr rfl
  | AGG_AVG =>
    unfold groupValue at h
    rw [hitem, hagg] at h
    dsimp only at h
    split at h
    · rw [← Except.ok.inj h]
      exact .inl rfl
    · rw [← Except.ok.inj h]
      exact .inr rfl
  | AGG_SUM =>
    unfold groupValue at h
    rw [hitem, hagg, htype] at h
    dsimp only at h
    split at h
    · rw [← Except.ok.inj h]
      exact .inl rfl
    · split at h
      · rename_i hfloat
        rw [← Except.ok.inj h]
        exact .inr hfloat.symm
      · rename_i hfloat
        split at h
        · exact absurd h (by simp)
        · rw [← Except.ok.inj h]
          have hnumber := hsum hagg
          cases hint : itemType table select.exprs item with
          | TYPE_INT => exact .inr rfl
          | TYPE_FLOAT => exact absurd hint hfloat
          | TYPE_TEXT | TYPE_DATE =>
            rw [hint] at hnumber
            exact absurd hnumber (by decide)
  | AGG_MIN | AGG_MAX =>
    unfold groupValue at h
    rw [hitem, hagg, htype] at h
    dsimp only at h
    split at h
    · rename_i hseen
      rw [← Except.ok.inj h]
      exact hacc (by rw [hagg]; decide) hseen
    · rw [← Except.ok.inj h]
      exact .inl rfl

/-- The row of a group. -/
theorem groupValues_of {key : List Value} {items : List SelectItem} {accs : List Accumulator}
    {row : Row}
    (hsums : ∀ item ∈ items, item.aggregate = .AGG_SUM →
      (itemType table select.exprs item).isNumber = true)
    (hkey : ∀ item ∈ items, item.aggregate = .AGG_NONE → ∀ acc value,
      groupValue (planOf table select item) key acc = .ok value →
        value.Of (itemType table select.exprs item))
    (haccs : List.Forall₂ (Accumulator.In table select.exprs) items accs)
    (h : groupValues key (items.map (planOf table select)) accs = .ok row) :
    List.Forall₂ Value.Of row ((items.map (planOf table select)).map ItemPlan.resultType) := by
  induction haccs generalizing row with
  | nil =>
    rw [← Except.ok.inj h]
    exact .nil
  | @cons item acc items accs hacc _ ih =>
    rw [List.map_cons, groupValues] at h
    split at h
    · exact absurd h (by simp)
    · rename_i value hvalue
      split at h
      · exact absurd h (by simp)
      · rename_i values hvalues
        rw [← Except.ok.inj h, List.map_cons, List.map_cons]
        exact .cons (groupValue_of (hsums item List.mem_cons_self) (hkey item List.mem_cons_self)
          hacc hvalue) (ih (fun other ho => hsums other (List.mem_cons_of_mem _ ho))
            (fun other ho => hkey other (List.mem_cons_of_mem _ ho)) hvalues)

/-- Every row a grouping answers is made of one of its groups. -/
theorem mem_emitGroups {having : Condition} {sub : Subqueries} {plans : List ItemPlan}
    {groups : List Group} {rows : List Row} {row : Row}
    (h : emitGroups having sub plans groups = .ok rows) (hrow : row ∈ rows) :
    ∃ group ∈ groups, groupValues group.key plans group.accs = .ok row := by
  induction groups generalizing rows with
  | nil =>
    rw [← Except.ok.inj h] at hrow
    exact absurd hrow (by simp)
  | cons group rest ih =>
    rw [emitGroups] at h
    split at h
    · exact absurd h (by simp)
    · rename_i first hfirst
      split at h
      · exact absurd h (by simp)
      · rename_i others hothers
        rw [← Except.ok.inj h] at hrow
        have hmem : row = first ∨ row ∈ others := by
          split at hrow
          · exact List.mem_cons.mp hrow
          · exact .inr hrow
        rcases hmem with rfl | hmem
        · exact ⟨group, List.mem_cons_self, hfirst⟩
        · obtain ⟨found, hfound, hvalues⟩ := ih hothers hmem
          exact ⟨found, List.mem_cons_of_mem _ hfound, hvalues⟩

/-! ### The answer of a grouped SELECT -/

/-- What a grouped answer is made of. -/
theorem projectGroups_parts {memory : GroupMemory} {sub : Subqueries} {rows : List Row}
    {out : ResultSet} (hready : Ready table select groupSlots)
    (h : projectGroups memory sub table select rows = .ok out) :
    ∃ bound groups having, Settles table (fun _ => False) select.exprs bound ∧
      collectGroups memory select.items bound groupSlots rows = .ok groups ∧
      boundHaving (select.items.map (itemHeader table select.exprs)) select.having = .ok having ∧
      emitGroups having sub (select.items.map (planOf table select)) groups = .ok out.rows ∧
      out.types = (select.items.map (planOf table select)).map ItemPlan.resultType := by
  obtain ⟨bound, hplans, hsettles⟩ := planItems_ready (.refl table _ select.exprs) hready.items
  have hheaders : select.items.map (itemHeader table bound) =
      select.items.map (itemHeader table select.exprs) := by
    refine List.map_congr_left fun item _ => ?_
    obtain ⟨hcol, hname⟩ := exprIsColumn_eq hsettles item.expr
    unfold itemHeader
    rw [hcol, hname]
  unfold projectGroups at h
  rw [hready.slots] at h
  dsimp only at h
  rw [hplans] at h
  dsimp only at h
  split at h
  · exact absurd h (by simp)
  · rename_i groups hgroups
    split at h
    · exact absurd h (by simp)
    · rename_i having hhaving
      split at h
      · exact absurd h (by simp)
      · rename_i answered hanswered
        rw [hheaders] at hhaving
        rw [← Except.ok.inj h]
        exact ⟨bound, groups, having, hsettles, hgroups, hhaving, hanswered, rfl⟩

/-- The shortcut is taken by the statements that read nothing. -/
theorem deepestRead_nothing {bound : ExprPool} (hready : Ready table select groupSlots)
    (hsettles : Settles table (fun _ => False) select.exprs bound) :
    deepestRead groupSlots bound select.items < 0 ↔ ReadsNothing select := by
  have hslots : groupSlots = [] ↔ select.groupBy = [] := by
    rw [← List.length_eq_zero_iff, ← List.length_eq_zero_iff,
      (groupBySlots_get hready.slots).1]
  rw [deepestRead_neg, hslots]
  refine and_congr_right fun _ => forall₂_congr fun item hi => ?_
  rw [(hready.items item hi).deepest hsettles]

/-- What is collected holds values of the types of the items, without the shortcut. -/
theorem collectGroups_in {memory : GroupMemory} {bound : ExprPool} {rows : List Row}
    {groups : List Group} (hready : Ready table select groupSlots)
    (hsettles : Settles table (fun _ => False) select.exprs bound)
    (hrows : ∀ row ∈ rows, RowIn table row) (hreads : ¬(ReadsNothing select ∧ rows ≠ []))
    (h : collectGroups memory select.items bound groupSlots rows = .ok groups) :
    ∀ group ∈ groups, group.In table select := by
  have hno : ¬(deepestRead groupSlots bound select.items < 0 ∧ 0 < rows.length) := by
    rw [deepestRead_nothing hready hsettles, List.length_pos_iff]
    exact hreads
  unfold collectGroups at h
  dsimp only at h
  rw [if_neg hno] at h
  split at h
  · exact absurd h (by simp)
  · rename_i t ht
    have hin := groupRows_in hready hsettles hrows (fun group hg => absurd hg (by simp)) ht
    split at h
    · rename_i hempty
      rw [← Except.ok.inj h]
      intro group hgroup
      rw [List.mem_singleton.mp hgroup]
      exact ⟨fun item hi hnone => absurd hnone (hready.aggregated hempty.2 hi),
        accumulators_in memory 0 select.items⟩
    · rw [← Except.ok.inj h]
      exact hin

end

/-! ### What is accepted -/

section
variable {tables : List CatalogNode} {table : CatalogNode} {checked : ParsedSelect}

/-- The item of a sum is a number. -/
theorem checkItem_sum {select : SelectList} {exprs pool : ExprPool} {item : SelectItem}
    (h : checkItem table select exprs item = .ok pool) :
    Settles table (fun _ => False) exprs pool ∧
      (item.aggregate = .AGG_SUM → (itemType table pool item).isNumber = true) := by
  unfold checkItem at h
  by_cases hstar : item.star = true
  · rw [if_pos hstar] at h
    rw [← Except.ok.inj h]
    refine ⟨.refl _ _ _, fun hsum => ?_⟩
    rw [(item.starred hstar).1] at hsum
    exact absurd hsum (by decide)
  · rw [if_neg hstar] at h
    split at h
    · exact absurd h (by simp)
    · rename_i type bound hbound
      obtain ⟨hsettles, hitem⟩ := resolveType_bound hbound
      split at h
      · exact absurd h (by simp)
      · rename_i hnumber
        have hpool : bound = pool := by
          split at h
          · exact Except.ok.inj h
          · split at h
            · exact absurd h (by simp)
            · exact Except.ok.inj h
        subst hpool
        refine ⟨hsettles, fun hsum => ?_⟩
        unfold itemType
        rw [if_neg hstar, hitem.type]
        show type.isNumber = true
        cases htype : type with
        | TYPE_INT | TYPE_FLOAT => rfl
        | TYPE_TEXT | TYPE_DATE =>
          rw [htype] at hnumber
          exact absurd ⟨.inl hsum, by decide, by decide⟩ hnumber

/-- Writing other leaves of the pool leaves an item's type. -/
theorem itemType_settles {exprs pool : ExprPool} (h : Settles table (fun _ => False) exprs pool)
    (item : SelectItem) : itemType table pool item = itemType table exprs item := by
  unfold itemType
  rw [h.typeOf_eq fun _ _ => id]

/-- Every item that sums up has a number as its type. -/
theorem checkItems_sums {select : SelectList} {items : List SelectItem} {exprs pool : ExprPool}
    (h : checkItems table select items exprs = .ok pool) :
    Settles table (fun _ => False) exprs pool ∧ ∀ item ∈ items, item.aggregate = .AGG_SUM →
      (itemType table pool item).isNumber = true := by
  induction items generalizing exprs with
  | nil =>
    rw [← Except.ok.inj h]
    exact ⟨.refl _ _ _, fun item hi => absurd hi (by simp)⟩
  | cons item rest ih =>
    rw [checkItems] at h
    split at h
    · exact absurd h (by simp)
    · rename_i bound hbound
      obtain ⟨hfirst, hsum⟩ := checkItem_sum hbound
      obtain ⟨hrest, hall⟩ := ih h
      refine ⟨(hfirst.trans hrest).mono fun _ hj => hj.elim id id, fun other ho hother => ?_⟩
      rcases List.mem_cons.mp ho with rfl | ho
      · rw [itemType_settles hrest]
        exact hsum hother
      · exact hall other ho hother

/-- `SELECT *` has no items. -/
theorem parseSelectFrom_star {fuel : Nat} {tokens : List Token} {pool pool' : List PooledSelect}
    {select : ParsedSelect} (h : parseSelectFrom fuel tokens pool = .ok (select, pool'))
    (hall : select.selectAll = true) : select.items = [] := by
  cases fuel with
  | zero => exact absurd h (by simp [parseSelectFrom])
  | succ fuel =>
    rw [parseSelectFrom] at h
    unfold parseSelectWith at h
    dsimp only at h
    generalize (if (typeAt (tokens.drop 1) 0 == .TOKEN_KEYWORD_DISTINCT) = true then
      (tokens.drop 1).drop 1 else tokens.drop 1) = inner at h
    obtain ⟨⟨selectAll, items, behind, exprs⟩, hlist, h⟩ := bind_ok h
    dsimp only at h
    split at h
    · exact absurd h (by simp)
    · obtain ⟨_, -, h⟩ := bind_ok h
      obtain ⟨_, -, h⟩ := bind_ok h
      obtain ⟨_, -, h⟩ := bind_ok h
      obtain ⟨_, -, h⟩ := bind_ok h
      obtain ⟨_, -, h⟩ := bind_ok h
      obtain ⟨_, -, h⟩ := bind_ok h
      obtain ⟨_, -, h⟩ := bind_ok h
      obtain ⟨rfl, -⟩ := Prod.mk.inj (Except.ok.inj h)
      change selectAll = true at hall
      unfold parseSelectList at hlist
      split at hlist
      · exact (Prod.mk.inj (Prod.mk.inj (Except.ok.inj hlist)).2).1.symm
      · obtain ⟨_, -, heq⟩ := map_ok hlist
        rw [← (Prod.mk.inj heq).1] at hall
        exact absurd hall (by decide)

/-- A grouped SELECT that was accepted. -/
theorem AcceptedSelect.ready (h : AcceptedSelect tables checked)
    (hschema : selectSchema tables checked = .ok table)
    (hgrouped : ¬(checked.groupBy = [] ∧ checked.hasAggregate = false)) :
    ∃ groupSlots, Ready table checked.toSelectList groupSlots ∧
      ∀ item ∈ checked.items, item.aggregate = .AGG_SUM →
        (itemType table checked.exprs item).isNumber = true := by
  obtain ⟨fuel, tokens, pool, select, pool', depth, checking, checking', hslots, hparse, hcheck⟩ :=
    h
  obtain ⟨conditions, exprs, hshape⟩ := checkSelectFrom_shape hcheck
  cases depth with
  | zero => exact absurd hcheck (by simp [Query.checkSelectFrom])
  | succ depth =>
    unfold Query.checkSelectFrom at hcheck
    split at hcheck
    · exact absurd hcheck (by simp)
    · rename_i table' hschema'
      have htable : table' = table := by
        rw [hshape] at hschema
        exact Except.ok.inj (hschema'.symm.trans hschema)
      subst htable
      dsimp only at hcheck
      split at hcheck
      · exact absurd hcheck (by simp)
      · split at hcheck
        · exact absurd hcheck (by simp)
        · rename_i wher _ _
          obtain ⟨list, hlist, heq⟩ := map_ok hcheck
          obtain rfl := (Prod.mk.inj heq).1
          unfold Query.checkList at hlist
          split at hlist
          · exact absurd hlist (by simp)
          · rename_i hby
            split at hlist
            · rename_i hall
              -- a star is not grouped
              split at hlist
              · exact absurd hlist (by simp)
              · rename_i hno
                split at hlist
                · exact absurd hlist (by simp)
                · rw [← Except.ok.inj hlist] at hgrouped
                  refine absurd ⟨not_not.mp hno, ?_⟩ hgrouped
                  show select.toSelectList.items.any _ = false
                  rw [show select.toSelectList.items = [] from parseSelectFrom_star hparse hall]
                  rfl
            · split at hlist
              · exact absurd hlist (by simp)
              · obtain ⟨bound, hitems, rfl⟩ := map_ok hlist
                obtain ⟨slots, hslots'⟩ := checkGroupBy_slots hby
                have hgrouped' :
                    ({ select with wher := wher } : ParsedSelect).toSelectList.groupBy ≠ [] ∨
                    ({ select with wher := wher } : ParsedSelect).toSelectList.hasAggregate =
                      true := by
                  by_contra hno
                  rw [not_or, not_not, Bool.not_eq_true] at hno
                  exact hgrouped hno
                obtain ⟨-, hready⟩ := checkItems_ready hgrouped' hitems
                exact ⟨slots, ⟨hslots', fun item hi => ⟨(hready item hi).typed,
                  (hready item hi).stamped, (hready item hi).grouped⟩⟩, (checkItems_sums hitems).2⟩

end

/-! ### A SELECT that reads nothing -/

/-- For a minimum or a maximum over a constant the thread has kept a value of another type. -/
def StaleExtreme (memory : GroupMemory) (table : CatalogNode) (select : SelectList) : Prop :=
  ∃ c item, select.items[c]? = some item ∧
    (item.aggregate = .AGG_MIN ∨ item.aggregate = .AGG_MAX) ∧
      ¬(memory.accumulatorAt 0 c).extreme.Of (itemType table select.exprs item)

section
variable {memory : GroupMemory} {table : CatalogNode} {select : SelectList}
  {groupSlots : List Nat} {row : Row}

/-- The row that is answered without reading has the types that are announced unless the thread has
kept something else. -/
theorem constant_typed_iff (hready : Ready table select groupSlots) (hslots : groupSlots = [])
    (hsums : ∀ item ∈ select.items, item.aggregate = .AGG_SUM →
      (itemType table select.exprs item).isNumber = true) {n : Nat}
    (hvalues : groupValues [] (select.items.map (planOf table select))
      (memory.accumulators 0 n true select.items) = .ok row) :
    List.Forall₂ Value.Of row ((select.items.map (planOf table select)).map ItemPlan.resultType) ↔
      ¬StaleExtreme memory table select := by
  constructor
  · rintro htyped ⟨c, item, hc, hagg, hstale⟩
    have hacc := accumulators_get memory n select.items hc
    obtain ⟨-, hget⟩ := groupValues_get hvalues (by simp [GroupMemory.accumulators])
    obtain ⟨value, hvalue, hgroup⟩ := hget c item _ hc hacc
    have hof := (List.forall₂_iff_get.mp htyped).2 c (List.getElem?_eq_some_iff.mp hvalue).1
      (by simpa using (List.getElem?_eq_some_iff.mp hc).1)
    have htype : (((select.items.map (planOf table select)).map ItemPlan.resultType)[c]?) =
        some (itemType table select.exprs item) := by
      rw [List.map_map, List.getElem?_map, hc]
      show some (planOf table select item).resultType = _
      unfold ItemPlan.resultType
      have hitem : (planOf table select item).item = item := rfl
      rw [hitem]
      rcases hagg with hagg | hagg
      · rw [hagg]
        rfl
      · rw [hagg]
        rfl
    have hextreme : value = (memory.accumulatorAt 0 c).extreme := by
      unfold groupValue at hgroup
      have hitem : (planOf table select item).item = item := rfl
      rw [hitem] at hgroup
      rcases hagg with hagg | hagg
      · rw [hagg] at hgroup
        exact (Except.ok.inj hgroup).symm
      · rw [hagg] at hgroup
        exact (Except.ok.inj hgroup).symm
    rw [List.get_eq_getElem, List.get_eq_getElem,
      (List.getElem?_eq_some_iff.mp hvalue).2, (List.getElem?_eq_some_iff.mp htype).2,
      hextreme] at hof
    exact hstale hof
  · intro hfresh
    refine groupValues_of hsums
      (fun item hi hnone => absurd hnone (hready.aggregated hslots hi)) ?_ hvalues
    unfold GroupMemory.accumulators
    rw [List.forall₂_map_right_iff, List.forall₂_iff_get]
    refine ⟨by simp, fun c hc _ hagg _ => ?_⟩
    rw [List.get_eq_getElem, List.get_eq_getElem, List.getElem_range]
    by_contra hstale
    exact hfresh ⟨c, _, List.getElem?_eq_getElem hc, hagg, hstale⟩

end

/-- A SELECT that reads nothing answers its one row, with a minimum or a maximum that the thread
has kept of another type. -/
structure AnswersStale (statics : Statics) (sub : Subqueries) (table : CatalogNode)
    (select : ParsedSelect) (kept : List Row) : Prop where
  reads : ReadsNothing select.toSelectList
  rows : kept ≠ []
  stale : StaleExtreme statics.memory table select.toSelectList
  answered : ∃ row having,
    groupValues [] (select.items.map (planOf table select.toSelectList))
      (statics.memory.accumulators 0 kept.length true select.items) = .ok row ∧
    boundHaving (select.items.map (itemHeader table select.exprs)) select.having = .ok having ∧
    havingKeeps having sub row = true
  limit : select.limit ≠ some 0

section
variable {data : Data} {statics : Statics} {sub : Subqueries} {select : ParsedSelect}
  {table : CatalogNode} {rows kept : List Row} {projected out : ResultSet}

/-- Before DISTINCT, ORDER BY and LIMIT. -/
theorem projectSelect_announced
    (haccepted : AcceptedSelect (data.tables.map StoredTable.node) select)
    (hschema : selectSchema (data.tables.map StoredTable.node) select = .ok table)
    (hkept : ∀ row ∈ kept, RowIn table row)
    (h : projectSelect statics sub table select kept = .ok projected) :
    projected.Announced ∧ ¬(ReadsNothing select.toSelectList ∧ kept ≠ [] ∧
        StaleExtreme statics.memory table select.toSelectList) ∨
      ReadsNothing select.toSelectList ∧ kept ≠ [] ∧ ∃ row having,
        groupValues [] (select.items.map (planOf table select.toSelectList))
          (statics.memory.accumulators 0 kept.length true select.items) = .ok row ∧
        boundHaving (select.items.map (itemHeader table select.exprs)) select.having =
          .ok having ∧
        projected.rows = (if havingKeeps having sub row then [row] else []) ∧
        (List.Forall₂ Value.Of row projected.types ↔
          ¬StaleExtreme statics.memory table select.toSelectList) := by
  unfold projectSelect at h
  split at h
  · rename_i hplain
    refine .inl ⟨projectRows_announced hkept h, ?_⟩
    rintro ⟨-, -, c, item, hc, hagg, -⟩
    -- there is no aggregate here
    have hnone := hplain.2
    unfold SelectList.hasAggregate at hnone
    rw [List.any_eq_false] at hnone
    have hitem := hnone item (List.mem_of_getElem? hc)
    simp only [ne_eq, decide_not, Bool.not_eq_true', decide_eq_false_iff_not, not_not] at hitem
    rw [hitem] at hagg
    exact absurd hagg (by decide)
  · rename_i hgrouped
    obtain ⟨groupSlots, hready, hsums⟩ := haccepted.ready hschema hgrouped
    obtain ⟨bound, groups, having, hsettles, hgroups, hhaving, hemit, htypes⟩ :=
      projectGroups_parts hready h
    by_cases hshort : ReadsNothing select.toSelectList ∧ kept ≠ []
    · refine .inr ⟨hshort.1, hshort.2, ?_⟩
      have hslots : groupSlots = [] := by
        rw [← List.length_eq_zero_iff, (groupBySlots_get hready.slots).1, hshort.1.1]
        rfl
      have hneg : deepestRead groupSlots bound select.items < 0 ∧ 0 < kept.length :=
        ⟨(deepestRead_nothing hready hsettles).mpr hshort.1, List.length_pos_iff.mpr hshort.2⟩
      unfold collectGroups at hgroups
      dsimp only at hgroups
      rw [if_pos hneg] at hgroups
      rw [← Except.ok.inj hgroups, emitGroups] at hemit
      split at hemit
      · exact absurd hemit (by simp)
      · rename_i row hrow
        rw [emitGroups] at hemit
        refine ⟨row, having, hrow, hhaving, (Except.ok.inj hemit).symm, ?_⟩
        rw [htypes]
        exact constant_typed_iff hready hslots hsums hrow
    · refine .inl ⟨fun row hrow => ?_, fun hno => hshort ⟨hno.1, hno.2.1⟩⟩
      have hin := collectGroups_in hready hsettles hkept hshort hgroups
      obtain ⟨group, hgroup, hvalues⟩ := mem_emitGroups hemit hrow
      rw [htypes]
      exact groupValues_of hsums (hin group hgroup).key (hin group hgroup).accs hvalues

/-- Every value of a SELECT has the type that its column announces, unless the SELECT answers from
what the thread has kept; a join must not lose a record to its own slot. -/
theorem answerSelect_announced (hdata : data.Typed) (hfits : JoinFits data statics sub select)
    (haccepted : AcceptedSelect (data.tables.map StoredTable.node) select)
    (hsource : selectSource data statics sub select = .ok (table, rows))
    (hkept : collectSelect data table rows sub select.wher (stopAt select) = .ok kept)
    (h : answerSelect data statics sub select = .ok out) :
    out.Announced ↔ ¬AnswersStale statics sub table select kept := by
  have hrows := collectSelect_typed hdata hfits hsource hkept
  unfold answerSelect at h
  rw [hsource] at h
  dsimp only at h
  rw [hkept] at h
  dsimp only at h
  split at h
  · exact absurd h (by simp)
  · rename_i projected hprojected
    obtain ⟨ordered, hordered, rfl⟩ := map_ok h
    obtain ⟨htypes, hmem⟩ := finish_mem hordered
    rcases projectSelect_announced haccepted (selectSource_schema hsource) hrows hprojected with
      ⟨hannounced, hno⟩ | ⟨hreads, hne, row, having, hvalues, hhaving, hanswered, htyped⟩
    · refine ⟨fun _ hstale => hno ⟨hstale.reads, hstale.rows, hstale.stale⟩, fun _ => ?_⟩
      intro row hrow
      rw [htypes]
      exact hannounced row (hmem row hrow)
    · cases hkeeps : havingKeeps having sub row with
      | false =>
        rw [hkeeps, if_neg (by decide)] at hanswered
        constructor
        · rintro - ⟨-, -, -, ⟨row', having', hvalues', hhaving', hkeeps'⟩, -⟩
          obtain rfl := Except.ok.inj (hvalues.symm.trans hvalues')
          obtain rfl := Except.ok.inj (hhaving.symm.trans hhaving')
          exact absurd (hkeeps.symm.trans hkeeps') (by decide)
        · intro _ other hother
          have hnone := hmem other hother
          rw [hanswered] at hnone
          exact absurd hnone (by simp)
      | true =>
        rw [hkeeps, if_pos rfl] at hanswered
        have hfinished := finish_single hanswered hordered
        unfold ResultSet.Announced
        rw [hfinished, htypes]
        by_cases hlimit : select.limit = some 0
        · rw [if_pos hlimit]
          exact ⟨fun _ hstale => hstale.limit hlimit, fun _ other ho => absurd ho (by simp)⟩
        · rw [if_neg hlimit, List.forall_mem_singleton, htyped]
          refine not_congr ⟨fun hstale => ?_, AnswersStale.stale⟩
          exact ⟨hreads, hne, hstale, ⟨row, having, hvalues, hhaving, hkeeps⟩, hlimit⟩

end

/-! ### Expressions and SELECTs -/

/-- An accepted expression comes to what its type promises unless it meets a remainder over a
double; and the values of a SELECT have the types of their columns unless it answers from what the
thread has kept, as long as every row of a join comes back from the join heap. -/
theorem types_sound_iff (table : CatalogNode) (pool pool' : ExprPool) (i : Int32) (type : ColType)
    (row : Row) (data : Data) (statics : Statics) (sub : Subqueries) (select : ParsedSelect)
    (out : ResultSet) :
    (table.cols.length ≤ MAX_COLS → Admitted table pool i type pool' → RowOf table row →
      ∃ tree, OperandTree.At pool' row i tree ∧
        (Yields type (exprEvaluate pool' i row) ↔ ¬tree.FloatRemainder)) ∧
    (data.Typed → AcceptedSelect (data.tables.map StoredTable.node) select →
      JoinFits data statics sub select → answerSelect data statics sub select = .ok out →
        ∃ table rows kept, selectSource data statics sub select = .ok (table, rows) ∧
          collectSelect data table rows sub select.wher (stopAt select) = .ok kept ∧
          (out.Announced ↔ ¬AnswersStale statics sub table select kept)) := by
  constructor
  · intro hwidth hadmitted hrow
    exact exprEvaluate_yields hwidth hadmitted hrow
  · intro hdata haccepted hfits h
    cases hsource : selectSource data statics sub select with
    | error code =>
      unfold answerSelect at h
      rw [hsource] at h
      exact absurd h (by simp)
    | ok source =>
      cases hkept : collectSelect data source.1 source.2 sub select.wher (stopAt select) with
      | error code =>
        unfold answerSelect at h
        rw [hsource] at h
        dsimp only at h
        rw [hkept] at h
        exact absurd h (by simp)
      | ok kept =>
        exact ⟨source.1, source.2, kept, rfl, hkept,
          answerSelect_announced hdata hfits haccepted hsource hkept h⟩

/-- The table `a(x)` and a row of it. -/
def tableOfA : CatalogNode := (numbered "a" "x" [1]).node

/-- The row of 7. -/
def rowOfSeven : Row := [{ zeroValue with intValue := 7 }]

/-- An expression of a select list, as it is accepted over `a`, with its type. -/
def admittedOver (sql : String) (i : Int32) : ColType × ExprPool :=
  (resolveType tableOfA (threeTables.select sql).exprs i).toOption.getD (.TYPE_INT, [])

/-- An expression of a SELECT whose type is found is admitted. -/
theorem admittedOver_admitted {sql : String} {i : Int32}
    (h : (resolveType tableOfA (threeTables.select sql).exprs i).toOption.isSome = true) :
    Admitted tableOfA (threeTables.select sql).exprs i (admittedOver sql i).1
      (admittedOver sql i).2 :=
  .checked (getD_ok h)

/-- The rows of a table of numbers are of its columns' types. -/
theorem numbered_rows (name column : String) (numbers : List Int32) :
    ∀ row ∈ (numbered name column numbers).rows, RowIn (numbered name column numbers).node row := by
  intro row hrow
  obtain ⟨n, -, rfl⟩ := List.mem_map.mp hrow
  exact rowIn_iff.mpr (.cons (.inr rfl) .nil)

/-- All rows of the three tables are of their columns' types. -/
theorem threeTables_typed : threeTables.Typed where
  rows stored hstored := by
    simp only [threeTables, List.mem_cons, List.not_mem_nil, or_false] at hstored
    rcases hstored with rfl | rfl | rfl
    · exact numbered_rows _ _ _
    · exact numbered_rows _ _ _
    · exact numbered_rows _ _ _
  indexed index hindex := absurd hindex (by simp [threeTables])
  unjoined index hindex := absurd hindex (by simp [threeTables])

/-- A join of rows that are small enough. -/
theorem joinFits_small {data : Data} {statics : Statics} {sub : Subqueries} {select : ParsedSelect}
    {schema : CatalogNode}
    (hschema : buildJoinSchema (data.tables.map StoredTable.node) select.tables = .ok schema)
    (hsmall : ∀ row ∈ (joinedRows data statics sub schema select).toOption.getD [],
      recordSize row ≤ FITTING) : JoinFits data statics sub select := by
  intro schema' rows _ hschema' hrows row hrow
  obtain rfl := Except.ok.inj (hschema.symm.trans hschema')
  rw [hrows] at hsmall
  exact hsmall row hrow

/-- A join that groups. -/
def groupedJoin : ParsedSelect := threeTables.select "select a.x, max(b.y) from a, b group by a.x"

/-- The schema of the grouped join. -/
def groupedJoinSchema : CatalogNode :=
  (buildJoinSchema (threeTables.tables.map StoredTable.node) groupedJoin.tables).toOption.getD
    tableOfA

/-- The grouped join passes the checks, has a GROUP BY, joins rows that are not too long for the join
heap, and answers rows. -/
theorem groupedJoin_runs :
    (acceptSelect (threeTables.tables.map StoredTable.node)
        (ascii "select a.x, max(b.y) from a, b group by a.x")).toOption.isSome = true ∧
      groupedJoin.toSelectList.groupBy ≠ [] ∧
      (buildJoinSchema (threeTables.tables.map StoredTable.node)
        groupedJoin.tables).toOption.isSome = true ∧
      (∀ row ∈ (joinedRows threeTables freshStatics (fun _ => []) groupedJoinSchema
        groupedJoin).toOption.getD [], recordSize row ≤ FITTING) ∧
      (answerSelect threeTables freshStatics (fun _ => []) groupedJoin).toOption.isSome = true ∧
      ((answerSelect threeTables freshStatics (fun _ => []) groupedJoin).toOption.getD
        { headers := [], types := [], rows := [] }).rows ≠ [] := by
  decide +kernel

/-- On the row of 7, `x + 1` is admitted and an INT of 8. -/
theorem sumOfSeven_value :
    (resolveType tableOfA (threeTables.select "select x + 1 from a").exprs 2).toOption.isSome
        = true ∧
      (admittedOver "select x + 1 from a" 2).1 = .TYPE_INT ∧
      exprEvaluate (admittedOver "select x + 1 from a" 2).2 2 rowOfSeven =
        .ok { zeroValue with intValue := 8 } := by
  decide +kernel

/-- `x + 1`, in which no remainder is met, and a join, which answers from what it has read. -/
theorem types_sound_iff_grouped :
    (∃ tree, OperandTree.At (admittedOver "select x + 1 from a" 2).2 rowOfSeven 2 tree ∧
      ¬tree.FloatRemainder ∧ (admittedOver "select x + 1 from a" 2).1 = .TYPE_INT ∧
        exprEvaluate (admittedOver "select x + 1 from a" 2).2 2 rowOfSeven =
          .ok { zeroValue with intValue := 8 }) ∧
    ∃ out table kept, answerSelect threeTables freshStatics (fun _ => []) groupedJoin = .ok out ∧
      out.rows ≠ [] ∧ ¬AnswersStale freshStatics (fun _ => []) table groupedJoin kept ∧
        out.Announced := by
  have hrow : RowOf tableOfA rowOfSeven :=
    (numbered_rows "a" "x" [7] rowOfSeven List.mem_cons_self).typed
  obtain ⟨haccepted, hgrouped, hschema, hsmall, hanswered, hne⟩ := groupedJoin_runs
  obtain ⟨hadmitted, hvalue⟩ := sumOfSeven_value
  have hfits : JoinFits threeTables freshStatics (fun _ => []) groupedJoin :=
    joinFits_small (getD_ok hschema) hsmall
  have hout := @getD_ok _ _ _ { headers := [], types := [], rows := [] } hanswered
  generalize (answerSelect threeTables freshStatics (fun _ => []) groupedJoin).toOption.getD
    { headers := [], types := [], rows := [] } = out at hout hne
  have hsound := fun pool pool' type => types_sound_iff tableOfA pool pool' 2 type rowOfSeven
    threeTables freshStatics (fun _ => []) groupedJoin out
  have hmeets : ∀ pool pool' type, Admitted tableOfA pool 2 type pool' → type = .TYPE_INT →
      exprEvaluate pool' 2 rowOfSeven = .ok { zeroValue with intValue := 8 } →
      ∃ tree, OperandTree.At pool' rowOfSeven 2 tree ∧ ¬tree.FloatRemainder := by
    intro pool pool' type hadmitted htype hvalue
    obtain ⟨tree, hat, hiff⟩ := (hsound pool pool' type).1 (by decide) hadmitted hrow
    rw [htype, hvalue] at hiff
    exact ⟨tree, hat, hiff.mp (Or.inr rfl)⟩
  constructor
  · obtain ⟨tree, hat, hmet⟩ := hmeets _ _ _ (admittedOver_admitted hadmitted) hvalue.1 hvalue.2
    exact ⟨tree, hat, hmet, hvalue⟩
  · obtain ⟨table, rows, kept, -, -, hiff⟩ :=
      (hsound [] [] .TYPE_INT).2 threeTables_typed (Data.select_accepted haccepted) hfits hout
    have hreads : ¬AnswersStale freshStatics (fun _ => []) table groupedJoin kept :=
      fun hstale => hgrouped hstale.reads.1
    exact ⟨out, table, kept, hout, hne, hreads, hiff.mpr hreads⟩

/-- A table of one text of 4083 bytes. -/
def longText (name column : String) : StoredTable where
  node :=
    { (numbered name column []).node with
      cols := (numbered name column []).node.cols.map fun c => { c with type := .TYPE_TEXT } }
  rows := [[setText (List.replicate 4083 97)]]

/-- Two tables of one long text each. -/
def twoLongTexts : Data :=
  { tables := [longText "a" "s", longText "b" "t"]
    indexes := []
    candidates := fun _ _ _ => .ok [] }

/-- `x % 1.5` is accepted as a FLOAT and refused for its types when it is computed; the column of
`SELECT max('x')` is a TEXT that holds an INT; and so is the first column of a join whose record of
8176 bytes is written over by its own slot. -/
theorem types_unsound :
    (admittedOver "select x % 1.5 from a" 2).1 = .TYPE_FLOAT ∧
      exprEvaluate (admittedOver "select x % 1.5 from a" 2).2 2 rowOfSeven =
        .error .SEMANTIC_TYPE_MISMATCH ∧
      (answerSelect threeTables freshStatics (fun _ => [])
          (threeTables.select "select max('x') from a")).map (fun out => (out.types, out.rows)) =
        .ok ([.TYPE_TEXT], [[zeroValue]]) ∧
      (answerSelect twoLongTexts freshStatics (fun _ => [])
          (twoLongTexts.select "select * from a, b")).map (fun out => (out.types, out.rows)) =
        .ok ([.TYPE_TEXT, .TYPE_TEXT],
          [[{ zeroValue with intValue := 8176 }, setNull .TYPE_TEXT]]) ∧
      ¬zeroValue.Of .TYPE_TEXT ∧ ¬({ zeroValue with intValue := 8176 } : Value).Of .TYPE_TEXT := by
  decide +kernel

end DatabaseEngine
