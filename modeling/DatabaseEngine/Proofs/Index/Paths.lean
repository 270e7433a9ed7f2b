import DatabaseEngine.Model.Answer
import DatabaseEngine.Proofs.Heap.Decoding
import DatabaseEngine.Proofs.Index.Building
import DatabaseEngine.Proofs.Parser.Conditions
import DatabaseEngine.Proofs.Select.Like

/-!
# `DatabaseEngine.Proofs.Index.Paths`: the rows that an index answers

A SELECT narrows a scan by one comparison that the tree of an index can answer. What it takes from
the index is more than the comparison holds of, and the condition is evaluated on each row that was
found, so the rows are those of a scan of the table, in the order of the tree.

* `findIndexableLeaf_spec`: the comparison holds wherever the condition does.
* `pathVerdict_of_true`: the index takes every row on which the comparison holds.
* `keepRows_eq`: what is kept of some rows does not depend on their order.
* `indexPath_spec`: the rows of a SELECT by an index are those of a scan.
-/

set_option autoImplicit false

namespace DatabaseEngine

open Library

/-- What the index is asked by the path that `collectRows` chooses. -/
def candidateScan (index : Index) (op : CompareOp) (key : Value) (maxRows : Int) :
    PageM Bytes (Except ErrorCode (List Nat)) :=
  if op = .OP_LIKE then indexPrefixScan index (likePrefix key.text) maxRows
  else indexScan index op key maxRows

/-- The test of that scan. -/
def pathVerdict (op : CompareOp) (key : Value) : StoredKey → Verdict :=
  if op = .OP_LIKE then prefixVerdict (makeKey (setText (likePrefix key.text)))
  else scanVerdict op (makeKey key)

/-- The values of a column, with the positions of their rows. -/
def columnValues (slot : Nat) (rows : List Row) : List (Value × Nat) :=
  rows.zipIdx.map fun (row, i) => (row.value slot, i)

/-- The rows at some positions. -/
def listedRows (rows : List Row) (positions : List Nat) : List Row :=
  positions.filterMap fun i => rows[i]?

/-- The pages of an index hold a tree of what some rows have in its column. -/
def IndexOf (s : Store Bytes) (type : ColType) (index : Index) (rows : List Row) : Prop :=
  ∃ t ids, IndexStored s type index t ids ∧
    t.2.entries.Perm (indexEntries type (columnValues index.slot rows))

/-- The comparison that a bound condition is narrowed by, the index that answers it, and the value
that is looked for, which the check of its type has fitted to the column. -/
structure IndexPath (indexes : List Index) (table : CatalogNode) (wher : Condition)
    (predicate : Predicate) (index : Index) (key : Value) : Prop where
  leaf : findIndexableLeaf indexes table.table wher wher.nodes.length wher.root = some predicate
  found : findIndexOn indexes table.table (exprColumn wher.exprs predicate.left) = some index
  column : ∀ node, wher.exprs.node predicate.left = some node → node.slot = index.slot
  literal : exprLiteral wher.exprs predicate.right = some key
  type : key.type = table.columnType index.slot
  pattern : predicate.op = .OP_LIKE → key.type = .TYPE_TEXT
  exact : key.type ≠ .TYPE_FLOAT

/-! ### The comparison -/

section
variable {indexes : List Index} {table : Name} {cond : Condition} {predicate : Predicate}
  {sub : Subqueries} {row : Row}

/-- Both sides of an AND that is TRUE are. -/
theorem TriState.and_true {s t : TriState} (h : s.and t = .TRI_TRUE) :
    s = .TRI_TRUE ∧ t = .TRI_TRUE := by
  cases s <;> cases t <;> first | exact ⟨rfl, rfl⟩ | exact absurd h (by decide)

/-- A condition is narrowed by a comparison of a column that holds wherever the condition does. -/
theorem findIndexableLeaf_spec {fuel : Nat} {i : Int32}
    (h : findIndexableLeaf indexes table cond fuel i = some predicate) :
    (∃ node ∈ cond.nodes, node.compare = predicate) ∧
      exprIsColumn cond.exprs predicate.left = true ∧
      (indexableOperator predicate.op = true ∨ predicate.op = .OP_LIKE) ∧
      (evaluateConditionFrom fuel cond sub i row = .TRI_TRUE →
        evaluatePredicate cond.exprs sub predicate row = .TRI_TRUE) := by
  induction fuel generalizing i with
  | zero => exact absurd h (by simp [findIndexableLeaf])
  | succ fuel ih =>
    rw [findIndexableLeaf] at h
    rw [evaluateConditionFrom]
    cases hnode : cond.node i with
    | none =>
      rw [hnode] at h
      exact absurd h (by simp)
    | some node =>
      rw [hnode] at h
      dsimp only at h ⊢
      cases hkind : node.kind with
      | COND_COMPARE =>
        rw [hkind] at h
        dsimp only at h ⊢
        have hin : node ∈ cond.nodes := by
          unfold Condition.node at hnode
          split at hnode
          · exact absurd hnode (by simp)
          · exact List.mem_of_getElem? hnode
        split at h
        · exact absurd h (by simp)
        · split at h
          · exact absurd h (by simp)
          · rename_i hcolumn
            have hcolumn' : exprIsColumn cond.exprs node.compare.left = true := by simpa using hcolumn
            split at h
            · exact absurd h (by simp)
            · split at h
              · rename_i hop
                obtain rfl := Option.some.inj h
                exact ⟨⟨node, hin, rfl⟩, hcolumn', .inl hop, id⟩
              · split at h
                · rename_i hlike
                  obtain rfl := Option.some.inj h
                  exact ⟨⟨node, hin, rfl⟩, hcolumn', .inr hlike.1, id⟩
                · exact absurd h (by simp)
      | COND_NOT =>
        rw [hkind] at h
        exact absurd h (by simp)
      | COND_OR =>
        rw [hkind] at h
        exact absurd h (by simp)
      | COND_AND =>
        rw [hkind] at h
        dsimp only at h ⊢
        rcases Option.or_eq_some_iff.mp h with h | ⟨-, h⟩
        · obtain ⟨hin, hcolumn, hop, hholds⟩ := ih h
          exact ⟨hin, hcolumn, hop, fun htrue => hholds (TriState.and_true htrue).1⟩
        · obtain ⟨hin, hcolumn, hop, hholds⟩ := ih h
          exact ⟨hin, hcolumn, hop, fun htrue => hholds (TriState.and_true htrue).2⟩

/-- A comparison of a column with a literal holds of the value that the row has there. -/
theorem evaluatePredicate_column {exprs : ExprPool} {key : Value} {slot : Nat}
    (hcolumn : exprIsColumn exprs predicate.left = true)
    (hslot : ∀ node, exprs.node predicate.left = some node → node.slot = slot)
    (hkey : exprLiteral exprs predicate.right = some key) (hsingle : predicate.Single)
    (hop : indexableOperator predicate.op = true ∨ predicate.op = .OP_LIKE)
    (htrue : evaluatePredicate exprs sub predicate row = .TRI_TRUE) :
    comparePredicate (row.value slot) key predicate.op = .TRI_TRUE := by
  have hright : ¬predicate.right < 0 := by
    intro hneg
    obtain ⟨node, hnode, -⟩ := exprLiteral_some hkey
    unfold ExprPool.node at hnode
    rw [if_pos hneg] at hnode
    exact absurd hnode (by simp)
  have hsub : ¬0 ≤ predicate.subquery := fun hpos => hright (hsingle hpos)
  have hops := indexable_op hop
  unfold evaluatePredicate at htrue
  rw [if_neg hops.1] at htrue
  cases hleft : exprEvaluate exprs predicate.left row with
  | error code =>
    rw [hleft] at htrue
    exact absurd htrue (by simp)
  | ok left =>
    rw [hleft] at htrue
    dsimp only at htrue
    rw [if_neg (by simp [hops.2.1, hops.2.2.1]), if_neg hops.2.2.2, if_neg hsub,
      exprEvaluate_literal hkey] at htrue
    -- the column is bound to its position
    unfold exprIsColumn at hcolumn
    split at hcolumn
    · rename_i node hnode
      have hkind : node.kind = .EXPR_COLUMN := by simpa using hcolumn
      unfold exprEvaluate at hleft
      rw [exprEvaluateFrom, hnode] at hleft
      dsimp only at hleft
      rw [hkind] at hleft
      dsimp only at hleft
      split at hleft
      · exact absurd hleft (by simp)
      · obtain rfl := Except.ok.inj hleft
        rw [hslot node hnode] at htrue
        exact htrue
    · exact absurd hcolumn (by simp)

end

/-! ### The index -/

/-- The index takes every row on which the comparison holds. -/
theorem pathVerdict_of_true {value key : Value} {op : CompareOp} (htype : value.type = key.type)
    (hfloat : key.type ≠ .TYPE_FLOAT) (hop : indexableOperator op = true ∨ op = .OP_LIKE)
    (hpattern : op = .OP_LIKE → key.type = .TYPE_TEXT)
    (htrue : comparePredicate value key op = .TRI_TRUE) :
    pathVerdict op key (makeKey value) = .take := by
  unfold pathVerdict
  split
  · rename_i hlike
    subst hlike
    have htext : value.type = .TYPE_TEXT := htype.trans (hpattern rfl)
    -- the head of the pattern is the front of the text
    have hprefix : likePrefix key.text <+: value.text := by
      unfold comparePredicate at htrue
      rw [if_neg (by decide), if_neg (by decide)] at htrue
      split at htrue
      · exact absurd htrue (by decide)
      · rw [if_neg (by simp [htype])] at htrue
        refine likePrefix_prefix ?_
        dsimp only at htrue
        unfold TriState.ofBool at htrue
        split at htrue
        · assumption
        · exact absurd htrue (by decide)
    obtain ⟨rest, hrest⟩ := hprefix
    rw [prefixVerdict_eq htext, ← hrest]
    have hsame : (likePrefix key.text ++ rest).take (min (likePrefix key.text).length INDEX_KEY_MAX)
        = (likePrefix key.text).take INDEX_KEY_MAX := by
      rw [List.take_append_of_le_length (Nat.min_le_left _ _)]
      rcases Nat.le_total (likePrefix key.text).length INDEX_KEY_MAX with hle | hle
      · rw [Nat.min_eq_left hle, List.take_length, List.take_of_length_le hle]
      · rw [Nat.min_eq_right hle]
    have hself : compareText ((likePrefix key.text).take INDEX_KEY_MAX)
        ((likePrefix key.text).take INDEX_KEY_MAX) = .eq := Std.ReflCmp.compare_self
    rw [hsame, hself]
    rfl
  · rename_i hlike
    exact scanVerdict_of_true htype (htype ▸ hfloat) (hop.resolve_right hlike) htrue

section
variable {type : ColType} {zero : Bytes} {s : Store Bytes} {index : Index} {op : CompareOp}
  {key : Value} {maxRows : Int} {rows : List Row}

/-- What the index answers. -/
theorem candidateScan_spec {t : BTree.Root (ColumnKey type) UInt32} {ids : List Nat} (hs : s.Sound)
    (h : IndexStored s type index t ids) (hkey : key.type = type)
    (hpattern : op = .OP_LIKE → key.type = .TYPE_TEXT) :
    (candidateScan index op key maxRows).wp zero (fun r s' => s' = s ∧
      r = capped maxRows (taken (pathVerdict op key) (leafEntries t))) s := by
  unfold candidateScan pathVerdict
  split
  · rename_i hlike
    obtain rfl : type = .TYPE_TEXT := hkey.symm.trans (hpattern hlike)
    exact indexPrefixScan_spec hs h (likePrefix key.text)
  · exact indexScan_spec hs h op hkey

/-- The rows at the positions of the values that pass a test. -/
theorem listedRows_columnValues (slot : Nat) (keep : Value → Bool) :
    listedRows rows (((columnValues slot rows).filter fun v => keep v.1).map Prod.snd) =
      rows.filter fun row => keep (row.value slot) := by
  have hat : ∀ (front behind : List Row), rows = front ++ behind →
      listedRows rows ((((behind.zipIdx front.length).map fun (row, i) =>
        ((row.value slot, i) : Value × Nat)).filter fun v => keep v.1).map Prod.snd) =
        behind.filter fun row => keep (row.value slot) := by
    intro front behind hsplit
    induction behind generalizing front with
    | nil => rfl
    | cons row behind ih =>
      have hrest := ih (front ++ [row]) (by simp [hsplit])
      rw [List.length_append, List.length_singleton] at hrest
      rw [List.zipIdx_cons, List.map_cons]
      have hget : rows[front.length]? = some row := by
        rw [hsplit, List.getElem?_append_right (Nat.le_refl _), Nat.sub_self]
        rfl
      cases hkeep : keep (row.value slot) with
      | false =>
        rw [List.filter_cons_of_neg (by simp [hkeep]), List.filter_cons_of_neg (by simp [hkeep])]
        exact hrest
      | true =>
        rw [List.filter_cons_of_pos (by simp [hkeep]), List.filter_cons_of_pos (by simp [hkeep]),
          List.map_cons]
        unfold listedRows at hrest ⊢
        rw [List.filterMap_cons_some hget, hrest]
  exact hat [] rows rfl

/-- The rows that the index takes, in the order of the tree. -/
theorem listedRows_taken {t : BTree.Root (ColumnKey type) UInt32} (judge : StoredKey → Verdict)
    (hentries : t.2.entries.Perm (indexEntries type (columnValues index.slot rows)))
    (hvalues : ∀ row ∈ rows, (row.value index.slot).isNull = false →
      (row.value index.slot).type = type)
    (hcount : rows.length ≤ 2 ^ 32) :
    (listedRows rows (taken judge (leafEntries t))).Perm
        (rows.filter fun row => !(row.value index.slot).isNull &&
          decide (judge (makeKey (row.value index.slot)) = .take)) ∧
      (taken judge (leafEntries t)).length ≤ rows.length := by
  have hmem : ∀ v ∈ columnValues index.slot rows, ∃ row ∈ rows, row.value index.slot = v.1 ∧
      v.2 < rows.length := by
    intro v hv
    obtain ⟨⟨row, i⟩, hin, rfl⟩ := List.mem_map.mp hv
    have hget := List.mk_mem_zipIdx_iff_getElem?.mp hin
    exact ⟨row, List.mem_of_getElem? hget, rfl, (List.getElem?_eq_some_iff.mp hget).1⟩
  have htaken : (taken judge (leafEntries t)).Perm
      (taken judge ((indexEntries type (columnValues index.slot rows)).map leafEntry)) :=
    taken_perm (hentries.map leafEntry)
  rw [taken_indexEntries (fun v hv hnull => ?_) fun v hv => ?_] at htaken
  · constructor
    · have hrows := @listedRows_columnValues rows index.slot fun value =>
        !value.isNull && decide (judge (makeKey value) = .take)
      rw [← hrows]
      exact htaken.filterMap _
    · rw [htaken.length_eq, List.length_map]
      refine (List.length_filter_le _ _).trans ?_
      unfold columnValues
      rw [List.length_map, List.length_zipIdx]
  · obtain ⟨row, hrow, hvalue, -⟩ := hmem v hv
    rw [← hvalue] at hnull ⊢
    exact hvalues row hrow hnull
  · obtain ⟨row, -, -, hlt⟩ := hmem v hv
    omega

/-- An index that some rows were put into is one of them. -/
theorem indexOf_built {name table column : Name} {slot : Nat} {indexes : List Index} (hs : s.Sound)
    (hvalues : ∀ v ∈ columnValues slot rows, v.1.type = type) :
    (buildIndex name table column slot type (columnValues slot rows)).within zero idLimit
      (fun r indexes' s' => r = .ok () ∧ ∃ index, indexes' = index :: indexes ∧
        IndexOf s' type index rows) indexes s := by
  refine Action.within_mono (buildIndex_spec hs hvalues) ?_
  rintro r indexes' s' ⟨rfl, index, t, ids, rfl, hbuilt⟩
  refine ⟨rfl, index, rfl, t, ids, hbuilt.stored, ?_⟩
  rw [hbuilt.column.2.2.2, hbuilt.entries]
  exact (List.perm_insertionSort _ _).trans (List.reverse_perm _)

end

/-! ### The rows -/

section
variable {table : CatalogNode} {cond bound : Condition} {rows : List Row}

/-- Without a LIMIT the rows are kept on which the condition is TRUE; what a row was decoded over
makes no difference. -/
theorem keepRows_eq (sub : Subqueries) (hbound : resolveCondition table cond = (.ok (), bound))
    (hrows : ∀ row ∈ rows, row.length = table.cols.length) (storage : Row) (kept : Nat) :
    keepRows bound sub none rows storage kept =
      rows.filter fun row => evaluateCondition bound sub row = .TRI_TRUE := by
  induction rows generalizing storage kept with
  | nil => rfl
  | cons record rows ih =>
    have hrest := ih fun row hrow => hrows row (List.mem_cons_of_mem _ hrow)
    have hsame : evaluateCondition bound sub (decodeInto record storage (conditionDeepest bound)) =
        evaluateCondition bound sub record := by
      refine evaluateConditionFrom_alike (resolveCondition_deepest hbound) fun slot hslot => ?_
      have hlength := hrows record List.mem_cons_self
      have hvalue : (decodeInto record storage (conditionDeepest bound)).value slot =
          record.value slot := by
        unfold decodeInto Row.value
        rw [List.getD_append _ _ _ _ (by rw [List.length_take]; omega), List.getD_eq_getElem?_getD,
          List.getElem?_take_of_lt (by omega), ← List.getD_eq_getElem?_getD]
      rw [hvalue]
      exact .refl _
    rw [keepRows, hsame, hrest, hrest, List.filter_cons]
    simp only [reduceCtorEq, if_false, decide_eq_true_eq]

/-- A SELECT that is narrowed by an index of a column of ints, dates or texts, whose pages hold the
tree of the rows of the table: the scan of the index succeeds and changes no page, and with what it
answers the SELECT keeps the rows that it keeps of a scan of the table. -/
theorem indexPath_spec {zero : Bytes} {s : Store Bytes} {data : Data} {predicate : Predicate}
    {index : Index} {key : Value} {maxRows : Int} (sub : Subqueries) (hs : s.Sound)
    (hbound : resolveCondition table cond = (.ok (), bound))
    (hsingle : ∀ node ∈ bound.nodes, node.compare.Single)
    (hpath : IndexPath data.indexes table bound predicate index key)
    (hindex : IndexOf s (table.columnType index.slot) index rows)
    (hrows : ∀ row ∈ rows, row.length = table.cols.length ∧ RowOf table row)
    (hslot : index.slot < table.cols.length) (hcount : rows.length ≤ 2 ^ 32)
    (hroom : rows.length ≤ maxRows) :
    (candidateScan index predicate.op key maxRows).wp zero (fun r s' => s' = s ∧
      (data.candidates index predicate.op key = r.map (listedRows rows) →
        ∃ found, collectBound data table rows sub bound none = .ok found ∧
          found.Perm (keepRows bound sub none rows [] 0))) s := by
  obtain ⟨t, ids, hstored, hentries⟩ := hindex
  refine PageM.wp_mono (candidateScan_spec hs hstored hpath.type hpath.pattern) ?_
  rintro r s' ⟨rfl, rfl⟩
  refine ⟨rfl, fun hdata => ?_⟩
  have hvalues : ∀ row ∈ rows, (row.value index.slot).isNull = false →
      (row.value index.slot).type = table.columnType index.slot := by
    intro row hrow hnull
    rcases (hrows row hrow).2 index.slot hslot with hisNull | htype
    · exact absurd (hisNull.symm.trans hnull) (by simp)
    · exact htype
  obtain ⟨hperm, hfew⟩ := listedRows_taken (pathVerdict predicate.op key) hentries hvalues hcount
  -- there is room for what is taken
  have hcapped : capped maxRows (taken (pathVerdict predicate.op key) (leafEntries t)) =
      .ok (taken (pathVerdict predicate.op key) (leafEntries t)) := by
    unfold capped
    rw [if_neg (by omega)]
  rw [hcapped] at hdata
  obtain ⟨⟨node, hin, rfl⟩, hcolumn, hop, -⟩ :=
    @findIndexableLeaf_spec _ _ _ _ sub [] _ _ hpath.leaf
  have hall : ∀ row ∈ listedRows rows (taken (pathVerdict node.compare.op key) (leafEntries t)),
      row.length = table.cols.length := by
    intro row hrow
    obtain ⟨i, -, hget⟩ := List.mem_filterMap.mp hrow
    exact (hrows row (List.mem_of_getElem? hget)).1
  refine ⟨keepRows bound sub none
    (listedRows rows (taken (pathVerdict node.compare.op key) (leafEntries t))) [] 0, ?_, ?_⟩
  · unfold collectBound
    rw [hpath.leaf]
    dsimp only
    rw [hpath.found, hpath.literal]
    dsimp only
    rw [Option.getD_some, hdata]
    rfl
  · rw [keepRows_eq sub hbound hall, keepRows_eq sub hbound fun row hrow => (hrows row hrow).1]
    refine (hperm.filter _).trans (List.Perm.of_eq ?_)
    rw [List.filter_filter]
    refine List.filter_congr fun row hrow => ?_
    by_cases htrue : evaluateCondition bound sub row = .TRI_TRUE
    · -- the comparison holds, so the index has taken the row
      have hpredicate := (@findIndexableLeaf_spec _ _ _ _ sub row _ _ hpath.leaf).2.2.2 htrue
      have hcompare := evaluatePredicate_column hcolumn hpath.column hpath.literal
        (hsingle node hin) hop hpredicate
      have hnull := comparePredicate_not_null hop hcompare
      have htype := (hvalues row hrow hnull).trans hpath.type.symm
      rw [decide_eq_true htrue, hnull,
        pathVerdict_of_true htype hpath.exact hop hpath.pattern hcompare]
      rfl
    · rw [decide_eq_false htrue, Bool.false_and]

end

end DatabaseEngine
