import DatabaseEngine.Proofs.Join.Columns

/-!
# `DatabaseEngine.Proofs.Join.Nested`: nested loops over one work row

* `joined_eq`: the reference join, prefix by prefix, is the one that a recursion over the tables
  reaches row by row.
* `joinTables_store`: where each ON reads no later table, the loops store the reference rows in
  their order.
-/

set_option autoImplicit false

namespace DatabaseEngine

/-! ### Storing -/

/-- Storing a longer list stores the front first. -/
theorem storeAll_append (out xs ys : List Row) :
    storeAll out (xs ++ ys) =
      match storeAll out xs with
      | .error code => .error code
      | .ok out => storeAll out ys := by
  induction xs generalizing out with
  | nil => rfl
  | cons row rest ih =>
    simp only [List.cons_append, storeAll]
    split
    · rfl
    · exact ih _

/-- Everything is stored unless a row is too large. -/
theorem storeAll_eq (out rows : List Row) :
    storeAll out rows =
      if ∃ row ∈ rows, TooLarge row then .error .EXEC_ROW_TOO_LARGE else .ok (out ++ rows) := by
  induction rows generalizing out with
  | nil => simp [storeAll]
  | cons row rest ih =>
    unfold storeAll
    by_cases hlarge : TooLarge row
    · rw [if_pos hlarge, if_pos ⟨row, by simp, hlarge⟩]
    · rw [if_neg hlarge, ih]
      simp [hlarge]

/-! ### Row by row -/

section
variable {wher : Condition} {sub : Subqueries}

/-- The rows of the join behind a row of the tables before. -/
def joinedBehind (wher : Condition) (sub : Subqueries) : List JoinTable → Row → List Row
  | [], front => if keeps wher sub front then [front] else []
  | table :: rest, front =>
    (extend wher sub table front).flatMap (joinedBehind wher sub rest)

/-- Joining one table after another can start from each row by itself. -/
theorem filter_foldl_extend (tables : List JoinTable) (rows : List Row) :
    (tables.foldl (fun rows table => rows.flatMap (extend wher sub table)) rows).filter
        (keeps wher sub) = rows.flatMap (joinedBehind wher sub tables) := by
  induction tables generalizing rows with
  | nil =>
    rw [List.foldl_nil]
    induction rows with
    | nil => rfl
    | cons row rest ih =>
      rw [List.filter_cons, List.flatMap_cons, ← ih]
      unfold joinedBehind
      split <;> rfl
  | cons table rest ih =>
    rw [List.foldl_cons, ih, List.flatMap_assoc]
    rfl

/-- The join, row by row. -/
theorem joined_eq (tables : List JoinTable) :
    joined wher sub tables = joinedBehind wher sub tables [] := by
  unfold joined combined
  rw [filter_foldl_extend, List.flatMap_singleton]

/-! ### The work row -/

/-- Writing within the work row leaves its length. -/
theorem storeAt_length {work : Row} {base : Nat} {values : List Value}
    (h : base + values.length ≤ work.length) : (storeAt work base values).length = work.length := by
  simp only [storeAt, List.length_append, List.length_take, List.length_drop]
  omega

/-- What was written stands behind what was there before it. -/
theorem storeAt_take {work : Row} {base : Nat} {values : List Value}
    (h : base + values.length ≤ work.length) :
    (storeAt work base values).take (base + values.length) = work.take base ++ values := by
  unfold storeAt
  rw [List.take_append_of_le_length, List.take_of_length_le]
  · simp only [List.length_append, List.length_take]
    omega
  · simp only [List.length_append, List.length_take]
    omega

/-- Writing leaves what stands before it. -/
theorem storeAt_take_base {work : Row} {base : Nat} {values : List Value}
    (h : base + values.length ≤ work.length) :
    (storeAt work base values).take base = work.take base := by
  unfold storeAt
  rw [List.append_assoc, List.take_append_of_le_length, List.take_take, Nat.min_self]
  rw [List.length_take]
  omega

/-- A prefix of a row has the row's first values. -/
theorem value_take {row : Row} {n slot : Nat} (h : slot < n) :
    Row.value (row.take n) slot = row.value slot := by
  unfold Row.value
  rw [List.getD_eq_getElem?_getD, List.getD_eq_getElem?_getD, List.getElem?_take, if_pos h]

/-! ### The loops -/

/-- What a part of the join does to the heap and to the work row: it stores rows behind `out`, and
the work row keeps its length and its first columns, `front`. -/
def Stores (total base : Nat) (front : Row) (out rows : List Row)
    (result : Except ErrorCode JoinState) : Prop :=
  match storeAll out rows with
  | .error code => result = .error code
  | .ok out => ∃ work, result = .ok { out := out, work := work } ∧
      work.length = total ∧ work.take base = front

/-- The rows that are stored, without the work row. -/
theorem Stores.map_out {total base : Nat} {front : Row} {out rows : List Row}
    {result : Except ErrorCode JoinState} (h : Stores total base front out rows result) :
    result.map JoinState.out = storeAll out rows := by
  unfold Stores at h
  cases hstore : storeAll out rows with
  | error code =>
    rw [hstore] at h
    rw [h]
    rfl
  | ok stored =>
    rw [hstore] at h
    obtain ⟨work, hresult, -, -⟩ := h
    rw [hresult]
    rfl

/-- The work row is stored unless its record is too large. -/
theorem storeWork_eq (ncols : Nat) (state : JoinState) :
    storeWork ncols state =
      if TooLarge (state.work.take ncols) then .error .EXEC_ROW_TOO_LARGE
      else .ok { state with out := state.out ++ [state.work.take ncols] } :=
  rfl

/-- At the last level the row is stored if WHERE keeps it. -/
theorem joinLeaf_stores {base : Nat} {state : JoinState}
    (hreads : wher.present = true → ReadsBelow wher wher.root base) :
    Stores state.work.length base (state.work.take base) state.out
      (joinedBehind wher sub [] (state.work.take base)) (joinLeaf wher sub base state) := by
  have hkeeps : keeps wher sub (state.work.take base) = keeps wher sub state.work :=
    keeps_agree hreads fun slot hs => value_take hs
  unfold Stores joinedBehind joinLeaf
  rw [hkeeps]
  cases hk : keeps wher sub state.work with
  | false => exact ⟨state.work, rfl, rfl, rfl⟩
  | true =>
    simp only [if_true, storeAll, storeWork_eq]
    by_cases hlarge : TooLarge (state.work.take base)
    · rw [if_pos hlarge, if_pos hlarge]
    · rw [if_neg hlarge, if_neg hlarge]
      exact ⟨state.work, rfl, rfl, rfl⟩

/-- A table with only some of its rows. -/
def JoinTable.withRows (table : JoinTable) (rows : List Row) : JoinTable :=
  { table with stored := { table.stored with rows := rows } }

/-- The rows behind the partners in a table. -/
def behindPartners (wher : Condition) (sub : Subqueries) (rest : List JoinTable) (front : Row)
    (table : JoinTable) : List Row :=
  (partners wher sub front table).flatMap fun row => joinedBehind wher sub rest (front ++ row)

/-- The first row of a table is a partner if its ON holds. -/
theorem partners_cons (table : JoinTable) (front source : Row) (rows : List Row) :
    partners wher sub front (table.withRows (source :: rows)) =
      if table.onRoot < 0 ∨ evaluateAt wher sub table.onRoot (front ++ source) = .TRI_TRUE then
        source :: partners wher sub front (table.withRows rows)
      else partners wher sub front (table.withRows rows) := by
  unfold partners
  rw [show (table.withRows (source :: rows)).stored.rows = source :: rows from rfl,
    List.filter_cons]
  by_cases h : table.onRoot < 0 ∨
      evaluateAt wher sub table.onRoot (front ++ source) = .TRI_TRUE
  · rw [if_pos h]
    exact if_pos (decide_eq_true h)
  · rw [if_neg h]
    exact if_neg fun hdecide => h (of_decide_eq_true hdecide)

/-- The scan of one table, where the loops behind it are right. -/
theorem joinScan_stores {table : JoinTable} {rest : List JoinTable} {base width total : Nat}
    {below : Nat → JoinState → Except ErrorCode JoinState}
    (hread : 0 ≤ table.onRoot → ReadsBelow wher table.onRoot (base + width))
    (htotal : base + width ≤ total)
    (hbelow : ∀ state : JoinState, state.work.length = total →
      Stores total (base + width) (state.work.take (base + width)) state.out
        (joinedBehind wher sub rest (state.work.take (base + width)))
        (below (base + width) state))
    {rows : List Row} (hrows : ∀ row ∈ rows, row.length = width) {matched : Bool} {front : Row}
    {state : JoinState} (hwork : state.work.length = total) (hfront : state.work.take base = front) :
    ∃ matched', matched' = (matched || decide (0 ≤ table.onRoot) &&
        !(partners wher sub front (table.withRows rows)).isEmpty) ∧
      ∃ result, Stores total base front state.out
        (behindPartners wher sub rest front (table.withRows rows)) result ∧
        joinScan wher sub table.onRoot below base rows matched state =
          result.map fun state => (matched', state) := by
  induction rows generalizing matched state with
  | nil =>
    refine ⟨matched, by simp [partners, JoinTable.withRows], .ok state, ?_, rfl⟩
    exact ⟨state.work, rfl, hwork, hfront⟩
  | cons source rows ih =>
    have hsource : source.length = width := hrows source (by simp)
    have hrows' : ∀ row ∈ rows, row.length = width := fun row hrow => hrows row (by simp [hrow])
    have hle : base + source.length ≤ state.work.length := by omega
    have hlength : (state.fill base source).work.length = total :=
      (storeAt_length hle).trans hwork
    have htake : (state.fill base source).work.take base = front :=
      (storeAt_take_base hle).trans hfront
    have hnext : (state.fill base source).work.take (base + width) = front ++ source := by
      rw [← hsource, ← hfront]
      exact storeAt_take hle
    -- the ON sees the columns before and the ones of this row
    have hon : 0 ≤ table.onRoot →
        evaluateAt wher sub table.onRoot (state.fill base source).work =
          evaluateAt wher sub table.onRoot (front ++ source) := by
      intro hroot
      rw [← hnext]
      exact (evaluateAt_agree (hread hroot) fun slot hs => value_take hs).symm
    have hneg : ¬0 ≤ table.onRoot ↔ table.onRoot < 0 := by
      rw [Int32.le_iff_toInt_le, Int32.lt_iff_toInt_lt]
      exact Int.not_le
    unfold joinScan
    unfold behindPartners
    rw [partners_cons]
    by_cases hskip : 0 ≤ table.onRoot ∧
        evaluateAt wher sub table.onRoot (state.fill base source).work ≠ .TRI_TRUE
    · -- no partner
      have hno : ¬(table.onRoot < 0 ∨
          evaluateAt wher sub table.onRoot (front ++ source) = .TRI_TRUE) := by
        rw [← hon hskip.1, ← hneg]
        exact fun h => h.elim (fun hn => hn hskip.1) hskip.2
      rw [if_neg hno]
      simp only [if_pos hskip]
      exact ih hrows' hlength htake
    · -- a partner, behind which the other tables are read
      have hyes : table.onRoot < 0 ∨
          evaluateAt wher sub table.onRoot (front ++ source) = .TRI_TRUE := by
        by_cases hroot : 0 ≤ table.onRoot
        · rw [← hon hroot]
          exact .inr (not_not.mp fun h => hskip ⟨hroot, h⟩)
        · exact .inl (hneg.mp hroot)
      rw [if_pos hyes, List.flatMap_cons]
      simp only [if_neg hskip, hsource]
      have hfirst := hbelow (state.fill base source) hlength
      rw [hnext] at hfirst
      unfold Stores at hfirst ⊢
      rw [storeAll_append]
      change (match storeAll state.out _ with
        | .error code => _
        | .ok out => _) at hfirst
      cases hstore : storeAll state.out (joinedBehind wher sub rest (front ++ source)) with
      | error code =>
        rw [hstore] at hfirst
        exact ⟨_, rfl, .error code, rfl, by simp only [hfirst]; rfl⟩
      | ok out =>
        rw [hstore] at hfirst
        obtain ⟨work, hresult, hlen, htk⟩ := hfirst
        have htk' : work.take base = front := by
          have hcut := congrArg (List.take base) (htk.trans hnext.symm)
          rw [List.take_take, List.take_take, Nat.min_eq_left (Nat.le_add_right _ _)] at hcut
          exact hcut.trans htake
        obtain ⟨matched', hmatched, result, hstores, hscan⟩ := @ih hrows'
          (matched || decide (0 ≤ table.onRoot)) { out := out, work := work } hlen htk'
        refine ⟨matched', ?_, result, hstores, ?_⟩
        · rw [hmatched, List.isEmpty_cons]
          generalize decide (0 ≤ table.onRoot) = own
          cases matched <;> cases own <;> rfl
        · simp only [hresult]
          exact hscan

/-- Where each ON reads no later table, the loops store the rows of the join. -/
theorem joinTables_stores {tables : List JoinTable} {base total : Nat} {state : JoinState}
    (hparsed : ∀ table ∈ tables, table.Parsed) (hshaped : ∀ table ∈ tables, Shaped table.stored)
    (hlocal : OnsLocal wher base tables)
    (hwher : wher.present = true → ReadsBelow wher wher.root (base + widthOf tables))
    (htotal : base + widthOf tables ≤ total) (hwork : state.work.length = total) :
    Stores total base (state.work.take base) state.out
      (joinedBehind wher sub tables (state.work.take base))
      (joinTables wher sub tables base state) := by
  induction tables generalizing base state with
  | nil =>
    subst hwork
    exact joinLeaf_stores hwher
  | cons table rest ih =>
    obtain ⟨hread, hlocal⟩ : _ ∧ _ := by
      cases hlocal with | cons own others => exact ⟨own, others⟩
    have hwidth : widthOf (table :: rest) =
        table.stored.node.cols.length + widthOf rest := by simp [widthOf]
    have hrest : ∀ state : JoinState, state.work.length = total →
        Stores total (base + table.stored.node.cols.length)
          (state.work.take (base + table.stored.node.cols.length)) state.out
          (joinedBehind wher sub rest
            (state.work.take (base + table.stored.node.cols.length)))
          (joinTables wher sub rest (base + table.stored.node.cols.length) state) :=
      fun state hstate => ih (fun t ht => hparsed t (by simp [ht]))
        (fun t ht => hshaped t (by simp [ht])) hlocal
        (by rw [Nat.add_assoc, ← hwidth]; exact hwher) (by omega) hstate
    obtain ⟨matched, hmatched, result, hstores, hscan⟩ := joinScan_stores hread (by omega) hrest (hshaped table (by simp)) hwork rfl
    have hself : table.withRows table.stored.rows = table := rfl
    rw [hself] at hmatched hstores
    unfold joinTables joinedBehind extend
    rw [hscan]
    by_cases hpad : table.outer = true ∧ partners wher sub (state.work.take base) table = []
    · -- no partner, so the row is completed with NULLs
      obtain ⟨houter, hnone⟩ := hpad
      have hnothing : behindPartners wher sub rest (state.work.take base) table = [] := by
        simp [behindPartners, hnone]
      rw [hnothing] at hstores
      obtain ⟨work, rfl, hlen, htake⟩ := hstores
      have hmatched' : matched = false := by rw [hmatched, hnone]; simp
      rw [if_pos ⟨houter, hnone⟩]
      simp only [Except.map, houter, hmatched', Bool.not_false, Bool.and_self, if_true,
        List.flatMap_singleton]
      have hnull : (nullRow table.stored.node).length = table.stored.node.cols.length := by
        simp [nullRow]
      have hle : base + (nullRow table.stored.node).length ≤ work.length := by omega
      have hfront : (storeAt work base (nullRow table.stored.node)).take
          (base + table.stored.node.cols.length) =
            state.work.take base ++ nullRow table.stored.node := by
        rw [← htake, ← hnull]
        exact storeAt_take hle
      have hpadded := hrest (JoinState.fill ⟨state.out, work⟩ base (nullRow table.stored.node))
        ((storeAt_length hle).trans hlen)
      simp only [JoinState.fill, hfront] at hpadded ⊢
      unfold Stores at hpadded ⊢
      cases hstore : storeAll state.out
          (joinedBehind wher sub rest (state.work.take base ++ nullRow table.stored.node)) with
      | error code =>
        rw [hstore] at hpadded
        exact hpadded
      | ok out =>
        rw [hstore] at hpadded
        obtain ⟨work', hresult, hlen', htake'⟩ := hpadded
        refine ⟨work', hresult, hlen', ?_⟩
        have hcut := congrArg (List.take base) htake'
        rw [List.take_take, Nat.min_eq_left (Nat.le_add_right _ _)] at hcut
        rw [hcut, List.take_append_of_le_length (by rw [List.length_take]; omega), List.take_take,
          Nat.min_self]
    · have hplain : (table.outer && !matched) = false := by
        rw [hmatched]
        cases houter : table.outer with
        | false => rfl
        | true =>
          have hroot := (hparsed table (by simp)).mp houter
          have hsome : partners wher sub (state.work.take base) table ≠ [] := fun h =>
            hpad ⟨houter, h⟩
          simp [hroot, hsome]
      rw [if_neg hpad, List.flatMap_map]
      cases result with
      | error code => exact hstores
      | ok state' =>
        simp only [Except.map, hplain]
        exact hstores

end

end DatabaseEngine
