import DatabaseEngine.Proofs.Join.Nested
import DatabaseEngine.Proofs.Parser.Selects
import DatabaseEngine.Spec.Query

/-!
# `DatabaseEngine.Proofs.Join.Outer`: the joins of accepted SELECTs

* `checkSelectFrom_shape`: the check fits literals and leaves the rest of a SELECT.
* `joinTables_reference`: where no ON of a LEFT JOIN names a column of a later table, the loops store
  the rows of the reference join, whatever the work row held.
* `joinTables_stale`: an ON that names one reads what an earlier join has left there.
-/

set_option autoImplicit false

namespace DatabaseEngine

open Library

/-! ### What the check leaves -/

section
variable {tables : List CatalogNode} {sub : SubqueryCheck} {table : CatalogNode}
  {cond cond' : Condition} {checking checking' : Checking}

/-- Checking a condition writes its expressions only. -/
theorem checkConditionAt_cond {root : Int32}
    (h : Query.checkConditionAt sub table cond root checking = .ok (cond', checking')) :
    ∃ exprs, cond' = { cond with exprs := exprs } := by
  obtain ⟨⟨exprs, after⟩, -, heq⟩ := map_ok h
  exact ⟨exprs, (Prod.mk.inj heq).1.symm⟩

/-- Checking a WHERE writes its expressions only. -/
theorem checkWhere_cond (h : Query.checkWhere sub table cond checking = .ok (cond', checking')) :
    ∃ exprs, cond' = { cond with exprs := exprs } := by
  unfold Query.checkWhere at h
  split at h
  · exact checkConditionAt_cond h
  · exact ⟨cond.exprs, (Prod.mk.inj (Except.ok.inj h)).1.symm⟩

/-- Checking the ON conditions writes their expressions only. -/
theorem checkOnRoots_cond {roots : List Int32}
    (h : Query.checkOnRoots sub table roots cond checking = .ok (cond', checking')) :
    ∃ exprs, cond' = { cond with exprs := exprs } := by
  induction roots generalizing cond checking with
  | nil => exact ⟨cond.exprs, (Prod.mk.inj (Except.ok.inj h)).1.symm⟩
  | cons root rest ih =>
    unfold Query.checkOnRoots at h
    split at h
    · exact ih h
    · split at h
      · exact absurd h (by simp)
      · rename_i next after hfirst
        obtain ⟨exprs, rfl⟩ := checkConditionAt_cond hfirst
        obtain ⟨exprs', heq⟩ := ih h
        exact ⟨exprs', heq⟩

/-- Checking a select list writes its expressions only. -/
theorem checkList_shape {select checked : ParsedSelect}
    (h : Query.checkList table select = .ok checked) :
    ∃ exprs, checked = { select with exprs := exprs } := by
  unfold Query.checkList at h
  split at h
  · exact absurd h (by simp)
  · split at h
    · split at h
      · exact absurd h (by simp)
      · split at h
        · exact absurd h (by simp)
        · exact ⟨select.exprs, (Except.ok.inj h).symm⟩
    · split at h
      · exact absurd h (by simp)
      · obtain ⟨exprs, -, rfl⟩ := map_ok h
        exact ⟨exprs, rfl⟩

/-- The check changes the literals of a SELECT, in its list and in its conditions. -/
theorem checkSelectFrom_shape {fuel : Nat} {select checked : ParsedSelect}
    (h : Query.checkSelectFrom tables fuel select checking = .ok (checked, checking')) :
    ∃ conditions exprs, checked =
      { select with wher := { select.wher with exprs := conditions }, exprs := exprs } := by
  cases fuel with
  | zero => exact absurd h (by simp [Query.checkSelectFrom])
  | succ fuel =>
    unfold Query.checkSelectFrom at h
    split at h
    · exact absurd h (by simp)
    · dsimp only at h
      split at h
      · exact absurd h (by simp)
      · rename_i wher first hwher
        split at h
        · exact absurd h (by simp)
        · rename_i wher' second hroots
          obtain ⟨_, rfl⟩ := checkWhere_cond hwher
          obtain ⟨conditions, rfl⟩ := checkOnRoots_cond hroots
          obtain ⟨list, hlist, heq⟩ := map_ok h
          obtain ⟨exprs, rfl⟩ := checkList_shape hlist
          exact ⟨conditions, exprs, (Prod.mk.inj heq).1.symm⟩

end

/-- What the parser says of the joins holds of an accepted SELECT. -/
theorem AcceptedSelect.joins {tables : List CatalogNode} {checked : ParsedSelect}
    (h : AcceptedSelect tables checked) :
    List.Forall₂ (fun (entry : FromTable) (root : Int32) => entry.outer = true ↔ 0 ≤ root)
      checked.tables checked.onRoots := by
  obtain ⟨fuel, tokens, pool, select, pool', depth, checking, checking', hslots, hparse, hcheck⟩ := h
  obtain ⟨conditions, exprs, rfl⟩ := checkSelectFrom_shape hcheck
  exact (parseSelectFrom_formed hslots hparse).1.joins

/-! ### The tables of a FROM list -/

/-- A table in FROM brings all of its columns. -/
theorem flattened_length (aliasName : Name) (source : CatalogNode) :
    (flattened aliasName source).length = source.cols.length := by
  simp [flattened]

section
variable {data : Data} {list : List FromTable} {roots : List Int32} {tables : List JoinTable}

/-- A table is found in the catalog under the name its rows are under. -/
theorem findTable_data (data : Data) (name : Name) :
    findTable (data.tables.map StoredTable.node) name = (data.table name).map StoredTable.node := by
  unfold findTable Data.table
  rw [List.find?_map]
  rfl

/-- The schema of a join is as wide as its tables together. -/
theorem flattenTables_width {prior : List Name} {cols schema : List Column}
    (htables : joinTablesOf data list roots = .ok tables)
    (hschema : flattenTables (data.tables.map StoredTable.node) list prior cols = .ok schema)
    (hcols : cols.length ≤ MAX_COLS) :
    schema.length = cols.length + widthOf tables ∧ schema.length ≤ MAX_COLS := by
  induction list generalizing roots tables prior cols with
  | nil =>
    obtain rfl := Except.ok.inj htables
    obtain rfl := Except.ok.inj hschema
    exact ⟨rfl, hcols⟩
  | cons entry rest ih =>
    unfold joinTablesOf at htables
    unfold flattenTables at hschema
    rw [findTable_data] at hschema
    split at htables
    · exact absurd htables (by simp)
    · rename_i stored hstored
      obtain ⟨others, hothers, rfl⟩ := map_ok htables
      rw [hstored] at hschema
      split at hschema
      · exact absurd hschema (by simp)
      · simp only [Option.map_some] at hschema
        split at hschema
        · exact absurd hschema (by simp)
        · rename_i hwide
          have hlength : (cols ++ flattened entry.aliasName stored.node).length =
              cols.length + stored.node.cols.length := by
            rw [List.length_append, flattened_length]
          obtain ⟨heq, hle⟩ := ih hothers hschema (by omega)
          refine ⟨?_, hle⟩
          rw [heq, hlength]
          simp [widthOf, Nat.add_assoc]

/-- So it is as the statement builds it. -/
theorem buildJoinSchema_width {schema : CatalogNode}
    (htables : joinTablesOf data list roots = .ok tables)
    (hschema : buildJoinSchema (data.tables.map StoredTable.node) list = .ok schema) :
    schema.cols.length = widthOf tables ∧ schema.cols.length ≤ MAX_COLS := by
  obtain ⟨cols, hcols, rfl⟩ := map_ok hschema
  obtain ⟨heq, hle⟩ := flattenTables_width htables hcols (Nat.zero_le _)
  exact ⟨by simpa using heq, hle⟩

/-- The tables of a parsed FROM list have an ON exactly where they are outer. -/
theorem joinTablesOf_parsed
    (hjoins : List.Forall₂ (fun (entry : FromTable) (root : Int32) =>
      entry.outer = true ↔ 0 ≤ root) list roots)
    (htables : joinTablesOf data list roots = .ok tables) :
    ∀ table ∈ tables, table.Parsed ∧ table.stored ∈ data.tables := by
  induction hjoins generalizing tables with
  | nil =>
    obtain rfl := Except.ok.inj htables
    exact fun table ht => absurd ht (by simp)
  | @cons entry root list roots hentry _ ih =>
    unfold joinTablesOf at htables
    split at htables
    · exact absurd htables (by simp)
    · rename_i stored hstored
      obtain ⟨others, hothers, rfl⟩ := map_ok htables
      intro table ht
      rcases List.mem_cons.mp ht with rfl | ht
      · exact ⟨hentry, List.mem_of_find?_eq_some hstored⟩
      · exact ih hothers table ht

end

/-! ### The reference join -/

section
variable {data : Data} {checked : ParsedSelect} {schema : CatalogNode} {tables : List JoinTable}
  {wher : Condition}

/-- An accepted join stores the reference's rows, if its ON conditions read no later table. -/
theorem joinTables_stored (sub : Subqueries)
    (haccepted : AcceptedSelect (data.tables.map StoredTable.node) checked)
    (hschema : buildJoinSchema (data.tables.map StoredTable.node) checked.tables = .ok schema)
    (htables : joinTablesOf data checked.tables checked.onRoots = .ok tables)
    (hbound : resolveCondition schema checked.wher = (.ok (), wher))
    (hshaped : ∀ stored ∈ data.tables, Shaped stored) (hlocal : OnsLocal wher 0 tables)
    {work : Row} (hwork : work.length = MAX_COLS) :
    (joinTables wher sub tables 0 { out := [], work := work }).map JoinState.out =
      storeAll [] (joined wher sub tables) := by
  obtain ⟨hwidth, hle⟩ := buildJoinSchema_width htables hschema
  have hparsed := joinTablesOf_parsed haccepted.joins htables
  have hstores := @joinTables_stores _ sub _ _ _ { out := [], work := work } (fun table ht =>
      (hparsed table ht).1) (fun table ht => hshaped table.stored (hparsed table ht).2) hlocal
      (fun _ => by
      rw [Nat.zero_add, ← hwidth]
      exact resolveCondition_reads hbound wher.root)
    (by omega) hwork
  rw [List.take_zero, ← joined_eq] at hstores
  exact hstores.map_out

/-- A join of an accepted SELECT stores the rows of the reference join, whatever the work row held,
where no ON of a LEFT JOIN names a column of a table behind its own. Stored is what is handed to
`heapInsert`: the heap accepts a record of 8169 to 8176 bytes too and does not give it back. -/
theorem joinTables_reference (sub : Subqueries)
    (haccepted : AcceptedSelect (data.tables.map StoredTable.node) checked)
    (hschema : buildJoinSchema (data.tables.map StoredTable.node) checked.tables = .ok schema)
    (htables : joinTablesOf data checked.tables checked.onRoots = .ok tables)
    (hbound : resolveCondition schema checked.wher = (.ok (), wher))
    (hshaped : ∀ stored ∈ data.tables, Shaped stored) (hlocal : OnsLocal wher 0 tables) :
    ∀ work : Row, work.length = MAX_COLS →
      (joinTables wher sub tables 0 { out := [], work := work }).map JoinState.out =
        storeAll [] (joined wher sub tables) :=
  fun _ hwork => joinTables_stored sub haccepted hschema htables hbound hshaped hlocal hwork

end

/-! ### Three tables -/

/-- A text that passes the checks gives an accepted statement. -/
theorem acceptSelect_accepted {tables : List CatalogNode} {sql : List UInt8}
    {result : ParsedSelect × List PooledSelect} (h : acceptSelect tables sql = .ok result) :
    AcceptedSelect tables result.1 := by
  obtain ⟨tokens, -, h⟩ := bind_ok h
  obtain ⟨⟨select, pool'⟩, hparse, h⟩ := bind_ok h
  obtain ⟨⟨checked, checking⟩, hcheck, h⟩ := bind_ok h
  obtain rfl := Except.ok.inj h
  exact ⟨_, tokens, [], select, pool', _, _, checking, Nat.zero_le _, hparse, hcheck⟩

/-- A table of one column of integers. -/
def numbered (name column : String) (numbers : List Int32) : StoredTable :=
  { node :=
      { table := Name.ofBytes (ascii name), cols := [plainColumn (ascii column) .TYPE_INT],
        check := none }
    rows := numbers.map fun n => [{ zeroValue with intValue := n }] }

/-- Tables `a(x)`, `b(y)` and `c(z)` of one row each. -/
def threeTables : Data :=
  { tables := [numbered "a" "x" [1], numbered "b" "y" [1], numbered "c" "z" [1]]
    indexes := []
    candidates := fun _ _ _ => .ok [] }

/-- What the text of a SELECT is accepted as. -/
def Data.accept (data : Data) (sql : String) : ParsedSelect × List PooledSelect :=
  (acceptSelect (data.tables.map StoredTable.node) (ascii sql)).toOption.getD
    ({ items := [], exprs := [], selectAll := true, onRoots := [], wher := noCondition,
       having := noCondition, groupBy := [], tables := [], distinct := false, order := [],
       limit := none }, [])

/-- The SELECT of a text that is accepted. -/
def Data.select (data : Data) (sql : String) : ParsedSelect := (data.accept sql).1

/-- The schema of a join, its tables and its WHERE. -/
def Data.schemaOf (data : Data) (select : ParsedSelect) : CatalogNode :=
  (buildJoinSchema (data.tables.map StoredTable.node) select.tables).toOption.getD
    { table := Name.ofBytes [], cols := [], check := none }

/-- The tables of a FROM list. -/
def Data.joinOf (data : Data) (select : ParsedSelect) : List JoinTable :=
  (joinTablesOf data select.tables select.onRoots).toOption.getD []

/-- The WHERE of a SELECT, bound. -/
def Data.whereOf (data : Data) (select : ParsedSelect) : Condition :=
  (resolveCondition (data.schemaOf select) select.wher).2

section
variable {data : Data} {sql : String} {select : ParsedSelect}

/-- So does the statement of a text on given tables. -/
theorem Data.select_accepted
    (h : (acceptSelect (data.tables.map StoredTable.node) (ascii sql)).toOption.isSome = true) :
    AcceptedSelect (data.tables.map StoredTable.node) (data.select sql) :=
  acceptSelect_accepted (getD_ok h)

/-- Its WHERE is bound. -/
theorem Data.whereOf_ok
    (h : (resolveCondition (data.schemaOf select) select.wher).1.toOption.isSome = true) :
    resolveCondition (data.schemaOf select) select.wher = (.ok (), data.whereOf select) := by
  unfold Data.whereOf
  cases hbound : resolveCondition (data.schemaOf select) select.wher with
  | mk result wher =>
    rw [hbound] at h
    cases result with
    | error code => exact absurd h (by simp [Except.toOption])
    | ok u => rfl

end

/-- What a thread starts with. -/
def freshWork : Row := List.replicate MAX_COLS zeroValue

/-- A thread that has run no SELECT. -/
def freshStatics : Statics where
  memory :=
    { bucketCount := 0
      accumulatorAt := fun _ _ =>
        { count := 0, sum := 0, real := 0, extreme := zeroValue, seen := false }
      size := .inl rfl }
  work := freshWork
  joinBucketCount := 0
  distinctCount := 0
  join := .inl rfl
  distinct := .inl rfl
  width := List.length_replicate

/-- `SELECT * FROM a LEFT JOIN b ON b.y = 2, c` -/
def paddedJoin : ParsedSelect := threeTables.select "select * from a left join b on b.y = 2, c"

/-- A row without a partner comes with NULLs. -/
theorem joinTables_reference_padded :
    (joinTables (threeTables.whereOf paddedJoin) (fun _ => []) (threeTables.joinOf paddedJoin) 0
        { out := [], work := freshWork }).map JoinState.out =
      storeAll [] (joined (threeTables.whereOf paddedJoin) (fun _ => [])
        (threeTables.joinOf paddedJoin)) := by
  have haccepted : AcceptedSelect (threeTables.tables.map StoredTable.node) paddedJoin :=
    Data.select_accepted (by decide +kernel)
  have hschema : buildJoinSchema (threeTables.tables.map StoredTable.node) paddedJoin.tables =
      .ok (threeTables.schemaOf paddedJoin) := getD_ok (by decide +kernel)
  have htables : joinTablesOf threeTables paddedJoin.tables paddedJoin.onRoots =
      .ok (threeTables.joinOf paddedJoin) := getD_ok (by decide +kernel)
  have hbound := @Data.whereOf_ok threeTables paddedJoin (by decide +kernel)
  have hshaped : ∀ stored ∈ threeTables.tables, Shaped stored := by decide
  have hlocal : OnsLocal (threeTables.whereOf paddedJoin) 0 (threeTables.joinOf paddedJoin) := by
    decide +kernel
  exact joinTables_reference (fun _ => []) haccepted hschema htables hbound hshaped hlocal
    freshWork rfl

/-- `SELECT * FROM a LEFT JOIN b ON c.z = 1, c` -/
def lateJoin : ParsedSelect := threeTables.select "select * from a left join b on c.z = 1, c"

/-- One run of this join from a work row. -/
def runLate (work : Row) : Except ErrorCode JoinState :=
  joinTables (threeTables.whereOf lateJoin) (fun _ => []) (threeTables.joinOf lateJoin) 0
    { out := [], work := work }

/-- The work row that a first run leaves. -/
def lateWork : Row := ((runLate freshWork).map JoinState.work).toOption.getD []

/-- The statement is accepted, and run twice. The ON reads a column that the second run finds as
the first one has left it, and answers a partner that the first one had not. -/
theorem joinTables_stale :
    AcceptedSelect (threeTables.tables.map StoredTable.node) lateJoin ∧
      lateWork.length = MAX_COLS ∧
      (runLate freshWork).map JoinState.out = storeAll [] (joined (threeTables.whereOf lateJoin)
        (fun _ => []) (threeTables.joinOf lateJoin)) ∧
      (runLate lateWork).map JoinState.out ≠ storeAll [] (joined (threeTables.whereOf lateJoin)
        (fun _ => []) (threeTables.joinOf lateJoin)) :=
  ⟨Data.select_accepted (by decide +kernel), by decide +kernel, by decide +kernel, by decide +kernel⟩

end DatabaseEngine
