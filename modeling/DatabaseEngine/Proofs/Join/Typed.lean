import DatabaseEngine.Proofs.Join.Outer
import DatabaseEngine.Proofs.Join.Stored
import DatabaseEngine.Proofs.Select.Folds
import DatabaseEngine.Spec.Soundness

/-!
# `DatabaseEngine.Proofs.Join.Typed`: the rows that a SELECT reads match its schema

A row of a join is put together in a work row that holds anything behind the tables that have been
read. What is stored of it is only what the tables have filled, and what comes back from the heap
of the join is what was stored, as long as no record lies across its own slot.

* `joinTables_typed`, `hashJoin_typed`: the rows that a join stores have the types of the columns
  of its tables, one table after the other.
* `buildJoinRows_fitting`: the join heap gives them back, as records know them.
* `selectSource_typed`: the rows that a SELECT is run against are rows of its schema.
-/

set_option autoImplicit false

namespace DatabaseEngine

open Library

/-- The types of the columns of a table. -/
def CatalogNode.types (table : CatalogNode) : List ColType := table.cols.map Column.type

/-- The types of the columns of a join, one table after the other. -/
def joinTypes (tables : List JoinTable) : List ColType :=
  tables.flatMap fun table => table.stored.node.types

/-! ### Rows -/

section
variable {table : CatalogNode} {row : Row}

/-- A column's type is the one it was declared with. -/
theorem columnType_get {slot : Nat} (h : slot < table.cols.length) :
    table.columnType slot = (table.cols[slot]).type := by
  unfold CatalogNode.columnType
  rw [List.getElem?_eq_getElem h]

/-- A row of a table, value by value. -/
theorem rowIn_iff : RowIn table row ↔ List.Forall₂ Value.Of row table.types := by
  unfold CatalogNode.types
  rw [List.forall₂_iff_get]
  constructor
  · intro h
    refine ⟨by rw [h.length, List.length_map], fun slot hslot hslot' => ?_⟩
    have hlt : slot < table.cols.length := by rwa [List.length_map] at hslot'
    have htyped := h.typed slot hlt
    rw [columnType_get hlt, Row.value, List.getD_eq_getElem?_getD,
      List.getElem?_eq_getElem hslot] at htyped
    rw [List.get_eq_getElem, List.get_eq_getElem, List.getElem_map]
    exact htyped
  · rintro ⟨hlength, hget⟩
    rw [List.length_map] at hlength
    refine ⟨hlength, fun slot hlt => ?_⟩
    have hslot : slot < row.length := by omega
    have htyped := hget slot hslot (by rwa [List.length_map])
    rw [columnType_get hlt, Row.value, List.getD_eq_getElem?_getD,
      List.getElem?_eq_getElem hslot]
    rw [List.get_eq_getElem, List.get_eq_getElem, List.getElem_map] at htyped
    exact htyped

/-- NULLs are of every type. -/
theorem nullRow_typed : List.Forall₂ Value.Of (nullRow table) table.types := by
  unfold nullRow CatalogNode.types
  rw [List.forall₂_map_left_iff, List.forall₂_map_right_iff]
  exact List.forall₂_same.mpr fun _ _ => .inl rfl

/-- A record keeps the types of what is there. -/
theorem recorded_of {value : Value} {type : ColType} (h : value.Of type) :
    value.recorded.Of type := by
  unfold Value.recorded
  by_cases hnull : value.isNull = true
  · rw [if_pos hnull]
    exact .inl rfl
  · obtain rfl : value.type = type := h.resolve_left hnull
    rw [if_neg hnull]
    refine .inr ?_
    split
    · rfl
    · rename_i hint
      split
      · rename_i hfloat
        exact hfloat.symm
      · rename_i hfloat
        cases htype : value.type with
        | TYPE_TEXT => rfl
        | TYPE_INT | TYPE_DATE =>
          rw [htype] at hint
          exact absurd rfl hint
        | TYPE_FLOAT => exact absurd htype hfloat

end

/-! ### The work row -/

/-- The stored rows have the types of the join, and the work row those of the tables that have
been read. -/
structure JoinState.Typed (total done : List ColType) (state : JoinState) : Prop where
  out : ∀ row ∈ state.out, List.Forall₂ Value.Of row total
  length : state.work.length = MAX_COLS
  front : List.Forall₂ Value.Of (state.work.take done.length) done

section
variable {total done types : List ColType} {state state' : JoinState} {wher : Condition}
  {sub : Subqueries}

/-- One more table is read. -/
theorem JoinState.Typed.fill (h : state.Typed total done) {values : List Value}
    (hvalues : List.Forall₂ Value.Of values types)
    (hroom : (done ++ types).length ≤ MAX_COLS) :
    (state.fill done.length values).Typed total (done ++ types) := by
  have hlength := hvalues.length_eq
  rw [List.length_append, ← hlength, ← h.length] at hroom
  refine ⟨h.out, (storeAt_length hroom).trans h.length, ?_⟩
  rw [List.length_append, ← hlength]
  show List.Forall₂ Value.Of ((storeAt _ _ _).take _) _
  rw [storeAt_take hroom]
  exact List.rel_append h.front hvalues

/-- Some of the tables forgotten. -/
theorem JoinState.Typed.back (h : state.Typed total (done ++ types)) : state.Typed total done := by
  refine ⟨h.out, h.length, ?_⟩
  have htake := List.forall₂_take done.length h.front
  rw [List.take_left, List.take_take, List.length_append,
    Nat.min_eq_left (Nat.le_add_right _ _)] at htake
  exact htake

/-- The last level stores rows of the schema's types. -/
theorem joinLeaf_typed (h : state.Typed done done)
    (hleaf : joinLeaf wher sub done.length state = .ok state') : state'.Typed done done := by
  unfold joinLeaf at hleaf
  split at hleaf
  · rw [storeWork_eq] at hleaf
    split at hleaf
    · exact absurd hleaf (by simp)
    · rw [← Except.ok.inj hleaf]
      refine ⟨fun row hrow => ?_, h.length, h.front⟩
      rcases List.mem_append.mp hrow with hold | hnew
      · exact h.out row hold
      · rw [List.mem_singleton.mp hnew]
        exact h.front
  · rw [← Except.ok.inj hleaf]
    exact h

/-- The scan of a table, from what the tables behind it keep. -/
theorem joinScan_typed {onRoot : Int32} {below : Nat → JoinState → Except ErrorCode JoinState}
    (hroom : (done ++ types).length ≤ MAX_COLS)
    (hbelow : ∀ state state', JoinState.Typed total (done ++ types) state →
      below (done ++ types).length state = .ok state' →
        JoinState.Typed total (done ++ types) state')
    {rows : List Row} (hrows : ∀ row ∈ rows, List.Forall₂ Value.Of row types)
    {matched matched' : Bool} (h : state.Typed total done)
    (hscan : joinScan wher sub onRoot below done.length rows matched state =
      .ok (matched', state')) : state'.Typed total done := by
  induction rows generalizing matched state with
  | nil =>
    obtain ⟨-, rfl⟩ := Prod.mk.inj (Except.ok.inj hscan)
    exact h
  | cons source rest ih =>
    have hrest : ∀ row ∈ rest, List.Forall₂ Value.Of row types := fun row hr =>
      hrows row (List.mem_cons_of_mem _ hr)
    have hsource := hrows source List.mem_cons_self
    have hfilled := h.fill hsource hroom
    rw [joinScan] at hscan
    split at hscan
    · exact ih hrest hfilled.back hscan
    · split at hscan
      · exact absurd hscan (by simp)
      · rename_i next hnext
        rw [hsource.length_eq, ← List.length_append] at hnext
        exact ih hrest (hbelow _ _ hfilled hnext).back hscan

/-- The loops store rows of the join's types. The induction is on the tables that are left. -/
theorem joinTables_typed {tables : List JoinTable}
    (hrows : ∀ table ∈ tables, ∀ row ∈ table.stored.rows, RowIn table.stored.node row)
    (hroom : (done ++ joinTypes tables).length ≤ MAX_COLS)
    (h : state.Typed (done ++ joinTypes tables) done)
    (hjoin : joinTables wher sub tables done.length state = .ok state') :
    state'.Typed (done ++ joinTypes tables) done := by
  induction tables generalizing done state state' with
  | nil =>
    rw [joinTypes, List.flatMap_nil, List.append_nil] at h ⊢
    exact joinLeaf_typed h hjoin
  | cons table rest ih =>
    have hsplit : done ++ joinTypes (table :: rest) =
        done ++ table.stored.node.types ++ joinTypes rest := by
      rw [joinTypes, List.flatMap_cons, List.append_assoc]
      rfl
    rw [hsplit] at h hroom ⊢
    have hroom' : (done ++ table.stored.node.types).length ≤ MAX_COLS := by
      rw [List.length_append] at hroom
      omega
    have hbelow : ∀ state state',
        JoinState.Typed (done ++ table.stored.node.types ++ joinTypes rest)
          (done ++ table.stored.node.types) state →
        joinTables wher sub rest (done ++ table.stored.node.types).length state = .ok state' →
        JoinState.Typed (done ++ table.stored.node.types ++ joinTypes rest)
          (done ++ table.stored.node.types) state' := fun state state' hstate hrest =>
      ih (fun other ho => hrows other (List.mem_cons_of_mem _ ho)) hroom hstate hrest
    rw [joinTables] at hjoin
    split at hjoin
    · exact absurd hjoin (by simp)
    · rename_i matched scanned hscan
      have hscanned := joinScan_typed hroom' hbelow
        (fun row hr => rowIn_iff.mp (hrows table List.mem_cons_self row hr)) h hscan
      split at hjoin
      · -- no row matched, and NULLs stand for the table
        have hfilled := hscanned.fill (@nullRow_typed table.stored.node) hroom'
        have hlength : done.length + table.stored.node.cols.length =
            (done ++ table.stored.node.types).length := by
          rw [List.length_append, CatalogNode.types, List.length_map]
        rw [hlength] at hjoin
        exact (hbelow _ _ hfilled hjoin).back
      · rw [← Except.ok.inj hjoin]
        exact hscanned

/-! ### The hash join -/

/-- The entries of the hash table are rows of the built side. -/
theorem buildEntries_mem {buildSlot : Nat} {rows : List Row} {storage : Row} {entry : JoinEntry}
    (h : entry ∈ buildEntries buildSlot rows storage) : entry.row ∈ rows := by
  induction rows generalizing storage with
  | nil => exact absurd h (by simp [buildEntries])
  | cons record rest ih =>
    rw [buildEntries] at h
    split at h
    · exact List.mem_cons_of_mem _ (ih h)
    · rcases List.mem_cons.mp h with rfl | h
      · exact List.mem_cons_self
      · exact List.mem_cons_of_mem _ (ih h)

/-- What is found under a key are rows of the entries. -/
theorem joinMatches_mem {entries : List JoinEntry} {buckets : List Nat} {key : Value} {row : Row}
    (h : row ∈ joinMatches entries buckets key) : ∃ entry ∈ entries, entry.row = row := by
  obtain ⟨i, -, hi⟩ := List.mem_filterMap.mp h
  cases hentry : entries[i]? with
  | none =>
    rw [hentry] at hi
    exact absurd hi (by simp)
  | some entry =>
    rw [hentry] at hi
    dsimp only at hi
    split at hi
    · exact ⟨entry, List.mem_of_getElem? hentry, Option.some.inj hi⟩
    · exact absurd hi (by simp)

/-- The rows stored for one key are of the schema's types. -/
theorem joinFound_typed {done : List ColType} {row : Row} {found : List Row}
    (hroom : (done ++ types).length ≤ MAX_COLS) (hrow : List.Forall₂ Value.Of row done)
    (hfound : ∀ built ∈ found, List.Forall₂ Value.Of built types)
    (h : state.Typed (done ++ types) [])
    (hjoin : joinFound wher sub done.length (done ++ types).length row found state = .ok state') :
    state'.Typed (done ++ types) [] := by
  induction found generalizing state with
  | nil =>
    rw [← Except.ok.inj hjoin]
    exact h
  | cons built rest ih =>
    rw [joinFound] at hjoin
    split at hjoin
    · exact absurd hjoin (by simp)
    · rename_i next hnext
      have hroom' : ([] ++ done).length ≤ MAX_COLS := by
        rw [List.length_append] at hroom
        rw [List.nil_append]
        omega
      have hleft : (state.fill 0 row).Typed (done ++ types) done := h.fill hrow hroom'
      have hboth := hleft.fill (hfound built List.mem_cons_self) hroom
      have hstored := joinLeaf_typed hboth hnext
      exact ih (fun other ho => hfound other (List.mem_cons_of_mem _ ho))
        (@JoinState.Typed.back _ [] (done ++ types) _ hstored) hjoin

/-- So are those of all keys. -/
theorem probeRows_typed {done : List ColType} {probeSlot : Nat} {entries : List JoinEntry}
    {buckets : List Nat} {rows : List Row} (hroom : (done ++ types).length ≤ MAX_COLS)
    (hrows : ∀ row ∈ rows, List.Forall₂ Value.Of row done)
    (hentries : ∀ entry ∈ entries, List.Forall₂ Value.Of entry.row types)
    (h : state.Typed (done ++ types) [])
    (hjoin : probeRows wher sub done.length (done ++ types).length probeSlot entries buckets rows
      state = .ok state') : state'.Typed (done ++ types) [] := by
  induction rows generalizing state with
  | nil =>
    rw [← Except.ok.inj hjoin]
    exact h
  | cons row rest ih =>
    have hrest : ∀ other ∈ rest, List.Forall₂ Value.Of other done := fun other ho =>
      hrows other (List.mem_cons_of_mem _ ho)
    rw [probeRows] at hjoin
    split at hjoin
    · exact ih hrest h hjoin
    · split at hjoin
      · exact absurd hjoin (by simp)
      · rename_i next hnext
        refine ih hrest (joinFound_typed hroom (hrows row List.mem_cons_self) ?_ h hnext) hjoin
        intro built hbuilt
        obtain ⟨entry, hentry, rfl⟩ := joinMatches_mem hbuilt
        exact hentries entry hentry

/-- A hash join of typed tables stores typed rows. -/
theorem hashJoin_typed {first second : StoredTable} {kept probeSlot buildSlot : Nat}
    (hroom : (first.node.types ++ second.node.types).length ≤ MAX_COLS)
    (hfirst : ∀ row ∈ first.rows, RowIn first.node row)
    (hsecond : ∀ row ∈ second.rows, RowIn second.node row)
    (h : state.Typed (first.node.types ++ second.node.types) [])
    (hjoin : hashJoin wher sub kept (first.node.types ++ second.node.types).length first second
      probeSlot buildSlot state = .ok state') :
    state'.Typed (first.node.types ++ second.node.types) [] := by
  have hlength : first.node.cols.length = first.node.types.length := (List.length_map _).symm
  unfold hashJoin at hjoin
  rw [hlength] at hjoin
  exact probeRows_typed hroom (fun row hr => rowIn_iff.mp (hfirst row hr))
    (fun entry he => rowIn_iff.mp (hsecond _ (buildEntries_mem he))) h hjoin

/-- Either way of joining. -/
theorem joinRows_typed {tables : List JoinTable} {kept : Nat}
    (hrows : ∀ table ∈ tables, ∀ row ∈ table.stored.rows, RowIn table.stored.node row)
    (hroom : (joinTypes tables).length ≤ MAX_COLS) (h : state.Typed (joinTypes tables) [])
    (hjoin : joinRows wher sub kept (joinTypes tables).length tables state = .ok state') :
    state'.Typed (joinTypes tables) [] := by
  unfold joinRows at hjoin
  split at hjoin
  · rename_i first second _
    have htypes : joinTypes [first, second] =
        first.stored.node.types ++ second.stored.node.types := by
      simp [joinTypes]
    rw [htypes] at h hroom hjoin ⊢
    exact hashJoin_typed hroom (hrows first (by simp)) (hrows second (by simp)) h hjoin
  · exact @joinTables_typed [] _ _ _ _ _ hrows hroom h hjoin

end

/-! ### The rows of a SELECT -/

/-- The tables hold rows of theirs, and so do the indexes on them; no index is on a join. -/
structure Data.Typed (data : Data) : Prop where
  rows : ∀ stored ∈ data.tables, ∀ row ∈ stored.rows, RowIn stored.node row
  indexed : ∀ index ∈ data.indexes, ∀ stored ∈ data.tables,
    index.table.same stored.node.table = true → ∀ op key found,
      data.candidates index op key = .ok found → ∀ row ∈ found, RowIn stored.node row
  unjoined : ∀ index ∈ data.indexes, index.table.same (Name.ofBytes JOIN_SCHEMA_NAME) = false

/-- No row that goes into the join heap is so large that its record lies across its own slot. -/
def JoinFits (data : Data) (statics : Statics) (sub : Subqueries) (select : ParsedSelect) : Prop :=
  ∀ schema rows, joinSchemaNeeded select = true →
    buildJoinSchema (data.tables.map StoredTable.node) select.tables = .ok schema →
      joinedRows data statics sub schema select = .ok rows → ∀ row ∈ rows, recordSize row ≤ FITTING

section
variable {data : Data} {statics : Statics} {sub : Subqueries} {select : ParsedSelect}
  {schema : CatalogNode} {rows : List Row}

/-- The schema that a SELECT is run against is the one that it was checked against. -/
theorem selectSource_schema (h : selectSource data statics sub select = .ok (schema, rows)) :
    selectSchema (data.tables.map StoredTable.node) select = .ok schema := by
  unfold selectSource at h
  unfold selectSchema
  by_cases hjoin : joinSchemaNeeded select = true
  · rw [if_pos hjoin] at h ⊢
    cases hschema : buildJoinSchema (data.tables.map StoredTable.node) select.tables with
    | error code =>
      rw [hschema] at h
      exact absurd h (by simp)
    | ok schema =>
      rw [hschema] at h
      dsimp only at h
      cases hrows : buildJoinRows data statics sub schema select with
      | error code =>
        rw [hrows] at h
        exact absurd h (by simp [Except.map])
      | ok rows' =>
        rw [hrows] at h
        exact congrArg (fun source => Except.ok source.1) (Except.ok.inj h)
  · rw [if_neg hjoin] at h ⊢
    cases hhead : select.tables.head? with
    | none =>
      rw [hhead] at h
      exact absurd h (by simp)
    | some entry =>
      rw [hhead, Option.bind_some] at h
      rw [Option.bind_some, findTable_data]
      cases hstored : data.table entry.table with
      | none =>
        rw [hstored] at h
        exact absurd h (by simp)
      | some stored =>
        rw [hstored] at h
        exact congrArg (fun source => Except.ok source.1) (Except.ok.inj h)

/-- The columns of a table in FROM keep their types. -/
theorem flattened_types (aliasName : Name) (source : CatalogNode) :
    (flattened aliasName source).map Column.type = source.types := by
  unfold flattened CatalogNode.types
  rw [List.map_map]
  rfl

/-- The schema of a join has the types of its tables, in order. -/
theorem flattenTables_types {list : List FromTable} {roots : List Int32} {prior : List Name}
    {cols flat : List Column} {tables : List JoinTable}
    (htables : joinTablesOf data list roots = .ok tables)
    (hschema : flattenTables (data.tables.map StoredTable.node) list prior cols = .ok flat) :
    flat.map Column.type = cols.map Column.type ++ joinTypes tables ∧
      ∀ table ∈ tables, table.stored ∈ data.tables := by
  induction list generalizing roots tables prior cols with
  | nil =>
    obtain rfl := Except.ok.inj htables
    obtain rfl := Except.ok.inj hschema
    exact ⟨(List.append_nil _).symm, fun table ht => absurd ht (by simp)⟩
  | cons entry rest ih =>
    unfold joinTablesOf at htables
    unfold flattenTables at hschema
    rw [findTable_data] at hschema
    split at htables
    · exact absurd htables (by simp)
    · rename_i stored hstored
      obtain ⟨others, hothers, rfl⟩ := map_ok htables
      rw [hstored] at hschema
      split at hschema
      · exact absurd hschema (by simp)
      · simp only [Option.map_some] at hschema
        split at hschema
        · exact absurd hschema (by simp)
        · obtain ⟨htypes, hmem⟩ := ih hothers hschema
          refine ⟨?_, fun table ht => ?_⟩
          · rw [htypes, List.map_append, flattened_types, List.append_assoc]
            rfl
          · rcases List.mem_cons.mp ht with rfl | ht
            · exact List.mem_of_find?_eq_some hstored
            · exact hmem table ht

/-- The rows that go into the join heap. -/
theorem joinedRows_typed (hdata : data.Typed)
    (hschema : buildJoinSchema (data.tables.map StoredTable.node) select.tables = .ok schema)
    (h : joinedRows data statics sub schema select = .ok rows) :
    schema.types.length ≤ MAX_COLS ∧ ∀ row ∈ rows, List.Forall₂ Value.Of row schema.types := by
  unfold joinedRows at h
  split at h
  · exact absurd h (by simp)
  · rename_i wher _
    split at h
    · exact absurd h (by simp)
    · rename_i tables htables
      obtain ⟨state, hjoin, rfl⟩ := map_ok h
      obtain ⟨flat, hflat, rfl⟩ := map_ok hschema
      obtain ⟨htypes, hmem⟩ := flattenTables_types htables hflat
      obtain ⟨-, hwide⟩ := flattenTables_width htables hflat (Nat.zero_le _)
      rw [List.map_nil, List.nil_append] at htypes
      have hlength : flat.length = (joinTypes tables).length := by
        rw [← htypes, List.length_map]
      have hstart : JoinState.Typed (joinTypes tables) [] { out := [], work := statics.work } :=
        ⟨fun row hr => absurd hr (by simp), statics.width, .nil⟩
      rw [hlength] at hjoin
      have hstored := joinRows_typed
        (fun table ht => hdata.rows table.stored (hmem table ht)) (by omega) hstart hjoin
      rw [CatalogNode.types, htypes]
      exact ⟨by omega, hstored.out⟩

/-- The rows of the join heap are those that went in, as records know them. -/
theorem buildJoinRows_fitting (hdata : data.Typed)
    (hschema : buildJoinSchema (data.tables.map StoredTable.node) select.tables = .ok schema)
    {joined : List Row} (hjoined : joinedRows data statics sub schema select = .ok joined)
    (hfits : ∀ row ∈ joined, recordSize row ≤ FITTING) :
    buildJoinRows data statics sub schema select = .ok (joined.map (List.map Value.recorded)) := by
  obtain ⟨hwide, htyped⟩ := joinedRows_typed hdata hschema hjoined
  unfold buildJoinRows
  rw [hjoined]
  refine joinHeapRows_fitting schema.table (fun row hrow => ?_) hfits
  rw [(htyped row hrow).length_eq]
  exact hwide

/-- The rows that a SELECT is run against. -/
theorem selectSource_typed (hdata : data.Typed) (hfits : JoinFits data statics sub select)
    (h : selectSource data statics sub select = .ok (schema, rows)) :
    ∀ row ∈ rows, RowIn schema row := by
  unfold selectSource at h
  split at h
  · rename_i hneeded
    cases hschema : buildJoinSchema (data.tables.map StoredTable.node) select.tables with
    | error code =>
      rw [hschema] at h
      exact absurd h (by simp)
    | ok joined =>
      rw [hschema] at h
      obtain ⟨found, hfound, heq⟩ := map_ok h
      obtain ⟨rfl, rfl⟩ := Prod.mk.inj heq
      cases hjoined : joinedRows data statics sub joined select with
      | error code =>
        unfold buildJoinRows at hfound
        rw [hjoined] at hfound
        exact absurd hfound (by simp)
      | ok stored =>
        have hrows := buildJoinRows_fitting hdata hschema hjoined
          (hfits joined stored hneeded hschema hjoined)
        obtain rfl := Except.ok.inj (hfound.symm.trans hrows)
        intro row hr
        obtain ⟨work, hwork, rfl⟩ := List.mem_map.mp hr
        rw [rowIn_iff, List.forall₂_map_left_iff]
        exact ((joinedRows_typed hdata hschema hjoined).2 work hwork).imp fun _ _ => recorded_of
  · split at h
    · exact absurd h (by simp)
    · rename_i stored hstored
      obtain ⟨rfl, rfl⟩ := Prod.mk.inj (Except.ok.inj h)
      obtain ⟨entry, -, hentry⟩ := Option.bind_eq_some_iff.mp hstored
      exact hdata.rows stored (List.mem_of_find?_eq_some hentry)

end

end DatabaseEngine
