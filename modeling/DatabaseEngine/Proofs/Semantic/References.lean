import DatabaseEngine.Model.Lexer
import DatabaseEngine.Proofs.Select.Reading
import DatabaseEngine.Spec.References

/-!
# `DatabaseEngine.Proofs.Semantic.References`: columns are found by name

* `findColumn_iff`: the three ways in which a name is looked up.
* `resolves_iff_clear`: a reference is bound to the column it names where none of them mixes the
  columns up.
* `references_resolve_iff`: every reference is, exactly where the columns are kept under names of
  their own.
* `Short.apart`: so are names that fit, without dots in those of columns.
-/

set_option autoImplicit false

namespace DatabaseEngine

open Library

/-! ### Names -/

/-- Equal names are equal to the same names. -/
theorem sameText_congr_right {a b : List UInt8} (h : sameText a b = true) (x : List UInt8) :
    sameText x a = sameText x b := by
  have heq : a.map tolower = b.map tolower := by simpa [sameText] using h
  simp only [sameText, heq]

/-- Names that are alike have their dots in the same places. -/
theorem sameText_dot {a b : List UInt8} (h : sameText a b = true) : 46 ∈ a ↔ 46 ∈ b := by
  have heq : a.map tolower = b.map tolower := by simpa [sameText] using h
  have hmap : ∀ x : List UInt8, 46 ∈ x ↔ 46 ∈ x.map tolower := by
    intro x
    simp only [List.mem_map, tolower_dot, exists_eq_right]
  rw [hmap a, hmap b, heq]

/-- A name has no last part exactly if there is no dot in it. -/
theorem afterDot_none {a : List UInt8} : afterDot a = none ↔ 46 ∉ a := by
  unfold afterDot
  split <;> simp [*]

/-- What follows the last dot has none. -/
theorem afterDot_no_dot {a rest : List UInt8} (h : afterDot a = some rest) : 46 ∉ rest := by
  unfold afterDot at h
  split at h
  · obtain rfl := Option.some.inj h
    intro hmem
    have := List.mem_takeWhile_imp (List.mem_reverse.mp hmem)
    simp at this
  · exact absurd h (by simp)

/-- A name joined of alias and column has a dot. -/
theorem joinedName_dot (aliasName column : List UInt8) : 46 ∈ joinedName aliasName column := by
  unfold joinedName
  have hshort : (aliasName.take (NAME_LEN / 2)).length ≤ 32 := List.length_take_le ..
  rw [List.take_append, List.mem_append]
  right
  obtain ⟨n, hn⟩ : ∃ n, NAME_LEN - 1 - (aliasName.take (NAME_LEN / 2)).length = n + 1 :=
    ⟨NAME_LEN - 1 - (aliasName.take (NAME_LEN / 2)).length - 1, by simp only [NAME_LEN] at *; omega⟩
  rw [hn]
  simp

/-- A name without a zero byte is kept up to 63 bytes. -/
theorem ofBytes_text {text : List UInt8} (h : 0 ∉ text) :
    (Name.ofBytes text).1 = text.take (NAME_LEN - 1) := by
  have hall : text.takeWhile (· ≠ 0) = text := by
    refine List.takeWhile_eq_self_iff.mpr fun c hc => ?_
    have hne : c ≠ 0 := fun hzero => h (by rw [← hzero]; exact hc)
    simpa using hne
  show (text.takeWhile (· ≠ 0)).take (NAME_LEN - 1) = _
  rw [hall]

/-! ### The three ways to look a name up -/

/-- One index is the only one of its kind. -/
theorem filter_range_singleton (p : Nat → Bool) (n k : Nat) :
    (List.range n).filter p = [k] ↔ ∀ j, (j < n ∧ p j = true) ↔ j = k := by
  have hmem : ∀ j, j ∈ (List.range n).filter p ↔ (j < n ∧ p j = true) := by
    intro j
    simp
  constructor
  · intro h j
    rw [← hmem, h, List.mem_singleton]
  · intro h
    have hperm : ((List.range n).filter p).Perm [k] := by
      refine (List.perm_ext_iff_of_nodup (List.nodup_range.filter p) (by simp)).mpr ?_
      intro j
      rw [hmem, h, List.mem_singleton]
    exact List.perm_singleton.mp hperm

/-- Only what is asked of the list's own elements counts. -/
theorem findIdx_congr {α : Type} {p q : α → Bool} {l : List α} (h : ∀ a ∈ l, p a = q a) :
    l.findIdx? p = l.findIdx? q := by
  induction l with
  | nil => rfl
  | cons a l ih =>
    rw [List.findIdx?_cons, List.findIdx?_cons, h a (by simp), ih fun b hb => h b (by simp [hb])]

/-- A schema that keeps the columns of a list, and the table they are looked up under. -/
structure KeepsColumns (schema : CatalogNode) (cols : List ListedColumn) : Prop where
  names : schema.cols.map (fun c => c.name.1) = cols.map ListedColumn.kept
  table : ∀ c ∈ cols, 46 ∉ c.kept → sameText c.aliasName schema.table.1 = true

variable {schema : CatalogNode} {cols : List ListedColumn}

/-- A column is found under the name that is kept of it. -/
theorem KeepsColumns.columnNamed (h : KeepsColumns schema cols) (name : List UInt8) :
    columnNamed schema.cols name = cols.findIdx? fun c => sameText c.kept name := by
  have hmap : ∀ {β : Type} (l : List β) (f : β → List UInt8),
      (l.findIdx? fun c => sameText (f c) name) = (l.map f).findIdx? fun x => sameText x name := by
    intro β l f
    rw [List.findIdx?_map]
    rfl
  rw [DatabaseEngine.columnNamed, hmap, h.names, ← hmap cols ListedColumn.kept]

/-- The columns whose kept name ends in this one. -/
theorem KeepsColumns.tails (h : KeepsColumns schema cols) (name : List UInt8) (k : Nat) :
    ((List.range schema.cols.length).filter fun i =>
        (schema.cols[i]?).any fun c => sameText (bareName c.name.1) name) = [k] ↔
      OnlyAt (fun c => sameText (bareName c.kept) name) cols k := by
  have hat : ∀ j : Nat, (schema.cols[j]?).map (fun c : Column => c.name.1)
      = (cols[j]?).map ListedColumn.kept := by
    intro j
    rw [← List.getElem?_map, ← List.getElem?_map, h.names]
  rw [filter_range_singleton]
  unfold OnlyAt
  refine forall_congr' fun j : Nat => iff_congr ?_ Iff.rfl
  have hj := hat j
  cases hschema : schema.cols[j]? with
  | none =>
    rw [hschema, Option.map_none, eq_comm, Option.map_eq_none_iff] at hj
    simp [hj]
  | some column =>
    obtain ⟨hlt, -⟩ := List.getElem?_eq_some_iff.mp hschema
    rw [hschema, Option.map_some, eq_comm, Option.map_eq_some_iff] at hj
    obtain ⟨c, hc, hname⟩ := hj
    simp [hc, hname, hlt]

/-- How a name is looked up: whole, with the table's name in front, or behind a last dot. -/
theorem findColumn_iff (h : KeepsColumns schema cols) (name : List UInt8) (k : Nat) :
    findColumn schema name = k ↔
      (cols.findIdx? fun c => sameText c.kept name) = some k ∨
      ((cols.findIdx? fun c => sameText c.kept name) = none ∧
        ((∃ rest, afterDot name = some rest ∧
            (cols.findIdx? fun c => sameText (beforeDot name) c.aliasName && sameText c.kept rest)
              = some k) ∨
          (afterDot name = none ∧
            OnlyAt (fun c => sameText (bareName c.kept) name) cols k))) := by
  rw [findColumn, h.columnNamed]
  cases hwhole : cols.findIdx? fun c => sameText c.kept name with
  | some i =>
    simp only [Option.some.injEq, reduceCtorEq, false_and, or_false]
    omega
  | none =>
    cases hdot : afterDot name with
    | none =>
      rw [← h.tails]
      dsimp only
      split
      · rename_i hnone
        simp [hnone]
      · rename_i i hone
        simp only [hone, reduceCtorEq, false_and, exists_false, true_and, false_or,
          List.cons.injEq, and_true]
        omega
      · rename_i hnone hone
        simp only [COLUMN_AMBIGUOUS, reduceCtorEq, false_and, exists_false, true_and, false_or]
        constructor
        · intro hk
          exact absurd hk (by simp)
        · intro hk
          exact absurd hk (hone k)
    | some rest =>
      -- what follows the last dot has none, so only the columns of the table itself are kept so
      have hrest : (cols.findIdx? fun c =>
            sameText (beforeDot name) c.aliasName && sameText c.kept rest)
          = if sameText (beforeDot name) schema.table.1 then
              cols.findIdx? fun c => sameText c.kept rest
            else none := by
        have hsame : ∀ c ∈ cols,
            (sameText (beforeDot name) c.aliasName && sameText c.kept rest)
              = (sameText (beforeDot name) schema.table.1 && sameText c.kept rest) := by
          intro c hc
          cases hkept : sameText c.kept rest with
          | false => simp
          | true =>
            have hnot : 46 ∉ c.kept := fun hin =>
              afterDot_no_dot hdot ((sameText_dot hkept).mp hin)
            rw [sameText_congr_right (h.table c hc hnot)]
        rw [findIdx_congr hsame]
        cases sameText (beforeDot name) schema.table.1 with
        | false => simp
        | true => simp
      simp only [hrest, h.columnNamed, reduceCtorEq, false_and, or_false, true_and, false_or,
        Option.some.injEq, exists_eq_left']
      split
      · split
        · rename_i i hi
          rw [hi, Option.some.injEq]
          omega
        · rename_i hnone
          rw [hnone]
          constructor
          · intro hk
            exact absurd hk (by simp)
          · intro hk
            exact absurd hk (by simp)
      · constructor
        · intro hk
          exact absurd hk (by simp)
        · intro hk
          exact absurd hk (by simp)

/-! ### The schema of a query -/

/-- The columns of a table in FROM are named by alias and column. -/
theorem flattened_names (aliasName : Name) (source : CatalogNode) :
    (flattened aliasName source).map (fun c => c.name.1)
      = source.cols.map fun column => joinedName aliasName.1 column.name.1 := by
  rw [flattened, List.map_map]
  refine List.map_congr_left fun column _ => ?_
  refine ofBytes_text ?_
  intro hmem
  rcases List.mem_append.mp hmem with hmem | hmem
  · exact aliasName.2.2 (List.mem_of_mem_take hmem)
  · rcases List.mem_cons.mp hmem with hzero | hmem
    · exact absurd hzero (by decide)
    · exact column.name.2.2 hmem

/-- The columns of a FROM list are those of its tables, in order. -/
theorem flattenTables_names {tables : List CatalogNode} {list : List FromTable}
    {prior : List Name} {before after : List Column}
    (h : flattenTables tables list prior before = .ok after) :
    after.map (fun c => c.name.1) = before.map (fun c => c.name.1)
      ++ (list.flatMap (listedIn tables true)).map ListedColumn.kept := by
  induction list generalizing prior before with
  | nil =>
    obtain rfl := Except.ok.inj h
    simp
  | cons entry list ih =>
    rw [flattenTables] at h
    split at h
    · exact absurd h (by simp)
    split at h
    · exact absurd h (by simp)
    rename_i source hsource
    split at h
    · exact absurd h (by simp)
    rw [ih h, List.map_append, flattened_names, List.flatMap_cons, List.map_append,
      ← List.append_assoc]
    congr 2
    rw [listedIn, hsource, List.map_map]
    rfl

/-- The schema of a SELECT keeps the columns of its FROM list. -/
theorem selectSchema_keeps {tables : List CatalogNode} {select : ParsedSelect}
    (h : selectSchema tables select = .ok schema) : KeepsColumns schema (listedColumns tables select) := by
  rw [selectSchema] at h
  split at h
  · rename_i hjoined
    rw [listedColumns, hjoined]
    unfold buildJoinSchema at h
    cases hflat : flattenTables tables select.tables [] [] with
    | error code =>
      rw [hflat] at h
      exact absurd h (by simp [Except.map])
    | ok flat =>
      rw [hflat] at h
      obtain rfl := Except.ok.inj h
      refine ⟨by simpa using flattenTables_names hflat, fun c hc hnot => ?_⟩
      obtain ⟨entry, -, hmem⟩ := List.mem_flatMap.mp hc
      unfold listedIn at hmem
      split at hmem
      · exact absurd hmem (by simp)
      · obtain ⟨column, -, rfl⟩ := List.mem_map.mp hmem
        exact absurd (joinedName_dot _ _) hnot
  · rename_i hplain
    rw [Bool.not_eq_true] at hplain
    rw [listedColumns, hplain]
    unfold joinSchemaNeeded at hplain
    split at hplain
    · rename_i entry htables
      rw [htables, List.head?_cons, Option.bind_some] at h
      cases hfound : findTable tables entry.table with
      | none =>
        rw [hfound] at h
        exact absurd h (by simp)
      | some table =>
        rw [hfound] at h
        obtain rfl := Except.ok.inj h
        have hsame : sameText entry.aliasName.1 table.table.1 = true := by
          have hname : table.table.same entry.table = true := by
            unfold findTable at hfound
            simpa using List.find?_some hfound
          have halias : sameText entry.aliasName.1 entry.table.1 = true := by
            simpa [Name.same] using hplain
          exact sameText_trans halias (sameText_comm _ _ ▸ hname)
        have hlist : [entry].flatMap (listedIn tables false) = listedIn tables false entry := by
          simp
        rw [htables, hlist, listedIn, hfound]
        refine ⟨by rw [List.map_map]; rfl, fun c hc _ => ?_⟩
        obtain ⟨column, -, rfl⟩ := List.mem_map.mp hc
        exact hsame
    · exact absurd hplain (by simp)

/-- A reference is bound to no column but the one that it names, if each of the three ways to look
it up finds no other. -/
theorem resolves_iff_clear {tables : List CatalogNode} {select : ParsedSelect}
    (h : selectSchema tables select = .ok schema) (reference : List UInt8) :
    Resolves schema (listedColumns tables select) reference ↔
      Clear (listedColumns tables select) reference := by
  have hkeeps := selectSchema_keeps h
  unfold Resolves
  constructor
  · intro hresolves
    refine ⟨fun k hk => ?_, fun hnone rest hrest k hk => ?_, fun hnone hdot k hk => ?_⟩
    · exact hresolves k ((findColumn_iff hkeeps _ k).mpr (Or.inl hk))
    · exact hresolves k ((findColumn_iff hkeeps _ k).mpr
        (Or.inr ⟨hnone, Or.inl ⟨rest, hrest, hk⟩⟩))
    · exact hresolves k ((findColumn_iff hkeeps _ k).mpr (Or.inr ⟨hnone, Or.inr ⟨hdot, hk⟩⟩))
  · intro hclear k hk
    rcases (findColumn_iff hkeeps _ k).mp hk with hwhole | ⟨hnone, ⟨rest, hrest, hqualified⟩ |
      ⟨hdot, htail⟩⟩
    · exact hclear.whole k hwhole
    · exact hclear.qualified hnone rest hrest k hqualified
    · exact hclear.tail hnone hdot k htail

/-! ### Names in two parts -/

/-- The last dot cuts a name in two. -/
theorem lastDot_append (a : List UInt8) {c : List UInt8} (hc : 46 ∉ c) :
    afterDot (a ++ 46 :: c) = some c ∧ beforeDot (a ++ 46 :: c) = a := by
  have hreverse : (a ++ 46 :: c).reverse.takeWhile (· ≠ 46) = c.reverse := by
    rw [List.reverse_append, List.reverse_cons, List.append_assoc,
      List.takeWhile_append_of_pos fun d hd => by
        simpa using fun hdot : d = 46 => hc (hdot ▸ List.mem_reverse.mp hd)]
    simp
  constructor
  · rw [afterDot, if_pos (by simp), hreverse, List.reverse_reverse]
  · rw [beforeDot, hreverse, List.length_reverse, List.length_append, List.length_cons,
      List.take_append_of_le_length (by omega), List.take_of_length_le (by omega)]

/-- A name with a dot is its two parts around the last one. -/
theorem lastDot_eq {a rest : List UInt8} (h : afterDot a = some rest) :
    a = beforeDot a ++ 46 :: rest := by
  have hdot : 46 ∈ a := by
    by_contra hnot
    exact absurd (afterDot_none.mpr hnot ▸ h) (by simp)
  obtain ⟨s, t, ht, rfl⟩ : ∃ s t, 46 ∉ t ∧ a = s ++ 46 :: t := by
    obtain ⟨u, v, huv, hu⟩ := List.eq_append_cons_of_mem (List.mem_reverse.mpr hdot)
    refine ⟨v.reverse, u.reverse, by simpa using hu, ?_⟩
    rw [← List.reverse_reverse a, huv]
    simp
  obtain ⟨hafter, hbefore⟩ := lastDot_append s ht
  obtain rfl := Option.some.inj (hafter.symm.trans h)
  rw [hbefore]

/-- Names that are alike are alike on both sides of their last dots. -/
theorem sameText_lastDot {a b c d : List UInt8} (hc : 46 ∉ c) (hd : 46 ∉ d)
    (h : sameText (a ++ 46 :: c) (b ++ 46 :: d) = true) :
    sameText a b = true ∧ sameText c d = true := by
  have heq : (a ++ 46 :: c).map tolower = (b ++ 46 :: d).map tolower := by
    simpa [sameText] using h
  have hafter := (afterDot_lower (a ++ 46 :: c)).symm.trans
    ((congrArg afterDot heq).trans (afterDot_lower (b ++ 46 :: d)))
  have hbefore := (beforeDot_lower (a ++ 46 :: c)).symm.trans
    ((congrArg beforeDot heq).trans (beforeDot_lower (b ++ 46 :: d)))
  rw [(lastDot_append a hc).1, (lastDot_append b hd).1] at hafter
  rw [(lastDot_append a hc).2, (lastDot_append b hd).2] at hbefore
  constructor
  · simpa [sameText] using hbefore
  · simpa [sameText] using hafter

/-- Qualified names are equal when their parts are. -/
theorem sameText_lastDot_append {a b c d : List UInt8} (hab : sameText a b = true)
    (hcd : sameText c d = true) : sameText (a ++ 46 :: c) (b ++ 46 :: d) = true := by
  simp only [sameText, beq_iff_eq, List.map_append, List.map_cons] at *
  rw [hab, hcd]

/-- Equal names have the same length. -/
theorem sameText_length {a b : List UInt8} (h : sameText a b = true) : a.length = b.length := by
  have heq : a.map tolower = b.map tolower := by simpa [sameText] using h
  simpa using congrArg List.length heq

/-- What follows the same beginning. -/
theorem sameText_cancel {a b c : List UInt8} (h : sameText (a ++ 46 :: b) (a ++ 46 :: c) = true) :
    sameText b c = true := by
  simpa [sameText] using h

/-- A reference that is alike to a name that fits is kept whole. -/
theorem ofBytes_whole {reference name : List UInt8} (hzero : 0 ∉ reference)
    (hname : name.length < NAME_LEN - 1)
    (h : sameText name (Name.ofBytes reference).1 = true) : (Name.ofBytes reference).1 = reference := by
  have heq : name.map tolower = (Name.ofBytes reference).1.map tolower := by
    simpa [sameText] using h
  have hlength := congrArg List.length heq
  rw [List.length_map, List.length_map, ofBytes_text hzero, List.length_take] at hlength
  rw [ofBytes_text hzero, List.take_of_length_le (by omega)]

/-- A joined name that was not cut is the alias, a dot and the column. -/
theorem joinedName_short {aliasName column : List UInt8}
    (h : (joinedName aliasName column).length < NAME_LEN - 1) :
    joinedName aliasName column = aliasName.take (NAME_LEN / 2) ++ 46 :: column := by
  unfold joinedName at h ⊢
  rw [List.length_take] at h
  exact List.take_of_length_le (by omega)

/-- What the columns of a FROM list are kept under. -/
theorem listedColumns_kept (tables : List CatalogNode) (select : ParsedSelect) :
    (∀ c ∈ listedColumns tables select, c.kept = joinedName c.aliasName c.column) ∨
      (∀ c ∈ listedColumns tables select, c.kept = c.column) ∧
        ∀ c ∈ listedColumns tables select, ∀ d ∈ listedColumns tables select,
          c.aliasName = d.aliasName := by
  have hin : ∀ {joined : Bool} {entry : FromTable} {c : ListedColumn},
      c ∈ listedIn tables joined entry → c.aliasName = entry.aliasName.1 ∧
        c.kept = if joined then joinedName c.aliasName c.column else c.column := by
    intro joined entry c hc
    unfold listedIn at hc
    split at hc
    · exact absurd hc (by simp)
    · obtain ⟨column, -, rfl⟩ := List.mem_map.mp hc
      exact ⟨rfl, rfl⟩
  cases hjoined : joinSchemaNeeded select with
  | true =>
    left
    intro c hc
    obtain ⟨entry, -, hmem⟩ := List.mem_flatMap.mp hc
    rw [(hin hmem).2, if_pos hjoined]
  | false =>
    right
    have hone : ∃ entry, select.tables = [entry] := by
      unfold joinSchemaNeeded at hjoined
      split at hjoined
      · rename_i entry htables
        exact ⟨entry, htables⟩
      · exact absurd hjoined (by simp)
    obtain ⟨entry, htables⟩ := hone
    have hmem : ∀ c ∈ listedColumns tables select, c ∈ listedIn tables false entry := by
      intro c hc
      rw [listedColumns, htables, hjoined] at hc
      simpa using hc
    constructor
    · intro c hc
      rw [(hin (hmem c hc)).2, if_neg (by simp)]
    · intro c hc d hd
      rw [(hin (hmem c hc)).1, (hin (hmem d hd)).1]

/-- The names of listed columns are those of C strings, and kept in such buffers. -/
theorem listedColumns_bounded {tables : List CatalogNode} {select : ParsedSelect}
    {c : ListedColumn} (hc : c ∈ listedColumns tables select) :
    c.kept.length ≤ NAME_LEN - 1 ∧ 0 ∉ c.aliasName ∧ 0 ∉ c.kept := by
  obtain ⟨entry, -, hmem⟩ := List.mem_flatMap.mp hc
  unfold listedIn at hmem
  split at hmem
  · exact absurd hmem (by simp)
  · obtain ⟨column, -, rfl⟩ := List.mem_map.mp hmem
    refine ⟨?_, entry.aliasName.2.2, ?_⟩
    · dsimp only
      split
      · exact List.length_take_le ..
      · exact Nat.le_sub_one_of_lt column.name.2.1
    · dsimp only
      split
      · intro hzero
        rcases List.mem_append.mp (List.mem_of_mem_take hzero) with halias | hcolumn
        · exact entry.aliasName.2.2 (List.mem_of_mem_take halias)
        · rcases List.mem_cons.mp hcolumn with hdot | hcolumn
          · exact absurd hdot (by decide)
          · exact column.name.2.2 hcolumn
      · exact column.name.2.2

/-! ### Names of their own -/

/-- Names that are alike name the same columns. -/
theorem namedBy_congr {a b : List UInt8} (h : sameText a b = true) (c : ListedColumn) :
    c.NamedBy a = c.NamedBy b := by
  have hsame : ∀ x, sameText a x = sameText b x := fun x => by
    rw [sameText_comm a, sameText_comm b, sameText_congr_right h]
  unfold ListedColumn.NamedBy
  rw [hsame, hsame]

/-- Equal references name the same columns. -/
theorem namesOnly_congr {a b : List UInt8} {k : Nat} (h : sameText a b = true) :
    NamesOnly cols a k ↔ NamesOnly cols b k := by
  unfold NamesOnly OnlyAt
  simp only [namedBy_congr h]

/-- A name of a column is no longer than the longer one of its two. -/
theorem namedBy_length {c : ListedColumn} {reference : List UInt8}
    (h : c.NamedBy reference = true) :
    reference.length ≤ c.aliasName.length + 1 + c.column.length := by
  rcases Bool.or_eq_true _ _ ▸ h with hfull | hbare
  · have hlength := sameText_length hfull
    rw [List.length_append, List.length_cons] at hlength
    omega
  · have hlength := sameText_length hbare
    omega

/-- A kept name that fills its buffer is also what a longer reference is cut to, one that names no
column. -/
theorem exists_cut (cols : List ListedColumn) {text : List UInt8} (hzero : 0 ∉ text)
    (hfull : text.length = NAME_LEN - 1) :
    ∃ reference, 0 ∉ reference ∧ (Name.ofBytes reference).1 = text ∧
      ∀ k, ¬NamesOnly cols reference k := by
  obtain ⟨n, hn⟩ : ∃ n, ∀ c ∈ cols, c.aliasName.length + 1 + c.column.length < n := by
    induction cols with
    | nil => exact ⟨0, fun c hc => absurd hc (by simp)⟩
    | cons first rest ih =>
      obtain ⟨n, hn⟩ := ih
      refine ⟨max n (first.aliasName.length + 1 + first.column.length + 1), fun c hc => ?_⟩
      rcases List.mem_cons.mp hc with rfl | hc
      · omega
      · have hlt := hn c hc
        omega
  have hzero' : 0 ∉ text ++ List.replicate n 97 := by
    intro hin
    rcases List.mem_append.mp hin with hin | hin
    · exact hzero hin
    · exact absurd (List.eq_of_mem_replicate hin) (by decide)
  refine ⟨text ++ List.replicate n 97, hzero', ?_, fun k honly => ?_⟩
  · rw [ofBytes_text hzero', ← hfull, List.take_left]
  · obtain ⟨c, hc, hnamed⟩ := (honly k).mpr rfl
    have hlong := namedBy_length hnamed
    have hshort := hn c (List.mem_of_getElem? hc)
    rw [List.length_append, List.length_replicate] at hlong
    omega

/-- What is found is of the kind that was looked for. -/
theorem findIdx_at {kind : ListedColumn → Bool} {k : Nat} (h : cols.findIdx? kind = some k) :
    ∃ c, cols[k]? = some c ∧ kind c = true := by
  obtain ⟨hlt, hkind, -⟩ := List.findIdx?_eq_some_iff_getElem.mp h
  exact ⟨cols[k], by simp [hlt], hkind⟩

/-- If there is one of the kind, one is found. -/
theorem findIdx_exists (kind : ListedColumn → Bool) {c : ListedColumn} (hc : c ∈ cols)
    (hkind : kind c = true) : ∃ k, cols.findIdx? kind = some k := by
  cases hfound : cols.findIdx? kind with
  | some k => exact ⟨k, rfl⟩
  | none =>
    rw [List.findIdx?_eq_none_iff.mp hfound c hc] at hkind
    exact absurd hkind (by simp)

/-- The first column that is kept under a name is the only one it names. -/
theorem NamesApart.namesOnly (h : NamesApart cols) {name : List UInt8} {k : Nat}
    (hk : (cols.findIdx? fun c => sameText c.kept name) = some k) : NamesOnly cols name k := by
  obtain ⟨hlt, hkind, hfirst⟩ := List.findIdx?_eq_some_iff_getElem.mp hk
  have hkept : KeptAlone cols k cols[k] := by
    refine h.own k hlt cols[k] (by simp [hlt]) fun j hj d hd => ?_
    obtain ⟨hjlt, rfl⟩ := List.getElem?_eq_some_iff.mp hd
    have hno : ¬sameText cols[j].kept name = true := hfirst j hj
    by_contra hyes
    exact hno (sameText_trans (Bool.not_eq_false _ ▸ hyes) hkind)
  rw [← namesOnly_congr hkind]
  intro j
  constructor
  · rintro ⟨d, hd, hnamed⟩
    by_contra hne
    have hno := hkept.2 j (List.getElem?_eq_some_iff.mp hd).1 hne d hd
    exact absurd (hnamed.symm.trans hno) (by simp)
  · rintro rfl
    exact ⟨cols[j], by simp [hlt], hkept.1⟩

section
variable {reference : List UInt8}

/-- The column that a reference without a dot is alike to, if no other is. -/
theorem names_bare {k : Nat} {c : ListedColumn} (hk : cols[k]? = some c)
    (hname : sameText c.column reference = true) (hdot : 46 ∉ reference)
    (honly : ∀ (j : Nat) (d : ListedColumn), cols[j]? = some d →
      sameText d.column reference = true → j = k) : NamesOnly cols reference k := by
  intro j
  constructor
  · rintro ⟨d, hj, hnamed⟩
    rcases Bool.or_eq_true _ _ ▸ hnamed with hd | hd
    · exact absurd ((sameText_dot hd).mpr (by simp)) hdot
    · exact honly j d hj (sameText_comm _ _ ▸ hd)
  · rintro rfl
    refine ⟨c, hk, (Bool.or_eq_true _ _).mpr (Or.inr ?_)⟩
    rw [sameText_comm, hname]

/-- A column that is found by its last part has no other. -/
theorem NamesApart.undotted (h : NamesApart cols) {k : Nat} {c : ListedColumn} (hk : cols[k]? = some c)
    {name : List UInt8} (honly : OnlyAt (fun c => sameText (bareName c.kept) name) cols k) :
    46 ∉ c.column := by
  intro hdot
  obtain ⟨c', hc', htail⟩ := (honly k).mpr rfl
  obtain rfl := Option.some.inj (hk.symm.trans hc')
  obtain ⟨j, -, hne, d, hd, hsame⟩ := h.dotted k (List.getElem?_eq_some_iff.mp hk).1 c hk hdot
  exact hne ((honly j).mp ⟨d, hd, sameText_trans hsame htail⟩)

/-- The first way finds no other column: a reference that is alike to a kept name has not been
cut. -/
theorem NamesApart.whole (h : NamesApart cols) (hzero : 0 ∉ reference) {k : Nat}
    (hk : (cols.findIdx? fun c => sameText c.kept (Name.ofBytes reference).1) = some k) :
    NamesOnly cols reference k := by
  obtain ⟨c, hc, hname⟩ := findIdx_at hk
  have hreference := ofBytes_whole hzero (h.short c (List.mem_of_getElem? hc)) hname
  rw [hreference] at hk
  exact h.namesOnly hk

/-- In a join every kept name has a dot. -/
theorem NamesApart.clear_joined (h : NamesApart cols) (hzero : 0 ∉ reference)
    (hkept : ∀ c ∈ cols, c.kept = joinedName c.aliasName c.column) : Clear cols reference := by
  refine ⟨fun k hk => h.whole hzero hk, fun _ rest hrest k hk => ?_, fun _ hnone k hk => ?_⟩
  · obtain ⟨c, hc, hname⟩ := findIdx_at hk
    have hkeptrest : sameText c.kept rest = true := (Bool.and_eq_true _ _ ▸ hname).2
    have hdot : 46 ∈ c.kept := by
      rw [hkept c (List.mem_of_getElem? hc)]
      exact joinedName_dot _ _
    exact absurd ((sameText_dot hkeptrest).mp hdot) (afterDot_no_dot hrest)
  · -- nothing is cut off a kept name, so that it ends in the column
    have htails : ∀ d ∈ cols, 46 ∉ d.column → bareName d.kept = d.column := by
      intro d hd hplain
      have hshort := h.short d hd
      rw [hkept d hd] at hshort ⊢
      rw [joinedName_short hshort, bareName, (lastDot_append _ hplain).1]
      rfl
    obtain ⟨c, hc, htail⟩ := (hk k).mpr rfl
    have hmem := List.mem_of_getElem? hc
    have hplain := h.undotted hc hk
    have hcolumn : sameText c.column (Name.ofBytes reference).1 = true :=
      htails c hmem hplain ▸ htail
    have hlength : c.column.length < NAME_LEN - 1 := by
      have hshort := h.short c hmem
      rw [hkept c hmem] at hshort
      rw [joinedName_short hshort, List.length_append, List.length_cons] at hshort
      omega
    have hreference := ofBytes_whole hzero hlength hcolumn
    refine names_bare hc (hreference ▸ hcolumn) (hreference ▸ afterDot_none.mp hnone) ?_
    intro j d hj hd
    have hbare : 46 ∉ d.column := fun hdot =>
      afterDot_none.mp hnone (hreference.symm ▸ (sameText_dot hd).mp hdot)
    refine (hk j).mp ⟨d, hj, ?_⟩
    show sameText (bareName d.kept) (Name.ofBytes reference).1 = true
    rw [htails d (List.mem_of_getElem? hj) hbare, hreference]
    exact hd

/-- In a table under its own name the kept names are those of the columns. -/
theorem NamesApart.clear_single (h : NamesApart cols) (hzero : 0 ∉ reference)
    (hkept : ∀ c ∈ cols, c.kept = c.column)
    (halias : ∀ c ∈ cols, ∀ d ∈ cols, c.aliasName = d.aliasName) : Clear cols reference := by
  refine ⟨fun k hk => h.whole hzero hk, fun hnowhole rest hrest k hk => ?_,
    fun hnowhole _ k hk => ?_⟩
  · obtain ⟨c, hc, hname⟩ := findIdx_at hk
    have hmem := List.mem_of_getElem? hc
    obtain ⟨hbefore, hafter⟩ := Bool.and_eq_true _ _ ▸ hname
    have hsplit := lastDot_eq hrest
    have hfull : sameText (c.aliasName ++ 46 :: c.kept) (Name.ofBytes reference).1 = true := by
      rw [hsplit]
      exact sameText_lastDot_append (sameText_comm _ _ ▸ hbefore) hafter
    -- the reference has not been cut: this name is shorter or longer than what it is cut to
    have hreference : (Name.ofBytes reference).1 = reference := by
      have hplain : 46 ∉ c.kept := fun hdot => afterDot_no_dot hrest ((sameText_dot hafter).mp hdot)
      have hlength := sameText_length hfull
      have hne := h.qualified c hmem hplain
      rw [List.length_append, List.length_cons] at hlength
      have hcut : (Name.ofBytes reference).1.length ≤ NAME_LEN - 1 :=
        Nat.le_sub_one_of_lt (Name.ofBytes reference).2.1
      refine ofBytes_whole hzero ?_ hfull
      rw [List.length_append, List.length_cons]
      omega
    -- under the name of the table, its columns are told apart by what follows
    have hsame : (cols.findIdx? fun c => sameText c.kept rest) = some k := by
      rw [← hk]
      refine findIdx_congr fun d hd => ?_
      rw [halias d hd c hmem, hbefore, Bool.true_and]
    have honly := h.namesOnly hsame
    rw [hreference] at hsplit hfull hnowhole
    intro j
    constructor
    · rintro ⟨d, hj, hnamed⟩
      have hd := List.mem_of_getElem? hj
      rcases Bool.or_eq_true _ _ ▸ hnamed with hfull' | hbare
      · refine (honly j).mp ⟨d, hj, (Bool.or_eq_true _ _).mpr (.inr ?_)⟩
        rw [halias d hd c hmem] at hfull'
        have hcolumns := sameText_cancel (sameText_trans hfull hfull')
        rw [sameText_comm, ← hkept d hd] at hcolumns
        rw [← hkept d hd, sameText_comm]
        exact sameText_trans hcolumns hafter
      · have hno := List.findIdx?_eq_none_iff.mp hnowhole d hd
        rw [hkept d hd, sameText_comm, hbare] at hno
        exact absurd hno (by simp)
    · rintro rfl
      refine ⟨c, hc, (Bool.or_eq_true _ _).mpr (.inl ?_)⟩
      rw [← hkept c hmem, sameText_comm]
      exact hfull
  · -- what a name without a dot ends in is the name
    obtain ⟨c, hc, htail⟩ := (hk k).mpr rfl
    have hmem := List.mem_of_getElem? hc
    have hplain := h.undotted hc hk
    have hbare : bareName c.kept = c.kept := by
      rw [hkept c hmem, bareName, afterDot_none.mpr hplain]
      rfl
    have hno := List.findIdx?_eq_none_iff.mp hnowhole c hmem
    have hyes : sameText c.kept (Name.ofBytes reference).1 = true := hbare ▸ htail
    exact absurd (hyes.symm.trans hno) (by simp)

end

/-! ### Every reference -/

section
variable {tables : List CatalogNode} {select : ParsedSelect}

section
variable (h : ∀ reference, 0 ∉ reference → Clear (listedColumns tables select) reference)
include h

/-- Where every reference is clear, no kept name fills its field: a longer reference would be cut to
it and name no column. -/
theorem short_of_clear {c : ListedColumn} (hc : c ∈ listedColumns tables select) :
    c.kept.length < NAME_LEN - 1 := by
  obtain ⟨hbound, -, hzero⟩ := listedColumns_bounded hc
  by_contra hlong
  obtain ⟨reference, hzero', hcut, hnone⟩ :=
    exists_cut (listedColumns tables select) hzero (by omega)
  obtain ⟨k, hk⟩ := findIdx_exists (fun d => sameText d.kept c.kept) hc (sameText_refl _)
  exact hnone k ((h reference hzero').whole k (hcut ▸ hk))

/-- The kept name as a reference. -/
theorem alone_of_clear {k : Nat} {c : ListedColumn} (hc : (listedColumns tables select)[k]? = some c)
    (hfirst : FirstKept (listedColumns tables select) k c) :
    KeptAlone (listedColumns tables select) k c := by
  have hmem := List.mem_of_getElem? hc
  obtain ⟨hlt, hget⟩ := List.getElem?_eq_some_iff.mp hc
  have hzero := (listedColumns_bounded hmem).2.2
  have hwhole : (Name.ofBytes c.kept).1 = c.kept := by
    rw [ofBytes_text hzero, List.take_of_length_le]
    exact Nat.le_of_lt (short_of_clear h hmem)
  have hk : ((listedColumns tables select).findIdx? fun d => sameText d.kept c.kept) = some k := by
    refine List.findIdx?_eq_some_iff_getElem.mpr ⟨hlt, by rw [hget]; exact sameText_refl _, ?_⟩
    intro j hj
    have hjlt : j < (listedColumns tables select).length := Nat.lt_trans hj hlt
    rw [hfirst j hj _ (List.getElem?_eq_getElem hjlt)]
    simp
  have honly := (h c.kept hzero).whole k (by rwa [hwhole])
  obtain ⟨c', hc', hnamed⟩ := (honly k).mpr rfl
  obtain rfl := Option.some.inj (hc.symm.trans hc')
  refine ⟨hnamed, fun j _ hne d hd => ?_⟩
  by_contra hother
  exact hne ((honly j).mp ⟨d, hd, Bool.not_eq_false _ ▸ hother⟩)

/-- The name of the table, a dot and the kept name, with more behind them. -/
theorem qualified_of_clear {c : ListedColumn} (hc : c ∈ listedColumns tables select)
    (hplain : 46 ∉ c.kept) : c.aliasName.length + 1 + c.kept.length ≠ NAME_LEN - 1 := by
  intro hfull
  obtain ⟨-, halias, hkept⟩ := listedColumns_bounded hc
  have hzero : 0 ∉ c.aliasName ++ 46 :: c.kept := by
    simp [halias, hkept]
  obtain ⟨reference, hzero', hcut, hnone⟩ :=
    exists_cut (listedColumns tables select) hzero (by simp; omega)
  obtain ⟨hafter, hbefore⟩ := lastDot_append c.aliasName hplain
  cases hwhole : (listedColumns tables select).findIdx? fun d =>
      sameText d.kept (Name.ofBytes reference).1 with
  | some k => exact hnone k ((h reference hzero').whole k hwhole)
  | none =>
    obtain ⟨k, hk⟩ := findIdx_exists
      (fun d => sameText c.aliasName d.aliasName && sameText d.kept c.kept) hc
      (by simp [sameText_refl])
    refine hnone k ((h reference hzero').qualified hwhole c.kept (hcut ▸ hafter) k ?_)
    rw [hcut, hbefore]
    exact hk

/-- The last part of a name with a dot as a reference: if it were the last part of no other name, it
would be bound to a column that it does not name. -/
theorem dotted_of_clear {k : Nat} {c : ListedColumn} (hc : (listedColumns tables select)[k]? = some c)
    (hdot : 46 ∈ c.column) :
    ∃ j < (listedColumns tables select).length, j ≠ k ∧
      ∃ d ∈ (listedColumns tables select)[j]?, sameText (bareName d.kept) (bareName c.kept) =
        true := by
  have hmem := List.mem_of_getElem? hc
  have hkeptdot : 46 ∈ c.kept := by
    rcases listedColumns_kept tables select with hjoined | ⟨hplain, -⟩
    · rw [hjoined c hmem]
      exact joinedName_dot _ _
    · rwa [hplain c hmem]
  obtain ⟨tail, htail⟩ : ∃ tail, afterDot c.kept = some tail := by
    cases hafter : afterDot c.kept with
    | some tail => exact ⟨tail, rfl⟩
    | none => exact absurd hkeptdot (afterDot_none.mp hafter)
  have hbare : bareName c.kept = tail := by
    rw [bareName, htail]
    rfl
  have hnodot : 46 ∉ tail := afterDot_no_dot htail
  have hsplit := lastDot_eq htail
  have hzero : 0 ∉ tail := fun hin => (listedColumns_bounded hmem).2.2 (by
    rw [hsplit]
    simp [hin])
  have hlength : tail.length ≤ NAME_LEN - 1 := by
    have hkept := short_of_clear h hmem
    rw [hsplit, List.length_append, List.length_cons] at hkept
    omega
  have hkeep : (Name.ofBytes tail).1 = tail := by
    rw [ofBytes_text hzero, List.take_of_length_le hlength]
  by_contra hshared
  have honly : OnlyAt (fun d => sameText (bareName d.kept) tail) (listedColumns tables select)
      k := by
    intro j
    constructor
    · rintro ⟨d, hd, hsame⟩
      by_contra hne
      exact hshared ⟨j, (List.getElem?_eq_some_iff.mp hd).1, hne, d, hd, by rwa [hbare]⟩
    · rintro rfl
      refine ⟨c, hc, ?_⟩
      show sameText (bareName c.kept) tail = true
      rw [hbare]
      exact sameText_refl tail
  have hnowhole : ((listedColumns tables select).findIdx? fun d => sameText d.kept tail) =
      none := by
    refine List.findIdx?_eq_none_iff.mpr fun d hd => ?_
    by_contra hyes
    have hyes : sameText d.kept tail = true := Bool.not_eq_false _ ▸ hyes
    -- such a column would be found by its last part too, and this one has a dot
    obtain ⟨j, hj⟩ := List.mem_iff_getElem?.mp hd
    have hplain : bareName d.kept = d.kept := by
      rw [bareName, afterDot_none.mpr fun hin => hnodot ((sameText_dot hyes).mp hin)]
      rfl
    have htail' : sameText (bareName d.kept) tail = true := by rwa [hplain]
    obtain rfl := (honly j).mp ⟨d, hj, htail'⟩
    obtain rfl := Option.some.inj (hc.symm.trans hj)
    exact hnodot ((sameText_dot hyes).mp hkeptdot)
  have hnames := (h tail hzero).tail (by rwa [hkeep]) (by rw [hkeep]; exact afterDot_none.mpr hnodot)
    k (by rwa [hkeep])
  obtain ⟨c', hc', hnamed⟩ := (hnames k).mpr rfl
  obtain rfl := Option.some.inj (hc.symm.trans hc')
  rcases Bool.or_eq_true _ _ ▸ hnamed with hfull | hcolumn
  · exact hnodot ((sameText_dot hfull).mpr (by simp))
  · exact hnodot ((sameText_dot hcolumn).mpr hdot)

/-- Where no reference is bound to another column, the columns are kept under names of their own. -/
theorem apart_of_clear : NamesApart (listedColumns tables select) where
  short _ hc := short_of_clear h hc
  own _ _ _ hc hfirst := alone_of_clear h hc hfirst
  qualified _ hc hplain := qualified_of_clear h hc hplain
  dotted _ _ _ hc hdot := dotted_of_clear h hc hdot

end

/-- No reference is bound to a column that it does not name, exactly where the columns of the FROM
list are kept under names of their own. -/
theorem references_resolve_iff {schema : CatalogNode} (h : selectSchema tables select = .ok schema) :
    (∀ reference, 0 ∉ reference → Resolves schema (listedColumns tables select) reference) ↔
      NamesApart (listedColumns tables select) := by
  constructor
  · exact fun hall => apart_of_clear fun reference hzero =>
      (resolves_iff_clear h reference).mp (hall reference hzero)
  · intro hapart reference hzero
    refine (resolves_iff_clear h reference).mpr ?_
    rcases listedColumns_kept tables select with hjoined | ⟨hkept, halias⟩
    · exact hapart.clear_joined hzero hjoined
    · exact hapart.clear_single hzero hkept halias

end

/-- A column of type int of that name. -/
def intColumn (name : List UInt8) : Column where
  name := Name.ofBytes name
  type := .TYPE_INT
  size := 0
  notNull := false
  unique := false
  primary := false
  hasDefault := false
  defaultValue := zeroValue

/-- `SELECT *` from tables with aliases. -/
def selectFrom (tables : List (String × String)) : ParsedSelect where
  items := []
  exprs := []
  selectAll := true
  onRoots := tables.map fun _ => -1
  wher := { present := false, root := -1, nodes := [], exprs := [] }
  having := { present := false, root := -1, nodes := [], exprs := [] }
  groupBy := []
  tables := tables.map fun (table, aliasName) =>
    ⟨Name.ofBytes (ascii table), Name.ofBytes (ascii aliasName), false⟩
  distinct := false
  order := []
  limit := none

/-- Two tables; the first has a column with a dot in its name, whose last part is the name of a
column of the second. -/
def orders : List CatalogNode :=
  [{ table := Name.ofBytes (ascii "orders")
     cols := [intColumn (ascii "id"), intColumn (ascii "part.code")]
     check := none },
   { table := Name.ofBytes (ascii "parts")
     cols := [intColumn (ascii "code"), intColumn (ascii "price")]
     check := none }]

/-- `SELECT * FROM orders o, parts p` -/
def ordersSelect : ParsedSelect := selectFrom [("orders", "o"), ("parts", "p")]

/-- The schema that it is checked against. -/
def ordersSchema : CatalogNode where
  table := Name.ofBytes JOIN_SCHEMA_NAME
  cols := ["o.id", "o.part.code", "p.code", "p.price"].map fun name => intColumn (ascii name)
  check := none

/-- Every reference into a join of two named tables resolves as it names. -/
theorem references_resolve_iff_orders :
    NamesApart (listedColumns orders ordersSelect) ∧
      findColumn ordersSchema (Name.ofBytes (ascii "p.code")).1 = 2 ∧
        ∀ reference, 0 ∉ reference →
          Resolves ordersSchema (listedColumns orders ordersSelect) reference := by
  have hschema : selectSchema orders ordersSelect = .ok ordersSchema := by decide +kernel
  have hapart : NamesApart (listedColumns orders ordersSelect) := by decide +kernel
  exact ⟨hapart, by decide +kernel, (references_resolve_iff hschema).mpr hapart⟩

/-- Two columns whose names of 62 bytes differ in the last one. -/
def longNames : CatalogNode where
  table := Name.ofBytes (ascii "t")
  cols := [97, 98].map fun last => intColumn (List.replicate 61 99 ++ [last])
  check := none

/-- `SELECT * FROM t u` -/
def aliasedSelect : ParsedSelect := selectFrom [("t", "u")]

/-- The schema that it is checked against. -/
def aliasedSchema : CatalogNode where
  table := Name.ofBytes JOIN_SCHEMA_NAME
  cols := flattened (Name.ofBytes (ascii "u")) longNames
  check := none

/-- The example's schema has the two names cut to one. -/
theorem aliasedSchema_eq : selectSchema [longNames] aliasedSelect = .ok aliasedSchema := by
  decide +kernel

/-- The second column with the alias in front. -/
def secondColumn : List UInt8 := ascii "u." ++ List.replicate 61 99 ++ [98]

/-- It is bound to the first column: both are kept without their last byte, and so is the
reference. -/
theorem findColumn_mistaken :
    ¬∀ (tables : List CatalogNode) (select : ParsedSelect) (schema : CatalogNode)
      (reference : List UInt8), selectSchema tables select = .ok schema →
        Resolves schema (listedColumns tables select) reference := by
  intro hall
  have hfirst : findColumn aliasedSchema (Name.ofBytes secondColumn).1 = (0 : Nat) := by
    decide +kernel
  have hnot : ∀ c, (listedColumns [longNames] aliasedSelect)[0]? = some c →
      c.NamedBy secondColumn = false := by
    decide +kernel
  have honly := hall _ _ _ secondColumn aliasedSchema_eq 0 hfirst
  obtain ⟨c, hc, hnamed⟩ := (honly 0).mpr rfl
  exact absurd (hnamed.symm.trans (hnot c hc)) (by simp)

/-! ### Names that fit -/

/-- Columns whose names fit and have no dots, no two of them alike. -/
structure Short (cols : List ListedColumn) : Prop where
  fits : ∀ c ∈ cols, c.aliasName.length ≤ NAME_LEN / 2 ∧
    c.aliasName.length + 1 + c.column.length < NAME_LEN - 1
  plain : ∀ c ∈ cols, 46 ∉ c.column
  distinct : ∀ (i j : Nat) (a b : ListedColumn), cols[i]? = some a → cols[j]? = some b →
    sameText a.aliasName b.aliasName = true → sameText a.column b.column = true → i = j

/-- Where alias and column are short enough, the joined name is not cut. -/
theorem joinedName_fits {aliasName column : List UInt8} (halias : aliasName.length ≤ NAME_LEN / 2)
    (hfits : aliasName.length + 1 + column.length < NAME_LEN - 1) :
    joinedName aliasName column = aliasName ++ 46 :: column := by
  rw [joinedName, List.take_of_length_le halias, List.take_of_length_le]
  simp only [List.length_append, List.length_cons]
  omega

/-- Such columns are kept under names of their own. -/
theorem Short.apart {tables : List CatalogNode} {select : ParsedSelect}
    (h : Short (listedColumns tables select)) : NamesApart (listedColumns tables select) := by
  rcases listedColumns_kept tables select with hjoined | ⟨hkept, halias⟩
  · have hwhole : ∀ c ∈ listedColumns tables select, c.kept = c.aliasName ++ 46 :: c.column :=
      fun c hc => (hjoined c hc).trans (joinedName_fits (h.fits c hc).1 (h.fits c hc).2)
    refine ⟨fun c hc => ?_, fun k _ c hc _ => ⟨?_, fun j _ hne d hd => ?_⟩,
      fun c hc hplain => ?_, fun k _ c hc hdot => ?_⟩
    · have hfits := (h.fits c hc).2
      rw [hwhole c hc, List.length_append, List.length_cons]
      omega
    · rw [hwhole c (List.mem_of_getElem? hc)]
      exact (Bool.or_eq_true _ _).mpr (.inl (sameText_refl _))
    · by_contra hyes
      have hplain := h.plain d (List.mem_of_getElem? hd)
      rw [hwhole c (List.mem_of_getElem? hc)] at hyes
      rcases Bool.or_eq_true _ _ ▸ Bool.not_eq_false _ ▸ hyes with hfull | hbare
      · obtain ⟨halias, hcolumn⟩ := sameText_lastDot (h.plain c (List.mem_of_getElem? hc)) hplain hfull
        exact hne (h.distinct k j c d hc hd halias hcolumn).symm
      · exact hplain ((sameText_dot hbare).mp (by simp))
    · rw [hwhole c hc] at hplain
      exact absurd (by simp) hplain
    · exact absurd hdot (h.plain c (List.mem_of_getElem? hc))
  · refine ⟨fun c hc => ?_, fun k _ c hc _ => ⟨?_, fun j _ hne d hd => ?_⟩,
      fun c hc _ => ?_, fun k _ c hc hdot => ?_⟩
    · have hfits := (h.fits c hc).2
      rw [hkept c hc]
      omega
    · rw [hkept c (List.mem_of_getElem? hc)]
      exact (Bool.or_eq_true _ _).mpr (.inr (sameText_refl _))
    · by_contra hyes
      have hc' := List.mem_of_getElem? hc
      have hd' := List.mem_of_getElem? hd
      rw [hkept c hc'] at hyes
      rcases Bool.or_eq_true _ _ ▸ Bool.not_eq_false _ ▸ hyes with hfull | hbare
      · exact h.plain c hc' ((sameText_dot hfull).mpr (by simp))
      · refine hne (h.distinct k j c d hc hd ?_ hbare).symm
        rw [halias c hc' d hd']
        exact sameText_refl _
    · have hfits := (h.fits c hc).2
      rw [hkept c hc]
      omega
    · exact absurd hdot (h.plain c (List.mem_of_getElem? hc))

end DatabaseEngine
