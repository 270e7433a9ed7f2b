import DatabaseEngine.Proofs.Join.Hashed
import DatabaseEngine.Proofs.Select.Grouping
import DatabaseEngine.Proofs.Select.Keys
import DatabaseEngine.Spec.Classes

/-!
# `DatabaseEngine.Proofs.Select.Classes`: DISTINCT and GROUP BY keep one row of each class

* `sameRow_trans`, `hashKey_of_same`: equality of rows, and that their hashes respect it where those
  of the values do.
* `hashesAgree_iff`: they do, if and only if no column holds zeros of both signs.
* `applyDistinct_firsts`: the loop of DISTINCT; `groupRows_firsts`: that of GROUP BY.
* `equal_rows_share_iff`: both, and that every probe of theirs ends.
-/

set_option autoImplicit false

namespace DatabaseEngine

open Library

/-! ### Equal rows -/

section
variable {a b c : Value}

/-- Values the same as one another are the same as a third. -/
theorem valuesSame_trans (hab : a.type = b.type) (hsame : valuesSame a b = true)
    (hsame' : valuesSame b c = true) : valuesSame a c = true := by
  unfold valuesSame at hsame hsame' ⊢
  rw [hab] at hsame ⊢
  split
  · rename_i hint
    rw [if_pos hint] at hsame hsame'
    rw [beq_iff_eq] at hsame hsame' ⊢
    exact hsame.trans hsame'
  · rename_i hint
    rw [if_neg hint] at hsame hsame'
    split
    · rename_i hfloat
      rw [if_pos hfloat] at hsame hsame'
      simp only [floatEq, Bool.and_eq_true, beq_iff_eq] at hsame hsame' ⊢
      exact ⟨⟨hsame.1.1, hsame'.1.2⟩, hsame.2.trans hsame'.2⟩
    · rename_i hfloat
      rw [if_neg hfloat] at hsame hsame'
      simp only [Bool.and_eq_true, beq_iff_eq] at hsame hsame' ⊢
      exact ⟨hsame.1.trans hsame'.1, hsame.2.trans hsame'.2⟩

/-- Equality of values carries over to a third. -/
theorem valuesEqual_trans (hab : valuesEqual a b = true) (hbc : valuesEqual b c = true) :
    valuesEqual a c = true := by
  cases ha : a.isNull with
  | true =>
    have hb : b.isNull = true := by
      unfold valuesEqual at hab
      simpa [ha] using hab
    have hc : c.isNull = true := by
      unfold valuesEqual at hbc
      simpa [hb] using hbc
    simp [valuesEqual, ha, hc]
  | false =>
    obtain ⟨hb, htype, hsame⟩ := (valuesEqual_iff_same ha).mp hab
    obtain ⟨hc, htype', hsame'⟩ := (valuesEqual_iff_same hb).mp hbc
    exact (valuesEqual_iff_same ha).mpr
      ⟨hc, htype.trans htype', valuesSame_trans htype hsame hsame'⟩

/-- Zeros of both signs are equal. -/
theorem OppositeZeros.equal (h : OppositeZeros a b) : valuesEqual a b = true := by
  obtain ⟨ha, hb, hfa, hfb, hza, hzb, -⟩ := h
  refine (valuesEqual_iff_same ha).mpr ⟨hb, hfa.trans hfb.symm, ?_⟩
  unfold valuesSame floatEq
  rw [hfa, if_neg (by decide), if_pos rfl, not_isNaN_of_isZero hza, not_isNaN_of_isZero hzb,
    floatRank_zero hza hzb]
  simp

end

section
variable {slots : List Nat} {rows : List Row} {a b c : Row}

/-- Rows alike in some slots are like a third. -/
theorem sameRow_trans (hab : sameRow slots a b = true) (hbc : sameRow slots b c = true) :
    sameRow slots a c = true := by
  unfold sameRow at hab hbc ⊢
  rw [List.all_eq_true] at hab hbc ⊢
  exact fun slot hslot => valuesEqual_trans (hab slot hslot) (hbc slot hslot)

/-- A row is like one of the first ones exactly if it is like one of all. -/
theorem any_firsts (slots : List Nat) (rows : List Row) (row : Row) :
    (firstsBy (sameRow slots) rows).any (sameRow slots row) = rows.any (sameRow slots row) := by
  have htrans : ∀ a b c, sameRow slots a b = true → sameRow slots b c = true →
      sameRow slots a c = true := fun _ _ _ hab hbc => sameRow_trans hab hbc
  exact any_firstsBy htrans rows row

/-- The values that are equal hash alike, if and only if no zeros are opposite. -/
theorem hashesAgree_iff : HashesAgree slots rows ↔ ZerosAgree slots rows := by
  constructor
  · intro h a ha b hb slot hslot hzeros
    exact hzeros.hash_ne (h a ha b hb slot hslot hzeros.equal)
  · intro h a ha b hb slot hslot hequal
    exact (hashValue_eq_iff hequal).mpr (h a ha b hb slot hslot)

/-- The hash of a row looks at the hashes of its values. -/
theorem hashKey_of_same (hagree : HashesAgree slots rows) (ha : a ∈ rows) (hb : b ∈ rows)
    (h : sameRow slots a b = true) : hashKey a slots = hashKey b slots := by
  have hvalues : ∀ slot ∈ slots, hashValue (a.value slot) = hashValue (b.value slot) := by
    unfold sameRow at h
    rw [List.all_eq_true] at h
    exact fun slot hslot => hagree a ha b hb slot hslot (h slot hslot)
  have hfold : ∀ start : UInt32,
      slots.foldl (fun hash slot => (hash ^^^ hashValue (a.value slot)) * 16777619) start =
        slots.foldl (fun hash slot => (hash ^^^ hashValue (b.value slot)) * 16777619) start := by
    clear hagree h
    induction slots with
    | nil => simp
    | cons slot rest ih =>
      intro start
      rw [List.foldl_cons, List.foldl_cons, hvalues slot List.mem_cons_self]
      exact ih (fun other hother => hvalues other (List.mem_cons_of_mem _ hother)) _
  exact hfold _

/-- Comparing a row with a group's key is comparing it with the group's row. -/
theorem keyMatches_eq : keyMatches a slots (slots.map b.value) = sameRow slots a b := by
  unfold keyMatches sameRow
  induction slots with
  | nil => rfl
  | cons slot rest ih => rw [List.map_cons, List.zip_cons_cons, List.all_cons, List.all_cons, ih]

end

/-! ### DISTINCT -/

/-- There are more buckets than rows, and their number is a power of two. -/
theorem distinctBucketCount_size {kept nrows : Nat} (hkept : kept = 0 ∨ ∃ e, kept = 2 ^ e) :
    (∃ e, distinctBucketCount kept nrows = 2 ^ e) ∧ nrows < distinctBucketCount kept nrows := by
  obtain ⟨e, heq, hroom⟩ := @grown_size nrows 0 (nrows * 2)
  have hlt : nrows * 2 ≤ 2 ^ nrows := by
    cases nrows with
    | zero => simp
    | succ n =>
      have hn : n < 2 ^ n := Nat.lt_two_pow_self
      rw [Nat.pow_succ]
      omega
  have hcount : nrows * 2 ≤ 2 ^ e := hroom (by rw [Nat.zero_add]; exact hlt)
  have hpos := Nat.two_pow_pos e
  have hsize : grown nrows 1 (nrows * 2) = 2 ^ e := heq
  unfold distinctBucketCount
  rw [hsize]
  refine ⟨?_, by omega⟩
  rcases hkept with rfl | ⟨e', rfl⟩
  · exact ⟨e, Nat.zero_max _⟩
  · rcases Nat.le_total (2 ^ e') (2 ^ e) with hle | hle
    · exact ⟨e, Nat.max_eq_right hle⟩
    · exact ⟨e', Nat.max_eq_left hle⟩

section
variable {ncols size r : Nat} {rows : List Row} {s : DistinctState}

/-- The loop is its steps. -/
theorem distinctLoop_steps (ncols n r : Nat) (s : DistinctState) :
    distinctLoop ncols n r s.rows s.kept s.buckets =
      let last := (List.range' r n).foldl (distinctStep ncols) s
      last.rows.take last.kept := by
  induction n generalizing r s with
  | zero => rfl
  | succ n ih =>
    have hnext := ih (r + 1) (distinctStep ncols s r)
    rw [List.range'_succ, List.foldl_cons, ← hnext, distinctLoop]
    unfold distinctStep
    dsimp only
    generalize lookup s.buckets _ _ = found
    cases found with
    | none => rw [if_neg (by simp)]
    | some i => rw [if_pos Option.isSome_some]

/-- Where the loop is behind `r` rows: the ones that are kept are at the front, the table leads to
them, and the others are as they were. -/
structure Kept (ncols size : Nat) (rows : List Row) (r : Nat) (s : DistinctState) : Prop where
  length : s.rows.length = rows.length
  le : s.kept ≤ r
  behind : s.rows.drop r = rows.drop r
  size : s.buckets.length = size
  probed : Probed s.buckets (fun i => (hashKey (s.rows.getD i []) (List.range ncols)).toNat) s.kept

/-- The rows behind those looked at are as they came. -/
theorem Kept.row (h : Kept ncols size rows r s) :
    s.rows.getD r [] = rows.getD r [] := by
  have hat : ∀ list : List Row, list.getD r [] = (list.drop r).getD 0 [] := fun list => by
    simp [List.getD_eq_getElem?_getD]
  rw [hat s.rows, h.behind, ← hat]

/-- Looking at one row more keeps the invariant of DISTINCT. -/
theorem Kept.step (h : Kept ncols size rows r s) (hr : r < rows.length)
    (hroom : rows.length < size) : Kept ncols size rows (r + 1) (distinctStep ncols s r) := by
  have hlength := h.length
  have hle := h.le
  have hbehind : ∀ list : List Row, list.drop (r + 1) = (list.drop r).drop 1 := fun list => by
    rw [List.drop_drop]
  unfold distinctStep
  dsimp only
  split
  · exact ⟨h.length, by omega, by rw [hbehind, h.behind, ← hbehind], h.size, h.probed⟩
  · generalize hrow : s.rows.getD r [] = row
    -- the row is written over one that has been looked at
    have hnew : (s.rows.set s.kept row).getD s.kept [] = row := by
      rw [List.getD_eq_getElem?_getD, List.getElem?_set_self (by omega)]
      rfl
    have hold : ∀ i < s.kept, (s.rows.set s.kept row).getD i [] = s.rows.getD i [] := by
      intro i hi
      rw [List.getD_eq_getElem?_getD, List.getElem?_set_ne (by omega),
        ← List.getD_eq_getElem?_getD]
    have hempty := h.probed.empty
    have hsize := h.size
    have hcongr := @Probed.congr _ _ _ (fun i =>
      (hashKey ((s.rows.set s.kept row).getD i []) (List.range ncols)).toNat) h.probed
        fun i hi => by rw [hold i hi]
    obtain ⟨hplaced, hlong⟩ := hcongr.place (by omega)
    rw [hnew] at hplaced hlong
    refine ⟨by rw [List.length_set, hlength], by dsimp only; omega, ?_, hlong.trans hsize, hplaced⟩
    dsimp only
    rw [List.drop_set_of_lt (by omega), hbehind, h.behind, ← hbehind]

/-- The invariant holds before the first row. -/
theorem Kept.start (hsize : ∃ e, size = 2 ^ e) (rows : List Row) (ncols : Nat) :
    Kept ncols size rows 0 { rows := rows, kept := 0, buckets := List.replicate size 0 } where
  length := rfl
  le := Nat.le_refl _
  behind := rfl
  size := List.length_replicate
  probed := probed_empty hsize _

/-- The rows are looked at one after another. -/
theorem distinctState_succ (ncols : Nat) (rows : List Row) (size r : Nat) :
    distinctState ncols rows size (r + 1) =
      distinctStep ncols (distinctState ncols rows size r) r := by
  unfold distinctState
  rw [List.range_succ, List.foldl_append]
  rfl

/-- The invariant holds after any number of rows. -/
theorem distinctState_kept (hsize : ∃ e, size = 2 ^ e) (hroom : rows.length < size)
    (hr : r ≤ rows.length) : Kept ncols size rows r (distinctState ncols rows size r) := by
  induction r with
  | zero => exact Kept.start hsize rows ncols
  | succ r ih =>
    rw [distinctState_succ]
    exact (ih (by omega)).step hr hroom

/-- While it holds, some bucket is free. -/
theorem Kept.roomy (h : Kept ncols size rows r s) (hr : r ≤ rows.length)
    (hroom : rows.length < size) : Roomy s.buckets := by
  have hle := h.le
  have hsize := h.size
  exact h.probed.roomy (by omega)

/-- Where equal values hash alike, the kept rows are the first ones of their classes. -/
theorem distinctState_firsts (hsize : ∃ e, size = 2 ^ e) (hroom : rows.length < size)
    (hagree : HashesAgree (List.range ncols) rows) (hr : r ≤ rows.length) :
    (distinctState ncols rows size r).rows.take (distinctState ncols rows size r).kept =
      firstsBy (sameRow (List.range ncols)) (rows.take r) := by
  induction r with
  | zero =>
    rw [List.take_zero]
    rfl
  | succ r ih =>
    have hkept := @distinctState_kept ncols _ r _ hsize hroom (by omega)
    have hfirsts := ih (by omega)
    rw [distinctState_succ]
    generalize distinctState ncols rows size r = s at hkept hfirsts ⊢
    have hrow := hkept.row
    have hle := hkept.le
    have hlength := hkept.length
    have hsizeEq := hkept.size
    have hmem : rows.getD r [] ∈ rows := by
      rw [List.getD_eq_getElem?_getD, List.getElem?_eq_getElem hr]
      exact List.getElem_mem hr
    have htake : rows.take (r + 1) = rows.take r ++ [rows.getD r []] := by
      rw [List.take_add_one, List.getD_eq_getElem?_getD, List.getElem?_eq_getElem hr]
      rfl
    have hat : ∀ i < s.kept, s.rows.getD i [] ∈ s.rows.take s.kept := by
      intro i hi
      rw [List.getD_eq_getElem?_getD, List.getElem?_eq_getElem (by omega)]
      exact List.mem_take_iff_getElem.mpr ⟨i, by omega, rfl⟩
    have hin : ∀ i < s.kept, s.rows.getD i [] ∈ rows := fun i hi =>
      List.mem_of_mem_take (mem_of_mem_firstsBy (hfirsts ▸ hat i hi))
    unfold distinctStep
    dsimp only
    rw [hrow, htake, firstsBy_append, ← any_firsts, ← hfirsts]
    rcases @Probed.lookup_wanted _ _ _ hkept.probed (by omega)
      (fun i => rowsEqual (rows.getD r []) (s.rows.getD i []) ncols)
      (hashKey (rows.getD r []) (List.range ncols)).toNat
      (fun i hi hwanted => by rw [hashKey_of_same hagree hmem (hin i hi) hwanted])
      with ⟨i, hi, hfound, hwanted⟩ | ⟨hnone, hno⟩
    · rw [hfound, if_pos Option.isSome_some, if_pos]
      exact List.any_eq_true.mpr ⟨_, hat i hi, hwanted⟩
    · rw [hnone, if_neg (by simp), if_neg]
      · dsimp only
        rw [List.take_add_one, List.getElem?_set_self (by omega), List.take_set_of_le (Nat.le_refl _)]
        rfl
      · intro hany
        obtain ⟨kept, hkeptIn, hsame⟩ := List.any_eq_true.mp hany
        obtain ⟨i, hi, rfl⟩ := List.mem_take_iff_getElem.mp hkeptIn
        have hfalse := hno i (by omega)
        have hsame' : rowsEqual (rows.getD r []) (s.rows.getD i []) ncols = true := by
          rw [List.getD_eq_getElem?_getD (l := s.rows), List.getElem?_eq_getElem (by omega)]
          exact hsame
        exact absurd (hfalse.symm.trans hsame') Bool.false_ne_true

end

/-- DISTINCT keeps the rows at the front that its loop ends with. -/
theorem applyDistinct_state {count : Nat} {select : ParsedSelect} {out : ResultSet}
    (hdistinct : select.distinct = true) :
    (applyDistinct count select out).rows =
      let last := distinctState out.headers.length out.rows
        (distinctBucketCount count out.rows.length) out.rows.length
      last.rows.take last.kept := by
  unfold applyDistinct
  rw [hdistinct]
  by_cases hrows : out.rows = []
  · rw [if_pos (.inr hrows), hrows]
    rfl
  · rw [if_neg (by simp [hrows])]
    have hsteps := distinctLoop_steps out.headers.length out.rows.length 0
      { rows := out.rows, kept := 0,
        buckets := List.replicate (distinctBucketCount count out.rows.length) 0 }
    rw [← List.range_eq_range'] at hsteps
    exact hsteps

/-- DISTINCT keeps the first row of each class, where equal values hash alike. -/
theorem applyDistinct_firsts {count : Nat} {select : ParsedSelect} {out : ResultSet}
    (hcount : count = 0 ∨ ∃ e, count = 2 ^ e) (hdistinct : select.distinct = true)
    (hagree : HashesAgree (List.range out.headers.length) out.rows) :
    (applyDistinct count select out).rows =
      firstsBy (sameRow (List.range out.headers.length)) out.rows := by
  obtain ⟨hsize, hroom⟩ := @distinctBucketCount_size _ out.rows.length hcount
  have hfirsts := distinctState_firsts hsize hroom hagree (Nat.le_refl _)
  rw [List.take_length] at hfirsts
  rw [applyDistinct_state hdistinct]
  exact hfirsts

/-! ### GROUP BY -/

section
variable {memory : GroupMemory} {items : List SelectItem} {exprs : ExprPool} {slots : List Nat}
  {done rows : List Row} {row record storage : Row} {t t' : GroupTable} {deepest : Int}

/-- The table leads to the groups, and there is room in it. -/
def Placed (t : GroupTable) : Prop :=
  t.buckets.length = 0 ∧ t.groups = [] ∨
    Probed t.buckets t.hashes t.groups.length ∧ 0 < t.buckets.count 0

/-- An empty table of groups has every group in its place. -/
theorem placed_start (memory : GroupMemory) :
    Placed { groups := [], buckets := List.replicate memory.bucketCount 0 } := by
  rcases memory.size with hzero | hsize
  · exact .inl ⟨by rw [hzero]; rfl, rfl⟩
  · refine .inr ⟨probed_empty hsize _, ?_⟩
    obtain ⟨e, he⟩ := hsize
    rw [List.count_replicate_self, he]
    exact Nat.two_pow_pos e

/-- While every group is in its place, some bucket is free. -/
theorem Placed.roomy (h : Placed t) : GroupsRoomy t where
  find hne := by
    rcases h with ⟨hzero, -⟩ | ⟨hprobed, hroom⟩
    · exact absurd (List.length_eq_zero_iff.mp hzero) hne
    · exact roomy_of_count hprobed.size hroom
  rehash k hk := by
    have hall : ∀ size, (∃ e, size = 2 ^ e) → t.groups.length < size →
        Roomy (Library.rehash (Library.rehash size
          (t.groups.map fun group => group.hash.toNat)).length
            ((t.groups.map fun group => group.hash.toNat).take k)) := by
      intro size hsize hroom
      rw [(rehash_probed hsize (by simpa using hroom)).2]
      have hfew : ((t.groups.map fun group => group.hash.toNat).take k).length < size := by
        rw [List.length_take, List.length_map]
        omega
      obtain ⟨hprobed, hlength⟩ := rehash_probed hsize hfew
      exact hprobed.roomy (by omega)
    unfold rehashGroups
    dsimp only
    rcases h with ⟨hzero, hnone⟩ | ⟨hprobed, hroom⟩
    · rw [if_pos hzero]
      exact hall 256 ⟨8, rfl⟩ (by simp [hnone])
    · have hpos := hprobed.pos
      have hempty := hprobed.empty
      obtain ⟨e, he⟩ := hprobed.size
      rw [if_neg (by omega)]
      exact hall _ ⟨e + 1, by rw [he, Nat.pow_succ]⟩ (by omega)
  record := by
    obtain ⟨-, hprobed, hroom⟩ := reserveGroup_probed h
    exact hprobed.roomy (by omega)

/-- The groups by their keys and hashes are the first rows of the classes. -/
def Listed (slots : List Nat) (done : List Row) (t : GroupTable) : Prop :=
  t.groups.map (fun group => (group.key, group.hash)) =
    (firstsBy (sameRow slots) done).map fun row => (slots.map row.value, hashKey row slots)

/-- A row goes to a group that is there, or to a new one behind them. -/
theorem groupRow_ok (h : groupRow memory items exprs slots row t = .ok t') :
    (∃ g group accs, findGroup t row slots (hashKey row slots) = some g ∧
      t.groups[g]? = some group ∧
      t' = { t with groups := t.groups.set g { group with accs := accs } }) ∨
    ∃ group accs, findGroup t row slots (hashKey row slots) = none ∧
      (addGroup memory items t row slots (hashKey row slots)).groups[t.groups.length]? =
        some group ∧
      t' = { addGroup memory items t row slots (hashKey row slots) with
        groups := (addGroup memory items t row slots (hashKey row slots)).groups.set
          t.groups.length { group with accs := accs } } := by
  unfold groupRow at h
  cases hfound : findGroup t row slots (hashKey row slots) with
  | some g =>
    simp only [hfound] at h
    split at h
    · exact absurd h (by simp)
    · rename_i group hgroup
      split at h
      · exact absurd h (by simp)
      · rename_i accs _
        exact .inl ⟨g, group, accs, rfl, hgroup, (Except.ok.inj h).symm⟩
  | none =>
    simp only [hfound] at h
    split at h
    · exact absurd h (by simp)
    · rename_i group hgroup
      split at h
      · exact absurd h (by simp)
      · rename_i accs _
        exact .inr ⟨group, accs, rfl, hgroup, (Except.ok.inj h).symm⟩

/-- Taking in a row leaves every group in its place. -/
theorem groupRow_placed (hplaced : Placed t)
    (h : groupRow memory items exprs slots row t = .ok t') : Placed t' := by
  rcases groupRow_ok h with ⟨g, group, accs, -, hgroup, rfl⟩ | ⟨group, accs, -, hgroup, rfl⟩
  · rcases hplaced with ⟨-, hnone⟩ | ⟨hprobed, hroom⟩
    · exact absurd hgroup (by simp [hnone])
    · refine .inr ⟨?_, hroom⟩
      rw [hashes_set hgroup, List.length_set]
      exact hprobed
  · obtain ⟨-, hprobed, hroom⟩ := @addGroup_probed items slots t row memory hplaced
    refine .inr ⟨?_, hroom⟩
    rw [hashes_set hgroup, List.length_set]
    exact hprobed

/-- Taking in all rows leaves every group in its place, by the lemma for one. -/
theorem groupRows_placed (hplaced : Placed t)
    (h : groupRows memory items exprs slots deepest rows storage t = .ok t') : Placed t' := by
  induction rows generalizing t storage with
  | nil => exact Except.ok.inj h ▸ hplaced
  | cons record rest ih =>
    unfold groupRows at h
    dsimp only at h
    split at h
    · exact absurd h (by simp)
    · rename_i hrow
      exact ih (groupRow_placed hplaced hrow) h

/-- New accumulators change neither keys nor hashes. -/
theorem listed_set {groups : List Group} {g : Nat} {group : Group} (hgroup : groups[g]? = some group)
    (accs : List Accumulator) :
    (groups.set g { group with accs := accs }).map (fun group => (group.key, group.hash)) =
      groups.map fun group => (group.key, group.hash) := by
  obtain ⟨hlt, rfl⟩ := List.getElem?_eq_some_iff.mp hgroup
  rw [List.map_set]
  refine List.ext_getElem (by simp) fun i hi hi' => ?_
  rw [List.getElem_set]
  split
  · rename_i heq
    subst heq
    rw [List.getElem_map]
  · rfl

/-- The groups that a row could belong to, and how they are found. -/
theorem Listed.findGroup (h : Listed slots done t) (hplaced : Placed t)
    (hagree : HashesAgree slots (done ++ [record])) :
    (∃ g, findGroup t record slots (hashKey record slots) = some g ∧
        done.any (sameRow slots record) = true) ∨
      findGroup t record slots (hashKey record slots) = none ∧
        done.any (sameRow slots record) = false := by
  rw [← any_firsts]
  have hlength : t.groups.length = (firstsBy (sameRow slots) done).length := by
    have := congrArg List.length h
    simpa using this
  rcases hplaced with ⟨hzero, hnone⟩ | ⟨hprobed, hroom⟩
  · refine .inr ⟨if_pos hzero, ?_⟩
    rw [hnone, List.length_nil] at hlength
    rw [List.length_eq_zero_iff.mp hlength.symm]
    rfl
  · have hempty := hprobed.empty
    have hpos := hprobed.pos
    have hat : ∀ g (hg : g < (firstsBy (sameRow slots) done).length),
        keyMatches record slots (t.keyAt g) =
            sameRow slots record (firstsBy (sameRow slots) done)[g] ∧
          t.hashes g = (hashKey (firstsBy (sameRow slots) done)[g] slots).toNat := by
      intro g hg
      have hgroup : t.groups[g]? = some t.groups[g] := List.getElem?_eq_getElem (by omega)
      have hpair := congrArg (fun list => list[g]?) h
      simp only [List.getElem?_map, hgroup, List.getElem?_eq_getElem hg, Option.map_some] at hpair
      obtain ⟨hkey, hhash⟩ := Prod.mk.inj (Option.some.inj hpair)
      constructor
      · unfold GroupTable.keyAt
        rw [hgroup]
        dsimp only
        rw [hkey, keyMatches_eq]
      · unfold GroupTable.hashes
        rw [List.getD_eq_getElem?_getD, List.getElem?_map, hgroup]
        exact congrArg UInt32.toNat hhash
    have hin : ∀ g (hg : g < (firstsBy (sameRow slots) done).length),
        (firstsBy (sameRow slots) done)[g] ∈ done ++ [record] := fun g hg =>
      List.mem_append_left _ (mem_of_mem_firstsBy (List.getElem_mem hg))
    unfold DatabaseEngine.findGroup
    rw [if_neg (by omega)]
    have hone : ∀ g < t.groups.length, keyMatches record slots (t.keyAt g) = true →
        t.hashes g = (hashKey record slots).toNat := by
      intro g hg hwanted
      have hlt : g < (firstsBy (sameRow slots) done).length := by omega
      obtain ⟨hmatch, hhash⟩ := hat g hlt
      have hsame : sameRow slots record (firstsBy (sameRow slots) done)[g] = true :=
        hmatch ▸ hwanted
      have hmem : record ∈ done ++ [record] := List.mem_append_right _ (List.mem_singleton_self _)
      rw [hhash, hashKey_of_same hagree hmem (hin g hlt) hsame]
    rcases hprobed.lookup_wanted (by omega) hone
      with ⟨g, hg, hfound, hwanted⟩ | ⟨hnone, hno⟩
    · have hlt : g < (firstsBy (sameRow slots) done).length := by omega
      refine .inl ⟨g, hfound, List.any_eq_true.mpr ⟨_, List.getElem_mem hlt, ?_⟩⟩
      exact (hat g hlt).1 ▸ hwanted
    · refine .inr ⟨hnone, ?_⟩
      rw [List.any_eq_false]
      intro first hfirst
      obtain ⟨g, hg, rfl⟩ := List.getElem_of_mem hfirst
      rw [← (hat g hg).1, hno g (by omega)]
      exact Bool.false_ne_true

/-- One more row that is decoded as it was recorded. -/
theorem groupRow_listed (h : Listed slots done t) (hplaced : Placed t)
    (hagree : HashesAgree slots (done ++ [record]))
    (hkeys : ∀ slot ∈ slots, row.value slot = record.value slot)
    (hok : groupRow memory items exprs slots row t = .ok t') :
    Listed slots (done ++ [record]) t' := by
  unfold Listed
  rw [firstsBy_append]
  have hfind := h.findGroup hplaced hagree
  rw [← findGroup_keys hkeys, ← hashKey_keys hkeys] at hfind
  rcases groupRow_ok hok with ⟨g, group, accs, hfound, hgroup, rfl⟩ | ⟨group, accs, hnone, hgroup, rfl⟩
  · obtain ⟨-, -, hany⟩ | ⟨hno, -⟩ := hfind
    · rw [if_pos hany]
      dsimp only
      rw [listed_set hgroup]
      exact h
    · exact absurd (hno.symm.trans hfound) (by simp)
  · obtain ⟨g, hfound, -⟩ | ⟨-, hany⟩ := hfind
    · exact absurd (hnone.symm.trans hfound) (by simp)
    · obtain ⟨hgroups, -, -⟩ := @addGroup_probed items slots t row memory hplaced
      rw [if_neg (by rw [hany]; exact Bool.false_ne_true)]
      dsimp only
      rw [listed_set hgroup, hgroups, List.map_append, List.map_append]
      refine congrArg₂ (· ++ ·) h ?_
      have hmap : slots.map row.value = slots.map record.value := List.map_congr_left hkeys
      simp only [List.map_cons, List.map_nil, freshGroup, hmap, hashKey_keys hkeys]

/-- The loop, as far as it reads the GROUP BY columns. -/
theorem groupRows_listed (h : Listed slots done t) (hplaced : Placed t)
    (hagree : HashesAgree slots (done ++ rows)) (hdeep : ∀ slot ∈ slots, (slot : Int) ≤ deepest)
    (hlong : ∀ row ∈ rows, ∀ slot ∈ slots, slot < row.length)
    (hok : groupRows memory items exprs slots deepest rows storage t = .ok t') :
    Listed slots (done ++ rows) t' := by
  induction rows generalizing done t storage with
  | nil =>
    rw [List.append_nil]
    exact Except.ok.inj hok ▸ h
  | cons record rest ih =>
    unfold groupRows at hok
    dsimp only at hok
    split at hok
    · exact absurd hok (by simp)
    · rename_i t₁ hrow
      have hfront : HashesAgree slots (done ++ [record]) := fun a ha b hb =>
        hagree a (by simp at ha ⊢; tauto) b (by simp at hb ⊢; tauto)
      have hsplit : done ++ record :: rest = (done ++ [record]) ++ rest := by simp
      rw [hsplit] at hagree ⊢
      refine ih (groupRow_listed h hplaced hfront (fun slot hslot => ?_) hrow)
        (groupRow_placed hplaced hrow) hagree
        (fun row hin => hlong row (List.mem_cons_of_mem _ hin)) hok
      exact decodeInto_value (hdeep slot hslot) (hlong record List.mem_cons_self slot hslot)

/-- GROUP BY makes one group for each class, where equal values hash alike. -/
theorem collectGroups_firsts {groups : List Group} (hslots : slots ≠ [])
    (hlong : ∀ row ∈ rows, ∀ slot ∈ slots, slot < row.length) (hagree : HashesAgree slots rows)
    (hok : collectGroups memory items exprs slots rows = .ok groups) :
    groups.map Group.key =
      (firstsBy (sameRow slots) rows).map fun row => slots.map row.value := by
  obtain ⟨slot, hslot⟩ := List.exists_mem_of_ne_nil slots hslots
  have hdeep := (@deepestRead_le slots exprs items).1
  have hnonneg := hdeep slot hslot
  unfold collectGroups at hok
  dsimp only at hok
  rw [if_neg (by omega)] at hok
  split at hok
  · exact absurd hok (by simp)
  · rename_i t hrows
    rw [if_neg (fun hboth => hslots hboth.2)] at hok
    obtain rfl := Except.ok.inj hok
    have hstart : Listed slots []
        { groups := [], buckets := List.replicate memory.bucketCount 0 } := rfl
    have hlisted := groupRows_listed hstart (placed_start memory) hagree hdeep hlong hrows
    have hkeys := congrArg (List.map Prod.fst) hlisted
    rw [List.map_map, List.map_map] at hkeys
    exact hkeys

end

/-! ### Both -/

/-- DISTINCT keeps the first row of each class of equal rows, GROUP BY makes a group for the first
row of each, and equal values hash alike: this holds of rows if and only if no column of them has
zeros of both signs. Whatever the rows are, every probe ends at an empty bucket. -/
theorem equal_rows_share_iff (rows : List Row) :
    (∀ (count : Nat) (select : ParsedSelect) (out : ResultSet),
      (count = 0 ∨ ∃ e, count = 2 ^ e) → select.distinct = true → out.rows = rows →
      (HashesAgree (List.range out.headers.length) rows ∧
          (applyDistinct count select out).rows =
            firstsBy (sameRow (List.range out.headers.length)) rows ↔
        ZerosAgree (List.range out.headers.length) rows) ∧
      ∀ r ≤ rows.length, Roomy (distinctState out.headers.length rows
        (distinctBucketCount count rows.length) r).buckets) ∧
    ∀ (memory : GroupMemory) (items : List SelectItem) (exprs : ExprPool) (slots : List Nat),
      slots ≠ [] → (∀ row ∈ rows, ∀ slot ∈ slots, slot < row.length) →
      (∀ groups, collectGroups memory items exprs slots rows = .ok groups →
        (HashesAgree slots rows ∧ groups.map Group.key =
            (firstsBy (sameRow slots) rows).map (fun row => slots.map row.value) ↔
          ZerosAgree slots rows)) ∧
      ∀ done t, done <+: rows →
        groupRows memory items exprs slots (deepestRead slots exprs items) done []
          { groups := [], buckets := List.replicate memory.bucketCount 0 } = .ok t →
        GroupsRoomy t := by
  constructor
  · rintro count select out hcount hdistinct rfl
    obtain ⟨hsize, hroom⟩ := @distinctBucketCount_size _ out.rows.length hcount
    constructor
    · rw [← hashesAgree_iff]
      exact ⟨And.left, fun hagree => ⟨hagree, applyDistinct_firsts hcount hdistinct hagree⟩⟩
    · exact fun r hr => (distinctState_kept hsize hroom hr).roomy hr hroom
  · intro memory items exprs slots hslots hlong
    constructor
    · intro groups hok
      rw [← hashesAgree_iff]
      exact ⟨And.left, fun hagree => ⟨hagree, collectGroups_firsts hslots hlong hagree hok⟩⟩
    · exact fun done t _ hok => (groupRows_placed (placed_start memory) hok).roomy

/-- The SELECT of a text with DISTINCT, and a result of one column. -/
def distinctX : ParsedSelect := threeTables.select "select distinct x from a"

/-- A result of one column. -/
def columnX (type : ColType) (values : List Value) : ResultSet :=
  { headers := [Name.ofBytes (ascii "x")], types := [type], rows := values.map fun v => [v] }

/-- Two rows of three are left where the last is equal to the first. -/
theorem equal_rows_share_iff_again :
    (applyDistinct 0 distinctX (columnX .TYPE_FLOAT
        [setFloat 0, setNull .TYPE_FLOAT, setFloat 0])).rows =
      [[setFloat 0], [setNull .TYPE_FLOAT]] := by
  have hzeros : ZerosAgree (List.range 1)
      (columnX .TYPE_FLOAT [setFloat 0, setNull .TYPE_FLOAT, setFloat 0]).rows := by
    unfold ZerosAgree
    decide +kernel
  have hfirsts := ((equal_rows_share_iff
    (columnX .TYPE_FLOAT [setFloat 0, setNull .TYPE_FLOAT, setFloat 0]).rows).1 0 distinctX
    (columnX .TYPE_FLOAT [setFloat 0, setNull .TYPE_FLOAT, setFloat 0]) (.inl rfl)
    (by decide +kernel) rfl).1.mpr hzeros
  rw [hfirsts.2]
  decide +kernel

/-- GROUP BY makes two groups of zeros of both signs, which are equal, and DISTINCT keeps both in a
table that a larger SELECT has left. -/
theorem zeros_kept_apart :
    (collectGroups freshStatics.memory [] [] [0]
        [[setFloat 0], [setFloat 0x8000000000000000]]).map (List.map Group.key) =
      .ok [[setFloat 0], [setFloat 0x8000000000000000]] ∧
    (applyDistinct 256 distinctX
        (columnX .TYPE_FLOAT [setFloat 0, setFloat 0x8000000000000000])).rows =
      [[setFloat 0], [setFloat 0x8000000000000000]] ∧
    firstsBy (sameRow [0]) [[setFloat 0], [setFloat 0x8000000000000000]] = [[setFloat 0]] := by
  decide +kernel

end DatabaseEngine
