import DatabaseEngine.Proofs.Join.Outer
import DatabaseEngine.Proofs.Select.Keys

/-!
# `DatabaseEngine.Proofs.Join.Hashed`: the hash join and the nested loops

* `findEquiJoin_eq`: the hash join is keyed on the first equality of the AND spine.
* `equality_keys`: a pair that WHERE keeps has equal keys.
* `joinMatches_eq`: a walk through the buckets meets the rows of equal keys and hashes, in the order
  of the scan.
* `hashJoin_nested_iff`: the two joins store the same rows exactly where no pair that WHERE keeps has
  zeros of opposite sign for keys.
-/

set_option autoImplicit false

namespace DatabaseEngine

open Library

/-! ### The equality -/

/-- The first equality of the spine is the one that is found. -/
theorem findEquiJoin_eq (cond : Condition) (split fuel : Nat) (i : Int32) :
    findEquiJoin cond split fuel i =
      ((spineFrom cond fuel i).filterMap fun compare =>
        equiSlots cond.exprs compare split).head? := by
  induction fuel generalizing i with
  | zero => rfl
  | succ fuel ih =>
    unfold findEquiJoin spineFrom
    cases cond.node i with
    | none => rfl
    | some node =>
      dsimp only
      cases node.kind with
      | COND_COMPARE =>
        dsimp only
        cases hslots : equiSlots cond.exprs node.compare split with
        | none => simp [hslots]
        | some slots => simp [hslots]
      | COND_AND => simp only [ih, List.filterMap_append, List.head?_append]
      | COND_OR => rfl
      | COND_NOT => rfl

/-- Where a condition is TRUE, so is every comparison of its spine. -/
theorem spine_true {cond : Condition} {sub : Subqueries} {row : Row} {fuel : Nat} {i : Int32}
    (h : evaluateConditionFrom fuel cond sub i row = .TRI_TRUE) :
    ∀ compare ∈ spineFrom cond fuel i, evaluatePredicate cond.exprs sub compare row = .TRI_TRUE := by
  induction fuel generalizing i with
  | zero => exact fun compare hc => absurd hc (by simp [spineFrom])
  | succ fuel ih =>
    unfold evaluateConditionFrom at h
    unfold spineFrom
    cases hn : cond.node i with
    | none => exact fun compare hc => absurd hc (by simp)
    | some node =>
      simp only [hn] at h
      cases hkind : node.kind with
      | COND_COMPARE =>
        simp only [hkind] at h ⊢
        intro compare hc
        rw [List.mem_singleton.mp hc]
        exact h
      | COND_AND =>
        simp only [hkind] at h ⊢
        have hboth : evaluateConditionFrom fuel cond sub node.left row = .TRI_TRUE ∧
            evaluateConditionFrom fuel cond sub node.right row = .TRI_TRUE := by
          revert h
          generalize evaluateConditionFrom fuel cond sub node.left row = left
          generalize evaluateConditionFrom fuel cond sub node.right row = right
          cases left <;> cases right <;> decide
        intro compare hc
        rcases List.mem_append.mp hc with hc | hc
        · exact ih hboth.1 compare hc
        · exact ih hboth.2 compare hc
      | COND_OR => exact fun compare hc => absurd hc (by simp [hkind])
      | COND_NOT => exact fun compare hc => absurd hc (by simp [hkind])

/-- Values that compare equal are no NULLs and are equal. -/
theorem comparePredicate_eq {a b : Value} (h : comparePredicate a b .OP_EQ = .TRI_TRUE) :
    a.isNull = false ∧ valuesEqual a b = true := by
  unfold comparePredicate at h
  unfold valuesEqual
  cases ha : a.isNull with
  | true => simp [ha] at h
  | false =>
    cases hb : b.isNull with
    | true => simp [hb] at h
    | false =>
      by_cases htype : a.type = b.type
      · cases hsame : valuesSame a b with
        | true => simp [htype]
        | false => simp [ha, hb, htype, hsame, TriState.ofBool] at h
      · simp [ha, hb, htype] at h

/-- A side that is a column evaluates to the row's value there. -/
theorem columnSlot_eq {pool : ExprPool} {i : Int32} {slot : Nat}
    (h : columnSlot pool i = some slot) {row : Row} {value : Value}
    (hvalue : exprEvaluate pool i row = .ok value) : value = row.value slot := by
  unfold columnSlot at h
  unfold exprEvaluate exprEvaluateFrom at hvalue
  cases hn : pool.node i with
  | none =>
    rw [hn] at h
    exact absurd h (by simp)
  | some node =>
    rw [hn] at h hvalue
    dsimp only at h hvalue
    split at h
    · rename_i hcolumn
      obtain rfl := Option.some.inj h
      rw [hcolumn.1] at hvalue
      dsimp only at hvalue
      split at hvalue
      · exact absurd hvalue (by simp)
      · exact (Except.ok.inj hvalue).symm
    · exact absurd h (by simp)

/-- The rows of two tables have equal keys, which are not NULL. -/
def KeysEqual (probeSlot buildSlot : Nat) (row other : Row) : Prop :=
  (row.value probeSlot).isNull = false ∧
    valuesEqual (row.value probeSlot) (other.value buildSlot) = true

/-- The front of a joined row has the first row's values. -/
theorem value_append_left {row other : Row} {slot : Nat} (h : slot < row.length) :
    Row.value (row ++ other) slot = row.value slot := by
  unfold Row.value
  rw [List.getD_append _ _ _ _ h]

/-- The back of a joined row has the second row's values. -/
theorem value_append_right {row other : Row} {slot : Nat} (h : row.length ≤ slot) :
    Row.value (row ++ other) slot = other.value (slot - row.length) := by
  unfold Row.value
  rw [List.getD_append_right _ _ _ _ h]

/-- An equality between the tables that is TRUE on a pair of rows. -/
theorem equality_keys {exprs : ExprPool} {sub : Subqueries} {compare : Predicate} {row other : Row}
    {probeSlot buildSlot : Nat} (hsingle : compare.Single)
    (hslots : equiSlots exprs compare row.length = some (probeSlot, buildSlot))
    (h : evaluatePredicate exprs sub compare (row ++ other) = .TRI_TRUE) :
    KeysEqual probeSlot buildSlot row other := by
  unfold equiSlots at hslots
  split at hslots
  · exact absurd hslots (by simp)
  · rename_i hop
    have hop : compare.op = .OP_EQ := not_not.mp hop
    split at hslots
    · rename_i left right hleft hright
      -- there is a right side, so there is no subquery
      have hsub : ¬0 ≤ compare.subquery := by
        intro hpos
        have hneg := hsingle hpos
        unfold columnSlot ExprPool.node at hright
        rw [if_pos hneg] at hright
        exact absurd hright (by simp)
      unfold evaluatePredicate at h
      simp only [hop, reduceCtorEq, if_false, or_self, hsub] at h
      cases hl : exprEvaluate exprs compare.left (row ++ other) with
      | error code => simp [hl] at h
      | ok leftValue =>
        cases hr : exprEvaluate exprs compare.right (row ++ other) with
        | error code => simp [hl, hr] at h
        | ok rightValue =>
          simp only [hl, hr] at h
          obtain ⟨hnull, hequal⟩ := comparePredicate_eq h
          obtain rfl := columnSlot_eq hleft hl
          obtain rfl := columnSlot_eq hright hr
          split at hslots
          · rename_i hsides
            obtain ⟨rfl, rfl⟩ := Prod.mk.inj (Option.some.inj hslots)
            rw [value_append_left hsides.1] at hnull hequal
            rw [value_append_right hsides.2] at hequal
            exact ⟨hnull, hequal⟩
          · split at hslots
            · rename_i hsides
              obtain ⟨rfl, rfl⟩ := Prod.mk.inj (Option.some.inj hslots)
              rw [value_append_right hsides.2] at hnull hequal
              rw [value_append_left hsides.1, valuesEqual_comm] at hequal
              refine ⟨?_, hequal⟩
              rw [valuesEqual_comm, valuesEqual_iff_same hnull] at hequal
              exact hequal.1
            · exact absurd hslots (by simp)
    · exact absurd hslots (by simp)

/-- The spine is a part of the tree. -/
theorem spine_comparisons {cond : Condition} {fuel : Nat} {i : Int32} {compare : Predicate}
    (h : compare ∈ spineFrom cond fuel i) : compare ∈ comparisonsFrom cond.nodes fuel i := by
  induction fuel generalizing i with
  | zero => exact absurd h (by simp [spineFrom])
  | succ fuel ih =>
    unfold spineFrom Condition.node at h
    unfold comparisonsFrom
    cases hn : (if i < 0 then none else cond.nodes[i.toInt.toNat]?) with
    | none =>
      rw [hn] at h
      exact absurd h (by simp)
    | some node =>
      simp only [hn] at h ⊢
      cases hkind : node.kind with
      | COND_COMPARE => simpa only [hkind] using h
      | COND_AND =>
        simp only [hkind, List.mem_append] at h ⊢
        exact h.imp ih ih
      | COND_OR => simp [hkind] at h
      | COND_NOT => simp [hkind] at h

/-- A pair that WHERE keeps has equal keys. -/
theorem keeps_keys {wher : Condition} {sub : Subqueries} {row other : Row}
    {probeSlot buildSlot : Nat} (hsingle : ∀ node ∈ wher.nodes, node.compare.Single)
    (hpresent : wher.present = true)
    (hkey : (equalities wher row.length).head? = some (probeSlot, buildSlot))
    (h : keeps wher sub (row ++ other) = true) : KeysEqual probeSlot buildSlot row other := by
  unfold keeps at h
  rw [hpresent] at h
  have htrue : evaluateCondition wher sub (row ++ other) = .TRI_TRUE := by simpa using h
  obtain ⟨compare, hcompare, hslots⟩ := List.mem_filterMap.mp (List.mem_of_mem_head? hkey)
  obtain ⟨node, hnode, -, rfl⟩ := mem_comparisonsFrom (spine_comparisons hcompare)
  exact equality_keys (hsingle node hnode) hslots (spine_true htrue _ hcompare)

/-- A side that is a column reads that column only. -/
theorem columnSlot_deepest {pool : ExprPool} {i : Int32} {slot : Nat}
    (h : columnSlot pool i = some slot) : exprDeepest pool i = slot := by
  unfold columnSlot at h
  unfold exprDeepest exprDeepestFrom
  cases hn : pool.node i with
  | none =>
    rw [hn] at h
    exact absurd h (by simp)
  | some node =>
    rw [hn] at h
    dsimp only at h
    split at h
    · rename_i hcolumn
      obtain rfl := Option.some.inj h
      simp only [hcolumn.1]
      omega
    · exact absurd h (by simp)

/-- The keys are columns of the two tables. -/
theorem equalities_lt {wher : Condition} {split width probeSlot buildSlot : Nat}
    (hreads : ReadsBelow wher wher.root (split + width))
    (hkey : (equalities wher split).head? = some (probeSlot, buildSlot)) :
    probeSlot < split ∧ buildSlot < width := by
  obtain ⟨compare, hcompare, hslots⟩ := List.mem_filterMap.mp (List.mem_of_mem_head? hkey)
  unfold equiSlots at hslots
  split at hslots
  · exact absurd hslots (by simp)
  · rename_i hop
    have hop : compare.op = .OP_EQ := not_not.mp hop
    obtain ⟨hleftReads, hrightReads⟩ := hreads compare (spine_comparisons hcompare)
      (by rw [hop]; decide)
    split at hslots
    · rename_i left right hleft hright
      rw [columnSlot_deepest hleft] at hleftReads
      rw [columnSlot_deepest hright] at hrightReads
      split at hslots
      · obtain ⟨rfl, rfl⟩ := Prod.mk.inj (Option.some.inj hslots)
        omega
      · split at hslots
        · obtain ⟨rfl, rfl⟩ := Prod.mk.inj (Option.some.inj hslots)
          omega
        · exact absurd hslots (by simp)
    · exact absurd hslots (by simp)

/-! ### The buckets -/

/-- The entry of a row. -/
def entryOf (buildSlot : Nat) (row : Row) : JoinEntry :=
  { hash := hashValue (row.value buildSlot), key := row.value buildSlot, row := row }

/-- The entries are the rows with a key, in the order of the scan. -/
theorem buildEntries_eq {buildSlot width : Nat} (hslot : buildSlot < width) {rows : List Row}
    (hrows : ∀ row ∈ rows, row.length = width) (storage : Row) :
    buildEntries buildSlot rows storage =
      (rows.filter fun row => !(row.value buildSlot).isNull).map (entryOf buildSlot) := by
  induction rows generalizing storage with
  | nil => rfl
  | cons record rest ih =>
    have hvalue : (decodeInto record storage buildSlot).value buildSlot = record.value buildSlot :=
      decodeInto_value (Int.le_refl _) (by rw [hrows record (by simp)]; exact hslot)
    have hrest := ih (fun row hr => hrows row (by simp [hr])) (decodeInto record storage buildSlot)
    unfold buildEntries
    simp only [hvalue, hrest, List.filter_cons]
    cases (record.value buildSlot).isNull with
    | true => rfl
    | false => rfl

/-- Doubling often enough makes a power of two with room. -/
theorem grown_size {fuel e room : Nat} :
    ∃ e', grown fuel (2 ^ e) room = 2 ^ e' ∧ (room ≤ 2 ^ (e + fuel) → room ≤ 2 ^ e') := by
  induction fuel generalizing e with
  | zero => exact ⟨e, rfl, id⟩
  | succ fuel ih =>
    unfold grown
    split
    · obtain ⟨e', heq, hroom⟩ := ih (e := e + 1)
      rw [Nat.pow_succ] at heq
      refine ⟨e', heq, fun h => hroom ?_⟩
      rwa [Nat.add_assoc, Nat.add_comm 1]
    · exact ⟨e, rfl, fun _ => by omega⟩

/-- There is always an empty bucket. -/
theorem joinBucketCount_size {kept count : Nat} (hkept : kept = 0 ∨ ∃ e, kept = 2 ^ e) :
    (∃ e, joinBucketCount kept count = 2 ^ e) ∧ count < joinBucketCount kept count := by
  obtain ⟨e, heq, hroom⟩ := @grown_size count 4 _
  have hlt : count < 2 ^ count := Nat.lt_two_pow_self
  have hcount : count * 2 ≤ 2 ^ e := hroom (by rw [Nat.pow_add]; omega)
  have hpos := Nat.two_pow_pos e
  have hsize : grown count 16 (count * 2) = 2 ^ e := heq
  unfold joinBucketCount
  rw [hsize]
  refine ⟨?_, by omega⟩
  rcases hkept with rfl | ⟨e', rfl⟩
  · exact ⟨e, Nat.zero_max _⟩
  · rcases Nat.le_total (2 ^ e') (2 ^ e) with hle | hle
    · exact ⟨e, Nat.max_eq_right hle⟩
    · exact ⟨e', Nat.max_eq_left hle⟩

/-- Going over the indexes of a list is going over the list. -/
theorem filterMap_range_getElem? {α β : Type} (xs : List α) (f : α → Option β) :
    (List.range xs.length).filterMap (fun i => (xs[i]?).bind f) = xs.filterMap f := by
  induction xs using List.reverseRecOn with
  | nil => rfl
  | append_singleton xs x ih =>
    rw [List.length_append, List.length_singleton, List.range_succ, List.filterMap_append,
      List.filterMap_append, ← ih]
    congr 1
    · refine List.filterMap_congr fun i hi => ?_
      rw [List.getElem?_append_left (List.mem_range.mp hi)]
    · rw [List.filterMap_cons, List.getElem?_concat_length]
      rfl

/-- The row of an entry, if it has the key. -/
def matchOf (key : Value) (entry : JoinEntry) : Option Row :=
  if entry.hash = hashValue key ∧ valuesEqual entry.key key then some entry.row else none

/-- A walk through the buckets answers the entries of a key in their order. -/
theorem joinMatches_eq {entries : List JoinEntry} {size : Nat} (hsize : ∃ e, size = 2 ^ e)
    (hroom : entries.length < size) (key : Value) :
    joinMatches entries (rehash size (entries.map fun entry => entry.hash.toNat)) key =
      entries.filterMap (matchOf key) := by
  have hwalk := @walkFrom_rehash _ (entries.map fun entry => entry.hash.toNat) hsize
    (by simpa using hroom) (hashValue key).toNat
  rw [List.length_map] at hwalk
  have hmatches : ∀ buckets : List Nat, joinMatches entries buckets key =
      (walkFrom buckets (hashValue key).toNat).filterMap fun i =>
        (entries[i]?).bind (matchOf key) := by
    intro buckets
    unfold joinMatches
    refine List.filterMap_congr fun i _ => ?_
    cases entries[i]? <;> rfl
  -- an entry with another hash has no row to answer
  have hfilter : ∀ walked : List Nat, walked.filterMap (fun i => (entries[i]?).bind (matchOf key)) =
      (walked.filter fun i => (entries.map fun entry => entry.hash.toNat).getD i 0 ==
        (hashValue key).toNat).filterMap fun i => (entries[i]?).bind (matchOf key) := by
    intro walked
    rw [List.filterMap_filter]
    refine List.filterMap_congr fun i _ => ?_
    rw [List.getD_eq_getElem?_getD, List.getElem?_map]
    cases entries[i]? with
    | none => simp
    | some entry =>
      simp only [Option.bind_some, Option.map_some, Option.getD_some, beq_iff_eq, UInt32.toNat_inj]
      unfold matchOf
      by_cases hhash : entry.hash = hashValue key <;> simp [hhash]
  rw [hmatches, hfilter, hwalk, ← hfilter, filterMap_range_getElem?]

/-! ### The loops -/

section
variable {wher : Condition} {sub : Subqueries} {total base : Nat} {front : Row}

/-- One part of a join behind another. -/
theorem Stores.andThen {out rows rows' : List Row} {result : Except ErrorCode JoinState}
    {next : JoinState → Except ErrorCode JoinState} (h : Stores total base front out rows result)
    (hnext : ∀ state : JoinState, state.work.length = total → state.work.take base = front →
      Stores total base front state.out rows' (next state)) :
    Stores total base front out (rows ++ rows')
      (result.bind next) := by
  unfold Stores at h ⊢
  rw [storeAll_append]
  cases hstore : storeAll out rows with
  | error code =>
    rw [hstore] at h
    rw [h]
    rfl
  | ok out' =>
    rw [hstore] at h
    obtain ⟨work, hresult, hlength, htake⟩ := h
    have := hnext { out := out', work := work } hlength htake
    unfold Stores at this
    rw [hresult]
    exact this

/-- Storing nothing leaves the rows as they are. -/
theorem Stores.nothing {out : List Row} {work : Row} (hwork : work.length = total) :
    Stores total 0 [] out [] (.ok { out := out, work := work }) :=
  ⟨work, rfl, hwork, rfl⟩

/-- Two rows side by side in the work row. -/
theorem fill_pair {row other work : Row} (hwidth : row.length + other.length ≤ work.length) :
    ((storeAt (storeAt work 0 row) row.length other).take (row.length + other.length) = row ++ other) ∧
      (storeAt (storeAt work 0 row) row.length other).length = work.length := by
  have hfirst : (storeAt work 0 row).length = work.length := storeAt_length (by omega)
  have htake := @storeAt_take work 0 row (by omega)
  rw [Nat.zero_add, List.take_zero, List.nil_append] at htake
  refine ⟨?_, (storeAt_length (by omega)).trans hfirst⟩
  rw [storeAt_take (by omega), htake]

/-- The rows found for one key are joined and stored in order. -/
theorem joinFound_stores {row : Row} {width : Nat} {found : List Row}
    (hreads : wher.present = true → ReadsBelow wher wher.root (row.length + width))
    (hfound : ∀ other ∈ found, other.length = width) (htotal : row.length + width ≤ total)
    {state : JoinState} (hwork : state.work.length = total) :
    Stores total 0 [] state.out ((found.map (row ++ ·)).filter (keeps wher sub))
      (joinFound wher sub row.length (row.length + width) row found state) := by
  induction found generalizing state with
  | nil => exact .nothing hwork
  | cons other rest ih =>
    have hother : other.length = width := hfound other (by simp)
    obtain ⟨htake, hlength⟩ := @fill_pair row other state.work (by omega)
    have hleaf := @joinLeaf_stores _ sub _ ((state.fill 0 row).fill row.length other) hreads
    simp only [JoinState.fill] at hleaf
    rw [hother] at htake
    rw [htake, hlength, hwork] at hleaf
    have hfirst : Stores total 0 [] state.out (joinedBehind wher sub [] (row ++ other))
        (joinLeaf wher sub (row.length + width) ((state.fill 0 row).fill row.length other)) := by
      unfold Stores at hleaf ⊢
      split at hleaf
      · exact hleaf
      · obtain ⟨work, hresult, hlen, -⟩ := hleaf
        exact ⟨work, hresult, hlen, rfl⟩
    have hsplit : ((other :: rest).map (row ++ ·)).filter (keeps wher sub) =
        joinedBehind wher sub [] (row ++ other) ++
          (rest.map (row ++ ·)).filter (keeps wher sub) := by
      rw [List.map_cons, List.filter_cons]
      unfold joinedBehind
      split <;> rfl
    have hbind : joinFound wher sub row.length (row.length + width) row (other :: rest) state =
        (joinLeaf wher sub (row.length + width)
          ((state.fill 0 row).fill row.length other)).bind
            (joinFound wher sub row.length (row.length + width) row rest) := by
      conv_lhs => unfold joinFound
      cases joinLeaf wher sub (row.length + width) ((state.fill 0 row).fill row.length other) <;> rfl
    rw [hsplit, hbind]
    exact hfirst.andThen fun state hstate _ => ih (fun r hr => hfound r (by simp [hr])) hstate

/-- What the hash join looks at for a row of the first table. -/
def probed (wher : Condition) (sub : Subqueries) (probeSlot : Nat) (entries : List JoinEntry)
    (buckets : List Nat) (row : Row) : List Row :=
  if (row.value probeSlot).isNull then []
  else ((joinMatches entries buckets (row.value probeSlot)).map (row ++ ·)).filter (keeps wher sub)

/-- Every row of the probed side stores what it finds. -/
theorem probeRows_stores {entries : List JoinEntry} {buckets : List Nat}
    {split width probeSlot : Nat}
    (hreads : wher.present = true → ReadsBelow wher wher.root (split + width))
    (hfound : ∀ key, ∀ other ∈ joinMatches entries buckets key, other.length = width)
    (htotal : split + width ≤ total) {rows : List Row} (hrows : ∀ row ∈ rows, row.length = split)
    {state : JoinState} (hwork : state.work.length = total) :
    Stores total 0 [] state.out (rows.flatMap (probed wher sub probeSlot entries buckets))
      (probeRows wher sub split (split + width) probeSlot entries buckets rows state) := by
  induction rows generalizing state with
  | nil => exact .nothing hwork
  | cons row rest ih =>
    have hrow : row.length = split := hrows row (by simp)
    have hrest : ∀ row ∈ rest, row.length = split := fun r hr => hrows r (by simp [hr])
    rw [List.flatMap_cons]
    cases hnull : (row.value probeSlot).isNull with
    | true =>
      have hnone : probed wher sub probeSlot entries buckets row = [] := if_pos hnull
      have hstep : probeRows wher sub split (split + width) probeSlot entries buckets (row :: rest)
          state = probeRows wher sub split (split + width) probeSlot entries buckets rest state :=
        if_pos hnull
      rw [hnone, hstep, List.nil_append]
      exact ih hrest hwork
    | false =>
      have hsome : probed wher sub probeSlot entries buckets row =
          ((joinMatches entries buckets (row.value probeSlot)).map (row ++ ·)).filter
            (keeps wher sub) := if_neg (by simp [hnull])
      have hstep : probeRows wher sub split (split + width) probeSlot entries buckets (row :: rest)
          state = (joinFound wher sub split (split + width) row
            (joinMatches entries buckets (row.value probeSlot)) state).bind
              (probeRows wher sub split (split + width) probeSlot entries buckets rest) := by
        conv_lhs => unfold probeRows
        simp only [hnull, Bool.false_eq_true, if_false]
        cases joinFound wher sub split (split + width) row
          (joinMatches entries buckets (row.value probeSlot)) state <;> rfl
      have hfirst := @joinFound_stores _ sub _ _ _ _ (by rw [hrow]; exact hreads)
        (hfound (row.value probeSlot)) (by rw [hrow]; exact htotal) _ hwork
      rw [hrow] at hfirst
      rw [hsome, hstep]
      exact hfirst.andThen fun state hstate _ => ih hrest hstate

end

/-! ### The two joins -/

/-- A pair of rows whose keys are zeros of opposite sign. -/
def OppositeKeys (probeSlot buildSlot : Nat) (pair : Row × Row) : Prop :=
  OppositeZeros (pair.1.value probeSlot) (pair.2.value buildSlot)

instance (probeSlot buildSlot : Nat) (pair : Row × Row) :
    Decidable (OppositeKeys probeSlot buildSlot pair) :=
  inferInstanceAs (Decidable (OppositeZeros _ _))

section
variable {wher : Condition} {sub : Subqueries} {probeSlot buildSlot : Nat}

/-- The partners that the hash join finds are those with equal keys of one hash. -/
theorem matchOf_entries {key : Value} (hkey : key.isNull = false) (rows : List Row) :
    ((rows.filter fun row => !(row.value buildSlot).isNull).map
        (entryOf buildSlot)).filterMap (matchOf key) =
      rows.filter fun row => decide (hashValue (row.value buildSlot) = hashValue key ∧
        valuesEqual (row.value buildSlot) key = true) := by
  induction rows with
  | nil => rfl
  | cons row rest ih =>
    cases hnull : (row.value buildSlot).isNull with
    | true =>
      have hno : valuesEqual (row.value buildSlot) key = false := by
        unfold valuesEqual
        rw [hnull, hkey]
        rfl
      rw [List.filter_cons_of_neg (by simp [hnull]), List.filter_cons_of_neg (by simp [hno])]
      exact ih
    | false =>
      rw [List.filter_cons_of_pos (by simp [hnull]), List.map_cons, List.filterMap_cons,
        List.filter_cons, ih]
      unfold matchOf entryOf
      by_cases h : hashValue (row.value buildSlot) = hashValue key ∧
          valuesEqual (row.value buildSlot) key = true
      · simp only [if_pos h, decide_eq_true h, if_true]
      · simp only [if_neg h, decide_eq_false h, Bool.false_eq_true, if_false]

/-- Of the pairs that WHERE keeps, those whose keys hash apart are not looked at. -/
theorem probed_eq {entries : List JoinEntry} {buckets : List Nat} {row : Row} {rows : List Row}
    (hmatches : (row.value probeSlot).isNull = false →
      joinMatches entries buckets (row.value probeSlot) =
        rows.filter fun other => decide (hashValue (other.value buildSlot) =
          hashValue (row.value probeSlot) ∧
            valuesEqual (other.value buildSlot) (row.value probeSlot) = true))
    (hkeeps : ∀ other ∈ rows, keeps wher sub (row ++ other) = true →
      KeysEqual probeSlot buildSlot row other) :
    probed wher sub probeSlot entries buckets row =
      (((rows.map (Prod.mk row)).filter fun pair => keeps wher sub (pair.1 ++ pair.2)).filter
        fun pair => !decide (OppositeKeys probeSlot buildSlot pair)).map
          fun pair => pair.1 ++ pair.2 := by
  rw [List.filter_filter, List.filter_map (f := Prod.mk row), List.map_map]
  unfold probed
  cases hnull : (row.value probeSlot).isNull with
  | true =>
    simp only [if_true]
    symm
    rw [List.map_eq_nil_iff, List.filter_eq_nil_iff]
    intro other hother
    simp only [Function.comp_apply, Bool.and_eq_true, not_and]
    intro _ hkept
    have hkeys := hkeeps other hother hkept
    rw [KeysEqual, hnull] at hkeys
    exact absurd hkeys.1 (by simp)
  | false =>
    simp only [Bool.false_eq_true, if_false]
    rw [hmatches hnull, List.filter_map, List.filter_filter]
    refine congrArg (List.map _) (List.filter_congr fun other hother => ?_)
    simp only [Function.comp_apply]
    cases hkept : keeps wher sub (row ++ other) with
    | false => simp
    | true =>
      obtain ⟨-, hequal⟩ := hkeeps other hother hkept
      have hhash := hashValue_eq_iff hequal
      rw [valuesEqual_comm] at hequal
      have hiff : hashValue (other.value buildSlot) = hashValue (row.value probeSlot) ↔
          ¬OppositeKeys probeSlot buildSlot (row, other) := eq_comm.trans hhash
      simp only [hequal, hiff, Bool.true_and, Bool.and_true, and_true, decide_not]

/-- Rows left out are missed, unless both fail. -/
theorem storeAll_filter_iff {α : Type} (f : α → Row) (p : α → Bool) (xs : List α) :
    storeAll [] ((xs.filter p).map f) = storeAll [] (xs.map f) ↔
      (∀ x ∈ xs, p x = true) ∨ ∃ x ∈ xs, p x = true ∧ TooLarge (f x) := by
  rw [storeAll_eq, storeAll_eq]
  by_cases hsome : ∃ x ∈ xs, p x = true ∧ TooLarge (f x)
  · obtain ⟨x, hx, hp, hlarge⟩ := hsome
    rw [if_pos ⟨f x, List.mem_map_of_mem (List.mem_filter.mpr ⟨hx, hp⟩), hlarge⟩,
      if_pos ⟨f x, List.mem_map_of_mem hx, hlarge⟩]
    exact ⟨fun _ => .inr ⟨x, hx, hp, hlarge⟩, fun _ => rfl⟩
  · have hleft : ¬∃ row ∈ (xs.filter p).map f, TooLarge row := by
      rintro ⟨row, hrow, hlarge⟩
      obtain ⟨x, hx, rfl⟩ := List.mem_map.mp hrow
      obtain ⟨hx, hp⟩ := List.mem_filter.mp hx
      exact hsome ⟨x, hx, hp, hlarge⟩
    rw [if_neg hleft]
    simp only [hsome, or_false, List.nil_append]
    refine ⟨fun heq => ?_, fun hall => ?_⟩
    · split at heq
      · exact absurd heq (by simp)
      · have hlength := congrArg List.length (Except.ok.inj heq)
        rw [List.length_map, List.length_map] at hlength
        exact List.filter_eq_self.mp (List.filter_sublist.eq_of_length hlength)
    · rw [List.filter_eq_self.mpr hall, if_neg]
      rintro ⟨row, hrow, hlarge⟩
      obtain ⟨x, hx, rfl⟩ := List.mem_map.mp hrow
      exact hsome ⟨x, hx, hall x hx, hlarge⟩

/-- The reference rows of an inner join of two tables. -/
theorem joined_pairs {first second : JoinTable}
    (hfirst : first.outer = false ∧ first.onRoot < 0)
    (hsecond : second.outer = false ∧ second.onRoot < 0) :
    joined wher sub [first, second] =
      (keptPairs wher sub first.stored.rows second.stored.rows).map fun pair =>
        pair.1 ++ pair.2 := by
  have hextend : ∀ (table : JoinTable), table.outer = false ∧ table.onRoot < 0 → ∀ front,
      extend wher sub table front = table.stored.rows.map (front ++ ·) := by
    intro table htable front
    unfold extend partners
    rw [htable.1, if_neg (by simp), List.filter_eq_self.mpr fun row _ => by simp [htable.2]]
  unfold joined combined keptPairs
  simp only [List.foldl_cons, List.foldl_nil, List.flatMap_singleton]
  rw [hextend first hfirst, List.flatMap_map, List.filter_flatMap]
  simp only [hextend second hsecond, List.nil_append]
  rw [List.product, List.filter_flatMap, List.map_flatMap]
  refine List.flatMap_congr fun row _ => ?_
  rw [List.filter_map, List.filter_map, List.map_map]
  rfl

end

section
variable {data : Data} {checked : ParsedSelect} {schema : CatalogNode} {first second : JoinTable}
  {wher : Condition} {kept probeSlot buildSlot : Nat}

/-- The conditions of an accepted SELECT, once bound, have subqueries or right sides. -/
theorem AcceptedSelect.single {tables : List CatalogNode} (h : AcceptedSelect tables checked)
    (hbound : resolveCondition schema checked.wher = (.ok (), wher)) :
    ∀ node ∈ wher.nodes, node.compare.Single := by
  obtain ⟨fuel, tokens, pool, select, pool', depth, checking, checking', hslots, hparse, hcheck⟩ := h
  obtain ⟨conditions, exprs, rfl⟩ := checkSelectFrom_shape hcheck
  have hnodes : wher.nodes = select.wher.nodes := (congrArg Condition.nodes (Prod.mk.inj hbound).2).symm
  rw [hnodes]
  exact (parseSelectFrom_formed hslots hparse).1.single

/-- The hash join stores the pairs that WHERE keeps, less those whose keys hash apart. -/
theorem hashJoin_pairs {first second : StoredTable} {width : Nat} (sub : Subqueries)
    (hsingle : ∀ node ∈ wher.nodes, node.compare.Single) (hpresent : wher.present = true)
    (hreads : ReadsBelow wher wher.root (first.node.cols.length + width))
    (hfirst : ∀ row ∈ first.rows, row.length = first.node.cols.length)
    (hsecond : ∀ row ∈ second.rows, row.length = width)
    (hkept : kept = 0 ∨ ∃ e, kept = 2 ^ e)
    (hkey : (equalities wher first.node.cols.length).head? = some (probeSlot, buildSlot))
    {work : Row} (hwidth : first.node.cols.length + width ≤ work.length) :
    (hashJoin wher sub kept (first.node.cols.length + width) first second probeSlot buildSlot
        { out := [], work := work }).map JoinState.out =
      storeAll [] (((keptPairs wher sub first.rows second.rows).filter fun pair =>
        !decide (OppositeKeys probeSlot buildSlot pair)).map fun pair => pair.1 ++ pair.2) := by
  obtain ⟨-, hbuild⟩ := equalities_lt hreads hkey
  have hentries := buildEntries_eq hbuild hsecond []
  obtain ⟨hsize, hroom⟩ := @joinBucketCount_size _ ((buildEntries buildSlot second.rows []).length)
    hkept
  have hmatches := joinMatches_eq hsize hroom
  unfold hashJoin
  simp only
  generalize rehash (joinBucketCount kept (buildEntries buildSlot second.rows []).length)
    ((buildEntries buildSlot second.rows []).map fun entry => entry.hash.toNat) = buckets
    at hmatches ⊢
  have hfound : ∀ key, ∀ other ∈ joinMatches (buildEntries buildSlot second.rows []) buckets key,
      other.length = width := by
    intro key other hother
    rw [hmatches, hentries] at hother
    obtain ⟨entry, hentry, hmatch⟩ := List.mem_filterMap.mp hother
    obtain ⟨row, hrow, rfl⟩ := List.mem_map.mp hentry
    unfold matchOf at hmatch
    split at hmatch
    · obtain rfl := Option.some.inj hmatch
      exact hsecond row (List.mem_filter.mp hrow).1
    · exact absurd hmatch (by simp)
  have hstores := @probeRows_stores _ sub _ _ _ _ _ probeSlot (fun _ => hreads) hfound hwidth _
    hfirst { out := [], work := work } rfl
  have hprobed : ∀ row ∈ first.rows,
      probed wher sub probeSlot (buildEntries buildSlot second.rows []) buckets row = _ :=
    fun row hrow => probed_eq
      (fun hnull => by rw [hmatches, hentries, matchOf_entries hnull])
      fun other hother hkept => keeps_keys hsingle hpresent
        (by rw [hfirst row hrow]; exact hkey) hkept
  rw [hstores.map_out, List.flatMap_congr hprobed]
  unfold keptPairs
  rw [List.product, List.filter_flatMap, List.filter_flatMap, List.map_flatMap]

/-- A negative index is not one from 0 on. -/
theorem not_nonneg {i : Int32} (h : i < 0) : ¬0 ≤ i := by
  rw [Int32.lt_iff_toInt_lt] at h
  rw [Int32.le_iff_toInt_le]
  omega

/-- An inner join of two tables whose WHERE has an equality between them on its AND spine is done
with a hash table on the first such equality. It stores the rows of the nested loops, in their order,
exactly where no pair that WHERE keeps has zeros of opposite sign for keys, or both joins fail. -/
theorem hashJoin_nested_iff (sub : Subqueries)
    (haccepted : AcceptedSelect (data.tables.map StoredTable.node) checked)
    (hschema : buildJoinSchema (data.tables.map StoredTable.node) checked.tables = .ok schema)
    (htables : joinTablesOf data checked.tables checked.onRoots = .ok [first, second])
    (hinner : first.outer = false ∧ second.outer = false)
    (hbound : resolveCondition schema checked.wher = (.ok (), wher))
    (hpresent : wher.present = true) (hshaped : ∀ stored ∈ data.tables, Shaped stored)
    (hkept : kept = 0 ∨ ∃ e, kept = 2 ^ e)
    (hkey : (equalities wher first.stored.node.cols.length).head? = some (probeSlot, buildSlot)) :
    joinKey wher [first, second] = some (probeSlot, buildSlot) ∧
      ∀ work : Row, work.length = MAX_COLS →
        ((hashJoin wher sub kept schema.cols.length first.stored second.stored probeSlot buildSlot
            { out := [], work := work }).map JoinState.out =
          (joinTables wher sub [first, second] 0 { out := [], work := work }).map JoinState.out ↔
        (∀ pair ∈ keptPairs wher sub first.stored.rows second.stored.rows,
            ¬OppositeKeys probeSlot buildSlot pair) ∨
          ∃ pair ∈ keptPairs wher sub first.stored.rows second.stored.rows,
            ¬OppositeKeys probeSlot buildSlot pair ∧ TooLarge (pair.1 ++ pair.2)) := by
  have hspine : joinKey wher [first, second] = some (probeSlot, buildSlot) := by
    unfold joinKey
    simp only [hpresent, hinner, Bool.not_false, Bool.and_self, if_true]
    rw [findEquiJoin_eq]
    exact hkey
  refine ⟨hspine, fun work hwork => ?_⟩
  obtain ⟨hwidth, hle⟩ := buildJoinSchema_width htables hschema
  have hparsed := joinTablesOf_parsed haccepted.joins htables
  have htwo : widthOf [first, second] =
      first.stored.node.cols.length + second.stored.node.cols.length := by simp [widthOf]
  have hnone : ∀ table ∈ [first, second], table.outer = false → table.onRoot < 0 := by
    intro table ht houter
    have hroot := (hparsed table ht).1
    unfold JoinTable.Parsed at hroot
    rw [houter, Int32.le_iff_toInt_le] at hroot
    rw [Int32.lt_iff_toInt_lt]
    exact Int.not_le.mp fun hno => absurd (hroot.mpr hno) (by simp)
  have hfirst := hnone first (by simp) hinner.1
  have hsecond := hnone second (by simp) hinner.2
  have hlocal : OnsLocal wher 0 [first, second] :=
    .cons (fun hpos => absurd hpos (not_nonneg hfirst))
      (.cons (fun hpos => absurd hpos (not_nonneg hsecond)) (.nil _))
  rw [joinTables_stored sub haccepted hschema htables hbound hshaped hlocal hwork,
    joined_pairs ⟨hinner.1, hfirst⟩ ⟨hinner.2, hsecond⟩, hwidth, htwo,
    hashJoin_pairs sub (haccepted.single hbound) hpresent
      (by rw [← htwo, ← hwidth]; exact resolveCondition_reads hbound wher.root)
      (hshaped _ (hparsed first (by simp)).2) (hshaped _ (hparsed second (by simp)).2) hkept hkey
      (by omega),
    storeAll_filter_iff]
  simp only [Bool.not_eq_true', decide_eq_false_iff_not]

end

/-- A table of a number and a double. -/
def measured (name : String) (rows : List (Int32 × UInt64)) : StoredTable :=
  { node :=
      { table := Name.ofBytes (ascii name)
        cols := [plainColumn (ascii "id") .TYPE_INT, plainColumn (ascii "f") .TYPE_FLOAT]
        check := none }
    rows := rows.map fun row => [{ zeroValue with intValue := row.1 }, setFloat row.2] }

/-- Tables `a` and `b`: the double of the row that they share is 0.0 in `a` and -0.0 in `b`. -/
def signedZeros : Data :=
  { tables := [measured "a" [(1, 0)], measured "b" [(1, 0x8000000000000000)]]
    indexes := []
    candidates := fun _ _ _ => .ok [] }

/-- `SELECT * FROM a, b WHERE a.id = b.id AND a.f = b.f` -/
def numberFirst : ParsedSelect :=
  signedZeros.select "select * from a, b where a.id = b.id and a.f = b.f"

/-- `SELECT * FROM a, b WHERE a.f = b.f AND a.id = b.id` -/
def doubleFirst : ParsedSelect :=
  signedZeros.select "select * from a, b where a.f = b.f and a.id = b.id"

/-- The tables of either statement. -/
def zeroTables : List JoinTable :=
  signedZeros.tables.map fun stored => { stored := stored, outer := false, onRoot := -1 }

/-- The hash join of a statement on two columns, and its nested loops. -/
def hashedRows (select : ParsedSelect) (probeSlot buildSlot : Nat) : Except ErrorCode (List Row) :=
  (hashJoin (signedZeros.whereOf select) (fun _ => []) 0 (signedZeros.schemaOf select).cols.length
    (measured "a" [(1, 0)]) (measured "b" [(1, 0x8000000000000000)]) probeSlot buildSlot
      { out := [], work := freshWork }).map JoinState.out

/-- What the nested loops store of a join. -/
def nestedRows (select : ParsedSelect) : Except ErrorCode (List Row) :=
  (joinTables (signedZeros.whereOf select) (fun _ => []) zeroTables 0
    { out := [], work := freshWork }).map JoinState.out

/-- Keyed on the number, the two joins agree. -/
theorem hashJoin_nested_iff_number : hashedRows numberFirst 0 0 = nestedRows numberFirst := by
  have haccepted : AcceptedSelect (signedZeros.tables.map StoredTable.node) numberFirst :=
    Data.select_accepted (by decide +kernel)
  have hschema : buildJoinSchema (signedZeros.tables.map StoredTable.node) numberFirst.tables =
      .ok (signedZeros.schemaOf numberFirst) := getD_ok (by decide +kernel)
  have hlist : numberFirst.tables = ["a", "b"].map (fun name =>
      { table := Name.ofBytes (ascii name), aliasName := Name.ofBytes (ascii name), outer := false }) :=
    by decide +kernel
  have hroots : numberFirst.onRoots = [-1, -1] := by decide +kernel
  have htables : joinTablesOf signedZeros numberFirst.tables numberFirst.onRoots =
      .ok zeroTables := by
    rw [hlist, hroots]
    rfl
  have hbound := @Data.whereOf_ok signedZeros numberFirst (by decide +kernel)
  have hshaped : ∀ stored ∈ signedZeros.tables, Shaped stored := by decide
  have hkey : (equalities (signedZeros.whereOf numberFirst) 2).head? = some (0, 0) := by
    decide +kernel
  have hopposite : ∀ pair ∈ keptPairs (signedZeros.whereOf numberFirst) (fun _ => [])
      (measured "a" [(1, 0)]).rows (measured "b" [(1, 0x8000000000000000)]).rows,
      ¬OppositeKeys 0 0 pair := by decide +kernel
  exact ((hashJoin_nested_iff (fun _ => []) haccepted hschema htables ⟨rfl, rfl⟩ hbound
    (by decide +kernel) hshaped (.inl rfl) hkey).2 freshWork rfl).mpr (.inl hopposite)

/-- Keyed on the double, the hash join misses the row that the nested loops store. -/
theorem hashJoin_misses_zeros :
    AcceptedSelect (signedZeros.tables.map StoredTable.node) doubleFirst ∧
      joinKey (signedZeros.whereOf doubleFirst) zeroTables = some (1, 1) ∧
      hashedRows doubleFirst 1 1 = .ok [] ∧ nestedRows doubleFirst ≠ .ok [] :=
  ⟨Data.select_accepted (by decide +kernel), by decide +kernel, by decide +kernel, by decide +kernel⟩

end DatabaseEngine
