import DatabaseEngine.Proofs.Index.Growing

/-!
# `DatabaseEngine.Proofs.Index.Scanning`: what a scan of an index answers

A scan goes down to a leaf and along the chain from there, and judges the key of every entry. Where
the judgement is one that the order of the keys allows (`Allows`), it makes no difference that the
scan starts in the middle and stops before the end: it answers what the whole tree holds that is
taken.

* `seekLeaf_spec`, `leftmostLeaf_spec`: the way down.
* `scanLeaves_spec`: the way along the leaves.
* `indexScan_spec`, `indexPrefixScan_spec`: what the scans answer.
-/

set_option autoImplicit false

namespace DatabaseEngine

open Library

/-- The positions of the entries that are taken. -/
def taken (judge : StoredKey → Verdict) (entries : List Entry) : List Nat :=
  (entries.filter fun entry => judge entry.key = .take).map fun entry => entry.payload.toNat

/-- The rows that a scan has found, or an error if they are more than the caller has room for. -/
def capped (maxRows : Int) (rows : List Nat) : Except ErrorCode (List Nat) :=
  if 0 ≤ maxRows ∧ maxRows < rows.length then .error .EXEC_TABLE_FULL else .ok rows

/-- Nothing is taken behind an entry at which a scan stops. -/
def Allows (judge : StoredKey → Verdict) (entries : List Entry) : Prop :=
  entries.Pairwise fun a b => judge a.key = .stop → judge b.key ≠ .take

/-- The scan of more entries, after what came of some. -/
def scanFurther (judge : StoredKey → Verdict) (maxRows : Int) (more : List Entry)
    (r : Except ErrorCode (List Nat × Bool)) : Except ErrorCode (List Nat × Bool) :=
  match r with
  | .error code => .error code
  | .ok (rows, true) => .ok (rows, true)
  | .ok (rows, false) => scanEntries judge maxRows more rows

/-- What `scanLeaves` does after the entries of a leaf. -/
def scanNext (judge : StoredKey → Verdict) (maxRows : Int) (fuel : Nat) (next : UInt32)
    (r : Except ErrorCode (List Nat × Bool)) : PageM Bytes (Except ErrorCode (List Nat)) :=
  match r with
  | .error code => .pure (.error code)
  | .ok (rows, true) => .pure (.ok rows)
  | .ok (rows, false) => scanLeaves judge maxRows fuel next.toNat rows

/-! ### Entries -/

section
variable {judge : StoredKey → Verdict} {maxRows : Int} {entries more : List Entry}
  {rows : List Nat}

/-- What is taken of two lists is taken of each. -/
theorem taken_append : taken judge (entries ++ more) = taken judge entries ++ taken judge more := by
  unfold taken
  rw [List.filter_append, List.map_append]

/-- Nothing is taken where no key is judged so. -/
theorem taken_eq_nil (h : ∀ entry ∈ entries, judge entry.key ≠ .take) : taken judge entries = [] := by
  unfold taken
  rw [List.filter_eq_nil_iff.mpr fun entry hentry => by simpa using h entry hentry]
  rfl

/-- Taking does not depend on the order of the entries. -/
theorem taken_perm {entries' : List Entry} (h : entries.Perm entries') :
    (taken judge entries).Perm (taken judge entries') := (h.filter _).map _

/-- An entry judged so is taken. -/
theorem taken_cons_take {entry : Entry} (h : judge entry.key = .take) :
    taken judge (entry :: entries) = entry.payload.toNat :: taken judge entries := by
  unfold taken
  rw [List.filter_cons_of_pos (by simpa using h), List.map_cons]

/-- An entry judged otherwise is left. -/
theorem taken_cons_other {entry : Entry} (h : judge entry.key ≠ .take) :
    taken judge (entry :: entries) = taken judge entries := by
  unfold taken
  rw [List.filter_cons_of_neg (by simpa using h)]

/-- To scan two leaves is to scan their entries. -/
theorem scanEntries_append :
    scanEntries judge maxRows (entries ++ more) rows
      = scanFurther judge maxRows more (scanEntries judge maxRows entries rows) := by
  induction entries generalizing rows with
  | nil => rfl
  | cons entry entries ih =>
    rw [List.cons_append, scanEntries, scanEntries]
    cases judge entry.key with
    | stop => rfl
    | skip => exact ih
    | take =>
      dsimp only
      split
      · rfl
      · exact ih

/-- A scan takes what is to be taken, up to what there is room for. -/
theorem scanEntries_eq (hallows : Allows judge entries)
    (hroom : maxRows < 0 ∨ (rows.length : Int) ≤ maxRows) :
    (scanEntries judge maxRows entries rows).map Prod.fst
      = capped maxRows (rows ++ taken judge entries) := by
  induction entries generalizing rows with
  | nil =>
    have hfits : ¬(0 ≤ maxRows ∧ maxRows < ((rows ++ taken judge []).length : Int)) := by
      rw [show taken judge [] = [] from rfl, List.append_nil]
      omega
    unfold capped
    rw [if_neg hfits, show taken judge [] = [] from rfl, List.append_nil]
    rfl
  | cons entry entries ih =>
    obtain ⟨hhead, hrest⟩ := List.pairwise_cons.mp hallows
    rw [scanEntries]
    cases hjudge : judge entry.key with
    | stop =>
      have hnone := taken_eq_nil fun other hother => hhead other hother hjudge
      have hfits : ¬(0 ≤ maxRows ∧ maxRows < (rows.length : Int)) := by omega
      rw [taken_cons_other (by rw [hjudge]; decide), hnone, List.append_nil]
      unfold capped
      rw [if_neg hfits]
      rfl
    | skip =>
      rw [taken_cons_other (by rw [hjudge]; decide)]
      exact ih hrest hroom
    | take =>
      rw [taken_cons_take hjudge]
      dsimp only
      split
      · rename_i hfull
        have hover : 0 ≤ maxRows ∧
            maxRows < ((rows ++ entry.payload.toNat :: taken judge entries).length : Int) := by
          rw [List.length_append, List.length_cons]
          omega
        unfold capped
        rw [if_pos hover]
        rfl
      · rename_i hmore
        have hlength : ((rows ++ [entry.payload.toNat]).length : Int) = rows.length + 1 := by
          rw [List.length_append, List.length_singleton]
          rfl
        have hnext := @ih (rows ++ [entry.payload.toNat]) hrest (by omega)
        rwa [List.append_assoc, List.singleton_append] at hnext

end

/-! ### The way down -/

section
variable {type : ColType} {zero : Bytes} {s : Store Bytes} {h : Nat} {t : ColumnTree type h}
  {id fuel : Nat} {first stop : UInt32} {ids : List Nat}

/-- One step of the way down. -/
theorem descendTo_wp {choose : Node → UInt32} {page : Bytes} {Q : Nat → Store Bytes → Prop}
    (hpage : s.body id = some page) :
    (descendTo choose (fuel + 1) id).wp zero Q s ↔
      (if (readNode page).isLeaf then PageM.pure id
        else descendTo choose fuel (choose (readNode page)).toNat).wp zero Q s := by
  have hlegal : (some page).isSome = true ∨ s.count ≤ id := Or.inl rfl
  rw [descendTo]
  show (_ ∧ _) ↔ _
  rw [hpage, and_iff_right hlegal]
  exact Iff.rfl

/-- The walk to the left ends at the first leaf. -/
theorem leftmostLeaf_spec (ht : Stored s type h t id first stop ids)
    (hlimit : ∀ i ∈ ids, i < idLimit) (hfuel : h < fuel) :
    (leftmostLeaf fuel id).wp zero (fun r s' => s' = s ∧ r = first.toNat) s := by
  induction h generalizing id first stop ids fuel with
  | zero =>
    obtain ⟨fuel, rfl⟩ := Nat.exists_eq_succ_of_ne_zero (Nat.ne_of_gt hfuel)
    obtain ⟨rfl, rfl, page, hpage, hnode⟩ := ht
    rw [leftmostLeaf, descendTo_wp hpage, hnode, if_pos leafNode_isLeaf]
    exact ⟨rfl, (ofNat_toNat (hlimit id List.mem_cons_self)).symm⟩
  | succ h ih =>
    obtain ⟨fuel, rfl⟩ := Nat.exists_eq_succ_of_ne_zero (Nat.ne_of_gt (Nat.zero_lt_of_lt hfuel))
    obtain ⟨entries, last, below, rfl, ⟨page, hpage, hnode⟩, middle, a, b, rfl, hkids, hlast⟩ := ht
    rw [leftmostLeaf, descendTo_wp hpage, hnode,
      if_neg (by rw [innerNode_isLeaf]; exact Bool.false_ne_true)]
    have hbelow : ∀ i ∈ a ++ b, i < idLimit := fun i hi => hlimit i (List.mem_cons_of_mem _ hi)
    cases hfront : t.1 with
    | nil =>
      rw [hfront] at hkids
      obtain ⟨rfl, rfl, rfl⟩ := hkids
      exact ih hlast (fun i hi => hbelow i (List.mem_append_right _ hi)) (by omega)
    | cons kid kids =>
      rw [hfront] at hkids
      obtain ⟨entry, more, m, x, y, rfl, -, rfl, hkid, -⟩ := hkids
      exact ih hkid (fun i hi => hbelow i (List.mem_append_left _ (List.mem_append_left _ hi)))
        (by omega)

/-- The walk to a key ends at the leaf from which on the tree is sought. -/
theorem seekLeaf_spec {key : ColumnKey type} (ht : Stored s type h t id first stop ids)
    (hlimit : ∀ i ∈ ids, i < idLimit) (hsorted : t.Sorted ColumnKey.compare) (hfuel : h < fuel) :
    (seekLeaf key.1 fuel id).wp zero (fun r s' => s' = s ∧ ∃ start : UInt32, r = start.toNat ∧
      LeafChain s type (BTree.seek ColumnKey.compare key t) start stop) s := by
  induction h generalizing id first stop ids fuel with
  | zero =>
    obtain ⟨fuel, rfl⟩ := Nat.exists_eq_succ_of_ne_zero (Nat.ne_of_gt hfuel)
    have hchain := ht.chain hlimit
    obtain ⟨rfl, rfl, page, hpage, hnode⟩ := ht
    rw [seekLeaf, descendTo_wp hpage, hnode, if_pos leafNode_isLeaf]
    exact ⟨rfl, _, (ofNat_toNat (hlimit id List.mem_cons_self)).symm, hchain⟩
  | succ h ih =>
    obtain ⟨fuel, rfl⟩ := Nat.exists_eq_succ_of_ne_zero (Nat.ne_of_gt (Nat.zero_lt_of_lt hfuel))
    obtain ⟨entries, last, below, rfl, ⟨page, hpage, hnode⟩, hfamily⟩ := ht
    have hbound : lowerBound entries key.1 = (BTree.below ColumnKey.compare key t.1).length := by
      obtain ⟨middle, a, b, -, hkids, -⟩ := hfamily
      exact lowerBound_inner key hsorted hkids
    have hsplit : Family (Stored s type h) (BTree.below ColumnKey.compare key t.1
        ++ BTree.notBelow ColumnKey.compare key t.1, t.2) entries last first stop below := by
      rw [BTree.below_append_notBelow]
      exact hfamily
    obtain ⟨f, l, before, own, behind, rfl, hole, hchild⟩ := family_hole hsplit
    have hlimitKids : ∀ i ∈ before ++ (own ++ behind), i < idLimit := fun i hi =>
      hlimit i (List.mem_cons_of_mem _ hi)
    have hrest := hole.chain fun kid id f l own hown hkid => hkid.chain fun i hi =>
      hlimitKids i (List.mem_append_right _ (List.mem_append_right _ (hown i hi)))
    rw [seekLeaf, descendTo_wp hpage, hnode,
      if_neg (by rw [innerNode_isLeaf]; exact Bool.false_ne_true)]
    have hlower : lowerBound (innerNode type entries last).entries key.1
        = (BTree.below ColumnKey.compare key t.1).length := hbound
    rw [hlower]
    have hdown := ih hchild (fun i hi => hlimitKids i (List.mem_append_right _
      (List.mem_append_left _ hi))) hsorted.pick (by omega : h < fuel)
    refine PageM.wp_mono hdown ?_
    rintro r s' ⟨rfl, start, rfl, hown⟩
    exact ⟨rfl, start, rfl, leafChain_append.mpr ⟨l, hown, hrest⟩⟩

/-! ### The way along the leaves -/

/-- Walking a chain of leaves scans their entries one after another. -/
theorem scanLeaves_spec {judge : StoredKey → Verdict} {maxRows : Int} {rows : List Nat}
    {leaves : List (List (ColumnKey type × UInt32))} (hchain : LeafChain s type leaves first INVALID_PAGE)
    (hfuel : leaves.length ≤ fuel) :
    (scanLeaves judge maxRows fuel first.toNat rows).wp zero (fun r s' => s' = s ∧
      r = (scanEntries judge maxRows (leaves.flatten.map leafEntry) rows).map Prod.fst) s := by
  induction leaves generalizing first rows fuel with
  | nil =>
    rw [show first = INVALID_PAGE from hchain]
    cases fuel with
    | zero => exact ⟨rfl, rfl⟩
    | succ fuel =>
      rw [scanLeaves, if_pos rfl]
      exact ⟨rfl, rfl⟩
  | cons l leaves ih =>
    obtain ⟨fuel, rfl⟩ := Nat.exists_eq_succ_of_ne_zero (Nat.ne_of_gt (Nat.zero_lt_of_lt hfuel))
    obtain ⟨hfirst, next, ⟨page, hpage, hnode⟩, hrest⟩ := hchain
    have hne : first.toNat ≠ INVALID_PAGE.toNat := fun heq => hfirst (UInt32.toNat_inj.mp heq)
    rw [scanLeaves, if_neg hne, List.flatten_cons, List.map_append, scanEntries_append]
    refine ⟨Or.inl (by rw [hpage]; rfl), ?_⟩
    rw [hpage]
    show PageM.wp zero (scanNext judge maxRows fuel (readNode page).nextLeaf
      (scanEntries judge maxRows (readNode page).entries rows)) _ s
    rw [hnode]
    show PageM.wp zero (scanNext judge maxRows fuel next
      (scanEntries judge maxRows (l.map leafEntry) rows)) _ s
    rcases scanEntries judge maxRows (l.map leafEntry) rows with code | ⟨found, ended⟩
    · exact ⟨rfl, rfl⟩
    · cases ended with
      | true => exact ⟨rfl, rfl⟩
      | false => exact ih hrest (Nat.le_of_succ_le_succ hfuel)

end

/-! ### Scans -/

section
variable {type : ColType} {zero : Bytes} {s : Store Bytes} {index : Index}
  {t : BTree.Root (ColumnKey type) UInt32} {ids : List Nat} {judge : StoredKey → Verdict}
  {maxRows : Int}

/-- The entries of an index, as they lie in its leaves. -/
abbrev leafEntries (t : BTree.Root (ColumnKey type) UInt32) : List Entry :=
  t.2.entries.map leafEntry

/-- No tree has more leaves than the store has pages. -/
theorem IndexStored.leaves_length (h : IndexStored s type index t ids) (hs : s.Sound) :
    t.2.leaves.length ≤ s.count := by
  obtain ⟨first, hstored⟩ := h.pages
  exact hstored.leaves_length.trans (length_le_count hs h.nodup fun i hi => hstored.isSome hi)

/-- A scan from the first leaf on. -/
theorem scanAll_spec (hs : s.Sound) (h : IndexStored s type index t ids)
    (hallows : Allows judge (leafEntries t)) :
    ((leftmostLeaf s.count index.rootPage).bind fun leaf =>
      scanLeaves judge maxRows s.count leaf []).wp zero
        (fun r s' => s' = s ∧ r = capped maxRows (taken judge (leafEntries t))) s := by
  obtain ⟨first, hstored⟩ := h.pages
  rw [PageM.wp_bind]
  refine PageM.wp_mono (leftmostLeaf_spec hstored h.inRange (h.height hs)) ?_
  rintro leaf s' ⟨rfl, rfl⟩
  refine PageM.wp_mono (scanLeaves_spec (hstored.chain h.inRange) (h.leaves_length hs)) ?_
  rintro r s'' ⟨rfl, rfl⟩
  rw [BTree.flatten_leaves, scanEntries_eq hallows (by simp; omega)]
  exact ⟨rfl, rfl⟩

/-- A scan from a key on, by a judgement that takes nothing below the key. -/
theorem scanFrom_spec {key : ColumnKey type} (hs : s.Sound) (h : IndexStored s type index t ids)
    (hallows : Allows judge (leafEntries t))
    (hbelow : ∀ e ∈ t.2.entries, ColumnKey.compare e.1 key = .lt → judge e.1.1 ≠ .take) :
    ((seekLeaf key.1 s.count index.rootPage).bind fun leaf =>
      scanLeaves judge maxRows s.count leaf []).wp zero
        (fun r s' => s' = s ∧ r = capped maxRows (taken judge (leafEntries t))) s := by
  obtain ⟨first, hstored⟩ := h.pages
  obtain ⟨front, hentries, hfront⟩ := BTree.entries_seek (k := key) h.lawful.sorted
  rw [PageM.wp_bind]
  refine PageM.wp_mono (seekLeaf_spec hstored h.inRange h.lawful.sorted (h.height hs)) ?_
  rintro leaf s' ⟨rfl, start, rfl, hchain⟩
  have hfew : (BTree.seek ColumnKey.compare key t.2).length ≤ s'.count :=
    (BTree.seek_suffix t.2).length_le.trans (h.leaves_length hs)
  refine PageM.wp_mono (scanLeaves_spec hchain hfew) ?_
  rintro r s'' ⟨rfl, rfl⟩
  -- what is before the leaf is not taken, so nothing is missed
  have hsplit : leafEntries t = front.map leafEntry
      ++ (BTree.seek ColumnKey.compare key t.2).flatten.map leafEntry := by
    show t.2.entries.map leafEntry = _
    rw [hentries, List.map_append]
  have hnone : taken judge (front.map leafEntry) = [] := by
    refine taken_eq_nil fun entry hentry => ?_
    obtain ⟨e, he, rfl⟩ := List.mem_map.mp hentry
    exact hbelow e (hentries ▸ List.mem_append_left _ he) (hfront e he)
  rw [hsplit] at hallows ⊢
  rw [taken_append, hnone, scanEntries_eq (List.pairwise_append.mp hallows).2.1 (by simp; omega)]
  exact ⟨rfl, rfl⟩

/-- Where a scan for a comparison stops. -/
theorem scanVerdict_stop {op : CompareOp} {target key : StoredKey} :
    scanVerdict op target key = .stop ↔
      compareKeys key target = .gt ∧ (op = .OP_EQ ∨ op = .OP_LT ∨ op = .OP_LTE) := by
  unfold scanVerdict
  constructor
  · intro hstop
    by_contra hgo
    dsimp only at hstop
    rw [if_neg hgo] at hstop
    -- past the first test every branch takes or skips
    cases op <;> simp only [reduceCtorEq] at hstop <;> split at hstop <;>
      exact absurd hstop (by decide)
  · intro hstop
    exact if_pos hstop

/-- The order of the keys allows the test of a comparison. -/
theorem allows_scanVerdict {value : Value} (op : CompareOp) (hvalue : value.type = type)
    (h : t.2.Sorted ColumnKey.compare) : Allows (scanVerdict op (makeKey value)) (leafEntries t) := by
  refine List.pairwise_map.mpr (h.entries.imp ?_)
  intro a b hab hstop
  obtain ⟨ha, hop⟩ := scanVerdict_stop.mp hstop
  have habove : ColumnKey.compare a.1 ⟨makeKey value, value, hvalue, rfl⟩ = .gt := ha
  have hb : ColumnKey.compare b.1 ⟨makeKey value, value, hvalue, rfl⟩ = .gt :=
    Std.OrientedCmp.gt_of_lt
      (Std.TransCmp.lt_of_lt_of_isLE (Std.OrientedCmp.lt_of_gt habove) hab.isLE)
  have hstops : scanVerdict op (makeKey value) b.1.1 = .stop := scanVerdict_stop.mpr ⟨hb, hop⟩
  show scanVerdict op (makeKey value) b.1.1 ≠ .take
  rw [hstops]
  decide

/-- A scan for a comparison answers the positions of the keys of which the comparison may hold, in
the order of the keys, unless the caller has no room for them. -/
theorem indexScan_spec {value : Value} (hs : s.Sound) (h : IndexStored s type index t ids)
    (op : CompareOp) (hvalue : value.type = type) :
    (indexScan index op value maxRows).wp zero (fun r s' => s' = s ∧
      r = capped maxRows (taken (scanVerdict op (makeKey value)) (leafEntries t))) s := by
  have hallows := allows_scanVerdict op hvalue h.lawful.sorted
  unfold indexScan
  show PageM.wp zero
    (if op = .OP_LT ∨ op = .OP_LTE then (leftmostLeaf s.count index.rootPage).bind fun leaf =>
        scanLeaves (scanVerdict op (makeKey value)) maxRows s.count leaf []
      else (seekLeaf (makeKey value) s.count index.rootPage).bind fun leaf =>
        scanLeaves (scanVerdict op (makeKey value)) maxRows s.count leaf []) _ s
  split
  · exact scanAll_spec hs h hallows
  · rename_i hop
    refine @scanFrom_spec type zero s index t ids _ maxRows ⟨makeKey value, value, hvalue, rfl⟩ hs h
      hallows fun e _ hlt => ?_
    have hkeys : compareKeys e.1.1 (makeKey value) = .lt := hlt
    unfold scanVerdict
    rw [hkeys]
    cases op <;> simp_all

end

/-- Whatever a comparison holds of is taken, in a column that does not hold doubles. -/
theorem scanVerdict_of_true {a b : Value} {op : CompareOp} (htype : a.type = b.type)
    (hfloat : a.type ≠ .TYPE_FLOAT) (hop : indexableOperator op = true)
    (htrue : comparePredicate a b op = .TRI_TRUE) :
    scanVerdict op (makeKey b) (makeKey a) = .take := by
  refine Follows.scanned ?_ hop htrue
  by_cases hint : a.type.intLike = true
  · exact int_follows hint (htype ▸ hint)
  · have htext : a.type = .TYPE_TEXT := by
      revert hfloat hint
      cases a.type <;> simp [ColType.intLike]
    exact text_follows htext (htype ▸ htext)

/-! ### Scans for a prefix -/

/-- What a scan for a prefix makes of a text whose first bytes are before it, in its place, or
behind it. -/
def Verdict.ofOrder (order : Ordering) : Verdict :=
  match order with
  | .lt => .skip
  | .eq => .take
  | .gt => .stop

/-- The same, told by the bytes that a key shares with the prefix and by how many bytes both have. -/
def Verdict.ofShared (order : Ordering) (length compareLength : Nat) : Verdict :=
  match order with
  | .gt => .stop
  | .lt => .skip
  | .eq => if length < compareLength then .skip else .take

section
variable {pattern : List UInt8} {value : Value}

/-- A scan for a prefix looks at as many bytes of a text as the prefix has. -/
theorem prefixVerdict_eq (hvalue : value.type = .TYPE_TEXT) :
    prefixVerdict (makeKey (setText pattern)) (makeKey value)
      = .ofOrder (compareText (value.text.take (min pattern.length INDEX_KEY_MAX))
          (pattern.take INDEX_KEY_MAX)) := by
  have hstored : ∀ {text : List UInt8},
      (UInt8.ofNat (min text.length INDEX_KEY_MAX)).toNat = min text.length INDEX_KEY_MAX :=
    storedLength_toNat _
  have hshared : min (value.text.take (min pattern.length INDEX_KEY_MAX)).length
      (pattern.take INDEX_KEY_MAX).length
        = min (min value.text.length INDEX_KEY_MAX) (min pattern.length INDEX_KEY_MAX) := by
    rw [List.length_take, List.length_take]
    omega
  have htake : (value.text.take (min pattern.length INDEX_KEY_MAX)).take
      (min (min value.text.length INDEX_KEY_MAX) (min pattern.length INDEX_KEY_MAX))
        = (value.text.take INDEX_KEY_MAX).take
          (min (min value.text.length INDEX_KEY_MAX) (min pattern.length INDEX_KEY_MAX)) := by
    rw [List.take_take, List.take_take]
    congr 1
    omega
  rw [compareText_shared, hshared, htake]
  unfold prefixVerdict makeKey
  rw [hvalue]
  show Verdict.ofShared (compareBytes
      (((value.text ++ List.replicate INDEX_KEY_MAX 0).take INDEX_KEY_MAX).take
        (min (UInt8.ofNat (min value.text.length INDEX_KEY_MAX)).toNat
          (UInt8.ofNat (min pattern.length INDEX_KEY_MAX)).toNat))
      (((pattern ++ List.replicate INDEX_KEY_MAX 0).take INDEX_KEY_MAX).take
        (min (UInt8.ofNat (min value.text.length INDEX_KEY_MAX)).toNat
          (UInt8.ofNat (min pattern.length INDEX_KEY_MAX)).toNat)))
    (UInt8.ofNat (min value.text.length INDEX_KEY_MAX)).toNat
    (UInt8.ofNat (min pattern.length INDEX_KEY_MAX)).toNat = _
  rw [hstored, hstored, textKey_take (by omega) (by omega), textKey_take (by omega) (by omega)]
  cases compareBytes _ _ with
  | lt => rfl
  | gt => rfl
  | eq =>
    unfold Verdict.ofShared
    rw [List.length_take, List.length_take]
    by_cases hshort : min value.text.length INDEX_KEY_MAX < min pattern.length INDEX_KEY_MAX
    · rw [if_pos hshort, compareNat_lt.mpr (by omega)]
      rfl
    · rw [if_neg hshort, compareNat_eq.mpr (by omega)]
      rfl

/-- A text is not below its own first bytes. -/
theorem compareText_take_self (text : List UInt8) (n : Nat) :
    compareText (text.take n) text ≠ .gt := by
  induction text generalizing n with
  | nil =>
    rw [List.take_nil]
    decide
  | cons c text ih =>
    cases n with
    | zero => exact fun hgt => by cases hgt
    | succ n =>
      rw [List.take_succ_cons, compareText, if_neg (UInt8.lt_irrefl c), if_neg (UInt8.lt_irrefl c)]
      exact ih n

/-- What is below the prefix is not taken, -/
theorem prefixVerdict_below (hvalue : value.type = .TYPE_TEXT)
    (hlt : compareKeys (makeKey value) (makeKey (setText pattern)) = .lt) :
    prefixVerdict (makeKey (setText pattern)) (makeKey value) ≠ .take := by
  rw [compareKeys_text hvalue rfl] at hlt
  intro htake
  rw [prefixVerdict_eq hvalue] at htake
  have heq : compareText (value.text.take (min pattern.length INDEX_KEY_MAX))
      (pattern.take INDEX_KEY_MAX) = .eq := by
    revert htake
    cases compareText _ _ <;> decide
  have hsame := Std.LawfulEqCmp.eq_of_compare heq
  have hself := compareText_take_self (value.text.take INDEX_KEY_MAX)
    (min pattern.length INDEX_KEY_MAX)
  rw [List.take_take, Nat.min_eq_left (Nat.min_le_right _ _), hsame] at hself
  exact hself (Std.OrientedCmp.gt_of_lt hlt)

/-- and nothing is taken behind a text whose first bytes are behind it. -/
theorem prefixVerdict_mono {above : Value} (hvalue : value.type = .TYPE_TEXT)
    (habove : above.type = .TYPE_TEXT)
    (hle : compareKeys (makeKey above) (makeKey value) ≠ .lt)
    (hstop : prefixVerdict (makeKey (setText pattern)) (makeKey value) = .stop) :
    prefixVerdict (makeKey (setText pattern)) (makeKey above) = .stop := by
  rw [compareKeys_text habove hvalue] at hle
  rw [prefixVerdict_eq hvalue] at hstop
  rw [prefixVerdict_eq habove]
  have hgt : compareText (value.text.take (min pattern.length INDEX_KEY_MAX))
      (pattern.take INDEX_KEY_MAX) = .gt := by
    revert hstop
    cases compareText _ _ <;> decide
  have hle' : compareText (value.text.take INDEX_KEY_MAX) (above.text.take INDEX_KEY_MAX) ≠ .gt :=
    fun heq => hle (Std.OrientedCmp.lt_of_gt heq)
  have hcut := compareText_take (min pattern.length INDEX_KEY_MAX) hle'
  rw [List.take_take, List.take_take, Nat.min_eq_left (Nat.min_le_right _ _)] at hcut
  have hgt' : compareText (above.text.take (min pattern.length INDEX_KEY_MAX))
      (pattern.take INDEX_KEY_MAX) = .gt :=
    Std.OrientedCmp.gt_of_lt (Std.TransCmp.lt_of_lt_of_isLE (Std.OrientedCmp.lt_of_gt hgt)
      (Ordering.ne_gt_iff_isLE.mp hcut))
  rw [hgt']
  rfl

end

/-- A scan for a prefix answers the positions of the keys that start with it, as far as keys go, in
the order of the keys, unless the caller has no room for them. -/
theorem indexPrefixScan_spec {zero : Bytes} {s : Store Bytes} {index : Index} {ids : List Nat}
    {t : BTree.Root (ColumnKey .TYPE_TEXT) UInt32} {maxRows : Int} (hs : s.Sound)
    (h : IndexStored s .TYPE_TEXT index t ids) (pattern : List UInt8) :
    (indexPrefixScan index pattern maxRows).wp zero (fun r s' => s' = s ∧
      r = capped maxRows (taken (prefixVerdict (makeKey (setText pattern))) (leafEntries t))) s := by
  refine @scanFrom_spec .TYPE_TEXT zero s index t ids _ maxRows
    ⟨makeKey (setText pattern), setText pattern, rfl, rfl⟩ hs h ?_ ?_
  · refine List.pairwise_map.mpr (h.lawful.sorted.entries.imp ?_)
    rintro ⟨⟨a, x, hx, rfl⟩, m⟩ ⟨⟨b, y, hy, rfl⟩, n⟩ hab hstop
    have hstops := prefixVerdict_mono hx hy hab hstop
    show prefixVerdict (makeKey (setText pattern)) (makeKey y) ≠ .take
    rw [hstops]
    decide
  · rintro ⟨⟨a, x, hx, rfl⟩, n⟩ - hlt
    exact prefixVerdict_below hx hlt

end DatabaseEngine
