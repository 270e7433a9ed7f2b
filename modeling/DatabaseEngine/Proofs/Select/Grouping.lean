import DatabaseEngine.Proofs.Select.Accumulate
import DatabaseEngine.Proofs.Select.Reading
import Mathlib.Data.List.Forall2

/-!
# `DatabaseEngine.Proofs.Select.Grouping`: the loop that groups as it reads

* `keyMatches_iff`: the code's comparison of keys is equality of what grouping sees of them, and
  the hash respects it.
* `Tabled`: what the group table holds after some rows; `groupRow_tabled`: one more row.
* `groupRows_tabled`: the loop.
-/

set_option autoImplicit false

namespace DatabaseEngine

open Library

/-! ### Keys -/

/-- A value that is NULL or no float. -/
def Value.Discrete (value : Value) : Prop := value.isNull = true ∨ value.type ≠ .TYPE_FLOAT

/-- Discrete values are equal exactly if they show the same face. -/
theorem valuesEqual_iff {a b : Value} (ha : a.Discrete) :
    valuesEqual a b = true ↔ a.face = b.face := by
  unfold valuesEqual Value.face
  cases hna : a.isNull with
  | true =>
    cases hnb : b.isNull with
    | true => simp
    | false => simp; split <;> simp
  | false =>
    cases hnb : b.isNull with
    | true => simp; split <;> simp
    | false =>
      have hfa : a.type ≠ .TYPE_FLOAT := ha.resolve_left (by simp [hna])
      simp only [Bool.or_self, Bool.false_eq_true, if_false]
      by_cases htype : a.type = b.type
      · rw [if_neg (not_not.mpr htype)]
        unfold valuesSame
        rw [← htype]
        cases hint : a.type.intLike with
        | true => simp
        | false =>
          simp only [Bool.false_eq_true, if_false, hfa, Option.some.injEq, Prod.mk.injEq, true_and,
            Bool.and_eq_true, beq_iff_eq]
          exact ⟨fun h => h.2, fun h => ⟨congrArg List.length h, h⟩⟩
      · rw [if_pos htype]
        refine ⟨fun h => absurd h (by simp), fun h => absurd ?_ htype⟩
        split at h <;> split at h <;> simp_all

/-- Discrete values with the same face have the same hash. -/
theorem hashValue_congr {a b : Value} (ha : a.Discrete) (hb : b.Discrete) (h : a.face = b.face) :
    hashValue a = hashValue b := by
  unfold Value.face at h
  unfold hashValue
  cases hna : a.isNull with
  | true =>
    cases hnb : b.isNull with
    | true => rfl
    | false => simp only [hna, hnb, if_true, Bool.false_eq_true, if_false] at h; split at h <;> simp at h
  | false =>
    cases hnb : b.isNull with
    | true => simp only [hna, hnb, if_true, Bool.false_eq_true, if_false] at h; split at h <;> simp at h
    | false =>
      have hfa : a.type ≠ .TYPE_FLOAT := ha.resolve_left (by simp [hna])
      have hfb : b.type ≠ .TYPE_FLOAT := hb.resolve_left (by simp [hnb])
      simp only [hna, hnb, Bool.false_eq_true, if_false] at h ⊢
      have hbytes : hashedBytes a = hashedBytes b := by
        unfold hashedBytes
        cases hta : a.type <;> cases htb : b.type <;>
          simp_all [ColType.intLike]
      rw [hbytes]

/-- The GROUP BY columns of a row hold no float. -/
def DiscreteAt (groupSlots : List Nat) (row : Row) : Prop :=
  ∀ slot ∈ groupSlots, (row.value slot).Discrete

section
variable {groupSlots : List Nat} {row row' : Row}

/-- On discrete values a row matches a group exactly if their keys agree. -/
theorem keyMatches_iff (h : DiscreteAt groupSlots row) :
    keyMatches row groupSlots (groupSlots.map row'.value) = true ↔
      rowKey groupSlots row' = rowKey groupSlots row := by
  unfold keyMatches rowKey
  induction groupSlots with
  | nil => simp
  | cons slot rest ih =>
    have hrest := ih fun s hs => h s (by simp [hs])
    simp only [List.map_cons, List.zip_cons_cons, List.all_cons, Bool.and_eq_true, hrest,
      valuesEqual_iff (h slot (by simp)), List.cons.injEq]
    exact ⟨fun ⟨h₁, h₂⟩ => ⟨h₁.symm, h₂⟩, fun ⟨h₁, h₂⟩ => ⟨h₁.symm, h₂⟩⟩

/-- On discrete values rows with one key have one hash. -/
theorem hashKey_congr (h : DiscreteAt groupSlots row) (h' : DiscreteAt groupSlots row')
    (heq : rowKey groupSlots row = rowKey groupSlots row') :
    hashKey row groupSlots = hashKey row' groupSlots := by
  have hfold : ∀ start : UInt32,
      groupSlots.foldl (fun hash slot => (hash ^^^ hashValue (row.value slot)) * 16777619) start =
        groupSlots.foldl (fun hash slot => (hash ^^^ hashValue (row'.value slot)) * 16777619)
          start := by
    induction groupSlots with
    | nil => simp
    | cons slot rest ih =>
      intro start
      obtain ⟨hslot, hrest⟩ := List.cons.inj heq
      simp only [List.foldl_cons, hashValue_congr (h slot (by simp)) (h' slot (by simp)) hslot]
      exact ih (fun s hs => h s (by simp [hs])) (fun s hs => h' s (by simp [hs])) hrest _
  exact hfold _

end

/-! ### The table -/

/-- A group holds the key of its first row and the folds over its rows. -/
structure GroupOf (exprs : ExprPool) (items : List SelectItem) (groupSlots : List Nat)
    (rows : List Row) (group : Group) : Prop where
  first : ∃ first rest, rows = first :: rest ∧ group.key = groupSlots.map first.value ∧
    group.hash = hashKey first groupSlots
  accs : List.Forall₂ (fun item acc => item.aggregate ≠ .AGG_NONE →
    Accumulated item (itemValues exprs rows item) acc) items group.accs

/-- The hash of a group, by its number. -/
def GroupTable.hashes (t : GroupTable) (g : Nat) : Nat :=
  (t.groups.map fun group => group.hash.toNat).getD g 0

/-- What the table holds after the rows `done`. -/
structure Tabled (exprs : ExprPool) (items : List SelectItem) (groupSlots : List Nat)
    (done : List Row) (t : GroupTable) : Prop where
  discrete : ∀ row ∈ done, DiscreteAt groupSlots row
  probed : t.buckets.length = 0 ∧ t.groups = [] ∨
    Probed t.buckets t.hashes t.groups.length ∧ 0 < t.buckets.count 0
  length : t.groups.length = (keysOf (rowKey groupSlots) done).length
  group : ∀ (g : Nat) (k : RowKey) (group : Group), (keysOf (rowKey groupSlots) done)[g]? = some k → t.groups[g]? = some group →
    GroupOf exprs items groupSlots (withKey (rowKey groupSlots) k done) group

section
variable {exprs : ExprPool} {items : List SelectItem} {groupSlots : List Nat} {done : List Row}
  {t : GroupTable} {row : Row}

/-- The key and the hash of a group are those of its rows. -/
theorem Tabled.key (h : Tabled exprs items groupSlots done t) {g : Nat}
    {k : RowKey}
    (hk : (keysOf (rowKey groupSlots) done)[g]? = some k) :
    ∃ group first, t.groups[g]? = some group ∧ DiscreteAt groupSlots first ∧
      rowKey groupSlots first = k ∧ group.key = groupSlots.map first.value ∧
      group.hash = hashKey first groupSlots := by
  have hlt : g < t.groups.length := by
    rw [h.length]
    exact (List.getElem?_eq_some_iff.mp hk).1
  have hgroup := List.getElem?_eq_getElem hlt
  obtain ⟨first, rest, hrows, hkey, hhash⟩ := (h.group g k _ hk hgroup).first
  have hin : first ∈ withKey (rowKey groupSlots) k done := by rw [hrows]; simp
  simp only [withKey, List.mem_filter, beq_iff_eq] at hin
  exact ⟨_, first, hgroup, h.discrete first hin.1, hin.2, hkey, hhash⟩

/-- The group of a row is found if it is there. -/
theorem Tabled.findGroup (h : Tabled exprs items groupSlots done t)
    (hrow : DiscreteAt groupSlots row) :
    (∃ g, DatabaseEngine.findGroup t row groupSlots (hashKey row groupSlots) = some g ∧
        (keysOf (rowKey groupSlots) done)[g]? = some (rowKey groupSlots row)) ∨
      DatabaseEngine.findGroup t row groupSlots (hashKey row groupSlots) = none ∧
        rowKey groupSlots row ∉ keysOf (rowKey groupSlots) done := by
  unfold DatabaseEngine.findGroup
  rcases h.probed with ⟨hzero, hempty⟩ | ⟨hprobed, hroom⟩
  · refine .inr ⟨if_pos hzero, ?_⟩
    have hnone : keysOf (rowKey groupSlots) done = [] := by
      rw [← List.length_eq_zero_iff, ← h.length, hempty]
      rfl
    simp [hnone]
  · rw [if_neg (by have := hprobed.pos; omega)]
    have hkeyed : ∀ g k, (keysOf (rowKey groupSlots) done)[g]? = some k →
        (keyMatches row groupSlots (t.keyAt g) = true ↔ k = rowKey groupSlots row) ∧
          (k = rowKey groupSlots row → t.hashes g = (hashKey row groupSlots).toNat) := by
      intro g k hk
      obtain ⟨group, first, hgroup, hfirst, hfirstKey, hkey, hhash⟩ := h.key hk
      subst hfirstKey
      refine ⟨?_, fun heq => ?_⟩
      · simp only [GroupTable.keyAt, hgroup, hkey]
        exact keyMatches_iff hrow
      · have hat : t.hashes g = group.hash.toNat := by
          simp [GroupTable.hashes, List.getD_eq_getElem?_getD, hgroup]
        rw [hat, hhash, hashKey_congr hfirst hrow heq]
    rcases hprobed.lookup hroom (fun g => keyMatches row groupSlots (t.keyAt g))
      (hashKey row groupSlots).toNat with ⟨g, hlt, hfound, hmatch⟩ | ⟨hnone, hno⟩
    · rw [h.length] at hlt
      have hk := List.getElem?_eq_getElem hlt
      refine .inl ⟨g, hfound, ?_⟩
      rw [hk, ((hkeyed g _ hk).1.mp hmatch)]
    · refine .inr ⟨hnone, fun hin => ?_⟩
      obtain ⟨g, hlt, hk⟩ := List.getElem_of_mem hin
      have hk' : (keysOf (rowKey groupSlots) done)[g]? = some (rowKey groupSlots row) := by
        rw [List.getElem?_eq_getElem hlt, hk]
      obtain ⟨hmatch, hhash⟩ := hkeyed g _ hk'
      have hfalse := hno g (by rw [h.length]; exact hlt) (hhash rfl)
      exact absurd (hmatch.mpr rfl) (by simp [hfalse])

/-! ### One more row -/

/-- The table has room for one more group and finds the ones that it has. -/
theorem reserveGroup_probed (hsize : t.buckets.length = 0 ∧ t.groups = [] ∨
    Probed t.buckets t.hashes t.groups.length ∧ 0 < t.buckets.count 0) :
    (reserveGroup t).groups = t.groups ∧
      Probed (reserveGroup t).buckets t.hashes t.groups.length ∧
      t.groups.length + 1 < (reserveGroup t).buckets.length := by
  unfold reserveGroup
  split
  · -- the table grows
    have hrehash : ∀ size, (∃ e, size = 2 ^ e) → t.groups.length + 1 < size →
        Probed (rehash size (t.groups.map fun group => group.hash.toNat)) t.hashes
            t.groups.length ∧
          t.groups.length + 1 <
            (rehash size (t.groups.map fun group => group.hash.toNat)).length := by
      intro size hpow hroom
      obtain ⟨hprobed, hlength⟩ := @rehash_probed _ (t.groups.map fun group => group.hash.toNat)
        hpow (by simp; omega)
      rw [List.length_map] at hprobed
      exact ⟨hprobed, by rw [hlength]; exact hroom⟩
    refine ⟨rfl, ?_⟩
    rcases hsize with ⟨hzero, hempty⟩ | ⟨hprobed, hroom⟩
    · simp only [rehashGroups, hzero, if_true]
      exact hrehash 256 ⟨8, rfl⟩ (by simp [hempty])
    · have hpos := hprobed.pos
      have hfull := hprobed.empty
      simp only [rehashGroups]
      rw [if_neg (by omega)]
      obtain ⟨e, he⟩ := hprobed.size
      exact hrehash _ ⟨e + 1, by rw [he, Nat.pow_succ]⟩ (by omega)
  · rename_i hlarge
    rcases hsize with ⟨hzero, hempty⟩ | ⟨hprobed, hroom⟩
    · exact absurd (by rw [hzero]; omega) hlarge
    · exact ⟨rfl, hprobed, by omega⟩

/-- A new group, with nothing accumulated. -/
def freshGroup (memory : GroupMemory) (items : List SelectItem) (groupSlots : List Nat) (g : Nat)
    (row : Row) : Group :=
  { hash := hashKey row groupSlots, key := groupSlots.map row.value,
    accs := memory.accumulators g 0 false items }

/-- A new group is found by probing, whether or not there was a table before. -/
theorem addGroup_probed (memory : GroupMemory) (hsize : t.buckets.length = 0 ∧ t.groups = [] ∨
    Probed t.buckets t.hashes t.groups.length ∧ 0 < t.buckets.count 0) :
    let t' := addGroup memory items t row groupSlots (hashKey row groupSlots)
    t'.groups = t.groups ++ [freshGroup memory items groupSlots t.groups.length row] ∧
      Probed t'.buckets t'.hashes t'.groups.length ∧ 0 < t'.buckets.count 0 := by
  obtain ⟨hgroups, hprobed, hroom⟩ := reserveGroup_probed hsize
  have hempty := hprobed.empty
  intro t'
  have hgroups' : t'.groups = t.groups ++ [freshGroup memory items groupSlots t.groups.length row] := by
    show (reserveGroup t).groups ++ [_] = _
    rw [hgroups]
    rfl
  have hold : ∀ g < t.groups.length, t'.hashes g = t.hashes g := by
    intro g hg
    simp only [GroupTable.hashes, hgroups', List.getD_eq_getElem?_getD, List.map_append]
    rw [List.getElem?_append_left (by simpa using hg)]
  have hnew : t'.hashes t.groups.length = (hashKey row groupSlots).toNat := by
    simp [GroupTable.hashes, hgroups', List.getD_eq_getElem?_getD, freshGroup]
  obtain ⟨hplaced, hlength⟩ := (hprobed.congr hold).place (by omega)
  have hbuckets : t'.buckets =
      place (reserveGroup t).buckets (t'.hashes t.groups.length) t.groups.length := by
    rw [hnew]
    show place (reserveGroup t).buckets _ (reserveGroup t).groups.length = _
    rw [hgroups]
  refine ⟨hgroups', ?_, ?_⟩
  · rw [hbuckets, hgroups', List.length_append]
    exact hplaced
  · have hempty' := hplaced.empty
    rw [hbuckets]
    omega

/-- The accumulators of a group take a row item by item. -/
theorem accumulateItems_ok {P Q : SelectItem → Accumulator → Prop} {accs : List Accumulator}
    (h : List.Forall₂ P items accs)
    (hstep : ∀ item ∈ items, ∀ acc value, P item acc → itemResult exprs row item = .ok value →
      Q item (accumulate acc item value)) :
    match items.mapM (itemResult exprs row) with
    | .error code => accumulateItems exprs row items accs = .error code
    | .ok _ => ∃ accs', accumulateItems exprs row items accs = .ok accs' ∧
        List.Forall₂ Q items accs' := by
  induction h with
  | nil => exact ⟨[], rfl, .nil⟩
  | @cons item acc items accs hitem hrest ih =>
    have ih := ih fun item hi => hstep item (by simp [hi])
    rw [List.mapM_cons]
    unfold accumulateItems
    have hresult : (if item.star then .ok zeroValue else exprEvaluate exprs item.expr row) =
        itemResult exprs row item := rfl
    simp only [hresult]
    cases hvalue : itemResult exprs row item with
    | error code => rfl
    | ok value =>
      simp only [bind, Except.bind]
      cases hvalues : items.mapM (itemResult exprs row) with
      | error code =>
        rw [hvalues] at ih
        simp only [ih]
      | ok values =>
        rw [hvalues] at ih
        obtain ⟨accs', haccs, hall⟩ := ih
        exact ⟨_, by simp only [haccs],
          .cons (hstep item (by simp) acc value hitem hvalue) hall⟩

/-- What an item gives on one more row. -/
theorem itemValues_append (exprs : ExprPool) (rows : List Row) (row : Row) {item : SelectItem}
    {value : Value} (h : itemResult exprs row item = .ok value) :
    itemValues exprs (rows ++ [row]) item = itemValues exprs rows item ++ [value] := by
  simp [itemValues, h, Except.toOption]

/-- A group takes one more of its rows, or its first. -/
theorem accumulateItems_group {rows : List Row} {accs : List Accumulator}
    (h : List.Forall₂ (fun item acc => item.aggregate ≠ .AGG_NONE →
      Accumulated item (itemValues exprs rows item) acc) items accs) :
    match items.mapM (itemResult exprs row) with
    | .error code => accumulateItems exprs row items accs = .error code
    | .ok _ => ∃ accs', accumulateItems exprs row items accs = .ok accs' ∧
        List.Forall₂ (fun item acc => item.aggregate ≠ .AGG_NONE →
          Accumulated item (itemValues exprs (rows ++ [row]) item) acc) items accs' :=
  accumulateItems_ok h fun item _ acc value hacc hvalue hagg => by
    rw [itemValues_append exprs rows row hvalue]
    exact accumulate_accumulated (hacc hagg) hagg value

/-- Fresh accumulators have taken in nothing. -/
theorem fresh_accs (memory : GroupMemory) (exprs : ExprPool) (items : List SelectItem) (g : Nat) :
    List.Forall₂ (fun item acc => item.aggregate ≠ .AGG_NONE →
      Accumulated item (itemValues exprs [] item) acc) items
      (memory.accumulators g 0 false items) := by
  rw [List.forall₂_iff_get]
  refine ⟨by simp [GroupMemory.accumulators], fun c _ _ _ => ?_⟩
  simp only [GroupMemory.accumulators, List.get_eq_getElem, List.getElem_map]
  exact accumulated_nil _ _

/-- New accumulators change no hash. -/
theorem hashes_set {g : Nat} {group : Group} (hgroup : t.groups[g]? = some group)
    {accs : List Accumulator} :
    ({ t with groups := t.groups.set g { group with accs := accs } } : GroupTable).hashes =
      t.hashes := by
  funext j
  simp only [GroupTable.hashes, List.map_set, List.getD_eq_getElem?_getD, List.getElem?_set]
  split
  · rename_i heq
    subst heq
    obtain ⟨hlt, rfl⟩ := List.getElem?_eq_some_iff.mp hgroup
    simp [hlt]
  · rfl

/-- One more row: the error of its first item that cannot be computed, or the table with it. -/
theorem groupRow_tabled (memory : GroupMemory) (h : Tabled exprs items groupSlots done t)
    (hrow : DiscreteAt groupSlots row) :
    match items.mapM (itemResult exprs row) with
    | .error code => groupRow memory items exprs groupSlots row t = .error code
    | .ok _ => ∃ t', groupRow memory items exprs groupSlots row t = .ok t' ∧
        Tabled exprs items groupSlots (done ++ [row]) t' := by
  have hdiscrete : ∀ other ∈ done ++ [row], DiscreteAt groupSlots other := by
    intro other hother
    rcases List.mem_append.mp hother with hin | hin
    · exact h.discrete other hin
    · rw [List.mem_singleton.mp hin]
      exact hrow
  unfold groupRow
  rcases h.findGroup hrow with ⟨g, hfound, hk⟩ | ⟨hnone, hnot⟩
  · -- a row of a group that is there
    have hlt : g < t.groups.length := by
      rw [h.length]
      exact (List.getElem?_eq_some_iff.mp hk).1
    have hgroup := List.getElem?_eq_getElem hlt
    have hold := h.group g _ _ hk hgroup
    have hitems := @accumulateItems_group _ _ row _ _ hold.accs
    simp only [hfound, hgroup]
    cases hvalues : items.mapM (itemResult exprs row) with
    | error code =>
      rw [hvalues] at hitems
      simp only [hitems]
    | ok values =>
      rw [hvalues] at hitems
      obtain ⟨accs', haccs, hall⟩ := hitems
      refine ⟨{ t with groups := t.groups.set g { t.groups[g] with accs := accs' } },
        by simp only [haccs], ?_⟩
      have hkeys : keysOf (rowKey groupSlots) (done ++ [row]) = keysOf (rowKey groupSlots) done := by
        rw [keysOf_append, if_pos (List.mem_of_getElem? hk)]
      refine ⟨hdiscrete, ?_, by rw [List.length_set, hkeys, h.length], ?_⟩
      · rw [hashes_set hgroup, List.length_set]
        simpa using h.probed
      · intro g' k group' hk' hgroup'
        rw [hkeys] at hk'
        rw [withKey_append]
        by_cases hg : g' = g
        · subst hg
          obtain rfl := Option.some.inj (hk.symm.trans hk')
          rw [List.getElem?_set_self hlt] at hgroup'
          obtain rfl := Option.some.inj hgroup'
          rw [if_pos rfl]
          obtain ⟨first, rest, hrows, hfirst⟩ := hold.first
          exact ⟨⟨first, rest ++ [row], by rw [hrows]; rfl, hfirst⟩, hall⟩
        · rw [List.getElem?_set_ne (Ne.symm hg)] at hgroup'
          rw [if_neg]
          · exact h.group g' k group' hk' hgroup'
          · rintro rfl
            have hlt' := (List.getElem?_eq_some_iff.mp hk').1
            exact hg ((List.getElem?_inj hlt' (nodup_keysOf done)).mp (hk'.trans hk.symm))
  · -- a row of a new group
    obtain ⟨hgroups, hprobed, hroom⟩ := addGroup_probed memory h.probed
    simp only [hnone]
    generalize addGroup memory items t row groupSlots (hashKey row groupSlots) = t₁
      at hgroups hprobed hroom ⊢
    have hgroup : t₁.groups[t.groups.length]? =
        some (freshGroup memory items groupSlots t.groups.length row) := by
      rw [hgroups]
      simp
    have hitems := @accumulateItems_group _ _ row _ _
      (fresh_accs memory exprs items t.groups.length)
    have haccs' : (freshGroup memory items groupSlots t.groups.length row).accs =
        memory.accumulators t.groups.length 0 false items := rfl
    simp only [hgroup, haccs']
    cases hvalues : items.mapM (itemResult exprs row) with
    | error code =>
      rw [hvalues] at hitems
      simp only [hitems]
    | ok values =>
      rw [hvalues] at hitems
      obtain ⟨accs', haccs, hall⟩ := hitems
      refine ⟨{ t₁ with
          groups := t₁.groups.set t.groups.length
            { freshGroup memory items groupSlots t.groups.length row with accs := accs' } },
        by simp only [haccs], ?_⟩
      have hkeys : keysOf (rowKey groupSlots) (done ++ [row]) =
          keysOf (rowKey groupSlots) done ++ [rowKey groupSlots row] := by
        rw [keysOf_append, if_neg hnot]
      refine ⟨hdiscrete, .inr ?_, by simp [hgroups, hkeys, h.length], ?_⟩
      · rw [hashes_set hgroup, List.length_set]
        exact ⟨hprobed, hroom⟩
      · intro g' k group' hk' hgroup'
        rw [hkeys] at hk'
        rw [withKey_append]
        by_cases hg : g' = t.groups.length
        · subst hg
          rw [h.length, List.getElem?_concat_length] at hk'
          obtain rfl := Option.some.inj hk'
          have hlt : t.groups.length < t₁.groups.length := by simp [hgroups]
          rw [List.getElem?_set_self hlt] at hgroup'
          obtain rfl := Option.some.inj hgroup'
          rw [if_pos rfl, withKey_eq_nil hnot, List.nil_append]
          exact ⟨⟨row, [], rfl, rfl, rfl⟩, hall⟩
        · have hlt : g' < t.groups.length := by
            have hlt' := (List.getElem?_eq_some_iff.mp hk').1
            rw [List.length_append, List.length_singleton, ← h.length] at hlt'
            omega
          rw [List.getElem?_set_ne (Ne.symm hg), hgroups, List.getElem?_append_left hlt] at hgroup'
          rw [List.getElem?_append_left (by rw [← h.length]; exact hlt)] at hk'
          rw [if_neg]
          · exact h.group g' k group' hk' hgroup'
          · rintro rfl
            exact hnot (List.mem_of_getElem? hk')

/-! ### The loop -/

/-- Only what the items compute of a row is taken in. -/
theorem accumulateItems_congr {row' : Row} {accs : List Accumulator}
    (h : ∀ item ∈ items, itemResult exprs row item = itemResult exprs row' item) :
    accumulateItems exprs row items accs = accumulateItems exprs row' items accs := by
  induction items generalizing accs with
  | nil => cases accs <;> rfl
  | cons item rest ih =>
    cases accs with
    | nil => rfl
    | cons acc accs =>
      unfold accumulateItems
      have hitem := h item (by simp)
      unfold itemResult at hitem
      rw [hitem, ih fun other ho => h other (by simp [ho])]

section
variable {row' : Row} (hkeys : ∀ slot ∈ groupSlots, row.value slot = row'.value slot)
include hkeys

/-- The hash of a row looks at its GROUP BY columns, -/
theorem hashKey_keys : hashKey row groupSlots = hashKey row' groupSlots := by
  have hfold : ∀ (slots : List Nat) (row : Row) (start : UInt32),
      slots.foldl (fun hash slot => (hash ^^^ hashValue (row.value slot)) * 16777619) start =
        (slots.map row.value).foldl (fun hash value => (hash ^^^ hashValue value) * 16777619)
          start := fun slots row start => by rw [List.foldl_map]
  unfold hashKey
  rw [hfold, hfold, List.map_congr_left hkeys]

/-- and so does the comparison with the key of a group. -/
theorem keyMatches_keys (key : List Value) :
    keyMatches row groupSlots key = keyMatches row' groupSlots key := by
  unfold keyMatches
  rw [Bool.eq_iff_iff, List.all_eq_true, List.all_eq_true]
  refine forall₂_congr fun pair hpair => ?_
  simp only [hkeys pair.1 (List.of_mem_zip hpair).1]

/-- Only the key of a row decides which group is found. -/
theorem findGroup_keys (hash : UInt32) :
    findGroup t row groupSlots hash = findGroup t row' groupSlots hash := by
  unfold findGroup
  simp only [keyMatches_keys hkeys]

end

/-- The loop looks at the GROUP BY columns of a row and at what the items give. -/
theorem groupRow_congr (memory : GroupMemory) {row' : Row}
    (hkeys : ∀ slot ∈ groupSlots, row.value slot = row'.value slot)
    (hitems : ∀ item ∈ items, itemResult exprs row item = itemResult exprs row' item) :
    groupRow memory items exprs groupSlots row t = groupRow memory items exprs groupSlots row' t := by
  have hmap : groupSlots.map row.value = groupSlots.map row'.value :=
    List.map_congr_left hkeys
  have hhash := hashKey_keys hkeys
  have hfind := fun hash => @findGroup_keys _ t row row' hkeys hash
  unfold groupRow
  simp only [hhash, hfind, addGroup, hmap]
  split
  · rfl
  · rw [accumulateItems_congr hitems]

/-- A record long enough for what is read of it. -/
structure LongEnough (exprs : ExprPool) (items : List SelectItem) (groupSlots : List Nat)
    (record : Row) : Prop where
  keys : ∀ slot ∈ groupSlots, slot < record.length
  items : ∀ item ∈ items, exprDeepest exprs item.expr < record.length

/-- The loop: the error of the first row with an item that cannot be computed, or the table of all
the rows. -/
theorem groupRows_tabled (memory : GroupMemory) {rows : List Row} {storage : Row}
    (h : Tabled exprs items groupSlots done t)
    (hdiscrete : ∀ record ∈ rows, DiscreteAt groupSlots record)
    (hlong : ∀ record ∈ rows, LongEnough exprs items groupSlots record) :
    match rows.mapM fun row => items.mapM (itemResult exprs row) with
    | .error code =>
      groupRows memory items exprs groupSlots (deepestRead groupSlots exprs items) rows storage t =
        .error code
    | .ok _ => ∃ t',
      groupRows memory items exprs groupSlots (deepestRead groupSlots exprs items) rows storage t =
          .ok t' ∧
        Tabled exprs items groupSlots (done ++ rows) t' := by
  induction rows generalizing done t storage with
  | nil => exact ⟨t, rfl, by rw [List.append_nil]; exact h⟩
  | cons record rest ih =>
    obtain ⟨hkeys, hitems⟩ := hlong record (by simp)
    obtain ⟨hdeepKeys, hdeepItems⟩ := deepestRead_le
    -- what was decoded is the record, as far as anything looks
    have hsame : groupRow memory items exprs groupSlots
        (decodeInto record storage (deepestRead groupSlots exprs items)) t =
          groupRow memory items exprs groupSlots record t := by
      refine groupRow_congr memory (fun slot hs => decodeInto_value (hdeepKeys slot hs)
        (hkeys slot hs)) fun item hi => ?_
      unfold itemResult
      rw [exprEvaluate_agree fun slot hs => decodeInto_value ?_ ?_]
      · have := hdeepItems item hi
        omega
      · have := hitems item hi
        omega
    have hstep := groupRow_tabled memory h (hdiscrete record (by simp))
    rw [List.mapM_cons]
    unfold groupRows
    simp only [hsame]
    cases hvalues : items.mapM (itemResult exprs record) with
    | error code =>
      rw [hvalues] at hstep
      simp only [hstep]
      rfl
    | ok values =>
      rw [hvalues] at hstep
      obtain ⟨t', ht', htabled⟩ := hstep
      have hrest := @ih _ _ (decodeInto record storage (deepestRead groupSlots exprs items))
        htabled (fun r hr => hdiscrete r (by simp [hr])) fun r hr => hlong r (by simp [hr])
      simp only [ht', bind, Except.bind]
      cases hrows : rest.mapM fun row => items.mapM (itemResult exprs row) with
      | error code =>
        rw [hrows] at hrest
        exact hrest
      | ok rows =>
        rw [hrows, List.append_assoc] at hrest
        exact hrest

end

end DatabaseEngine
