import DatabaseEngine.Proofs.Index.Scanning
import DatabaseEngine.Model.Executor

/-!
# `DatabaseEngine.Proofs.Index.Building`: an index from its creation on

`createIndex` leaves a tree with nothing in it, and every `indexInsert` after it enters one key, so
a run of insertions has a tree in its pages at every step.

* `createIndex_spec`: the tree at the start.
* `insertEach_spec`: the tree after a run of insertions.
* `index_built`: the tree of an index that rows were put into.
-/

set_option autoImplicit false

namespace DatabaseEngine

open Library

/-- The entry that a row at a position makes in the index of a column, from the value it has there.
A NULL makes none. -/
def indexEntry (type : ColType) (value : Value) (position : Nat) :
    Option (ColumnKey type × UInt32) :=
  if h : value.type = type ∧ value.isNull = false then
    some (⟨makeKey value, value, h.1, rfl⟩, UInt32.ofNat position)
  else none

/-- The entries of some rows, in the order of the rows. -/
def indexEntries (type : ColType) (values : List (Value × Nat)) : List (ColumnKey type × UInt32) :=
  values.filterMap fun v => indexEntry type v.1 v.2

/-- The entries of a column are those of its first value and of the rest. -/
theorem indexEntries_cons (type : ColType) (v : Value × Nat) (values : List (Value × Nat)) :
    indexEntries type (v :: values) = (indexEntry type v.1 v.2).toList ++ indexEntries type values := by
  unfold indexEntries
  rw [List.filterMap_cons]
  cases indexEntry type v.1 v.2 with
  | none => rfl
  | some entry => rfl

/-- The values of some rows put into an index, one after the other. -/
def insertEachValue : List (Value × Nat) → Step Index Unit
  | [] => return ()
  | v :: rest => do
    indexInsert v.1 v.2
    insertEachValue rest

section
variable {type : ColType} {zero : Bytes} {s : Store Bytes} {index : Index}
  {t : BTree.Root (ColumnKey type) UInt32} {ids : List Nat}

/-- What an insertion does to the tree: nothing if there is no entry. -/
def grownBy (type : ColType) (entry : Option (ColumnKey type × UInt32))
    (t : BTree.Root (ColumnKey type) UInt32) : BTree.Root (ColumnKey type) UInt32 :=
  BTree.insertAll ColumnKey.compare (treeOrder type) entry.toList t

/-- An index after a step: it is the same column's, its pages hold a tree, and no other page has
changed. -/
structure BuiltFrom (s : Store Bytes) (type : ColType) (index : Index) (ids : List Nat)
    (t : BTree.Root (ColumnKey type) UInt32) (index' : Index) (s' : Store Bytes) : Prop where
  column : index.SameColumn index'
  stored : ∃ new, Store.Moves s s' ids new ∧ IndexStored s' type index' t new

/-- An insertion, of a NULL too. -/
theorem indexInsert_value {value : Value} {position : Nat} (hs : s.Sound)
    (h : IndexStored s type index t ids) (hvalue : value.isNull = false → value.type = type) :
    (indexInsert value position).within zero idLimit
      (fun r index' s' => r = .ok () ∧
        BuiltFrom s type index ids (grownBy type (indexEntry type value position) t) index' s')
      index s := by
  cases hnull : value.isNull with
  | false =>
    have hentry : indexEntry type value position
        = some (⟨makeKey value, value, hvalue hnull, rfl⟩, UInt32.ofNat position) :=
      dif_pos ⟨hvalue hnull, hnull⟩
    refine PageM.within_mono (indexInsert_spec hs h (hvalue hnull) hnull) ?_
    rintro ⟨r, index'⟩ s' ⟨hr, hcolumn, new, hmoves, hstored⟩
    rw [hentry]
    exact ⟨hr, hcolumn, new, hmoves, hstored⟩
  | true =>
    have hentry : indexEntry type value position = none :=
      dif_neg fun hkey => by rw [hnull] at hkey; exact absurd hkey.2 (by decide)
    unfold indexInsert
    rw [if_pos hnull, hentry]
    exact ⟨rfl, ⟨rfl, rfl, rfl, rfl⟩, ids, .refl h.nodup (h.allocated hs), h⟩

/-- An index is built from itself by no insertion. -/
theorem BuiltFrom.refl (hs : s.Sound) (h : IndexStored s type index t ids) :
    BuiltFrom s type index ids t index s :=
  ⟨⟨rfl, rfl, rfl, rfl⟩, ids, .refl h.nodup (h.allocated hs), h⟩

/-- The tree after a run of insertions. -/
theorem insertEachValue_spec {values : List (Value × Nat)} (hs : s.Sound)
    (h : IndexStored s type index t ids) (hvalues : ∀ v ∈ values, v.1.type = type) :
    (insertEachValue values).within zero idLimit
      (fun r index' s' => r = .ok () ∧ BuiltFrom s type index ids
        (BTree.insertAll ColumnKey.compare (treeOrder type) (indexEntries type values) t) index' s')
      index s := by
  -- the invariant is that the pages hold a tree, whatever it has become
  induction values generalizing s index t ids with
  | nil => exact ⟨rfl, .refl hs h⟩
  | cons v values ih =>
    have hfirst := @indexInsert_value type zero s index t ids v.1 v.2 hs h
      fun _ => hvalues v List.mem_cons_self
    unfold insertEachValue
    rw [Action.within_bind]
    refine Action.within_mono (Action.within_sound hfirst hs) ?_
    rintro r index₁ s₁ ⟨⟨rfl, hcolumn, new, hmoves, hstored⟩, hs₁⟩
    have hrest := ih hs₁ hstored fun other hother => hvalues other (List.mem_cons_of_mem _ hother)
    refine Action.within_mono hrest ?_
    rintro r index' s' ⟨rfl, hcolumn', new', hmoves', hstored'⟩
    refine ⟨rfl, Index.SameColumn.trans hcolumn hcolumn', new', hmoves.trans hmoves', ?_⟩
    rw [indexEntries_cons, BTree.insertAll_append]
    exact hstored'

/-! ### From the start -/

variable {name table column : Name} {slot : Nat} {indexes : List Index}

/-- A new leaf is a tree with nothing in it, on a page of its own. -/
theorem newNode_spec (hs : s.Sound) :
    (newNode true (keyBitsFor type)).within zero idLimit (fun id s' => Store.Moves s s' [] [id] ∧
      ∀ index : Index, index.rootPage = id → index.keyCount = 0 →
        IndexStored s' type index BTree.empty [id]) s := by
  intro hlimit
  have hmoves : Store.Moves s (s.alloc zero) [] [s.nextId] :=
    .alloc hs zero List.nodup_nil fun i hi => absurd hi List.not_mem_nil
  have hwritten := hmoves.trans (.write hmoves.nodup hmoves.allocated List.mem_cons_self
    (storeNode (fun _ => 0) (emptyNode true (keyBitsFor type))))
  have hbounds := treeOrder_bounds type
  have hnode : readNode (storeNode (fun _ => 0) (leafNode type [] INVALID_PAGE))
      = leafNode type [] INVALID_PAGE :=
    readNode_leafNode (fun entry hentry => absurd hentry List.not_mem_nil) (by decide)
  refine ⟨by simp [Store.alloc], hwritten, fun index hroot hcount => ?_⟩
  refine ⟨BTree.lawful_empty (by omega), ⟨UInt32.ofNat s.nextId, ?_⟩, hwritten.nodup, ?_, hcount⟩
  · rw [hroot, emptyNode_leaf]
    exact ⟨rfl, rfl, _, by simp [Store.write], hnode⟩
  · exact fun i hi => List.mem_singleton.mp hi ▸ hlimit

/-- A new index has the tree with nothing in it, on a page of its own. -/
theorem createIndex_spec (hs : s.Sound) :
    (createIndex name table column slot type).within zero idLimit
      (fun r indexes' s' => r = .ok () ∧ ∃ index id, indexes' = index :: indexes ∧
        index.name = name ∧ index.table = table ∧ index.column = column ∧ index.slot = slot ∧
        Store.Moves s s' [] [id] ∧ IndexStored s' type index BTree.empty [id]) indexes s := by
  unfold createIndex
  rw [Action.within_bind, Action.within_lift]
  refine PageM.within_mono (newNode_spec hs) ?_
  intro id s' hnew
  exact ⟨rfl, _, id, rfl, rfl, rfl, rfl, rfl, hnew.1, hnew.2 _ rfl rfl⟩

/-- A new index, and the values of some rows put into it. -/
def buildIndex (name table column : Name) (slot : Nat) (type : ColType)
    (values : List (Value × Nat)) : Step (List Index) Unit := do
  createIndex name table column slot type
  onIndex name (insertEachValue values)

/-- A step on the index in front, if that is the one of the name. -/
theorem onIndex_front {α : Type} {x : Step Index α}
    {Q : Except ErrorCode α → List Index → Store Bytes → Prop} (hname : index.name.same name = true)
    (h : x.within zero idLimit (fun r index' s' => Q r (index' :: indexes) s') index s) :
    (onIndex name x).within zero idLimit Q (index :: indexes) s := by
  have hfind : findIndexByName (index :: indexes) name = some index :=
    List.find?_cons_of_pos hname
  unfold onIndex
  rw [Action.within_bind]
  dsimp only [Action.get, Action.within, PageM.within]
  rw [hfind]
  refine Action.within_onPart.mpr (Action.within_mono h fun r index' s' hr => ?_)
  have hreplace : replaceFirst (fun other => other.name.same name) index' (index :: indexes)
      = index' :: indexes := if_pos hname
  rw [hreplace]
  exact hr

/-- What a run of insertions leaves. -/
structure Built (s : Store Bytes) (name table column : Name) (slot : Nat) (type : ColType)
    (values : List (Value × Nat)) (index : Index) (t : BTree.Root (ColumnKey type) UInt32)
    (ids : List Nat) (s' : Store Bytes) : Prop where
  column : index.name = name ∧ index.table = table ∧ index.column = column ∧ index.slot = slot
  moves : Store.Moves s s' [] ids
  stored : IndexStored s' type index t ids
  entries : t.2.entries = (indexEntries type values).reverse.insertionSort
    fun a b => BTree.AtMost ColumnKey.compare a.1 b.1

/-- Building an index makes a tree that holds an entry for every value it can. -/
theorem buildIndex_spec {values : List (Value × Nat)} (hs : s.Sound)
    (hvalues : ∀ v ∈ values, v.1.type = type) :
    (buildIndex name table column slot type values).within zero idLimit
      (fun r indexes' s' => r = .ok () ∧ ∃ index t ids, indexes' = index :: indexes ∧
        Built s name table column slot type values index t ids s') indexes s := by
  have hbounds := treeOrder_bounds type
  unfold buildIndex
  rw [Action.within_bind]
  refine Action.within_mono (Action.within_sound (createIndex_spec hs) hs) ?_
  rintro r indexes₁ s₁ ⟨⟨rfl, index₁, id, rfl, rfl, rfl, rfl, rfl, hmoves, hempty⟩, hs₁⟩
  refine onIndex_front (sameText_refl _) ?_
  refine Action.within_mono (insertEachValue_spec hs₁ hempty hvalues) ?_
  rintro r index s' ⟨rfl, hcolumn, ids, hgrown, hstored⟩
  -- what the library says of a run of insertions into the tree with nothing in it
  have hlawful : BTree.Lawful ColumnKey.compare (treeMinimum type) (treeOrder type)
      (BTree.empty : BTree.Root (ColumnKey type) UInt32) := BTree.lawful_empty (by omega)
  have hentries := (hlawful.insertAll (treeMinimum_lt type) (by omega) (indexEntries type values)).2
  exact ⟨rfl, index, _, ids, rfl, hcolumn, hmoves.trans hgrown, hstored,
    hentries.trans (BTree.foldl_enter (indexEntries type values))⟩

/-- After `createIndex` and any run of `indexInsert` calls with values of the column's type, as
long as page ids stay in range: every call has succeeded, the pages of the index hold a tree in the
order of the keys whose nodes are neither full nor too small, linked along its leaves, on pages that
nobody had; its entries are those of the values that are not NULL, sorted by their keys, the later
one first where keys are equal, and there are as many as the index counts; and its height is at most
logarithmic in their number. -/
theorem index_built {values : List (Value × Nat)} (hs : s.Sound)
    (hvalues : ∀ v ∈ values, v.1.type = type) :
    (buildIndex name table column slot type values).within zero idLimit
      (fun r indexes' s' => r = .ok () ∧ ∃ index t ids first, indexes' = index :: indexes ∧
        index.name = name ∧ index.table = table ∧ index.column = column ∧ index.slot = slot ∧
        Store.Moves s s' [] ids ∧ IndexStored s' type index t ids ∧
        LeafChain s' type t.2.leaves first INVALID_PAGE ∧
        t.2.entries = (indexEntries type values).reverse.insertionSort
          (fun a b => BTree.AtMost ColumnKey.compare a.1 b.1) ∧
        index.keyCount = (indexEntries type values).length ∧
        ∀ h, t.1 = h + 1 → treeMinimum type * (treeMinimum type + 1) ^ h
          ≤ (indexEntries type values).length) indexes s := by
  refine Action.within_mono (buildIndex_spec hs hvalues) ?_
  rintro r indexes' s' ⟨rfl, index, t, ids, rfl, hbuilt⟩
  obtain ⟨⟨hname, htable, hcolumn, hslot⟩, hmoves, hstored, hentries⟩ := hbuilt
  have hlength : t.2.entries.length = (indexEntries type values).length := by
    rw [hentries, List.length_insertionSort, List.length_reverse]
  obtain ⟨first, htree⟩ := hstored.pages
  refine ⟨rfl, index, t, ids, first, rfl, hname, htable, hcolumn, hslot, hmoves, hstored,
    htree.chain hstored.inRange, hentries, ?_, ?_⟩
  · rw [hstored.count, hlength]
  · intro h hheight
    rw [← hlength]
    exact hstored.lawful.deep hheight

end

/-- A store without a page. -/
def noPages : Store Bytes := { count := 0, free := [], body := fun _ => none }

/-- A store without pages is sound. -/
theorem noPages_sound : noPages.Sound :=
  ⟨fun _ hid => absurd hid List.not_mem_nil, List.nodup_nil, fun _ _ => rfl⟩

/-- Three texts, one of them a NULL. -/
theorem index_built_texts :
    (buildIndex (Name.ofBytes [105]) (Name.ofBytes [116]) (Name.ofBytes [99]) 0 .TYPE_TEXT
      [(setText [98], 0), (setNull .TYPE_TEXT, 1), (setText [97], 2)]).within zeroPage idLimit
      (fun r indexes s' => r = .ok () ∧ ∃ index t ids, indexes = [index] ∧
        IndexStored s' .TYPE_TEXT index t ids ∧ index.keyCount = 2 ∧
        t.2.entries.map Prod.snd = [2, 0]) [] noPages := by
  refine Action.within_mono (index_built noPages_sound (by decide)) ?_
  rintro r indexes s' ⟨hr, index, t, ids, -, hindexes, -, -, -, -, -, hstored, -, hentries, hcount, -⟩
  refine ⟨hr, index, t, ids, hindexes, hstored, hcount.trans (by decide +kernel), ?_⟩
  rw [hentries]
  decide +kernel

section
variable {type : ColType} {zero : Bytes} {s : Store Bytes} {name table column : Name} {slot : Nat}
  {indexes : List Index}

/-- A scan for a comparison of the index that a name finds. -/
def lookUp (name : Name) (op : CompareOp) (value : Value) (maxRows : Int) :
    Step (List Index) (List Nat) :=
  onIndex name do
    let index ← Action.get
    checked (indexScan index op value maxRows)

/-- The rule for a page program that answers an error code. -/
theorem checked_within {σ α : Type} {limit : Nat} {x : PageM Bytes (Except ErrorCode α)}
    {Q : Except ErrorCode α → σ → Store Bytes → Prop} {e : σ} :
    (checked x : Step σ α).within zero limit Q e s ↔
      x.within zero limit (fun r s => Q r e s) s := by
  unfold checked
  rw [Action.within_bind, Action.within_lift]
  exact Iff.rfl

/-- What an index is asked is a comparison of two values. -/
theorem indexable_op {op : CompareOp} (hop : indexableOperator op = true ∨ op = .OP_LIKE) :
    op ≠ .OP_EXISTS ∧ op ≠ .OP_IS_NULL ∧ op ≠ .OP_IS_NOT_NULL ∧ op ≠ .OP_IN := by
  revert hop
  cases op <;> decide

/-- No comparison holds of a NULL. -/
theorem comparePredicate_not_null {a b : Value} {op : CompareOp}
    (hop : indexableOperator op = true ∨ op = .OP_LIKE)
    (htrue : comparePredicate a b op = .TRI_TRUE) : a.isNull = false := by
  obtain ⟨-, hisNull, hnotNull, -⟩ := indexable_op hop
  unfold comparePredicate at htrue
  rw [if_neg hisNull, if_neg hnotNull] at htrue
  by_contra hnull
  rw [if_pos (by simp [hnull])] at htrue
  exact absurd htrue (by decide)

/-- The entries of some rows that are taken. -/
theorem taken_indexEntries {judge : StoredKey → Verdict} {values : List (Value × Nat)}
    (hvalues : ∀ v ∈ values, v.1.isNull = false → v.1.type = type)
    (hpositions : ∀ v ∈ values, v.2 < 2 ^ 32) :
    taken judge ((indexEntries type values).map leafEntry)
      = (values.filter fun v => !v.1.isNull && decide (judge (makeKey v.1) = .take)).map Prod.snd := by
  induction values with
  | nil => rfl
  | cons v values ih =>
    have hrest := ih (fun other hother => hvalues other (List.mem_cons_of_mem _ hother))
      fun other hother => hpositions other (List.mem_cons_of_mem _ hother)
    have hnumber : (UInt32.ofNat v.2).toNat = v.2 :=
      UInt32.toNat_ofNat_of_lt' (hpositions v List.mem_cons_self)
    rw [indexEntries_cons, List.map_append, taken_append, hrest]
    cases hnull : v.1.isNull with
    | true =>
      have hentry : indexEntry type v.1 v.2 = none :=
        dif_neg fun hkey => by rw [hnull] at hkey; exact absurd hkey.2 (by decide)
      rw [hentry, List.filter_cons_of_neg (by rw [hnull]; simp)]
      rfl
    | false =>
      have hentry : indexEntry type v.1 v.2
          = some (⟨makeKey v.1, v.1, hvalues v List.mem_cons_self hnull, rfl⟩, UInt32.ofNat v.2) :=
        dif_pos ⟨hvalues v List.mem_cons_self hnull, hnull⟩
      rw [hentry, Option.toList_some, List.map_singleton]
      by_cases htake : judge (makeKey v.1) = .take
      · rw [taken_cons_take htake, List.filter_cons_of_pos (by rw [hnull]; simpa using htake)]
        show (UInt32.ofNat v.2).toNat :: _ = _
        rw [hnumber]
        rfl
      · rw [taken_cons_other htake, List.filter_cons_of_neg (by rw [hnull]; simpa using htake)]
        rfl

/-- A lookup after any run of insertions into a new index of an int, date or text column: it
changes no page, and answers exactly the positions of the values whose keys its test takes, each as
often as it was inserted, or `EXEC_TABLE_FULL` if they are more than the caller has room for; and
every value of which the comparison holds is among them. -/
theorem index_lookUp {values : List (Value × Nat)} {op : CompareOp} {value : Value} {maxRows : Int}
    (hs : s.Sound) (hvalues : ∀ v ∈ values, v.1.type = type)
    (hpositions : ∀ v ∈ values, v.2 < 2 ^ 32) (hvalue : value.type = type)
    (hfloat : type ≠ .TYPE_FLOAT) (hop : indexableOperator op = true) :
    (buildIndex name table column slot type values).within zero idLimit
      (fun _ indexes₁ s₁ => (lookUp name op value maxRows).within zero idLimit (fun r indexes₂ s₂ =>
        s₂ = s₁ ∧ indexes₂ = indexes₁ ∧ ∃ rows, r = capped maxRows rows ∧
          rows.Perm ((values.filter fun v => !v.1.isNull &&
            decide (scanVerdict op (makeKey value) (makeKey v.1) = .take)).map Prod.snd) ∧
          ∀ v ∈ values, comparePredicate v.1 value op = .TRI_TRUE → v.2 ∈ rows) indexes₁ s₁)
      indexes s := by
  refine Action.within_mono (Action.within_sound (buildIndex_spec hs hvalues) hs) ?_
  rintro r indexes₁ s₁ ⟨⟨rfl, index, t, ids, rfl, hbuilt⟩, hs₁⟩
  have hname : index.name.same name = true := by
    rw [hbuilt.column.1]
    exact sameText_refl _
  -- the leaves hold the entries in another order
  have hperm : t.2.entries.Perm (indexEntries type values) := by
    rw [hbuilt.entries]
    exact (List.perm_insertionSort _ _).trans (List.reverse_perm _)
  have htaken : (taken (scanVerdict op (makeKey value)) (leafEntries t)).Perm
      ((values.filter fun v => !v.1.isNull &&
        decide (scanVerdict op (makeKey value) (makeKey v.1) = .take)).map Prod.snd) := by
    rw [← taken_indexEntries (fun v hv _ => hvalues v hv) hpositions]
    exact taken_perm (hperm.map leafEntry)
  refine onIndex_front hname ?_
  rw [Action.within_bind, Action.within_get]
  refine checked_within.mpr ?_
  refine PageM.within_of_wp (PageM.wp_mono (indexScan_spec hs₁ hbuilt.stored op hvalue) ?_)
  rintro r s₂ ⟨rfl, rfl⟩
  refine ⟨rfl, rfl, _, rfl, htaken, fun v hv htrue => ?_⟩
  have hnull : v.1.isNull = false := comparePredicate_not_null (.inl hop) htrue
  have htype : v.1.type = value.type := (hvalues v hv).trans hvalue.symm
  refine htaken.mem_iff.mpr (List.mem_map_of_mem (List.mem_filter.mpr ⟨hv, ?_⟩))
  rw [hnull, scanVerdict_of_true htype (by rw [hvalues v hv]; exact hfloat) hop htrue]
  rfl

end

/-- The ints above 5 among 5, a NULL and 7. -/
theorem index_lookUp_ints :
    (buildIndex (Name.ofBytes [105]) (Name.ofBytes [116]) (Name.ofBytes [99]) 0 .TYPE_INT
      [({ zeroValue with intValue := 5 }, 0), (setNull .TYPE_INT, 1),
        ({ zeroValue with intValue := 7 }, 2)]).within zeroPage idLimit
      (fun _ indexes₁ s₁ =>
        (lookUp (Name.ofBytes [105]) .OP_GT { zeroValue with intValue := 5 } 3).within zeroPage idLimit
          (fun r _ _ => ∃ rows, r = capped 3 rows ∧ 2 ∈ rows) indexes₁ s₁) [] noPages := by
  refine Action.within_mono (@index_lookUp .TYPE_INT zeroPage noPages _ _ _ 0 [] _ .OP_GT
    { zeroValue with intValue := 5 } 3 noPages_sound (by decide) (by decide) rfl (by decide) rfl) ?_
  intro _ indexes₁ s₁ hfound
  refine Action.within_mono hfound ?_
  rintro r indexes₂ s₂ ⟨-, -, rows, hr, -, hin⟩
  exact ⟨rows, hr, hin ({ zeroValue with intValue := 7 }, 2) (by simp) (by decide)⟩

end DatabaseEngine
