import DatabaseEngine.Proofs.Index.Trees
import DatabaseEngine.Proofs.Codec.Chain

/-!
# `DatabaseEngine.Proofs.Index.Growing`: an insertion into the pages is one into the tree

`insertInto` on pages that hold a tree leaves pages that hold what `BTree.insert` makes of the tree,
and touches no other page. So a run of `indexInsert` calls keeps every invariant of the tree, and
the leaves hold exactly what was inserted, in order.

* `splitLeaf_spec`, `splitInternal_spec`: a node is cut in two.
* `insertInto_spec`: one step of the way down.
* `indexInsert_spec`: an insertion into an index.
-/

set_option autoImplicit false

namespace DatabaseEngine

open Library

/-- Page ids that fit into an entry and are no sign of an end. -/
abbrev idLimit : Nat := INVALID_PAGE.toNat

section
variable {type : ColType} {zero : Bytes} {s : Store Bytes} {id : Nat}

/-! ### Cutting a node -/

/-- A page is taken and written, and then the page beside it. -/
theorem moves_split (hs : s.Sound) (hid : (s.body id).isSome) (b₁ b₂ b₃ : Bytes) :
    Store.Moves s ((((s.alloc zero).write s.nextId b₁).write s.nextId b₂).write id b₃) [id]
        [s.nextId, id] ∧
      ((((s.alloc zero).write s.nextId b₁).write s.nextId b₂).write id b₃).body s.nextId
        = some b₂ ∧
      ((((s.alloc zero).write s.nextId b₁).write s.nextId b₂).write id b₃).body id = some b₃ := by
  have hal := hs.allocated hid
  have hne : s.nextId ≠ id := fun heq => (hs.nextId_fresh zero).1 (heq ▸ hal)
  have halloc : Store.Moves s (s.alloc zero) [id] [s.nextId, id] :=
    .alloc hs zero (List.nodup_singleton id) fun i hi => List.mem_singleton.mp hi ▸ hal
  have hfirst := halloc.trans (.write halloc.nodup halloc.allocated List.mem_cons_self b₁)
  have hsecond := hfirst.trans (.write hfirst.nodup hfirst.allocated List.mem_cons_self b₂)
  refine ⟨hsecond.trans (.write hsecond.nodup hsecond.allocated
    (List.mem_cons_of_mem _ List.mem_cons_self) b₃), ?_, ?_⟩
  · simp [Store.write, hne]
  · simp [Store.write]

/-- The requests of a split are legal. -/
theorem split_legal (hid : (s.body id).isSome) (b₁ b₂ : Bytes) :
    ((s.alloc zero).body s.nextId).isSome ∧
      (((s.alloc zero).write s.nextId b₁).body s.nextId).isSome ∧
      ((((s.alloc zero).write s.nextId b₁).write s.nextId b₂).body id).isSome := by
  refine ⟨by simp [Store.alloc], by simp [Store.write], ?_⟩
  by_cases hne : id = s.nextId
  · simp [Store.write, hne]
  · simpa [Store.write, Store.alloc, hne] using hid

variable {page : Bytes} {entries : List Entry} {next last : UInt32}

/-- A leaf splits into two halves on two pages, chained one behind the other. -/
theorem splitLeaf_spec (hs : s.Sound) (hid : (s.body id).isSome)
    (hkeys : ∀ entry ∈ entries, Keyed type entry.key) (hcount : entries.length < 2 ^ 32) :
    (splitLeaf id page (leafNode type entries next)).within zero idLimit
      (fun r s' => ∃ right, right < idLimit ∧ Store.Moves s s' [id] [right, id] ∧
        Holds s' id (leafNode type (entries.take (treeOrder type / 2)) (UInt32.ofNat right)) ∧
        Holds s' right (leafNode type (entries.drop (treeOrder type / 2)) next) ∧
        r = some (((leafNode type (entries.drop (treeOrder type / 2)) next).firstKey.kept
          (NODE_LEAF ||| keyBitsFor type)), right)) s := by
  have horder : nodeOrder (leafNode type entries next).flags = treeOrder type := leafNode_order
  unfold splitLeaf
  rw [leafNode_keyBits, horder, emptyNode_leaf]
  intro hlimit
  obtain ⟨hmoves, hright, hleft⟩ := @moves_split zero s id hs hid
    (storeNode (fun _ => 0) (leafNode type [] INVALID_PAGE))
    (storeNode (fun _ => 0) (leafNode type (entries.drop (treeOrder type / 2)) next))
    (storeNode page (leafNode type (entries.take (treeOrder type / 2)) (UInt32.ofNat s.nextId)))
  have hlegal := @split_legal zero s id hid
    (storeNode (fun _ => 0) (leafNode type [] INVALID_PAGE))
    (storeNode (fun _ => 0) (leafNode type (entries.drop (treeOrder type / 2)) next))
  refine ⟨hlegal.1, hlegal.2.1, hlegal.2.2, s.nextId, hlimit, hmoves, ⟨_, hleft, ?_⟩,
    ⟨_, hright, ?_⟩, rfl⟩
  · exact readNode_leafNode (fun entry hentry => hkeys entry (List.mem_of_mem_take hentry))
      (Nat.lt_of_le_of_lt (List.take_sublist ..).length_le hcount)
  · exact readNode_leafNode (fun entry hentry => hkeys entry (List.mem_of_mem_drop hentry))
      (Nat.lt_of_le_of_lt (List.drop_sublist ..).length_le hcount)

/-- An inner node splits around its middle entry, which goes up. -/
theorem splitInternal_spec (hs : s.Sound) (hid : (s.body id).isSome)
    (hkeys : ∀ entry ∈ entries, Keyed type entry.key) (hcount : entries.length < 2 ^ 32) :
    (splitInternal id page (innerNode type entries last)).within zero idLimit
      (fun r s' => ∃ right, right < idLimit ∧ Store.Moves s s' [id] [right, id] ∧
        Holds s' id (innerNode type (entries.take (entries.length / 2))
          ((innerNode type entries last).child (entries.length / 2))) ∧
        Holds s' right (innerNode type (entries.drop (entries.length / 2 + 1)) last) ∧
        r = some (((innerNode type (entries.drop (entries.length / 2)) last).firstKey.kept
          (keyBitsFor type)), right)) s := by
  unfold splitInternal
  rw [innerNode_keyBits, emptyNode_inner]
  intro hlimit
  obtain ⟨hmoves, hright, hleft⟩ := @moves_split zero s id hs hid
    (storeNode (fun _ => 0) (emptyNode false (keyBitsFor type)))
    (storeNode (fun _ => 0) (innerNode type (entries.drop (entries.length / 2 + 1)) last))
    (storeNode page (innerNode type (entries.take (entries.length / 2))
      ((innerNode type entries last).child (entries.length / 2))))
  have hlegal := @split_legal zero s id hid
    (storeNode (fun _ => 0) (emptyNode false (keyBitsFor type)))
    (storeNode (fun _ => 0) (innerNode type (entries.drop (entries.length / 2 + 1)) last))
  refine ⟨hlegal.1, hlegal.2.1, hlegal.2.2, s.nextId, hlimit, hmoves, ⟨_, hleft, ?_⟩,
    ⟨_, hright, ?_⟩, rfl⟩
  · exact readNode_innerNode (fun entry hentry => hkeys entry (List.mem_of_mem_take hentry))
      (Nat.lt_of_le_of_lt (List.take_sublist ..).length_le hcount)
  · exact readNode_innerNode (fun entry hentry => hkeys entry (List.mem_of_mem_drop hentry))
      (Nat.lt_of_le_of_lt (List.drop_sublist ..).length_le hcount)

/-! ### Going down -/

/-- What `insertInto` does at a leaf. -/
def enterLeaf (id : Nat) (page : Bytes) (node : Node) (key : StoredKey) (position : Nat) :
    PageM Bytes (Except ErrorCode Split) :=
  let node := { node with
    entries := node.entries.insertIdx (lowerBound node.entries key)
      { payload := UInt32.ofNat position, key := key } }
  if node.entries.length = nodeOrder node.flags then
    (splitLeaf id page node).bind fun split => .pure (.ok split)
  else (writeNode id page node).bind fun _ => .pure (.ok none)

/-- What it does at an inner node once the child at `i` has taken the key. -/
def settle (id : Nat) (page : Bytes) (node : Node) (i : Nat) (r : Except ErrorCode Split) :
    PageM Bytes (Except ErrorCode Split) :=
  match r with
  | .error code => .pure (.error code)
  | .ok none => .pure (.ok none)
  | .ok (some cut) =>
    let node := node.adopt i cut.1 cut.2
    if node.entries.length = nodeOrder node.flags then
      (splitInternal id page node).bind fun split => .pure (.ok split)
    else (writeNode id page node).bind fun _ => .pure (.ok none)

/-- Entering a subtree enters its leaf, or the child its key leads to. -/
theorem insertInto_within {fuel : Nat} {key : StoredKey} {position : Nat} {page : Bytes}
    {limit : Nat} {Q : Except ErrorCode Split → Store Bytes → Prop} (hpage : s.body id = some page) :
    (insertInto (fuel + 1) id key position).within zero limit Q s ↔
      (if (readNode page).isLeaf then enterLeaf id page (readNode page) key position
      else (insertInto fuel ((readNode page).child (lowerBound (readNode page).entries key)).toNat
        key position).bind (settle id page (readNode page)
          (lowerBound (readNode page).entries key))).within zero limit Q s := by
  have hlegal : (s.body id).isSome ∨ s.count ≤ id := Or.inl (by rw [hpage]; rfl)
  rw [insertInto]
  show (_ ∧ _) ↔ _
  rw [hpage, and_iff_right (hpage ▸ hlegal)]
  show PageM.within zero limit (if _ then _ else _) Q s ↔ _
  split
  · exact Iff.rfl
  · refine iff_of_eq (congrArg (fun f => PageM.within zero limit (PageM.bind _ f) Q s)
      (funext fun r => ?_))
    rcases r with code | _ | ⟨separator, right⟩
    · rfl
    · rfl
    · rfl

/-- The pages hold what a tree became, and the answer tells of what was cut off. -/
def GrownAt (s : Store Bytes) (type : ColType) {h : Nat} (g : BTree.Growth (ColumnKey type) UInt32 h)
    (id : Nat) (first stop : UInt32) (r : Except ErrorCode Split) (new : List Nat) : Prop :=
  match g.2 with
  | none => r = .ok none ∧ Stored s type h g.1 id first stop new
  | some cut => ∃ right middle a b, r = .ok (some (cut.1.1, right)) ∧ right < idLimit ∧
      new = a ++ b ∧ Stored s type h g.1 id first middle a ∧
      Stored s type h cut.2 right middle stop b

/-- What an insertion below a page does. -/
def Inserted (s : Store Bytes) (type : ColType) (ids : List Nat) {h : Nat}
    (g : BTree.Growth (ColumnKey type) UInt32 h) (id : Nat) (first stop : UInt32)
    (r : Except ErrorCode Split) (s' : Store Bytes) : Prop :=
  ∃ new, Store.Moves s s' ids new ∧ (∀ i ∈ new, i < idLimit) ∧ GrownAt s' type g id first stop r new

/-- An insertion behind a change of the tree's pages counts for both. -/
theorem Inserted.after {ids ids' : List Nat} {h : Nat}
    {g : BTree.Growth (ColumnKey type) UInt32 h} {first stop : UInt32}
    {r : Except ErrorCode Split} {s₁ s' : Store Bytes}
    (hg : Inserted s₁ type ids' g id first stop r s') (hmoves : Store.Moves s s₁ ids ids') :
    Inserted s type ids g id first stop r s' := by
  obtain ⟨new, hnew, hlimit, hgrown⟩ := hg
  exact ⟨new, hmoves.trans hnew, hlimit, hgrown⟩

/-- The node that adopts a child is an inner node still. -/
theorem adopt_innerNode (entries : List Entry) (last : UInt32) (i : Nat) (separator : StoredKey)
    (right : Nat) :
    (innerNode type entries last).adopt i separator right
      = innerNode type ((innerNode type entries last).adopt i separator right).entries
        ((innerNode type entries last).adopt i separator right).lastChild := by
  unfold Node.adopt
  split
  · rfl
  · rfl

/-- A page id below the limit comes back from its 32 bits. -/
theorem ofNat_toNat {n : Nat} (hn : n < idLimit) : (UInt32.ofNat n).toNat = n :=
  UInt32.toNat_ofNat_of_lt' (Nat.lt_trans hn (by decide))

/-- A leaf takes the entry, and is cut if that fills it. -/
theorem insertLeaf_spec {l : List (ColumnKey type × UInt32)} {key : ColumnKey type}
    {position fuel : Nat} {first stop : UInt32} {ids : List Nat} (hs : s.Sound)
    (ht : Stored s type 0 l id first stop ids) (hlimit : ∀ i ∈ ids, i < idLimit)
    (hsorted : BTree.Sorted (h := 0) ColumnKey.compare l)
    (hfew : l.length < treeOrder type) :
    (insertInto (fuel + 1) id key.1 position).within zero idLimit
      (Inserted s type ids (BTree.insert (h := 0) ColumnKey.compare (treeOrder type)
        (key, UInt32.ofNat position) l) id first stop) s := by
  obtain ⟨rfl, rfl, page, hpage, hnode⟩ := ht
  have hid : (s.body id).isSome := by rw [hpage]; rfl
  have hal := hs.allocated hid
  have hbounds := treeOrder_bounds type
  have hl : l.Pairwise fun a b => BTree.AtMost ColumnKey.compare a.1 b.1 :=
    List.pairwise_map.mp hsorted
  have hentries := insertIdx_leaf (key, UInt32.ofNat position) hl
  have hlength : (BTree.enter ColumnKey.compare (key, UInt32.ofNat position) l).length
      = l.length + 1 := BTree.length_enter l
  have hkeys : ∀ entry ∈ (BTree.enter ColumnKey.compare (key, UInt32.ofNat position) l).map leafEntry,
      Keyed type entry.key := by
    intro entry hentry
    obtain ⟨e, -, rfl⟩ := List.mem_map.mp hentry
    exact e.1.2
  have hcount : ((BTree.enter ColumnKey.compare (key, UInt32.ofNat position) l).map
      leafEntry).length < 2 ^ 32 := by
    rw [List.length_map]
    omega
  rw [insertInto_within hpage, hnode, if_pos leafNode_isLeaf]
  have hinsert : enterLeaf id page (leafNode type (l.map leafEntry) stop) key.1 position
      = if (BTree.enter ColumnKey.compare (key, UInt32.ofNat position) l).length = treeOrder type then
          (splitLeaf id page (leafNode type ((BTree.enter ColumnKey.compare
            (key, UInt32.ofNat position) l).map leafEntry) stop)).bind fun split => .pure (.ok split)
        else
          (writeNode id page (leafNode type ((BTree.enter ColumnKey.compare
            (key, UInt32.ofNat position) l).map leafEntry) stop)).bind fun _ => .pure (.ok none) := by
    show (if ((l.map leafEntry).insertIdx (lowerBound (l.map leafEntry) key.1)
        (leafEntry (key, UInt32.ofNat position))).length = nodeOrder (leafNode type [] stop).flags then
      (splitLeaf id page (leafNode type ((l.map leafEntry).insertIdx
        (lowerBound (l.map leafEntry) key.1) (leafEntry (key, UInt32.ofNat position))) stop)).bind _
      else (writeNode id page (leafNode type ((l.map leafEntry).insertIdx
        (lowerBound (l.map leafEntry) key.1) (leafEntry (key, UInt32.ofNat position))) stop)).bind _) = _
    rw [hentries, leafNode_order, List.length_map]
  rw [hinsert]
  show PageM.within _ _ _ (Inserted s type [id] (BTree.cutLeaf (treeOrder type)
    (BTree.enter ColumnKey.compare (key, UInt32.ofNat position) l)) id _ stop) s
  generalize BTree.enter ColumnKey.compare (key, UInt32.ofNat position) l = l' at *
  have hroom : id < idLimit := hlimit id List.mem_cons_self
  by_cases hfull : l'.length = treeOrder type
  · obtain ⟨e, more, hdrop⟩ : ∃ e more, l'.drop (treeOrder type / 2) = e :: more :=
      List.exists_cons_of_length_pos (by rw [List.length_drop]; omega)
    rw [if_pos hfull, PageM.within_bind, BTree.cutLeaf_full hfull hdrop]
    refine PageM.within_mono (splitLeaf_spec hs hid hkeys hcount) ?_
    rintro r s' ⟨right, hright, hmoves, hleftPage, hrightPage, rfl⟩
    rw [← List.map_drop, hdrop, List.map_cons] at hrightPage ⊢
    rw [← List.map_take] at hleftPage
    refine ⟨[id] ++ [right], hmoves.perm (List.Perm.refl _) (List.Perm.swap ..), ?_, right,
      UInt32.ofNat right, [id], [right], ?_, hright, rfl, ⟨rfl, rfl, hleftPage⟩, rfl, rfl, hrightPage⟩
    · intro i hi
      rcases List.mem_cons.mp hi with rfl | hi
      · exact hroom
      · exact List.mem_singleton.mp hi ▸ hright
    · show Except.ok (some (e.1.1.kept (NODE_LEAF ||| keyBitsFor type), right)) = _
      rw [e.1.2.kept (Or.inl rfl)]
  · rw [if_neg hfull, BTree.cutLeaf_few hfull]
    refine ⟨hid, [id], .write (List.nodup_singleton id) (fun i hi => List.mem_singleton.mp hi ▸ hal)
      List.mem_cons_self _, hlimit, rfl, rfl, rfl,
      storeNode page (leafNode type (l'.map leafEntry) stop), by simp [Store.write], ?_⟩
    exact readNode_leafNode hkeys hcount

/-- An inner node takes what its child was cut into, and is cut if that fills it. -/
theorem settle_spec {h : Nat} {page : Bytes} {entries : List Entry} {last f stop : UInt32}
    {t : ColumnTree type (h + 1)} {ids : List Nat} (hs : s.Sound) (hid : (s.body id).isSome)
    (hlimit : ∀ i ∈ id :: ids, i < idLimit) (hnodup : (id :: ids).Nodup)
    (hal : ∀ i ∈ id :: ids, s.Allocated i)
    (ht : Family (Stored s type h) t entries last f stop ids)
    (hfew : t.1.length ≤ treeOrder type) :
    (if entries.length = treeOrder type then
      (splitInternal id page (innerNode type entries last)).bind fun split => .pure (.ok split)
    else (writeNode id page (innerNode type entries last)).bind fun _ => .pure (.ok none)).within
      zero idLimit (Inserted s type (id :: ids) (BTree.cutInner (treeOrder type) t) id f stop) s := by
  have hbounds := treeOrder_bounds type
  have hlength := ht.length
  have hcount : entries.length < 2 ^ 32 := by omega
  have hown : ∀ i ∈ ids, i ≠ id := fun i hi heq =>
    (List.nodup_cons.mp hnodup).1 (heq ▸ hi)
  by_cases hfull : t.1.length = treeOrder type
  · obtain ⟨old, back, hdrop⟩ : ∃ old back, t.1.drop (t.1.length / 2) = old :: back :=
      List.exists_cons_of_length_pos (by rw [List.length_drop]; omega)
    rw [if_pos (hlength.trans hfull), PageM.within_bind, BTree.cutInner_full hfull hdrop]
    refine PageM.within_mono (splitInternal_spec hs hid ht.keyed hcount) ?_
    rintro r s' ⟨right, hright, hmoves, hleftPage, hrightPage, rfl⟩
    obtain ⟨m, a, b, rfl, hleft, hrest, entry, hentry, hkey⟩ := ht.cut hdrop
    have hframe := hmoves.frame (F := a ++ b) hnodup hal
    have hbody : ∀ i ∈ a ++ b, s'.body i = s.body i := fun i hi =>
      (hmoves.keeps i (hal i (List.mem_cons_of_mem _ hi))
        fun hin => hown i hi (List.mem_singleton.mp hin)).2
    refine ⟨(id :: a) ++ (right :: b), hframe.perm (List.Perm.refl _) ?_, ?_, right, m, id :: a,
      right :: b, ?_, hright, rfl, ⟨_, _, a, rfl, hleftPage, ?_⟩, ⟨_, _, b, rfl, hrightPage, ?_⟩⟩
    · simp only [List.perm_iff_count, List.count_append, List.count_cons, List.count_nil]
      intro i
      omega
    · intro i hi
      rcases List.mem_append.mp hi with hi | hi
      · refine hlimit i ?_
        rcases List.mem_cons.mp hi with rfl | hi
        · exact List.mem_cons_self
        · exact List.mem_cons_of_mem _ (List.mem_append_left _ hi)
      · rcases List.mem_cons.mp hi with rfl | hi
        · exact hright
        · exact hlimit i (List.mem_cons_of_mem _ (List.mem_append_right _ hi))
    · show Except.ok (some ((innerNode type (entries.drop (entries.length / 2)) last).firstKey.kept
        (keyBitsFor type), right)) = _
      have hfirst : (innerNode type (entries.drop (entries.length / 2)) last).firstKey = old.2.1 := by
        unfold Node.firstKey innerNode
        cases hcut : entries.drop (entries.length / 2) with
        | nil =>
          rw [hcut] at hentry
          exact absurd hentry (by simp)
        | cons first more =>
          rw [hcut] at hentry
          rw [← hkey, ← Option.some.inj hentry]
      rw [hfirst, old.2.2.kept (Or.inr rfl)]
    · exact hleft.frame fun i hi => hbody i (List.mem_append_left _ hi)
    · exact hrest.frame fun i hi => hbody i (List.mem_append_right _ hi)
  · rw [if_neg (fun heq => hfull (hlength.symm.trans heq)), BTree.cutInner_few hfull]
    have hbody : ∀ i ∈ ids, (s.write id (storeNode page (innerNode type entries last))).body i
        = s.body i := fun i hi => by simp [Store.write, hown i hi]
    exact ⟨hid, id :: ids, .write hnodup hal List.mem_cons_self _, hlimit, rfl, entries, last, ids,
      rfl, ⟨storeNode page (innerNode type entries last), by simp [Store.write],
        readNode_innerNode ht.keyed hcount⟩, ht.frame hbody⟩

/-- The node that takes both halves has one more separator. -/
theorem length_eq_of_parts {h : Nat} (t : ColumnTree type (h + 1)) (key : ColumnKey type)
    (kid : ColumnTree type h) (separator : ColumnKey type) (right : ColumnTree type h) :
    (BTree.graft (BTree.below ColumnKey.compare key t.1) (BTree.notBelow ColumnKey.compare key t.1)
      t.2 kid separator right).1.length = t.1.length + 1 := by
  rw [BTree.length_graft, ← BTree.length_eq ColumnKey.compare key t]

/-- An insertion below a page that holds a tree makes of the pages what it makes of the tree. -/
theorem insertInto_spec {m : Nat} {key : ColumnKey type} {position : Nat} {h : Nat}
    {t : ColumnTree type h} {first stop : UInt32} {ids : List Nat} {fuel : Nat} (hs : s.Sound)
    (ht : Stored s type h t id first stop ids) (hnodup : ids.Nodup)
    (hlimit : ∀ i ∈ ids, i < idLimit) (hsorted : t.Sorted ColumnKey.compare)
    (hbalanced : t.Balanced m (treeOrder type)) (hfuel : h < fuel) :
    (insertInto fuel id key.1 position).within zero idLimit
      (Inserted s type ids (BTree.insert ColumnKey.compare (treeOrder type)
        (key, UInt32.ofNat position) t) id first stop) s := by
  induction h generalizing id first stop ids fuel with
  | zero =>
    obtain ⟨fuel, rfl⟩ := Nat.exists_eq_succ_of_ne_zero (Nat.ne_of_gt hfuel)
    exact insertLeaf_spec hs ht hlimit hsorted hbalanced
  | succ h ih =>
    obtain ⟨fuel, rfl⟩ := Nat.exists_eq_succ_of_ne_zero (Nat.ne_of_gt (Nat.zero_lt_of_lt hfuel))
    have hal : ∀ i ∈ ids, s.Allocated i := fun i hi => hs.allocated (ht.isSome hi)
    obtain ⟨entries, last, below, rfl, ⟨page, hpage, hnode⟩, hfamily⟩ := ht
    have hbound : lowerBound entries key.1
        = (BTree.below ColumnKey.compare key t.1).length := by
      obtain ⟨middle, a, b, -, hkids, -⟩ := hfamily
      exact lowerBound_inner key hsorted hkids
    have hsplit : Family (Stored s type h) (BTree.below ColumnKey.compare key t.1
        ++ BTree.notBelow ColumnKey.compare key t.1, t.2) entries last first stop below := by
      rw [BTree.below_append_notBelow]
      exact hfamily
    obtain ⟨f, l, before, own, behind, rfl, hole, hchild⟩ := family_hole hsplit
    have hpick := hbalanced.2 _ (BTree.pick_mem ColumnKey.compare key t)
    have hnodupKids := (List.nodup_cons.mp hnodup).2
    have hnodupOwn : own.Nodup :=
      (List.nodup_append.mp (List.nodup_append.mp hnodupKids).2.1).1
    have hmemOwn : ∀ i ∈ own, i ∈ id :: (before ++ (own ++ behind)) := fun i hi =>
      List.mem_cons_of_mem _ (List.mem_append_right _ (List.mem_append_left _ hi))
    rw [insertInto_within hpage, hnode, if_neg (by rw [innerNode_isLeaf]; exact Bool.false_ne_true),
      PageM.within_bind]
    have hlower : lowerBound (innerNode type entries last).entries key.1
        = (BTree.below ColumnKey.compare key t.1).length := hbound
    rw [hlower]
    have hdown := @ih _ _ _ _ _ fuel hchild hnodupOwn (fun i hi => hlimit i (hmemOwn i hi))
      hsorted.pick hpick.2 (by omega)
    refine PageM.within_mono (PageM.within_sound hdown hs) ?_
    rintro r s₁ ⟨⟨new, hmoves, hnew, hgrown⟩, hs₁, -⟩
    -- the other pages of the tree lie apart, and keep what they held
    have hperm : (own ++ id :: (before ++ behind)).Perm (id :: (before ++ (own ++ behind))) := by
      simp only [List.perm_iff_count, List.count_append, List.count_cons]
      intro i
      omega
    have hnodupAll : (own ++ id :: (before ++ behind)).Nodup := hperm.nodup_iff.mpr hnodup
    have hframe : Store.Moves s s₁ (id :: (before ++ (own ++ behind)))
        (new ++ id :: (before ++ behind)) :=
      (hmoves.frame hnodupAll fun i hi => hal i (hperm.mem_iff.mp hi)).perm hperm (List.Perm.refl _)
    have hkeep : ∀ i ∈ id :: (before ++ behind), s₁.body i = s.body i := fun i hi =>
      (hmoves.keeps i (hal i (hperm.mem_iff.mp (List.mem_append_right _ hi)))
        fun hin => (List.nodup_append.mp hnodupAll).2.2 i hin i hi rfl).2
    have hpage₁ : s₁.body id = some page := (hkeep id List.mem_cons_self).trans hpage
    have hole₁ : Hole (Stored s₁ type h) (BTree.below ColumnKey.compare key t.1)
        (BTree.notBelow ColumnKey.compare key t.1) t.2 (innerNode type entries last) first f l stop
        before behind :=
      hole.imp fun _ _ _ _ _ hown hkid => hkid.frame fun i hi =>
        hkeep i (List.mem_cons_of_mem _ (hown i hi))
    have hpermNew : ∀ {new' : List Nat}, new'.Perm new →
        (new ++ id :: (before ++ behind)).Perm (id :: (before ++ (new' ++ behind))) := by
      intro new' hnew'
      rw [List.perm_iff_count] at hnew'
      simp only [List.perm_iff_count, List.count_append, List.count_cons]
      intro i
      have hi := hnew' i
      omega
    have hlimitNew : ∀ i ∈ new ++ id :: (before ++ behind), i < idLimit := by
      intro i hi
      rcases List.mem_append.mp hi with hi | hi
      · exact hnew i hi
      · exact hlimit i (hperm.mem_iff.mp (List.mem_append_right _ hi))
    rcases BTree.insert_cases ColumnKey.compare (treeOrder type) (key, UInt32.ofNat position) t with
      ⟨kid, hkid, heq⟩ | ⟨kid, separator, right, hkid, heq⟩
    · rw [hkid] at hgrown
      obtain ⟨rfl, hstored⟩ := hgrown
      rw [heq]
      refine ⟨id :: (before ++ (new ++ behind)), hframe.perm (List.Perm.refl _)
        (hpermNew (List.Perm.refl _)), fun i hi => ?_, rfl, entries, last, _, rfl,
        ⟨page, hpage₁, hnode⟩, hole₁.fill hstored⟩
      exact hlimitNew i ((hpermNew (List.Perm.refl _)).mem_iff.mpr hi)
    · rw [hkid] at hgrown
      obtain ⟨rightId, m, a, b, rfl, hrightId, rfl, hleft, hright⟩ := hgrown
      have hnumber : rightId < 2 ^ 32 := Nat.lt_trans hrightId (by decide)
      have hgraft : Family (Stored s₁ type h)
          (BTree.graft (BTree.below ColumnKey.compare key t.1)
            (BTree.notBelow ColumnKey.compare key t.1) t.2 kid separator right)
          _ _ first stop (before ++ ((a ++ b) ++ behind)) := hole₁.graft hleft hright hnumber
      have hpermCut := hpermNew (List.Perm.refl (a ++ b))
      have hmovesCut := hframe.perm (List.Perm.refl _) hpermCut
      have hlengthCut := length_eq_of_parts t key kid separator right
      have hid₁ : (s₁.body id).isSome := by
        rw [hpage₁]
        rfl
      have hsettled := @settle_spec type zero _ _ _ page _ _ _ _ _ _ hs₁ hid₁
        (fun i hi => hlimitNew i (hpermCut.mem_iff.mpr hi)) hmovesCut.nodup hmovesCut.allocated hgraft
        (by rw [hlengthCut]; exact hbalanced.1)
      rw [heq]
      refine PageM.within_mono ?_ fun r s' hr => Inserted.after hr hmovesCut
      show PageM.within zero idLimit
        (if ((innerNode type entries last).adopt _ separator.1 rightId).entries.length
            = nodeOrder ((innerNode type entries last).adopt _ separator.1 rightId).flags then
          (splitInternal id page ((innerNode type entries last).adopt _ separator.1 rightId)).bind _
        else (writeNode id page ((innerNode type entries last).adopt _ separator.1 rightId)).bind _)
        _ s₁
      rw [adopt_innerNode]
      exact hsettled

/-! ### The index -/

/-- A page is taken and written twice. -/
theorem moves_fresh {ids : List Nat} (hs : s.Sound) (hnodup : ids.Nodup)
    (hal : ∀ i ∈ ids, s.Allocated i) (b₁ b₂ : Bytes) :
    Store.Moves s (((s.alloc zero).write s.nextId b₁).write s.nextId b₂) ids (s.nextId :: ids) ∧
      (((s.alloc zero).write s.nextId b₁).write s.nextId b₂).body s.nextId = some b₂ := by
  have halloc : Store.Moves s (s.alloc zero) ids (s.nextId :: ids) := .alloc hs zero hnodup hal
  have hfirst := halloc.trans (.write halloc.nodup halloc.allocated List.mem_cons_self b₁)
  exact ⟨hfirst.trans (.write hfirst.nodup hfirst.allocated List.mem_cons_self b₂),
    by simp [Store.write]⟩

variable {index : Index} {t : BTree.Root (ColumnKey type) UInt32} {ids : List Nat}

/-- The pages of an index are allocated. -/
theorem IndexStored.allocated (h : IndexStored s type index t ids) (hs : s.Sound) :
    ∀ i ∈ ids, s.Allocated i := by
  obtain ⟨first, hstored⟩ := h.pages
  exact fun i hi => hs.allocated (hstored.isSome hi)

/-- Nothing that is done to other pages matters to an index. -/
theorem IndexStored.frame {s' : Store Bytes} (h : IndexStored s type index t ids)
    (hbody : ∀ i ∈ ids, s'.body i = s.body i) : IndexStored s' type index t ids := by
  obtain ⟨first, hstored⟩ := h.pages
  exact ⟨h.lawful, ⟨first, hstored.frame hbody⟩, h.nodup, h.inRange, h.count⟩

/-- The walk down has enough fuel. -/
theorem IndexStored.height (h : IndexStored s type index t ids) (hs : s.Sound) : t.1 < s.count := by
  obtain ⟨first, hstored⟩ := h.pages
  exact Nat.lt_of_lt_of_le hstored.height
    (length_le_count hs h.nodup fun i hi => hstored.isSome hi)

/-- What an insertion leaves of the rest of an index. -/
def Index.SameColumn (index index' : Index) : Prop :=
  index'.name = index.name ∧ index'.table = index.table ∧ index'.column = index.column ∧
    index'.slot = index.slot

/-- An index that keeps its column twice keeps it. -/
theorem Index.SameColumn.trans {index₁ index₂ : Index} (h : index.SameColumn index₁)
    (h' : index₁.SameColumn index₂) : index.SameColumn index₂ :=
  ⟨h'.1.trans h.1, h'.2.1.trans h.2.1, h'.2.2.1.trans h.2.2.1, h'.2.2.2.trans h.2.2.2⟩

/-- An insertion into an index: the pages of its tree hold the tree with the key in it. -/
theorem indexInsert_spec {value : Value} {position : Nat} (hs : s.Sound)
    (h : IndexStored s type index t ids) (hvalue : value.type = type) (hnull : value.isNull = false) :
    (indexInsert value position index).within zero idLimit
      (fun r s' => r.1 = .ok () ∧ index.SameColumn r.2 ∧ ∃ new, Store.Moves s s' ids new ∧
        IndexStored s' type r.2 (BTree.insertRoot ColumnKey.compare (treeOrder type)
          (⟨makeKey value, value, hvalue, rfl⟩, UInt32.ofNat position) t) new) s := by
  subst hvalue
  obtain ⟨first, hstored⟩ := h.pages
  have hbounds := treeOrder_bounds value.type
  have hgrow := h.lawful.insertRoot (e := (⟨makeKey value, value, rfl, rfl⟩, UInt32.ofNat position))
    (treeMinimum_lt value.type) (by omega)
  have hdown := @insertInto_spec value.type zero _ _ _ ⟨makeKey value, value, rfl, rfl⟩ position _ _ _ _
    _ s.count hs hstored h.nodup h.inRange h.lawful.sorted h.lawful.balanced (h.height hs)
  unfold indexInsert
  rw [if_neg (by rw [hnull]; exact Bool.false_ne_true)]
  show PageM.within _ _ (PageM.bind (PageM.bind (insertInto s.count index.rootPage (makeKey value)
    position) _) _) _ s
  rw [PageM.within_bind, PageM.within_bind]
  refine PageM.within_mono (PageM.within_sound hdown hs) ?_
  rintro r s₁ ⟨⟨new, hmoves, hnew, hgrown⟩, hs₁, -⟩
  have hcount : index.keyCount + 1 = (BTree.insertRoot ColumnKey.compare (treeOrder value.type)
      (⟨makeKey value, value, rfl, rfl⟩, UInt32.ofNat position) t).2.entries.length := by
    rw [hgrow.2, BTree.length_enter, h.count]
    rfl
  rcases hcut : BTree.insert ColumnKey.compare (treeOrder value.type)
    (⟨makeKey value, value, rfl, rfl⟩, UInt32.ofNat position) t.2 with ⟨kid, _ | ⟨separator, right⟩⟩
  · rw [BTree.insertRoot_uncut hcut] at hgrow hcount ⊢
    rw [hcut] at hgrown
    obtain ⟨rfl, hstored'⟩ := hgrown
    exact ⟨rfl, ⟨rfl, rfl, rfl, rfl⟩, new, hmoves, hgrow.1, ⟨first, hstored'⟩, hmoves.nodup, hnew,
      hcount⟩
  · rw [BTree.insertRoot_cut hcut] at hgrow hcount ⊢
    rw [hcut] at hgrown
    obtain ⟨rightId, middle, a, b, rfl, hrightId, rfl, hleft, hright⟩ := hgrown
    -- the root split, and the two halves get a node above them
    rw [emptyNode_inner]
    intro hlimit
    obtain ⟨hfresh, hroot⟩ := @moves_fresh zero s₁ (a ++ b) hs₁ hmoves.nodup hmoves.allocated
      (storeNode (fun _ => 0) (emptyNode false (keyBitsFor value.type)))
      (storeNode (fun _ => 0) (innerNode value.type
        [{ payload := UInt32.ofNat index.rootPage, key := separator.1 }] (UInt32.ofNat rightId)))
    have hrootPage : index.rootPage < idLimit := h.inRange _ hstored.root_mem
    have hbody : ∀ i ∈ a ++ b, ((((s₁.alloc zero).write s₁.nextId
        (storeNode (fun _ => 0) (emptyNode false (keyBitsFor value.type)))).write s₁.nextId
        (storeNode (fun _ => 0) (innerNode value.type
          [{ payload := UInt32.ofNat index.rootPage, key := separator.1 }] (UInt32.ofNat rightId)))).body
            i) = s₁.body i := by
      intro i hi
      have hne : i ≠ s₁.nextId := fun heq =>
        (hs₁.nextId_fresh zero).1 (heq ▸ hmoves.allocated i hi)
      simp [Store.write, Store.alloc, hne]
    have hone : [Entry.mk (UInt32.ofNat index.rootPage) separator.1].length < 2 ^ 32 := by
      rw [List.length_singleton]
      decide
    refine ⟨by simp [Store.alloc], by simp [Store.write], rfl, ⟨rfl, rfl, rfl, rfl⟩,
      s₁.nextId :: (a ++ b), hmoves.trans hfresh, hgrow.1, ⟨first, _, UInt32.ofNat rightId, a ++ b, rfl,
        ⟨_, hroot, readNode_innerNode ?_ hone⟩, middle, a, b, rfl, ⟨_, [], middle, a, [], rfl,
        rfl, (List.append_nil a).symm, ?_, rfl, rfl, rfl⟩, ?_⟩, hfresh.nodup, ?_, hcount⟩
    · intro entry hentry
      rw [List.mem_singleton.mp hentry]
      exact separator.2
    · show Stored _ value.type t.1 kid (UInt32.ofNat index.rootPage).toNat first middle a
      rw [ofNat_toNat hrootPage]
      exact hleft.frame fun i hi => hbody i (List.mem_append_left _ hi)
    · show Stored _ value.type t.1 right (UInt32.ofNat rightId).toNat middle INVALID_PAGE b
      rw [ofNat_toNat hrightId]
      exact hright.frame fun i hi => hbody i (List.mem_append_right _ hi)
    · intro i hi
      rcases List.mem_cons.mp hi with rfl | hi
      · exact hlimit
      · exact hnew i hi

end

end DatabaseEngine
