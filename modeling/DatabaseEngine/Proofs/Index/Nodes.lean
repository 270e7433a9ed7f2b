import DatabaseEngine.Spec.Tree
import DatabaseEngine.Proofs.Index.Keys

/-!
# `DatabaseEngine.Proofs.Index.Nodes`: a node in its page

A key is cut to the width of its node, which is the width of the keys of the column. So a node that
is stored is the node that is read, and the search in it finds the place of a key among keys that
are in order.

* `readNode_storeNode`: the round trip, for any node.
* `readNode_leafNode`, `readNode_innerNode`: the nodes of a column are read as they were stored.
* `lowerBound_eq`: the search is the walk past everything that is below the key.
* `node_fits`: the entries of a node that is not overfull end before the trailer of the page.
-/

set_option autoImplicit false

namespace DatabaseEngine

open Library

/-! ### Entries -/

/-- A key is written in as many bytes as the node's keys are wide. -/
theorem StoredKey.bytes_length (key : StoredKey) (width : Nat) :
    (key.bytes width).length = width := by
  unfold StoredKey.bytes
  rw [List.length_take, List.length_append, List.length_replicate]
  omega

/-- An entry is written in as many bytes as its node says. -/
theorem entryBytes_length (flags : UInt32) (entry : Entry) :
    (entryBytes flags entry).length = nodeEntry flags := by
  unfold entryBytes nodeEntry
  by_cases htext : flags &&& NODE_TEXT = 0
  · by_cases hfloat : flags &&& NODE_FLOAT = 0
    · simp [htext, hfloat, StoredKey.bytes_length, INDEX_ENTRY_INT]
    · simp [htext, hfloat, StoredKey.bytes_length, INDEX_ENTRY_FLOAT]
  · simp [htext, StoredKey.bytes_length, INDEX_ENTRY_TEXT, INDEX_KEY_MAX]

section
variable {page : Bytes} {n : Nat}

/-- The bytes of a key, where they lie. -/
theorem bytesAt_key {key : StoredKey} {width : Nat} (h : HoldsAt page n (key.bytes width)) :
    bytesAt page n width = key.bytes width := by
  have hbytes := h.bytesAt
  rwa [StoredKey.bytes_length] at hbytes

/-- An entry is read where it was written. -/
theorem readEntry_entryBytes {flags : UInt32} {entry : Entry}
    (h : HoldsAt page n (entryBytes flags entry)) :
    readEntry flags page n = { entry with key := entry.key.kept flags } := by
  unfold entryBytes at h
  unfold readEntry StoredKey.kept
  by_cases hnumber : flags &&& NODE_FLOAT ≠ 0 ∧ flags &&& NODE_TEXT = 0
  · rw [if_pos hnumber] at h
    obtain ⟨hpayload, hkey⟩ := holdsAt_append.mp h
    rw [le32_length] at hkey
    rw [if_pos hnumber, if_pos hnumber, hpayload.u32At, bytesAt_key hkey]
  · rw [if_neg hnumber] at h
    rw [if_neg hnumber, if_neg hnumber]
    by_cases htext : flags &&& NODE_TEXT = 0
    · rw [if_pos htext] at h
      obtain ⟨hpayload, hkey⟩ := holdsAt_append.mp h
      rw [le32_length] at hkey
      rw [if_pos htext, if_pos htext, hpayload.u32At, bytesAt_key hkey]
    · rw [if_neg htext] at h
      obtain ⟨hfront, hkey⟩ := holdsAt_append.mp h
      obtain ⟨hfront, hheader⟩ := holdsAt_append.mp hfront
      obtain ⟨hpayload, hlength⟩ := holdsAt_append.mp hfront
      simp only [List.length_append, List.length_cons, List.length_nil, le32_length]
        at hkey hheader hlength
      obtain ⟨htype, hheader⟩ := holdsAt_cons.mp hheader
      obtain ⟨hstored, -⟩ := holdsAt_cons.mp hheader
      rw [if_neg htext, if_neg htext, hpayload.u32At, hlength.u32At, bytesAt_key hkey, htype,
        hstored]

end

/-! ### Nodes -/

/-- What is read where a node was stored. -/
def Node.kept (node : Node) : Node :=
  { node with
    entries := node.entries.map fun entry => { entry with key := entry.key.kept node.flags } }

/-- Where the entries of a node lie. -/
theorem holdsAt_entries {block : Bytes} {flags : UInt32} {n : Nat} {entries : List Entry}
    (h : HoldsAt block n (entries.flatMap (entryBytes flags))) {i : Nat} {entry : Entry}
    (hi : entries[i]? = some entry) :
    HoldsAt block (n + i * nodeEntry flags) (entryBytes flags entry) := by
  induction entries generalizing n i with
  | nil => exact absurd hi (by simp)
  | cons first rest ih =>
    rw [List.flatMap_cons] at h
    obtain ⟨hfirst, hrest⟩ := holdsAt_append.mp h
    cases i with
    | zero =>
      obtain rfl : first = entry := Option.some.inj hi
      rwa [Nat.zero_mul]
    | succ i =>
      have hnext := ih hrest hi
      rwa [entryBytes_length, Nat.add_assoc, Nat.add_comm (nodeEntry flags),
        ← Nat.succ_mul] at hnext

/-- A node is read back as what its entries keep. -/
theorem readNode_storeNode {page : Bytes} {node : Node} (hcount : node.entries.length < 2 ^ 32) :
    readNode (storeNode page node) = node.kept := by
  have hstored := @holdsAt_putBytesAt page 0 (le32 node.flags
    ++ le32 (UInt32.ofNat node.entries.length) ++ le32 node.nextLeaf
    ++ le32 node.lastChild ++ node.entries.flatMap (entryBytes node.flags))
  obtain ⟨hheader, hentries⟩ := holdsAt_append.mp hstored
  obtain ⟨hheader, hlast⟩ := holdsAt_append.mp hheader
  obtain ⟨hheader, hnext⟩ := holdsAt_append.mp hheader
  obtain ⟨hflags, hlength⟩ := holdsAt_append.mp hheader
  simp only [List.length_append, le32_length] at hentries hlast hnext hlength
  unfold readNode storeNode Node.kept
  rw [hflags.u32At, hlength.u32At, hnext.u32At, hlast.u32At, UInt32.toNat_ofNat_of_lt' hcount,
    Node.mk.injEq]
  refine ⟨rfl, List.ext_getElem (by simp) fun i hi hi' => ?_, rfl, rfl⟩
  have hlt : i < node.entries.length := by simpa using hi
  simp only [List.getElem_map, List.getElem_range]
  exact readEntry_entryBytes (holdsAt_entries hentries (List.getElem?_eq_getElem hlt))

section
variable {type : ColType}

/-- The keys of a column lose nothing in its nodes. -/
theorem Keyed.kept {key : StoredKey} (h : Keyed type key) {flags : UInt32}
    (hflags : flags = NODE_LEAF ||| keyBitsFor type ∨ flags = keyBitsFor type) :
    key.kept flags = key := by
  obtain ⟨value, rfl, rfl⟩ := h
  -- what is as long as the width is not cut
  have hbytes : ∀ {bytes : List UInt8} {width : Nat}, bytes.length = width →
      (bytes ++ List.replicate width 0).take width = bytes := by
    intro bytes width hlength
    rw [← hlength, List.take_left']
    rfl
  have htext : ((value.text ++ List.replicate INDEX_KEY_MAX 0).take INDEX_KEY_MAX).length
      = INDEX_KEY_MAX := by
    rw [List.length_take, List.length_append, List.length_replicate]
    omega
  unfold makeKey StoredKey.kept StoredKey.bytes
  cases htype : value.type with
  | TYPE_TEXT =>
    rw [htype] at hflags
    have hbits : ¬(flags &&& NODE_FLOAT ≠ 0 ∧ flags &&& NODE_TEXT = 0) ∧
        flags &&& NODE_TEXT ≠ 0 := by
      rcases hflags with rfl | rfl <;> decide
    rw [if_neg hbits.1, if_neg hbits.2]
    dsimp only
    rw [hbytes htext]
  | TYPE_FLOAT =>
    rw [htype] at hflags
    have hbits : flags &&& NODE_FLOAT ≠ 0 ∧ flags &&& NODE_TEXT = 0 := by
      rcases hflags with rfl | rfl <;> decide
    rw [if_pos hbits]
    dsimp only
    rw [hbytes (le64_length _)]
  | TYPE_INT =>
    rw [htype] at hflags
    have hbits : ¬(flags &&& NODE_FLOAT ≠ 0 ∧ flags &&& NODE_TEXT = 0) ∧
        flags &&& NODE_TEXT = 0 := by
      rcases hflags with rfl | rfl <;> decide
    rw [if_neg hbits.1, if_pos hbits.2]
    dsimp only
    rw [hbytes (le32_length _)]
  | TYPE_DATE =>
    rw [htype] at hflags
    have hbits : ¬(flags &&& NODE_FLOAT ≠ 0 ∧ flags &&& NODE_TEXT = 0) ∧
        flags &&& NODE_TEXT = 0 := by
      rcases hflags with rfl | rfl <;> decide
    rw [if_neg hbits.1, if_pos hbits.2]
    dsimp only
    rw [hbytes (le32_length _)]

variable {page : Bytes} {entries : List Entry} {next last : UInt32}

/-- A leaf whose keys are of its column is read back whole. -/
theorem readNode_leafNode (hkeys : ∀ entry ∈ entries, Keyed type entry.key)
    (hcount : entries.length < 2 ^ 32) :
    readNode (storeNode page (leafNode type entries next)) = leafNode type entries next := by
  rw [readNode_storeNode hcount]
  refine congrArg (fun entries => leafNode type entries next)
    ((List.map_congr_left fun entry hentry => ?_).trans (List.map_id _))
  show { entry with key := entry.key.kept (NODE_LEAF ||| keyBitsFor type) } = entry
  rw [(hkeys entry hentry).kept (Or.inl rfl)]

/-- An inner node whose keys are of its column is read back whole. -/
theorem readNode_innerNode (hkeys : ∀ entry ∈ entries, Keyed type entry.key)
    (hcount : entries.length < 2 ^ 32) :
    readNode (storeNode page (innerNode type entries last)) = innerNode type entries last := by
  rw [readNode_storeNode hcount]
  refine congrArg (fun entries => innerNode type entries last)
    ((List.map_congr_left fun entry hentry => ?_).trans (List.map_id _))
  show { entry with key := entry.key.kept (keyBitsFor type) } = entry
  rw [(hkeys entry hentry).kept (Or.inr rfl)]

/-! ### What the flags say -/

/-- The flags of leaves and inner nodes say which they are and how wide their keys are. -/
theorem nodeFlags (type : ColType) :
    (NODE_LEAF ||| keyBitsFor type) &&& NODE_LEAF ≠ 0 ∧ keyBitsFor type &&& NODE_LEAF = 0 ∧
      (NODE_LEAF ||| keyBitsFor type) &&& NODE_KEY = keyBitsFor type ∧
      keyBitsFor type &&& NODE_KEY = keyBitsFor type ∧
      nodeOrder (NODE_LEAF ||| keyBitsFor type) = treeOrder type := by
  cases type <;> decide

/-- A leaf's flags say it is one. -/
theorem leafNode_isLeaf : (leafNode type entries next).isLeaf = true :=
  bne_iff_ne.mpr (nodeFlags type).1

/-- An inner node's flags say it is none. -/
theorem innerNode_isLeaf : (innerNode type entries last).isLeaf = false :=
  bne_eq_false_iff_eq.mpr (nodeFlags type).2.1

/-- A leaf's flags hold the width of its keys. -/
theorem leafNode_keyBits : (leafNode type entries next).keyBits = keyBitsFor type :=
  (nodeFlags type).2.2.1

/-- An inner node's flags hold the width of its keys. -/
theorem innerNode_keyBits : (innerNode type entries last).keyBits = keyBitsFor type :=
  (nodeFlags type).2.2.2.1

/-- A leaf's flags give the order of the tree. -/
theorem leafNode_order : nodeOrder (leafNode type entries next).flags = treeOrder type :=
  (nodeFlags type).2.2.2.2

/-- An empty node with the leaf's flag is a leaf without entries. -/
theorem emptyNode_leaf (type : ColType) :
    emptyNode true (keyBitsFor type) = leafNode type [] INVALID_PAGE := rfl

/-- An empty node without it is an inner node without entries. -/
theorem emptyNode_inner (type : ColType) :
    emptyNode false (keyBitsFor type) = innerNode type [] INVALID_PAGE := by
  unfold emptyNode innerNode
  rw [if_neg Bool.false_ne_true, UInt32.zero_or]

/-- There is room for three entries and more in every node, and not for too many to count. -/
theorem treeOrder_bounds (type : ColType) : 3 < treeOrder type ∧ treeOrder type < 2 ^ 32 := by
  cases type <;> decide

/-- Twice the least number of entries is below the order. -/
theorem treeMinimum_lt (type : ColType) : 2 * treeMinimum type < treeOrder type := by
  have hbounds := treeOrder_bounds type
  unfold treeMinimum
  omega

/-- The entries of a node that is not overfull end before the trailer of the page. -/
theorem node_fits {flags : UInt32} {n : Nat} (h : n ≤ nodeOrder flags) :
    INDEX_HEADER + n * nodeEntry flags ≤ PAGE_USABLE := by
  have hmul : n * nodeEntry flags ≤ PAGE_USABLE - INDEX_HEADER :=
    (Nat.mul_le_mul_right _ h).trans (Nat.div_mul_le_self ..)
  have hheader : INDEX_HEADER ≤ PAGE_USABLE := by decide
  omega

end

/-! ### Searching -/

section
variable {entries : List Entry} {key : StoredKey}

/-- Everything below the bound is below the key and nothing from it on is; the interval between
`low` and `high` is what is not known yet. -/
theorem lowerBoundLoop_spec
    (hsorted : entries.Pairwise fun a b => compareKeys b.key key = .lt → compareKeys a.key key = .lt)
    (fuel : Nat) {low high : Nat} (hle : low ≤ high) (hhigh : high ≤ entries.length)
    (hfuel : high - low ≤ fuel)
    (hbelow : ∀ i, i < low → ∀ e, entries[i]? = some e → compareKeys e.key key = .lt)
    (habove : ∀ i, high ≤ i → ∀ e, entries[i]? = some e → compareKeys e.key key ≠ .lt) :
    lowerBoundLoop entries key fuel low high ≤ entries.length ∧
      (∀ i, i < lowerBoundLoop entries key fuel low high →
        ∀ e, entries[i]? = some e → compareKeys e.key key = .lt) ∧
      ∀ i, lowerBoundLoop entries key fuel low high ≤ i →
        ∀ e, entries[i]? = some e → compareKeys e.key key ≠ .lt := by
  induction fuel generalizing low high with
  | zero =>
    obtain rfl : low = high := by omega
    exact ⟨hhigh, hbelow, habove⟩
  | succ fuel ih =>
    by_cases hlt : low < high
    · have hmiddle : low + (high - low) / 2 < entries.length := by omega
      obtain ⟨e, he⟩ : ∃ e, entries[low + (high - low) / 2]? = some e :=
        ⟨_, List.getElem?_eq_getElem hmiddle⟩
      rw [lowerBoundLoop, if_pos hlt]
      dsimp only
      rw [he]
      dsimp only
      split
      · -- the middle is below the key, and so is all before it
        rename_i hkey
        refine ih (by omega) hhigh (by omega) (fun i hi e' he' => ?_) habove
        rcases Nat.lt_or_eq_of_le (Nat.le_of_lt_succ hi) with hlt | rfl
        · obtain ⟨hi, rfl⟩ := List.getElem?_eq_some_iff.mp he'
          obtain ⟨hm, rfl⟩ := List.getElem?_eq_some_iff.mp he
          exact List.pairwise_iff_getElem.mp hsorted i _ hi hm hlt hkey
        · rw [he] at he'
          rwa [← Option.some.inj he']
      · -- it is not, and neither is anything behind it
        rename_i hkey
        refine ih (by omega) (by omega) (by omega) hbelow fun i hi e' he' hlt' => ?_
        rcases Nat.lt_or_eq_of_le hi with hlt | rfl
        · obtain ⟨hi, rfl⟩ := List.getElem?_eq_some_iff.mp he'
          obtain ⟨hm, rfl⟩ := List.getElem?_eq_some_iff.mp he
          exact hkey (List.pairwise_iff_getElem.mp hsorted _ i hm hi hlt hlt')
        · rw [he] at he'
          exact hkey (by rwa [← Option.some.inj he'] at hlt')
    · obtain rfl : low = high := by omega
      rw [lowerBoundLoop, if_neg hlt]
      exact ⟨hhigh, hbelow, habove⟩

/-- Where the test changes once, the walk ends there. -/
theorem length_takeWhile_eq {α : Type} {p : α → Bool} {l : List α} {n : Nat} (hn : n ≤ l.length)
    (hbelow : ∀ i, i < n → ∀ x, l[i]? = some x → p x = true)
    (habove : ∀ x, l[n]? = some x → p x = false) : (l.takeWhile p).length = n := by
  induction l generalizing n with
  | nil =>
    obtain rfl : n = 0 := Nat.le_zero.mp hn
    rfl
  | cons x l ih =>
    cases n with
    | zero => rw [List.takeWhile_cons_of_neg (by simp [habove x rfl]), List.length_nil]
    | succ n =>
      rw [List.takeWhile_cons_of_pos (hbelow 0 (Nat.succ_pos n) x rfl), List.length_cons,
        ih (Nat.le_of_succ_le_succ hn) (fun i hi => hbelow (i + 1) (Nat.succ_lt_succ hi)) habove]

/-- The binary search ends where a walk past everything below the key ends. -/
theorem lowerBound_eq
    (hsorted : entries.Pairwise fun a b =>
      compareKeys b.key key = .lt → compareKeys a.key key = .lt) :
    lowerBound entries key
      = (entries.takeWhile fun entry => compareKeys entry.key key = .lt).length := by
  obtain ⟨hle, hbelow, habove⟩ := lowerBoundLoop_spec hsorted entries.length
    (Nat.zero_le entries.length) (Nat.le_refl _) (by omega) (fun i hi => absurd hi (by omega))
    fun i hi e he => by
      rw [List.getElem?_eq_none hi] at he
      exact absurd he (by simp)
  refine (length_takeWhile_eq hle (fun i hi e he => ?_) fun e he => ?_).symm
  · exact decide_eq_true (hbelow i hi e he)
  · exact decide_eq_false (habove _ (Nat.le_refl _) e he)

end

end DatabaseEngine
