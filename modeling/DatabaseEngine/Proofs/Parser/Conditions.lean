import DatabaseEngine.Library.Results
import DatabaseEngine.Proofs.Parser.Trees

/-!
# `DatabaseEngine.Proofs.Parser.Conditions`: what a reader of conditions leaves

* `TreeRead`: the nodes that were added are one tree, every comparison among them is one of its
  leaves, and the pool has grown by the subqueries that they name.
* `TreeRead.leaf`, `TreeRead.not`, `TreeRead.branch`, `TreeRead.set`: the steps of a reader.
* `parseComparison_tree`: the reader of a comparison.
* `ReadRule.parse`: what holds of comparisons, and of what is put on top, holds of conditions.
-/

set_option autoImplicit false

namespace DatabaseEngine

open Library

variable {P : ParsedSelect → Prop}

/-! ### What is read -/

/-- A comparison with a subquery has no other right side. -/
def Predicate.Single (compare : Predicate) : Prop := 0 ≤ compare.subquery → compare.right < 0

/-- The nodes of a condition while it is being read. -/
structure ConditionRead.Sound (cond : ConditionRead) : Prop where
  rising : Rising cond.nodes
  single : ∀ node ∈ cond.nodes, node.compare.Single
  few : cond.nodes.length ≤ MAX_CONDITION_NODES
  slots : cond.pool.length ≤ MAX_SUBQUERIES

/-- There is a comparison at a position. -/
def IsLeaf (nodes : List ConditionNode) (i : Nat) : Prop :=
  ∃ node, nodes[i]? = some node ∧ node.kind = .COND_COMPARE

/-- A subquery was read into the next slot. -/
def ReadsSubqueries (P : ParsedSelect → Prop) (subquery : SubqueryRead) : Prop :=
  ∀ tokens pool slot rest pool', pool.length ≤ MAX_SUBQUERIES →
    subquery tokens pool = .ok (slot, rest, pool') →
      slot = Int32.ofNat pool.length ∧ pool.length < MAX_SUBQUERIES ∧
        pool'.length ≤ MAX_SUBQUERIES ∧ ∃ added, Grows P pool pool' [pool.length] added

/-- A tree was read behind what was there. -/
structure TreeRead (P : ParsedSelect → Prop) (start : ConditionRead) (root : Int32)
    (cond : ConditionRead) : Prop where
  sound : cond.Sound
  nodes : start.nodes <+: cond.nodes
  inside : Below root cond.nodes.length
  covered : ∀ i, start.nodes.length ≤ i → IsLeaf cond.nodes i → i ∈ leaves cond.nodes root
  pool : ∃ added, Grows P start.pool cond.pool
    ((cond.nodes.drop start.nodes.length).flatMap ConditionNode.refs) added

/-- A new node stands behind the others, if there was room for it. -/
theorem newCondition_ok {node : ConditionNode} {cond cond' : ConditionRead} {i : Int32}
    (hsound : cond.Sound) (h : newCondition node cond = .ok (i, cond')) :
    cond.nodes.length < MAX_CONDITION_NODES ∧ i = Int32.ofNat cond.nodes.length ∧
      cond' = { cond with nodes := cond.nodes ++ [node] } := by
  unfold newCondition at h
  have hfew := hsound.few
  split at h
  · exact absurd h (by simp)
  · obtain ⟨rfl, rfl⟩ := Prod.mk.inj (Except.ok.inj h)
    exact ⟨by omega, rfl, rfl⟩

/-- The index of the next node lies below the next length. -/
theorem below_next {n : Nat} (h : n < MAX_CONDITION_NODES) :
    Below (Int32.ofNat n) (n + 1) ∧ (Int32.ofNat n).toInt.toNat = n := by
  have hmax : MAX_CONDITION_NODES = 32 := rfl
  obtain ⟨hn, hpos⟩ := toNat_ofNat (n := n) (by omega)
  exact ⟨⟨hpos, by omega⟩, hn⟩

/-- A node more with one subquery at most leaves every predicate with at most one. -/
theorem single_append {cond : ConditionRead} (h : cond.Sound) {node : ConditionNode}
    (hnode : node.compare.Single) : ∀ other ∈ cond.nodes ++ [node], other.compare.Single := by
  intro other hother
  rcases List.mem_append.mp hother with hother | hother
  · exact h.single other hother
  · rw [List.mem_singleton.mp hother]
    exact hnode

/-- A branch has no subquery. -/
theorem single_branch (kind : ConditionKind) (left right : Int32) :
    (branchNode kind left right).compare.Single :=
  show blankPredicate.Single from fun hno => absurd hno (by decide)

section
variable {start mid cond : ConditionRead} {root left right : Int32}

/-- One comparison, and the subqueries that it names. -/
theorem TreeRead.leaf {compare : Predicate} {pool : List PooledSelect} {exprs : ExprPool}
    (hsound : start.Sound) (hfew : start.nodes.length < MAX_CONDITION_NODES)
    (hsingle : compare.Single)
    (hpool : pool.length ≤ MAX_SUBQUERIES ∧
      ∃ added, Grows P start.pool pool (predicateNode compare).refs added) :
    TreeRead P start (Int32.ofNat start.nodes.length)
      { nodes := start.nodes ++ [predicateNode compare], exprs := exprs, pool := pool } := by
  obtain ⟨hbelow, hn⟩ := below_next hfew
  have hlength : (start.nodes ++ [predicateNode compare]).length = start.nodes.length + 1 := by simp
  refine ⟨⟨rising_append hsound.rising ⟨fun hno => absurd rfl hno, fun hno => by
      simp [predicateNode] at hno⟩, single_append hsound hsingle, by rw [hlength]; exact hfew,
      hpool.1⟩, List.prefix_append _ _, by rw [hlength]; exact hbelow, fun i hi hleaf => ?_, ?_⟩
  · obtain ⟨node, hnode, -⟩ := hleaf
    obtain rfl : i = start.nodes.length := by
      have := (List.getElem?_eq_some_iff.mp hnode).1
      rw [hlength] at this
      omega
    unfold leaves
    simp only [hlength]
    rw [leavesFrom_succ, if_neg hbelow.not_neg, hn, hnode]
    rw [List.getElem?_concat_length] at hnode
    obtain rfl := Option.some.inj hnode
    simp [predicateNode]
  · simpa using hpool.2

/-- A node without a comparison of its own is on top. -/
theorem TreeRead.below (hmid : mid.Sound) (hfew : mid.nodes.length < MAX_CONDITION_NODES)
    {node : ConditionNode}
    (hnode : (node.kind ≠ .COND_COMPARE → Below node.left mid.nodes.length) ∧
      (node.kind = .COND_AND ∨ node.kind = .COND_OR → Below node.right mid.nodes.length))
    (hkind : node.kind ≠ .COND_COMPARE) :
    Rising (mid.nodes ++ [node]) ∧
      leaves (mid.nodes ++ [node]) (Int32.ofNat mid.nodes.length) =
        if node.kind = .COND_NOT then leaves mid.nodes node.left
        else leaves mid.nodes node.left ++ leaves mid.nodes node.right := by
  obtain ⟨hbelow, hn⟩ := below_next hfew
  refine ⟨rising_append hmid.rising hnode, ?_⟩
  have hlength : (mid.nodes ++ [node]).length = mid.nodes.length + 1 := by simp
  have hstep : ∀ j : Int32, Below j mid.nodes.length →
      leavesFrom (mid.nodes ++ [node]) mid.nodes.length j = leaves mid.nodes j := fun j hj =>
    leavesFrom_eq hmid.rising (Nat.le_refl _)
      (fun i hi => getElem?_of_front (List.prefix_append _ _) hi) hj hj.2 hj.2
  unfold leaves at hstep ⊢
  rw [hlength, leavesFrom_succ, if_neg hbelow.not_neg, hn, List.getElem?_concat_length]
  dsimp only
  cases hk : node.kind with
  | COND_COMPARE => exact absurd hk hkind
  | COND_NOT =>
    simp only [if_true]
    rw [hstep _ (hnode.1 hkind)]
  | COND_AND =>
    simp only [reduceCtorEq, if_false]
    rw [hstep _ (hnode.1 hkind), hstep _ (hnode.2 (.inl hk))]
  | COND_OR =>
    simp only [reduceCtorEq, if_false]
    rw [hstep _ (hnode.1 hkind), hstep _ (hnode.2 (.inr hk))]

/-- A branch more makes no leaf. -/
theorem isLeaf_append {nodes : List ConditionNode} {node : ConditionNode}
    (hkind : node.kind ≠ .COND_COMPARE) {i : Nat} (h : IsLeaf (nodes ++ [node]) i) :
    IsLeaf nodes i ∧ i < nodes.length := by
  obtain ⟨other, hother, hleaf⟩ := h
  rcases Nat.lt_trichotomy i nodes.length with hlt | rfl | hlt
  · rw [List.getElem?_append_left hlt] at hother
    exact ⟨⟨other, hother, hleaf⟩, hlt⟩
  · rw [List.getElem?_concat_length] at hother
    obtain rfl := Option.some.inj hother
    exact absurd hleaf hkind
  · rw [List.getElem?_eq_none (by rw [List.length_append, List.length_singleton]; omega)] at hother
    exact absurd hother (by simp)

/-- Nothing is named on top. -/
theorem drop_append_refs {nodes : List ConditionNode} {node : ConditionNode} {n : Nat}
    (hn : n ≤ nodes.length) (hrefs : node.refs = []) :
    ((nodes ++ [node]).drop n).flatMap ConditionNode.refs =
      (nodes.drop n).flatMap ConditionNode.refs := by
  rw [List.drop_append_of_le_length hn, List.flatMap_append, List.flatMap_singleton, hrefs,
    List.append_nil]

/-- A NOT on top of a tree. -/
theorem TreeRead.not (h : TreeRead P start root mid) {i : Int32}
    (hnew : newCondition (branchNode .COND_NOT root (-1)) mid = .ok (i, cond)) :
    TreeRead P start i cond := by
  obtain ⟨hfew, rfl, rfl⟩ := newCondition_ok h.sound hnew
  obtain ⟨hbelow, -⟩ := below_next hfew
  have hkind : (branchNode .COND_NOT root (-1)).kind ≠ .COND_COMPARE := by simp [branchNode]
  obtain ⟨hrising, hleaves⟩ := TreeRead.below h.sound hfew ⟨fun _ => h.inside, fun hno => by simp [branchNode] at hno⟩ hkind
  refine ⟨⟨hrising, single_append h.sound (single_branch _ _ _), by rw [List.length_append]; exact hfew,
      h.sound.slots⟩, h.nodes.trans (List.prefix_append _ _), by simpa using hbelow, fun j hj hleaf => ?_, ?_⟩
  · obtain ⟨hold, -⟩ := isLeaf_append hkind hleaf
    simp only [hleaves]
    exact h.covered j hj hold
  · simp only [drop_append_refs h.nodes.length_le (show (branchNode .COND_NOT root (-1)).refs = [] from rfl)]
    exact h.pool

/-- What was read of two trees one behind the other. -/
theorem TreeRead.pools (h : TreeRead P start left mid) (h' : TreeRead P mid right cond) :
    ∃ added, Grows P start.pool cond.pool
      ((cond.nodes.drop start.nodes.length).flatMap ConditionNode.refs) added := by
  obtain ⟨added, hgrows⟩ := h.pool
  obtain ⟨added', hgrows'⟩ := h'.pool
  refine ⟨added ++ added', ?_⟩
  have hall := hgrows.trans hgrows'
  obtain ⟨more, hmore⟩ := h'.nodes
  rw [← hmore, List.drop_append_of_le_length h.nodes.length_le, List.flatMap_append]
  rwa [← hmore, List.drop_left] at hall

/-- Two trees under one node, of which the second was read behind the first. -/
theorem TreeRead.branch (h : TreeRead P start left mid) (h' : TreeRead P mid right cond)
    {kind : ConditionKind} (hkind : kind = .COND_AND ∨ kind = .COND_OR) {i : Int32}
    {cond' : ConditionRead} (hnew : newCondition (branchNode kind left right) cond = .ok (i, cond')) :
    TreeRead P start i cond' := by
  obtain ⟨hfew, rfl, rfl⟩ := newCondition_ok h'.sound hnew
  obtain ⟨hbelow, -⟩ := below_next hfew
  have hcompare : (branchNode kind left right).kind ≠ .COND_COMPARE := by
    rcases hkind with rfl | rfl <;> simp [branchNode]
  have hnot : ¬(branchNode kind left right).kind = .COND_NOT := by
    rcases hkind with rfl | rfl <;> simp [branchNode]
  have hleft := h.inside.mono h'.nodes.length_le
  obtain ⟨hrising, hleaves⟩ := TreeRead.below h'.sound hfew
    ⟨fun _ => hleft, fun _ => h'.inside⟩ hcompare
  refine ⟨⟨hrising, single_append h'.sound (single_branch _ _ _), by rw [List.length_append]; exact hfew,
      h'.sound.slots⟩,
    (h.nodes.trans h'.nodes).trans (List.prefix_append _ _), by simpa using hbelow,
    fun j hj hleaf => ?_, ?_⟩
  · obtain ⟨hold, -⟩ := isLeaf_append hcompare hleaf
    simp only [hleaves, if_neg hnot, List.mem_append]
    rcases Nat.lt_or_ge j mid.nodes.length with hlt | hge
    · refine .inl ?_
      show j ∈ leaves cond.nodes left
      rw [leaves_front h.sound.rising h'.nodes h.inside]
      obtain ⟨node, hnode, hk⟩ := hold
      rw [getElem?_of_front h'.nodes hlt] at hnode
      exact h.covered j hj ⟨node, hnode, hk⟩
    · exact .inr (h'.covered j hge hold)
  · have hrefs : (branchNode kind left right).refs = [] := rfl
    simp only [drop_append_refs (h.nodes.trans h'.nodes).length_le hrefs]
    exact h.pools h'

/-- A comparison of the tree written again, without a subquery before or after. -/
theorem TreeRead.set (h : TreeRead P start root cond) {spine : Int32} {p q : Predicate}
    (hlow : start.nodes.length ≤ spine.toInt.toNat)
    (hspine : cond.nodes[spine.toInt.toNat]? = some (predicateNode p)) (hp : ¬0 ≤ p.subquery)
    (hq : ¬0 ≤ q.subquery) : TreeRead P start root (cond.setCompare spine q) := by
  have hlength : (cond.setCompare spine q).nodes.length = cond.nodes.length := List.length_set
  refine ⟨⟨rising_set h.sound.rising, fun node hnode => ?_, hlength ▸ h.sound.few, h.sound.slots⟩,
    ?_, hlength ▸ h.inside,
    fun i hi hleaf => ?_, ?_⟩
  · rcases List.mem_or_eq_of_mem_set hnode with hnode | rfl
    · exact h.sound.single node hnode
    · exact fun hno => absurd hno hq
  · obtain ⟨more, hmore⟩ := h.nodes
    refine ⟨more.set (spine.toInt.toNat - start.nodes.length) (predicateNode q), ?_⟩
    unfold ConditionRead.setCompare
    rw [← hmore, List.set_append_right _ _ hlow]
  · unfold leaves
    rw [hlength]
    unfold ConditionRead.setCompare
    rw [leavesFrom_set hspine]
    refine h.covered i hi ?_
    obtain ⟨node, hnode, hk⟩ := hleaf
    unfold ConditionRead.setCompare at hnode
    by_cases heq : spine.toInt.toNat = i
    · exact ⟨_, heq ▸ hspine, rfl⟩
    · rw [List.getElem?_set_ne heq] at hnode
      exact ⟨node, hnode, hk⟩
  · obtain ⟨added, hgrows⟩ := h.pool
    refine ⟨added, ?_⟩
    have hmap : ((cond.setCompare spine q).nodes.drop start.nodes.length).map ConditionNode.refs =
        (cond.nodes.drop start.nodes.length).map ConditionNode.refs := by
      refine List.ext_getElem? fun i => ?_
      unfold ConditionRead.setCompare
      rw [List.getElem?_map, List.getElem?_map, List.getElem?_drop, List.getElem?_drop]
      by_cases heq : spine.toInt.toNat = start.nodes.length + i
      · rw [← heq, hspine, List.getElem?_set_self (List.getElem?_eq_some_iff.mp hspine).1]
        simp [ConditionNode.refs, predicateNode, hp, hq]
      · rw [List.getElem?_set_ne heq]
    rw [List.flatMap_def, hmap, ← List.flatMap_def]
    exact hgrows

end

/-! ### Comparisons -/

section
variable {subquery : SubqueryRead} {start cond : ConditionRead} {root left : Int32}
  {tokens rest : List Token}

/-- Writing the last node changes that node. -/
theorem set_append_last {nodes : List ConditionNode} (p q : Predicate) {i : Int32}
    (hi : i.toInt.toNat = nodes.length) :
    (nodes ++ [predicateNode p]).set i.toInt.toNat (predicateNode q) =
      nodes ++ [predicateNode q] := by
  rw [hi, List.set_append_right _ _ (Nat.le_refl _), Nat.sub_self]
  rfl

/-- The comparison that was allocated before its sides were read, once it is filled in. -/
theorem TreeRead.filled {p q : Predicate} {exprs : ExprPool} {pool : List PooledSelect}
    (hsound : start.Sound) (hfew : start.nodes.length < MAX_CONDITION_NODES) (hsingle : q.Single)
    (hpool : pool.length ≤ MAX_SUBQUERIES ∧
      ∃ added, Grows P start.pool pool (predicateNode q).refs added) :
    TreeRead P start (Int32.ofNat start.nodes.length)
      (ConditionRead.setCompare
        { nodes := start.nodes ++ [predicateNode p], exprs := exprs, pool := pool }
        (Int32.ofNat start.nodes.length) q) := by
  unfold ConditionRead.setCompare
  simp only [set_append_last p q (below_next hfew).2]
  exact .leaf hsound hfew hsingle hpool

/-- A predicate without a subquery names none. -/
theorem refs_none {compare : Predicate} (h : ¬0 ≤ compare.subquery) :
    (predicateNode compare).refs = [] := by
  simp [ConditionNode.refs, predicateNode, h]

/-- The index -1 is no subquery. -/
theorem noSubquery {compare : Predicate} (h : compare.subquery = -1) : ¬0 ≤ compare.subquery := by
  rw [h]
  decide

/-- A predicate without a subquery has at most one. -/
theorem single_none {compare : Predicate} (h : compare.subquery = -1) : compare.Single :=
  fun hno => absurd hno (noSubquery h)

/-- A predicate without a right side has at most one. -/
theorem single_named {compare : Predicate} (h : compare.right = -1) : compare.Single := by
  intro _
  rw [h]
  decide

/-- A comparison without a subquery leaves the pool alone. -/
theorem grows_none {compare : Predicate} (h : ¬0 ≤ compare.subquery) {pool : List PooledSelect}
    (hslots : pool.length ≤ MAX_SUBQUERIES) :
    pool.length ≤ MAX_SUBQUERIES ∧
      ∃ added, Grows P pool pool (predicateNode compare).refs added := by
  rw [refs_none h]
  exact ⟨hslots, [], .refl P pool⟩

/-- A subquery that was read is named by the comparison it was read for. -/
theorem grows_named (hsub : ReadsSubqueries P subquery) {pool pool' : List PooledSelect}
    {slot : Int32} (hslots : pool.length ≤ MAX_SUBQUERIES)
    (h : subquery tokens pool = .ok (slot, rest, pool')) {compare : Predicate}
    (hcompare : compare.subquery = slot) :
    pool'.length ≤ MAX_SUBQUERIES ∧
      ∃ added, Grows P pool pool' (predicateNode compare).refs added := by
  obtain ⟨rfl, hlt, hafter, hgrows⟩ := hsub _ _ _ _ _ hslots h
  have hmax : MAX_SUBQUERIES = 4 := rfl
  obtain ⟨hn, hpos⟩ := toNat_ofNat (n := pool.length) (by omega)
  have hrefs : (predicateNode compare).refs = [pool.length] := by
    unfold ConditionNode.refs predicateNode Predicate.slot
    simp only [hcompare, if_pos hpos, hn]
  rw [hrefs]
  exact ⟨hafter, hgrows⟩

/-- Adding a branch is allocating its node. -/
theorem addBranch_ok {node : ConditionNode} {mid : ConditionRead} {tokens : List Token}
    (h : addBranch node tokens mid = .ok (root, rest, cond)) :
    newCondition node mid = .ok (root, cond) ∧ rest = tokens := by
  unfold addBranch at h
  cases hnew : newCondition node mid with
  | error code => simp [hnew, Except.map] at h
  | ok result =>
    simp only [hnew, Except.map, Except.ok.injEq, Prod.mk.injEq] at h
    obtain ⟨rfl, rfl, rfl⟩ := h
    exact ⟨rfl, rfl⟩

/-- The values of a list: at `spine` stands the comparison that is filled in next. -/
theorem inListLoop_tree {fuel : Nat} {mid : ConditionRead} {spine : Int32} {p : Predicate}
    (h : TreeRead P start root mid) (hlow : start.nodes.length ≤ spine.toInt.toNat)
    (hspine : mid.nodes[spine.toInt.toNat]? = some (predicateNode p)) (hp : ¬0 ≤ p.subquery)
    {top : Int32} (hloop : inListLoop left fuel root spine tokens mid = .ok (top, rest, cond)) :
    TreeRead P start top cond := by
  induction fuel generalizing root spine tokens mid p with
  | zero => exact absurd hloop (by simp [inListLoop])
  | succ fuel ih =>
    unfold inListLoop at hloop
    split at hloop
    · exact absurd hloop (by simp)
    · rename_i right behind exprs hright
      have hq : ¬(0 : Int32) ≤ -1 := by decide
      have hset := h.set (q := { left := left, op := .OP_EQ, right := right, subquery := -1 })
        hlow hspine hp hq
      have hfilled : TreeRead P start root (ConditionRead.setCompare { mid with exprs := exprs }
          spine { left := left, op := .OP_EQ, right := right, subquery := -1 }) :=
        ⟨⟨hset.sound.rising, hset.sound.single, hset.sound.few, hset.sound.slots⟩, hset.nodes,
          hset.inside, hset.covered, hset.pool⟩
      dsimp only at hloop
      split at hloop
      · obtain ⟨rfl, -, rfl⟩ := by simpa using Except.ok.inj hloop
        exact hfilled
      · split at hloop
        · exact absurd hloop (by simp)
        · rename_i next added hnew
          obtain ⟨hfew, rfl, rfl⟩ := newCondition_ok hfilled.sound hnew
          have hnext := @TreeRead.leaf P _ blankPredicate _ exprs hfilled.sound hfew (fun hno =>
              absurd hno (by decide)) (grows_none (by decide) hfilled.sound.slots)
          split at hloop
          · exact absurd hloop (by simp)
          · rename_i either both hor
            have hboth := hfilled.branch hnext (.inr rfl) hor
            obtain ⟨-, -, rfl⟩ := newCondition_ok hnext.sound hor
            refine ih hboth ?_ ?_ (p := blankPredicate) (by decide) hloop
            · rw [(below_next hfew).2]
              exact hfilled.nodes.length_le
            · rw [(below_next hfew).2, List.getElem?_append_left (by simp),
                List.getElem?_concat_length]

/-- The node that `parseComparison` has allocated before it knows the operator. -/
abbrev allocated (start : ConditionRead) (p : Predicate) (exprs : ExprPool) : ConditionRead :=
  { nodes := start.nodes ++ [predicateNode p], exprs := exprs, pool := start.pool }

section
variable {p : Predicate} {exprs : ExprPool} (hsound : start.Sound)
  (hfew : start.nodes.length < MAX_CONDITION_NODES) (hp : ¬0 ≤ p.subquery)
include hsound hfew

/-- IS NULL and IS NOT NULL read a tree of one leaf. -/
theorem parseIsNull_tree (h : parseIsNull left (Int32.ofNat start.nodes.length) tokens
    (allocated start p exprs) = .ok (root, rest, cond)) : TreeRead P start root cond := by
  unfold parseIsNull at h
  dsimp only at h
  generalize (if (typeAt tokens 1 == .TOKEN_KEYWORD_NOT) = true then 2 else 1) = words at h
  split at h
  · exact absurd h (by simp)
  · obtain ⟨rfl, -, rfl⟩ := by simpa using Except.ok.inj h
    exact .filled hsound hfew (single_none rfl) (grows_none (noSubquery rfl) hsound.slots)

/-- LIKE and NOT LIKE read a tree of one leaf. -/
theorem parseLike_tree (h : parseLike left (Int32.ofNat start.nodes.length) tokens
    (allocated start p exprs) = .ok (root, rest, cond)) : TreeRead P start root cond := by
  unfold parseLike at h
  dsimp only at h
  split at h
  · exact absurd h (by simp)
  · split at h
    · exact absurd h (by simp)
    · split at h
      · exact absurd h (by simp)
      · obtain ⟨rfl, -, rfl⟩ := by simpa using Except.ok.inj h
        exact .filled hsound hfew (single_none rfl) (grows_none (noSubquery rfl) hsound.slots)

/-- A comparison by an operator reads a tree of one leaf. -/
theorem parseOperator_tree (hsub : ReadsSubqueries P subquery)
    (h : parseOperator subquery left (Int32.ofNat start.nodes.length) tokens
      (allocated start p exprs) = .ok (root, rest, cond)) : TreeRead P start root cond := by
  unfold parseOperator at h
  split at h
  · exact absurd h (by simp)
  · dsimp only at h
    split at h
    · rename_i op _ _
      obtain ⟨⟨slot, behind, pool⟩, hread, heq⟩ := map_ok h
      obtain ⟨rfl, hrest⟩ := Prod.mk.inj heq
      obtain ⟨-, rfl⟩ := Prod.mk.inj hrest
      refine .filled hsound hfew (single_named rfl) ?_
      -- what is kept of a scalar subquery besides is a flag
      obtain ⟨hafter, added, hgrows⟩ := grows_named hsub hsound.slots hread
        (show ({ left := left, op := op, right := -1, subquery := slot } : Predicate).subquery = slot
          from rfl)
      obtain ⟨rfl, hlt, -⟩ := hsub _ _ _ _ _ hsound.slots hread
      have hmax : MAX_SUBQUERIES = 4 := rfl
      obtain ⟨hn, -⟩ := toNat_ofNat (n := start.pool.length) (by omega)
      exact ⟨by rw [List.length_modify]; exact hafter, _,
        hgrows.modify (by rw [hn]) fun sub => rfl⟩
    · split at h
      · exact absurd h (by simp)
      · split at h
        · exact absurd h (by simp)
        · obtain ⟨rfl, -, rfl⟩ := by simpa using Except.ok.inj h
          exact .filled hsound hfew (single_none rfl) (grows_none (noSubquery rfl) hsound.slots)

include hp in
/-- IN reads a leaf, or a spine of leaves for its list. -/
theorem parseIn_tree (hsub : ReadsSubqueries P subquery)
    (h : parseIn subquery left (Int32.ofNat start.nodes.length) tokens
      (allocated start p exprs) = .ok (root, rest, cond)) : TreeRead P start root cond := by
  unfold parseIn at h
  dsimp only at h
  split at h
  · exact absurd h (by simp)
  · rename_i top behind mid hread
    have htree : TreeRead P start top mid := by
      generalize List.drop (if (typeAt tokens 0 == .TOKEN_KEYWORD_NOT) = true then 2 else 1) tokens =
        inner at hread
      split at hread
      · obtain ⟨⟨slot, behind', pool⟩, hread', heq⟩ := map_ok hread
        obtain ⟨rfl, hrest⟩ := Prod.mk.inj heq
        obtain ⟨-, rfl⟩ := Prod.mk.inj hrest
        exact .filled hsound hfew (single_named rfl) (grows_named hsub hsound.slots hread' rfl)
      · split at hread
        · exact absurd hread (by simp)
        · split at hread
          · exact absurd hread (by simp)
          · rename_i hloop
            split at hread
            · obtain ⟨rfl, -, rfl⟩ := by simpa using Except.ok.inj hread
              have hfirst := @TreeRead.leaf P _ _ _ exprs hsound hfew (fun hno => absurd hno hp)
                (grows_none hp hsound.slots)
              refine inListLoop_tree hfirst ?_ ?_ hp hloop
              · rw [(below_next hfew).2]
              · rw [(below_next hfew).2, List.getElem?_concat_length]
            · exact absurd hread (by simp)
    split at h
    · exact htree.not (addBranch_ok h).1
    · obtain ⟨rfl, -, rfl⟩ := by simpa using Except.ok.inj h
      exact htree

end

/-- Every form of a comparison reads a tree. -/
theorem parseComparison_tree {allowAggregate : Bool} (hsub : ReadsSubqueries P subquery)
    (hsound : start.Sound)
    (h : parseComparison subquery allowAggregate tokens start = .ok (root, rest, cond)) :
    TreeRead P start root cond := by
  unfold parseComparison at h
  split at h
  · exact absurd h (by simp)
  · rename_i left behind exprs hleft
    split at h
    · exact absurd h (by simp)
    · rename_i node mid hnew
      obtain ⟨hfew, rfl, rfl⟩ := @newCondition_ok _ { start with exprs := exprs } _ _
        ⟨hsound.rising, hsound.single, hsound.few, hsound.slots⟩ hnew
      have hp : ¬0 ≤ ({ blankPredicate with left := left } : Predicate).subquery := by
        dsimp only [blankPredicate]
        decide
      dsimp only at h hfew
      generalize (if (typeAt behind 0 == .TOKEN_KEYWORD_NOT) = true then typeAt behind 1
        else typeAt behind 0) = word at h
      split at h
      · exact parseIn_tree hsound hfew hp hsub h
      · split at h
        · exact parseIsNull_tree hsound hfew h
        · split at h
          · exact parseLike_tree hsound hfew h
          · exact parseOperator_tree hsound hfew hsub h

/-- EXISTS reads a tree of one leaf. -/
theorem parseExists_tree (hsub : ReadsSubqueries P subquery) (hsound : start.Sound)
    (h : parseExists subquery tokens start = .ok (root, rest, cond)) :
    TreeRead P start root cond := by
  unfold parseExists at h
  split at h
  · exact absurd h (by simp)
  · rename_i node mid hnew
    obtain ⟨hfew, rfl, rfl⟩ := newCondition_ok hsound hnew
    obtain ⟨⟨slot, behind, pool⟩, hread, heq⟩ := map_ok h
    obtain ⟨rfl, hrest⟩ := Prod.mk.inj heq
    obtain ⟨-, rfl⟩ := Prod.mk.inj hrest
    exact .filled hsound hfew (single_named rfl) (grows_named hsub hsound.slots hread rfl)

/-! ### Conditions -/

/-- What holds of everything that is read: of a comparison and of an EXISTS by itself, and of what is
put on top of what has been read. -/
structure ReadRule (subquery : SubqueryRead) (allowAggregate : Bool) (Start : ConditionRead → Prop)
    (R : ConditionRead → Int32 → ConditionRead → Prop) : Prop where
  ends : ∀ {start cond : ConditionRead} {root : Int32}, R start root cond → Start cond
  comparison : ∀ {tokens rest : List Token} {start cond : ConditionRead} {root : Int32},
    Start start → parseComparison subquery allowAggregate tokens start = .ok (root, rest, cond) →
      R start root cond
  existence : ∀ {tokens rest : List Token} {start cond : ConditionRead} {root : Int32},
    Start start → parseExists subquery tokens start = .ok (root, rest, cond) → R start root cond
  not : ∀ {start mid cond : ConditionRead} {root i : Int32}, R start root mid →
    newCondition (branchNode .COND_NOT root (-1)) mid = .ok (i, cond) → R start i cond
  branch : ∀ {start mid cond cond' : ConditionRead} {left right i : Int32} {kind : ConditionKind},
    R start left mid → R mid right cond → kind = .COND_AND ∨ kind = .COND_OR →
      newCondition (branchNode kind left right) cond = .ok (i, cond') → R start i cond'

/-- The readers that call each other, with one unit of fuel more for each call. -/
theorem ReadRule.parse {allowAggregate : Bool} {Start : ConditionRead → Prop}
    {R : ConditionRead → Int32 → ConditionRead → Prop}
    (rule : ReadRule subquery allowAggregate Start R) (fuel : Nat) :
    (∀ {tokens : List Token} {start : ConditionRead} {root : Int32} {rest : List Token}
      {cond : ConditionRead}, Start start →
      parsePrimaryFrom subquery allowAggregate fuel tokens start = .ok (root, rest, cond) →
        R start root cond) ∧
    (∀ {tokens : List Token} {start : ConditionRead} {root : Int32} {rest : List Token}
      {cond : ConditionRead}, Start start →
      parseNotFrom subquery allowAggregate fuel tokens start = .ok (root, rest, cond) →
        R start root cond) ∧
    (∀ {tokens : List Token} {start mid : ConditionRead} {node root : Int32} {rest : List Token}
      {cond : ConditionRead}, R start node mid →
      andLoop subquery allowAggregate fuel node tokens mid = .ok (root, rest, cond) →
        R start root cond) ∧
    (∀ {tokens : List Token} {start : ConditionRead} {root : Int32} {rest : List Token}
      {cond : ConditionRead}, Start start →
      parseAndFrom subquery allowAggregate fuel tokens start = .ok (root, rest, cond) →
        R start root cond) ∧
    (∀ {tokens : List Token} {start mid : ConditionRead} {node root : Int32} {rest : List Token}
      {cond : ConditionRead}, R start node mid →
      orLoop subquery allowAggregate fuel node tokens mid = .ok (root, rest, cond) →
        R start root cond) ∧
    (∀ {tokens : List Token} {start : ConditionRead} {root : Int32} {rest : List Token}
      {cond : ConditionRead}, Start start →
      parseOrFrom subquery allowAggregate fuel tokens start = .ok (root, rest, cond) →
        R start root cond) := by
  induction fuel with
  | zero =>
    refine ⟨?_, ?_, ?_, ?_, ?_, ?_⟩ <;> intros
    all_goals simp_all [parsePrimaryFrom, parseNotFrom, andLoop, parseAndFrom, orLoop, parseOrFrom]
  | succ fuel ih =>
    obtain ⟨hprimary, hnot, handLoop, hand, horLoop, hor⟩ := ih
    refine ⟨?_, ?_, ?_, ?_, ?_, ?_⟩
    · intro tokens start root rest cond hstart h
      unfold parsePrimaryFrom at h
      split at h
      · exact rule.existence hstart h
      · split at h
        · split at h
          · exact absurd h (by simp)
          · rename_i hinner
            split at h
            · obtain ⟨rfl, -, rfl⟩ := by simpa using Except.ok.inj h
              exact hor hstart hinner
            · exact absurd h (by simp)
        · exact rule.comparison hstart h
    · intro tokens start root rest cond hstart h
      unfold parseNotFrom at h
      split at h
      · exact hprimary hstart h
      · split at h
        · exact absurd h (by simp)
        · rename_i hinner
          exact rule.not (hnot hstart hinner) (addBranch_ok h).1
    · intro tokens start mid node root rest cond hread h
      unfold andLoop at h
      split at h
      · obtain ⟨rfl, -, rfl⟩ := by simpa using Except.ok.inj h
        exact hread
      · split at h
        · exact absurd h (by simp)
        · rename_i hright
          split at h
          · exact absurd h (by simp)
          · rename_i hnew
            exact handLoop (rule.branch hread (hnot (rule.ends hread) hright) (.inl rfl) hnew) h
    · intro tokens start root rest cond hstart h
      unfold parseAndFrom at h
      split at h
      · exact absurd h (by simp)
      · rename_i hfirst
        exact handLoop (hnot hstart hfirst) h
    · intro tokens start mid node root rest cond hread h
      unfold orLoop at h
      split at h
      · obtain ⟨rfl, -, rfl⟩ := by simpa using Except.ok.inj h
        exact hread
      · split at h
        · exact absurd h (by simp)
        · rename_i hright
          split at h
          · exact absurd h (by simp)
          · rename_i hnew
            exact horLoop (rule.branch hread (hand (rule.ends hread) hright) (.inr rfl) hnew) h
    · intro tokens start root rest cond hstart h
      unfold parseOrFrom at h
      split at h
      · exact absurd h (by simp)
      · rename_i hfirst
        exact horLoop (hand hstart hfirst) h

/-- What the rule has of comparisons and keeps over branches holds of a whole condition. -/
theorem ReadRule.parseOrExpression {allowAggregate : Bool} {Start : ConditionRead → Prop}
    {R : ConditionRead → Int32 → ConditionRead → Prop}
    (rule : ReadRule subquery allowAggregate Start R) (hstart : Start start)
    (h : parseOrExpression subquery allowAggregate tokens start = .ok (root, rest, cond)) :
    R start root cond :=
  (rule.parse _).2.2.2.2.2 hstart h

/-- What is read is a tree. -/
theorem TreeRead.rule (hsub : ReadsSubqueries P subquery) (allowAggregate : Bool) :
    ReadRule subquery allowAggregate ConditionRead.Sound (TreeRead P) where
  ends h := h.sound
  comparison hsound h := parseComparison_tree hsub hsound h
  existence hsound h := parseExists_tree hsub hsound h
  not h hnew := h.not hnew
  branch h h' hkind hnew := h.branch h' hkind hnew

/-- A whole condition reads a tree, by the rule. -/
theorem parseOrExpression_tree {allowAggregate : Bool} (hsub : ReadsSubqueries P subquery)
    (hsound : start.Sound)
    (h : parseOrExpression subquery allowAggregate tokens start = .ok (root, rest, cond)) :
    TreeRead P start root cond :=
  (TreeRead.rule hsub allowAggregate).parseOrExpression hsound h

end

end DatabaseEngine
