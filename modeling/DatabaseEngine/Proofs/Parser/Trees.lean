import DatabaseEngine.Model.Parser
import DatabaseEngine.Spec.Typing

/-!
# `DatabaseEngine.Proofs.Parser.Trees`: the nodes of conditions, and the pool of subqueries

* `Rising`: every node stands above its children, so that a walk down ends.
* `leaves`: the comparisons that a tree reaches; `leavesFrom_eq`: nodes that come later, and more
  fuel, change nothing.
* `Grows`: what a reader does to the pool: it adds slots, and each of them is written in one place
  of what was read.
-/

set_option autoImplicit false

namespace DatabaseEngine

/-! ### Indices -/

/-- An index below a bound. -/
def Below (i : Int32) (n : Nat) : Prop := 0 ≤ i ∧ i.toInt.toNat < n

/-- An index below a length is below a greater one. -/
theorem Below.mono {i : Int32} {m n : Nat} (h : Below i m) (hmn : m ≤ n) : Below i n :=
  ⟨h.1, Nat.lt_of_lt_of_le h.2 hmn⟩

/-- An index below a length is not negative. -/
theorem Below.not_neg {i : Int32} {n : Nat} (h : Below i n) : ¬i < 0 := by
  have hpos := Int32.le_iff_toInt_le.mp h.1
  rw [Int32.lt_iff_toInt_lt]
  omega

/-- A small number comes back from an `int`. -/
theorem toNat_ofNat {n : Nat} (h : n < 2147483648) :
    (Int32.ofNat n).toInt.toNat = n ∧ 0 ≤ Int32.ofNat n := by
  have hn : (Int32.ofNat n).toInt = n := Int32.toInt_ofNat_of_lt h
  exact ⟨by omega, by rw [Int32.le_iff_toInt_le, hn]; exact Int.natCast_nonneg n⟩

/-! ### Trees -/

/-- Nodes stand above their children. -/
def Rising (nodes : List ConditionNode) : Prop :=
  ∀ i node, nodes[i]? = some node →
    (node.kind ≠ .COND_COMPARE → Below node.left i) ∧
      (node.kind = .COND_AND ∨ node.kind = .COND_OR → Below node.right i)

/-- The positions of the comparisons of a tree, the ones to the left first. -/
def leavesFrom (nodes : List ConditionNode) : Nat → Int32 → List Nat
  | 0, _ => []
  | fuel + 1, i =>
    match if i < 0 then none else nodes[i.toInt.toNat]? with
    | none => []
    | some node =>
      match node.kind with
      | .COND_COMPARE => [i.toInt.toNat]
      | .COND_NOT => leavesFrom nodes fuel node.left
      | .COND_AND | .COND_OR => leavesFrom nodes fuel node.left ++ leavesFrom nodes fuel node.right

/-- The comparisons of a tree, by their places in the list. -/
def leaves (nodes : List ConditionNode) (root : Int32) : List Nat :=
  leavesFrom nodes nodes.length root

section
variable {nodes nodes' : List ConditionNode}

/-- What stands in the front stands in the whole list. -/
theorem getElem?_of_front {α : Type} {xs ys : List α} (h : xs <+: ys) {i : Nat}
    (hi : i < xs.length) : ys[i]? = xs[i]? := by
  obtain ⟨zs, rfl⟩ := h
  rw [List.getElem?_append_left hi]

/-- The leaves of a node are itself or those of its branches. -/
theorem leavesFrom_succ (fuel : Nat) (i : Int32) :
    leavesFrom nodes (fuel + 1) i =
      match if i < 0 then none else nodes[i.toInt.toNat]? with
      | none => []
      | some node =>
        match node.kind with
        | .COND_COMPARE => [i.toInt.toNat]
        | .COND_NOT => leavesFrom nodes fuel node.left
        | .COND_AND | .COND_OR =>
          leavesFrom nodes fuel node.left ++ leavesFrom nodes fuel node.right :=
  rfl

/-- A tree below a position is what it is, whatever stands behind it. -/
theorem leavesFrom_eq (hrising : Rising nodes) {n : Nat} (hn : n ≤ nodes.length)
    (hsame : ∀ i < n, nodes'[i]? = nodes[i]?) {fuel fuel' : Nat} {i : Int32} (hi : Below i n)
    (hfuel : i.toInt.toNat < fuel) (hfuel' : i.toInt.toNat < fuel') :
    leavesFrom nodes' fuel' i = leavesFrom nodes fuel i := by
  induction fuel generalizing fuel' i with
  | zero => omega
  | succ fuel ih =>
    cases fuel' with
    | zero => omega
    | succ fuel' =>
      obtain ⟨node, hnode⟩ : ∃ node, nodes[i.toInt.toNat]? = some node :=
        ⟨_, List.getElem?_eq_getElem (Nat.lt_of_lt_of_le hi.2 hn)⟩
      obtain ⟨hleft, hright⟩ := hrising _ _ hnode
      unfold leavesFrom
      rw [if_neg hi.not_neg, if_neg hi.not_neg, hsame _ hi.2, hnode]
      dsimp only
      have hstep : ∀ j : Int32, Below j i.toInt.toNat →
          leavesFrom nodes' fuel' j = leavesFrom nodes fuel j := fun j hj =>
        ih (hj.mono (Nat.le_of_lt hi.2)) (by have := hj.2; omega) (by have := hj.2; omega)
      cases hkind : node.kind with
      | COND_COMPARE => rfl
      | COND_NOT => exact hstep _ (hleft (by simp [hkind]))
      | COND_AND =>
        simp only [hstep _ (hleft (by simp [hkind])), hstep _ (hright (.inl hkind))]
      | COND_OR =>
        simp only [hstep _ (hleft (by simp [hkind])), hstep _ (hright (.inr hkind))]

/-- Nodes added behind leave the leaves of a tree. -/
theorem leaves_front (hrising : Rising nodes) (hfront : nodes <+: nodes') {i : Int32}
    (hi : Below i nodes.length) : leaves nodes' i = leaves nodes i :=
  leavesFrom_eq hrising (Nat.le_refl _) (fun _ hj => getElem?_of_front hfront hj) hi hi.2
    (Nat.lt_of_lt_of_le hi.2 hfront.length_le)

/-- The comparisons of a tree are those at its leaves. -/
theorem comparisonsFrom_leaves (fuel : Nat) (i : Int32) :
    comparisonsFrom nodes fuel i =
      (leavesFrom nodes fuel i).filterMap fun j => (nodes[j]?).map ConditionNode.compare := by
  induction fuel generalizing i with
  | zero => rfl
  | succ fuel ih =>
    unfold comparisonsFrom leavesFrom
    cases hn : (if i < 0 then none else nodes[i.toInt.toNat]?) with
    | none => rfl
    | some node =>
      have hnode : nodes[i.toInt.toNat]? = some node := by
        split at hn
        · exact absurd hn (by simp)
        · exact hn
      dsimp only
      cases node.kind with
      | COND_COMPARE =>
        rw [List.filterMap_cons_some (by rw [hnode]; rfl)]
        rfl
      | COND_NOT => exact ih _
      | COND_AND => simp only [ih, List.filterMap_append]
      | COND_OR => simp only [ih, List.filterMap_append]

/-- A comparison changed in its node changes no tree. -/
theorem leavesFrom_set {spine : Nat} {p q : Predicate} (hspine : nodes[spine]? = some (predicateNode p))
    (fuel : Nat) (i : Int32) :
    leavesFrom (nodes.set spine (predicateNode q)) fuel i = leavesFrom nodes fuel i := by
  induction fuel generalizing i with
  | zero => rfl
  | succ fuel ih =>
    unfold leavesFrom
    by_cases hneg : i < 0
    · simp only [if_pos hneg]
    · simp only [if_neg hneg]
      by_cases hi : spine = i.toInt.toNat
      · subst hi
        have hlt := (List.getElem?_eq_some_iff.mp hspine).1
        simp only [List.getElem?_set_self hlt, hspine, predicateNode]
      · rw [List.getElem?_set_ne hi]
        cases nodes[i.toInt.toNat]? with
        | none => rfl
        | some node =>
          dsimp only
          simp only [ih]

/-- A node over earlier ones keeps the tree rising. -/
theorem rising_append {node : ConditionNode} (h : Rising nodes)
    (hnode : (node.kind ≠ .COND_COMPARE → Below node.left nodes.length) ∧
      (node.kind = .COND_AND ∨ node.kind = .COND_OR → Below node.right nodes.length)) :
    Rising (nodes ++ [node]) := by
  intro i other hi
  rcases Nat.lt_trichotomy i nodes.length with hlt | rfl | hlt
  · rw [List.getElem?_append_left hlt] at hi
    exact h i other hi
  · rw [List.getElem?_concat_length] at hi
    obtain rfl := Option.some.inj hi
    exact hnode
  · rw [List.getElem?_eq_none (by rw [List.length_append, List.length_singleton]; omega)] at hi
    exact absurd hi (by simp)

/-- Writing a predicate's node keeps the tree rising. -/
theorem rising_set {spine : Nat} {q : Predicate} (h : Rising nodes) :
    Rising (nodes.set spine (predicateNode q)) := by
  intro i other hi
  by_cases heq : spine = i
  · subst heq
    rw [List.getElem?_set] at hi
    simp only [if_true] at hi
    split at hi
    · obtain rfl := Option.some.inj hi
      exact ⟨fun hno => absurd rfl hno, fun hno => by simp [predicateNode] at hno⟩
    · exact absurd hi (by simp)
  · rw [List.getElem?_set_ne heq] at hi
    exact h i other hi

end

/-! ### Subqueries -/

/-- The slots that a node names. -/
def ConditionNode.refs (node : ConditionNode) : List Nat :=
  if 0 ≤ node.compare.subquery then [node.compare.slot] else []

/-- The subqueries that a condition names. -/
def Condition.refs (cond : Condition) : List Nat := cond.nodes.flatMap ConditionNode.refs

/-- The subqueries that a SELECT names itself. -/
def ParsedSelect.refs (select : ParsedSelect) : List Nat := select.wher.refs ++ select.having.refs

/-- The pool with more slots. Each of them is named once, in `refs` or in the conditions of one of
them, and those are of a lower slot; each has the property `P`. -/
structure Grows (P : ParsedSelect → Prop) (pool pool' : List PooledSelect) (refs : List Nat)
    (added : List PooledSelect) : Prop where
  eq : pool' = pool ++ added
  named : (refs ++ added.flatMap fun sub => sub.select.refs).Perm
    (List.range' pool.length added.length)
  nested : ∀ k sub, added[k]? = some sub →
    P sub.select ∧ ∀ slot ∈ sub.select.refs, pool.length + k < slot

section
variable {P : ParsedSelect → Prop} {pool pool' pool'' : List PooledSelect} {refs refs' : List Nat}
  {added added' : List PooledSelect}

/-- Taking no subquery grows nothing. -/
theorem Grows.refl (P : ParsedSelect → Prop) (pool : List PooledSelect) : Grows P pool pool [] [] :=
  ⟨by simp, by simp, fun k sub h => absurd h (by simp)⟩

/-- What two steps take, they take one behind the other. -/
theorem Grows.trans (h : Grows P pool pool' refs added) (h' : Grows P pool' pool'' refs' added') :
    Grows P pool pool'' (refs ++ refs') (added ++ added') := by
  obtain ⟨rfl, hnamed, hnested⟩ := h
  obtain ⟨rfl, hnamed', hnested'⟩ := h'
  refine ⟨List.append_assoc .., ?_, fun k sub hk => ?_⟩
  · rw [List.length_append] at hnamed'
    rw [List.length_append, ← List.range'_append_1, List.flatMap_append]
    refine List.Perm.trans ?_ (hnamed.append hnamed')
    simp only [List.append_assoc]
    refine List.Perm.append_left _ ?_
    rw [← List.append_assoc, ← List.append_assoc]
    exact List.Perm.append_right _ List.perm_append_comm
  · by_cases hlt : k < added.length
    · rw [List.getElem?_append_left hlt] at hk
      exact hnested k sub hk
    · rw [List.getElem?_append_right (by omega)] at hk
      obtain ⟨hP, hslots⟩ := hnested' _ sub hk
      refine ⟨hP, fun slot hslot => ?_⟩
      have := hslots slot hslot
      rw [List.length_append] at this
      omega

/-- What a slot is flagged as does not matter. -/
theorem Grows.modify (h : Grows P pool pool' refs added) {slot : Nat} (hslot : pool.length ≤ slot)
    {f : PooledSelect → PooledSelect} (hf : ∀ sub, (f sub).select = sub.select) :
    Grows P pool (pool'.modify slot f) refs (added.modify (slot - pool.length) f) := by
  obtain ⟨rfl, hnamed, hnested⟩ := h
  refine ⟨?_, ?_, fun k sub hk => ?_⟩
  · refine List.ext_getElem? fun i => ?_
    rw [List.getElem?_modify]
    rcases Nat.lt_or_ge i pool.length with hlt | hge
    · have hne : slot ≠ i := by omega
      rw [List.getElem?_append_left hlt, List.getElem?_append_left hlt]
      simp [hne]
    · have heq : (slot = i) = (slot - pool.length = i - pool.length) := by
        rw [eq_iff_iff]
        omega
      rw [List.getElem?_append_right hge, List.getElem?_append_right hge, List.getElem?_modify]
      simp only [heq]
  · rw [List.length_modify]
    have hmap : (added.modify (slot - pool.length) f).map PooledSelect.select =
        added.map PooledSelect.select := by
      refine List.ext_getElem? fun i => ?_
      rw [List.getElem?_map, List.getElem?_map, List.getElem?_modify]
      cases added[i]? with
      | none => rfl
      | some sub =>
        by_cases heq : slot - pool.length = i <;> simp [heq, hf]
    have hflat : ∀ subs : List PooledSelect, (subs.flatMap fun sub => sub.select.refs) =
        (subs.map PooledSelect.select).flatMap ParsedSelect.refs := fun subs => by
      rw [List.flatMap_map]
    rw [hflat, hmap, ← hflat]
    exact hnamed
  · rw [List.getElem?_modify] at hk
    obtain ⟨other, hother, rfl⟩ := Option.map_eq_some_iff.mp hk
    split
    · rw [hf]
      exact hnested k other hother
    · exact hnested k other hother

end

end DatabaseEngine
