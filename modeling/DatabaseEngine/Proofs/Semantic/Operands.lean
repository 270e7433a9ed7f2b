import DatabaseEngine.Library.Acyclic
import DatabaseEngine.Spec.Typing

/-!
# `DatabaseEngine.Proofs.Semantic.Operands`: what binding and fitting do to expressions

A check changes two things in a pool of expressions: it writes positions and types onto
leaves, and it fits literals. Neither changes the shape of a tree.

* `Settles`: the second pool is the first with leaves written and the literals of some nodes
  fitted. `Settles.typeFrom_eq`: where no literal was fitted, the type is what it was.
* `exprResolve_settles`: binding an expression writes its leaves and fits nothing.
* `exprTypeFrom_eq`: on written leaves the code's type is `typeOf`.
* `exprEvaluateFrom_typed`: a value of a bound expression has its type.
-/

set_option autoImplicit false

namespace DatabaseEngine

open Library

/-! ### Nodes -/

section
variable {pool : ExprPool} {i j : Int32}

/-- A node that is found stands in the pool at its index. -/
theorem node_some {n : ExprNode} (h : pool.node i = some n) :
    ¬i < 0 ∧ pool[i.toInt.toNat]? = some n := by
  unfold ExprPool.node at h
  split at h
  · exact absurd h (by simp)
  · rename_i hneg
    exact ⟨hneg, h⟩

/-- Indexes from 0 on with one number are one index. -/
theorem toNat_inj (hi : ¬i < 0) (hj : ¬j < 0) (h : i.toInt.toNat = j.toInt.toNat) : i = j := by
  rw [Int32.lt_iff_toInt_lt] at hi hj
  have hzero : (0 : Int32).toInt = 0 := rfl
  rw [hzero] at hi hj
  exact Int32.toInt_inj.mp (by omega)

/-- Replacing one node changes no other. -/
theorem node_setNode {n : ExprNode} (m : ExprNode) (h : pool.node i = some n) (j : Int32) :
    (pool.setNode i m).node j = if j = i then some m else pool.node j := by
  obtain ⟨hi, hget⟩ := node_some h
  have hlt : i.toInt.toNat < pool.length := (List.getElem?_eq_some_iff.mp hget).1
  unfold ExprPool.node ExprPool.setNode
  by_cases hj : j < 0
  · rw [if_pos hj, if_pos hj, if_neg]
    rintro rfl
    exact hi hj
  · rw [if_neg hj, if_neg hj, List.getElem?_set]
    by_cases hij : j = i
    · subst hij
      rw [if_pos rfl, if_pos hlt, if_pos rfl]
    · rw [if_neg (fun heq => hij (toNat_inj hi hj heq).symm), if_neg hij]

/-- Writing a node makes the pool no longer. -/
theorem length_setNode (n : ExprNode) : (pool.setNode i n).length = pool.length :=
  List.length_set

end

/-- An index into a list of nodes. -/
theorem index_lt {α : Type} {xs : List α} {i : Int32}
    (h : (if i < 0 then none else xs[i.toInt.toNat]?).isSome) :
    ¬i < 0 ∧ i.toInt.toNat < xs.length := by
  by_cases hneg : i < 0
  · rw [if_pos hneg] at h
    exact absurd h (by simp)
  · rw [if_neg hneg] at h
    exact ⟨hneg, by simpa using h⟩

/-- Where the steps of a walk lead to nodes that exist and never in a circle, the nodes have ranks
below their number. -/
theorem exists_nodeRank {α : Type} {xs : List α} {children : Int32 → List Int32}
    (hinside : ∀ i, ∀ child ∈ children i,
      (if child < 0 then none else xs[child.toInt.toNat]?).isSome)
    (hacyclic : WellFounded fun child i => child ∈ children i) :
    ∃ rank : Int32 → Nat,
      (∀ i, (if i < 0 then none else xs[i.toInt.toNat]?).isSome → rank i < xs.length) ∧
        ∀ child i, child ∈ children i → rank child < rank i :=
  exists_rank (fun i => i.toInt.toNat) (fun _ hi => (index_lt hi).2)
    (fun _ _ hi hj hsame => toNat_inj (index_lt hi).1 (index_lt hj).1 hsame)
    (fun child i hstep => hinside i child hstep) hacyclic

/-- What a check leaves alone in a node. -/
structure ExprNode.Like (n n' : ExprNode) : Prop where
  kind : n'.kind = n.kind
  op : n'.op = n.op
  left : n'.left = n.left
  right : n'.right = n.right
  column : n'.column = n.column
  isNull : n'.literal.isNull = n.literal.isNull

/-- Every node is like itself. -/
theorem ExprNode.Like.refl (n : ExprNode) : n.Like n := ⟨rfl, rfl, rfl, rfl, rfl, rfl⟩

/-- Likeness of nodes carries over to a third. -/
theorem ExprNode.Like.trans {n m k : ExprNode} (h : n.Like m) (h' : m.Like k) : n.Like k :=
  ⟨h'.kind.trans h.kind, h'.op.trans h.op, h'.left.trans h.left, h'.right.trans h.right,
    h'.column.trans h.column, h'.isNull.trans h.isNull⟩

/-- A column is bound to its position, if it has one. -/
def ExprNode.Bound (table : CatalogNode) (n : ExprNode) : Prop :=
  n.kind = .EXPR_COLUMN → n.slot = findColumn table n.column.1

/-- A leaf carries its type. -/
def ExprNode.Stamped (table : CatalogNode) (n : ExprNode) : Prop :=
  (n.kind = .EXPR_COLUMN → n.slot = findColumn table n.column.1 ∧ 0 ≤ n.slot ∧
    n.type = table.columnType n.slot.toNat) ∧
  (n.kind = .EXPR_LITERAL → n.type = n.literal.type)

/-- A node stamped with its column is bound. -/
theorem ExprNode.Stamped.bound {table : CatalogNode} {n : ExprNode} (h : n.Stamped table) :
    n.Bound table := fun hkind => (h.1 hkind).1

/-- The second pool is the first with leaves written, and literals fitted at some nodes. -/
structure Settles (table : CatalogNode) (fitted : Int32 → Prop) (pool pool' : ExprPool) : Prop where
  length : pool'.length = pool.length
  node : ∀ j n, pool.node j = some n → ∃ n', pool'.node j = some n' ∧ n.Like n' ∧
    (n.Bound table → n'.Bound table) ∧
    (¬fitted j → n'.literal = n.literal ∧ (n.Stamped table → n'.Stamped table))

namespace Settles

variable {table : CatalogNode} {fitted fitted' : Int32 → Prop} {pool pool' pool'' : ExprPool}

/-- Every pool settles as itself. -/
theorem refl (table : CatalogNode) (fitted : Int32 → Prop) (pool : ExprPool) :
    Settles table fitted pool pool :=
  ⟨rfl, fun _ n h => ⟨n, h, .refl n, id, fun _ => ⟨rfl, id⟩⟩⟩

/-- One check behind the other settles what either does. -/
theorem trans (h : Settles table fitted pool pool') (h' : Settles table fitted' pool' pool'') :
    Settles table (fun j => fitted j ∨ fitted' j) pool pool'' := by
  refine ⟨h'.length.trans h.length, fun j n hn => ?_⟩
  obtain ⟨m, hm, hlike, hbound, hkept⟩ := h.node j n hn
  obtain ⟨k, hk, hlike', hbound', hkept'⟩ := h'.node j m hm
  refine ⟨k, hk, hlike.trans hlike', fun hb => hbound' (hbound hb), fun hfree => ?_⟩
  obtain ⟨hlit, hstamp⟩ := hkept fun hf => hfree (.inl hf)
  obtain ⟨hlit', hstamp'⟩ := hkept' fun hf => hfree (.inr hf)
  exact ⟨hlit'.trans hlit, fun hs => hstamp' (hstamp hs)⟩

/-- More nodes may be fitted than are. -/
theorem mono (h : Settles table fitted pool pool') (hmore : ∀ j, fitted j → fitted' j) :
    Settles table fitted' pool pool' :=
  ⟨h.length, fun j n hn => by
    obtain ⟨m, hm, hlike, hbound, hkept⟩ := h.node j n hn
    exact ⟨m, hm, hlike, hbound, fun hfree => hkept fun hf => hfree (hmore j hf)⟩⟩

/-- No node comes or goes. -/
theorem none_iff (h : Settles table fitted pool pool') (j : Int32) :
    pool'.node j = none ↔ pool.node j = none := by
  unfold ExprPool.node
  split
  · rfl
  · rw [List.getElem?_eq_none_iff, List.getElem?_eq_none_iff, h.length]

/-- The trees keep their shape. -/
theorem reachesFrom_eq (h : Settles table fitted pool pool') (fuel : Nat) (i j : Int32) :
    reachesFrom fuel pool' i j = reachesFrom fuel pool i j := by
  induction fuel generalizing i with
  | zero => rfl
  | succ fuel ih =>
    unfold reachesFrom
    cases hn : pool.node i with
    | none => rw [(h.none_iff i).mpr hn]
    | some n =>
      obtain ⟨n', hn', hlike, -⟩ := h.node i n hn
      simp only [hn', hlike.kind, hlike.left, hlike.right, ih]

/-- The checks make no literal and take none away. -/
theorem exprLiteral_isSome (h : Settles table fitted pool pool') (i : Int32) :
    (exprLiteral pool' i).isSome = (exprLiteral pool i).isSome := by
  unfold exprLiteral
  cases hn : pool.node i with
  | none => rw [(h.none_iff i).mpr hn]
  | some n =>
    obtain ⟨n', hn', hlike, -⟩ := h.node i n hn
    simp only [hn', hlike.kind]
    split <;> rfl

/-- A literal that is not fitted stays. -/
theorem exprLiteral_eq (h : Settles table fitted pool pool') {i : Int32} (hfree : ¬fitted i) :
    exprLiteral pool' i = exprLiteral pool i := by
  unfold exprLiteral
  cases hn : pool.node i with
  | none => rw [(h.none_iff i).mpr hn]
  | some n =>
    obtain ⟨n', hn', hlike, -, hkept⟩ := h.node i n hn
    simp only [hn', hlike.kind, (hkept hfree).1]

/-- Where no literal was fitted, the type is what it was. -/
theorem typeFrom_eq (h : Settles table fitted pool pool') {fuel : Nat} {i : Int32}
    (hfree : ∀ j, reachesFrom fuel pool i j = true → ¬fitted j) :
    typeFrom table fuel pool' i = typeFrom table fuel pool i := by
  induction fuel generalizing i with
  | zero => rfl
  | succ fuel ih =>
    have hself : ¬fitted i := hfree i (by simp [reachesFrom])
    unfold typeFrom
    cases hn : pool.node i with
    | none => rw [(h.none_iff i).mpr hn]
    | some n =>
      obtain ⟨n', hn', hlike, -, hkept⟩ := h.node i n hn
      have hlit : n'.literal = n.literal := (hkept hself).1
      simp only [hn', hlike.kind, hlike.left, hlike.right, hlike.column, hlit]
      cases hkind : n.kind with
      | EXPR_COLUMN => rfl
      | EXPR_LITERAL => rfl
      | EXPR_NEGATE =>
        have hleft := ih (i := n.left) fun j hj =>
          hfree j (by simp [reachesFrom, hn, hkind, hj])
        simp only [hleft]
      | EXPR_BINARY =>
        have hleft := ih (i := n.left) fun j hj =>
          hfree j (by simp [reachesFrom, hn, hkind, hj])
        have hright := ih (i := n.right) fun j hj =>
          hfree j (by simp [reachesFrom, hn, hkind, hj])
        simp only [hleft, hright]

/-- An operand with no fitted literal in it keeps its type. -/
theorem typeOf_eq (h : Settles table fitted pool pool') {i : Int32}
    (hfree : ∀ j, reaches pool i j = true → ¬fitted j) :
    typeOf table pool' i = typeOf table pool i := by
  unfold typeOf
  rw [h.length]
  exact h.typeFrom_eq hfree

/-- The checks leave the shape of the trees. -/
theorem reaches_eq (h : Settles table fitted pool pool') (i j : Int32) :
    reaches pool' i j = reaches pool i j := by
  unfold reaches
  rw [h.length]
  exact h.reachesFrom_eq _ i j

end Settles

/-! ### Binding -/

section
variable {table : CatalogNode} {pool : ExprPool} {i : Int32}

/-- Writing a leaf. -/
theorem settles_setNode {n n' : ExprNode} {fitted : Int32 → Prop} (hn : pool.node i = some n)
    (hlike : n.Like n') (hbound : n.Bound table → n'.Bound table)
    (hkept : ¬fitted i → n'.literal = n.literal ∧ (n.Stamped table → n'.Stamped table)) :
    Settles table fitted pool (pool.setNode i n') := by
  refine ⟨length_setNode n', fun j m hm => ?_⟩
  rw [node_setNode n' hn]
  by_cases hj : j = i
  · subst hj
    rw [hn] at hm
    obtain rfl := Option.some.inj hm
    exact ⟨n', if_pos rfl, hlike, hbound, hkept⟩
  · exact ⟨m, by rw [if_neg hj, hm], .refl m, id, fun _ => ⟨rfl, id⟩⟩

/-- A column bound to the position that its name finds. -/
theorem settles_bindColumn {n : ExprNode} (hn : pool.node i = some n)
    (hkind : n.kind = .EXPR_COLUMN) :
    Settles table (fun _ => False) pool
        (pool.setNode i { n with kind := .EXPR_COLUMN, slot := findColumn table n.column.1 }) ∧
      Settles table (fun _ => False) pool
        (pool.setNode i
          { n with
            kind := .EXPR_COLUMN
            slot := findColumn table n.column.1
            type := table.columnType (findColumn table n.column.1).toNat }) := by
  refine ⟨settles_setNode hn ⟨hkind.symm, rfl, rfl, rfl, rfl, rfl⟩ (fun _ _ => rfl)
      fun _ => ⟨rfl, fun hs => ⟨fun _ => ?_, fun hlit => absurd hlit (by simp)⟩⟩,
    settles_setNode hn ⟨hkind.symm, rfl, rfl, rfl, rfl, rfl⟩ (fun _ _ => rfl)
      fun _ => ⟨rfl, fun hs => ⟨fun _ => ?_, fun hlit => absurd hlit (by simp)⟩⟩⟩
  · obtain ⟨hslot, hpos, htype⟩ := hs.1 hkind
    refine ⟨rfl, hslot ▸ hpos, ?_⟩
    rw [← hslot]
    exact htype
  · obtain ⟨hslot, hpos, -⟩ := hs.1 hkind
    exact ⟨rfl, hslot ▸ hpos, rfl⟩

/-- Binding an expression fits no literal; when it succeeds, all leaves are written. -/
theorem exprResolveFrom_settles (fuel : Nat) :
    Settles table (fun _ => False) pool (exprResolveFrom fuel table pool i).2 ∧
      ((exprResolveFrom fuel table pool i).1 = .ok () → ∀ j n,
        reachesFrom fuel pool i j = true →
          (exprResolveFrom fuel table pool i).2.node j = some n → n.Stamped table) := by
  induction fuel generalizing pool i with
  | zero => exact ⟨.refl _ _ _, fun h => by simp [exprResolveFrom] at h⟩
  | succ fuel ih =>
    unfold exprResolveFrom
    cases hn : pool.node i with
    | none => exact ⟨.refl _ _ _, fun h => by simp at h⟩
    | some n =>
      cases hkind : n.kind with
      | EXPR_COLUMN =>
        simp only [hkind]
        obtain ⟨hslot, hbind⟩ := settles_bindColumn hn hkind
        split
        · exact ⟨hslot, fun h => by simp at h⟩
        · split
          · exact ⟨hslot, fun h => by simp at h⟩
          · rename_i hpos
            refine ⟨hbind, fun _ j m hj hm => ?_⟩
            have hij : i = j := by
              simp only [reachesFrom, hn, hkind, Bool.or_false, beq_iff_eq] at hj
              exact hj
            rw [node_setNode _ hn, if_pos hij.symm] at hm
            obtain rfl := Option.some.inj hm
            exact ⟨fun _ => ⟨rfl, Int.not_lt.mp hpos, rfl⟩, fun hlit => absurd hlit (by simp)⟩
      | EXPR_LITERAL =>
        simp only [hkind]
        refine ⟨settles_setNode hn ⟨hkind.symm, rfl, rfl, rfl, rfl, rfl⟩
          (fun _ hcol => absurd hcol (by simp)) fun _ => ⟨rfl, fun _ => ?_⟩,
          fun _ j m hj hm => ?_⟩
        · exact ⟨fun hcol => absurd hcol (by simp), fun _ => rfl⟩
        · have hij : i = j := by
            simp only [reachesFrom, hn, hkind, Bool.or_false, beq_iff_eq] at hj
            exact hj
          rw [node_setNode _ hn, if_pos hij.symm] at hm
          obtain rfl := Option.some.inj hm
          exact ⟨fun hcol => absurd hcol (by simp), fun _ => rfl⟩
      | EXPR_NEGATE =>
        simp only [hkind]
        obtain ⟨hsettles, hstamped⟩ := ih (i := n.left)
        refine ⟨hsettles, fun hok j m hj hm => ?_⟩
        simp only [reachesFrom, hn, hkind, Bool.or_eq_true, beq_iff_eq] at hj
        rcases hj with rfl | hj
        · -- the node itself is no leaf
          obtain ⟨n', hn', hlike, -⟩ := hsettles.node i n hn
          rw [hm] at hn'
          obtain rfl := Option.some.inj hn'
          have hkind' : m.kind = .EXPR_NEGATE := hlike.kind.trans hkind
          exact ⟨fun h => absurd (hkind'.symm.trans h) (by simp),
            fun h => absurd (hkind'.symm.trans h) (by simp)⟩
        · exact hstamped hok j m hj hm
      | EXPR_BINARY =>
        simp only [hkind]
        obtain ⟨hsettles, hstamped⟩ := ih (i := n.left)
        generalize hleft : exprResolveFrom fuel table pool n.left = r at hsettles hstamped
        obtain ⟨r, pool'⟩ := r
        cases r with
        | error code => exact ⟨hsettles, fun h => by simp at h⟩
        | ok u =>
          obtain ⟨hsettles', hstamped'⟩ := ih (i := n.right)
          have hboth := (hsettles.trans hsettles').mono fun j h => h.elim id id
          refine ⟨hboth, fun hok j m hj hm => ?_⟩
          simp only [reachesFrom, hn, hkind, Bool.or_eq_true, beq_iff_eq] at hj
          rcases hj with rfl | hj | hj
          · obtain ⟨n', hn', hlike, -⟩ := hboth.node i n hn
            rw [hm] at hn'
            obtain rfl := Option.some.inj hn'
            have hkind' : m.kind = .EXPR_BINARY := hlike.kind.trans hkind
            exact ⟨fun h => absurd (hkind'.symm.trans h) (by simp),
              fun h => absurd (hkind'.symm.trans h) (by simp)⟩
          · -- what was written on the left stays written
            cases hnode : pool'.node j with
            | none =>
              rw [(hsettles'.none_iff j).mpr hnode] at hm
              exact absurd hm (by simp)
            | some k =>
              obtain ⟨m', hm', -, -, hkept⟩ := hsettles'.node j k hnode
              rw [hm] at hm'
              obtain rfl := Option.some.inj hm'
              exact (hkept id).2 (hstamped rfl j k hj hnode)
          · exact hstamped' hok j m (by rwa [hsettles.reachesFrom_eq]) hm

/-- Resolving an expression writes its columns only. -/
theorem exprResolve_settles :
    Settles table (fun _ => False) pool (exprResolve table pool i).2 :=
  (exprResolveFrom_settles _).1

/-- After a successful binding the leaves of the expression are written. -/
theorem exprResolve_stamped (h : (exprResolve table pool i).1 = .ok ()) {j : Int32}
    {n : ExprNode} (hj : reaches pool i j = true)
    (hn : (exprResolve table pool i).2.node j = some n) : n.Stamped table :=
  (exprResolveFrom_settles _).2 h j n hj hn

/-- On written leaves the code's type is the static one. -/
theorem exprTypeFrom_eq {fuel : Nat} {type : ColType}
    (hstamped : ∀ j n, reachesFrom fuel pool i j = true → pool.node j = some n → n.Stamped table)
    (h : exprTypeFrom fuel pool i = .ok type) : typeFrom table fuel pool i = some type := by
  induction fuel generalizing i type with
  | zero => simp [exprTypeFrom] at h
  | succ fuel ih =>
    unfold exprTypeFrom at h
    unfold typeFrom
    cases hn : pool.node i with
    | none => simp [hn] at h
    | some n =>
      have hself : n.Stamped table := hstamped i n (by simp [reachesFrom]) hn
      simp only [hn] at h ⊢
      cases hkind : n.kind with
      | EXPR_COLUMN =>
        simp only [hkind] at h ⊢
        obtain ⟨hslot, hpos, htype⟩ := hself.1 hkind
        rw [← hslot]
        cases hs : n.slot with
        | ofNat slot =>
          rw [hs] at htype
          rw [← Except.ok.inj h, htype]
          rfl
        | negSucc slot => rw [hs] at hpos; simp at hpos
      | EXPR_LITERAL =>
        simp only [hkind] at h ⊢
        rw [← hself.2 hkind, Except.ok.inj h]
      | EXPR_NEGATE =>
        simp only [hkind] at h ⊢
        cases hleft : exprTypeFrom fuel pool n.left with
        | error code => simp [hleft, Except.bind, bind] at h
        | ok left =>
          have hl := ih (i := n.left) (fun j m hj => hstamped j m (by simp [reachesFrom, hn, hkind, hj]))
            hleft
          simp only [hleft, bind, Except.bind] at h
          rw [hl]
          split at h
          · rename_i hnumber
            obtain rfl := Except.ok.inj h
            exact Option.filter_eq_some_iff.mpr ⟨rfl, hnumber⟩
          · exact absurd h (by simp)
      | EXPR_BINARY =>
        simp only [hkind] at h ⊢
        cases hleft : exprTypeFrom fuel pool n.left with
        | error code => simp [hleft, Except.bind, bind] at h
        | ok left =>
          cases hright : exprTypeFrom fuel pool n.right with
          | error code => simp [hleft, hright, Except.bind, bind] at h
          | ok right =>
            have hl := ih (i := n.left) (fun j m hj => hstamped j m (by simp [reachesFrom, hn, hkind, hj]))
              hleft
            have hr := ih (i := n.right)
              (fun j m hj => hstamped j m (by simp [reachesFrom, hn, hkind, hj])) hright
            simp only [hleft, hright, bind, Except.bind] at h
            simp only [hl, hr]
            split at h
            · exact absurd h (by simp)
            · rename_i hnumbers
              rw [if_neg hnumbers]
              split at h
              · rename_i hfloat
                rw [if_pos hfloat, Except.ok.inj h]
              · rename_i hints
                rw [if_neg hints, Except.ok.inj h]

/-! ### Evaluating -/

/-- A position that a name finds is one of the columns. -/
theorem findColumn_lt {name : List UInt8} {slot : Nat} (h : findColumn table name = .ofNat slot) :
    slot < table.cols.length := by
  have hnamed : ∀ {rest : List UInt8} {i : Nat}, columnNamed table.cols rest = some i →
      i < table.cols.length := fun hi => (List.findIdx?_eq_some_iff_getElem.mp hi).1
  unfold findColumn at h
  split at h
  · rename_i i hi
    obtain rfl := Int.ofNat.inj h
    exact hnamed hi
  · split at h
    · split at h
      · split at h
        · rename_i i hi
          obtain rfl := Int.ofNat.inj h
          exact hnamed hi
        · exact absurd h (by simp)
      · exact absurd h (by simp)
    · split at h
      · exact absurd h (by simp)
      · rename_i i hi
        obtain rfl := Int.ofNat.inj h
        have hmem := List.mem_singleton_self i
        rw [← hi] at hmem
        exact List.mem_range.mp (List.mem_filter.mp hmem).1
      · exact absurd h (by simp [COLUMN_AMBIGUOUS])

/-- Narrowing answers an INT. -/
theorem narrow_type {n : Int} {v : Value} (h : narrow n = .ok v) : v.type = .TYPE_INT := by
  unfold narrow at h
  split at h
  · exact absurd h (by simp)
  · rw [← Except.ok.inj h]
    rfl

/-- Arithmetic of integers answers an INT. -/
theorem applyInts_type {op : ArithOp} {a b : Int32} {v : Value} (h : applyInts op a b = .ok v) :
    v.type = .TYPE_INT := by
  unfold applyInts at h
  split at h
  · exact narrow_type h
  · exact narrow_type h
  · exact narrow_type h
  · split at h
    · exact absurd h (by simp)
    · split at h
      · exact absurd h (by simp)
      · exact narrow_type h
  · split at h
    · exact absurd h (by simp)
    · split at h
      · exact absurd h (by simp)
      · exact narrow_type h

/-- Arithmetic of reals answers a FLOAT. -/
theorem applyReals_type {op : ArithOp} {a b : UInt64} {v : Value} (h : applyReals op a b = .ok v) :
    v.type = .TYPE_FLOAT := by
  unfold applyReals at h
  split at h
  · rw [← Except.ok.inj h]; rfl
  · rw [← Except.ok.inj h]; rfl
  · rw [← Except.ok.inj h]; rfl
  · split at h
    · exact absurd h (by simp)
    · rw [← Except.ok.inj h]; rfl
  · exact absurd h (by simp)

/-- Negation keeps the type. -/
theorem negate_type {left v : Value} (h : negate left = .ok v) (hv : v.isNull = false) :
    left.isNull = false ∧ v.type = left.type := by
  unfold negate at h
  split at h
  · rename_i hnull
    rw [← Except.ok.inj h, hnull] at hv
    exact absurd hv (by simp)
  · rename_i hleft
    refine ⟨by simpa using hleft, ?_⟩
    split at h
    · rename_i hfloat
      rw [← Except.ok.inj h, hfloat]
      rfl
    · split at h
      · exact absurd h (by simp)
      · rename_i hint
        rw [applyInts_type h]
        exact (not_not.mp hint).symm

/-- Arithmetic answers a FLOAT as soon as one side is one, and an INT otherwise. -/
theorem combine_type {op : ArithOp} {left right v : Value} (h : combine op left right = .ok v)
    (hv : v.isNull = false) :
    left.isNull = false ∧ right.isNull = false ∧
      v.type = if left.type = .TYPE_FLOAT ∨ right.type = .TYPE_FLOAT then .TYPE_FLOAT
        else .TYPE_INT := by
  unfold combine at h
  split at h
  · rw [← Except.ok.inj h] at hv
    exact absurd hv (by simp [setNull])
  · rename_i hnull
    simp only [Bool.or_eq_true, not_or, Bool.not_eq_true] at hnull
    refine ⟨hnull.1, hnull.2, ?_⟩
    split at h
    · exact absurd h (by simp)
    · split at h
      · rename_i hfloat
        rw [if_pos hfloat, applyReals_type h]
      · rename_i hints
        rw [if_neg hints, applyInts_type h]

/-- A value that a bound expression gives on a row of the table has the expression's type. -/
theorem exprEvaluateFrom_typed {fuel : Nat} {row : Row} {v : Value} {type : ColType}
    (hrow : RowOf table row)
    (hbound : ∀ j n, reachesFrom fuel pool i j = true → pool.node j = some n → n.Bound table)
    (htype : typeFrom table fuel pool i = some type)
    (h : exprEvaluateFrom fuel pool i row = .ok v) (hv : v.isNull = false) : v.type = type := by
  induction fuel generalizing i v type with
  | zero => simp [exprEvaluateFrom] at h
  | succ fuel ih =>
    unfold exprEvaluateFrom at h
    unfold typeFrom at htype
    cases hn : pool.node i with
    | none => simp [hn] at h
    | some n =>
      have hself : n.Bound table := hbound i n (by simp [reachesFrom]) hn
      simp only [hn] at h htype
      cases hkind : n.kind with
      | EXPR_COLUMN =>
        simp only [hkind] at h htype
        rw [← hself hkind] at htype
        split at h
        · exact absurd h (by simp)
        · cases hs : n.slot with
          | negSucc slot => simp [hs] at htype
          | ofNat slot =>
            have hlt : slot < table.cols.length := findColumn_lt ((hself hkind).symm.trans hs)
            rw [hs] at h htype
            rw [← Except.ok.inj h] at hv ⊢
            rw [← Option.some.inj htype]
            rcases hrow slot hlt with hnull | htyped
            · exact absurd (hv.symm.trans hnull) (by simp)
            · exact htyped
      | EXPR_LITERAL =>
        simp only [hkind] at h htype
        rw [← Except.ok.inj h, Option.some.inj htype]
      | EXPR_NEGATE =>
        simp only [hkind] at h htype
        cases hleft : exprEvaluateFrom fuel pool n.left row with
        | error code => simp [hleft, bind, Except.bind] at h
        | ok left =>
          simp only [hleft, bind, Except.bind] at h
          obtain ⟨hl, heq⟩ := negate_type h hv
          obtain ⟨htl, -⟩ := Option.filter_eq_some_iff.mp htype
          rw [heq]
          exact ih (fun j m hj => hbound j m (by simp [reachesFrom, hn, hkind, hj])) htl hleft hl
      | EXPR_BINARY =>
        simp only [hkind] at h htype
        cases hleft : exprEvaluateFrom fuel pool n.left row with
        | error code => simp [hleft, bind, Except.bind] at h
        | ok left =>
          cases hright : exprEvaluateFrom fuel pool n.right row with
          | error code => simp [hleft, hright, bind, Except.bind] at h
          | ok right =>
            simp only [hleft, hright, bind, Except.bind] at h
            obtain ⟨hl, hr, heq⟩ := combine_type h hv
            cases htl : typeFrom table fuel pool n.left with
            | none => simp [htl] at htype
            | some tl =>
              cases htr : typeFrom table fuel pool n.right with
              | none => simp [htl, htr] at htype
              | some tr =>
                have hlt := ih (fun j m hj => hbound j m (by simp [reachesFrom, hn, hkind, hj]))
                  htl hleft hl
                have hrt := ih (fun j m hj => hbound j m (by simp [reachesFrom, hn, hkind, hj]))
                  htr hright hr
                simp only [htl, htr] at htype
                rw [heq, hlt, hrt]
                split at htype
                · exact absurd htype (by simp)
                · split at htype
                  · rename_i hfloat
                    rw [if_pos hfloat, Option.some.inj htype]
                  · rename_i hints
                    rw [if_neg hints, Option.some.inj htype]

/-- An expression with a type can be bound. -/
theorem exprResolveFrom_ok {fuel : Nat} (h : (typeFrom table fuel pool i).isSome = true) :
    (exprResolveFrom fuel table pool i).1 = .ok () := by
  induction fuel generalizing pool i with
  | zero => simp [typeFrom] at h
  | succ fuel ih =>
    unfold typeFrom at h
    unfold exprResolveFrom
    cases hn : pool.node i with
    | none => simp [hn] at h
    | some n =>
      simp only [hn] at h ⊢
      cases hkind : n.kind with
      | EXPR_COLUMN =>
        simp only [hkind] at h ⊢
        cases hslot : findColumn table n.column.1 with
        | negSucc slot => simp [hslot] at h
        | ofNat slot =>
          have hpos : ¬(Int.ofNat slot : Int) < 0 := Int.not_lt.mpr (Int.natCast_nonneg slot)
          have hclear : (Int.ofNat slot : Int) ≠ COLUMN_AMBIGUOUS := fun heq =>
            hpos (by rw [heq]; decide)
          rw [if_neg hclear, if_neg hpos]
      | EXPR_LITERAL => rfl
      | EXPR_NEGATE =>
        simp only [hkind] at h ⊢
        refine ih ?_
        obtain ⟨type, htype⟩ := Option.isSome_iff_exists.mp h
        rw [(Option.filter_eq_some_iff.mp htype).1]
        rfl
      | EXPR_BINARY =>
        simp only [hkind] at h ⊢
        cases hl : typeFrom table fuel pool n.left with
        | none => simp [hl] at h
        | some left =>
          cases hr : typeFrom table fuel pool n.right with
          | none => simp [hl, hr] at h
          | some right =>
            have hleft := ih (i := n.left) (by rw [hl]; rfl)
            have hsettles := (@exprResolveFrom_settles table pool n.left fuel).1
            generalize exprResolveFrom fuel table pool n.left = r at hleft hsettles
            obtain ⟨r, pool'⟩ := r
            obtain rfl : r = .ok () := hleft
            refine ih ?_
            rw [hsettles.typeFrom_eq (fun _ _ => id), hr]
            rfl

/-- An expression that has a type is resolved. -/
theorem exprResolve_ok (h : (typeOf table pool i).isSome = true) :
    (exprResolve table pool i).1 = .ok () :=
  exprResolveFrom_ok h

/-- Two pools made of one give the same values where both are bound and no literal was
fitted. -/
theorem exprEvaluateFrom_congr {fitted fitted' : Int32 → Prop} {left right : ExprPool}
    (h : Settles table fitted pool left) (h' : Settles table fitted' pool right) {fuel : Nat}
    {row : Row}
    (hbound : ∀ j n, reachesFrom fuel pool i j = true → left.node j = some n → n.Bound table)
    (hbound' : ∀ j n, reachesFrom fuel pool i j = true → right.node j = some n → n.Bound table)
    (hfree : ∀ j, reachesFrom fuel pool i j = true → ¬fitted j)
    (hfree' : ∀ j, reachesFrom fuel pool i j = true → ¬fitted' j) :
    exprEvaluateFrom fuel left i row = exprEvaluateFrom fuel right i row := by
  induction fuel generalizing i with
  | zero => rfl
  | succ fuel ih =>
    have hself : reachesFrom (fuel + 1) pool i i = true := by simp [reachesFrom]
    unfold exprEvaluateFrom
    cases hn : pool.node i with
    | none => rw [(h.none_iff i).mpr hn, (h'.none_iff i).mpr hn]
    | some n =>
      obtain ⟨m, hm, hlike, -, hkept⟩ := h.node i n hn
      obtain ⟨m', hm', hlike', -, hkept'⟩ := h'.node i n hn
      have hlit : m.literal = m'.literal :=
        (hkept (hfree i hself)).1.trans (hkept' (hfree' i hself)).1.symm
      have hbelow : ∀ k, (∀ j, reachesFrom fuel pool k j = true →
          reachesFrom (fuel + 1) pool i j = true) →
          exprEvaluateFrom fuel left k row = exprEvaluateFrom fuel right k row := fun k hk =>
        ih (fun j a hj => hbound j a (hk j hj)) (fun j a hj => hbound' j a (hk j hj))
          (fun j hj => hfree j (hk j hj)) fun j hj => hfree' j (hk j hj)
      simp only [hm, hm', hlike.kind, hlike'.kind, hlike.left, hlike'.left, hlike.right,
        hlike'.right, hlike.op, hlike'.op, hlit]
      cases hkind : n.kind with
      | EXPR_COLUMN =>
        have hslot : m.slot = m'.slot := by
          rw [hbound i m hself hm (hlike.kind.trans hkind),
            hbound' i m' hself hm' (hlike'.kind.trans hkind), hlike.column, hlike'.column]
        simp only [hslot]
      | EXPR_LITERAL => rfl
      | EXPR_NEGATE =>
        simp only [hbelow n.left fun j hj => by simp [reachesFrom, hn, hkind, hj]]
      | EXPR_BINARY =>
        simp only [hbelow n.left fun j hj => by simp [reachesFrom, hn, hkind, hj],
          hbelow n.right fun j hj => by simp [reachesFrom, hn, hkind, hj]]

/-! ### Literals -/

/-- A literal is a literal node of the pool. -/
theorem exprLiteral_some {v : Value} (h : exprLiteral pool i = some v) :
    ∃ n, pool.node i = some n ∧ n.kind = .EXPR_LITERAL ∧ n.literal = v := by
  unfold exprLiteral at h
  split at h
  · rename_i n hn
    split at h
    · rename_i hkind
      exact ⟨n, hn, hkind, Option.some.inj h⟩
    · exact absurd h (by simp)
  · exact absurd h (by simp)

/-- A literal has no other node below it. -/
theorem reaches_literal {v : Value} (h : exprLiteral pool i = some v) {j : Int32}
    (hj : reaches pool i j = true) : j = i := by
  obtain ⟨n, hn, hkind, -⟩ := exprLiteral_some h
  simp only [reaches, reachesFrom, hn, hkind, Bool.or_false, beq_iff_eq] at hj
  exact hj.symm

/-- A literal has its own type. -/
theorem typeOf_literal {v : Value} (h : exprLiteral pool i = some v) :
    typeOf table pool i = some v.type := by
  obtain ⟨n, hn, hkind, rfl⟩ := exprLiteral_some h
  simp only [typeOf, typeFrom, hn, hkind]

/-- A literal evaluates to itself on every row. -/
theorem exprEvaluate_literal {v : Value} (h : exprLiteral pool i = some v) (row : Row) :
    exprEvaluate pool i row = .ok v := by
  obtain ⟨n, hn, hkind, rfl⟩ := exprLiteral_some h
  simp only [exprEvaluate, exprEvaluateFrom, hn, hkind]

/-- Every node reaches itself. -/
theorem reaches_self : reaches pool i i = true := by simp [reaches, reachesFrom]

/-- A literal stays one, and NULL or not. -/
theorem Settles.literal {fitted : Int32 → Prop} {pool' : ExprPool}
    (h : Settles table fitted pool pool') {v : Value} (hv : exprLiteral pool i = some v) :
    ∃ v', exprLiteral pool' i = some v' ∧ v'.isNull = v.isNull := by
  obtain ⟨n, hn, hkind, rfl⟩ := exprLiteral_some hv
  obtain ⟨n', hn', hlike, -⟩ := h.node i n hn
  refine ⟨n'.literal, ?_, hlike.isNull⟩
  simp only [exprLiteral, hn', hlike.kind, hkind, if_true]

/-- What fitting makes of a literal. -/
theorem coerceLiteral_ok {v v' : Value} {type : ColType} (h : coerceLiteral v type = .ok v') :
    v'.type = type ∧ v'.isNull = v.isNull ∧
      (v.isNull = false → v.type = type ∨ type = .TYPE_FLOAT ∧ v.type = .TYPE_INT ∨
        type = .TYPE_DATE ∧ v.type = .TYPE_TEXT) := by
  unfold coerceLiteral at h
  split at h
  · rename_i hnull
    rw [← Except.ok.inj h]
    exact ⟨rfl, rfl, fun hv => absurd (hnull.symm.trans hv) (by simp)⟩
  · rename_i hnull
    split at h
    · rename_i heq
      rw [← Except.ok.inj h]
      exact ⟨heq, rfl, fun _ => .inl heq⟩
    · split at h
      · rename_i hfloat
        rw [← Except.ok.inj h]
        refine ⟨hfloat.1.symm, ?_, fun _ => .inr (.inl hfloat)⟩
        rw [Bool.not_eq_true] at hnull
        rw [hnull]
        rfl
      · split at h
        · rename_i hdate
          split at h
          · exact absurd h (by simp)
          · rw [← Except.ok.inj h]
            exact ⟨hdate.1.symm, rfl, fun _ => .inr (.inr hdate)⟩
        · exact absurd h (by simp)

/-- Fitting the literal at an index. -/
theorem coerceAt_settles {v : Value} {type : ColType} {pool' : ExprPool}
    (hv : exprLiteral pool i = some v) (h : coerceAt pool i type = .ok pool') :
    ∃ v', coerceLiteral v type = .ok v' ∧ Settles table (fun j => j = i) pool pool' ∧
      exprLiteral pool' i = some v' := by
  obtain ⟨n, hn, hkind, rfl⟩ := exprLiteral_some hv
  unfold coerceAt at h
  simp only [hn] at h
  split at h
  · exact absurd h (by simp)
  · rename_i v' hv'
    rw [← Except.ok.inj h]
    refine ⟨v', hv', settles_setNode hn
      ⟨rfl, rfl, rfl, rfl, rfl, (coerceLiteral_ok hv').2.1⟩ (fun hb => hb)
      fun hne => absurd rfl hne, ?_⟩
    simp only [exprLiteral, node_setNode _ hn, if_true, hkind]

end

end DatabaseEngine
