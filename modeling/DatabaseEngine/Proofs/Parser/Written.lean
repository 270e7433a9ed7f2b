import DatabaseEngine.Proofs.Parser.Selects
import DatabaseEngine.Proofs.Parser.Spans
import DatabaseEngine.Proofs.Semantic.Agreement
import DatabaseEngine.Spec.Membership

/-!
# `DatabaseEngine.Proofs.Parser.Written`: what a reader of conditions writes

The sides of a comparison have no node in common, and no comparison reads a node of another, but for
the equalities of one list, which share their left side.

* `Wrote`: comparisons on stretches that lie one behind the other; `Wrote.written`: they are a
  condition as the check of its types has it.
* `inListLoop_orOf`: a list is read as the OR of the equalities.
* `Writes`: what a reader of conditions leaves; `Writes.rule`: every reader leaves that.
* `parseOrExpression_written`, `parseWhere_written`: a condition that was read by itself.
* `parseSelectFrom_written`: every condition of a SELECT.
-/

set_option autoImplicit false

namespace DatabaseEngine

open Library

/-! ### Comparisons -/

/-- An equality, as a list is read into. -/
def equality (left right : Int32) : Predicate :=
  { left := left, op := .OP_EQ, right := right, subquery := -1 }

/-- Comparisons as they are read into a stretch of the pool: one by itself, the equalities of a list,
and what was read behind them. The stretch may be wider than what they take. -/
inductive Wrote (exprs : ExprPool) : Nat → List Predicate → Nat → Prop
  | single {lo hi : Nat} {compare : Predicate} (operands : SpanList exprs lo compare.operands hi)
      (pattern : compare.matchesPattern = true →
        ∃ literal, exprLiteral exprs compare.right = some literal ∧ literal.type = .TYPE_TEXT) :
      Wrote exprs lo [compare] hi
  | list {lo hi : Nat} {left : Int32} {rights : List Int32}
      (operands : SpanList exprs lo (left :: rights) hi) :
      Wrote exprs lo (rights.map (equality left)) hi
  | append {lo mid hi : Nat} {front behind : List Predicate} (first : Wrote exprs lo front mid)
      (second : Wrote exprs mid behind hi) : Wrote exprs lo (front ++ behind) hi
  | wider {lo hi lo' hi' : Nat} {list : List Predicate} (inner : Wrote exprs lo list hi)
      (low : lo' ≤ lo) (high : hi ≤ hi') : Wrote exprs lo' list hi'

section
variable {exprs exprs' : ExprPool} {compare other : Predicate} {list : List Predicate} {lo hi : Nat}
  {j : Int32}

/-- A comparison of two sides reads both. -/
theorem Predicate.reads_sides (h : compare.plain = true) :
    compare.reads exprs compare.left = true ∧ compare.reads exprs compare.right = true :=
  ⟨List.any_eq_true.mpr ⟨_, (compare.mem_operands h).1, reaches_self⟩,
    List.any_eq_true.mpr ⟨_, (compare.mem_operands h).2, reaches_self⟩⟩

/-- Comparisons that read no node in common spare each other. -/
theorem Predicate.spares_of_apart
    (h : ∀ j, compare.reads exprs j = true → other.reads exprs j = false) :
    compare.Spares exprs other ∧ other.Spares exprs compare := by
  constructor
  · intro hplain
    have hleft : other.reads exprs other.left = true := (other.reads_sides hplain).1
    have hright : other.reads exprs other.right = true := (other.reads_sides hplain).2
    refine ⟨?_, fun hreads => absurd (h _ hreads) (by simp [hleft])⟩
    rw [← Bool.not_eq_true]
    exact fun hreads => absurd (h _ hreads) (by simp [hright])
  · intro hplain
    have hleft : compare.reads exprs compare.left = true := (compare.reads_sides hplain).1
    have hright : compare.reads exprs compare.right = true := (compare.reads_sides hplain).2
    exact ⟨h _ hright, fun hreads => absurd (h _ hleft) (by simp [hreads])⟩

/-- What was written ends no earlier than it starts. -/
theorem Wrote.le (h : Wrote exprs lo list hi) : lo ≤ hi := by
  induction h with
  | single operands => exact operands.le
  | list operands => exact operands.le
  | append _ _ ih ih' => exact Nat.le_trans ih ih'
  | wider _ low high ih => exact Nat.le_trans low (Nat.le_trans ih high)

/-- A literal stays one when nodes are added. -/
theorem exprLiteral_front {v : Value} (h : exprLiteral exprs j = some v) (hfront : exprs <+: exprs') :
    exprLiteral exprs' j = some v := by
  obtain ⟨node, hnode, hkind, rfl⟩ := exprLiteral_some h
  have hnode' : exprs'.node j = some node := by
    unfold ExprPool.node at hnode ⊢
    split at hnode
    · exact absurd hnode (by simp)
    · rw [if_neg ‹_›, getElem?_of_front hfront (List.getElem?_eq_some_iff.mp hnode).1]
      exact hnode
  unfold exprLiteral
  rw [hnode']
  dsimp only
  rw [if_pos hkind]

/-- Nodes that come later change nothing. -/
theorem Wrote.front (h : Wrote exprs lo list hi) (hfront : exprs <+: exprs') :
    Wrote exprs' lo list hi := by
  induction h with
  | single operands pattern =>
    refine .single (operands.front hfront) fun hmatches => ?_
    obtain ⟨literal, hliteral, htype⟩ := pattern hmatches
    exact ⟨literal, exprLiteral_front hliteral hfront, htype⟩
  | list operands => exact .list (operands.front hfront)
  | append _ _ ih ih' => exact .append ih ih'
  | wider _ low high ih => exact .wider ih low high

/-- What is read is in the stretch. -/
theorem Wrote.within (h : Wrote exprs lo list hi) (hin : compare ∈ list)
    (hreads : compare.reads exprs j = true) : Within lo hi j := by
  induction h with
  | single operands _ =>
    obtain rfl := List.mem_singleton.mp hin
    obtain ⟨i, hi, hreach⟩ := List.any_eq_true.mp hreads
    exact operands.within hi hreach
  | list operands =>
    obtain ⟨right, hright, rfl⟩ := List.mem_map.mp hin
    obtain ⟨i, hi, hreach⟩ := List.any_eq_true.mp hreads
    refine operands.within (i := i) ?_ hreach
    rcases Predicate.operands_plain hi with rfl | rfl
    · exact List.mem_cons_self
    · exact List.mem_cons_of_mem _ hright
  | append first second ih ih' =>
    rcases List.mem_append.mp hin with hin | hin
    · exact (ih hin).mono (Nat.le_refl _) second.le
    · exact (ih' hin).mono first.le (Nat.le_refl _)
  | wider _ low high ih => exact (ih hin).mono low high

/-- Each comparison has two sides that are apart, and a pattern is a text. -/
theorem Wrote.each (h : Wrote exprs lo list hi) : ∀ compare ∈ list, compare.Written exprs := by
  induction h with
  | @single lo hi compare operands pattern =>
    intro other hin
    obtain rfl := List.mem_singleton.mp hin
    refine ⟨fun hplain => ?_, fun hmatches => ?_⟩
    · obtain ⟨hop, hone, htakes, -⟩ := other.plain_op hplain
      have hsides : other.operands = [other.left, other.right] := by
        simp [Predicate.operands, hop, hone, htakes]
      rw [hsides] at operands
      have hapart := List.rel_of_pairwise_cons operands.apart (List.mem_singleton_self other.right)
      exact hapart.roots
    · obtain ⟨literal, hliteral, htype⟩ := pattern hmatches
      rw [hliteral]
      exact decide_eq_true htype
  | list operands =>
    intro other hin
    obtain ⟨right, hright, rfl⟩ := List.mem_map.mp hin
    exact ⟨fun _ => (List.rel_of_pairwise_cons operands.apart hright).roots,
      fun hno => absurd hno (by simp [Predicate.matchesPattern, equality])⟩
  | append _ _ ih ih' =>
    intro other hin
    exact (List.mem_append.mp hin).elim (ih other) (ih' other)
  | wider _ _ _ ih => exact ih

/-- Of two comparisons neither reads what the other may fit, but for the left side of a list. -/
theorem Wrote.apart (h : Wrote exprs lo list hi) :
    list.Pairwise fun compare other =>
      compare.Spares exprs other ∧ other.Spares exprs compare := by
  induction h with
  | single _ _ => exact List.pairwise_singleton _ _
  | @list lo hi left rights operands =>
    obtain ⟨hleft, hrights⟩ := List.pairwise_cons.mp operands.apart
    -- the left side is apart from each value, and the values are apart from each other
    have hspares : ∀ {right other : Int32}, right ∈ rights → other ∈ rights →
        reaches exprs right other = false →
          (equality left right).Spares exprs (equality left other) := by
      intro right other hright hother hfalse _
      refine ⟨?_, fun _ => ⟨rfl, rfl, (hleft right hright).roots.2⟩⟩
      show [left, right].any (fun i => reaches exprs i other) = false
      simp [(hleft other hother).roots.1, hfalse]
    refine List.pairwise_map.mpr (hrights.imp_of_mem fun hright hother hapart => ?_)
    exact ⟨hspares hright hother hapart.roots.1, hspares hother hright hapart.roots.2⟩
  | append first second ih ih' =>
    refine List.pairwise_append.mpr ⟨ih, ih', fun compare hin other hother => ?_⟩
    refine Predicate.spares_of_apart fun j hreads => ?_
    rw [← Bool.not_eq_true]
    intro hothers
    have hfront := (first.within hin hreads).1.2
    have hbehind := (second.within hother hothers).2
    omega
  | wider _ _ _ ih => exact ih

/-- Such comparisons are a condition as the check of its types takes it. -/
theorem Wrote.written {cond : Condition} (h : Wrote cond.exprs lo (comparisons cond) hi) :
    cond.Written := ⟨h.each, h.apart⟩

end

/-! ### Lists -/

section
variable {nodes nodes' : List ConditionNode} {left : Int32} {rights : List Int32}

/-- A spine stays one while its nodes are kept. -/
theorem OrOf.mono {i : Nat} (h : OrOf nodes left i rights)
    (hkept : ∀ (k : Nat) node, nodes[k]? = some node → nodes'[k]? = some node) :
    OrOf nodes' left i rights := by
  induction h with
  | one leaf => exact .one (hkept _ _ leaf)
  | more front leaf branch ih => exact .more ih (hkept _ _ leaf) (hkept _ _ branch)

/-- While a list is read: the comparison at `spine` is the one that is filled in next, behind the
equalities of the values that have been read. -/
structure ListOpen (nodes : List ConditionNode) (left : Int32) (root spine : Nat)
    (rights : List Int32) : Prop where
  inside : spine < nodes.length
  few : nodes.length ≤ MAX_CONDITION_NODES
  count : rights.length ≤ spine
  front : rights = [] ∧ root = spine ∨
    ∃ prior, OrOf (nodes.take spine) left prior rights ∧ root ≠ spine ∧
      nodes[root]? = some (branchNode .COND_OR (Int32.ofNat prior) (Int32.ofNat spine))

/-- The comparison is filled in. -/
theorem ListOpen.fill {root spine : Nat} (h : ListOpen nodes left root spine rights)
    (right : Int32) :
    OrOf (nodes.set spine (predicateNode
      { left := left, op := .OP_EQ, right := right, subquery := -1 })) left root
      (rights ++ [right]) := by
  rcases h.front with ⟨rfl, rfl⟩ | ⟨prior, hfront, hne, hbranch⟩
  · exact .one (List.getElem?_set_self h.inside)
  · refine .more (hfront.mono fun k node hk => ?_) (List.getElem?_set_self h.inside)
      (by rw [List.getElem?_set_ne hne.symm]; exact hbranch)
    have hlt := (List.getElem?_eq_some_iff.mp hk).1
    rw [List.length_take] at hlt
    rw [List.getElem?_take_of_lt (by omega)] at hk
    rw [List.getElem?_set_ne (by omega)]
    exact hk

/-- A new node stands behind the others, if there was room for it. -/
theorem newCondition_few {node : ConditionNode} {cond cond' : ConditionRead} {i : Int32}
    (hfew : cond.nodes.length ≤ MAX_CONDITION_NODES)
    (h : newCondition node cond = .ok (i, cond')) :
    cond.nodes.length < MAX_CONDITION_NODES ∧ i = Int32.ofNat cond.nodes.length ∧
      cond' = { cond with nodes := cond.nodes ++ [node] } := by
  unfold newCondition at h
  split at h
  · exact absurd h (by simp)
  · obtain ⟨rfl, rfl⟩ := Prod.mk.inj (Except.ok.inj h)
    exact ⟨by omega, rfl, rfl⟩

/-- The values of a list are read as an OR of equalities, each behind the one before. -/
theorem inListLoop_orOf {fuel root spine : Nat} {tokens rest : List Token}
    {mid cond : ConditionRead} {top : Int32} (hopen : ListOpen mid.nodes left root spine rights)
    (hloop : inListLoop left fuel (Int32.ofNat root) (Int32.ofNat spine) tokens mid
      = .ok (top, rest, cond)) :
    ∃ root' rights', top = Int32.ofNat root' ∧ rights' ≠ [] ∧
      OrOf cond.nodes left root' rights' ∧ rights'.length ≤ cond.nodes.length ∧
      cond.nodes.length ≤ MAX_CONDITION_NODES ∧
      ∀ lo, mid.exprs.length ≤ MAX_EXPR_NODES →
        SpanList mid.exprs lo (left :: rights) mid.exprs.length →
        mid.exprs <+: cond.exprs ∧ cond.exprs.length ≤ MAX_EXPR_NODES ∧
          SpanList cond.exprs lo (left :: rights') cond.exprs.length := by
  induction fuel generalizing root spine tokens mid rights with
  | zero => exact absurd hloop (by simp [inListLoop])
  | succ fuel ih =>
    have hmax : MAX_CONDITION_NODES = 32 := rfl
    have hinside := hopen.inside
    have hfew := hopen.few
    have hcount := hopen.count
    have hspine := (toNat_ofNat (n := spine) (by omega)).1
    unfold inListLoop at hloop
    split at hloop
    · exact absurd hloop (by simp)
    · rename_i right behind exprs hright
      have hfilled := hopen.fill right
      have hspans : ∀ lo, mid.exprs.length ≤ MAX_EXPR_NODES →
          SpanList mid.exprs lo (left :: rights) mid.exprs.length →
          mid.exprs <+: exprs ∧ exprs.length ≤ MAX_EXPR_NODES ∧
            SpanList exprs lo (left :: (rights ++ [right])) exprs.length := by
        intro lo hexprs hlist
        have hread := parseExpression_reads hexprs hright
        exact ⟨hread.front, hread.few, (hlist.front hread.front).snoc hread.spans⟩
      dsimp only [ConditionRead.setCompare] at hloop
      rw [hspine] at hloop
      generalize hset : mid.nodes.set spine _ = filled at hloop hfilled
      have hlength : filled.length = mid.nodes.length := by
        rw [← hset, List.length_set]
      split at hloop
      · obtain ⟨rfl, -, rfl⟩ := by simpa using Except.ok.inj hloop
        refine ⟨root, rights ++ [right], rfl, by simp, hfilled, by simp; omega, ?_, hspans⟩
        show filled.length ≤ _
        omega
      · split at hloop
        · exact absurd hloop (by simp)
        · rename_i next added hnew
          obtain ⟨hnext, rfl, rfl⟩ := newCondition_few (by dsimp only; omega) hnew
          split at hloop
          · exact absurd hloop (by simp)
          · rename_i either both hor
            obtain ⟨hroom, rfl, rfl⟩ := newCondition_few (by simp at hnext ⊢; omega) hor
            have hopen' : ListOpen ((filled ++ [predicateNode blankPredicate]) ++
                [branchNode .COND_OR (Int32.ofNat root) (Int32.ofNat filled.length)]) left
                (filled ++ [predicateNode blankPredicate]).length filled.length
                (rights ++ [right]) := by
              refine ⟨?_, ?_, ?_, .inr ⟨root, ?_, ?_, ?_⟩⟩
              · simp
              · simp at hroom ⊢; omega
              · simp; omega
              · simpa using hfilled
              · simp
              · simp
            obtain ⟨root', rights', htop, hne, htree, hshort, hfew', hrest⟩ := ih hopen' hloop
            refine ⟨root', rights', htop, hne, htree, hshort, hfew', fun lo hexprs hlist => ?_⟩
            obtain ⟨hfront, hmid, hlist⟩ := hspans lo hexprs hlist
            obtain ⟨hfront', hall⟩ := hrest lo hmid hlist
            exact ⟨hfront.trans hfront', hall⟩

/-- The comparisons of the tree of a list. -/
theorem OrOf.comparisons {root fuel : Nat} (h : OrOf nodes left root rights)
    (hfew : nodes.length ≤ MAX_CONDITION_NODES) (hfuel : rights.length ≤ fuel) :
    comparisonsFrom nodes fuel (Int32.ofNat root) = rights.map (equality left) := by
  have hstep : ∀ {i : Nat} {node : ConditionNode}, nodes[i]? = some node →
      (if Int32.ofNat i < 0 then none else nodes[(Int32.ofNat i).toInt.toNat]?) = some node := by
    intro i node hnode
    have hmax : MAX_CONDITION_NODES = 32 := rfl
    have hlt := (List.getElem?_eq_some_iff.mp hnode).1
    obtain ⟨hi, hpos⟩ := toNat_ofNat (n := i) (by omega)
    rw [if_neg (Below.not_neg ⟨hpos, hi.symm ▸ hlt⟩), hi, hnode]
  induction h generalizing fuel with
  | one leaf =>
    obtain ⟨fuel, rfl⟩ : ∃ n, fuel = n + 1 := ⟨fuel - 1, by simp at hfuel; omega⟩
    rw [comparisonsFrom, hstep leaf]
    rfl
  | @more root next either rights right front leaf branch ih =>
    rw [List.length_append, List.length_singleton] at hfuel
    have hpos : 0 < rights.length := by
      cases front <;> simp
    obtain ⟨fuel, rfl⟩ : ∃ n, fuel = n + 2 := ⟨fuel - 2, by omega⟩
    rw [comparisonsFrom, hstep branch]
    show comparisonsFrom nodes (fuel + 1) (Int32.ofNat root) ++
      comparisonsFrom nodes (fuel + 1) (Int32.ofNat next) = _
    rw [ih (by omega), comparisonsFrom, hstep leaf, List.map_append]
    rfl

end

/-! ### Trees -/

section
variable {nodes nodes' : List ConditionNode}

/-- Every leaf is a node of the list. -/
theorem leavesFrom_lt {fuel j : Nat} {i : Int32} (h : j ∈ leavesFrom nodes fuel i) :
    j < nodes.length := by
  induction fuel generalizing i with
  | zero => exact absurd h List.not_mem_nil
  | succ fuel ih =>
    rw [leavesFrom_succ] at h
    split at h
    · exact absurd h List.not_mem_nil
    · rename_i node hnode
      split at hnode
      · exact absurd hnode (by simp)
      · cases hkind : node.kind with
        | COND_COMPARE =>
          simp only [hkind, List.mem_singleton] at h
          exact h ▸ (List.getElem?_eq_some_iff.mp hnode).1
        | COND_NOT =>
          simp only [hkind] at h
          exact ih h
        | COND_AND =>
          simp only [hkind, List.mem_append] at h
          exact h.elim ih ih
        | COND_OR =>
          simp only [hkind, List.mem_append] at h
          exact h.elim ih ih

/-- Trees with the same leaves in the front of both pools have the same comparisons. -/
theorem comparisonsFrom_congr {fuel fuel' : Nat} {i i' : Int32} (hfront : nodes <+: nodes')
    (hleaves : leavesFrom nodes' fuel' i' = leavesFrom nodes fuel i) :
    comparisonsFrom nodes' fuel' i' = comparisonsFrom nodes fuel i := by
  rw [comparisonsFrom_leaves, comparisonsFrom_leaves, hleaves]
  refine List.filterMap_congr fun j hj => ?_
  rw [getElem?_of_front hfront (leavesFrom_lt hj)]

/-- Nodes that come later change no tree. -/
theorem comparisons_front (hrising : Rising nodes) (hfront : nodes <+: nodes') {i : Int32}
    (hi : Below i nodes.length) :
    comparisonsFrom nodes' nodes'.length i = comparisonsFrom nodes nodes.length i :=
  comparisonsFrom_congr hfront (leaves_front hrising hfront hi)

/-- Two trees under one node. -/
theorem comparisons_branch {kind : ConditionKind} {left right : Int32} (hrising : Rising nodes)
    (hfew : nodes.length < MAX_CONDITION_NODES) (hkind : kind = .COND_AND ∨ kind = .COND_OR)
    (hleft : Below left nodes.length) (hright : Below right nodes.length) :
    comparisonsFrom (nodes ++ [branchNode kind left right])
        (nodes ++ [branchNode kind left right]).length (Int32.ofNat nodes.length) =
      comparisonsFrom nodes nodes.length left ++ comparisonsFrom nodes nodes.length right := by
  obtain ⟨hbelow, hn⟩ := below_next hfew
  have hfront : nodes <+: nodes ++ [branchNode kind left right] := List.prefix_append _ _
  have hside : ∀ {j : Int32}, Below j nodes.length →
      comparisonsFrom (nodes ++ [branchNode kind left right]) nodes.length j =
        comparisonsFrom nodes nodes.length j := fun hj =>
    comparisonsFrom_congr hfront (leavesFrom_eq hrising (Nat.le_refl _)
      (fun _ hk => getElem?_of_front hfront hk) hj hj.2 hj.2)
  rw [← hside hleft, ← hside hright, List.length_append, List.length_singleton, comparisonsFrom,
    if_neg hbelow.not_neg, hn, List.getElem?_concat_length]
  rcases hkind with rfl | rfl
  · rfl
  · rfl

/-- A comparison by itself, behind what was there. -/
theorem comparisons_leaf {compare : Predicate} (hfew : nodes.length < MAX_CONDITION_NODES) :
    comparisonsFrom (nodes ++ [predicateNode compare]) (nodes ++ [predicateNode compare]).length
      (Int32.ofNat nodes.length) = [compare] := by
  obtain ⟨hbelow, hn⟩ := below_next hfew
  rw [List.length_append, List.length_singleton, comparisonsFrom, if_neg hbelow.not_neg, hn,
    List.getElem?_concat_length]
  rfl

end

/-! ### Conditions -/

/-- A tree was read whose comparisons stand on the nodes that were added for it. -/
structure Writes (P : ParsedSelect → Prop) (start : ConditionRead) (root : Int32)
    (cond : ConditionRead) : Prop where
  tree : TreeRead P start root cond
  exprs : start.exprs <+: cond.exprs
  few : cond.exprs.length ≤ MAX_EXPR_NODES
  wrote : Wrote cond.exprs start.exprs.length (comparisons (cond.condition root))
    cond.exprs.length

section
variable {P : ParsedSelect → Prop} {subquery : SubqueryRead} {start mid cond : ConditionRead}
  {root left right i : Int32} {tokens rest : List Token}

/-- The comparison that was allocated before its sides were read, once it is filled in. -/
theorem Writes.filled {p q : Predicate} {exprs : ExprPool} {pool : List PooledSelect}
    (hfew : start.nodes.length < MAX_CONDITION_NODES)
    (htree : TreeRead P start (Int32.ofNat start.nodes.length) (ConditionRead.setCompare
      { nodes := start.nodes ++ [predicateNode p], exprs := exprs, pool := pool }
      (Int32.ofNat start.nodes.length) q))
    (hfront : start.exprs <+: exprs) (hexprs : exprs.length ≤ MAX_EXPR_NODES)
    (hoperands : SpanList exprs start.exprs.length q.operands exprs.length)
    (hpattern : q.matchesPattern = true →
      ∃ literal, exprLiteral exprs q.right = some literal ∧ literal.type = .TYPE_TEXT) :
    Writes P start (Int32.ofNat start.nodes.length) (ConditionRead.setCompare
      { nodes := start.nodes ++ [predicateNode p], exprs := exprs, pool := pool }
      (Int32.ofNat start.nodes.length) q) := by
  refine ⟨htree, hfront, hexprs, ?_⟩
  have hone : comparisons (ConditionRead.condition (ConditionRead.setCompare
      { nodes := start.nodes ++ [predicateNode p], exprs := exprs, pool := pool }
      (Int32.ofNat start.nodes.length) q) (Int32.ofNat start.nodes.length)) = [q] := by
    unfold comparisons ConditionRead.condition ConditionRead.setCompare
    simp only [set_append_last p q (below_next hfew).2]
    exact comparisons_leaf hfew
  rw [hone]
  exact .single hoperands hpattern

/-- A NOT on top of a tree. -/
theorem Writes.not (h : Writes P start root mid)
    (hnew : newCondition (branchNode .COND_NOT root (-1)) mid = .ok (i, cond)) :
    Writes P start i cond := by
  have htree := h.tree.not hnew
  obtain ⟨hfew, rfl, rfl⟩ := newCondition_ok h.tree.sound hnew
  have hsame : comparisons (ConditionRead.condition
      { mid with nodes := mid.nodes ++ [branchNode .COND_NOT root (-1)] }
      (Int32.ofNat mid.nodes.length)) = comparisons (mid.condition root) := by
    refine comparisonsFrom_congr (List.prefix_append _ _) ?_
    exact (TreeRead.below h.tree.sound hfew
      ⟨fun _ => h.tree.inside, fun hno => by simp [branchNode] at hno⟩ (by simp [branchNode])).2
  refine ⟨htree, h.exprs, h.few, ?_⟩
  rw [hsame]
  exact h.wrote

/-- Two trees under one node, of which the second was read behind the first. -/
theorem Writes.branch {cond' : ConditionRead} {kind : ConditionKind} (h : Writes P start left mid)
    (h' : Writes P mid right cond) (hkind : kind = .COND_AND ∨ kind = .COND_OR)
    (hnew : newCondition (branchNode kind left right) cond = .ok (i, cond')) :
    Writes P start i cond' := by
  have htree := h.tree.branch h'.tree hkind hnew
  obtain ⟨hfew, rfl, rfl⟩ := newCondition_ok h'.tree.sound hnew
  have hleft := h.tree.inside.mono h'.tree.nodes.length_le
  have hboth : comparisons (ConditionRead.condition
      { cond with nodes := cond.nodes ++ [branchNode kind left right] }
      (Int32.ofNat cond.nodes.length)) =
        comparisons (mid.condition left) ++ comparisons (cond.condition right) := by
    have hfront := comparisons_front h.tree.sound.rising h'.tree.nodes h.tree.inside
    unfold comparisons ConditionRead.condition
    rw [← hfront]
    exact comparisons_branch h'.tree.sound.rising hfew hkind hleft h'.tree.inside
  refine ⟨htree, h.exprs.trans h'.exprs, h'.few, ?_⟩
  rw [hboth]
  exact (h.wrote.front h'.exprs).append h'.wrote

/-- A comparison with the first row of a subquery reads its left side alone. -/
theorem operands_named {op : CompareOp} {slot : Int32} (hop : op ≠ .OP_EXISTS) (hslot : 0 ≤ slot) :
    Predicate.operands { left := left, op := op, right := right, subquery := slot } = [left] := by
  simp [Predicate.operands, Predicate.takesSubquery, hop, hslot]

/-- An operator compares two sides. -/
theorem comparisonOperator_sides {t : TokenType} {op : CompareOp}
    (h : comparisonOperator t = some op) : op ≠ .OP_EXISTS ∧
      (∀ left right : Int32, Predicate.operands
        { left := left, op := op, right := right, subquery := -1 } = [left, right]) ∧
      ∀ (left right slot : Int32), Predicate.matchesPattern
        { left := left, op := op, right := right, subquery := slot } = false := by
  unfold comparisonOperator at h
  split at h <;> cases h
  all_goals exact ⟨by decide, fun _ _ => rfl, fun _ _ _ => rfl⟩

section
variable {p : Predicate} {exprs : ExprPool} (hsound : start.Sound)
  (hfew : start.nodes.length < MAX_CONDITION_NODES) (hp : ¬0 ≤ p.subquery)
  (hleft : ReadsExpr start.exprs left exprs)
include hsound hfew hleft

/-- IS NULL writes one comparison. -/
theorem parseIsNull_writes (h : parseIsNull left (Int32.ofNat start.nodes.length) tokens
    (allocated start p exprs) = .ok (root, rest, cond)) : Writes P start root cond := by
  have htree := parseIsNull_tree (P := P) hsound hfew h
  unfold parseIsNull at h
  dsimp only at h
  generalize (if (typeAt tokens 1 == .TOKEN_KEYWORD_NOT) = true then 2 else 1) = words at h
  split at h
  · exact absurd h (by simp)
  · generalize (typeAt tokens 1 == .TOKEN_KEYWORD_NOT) = negated at h
    obtain ⟨rfl, -, rfl⟩ := by simpa using Except.ok.inj h
    refine .filled hfew htree hleft.front hleft.few ?_ ?_
    · cases negated <;> exact .cons hleft.spans .nil
    · cases negated <;> exact fun hno => absurd hno (by simp [Predicate.matchesPattern])

/-- LIKE writes one comparison. -/
theorem parseLike_writes (h : parseLike left (Int32.ofNat start.nodes.length) tokens
    (allocated start p exprs) = .ok (root, rest, cond)) : Writes P start root cond := by
  have htree := parseLike_tree (P := P) hsound hfew h
  unfold parseLike at h
  dsimp only at h
  split at h
  · exact absurd h (by simp)
  · rename_i pattern behind hvalue
    split at h
    · exact absurd h (by simp)
    · rename_i hpattern
      split at h
      · exact absurd h (by simp)
      · rename_i right grown hnew
        generalize (typeAt tokens 0 == .TOKEN_KEYWORD_NOT) = negated at h
        obtain ⟨rfl, -, rfl⟩ := by simpa using Except.ok.inj h
        have hright := ReadsExpr.leaf hleft.few (.inr rfl) hnew
        refine .filled hfew htree (hleft.front.trans hright.front) hright.few ?_ fun _ => ?_
        · have hsides := SpanList.cons (hleft.spans.front hright.front) (.cons hright.spans .nil)
          cases negated <;> exact hsides
        · -- the pattern is the literal that was added last
          obtain ⟨hroom, rfl, rfl⟩ := exprNew_added hleft.few hnew
          have hmax : MAX_EXPR_NODES = 32 := rfl
          obtain ⟨hn, hpos⟩ := toNat_ofNat (n := exprs.length) (by omega)
          have hbelow : Below (Int32.ofNat exprs.length) (exprs.length + 1) := ⟨hpos, by omega⟩
          refine ⟨pattern, ?_, not_not.mp fun hno => hpattern (.inr hno)⟩
          unfold exprLiteral ExprPool.node
          rw [if_neg hbelow.not_neg, hn, List.getElem?_concat_length]
          rfl

/-- A comparison by an operator writes one comparison. -/
theorem parseOperator_writes (hsub : ReadsSubqueries P subquery)
    (h : parseOperator subquery left (Int32.ofNat start.nodes.length) tokens
      (allocated start p exprs) = .ok (root, rest, cond)) : Writes P start root cond := by
  have htree := parseOperator_tree hsound hfew hsub h
  unfold parseOperator at h
  split at h
  · exact absurd h (by simp)
  · rename_i op hop
    obtain ⟨hexists, hsides, hpattern⟩ := comparisonOperator_sides hop
    dsimp only at h
    split at h
    · obtain ⟨⟨slot, behind, pool⟩, hread, heq⟩ := map_ok h
      obtain ⟨rfl, hrest⟩ := Prod.mk.inj heq
      obtain ⟨-, rfl⟩ := Prod.mk.inj hrest
      refine .filled hfew htree hleft.front hleft.few ?_ fun hno => absurd hno (by simp [hpattern])
      obtain ⟨rfl, hlt, -⟩ := hsub _ _ _ _ _ hsound.slots hread
      have hmax : MAX_SUBQUERIES = 4 := rfl
      rw [operands_named hexists (toNat_ofNat (n := start.pool.length) (by omega)).2]
      exact .cons hleft.spans .nil
    · split at h
      · exact absurd h (by simp)
      · rename_i right behind grown hexpr
        split at h
        · exact absurd h (by simp)
        · obtain ⟨rfl, -, rfl⟩ := by simpa using Except.ok.inj h
          have hright := parseExpression_reads hleft.few hexpr
          refine .filled hfew htree (hleft.front.trans hright.front) hright.few ?_
            fun hno => absurd hno (by simp [hpattern])
          rw [hsides]
          exact .cons (hleft.spans.front hright.front) (.cons hright.spans .nil)

include hp in
/-- IN writes one comparison for each element of its list. -/
theorem parseIn_writes (hsub : ReadsSubqueries P subquery)
    (h : parseIn subquery left (Int32.ofNat start.nodes.length) tokens
      (allocated start p exprs) = .ok (root, rest, cond)) : Writes P start root cond := by
  unfold parseIn at h
  dsimp only at h
  split at h
  · exact absurd h (by simp)
  · rename_i top behind mid hread
    have hwrites : Writes P start top mid := by
      generalize List.drop (if (typeAt tokens 0 == .TOKEN_KEYWORD_NOT) = true then 2 else 1) tokens =
        inner at hread
      split at hread
      · obtain ⟨⟨slot, behind', pool⟩, hread', heq⟩ := map_ok hread
        obtain ⟨rfl, hrest⟩ := Prod.mk.inj heq
        obtain ⟨-, rfl⟩ := Prod.mk.inj hrest
        exact .filled hfew
          (.filled hsound hfew (single_named rfl) (grows_named hsub hsound.slots hread' rfl))
          hleft.front hleft.few (.cons hleft.spans .nil)
          fun hno => absurd hno (by simp [Predicate.matchesPattern])
      · split at hread
        · exact absurd hread (by simp)
        · split at hread
          · exact absurd hread (by simp)
          · rename_i hloop
            split at hread
            · obtain ⟨rfl, -, rfl⟩ := by simpa using Except.ok.inj hread
              have hfirst := @TreeRead.leaf P _ _ _ exprs hsound hfew (fun hno => absurd hno hp)
                (grows_none hp hsound.slots)
              obtain ⟨hbelow, hn⟩ := below_next hfew
              have htree := inListLoop_tree hfirst (by rw [hn])
                (by rw [hn, List.getElem?_concat_length]) hp hloop
              have hopen : ListOpen (allocated start p exprs).nodes left start.nodes.length
                  start.nodes.length [] :=
                ⟨by simp, by simp; omega, Nat.zero_le _, .inl ⟨rfl, rfl⟩⟩
              obtain ⟨root, rights, rfl, -, hor, hcount, hshort, hspans⟩ :=
                inListLoop_orOf hopen hloop
              obtain ⟨hgrown, hexprs, hlist⟩ :=
                hspans start.exprs.length hleft.few (.cons hleft.spans .nil)
              refine ⟨htree, hleft.front.trans hgrown, hexprs, ?_⟩
              unfold comparisons ConditionRead.condition
              rw [hor.comparisons hshort hcount]
              exact .list hlist
            · exact absurd hread (by simp)
    split at h
    · exact hwrites.not (addBranch_ok h).1
    · obtain ⟨rfl, -, rfl⟩ := by simpa using Except.ok.inj h
      exact hwrites

end

/-- A comparison is written on the nodes that its sides have added. -/
theorem parseComparison_writes {allowAggregate : Bool} (hsub : ReadsSubqueries P subquery)
    (hsound : start.Sound) (hexprs : start.exprs.length ≤ MAX_EXPR_NODES)
    (h : parseComparison subquery allowAggregate tokens start = .ok (root, rest, cond)) :
    Writes P start root cond := by
  unfold parseComparison at h
  split at h
  · exact absurd h (by simp)
  · rename_i left behind exprs hparsed
    have hleft := parseLeft_reads hexprs hparsed
    split at h
    · exact absurd h (by simp)
    · rename_i node mid hnew
      obtain ⟨hfew, rfl, rfl⟩ := @newCondition_ok _ { start with exprs := exprs } _ _
        ⟨hsound.rising, hsound.single, hsound.few, hsound.slots⟩ hnew
      have hp : ¬0 ≤ ({ blankPredicate with left := left } : Predicate).subquery := by
        dsimp only [blankPredicate]
        decide
      dsimp only at h hfew
      generalize (if (typeAt behind 0 == .TOKEN_KEYWORD_NOT) = true then typeAt behind 1
        else typeAt behind 0) = word at h
      split at h
      · exact parseIn_writes hsound hfew hp hleft hsub h
      · split at h
        · exact parseIsNull_writes hsound hfew hleft h
        · split at h
          · exact parseLike_writes hsound hfew hleft h
          · exact parseOperator_writes hsound hfew hleft hsub h

/-- An EXISTS has no side. -/
theorem parseExists_writes (hsub : ReadsSubqueries P subquery) (hsound : start.Sound)
    (hexprs : start.exprs.length ≤ MAX_EXPR_NODES)
    (h : parseExists subquery tokens start = .ok (root, rest, cond)) :
    Writes P start root cond := by
  have htree := parseExists_tree hsub hsound h
  unfold parseExists at h
  split at h
  · exact absurd h (by simp)
  · rename_i node mid hnew
    obtain ⟨hfew, rfl, rfl⟩ := newCondition_ok hsound hnew
    obtain ⟨⟨slot, behind, pool⟩, hread, heq⟩ := map_ok h
    obtain ⟨rfl, hrest⟩ := Prod.mk.inj heq
    obtain ⟨-, rfl⟩ := Prod.mk.inj hrest
    exact .filled hfew htree (List.prefix_refl _) hexprs .nil
      fun hno => absurd hno (by simp [Predicate.matchesPattern])

/-- What is read is written one behind the other. -/
theorem Writes.rule (hsub : ReadsSubqueries P subquery) (allowAggregate : Bool) :
    ReadRule subquery allowAggregate
      (fun start => start.Sound ∧ start.exprs.length ≤ MAX_EXPR_NODES) (Writes P) where
  ends h := ⟨h.tree.sound, h.few⟩
  comparison hstart h := parseComparison_writes hsub hstart.1 hstart.2 h
  existence hstart h := parseExists_writes hsub hstart.1 hstart.2 h
  not h hnew := h.not hnew
  branch h h' hkind hnew := h.branch h' hkind hnew

/-- A condition that was read by itself is written as the check of its types has it. -/
theorem parseOrExpression_written {allowAggregate : Bool} (hsub : ReadsSubqueries P subquery)
    (hsound : start.Sound) (hexprs : start.exprs.length ≤ MAX_EXPR_NODES)
    (h : parseOrExpression subquery allowAggregate tokens start = .ok (root, rest, cond)) :
    (cond.condition root).Written :=
  ((Writes.rule hsub allowAggregate).parseOrExpression ⟨hsound, hexprs⟩ h).wrote.written

/-- The WHERE of an UPDATE or a DELETE, and every HAVING. -/
theorem parseWhole_written {allowAggregate : Bool} {pool pool' : List PooledSelect}
    {condition : Condition} (hsub : ReadsSubqueries P subquery)
    (hslots : pool.length ≤ MAX_SUBQUERIES)
    (h : parseWhole subquery allowAggregate tokens pool = .ok (condition, rest, pool')) :
    condition.Written := by
  unfold parseWhole at h
  obtain ⟨⟨root, behind, cond⟩, hread, heq⟩ := map_ok h
  obtain ⟨rfl, -⟩ := Prod.mk.inj heq
  exact parseOrExpression_written hsub (emptyRead_sound hslots) (Nat.zero_le _) hread

end

/-! ### SELECT -/

/-- The trees of a FROM list that is being read are all written in one pool. -/
structure FromRead.Written (list : FromRead) : Prop where
  few : list.cond.exprs.length ≤ MAX_EXPR_NODES
  each : ∀ root ∈ list.whereRoot :: list.onRoots, 0 ≤ root →
    Wrote list.cond.exprs 0 (comparisons (list.cond.condition root)) list.cond.exprs.length

/-- A SELECT whose conditions are all written as the check of their types has it. -/
structure ParsedSelect.Written (select : ParsedSelect) : Prop where
  trees : ∀ root ∈ select.roots, Condition.Written { select.wher with root := root }
  having : select.having.present = true → select.having.Written

section
variable {P : ParsedSelect → Prop} {subquery : SubqueryRead} {tokens rest : List Token}
  {pool pool' : List PooledSelect} {root : Int32}

/-- Of a condition that is ANDed onto a tree, what both have is written, and the trees that were
there still are. -/
theorem addCondition_wrote {start cond : ConditionRead} {onto : Int32}
    (hsub : ReadsSubqueries P subquery) (hsound : start.Sound)
    (hexprs : start.exprs.length ≤ MAX_EXPR_NODES)
    (honto : 0 ≤ onto → Below onto start.nodes.length ∧
      Wrote start.exprs 0 (comparisons (start.condition onto)) start.exprs.length)
    (h : addCondition subquery tokens onto start = .ok (root, rest, cond)) :
    cond.exprs.length ≤ MAX_EXPR_NODES ∧
      Wrote cond.exprs 0 (comparisons (cond.condition root)) cond.exprs.length ∧
      ∀ other, Below other start.nodes.length →
        Wrote start.exprs 0 (comparisons (start.condition other)) start.exprs.length →
          Wrote cond.exprs 0 (comparisons (cond.condition other)) cond.exprs.length := by
  have hkept : ∀ {mid : ConditionRead} {other : Int32}, start.nodes <+: mid.nodes →
      start.exprs <+: mid.exprs → Below other start.nodes.length →
        Wrote start.exprs 0 (comparisons (start.condition other)) start.exprs.length →
          Wrote mid.exprs 0 (comparisons (mid.condition other)) start.exprs.length := by
    intro mid other hnodes hgrown hbelow hwrote
    have hsame := comparisons_front hsound.rising hnodes hbelow
    unfold comparisons ConditionRead.condition at hwrote ⊢
    rw [hsame]
    exact hwrote.front hgrown
  unfold addCondition at h
  split at h
  · exact absurd h (by simp)
  · rename_i node behind mid hread
    have hwrites := (Writes.rule hsub false).parseOrExpression ⟨hsound, hexprs⟩ hread
    split at h
    · obtain ⟨rfl, -, rfl⟩ := by simpa using Except.ok.inj h
      refine ⟨hwrites.few, hwrites.wrote.wider (Nat.zero_le _) (Nat.le_refl _),
        fun other hbelow hwrote => ?_⟩
      exact (hkept hwrites.tree.nodes hwrites.exprs hbelow hwrote).wider (Nat.le_refl _)
        hwrites.exprs.length_le
    · rename_i hneg
      have hpos : 0 ≤ onto := by
        rw [Int32.lt_iff_toInt_lt] at hneg
        rw [Int32.le_iff_toInt_le]
        omega
      obtain ⟨hbelow, hwrote⟩ := honto hpos
      obtain ⟨hfew, rfl, rfl⟩ := newCondition_ok hwrites.tree.sound (addBranch_ok h).1
      refine ⟨hwrites.few, ?_, fun other hbelow hwrote => ?_⟩
      · have hfirst := hkept hwrites.tree.nodes hwrites.exprs hbelow hwrote
        have hboth := comparisons_branch hwrites.tree.sound.rising hfew (.inl rfl)
          (hbelow.mono hwrites.tree.nodes.length_le) hwrites.tree.inside
        unfold comparisons ConditionRead.condition at hfirst ⊢
        rw [hboth]
        exact hfirst.append hwrites.wrote
      · exact Wrote.wider (hkept (hwrites.tree.nodes.trans (List.prefix_append _ _)) hwrites.exprs
          hbelow hwrote) (Nat.le_refl _) hwrites.exprs.length_le

/-- The trees of a FROM list stay written. -/
theorem FromRead.Written.rule (hsub : ReadsSubqueries P subquery) :
    FromRule subquery fun list => list.Sound P pool ∧ list.Written where
  entry h hentry := by
    refine ⟨h.1.entry hentry, h.2.few, fun root hroot hpos => ?_⟩
    rcases List.mem_append.mp (List.cons_append ▸ hroot) with hroot | hroot
    · exact h.2.each root hroot hpos
    · rw [List.mem_singleton.mp hroot] at hpos
      exact absurd hpos (by decide)
  on h hread := by
    rename_i list list' entry tokens rest
    refine ⟨parseOn_sound hsub h.1 hread, ?_⟩
    unfold parseOn at hread
    split at hread
    · exact absurd hread (by simp)
    · split at hread
      · exact absurd hread (by simp)
      · rename_i root behind cond hadd
        dsimp only at hread
        cases houter : entry.outer with
        | true =>
          rw [houter] at hread hadd
          obtain ⟨rfl, -⟩ := by simpa using hread
          have hneg : ¬(0 : Int32) ≤ -1 := by decide
          obtain ⟨hfew, hwrote, hkept⟩ := addCondition_wrote hsub h.1.cond h.2.few
            (fun hpos => absurd hpos hneg) hadd
          refine ⟨hfew, fun other hother hpos => ?_⟩
          rcases List.mem_append.mp (List.cons_append ▸ hother) with hother | hother
          · exact hkept other (h.1.inside other hother hpos) (h.2.each other hother hpos)
          · rw [List.mem_singleton.mp hother]
            exact hwrote
        | false =>
          rw [houter] at hread hadd
          obtain ⟨rfl, -⟩ := by simpa using hread
          obtain ⟨hfew, hwrote, hkept⟩ := addCondition_wrote hsub h.1.cond h.2.few
            (fun hpos => ⟨h.1.inside _ List.mem_cons_self hpos,
              h.2.each _ List.mem_cons_self hpos⟩) hadd
          refine ⟨hfew, fun other hother hpos => ?_⟩
          rcases List.mem_cons.mp hother with rfl | hother
          · exact hwrote
          · rcases List.mem_append.mp hother with hother | hother
            · have hin := List.mem_cons_of_mem list.whereRoot hother
              exact hkept other (h.1.inside other hin hpos) (h.2.each other hin hpos)
            · rw [List.mem_singleton.mp hother] at hpos
              exact absurd hpos (by decide)

/-- The WHERE behind the list too. -/
theorem parseSelectWhere_written {list list' : FromRead} (hsub : ReadsSubqueries P subquery)
    (hsound : list.Sound P pool) (h : list.Written)
    (hread : parseSelectWhere subquery tokens list = .ok (list', rest)) : list'.Written := by
  unfold parseSelectWhere at hread
  split at hread
  · obtain ⟨rfl, -⟩ := Prod.mk.inj (Except.ok.inj hread)
    exact h
  · obtain ⟨⟨root, behind, cond⟩, hadd, heq⟩ := map_ok hread
    obtain ⟨rfl, -⟩ := Prod.mk.inj heq
    obtain ⟨hfew, hwrote, hkept⟩ := addCondition_wrote hsub hsound.cond h.few
      (fun hpos => ⟨hsound.inside _ List.mem_cons_self hpos, h.each _ List.mem_cons_self hpos⟩) hadd
    refine ⟨hfew, fun other hother hpos => ?_⟩
    rcases List.mem_cons.mp hother with rfl | hother
    · exact hwrote
    · have hin := List.mem_cons_of_mem list.whereRoot hother
      exact hkept other (hsound.inside other hin hpos) (h.each other hin hpos)

/-- Every condition of a SELECT that was read, its ONs, its WHERE and its HAVING, is written as the
check of its types has it. -/
theorem parseSelectWith_written {select : ParsedSelect} (hsub : ReadsSubqueries P subquery)
    (hslots : pool.length ≤ MAX_SUBQUERIES)
    (h : parseSelectWith subquery tokens pool = .ok (select, pool')) : select.Written := by
  obtain ⟨_, _, _, _, _, _, list, list', hfrom, hwhere, hhaving, htables, hroots, hwher⟩ :=
    parseSelectWith_cases h
  have hempty : (emptyFrom pool).Written := by
    refine ⟨Nat.zero_le _, fun root hroot hpos => ?_⟩
    rw [List.mem_singleton.mp hroot] at hpos
    have hneg : ¬(0 : Int32) ≤ -1 := by decide
    exact absurd hpos hneg
  obtain ⟨hsound, hwritten⟩ :=
    (FromRead.Written.rule hsub).parseFrom ⟨emptyFrom_sound hslots, hempty⟩ hfrom
  have hlist := parseSelectWhere_written hsub hsound hwritten hwhere
  refine ⟨fun root hroot => ?_, fun hpresent => ?_⟩
  · have htree : ∀ root ∈ list'.whereRoot :: list'.onRoots, 0 ≤ root →
        Condition.Written { select.wher with root := root } := by
      intro root hroot hpos
      rw [hwher]
      exact (hlist.each root hroot hpos).written
    unfold ParsedSelect.roots at hroot
    rw [hroots] at hroot
    rcases List.mem_append.mp hroot with hroot | hroot
    · rw [hwher] at hroot
      split at hroot
      · rename_i hpos
        rw [List.mem_singleton.mp hroot]
        exact htree _ List.mem_cons_self (of_decide_eq_true hpos)
      · exact absurd hroot List.not_mem_nil
    · obtain ⟨hroot, hpos⟩ := List.mem_filter.mp hroot
      exact htree root (List.mem_cons_of_mem _ hroot) (of_decide_eq_true hpos)
  · unfold parseOptionalHaving at hhaving
    split at hhaving
    · exact parseWhole_written hsub (parseSelectWhere_sound hsub hsound hwhere).cond.slots hhaving
    · obtain ⟨hnone, -⟩ := Prod.mk.inj (Except.ok.inj hhaving)
      rw [← hnone] at hpresent
      exact absurd hpresent (by decide)

/-- Of the SELECTs that the parser reads, whole statements and subqueries. -/
theorem parseSelectFrom_written {fuel : Nat} {select : ParsedSelect}
    (hslots : pool.length ≤ MAX_SUBQUERIES)
    (h : parseSelectFrom fuel tokens pool = .ok (select, pool')) : select.Written := by
  cases fuel with
  | zero => exact absurd h (by simp [parseSelectFrom])
  | succ fuel =>
    exact parseSelectWith_written (parseSubqueryWith_reads fun _ _ _ _ hslots hparse =>
      parseSelectFrom_formed hslots hparse) hslots h

/-- Of the WHERE of an UPDATE and of a DELETE. -/
theorem parseWhere_written {condition : Condition} (hslots : pool.length ≤ MAX_SUBQUERIES)
    (h : parseWhere parseSubquery tokens pool = .ok (condition, rest, pool')) :
    condition.Written :=
  parseWhole_written parseSubquery_reads hslots h

end

end DatabaseEngine
