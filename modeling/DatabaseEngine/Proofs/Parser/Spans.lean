import DatabaseEngine.Library.Results
import DatabaseEngine.Proofs.Parser.Trees
import DatabaseEngine.Proofs.Semantic.Operands

/-!
# `DatabaseEngine.Proofs.Parser.Spans`: where the nodes of an expression are

Expressions are read one behind the other into one pool, and each is on nodes of its own.

* `Spans`: an expression that leads to no node outside a stretch of the pool.
* `parseExpression_reads`: what is read is on the nodes that it has added.
* `SpanList`: expressions one behind the other; `SpanList.apart`: they have no node in common.
-/

set_option autoImplicit false

namespace DatabaseEngine

open Library

/-! ### Stretches of the pool -/

/-- An index in a stretch. -/
def Within (lo hi : Nat) (i : Int32) : Prop := Below i hi ∧ lo ≤ i.toInt.toNat

/-- A wider range holds as much. -/
theorem Within.mono {lo hi lo' hi' : Nat} {i : Int32} (h : Within lo hi i) (hlo : lo' ≤ lo)
    (hhi : hi ≤ hi') : Within lo' hi' i := ⟨h.1.mono hhi, Nat.le_trans hlo h.2⟩

/-- The nodes of a stretch lead to nodes of the stretch that stand below them. -/
def Closed (pool : ExprPool) (lo hi : Nat) : Prop :=
  ∀ k node, lo ≤ k → k < hi → pool[k]? = some node →
    (node.kind = .EXPR_NEGATE ∨ node.kind = .EXPR_BINARY → Within lo k node.left) ∧
      (node.kind = .EXPR_BINARY → Within lo k node.right)

/-- An expression is on the nodes of a stretch. -/
structure Spans (pool : ExprPool) (i : Int32) (lo hi : Nat) : Prop where
  root : Within lo hi i
  whole : hi ≤ pool.length
  closed : Closed pool lo hi

section
variable {pool pool' : ExprPool} {i j : Int32} {lo mid hi : Nat}

/-- What an expression reaches is in its stretch. -/
theorem Closed.reachesFrom (h : Closed pool lo hi) (hi' : Within lo hi i) (fuel : Nat)
    (hreach : reachesFrom fuel pool i j = true) : Within lo hi j := by
  induction fuel generalizing i with
  | zero => exact absurd hreach (by simp [DatabaseEngine.reachesFrom])
  | succ fuel ih =>
    rw [DatabaseEngine.reachesFrom, Bool.or_eq_true, beq_iff_eq] at hreach
    rcases hreach with rfl | hreach
    · exact hi'
    · unfold ExprPool.node at hreach
      rw [if_neg hi'.1.not_neg] at hreach
      cases hnode : pool[i.toInt.toNat]? with
      | none =>
        rw [hnode] at hreach
        exact absurd hreach (by simp)
      | some node =>
        rw [hnode] at hreach
        dsimp only at hreach
        obtain ⟨hleft, hright⟩ := h _ node hi'.2 hi'.1.2 hnode
        have hstep : ∀ {k : Int32}, Within lo i.toInt.toNat k →
            DatabaseEngine.reachesFrom fuel pool k j = true → Within lo hi j := fun hk =>
          ih (hk.mono (Nat.le_refl _) (Nat.le_of_lt hi'.1.2))
        cases hkind : node.kind with
        | EXPR_COLUMN => simp [hkind] at hreach
        | EXPR_LITERAL => simp [hkind] at hreach
        | EXPR_NEGATE =>
          rw [hkind] at hreach
          exact hstep (hleft (.inl hkind)) hreach
        | EXPR_BINARY =>
          rw [hkind] at hreach
          rcases (Bool.or_eq_true ..).mp hreach with hreach | hreach
          · exact hstep (hleft (.inr hkind)) hreach
          · exact hstep (hright hkind) hreach

/-- Whatever an operand reaches lies within its range. -/
theorem Spans.reaches (h : Spans pool i lo hi) (hreach : reaches pool i j = true) :
    Within lo hi j := h.closed.reachesFrom h.root _ hreach

/-- Nodes that come later change nothing. -/
theorem Spans.front (h : Spans pool i lo hi) (hfront : pool <+: pool') : Spans pool' i lo hi := by
  refine ⟨h.root, Nat.le_trans h.whole hfront.length_le, fun k node hlo hk hnode => ?_⟩
  rw [getElem?_of_front hfront (Nat.lt_of_lt_of_le hk h.whole)] at hnode
  exact h.closed k node hlo hk hnode

/-- Two stretches, one behind the other. -/
theorem Closed.append (h : Closed pool lo mid) (h' : Closed pool mid hi) (hmid : lo ≤ mid) :
    Closed pool lo hi := by
  intro k node hlo hk hnode
  rcases Nat.lt_or_ge k mid with hlt | hge
  · exact h k node hlo hlt hnode
  · obtain ⟨hleft, hright⟩ := h' k node hge hk hnode
    exact ⟨fun hkind => (hleft hkind).mono hmid (Nat.le_refl _),
      fun hkind => (hright hkind).mono hmid (Nat.le_refl _)⟩

/-- A node on top of a stretch that it leads into. -/
theorem Closed.snoc {node : ExprNode} (h : Closed pool lo pool.length)
    (hleft : node.kind = .EXPR_NEGATE ∨ node.kind = .EXPR_BINARY →
      Within lo pool.length node.left)
    (hright : node.kind = .EXPR_BINARY → Within lo pool.length node.right) :
    Closed (pool ++ [node]) lo (pool ++ [node]).length := by
  intro k other hlo hk hother
  rcases Nat.lt_or_ge k pool.length with hlt | hge
  · rw [List.getElem?_append_left hlt] at hother
    exact h k other hlo hlt hother
  · rw [List.length_append, List.length_singleton] at hk
    obtain rfl : k = pool.length := by omega
    rw [List.getElem?_concat_length] at hother
    obtain rfl := Option.some.inj hother
    exact ⟨hleft, hright⟩

end

/-! ### Expressions -/

/-- An expression was read behind what was there. -/
structure ReadsExpr (pool : ExprPool) (i : Int32) (pool' : ExprPool) : Prop where
  front : pool <+: pool'
  few : pool'.length ≤ MAX_EXPR_NODES
  spans : Spans pool' i pool.length pool'.length

section
variable {pool mid pool' : ExprPool} {i left right : Int32} {node : ExprNode}

/-- The pool grows by the node. -/
theorem exprNew_added (hfew : pool.length ≤ MAX_EXPR_NODES) (h : exprNew node pool = .ok (i, pool')) :
    pool.length < MAX_EXPR_NODES ∧ i = Int32.ofNat pool.length ∧ pool' = pool ++ [node] := by
  unfold exprNew at h
  split at h
  · exact absurd h (by simp)
  · obtain ⟨rfl, rfl⟩ := Prod.mk.inj (Except.ok.inj h)
    exact ⟨by omega, rfl, rfl⟩

/-- A node on top of the stretch that it leads into, or by itself. -/
theorem ReadsExpr.onTop {base : ExprPool} (hfront : base <+: pool)
    (hfew : pool.length < MAX_EXPR_NODES) (hclosed : Closed pool base.length pool.length)
    (hleft : node.kind = .EXPR_NEGATE ∨ node.kind = .EXPR_BINARY →
      Within base.length pool.length node.left)
    (hright : node.kind = .EXPR_BINARY → Within base.length pool.length node.right) :
    ReadsExpr base (Int32.ofNat pool.length) (pool ++ [node]) := by
  have hmax : MAX_EXPR_NODES = 32 := rfl
  obtain ⟨hn, hpos⟩ := toNat_ofNat (n := pool.length) (by omega)
  have hlength : (pool ++ [node]).length = pool.length + 1 := by simp
  refine ⟨hfront.trans (List.prefix_append _ _), by omega, ⟨⟨hpos, by omega⟩, ?_⟩, Nat.le_refl _,
    hclosed.snoc hleft hright⟩
  rw [hn]
  exact hfront.length_le

/-- A column or a literal. -/
theorem ReadsExpr.leaf (hfew : pool.length ≤ MAX_EXPR_NODES)
    (hkind : node.kind = .EXPR_COLUMN ∨ node.kind = .EXPR_LITERAL)
    (h : exprNew node pool = .ok (i, pool')) : ReadsExpr pool i pool' := by
  obtain ⟨hroom, rfl, rfl⟩ := exprNew_added hfew h
  refine .onTop (List.prefix_refl _) hroom (fun k _ hlo hk _ => absurd hk (by omega)) ?_ ?_
  · rintro (hno | hno) <;> rcases hkind with hk | hk <;> simp [hk] at hno
  · intro hno
    rcases hkind with hk | hk <;> simp [hk] at hno

/-- A sign, on top of what it stands before. -/
theorem ReadsExpr.negate (hinner : ReadsExpr pool left mid)
    (h : exprNew (negateNode left) mid = .ok (i, pool')) : ReadsExpr pool i pool' := by
  obtain ⟨hroom, rfl, rfl⟩ := exprNew_added hinner.few h
  exact .onTop hinner.front hroom hinner.spans.closed (fun _ => hinner.spans.root)
    fun hno => absurd hno (by simp [negateNode, freshNode])

/-- An operation on top of its sides, the right one of which was read behind the left one. -/
theorem ReadsExpr.binary {op : ArithOp} {behind : ExprPool} (hleft : ReadsExpr pool left mid)
    (hright : ReadsExpr mid right behind)
    (h : exprNew (binaryNode op left right) behind = .ok (i, pool')) : ReadsExpr pool i pool' := by
  obtain ⟨hroom, rfl, rfl⟩ := exprNew_added hright.few h
  have hmid := hleft.front.length_le
  have hspans := hleft.spans.front hright.front
  refine .onTop (hleft.front.trans hright.front) hroom
    (hspans.closed.append hright.spans.closed hmid) (fun _ => ?_) fun _ => ?_
  · exact hspans.root.mono (Nat.le_refl _) hright.front.length_le
  · exact hright.spans.root.mono hmid (Nat.le_refl _)

/-- A literal that is put into its node when it has been read. -/
theorem ReadsExpr.literal {before after : Value} (hfew : pool.length ≤ MAX_EXPR_NODES)
    (h : exprNew (literalExpr before) pool = .ok (i, mid)) :
    ReadsExpr pool i (mid.setNode i (literalExpr after)) := by
  obtain ⟨hroom, rfl, rfl⟩ := exprNew_added hfew h
  have hmax : MAX_EXPR_NODES = 32 := rfl
  have hset : ExprPool.setNode (pool ++ [literalExpr before]) (Int32.ofNat pool.length)
      (literalExpr after) = pool ++ [literalExpr after] := by
    unfold ExprPool.setNode
    rw [(toNat_ofNat (n := pool.length) (by omega)).1, List.set_append_right _ _ (Nat.le_refl _),
      Nat.sub_self]
    rfl
  rw [hset]
  have hnew : exprNew (literalExpr after) pool =
      .ok (Int32.ofNat pool.length, pool ++ [literalExpr after]) := by
    unfold exprNew
    rw [if_neg (by omega)]
  exact .leaf hfew (.inr rfl) hnew

end

/-- The readers that call each other, with one unit of fuel more for each call. -/
theorem parseExpr_reads (fuel : Nat) :
    (∀ {tokens rest : List Token} {pool pool' : ExprPool} {i : Int32},
      pool.length ≤ MAX_EXPR_NODES → parseFactorFrom fuel tokens pool = .ok (i, rest, pool') →
        ReadsExpr pool i pool') ∧
    (∀ {tokens rest : List Token} {pool mid pool' : ExprPool} {node i : Int32},
      ReadsExpr pool node mid → termLoop fuel node tokens mid = .ok (i, rest, pool') →
        ReadsExpr pool i pool') ∧
    (∀ {tokens rest : List Token} {pool pool' : ExprPool} {i : Int32},
      pool.length ≤ MAX_EXPR_NODES → parseTermFrom fuel tokens pool = .ok (i, rest, pool') →
        ReadsExpr pool i pool') ∧
    (∀ {tokens rest : List Token} {pool mid pool' : ExprPool} {node i : Int32},
      ReadsExpr pool node mid → sumLoop fuel node tokens mid = .ok (i, rest, pool') →
        ReadsExpr pool i pool') ∧
    (∀ {tokens rest : List Token} {pool pool' : ExprPool} {i : Int32},
      pool.length ≤ MAX_EXPR_NODES → parseExpressionFrom fuel tokens pool = .ok (i, rest, pool') →
        ReadsExpr pool i pool') := by
  induction fuel with
  | zero =>
    refine ⟨?_, ?_, ?_, ?_, ?_⟩ <;> intros
    all_goals simp_all [parseFactorFrom, termLoop, parseTermFrom, sumLoop, parseExpressionFrom]
  | succ fuel ih =>
    obtain ⟨hfactor, htermLoop, hterm, hsumLoop, hexpression⟩ := ih
    refine ⟨?_, ?_, ?_, ?_, ?_⟩
    · intro tokens rest pool pool' i hfew h
      rw [parseFactorFrom] at h
      split at h
      · -- '-' factor
        split at h
        · exact absurd h (by simp)
        · rename_i hinner
          obtain ⟨⟨j, grown⟩, hnew, heq⟩ := map_ok h
          obtain ⟨rfl, hrest⟩ := Prod.mk.inj heq
          obtain ⟨-, rfl⟩ := Prod.mk.inj hrest
          exact (hfactor hfew hinner).negate hnew
      · -- '(' expression ')'
        split at h
        · exact absurd h (by simp)
        · rename_i hinner
          split at h
          · obtain ⟨rfl, -, rfl⟩ := by simpa using Except.ok.inj h
            exact hexpression hfew hinner
          · exact absurd h (by simp)
      · -- column
        obtain ⟨⟨j, grown⟩, hnew, heq⟩ := map_ok h
        obtain ⟨rfl, hrest⟩ := Prod.mk.inj heq
        obtain ⟨-, rfl⟩ := Prod.mk.inj hrest
        exact .leaf hfew (.inl rfl) hnew
      iterate 3
        · -- literal
          split at h
          · exact absurd h (by simp)
          · exact absurd h (by simp)
          · rename_i hnew hvalue
            obtain ⟨rfl, -, rfl⟩ := by simpa using Except.ok.inj h
            exact .literal hfew hnew
      · exact absurd h (by simp)
    · intro tokens rest pool mid pool' node i hread h
      rw [termLoop] at h
      split at h
      · obtain ⟨rfl, -, rfl⟩ := by simpa using Except.ok.inj h
        exact hread
      · split at h
        · exact absurd h (by simp)
        · rename_i hright
          split at h
          · exact absurd h (by simp)
          · rename_i hnew
            exact htermLoop (hread.binary (hfactor hread.few hright) hnew) h
    · intro tokens rest pool pool' i hfew h
      rw [parseTermFrom] at h
      split at h
      · exact absurd h (by simp)
      · rename_i hfirst
        exact htermLoop (hfactor hfew hfirst) h
    · intro tokens rest pool mid pool' node i hread h
      rw [sumLoop] at h
      split at h
      · obtain ⟨rfl, -, rfl⟩ := by simpa using Except.ok.inj h
        exact hread
      · split at h
        · exact absurd h (by simp)
        · rename_i hright
          split at h
          · exact absurd h (by simp)
          · rename_i hnew
            exact hsumLoop (hread.binary (hterm hread.few hright) hnew) h
    · intro tokens rest pool pool' i hfew h
      rw [parseExpressionFrom] at h
      split at h
      · exact absurd h (by simp)
      · rename_i hfirst
        exact hsumLoop (hterm hfew hfirst) h

section
variable {tokens rest : List Token} {pool pool' : ExprPool} {i : Int32}

/-- An expression is on the nodes that were added for it. -/
theorem parseExpression_reads (hfew : pool.length ≤ MAX_EXPR_NODES)
    (h : parseExpression tokens pool = .ok (i, rest, pool')) : ReadsExpr pool i pool' :=
  (parseExpr_reads _).2.2.2.2 hfew h

/-- The left side of a comparison too, in HAVING as in WHERE. -/
theorem parseLeft_reads {allowAggregate : Bool} (hfew : pool.length ≤ MAX_EXPR_NODES)
    (h : parseLeft allowAggregate tokens pool = .ok (i, rest, pool')) : ReadsExpr pool i pool' := by
  unfold parseLeft at h
  split at h
  · split at h
    · exact absurd h (by simp)
    · obtain ⟨⟨j, grown⟩, hnew, heq⟩ := map_ok h
      obtain ⟨rfl, hrest⟩ := Prod.mk.inj heq
      obtain ⟨-, rfl⟩ := Prod.mk.inj hrest
      exact .leaf hfew (.inl rfl) hnew
  · exact parseExpression_reads hfew h

end

/-! ### Operands -/

/-- Expressions that stand one behind the other and fill a stretch. -/
inductive SpanList (pool : ExprPool) : Nat → List Int32 → Nat → Prop
  | nil {lo : Nat} : SpanList pool lo [] lo
  | cons {lo mid hi : Nat} {i : Int32} {rest : List Int32} (first : Spans pool i lo mid)
      (behind : SpanList pool mid rest hi) : SpanList pool lo (i :: rest) hi

/-- Two expressions without a node in common. -/
def RootsApart (pool : ExprPool) (i k : Int32) : Prop :=
  ∀ j, reaches pool i j = true → reaches pool k j = false

section
variable {pool pool' : ExprPool} {i k : Int32} {lo mid hi : Nat} {list : List Int32}

/-- Neither of the two is below the other. -/
theorem RootsApart.roots (h : RootsApart pool i k) :
    reaches pool i k = false ∧ reaches pool k i = false := by
  refine ⟨?_, h i reaches_self⟩
  rw [← Bool.not_eq_true]
  intro hreach
  exact absurd (h k hreach) (by simp [reaches_self])

/-- A list of ranges ends no earlier than it starts. -/
theorem SpanList.le (h : SpanList pool lo list hi) : lo ≤ hi := by
  induction h with
  | nil => exact Nat.le_refl _
  | cons first behind ih =>
    have hlow := first.root.2
    have hhigh := first.root.1.2
    omega

/-- Nodes added behind leave the ranges. -/
theorem SpanList.front (h : SpanList pool lo list hi) (hfront : pool <+: pool') :
    SpanList pool' lo list hi := by
  induction h with
  | nil => exact .nil
  | cons first behind ih => exact .cons (first.front hfront) ih

/-- One more expression behind the others. -/
theorem SpanList.snoc (h : SpanList pool lo list mid) (hi' : Spans pool i mid hi) :
    SpanList pool lo (list ++ [i]) hi := by
  induction h with
  | nil => exact .cons hi' .nil
  | cons first behind ih => exact .cons first (ih hi')

/-- What one of the expressions reaches is in the stretch. -/
theorem SpanList.within (h : SpanList pool lo list hi) (hin : i ∈ list)
    (hreach : reaches pool i k = true) : Within lo hi k := by
  induction h with
  | nil => exact absurd hin List.not_mem_nil
  | cons first behind ih =>
    rcases List.mem_cons.mp hin with rfl | hin
    · exact (first.reaches hreach).mono (Nat.le_refl _) behind.le
    · have hlow := first.root.2
      have hhigh := first.root.1.2
      exact (ih hin).mono (by omega) (Nat.le_refl _)

/-- The expressions have no node in common. -/
theorem SpanList.apart (h : SpanList pool lo list hi) : list.Pairwise (RootsApart pool) := by
  induction h with
  | nil => exact .nil
  | cons first behind ih =>
    refine .cons (fun k hk j hreach => ?_) ih
    rw [← Bool.not_eq_true]
    intro hother
    have hfront := (first.reaches hreach).1.2
    have hbehind := (behind.within hk hother).2
    omega

end

end DatabaseEngine
