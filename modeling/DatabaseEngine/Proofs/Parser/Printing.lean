import DatabaseEngine.Proofs.Parser.Expressions
import DatabaseEngine.Proofs.Parser.Conditions
import DatabaseEngine.Proofs.Wire.Spelling

/-!
# `DatabaseEngine.Proofs.Parser.Printing`: a WHERE that is printed is read back

`parsePrimary` takes a bracket for that of a condition, whatever stands in it. A comparison whose
left side starts with one is read as a condition that breaks off behind the expression in the
bracket, and that is an error; every other one comes back.

* `ConditionTree.reads`: where no comparison starts with a bracket, each level reads what is
  printed at it.
* `ConditionTree.refused`: where one does, each level answers an error.
* `tokenize_written`: the tokens of a statement come back from its text.
* `where_comes_back_iff`: a condition comes back from the text of its statement exactly where no
  comparison starts with a bracket.
-/

set_option autoImplicit false

namespace DatabaseEngine

/-! ### Pools -/

/-- The node that was added last is found at its index. -/
theorem nodeAt_append {nodes : List ConditionNode} {node : ConditionNode}
    (hfew : nodes.length < MAX_CONDITION_NODES) :
    nodeAt (nodes ++ [node]) (Int32.ofNat nodes.length) = some node := by
  have hmax : MAX_CONDITION_NODES < 2147483648 := by decide
  obtain ⟨hnat, hpos⟩ := toNat_ofNat (n := nodes.length) (by omega)
  have hneg : ¬Int32.ofNat nodes.length < 0 :=
    (Below.not_neg (n := nodes.length + 1) ⟨hpos, by omega⟩)
  unfold nodeAt
  rw [if_neg hneg, hnat, List.getElem?_append_right (Nat.le_refl _)]
  simp

/-- A node stays where it is when others are added. -/
theorem nodeAt_front {nodes nodes' : List ConditionNode} (h : nodes <+: nodes') {i : Int32}
    {node : ConditionNode} (hnode : nodeAt nodes i = some node) : nodeAt nodes' i = some node := by
  unfold nodeAt at hnode ⊢
  split at hnode
  · exact absurd hnode (by simp)
  · obtain ⟨hlt, -⟩ := List.getElem?_eq_some_iff.mp hnode
    rw [if_neg (by assumption), getElem?_of_front h hlt]
    exact hnode

/-- A condition stays where it is when nodes are added. -/
theorem ConditionTree.At.mono {nodes nodes' : List ConditionNode} {exprs exprs' : ExprPool}
    (hnodes : nodes <+: nodes') (hexprs : exprs <+: exprs') {i : Int32} {tree : ConditionTree}
    (h : tree.At nodes exprs i) : tree.At nodes' exprs' i := by
  induction h with
  | compare hnode hleft hright =>
    exact .compare (nodeAt_front hnodes hnode) (hleft.mono hexprs) (hright.mono hexprs)
  | isNull hnode hleft => exact .isNull (nodeAt_front hnodes hnode) (hleft.mono hexprs)
  | like hnode hleft hpattern =>
    exact .like (nodeAt_front hnodes hnode) (hleft.mono hexprs) (hpattern.mono hexprs)
  | not hnode _ ih => exact .not (nodeAt_front hnodes hnode) ih
  | and hnode _ _ ihl ihr => exact .and (nodeAt_front hnodes hnode) ihl ihr
  | or hnode _ _ ihl ihr => exact .or (nodeAt_front hnodes hnode) ihl ihr

/-- Pools with a condition behind what they held before. -/
structure ConditionTree.Added (tree : ConditionTree) (start cond : ConditionRead) (i : Int32) :
    Prop where
  nodes : start.nodes <+: cond.nodes
  exprs : start.exprs <+: cond.exprs
  nodeCount : cond.nodes.length = start.nodes.length + tree.size
  exprCount : cond.exprs.length = start.exprs.length + tree.operands
  at_ : tree.At cond.nodes cond.exprs i

/-- The pools have room for a condition. -/
structure ConditionTree.Room (tree : ConditionTree) (start : ConditionRead) : Prop where
  nodes : start.nodes.length + tree.size ≤ MAX_CONDITION_NODES
  operands : start.exprs.length + tree.operands ≤ MAX_EXPR_NODES

/-- A new node stands behind the others while there is room. -/
theorem newCondition_fits {node : ConditionNode} {cond : ConditionRead}
    (h : cond.nodes.length < MAX_CONDITION_NODES) :
    newCondition node cond =
      .ok (Int32.ofNat cond.nodes.length, { cond with nodes := cond.nodes ++ [node] }) := by
  unfold newCondition
  rw [if_neg (by omega)]

/-- The node of a comparison is made before its right side is read, and filled in behind it. -/
theorem setCompare_fresh {cond : ConditionRead} {p q : Predicate} {nodes : List ConditionNode}
    (hnodes : cond.nodes = nodes ++ [predicateNode p])
    (hfew : nodes.length < MAX_CONDITION_NODES) :
    cond.setCompare (Int32.ofNat nodes.length) q =
      { cond with nodes := nodes ++ [predicateNode q] } := by
  have hmax : MAX_CONDITION_NODES < 2147483648 := by decide
  unfold ConditionRead.setCompare
  rw [(toNat_ofNat (n := nodes.length) (by omega)).1, hnodes]
  simp

namespace ConditionTree

variable {tree left right : ConditionTree} {start mid cond : ConditionRead} {i j : Int32}

/-- NOT adds a node over its condition. -/
theorem Added.not (h : tree.Added start mid i) (hfew : mid.nodes.length < MAX_CONDITION_NODES) :
    (ConditionTree.not tree).Added start
      { mid with nodes := mid.nodes ++ [branchNode .COND_NOT i (-1)] }
      (Int32.ofNat mid.nodes.length) where
  nodes := h.nodes.trans (List.prefix_append _ _)
  exprs := h.exprs
  nodeCount := by
    rw [List.length_append, h.nodeCount]
    rfl
  exprCount := h.exprCount
  at_ := .not (nodeAt_append hfew) (h.at_.mono (List.prefix_append _ _) (List.prefix_refl _))

/-- Two sides of a branch. -/
theorem Added.sides (h : left.Added start mid i) (h' : right.Added mid cond j)
    (node : ConditionNode) :
    start.nodes <+: cond.nodes ++ [node] ∧ start.exprs <+: cond.exprs ∧
      (cond.nodes ++ [node]).length = start.nodes.length + (left.size + right.size + 1) ∧
      cond.exprs.length = start.exprs.length + (left.operands + right.operands) ∧
      left.At (cond.nodes ++ [node]) cond.exprs i ∧ right.At (cond.nodes ++ [node]) cond.exprs j := by
  have hback : cond.nodes <+: cond.nodes ++ [node] := List.prefix_append _ _
  refine ⟨(h.nodes.trans h'.nodes).trans hback, h.exprs.trans h'.exprs, ?_, ?_,
    h.at_.mono (h'.nodes.trans hback) h'.exprs, h'.at_.mono hback (List.prefix_refl _)⟩
  · rw [List.length_append, h'.nodeCount, h.nodeCount, List.length_singleton]
    omega
  · rw [h'.exprCount, h.exprCount]
    omega

/-- AND adds a node over its two conditions. -/
theorem Added.and (h : left.Added start mid i) (h' : right.Added mid cond j)
    (hfew : cond.nodes.length < MAX_CONDITION_NODES) :
    (ConditionTree.and left right).Added start
      { cond with nodes := cond.nodes ++ [branchNode .COND_AND i j] }
      (Int32.ofNat cond.nodes.length) := by
  obtain ⟨hnodes, hexprs, hcount, hoperands, hl, hr⟩ := h.sides h' (branchNode .COND_AND i j)
  exact ⟨hnodes, hexprs, hcount, hoperands, .and (nodeAt_append hfew) hl hr⟩

/-- OR adds a node over its two conditions. -/
theorem Added.or (h : left.Added start mid i) (h' : right.Added mid cond j)
    (hfew : cond.nodes.length < MAX_CONDITION_NODES) :
    (ConditionTree.or left right).Added start
      { cond with nodes := cond.nodes ++ [branchNode .COND_OR i j] }
      (Int32.ofNat cond.nodes.length) := by
  obtain ⟨hnodes, hexprs, hcount, hoperands, hl, hr⟩ := h.sides h' (branchNode .COND_OR i j)
  exact ⟨hnodes, hexprs, hcount, hoperands, .or (nodeAt_append hfew) hl hr⟩

/-- A comparison is one node. -/
theorem Added.comparison {p : Predicate} {exprs : ExprPool}
    (hfew : start.nodes.length < MAX_CONDITION_NODES) (hsize : tree.size = 1)
    (hfront : start.exprs <+: exprs)
    (hcount : exprs.length = start.exprs.length + tree.operands)
    (hat : nodeAt (start.nodes ++ [predicateNode p]) (Int32.ofNat start.nodes.length) =
        some (predicateNode p) →
      tree.At (start.nodes ++ [predicateNode p]) exprs (Int32.ofNat start.nodes.length)) :
    tree.Added start
      { nodes := start.nodes ++ [predicateNode p], exprs := exprs, pool := start.pool }
      (Int32.ofNat start.nodes.length) where
  nodes := List.prefix_append _ _
  exprs := hfront
  nodeCount := by
    rw [hsize]
    exact List.length_append
  exprCount := hcount
  at_ := hat (nodeAt_append hfew)

/-- The right side of a branch has room behind the left one. -/
theorem Added.room (h : left.Added start mid i)
    (hnodes : start.nodes.length + (left.size + right.size) ≤ MAX_CONDITION_NODES)
    (hexprs : start.exprs.length + (left.operands + right.operands) ≤ MAX_EXPR_NODES) :
    right.Room mid :=
  ⟨by rw [h.nodeCount]; omega, by rw [h.exprCount]; omega⟩

end ConditionTree

/-! ### Comparisons -/

section
variable (subquery : SubqueryRead)

/-- Behind the left side of a comparison. -/
def behindLeft (left : Int32) (start : ConditionRead) (exprs : ExprPool) (rest : List Token) :
    NodeRead :=
  let cond : ConditionRead :=
    { nodes := start.nodes ++ [predicateNode { blankPredicate with left := left }]
      exprs := exprs, pool := start.pool }
  let node := Int32.ofNat start.nodes.length
  let word := if typeAt rest 0 == .TOKEN_KEYWORD_NOT then typeAt rest 1 else typeAt rest 0
  if word = .TOKEN_KEYWORD_IN then parseIn subquery left node rest cond
  else if typeAt rest 0 = .TOKEN_KEYWORD_IS then parseIsNull left node rest cond
  else if word = .TOKEN_KEYWORD_LIKE then parseLike left node rest cond
  else parseOperator subquery left node rest cond

/-- A comparison behind a left side that is printed. -/
theorem parseComparison_print (tree : ExprTree) {rest : List Token} {start : ConditionRead}
    (hnodes : start.nodes.length < MAX_CONDITION_NODES)
    (hfits : start.exprs.length + tree.size ≤ MAX_EXPR_NODES) (hrest : Ends rest) :
    ∃ left exprs, parseComparison subquery false (tree.print 0 ++ rest) start =
        behindLeft subquery left start exprs rest ∧ tree.Added start.exprs exprs left := by
  obtain ⟨left, exprs, hread, hadded⟩ := parseExpression_print tree hfits hrest
  refine ⟨left, exprs, ?_, hadded⟩
  have hleft : parseLeft false (tree.print 0 ++ rest) start.exprs = .ok (left, rest, exprs) := hread
  unfold parseComparison
  rw [hleft]
  dsimp only
  rw [@newCondition_fits _ { start with exprs := exprs } hnodes]
  rfl

/-- A token that no expression goes on with, and that stands behind a left side. -/
theorem Ends.of_type {token : Token} {rest : List Token}
    (h : sumOperator token.type = none ∧ termOperator token.type = none) : Ends (token :: rest) := h

/-- No numeral is NULL. -/
theorem numberValue_isNull {digits : List UInt8} {negative : Bool} {value : Value}
    (h : numberValue digits negative = .ok value) : value.isNull = false := by
  unfold numberValue at h
  split at h
  · split at h
    · exact absurd h (by simp)
    · rw [← Except.ok.inj h]
      rfl
  · simp only at h
    generalize (if negative = true then -(strtoll digits : Int) else strtoll digits) = n at h
    split at h
    · exact absurd h (by simp)
    · rw [← Except.ok.inj h]
      rfl

/-- No literal of a printed tree is NULL. -/
theorem exprLiteral_print {tree : ExprTree} {pool : ExprPool} {i : Int32} (h : tree.At pool i) :
    (exprLiteral pool i).any Value.isNull = false := by
  unfold exprLiteral
  cases h with
  | column h => rw [h]; rfl
  | @number _ numeral h =>
    rw [h]
    exact numberValue_isNull numeral.worth
  | text h => rw [h]; rfl
  | negate h _ => rw [h]; rfl
  | binary h _ _ => rw [h]; rfl

/-- A comparison that is printed is read back. -/
theorem compare_print (relation : Relation) (left right : ExprTree) {rest : List Token}
    {start : ConditionRead} (hroom : (ConditionTree.compare relation left right).Room start)
    (hrest : Ends rest) :
    ∃ i cond, parseComparison subquery false
        ((ConditionTree.compare relation left right).print 3 ++ rest) start = .ok (i, rest, cond) ∧
      (ConditionTree.compare relation left right).Added start cond i := by
  have hfits : start.exprs.length + (left.size + right.size) ≤ MAX_EXPR_NODES := hroom.operands
  have hnodes : start.nodes.length < MAX_CONDITION_NODES := hroom.nodes
  have hprint : (ConditionTree.compare relation left right).print 3 ++ rest =
      left.print 0 ++ relation.token :: (right.print 0 ++ rest) := by
    show (left.print 0 ++ relation.token :: right.print 0) ++ rest = _
    rw [List.append_assoc]
    rfl
  obtain ⟨l, exprs, hread, hleft⟩ := @parseComparison_print subquery left
    (relation.token :: (right.print 0 ++ rest)) _ hnodes (by omega)
    (.of_type (by cases relation <;> exact ⟨rfl, rfl⟩))
  obtain ⟨r, exprs', hread', hright⟩ := parseExpression_print right
    (by rw [hleft.length]; omega) hrest
  refine ⟨_, _, ?_, .comparison hnodes rfl (hleft.front.trans hright.front) ?_ fun hnode =>
    .compare hnode (hleft.at_.mono hright.front) hright.at_⟩
  · rw [hprint, hread]
    have hword : relation.token.type ≠ .TOKEN_KEYWORD_NOT ∧
        relation.token.type ≠ .TOKEN_KEYWORD_IN ∧ relation.token.type ≠ .TOKEN_KEYWORD_IS ∧
        relation.token.type ≠ .TOKEN_KEYWORD_LIKE ∧
        comparisonOperator relation.token.type = some relation.op := by
      cases relation <;> decide
    have hno : ¬(typeAt (right.print 0 ++ rest) 0 = .TOKEN_LPAREN ∧
        typeAt (right.print 0 ++ rest) 1 = .TOKEN_KEYWORD_SELECT) := by
      rintro ⟨hopen, hselect⟩
      have := right.print_second 0 rest hopen
      rw [hselect] at this
      exact absurd this (by decide)
    unfold behindLeft
    simp only [typeAt_cons, beq_iff_eq, if_neg hword.1, if_neg hword.2.1, if_neg hword.2.2.1,
      if_neg hword.2.2.2.1]
    unfold parseOperator
    simp only [typeAt_cons, hword.2.2.2.2, List.drop_succ_cons, List.drop_zero, if_neg hno, hread',
      exprLiteral_print hright.at_, Bool.false_eq_true, if_false]
    rw [setCompare_fresh rfl hnodes]
  · rw [hright.length, hleft.length]
    show _ = start.exprs.length + (left.size + right.size)
    omega

/-- A printed IS NULL is read back. -/
theorem isNull_print (negated : Bool) (left : ExprTree) {rest : List Token}
    {start : ConditionRead} (hroom : (ConditionTree.isNull negated left).Room start) :
    ∃ i cond, parseComparison subquery false
        ((ConditionTree.isNull negated left).print 3 ++ rest) start = .ok (i, rest, cond) ∧
      (ConditionTree.isNull negated left).Added start cond i := by
  have hnodes : start.nodes.length < MAX_CONDITION_NODES := hroom.nodes
  have hprint : (ConditionTree.isNull negated left).print 3 ++ rest =
      left.print 0 ++ isToken :: (negation negated ++ nullToken :: rest) := by
    show (left.print 0 ++ isToken :: (negation negated ++ [nullToken])) ++ rest = _
    simp
  obtain ⟨l, exprs, hread, hleft⟩ := @parseComparison_print subquery left
    (isToken :: (negation negated ++ nullToken :: rest)) _ hnodes hroom.operands ⟨rfl, rfl⟩
  refine ⟨_, _, ?_, .comparison hnodes rfl hleft.front hleft.length fun hnode =>
    .isNull hnode hleft.at_⟩
  rw [hprint, hread]
  have hparse : ∀ cond : ConditionRead,
      parseIsNull l (Int32.ofNat start.nodes.length)
          (isToken :: (negation negated ++ nullToken :: rest)) cond =
        .ok (Int32.ofNat start.nodes.length, rest,
          cond.setCompare (Int32.ofNat start.nodes.length)
            { left := l, op := if negated then .OP_IS_NOT_NULL else .OP_IS_NULL, right := -1,
              subquery := -1 }) := by
    intro cond
    cases negated <;> rfl
  show parseIsNull l _ (isToken :: (negation negated ++ nullToken :: rest)) _ = _
  rw [hparse, setCompare_fresh rfl hnodes]

/-- A printed LIKE is read back. -/
theorem like_print (negated : Bool) (left : ExprTree) (pattern : LiteralText) {rest : List Token}
    {start : ConditionRead} (hroom : (ConditionTree.like negated left pattern).Room start) :
    ∃ i cond, parseComparison subquery false
        ((ConditionTree.like negated left pattern).print 3 ++ rest) start = .ok (i, rest, cond) ∧
      (ConditionTree.like negated left pattern).Added start cond i := by
  have hnodes : start.nodes.length < MAX_CONDITION_NODES := hroom.nodes
  have hfits : start.exprs.length + (left.size + 1) ≤ MAX_EXPR_NODES := hroom.operands
  have hprint : (ConditionTree.like negated left pattern).print 3 ++ rest =
      left.print 0 ++ (negation negated ++ likeToken :: pattern.token :: rest) := by
    show (left.print 0 ++ (negation negated ++ [likeToken, pattern.token])) ++ rest = _
    simp
  obtain ⟨l, exprs, hread, hleft⟩ := @parseComparison_print subquery left
    (negation negated ++ likeToken :: pattern.token :: rest) _ hnodes (by omega)
    (by cases negated <;> exact ⟨rfl, rfl⟩)
  have hfew : exprs.length < MAX_EXPR_NODES := by
    rw [hleft.length]
    omega
  have hpattern : (ExprTree.text pattern).Added exprs
      (exprs ++ [literalExpr (setText pattern.text)]) (Int32.ofNat exprs.length) :=
    .leaf hfew rfl fun _ _ => .text
  refine ⟨_, _, ?_, .comparison hnodes rfl (hleft.front.trans hpattern.front) ?_ fun hnode =>
    .like hnode (hleft.at_.mono hpattern.front) hpattern.at_⟩
  · rw [hprint, hread]
    have hparse : ∀ cond : ConditionRead, cond.exprs = exprs →
        parseLike l (Int32.ofNat start.nodes.length)
            (negation negated ++ likeToken :: pattern.token :: rest) cond =
          .ok (Int32.ofNat start.nodes.length, rest,
            { cond with exprs := exprs ++ [literalExpr (setText pattern.text)] }.setCompare
              (Int32.ofNat start.nodes.length)
              { left := l, op := if negated then .OP_NOT_LIKE else .OP_LIKE,
                right := Int32.ofNat exprs.length, subquery := -1 }) := by
      intro cond hexprs
      have hvalue : parseValue ((negation negated ++ likeToken :: pattern.token :: rest).drop
          (if negated then 2 else 1)) = .ok (setText pattern.text, rest) := by
        cases negated <;> rfl
      have hnegated : (typeAt (negation negated ++ likeToken :: pattern.token :: rest) 0 ==
          TokenType.TOKEN_KEYWORD_NOT) = negated := by
        cases negated <;> rfl
      unfold parseLike
      dsimp only
      rw [hnegated, hvalue]
      dsimp only
      rw [if_neg (by simp [setText]), hexprs, exprNew_ok hfew]
    have hword : behindLeft subquery l start exprs
        (negation negated ++ likeToken :: pattern.token :: rest) =
        parseLike l (Int32.ofNat start.nodes.length)
          (negation negated ++ likeToken :: pattern.token :: rest)
          { nodes := start.nodes ++ [predicateNode { blankPredicate with left := l }]
            exprs := exprs, pool := start.pool } := by
      cases negated <;> rfl
    rw [hword, hparse _ rfl, setCompare_fresh rfl hnodes]
  · rw [hpattern.length, hleft.length]
    rfl

/-! ### What starts with a bracket -/

/-- The bracket that an expression starts with is that of a smaller sum. -/
theorem opens_split {tree : ExprTree} {level : Nat} (h : tree.opens level = true) :
    ∃ (inner : ExprTree) (more : List Token),
      tree.print level = openBracket :: (inner.print 0 ++ closeBracket :: more) ∧
        inner.size ≤ tree.size ∧ (inner.print 0).length < (tree.print level).length := by
  induction tree generalizing level with
  | column name => exact absurd h (by simp [ExprTree.opens])
  | number numeral => exact absurd h (by simp [ExprTree.opens])
  | text literal => exact absurd h (by simp [ExprTree.opens])
  | negate inner _ => exact absurd h (by simp [ExprTree.opens])
  | binary op left right ihl _ =>
    by_cases hlevel : op.level < level
    · -- the whole is in brackets, and what is in them is printed at the level of a sum
      have hprint : (ExprTree.binary op left right).print level =
          openBracket :: ((ExprTree.binary op left right).print 0 ++ [closeBracket]) := by
        rw [ExprTree.print_binary, ExprTree.print_binary, decide_eq_true hlevel]
        rfl
      refine ⟨_, [], hprint, Nat.le_refl _, ?_⟩
      rw [hprint, List.length_cons, List.length_append]
      omega
    · have hprint : (ExprTree.binary op left right).print level =
          left.print op.level ++ op.token :: right.print (op.level + 1) := by
        rw [ExprTree.print_binary, decide_eq_false hlevel]
        rfl
      have hopens : left.opens op.level = true := by
        simpa [ExprTree.opens, hlevel] using h
      obtain ⟨inner, more, hinner, hsize, hlength⟩ := ihl hopens
      refine ⟨inner, more ++ op.token :: right.print (op.level + 1), ?_, ?_, ?_⟩
      · rw [hprint, hinner]
        simp
      · show _ ≤ left.size + right.size + 1
        omega
      · rw [hprint, List.length_append]
        omega

/-- What no primary is read from, no condition is. -/
theorem parseOr_refused {tokens : List Token} {start : ConditionRead}
    (hnot : typeAt tokens 0 ≠ .TOKEN_KEYWORD_NOT)
    (h : ∀ fuel, ∃ code, parsePrimaryFrom subquery false fuel tokens start = .error code)
    (fuel : Nat) : ∃ code, parseOrFrom subquery false fuel tokens start = .error code := by
  have hnotFrom : ∀ fuel, ∃ code, parseNotFrom subquery false fuel tokens start = .error code := by
    intro fuel
    cases fuel with
    | zero => exact ⟨_, rfl⟩
    | succ fuel =>
      rw [parseNotFrom, if_pos hnot]
      exact h fuel
  have hand : ∀ fuel, ∃ code, parseAndFrom subquery false fuel tokens start = .error code := by
    intro fuel
    cases fuel with
    | zero => exact ⟨_, rfl⟩
    | succ fuel =>
      obtain ⟨code, hcode⟩ := hnotFrom fuel
      exact ⟨code, by rw [parseAndFrom, hcode]⟩
  cases fuel with
  | zero => exact ⟨_, rfl⟩
  | succ fuel =>
    obtain ⟨code, hcode⟩ := hand fuel
    exact ⟨code, by rw [parseOrFrom, hcode]⟩

/-- Behind a bracket that a condition was expected in, one that is read breaks off. -/
theorem parsePrimary_open {inner more : List Token} {start : ConditionRead}
    (hnot : typeAt inner 0 ≠ .TOKEN_KEYWORD_NOT)
    (h : ∀ fuel, ∃ code, parsePrimaryFrom subquery false fuel inner start = .error code)
    (hmore : more = openBracket :: inner) (fuel : Nat) :
    ∃ code, parsePrimaryFrom subquery false fuel more start = .error code := by
  subst hmore
  cases fuel with
  | zero => exact ⟨_, rfl⟩
  | succ fuel =>
    obtain ⟨code, hcode⟩ := parseOr_refused subquery hnot h fuel
    refine ⟨code, ?_⟩
    rw [parsePrimaryFrom, typeAt_cons, if_neg (by decide), if_pos (by decide)]
    simp only [List.drop_succ_cons, List.drop_zero, hcode]

/-- A token no expression starts with is not the one it starts with. -/
theorem startsExpression_ne {type other : TokenType} (h : startsExpression type = true)
    (hother : startsExpression other = false) : type ≠ other := by
  rintro rfl
  rw [h] at hother
  exact absurd hother (by simp)

/-- Tokens that start an expression without a bracket are read as a comparison. -/
theorem parsePrimary_comparison {tokens : List Token} {start : ConditionRead} {fuel : Nat}
    (hstarts : startsExpression (typeAt tokens 0) = true)
    (hopens : typeAt tokens 0 ≠ .TOKEN_LPAREN) :
    parsePrimaryFrom subquery false (fuel + 1) tokens start =
      parseComparison subquery false tokens start := by
  rw [parsePrimaryFrom, if_neg (startsExpression_ne hstarts rfl), if_neg hopens]

/-- An expression that a bracket closes is no condition. -/
theorem parsePrimary_closed (tree : ExprTree) {more : List Token} {start : ConditionRead}
    (hfits : start.exprs.length + tree.size ≤ MAX_EXPR_NODES) (fuel : Nat) :
    ∃ code, parsePrimaryFrom subquery false fuel (tree.print 0 ++ closeBracket :: more) start =
      .error code := by
  induction hlength : (tree.print 0).length using Nat.strongRecOn generalizing tree more fuel with
  | ind n ih =>
    cases hopens : tree.opens 0 with
    | true =>
      obtain ⟨inner, behind, hprint, hsize, hshort⟩ := opens_split hopens
      refine @parsePrimary_open subquery (inner.print 0 ++ closeBracket ::
        (behind ++ closeBracket :: more)) _ _ (startsExpression_ne (inner.print_starts 0 _) rfl)
            (fun fuel => ih _ (by omega) inner (by omega) fuel rfl) ?_ fuel
      rw [hprint]
      simp
    | false =>
      cases fuel with
      | zero => exact ⟨_, rfl⟩
      | succ fuel =>
        have hstarts := tree.print_starts 0 (closeBracket :: more)
        have hbracket : typeAt (tree.print 0 ++ closeBracket :: more) 0 ≠ .TOKEN_LPAREN := by
          rw [Ne, tree.print_opens, hopens]
          simp
        rw [parsePrimary_comparison subquery hstarts hbracket]
        obtain ⟨left, exprs, hread, -⟩ := @parseExpression_print tree (closeBracket :: more) _ hfits
          ⟨rfl, rfl⟩
        have hleft : parseLeft false (tree.print 0 ++ closeBracket :: more) start.exprs =
            .ok (left, closeBracket :: more, exprs) := hread
        unfold parseComparison
        rw [hleft]
        dsimp only
        cases newCondition (predicateNode { blankPredicate with left := left })
          { start with exprs := exprs } with
        | error code => exact ⟨code, rfl⟩
        | ok made => exact ⟨_, rfl⟩

/-- So is a comparison whose left side starts with a bracket. -/
theorem parsePrimary_opens {tree : ExprTree} {more : List Token} {start : ConditionRead}
    (hopens : tree.opens 0 = true)
    (hfits : start.exprs.length + tree.size ≤ MAX_EXPR_NODES) (fuel : Nat) :
    ∃ code, parsePrimaryFrom subquery false fuel (tree.print 0 ++ more) start = .error code := by
  obtain ⟨inner, behind, hprint, hsize, -⟩ := opens_split hopens
  refine @parsePrimary_open subquery (inner.print 0 ++ closeBracket :: (behind ++ more)) _ _
    (startsExpression_ne (inner.print_starts 0 _) rfl)
    (fun fuel => parsePrimary_closed subquery inner (by omega) fuel) ?_ fuel
  rw [hprint]
  simp

/-! ### Levels -/

/-- What becomes of a tree that is printed: it is read, if no comparison of it starts with a
bracket, and it is an error otherwise. -/
structure ConditionTree.Outcome (tree : ConditionTree) (start : ConditionRead) (answer : NodeRead)
    (came : Int32 → ConditionRead → Prop) : Prop where
  reads : tree.Plain = true → ∃ i cond, came i cond ∧ tree.Added start cond i
  refused : tree.Plain = false → ∃ code, answer = .error code

namespace ConditionTree

/-- The tree is read back where a primary is read. -/
def Primary (tree : ConditionTree) : Prop :=
  ∀ (fuel : Nat) (rest : List Token) (start : ConditionRead), 4 * (tree.print 3).length ≤ fuel →
    tree.Room start → Ends rest →
    tree.Outcome start (parsePrimaryFrom subquery false fuel (tree.print 3 ++ rest) start)
      fun i cond => parsePrimaryFrom subquery false fuel (tree.print 3 ++ rest) start =
        .ok (i, rest, cond)

/-- The tree is read back where a negation is read. -/
def Negation (tree : ConditionTree) : Prop :=
  ∀ (fuel : Nat) (rest : List Token) (start : ConditionRead),
    4 * (tree.print 2).length + 1 ≤ fuel → tree.Room start → Ends rest →
    tree.Outcome start (parseNotFrom subquery false fuel (tree.print 2 ++ rest) start)
      fun i cond => parseNotFrom subquery false fuel (tree.print 2 ++ rest) start =
        .ok (i, rest, cond)

/-- The loop goes on behind what was read, with fuel left. -/
def Conjunction (tree : ConditionTree) : Prop :=
  ∀ (fuel : Nat) (rest : List Token) (start : ConditionRead),
    4 * (tree.print 1).length + 2 ≤ fuel → tree.Room start → Ends rest →
    tree.Outcome start (parseAndFrom subquery false fuel (tree.print 1 ++ rest) start)
      fun i cond => ∃ left, parseAndFrom subquery false fuel (tree.print 1 ++ rest) start =
        andLoop subquery false left i rest cond ∧ fuel ≤ left + 4 * (tree.print 1).length

/-- The tree is read back where a whole condition is read. -/
def Disjunction (tree : ConditionTree) : Prop :=
  ∀ (fuel : Nat) (rest : List Token) (start : ConditionRead),
    4 * (tree.print 0).length + 3 ≤ fuel → tree.Room start → Ends rest →
    typeAt rest 0 ≠ .TOKEN_KEYWORD_AND →
    tree.Outcome start (parseOrFrom subquery false fuel (tree.print 0 ++ rest) start)
      fun i cond => ∃ left, parseOrFrom subquery false fuel (tree.print 0 ++ rest) start =
        orLoop subquery false left i rest cond ∧ fuel ≤ left + 4 * (tree.print 0).length

variable {tree left right : ConditionTree}

/-- A printed condition starts as expressions do. -/
theorem print_three_starts (tree : ConditionTree) (rest : List Token) :
    startsExpression (typeAt (tree.print 3 ++ rest) 0) = true := by
  cases tree with
  | compare relation left right =>
    rw [ConditionTree.print, List.append_assoc]
    exact left.print_starts 0 _
  | isNull negated left =>
    rw [ConditionTree.print, List.append_assoc]
    exact left.print_starts 0 _
  | like negated left pattern =>
    rw [ConditionTree.print, List.append_assoc]
    exact left.print_starts 0 _
  | not inner => rfl
  | and left right => rfl
  | or left right => rfl

/-- It has at least one token. -/
theorem print_length_pos (tree : ConditionTree) (level : Nat) : 0 < (tree.print level).length := by
  cases tree <;> unfold ConditionTree.print <;> try unfold bracketed
  case not | and | or => split <;> simp
  case like left _ => have := left.print_length_pos 0; rw [List.length_append]; omega
  all_goals simp

variable {subquery}

/-- A conjunction ends where no AND follows. -/
theorem andLoop_stop {fuel : Nat} (hfuel : 0 < fuel) {i : Int32} {rest : List Token}
    {cond : ConditionRead} (h : typeAt rest 0 ≠ .TOKEN_KEYWORD_AND) :
    andLoop subquery false fuel i rest cond = .ok (i, rest, cond) := by
  obtain ⟨fuel, rfl⟩ : ∃ n, fuel = n + 1 := ⟨fuel - 1, by omega⟩
  rw [andLoop, if_pos h]

/-- A disjunction ends where no OR follows. -/
theorem orLoop_stop {fuel : Nat} (hfuel : 0 < fuel) {i : Int32} {rest : List Token}
    {cond : ConditionRead} (h : typeAt rest 0 ≠ .TOKEN_KEYWORD_OR) :
    orLoop subquery false fuel i rest cond = .ok (i, rest, cond) := by
  obtain ⟨fuel, rfl⟩ : ∃ n, fuel = n + 1 := ⟨fuel - 1, by omega⟩
  rw [orLoop, if_pos h]

/-- NOT reads the condition behind it and adds a branch. -/
theorem parseNotFrom_not (fuel : Nat) (rest : List Token) (cond : ConditionRead) :
    parseNotFrom subquery false (fuel + 1) (notToken :: rest) cond =
      match parseNotFrom subquery false fuel rest cond with
      | .error code => .error code
      | .ok (child, rest, cond) => addBranch (branchNode .COND_NOT child (-1)) rest cond := by
  rw [parseNotFrom, if_neg]
  · rfl
  · exact fun hne => hne rfl

/-- A bracket reads a condition and its closing bracket. -/
theorem parsePrimaryFrom_open (fuel : Nat) (rest : List Token) (cond : ConditionRead) :
    parsePrimaryFrom subquery false (fuel + 1) (openBracket :: rest) cond =
      match parseOrFrom subquery false fuel rest cond with
      | .error code => .error code
      | .ok (node, rest, cond) =>
        if typeAt rest 0 = .TOKEN_RPAREN then .ok (node, rest.drop 1, cond)
        else .error .SYNTAX_EXPECTED_PARENTHESES := by
  rw [parsePrimaryFrom, typeAt_cons, if_neg (by decide), if_pos (by decide)]
  rfl

/-- AND reads a condition more. -/
theorem andLoop_and (fuel : Nat) (i : Int32) (rest : List Token) (cond : ConditionRead) :
    andLoop subquery false (fuel + 1) i (andToken :: rest) cond =
      match parseNotFrom subquery false fuel rest cond with
      | .error code => .error code
      | .ok (right, rest, cond) =>
        match newCondition (branchNode .COND_AND i right) cond with
        | .error code => .error code
        | .ok (parent, cond) => andLoop subquery false fuel parent rest cond := by
  rw [andLoop, if_neg]
  · rfl
  · exact fun hne => hne rfl

/-- OR reads a conjunction more. -/
theorem orLoop_or (fuel : Nat) (i : Int32) (rest : List Token) (cond : ConditionRead) :
    orLoop subquery false (fuel + 1) i (orToken :: rest) cond =
      match parseAndFrom subquery false fuel rest cond with
      | .error code => .error code
      | .ok (right, rest, cond) =>
        match newCondition (branchNode .COND_OR i right) cond with
        | .error code => .error code
        | .ok (parent, cond) => orLoop subquery false fuel parent rest cond := by
  rw [orLoop, if_neg]
  · rfl
  · exact fun hne => hne rfl

/-- A comparison is a primary, by what its left side and the whole are read as. -/
theorem comparison_primary {side : ExprTree} {more : List Token}
    (hprint : tree.print 3 = side.print 0 ++ more) (hplain : tree.Plain = !side.opens 0)
    (hsize : side.size ≤ tree.operands)
    (hread : ∀ (rest : List Token) (start : ConditionRead), tree.Room start → Ends rest →
      ∃ i cond, parseComparison subquery false (tree.print 3 ++ rest) start = .ok (i, rest, cond) ∧
        tree.Added start cond i) : tree.Primary subquery := by
  intro fuel rest start hfuel hroom hrest
  have hpos := tree.print_length_pos 3
  obtain ⟨fuel, rfl⟩ : ∃ n, fuel = n + 1 := ⟨fuel - 1, by omega⟩
  have hstarts := tree.print_three_starts rest
  refine ⟨fun h => ?_, fun h => ?_⟩
  · have hopens : typeAt (tree.print 3 ++ rest) 0 ≠ .TOKEN_LPAREN := by
      rw [hprint, List.append_assoc, Ne, side.print_opens]
      rw [hplain] at h
      simpa using h
    rw [parsePrimary_comparison subquery hstarts hopens]
    exact hread rest start hroom hrest
  · rw [hprint, List.append_assoc]
    refine parsePrimary_opens subquery ?_ ?_ _
    · rw [hplain] at h
      simpa using h
    · have := hroom.operands
      omega

/-- A tree printed alike at both levels is read as a negation too. -/
theorem Primary.negation (h : tree.Primary subquery) (hprint : tree.print 2 = tree.print 3) :
    tree.Negation subquery := by
  intro fuel rest start hfuel hroom hrest
  obtain ⟨fuel, rfl⟩ : ∃ n, fuel = n + 1 := ⟨fuel - 1, by omega⟩
  rw [hprint] at hfuel ⊢
  rw [parseNotFrom, if_pos (startsExpression_ne (tree.print_three_starts rest) rfl)]
  exact h fuel rest start (by omega) hroom hrest

/-- NOT in front of what NOT can stand in front of. -/
theorem Negation.not (h : tree.Negation subquery) :
    (ConditionTree.not tree).Negation subquery := by
  intro fuel rest start hfuel hroom hrest
  have hprint : (ConditionTree.not tree).print 2 = notToken :: tree.print 2 := rfl
  rw [hprint, List.length_cons] at hfuel
  obtain ⟨fuel, rfl⟩ : ∃ n, fuel = n + 1 := ⟨fuel - 1, by omega⟩
  have hnodes : start.nodes.length + (tree.size + 1) ≤ MAX_CONDITION_NODES := hroom.nodes
  have houtcome := h fuel rest start (by omega) ⟨by omega, hroom.operands⟩ hrest
  rw [hprint, List.cons_append, parseNotFrom_not]
  refine ⟨fun hplain => ?_, fun hplain => ?_⟩
  · obtain ⟨i, mid, hread, hadded⟩ := houtcome.reads hplain
    have hfew : mid.nodes.length < MAX_CONDITION_NODES := by
      rw [hadded.nodeCount]
      omega
    refine ⟨_, _, ?_, hadded.not hfew⟩
    rw [hread]
    show addBranch _ _ _ = _
    unfold addBranch
    rw [newCondition_fits hfew]
    rfl
  · obtain ⟨code, hcode⟩ := houtcome.refused hplain
    exact ⟨code, by rw [hcode]⟩

/-- A tree printed alike at both levels is read as a conjunction too. -/
theorem Negation.conjunction (h : tree.Negation subquery) (hprint : tree.print 1 = tree.print 2) :
    tree.Conjunction subquery := by
  intro fuel rest start hfuel hroom hrest
  obtain ⟨fuel, rfl⟩ : ∃ n, fuel = n + 1 := ⟨fuel - 1, by omega⟩
  rw [hprint] at hfuel ⊢
  have hpos := tree.print_length_pos 2
  have houtcome := h fuel rest start (by omega) hroom hrest
  refine ⟨fun hplain => ?_, fun hplain => ?_⟩
  · obtain ⟨i, cond, hread, hadded⟩ := houtcome.reads hplain
    exact ⟨i, cond, ⟨fuel, by rw [parseAndFrom, hread], by omega⟩, hadded⟩
  · obtain ⟨code, hcode⟩ := houtcome.refused hplain
    exact ⟨code, by rw [parseAndFrom, hcode]⟩

/-- A tree printed alike at both levels is read as a disjunction too. -/
theorem Conjunction.disjunction (h : tree.Conjunction subquery)
    (hprint : tree.print 0 = tree.print 1) : tree.Disjunction subquery := by
  intro fuel rest start hfuel hroom hrest hand
  obtain ⟨fuel, rfl⟩ : ∃ n, fuel = n + 1 := ⟨fuel - 1, by omega⟩
  rw [hprint] at hfuel ⊢
  have hpos := tree.print_length_pos 1
  have houtcome := h fuel rest start (by omega) hroom hrest
  refine ⟨fun hplain => ?_, fun hplain => ?_⟩
  · obtain ⟨i, cond, ⟨more, hread, hmore⟩, hadded⟩ := houtcome.reads hplain
    rw [andLoop_stop (by omega) hand] at hread
    exact ⟨i, cond, ⟨fuel, by rw [parseOrFrom, hread], by omega⟩, hadded⟩
  · obtain ⟨code, hcode⟩ := houtcome.refused hplain
    exact ⟨code, by rw [parseOrFrom, hcode]⟩

/-- A disjunction in brackets is read as a primary. -/
theorem Disjunction.primary (h : tree.Disjunction subquery)
    (hprint : tree.print 3 = openBracket :: (tree.print 0 ++ [closeBracket])) :
    tree.Primary subquery := by
  intro fuel rest start hfuel hroom hrest
  rw [hprint, List.length_cons, List.length_append, List.length_singleton] at hfuel
  obtain ⟨fuel, rfl⟩ : ∃ n, fuel = n + 1 := ⟨fuel - 1, by omega⟩
  have houtcome := h fuel (closeBracket :: rest) start (by omega) hroom ⟨rfl, rfl⟩
    (nofun : TokenType.TOKEN_RPAREN ≠ .TOKEN_KEYWORD_AND)
  rw [hprint, List.cons_append, List.append_assoc, List.singleton_append, parsePrimaryFrom_open]
  refine ⟨fun hplain => ?_, fun hplain => ?_⟩
  · obtain ⟨i, cond, ⟨more, hread, hmore⟩, hadded⟩ := houtcome.reads hplain
    rw [@ConditionTree.orLoop_stop _ _ (by omega) _ (closeBracket :: rest) _
      (nofun : TokenType.TOKEN_RPAREN ≠ .TOKEN_KEYWORD_OR)] at hread
    refine ⟨i, cond, ?_, hadded⟩
    rw [hread]
    rfl
  · obtain ⟨code, hcode⟩ := houtcome.refused hplain
    exact ⟨code, by rw [hcode]⟩

/-- A conjunction behind its left side. -/
theorem Conjunction.and (hl : left.Conjunction subquery) (hr : right.Negation subquery) :
    (ConditionTree.and left right).Conjunction subquery := by
  intro fuel rest start hfuel hroom hrest
  have hprint : (ConditionTree.and left right).print 1 =
      left.print 1 ++ andToken :: right.print 2 := rfl
  rw [hprint, List.length_append, List.length_cons] at hfuel
  have hnodes : start.nodes.length + (left.size + right.size + 1) ≤ MAX_CONDITION_NODES :=
    hroom.nodes
  have hexprs : start.exprs.length + (left.operands + right.operands) ≤ MAX_EXPR_NODES :=
    hroom.operands
  have hleft := hl fuel (andToken :: (right.print 2 ++ rest)) start (by omega)
    ⟨by omega, by omega⟩ ⟨rfl, rfl⟩
  rw [hprint, List.append_assoc, List.cons_append]
  cases hplainLeft : left.Plain with
  | false =>
    refine ⟨fun hplain => ?_, fun _ => hleft.refused hplainLeft⟩
    exact absurd hplain (by simp [Plain, hplainLeft])
  | true =>
    obtain ⟨i, mid, ⟨more, hread, hmore⟩, hadded⟩ := hleft.reads hplainLeft
    obtain ⟨more, rfl⟩ : ∃ n, more = n + 1 := ⟨more - 1, by omega⟩
    have hright := hr more rest mid (by omega) (hadded.room (by omega) (by omega)) hrest
    rw [hread, andLoop_and]
    have hplainRight : (ConditionTree.and left right).Plain = right.Plain := by
      simp [Plain, hplainLeft]
    refine ⟨fun hplain => ?_, fun hplain => ?_⟩
    · obtain ⟨j, cond, hread', hadded'⟩ := hright.reads (hplainRight ▸ hplain)
      have hfew : cond.nodes.length < MAX_CONDITION_NODES := by
        rw [hadded'.nodeCount, hadded.nodeCount]
        omega
      refine ⟨_, _, ⟨more, ?_, ?_⟩, hadded.and hadded' hfew⟩
      · rw [hread']
        dsimp only
        rw [newCondition_fits hfew]
      · rw [List.length_append, List.length_cons]
        omega
    · obtain ⟨code, hcode⟩ := hright.refused (hplainRight ▸ hplain)
      exact ⟨code, by rw [hcode]⟩

/-- Two sides read as they should are read as an OR. -/
theorem Disjunction.or (hl : left.Disjunction subquery) (hr : right.Conjunction subquery) :
    (ConditionTree.or left right).Disjunction subquery := by
  intro fuel rest start hfuel hroom hrest hand
  have hprint : (ConditionTree.or left right).print 0 =
      left.print 0 ++ orToken :: right.print 1 := rfl
  rw [hprint, List.length_append, List.length_cons] at hfuel
  have hnodes : start.nodes.length + (left.size + right.size + 1) ≤ MAX_CONDITION_NODES :=
    hroom.nodes
  have hexprs : start.exprs.length + (left.operands + right.operands) ≤ MAX_EXPR_NODES :=
    hroom.operands
  have hleft := hl fuel (orToken :: (right.print 1 ++ rest)) start (by omega)
    ⟨by omega, by omega⟩ ⟨rfl, rfl⟩ (show orToken.type ≠ _ by decide)
  rw [hprint, List.append_assoc, List.cons_append]
  cases hplainLeft : left.Plain with
  | false =>
    refine ⟨fun hplain => ?_, fun _ => hleft.refused hplainLeft⟩
    exact absurd hplain (by simp [Plain, hplainLeft])
  | true =>
    obtain ⟨i, mid, ⟨more, hread, hmore⟩, hadded⟩ := hleft.reads hplainLeft
    obtain ⟨more, rfl⟩ : ∃ n, more = n + 1 := ⟨more - 1, by omega⟩
    have hright := hr more rest mid (by omega) (hadded.room (by omega) (by omega)) hrest
    rw [hread, orLoop_or]
    have hplainRight : (ConditionTree.or left right).Plain = right.Plain := by
      simp [Plain, hplainLeft]
    refine ⟨fun hplain => ?_, fun hplain => ?_⟩
    · obtain ⟨j, cond, ⟨last, hread', hlast⟩, hadded'⟩ := hright.reads (hplainRight ▸ hplain)
      rw [andLoop_stop (by omega) hand] at hread'
      have hfew : cond.nodes.length < MAX_CONDITION_NODES := by
        rw [hadded'.nodeCount, hadded.nodeCount]
        omega
      refine ⟨_, _, ⟨more, ?_, ?_⟩, hadded.or hadded' hfew⟩
      · rw [hread']
        dsimp only
        rw [newCondition_fits hfew]
      · rw [List.length_append, List.length_cons]
        omega
    · obtain ⟨code, hcode⟩ := hright.refused (hplainRight ▸ hplain)
      exact ⟨code, by rw [hcode]⟩

/-- Each level reads what is printed at it, or refuses it. -/
theorem outcome (tree : ConditionTree) :
    tree.Primary subquery ∧ tree.Negation subquery ∧ tree.Conjunction subquery ∧
      tree.Disjunction subquery := by
  have hleaf : ∀ {tree : ConditionTree}, tree.Primary subquery → tree.print 2 = tree.print 3 →
      tree.print 1 = tree.print 2 → tree.print 0 = tree.print 1 →
      tree.Primary subquery ∧ tree.Negation subquery ∧ tree.Conjunction subquery ∧
        tree.Disjunction subquery := fun h h2 h1 h0 =>
    ⟨h, h.negation h2, (h.negation h2).conjunction h1, ((h.negation h2).conjunction h1).disjunction h0⟩
  induction tree with
  | compare relation left right =>
    exact hleaf (comparison_primary rfl rfl (Nat.le_add_right _ _) fun rest start hroom hrest =>
      compare_print subquery relation left right hroom hrest) rfl rfl rfl
  | isNull negated left =>
    exact hleaf (comparison_primary rfl rfl (Nat.le_refl _) fun rest start hroom _ =>
      isNull_print subquery negated left hroom) rfl rfl rfl
  | like negated left pattern =>
    exact hleaf (comparison_primary rfl rfl (Nat.le_add_right _ _) fun rest start hroom _ =>
      like_print subquery negated left pattern hroom) rfl rfl rfl
  | not inner ih =>
    have hnot := ih.2.1.not
    have hand := hnot.conjunction rfl
    have hor := hand.disjunction rfl
    exact ⟨hor.primary rfl, hnot, hand, hor⟩
  | and left right ihl ihr =>
    have hand := ihl.2.2.1.and ihr.2.1
    have hor := hand.disjunction rfl
    have hprimary := hor.primary rfl
    exact ⟨hprimary, hprimary.negation rfl, hand, hor⟩
  | or left right ihl ihr =>
    have hor := ihl.2.2.2.or ihr.2.2.1
    have hprimary := hor.primary rfl
    have hnot := hprimary.negation rfl
    exact ⟨hprimary, hnot, hnot.conjunction rfl, hor⟩

end ConditionTree

/-- A condition behind its keyword is read to the end of the statement, or refused. -/
theorem parseWhere_print (tree : ConditionTree) {pool : List PooledSelect}
    (hroom : tree.Room (emptyRead pool)) :
    (tree.Plain = true → ∃ i cond, tree.Added (emptyRead pool) cond i ∧
      parseOrExpression subquery false (tree.print 0) (emptyRead pool) = .ok (i, [], cond)) ∧
    (tree.Plain = false →
      ∃ code, parseOrExpression subquery false (tree.print 0) (emptyRead pool) = .error code) := by
  have houtcome := (@ConditionTree.outcome subquery tree).2.2.2 (parseFuel (tree.print 0)) []
    (emptyRead pool) (by unfold parseFuel; omega) hroom ⟨rfl, rfl⟩ (by decide)
  rw [List.append_nil] at houtcome
  refine ⟨fun hplain => ?_, houtcome.refused⟩
  obtain ⟨i, cond, ⟨left, hread, hleft⟩, hadded⟩ := houtcome.reads hplain
  refine ⟨i, cond, hadded, ?_⟩
  have hpos : 0 < left := by
    unfold parseFuel at hleft
    omega
  rw [ConditionTree.orLoop_stop hpos (by decide)] at hread
  exact hread

end

/-! ### Statements -/

/-- A step that succeeds hands on what it answers. -/
theorem ok_bind {α β : Type} (a : α) (f : α → Except ErrorCode β) :
    (Except.ok a >>= f) = f a := rfl

/-- The first condition of a WHERE is joined to nothing. -/
theorem addCondition_first {subquery : SubqueryRead} {tokens rest : List Token} {i : Int32}
    {pool : List PooledSelect} {cond : ConditionRead}
    (h : parseOrExpression subquery false tokens (emptyRead pool) = .ok (i, rest, cond)) :
    addCondition subquery tokens (-1) (emptyRead pool) = .ok (i, rest, cond) := by
  unfold addCondition
  rw [h]
  rfl

/-- The one table of a FROM, in front of a WHERE. -/
theorem parseFrom_one (subquery : SubqueryRead) (table : ColumnWord) (tokens : List Token)
    (cond : ConditionRead) (fuel : Nat) :
    ∃ entry, parseFrom subquery (fuel + 1) none
        (table.token :: wordToken (ascii "where") :: tokens)
        { tables := [], onRoots := [], whereRoot := -1, cond := cond } =
      .ok ({ tables := [entry], onRoots := [-1], whereRoot := -1, cond := cond },
        wordToken (ascii "where") :: tokens) := by
  have hwhere : (wordToken (ascii "where")).type = .TOKEN_KEYWORD_WHERE := by decide
  have hentry : parseFromTable false (table.token :: wordToken (ascii "where") :: tokens) =
      .ok ({ table := Name.ofBytes table.word, aliasName := Name.ofBytes table.word, outer := false },
        wordToken (ascii "where") :: tokens) := by
    unfold parseFromTable parseName
    rw [typeAt_cons, if_pos (show table.token.type = .TOKEN_IDENTIFIER from rfl)]
    simp only [List.drop_succ_cons, List.drop_zero, typeAt_cons, hwhere]
    rfl
  refine ⟨{ table := Name.ofBytes table.word, aliasName := Name.ofBytes table.word, outer := false },
    ?_⟩
  rw [parseFrom, typeAt_cons, if_neg (not_not.mpr (show table.token.type = .TOKEN_IDENTIFIER from rfl)),
    if_neg (show ¬([] : List FromTable).length = MAX_JOIN_TABLES by decide)]
  simp only [Option.getD_none, hentry, Option.isSome_none, Bool.false_eq_true, if_false, typeAt_cons,
    hwhere, joinWords]
  rfl

/-- A SELECT behind its WHERE. -/
theorem parseSelectWith_where (subquery : SubqueryRead) (table : ColumnWord)
    (tokens : List Token) :
    (∀ code, addCondition subquery tokens (-1) (emptyRead []) = .error code →
      parseSelectWith subquery (Filtered.opening table .select ++ tokens) [] = .error code) ∧
    ∀ i cond, addCondition subquery tokens (-1) (emptyRead []) = .ok (i, [], cond) →
      ∃ select pool, parseSelectWith subquery (Filtered.opening table .select ++ tokens) [] =
          .ok (select, pool) ∧
        select.wher = { cond.condition i with present := decide (0 ≤ i) } := by
  have hfrom : (wordToken (ascii "from")).type = .TOKEN_KEYWORD_FROM := by decide
  have hwhere : (wordToken (ascii "where")).type = .TOKEN_KEYWORD_WHERE := by decide
  obtain ⟨fuel, hfuel⟩ : ∃ fuel, parseFuel (wordToken (ascii "from") :: table.token ::
      wordToken (ascii "where") :: tokens) = fuel + 1 := ⟨_, rfl⟩
  obtain ⟨entry, hread⟩ := parseFrom_one subquery table tokens (emptyRead []) fuel
  have hlist : parseSelectList (⟨.TOKEN_STAR, [42]⟩ :: wordToken (ascii "from") :: table.token ::
      wordToken (ascii "where") :: tokens) = .ok (true, [], wordToken (ascii "from") ::
        table.token :: wordToken (ascii "where") :: tokens, []) := rfl
  have hopening : Filtered.opening table .select ++ tokens = wordToken (ascii "select") ::
      ⟨.TOKEN_STAR, [42]⟩ :: wordToken (ascii "from") :: table.token ::
        wordToken (ascii "where") :: tokens := rfl
  have hselect : ∀ list : FromRead, parseSelectWhere subquery (wordToken (ascii "where") :: tokens)
      list = (addCondition subquery tokens list.whereRoot list.cond).map fun read =>
        ({ list with whereRoot := read.1, cond := read.2.2 }, read.2.1) := by
    intro list
    unfold parseSelectWhere
    rw [typeAt_cons, if_neg (not_not.mpr hwhere)]
    rfl
  rw [hopening]
  unfold parseSelectWith
  have hdistinct : (TokenType.TOKEN_STAR == TokenType.TOKEN_KEYWORD_DISTINCT) = false := rfl
  simp only [List.drop_succ_cons, List.drop_zero, typeAt_cons, hdistinct, Bool.false_eq_true,
    if_false, hlist]
  constructor
  · intro code hcode
    simp only [ok_bind, typeAt_cons, hfrom, ne_eq, not_true_eq_false, if_false, hfuel,
      List.drop_succ_cons, List.drop_zero, hread, hselect, hcode]
    rfl
  · intro i cond hok
    refine ⟨?_, ?_, ?_, ?_⟩
    rotate_left 2
    · simp only [ok_bind, typeAt_cons, hfrom, ne_eq, not_true_eq_false, if_false, hfuel,
        List.drop_succ_cons, List.drop_zero, hread, hselect, hok]
      rfl
    · rfl

/-- A DELETE behind its WHERE. -/
theorem parseDelete_where (table : ColumnWord) (tokens : List Token) :
    (∀ code, parseOrExpression parseSubquery false tokens (emptyRead []) = .error code →
      parseDelete (Filtered.opening table .delete ++ tokens) [] = .error code) ∧
    ∀ i cond, parseOrExpression parseSubquery false tokens (emptyRead []) = .ok (i, [], cond) →
      ∃ del pool, parseDelete (Filtered.opening table .delete ++ tokens) [] = .ok (del, pool) ∧
        del.wher = cond.condition i := by
  have hfrom : (wordToken (ascii "from")).type = .TOKEN_KEYWORD_FROM := by decide
  have hwhere : (wordToken (ascii "where")).type = .TOKEN_KEYWORD_WHERE := by decide
  have hopening : Filtered.opening table .delete ++ tokens = wordToken (ascii "delete") ::
      wordToken (ascii "from") :: table.token :: wordToken (ascii "where") :: tokens := rfl
  have hexpect : expect .TOKEN_KEYWORD_FROM .SYNTAX_EXPECTED_FROM (wordToken (ascii "from") ::
      table.token :: wordToken (ascii "where") :: tokens) =
      .ok (table.token :: wordToken (ascii "where") :: tokens) := by
    unfold expect
    rw [typeAt_cons, if_pos hfrom]
    rfl
  have hname : parseName .SYNTAX_EXPECTED_TABLE_NAME (table.token :: wordToken (ascii "where") ::
      tokens) = .ok (Name.ofBytes table.word, wordToken (ascii "where") :: tokens) := rfl
  have hcondition : parseOptionalWhere parseSubquery (wordToken (ascii "where") :: tokens) [] =
      (parseOrExpression parseSubquery false tokens (emptyRead [])).map
        fun read => (read.2.2.condition read.1, read.2.1, read.2.2.pool) := by
    unfold parseOptionalWhere
    rw [typeAt_cons, if_pos hwhere]
    rfl
  rw [hopening]
  unfold parseDelete
  simp only [List.drop_succ_cons, List.drop_zero, hexpect]
  constructor
  · intro code hcode
    simp only [ok_bind, hname, hcondition, hcode]
    rfl
  · intro i cond hok
    refine ⟨?_, ?_, ?_, ?_⟩
    rotate_left 2
    · simp only [ok_bind, hname, hcondition, hok]
      rfl
    · rfl

/-! ### Texts -/

/-- A blank ends every token. -/
theorem stops_blank (type : TokenType) : stops type (some 32) = true := by
  cases type <;> rfl

/-- Tokens that are spelled as they are printed come back. -/
theorem lexFrom_written {tokens : List Token} (h : ∀ t ∈ tokens, Spells t.spelling t)
    (before : List Token) (hfits : before.length + tokens.length ≤ MAX_TOKENS) :
    lexFrom (written tokens) before = .ok (before ++ tokens) := by
  induction tokens generalizing before with
  | nil =>
    rw [List.append_nil]
    rfl
  | cons t tokens ih =>
    rw [List.length_cons] at hfits
    have hwritten : written (t :: tokens) = t.spelling ++ 32 :: written tokens := by
      simp [written]
    have hone : lexOne (t.spelling ++ 32 :: written tokens) = .token t (32 :: written tokens) :=
      (h t List.mem_cons_self).lexOne (stops_blank t.type)
    have hblank : lexOne (32 :: written tokens) = .skip (written tokens) := by
      rw [lexOne, if_pos (by decide)]
    rw [hwritten, lexFrom_eq, hone]
    dsimp only
    rw [if_neg (by omega), lexFrom_eq, hblank]
    dsimp only
    rw [ih (fun u hu => h u (List.mem_cons_of_mem _ hu)) _
      (by rw [List.length_append, List.length_singleton]; omega), List.append_assoc]
    rfl

/-- A text in quotes is read to its end. -/
theorem readString_quotes {text : List UInt8} {n : Nat} (h : n + text.length < VALUE_LEN) :
    readString n (text.flatMap (fun c => if c = 39 then [39, 39] else [c]) ++ [39]) =
      .ok (text, []) := by
  induction text generalizing n with
  | nil => exact readString_close n (by simp)
  | cons c text ih =>
    rw [List.length_cons] at h
    have hrest := ih (n := n + 1) (by omega)
    rw [List.flatMap_cons, List.append_assoc]
    by_cases hc : c = 39
    · subst hc
      rw [if_pos rfl]
      show readString n (39 :: 39 :: (text.flatMap _ ++ [39])) = _
      rw [readString, if_neg (by omega), hrest]
      rfl
    · rw [if_neg hc, List.singleton_append, readString_byte n _ hc, if_neg (by omega), hrest]
      rfl

/-- A quoted text is lexed back from its spelling. -/
theorem LiteralText.spells (literal : LiteralText) :
    Spells literal.token.spelling literal.token := by
  obtain ⟨w, hw, -, hquoted⟩ :=
    readString_quoted 0 _ (readString_quotes (n := 0) (by simpa using literal.short))
  rw [List.append_nil] at hw
  show Spells (quoted literal.text) _
  unfold quoted
  rw [hw]
  exact .text hquoted

/-- A short word is lexed back from its spelling. -/
theorem spells_word {c : UInt8} {w : List UInt8} (hc : (isalpha c || c == 95) = true)
    (hw : takeWord (c :: w) = (c :: w, [])) (hlen : (c :: w).length < VALUE_LEN) :
    Spells (wordToken (c :: w)).spelling (wordToken (c :: w)) := by
  have htype := classifyWord_isWordType (c :: w)
  unfold Token.spelling
  rw [if_neg]
  · exact .word hc hw hlen
  · intro hstring
    have hstring : classifyWord (c :: w) = .TOKEN_STRING := hstring
    rw [hstring] at htype
    exact absurd htype (by decide)

/-- A column's name is lexed back from its spelling. -/
theorem ColumnWord.spells (name : ColumnWord) : Spells name.token.spelling name.token := by
  obtain ⟨word, hstarts, hreads, hplain, hshort⟩ := name
  have hlen : NAME_LEN ≤ VALUE_LEN := by decide
  cases word with
  | nil => exact absurd hstarts (by decide)
  | cons c w =>
    have hspells := spells_word (by simpa [headIs] using hstarts) hreads (by omega)
    unfold wordToken at hspells
    rw [hplain] at hspells
    exact hspells

/-- A numeral is lexed back from its spelling. -/
theorem Numeral.spells (numeral : Numeral) : Spells numeral.token.spelling numeral.token := by
  obtain ⟨digits, hstarts, hreads, hshort, value, hworth⟩ := numeral
  cases digits with
  | nil => exact absurd hstarts (by decide)
  | cons c w => exact .number (by simpa [headIs] using hstarts) hreads hshort

/-- A word of the language, and a mark of it. -/
theorem words_spell : ∀ t ∈ [isToken, notToken, nullToken, likeToken, andToken, orToken,
    wordToken (ascii "select"), wordToken (ascii "from"), wordToken (ascii "where"),
    wordToken (ascii "delete")], Spells t.spelling t := by
  simp only [List.mem_cons, List.not_mem_nil, or_false]
  rintro t (rfl | rfl | rfl | rfl | rfl | rfl | rfl | rfl | rfl | rfl)
  all_goals exact spells_word (by decide) (by decide) (by decide)

/-- A comparison's sign is lexed back from its spelling. -/
theorem Relation.spells (relation : Relation) : Spells relation.token.spelling relation.token := by
  cases relation <;> exact .operator (by decide)

/-- An operator is lexed back from its spelling. -/
theorem ArithOp.spells (op : ArithOp) : Spells op.token.spelling op.token := by
  cases op <;> exact .symbol rfl

/-- Brackets around tokens are lexed back with them. -/
theorem bracketed_spells {tokens : List Token} (h : ∀ t ∈ tokens, Spells t.spelling t)
    (needed : Bool) : ∀ t ∈ bracketed needed tokens, Spells t.spelling t := by
  intro t ht
  unfold bracketed at ht
  split at ht
  · simp only [List.mem_cons, List.mem_append, List.not_mem_nil, or_false] at ht
    rcases ht with rfl | ht | rfl
    · exact .symbol rfl
    · exact h t ht
    · exact .symbol rfl
  · exact h t ht

/-- What stands on both sides of a token, and the token. -/
theorem spells_around {front back : List Token} {token : Token}
    (hfront : ∀ t ∈ front, Spells t.spelling t) (htoken : Spells token.spelling token)
    (hback : ∀ t ∈ back, Spells t.spelling t) :
    ∀ t ∈ front ++ token :: back, Spells t.spelling t := by
  intro t ht
  rcases List.mem_append.mp ht with ht | ht
  · exact hfront t ht
  · rcases List.mem_cons.mp ht with rfl | ht
    · exact htoken
    · exact hback t ht

/-- Every token of a printed expression is lexed back. -/
theorem ExprTree.print_spells (tree : ExprTree) (level : Nat) :
    ∀ t ∈ tree.print level, Spells t.spelling t := by
  induction tree generalizing level with
  | column name => simpa [ExprTree.print] using name.spells
  | number numeral => simpa [ExprTree.print] using numeral.spells
  | text literal => simpa [ExprTree.print] using literal.spells
  | negate inner ih => exact @spells_around [] _ _ (by simp) (.symbol rfl) (ih 2)
  | binary op left right ihl ihr =>
    exact bracketed_spells (spells_around (ihl _) op.spells (ihr _)) _

/-- A NOT before tokens is lexed back with them. -/
theorem negation_spells (negated : Bool) {back : List Token}
    (hback : ∀ t ∈ back, Spells t.spelling t) :
    ∀ t ∈ negation negated ++ back, Spells t.spelling t := by
  cases negated with
  | false => exact hback
  | true => exact @spells_around [] _ _ (by simp) (words_spell notToken (by simp)) hback

/-- Every token of a printed condition is lexed back. -/
theorem ConditionTree.print_spells (tree : ConditionTree) (level : Nat) :
    ∀ t ∈ tree.print level, Spells t.spelling t := by
  have hword := words_spell
  simp only [List.mem_cons, List.not_mem_nil, or_false, forall_eq_or_imp, forall_eq] at hword
  obtain ⟨his, hnot, hnull, hlike, hand, hor, -⟩ := hword
  induction tree generalizing level with
  | compare relation left right =>
    exact spells_around (left.print_spells 0) relation.spells (right.print_spells 0)
  | isNull negated left =>
    exact spells_around (left.print_spells 0) his (negation_spells negated (by simpa using hnull))
  | like negated left pattern =>
    intro t ht
    rcases List.mem_append.mp ht with ht | ht
    · exact left.print_spells 0 t ht
    · exact negation_spells negated (by simpa using ⟨hlike, pattern.spells⟩) t ht
  | not inner ih =>
    exact bracketed_spells (@spells_around [] _ _ (by simp) hnot (ih 2)) _
  | and left right ihl ihr => exact bracketed_spells (spells_around (ihl 1) hand (ihr 2)) _
  | or left right ihl ihr => exact bracketed_spells (spells_around (ihl 0) hor (ihr 1)) _

/-- The tokens of a statement come back from its text. -/
theorem tokenize_written (statement : Filtered) (table : ColumnWord) (tree : ConditionTree)
    (hfits : (statement.tokens table tree).length ≤ MAX_TOKENS) :
    tokenizeStatement (written (statement.tokens table tree)) =
      .ok (statement.tokens table tree) := by
  have hword := words_spell
  simp only [List.mem_cons, List.not_mem_nil, or_false, forall_eq_or_imp, forall_eq] at hword
  obtain ⟨-, -, -, -, -, -, hselect, hfrom, hwhere, hdelete⟩ := hword
  have hspells : ∀ t ∈ statement.tokens table tree, Spells t.spelling t := by
    intro t ht
    rcases List.mem_append.mp ht with ht | ht
    · cases statement with
      | select =>
        simp only [Filtered.opening, List.mem_cons, List.not_mem_nil, or_false] at ht
        rcases ht with rfl | rfl | rfl | rfl | rfl
        exacts [hselect, .symbol rfl, hfrom, table.spells, hwhere]
      | delete =>
        simp only [Filtered.opening, List.mem_cons, List.not_mem_nil, or_false] at ht
        rcases ht with rfl | rfl | rfl | rfl
        exacts [hdelete, hfrom, table.spells, hwhere]
    · exact tree.print_spells 0 t ht
  rw [tokenizeStatement_eq, lexFrom_written hspells [] (by simpa using hfits), List.nil_append]

/-! ### There and back -/

/-- The text of the statement is accepted, and its condition is the tree. -/
def Filtered.ComesBack (statement : Filtered) (table : ColumnWord) (tree : ConditionTree) : Prop :=
  ∃ tokens parsed cond,
    tokenizeStatement (written (statement.tokens table tree)) = .ok tokens ∧
      parseStatement tokens = .ok parsed ∧ statement.condition parsed = some cond ∧
      cond.present = true ∧ tree.At cond.nodes cond.exprs cond.root

/-- A tree stands at an index from 0 on. -/
theorem ConditionTree.At.not_neg {nodes : List ConditionNode} {exprs : ExprPool} {i : Int32}
    {tree : ConditionTree} (h : tree.At nodes exprs i) : ¬i < 0 := by
  intro hneg
  obtain ⟨node, hnode⟩ : ∃ node, nodeAt nodes i = some node := by
    cases h <;> exact ⟨_, by assumption⟩
  rw [nodeAt, if_pos hneg] at hnode
  exact absurd hnode (by simp)

/-- What the parser makes of the statement. -/
theorem parseStatement_print (statement : Filtered) (table : ColumnWord) (tree : ConditionTree)
    (hfits : tree.Fits (statement.tokens table tree)) :
    (tree.Plain = true → ∃ parsed cond, parseStatement (statement.tokens table tree) = .ok parsed ∧
      statement.condition parsed = some cond ∧ cond.present = true ∧
        tree.At cond.nodes cond.exprs cond.root) ∧
    (tree.Plain = false → ∃ code, parseStatement (statement.tokens table tree) = .error code) := by
  have hroom : tree.Room (emptyRead []) :=
    ⟨by simpa [emptyRead] using hfits.nodes, by simpa [emptyRead] using hfits.operands⟩
  cases statement with
  | select =>
    obtain ⟨hread, hrefused⟩ := parseWhere_print
      (parseSubqueryWith (parseSelectFrom MAX_SUBQUERIES)) tree hroom
    obtain ⟨herror, hok⟩ := parseSelectWith_where
      (parseSubqueryWith (parseSelectFrom MAX_SUBQUERIES)) table (tree.print 0)
    have hstatement : parseStatement (Filtered.select.tokens table tree) =
        (parseSelectWith (parseSubqueryWith (parseSelectFrom MAX_SUBQUERIES))
          (Filtered.opening table .select ++ tree.print 0) []).map fun read =>
            { kind := .STMT_SELECT read.1, pool := read.2 } := by
      have hselect : typeAt (Filtered.select.tokens table tree) 0 = .TOKEN_KEYWORD_SELECT := by
        show (wordToken (ascii "select")).type = _
        decide
      unfold parseStatement
      rw [if_pos hselect]
      rfl
    rw [hstatement]
    refine ⟨fun hplain => ?_, fun hplain => ?_⟩
    · obtain ⟨i, cond, hadded, hparse⟩ := hread hplain
      obtain ⟨select, pool, hselect, hwher⟩ := hok i cond (addCondition_first hparse)
      refine ⟨_, select.wher, by rw [hselect]; rfl, rfl, ?_, ?_⟩
      · rw [hwher]
        have hpos := hadded.at_.not_neg
        rw [Int32.not_lt] at hpos
        exact decide_eq_true hpos
      · rw [hwher]
        exact hadded.at_
    · obtain ⟨code, hcode⟩ := hrefused hplain
      refine ⟨code, ?_⟩
      rw [herror code (by unfold addCondition; rw [hcode])]
      rfl
  | delete =>
    obtain ⟨hread, hrefused⟩ := parseWhere_print parseSubquery tree hroom
    obtain ⟨herror, hok⟩ := parseDelete_where table (tree.print 0)
    have hstatement : parseStatement (Filtered.delete.tokens table tree) =
        ((parseDelete (Filtered.opening table .delete ++ tree.print 0) []).map
          fun read => (StatementKind.STMT_DELETE read.1, read.2)).map fun read =>
            { kind := .plain read.1, pool := read.2 } := by
      have hdelete : typeAt (Filtered.delete.tokens table tree) 0 = .TOKEN_KEYWORD_DELETE := by
        show (wordToken (ascii "delete")).type = _
        decide
      unfold parseStatement parsePlain
      rw [if_neg (by rw [hdelete]; decide), hdelete]
      rfl
    rw [hstatement]
    refine ⟨fun hplain => ?_, fun hplain => ?_⟩
    · obtain ⟨i, cond, hadded, hparse⟩ := hread hplain
      obtain ⟨del, pool, hdelete, hwher⟩ := hok i cond hparse
      refine ⟨_, del.wher, by rw [hdelete]; rfl, rfl, ?_, ?_⟩
      · rw [hwher]
        rfl
      · rw [hwher]
        exact hadded.at_
    · obtain ⟨code, hcode⟩ := hrefused hplain
      exact ⟨code, by rw [herror code hcode]; rfl⟩

/-- A WHERE comes back from the text of its statement exactly where no comparison of it starts
with a bracket. -/
theorem where_comes_back_iff (statement : Filtered) (table : ColumnWord) (tree : ConditionTree)
    (hfits : tree.Fits (statement.tokens table tree)) :
    statement.ComesBack table tree ↔ tree.Plain = true := by
  obtain ⟨hread, hrefused⟩ := parseStatement_print statement table tree hfits
  have htokens := tokenize_written statement table tree hfits.tokens
  constructor
  · rintro ⟨tokens, parsed, cond, htokenize, hparse, -⟩
    obtain rfl : statement.tokens table tree = tokens := Except.ok.inj (htokens.symm.trans htokenize)
    cases hplain : tree.Plain with
    | true => rfl
    | false =>
      obtain ⟨code, hcode⟩ := hrefused hplain
      exact absurd (hcode.symm.trans hparse) nofun
  · intro hplain
    obtain ⟨parsed, cond, hparse, hcond, hpresent, hat⟩ := hread hplain
    exact ⟨_, parsed, cond, htokens, hparse, hcond, hpresent, hat⟩

/-! ### A sum in brackets -/

/-- `a`. -/
def wordA : ColumnWord :=
  { word := [97], starts := by decide, reads := by decide, plain := by decide, short := by decide }

/-- `2`. -/
def numeralTwo : Numeral :=
  { digits := [50], starts := by decide, reads := by decide, short := by decide
    value := { zeroValue with intValue := 2 }, worth := by decide }

/-- `2 * (a + a) > 2 or not a is null`. -/
def sumBehind : ConditionTree :=
  .or (.compare .gt (.binary .ARITH_MUL (.number numeralTwo)
      (.binary .ARITH_ADD (.column wordA) (.column wordA))) (.number numeralTwo))
    (.not (.isNull false (.column wordA)))

/-- The sum behind the comparison comes back. -/
theorem where_comes_back_behind : Filtered.select.ComesBack wordA sumBehind :=
  (where_comes_back_iff .select wordA sumBehind
    ⟨by decide +kernel, by decide +kernel, by decide +kernel⟩).mpr (by decide)

/-- `(a + a) * 2 > 2`. -/
def sumInFront : ConditionTree :=
  .compare .gt (.binary .ARITH_MUL (.binary .ARITH_ADD (.column wordA) (.column wordA))
    (.number numeralTwo)) (.number numeralTwo)

/-- `select * from a where ( a + a ) * 2 > 2` fits every pool, and is refused. -/
theorem sum_in_front_refused :
    written (Filtered.select.tokens wordA sumInFront) =
        ascii "select * from a where ( a + a ) * 2 > 2 " ∧
      sumInFront.Fits (Filtered.select.tokens wordA sumInFront) ∧
      ((tokenizeStatement (written (Filtered.select.tokens wordA sumInFront))).bind
        fun tokens => (parseStatement tokens).map fun _ => ()) =
          .error .SYNTAX_EXPECTED_OPERATOR ∧
      ¬Filtered.select.ComesBack wordA sumInFront := by
  have hrefused : ((tokenizeStatement (written (Filtered.select.tokens wordA sumInFront))).bind
      fun tokens => (parseStatement tokens).map fun _ => ()) =
        .error .SYNTAX_EXPECTED_OPERATOR := by
    decide +kernel
  refine ⟨by decide +kernel, ⟨by decide +kernel, by decide +kernel, by decide +kernel⟩, hrefused, ?_⟩
  rintro ⟨tokens, parsed, cond, htokenize, hparse, -⟩
  rw [htokenize] at hrefused
  simp only [Except.bind, hparse] at hrefused
  exact absurd hrefused nofun

end DatabaseEngine
