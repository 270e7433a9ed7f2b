import DatabaseEngine.Proofs.Parser.Trees
import DatabaseEngine.Spec.Printing

/-!
# `DatabaseEngine.Proofs.Parser.Expressions`: an expression that is printed is read back

One reader for each level: `ExprTree.Factor`, `.Term` and `.Sum` say what `parseFactorFrom`,
`parseTermFrom` and `parseExpressionFrom` make of an expression that is printed at the level. A
term and a sum end in the loop that goes on behind them, so that the left operand of a chain is
read by the same statement as the whole.

* `ExprTree.reads`: all three, for every expression.
* `parseExpression_print`: a sum, in front of what is no operator of an expression.
-/

set_option autoImplicit false

namespace DatabaseEngine

/-! ### Pools -/

/-- The node that was added last is found at its index. -/
theorem node_append {pool : ExprPool} {node : ExprNode} (hfew : pool.length < MAX_EXPR_NODES)
    (more : ExprPool) :
    ExprPool.node (pool ++ [node] ++ more) (Int32.ofNat pool.length) = some node := by
  have hmax : MAX_EXPR_NODES < 2147483648 := by decide
  obtain ⟨hnat, hpos⟩ := toNat_ofNat (n := pool.length) (by omega)
  have hneg : ¬Int32.ofNat pool.length < 0 :=
    (Below.not_neg (n := pool.length + 1) ⟨hpos, by omega⟩)
  unfold ExprPool.node
  rw [if_neg hneg, hnat, List.append_assoc, List.getElem?_append_right (Nat.le_refl _)]
  simp

/-- A node stays where it is when others are added. -/
theorem ExprPool.node_front {pool pool' : ExprPool} (h : pool <+: pool') {i : Int32}
    {node : ExprNode} (hnode : pool.node i = some node) : pool'.node i = some node := by
  unfold ExprPool.node at hnode ⊢
  split at hnode
  · exact absurd hnode (by simp)
  · obtain ⟨hlt, -⟩ := List.getElem?_eq_some_iff.mp hnode
    rw [if_neg (by assumption), getElem?_of_front h hlt]
    exact hnode

/-- A tree stays where it is when nodes are added. -/
theorem ExprTree.At.mono {pool pool' : ExprPool} (h : pool <+: pool') {i : Int32} {tree : ExprTree}
    (hat : tree.At pool i) : tree.At pool' i := by
  induction hat with
  | column hnode => exact .column (ExprPool.node_front h hnode)
  | number hnode => exact .number (ExprPool.node_front h hnode)
  | text hnode => exact .text (ExprPool.node_front h hnode)
  | negate hnode _ ih => exact .negate (ExprPool.node_front h hnode) ih
  | binary hnode _ _ ihl ihr => exact .binary (ExprPool.node_front h hnode) ihl ihr

/-- A pool with a tree behind what it held before. -/
structure ExprTree.Added (tree : ExprTree) (pool pool' : ExprPool) (i : Int32) : Prop where
  front : pool <+: pool'
  length : pool'.length = pool.length + tree.size
  at_ : tree.At pool' i

/-- A new node stands behind the others while there is room. -/
theorem exprNew_ok {node : ExprNode} {pool : ExprPool} (h : pool.length < MAX_EXPR_NODES) :
    exprNew node pool = .ok (Int32.ofNat pool.length, pool ++ [node]) := by
  unfold exprNew
  rw [if_neg (by omega)]

/-- A leaf is one node. -/
theorem ExprTree.Added.leaf {tree : ExprTree} {pool : ExprPool} {node : ExprNode}
    (hfew : pool.length < MAX_EXPR_NODES) (hsize : tree.size = 1)
    (hat : ∀ pool' i, ExprPool.node pool' i = some node → tree.At pool' i) :
    tree.Added pool (pool ++ [node]) (Int32.ofNat pool.length) := by
  refine ⟨List.prefix_append _ _, by simp [hsize], hat _ _ ?_⟩
  simpa using node_append hfew []

/-- A minus sign adds a node over its operand. -/
theorem ExprTree.Added.negate {tree : ExprTree} {pool pool' : ExprPool} {i : Int32}
    (h : tree.Added pool pool' i) (hfew : pool'.length < MAX_EXPR_NODES) :
    (ExprTree.negate tree).Added pool (pool' ++ [negateNode i]) (Int32.ofNat pool'.length) := by
  refine ⟨h.front.trans (List.prefix_append _ _), ?_, .negate ?_ (h.at_.mono (List.prefix_append _ _))⟩
  · rw [List.length_append, h.length]
    rfl
  · simpa using node_append hfew []

/-- An operator adds a node over its two operands. -/
theorem ExprTree.Added.binary {left right : ExprTree} {pool pool' pool'' : ExprPool} {i j : Int32}
    {op : ArithOp} (h : left.Added pool pool' i) (h' : right.Added pool' pool'' j)
    (hfew : pool''.length < MAX_EXPR_NODES) :
    (ExprTree.binary op left right).Added pool (pool'' ++ [binaryNode op i j])
      (Int32.ofNat pool''.length) := by
  have hback : pool'' <+: pool'' ++ [binaryNode op i j] := List.prefix_append _ _
  refine ⟨(h.front.trans h'.front).trans hback, ?_,
    .binary ?_ (h.at_.mono (h'.front.trans hback)) (h'.at_.mono hback)⟩
  · rw [List.length_append, h'.length, h.length]
    simp only [ExprTree.size, List.length_singleton]
    omega
  · simpa using node_append hfew []

/-! ### What is printed -/

/-- The types that an expression starts with. -/
def startsExpression (type : TokenType) : Bool :=
  match type with
  | .TOKEN_IDENTIFIER | .TOKEN_NUMBER | .TOKEN_STRING | .TOKEN_MINUS | .TOKEN_LPAREN => true
  | _ => false

/-- The first type is the first token's. -/
theorem typeAt_cons (token : Token) (tokens : List Token) : typeAt (token :: tokens) 0 = token.type :=
  rfl

/-- The later types are the later tokens'. -/
theorem typeAt_succ (token : Token) (tokens : List Token) (i : Nat) :
    typeAt (token :: tokens) (i + 1) = typeAt tokens i := rfl

/-- A printed expression starts as expressions do. -/
theorem ExprTree.print_starts (tree : ExprTree) (level : Nat) (rest : List Token) :
    startsExpression (typeAt (tree.print level ++ rest) 0) = true := by
  induction tree generalizing level rest with
  | column name => rfl
  | number numeral => rfl
  | text literal => rfl
  | negate inner _ => rfl
  | binary op left right ihl _ =>
    unfold ExprTree.print bracketed
    split
    · rfl
    · rw [List.append_assoc]
      exact ihl _ _

/-- What starts with a bracket does not go on with a word. -/
theorem ExprTree.print_second (tree : ExprTree) (level : Nat) (rest : List Token)
    (h : typeAt (tree.print level ++ rest) 0 = .TOKEN_LPAREN) :
    startsExpression (typeAt (tree.print level ++ rest) 1) = true := by
  induction tree generalizing level rest with
  | column name => exact nomatch (h : TokenType.TOKEN_IDENTIFIER = .TOKEN_LPAREN)
  | number numeral => exact nomatch (h : TokenType.TOKEN_NUMBER = .TOKEN_LPAREN)
  | text literal => exact nomatch (h : TokenType.TOKEN_STRING = .TOKEN_LPAREN)
  | negate inner _ => exact nomatch (h : TokenType.TOKEN_MINUS = .TOKEN_LPAREN)
  | binary op left right ihl _ =>
    unfold ExprTree.print bracketed at h ⊢
    split
    · rw [List.cons_append, typeAt_succ, List.append_assoc, List.append_assoc]
      exact left.print_starts _ _
    · rename_i hlevel
      rw [if_neg hlevel, List.append_assoc] at h
      rw [List.append_assoc]
      exact ihl _ _ h

/-- It starts with a bracket exactly if its tree opens with one. -/
theorem ExprTree.print_opens (tree : ExprTree) (level : Nat) (rest : List Token) :
    typeAt (tree.print level ++ rest) 0 = .TOKEN_LPAREN ↔ tree.opens level = true := by
  induction tree generalizing level rest with
  | column name =>
    refine ⟨fun h => ?_, fun h => absurd h (by simp [ExprTree.opens])⟩
    exact nomatch (h : TokenType.TOKEN_IDENTIFIER = .TOKEN_LPAREN)
  | number numeral =>
    refine ⟨fun h => ?_, fun h => absurd h (by simp [ExprTree.opens])⟩
    exact nomatch (h : TokenType.TOKEN_NUMBER = .TOKEN_LPAREN)
  | text literal =>
    refine ⟨fun h => ?_, fun h => absurd h (by simp [ExprTree.opens])⟩
    exact nomatch (h : TokenType.TOKEN_STRING = .TOKEN_LPAREN)
  | negate inner _ =>
    refine ⟨fun h => ?_, fun h => absurd h (by simp [ExprTree.opens])⟩
    exact nomatch (h : TokenType.TOKEN_MINUS = .TOKEN_LPAREN)
  | binary op left right ihl _ =>
    unfold ExprTree.print bracketed ExprTree.opens
    split
    · rename_i hlevel
      exact ⟨fun _ => by simp [hlevel], fun _ => rfl⟩
    · rename_i hlevel
      rw [List.append_assoc, ihl]
      simp [hlevel]

/-- It has at least one token. -/
theorem ExprTree.print_length_pos (tree : ExprTree) (level : Nat) :
    0 < (tree.print level).length := by
  cases tree with
  | binary op left right =>
    unfold ExprTree.print bracketed
    split <;> simp
  | _ => simp [ExprTree.print]

/-! ### The readers -/

/-- What `parseFactorFrom` makes of the expression. -/
def ExprTree.Factor (tree : ExprTree) : Prop :=
  ∀ (fuel : Nat) (rest : List Token) (pool : ExprPool), 4 * (tree.print 2).length ≤ fuel →
    pool.length + tree.size ≤ MAX_EXPR_NODES →
    ∃ i pool', parseFactorFrom fuel (tree.print 2 ++ rest) pool = .ok (i, rest, pool') ∧
      tree.Added pool pool' i

/-- What `parseTermFrom` makes of it: it goes on behind it in its loop, with fuel left. -/
def ExprTree.Term (tree : ExprTree) : Prop :=
  ∀ (fuel : Nat) (rest : List Token) (pool : ExprPool), 4 * (tree.print 1).length + 1 ≤ fuel →
    pool.length + tree.size ≤ MAX_EXPR_NODES →
    ∃ left i pool', parseTermFrom fuel (tree.print 1 ++ rest) pool = termLoop left i rest pool' ∧
      fuel ≤ left + 4 * (tree.print 1).length ∧ tree.Added pool pool' i

/-- What `parseExpressionFrom` makes of it, in front of what is no operator of a term. -/
def ExprTree.Sum (tree : ExprTree) : Prop :=
  ∀ (fuel : Nat) (rest : List Token) (pool : ExprPool), 4 * (tree.print 0).length + 2 ≤ fuel →
    pool.length + tree.size ≤ MAX_EXPR_NODES → termOperator (typeAt rest 0) = none →
    ∃ left i pool',
      parseExpressionFrom fuel (tree.print 0 ++ rest) pool = sumLoop left i rest pool' ∧
        fuel ≤ left + 4 * (tree.print 0).length ∧ tree.Added pool pool' i

/-- A term ends where no operator of a term follows. -/
theorem termLoop_stop {fuel : Nat} (hfuel : 0 < fuel) {i : Int32} {rest : List Token}
    {pool : ExprPool} (h : termOperator (typeAt rest 0) = none) :
    termLoop fuel i rest pool = .ok (i, rest, pool) := by
  obtain ⟨fuel, rfl⟩ : ∃ n, fuel = n + 1 := ⟨fuel - 1, by omega⟩
  unfold termLoop
  rw [h]

/-- A sum ends where no operator of a sum follows. -/
theorem sumLoop_stop {fuel : Nat} (hfuel : 0 < fuel) {i : Int32} {rest : List Token}
    {pool : ExprPool} (h : sumOperator (typeAt rest 0) = none) :
    sumLoop fuel i rest pool = .ok (i, rest, pool) := by
  obtain ⟨fuel, rfl⟩ : ∃ n, fuel = n + 1 := ⟨fuel - 1, by omega⟩
  unfold sumLoop
  rw [h]

/-- One factor more in a term. -/
theorem termLoop_step {fuel : Nat} {i j : Int32} {token : Token} {tokens rest : List Token}
    {pool pool' : ExprPool} {op : ArithOp} (hop : termOperator token.type = some op)
    (hread : parseFactorFrom fuel tokens pool = .ok (j, rest, pool'))
    (hfew : pool'.length < MAX_EXPR_NODES) :
    termLoop (fuel + 1) i (token :: tokens) pool =
      termLoop fuel (Int32.ofNat pool'.length) rest (pool' ++ [binaryNode op i j]) := by
  rw [termLoop, typeAt_cons, hop]
  simp only [List.drop_succ_cons, List.drop_zero, hread, exprNew_ok hfew]

/-- One term more in a sum. -/
theorem sumLoop_step {fuel : Nat} {i j : Int32} {token : Token} {tokens rest : List Token}
    {pool pool' : ExprPool} {op : ArithOp} (hop : sumOperator token.type = some op)
    (hread : parseTermFrom fuel tokens pool = .ok (j, rest, pool'))
    (hfew : pool'.length < MAX_EXPR_NODES) :
    sumLoop (fuel + 1) i (token :: tokens) pool =
      sumLoop fuel (Int32.ofNat pool'.length) rest (pool' ++ [binaryNode op i j]) := by
  rw [sumLoop, typeAt_cons, hop]
  simp only [List.drop_succ_cons, List.drop_zero, hread, exprNew_ok hfew]

namespace ExprTree

variable {tree left right : ExprTree}

/-- The operands of an operator are printed around its token, in brackets where needed. -/
theorem print_binary (op : ArithOp) (left right : ExprTree) (level : Nat) :
    (binary op left right).print level = bracketed (decide (op.level < level))
      (left.print op.level ++ op.token :: right.print (op.level + 1)) := rfl

/-- A factor is a term. -/
theorem Factor.term (h : tree.Factor) (hprint : tree.print 1 = tree.print 2) : tree.Term := by
  intro fuel rest pool hfuel hfits
  rw [hprint] at hfuel ⊢
  obtain ⟨fuel, rfl⟩ : ∃ n, fuel = n + 1 := ⟨fuel - 1, by omega⟩
  obtain ⟨i, pool', hread, hadded⟩ := h fuel rest pool (by omega) hfits
  have hpos := tree.print_length_pos 2
  refine ⟨fuel, i, pool', ?_, by omega, hadded⟩
  unfold parseTermFrom
  rw [hread]

/-- A term is a sum. -/
theorem Term.sum (h : tree.Term) (hprint : tree.print 0 = tree.print 1) : tree.Sum := by
  intro fuel rest pool hfuel hfits hrest
  rw [hprint] at hfuel ⊢
  obtain ⟨fuel, rfl⟩ : ∃ n, fuel = n + 1 := ⟨fuel - 1, by omega⟩
  obtain ⟨more, i, pool', hread, hmore, hadded⟩ := h fuel rest pool (by omega) hfits
  rw [termLoop_stop (by omega) hrest] at hread
  have hpos := tree.print_length_pos 1
  refine ⟨fuel, i, pool', ?_, by omega, hadded⟩
  unfold parseExpressionFrom
  rw [hread]

/-- A factor behind a sign. -/
theorem parseFactorFrom_minus (fuel : Nat) (rest : List Token) (pool : ExprPool) :
    parseFactorFrom (fuel + 1) (minusToken :: rest) pool =
      match parseFactorFrom fuel rest pool with
      | .error code => .error code
      | .ok (inner, rest, pool) => addNode (negateNode inner) rest pool := by
  rw [parseFactorFrom]
  rfl

/-- A factor that opens a bracket. -/
theorem parseFactorFrom_open (fuel : Nat) (rest : List Token) (pool : ExprPool) :
    parseFactorFrom (fuel + 1) (openBracket :: rest) pool =
      match parseExpressionFrom fuel rest pool with
      | .error code => .error code
      | .ok (node, rest, pool) =>
        if typeAt rest 0 = .TOKEN_RPAREN then .ok (node, rest.drop 1, pool)
        else .error .SYNTAX_EXPECTED_PARENTHESES := by
  rw [parseFactorFrom]
  rfl

/-- A sum in brackets is a factor. -/
theorem Sum.factor (h : tree.Sum)
    (hprint : tree.print 2 = openBracket :: (tree.print 0 ++ [closeBracket])) : tree.Factor := by
  intro fuel rest pool hfuel hfits
  rw [hprint] at hfuel ⊢
  rw [List.length_cons, List.length_append, List.length_singleton] at hfuel
  obtain ⟨fuel, rfl⟩ : ∃ n, fuel = n + 1 := ⟨fuel - 1, by omega⟩
  obtain ⟨more, i, pool', hread, hmore, hadded⟩ :=
    h fuel (closeBracket :: rest) pool (by omega) hfits rfl
  rw [sumLoop_stop (by omega) rfl] at hread
  refine ⟨i, pool', ?_, hadded⟩
  rw [List.cons_append, List.append_assoc, List.singleton_append, parseFactorFrom_open, hread]
  rfl

/-- A product behind its left side. -/
theorem Term.product (hleft : left.Term) (hright : right.Factor) {op : ArithOp}
    (hop : op.level = 1) : (binary op left right).Term := by
  intro fuel rest pool hfuel hfits
  have hprint : (binary op left right).print 1 = left.print 1 ++ op.token :: right.print 2 := by
    rw [print_binary, hop]
    rfl
  rw [hprint, List.length_append, List.length_cons] at hfuel
  have hsize : (binary op left right).size = left.size + right.size + 1 := rfl
  obtain ⟨more, i, pool', hread, hmore, hadded⟩ :=
    hleft fuel (op.token :: right.print 2 ++ rest) pool (by omega) (by omega)
  obtain ⟨more, rfl⟩ : ∃ n, more = n + 1 := ⟨more - 1, by omega⟩
  obtain ⟨j, pool'', hread', hadded'⟩ := hright more rest pool' (by omega)
    (by rw [hadded.length]; omega)
  have hfew : pool''.length < MAX_EXPR_NODES := by
    rw [hadded'.length, hadded.length]
    omega
  have hoperator : termOperator op.token.type = some op := by
    cases op <;> first | rfl | exact absurd hop (by decide)
  refine ⟨more, _, _, ?_, ?_, hadded.binary hadded' hfew⟩
  · rw [hprint, List.append_assoc, hread]
    exact termLoop_step hoperator hread' hfew
  · rw [hprint, List.length_append, List.length_cons]
    omega

/-- A sum behind its left side. -/
theorem Sum.plus (hleft : left.Sum) (hright : right.Term) {op : ArithOp}
    (hop : op.level = 0) : (binary op left right).Sum := by
  intro fuel rest pool hfuel hfits hrest
  have hprint : (binary op left right).print 0 = left.print 0 ++ op.token :: right.print 1 := by
    rw [print_binary, hop]
    rfl
  rw [hprint, List.length_append, List.length_cons] at hfuel
  have hsize : (binary op left right).size = left.size + right.size + 1 := rfl
  have hoperator : sumOperator op.token.type = some op ∧ termOperator op.token.type = none := by
    cases op <;> first | exact ⟨rfl, rfl⟩ | exact absurd hop (by decide)
  obtain ⟨more, i, pool', hread, hmore, hadded⟩ :=
    hleft fuel (op.token :: right.print 1 ++ rest) pool (by omega) (by omega) hoperator.2
  obtain ⟨more, rfl⟩ : ∃ n, more = n + 1 := ⟨more - 1, by omega⟩
  obtain ⟨last, j, pool'', hread', hlast, hadded'⟩ := hright more rest pool' (by omega)
    (by rw [hadded.length]; omega)
  rw [termLoop_stop (by omega) hrest] at hread'
  have hfew : pool''.length < MAX_EXPR_NODES := by
    rw [hadded'.length, hadded.length]
    omega
  refine ⟨more, _, _, ?_, ?_, hadded.binary hadded' hfew⟩
  · rw [hprint, List.append_assoc, hread]
    exact sumLoop_step hoperator.1 hread' hfew
  · rw [hprint, List.length_append, List.length_cons]
    omega

/-- A literal is read into the node that has been made for it. -/
theorem literal_factor {token : Token} {value : Value}
    (htype : token.type = .TOKEN_NUMBER ∨ token.type = .TOKEN_STRING)
    (hvalue : ∀ rest, parseValue (token :: rest) = .ok (value, rest)) {fuel : Nat}
    {rest : List Token} {pool : ExprPool} (hfew : pool.length < MAX_EXPR_NODES) :
    parseFactorFrom (fuel + 1) (token :: rest) pool =
      .ok (Int32.ofNat pool.length, rest, pool ++ [literalExpr value]) := by
  have hmax : MAX_EXPR_NODES < 2147483648 := by decide
  have hset : ExprPool.setNode (pool ++ [literalExpr zeroValue]) (Int32.ofNat pool.length)
      (literalExpr value) = pool ++ [literalExpr value] := by
    unfold ExprPool.setNode
    rw [(toNat_ofNat (n := pool.length) (by omega)).1]
    simp
  rcases htype with htype | htype
  all_goals
    rw [parseFactorFrom, typeAt_cons, htype]
    simp only [exprNew_ok hfew, hvalue, hset]

/-- A numeral is read as its value. -/
theorem parseValue_number (numeral : Numeral) (rest : List Token) :
    parseValue (numeral.token :: rest) = .ok (numeral.value, rest) := by
  show Except.map _ (numberValue numeral.digits false) = _
  rw [numeral.worth]
  rfl

/-- A quoted text is read as its text. -/
theorem parseValue_text (literal : LiteralText) (rest : List Token) :
    parseValue (literal.token :: rest) = .ok (setText literal.text, rest) := rfl

/-- Each level reads what is printed at it. -/
theorem reads (tree : ExprTree) : tree.Factor ∧ tree.Term ∧ tree.Sum := by
  have hatom : ∀ {tree : ExprTree}, tree.Factor → tree.print 1 = tree.print 2 →
      tree.print 0 = tree.print 1 → tree.Factor ∧ tree.Term ∧ tree.Sum := fun h h1 h0 =>
    ⟨h, h.term h1, (h.term h1).sum h0⟩
  induction tree with
  | column name =>
    refine hatom (fun fuel rest pool hfuel hfits => ?_) rfl rfl
    have hpos := (column name).print_length_pos 2
    obtain ⟨fuel, rfl⟩ : ∃ n, fuel = n + 1 := ⟨fuel - 1, by omega⟩
    have hfew : pool.length < MAX_EXPR_NODES := hfits
    refine ⟨_, _, ?_, .leaf hfew rfl fun _ _ => .column⟩
    show addNode (columnNode name.word) rest pool = _
    unfold addNode
    rw [exprNew_ok hfew]
    rfl
  | number numeral =>
    refine hatom (fun fuel rest pool hfuel hfits => ?_) rfl rfl
    have hpos := (number numeral).print_length_pos 2
    obtain ⟨fuel, rfl⟩ : ∃ n, fuel = n + 1 := ⟨fuel - 1, by omega⟩
    have hfew : pool.length < MAX_EXPR_NODES := hfits
    exact ⟨_, _, literal_factor (.inl rfl) (parseValue_number numeral) hfew,
      .leaf hfew rfl fun _ _ => .number⟩
  | text literal =>
    refine hatom (fun fuel rest pool hfuel hfits => ?_) rfl rfl
    have hpos := (text literal).print_length_pos 2
    obtain ⟨fuel, rfl⟩ : ∃ n, fuel = n + 1 := ⟨fuel - 1, by omega⟩
    have hfew : pool.length < MAX_EXPR_NODES := hfits
    exact ⟨_, _, literal_factor (.inr rfl) (parseValue_text literal) hfew,
      .leaf hfew rfl fun _ _ => .text⟩
  | negate inner ih =>
    refine hatom (fun fuel rest pool hfuel hfits => ?_) rfl rfl
    have hlength : ((negate inner).print 2).length = (inner.print 2).length + 1 := rfl
    have hsize : (negate inner).size = inner.size + 1 := rfl
    obtain ⟨fuel, rfl⟩ : ∃ n, fuel = n + 1 := ⟨fuel - 1, by omega⟩
    obtain ⟨i, pool', hread, hadded⟩ := ih.1 fuel rest pool (by omega) (by omega)
    have hfew : pool'.length < MAX_EXPR_NODES := by
      rw [hadded.length]
      omega
    refine ⟨_, _, ?_, hadded.negate hfew⟩
    show parseFactorFrom (fuel + 1) (minusToken :: (inner.print 2 ++ rest)) pool = _
    rw [parseFactorFrom_minus, hread]
    show addNode (negateNode i) rest pool' = _
    unfold addNode
    rw [exprNew_ok hfew]
    rfl
  | binary op left right ihl ihr =>
    by_cases hop : op.level = 0
    · have hsum := ihl.2.2.plus ihr.2.1 hop
      have hfactor : (binary op left right).Factor := hsum.factor (by
        rw [print_binary, print_binary, hop]
        rfl)
      exact ⟨hfactor, hfactor.term (by rw [print_binary, print_binary, hop]; rfl), hsum⟩
    · have hop : op.level = 1 := by
        cases op <;> first | rfl | exact absurd rfl hop
      have hterm := ihl.2.1.product ihr.1 hop
      have hsum := hterm.sum (by rw [print_binary, print_binary, hop]; rfl)
      exact ⟨hsum.factor (by rw [print_binary, print_binary, hop]; rfl), hterm, hsum⟩

end ExprTree

/-- What follows an expression goes on with no operator of one. -/
def Ends (rest : List Token) : Prop :=
  sumOperator (typeAt rest 0) = none ∧ termOperator (typeAt rest 0) = none

/-- A printed expression is read back as its tree. -/
theorem parseExpression_print (tree : ExprTree) {rest : List Token} {pool : ExprPool}
    (hfits : pool.length + tree.size ≤ MAX_EXPR_NODES) (hrest : Ends rest) :
    ∃ i pool', parseExpression (tree.print 0 ++ rest) pool = .ok (i, rest, pool') ∧
      tree.Added pool pool' i := by
  have hfuel : 4 * (tree.print 0).length + 2 ≤ parseFuel (tree.print 0 ++ rest) := by
    unfold parseFuel
    rw [List.length_append]
    omega
  obtain ⟨more, i, pool', hread, hmore, hadded⟩ := tree.reads.2.2 _ rest pool hfuel hfits hrest.2
  have hpos : 0 < more := by
    omega
  rw [sumLoop_stop hpos hrest.1] at hread
  exact ⟨i, pool', hread, hadded⟩

end DatabaseEngine
