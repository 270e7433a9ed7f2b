import DatabaseEngine.Model.Label
import DatabaseEngine.Model.Query

/-!
# `DatabaseEngine.Model.Parser`: from tokens to a statement

The parser of `04_parser.c`. The source walks an index through the tokens; here each reader takes
the tokens from the index on and answers what is left of them. What a reader allocates goes to the
end of its pool, and a node that is filled in later is replaced in it.

Readers that call each other take fuel, one unit a call. Every way back to the same reader uses up
a token, and no way there is longer than four calls, so that four units a token and a few more
never run out; a reader that does run out answers `GENERAL_ERROR`, which no other path does.
-/

set_option autoImplicit false

namespace DatabaseEngine

/-! ### Tokens -/

/-- The type of a token, `TOKEN_UNKNOWN` past the end. -/
def typeAt (tokens : List Token) (i : Nat) : TokenType :=
  match tokens[i]? with
  | some token => token.type
  | none => .TOKEN_UNKNOWN

/-- The text of the first token. -/
def textOf (tokens : List Token) : List UInt8 :=
  match tokens with
  | token :: _ => token.value
  | [] => []

/-- An optional semicolon, and then nothing. -/
def endOfStatement (tokens : List Token) : Except ErrorCode Unit :=
  let rest := if typeAt tokens 0 = .TOKEN_SEMICOLON then tokens.drop 1 else tokens
  if rest.isEmpty then .ok () else .error .SYNTAX_TRAILING_TOKENS

/-- An identifier where a name is wanted. -/
def parseName (code : ErrorCode) (tokens : List Token) : Except ErrorCode (Name × List Token) :=
  if typeAt tokens 0 = .TOKEN_IDENTIFIER then .ok (Name.ofBytes (textOf tokens), tokens.drop 1)
  else .error code

/-- Fuel for readers that call each other. -/
def parseFuel (tokens : List Token) : Nat := 4 * tokens.length + 8

/-! ### Values and expressions -/

/-- The value of a number token. -/
def numberValue (digits : List UInt8) (negative : Bool) : Except ErrorCode Value :=
  if 46 ∈ digits then
    match strtod digits with
    | none => .error .VALUE_OUT_OF_RANGE
    | some number => .ok (setFloat (if negative then number ^^^ 0x8000000000000000 else number))
  else
    let n : Int := if negative then -(strtoll digits : Int) else strtoll digits
    if n < -2147483648 ∨ 2147483647 < n then .error .VALUE_OUT_OF_RANGE
    else .ok { zeroValue with intValue := Int32.ofInt n }

/-- One literal: an optionally negated number, a quoted string, or NULL. -/
def parseValue (tokens : List Token) : Except ErrorCode (Value × List Token) :=
  let negative := typeAt tokens 0 == .TOKEN_MINUS
  let tokens := if negative then tokens.drop 1 else tokens
  if typeAt tokens 0 = .TOKEN_NUMBER then
    (numberValue (textOf tokens) negative).map fun value => (value, tokens.drop 1)
  else if !negative && typeAt tokens 0 == .TOKEN_STRING then
    .ok (setText (textOf tokens), tokens.drop 1)
  -- the column that is written decides the type
  else if !negative && typeAt tokens 0 == .TOKEN_KEYWORD_NULL then
    .ok (setNull .TYPE_INT, tokens.drop 1)
  else .error .SYNTAX_EXPECTED_VALUE

/-- A node as `exprNew` clears it. -/
def freshNode (kind : ExprKind) : ExprNode :=
  { kind := kind, op := .ARITH_ADD, left := -1, right := -1, column := Name.ofBytes [],
    literal := zeroValue, slot := -1, type := .TYPE_INT }

/-- Adds a node to the pool. -/
def exprNew (node : ExprNode) (pool : ExprPool) : Except ErrorCode (Int32 × ExprPool) :=
  if pool.length = MAX_EXPR_NODES then .error .SYNTAX_EXPRESSION_TOO_COMPLEX
  else .ok (Int32.ofNat pool.length, pool ++ [node])

/-- What a reader of expressions answers: a node, the tokens behind it, and the pool. -/
abbrev ExprRead := Except ErrorCode (Int32 × List Token × ExprPool)

/-- Adds a node, and goes on behind it. -/
def addNode (node : ExprNode) (tokens : List Token) (pool : ExprPool) : ExprRead :=
  (exprNew node pool).map fun (i, pool) => (i, tokens, pool)

/-- An operator over two expressions. -/
def binaryNode (op : ArithOp) (left right : Int32) : ExprNode :=
  { freshNode .EXPR_BINARY with op := op, left := left, right := right }

/-- A minus sign over an expression. -/
def negateNode (inner : Int32) : ExprNode := { freshNode .EXPR_NEGATE with left := inner }

/-- A column by its name. -/
def columnNode (name : List UInt8) : ExprNode :=
  { freshNode .EXPR_COLUMN with column := Name.ofBytes name }

/-- A literal on its own, as its own node. -/
def literalExpr (value : Value) : ExprNode := { freshNode .EXPR_LITERAL with literal := value }

/-- The operators of a term, and those of an expression. -/
def termOperator : TokenType → Option ArithOp
  | .TOKEN_STAR => some .ARITH_MUL
  | .TOKEN_SLASH => some .ARITH_DIV
  | .TOKEN_PERCENT => some .ARITH_MOD
  | _ => none

/-- The operators of a sum. -/
def sumOperator : TokenType → Option ArithOp
  | .TOKEN_PLUS => some .ARITH_ADD
  | .TOKEN_MINUS => some .ARITH_SUB
  | _ => none

mutual

/-- `'-' factor | '(' expression ')' | literal | column`. -/
def parseFactorFrom : Nat → List Token → ExprPool → ExprRead
  | 0, _, _ => .error .GENERAL_ERROR
  | fuel + 1, tokens, pool =>
    match typeAt tokens 0 with
    | .TOKEN_MINUS =>
      match parseFactorFrom fuel (tokens.drop 1) pool with
      | .error code => .error code
      | .ok (inner, rest, pool) => addNode (negateNode inner) rest pool
    | .TOKEN_LPAREN =>
      match parseExpressionFrom fuel (tokens.drop 1) pool with
      | .error code => .error code
      | .ok (node, rest, pool) =>
        if typeAt rest 0 = .TOKEN_RPAREN then .ok (node, rest.drop 1, pool)
        else .error .SYNTAX_EXPECTED_PARENTHESES
    | .TOKEN_IDENTIFIER => addNode (columnNode (textOf tokens)) (tokens.drop 1) pool
    | .TOKEN_NUMBER | .TOKEN_STRING | .TOKEN_KEYWORD_NULL =>
      -- the node is there before its literal is read
      match exprNew (literalExpr zeroValue) pool, parseValue tokens with
      | .error code, _ => .error code
      | _, .error code => .error code
      | .ok (i, pool), .ok (value, rest) => .ok (i, rest, pool.setNode i (literalExpr value))
    | _ => .error .SYNTAX_EXPECTED_COLUMN

/-- The rest of a term, with what stands before it. -/
def termLoop : Nat → Int32 → List Token → ExprPool → ExprRead
  | 0, _, _, _ => .error .GENERAL_ERROR
  | fuel + 1, node, tokens, pool =>
    match termOperator (typeAt tokens 0) with
    | none => .ok (node, tokens, pool)
    | some op =>
      match parseFactorFrom fuel (tokens.drop 1) pool with
      | .error code => .error code
      | .ok (right, rest, pool) =>
        match exprNew (binaryNode op node right) pool with
        | .error code => .error code
        | .ok (parent, pool) => termLoop fuel parent rest pool

/-- `factor (('*' | '/' | '%') factor)*`. -/
def parseTermFrom : Nat → List Token → ExprPool → ExprRead
  | 0, _, _ => .error .GENERAL_ERROR
  | fuel + 1, tokens, pool =>
    match parseFactorFrom fuel tokens pool with
    | .error code => .error code
    | .ok (node, rest, pool) => termLoop fuel node rest pool

/-- The rest of an expression, with what stands before it. -/
def sumLoop : Nat → Int32 → List Token → ExprPool → ExprRead
  | 0, _, _, _ => .error .GENERAL_ERROR
  | fuel + 1, node, tokens, pool =>
    match sumOperator (typeAt tokens 0) with
    | none => .ok (node, tokens, pool)
    | some op =>
      match parseTermFrom fuel (tokens.drop 1) pool with
      | .error code => .error code
      | .ok (right, rest, pool) =>
        match exprNew (binaryNode op node right) pool with
        | .error code => .error code
        | .ok (parent, pool) => sumLoop fuel parent rest pool

/-- `term (('+' | '-') term)*`. -/
def parseExpressionFrom : Nat → List Token → ExprPool → ExprRead
  | 0, _, _ => .error .GENERAL_ERROR
  | fuel + 1, tokens, pool =>
    match parseTermFrom fuel tokens pool with
    | .error code => .error code
    | .ok (node, rest, pool) => sumLoop fuel node rest pool

end

/-- An expression, with fuel for its tokens. -/
def parseExpression (tokens : List Token) (pool : ExprPool) : ExprRead :=
  parseExpressionFrom (parseFuel tokens) tokens pool

/-! ### Select items -/

/-- The aggregate that a name means. -/
def aggregateFromName (name : Name) : Option AggregateType :=
  if sameText name.1 (ascii "count") then some .AGG_COUNT
  else if sameText name.1 (ascii "sum") then some .AGG_SUM
  else if sameText name.1 (ascii "avg") then some .AGG_AVG
  else if sameText name.1 (ascii "min") then some .AGG_MIN
  else if sameText name.1 (ascii "max") then some .AGG_MAX
  else none

/-- `count(*)`, by the name it was written with. -/
def starItem (name : Name) : SelectItem :=
  { aggregate := .AGG_COUNT, expr := -1, star := true,
    label := Name.ofBytes (name.1.take (NAME_LEN - 4) ++ ascii "(*)"), aliased := false,
    starred := fun _ => ⟨rfl, rfl⟩ }

/-- An item that computes something. -/
def exprItem (aggregate : AggregateType) (expr : Int32) (label : Name) : SelectItem :=
  { aggregate := aggregate, expr := expr, star := false, label := label, aliased := false,
    starred := fun h => absurd h (by simp) }

/-- What an aggregate is called. -/
def aggregateLabel (name inner : Name) : Name :=
  Name.ofBytes (name.1.take (NAME_LEN / 2 - 2) ++ 40 :: inner.1.take (NAME_LEN / 2 - 2) ++ [41])

/-- One entry of the select list, without its alias. -/
def parseSelectItem (tokens : List Token) (pool : ExprPool) :
    Except ErrorCode (SelectItem × List Token × ExprPool) :=
  if typeAt tokens 0 = .TOKEN_IDENTIFIER ∧ typeAt tokens 1 = .TOKEN_LPAREN then
    let name := Name.ofBytes (textOf tokens)
    match aggregateFromName name with
    | none => .error .SYNTAX_UNKNOWN_FUNCTION
    | some aggregate =>
      let inside := tokens.drop 2
      let read : Except ErrorCode (SelectItem × List Token × ExprPool) :=
        if typeAt inside 0 = .TOKEN_STAR then
          -- only count(*) exists
          if aggregate ≠ .AGG_COUNT then .error .SYNTAX_EXPECTED_COLUMN
          else .ok (starItem name, inside.drop 1, pool)
        else
          (parseExpression inside pool).map fun (expr, rest, pool) =>
            (exprItem aggregate expr (aggregateLabel name (exprLabel pool expr)), rest, pool)
      match read with
      | .error code => .error code
      | .ok (item, rest, pool) =>
        if typeAt rest 0 = .TOKEN_RPAREN then .ok (item, rest.drop 1, pool)
        else .error .SYNTAX_EXPECTED_PARENTHESES
  else
    (parseExpression tokens pool).map fun (expr, rest, pool) =>
      (exprItem .AGG_NONE expr (exprLabel pool expr), rest, pool)

/-! ### Conditions -/

/-- Where the reader of a condition is: the pools of the condition, and the subqueries. -/
structure ConditionRead where
  nodes : List ConditionNode
  exprs : ExprPool
  pool : List PooledSelect

/-- What a reader of conditions answers: a node, the tokens behind it, and the pools. -/
abbrev NodeRead := Except ErrorCode (Int32 × List Token × ConditionRead)

/-- A reader of `( select ... )`: the slot that it took. -/
abbrev SubqueryRead :=
  List Token → List PooledSelect → Except ErrorCode (Int32 × List Token × List PooledSelect)

/-- A predicate that nothing has been filled into. -/
def blankPredicate : Predicate := { left := -1, op := .OP_EQ, right := -1, subquery := -1 }

/-- A comparison as a node. -/
def predicateNode (compare : Predicate) : ConditionNode :=
  { kind := .COND_COMPARE, compare := compare, left := -1, right := -1 }

/-- AND, OR or NOT as a node. -/
def branchNode (kind : ConditionKind) (left right : Int32) : ConditionNode :=
  { kind := kind, compare := blankPredicate, left := left, right := right }

/-- Allocates a node in the condition pool. -/
def newCondition (node : ConditionNode) (cond : ConditionRead) :
    Except ErrorCode (Int32 × ConditionRead) :=
  if cond.nodes.length = MAX_CONDITION_NODES then .error .SYNTAX_CONDITION_TOO_COMPLEX
  else .ok (Int32.ofNat cond.nodes.length, { cond with nodes := cond.nodes ++ [node] })

/-- Fills in the predicate of a node. -/
def ConditionRead.setCompare (cond : ConditionRead) (i : Int32) (compare : Predicate) :
    ConditionRead :=
  { cond with nodes := cond.nodes.set i.toInt.toNat (predicateNode compare) }

/-- A node above what has been read. -/
def addBranch (node : ConditionNode) (tokens : List Token) (cond : ConditionRead) : NodeRead :=
  (newCondition node cond).map fun (i, cond) => (i, tokens, cond)

/-- The values of `x IN (a, b, ...)`: the node at `spine` becomes the next equality, and each
further value adds another and an OR above it. -/
def inListLoop (left : Int32) : Nat → Int32 → Int32 → List Token → ConditionRead → NodeRead
  | 0, _, _, _, _ => .error .GENERAL_ERROR
  | fuel + 1, root, spine, tokens, cond =>
    match parseExpression tokens cond.exprs with
    | .error code => .error code
    | .ok (right, rest, exprs) =>
      let term : Predicate := { left := left, op := .OP_EQ, right := right, subquery := -1 }
      let cond := { cond with exprs := exprs }.setCompare spine term
      if typeAt rest 0 ≠ .TOKEN_COMMA then .ok (root, rest, cond)
      else
        match newCondition (predicateNode blankPredicate) cond with
        | .error code => .error code
        | .ok (next, cond) =>
          match newCondition (branchNode .COND_OR root next) cond with
          | .error code => .error code
          | .ok (either, cond) => inListLoop left fuel either next (rest.drop 1) cond

/-- `[NOT] IN`, behind its left side: a subquery, or a list that is rewritten into equalities. -/
def parseIn (subquery : SubqueryRead) (left node : Int32) (tokens : List Token)
    (cond : ConditionRead) : NodeRead :=
  let negated := typeAt tokens 0 == .TOKEN_KEYWORD_NOT
  let tokens := tokens.drop (if negated then 2 else 1)
  let read : NodeRead :=
    if typeAt tokens 1 = .TOKEN_KEYWORD_SELECT then
      (subquery tokens cond.pool).map fun (slot, rest, pool) =>
        (node, rest, { cond with pool := pool }.setCompare node
          { left := left, op := .OP_IN, right := -1, subquery := slot })
    else if typeAt tokens 0 ≠ .TOKEN_LPAREN then .error .SYNTAX_EXPECTED_PARENTHESES
    else
      match inListLoop left (parseFuel tokens) node node (tokens.drop 1) cond with
      | .error code => .error code
      | .ok (root, rest, cond) =>
        if typeAt rest 0 = .TOKEN_RPAREN then .ok (root, rest.drop 1, cond)
        else .error .SYNTAX_EXPECTED_PARENTHESES
  match read with
  | .error code => .error code
  | .ok (root, rest, cond) =>
    if negated then addBranch (branchNode .COND_NOT root (-1)) rest cond
    else .ok (root, rest, cond)

/-- `IS [NOT] NULL`, behind its left side. -/
def parseIsNull (left node : Int32) (tokens : List Token) (cond : ConditionRead) : NodeRead :=
  let negated := typeAt tokens 1 == .TOKEN_KEYWORD_NOT
  let rest := tokens.drop (if negated then 2 else 1)
  if typeAt rest 0 ≠ .TOKEN_KEYWORD_NULL then .error .SYNTAX_EXPECTED_NULL
  else
    .ok (node, rest.drop 1, cond.setCompare node
      { left := left, op := if negated then .OP_IS_NOT_NULL else .OP_IS_NULL, right := -1,
        subquery := -1 })

/-- `[NOT] LIKE`, behind its left side. A pattern is a constant. -/
def parseLike (left node : Int32) (tokens : List Token) (cond : ConditionRead) : NodeRead :=
  let negated := typeAt tokens 0 == .TOKEN_KEYWORD_NOT
  match parseValue (tokens.drop (if negated then 2 else 1)) with
  | .error code => .error code
  | .ok (pattern, rest) =>
    if pattern.isNull ∨ pattern.type ≠ .TYPE_TEXT then .error .SYNTAX_EXPECTED_VALUE
    else
      match exprNew (literalExpr pattern) cond.exprs with
      | .error code => .error code
      | .ok (right, exprs) =>
        .ok (node, rest, { cond with exprs := exprs }.setCompare node
          { left := left, op := if negated then .OP_NOT_LIKE else .OP_LIKE, right := right,
            subquery := -1 })

/-- The comparisons with a sign. -/
def comparisonOperator : TokenType → Option CompareOp
  | .TOKEN_OPERATOR_EQ => some .OP_EQ
  | .TOKEN_OPERATOR_NE => some .OP_NE
  | .TOKEN_OPERATOR_LT => some .OP_LT
  | .TOKEN_OPERATOR_LTE => some .OP_LTE
  | .TOKEN_OPERATOR_GT => some .OP_GT
  | .TOKEN_OPERATOR_GTE => some .OP_GTE
  | _ => none

/-- An operator and its right side: a scalar subquery, or an expression. -/
def parseOperator (subquery : SubqueryRead) (left node : Int32) (tokens : List Token)
    (cond : ConditionRead) : NodeRead :=
  match comparisonOperator (typeAt tokens 0) with
  | none => .error .SYNTAX_EXPECTED_OPERATOR
  | some op =>
    let tokens := tokens.drop 1
    if typeAt tokens 0 = .TOKEN_LPAREN ∧ typeAt tokens 1 = .TOKEN_KEYWORD_SELECT then
      (subquery tokens cond.pool).map fun (slot, rest, pool) =>
        (node, rest,
          { cond with
            pool := pool.modify slot.toInt.toNat fun sub => { sub with scalar := true } }.setCompare
              node { left := left, op := op, right := -1, subquery := slot })
    else
      match parseExpression tokens cond.exprs with
      | .error code => .error code
      | .ok (right, rest, exprs) =>
        -- x = NULL is never true
        if (exprLiteral exprs right).any Value.isNull then .error .SYNTAX_EXPECTED_NULL
        else
          .ok (node, rest, { cond with exprs := exprs }.setCompare node
            { left := left, op := op, right := right, subquery := -1 })

/-- The left side of a comparison. HAVING names result columns: of its item only the label
stays, and the expression is built in a pool that is thrown away. -/
def parseLeft (allowAggregate : Bool) (tokens : List Token) (exprs : ExprPool) : ExprRead :=
  if allowAggregate then
    match parseSelectItem tokens [] with
    | .error code => .error code
    | .ok (item, rest, _) => addNode (columnNode item.label.1) rest exprs
  else parseExpression tokens exprs

/-- A comparison, by what stands behind its left side. -/
def parseComparison (subquery : SubqueryRead) (allowAggregate : Bool) (tokens : List Token)
    (cond : ConditionRead) : NodeRead :=
  match parseLeft allowAggregate tokens cond.exprs with
  | .error code => .error code
  | .ok (left, rest, exprs) =>
    match newCondition (predicateNode { blankPredicate with left := left })
      { cond with exprs := exprs } with
    | .error code => .error code
    | .ok (node, cond) =>
      let negated := typeAt rest 0 == .TOKEN_KEYWORD_NOT
      let word := if negated then typeAt rest 1 else typeAt rest 0
      if word = .TOKEN_KEYWORD_IN then parseIn subquery left node rest cond
      else if typeAt rest 0 = .TOKEN_KEYWORD_IS then parseIsNull left node rest cond
      else if word = .TOKEN_KEYWORD_LIKE then parseLike left node rest cond
      else parseOperator subquery left node rest cond

/-- `EXISTS (select ...)`. -/
def parseExists (subquery : SubqueryRead) (tokens : List Token) (cond : ConditionRead) : NodeRead :=
  match newCondition (predicateNode { blankPredicate with op := .OP_EXISTS }) cond with
  | .error code => .error code
  | .ok (node, cond) =>
    (subquery (tokens.drop 1) cond.pool).map fun (slot, rest, pool) =>
      (node, rest, { cond with pool := pool }.setCompare node
        { blankPredicate with op := .OP_EXISTS, subquery := slot })

mutual

/-- `EXISTS (...) | ( condition ) | comparison`. -/
def parsePrimaryFrom (subquery : SubqueryRead) (allowAggregate : Bool) :
    Nat → List Token → ConditionRead → NodeRead
  | 0, _, _ => .error .GENERAL_ERROR
  | fuel + 1, tokens, cond =>
    if typeAt tokens 0 = .TOKEN_KEYWORD_EXISTS then parseExists subquery tokens cond
    else if typeAt tokens 0 = .TOKEN_LPAREN then
      match parseOrFrom subquery allowAggregate fuel (tokens.drop 1) cond with
      | .error code => .error code
      | .ok (node, rest, cond) =>
        if typeAt rest 0 = .TOKEN_RPAREN then .ok (node, rest.drop 1, cond)
        else .error .SYNTAX_EXPECTED_PARENTHESES
    else parseComparison subquery allowAggregate tokens cond

/-- `NOT` binds tighter than `AND`. -/
def parseNotFrom (subquery : SubqueryRead) (allowAggregate : Bool) :
    Nat → List Token → ConditionRead → NodeRead
  | 0, _, _ => .error .GENERAL_ERROR
  | fuel + 1, tokens, cond =>
    if typeAt tokens 0 ≠ .TOKEN_KEYWORD_NOT then
      parsePrimaryFrom subquery allowAggregate fuel tokens cond
    else
      match parseNotFrom subquery allowAggregate fuel (tokens.drop 1) cond with
      | .error code => .error code
      | .ok (child, rest, cond) => addBranch (branchNode .COND_NOT child (-1)) rest cond

/-- The rest of a conjunction, with what stands before it. -/
def andLoop (subquery : SubqueryRead) (allowAggregate : Bool) :
    Nat → Int32 → List Token → ConditionRead → NodeRead
  | 0, _, _, _ => .error .GENERAL_ERROR
  | fuel + 1, node, tokens, cond =>
    if typeAt tokens 0 ≠ .TOKEN_KEYWORD_AND then .ok (node, tokens, cond)
    else
      match parseNotFrom subquery allowAggregate fuel (tokens.drop 1) cond with
      | .error code => .error code
      | .ok (right, rest, cond) =>
        match newCondition (branchNode .COND_AND node right) cond with
        | .error code => .error code
        | .ok (parent, cond) => andLoop subquery allowAggregate fuel parent rest cond

/-- A conjunction. -/
def parseAndFrom (subquery : SubqueryRead) (allowAggregate : Bool) :
    Nat → List Token → ConditionRead → NodeRead
  | 0, _, _ => .error .GENERAL_ERROR
  | fuel + 1, tokens, cond =>
    match parseNotFrom subquery allowAggregate fuel tokens cond with
    | .error code => .error code
    | .ok (node, rest, cond) => andLoop subquery allowAggregate fuel node rest cond

/-- The rest of a disjunction, with what stands before it. -/
def orLoop (subquery : SubqueryRead) (allowAggregate : Bool) :
    Nat → Int32 → List Token → ConditionRead → NodeRead
  | 0, _, _, _ => .error .GENERAL_ERROR
  | fuel + 1, node, tokens, cond =>
    if typeAt tokens 0 ≠ .TOKEN_KEYWORD_OR then .ok (node, tokens, cond)
    else
      match parseAndFrom subquery allowAggregate fuel (tokens.drop 1) cond with
      | .error code => .error code
      | .ok (right, rest, cond) =>
        match newCondition (branchNode .COND_OR node right) cond with
        | .error code => .error code
        | .ok (parent, cond) => orLoop subquery allowAggregate fuel parent rest cond

/-- `OR` binds loosest, so it sits at the top of the tree. -/
def parseOrFrom (subquery : SubqueryRead) (allowAggregate : Bool) :
    Nat → List Token → ConditionRead → NodeRead
  | 0, _, _ => .error .GENERAL_ERROR
  | fuel + 1, tokens, cond =>
    match parseAndFrom subquery allowAggregate fuel tokens cond with
    | .error code => .error code
    | .ok (node, rest, cond) => orLoop subquery allowAggregate fuel node rest cond

end

/-- A condition, with fuel for its tokens. -/
def parseOrExpression (subquery : SubqueryRead) (allowAggregate : Bool) (tokens : List Token)
    (cond : ConditionRead) : NodeRead :=
  parseOrFrom subquery allowAggregate (parseFuel tokens) tokens cond

/-- Parses a condition into pools that may already hold nodes, ANDing it onto the root so far,
which is negative when there is none. -/
def addCondition (subquery : SubqueryRead) (tokens : List Token) (root : Int32)
    (cond : ConditionRead) : NodeRead :=
  match parseOrExpression subquery false tokens cond with
  | .error code => .error code
  | .ok (node, rest, cond) =>
    if root < 0 then .ok (node, rest, cond) else addBranch (branchNode .COND_AND root node) rest cond

/-- No nodes yet. -/
def emptyRead (pool : List PooledSelect) : ConditionRead := { nodes := [], exprs := [], pool := pool }

/-- The tree at a root as a condition of its own. -/
def ConditionRead.condition (cond : ConditionRead) (root : Int32) : Condition :=
  { present := true, root := root, nodes := cond.nodes, exprs := cond.exprs }

/-- A condition of its own, behind its keyword: WHERE, or HAVING. -/
def parseWhole (subquery : SubqueryRead) (allowAggregate : Bool) (tokens : List Token)
    (pool : List PooledSelect) : Except ErrorCode (Condition × List Token × List PooledSelect) :=
  (parseOrExpression subquery allowAggregate (tokens.drop 1) (emptyRead pool)).map
    fun (root, rest, cond) => (cond.condition root, rest, cond.pool)

/-- The condition of a WHERE. -/
def parseWhere (subquery : SubqueryRead) := parseWhole subquery false

/-- The condition of a HAVING, where aggregates may stand. -/
def parseHaving (subquery : SubqueryRead) := parseWhole subquery true

/-- A WHERE, or none. -/
def parseOptionalWhere (subquery : SubqueryRead) (tokens : List Token) (pool : List PooledSelect) :
    Except ErrorCode (Condition × List Token × List PooledSelect) :=
  if typeAt tokens 0 = .TOKEN_KEYWORD_WHERE then parseWhere subquery tokens pool
  else .ok (noCondition, tokens, pool)

/-! ### SELECT -/

/-- `[AS] alias` behind an item. -/
def parseItemAlias (item : SelectItem) (tokens : List Token) : SelectItem × List Token :=
  let tokens := if typeAt tokens 0 = .TOKEN_KEYWORD_AS then tokens.drop 1 else tokens
  if typeAt tokens 0 = .TOKEN_IDENTIFIER then
    ({ item with label := Name.ofBytes (textOf tokens), aliased := true }, tokens.drop 1)
  else (item, tokens)

/-- The select list. -/
def parseItems : Nat → List SelectItem → List Token → ExprPool →
    Except ErrorCode (List SelectItem × List Token × ExprPool)
  | 0, _, _, _ => .error .GENERAL_ERROR
  | fuel + 1, items, tokens, pool =>
    if items.length = MAX_COLS then .error .SYNTAX_TOO_MANY_COLUMNS
    else
      match parseSelectItem tokens pool with
      | .error code => .error code
      | .ok (item, rest, pool) =>
        let (item, rest) := parseItemAlias item rest
        if typeAt rest 0 ≠ .TOKEN_COMMA then .ok (items ++ [item], rest, pool)
        else parseItems fuel (items ++ [item]) (rest.drop 1) pool

/-- A FROM list as far as it has been read. -/
structure FromRead where
  tables : List FromTable
  onRoots : List Int32
  whereRoot : Int32
  cond : ConditionRead

/-- A table name and its alias. -/
def parseFromTable (outer : Bool) (tokens : List Token) :
    Except ErrorCode (FromTable × List Token) :=
  match parseName .SYNTAX_EXPECTED_TABLE_NAME tokens with
  | .error code => .error code
  | .ok (table, rest) =>
    let rest := if typeAt rest 0 = .TOKEN_KEYWORD_AS then rest.drop 1 else rest
    if typeAt rest 0 = .TOKEN_IDENTIFIER then
      .ok ({ table := table, aliasName := Name.ofBytes (textOf rest), outer := outer }, rest.drop 1)
    else .ok ({ table := table, aliasName := table, outer := outer }, rest)

/-- The ON of a join. An outer join's is a tree of its own, an inner join's is ANDed into the
WHERE. -/
def parseOn (subquery : SubqueryRead) (entry : FromTable) (tokens : List Token)
    (list : FromRead) : Except ErrorCode (FromRead × List Token) :=
  if typeAt tokens 0 ≠ .TOKEN_KEYWORD_ON then .error .SYNTAX_EXPECTED_ON
  else
    match addCondition subquery (tokens.drop 1) (if entry.outer then -1 else list.whereRoot)
      list.cond with
    | .error code => .error code
    | .ok (root, rest, cond) =>
      let tables := list.tables ++ [entry]
      if entry.outer then
        .ok ({ list with tables := tables, onRoots := list.onRoots ++ [root], cond := cond }, rest)
      else
        .ok ({ tables := tables, onRoots := list.onRoots ++ [-1], whereRoot := root, cond := cond },
          rest)

/-- `[INNER] JOIN`, or `LEFT [OUTER] JOIN`: how many words stand before JOIN, and whether it is
outer. -/
def joinWords (tokens : List Token) : Nat × Bool :=
  match typeAt tokens 0 with
  | .TOKEN_KEYWORD_INNER => (1, false)
  | .TOKEN_KEYWORD_LEFT => (if typeAt tokens 1 = .TOKEN_KEYWORD_OUTER then 2 else 1, true)
  | _ => (0, false)

/-- The tables of a FROM list; `joined` says what kind of join the next one stands behind, if it
stands behind one. -/
def parseFrom (subquery : SubqueryRead) :
    Nat → Option Bool → List Token → FromRead → Except ErrorCode (FromRead × List Token)
  | 0, _, _, _ => .error .GENERAL_ERROR
  | fuel + 1, joined, tokens, list =>
    if typeAt tokens 0 ≠ .TOKEN_IDENTIFIER then .error .SYNTAX_EXPECTED_TABLE_NAME
    else if list.tables.length = MAX_JOIN_TABLES then .error .SYNTAX_TOO_MANY_TABLES
    else
      match parseFromTable (joined.getD false) tokens with
      | .error code => .error code
      | .ok (entry, rest) =>
        let read : Except ErrorCode (FromRead × List Token) :=
          if joined.isSome then parseOn subquery entry rest list
          else
            .ok ({ list with tables := list.tables ++ [entry], onRoots := list.onRoots ++ [-1] }, rest)
        match read with
        | .error code => .error code
        | .ok (list, rest) =>
          if typeAt rest 0 = .TOKEN_COMMA then parseFrom subquery fuel none (rest.drop 1) list
          else
            let (words, outer) := joinWords rest
            if typeAt rest words ≠ .TOKEN_KEYWORD_JOIN then .ok (list, rest)
            else parseFrom subquery fuel (some outer) (rest.drop (words + 1)) list

/-- The rest of the WHERE, behind the inner ONs. -/
def parseSelectWhere (subquery : SubqueryRead) (tokens : List Token) (list : FromRead) :
    Except ErrorCode (FromRead × List Token) :=
  if typeAt tokens 0 ≠ .TOKEN_KEYWORD_WHERE then .ok (list, tokens)
  else
    (addCondition subquery (tokens.drop 1) list.whereRoot list.cond).map fun (root, rest, cond) =>
      ({ list with whereRoot := root, cond := cond }, rest)

/-- A list of column names. -/
def parseNames : Nat → List Name → List Token → Except ErrorCode (List Name × List Token)
  | 0, _, _ => .error .GENERAL_ERROR
  | fuel + 1, names, tokens =>
    match parseName .SYNTAX_EXPECTED_COLUMN tokens with
    | .error code => .error code
    | .ok (name, rest) =>
      if names.length = MAX_COLS then .error .SYNTAX_TOO_MANY_COLUMNS
      else if typeAt rest 0 ≠ .TOKEN_COMMA then .ok (names ++ [name], rest)
      else parseNames fuel (names ++ [name]) (rest.drop 1)

/-- The BY behind GROUP or ORDER. -/
def parseBy (tokens : List Token) : Except ErrorCode (List Token) :=
  if typeAt tokens 1 = .TOKEN_KEYWORD_BY then .ok (tokens.drop 2) else .error .SYNTAX_EXPECTED_BY

/-- GROUP BY, or none. -/
def parseGroupBy (tokens : List Token) : Except ErrorCode (List Name × List Token) :=
  if typeAt tokens 0 ≠ .TOKEN_KEYWORD_GROUP then .ok ([], tokens)
  else
    match parseBy tokens with
    | .error code => .error code
    | .ok rest => parseNames (parseFuel rest) [] rest

/-- The terms of an ORDER BY, each spelled like a select item of which the label stays. -/
def parseTerms : Nat → List OrderTerm → List Token → ExprPool →
    Except ErrorCode (List OrderTerm × List Token × ExprPool)
  | 0, _, _, _ => .error .GENERAL_ERROR
  | fuel + 1, terms, tokens, pool =>
    if terms.length = MAX_COLS then .error .SYNTAX_TOO_MANY_COLUMNS
    else
      match parseSelectItem tokens pool with
      | .error code => .error code
      | .ok (item, rest, pool) =>
        let descending := typeAt rest 0 == .TOKEN_KEYWORD_DESC
        let rest :=
          if descending || typeAt rest 0 == .TOKEN_KEYWORD_ASC then rest.drop 1 else rest
        let terms := terms ++ [{ column := item.label, descending := descending }]
        if typeAt rest 0 ≠ .TOKEN_COMMA then .ok (terms, rest, pool)
        else parseTerms fuel terms (rest.drop 1) pool

/-- ORDER BY, or none. -/
def parseOrderBy (tokens : List Token) (pool : ExprPool) :
    Except ErrorCode (List OrderTerm × List Token × ExprPool) :=
  if typeAt tokens 0 ≠ .TOKEN_KEYWORD_ORDER then .ok ([], tokens, pool)
  else
    match parseBy tokens with
    | .error code => .error code
    | .ok rest => parseTerms (parseFuel rest) [] rest pool

/-- LIMIT, or none. -/
def parseLimit (tokens : List Token) : Except ErrorCode (Option Nat × List Token) :=
  if typeAt tokens 0 ≠ .TOKEN_KEYWORD_LIMIT then .ok (none, tokens)
  else if typeAt tokens 1 ≠ .TOKEN_NUMBER then .error .SYNTAX_EXPECTED_VALUE
  else
    let rows := strtoll (textOf (tokens.drop 1))
    if 2147483647 < rows then .error .VALUE_OUT_OF_RANGE else .ok (some rows, tokens.drop 2)

/-- `*`, or the select list. -/
def parseSelectList (tokens : List Token) :
    Except ErrorCode (Bool × List SelectItem × List Token × ExprPool) :=
  if typeAt tokens 0 = .TOKEN_STAR then .ok (true, [], tokens.drop 1, [])
  else
    (parseItems (parseFuel tokens) [] tokens []).map fun (items, rest, pool) =>
      (false, items, rest, pool)

/-- What stands behind the WHERE: HAVING, and the pools of the list it belongs to. -/
def parseOptionalHaving (subquery : SubqueryRead) (tokens : List Token) (pool : List PooledSelect) :
    Except ErrorCode (Condition × List Token × List PooledSelect) :=
  if typeAt tokens 0 = .TOKEN_KEYWORD_HAVING then parseHaving subquery tokens pool
  else .ok (noCondition, tokens, pool)

/-- A SELECT, from the keyword to the end. -/
def parseSelectWith (subquery : SubqueryRead) (tokens : List Token) (pool : List PooledSelect) :
    Except ErrorCode (ParsedSelect × List PooledSelect) := do
  let tokens := tokens.drop 1
  let distinct := typeAt tokens 0 == .TOKEN_KEYWORD_DISTINCT
  let tokens := if distinct then tokens.drop 1 else tokens
  let (selectAll, items, tokens, exprs) ← parseSelectList tokens
  if typeAt tokens 0 ≠ .TOKEN_KEYWORD_FROM then .error .SYNTAX_EXPECTED_FROM
  else
    let list : FromRead := { tables := [], onRoots := [], whereRoot := -1, cond := emptyRead pool }
    let (list, tokens) ← parseFrom subquery (parseFuel tokens) none (tokens.drop 1) list
    let (list, tokens) ← parseSelectWhere subquery tokens list
    let (groupBy, tokens) ← parseGroupBy tokens
    let (having, tokens, pool) ← parseOptionalHaving subquery tokens list.cond.pool
    let (order, tokens, exprs) ← parseOrderBy tokens exprs
    let (limit, tokens) ← parseLimit tokens
    endOfStatement tokens
    .ok (
      { items := items
        exprs := exprs
        selectAll := selectAll
        onRoots := list.onRoots
        wher := { list.cond.condition list.whereRoot with present := decide (0 ≤ list.whereRoot) }
        having := having
        groupBy := groupBy
        tables := list.tables
        distinct := distinct
        order := order
        limit := limit }, pool)

/-! ### Subqueries -/

/-- The tokens up to the parenthesis that closes the ones open, and those behind it. -/
def closing : Nat → List Token → Option (List Token × List Token)
  | _, [] => none
  | depth, token :: rest =>
    match token.type with
    | .TOKEN_RPAREN =>
      if depth ≤ 1 then some ([], rest)
      else (closing (depth - 1) rest).map fun (inner, behind) => (token :: inner, behind)
    | .TOKEN_LPAREN =>
      (closing (depth + 1) rest).map fun (inner, behind) => (token :: inner, behind)
    | _ => (closing depth rest).map fun (inner, behind) => (token :: inner, behind)

/-- What a slot holds before its SELECT has been parsed. -/
def blankSelect : ParsedSelect :=
  { items := [], exprs := [], selectAll := false, onRoots := [], wher := noCondition,
    having := noCondition, groupBy := [], tables := [], distinct := false, order := [],
    limit := none }

/-- `( select ... )`, given the reader of the SELECT. The slot is taken before what is inside is
parsed, so a nested subquery has a higher one. -/
def parseSubqueryWith
    (parseSelect : List Token → List PooledSelect → Except ErrorCode (ParsedSelect × List PooledSelect)) :
    SubqueryRead :=
  fun tokens pool =>
    if typeAt tokens 0 ≠ .TOKEN_LPAREN ∨ typeAt tokens 1 ≠ .TOKEN_KEYWORD_SELECT then
      .error .SYNTAX_EXPECTED_PARENTHESES
    else if pool.length = MAX_SUBQUERIES then .error .SYNTAX_TOO_MANY_SUBQUERIES
    else
      match closing 1 (tokens.drop 1) with
      | none => .error .SYNTAX_EXPECTED_PARENTHESES
      | some (inner, rest) =>
        if MAX_TOKENS < inner.length then .error .TOO_MANY_TOKENS
        else
          match parseSelect inner (pool ++ [{ select := blankSelect, scalar := false }]) with
          | .error code => .error code
          | .ok (select, after) =>
            .ok (Int32.ofNat pool.length, rest,
              after.set pool.length { select := select, scalar := false })

/-- `parseSelect`. A subquery is nested no deeper than there are slots. -/
def parseSelectFrom :
    Nat → List Token → List PooledSelect → Except ErrorCode (ParsedSelect × List PooledSelect)
  | 0, _, _ => .error .GENERAL_ERROR
  | fuel + 1, tokens, pool => parseSelectWith (parseSubqueryWith (parseSelectFrom fuel)) tokens pool

/-- A SELECT, with fuel for its subqueries. -/
def parseSelect := parseSelectFrom (MAX_SUBQUERIES + 1)

/-- A SELECT in brackets. -/
def parseSubquery : SubqueryRead := parseSubqueryWith parseSelect

/-! ### The other statements -/

/-- A token of a type, or an error. -/
def expect (type : TokenType) (code : ErrorCode) (tokens : List Token) :
    Except ErrorCode (List Token) :=
  if typeAt tokens 0 = type then .ok (tokens.drop 1) else .error code

/-- What a statement answers that ends here. -/
def finished {α : Type} (result : α) (tokens : List Token) : Except ErrorCode α :=
  (endOfStatement tokens).map fun () => result

/-- `int | text | float | date | varchar ( n )`: a type and its size. -/
def parseColumnType (tokens : List Token) : Except ErrorCode (ColType × Int32 × List Token) :=
  match typeAt tokens 0 with
  | .TOKEN_KEYWORD_INT => .ok (.TYPE_INT, 0, tokens.drop 1)
  | .TOKEN_KEYWORD_TEXT => .ok (.TYPE_TEXT, 0, tokens.drop 1)
  | .TOKEN_KEYWORD_FLOAT => .ok (.TYPE_FLOAT, 0, tokens.drop 1)
  | .TOKEN_KEYWORD_DATE => .ok (.TYPE_DATE, 0, tokens.drop 1)
  | .TOKEN_KEYWORD_VARCHAR =>
    match expect .TOKEN_LPAREN .SYNTAX_EXPECTED_PARENTHESES (tokens.drop 1) with
    | .error code => .error code
    | .ok rest =>
      if typeAt rest 0 ≠ .TOKEN_NUMBER then .error .SYNTAX_EXPECTED_SIZE
      else
        let size := strtoll (textOf rest)
        if size = 0 ∨ VALUE_LEN < size then .error .SYNTAX_EXPECTED_SIZE
        else
          (expect .TOKEN_RPAREN .SYNTAX_EXPECTED_PARENTHESES (rest.drop 1)).map fun rest =>
            (.TYPE_TEXT, Int32.ofNat size, rest)
  | _ => .error .SYNTAX_EXPECTED_TYPE

/-- A column and the table's CHECK, as far as they have been read. -/
structure ColumnRead where
  column : Column
  checkRoot : Int32
  check : ConditionRead

/-- Whatever follows a column's type, in any order and any number. A CHECK is ANDed into the
table's one condition tree. -/
def parseColumnConstraints (subquery : SubqueryRead) :
    Nat → List Token → ColumnRead → Except ErrorCode (ColumnRead × List Token)
  | 0, _, _ => .error .GENERAL_ERROR
  | fuel + 1, tokens, read =>
    match typeAt tokens 0 with
    | .TOKEN_KEYWORD_PRIMARY =>
      if typeAt tokens 1 ≠ .TOKEN_KEYWORD_KEY then .error .SYNTAX_EXPECTED_KEY
      else
        parseColumnConstraints subquery fuel (tokens.drop 2)
          { read with column := { read.column with primary := true, unique := true, notNull := true } }
    | .TOKEN_KEYWORD_UNIQUE =>
      parseColumnConstraints subquery fuel (tokens.drop 1)
        { read with column := { read.column with unique := true } }
    | .TOKEN_KEYWORD_NOT =>
      if typeAt tokens 1 ≠ .TOKEN_KEYWORD_NULL then .error .SYNTAX_EXPECTED_NULL
      else
        parseColumnConstraints subquery fuel (tokens.drop 2)
          { read with column := { read.column with notNull := true } }
    | .TOKEN_KEYWORD_DEFAULT =>
      match parseValue (tokens.drop 1) with
      | .error code => .error code
      | .ok (value, rest) =>
        parseColumnConstraints subquery fuel rest
          { read with column := { read.column with hasDefault := true, defaultValue := value } }
    | .TOKEN_KEYWORD_CHECK =>
      match expect .TOKEN_LPAREN .SYNTAX_EXPECTED_PARENTHESES (tokens.drop 1) with
      | .error code => .error code
      | .ok inside =>
        match addCondition subquery inside read.checkRoot read.check with
        | .error code => .error code
        | .ok (root, rest, check) =>
          match expect .TOKEN_RPAREN .SYNTAX_EXPECTED_PARENTHESES rest with
          | .error code => .error code
          | .ok rest =>
            parseColumnConstraints subquery fuel rest
              { read with checkRoot := root, check := check }
    | _ => .ok (read, tokens)

/-- A column with its type and constraints. -/
def parseColumn (subquery : SubqueryRead) (tokens : List Token) (checkRoot : Int32)
    (check : ConditionRead) : Except ErrorCode (ColumnRead × List Token) := do
  let (name, tokens) ← parseName .SYNTAX_EXPECTED_COLUMN tokens
  let (type, size, tokens) ← parseColumnType tokens
  parseColumnConstraints subquery (parseFuel tokens) tokens
    { column := { plainColumn name.1 type with size := size }, checkRoot := checkRoot, check := check }

/-- The entries of a CREATE TABLE. One that opens with CHECK constrains the table. -/
def parseEntries (subquery : SubqueryRead) :
    Nat → List Column → Int32 → List Token → ConditionRead →
      Except ErrorCode (List Column × Int32 × List Token × ConditionRead)
  | 0, _, _, _, _ => .error .GENERAL_ERROR
  | fuel + 1, cols, root, tokens, check =>
    let read : Except ErrorCode (List Column × ColumnRead × List Token) :=
      if typeAt tokens 0 = .TOKEN_KEYWORD_CHECK then
        (parseColumnConstraints subquery (parseFuel tokens) tokens
          { column := plainColumn [] .TYPE_INT, checkRoot := root, check := check }).map
          fun (read, rest) => (cols, read, rest)
      else if typeAt tokens 0 ≠ .TOKEN_IDENTIFIER then .error .SYNTAX_EXPECTED_COLUMN
      else if cols.length = MAX_COLS then .error .SYNTAX_TOO_MANY_COLUMNS
      else
        (parseColumn subquery tokens root check).map fun (read, rest) =>
          (cols ++ [read.column], read, rest)
    match read with
    | .error code => .error code
    | .ok (cols, read, rest) =>
      if typeAt rest 0 ≠ .TOKEN_COMMA then .ok (cols, read.checkRoot, rest, read.check)
      else parseEntries subquery fuel cols read.checkRoot (rest.drop 1) read.check

/-- CREATE TABLE. -/
def parseCreateTable (tokens : List Token) (pool : List PooledSelect) :
    Except ErrorCode (CreateStatement × List PooledSelect) := do
  let tokens ← expect .TOKEN_KEYWORD_TABLE .SYNTAX_INVALID_STATEMENT (tokens.drop 1)
  let (table, tokens) ← parseName .SYNTAX_EXPECTED_TABLE_NAME tokens
  let tokens ← expect .TOKEN_LPAREN .SYNTAX_EXPECTED_PARENTHESES tokens
  let (cols, root, tokens, check) ←
    parseEntries parseSubquery (parseFuel tokens) [] (-1) tokens (emptyRead pool)
  if cols.isEmpty then .error .SYNTAX_EXPECTED_COLUMN
  else
    let tokens ← expect .TOKEN_RPAREN .SYNTAX_EXPECTED_PARENTHESES tokens
    let check' := { check.condition root with present := decide (0 ≤ root) }
    finished ({ table := table, cols := cols, check := check' }, check.pool) tokens

/-- The values of an INSERT. -/
def parseValues : Nat → List Value → List Token → Except ErrorCode (List Value × List Token)
  | 0, _, _ => .error .GENERAL_ERROR
  | fuel + 1, values, tokens =>
    if values.length = MAX_COLS then .error .SYNTAX_TOO_MANY_COLUMNS
    else
      match parseValue tokens with
      | .error code => .error code
      | .ok (value, rest) =>
        if typeAt rest 0 ≠ .TOKEN_COMMA then .ok (values ++ [value], rest)
        else parseValues fuel (values ++ [value]) (rest.drop 1)

/-- The column list of an INSERT, if there is one. -/
def parseColumnList (tokens : List Token) : Except ErrorCode (List Name × List Token) :=
  if typeAt tokens 0 ≠ .TOKEN_LPAREN then .ok ([], tokens)
  else
    match parseNames (parseFuel tokens) [] (tokens.drop 1) with
    | .error code => .error code
    | .ok (columns, rest) =>
      (expect .TOKEN_RPAREN .SYNTAX_EXPECTED_PARENTHESES rest).map fun rest => (columns, rest)

/-- INSERT. -/
def parseInsert (tokens : List Token) : Except ErrorCode InsertStatement := do
  let tokens ← expect .TOKEN_KEYWORD_INTO .SYNTAX_INVALID_STATEMENT (tokens.drop 1)
  let (table, tokens) ← parseName .SYNTAX_EXPECTED_TABLE_NAME tokens
  let (columns, tokens) ← parseColumnList tokens
  let tokens ← expect .TOKEN_KEYWORD_VALUES .SYNTAX_EXPECTED_VALUES tokens
  let tokens ← expect .TOKEN_LPAREN .SYNTAX_EXPECTED_PARENTHESES tokens
  let (values, tokens) ← parseValues (parseFuel tokens) [] tokens
  let tokens ← expect .TOKEN_RPAREN .SYNTAX_EXPECTED_PARENTHESES tokens
  finished { table := table, columns := columns, values := values } tokens

/-- CREATE INDEX. -/
def parseCreateIndex (tokens : List Token) : Except ErrorCode CreateIndexStatement := do
  let (name, tokens) ← parseName .SYNTAX_EXPECTED_TABLE_NAME (tokens.drop 2)
  let tokens ← expect .TOKEN_KEYWORD_ON .SYNTAX_EXPECTED_ON tokens
  let (table, tokens) ← parseName .SYNTAX_EXPECTED_TABLE_NAME tokens
  let tokens ← expect .TOKEN_LPAREN .SYNTAX_EXPECTED_PARENTHESES tokens
  let (column, tokens) ← parseName .SYNTAX_EXPECTED_COLUMN tokens
  let tokens ← expect .TOKEN_RPAREN .SYNTAX_EXPECTED_PARENTHESES tokens
  finished { name := name, table := table, column := column } tokens

/-- DELETE. -/
def parseDelete (tokens : List Token) (pool : List PooledSelect) :
    Except ErrorCode (DeleteStatement × List PooledSelect) := do
  let tokens ← expect .TOKEN_KEYWORD_FROM .SYNTAX_EXPECTED_FROM (tokens.drop 1)
  let (table, tokens) ← parseName .SYNTAX_EXPECTED_TABLE_NAME tokens
  let (wher, tokens, pool) ← parseOptionalWhere parseSubquery tokens pool
  finished ({ table := table, wher := wher }, pool) tokens

/-- The assignments of an UPDATE. -/
def parseSets : Nat → List Assignment → List Token → ExprPool →
    Except ErrorCode (List Assignment × List Token × ExprPool)
  | 0, _, _, _ => .error .GENERAL_ERROR
  | fuel + 1, sets, tokens, pool =>
    match parseName .SYNTAX_EXPECTED_COLUMN tokens with
    | .error code => .error code
    | .ok (column, rest) =>
      if sets.length = MAX_COLS then .error .SYNTAX_TOO_MANY_COLUMNS
      else if typeAt rest 0 ≠ .TOKEN_OPERATOR_EQ then .error .SYNTAX_EXPECTED_ASSIGNMENT
      else
        match parseExpression (rest.drop 1) pool with
        | .error code => .error code
        | .ok (expr, rest, pool) =>
          let sets := sets ++ [{ column := column, expr := expr }]
          if typeAt rest 0 ≠ .TOKEN_COMMA then .ok (sets, rest, pool)
          else parseSets fuel sets (rest.drop 1) pool

/-- UPDATE. -/
def parseUpdate (tokens : List Token) (pool : List PooledSelect) :
    Except ErrorCode (UpdateStatement × List PooledSelect) := do
  let (table, tokens) ← parseName .SYNTAX_EXPECTED_TABLE_NAME (tokens.drop 1)
  let tokens ← expect .TOKEN_KEYWORD_SET .SYNTAX_EXPECTED_SET tokens
  let (sets, tokens, exprs) ← parseSets (parseFuel tokens) [] tokens []
  let (wher, tokens, pool) ← parseOptionalWhere parseSubquery tokens pool
  finished ({ table := table, sets := sets, exprs := exprs, wher := wher }, pool) tokens

/-- A name that ends the statement. -/
def parseLastName {α : Type} (make : Name → α) (code : ErrorCode) (tokens : List Token) :
    Except ErrorCode α := do
  let (name, tokens) ← parseName code tokens
  finished (make name) tokens

/-- The COLUMN that may stand behind ADD and DROP. -/
def skipColumn (tokens : List Token) : List Token :=
  if typeAt tokens 0 = .TOKEN_KEYWORD_COLUMN then tokens.drop 1 else tokens

/-- What an ALTER TABLE does, behind the name of the table. -/
def parseAlterAction (tokens : List Token) : Except ErrorCode AlterAction :=
  match typeAt tokens 0 with
  | .TOKEN_KEYWORD_ADD => do
    let (read, rest) ← parseColumn parseSubquery (skipColumn (tokens.drop 1)) (-1) (emptyRead [])
    -- a CHECK has landed in the scratch tree
    if read.checkRoot ≠ -1 then .error .SEMANTIC_ALTER_UNSUPPORTED
    else finished (.ALTER_ADD_COLUMN read.column) rest
  | .TOKEN_KEYWORD_DROP =>
    parseLastName .ALTER_DROP_COLUMN .SYNTAX_EXPECTED_COLUMN (skipColumn (tokens.drop 1))
  | .TOKEN_KEYWORD_RENAME =>
    if typeAt tokens 1 = .TOKEN_KEYWORD_TO then
      parseLastName .ALTER_RENAME_TABLE .SYNTAX_EXPECTED_TABLE_NAME (tokens.drop 2)
    else do
      let tokens ← expect .TOKEN_KEYWORD_COLUMN .SYNTAX_EXPECTED_COLUMN (tokens.drop 1)
      let (name, tokens) ← parseName .SYNTAX_EXPECTED_COLUMN tokens
      let tokens ← expect .TOKEN_KEYWORD_TO .SYNTAX_EXPECTED_TO tokens
      parseLastName (.ALTER_RENAME_COLUMN name) .SYNTAX_EXPECTED_COLUMN tokens
  | _ => .error .SYNTAX_INVALID_STATEMENT

/-- ALTER TABLE. -/
def parseAlter (tokens : List Token) : Except ErrorCode AlterStatement := do
  let tokens ← expect .TOKEN_KEYWORD_TABLE .SYNTAX_EXPECTED_TABLE (tokens.drop 1)
  let (table, tokens) ← parseName .SYNTAX_EXPECTED_TABLE_NAME tokens
  let action ← parseAlterAction tokens
  .ok { table := table, action := action }

/-- DROP. -/
def parseDrop (tokens : List Token) : Except ErrorCode StatementKind :=
  match typeAt tokens 1 with
  | .TOKEN_KEYWORD_TABLE =>
    parseLastName .STMT_DROP_TABLE .SYNTAX_EXPECTED_TABLE_NAME (tokens.drop 2)
  | .TOKEN_KEYWORD_INDEX =>
    parseLastName .STMT_DROP_INDEX .SYNTAX_EXPECTED_TABLE_NAME (tokens.drop 2)
  | .TOKEN_KEYWORD_DATABASE =>
    parseLastName .STMT_DROP_DATABASE .SYNTAX_EXPECTED_TABLE_NAME (tokens.drop 2)
  | _ => .error .SYNTAX_INVALID_STATEMENT

/-- A CREATE, by what is created. -/
def parseCreate (tokens : List Token) (pool : List PooledSelect) :
    Except ErrorCode (StatementKind × List PooledSelect) :=
  match typeAt tokens 1 with
  | .TOKEN_KEYWORD_DATABASE =>
    (parseLastName .STMT_CREATE_DATABASE .SYNTAX_EXPECTED_TABLE_NAME (tokens.drop 2)).map
      fun kind => (kind, pool)
  | .TOKEN_KEYWORD_INDEX =>
    (parseCreateIndex tokens).map fun create => (.STMT_CREATE_INDEX create, pool)
  | _ => (parseCreateTable tokens pool).map fun (create, pool) => (.STMT_CREATE_TABLE create, pool)

/-- A statement that is no SELECT. -/
def parsePlain (tokens : List Token) : Except ErrorCode (StatementKind × List PooledSelect) :=
  let bare (kind : Except ErrorCode StatementKind) := kind.map fun kind => (kind, [])
  match typeAt tokens 0 with
  | .TOKEN_KEYWORD_CREATE => parseCreate tokens []
  | .TOKEN_KEYWORD_INSERT => bare ((parseInsert tokens).map .STMT_INSERT)
  | .TOKEN_KEYWORD_DELETE =>
    (parseDelete tokens []).map fun (del, pool) => (.STMT_DELETE del, pool)
  | .TOKEN_KEYWORD_UPDATE =>
    (parseUpdate tokens []).map fun (update, pool) => (.STMT_UPDATE update, pool)
  | .TOKEN_KEYWORD_VACUUM =>
    bare (parseLastName .STMT_VACUUM .SYNTAX_EXPECTED_TABLE_NAME (tokens.drop 1))
  | .TOKEN_KEYWORD_USE =>
    bare (parseLastName .STMT_USE_DATABASE .SYNTAX_EXPECTED_TABLE_NAME (tokens.drop 1))
  | .TOKEN_KEYWORD_BEGIN => bare (finished .STMT_BEGIN (tokens.drop 1))
  | .TOKEN_KEYWORD_COMMIT => bare (finished .STMT_COMMIT (tokens.drop 1))
  | .TOKEN_KEYWORD_ROLLBACK => bare (finished .STMT_ROLLBACK (tokens.drop 1))
  | .TOKEN_KEYWORD_ALTER => bare ((parseAlter tokens).map .STMT_ALTER_TABLE)
  | .TOKEN_KEYWORD_DROP => bare (parseDrop tokens)
  | _ => .error .SYNTAX_INVALID_STATEMENT

/-- Dispatches on the first token. The pool is emptied before. -/
def parseStatement (tokens : List Token) : Except ErrorCode ParsedStatement :=
  if typeAt tokens 0 = .TOKEN_KEYWORD_SELECT then
    (parseSelect tokens []).map fun (select, pool) =>
      { kind := .STMT_SELECT select, pool := pool }
  else (parsePlain tokens).map fun (kind, pool) => { kind := .plain kind, pool := pool }

end DatabaseEngine
