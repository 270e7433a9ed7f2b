import DatabaseEngine.Model.Parser

/-!
# `DatabaseEngine.Spec.Printing`: conditions as trees, and how they are written

The operators of a WHERE as trees without a pool: `=`, `<>`, `<`, `<=`, `>`, `>=`, `IS [NOT] NULL`,
`[NOT] LIKE`, `AND`, `OR`, `NOT`, and on both sides of a comparison `+`, `-`, `*`, `/`, `%` and a
unary minus over columns, unsigned numbers and strings.

* `ExprTree.print`, `ConditionTree.print`: a tree as tokens, in brackets where what stands around
  it binds tighter. The level that is printed at is the loosest that needs no brackets.
* `written`: tokens as a text, a space behind each.
* `ExprTree.At`, `ConditionTree.At`: a tree stands in a pool, at an index.
-/

set_option autoImplicit false

namespace DatabaseEngine

/-! ### Expressions -/

/-- A word that is no keyword and short enough to be kept whole. -/
structure ColumnWord where
  word : List UInt8
  starts : headIs (fun c => isalpha c || c == 95) word = true
  reads : takeWord word = (word, [])
  plain : classifyWord word = .TOKEN_IDENTIFIER
  short : word.length < NAME_LEN

/-- A number as it is written, and what it is worth. -/
structure Numeral where
  digits : List UInt8
  starts : headIs isdigit digits = true
  reads : takeNumber false digits = (digits, [])
  short : digits.length < VALUE_LEN
  value : Value
  worth : numberValue digits false = .ok value

/-- A text that a literal can hold. -/
structure LiteralText where
  text : List UInt8
  short : text.length < VALUE_LEN
  whole : (0 : UInt8) ∉ text

/-- An expression. -/
inductive ExprTree
  | column (name : ColumnWord)
  | number (numeral : Numeral)
  | text (literal : LiteralText)
  | negate (inner : ExprTree)
  | binary (op : ArithOp) (left right : ExprTree)

/-- How tight an operator binds: a sum, or a product. -/
def ArithOp.level : ArithOp → Nat
  | .ARITH_ADD | .ARITH_SUB => 0
  | .ARITH_MUL | .ARITH_DIV | .ARITH_MOD => 1

/-- The sign of an operator. -/
def ArithOp.token : ArithOp → Token
  | .ARITH_ADD => ⟨.TOKEN_PLUS, [43]⟩
  | .ARITH_SUB => ⟨.TOKEN_MINUS, [45]⟩
  | .ARITH_MUL => ⟨.TOKEN_STAR, [42]⟩
  | .ARITH_DIV => ⟨.TOKEN_SLASH, [47]⟩
  | .ARITH_MOD => ⟨.TOKEN_PERCENT, [37]⟩

/-- `-`. -/
def minusToken : Token := ⟨.TOKEN_MINUS, [45]⟩

/-- `(`. -/
def openBracket : Token := ⟨.TOKEN_LPAREN, [40]⟩

/-- `)`. -/
def closeBracket : Token := ⟨.TOKEN_RPAREN, [41]⟩

/-- A word as a token. -/
def wordToken (word : List UInt8) : Token := ⟨classifyWord word, word⟩

/-- The token of a column. -/
def ColumnWord.token (name : ColumnWord) : Token := ⟨.TOKEN_IDENTIFIER, name.word⟩

/-- The token of a number. -/
def Numeral.token (numeral : Numeral) : Token := ⟨.TOKEN_NUMBER, numeral.digits⟩

/-- The token of a text. -/
def LiteralText.token (literal : LiteralText) : Token := ⟨.TOKEN_STRING, literal.text⟩

/-- Brackets, where they are needed. -/
def bracketed (needed : Bool) (tokens : List Token) : List Token :=
  if needed then openBracket :: (tokens ++ [closeBracket]) else tokens

/-- An expression where only what binds as tight as `level` goes without brackets: 0 is the level
of a sum, 1 that of a product, 2 that of a factor. Both operators associate to the left. -/
def ExprTree.print : Nat → ExprTree → List Token
  | _, .column name => [name.token]
  | _, .number numeral => [numeral.token]
  | _, .text literal => [literal.token]
  | _, .negate inner => minusToken :: inner.print 2
  | level, .binary op left right =>
    bracketed (decide (op.level < level))
      (left.print op.level ++ op.token :: right.print (op.level + 1))

/-- Whether what is printed starts with a bracket. -/
def ExprTree.opens : Nat → ExprTree → Bool
  | level, .binary op left _ => decide (op.level < level) || left.opens op.level
  | _, _ => false

/-- The nodes that an expression takes. -/
def ExprTree.size : ExprTree → Nat
  | .column _ | .number _ | .text _ => 1
  | .negate inner => inner.size + 1
  | .binary _ left right => left.size + right.size + 1

/-- The expression stands in the pool, at the index. -/
inductive ExprTree.At (pool : ExprPool) : Int32 → ExprTree → Prop
  | column {i : Int32} {name : ColumnWord} (h : pool.node i = some (columnNode name.word)) :
      At pool i (.column name)
  | number {i : Int32} {numeral : Numeral}
      (h : pool.node i = some (literalExpr numeral.value)) : At pool i (.number numeral)
  | text {i : Int32} {literal : LiteralText}
      (h : pool.node i = some (literalExpr (setText literal.text))) : At pool i (.text literal)
  | negate {i inner : Int32} {tree : ExprTree} (h : pool.node i = some (negateNode inner))
      (hinner : At pool inner tree) : At pool i (.negate tree)
  | binary {i j k : Int32} {op : ArithOp} {left right : ExprTree}
      (h : pool.node i = some (binaryNode op j k)) (hleft : At pool j left)
      (hright : At pool k right) : At pool i (.binary op left right)

/-! ### Conditions -/

/-- The operators between two expressions. -/
inductive Relation
  | eq
  | ne
  | lt
  | lte
  | gt
  | gte

/-- The comparison that a relation means. -/
def Relation.op : Relation → CompareOp
  | .eq => .OP_EQ
  | .ne => .OP_NE
  | .lt => .OP_LT
  | .lte => .OP_LTE
  | .gt => .OP_GT
  | .gte => .OP_GTE

/-- Its sign. -/
def Relation.token : Relation → Token
  | .eq => ⟨.TOKEN_OPERATOR_EQ, [61]⟩
  | .ne => ⟨.TOKEN_OPERATOR_NE, [60, 62]⟩
  | .lt => ⟨.TOKEN_OPERATOR_LT, [60]⟩
  | .lte => ⟨.TOKEN_OPERATOR_LTE, [60, 61]⟩
  | .gt => ⟨.TOKEN_OPERATOR_GT, [62]⟩
  | .gte => ⟨.TOKEN_OPERATOR_GTE, [62, 61]⟩

/-- A condition. -/
inductive ConditionTree
  | compare (relation : Relation) (left right : ExprTree)
  | isNull (negated : Bool) (left : ExprTree)
  | like (negated : Bool) (left : ExprTree) (pattern : LiteralText)
  | not (inner : ConditionTree)
  | and (left right : ConditionTree)
  | or (left right : ConditionTree)

/-- `is`. -/
def isToken : Token := wordToken (ascii "is")

/-- `not`. -/
def notToken : Token := wordToken (ascii "not")

/-- `null`. -/
def nullToken : Token := wordToken (ascii "null")

/-- `like`. -/
def likeToken : Token := wordToken (ascii "like")

/-- `and`. -/
def andToken : Token := wordToken (ascii "and")

/-- `or`. -/
def orToken : Token := wordToken (ascii "or")

/-- NOT, where something is negated. -/
def negation (negated : Bool) : List Token := if negated then [notToken] else []

/-- A condition at a level: 0 is that of OR, 1 of AND, 2 of NOT, 3 of what needs no brackets
anywhere. -/
def ConditionTree.print : Nat → ConditionTree → List Token
  | _, .compare relation left right => left.print 0 ++ relation.token :: right.print 0
  | _, .isNull negated left => left.print 0 ++ isToken :: (negation negated ++ [nullToken])
  | _, .like negated left pattern =>
    left.print 0 ++ (negation negated ++ [likeToken, pattern.token])
  | level, .not inner => bracketed (decide (2 < level)) (notToken :: inner.print 2)
  | level, .and left right =>
    bracketed (decide (1 < level)) (left.print 1 ++ andToken :: right.print 2)
  | level, .or left right =>
    bracketed (decide (0 < level)) (left.print 0 ++ orToken :: right.print 1)

/-- No comparison starts with a bracket. -/
def ConditionTree.Plain : ConditionTree → Bool
  | .compare _ left _ | .isNull _ left | .like _ left _ => !left.opens 0
  | .not inner => inner.Plain
  | .and left right | .or left right => left.Plain && right.Plain

/-- The nodes of the condition, and those of its expressions. -/
def ConditionTree.size : ConditionTree → Nat
  | .compare .. | .isNull .. | .like .. => 1
  | .not inner => inner.size + 1
  | .and left right | .or left right => left.size + right.size + 1

/-- How many nodes the expressions take. -/
def ConditionTree.operands : ConditionTree → Nat
  | .compare _ left right => left.size + right.size
  | .isNull _ left => left.size
  | .like _ left _ => left.size + 1
  | .not inner => inner.operands
  | .and left right | .or left right => left.operands + right.operands

/-- The node that an index leads to. -/
def nodeAt (nodes : List ConditionNode) (i : Int32) : Option ConditionNode :=
  if i < 0 then none else nodes[i.toInt.toNat]?

/-- The condition stands in the pools, at the index. -/
inductive ConditionTree.At (nodes : List ConditionNode) (exprs : ExprPool) :
    Int32 → ConditionTree → Prop
  | compare {i j k : Int32} {relation : Relation} {left right : ExprTree}
      (h : nodeAt nodes i = some (predicateNode
        { left := j, op := relation.op, right := k, subquery := -1 }))
      (hleft : left.At exprs j) (hright : right.At exprs k) :
      At nodes exprs i (.compare relation left right)
  | isNull {i j : Int32} {negated : Bool} {left : ExprTree}
      (h : nodeAt nodes i = some (predicateNode
        { left := j, op := if negated then .OP_IS_NOT_NULL else .OP_IS_NULL, right := -1,
          subquery := -1 }))
      (hleft : left.At exprs j) : At nodes exprs i (.isNull negated left)
  | like {i j k : Int32} {negated : Bool} {left : ExprTree} {pattern : LiteralText}
      (h : nodeAt nodes i = some (predicateNode
        { left := j, op := if negated then .OP_NOT_LIKE else .OP_LIKE, right := k,
          subquery := -1 }))
      (hleft : left.At exprs j) (hpattern : (ExprTree.text pattern).At exprs k) :
      At nodes exprs i (.like negated left pattern)
  | not {i j : Int32} {inner : ConditionTree}
      (h : nodeAt nodes i = some (branchNode .COND_NOT j (-1))) (hinner : At nodes exprs j inner) :
      At nodes exprs i (.not inner)
  | and {i j k : Int32} {left right : ConditionTree}
      (h : nodeAt nodes i = some (branchNode .COND_AND j k)) (hleft : At nodes exprs j left)
      (hright : At nodes exprs k right) : At nodes exprs i (.and left right)
  | or {i j k : Int32} {left right : ConditionTree}
      (h : nodeAt nodes i = some (branchNode .COND_OR j k)) (hleft : At nodes exprs j left)
      (hright : At nodes exprs k right) : At nodes exprs i (.or left right)

/-! ### Texts -/

/-- A text in quotes, a quote in it written twice. -/
def quoted (text : List UInt8) : List UInt8 :=
  39 :: (text.flatMap (fun c => if c = 39 then [39, 39] else [c]) ++ [39])

/-- A token as a text. -/
def Token.spelling (token : Token) : List UInt8 :=
  if token.type = .TOKEN_STRING then quoted token.value else token.value

/-- Tokens as a text, a space behind each. -/
def written (tokens : List Token) : List UInt8 := tokens.flatMap fun token => token.spelling ++ [32]

/-- A statement with a WHERE. -/
inductive Filtered
  | select
  | delete

/-- What stands in front of the condition. -/
def Filtered.opening (table : ColumnWord) : Filtered → List Token
  | .select =>
    [wordToken (ascii "select"), ⟨.TOKEN_STAR, [42]⟩, wordToken (ascii "from"), table.token,
      wordToken (ascii "where")]
  | .delete =>
    [wordToken (ascii "delete"), wordToken (ascii "from"), table.token, wordToken (ascii "where")]

/-- `select * from table where condition`, and `delete from table where condition`. -/
def Filtered.tokens (table : ColumnWord) (tree : ConditionTree) (statement : Filtered) :
    List Token :=
  statement.opening table ++ tree.print 0

/-- The condition of a statement that has been parsed. -/
def Filtered.condition (parsed : ParsedStatement) : Filtered → Option Condition
  | .select =>
    match parsed.kind with
    | .STMT_SELECT query => some query.wher
    | _ => none
  | .delete =>
    match parsed.kind with
    | .plain (.STMT_DELETE del) => some del.wher
    | _ => none

/-- The tokens and the nodes fit their pools. -/
structure ConditionTree.Fits (tree : ConditionTree) (tokens : List Token) : Prop where
  tokens : tokens.length ≤ MAX_TOKENS
  nodes : tree.size ≤ MAX_CONDITION_NODES
  operands : tree.operands ≤ MAX_EXPR_NODES

end DatabaseEngine
