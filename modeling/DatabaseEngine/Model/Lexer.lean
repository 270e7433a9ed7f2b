import DatabaseEngine.Model.Value

/-!
# `DatabaseEngine.Model.Lexer`: from text to tokens

The lexer of `03_lexer.c`. A text is a C string without its closing zero, so the end of the
list is where the source reads `'\0'`. The source walks an index through the text; here each
reader takes the text from the index on and answers what is left of it.

`lexOne` is one turn of the loop of `tokenizeStatement`. A turn that goes on uses up at least
one byte, so the length of the text is fuel enough.
-/

set_option autoImplicit false

namespace DatabaseEngine

/-- The bytes of an ASCII text. -/
def ascii (text : String) : List UInt8 := text.toList.map fun c => UInt8.ofNat c.toNat

/-- How many tokens a statement may have. -/
def MAX_TOKENS : Nat := 100

/-- The kinds of a token. -/
inductive TokenType
  | TOKEN_KEYWORD_SELECT
  | TOKEN_KEYWORD_FROM
  | TOKEN_KEYWORD_CREATE
  | TOKEN_KEYWORD_TABLE
  | TOKEN_KEYWORD_INSERT
  | TOKEN_KEYWORD_INTO
  | TOKEN_KEYWORD_VALUES
  | TOKEN_KEYWORD_INT
  | TOKEN_KEYWORD_TEXT
  | TOKEN_KEYWORD_WHERE
  | TOKEN_KEYWORD_GROUP
  | TOKEN_KEYWORD_BY
  | TOKEN_KEYWORD_NULL
  | TOKEN_KEYWORD_IS
  | TOKEN_KEYWORD_NOT
  | TOKEN_KEYWORD_INDEX
  | TOKEN_KEYWORD_ON
  | TOKEN_KEYWORD_DELETE
  | TOKEN_KEYWORD_UPDATE
  | TOKEN_KEYWORD_SET
  | TOKEN_KEYWORD_VACUUM
  | TOKEN_KEYWORD_ORDER
  | TOKEN_KEYWORD_ASC
  | TOKEN_KEYWORD_DESC
  | TOKEN_KEYWORD_LIKE
  | TOKEN_KEYWORD_AND
  | TOKEN_KEYWORD_OR
  | TOKEN_KEYWORD_LIMIT
  | TOKEN_KEYWORD_DISTINCT
  | TOKEN_KEYWORD_HAVING
  | TOKEN_KEYWORD_DROP
  | TOKEN_KEYWORD_DATABASE
  | TOKEN_KEYWORD_USE
  | TOKEN_KEYWORD_JOIN
  | TOKEN_KEYWORD_INNER
  | TOKEN_KEYWORD_AS
  | TOKEN_KEYWORD_BEGIN
  | TOKEN_KEYWORD_COMMIT
  | TOKEN_KEYWORD_ROLLBACK
  | TOKEN_KEYWORD_FLOAT
  | TOKEN_KEYWORD_DATE
  | TOKEN_KEYWORD_VARCHAR
  | TOKEN_KEYWORD_PRIMARY
  | TOKEN_KEYWORD_KEY
  | TOKEN_KEYWORD_UNIQUE
  | TOKEN_KEYWORD_DEFAULT
  | TOKEN_KEYWORD_CHECK
  | TOKEN_KEYWORD_ALTER
  | TOKEN_KEYWORD_ADD
  | TOKEN_KEYWORD_COLUMN
  | TOKEN_KEYWORD_RENAME
  | TOKEN_KEYWORD_TO
  | TOKEN_KEYWORD_LEFT
  | TOKEN_KEYWORD_OUTER
  | TOKEN_KEYWORD_IN
  | TOKEN_KEYWORD_EXISTS
  | TOKEN_IDENTIFIER
  | TOKEN_NUMBER
  | TOKEN_STRING
  | TOKEN_STAR
  | TOKEN_COMMA
  | TOKEN_LPAREN
  | TOKEN_RPAREN
  | TOKEN_SEMICOLON
  | TOKEN_MINUS
  | TOKEN_PLUS
  | TOKEN_SLASH
  | TOKEN_PERCENT
  | TOKEN_OPERATOR_EQ
  | TOKEN_OPERATOR_NE
  | TOKEN_OPERATOR_LT
  | TOKEN_OPERATOR_LTE
  | TOKEN_OPERATOR_GT
  | TOKEN_OPERATOR_GTE
  | TOKEN_UNKNOWN
  deriving DecidableEq, Repr

/-- A token and its text. -/
structure Token where
  type : TokenType
  value : List UInt8
  deriving DecidableEq

/-! ### Bytes by kind, in the C locale -/

/-- The blanks of the C locale. -/
def isspace (c : UInt8) : Bool := c == 32 || (decide (9 ≤ c) && decide (c ≤ 13))

/-- A digit. -/
def isdigit (c : UInt8) : Bool := decide (48 ≤ c) && decide (c ≤ 57)

/-- A letter. -/
def isalpha (c : UInt8) : Bool :=
  (decide (65 ≤ c) && decide (c ≤ 90)) || (decide (97 ≤ c) && decide (c ≤ 122))

/-- A letter or a digit. -/
def isalnum (c : UInt8) : Bool := isalpha c || isdigit c

/-- A byte of a word, dots apart. -/
def isWord (c : UInt8) : Bool := isalnum c || c == 95

/-- Whether the text goes on with a byte of a kind. -/
def headIs (kind : UInt8 → Bool) (text : List UInt8) : Bool := text.head?.any kind

/-! ### Keywords -/

/-- One `case` of `classifyWord`: the folded first four bytes without their padding, the
length, the letters after the fourth, and the token. -/
structure Keyword where
  head : List UInt8
  length : Nat
  rest : List UInt8
  token : TokenType
  deriving DecidableEq

/-- The keywords: the first four bytes, the length, the rest and the token. -/
def keywords : List Keyword :=
  [⟨ascii "sele", 6, ascii "ct", .TOKEN_KEYWORD_SELECT⟩,
    ⟨ascii "from", 4, ascii "", .TOKEN_KEYWORD_FROM⟩,
    ⟨ascii "wher", 5, ascii "e", .TOKEN_KEYWORD_WHERE⟩,
    ⟨ascii "grou", 5, ascii "p", .TOKEN_KEYWORD_GROUP⟩,
    ⟨ascii "by", 2, ascii "", .TOKEN_KEYWORD_BY⟩,
    ⟨ascii "null", 4, ascii "", .TOKEN_KEYWORD_NULL⟩,
    ⟨ascii "is", 2, ascii "", .TOKEN_KEYWORD_IS⟩,
    ⟨ascii "not", 3, ascii "", .TOKEN_KEYWORD_NOT⟩,
    ⟨ascii "inde", 5, ascii "x", .TOKEN_KEYWORD_INDEX⟩,
    ⟨ascii "on", 2, ascii "", .TOKEN_KEYWORD_ON⟩,
    ⟨ascii "join", 4, ascii "", .TOKEN_KEYWORD_JOIN⟩,
    ⟨ascii "inne", 5, ascii "r", .TOKEN_KEYWORD_INNER⟩,
    ⟨ascii "as", 2, ascii "", .TOKEN_KEYWORD_AS⟩,
    ⟨ascii "begi", 5, ascii "n", .TOKEN_KEYWORD_BEGIN⟩,
    ⟨ascii "comm", 6, ascii "it", .TOKEN_KEYWORD_COMMIT⟩,
    ⟨ascii "roll", 8, ascii "back", .TOKEN_KEYWORD_ROLLBACK⟩,
    ⟨ascii "floa", 5, ascii "t", .TOKEN_KEYWORD_FLOAT⟩,
    ⟨ascii "date", 4, ascii "", .TOKEN_KEYWORD_DATE⟩,
    ⟨ascii "varc", 7, ascii "har", .TOKEN_KEYWORD_VARCHAR⟩,
    ⟨ascii "prim", 7, ascii "ary", .TOKEN_KEYWORD_PRIMARY⟩,
    ⟨ascii "key", 3, ascii "", .TOKEN_KEYWORD_KEY⟩,
    ⟨ascii "uniq", 6, ascii "ue", .TOKEN_KEYWORD_UNIQUE⟩,
    ⟨ascii "defa", 7, ascii "ult", .TOKEN_KEYWORD_DEFAULT⟩,
    ⟨ascii "chec", 5, ascii "k", .TOKEN_KEYWORD_CHECK⟩,
    ⟨ascii "alte", 5, ascii "r", .TOKEN_KEYWORD_ALTER⟩,
    ⟨ascii "add", 3, ascii "", .TOKEN_KEYWORD_ADD⟩,
    ⟨ascii "colu", 6, ascii "mn", .TOKEN_KEYWORD_COLUMN⟩,
    ⟨ascii "rena", 6, ascii "me", .TOKEN_KEYWORD_RENAME⟩,
    ⟨ascii "to", 2, ascii "", .TOKEN_KEYWORD_TO⟩,
    ⟨ascii "left", 4, ascii "", .TOKEN_KEYWORD_LEFT⟩,
    ⟨ascii "oute", 5, ascii "r", .TOKEN_KEYWORD_OUTER⟩,
    ⟨ascii "in", 2, ascii "", .TOKEN_KEYWORD_IN⟩,
    ⟨ascii "exis", 6, ascii "ts", .TOKEN_KEYWORD_EXISTS⟩,
    ⟨ascii "dele", 6, ascii "te", .TOKEN_KEYWORD_DELETE⟩,
    ⟨ascii "upda", 6, ascii "te", .TOKEN_KEYWORD_UPDATE⟩,
    ⟨ascii "set", 3, ascii "", .TOKEN_KEYWORD_SET⟩,
    ⟨ascii "vacu", 6, ascii "um", .TOKEN_KEYWORD_VACUUM⟩,
    ⟨ascii "orde", 5, ascii "r", .TOKEN_KEYWORD_ORDER⟩,
    ⟨ascii "asc", 3, ascii "", .TOKEN_KEYWORD_ASC⟩,
    ⟨ascii "desc", 4, ascii "", .TOKEN_KEYWORD_DESC⟩,
    ⟨ascii "like", 4, ascii "", .TOKEN_KEYWORD_LIKE⟩,
    ⟨ascii "and", 3, ascii "", .TOKEN_KEYWORD_AND⟩,
    ⟨ascii "or", 2, ascii "", .TOKEN_KEYWORD_OR⟩,
    ⟨ascii "limi", 5, ascii "t", .TOKEN_KEYWORD_LIMIT⟩,
    ⟨ascii "dist", 8, ascii "inct", .TOKEN_KEYWORD_DISTINCT⟩,
    ⟨ascii "havi", 6, ascii "ng", .TOKEN_KEYWORD_HAVING⟩,
    ⟨ascii "drop", 4, ascii "", .TOKEN_KEYWORD_DROP⟩,
    ⟨ascii "data", 8, ascii "base", .TOKEN_KEYWORD_DATABASE⟩,
    ⟨ascii "use", 3, ascii "", .TOKEN_KEYWORD_USE⟩,
    ⟨ascii "crea", 6, ascii "te", .TOKEN_KEYWORD_CREATE⟩,
    ⟨ascii "tabl", 5, ascii "e", .TOKEN_KEYWORD_TABLE⟩,
    ⟨ascii "inse", 6, ascii "rt", .TOKEN_KEYWORD_INSERT⟩,
    ⟨ascii "into", 4, ascii "", .TOKEN_KEYWORD_INTO⟩,
    ⟨ascii "valu", 6, ascii "es", .TOKEN_KEYWORD_VALUES⟩,
    ⟨ascii "int", 3, ascii "", .TOKEN_KEYWORD_INT⟩,
    ⟨ascii "text", 4, ascii "", .TOKEN_KEYWORD_TEXT⟩]

/-- Nothing in the table is longer. -/
def KEYWORD_MAX : Nat := 8

/-- `FOLD`: sets the bit that makes an ASCII letter a small one. -/
def fold (c : UInt8) : UInt8 := c ||| 0x20

/-- Four characters as the integer that a load of their four bytes makes. -/
def PACK_4 (c0 c1 c2 c3 : UInt8) : UInt32 :=
  c0.toUInt32 ||| c1.toUInt32 <<< 8 ||| c2.toUInt32 <<< 16 ||| c3.toUInt32 <<< 24

/-- What `classifyWord` switches on: the first four bytes of a word, zeroes where it is shorter,
packed into an integer and folded in one go. -/
def packedPrefix (word : List UInt8) : UInt32 :=
  PACK_4 (word.getD 0 0) (word.getD 1 0) (word.getD 2 0) (word.getD 3 0) ||| 0x20202020

/-- The label of a case: `PACK_4_LOWER` of its four characters. -/
def Keyword.label (keyword : Keyword) : UInt32 :=
  PACK_4 (fold (keyword.head.getD 0 0)) (fold (keyword.head.getD 1 0))
    (fold (keyword.head.getD 2 0)) (fold (keyword.head.getD 3 0))

/-- The first four bytes of a word, padded with zeroes and folded. -/
def prefixOf (word : List UInt8) : List UInt8 :=
  (word.take 4 ++ List.replicate (4 - word.length) 0).map fold

/-- A word is a keyword if it matches the table, an identifier otherwise. -/
def classifyWord (word : List UInt8) : TokenType :=
  if KEYWORD_MAX < word.length then .TOKEN_IDENTIFIER
  else
    match keywords.find? fun keyword => prefixOf keyword.head == prefixOf word with
    | none => .TOKEN_IDENTIFIER
    | some keyword =>
      if word.length = keyword.length
          ∧ (keyword.length ≤ 4 ∨ sameText (word.drop 4) keyword.rest) then keyword.token
      else .TOKEN_IDENTIFIER

/-! ### Readers -/

/-- The word at the front of a text, and what follows it. A dot belongs to the word when a
byte of a word comes after it. -/
def takeWord : List UInt8 → List UInt8 × List UInt8
  | [] => ([], [])
  | c :: rest =>
    if isWord c || (c == 46 && headIs isWord rest) then
      (c :: (takeWord rest).1, (takeWord rest).2)
    else ([], c :: rest)

/-- The number at the front of a text, with at most one dot between digits. -/
def takeNumber : Bool → List UInt8 → List UInt8 × List UInt8
  | _, [] => ([], [])
  | dot, c :: rest =>
    if isdigit c then (c :: (takeNumber dot rest).1, (takeNumber dot rest).2)
    else if c == 46 && !dot && headIs isdigit rest then
      (c :: (takeNumber true rest).1, (takeNumber true rest).2)
    else ([], c :: rest)

/-- Puts a byte in front of a string that was read. -/
def consText (c : UInt8) :
    Except ErrorCode (List UInt8 × List UInt8) → Except ErrorCode (List UInt8 × List UInt8)
  | .error code => .error code
  | .ok (text, rest) => .ok (c :: text, rest)

/-- Reads on in a quoted string of which `n` bytes are read, where `''` is one quote. -/
def readString : Nat → List UInt8 → Except ErrorCode (List UInt8 × List UInt8)
  | _, [] => .error .UNTERMINATED_STRING
  | n, 39 :: 39 :: rest =>
    -- refuse, never shorten
    if VALUE_LEN - 1 ≤ n then .error .TOKEN_TOO_LONG else consText 39 (readString (n + 1) rest)
  | _, 39 :: rest => .ok ([], rest)
  | n, c :: rest =>
    if VALUE_LEN - 1 ≤ n then .error .TOKEN_TOO_LONG else consText c (readString (n + 1) rest)

/-- The first `n` bytes of a text as a token. -/
def operatorOf (type : TokenType) (n : Nat) (text : List UInt8) :
    Except ErrorCode (Token × List UInt8) :=
  .ok (⟨type, text.take n⟩, text.drop n)

/-- A comparison operator, the two-byte forms first. -/
def readOperator (text : List UInt8) : Except ErrorCode (Token × List UInt8) :=
  if text.take 2 = ascii "<=" then operatorOf .TOKEN_OPERATOR_LTE 2 text
  else if text.take 2 = ascii ">=" then operatorOf .TOKEN_OPERATOR_GTE 2 text
  else if text.take 2 = ascii "<>" then operatorOf .TOKEN_OPERATOR_NE 2 text
  else if text.take 2 = ascii "!=" then operatorOf .TOKEN_OPERATOR_NE 2 text
  else if text.head? = some 60 then operatorOf .TOKEN_OPERATOR_LT 1 text
  else if text.head? = some 62 then operatorOf .TOKEN_OPERATOR_GT 1 text
  else if text.head? = some 61 then operatorOf .TOKEN_OPERATOR_EQ 1 text
  else .error .UNKNOWN_TOKEN    -- a lone !

/-- The tokens of one byte. -/
def symbolType (c : UInt8) : Option TokenType :=
  if c = 42 then some .TOKEN_STAR
  else if c = 44 then some .TOKEN_COMMA
  else if c = 40 then some .TOKEN_LPAREN
  else if c = 41 then some .TOKEN_RPAREN
  else if c = 59 then some .TOKEN_SEMICOLON
  else if c = 45 then some .TOKEN_MINUS
  else if c = 43 then some .TOKEN_PLUS
  else if c = 47 then some .TOKEN_SLASH
  else if c = 37 then some .TOKEN_PERCENT
  else none

/-! ### The loop -/

/-- What one turn of the loop comes to. -/
inductive Lexed
  /-- The end of the text, or a comment. -/
  | stop
  | skip (rest : List UInt8)
  | token (token : Token) (rest : List UInt8)
  | refuse (code : ErrorCode)

/-- A word or a number, unless it is longer than the buffer. -/
def lexedWord (type : List UInt8 → TokenType) (word : List UInt8 × List UInt8) : Lexed :=
  if VALUE_LEN ≤ word.1.length then .refuse .TOKEN_TOO_LONG
  else .token ⟨type word.1, word.1⟩ word.2

/-- One turn of the loop of `tokenizeStatement`. -/
def lexOne : List UInt8 → Lexed
  | [] => .stop
  | c :: rest =>
    if isspace c then .skip rest
    -- a comment, before the operator scan reads two minus signs
    else if c = 45 ∧ rest.head? = some 45 then .stop
    else if isalpha c || c == 95 then lexedWord classifyWord (takeWord (c :: rest))
    else if isdigit c then lexedWord (fun _ => .TOKEN_NUMBER) (takeNumber false (c :: rest))
    else if c = 39 then
      match readString 0 rest with
      | .error code => .refuse code
      | .ok (text, rest) => .token ⟨.TOKEN_STRING, text⟩ rest
    else if c = 60 ∨ c = 62 ∨ c = 61 ∨ c = 33 then
      match readOperator (c :: rest) with
      | .error code => .refuse code
      | .ok (token, rest) => .token token rest
    else
      match symbolType c with
      | none => .refuse .UNKNOWN_TOKEN
      | some type => .token ⟨type, [c]⟩ rest

/-- The loop of `tokenizeStatement`, with the tokens so far. -/
def tokenizeFrom : Nat → List UInt8 → List Token → Except ErrorCode (List Token)
  | 0, _, tokens => .ok tokens
  | fuel + 1, text, tokens =>
    match lexOne text with
    | .stop => .ok tokens
    | .skip rest => tokenizeFrom fuel rest tokens
    | .refuse code => .error code
    | .token token rest =>
      if tokens.length = MAX_TOKENS then .error .TOO_MANY_TOKENS
      else tokenizeFrom fuel rest (tokens ++ [token])

/-- Splits one statement into tokens. -/
def tokenizeStatement (sql : List UInt8) : Except ErrorCode (List Token) :=
  tokenizeFrom (sql.length + 1) sql []

/-! ### What the parser makes of the ends of the list -/

/-- The tokens that `parseStatement` knows a statement by. -/
def statementKeywords : List TokenType :=
  [.TOKEN_KEYWORD_SELECT, .TOKEN_KEYWORD_CREATE, .TOKEN_KEYWORD_INSERT, .TOKEN_KEYWORD_DELETE,
    .TOKEN_KEYWORD_UPDATE, .TOKEN_KEYWORD_VACUUM, .TOKEN_KEYWORD_USE, .TOKEN_KEYWORD_BEGIN,
    .TOKEN_KEYWORD_COMMIT, .TOKEN_KEYWORD_ROLLBACK, .TOKEN_KEYWORD_ALTER, .TOKEN_KEYWORD_DROP]

/-- Whether a token is a semicolon. -/
def Token.isSemicolon (token : Token) : Bool := decide (token.type = .TOKEN_SEMICOLON)

/-- The tokens without the one semicolon that `endOfStatement` skips. -/
def withoutSemicolon (tokens : List Token) : List Token :=
  if tokens.getLast?.any Token.isSemicolon then tokens.dropLast else tokens

/-- The tokens a statement is parsed from. A semicolon that is not the closing one is a token
too many, and a list that starts with none of the statements' keywords is no statement. Nothing
at all is nothing to do. -/
def statementTokens (tokens : List Token) : Except ErrorCode (List Token) :=
  match tokens with
  | [] => .ok []
  | first :: _ =>
    if first.type ∉ statementKeywords then .error .SYNTAX_INVALID_STATEMENT
    else if (withoutSemicolon tokens).any Token.isSemicolon then .error .SYNTAX_TRAILING_TOKENS
    else .ok (withoutSemicolon tokens)

end DatabaseEngine
