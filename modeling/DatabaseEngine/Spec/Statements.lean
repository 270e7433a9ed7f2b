import DatabaseEngine.Model.Wire

/-!
# `DatabaseEngine.Spec.Statements`: the statements of a text, as the lexer sees them

* `pieces`: the text without its comments, cut at the semicolons between its tokens.
* `allTokens`: the tokens of a text of any length, up to the error that ends them.
* `tokensBehindComments`: the same of a text with comments, by the lexer's own idea of a comment.
* `statementsRead`: the tokens of a text, cut at the semicolons among them.
-/

set_option autoImplicit false

namespace DatabaseEngine

/-! ### The bytes of a text -/

/-- The text with each comment removed up to the end of its line, from where a scan stands. -/
def withoutComments : Scan → List UInt8 → List UInt8
  | _, [] => []
  | .text, c :: rest => c :: withoutComments (if c = 39 then .plain else .text) rest
  | .comment, c :: rest =>
    if c = 10 then c :: withoutComments .plain rest else withoutComments .comment rest
  | .plain, c :: rest =>
    if c = 45 ∧ rest.head? = some 45 then withoutComments .comment rest
    else c :: withoutComments (if c = 39 then .text else .plain) rest

/-- A text cut at each semicolon outside of strings. The flag is whether it starts in one. -/
def cutBytes : Bool → List UInt8 → List (List UInt8)
  | _, [] => [[]]
  | q, c :: rest =>
    if q = false ∧ c = 59 then [] :: cutBytes false rest
    else (cutBytes (if c = 39 then !q else q) rest).modifyHead (c :: ·)

/-- What stands between the semicolons of a text, without the comments. -/
def pieces (text : List UInt8) : List (List UInt8) :=
  cutBytes false (withoutComments .plain text)

/-- A piece of blanks. -/
def isBlank (piece : List UInt8) : Bool := piece.all isspace

/-! ### The tokens of a text -/

/-- The tokens of a text, and the error that the lexer stops at. With `behind`, the lexer goes
on with the line after a comment. -/
def tokensFrom (behind : Bool) : Nat → List UInt8 → List Token × Option ErrorCode
  | 0, _ => ([], none)
  | fuel + 1, text =>
    match lexOne text with
    | .stop => if behind then tokensFrom behind fuel (text.dropWhile (· ≠ 10)) else ([], none)
    | .skip rest => tokensFrom behind fuel rest
    | .refuse code => ([], some code)
    | .token t rest =>
      (t :: (tokensFrom behind fuel rest).1, (tokensFrom behind fuel rest).2)

/-- What the lexer makes of a text, however many tokens there are. -/
def allTokens (text : List UInt8) : List Token × Option ErrorCode :=
  tokensFrom false (text.length + 1) text

/-- What it makes of a text when each comment ends with its line. -/
def tokensBehindComments (text : List UInt8) : List Token × Option ErrorCode :=
  tokensFrom true (text.length + 1) text

/-- What becomes of a statement of these tokens that ends with an error, or without one. -/
def tokenised (tokens : List Token) (error : Option ErrorCode) : Except ErrorCode (List Token) :=
  if MAX_TOKENS < tokens.length then .error .TOO_MANY_TOKENS
  else
    match error with
    | none => .ok tokens
    | some code => .error code

/-- Statement by statement: an error ends the last one. -/
def withError (error : Option ErrorCode) :
    List (List Token) → List (List Token × Option ErrorCode)
  | [] => []
  | [last] => [(last, error)]
  | first :: rest => (first, none) :: withError error rest

/-- What the statements of a text are tokenised to: the tokens of the text, cut at the
semicolons among them, of which nothing between two is no statement. -/
def statementsRead (text : List Token × Option ErrorCode) : List (Except ErrorCode (List Token)) :=
  ((withError text.2 (text.1.splitOnP Token.isSemicolon)).filter
    fun statement => statement ≠ ([], none)).map fun statement =>
      tokenised statement.1 statement.2

end DatabaseEngine
