import DatabaseEngine.Proofs.Parser.Printing
import DatabaseEngine.Proofs.Semantic.Operands
import DatabaseEngine.Spec.Numbers

/-!
# `DatabaseEngine.Proofs.Parser.Numbers`: what a number means beside a column

`VALUES` and `DEFAULT` read a number with its sign and fit the whole to the column: `fittedValue`.
A comparison and a `SET` read an expression, so that a sign is a node of its own over a literal
without one: `signedLater`. The two differ for the smallest integer, whose digits alone are out of
range, and for a negative integer beside a float column, which is no literal that could be fitted.

* `meaning_eq`: what each position makes of a number, as one of the two.
* `meaning_iff`: the numbers and the types of column for which all positions agree.
-/

set_option autoImplicit false

namespace DatabaseEngine

/-! ### The two readings -/

/-- The number with its sign, fitted to the column. -/
def fittedValue (type : ColType) (negative : Bool) (digits : List UInt8) :
    Except ErrorCode Value := do
  let value ← numberValue digits negative
  coerceLiteral value type

/-- What the check of a clause leaves of a number on the right: fitted where it stands alone,
negated where a sign stands before it and the column has its type. -/
def besideColumn (type : ColType) (negative : Bool) (value : Value) : Except ErrorCode Value :=
  if !negative then coerceLiteral value type
  else if value.type = type then negate value
  else .error .SEMANTIC_TYPE_MISMATCH

/-- The number without its sign, and what is left of it. -/
def signedLater (type : ColType) (negative : Bool) (digits : List UInt8) :
    Except ErrorCode Value := do
  let value ← numberValue digits false
  besideColumn type negative value

/-- A number has the type that its dot says, and is not NULL. -/
theorem numberValue_type {digits : List UInt8} {negative : Bool} {value : Value}
    (h : numberValue digits negative = .ok value) :
    value.type = if 46 ∈ digits then .TYPE_FLOAT else .TYPE_INT := by
  unfold numberValue at h
  by_cases hdot : 46 ∈ digits
  · rw [if_pos hdot] at h ⊢
    split at h
    · exact absurd h (by simp)
    · rw [← Except.ok.inj h]
      rfl
  · rw [if_neg hdot] at h ⊢
    simp only at h
    generalize (if negative = true then -(strtoll digits : Int) else strtoll digits) = n at h
    split at h
    · exact absurd h (by simp)
    · rw [← Except.ok.inj h]
      rfl

/-! ### VALUES and DEFAULT -/

section
variable {negative : Bool} {digits : List UInt8} {rest : List Token}

/-- A literal with its sign is read as its value. -/
theorem parseValue_signed :
    parseValue (numberTokens negative digits ++ rest) =
      (numberValue digits negative).map fun value => (value, rest) := by
  cases negative <;> rfl

end

/-- Where no operator follows, an expression ends. -/
theorem Apart.ends {tokens : List Token} (h : Apart tokens) : Ends tokens := by
  unfold Apart at h
  unfold Ends sumOperator termOperator
  constructor <;> split <;> simp_all

namespace Place
variable {type : ColType} (p : Place type) (negative : Bool) (digits : List UInt8)

/-- In an IN list a number is its value. -/
theorem listedValue_eq :
    p.listedValue (numberTokens negative digits) = numberValue digits negative := by
  have hfull : p.values.length ≠ MAX_COLS := fun h => absurd p.fewValues (by omega)
  have hcomma : typeAt p.behind 0 ≠ .TOKEN_COMMA := fun h => p.apart (by rw [h]; simp)
  show (parseValues (4 * _ + 7 + 1) p.values _).bind _ = _
  rw [parseValues, if_neg hfull, parseValue_signed]
  cases hvalue : numberValue digits negative with
  | error code => rfl
  | ok value =>
    simp only [Except.map, if_pos hcomma]
    show Except.ok ((p.values ++ [value]).getLastD zeroValue) = _
    simp

/-- In VALUES a number is fitted to the column. -/
theorem inValues_eq :
    p.inValues (numberTokens negative digits) = fittedValue type negative digits := by
  unfold inValues fittedValue
  rw [listedValue_eq]
  cases numberValue digits negative with
  | error code => rfl
  | ok value =>
    show (coerceAll [p.made] [value]).bind _ = coerceLiteral value type
    simp only [coerceAll, p.madeType]
    cases coerceLiteral value type <;> rfl

/-- In VALUES behind a column list it is fitted just so. -/
theorem inListedValues_eq :
    p.inListedValues (numberTokens negative digits) = fittedValue type negative digits := by
  unfold inListedValues fittedValue
  rw [listedValue_eq]
  cases numberValue digits negative with
  | error code => rfl
  | ok value =>
    show (coerceListed p.table [Name.ofBytes p.column] [value] []).bind _ = coerceLiteral value type
    unfold coerceListed
    rw [p.found]
    show (if p.slot ∈ [] then _ else _ : Except ErrorCode _).bind _ = _
    rw [if_neg (by simp), p.typed]
    cases coerceLiteral value type <;> rfl

/-- A DEFAULT among the constraints of a column. -/
theorem parseColumnConstraints_default (subquery : SubqueryRead) (fuel : Nat) (rest : List Token)
    (read : ColumnRead) :
    parseColumnConstraints subquery (fuel + 1)
        (⟨.TOKEN_KEYWORD_DEFAULT, ascii "default"⟩ :: rest) read =
      match parseValue rest with
      | .error code => .error code
      | .ok (value, rest) =>
        parseColumnConstraints subquery fuel rest
          { read with column := { read.column with hasDefault := true, defaultValue := value } } := by
  rw [parseColumnConstraints]
  rfl

/-- A DEFAULT is read with its sign, and ends the constraints. -/
theorem constrained_eq :
    p.constrained (numberTokens negative digits) = (numberValue digits negative).map fun value =>
      { p.made with hasDefault := true, defaultValue := value } := by
  have hstop : ∀ fuel (read : ColumnRead),
      parseColumnConstraints parseSubquery (fuel + 1) p.behind read = .ok (read, p.behind) := by
    intro fuel read
    have hapart := p.apart
    unfold Apart at hapart
    rw [parseColumnConstraints]
    split <;> simp_all
  show (parseColumnConstraints parseSubquery (4 * _ + 6 + 1 + 1) _ _).bind _ = _
  rw [parseColumnConstraints_default, parseValue_signed]
  cases numberValue digits negative with
  | error code => rfl
  | ok value =>
    simp only [Except.map, hstop]
    rfl

/-- As a default it is fitted just so. -/
theorem asDefault_eq :
    p.asDefault (numberTokens negative digits) = fittedValue type negative digits := by
  unfold asDefault fittedValue
  rw [constrained_eq]
  cases hvalue : numberValue digits negative with
  | error code => rfl
  | ok value =>
    have hnull := numberValue_isNull hvalue
    show (checkDefault { p.made with hasDefault := true, defaultValue := value }).bind _ =
      coerceLiteral value type
    unfold checkDefault
    simp only [Bool.not_true, Bool.false_eq_true, if_false, p.madeType]
    cases hfit : coerceLiteral value type with
    | error code => rfl
    | ok fitted =>
      have hfitted : fitted.isNull = false := (coerceLiteral_ok hfit).2.1.trans hnull
      simp only [hfitted, Bool.false_and, Bool.false_eq_true, if_false]
      rfl

/-- As the default of an added column it is fitted just so. -/
theorem asAddedDefault_eq :
    p.asAddedDefault (numberTokens negative digits) = fittedValue type negative digits := by
  unfold asAddedDefault fittedValue
  rw [constrained_eq]
  cases hvalue : numberValue digits negative with
  | error code => rfl
  | ok value =>
    obtain ⟨table, htable⟩ := Option.isSome_iff_exists.mp p.stands
    show (checkAlter p.db (AlterStatement.mk p.altered (.ALTER_ADD_COLUMN
      { p.made with hasDefault := true, defaultValue := value }))).bind _ = coerceLiteral value type
    unfold checkAlter
    simp only [htable, p.addable.1, p.addable.2, Bool.or_self, Bool.false_eq_true, if_false,
      Bool.not_true, Bool.and_false, Bool.false_and, if_true, p.madeType]
    cases coerceLiteral value type <;> rfl

end Place

/-! ### A number as an expression -/

/-- A number stands in a pool: a literal, or a negation of one. -/
inductive NumberAt (pool : ExprPool) : Int32 → Bool → Value → Prop
  | literal {i : Int32} {n : ExprNode} (h : pool.node i = some n) (hkind : n.kind = .EXPR_LITERAL) :
      NumberAt pool i false n.literal
  | negated {i : Int32} {n : ExprNode} {value : Value} (h : pool.node i = some n)
      (hkind : n.kind = .EXPR_NEGATE) (hinner : NumberAt pool n.left false value) :
      NumberAt pool i true value

/-- The nodes that a number takes, behind those of a pool. -/
def numberNodes (pool : ExprPool) (negative : Bool) (value : Value) : ExprPool :=
  if negative then [literalExpr value, negateNode (Int32.ofNat pool.length)]
  else [literalExpr value]

/-- A factor that is a numeral adds its literal. -/
theorem factor_number {digits : List UInt8} {fuel : Nat} {rest : List Token} {pool : ExprPool}
    (hroom : pool.length < MAX_EXPR_NODES) :
    parseFactorFrom (fuel + 1) (⟨.TOKEN_NUMBER, digits⟩ :: rest) pool =
      (numberValue digits false).map fun value =>
        (Int32.ofNat pool.length, rest, pool ++ [literalExpr value]) := by
  have hread : parseValue (⟨.TOKEN_NUMBER, digits⟩ :: rest) =
      (numberValue digits false).map fun value => (value, rest) := rfl
  cases hvalue : numberValue digits false with
  | error code =>
    rw [hvalue] at hread
    rw [parseFactorFrom, typeAt_cons]
    simp only [exprNew_ok hroom, hread]
    rfl
  | ok value =>
    refine ExprTree.literal_factor (.inl rfl) (fun rest => ?_) hroom
    show (numberValue digits false).map (fun value => (value, rest)) = _
    rw [hvalue]
    rfl

/-- An expression of one factor is read as the factor is. -/
theorem parseExpression_factor {tokens : List Token} {pool : ExprPool} {answer : ExprRead}
    (hfactor : ∀ fuel, parseFactorFrom (fuel + 2) tokens pool = answer)
    (hends : ∀ i rest pool', answer = .ok (i, rest, pool') → Ends rest) :
    parseExpression tokens pool = answer := by
  show parseExpressionFrom (4 * _ + 3 + 1 + 1 + 1 + 1 + 1) _ pool = _
  rw [parseExpressionFrom, parseTermFrom, hfactor]
  cases hanswer : answer with
  | error code => rfl
  | ok read =>
    obtain ⟨i, rest, pool'⟩ := read
    have hrest := hends _ _ _ hanswer
    simp only
    rw [termLoop_stop (by omega) hrest.2]
    simp only
    rw [sumLoop_stop (by omega) hrest.1]

/-- An expression that is a name adds its column. -/
theorem parseExpression_name {word : List UInt8} {rest : List Token} {pool : ExprPool}
    (hroom : pool.length < MAX_EXPR_NODES) (hrest : Ends rest) :
    parseExpression (⟨.TOKEN_IDENTIFIER, word⟩ :: rest) pool =
      .ok (Int32.ofNat pool.length, rest, pool ++ [columnNode word]) := by
  refine parseExpression_factor (fun fuel => ?_) fun i rest' pool' h => ?_
  · show addNode (columnNode word) rest pool = _
    unfold addNode
    rw [exprNew_ok hroom]
    rfl
  · have hsame : rest = rest' := congrArg (fun read => read.2.1) (Except.ok.inj h)
    rw [← hsame]
    exact hrest

/-- The reader of expressions finds the digits first, and puts the sign above them. -/
theorem parseExpression_number {negative : Bool} {digits : List UInt8} {rest : List Token}
    {pool : ExprPool} (hroom : pool.length + 2 ≤ MAX_EXPR_NODES) (hrest : Ends rest) :
    parseExpression (numberTokens negative digits ++ rest) pool =
      (numberValue digits false).map fun value =>
        (Int32.ofNat (pool.length + negative.toNat), rest,
          pool ++ numberNodes pool negative value) := by
  refine parseExpression_factor (fun fuel => ?_) fun i rest' pool' h => ?_
  · cases negative with
    | false => exact factor_number (by omega)
    | true =>
      show parseFactorFrom (fuel + 2) (minusToken :: ⟨.TOKEN_NUMBER, digits⟩ :: rest) pool = _
      rw [ExprTree.parseFactorFrom_minus, factor_number (by omega)]
      cases numberValue digits false with
      | error code => rfl
      | ok value =>
        show addNode (negateNode (Int32.ofNat pool.length)) rest (pool ++ [literalExpr value]) = _
        unfold addNode
        rw [exprNew_ok (by rw [List.length_append, List.length_singleton]; omega),
          List.append_assoc, List.length_append]
        rfl
  · cases hvalue : numberValue digits false with
    | error code =>
      rw [hvalue] at h
      exact absurd h (by simp [Except.map])
    | ok value =>
      rw [hvalue] at h
      have hsame : rest = rest' := congrArg (fun read => read.2.1) (Except.ok.inj h)
      rw [← hsame]
      exact hrest

namespace NumberAt
variable {pool : ExprPool} {i : Int32} {negative : Bool} {value : Value}

/-- What is put behind a pool, and what is put behind that. -/
theorem of_nodes (hroom : pool.length + 2 ≤ MAX_EXPR_NODES) :
    NumberAt (pool ++ numberNodes pool negative value)
      (Int32.ofNat (pool.length + negative.toNat)) negative value := by
  cases negative with
  | false =>
    have hnode := @node_append pool (literalExpr value) (by omega) []
    rw [List.append_nil] at hnode
    exact .literal hnode rfl
  | true =>
    have hnodes : pool ++ numberNodes pool true value =
        (pool ++ [literalExpr value]) ++ [negateNode (Int32.ofNat pool.length)] := by
      rw [List.append_assoc]
      rfl
    have hlength : pool.length + true.toNat = (pool ++ [literalExpr value]).length := by
      rw [List.length_append]
      rfl
    have houter := @node_append (pool ++ [literalExpr value])
      (negateNode (Int32.ofNat pool.length)) (by rw [← hlength]; show pool.length + 1 < _; omega) []
    rw [List.append_nil] at houter
    rw [hnodes, hlength]
    refine .negated houter rfl ?_
    show NumberAt _ (Int32.ofNat pool.length) false value
    exact @literal _ _ (literalExpr value) (node_append (by omega) _) rfl

/-- A node of another kind, written over, is none of the number's. -/
theorem set (h : NumberAt pool i negative value) {j : Int32} {m m' : ExprNode}
    (hj : pool.node j = some m) (hkind : m.kind = .EXPR_COLUMN) :
    NumberAt (pool.setNode j m') i negative value := by
  induction h with
  | @literal i n hn hnkind =>
    refine .literal ?_ hnkind
    rw [node_setNode m' hj, if_neg]
    · exact hn
    · rintro rfl
      rw [hj] at hn
      rw [← Option.some.inj hn, hkind] at hnkind
      exact absurd hnkind (by decide)
  | @negated i n value hn hnkind _ ih =>
    refine .negated ?_ hnkind ih
    rw [node_setNode m' hj, if_neg]
    · exact hn
    · rintro rfl
      rw [hj] at hn
      rw [← Option.some.inj hn, hkind] at hnkind
      exact absurd hnkind (by decide)

/-- A number with its sign evaluates to its value, negated where there is a minus. -/
theorem evaluate (h : NumberAt pool i negative value) (row : Row) :
    exprEvaluate pool i row = if negative then negate value else .ok value := by
  cases h with
  | literal hn hkind =>
    unfold exprEvaluate exprEvaluateFrom
    simp only [hn, hkind]
    rfl
  | negated hn hkind hinner =>
    cases hinner with
    | literal hm hmkind =>
      have hpos : 0 < pool.length := by
        have := (List.getElem?_eq_some_iff.mp (node_some hn).2).1
        omega
      obtain ⟨fuel, hfuel⟩ : ∃ n, pool.length = n + 1 := ⟨pool.length - 1, by omega⟩
      unfold exprEvaluate
      rw [hfuel, exprEvaluateFrom]
      simp only [hn, hkind]
      rw [exprEvaluateFrom]
      simp only [hm, hmkind]
      rfl

/-- Binding a number writes the type of its literal, and the tree has that type. -/
theorem resolve (h : NumberAt pool i negative value) (hnumber : value.type.isNumber = true)
    (table : CatalogNode) :
    ∃ j n m, pool.node j = some n ∧ n.kind = .EXPR_LITERAL ∧
      exprResolve table pool i = (.ok (), pool.setNode j m) ∧
      NumberAt (pool.setNode j m) i negative value ∧
      exprType (pool.setNode j m) i = .ok value.type := by
  cases h with
  | @literal i n hn hkind =>
    have hn' : (pool.setNode i { n with type := n.literal.type }).node i =
        some { n with type := n.literal.type } := by
      rw [node_setNode _ hn, if_pos rfl]
    refine ⟨i, n, { n with type := n.literal.type }, hn, hkind, ?_, ?_, ?_⟩
    · unfold exprResolve exprResolveFrom
      simp only [hn, hkind]
    · exact @literal _ _ { n with type := n.literal.type } hn' hkind
    · unfold exprType exprTypeFrom
      rw [hn']
      simp only [hkind]
  | @negated i n _ hn hkind hinner =>
    cases hinner with
    | @literal j m hm hmkind =>
      have hpos : 0 < pool.length := by
        have := (List.getElem?_eq_some_iff.mp (node_some hn).2).1
        omega
      obtain ⟨fuel, hfuel⟩ : ∃ n, pool.length = n + 1 := ⟨pool.length - 1, by omega⟩
      have hother : i ≠ n.left := by
        intro h
        rw [← h, hn] at hm
        rw [← Option.some.inj hm, hkind] at hmkind
        exact absurd hmkind (by decide)
      have hn' : (pool.setNode n.left { m with type := m.literal.type }).node i = some n := by
        rw [node_setNode _ hm, if_neg hother, hn]
      have hm' : (pool.setNode n.left { m with type := m.literal.type }).node n.left =
          some { m with type := m.literal.type } := by
        rw [node_setNode _ hm, if_pos rfl]
      refine ⟨n.left, m, { m with type := m.literal.type }, hm, hmkind, ?_, ?_, ?_⟩
      · unfold exprResolve
        rw [hfuel, exprResolveFrom]
        simp only [hn, hkind]
        rw [exprResolveFrom]
        simp only [hm, hmkind]
      · exact .negated hn' hkind (@literal _ _ { m with type := m.literal.type } hm' hmkind)
      · unfold exprType
        rw [length_setNode, hfuel, exprTypeFrom, hn']
        simp only [hkind]
        rw [exprTypeFrom, hm']
        simp only [hmkind]
        show (if m.literal.type.isNumber = true then Except.ok m.literal.type else _) = _
        rw [if_pos hnumber]

/-- Only a number without a sign is a literal of its own. -/
theorem exprLiteral_eq (h : NumberAt pool i negative value) :
    exprLiteral pool i = if negative then none else some value := by
  cases h with
  | literal hn hkind =>
    unfold exprLiteral
    rw [hn]
    exact if_pos hkind
  | negated hn hkind _ =>
    unfold exprLiteral
    rw [hn]
    exact if_neg (by rw [hkind]; decide)

/-- A number without a sign is fitted in its place. -/
theorem coerceAt_eq (h : NumberAt pool i false value) (type : ColType) :
    ∃ n, pool.node i = some n ∧ n.kind = .EXPR_LITERAL ∧
      coerceAt pool i type = (coerceLiteral value type).map (fun fitted =>
        pool.setNode i { n with literal := fitted }) ∧
      ∀ fitted, NumberAt (pool.setNode i { n with literal := fitted }) i false fitted := by
  cases h with
  | @literal i n hn hkind =>
    refine ⟨n, hn, hkind, ?_, fun fitted => ?_⟩
    · unfold coerceAt
      rw [hn]
      simp only
      cases coerceLiteral n.literal type <;> rfl
    · refine @literal _ _ { n with literal := fitted } ?_ hkind
      rw [node_setNode _ hn, if_pos rfl]

end NumberAt

/-! ### Comparisons and assignments -/

/-- A column's name stands in a pool. -/
structure ColumnAt (table : CatalogNode) (slot : Nat) (pool : ExprPool) (i : Int32) : Prop where
  node : ∃ n, pool.node i = some n ∧ n.kind = .EXPR_COLUMN ∧
    findColumn table n.column.1 = (slot : Int)

namespace ColumnAt
variable {table : CatalogNode} {slot : Nat} {pool : ExprPool} {i : Int32}

/-- Binding a column changes its own node only. -/
theorem resolve (h : ColumnAt table slot pool i) :
    ∃ n m, pool.node i = some n ∧ n.kind = .EXPR_COLUMN ∧
      exprResolve table pool i = (.ok (), pool.setNode i m) ∧
      ColumnAt table slot (pool.setNode i m) i ∧
      exprType (pool.setNode i m) i = .ok (table.columnType slot) := by
  obtain ⟨n, hn, hkind, hfound⟩ := h.node
  have hambiguous : ¬(slot : Int) = COLUMN_AMBIGUOUS := by
    unfold COLUMN_AMBIGUOUS
    omega
  refine ⟨n, { n with slot := (slot : Int), type := table.columnType slot }, hn, hkind, ?_, ?_, ?_⟩
  · unfold exprResolve exprResolveFrom
    simp only [hn, hkind, hfound, if_neg hambiguous]
    rw [if_neg (by omega)]
    rfl
  · exact ⟨{ n with slot := (slot : Int), type := table.columnType slot },
      by rw [node_setNode _ hn, if_pos rfl], hkind, hfound⟩
  · unfold exprType exprTypeFrom
    rw [node_setNode _ hn, if_pos rfl]
    simp only [hkind]

/-- A literal written over is none of the column's. -/
theorem set (h : ColumnAt table slot pool i) {j : Int32} {m m' : ExprNode}
    (hj : pool.node j = some m) (hkind : m.kind = .EXPR_LITERAL) :
    ColumnAt table slot (pool.setNode j m') i := by
  obtain ⟨n, hn, hnkind, hfound⟩ := h.node
  refine ⟨n, ?_, hnkind, hfound⟩
  rw [node_setNode m' hj, if_neg]
  · exact hn
  · rintro rfl
    rw [hj] at hn
    rw [← Option.some.inj hn, hkind] at hnkind
    exact absurd hnkind (by decide)

end ColumnAt

/-- A number of the column's type is compared as it is. -/
theorem besideColumn_same {type : ColType} {negative : Bool} {value : Value}
    (hnull : value.isNull = false) (htype : value.type = type) :
    besideColumn type negative value = if negative then negate value else .ok value := by
  unfold besideColumn
  cases negative with
  | true => exact if_pos htype
  | false =>
    show coerceLiteral value type = .ok value
    unfold coerceLiteral
    simp only [hnull, Bool.false_eq_true, if_false, if_pos htype]

/-- A number with a minus is not fitted to a column of another type. -/
theorem besideColumn_signed {type : ColType} {value : Value} (htype : value.type ≠ type) :
    besideColumn type true value = .error .SEMANTIC_TYPE_MISMATCH := if_neg htype

/-- A number is fitted to a number or not at all. -/
theorem coerceLiteral_number {value fitted : Value} {type : ColType}
    (h : coerceLiteral value type = .ok fitted) (hnull : value.isNull = false)
    (hnumber : value.type.isNumber = true) : fitted.type.isNumber = true := by
  obtain ⟨htype, -, hways⟩ := coerceLiteral_ok h
  rw [htype]
  rcases hways hnull with hsame | ⟨hfloat, -⟩ | ⟨-, htext⟩
  · rw [← hsame]
    exact hnumber
  · rw [hfloat]
    rfl
  · rw [htext] at hnumber
    exact absurd hnumber (by decide)

section
variable {table : CatalogNode} {slot : Nat} {pool : ExprPool} {negative : Bool} {value : Value}

/-- A side that is fitted and bound once more evaluates to the fitted literal. -/
theorem fitted_evaluate {i : Int32} {fitted : Value} (h : NumberAt pool i false fitted)
    (hnumber : fitted.type.isNumber = true) (row : Row) :
    exprEvaluate (exprResolve table pool i).2 i row = .ok fitted := by
  obtain ⟨j, n, m, -, -, hresolve, hat, -⟩ := h.resolve hnumber table
  rw [hresolve]
  exact hat.evaluate row

/-- Beside a column a number is fitted to its type or refused. -/
theorem agreeSides_number {compare : Predicate} (hcolumn : ColumnAt table slot pool compare.left)
    (hnumber : NumberAt pool compare.right negative value) (hnull : value.isNull = false)
    (htype : value.type.isNumber = true) (row : Row) :
    (agreeSides table pool compare (table.columnType slot) value.type).bind
        (fun exprs => exprEvaluate exprs compare.right row) =
      besideColumn (table.columnType slot) negative value := by
  unfold agreeSides
  by_cases hsame : table.columnType slot = value.type
  · rw [if_pos hsame, besideColumn_same hnull hsame.symm]
    exact hnumber.evaluate row
  · have hother : value.type ≠ table.columnType slot := fun h => hsame h.symm
    rw [if_neg hsame, hnumber.exprLiteral_eq]
    cases negative with
    | true =>
      obtain ⟨n, hn, hkind, -⟩ := hcolumn.node
      have hleft : exprLiteral pool compare.left = none := by
        unfold exprLiteral
        rw [hn]
        exact if_neg (by rw [hkind]; decide)
      rw [hleft, besideColumn_signed hother]
      rfl
    | false =>
      obtain ⟨n, hn, hkind, hcoerce, hfitted⟩ := hnumber.coerceAt_eq (table.columnType slot)
      show _ = coerceLiteral value (table.columnType slot)
      simp only [Bool.false_eq_true, if_false, Option.isSome_some, if_true, hcoerce]
      cases hfit : coerceLiteral value (table.columnType slot) with
      | error code => rfl
      | ok fitted =>
        have hcolumn' := @ColumnAt.set _ _ _ _ hcolumn _ _ { n with literal := fitted } hn hkind
        obtain ⟨m, m', hm, hmkind, hresolve, -⟩ := hcolumn'.resolve
        show exprEvaluate (exprResolve table (exprResolve table _ compare.left).2 compare.right).2
          compare.right row = _
        rw [hresolve]
        exact fitted_evaluate ((hfitted fitted).set hm hmkind)
          (coerceLiteral_number hfit hnull htype) row

/-- So it is in a comparison. -/
theorem checkPredicate_number {subqueries : List Subquery} {relation : Relation}
    {compare : Predicate} (hop : compare.op = relation.op) (hsub : compare.subquery = -1)
    (hcolumn : ColumnAt table slot pool compare.left)
    (hnumber : NumberAt pool compare.right negative value) (hnull : value.isNull = false)
    (htype : value.type.isNumber = true) (row : Row) :
    (checkPredicate subqueries table pool compare).bind
        (fun exprs => exprEvaluate exprs compare.right row) =
      besideColumn (table.columnType slot) negative value := by
  have hplain : compare.op ≠ .OP_EXISTS ∧
      ¬(compare.op = .OP_IS_NULL ∨ compare.op = .OP_IS_NOT_NULL) ∧
      ¬(compare.op = .OP_IN ∨ 0 ≤ compare.subquery) ∧
      ¬(compare.op = .OP_LIKE ∨ compare.op = .OP_NOT_LIKE) := by
    rw [hop, hsub]
    cases relation <;> decide
  -- the column is bound first, and then the number
  obtain ⟨n, m, hn, hkind, hresolve, hcolumn', hexpr⟩ := hcolumn.resolve
  obtain ⟨j, k, k', hk, hkkind, hresolve', hnumber', hexpr'⟩ :=
    (@NumberAt.set _ _ _ _ hnumber _ _ m hn hkind).resolve htype table
  have hleft : resolveType table pool compare.left =
      .ok (table.columnType slot, pool.setNode compare.left m) := by
    unfold resolveType
    rw [hresolve]
    simp only [hexpr]
  have hright : resolveType table (pool.setNode compare.left m) compare.right =
      .ok (value.type, (pool.setNode compare.left m).setNode j k') := by
    unfold resolveType
    rw [hresolve']
    simp only [hexpr']
  unfold checkPredicate
  rw [if_neg hplain.1, hleft]
  simp only [if_neg hplain.2.1, if_neg hplain.2.2.1, if_neg hplain.2.2.2, hright]
  exact agreeSides_number (hcolumn'.set hk hkkind) hnumber' hnull htype row

/-- So it is in the SET of an UPDATE. -/
theorem checkSets_number {set : Assignment} (hfound : findColumn table set.column.1 = (slot : Int))
    (hnumber : NumberAt pool set.expr negative value) (hnull : value.isNull = false)
    (htype : value.type.isNumber = true) (row : Row) :
    (checkSets table [set] pool).bind (fun exprs => exprEvaluate exprs set.expr row) =
      besideColumn (table.columnType slot) negative value := by
  obtain ⟨j, n, m, -, -, hresolve, hat, hexpr⟩ := hnumber.resolve htype table
  have hresolved : resolveType table pool set.expr = .ok (value.type, pool.setNode j m) := by
    unfold resolveType
    rw [hresolve]
    simp only [hexpr]
  generalize pool.setNode j m = bound at hat hresolved
  have hslot : findColumn table set.column.1 = .ofNat slot := hfound
  unfold checkSets
  simp only [hslot, hresolved, List.any_nil, Bool.false_eq_true, if_false, checkSets]
  by_cases hsame : value.type = table.columnType slot
  · rw [if_pos hsame, besideColumn_same hnull hsame]
    exact hat.evaluate row
  · rw [if_neg hsame, hat.exprLiteral_eq]
    cases negative with
    | true =>
      rw [besideColumn_signed hsame]
      rfl
    | false =>
      obtain ⟨n, -, -, hcoerce, hfitted⟩ := hat.coerceAt_eq (table.columnType slot)
      rw [hcoerce]
      show _ = coerceLiteral value (table.columnType slot)
      cases hfit : coerceLiteral value (table.columnType slot) with
      | error code => rfl
      | ok fitted =>
        exact fitted_evaluate (hfitted fitted) (coerceLiteral_number hfit hnull htype) row

end

namespace Place
variable {type : ColType} (p : Place type) (negative : Bool) (digits : List UInt8)

/-- A SET of the column, up to what it is given. -/
theorem parseSets_name (fuel : Nat) (rest : List Token) :
    parseSets (fuel + 1) p.sets (p.name :: Relation.eq.token :: rest) p.exprs =
      if p.sets.length = MAX_COLS then .error .SYNTAX_TOO_MANY_COLUMNS
      else
        match parseExpression rest p.exprs with
        | .error code => .error code
        | .ok (expr, rest, pool) =>
          let sets := p.sets ++ [{ column := Name.ofBytes p.column, expr := expr }]
          if typeAt rest 0 ≠ .TOKEN_COMMA then .ok (sets, rest, pool)
          else parseSets fuel sets (rest.drop 1) pool := by
  rw [parseSets]
  rfl

/-- In a SET a number is read without its sign, which is applied to what was read. -/
theorem assigned_eq :
    p.assigned (numberTokens negative digits) = signedLater type negative digits := by
  have hfull : p.sets.length ≠ MAX_COLS := fun h => absurd p.fewSets (by omega)
  have hcomma : typeAt p.behind 0 ≠ .TOKEN_COMMA := fun h => p.apart (by rw [h]; simp)
  show (parseSets (4 * _ + 7 + 1) p.sets _ p.exprs).bind _ = _
  rw [parseSets_name, if_neg hfull, parseExpression_number p.fewExprs p.apart.ends]
  unfold signedLater
  cases hvalue : numberValue digits false with
  | error code => rfl
  | ok value =>
    have hnumber : value.type.isNumber = true := by
      rw [numberValue_type hvalue]
      split <;> rfl
    simp only [Except.map, if_pos hcomma, Except.bind, List.getLast?_concat]
    show _ = besideColumn type negative value
    have hset := @checkSets_number p.table p.slot _ negative value
      ⟨Name.ofBytes p.column, Int32.ofNat (p.exprs.length + negative.toNat)⟩ p.found
      (.of_nodes p.fewExprs) (numberValue_isNull hvalue) hnumber p.row
    rw [p.typed] at hset
    exact hset

/-- The comparison is the last node that the condition is given, over the column and the number. -/
theorem compared_eq :
    p.compared (numberTokens negative digits) = signedLater type negative digits := by
  have hnodes := p.fewNodes
  have hoperands := p.fewOperands
  have hends : Ends (p.relation.token :: (numberTokens negative digits ++ p.behind)) := by
    cases p.relation <;> exact ⟨rfl, rfl⟩
  have hword : p.relation.token.type ≠ .TOKEN_KEYWORD_NOT ∧
      p.relation.token.type ≠ .TOKEN_KEYWORD_IN ∧ p.relation.token.type ≠ .TOKEN_KEYWORD_IS ∧
      p.relation.token.type ≠ .TOKEN_KEYWORD_LIKE ∧
      comparisonOperator p.relation.token.type = some p.relation.op := by
    cases p.relation <;> decide
  have hno : ¬(typeAt (numberTokens negative digits ++ p.behind) 0 = .TOKEN_LPAREN ∧
      typeAt (numberTokens negative digits ++ p.behind) 1 = .TOKEN_KEYWORD_SELECT) := by
    cases negative with
    | false => exact fun h => (by decide : TokenType.TOKEN_NUMBER ≠ .TOKEN_LPAREN) h.1
    | true => exact fun h => (by decide : TokenType.TOKEN_MINUS ≠ .TOKEN_LPAREN) h.1
  have hleft : parseLeft false
      (p.name :: p.relation.token :: (numberTokens negative digits ++ p.behind)) p.before.exprs =
      .ok (Int32.ofNat p.before.exprs.length,
        p.relation.token :: (numberTokens negative digits ++ p.behind),
        p.before.exprs ++ [columnNode p.column]) :=
    parseExpression_name (by omega) hends
  have hright := @parseExpression_number negative digits p.behind
    (p.before.exprs ++ [columnNode p.column])
    (by rw [List.length_append, List.length_singleton]; omega) p.apart.ends
  unfold compared parseComparison
  rw [hleft]
  dsimp only
  rw [@newCondition_fits _ { p.before with exprs := p.before.exprs ++ [columnNode p.column] }
    p.fewNodes]
  simp only [typeAt_cons, beq_iff_eq, if_neg hword.1, if_neg hword.2.1, if_neg hword.2.2.1,
    if_neg hword.2.2.2.1]
  unfold parseOperator signedLater
  simp only [typeAt_cons, hword.2.2.2.2, List.drop_succ_cons, List.drop_zero, if_neg hno, hright]
  cases hvalue : numberValue digits false with
  | error code => rfl
  | ok value =>
    have hnumber : value.type.isNumber = true := by
      rw [numberValue_type hvalue]
      split <;> rfl
    have hnull := numberValue_isNull hvalue
    have hlength : (p.before.exprs ++ [columnNode p.column]).length =
        p.before.exprs.length + 1 := by
      rw [List.length_append, List.length_singleton]
    have hat := @NumberAt.of_nodes (p.before.exprs ++ [columnNode p.column]) negative value
      (by omega)
    have hcolumn : ColumnAt p.table p.slot (p.before.exprs ++ [columnNode p.column] ++
        numberNodes (p.before.exprs ++ [columnNode p.column]) negative value)
        (Int32.ofNat p.before.exprs.length) :=
      ⟨columnNode p.column, node_append (by omega) _, rfl, p.found⟩
    have hplain : (exprLiteral (p.before.exprs ++ [columnNode p.column] ++
        numberNodes (p.before.exprs ++ [columnNode p.column]) negative value)
        (Int32.ofNat ((p.before.exprs ++ [columnNode p.column]).length + negative.toNat))).any
        Value.isNull = false := by
      rw [hat.exprLiteral_eq]
      cases negative with
      | false => exact hnull
      | true => rfl
    simp only [Except.map, hplain, Bool.false_eq_true, if_false]
    rw [setCompare_fresh rfl hnodes]
    have hmax : MAX_CONDITION_NODES < 2147483648 := by decide
    simp only [ok_bind, (@toNat_ofNat p.before.nodes.length (by omega)).1,
      List.getElem?_concat_length]
    show _ = besideColumn type negative value
    have hcheck := @checkPredicate_number p.table p.slot _ negative value p.subqueries p.relation
      ⟨Int32.ofNat p.before.exprs.length, p.relation.op,
        Int32.ofNat ((p.before.exprs ++ [columnNode p.column]).length + negative.toNat), -1⟩
      rfl rfl hcolumn hat hnull hnumber p.row
    rw [p.typed] at hcheck
    exact hcheck

/-- What each position makes of a number. -/
theorem meaning_eq (here : Position) :
    p.meaning (numberTokens negative digits) here =
      match here with
      | .VALUES | .LISTED_VALUES | .DEFAULT | .ADDED_DEFAULT => fittedValue type negative digits
      | .COMPARISON | .SET => signedLater type negative digits := by
  cases here with
  | VALUES => exact p.inValues_eq negative digits
  | LISTED_VALUES => exact p.inListedValues_eq negative digits
  | DEFAULT => exact p.asDefault_eq negative digits
  | ADDED_DEFAULT => exact p.asAddedDefault_eq negative digits
  | COMPARISON => exact p.compared_eq negative digits
  | SET => exact p.assigned_eq negative digits

end Place

/-! ### Where the two readings agree -/

section
variable {type : ColType} {digits : List UInt8}

/-- A number is refused beside a column of no number. -/
theorem coerceLiteral_refused {value : Value} (hnull : value.isNull = false)
    (htype : value.type ≠ type) (hfloat : ¬(type = .TYPE_FLOAT ∧ value.type = .TYPE_INT))
    (hdate : ¬(type = .TYPE_DATE ∧ value.type = .TYPE_TEXT)) :
    coerceLiteral value type = .error .SEMANTIC_TYPE_MISMATCH := by
  unfold coerceLiteral
  rw [hnull, if_neg (by decide), if_neg htype, if_neg hfloat, if_neg hdate]

/-- The sign goes into the number before it is fitted, or onto it behind. -/
theorem fitted_negative {value signed : Value} (hpositive : numberValue digits false = .ok value)
    (hnegative : numberValue digits true = .ok signed) (hnegate : negate value = .ok signed)
    (hfloat : 46 ∈ digits ∨ type ≠ .TYPE_FLOAT) :
    fittedValue type true digits = signedLater type true digits := by
  have htype := numberValue_type hpositive
  have htype' := numberValue_type hnegative
  have hnull := numberValue_isNull hnegative
  show (numberValue digits true).bind (fun value => coerceLiteral value type) =
    (numberValue digits false).bind fun value => besideColumn type true value
  rw [hpositive, hnegative]
  show coerceLiteral signed type = besideColumn type true value
  by_cases hsame : value.type = type
  · rw [besideColumn_same (numberValue_isNull hpositive) hsame]
    show _ = negate value
    rw [hnegate]
    unfold coerceLiteral
    rw [hnull, if_neg (by decide), if_pos (htype'.trans (htype.symm.trans hsame))]
  · rw [besideColumn_signed hsame]
    refine coerceLiteral_refused hnull (fun h => hsame (htype.trans (htype'.symm.trans h))) ?_ ?_
    · rintro ⟨hcolumn, hint⟩
      rcases hfloat with hdot | hother
      · rw [htype', if_pos hdot] at hint
        exact absurd hint (by decide)
      · exact hother hcolumn
    · rintro ⟨-, htext⟩
      rw [htype'] at htext
      split at htext <;> exact absurd htext (by decide)

/-- An integer with and without its sign. -/
theorem numberValue_int (hdot : 46 ∉ digits) (negative : Bool) :
    numberValue digits negative =
      if negative.toNat + 2147483647 < strtoll digits then .error .VALUE_OUT_OF_RANGE
      else
        let n : Int := if negative then -(strtoll digits : Int) else strtoll digits
        .ok { zeroValue with intValue := Int32.ofInt n } := by
  unfold numberValue
  rw [if_neg hdot]
  cases negative with
  | false =>
    simp only [Bool.false_eq_true, if_false, Bool.toNat_false]
    by_cases hbig : 0 + 2147483647 < strtoll digits
    · rw [if_pos hbig, if_pos (by omega)]
    · rw [if_neg hbig, if_neg (by omega)]
  | true =>
    simp only [if_true, Bool.toNat_true]
    by_cases hbig : 1 + 2147483647 < strtoll digits
    · rw [if_pos hbig, if_pos (by omega)]
    · rw [if_neg hbig, if_neg (by omega)]

/-- A numeral with a dot is a FLOAT. -/
theorem numberValue_float (hdot : 46 ∈ digits) (negative : Bool) :
    numberValue digits negative =
      match strtod digits with
      | none => .error .VALUE_OUT_OF_RANGE
      | some number =>
        .ok (setFloat (if negative then number ^^^ 0x8000000000000000 else number)) := by
  unfold numberValue
  exact if_pos hdot

/-- The two readings are one, away from the smallest integer and from negative integers beside a
float column. -/
theorem fitted_eq_signed {negative : Bool}
    (h : ¬(negative = true ∧ 46 ∉ digits ∧
      (strtoll digits = 2147483648 ∨ type = .TYPE_FLOAT ∧ strtoll digits ≤ 2147483648))) :
    fittedValue type negative digits = signedLater type negative digits := by
  cases negative with
  | false => rfl
  | true =>
    by_cases hdot : 46 ∈ digits
    · cases hreal : strtod digits with
      | none =>
        show (numberValue digits true).bind _ = (numberValue digits false).bind _
        rw [numberValue_float hdot, numberValue_float hdot, hreal]
        rfl
      | some number =>
        refine @fitted_negative _ _ (setFloat number)
          (setFloat (number ^^^ 0x8000000000000000)) ?_ ?_ rfl (.inl hdot)
        · rw [numberValue_float hdot, hreal]
          rfl
        · rw [numberValue_float hdot, hreal]
          rfl
    · by_cases hbig : 2147483648 < strtoll digits
      · show (numberValue digits true).bind _ = (numberValue digits false).bind _
        rw [numberValue_int hdot, numberValue_int hdot, if_pos (by show 1 + 2147483647 < _; omega),
          if_pos (by show 0 + 2147483647 < _; omega)]
        rfl
      · have hsmall : strtoll digits ≤ 2147483647 := by
          by_contra hlarge
          exact h ⟨rfl, hdot, .inl (by omega)⟩
        have hfloat : type ≠ .TYPE_FLOAT := fun htype =>
          h ⟨rfl, hdot, .inr ⟨htype, by omega⟩⟩
        refine @fitted_negative _ _ { zeroValue with intValue := Int32.ofInt (strtoll digits) }
          { zeroValue with intValue := Int32.ofInt (-(strtoll digits : Int)) } ?_ ?_ ?_
          (.inr hfloat)
        · rw [numberValue_int hdot, if_neg (by show ¬0 + 2147483647 < _; omega)]
          rfl
        · rw [numberValue_int hdot, if_neg (by show ¬1 + 2147483647 < _; omega)]
          rfl
        · show narrow (0 - (Int32.ofInt (strtoll digits)).toInt) = _
          rw [Int32.toInt_ofInt_of_le (by omega) (by omega), Int.zero_sub]
          unfold narrow
          rw [if_neg (by omega)]

/-- Where they part, one takes the number and the other refuses it. -/
theorem fitted_of_parts {negative : Bool} (h : PartsWays type negative digits) :
    (fittedValue type negative digits).toOption ≠ (signedLater type negative digits).toOption := by
  obtain ⟨rfl, hdot, hways⟩ := h
  have hnegative : numberValue digits true =
      .ok { zeroValue with intValue := Int32.ofInt (-(strtoll digits : Int)) } := by
    rw [numberValue_int hdot, if_neg (by show ¬1 + 2147483647 < _; omega)]
    rfl
  have hfitted : (fittedValue type true digits).toOption.isSome = true := by
    show ((numberValue digits true).bind _).toOption.isSome = true
    rw [hnegative]
    rcases hways with ⟨rfl, -⟩ | ⟨rfl, -⟩ <;> rfl
  have hsigned : (signedLater type true digits).toOption = none := by
    show ((numberValue digits false).bind _).toOption = none
    rw [numberValue_int hdot]
    rcases hways with ⟨-, hbig⟩ | ⟨rfl, -⟩
    · rw [if_pos (by show 0 + 2147483647 < _; omega)]
      rfl
    · split <;> rfl
  intro hsame
  rw [hsigned] at hsame
  rw [hsame] at hfitted
  exact absurd hfitted (by simp)

/-- The smallest integer is fitted as an integer in one reading, and none in the other. -/
theorem fittedValue_smallest (hdot : 46 ∉ digits) (hbig : strtoll digits = 2147483648) :
    fittedValue type true digits =
      coerceLiteral { zeroValue with intValue := Int32.ofInt (-(strtoll digits : Int)) } type := by
  show (numberValue digits true).bind _ = _
  rw [numberValue_int hdot, if_neg (by show ¬1 + 2147483647 < _; omega)]
  rfl

/-- The lowest `int` is refused where the sign is applied later. -/
theorem signedLater_smallest (hdot : 46 ∉ digits) (hbig : strtoll digits = 2147483648) :
    signedLater type true digits = .error .VALUE_OUT_OF_RANGE := by
  show (numberValue digits false).bind _ = _
  rw [numberValue_int hdot, if_pos (by show 0 + 2147483647 < _; omega)]
  rfl

end

namespace Place
variable {type : ColType} (p : Place type) (negative : Bool) (digits : List UInt8)

/-- The positions are two readings, in whatever way they are compared. -/
theorem alike_iff {α : Type} (f : Except ErrorCode Value → α) :
    (∀ here there, f (p.meaning (numberTokens negative digits) here) =
        f (p.meaning (numberTokens negative digits) there)) ↔
      f (fittedValue type negative digits) = f (signedLater type negative digits) := by
  constructor
  · intro h
    have hpair := h .VALUES .SET
    rw [meaning_eq, meaning_eq] at hpair
    exact hpair
  · intro h here there
    rw [meaning_eq, meaning_eq]
    cases here <;> cases there <;> first | rfl | exact h | exact h.symm

/-- The positions take or refuse a number alike, and make one value of it, except where they part;
and they refuse it with one error except for the smallest integer. -/
theorem meaning_iff :
    ((∀ here there, (p.meaning (numberTokens negative digits) here).toOption =
        (p.meaning (numberTokens negative digits) there).toOption) ↔
      ¬PartsWays type negative digits) ∧
    ((∀ here there, p.meaning (numberTokens negative digits) here =
        p.meaning (numberTokens negative digits) there) ↔
      ¬PartsWays type negative digits ∧
        ¬(negative = true ∧ 46 ∉ digits ∧ strtoll digits = 2147483648)) := by
  constructor
  · rw [p.alike_iff negative digits Except.toOption]
    refine ⟨fun hsame hparts => fitted_of_parts hparts hsame, fun hparts => ?_⟩
    by_cases hsmallest : negative = true ∧ 46 ∉ digits ∧ strtoll digits = 2147483648
    · -- refused by both: no column of the type holds a number
      obtain ⟨rfl, hdot, hbig⟩ := hsmallest
      have hint : type ≠ .TYPE_INT := fun h => hparts ⟨rfl, hdot, .inl ⟨h, hbig⟩⟩
      have hfloat : type ≠ .TYPE_FLOAT := fun h => hparts ⟨rfl, hdot, .inr ⟨h, by omega⟩⟩
      rw [fittedValue_smallest hdot hbig, signedLater_smallest hdot hbig]
      cases type with
      | TYPE_INT => exact absurd rfl hint
      | TYPE_FLOAT => exact absurd rfl hfloat
      | TYPE_TEXT => rfl
      | TYPE_DATE => rfl
    · refine congrArg Except.toOption (fitted_eq_signed ?_)
      rintro ⟨hneg, hdot, hbig | hfloat⟩
      · exact hsmallest ⟨hneg, hdot, hbig⟩
      · exact hparts ⟨hneg, hdot, .inr hfloat⟩
  · refine (p.alike_iff negative digits id).trans ?_
    refine ⟨fun hsame => ⟨fun hparts => fitted_of_parts hparts (congrArg _ hsame), ?_⟩, ?_⟩
    · rintro ⟨rfl, hdot, hbig⟩
      -- a value, or another error than the other's
      have hcodes : fittedValue type true digits = signedLater type true digits := hsame
      rw [fittedValue_smallest hdot hbig, signedLater_smallest hdot hbig] at hcodes
      cases type <;> cases hcodes
    · rintro ⟨hparts, hsmallest⟩
      refine fitted_eq_signed ?_
      rintro ⟨hneg, hdot, hbig | hfloat⟩
      · exact hsmallest ⟨hneg, hdot, hbig⟩
      · exact hparts ⟨hneg, hdot, .inr hfloat⟩

/-- A table of one column. -/
def narrowTable (type : ColType) : CatalogNode :=
  { table := Name.ofBytes (ascii "t"), cols := [plainColumn (ascii "a") type], check := none }

/-- A table of one column, and nothing around the number. -/
def beside (type : ColType) : Place type where
  table := narrowTable type
  column := ascii "a"
  slot := 0
  found := by cases type <;> decide +kernel
  typed := rfl
  behind := []
  apart := by unfold Apart; decide
  values := []
  fewValues := by decide
  made := plainColumn (ascii "b") type
  madeType := rfl
  db := { freeSlot with tables := [narrowTable type] }
  altered := Name.ofBytes (ascii "t")
  stands := by cases type <;> decide +kernel
  addable := ⟨rfl, rfl⟩
  relation := .eq
  before := emptyRead []
  fewNodes := by decide
  fewOperands := by decide
  subqueries := []
  sets := []
  fewSets := by decide
  exprs := []
  fewExprs := by decide
  row := []

/-- `values (-2147483648)` is stored and `a = -2147483648` refused; and so are `values (-3)` and
`set a = -3` beside a float. -/
theorem meaning_apart :
    (¬∀ here there,
      ((beside .TYPE_INT).meaning (numberTokens true (ascii "2147483648")) here).toOption =
        ((beside .TYPE_INT).meaning (numberTokens true (ascii "2147483648")) there).toOption) ∧
    (¬∀ here there,
      ((beside .TYPE_FLOAT).meaning (numberTokens true (ascii "3")) here).toOption =
        ((beside .TYPE_FLOAT).meaning (numberTokens true (ascii "3")) there).toOption) := by
  constructor
  · intro h
    exact absurd (h .VALUES .COMPARISON) (by decide +kernel)
  · intro h
    have hvalues : ((beside .TYPE_FLOAT).meaning (numberTokens true (ascii "3")) .VALUES).isOk =
        true := by
      decide +kernel
    have hset : (beside .TYPE_FLOAT).meaning (numberTokens true (ascii "3")) .SET =
        .error .SEMANTIC_TYPE_MISMATCH := by
      decide +kernel
    have hsame := h .VALUES .SET
    rw [hset] at hsame
    generalize (beside .TYPE_FLOAT).meaning (numberTokens true (ascii "3")) .VALUES = read
      at hvalues hsame
    cases read with
    | error code => cases hvalues
    | ok value => exact absurd hsame (by simp [Except.toOption])

end Place

end DatabaseEngine
