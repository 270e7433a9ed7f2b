import DatabaseEngine.Proofs.Join.Outer
import DatabaseEngine.Proofs.Parser.Written
import DatabaseEngine.Proofs.Select.Announced
import DatabaseEngine.Proofs.Wire.Describe

/-!
# `DatabaseEngine.Proofs.Semantic.Membership`: the two spellings of IN

* `valueInResult_eq_iff`: the loop over the rows of a subquery gives the OR of the equalities, if
  and only if the membership is decided.
* `parseIn_orOf`, `OrOf.evaluate`: a list is read as the OR of the equalities, and gives that.
* `checkPredicate_columns`: how many columns the subquery of an accepted IN has.
* `in_has_one_meaning_iff`: all of it.
-/

set_option autoImplicit false

namespace DatabaseEngine

open Library

/-! ### The rows of a subquery -/

/-- FALSE adds nothing to an OR. -/
theorem TriState.false_or (t : TriState) : TriState.or .TRI_FALSE t = t := by
  cases t <;> rfl

/-- NOT tells the three truth values apart. -/
theorem TriState.not_inj {s t : TriState} (h : s.not = t.not) : s = t := by
  cases s <;> cases t <;> first | rfl | exact absurd h (by decide)

/-- An OR is TRUE when one side is, and FALSE when none is and none is unknown. -/
theorem TriState.or_cases (s t : TriState) :
    (s.or t = .TRI_TRUE ↔ s = .TRI_TRUE ∨ t = .TRI_TRUE) ∧
      (s.or t = .TRI_FALSE ↔ s = .TRI_FALSE ∧ t = .TRI_FALSE) := by
  cases s <;> cases t <;> decide

section
variable {value : Value} {set : List Value}

/-- The OR of the equalities behind what has been met. -/
theorem orFrom_cases (met : TriState) :
    (set.foldl (fun met candidate => met.or (comparePredicate value candidate .OP_EQ)) met
        = .TRI_TRUE ↔
      met = .TRI_TRUE ∨ ∃ candidate ∈ set, comparePredicate value candidate .OP_EQ = .TRI_TRUE) ∧
    (set.foldl (fun met candidate => met.or (comparePredicate value candidate .OP_EQ)) met
        = .TRI_FALSE ↔
      met = .TRI_FALSE ∧
        ∀ candidate ∈ set, comparePredicate value candidate .OP_EQ = .TRI_FALSE) := by
  induction set generalizing met with
  | nil => simp
  | cons candidate rest ih =>
    obtain ⟨htrue, hfalse⟩ := ih (met.or (comparePredicate value candidate .OP_EQ))
    obtain ⟨hor, hnor⟩ := TriState.or_cases met (comparePredicate value candidate .OP_EQ)
    rw [List.foldl_cons]
    constructor
    · rw [htrue, hor, or_assoc]
      simp
    · rw [hfalse, hnor, and_assoc]
      simp

/-- IN is TRUE exactly if some element is equal. -/
theorem inMeaning_true_iff : inMeaning value set = .TRI_TRUE ↔
    ∃ candidate ∈ set, comparePredicate value candidate .OP_EQ = .TRI_TRUE := by
  unfold inMeaning
  rw [(orFrom_cases .TRI_FALSE).1]
  simp

/-- IN is FALSE exactly if every element is different. -/
theorem inMeaning_false_iff : inMeaning value set = .TRI_FALSE ↔
    ∀ candidate ∈ set, comparePredicate value candidate .OP_EQ = .TRI_FALSE := by
  unfold inMeaning
  rw [(orFrom_cases .TRI_FALSE).2]
  simp

/-- What an equality says of a value that is there. -/
theorem equals_cases (hvalue : value.isNull = false) (candidate : Value) :
    (comparePredicate value candidate .OP_EQ = .TRI_UNKNOWN ↔
      candidate.isNull = true ∨ value.type ≠ candidate.type) := by
  unfold comparePredicate
  rw [if_neg (by decide), if_neg (by decide), hvalue]
  cases hnull : candidate.isNull with
  | true => simp
  | false =>
    by_cases htype : value.type ≠ candidate.type
    · rw [if_neg (by simp), if_pos htype]
      simp [htype]
    · rw [if_neg (by simp), if_neg htype]
      dsimp only
      unfold TriState.ofBool
      split <;> simp [htype]

/-- Of a NULL every equality is unknown. -/
theorem equals_null (hvalue : value.isNull = true) (candidate : Value) :
    comparePredicate value candidate .OP_EQ = .TRI_UNKNOWN := by
  unfold comparePredicate
  rw [if_neg (by decide), if_neg (by decide), hvalue]
  rfl

/-- IN is UNKNOWN exactly if none is equal and some cannot be compared. -/
theorem inMeaning_unknown_iff : inMeaning value set = .TRI_UNKNOWN ↔
    (∀ candidate ∈ set, comparePredicate value candidate .OP_EQ ≠ .TRI_TRUE) ∧
      ∃ candidate ∈ set, comparePredicate value candidate .OP_EQ = .TRI_UNKNOWN := by
  constructor
  · intro h
    have htrue := mt inMeaning_true_iff.mpr (by rw [h]; decide)
    have hfalse := mt inMeaning_false_iff.mpr (by rw [h]; decide)
    push Not at htrue hfalse
    obtain ⟨candidate, hin, hne⟩ := hfalse
    refine ⟨htrue, candidate, hin, ?_⟩
    cases hcase : comparePredicate value candidate .OP_EQ with
    | TRI_TRUE => exact absurd hcase (htrue candidate hin)
    | TRI_FALSE => exact absurd hcase hne
    | TRI_UNKNOWN => rfl
  · rintro ⟨hnone, candidate, hin, hunknown⟩
    cases hcase : inMeaning value set with
    | TRI_TRUE =>
      obtain ⟨other, hother, heq⟩ := inMeaning_true_iff.mp hcase
      exact absurd heq (hnone other hother)
    | TRI_FALSE =>
      have hfalse := inMeaning_false_iff.mp hcase candidate hin
      rw [hunknown] at hfalse
      exact absurd hfalse (by decide)
    | TRI_UNKNOWN => rfl

/-- The loop that `valueInResult` is: a match, or a NULL that might have been one. -/
theorem valueInResult_eq (hvalue : value.isNull = false) :
    valueInResult value set =
      if ∃ candidate ∈ set, comparePredicate value candidate .OP_EQ = .TRI_TRUE then .TRI_TRUE
      else if ∃ candidate ∈ set, candidate.isNull = true then .TRI_UNKNOWN else .TRI_FALSE := by
  have hmatch : (set.any fun candidate => !candidate.isNull &&
      comparePredicate value candidate .OP_EQ == .TRI_TRUE) = true ↔
      ∃ candidate ∈ set, comparePredicate value candidate .OP_EQ = .TRI_TRUE := by
    rw [List.any_eq_true]
    refine exists_congr fun candidate => and_congr_right fun _ => ?_
    rw [Bool.and_eq_true, beq_iff_eq]
    refine and_iff_right_of_imp fun htrue => ?_
    -- with a NULL the equality would be unknown
    cases hnull : candidate.isNull with
    | false => rfl
    | true =>
      have hunknown := (equals_cases hvalue candidate).mpr (.inl hnull)
      rw [htrue] at hunknown
      exact absurd hunknown (by decide)
  unfold valueInResult
  rw [if_neg (by rw [hvalue]; decide)]
  simp only [hmatch, List.any_eq_true]

/-- What is looked for among the rows of a subquery gets the OR of the equalities, if and only if
the membership is decided. -/
theorem valueInResult_eq_iff :
    valueInResult value set = inMeaning value set ↔ InDecided value set := by
  unfold InDecided
  cases hvalue : value.isNull with
  | true =>
    have hresult : valueInResult value set = .TRI_UNKNOWN := if_pos hvalue
    rw [hresult, if_pos rfl, eq_comm, inMeaning_unknown_iff]
    constructor
    · rintro ⟨-, candidate, hin, -⟩
      exact List.ne_nil_of_mem hin
    · intro hne
      obtain ⟨candidate, hin⟩ := List.exists_mem_of_ne_nil set hne
      refine ⟨fun other _ => ?_, candidate, hin, equals_null hvalue candidate⟩
      rw [equals_null hvalue other]
      decide
  | false =>
    rw [valueInResult_eq hvalue, if_neg Bool.false_ne_true]
    by_cases hmatch : ∃ candidate ∈ set, comparePredicate value candidate .OP_EQ = .TRI_TRUE
    · rw [if_pos hmatch, inMeaning_true_iff.mpr hmatch]
      obtain ⟨candidate, hin, htrue⟩ := hmatch
      exact iff_of_true rfl (.inl ⟨candidate, hin, .inr htrue⟩)
    · rw [if_neg hmatch]
      push Not at hmatch
      by_cases hnull : ∃ candidate ∈ set, candidate.isNull = true
      · obtain ⟨candidate, hin, hisNull⟩ := hnull
        rw [if_pos ⟨candidate, hin, hisNull⟩, eq_comm]
        refine iff_of_true (inMeaning_unknown_iff.mpr ⟨hmatch, candidate, hin, ?_⟩)
          (.inl ⟨candidate, hin, .inl hisNull⟩)
        exact (equals_cases hvalue candidate).mpr (.inl hisNull)
      · rw [if_neg hnull, eq_comm, inMeaning_false_iff]
        push Not at hnull
        constructor
        · intro hfalse
          refine .inr fun candidate hin => ?_
          have hsure := mt (equals_cases hvalue candidate).mpr (by rw [hfalse candidate hin]; decide)
          push Not at hsure
          exact hsure.2.symm
        · rintro (⟨candidate, hin, hisNull | htrue⟩ | htypes) other hother
          · exact absurd hisNull (by simpa using hnull candidate hin)
          · exact absurd htrue (hmatch candidate hin)
          · have hsure : comparePredicate value other .OP_EQ ≠ .TRI_UNKNOWN := by
              rw [Ne, equals_cases hvalue other]
              push Not
              exact ⟨by simpa using hnull other hother, (htypes other hother).symm⟩
            cases hcase : comparePredicate value other .OP_EQ with
            | TRI_FALSE => rfl
            | TRI_TRUE => exact absurd hcase (hmatch other hother)
            | TRI_UNKNOWN => exact absurd hcase hsure

end

/-! ### Lists -/

section
variable {nodes nodes' : List ConditionNode} {left : Int32} {rights : List Int32}

/-- The node that an index of a short pool leads to. -/
theorem node_ofNat {cond : Condition} (hfew : cond.nodes.length ≤ MAX_CONDITION_NODES) {i : Nat}
    {node : ConditionNode} (hnode : cond.nodes[i]? = some node) :
    cond.node (Int32.ofNat i) = some node := by
  have hmax : MAX_CONDITION_NODES = 32 := rfl
  have hlt := (List.getElem?_eq_some_iff.mp hnode).1
  obtain ⟨hi, hpos⟩ := toNat_ofNat (n := i) (by omega)
  have hnot : ¬Int32.ofNat i < 0 := Below.not_neg ⟨hpos, hi.symm ▸ hlt⟩
  unfold Condition.node
  rw [if_neg hnot, hi, hnode]

/-- An equality of two sides that can be computed. -/
theorem evaluateEquality {exprs : ExprPool} {sub : Subqueries} {row : Row} {right : Int32}
    {value other : Value} (hleft : exprEvaluate exprs left row = .ok value)
    (hright : exprEvaluate exprs right row = .ok other) :
    evaluatePredicate exprs sub
      (predicateNode { left := left, op := .OP_EQ, right := right, subquery := -1 }).compare row
      = comparePredicate value other .OP_EQ := by
  unfold evaluatePredicate predicateNode
  simp only [hleft, hright]
  rfl

/-- The tree of a list gives the OR of the equalities. -/
theorem OrOf.evaluate {cond : Condition} {sub : Subqueries} {row : Row} {i fuel : Nat}
    {value : Value} {other : Int32 → Value} (h : OrOf cond.nodes left i rights)
    (hfew : cond.nodes.length ≤ MAX_CONDITION_NODES)
    (hleft : exprEvaluate cond.exprs left row = .ok value)
    (hrights : ∀ right ∈ rights, exprEvaluate cond.exprs right row = .ok (other right))
    (hfuel : rights.length ≤ fuel) :
    evaluateConditionFrom fuel cond sub (Int32.ofNat i) row = inMeaning value (rights.map other) := by
  induction h generalizing fuel with
  | @one i right leaf =>
    obtain ⟨fuel, rfl⟩ : ∃ n, fuel = n + 1 := ⟨fuel - 1, by simp at hfuel; omega⟩
    rw [evaluateConditionFrom, node_ofNat hfew leaf]
    show evaluatePredicate _ _ _ _ = _
    rw [evaluateEquality hleft (hrights right (List.mem_singleton_self right))]
    exact (TriState.false_or _).symm
  | @more root next either rights right front leaf branch ih =>
    rw [List.length_append, List.length_singleton] at hfuel
    obtain ⟨fuel, rfl⟩ : ∃ n, fuel = n + 1 := ⟨fuel - 1, by omega⟩
    have hpos : 0 < rights.length := by
      cases front <;> simp
    obtain ⟨below, rfl⟩ : ∃ n, fuel = n + 1 := ⟨fuel - 1, by omega⟩
    have hfront := @ih (below + 1) (fun other hin => hrights other (by simp [hin])) (by omega)
    rw [evaluateConditionFrom, node_ofNat hfew branch]
    show (evaluateConditionFrom (below + 1) cond sub (Int32.ofNat root) row).or
      (evaluateConditionFrom (below + 1) cond sub (Int32.ofNat next) row) = _
    rw [hfront, evaluateConditionFrom, node_ofNat hfew leaf]
    show TriState.or _ (evaluatePredicate _ _ _ _) = _
    rw [evaluateEquality hleft (hrights right (by simp))]
    unfold inMeaning
    rw [List.map_append, List.foldl_append]
    rfl

/-- What the reader of `[NOT] IN` leaves of a list: the OR of the equalities, under a NOT. -/
theorem parseIn_orOf {subquery : SubqueryRead} {node : Nat} {p : Predicate}
    {front : List ConditionNode} {tokens rest : List Token} {start cond : ConditionRead}
    {root : Int32} (hfew : start.nodes.length ≤ MAX_CONDITION_NODES)
    (hnodes : start.nodes = front ++ [predicateNode p]) (hnode : node = front.length)
    (hlist : typeAt (tokens.drop (if typeAt tokens 0 == .TOKEN_KEYWORD_NOT then 2 else 1)) 1
      ≠ .TOKEN_KEYWORD_SELECT)
    (h : parseIn subquery left (Int32.ofNat node) tokens start = .ok (root, rest, cond)) :
    ∃ top rights, rights ≠ [] ∧ OrOf cond.nodes left top rights ∧
      cond.nodes.length ≤ MAX_CONDITION_NODES ∧
      if typeAt tokens 0 == .TOKEN_KEYWORD_NOT then
        rights.length < cond.nodes.length ∧ ∃ i, root = Int32.ofNat i ∧
          cond.nodes[i]? = some (branchNode .COND_NOT (Int32.ofNat top) (-1))
      else rights.length ≤ cond.nodes.length ∧ root = Int32.ofNat top := by
  subst hnode
  have hopen : ListOpen start.nodes left front.length front.length [] :=
    ⟨by simp [hnodes], hfew, Nat.zero_le _, .inl ⟨rfl, rfl⟩⟩
  unfold parseIn at h
  dsimp only at h
  rw [if_neg hlist] at h
  generalize tokens.drop (if typeAt tokens 0 == .TOKEN_KEYWORD_NOT then 2 else 1) = inner at h
  generalize (typeAt tokens 0 == .TOKEN_KEYWORD_NOT) = negated at h ⊢
  split at h
  · exact absurd h (by simp)
  · rename_i top behind mid hread
    split at hread
    · exact absurd hread (by simp)
    · split at hread
      · exact absurd hread (by simp)
      · rename_i hloop
        obtain ⟨top', rights, rfl, hne, htree, hcount, hshort, -⟩ := inListLoop_orOf hopen hloop
        split at hread
        · obtain ⟨rfl, -, rfl⟩ := by simpa using Except.ok.inj hread
          cases negated with
          | false =>
            obtain ⟨rfl, -, rfl⟩ := by simpa using Except.ok.inj h
            exact ⟨top', rights, hne, htree, hshort, hcount, rfl⟩
          | true =>
            obtain ⟨hnew, -⟩ := addBranch_ok h
            obtain ⟨hroom, rfl, rfl⟩ := newCondition_few hshort hnew
            refine ⟨top', rights, hne, htree.mono fun k node hk => ?_, ?_, ?_, _, rfl, ?_⟩
            · rw [List.getElem?_append_left (List.getElem?_eq_some_iff.mp hk).1]
              exact hk
            · simp
              omega
            · simp
              omega
            · simp
        · exact absurd hread (by simp)

end

/-! ### The columns of a subquery -/

section
variable {data : Data} {statics : Statics} {sub : Subqueries} {select : ParsedSelect}
  {out : ResultSet}

/-- A star is as wide as what is read, and a list as long as it is written. -/
theorem projectSelect_width {table : CatalogNode} {rows : List Row}
    (hstar : select.selectAll = true → select.groupBy = [] ∧ select.items = [])
    (h : projectSelect statics sub table select rows = .ok out) :
    out.headers.length = if select.selectAll then table.cols.length else select.items.length := by
  unfold projectSelect at h
  by_cases hplain : select.groupBy = [] ∧ select.hasAggregate = false
  · rw [if_pos hplain] at h
    unfold projectRows at h
    by_cases hall : select.selectAll = true
    · rw [if_pos hall] at h ⊢
      obtain ⟨rows', -, rfl⟩ := map_ok h
      exact List.length_map _
    · rw [if_neg hall] at h ⊢
      split at h
      · exact absurd h (by simp)
      · rename_i columns exprs hbound
        obtain ⟨rows', -, rfl⟩ := map_ok h
        have hcount := (bindItems_bound hbound).2.length_eq
        rw [hcount]
        exact List.length_map _
  · rw [if_neg hplain] at h
    have hall : select.selectAll ≠ true := by
      intro hall
      obtain ⟨hgroup, hitems⟩ := hstar hall
      refine hplain ⟨hgroup, ?_⟩
      show select.items.any _ = false
      rw [hitems]
      rfl
    rw [if_neg hall]
    unfold projectGroups at h
    split at h
    · exact absurd h (by simp)
    · split at h
      · exact absurd h (by simp)
      · split at h
        · exact absurd h (by simp)
        · dsimp only at h
          split at h
          · exact absurd h (by simp)
          · split at h
            · exact absurd h (by simp)
            · rw [← Except.ok.inj h]
              exact List.length_map _

end

/-! ### The check of a subquery -/

section
variable {tables : List CatalogNode} {sub : SubqueryCheck} {table : CatalogNode}
  {checking checking' : Checking}

/-- The walk over a condition changes where the check is by its subqueries only. -/
structure Walks (sub : SubqueryCheck) (kept : Checking → Checking → Prop) : Prop where
  refl : ∀ checking, kept checking checking
  trans : ∀ {first second third}, kept first second → kept second third → kept first third
  step : ∀ {i want before after}, sub i want before = .ok after → kept before after

namespace Walks
variable {kept : Checking → Checking → Prop} (hwalk : Walks sub kept)
include hwalk

/-- Checking a predicate keeps what checking keeps. -/
theorem predicate {compare : Predicate} {exprs exprs' : ExprPool}
    (h : Query.checkPredicate sub table compare exprs checking = .ok (exprs', checking')) :
    kept checking checking' := by
  have hstay : ∀ {pool : ExprPool}, Except.ok (ε := ErrorCode) (pool, checking) =
      .ok (exprs', checking') → kept checking checking' := by
    intro pool heq
    obtain ⟨-, rfl⟩ := Prod.mk.inj (Except.ok.inj heq)
    exact hwalk.refl _
  have hsub : ∀ {i want} {pool : ExprPool}, (sub i want checking).map (fun c => (pool, c)) =
      .ok (exprs', checking') → kept checking checking' := by
    intro i want pool heq
    obtain ⟨after, hafter, heq⟩ := map_ok heq
    obtain ⟨-, rfl⟩ := Prod.mk.inj heq
    exact hwalk.step hafter
  unfold Query.checkPredicate at h
  split at h
  · exact hsub h
  · split at h
    · exact absurd h (by simp)
    · split at h
      · exact hstay h
      · split at h
        · exact hsub h
        · split at h
          · split at h
            · exact hstay h
            · exact absurd h (by simp)
          · split at h
            · exact absurd h (by simp)
            · obtain ⟨fitted, -, heq⟩ := map_ok h
              exact hstay (congrArg Except.ok heq)

/-- Checking a condition keeps it, by induction on the tree. -/
theorem condition {nodes : List ConditionNode} {fuel : Nat} {i : Int32} {exprs exprs' : ExprPool}
    (h : Query.checkConditionFrom sub table nodes fuel i exprs checking = .ok (exprs', checking')) :
    kept checking checking' := by
  induction fuel generalizing i exprs exprs' checking checking' with
  | zero => exact absurd h (by simp [Query.checkConditionFrom])
  | succ fuel ih =>
    unfold Query.checkConditionFrom at h
    split at h
    · exact absurd h (by simp)
    · split at h
      · exact hwalk.predicate h
      · exact ih h
      all_goals
        split at h
        · exact absurd h (by simp)
        · rename_i hleft
          exact hwalk.trans (ih hleft) (ih h)

/-- Checking from a root keeps it. -/
theorem conditionAt {cond cond' : Condition} {root : Int32}
    (h : Query.checkConditionAt sub table cond root checking = .ok (cond', checking')) :
    kept checking checking' := by
  obtain ⟨⟨exprs, after⟩, hafter, heq⟩ := map_ok h
  obtain ⟨-, rfl⟩ := Prod.mk.inj heq
  exact hwalk.condition hafter

/-- Checking a WHERE keeps it. -/
theorem wher {cond cond' : Condition}
    (h : Query.checkWhere sub table cond checking = .ok (cond', checking')) :
    kept checking checking' := by
  unfold Query.checkWhere at h
  split at h
  · exact hwalk.conditionAt h
  · obtain ⟨-, rfl⟩ := Prod.mk.inj (Except.ok.inj h)
    exact hwalk.refl _

/-- Checking the ON conditions keeps it. -/
theorem onRoots {roots : List Int32} {cond cond' : Condition}
    (h : Query.checkOnRoots sub table roots cond checking = .ok (cond', checking')) :
    kept checking checking' := by
  induction roots generalizing cond checking with
  | nil =>
    obtain ⟨-, rfl⟩ := Prod.mk.inj (Except.ok.inj h)
    exact hwalk.refl _
  | cons root rest ih =>
    unfold Query.checkOnRoots at h
    split at h
    · exact ih h
    · split at h
      · exact absurd h (by simp)
      · rename_i hfirst
        exact hwalk.trans (hwalk.conditionAt hfirst) (ih h)

end Walks

/-- A check of a SELECT walks over its conditions. -/
theorem checkSelectFrom_walks {kept : Checking → Checking → Prop} {fuel : Nat}
    {select checked : ParsedSelect}
    (hwalk : Walks (Query.checkSubquery (Query.checkSelectFrom tables fuel)) kept)
    (h : Query.checkSelectFrom tables (fuel + 1) select checking = .ok (checked, checking')) :
    kept checking checking' := by
  unfold Query.checkSelectFrom at h
  split at h
  · exact absurd h (by simp)
  · dsimp only at h
    split at h
    · exact absurd h (by simp)
    · rename_i hwhere
      split at h
      · exact absurd h (by simp)
      · rename_i hroots
        obtain ⟨list, -, heq⟩ := map_ok h
        obtain ⟨-, rfl⟩ := Prod.mk.inj heq
        exact hwalk.trans (hwalk.wher hwhere) (hwalk.onRoots hroots)

/-- The check writes over slots of the pool, and adds none. -/
theorem checkSubquery_length (fuel : Nat) :
    Walks (Query.checkSubquery (Query.checkSelectFrom tables fuel))
      fun before after => after.pool.length = before.pool.length := by
  induction fuel with
  | zero =>
    refine ⟨fun _ => rfl, fun h h' => h'.trans h, fun {i want before after} h => ?_⟩
    unfold Query.checkSubquery at h
    dsimp only at h
    split at h
    · exact absurd h (by simp)
    · split at h
      · exact absurd h (by simp)
      · exact absurd h (by simp [Query.checkSelectFrom])
  | succ fuel ih =>
    refine ⟨fun _ => rfl, fun h h' => h'.trans h, fun {i want before after} h => ?_⟩
    unfold Query.checkSubquery at h
    dsimp only at h
    split at h
    · exact absurd h (by simp)
    · split at h
      · exact absurd h (by simp)
      · split at h
        · exact absurd h (by simp)
        · rename_i hselect
          split at h
          · exact absurd h (by simp)
          · rw [← Except.ok.inj h]
            dsimp only
            rw [List.length_set]
            exact checkSelectFrom_walks ih hselect

/-- A SELECT that was checked is as wide as its star, or as long as its list. -/
theorem checkSelectFrom_width {depth : Nat} {select checked : ParsedSelect}
    {data : Data} {statics : Statics} {results : Subqueries} {out : ResultSet}
    (hitems : select.selectAll = true → select.items = [])
    (hcheck : Query.checkSelectFrom tables depth select checking = .ok (checked, checking'))
    (htables : data.tables.map StoredTable.node = tables)
    (h : answerSelect data statics results checked = .ok out) :
    ∃ table, selectSchema tables checked = .ok table ∧
      out.headers.length =
        if checked.selectAll then table.cols.length else checked.items.length := by
  obtain ⟨table, rows, projected, hschema, hproject, hheaders, -⟩ := answerSelect_projected h
  refine ⟨table, htables ▸ hschema, ?_⟩
  rw [hheaders]
  refine projectSelect_width (fun hall => ?_) hproject
  -- with a star the check takes no GROUP BY
  obtain ⟨conditions, exprs, rfl⟩ := checkSelectFrom_shape hcheck
  refine ⟨?_, hitems hall⟩
  cases depth with
  | zero => exact absurd hcheck (by simp [Query.checkSelectFrom])
  | succ depth =>
    unfold Query.checkSelectFrom at hcheck
    split at hcheck
    · exact absurd hcheck (by simp)
    · dsimp only at hcheck
      split at hcheck
      · exact absurd hcheck (by simp)
      · split at hcheck
        · exact absurd hcheck (by simp)
        · obtain ⟨list, hlist, -⟩ := map_ok hcheck
          unfold Query.checkList at hlist
          split at hlist
          · exact absurd hlist (by simp)
          · rw [if_pos hall] at hlist
            split at hlist
            · exact absurd hlist (by simp)
            · rename_i hgroup
              exact not_not.mp hgroup

/-- The subquery of an accepted comparison answers one column, if and only if it is no star over
several. -/
theorem checkPredicate_columns {depth : Nat} {compare : Predicate} {exprs exprs' : ExprPool}
    (hone : compare.oneSided = false) (htakes : compare.takesSubquery = true)
    (hread : ∀ pooled ∈ checking.pool[compare.subquery.toInt.toNat]?,
      ∃ fuel tokens before after,
        parseSelectFrom fuel tokens before = .ok (pooled.select, after))
    (h : Query.checkPredicate (Query.checkSubquery (Query.checkSelectFrom tables depth)) table
      compare exprs checking = .ok (exprs', checking')) :
    ∃ pooled ∈ checking'.pool[compare.subquery.toInt.toNat]?,
      ∀ data statics results out, data.tables.map StoredTable.node = tables →
        answerSelect data statics results pooled.select = .ok out →
        (out.headers.length = 1 ↔ OneColumn tables pooled.select) := by
  simp only [Predicate.oneSided, Bool.or_eq_false_iff, decide_eq_false_iff_not] at hone
  simp only [Predicate.takesSubquery, Bool.or_eq_true, decide_eq_true_eq] at htakes
  unfold Query.checkPredicate at h
  rw [if_neg (by tauto)] at h
  split at h
  · exact absurd h (by simp)
  · rw [if_neg (by tauto), if_pos htakes] at h
    obtain ⟨after, hsub, heq⟩ := map_ok h
    obtain ⟨-, rfl⟩ := Prod.mk.inj heq
    unfold Query.checkSubquery at hsub
    dsimp only at hsub
    split at hsub
    · exact absurd hsub (by simp)
    · split at hsub
      · exact absurd hsub (by simp)
      · rename_i pooled hpooled
        split at hsub
        · exact absurd hsub (by simp)
        · rename_i checked mid hselect
          have hlength : mid.pool.length = checking.pool.length := by
            cases depth with
            | zero => exact absurd hselect (by simp [Query.checkSelectFrom])
            | succ depth => exact checkSelectFrom_walks (checkSubquery_length depth) hselect
          have hslot := (List.getElem?_eq_some_iff.mp hpooled).1
          split at hsub
          · exact absurd hsub (by simp)
          · rename_i hcount
            rw [← Except.ok.inj hsub]
            refine ⟨{ pooled with select := checked },
              List.getElem?_set_self (by rw [hlength]; exact hslot), ?_⟩
            intro data statics results out htables hanswer
            obtain ⟨fuel, tokens, before, behind, hparse⟩ := hread pooled hpooled
            obtain ⟨table, hschema, hwidth⟩ := checkSelectFrom_width (parseSelectFrom_star hparse)
              hselect htables hanswer
            unfold OneColumn
            rw [hwidth]
            by_cases hall : checked.selectAll = true
            · rw [if_pos hall]
              constructor
              · intro hcols _ other hother
                obtain rfl := Except.ok.inj (hschema.symm.trans hother)
                exact hcols
              · exact fun h => h hall table hschema
            · rw [if_neg hall]
              refine iff_of_true ?_ fun h => absurd h hall
              simpa [hall] using hcount

end

/-! ### Both spellings -/

section
variable {value : Value} {set : List Value}

/-- The evaluator's IN, and the NOT above it. -/
theorem evaluateIn_iff {cond : Condition} {sub : Subqueries} {row : Row} {i : Int32}
    {node : ConditionNode} (fuel : Nat) (hnode : cond.node i = some node)
    (hkind : node.kind = .COND_COMPARE) (hop : node.compare.op = .OP_IN)
    (hleft : exprEvaluate cond.exprs node.compare.left row = .ok value)
    (hset : sub node.compare.subquery.toInt.toNat = set) :
    (evaluateConditionFrom (fuel + 1) cond sub i row = inMeaning value set ↔ InDecided value set) ∧
    ∀ (j : Int32) (outer : ConditionNode), cond.node j = some outer → outer.kind = .COND_NOT →
      outer.left = i →
      (evaluateConditionFrom (fuel + 2) cond sub j row = (inMeaning value set).not ↔
        InDecided value set) := by
  have heval : evaluateConditionFrom (fuel + 1) cond sub i row = valueInResult value set := by
    simp only [evaluateConditionFrom, hnode, hkind]
    unfold evaluatePredicate
    rw [if_neg (by rw [hop]; decide), hleft]
    dsimp only
    rw [if_neg (by rw [hop]; decide), if_pos hop, hset]
  rw [heval]
  refine ⟨valueInResult_eq_iff, fun j outer houter hnot hinner => ?_⟩
  have hneg : evaluateConditionFrom (fuel + 2) cond sub j row =
      (evaluateConditionFrom (fuel + 1) cond sub i row).not := by
    rw [evaluateConditionFrom, houter]
    simp only [hnot, hinner]
  rw [hneg, heval, ← valueInResult_eq_iff]
  exact ⟨TriState.not_inj, congrArg TriState.not⟩

/-- A list that the parser has read, in the nodes of a finished condition. -/
theorem parseComparison_list {subquery : SubqueryRead} {having : Bool}
    {tokens behind rest : List Token} {start cond : ConditionRead} {left root : Int32}
    {exprs : ExprPool} (hfew : start.nodes.length ≤ MAX_CONDITION_NODES)
    (hleft : parseLeft having tokens start.exprs = .ok (left, behind, exprs))
    (hin : (if typeAt behind 0 == .TOKEN_KEYWORD_NOT then typeAt behind 1 else typeAt behind 0)
      = .TOKEN_KEYWORD_IN)
    (hlist : typeAt (behind.drop (if typeAt behind 0 == .TOKEN_KEYWORD_NOT then 2 else 1)) 1
      ≠ .TOKEN_KEYWORD_SELECT)
    (h : parseComparison subquery having tokens start = .ok (root, rest, cond)) :
    ∃ rights, rights ≠ [] ∧ ∀ (finished : Condition) (sub : Subqueries) (row : Row),
      cond.nodes <+: finished.nodes → finished.nodes.length ≤ MAX_CONDITION_NODES →
      exprEvaluate finished.exprs left row = .ok value →
      List.Forall₂ (fun right s => exprEvaluate finished.exprs right row = .ok s) rights set →
      evaluateConditionFrom finished.nodes.length finished sub root row =
        if typeAt behind 0 == .TOKEN_KEYWORD_NOT then (inMeaning value set).not
        else inMeaning value set := by
  unfold parseComparison at h
  rw [hleft] at h
  dsimp only at h
  split at h
  · exact absurd h (by simp)
  · rename_i node mid hnew
    obtain ⟨hroom, rfl, rfl⟩ := newCondition_few (by exact hfew) hnew
    rw [if_pos hin] at h
    obtain ⟨top, rights, hne, htree, -, hroot⟩ := parseIn_orOf
      (by rw [List.length_append]; exact hroom) rfl rfl hlist h
    refine ⟨rights, hne, fun finished sub row hfront hshort hvalue hvalues => ?_⟩
    -- what a right side is, by the values that they have
    let other : Int32 → Value := fun right =>
      ((exprEvaluate finished.exprs right row).toOption).getD zeroValue
    have hother : rights.map other = set ∧
        ∀ right ∈ rights, exprEvaluate finished.exprs right row = .ok (other right) := by
      clear hne htree hroot
      induction hvalues with
      | nil => exact ⟨rfl, fun _ hin => absurd hin (by simp)⟩
      | @cons right s rights set hs _ ih =>
        have heq : other right = s := by
          show ((exprEvaluate finished.exprs right row).toOption).getD zeroValue = s
          rw [hs]
          rfl
        refine ⟨by rw [List.map_cons, heq, ih.1], fun right' hin => ?_⟩
        rcases List.mem_cons.mp hin with rfl | hin
        · rw [hs, heq]
        · exact ih.2 right' hin
    have hkept : ∀ (k : Nat) node, cond.nodes[k]? = some node → finished.nodes[k]? = some node :=
      fun k node hk => by
        rw [getElem?_of_front hfront (List.getElem?_eq_some_iff.mp hk).1]
        exact hk
    have hlonger := hfront.length_le
    have hor : ∀ fuel, rights.length ≤ fuel →
        evaluateConditionFrom fuel finished sub (Int32.ofNat top) row = inMeaning value set := by
      intro fuel hfuel
      rw [← hother.1]
      exact (htree.mono hkept).evaluate hshort hvalue hother.2 hfuel
    generalize (typeAt behind 0 == .TOKEN_KEYWORD_NOT) = negated at hroot ⊢
    cases negated with
    | false =>
      obtain ⟨hcount, rfl⟩ := hroot
      exact hor _ (by omega)
    | true =>
      obtain ⟨hcount, i, rfl, hbranch⟩ := hroot
      obtain ⟨fuel, hfuel⟩ : ∃ n, finished.nodes.length = n + 1 :=
        ⟨finished.nodes.length - 1, by omega⟩
      rw [hfuel, evaluateConditionFrom, node_ofNat hshort (hkept _ _ hbranch)]
      show (evaluateConditionFrom fuel finished sub (Int32.ofNat top) row).not = _
      rw [hor fuel (by omega)]
      rfl

end

/-- `x IN (select ...)` and its NOT have the meaning of the OR of the equalities if and only if the
membership is decided; a list in brackets always has it; and the subquery of an accepted comparison
answers one column if and only if it is no star over several. -/
theorem in_has_one_meaning_iff (value : Value) (set : List Value) :
    (∀ (cond : Condition) (sub : Subqueries) (row : Row) (i : Int32) (node : ConditionNode)
        (fuel : Nat), cond.node i = some node → node.kind = .COND_COMPARE →
      node.compare.op = .OP_IN → exprEvaluate cond.exprs node.compare.left row = .ok value →
      sub node.compare.subquery.toInt.toNat = set →
      (evaluateConditionFrom (fuel + 1) cond sub i row = inMeaning value set ↔
        InDecided value set) ∧
      ∀ (j : Int32) (outer : ConditionNode), cond.node j = some outer → outer.kind = .COND_NOT →
        outer.left = i →
        (evaluateConditionFrom (fuel + 2) cond sub j row = (inMeaning value set).not ↔
          InDecided value set)) ∧
    (∀ (subquery : SubqueryRead) (having : Bool) (tokens behind rest : List Token)
        (start cond : ConditionRead) (left root : Int32) (exprs : ExprPool),
      start.nodes.length ≤ MAX_CONDITION_NODES →
      parseLeft having tokens start.exprs = .ok (left, behind, exprs) →
      (if typeAt behind 0 == .TOKEN_KEYWORD_NOT then typeAt behind 1 else typeAt behind 0)
        = .TOKEN_KEYWORD_IN →
      typeAt (behind.drop (if typeAt behind 0 == .TOKEN_KEYWORD_NOT then 2 else 1)) 1
        ≠ .TOKEN_KEYWORD_SELECT →
      parseComparison subquery having tokens start = .ok (root, rest, cond) →
      ∃ rights, rights ≠ [] ∧ ∀ (finished : Condition) (sub : Subqueries) (row : Row),
        cond.nodes <+: finished.nodes → finished.nodes.length ≤ MAX_CONDITION_NODES →
        exprEvaluate finished.exprs left row = .ok value →
        List.Forall₂ (fun right s => exprEvaluate finished.exprs right row = .ok s) rights set →
        evaluateConditionFrom finished.nodes.length finished sub root row =
          if typeAt behind 0 == .TOKEN_KEYWORD_NOT then (inMeaning value set).not
          else inMeaning value set) ∧
    ∀ (tables : List CatalogNode) (depth : Nat) (table : CatalogNode) (compare : Predicate)
        (exprs exprs' : ExprPool) (checking checking' : Checking),
      compare.oneSided = false → compare.takesSubquery = true →
      (∀ pooled ∈ checking.pool[compare.subquery.toInt.toNat]?,
        ∃ fuel tokens before after,
          parseSelectFrom fuel tokens before = .ok (pooled.select, after)) →
      Query.checkPredicate (Query.checkSubquery (Query.checkSelectFrom tables depth)) table
        compare exprs checking = .ok (exprs', checking') →
      ∃ pooled ∈ checking'.pool[compare.subquery.toInt.toNat]?,
        ∀ data statics results out, data.tables.map StoredTable.node = tables →
          answerSelect data statics results pooled.select = .ok out →
          (out.headers.length = 1 ↔ OneColumn tables pooled.select) :=
  ⟨fun _ _ _ _ _ fuel hnode hkind hop hleft hset =>
      evaluateIn_iff fuel hnode hkind hop hleft hset,
    fun _ _ _ _ _ _ _ _ _ _ hfew hleft hin hlist h => parseComparison_list hfew hleft hin hlist h,
    fun _ _ _ _ _ _ _ _ hone htakes hread h => checkPredicate_columns hone htakes hread h⟩

/-- Tables `t(v)` of one NULL, `s(k)` of nothing and `u(w)` of a 7. -/
def nullAndNothing : Data :=
  { tables := [{ numbered "t" "v" [] with rows := [[setNull .TYPE_INT]] }, numbered "s" "k" [],
      numbered "u" "w" [7]]
    indexes := []
    candidates := fun _ _ _ => .ok [] }

/-- The WHERE of a text that is accepted. -/
def Data.whereText (data : Data) (sql : String) : Condition := (data.select sql).wher

/-- What the text of a SELECT answers. -/
def Data.answerText (data : Data) (sql : String) : Except ErrorCode ResultSet :=
  answerStatement data (fun _ => freshStatics) (data.accept sql).2 (data.accept sql).1

/-- The number 7. -/
def seven : Value := { zeroValue with intValue := 7 }

/-- What a list in brackets is read from. -/
def listTokens : List Token := (tokenizeStatement (ascii "w in (1, 7)")).toOption.getD []

/-- What is left to read at `select w from u`. -/
def columnTokens : List Token := (tokenizeStatement (ascii "select w from u")).toOption.getD []

/-- The subquery of one column. -/
def columnSelect : ParsedSelect :=
  ((parseSelect columnTokens []).toOption.map Prod.fst).getD
    (nullAndNothing.select "select w from u")

/-- The check of `w in (select w from u)`. -/
def checkMember : Except ErrorCode (ExprPool × Checking) :=
  let tables := nullAndNothing.tables.map StoredTable.node
  Query.checkPredicate (Query.checkSubquery (Query.checkSelectFrom tables 1))
    (numbered "u" "w" [7]).node { left := 0, op := .OP_IN, right := -1, subquery := 0 }
    [columnNode (ascii "w")] { pool := [{ select := columnSelect, scalar := true }], accepted := [] }

/-- A 7 is in what a subquery has returned, and in a list that has it; and the subquery answers one
column. -/
theorem in_has_one_meaning_iff_found :
    (InDecided seven [seven] ∧
      evaluateConditionFrom 1
        (nullAndNothing.whereText "select w from u where w in (select w from u)")
        (fun _ => [seven]) 0 [seven] = .TRI_TRUE) ∧
    (∃ root rest cond,
      parseComparison parseSubquery false listTokens ⟨[], [], []⟩ = .ok (root, rest, cond) ∧
      ∃ rights, rights ≠ [] ∧ ∀ (finished : Condition) (sub : Subqueries) (row : Row),
        cond.nodes <+: finished.nodes → finished.nodes.length ≤ MAX_CONDITION_NODES →
        exprEvaluate finished.exprs 0 row = .ok seven →
        List.Forall₂ (fun right s => exprEvaluate finished.exprs right row = .ok s) rights
          [{ zeroValue with intValue := 1 }, seven] →
        evaluateConditionFrom finished.nodes.length finished sub root row = .TRI_TRUE) ∧
    ∃ exprs checking, checkMember = .ok (exprs, checking) ∧
      ∃ pooled ∈ checking.pool[0]?, ∀ statics results out,
        answerSelect nullAndNothing statics results pooled.select = .ok out →
          out.headers.length = 1 := by
  refine ⟨?_, ?_, ?_⟩
  · have hdecided : InDecided seven [seven] := by
      unfold InDecided
      decide +kernel
    have hfound := (in_has_one_meaning_iff seven [seven]).1
      (nullAndNothing.whereText "select w from u where w in (select w from u)")
      (fun _ => [seven]) [seven] 0
      (predicateNode { left := 0, op := .OP_IN, right := -1, subquery := 0 }) 0
      (by decide +kernel) rfl rfl (by decide +kernel) rfl
    refine ⟨hdecided, ?_⟩
    rw [hfound.1.mpr hdecided]
    decide +kernel
  · have hread : (parseComparison parseSubquery false listTokens ⟨[], [], []⟩).toOption.isSome
        = true := by decide +kernel
    cases hparsed : parseComparison parseSubquery false listTokens ⟨[], [], []⟩ with
    | error code =>
      rw [hparsed] at hread
      exact absurd hread (by simp [Except.toOption])
    | ok parsed =>
      obtain ⟨root, rest, cond⟩ := parsed
      obtain ⟨rights, hne, hmeans⟩ := (in_has_one_meaning_iff seven
        [{ zeroValue with intValue := 1 }, seven]).2.1 parseSubquery false listTokens
        (listTokens.drop 1) rest ⟨[], [], []⟩ cond 0 root [columnNode (ascii "w")] (Nat.zero_le _)
        (by decide +kernel) (by decide +kernel) (by decide +kernel) hparsed
      refine ⟨root, rest, cond, rfl, rights, hne, ?_⟩
      intro finished sub row hnodes hfew hleft hrights
      rw [hmeans finished sub row hnodes hfew hleft hrights]
      decide +kernel
  · have hread : (checkMember.toOption.any fun checked =>
        checked.2.pool.all fun pooled => !pooled.select.selectAll) = true := by decide +kernel
    have hselect : parseSelect columnTokens [] = .ok (columnSelect, []) := by decide +kernel
    cases hchecked : checkMember with
    | error code =>
      rw [hchecked] at hread
      exact absurd hread (by simp [Except.toOption])
    | ok checked =>
      obtain ⟨exprs, checking⟩ := checked
      rw [hchecked] at hread
      obtain ⟨pooled, hpooled, hone⟩ := (in_has_one_meaning_iff seven []).2.2
        (nullAndNothing.tables.map StoredTable.node) 1 (numbered "u" "w" [7]).node
        { left := 0, op := .OP_IN, right := -1, subquery := 0 } [columnNode (ascii "w")] exprs
        { pool := [{ select := columnSelect, scalar := true }], accepted := [] } checking rfl rfl
        (by
          rintro pooled hpooled
          obtain rfl := Option.some.inj hpooled
          exact ⟨_, columnTokens, [], [], hselect⟩) hchecked
      refine ⟨exprs, checking, rfl, pooled, hpooled, fun statics results out hout => ?_⟩
      refine (hone nullAndNothing statics results out rfl hout).mpr fun hall => ?_
      -- the subquery is no star
      have hin : pooled ∈ checking.pool := List.mem_of_getElem? hpooled
      have hplain := List.all_eq_true.mp hread pooled hin
      rw [hall] at hplain
      exact absurd hplain (by decide)

/-- A NULL is not in nothing, and the row that holds it is lost. -/
theorem null_not_in_nothing :
    (nullAndNothing.answerText "select v from t where v not in (select k from s)").map
      ResultSet.rows = .ok [] ∧
    (inMeaning (setNull .TYPE_INT) []).not = .TRI_TRUE := by
  decide +kernel

end DatabaseEngine
