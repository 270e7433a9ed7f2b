import DatabaseEngine.Proofs.Semantic.Operands
import Mathlib.Data.List.Pairwise

/-!
# `DatabaseEngine.Proofs.Semantic.Agreement`: how a check brings two sides to one type

A check walks the comparisons of a condition and brings the two sides of each to one type by
fitting a literal. It does so in a pool that the comparisons of an IN list share, and a
subquery's column is left as it is.

* `checkPredicate_cases`: what the check of one comparison does.
* `Checked`: what is true after the first comparisons of a condition.
* `Checked.step`: one more comparison; `checkCondition_checked`: all of them.
-/

set_option autoImplicit false

namespace DatabaseEngine

/-! ### One comparison -/

section
variable {subqueries : List Subquery} {table : CatalogNode} {exprs exprs' : ExprPool}
  {compare : Predicate}

/-- An expression that has been bound and typed. -/
theorem resolveType_ok {i : Int32} {type : ColType} (h : resolveType table exprs i = .ok (type, exprs')) :
    Settles table (fun _ => False) exprs exprs' ∧ typeOf table exprs i = some type ∧
      ∀ j n, reaches exprs i j = true → exprs'.node j = some n → n.Stamped table := by
  have hsettles : Settles table (fun _ => False) exprs (exprResolve table exprs i).2 :=
    exprResolve_settles
  have hstamped := fun h j n => @exprResolve_stamped table exprs i h j n
  unfold resolveType at h
  generalize exprResolve table exprs i = r at h hsettles hstamped
  obtain ⟨r, pool⟩ := r
  cases r with
  | error code => exact absurd h (by simp)
  | ok u =>
    simp only at h
    split at h
    · exact absurd h (by simp)
    · rename_i type' htype
      obtain ⟨rfl, rfl⟩ := Prod.mk.inj (Except.ok.inj h)
      have hleaves := hstamped rfl
      refine ⟨hsettles, ?_, fun j n => hleaves j n⟩
      have htypeOf : typeOf table pool i = some type' :=
        exprTypeFrom_eq (fun j n hj hn => hleaves j n (by rwa [← hsettles.reaches_eq]) hn) htype
      rw [← hsettles.typeOf_eq fun _ _ => id]
      exact htypeOf

/-- What bringing two sides to one type does. -/
inductive Agreed (table : CatalogNode) (exprs : ExprPool) (compare : Predicate)
    (left right : ColType) (exprs' : ExprPool) : Prop
  | same (h : left = right) (hsame : exprs' = exprs)
  | fitRight (v v' : Value) (hne : left ≠ right) (hv : exprLiteral exprs compare.right = some v)
      (hfit : coerceLiteral v left = .ok v')
      (hsettles : Settles table (fun j => j = compare.right) exprs exprs')
      (hv' : exprLiteral exprs' compare.right = some v')
  | fitLeft (v v' : Value) (hne : left ≠ right) (hno : exprLiteral exprs compare.right = none)
      (hv : exprLiteral exprs compare.left = some v) (hfit : coerceLiteral v right = .ok v')
      (hsettles : Settles table (fun j => j = compare.left) exprs exprs')
      (hv' : exprLiteral exprs' compare.left = some v')

/-- Two sides that are agreed upon have one type, or a literal was fitted. -/
theorem agreeSides_agreed {left right : ColType}
    (h : agreeSides table exprs compare left right = .ok exprs') :
    Agreed table exprs compare left right exprs' := by
  -- the leaves are written again after a literal was fitted
  have hagain : ∀ {fitted : Int32 → Prop} {pool : ExprPool}, Settles table fitted exprs pool →
      let last := (exprResolve table (exprResolve table pool compare.left).2 compare.right).2
      Settles table fitted exprs last ∧
        ∀ i, exprLiteral last i = exprLiteral pool i := by
    intro fitted pool hpool last
    have hwritten : Settles table (fun _ => False) pool last :=
      (exprResolve_settles.trans exprResolve_settles).mono fun j hj => hj.elim id id
    exact ⟨(hpool.trans hwritten).mono fun j hj => hj.elim id False.elim,
      fun i => hwritten.exprLiteral_eq id⟩
  unfold agreeSides at h
  split at h
  · rename_i heq
    exact .same heq (Except.ok.inj h).symm
  · rename_i hne
    dsimp only at h
    split at h
    · exact absurd h (by simp)
    · rename_i pool hfitted
      obtain rfl := Except.ok.inj h
      split at hfitted
      · rename_i hright
        obtain ⟨v, hv⟩ := Option.isSome_iff_exists.mp hright
        obtain ⟨v', hfit, hsettles, hv'⟩ := coerceAt_settles hv hfitted
        obtain ⟨hlast, hlits⟩ := hagain hsettles
        exact .fitRight v v' hne hv hfit hlast (by rw [hlits, hv'])
      · rename_i hright
        split at hfitted
        · rename_i hleft
          obtain ⟨v, hv⟩ := Option.isSome_iff_exists.mp hleft
          obtain ⟨v', hfit, hsettles, hv'⟩ := coerceAt_settles hv hfitted
          obtain ⟨hlast, hlits⟩ := hagain hsettles
          exact .fitLeft v v' hne (by simpa using hright) hv hfit hlast (by rw [hlits, hv'])
        · exact absurd hfitted (by simp)

/-- What the check of a comparison does, if it accepts. -/
inductive CheckStep (table : CatalogNode) (exprs : ExprPool) (compare : Predicate)
    (exprs' : ExprPool) : Prop
  | exists (hop : compare.op = .OP_EXISTS) (hsame : exprs' = exprs)
  | leftOnly (left : ColType) (hop : compare.op ≠ .OP_EXISTS) (hplain : compare.plain = false)
      (hleft : resolveType table exprs compare.left = .ok (left, exprs'))
      (hpattern : compare.oneSided = false → compare.takesSubquery = false → left = .TYPE_TEXT)
  | both (left right : ColType) (bound written : ExprPool) (hplain : compare.plain = true)
      (hleft : resolveType table exprs compare.left = .ok (left, bound))
      (hright : resolveType table bound compare.right = .ok (right, written))
      (hagreed : Agreed table written compare left right exprs')

/-- Everything the check of one comparison can do. -/
theorem checkPredicate_cases (h : checkPredicate subqueries table exprs compare = .ok exprs') :
    CheckStep table exprs compare exprs' := by
  have hkeep : ∀ {r : Except ErrorCode Unit} {pool : ExprPool},
      r.map (fun _ => pool) = .ok exprs' → exprs' = pool := by
    intro r pool hr
    cases r with
    | error code => exact absurd hr (by simp [Except.map])
    | ok u => exact (Except.ok.inj hr).symm
  unfold checkPredicate at h
  split at h
  · rename_i hop
    exact .exists hop (hkeep h)
  · rename_i hop
    split at h
    · exact absurd h (by simp)
    · rename_i left bound hleft
      split at h
      · rename_i hnull
        obtain rfl := Except.ok.inj h
        have hone : compare.oneSided = true := by
          rcases hnull with hnull | hnull <;> simp [Predicate.oneSided, hnull]
        exact .leftOnly left hop (by simp [Predicate.plain, hone]) hleft
          fun hno => absurd (hone.symm.trans hno) (by simp)
      · rename_i hnull
        have hone : compare.oneSided = false := by
          simp only [not_or] at hnull
          simp [Predicate.oneSided, hop, hnull.1, hnull.2]
        split at h
        · rename_i hsub
          obtain rfl := hkeep h
          have htakes : compare.takesSubquery = true := by
            simpa [Predicate.takesSubquery] using hsub
          exact .leftOnly left hop (by simp [Predicate.plain, htakes]) hleft
            fun _ hno => absurd (htakes.symm.trans hno) (by simp)
        · rename_i hsub
          have htakes : compare.takesSubquery = false := by
            simpa [Predicate.takesSubquery] using hsub
          split at h
          · rename_i hlike
            have hpattern : compare.matchesPattern = true := by
              simpa [Predicate.matchesPattern] using hlike
            split at h
            · rename_i htext
              obtain rfl := Except.ok.inj h
              exact .leftOnly left hop (by simp [Predicate.plain, hpattern]) hleft
                fun _ _ => htext
            · exact absurd h (by simp)
          · rename_i hlike
            have hpattern : compare.matchesPattern = false := by
              simpa [Predicate.matchesPattern] using hlike
            split at h
            · exact absurd h (by simp)
            · rename_i right written hright
              exact .both left right bound written
                (by simp [Predicate.plain, hone, htakes, hpattern]) hleft hright
                (agreeSides_agreed h)

end

/-! ### The comparisons of a condition -/

/-- The comparisons checked one after another. -/
def checkEach (subqueries : List Subquery) (table : CatalogNode) :
    List Predicate → ExprPool → Except ErrorCode ExprPool
  | [], exprs => .ok exprs
  | compare :: rest, exprs =>
    match checkPredicate subqueries table exprs compare with
    | .error code => .error code
    | .ok exprs => checkEach subqueries table rest exprs

/-- A longer list is checked front first, the back in the pool that came out. -/
theorem checkEach_append (subqueries : List Subquery) (table : CatalogNode)
    (front back : List Predicate) (exprs : ExprPool) :
    checkEach subqueries table (front ++ back) exprs =
      match checkEach subqueries table front exprs with
      | .error code => .error code
      | .ok exprs => checkEach subqueries table back exprs := by
  induction front generalizing exprs with
  | nil => rfl
  | cons compare rest ih =>
    simp only [List.cons_append, checkEach]
    cases checkPredicate subqueries table exprs compare with
    | error code => rfl
    | ok exprs => exact ih exprs

/-- The walk of the tree checks its comparisons in order. -/
theorem checkConditionFrom_each {subqueries : List Subquery} {table : CatalogNode}
    {nodes : List ConditionNode} {fuel : Nat} {i : Int32} {exprs exprs' : ExprPool}
    (h : checkConditionFrom subqueries table nodes fuel exprs i = .ok exprs') :
    checkEach subqueries table (comparisonsFrom nodes fuel i) exprs = .ok exprs' := by
  induction fuel generalizing i exprs exprs' with
  | zero => simp [checkConditionFrom] at h
  | succ fuel ih =>
    unfold checkConditionFrom at h
    unfold comparisonsFrom
    cases hnode : (if i < 0 then none else nodes[i.toInt.toNat]?) with
    | none =>
      rw [hnode] at h
      exact absurd h (by simp)
    | some node =>
      rw [hnode] at h
      dsimp only at h ⊢
      have hboth : ∀ {l r : Int32},
          (match checkConditionFrom subqueries table nodes fuel exprs l with
            | .error code => (Except.error code : Except ErrorCode ExprPool)
            | .ok exprs => checkConditionFrom subqueries table nodes fuel exprs r) = .ok exprs' →
          checkEach subqueries table
            (comparisonsFrom nodes fuel l ++ comparisonsFrom nodes fuel r) exprs = .ok exprs' := by
        intro l r hlr
        rw [checkEach_append]
        split at hlr
        · exact absurd hlr (by simp)
        · rename_i mid hl
          rw [ih hl]
          exact ih hlr
      cases hkind : node.kind with
      | COND_COMPARE =>
        simp only [hkind] at h
        simp only [checkEach, h]
      | COND_NOT =>
        simp only [hkind] at h
        exact ih h
      | COND_AND =>
        simp only [hkind] at h
        exact hboth h
      | COND_OR =>
        simp only [hkind] at h
        exact hboth h

/-! ### What a check leaves behind -/

/-- The literals that the comparisons of a list may fit. -/
def Fitted (exprs : ExprPool) (checked : List Predicate) (j : Int32) : Prop :=
  ∃ other ∈ checked, other.plain = true ∧ (j = other.left ∨ j = other.right) ∧
    (exprLiteral exprs j).isSome = true

section
variable {table : CatalogNode} {cond : Condition} {exprs pool : ExprPool}
  {compare : Predicate} {checked : List Predicate}

/-- Both sides of a plain comparison are operands. -/
theorem Predicate.mem_operands (h : compare.plain = true) :
    compare.left ∈ compare.operands ∧ compare.right ∈ compare.operands := by
  simp only [Predicate.plain, Bool.and_eq_true, Bool.not_eq_true'] at h
  have hop : compare.op ≠ .OP_EXISTS := by
    intro hop
    simp [Predicate.oneSided, hop] at h
  simp [Predicate.operands, hop, h.1.1, h.1.2]

/-- A comparison has no operands but its two sides. -/
theorem Predicate.operands_plain {i : Int32}
    (hi : i ∈ compare.operands) : i = compare.left ∨ i = compare.right := by
  unfold Predicate.operands at hi
  split at hi
  · exact absurd hi (by simp)
  · split at hi
    · exact .inl (by simpa using hi)
    · simpa using hi

/-- The sides of two comparisons are apart. -/
theorem Condition.Written.spares (hw : cond.Written) {other : Predicate}
    (hin : compare ∈ comparisons cond) (hother : other ∈ comparisons cond)
    (hne : compare ≠ other) : compare.Spares cond.exprs other := by
  have hsymm : Std.Symm fun a b : Predicate =>
      a.Spares cond.exprs b ∧ b.Spares cond.exprs a := ⟨fun _ _ h => ⟨h.2, h.1⟩⟩
  exact (hw.apart.forall hin hother hne).1

/-- A literal that some comparison may fit is, in a written condition, a side of this one, or
not in it. -/
theorem fitted_reached (hw : cond.Written) (hin : compare ∈ comparisons cond) {i : Int32}
    (hi : i ∈ compare.operands) {j : Int32} (hreach : reaches cond.exprs i j = true)
    (hfit : Fitted cond.exprs (comparisons cond) j) : compare.plain = true ∧ j = i := by
  obtain ⟨other, hother, hplain, hside, hlit⟩ := hfit
  have hreads : compare.reads cond.exprs j = true := List.any_eq_true.mpr ⟨i, hi, hreach⟩
  by_cases hsame : compare = other
  · subst hsame
    refine ⟨hplain, ?_⟩
    obtain ⟨hleft, hright⟩ := (hw.each compare hin).apart hplain
    rcases compare.operands_plain hi with rfl | rfl
    · rcases hside with rfl | rfl
      · rfl
      · exact absurd (hreach.symm.trans hleft) (by simp)
    · rcases hside with rfl | rfl
      · exact absurd (hreach.symm.trans hright) (by simp)
      · rfl
  · obtain ⟨hright, hleft⟩ := hw.spares hin hother hsame hplain
    rcases hside with rfl | rfl
    · obtain ⟨hplain', heq, hno⟩ := hleft hreads
      refine ⟨hplain', ?_⟩
      rcases compare.operands_plain hi with rfl | rfl
      · exact heq.symm
      · exact absurd (hreach.symm.trans hno) (by simp)
    · exact absurd (hreads.symm.trans hright) (by simp)

/-- No literal is fitted in an expression that is not one itself. -/
theorem not_fitted (hw : cond.Written) (hin : compare ∈ comparisons cond) {i : Int32}
    (hi : i ∈ compare.operands)
    (hfree : compare.plain = false ∨ exprLiteral cond.exprs i = none) {j : Int32}
    (hreach : reaches cond.exprs i j = true) : ¬Fitted cond.exprs (comparisons cond) j := by
  intro hfit
  obtain ⟨hplain, rfl⟩ := fitted_reached hw hin hi hreach hfit
  obtain ⟨-, -, -, -, hlit⟩ := hfit
  rcases hfree with hno | hno
  · exact absurd (hplain.symm.trans hno) (by simp)
  · rw [hno] at hlit
    exact absurd hlit (by simp)

/-- The left side is no NULL. -/
def Present (exprs : ExprPool) (left : Int32) : Prop :=
  ∀ v, exprLiteral exprs left = some v → v.isNull = false

/-- What is true of the pool once the comparisons `checked`, the first ones of a condition,
have been checked. -/
structure Checked (table : CatalogNode) (cond : Condition) (checked : List Predicate)
    (pool : ExprPool) : Prop where
  settles : Settles table (Fitted cond.exprs checked) cond.exprs pool
  bound : ∀ compare ∈ checked, ∀ i ∈ compare.operands, ∀ j n,
    reaches cond.exprs i j = true → pool.node j = some n → n.Bound table
  leftTyped : ∀ compare ∈ checked, compare.op ≠ .OP_EXISTS →
    ∃ type, typeOf table cond.exprs compare.left = some type ∧
      (compare.oneSided = false → compare.takesSubquery = false →
        compare.matchesPattern = true → type = .TYPE_TEXT)
  rightTyped : ∀ compare ∈ checked, compare.plain = true →
    ∃ type, typeOf table cond.exprs compare.right = some type
  left : ∀ compare ∈ comparisons cond, compare.plain = true → Present cond.exprs compare.left →
    typeOf table pool compare.left = fittedType table cond.exprs checked compare.left
  right : ∀ before compare after, checked = before ++ compare :: after → compare.plain = true →
    Present cond.exprs compare.left →
      typeOf table pool compare.right =
        fittedType table cond.exprs (before ++ [compare]) compare.left
  wide : ∀ compare ∈ comparisons cond, compare.plain = true → Present cond.exprs compare.left →
    fittedType table cond.exprs checked compare.left = typeOf table cond.exprs compare.left ∨
      fittedType table cond.exprs checked compare.left = some .TYPE_FLOAT ∨
      fittedType table cond.exprs checked compare.left = some .TYPE_DATE

/-- Before anything was checked, the pool is as it came. -/
theorem checked_nil (table : CatalogNode) (cond : Condition) :
    Checked table cond [] cond.exprs where
  settles := .refl _ _ _
  bound compare hin := absurd hin (by simp)
  leftTyped compare hin := absurd hin (by simp)
  rightTyped compare hin := absurd hin (by simp)
  left compare _ _ _ := rfl
  right before compare after h := absurd h (by simp)
  wide compare _ _ _ := .inl rfl

/-- Fitting does not reach sides of other comparisons than the ones it may. -/
theorem typeOf_kept {pool' : ExprPool} {fitted : Int32 → Prop}
    (h : Settles table (Fitted cond.exprs checked) cond.exprs pool)
    (h' : Settles table fitted pool pool') {i : Int32}
    (hfree : ∀ j, reaches cond.exprs i j = true → ¬fitted j) :
    typeOf table pool' i = typeOf table pool i :=
  h'.typeOf_eq fun j hj => hfree j (by rwa [← h.reaches_eq])

/-- A comparison that fits nothing leaves the fitted type. -/
theorem fittedType_append_of_not {left : Int32}
    (h : fits table exprs left compare = false) :
    fittedType table exprs (checked ++ [compare]) left = fittedType table exprs checked left := by
  unfold fittedType
  rw [List.find?_append]
  cases hfound : checked.find? (fits table exprs left) with
  | some other => rfl
  | none => simp [List.find?, h]

/-- A comparison of another left side, or one that is a literal itself, does not fit it. -/
theorem fits_eq_false {left : Int32}
    (h : compare.plain = true → compare.left = left → (exprLiteral exprs left).isSome = true →
      exprLiteral exprs compare.right = none →
      typeOf table exprs compare.right = typeOf table exprs left) :
    fits table exprs left compare = false := by
  unfold fits
  by_contra hfits
  simp only [Bool.not_eq_false, Bool.and_eq_true, beq_iff_eq, bne_iff_ne, ne_eq,
    Option.isNone_iff_eq_none] at hfits
  obtain ⟨⟨⟨⟨hplain, hleft⟩, hlit⟩, hno⟩, hne⟩ := hfits
  exact hne (h hplain hleft hlit hno)

/-- Fitting to the type a literal has already leaves the fitted type. -/
theorem fittedType_append_of_eq {left : Int32}
    (h : typeOf table exprs compare.right = fittedType table exprs checked left) :
    fittedType table exprs (checked ++ [compare]) left = fittedType table exprs checked left := by
  cases hfound : checked.find? (fits table exprs left) with
  | some other => simp [fittedType, List.find?_append, hfound]
  | none =>
    have hsame : fittedType table exprs checked left = typeOf table exprs left := by
      simp [fittedType, hfound]
    exact fittedType_append_of_not (fits_eq_false fun _ _ _ _ => h.trans hsame)

/-- The first comparison that fits a left side gives it its type. -/
theorem fittedType_append_of_fits {left : Int32} (h : fits table exprs left compare = true)
    (hfirst : fittedType table exprs checked left = typeOf table exprs left) :
    fittedType table exprs (checked ++ [compare]) left = typeOf table exprs compare.right := by
  cases hfound : checked.find? (fits table exprs left) with
  | none => simp [fittedType, List.find?_append, hfound, h]
  | some other =>
    have hfits := List.find?_some hfound
    simp only [fittedType, hfound] at hfirst
    simp only [fits, Bool.and_eq_true, bne_iff_ne] at hfits
    exact absurd hfirst hfits.2

/-- A node that is bound stays bound through the checks. -/
theorem Settles.bound {pool' : ExprPool} {fitted : Int32 → Prop}
    (h : Settles table fitted pool pool') {j : Int32}
    (hb : ∀ n, pool.node j = some n → n.Bound table) :
    ∀ n, pool'.node j = some n → n.Bound table := by
  intro n' hn'
  cases hn : pool.node j with
  | none =>
    rw [(h.none_iff j).mpr hn] at hn'
    exact absurd hn' (by simp)
  | some n =>
    obtain ⟨m, hm, -, hbound, -⟩ := h.node j n hn
    rw [hn'] at hm
    obtain rfl := Option.some.inj hm
    exact hbound (hb n hn)

/-- An element of an extended list stands in the front or at the end. -/
theorem append_singleton_split {α : Type} {front before after : List α} {x y : α}
    (h : front ++ [x] = before ++ y :: after) :
    (∃ rest, front = before ++ y :: rest) ∨ front = before ∧ x = y := by
  rcases List.append_eq_append_iff.mp h with ⟨mid, rfl, hmid⟩ | ⟨mid, rfl, hmid⟩
  · cases mid with
    | nil => exact .inr ⟨by simp, by simpa using (List.cons.inj hmid).1⟩
    | cons z rest => simp at hmid
  · cases mid with
    | nil => exact .inr ⟨by simp, by simpa using (List.cons.inj hmid).1.symm⟩
    | cons z rest =>
      obtain ⟨rfl, -⟩ := List.cons.inj hmid
      exact .inl ⟨rest, rfl⟩

/-- One more comparison: what its check has to leave, the rest is as it was. -/
theorem Checked.extend {before after : List Predicate} (hw : cond.Written)
    (hsplit : comparisons cond = before ++ compare :: after)
    (h : Checked table cond before pool) {pool' : ExprPool} {fitted : Int32 → Prop}
    (hsettles : Settles table fitted pool pool')
    (hfitted : ∀ j, fitted j → compare.plain = true ∧ (j = compare.left ∨ j = compare.right) ∧
      (exprLiteral cond.exprs j).isSome = true)
    (hbound : ∀ i ∈ compare.operands, ∀ j n, reaches cond.exprs i j = true →
      pool'.node j = some n → n.Bound table)
    (hleftTyped : compare.op ≠ .OP_EXISTS →
      ∃ type, typeOf table cond.exprs compare.left = some type ∧
        (compare.oneSided = false → compare.takesSubquery = false →
          compare.matchesPattern = true → type = .TYPE_TEXT))
    (hrightTyped : compare.plain = true →
      ∃ type, typeOf table cond.exprs compare.right = some type)
    (hleft : ∀ other ∈ comparisons cond, other.plain = true → Present cond.exprs other.left →
      typeOf table pool' other.left =
        fittedType table cond.exprs (before ++ [compare]) other.left)
    (hright : compare.plain = true → Present cond.exprs compare.left →
      typeOf table pool' compare.right =
        fittedType table cond.exprs (before ++ [compare]) compare.left)
    (hwide : ∀ other ∈ comparisons cond, other.plain = true → Present cond.exprs other.left →
      fittedType table cond.exprs (before ++ [compare]) other.left =
          typeOf table cond.exprs other.left ∨
        fittedType table cond.exprs (before ++ [compare]) other.left = some .TYPE_FLOAT ∨
        fittedType table cond.exprs (before ++ [compare]) other.left = some .TYPE_DATE) :
    Checked table cond (before ++ [compare]) pool' where
  settles := (h.settles.trans hsettles).mono fun j hj => by
    rcases hj with ⟨other, hother, hrest⟩ | hj
    · exact ⟨other, by simp [hother], hrest⟩
    · obtain ⟨hplain, hside, hlit⟩ := hfitted j hj
      exact ⟨compare, by simp, hplain, hside, hlit⟩
  bound other hother i hi j n hreach := by
    rcases List.mem_append.mp hother with hin | hin
    · exact fun hn => hsettles.bound (fun m hm => h.bound other hin i hi j m hreach hm) n hn
    · obtain rfl := List.mem_singleton.mp hin
      exact hbound i hi j n hreach
  leftTyped other hother := by
    rcases List.mem_append.mp hother with hin | hin
    · exact h.leftTyped other hin
    · obtain rfl := List.mem_singleton.mp hin
      exact hleftTyped
  rightTyped other hother := by
    rcases List.mem_append.mp hother with hin | hin
    · exact h.rightTyped other hin
    · obtain rfl := List.mem_singleton.mp hin
      exact hrightTyped
  left := hleft
  right front other rest heq hplain hpresent := by
    rcases append_singleton_split heq with ⟨rest', hfront⟩ | ⟨rfl, rfl⟩
    · rw [← h.right front other rest' hfront hplain hpresent]
      refine typeOf_kept h.settles hsettles fun j hreach hj => ?_
      -- the sides of an earlier comparison are apart from this one's
      obtain ⟨hplain', hside, -⟩ := hfitted j hj
      have hin : other ∈ before := by rw [hfront]; simp
      have hspares : other.Spares cond.exprs compare := by
        have hapart := hw.apart
        rw [hsplit] at hapart
        exact ((List.pairwise_append.mp hapart).2.2 other hin compare (by simp)).1
      obtain ⟨hno, hshare⟩ := hspares hplain'
      have hreads : other.reads cond.exprs j = true :=
        List.any_eq_true.mpr ⟨other.right, (other.mem_operands hplain).2, hreach⟩
      rcases hside with rfl | rfl
      · exact absurd (hreach.symm.trans (hshare hreads).2.2) (by simp)
      · exact absurd (hreads.symm.trans hno) (by simp)
    · exact hright hplain hpresent
  wide := hwide

/-- A literal fitted by some comparisons is fitted by more. -/
theorem Fitted.mono {more : List Predicate} {j : Int32} (h : Fitted exprs checked j)
    (hmore : ∀ other ∈ checked, other ∈ more) : Fitted exprs more j := by
  obtain ⟨other, hother, hrest⟩ := h
  exact ⟨other, hmore other hother, hrest⟩

/-- Only a plain comparison fits a literal. -/
theorem fits_of_not_plain {left : Int32} (h : compare.plain = false) :
    fits table exprs left compare = false := by
  simp [fits, h]

/-- What is fitted is a literal on the left, to a right side that is none. -/
theorem fits_left {left : Int32} (h : fits table exprs left compare = true) :
    compare.left = left ∧ exprLiteral exprs compare.right = none := by
  simp only [fits, Bool.and_eq_true, beq_iff_eq, Option.isNone_iff_eq_none] at h
  exact ⟨h.1.1.1.2, h.1.2⟩

/-- A comparison fits its own left side only. -/
theorem fits_of_ne {left : Int32} (h : compare.left ≠ left) :
    fits table exprs left compare = false :=
  fits_eq_false fun _ heq => absurd heq h

/-- A literal on the right is fitted to nothing. -/
theorem fits_of_literal {left : Int32} (h : (exprLiteral exprs compare.right).isSome = true) :
    fits table exprs left compare = false :=
  fits_eq_false fun _ _ _ hno => by
    rw [hno] at h
    exact absurd h (by simp)

/-- A plain comparison has two sides, no subquery and no pattern. -/
theorem Predicate.plain_op (h : compare.plain = true) :
    compare.op ≠ .OP_EXISTS ∧ compare.oneSided = false ∧ compare.takesSubquery = false ∧
      compare.matchesPattern = false := by
  simp only [Predicate.plain, Bool.and_eq_true, Bool.not_eq_true'] at h
  refine ⟨?_, h.1.1, h.1.2, h.2⟩
  intro hop
  simp [Predicate.oneSided, hop] at h

/-- The type that the check meets on a side is the one the columns and literals give it, unless
the side is a literal. -/
theorem Checked.typeOf_side {before : List Predicate} (hw : cond.Written)
    (hin : compare ∈ comparisons cond) (hbefore : ∀ other ∈ before, other ∈ comparisons cond)
    (h : Checked table cond before pool) {i : Int32} (hi : i ∈ compare.operands)
    (hfree : compare.plain = false ∨ exprLiteral cond.exprs i = none) :
    typeOf table pool i = typeOf table cond.exprs i :=
  h.settles.typeOf_eq fun _ hreach hfit =>
    not_fitted hw hin hi hfree hreach (hfit.mono hbefore)

/-- A side that has a type when it is checked has one at the start. -/
theorem Checked.typed_side {before : List Predicate} (hw : cond.Written)
    (hin : compare ∈ comparisons cond) (hbefore : ∀ other ∈ before, other ∈ comparisons cond)
    (h : Checked table cond before pool) {i : Int32} (hi : i ∈ compare.operands) {type : ColType}
    (htype : typeOf table pool i = some type) :
    ∃ type, typeOf table cond.exprs i = some type := by
  cases hlit : exprLiteral cond.exprs i with
  | some v => exact ⟨v.type, typeOf_literal hlit⟩
  | none => exact ⟨type, by rw [← h.typeOf_side hw hin hbefore hi (.inr hlit), htype]⟩

/-- A comparison in which no literal bends. -/
theorem Checked.step_unbent {before after : List Predicate} (hw : cond.Written)
    (hsplit : comparisons cond = before ++ compare :: after)
    (h : Checked table cond before pool) {pool' : ExprPool}
    (hsettles : Settles table (fun _ => False) pool pool') (hplain : compare.plain = false)
    (hbound : ∀ i ∈ compare.operands, ∀ j n, reaches cond.exprs i j = true →
      pool'.node j = some n → n.Bound table)
    (hleftTyped : compare.op ≠ .OP_EXISTS →
      ∃ type, typeOf table cond.exprs compare.left = some type ∧
        (compare.oneSided = false → compare.takesSubquery = false →
          compare.matchesPattern = true → type = .TYPE_TEXT)) :
    Checked table cond (before ++ [compare]) pool' := by
  have hsame : ∀ left, fittedType table cond.exprs (before ++ [compare]) left =
      fittedType table cond.exprs before left := fun left =>
    fittedType_append_of_not (fits_of_not_plain hplain)
  refine h.extend hw hsplit hsettles (fun _ hj => hj.elim) hbound hleftTyped
    (fun hp => absurd (hp.symm.trans hplain) (by simp)) ?_
    (fun hp => absurd (hp.symm.trans hplain) (by simp)) ?_
  · intro other hother hp hpresent
    rw [hsame, ← h.left other hother hp hpresent]
    exact hsettles.typeOf_eq fun _ _ => id
  · intro other hother hp hpresent
    rw [hsame]
    exact h.wide other hother hp hpresent

/-- A literal has the type of the pool it stands in. -/
theorem Settles.literal_type {fitted : Int32 → Prop} {pool' : ExprPool}
    (h : Settles table fitted pool pool') {i : Int32} (hfree : ¬fitted i) {v : Value}
    (hv : exprLiteral pool' i = some v) : typeOf table pool i = some v.type := by
  rw [h.exprLiteral_eq hfree] at hv
  exact typeOf_literal hv

/-- One more comparison checked. -/
theorem Checked.step {subqueries : List Subquery} {before after : List Predicate}
    (hw : cond.Written) (hsplit : comparisons cond = before ++ compare :: after)
    (h : Checked table cond before pool) {pool' : ExprPool}
    (hcheck : checkPredicate subqueries table pool compare = .ok pool') :
    Checked table cond (before ++ [compare]) pool' := by
  have hin : compare ∈ comparisons cond := by simp [hsplit]
  have hbefore : ∀ other ∈ before, other ∈ comparisons cond := fun other hother => by
    simp [hsplit, hother]
  cases checkPredicate_cases hcheck with
  | «exists» hop hsame =>
    subst hsame
    have hone : compare.oneSided = true := by simp [Predicate.oneSided, hop]
    refine h.step_unbent hw hsplit (.refl _ _ _) (by simp [Predicate.plain, hone]) ?_
      fun hne => absurd hop hne
    intro i hi
    simp [Predicate.operands, hop] at hi
  | leftOnly left hop hplain hleft hpattern =>
    obtain ⟨hsettles, htype, hstamped⟩ := resolveType_ok hleft
    have hmem : compare.left ∈ compare.operands := by
      unfold Predicate.operands
      rw [if_neg hop]
      split <;> simp
    refine h.step_unbent hw hsplit hsettles hplain ?_ ?_
    · intro i hi j n hreach hn
      have hleftBound : reaches cond.exprs compare.left j = true → n.Bound table := by
        intro hj
        rw [← h.settles.reaches_eq] at hj
        exact (hstamped j n hj hn).bound
      by_cases hboth : compare.oneSided = true ∨ compare.takesSubquery = true
      · have hi' : i = compare.left := by
          unfold Predicate.operands at hi
          rw [if_neg hop, if_pos (by simpa using hboth)] at hi
          exact List.mem_singleton.mp hi
        exact hleftBound (hi' ▸ hreach)
      · simp only [not_or, Bool.not_eq_true] at hboth
        rcases compare.operands_plain hi with rfl | rfl
        · exact hleftBound hreach
        · -- a pattern is a literal, and has no column in it
          have hmatch : compare.matchesPattern = true := by
            simpa [Predicate.plain, hboth.1, hboth.2] using hplain
          obtain ⟨v, hv, -⟩ :=
            (Option.any_eq_true _ _).mp ((hw.each compare hin).pattern hmatch)
          obtain rfl := reaches_literal hv hreach
          obtain ⟨v', hv', -⟩ := (h.settles.trans hsettles).literal hv
          obtain ⟨m, hm, hkind, -⟩ := exprLiteral_some hv'
          rw [hn] at hm
          obtain rfl := Option.some.inj hm
          exact fun hcol => absurd (hkind.symm.trans hcol) (by simp)
    · intro _
      refine ⟨left, ?_, fun h₁ h₂ _ => hpattern h₁ h₂⟩
      rw [← h.typeOf_side hw hin hbefore hmem (.inl hplain), htype]
  | both left right bound written hplain hleft hright hagreed =>
    obtain ⟨hl, htl, hstampedL⟩ := resolveType_ok hleft
    obtain ⟨hr, htr, hstampedR⟩ := resolveType_ok hright
    have hwritten : Settles table (fun _ => False) pool written :=
      (hl.trans hr).mono fun j hj => hj.elim id id
    replace htr : typeOf table pool compare.right = some right := by
      rw [← hl.typeOf_eq fun _ _ => id]
      exact htr
    obtain ⟨hmemL, hmemR⟩ := compare.mem_operands hplain
    obtain ⟨hop, -, -, hpattern⟩ := compare.plain_op hplain
    obtain ⟨hapartL, hapartR⟩ := (hw.each compare hin).apart hplain
    -- the type that an unbent right side has
    have hrightType : exprLiteral cond.exprs compare.right = none →
        typeOf table cond.exprs compare.right = some right := fun hno => by
      rw [← h.typeOf_side hw hin hbefore hmemR (.inr hno), htr]
    have hboundWritten : ∀ i ∈ compare.operands, ∀ j n, reaches cond.exprs i j = true →
        written.node j = some n → n.Bound table := by
      intro i hi j n hreach hn
      rw [← h.settles.reaches_eq] at hreach
      rcases compare.operands_plain hi with rfl | rfl
      · exact hr.bound (fun m hm => (hstampedL j m hreach hm).bound) n hn
      · rw [← hl.reaches_eq] at hreach
        exact (hstampedR j n hreach hn).bound
    have hleftTyped : compare.op ≠ .OP_EXISTS →
        ∃ type, typeOf table cond.exprs compare.left = some type ∧
          (compare.oneSided = false → compare.takesSubquery = false →
            compare.matchesPattern = true → type = .TYPE_TEXT) := fun _ => by
      obtain ⟨type, htype⟩ := h.typed_side hw hin hbefore hmemL htl
      exact ⟨type, htype, fun _ _ hp => absurd (hp.symm.trans hpattern) (by simp)⟩
    have hrightTyped : compare.plain = true →
        ∃ type, typeOf table cond.exprs compare.right = some type := fun _ =>
      h.typed_side hw hin hbefore hmemR htr
    have hisSome : ∀ i, (exprLiteral written i).isSome = (exprLiteral cond.exprs i).isSome :=
      fun i => (h.settles.trans hwritten).exprLiteral_isSome i
    cases hagreed with
    | same heq hsame =>
      subst hsame heq
      have hkept : ∀ other ∈ comparisons cond, other.plain = true →
          Present cond.exprs other.left →
          fittedType table cond.exprs (before ++ [compare]) other.left =
            fittedType table cond.exprs before other.left := by
        intro other hother hp hpresent
        cases hfits : fits table cond.exprs other.left compare with
        | false => exact fittedType_append_of_not hfits
        | true =>
          obtain ⟨heq, hno⟩ := fits_left hfits
          refine fittedType_append_of_eq ?_
          rw [hrightType hno, ← h.left other hother hp hpresent, ← heq, htl]
      refine h.extend hw hsplit hwritten (fun _ hj => hj.elim) hboundWritten hleftTyped
        hrightTyped ?_ ?_ ?_
      · intro other hother hp hpresent
        rw [hkept other hother hp hpresent, ← h.left other hother hp hpresent]
        exact hwritten.typeOf_eq fun _ _ => id
      · intro _ hpresent
        rw [hkept compare hin hplain hpresent, ← h.left compare hin hplain hpresent, htl, ← htr]
        exact hwritten.typeOf_eq fun _ _ => id
      · intro other hother hp hpresent
        rw [hkept other hother hp hpresent]
        exact h.wide other hother hp hpresent
    | fitRight v v' hne hv hfit hsettles hv' =>
      have hlit : (exprLiteral cond.exprs compare.right).isSome = true := by
        rw [← hisSome, hv]
        rfl
      have hkept : ∀ i, fittedType table cond.exprs (before ++ [compare]) i =
          fittedType table cond.exprs before i := fun i =>
        fittedType_append_of_not (fits_of_literal hlit)
      have hall : Settles table (fun j => j = compare.right) pool pool' :=
        (hwritten.trans hsettles).mono fun j hj => hj.elim False.elim id
      refine h.extend hw hsplit hall ?_ ?_ hleftTyped hrightTyped ?_ ?_ ?_
      · rintro j rfl
        exact ⟨hplain, .inr rfl, hlit⟩
      · intro i hi j n hreach hn
        exact hsettles.bound (fun m hm => hboundWritten i hi j m hreach hm) n hn
      · intro other hother hp hpresent
        rw [hkept, ← h.left other hother hp hpresent]
        refine typeOf_kept h.settles hall fun j hreach hj => ?_
        subst hj
        by_cases hsame : other = compare
        · subst hsame
          exact absurd (hreach.symm.trans hapartL) (by simp)
        · have hreads : other.reads cond.exprs compare.right = true :=
            List.any_eq_true.mpr ⟨other.left, (other.mem_operands hp).1, hreach⟩
          exact absurd (hreads.symm.trans (hw.spares hother hin hsame hplain).1) (by simp)
      · intro _ hpresent
        rw [hkept, ← h.left compare hin hplain hpresent, htl, typeOf_literal hv',
          (coerceLiteral_ok hfit).1]
      · intro other hother hp hpresent
        rw [hkept]
        exact h.wide other hother hp hpresent
    | fitLeft v v' hne hno hv hfit hsettles hv' =>
      have hlit : (exprLiteral cond.exprs compare.left).isSome = true := by
        rw [← hisSome, hv]
        rfl
      have hno' : exprLiteral cond.exprs compare.right = none := by
        have := hisSome compare.right
        rw [hno] at this
        simpa using this.symm
      have hall : Settles table (fun j => j = compare.left) pool pool' :=
        (hwritten.trans hsettles).mono fun j hj => hj.elim False.elim id
      have hvtype : left = v.type :=
        Option.some.inj (htl.symm.trans (hwritten.literal_type id hv))
      -- a left side that bends is an integer or a text, and was not bent before
      have hfirst : Present cond.exprs compare.left →
          fits table cond.exprs compare.left compare = true ∧
            fittedType table cond.exprs before compare.left =
              typeOf table cond.exprs compare.left ∧
            (right = .TYPE_FLOAT ∨ right = .TYPE_DATE) := by
        intro hpresent
        obtain ⟨v₀, hv₀⟩ := Option.isSome_iff_exists.mp hlit
        obtain ⟨w, hw', hnull⟩ := (h.settles.trans hwritten).literal hv₀
        rw [hv] at hw'
        obtain rfl := Option.some.inj hw'
        have hvnull : v.isNull = false := hnull.trans (hpresent v₀ hv₀)
        have hbefore' : fittedType table cond.exprs before compare.left = some v.type := by
          rw [← h.left compare hin hplain hpresent, htl, hvtype]
        have hwide := h.wide compare hin hplain hpresent
        have hbent : right = .TYPE_FLOAT ∧ v.type = .TYPE_INT ∨
            right = .TYPE_DATE ∧ v.type = .TYPE_TEXT := by
          rcases (coerceLiteral_ok hfit).2.2 hvnull with heq | hbent
          · exact absurd (hvtype.trans heq) hne
          · exact hbent
        have hstart : fittedType table cond.exprs before compare.left =
            typeOf table cond.exprs compare.left := by
          rcases hwide with hwide | hwide
          · exact hwide
          · rw [hbefore'] at hwide
            rcases hbent with ⟨-, ht⟩ | ⟨-, ht⟩ <;> simp [ht] at hwide
        refine ⟨?_, hstart, ?_⟩
        · simp only [fits, hplain, hlit, hno', Bool.and_eq_true, beq_self_eq_true,
            Option.isNone_none, bne_iff_ne, ne_eq, true_and]
          rw [hrightType hno', ← hstart, hbefore', ← hvtype]
          exact fun heq => hne (Option.some.inj heq).symm
        · exact hbent.imp And.left And.left
      have hkept : ∀ i, compare.left ≠ i →
          fittedType table cond.exprs (before ++ [compare]) i =
            fittedType table cond.exprs before i := fun i hi =>
        fittedType_append_of_not (fits_of_ne hi)
      have hbent : Present cond.exprs compare.left →
          fittedType table cond.exprs (before ++ [compare]) compare.left = some right := by
        intro hpresent
        obtain ⟨hfits, hstart, -⟩ := hfirst hpresent
        rw [fittedType_append_of_fits hfits hstart, hrightType hno']
      refine h.extend hw hsplit hall ?_ ?_ hleftTyped hrightTyped ?_ ?_ ?_
      · rintro j rfl
        exact ⟨hplain, .inl rfl, hlit⟩
      · intro i hi j n hreach hn
        exact hsettles.bound (fun m hm => hboundWritten i hi j m hreach hm) n hn
      · intro other hother hp hpresent
        by_cases hsame : compare.left = other.left
        · rw [← hsame, hbent (hsame ▸ hpresent), typeOf_literal hv', (coerceLiteral_ok hfit).1]
        · rw [hkept other.left hsame, ← h.left other hother hp hpresent]
          refine typeOf_kept h.settles hall fun j hreach hj => ?_
          subst hj
          have hreads : other.reads cond.exprs compare.left = true :=
            List.any_eq_true.mpr ⟨other.left, (other.mem_operands hp).1, hreach⟩
          have hne' : other ≠ compare := fun heq => hsame (heq ▸ rfl)
          exact hsame ((hw.spares hother hin hne' hplain).2 hreads).2.1.symm
      · intro _ hpresent
        rw [hbent hpresent, ← htr]
        refine typeOf_kept h.settles hall fun j hreach hj => ?_
        subst hj
        exact absurd (hreach.symm.trans hapartR) (by simp)
      · intro other hother hp hpresent
        by_cases hsame : compare.left = other.left
        · rw [← hsame, hbent (hsame ▸ hpresent)]
          exact .inr ((hfirst (hsame ▸ hpresent)).2.2.imp (congrArg some) (congrArg some))
        · rw [hkept other.left hsame]
          exact h.wide other hother hp hpresent

/-- All the comparisons checked, one after another. -/
theorem Checked.run {subqueries : List Subquery} {before rest : List Predicate}
    (hw : cond.Written) (hsplit : comparisons cond = before ++ rest)
    (h : Checked table cond before pool) {pool' : ExprPool}
    (hcheck : checkEach subqueries table rest pool = .ok pool') :
    Checked table cond (comparisons cond) pool' := by
  induction rest generalizing before pool with
  | nil =>
    obtain rfl := Except.ok.inj hcheck
    rw [hsplit, List.append_nil]
    exact h
  | cons compare rest ih =>
    unfold checkEach at hcheck
    split at hcheck
    · exact absurd hcheck (by simp)
    · rename_i next hnext
      exact ih (by simp [hsplit]) (h.step hw hsplit hnext) hcheck

/-- A condition that was accepted. -/
theorem checkCondition_checked {subqueries : List Subquery} {cond' : Condition}
    (hw : cond.Written) (hcheck : checkCondition subqueries table cond = .ok cond') :
    Checked table cond (comparisons cond) cond'.exprs ∧ comparisons cond' = comparisons cond := by
  unfold checkCondition at hcheck
  cases hexprs : checkConditionFrom subqueries table cond.nodes cond.nodes.length cond.exprs
    cond.root with
  | error code => simp [hexprs, Except.map] at hcheck
  | ok exprs =>
    simp only [hexprs, Except.map, Except.ok.injEq] at hcheck
    subst hcheck
    exact ⟨(checked_nil table cond).run hw rfl (checkConditionFrom_each hexprs), rfl⟩

end

end DatabaseEngine
