import DatabaseEngine.Proofs.Select.Reading
import DatabaseEngine.Proofs.Semantic.Alike
import DatabaseEngine.Spec.Join

/-!
# `DatabaseEngine.Proofs.Join.Columns`: how far a condition reads

* `evaluateConditionFrom_agree`: rows that agree on the columns that a tree reads give it one
  answer.
* `resolveCondition_reads`: a condition bound to a table reads columns of the table.
-/

set_option autoImplicit false

namespace DatabaseEngine

section
variable {cond : Condition} {sub : Subqueries} {row row' : Row} {n : Nat}

/-- A tree looks at the columns that its comparisons read. -/
theorem evaluateConditionFrom_agree {fuel : Nat} {i : Int32}
    (hreads : ∀ compare ∈ comparisonsFrom cond.nodes fuel i, compare.op ≠ .OP_EXISTS →
      exprDeepest cond.exprs compare.left < n ∧ exprDeepest cond.exprs compare.right < n)
    (hagree : ∀ slot < n, row.value slot = row'.value slot) :
    evaluateConditionFrom fuel cond sub i row = evaluateConditionFrom fuel cond sub i row' := by
  refine evaluateConditionFrom_alike hreads fun slot hslot => ?_
  rw [hagree slot hslot]
  exact .refl _

/-- A condition that reads only the first columns needs only those to agree. -/
theorem evaluateAt_agree {root : Int32} (hreads : ReadsBelow cond root n)
    (hagree : ∀ slot < n, row.value slot = row'.value slot) :
    evaluateAt cond sub root row = evaluateAt cond sub root row' :=
  evaluateConditionFrom_agree hreads hagree

/-- So does a WHERE. -/
theorem keeps_agree (hreads : cond.present = true → ReadsBelow cond cond.root n)
    (hagree : ∀ slot < n, row.value slot = row'.value slot) :
    keeps cond sub row = keeps cond sub row' := by
  unfold keeps evaluateCondition
  cases hpresent : cond.present with
  | false => rfl
  | true => rw [evaluateConditionFrom_agree (hreads hpresent) hagree]

/-- The comparisons of a tree are in its nodes. -/
theorem mem_comparisonsFrom {nodes : List ConditionNode} {fuel : Nat} {i : Int32}
    {compare : Predicate} (h : compare ∈ comparisonsFrom nodes fuel i) :
    ∃ node ∈ nodes, node.kind = .COND_COMPARE ∧ node.compare = compare := by
  induction fuel generalizing i with
  | zero => exact absurd h (by simp [comparisonsFrom])
  | succ fuel ih =>
    unfold comparisonsFrom at h
    cases hn : (if i < 0 then none else nodes[i.toInt.toNat]?) with
    | none =>
      simp only [hn] at h
      exact absurd h (by simp)
    | some node =>
      have hmem : node ∈ nodes := by
        split at hn
        · exact absurd hn (by simp)
        · exact List.mem_of_getElem? hn
      simp only [hn] at h
      cases hkind : node.kind with
      | COND_COMPARE =>
        simp only [hkind, List.mem_singleton] at h
        exact ⟨node, hmem, hkind, h.symm⟩
      | COND_NOT => exact ih (by simpa [hkind] using h)
      | COND_AND =>
        simp only [hkind, List.mem_append] at h
        exact h.elim ih ih
      | COND_OR =>
        simp only [hkind, List.mem_append] at h
        exact h.elim ih ih

end

/-! ### Binding -/

section
variable {table : CatalogNode} {exprs pool : ExprPool}

/-- Every leaf of an expression is written. -/
def StampedAt (table : CatalogNode) (exprs : ExprPool) (i : Int32) : Prop :=
  ∀ j n, reaches exprs i j = true → exprs.node j = some n → n.Stamped table

/-- Writing other leaves of the pool leaves an operand stamped. -/
theorem StampedAt.settles {i : Int32} (h : StampedAt table exprs i)
    (hsettles : Settles table (fun _ => False) exprs pool) : StampedAt table pool i := by
  intro j n hj hn
  rw [hsettles.reaches_eq] at hj
  cases hm : exprs.node j with
  | none =>
    rw [(hsettles.none_iff j).mpr hm] at hn
    exact absurd hn (by simp)
  | some m =>
    obtain ⟨n', hn', -, -, hkept⟩ := hsettles.node j m hm
    rw [hn] at hn'
    obtain rfl := Option.some.inj hn'
    exact (hkept id).2 (h j m hj hm)

/-- Resolving an operand stamps every column it reads. -/
theorem exprResolve_stampedAt {i : Int32} (h : exprResolve table exprs i = (.ok (), pool)) :
    Settles table (fun _ => False) exprs pool ∧ StampedAt table pool i := by
  have hsettles : Settles table (fun _ => False) exprs (exprResolve table exprs i).2 :=
    exprResolve_settles
  have hstamped : ∀ j n, reaches exprs i j = true →
      (exprResolve table exprs i).2.node j = some n → n.Stamped table := fun j n hj =>
    exprResolve_stamped (by rw [h]) hj
  rw [h] at hsettles hstamped
  refine ⟨hsettles, fun j n hj hn => hstamped j n ?_ hn⟩
  rw [← hsettles.reaches_eq]
  exact hj

/-- A stamped operand reads within the table. -/
theorem StampedAt.deepest {i : Int32} (h : StampedAt table exprs i) :
    exprDeepest exprs i < table.cols.length :=
  exprDeepestFrom_lt h

/-- No operand reads no column. -/
theorem exprDeepest_neg {i : Int32} (h : i < 0) : exprDeepest exprs i = -1 := by
  unfold exprDeepest exprDeepestFrom ExprPool.node
  rw [if_pos h]

/-- The sides of a comparison are bound. -/
def BoundSides (table : CatalogNode) (exprs : ExprPool) (compare : Predicate) : Prop :=
  compare.op ≠ .OP_EXISTS →
    StampedAt table exprs compare.left ∧ (0 ≤ compare.right → StampedAt table exprs compare.right)

/-- Writing other leaves of the pool leaves both sides bound. -/
theorem BoundSides.settles {compare : Predicate} (h : BoundSides table exprs compare)
    (hsettles : Settles table (fun _ => False) exprs pool) : BoundSides table pool compare :=
  fun hop => ⟨(h hop).1.settles hsettles, fun hright => ((h hop).2 hright).settles hsettles⟩

/-- Resolving a predicate binds both its sides. -/
theorem resolvePredicate_bound {compare : Predicate}
    (h : resolvePredicate table exprs compare = (.ok (), pool)) :
    Settles table (fun _ => False) exprs pool ∧ BoundSides table pool compare := by
  unfold resolvePredicate at h
  split at h
  · rename_i hop
    obtain rfl := (Prod.mk.inj h).2
    exact ⟨.refl _ _ _, fun hno => absurd hop hno⟩
  · cases hleft : exprResolve table exprs compare.left with
    | mk result first =>
      rw [hleft] at h
      cases result with
      | error code => exact absurd (Prod.mk.inj h).1 (by simp)
      | ok u =>
        obtain ⟨hsettles, hstamped⟩ := exprResolve_stampedAt hleft
        dsimp only at h
        split at h
        · rename_i hneg
          obtain rfl := (Prod.mk.inj h).2
          exact ⟨hsettles, fun _ => ⟨hstamped, fun hpos => by
            rw [Int32.lt_iff_toInt_lt] at hneg
            rw [Int32.le_iff_toInt_le] at hpos
            omega⟩⟩
        · obtain ⟨hsettles', hstamped'⟩ := exprResolve_stampedAt h
          exact ⟨(hsettles.trans hsettles').mono fun j hj => hj.elim id id,
            fun _ => ⟨hstamped.settles hsettles', fun _ => hstamped'⟩⟩

/-- Resolving a condition binds the sides of every leaf. -/
theorem resolveNodes_bound {nodes : List ConditionNode}
    (h : resolveNodes table nodes exprs = (.ok (), pool)) :
    Settles table (fun _ => False) exprs pool ∧
      ∀ node ∈ nodes, node.kind = .COND_COMPARE → BoundSides table pool node.compare := by
  induction nodes generalizing exprs with
  | nil =>
    obtain rfl := (Prod.mk.inj h).2
    exact ⟨.refl _ _ _, fun node hn => absurd hn (by simp)⟩
  | cons node rest ih =>
    unfold resolveNodes at h
    split at h
    · cases hfirst : resolvePredicate table exprs node.compare with
      | mk result first =>
        rw [hfirst] at h
        cases result with
        | error code => exact absurd (Prod.mk.inj h).1 (by simp)
        | ok u =>
          obtain ⟨hsettles, hbound⟩ := resolvePredicate_bound hfirst
          obtain ⟨hsettles', hrest⟩ := ih h
          refine ⟨(hsettles.trans hsettles').mono fun j hj => hj.elim id id, fun other hother => ?_⟩
          rcases List.mem_cons.mp hother with rfl | hother
          · exact fun _ => hbound.settles hsettles'
          · exact hrest other hother
    · rename_i hkind
      obtain ⟨hsettles, hrest⟩ := ih h
      refine ⟨hsettles, fun other hother => ?_⟩
      rcases List.mem_cons.mp hother with rfl | hother
      · exact fun hno => absurd hno hkind
      · exact hrest other hother

/-- Bound sides read within the table. -/
theorem BoundSides.reads {compare : Predicate} (h : BoundSides table exprs compare)
    (hop : compare.op ≠ .OP_EXISTS) :
    exprDeepest exprs compare.left < table.cols.length ∧
      exprDeepest exprs compare.right < table.cols.length := by
  refine ⟨(h hop).1.deepest, ?_⟩
  by_cases hneg : compare.right < 0
  · rw [exprDeepest_neg hneg]
    omega
  · refine ((h hop).2 ?_).deepest
    rw [Int32.lt_iff_toInt_lt] at hneg
    rw [Int32.le_iff_toInt_le]
    omega

/-- A condition that was bound to a table reads its columns, whichever tree is taken. -/
theorem resolveCondition_reads {cond bound : Condition}
    (h : resolveCondition table cond = (.ok (), bound)) (root : Int32) :
    ReadsBelow bound root table.cols.length := by
  unfold resolveCondition at h
  cases hnodes : resolveNodes table cond.nodes cond.exprs with
  | mk result exprs =>
    rw [hnodes] at h
    obtain ⟨rfl, rfl⟩ := Prod.mk.inj h
    obtain ⟨-, hall⟩ := resolveNodes_bound hnodes
    intro compare hc hop
    obtain ⟨node, hnode, hkind, rfl⟩ := mem_comparisonsFrom hc
    exact (hall node hnode hkind).reads hop

end

end DatabaseEngine
