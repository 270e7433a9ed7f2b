import Mathlib.Data.Finset.Card
import Mathlib.Logic.Relation
import Mathlib.Order.WellFounded

/-!
# `DatabaseEngine.Library.Acyclic`: walks over finitely many nodes end in as many steps

Nodes are numbered below `n`, and a node leads to nodes. Where no walk goes on for ever, a walk
meets each node once at most.

* `exists_rank`: the nodes have ranks below `n`, and each step of a walk leads to a lower rank.
-/

set_option autoImplicit false

namespace Library

/-- The nodes below a node, in any number of steps, are fewer than there are nodes, and fewer for
each of them than for the node itself. -/
theorem exists_rank {ι : Type} {inside : ι → Prop} {leads : ι → ι → Prop} {n : Nat}
    (index : ι → Nat) (hindex : ∀ i, inside i → index i < n)
    (hone : ∀ i j, inside i → inside j → index i = index j → i = j)
    (hinside : ∀ child parent, leads child parent → inside child) (hends : WellFounded leads) :
    ∃ rank : ι → Nat, (∀ i, inside i → rank i < n) ∧
      ∀ child parent, leads child parent → rank child < rank parent := by
  classical
  let below := fun i => (Finset.range n).filter fun k =>
    ∃ j, inside j ∧ index j = k ∧ Relation.TransGen leads j i
  -- a node is not below itself
  have hself : ∀ i, inside i → index i ∉ below i := by
    intro i hi hin
    obtain ⟨-, j, hj, hsame, hpath⟩ := Finset.mem_filter.mp hin
    obtain rfl := hone j i hj hi hsame
    exact hends.transGen.irrefl.irrefl j hpath
  refine ⟨fun i => (below i).card, fun i hi => ?_, fun child parent hstep => ?_⟩
  · have hsub : below i ⊂ Finset.range n :=
      (Finset.ssubset_iff_of_subset (Finset.filter_subset _ _)).mpr
        ⟨index i, Finset.mem_range.mpr (hindex i hi), hself i hi⟩
    have hcard := Finset.card_lt_card hsub
    rwa [Finset.card_range] at hcard
  · have hchild := hinside child parent hstep
    have hmem : index child ∈ below parent := Finset.mem_filter.mpr
      ⟨Finset.mem_range.mpr (hindex child hchild), child, hchild, rfl, .single hstep⟩
    have hsub : below child ⊆ below parent := by
      intro k hk
      obtain ⟨hlt, j, hj, hsame, hpath⟩ := Finset.mem_filter.mp hk
      exact Finset.mem_filter.mpr ⟨hlt, j, hj, hsame, hpath.tail hstep⟩
    exact Finset.card_lt_card
      ((Finset.ssubset_iff_of_subset hsub).mpr ⟨index child, hmem, hself child hchild⟩)

end Library
