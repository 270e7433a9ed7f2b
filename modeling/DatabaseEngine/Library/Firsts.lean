import DatabaseEngine.Library.Probing
import Mathlib.Data.List.Induction

/-!
# `DatabaseEngine.Library.Firsts`: the first of each class

* `firstsBy`: the elements that no earlier one is the same as.
* `firstsBy_append`, `any_firstsBy`: the rules of a loop that keeps them as it reads.
* `Roomy`: a table in which every probe ends; `Probed.lookup_wanted`: a lookup in it, where what is
  wanted has one hash.
-/

set_option autoImplicit false

namespace Library

universe u

section
variable {α : Type u} (same : α → α → Bool)

/-- The first of each class, in the order in which they come. -/
def firstsBy (xs : List α) : List α :=
  (xs.zipIdx.filter fun x => !(xs.take x.2).any (same x.1)).map Prod.fst

variable {same}

/-- One more element is kept, unless it is the same as one before it. -/
theorem firstsBy_append (xs : List α) (x : α) :
    firstsBy same (xs ++ [x]) =
      if xs.any (same x) then firstsBy same xs else firstsBy same xs ++ [x] := by
  unfold firstsBy
  have hfront : (xs.zipIdx.filter fun y => !((xs ++ [x]).take y.2).any (same y.1)) =
      xs.zipIdx.filter fun y => !(xs.take y.2).any (same y.1) := by
    refine List.filter_congr fun y hy => ?_
    have hlt := (List.mem_zipIdx hy).2.1
    rw [List.take_append_of_le_length (by omega)]
  rw [List.zipIdx_append, List.filter_append, List.map_append, hfront]
  simp only [List.zipIdx_singleton, Nat.zero_add, List.filter_singleton, List.take_left]
  cases xs.any (same x) <;> simp

/-- Only what was in the list is kept. -/
theorem mem_of_mem_firstsBy {xs : List α} {x : α} (h : x ∈ firstsBy same xs) : x ∈ xs := by
  obtain ⟨⟨y, i⟩, hy, rfl⟩ := List.mem_map.mp h
  exact List.fst_mem_of_mem_zipIdx (List.mem_filter.mp hy).1

/-- What is the same as an element is the same as the first of its class. -/
theorem any_firstsBy (htrans : ∀ a b c, same a b = true → same b c = true → same a c = true)
    (xs : List α) (x : α) : (firstsBy same xs).any (same x) = xs.any (same x) := by
  induction xs using List.reverseRecOn with
  | nil => rfl
  | append_singleton xs y ih =>
    rw [firstsBy_append, List.any_append, List.any_cons, List.any_nil, Bool.or_false]
    by_cases hy : xs.any (same y) = true
    · rw [if_pos hy, ih]
      cases hxy : same x y with
      | false => rw [Bool.or_false]
      | true =>
        obtain ⟨d, hd, hyd⟩ := List.any_eq_true.mp hy
        rw [Bool.or_true]
        exact List.any_eq_true.mpr ⟨d, hd, htrans x y d hxy hyd⟩
    · rw [if_neg hy, List.any_append, ih, List.any_cons, List.any_nil, Bool.or_false]

end

/-! ### Tables with room -/

/-- There is an empty bucket, and so a probe that stops at empty ones ends. -/
structure Roomy (buckets : List Nat) : Prop where
  empty : 0 ∈ buckets
  ends : ∀ (hash : Nat) (stop : Nat → Bool), (∀ i, bucket buckets i = 0 → stop i = true) →
    (probe buckets.length stop buckets.length (hash &&& (buckets.length - 1))).isSome = true

section
variable {buckets : List Nat} {hashes : Nat → Nat} {count : Nat}

/-- A table with a free bucket and a power of two for its size is roomy. -/
theorem roomy_of_count (hsize : ∃ e, buckets.length = 2 ^ e) (hroom : 0 < buckets.count 0) :
    Roomy buckets where
  empty := List.count_pos_iff.mp hroom
  ends hash stop hstop := by
    obtain ⟨k, hprobe, -⟩ := probe_first hsize hroom hstop hash
    rw [hprobe]
    rfl

/-- A table with more buckets than entries is roomy. -/
theorem Probed.roomy (h : Probed buckets hashes count) (hroom : count < buckets.length) :
    Roomy buckets := by
  have hempty := h.empty
  exact roomy_of_count h.size (by omega)

/-- A lookup where all that is wanted has the hash: the entry, or there is none. -/
theorem Probed.lookup_wanted (h : Probed buckets hashes count) (hroom : count < buckets.length)
    {wanted : Nat → Bool} {hash : Nat}
    (hhash : ∀ entry < count, wanted entry = true → hashes entry = hash) :
    (∃ entry < count, Library.lookup buckets wanted hash = some entry ∧ wanted entry = true) ∨
      Library.lookup buckets wanted hash = none ∧ ∀ entry < count, wanted entry = false := by
  have hempty := h.empty
  rcases h.lookup (by omega) wanted hash with hfound | ⟨hnone, hno⟩
  · exact .inl hfound
  · refine .inr ⟨hnone, fun entry hentry => ?_⟩
    by_contra hwanted
    rw [Bool.not_eq_false] at hwanted
    rw [hno entry hentry (hhash entry hentry hwanted)] at hwanted
    exact Bool.false_ne_true hwanted

end

end Library
