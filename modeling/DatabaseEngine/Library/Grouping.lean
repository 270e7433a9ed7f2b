import Mathlib.Data.List.Induction

/-!
# `DatabaseEngine.Library.Grouping`: a list by the keys of its elements

* `groupsBy`: one list for each key, in the order in which the keys first appear, with the
  elements of that key in their order.
* `keysOf_append`, `withKey_append`: what one more element changes, the rules of a loop that
  groups as it reads.
-/

set_option autoImplicit false

namespace Library

universe u v

section
variable {α : Type u} {κ : Type v} [DecidableEq κ] (key : α → κ)

/-- The keys of a list, each where it first appears. -/
def keysOf (xs : List α) : List κ := (xs.map key).eraseDups

/-- The elements with a key. -/
def withKey (k : κ) (xs : List α) : List α := xs.filter fun x => key x == k

/-- The list by keys. -/
def groupsBy (xs : List α) : List (List α) := (keysOf key xs).map fun k => withKey key k xs

variable {key}

/-- The keys of a list are those of its members. -/
theorem mem_keysOf {xs : List α} {k : κ} : k ∈ keysOf key xs ↔ ∃ x ∈ xs, key x = k := by
  simp [keysOf]

/-- One more element appears with its key, unless the key is there. -/
theorem keysOf_append (xs : List α) (x : α) :
    keysOf key (xs ++ [x]) =
      if key x ∈ keysOf key xs then keysOf key xs else keysOf key xs ++ [key x] := by
  unfold keysOf
  rw [List.map_append, List.eraseDups_append]
  by_cases h : key x ∈ xs.map key
  · have hnone : ([x].map key).removeAll (xs.map key) = [] := by
      simp [List.removeAll, List.mem_map.mp h]
    rw [if_pos (List.mem_eraseDups.mpr h), hnone, List.eraseDups_nil, List.append_nil]
  · have hone : ([x].map key).removeAll (xs.map key) = [key x] := by
      have hno : ∀ a ∈ xs, key a ≠ key x := fun a ha heq => h (List.mem_map.mpr ⟨a, ha, heq⟩)
      simpa [List.removeAll] using hno
    rw [if_neg (fun hin => h (List.mem_eraseDups.mp hin)), hone, List.eraseDups_cons]
    simp

/-- One more element is last among those of its key. -/
theorem withKey_append (k : κ) (xs : List α) (x : α) :
    withKey key k (xs ++ [x]) = if key x = k then withKey key k xs ++ [x] else withKey key k xs := by
  unfold withKey
  rw [List.filter_append]
  by_cases h : key x = k <;> simp [h]

/-- A key that does not appear has no elements. -/
theorem withKey_eq_nil {k : κ} {xs : List α} (h : k ∉ keysOf key xs) : withKey key k xs = [] := by
  rw [mem_keysOf] at h
  push Not at h
  simpa [withKey] using h

/-- No key appears twice. -/
theorem nodup_keysOf (xs : List α) : (keysOf key xs).Nodup := by
  induction xs using List.reverseRecOn with
  | nil => simp [keysOf]
  | append_singleton xs x ih =>
    rw [keysOf_append]
    split
    · exact ih
    · rename_i h
      refine List.nodup_append.mpr ⟨ih, by simp, fun k hk k' hk' heq => h ?_⟩
      rw [← List.mem_singleton.mp hk', ← heq]
      exact hk

/-- Elements with one key are one group. -/
theorem groupsBy_const {k : κ} {xs : List α} (hne : xs ≠ []) (h : ∀ x ∈ xs, key x = k) :
    groupsBy key xs = [xs] := by
  have hkeys : keysOf key xs = [k] := by
    cases xs with
    | nil => exact absurd rfl hne
    | cons x rest =>
      have hrest : (rest.map key).filter (fun b => !b == key x) = [] := by
        rw [List.filter_eq_nil_iff]
        intro b hb
        obtain ⟨y, hy, rfl⟩ := List.mem_map.mp hb
        simp [h x (by simp), h y (by simp [hy])]
      rw [keysOf, List.map_cons, List.eraseDups_cons, hrest, List.eraseDups_nil, h x (by simp)]
  have hall : withKey key k xs = xs := List.filter_eq_self.mpr fun x hx => by simp [h x hx]
  rw [groupsBy, hkeys, List.map_singleton, hall]

end

end Library
