import Mathlib.Data.List.Basic
import Mathlib.Data.List.TakeWhile

/-!
# `DatabaseEngine.Library.Framing`: records of one size in a file

A file of records that all have the same length is read from the front, until a record is short
or does not check.

* `scan_whole`: what was written whole is read back, whatever shorter rest is behind it.
* `upTo_append`, `upTo_closed`: what stands before the last record with a mark.
-/

set_option autoImplicit false

namespace Library

universe u v w

/-- Records of one size: how one is written, and what is read of it. -/
structure Framing (α : Type u) (β : Type v) (ε : Type w) where
  size : Nat
  positive : 0 < size
  write : α → List ε
  read : List ε → Option β
  image : α → β
  write_length : ∀ a, (write a).length = size
  read_write : ∀ a, read (write a) = some (image a)

namespace Framing

variable {α : Type u} {β : Type v} {ε : Type w} (f : Framing α β ε)

/-- The records of a file, at most as many as the fuel. -/
def scan : Nat → List ε → List β
  | 0, _ => []
  | fuel + 1, file =>
    if file.length < f.size then []
    else
      match f.read (file.take f.size) with
      | none => []
      | some record => record :: scan fuel (file.drop f.size)

/-- The `k`-th record of a file, if it is there whole and checks. -/
def record (file : List ε) (k : Nat) : Option β :=
  if (file.drop (k * f.size)).length < f.size then none
  else f.read ((file.drop (k * f.size)).take f.size)

/-- The next record is the first behind one frame. -/
theorem record_succ (file : List ε) (k : Nat) :
    f.record file (k + 1) = f.record (file.drop f.size) k := by
  unfold record
  rw [List.drop_drop, Nat.succ_mul, Nat.add_comm]

/-- What a scan finds stands where it found it. -/
theorem scan_record {fuel : Nat} {file : List ε} {k : Nat} (hk : k < (f.scan fuel file).length) :
    (f.scan fuel file)[k]? = f.record file k := by
  induction fuel generalizing file k with
  | zero => simp [scan] at hk
  | succ fuel ih =>
    unfold scan at hk ⊢
    split
    · rename_i hshort
      simp [hshort] at hk
    · rename_i hlong
      rw [if_neg hlong] at hk
      have hfirst : f.record file 0 = f.read (file.take f.size) := by
        unfold record
        rw [Nat.zero_mul, List.drop_zero, if_neg hlong]
      cases hread : f.read (file.take f.size) with
      | none =>
        rw [hread] at hk
        simp at hk
      | some record =>
        rw [hread] at hk hfirst
        cases k with
        | zero => exact hfirst.symm
        | succ k =>
          rw [record_succ]
          exact ih (Nat.lt_of_succ_lt_succ hk)

/-- A scan stops at a record that is short or does not check. -/
theorem scan_stops {fuel : Nat} {file : List ε} (hfuel : file.length ≤ fuel) :
    f.record file (f.scan fuel file).length = none := by
  induction fuel generalizing file with
  | zero =>
    have hpositive := f.positive
    show f.record file 0 = none
    unfold record
    rw [if_pos (by rw [List.length_drop]; omega)]
  | succ fuel ih =>
    unfold scan
    split
    · rename_i hshort
      show f.record file 0 = none
      unfold record
      rw [if_pos (by rw [List.length_drop]; omega)]
    · rename_i hlong
      cases hread : f.read (file.take f.size) with
      | none =>
        show f.record file 0 = none
        unfold record
        rw [Nat.zero_mul, List.drop_zero, if_neg hlong, hread]
      | some record =>
        have hpositive := f.positive
        show f.record file ((f.scan fuel (file.drop f.size)).length + 1) = none
        rw [record_succ]
        exact ih (by rw [List.length_drop]; omega)

/-- A file of whole records and a rest that is no record. -/
theorem scan_whole {as : List α} {rest : List ε} (hrest : rest.length < f.size) {fuel : Nat}
    (hfuel : as.length ≤ fuel) : f.scan fuel (as.flatMap f.write ++ rest) = as.map f.image := by
  induction as generalizing fuel with
  | nil =>
    cases fuel with
    | zero => rfl
    | succ fuel => simp [scan, hrest]
  | cons a as ih =>
    cases fuel with
    | zero => exact absurd hfuel (by simp)
    | succ fuel =>
      have hlength := f.write_length a
      have hsplit : (a :: as).flatMap f.write ++ rest = f.write a ++ (as.flatMap f.write ++ rest) := by
        simp
      have htake : (f.write a ++ (as.flatMap f.write ++ rest)).take f.size = f.write a := by
        rw [← hlength, List.take_left]
      have hdrop : (f.write a ++ (as.flatMap f.write ++ rest)).drop f.size
          = as.flatMap f.write ++ rest := by
        rw [← hlength, List.drop_left]
      have hlong : ¬(f.write a ++ (as.flatMap f.write ++ rest)).length < f.size := by
        rw [List.length_append, hlength]
        omega
      unfold scan
      rw [hsplit, if_neg hlong, htake, hdrop, f.read_write]
      rw [List.map_cons, ← ih (Nat.le_of_succ_le_succ hfuel)]

/-- Frames all have one size. -/
theorem flatMap_length (as : List α) : (as.flatMap f.write).length = as.length * f.size := by
  induction as with
  | nil => simp
  | cons a as ih =>
    rw [List.flatMap_cons, List.length_append, ih, f.write_length, List.length_cons,
      Nat.succ_mul, Nat.add_comm]

/-- Any number of bytes of a file of records is some of them whole, and less than one. -/
theorem take_flatMap (as : List α) (n : Nat) :
    ∃ rest : List ε, rest.length < f.size ∧
      (as.flatMap f.write).take n = (as.take (n / f.size)).flatMap f.write ++ rest := by
  induction as generalizing n with
  | nil => exact ⟨[], f.positive, by simp⟩
  | cons a as ih =>
    have hlength := f.write_length a
    rw [List.flatMap_cons]
    by_cases hn : n < f.size
    · refine ⟨(f.write a).take n, ?_, ?_⟩
      · rw [List.length_take, hlength]
        omega
      · rw [Nat.div_eq_of_lt hn, List.take_append_of_le_length (by omega)]
        rfl
    · obtain ⟨rest, hrest, htake⟩ := ih (n - f.size)
      refine ⟨rest, hrest, ?_⟩
      have hdiv : n / f.size = (n - f.size) / f.size + 1 := by
        rw [← Nat.add_div_right _ f.positive, Nat.sub_add_cancel (Nat.le_of_not_lt hn)]
      rw [hdiv, List.take_succ_cons, List.flatMap_cons, List.append_assoc, ← htake,
        List.take_append, List.take_of_length_le (by omega), hlength]

end Framing

/-! ### Up to the last mark -/

section
variable {α : Type u} {β : Type v}

/-- The list up to the last element with a mark. -/
def upTo (mark : α → Bool) (l : List α) : List α :=
  (l.reverse.dropWhile fun a => !mark a).reverse

/-- The list behind the last element with a mark. -/
def behind (mark : α → Bool) (l : List α) : List α :=
  (l.reverse.takeWhile fun a => !mark a).reverse

/-- The part up to the last mark, and the rest. -/
theorem upTo_behind (mark : α → Bool) (l : List α) : upTo mark l ++ behind mark l = l := by
  unfold upTo behind
  rw [← List.reverse_append, List.takeWhile_append_dropWhile, List.reverse_reverse]

/-- The marks of what a function makes of a list. -/
theorem upTo_map (mark : β → Bool) (f : α → β) (l : List α) :
    upTo mark (l.map f) = (upTo (fun a => mark (f a)) l).map f := by
  unfold upTo
  rw [← List.map_reverse, List.dropWhile_map, List.map_reverse]
  rfl

/-- Elements without a mark behind the last one. -/
theorem upTo_append {mark : α → Bool} (front : List α) {back : List α}
    (hback : ∀ a ∈ back, mark a = false) : upTo mark (front ++ back) = upTo mark front := by
  have hdrop : ∀ l : List α, (∀ a ∈ l, mark a = false) → ∀ rest : List α,
      (l ++ rest).dropWhile (fun a => !mark a) = rest.dropWhile fun a => !mark a := by
    intro l hl rest
    induction l with
    | nil => rfl
    | cons a l ih =>
      rw [List.cons_append, List.dropWhile_cons_of_pos (by simp [hl a (by simp)])]
      exact ih fun b hb => hl b (List.mem_cons_of_mem _ hb)
  unfold upTo
  rw [List.reverse_append, hdrop _ fun a ha => hback a (List.mem_reverse.mp ha)]

/-- What is not marked only makes the rest longer. -/
theorem behind_append {mark : α → Bool} (front : List α) {back : List α}
    (hback : ∀ a ∈ back, mark a = false) :
    behind mark (front ++ back) = behind mark front ++ back := by
  have hsplit := upTo_behind mark (front ++ back)
  rw [upTo_append front hback] at hsplit
  refine List.append_cancel_left (hsplit.trans ?_)
  rw [← List.append_assoc, upTo_behind]

/-- The last element that is kept has the mark, and the others behind it have none. -/
theorem upTo_last {mark : α → Bool} {l : List α} {last : α}
    (h : (upTo mark l).getLast? = some last) : mark last = true := by
  unfold upTo at h
  rw [List.getLast?_reverse] at h
  have := List.head?_dropWhile_not (fun a => !mark a) l.reverse
  rw [h] at this
  simpa using this

/-- Nothing behind the last mark is marked. -/
theorem behind_unmarked {mark : α → Bool} {l : List α} : ∀ a ∈ behind mark l, mark a = false := by
  intro a ha
  unfold behind at ha
  simpa using List.mem_takeWhile_imp (List.mem_reverse.mp ha)

/-- A list that ends with a mark. -/
theorem upTo_closed {mark : α → Bool} {l : List α} {last : α} (hlast : l.getLast? = some last)
    (hmark : mark last = true) : upTo mark l = l := by
  obtain ⟨front, rfl⟩ := List.getLast?_eq_some_iff.mp hlast
  unfold upTo
  rw [List.reverse_append, List.reverse_singleton, List.singleton_append,
    List.dropWhile_cons_of_neg (by simp [hmark]), List.reverse_cons, List.reverse_reverse]

/-- Behind a list that ends in a mark there is nothing. -/
theorem behind_closed {mark : α → Bool} {l : List α} {last : α} (hlast : l.getLast? = some last)
    (hmark : mark last = true) : behind mark l = [] := by
  have hsplit := upTo_behind mark l
  rw [upTo_closed hlast hmark] at hsplit
  exact List.append_cancel_left (hsplit.trans (List.append_nil l).symm)

end

end Library
