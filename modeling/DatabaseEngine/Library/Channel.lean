import Mathlib.Data.List.Basic

/-!
# `DatabaseEngine.Library.Channel`: a channel that takes what it is given in pieces

* `Channel`: how much of what is offered is taken at a time, at least something.
* `drain_eq`: offered until nothing is left, everything is taken, in order.
-/

set_option autoImplicit false

namespace Library

universe u

/-- What takes some of the elements it is offered, and never none. -/
structure Channel (ε : Type u) where
  take : List ε → Nat
  positive : ∀ offered, offered ≠ [] → 0 < take offered

namespace Channel

variable {ε : Type u}

/-- What is taken of `pending`, in so many turns. -/
def drain (channel : Channel ε) : Nat → List ε → List ε
  | 0, _ => []
  | _ + 1, [] => []
  | turns + 1, pending@(_ :: _) =>
    pending.take (channel.take pending) ++ channel.drain turns (pending.drop (channel.take pending))

/-- In as many turns as there are events, all of them arrive in order. -/
theorem drain_eq (channel : Channel ε) {turns : Nat} {pending : List ε}
    (h : pending.length ≤ turns) : channel.drain turns pending = pending := by
  induction turns generalizing pending with
  | zero =>
    obtain rfl : pending = [] := List.eq_nil_of_length_eq_zero (Nat.le_zero.mp h)
    rfl
  | succ turns ih =>
    cases pending with
    | nil => rfl
    | cons x rest =>
      have hpos := channel.positive (x :: rest) (List.cons_ne_nil _ _)
      have hshort : ((x :: rest).drop (channel.take (x :: rest))).length ≤ turns := by
        rw [List.length_drop]
        rw [List.length_cons] at h ⊢
        omega
      rw [drain, ih hshort, List.take_append_drop]

end Channel

end Library
