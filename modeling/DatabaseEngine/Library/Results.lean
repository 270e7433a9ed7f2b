import Mathlib.Data.List.Basic

/-!
# `DatabaseEngine.Library.Results`: computations that may fail

* `map_ok`, `bind_ok`: where a result comes from; `getD_ok`: a result that is there.
-/

set_option autoImplicit false

namespace Library

section
variable {ε α β : Type}

/-- What a mapped answer was made of. -/
theorem map_ok {x : Except ε α} {f : α → β} {b : β} (h : x.map f = .ok b) :
    ∃ a, x = .ok a ∧ f a = b := by
  cases x with
  | error e => exact absurd h (by simp [Except.map])
  | ok a => exact ⟨a, rfl, Except.ok.inj h⟩

/-- An answer that is there is the one that is taken out. -/
theorem getD_ok {x : Except ε α} {a : α} (h : x.toOption.isSome = true) :
    x = .ok (x.toOption.getD a) := by
  cases x with
  | error e => exact absurd h (by simp [Except.toOption])
  | ok a => rfl

/-- The two answers of a sequence that succeeded. -/
theorem bind_ok {x : Except ε α} {f : α → Except ε β} {b : β} (h : x >>= f = .ok b) :
    ∃ a, x = .ok a ∧ f a = .ok b := by
  cases x with
  | error e => exact absurd h (by simp [bind, Except.bind])
  | ok a => exact ⟨a, rfl, h⟩

end

end Library
