import DatabaseEngine.Library.Action

/-!
# `DatabaseEngine.Library.Outcome`: what holds whatever the pages answer

Some facts about a page program do not depend on the pages: what it does to a part of its
state, or that it does not fail. They need no store, and hold on the plain one as on anything
else that answers requests.

* `PageM.Ends`: every way in which the requests can be answered ends in `Q`. `Ends.bind` and
  `Ends.and` compose.
* `Action.Keeps`: the action keeps an invariant of its state, whether it fails or not.
* `Action.Completes`: it does not fail.
-/

set_option autoImplicit false

namespace Library

universe u

namespace PageM

variable {β : Type} {α γ : Type u}

/-- However the requests are answered, the program ends in `Q`. -/
def Ends (Q : α → Prop) : PageM β α → Prop
  | pure a => Q a
  | alloc next => ∀ id, (next id).Ends Q
  | read _ next => ∀ body, (next body).Ends Q
  | write _ _ next => next.Ends Q
  | free _ next => next.Ends Q
  | count next => ∀ n, (next n).Ends Q

/-- Two programs, one behind the other. -/
theorem Ends.bind {P : α → Prop} {Q : γ → Prop} {x : PageM β α} {f : α → PageM β γ}
    (h : x.Ends P) (hf : ∀ a, P a → (f a).Ends Q) : (x.bind f).Ends Q := by
  induction x with
  | pure a => exact hf a h
  | alloc next ih => exact fun id => ih id (h id)
  | read id next ih => exact fun body => ih body (h body)
  | write id body next ih => exact ih h
  | free id next ih => exact ih h
  | count next ih => exact fun n => ih n (h n)

/-- Two things that hold of every answer hold together. -/
theorem Ends.and {P Q : α → Prop} {x : PageM β α} (h : x.Ends P) (h' : x.Ends Q) :
    x.Ends fun a => P a ∧ Q a := by
  induction x with
  | pure a => exact ⟨h, h'⟩
  | alloc next ih => exact fun id => ih id (h id) (h' id)
  | read id next ih => exact fun body => ih body (h body) (h' body)
  | write id body next ih => exact ih h h'
  | free id next ih => exact ih h h'
  | count next ih => exact fun n => ih n (h n) (h' n)

/-- Every answer is one. -/
theorem ends_any {x : PageM β α} : x.Ends fun _ => True := by
  induction x with
  | pure a => trivial
  | alloc next ih => exact ih
  | read id next ih => exact ih
  | write id body next ih => exact ih
  | free id next ih => exact ih
  | count next ih => exact ih

/-- What follows a program whose answer does not matter. -/
theorem ends_bind_any {Q : γ → Prop} {x : PageM β α} {f : α → PageM β γ}
    (hf : ∀ a, (f a).Ends Q) : (x.bind f).Ends Q :=
  ends_any.bind fun a _ => hf a

end PageM

namespace Action

variable {β ε σ τ α γ : Type}

/-- The action keeps `I`, whatever the pages answer and whether it fails or not. -/
def Keeps (I : σ → Prop) (x : Action β ε σ α) : Prop :=
  ∀ e, I e → (x e).Ends fun r => I r.2

/-- The action does not fail, whatever the pages answer. -/
def Completes (x : Action β ε σ α) : Prop :=
  ∀ e, (x e).Ends fun r => ∃ a, r.1 = .ok a

section
variable {I : σ → Prop}

/-- An answer changes no state. -/
theorem Keeps.pure (a : α) : Keeps I (Pure.pure a : Action β ε σ α) := fun _ he => he

/-- An error changes no state. -/
theorem Keeps.throw (code : ε) : Keeps I (throw code : Action β ε σ α) := fun _ he => he

/-- An answer that is known changes no state. -/
theorem Keeps.ofExcept (r : Except ε α) : Keeps I (ofExcept r : Action β ε σ α) := fun _ he => he

/-- A page program changes no state. -/
theorem Keeps.lift (x : PageM β α) : Keeps I (lift x : Action β ε σ α) := fun _ he =>
  PageM.ends_bind_any fun _ => he

/-- A change that keeps the invariant. -/
theorem Keeps.modify {f : σ → σ} (h : ∀ e, I e → I (f e)) :
    Keeps I (modify f : Action β ε σ Unit) := fun e he => h e he

/-- A state that satisfies the invariant. -/
theorem Keeps.set {e : σ} (h : I e) : Keeps I (set e : Action β ε σ Unit) := fun _ _ => h

/-- Two steps that keep the invariant, one behind the other. -/
theorem Keeps.bind {x : Action β ε σ α} {f : α → Action β ε σ γ} (hx : Keeps I x)
    (hf : ∀ a, Keeps I (f a)) : Keeps I (x >>= f) := by
  intro e he
  refine (hx e he).bind fun r hr => ?_
  rcases r with ⟨code | a, e'⟩
  · exact hr
  · exact hf a e' hr

/-- What is read from the state satisfies the invariant. -/
theorem Keeps.get_bind {f : σ → Action β ε σ γ} (hf : ∀ e, I e → Keeps I (f e)) :
    Keeps I (get >>= f) := fun e he => hf e he e he

/-- What is known of an answer that may be missing. -/
theorem Keeps.ofExcept_bind {r : Except ε α} {f : α → Action β ε σ γ}
    (hf : ∀ a, r = .ok a → Keeps I (f a)) : Keeps I (Action.ofExcept r >>= f) := by
  intro e he
  cases r with
  | error code => exact he
  | ok a => exact hf a rfl e he

/-- A step whose error is answered. -/
theorem Keeps.attempt {x : Action β ε σ α} (h : Keeps I x) : Keeps I (attempt x) := by
  intro e he
  exact (h e he).bind fun r hr => hr

/-- A part that the invariant does not speak of. -/
theorem Keeps.onPart {part : σ → τ} {put : τ → σ → σ} {x : Action β ε τ α}
    (h : ∀ e t, I e → I (put t e)) : Keeps I (onPart part put x) := fun e he =>
  PageM.ends_bind_any fun r => h e r.2 he

/-- A part with an invariant of its own. -/
theorem Keeps.onPart_part {J : τ → Prop} {part : σ → τ} {put : τ → σ → σ} {x : Action β ε τ α}
    {e : σ} (hx : Keeps J x) (hpart : J (part e)) (hput : ∀ t, J t → I (put t e)) :
    (Action.onPart part put x e).Ends fun r => I r.2 :=
  (hx (part e) hpart).bind fun r hr => hput r.2 hr

end

/-- An answer is no error. -/
theorem Completes.pure (a : α) : Completes (Pure.pure a : Action β ε σ α) := fun _ => ⟨a, rfl⟩

/-- A change of the state is no error. -/
theorem Completes.modify (f : σ → σ) : Completes (modify f : Action β ε σ Unit) :=
  fun _ => ⟨(), rfl⟩

/-- To read the state is no error. -/
theorem Completes.get : Completes (get : Action β ε σ σ) := fun e => ⟨e, rfl⟩

/-- An error that is answered is none. -/
theorem Completes.attempt (x : Action β ε σ α) : Completes (attempt x) := fun _ =>
  PageM.ends_bind_any fun r => ⟨r.1, rfl⟩

/-- A step on a part of the state. -/
theorem Completes.onPart {part : σ → τ} {put : τ → σ → σ} {x : Action β ε τ α}
    (h : Completes x) : Completes (onPart part put x) := fun e =>
  (h (part e)).bind fun _ hr => hr

/-- Two steps without an error, one behind the other. -/
theorem Completes.bind {x : Action β ε σ α} {f : α → Action β ε σ γ} (hx : Completes x)
    (hf : ∀ a, Completes (f a)) : Completes (x >>= f) := by
  intro e
  refine (hx e).bind fun r hr => ?_
  obtain ⟨a, ha⟩ := hr
  rcases r with ⟨r, e'⟩
  obtain rfl : r = .ok a := ha
  exact hf a e'

end Action

end Library
