import Mathlib.Logic.Relation
import Mathlib.Logic.Function.Basic

/-!
# `DatabaseEngine.Library.Run`: runs of a state machine and what holds along them

A machine is a step function on states and inputs. A run folds it over a list of inputs.
`StepsMeet` says that each input of a run meets a condition in the state in which it is
given. The theorems:

* `StepsMeet.append`: the condition splits over an appended list of inputs.
* `StepsMeet.invariant`: what a step keeps whenever its condition is met, a whole run keeps.
* `StepsMeet.always`: it holds after every prefix of the run too.
* `StepsMeet.mono`: a run that meets a stronger condition meets a weaker one, as long as an
  invariant of the run turns one into the other.
-/

set_option autoImplicit false

namespace Library

universe u v

section
variable {σ : Type u} {ι : Type v}

/-- The state after the inputs, taken one after another. -/
def run (step : σ → ι → σ) (s : σ) (inputs : List ι) : σ :=
  inputs.foldl step s

/-- A run without an input. -/
@[simp] theorem run_nil (step : σ → ι → σ) (s : σ) : run step s [] = s := rfl

/-- The first input of a run, and the others from where it leads. -/
@[simp] theorem run_cons (step : σ → ι → σ) (s : σ) (i : ι) (rest : List ι) :
    run step s (i :: rest) = run step (step s i) rest := rfl

/-- A run goes on from where its front ends. -/
theorem run_append (step : σ → ι → σ) (s : σ) (front back : List ι) :
    run step s (front ++ back) = run step (run step s front) back :=
  List.foldl_append ..

/-- Every input of the run meets the condition in the state in which it is given. -/
def StepsMeet (step : σ → ι → σ) (meets : σ → ι → Prop) : σ → List ι → Prop
  | _, [] => True
  | s, i :: rest => meets s i ∧ StepsMeet step meets (step s i) rest

instance StepsMeet.decidable (step : σ → ι → σ) (meets : σ → ι → Prop)
    [∀ s i, Decidable (meets s i)] : ∀ s inputs, Decidable (StepsMeet step meets s inputs)
  | _, [] => isTrue trivial
  | s, i :: rest =>
    have := StepsMeet.decidable step meets (step s i) rest
    inferInstanceAs (Decidable (meets s i ∧ StepsMeet step meets (step s i) rest))

namespace StepsMeet

variable {step : σ → ι → σ} {meets : σ → ι → Prop}

/-- The steps of a run are those of its front and of its rest. -/
theorem append {s : σ} {front back : List ι} :
    StepsMeet step meets s (front ++ back) ↔
      StepsMeet step meets s front ∧ StepsMeet step meets (run step s front) back := by
  induction front generalizing s with
  | nil => simp [StepsMeet]
  | cons i rest ih => simp [StepsMeet, ih, and_assoc]

/-- What every step keeps when its condition is met, a run keeps. -/
theorem invariant (inv : σ → Prop)
    (keep : ∀ s i, inv s → meets s i → inv (step s i))
    {s : σ} {inputs : List ι} (hs : inv s) (h : StepsMeet step meets s inputs) :
    inv (run step s inputs) := by
  induction inputs generalizing s with
  | nil => exact hs
  | cons i rest ih => exact ih (keep s i hs h.1) h.2

/-- An invariant holds after every prefix of a run, not only at its end. -/
theorem always (inv : σ → Prop)
    (keep : ∀ s i, inv s → meets s i → inv (step s i))
    {s : σ} {inputs : List ι} (hs : inv s) (h : StepsMeet step meets s inputs)
    {front back : List ι} (hsplit : inputs = front ++ back) :
    inv (run step s front) := by
  subst hsplit
  exact invariant inv keep hs (append.mp h).1

/-- A stronger condition on the steps, or one that an invariant strengthens. -/
theorem mono {meets' : σ → ι → Prop} (inv : σ → Prop)
    (keep : ∀ s i, inv s → meets s i → inv (step s i))
    (weaken : ∀ s i, inv s → meets s i → meets' s i)
    {s : σ} {inputs : List ι} (hs : inv s) (h : StepsMeet step meets s inputs) :
    StepsMeet step meets' s inputs := by
  induction inputs generalizing s with
  | nil => trivial
  | cons i rest ih => exact ⟨weaken s i hs h.1, ih (keep s i hs h.1) h.2⟩

end StepsMeet

end

end Library
