import DatabaseEngine.Library.Paged

/-!
# `DatabaseEngine.Library.Action`: page programs with a state and errors

An `Action` is a page program that also changes a state and may end in an error. An error
keeps what the state and the pages had become: nothing is undone, as in a program that
returns an error code from the middle of its work.

`Action.wp` is the weakest precondition: legal requests only, and a postcondition on the
answer, the state and the store. The rules `wp_bind`, `wp_get`, `wp_lift`, `wp_onPart` and
`wp_ofExcept` follow the ways to build an action, and `wp_mono` weakens the postcondition. `Action.within` is the same as long as no allocation reaches a limit.

An action `Ignores` a change of the state that commutes with it. `Ignores.bind` and the rules
beside it follow the ways to build an action too.
-/

set_option autoImplicit false

namespace Library

/-- A program over pages with contents `β`, errors `ε` and a state `σ`. -/
def Action (β ε σ α : Type) : Type := σ → PageM β (Except ε α × σ)

namespace Action

variable {β ε σ τ α γ : Type}

/-- An action that does nothing and answers a value. -/
def pure (a : α) : Action β ε σ α := fun e => .pure (.ok a, e)

/-- One action behind another, which is left out if the first fails. -/
def bind (x : Action β ε σ α) (f : α → Action β ε σ γ) : Action β ε σ γ := fun e =>
  (x e).bind fun r =>
    match r.1 with
    | .ok a => f a r.2
    | .error code => .pure (.error code, r.2)

instance : Monad (Action β ε σ) where
  pure := Action.pure
  bind := Action.bind

/-- Ends with an error. -/
def throw (code : ε) : Action β ε σ α := fun e => .pure (.error code, e)

/-- The state. -/
def get : Action β ε σ σ := fun e => .pure (.ok e, e)

/-- Puts another state in its place. -/
def set (e : σ) : Action β ε σ Unit := fun _ => .pure (.ok (), e)

/-- Changes the state. -/
def modify (f : σ → σ) : Action β ε σ Unit := fun e => .pure (.ok (), f e)

/-- A page program that leaves the state alone. -/
def lift (x : PageM β α) : Action β ε σ α := fun e => x.bind fun a => .pure (.ok a, e)

/-- The answer of a step that may fail. -/
def ofExcept (r : Except ε α) : Action β ε σ α := fun e => .pure (r, e)

/-- An action on a part of the state, put back whatever the outcome. -/
def onPart (part : σ → τ) (put : τ → σ → σ) (x : Action β ε τ α) : Action β ε σ α := fun e =>
  (x (part e)).bind fun r => .pure (r.1, put r.2 e)

/-- The action, and its error as a value. -/
def attempt (x : Action β ε σ α) : Action β ε σ (Except ε α) := fun e =>
  (x e).bind fun r => .pure (.ok r.1, r.2)

/-- Every page request is legal, and the action ends in `Q`. -/
def wp (zero : β) (x : Action β ε σ α) (Q : Except ε α → σ → Store β → Prop) (e : σ)
    (s : Store β) : Prop :=
  (x e).wp zero (fun r s => Q r.1 r.2 s) s

section
variable {zero : β} {Q : Except ε α → σ → Store β → Prop} {e : σ} {s : Store β}

/-- The rule for an answer that is known. -/
theorem wp_ofExcept {r : Except ε α} :
    (ofExcept r : Action β ε σ α).wp zero Q e s ↔ Q r e s := Iff.rfl

/-- The rule for reading the state. -/
theorem wp_get {Q : Except ε σ → σ → Store β → Prop} :
    (get : Action β ε σ σ).wp zero Q e s ↔ Q (.ok e) e s := Iff.rfl

/-- The rule for a page program. -/
theorem wp_lift {x : PageM β α} :
    (lift x : Action β ε σ α).wp zero Q e s ↔ x.wp zero (fun a s => Q (.ok a) e s) s :=
  PageM.wp_bind ..

/-- The rule for a step on a part of the state. -/
theorem wp_onPart {part : σ → τ} {put : τ → σ → σ} {x : Action β ε τ α} :
    (onPart part put x).wp zero Q e s ↔
      x.wp zero (fun r t s => Q r (put t e) s) (part e) s :=
  PageM.wp_bind ..

/-- The rule for two steps: an error ends the first, and the second is not taken. -/
theorem wp_bind {x : Action β ε σ α} {f : α → Action β ε σ γ}
    {Q : Except ε γ → σ → Store β → Prop} :
    (x >>= f).wp zero Q e s ↔
      x.wp zero (fun r e s =>
        match r with
        | .ok a => (f a).wp zero Q e s
        | .error code => Q (.error code) e s) e s := by
  show ((x e).bind _).wp zero _ s ↔ _
  rw [PageM.wp_bind]
  unfold wp
  constructor
  · refine fun h => PageM.wp_mono h fun r s hr => ?_
    rcases r with ⟨_ | _, _⟩ <;> exact hr
  · refine fun h => PageM.wp_mono h fun r s hr => ?_
    rcases r with ⟨_ | _, _⟩ <;> exact hr

/-- A weaker postcondition. -/
theorem wp_mono {x : Action β ε σ α} {Q' : Except ε α → σ → Store β → Prop}
    (h : x.wp zero Q e s) (hQ : ∀ r e s, Q r e s → Q' r e s) : x.wp zero Q' e s :=
  PageM.wp_mono h fun _ _ hr => hQ _ _ _ hr

end

/-- `wp`, as long as no allocation reaches the limit. -/
def within (zero : β) (limit : Nat) (x : Action β ε σ α) (Q : Except ε α → σ → Store β → Prop)
    (e : σ) (s : Store β) : Prop :=
  (x e).within zero limit (fun r s => Q r.1 r.2 s) s

section
variable {zero : β} {limit : Nat} {Q : Except ε α → σ → Store β → Prop} {e : σ} {s : Store β}

/-- A weaker postcondition. -/
theorem within_mono {x : Action β ε σ α} {Q' : Except ε α → σ → Store β → Prop}
    (h : x.within zero limit Q e s) (hQ : ∀ r e s, Q r e s → Q' r e s) :
    x.within zero limit Q' e s :=
  PageM.within_mono h fun _ _ hr => hQ _ _ _ hr

/-- The store stays sound. -/
theorem within_sound {x : Action β ε σ α} (h : x.within zero limit Q e s) (hs : s.Sound) :
    x.within zero limit (fun r e s' => Q r e s' ∧ s'.Sound) e s :=
  PageM.within_mono (PageM.within_sound h hs) fun _ _ hr => ⟨hr.1, hr.2.1⟩

/-- The rule for reading the state. -/
theorem within_get {Q : Except ε σ → σ → Store β → Prop} :
    (get : Action β ε σ σ).within zero limit Q e s ↔ Q (.ok e) e s := Iff.rfl

/-- The rule for a page program. -/
theorem within_lift {x : PageM β α} :
    (lift x : Action β ε σ α).within zero limit Q e s ↔
      x.within zero limit (fun a s => Q (.ok a) e s) s :=
  PageM.within_bind ..

/-- The rule for a step on a part of the state. -/
theorem within_onPart {part : σ → τ} {put : τ → σ → σ} {x : Action β ε τ α} :
    (onPart part put x).within zero limit Q e s ↔
      x.within zero limit (fun r t s => Q r (put t e) s) (part e) s :=
  PageM.within_bind ..

/-- The rule for two steps, as long as ids stay in range. -/
theorem within_bind {x : Action β ε σ α} {f : α → Action β ε σ γ}
    {Q : Except ε γ → σ → Store β → Prop} :
    (x >>= f).within zero limit Q e s ↔
      x.within zero limit (fun r e s =>
        match r with
        | .ok a => (f a).within zero limit Q e s
        | .error code => Q (.error code) e s) e s := by
  show ((x e).bind _).within zero limit _ s ↔ _
  rw [PageM.within_bind]
  unfold within
  constructor
  · refine fun h => PageM.within_mono h fun r s hr => ?_
    rcases r with ⟨_ | _, _⟩ <;> exact hr
  · refine fun h => PageM.within_mono h fun r s hr => ?_
    rcases r with ⟨_ | _, _⟩ <;> exact hr

end

/-! ### What an action does not look at -/

/-- To change the state by `f` before the action or after it is the same. -/
def Ignores (f : σ → σ) (x : Action β ε σ α) : Prop :=
  ∀ s, x (f s) = (x s).bind fun r => .pure (r.1, f r.2)

namespace Ignores

variable {f : σ → σ}

/-- An answer reads no state. -/
theorem pure (a : α) : Ignores f (Pure.pure a : Action β ε σ α) := fun _ => rfl

/-- An error reads no state. -/
theorem throw (code : ε) : Ignores f (Action.throw code : Action β ε σ α) := fun _ => rfl

/-- Two steps that ignore the part, one behind the other. -/
theorem bind {x : Action β ε σ α} {k : α → Action β ε σ γ} (hx : Ignores f x)
    (hk : ∀ a, Ignores f (k a)) : Ignores f (x >>= k) := by
  intro s
  show (x (f s)).bind _ = ((x s).bind _).bind _
  rw [hx s, PageM.bind_assoc, PageM.bind_assoc]
  congr 1
  funext r
  obtain ⟨answer, s'⟩ := r
  cases answer with
  | error code => rfl
  | ok a => exact hk a s'

/-- An action on a part that `f` leaves as it is. -/
theorem onPart {part : σ → τ} {put : τ → σ → σ} (hpart : ∀ s, part (f s) = part s)
    (hput : ∀ t s, put t (f s) = f (put t s)) (x : Action β ε τ α) :
    Ignores f (Action.onPart part put x) := by
  intro s
  show (x (part (f s))).bind _ = ((x (part s)).bind _).bind _
  rw [hpart, PageM.bind_assoc]
  congr 1
  funext r
  exact congrArg PageM.pure (Prod.ext rfl (hput r.2 s))

/-- An action on a part on which `f` is `g`. -/
theorem onChanged {part : σ → τ} {put : τ → σ → σ} {g : τ → τ} {x : Action β ε τ α}
    (hx : Ignores g x) (hpart : ∀ s, part (f s) = g (part s))
    (hput : ∀ t s, put (g t) (f s) = f (put t s)) : Ignores f (Action.onPart part put x) := by
  intro s
  show (x (part (f s))).bind _ = ((x (part s)).bind _).bind _
  rw [hpart, hx, PageM.bind_assoc, PageM.bind_assoc]
  congr 1
  funext r
  exact congrArg PageM.pure (Prod.ext rfl (hput r.2 s))

/-- A step whose error is answered. -/
theorem attempt {x : Action β ε σ α} (hx : Ignores f x) : Ignores f (Action.attempt x) := by
  intro s
  show (x (f s)).bind _ = ((x s).bind _).bind _
  rw [hx s, PageM.bind_assoc, PageM.bind_assoc]
  rfl

end Ignores

end Action

end Library
