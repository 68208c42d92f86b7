import InferenceServer.Lib.Outcome

/-!
# Postconditions of computations that may raise

A computation meets a postcondition if what it returns has one property, or what it raises has another.
With `True` for the second one, nothing is said of what it raises.

## Main results

* `Meets.bind`, `meets_bind_any`, `meets_bind_require`
-/

namespace Outcome

variable {ε σ α β : Type} {x : Except ε α} {f : α → Except ε β} {Q Q' : α → Prop} {R : β → Prop}
  {E E' : ε → Prop}

/-- The computation returns a value with `Q`, or it raises an error with `E`. -/
def Meets (x : Except ε α) (Q : α → Prop) (E : ε → Prop) : Prop :=
  match x with
  | .ok a => Q a
  | .error e => E e

/-- What a computation that meets a postcondition returns. -/
theorem Meets.of_ok {a : α} (h : Meets x Q E) (hx : x = .ok a) : Q a := by
  rwa [hx] at h

/-- Weakening. -/
theorem Meets.imp (h : Meets x Q E) (hQ : ∀ a, Q a → Q' a) (hE : ∀ e, E e → E' e) :
    Meets x Q' E' := by
  cases x with
  | ok a => exact hQ a h
  | error e => exact hE e h

/-- **The rule for sequences.** -/
theorem Meets.bind (h : Meets x Q E) (hf : ∀ a, Q a → Meets (f a) R E) : Meets (x >>= f) R E := by
  cases x with
  | ok a => exact hf a h
  | error e => exact h

/-- A sequence after a computation of which nothing is known. -/
theorem meets_bind_any (hE : ∀ e, E e) (hf : ∀ a, Meets (f a) R E) : Meets (x >>= f) R E := by
  cases x with
  | ok a => exact hf a
  | error e => exact hE e

/-- A sequence after a computation that returns. -/
theorem meets_bind_of_ok {a : α} (hx : x = .ok a) (hf : Meets (f a) R E) : Meets (x >>= f) R E := by
  rwa [hx]

/-- A sequence after a check that succeeds. -/
theorem meets_require_bind {c : Prop} [Decidable c] {e : ε} {f : Unit → Except ε β} (hc : c)
    (hf : Meets (f ()) R E) : Meets (require c e >>= f) R E :=
  meets_bind_of_ok (if_pos hc) hf

/-- A sequence after a check. -/
theorem meets_bind_require {c : Prop} [Decidable c] {e : ε} {f : Unit → Except ε β} (hE : ¬ c → E e)
    (hf : c → Meets (f ()) R E) : Meets (require c e >>= f) R E := by
  by_cases hc : c
  · exact meets_require_bind hc (hf hc)
  · rw [require, if_neg hc]
    exact hE hc

end Outcome
