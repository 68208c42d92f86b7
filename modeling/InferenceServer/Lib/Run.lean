import Mathlib.Tactic

/-!
# Runs of a state machine

A machine steps from a state under an input, or raises. `Reach` is the set of states reached by
the runs whose steps all satisfy a condition on the state before the step and the input; the
condition `fun _ _ => True` gives all runs.

## Main results

* `Machine.Reach.invariant`, `Machine.Reach.trans`, `Machine.reach_execIf`, `Machine.exists_reach`
-/

/- The facts behind the literals of `Fin 1` and `Fin 2` in the sample runs. -/
instance neZeroOne : NeZero 1 := ⟨one_ne_zero⟩
instance neZeroTwo : NeZero 2 := ⟨two_ne_zero⟩

/-- A state machine whose steps may raise. -/
structure Machine (σ ι ε : Type) where
  init : σ
  step : σ → ι → Except ε σ

namespace Machine

variable {σ ι ε : Type} {M : Machine σ ι ε} {ok ok' : σ → ι → Prop} {s t : σ}

/-- The states reached by runs whose steps satisfy `ok`. -/
inductive Reach (M : Machine σ ι ε) (ok : σ → ι → Prop) : σ → Prop where
  | start : Reach M ok M.init
  | next {s t : σ} {i : ι} : Reach M ok s → ok s i → M.step s i = .ok t → Reach M ok t

/-- The machine, started in another state. -/
def restart (M : Machine σ ι ε) (s : σ) : Machine σ ι ε := { M with init := s }

/-- **The invariant rule.** -/
theorem Reach.invariant {I : σ → Prop} (h : Reach M ok s) (init : I M.init)
    (step : ∀ s i t, I s → ok s i → M.step s i = .ok t → I t) : I s := by
  induction h with
  | start => exact init
  | next _ hok hst ih => exact step _ _ _ ih hok hst

/-- A weaker condition admits more runs. -/
theorem Reach.mono (h : Reach M ok s) (hi : ∀ s i, ok s i → ok' s i) : Reach M ok' s := by
  induction h with
  | start => exact .start
  | next _ hok hst ih => exact .next ih (hi _ _ hok) hst

/-- A run goes on where another one ended. -/
theorem Reach.trans (h : Reach M ok s) (h' : Reach (M.restart s) ok t) : Reach M ok t := by
  induction h' with
  | start => exact h
  | next _ hok hst ih => exact .next ih hok hst

/-- The state after a list of inputs that all satisfy `ok`; `none` if one does not, or if a
step raises. -/
def execIf (M : Machine σ ι ε) (ok : σ → ι → Prop) [∀ s i, Decidable (ok s i)] :
    List ι → σ → Option σ
  | [], s => some s
  | i :: is, s =>
    if ok s i then
      match M.step s i with
      | .ok t => M.execIf ok is t
      | .error _ => none
    else none

/-- Executing inputs that satisfy the condition reaches a state. -/
theorem reach_execIf [∀ s i, Decidable (ok s i)] {is : List ι} (h : Reach M ok s)
    (he : M.execIf ok is s = some t) : Reach M ok t := by
  induction is generalizing s with
  | nil =>
    obtain rfl : s = t := by simpa [execIf] using he
    exact h
  | cons i is ih =>
    unfold execIf at he
    split_ifs at he with hok
    cases hst : M.step s i with
    | error e => simp [hst] at he
    | ok u => exact ih (h.next hok hst) (by simpa [hst] using he)

/-- A number that gets smaller with every step bounds the length of the runs. -/
theorem length_le_of_execIf [∀ s i, Decidable (ok s i)] {μ : σ → Nat}
    (hμ : ∀ s i t, M.step s i = .ok t → μ t < μ s) {is : List ι}
    (he : M.execIf ok is s = some t) : is.length + μ t ≤ μ s := by
  induction is generalizing s with
  | nil =>
    obtain rfl : s = t := by simpa [execIf] using he
    exact (Nat.zero_add _).le
  | cons i is ih =>
    unfold execIf at he
    split_ifs at he
    cases hst : M.step s i with
    | error e => simp [hst] at he
    | ok u =>
      have hrest := ih (by simpa [hst] using he)
      have hlt := hμ s i u hst
      rw [List.length_cons]
      omega

/-- A reachable state with a property, found by executing a run. -/
theorem exists_reach (M : Machine σ ι ε) (ok : σ → ι → Prop) [∀ s i, Decidable (ok s i)]
    (is : List ι) (p : σ → Prop) [DecidablePred p]
    (h : ((M.execIf ok is M.init).any fun s => decide (p s)) = true) : ∃ s, Reach M ok s ∧ p s := by
  obtain ⟨s, hs, hp⟩ := (Option.any_eq_true ..).mp h
  exact ⟨s, reach_execIf .start hs, of_decide_eq_true hp⟩

end Machine
