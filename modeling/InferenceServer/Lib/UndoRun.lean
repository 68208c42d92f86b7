import Mathlib.Data.List.Basic
import Mathlib.Tactic

/-!
# Runs of a partial automaton, with undo

An automaton is given by its transitions `δ`: a symbol may be rejected in a state. Its run over a list
of symbols from a state is `l.foldlM δ q`, which is `none` if one of them is rejected. A machine that
executes the automaton can take symbols back: it keeps the states it has left.

## Main results

* `UndoRun.run_acceptAll`, `UndoRun.acceptAll_of_run`, `UndoRun.rollback_acceptAll`
-/

/-- The state of an automaton, and the states it has left, latest first. -/
structure UndoRun (σ : Type) where
  state : σ
  past : List σ := []
deriving DecidableEq

namespace UndoRun

variable {σ α : Type} (δ : σ → α → Option σ)

/-- The next symbol, if it is not rejected. -/
def accept (m : UndoRun σ) (a : α) : Option (UndoRun σ) :=
  (δ m.state a).map fun q => ⟨q, m.state :: m.past⟩

/-- Symbols up to the first one that is rejected: those that are accepted, and the machine after
them. -/
def acceptAll : UndoRun σ → List α → List α × UndoRun σ
  | m, [] => ([], m)
  | m, a :: l =>
    match m.accept δ a with
    | none => ([], m)
    | some m' => (a :: (m'.acceptAll l).1, (m'.acceptAll l).2)

/-- Take `n` symbols back. -/
def rollback : Nat → UndoRun σ → UndoRun σ
  | 0, m => m
  | n + 1, ⟨q, past⟩ =>
    match past with
    | [] => ⟨q, []⟩
    | p :: past => rollback n ⟨p, past⟩

variable {δ} {m m' : UndoRun σ} {a : α} {l : List α} {q : σ}

theorem rollback_accept (h : m.accept δ a = some m') (n : Nat) :
    m'.rollback (n + 1) = m.rollback n := by
  obtain ⟨q, -, rfl⟩ := Option.map_eq_some_iff.mp h
  rfl

theorem state_accept (h : m.accept δ a = some m') : δ m.state a = some m'.state := by
  obtain ⟨q, hq, rfl⟩ := Option.map_eq_some_iff.mp h
  exact hq

/-- **The accepted symbols are a run**, to the state of the machine. -/
theorem run_acceptAll (m : UndoRun σ) (l : List α) :
    (m.acceptAll δ l).1.foldlM δ m.state = some (m.acceptAll δ l).2.state := by
  induction l generalizing m with
  | nil => rfl
  | cons a l ih =>
    unfold acceptAll
    cases h : m.accept δ a with
    | none => rfl
    | some m' =>
      change (a :: _).foldlM δ m.state = _
      rw [List.foldlM_cons, state_accept h]
      exact ih m'

/-- **All symbols of a run are accepted.** -/
theorem acceptAll_of_run (h : l.foldlM δ m.state = some q) :
    (m.acceptAll δ l).1 = l ∧ (m.acceptAll δ l).2.state = q := by
  induction l generalizing m with
  | nil => exact ⟨rfl, Option.some.inj h⟩
  | cons a l ih =>
    rw [List.foldlM_cons] at h
    obtain ⟨q', hq', h⟩ := Option.bind_eq_some_iff.mp h
    have haccept : m.accept δ a = some ⟨q', m.state :: m.past⟩ := by
      rw [accept, hq']
      rfl
    obtain ⟨hall, hstate⟩ := ih (m := ⟨q', m.state :: m.past⟩) h
    rw [acceptAll, haccept]
    exact ⟨congrArg (a :: ·) hall, hstate⟩

theorem rollback_acceptAll_add (m : UndoRun σ) (l : List α) (n : Nat) :
    (m.acceptAll δ l).2.rollback ((m.acceptAll δ l).1.length + n) = m.rollback n := by
  induction l generalizing m n with
  | nil => rw [acceptAll, List.length_nil, Nat.zero_add]
  | cons a l ih =>
    unfold acceptAll
    cases h : m.accept δ a with
    | none => simp
    | some m' =>
      change (m'.acceptAll δ l).2.rollback ((m'.acceptAll δ l).1.length + 1 + n) = _
      rw [Nat.add_assoc, Nat.add_comm 1 n, ih m' (n + 1)]
      exact rollback_accept h n

/-- **Taking back what was accepted** restores the machine. -/
theorem rollback_acceptAll (m : UndoRun σ) (l : List α) :
    (m.acceptAll δ l).2.rollback (m.acceptAll δ l).1.length = m :=
  rollback_acceptAll_add m l 0

/-- The first symbols of a run are a run. -/
theorem run_of_isPrefix {l' : List α} (hp : l' <+: l) (h : (l.foldlM δ q).isSome = true) :
    (l'.foldlM δ q).isSome = true := by
  obtain ⟨rest, rfl⟩ := hp
  rw [List.foldlM_append] at h
  cases hl : l'.foldlM δ q with
  | none =>
    rw [hl] at h
    cases h
  | some q' => rfl

end UndoRun
