import Mathlib.Order.Bounds.Basic

/-!
# Longest prefixes whose last part is covered

Positions are hit or missed. A prefix of length `n` is good if its positions from `lo n` on are hit; those
before are not needed. The longest good prefix up to a bound is found in one of two ways.

If the needed part begins at the same position for all lengths in question, one walks from there to the
right until the first miss. If a fixed number of positions is needed, one walks from the bound to the
left and counts the hits since the last miss; what has been passed is in no longer good prefix.

## Main results

* `isGreatest_of_stop`
* `Scanning.start`, `hit`, `found`, `miss`, `finish`: the walk to the left
* `isGreatest_both`
-/

namespace PrefixSearch

variable {hit hit' : Nat → Prop} {lo lo' : Nat → Nat} {N n n' : Nat}

/-- The needed positions of the prefix of length `n` are hit. -/
def Covered (hit : Nat → Prop) (lo : Nat → Nat) (n : Nat) : Prop :=
  ∀ i, lo n ≤ i → i < n → hit i

/-- The lengths of the good prefixes up to `N`. -/
def lengths (hit : Nat → Prop) (lo : Nat → Nat) (N : Nat) : Set Nat :=
  {n | n ≤ N ∧ Covered hit lo n}

/-- **The walk to the right** ends at the bound or at the first miss. -/
theorem isGreatest_of_stop {a : Nat} (ha : a ≤ n) (hn : n ≤ N)
    (hlo : ∀ m, n ≤ m → m ≤ N → lo m = a) (hhit : ∀ i, a ≤ i → i < n → hit i)
    (hstop : n = N ∨ ¬ hit n) : IsGreatest (lengths hit lo N) n := by
  refine ⟨⟨hn, ?_⟩, fun m hm => ?_⟩
  · unfold Covered
    rw [hlo n le_rfl hn]
    exact hhit
  · by_contra hlt
    have hnm : n < m := Nat.not_le.mp hlt
    rcases hstop with rfl | hmiss
    · exact hlt hm.1
    · exact hmiss (hm.2 n (by rw [hlo m hnm.le hm.1]; exact ha) hnm)

/-! ## The walk to the left -/

/-- The positions from `i` on have been passed: the last `run` of them are hit, and no longer prefix is
good. A prefix needs its last `needed` positions. -/
structure Scanning (hit : Nat → Prop) (needed N i run : Nat) : Prop where
  short : run < needed
  le : i + run ≤ N
  hits : ∀ j, i ≤ j → j < i + run → hit j
  above : ∀ m, i + run < m → m ≤ N → ¬ Covered hit (· - needed) m

namespace Scanning

variable {needed i run : Nat}

theorem start (h : 0 < needed) : Scanning hit needed N N 0 :=
  ⟨h, le_rfl, fun j hj hlt => by omega, fun m hm hle => by omega⟩

variable (h : Scanning hit needed N (i + 1) run)

include h

/-- A hit makes the run longer. -/
theorem hit_run (hi : hit i) (hshort : run + 1 < needed) : Scanning hit needed N i (run + 1) := by
  have heq : i + (run + 1) = i + 1 + run := by omega
  refine ⟨hshort, heq ▸ h.le, fun j hj hlt => ?_, heq ▸ h.above⟩
  rcases Nat.eq_or_lt_of_le hj with rfl | hj
  · exact hi
  · exact h.hits j hj (heq ▸ hlt)

/-- **The run is long enough.** -/
theorem found (hi : hit i) (hlong : needed ≤ run + 1) :
    IsGreatest (lengths hit (· - needed) N) (i + (run + 1)) := by
  have heq : i + (run + 1) = i + 1 + run := by omega
  have hshort := h.short
  refine ⟨⟨heq ▸ h.le, fun j hj hlt => ?_⟩, fun m hm => ?_⟩
  · rcases Nat.eq_or_lt_of_le (show i ≤ j by dsimp only at hj; omega) with rfl | hj
    · exact hi
    · exact h.hits j hj (heq ▸ hlt)
  · by_contra hlt
    exact h.above m (by omega) hm.1 hm.2

/-- A miss: a longer prefix would need this position. -/
theorem miss (hi : ¬ hit i) : Scanning hit needed N i 0 := by
  have hshort := h.short
  have hle := h.le
  refine ⟨by omega, by omega, fun j hj hlt => by omega, fun m hm hmN hcov => ?_⟩
  by_cases hm' : i + 1 + run < m
  · exact h.above m hm' hmN hcov
  · exact hi (hcov i (by dsimp only; omega) (by omega))

omit h

/-- **All positions have been passed**: what is hit at the beginning is a good prefix. -/
theorem finish (h : Scanning hit needed N 0 run) : IsGreatest (lengths hit (· - needed) N) run := by
  refine ⟨⟨by simpa using h.le, fun j _ hlt => h.hits j (Nat.zero_le j) (by omega)⟩, fun m hm => ?_⟩
  by_contra hlt
  exact h.above m (by omega) hm.1 hm.2

end Scanning

/-! ## Two searches -/

/-- **One search within the result of another one**, in which every position is needed. -/
theorem isGreatest_both (h : IsGreatest (lengths hit (fun _ => 0) N) n)
    (h' : IsGreatest (lengths hit' lo' n) n') :
    IsGreatest (lengths hit (fun _ => 0) N ∩ lengths hit' lo' N) n' := by
  obtain ⟨⟨hn, hcov⟩, hgreatest⟩ := h
  obtain ⟨⟨hn', hcov'⟩, hgreatest'⟩ := h'
  refine ⟨⟨⟨hn'.trans hn, fun i hi hlt => hcov i hi (hlt.trans_le hn')⟩, hn'.trans hn, hcov'⟩,
    fun m hm => ?_⟩
  exact hgreatest' ⟨hgreatest hm.1, hm.2.2⟩

end PrefixSearch
