import Mathlib.Order.Bounds.Basic
import Mathlib.Tactic.Common

/-!
# Borders of a pattern

A border of the prefix of length `m` of a pattern is a shorter prefix that is also its suffix. Searching
a text for the pattern, one keeps the longest prefix of the pattern that ends at the present position.
If the next element of the text does not continue it, one goes on with the longest border of this
prefix: no occurrence of the pattern is passed over, since its beginning would be a longer border. The
borders of the pattern itself are found in the same way.

Patterns and texts are functions on positions; a pattern is used up to the length in question.

## Main results

* `Searching.hit`, `Searching.found`, `Searching.fallBack`, `Searching.skip`, `Extending.hit`,
  `Extending.fallBack`, `Extending.skip`
-/

namespace Borders

variable {α : Type} {p t : Nat → α} {i j k m n s b c : Nat}

/-- The prefix of length `m` of the pattern is found in the text at `s`. -/
def Matches (p t : Nat → α) (s m : Nat) : Prop := ∀ k < m, t (s + k) = p k

theorem Matches.mono (h : Matches p t s m) (hle : n ≤ m) : Matches p t s n :=
  fun k hk => h k (hk.trans_le hle)

/-- Two prefixes that end at the same position of a text: the shorter one is a suffix of the longer. -/
theorem Matches.suffix (hj : Matches p t (i - j) j) (hb : Matches p t (i - b) b) (hji : j ≤ i)
    (hbj : b ≤ j) : Matches p p (j - b) b := by
  intro k hk
  have hshort := hb k hk
  have hlong := hj (j - b + k) (by omega)
  rw [show i - j + (j - b + k) = i - b + k by omega] at hlong
  exact hlong.symm.trans hshort

/-- A suffix of a prefix that ends at a position of a text ends there as well. -/
theorem Matches.of_suffix (hj : Matches p t (i - j) j) (hb : Matches p p (j - b) b) (hji : j ≤ i)
    (hbj : b ≤ j) : Matches p t (i - b) b := by
  intro k hk
  have hlong := hj (j - b + k) (by omega)
  rw [show i - j + (j - b + k) = i - b + k by omega] at hlong
  exact hlong.trans (hb k hk)

theorem Matches.succ (h : Matches p t (i - j) j) (hji : j ≤ i) (heq : t i = p j) :
    Matches p t (i - j) (j + 1) := by
  intro k hk
  rcases Nat.lt_succ_iff_lt_or_eq.mp hk with hk | rfl
  · exact h k hk
  · rwa [Nat.sub_add_cancel hji]

/-- The lengths of the borders of the prefix of length `m`. -/
def borders (p : Nat → α) (m : Nat) : Set Nat := {b | b < m ∧ Matches p p (m - b) b}

theorem borders_one : IsGreatest (borders p 1) 0 :=
  ⟨⟨Nat.zero_lt_one, fun _ hk => nomatch hk⟩, fun _ hb => Nat.lt_succ_iff.mp hb.1⟩

/-- A border of the next prefix, without its last element. -/
theorem pred_mem_borders (h : b + 1 ∈ borders p (m + 1)) : b ∈ borders p m ∧ p m = p b := by
  obtain ⟨hlt, hmatch⟩ := h
  have hsub : m + 1 - (b + 1) = m - b := by omega
  rw [hsub] at hmatch
  refine ⟨⟨by omega, hmatch.mono (Nat.le_succ b)⟩, ?_⟩
  have hlast := hmatch b (Nat.lt_succ_self b)
  rwa [Nat.sub_add_cancel (by omega)] at hlast

theorem succ_mem_borders (h : b ∈ borders p m) (heq : p m = p b) : b + 1 ∈ borders p (m + 1) := by
  obtain ⟨hlt, hmatch⟩ := h
  refine ⟨by omega, ?_⟩
  rw [show m + 1 - (b + 1) = m - b by omega]
  exact hmatch.succ hlt.le heq

/-- A border of a border is a border. -/
theorem mem_borders_trans (hc : c ∈ borders p b) (hb : b ∈ borders p m) : c ∈ borders p m :=
  ⟨hc.1.trans hb.1, hb.2.of_suffix hc.2 hb.1.le hc.1.le⟩

/-- The shorter of two borders is a border of the longer one. -/
theorem mem_borders_of_lt (hc : c ∈ borders p m) (hb : b ∈ borders p m) (hlt : c < b) :
    c ∈ borders p b :=
  ⟨hlt, hb.2.suffix hc.2 hb.1.le hlt.le⟩

/-! ## The search -/

/-- The text has been read up to `i`. The last `j` elements are a prefix of the pattern, and no
occurrence of the pattern, of length `n`, begins before them. -/
structure Searching (p t : Nat → α) (n i j : Nat) : Prop where
  le : j ≤ i
  short : j < n
  matched : Matches p t (i - j) j
  passed : ∀ s < i - j, ¬ Matches p t s n

namespace Searching

theorem start (hn : 0 < n) : Searching p t n 0 0 :=
  ⟨le_rfl, hn, (fun _ hk => nomatch hk), fun _ hs => absurd hs (by omega)⟩

/-- The next element continues the prefix. -/
theorem hit (h : Searching p t n i j) (heq : t i = p j) (hshort : j + 1 < n) :
    Searching p t n (i + 1) (j + 1) := by
  have hsub : i + 1 - (j + 1) = i - j := by omega
  refine ⟨Nat.succ_le_succ h.le, hshort, ?_, ?_⟩
  · rw [hsub]
    exact h.matched.succ h.le heq
  · rw [hsub]
    exact h.passed

/-- **The prefix is the whole pattern**: this is its first occurrence. -/
theorem found (h : Searching p t n i j) (heq : t i = p j) (hlong : j + 1 = n) :
    IsLeast {s | Matches p t s n} (i - j) := by
  refine ⟨hlong ▸ h.matched.succ h.le heq, fun s hs => ?_⟩
  by_contra hlt
  exact h.passed s (by omega) hs

/-- **The next element does not continue the prefix**, and the search goes on with its longest
border. -/
theorem fallBack (h : Searching p t n i j) (hne : t i ≠ p j) (hb : IsGreatest (borders p j) b) :
    Searching p t n i b := by
  have hlt : b < j := hb.1.1
  have hle := h.le
  have hshort := h.short
  refine ⟨by omega, by omega, h.matched.of_suffix hb.1.2 h.le hlt.le, fun s hs hmatch => ?_⟩
  rcases Nat.lt_trichotomy s (i - j) with hlt' | rfl | hgt
  · exact h.passed s hlt' hmatch
  · -- it would have continued the prefix
    have := hmatch j h.short
    rw [Nat.sub_add_cancel h.le] at this
    exact hne this
  · -- its beginning would be a longer border
    have hmem : i - s ∈ borders p j := by
      refine ⟨by omega, h.matched.suffix ?_ h.le (by omega)⟩
      rw [show i - (i - s) = s by omega]
      exact hmatch.mono (by omega)
    have := hb.2 hmem
    omega

/-- The next element does not begin the pattern. -/
theorem skip (h : Searching p t n i 0) (hne : t i ≠ p 0) : Searching p t n (i + 1) 0 := by
  refine ⟨Nat.zero_le _, h.short, (fun _ hk => nomatch hk), fun s hs hmatch => ?_⟩
  rcases Nat.lt_succ_iff_lt_or_eq.mp hs with hs | rfl
  · exact h.passed s hs hmatch
  · exact hne (hmatch 0 h.short)

/-- **The text has been read**: no occurrence lies within it. -/
theorem finish (h : Searching p t n i j) (hle : s + n ≤ i) : ¬ Matches p t s n :=
  h.passed s (by have := h.short; omega)

end Searching

/-! ## The borders of the pattern -/

/-- The border of length `b` of the prefix of length `i` is tried, and longer ones cannot be continued. -/
structure Extending (p : Nat → α) (i b : Nat) : Prop where
  border : b ∈ borders p i
  above : ∀ c ∈ borders p (i + 1), c ≤ b + 1

namespace Extending

theorem start : Extending p 1 0 :=
  ⟨borders_one.1, fun c hc => by have := hc.1; omega⟩

theorem longest (hb : IsGreatest (borders p i) b) : Extending p i b := by
  refine ⟨hb.1, fun c hc => ?_⟩
  rcases Nat.eq_zero_or_pos c with rfl | hpos
  · exact Nat.zero_le _
  · obtain ⟨c, rfl⟩ := Nat.exists_eq_succ_of_ne_zero hpos.ne'
    exact Nat.succ_le_succ (hb.2 (pred_mem_borders hc).1)

/-- **The border is continued**, and is the longest one of the next prefix. -/
theorem hit (h : Extending p i b) (heq : p i = p b) : IsGreatest (borders p (i + 1)) (b + 1) :=
  ⟨succ_mem_borders h.border heq, h.above⟩

/-- **The border is not continued**, and its longest border is tried. -/
theorem fallBack (h : Extending p i b) (hne : p i ≠ p b) (hc : IsGreatest (borders p b) c) :
    Extending p i c := by
  refine ⟨mem_borders_trans hc.1 h.border, fun d hd => ?_⟩
  rcases Nat.eq_zero_or_pos d with rfl | hpos
  · exact Nat.zero_le _
  · obtain ⟨d, rfl⟩ := Nat.exists_eq_succ_of_ne_zero hpos.ne'
    obtain ⟨hmem, heq⟩ := pred_mem_borders hd
    have hne' : d ≠ b := fun hdb => hne (hdb ▸ heq)
    have hle := h.above _ hd
    exact Nat.succ_le_succ (hc.2 (mem_borders_of_lt hmem h.border (by omega)))

/-- No border is left. -/
theorem skip (h : Extending p i 0) (hne : p i ≠ p 0) : IsGreatest (borders p (i + 1)) 0 := by
  refine ⟨⟨Nat.succ_pos i, (fun _ hk => nomatch hk)⟩, fun c hc => ?_⟩
  rcases Nat.eq_zero_or_pos c with rfl | hpos
  · exact le_rfl
  · obtain ⟨c, rfl⟩ := Nat.exists_eq_succ_of_ne_zero hpos.ne'
    have hle := h.above _ hc
    obtain rfl : c = 0 := by omega
    exact absurd (pred_mem_borders hc).2 hne

end Extending

end Borders
