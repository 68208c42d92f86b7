import Mathlib.Order.Bounds.Basic
import Mathlib.Tactic.Common

/-!
# Bisection

The greatest number up to a bound that is good, where every number below a good one is good, is found
by halving an interval. The interval `[left, right]` is what has not been decided yet: the numbers
above it are bad, and the last number that was found to be good lies just below it, or is the number
with which the search began.

## Main results

* `Bracket.start`, `Bracket.upper`, `Bracket.lower`, `Bracket.finish`
-/

namespace Bisection

variable {good : Int → Prop} {low top left right result mid : Int}

/-- The numbers that are searched for. -/
def candidates (good : Int → Prop) (low top : Int) : Set Int := {n | low ≤ n ∧ n ≤ top ∧ good n}

/-- The interval `[left, right]` is undecided, and `result` is the greatest number below it that is
known to be good. -/
structure Bracket (good : Int → Prop) (low top left right result : Int) : Prop where
  candidate : result ∈ candidates good low top
  left_le : left ≤ result + 1
  above : ∀ n, right < n → n ≤ top → ¬ good n
  low_le : low ≤ left
  right_le : right ≤ top

namespace Bracket

/-- The search begins with the least number, if it is good. -/
theorem start (hgood : good low) (hle : low ≤ top) : Bracket good low top low top low where
  candidate := ⟨le_rfl, hle, hgood⟩
  left_le := by omega
  above n hn hle := absurd hle (not_le.mpr hn)
  low_le := le_rfl
  right_le := le_rfl

variable (h : Bracket good low top left right result)

include h

/-- The middle is good: so is what is below it. -/
theorem upper (hmid : good mid) (hl : left ≤ mid)
    (hr : mid ≤ right) : Bracket good low top (mid + 1) right mid where
  candidate := ⟨h.low_le.trans hl, hr.trans h.right_le, hmid⟩
  left_le := le_rfl
  above := h.above
  low_le := by have := h.low_le; omega
  right_le := h.right_le

/-- The middle is bad: so is what is above it. -/
theorem lower (hmono : ∀ ⦃m n⦄, low ≤ m → m ≤ n → good n → good m) (hmid : ¬ good mid)
    (hl : left ≤ mid) (hr : mid ≤ right) : Bracket good low top left (mid - 1) result where
  candidate := h.candidate
  left_le := h.left_le
  above n hn _ hgood := hmid (hmono (h.low_le.trans hl) (by omega) hgood)
  low_le := h.low_le
  right_le := by have := h.right_le; omega

/-- **The interval is empty**: the result is the greatest good number. -/
theorem finish (hempty : right < left) : IsGreatest (candidates good low top) result := by
  refine ⟨h.candidate, fun n hn => ?_⟩
  by_contra hlt
  have hleft := h.left_le
  exact h.above n (by omega) hn.2.1 hn.2.2

end Bracket

end Bisection
