import InferenceServer.Lib.Tabulate
import Mathlib.Algebra.BigOperators.Intervals

/-!
# Things with an owner and a rank

Some things are given to owners, and the things of an owner are numbered from `0` on: `p ↦ (owner p,
rank p)` is a bijection of the things with the pairs of an owner and a number below its count. Things can
be handed out one at a time, they and the owners can be renumbered, and blocks of things and owners can be
put next to each other.

## Main results

* `Ranked.snoc`, `Ranked.reorder`, `Ranked.relabel`, `Ranked.stack`, `Ranked.sum_count`
-/

/-- **Things with an owner and a rank.** -/
structure Ranked (n k : Nat) (owner rank count : Nat → Nat) : Prop where
  owner_lt : ∀ p < k, owner p < n
  rank_lt : ∀ p < k, rank p < count (owner p)
  inj : ∀ p < k, ∀ q < k, owner p = owner q → rank p = rank q → p = q
  surj : ∀ e < n, ∀ r < count e, ∃ p < k, owner p = e ∧ rank p = r

namespace Ranked

open Function (update update_of_ne update_self)
open Finset (card_range mem_range mem_sigma range)

variable {n k : Nat} {owner rank count : Nat → Nat}

theorem empty (n : Nat) (owner rank : Nat → Nat) : Ranked n 0 owner rank fun _ => 0 where
  owner_lt p hp := absurd hp (Nat.not_lt_zero p)
  rank_lt p hp := absurd hp (Nat.not_lt_zero p)
  inj p hp := absurd hp (Nat.not_lt_zero p)
  surj _ _ r hr := absurd hr (Nat.not_lt_zero r)

/-- Every owner has one thing. -/
theorem id (n : Nat) : Ranked n n (fun p => p) (fun _ => 0) fun _ => 1 where
  owner_lt _ hp := hp
  rank_lt _ _ := Nat.zero_lt_one
  inj _ _ _ _ h _ := h
  surj e he _ hr := ⟨e, he, rfl, (Nat.lt_one_iff.mp hr).symm⟩

variable (h : Ranked n k owner rank count)

include h

/-- **One more thing** is handed out. -/
theorem snoc {e : Nat} (he : e < n) : Ranked n (k + 1) (update owner k e) (update rank k (count e))
      (update count e (count e + 1)) := by
  have hold : ∀ {α : Type} (f : Nat → α) (a : α), ∀ p < k, update f k a p = f p :=
    fun f a p hp => update_of_ne hp.ne _ _
  -- a thing is the new one, or one of the old ones
  have hcases : ∀ p < k + 1, p = k ∨ p < k := fun p hp => by omega
  have hlt : ∀ p < k, rank p < update count e (count e + 1) (owner p) := by
    intro p hp
    by_cases hpe : owner p = e
    · rw [hpe, update_self, ← hpe]
      exact Nat.lt_succ_of_lt (h.rank_lt p hp)
    · rw [update_of_ne hpe]
      exact h.rank_lt p hp
  have hnew : ∀ p < k, owner p = e → rank p ≠ count e := fun p hp hpe heq => by
    have := h.rank_lt p hp
    rw [hpe] at this
    omega
  refine ⟨fun p hp => ?_, fun p hp => ?_, fun p hp q hq howner hrank => ?_, fun e' he' r hr => ?_⟩
  · rcases hcases p hp with rfl | hp
    · rwa [update_self]
    · rw [hold _ _ p hp]
      exact h.owner_lt p hp
  · rcases hcases p hp with rfl | hp
    · rw [update_self, update_self, update_self]
      exact Nat.lt_succ_self _
    · rw [hold _ _ p hp, hold _ _ p hp]
      exact hlt p hp
  · rcases hcases p hp with rfl | hp <;> rcases hcases q hq with rfl | hq
    · rfl
    · rw [update_self, hold _ _ q hq] at howner hrank
      exact absurd hrank.symm (hnew q hq howner.symm)
    · rw [update_self, hold _ _ p hp] at howner hrank
      exact absurd hrank (hnew p hp howner)
    · rw [hold _ _ p hp, hold _ _ q hq] at howner hrank
      exact h.inj p hp q hq howner hrank
  · have hfind : r < count e' →
        ∃ p < k + 1, update owner k e p = e' ∧
          update rank k (count e) p = r := by
      intro hr
      obtain ⟨p, hp, hpe, hpr⟩ := h.surj e' he' r hr
      exact ⟨p, by omega, (hold _ _ p hp).trans hpe, (hold _ _ p hp).trans hpr⟩
    by_cases hee : e' = e
    · subst hee
      rw [update_self] at hr
      rcases Nat.lt_succ_iff_lt_or_eq.mp hr with hr | rfl
      · exact hfind hr
      · exact ⟨k, Nat.lt_succ_self k, update_self .., update_self ..⟩
    · rw [update_of_ne hee] at hr
      exact hfind hr

/-- The things get other numbers. -/
theorem reorder {σ τ : Nat → Nat} (hσ : PermOn k σ τ) :
    Ranked n k (fun p => owner (σ p)) (fun p => rank (σ p)) count where
  owner_lt p hp := h.owner_lt _ (hσ.lt p hp)
  rank_lt p hp := h.rank_lt _ (hσ.lt p hp)
  inj p hp q hq howner hrank :=
    hσ.inj p hp q hq (h.inj _ (hσ.lt p hp) _ (hσ.lt q hq) howner hrank)
  surj e he r hr := by
    obtain ⟨p, hp, hpe, hpr⟩ := h.surj e he r hr
    exact ⟨τ p, hσ.inv_lt p hp, by rw [hσ.apply_inv p hp, hpe], by rw [hσ.apply_inv p hp, hpr]⟩

/-- The owners get other names. -/
theorem relabel {σ τ : Nat → Nat} (hσ : PermOn n σ τ) :
    Ranked n k (fun p => τ (owner p)) rank fun e => count (σ e) where
  owner_lt p hp := hσ.inv_lt _ (h.owner_lt p hp)
  rank_lt p hp := by
    rw [hσ.apply_inv _ (h.owner_lt p hp)]
    exact h.rank_lt p hp
  inj p hp q hq howner hrank := h.inj p hp q hq
    (hσ.symm.inj _ (h.owner_lt p hp) _ (h.owner_lt q hq) howner) hrank
  surj e he r hr := by
    obtain ⟨p, hp, hpe, hpr⟩ := h.surj _ (hσ.lt e he) r hr
    exact ⟨p, hp, by rw [hpe, hσ.inv e he], hpr⟩

omit h

/-- **Blocks** of things and of owners, one for each number below `b`. -/
theorem stack {b : Nat} {owner rank count : Nat → Nat → Nat}
    (h : ∀ a < b, Ranked n k (owner a) (rank a) (count a)) :
    Ranked (b * n) (b * k) (fun p => p / k * n + owner (p / k) (p % k))
      (fun p => rank (p / k) (p % k)) fun e => count (e / n) (e % n) := by
  have hdiv : ∀ p < b * k, p / k < b := fun p hp => Nat.div_lt_of_lt_mul (Nat.mul_comm b k ▸ hp)
  have hmod : ∀ p < b * k, p % k < k := fun p hp =>
    Nat.mod_lt p (Nat.pos_of_ne_zero fun hk => by rw [hk, Nat.mul_zero] at hp; omega)
  have howner : ∀ p < b * k, owner (p / k) (p % k) < n := fun p hp =>
    (h _ (hdiv p hp)).owner_lt _ (hmod p hp)
  refine ⟨fun p hp => ?_, fun p hp => ?_, fun p hp q hq hown hrank => ?_, fun e he r hr => ?_⟩
  · exact mul_add_lt (hdiv p hp) (howner p hp)
  · obtain ⟨hd, hm⟩ := @div_mod_of_lt (p / k) _ n (howner p hp)
    rw [hd, hm]
    exact (h _ (hdiv p hp)).rank_lt _ (hmod p hp)
  · -- the blocks are the same, and so are the places in them
    obtain ⟨hd, hm⟩ := @div_mod_of_lt (p / k) _ n (howner p hp)
    obtain ⟨hd', hm'⟩ := @div_mod_of_lt (q / k) _ n (howner q hq)
    have hblock : p / k = q / k := by rw [← hd, ← hd', hown]
    have hplace : p % k = q % k := by
      refine (h _ (hdiv p hp)).inj _ (hmod p hp) _ (hmod q hq) ?_ ?_
      · rw [hblock] at hm ⊢
        rw [hblock] at hown
        rw [← hm, hown, hm']
      · rw [hrank, hblock]
    rw [← Nat.div_add_mod' p k, hblock, hplace, Nat.div_add_mod']
  · have hn : 0 < n := Nat.pos_of_ne_zero fun hn => by rw [hn, Nat.mul_zero] at he; omega
    have hed : e / n < b := Nat.div_lt_of_lt_mul (Nat.mul_comm b n ▸ he)
    obtain ⟨p, hp, hpe, hpr⟩ := (h _ hed).surj _ (Nat.mod_lt e hn) r hr
    obtain ⟨hd, hm⟩ := @div_mod_of_lt (e / n) p k hp
    refine ⟨e / n * k + p, ?_, ?_, ?_⟩
    · exact mul_add_lt hed hp
    · rw [hd, hm, hpe, Nat.div_add_mod']
    · rw [hd, hm, hpr]

/-- **The counts** sum to the number of things. -/
theorem sum_count (h : Ranked n k owner rank count) : ∑ e ∈ range n, count e = k := by
  have hcard : (range k).card =
      ((range n).sigma fun e => range (count e)).card := by
    refine Finset.card_bij (fun p _ => ⟨owner p, rank p⟩) (fun p hp => ?_) (fun p hp q hq heq => ?_)
      fun e he => ?_
    · have hp := mem_range.mp hp
      exact mem_sigma.mpr ⟨mem_range.mpr (h.owner_lt p hp),
        mem_range.mpr (h.rank_lt p hp)⟩
    · obtain ⟨howner, hrank⟩ := Sigma.mk.inj heq
      exact h.inj p (mem_range.mp hp) q (mem_range.mp hq) howner (eq_of_heq hrank)
    · obtain ⟨e, r⟩ := e
      obtain ⟨he, hr⟩ := mem_sigma.mp he
      obtain ⟨p, hp, rfl, rfl⟩ := h.surj e (mem_range.mp he) r (mem_range.mp hr)
      exact ⟨p, mem_range.mpr hp, rfl⟩
  rw [card_range, Finset.card_sigma] at hcard
  rw [hcard]
  exact Finset.sum_congr rfl fun e _ => (card_range _).symm

/-- If every owner has something, none has more than what is left of the others. -/
theorem count_add_le (h : Ranked n k owner rank count) (hpos : ∀ e < n, 1 ≤ count e) {e : Nat}
    (he : e < n) : count e + n ≤ k + 1 := by
  have hmem := mem_range.mpr he
  have hsum := Finset.add_sum_erase (range n) count hmem
  have hothers : (((range n).erase e).card) • 1 ≤ ∑ e' ∈ (range n).erase e, count e' :=
    Finset.card_nsmul_le_sum _ _ _ fun e' he' =>
      hpos e' (mem_range.mp (Finset.mem_of_mem_erase he'))
  rw [h.sum_count] at hsum
  rw [Finset.card_erase_of_mem hmem, card_range, smul_eq_mul, Nat.mul_one] at hothers
  omega

end Ranked
