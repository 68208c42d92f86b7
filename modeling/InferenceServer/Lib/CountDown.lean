import Mathlib.Tactic

/-!
# Countdowns

One counter for each key. A tick of a key takes one from its counter; a counter that would reach zero
starts again, and its key is collected. What a series of ticks does to a key depends on how often the
key occurs in it, and on nothing else: not on the order, and not on the other keys.
-/

/-- A counter for each key, and the keys whose counter ran out. -/
structure CountDown (κ : Type) where
  left : κ → Int
  finished : List κ := []

namespace CountDown

variable {κ : Type} [DecidableEq κ] {start : Int} {c : CountDown κ} {k j : κ} {l : List κ}

/-- One tick of `k`. -/
def tick (start : Int) (c : CountDown κ) (k : κ) : CountDown κ :=
  if c.left k - 1 = 0 then
    { left := Function.update c.left k start, finished := c.finished.insert k }
  else { c with left := Function.update c.left k (c.left k - 1) }

/-- The ticks of a list of keys, one after another. -/
def ticks (start : Int) (c : CountDown κ) (l : List κ) : CountDown κ := l.foldl (tick start) c

@[simp] theorem ticks_nil : ticks start c [] = c := rfl

@[simp] theorem ticks_cons : ticks start c (k :: l) = ticks start (tick start c k) l := rfl

theorem ticks_append {l' : List κ} :
    ticks start c (l ++ l') = ticks start (ticks start c l) l' := List.foldl_append

theorem left_tick_ne (h : j ≠ k) : (tick start c k).left j = c.left j := by
  unfold tick
  split_ifs <;> simp [h]

theorem mem_finished_tick_ne (h : j ≠ k) :
    j ∈ (tick start c k).finished ↔ j ∈ c.finished := by
  unfold tick
  split_ifs <;> simp [h]

theorem left_tick_self (h : c.left k ≠ 1) : (tick start c k).left k = c.left k - 1 := by
  rw [tick, if_neg (by omega)]
  simp

theorem mem_finished_tick_self (h : c.left k ≠ 1) :
    k ∈ (tick start c k).finished ↔ k ∈ c.finished := by
  rw [tick, if_neg (by omega)]

theorem left_tick_last (h : c.left k = 1) : (tick start c k).left k = start := by
  rw [tick, if_pos (by omega)]
  simp

theorem mem_finished_tick_last (h : c.left k = 1) : k ∈ (tick start c k).finished := by
  rw [tick, if_pos (by omega)]
  simp

/-- A collected key stays collected. -/
theorem mem_finished_tick (h : j ∈ c.finished) : j ∈ (tick start c k).finished := by
  unfold tick
  split_ifs <;> simp [h]

theorem mem_finished_ticks (h : j ∈ c.finished) : j ∈ (ticks start c l).finished := by
  induction l generalizing c with
  | nil => exact h
  | cons k l ih => exact ih (mem_finished_tick h)

theorem nodup_finished_tick (h : c.finished.Nodup) : (tick start c k).finished.Nodup := by
  unfold tick
  split_ifs
  · exact h.insert
  · exact h

/-- A key is collected at most once. -/
theorem nodup_finished_ticks (h : c.finished.Nodup) : (ticks start c l).finished.Nodup := by
  induction l generalizing c with
  | nil => exact h
  | cons k l ih => exact ih (nodup_finished_tick h)

theorem left_ticks_of_notMem (h : k ∉ l) : (ticks start c l).left k = c.left k := by
  induction l generalizing c with
  | nil => rfl
  | cons j l ih =>
    rw [List.mem_cons, not_or] at h
    rw [ticks_cons, ih h.2, left_tick_ne h.1]

/-- **Too few ticks only lower the counter.** -/
theorem ticks_of_lt (h : (l.count k : Int) < c.left k) :
    (ticks start c l).left k = c.left k - l.count k ∧
      (k ∈ (ticks start c l).finished ↔ k ∈ c.finished) := by
  induction l generalizing c with
  | nil => simp
  | cons j l ih =>
    rw [ticks_cons]
    by_cases hj : j = k
    · subst hj
      rw [List.count_cons_self] at h ⊢
      have hleft : (tick start c j).left j = c.left j - 1 :=
        left_tick_self (by push_cast at h; omega)
      obtain ⟨h₁, h₂⟩ := ih (c := tick start c j) (by rw [hleft]; push_cast at h; omega)
      refine ⟨?_, h₂.trans (mem_finished_tick_self (by push_cast at h; omega))⟩
      rw [h₁, hleft]
      omega
    · rw [List.count_cons_of_ne hj] at h ⊢
      have hleft : (tick start c j).left k = c.left k := left_tick_ne (Ne.symm hj)
      obtain ⟨h₁, h₂⟩ := ih (c := tick start c j) (by rwa [hleft])
      exact ⟨by rw [h₁, hleft], h₂.trans (mem_finished_tick_ne (Ne.symm hj))⟩

/-- **The last tick collects the key.** Its counter starts again. -/
theorem ticks_of_eq (hpos : 0 < l.count k) (h : (l.count k : Int) = c.left k) :
    (ticks start c l).left k = start ∧ k ∈ (ticks start c l).finished := by
  induction l generalizing c with
  | nil => simp at hpos
  | cons j l ih =>
    rw [ticks_cons]
    by_cases hj : j = k
    · subst hj
      rw [List.count_cons_self] at h
      rcases Nat.eq_zero_or_pos (l.count j) with hl | hl
      · -- the key does not occur any more
        have hlast : c.left j = 1 := by omega
        refine ⟨?_, mem_finished_ticks (mem_finished_tick_last hlast)⟩
        rw [left_ticks_of_notMem (List.count_eq_zero.mp hl), left_tick_last hlast]
      · have hne : c.left j ≠ 1 := by omega
        exact ih hl (by rw [left_tick_self hne]; omega)
    · rw [List.count_cons_of_ne hj] at h hpos
      exact ih hpos (by rw [left_tick_ne (Ne.symm hj), h])

end CountDown
