import InferenceServer.Sched.Moves

/-!
# How many tokens a request is given

The number of tokens of a request is the smallest of several bounds, and the encoder inputs of the
request may lower it further. This module says what is left of each bound in the end: when the number
of tokens of a running request is not negative (`Pass.runningDemand_nonneg`), and the number of tokens
of a waiting request, which the code checks (`Pass.waitingDemand_ok`).

## Main results

* `encoderInputsLoop_bounds`, `Pass.runningDemand_nonneg`, `Pass.runningDemand_text`,
  `Pass.waitingDemand_ok`
-/

namespace InferenceServer

open Outcome

variable {C : SchedulerConfig} {p : Pass} {r : Request}

theorem SchedulerConfig.capPrefill_le (C : SchedulerConfig) (n : Int) : C.capPrefill n ≤ n := by
  unfold SchedulerConfig.capPrefill
  split
  next h => exact h.2.le
  next => exact le_rfl

theorem SchedulerConfig.capPrefill_nonneg {n : Int} (h : 0 ≤ n) : 0 ≤ C.capPrefill n := by
  unfold SchedulerConfig.capPrefill
  split
  next h => exact h.1.le
  next => exact h

theorem SchedulerConfig.capPrefill_pos {n : Int} (h : 0 < n) : 0 < C.capPrefill n := by
  unfold SchedulerConfig.capPrefill
  split
  next h => exact h.1
  next => exact h

/-! ## Encoder inputs -/

/-- **The encoder inputs lower the number of tokens**, possibly to zero, but not below. -/
theorem encoderInputsLoop_bounds (m : EncoderCacheManager) (numComputedTokens : Int)
    (l : List (PlaceholderRange × Nat)) (inputs : List Nat) (n budget : Int) :
    let n' := (encoderInputsLoop C m r numComputedTokens l inputs n budget).2.1
    (n' = 0 ∨ n' ≤ n) ∧ (0 ≤ n → 0 ≤ n') := by
  induction l generalizing inputs budget with
  | nil => exact ⟨.inr le_rfl, id⟩
  | cons e l ih =>
    obtain ⟨pos, i⟩ := e
    unfold encoderInputsLoop
    split
    · exact ⟨.inr le_rfl, id⟩
    next hneeded =>
    split
    · exact ih inputs budget
    split
    · exact ih inputs budget
    -- only the tokens before the input are scheduled, and there are some of these
    have hbefore : numComputedTokens < pos.offset →
        (pos.offset - numComputedTokens ≤ n) ∧ 0 ≤ pos.offset - numComputedTokens := fun _ => by
      omega
    split
    next hchunk =>
      obtain ⟨h₁, h₂⟩ := hbefore hchunk.2.1
      exact ⟨.inr h₁, fun _ => h₂⟩
    split
    · split
      next hlt =>
        obtain ⟨h₁, h₂⟩ := hbefore hlt
        exact ⟨.inr h₁, fun _ => h₂⟩
      next => exact ⟨.inl rfl, fun _ => le_rfl⟩
    · exact ih (inputs ++ [i]) (budget - pos.length)

theorem tryScheduleEncoderInputs_bounds (m : EncoderCacheManager)
    (numComputedTokens n budget : Int) :
    let n' := (tryScheduleEncoderInputs C m r numComputedTokens n budget).2.1
    (n' = 0 ∨ n' ≤ n) ∧ (0 ≤ n → 0 ≤ n') := by
  unfold tryScheduleEncoderInputs
  split
  · exact ⟨.inr le_rfl, id⟩
  · exact encoderInputsLoop_bounds m numComputedTokens _ _ _ _

/-! ## Running requests -/

/-- The bounds of the number of tokens of a running request. -/
structure Request.RunsAtMost (C : SchedulerConfig) (r : Request) (tokenBudget n : Int) : Prop where
  budget : n ≤ tokenBudget
  tokens : n ≤ r.numTokensWithSpec + r.numOutputPlaceholders - r.numComputedTokens
  modelLen : n ≤ C.maxModelLen - 1 - r.numComputedTokens

theorem SchedulerConfig.numNewTokensRunning_le (C : SchedulerConfig) (r : Request) (b : Int) :
    r.RunsAtMost C b (C.numNewTokensRunning r b) := by
  have hcap := C.capPrefill_le
    (r.numTokensWithSpec + r.numOutputPlaceholders - r.numComputedTokens)
  constructor
  · exact (min_le_left _ _).trans (min_le_right _ _)
  · exact ((min_le_left _ _).trans (min_le_left _ _)).trans hcap
  · exact min_le_right _ _

/-- A running request that is not ahead of its tokens, nor at the end of the model, is not given a
negative number of tokens. -/
theorem Pass.runningDemand_nonneg (hb : 0 < p.tokenBudget)
    (htokens : r.numComputedTokens ≤ r.numTokensWithSpec + r.numOutputPlaceholders)
    (hlen : r.numComputedTokens ≤ C.maxModelLen - 1) :
    0 ≤ (p.runningDemand C r).numNewTokens := by
  apply (tryScheduleEncoderInputs_bounds p.sched.encoderCacheManager r.numComputedTokens
    (C.numNewTokensRunning r p.tokenBudget) p.encoderBudget).2
  have hcap : 0 ≤ C.capPrefill
      (r.numTokensWithSpec + r.numOutputPlaceholders - r.numComputedTokens) :=
    SchedulerConfig.capPrefill_nonneg (by omega)
  exact le_min (le_min hcap hb.le) (by omega)

/-- The number of tokens of a text request. -/
theorem Pass.runningDemand_text (h : r.mmPositions = []) :
    (p.runningDemand C r).numNewTokens = C.numNewTokensRunning r p.tokenBudget := by
  have : r.hasEncoderInputs = false := by simp [Request.hasEncoderInputs, h]
  simp [Pass.runningDemand, tryScheduleEncoderInputs, this]

/-! ## Waiting requests -/

/-- **The number of tokens of a waiting request** is positive, unless its tokens are received. -/
theorem Pass.waitingDemand_ok {ct : ComputedTokens} {d : Demand}
    (h : p.waitingDemand C r ct = .ok (.demand d)) :
    (ct.loadKvAsync = true ∧ 0 < ct.numExternalComputedTokens ∧ d.numNewTokens = 0) ∨
    (ct.loadKvAsync = false ∧ 1 ≤ d.numNewTokens ∧ d.numNewTokens ≤ p.tokenBudget ∧
      d.numNewTokens ≤ r.numTokens - ct.numComputedTokens) := by
  unfold Pass.waitingDemand at h
  split at h
  next hasync =>
    obtain ⟨_, hpos, h⟩ := bind_eq_ok.mp h
    obtain rfl : _ = d := by simpa using pure_eq_ok.mp h
    exact .inl ⟨hasync, require_eq_ok.mp hpos, rfl⟩
  next hasync =>
    dsimp only at h
    split at h
    · simp at h
    obtain ⟨_, hpos, h⟩ := bind_eq_ok.mp h
    have hpos := require_eq_ok.mp hpos
    split at h
    · cases pure_eq_ok.mp h
    next hne =>
    obtain rfl : _ = d := by simpa using pure_eq_ok.mp h
    obtain ⟨hle, hnn⟩ := tryScheduleEncoderInputs_bounds (C := C) (r := r)
      p.sched.encoderCacheManager ct.numComputedTokens
      (min (C.capPrefill (r.numTokens - ct.numComputedTokens)) p.tokenBudget) p.encoderBudget
    have hle := hle.resolve_left hne
    refine .inr ⟨by simpa using hasync, ?_, hle.trans (min_le_right _ _),
      (hle.trans (min_le_left _ _)).trans (C.capPrefill_le _)⟩
    have hpos' := hnn hpos.le
    exact lt_of_le_of_ne hpos' (Ne.symm hne)

end InferenceServer
