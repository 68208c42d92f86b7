import Mathlib.Data.List.TakeWhile
import InferenceServer.Sched.Books

/-!
# Every scheduled count is positive, and running requests make progress

The number of tokens of a running request is bounded by the distance of the request to the last
position of the model, `max_model_len - 1 - num_computed_tokens`. A prompt may have `max_model_len`
tokens. Once all of them are scheduled, the bound is negative: the request passes the test for zero
and is scheduled with a count of `-1`. If all but the last are computed, the bound is zero and the
request is never scheduled again.

Both are excluded by a condition on the running requests before the call. Under it the counts are
positive (`countsPositive_of_reach`), and a running request with tokens to compute is scheduled or
preempted (`runs_or_preempted`), provided the loop comes to it. Under the priority policy the loop may
pass over a request: a victim in front of the current request moves the later ones forward, past the
loop index.

## Main results

* `countsPositive_of_reach`, `count_negative_of_longest_prompt`
-/

namespace InferenceServer

open Outcome
open List (idxOf_cons_self mem_append mem_append_left mem_cons)
open Pass (preemptionsAt)

/-! ## Positive counts -/

/-- **The condition.** When a step is scheduled, every running request has a position of the model
left, and has not computed more tokens than it has or expects. -/
def WithinTokens (C : SchedulerConfig) (s : Engine) : EngineOp → Prop
  | .schedule _ => ∀ id ∈ s.sched.running,
      (s.sched.request id).numComputedTokens ≤ C.maxModelLen - 1 ∧
      (s.sched.request id).numComputedTokens ≤
        (s.sched.request id).numTokensWithSpec + (s.sched.request id).numOutputPlaceholders
  | _ => True

instance (C : SchedulerConfig) (s : Engine) (op : EngineOp) : Decidable (WithinTokens C s op) := by
  refine op.casesOn ?_ ?_ ?_ ?_ <;> intros <;> unfold WithinTokens <;> infer_instance

/-- A prompt that `_validate_model_input` admits. -/
def AdmittedPrompts (C : SchedulerConfig) : EngineOp → Prop
  | .addRequest r => 1 ≤ r.promptTokenIds.length ∧ r.promptTokenIds.length ≤ C.maxModelLen
  | _ => True

instance (C : SchedulerConfig) (op : EngineOp) : Decidable (AdmittedPrompts C op) := by
  refine op.casesOn ?_ ?_ ?_ ?_ <;> intros <;> unfold AdmittedPrompts <;> infer_instance

section Counts

variable {H : BlockHasher} {C : SchedulerConfig} {E : Environment} {s s' : Scheduler} {p p' : Pass}
  {output : SchedulerOutput}

/-- Every count so far is positive. -/
def Pass.CountsPositive (p : Pass) : Prop :=
  ∀ id n, p.numScheduledTokens.get? id = some n → 1 ≤ n

theorem Pass.CountsPositive.set (h : p.CountsPositive) {rid : ReqId} {n : Int} (hn : 1 ≤ n)
    (hset : p'.numScheduledTokens = p.numScheduledTokens.set rid n) : p'.CountsPositive := by
  intro id m hm
  rw [hset, Dict.get?_set] at hm
  split at hm
  · cases hm
    exact hn
  · exact h id m hm

/-- **Every move adds a positive count**, if the running requests are within their tokens. -/
theorem Pass.CountsPositive.move (h : p.CountsPositive) (hun : p.Untouched s)
    (hs : ∀ id ∈ s.running, (s.request id).numComputedTokens ≤ C.maxModelLen - 1 ∧
      (s.request id).numComputedTokens ≤
        (s.request id).numTokensWithSpec + (s.request id).numOutputPlaceholders)
    (hm : Pass.Move H C E p p') : p'.CountsPositive := by
  cases hm with
  | passOver => exact h
  | preempt => exact h
  | @scheduleRunning rid blocks k hat hpos halloc =>
    have he := (p.withKV k).scheduleRunning_effect rid
      (p.runningDemand C (p.sched.request rid)) blocks
    obtain ⟨hrid, hreq⟩ := hun.untouched rid hat.mem hat.unscheduled
    have hnn : 0 ≤ (p.runningDemand C (p.sched.request rid)).numNewTokens := by
      rw [hreq]
      exact Pass.runningDemand_nonneg hat.budget (hs rid hrid).2 (hs rid hrid).1
    exact h.set (lt_of_le_of_ne hnn (Ne.symm hpos)) he.numScheduledTokens
  | recordLoras hl =>
    obtain ⟨loras, rfl⟩ := recordLoras_ok hl
    exact h
  | resolveStatus => exact h
  | skip hat hskip =>
    obtain ⟨e, w, sk, -, -, rfl⟩ := skipWaiting_ok hskip
    exact h
  | lookUp => exact h
  | noSlots => exact h
  | @park _ rid ct s₀ d blocks k hat hct hd hasync halloc hp =>
    obtain ⟨p₁, hskip, rfl⟩ := parkRemote_ok hp
    obtain ⟨e, w, sk, -, -, rfl⟩ := skipWaiting_ok hskip
    exact h
  | @admitWaiting _ rid ct s₀ d blocks k hat hct hd hasync halloc ha =>
    rcases Pass.waitingDemand_ok hd with ⟨hload, -, -⟩ | ⟨-, hn, -, -⟩
    · simp [hasync] at hload
    · exact h.set hn (admit_ok ha).numScheduledTokens

/-- A call of `schedule`. -/
theorem schedule_counts (h : s.Places s.running s.waiting.ids)
    (hs : ∀ id ∈ s.running, (s.request id).numComputedTokens ≤ C.maxModelLen - 1 ∧
      (s.request id).numComputedTokens ≤
        (s.request id).numTokensWithSpec + (s.request id).numOutputPlaceholders)
    (hsched : s.schedule H C E = .ok (output, s')) :
    ∀ id n, output.numScheduledTokens.get? id = some n → 1 ≤ n := by
  obtain ⟨p, hsch⟩ := schedule_ok hsched
  obtain ⟨p₁, ⟨-, hpos⟩, hrestore⟩ :=
    schedulePass_invariant (I := fun p => p.Untouched s ∧ p.CountsPositive) h.nodupR hsch.pass
      ⟨Pass.untouched_start h, fun id n hn => by simp [Pass.start] at hn⟩
      fun p p' hI hm => ⟨hI.1.move hm.move, hI.2.move hI.1 hs hm.move⟩
  obtain ⟨w, rfl, -⟩ := restoreSkipped_ok hrestore
  obtain ⟨common, rfl⟩ := hsch.output
  exact hpos

end Counts

section CountsInRuns

variable {H : BlockHasher} {C : SchedulerConfig} {s : Engine} {s₀ : Scheduler}

/-- **Every scheduled count is positive**, in every run whose steps are scheduled with the running
requests within their tokens. -/
theorem countsPositive_of_reach (hinit : Scheduler.init C = .ok s₀)
    (hs : (engineMachine H C s₀).Reach (fun s op => FreshIds s op ∧ WithinTokens C s op) s) :
    ∀ output ∈ s.inFlight, ∀ id n, output.numScheduledTokens.get? id = some n → 1 ≤ n := by
  refine (hs.invariant (I := fun s => s.Placed ∧ ∀ output ∈ s.inFlight, ∀ id n,
    output.numScheduledTokens.get? id = some n → 1 ≤ n) ⟨Engine.placed_init hinit, ?_⟩ ?_).2
  · simp [engineMachine]
  · rintro s op t ⟨hplaced, hpos⟩ ⟨hfresh, hok⟩ hstep
    change s.step H C op = .ok t at hstep
    refine ⟨hplaced.step hfresh hstep, ?_⟩
    cases op with
    | addRequest r =>
      obtain ⟨sched, -, rfl⟩ := Engine.step_addRequest hstep
      exact hpos
    | schedule E =>
      obtain ⟨output, sched, hsched, rfl⟩ := Engine.step_schedule hstep
      intro o ho
      rcases List.mem_append.mp ho with ho | ho
      · exact hpos o ho
      · obtain rfl := List.mem_singleton.mp ho
        exact schedule_counts hplaced.places hok hsched
    | updateFromOutput E m =>
      obtain ⟨output, inFlight, outputs, sched, hin, -, rfl⟩ := Engine.step_updateFromOutput hstep
      intro o ho
      exact hpos o (hin ▸ List.mem_cons_of_mem _ ho)
    | finishRequests E ids status =>
      obtain ⟨sched, -, rfl⟩ := Engine.step_finishRequests hstep
      exact hpos

/-- The theorem on a run with a second step while the first one is in flight. -/
theorem countsPositive_twoSteps :
    ∃ s, runEngine .encoding (pairConfig 8 8) (fun s op => FreshIds s op ∧
        WithinTokens (pairConfig 8 8) s op)
        [.addRequest (textRequest 1 [1, 2, 3]), .schedule {}, .addRequest (textRequest 2 [4]),
          .schedule {}] = some s ∧
      s.inFlight.map (fun o => o.numScheduledTokens.entries) = [[(1, 3)], [(2, 1)]] ∧
      ∀ output ∈ s.inFlight, ∀ id n, output.numScheduledTokens.get? id = some n → 1 ≤ n := by
  have hrun : (runEngine .encoding (pairConfig 8 8) (fun s op => FreshIds s op ∧
        WithinTokens (pairConfig 8 8) s op)
        [.addRequest (textRequest 1 [1, 2, 3]), .schedule {}, .addRequest (textRequest 2 [4]),
          .schedule {}]).any (fun s => decide
      (s.inFlight.map (fun o => o.numScheduledTokens.entries) = [[(1, 3)], [(2, 1)]])) = true := by
    decide +kernel
  obtain ⟨s, hs, h⟩ := Option.any_eq_true .. |>.mp hrun
  obtain ⟨s₀, hinit, hreach⟩ := reach_runEngine hs
  exact ⟨s, hs, of_decide_eq_true h, countsPositive_of_reach hinit hreach⟩

/-- A prompt of the full length of the model gets the count `-1`, while its last token is in flight. -/
theorem exists_count_negative (asyncScheduling : Bool) :
    ∃ (H : BlockHasher) (C : SchedulerConfig) (s₀ : Scheduler) (s : Engine),
      C.asyncScheduling = asyncScheduling ∧ Scheduler.init C = .ok s₀ ∧
      (engineMachine H C s₀).Reach (fun s op => FreshIds s op ∧ AdmittedPrompts C op) s ∧
      ∃ output ∈ s.inFlight, output.numScheduledTokens.get? 1 = some (-1) := by
  let C := { pairConfig 4 4 with asyncScheduling }
  have hrun : (runEngine .encoding C (fun s op => FreshIds s op ∧ AdmittedPrompts C op)
      [.addRequest (textRequest 1 [1, 2, 3, 4]), .schedule {}, .schedule {}]).any
      (fun s => decide (∃ output ∈ s.inFlight,
        output.numScheduledTokens.get? 1 = some (-1))) = true := by
    cases asyncScheduling <;> decide +kernel
  obtain ⟨s, hs, h⟩ := Option.any_eq_true .. |>.mp hrun
  obtain ⟨s₀, hinit, hreach⟩ := reach_runEngine hs
  exact ⟨.encoding, C, s₀, s, rfl, hinit, hreach, of_decide_eq_true h⟩

/-- **The longest prompt that is admitted** gets a negative count. -/
theorem count_negative_of_longest_prompt :
    ∃ (H : BlockHasher) (C : SchedulerConfig) (s₀ : Scheduler) (s : Engine),
      Scheduler.init C = .ok s₀ ∧
      (engineMachine H C s₀).Reach (fun s op => FreshIds s op ∧ AdmittedPrompts C op) s ∧
      ∃ output ∈ s.inFlight, ∃ n, output.numScheduledTokens.get? 1 = some n ∧ ¬1 ≤ n := by
  obtain ⟨H, C, s₀, s, -, hinit, hreach, output, ho, hn⟩ := exists_count_negative false
  exact ⟨H, C, s₀, s, hinit, hreach, output, ho, -1, hn, by decide⟩

end CountsInRuns

/-! ## The loop comes to a running request -/

/-- A preemption of a request behind the current one, in the list of running requests. -/
def Preemption.VictimBehind (e : Preemption) : Prop :=
  e.pass.sched.running.idxOf e.current < e.pass.sched.running.idxOf e.victim

instance (e : Preemption) : Decidable e.VictimBehind := by
  unfold Preemption.VictimBehind
  infer_instance

/-- The request has been scheduled with a token, or preempted. -/
def Pass.Settled (r : ReqId) (p : Pass) : Prop :=
  r ∈ p.preemptedReqs ∨ ∃ n, p.numScheduledTokens.get? r = some n ∧ 1 ≤ n

/-- The loop over the running requests is to come to the request `r`: it is not behind the loop index,
and only requests before it, which are among `before`, have been scheduled. -/
structure Pass.Pending (before : List ReqId) (r : ReqId) (p : Pass) : Prop where
  ahead : ∃ l₁ l₂, p.sched.running = l₁ ++ r :: l₂ ∧ p.reqIndex ≤ l₁.length ∧ ∀ id ∈ l₁, id ∈ before
  unscheduled : r ∉ p.numScheduledTokens
  scheduled : ∀ id ∈ p.numScheduledTokens, id ∈ before

section Pending

variable {H : BlockHasher} {C : SchedulerConfig} {E : Environment} {s s' : Scheduler} {p p' : Pass}
  {r rid v : ReqId} {before : List ReqId} {n : Int} {fuel : Nat} {pre : List ReqId}
  {res : Option (List (List BlockId))}

theorem Pass.Settled.move (h : p.Settled r) (hbooks : p.Books C s) (hm : Pass.Move H C E p p') :
    p'.Settled r := by
  -- a count is set only where there is none
  have hset : ∀ (rid : ReqId) (n : Int), rid ∉ p.numScheduledTokens →
      p'.numScheduledTokens = p.numScheduledTokens.set rid n →
      ∀ m, p.numScheduledTokens.get? r = some m → p'.numScheduledTokens.get? r = some m := by
    intro rid n hrid heq m hm
    rw [heq, Dict.get?_set_ne]
    · exact hm
    · rintro rfl
      exact hrid (Dict.mem_of_get? hm)
  cases hm with
  | passOver => exact h
  | preempt => exact h.imp_left (mem_append_left _)
  | @scheduleRunning rid blocks k hat hpos halloc =>
    have he := (p.withKV k).scheduleRunning_effect rid
      (p.runningDemand C (p.sched.request rid)) blocks
    refine h.imp (fun hr => ?_) fun ⟨m, hm, hpos⟩ =>
      ⟨m, hset rid _ hat.unscheduled he.numScheduledTokens m hm, hpos⟩
    rw [he.preemptedReqs]
    exact hr
  | recordLoras hl =>
    obtain ⟨loras, rfl⟩ := recordLoras_ok hl
    exact h
  | resolveStatus => exact h
  | skip hat hskip =>
    obtain ⟨e, w, sk, -, -, rfl⟩ := skipWaiting_ok hskip
    exact h
  | lookUp => exact h
  | noSlots => exact h
  | @park _ rid ct s₀ d blocks k hat hct hd hasync halloc hp =>
    obtain ⟨p₁, hskip, rfl⟩ := parkRemote_ok hp
    obtain ⟨e, w, sk, -, -, rfl⟩ := skipWaiting_ok hskip
    exact h
  | @admitWaiting _ rid ct s₀ d blocks k hat hct hd hasync halloc ha =>
    have he := admit_ok ha
    refine h.imp (fun hr => ?_) fun ⟨m, hm, hpos⟩ =>
      ⟨m, hset rid _ (hbooks.unscheduled_waiting hat) he.numScheduledTokens m hm, hpos⟩
    rw [he.preemptedReqs]
    exact hr

/-- Along any moves, what is settled stays settled. -/
theorem Pass.Settled.moves {L : List Preemption} (h : p.Settled r) (hbooks : p.Books C s)
    (hm : p.Moves H C E L p') : p'.Settled r ∧ p'.Books C s := by
  induction hm with
  | refl => exact ⟨h, hbooks⟩
  | tail _ hmove ih => exact ⟨ih.1.move ih.2 hmove.move, ih.2.move hmove.move⟩

theorem Pass.Books.moves {L : List Preemption} (h : p.Books C s) (hm : p.Moves H C E L p') :
    p'.Books C s := by
  induction hm with
  | refl => exact h
  | tail _ hmove ih => exact ih.move hmove.move

/-- If the slots of a request are not allocated in the end, it has been preempted. -/
theorem allocateOrPreempt_preempted {pre₀ : List ReqId}
    (h : s.allocateOrPreempt H C rid n fuel pre₀ = .ok (res, s', pre)) :
    (∀ id ∈ pre₀, id ∈ pre) ∧ (res = none → rid ∈ pre) := by
  induction fuel generalizing s pre₀ with
  | zero => simp [Scheduler.allocateOrPreempt] at h
  | succ fuel ih =>
    obtain ⟨⟨newBlocks, k⟩, -, h⟩ := bind_eq_ok.mp h
    cases newBlocks with
    | some blocks =>
      cases h
      exact ⟨fun _ hid => hid, fun hres => by cases hres⟩
    | none =>
      obtain ⟨v, -, h⟩ := bind_eq_ok.mp h
      obtain ⟨s₂, -, h⟩ := bind_eq_ok.mp h
      by_cases hvr : v = rid
      · rw [if_pos hvr] at h
        cases h
        exact ⟨fun _ hid => mem_append_left _ hid, fun _ => by simp [hvr]⟩
      · rw [if_neg hvr] at h
        obtain ⟨ih₁, ih₂⟩ := ih h
        exact ⟨fun id hid => ih₁ id (mem_append_left _ hid), ih₂⟩

/-- What is behind an element of a list without duplicates. -/
theorem mem_of_idxOf_lt {l₁ l : List ReqId} (hn : (l₁ ++ rid :: l).Nodup)
    (hv : v ∈ l₁ ++ rid :: l) (hlt : (l₁ ++ rid :: l).idxOf rid < (l₁ ++ rid :: l).idxOf v) :
    v ∉ l₁ ∧ v ≠ rid ∧ v ∈ l := by
  have hrid : rid ∉ l₁ := fun hm => (List.nodup_append.mp hn).2.2 rid hm rid (by simp) rfl
  rw [List.idxOf_append_of_notMem hrid, idxOf_cons_self] at hlt
  have hnot : v ∉ l₁ := fun hm => by
    rw [List.idxOf_append_of_mem hm] at hlt
    have := List.idxOf_lt_length_of_mem hm
    omega
  have hne : v ≠ rid := by
    rintro rfl
    rw [List.idxOf_append_of_notMem hnot, idxOf_cons_self] at hlt
    omega
  refine ⟨hnot, hne, ?_⟩
  simpa [hnot, hne] using hv

theorem preemptionsAt_current {e : Preemption} (he : e ∈ preemptionsAt H C rid n fuel p) :
    e.current = rid := by
  induction fuel generalizing p with
  | zero => simp [preemptionsAt] at he
  | succ fuel ih =>
    unfold preemptionsAt at he
    split at he
    next =>
      split at he
      next =>
        rcases mem_cons.mp he with rfl | he
        · rfl
        · split at he
          next =>
            split at he
            · simp at he
            · exact ih he
          next => simp at he
      next => simp at he
    next => simp at he

theorem visitPreemptions_current {e : Preemption} (he : e ∈ p.visitPreemptions H C rid) :
    e.current = rid := by
  unfold Pass.visitPreemptions at he
  dsimp only at he
  split at he
  · simp at he
  · exact preemptionsAt_current he

/-- The inner loop, at a request before `r` whose victims are all behind it: in the end `r` has been
preempted, or the request has its slots and is still before `r`. -/
theorem allocateOrPreempt_behind {l₁ l₂ l₃ : List ReqId}
    (hrun : p.sched.running = l₁ ++ rid :: (l₂ ++ r :: l₃)) (hn : p.sched.running.Nodup)
    (hvict : ∀ e ∈ preemptionsAt H C rid n fuel p, r ∈ e.pass.preemptedReqs ∨ e.VictimBehind)
    (h : p.sched.allocateOrPreempt H C rid n fuel p.preemptedReqs = .ok (res, s', pre)) :
    r ∈ pre ∨ ∃ blocks l₂' l₃', res = some blocks ∧
      s'.running = l₁ ++ rid :: (l₂' ++ r :: l₃') ∧ ∀ id ∈ l₂', id ∈ l₂ := by
  induction fuel generalizing p l₂ l₃ with
  | zero => simp [Scheduler.allocateOrPreempt] at h
  | succ fuel ih =>
    obtain ⟨⟨newBlocks, k⟩, halloc, h⟩ := bind_eq_ok.mp h
    cases newBlocks with
    | some blocks =>
      cases h
      exact .inr ⟨blocks, l₂, l₃, rfl, hrun, fun _ hid => hid⟩
    | none =>
      obtain ⟨v, hv, h⟩ := bind_eq_ok.mp h
      obtain ⟨s₂, hs₂, h⟩ := bind_eq_ok.mp h
      simp only [preemptionsAt, halloc, hv, hs₂] at hvict
      have hp := Scheduler.preempt_ok hs₂
      have hmem : v ∈ p.sched.running := (Scheduler.victim_ok hv).1
      rcases hvict _ List.mem_cons_self with hpre | hlt
      · -- it has been preempted before
        left
        by_cases hvr : v = rid
        · rw [if_pos hvr] at h
          cases h
          exact mem_append_left _ hpre
        · rw [if_neg hvr] at h
          exact (allocateOrPreempt_preempted h).1 r (mem_append_left _ hpre)
      unfold Preemption.VictimBehind at hlt
      have hrun₂ : s₂.running = p.sched.running.erase v :=
        hp.running.trans (Scheduler.removeVictim_eq (s := p.sched.withKV k) hn hv)
      rw [hrun] at hlt hmem hn
      obtain ⟨hnot, hne, hmem⟩ := mem_of_idxOf_lt hn hmem hlt
      rw [if_neg hne] at h hvict
      by_cases hvr : v = r
      · left
        apply (allocateOrPreempt_preempted h).1
        simp [hvr]
      · -- the victim was behind the request, before or behind `r`
        rw [hrun, List.erase_append_right _ hnot, List.erase_cons_tail (by simpa using Ne.symm hne)]
          at hrun₂
        have hnd₂ : s₂.running.Nodup := by
          rw [hp.running, Scheduler.removeVictim_eq (s := p.sched.withKV k) (hrun ▸ hn) hv]
          exact (hrun ▸ hn : p.sched.running.Nodup).erase v
        by_cases hl₂ : v ∈ l₂
        · rw [List.erase_append_left _ hl₂] at hrun₂
          rcases ih (p := { p with sched := s₂, preemptedReqs := p.preemptedReqs ++ [v] }) hrun₂
            hnd₂ (fun e he => hvict e (List.mem_cons_of_mem _ he)) h with hpre | ⟨b, m₂, m₃, h₁, h₂, h₃⟩
          · exact .inl hpre
          · exact .inr ⟨b, m₂, m₃, h₁, h₂, fun id hid => List.mem_of_mem_erase (h₃ id hid)⟩
        · rw [List.erase_append_right _ hl₂, List.erase_cons_tail (by simpa using Ne.symm hvr)]
            at hrun₂
          rcases ih (p := { p with sched := s₂, preemptedReqs := p.preemptedReqs ++ [v] }) hrun₂
            hnd₂ (fun e he => hvict e (List.mem_cons_of_mem _ he)) h with hpre | ⟨b, m₂, m₃, h₁, h₂, h₃⟩
          · exact .inl hpre
          · exact .inr ⟨b, m₂, m₃, h₁, h₂, h₃⟩

/-- A text request with tokens to compute and positions of the model left. -/
structure Request.CanRun (C : SchedulerConfig) (r : Request) : Prop where
  text : r.mmPositions = []
  placeholders : 0 ≤ r.numOutputPlaceholders
  tokens : r.numComputedTokens < r.numTokens
  modelLen : r.numComputedTokens + 1 < C.maxModelLen

theorem Request.CanRun.numNewTokens_pos {q : Request} (h : q.CanRun C) (hb : 0 < p.tokenBudget) :
    1 ≤ (p.runningDemand C q).numNewTokens := by
  rw [Pass.runningDemand_text h.text]
  have h₁ := h.placeholders
  have h₂ := h.tokens
  have h₃ := h.modelLen
  have hpos : 0 < q.numTokensWithSpec + q.numOutputPlaceholders - q.numComputedTokens := by
    unfold Request.numTokensWithSpec
    push_cast
    omega
  have hcap := SchedulerConfig.capPrefill_pos (C := C) hpos
  exact le_min (le_min hcap hb) (by omega)

/-- The loop is at the request itself. -/
theorem visitRunning_self {goOn : Bool} (hcan : (p.sched.request r).CanRun C)
    (hb : 0 < p.tokenBudget) (h : p.visitRunning H C r = .ok (goOn, p')) : p'.Settled r := by
  have hpos := hcan.numNewTokens_pos (p := p) hb
  unfold Pass.visitRunning at h
  rw [if_neg (by omega)] at h
  obtain ⟨⟨res, s₁, pre⟩, hloop, h⟩ := bind_eq_ok.mp h
  cases res with
  | none =>
    cases h
    exact .inl ((allocateOrPreempt_preempted hloop).2 rfl)
  | some blocks =>
    cases h
    refine .inr ⟨_, ?_, hpos⟩
    rw [(Pass.scheduleRunning_effect _ r _ blocks).numScheduledTokens]
    exact Dict.get?_set_self

/-- The loop is at a request before `r`. -/
theorem visitRunning_before {goOn : Bool} {l₁ l₂ l₃ : List ReqId}
    (hrun : p.sched.running = l₁ ++ rid :: (l₂ ++ r :: l₃)) (hidx : p.reqIndex = l₁.length)
    (hn : p.sched.running.Nodup) (hbefore : ∀ id ∈ l₁ ++ rid :: l₂, id ∈ before)
    (hun : r ∉ p.numScheduledTokens) (hsch : ∀ id ∈ p.numScheduledTokens, id ∈ before)
    (hvict : ∀ e ∈ p.visitPreemptions H C rid, r ∈ e.pass.preemptedReqs ∨ e.VictimBehind)
    (h : p.visitRunning H C rid = .ok (goOn, p')) :
    p'.Settled r ∨ (goOn = true ∧ p'.Pending before r) := by
  have hrid : rid ≠ r := by
    rintro rfl
    rw [hrun] at hn
    exact (List.nodup_cons.mp (List.nodup_append.mp hn).2.1).1 (by simp)
  unfold Pass.visitPreemptions at hvict
  unfold Pass.visitRunning at h
  dsimp only at h hvict
  split at h
  next hzero =>
    cases h
    refine .inr ⟨rfl, ⟨⟨l₁ ++ rid :: l₂, l₃, by simp [hrun], ?_, hbefore⟩, hun, hsch⟩⟩
    simp [hidx]
  next hpos =>
    rw [if_neg hpos] at hvict
    obtain ⟨⟨res, s₁, pre⟩, hloop, h⟩ := bind_eq_ok.mp h
    rcases allocateOrPreempt_behind hrun hn hvict hloop with hpre | ⟨blocks, m₂, m₃, rfl, hrun₁, hsub⟩
    · left
      cases res with
      | none =>
        cases h
        exact .inl hpre
      | some blocks =>
        cases h
        left
        rw [(Pass.scheduleRunning_effect _ rid _ blocks).preemptedReqs]
        exact hpre
    · cases h
      refine .inr ⟨rfl, ?_⟩
      have he := Pass.scheduleRunning_effect { p with sched := s₁, preemptedReqs := pre } rid
        (p.runningDemand C (p.sched.request rid)) blocks
      refine ⟨⟨l₁ ++ rid :: m₂, m₃, ?_, ?_, fun id hid => hbefore id ?_⟩, ?_, fun id hid => ?_⟩
      · rw [he.running]
        simp [hrun₁]
      · rw [he.reqIndex]
        simp [hidx]
      · simp only [mem_append, mem_cons] at hid ⊢
        exact hid.imp_right fun h => h.imp_right (hsub id)
      · rw [he.numScheduledTokens, Dict.mem_set, not_or]
        exact ⟨hrid.symm, hun⟩
      · rw [he.numScheduledTokens, Dict.mem_set] at hid
        rcases hid with rfl | hid
        · exact hbefore id (by simp)
        · exact hsch id hid

/-- **The loop over the running requests comes to `r`**, unless the budget is used up before. -/
theorem runningLoop_pending (hbooks : p.Books C s) (ha : p.Ahead) (hpend : p.Pending before r)
    (hcan : (s.request r).CanRun C)
    (hvict : ∀ e ∈ loopPreemptions H C fuel p, e.current ∈ before →
      r ∈ e.pass.preemptedReqs ∨ e.VictimBehind)
    (h : runningLoop H C fuel p = .ok p') :
    p'.Settled r ∨ (p'.Pending before r ∧ p'.tokenBudget ≤ 0) := by
  induction fuel generalizing p with
  | zero =>
    obtain ⟨l₁, l₂, hrun, hidx, -⟩ := hpend.ahead
    unfold runningLoop at h
    split at h
    · simp at h
    next hcond =>
      cases h
      refine .inr ⟨hpend, not_lt.mp fun hb => hcond ⟨?_, hb⟩⟩
      rw [hrun]
      simp
      omega
  | succ fuel ih =>
    obtain ⟨l₁, l₂, hrun, hidx, hbefore⟩ := hpend.ahead
    unfold runningLoop at h
    split at h
    next hnone =>
      rw [hrun, List.getElem?_eq_none_iff] at hnone
      simp at hnone
      omega
    next rid hrid =>
    split at h
    next hb =>
      obtain ⟨⟨goOn, p₁⟩, hvisit, h⟩ := bind_eq_ok.mp h
      have hat := ha.at hrid hb
      simp only [loopPreemptions, hrid, if_pos hb, hvisit] at hvict
      obtain ⟨htrace, hahead⟩ := visitRunning_trace (E := {}) hat (fun _ he => he) hvisit
      have hbooks₁ := hbooks.moves htrace.moves
      -- once it is settled, the rest of the loop leaves it so
      have hsettled : p₁.Settled r → p'.Settled r := fun hset => by
        cases goOn with
        | true =>
          exact (hset.moves hbooks₁ (runningLoop_trace (E := {}) (hahead rfl)
            (fun _ he => he) h).moves).1
        | false =>
          cases h
          exact hset
      rcases Nat.lt_or_ge p.reqIndex l₁.length with hlt | hge
      · -- the loop is at a request before `r`
        rw [hrun, List.getElem?_append_left hlt] at hrid
        obtain ⟨hi, hget⟩ := List.getElem?_eq_some_iff.mp hrid
        have hsplit : l₁ = l₁.take p.reqIndex ++ rid :: l₁.drop (p.reqIndex + 1) := by
          rw [← hget, ← List.drop_eq_getElem_cons hi, List.take_append_drop]
        have hcur : rid ∈ before := hbefore rid (List.mem_of_getElem? hrid)
        have hvict₁ : ∀ e ∈ p.visitPreemptions H C rid,
            r ∈ e.pass.preemptedReqs ∨ e.VictimBehind := fun e he =>
          hvict e (mem_append_left _ he) (by rw [visitPreemptions_current he]; exact hcur)
        have hrun₁ : p.sched.running =
            l₁.take p.reqIndex ++ rid :: (l₁.drop (p.reqIndex + 1) ++ r :: l₂) := by
          rw [hrun, ← List.cons_append, ← List.append_assoc, ← hsplit]
        rcases visitRunning_before hrun₁
          (by simp; omega) ha.nodup (hsplit ▸ hbefore) hpend.unscheduled hpend.scheduled hvict₁
          hvisit with hset | ⟨rfl, hpend₁⟩
        · exact .inl (hsettled hset)
        · exact ih hbooks₁ (hahead rfl) hpend₁
            (fun e he => hvict e (List.mem_append_right _ he)) h
      · have hrid' : rid = r := by
          rw [hrun, show p.reqIndex = l₁.length from le_antisymm hidx hge] at hrid
          simpa using hrid.symm
        subst hrid'
        have hreq := (hbooks.untouched.untouched rid hat.mem hpend.unscheduled).2
        exact .inl (hsettled (visitRunning_self (hreq ▸ hcan) hb hvisit))
    next hb =>
      cases h
      exact .inr ⟨hpend, not_lt.mp hb⟩

/-- The loops of a step, taken apart behind the loop over the running requests. -/
theorem schedulePass_split (hn : s.running.Nodup) (h : s.schedulePass H C E = .ok p) :
    ∃ p₁ p₃, runningLoop H C s.running.length (.start C s) = .ok p₁ ∧
      (Pass.start C s).Moves H C E (s.preemptions H C) p₁ ∧
      p₁.Moves H C E (s.preemptions H C) p₃ ∧ p₃.restoreSkipped = .ok p ∧
      (p₁.tokenBudget ≤ 0 → p₃.numScheduledTokens = p₁.numScheduledTokens) := by
  obtain ⟨p₁, hrun, h⟩ := bind_eq_ok.mp h
  obtain ⟨p₂, hlora, h⟩ := bind_eq_ok.mp h
  obtain ⟨p₃, hwait, h⟩ := bind_eq_ok.mp h
  have hm₁ := (runningLoop_trace (E := E) (L := s.preemptions H C)
    ⟨hn, fun id _ => Dict.notMem_empty id⟩ (fun _ he => he) hrun).moves
  have hmove : Pass.MoveIn H C E (s.preemptions H C) p₁ p₂ := by
    refine (Pass.Move.recordLoras hlora).quiet ?_
    obtain ⟨loras, rfl⟩ := recordLoras_ok hlora
    rfl
  refine ⟨p₁, p₃, hrun, hm₁, ?_, h, fun hb => ?_⟩
  · refine .head hmove ?_
    unfold Pass.scheduleWaitingReqs at hwait
    split at hwait
    next hpre => exact (waitingLoop_trace hpre hwait).moves
    next =>
      cases hwait
      exact .refl
  · obtain ⟨loras, rfl⟩ := recordLoras_ok hlora
    unfold Pass.scheduleWaitingReqs at hwait
    split at hwait
    next =>
      -- without budget the loop over the waiting requests does nothing
      unfold waitingLoop at hwait
      rw [if_neg fun hcond => absurd hcond.2.1 (not_lt.mpr hb)] at hwait
      cases hwait
      rfl
    next =>
      cases hwait
      rfl

theorem dropWhile_ne_of_mem {l : List ReqId} (h : r ∈ l) :
    l.dropWhile (· ≠ r) = r :: (l.dropWhile (· ≠ r)).tail := by
  induction l with
  | nil => simp at h
  | cons a l ih =>
    by_cases ha : a = r
    · simp [ha]
    · simpa [ha] using ih (by simpa [Ne.symm ha] using h)

/-- The running requests before `r`. -/
def Scheduler.runningBefore (s : Scheduler) (r : ReqId) : List ReqId :=
  s.running.takeWhile (· ≠ r)

/-- **The condition.** As long as `r` itself has not been preempted, a request before it preempts only
requests behind itself. -/
def Scheduler.PreemptsBehind (H : BlockHasher) (C : SchedulerConfig) (s : Scheduler) (r : ReqId) :
    Prop :=
  ∀ e ∈ s.preemptions H C, e.current ∈ s.runningBefore r →
    r ∈ e.pass.preemptedReqs ∨ e.VictimBehind

instance (H : BlockHasher) (C : SchedulerConfig) (s : Scheduler) (r : ReqId) :
    Decidable (s.PreemptsBehind H C r) := by
  unfold Scheduler.PreemptsBehind
  infer_instance

/-- **A running request with tokens to compute is scheduled or preempted**, if the requests before it
leave some of the budget, and preempt only requests behind them. -/
theorem schedule_progress {output : SchedulerOutput} (hplaces : s.Places s.running s.waiting.ids)
    (hr : r ∈ s.running) (hcan : (s.request r).CanRun C)
    (hvict : s.PreemptsBehind H C r)
    (hsched : s.schedule H C E = .ok (output, s'))
    (hbudget : ((s.runningBefore r).map fun id => output.numScheduledTokens.getD id 0).sum <
      C.maxNumScheduledTokens) :
    (∃ n, output.numScheduledTokens.get? r = some n ∧ 1 ≤ n) ∨
      (s'.request r).status = .preempted := by
  obtain ⟨p, hsch⟩ := schedule_ok hsched
  obtain ⟨p₁, p₃, hrun, hm₁, hm₃, hrestore, hidle⟩ :=
    schedulePass_split hplaces.nodupR hsch.pass
  obtain ⟨w, rfl, -⟩ := restoreSkipped_ok hrestore
  obtain ⟨common, rfl⟩ := hsch.output
  have hstart : (Pass.start C s).Pending (s.runningBefore r) r := by
    refine ⟨⟨s.runningBefore r, (s.running.dropWhile (· ≠ r)).tail, ?_, Nat.zero_le _,
      fun _ hid => hid⟩, Dict.notMem_empty r, fun id hid => absurd hid (Dict.notMem_empty id)⟩
    exact (List.takeWhile_append_dropWhile (p := (· ≠ r))).symm.trans
      (congrArg (s.runningBefore r ++ ·) (dropWhile_ne_of_mem hr))
  have hbooks₁ := (Pass.books_start hplaces).moves hm₁
  rcases runningLoop_pending (Pass.books_start hplaces)
    ⟨hplaces.nodupR, fun id _ => Dict.notMem_empty id⟩ hstart hcan hvict hrun with
    hset | ⟨hpend, hb⟩
  · obtain ⟨hset, hbooks⟩ := hset.moves hbooks₁ hm₃
    rcases hset with hpre | hsch'
    · right
      obtain ⟨m, hreq, -⟩ := hsch.advances.request r
      rw [hreq]
      exact (hbooks.preempted r hpre).2
    · exact .inl hsch'
  · -- all of the budget has gone to requests before it
    exfalso
    have hnum := hidle hb
    have hsum := Dict.sum_getD_eq_total (d := p₁.numScheduledTokens) (l := s.runningBefore r)
      (hplaces.nodupR.sublist (List.takeWhile_sublist _)) hpend.scheduled
    have hbooks := hbooks₁.budget
    change ((s.runningBefore r).map fun id => p₃.numScheduledTokens.getD id 0).sum < _ at hbudget
    rw [hnum, hsum] at hbudget
    omega

end Pending

/-! ## The fcfs policy

The victim is the last of the running requests, so it is behind every other one. -/

section Fcfs

variable {H : BlockHasher} {C : SchedulerConfig} {s s' : Scheduler} {p p' : Pass} {r rid : ReqId}
  {n : Int} {fuel : Nat} {pre : List ReqId} {res : Option (List (List BlockId))}

/-- The loop over the running requests has only removed requests, by preempting them. -/
structure Pass.Shrinks (s : Scheduler) (p : Pass) : Prop where
  sublist : p.sched.running.Sublist s.running
  preempted : ∀ id ∈ s.running, id ∈ p.sched.running ∨ id ∈ p.preemptedReqs

theorem Pass.Shrinks.preempt {k : KVCacheManager} {v : ReqId} {s₂ : Scheduler} (h : p.Shrinks s)
    (hn : s.running.Nodup) (hv : (p.sched.withKV k).victim C = .ok v)
    (hs₂ : (p.sched.withKV k).preempt C v = .ok s₂) :
    Pass.Shrinks s { p with sched := s₂, preemptedReqs := p.preemptedReqs ++ [v] } := by
  have hnp : p.sched.running.Nodup := hn.sublist h.sublist
  have hrun : s₂.running = p.sched.running.erase v :=
    (Scheduler.preempt_ok hs₂).running.trans
      (Scheduler.removeVictim_eq (s := p.sched.withKV k) hnp hv)
  refine ⟨hrun ▸ List.erase_sublist.trans h.sublist, fun id hid => ?_⟩
  rw [hrun, hnp.mem_erase_iff, mem_append, List.mem_singleton]
  by_cases hiv : id = v
  · exact .inr (.inr hiv)
  · exact (h.preempted id hid).imp (fun hm => ⟨hiv, hm⟩) .inl

/-- The preemptions of the inner loop, and what it leaves. -/
theorem Pass.Shrinks.allocateOrPreempt (h : p.Shrinks s) (hn : s.running.Nodup)
    (hrid : rid ∈ p.sched.running) :
    (∀ e ∈ preemptionsAt H C rid n fuel p, e.pass.Shrinks s ∧
      e.current ∈ e.pass.sched.running ∧ ∃ k, (e.pass.sched.withKV k).victim C = .ok e.victim) ∧
    (∀ res s' pre, p.sched.allocateOrPreempt H C rid n fuel p.preemptedReqs = .ok (res, s', pre) →
      Pass.Shrinks s { p with sched := s', preemptedReqs := pre }) := by
  induction fuel generalizing p with
  | zero => exact ⟨by simp [preemptionsAt], by simp [Scheduler.allocateOrPreempt]⟩
  | succ fuel ih =>
    -- the current request stays, unless it is the victim
    have hstays : ∀ {k v s₂}, (p.sched.withKV k).victim C = .ok v →
        (p.sched.withKV k).preempt C v = .ok s₂ → v ≠ rid → rid ∈ s₂.running := by
      intro k v s₂ hv hs₂ hne
      rw [(Scheduler.preempt_ok hs₂).running,
        Scheduler.removeVictim_eq (s := p.sched.withKV k) (hn.sublist h.sublist) hv]
      exact (List.mem_erase_of_ne hne.symm).mpr hrid
    constructor
    · intro e he
      unfold preemptionsAt at he
      split at he
      next k halloc =>
        split at he
        next v hv =>
          rcases mem_cons.mp he with rfl | he
          · exact ⟨h, hrid, k, hv⟩
          · split at he
            next s₂ hs₂ =>
              split at he
              · simp at he
              next hne => exact (ih (h.preempt hn hv hs₂) (hstays hv hs₂ hne)).1 e he
            next => simp at he
        next => simp at he
      next => simp at he
    · intro res s' pre hloop
      obtain ⟨⟨newBlocks, k⟩, -, hloop⟩ := bind_eq_ok.mp hloop
      cases newBlocks with
      | some blocks =>
        cases hloop
        exact ⟨h.sublist, h.preempted⟩
      | none =>
        obtain ⟨v, hv, hloop⟩ := bind_eq_ok.mp hloop
        obtain ⟨s₂, hs₂, hloop⟩ := bind_eq_ok.mp hloop
        have h₂ := h.preempt hn hv hs₂
        split at hloop
        · cases hloop
          exact h₂
        next hne => exact (ih h₂ (hstays hv hs₂ hne)).2 res s' pre hloop

theorem Pass.Shrinks.visitRunning {goOn : Bool} (h : p.Shrinks s) (hn : s.running.Nodup)
    (hrid : rid ∈ p.sched.running) (hvisit : p.visitRunning H C rid = .ok (goOn, p')) : p'.Shrinks s := by
  unfold Pass.visitRunning at hvisit
  dsimp only at hvisit
  split at hvisit
  · cases hvisit
    exact ⟨h.sublist, h.preempted⟩
  · obtain ⟨⟨res, s₁, pre⟩, hloop, hvisit⟩ := bind_eq_ok.mp hvisit
    have h₁ := (h.allocateOrPreempt hn hrid).2 _ _ _ hloop
    cases res with
    | none =>
      cases hvisit
      exact h₁
    | some blocks =>
      cases hvisit
      have he := Pass.scheduleRunning_effect { p with sched := s₁, preemptedReqs := pre } rid
        (p.runningDemand C (p.sched.request rid)) blocks
      exact ⟨he.running ▸ h₁.sublist, fun id hid => by
        rw [he.running, he.preemptedReqs]
        exact h₁.preempted id hid⟩

theorem Pass.Shrinks.loopPreemptions (h : p.Shrinks s) (hn : s.running.Nodup) :
    ∀ e ∈ loopPreemptions H C fuel p, e.pass.Shrinks s ∧
      e.current ∈ e.pass.sched.running ∧ ∃ k, (e.pass.sched.withKV k).victim C = .ok e.victim := by
  induction fuel generalizing p with
  | zero => simp [InferenceServer.loopPreemptions]
  | succ fuel ih =>
    intro e he
    unfold InferenceServer.loopPreemptions at he
    split at he
    next => simp at he
    next rid hrid =>
      split at he
      next =>
        rcases mem_append.mp he with he | he
        · unfold Pass.visitPreemptions at he
          dsimp only at he
          split at he
          · simp at he
          · exact (h.allocateOrPreempt hn (List.mem_of_getElem? hrid)).1 e he
        · split at he
          next p₁ hvisit => exact ih (h.visitRunning hn (List.mem_of_getElem? hrid) hvisit) e he
          next => simp at he
      next => simp at he

theorem pairwise_idxOf_lt {l : List ReqId} (hn : l.Nodup) :
    l.Pairwise fun a b => l.idxOf a < l.idxOf b := by
  rw [List.pairwise_iff_getElem]
  intro i j hi hj hij
  rw [hn.idxOf_getElem i hi, hn.idxOf_getElem j hj]
  exact hij

/-- **Under the fcfs policy every request preempts only requests behind it**, until `r` is
preempted. -/
theorem preemptsBehind_of_fcfs (hpolicy : C.policy = .fcfs) (hn : s.running.Nodup)
    (hr : r ∈ s.running) : s.PreemptsBehind H C r := by
  intro e he hcur
  obtain ⟨hshrinks, hmemCur, k, hv⟩ :=
    Pass.Shrinks.loopPreemptions ⟨List.Sublist.refl _, fun _ hid => .inl hid⟩ hn e he
  rcases hshrinks.preempted r hr with hmem | hpre
  · right
    have hlast : e.pass.sched.running.getLast? = some e.victim := (Scheduler.victim_ok hv).2 hpolicy
    obtain ⟨l, hl⟩ := List.getLast?_eq_some_iff.mp hlast
    have hsplit : s.running = s.runningBefore r ++ r :: (s.running.dropWhile (· ≠ r)).tail :=
      (List.takeWhile_append_dropWhile (p := (· ≠ r))).symm.trans
        (congrArg (s.runningBefore r ++ ·) (dropWhile_ne_of_mem hr))
    have hnot : r ∉ s.runningBefore r := fun hm => by
      simpa using List.mem_takeWhile_imp hm
    have hlt : s.running.idxOf e.current < s.running.idxOf r := by
      rw [hsplit, List.idxOf_append_of_mem hcur, List.idxOf_append_of_notMem hnot,
        idxOf_cons_self]
      exact List.idxOf_lt_length_of_mem hcur
    have hpair := (pairwise_idxOf_lt hn).sublist hshrinks.sublist
    have hnd := hn.sublist hshrinks.sublist
    rw [hl] at hpair hmem hmemCur hnd
    have hlastNot : e.victim ∉ l := fun hm =>
      (List.nodup_append.mp hnd).2.2 _ hm _ (List.mem_singleton_self _) rfl
    -- the last request cannot be the current one: `r` is behind that
    have hne : e.current ≠ e.victim := fun heq => by
      have hmem' : r ∈ l := by
        rcases mem_append.mp hmem with hm | hm
        · exact hm
        · rw [List.mem_singleton.mp hm, ← heq] at hlt
          exact absurd hlt (lt_irrefl _)
      have := (List.pairwise_append.mp hpair).2.2 r hmem' e.victim (List.mem_singleton_self _)
      rw [← heq] at this
      omega
    have hcurl : e.current ∈ l := by simpa [hne] using hmemCur
    unfold Preemption.VictimBehind
    rw [hl, List.idxOf_append_of_mem hcurl, List.idxOf_append_of_notMem hlastNot,
      idxOf_cons_self]
    exact List.idxOf_lt_length_of_mem hcurl
  · exact .inl hpre

end Fcfs

/-! ## Progress in runs -/

section ProgressInRuns

variable {H : BlockHasher} {C : SchedulerConfig} {E : Environment} {s s' : Engine} {s₀ : Scheduler}

/-- No request expects a negative number of tokens. -/
def Engine.ExpectsTokens (s : Engine) : Prop :=
  ∀ id, 0 ≤ (s.sched.request id).numOutputPlaceholders

theorem Request.numOutputPlaceholders_rejectDrafts (r : Request) (drafts generated : List TokenId) :
    (r.rejectDrafts drafts generated).numOutputPlaceholders = r.numOutputPlaceholders := by
  unfold Request.rejectDrafts
  split <;> rfl

theorem Engine.ExpectsTokens.step (h : s.ExpectsTokens) (hplaced : s.Placed) {op : EngineOp}
    (hstep : s.step H C op = .ok s') : s'.ExpectsTokens := by
  intro id
  cases Engine.step_cases hstep with
  | addRequest hadd =>
    rw [(addRequest_ok hadd).request]
    split
    · exact le_rfl
    · exact h id
  | schedule hsched =>
    obtain ⟨-, -, -, hreq⟩ := schedule_places hplaced.places hplaced.accounts.mem_objects hsched
    exact (h id).trans (hreq id).numOutputPlaceholders
  | updateFromOutput _ hup =>
    obtain ⟨u, hu, -⟩ := updateFromOutput_ok hup
    rw [Scheduler.request_congr hu.objects]
    refine threadM_invariant
      (I := fun _ u => ∀ id, 0 ≤ (u.sched.request id).numOutputPlaceholders) ?_
      (by exact h) hu.loop id
    intro e rest u u' hI hround id
    obtain ⟨-, ⟨-, rfl⟩ | ⟨-, index, generated, appended, stopped, -, -, ha⟩⟩ :=
      updateRequest_ok hround
    · exact hI id
    · by_cases hid : id = e.1
      · subst hid
        apply ha.request.placeholders_nonneg
        rw [Request.numOutputPlaceholders_rejectDrafts]
        exact hI e.1
      · rw [ha.others id hid]
        exact hI id
  | finishRequests hfin =>
    obtain ⟨-, valid, -, -, w, -, hloop⟩ := finishRequests_ok hplaced.places.nodupR hfin
    refine threadM_invariant
      (I := fun _ (s : Scheduler) => ∀ id, 0 ≤ (s.request id).numOutputPlaceholders) ?_
      (by exact h) hloop id
    intro rid rest s s' hI hround id
    rw [Scheduler.request_congr (finishRequest_ok hround).1, Scheduler.request_modify]
    split
    · exact hI rid
    · exact hI id

theorem Engine.expectsTokens_of_reach (hinit : Scheduler.init C = .ok s₀)
    (hs : (engineMachine H C s₀).Reach FreshIds s) : s.ExpectsTokens := by
  refine (hs.invariant (I := fun s => s.Placed ∧ s.ExpectsTokens) ⟨Engine.placed_init hinit, ?_⟩
    fun _ _ _ hI hok hstep => ⟨hI.1.step hok hstep, hI.2.step hI.1 hstep⟩).2
  obtain ⟨_, -, h₁⟩ := bind_eq_ok.mp hinit
  obtain ⟨k, -, h₂⟩ := bind_eq_ok.mp h₁
  cases h₂
  exact fun id => le_rfl

/-- **Under the fcfs policy nobody is preempted by a request behind it**, in any call of `schedule` of a
run. -/
theorem preemptsBehind_of_reach (hpolicy : C.policy = .fcfs) (hinit : Scheduler.init C = .ok s₀)
    (hs : (engineMachine H C s₀).Reach UnusedIds s) {id : ReqId} (hid : id ∈ s.sched.running) :
    s.sched.PreemptsBehind H C id :=
  preemptsBehind_of_fcfs hpolicy (Engine.places_of_reach hinit hs).1.nodupR hid

/-- Request 1 needs a third block, and preempts request 2. -/
theorem preemptsBehind_two : ∃ s : Engine,
    ((s.sched.preemptions .encoding (pairConfig 4 8)).map fun e => (e.current, e.victim)) = [(1, 2)] ∧
      s.sched.PreemptsBehind .encoding (pairConfig 4 8) 2 := by
  obtain ⟨s₀, s, hinit, hreach, hpre, hid⟩ := exists_runEngine .encoding (pairConfig 4 8) UnusedIds
    [.addRequest (textRequest 1 [1, 2, 3, 4]), .addRequest (textRequest 2 [5]), .schedule {},
      .updateFromOutput {} (sampled [(1, [6]), (2, [7])])]
    (fun s => ((s.sched.preemptions .encoding (pairConfig 4 8)).map fun e =>
      (e.current, e.victim)) = [(1, 2)] ∧ 2 ∈ s.sched.running) (by decide +kernel)
  exact ⟨s, hpre, preemptsBehind_of_reach rfl hinit hreach hid⟩

/-- **No stuck running request.** In every state of a run, a running text request that has tokens to
compute and is not at the last position of the model is scheduled or preempted by the next call of
`schedule`, if the requests before it leave some of the budget and preempt only behind
themselves. -/
theorem runs_or_preempted (hinit : Scheduler.init C = .ok s₀)
    (hs : (engineMachine H C s₀).Reach FreshIds s) {id : ReqId} (hid : id ∈ s.sched.running)
    (htext : (s.sched.request id).mmPositions = [])
    (htokens : (s.sched.request id).numComputedTokens < (s.sched.request id).numTokens)
    (hlen : (s.sched.request id).numComputedTokens + 1 < C.maxModelLen)
    (hvict : s.sched.PreemptsBehind H C id) {output : SchedulerOutput} {sched : Scheduler}
    (hsched : s.sched.schedule H C E = .ok (output, sched))
    (hbudget : ((s.sched.runningBefore id).map fun id => output.numScheduledTokens.getD id 0).sum <
      C.maxNumScheduledTokens) :
    (∃ n, output.numScheduledTokens.get? id = some n ∧ 1 ≤ n) ∨
      (sched.request id).status = .preempted :=
  schedule_progress (Engine.placed_of_reach hinit hs).places hid
    ⟨htext, Engine.expectsTokens_of_reach hinit hs id, htokens, hlen⟩ hvict hsched hbudget

/-- A prompt that takes two steps, with no step in flight in between. -/
def chunkedRun (prompt : List TokenId) : List EngineOp :=
  [.addRequest (textRequest 1 prompt), .schedule {}, .updateFromOutput {} (sampled [(1, [])])]

/-- The theorem on a request whose prompt is computed in two steps. -/
theorem runs_or_preempted_chunkedRun :
    ∃ (s : Engine) (output : SchedulerOutput) (sched : Scheduler),
      runEngine .encoding { pairConfig 4 8 with maxNumScheduledTokens := 3 } FreshIds
        (chunkedRun [1, 2, 3, 4]) = some s ∧
      s.sched.schedule .encoding { pairConfig 4 8 with maxNumScheduledTokens := 3 } {} =
        .ok (output, sched) ∧
      ((∃ n, output.numScheduledTokens.get? 1 = some n ∧ 1 ≤ n) ∨
        (sched.request 1).status = .preempted) := by
  let C := { pairConfig 4 8 with maxNumScheduledTokens := 3 }
  have hrun : (runEngine .encoding C FreshIds (chunkedRun [1, 2, 3, 4])).any (fun s => decide
      (1 ∈ s.sched.running ∧ (s.sched.request 1).mmPositions = [] ∧
        (s.sched.request 1).numComputedTokens < (s.sched.request 1).numTokens ∧
        (s.sched.request 1).numComputedTokens + 1 < (C.maxModelLen : Int) ∧
        s.sched.PreemptsBehind .encoding C 1) &&
      match s.sched.schedule .encoding C {} with
      | .ok (output, _) => decide (((s.sched.runningBefore 1).map fun id =>
          output.numScheduledTokens.getD id 0).sum < (C.maxNumScheduledTokens : Int))
      | .error _ => false) = true := by decide +kernel
  obtain ⟨s, hs, h⟩ := Option.any_eq_true .. |>.mp hrun
  obtain ⟨hstate, hcall⟩ := Bool.and_eq_true _ _ ▸ h
  obtain ⟨hid, htext, htokens, hlen, hvict⟩ := of_decide_eq_true hstate
  obtain ⟨s₀, hinit, hreach⟩ := reach_runEngine hs
  cases hsched : s.sched.schedule .encoding C {} with
  | error e => simp [hsched] at hcall
  | ok res =>
    obtain ⟨output, sched⟩ := res
    rw [hsched] at hcall
    exact ⟨s, output, sched, hs, hsched, runs_or_preempted hinit hreach hid htext htokens hlen hvict
      hsched (of_decide_eq_true hcall)⟩

/-- **A stuck request**: all tokens but the last of a prompt of the full length are computed, nothing is
in flight, and the next step neither schedules nor preempts the request. -/
theorem stuck_of_longest_prompt :
    ∃ (H : BlockHasher) (C : SchedulerConfig) (s₀ : Scheduler) (s : Engine)
      (output : SchedulerOutput) (sched : Scheduler),
      Scheduler.init C = .ok s₀ ∧
      (engineMachine H C s₀).Reach (fun s op => FreshIds s op ∧ AdmittedPrompts C op) s ∧
      s.inFlight = [] ∧ 1 ∈ s.sched.running ∧ (s.sched.request 1).mmPositions = [] ∧
      (s.sched.request 1).numComputedTokens < (s.sched.request 1).numTokens ∧
      s.sched.schedule H C {} = .ok (output, sched) ∧
      ((s.sched.runningBefore 1).map fun id => output.numScheduledTokens.getD id 0).sum <
        C.maxNumScheduledTokens ∧
      ¬((∃ n, output.numScheduledTokens.get? 1 = some n ∧ 1 ≤ n) ∨
        (sched.request 1).status = .preempted) := by
  let C := { pairConfig 4 4 with maxNumScheduledTokens := 3 }
  have hrun : (runEngine .encoding C (fun s op => FreshIds s op ∧ AdmittedPrompts C op)
      (chunkedRun [1, 2, 3, 4])).any (fun s => decide
      (s.inFlight = [] ∧ 1 ∈ s.sched.running ∧ (s.sched.request 1).mmPositions = [] ∧
        (s.sched.request 1).numComputedTokens < (s.sched.request 1).numTokens) &&
      match s.sched.schedule .encoding C {} with
      | .ok (output, sched) => decide (((s.sched.runningBefore 1).map fun id =>
          output.numScheduledTokens.getD id 0).sum < (C.maxNumScheduledTokens : Int) ∧
          output.numScheduledTokens.get? 1 = none ∧ (sched.request 1).status = .running)
      | .error _ => false) = true := by decide +kernel
  obtain ⟨s, hs, h⟩ := Option.any_eq_true .. |>.mp hrun
  obtain ⟨hstate, hcall⟩ := Bool.and_eq_true _ _ ▸ h
  obtain ⟨hin, hid, htext, htokens⟩ := of_decide_eq_true hstate
  obtain ⟨s₀, hinit, hreach⟩ := reach_runEngine hs
  cases hsched : s.sched.schedule .encoding C {} with
  | error e => simp [hsched] at hcall
  | ok res =>
    obtain ⟨output, sched⟩ := res
    rw [hsched] at hcall
    obtain ⟨hbudget, hnone, hst⟩ := of_decide_eq_true hcall
    refine ⟨.encoding, C, s₀, s, output, sched, hinit, hreach, hin, hid, htext, htokens, hsched,
      hbudget, ?_⟩
    rintro (⟨n, hn, -⟩ | hpre)
    · simp [hnone] at hn
    · simp [hst] at hpre

end ProgressInRuns

end InferenceServer
