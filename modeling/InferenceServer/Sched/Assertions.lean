import InferenceServer.Sched.Progress

/-!
# The assertions of a scheduling step

Behind its loops `schedule` asserts that it has kept to the token budget, that not too many requests
run, and that every request that it has scheduled still runs. Each request is given at most what is left
of the budget, and a request is admitted only while there is room. A request that was scheduled leaves
the running ones if it is preempted later in the step. Under the fcfs policy it is not: the victim is the
last of the running requests, and the loop has not passed it. Under the priority policy it may be, and
then the last assertion can fail.

## Main results

* `checkConstraints_of_reach`
-/

namespace InferenceServer

open Outcome

/-! ## Budget and room -/

section Within

variable {H : BlockHasher} {C : SchedulerConfig} {E : Environment} {p p' : Pass}

/-- The step is within the token budget and the number of running requests. -/
structure Pass.Within (C : SchedulerConfig) (p : Pass) : Prop where
  budget : 0 ≤ p.tokenBudget
  room : p.sched.running.length ≤ C.maxNumRunningReqs

/-- **Every move** stays within them. -/
theorem Pass.Within.move (h : p.Within C) (hm : Pass.Move H C E p p') : p'.Within C := by
  have hquiet : p'.sched.running = p.sched.running → p'.tokenBudget = p.tokenBudget → p'.Within C :=
    fun hrun hb => ⟨hb ▸ h.budget, hrun ▸ h.room⟩
  cases hm with
  | passOver => exact hquiet rfl rfl
  | @preempt rid v k s hat hpos halloc hv hs =>
    have hrun : s.running = p.sched.running.erase v :=
      (Scheduler.preempt_ok hs).running.trans (Scheduler.removeVictim_eq hat.nodup hv)
    exact ⟨h.budget, (hrun ▸ List.erase_sublist.length_le).trans h.room⟩
  | @scheduleRunning rid blocks k hat =>
    have he := (p.withKV k).scheduleRunning_effect rid
      (p.runningDemand C (p.sched.request rid)) blocks
    refine ⟨?_, he.running ▸ h.room⟩
    rw [he.tokenBudget]
    have hle := (tryScheduleEncoderInputs_bounds (C := C) (r := p.sched.request rid)
      p.sched.encoderCacheManager (p.sched.request rid).numComputedTokens
      (C.numNewTokensRunning (p.sched.request rid) p.tokenBudget) p.encoderBudget).1
    have hrun := (C.numNewTokensRunning_le (p.sched.request rid) p.tokenBudget).budget
    have hb := hat.budget
    change 0 ≤ p.tokenBudget - (tryScheduleEncoderInputs C p.sched.encoderCacheManager _ _ _ _).2.1
    omega
  | recordLoras hl =>
    obtain ⟨loras, rfl⟩ := recordLoras_ok hl
    exact hquiet rfl rfl
  | resolveStatus hat hres => exact hquiet (resolveStatus_queues hres).2 rfl
  | skip hat hskip =>
    obtain ⟨e, w, sk, -, -, rfl⟩ := skipWaiting_ok hskip
    exact hquiet rfl rfl
  | lookUp hat hct =>
    obtain ⟨k, rfl, -⟩ := getComputedTokens_ok hct
    exact hquiet rfl rfl
  | noSlots => exact hquiet rfl rfl
  | park hat hct hd hasync halloc hp =>
    obtain ⟨p₁, hskip, rfl⟩ := parkRemote_ok hp
    obtain ⟨e, w, sk, -, -, rfl⟩ := skipWaiting_ok hskip
    exact hquiet rfl rfl
  | @admitWaiting _ rid ct s₀ d blocks k hat hct hd hasync halloc ha =>
    have he := admit_ok ha
    obtain ⟨hasync', -⟩ | ⟨-, -, hle, -⟩ := Pass.waitingDemand_ok hd
    · rw [hasync] at hasync'
      cases hasync'
    · refine ⟨he.tokenBudget ▸ sub_nonneg.mpr hle, ?_⟩
      rw [he.running, List.length_append, List.length_singleton]
      exact Nat.lt_of_le_of_ne h.room hat.room

end Within

/-! ## Under the fcfs policy -/

section Fcfs

variable {H : BlockHasher} {C : SchedulerConfig} {E : Environment} {s s' : Scheduler} {p p' : Pass}
  {rid : ReqId} {fuel : Nat}

/-- The scheduled requests are before the one that the loop is at. -/
def Pass.Passed (p : Pass) : Prop :=
  ∀ id ∈ p.numScheduledTokens, id ∈ p.sched.running.take p.reqIndex

/-- The preemptions take requests from the end, up to the current one. -/
theorem allocateOrPreempt_fcfs {n : Int} {i : Nat} {pre pre' : List ReqId}
    {res : Option (List (List BlockId))} (hpolicy : C.policy = .fcfs)
    (hrid : s.running[i]? = some rid)
    (h : s.allocateOrPreempt H C rid n fuel pre = .ok (res, s', pre')) :
    s'.running.take i = s.running.take i ∧ (res ≠ none → s'.running[i]? = some rid) := by
  induction fuel generalizing s pre with
  | zero => cases h
  | succ fuel ih =>
    obtain ⟨⟨newBlocks, k⟩, -, h⟩ := bind_eq_ok.mp h
    cases newBlocks with
    | some blocks =>
      obtain ⟨-, rfl, -⟩ := triple_of_ok h
      exact ⟨rfl, fun _ => hrid⟩
    | none =>
      obtain ⟨v, hv, h⟩ := bind_eq_ok.mp h
      obtain ⟨s₂, hs₂, h⟩ := bind_eq_ok.mp h
      have hlast : s.running.getLast? = some v := (Scheduler.victim_ok hv).2 hpolicy
      have hrun : s₂.running = s.running.dropLast := by
        rw [(Scheduler.preempt_ok hs₂).running, Scheduler.removeVictim, hpolicy]
        rfl
      obtain ⟨hi, -⟩ := List.getElem?_eq_some_iff.mp hrid
      have htake : s₂.running.take i = s.running.take i := by
        rw [hrun, List.dropLast_eq_take, List.take_take, min_eq_left (by omega)]
      split at h
      · obtain ⟨rfl, rfl, -⟩ := triple_of_ok h
        exact ⟨htake, fun hne => absurd rfl hne⟩
      next hne =>
        -- the current request is not the last one
        have hlt : i < s.running.length - 1 := by
          by_contra hge
          rw [List.getLast?_eq_getElem?, show s.running.length - 1 = i by omega, hrid] at hlast
          exact hne (Option.some.inj hlast).symm
        have hrid₂ : s₂.running[i]? = some rid := by
          rw [hrun, List.dropLast_eq_take, List.getElem?_take_of_lt hlt, hrid]
        obtain ⟨htake', hres⟩ := ih hrid₂ h
        exact ⟨htake'.trans htake, hres⟩

/-- The loop over the running requests keeps what it has scheduled. -/
theorem runningLoop_fcfs (hpolicy : C.policy = .fcfs) (hpassed : p.Passed)
    (h : runningLoop H C fuel p = .ok p') : ∀ id ∈ p'.numScheduledTokens, id ∈ p'.sched.running := by
  have hsub : ∀ {p : Pass}, p.Passed → ∀ id ∈ p.numScheduledTokens, id ∈ p.sched.running :=
    fun hp id hid => List.mem_of_mem_take (hp id hid)
  induction fuel generalizing p with
  | zero =>
    unfold runningLoop at h
    split at h
    · cases h
    · cases h
      exact hsub hpassed
  | succ fuel ih =>
    unfold runningLoop at h
    split at h
    next =>
      cases h
      exact hsub hpassed
    next rid hrid =>
    split at h
    next =>
      obtain ⟨⟨goOn, p₁⟩, hvisit, h⟩ := bind_eq_ok.mp h
      unfold Pass.visitRunning at hvisit
      dsimp only at hvisit
      split at hvisit
      next =>
        obtain ⟨rfl, rfl⟩ := pair_of_ok hvisit
        have hnext : Pass.Passed { p with reqIndex := p.reqIndex + 1 } := fun id hid =>
          List.take_subset_take_left _ (Nat.le_succ _) (hpassed id hid)
        exact ih hnext h
      next =>
      obtain ⟨⟨res, s₁, pre⟩, hloop, hvisit⟩ := bind_eq_ok.mp hvisit
      obtain ⟨htake, hres⟩ := allocateOrPreempt_fcfs hpolicy hrid hloop
      cases res with
      | none =>
        obtain ⟨rfl, rfl⟩ := pair_of_ok hvisit
        cases h
        exact fun id hid => List.mem_of_mem_take (htake ▸ hpassed id hid)
      | some blocks =>
        obtain ⟨rfl, rfl⟩ := pair_of_ok hvisit
        have he := Pass.scheduleRunning_effect { p with sched := s₁, preemptedReqs := pre } rid
          (p.runningDemand C (p.sched.request rid)) blocks
        refine ih (fun id hid => ?_) h
        rw [he.numScheduledTokens, Dict.mem_set] at hid
        rw [he.running, he.reqIndex, List.take_add_one, hres (by simp), List.mem_append, htake]
        exact hid.elim (fun hid => .inr (by simp [hid])) fun hid => .inl (hpassed id hid)
    next =>
      cases h
      exact hsub hpassed

/-- The loop over the waiting requests preempts nothing. -/
theorem waitingLoop_preempted (hpre : p.preemptedReqs = [])
    (h : waitingLoop H C E fuel p = .ok p') : p'.preemptedReqs = [] := by
  induction fuel generalizing p with
  | zero => cases h
  | succ fuel ih =>
    unfold waitingLoop at h
    split at h
    next hcond =>
      obtain ⟨⟨goOn, p₁⟩, hvisit, h⟩ := bind_eq_ok.mp h
      have hpre₁ := (visitWaiting_trace (L := []) hcond.2.1 hcond.2.2 hpre hvisit).2
      cases goOn with
      | true => exact ih hpre₁ h
      | false =>
        cases h
        exact hpre₁
    next =>
      cases h
      exact hpre

/-- **Under the fcfs policy all that is scheduled runs** behind the loops. -/
theorem schedulePass_fcfs (hpolicy : C.policy = .fcfs)
    (hbooks : ∀ id ∈ p.numScheduledTokens, id ∈ p.sched.running ∨ id ∈ p.preemptedReqs)
    (h : s.schedulePass H C E = .ok p) : ∀ id ∈ p.numScheduledTokens, id ∈ p.sched.running := by
  obtain ⟨p₁, hrun, h⟩ := bind_eq_ok.mp h
  obtain ⟨p₂, hlora, h⟩ := bind_eq_ok.mp h
  obtain ⟨p₃, hwait, h⟩ := bind_eq_ok.mp h
  obtain ⟨w, rfl, -⟩ := restoreSkipped_ok h
  unfold Pass.scheduleWaitingReqs at hwait
  split at hwait
  next hpre =>
    have hpre₃ := waitingLoop_preempted hpre hwait
    exact fun id hid => (hbooks id hid).resolve_right (by simp [hpre₃])
  next =>
    -- the step ends behind the loop over the running requests
    obtain ⟨loras, rfl⟩ := recordLoras_ok hlora
    cases hwait
    have hruns := runningLoop_fcfs hpolicy (fun id hid => absurd hid (Dict.notMem_empty id)) hrun
    exact hruns

end Fcfs

/-! ## Main result -/

section Runs

variable {H : BlockHasher} {C : SchedulerConfig} {E : Environment} {s : Engine} {s₀ : Scheduler}
  {p : Pass}

/-- No more requests run than are allowed: `schedule` has asserted so, and the other calls start
none. -/
theorem Engine.running_le (hinit : Scheduler.init C = .ok s₀)
    (hs : (engineMachine H C s₀).Reach UnusedIds s) :
    s.sched.running.length ≤ C.maxNumRunningReqs := by
  induction hs with
  | start =>
    obtain ⟨_, -, h₁⟩ := bind_eq_ok.mp hinit
    obtain ⟨k, -, h₂⟩ := bind_eq_ok.mp h₁
    cases pure_eq_ok.mp h₂
    exact Nat.zero_le _
  | @next s s' op hreach hok hstep ih =>
    have hfewer : ∀ {sched : Scheduler}, sched.running.Nodup → sched.running ⊆ s.sched.running →
        sched.running.length ≤ C.maxNumRunningReqs :=
      fun hn hsub => (List.subperm_of_subset hn hsub).length_le.trans ih
    have hnodup := (Engine.places_of_reach hinit (hreach.next hok hstep)).1.nodupR
    cases Engine.step_cases hstep with
    | addRequest hadd =>
      exact (addRequest_ok hadd).running ▸ ih
    | schedule hsched =>
      obtain ⟨p, hp⟩ := schedule_ok hsched
      obtain ⟨_, -, hcheck⟩ := bind_eq_ok.mp hp.constraints
      obtain ⟨_, -, hcheck⟩ := bind_eq_ok.mp hcheck
      obtain ⟨_, hroom, -⟩ := bind_eq_ok.mp hcheck
      exact hp.advances.running ▸ require_eq_ok.mp hroom
    | updateFromOutput _ hup =>
      exact hfewer hnodup (updateFromOutput_sameInputs hup).2
    | finishRequests hfin =>
      have hn := (Engine.places_of_reach hinit hreach).1.nodupR
      exact hfewer hnodup (finishRequests_sameInputs hn hfin).2

/-- **The assertions of `schedule` hold** behind the loops of a call in any state of a run, under the
fcfs policy, or if the step has preempted nothing. -/
theorem checkConstraints_of_reach (hinit : Scheduler.init C = .ok s₀)
    (hs : (engineMachine H C s₀).Reach UnusedIds s) (hpass : s.sched.schedulePass H C E = .ok p)
    (hvict : C.policy = .fcfs ∨ p.preemptedReqs = []) : p.checkConstraints C = .ok () := by
  obtain ⟨hplaces, -⟩ := Engine.places_of_reach hinit hs
  obtain ⟨q, ⟨hbooks, hwithin⟩, hrestore⟩ := schedulePass_invariant hplaces.nodupR hpass
    (I := fun p => p.Books C s.sched ∧ p.Within C)
    ⟨Pass.books_start hplaces, Int.natCast_nonneg _, Engine.running_le hinit hs⟩
    fun _ _ h hm => ⟨h.1.move hm.move, h.2.move hm.move⟩
  obtain ⟨w, rfl, -⟩ := restoreSkipped_ok hrestore
  have hruns : q.numScheduledTokens.keys ⊆ q.sched.running := by
    rcases hvict with hpolicy | hnone
    · have hall := schedulePass_fcfs hpolicy (by exact hbooks.scheduled) hpass
      exact hall
    · exact fun id hid => (hbooks.scheduled id hid).resolve_right
        (by simp [show q.preemptedReqs = [] from hnone])
  have hlen := hbooks.lists.length_eq
  rw [List.length_append, List.length_append] at hlen
  have hle := (List.subperm_of_subset (Dict.keys_nodup _) hruns).length_le
  have hbudget := hbooks.budget
  have hpos := hwithin.budget
  exact bind_eq_ok.mpr ⟨(), require_eq_ok.mpr (by
      change q.numScheduledTokens.total id ≤ _
      omega),
    bind_eq_ok.mpr ⟨(), require_eq_ok.mpr hpos,
      bind_eq_ok.mpr ⟨(), require_eq_ok.mpr hwithin.room, require_eq_ok.mpr (hlen.trans_le hle)⟩⟩⟩

/-- The theorem on the second step of a request whose prompt takes two. -/
theorem checkConstraints_chunkedRun : ∃ (s₀ : Scheduler) (s : Engine) (p : Pass),
    Scheduler.init (pairConfig 4 8) = .ok s₀ ∧ s.sched.running = [1] ∧
      s.sched.schedulePass .encoding (pairConfig 4 8) {} = .ok p ∧
      p.checkConstraints (pairConfig 4 8) = .ok () := by
  obtain ⟨s₀, s, hinit, hreach, hrunning, hok⟩ := exists_runEngine .encoding (pairConfig 4 8) UnusedIds
    (chunkedRun [1, 2, 3, 4]) (fun s => s.sched.running = [1] ∧
      (s.sched.schedulePass .encoding (pairConfig 4 8) {}).isOk = true) (by decide +kernel)
  cases hpass : s.sched.schedulePass .encoding (pairConfig 4 8) {} with
  | error e =>
    rw [hpass] at hok
    cases hok
  | ok p =>
    exact ⟨s₀, s, p, hinit, hrunning, hpass, checkConstraints_of_reach hinit hreach hpass (.inl rfl)⟩

end Runs

end InferenceServer
