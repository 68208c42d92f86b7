import InferenceServer.Sched.Grants

/-!
# LoRA slots

With `max_loras` set, a batch may use at most that many adapters, since the workers have that many
slots. `schedule` counts adapters twice: after the loop over the running requests it asserts that
those it has scheduled use at most `max_loras`, and it admits a waiting request with a new adapter
only while there is room beside the adapters of this step.

A running request that the step passes over, because its step is in flight or because its encoder
inputs do not fit, is in neither count. A waiting request that is admitted meanwhile may then take
the place of its adapter, and the assertion fails in the next step that schedules both. The bound
that has to be kept is that of all running requests: a step in which every admission keeps it
(`AdmitsWithinMaxLoras`) leaves a scheduler whose next step passes the assertion.
-/

namespace InferenceServer

open Outcome
open List (mem_append mem_append_left mem_filterMap)

/-! ## Counting adapters -/

namespace Scheduler

/-- The adapters of the requests. -/
def loraIds (s : Scheduler) (ids : List ReqId) : List Int :=
  ids.filterMap fun rid => (s.request rid).loraRequest.map LoRARequest.loraIntId

/-- The number of adapters of the requests. -/
def numLoras (s : Scheduler) (ids : List ReqId) : Nat := (s.loraIds ids).dedup.length

variable {s s' : Scheduler} {ids ids' : List ReqId}

theorem loraIds_subset (h : ids ⊆ ids') : s.loraIds ids ⊆ s.loraIds ids' := fun l hl => by
  obtain ⟨id, hid, hl⟩ := mem_filterMap.mp hl
  exact mem_filterMap.mpr ⟨id, h hid, hl⟩

/-- Fewer requests have no more adapters. -/
theorem numLoras_le (h : ids ⊆ ids') : s.numLoras ids ≤ s.numLoras ids' := by
  refine ((List.nodup_dedup _).subperm fun l hl => ?_).length_le
  rw [List.mem_dedup] at hl ⊢
  exact loraIds_subset h hl

theorem SameInputs.numLoras (h : s.SameInputs s') (ids : List ReqId) :
    s'.numLoras ids = s.numLoras ids := by
  unfold Scheduler.numLoras loraIds
  simp only [(h _).loraRequest]

end Scheduler

/-! ## The condition and the property -/

section Definitions

variable (H : BlockHasher) (C : SchedulerConfig)

/-- **The condition**: a request is admitted only if its adapter and those of the running requests,
scheduled in this step or not, are at most `max_loras`. -/
def AdmitsWithinMaxLoras (s : Engine) : EngineOp → Prop
  | .schedule E => ∀ maxLoras ∈ C.maxLoras, ∀ g ∈ s.sched.grants H C E, g.admits = true →
      g.pass.sched.numLoras (g.pass.sched.running ++ [g.rid]) ≤ maxLoras
  | _ => True

instance (s : Engine) (op : EngineOp) : Decidable (AdmitsWithinMaxLoras H C s op) := by
  refine op.casesOn ?_ ?_ ?_ ?_ <;> intros <;> unfold AdmitsWithinMaxLoras <;> infer_instance

/-- **The adapters fit**: a call of `schedule` passes the assertion, and its output uses at most
`max_loras` adapters. -/
structure LorasFit (E : Environment) (s : Scheduler) (maxLoras : Nat) : Prop where
  assertion : ∀ p, runningLoop H C s.running.length (.start C s) = .ok p →
    ∃ p', p.recordLoras C = .ok p'
  output : ∀ output s', s.schedule H C E = .ok (output, s') →
    s'.numLoras output.numScheduledTokens.keys ≤ maxLoras

end Definitions

/-! ## A scheduling step -/

/-- The requests that the step has scheduled so far. -/
def Pass.scheduledReqs (p : Pass) : List ReqId :=
  p.scheduledNewReqs ++ (p.scheduledRunningReqs ++ p.scheduledResumedReqs)

/-- **The count in the middle of a step**: the requests that have been scheduled or are running use at
most `n` adapters; a scheduled request is running, as long as none has been preempted. -/
structure Pass.LoraBooks (n : Nat) (s : Scheduler) (p : Pass) : Prop where
  inputs : s.SameInputs p.sched
  within : s.numLoras (p.scheduledReqs ++ p.sched.running) ≤ n
  scheduled : p.preemptedReqs = [] → p.scheduledReqs ⊆ p.sched.running
  keys : ∀ id ∈ p.numScheduledTokens, id ∈ p.scheduledReqs

section Step

variable {H : BlockHasher} {C : SchedulerConfig} {E : Environment} {s : Scheduler} {p p' : Pass}
  {n : Nat}

theorem Pass.LoraBooks.quiet (h : p.LoraBooks n s) (hq : p.Quiet p') : p'.LoraBooks n s := by
  have hlist : p'.scheduledReqs = p.scheduledReqs := by
    unfold Pass.scheduledReqs
    rw [hq.scheduledNewReqs, hq.scheduledRunningReqs, hq.scheduledResumedReqs]
  refine ⟨h.inputs.trans hq.inputs, (Scheduler.numLoras_le ?_).trans h.within, fun hpre => ?_,
    hq.numScheduledTokens ▸ hlist ▸ h.keys⟩
  · rw [hlist]
    exact List.append_subset.mpr ⟨List.subset_append_left _ _,
      fun id hid => List.mem_append_right _ (hq.running hid)⟩
  · obtain ⟨hpre, hrun⟩ := hq.unpreempted hpre
    rw [hlist, hrun]
    exact h.scheduled hpre

/-- A running request is scheduled. -/
theorem Pass.LoraBooks.scheduleRunning (h : p.LoraBooks n s) {g : Grant}
    {blocks : List (List BlockId)} (hq : p.Quiet g.pass) (hrid : g.rid ∈ p.sched.running) :
    (g.pass.scheduleRunning g.rid g.demand blocks).LoraBooks n s := by
  have he := g.pass.scheduleRunning_effect g.rid g.demand blocks
  have hb := h.quiet hq
  have hlist : ∀ id, id ∈ (g.pass.scheduleRunning g.rid g.demand blocks).scheduledReqs ↔
      id ∈ g.pass.scheduledReqs ∨ id = g.rid := fun id => by
    unfold Pass.scheduledReqs
    rw [he.scheduledNewReqs, he.scheduledRunningReqs, he.scheduledResumedReqs]
    simp only [mem_append, List.mem_singleton]
    tauto
  refine ⟨hb.inputs.trans (.of_modify he.objects fun r => r.sameInputs_trimDrafts _), ?_,
    fun hpre id hid => ?_, fun id hid => ?_⟩
  · -- the request was running, so its adapter has been counted
    refine (Scheduler.numLoras_le fun id hid => ?_).trans h.within
    rw [he.running] at hid
    rcases mem_append.mp hid with hid | hid
    · rcases (hlist id).mp hid with hid | rfl
      · unfold Pass.scheduledReqs at hid
        rw [hq.scheduledNewReqs, hq.scheduledRunningReqs, hq.scheduledResumedReqs] at hid
        exact mem_append_left _ hid
      · exact List.mem_append_right _ hrid
    · exact List.mem_append_right _ (hq.running hid)
  · rw [he.preemptedReqs] at hpre
    rw [he.running]
    rcases (hlist id).mp hid with hid | rfl
    · exact hb.scheduled hpre hid
    · exact (hq.unpreempted hpre).2 ▸ hrid
  · rw [he.numScheduledTokens, Dict.mem_set] at hid
    exact (hlist id).mpr (hid.symm.imp_left (hb.keys id))

/-- A waiting request is admitted. -/
theorem Pass.LoraBooks.admitWaiting (h : p.LoraBooks n s) {rid : ReqId} {d : Demand} {ct : ComputedTokens}
    (hpre : p.preemptedReqs = []) (hadmitted : p.admitWaiting C rid d ct = .ok p')
    (hroom : p.sched.numLoras (p.sched.running ++ [rid]) ≤ n) : p'.LoraBooks n s := by
  have ha := admit_ok hadmitted
  have hlist : ∀ id, id ∈ p'.scheduledReqs ↔ id ∈ p.scheduledReqs ∨ id = rid := fun id => by
    unfold Pass.scheduledReqs
    rw [ha.scheduledNewReqs, ha.scheduledRunningReqs, ha.scheduledResumedReqs]
    split <;> simp only [mem_append, List.mem_singleton] <;> tauto
  have hsub : p'.scheduledReqs ⊆ p.sched.running ++ [rid] := fun id hid => by
    rcases (hlist id).mp hid with hid | rfl
    · exact mem_append_left _ (h.scheduled hpre hid)
    · simp
  refine ⟨h.inputs.trans (.of_modify ha.objects fun r => ⟨rfl, rfl, rfl, rfl, rfl, rfl, rfl⟩), ?_, fun _ => ?_,
    fun id hid => ?_⟩
  · refine (Scheduler.numLoras_le ?_).trans (h.inputs.numLoras _ ▸ hroom)
    rw [ha.running]
    exact List.append_subset.mpr ⟨hsub, fun id hid => hid⟩
  · rw [ha.running]
    exact hsub
  · rw [ha.numScheduledTokens, Dict.mem_set] at hid
    exact (hlist id).mpr (hid.symm.imp_left (h.keys id))

/-- **The count of a whole step.** -/
theorem Pass.Turns.loraBooks {G : List Grant} (h : p.Turns C G p') (hstart : p.LoraBooks n s)
    (hroom : ∀ g ∈ G, g.admits = true →
      g.pass.sched.numLoras (g.pass.sched.running ++ [g.rid]) ≤ n) : p'.LoraBooks n s := by
  induction h with
  | refl => exact hstart
  | tail _ hturn ih =>
    cases hturn with
    | quiet hq => exact ih.quiet hq
    | recordLoras hl =>
      obtain ⟨loras, rfl⟩ := recordLoras_ok hl
      exact ⟨ih.inputs, ih.within, ih.scheduled, ih.keys⟩
    | running hg hadmits hnamed hq hrid hasks => exact ih.scheduleRunning hq hrid
    | admitWaiting hg hadmits hnamed hpre hlora hasks hadmitted => exact ih.admitWaiting hpre hadmitted (hroom _ hg hadmits)

theorem loraBooks_start (h : s.numLoras s.running ≤ n) : (Pass.start C s).LoraBooks n s :=
  ⟨.refl s, h, fun _ => List.nil_subset _, fun id hid => absurd hid (Dict.notMem_empty id)⟩

/-- The loop over the running requests admits none. -/
theorem admits_runningGrants {fuel : Nat} {g : Grant} (hg : g ∈ runningGrants H C fuel p) :
    g.admits = false := by
  induction fuel generalizing p with
  | zero => simp [runningGrants] at hg
  | succ fuel ih =>
    unfold runningGrants at hg
    split at hg
    next => simp at hg
    next rid _ =>
      split at hg
      next =>
        rcases mem_append.mp hg with hg | hg
        · rw [Option.mem_toList, Pass.runningGrant] at hg
          split at hg
          next => simp at hg
          next =>
            split at hg
            next => exact (Option.some_inj.mp hg) ▸ rfl
            next => simp at hg
        · split at hg
          next p' _ => exact ih hg
          next => simp at hg
      next => simp at hg

/-- **The assertion holds** if the adapters of the running requests fit. -/
theorem recordLoras_of_running (hplaces : s.Places s.running s.waiting.ids)
    (hmax : C.maxLoras = some n) (h : s.numLoras s.running ≤ n)
    (hrun : runningLoop H C s.running.length (.start C s) = .ok p) :
    ∃ p', p.recordLoras C = .ok p' := by
  have hbooks := (runningLoop_turns_start hplaces hrun).loraBooks (loraBooks_start h) fun g hg hadmits =>
    absurd (admits_runningGrants hg) (by simp [hadmits])
  have hlen : (p.scheduledRunningReqs.filterMap fun rid =>
      (p.sched.request rid).loraRequest.bind fun l =>
        if 0 < l.loraIntId then some l.loraIntId else none).dedup.length ≤ n := by
    refine le_trans (((List.nodup_dedup _).subperm fun l hl => ?_).length_le) hbooks.within
    rw [List.mem_dedup] at hl ⊢
    obtain ⟨id, hid, hl⟩ := mem_filterMap.mp hl
    refine mem_filterMap.mpr ⟨id, ?_, ?_⟩
    · exact mem_append_left _ (List.mem_append_right _ (mem_append_left _ hid))
    · obtain ⟨a, ha, hl⟩ := Option.bind_eq_some_iff.mp hl
      rw [(hbooks.inputs id).loraRequest] at ha
      rw [ha]
      split at hl
      · exact hl
      · simp at hl
  simp only [Pass.recordLoras, hmax]
  exact ⟨_, bind_eq_ok.mpr ⟨(), require_eq_ok.mpr hlen, rfl⟩⟩

/-- **The adapters of a whole call.** -/
theorem schedule_numLoras {output : SchedulerOutput} {s' : Scheduler}
    (hplaces : s.Places s.running s.waiting.ids) (h : s.numLoras s.running ≤ n)
    (hroom : ∀ g ∈ s.grants H C E, g.admits = true →
      g.pass.sched.numLoras (g.pass.sched.running ++ [g.rid]) ≤ n)
    (hsched : s.schedule H C E = .ok (output, s')) :
    s'.numLoras output.numScheduledTokens.keys ≤ n ∧ s'.numLoras s'.running ≤ n := by
  obtain ⟨p, hp⟩ := schedule_ok hsched
  have hbooks := (schedulePass_turns hplaces hp.pass).loraBooks (loraBooks_start h) hroom
  have hinputs := hbooks.inputs.trans hp.advances.sameInputs
  rw [hinputs.numLoras, hinputs.numLoras]
  obtain ⟨common, rfl⟩ := hp.output
  refine ⟨(Scheduler.numLoras_le ?_).trans hbooks.within,
    (Scheduler.numLoras_le ?_).trans hbooks.within⟩
  · exact fun id hid => mem_append_left _ (hbooks.keys id hid)
  · rw [hp.advances.running]
    exact List.subset_append_right _ _

end Step

/-! ## Runs -/

section Runs

variable {H : BlockHasher} {C : SchedulerConfig} {E : Environment} {s : Engine} {s₀ : Scheduler}
  {n : Nat}

/-- Requests arrive under identifiers not in use, and are admitted within `max_loras`. -/
abbrev UnusedAndWithinMaxLoras (H : BlockHasher) (C : SchedulerConfig) (s : Engine)
    (op : EngineOp) : Prop :=
  UnusedIds s op ∧ AdmitsWithinMaxLoras H C s op

/-- **The adapters of the running requests fit** in every state of a run. -/
theorem numLoras_of_reach (hmax : C.maxLoras = some n) (hinit : Scheduler.init C = .ok s₀)
    (hs : (engineMachine H C s₀).Reach (UnusedAndWithinMaxLoras H C) s) :
    s.sched.numLoras s.sched.running ≤ n := by
  induction hs with
  | start =>
    obtain ⟨_, -, h₁⟩ := bind_eq_ok.mp hinit
    obtain ⟨k, -, h₂⟩ := bind_eq_ok.mp h₁
    cases h₂
    exact Nat.zero_le n
  | @next s s' op hs hok hstep ih =>
    obtain ⟨hplaces, -⟩ := Engine.places_of_reach hinit (hs.mono fun _ _ h => h.1)
    cases Engine.step_cases hstep with
    | @addRequest _ sched hadd =>
      have ha := addRequest_ok hadd
      -- the new request does not take the place of a running one
      have hids : sched.loraIds s.sched.running = s.sched.loraIds s.sched.running := by
        refine List.filterMap_congr fun id hid => ?_
        rw [ha.request, if_neg]
        rintro rfl
        exact hok.1.1 hid
      change sched.numLoras sched.running ≤ n
      rw [ha.running, Scheduler.numLoras, hids]
      exact ih
    | schedule hsched =>
      exact (schedule_numLoras hplaces ih (hok.2 n hmax) hsched).2
    | updateFromOutput _ hup =>
      obtain ⟨hinputs, hrun⟩ := updateFromOutput_sameInputs hup
      exact hinputs.numLoras _ ▸ (Scheduler.numLoras_le hrun).trans ih
    | finishRequests hfin =>
      obtain ⟨hinputs, hrun⟩ := finishRequests_sameInputs hplaces.nodupR hfin
      exact hinputs.numLoras _ ▸ (Scheduler.numLoras_le hrun).trans ih

/-- **LoRA slots are not over-subscribed** in a run whose admissions keep the adapters of the running
requests within `max_loras`. -/
theorem lorasFit_of_reach (hmax : C.maxLoras = some n) (hinit : Scheduler.init C = .ok s₀)
    (hs : (engineMachine H C s₀).Reach (UnusedAndWithinMaxLoras H C) s)
    (hok : AdmitsWithinMaxLoras H C s (.schedule E)) : LorasFit H C E s.sched n := by
  obtain ⟨hplaces, -⟩ := Engine.places_of_reach hinit (hs.mono fun _ _ h => h.1)
  have hfit := numLoras_of_reach hmax hinit hs
  exact ⟨fun _ hrun => recordLoras_of_running hplaces hmax hfit hrun,
    fun _ _ hsched => (schedule_numLoras hplaces hfit (hok n hmax) hsched).1⟩

/-- One LoRA slot. -/
def oneLoraConfig : SchedulerConfig := { pairConfig 16 32 with maxLoras := some 1 }

/-- A request that uses an adapter. -/
def loraRequest (requestId : ReqId) (loraIntId : Int) : Request :=
  { textRequest requestId [1, 2] with loraRequest := some ⟨"adapter", loraIntId⟩ }

/-- The first request is in flight when a second one with the adapter `loraIntId` is admitted. -/
def twoLorasRun (loraIntId : Int) : List EngineOp :=
  [.addRequest (loraRequest 1 1), .schedule {}, .addRequest (loraRequest 2 loraIntId),
   .schedule {}, .updateFromOutput {} (sampled [(1, [5])]),
   .updateFromOutput {} (sampled [(2, [6])])]

/-- The two requests use the same adapter, and are then scheduled together. -/
theorem lorasFit_twoLorasRun :
    ∃ s₀ s, Scheduler.init oneLoraConfig = .ok s₀ ∧
      (engineMachine .encoding oneLoraConfig s₀).Reach
        (UnusedAndWithinMaxLoras .encoding oneLoraConfig) s ∧
      s.sched.running = [1, 2] ∧ LorasFit .encoding oneLoraConfig {} s.sched 1 := by
  obtain ⟨s₀, s, hinit, hreach, hrunning, hok⟩ := exists_runEngine .encoding oneLoraConfig
    (UnusedAndWithinMaxLoras .encoding oneLoraConfig) (twoLorasRun 1)
    (fun s => s.sched.running = [1, 2] ∧
      AdmitsWithinMaxLoras .encoding oneLoraConfig s (.schedule {})) (by decide +kernel)
  exact ⟨s₀, s, hinit, hreach, hrunning, lorasFit_of_reach rfl hinit hreach hok⟩

/-- **Two adapters for one slot**: the second request is admitted while the first one is in flight. -/
theorem not_lorasFit_twoLorasRun :
    ∃ s₀ s, Scheduler.init oneLoraConfig = .ok s₀ ∧
      (engineMachine .encoding oneLoraConfig s₀).Reach UnusedIds s ∧
      s.sched.schedule .encoding oneLoraConfig {} = .error (.assertionError .scheduleLora) ∧
      ¬ LorasFit .encoding oneLoraConfig {} s.sched 1 := by
  obtain ⟨s₀, s, hinit, hreach, herror, hloras⟩ := exists_runEngine .encoding oneLoraConfig
    UnusedIds (twoLorasRun 2)
    (fun s => s.sched.schedule .encoding oneLoraConfig {} = .error (.assertionError .scheduleLora) ∧
      (runningLoop .encoding oneLoraConfig s.sched.running.length
        (.start oneLoraConfig s.sched)).toOption.any
          fun p => (p.recordLoras oneLoraConfig).toOption = none)
    (by decide +kernel)
  obtain ⟨p, hp, hnone⟩ := Option.any_eq_true .. |>.mp hloras
  refine ⟨s₀, s, hinit, hreach, herror, fun hfit => ?_⟩
  cases hloop : runningLoop .encoding oneLoraConfig s.sched.running.length
      (.start oneLoraConfig s.sched) with
  | error e => simp [hloop, Except.toOption] at hp
  | ok p' =>
    rw [hloop] at hp
    obtain rfl : p' = p := Option.some_inj.mp hp
    obtain ⟨p₁, hp₁⟩ := hfit.assertion p' hloop
    simp [hp₁, Except.toOption] at hnone

end Runs

end InferenceServer
