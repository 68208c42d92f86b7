import InferenceServer.Sched.Schedule

/-!
# What a scheduling step does, one move at a time

`schedule` changes its local variables and the queues in a handful of ways: a running request is
passed over or scheduled, a request is preempted, a waiting request is skipped, parked or admitted.
Each of these is a constructor of `Pass.Move`, with the conditions under which the code does it.

## Main results

* `Scheduler.victim_ok`, `Scheduler.removeVictim_eq`, `Scheduler.preempt_ok`
* `updateAfterSchedule_ok`
-/

namespace InferenceServer

open Outcome
open Prod (fst)

/-- Erasing an element moves later elements forward. -/
theorem drop_erase_sublist {α : Type} [DecidableEq α] (l : List α) (a : α) (n : Nat) :
    ((l.erase a).drop n).Sublist (l.drop n) := List.erase_sublist.drop n

/-! ## Preemption -/

namespace Scheduler

variable {C : SchedulerConfig} {s s' : Scheduler} {v rid : ReqId}

theorem maxByKey_mem (s : Scheduler) (l : List ReqId) (best : ReqId) :
    s.maxByKey l best ∈ best :: l := by
  induction l generalizing best with
  | nil => exact List.mem_cons_self
  | cons rid l ih =>
    unfold maxByKey
    split
    · exact List.mem_cons_of_mem _ (ih rid)
    · rcases List.mem_cons.mp (ih best) with h | h
      · rw [h]
        exact List.mem_cons_self
      · exact List.mem_cons_of_mem _ (List.mem_cons_of_mem _ h)

/-- The victim is one of the running requests, and the last of them under the fcfs policy. -/
theorem victim_ok (h : s.victim C = .ok v) :
    v ∈ s.running ∧ (C.policy = .fcfs → s.running.getLast? = some v) := by
  unfold victim at h
  split at h
  next => simp at h
  next rid l hp hl =>
    cases h
    refine ⟨hl ▸ maxByKey_mem s l rid, fun hf => ?_⟩
    rw [hp] at hf
    cases hf
  next l hp =>
    split at h
    next => simp at h
    next rid hlast =>
      cases h
      exact ⟨List.mem_of_getLast? hlast, fun _ => hlast⟩

/-- Under either policy the victim is what leaves the list of running requests. -/
theorem removeVictim_eq (hn : s.running.Nodup) (h : s.victim C = .ok v) :
    s.removeVictim C v = s.running.erase v := by
  unfold removeVictim
  split
  next => rfl
  next hp =>
    obtain ⟨l, hl⟩ := List.getLast?_eq_some_iff.mp ((victim_ok h).2 hp)
    rw [hl] at hn ⊢
    have hv : v ∉ l := fun hm => by
      have := List.nodup_append.mp hn
      exact this.2.2 v hm v (by simp) rfl
    rw [List.dropLast_concat, List.erase_append_right _ hv]
    simp

/-- The effect of a preemption. -/
structure Preempts (C : SchedulerConfig) (s : Scheduler) (v : ReqId) (s' : Scheduler) : Prop where
  running : s'.running = s.removeVictim C v
  kvCacheManager : s.kvCacheManager.free v = .ok s'.kvCacheManager
  waiting : s.waiting.prependRequest (s.request v).queueEntry = .ok s'.waiting
  objects : s'.objects = (s.modify v Request.preempted).objects
  encoderCacheManager : s'.encoderCacheManager = s.encoderCacheManager
  frame : s.Frame s'

theorem preempt_ok (h : s.preempt C v = .ok s') : s.Preempts C v s' := by
  obtain ⟨k, hk, h⟩ := bind_eq_ok.mp h
  obtain ⟨w, hw, h⟩ := bind_eq_ok.mp h
  cases h
  rw [request_modify_self] at hw
  exact ⟨rfl, hk, hw, rfl, rfl, ⟨rfl, rfl, rfl, rfl, rfl⟩⟩

theorem Preempts.request (h : s.Preempts C v s') (id : ReqId) :
    s'.request id = if id = v then (s.request v).preempted else s.request id := by
  rw [request_congr h.objects, request_modify]

end Scheduler

/-! ## The moves -/

section Moves

variable (H : BlockHasher) (C : SchedulerConfig) (E : Environment)

/-- The attempt to allocate the slots of a running request. -/
def Pass.tryAllocate (p : Pass) (rid : ReqId) :
    Except PyError (Option (List (List BlockId)) × KVCacheManager) :=
  p.sched.kvCacheManager.allocateSlots H (p.sched.request rid)
    (p.runningDemand C (p.sched.request rid)).numNewTokens 0
    p.sched.kvCacheManager.createEmptyBlockList C.numLookaheadTokens false

/-- The pass with another KV cache manager. -/
def Pass.withKV (p : Pass) (k : KVCacheManager) : Pass :=
  { p with sched := p.sched.withKV k }

/-- The loop over the running requests is at a request: there is budget left, and neither the request
nor those behind it have been scheduled. -/
structure Pass.At (p : Pass) (rid : ReqId) : Prop where
  nodup : p.sched.running.Nodup
  mem : rid ∈ p.sched.running
  unscheduled : rid ∉ p.numScheduledTokens
  budget : 0 < p.tokenBudget
  behind : ∀ id ∈ p.sched.running.drop (p.reqIndex + 1), id ≠ rid ∧ id ∉ p.numScheduledTokens

/-- The loop over the waiting requests is at a request. -/
structure Pass.AtWaiting (p : Pass) (rid : ReqId) : Prop where
  peek : ∃ e, p.sched.waiting.peekRequest = .ok e ∧ e.requestId = rid
  budget : 0 < p.tokenBudget
  room : p.sched.running.length ≠ C.maxNumRunningReqs
  unpreempted : p.preemptedReqs = []

/-- **A move** of `schedule`. -/
inductive Pass.Move : Pass → Pass → Prop where
  /-- A running request has nothing to schedule. -/
  | passOver {p : Pass} {rid : ReqId} (hat : p.At rid)
      (hzero : (p.runningDemand C (p.sched.request rid)).numNewTokens = 0) :
      Move p { p with reqIndex := p.reqIndex + 1 }
  /-- A request is preempted because the slots of a running request do not fit. -/
  | preempt {p : Pass} {rid v : ReqId} {k : KVCacheManager} {s : Scheduler} (hat : p.At rid)
      (hpos : (p.runningDemand C (p.sched.request rid)).numNewTokens ≠ 0)
      (halloc : p.tryAllocate H C rid = .ok (none, k))
      (hv : (p.sched.withKV k).victim C = .ok v)
      (hs : (p.sched.withKV k).preempt C v = .ok s) :
      Move p { p with sched := s, preemptedReqs := p.preemptedReqs ++ [v] }
  /-- A running request is scheduled. -/
  | scheduleRunning {p : Pass} {rid : ReqId} {blocks : List (List BlockId)} {k : KVCacheManager}
      (hat : p.At rid)
      (hpos : (p.runningDemand C (p.sched.request rid)).numNewTokens ≠ 0)
      (halloc : p.tryAllocate H C rid = .ok (some blocks, k)) :
      Move p ((p.withKV k).scheduleRunning rid (p.runningDemand C (p.sched.request rid)) blocks)
  /-- The adapters of the running requests are recorded. -/
  | recordLoras {p p' : Pass} (h : p.recordLoras C = .ok p') : Move p p'
  /-- A waiting request has got, or has not got, what it waits for. -/
  | resolveStatus {p : Pass} {rid : ReqId} {ready : Bool} {s : Scheduler}
      (hat : p.AtWaiting C rid) (h : p.sched.resolveStatus H C E rid = .ok (ready, s)) :
      Move p { p with sched := s }
  /-- A waiting request is skipped. -/
  | skip {p p' : Pass} {rid : ReqId} (hat : p.AtWaiting C rid) (h : p.skipWaiting = .ok p') :
      Move p p'
  /-- The computed tokens of a waiting request are looked up. -/
  | lookUp {p : Pass} {rid : ReqId} {ct : ComputedTokens} {s : Scheduler}
      (hat : p.AtWaiting C rid)
      (h : p.sched.getComputedTokens H C E (p.sched.request rid) = .ok (ct, s)) :
      Move p { p with sched := s }
  /-- The slots of a waiting request do not fit. -/
  | noSlots {p : Pass} {rid : ReqId} {ct : ComputedTokens} {n : Int} {k : KVCacheManager}
      (hat : p.AtWaiting C rid)
      (halloc : p.sched.kvCacheManager.allocateSlots H (p.sched.request rid) n
        ct.numNewLocalComputedTokens ct.newComputedBlocks C.numLookaheadTokens ct.loadKvAsync =
          .ok (none, k)) :
      Move p (p.withKV k)
  /-- A waiting request has slots and waits for its blocks to be received. -/
  | park {p p' : Pass} {rid : ReqId} {ct : ComputedTokens} {s₀ : Scheduler} {d : Demand}
      {blocks : List (List BlockId)} {k : KVCacheManager} (hat : p.AtWaiting C rid)
      (hct : s₀.getComputedTokens H C E (p.sched.request rid) = .ok (ct, p.sched))
      (hd : p.waitingDemand C (p.sched.request rid) ct = .ok (.demand d))
      (hasync : ct.loadKvAsync = true)
      (halloc : p.sched.kvCacheManager.allocateSlots H (p.sched.request rid)
        (d.numNewTokens + ct.numExternalComputedTokens) ct.numNewLocalComputedTokens
        ct.newComputedBlocks C.numLookaheadTokens ct.loadKvAsync = .ok (some blocks, k))
      (h : (p.withKV k).parkRemote rid = .ok p') : Move p p'
  /-- A waiting request has slots and runs. -/
  | admitWaiting {p p' : Pass} {rid : ReqId} {ct : ComputedTokens} {s₀ : Scheduler} {d : Demand}
      {blocks : List (List BlockId)} {k : KVCacheManager} (hat : p.AtWaiting C rid)
      (hct : s₀.getComputedTokens H C E (p.sched.request rid) = .ok (ct, p.sched))
      (hd : p.waitingDemand C (p.sched.request rid) ct = .ok (.demand d))
      (hasync : ct.loadKvAsync = false)
      (halloc : p.sched.kvCacheManager.allocateSlots H (p.sched.request rid)
        (d.numNewTokens + ct.numExternalComputedTokens) ct.numNewLocalComputedTokens
        ct.newComputedBlocks C.numLookaheadTokens ct.loadKvAsync = .ok (some blocks, k))
      (h : (p.withKV k).admitWaiting C rid d ct = .ok p') : Move p p'

/-! ## The preemptions of a step -/

/-- A preemption: the local variables at the time, the request whose slots do not fit, and the
request that is preempted. -/
structure Preemption where
  pass : Pass
  current : ReqId
  victim : ReqId

/-- The preemptions of the inner loop over the running requests. -/
def Pass.preemptionsAt (rid : ReqId) (numNewTokens : Int) : Nat → Pass → List Preemption
  | 0, _ => []
  | fuel + 1, p =>
    match p.sched.kvCacheManager.allocateSlots H (p.sched.request rid) numNewTokens 0
      p.sched.kvCacheManager.createEmptyBlockList C.numLookaheadTokens false with
    | .ok (none, k) =>
      match (p.sched.withKV k).victim C with
      | .ok v =>
        ⟨p, rid, v⟩ :: match (p.sched.withKV k).preempt C v with
        | .ok s =>
          if v = rid then []
          else preemptionsAt rid numNewTokens fuel
            { p with sched := s, preemptedReqs := p.preemptedReqs ++ [v] }
        | .error _ => []
      | .error _ => []
    | _ => []

/-- The preemptions while the loop over the running requests is at a request. -/
def Pass.visitPreemptions (p : Pass) (rid : ReqId) : List Preemption :=
  let d := p.runningDemand C (p.sched.request rid)
  if d.numNewTokens = 0 then []
  else Pass.preemptionsAt H C rid d.numNewTokens p.sched.running.length p

/-- The preemptions of the loop over the running requests. -/
def loopPreemptions : Nat → Pass → List Preemption
  | 0, _ => []
  | fuel + 1, p =>
    match p.sched.running[p.reqIndex]? with
    | none => []
    | some rid =>
      if 0 < p.tokenBudget then
        p.visitPreemptions H C rid ++ match p.visitRunning H C rid with
        | .ok (true, p') => loopPreemptions fuel p'
        | _ => []
      else []

/-- **The preemptions of a call of `schedule`**, in their order. -/
def Scheduler.preemptions (s : Scheduler) : List Preemption :=
  loopPreemptions H C s.running.length (.start C s)

/-- A move of a step with the given preemptions. -/
structure Pass.MoveIn (L : List Preemption) (p p' : Pass) : Prop where
  move : Pass.Move H C E p p'
  victim : ∀ v, p'.preemptedReqs = p.preemptedReqs ++ [v] → ∃ rid, p.At rid ∧ ⟨p, rid, v⟩ ∈ L

/-- A sequence of moves of a step with the given preemptions. -/
abbrev Pass.Moves (L : List Preemption) : Pass → Pass → Prop :=
  Relation.ReflTransGen (Pass.MoveIn H C E L)

end Moves

/-- A move that is not a preemption. -/
theorem Pass.Move.quiet {H : BlockHasher} {C : SchedulerConfig} {E : Environment} {p p' : Pass}
    {L : List Preemption} (h : Pass.Move H C E p p') (hpre : p'.preemptedReqs = p.preemptedReqs) :
    Pass.MoveIn H C E L p p' :=
  ⟨h, fun v hv => by simp [hpre] at hv⟩

/-! ## The effects of the moves -/

section Effects

variable {H : BlockHasher} {C : SchedulerConfig} {E : Environment} {p p' : Pass} {rid : ReqId}
  {s s' : Scheduler}

/-- A request with fewer drafts is the same. -/
theorem Request.sameInputs_trimDrafts (r : Request) (n : Int) : r.SameInputs (r.trimDrafts n) := by
  unfold Request.trimDrafts
  split <;> exact ⟨rfl, rfl, rfl, rfl, rfl, rfl, rfl⟩

theorem Pass.allocateEncoder_eq (p : Pass) (rid : ReqId) (d : Demand) :
    ∃ m inputs budget, p.allocateEncoder rid d =
      { p with
        sched := { p.sched with encoderCacheManager := m }
        scheduledEncoderInputs := inputs
        encoderBudget := budget } := by
  unfold Pass.allocateEncoder
  split
  · exact ⟨_, _, _, rfl⟩
  · exact ⟨_, _, _, rfl⟩

/-- The effect of scheduling a running request. -/
structure Pass.SchedulesRunning (p : Pass) (rid : ReqId) (d : Demand) (p' : Pass) : Prop where
  running : p'.sched.running = p.sched.running
  waiting : p'.sched.waiting = p.sched.waiting
  kvCacheManager : p'.sched.kvCacheManager = p.sched.kvCacheManager
  objects : p'.sched.objects =
    (p.sched.modify rid fun r => r.trimDrafts d.numNewTokens).objects
  frame : p.sched.Frame p'.sched
  scheduledNewReqs : p'.scheduledNewReqs = p.scheduledNewReqs
  scheduledResumedReqs : p'.scheduledResumedReqs = p.scheduledResumedReqs
  scheduledRunningReqs : p'.scheduledRunningReqs = p.scheduledRunningReqs ++ [rid]
  preemptedReqs : p'.preemptedReqs = p.preemptedReqs
  numScheduledTokens : p'.numScheduledTokens = p.numScheduledTokens.set rid d.numNewTokens
  tokenBudget : p'.tokenBudget = p.tokenBudget - d.numNewTokens
  reqIndex : p'.reqIndex = p.reqIndex + 1
  scheduledSpecDecodeTokens : p'.scheduledSpecDecodeTokens =
    match (p.sched.request rid).scheduledDrafts d.numNewTokens with
    | some drafts => p.scheduledSpecDecodeTokens.set rid drafts
    | none => p.scheduledSpecDecodeTokens
  skippedWaitingRequests : p'.skippedWaitingRequests = p.skippedWaitingRequests

theorem Pass.scheduleRunning_effect (p : Pass) (rid : ReqId) (d : Demand)
    (blocks : List (List BlockId)) :
    p.SchedulesRunning rid d (p.scheduleRunning rid d blocks) := by
  unfold Pass.scheduleRunning
  obtain ⟨m, inputs, budget, heq⟩ := Pass.allocateEncoder_eq _ rid d
  rw [heq]
  exact ⟨rfl, rfl, rfl, rfl, ⟨rfl, rfl, rfl, rfl, rfl⟩, rfl, rfl, rfl, rfl, rfl, rfl, rfl, rfl, rfl⟩

theorem recordLoras_ok (h : p.recordLoras C = .ok p') :
    ∃ loras, p' = { p with scheduledLoras := loras } := by
  unfold Pass.recordLoras at h
  split at h
  · cases h
    exact ⟨_, rfl⟩
  · obtain ⟨_, -, h⟩ := bind_eq_ok.mp h
    exact ⟨_, (pure_eq_ok.mp h).symm⟩

/-- The request that the loop over the waiting requests takes from the queue. -/
theorem skipWaiting_ok (h : p.skipWaiting = .ok p') :
    ∃ e waiting skipped, p.sched.waiting.popRequest = .ok (e, waiting) ∧
      p.skippedWaitingRequests.prependRequest e = .ok skipped ∧
      p' = { p with sched := { p.sched with waiting }, skippedWaitingRequests := skipped } := by
  obtain ⟨⟨e, w⟩, hpop, h⟩ := bind_eq_ok.mp h
  obtain ⟨sk, hsk, h⟩ := bind_eq_ok.mp h
  exact ⟨e, w, sk, hpop, hsk, (pure_eq_ok.mp h).symm⟩

theorem parkRemote_ok (h : p.parkRemote rid = .ok p') :
    ∃ p₁, p.skipWaiting = .ok p₁ ∧ p' = { p₁ with
      sched := p₁.sched.modify rid fun r => r.withStatus .waitingForRemoteKvs } := by
  obtain ⟨p₁, hskip, h⟩ := bind_eq_ok.mp h
  exact ⟨p₁, hskip, (pure_eq_ok.mp h).symm⟩

/-- The blocks of a request have been received. -/
structure Scheduler.Receives (C : SchedulerConfig) (H : BlockHasher) (s : Scheduler) (rid : ReqId)
    (n : Int) (s' : Scheduler) : Prop where
  received : rid ∈ s.finishedRecvingKvReqIds
  count : ∃ blockIds, s.kvCacheManager.getBlockIds rid = [blockIds] ∧
    n = C.numReceivedTokens (s.request rid) blockIds
  kvCacheManager : s.kvCacheManager.cacheBlocks H (s.request rid) n = .ok s'.kvCacheManager
  objects : s'.objects = (s.modify rid fun r => r.withComputed n).objects
  running : s'.running = s.running
  waiting : s'.waiting = s.waiting
  frame : s.Frame s'
  encoderCacheManager : s'.encoderCacheManager = s.encoderCacheManager

theorem updateWaitingForRemoteKv_ok {ready : Bool}
    (h : s.updateWaitingForRemoteKv H C rid = .ok (ready, s')) :
    (ready = false ∧ s' = s) ∨ (ready = true ∧ ∃ n, s.Receives C H rid n s') := by
  obtain ⟨_, -, h⟩ := bind_eq_ok.mp h
  by_cases hr : rid ∉ s.finishedRecvingKvReqIds
  · rw [if_pos hr] at h
    cases h
    exact .inl ⟨rfl, rfl⟩
  · rw [if_neg hr] at h
    split at h
    next blockIds hids =>
      obtain ⟨k, hk, h⟩ := bind_eq_ok.mp h
      cases h
      exact .inr ⟨rfl, _, not_not.mp hr, ⟨blockIds, hids, rfl⟩, hk, rfl, rfl, rfl,
        ⟨rfl, rfl, rfl, rfl, rfl⟩, rfl⟩
    next => simp at h

/-- What a waiting request waits for is not there, or nothing is missing, or it is there now. -/
theorem resolveStatus_ok {ready : Bool} (h : s.resolveStatus H C E rid = .ok (ready, s')) :
    s' = s ∨
    ((s.request rid).status = .waitingForRemoteKvs ∧ ∃ n s₁, s.Receives C H rid n s₁ ∧
      s' = s₁.modify rid fun r => r.withStatus .waiting) ∨
    ((s.request rid).status = .waitingForFsm ∧
      s' = s.modify rid fun r => r.withStatus .waiting) := by
  unfold Scheduler.resolveStatus at h
  split at h
  next hst =>
    obtain ⟨⟨ready', s₁⟩, hup, h₁⟩ := bind_eq_ok.mp h
    rcases updateWaitingForRemoteKv_ok hup with ⟨rfl, hs₁⟩ | ⟨rfl, n, hrec⟩
    · cases h₁
      exact .inl hs₁
    · cases h₁
      exact .inr (.inl ⟨hst, n, s₁, hrec, rfl⟩)
  next hst =>
    split at h
    · cases h
      exact .inr (.inr ⟨hst, rfl⟩)
    · cases h
      exact .inl rfl
  next =>
    cases h
    exact .inl rfl

/-- Looking up the computed tokens changes the KV cache manager only. -/
theorem getComputedTokens_ok {r : Request} {ct : ComputedTokens}
    (h : s.getComputedTokens H C E r = .ok (ct, s')) :
    ∃ k, s' = s.withKV k ∧
      ((r.numComputedTokens ≠ 0 ∧ k = s.kvCacheManager ∧
          ct = ⟨s.kvCacheManager.createEmptyBlockList, 0, 0, false, r.numComputedTokens⟩) ∨
        (r.numComputedTokens = 0 ∧ ∃ blocks n, s.kvCacheManager.getComputedBlocks H r =
            .ok (blocks, n, k) ∧ ct.newComputedBlocks = blocks ∧
          ct.numNewLocalComputedTokens = n ∧
          (ct.numExternalComputedTokens, ct.loadKvAsync) =
            (if C.hasConnector then E.getNumNewMatchedTokens r n else (0, false)) ∧
          ct.numComputedTokens = n + ct.numExternalComputedTokens)) := by
  unfold Scheduler.getComputedTokens at h
  split at h
  next hnc =>
    obtain ⟨⟨blocks, n, k⟩, hk, h⟩ := bind_eq_ok.mp h
    cases h
    exact ⟨k, rfl, .inr ⟨hnc, blocks, n, hk, rfl, rfl, rfl, rfl⟩⟩
  next hnc =>
    cases h
    exact ⟨_, rfl, .inl ⟨hnc, rfl, rfl⟩⟩

/-- The effect of admitting a waiting request. -/
structure Pass.Admits (p : Pass) (rid : ReqId) (d : Demand) (ct : ComputedTokens) (p' : Pass) :
    Prop where
  status : (p.sched.request rid).status = .waiting ∨ (p.sched.request rid).status = .preempted
  running : p'.sched.running = p.sched.running ++ [rid]
  waiting : ∃ e, p.sched.waiting.popRequest = .ok (e, p'.sched.waiting)
  kvCacheManager : p'.sched.kvCacheManager = p.sched.kvCacheManager
  objects : p'.sched.objects =
    (p.sched.modify rid fun r => r.admitted ct.numComputedTokens).objects
  frame : p.sched.Frame p'.sched
  scheduledNewReqs : p'.scheduledNewReqs =
    if (p.sched.request rid).status = .waiting then p.scheduledNewReqs ++ [rid]
    else p.scheduledNewReqs
  scheduledResumedReqs : p'.scheduledResumedReqs =
    if (p.sched.request rid).status = .waiting then p.scheduledResumedReqs
    else p.scheduledResumedReqs ++ [rid]
  scheduledRunningReqs : p'.scheduledRunningReqs = p.scheduledRunningReqs
  preemptedReqs : p'.preemptedReqs = p.preemptedReqs
  numScheduledTokens : p'.numScheduledTokens = p.numScheduledTokens.set rid d.numNewTokens
  tokenBudget : p'.tokenBudget = p.tokenBudget - d.numNewTokens
  scheduledSpecDecodeTokens : p'.scheduledSpecDecodeTokens = p.scheduledSpecDecodeTokens
  skippedWaitingRequests : p'.skippedWaitingRequests = p.skippedWaitingRequests

theorem admit_ok {d : Demand} {ct : ComputedTokens} (h : p.admitWaiting C rid d ct = .ok p') :
    p.Admits rid d ct p' := by
  obtain ⟨⟨e, w⟩, hpop, h⟩ := bind_eq_ok.mp h
  obtain ⟨_, hst, h⟩ := bind_eq_ok.mp h
  cases h
  obtain ⟨m, inputs, budget, heq⟩ := Pass.allocateEncoder_eq _ rid d
  rw [heq]
  exact ⟨require_eq_ok.mp hst, rfl, ⟨e, hpop⟩, rfl, rfl, ⟨rfl, rfl, rfl, rfl, rfl⟩, rfl, rfl, rfl,
    rfl, rfl, rfl, rfl, rfl⟩

theorem restoreSkipped_ok (h : p.restoreSkipped = .ok p') :
    ∃ waiting, p' = { p with sched := { p.sched with waiting } } ∧
      waiting.entries.Perm (p.skippedWaitingRequests.entries ++ p.sched.waiting.entries) := by
  unfold Pass.restoreSkipped at h
  split at h
  next hlen =>
    cases h
    refine ⟨_, rfl, ?_⟩
    rw [List.length_eq_zero_iff.mp hlen]
    exact List.Perm.refl _
  next =>
    obtain ⟨w, hw, h⟩ := bind_eq_ok.mp h
    exact ⟨w, (pure_eq_ok.mp h).symm, RequestQueue.prependRequests_perm hw⟩

end Effects

/-! ## After the step -/

section After

variable {C : SchedulerConfig} {s s' : Scheduler} {rid : ReqId}

/-- The effect of `_update_after_schedule`: what was scheduled counts as computed, and the
`AsyncScheduler` may expect one more token. -/
structure Scheduler.Advances (C : SchedulerConfig) (s : Scheduler) (scheduled : Dict ReqId Int)
    (s' : Scheduler) : Prop where
  running : s'.running = s.running
  waiting : s'.waiting = s.waiting
  ledger : s'.ledger = s.ledger
  scheduled_mem : ∀ id ∈ scheduled, id ∈ s.requests
  mem_objects : ∀ id, id ∈ s'.objects ↔ id ∈ scheduled ∨ id ∈ s.objects
  request : ∀ id, ∃ n, s'.request id =
      ((s.request id).advanced (scheduled.getD id 0)).addPlaceholders n ∧
    (n = 0 ∨ C.asyncScheduling = true ∧ id ∈ scheduled ∧ n = 1)

/-- What is scheduled counts as computed; the requests are the same. -/
theorem Scheduler.Advances.sameInputs {scheduled : Dict ReqId Int}
    (h : s.Advances C scheduled s') : s.SameInputs s' := fun id => by
  obtain ⟨n, hreq, -⟩ := h.request id
  rw [hreq]
  exact ⟨rfl, rfl, rfl, rfl, rfl, rfl, rfl⟩

theorem advance_ok {n : Int} (h : s.advance rid n = .ok s') :
    rid ∈ s.requests ∧ s'.objects = (s.modify rid fun r => r.advanced n).objects ∧
      s.OnlyObjects s' := by
  obtain ⟨_, hmem, h⟩ := bind_eq_ok.mp h
  refine ⟨require_eq_ok.mp hmem, ?_⟩
  cases h
  split
  · exact ⟨rfl, rfl, rfl, rfl, ⟨rfl, rfl, rfl, rfl, rfl⟩⟩
  · exact ⟨rfl, s.onlyObjects_modify _ _⟩

theorem addPlaceholder_ok (h : s.addPlaceholder rid = .ok s') :
    rid ∈ s.requests ∧ (s' = s ∨ s' = s.modify rid fun r => r.addPlaceholders 1) := by
  obtain ⟨_, hmem, h⟩ := bind_eq_ok.mp h
  refine ⟨require_eq_ok.mp hmem, ?_⟩
  cases h
  split
  · exact .inr rfl
  · exact .inl rfl

@[simp] theorem Request.advanced_zero (r : Request) : r.advanced 0 = r := by
  simp [Request.advanced]

@[simp] theorem Request.addPlaceholders_zero (r : Request) : r.addPlaceholders 0 = r := by
  simp [Request.addPlaceholders]

/-- The first loop of `_update_after_schedule`. -/
theorem advanceLoop_ok {l : List (ReqId × Int)} (hn : (l.map fst).Nodup)
    (h : threadM (fun e (s : Scheduler) => s.advance e.1 e.2) l s = .ok s') :
    s.OnlyObjects s' ∧ (∀ id ∈ l.map fst, id ∈ s.requests) ∧
      (∀ id, id ∈ s'.objects ↔ id ∈ l.map fst ∨ id ∈ s.objects) ∧
      ∀ id, s'.request id = (s.request id).advanced ((Dict.find l id).getD 0) := by
  induction l generalizing s with
  | nil =>
    obtain rfl := Except.ok.inj h
    exact ⟨.refl s, by simp, by simp, fun id => by simp [Dict.find]⟩
  | cons e l ih =>
    obtain ⟨rid, n⟩ := e
    obtain ⟨s₁, h₁, h⟩ := threadM_cons_ok.mp h
    obtain ⟨hmem, hobj, honly⟩ := advance_ok h₁
    obtain ⟨hnot, hnd⟩ := List.nodup_cons.mp hn
    obtain ⟨ihonly, ihmem, ihobj, ihreq⟩ := ih hnd h
    refine ⟨honly.trans ihonly, ?_, fun id => ?_, fun id => ?_⟩
    · rintro id (_ | ⟨_, hid⟩)
      · exact hmem
      · exact honly.frame.requests ▸ ihmem id hid
    · rw [ihobj id, hobj, Scheduler.mem_objects_modify, List.map_cons, List.mem_cons]
      tauto
    · rw [ihreq id, Scheduler.request_congr hobj, Scheduler.request_modify]
      by_cases hid : id = rid
      · subst hid
        have hnone : Dict.find l id = none := Dict.find_eq_none_iff.mpr hnot
        simp [Dict.find, hnone]
      · simp [hid, Dict.find, Ne.symm hid]

/-- The second loop, of the `AsyncScheduler`. -/
theorem placeholderLoop_ok {l : List (ReqId × Int)} (hn : (l.map fst).Nodup)
    (hmem : ∀ id ∈ l.map fst, id ∈ s.objects)
    (h : threadM (fun e (s : Scheduler) => s.addPlaceholder e.1) l s = .ok s') :
    s.OnlyObjects s' ∧ (∀ id, id ∈ s'.objects ↔ id ∈ s.objects) ∧
      ∀ id, ∃ n, s'.request id = (s.request id).addPlaceholders n ∧
        (n = 0 ∨ id ∈ l.map fst ∧ n = 1) := by
  induction l generalizing s with
  | nil =>
    obtain rfl := Except.ok.inj h
    exact ⟨.refl s, by simp, fun id => ⟨0, by simp, .inl rfl⟩⟩
  | cons e l ih =>
    obtain ⟨s₁, h₁, h⟩ := threadM_cons_ok.mp h
    obtain ⟨hnot, hnd⟩ := List.nodup_cons.mp hn
    have hone : s.OnlyObjects s₁ ∧ (∀ id, id ∈ s₁.objects ↔ id ∈ s.objects) ∧
        ∀ id, ∃ n, s₁.request id = (s.request id).addPlaceholders n ∧
          (n = 0 ∨ id = e.1 ∧ n = 1) := by
      rcases addPlaceholder_ok h₁ with ⟨-, rfl | rfl⟩
      · exact ⟨.refl _, fun _ => Iff.rfl, fun id => ⟨0, by simp, .inl rfl⟩⟩
      · refine ⟨s.onlyObjects_modify _ _, fun id => ?_, fun id => ?_⟩
        · rw [Scheduler.mem_objects_modify, or_iff_right_of_imp]
          rintro rfl
          exact hmem _ List.mem_cons_self
        · by_cases hid : id = e.1
          · subst hid
            exact ⟨1, Scheduler.request_modify_self, .inr ⟨rfl, rfl⟩⟩
          · exact ⟨0, by simp [Scheduler.request_modify_ne hid], .inl rfl⟩
    obtain ⟨honly, hobj, hreq⟩ := hone
    obtain ⟨ihonly, ihobj, ihreq⟩ :=
      ih hnd (fun id hid => (hobj id).mpr (hmem id (List.mem_cons_of_mem _ hid))) h
    refine ⟨honly.trans ihonly, fun id => (ihobj id).trans (hobj id), fun id => ?_⟩
    obtain ⟨n, hn, hn'⟩ := hreq id
    obtain ⟨m, hm, hm'⟩ := ihreq id
    -- a request is visited once, so at most one of the two numbers is not zero
    rcases hn' with rfl | ⟨rfl, rfl⟩
    · refine ⟨m, by simpa [hn] using hm, ?_⟩
      rcases hm' with rfl | ⟨hid, rfl⟩
      · exact .inl rfl
      · exact .inr ⟨List.mem_cons_of_mem _ hid, rfl⟩
    · rcases hm' with rfl | ⟨hid, -⟩
      · exact ⟨1, by simpa [hn] using hm, .inr ⟨List.mem_cons_self, rfl⟩⟩
      · exact absurd hid hnot

theorem updateAfterSchedule_ok {scheduled : Dict ReqId Int}
    (h : s.updateAfterSchedule C scheduled.entries = .ok s') :
    s.Advances C scheduled s' ∧ s'.kvCacheManager = s.kvCacheManager := by
  obtain ⟨s₁, h₁, h⟩ := bind_eq_ok.mp h
  obtain ⟨honly, hmem, hobj, hreq⟩ := advanceLoop_ok scheduled.nodup h₁
  cases hasync : C.asyncScheduling with
  | false =>
    rw [hasync] at h
    cases h
    exact ⟨⟨honly.running, honly.waiting, honly.frame.ledger, hmem, hobj,
      fun id => ⟨0, (hreq id).trans (Request.addPlaceholders_zero _).symm, .inl rfl⟩⟩,
      honly.kvCacheManager⟩
  | true =>
    rw [hasync] at h
    obtain ⟨honly₂, hobj₂, hreq₂⟩ := placeholderLoop_ok (s := { s₁ with finishedReqIds := [] })
      scheduled.nodup (fun id hid => (hobj id).mpr (.inl hid)) h
    refine ⟨⟨honly₂.running.trans honly.running, honly₂.waiting.trans honly.waiting,
      honly₂.frame.ledger.trans honly.frame.ledger, hmem, fun id => (hobj₂ id).trans (hobj id),
      fun id => ?_⟩, honly₂.kvCacheManager.trans honly.kvCacheManager⟩
    obtain ⟨n, hn, hn'⟩ := hreq₂ id
    refine ⟨n, hn.trans (congrArg (Request.addPlaceholders · n) (hreq id)), ?_⟩
    rcases hn' with rfl | ⟨hid, rfl⟩
    · exact .inl rfl
    · exact .inr ⟨hasync, hid, rfl⟩

end After

end InferenceServer
