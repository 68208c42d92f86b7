import InferenceServer.KVCache.CachedIndex
import InferenceServer.Sched.Moves

/-!
# The loops of a scheduling step, taken apart

The scheduler owns the KV cache manager and reaches it through a few methods. `Scheduler.scheduleCalls`
lists the calls that one scheduling step makes, each with the scheduler that makes it, so that a
statement about the cache can speak of a call in the middle of a step: of the slots that are
allocated for a request, or of the blocks that are cached when they have been received.

`Pass.Does` refines the moves of a step by the calls that a move makes and by the status of the
request it is about. The loops of `schedule` are taken apart once, in `schedulePass_trace`, into moves
whose calls are those of the step, in their order, and whose preemptions are those of the step;
whatever every move preserves then holds of the whole step (`schedulePass_invariant`,
`schedulePass_calls`).

The only fact about the loop over the running requests that has to be carried along is that no
request comes up twice. The loop runs over a list from which it removes requests, at any place under
the priority policy; since a removal only moves later requests forward, the requests ahead of the
index are still ahead of it or are passed over (`Pass.Ahead`).

## Main results

* `schedulePass_trace`, `schedulePass_invariant`, `schedulePass_calls`
-/

namespace InferenceServer

open Outcome

/-- A call of the KV cache manager, with the scheduler that makes it. -/
structure KVCall where
  sched : Scheduler
  op : ManagerOp

section Calls

variable (H : BlockHasher) (C : SchedulerConfig) (E : Environment)

/-! ## The calls of a scheduling step -/

/-- The attempt to allocate slots for a running request. -/
def Scheduler.allocateCall (s : Scheduler) (rid : ReqId) (numNewTokens : Int) : KVCall :=
  ⟨s, .allocateSlots (s.request rid) numNewTokens 0 s.kvCacheManager.createEmptyBlockList
    C.numLookaheadTokens false⟩

/-- The calls of the inner loop over the running requests. -/
def Scheduler.allocateCalls (rid : ReqId) (numNewTokens : Int) : Nat → Scheduler → List KVCall
  | 0, _ => []
  | fuel + 1, s =>
    s.allocateCall C rid numNewTokens ::
      match s.kvCacheManager.allocateSlots H (s.request rid) numNewTokens 0
        s.kvCacheManager.createEmptyBlockList C.numLookaheadTokens false with
      | .ok (none, k) =>
        match (s.withKV k).victim C with
        | .ok v =>
          ⟨s.withKV k, .free v⟩ :: match (s.withKV k).preempt C v with
          | .ok s₂ => if v = rid then [] else allocateCalls rid numNewTokens fuel s₂
          | .error _ => []
        | .error _ => []
      | _ => []

/-- The calls while the loop over the running requests is at a request. -/
def Pass.runningCalls (p : Pass) (rid : ReqId) : List KVCall :=
  let d := p.runningDemand C (p.sched.request rid)
  if d.numNewTokens = 0 then []
  else p.sched.allocateCalls H C rid d.numNewTokens p.sched.running.length

/-- The calls of the loop over the running requests. -/
def runningLoopCalls : Nat → Pass → List KVCall
  | 0, _ => []
  | fuel + 1, p =>
    match p.sched.running[p.reqIndex]? with
    | none => []
    | some rid =>
      if 0 < p.tokenBudget then
        p.runningCalls H C rid ++ match p.visitRunning H C rid with
        | .ok (true, p') => runningLoopCalls fuel p'
        | _ => []
      else []

/-- The blocks of a waiting request are cached, if they have been received. -/
def Pass.receiveCalls (p : Pass) (rid : ReqId) : List KVCall :=
  let r := p.sched.request rid
  if r.status = .waitingForRemoteKvs ∧ rid ∈ p.sched.finishedRecvingKvReqIds then
    [⟨p.sched, .cacheBlocks r
      (C.numReceivedTokens r (p.sched.kvCacheManager.getBlockIds rid).flatten)⟩]
  else []

/-- The attempt to allocate slots for a waiting request. -/
def Pass.slotCall (p : Pass) (rid : ReqId) (d : Demand) (ct : ComputedTokens) : KVCall :=
  ⟨p.sched, .allocateSlots (p.sched.request rid) (d.numNewTokens + ct.numExternalComputedTokens)
    ct.numNewLocalComputedTokens ct.newComputedBlocks C.numLookaheadTokens ct.loadKvAsync⟩

/-- The calls for a waiting request that waits for nothing else. -/
def Pass.waitingRequestCalls (p : Pass) (rid : ReqId) : List KVCall :=
  (if (p.sched.request rid).numComputedTokens = 0 then
      [⟨p.sched, .getComputedBlocks (p.sched.request rid)⟩] else []) ++
    match p.sched.getComputedTokens H C E (p.sched.request rid) with
    | .ok (ct, s) =>
      match { p with sched := s : Pass }.waitingDemand C (s.request rid) ct with
      | .ok (.demand d) => [{ p with sched := s : Pass }.slotCall C rid d ct]
      | _ => []
    | .error _ => []

/-- The calls in one round of the loop over the waiting requests. -/
def Pass.waitingCalls (p : Pass) : List KVCall :=
  match p.sched.waiting.peekRequest with
  | .error _ => []
  | .ok e =>
    p.receiveCalls C e.requestId ++ match p.sched.resolveStatus H C E e.requestId with
    | .ok (true, s) =>
      if { p with sched := s : Pass }.exceedsLoras C (s.request e.requestId) then []
      else { p with sched := s : Pass }.waitingRequestCalls H C E e.requestId
    | _ => []

/-- The calls of the loop over the waiting requests. -/
def waitingLoopCalls : Nat → Pass → List KVCall
  | 0, _ => []
  | fuel + 1, p =>
    if p.sched.waiting.length ≠ 0 ∧ 0 < p.tokenBudget ∧
        p.sched.running.length ≠ C.maxNumRunningReqs then
      p.waitingCalls H C E ++ match p.visitWaiting H C E with
      | .ok (true, p') => waitingLoopCalls fuel p'
      | _ => []
    else []

/-- **The calls of a scheduling step**, in their order. -/
def Scheduler.scheduleCalls (s : Scheduler) : List KVCall :=
  runningLoopCalls H C s.running.length (.start C s) ++
    match runningLoop H C s.running.length (.start C s) >>= Pass.recordLoras C with
    | .ok p =>
      if p.preemptedReqs = [] then waitingLoopCalls H C E (p.sched.waiting.length + 1) p else []
    | .error _ => []

/-! ## Moves with their calls -/

/-- **A move of `schedule` and the calls it makes.** -/
inductive Pass.Does : Pass → List KVCall → Pass → Prop where
  | passOver {p : Pass} {rid : ReqId} (hat : p.At rid)
      (hzero : (p.runningDemand C (p.sched.request rid)).numNewTokens = 0) :
      Does p [] { p with reqIndex := p.reqIndex + 1 }
  | preempt {p : Pass} {rid v : ReqId} {k : KVCacheManager} {s : Scheduler} (hat : p.At rid)
      (hpos : (p.runningDemand C (p.sched.request rid)).numNewTokens ≠ 0)
      (halloc : p.tryAllocate H C rid = .ok (none, k))
      (hv : (p.sched.withKV k).victim C = .ok v)
      (hs : (p.sched.withKV k).preempt C v = .ok s) :
      Does p [p.sched.allocateCall C rid (p.runningDemand C (p.sched.request rid)).numNewTokens,
          ⟨p.sched.withKV k, .free v⟩]
        { p with sched := s, preemptedReqs := p.preemptedReqs ++ [v] }
  | scheduleRunning {p : Pass} {rid : ReqId} {blocks : List (List BlockId)} {k : KVCacheManager}
      (hat : p.At rid)
      (hpos : (p.runningDemand C (p.sched.request rid)).numNewTokens ≠ 0)
      (halloc : p.tryAllocate H C rid = .ok (some blocks, k)) :
      Does p [p.sched.allocateCall C rid (p.runningDemand C (p.sched.request rid)).numNewTokens]
        ((p.withKV k).scheduleRunning rid (p.runningDemand C (p.sched.request rid)) blocks)
  | recordLoras {p p' : Pass} (h : p.recordLoras C = .ok p') : Does p [] p'
  /-- The blocks of the request have been received. -/
  | receive {p : Pass} {rid : ReqId} {s : Scheduler} (hat : p.AtWaiting C rid)
      (hst : (p.sched.request rid).status = .waitingForRemoteKvs)
      (hmem : rid ∈ p.sched.finishedRecvingKvReqIds)
      (h : p.sched.resolveStatus H C E rid = .ok (true, s)) :
      Does p (p.receiveCalls C rid) { p with sched := s }
  /-- The request waits for something else, or for nothing, or its blocks have not been received. -/
  | resolveStatus {p : Pass} {rid : ReqId} {ready : Bool} {s : Scheduler} (hat : p.AtWaiting C rid)
      (hnot : ¬ ((p.sched.request rid).status = .waitingForRemoteKvs ∧
        rid ∈ p.sched.finishedRecvingKvReqIds))
      (h : p.sched.resolveStatus H C E rid = .ok (ready, s)) : Does p [] { p with sched := s }
  | skip {p p' : Pass} {rid : ReqId} (hat : p.AtWaiting C rid) (h : p.skipWaiting = .ok p') :
      Does p [] p'
  | lookUp {p : Pass} {rid : ReqId} {ct : ComputedTokens} {s : Scheduler}
      (hat : p.AtWaiting C rid) (hst : (p.sched.request rid).status ≠ .waitingForRemoteKvs)
      (hnc : (p.sched.request rid).numComputedTokens = 0)
      (h : p.sched.getComputedTokens H C E (p.sched.request rid) = .ok (ct, s)) :
      Does p [⟨p.sched, .getComputedBlocks (p.sched.request rid)⟩] { p with sched := s }
  | noSlots {p : Pass} {rid : ReqId} {ct : ComputedTokens} {s₀ : Scheduler} {d : Demand}
      {k : KVCacheManager} (hat : p.AtWaiting C rid)
      (hst : (p.sched.request rid).status ≠ .waitingForRemoteKvs)
      (hct : s₀.getComputedTokens H C E (p.sched.request rid) = .ok (ct, p.sched))
      (hd : p.waitingDemand C (p.sched.request rid) ct = .ok (.demand d))
      (halloc : p.sched.kvCacheManager.allocateSlots H (p.sched.request rid)
        (d.numNewTokens + ct.numExternalComputedTokens) ct.numNewLocalComputedTokens
        ct.newComputedBlocks C.numLookaheadTokens ct.loadKvAsync = .ok (none, k)) :
      Does p [p.slotCall C rid d ct] (p.withKV k)
  | park {p p' : Pass} {rid : ReqId} {ct : ComputedTokens} {s₀ : Scheduler} {d : Demand}
      {blocks : List (List BlockId)} {k : KVCacheManager} (hat : p.AtWaiting C rid)
      (hst : (p.sched.request rid).status ≠ .waitingForRemoteKvs)
      (hct : s₀.getComputedTokens H C E (p.sched.request rid) = .ok (ct, p.sched))
      (hd : p.waitingDemand C (p.sched.request rid) ct = .ok (.demand d))
      (hasync : ct.loadKvAsync = true)
      (halloc : p.sched.kvCacheManager.allocateSlots H (p.sched.request rid)
        (d.numNewTokens + ct.numExternalComputedTokens) ct.numNewLocalComputedTokens
        ct.newComputedBlocks C.numLookaheadTokens ct.loadKvAsync = .ok (some blocks, k))
      (h : (p.withKV k).parkRemote rid = .ok p') : Does p [p.slotCall C rid d ct] p'
  | admitWaiting {p p' : Pass} {rid : ReqId} {ct : ComputedTokens} {s₀ : Scheduler} {d : Demand}
      {blocks : List (List BlockId)} {k : KVCacheManager} (hat : p.AtWaiting C rid)
      (hst : (p.sched.request rid).status ≠ .waitingForRemoteKvs)
      (hct : s₀.getComputedTokens H C E (p.sched.request rid) = .ok (ct, p.sched))
      (hd : p.waitingDemand C (p.sched.request rid) ct = .ok (.demand d))
      (hasync : ct.loadKvAsync = false)
      (halloc : p.sched.kvCacheManager.allocateSlots H (p.sched.request rid)
        (d.numNewTokens + ct.numExternalComputedTokens) ct.numNewLocalComputedTokens
        ct.newComputedBlocks C.numLookaheadTokens ct.loadKvAsync = .ok (some blocks, k))
      (h : (p.withKV k).admitWaiting C rid d ct = .ok p') : Does p [p.slotCall C rid d ct] p'

/-- A sequence of moves, with all the calls they make. -/
inductive Pass.DoesAll : Pass → List KVCall → Pass → Prop where
  | refl (p : Pass) : DoesAll p [] p
  | tail {p p' p'' : Pass} {cs c : List KVCall} (h : DoesAll p cs p')
      (hd : Pass.Does H C E p' c p'') : DoesAll p (cs ++ c) p''

end Calls

section Does

variable {H : BlockHasher} {C : SchedulerConfig} {E : Environment} {p p' p'' : Pass} {rid : ReqId}
  {cs cs' c : List KVCall} {s : Scheduler}

theorem Pass.Does.move (h : Pass.Does H C E p c p') : Pass.Move H C E p p' := by
  cases h with
  | passOver hat hzero => exact .passOver hat hzero
  | preempt hat hpos halloc hv hs => exact .preempt hat hpos halloc hv hs
  | scheduleRunning hat hpos halloc => exact .scheduleRunning hat hpos halloc
  | recordLoras h => exact .recordLoras h
  | receive hat hst hmem h => exact .resolveStatus hat h
  | resolveStatus hat hnot h => exact .resolveStatus hat h
  | skip hat h => exact .skip hat h
  | lookUp hat hst hnc h => exact .lookUp hat h
  | noSlots hat hst hct hd halloc => exact .noSlots hat halloc
  | park hat hst hct hd hasync halloc h => exact .park hat hct hd hasync halloc h
  | admitWaiting hat hst hct hd hasync halloc h => exact .admitWaiting hat hct hd hasync halloc h

/-- **A sequence of moves** of a step with the given preemptions, with all the calls they make. -/
inductive Pass.Trace (H : BlockHasher) (C : SchedulerConfig) (E : Environment) (L : List Preemption) :
    Pass → List KVCall → Pass → Prop where
  | refl (p : Pass) : Trace H C E L p [] p
  | tail {p p' p'' : Pass} {cs c : List KVCall} (h : Trace H C E L p cs p')
      (hd : Pass.Does H C E p' c p'') (hm : Pass.MoveIn H C E L p' p'') :
      Trace H C E L p (cs ++ c) p''

namespace Pass.Trace

variable {L : List Preemption}

theorem moves (h : p.Trace H C E L cs p') : p.Moves H C E L p' := by
  induction h with
  | refl => exact .refl
  | tail _ _ hm ih => exact ih.tail hm

theorem doesAll (h : p.Trace H C E L cs p') : p.DoesAll H C E cs p' := by
  induction h with
  | refl => exact .refl _
  | tail _ hd _ ih => exact .tail ih hd

theorem trans (h : p.Trace H C E L cs p') (h' : p'.Trace H C E L cs' p'') :
    p.Trace H C E L (cs ++ cs') p'' := by
  induction h' with
  | refl => rwa [List.append_nil]
  | tail _ hd hm ih =>
    rw [← List.append_assoc]
    exact .tail ih hd hm

/-- A move that is not a preemption. -/
theorem quiet (hd : Pass.Does H C E p c p') (hpre : p'.preemptedReqs = p.preemptedReqs) :
    p.Trace H C E L c p' :=
  .tail (.refl p) hd (hd.move.quiet hpre)

end Pass.Trace

/-- **The rule for a sequence of moves**: `I` holds of the calls made so far and the pass. -/
theorem Pass.DoesAll.invariant {I : List KVCall → Pass → Prop} (h : Pass.DoesAll H C E p cs p')
    (start : I [] p)
    (step : ∀ cs p c p', I cs p → Pass.Does H C E p c p' → I (cs ++ c) p') : I cs p' := by
  induction h with
  | refl => exact start
  | tail _ hd ih => exact step _ _ _ _ ih hd

end Does

/-! ## The loop over the running requests -/

section RunningLoop

variable {H : BlockHasher} {C : SchedulerConfig} {E : Environment} {p p' : Pass} {rid v : ReqId}
  {k : KVCacheManager} {s : Scheduler} {L : List Preemption}

/-- Nothing that is ahead of the loop index has been scheduled. -/
structure Pass.Ahead (p : Pass) : Prop where
  nodup : p.sched.running.Nodup
  unscheduled : ∀ id ∈ p.sched.running.drop p.reqIndex, id ∉ p.numScheduledTokens

theorem Pass.Ahead.at (h : p.Ahead) (hrid : p.sched.running[p.reqIndex]? = some rid)
    (hb : 0 < p.tokenBudget) : p.At rid := by
  obtain ⟨hi, hget⟩ := List.getElem?_eq_some_iff.mp hrid
  have hdrop : p.sched.running.drop p.reqIndex =
      rid :: p.sched.running.drop (p.reqIndex + 1) := by
    rw [List.drop_eq_getElem_cons hi, hget]
  have hnd : (rid :: p.sched.running.drop (p.reqIndex + 1)).Nodup :=
    hdrop ▸ h.nodup.sublist (List.drop_sublist _ _)
  have hun := h.unscheduled
  rw [hdrop] at hun
  refine ⟨h.nodup, List.mem_of_getElem? hrid, hun rid List.mem_cons_self, hb, fun id hid => ?_⟩
  refine ⟨?_, hun id (List.mem_cons_of_mem _ hid)⟩
  rintro rfl
  exact (List.nodup_cons.mp hnd).1 hid

/-- After a preemption the loop is still at its request, with the same demand. -/
theorem Pass.At.preempt (h : p.At rid)
    (hv : (p.sched.withKV k).victim C = .ok v)
    (hs : (p.sched.withKV k).preempt C v = .ok s) (hne : v ≠ rid) :
    { p with sched := s, preemptedReqs := p.preemptedReqs ++ [v] : Pass }.At rid ∧
      s.request rid = p.sched.request rid ∧
      s.encoderCacheManager = p.sched.encoderCacheManager := by
  have hp := Scheduler.preempt_ok hs
  have hrun : s.running = p.sched.running.erase v :=
    hp.running.trans (Scheduler.removeVictim_eq h.nodup hv)
  refine ⟨⟨?_, ?_, h.unscheduled, h.budget, ?_⟩, ?_, hp.encoderCacheManager⟩
  · exact hrun ▸ h.nodup.erase v
  · exact hrun ▸ (List.mem_erase_of_ne hne.symm).mpr h.mem
  · intro id hid
    rw [hrun] at hid
    exact h.behind id ((drop_erase_sublist _ _ _).subset hid)
  · rw [hp.request, if_neg hne.symm]
    rfl

/-- The inner loop is a sequence of preemptions; it ends with that of the request itself, or with
slots for it. -/
theorem allocateOrPreempt_trace {fuel : Nat} {d : Demand} {pre : List ReqId}
    {res : Option (List (List BlockId))} (hat : p.At rid)
    (hd : p.runningDemand C (p.sched.request rid) = d) (hpos : d.numNewTokens ≠ 0)
    (hL : ∀ e ∈ Pass.preemptionsAt H C rid d.numNewTokens fuel p, e ∈ L)
    (h : p.sched.allocateOrPreempt H C rid d.numNewTokens fuel p.preemptedReqs =
      .ok (res, s, pre)) :
    match res with
    | none => p.Trace H C E L (p.sched.allocateCalls H C rid d.numNewTokens fuel)
        { p with sched := s, preemptedReqs := pre }
    | some blocks => ∃ p₁ k cs, p.Trace H C E L cs p₁ ∧ p₁.At rid ∧
        p₁.runningDemand C (p₁.sched.request rid) = d ∧
        p₁.tryAllocate H C rid = .ok (some blocks, k) ∧
        { p with sched := s, preemptedReqs := pre } = p₁.withKV k ∧
        p.sched.allocateCalls H C rid d.numNewTokens fuel =
          cs ++ [p₁.sched.allocateCall C rid d.numNewTokens] := by
  induction fuel generalizing p with
  | zero => simp [Scheduler.allocateOrPreempt] at h
  | succ fuel ih =>
    obtain ⟨⟨newBlocks, k⟩, halloc, h⟩ := bind_eq_ok.mp h
    have halloc' : p.tryAllocate H C rid = .ok (newBlocks, k) := by
      rw [Pass.tryAllocate, hd]
      exact halloc
    cases newBlocks with
    | some blocks =>
      cases h
      refine ⟨p, k, [], .refl p, hat, hd, halloc', rfl, ?_⟩
      simp only [Scheduler.allocateCalls, halloc, List.nil_append]
    | none =>
      obtain ⟨v, hv, h⟩ := bind_eq_ok.mp h
      obtain ⟨s₂, hs₂, h⟩ := bind_eq_ok.mp h
      simp only [Pass.preemptionsAt, halloc, hv, hs₂] at hL
      have hdoes := Pass.Does.preempt (E := E) hat (hd ▸ hpos) halloc' hv hs₂
      have hmove : p.Trace H C E L _ _ := .tail (.refl p) hdoes ⟨hdoes.move, fun v' hv' => by
        obtain rfl : v = v' := by simpa using hv'
        exact ⟨rid, hat, hL _ List.mem_cons_self⟩⟩
      rw [List.nil_append, hd] at hmove
      by_cases hvr : v = rid
      · rw [if_pos hvr] at h
        cases h
        simp only [Scheduler.allocateCalls, halloc, hv, hs₂, if_pos hvr]
        exact hmove
      · rw [if_neg hvr] at h hL
        obtain ⟨hat₁, hreq, henc⟩ := hat.preempt hv hs₂ hvr
        have hd₁ : Pass.runningDemand C
            { p with sched := s₂, preemptedReqs := p.preemptedReqs ++ [v] }
            (s₂.request rid) = d := by
          rw [← hd, hreq]
          unfold Pass.runningDemand
          rw [henc]
        have hrest := ih hat₁ hd₁ (fun e he => hL e (List.mem_cons_of_mem _ he)) h
        simp only [Scheduler.allocateCalls, halloc, hv, hs₂, if_neg hvr]
        cases res with
        | none => exact hmove.trans hrest
        | some blocks =>
          obtain ⟨p₁, k₁, cs, hm, h₁, h₂, h₃, h₄, hcs⟩ := hrest
          refine ⟨p₁, k₁, _, hmove.trans hm, h₁, h₂, h₃, h₄, ?_⟩
          rw [hcs]
          rfl

/-- One round of the loop over the running requests. -/
theorem visitRunning_trace {goOn : Bool} (hat : p.At rid)
    (hL : ∀ e ∈ p.visitPreemptions H C rid, e ∈ L)
    (h : p.visitRunning H C rid = .ok (goOn, p')) :
    p.Trace H C E L (p.runningCalls H C rid) p' ∧ (goOn = true → p'.Ahead) := by
  unfold Pass.visitRunning at h
  unfold Pass.visitPreemptions at hL
  unfold Pass.runningCalls
  dsimp only at h hL ⊢
  split at h
  next hzero =>
    obtain ⟨-, rfl⟩ : true = goOn ∧ _ = p' := by simpa using h
    rw [if_pos hzero]
    exact ⟨.quiet (.passOver hat hzero) rfl, fun _ => ⟨hat.nodup, fun id hid => (hat.behind id hid).2⟩⟩
  next hpos =>
    obtain ⟨⟨res, s, pre⟩, hloop, h⟩ := bind_eq_ok.mp h
    rw [if_neg hpos] at hL ⊢
    have htrace := allocateOrPreempt_trace (E := E) hat rfl hpos hL hloop
    cases res with
    | none =>
      cases h
      exact ⟨htrace, fun hgo => by cases hgo⟩
    | some blocks =>
      cases h
      obtain ⟨p₁, k, cs, hm, hat₁, hd, halloc, heq, hcs⟩ := htrace
      rw [heq, hcs, ← hd]
      have heff := (p₁.withKV k).scheduleRunning_effect rid
        (p₁.runningDemand C (p₁.sched.request rid)) blocks
      refine ⟨hm.trans (.quiet (.scheduleRunning hat₁ (hd ▸ hpos) halloc) heff.preemptedReqs),
        fun _ => ⟨heff.running ▸ hat₁.nodup, fun id hid => ?_⟩⟩
      rw [heff.running, heff.reqIndex] at hid
      rw [heff.numScheduledTokens, Dict.mem_set, not_or]
      exact hat₁.behind id hid

theorem runningLoop_trace {fuel : Nat} (ha : p.Ahead)
    (hL : ∀ e ∈ loopPreemptions H C fuel p, e ∈ L) (h : runningLoop H C fuel p = .ok p') :
    p.Trace H C E L (runningLoopCalls H C fuel p) p' := by
  induction fuel generalizing p with
  | zero =>
    unfold runningLoop at h
    split at h
    · simp at h
    · obtain rfl := Except.ok.inj h
      exact .refl p
  | succ fuel ih =>
    unfold runningLoop at h
    unfold runningLoopCalls
    cases hrid : p.sched.running[p.reqIndex]? with
    | none =>
      simp only [hrid] at h ⊢
      obtain rfl := Except.ok.inj h
      exact .refl p
    | some rid =>
      simp only [hrid] at h ⊢
      split at h
      next hb =>
        obtain ⟨⟨goOn, p₁⟩, hvisit, h⟩ := bind_eq_ok.mp h
        simp only [loopPreemptions, hrid, if_pos hb, hvisit] at hL
        obtain ⟨htrace, hahead⟩ := visitRunning_trace (E := E) (ha.at hrid hb)
          (fun e he => hL e (List.mem_append_left _ he)) hvisit
        rw [if_pos hb, hvisit]
        cases goOn with
        | true =>
          exact htrace.trans (ih (hahead rfl) (fun e he => hL e (List.mem_append_right _ he)) h)
        | false =>
          cases h
          simpa using htrace
      next hb =>
        obtain rfl := Except.ok.inj h
        rw [if_neg hb]
        exact .refl p

end RunningLoop

/-! ## The loop over the waiting requests -/

section WaitingLoop

variable {H : BlockHasher} {C : SchedulerConfig} {E : Environment} {p p' : Pass} {rid : ReqId}
  {s : Scheduler} {L : List Preemption}

/-- The loop is at the same request after a change that leaves the queues alone. -/
theorem Pass.AtWaiting.congr (h : p.AtWaiting C rid) {s : Scheduler}
    (hw : s.waiting = p.sched.waiting) (hr : s.running = p.sched.running) :
    { p with sched := s : Pass }.AtWaiting C rid :=
  ⟨hw ▸ h.peek, h.budget, hr ▸ h.room, h.unpreempted⟩

/-- Resolving a status leaves the queues alone. -/
theorem resolveStatus_queues {s s' : Scheduler} {ready : Bool}
    (h : s.resolveStatus H C E rid = .ok (ready, s')) :
    s'.waiting = s.waiting ∧ s'.running = s.running := by
  rcases resolveStatus_ok h with rfl | ⟨-, n, s₁, hrec, rfl⟩ | ⟨-, rfl⟩
  · exact ⟨rfl, rfl⟩
  · exact ⟨hrec.waiting, hrec.running⟩
  · exact ⟨rfl, rfl⟩

/-- A request that is ready does not wait for its blocks. -/
theorem resolveStatus_ready {s s' : Scheduler} (h : s.resolveStatus H C E rid = .ok (true, s')) :
    (s'.request rid).status ≠ .waitingForRemoteKvs := by
  unfold Scheduler.resolveStatus at h
  split at h
  next hst =>
    obtain ⟨⟨ready, s₁⟩, hup, h⟩ := bind_eq_ok.mp h
    cases ready with
    | false => simp [pure_eq_ok] at h
    | true =>
      cases h
      rw [Scheduler.request_modify_self]
      exact fun he => by cases he
  next hst =>
    split at h
    · cases h
      rw [Scheduler.request_modify_self]
      exact fun he => by cases he
    · simp at h
  next hrem hfsm =>
    cases h
    exact hrem

variable (hat : p.AtWaiting C rid)

include hat

theorem skipWaiting_trace (h : p.skipWaiting = .ok p') :
    p.Trace H C E L [] p' ∧ p'.preemptedReqs = [] := by
  have hpre : p'.preemptedReqs = p.preemptedReqs := by
    obtain ⟨e, w, sk, -, -, rfl⟩ := skipWaiting_ok h
    rfl
  exact ⟨.quiet (.skip hat h) hpre, hpre.trans hat.unpreempted⟩

/-- The computed tokens are looked up. -/
theorem getComputedTokens_trace {ct : ComputedTokens}
    (hst : (p.sched.request rid).status ≠ .waitingForRemoteKvs)
    (h : p.sched.getComputedTokens H C E (p.sched.request rid) = .ok (ct, s)) :
    p.Trace H C E L (if (p.sched.request rid).numComputedTokens = 0 then
      [⟨p.sched, .getComputedBlocks (p.sched.request rid)⟩] else []) { p with sched := s } := by
  split
  next hnc => exact .quiet (.lookUp hat hst hnc h) rfl
  next hnc =>
    obtain ⟨k, rfl, ⟨-, rfl, -⟩ | ⟨h0, -⟩⟩ := getComputedTokens_ok h
    · exact .refl p
    · exact absurd h0 hnc

theorem scheduleWaiting_trace {goOn : Bool}
    (hst : (p.sched.request rid).status ≠ .waitingForRemoteKvs)
    (h : p.scheduleWaiting H C E rid = .ok (goOn, p')) :
    p.Trace H C E L (p.waitingRequestCalls H C E rid) p' ∧ p'.preemptedReqs = [] := by
  obtain ⟨⟨ct, s⟩, hct, h⟩ := bind_eq_ok.mp h
  obtain ⟨wd, hwd, h⟩ := bind_eq_ok.mp h
  have hlook := getComputedTokens_trace (L := L) hat hst hct
  obtain ⟨k, rfl, -⟩ := getComputedTokens_ok hct
  have hat₁ := hat.congr (s := p.sched.withKV k) rfl rfl
  unfold Pass.waitingRequestCalls
  rw [hct]
  dsimp only at hwd h ⊢
  rw [hwd]
  refine And.imp_left hlook.trans ?_
  cases wd with
  | skip =>
    obtain ⟨p₁, hskip, h⟩ := bind_eq_ok.mp h
    obtain ⟨-, rfl⟩ := pair_of_ok h
    exact skipWaiting_trace hat₁ hskip
  | stop =>
    obtain ⟨-, rfl⟩ := pair_of_ok h
    exact ⟨.refl _, hat.unpreempted⟩
  | demand d =>
    obtain ⟨⟨newBlocks, k₁⟩, halloc, h⟩ := bind_eq_ok.mp h
    cases newBlocks with
    | none =>
      obtain ⟨-, rfl⟩ := pair_of_ok h
      exact ⟨.quiet (.noSlots hat₁ hst hct hwd halloc) rfl, hat.unpreempted⟩
    | some blocks =>
      cases hasync : ct.loadKvAsync with
      | true =>
        simp only [hasync, if_true] at h
        obtain ⟨p₁, hpark, h⟩ := bind_eq_ok.mp h
        obtain ⟨-, rfl⟩ := pair_of_ok h
        have hpre : p₁.preemptedReqs = p.preemptedReqs := by
          obtain ⟨p₂, hskip, rfl⟩ := parkRemote_ok hpark
          obtain ⟨e, w, sk, -, -, rfl⟩ := skipWaiting_ok hskip
          rfl
        exact ⟨.quiet (.park hat₁ hst hct hwd hasync halloc hpark) hpre,
          hpre.trans hat.unpreempted⟩
      | false =>
        simp only [hasync, Bool.false_eq_true, if_false] at h
        obtain ⟨p₁, hadmitted, h⟩ := bind_eq_ok.mp h
        obtain ⟨-, rfl⟩ := pair_of_ok h
        have hpre : p₁.preemptedReqs = p.preemptedReqs := (admit_ok hadmitted).preemptedReqs
        exact ⟨.quiet (.admitWaiting hat₁ hst hct hwd hasync halloc hadmitted) hpre,
          hpre.trans hat.unpreempted⟩

/-- What the request at the head of the queue waits for is resolved. -/
theorem resolveStatus_trace {ready : Bool} (h : p.sched.resolveStatus H C E rid = .ok (ready, s)) :
    p.Trace H C E L (p.receiveCalls C rid) { p with sched := s } := by
  by_cases hrec : (p.sched.request rid).status = .waitingForRemoteKvs ∧
      rid ∈ p.sched.finishedRecvingKvReqIds
  · -- the blocks are there, so the request is ready
    obtain rfl : ready = true := by
      unfold Scheduler.resolveStatus at h
      simp only [hrec.1] at h
      obtain ⟨⟨ready', s₁⟩, hup, h⟩ := bind_eq_ok.mp h
      obtain ⟨_, -, hup⟩ := bind_eq_ok.mp hup
      rw [if_neg (not_not.mpr hrec.2)] at hup
      split at hup
      · obtain ⟨k, -, hup⟩ := bind_eq_ok.mp hup
        cases hup
        cases h
        rfl
      · simp at hup
    exact .quiet (.receive hat hrec.1 hrec.2 h) rfl
  · unfold Pass.receiveCalls
    rw [if_neg hrec]
    exact .quiet (.resolveStatus hat hrec h) rfl

omit hat

theorem visitWaiting_trace {goOn : Bool} (hb : 0 < p.tokenBudget)
    (hroom : p.sched.running.length ≠ C.maxNumRunningReqs) (hpre : p.preemptedReqs = [])
    (h : p.visitWaiting H C E = .ok (goOn, p')) :
    p.Trace H C E L (p.waitingCalls H C E) p' ∧ p'.preemptedReqs = [] := by
  obtain ⟨e, hpeek, h⟩ := bind_eq_ok.mp h
  obtain ⟨⟨ready, s⟩, hres, h⟩ := bind_eq_ok.mp h
  have hat : p.AtWaiting C e.requestId := ⟨⟨e, hpeek, rfl⟩, hb, hroom, hpre⟩
  have hat₁ := hat.congr (resolveStatus_queues hres).1 (resolveStatus_queues hres).2
  unfold Pass.waitingCalls
  simp only [hpeek, hres]
  refine And.imp_left (resolveStatus_trace hat hres).trans ?_
  dsimp only at h ⊢
  cases ready with
  | false =>
    simp only [true_or, if_true] at h
    obtain ⟨p₁, hskip, h⟩ := bind_eq_ok.mp h
    cases h
    exact skipWaiting_trace hat₁ hskip
  | true =>
    simp only [Bool.true_eq_false, false_or] at h
    split at h
    next hlora =>
      obtain ⟨p₁, hskip, h⟩ := bind_eq_ok.mp h
      cases h
      dsimp only
      rw [if_pos hlora]
      exact skipWaiting_trace hat₁ hskip
    next hlora =>
      dsimp only
      rw [if_neg hlora]
      exact scheduleWaiting_trace hat₁ (resolveStatus_ready hres) h

theorem waitingLoop_trace {fuel : Nat} (hpre : p.preemptedReqs = [])
    (h : waitingLoop H C E fuel p = .ok p') :
    p.Trace H C E L (waitingLoopCalls H C E fuel p) p' := by
  induction fuel generalizing p with
  | zero => simp [waitingLoop] at h
  | succ fuel ih =>
    unfold waitingLoop at h
    unfold waitingLoopCalls
    split at h
    next hcond =>
      obtain ⟨⟨goOn, p₁⟩, hvisit, h⟩ := bind_eq_ok.mp h
      obtain ⟨htrace, hpre₁⟩ := visitWaiting_trace (L := L) hcond.2.1 hcond.2.2 hpre hvisit
      rw [if_pos hcond, hvisit]
      cases goOn with
      | true => exact htrace.trans (ih hpre₁ h)
      | false =>
        cases h
        simpa using htrace
    next hcond =>
      obtain rfl := Except.ok.inj h
      rw [if_neg hcond]
      exact .refl p

end WaitingLoop

/-! ## The whole step -/

section Step

variable {H : BlockHasher} {C : SchedulerConfig} {E : Environment} {s : Scheduler} {p : Pass}

/-- **The loops of a scheduling step** are a sequence of moves that make the calls of the step, after
which the skipped requests go back to the queue. -/
theorem schedulePass_trace (hn : s.running.Nodup) (h : s.schedulePass H C E = .ok p) :
    ∃ p₁, (Pass.start C s).Trace H C E (s.preemptions H C) (s.scheduleCalls H C E) p₁ ∧
      p₁.restoreSkipped = .ok p := by
  obtain ⟨p₁, hrun, h⟩ := bind_eq_ok.mp h
  obtain ⟨p₂, hlora, h⟩ := bind_eq_ok.mp h
  obtain ⟨p₃, hwait, h⟩ := bind_eq_ok.mp h
  refine ⟨p₃, ?_, h⟩
  have hquiet : p₂.preemptedReqs = p₁.preemptedReqs := by
    obtain ⟨loras, rfl⟩ := recordLoras_ok hlora
    rfl
  have htrace := (runningLoop_trace (E := E) (L := s.preemptions H C)
    ⟨hn, fun id _ => Dict.notMem_empty id⟩ (fun _ he => he) hrun).trans
    (.quiet (.recordLoras hlora) hquiet)
  rw [List.append_nil] at htrace
  unfold Scheduler.scheduleCalls
  refine htrace.trans ?_
  rw [show runningLoop H C s.running.length (Pass.start C s) >>= Pass.recordLoras C = .ok p₂ from
    bind_eq_ok.mpr ⟨p₁, hrun, hlora⟩]
  unfold Pass.scheduleWaitingReqs at hwait
  dsimp only
  split at hwait
  next hpre =>
    rw [if_pos hpre]
    exact waitingLoop_trace hpre hwait
  next hpre =>
    cases hwait
    rw [if_neg hpre]
    exact .refl p₂

/-- **The invariant rule** for a scheduling step. -/
theorem schedulePass_invariant {I : Pass → Prop} (hn : s.running.Nodup)
    (h : s.schedulePass H C E = .ok p) (start : I (.start C s))
    (move : ∀ p p', I p → Pass.MoveIn H C E (s.preemptions H C) p p' → I p') :
    ∃ p₁, I p₁ ∧ p₁.restoreSkipped = .ok p := by
  obtain ⟨p₁, htrace, hr⟩ := schedulePass_trace hn h
  have hm := htrace.moves
  refine ⟨p₁, ?_, hr⟩
  clear hr htrace
  induction hm with
  | refl => exact start
  | tail _ hmove ih => exact move _ _ ih hmove

/-- **The invariant rule** for a scheduling step and its calls. -/
theorem schedulePass_calls {I : List KVCall → Pass → Prop} (hn : s.running.Nodup)
    (h : s.schedulePass H C E = .ok p) (start : I [] (.start C s))
    (step : ∀ cs p c p', I cs p → Pass.Does H C E p c p' → I (cs ++ c) p') :
    ∃ p₁, I (s.scheduleCalls H C E) p₁ ∧ p₁.restoreSkipped = .ok p := by
  obtain ⟨p₁, htrace, hr⟩ := schedulePass_trace hn h
  exact ⟨p₁, htrace.doesAll.invariant start step, hr⟩

/-- What a call of `schedule` has done. -/
structure Scheduler.Schedules (H : BlockHasher) (C : SchedulerConfig) (E : Environment)
    (s : Scheduler) (p : Pass) (output : SchedulerOutput) (s' : Scheduler) : Prop where
  pass : s.schedulePass H C E = .ok p
  constraints : p.checkConstraints C = .ok ()
  output : ∃ common, output = p.makeOutput C common
  advances : p.sched.Advances C p.numScheduledTokens s'
  kvCacheManager : s'.kvCacheManager = p.sched.kvCacheManager.takeEvents.2
  after : Scheduler.updateAfterSchedule C
    { p.sched with
      encoderCacheManager := p.sched.encoderCacheManager.getFreedIds.2
      kvCacheManager := p.sched.kvCacheManager.takeEvents.2 } p.numScheduledTokens.entries = .ok s'

theorem schedule_ok {output : SchedulerOutput} {s' : Scheduler}
    (h : s.schedule H C E = .ok (output, s')) : ∃ p, s.Schedules H C E p output s' := by
  obtain ⟨p, hpass, h⟩ := bind_eq_ok.mp h
  obtain ⟨_, hcheck, h⟩ := bind_eq_ok.mp h
  obtain ⟨common, -, h⟩ := bind_eq_ok.mp h
  obtain ⟨s₁, hup, h⟩ := bind_eq_ok.mp h
  cases h
  obtain ⟨ha, hk⟩ := updateAfterSchedule_ok hup
  -- taking the events and the freed encoder inputs changes no field that `Advances` reads
  exact ⟨p, hpass, hcheck, ⟨common, rfl⟩, ⟨ha.running, ha.waiting, ha.ledger, ha.scheduled_mem,
    ha.mem_objects, ha.request⟩, hk, hup⟩

end Step

end InferenceServer
