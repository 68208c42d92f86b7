import InferenceServer.Sched.Update
import InferenceServer.Sched.Traces

/-!
# What the other entry points do

The effects of `update_from_output`, `add_request` and `finish_requests`, in the form in which the
invariants use them: which request object changes and how, what happens to the queues, and what is
recorded about finished requests.

A request that `check_stop` has stopped is stopped by any later `check_stop` on the same tokens
(`Request.StopsOnTokens`); therefore the second check that `update_from_output` makes when there
are pooler outputs never takes a stop back.

## Main results

* `freeBlocks_ok`, `freeRequest_ok`, `updateRequest_ok`, `finishRequest_ok`
-/

namespace InferenceServer

open Outcome

/-! ## Stopping -/

section Stopping

variable {r r' r'' : Request} {maxModelLen : Nat} {pooler : Option (List Int)} {stopped : Bool}

/-- `check_stop` sets a finished status and at most a stop reason, or changes nothing. -/
theorem Request.checkStop_ok (h : r.checkStop maxModelLen pooler = .ok (stopped, r')) :
    (stopped = false ∧ r' = r) ∨ (stopped = true ∧ ∃ status reason, status.isFinished = true ∧
      r' = { r with status, stopReason := reason }) := by
  unfold Request.checkStop at h
  split at h
  · cases h
    exact .inr ⟨rfl, _, _, rfl, rfl⟩
  split at h
  · split at h
    · cases h
      exact .inr ⟨rfl, _, _, rfl, rfl⟩
    · cases h
      exact .inl ⟨rfl, rfl⟩
  split at h
  · simp at h
  split at h
  · simp at h
  split at h
  · cases h
    exact .inr ⟨rfl, _, _, rfl, rfl⟩
  split at h
  · cases h
    exact .inr ⟨rfl, _, _, rfl, rfl⟩
  · cases h
    exact .inl ⟨rfl, rfl⟩

/-- What decides about a stop, the pooler output apart. -/
def Request.StopsOnTokens (r : Request) (maxModelLen : Nat) : Prop :=
  maxModelLen ≤ r.numTokens ∨ r.maxTokens ≤ r.numOutputTokens ∨
    (r.poolingParams = none ∧ ∃ sampling lastTokenId, r.samplingParams = some sampling ∧
      r.outputTokenIds.getLast? = some lastTokenId ∧
      ((sampling.ignoreEos = false ∧ r.eosTokenId = some lastTokenId) ∨
        lastTokenId ∈ sampling.stopTokenIds))

theorem Request.stopsOnTokens_of_checkStop (h : r.checkStop maxModelLen none = .ok (true, r')) :
    r.StopsOnTokens maxModelLen := by
  unfold Request.checkStop at h
  split at h
  next hlen => exact hlen.elim .inl fun h => .inr (.inl h)
  split at h
  · simp at h
  next hpool =>
  split at h
  · simp at h
  next sampling hs =>
  split at h
  · simp at h
  next lastTokenId hlast =>
  have hnone : r.poolingParams = none := by simpa using hpool
  split at h
  next heos => exact .inr (.inr ⟨hnone, sampling, lastTokenId, hs, hlast, .inl heos⟩)
  split at h
  next hstop => exact .inr (.inr ⟨hnone, sampling, lastTokenId, hs, hlast, .inr hstop⟩)
  · simp at h

theorem Request.StopsOnTokens.checkStop (hs : r.StopsOnTokens maxModelLen)
    (h : r.checkStop maxModelLen pooler = .ok (stopped, r')) : stopped = true := by
  unfold Request.checkStop at h
  split at h
  · cases h
    rfl
  next hlen =>
  rcases hs with hs | hs | ⟨hnone, sampling, lastTokenId, hs, hlast, hstop⟩
  · exact absurd (.inl hs) hlen
  · exact absurd (.inr hs) hlen
  · simp only [hnone, hs, hlast, Option.isSome_none, Bool.false_eq_true, if_false] at h
    split at h
    · cases h
      rfl
    next heos =>
    rw [if_pos (hstop.resolve_left heos)] at h
    cases h
    rfl

/-- The effect of new tokens on a request. -/
structure Request.TakesTokens (C : SchedulerConfig) (r : Request)
    (generated appended : List TokenId) (stopped : Bool) (r' : Request) : Prop where
  requestId : r'.requestId = r.requestId
  promptTokenIds : r'.promptTokenIds = r.promptTokenIds
  mmInputs : r'.mmInputs = r.mmInputs
  mmPositions : r'.mmPositions = r.mmPositions
  mmHashes : r'.mmHashes = r.mmHashes
  samplingParams : r'.samplingParams = r.samplingParams
  loraRequest : r'.loraRequest = r.loraRequest
  outputTokenIds : r'.outputTokenIds = r.outputTokenIds ++ appended
  prefix_generated : appended <+: generated
  complete : stopped = false → appended = generated
  numComputedTokens : r'.numComputedTokens = r.numComputedTokens
  status : stopped = false → r'.status = r.status
  finished : stopped = true → r'.isFinished = true
  short : stopped = false → appended ≠ [] → r'.numTokens < C.maxModelLen
  placeholders_sync : C.asyncScheduling = false →
    r'.numOutputPlaceholders = r.numOutputPlaceholders
  placeholders_nonneg : 0 ≤ r.numOutputPlaceholders → 0 ≤ r'.numOutputPlaceholders

theorem Request.TakesTokens.sameInputs {C : SchedulerConfig} {r r' : Request}
    {generated appended : List TokenId} {stopped : Bool}
    (h : r.TakesTokens C generated appended stopped r') : r.SameInputs r' :=
  ⟨h.requestId, h.promptTokenIds, h.mmInputs, h.mmPositions, h.mmHashes, h.samplingParams,
    h.loraRequest⟩

@[simp] theorem Request.numTokens_append (r : Request) (l : List TokenId) :
    (r.appendOutputTokenIds l).numTokens = r.numTokens + l.length := by
  simp [Request.numTokens, Request.allTokenIds, Request.appendOutputTokenIds, Nat.add_assoc]

theorem Request.append_append (r : Request) (l l' : List TokenId) :
    (r.appendOutputTokenIds l).appendOutputTokenIds l' = r.appendOutputTokenIds (l ++ l') := by
  simp [Request.appendOutputTokenIds]

/-- The loop of `_update_request_with_output` appends all tokens, or appends some and stops. -/
theorem Request.updateWithOutput_ok {ts ts' : List TokenId}
    (h : r.updateWithOutput maxModelLen ts = .ok (r', ts', stopped)) :
    (stopped = false ∧ ts' = ts ∧ r' = r.appendOutputTokenIds ts ∧
      (ts ≠ [] → r'.numTokens < maxModelLen)) ∨
    (stopped = true ∧ ts' <+: ts ∧ (∃ status reason, status.isFinished = true ∧
        r' = { r.appendOutputTokenIds ts' with status, stopReason := reason }) ∧
      ∃ r₀ : Request, r₀.checkStop maxModelLen none = .ok (true, r')) := by
  induction ts generalizing r ts' with
  | nil =>
    obtain ⟨rfl, rfl, rfl⟩ : r = r' ∧ [] = ts' ∧ false = stopped := by
      simpa [Request.updateWithOutput] using h
    exact .inl ⟨rfl, rfl, by simp [Request.appendOutputTokenIds], fun h => absurd rfl h⟩
  | cons t ts ih =>
    obtain ⟨⟨st, r₁⟩, hcheck, h⟩ := bind_eq_ok.mp h
    cases st with
    | true =>
      cases h
      refine .inr ⟨rfl, ⟨ts, rfl⟩, ?_, _, hcheck⟩
      rcases Request.checkStop_ok hcheck with ⟨hst, -⟩ | ⟨-, hr₁⟩
      · simp at hst
      · exact hr₁
    | false =>
      obtain ⟨⟨r₂, ts₂, st₂⟩, hrest, h⟩ := bind_eq_ok.mp h
      cases h
      have hshort : (r.appendOutputTokenIds [t]).numTokens < maxModelLen := by
        unfold Request.checkStop at hcheck
        split at hcheck
        · simp at hcheck
        next hlen => exact not_le.mp fun hle => hlen (.inl hle)
      rcases Request.checkStop_ok hcheck with ⟨-, rfl⟩ | ⟨hst, -⟩
      · rcases ih hrest with ⟨rfl, rfl, rfl, hlen⟩ | ⟨rfl, hpre, ⟨status, reason, hfin, rfl⟩, h₀⟩
        · refine .inl ⟨rfl, rfl, Request.append_append r [t] ts₂, fun _ => ?_⟩
          by_cases hts : ts₂ = []
          · subst hts
            simpa using hshort
          · exact hlen hts
        · refine .inr ⟨rfl, List.cons_prefix_cons.mpr ⟨rfl, hpre⟩, ⟨status, reason, hfin, ?_⟩, h₀⟩
          rw [Request.append_append]
          rfl
      · simp at hst

end Stopping

/-! ## Freeing -/

section Freeing

variable {C : SchedulerConfig} {E : Environment} {s s' : Scheduler} {rid : ReqId}

/-- The effect of `_free_blocks`. -/
structure Scheduler.FreesBlocks (s : Scheduler) (rid : ReqId) (s' : Scheduler) : Prop where
  finished : (s.request rid).isFinished = true
  mem : rid ∈ s.requests
  objects : s'.objects = s.objects
  running : s'.running = s.running
  waiting : s'.waiting = s.waiting
  requests : s'.requests = s.requests.filter (· ≠ rid)
  requestFinishedCalls : s'.requestFinishedCalls = s.requestFinishedCalls
  freedBlocks : s'.freedBlocks = s.freedBlocks ++ [rid]
  ends : s.Ends [] s'

theorem freeBlocks_ok (h : s.freeBlocks rid = .ok s') : s.FreesBlocks rid s' := by
  obtain ⟨_, hfin, h⟩ := bind_eq_ok.mp h
  obtain ⟨k, -, h⟩ := bind_eq_ok.mp h
  obtain ⟨_, hmem, h⟩ := bind_eq_ok.mp h
  cases h
  exact ⟨require_eq_ok.mp hfin, require_eq_ok.mp hmem, rfl, rfl, rfl, rfl, rfl, rfl, rfl, rfl⟩

/-- The effect of `_free_request`: the connector is asked, if there is one, and either the blocks
are kept or the request leaves `self.requests`. -/
structure Scheduler.FreesRequest (C : SchedulerConfig) (s : Scheduler) (rid : ReqId) (delay : Bool)
    (s' : Scheduler) : Prop where
  finished : (s.request rid).isFinished = true
  objects : s'.objects = s.objects
  running : s'.running = s.running
  waiting : s'.waiting = s.waiting
  requestFinishedCalls : s'.requestFinishedCalls =
    if C.hasConnector then s.requestFinishedCalls ++ [(rid, delay)] else s.requestFinishedCalls
  connector : C.hasConnector = false → delay = false
  kept : delay = true → s'.requests = s.requests ∧ s'.freedBlocks = s.freedBlocks
  freed : delay = false → rid ∈ s.requests ∧ s'.requests = s.requests.filter (· ≠ rid) ∧
    s'.freedBlocks = s.freedBlocks ++ [rid]
  ends : s.Ends [(rid, s.request rid)] s'

theorem connectorFinished_ok {delay : Bool} {params : Option KVTransferParams}
    (h : s.connectorFinished C E rid = .ok (delay, params, s')) :
    (C.hasConnector = false → delay = false) ∧ s' = { s with requestFinishedCalls :=
      if C.hasConnector then s.requestFinishedCalls ++ [(rid, delay)]
      else s.requestFinishedCalls } := by
  unfold Scheduler.connectorFinished at h
  split at h
  next hc =>
    split at h
    · cases h
      rw [if_pos hc]
      exact ⟨fun hf => absurd (hc.symm.trans hf) (by decide), rfl⟩
    · simp at h
  next hc =>
    cases h
    rw [if_neg hc]
    exact ⟨fun _ => rfl, rfl⟩

theorem freeRequest_ok {params : Option KVTransferParams}
    (h : s.freeRequest C E rid = .ok (params, s')) : ∃ delay, s.FreesRequest C rid delay s' := by
  obtain ⟨_, hfin, h⟩ := bind_eq_ok.mp h
  obtain ⟨⟨delay, params', s₁⟩, hconn, h⟩ := bind_eq_ok.mp h
  obtain ⟨hdelay, rfl⟩ := connectorFinished_ok hconn
  refine ⟨delay, ?_⟩
  cases delay with
  | true =>
    cases h
    exact ⟨require_eq_ok.mp hfin, rfl, rfl, rfl, rfl, hdelay, fun _ => ⟨rfl, rfl⟩,
      fun hf => (by cases hf), rfl, rfl⟩
  | false =>
    obtain ⟨s₂, hfree, h⟩ := bind_eq_ok.mp h
    cases h
    have hf := freeBlocks_ok hfree
    exact ⟨require_eq_ok.mp hfin, hf.objects, hf.running, hf.waiting, hf.requestFinishedCalls,
      hdelay, fun ht => (by cases ht), fun _ => ⟨hf.mem, hf.requests, hf.freedBlocks⟩,
      hf.ends.encoderCacheManager, hf.ends.finishedReqIds⟩

end Freeing

/-! ## The loop of `update_from_output` -/

/-- **A change of one request object**, with the KV cache at most. -/
structure Scheduler.TouchesOnly (s : Scheduler) (rid : ReqId) (s' : Scheduler) : Prop where
  running : s'.running = s.running
  waiting : s'.waiting = s.waiting
  frame : s.Frame s'
  others : ∀ id, id ≠ rid → s'.request id = s.request id
  mem_objects : ∀ id, id ∈ s'.objects → id = rid ∨ id ∈ s.objects
  objects_mem : ∀ id, id ∈ s.objects → id ∈ s'.objects
  ends : s.Ends [] s'

namespace Scheduler.TouchesOnly

variable {s s' s'' : Scheduler} {rid : ReqId}

theorem refl (s : Scheduler) (rid : ReqId) : s.TouchesOnly rid s :=
  ⟨rfl, rfl, .refl s, fun _ _ => rfl, fun _ => .inr, fun _ h => h, .refl s⟩

theorem trans (h : s.TouchesOnly rid s') (h' : s'.TouchesOnly rid s'') : s.TouchesOnly rid s'' :=
  ⟨h'.running.trans h.running, h'.waiting.trans h.waiting, h.frame.trans h'.frame,
    fun id hid => (h'.others id hid).trans (h.others id hid),
    fun id hid => (h'.mem_objects id hid).elim .inl (h.mem_objects id),
    fun id hid => h'.objects_mem id (h.objects_mem id hid), h.ends.trans h'.ends⟩

theorem modify (s : Scheduler) (rid : ReqId) (f : Request → Request) :
    s.TouchesOnly rid (s.modify rid f) :=
  ⟨rfl, rfl, ⟨rfl, rfl, rfl, rfl, rfl⟩, fun _ hid => Scheduler.request_modify_ne hid,
    fun _ hid => Scheduler.mem_objects_modify.mp hid,
    fun _ hid => Scheduler.mem_objects_modify.mpr (.inr hid), rfl, rfl⟩

theorem withKV (s : Scheduler) (rid : ReqId) (k : KVCacheManager) :
    s.TouchesOnly rid (s.withKV k) :=
  ⟨rfl, rfl, s.frame_withKV k, fun _ _ => rfl, fun _ => .inr, fun _ h => h, rfl, rfl⟩

end Scheduler.TouchesOnly

section Loop

variable {H : BlockHasher} {C : SchedulerConfig} {E : Environment} {m : ModelRunnerOutput}
  {s s' : Scheduler} {u u' : UpdatePass} {rid : ReqId} {index : Nat} {stopped : Bool}
  {generated appended : List TokenId}

theorem Request.TakesTokens.nothing (C : SchedulerConfig) (r : Request) :
    r.TakesTokens C [] [] false r :=
  ⟨rfl, rfl, rfl, rfl, rfl, rfl, rfl, by simp, List.prefix_rfl, fun _ => rfl, rfl, fun _ => rfl,
    fun h => by simp at h, fun _ h => absurd rfl h, fun _ => rfl, id⟩

theorem Request.takesTokens_of_updateWithOutput {r r' : Request}
    (h : r.updateWithOutput C.maxModelLen generated = .ok (r', appended, stopped)) :
    r.TakesTokens C generated appended stopped r' := by
  rcases Request.updateWithOutput_ok h with
    ⟨rfl, rfl, rfl, hshort⟩ | ⟨rfl, hpre, ⟨status, reason, hfin, rfl⟩, -⟩
  · exact ⟨rfl, rfl, rfl, rfl, rfl, rfl, rfl, rfl, List.prefix_rfl, fun _ => rfl, rfl, fun _ => rfl,
      fun h => by simp at h, fun _ => hshort, fun _ => rfl, id⟩
  · exact ⟨rfl, rfl, rfl, rfl, rfl, rfl, rfl, rfl, hpre, fun h => by simp at h, rfl,
      fun h => by simp at h, fun _ => hfin, fun h => by simp at h, fun _ => rfl, id⟩

/-- The new tokens of a request, from `_update_request_with_output` of either class. A stop is one
that every later check confirms. -/
theorem appendGenerated_ok (h : s.appendGenerated H C rid generated = .ok (s', appended, stopped)) :
    s.TouchesOnly rid s' ∧
      (s.request rid).TakesTokens C generated appended stopped (s'.request rid) ∧
      (stopped = true → (s'.request rid).StopsOnTokens C.maxModelLen) := by
  unfold Scheduler.appendGenerated at h
  split at h
  next hnil =>
    cases h
    rw [hnil]
    exact ⟨.refl s rid, .nothing C _, fun h => by simp at h⟩
  next hne =>
    obtain ⟨⟨r, ap, st⟩, hup, h⟩ := bind_eq_ok.mp h
    have htakes := Request.takesTokens_of_updateWithOutput hup
    have hstops : st = true → r.StopsOnTokens C.maxModelLen := by
      rintro rfl
      rcases Request.updateWithOutput_ok hup with ⟨h, -⟩ | ⟨-, -, -, r₀, hr₀⟩
      · simp at h
      · have := Request.stopsOnTokens_of_checkStop hr₀
        rcases Request.checkStop_ok hr₀ with ⟨h, -⟩ | ⟨-, status, reason, -, rfl⟩
        · simp at h
        · exact this
    cases hasync : C.asyncScheduling with
    | false =>
      simp only [hasync, Bool.false_eq_true, if_false] at h
      cases h
      rw [Scheduler.request_modify_self]
      exact ⟨.modify s rid _, htakes, hstops⟩
    | true =>
      simp only [hasync, if_true] at h
      obtain ⟨_, hnn, h⟩ := bind_eq_ok.mp h
      have htakes' : (s.request rid).TakesTokens C generated ap st
          (r.addPlaceholders (-ap.length)) :=
        { htakes with
          placeholders_sync := fun hf => absurd (hasync.symm.trans hf) (by decide)
          placeholders_nonneg := fun _ => require_eq_ok.mp hnn }
      split at h
      · obtain ⟨k, -, h⟩ := bind_eq_ok.mp h
        cases h
        rw [Scheduler.request_withKV, Scheduler.request_modify_self]
        exact ⟨(Scheduler.TouchesOnly.modify s rid _).trans (.withKV _ rid k), htakes', hstops⟩
      · cases h
        rw [Scheduler.request_modify_self]
        exact ⟨.modify s rid _, htakes', hstops⟩

/-- The check of the pooler output does not take a stop back. -/
theorem checkPooler_ok {r : Request} {st : Bool} {pooler : Option (List Int)}
    (hr : r.TakesTokens C generated appended st (s.request rid))
    (hs : st = true → (s.request rid).StopsOnTokens C.maxModelLen)
    (h : s.checkPooler C m rid index st = .ok (s', pooler, stopped)) :
    s.TouchesOnly rid s' ∧ r.TakesTokens C generated appended stopped (s'.request rid) := by
  unfold Scheduler.checkPooler at h
  split at h
  next =>
    cases h
    exact ⟨.refl s rid, hr⟩
  next =>
    split at h
    next => simp at h
    next =>
      obtain ⟨⟨st', r'⟩, hcheck, h⟩ := bind_eq_ok.mp h
      cases h
      refine ⟨.modify s rid _, ?_⟩
      rw [Scheduler.request_modify_self]
      rcases Request.checkStop_ok hcheck with ⟨rfl, rfl⟩ | ⟨rfl, status, reason, hfin, rfl⟩
      · cases st with
        | false => exact hr
        | true => exact absurd ((hs rfl).checkStop hcheck) (by decide)
      · exact { hr with
          complete := fun h => by simp at h
          status := fun h => by simp at h
          finished := fun _ => hfin
          short := fun h => by simp at h }

theorem recordNans_touches (s : Scheduler) (m : ModelRunnerOutput) (rid : ReqId) :
    s.TouchesOnly rid (s.recordNans m rid) ∧
      ∃ n, (s.recordNans m rid).request rid = { s.request rid with numNansInLogits := n } := by
  unfold Scheduler.recordNans
  split
  next n _ => exact ⟨.modify s rid _, n, Scheduler.request_modify_self⟩
  next => exact ⟨.refl s rid, _, rfl⟩

theorem assignDrafts_ok (h : s.assignDrafts E m rid index = .ok s') :
    s.TouchesOnly rid s' ∧ ∃ l, s'.request rid = { s.request rid with specTokenIds := l } := by
  unfold Scheduler.assignDrafts at h
  split at h
  next =>
    cases h
    exact ⟨.refl s rid, _, rfl⟩
  next =>
    split at h
    next => simp at h
    next =>
      cases h
      exact ⟨.modify s rid _, _, Scheduler.request_modify_self⟩

/-- The outputs of all clients. -/
def UpdatePass.allOutputs (u : UpdatePass) : List EngineCoreOutput :=
  (u.outputs.entries.map Prod.snd).flatten

theorem mem_allOutputs {o : EngineCoreOutput} :
    o ∈ u.allOutputs ↔ ∃ client l, u.outputs.get? client = some l ∧ o ∈ l := by
  unfold UpdatePass.allOutputs
  rw [List.mem_flatten]
  constructor
  · rintro ⟨l, hl, ho⟩
    obtain ⟨⟨client, l⟩, he, rfl⟩ := List.mem_map.mp hl
    exact ⟨client, l, Dict.get?_eq_some_iff.mpr he, ho⟩
  · rintro ⟨client, l, hl, ho⟩
    exact ⟨l, List.mem_map.mpr ⟨(client, l), Dict.get?_eq_some_iff.mp hl, rfl⟩, ho⟩

/-- Only the request of the round gets a new output. -/
theorem emitOutput_ok {pooler : Option (List Int)} {params : Option KVTransferParams}
    (h : u.emitOutput m rid appended pooler params = .ok u') :
    u'.sched = u.sched ∧ u'.stoppedRunningReqs = u.stoppedRunningReqs ∧
      u'.stoppedPreemptedReqs = u.stoppedPreemptedReqs ∧
      ∀ o ∈ u'.allOutputs, o ∈ u.allOutputs ∨ o.requestId = rid := by
  unfold UpdatePass.emitOutput at h
  split at h
  · cases h
    refine ⟨rfl, rfl, rfl, fun o ho => ?_⟩
    obtain ⟨client, l, hl, ho⟩ := mem_allOutputs.mp ho
    rw [Dict.get?_set] at hl
    split at hl
    next hclient =>
      cases hl
      rcases List.mem_append.mp ho with ho | ho
      · -- an output that was there before, under the client's key
        cases hg : u.outputs.get? (u.sched.request rid).clientIndex with
        | none => simp [Dict.getD_of_none hg] at ho
        | some l' =>
          rw [Dict.getD_of_get? hg] at ho
          exact .inl (mem_allOutputs.mpr ⟨_, l', hg, ho⟩)
      · obtain rfl := List.mem_singleton.mp ho
        exact .inr rfl
    next => exact .inl (mem_allOutputs.mpr ⟨client, l, hl, ho⟩)
  · obtain ⟨_, -, h⟩ := bind_eq_ok.mp h
    cases h
    exact ⟨rfl, rfl, rfl, fun o ho => .inl ho⟩

/-- What is recorded about a request that may have stopped. -/
structure Scheduler.Ledger.Records (C : SchedulerConfig) (l : Scheduler.Ledger) (rid : ReqId)
    (stopped : Bool) (l' : Scheduler.Ledger) : Prop where
  unstopped : stopped = false → l' = l
  stopped : stopped = true → ∃ delay, (C.hasConnector = false → delay = false) ∧
    l' =
      { requests := if delay then l.requests else l.requests.filter (· ≠ rid)
        requestFinishedCalls := if C.hasConnector then l.requestFinishedCalls ++ [(rid, delay)]
          else l.requestFinishedCalls
        freedBlocks := if delay then l.freedBlocks else l.freedBlocks ++ [rid] } ∧
    (delay = false → rid ∈ l.requests)

/-- **The effect of one round** of the loop of `update_from_output`, for a request that is in
`self.requests`; `r` is the request without its rejected drafts. -/
structure UpdatePass.Applies (C : SchedulerConfig) (u : UpdatePass) (rid : ReqId) (r : Request)
    (generated appended : List TokenId) (stopped : Bool) (u' : UpdatePass) : Prop where
  running : u'.sched.running = u.sched.running
  waiting : u'.sched.waiting = u.sched.waiting
  others : ∀ id, id ≠ rid → u'.sched.request id = u.sched.request id
  mem_objects : ∀ id, id ∈ u'.sched.objects → id = rid ∨ id ∈ u.sched.objects
  objects_mem : ∀ id, id ∈ u.sched.objects → id ∈ u'.sched.objects
  request : r.TakesTokens C generated appended stopped (u'.sched.request rid)
  records : u.sched.ledger.Records C rid stopped u'.sched.ledger
  stoppedRunningReqs : u'.stoppedRunningReqs =
    if stopped = true ∧ r.status = .running then u.stoppedRunningReqs ++ [rid]
    else u.stoppedRunningReqs
  stoppedPreemptedReqs : u'.stoppedPreemptedReqs =
    if stopped = true ∧ r.status ≠ .running then u.stoppedPreemptedReqs ++ [rid]
    else u.stoppedPreemptedReqs
  outputs : ∀ o ∈ u'.allOutputs, o ∈ u.allOutputs ∨ o.requestId = rid
  ends : ∃ r', r.SameInputs r' ∧
    u.sched.Ends (if stopped = true then [(rid, r')] else []) u'.sched

theorem Scheduler.FreesRequest.records {delay : Bool} (h : s.FreesRequest C rid delay s') :
    s.ledger.Records C rid true s'.ledger := by
  refine ⟨fun h => by simp at h, fun _ => ⟨delay, h.connector, ?_, fun hd => (h.freed hd).1⟩⟩
  unfold Scheduler.ledger
  cases delay with
  | true => simp [h.kept rfl, h.requestFinishedCalls]
  | false => simp [h.freed rfl, h.requestFinishedCalls]

theorem freeStopped_ok {statusBefore : RequestStatus} {params : Option KVTransferParams}
    (h : u.freeStopped C E rid statusBefore stopped = .ok (params, u')) :
    u'.sched.running = u.sched.running ∧ u'.sched.waiting = u.sched.waiting ∧
      u'.sched.objects = u.sched.objects ∧
      u.sched.ledger.Records C rid stopped u'.sched.ledger ∧ u'.outputs = u.outputs ∧
      u'.stoppedRunningReqs = (if stopped = true ∧ statusBefore = .running then
        u.stoppedRunningReqs ++ [rid] else u.stoppedRunningReqs) ∧
      u'.stoppedPreemptedReqs = (if stopped = true ∧ statusBefore ≠ .running then
        u.stoppedPreemptedReqs ++ [rid] else u.stoppedPreemptedReqs) ∧
      u.sched.Ends (if stopped = true then [(rid, u.sched.request rid)] else []) u'.sched := by
  cases stopped with
  | false =>
    cases h
    exact ⟨rfl, rfl, rfl, ⟨fun _ => rfl, fun h => by simp at h⟩, rfl, by simp, by simp, rfl, rfl⟩
  | true =>
    obtain ⟨⟨params', s⟩, hfree, h⟩ := bind_eq_ok.mp h
    obtain ⟨delay, hf⟩ := freeRequest_ok hfree
    cases h
    by_cases hst : statusBefore = .running
    · rw [if_pos hst]
      exact ⟨hf.running, hf.waiting, hf.objects, hf.records, rfl, by simp [hst], by simp [hst],
        hf.ends⟩
    · rw [if_neg hst]
      exact ⟨hf.running, hf.waiting, hf.objects, hf.records, rfl, by simp [hst], by simp [hst],
        hf.ends⟩

theorem Request.status_rejectDrafts (r : Request) (drafts generated : List TokenId) :
    (r.rejectDrafts drafts generated).status = r.status := by
  unfold Request.rejectDrafts
  split <;> rfl

/-- One round, once the rejected drafts are taken off. -/
theorem applyTokens_ok (hmem : rid ∈ u.sched.objects)
    (h : u.applyTokens H C E m rid index generated = .ok u') :
    ∃ appended stopped,
      u.Applies C rid (u.sched.request rid) generated appended stopped u' := by
  obtain ⟨⟨s₁, appended, st⟩, happ, h⟩ := bind_eq_ok.mp h
  obtain ⟨⟨s₂, pooler, stopped⟩, hpool, h⟩ := bind_eq_ok.mp h
  obtain ⟨⟨params, u₁⟩, hfree, h⟩ := bind_eq_ok.mp h
  obtain ⟨s₄, hdrafts, h⟩ := bind_eq_ok.mp h
  obtain ⟨ht₁, htakes₁, hstops⟩ := appendGenerated_ok happ
  obtain ⟨ht₂, htakes₂⟩ := checkPooler_ok htakes₁ hstops hpool
  obtain ⟨hrun, hwait, hobj, hrec, hout, hsr, hsp, hends⟩ := freeStopped_ok hfree
  obtain ⟨ht₃, n, hnans⟩ := recordNans_touches u₁.sched m rid
  obtain ⟨ht₄, l, hspec⟩ := assignDrafts_ok hdrafts
  obtain ⟨hsched, hsr', hsp', hout'⟩ := emitOutput_ok h
  -- the object changes before the request is freed and after, but not by freeing it
  have hbefore : u.sched.TouchesOnly rid s₂ := ht₁.trans ht₂
  have hafter : u₁.sched.TouchesOnly rid u'.sched := hsched ▸ ht₃.trans ht₄
  have hu₁ : ∀ id, u₁.sched.request id = s₂.request id := Scheduler.request_congr hobj
  refine ⟨appended, stopped, ?_⟩
  constructor
  · exact hafter.running.trans (hrun.trans hbefore.running)
  · exact hafter.waiting.trans (hwait.trans hbefore.waiting)
  · intro id hid
    rw [hafter.others id hid, hu₁ id, hbefore.others id hid]
  · intro id hid
    rcases hafter.mem_objects id hid with rfl | hid
    · exact .inl rfl
    · rw [hobj] at hid
      exact hbefore.mem_objects id hid
  · intro id hid
    apply hafter.objects_mem
    rw [hobj]
    exact hbefore.objects_mem id hid
  · rw [hsched, hspec, hnans, hu₁ rid]
    exact { htakes₂ with }
  · rw [hafter.frame.ledger, ← hbefore.frame.ledger]
    exact hrec
  · rw [hsr', hsr]
  · rw [hsp', hsp]
  · intro o ho
    rcases hout' o ho with ho | ho
    · refine .inl ?_
      rw [mem_allOutputs] at ho ⊢
      rw [← hout]
      exact ho
    · exact .inr ho
  · refine ⟨s₂.request rid, htakes₂.sameInputs, ?_⟩
    simpa using (hbefore.ends.trans hends).trans hafter.ends

variable {output : SchedulerOutput}

/-- **One round of the loop** of `update_from_output`. -/
theorem updateRequest_ok {e : ReqId × Int}
    (h : UpdatePass.updateRequest H C E output m e u = .ok u') :
    0 < e.2 ∧ ((e.1 ∉ u.sched.requests ∧ u' = u) ∨
      (e.1 ∈ u.sched.requests ∧ ∃ index generated appended stopped,
        m.reqIdToIndex.get? e.1 = some index ∧ m.generated index = .ok generated ∧
        u.Applies C e.1 ((u.sched.request e.1).rejectDrafts
          (output.scheduledSpecDecodeTokens.getD e.1 []) generated) generated appended stopped
          u')) := by
  obtain ⟨_, hpos, h⟩ := bind_eq_ok.mp h
  refine ⟨require_eq_ok.mp hpos, ?_⟩
  split at h
  next hmem => exact .inl ⟨hmem, (pure_eq_ok.mp h).symm⟩
  next hmem =>
    split at h
    next => simp at h
    next index hindex =>
      obtain ⟨generated, hgen, h⟩ := bind_eq_ok.mp h
      obtain ⟨appended, stopped, ha⟩ :=
        applyTokens_ok (Scheduler.mem_objects_modify.mpr (.inl rfl)) h
      refine .inr ⟨not_not.mp hmem, index, generated, appended, stopped, hindex, hgen, ?_⟩
      have ht := Scheduler.TouchesOnly.modify u.sched e.1 fun r =>
        r.rejectDrafts (output.scheduledSpecDecodeTokens.getD e.1 []) generated
      have hreq := ha.request
      have hsr := ha.stoppedRunningReqs
      have hsp := ha.stoppedPreemptedReqs
      have hends := ha.ends
      rw [Scheduler.request_modify_self] at hreq hsr hsp hends
      exact ⟨ha.running, ha.waiting, fun id hid => (ha.others id hid).trans (ht.others id hid),
        fun id hid => (ha.mem_objects id hid).elim .inl (ht.mem_objects id),
        fun id hid => ha.objects_mem id (ht.objects_mem id hid), hreq, ha.records, hsr, hsp,
        ha.outputs, hends.imp fun r' hr => ⟨hr.1, ht.ends.trans hr.2⟩⟩

/-- The loop leaves the queue alone. -/
theorem updateLoop_waiting {l : List (ReqId × Int)}
    (h : threadM (UpdatePass.updateRequest H C E output m) l u = .ok u') :
    u'.sched.waiting = u.sched.waiting := by
  refine threadM_invariant (I := fun _ u₁ => u₁.sched.waiting = u.sched.waiting)
    (fun e rest u₁ u₂ hI hstep => ?_) rfl h
  obtain ⟨-, ⟨-, rfl⟩ | ⟨-, _, _, _, _, -, -, ha⟩⟩ := updateRequest_ok hstep
  · exact hI
  · exact ha.waiting.trans hI

/-- The request is the same after its rejected drafts are taken off. -/
theorem Request.sameInputs_rejectDrafts (r : Request) (drafts generated : List TokenId) :
    r.SameInputs (r.rejectDrafts drafts generated) := by
  unfold Request.rejectDrafts
  split <;> exact ⟨rfl, rfl, rfl, rfl, rfl, rfl, rfl⟩

/-- One round leaves the requests the same. -/
theorem UpdatePass.Applies.sameInputs {drafts : List TokenId}
    (h : u.Applies C rid ((u.sched.request rid).rejectDrafts drafts generated) generated appended
      stopped u') : u.sched.SameInputs u'.sched := fun id => by
  by_cases hid : id = rid
  · subst hid
    exact (Request.sameInputs_rejectDrafts _ _ _).trans h.request.sameInputs
  · rw [h.others id hid]
    exact .refl _

/-- **The loop leaves the requests the same**, and the list of running requests. -/
theorem updateLoop_sameInputs {l : List (ReqId × Int)}
    (h : threadM (UpdatePass.updateRequest H C E output m) l u = .ok u') :
    u.sched.SameInputs u'.sched ∧ u'.sched.running = u.sched.running := by
  refine threadM_invariant (I := fun _ u₁ => u.sched.SameInputs u₁.sched ∧
    u₁.sched.running = u.sched.running) (fun e rest u₁ u₂ hI hstep => ?_) ⟨.refl _, rfl⟩ h
  obtain ⟨-, ⟨-, rfl⟩ | ⟨-, _, _, _, _, -, -, ha⟩⟩ := updateRequest_ok hstep
  · exact hI
  · exact ⟨hI.1.trans ha.sameInputs, ha.running.trans hI.2⟩

end Loop

/-! ## The end of `update_from_output` -/

section End

variable {H : BlockHasher} {C : SchedulerConfig} {E : Environment} {m : ModelRunnerOutput}
  {s s' : Scheduler} {u : UpdatePass} {output : SchedulerOutput}

theorem removeWaiting_ok {rs : List ReqId} (h : s.removeWaiting rs = .ok s') :
    ∃ waiting, s' = { s with waiting } ∧ waiting.ids.Perm (s.waiting.ids.filter (· ∉ rs)) ∧
      waiting.policy = s.waiting.policy := by
  unfold Scheduler.removeWaiting at h
  split at h
  next hnil =>
    cases h
    exact ⟨s.waiting, rfl, by simp [hnil], rfl⟩
  next =>
    obtain ⟨w, hw, h⟩ := bind_eq_ok.mp h
    exact ⟨w, (pure_eq_ok.mp h).symm, RequestQueue.ids_removeRequests hw,
      RequestQueue.policy_removeRequests hw⟩

/-- Requests that have been sent are freed, one after the other. -/
structure Scheduler.FreesSent (s s' : Scheduler) : Prop where
  objects : s'.objects = s.objects
  running : s'.running = s.running
  waiting : s'.waiting = s.waiting
  requestFinishedCalls : s'.requestFinishedCalls = s.requestFinishedCalls
  freed : ∃ sent : List ReqId, sent.Nodup ∧
    (∀ id ∈ sent, id ∈ s.requests ∧ (s.request id).isFinished = true) ∧
    s'.requests = s.requests.filter (· ∉ sent) ∧ s'.freedBlocks = s.freedBlocks ++ sent
  ends : s.Ends [] s'

theorem freeSentLoop_ok {l : List ReqId}
    (h : threadM (fun rid (s : Scheduler) => do
      require (rid ∈ s.requests) .keyError
      s.freeBlocks rid) l s = .ok s') : s.FreesSent s' := by
  induction l generalizing s with
  | nil =>
    obtain rfl := Except.ok.inj h
    exact ⟨rfl, rfl, rfl, rfl, ⟨[], List.nodup_nil, by simp, by simp, by simp⟩, .refl s⟩
  | cons rid l ih =>
    obtain ⟨s₁, h₁, h⟩ := threadM_cons_ok.mp h
    obtain ⟨_, -, h₁⟩ := bind_eq_ok.mp h₁
    have hf := freeBlocks_ok h₁
    have hs := ih h
    obtain ⟨sent, hn, hmem, hreq, hfreed⟩ := hs.freed
    refine ⟨hs.objects.trans hf.objects, hs.running.trans hf.running,
      hs.waiting.trans hf.waiting, hs.requestFinishedCalls.trans hf.requestFinishedCalls,
      ⟨rid :: sent, List.nodup_cons.mpr ⟨fun hid => ?_, hn⟩, ?_, ?_, ?_⟩,
      hf.ends.trans hs.ends⟩
    · -- a request that has been freed is not there to be freed again
      have := (hmem rid hid).1
      rw [hf.requests] at this
      simp at this
    · rintro id (_ | ⟨_, hid⟩)
      · exact ⟨hf.mem, hf.finished⟩
      · obtain ⟨h₁, h₂⟩ := hmem id hid
        rw [hf.requests] at h₁
        rw [Scheduler.request_congr hf.objects] at h₂
        exact ⟨List.mem_of_mem_filter h₁, h₂⟩
    · rw [hreq, hf.requests, List.filter_filter]
      exact List.filter_congr fun id _ => by
        by_cases h₁ : id = rid <;> by_cases h₂ : id ∈ sent <;> simp [h₁, h₂]
    · rw [hfreed, hf.freedBlocks, List.append_assoc]
      rfl

theorem updateFromKvXferFinished_ok (h : s.updateFromKvXferFinished m = .ok s') :
    s.FreesSent s' := by
  have hf := freeSentLoop_ok h
  exact ⟨hf.objects, hf.running, hf.waiting, hf.requestFinishedCalls, hf.freed,
    hf.ends.encoderCacheManager, hf.ends.finishedReqIds⟩

theorem foldl_finishedRequests (l : List (Nat × List ReqId)) (d : Dict Nat EngineCoreOutputs)
    (client : Nat) :
    ((l.foldl (fun ecos e => ecos.set e.1 { ecos.getD e.1 {} with finishedRequests := some e.2 })
      d).getD client {}).outputs = (d.getD client {}).outputs := by
  induction l generalizing d with
  | nil => rfl
  | cons e l ih =>
    rw [List.foldl_cons, ih, Dict.getD_set]
    split
    next hc => rw [hc]
    next => rfl

variable {ecos : Dict Nat EngineCoreOutputs}

/-- The outputs that are returned are those of the loop. -/
theorem engineCoreOutputs_ok (h : s.engineCoreOutputs u.outputs = (ecos, s')) :
    (∃ d, s' = { s with finishedReqIdsDict := d }) ∧
      ∀ o ∈ allEngineCoreOutputs ecos, o ∈ u.allOutputs := by
  have hbase : ∀ client, ((u.outputs.mapValues fun outs =>
      ({ outputs := outs } : EngineCoreOutputs)).getD client {}).outputs =
        u.outputs.getD client [] := fun client => by
    rw [Dict.getD, Dict.get?_mapValues, Dict.getD]
    cases u.outputs.get? client <;> rfl
  have hmem : ∀ d : Dict Nat EngineCoreOutputs,
      (∀ client, (d.getD client {}).outputs = u.outputs.getD client []) →
      ∀ o ∈ allEngineCoreOutputs d, o ∈ u.allOutputs := by
    intro d hd o ho
    obtain ⟨l, hl, ho⟩ := List.mem_flatten.mp ho
    obtain ⟨⟨client, eco⟩, he, rfl⟩ := List.mem_map.mp hl
    have hget := hd client
    rw [Dict.getD_of_get? (Dict.get?_eq_some_iff.mpr he)] at hget
    change o ∈ eco.outputs at ho
    rw [hget] at ho
    cases hg : u.outputs.get? client with
    | none => simp [Dict.getD_of_none hg] at ho
    | some l =>
      rw [Dict.getD_of_get? hg] at ho
      exact mem_allOutputs.mpr ⟨client, l, hg, ho⟩
  unfold Scheduler.engineCoreOutputs at h
  split at h
  next hd =>
    obtain ⟨rfl, rfl⟩ := Prod.mk.inj h
    exact ⟨⟨_, rfl⟩, hmem _ hbase⟩
  next d hd =>
    obtain ⟨rfl, rfl⟩ := Prod.mk.inj h
    exact ⟨⟨_, rfl⟩, hmem _ fun client => (foldl_finishedRequests _ _ client).trans (hbase client)⟩

/-- **The effect of `update_from_output`**: the loop over the scheduled requests, then stopped requests
leave the lists, then sent ones are freed. -/
structure Scheduler.UpdatesFrom (H : BlockHasher) (C : SchedulerConfig) (E : Environment)
    (output : SchedulerOutput) (m : ModelRunnerOutput) (s : Scheduler) (u : UpdatePass)
    (s' : Scheduler) : Prop where
  loop : threadM (UpdatePass.updateRequest H C E output m) output.numScheduledTokens.entries
    { sched := s } = .ok u
  objects : s'.objects = u.sched.objects
  running : s'.running = u.sched.running.filter (· ∉ u.stoppedRunningReqs)
  waiting : s'.waiting.ids.Perm (u.sched.waiting.ids.filter (· ∉ u.stoppedPreemptedReqs))
  policy : s'.waiting.policy = u.sched.waiting.policy
  requestFinishedCalls : s'.requestFinishedCalls = u.sched.requestFinishedCalls
  freed : ∃ sent : List ReqId, sent.Nodup ∧
    (∀ id ∈ sent, id ∈ u.sched.requests ∧ (u.sched.request id).isFinished = true) ∧
    s'.requests = u.sched.requests.filter (· ∉ sent) ∧
    s'.freedBlocks = u.sched.freedBlocks ++ sent
  ends : u.sched.Ends [] s'

theorem updateFromOutput_ok (h : s.updateFromOutput H C E output m = .ok (ecos, s')) :
    ∃ u, s.UpdatesFrom H C E output m u s' ∧
      ∀ o ∈ allEngineCoreOutputs ecos, o ∈ u.allOutputs := by
  obtain ⟨u, hloop, h₁⟩ := bind_eq_ok.mp h
  obtain ⟨s₁, hstop, h₂⟩ := bind_eq_ok.mp h₁
  obtain ⟨s₂, hsent, h₃⟩ := bind_eq_ok.mp h₂
  have heco : s₂.engineCoreOutputs u.outputs = (ecos, s') := pure_eq_ok.mp h₃
  obtain ⟨w, rfl, hw, hpolicy⟩ := removeWaiting_ok hstop
  have hf := updateFromKvXferFinished_ok hsent
  obtain ⟨⟨d, rfl⟩, hout⟩ := engineCoreOutputs_ok heco
  exact ⟨u, ⟨hloop, hf.objects, hf.running, hf.waiting ▸ hw, hf.waiting ▸ hpolicy,
    hf.requestFinishedCalls, hf.freed, hf.ends.encoderCacheManager, hf.ends.finishedReqIds⟩, hout⟩

/-- `update_from_output` leaves the requests the same, and starts none. -/
theorem updateFromOutput_sameInputs (h : s.updateFromOutput H C E output m = .ok (ecos, s')) :
    s.SameInputs s' ∧ s'.running ⊆ s.running := by
  obtain ⟨u, hu, -⟩ := updateFromOutput_ok h
  obtain ⟨hinputs, hrun⟩ := updateLoop_sameInputs hu.loop
  refine ⟨hinputs.trans (.of_objects hu.objects), fun id hid => ?_⟩
  rw [hu.running] at hid
  exact hrun ▸ List.mem_of_mem_filter hid

end End

/-! ## Arrivals and aborts -/

section Other

variable {C : SchedulerConfig} {E : Environment} {s s' : Scheduler} {rid : ReqId}

/-- The effect of `add_request`. -/
structure Scheduler.Adds (s : Scheduler) (r : Request) (s' : Scheduler) : Prop where
  waiting : s'.waiting.ids.Perm (r.requestId :: s.waiting.ids)
  policy : s'.waiting.policy = s.waiting.policy
  running : s'.running = s.running
  objects : s'.objects = s.objects.set r.requestId r
  requests : s'.requests = addToSet s.requests r.requestId
  requestFinishedCalls : s'.requestFinishedCalls = s.requestFinishedCalls
  freedBlocks : s'.freedBlocks = s.freedBlocks
  finishedReqIds : s'.finishedReqIds = s.finishedReqIds
  encoderCacheManager : s'.encoderCacheManager = s.encoderCacheManager

theorem addRequest_ok {r : Request} (h : s.addRequest r = .ok s') : s.Adds r s' := by
  obtain ⟨w, hw, h₁⟩ := bind_eq_ok.mp h
  cases h₁
  exact ⟨RequestQueue.ids_addRequest hw, RequestQueue.policy_addRequest hw, rfl, rfl, rfl, rfl,
    rfl, rfl, rfl⟩

theorem Scheduler.Adds.request {r : Request} (h : s.Adds r s') (id : ReqId) :
    s'.request id = if id = r.requestId then r else s.request id := by
  rw [Scheduler.request, h.objects, Dict.getD_set]
  rfl

theorem removeRunningLoop_ok {l : List ReqId} (hn : s.running.Nodup)
    (h : threadM Scheduler.removeRunning l s = .ok s') :
    s' = { s with running := s.running.filter (· ∉ l) } := by
  induction l generalizing s with
  | nil =>
    cases h
    simp
  | cons rid l ih =>
    obtain ⟨s₁, h₁, h⟩ := threadM_cons_ok.mp h
    obtain ⟨_, -, h₁⟩ := bind_eq_ok.mp h₁
    cases h₁
    rw [ih (hn.erase rid) h]
    congr 1
    rw [hn.erase_eq_filter, List.filter_filter]
    exact List.filter_congr fun id _ => by
      by_cases h₁ : id = rid <;> by_cases h₂ : id ∈ l <;> simp [h₁, h₂]

variable {status : RequestStatus}

/-- The effect of finishing a request in the second pass of `finish_requests`. -/
theorem finishRequest_ok (h : s.finishRequest C E status rid = .ok s') :
    s'.objects = (s.modify rid fun r => r.withStatus status).objects ∧
      s'.running = s.running ∧ s'.waiting = s.waiting ∧
      s.ledger.Records C rid true s'.ledger ∧
      s.Ends [(rid, (s.request rid).withStatus status)] s' := by
  obtain ⟨⟨params, s₁⟩, hfree, h⟩ := bind_eq_ok.mp h
  cases h
  obtain ⟨delay, hf⟩ := freeRequest_ok hfree
  have hends := hf.ends
  rw [Scheduler.request_modify_self] at hends
  exact ⟨hf.objects, hf.running, hf.waiting, hf.records, hends.encoderCacheManager,
    hends.finishedReqIds⟩

/-- The second pass of `finish_requests` leaves the queue alone. -/
theorem finishLoop_waiting {l : List ReqId}
    (h : threadM (Scheduler.finishRequest C E status) l s = .ok s') : s'.waiting = s.waiting :=
  threadM_invariant (I := fun _ s₁ => s₁.waiting = s.waiting)
    (fun _ _ _ _ hI hstep => (finishRequest_ok hstep).2.2.1.trans hI) rfl h

/-- **The effect of `finish_requests`**: the requests that are there leave the lists, and are then
finished one after the other. -/
theorem finishRequests_ok {ids : List ReqId} (hn : s.running.Nodup)
    (h : s.finishRequests C E ids status = .ok s') :
    status.isFinished = true ∧ ∃ valid : List ReqId, valid.Nodup ∧
      (∀ id, id ∈ valid ↔ id ∈ ids ∧ id ∈ s.requests) ∧ ∃ waiting,
      (waiting.ids.Perm (s.waiting.ids.filter
        (· ∉ valid.filter fun rid => (s.request rid).status ≠ .running)) ∧
        waiting.policy = s.waiting.policy) ∧
      threadM (Scheduler.finishRequest C E status) valid
        { s with
          running := s.running.filter
            (· ∉ valid.filter fun rid => (s.request rid).status = .running)
          waiting } = .ok s' := by
  obtain ⟨_, hst, h₁⟩ := bind_eq_ok.mp h
  obtain ⟨s₁, hrun, h₂⟩ := bind_eq_ok.mp h₁
  obtain ⟨s₂, hwait, h₃⟩ := bind_eq_ok.mp h₂
  obtain rfl := removeRunningLoop_ok hn hrun
  obtain ⟨w, rfl, hw⟩ := removeWaiting_ok hwait
  exact ⟨require_eq_ok.mp hst, ids.dedup.filter (· ∈ s.requests),
    (List.nodup_dedup ids).filter _, fun id => by simp, w, hw, h₃⟩

/-- `finish_requests` leaves the requests the same, and starts none. -/
theorem finishRequests_sameInputs {ids : List ReqId}
    (hn : s.running.Nodup) (h : s.finishRequests C E ids status = .ok s') :
    s.SameInputs s' ∧ s'.running ⊆ s.running := by
  obtain ⟨-, valid, -, -, w, -, hloop⟩ := finishRequests_ok hn h
  refine threadM_invariant (I := fun _ s₁ => s.SameInputs s₁ ∧ s₁.running ⊆ s.running)
    (fun rid rest s₁ s₂ hI hstep => ?_) ?start hloop
  case start => exact ⟨.of_objects rfl, List.filter_sublist.subset⟩
  obtain ⟨hobj, hrun, -⟩ := finishRequest_ok hstep
  exact ⟨hI.1.trans (.of_modify hobj fun _ => ⟨rfl, rfl, rfl, rfl, rfl, rfl, rfl⟩), hrun ▸ hI.2⟩

end Other

end InferenceServer
