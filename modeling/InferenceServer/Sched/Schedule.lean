import InferenceServer.Sched.State

/-!
# `Scheduler.schedule`

One scheduling step (`Scheduler.schedule`, `vllm/v1/core/sched/scheduler.py`): a loop over the
running requests, which preempts requests when the KV cache is full, a loop over the waiting
requests, and the construction of the `SchedulerOutput`.

The local variables of the method are the fields of `Pass`. A loop is a function of a fuel. A turn of
the first loop moves `req_index` on, and one of the second takes a request from the queue, so that
there are no more turns than the fuel that `schedule` passes.

The draft tokens in the output are a copy. The source shares the list with the request; it is
trimmed again only if the request is scheduled a second time with these drafts.
-/

namespace InferenceServer

open Outcome

/-! ## The number of tokens -/

/-- A prefill is cut at `long_prefill_token_threshold`, if that is set. -/
def SchedulerConfig.capPrefill (C : SchedulerConfig) (n : Int) : Int :=
  if 0 < C.longPrefillTokenThreshold ∧ C.longPrefillTokenThreshold < n then
    C.longPrefillTokenThreshold
  else n

/-- The number of new tokens of a running request, before its encoder inputs are looked at. The
input position stays below the last position of the model. -/
def SchedulerConfig.numNewTokensRunning (C : SchedulerConfig) (r : Request) (tokenBudget : Int) :
    Int :=
  let n := C.capPrefill (r.numTokensWithSpec + r.numOutputPlaceholders - r.numComputedTokens)
  min (min n tokenBudget) (C.maxModelLen - 1 - r.numComputedTokens)

/-- The loop of `_try_schedule_encoder_inputs` over the placeholders of the request: the inputs
to schedule, the number of decoder tokens, and the encoder budget that is left. -/
def encoderInputsLoop (C : SchedulerConfig) (m : EncoderCacheManager) (r : Request)
    (numComputedTokens : Int) :
    List (PlaceholderRange × Nat) → List Nat → Int → Int → List Nat × Int × Int
  | [], inputs, n, budget => (inputs, n, budget)
  | (pos, i) :: rest, inputs, n, budget =>
    -- the input is not needed in this step
    if numComputedTokens + n ≤ pos.offset then (inputs, n, budget)
    -- the input is in the KV cache, or its encoder output is there
    else if (pos.offset + pos.length : Int) ≤ numComputedTokens then
      encoderInputsLoop C m r numComputedTokens rest inputs n budget
    else if m.hasCache r i then encoderInputsLoop C m r numComputedTokens rest inputs n budget
    else if C.disableChunkedMmInput = true ∧ numComputedTokens < pos.offset ∧
        numComputedTokens + n < pos.offset + pos.length then
      (inputs, pos.offset - numComputedTokens, budget)
    else if m.canAllocate r i = false ∨ budget < pos.length then
      -- only the tokens before the input, or none if a cache hit ends inside it
      (inputs, if numComputedTokens < pos.offset then pos.offset - numComputedTokens else 0, budget)
    else encoderInputsLoop C m r numComputedTokens rest (inputs ++ [i]) n (budget - pos.length)

/-- `_try_schedule_encoder_inputs`. -/
def tryScheduleEncoderInputs (C : SchedulerConfig) (m : EncoderCacheManager) (r : Request)
    (numComputedTokens numNewTokens encoderBudget : Int) : List Nat × Int × Int :=
  if numNewTokens = 0 ∨ r.hasEncoderInputs = false then ([], numNewTokens, encoderBudget)
  else encoderInputsLoop C m r numComputedTokens r.mmPositions.zipIdx [] numNewTokens encoderBudget

/-- The encoder outputs of the inputs get a place in the cache. -/
def EncoderCacheManager.allocateAll (m : EncoderCacheManager) (r : Request) (inputs : List Nat) :
    EncoderCacheManager :=
  inputs.foldl (fun m i => m.allocate r i) m

/-! ## Local variables -/

/-- The local variables of `schedule`, with the scheduler. -/
structure Pass where
  sched : Scheduler
  scheduledNewReqs : List ReqId := []
  scheduledResumedReqs : List ReqId := []
  scheduledRunningReqs : List ReqId := []
  preemptedReqs : List ReqId := []
  structuredOutputRequestIds : Dict ReqId Nat := ∅
  reqToNewBlockIds : Dict ReqId (List (List BlockId)) := ∅
  numScheduledTokens : Dict ReqId Int := ∅
  tokenBudget : Int
  scheduledEncoderInputs : Dict ReqId (List Nat) := ∅
  encoderBudget : Int
  scheduledSpecDecodeTokens : Dict ReqId (List TokenId) := ∅
  reqIndex : Nat := 0
  scheduledLoras : List Int := []
  skippedWaitingRequests : RequestQueue
deriving DecidableEq

/-- The local variables at the start. -/
def Pass.start (C : SchedulerConfig) (s : Scheduler) : Pass :=
  { sched := s
    tokenBudget := C.maxNumScheduledTokens
    encoderBudget := C.maxNumEncoderInputTokens
    skippedWaitingRequests := createRequestQueue C.policy }

/-! ## Preemption -/

/-- The lexicographic order of `(priority, arrival_time)`. -/
def Request.keyLt (r r' : Request) : Bool :=
  r.priority < r'.priority || (r.priority = r'.priority && r.arrivalTime < r'.arrivalTime)

/-- Python's `max` with the key `(priority, arrival_time)`: the first of the largest. -/
def Scheduler.maxByKey (s : Scheduler) : List ReqId → ReqId → ReqId
  | [], best => best
  | rid :: l, best =>
    s.maxByKey l (if (s.request best).keyLt (s.request rid) then rid else best)

/-- The running request to preempt. -/
def Scheduler.victim (C : SchedulerConfig) (s : Scheduler) : Except PyError ReqId :=
  match C.policy, s.running with
  | .priority, [] => .error .valueError
  | .priority, rid :: l => .ok (s.maxByKey l rid)
  | .fcfs, l =>
    match l.getLast? with
    | none => .error .indexError
    | some rid => .ok rid

/-- `self.running.remove(victim)`, or `self.running.pop()` where the victim is the last one. -/
def Scheduler.removeVictim (C : SchedulerConfig) (s : Scheduler) (v : ReqId) : List ReqId :=
  match C.policy with
  | .priority => s.running.erase v
  | .fcfs => s.running.dropLast

/-- The request with another status. -/
def Request.withStatus (r : Request) (status : RequestStatus) : Request := { r with status }

/-- The request with another number of computed tokens. -/
def Request.withComputed (r : Request) (numComputedTokens : Int) : Request :=
  { r with numComputedTokens }

/-- A preempted request is to be computed from the start. -/
def Request.preempted (r : Request) : Request :=
  { r with status := .preempted, numComputedTokens := 0 }

/-- Preempt a running request: its blocks are freed, and it goes back to the waiting queue. -/
def Scheduler.preempt (C : SchedulerConfig) (s : Scheduler) (v : ReqId) :
    Except PyError Scheduler := do
  let running := s.removeVictim C v
  let k ← s.kvCacheManager.free v
  let s' := { s with running, kvCacheManager := k }.modify v Request.preempted
  let waiting ← s'.waiting.prependRequest (s'.request v).queueEntry
  return { s' with waiting }

section

variable (H : BlockHasher) (C : SchedulerConfig) (E : Environment)

/-- The inner loop over the running requests: preempt until the slots can be allocated, or the
request itself has been preempted. Returns the new blocks, if there are any. -/
def Scheduler.allocateOrPreempt (rid : ReqId) (numNewTokens : Int) :
    Nat → Scheduler → List ReqId →
      Except PyError (Option (List (List BlockId)) × Scheduler × List ReqId)
  | 0, _, _ => .error .outOfFuel
  | fuel + 1, s, preempted => do
    let (newBlocks, k) ← s.kvCacheManager.allocateSlots H (s.request rid) numNewTokens 0
      s.kvCacheManager.createEmptyBlockList C.numLookaheadTokens false
    let s₁ := s.withKV k
    match newBlocks with
    | some blocks => return (some blocks, s₁, preempted)
    | none => do
      let v ← s₁.victim C
      let s₂ ← s₁.preempt C v
      if v = rid then return (none, s₂, preempted ++ [v])
      else s₂.allocateOrPreempt rid numNewTokens fuel (preempted ++ [v])

/-! ## Running requests -/

/-- What a request schedules: the number of its tokens, its encoder inputs, and the encoder
budget that is left. -/
structure Demand where
  encoderInputs : List Nat
  numNewTokens : Int
  encoderBudget : Int

/-- The demand of a running request. -/
def Pass.runningDemand (p : Pass) (r : Request) : Demand :=
  let n := C.numNewTokensRunning r p.tokenBudget
  let (inputs, n, budget) := tryScheduleEncoderInputs C p.sched.encoderCacheManager r
    r.numComputedTokens n p.encoderBudget
  ⟨inputs, n, budget⟩

/-- The draft tokens of a request that are scheduled, if there are any. -/
def Request.scheduledDrafts (r : Request) (numNewTokens : Int) : Option (List TokenId) :=
  let n := numNewTokens + r.numComputedTokens - r.numTokens
  if r.specTokenIds ≠ [] ∧ 0 < n then some (r.specTokenIds.take n.toNat) else none

/-- The drafts that are not scheduled are dropped. -/
def Request.trimDrafts (r : Request) (numNewTokens : Int) : Request :=
  match r.scheduledDrafts numNewTokens with
  | some drafts => { r with specTokenIds := drafts }
  | none => r

/-- Record the encoder inputs of a request. -/
def Pass.allocateEncoder (p : Pass) (rid : ReqId) (d : Demand) : Pass :=
  if d.encoderInputs = [] then p
  else
    { p with
      sched := { p.sched with
        encoderCacheManager :=
          p.sched.encoderCacheManager.allocateAll (p.sched.request rid) d.encoderInputs }
      scheduledEncoderInputs := p.scheduledEncoderInputs.set rid d.encoderInputs
      encoderBudget := d.encoderBudget }

/-- A running request is scheduled. -/
def Pass.scheduleRunning (p : Pass) (rid : ReqId) (d : Demand) (newBlocks : List (List BlockId)) :
    Pass :=
  let r := p.sched.request rid
  let p := { p with
    scheduledRunningReqs := p.scheduledRunningReqs ++ [rid]
    structuredOutputRequestIds :=
      if r.useStructuredOutput then p.structuredOutputRequestIds.set rid p.reqIndex
      else p.structuredOutputRequestIds
    reqToNewBlockIds := p.reqToNewBlockIds.set rid newBlocks
    numScheduledTokens := p.numScheduledTokens.set rid d.numNewTokens
    tokenBudget := p.tokenBudget - d.numNewTokens
    reqIndex := p.reqIndex + 1
    scheduledSpecDecodeTokens :=
      match r.scheduledDrafts d.numNewTokens with
      | some drafts => p.scheduledSpecDecodeTokens.set rid drafts
      | none => p.scheduledSpecDecodeTokens
    sched := p.sched.modify rid fun r => r.trimDrafts d.numNewTokens }
  p.allocateEncoder rid d

/-- The body of the loop over the running requests, with whether the loop goes on. -/
def Pass.visitRunning (p : Pass) (rid : ReqId) : Except PyError (Bool × Pass) :=
  let d := p.runningDemand C (p.sched.request rid)
  if d.numNewTokens = 0 then .ok (true, { p with reqIndex := p.reqIndex + 1 })
  else do
    let (newBlocks, s, preempted) ← p.sched.allocateOrPreempt H C rid d.numNewTokens
      p.sched.running.length p.preemptedReqs
    let p := { p with sched := s, preemptedReqs := preempted }
    match newBlocks with
    | none => return (false, p)
    | some blocks => return (true, p.scheduleRunning rid d blocks)

/-- The loop over the running requests. -/
def runningLoop : Nat → Pass → Except PyError Pass
  | 0, p => if p.reqIndex < p.sched.running.length ∧ 0 < p.tokenBudget then .error .outOfFuel
    else .ok p
  | fuel + 1, p =>
    match p.sched.running[p.reqIndex]? with
    | none => .ok p
    | some rid =>
      if 0 < p.tokenBudget then do
        let (goOn, p') ← p.visitRunning H C rid
        if goOn then runningLoop fuel p' else return p'
      else .ok p

/-! ## LoRA adapters -/

/-- The adapters of the running requests that are scheduled. -/
def Pass.recordLoras (p : Pass) : Except PyError Pass :=
  match C.maxLoras with
  | none => .ok p
  | some maxLoras => do
    let loras := (p.scheduledRunningReqs.filterMap fun rid =>
      (p.sched.request rid).loraRequest.bind fun l =>
        if 0 < l.loraIntId then some l.loraIntId else none).dedup
    require (loras.length ≤ maxLoras) (.assertionError .scheduleLora)
    return { p with scheduledLoras := loras }

/-- Admitting the request would exceed `max_loras`. -/
def Pass.exceedsLoras (p : Pass) (r : Request) : Bool :=
  match C.maxLoras, r.loraRequest with
  | some maxLoras, some l => p.scheduledLoras.length = maxLoras ∧ l.loraIntId ∉ p.scheduledLoras
  | _, _ => false

/-- The adapter of an admitted request. -/
def Pass.addLora (p : Pass) (r : Request) : List Int :=
  match C.maxLoras, r.loraRequest with
  | some _, some l => addToSet p.scheduledLoras l.loraIntId
  | _, _ => p.scheduledLoras

/-! ## Waiting requests -/

/-- The number of tokens in blocks that have been received. The last token of the request is
computed again, to sample the next one. -/
def SchedulerConfig.numReceivedTokens (C : SchedulerConfig) (r : Request)
    (blockIds : List BlockId) : Int :=
  let n : Int := min (blockIds.length * C.blockSize : Nat) r.numTokens
  if n = r.numTokens then n - 1 else n

/-- `_update_waiting_for_remote_kv`: once the blocks of the request have been received, they are
cached, and what they hold counts as computed. -/
def Scheduler.updateWaitingForRemoteKv (s : Scheduler) (rid : ReqId) :
    Except PyError (Bool × Scheduler) := do
  require (C.hasConnector = true) (.assertionError .updateWaitingForRemoteKv)
  if rid ∉ s.finishedRecvingKvReqIds then return (false, s)
  else
    match s.kvCacheManager.getBlockIds rid with
    | [blockIds] => do
      let numComputedTokens := C.numReceivedTokens (s.request rid) blockIds
      let k ← s.kvCacheManager.cacheBlocks H (s.request rid) numComputedTokens
      let s := { s with
        kvCacheManager := k
        finishedRecvingKvReqIds := s.finishedRecvingKvReqIds.filter (· ≠ rid) }
      return (true, s.modify rid fun r => r.withComputed numComputedTokens)
    | _ => .error .valueError

/-- What a waiting request waits for: the status is `WAITING` or `PREEMPTED` once it is there.
Returns whether the request can be scheduled. -/
def Scheduler.resolveStatus (s : Scheduler) (rid : ReqId) : Except PyError (Bool × Scheduler) :=
  match (s.request rid).status with
  | .waitingForRemoteKvs => do
    let (ready, s') ← s.updateWaitingForRemoteKv H C rid
    if ready then return (true, s'.modify rid fun r => r.withStatus .waiting)
    else return (false, s')
  | .waitingForFsm =>
    if E.grammarReady rid then .ok (true, s.modify rid fun r => r.withStatus .waiting)
    else .ok (false, s)
  | _ => .ok (true, s)

/-- The request at the head of the queue goes to the queue of skipped requests. -/
def Pass.skipWaiting (p : Pass) : Except PyError Pass := do
  let (e, waiting) ← p.sched.waiting.popRequest
  let skipped ← p.skippedWaitingRequests.prependRequest e
  return { p with sched := { p.sched with waiting }, skippedWaitingRequests := skipped }

/-- What is already computed of a waiting request. -/
structure ComputedTokens where
  newComputedBlocks : List (List BlockId)
  numNewLocalComputedTokens : Int
  numExternalComputedTokens : Int
  loadKvAsync : Bool
  numComputedTokens : Int

/-- The tokens of a waiting request that are cached locally or at the connector. A request whose
blocks have been received has computed tokens already. -/
def Scheduler.getComputedTokens (s : Scheduler) (r : Request) :
    Except PyError (ComputedTokens × Scheduler) :=
  if r.numComputedTokens = 0 then do
    let (blocks, numLocal, k) ← s.kvCacheManager.getComputedBlocks H r
    let (numExternal, loadAsync) :=
      if C.hasConnector then E.getNumNewMatchedTokens r numLocal else (0, false)
    return (⟨blocks, numLocal, numExternal, loadAsync, numLocal + numExternal⟩,
      s.withKV k)
  else .ok (⟨s.kvCacheManager.createEmptyBlockList, 0, 0, false, r.numComputedTokens⟩, s)

/-- The demand of a waiting request: it is skipped, it ends the loop, or it is to be scheduled. -/
inductive WaitingDemand where
  | skip
  | stop
  | demand (d : Demand)

/-- The demand of a waiting request. -/
def Pass.waitingDemand (p : Pass) (r : Request) (ct : ComputedTokens) :
    Except PyError WaitingDemand :=
  if ct.loadKvAsync then do
    require (0 < ct.numExternalComputedTokens) (.assertionError .schedule)
    return .demand ⟨[], 0, p.encoderBudget⟩
  else
    let n := C.capPrefill (r.numTokens - ct.numComputedTokens)
    if C.chunkedPrefillEnabled = false ∧ p.tokenBudget < n then .ok .skip
    else do
      let n := min n p.tokenBudget
      require (0 < n) (.assertionError .schedule)
      let (inputs, n, budget) := tryScheduleEncoderInputs C p.sched.encoderCacheManager r
        ct.numComputedTokens n p.encoderBudget
      if n = 0 then return .stop else return .demand ⟨inputs, n, budget⟩

/-- The request waits for its blocks to be received. -/
def Pass.parkRemote (p : Pass) (rid : ReqId) : Except PyError Pass := do
  let p ← p.skipWaiting
  return { p with sched := p.sched.modify rid fun r => r.withStatus .waitingForRemoteKvs }

/-- A request that starts to run. -/
def Request.admitted (r : Request) (numComputedTokens : Int) : Request :=
  { r with
    status := .running
    numComputedTokens
    numCachedTokens := if r.numCachedTokens < 0 then numComputedTokens else r.numCachedTokens }

/-- The request is taken from the queue and starts to run. -/
def Pass.admitWaiting (p : Pass) (rid : ReqId) (d : Demand) (ct : ComputedTokens) :
    Except PyError Pass := do
  let (_, waiting) ← p.sched.waiting.popRequest
  let r := p.sched.request rid
  require (r.status = .waiting ∨ r.status = .preempted) .runtimeError
  let p := { p with
    sched := { p.sched with waiting, running := p.sched.running ++ [rid] }.modify rid fun r =>
      r.admitted ct.numComputedTokens
    structuredOutputRequestIds :=
      if r.useStructuredOutput then p.structuredOutputRequestIds.set rid p.reqIndex
      else p.structuredOutputRequestIds
    reqIndex := p.reqIndex + 1
    scheduledNewReqs :=
      if r.status = RequestStatus.waiting then p.scheduledNewReqs ++ [rid] else p.scheduledNewReqs
    scheduledResumedReqs :=
      if r.status = RequestStatus.waiting then p.scheduledResumedReqs
      else p.scheduledResumedReqs ++ [rid]
    scheduledLoras := p.addLora C r
    reqToNewBlockIds := p.reqToNewBlockIds.set rid (p.sched.kvCacheManager.getBlockIds rid)
    numScheduledTokens := p.numScheduledTokens.set rid d.numNewTokens
    tokenBudget := p.tokenBudget - d.numNewTokens }
  return p.allocateEncoder rid d

/-- Allocate the slots of a waiting request and take it from the queue, unless they do not
fit. -/
def Pass.allocateWaiting (p : Pass) (rid : ReqId) (d : Demand) (ct : ComputedTokens) :
    Except PyError (Bool × Pass) := do
  let (newBlocks, k) ← p.sched.kvCacheManager.allocateSlots H (p.sched.request rid)
    (d.numNewTokens + ct.numExternalComputedTokens) ct.numNewLocalComputedTokens
    ct.newComputedBlocks C.numLookaheadTokens ct.loadKvAsync
  let p := { p with sched := p.sched.withKV k }
  match newBlocks with
  | none => return (false, p)
  | some _ =>
    if ct.loadKvAsync then do
      let p ← p.parkRemote rid
      return (true, p)
    else do
      let p ← p.admitWaiting C rid d ct
      return (true, p)

/-- Schedule a waiting request that waits for nothing else. -/
def Pass.scheduleWaiting (p : Pass) (rid : ReqId) : Except PyError (Bool × Pass) := do
  let (ct, s) ← p.sched.getComputedTokens H C E (p.sched.request rid)
  let p := { p with sched := s }
  match ← p.waitingDemand C (p.sched.request rid) ct with
  | .skip => do
    let p ← p.skipWaiting
    return (true, p)
  | .stop => return (false, p)
  | .demand d => p.allocateWaiting H C rid d ct

/-- The body of the loop over the waiting requests, with whether the loop goes on. -/
def Pass.visitWaiting (p : Pass) : Except PyError (Bool × Pass) := do
  let e ← p.sched.waiting.peekRequest
  let (ready, s) ← p.sched.resolveStatus H C E e.requestId
  let p : Pass := { p with sched := s }
  if ready = false ∨ p.exceedsLoras C (p.sched.request e.requestId) = true then do
    let p ← p.skipWaiting
    return (true, p)
  else p.scheduleWaiting H C E e.requestId

/-- The loop over the waiting requests. -/
def waitingLoop : Nat → Pass → Except PyError Pass
  | 0, _ => .error .outOfFuel
  | fuel + 1, p =>
    if p.sched.waiting.length ≠ 0 ∧ 0 < p.tokenBudget ∧
        p.sched.running.length ≠ C.maxNumRunningReqs then do
      let (goOn, p') ← p.visitWaiting H C E
      if goOn then waitingLoop fuel p' else return p'
    else .ok p

/-! ## The output -/

/-- The skipped requests go back to the head of the waiting queue. -/
def Pass.restoreSkipped (p : Pass) : Except PyError Pass :=
  if p.skippedWaitingRequests.length = 0 then .ok p
  else do
    let waiting ← p.sched.waiting.prependRequests p.skippedWaitingRequests
    return { p with sched := { p.sched with waiting } }

/-- The sum of the scheduled tokens. -/
def Pass.totalNumScheduledTokens (p : Pass) : Int := p.numScheduledTokens.total id

/-- The assertions behind the loops. -/
def Pass.checkConstraints (p : Pass) : Except PyError Unit := do
  require (p.totalNumScheduledTokens ≤ C.maxNumScheduledTokens) (.assertionError .schedule)
  require (0 ≤ p.tokenBudget) (.assertionError .schedule)
  require (p.sched.running.length ≤ C.maxNumRunningReqs) (.assertionError .schedule)
  require (p.scheduledNewReqs.length + p.scheduledResumedReqs.length +
    p.scheduledRunningReqs.length ≤ p.sched.running.length) (.assertionError .schedule)

/-- The common prefix blocks of the running requests, read off the first of them. -/
def Scheduler.numCommonPrefixBlocks (s : Scheduler) : Except PyError (List Nat) :=
  match s.running with
  | [] => .ok (C.kvCacheConfig.kvCacheGroups.map fun _ => 0)
  | rid :: _ => s.kvCacheManager.getNumCommonPrefixBlocks (s.request rid) s.running.length

/-- `_make_cached_request_data`. The sampled tokens are sent back only under pipeline
parallelism. -/
def Pass.makeCachedRequestData (p : Pass) : CachedRequestData :=
  let ids := p.scheduledRunningReqs ++ p.scheduledResumedReqs
  { reqIds := ids
    resumedFromPreemption := p.scheduledRunningReqs.map (fun _ => false) ++
      p.scheduledResumedReqs.map fun _ => true
    newTokenIds :=
      if C.usePp then ids.map fun rid =>
        let r := p.sched.request rid
        let numTokens := p.numScheduledTokens.getD rid 0 -
          (p.scheduledSpecDecodeTokens.getD rid []).length
        pySlice r.allTokenIds r.numComputedTokens (r.numComputedTokens + numTokens)
      else if C.hasConnector then ids.map fun _ => []
      else []
    newBlockIds := ids.map fun rid => p.reqToNewBlockIds.getD rid []
    numComputedTokens := ids.map fun rid => (p.sched.request rid).numComputedTokens }

/-- The output of the step. -/
def Pass.makeOutput (p : Pass) (numCommonPrefixBlocks : List Nat) : SchedulerOutput :=
  { scheduledNewReqs := p.scheduledNewReqs.map fun rid =>
      NewRequestData.fromRequest (p.sched.request rid) (p.reqToNewBlockIds.getD rid [])
    scheduledCachedReqs := p.makeCachedRequestData C
    numScheduledTokens := p.numScheduledTokens
    totalNumScheduledTokens := p.totalNumScheduledTokens
    scheduledSpecDecodeTokens := p.scheduledSpecDecodeTokens
    scheduledEncoderInputs := p.scheduledEncoderInputs
    numCommonPrefixBlocks
    finishedReqIds := p.sched.finishedReqIds
    freeEncoderInputIds := p.sched.encoderCacheManager.getFreedIds.1
    structuredOutputRequestIds := p.structuredOutputRequestIds }

/-! ## After the step -/

/-- `_free_encoder_inputs`: the items that are computed leave the encoder cache. -/
def Scheduler.freeEncoderInputs (s : Scheduler) (r : Request) : Scheduler :=
  { s with
    encoderCacheManager := (s.encoderCacheManager.getCachedInputIds r).foldl (fun m i =>
      match r.mmPositions[i]? with
      | some pos =>
        if (pos.offset + pos.length : Int) ≤ r.numComputedTokens then m.freeEncoderInput r i else m
      | none => m) s.encoderCacheManager }

/-- The request with more computed tokens. -/
def Request.advanced (r : Request) (n : Int) : Request :=
  { r with numComputedTokens := r.numComputedTokens + n }

/-- The scheduled tokens count as computed. -/
def Scheduler.advance (s : Scheduler) (rid : ReqId) (n : Int) : Except PyError Scheduler := do
  require (rid ∈ s.requests) .keyError
  let s := s.modify rid fun r => r.advanced n
  let r := s.request rid
  return if r.hasEncoderInputs then s.freeEncoderInputs r else s

/-- The request with more placeholders for tokens to come. -/
def Request.addPlaceholders (r : Request) (n : Int) : Request :=
  { r with numOutputPlaceholders := r.numOutputPlaceholders + n }

/-- The `AsyncScheduler` expects a token of a request that has caught up. -/
def Scheduler.addPlaceholder (s : Scheduler) (rid : ReqId) : Except PyError Scheduler := do
  require (rid ∈ s.requests) .keyError
  let r := s.request rid
  return if r.numComputedTokens = r.numTokens + r.numOutputPlaceholders then
    s.modify rid fun r => r.addPlaceholders 1
  else s

/-- `_update_after_schedule`, of either scheduler class. -/
def Scheduler.updateAfterSchedule (s : Scheduler) (scheduled : List (ReqId × Int)) :
    Except PyError Scheduler := do
  let s ← threadM (fun e s => s.advance e.1 e.2) scheduled s
  let s := { s with finishedReqIds := [] }
  if C.asyncScheduling then threadM (fun e s => s.addPlaceholder e.1) scheduled s
  else return s

/-- The waiting requests get their turn only if nothing was preempted. -/
def Pass.scheduleWaitingReqs (p : Pass) : Except PyError Pass :=
  if p.preemptedReqs = [] then waitingLoop H C E (p.sched.waiting.length + 1) p else .ok p

/-- The loops of `schedule`. -/
def Scheduler.schedulePass (s : Scheduler) : Except PyError Pass := do
  let p ← runningLoop H C s.running.length (.start C s)
  let p ← p.recordLoras C
  let p ← p.scheduleWaitingReqs H C E
  p.restoreSkipped

/-- `schedule`. -/
def Scheduler.schedule (s : Scheduler) : Except PyError (SchedulerOutput × Scheduler) := do
  let p ← s.schedulePass H C E
  p.checkConstraints C
  let common ← p.sched.numCommonPrefixBlocks C
  let output := p.makeOutput C common
  let s := { p.sched with
    encoderCacheManager := p.sched.encoderCacheManager.getFreedIds.2
    kvCacheManager := p.sched.kvCacheManager.takeEvents.2 }
  let s ← s.updateAfterSchedule C p.numScheduledTokens.entries
  return (output, s)

end

end InferenceServer
