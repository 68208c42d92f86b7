import InferenceServer.Sched.Schedule

/-!
# `Scheduler.update_from_output` and the other entry points

What happens to the requests between two scheduling steps: tokens come back from the model
executor (`update_from_output`), new requests arrive (`add_request`), and requests are finished from
outside (`finish_requests`).
-/

namespace InferenceServer

open Outcome

/-! ## Inputs and outputs -/

/-- What the model runner returns. -/
structure ModelRunnerOutput where
  reqIdToIndex : Dict ReqId Nat
  sampledTokenIds : List (List TokenId)
  specTokenIds : Option (List (List TokenId)) := none
  /-- The requests with prompt logprobs. -/
  promptLogprobs : List ReqId := []
  poolerOutput : List (Option (List Int)) := []
  finishedSending : List ReqId := []
  finishedRecving : List ReqId := []
  numNansInLogits : Option (Dict ReqId Nat) := none
deriving DecidableEq

/-- The output of one request, for its client. -/
structure EngineCoreOutput where
  requestId : ReqId
  newTokenIds : List TokenId
  finishReason : Option FinishReason
  poolingOutput : Option (List Int)
  stopReason : Option TokenId
  kvTransferParams : Option KVTransferParams
  numCachedTokens : Int
deriving DecidableEq, Repr

/-- The outputs for one client. -/
structure EngineCoreOutputs where
  outputs : List EngineCoreOutput := []
  finishedRequests : Option (List ReqId) := none
deriving DecidableEq, Repr

/-- All outputs of a step. -/
def allEngineCoreOutputs (d : Dict Nat EngineCoreOutputs) : List EngineCoreOutput :=
  (d.entries.map fun e => e.2.outputs).flatten

/-! ## Stopping -/

/-- `check_stop`. -/
def Request.checkStop (r : Request) (maxModelLen : Nat) (poolerOutput : Option (List Int)) :
    Except PyError (Bool × Request) :=
  if maxModelLen ≤ r.numTokens ∨ r.maxTokens ≤ r.numOutputTokens then
    .ok (true, { r with status := .finishedLengthCapped })
  else if r.poolingParams.isSome then
    match poolerOutput with
    | some _ => .ok (true, { r with status := .finishedStopped })
    | none => .ok (false, r)
  else
    match r.samplingParams with
    | none => .error (.assertionError .checkStop)
    | some sampling =>
      match r.outputTokenIds.getLast? with
      | none => .error .indexError
      | some lastTokenId =>
        if sampling.ignoreEos = false ∧ r.eosTokenId = some lastTokenId then
          .ok (true, { r with status := .finishedStopped })
        else if lastTokenId ∈ sampling.stopTokenIds then
          .ok (true, { r with status := .finishedStopped, stopReason := some lastTokenId })
        else .ok (false, r)

/-- `_update_request_with_output` of the `Scheduler`: append the tokens until the request stops.
Returns the appended tokens and whether it has stopped. -/
def Request.updateWithOutput (maxModelLen : Nat) :
    Request → List TokenId → Except PyError (Request × List TokenId × Bool)
  | r, [] => .ok (r, [], false)
  | r, t :: ts => do
    let (stopped, r') ← (r.appendOutputTokenIds [t]).checkStop maxModelLen none
    if stopped then return (r', [t], true)
    else do
      let (r'', ts', stopped) ← updateWithOutput maxModelLen r' ts
      return (r'', t :: ts', stopped)

namespace Scheduler

section

variable (H : BlockHasher) (C : SchedulerConfig) (E : Environment)

/-- `_update_request_with_output`, of either class: the `AsyncScheduler` takes back placeholders and
caches the blocks that the tokens complete. -/
def updateRequestWithOutput (s : Scheduler) (rid : ReqId) (newTokenIds : List TokenId) :
    Except PyError (Scheduler × List TokenId × Bool) := do
  let statusBefore := (s.request rid).status
  let (r, appended, stopped) ← (s.request rid).updateWithOutput C.maxModelLen newTokenIds
  if C.asyncScheduling then do
    let r := r.addPlaceholders (-appended.length)
    require (0 ≤ r.numOutputPlaceholders) (.assertionError .updateRequestWithOutput)
    let s := s.modify rid fun _ => r
    if statusBefore = .running then do
      let k ← s.kvCacheManager.cacheBlocks H r (r.numComputedTokens - r.numOutputPlaceholders)
      return (s.withKV k, appended, stopped)
    else return (s, appended, stopped)
  else return (s.modify rid fun _ => r, appended, stopped)

/-! ## Freeing -/

/-- `_free_blocks`. -/
def freeBlocks (s : Scheduler) (rid : ReqId) : Except PyError Scheduler := do
  require ((s.request rid).isFinished = true) (.assertionError .freeBlocks)
  let k ← s.kvCacheManager.free rid
  require (rid ∈ s.requests) .keyError
  return { s with
    kvCacheManager := k.freeBlockHashes rid
    requests := s.requests.filter (· ≠ rid)
    freedBlocks := s.freedBlocks ++ [rid] }

/-- `_connector_finished`: whether the connector wants to keep the blocks for now, and its
parameters for the client. -/
def connectorFinished (s : Scheduler) (rid : ReqId) :
    Except PyError (Bool × Option KVTransferParams × Scheduler) :=
  if C.hasConnector then
    match s.kvCacheManager.getBlockIds rid with
    | [blockIds] =>
      let (delay, params) := E.requestFinished (s.request rid) blockIds
      .ok (delay, params,
        { s with requestFinishedCalls := s.requestFinishedCalls ++ [(rid, delay)] })
    | _ => .error .valueError
  else .ok (false, none, s)

/-- `_free_request`. -/
def freeRequest (s : Scheduler) (rid : ReqId) :
    Except PyError (Option KVTransferParams × Scheduler) := do
  require ((s.request rid).isFinished = true) (.assertionError .freeRequest)
  let (delayFreeBlocks, params, s) ← s.connectorFinished C E rid
  let r := s.request rid
  let s := { s with
    encoderCacheManager := s.encoderCacheManager.free r
    finishedReqIds := addToSet s.finishedReqIds rid
    finishedReqIdsDict := s.finishedReqIdsDict.map fun d =>
      d.set r.clientIndex (addToSet (d.getD r.clientIndex []) rid) }
  if delayFreeBlocks then return (params, s)
  else do
    let s ← s.freeBlocks rid
    return (params, s)

end

end Scheduler

/-! ## The loop of `update_from_output` -/

/-- The local variables of `update_from_output`, with the scheduler. -/
structure UpdatePass where
  sched : Scheduler
  outputs : Dict Nat (List EngineCoreOutput) := ∅
  stoppedRunningReqs : List ReqId := []
  stoppedPreemptedReqs : List ReqId := []
deriving DecidableEq

section

variable (H : BlockHasher) (C : SchedulerConfig) (E : Environment)

/-- The tokens that the model runner has sampled for the request at an index. -/
def ModelRunnerOutput.generated (m : ModelRunnerOutput) (index : Nat) :
    Except PyError (List TokenId) :=
  match m.sampledTokenIds with
  | [] => .ok []
  | l => match l[index]? with
    | some tokens => .ok tokens
    | none => .error .indexError

/-- Draft tokens that were rejected are not computed. -/
def Request.rejectDrafts (r : Request) (drafts generated : List TokenId) : Request :=
  if drafts = [] then r
  else { r with numComputedTokens := r.numComputedTokens - (drafts.length + 1 - generated.length) }

/-- The pooler output ends a pooling request. -/
def Scheduler.checkPooler (s : Scheduler) (m : ModelRunnerOutput) (rid : ReqId) (index : Nat)
    (stopped : Bool) : Except PyError (Scheduler × Option (List Int) × Bool) :=
  match m.poolerOutput with
  | [] => .ok (s, none, stopped)
  | l => match l[index]? with
    | none => .error .indexError
    | some pooler => do
      let (stopped, r) ← (s.request rid).checkStop C.maxModelLen pooler
      return (s.modify rid fun _ => r, pooler, stopped)

/-- The new draft tokens of a request; those of a structured output are validated. -/
def Scheduler.assignDrafts (s : Scheduler) (m : ModelRunnerOutput) (rid : ReqId) (index : Nat) :
    Except PyError Scheduler :=
  match m.specTokenIds with
  | none => .ok s
  | some l => match l[index]? with
    | none => .error .indexError
    | some drafts =>
      let r := s.request rid
      let drafts := if r.useStructuredOutput = true ∧ E.shouldAdvance r = true then
        E.validateTokens rid drafts else drafts
      .ok (s.modify rid fun r => { r with specTokenIds := drafts })

/-- The number of NaNs in the logits of a request. -/
def Scheduler.recordNans (s : Scheduler) (m : ModelRunnerOutput) (rid : ReqId) : Scheduler :=
  match m.numNansInLogits.bind fun d => d.get? rid with
  | some n => s.modify rid fun r => { r with numNansInLogits := n }
  | none => s

/-- A stopped request is freed, and remembered as stopped from running or from waiting. -/
def UpdatePass.freeStopped (u : UpdatePass) (rid : ReqId) (statusBefore : RequestStatus)
    (stopped : Bool) : Except PyError (Option KVTransferParams × UpdatePass) :=
  if stopped then do
    let (params, s) ← u.sched.freeRequest C E rid
    return (params,
      if statusBefore = .running then
        { u with sched := s, stoppedRunningReqs := u.stoppedRunningReqs ++ [rid] }
      else { u with sched := s, stoppedPreemptedReqs := u.stoppedPreemptedReqs ++ [rid] })
  else .ok (none, u)

/-- The output of a request, if there is something to tell its client. A request that is still
being prefilled has none. -/
def UpdatePass.emitOutput (u : UpdatePass) (m : ModelRunnerOutput) (rid : ReqId)
    (newTokenIds : List TokenId) (pooler : Option (List Int)) (params : Option KVTransferParams) :
    Except PyError UpdatePass :=
  let r := u.sched.request rid
  if newTokenIds ≠ [] ∨ pooler.isSome = true ∨ (params.getD []) ≠ [] then
    .ok { u with
      outputs := u.outputs.set r.clientIndex (u.outputs.getD r.clientIndex [] ++
        [{ requestId := rid
           newTokenIds
           finishReason := r.status.getFinishedReason
           poolingOutput := pooler
           stopReason := r.stopReason
           kvTransferParams := params
           numCachedTokens := r.numCachedTokens }]) }
  else do
    require (rid ∉ m.promptLogprobs) (.assertionError .updateFromOutput)
    return u

/-- Append the new tokens, if there are any. -/
def Scheduler.appendGenerated (s : Scheduler) (rid : ReqId) (generated : List TokenId) :
    Except PyError (Scheduler × List TokenId × Bool) :=
  if generated = [] then .ok (s, [], false) else s.updateRequestWithOutput H C rid generated

/-- The new tokens of a request that is still in `self.requests`. -/
def UpdatePass.applyTokens (u : UpdatePass) (m : ModelRunnerOutput) (rid : ReqId) (index : Nat)
    (generated : List TokenId) : Except PyError UpdatePass := do
  let statusBefore := (u.sched.request rid).status
  let (s, newTokenIds, stopped) ← u.sched.appendGenerated H C rid generated
  let (s, pooler, stopped) ← s.checkPooler C m rid index stopped
  let (params, u) ← { u with sched := s }.freeStopped C E rid statusBefore stopped
  let s ← (u.sched.recordNans m rid).assignDrafts E m rid index
  { u with sched := s }.emitOutput m rid newTokenIds pooler params

/-- The body of the loop of `update_from_output`. A request that is not in `self.requests` any
more was finished while the model was executing. -/
def UpdatePass.updateRequest (output : SchedulerOutput) (m : ModelRunnerOutput)
    (e : ReqId × Int) (u : UpdatePass) : Except PyError UpdatePass := do
  require (0 < e.2) (.assertionError .updateFromOutput)
  if e.1 ∉ u.sched.requests then return u
  else
    match m.reqIdToIndex.get? e.1 with
    | none => .error .keyError
    | some index => do
      let generated ← m.generated index
      let s := u.sched.modify e.1 fun r =>
        r.rejectDrafts (output.scheduledSpecDecodeTokens.getD e.1 []) generated
      { u with sched := s }.applyTokens H C E m e.1 index generated

namespace Scheduler

/-- Take requests out of the waiting queue, if there are any. -/
def removeWaiting (s : Scheduler) (requests : List ReqId) : Except PyError Scheduler :=
  if requests = [] then .ok s
  else do
    let waiting ← s.waiting.removeRequests requests
    return { s with waiting }

/-- Take the stopped requests out of the list of running requests and of the queue. -/
def removeStopped (s : Scheduler) (u : UpdatePass) : Except PyError Scheduler :=
  { s with running := s.running.filter (· ∉ u.stoppedRunningReqs) }.removeWaiting
    u.stoppedPreemptedReqs

/-- `_update_from_kv_xfer_finished`. -/
def updateFromKvXferFinished (s : Scheduler) (m : ModelRunnerOutput) : Except PyError Scheduler :=
  let s := { s with
    finishedRecvingKvReqIds := m.finishedRecving.foldl addToSet s.finishedRecvingKvReqIds }
  threadM (fun rid s => do
    require (rid ∈ s.requests) .keyError
    s.freeBlocks rid) m.finishedSending s

/-- The outputs of a step, by client, with the requests that finished since the last ones. -/
def engineCoreOutputs (s : Scheduler) (outputs : Dict Nat (List EngineCoreOutput)) :
    Dict Nat EngineCoreOutputs × Scheduler :=
  let ecos := outputs.mapValues fun outs => { outputs := outs }
  match s.finishedReqIdsDict with
  | none => (ecos, s)
  | some d =>
    (d.entries.foldl (fun ecos e =>
        ecos.set e.1 { ecos.getD e.1 {} with finishedRequests := some e.2 }) ecos,
      { s with finishedReqIdsDict := some ∅ })

/-- `update_from_output`. -/
def updateFromOutput (s : Scheduler) (output : SchedulerOutput) (m : ModelRunnerOutput) :
    Except PyError (Dict Nat EngineCoreOutputs × Scheduler) := do
  let u ← threadM (UpdatePass.updateRequest H C E output m) output.numScheduledTokens.entries
    { sched := s }
  let s ← u.sched.removeStopped u
  let s ← s.updateFromKvXferFinished m
  return s.engineCoreOutputs u.outputs

/-! ## Arrivals and aborts -/

/-- `add_request`. -/
def addRequest (s : Scheduler) (r : Request) : Except PyError Scheduler := do
  let waiting ← s.waiting.addRequest r.queueEntry
  return { s with
    waiting
    objects := s.objects.set r.requestId r
    requests := addToSet s.requests r.requestId }

/-- `list.remove`. -/
def removeRunning (rid : ReqId) (s : Scheduler) : Except PyError Scheduler := do
  require (rid ∈ s.running) .valueError
  return { s with running := s.running.erase rid }

/-- The second pass of `finish_requests`. -/
def finishRequest (status : RequestStatus) (rid : ReqId) (s : Scheduler) :
    Except PyError Scheduler := do
  let (_, s) ← (s.modify rid fun r => r.withStatus status).freeRequest C E rid
  return s

/-- `finish_requests`, for a set of identifiers. -/
def finishRequests (s : Scheduler) (requestIds : List ReqId) (status : RequestStatus) :
    Except PyError Scheduler := do
  require (status.isFinished = true) (.assertionError .finishRequests)
  let valid := requestIds.dedup.filter (· ∈ s.requests)
  let inRunning := valid.filter fun rid => (s.request rid).status = .running
  let inWaiting := valid.filter fun rid => (s.request rid).status ≠ .running
  let s ← threadM removeRunning inRunning s
  let s ← s.removeWaiting inWaiting
  threadM (finishRequest C E status) valid s

end Scheduler

end

end InferenceServer
