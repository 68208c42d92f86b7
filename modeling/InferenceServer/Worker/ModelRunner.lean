import InferenceServer.Sched.State

/-!
# The model runner

The state that a worker keeps between steps (`GPUModelRunner`, `vllm/v1/worker/gpu_model_runner.py`,
with `CachedRequestState` and `InputBatch` of `gpu_input_batch.py`), and what it does with a
`SchedulerOutput`: `_update_states`, then the encoder of the multi-modal items, then the decoder.

The tensors are symbolic. An encoder output is named by the input and the placeholder it was computed
for, and a row of prompt logprobs by the hidden state and the target token. The encoder is run on
groups of items of one modality, in their order, and its outputs come back in that order; the groups
are therefore left out. So is the order of the rows of the persistent batch, which `condense` and the
attention backends change: a row is found by its request.
-/

namespace InferenceServer

open Outcome

/-! ## Cached states -/

/-- `CachedRequestState`. -/
structure CachedRequestState where
  reqId : ReqId
  promptTokenIds : List TokenId
  mmInputs : List MultiModalInput
  mmPositions : List PlaceholderRange
  samplingParams : Option SamplingParams
  poolingParams : Option PoolingParams
  blockIds : List (List BlockId)
  numComputedTokens : Int
  outputTokenIds : List TokenId := []
  loraRequest : Option LoRARequest := none
deriving DecidableEq, Repr

/-- The state of a request that is scheduled for the first time. -/
def CachedRequestState.ofNew (d : NewRequestData) : CachedRequestState :=
  { reqId := d.reqId
    promptTokenIds := d.promptTokenIds
    mmInputs := d.mmInputs
    mmPositions := d.mmPositions
    samplingParams := d.samplingParams
    poolingParams := d.poolingParams
    blockIds := d.blockIds
    numComputedTokens := d.numComputedTokens
    loraRequest := d.loraRequest }

/-- `num_tokens`. -/
def CachedRequestState.numTokens (r : CachedRequestState) : Nat :=
  r.promptTokenIds.length + r.outputTokenIds.length

/-! ## The persistent batch -/

/-- A row of prompt logprobs: the position of the hidden state, the target token, and the number of
logprobs that were asked for. -/
structure PromptLogprobRow where
  reqId : ReqId
  position : Int
  target : TokenId
  numPromptLogprobs : Nat
deriving DecidableEq, Repr

/-- The prompt logprobs of a request; a row that has not been written is `none`. -/
abbrev PromptLogprobs := List (Option PromptLogprobRow)

/-- `InputBatch`: the requests with a row, and the prompt logprobs that are in progress. -/
structure InputBatch where
  reqIds : List ReqId := []
  numPromptLogprobs : Dict ReqId Nat := ∅
  inProgressPromptLogprobs : Dict ReqId PromptLogprobs := ∅
deriving DecidableEq

namespace InputBatch

/-- `remove_request`. -/
def removeRequest (b : InputBatch) (rid : ReqId) : InputBatch :=
  if rid ∉ b.reqIds then b
  else
    { reqIds := b.reqIds.filter (· ≠ rid)
      numPromptLogprobs := b.numPromptLogprobs.erase rid
      inProgressPromptLogprobs := b.inProgressPromptLogprobs.erase rid }

/-- `add_request`. -/
def addRequest (b : InputBatch) (r : CachedRequestState) : Except PyError InputBatch :=
  let b := { b with reqIds := b.reqIds ++ [r.reqId] }
  match r.samplingParams, r.poolingParams with
  | some params, _ =>
    match params.promptLogprobs with
    | some n => .ok { b with numPromptLogprobs := b.numPromptLogprobs.set r.reqId n }
    | none => .ok b
  | none, some _ => .ok b
  | none, none => .error .notImplementedError

end InputBatch

/-! ## The model runner -/

/-- The output of the encoder for an input, scattered over its placeholder. -/
structure EncoderOutput where
  mmInput : MultiModalInput
  position : PlaceholderRange
deriving DecidableEq, Repr

/-- A slice of an encoder output. -/
structure EncoderSlice where
  output : EncoderOutput
  start : Int
  stop : Int
deriving DecidableEq, Repr

/-- The state of the model runner. -/
structure ModelRunner where
  requests : Dict ReqId CachedRequestState := ∅
  encoderCache : Dict ReqId (Dict Nat EncoderOutput) := ∅
  inputBatch : InputBatch := {}
deriving DecidableEq

/-- `self.requests[req_id]`. -/
def ModelRunner.request (w : ModelRunner) (rid : ReqId) : Except PyError CachedRequestState :=
  match w.requests.get? rid with
  | some r => .ok r
  | none => .error .keyError

/-- `mm_inputs[i]` and `mm_positions[i]`, encoded. -/
def CachedRequestState.encode (r : CachedRequestState) (i : Nat) : Except PyError EncoderOutput :=
  match r.mmInputs[i]?, r.mmPositions[i]? with
  | some mmInput, some position => .ok ⟨mmInput, position⟩
  | _, _ => .error .indexError

namespace ModelRunner

variable (w : ModelRunner) (output : SchedulerOutput)

/-! ### `_update_states` -/

/-- The finished requests leave the cached states and the persistent batch. -/
def removeFinished : ModelRunner :=
  { requests := output.finishedReqIds.foldl Dict.erase w.requests
    encoderCache := output.finishedReqIds.foldl Dict.erase w.encoderCache
    inputBatch := output.finishedReqIds.foldl InputBatch.removeRequest w.inputBatch }

/-- An encoder output that is freed. The last one takes the entry of the request with it. -/
def freeEncoderOutput (cache : Dict ReqId (Dict Nat EncoderOutput)) (e : ReqId × Nat) :
    Dict ReqId (Dict Nat EncoderOutput) :=
  match cache.get? e.1 with
  | none => cache
  | some d =>
    if (d.erase e.2).keys = [] then cache.erase e.1 else cache.set e.1 (d.erase e.2)

/-- The freed encoder outputs leave the cache. -/
def freeEncoderOutputs : ModelRunner :=
  { w with encoderCache := output.freeEncoderInputIds.foldl freeEncoderOutput w.encoderCache }

/-- The requests that are not scheduled leave the persistent batch. -/
def removeUnscheduled : ModelRunner :=
  { w with
    inputBatch := (w.inputBatch.reqIds.filter (· ∉ output.numScheduledTokens)).foldl
      InputBatch.removeRequest w.inputBatch }

/-- The new requests get a cached state. -/
def addNewRequests : ModelRunner :=
  { w with
    requests := output.scheduledNewReqs.foldl
      (fun d e => d.set e.reqId (.ofNew e)) w.requests }

/-- An entry of the parallel lists of a `CachedRequestData`. -/
structure CachedRequestEntry where
  reqId : ReqId
  resumedFromPreemption : Bool
  newTokenIds : List TokenId
  newBlockIds : List (List BlockId)
  numComputedTokens : Int

/-- The entry at an index; the new tokens are read on the last rank only if they are there. -/
def cachedRequestEntry (isLastRank : Bool) (d : CachedRequestData) (i : Nat) :
    Except PyError CachedRequestEntry :=
  match d.reqIds[i]?, d.numComputedTokens[i]?, d.newBlockIds[i]?, d.resumedFromPreemption[i]?,
    (if isLastRank then some [] else d.newTokenIds[i]?) with
  | some reqId, some numComputedTokens, some newBlockIds, some resumedFromPreemption,
    some newTokenIds =>
    .ok { reqId, resumedFromPreemption, newTokenIds, newBlockIds, numComputedTokens }
  | _, _, _, _, _ => .error .indexError

/-- The output tokens that the first ranks of a pipeline get from the scheduler. -/
def receivedOutputTokenIds (r : CachedRequestState) (e : CachedRequestEntry) :
    Except PyError (List TokenId) :=
  let numNewTokens := e.numComputedTokens + e.newTokenIds.length - r.numTokens
  if numNewTokens = 1 then
    match e.newTokenIds.getLast? with
    | some t => .ok (r.outputTokenIds ++ [t])
    | none => .error .indexError
  else if 0 < numNewTokens then
    .ok (r.outputTokenIds ++ pySlice e.newTokenIds (-numNewTokens) e.newTokenIds.length)
  else .ok r.outputTokenIds

/-- The cached state of a request that has been scheduled before. -/
def updatedState (isLastRank : Bool) (r : CachedRequestState) (e : CachedRequestEntry) :
    Except PyError CachedRequestState := do
  let outputTokenIds ← if isLastRank then .ok r.outputTokenIds else receivedOutputTokenIds r e
  return { r with
    numComputedTokens := e.numComputedTokens
    outputTokenIds
    blockIds :=
      if e.resumedFromPreemption then e.newBlockIds
      else r.blockIds.zipWith (· ++ ·) e.newBlockIds ++ r.blockIds.drop e.newBlockIds.length }

/-- Update the cached state of a request that has been scheduled before. -/
def updateCachedRequest (isLastRank : Bool) (i : Nat) (w : ModelRunner) :
    Except PyError ModelRunner := do
  let e ← cachedRequestEntry isLastRank output.scheduledCachedReqs i
  let r ← w.request e.reqId
  let r ← updatedState isLastRank r e
  return { w with requests := w.requests.set e.reqId r }

/-- The requests to add to the persistent batch: the new ones, and those of the others that have no
row. -/
def reqIdsToAdd : List ReqId :=
  output.scheduledNewReqs.map NewRequestData.reqId ++
    output.scheduledCachedReqs.reqIds.filter (· ∉ w.inputBatch.reqIds)

/-- Add a request to the persistent batch. -/
def addToBatch (rid : ReqId) (w : ModelRunner) : Except PyError ModelRunner := do
  let r ← w.request rid
  let inputBatch ← w.inputBatch.addRequest r
  return { w with inputBatch }

/-- `_update_states`. -/
def updateStates (isLastRank : Bool) : Except PyError ModelRunner := do
  let w := (((w.removeFinished output).freeEncoderOutputs output).removeUnscheduled
    output).addNewRequests output
  let reqIdsToAdd := w.reqIdsToAdd output
  let w ← threadM (updateCachedRequest output isLastRank)
    (List.range output.scheduledCachedReqs.reqIds.length) w
  threadM addToBatch reqIdsToAdd w

/-! ### Encoder outputs -/

/-- The inputs of `_execute_mm_encoder`, with the requests they belong to. -/
def scheduledEncoderOutputs : List (ReqId × List Nat) →
    Except PyError (List (ReqId × Nat × EncoderOutput))
  | [] => .ok []
  | (rid, inputs) :: rest => do
    let r ← w.request rid
    let outputs ← inputs.mapM r.encode
    let rest ← scheduledEncoderOutputs rest
    return (inputs.zip outputs).map (fun e => (rid, e)) ++ rest

/-- An encoder output is cached. -/
def cacheEncoderOutput (cache : Dict ReqId (Dict Nat EncoderOutput))
    (e : ReqId × Nat × EncoderOutput) : Dict ReqId (Dict Nat EncoderOutput) :=
  cache.set e.1 ((cache.getD e.1 ∅).set e.2.1 e.2.2)

/-- `_execute_mm_encoder`. -/
def executeMmEncoder : Except PyError ModelRunner := do
  let outputs ← w.scheduledEncoderOutputs output.scheduledEncoderInputs.entries
  return { w with encoderCache := outputs.foldl cacheEncoderOutput w.encoderCache }

/-- The inner loop of `_gather_mm_embeddings`, over the placeholders of a request: the slices that
overlap with the scheduled tokens. -/
def gatherLoop (cache : Option (Dict Nat EncoderOutput))
    (numComputedTokens numScheduledTokens : Int) :
    List (PlaceholderRange × Nat) → Except PyError (List EncoderSlice)
  | [] => .ok []
  | (pos, i) :: rest =>
    -- the encoder output is not needed in this step
    if numComputedTokens + numScheduledTokens ≤ pos.offset then .ok []
    -- the encoder output is already in the KV cache
    else if (pos.offset + pos.length : Int) ≤ numComputedTokens then
      gatherLoop cache numComputedTokens numScheduledTokens rest
    else do
      let start := max (numComputedTokens - pos.offset) 0
      let stop := min (numComputedTokens - pos.offset + numScheduledTokens) pos.length
      require (start < stop) (.assertionError .gatherMmEmbeddings)
      match cache with
      | none => .error (.assertionError .gatherMmEmbeddings)
      | some d =>
        match d.get? i with
        | none => .error (.assertionError .gatherMmEmbeddings)
        | some out => do
          let slices ← gatherLoop cache numComputedTokens numScheduledTokens rest
          return ⟨out, start, stop⟩ :: slices

/-- The encoder outputs that a scheduled request needs. -/
def gatherRequest (rid : ReqId) : Except PyError (List EncoderSlice) :=
  match output.numScheduledTokens.get? rid with
  | none => .error .keyError
  | some numScheduledTokens => do
    let r ← w.request rid
    gatherLoop (w.encoderCache.get? rid) r.numComputedTokens numScheduledTokens
      r.mmPositions.zipIdx

/-- `_gather_mm_embeddings`, by request. -/
def gatherMmEmbeddings : Except PyError (List (ReqId × List EncoderSlice)) :=
  w.inputBatch.reqIds.mapM fun rid => do
    let slices ← w.gatherRequest output rid
    return (rid, slices)

/-! ### Prompt logprobs -/

/-- `tensor[start:stop].copy_(rows)`: the shapes agree, or a single row is broadcast. -/
def copyRows (table : PromptLogprobs) (start stop : Int) (rows : List PromptLogprobRow) :
    Except PyError PromptLogprobs :=
  let a := sliceBound table.length start
  let b := max a (sliceBound table.length stop)
  if rows.length = b - a then
    .ok (table.take a ++ rows.map some ++ table.drop b)
  else
    match rows with
    | [row] => .ok (table.take a ++ List.replicate (b - a) (some row) ++ table.drop b)
    | _ => .error .runtimeError

/-- The rows of a chunk: the `k`-th scheduled token of the request has its hidden state at the `k`-th
position from `num_computed_tokens` on, and the token behind it is the target. -/
def promptLogprobRows (r : CachedRequestState) (numPromptLogprobs numLogits : Nat) :
    Except PyError (List PromptLogprobRow) :=
  let targets := pySlice r.promptTokenIds (r.numComputedTokens + 1)
    (r.numComputedTokens + 1 + numLogits)
  if targets.length = numLogits then
    .ok (targets.zipIdx.map fun e =>
      { reqId := r.reqId
        position := r.numComputedTokens + e.2
        target := e.1
        numPromptLogprobs })
  else .error .runtimeError

/-- The prompt logprobs of a request after a step, with whether they are complete. The last chunk is
the one that computes the last token of the prompt. -/
def promptLogprobsStep (r : CachedRequestState) (numPromptLogprobs : Nat)
    (numScheduledTokens : Int) (inProgress : Option PromptLogprobs) :
    Except PyError (Bool × PromptLogprobs) := do
  let table := inProgress.getD (List.replicate (r.promptTokenIds.length - 1) none)
  let numRemainingTokens := r.promptTokenIds.length - (r.numComputedTokens + 1)
  let completed := decide (numRemainingTokens < numScheduledTokens)
  let numLogits := if completed then numRemainingTokens else numScheduledTokens
  if numLogits ≤ 0 then return (completed, table)
  else do
    let rows ← promptLogprobRows r numPromptLogprobs numLogits.toNat
    let table ← copyRows table r.numComputedTokens (r.numComputedTokens + numLogits) rows
    return (completed, table)

/-- The loop of `_get_prompt_logprobs_dict`: the tables in progress, and those that are complete. -/
def promptLogprobsLoop : List (ReqId × Nat) → Dict ReqId PromptLogprobs →
    Dict ReqId PromptLogprobs →
      Except PyError (Dict ReqId PromptLogprobs × Dict ReqId PromptLogprobs)
  | [], inProgress, done => .ok (inProgress, done)
  | (rid, numPromptLogprobs) :: rest, inProgress, done =>
    match output.numScheduledTokens.get? rid with
    | none => .error .keyError
    | some numScheduledTokens => do
      let r ← w.request rid
      let (completed, table) ← promptLogprobsStep r numPromptLogprobs numScheduledTokens
        (inProgress.get? rid)
      promptLogprobsLoop rest (inProgress.set rid table)
        (if completed then done.set rid table else done)

/-- `_get_prompt_logprobs_dict`. -/
def getPromptLogprobsDict : Except PyError (Dict ReqId PromptLogprobs × ModelRunner) := do
  let b := w.inputBatch
  let (inProgress, done) ← w.promptLogprobsLoop output b.numPromptLogprobs.entries
    b.inProgressPromptLogprobs ∅
  return (done, { w with
    inputBatch := { b with
      numPromptLogprobs := done.keys.foldl Dict.erase b.numPromptLogprobs
      inProgressPromptLogprobs := done.keys.foldl Dict.erase inProgress } })

/-! ### `execute_model` -/

/-- The sampled tokens of a request are cached, unless its prefill goes on. -/
def cacheSampledTokens (sampled : ReqId → List TokenId) (rid : ReqId) (w : ModelRunner) :
    Except PyError ModelRunner :=
  match output.numScheduledTokens.get? rid with
  | none => .error .keyError
  | some numScheduledTokens => do
    let r ← w.request rid
    if r.numComputedTokens + numScheduledTokens < r.numTokens then return w
    else return { w with
      requests := w.requests.set rid { r with outputTokenIds := r.outputTokenIds ++ sampled rid } }

/-- `execute_model`, for given samples of the sampler. Returns the prompt logprobs that are
complete. -/
def executeModel (isLastRank : Bool) (sampled : ReqId → List TokenId) :
    Except PyError (Dict ReqId PromptLogprobs × ModelRunner) := do
  let w ← w.updateStates output isLastRank
  if output.totalNumScheduledTokens = 0 then return (∅, w)
  else do
    let w ← w.executeMmEncoder output
    let _ ← w.gatherMmEmbeddings output
    let (done, w) ← w.getPromptLogprobsDict output
    let w ← threadM (cacheSampledTokens output sampled) w.inputBatch.reqIds w
    return (done, w)

end ModelRunner

end InferenceServer
