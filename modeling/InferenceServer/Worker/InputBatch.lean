import InferenceServer.Lib.Run
import InferenceServer.Worker.BatchUpdate

/-!
# The persistent batch

`InputBatch` (`vllm/v1/worker/gpu_input_batch.py`) keeps what the worker knows of the requests of a
step in the rows of some twenty arrays and dictionaries. A step removes requests, adds requests into
the emptied rows or at the end, moves the last requests into the rows that are still empty
(`condense`), may swap rows, and refreshes the metadata.

The arrays and the dictionaries with rows as keys are one record for each row. A dictionary without
an entry for a row is `none` in the record. A row of the arrays is never beyond `max_num_reqs`, which
`add_request` asserts; so the rows are a function.

The output tokens of a request are in a list that the batch holds by reference. It grows between the
steps.
-/

namespace InferenceServer.PersistentBatch

open Outcome

/-- A `LoRARequest`. It refuses ids below 1. -/
structure LoRARequest where
  loraName : String
  loraIntId : Int
  one_le : 1 ≤ loraIntId
deriving DecidableEq

/-- A `torch.Generator`. -/
abbrev Generator := Nat

/-- `CachedRequestState`, as far as the batch reads it. -/
structure CachedRequestState where
  reqId : ReqId
  promptTokenIds : List TokenId
  samplingParams : Option SamplingParams := none
  poolingParams : Option PoolingParams := none
  generator : Option Generator := none
  blockIds : List (List BlockId)
  numComputedTokens : Nat := 0
  outputTokenIds : OutputRef
  loraRequest : Option LoRARequest := none
deriving DecidableEq

/-- The sampling parameters if there are any, else the pooling parameters. -/
def CachedRequestState.params (r : CachedRequestState) : Option Params :=
  match r.samplingParams with
  | some params => some (.sampling params)
  | none => r.poolingParams.map .pooling

/-- The sizes of the batch. -/
structure BatchConfig where
  maxNumReqs : Nat
  maxModelLen : Nat
  vocabSize : Nat
  /-- For each group, the columns of its block table. -/
  maxNumBlocksPerReq : List Nat
  isSpecDecode : Bool := false
deriving DecidableEq, Repr

/-! ## Rows -/

/-- `row[start:start + len(values)] = values`. A slice that is too short is refused, but for an empty
one to which a single value is broadcast. -/
def assignSlice {α : Type} (row : List α) (start : Nat) (values : List α) :
    Except PyError (List α) :=
  if start + values.length ≤ row.length then
    .ok (row.take start ++ values ++ row.drop (start + values.length))
  else if values.length ≤ 1 then .ok row
  else .error .valueError

/-- A row of a `BlockTable`. -/
structure BlockRow where
  blocks : List BlockId
  numBlocks : Nat := 0
deriving DecidableEq, Repr

namespace BlockRow

/-- `append_row`. -/
def appendRow (t : BlockRow) (blockIds : List BlockId) : Except PyError BlockRow :=
  if blockIds = [] then .ok t
  else do
    let blocks ← assignSlice t.blocks t.numBlocks blockIds
    return { blocks, numBlocks := t.numBlocks + blockIds.length }

/-- `add_row`. -/
def addRow (t : BlockRow) (blockIds : List BlockId) : Except PyError BlockRow :=
  appendRow { t with numBlocks := 0 } blockIds

/-- `move_row`: the target row. -/
def moveRow (src tgt : BlockRow) : BlockRow :=
  { blocks := src.blocks.take src.numBlocks ++ tgt.blocks.drop src.numBlocks
    numBlocks := src.numBlocks }

end BlockRow

/-- `MultiGroupBlockTable.add_row`. -/
def addRows : List BlockRow → List (List BlockId) → Except PyError (List BlockRow)
  | [], _ => .ok []
  | _ :: _, [] => .error .indexError
  | t :: ts, blockIds :: rest => do
    let t ← t.addRow blockIds
    let ts ← addRows ts rest
    return t :: ts

/-- A row of the batch. -/
structure Row where
  tokenIds : List TokenId
  numTokens : Nat := 0
  numTokensNoSpec : Nat := 0
  numPromptTokens : Nat := 0
  numComputedTokens : Nat := 0
  blockTables : List BlockRow
  temperature : Rat := 0
  topP : Rat := 0
  topK : Int := 0
  frequencyPenalty : Rat := 0
  presencePenalty : Rat := 0
  repetitionPenalty : Rat := 0
  requestLoraMapping : Int := 0
  /-- The entry of `generators`. -/
  generator : Option Generator := none
  /-- The entry of `bad_words_token_ids`. -/
  badWordsTokenIds : Option (List (List TokenId)) := none
  logitsProcessingNeedsTokenIds : Bool := false
deriving DecidableEq

/-- A row of a new batch. -/
def Row.new (cfg : BatchConfig) : Row where
  tokenIds := List.replicate cfg.maxModelLen 0
  blockTables := cfg.maxNumBlocksPerReq.map fun n => { blocks := List.replicate n 0 }

/-- The temperature that is stored; a greedy request must not divide by zero. -/
def SamplingParams.storedTemperature (params : SamplingParams) : Rat :=
  if params.samplingType = .greedy then -1 else params.temperature

/-- The `top_k` that is stored. -/
def SamplingParams.storedTopK (cfg : BatchConfig) (params : SamplingParams) : Int :=
  if 0 < params.topK ∧ params.topK < cfg.vocabSize then params.topK else cfg.vocabSize

/-- The id of the adapter of a request; 0 if it has none. -/
def CachedRequestState.loraId (r : CachedRequestState) : Int :=
  match r.loraRequest with
  | some lora => lora.loraIntId
  | none => 0

namespace Row

/-- The sampling parameters of an added request. An entry of a dictionary is only made if there is
something to enter. -/
def loadSampling (row : Row) (cfg : BatchConfig) (params : SamplingParams)
    (generator : Option Generator) : Row :=
  { row with
    temperature := params.storedTemperature
    topP := params.topP
    topK := params.storedTopK cfg
    frequencyPenalty := params.frequencyPenalty
    presencePenalty := params.presencePenalty
    repetitionPenalty := params.repetitionPenalty
    generator := generator.or row.generator
    badWordsTokenIds := (params.badWordsTokenIds.filter (· ≠ [])).or row.badWordsTokenIds }

/-- What `add_request` writes into the row. -/
def load (row : Row) (cfg : BatchConfig) (r : CachedRequestState) (output : List TokenId) :
    Except PyError Row := do
  let numPromptTokens := r.promptTokenIds.length
  let tokenIds ← assignSlice row.tokenIds 0 r.promptTokenIds
  let tokenIds ← assignSlice tokenIds numPromptTokens output
  let blockTables ← addRows row.blockTables r.blockIds
  let row := { row with
    tokenIds, blockTables, numPromptTokens
    numTokens := numPromptTokens + output.length
    numTokensNoSpec := numPromptTokens + output.length
    numComputedTokens := r.numComputedTokens
    requestLoraMapping := r.loraId }
  match r.params with
  | some (.sampling params) => return row.loadSampling cfg params r.generator
  | some (.pooling params) =>
    return { row with logitsProcessingNeedsTokenIds := params.requiresTokenIds }
  | none => .error .notImplementedError

/-- What `remove_request` clears. -/
def clear (row : Row) : Row :=
  { row with requestLoraMapping := 0, generator := none, badWordsTokenIds := none }

/-- What `condense` copies into the target row. -/
def moveInto (src tgt : Row) : Row :=
  { src with
    tokenIds := src.tokenIds.take src.numTokens ++ tgt.tokenIds.drop src.numTokens
    blockTables := List.zipWith BlockRow.moveRow src.blockTables tgt.blockTables
    generator := src.generator.or tgt.generator
    badWordsTokenIds := src.badWordsTokenIds.or tgt.badWordsTokenIds
    logitsProcessingNeedsTokenIds := tgt.logitsProcessingNeedsTokenIds }

/-- What `condense` leaves in the source row. -/
def moveFrom (src : Row) : Row := { src with generator := none, badWordsTokenIds := none }

/-- What `swap_states` brings from one row into another. -/
def swapInto (src tgt : Row) : Row :=
  { src with logitsProcessingNeedsTokenIds := tgt.logitsProcessingNeedsTokenIds }

end Row

/-! ## Sets of requests -/

/-- The sets and dictionaries of the batch with request ids as keys. -/
structure RequestSets where
  greedyReqs : List ReqId := []
  randomReqs : List ReqId := []
  topPReqs : List ReqId := []
  topKReqs : List ReqId := []
  specDecodeUnsupportedReqs : List ReqId := []
  frequencyPenaltiesReqs : List ReqId := []
  presencePenaltiesReqs : List ReqId := []
  repetitionPenaltiesReqs : List ReqId := []
  hasAllowedTokenIds : List ReqId := []
  numLogprobs : Dict ReqId Int := ∅
  numPromptLogprobs : Dict ReqId Int := ∅
  poolingParams : Dict ReqId PoolingParams := ∅

/-- The allowed tokens, if there are any. -/
def SamplingParams.allowed (params : SamplingParams) : Option (List TokenId) :=
  params.allowedTokenIds.filter (· ≠ [])

/-- `is_spec_decode_unsupported`. -/
def isSpecDecodeUnsupported (params : SamplingParams) : Bool :=
  params.frequencyPenalty ≠ 0 ∨ params.presencePenalty ≠ 0 ∨ params.repetitionPenalty ≠ 1 ∨
    params.minP > 1 / 100000 ∨ params.logprobs ≠ none

namespace RequestSets

/-- `set.add` under a condition. -/
def addIf (c : Bool) (id : ReqId) (ids : List ReqId) : List ReqId :=
  if c then ids.insert id else ids

/-- An added request. -/
def add (s : RequestSets) (cfg : BatchConfig) (id : ReqId) : Params → RequestSets
  | .sampling params =>
    { s with
      specDecodeUnsupportedReqs := addIf (cfg.isSpecDecode && isSpecDecodeUnsupported params) id
        s.specDecodeUnsupportedReqs
      greedyReqs := addIf (params.samplingType = .greedy) id s.greedyReqs
      randomReqs := addIf (params.samplingType ≠ .greedy) id s.randomReqs
      topPReqs := addIf (params.topP < 1) id s.topPReqs
      topKReqs := addIf (0 < params.topK ∧ params.topK < cfg.vocabSize) id s.topKReqs
      frequencyPenaltiesReqs := addIf (params.frequencyPenalty ≠ 0) id s.frequencyPenaltiesReqs
      presencePenaltiesReqs := addIf (params.presencePenalty ≠ 0) id s.presencePenaltiesReqs
      repetitionPenaltiesReqs := addIf (params.repetitionPenalty ≠ 1) id s.repetitionPenaltiesReqs
      hasAllowedTokenIds := addIf params.allowed.isSome id s.hasAllowedTokenIds
      numLogprobs := match params.logprobs with
        | some n => s.numLogprobs.set id n
        | none => s.numLogprobs
      numPromptLogprobs := match params.promptLogprobs with
        | some n => s.numPromptLogprobs.set id n
        | none => s.numPromptLogprobs }
  | .pooling params => { s with poolingParams := s.poolingParams.set id params }

/-- A removed request. -/
def discard (s : RequestSets) (id : ReqId) : RequestSets where
  greedyReqs := s.greedyReqs.filter (· ≠ id)
  randomReqs := s.randomReqs.filter (· ≠ id)
  topPReqs := s.topPReqs.filter (· ≠ id)
  topKReqs := s.topKReqs.filter (· ≠ id)
  specDecodeUnsupportedReqs := s.specDecodeUnsupportedReqs.filter (· ≠ id)
  frequencyPenaltiesReqs := s.frequencyPenaltiesReqs.filter (· ≠ id)
  presencePenaltiesReqs := s.presencePenaltiesReqs.filter (· ≠ id)
  repetitionPenaltiesReqs := s.repetitionPenaltiesReqs.filter (· ≠ id)
  hasAllowedTokenIds := s.hasAllowedTokenIds.filter (· ≠ id)
  numLogprobs := s.numLogprobs.erase id
  numPromptLogprobs := s.numPromptLogprobs.erase id
  poolingParams := s.poolingParams.erase id

end RequestSets

/-! ## The LoRA maps -/

/-- `lora_id_to_request_ids` and `lora_id_to_lora_request`. -/
structure LoraMaps where
  requestIds : Dict Int (List ReqId) := ∅
  loraRequest : Dict Int LoRARequest := ∅

namespace LoraMaps

/-- The adapter of an added request. -/
def add (maps : LoraMaps) (id : ReqId) (lora : LoRARequest) : LoraMaps where
  requestIds := maps.requestIds.set lora.loraIntId
    ((maps.requestIds.getD lora.loraIntId []).insert id)
  loraRequest := maps.loraRequest.set lora.loraIntId lora

/-- A removed request with an adapter. An adapter without requests is dropped. -/
def discard (maps : LoraMaps) (id : ReqId) (loraId : Int) : Except PyError LoraMaps :=
  if loraId = 0 then .ok maps
  else
    match maps.requestIds.get? loraId with
    | none => .error .keyError
    | some ids =>
      let ids := ids.filter (· ≠ id)
      if ids = [] then
        .ok { requestIds := maps.requestIds.erase loraId
              loraRequest := maps.loraRequest.erase loraId }
      else .ok { maps with requestIds := maps.requestIds.set loraId ids }

end LoraMaps

/-! ## The batch -/

/-- `InputBatch`. -/
structure InputBatch where
  reqIds : List (Option ReqId) := []
  reqIdToIndex : Dict ReqId Nat := ∅
  reqOutputTokenIds : List (Option OutputRef) := []
  row : Nat → Row
  sets : RequestSets := {}
  lora : LoraMaps := {}
  /-- `allowed_token_ids_mask_cpu_tensor`, which is made when it is needed for the first time. In a
  row, `False` is for an allowed token. -/
  allowedTokenIdsMask : Option (Nat → List Bool) := none
  builder : BatchUpdateBuilder := {}
  minP : MinPLogitsProcessor := {}
  logitBias : LogitBiasLogitsProcessor := {}
  minTokens : MinTokensLogitsProcessor := {}

/-- A new batch. -/
def InputBatch.new (cfg : BatchConfig) : InputBatch where
  row _ := Row.new cfg

/-- The mask of a row before the tensor is made, and of a request without allowed tokens. -/
def noMask (cfg : BatchConfig) : List Bool := List.replicate cfg.vocabSize false

/-- The mask of a request with allowed tokens. -/
def allowedMask (cfg : BatchConfig) (allowed : List TokenId) : Except PyError (List Bool) := do
  require (∀ t ∈ allowed, t < cfg.vocabSize) .indexError
  return allowed.foldl (fun mask t => mask.set t false) (List.replicate cfg.vocabSize true)

namespace InputBatch

/-- `num_reqs`. -/
def numReqs (b : InputBatch) : Nat := b.reqIdToIndex.entries.length

/-- `_get_next_add_index`: the lowest emptied row, or the end. -/
def getNextAddIndex (b : InputBatch) : Nat × BatchUpdateBuilder :=
  match b.builder.popRemoved with
  | (some reqIndex, builder) => (reqIndex, builder)
  | (none, builder) => (b.numReqs, builder)

/-- The allowed tokens of an added request. -/
def addMask (b : InputBatch) (cfg : BatchConfig) (reqIndex : Nat) (r : CachedRequestState) :
    Except PyError InputBatch :=
  match r.samplingParams.bind SamplingParams.allowed with
  | none => .ok b
  | some allowed => do
    let mask ← allowedMask cfg allowed
    return { b with
      allowedTokenIdsMask :=
        some (Function.update (b.allowedTokenIdsMask.getD fun _ => noMask cfg) reqIndex mask) }

/-- The request takes its place in the lists. -/
def placeAdded (b : InputBatch) (reqIndex : Nat) (r : CachedRequestState) :
    Except PyError InputBatch :=
  if reqIndex = b.reqIds.length then
    .ok { b with
      reqIds := b.reqIds ++ [some r.reqId]
      reqOutputTokenIds := b.reqOutputTokenIds ++ [some r.outputTokenIds]
      reqIdToIndex := b.reqIdToIndex.set r.reqId reqIndex }
  else do
    require (reqIndex < b.reqIds.length) .indexError
    return { b with
      reqIds := b.reqIds.set reqIndex (some r.reqId)
      reqOutputTokenIds := b.reqOutputTokenIds.set reqIndex (some r.outputTokenIds)
      reqIdToIndex := b.reqIdToIndex.set r.reqId reqIndex }

/-- `add_request`, with the output tokens of the request. -/
def addRequest (b : InputBatch) (cfg : BatchConfig) (r : CachedRequestState)
    (output : List TokenId) : Except PyError InputBatch := do
  let (reqIndex, builder) := b.getNextAddIndex
  require (reqIndex < cfg.maxNumReqs) (.assertionError .registerAddRequest)
  let added := r.params.map fun params => { index := reqIndex, params, outputTokenIds := r.outputTokenIds }
  let b ← placeAdded { b with builder := { builder with added := builder.added ++ added.toList } }
    reqIndex r
  let row ← (b.row reqIndex).load cfg r output
  let b ← addMask { b with row := Function.update b.row reqIndex row } cfg reqIndex r
  return { b with
    sets := (r.params.map (b.sets.add cfg r.reqId)).getD b.sets
    lora := (r.loraRequest.map (b.lora.add r.reqId)).getD b.lora }

/-- `remove_request`. -/
def removeRequest (b : InputBatch) (cfg : BatchConfig) (reqId : ReqId) : Except PyError InputBatch :=
  match b.reqIdToIndex.get? reqId with
  | none => .ok b
  | some reqIndex => do
    let builder ← b.builder.removedAppend reqIndex
    let lora ← b.lora.discard reqId (b.row reqIndex).requestLoraMapping
    return { b with
      reqIdToIndex := b.reqIdToIndex.erase reqId
      builder, lora
      reqIds := b.reqIds.set reqIndex none
      reqOutputTokenIds := b.reqOutputTokenIds.set reqIndex none
      sets := b.sets.discard reqId
      row := Function.update b.row reqIndex (b.row reqIndex).clear
      allowedTokenIdsMask :=
        b.allowedTokenIdsMask.map fun mask => Function.update mask reqIndex (noMask cfg) }

/-- The mask after `mask[i1], mask[i2] = mask[i2], mask[i1]`. The right-hand side is a pair of views: the
second assignment reads what the first one has written. -/
def swapViews (mask : Nat → List Bool) (i1 i2 : Nat) : Nat → List Bool :=
  let mask := Function.update mask i1 (mask i2)
  Function.update mask i2 (mask i1)

/-- `swap_states`. -/
def swapStates (b : InputBatch) (i1 i2 : Nat) : Except PyError InputBatch :=
  match b.reqIds[i1]?, b.reqIds[i2]? with
  | some (some id1), some (some id2) =>
    match b.reqIdToIndex.get? id1, b.reqIdToIndex.get? id2 with
    | some x1, some x2 =>
      .ok { b with
        builder := { b.builder with
          moved := b.builder.moved ++ [{ src := i1, tgt := i2, direct := .swap }] }
        reqIds := (b.reqIds.set i1 (some id2)).set i2 (some id1)
        reqOutputTokenIds := (b.reqOutputTokenIds.set i1 (b.reqOutputTokenIds[i2]?.join)).set i2
          (b.reqOutputTokenIds[i1]?.join)
        reqIdToIndex := (b.reqIdToIndex.set id1 x2).set id2 x1
        row := Function.update (Function.update b.row i1 ((b.row i2).swapInto (b.row i1))) i2
          ((b.row i1).swapInto (b.row i2))
        allowedTokenIdsMask := b.allowedTokenIdsMask.map fun mask => swapViews mask i1 i2 }
    | _, _ => .error .keyError
  | some _, some _ => .error (.assertionError .swapStates)
  | _, _ => .error .indexError

/-- The body of the loop of `condense`: a request moves down into an empty row. -/
def moveRequest (b : InputBatch) (src tgt : Nat) : Except PyError InputBatch :=
  match b.reqIds[src]? with
  | some (some reqId) =>
    .ok { b with
      reqIds := (b.reqIds.set tgt (some reqId)).set src none
      reqOutputTokenIds := (b.reqOutputTokenIds.set tgt (b.reqOutputTokenIds[src]?.join)).set src none
      reqIdToIndex := b.reqIdToIndex.set reqId tgt
      row := Function.update (Function.update b.row tgt ((b.row src).moveInto (b.row tgt))) src
        (b.row src).moveFrom
      allowedTokenIdsMask := b.allowedTokenIdsMask.map fun mask =>
        Function.update mask tgt (mask src) }
  | some none => .error (.assertionError .condense)
  | none => .error .indexError

/-- The inner loop of `condense`. The rows from the bound on are empty, so that `last_req_index` is
the bound less 1. -/
def skipEmpty (emptyReqIndices : List Nat) : Nat → Nat
  | 0 => 0
  | bound + 1 => if bound ∈ emptyReqIndices then skipEmpty emptyReqIndices bound else bound + 1

/-- The loop of `condense`, which takes an emptied row in every turn. -/
def condenseLoop : Nat → Nat → InputBatch → Except PyError InputBatch
  | 0, _, b => .ok b
  | fuel + 1, bound, b =>
    if b.builder.removed = [] then .ok b
    else
      let bound := skipEmpty b.builder.removed bound
      match b.builder.peekRemoved with
      | (none, _) => .error (.assertionError .condense)
      | (some emptyIndex, builder) =>
        -- `empty_index >= last_req_index`
        if bound ≤ emptyIndex + 1 then .ok { b with builder }
        else do
          let builder := builder.popRemoved.2
          let move : MovedRequest :=
            { src := bound - 1, tgt := emptyIndex, direct := .unidirectional }
          let b ← moveRequest { b with builder := { builder with moved := builder.moved ++ [move] } }
            (bound - 1) emptyIndex
          condenseLoop fuel (bound - 1) b

/-- `condense`. -/
def condense (b : InputBatch) : Except PyError InputBatch :=
  let b := { b with builder := b.builder.ensureRemovedSorted }
  if b.builder.removed = [] then .ok b
  else if b.numReqs = 0 then .ok { b with reqIds := [], reqOutputTokenIds := [] }
  else do
    let emptied := b.builder.removed.length
    let b ← condenseLoop emptied (b.numReqs + emptied) b
    return { b with
      reqIds := b.reqIds.take b.numReqs
      reqOutputTokenIds := b.reqOutputTokenIds.take b.numReqs }

/-- `refresh_metadata`. -/
def refreshMetadata (b : InputBatch) (outputs : Dict OutputRef (List TokenId)) : InputBatch :=
  let (batchUpdate, builder) := b.builder.getAndReset b.numReqs
  { b with
    builder
    minP := b.minP.updateState batchUpdate
    logitBias := b.logitBias.updateState batchUpdate
    minTokens := b.minTokens.updateState outputs batchUpdate }

end InputBatch

/-! ## The batch in the hands of the worker -/

/-- Where a step is. -/
inductive StepPhase where
  /-- Between two steps. -/
  | idle
  | removing
  | adding
  /-- After `condense`. -/
  | condensed
deriving DecidableEq, Repr

/-- A request of the batch, with the output tokens it had when it was added. -/
structure ActiveRequest where
  state : CachedRequestState
  output : List TokenId
deriving DecidableEq

/-- The batch, and what there is around it. -/
structure BatchState where
  batch : InputBatch
  /-- The lists of output tokens. -/
  outputs : Dict OutputRef (List TokenId) := ∅
  phase : StepPhase := .idle
  /-- History: the requests that have been added and not removed. -/
  active : Dict ReqId ActiveRequest := ∅

/-- What happens to a batch. -/
inductive BatchOp where
  | removeRequest (reqId : ReqId)
  | addRequest (request : CachedRequestState)
  | condense
  | swapStates (i1 i2 : Nat)
  | refreshMetadata
  /-- A request generates tokens. -/
  | generate (output : OutputRef) (tokens : List TokenId)
deriving DecidableEq

/-- The output tokens behind a reference. -/
def BatchState.output (s : BatchState) (ref : OutputRef) : List TokenId := s.outputs.getD ref []

/-- The batch from its creation on. -/
def inputBatch (cfg : BatchConfig) : Machine BatchState BatchOp PyError where
  init := { batch := .new cfg }
  step s
    | .removeRequest reqId => do
      let batch ← s.batch.removeRequest cfg reqId
      return { s with batch, phase := .removing, active := s.active.erase reqId }
    | .addRequest request => do
      let output := s.output request.outputTokenIds
      let batch ← s.batch.addRequest cfg request output
      return { s with
        batch, phase := .adding, active := s.active.set request.reqId { state := request, output } }
    | .condense => do
      let batch ← s.batch.condense
      return { s with batch, phase := .condensed }
    | .swapStates i1 i2 => do
      let batch ← s.batch.swapStates i1 i2
      return { s with batch }
    | .refreshMetadata =>
      .ok { s with batch := s.batch.refreshMetadata s.outputs, phase := .idle }
    | .generate ref tokens => .ok { s with outputs := s.outputs.set ref (s.output ref ++ tokens) }

/-- A request fits into a row: it is not longer than the model allows, and neither is the list of its
blocks in any group. -/
def Fits (cfg : BatchConfig) (r : CachedRequestState) (output : List TokenId) : Prop :=
  r.promptTokenIds.length + output.length ≤ cfg.maxModelLen ∧
    List.Forall₂ (fun n blockIds => blockIds.length ≤ n) cfg.maxNumBlocksPerReq r.blockIds

/-- **The order of the calls in a step**: removals, additions, `condense`, swaps, and
`refresh_metadata`. The worker adds a request that is not in the batch, and that fits. A request may
generate tokens at any time. -/
def Admitted (cfg : BatchConfig) (s : BatchState) : BatchOp → Prop
  | .removeRequest _ => s.phase = .idle ∨ s.phase = .removing
  | .addRequest r =>
    s.phase ≠ .condensed ∧ r.reqId ∉ s.active ∧ Fits cfg r (s.output r.outputTokenIds)
  | .condense => s.phase ≠ .condensed
  | .swapStates _ _ => s.phase = .condensed
  | .refreshMetadata => s.phase = .condensed
  | .generate _ _ => True

instance (cfg : BatchConfig) (r : CachedRequestState) (output : List TokenId) :
    Decidable (Fits cfg r output) := by
  unfold Fits
  infer_instance

instance (cfg : BatchConfig) (s : BatchState) (op : BatchOp) : Decidable (Admitted cfg s op) := by
  refine op.casesOn ?_ ?_ ?_ ?_ ?_ ?_ <;> intros <;> unfold Admitted <;> infer_instance

end InferenceServer.PersistentBatch
