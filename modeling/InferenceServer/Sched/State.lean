import InferenceServer.KVCache.Manager
import InferenceServer.Sched.RequestQueue
import InferenceServer.Sched.EncoderCache

/-!
# The state of the scheduler

The attributes of `Scheduler` (`vllm/v1/core/sched/scheduler.py`), what it is configured with, what
it asks of its surroundings, and the `SchedulerOutput` it hands to the model executor
(`vllm/v1/core/sched/output.py`).

A request is one mutable object that the queues, the list of running requests and the dictionary
`self.requests` refer to. The objects are kept in `Scheduler.objects`, by identifier, for as long as
anything can be said about them; the queues and lists hold identifiers, and `Scheduler.requests`
the keys of `self.requests`. An object is never removed from `objects`: a finished request that
has left `self.requests` can still be spoken of.

What lies outside the scheduler (the KV connector and the structured output manager) answers the
questions of one call through an `Environment`. A call asks each question at most once for a
request, so a function of the request is general enough; different calls have different
environments.
-/

namespace InferenceServer

open Outcome

/-! ## Configuration and surroundings -/

/-- What the scheduler reads of the configuration. -/
structure SchedulerConfig where
  policy : SchedulingPolicy := .fcfs
  maxNumRunningReqs : Nat
  maxNumScheduledTokens : Nat
  maxModelLen : Nat
  longPrefillTokenThreshold : Int := 0
  chunkedPrefillEnabled : Bool := true
  disableChunkedMmInput : Bool := false
  /-- `lora_config.max_loras`, if there is a `lora_config`. -/
  maxLoras : Option Nat := none
  blockSize : Nat
  numLookaheadTokens : Nat := 0
  /-- Whether there is a KV connector. -/
  hasConnector : Bool := false
  usePp : Bool := false
  maxNumEncoderInputTokens : Nat := 0
  encoderCacheSize : Nat := 0
  includeFinishedSet : Bool := false
  /-- The scheduler is an `AsyncScheduler`. -/
  asyncScheduling : Bool := false
  kvCacheConfig : KVCacheConfig
  enablePrefixCaching : Bool := true
  useEagle : Bool := false
  enableKVCacheEvents : Bool := false

/-- The parameters a connector returns for a finished request: an opaque dictionary. -/
abbrev KVTransferParams := List (String × String)

/-- The answers of the KV connector and of the structured output manager during one call. -/
structure Environment where
  /-- `connector.get_num_new_matched_tokens`: the number of tokens that can be loaded beyond the
  local ones, and whether they are loaded asynchronously. -/
  getNumNewMatchedTokens : Request → Int → Int × Bool := fun _ _ => (0, false)
  /-- `connector.request_finished`: whether to keep the blocks for now. -/
  requestFinished : Request → List BlockId → Bool × Option KVTransferParams :=
    fun _ _ => (false, none)
  /-- Whether the grammar of the request is compiled. -/
  grammarReady : ReqId → Bool := fun _ => true
  /-- `should_advance`, for a request that uses structured output. -/
  shouldAdvance : Request → Bool := fun _ => true
  /-- `grammar.validate_tokens`. -/
  validateTokens : ReqId → List TokenId → List TokenId := fun _ l => l

/-! ## The scheduler -/

/-- The scheduler. -/
structure Scheduler where
  kvCacheManager : KVCacheManager
  encoderCacheManager : EncoderCacheManager
  /-- The request objects. -/
  objects : Dict ReqId Request := ∅
  /-- The keys of `self.requests`. -/
  requests : List ReqId := []
  waiting : RequestQueue
  running : List ReqId := []
  finishedReqIds : List ReqId := []
  finishedRecvingKvReqIds : List ReqId := []
  finishedReqIdsDict : Option (Dict Nat (List ReqId)) := none
  /-- History: the calls of `connector.request_finished`, with the answer. -/
  requestFinishedCalls : List (ReqId × Bool) := []
  /-- History: the requests whose blocks `_free_blocks` has freed. -/
  freedBlocks : List ReqId := []
deriving DecidableEq

instance : Inhabited Request := ⟨{ requestId := 0, promptTokenIds := [] }⟩

/-- Add to a set that is kept as a list. -/
def addToSet {α : Type} [DecidableEq α] (l : List α) (a : α) : List α :=
  if a ∈ l then l else l ++ [a]

@[simp] theorem mem_addToSet {α : Type} [DecidableEq α] {l : List α} {a b : α} :
    b ∈ addToSet l a ↔ b = a ∨ b ∈ l := by
  unfold addToSet
  split_ifs with h
  · constructor
    · exact .inr
    · rintro (rfl | hb)
      · exact h
      · exact hb
  · simp [or_comm]

/-- **The same request**, in another scheduling state. -/
structure Request.SameInputs (r r' : Request) : Prop where
  requestId : r'.requestId = r.requestId
  promptTokenIds : r'.promptTokenIds = r.promptTokenIds
  mmInputs : r'.mmInputs = r.mmInputs
  mmPositions : r'.mmPositions = r.mmPositions
  mmHashes : r'.mmHashes = r.mmHashes
  samplingParams : r'.samplingParams = r.samplingParams
  loraRequest : r'.loraRequest = r.loraRequest

theorem Request.SameInputs.refl (r : Request) : r.SameInputs r :=
  ⟨rfl, rfl, rfl, rfl, rfl, rfl, rfl⟩

theorem Request.SameInputs.trans {r r' r'' : Request} (h : r.SameInputs r')
    (h' : r'.SameInputs r'') : r.SameInputs r'' :=
  ⟨h'.requestId.trans h.requestId, h'.promptTokenIds.trans h.promptTokenIds,
    h'.mmInputs.trans h.mmInputs, h'.mmPositions.trans h.mmPositions,
    h'.mmHashes.trans h.mmHashes, h'.samplingParams.trans h.samplingParams,
    h'.loraRequest.trans h.loraRequest⟩

namespace Scheduler

/-- The constructor. -/
def init (C : SchedulerConfig) : Except PyError Scheduler := do
  require (C.hasConnector = true → C.kvCacheConfig.kvCacheGroups.length = 1)
    (.assertionError .schedule)
  let k ← KVCacheManager.init C.kvCacheConfig C.maxModelLen C.enablePrefixCaching C.useEagle
    C.enableKVCacheEvents
  return { kvCacheManager := k
           encoderCacheManager := .init C.encoderCacheSize
           waiting := createRequestQueue C.policy
           finishedReqIdsDict := if C.includeFinishedSet then some ∅ else none }

/-- The object a queue or list refers to by its identifier. -/
def request (s : Scheduler) (rid : ReqId) : Request := s.objects.getD rid default

/-- Change a request object. -/
def modify (s : Scheduler) (rid : ReqId) (f : Request → Request) : Scheduler :=
  { s with objects := s.objects.set rid (f (s.request rid)) }

/-- The scheduler with another KV cache manager. -/
def withKV (s : Scheduler) (k : KVCacheManager) : Scheduler := { s with kvCacheManager := k }

@[simp] theorem request_withKV (s : Scheduler) (k : KVCacheManager) (id : ReqId) :
    (s.withKV k).request id = s.request id := rfl

@[simp] theorem waiting_withKV (s : Scheduler) (k : KVCacheManager) :
    (s.withKV k).waiting = s.waiting := rfl

section Modify

variable {s : Scheduler} {rid id : ReqId} {f : Request → Request}

theorem request_modify : (s.modify rid f).request id =
    if id = rid then f (s.request rid) else s.request id := by
  simp [request, modify, Dict.getD_set]

@[simp] theorem request_modify_self : (s.modify rid f).request rid = f (s.request rid) := by
  simp [request_modify]

theorem request_modify_ne (h : id ≠ rid) : (s.modify rid f).request id = s.request id := by
  simp [request_modify, h]

@[simp] theorem mem_objects_modify : id ∈ (s.modify rid f).objects ↔ id = rid ∨ id ∈ s.objects :=
  Dict.mem_set

end Modify

theorem request_congr {s s' : Scheduler} (h : s'.objects = s.objects) (id : ReqId) :
    s'.request id = s.request id := by
  rw [request, h]
  rfl

/-- **What a scheduling step leaves alone**: who is in `self.requests`, who has finished, and what
has been freed. -/
structure Frame (s s' : Scheduler) : Prop where
  requests : s'.requests = s.requests
  finishedReqIds : s'.finishedReqIds = s.finishedReqIds
  finishedReqIdsDict : s'.finishedReqIdsDict = s.finishedReqIdsDict
  requestFinishedCalls : s'.requestFinishedCalls = s.requestFinishedCalls
  freedBlocks : s'.freedBlocks = s.freedBlocks

theorem Frame.refl (s : Scheduler) : s.Frame s := ⟨rfl, rfl, rfl, rfl, rfl⟩

theorem Frame.trans {s s' s'' : Scheduler} (h : s.Frame s') (h' : s'.Frame s'') : s.Frame s'' :=
  ⟨h'.requests.trans h.requests, h'.finishedReqIds.trans h.finishedReqIds,
    h'.finishedReqIdsDict.trans h.finishedReqIdsDict,
    h'.requestFinishedCalls.trans h.requestFinishedCalls, h'.freedBlocks.trans h.freedBlocks⟩

/-- What is recorded about the requests that have not been freed, and those that have. -/
structure Ledger where
  requests : List ReqId
  requestFinishedCalls : List (ReqId × Bool)
  freedBlocks : List ReqId

/-- The record of a scheduler. -/
def ledger (s : Scheduler) : Ledger := ⟨s.requests, s.requestFinishedCalls, s.freedBlocks⟩

theorem Frame.ledger {s s' : Scheduler} (h : s.Frame s') : s'.ledger = s.ledger := by
  unfold Scheduler.ledger
  rw [h.requests, h.requestFinishedCalls, h.freedBlocks]

theorem frame_withKV (s : Scheduler) (k : KVCacheManager) : s.Frame (s.withKV k) :=
  ⟨rfl, rfl, rfl, rfl, rfl⟩

/-- **A change of request objects**, and at most of the encoder cache besides. -/
structure OnlyObjects (s s' : Scheduler) : Prop where
  running : s'.running = s.running
  waiting : s'.waiting = s.waiting
  kvCacheManager : s'.kvCacheManager = s.kvCacheManager
  frame : s.Frame s'

theorem OnlyObjects.refl (s : Scheduler) : s.OnlyObjects s := ⟨rfl, rfl, rfl, .refl s⟩

theorem OnlyObjects.trans {s s' s'' : Scheduler} (h : s.OnlyObjects s')
    (h' : s'.OnlyObjects s'') : s.OnlyObjects s'' :=
  ⟨h'.running.trans h.running, h'.waiting.trans h.waiting,
    h'.kvCacheManager.trans h.kvCacheManager, h.frame.trans h'.frame⟩

theorem onlyObjects_modify (s : Scheduler) (rid : ReqId) (f : Request → Request) :
    s.OnlyObjects (s.modify rid f) :=
  ⟨rfl, rfl, rfl, ⟨rfl, rfl, rfl, rfl, rfl⟩⟩

/-- The requests of the scheduler are the same. -/
def SameInputs (s s' : Scheduler) : Prop :=
  ∀ id, (s.request id).SameInputs (s'.request id)

theorem SameInputs.refl (s : Scheduler) : s.SameInputs s := fun _ => .refl _

theorem SameInputs.trans {s s' s'' : Scheduler} (h : s.SameInputs s')
    (h' : s'.SameInputs s'') : s.SameInputs s'' := fun id => (h id).trans (h' id)

theorem SameInputs.of_objects {s s' : Scheduler} (h : s'.objects = s.objects) :
    s.SameInputs s' := fun id => by
  rw [request_congr h]
  exact .refl _

theorem SameInputs.of_modify {s s' : Scheduler} {rid : ReqId} {f : Request → Request}
    (h : s'.objects = (s.modify rid f).objects) (hf : ∀ r : Request, r.SameInputs (f r)) :
    s.SameInputs s' := fun id => by
  rw [request_congr h, request_modify]
  split
  next hid => exact hid ▸ hf _
  next => exact .refl _

/-- **Requests end**: their encoder outputs are freed, and they are listed for the next output; each
is given with the request object at the time. -/
structure Ends (s : Scheduler) (ended : List (ReqId × Request)) (s' : Scheduler) : Prop where
  encoderCacheManager : s'.encoderCacheManager =
    ended.foldl (fun m e => m.free e.2) s.encoderCacheManager
  finishedReqIds : s'.finishedReqIds =
    ended.foldl (fun l e => addToSet l e.1) s.finishedReqIds

theorem Ends.refl (s : Scheduler) : s.Ends [] s := ⟨rfl, rfl⟩

theorem Ends.trans {s s' s'' : Scheduler} {ended ended' : List (ReqId × Request)}
    (h : s.Ends ended s') (h' : s'.Ends ended' s'') : s.Ends (ended ++ ended') s'' := by
  refine ⟨?_, ?_⟩
  · rw [h'.encoderCacheManager, h.encoderCacheManager, List.foldl_append]
  · rw [h'.finishedReqIds, h.finishedReqIds, List.foldl_append]

end Scheduler

/-! ## The output -/

/-- A request that is scheduled for the first time. -/
structure NewRequestData where
  reqId : ReqId
  promptTokenIds : List TokenId
  mmInputs : List MultiModalInput
  mmHashes : List String
  mmPositions : List PlaceholderRange
  samplingParams : Option SamplingParams
  poolingParams : Option PoolingParams
  blockIds : List (List BlockId)
  numComputedTokens : Int
  loraRequest : Option LoRARequest
deriving DecidableEq, Repr

/-- `NewRequestData.from_request`. -/
def NewRequestData.fromRequest (r : Request) (blockIds : List (List BlockId)) : NewRequestData :=
  { reqId := r.requestId
    promptTokenIds := r.promptTokenIds
    mmInputs := r.mmInputs
    mmHashes := r.mmHashes
    mmPositions := r.mmPositions
    samplingParams := r.samplingParams
    poolingParams := r.poolingParams
    blockIds
    numComputedTokens := r.numComputedTokens
    loraRequest := r.loraRequest }

/-- The requests that have been scheduled before: parallel lists. -/
structure CachedRequestData where
  reqIds : List ReqId
  resumedFromPreemption : List Bool
  newTokenIds : List (List TokenId)
  newBlockIds : List (List (List BlockId))
  numComputedTokens : List Int
deriving DecidableEq, Repr

/-- What the model executor is to execute. -/
structure SchedulerOutput where
  scheduledNewReqs : List NewRequestData
  scheduledCachedReqs : CachedRequestData
  numScheduledTokens : Dict ReqId Int
  totalNumScheduledTokens : Int
  scheduledSpecDecodeTokens : Dict ReqId (List TokenId)
  scheduledEncoderInputs : Dict ReqId (List Nat)
  numCommonPrefixBlocks : List Nat
  finishedReqIds : List ReqId
  freeEncoderInputIds : List (ReqId × Nat)
  structuredOutputRequestIds : Dict ReqId Nat
deriving DecidableEq

end InferenceServer
