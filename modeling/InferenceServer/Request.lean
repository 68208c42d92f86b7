import InferenceServer.Basic

/-!
# Requests

The request object of the engine core (`vllm/v1/request.py`), with the parts of the sampling
parameters, LoRA request and placeholder ranges that the scheduler and the KV cache read.

`Request.allTokenIds` is the prompt followed by the output: the source keeps the two lists
`_output_token_ids` and `_all_token_ids` in step through `append_output_token_ids`.
-/

namespace InferenceServer

/-- The status of a request, in the order of the source's `IntEnum`. -/
inductive RequestStatus where
  | waiting
  | waitingForFsm
  | waitingForRemoteKvs
  | running
  | preempted
  | finishedStopped
  | finishedLengthCapped
  | finishedAborted
  | finishedIgnored
deriving DecidableEq, Repr

/-- Anything after `PREEMPTED` is a finished status. -/
def RequestStatus.isFinished : RequestStatus → Bool
  | .waiting | .waitingForFsm | .waitingForRemoteKvs | .running | .preempted => false
  | .finishedStopped | .finishedLengthCapped | .finishedAborted | .finishedIgnored => true

/-- The reason reported to the client. -/
inductive FinishReason where
  | stop
  | length
  | abort
deriving DecidableEq, Repr

/-- `_FINISHED_REASON_MAP`. -/
def RequestStatus.getFinishedReason : RequestStatus → Option FinishReason
  | .finishedStopped => some .stop
  | .finishedLengthCapped => some .length
  | .finishedAborted => some .abort
  | .finishedIgnored => some .length
  | _ => none

/-- The location of a multi-modal item in the prompt. -/
structure PlaceholderRange where
  offset : Nat
  length : Nat
deriving DecidableEq, Repr

/-- The first position behind the placeholder. -/
def PlaceholderRange.stop (p : PlaceholderRange) : Nat := p.offset + p.length

/-- The input of a multi-modal item for its encoder, an opaque value. -/
abbrev MultiModalInput := Nat

/-- A LoRA adapter. -/
structure LoRARequest where
  loraName : String
  loraIntId : Int
deriving DecidableEq, Repr

/-- Which outputs of a request the client gets. -/
inductive RequestOutputKind where
  | cumulative
  | delta
  | finalOnly
deriving DecidableEq, Repr

/-- The sampling parameters the engine and its front end read. -/
structure SamplingParams where
  maxTokens : Nat
  n : Nat := 1
  seed : Option Int := none
  outputKind : RequestOutputKind := .cumulative
  ignoreEos : Bool := false
  stopTokenIds : List TokenId := []
  promptLogprobs : Option Nat := none
  logprobs : Option Nat := none
  /-- Whether `guided_decoding` is set. -/
  guidedDecoding : Bool := false
deriving DecidableEq, Repr

/-- The pooling parameters; the scheduler only asks whether they are there. -/
structure PoolingParams where
  task : String
deriving DecidableEq, Repr

/-- A request. -/
structure Request where
  requestId : ReqId
  clientIndex : Nat := 0
  priority : Int := 0
  samplingParams : Option SamplingParams := none
  poolingParams : Option PoolingParams := none
  eosTokenId : Option TokenId := none
  loraRequest : Option LoRARequest := none
  /-- The arrival time, only ever compared. -/
  arrivalTime : Int := 0
  cacheSalt : Option String := none
  promptTokenIds : List TokenId
  mmInputs : List MultiModalInput := []
  mmPositions : List PlaceholderRange := []
  mmHashes : List String := []
  status : RequestStatus := .waiting
  stopReason : Option TokenId := none
  maxTokens : Nat := 1
  outputTokenIds : List TokenId := []
  numOutputPlaceholders : Int := 0
  specTokenIds : List TokenId := []
  numComputedTokens : Int := 0
  numCachedTokens : Int := -1
  numNansInLogits : Nat := 0
deriving DecidableEq, Repr

namespace Request

/-- Prompt and output. -/
def allTokenIds (r : Request) : List TokenId := r.promptTokenIds ++ r.outputTokenIds

def numTokens (r : Request) : Nat := r.allTokenIds.length

def numTokensWithSpec (r : Request) : Nat := r.numTokens + r.specTokenIds.length

def numOutputTokens (r : Request) : Nat := r.outputTokenIds.length

def isFinished (r : Request) : Bool := r.status.isFinished

/-- The request has multi-modal inputs; there is one input for each placeholder. -/
def hasEncoderInputs (r : Request) : Bool := !r.mmPositions.isEmpty

def getNumEncoderTokens (r : Request) (inputId : Nat) : Nat :=
  (r.mmPositions[inputId]?.map PlaceholderRange.length).getD 0

def useStructuredOutput (r : Request) : Bool :=
  (r.samplingParams.map SamplingParams.guidedDecoding).getD false

def appendOutputTokenIds (r : Request) (tokenIds : List TokenId) : Request :=
  { r with outputTokenIds := r.outputTokenIds ++ tokenIds }

/-- The constructor: what the engine hands over, with the status and the token limit that
follow from the parameters. -/
def new (r : Request) : Request :=
  { r with
    status := if r.useStructuredOutput then .waitingForFsm else .waiting
    stopReason := none
    maxTokens := if r.poolingParams.isSome then 1 else
      (r.samplingParams.map SamplingParams.maxTokens).getD 0
    outputTokenIds := []
    numOutputPlaceholders := 0
    specTokenIds := []
    numComputedTokens := 0
    numCachedTokens := -1
    numNansInLogits := 0 }

@[simp] theorem requestId_new (r : Request) : r.new.requestId = r.requestId := rfl

theorem isFinished_new (r : Request) : r.new.isFinished = false := by
  unfold isFinished new
  split <;> rfl

/-- **The same request later on**: more output, and nothing else that enters a block hash has
changed. -/
structure Extends (r r' : Request) : Prop where
  requestId : r'.requestId = r.requestId
  promptTokenIds : r'.promptTokenIds = r.promptTokenIds
  outputTokenIds : r.outputTokenIds <+: r'.outputTokenIds
  mmPositions : r'.mmPositions = r.mmPositions
  mmHashes : r'.mmHashes = r.mmHashes
  loraRequest : r'.loraRequest = r.loraRequest
  cacheSalt : r'.cacheSalt = r.cacheSalt

theorem Extends.allTokenIds {r r' : Request} (h : Extends r r') :
    r.allTokenIds <+: r'.allTokenIds := by
  unfold Request.allTokenIds
  rw [h.promptTokenIds]
  exact (List.prefix_append_right_inj _).mpr h.outputTokenIds

end Request

end InferenceServer
