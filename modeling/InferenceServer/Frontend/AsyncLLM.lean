import InferenceServer.Lib.Dict
import InferenceServer.Lib.Outcome
import InferenceServer.Lib.Run
import InferenceServer.Request

/-!
# The front end

The process in front of the engine core (`vllm/v1/engine`): `AsyncLLM.add_request`, which fans a
request with `n > 1` out into `n` child requests, and `OutputProcessor.process_outputs`, which turns
the outputs of the engine into outputs of the requests.

The tasks of the event loop run until their next `await`. A call of `add_request` awaits after every
child it has registered, so that it is suspended between two children; the calls are numbered, and a
number stands for the objects that its call has made, the `ParentRequest` and the collector of the
outputs. Of a collector the model keeps what has been put into it. Logprobs and statistics are left
out, and the detokenizer, whose decoding is that of a tokenizer, is a parameter.
-/

namespace InferenceServer.Frontend

open Outcome

/-- The identifier of a request, which its client chooses. -/
abbrev RequestId := String

/-- The number of a call of `add_request`. -/
abbrev CallId := Nat

/-! ## Requests and outputs -/

/-- `EngineCoreRequest`, the fields that the front end reads. -/
structure EngineCoreRequest where
  requestId : RequestId
  promptTokenIds : List TokenId
  samplingParams : Option SamplingParams := none
  poolingParams : Option PoolingParams := none
deriving DecidableEq, Repr

/-- What a request stopped at. -/
inductive StopReason where
  | token (id : TokenId)
  | string (text : String)
deriving DecidableEq, Repr

/-- `EngineCoreOutput`. -/
structure EngineCoreOutput where
  requestId : RequestId
  newTokenIds : List TokenId
  poolingOutput : Option (List Int) := none
  finishReason : Option FinishReason := none
  stopReason : Option StopReason := none
  numCachedTokens : Nat := 0
deriving DecidableEq, Repr

/-- `CompletionOutput`. -/
structure CompletionOutput where
  index : Nat
  text : String
  tokenIds : List TokenId
  finishReason : Option FinishReason
  stopReason : Option StopReason
deriving DecidableEq, Repr

/-- `RequestOutput` and `PoolingRequestOutput`. A slot of the aggregated completions that has not been
filled is `none`. -/
inductive RequestOutput where
  | completions (requestId : RequestId) (prompt : Option String) (promptTokenIds : List TokenId)
      (outputs : List (Option CompletionOutput)) (finished : Bool) (numCachedTokens : Nat)
  | pooling (requestId : RequestId) (promptTokenIds : List TokenId) (data : List Int)
      (finished : Bool)
deriving DecidableEq, Repr

namespace RequestOutput

def finished : RequestOutput → Bool
  | .completions _ _ _ _ finished _ => finished
  | .pooling _ _ _ finished => finished

/-- The completions of the output. -/
def outputs : RequestOutput → List (Option CompletionOutput)
  | .completions _ _ _ outputs _ _ => outputs
  | .pooling _ _ _ _ => []

end RequestOutput

/-- `IncrementalDetokenizer`: the states of the detokenizer of a request, and its methods. `update`
returns the stop string that it has found, if any. -/
structure IncrementalDetokenizer (D : Type) where
  fromNewRequest : EngineCoreRequest → D
  update : D → List TokenId → Bool → Option String × D
  getNextOutputText : D → Bool → Bool → String × D
  outputTokenIds : D → List TokenId

/-- The class itself, used when no text is asked for. -/
def IncrementalDetokenizer.base : IncrementalDetokenizer (List TokenId) where
  fromNewRequest _ := []
  update tokenIds newTokenIds _ := (none, tokenIds ++ newTokenIds)
  getNextOutputText tokenIds _ _ := ("", tokenIds)
  outputTokenIds tokenIds := tokenIds

/-! ## Parallel sampling -/

/-- `ParentRequest`; `childRequests` is a set. -/
structure ParentRequest where
  requestId : RequestId
  samplingParams : SamplingParams
  childRequests : List RequestId := []
  outputAggregator : List (Option CompletionOutput)
  cachedChildSamplingParams : Option SamplingParams := none
deriving DecidableEq, Repr

namespace ParentRequest

/-- The constructor. -/
def new (requestId : RequestId) (samplingParams : SamplingParams) : ParentRequest :=
  { requestId
    samplingParams
    outputAggregator :=
      if samplingParams.outputKind = .finalOnly then List.replicate samplingParams.n none else [] }

variable (p : ParentRequest)

def n : Nat := p.samplingParams.n

/-- The identifier of a child. -/
def childReqId (index : Nat) : RequestId := toString index ++ "_" ++ p.requestId

/-- `_get_child_sampling_params`. -/
def getChildSamplingParams (index : Nat) : SamplingParams × ParentRequest :=
  match p.cachedChildSamplingParams with
  | some params => (params, p)
  | none =>
    let params := { p.samplingParams with n := 1 }
    match p.samplingParams.seed with
    | none => (params, { p with cachedChildSamplingParams := some params })
    | some seed => ({ params with seed := some (seed + index) }, p)

/-- `get_child_info`. -/
def getChildInfo (index : Nat) : (RequestId × SamplingParams) × ParentRequest :=
  let p' := { p with childRequests := p.childRequests.insert (p.childReqId index) }
  let (params, p') := p'.getChildSamplingParams index
  ((p.childReqId index, params), p')

/-- Put a completion into its slot. -/
def aggregate (c : CompletionOutput) : Except PyError ParentRequest :=
  if c.index < p.outputAggregator.length then
    .ok { p with outputAggregator := p.outputAggregator.set c.index (some c) }
  else .error .indexError

/-- A child that has finished is not outstanding any more. -/
def removeFinished (childRequestId : RequestId) (c : CompletionOutput) :
    Except PyError ParentRequest :=
  if c.finishReason.isNone then .ok p
  else if childRequestId ∈ p.childRequests then
    .ok { p with childRequests := p.childRequests.filter (· ≠ childRequestId) }
  else .error .keyError

/-- `get_outputs`: the identifier to answer under, the completions, and whether all children have
finished. -/
def getOutputs (childRequestId : RequestId) (c : CompletionOutput) :
    Except PyError ((RequestId × List (Option CompletionOutput) × Bool) × ParentRequest) := do
  let p ← p.removeFinished childRequestId c
  let finished := p.childRequests.isEmpty
  if p.samplingParams.outputKind ≠ .finalOnly then
    return ((p.requestId, [some c], finished), p)
  else do
    let p ← p.aggregate c
    return ((p.requestId, if finished then p.outputAggregator else [], finished), p)

end ParentRequest

/-! ## The state of a request -/

/-- `RequestState`; `parentReq` and `queue` are references. -/
structure RequestState (D : Type) where
  requestId : RequestId
  parentReq : Option CallId
  requestIndex : Nat
  outputKind : RequestOutputKind
  prompt : Option String
  promptTokenIds : List TokenId
  detokenizer : Option D
  queue : CallId
deriving DecidableEq, Repr

namespace RequestState

variable {D : Type} (I : IncrementalDetokenizer D)

/-- `from_new_request`. -/
def fromNewRequest (request : EngineCoreRequest) (prompt : Option String)
    (parentReq : Option CallId) (requestIndex : Nat) (queue : CallId) :
    Except PyError (RequestState D) :=
  match request.samplingParams, request.poolingParams with
  | some params, _ =>
    .ok
      { requestId := request.requestId
        parentReq
        requestIndex
        outputKind := params.outputKind
        prompt
        promptTokenIds := request.promptTokenIds
        detokenizer := some (I.fromNewRequest request)
        queue }
  | none, some _ =>
    -- a pooling request has one output only
    .ok
      { requestId := request.requestId
        parentReq
        requestIndex
        outputKind := .finalOnly
        prompt
        promptTokenIds := request.promptTokenIds
        detokenizer := none
        queue }
  | none, none => .error (.assertionError .fromNewRequest)

variable (rs : RequestState D)

/-- `_new_completion_output`. -/
def newCompletionOutput (tokenIds : List TokenId) (finishReason : Option FinishReason)
    (stopReason : Option StopReason) : Except PyError (CompletionOutput × RequestState D) :=
  match rs.detokenizer with
  | none => .error (.assertionError .newCompletionOutput)
  | some d =>
    let delta := decide (rs.outputKind = .delta)
    let (text, d) := I.getNextOutputText d finishReason.isSome delta
    .ok (
      { index := rs.requestIndex
        text
        tokenIds := if delta then tokenIds else I.outputTokenIds d
        finishReason
        stopReason := if finishReason.isSome then stopReason else none },
      { rs with detokenizer := some d })

/-- The detokenizer part of `process_outputs`: the reasons for which the request finishes. -/
def detokenize (o : EngineCoreOutput) :
    Except PyError ((Option FinishReason × Option StopReason) × RequestState D) :=
  if o.poolingOutput.isSome then .ok ((o.finishReason, o.stopReason), rs)
  else
    match rs.detokenizer with
    | none => .error (.assertionError .processOutputs)
    | some d =>
      let (stopString, d) := I.update d o.newTokenIds (o.finishReason = some .stop)
      let rs := { rs with detokenizer := some d }
      match stopString with
      | some text => .ok ((some .stop, some (.string text)), rs)
      | none => .ok ((o.finishReason, o.stopReason), rs)

/-- `make_request_output`, given the object that `parent_req` refers to. -/
def makeRequestOutput (parent : Option ParentRequest) (o : EngineCoreOutput)
    (finishReason : Option FinishReason) (stopReason : Option StopReason) :
    Except PyError (Option RequestOutput × RequestState D × Option ParentRequest) :=
  if finishReason.isNone ∧ rs.outputKind = .finalOnly then .ok (none, rs, parent)
  else
    match o.poolingOutput with
    | some data =>
      .ok (some (.pooling rs.requestId rs.promptTokenIds data finishReason.isSome), rs, parent)
    | none => do
      let (output, rs) ← rs.newCompletionOutput I o.newTokenIds finishReason stopReason
      match parent with
      | none =>
        return (some (.completions rs.requestId rs.prompt rs.promptTokenIds [some output]
          finishReason.isSome o.numCachedTokens), rs, none)
      | some p => do
        let ((requestId, outputs, finished), p) ← p.getOutputs rs.requestId output
        if outputs = [] then return (none, rs, some p)
        else return (some (.completions requestId rs.prompt rs.promptTokenIds outputs finished
          o.numCachedTokens), rs, some p)

end RequestState

/-! ## The front end -/

/-- A suspended call of `add_request`: the request it fans out, and the next of the `n` children. -/
structure FanOut where
  request : EngineCoreRequest
  prompt : Option String
  n : Nat
  idx : Nat
deriving DecidableEq, Repr

/-- The state of the front end. The first two fields are those of the `OutputProcessor`. -/
structure AsyncLLM (D : Type) where
  requestStates : Dict RequestId (RequestState D) := ∅
  parentRequests : Dict RequestId CallId := ∅
  /-- The parent requests of the calls. -/
  parents : Dict CallId ParentRequest := ∅
  /-- The calls that are fanning out. -/
  fanOuts : Dict CallId FanOut := ∅
  numCalls : Nat := 0
  /-- What has been put into the collectors, in order. -/
  received : List (CallId × RequestOutput) := []
  /-- The children that have finished, in order. -/
  finishedChildren : List (CallId × Nat) := []
  /-- What has been sent to the engine core. -/
  sent : List EngineCoreRequest := []
  aborted : List RequestId := []
deriving DecidableEq

namespace AsyncLLM

variable {D : Type} (I : IncrementalDetokenizer D) (s : AsyncLLM D)

/-- The parent of a request. -/
def parentOf (rs : RequestState D) : Option ParentRequest := rs.parentReq.bind s.parents.get?

/-- `_add_request`, with `OutputProcessor.add_request`. -/
def register (request : EngineCoreRequest) (prompt : Option String)
    (parentReq : Option (CallId × RequestId)) (index : Nat) (queue : CallId) :
    Except PyError (AsyncLLM D) := do
  require (request.requestId ∉ s.requestStates) PyError.valueError
  let rs ← RequestState.fromNewRequest I request prompt (parentReq.map Prod.fst) index queue
  return { s with
    requestStates := s.requestStates.set request.requestId rs
    parentRequests := parentReq.elim s.parentRequests fun e => s.parentRequests.set e.2 e.1
    sent := s.sent ++ [request] }

/-- One round of the loop of `add_request`. If the child cannot be registered, the call ends with the
exception. -/
def fanOut (c : CallId) (p : ParentRequest) (f : FanOut) : AsyncLLM D :=
  let ((childId, params), p') := p.getChildInfo f.idx
  let s := { s with parents := s.parents.set c p' }
  let child := { f.request with requestId := childId, samplingParams := some params }
  match s.register I child f.prompt (some (c, p'.requestId)) f.idx c with
  | .ok s =>
    { s with
      fanOuts :=
        if f.idx + 1 < f.n then s.fanOuts.set c { f with idx := f.idx + 1 } else s.fanOuts.erase c }
  | .error _ => { s with fanOuts := s.fanOuts.erase c }

/-- `add_request`, up to its first `await`, or to an exception, which its client gets. -/
def addRequest (request : EngineCoreRequest) (prompt : Option String) : AsyncLLM D :=
  let c := s.numCalls
  let s := { s with numCalls := s.numCalls + 1 }
  match request.samplingParams with
  | none => (s.register I request prompt none 0 c).toOption.getD s
  | some params =>
    if params.n = 1 then (s.register I request prompt none 0 c).toOption.getD s
    -- no child is ever registered
    else if params.n = 0 then s
    else s.fanOut I c (.new request.requestId params) { request, prompt, n := params.n, idx := 0 }

/-- A suspended call of `add_request` goes on. -/
def resume (c : CallId) : Except PyError (AsyncLLM D) :=
  match s.fanOuts.get? c, s.parents.get? c with
  | some f, some p => .ok (s.fanOut I c p f)
  | _, _ => .error .keyError

/-- An output is put into the collector of its request, which has updated itself and its parent. -/
def putOutput (o : EngineCoreOutput) (rs : RequestState D) (parent : Option ParentRequest)
    (out : Option RequestOutput) : AsyncLLM D :=
  { s with
    requestStates := s.requestStates.set o.requestId rs
    parents :=
      match rs.parentReq, parent with
      | some c, some p => s.parents.set c p
      | _, _ => s.parents
    received :=
      match out with
      | some out => s.received ++ [(rs.queue, out)]
      | none => s.received }

/-- A request that has finished is forgotten, and its parent with the last child. -/
def freeCompleted (o : EngineCoreOutput) (rs : RequestState D) : AsyncLLM D :=
  { s with
    requestStates := s.requestStates.erase o.requestId
    parentRequests :=
      match s.parentOf rs with
      | some p =>
        if p.childRequests = [] then s.parentRequests.erase p.requestId else s.parentRequests
      | none => s.parentRequests
    finishedChildren :=
      match rs.parentReq with
      | some c => s.finishedChildren ++ [(c, rs.requestIndex)]
      | none => s.finishedChildren
    aborted := if o.finishReason.isNone then s.aborted ++ [o.requestId] else s.aborted }

/-- One round of the loop of `process_outputs`. -/
def processOutput (o : EngineCoreOutput) : Except PyError (AsyncLLM D) :=
  match s.requestStates.get? o.requestId with
  -- an output of a request that has been aborted
  | none => .ok s
  | some rs => do
    let ((finishReason, stopReason), rs) ← rs.detokenize I o
    let (out, rs, parent) ← rs.makeRequestOutput I (s.parentOf rs) o finishReason stopReason
    let s := s.putOutput o rs parent out
    return if finishReason.isSome then s.freeCompleted o rs else s

/-- `process_outputs`. -/
def processOutputs (outputs : List EngineCoreOutput) : Except PyError (AsyncLLM D) :=
  threadM (fun o s => processOutput I s o) outputs s

end AsyncLLM

/-! ## Interleavings -/

/-- A piece of a task between two awaits. -/
inductive AsyncOp where
  | addRequest (request : EngineCoreRequest) (prompt : Option String)
  | resume (c : CallId)
  | processOutputs (outputs : List EngineCoreOutput)
deriving Repr

section

variable {D : Type} (I : IncrementalDetokenizer D)

def AsyncLLM.step (s : AsyncLLM D) : AsyncOp → Except PyError (AsyncLLM D)
  | .addRequest request prompt => .ok (s.addRequest I request prompt)
  | .resume c => s.resume I c
  | .processOutputs outputs => s.processOutputs I outputs

/-- The interleavings of the tasks of a front end. -/
def asyncMachine : Machine (AsyncLLM D) AsyncOp PyError where
  init := {}
  step := AsyncLLM.step I

end

end InferenceServer.Frontend
