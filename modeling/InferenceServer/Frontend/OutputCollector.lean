import InferenceServer.Frontend.AsyncLLM
import InferenceServer.Frontend.Detokenizer

/-!
# The collector of the outputs of a request

`RequestOutputCollector` (`vllm/v1/engine/output_processor.py`) is a mailbox with one place between the
output handler and the task that waits for the outputs of a request. If the place is taken, a new output
is merged into the one that is there (`RequestOutput.add` in `vllm/outputs.py`).

Of the outputs the model has the fields that are merged. An entry of the log probabilities, a cumulative
log probability and the parameters of a KV transfer are only handed on, so that their types are
parameters.
-/

namespace InferenceServer.Outputs

open Outcome
open Frontend (Text StopReason)

/-! ## Outputs -/

/-- `CompletionOutput`. -/
structure CompletionOutput (L C : Type) where
  index : Nat
  text : Text
  tokenIds : List TokenId
  cumulativeLogprob : Option C
  logprobs : Option (List L)
  finishReason : Option FinishReason := none
  stopReason : Option StopReason := none
deriving DecidableEq

/-- `RequestOutput`. -/
structure RequestOutput (L C K : Type) where
  outputs : List (CompletionOutput L C)
  finished : Bool
  kvTransferParams : Option K := none
deriving DecidableEq

variable {L C K : Type}

/-- The next completion of the same index is appended, or put in the place of the old values. -/
def CompletionOutput.merge (completion next : CompletionOutput L C) :
    Except PyError (CompletionOutput L C) := do
  require ((next.logprobs.getD []).isEmpty = true ∨ completion.logprobs.isSome = true)
    (PyError.assertionError .requestOutputAdd)
  return { completion with
    text := completion.text ++ next.text
    tokenIds := completion.tokenIds ++ next.tokenIds
    logprobs := completion.logprobs.map (· ++ next.logprobs.getD [])
    cumulativeLogprob := next.cumulativeLogprob
    finishReason := next.finishReason
    stopReason := next.stopReason }

/-- The inner loop of `add`: the first completion of the same index is merged or replaced. -/
def addCompletion (aggregate : Bool) (next : CompletionOutput L C) :
    List (CompletionOutput L C) → Except PyError (List (CompletionOutput L C))
  | [] => .ok [next]
  | completion :: rest =>
    if completion.index = next.index then
      if aggregate then do
        let completion ← completion.merge next
        return completion :: rest
      else .ok (next :: rest)
    else do
      let rest ← addCompletion aggregate next rest
      return completion :: rest

/-- `RequestOutput.add`. -/
def RequestOutput.add (self nextOutput : RequestOutput L C K) (aggregate : Bool) :
    Except PyError (RequestOutput L C K) := do
  let outputs ← threadM (addCompletion aggregate) nextOutput.outputs self.outputs
  return {
    outputs
    finished := self.finished || nextOutput.finished
    kvTransferParams := nextOutput.kvTransferParams }

/-! ## The collector -/

/-- What can be put into a collector: an output, or an exception. -/
inductive Item (L C K : Type) where
  | output (o : RequestOutput L C K)
  | exception (e : PyError)
deriving DecidableEq

/-- `RequestOutputCollector`; `ready` is an event. -/
structure RequestOutputCollector (L C K : Type) where
  aggregate : Bool
  output : Option (Item L C K) := none
  ready : Bool := false
deriving DecidableEq

namespace RequestOutputCollector

/-- `__init__`. -/
def new (outputKind : RequestOutputKind) : RequestOutputCollector L C K where
  aggregate := outputKind = .delta

variable (q : RequestOutputCollector L C K)

/-- `put`. -/
def put (output : Item L C K) : Except PyError (RequestOutputCollector L C K) :=
  match q.output, output with
  | none, output | some _, output@(.exception _) =>
    .ok { q with output := some output, ready := true }
  | some (.output held), .output next => do
    let held ← held.add next q.aggregate
    return { q with output := some (.output held) }
  -- behind an exception nothing is kept
  | some (.exception _), .output _ => .ok q

/-- `get_nowait`: the output or the exception that is raised, if there is one. -/
def getNowait : Option (Item L C K) × RequestOutputCollector L C K :=
  match q.output with
  | none => (none, q)
  | some output => (some output, { q with output := none, ready := false })

/-- `get`, from when the task runs to its end or to where it waits for `ready`; `none` if it waits. -/
def get : Option (Item L C K × RequestOutputCollector L C K) :=
  q.output.map fun output => (output, { q with output := none, ready := false })

end RequestOutputCollector

/-! ## A consumer -/

/-- What the two tasks do with the collector. -/
inductive CollectorOp (L C K : Type) where
  | put (o : RequestOutput L C K)
  | get
  | getNowait

/-- The collector, and what the consumer has received. -/
structure Consumer (L C K : Type) where
  collector : RequestOutputCollector L C K
  received : List (RequestOutput L C K) := []

namespace Consumer

variable (s : Consumer L C K)

/-- The consumer receives an output, or an exception, which ends it. -/
def receive : Item L C K → RequestOutputCollector L C K → Consumer L C K
  | .output o, collector => { collector, received := s.received ++ [o] }
  | .exception _, collector => { s with collector }

/-- One step: an output is put, or the consumer asks for one. -/
def step (op : CollectorOp L C K) : Except PyError (Consumer L C K) :=
  match op with
  | .put o => do
    let collector ← s.collector.put (.output o)
    return { s with collector }
  | .get =>
    match s.collector.get with
    | none => .ok s
    | some (item, collector) => .ok (s.receive item collector)
  | .getNowait =>
    match s.collector.getNowait with
    | (none, collector) => .ok { s with collector }
    | (some item, collector) => .ok (s.receive item collector)

/-- The steps of the two tasks, in any order. -/
def run (ops : List (CollectorOp L C K)) : Except PyError (Consumer L C K) :=
  threadM (fun op s => step s op) ops s

/-- The outputs that have been received, and the one that is received next. -/
def delivered : List (RequestOutput L C K) :=
  s.received ++
    match s.collector.output with
    | some (.output o) => [o]
    | _ => []

end Consumer

end InferenceServer.Outputs
