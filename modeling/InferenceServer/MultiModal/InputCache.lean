import InferenceServer.Frontend.AsyncLLM
import InferenceServer.Lib.LRUCache

/-!
# The mirrored cache of multi-modal inputs

The front end does not send an input to the engine core that is there already
(`vllm/v1/engine/mm_input_cache.py`). Both processes keep a cache of the same capacity, keyed by the
hashes of the inputs. The front end looks an input up in its own cache and sends the hash alone if it
finds it; the engine core then takes the input from its cache. So the two caches have to evict the
same inputs, although the front end updates its cache when it processes a request, and the engine
core when a message arrives: a call of `add_request` may raise in between, and a request that is
fanned out sends one message for each child.

The sizes of the inputs, and the input that a hash belongs to, are parameters. The calls that raise
before they reach the cache are left out.
-/

namespace InferenceServer.Frontend

open Outcome

/-- The multi-modal part of a message: the hashes, each with the input unless it is withheld. -/
abbrev MmMessage (κ ν : Type) := List (κ × Option ν)

section

variable {κ ν : Type} [DecidableEq κ] (size : ν → Nat) (capacity : Nat) (useCache : Bool)

/-- The loop of `get_and_update_p0`; the cache keeps what was done before an exception. -/
def updateClient (input : κ → ν) : LRUCache κ ν → List κ →
    Except PyError (MmMessage κ ν) × LRUCache κ ν
  | c, [] => (.ok [], c)
  | c, h :: hashes =>
    match c.get? h with
    | some _ =>
      let (message, c) := updateClient input (c.touch h) hashes
      (message.map ((h, none) :: ·), c)
    | none =>
      match c.setItem size capacity h (input h) with
      | none => (.error .valueError, c)
      | some c =>
        let (message, c) := updateClient input c hashes
        (message.map ((h, some (input h)) :: ·), c)

/-- `get_and_update_p0`. -/
def getAndUpdateP0 (input : κ → ν) (c : LRUCache κ ν) (hashes : List κ) :
    Except PyError (MmMessage κ ν) × LRUCache κ ν :=
  if useCache then updateClient size capacity input c hashes
  else (.ok (hashes.map fun h => (h, some (input h))), c)

/-- The loop of `get_and_update_p1`. -/
def updateServer : LRUCache κ ν → MmMessage κ ν → Except PyError (List ν × LRUCache κ ν)
  | c, [] => .ok ([], c)
  | c, (h, none) :: message =>
    match c.get? h with
    | none => .error .keyError
    | some v => do
      let (inputs, c) ← updateServer (c.touch h) message
      return (v :: inputs, c)
  | c, (h, some v) :: message =>
    match c.setItem size capacity h v with
    | none => .error .valueError
    | some c => do
      let (inputs, c) ← updateServer c message
      return (v :: inputs, c)

/-- `get_and_update_p1`; without the cache an input that is withheld fails an assertion. -/
def getAndUpdateP1 (c : LRUCache κ ν) (message : MmMessage κ ν) :
    Except PyError (List ν × LRUCache κ ν) :=
  if useCache then updateServer size capacity c message
  else do
    let inputs ← message.mapM fun e =>
      e.2.elim (.error (.assertionError .getAndUpdateP1)) Except.ok
    return (inputs, c)

end

/-- A front end and an engine core. -/
structure Mirror (D κ ν : Type) where
  front : AsyncLLM D := {}
  /-- `mm_input_cache_client`. -/
  client : LRUCache κ ν := .empty
  /-- The inputs of the calls, which their children share. -/
  callInputs : Dict CallId (MmMessage κ ν) := ∅
  /-- The messages in flight, in the order sent. -/
  channel : List (MmMessage κ ν) := []
  /-- `mm_input_cache_server`. -/
  server : LRUCache κ ν := .empty

/-- What happens. A call of `add_request` has the hashes of its inputs. -/
inductive MirrorOp (κ : Type) where
  | addRequest (request : EngineCoreRequest) (prompt : Option String) (hashes : List κ)
  /-- A call that is fanning out goes on. -/
  | resume (c : CallId)
  | processOutputs (outputs : List EngineCoreOutput)
  /-- The engine core receives the oldest message. -/
  | receive

namespace Mirror

variable {D κ ν : Type} [DecidableEq κ] (I : IncrementalDetokenizer D) (size : ν → Nat)
  (capacity : Nat) (useCache : Bool) (input : κ → ν) (s : Mirror D κ ν)

/-- The front end has made a step, and sent the inputs once for each request. -/
def send (front : AsyncLLM D) (message : MmMessage κ ν) : Mirror D κ ν :=
  { s with
    front
    channel := s.channel ++
      List.replicate (front.sent.length - s.front.sent.length) message }

/-- `add_request`, from the update of the cache on. -/
def addRequest (request : EngineCoreRequest) (prompt : Option String) (hashes : List κ) :
    Mirror D κ ν :=
  match getAndUpdateP0 size capacity useCache input s.client hashes with
  | (.error _, client) => { s with client }
  | (.ok message, client) =>
    { s with client, callInputs := s.callInputs.set s.front.numCalls message }.send
      (s.front.addRequest I request prompt) message

/-- The step function. An exception in the engine core ends its input thread. -/
def apply : MirrorOp κ → Except PyError (Mirror D κ ν)
  | .addRequest request prompt hashes =>
    .ok (s.addRequest I size capacity useCache input request prompt hashes)
  | .resume c =>
    match s.callInputs.get? c with
    | none => .error .keyError
    | some message => do
      let front ← s.front.resume I c
      return s.send front message
  | .processOutputs outputs => do
    let front ← s.front.processOutputs I outputs
    return { s with front }
  | .receive =>
    match s.channel with
    | [] => .error .indexError
    | message :: channel => do
      let (_, server) ← getAndUpdateP1 size capacity useCache s.server message
      return { s with channel, server }

end Mirror

/-- The runs of a front end and an engine core. -/
def mirrorMachine {D κ ν : Type} [DecidableEq κ] (I : IncrementalDetokenizer D) (size : ν → Nat)
    (capacity : Nat) (useCache : Bool) (input : κ → ν) : Machine (Mirror D κ ν) (MirrorOp κ) PyError where
  init := {}
  step := Mirror.apply I size capacity useCache input

end InferenceServer.Frontend
