import InferenceServer.Basic
import InferenceServer.Lib.Channels
import InferenceServer.Lib.Run

/-!
# A data-parallel deployment

The engines of a data-parallel deployment run in waves. While a wave runs they all step together,
an engine without requests executing a dummy pass; every 32 steps they agree on whether any of them
has an unfinished request, and if not they pause and the wave is over. A paused deployment is woken
by a request: the client that sends it also notifies the coordinator, which broadcasts
`START_DP_WAVE`; and an engine that receives a request of an earlier wave while it is paused reports
this to the coordinator, which then broadcasts on its behalf and leaves that engine out.

The processes exchange messages over FIFO channels, one for each sender and receiver; the input queue
of an engine, which merges what arrives for it, counts as part of the channels. The requests of an
engine's scheduler are a list of identifiers, and a step finishes any of them.
-/

namespace InferenceServer

variable {n m : Nat}

/-! ## Messages -/

/-- The engine a wake-up leaves out. A client names it by its identity, a string of bytes; the
coordinator names an engine that reported to it by its index. -/
inductive EngineRef (n : Nat) where
  | identity (e : Fin n)
  | index (e : Fin n)
  deriving DecidableEq

/-- `START_DP_WAVE`, from the coordinator to the engines. -/
structure StartWave (n : Nat) where
  wave : Nat
  exclude : Option (EngineRef n)
  deriving DecidableEq

/-- An engine compares what is left out with its index: `exclude_eng_index != self.engine_index`. An
identity is never equal to an index. -/
def StartWave.excludes (msg : StartWave n) (e : Fin n) : Bool :=
  msg.exclude == some (.index e)

/-- What a client sends to an engine. -/
inductive ClientInput where
  | add (requestId : ReqId) (wave : Nat)
  | abort (requestIds : List ReqId)
  deriving DecidableEq

/-- What an engine sends to the coordinator, request counts aside. -/
inductive CoordinatorInput where
  | startWave (wave : Nat)
  | waveComplete (wave : Nat)
  deriving DecidableEq

/-! ## The engine -/

/-- `DPEngineCoreProc`: the fields that take part in the protocol. -/
structure DPEngineCore where
  currentWave : Nat := 0
  enginesRunning : Bool := false
  /-- Forward passes since the last agreement. -/
  counter : Nat := 0
  /-- The requests for which `scheduler.has_unfinished_requests()` holds. -/
  unfinished : List ReqId := []
  /-- The engine has left `_process_input_queue` and waits in a forward pass for the others. -/
  stepping : Bool := false
  deriving DecidableEq

namespace DPEngineCore

/-- `add_request`, with a coordinator. -/
def addRequest (e : DPEngineCore) (requestId : ReqId) (requestWave : Nat) :
    DPEngineCore × List CoordinatorInput :=
  let e' := { e with unfinished := e.unfinished ++ [requestId] }
  if requestWave ≠ e.currentWave then
    if e.currentWave < requestWave then
      ({ e' with currentWave := requestWave }, [])
    else if !e.enginesRunning then
      -- A request for an already completed wave: the next one has to be started.
      (e', [.startWave e.currentWave])
    else
      (e', [])
  else
    (e', [])

/-- `abort_requests`. -/
def abortRequests (e : DPEngineCore) (requestIds : List ReqId) : DPEngineCore :=
  { e with unfinished := e.unfinished.filter (· ∉ requestIds) }

/-- `_handle_client_request`, for what a client sends. -/
def handleClientRequest (e : DPEngineCore) : ClientInput → DPEngineCore × List CoordinatorInput
  | .add requestId wave => e.addRequest requestId wave
  | .abort requestIds => (e.abortRequests requestIds, [])

/-- `_handle_client_request`, for `START_DP_WAVE`. -/
def startWave (e : DPEngineCore) (engineIndex : Fin n) (msg : StartWave n) : DPEngineCore :=
  if !msg.excludes engineIndex && decide (e.currentWave ≤ msg.wave) then
    { e with currentWave := msg.wave, enginesRunning := true }
  else e

/-- There is something to step for: `_process_input_queue` returns, and the loop does not go back to
it. -/
def active (e : DPEngineCore) : Bool := e.enginesRunning || !e.unfinished.isEmpty

/-- The forward pass finishes some requests. -/
def execute (e : DPEngineCore) (finished : List ReqId) : DPEngineCore :=
  { e with unfinished := e.unfinished.filter (· ∉ finished) }

/-- `_has_global_unfinished_reqs`, where `anyUnfinished` is what the all-reduce returns. -/
def hasGlobalUnfinishedReqs (e : DPEngineCore) (anyUnfinished : Bool) : Bool × Nat :=
  if e.counter + 1 ≠ 32 then (true, e.counter + 1) else (anyUnfinished, 0)

/-- The end of `run_busy_loop`'s body, after the forward pass. -/
def endStep (e : DPEngineCore) (dpRank : Nat) (anyUnfinished : Bool) :
    DPEngineCore × List CoordinatorInput :=
  let (running, counter) := e.hasGlobalUnfinishedReqs anyUnfinished
  let e' := { e with enginesRunning := running, counter, stepping := false }
  if !running then
    ({ e' with currentWave := e.currentWave + 1 },
      if dpRank = 0 then [.waveComplete e.currentWave] else [])
  else
    (e', [])

end DPEngineCore

/-! ## The coordinator and the clients -/

/-- `DPCoordinatorProc`, request counts aside. -/
structure DPCoordinator where
  currentWave : Nat := 0
  enginesRunning : Bool := false
  deriving DecidableEq

namespace DPCoordinator

/-- `process_input_socket`: a client sends a new request while it takes the engines to be paused. -/
def onFirstReq (c : DPCoordinator) (engineToExclude : EngineRef n) (wave : Nat) :
    DPCoordinator × Option (StartWave n) :=
  if !c.enginesRunning then
    -- If the wave number is stale, the message is to be handled by all the engines.
    let engineToExclude := if wave < c.currentWave then none else some engineToExclude
    ({ c with enginesRunning := true }, some ⟨c.currentWave, engineToExclude⟩)
  else
    (c, none)

/-- `process_input_socket`: a message from one of the engines. -/
def onOutput (c : DPCoordinator) (engIndex : Fin n) :
    CoordinatorInput → DPCoordinator × Option (StartWave n)
  | .waveComplete wave =>
    if c.currentWave ≤ wave then
      ({ c with currentWave := wave + 1, enginesRunning := false }, none)
    else
      (c, none)
  | .startWave wave =>
    if c.currentWave < wave ∨ wave = c.currentWave ∧ c.enginesRunning = false then
      ({ c with currentWave := wave, enginesRunning := true }, some ⟨wave, some (.index engIndex)⟩)
    else
      (c, none)

end DPCoordinator

/-- `DPAsyncMPClient`: what it knows of the engines. -/
structure DPClient where
  currentWave : Nat := 0
  enginesRunning : Bool := false
  deriving DecidableEq

/-! ## The deployment -/

/-- The processes of a deployment and the messages in flight between them. -/
@[ext]
structure Cluster (n m : Nat) where
  engines : Fin n → DPEngineCore
  coordinator : DPCoordinator
  clients : Fin m → DPClient
  /-- `FIRST_REQ`, from a client to its own stats task, with the engine chosen. -/
  firstReqs : Channels (Fin m) (Fin n)
  /-- From the stats task of a client to the coordinator. -/
  notifications : Channels (Fin m) (EngineRef n × Nat)
  /-- From the coordinator to a client: the wave, and whether the engines are running. -/
  published : Channels (Fin m) (Nat × Bool)
  /-- From an engine to the coordinator. -/
  outputs : Channels (Fin n) CoordinatorInput
  /-- From the coordinator to an engine. -/
  starts : Channels (Fin n) (StartWave n)
  /-- From a client to an engine. -/
  inputs : Channels (Fin m × Fin n) ClientInput

-- The derived instance rewrites along equalities of functions, which do not compute.
instance : DecidableEq (Cluster n m) := fun s t =>
  decidable_of_iff (s.engines = t.engines ∧ s.coordinator = t.coordinator ∧ s.clients = t.clients ∧
      s.firstReqs = t.firstReqs ∧ s.notifications = t.notifications ∧ s.published = t.published ∧
      s.outputs = t.outputs ∧ s.starts = t.starts ∧ s.inputs = t.inputs)
    Cluster.ext_iff.symm

/-- A step of one process, or of all engines together. -/
inductive ClusterOp (n m : Nat) where
  /-- A client sends a request to the engine it chose. -/
  | addRequest (c : Fin m) (requestId : ReqId) (e : Fin n)
  /-- A client aborts requests. -/
  | abortRequests (c : Fin m) (requestIds : List ReqId) (e : Fin n)
  /-- The stats task of a client handles `FIRST_REQ`. -/
  | firstReq (c : Fin m)
  /-- The stats task of a client receives what the coordinator published. -/
  | update (c : Fin m)
  /-- The coordinator publishes its state. -/
  | publish
  /-- The coordinator handles a client's notification. -/
  | notification (c : Fin m)
  /-- The coordinator handles an engine's message. -/
  | engineOutput (e : Fin n)
  /-- An engine handles `START_DP_WAVE`. -/
  | startWave (e : Fin n)
  /-- An engine handles a client's message. -/
  | clientInput (c : Fin m) (e : Fin n)
  /-- An engine enters its next forward pass. -/
  | beginStep (e : Fin n)
  /-- The engines execute a forward pass together; it finishes some requests of each. -/
  | collective (finished : Fin n → List ReqId)

namespace Cluster

variable (s : Cluster n m)

/-- All processes have been started. -/
def init (n m : Nat) : Cluster n m where
  engines := fun _ => {}
  coordinator := {}
  clients := fun _ => {}
  firstReqs := .empty
  notifications := .empty
  published := .empty
  outputs := .empty
  starts := .empty
  inputs := .empty

/-- An engine has handled a message, and sends messages to the coordinator. -/
def setEngine (e : Fin n) (r : DPEngineCore × List CoordinatorInput) : Cluster n m :=
  { s with engines := Function.update s.engines e r.1, outputs := s.outputs.post e r.2 }

/-- The coordinator has handled a message; `_send_start_wave`. -/
def setCoordinator (r : DPCoordinator × Option (StartWave n)) : Cluster n m :=
  { s with
    coordinator := r.1
    starts := match r.2 with
      | none => s.starts
      | some msg => s.starts.broadcast msg }

/-- `add_request_async`. -/
def addRequestAsync (c : Fin m) (requestId : ReqId) (e : Fin n) : Cluster n m :=
  { s with
    inputs := s.inputs.post (c, e) [.add requestId (s.clients c).currentWave]
    firstReqs := if !(s.clients c).enginesRunning then s.firstReqs.post c [e] else s.firstReqs }

/-- `run_engine_stats_update_task`: the coordinator is told of a new request. -/
def notifyCoordinator (c : Fin m) (target : Fin n) : Cluster n m :=
  { s with
    clients := Function.update s.clients c { s.clients c with enginesRunning := true }
    notifications := s.notifications.post c [(.identity target, (s.clients c).currentWave)] }

/-- `run_engine_stats_update_task`: the client takes over what was published. -/
def updateClient (c : Fin m) (p : Nat × Bool) : Cluster n m :=
  { s with clients := Function.update s.clients c ⟨p.1, p.2⟩ }

/-- What `ParallelConfig.has_unfinished_dp` returns to every engine. -/
def hasUnfinishedDp (engines : Fin n → DPEngineCore) : Bool :=
  (List.finRange n).any fun e => !(engines e).unfinished.isEmpty

/-- The engines after a forward pass. -/
def execute (finished : Fin n → List ReqId) : Fin n → DPEngineCore :=
  fun e => (s.engines e).execute (finished e)

/-- All engines execute a forward pass and end their step. -/
def collective (finished : Fin n → List ReqId) : Cluster n m :=
  let ended : Fin n → DPEngineCore × List CoordinatorInput := fun e =>
    (s.execute finished e).endStep e (hasUnfinishedDp (s.execute finished))
  { s with engines := fun e => (ended e).1, outputs := fun e => s.outputs e ++ (ended e).2 }

/-- A step; an error if it is not enabled. An engine that waits in a forward pass handles no
messages. -/
def step : ClusterOp n m → Except Unit (Cluster n m)
  | .addRequest c requestId e => .ok (s.addRequestAsync c requestId e)
  | .abortRequests c requestIds e =>
    .ok { s with inputs := s.inputs.post (c, e) [.abort requestIds] }
  | .firstReq c =>
    match s.firstReqs.receive c with
    | none => .error ()
    | some (target, firstReqs) => .ok ({ s with firstReqs }.notifyCoordinator c target)
  | .update c =>
    match s.published.receive c with
    | none => .error ()
    | some (p, published) => .ok ({ s with published }.updateClient c p)
  | .publish =>
    .ok { s with
      published := s.published.broadcast (s.coordinator.currentWave, s.coordinator.enginesRunning) }
  | .notification c =>
    match s.notifications.receive c with
    | none => .error ()
    | some ((target, wave), notifications) =>
      .ok ({ s with notifications }.setCoordinator (s.coordinator.onFirstReq target wave))
  | .engineOutput e =>
    match s.outputs.receive e with
    | none => .error ()
    | some (out, outputs) =>
      .ok ({ s with outputs }.setCoordinator (s.coordinator.onOutput e out))
  | .startWave e =>
    if (s.engines e).stepping then .error () else
    match s.starts.receive e with
    | none => .error ()
    | some (msg, starts) => .ok ({ s with starts }.setEngine e ((s.engines e).startWave e msg, []))
  | .clientInput c e =>
    if (s.engines e).stepping then .error () else
    match s.inputs.receive (c, e) with
    | none => .error ()
    | some (input, inputs) =>
      .ok ({ s with inputs }.setEngine e ((s.engines e).handleClientRequest input))
  | .beginStep e =>
    if (s.engines e).stepping || !(s.engines e).active then .error () else
    .ok (s.setEngine e ({ s.engines e with stepping := true }, []))
  | .collective finished =>
    if (List.finRange n).all fun e => (s.engines e).stepping then .ok (s.collective finished)
    else .error ()

end Cluster

/-- A deployment of `n` engines and `m` clients. -/
def clusterMachine (n m : Nat) : Machine (Cluster n m) (ClusterOp n m) Unit where
  init := .init n m
  step := Cluster.step

end InferenceServer
