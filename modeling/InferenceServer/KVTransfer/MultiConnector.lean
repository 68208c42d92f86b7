import InferenceServer.Basic
import InferenceServer.Lib.Dict
import InferenceServer.Lib.Run

/-!
# Transfers of KV caches

When a request has finished, the connectors of a `MultiConnector` may ask to keep its blocks until
they have saved them (`vllm/distributed/kv_transfer/kv_connector/v1/multi_connector.py`). From then on
each connector reports the request once on each worker. Two countdowns turn these reports into one:
the `MultiConnector` of a worker waits for all connectors, and `KVOutputAggregator`
(`kv_connector/utils.py`) for all workers. How many connectors there are to wait for is known to the
scheduler; the workers learn it from the metadata of the next step. An asynchronous load has one
connector, so only the second countdown is needed for it.

The connectors themselves are inputs: what they answer to the scheduler, and what they report on a
worker in a step. The steps are executed in the order in which they were scheduled. With a batch
queue, `EngineCore.step_with_batch_queue` does not execute a step without scheduled tokens;
`EngineCore.step` does.
-/

namespace InferenceServer.KVTransfer

/-- What a step may raise. -/
inductive TransferError where
  /-- Two connectors produce transfer parameters. -/
  | runtimeError
  | assertionError
  | keyError
  /-- Not an exception: the step is not possible in this state. -/
  | blocked
  deriving DecidableEq, Repr

/-- What one connector reports on one worker in one step: two sets of requests. -/
structure TransferReport where
  sending : List ReqId := []
  recving : List ReqId := []
  sending_nodup : sending.Nodup := by decide
  recving_nodup : recving.Nodup := by decide

/-- `finished_sending` and `finished_recving` of a `ModelRunnerOutput`; an empty set is `None`. -/
structure FinishedTransfers where
  sending : List ReqId := []
  recving : List ReqId := []
  deriving DecidableEq, Repr

/-- `MultiKVConnectorMetadata`. -/
structure MultiKVConnectorMetadata where
  extraAsyncSaves : Dict ReqId Nat := ∅

/-- `MultiConnector`, on the scheduler or on a worker. -/
structure MultiConnector where
  requestsToConnector : Dict ReqId Nat := ∅
  /-- How many async saves there are beyond the first. -/
  extraAsyncSaves : Dict ReqId Nat := ∅

/-! ## The scheduler's side -/

namespace MultiConnector

/-- `get_num_new_matched_tokens`: the first connector that has tokens is chosen. -/
def getNumNewMatchedTokens (m : MultiConnector) (id : ReqId) (answers : List (Nat × Bool)) :
    (Nat × Bool) × MultiConnector :=
  answers.zipIdx.foldl (fun p e =>
    if p.1.1 = 0 ∧ 0 < e.1.1 then
      (e.1, { p.2 with requestsToConnector := p.2.requestsToConnector.set id e.2 })
    else p) ((0, false), m)

/-- One turn of the loop of `request_finished`. -/
def countAnswer {P : Type} (p : Nat × Option P) (answer : Bool × Option P) :
    Except TransferError (Nat × Option P) :=
  let asyncSaves := if answer.1 then p.1 + 1 else p.1
  match answer.2, p.2 with
  | none, params => .ok (asyncSaves, params)
  | some params, none => .ok (asyncSaves, some params)
  | some _, some _ => .error .runtimeError

/-- `request_finished`: whether to delay freeing the blocks, and the transfer parameters. -/
def requestFinished {P : Type} (m : MultiConnector) (id : ReqId) (answers : List (Bool × Option P)) :
    Except TransferError ((Bool × Option P) × MultiConnector) := do
  let (asyncSaves, kvTxferParams) ← answers.foldlM countAnswer (0, none)
  let extraAsyncSaves :=
    if 1 < asyncSaves then m.extraAsyncSaves.set id (asyncSaves - 1) else m.extraAsyncSaves
  return ((decide (0 < asyncSaves), kvTxferParams),
    { requestsToConnector := m.requestsToConnector.erase id, extraAsyncSaves })

/-- `build_connector_meta`: the counts are handed over. -/
def buildConnectorMeta (m : MultiConnector) : MultiKVConnectorMetadata × MultiConnector :=
  ({ extraAsyncSaves := m.extraAsyncSaves }, { m with extraAsyncSaves := ∅ })

/-! ## The worker's side -/

/-- `bind_connector_metadata`. -/
def bindConnectorMetadata (m : MultiConnector) (metadata : MultiKVConnectorMetadata) :
    MultiConnector :=
  { m with
    extraAsyncSaves :=
      metadata.extraAsyncSaves.entries.foldl (fun d e => d.set e.1 e.2) m.extraAsyncSaves }

/-- A connector reports that `id` is saved. -/
def finishSave (p : FinishedTransfers × MultiConnector) (id : ReqId) :
    Except TransferError (FinishedTransfers × MultiConnector) :=
  match p.2.extraAsyncSaves.get? id with
  | none => .ok ({ p.1 with sending := p.1.sending.insert id }, p.2)
  | some extraPending =>
    if extraPending = 0 then .error .assertionError
    else if extraPending = 1 then
      .ok (p.1, { p.2 with extraAsyncSaves := p.2.extraAsyncSaves.erase id })
    else
      .ok (p.1, { p.2 with extraAsyncSaves := p.2.extraAsyncSaves.set id (extraPending - 1) })

/-- One turn of the loop of `get_finished`. -/
def collect (p : FinishedTransfers × MultiConnector) (r : TransferReport) :
    Except TransferError (FinishedTransfers × MultiConnector) :=
  if r.recving = [] ∧ r.sending = [] then .ok p
  else r.sending.foldlM finishSave
    ({ p.1 with recving := r.recving.foldl (fun s id => s.insert id) p.1.recving }, p.2)

/-- `get_finished`, for the reports of the connectors. -/
def getFinished (m : MultiConnector) (reports : List TransferReport) :
    Except TransferError (FinishedTransfers × MultiConnector) :=
  reports.foldlM collect ({}, m)

end MultiConnector

/-! ## The outputs of all workers -/

/-- `KVOutputAggregator`: a request that is not in the dictionaries waits for all workers. -/
structure KVOutputAggregator where
  recvRemainingCount : Dict ReqId Int := ∅
  sendRemainingCount : Dict ReqId Int := ∅

namespace KVOutputAggregator

/-- One turn of the loop of `update_finished_set`. -/
def updateFinished (worldSize : Nat) (p : Dict ReqId Int × List ReqId) (id : ReqId) :
    Dict ReqId Int × List ReqId :=
  let remaining := p.1.getD id worldSize - 1
  if remaining = 0 then (p.1.erase id, p.2.insert id) else (p.1.set id remaining, p.2)

/-- `update_finished_set`. -/
def updateFinishedSet (worldSize : Nat) (p : Dict ReqId Int × List ReqId) (reqIds : List ReqId) :
    Dict ReqId Int × List ReqId :=
  reqIds.foldl (updateFinished worldSize) p

/-- `aggregate`. -/
def aggregate (worldSize : Nat) (a : KVOutputAggregator) (outputs : List FinishedTransfers) :
    FinishedTransfers × KVOutputAggregator :=
  let sent := outputs.foldl (fun p o => updateFinishedSet worldSize p o.sending)
    (a.sendRemainingCount, [])
  let received := outputs.foldl (fun p o => updateFinishedSet worldSize p o.recving)
    (a.recvRemainingCount, [])
  ({ sending := sent.2, recving := received.2 },
    { sendRemainingCount := sent.1, recvRemainingCount := received.1 })

end KVOutputAggregator

/-! ## The scheduler -/

/-- A request of the scheduler, with the blocks it holds. -/
structure KVRequest where
  blockIds : List BlockId := []
  finished : Bool := false
  deriving DecidableEq, Repr

/-- What the scheduler keeps of a transfer. -/
structure KVScheduler where
  requests : Dict ReqId KVRequest := ∅
  /-- The requests whose status is `WAITING_FOR_REMOTE_KVS`. -/
  waitingForRemoteKvs : List ReqId := []
  finishedRecvingKvReqIds : List ReqId := []
  connector : MultiConnector := {}

namespace KVScheduler

/-- `_free_blocks`: the blocks go with the request. -/
def freeBlocks (s : KVScheduler) (id : ReqId) : Except TransferError KVScheduler :=
  match s.requests.get? id with
  | none => .error .keyError
  | some r =>
    if r.finished then .ok { s with requests := s.requests.erase id } else .error .assertionError

/-- The second pass of `finish_requests`, or the end of a request in `update_from_output`: the status
is set, and `_free_request` asks the connectors. -/
def freeRequest {P : Type} (s : KVScheduler) (id : ReqId) (answers : List (Bool × Option P)) :
    Except TransferError KVScheduler :=
  match s.requests.get? id with
  | none => .ok s
  | some r => do
    let ((delayFreeBlocks, _), connector) ← s.connector.requestFinished id answers
    let s := { s with
      requests := s.requests.set id { r with finished := true }
      waitingForRemoteKvs := s.waitingForRemoteKvs.filter (· ≠ id)
      connector }
    if delayFreeBlocks then return s else s.freeBlocks id

/-- `_update_from_kv_xfer_finished`. -/
def updateFromKvXferFinished (s : KVScheduler) (output : FinishedTransfers) :
    Except TransferError KVScheduler :=
  output.sending.foldlM freeBlocks { s with
    finishedRecvingKvReqIds :=
      output.recving.foldl (fun l id => l.insert id) s.finishedRecvingKvReqIds }

/-- `_update_waiting_for_remote_kv`. -/
def updateWaitingForRemoteKv (s : KVScheduler) (id : ReqId) : KVScheduler :=
  if id ∈ s.finishedRecvingKvReqIds then
    { s with
      waitingForRemoteKvs := s.waitingForRemoteKvs.filter (· ≠ id)
      finishedRecvingKvReqIds := s.finishedRecvingKvReqIds.filter (· ≠ id) }
  else s

/-- `allocate_slots`: the request gets blocks. -/
def allocate (s : KVScheduler) (id : ReqId) (r : KVRequest) (blockIds : List BlockId) : KVScheduler :=
  { s with requests := s.requests.set id { r with blockIds := r.blockIds ++ blockIds } }

end KVScheduler

/-! ## Runs -/

/-- What has happened, for each request since it was added. -/
structure TransferHistory (n : Nat) where
  /-- How many steps have been executed. -/
  executed : Nat := 0
  /-- How many steps had been scheduled when the request finished. -/
  finishedAt : ReqId → Nat := fun _ => 0
  /-- The connectors that save the finished request asynchronously. -/
  savers : ReqId → List Nat := fun _ => []
  /-- The blocks of the finished request. -/
  blocksToSend : ReqId → List BlockId := fun _ => []
  /-- The connectors that have reported the request in `finished_sending` on a worker. -/
  sent : ReqId → Fin n → List Nat := fun _ _ => []
  /-- How often the scheduler has seen the request in `finished_sending`. -/
  sendingSeen : ReqId → Nat := fun _ => 0
  /-- The connector of the last asynchronous load. -/
  loader : ReqId → Option Nat := fun _ => none
  /-- How many asynchronous loads were started. -/
  loads : ReqId → Nat := fun _ => 0
  /-- How often the request has been reported in `finished_recving` on a worker. -/
  received : ReqId → Fin n → Nat := fun _ _ => 0
  /-- How often the scheduler has seen the request in `finished_recving`. -/
  recvingSeen : ReqId → Nat := fun _ => 0

/-- The scheduler, the steps that are scheduled and not yet executed, and the workers. -/
structure TransferSystem (n : Nat) where
  scheduler : KVScheduler := {}
  inFlight : List MultiKVConnectorMetadata := []
  workers : Fin n → MultiConnector := fun _ => {}
  aggregator : KVOutputAggregator := {}
  history : TransferHistory n := {}

/-- A step of the system. -/
inductive TransferOp (P : Type) (n : Nat) where
  | addRequest (id : ReqId)
  /-- A running request needs more blocks. -/
  | allocate (id : ReqId) (blockIds : List BlockId)
  /-- The scheduler looks at a waiting request; the allocation may fail. -/
  | lookAt (id : ReqId) (answers : List (Nat × Bool)) (blockIds : Option (List BlockId))
  | updateWaitingForRemoteKv (id : ReqId)
  | freeRequest (id : ReqId) (answers : List (Bool × Option P))
  | schedule (totalNumScheduledTokens : Nat)
  /-- The workers execute the oldest step, and the scheduler gets the output. -/
  | execute (reports : Fin n → List TransferReport)

namespace TransferHistory

variable {n : Nat}

/-- A request is added. -/
def add (h : TransferHistory n) (id : ReqId) : TransferHistory n :=
  { executed := h.executed
    finishedAt := Function.update h.finishedAt id 0
    savers := Function.update h.savers id []
    blocksToSend := Function.update h.blocksToSend id []
    sent := Function.update h.sent id fun _ => []
    sendingSeen := Function.update h.sendingSeen id 0
    loader := Function.update h.loader id none
    loads := Function.update h.loads id 0
    received := Function.update h.received id fun _ => 0
    recvingSeen := Function.update h.recvingSeen id 0 }

/-- An asynchronous load starts. -/
def load (h : TransferHistory n) (id : ReqId) (connector : Option Nat) : TransferHistory n :=
  { h with
    loader := Function.update h.loader id connector
    loads := Function.update h.loads id (h.loads id + 1) }

/-- The connectors that answered that they save asynchronously. -/
def asyncSavers {P : Type} (answers : List (Bool × Option P)) : List Nat :=
  (answers.zipIdx.filter fun e => e.1.1).map Prod.snd

/-- A request finishes. -/
def finish {P : Type} (h : TransferHistory n) (id : ReqId) (scheduled : Nat)
    (answers : List (Bool × Option P)) (blockIds : List BlockId) : TransferHistory n :=
  { h with
    finishedAt := Function.update h.finishedAt id scheduled
    savers := Function.update h.savers id (asyncSavers answers)
    blocksToSend := Function.update h.blocksToSend id blockIds }

/-- The connectors that report `id`. -/
def reporters (reports : List (List ReqId)) (id : ReqId) : List Nat :=
  (reports.zipIdx.filter fun e => decide (id ∈ e.1)).map Prod.snd

/-- A step is executed. -/
def execute (h : TransferHistory n) (reports : Fin n → List TransferReport)
    (output : FinishedTransfers) : TransferHistory n :=
  { h with
    executed := h.executed + 1
    sent := fun id w =>
      h.sent id w ++ reporters ((reports w).map TransferReport.sending) id
    sendingSeen := fun id => h.sendingSeen id + if id ∈ output.sending then 1 else 0
    received := fun id w =>
      h.received id w + (reporters ((reports w).map TransferReport.recving) id).length
    recvingSeen := fun id => h.recvingSeen id + if id ∈ output.recving then 1 else 0 }

end TransferHistory

namespace TransferSystem

variable {P : Type} {n : Nat}

/-- The waiting loop of `schedule` at a request that has computed no tokens. -/
def lookAt (s : TransferSystem n) (id : ReqId) (answers : List (Nat × Bool))
    (blockIds : Option (List BlockId)) : Except TransferError (TransferSystem n) :=
  match s.scheduler.requests.get? id with
  | none => .error .blocked
  | some r =>
    if r.finished ∨ id ∈ s.scheduler.waitingForRemoteKvs then .error .blocked
    else
      let ((_, loadKvAsync), connector) := s.scheduler.connector.getNumNewMatchedTokens id answers
      let scheduler := { s.scheduler with connector }
      match blockIds with
      | none => .ok { s with scheduler }
      | some blockIds =>
        let scheduler := scheduler.allocate id r blockIds
        if loadKvAsync then .ok { s with
          scheduler := { scheduler with waitingForRemoteKvs := id :: scheduler.waitingForRemoteKvs }
          history := s.history.load id (connector.requestsToConnector.get? id) }
        else .ok { s with scheduler }

/-- The workers execute the oldest step. -/
def runWorkers (s : TransferSystem n) (metadata : MultiKVConnectorMetadata)
    (reports : Fin n → List TransferReport) :
    Except TransferError (List (FinishedTransfers × MultiConnector)) :=
  (List.finRange n).mapM fun w =>
    ((s.workers w).bindConnectorMetadata metadata).getFinished (reports w)

/-- A step is executed, and its output is handed to the scheduler. -/
def execute (s : TransferSystem n) (reports : Fin n → List TransferReport) :
    Except TransferError (TransferSystem n) :=
  match s.inFlight with
  | [] => .error .blocked
  | metadata :: inFlight => do
    let ran ← s.runWorkers metadata reports
    let (output, aggregator) := s.aggregator.aggregate n (ran.map Prod.fst)
    let scheduler ← s.scheduler.updateFromKvXferFinished output
    return {
      scheduler, inFlight, aggregator
      workers := fun w => (ran[w.val]?.map Prod.snd).getD (s.workers w)
      history := s.history.execute reports output }

/-- The step function. -/
def step (batchQueue : Bool) (s : TransferSystem n) :
    TransferOp P n → Except TransferError (TransferSystem n)
  | .addRequest id => .ok { s with
      scheduler := { s.scheduler with requests := s.scheduler.requests.set id {} }
      history := s.history.add id }
  | .allocate id blockIds =>
    match s.scheduler.requests.get? id with
    | none => .error .blocked
    | some r =>
      if r.finished then .error .blocked
      else .ok { s with scheduler := s.scheduler.allocate id r blockIds }
  | .lookAt id answers blockIds => s.lookAt id answers blockIds
  | .updateWaitingForRemoteKv id =>
    if id ∈ s.scheduler.waitingForRemoteKvs then
      .ok { s with scheduler := s.scheduler.updateWaitingForRemoteKv id }
    else .error .blocked
  | .freeRequest id answers => do
    let scheduler ← s.scheduler.freeRequest id answers
    return { s with
      scheduler
      history :=
        match s.scheduler.requests.get? id with
        | none => s.history
        | some r =>
          s.history.finish id (s.history.executed + s.inFlight.length) answers r.blockIds }
  | .schedule totalNumScheduledTokens =>
    let (metadata, connector) := s.scheduler.connector.buildConnectorMeta
    let scheduler := { s.scheduler with connector }
    -- a step with a batch queue executes only what has scheduled tokens
    if batchQueue ∧ totalNumScheduledTokens = 0 then .ok { s with scheduler }
    else .ok { s with scheduler, inFlight := s.inFlight ++ [metadata] }
  | .execute reports => s.execute reports

end TransferSystem

/-- All runs with `n` workers, with or without a batch queue. -/
def transferMachine (P : Type) (n : Nat) (batchQueue : Bool) :
    Machine (TransferSystem n) (TransferOp P n) TransferError where
  init := {}
  step := TransferSystem.step batchQueue

end InferenceServer.KVTransfer
