import InferenceServer.Sched.Engine

/-!
# The engine core

How `EngineCore` drives the scheduler and the model executor (`vllm/v1/engine/core.py`). There are two
step functions: `step` schedules a batch, waits for its result and updates the scheduler;
`step_with_batch_queue` keeps as many batches in flight as the executor takes, and waits for the
oldest of them only if it has no other batch to submit. Which of them is used depends on the number of
concurrent batches of the executor.

Requests arrive and are aborted between the steps. The result of a batch and the answers of the KV
connector are parameters of a step.
-/

namespace InferenceServer

open Outcome

/-- `has_requests`: there are unfinished requests, or finished ones to tell the workers about. -/
def Scheduler.hasRequests (s : Scheduler) : Bool :=
  0 < s.waiting.length + s.running.length ∨ 0 < s.finishedReqIds.length

/-- `EngineCore`. -/
structure EngineCore where
  sched : Scheduler
  /-- The batches in flight, oldest first. -/
  batchQueue : List SchedulerOutput := []
  /-- History: the requests that were added. -/
  added : List ReqId := []
  /-- History: the outputs that were passed to `execute_model`. -/
  executed : List SchedulerOutput := []

/-- What happens to the engine core. The environments are those of `schedule` and of
`update_from_output`. -/
inductive EngineCoreOp where
  | addRequest (r : Request)
  | abortRequests (E : Environment) (requestIds : List ReqId)
  | step (E E' : Environment) (m : ModelRunnerOutput)

namespace EngineCore

variable (H : BlockHasher) (C : SchedulerConfig) (maxConcurrentBatches : Nat)

/-- `step`. -/
def step (E E' : Environment) (m : ModelRunnerOutput) (s : EngineCore) :
    Except PyError EngineCore :=
  if s.sched.hasRequests = false then .ok s
  else do
    let (output, sched) ← s.sched.schedule H C E
    let s := { s with sched, executed := s.executed ++ [output] }
    let (_, sched) ← s.sched.updateFromOutput H C E' output m
    return { s with sched }

/-- Submit a batch if the batch queue is not full. Returns whether there is a new batch; an output
without tokens is not submitted. -/
def scheduleBatch (E : Environment) (s : EngineCore) : Except PyError (Bool × EngineCore) :=
  if maxConcurrentBatches ≤ s.batchQueue.length then .ok (false, s)
  else do
    let (output, sched) ← s.sched.schedule H C E
    if 0 < output.totalNumScheduledTokens then
      return (true, { s with
        sched
        batchQueue := s.batchQueue ++ [output]
        executed := s.executed ++ [output] })
    else return (false, { s with sched })

/-- Wait for the oldest batch, if there is one. -/
def updateFromBatch (E' : Environment) (m : ModelRunnerOutput) (s : EngineCore) :
    Except PyError EngineCore :=
  match s.batchQueue with
  | [] => .ok s
  | output :: batchQueue => do
    let (_, sched) ← s.sched.updateFromOutput H C E' output m
    return { s with sched, batchQueue }

/-- `step_with_batch_queue`. -/
def stepWithBatchQueue (E E' : Environment) (m : ModelRunnerOutput) (s : EngineCore) :
    Except PyError EngineCore := do
  let (scheduledBatch, s) ← s.scheduleBatch H C maxConcurrentBatches E
  if scheduledBatch then return s else s.updateFromBatch H C E' m

/-- `step_fn`. -/
def stepFn (E E' : Environment) (m : ModelRunnerOutput) (s : EngineCore) : Except PyError EngineCore :=
  if 1 < maxConcurrentBatches then s.stepWithBatchQueue H C maxConcurrentBatches E E' m
  else s.step H C E E' m

/-- Requests arrive, are aborted, or the engine core makes a step. -/
def apply (s : EngineCore) : EngineCoreOp → Except PyError EngineCore
  | .addRequest r => do
    let sched ← s.sched.addRequest r.new
    return { s with sched, added := s.added ++ [r.requestId] }
  | .abortRequests E requestIds => do
    let sched ← s.sched.finishRequests C E requestIds .finishedAborted
    return { s with sched }
  | .step E E' m => s.stepFn H C maxConcurrentBatches E E' m

end EngineCore

/-- The runs of an engine core from an initial scheduler. -/
def engineCoreMachine (H : BlockHasher) (C : SchedulerConfig) (maxConcurrentBatches : Nat)
    (sched : Scheduler) : Machine EngineCore EngineCoreOp PyError where
  init := { sched }
  step := EngineCore.apply H C maxConcurrentBatches

/-! ## What the operations do -/

namespace EngineCore

variable {H : BlockHasher} {C : SchedulerConfig} {maxConcurrentBatches : Nat} {E E' : Environment}
  {m : ModelRunnerOutput} {s s' : EngineCore}

theorem apply_addRequest {r : Request}
    (h : s.apply H C maxConcurrentBatches (.addRequest r) = .ok s') :
    ∃ sched, s.sched.addRequest r.new = .ok sched ∧
      s' = { s with sched, added := s.added ++ [r.requestId] } := by
  obtain ⟨sched, hadd, h⟩ := bind_eq_ok.mp h
  exact ⟨sched, hadd, (pure_eq_ok.mp h).symm⟩

theorem apply_abortRequests {ids : List ReqId}
    (h : s.apply H C maxConcurrentBatches (.abortRequests E ids) = .ok s') :
    ∃ sched, s.sched.finishRequests C E ids .finishedAborted = .ok sched ∧
      s' = { s with sched } := by
  obtain ⟨sched, hfin, h⟩ := bind_eq_ok.mp h
  exact ⟨sched, hfin, (pure_eq_ok.mp h).symm⟩

/-- A step without requests does nothing; otherwise a batch is executed, and its result is there. -/
theorem step_ok (h : s.step H C E E' m = .ok s') :
    s' = s ∨ ∃ output sched ecos sched', s.sched.schedule H C E = .ok (output, sched) ∧
      sched.updateFromOutput H C E' output m = .ok (ecos, sched') ∧
      s' = { s with sched := sched', executed := s.executed ++ [output] } := by
  unfold step at h
  split at h
  · exact .inl (Except.ok.inj h).symm
  · obtain ⟨⟨output, sched⟩, hsched, h₁⟩ := bind_eq_ok.mp h
    obtain ⟨⟨ecos, sched'⟩, hup, h₂⟩ := bind_eq_ok.mp h₁
    exact .inr ⟨output, sched, ecos, sched', hsched, hup, (pure_eq_ok.mp h₂).symm⟩

/-- A batch is submitted, or the batch queue is full, or nothing was scheduled. -/
theorem scheduleBatch_ok {scheduledBatch : Bool}
    (h : s.scheduleBatch H C maxConcurrentBatches E = .ok (scheduledBatch, s')) :
    (scheduledBatch = false ∧ maxConcurrentBatches ≤ s.batchQueue.length ∧ s' = s) ∨
    (s.batchQueue.length < maxConcurrentBatches ∧ ∃ output sched,
      s.sched.schedule H C E = .ok (output, sched) ∧
      ((scheduledBatch = true ∧ s' = { s with
          sched
          batchQueue := s.batchQueue ++ [output]
          executed := s.executed ++ [output] }) ∨
        (scheduledBatch = false ∧ s' = { s with sched }))) := by
  unfold scheduleBatch at h
  split at h
  next hfull =>
    cases h
    exact .inl ⟨rfl, hfull, rfl⟩
  next hroom =>
    obtain ⟨⟨output, sched⟩, hsched, h₁⟩ := bind_eq_ok.mp h
    refine .inr ⟨not_le.mp hroom, output, sched, hsched, ?_⟩
    dsimp only at h₁
    split at h₁
    · cases h₁
      exact .inl ⟨rfl, rfl⟩
    · cases h₁
      exact .inr ⟨rfl, rfl⟩

theorem updateFromBatch_ok (h : s.updateFromBatch H C E' m = .ok s') :
    s' = s ∨ ∃ output batchQueue ecos sched, s.batchQueue = output :: batchQueue ∧
      s.sched.updateFromOutput H C E' output m = .ok (ecos, sched) ∧
      s' = { s with sched, batchQueue } := by
  unfold updateFromBatch at h
  split at h
  next => exact .inl (Except.ok.inj h).symm
  next output batchQueue hqueue =>
    obtain ⟨⟨ecos, sched⟩, hup, h₁⟩ := bind_eq_ok.mp h
    exact .inr ⟨output, batchQueue, ecos, sched, hqueue, hup, (pure_eq_ok.mp h₁).symm⟩

end EngineCore

end InferenceServer
