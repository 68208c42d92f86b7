import InferenceServer.Sched.UpdateEffects

/-!
# Runs of the scheduler

The scheduler as its caller drives it: requests arrive, steps are scheduled, their results come back
in the order in which the steps were scheduled, and requests are finished from outside. Any number
of steps may be in flight; a run is any sequence of these calls that does not raise.
-/

namespace InferenceServer

open Outcome

/-- A scheduler and its outputs in flight, oldest first. -/
structure Engine where
  sched : Scheduler
  inFlight : List SchedulerOutput := []
  /-- History: the requests that were added. -/
  added : List ReqId := []
  /-- History: the outputs that were returned for the clients. -/
  returned : List EngineCoreOutput := []

/-- A call. -/
inductive EngineOp where
  | addRequest (r : Request)
  | schedule (E : Environment)
  | updateFromOutput (E : Environment) (m : ModelRunnerOutput)
  | finishRequests (E : Environment) (requestIds : List ReqId) (status : RequestStatus)

section

variable (H : BlockHasher) (C : SchedulerConfig)

/-- Make a call. The result of a step belongs to the oldest output in flight. -/
def Engine.step (s : Engine) : EngineOp → Except PyError Engine
  | .addRequest r => do
    let sched ← s.sched.addRequest r.new
    return { s with sched, added := s.added ++ [r.requestId] }
  | .schedule E => do
    let (output, sched) ← s.sched.schedule H C E
    return { s with sched, inFlight := s.inFlight ++ [output] }
  | .updateFromOutput E m =>
    match s.inFlight with
    | [] => .error .indexError
    | output :: inFlight => do
      let (outputs, sched) ← s.sched.updateFromOutput H C E output m
      return { s with sched, inFlight, returned := s.returned ++ allEngineCoreOutputs outputs }
  | .finishRequests E requestIds status => do
    let sched ← s.sched.finishRequests C E requestIds status
    return { s with sched }

/-- The runs from an initial scheduler. -/
def engineMachine (sched : Scheduler) : Machine Engine EngineOp PyError where
  init := { sched }
  step := Engine.step H C

end

/-- A request arrives under an identifier that no earlier request had. -/
def FreshIds (s : Engine) : EngineOp → Prop
  | .addRequest r => r.requestId ∉ s.added
  | _ => True

instance (s : Engine) (op : EngineOp) : Decidable (FreshIds s op) := by
  refine op.casesOn ?_ ?_ ?_ ?_ <;> intros <;> unfold FreshIds <;> infer_instance

/-- A request arrives under an identifier that no running or waiting request has. The identifier of
a request that has finished may be used again. -/
def UnusedIds (s : Engine) : EngineOp → Prop
  | .addRequest r => r.requestId ∉ s.sched.running ∧ r.requestId ∉ s.sched.waiting.ids
  | _ => True

instance (s : Engine) (op : EngineOp) : Decidable (UnusedIds s op) := by
  refine op.casesOn ?_ ?_ ?_ ?_ <;> intros <;> unfold UnusedIds <;> infer_instance

/-! ## What the calls do -/

section Effects

variable {H : BlockHasher} {C : SchedulerConfig} {E : Environment} {s s' : Engine}

theorem Engine.step_addRequest {r : Request} (h : s.step H C (.addRequest r) = .ok s') :
    ∃ sched, s.sched.addRequest r.new = .ok sched ∧
      s' = { s with sched, added := s.added ++ [r.requestId] } := by
  obtain ⟨sched, hadd, h⟩ := bind_eq_ok.mp h
  exact ⟨sched, hadd, (pure_eq_ok.mp h).symm⟩

theorem Engine.step_schedule (h : s.step H C (.schedule E) = .ok s') :
    ∃ output sched, s.sched.schedule H C E = .ok (output, sched) ∧
      s' = { s with sched, inFlight := s.inFlight ++ [output] } := by
  obtain ⟨⟨output, sched⟩, hsched, h⟩ := bind_eq_ok.mp h
  exact ⟨output, sched, hsched, (pure_eq_ok.mp h).symm⟩

theorem Engine.step_updateFromOutput {m : ModelRunnerOutput}
    (h : s.step H C (.updateFromOutput E m) = .ok s') :
    ∃ output inFlight outputs sched, s.inFlight = output :: inFlight ∧
      s.sched.updateFromOutput H C E output m = .ok (outputs, sched) ∧
      s' = { s with sched, inFlight, returned := s.returned ++ allEngineCoreOutputs outputs } := by
  simp only [Engine.step] at h
  cases hin : s.inFlight with
  | nil => simp [hin] at h
  | cons output inFlight =>
    rw [hin] at h
    obtain ⟨⟨outputs, sched⟩, hup, h⟩ := bind_eq_ok.mp h
    exact ⟨output, inFlight, outputs, sched, rfl, hup, (pure_eq_ok.mp h).symm⟩

theorem Engine.step_finishRequests {ids : List ReqId} {status : RequestStatus}
    (h : s.step H C (.finishRequests E ids status) = .ok s') :
    ∃ sched, s.sched.finishRequests C E ids status = .ok sched ∧ s' = { s with sched } := by
  obtain ⟨sched, hfin, h⟩ := bind_eq_ok.mp h
  exact ⟨sched, hfin, (pure_eq_ok.mp h).symm⟩

/-- **What a call does** to the engine. -/
inductive Engine.Steps (H : BlockHasher) (C : SchedulerConfig) (s : Engine) :
    EngineOp → Engine → Prop where
  | addRequest {r sched} (hadd : s.sched.addRequest r.new = .ok sched) :
    Steps H C s (.addRequest r) { s with sched, added := s.added ++ [r.requestId] }
  | schedule {E output sched} (hsched : s.sched.schedule H C E = .ok (output, sched)) :
    Steps H C s (.schedule E) { s with sched, inFlight := s.inFlight ++ [output] }
  | updateFromOutput {E m output inFlight outputs sched} (hin : s.inFlight = output :: inFlight)
      (hup : s.sched.updateFromOutput H C E output m = .ok (outputs, sched)) :
    Steps H C s (.updateFromOutput E m)
      { s with sched, inFlight, returned := s.returned ++ allEngineCoreOutputs outputs }
  | finishRequests {E ids status sched} (hfin : s.sched.finishRequests C E ids status = .ok sched) :
    Steps H C s (.finishRequests E ids status) { s with sched }

theorem Engine.step_cases {op : EngineOp} (h : s.step H C op = .ok s') : s.Steps H C op s' := by
  cases op with
  | addRequest r =>
    obtain ⟨sched, hadd, rfl⟩ := Engine.step_addRequest h
    exact .addRequest hadd
  | schedule E =>
    obtain ⟨output, sched, hsched, rfl⟩ := Engine.step_schedule h
    exact .schedule hsched
  | updateFromOutput E m =>
    obtain ⟨output, inFlight, outputs, sched, hin, hup, rfl⟩ := Engine.step_updateFromOutput h
    exact .updateFromOutput hin hup
  | finishRequests E ids status =>
    obtain ⟨sched, hfin, rfl⟩ := Engine.step_finishRequests h
    exact .finishRequests hfin

end Effects

/-! ## Executing runs -/

/-- The state after a list of calls on a new scheduler. -/
def runEngine (H : BlockHasher) (C : SchedulerConfig) (ok : Engine → EngineOp → Prop)
    [∀ s op, Decidable (ok s op)] (ops : List EngineOp) : Option Engine :=
  match Scheduler.init C with
  | .ok s₀ => (engineMachine H C s₀).execIf ok ops { sched := s₀ }
  | .error _ => none

theorem reach_runEngine {H : BlockHasher} {C : SchedulerConfig} {ok : Engine → EngineOp → Prop}
    [∀ s op, Decidable (ok s op)] {ops : List EngineOp} {s : Engine}
    (h : runEngine H C ok ops = some s) :
    ∃ s₀, Scheduler.init C = .ok s₀ ∧ (engineMachine H C s₀).Reach ok s := by
  unfold runEngine at h
  cases hinit : Scheduler.init C with
  | error e => simp [hinit] at h
  | ok s₀ =>
    simp only [hinit] at h
    exact ⟨s₀, rfl, Machine.reach_execIf .start h⟩

theorem exists_runEngine (H : BlockHasher) (C : SchedulerConfig) (ok : Engine → EngineOp → Prop)
    [∀ s op, Decidable (ok s op)] (ops : List EngineOp) (p : Engine → Prop) [DecidablePred p]
    (h : ((runEngine H C ok ops).any fun s => decide (p s)) = true) :
    ∃ s₀ s, Scheduler.init C = .ok s₀ ∧ (engineMachine H C s₀).Reach ok s ∧ p s := by
  obtain ⟨s, hs, hp⟩ := (Option.any_eq_true ..).mp h
  obtain ⟨s₀, hinit, hreach⟩ := reach_runEngine hs
  exact ⟨s₀, s, hinit, hreach, of_decide_eq_true hp⟩

theorem KVCacheSpec.blockSize_pair {spec : KVCacheSpec}
    (h : spec ∈ [.fullAttention 2 ⟨1, 1, "float16", false⟩ none none]) : 0 < spec.blockSize := by
  obtain rfl := List.mem_singleton.mp h
  exact two_pos

/-- A configuration with one full attention group of blocks of two tokens, and room for two running
requests. -/
def pairConfig (numBlocks maxModelLen : Nat) : SchedulerConfig where
  maxNumRunningReqs := 2
  maxNumScheduledTokens := 8
  maxModelLen
  blockSize := 2
  kvCacheConfig :=
    { numBlocks
      kvCacheGroups := [.fullAttention 2 ⟨1, 1, "float16", false⟩ none none]
      blockSize_pos := @KVCacheSpec.blockSize_pair }

/-- A text request. -/
def textRequest (requestId : ReqId) (promptTokenIds : List TokenId) : Request :=
  { requestId, promptTokenIds, samplingParams := some { maxTokens := 16 } }

/-- The output of the model runner, with the sampled tokens of every request. -/
def sampled (l : List (ReqId × List TokenId)) : ModelRunnerOutput where
  reqIdToIndex := l.zipIdx.foldl (fun d e => d.set e.1.1 e.2) ∅
  sampledTokenIds := l.map Prod.snd

end InferenceServer
