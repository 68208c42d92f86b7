import InferenceServer.Lib.UndoRun
import InferenceServer.Sched.Engine

/-!
# Structured output

`StructuredOutputManager` (`vllm/v1/structured_output/__init__.py`) with the grammar of a request
(`backend_xgrammar.py`), and what `schedule` and `update_from_output` ask of it. The grammar is a run
of an automaton with undo. `schedule` fills a bitmask, for which it advances the grammar over the
drafts and takes it back; `update_from_output` advances it over the new tokens, and validates the new
drafts. A reasoning parser decides from which token on the output is constrained; it is a function of
the tokens.

A `structured_output_request` belongs to a request. The records are kept by the identifier of the
request, beside the scheduler, whose `Environment` answers `should_advance` and `validate_tokens` from
them. The source fills the bitmask before `_update_after_schedule`, which changes nothing that
`grammar_bitmask` reads.
-/

namespace InferenceServer

open Outcome

/-! ## Grammars -/

/-- `XgrammarGrammar`, with the states of its matcher. -/
structure XgrammarGrammar (Q : Type) where
  matcher : UndoRun Q
  numProcessedTokens : Int := 0
deriving DecidableEq

namespace XgrammarGrammar

variable {Q : Type} (δ : Q → TokenId → Option Q)

/-- `accept_tokens`: whether all tokens are accepted, and the grammar after them. -/
def acceptTokens : XgrammarGrammar Q → List TokenId → Bool × XgrammarGrammar Q
  | g, [] => (true, g)
  | g, token :: tokens =>
    match g.matcher.accept δ token with
    | none => (false, g)
    | some matcher => acceptTokens ⟨matcher, g.numProcessedTokens + 1⟩ tokens

/-- `rollback`. -/
def rollback (g : XgrammarGrammar Q) (numTokens : Nat) : XgrammarGrammar Q :=
  ⟨g.matcher.rollback numTokens, g.numProcessedTokens - numTokens⟩

/-- `validate_tokens`: the tokens up to the first one that is rejected, and the grammar. -/
def validateTokens (g : XgrammarGrammar Q) (tokens : List TokenId) :
    List TokenId × XgrammarGrammar Q :=
  let (acceptedTokens, matcher) := g.matcher.acceptAll δ tokens
  (acceptedTokens, { g with
    matcher := if 0 < acceptedTokens.length then matcher.rollback acceptedTokens.length
      else matcher })

end XgrammarGrammar

/-- `StructuredOutputRequest`, once its grammar is compiled. -/
structure StructuredOutputRequest (Q : Type) where
  grammar : XgrammarGrammar Q
  reasoningEnded : Option Bool := none
deriving DecidableEq

/-- What the manager is configured with: the backend and the reasoning parser. -/
structure StructuredOutputManager (Q : Type) where
  /-- `matcher.accept_token`. -/
  acceptToken : Q → TokenId → Option Q
  isTerminated : Q → Bool := fun _ => false
  /-- `compile_grammar`: the first state of the grammar of a request. -/
  compileGrammar : ReqId → Q
  /-- `reasoner.is_reasoning_end`, if there is a reasoning parser. -/
  reasoner : Option (List TokenId → Bool) := none

/-- The tokens a position may have. -/
abbrev BitmaskRow := TokenId → Bool

namespace StructuredOutputManager

variable {Q : Type} (S : StructuredOutputManager Q)

/-- The record of a new request. -/
def newRequest (id : ReqId) : StructuredOutputRequest Q := { grammar := ⟨⟨S.compileGrammar id, []⟩, 0⟩ }

/-- `request.structured_output_request`. -/
def record (d : Dict ReqId (StructuredOutputRequest Q)) (id : ReqId) : StructuredOutputRequest Q :=
  d.getD id (S.newRequest id)

/-! ## The bitmask -/

/-- `fill_bitmask`. -/
def fillBitmask (g : XgrammarGrammar Q) : BitmaskRow := fun token =>
  (S.acceptToken g.matcher.state token).isSome

/-- Whether the bitmask applies. If nobody has asked before, the prompt decides whether the reasoning
has ended. -/
def applyBitmask (promptTokenIds : List TokenId) (sr : StructuredOutputRequest Q) :
    Bool × StructuredOutputRequest Q :=
  match S.reasoner with
  | none => (true, sr)
  | some isReasoningEnd =>
    let ended := sr.reasoningEnded.getD (isReasoningEnd promptTokenIds)
    (ended, { sr with reasoningEnded := some ended })

/-- Advance the grammar over a draft; the last position has none. -/
def advanceDraft (g : XgrammarGrammar Q) (n : Nat) :
    Option TokenId → Except PyError (XgrammarGrammar Q × Nat)
  | none => .ok (g, n)
  | some token => do
    let (accepted, g) := g.acceptTokens S.acceptToken [token]
    require (accepted = true) (.assertionError .grammarBitmask)
    return (g, n + 1)

/-- The loop over the drafts of a request: the rows, the grammar, and how often it has advanced. -/
def maskTokens (applies : Bool) :
    List (Option TokenId) → XgrammarGrammar Q → Nat →
      Except PyError (List BitmaskRow × XgrammarGrammar Q × Nat)
  | [], g, n => .ok ([], g, n)
  | token :: tokens, g, n =>
    if applies = true ∧ S.isTerminated g.matcher.state = false then do
      let (g', n) ← S.advanceDraft g n token
      let (rows, last) ← maskTokens applies tokens g' n
      return (S.fillBitmask g :: rows, last)
    else do
      let (rows, last) ← maskTokens applies tokens g n
      return ((fun _ => true) :: rows, last)

/-- The rows of a request. -/
def maskRequest (promptTokenIds drafts : List TokenId) (sr : StructuredOutputRequest Q) :
    Except PyError (List BitmaskRow × StructuredOutputRequest Q) := do
  let (applies, sr) := S.applyBitmask promptTokenIds sr
  let (rows, grammar, n) ← S.maskTokens applies (drafts.map some ++ [none]) sr.grammar 0
  return (rows, { sr with grammar := if 0 < n then grammar.rollback n else grammar })

/-- The body of the loop over the requests with structured output. -/
def maskScheduled (s : Scheduler) (output : SchedulerOutput) (e : ReqId × Nat)
    (d : Dict ReqId (StructuredOutputRequest Q)) :
    Except PyError (List BitmaskRow × Dict ReqId (StructuredOutputRequest Q)) := do
  require (e.1 ∈ s.requests) .keyError
  let (rows, sr) ← S.maskRequest (s.request e.1).promptTokenIds
    (output.scheduledSpecDecodeTokens.getD e.1 []) (S.record d e.1)
  return (rows, d.set e.1 sr)

/-- `grammar_bitmask`. -/
def grammarBitmask (s : Scheduler) (output : SchedulerOutput)
    (d : Dict ReqId (StructuredOutputRequest Q)) :
    Except PyError (Option (List BitmaskRow) × Dict ReqId (StructuredOutputRequest Q)) :=
  if output.structuredOutputRequestIds.entries = [] then .ok (none, d)
  else do
    let orderedSeq := output.structuredOutputRequestIds.entries.insertionSort fun e e' => e.2 ≤ e'.2
    let (rows, d) ← mapThreadM (S.maskScheduled s output) orderedSeq d
    return (some rows.flatten, d)

/-! ## The results of a step -/

/-- `should_advance`. -/
def shouldAdvance (r : Request) (sr : StructuredOutputRequest Q) :
    Bool × StructuredOutputRequest Q :=
  if r.useStructuredOutput = false then (false, sr)
  else
    match S.reasoner with
    | none => (true, sr)
    | some isReasoningEnd =>
      if sr.reasoningEnded = some true then (true, sr)
      -- the tokens of this step are not constrained any more
      else if isReasoningEnd r.allTokenIds then (false, { sr with reasoningEnded := some true })
      else (false, sr)

/-- The grammar advances over the new tokens of a request. -/
def acceptNewTokens (r : Request) (newTokenIds : List TokenId) (sr : StructuredOutputRequest Q) :
    StructuredOutputRequest Q :=
  if newTokenIds = [] then sr
  else
    let (advance, sr) := S.shouldAdvance r sr
    if advance then { sr with grammar := (sr.grammar.acceptTokens S.acceptToken newTokenIds).2 }
    else sr

/-- The new drafts of a request are validated. -/
def validateDrafts (r : Request) (drafts : List TokenId) (sr : StructuredOutputRequest Q) :
    List TokenId × StructuredOutputRequest Q :=
  let (advance, sr) := S.shouldAdvance r sr
  if advance then
    let (accepted, grammar) := sr.grammar.validateTokens S.acceptToken drafts
    (accepted, { sr with grammar })
  else (drafts, sr)

end StructuredOutputManager

/-- The tokens that a result adds to a request: those sampled for it, up to the one that stops it. -/
def Scheduler.newTokenIds (C : SchedulerConfig) (s : Scheduler) (m : ModelRunnerOutput) (id : ReqId) :
    List TokenId :=
  match m.reqIdToIndex.get? id with
  | none => []
  | some index =>
    match m.generated index with
    | .error _ => []
    | .ok generated =>
      match (s.request id).updateWithOutput C.maxModelLen generated with
      | .error _ => []
      | .ok (_, appended, _) => appended

/-- The request with its new tokens. -/
def Scheduler.requestAfter (C : SchedulerConfig) (s : Scheduler) (m : ModelRunnerOutput) (id : ReqId) :
    Request :=
  (s.request id).appendOutputTokenIds (s.newTokenIds C m id)

/-- The drafts of a result for a request. -/
def ModelRunnerOutput.drafts (m : ModelRunnerOutput) (id : ReqId) : Option (List TokenId) :=
  m.specTokenIds.bind fun l => (m.reqIdToIndex.get? id).bind fun index => l[index]?

namespace StructuredOutputManager

variable {Q : Type} (S : StructuredOutputManager Q) (C : SchedulerConfig)

/-- The record of a request, once its new tokens are accepted. -/
def accepted (s : Scheduler) (m : ModelRunnerOutput) (d : Dict ReqId (StructuredOutputRequest Q))
    (id : ReqId) : StructuredOutputRequest Q :=
  S.acceptNewTokens (s.requestAfter C m id) (s.newTokenIds C m id) (S.record d id)

/-- The answers to the scheduler's questions about the new drafts. -/
def environment (s : Scheduler) (m : ModelRunnerOutput) (d : Dict ReqId (StructuredOutputRequest Q))
    (E : Environment) : Environment :=
  { E with
    shouldAdvance := fun r => (S.shouldAdvance r (S.accepted C s m d r.requestId)).1
    validateTokens := fun id drafts =>
      (S.validateDrafts (s.requestAfter C m id) drafts (S.accepted C s m d id)).1 }

/-- The record of a request in `self.requests` after a result. -/
def updateRecord (s : Scheduler) (m : ModelRunnerOutput)
    (d : Dict ReqId (StructuredOutputRequest Q)) (id : ReqId) : StructuredOutputRequest Q :=
  match m.drafts id with
  | none => S.accepted C s m d id
  | some drafts => (S.validateDrafts (s.requestAfter C m id) drafts (S.accepted C s m d id)).2

/-- The records after a result. -/
def updateFromOutput (s : Scheduler) (output : SchedulerOutput) (m : ModelRunnerOutput)
    (d : Dict ReqId (StructuredOutputRequest Q)) : Dict ReqId (StructuredOutputRequest Q) :=
  (output.numScheduledTokens.keys.filter (· ∈ s.requests)).foldl
    (fun d id => d.set id (S.updateRecord C s m d id)) d

end StructuredOutputManager

/-! ## Runs -/

/-- The scheduler with the structured output requests. -/
structure StructuredEngine (Q : Type) where
  engine : Engine
  structured : Dict ReqId (StructuredOutputRequest Q) := ∅

section

variable {Q : Type} (S : StructuredOutputManager Q) (H : BlockHasher) (C : SchedulerConfig)

/-- Make a call. -/
def StructuredEngine.step (s : StructuredEngine Q) :
    EngineOp → Except PyError (StructuredEngine Q)
  | .addRequest r => do
    let engine ← s.engine.step H C (.addRequest r)
    return { engine, structured := s.structured.set r.requestId (S.newRequest r.requestId) }
  | .schedule E => do
    let (output, sched) ← s.engine.sched.schedule H C E
    let (_, structured) ← S.grammarBitmask sched output s.structured
    return { engine := { s.engine with sched, inFlight := s.engine.inFlight ++ [output] }, structured }
  | .updateFromOutput E m => do
    let engine ← s.engine.step H C
      (.updateFromOutput (S.environment C s.engine.sched m s.structured E) m)
    return { engine, structured :=
      match s.engine.inFlight.head? with
      | none => s.structured
      | some output => S.updateFromOutput C s.engine.sched output m s.structured }
  | .finishRequests E requestIds status => do
    let engine ← s.engine.step H C (.finishRequests E requestIds status)
    return { s with engine }

/-- The runs from an initial scheduler. -/
def structuredMachine (sched : Scheduler) : Machine (StructuredEngine Q) EngineOp PyError where
  init := { engine := { sched } }
  step := StructuredEngine.step S H C

end

end InferenceServer
