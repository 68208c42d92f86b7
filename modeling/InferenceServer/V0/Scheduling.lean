import InferenceServer.V0.SequenceGroups

/-!
# The passes of the scheduler of V0

A step of the scheduler (`vllm/core/scheduler.py`) makes passes over its three queues. The pass over the
running groups gives each of them room for its next tokens; where there is none, the groups at the end
of the queue are preempted, and the group itself if there is no other one. The passes over the swapped
and the waiting groups take in what fits.

With adapters, a batch may use as many as there are slots. The passes share the set of the adapters that
are in use: a group that is taken in enters its adapter, and is left in its queue if the set is full. The
pass over the running groups does not ask whether the set is full. It takes the adapter of a group out of
the set when the group has no room, and enters it again when the group is scheduled.

The callers of `_schedule_swapped` do not enable chunking. Artificial preemption, a switch of the tests, is
left out.
-/

namespace InferenceServer.V0

open Outcome

/-- What a scheduler is constructed with. -/
structure SchedulerEnvironment (M : Type) where
  config : SchedulerConfig
  attributes : GroupId → GroupAttributes
  blockSpaceManager : BlockSpaceManager M
  /-- What the callback of the asynchronous output processor does. It processes the outputs of a group
  that are still to be processed; `M` may hold them next to the blocks. -/
  outputProcCallback : Option (GroupId → World M → World M) := none

structure ScheduledSequenceGroup where
  seqGroup : GroupId
  tokenChunkSize : Int
  deriving DecidableEq, Repr

variable {M : Type} (E : SchedulerEnvironment M)

/-- The adapter of a group, 0 for none. -/
def SchedulerEnvironment.loraIntId (id : GroupId) : Nat := (E.attributes id).loraIntId

/-- A set of adapters with that of a group. -/
def addLora (currLoras : Option (Finset Nat)) (id : GroupId) : Option (Finset Nat) :=
  if 0 < E.loraIntId id then currLoras.map fun loras => insert (E.loraIntId id) loras else currLoras

/-- There is no slot for the adapter of a group. -/
def noSlotForLora (currLoras : Option (Finset Nat)) (id : GroupId) : Bool :=
  match E.config.maxLoras, currLoras with
  | some maxLoras, some loras =>
    decide (0 < E.loraIntId id ∧ E.loraIntId id ∉ loras ∧ maxLoras ≤ loras.card)
  | _, _ => false

/-! ## The running groups -/

/-- `SchedulerRunningOutputs`. -/
structure SchedulerRunningOutputs where
  decodeSeqGroups : List ScheduledSequenceGroup := []
  prefillSeqGroups : List ScheduledSequenceGroup := []
  preempted : List GroupId := []
  swappedOut : List GroupId := []
  blocksToSwapOut : List (BlockId × BlockId) := []
  blocksToCopy : List (BlockId × BlockId) := []
  deriving DecidableEq, Repr

/-- What `_schedule_running` works on. -/
structure RunningPass (M : Type) where
  world : World M
  /-- `self.running`. -/
  queue : List GroupId
  asyncStopped : List GroupId
  budget : SchedulingBudget
  currLoras : Option (Finset Nat)
  outputs : SchedulerRunningOutputs := {}

/-- What becomes of a running group. -/
inductive RunningVerdict where
  /-- There are no tokens for it, and the loop ends. -/
  | noBudget
  /-- It is at the length of the model, and only waits for its last output. -/
  | asyncStopped
  /-- It made way for itself. -/
  | noRoom
  | scheduled
  deriving DecidableEq, Repr

namespace RunningPass

/-- A group without room gives back its share of the budget, and its adapter. -/
def takeBack (p : RunningPass M) (id : GroupId) (numRunningTokens : Int) : RunningPass M :=
  let g := p.world.groups id
  { p with
    budget := (p.budget.subtractNumBatchedTokens g.requestId numRunningTokens).subtractNumSeqs
      g.requestId g.getMaxNumRunningSeqs
    currLoras :=
      if 0 < E.loraIntId id then p.currLoras.map fun loras => loras.erase (E.loraIntId id)
      else p.currLoras }

/-- A victim is preempted, unless its output that is still to be processed finishes it. -/
def preemptVictim (p : RunningPass M) (victim : GroupId) : Except SchedulerError (RunningPass M) := do
  let world :=
    match E.outputProcCallback with
    | none => p.world
    | some outputProcCallback => outputProcCallback victim p.world
  if E.outputProcCallback.isSome ∧ (world.groups victim).isFinished then
    let world ← freeFinishedSeqGroup E.blockSpaceManager world victim
    return { p with world }
  else
    let (mode, mapping, world) ← preempt E.config E.blockSpaceManager world victim
    let blocksToSwapOut := p.outputs.blocksToSwapOut ++ mapping
    match mode with
    | .recompute => return { p with
        world, outputs := { p.outputs with
          blocksToSwapOut, preempted := p.outputs.preempted ++ [victim] } }
    | .swap => return { p with
        world, outputs := { p.outputs with
          blocksToSwapOut, swappedOut := p.outputs.swappedOut ++ [victim] } }

/-- The inner loop of `_schedule_running`, over the groups that are left in the queue, the last one
first: whether the group has room. -/
def makeRoom (enableChunking : Bool) (id : GroupId) (numRunningTokens : Int) :
    List GroupId → RunningPass M → Except SchedulerError (Bool × RunningPass M)
  | [], p => do
    let fits ← canAppendSlots E.config E.blockSpaceManager p.world id enableChunking
    if fits then return (true, { p with queue := [] })
    else
      -- no other group can be preempted
      let p ← (p.takeBack E id numRunningTokens).preemptVictim E id
      return (false, { p with queue := [] })
  | victim :: victims, p => do
    let fits ← canAppendSlots E.config E.blockSpaceManager p.world id enableChunking
    if fits then return (true, { p with queue := (victim :: victims).reverse })
    else
      let p ← (p.takeBack E id numRunningTokens).preemptVictim E victim
      makeRoom enableChunking id numRunningTokens victims p

/-- A group with room is scheduled. -/
def scheduleGroup (enableChunking : Bool) (id : GroupId) (numRunningTokens : Int) (p : RunningPass M) :
    Except SchedulerError (RunningPass M) := do
  let (cows, world) ← appendSlots E.config E.blockSpaceManager p.world id enableChunking
  let g := world.groups id
  let outputs := { p.outputs with blocksToCopy := p.outputs.blocksToCopy ++ cows }
  let outputs :=
    if g.isPrefill then
      { outputs with prefillSeqGroups := outputs.prefillSeqGroups ++ [⟨id, numRunningTokens⟩] }
    else { outputs with decodeSeqGroups := outputs.decodeSeqGroups ++ [⟨id, 1⟩] }
  let budget ← p.budget.addNumBatchedTokens g.requestId numRunningTokens 0
  let budget :=
    if enableChunking then budget.addNumSeqs g.requestId g.getMaxNumRunningSeqs else budget
  return { p with world, budget, outputs, currLoras := addLora E p.currLoras id }

/-- An iteration of `_schedule_running`. -/
def step (enableChunking : Bool) (metadata : Option PartialPrefillMetadata) (id : GroupId)
    (rest : List GroupId) (p : RunningPass M) :
    Except SchedulerError (RunningVerdict × RunningPass M) := do
  let ((numRunningTokens, _), world) ← getNumNewUncachedAndCachedTokens E.config E.attributes
    E.blockSpaceManager p.world id .running enableChunking p.budget metadata
  if numRunningTokens = 0 then return (.noBudget, { p with world })
  else if E.outputProcCallback.isSome ∧ E.config.maxModelLen < (world.groups id).firstLen then
    return (.asyncStopped, { p with world, queue := rest, asyncStopped := p.asyncStopped ++ [id] })
  else
    let (fits, p) ← { p with world, queue := rest }.makeRoom E enableChunking id numRunningTokens
      rest.reverse
    if fits then
      let p ← p.scheduleGroup E enableChunking id numRunningTokens
      return (.scheduled, p)
    else return (.noRoom, p)

/-- The loop of `_schedule_running`; each iteration takes a group from the queue. -/
def loop (enableChunking : Bool) (metadata : Option PartialPrefillMetadata) :
    Nat → RunningPass M → Except SchedulerError (RunningPass M)
  | 0, p => .ok p
  | fuel + 1, p =>
    match p.queue with
    | [] => .ok p
    | id :: rest => do
      let (verdict, p) ← p.step E enableChunking metadata id rest
      match verdict with
      | .noBudget => return p
      | _ => loop enableChunking metadata fuel p

end RunningPass

/-- `_schedule_running`. -/
def scheduleRunning (enableChunking : Bool) (metadata : Option PartialPrefillMetadata)
    (p : RunningPass M) : Except SchedulerError (RunningPass M) := do
  require (p.asyncStopped = []) (.assertionError "_schedule_running")
  p.loop E enableChunking metadata p.queue.length

/-! ## The swapped groups -/

/-- What `_schedule_swapped` works on; the last three are its outputs. -/
structure SwappedPass (M : Type) where
  world : World M
  budget : SchedulingBudget
  currLoras : Option (Finset Nat)
  /-- `leftover_swapped`. -/
  leftover : List GroupId := []
  decodeSeqGroups : List ScheduledSequenceGroup := []
  prefillSeqGroups : List ScheduledSequenceGroup := []
  infeasibleSeqGroups : List GroupId := []
  blocksToSwapIn : List (BlockId × BlockId) := []
  blocksToCopy : List (BlockId × BlockId) := []

namespace SwappedPass

/-- A group is swapped in. -/
def takeIn (id : GroupId) (isPrefill : Bool) (uncached cached : Int) (p : SwappedPass M) :
    Except SchedulerError (SwappedPass M) := do
  let numNewSeqs := (p.world.groups id).getMaxNumRunningSeqs
  let (mapping, world) ← swapIn E.blockSpaceManager p.world id
  let (cows, world) ← appendSlots E.config E.blockSpaceManager world id false
  let budget ← p.budget.addNumBatchedTokens (world.groups id).requestId uncached cached
  let p := { p with
    world, currLoras := addLora E p.currLoras id
    budget := budget.addNumSeqs (world.groups id).requestId numNewSeqs
    blocksToSwapIn := p.blocksToSwapIn ++ mapping
    blocksToCopy := p.blocksToCopy ++ cows }
  if isPrefill then
    return { p with prefillSeqGroups := p.prefillSeqGroups ++ [⟨id, uncached + cached⟩] }
  else return { p with decodeSeqGroups := p.decodeSeqGroups ++ [⟨id, 1⟩] }

/-- The budget has room for a group. -/
def hasBudget (id : GroupId) (uncached : Int) (p : SwappedPass M) : Except SchedulerError Bool :=
  if uncached = 0 then .ok false
  else p.budget.canSchedule uncached (p.world.groups id).getMaxNumRunningSeqs

/-- An iteration of `_schedule_swapped`: whether the group is taken from the queue and the loop goes
on. -/
def step (id : GroupId) (p : SwappedPass M) : Except SchedulerError (Bool × SwappedPass M) := do
  let g := p.world.groups id
  let isPrefill := g.isPrefill
  let status ← raising (E.blockSpaceManager.canSwapIn p.world.blockManager g
    (getNumLookaheadSlots E.config isPrefill false))
  match status with
  | .later => return (false, p)
  | .never => return (true, { p with
      world := p.world.modify id fun g =>
        g.mapSeqs (fun seq => { seq with status := .finished }) (Sequence.seqId_status .finished)
      infeasibleSeqGroups := p.infeasibleSeqGroups ++ [id] })
  | .ok =>
    if noSlotForLora E p.currLoras id then return (true, { p with leftover := id :: p.leftover })
    else
      let ((uncached, cached), world) ← getNumNewUncachedAndCachedTokens E.config E.attributes
        E.blockSpaceManager p.world id .swapped false p.budget none
      let p := { p with world }
      let room ← p.hasBudget id uncached
      if room then
        let p ← p.takeIn E id isPrefill uncached cached
        return (true, p)
      else
        let world ← removeSeqFromComputedBlocksTracker E.blockSpaceManager p.world id .swapped
        return (false, { p with world })

/-- The loop of `_schedule_swapped`, with the groups that stay in the queue. -/
def loop : List GroupId → SwappedPass M → Except SchedulerError (List GroupId × SwappedPass M)
  | [], p => .ok ([], p)
  | id :: swapped, p => do
    let (goesOn, p) ← p.step E id
    if goesOn then loop swapped p else return (id :: swapped, p)

end SwappedPass

/-- `_schedule_swapped`, with the queue that it leaves. -/
def scheduleSwapped (swapped : List GroupId) (p : SwappedPass M) :
    Except SchedulerError (List GroupId × SwappedPass M) := do
  let (rest, p) ← p.loop E swapped
  return (p.leftover.reverse ++ rest, p)

/-! ## The waiting groups -/

/-- What `_passed_delay` remembers. -/
structure PromptClock where
  prevTime : ℚ := 0
  lastPromptLatency : ℚ := 0
  prevPrompt : Bool := false

/-- `_passed_delay`, with the arrival times of the waiting groups. -/
def PromptClock.passedDelay (C : SchedulerConfig) (clock : PromptClock) (now : ℚ)
    (arrivalTimes : List ℚ) (anyRunning : Bool) : Bool × PromptClock :=
  let clock := if clock.prevPrompt then { clock with lastPromptLatency := now - clock.prevTime }
    else clock
  let clock := { clock with prevTime := now, prevPrompt := false }
  match arrivalTimes with
  | [] => (true, clock)
  | t :: ts =>
    if 0 < C.delayFactor then
      (decide (C.delayFactor * clock.lastPromptLatency < now - ts.foldl min t) || !anyRunning, clock)
    else (true, clock)

/-- What `_schedule_prefills` works on. -/
structure PrefillPass (M : Type) where
  world : World M
  budget : SchedulingBudget
  currLoras : Option (Finset Nat)
  metadata : Option PartialPrefillMetadata
  /-- `leftover_waiting_sequences`. -/
  leftover : List GroupId := []
  seqGroups : List ScheduledSequenceGroup := []
  ignoredSeqGroups : List GroupId := []
  usingPromptEmbeds : Bool := false

/-- What becomes of a waiting group. -/
inductive Verdict where
  /-- It stays in the queue, and the loop ends. -/
  | stop
  /-- It is left for later. -/
  | leave
  /-- It is too long for ever. -/
  | ignore
  | go
  deriving DecidableEq, Repr

namespace PrefillPass

/-- A group that is too long is finished. -/
def finishIgnored (w : World M) (id : GroupId) : Except SchedulerError (World M) :=
  removeSeqFromComputedBlocksTracker E.blockSpaceManager
    (w.modify id fun g => g.setStatus .waiting .finished) id .finished

/-- The checks of `_schedule_prefills` up to the room for the group: the new tokens, uncached and
cached. -/
def checkSize (enableChunking : Bool) (id : GroupId) (p : PrefillPass M) :
    Except SchedulerError (Verdict × (Int × Int) × World M) := do
  let w := p.world
  let g := w.groups id
  let waitingSeqs := g.getSeqs .waiting
  require (waitingSeqs.length = 1) (.assertionError "_schedule_prefills")
  if p.metadata.any fun metadata => !metadata.canSchedule E.config g then return (.leave, (0, 0), w)
  else
    let ((uncached, cached), w) ← getNumNewUncachedAndCachedTokens E.config E.attributes
      E.blockSpaceManager w id .waiting enableChunking p.budget p.metadata
    require (enableChunking = false →
        uncached + cached = ((waitingSeqs.head?.map fun seq => seq.tokenIds.length).getD 0 : Nat))
      (.assertionError "_schedule_prefills")
    let promptLimit ← getPromptLimit E.config E.attributes id
    if promptLimit < uncached + cached then
      let w ← finishIgnored E w id
      return (.ignore, (uncached, cached), w)
    else
      let numLookaheadSlots :=
        if E.config.isMultiStep ∧ enableChunking then getNumLookaheadSlots E.config true enableChunking
        else 0
      let status ← raising (E.blockSpaceManager.canAllocate w.blockManager (w.groups id)
        numLookaheadSlots)
      match status with
      | .later =>
        let w ← removeSeqFromComputedBlocksTracker E.blockSpaceManager w id .waiting
        return (.stop, (uncached, cached), w)
      | .never =>
        let w ← finishIgnored E w id
        return (.ignore, (uncached, cached), w)
      | .ok => return (.go, (uncached, cached), w)

/-- The budget has room for a group. -/
def hasBudget (id : GroupId) (uncached : Int) (p : PrefillPass M) : Except SchedulerError Bool :=
  if E.config.maxNumBatchedTokens ≤ p.budget.numBatchedTokens then .ok false
  else if uncached = 0 then .ok false
  else p.budget.canSchedule uncached (p.world.groups id).getMaxNumRunningSeqs

/-- With steps of several tokens, a prompt gets slots for the tokens after it. -/
def appendPromptSlots (enableChunking : Bool) (id : GroupId) (w : World M) :
    Except SchedulerError (List (BlockId × BlockId) × World M) :=
  if enableChunking ∧ E.config.isMultiStep then
    appendSlots E.config E.blockSpaceManager w id enableChunking
  else .ok ([], w)

/-- A waiting group becomes a running one. -/
def takeIn (enableChunking : Bool) (id : GroupId) (uncached cached : Int) (p : PrefillPass M) :
    Except SchedulerError (PrefillPass M) := do
  let numNewSeqs := (p.world.groups id).getMaxNumRunningSeqs
  let world ← allocateAndSetRunning E.blockSpaceManager p.world id
  let metadata := p.metadata.map fun metadata =>
    metadata.maybeIncrementPartialPrefills E.config (world.groups id)
  let (cows, world) ← appendPromptSlots E enableChunking id world
  require (cows = []) (.assertionError "_schedule_prefills")
  let budget ← p.budget.addNumBatchedTokens (world.groups id).requestId uncached cached
  return { p with
    world, metadata, currLoras := addLora E p.currLoras id
    budget := budget.addNumSeqs (world.groups id).requestId numNewSeqs
    seqGroups := p.seqGroups ++ [⟨id, uncached + cached⟩] }

/-- A group is left for later, and its prompt is not remembered. -/
def leave (id : GroupId) (p : PrefillPass M) : Except SchedulerError (PrefillPass M) := do
  let world ← removeSeqFromComputedBlocksTracker E.blockSpaceManager p.world id .waiting
  return { p with world, leftover := id :: p.leftover }

/-- An iteration of `_schedule_prefills`: whether the group is taken from the queue and the loop goes
on. -/
def step (enableChunking : Bool) (id : GroupId) (p : PrefillPass M) :
    Except SchedulerError (Bool × PrefillPass M) := do
  let (verdict, (uncached, cached), world) ← p.checkSize E enableChunking id
  let p := { p with world }
  match verdict with
  | .stop => return (false, p)
  | .leave => return (true, { p with leftover := id :: p.leftover })
  | .ignore => return (true, { p with ignoredSeqGroups := p.ignoredSeqGroups ++ [id] })
  | .go =>
    let usesPromptEmbeds := (E.attributes id).usesPromptEmbeds
    let usingPromptEmbeds :=
      if p.seqGroups.length = 0 then usesPromptEmbeds else p.usingPromptEmbeds
    let p := { p with usingPromptEmbeds }
    if usingPromptEmbeds ≠ usesPromptEmbeds ∨ noSlotForLora E p.currLoras id = true then
      let p ← p.leave E id
      return (true, p)
    else
      let room ← p.hasBudget E id uncached
      if room then
        let p ← p.takeIn E enableChunking id uncached cached
        return (true, p)
      else
        let world ← removeSeqFromComputedBlocksTracker E.blockSpaceManager p.world id .waiting
        return (false, { p with world })

/-- The loop of `_schedule_prefills`, with the groups that stay in the queue; `now` are the times at
which its iterations begin. -/
def loop (enableChunking anyRunning : Bool) (now : Nat → ℚ) :
    Nat → List GroupId → PromptClock → PrefillPass M →
      Except SchedulerError (List GroupId × PromptClock × PrefillPass M)
  | i, [], clock, p => .ok ([], (clock.passedDelay E.config (now i) [] anyRunning).2, p)
  | i, id :: waiting, clock, p => do
    let (passed, clock) := clock.passedDelay E.config (now i)
      ((id :: waiting).map fun id => (E.attributes id).arrivalTime) anyRunning
    if passed then
      let (goesOn, p) ← p.step E enableChunking id
      if goesOn then loop enableChunking anyRunning now (i + 1) waiting clock p
      else return (id :: waiting, clock, p)
    else return (id :: waiting, clock, p)

end PrefillPass

/-- `_schedule_prefills`, with the queue that it leaves. -/
def schedulePrefills (enableChunking anyRunning : Bool) (now : Nat → ℚ) (waiting : List GroupId)
    (clock : PromptClock) (p : PrefillPass M) :
    Except SchedulerError (List GroupId × PromptClock × PrefillPass M) :=
  if p.budget.remainingTokenBudget = 0 then .ok (waiting, clock, p)
  else do
    let (rest, clock, p) ← p.loop E enableChunking anyRunning now 0 waiting clock
    let clock := if 0 < p.seqGroups.length then { clock with prevPrompt := true } else clock
    return (p.leftover.reverse ++ rest, clock, p)

/-! ## Priorities -/

/-- `_get_priority` of a group is at most that of another one. -/
def SchedulerEnvironment.precedes (id id' : GroupId) : Prop :=
  let g := E.attributes id
  let g' := E.attributes id'
  g.priority < g'.priority ∨ (g.priority = g'.priority ∧ g.arrivalTime ≤ g'.arrivalTime)

instance : DecidableRel E.precedes := fun id id' => by
  unfold SchedulerEnvironment.precedes
  infer_instance

/-- What `_schedule_priority_preemption` works on. -/
structure PriorityPass (M : Type) where
  world : World M
  budget : SchedulingBudget
  waiting : List GroupId

/-- There is room for a waiting group. -/
def PriorityPass.hasRoom (id : GroupId) (uncached : Int) (numNewSeqs : Nat) (p : PriorityPass M) :
    Except SchedulerError Bool := do
  let status ← raising (E.blockSpaceManager.canAllocate p.world.blockManager (p.world.groups id) 0)
  if 0 < uncached ∧ status = .ok then p.budget.canSchedule uncached numNewSeqs else return false

/-- A running group waits again. -/
def PriorityPass.preemptVictim (victim : GroupId) (p : PriorityPass M) :
    Except SchedulerError (PriorityPass M) := do
  let ((uncached, _), world) ← getNumNewUncachedAndCachedTokens E.config E.attributes
    E.blockSpaceManager p.world victim .running false p.budget none
  let g := world.groups victim
  let (_, _, world) ← preempt E.config E.blockSpaceManager world victim
  return {
    world
    budget := (p.budget.subtractNumBatchedTokens g.requestId uncached).subtractNumSeqs g.requestId
      g.getMaxNumRunningSeqs
    waiting := victim :: p.waiting }

/-- The loop of `_schedule_priority_preemption` over the running groups, the last one first, for a
waiting group. -/
def PriorityPass.loop (id : GroupId) (uncached : Int) (numNewSeqs : Nat) :
    List GroupId → PriorityPass M → Except SchedulerError (List GroupId × PriorityPass M)
  | [], p => .ok ([], p)
  | victim :: victims, p =>
    if E.precedes victim id then .ok (victim :: victims, p)
    else do
      let hasRoom ← p.hasRoom E id uncached numNewSeqs
      if hasRoom then return (victim :: victims, p)
      else
        let p ← p.preemptVictim E victim
        PriorityPass.loop id uncached numNewSeqs victims p

/-- `_schedule_priority_preemption`, with the running queue that it leaves. -/
def schedulePriorityPreemption (running : List GroupId) (p : PriorityPass M) :
    Except SchedulerError (List GroupId × PriorityPass M) :=
  let running := running.insertionSort E.precedes
  match p.waiting with
  | [] => .ok (running, p)
  | id :: waiting => do
    let numNewSeqs := (p.world.groups id).getMaxNumRunningSeqs
    let ((uncached, _), world) ← getNumNewUncachedAndCachedTokens E.config E.attributes
      E.blockSpaceManager p.world id .waiting false p.budget none
    let (victims, p) ← PriorityPass.loop E id uncached numNewSeqs running.reverse
      { p with world, waiting }
    let world ← removeSeqFromComputedBlocksTracker E.blockSpaceManager p.world id .waiting
    return (victims.reverse, { p with
      world, waiting := (id :: p.waiting).insertionSort E.precedes })

end InferenceServer.V0
