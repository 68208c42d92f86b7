import InferenceServer.Lib.Run
import InferenceServer.V0.Scheduling

/-!
# The scheduler of V0

A step of the scheduler (`vllm/core/scheduler.py`) is one of two orders of the passes. Without chunked
prefill, the waiting groups come first, unless there are swapped ones, and a batch has either prompts or
decodes. With it, the running groups come first, the swapped and the waiting ones after them, and a batch
has both. In both orders nothing is swapped in if a running group was preempted.

The set of the adapters in use is that of the running groups in the first order, and empty in the second.

**Runs.** Between the steps, groups are added, aborted and, when they have finished, freed. The sequences
and the blocks may change at will: tokens are appended, blocks are marked as computed, sequences finish.
-/

namespace InferenceServer.V0

open Outcome

/-- `SchedulerOutputs`. -/
structure SchedulerOutputs where
  scheduledSeqGroups : List ScheduledSequenceGroup
  numPrefillGroups : Nat
  numBatchedTokens : Int
  blocksToSwapIn : List (BlockId × BlockId)
  blocksToSwapOut : List (BlockId × BlockId)
  blocksToCopy : List (BlockId × BlockId)
  ignoredSeqGroups : List GroupId
  numLookaheadSlots : Nat
  runningQueueSize : Nat
  preempted : Nat
  deriving DecidableEq, Repr

/-- The queues of the scheduler. -/
structure Scheduler (M : Type) where
  world : World M
  waiting : List GroupId := []
  running : List GroupId := []
  swapped : List GroupId := []
  /-- `_async_stopped`. -/
  asyncStopped : List GroupId := []
  clock : PromptClock := {}

variable {M : Type} (E : SchedulerEnvironment M)

/-- The adapters of some groups. -/
def SchedulerEnvironment.lorasOf (ids : List GroupId) : Finset Nat :=
  ((ids.map E.loraIntId).filter (0 < ·)).toFinset

/-! ## Outputs -/

/-- The key of `_sort_by_lora_ids` of a group is at most that of another one. Requests are numbered in the
order of their ids. -/
def keyLe (w : World M) (mixed : Bool) (x y : ScheduledSequenceGroup) : Prop :=
  let isPrefill (z : ScheduledSequenceGroup) := (w.groups z.seqGroup).isPrefill
  let key (z : ScheduledSequenceGroup) :=
    toLex (E.loraIntId z.seqGroup, (w.groups z.seqGroup).requestId)
  -- prompts come before decodes
  (mixed = true ∧ isPrefill x = true ∧ isPrefill y = false) ∨
    ((mixed = true → isPrefill x = isPrefill y) ∧ key x ≤ key y)

instance (w : World M) (mixed : Bool) : DecidableRel (keyLe E w mixed) := fun x y => by
  unfold keyLe
  infer_instance

/-- `__post_init__` of the outputs. -/
def SchedulerOutputs.postInit (w : World M) (out : SchedulerOutputs) :
    Except SchedulerError SchedulerOutputs := do
  require (out.blocksToSwapIn = [] ∨ out.blocksToSwapOut = []) (.assertionError "__post_init__")
  if out.scheduledSeqGroups.any fun x => decide (0 < E.loraIntId x.seqGroup) then
    let mixed := decide (0 < out.numPrefillGroups ∧
      out.numPrefillGroups < out.scheduledSeqGroups.length)
    return { out with
      scheduledSeqGroups := out.scheduledSeqGroups.insertionSort (keyLe E w mixed) }
  else return out

/-- The budget was kept. -/
def SchedulingBudget.check (budget : SchedulingBudget) (C : SchedulerConfig) (method : String) :
    Except SchedulerError Unit := do
  require (budget.numBatchedTokens ≤ C.maxNumBatchedTokens) (.assertionError method)
  require (budget.numCurrSeqs ≤ C.maxNumSeqs) (.assertionError method)

/-- The groups of a list of scheduled groups. -/
def groupsOf (l : List ScheduledSequenceGroup) : List GroupId := l.map fun x => x.seqGroup

namespace RunningPass

/-- The groups that the pass scheduled. -/
def scheduled (p : RunningPass M) : List ScheduledSequenceGroup :=
  p.outputs.prefillSeqGroups ++ p.outputs.decodeSeqGroups

/-- The number of groups that had to make way. -/
def numPreempted (p : RunningPass M) : Nat :=
  p.outputs.preempted.length + p.outputs.swappedOut.length

end RunningPass

/-- The groups that the pass swapped in. -/
def SwappedPass.scheduled (p : SwappedPass M) : List ScheduledSequenceGroup :=
  p.prefillSeqGroups ++ p.decodeSeqGroups

namespace Scheduler

variable (s : Scheduler M)

/-- `_schedule_swapped` after the pass over the running groups. -/
def swapInAfter (p : RunningPass M) : Except SchedulerError (List GroupId × SwappedPass M) :=
  let q : SwappedPass M := { world := p.world, budget := p.budget, currLoras := p.currLoras }
  if p.numPreempted = 0 then scheduleSwapped E s.swapped q else .ok (s.swapped, q)

/-! ## Without chunked prefill -/

/-- The budget of `_schedule_default`, which has the running groups. -/
def defaultBudget : SchedulingBudget :=
  s.running.foldl (fun budget id =>
      budget.addNumSeqs (s.world.groups id).requestId (s.world.groups id).getMaxNumRunningSeqs)
    { tokenBudget := E.config.maxNumBatchedTokens, maxNumSeqs := E.config.maxNumSeqs }

/-- The pass over the waiting groups, if nothing is swapped. -/
def promptsFirst (now : Nat → ℚ) :
    Except SchedulerError (List GroupId × PromptClock × PrefillPass M) :=
  let p : PrefillPass M := {
    world := s.world
    budget := s.defaultBudget E
    currLoras := if E.config.maxLoras.isSome then some (E.lorasOf s.running) else none
    metadata := none }
  if s.swapped = [] then
    schedulePrefills E false (decide (s.running ≠ [])) now s.waiting s.clock p
  else .ok (s.waiting, s.clock, p)

/-- What the pass over the running groups starts with, and the waiting groups. -/
def startDecodes (waiting : List GroupId) (prefills : PrefillPass M) :
    Except SchedulerError (List GroupId × RunningPass M) := do
  let q : PriorityPass M := { world := prefills.world, budget := prefills.budget, waiting }
  let (running, q) ← if E.config.priorityPolicy then schedulePriorityPreemption E s.running q
    else .ok (s.running, q)
  return (q.waiting, {
    world := q.world
    queue := running
    asyncStopped := s.asyncStopped
    budget := q.budget
    currLoras := prefills.currLoras })

/-- What `_schedule_default` returns, after prompts were scheduled. -/
def promptOutputs (waiting : List GroupId) (clock : PromptClock) (prefills : PrefillPass M) :
    Except SchedulerError (SchedulerOutputs × Scheduler M) := do
  prefills.budget.check E.config "_schedule_default"
  let running := s.running ++ groupsOf prefills.seqGroups
  let out ← SchedulerOutputs.postInit E prefills.world {
    scheduledSeqGroups := prefills.seqGroups
    numPrefillGroups := prefills.seqGroups.length
    numBatchedTokens := prefills.budget.numBatchedTokens + prefills.budget.numCachedTokens
    blocksToSwapIn := []
    blocksToSwapOut := []
    blocksToCopy := []
    ignoredSeqGroups := prefills.ignoredSeqGroups
    numLookaheadSlots := 0
    runningQueueSize := running.length
    preempted := 0 }
  return (out, { s with world := prefills.world, waiting, running, clock })

/-- The decodes that have, or have not, prompt embeddings as the first one has. -/
def sameEmbeds (ids : List ScheduledSequenceGroup) (same : Bool) : List ScheduledSequenceGroup :=
  match ids with
  | [] => []
  | x :: _ => ids.filter fun y => same = decide ((E.attributes y.seqGroup).usesPromptEmbeds =
      (E.attributes x.seqGroup).usesPromptEmbeds)

/-- What `_schedule_default` returns, after decodes were scheduled. -/
def decodeOutputs (waiting : List GroupId) (clock : PromptClock) (ignored : List GroupId)
    (p : RunningPass M) (swapped : List GroupId) (q : SwappedPass M) :
    Except SchedulerError (SchedulerOutputs × Scheduler M) := do
  q.budget.check E.config "_schedule_default"
  let decodes := p.outputs.decodeSeqGroups
  let running := p.queue ++ groupsOf decodes ++ groupsOf q.decodeSeqGroups
  require (p.outputs.prefillSeqGroups = []) (.assertionError "_schedule_default")
  require (q.prefillSeqGroups = []) (.assertionError "_schedule_default")
  let out ← SchedulerOutputs.postInit E q.world {
    scheduledSeqGroups := sameEmbeds E decodes true ++ q.decodeSeqGroups
    numPrefillGroups := 0
    numBatchedTokens := q.budget.numBatchedTokens + q.budget.numCachedTokens
    blocksToSwapIn := q.blocksToSwapIn
    blocksToSwapOut := p.outputs.blocksToSwapOut
    blocksToCopy := p.outputs.blocksToCopy ++ q.blocksToCopy
    ignoredSeqGroups := ignored ++ groupsOf (sameEmbeds E decodes false) ++ q.infeasibleSeqGroups
    numLookaheadSlots := getNumLookaheadSlots E.config false false
    runningQueueSize := running.length
    preempted := p.numPreempted }
  return (out, {
    world := q.world
    waiting := p.outputs.preempted.reverse ++ waiting
    running
    swapped := swapped ++ p.outputs.swappedOut
    asyncStopped := p.asyncStopped
    clock })

/-- `_schedule_default`. -/
def scheduleDefault (now : Nat → ℚ) : Except SchedulerError (SchedulerOutputs × Scheduler M) := do
  let (waiting, clock, prefills) ← s.promptsFirst E now
  if prefills.seqGroups ≠ [] then s.promptOutputs E waiting clock prefills
  else
    let (waiting, start) ← s.startDecodes E waiting prefills
    let p ← scheduleRunning E false none start
    let (swapped, q) ← s.swapInAfter E p
    decodeOutputs E waiting clock prefills.ignoredSeqGroups p swapped q

/-! ## With chunked prefill -/

/-- The partial prefills before a step. -/
def partialPrefills : PartialPrefillMetadata :=
  .fromQueues E.config (s.running.map s.world.groups) (s.waiting.map s.world.groups)

/-- What the pass over the running groups starts with. -/
def startChunked : RunningPass M where
  world := s.world
  queue := s.running
  asyncStopped := s.asyncStopped
  budget := { tokenBudget := E.config.maxNumBatchedTokens, maxNumSeqs := E.config.maxNumSeqs }
  currLoras := some ∅

/-- `get_num_uncomputed_tokens`. -/
def getNumUncomputedTokens (g : SequenceGroup) : Int :=
  ((g.seqs.filter fun seq => seq.status ≠ .finished).map fun seq =>
    (seq.tokenIds.length - seq.numComputedTokens : Int)).sum

/-- `_order_finishing_prefills_first`. -/
def orderFinishingPrefillsFirst (w : World M) (prefills : List ScheduledSequenceGroup) :
    List GroupId :=
  let finishing (x : ScheduledSequenceGroup) : Bool :=
    getNumUncomputedTokens (w.groups x.seqGroup) = x.tokenChunkSize
  groupsOf (prefills.filter finishing) ++ groupsOf (prefills.filter fun x => !finishing x)

/-- What `_schedule_chunked_prefill` returns. -/
def chunkedOutputs (p : RunningPass M) (swapped : List GroupId) (q : SwappedPass M)
    (waiting : List GroupId) (clock : PromptClock) (r : PrefillPass M) :
    Except SchedulerError (SchedulerOutputs × Scheduler M) := do
  r.budget.check E.config "_schedule_chunked_prefill"
  let running := p.queue ++ groupsOf q.decodeSeqGroups ++ groupsOf q.prefillSeqGroups ++
    groupsOf p.outputs.decodeSeqGroups ++
    orderFinishingPrefillsFirst r.world p.outputs.prefillSeqGroups ++ groupsOf r.seqGroups
  let prefills := r.seqGroups ++ p.outputs.prefillSeqGroups ++ q.prefillSeqGroups
  let decodes := p.outputs.decodeSeqGroups ++ q.decodeSeqGroups
  let out ← SchedulerOutputs.postInit E r.world {
    scheduledSeqGroups := prefills ++ decodes
    numPrefillGroups := prefills.length
    numBatchedTokens := r.budget.numBatchedTokens + r.budget.numCachedTokens
    blocksToSwapIn := q.blocksToSwapIn
    blocksToSwapOut := p.outputs.blocksToSwapOut
    blocksToCopy := p.outputs.blocksToCopy ++ q.blocksToCopy
    ignoredSeqGroups := r.ignoredSeqGroups ++ q.infeasibleSeqGroups
    numLookaheadSlots :=
      if decodes = [] ∧ ¬ E.config.isMultiStep then 0 else getNumLookaheadSlots E.config false true
    runningQueueSize := running.length
    preempted := p.numPreempted }
  return (out, {
    world := r.world
    waiting := p.outputs.preempted.reverse ++ waiting
    running
    swapped := swapped ++ p.outputs.swappedOut
    asyncStopped := p.asyncStopped
    clock })

/-- `_schedule_chunked_prefill`. -/
def scheduleChunkedPrefill (now : Nat → ℚ) :
    Except SchedulerError (SchedulerOutputs × Scheduler M) := do
  let metadata := some (s.partialPrefills E)
  let p ← scheduleRunning E true metadata (s.startChunked E)
  let (swapped, q) ← s.swapInAfter E p
  let (waiting, clock, r) ← schedulePrefills E true (decide (p.queue ≠ [])) now s.waiting s.clock
    { world := q.world, budget := q.budget, currLoras := q.currLoras, metadata }
  chunkedOutputs E p swapped q waiting clock r

/-- `_schedule`; `now` are the times at which the prompts are looked at. -/
def schedule (now : Nat → ℚ) : Except SchedulerError (SchedulerOutputs × Scheduler M) :=
  if E.config.chunkedPrefillEnabled then s.scheduleChunkedPrefill E now else s.scheduleDefault E now

/-! ## Between the steps -/

/-- `add_seq_group`. -/
def addSeqGroup (id : GroupId) : Scheduler M := { s with waiting := s.waiting ++ [id] }

/-- What `abort_seq_group` does to a group. -/
def abortGroup (w : World M) (id : GroupId) : Except SchedulerError (World M) := do
  let w' ← freeSeqs E.blockSpaceManager w
    ((w.groups id).seqs.filter fun seq => seq.status ≠ .finished)
  freeSeqGroupCrossAttnBlocks E.blockSpaceManager
    (w'.modify id fun g =>
      g.mapSeqs (fun seq => { seq with status := .finished }) (Sequence.seqId_status .finished)) id

/-- `abort_seq_group`; the ids of the requests say which groups are aborted. -/
def abortSeqGroup (aborted : GroupId → Bool) : Except SchedulerError (Scheduler M) := do
  let world ← ((s.waiting ++ s.running ++ s.swapped).filter aborted).foldlM (abortGroup E) s.world
  let kept (queue : List GroupId) := queue.filter fun id => !aborted id
  return { s with
    world, waiting := kept s.waiting, running := kept s.running, swapped := kept s.swapped }

/-- `free_finished_seq_groups`, of a group that ran up to the length of the model. -/
def freeAsyncStopped (w : World M) (id : GroupId) : Except SchedulerError (World M) := do
  let w ← freeSeqGroupCrossAttnBlocks E.blockSpaceManager w id
  freeSeqs E.blockSpaceManager w ((w.groups id).getSeqs .finished)

/-- `free_finished_seq_groups`. -/
def freeFinishedSeqGroups : Except SchedulerError (Scheduler M) := do
  let world ← s.running.foldlM (freeFinishedSeqGroup E.blockSpaceManager) s.world
  let running := s.running.filter fun id => !(world.groups id).isFinished
  let world ← s.asyncStopped.foldlM (freeAsyncStopped E) world
  return { s with world, running, asyncStopped := [] }

end Scheduler

/-- The block manager of `BlockManager`, where there are no blocks of the CPU: nothing can be swapped. -/
def BlockSpaceManager.withoutCpu (cfg : ManagerConfig) : BlockSpaceManager BlockManager where
  canAllocate m := m.canAllocate cfg
  allocate m := m.allocate cfg
  canAppendSlots m := m.canAppendSlots cfg
  appendSlots m := m.appendSlots cfg
  canSwapIn _ _ _ := .ok .never
  swapIn _ _ := .error .keyError
  canSwapOut _ _ := .ok false
  swapOut _ _ := .error .keyError
  free m := m.free cfg
  freeCross m := m.freeCross cfg
  getNumCachedTokens m := m.getNumCachedTokens cfg
  removeSeqFromComputedBlocksTracker m := m.removeSeqFromComputedBlocksTracker cfg

/-! ## Runs -/

/-- An operation on the scheduler, or a change of the sequences and the blocks by others. -/
inductive SchedulerOp (M : Type) where
  | addSeqGroup (id : GroupId)
  | abortSeqGroup (aborted : GroupId → Bool)
  | freeFinishedSeqGroups
  | schedule (now : Nat → ℚ)
  | update (change : World M → World M)

/-- What an operation does. -/
def SchedulerOp.run (s : Scheduler M) : SchedulerOp M → Except SchedulerError (Scheduler M)
  | .addSeqGroup id => .ok (s.addSeqGroup id)
  | .abortSeqGroup aborted => s.abortSeqGroup E aborted
  | .freeFinishedSeqGroups => s.freeFinishedSeqGroups E
  | .schedule now => do
    let (_, s) ← s.schedule E now
    return s
  | .update change => .ok { s with world := change s.world }

/-- The scheduler as a machine, with the world that it starts in. -/
def scheduler (world : World M) : Machine (Scheduler M) (SchedulerOp M) SchedulerError where
  init := { world }
  step := SchedulerOp.run E

end InferenceServer.V0
