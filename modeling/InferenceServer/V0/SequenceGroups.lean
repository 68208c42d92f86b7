import Mathlib.Data.Rat.Defs
import InferenceServer.V0.BlockManager

/-!
# What the scheduler knows about sequence groups

The scheduler of V0 (`vllm/core/scheduler.py`) has queues of sequence groups. A group is an object: its
sequences change while it is queued, also from outside of the scheduler; its adapter, its priority and
the time of its arrival do not. So a queue holds references, the sequences are in a world that the
operations change, and what does not change is a function of the reference.

The scheduler asks the block manager for room through an interface, of which the block manager of
`BlockManager` is an implementation. With it come the two things that say how many tokens of a group a
step may compute: the budget of the step, and how many partial prefills there are.

## Main definitions

* `GroupAttributes`, `World`, `BlockSpaceManager`
* `SchedulingBudget`, `PartialPrefillMetadata`: what a step has to give
* `getNumNewUncachedAndCachedTokens`, `preempt`, `appendSlots`, `swapIn`, `allocateAndSetRunning`
-/

namespace InferenceServer.V0

open Outcome

/-- A reference to a sequence group. -/
abbrev GroupId := Nat

/-- What stays the same about a group. -/
structure GroupAttributes where
  /-- 0 stands for no adapter. -/
  loraIntId : Nat := 0
  longLoraMaxLen : Option Nat := none
  priority : Int := 0
  arrivalTime : ℚ := 0
  usesPromptEmbeds : Bool := false

inductive PreemptionMode where
  | swap
  | recompute
  deriving DecidableEq, Repr

/-- The configuration; `maxLoras` is that of `lora_config`. -/
structure SchedulerConfig where
  chunkedPrefillEnabled : Bool
  maxNumBatchedTokens : Nat
  maxNumSeqs : Nat
  maxModelLen : Nat
  maxNumPartialPrefills : Nat := 1
  maxLongPartialPrefills : Nat := 1
  longPrefillTokenThreshold : Nat := 0
  delayFactor : ℚ := 0
  isMultiStep : Bool := false
  numLookaheadSlots : Nat := 0
  /-- The policy is `priority`. -/
  priorityPolicy : Bool := false
  /-- `user_specified_preemption_mode`. -/
  preemptionMode : Option PreemptionMode := none
  enablePrefixCaching : Bool := false
  blockSize : Nat
  maxLoras : Option Nat

inductive SchedulerError where
  | block (e : BlockError)
  /-- An `assert` of a method. -/
  | assertionError (method : String)
  /-- `RuntimeError` of `_swap_out`. -/
  | noSwapSpace
  deriving DecidableEq, Repr

/-- What the scheduler uses of a block manager. -/
structure BlockSpaceManager (M : Type) where
  canAllocate : M → SequenceGroup → Nat → Except BlockError AllocStatus
  allocate : M → SequenceGroup → Except BlockError M
  canAppendSlots : M → SequenceGroup → Nat → Except BlockError Bool
  appendSlots : M → Nat → Sequence → Except BlockError (List (BlockId × BlockId) × M)
  canSwapIn : M → SequenceGroup → Nat → Except BlockError AllocStatus
  swapIn : M → SequenceGroup → Except BlockError (List (BlockId × BlockId) × M)
  canSwapOut : M → SequenceGroup → Except BlockError Bool
  swapOut : M → SequenceGroup → Except BlockError (List (BlockId × BlockId) × M)
  free : M → SeqId → Except BlockError M
  freeCross : M → ReqId → Except BlockError M
  getNumCachedTokens : M → Sequence → Except BlockError (Nat × M)
  removeSeqFromComputedBlocksTracker : M → SeqId → Except BlockError M

/-- The sequence groups as they are now, and the block manager. -/
structure World (M : Type) where
  groups : GroupId → SequenceGroup
  blockManager : M

/-- What the block manager raises goes through the scheduler. -/
def raising {α : Type} : Except BlockError α → Except SchedulerError α
  | .ok a => .ok a
  | .error e => .error (.block e)

/-! ## Groups -/

theorem Sequence.seqId_status (status : SequenceStatus) (seq : Sequence) :
    { seq with status }.seqId = seq.seqId := rfl

namespace SequenceGroup

/-- A change of the sequences that keeps their ids. -/
def mapSeqs (g : SequenceGroup) (f : Sequence → Sequence)
    (hf : ∀ seq, (f seq).seqId = seq.seqId) : SequenceGroup :=
  { g with
    seqs := g.seqs.map f
    nodup := by
      have hsame : (g.seqs.map f).map Sequence.seqId = g.seqs.map Sequence.seqId := by
        rw [List.map_map]
        exact List.map_congr_left fun seq _ => hf seq
      rw [hsame]
      exact g.nodup }

/-- The sequences with one status get another. -/
def setStatus (g : SequenceGroup) (old new : SequenceStatus) : SequenceGroup :=
  g.mapSeqs (fun seq => if seq.status = old then { seq with status := new } else seq) fun seq => by
    split_ifs <;> rfl

/-- `is_prefill`, of the first sequence. -/
def isPrefill (g : SequenceGroup) : Bool := (g.seqs.head?.map Sequence.isPrefill).getD false

/-- `is_finished`. -/
def isFinished (g : SequenceGroup) : Bool := g.seqs.all fun seq => seq.status = .finished

/-- `get_max_num_running_seqs`. -/
def getMaxNumRunningSeqs (g : SequenceGroup) : Nat :=
  (g.seqs.filter fun seq => seq.status ≠ .finished).length

/-- `first_seq.get_num_new_tokens`. -/
def firstNumNewTokens (g : SequenceGroup) : Nat :=
  match g.seqs.head? with
  | none => 0
  | some seq => if seq.isPrefill then seq.tokenIds.length - seq.numComputedTokens else 1

/-- The length of the first sequence. -/
def firstLen (g : SequenceGroup) : Nat := (g.seqs.head?.map fun seq => seq.tokenIds.length).getD 0

end SequenceGroup

variable {M : Type}

/-- A group changes. -/
def World.modify (w : World M) (id : GroupId) (f : SequenceGroup → SequenceGroup) : World M :=
  { w with groups := Function.update w.groups id (f (w.groups id)) }

/-! ## The budget of a step -/

structure SchedulingBudget where
  tokenBudget : Nat
  maxNumSeqs : Nat
  requestIdsNumBatchedTokens : Finset ReqId := ∅
  requestIdsNumCurrSeqs : Finset ReqId := ∅
  numCachedTokens : Int := 0
  numBatchedTokens : Int := 0
  numCurrSeqs : Int := 0

namespace SchedulingBudget

variable (budget : SchedulingBudget)

/-- `can_schedule`. -/
def canSchedule (numNewTokens : Int) (numNewSeqs : Nat) : Except SchedulerError Bool := do
  require (0 ≤ numNewTokens) (.assertionError "can_schedule")
  require (numNewSeqs ≠ 0) (.assertionError "can_schedule")
  return decide (budget.numBatchedTokens + numNewTokens ≤ budget.tokenBudget ∧
    budget.numCurrSeqs + numNewSeqs ≤ budget.maxNumSeqs)

/-- `remaining_token_budget`. -/
def remainingTokenBudget : Int := budget.tokenBudget - budget.numBatchedTokens

/-- `add_num_batched_tokens`. -/
def addNumBatchedTokens (reqId : ReqId) (numBatchedTokens numCachedTokens : Int) :
    Except SchedulerError SchedulingBudget :=
  if reqId ∈ budget.requestIdsNumBatchedTokens then .ok budget
  else do
    require (0 ≤ numCachedTokens) (.assertionError "add_num_batched_tokens")
    require (0 ≤ numBatchedTokens) (.assertionError "add_num_batched_tokens")
    return { budget with
      requestIdsNumBatchedTokens := insert reqId budget.requestIdsNumBatchedTokens
      numBatchedTokens := budget.numBatchedTokens + numBatchedTokens
      numCachedTokens := budget.numCachedTokens + numCachedTokens }

/-- `subtract_num_batched_tokens`. -/
def subtractNumBatchedTokens (reqId : ReqId) (numBatchedTokens : Int) : SchedulingBudget :=
  if reqId ∈ budget.requestIdsNumBatchedTokens then
    { budget with
      requestIdsNumBatchedTokens := budget.requestIdsNumBatchedTokens.erase reqId
      numBatchedTokens := budget.numBatchedTokens - numBatchedTokens }
  else budget

/-- `add_num_seqs`. -/
def addNumSeqs (reqId : ReqId) (numCurrSeqs : Nat) : SchedulingBudget :=
  if reqId ∈ budget.requestIdsNumCurrSeqs then budget
  else { budget with
    requestIdsNumCurrSeqs := insert reqId budget.requestIdsNumCurrSeqs
    numCurrSeqs := budget.numCurrSeqs + numCurrSeqs }

/-- `subtract_num_seqs`. -/
def subtractNumSeqs (reqId : ReqId) (numCurrSeqs : Nat) : SchedulingBudget :=
  if reqId ∈ budget.requestIdsNumCurrSeqs then
    { budget with
      requestIdsNumCurrSeqs := budget.requestIdsNumCurrSeqs.erase reqId
      numCurrSeqs := budget.numCurrSeqs - numCurrSeqs }
  else budget

end SchedulingBudget

/-! ## Partial prefills -/

structure PartialPrefillMetadata where
  schedulablePrefills : Nat
  longPrefills : Nat
  deriving DecidableEq, Repr

namespace PartialPrefillMetadata

variable (C : SchedulerConfig)

/-- A group whose next prefill is long. -/
def isLong (g : SequenceGroup) : Bool := decide (C.longPrefillTokenThreshold < g.firstNumNewTokens)

/-- `can_schedule`. -/
def canSchedule (metadata : PartialPrefillMetadata) (g : SequenceGroup) : Bool :=
  !(isLong C g && decide (C.maxLongPartialPrefills ≤ metadata.longPrefills) &&
    decide (1 < C.maxNumPartialPrefills))

/-- `maybe_increment_partial_prefills`. -/
def maybeIncrementPartialPrefills (metadata : PartialPrefillMetadata) (g : SequenceGroup) :
    PartialPrefillMetadata :=
  if isLong C g then { metadata with longPrefills := metadata.longPrefills + 1 } else metadata

/-- The loop of `from_queues` over the waiting groups. -/
def waitingLoop (longPrefills : Nat) : List SequenceGroup → Nat → Nat → Nat
  | [], _, prefills => prefills
  | g :: gs, waitingLongPrefills, prefills =>
    if C.maxNumPartialPrefills ≤ prefills then prefills
    else if isLong C g then
      if C.maxLongPartialPrefills ≤ longPrefills + waitingLongPrefills then
        waitingLoop longPrefills gs waitingLongPrefills prefills
      else waitingLoop longPrefills gs (waitingLongPrefills + 1) (prefills + 1)
    else waitingLoop longPrefills gs waitingLongPrefills (prefills + 1)

/-- `from_queues`. -/
def fromQueues (running waiting : List SequenceGroup) : PartialPrefillMetadata :=
  let prefills := running.filter SequenceGroup.isPrefill
  let longPrefills := (prefills.filter (isLong C)).length
  { schedulablePrefills :=
      min (waitingLoop C longPrefills waiting 0 prefills.length) C.maxNumPartialPrefills
    longPrefills }

end PartialPrefillMetadata

/-! ## New tokens -/

section Tokens

variable (C : SchedulerConfig) (A : GroupId → GroupAttributes) (B : BlockSpaceManager M)

/-- `_get_prompt_limit`. -/
def getPromptLimit (id : GroupId) : Except SchedulerError Nat :=
  let promptLimit :=
    if C.chunkedPrefillEnabled ∧ ¬ C.isMultiStep then C.maxModelLen
    else min C.maxModelLen C.maxNumBatchedTokens
  match (A id).longLoraMaxLen with
  | none => .ok promptLimit
  -- 0 counts as not given
  | some 0 => .ok promptLimit
  | some (n + 1) => do
    require (promptLimit ≤ n + 1) (.assertionError "_get_prompt_limit")
    return n + 1

/-- `partial_prefill_budget_lookup_list`. -/
def partialPrefillBudget (schedulablePrefills : Nat) : Nat :=
  if schedulablePrefills = 0 then C.maxNumBatchedTokens
  else C.maxNumBatchedTokens / schedulablePrefills

/-- `_chunk_new_tokens_to_schedule`. -/
def chunkNewTokensToSchedule (budget : SchedulingBudget) (promptLimit : Nat) (numNewTokens : Int)
    (metadata : Option PartialPrefillMetadata) : Int :=
  let remaining := budget.remainingTokenBudget
  if C.isMultiStep then
    if promptLimit < numNewTokens then numNewTokens
    else if remaining < numNewTokens then 0
    else numNewTokens
  else
    let prefillSlotBudget : Int :=
      match metadata with
      | none => remaining
      | some metadata => partialPrefillBudget C metadata.schedulablePrefills
    let remaining :=
      if C.enablePrefixCaching then
        Int.fdiv (min remaining prefillSlotBudget) C.blockSize * C.blockSize
      else remaining
    min (min numNewTokens remaining) prefillSlotBudget

/-- The loop of `_get_num_new_uncached_and_cached_tokens`: the uncached tokens, the cached ones, and
the block manager. -/
def countNewTokens (acc : Int × Int × M) (seq : Sequence) : Except SchedulerError (Int × Int × M) :=
  let (uncached, cached, m) := acc
  let allNew : Int := seq.tokenIds.length - seq.numComputedTokens
  if seq.isPrefill = false then .ok (uncached + 1, cached, m)
  else if C.enablePrefixCaching = false then .ok (uncached + allNew, cached, m)
  else do
    let (numCached, m) ← raising (B.getNumCachedTokens m seq)
    require (numCached < seq.numComputedTokens →
        seq.isPrefill = true ∧ seq.status = .running ∧ C.chunkedPrefillEnabled = true)
      (.assertionError "_get_num_new_uncached_and_cached_tokens")
    let newCached := max 0 ((numCached : Int) - seq.numComputedTokens)
    return (uncached + (allNew - newCached), cached + newCached, m)

/-- `_get_num_new_uncached_and_cached_tokens`. -/
def getNumNewUncachedAndCachedTokens (w : World M) (id : GroupId) (status : SequenceStatus)
    (enableChunking : Bool) (budget : SchedulingBudget) (metadata : Option PartialPrefillMetadata) :
    Except SchedulerError ((Int × Int) × World M) := do
  let seqs := (w.groups id).getSeqs status
  let (uncached, cached, m) ← seqs.foldlM (countNewTokens C B) (0, 0, w.blockManager)
  -- of a prompt that is cached as a whole, the last token is computed again
  let (uncached, cached) := if uncached = 0 ∧ 0 < cached then (1, cached - 1) else (uncached, cached)
  let w := { w with blockManager := m }
  if enableChunking ∧ seqs.length = 1 then do
    let promptLimit ← getPromptLimit C A id
    return ((chunkNewTokensToSchedule C budget promptLimit uncached metadata, cached), w)
  else return ((uncached, cached), w)

/-- `_get_num_lookahead_slots`. -/
def getNumLookaheadSlots (isPrefill enableChunking : Bool) : Nat :=
  if isPrefill then if C.isMultiStep ∧ enableChunking then C.numLookaheadSlots + 1 else 0
  else C.numLookaheadSlots

end Tokens

/-! ## What happens to a group -/

section Groups

variable (C : SchedulerConfig) (B : BlockSpaceManager M)

/-- `free_seq` of some sequences. -/
def freeSeqs (w : World M) (seqs : List Sequence) : Except SchedulerError (World M) := do
  let m ← seqs.foldlM (fun m seq => raising (B.free m seq.seqId)) w.blockManager
  return { w with blockManager := m }

/-- `_free_seq_group_cross_attn_blocks`. -/
def freeSeqGroupCrossAttnBlocks (w : World M) (id : GroupId) : Except SchedulerError (World M) :=
  if (w.groups id).encoderSeq.isSome then do
    let m ← raising (B.freeCross w.blockManager (w.groups id).requestId)
    return { w with blockManager := m }
  else .ok w

/-- `_free_finished_seq_group`. -/
def freeFinishedSeqGroup (w : World M) (id : GroupId) : Except SchedulerError (World M) := do
  let w ← if (w.groups id).isFinished then freeSeqGroupCrossAttnBlocks B w id else .ok w
  freeSeqs B w ((w.groups id).getSeqs .finished)

/-- `remove_seq_from_computed_blocks_tracker`, of the sequences with a status. -/
def removeSeqFromComputedBlocksTracker (w : World M) (id : GroupId) (status : SequenceStatus) :
    Except SchedulerError (World M) := do
  let m ← ((w.groups id).getSeqs status).foldlM
    (fun m seq => raising (B.removeSeqFromComputedBlocksTracker m seq.seqId)) w.blockManager
  return { w with blockManager := m }

/-- `_allocate_and_set_running`. -/
def allocateAndSetRunning (w : World M) (id : GroupId) : Except SchedulerError (World M) := do
  let m ← raising (B.allocate w.blockManager (w.groups id))
  return { w with blockManager := m }.modify id fun g => g.setStatus .waiting .running

/-- `_can_append_slots`. -/
def canAppendSlots (w : World M) (id : GroupId) (enableChunking : Bool) :
    Except SchedulerError Bool := do
  let isPrefill := (w.groups id).isPrefill
  let numLookaheadSlots := getNumLookaheadSlots C isPrefill enableChunking
  require (isPrefill = true ∧ 0 < numLookaheadSlots → C.isMultiStep = true ∧ enableChunking = true)
    (.assertionError "_can_append_slots")
  raising (B.canAppendSlots w.blockManager (w.groups id) numLookaheadSlots)

/-- The loop of `_append_slots`. -/
def appendSlotsOf (numLookaheadSlots : Nat) (acc : List (BlockId × BlockId) × M) (seq : Sequence) :
    Except SchedulerError (List (BlockId × BlockId) × M) := do
  let (cows, m) ← raising (B.appendSlots acc.2 numLookaheadSlots seq)
  return (acc.1 ++ cows, m)

/-- `_append_slots`: the blocks to copy. -/
def appendSlots (w : World M) (id : GroupId) (enableChunking : Bool) :
    Except SchedulerError (List (BlockId × BlockId) × World M) := do
  let g := w.groups id
  let numLookaheadSlots := getNumLookaheadSlots C g.isPrefill enableChunking
  let seqs := if C.isMultiStep ∧ enableChunking then g.seqs else g.getSeqs .running
  let (cows, m) ← seqs.foldlM (appendSlotsOf B numLookaheadSlots) ([], w.blockManager)
  return (cows, { w with blockManager := m })

/-- `_swap_in`. -/
def swapIn (w : World M) (id : GroupId) :
    Except SchedulerError (List (BlockId × BlockId) × World M) := do
  let (mapping, m) ← raising (B.swapIn w.blockManager (w.groups id))
  return (mapping, { w with blockManager := m }.modify id fun g => g.setStatus .swapped .running)

/-- `_swap_out`. -/
def swapOut (w : World M) (id : GroupId) :
    Except SchedulerError (List (BlockId × BlockId) × World M) := do
  let can ← raising (B.canSwapOut w.blockManager (w.groups id))
  require (can = true) .noSwapSpace
  let (mapping, m) ← raising (B.swapOut w.blockManager (w.groups id))
  return (mapping, { w with blockManager := m }.modify id fun g => g.setStatus .running .swapped)

/-- A running sequence waits again, to be computed from its start. -/
def Sequence.recompute (seq : Sequence) : Sequence :=
  if seq.status = .running then
    { seq with status := .waiting, numComputedTokens := 0, isPrefill := true }
  else seq

theorem Sequence.seqId_recompute (seq : Sequence) : seq.recompute.seqId = seq.seqId := by
  unfold recompute
  split_ifs <;> rfl

/-- `_preempt_by_recompute`. -/
def preemptByRecompute (w : World M) (id : GroupId) : Except SchedulerError (World M) := do
  let seqs := (w.groups id).getSeqs .running
  require (seqs.length = 1) (.assertionError "_preempt_by_recompute")
  let w ← freeSeqs B w seqs
  let w := w.modify id fun g => g.mapSeqs Sequence.recompute Sequence.seqId_recompute
  freeSeqGroupCrossAttnBlocks B w id

/-- The mode of `_preempt`. -/
def preemptionModeOf (g : SequenceGroup) : PreemptionMode :=
  match C.preemptionMode with
  | none => if g.getMaxNumRunningSeqs = 1 then .recompute else .swap
  | some mode => mode

/-- `_preempt`: the mode, and the blocks to swap out. -/
def preempt (w : World M) (id : GroupId) :
    Except SchedulerError (PreemptionMode × List (BlockId × BlockId) × World M) :=
  match preemptionModeOf C (w.groups id) with
  | .recompute => do
    let w ← preemptByRecompute B w id
    return (.recompute, [], w)
  | .swap => do
    let (mapping, w) ← swapOut B w id
    return (.swap, mapping, w)

end Groups

end InferenceServer.V0
