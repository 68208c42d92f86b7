import Mathlib.Data.List.Sort
import Mathlib.Data.Rat.Defs
import InferenceServer.Basic
import InferenceServer.Lib.Dict
import InferenceServer.Lib.Outcome

/-!
# Batch updates and the logits processors

The persistent batch of the worker keeps the requests of a step in consecutive rows. What a step does
to the rows is collected in a `BatchUpdateBuilder` (`vllm/v1/sample/logits_processor.py`), and at its
end the builtin logits processors replay it on what they store for each row.

The update is compressed. A row that is emptied and filled again in the same step is not among the
removed rows any more; a processor sees the new request only. The added requests come first, then the
rows that stay empty, then the moves.

Two of the processors keep a dictionary from rows to entries and treat the update alike, except for
what an added request puts into its row. This is `replay`, with what is put as a parameter. The third
one keeps an array, a counter, and a copy of a slice of the array on the device.

Numbers are taken as the tensors hold them.
-/

namespace InferenceServer.PersistentBatch

open Outcome

/-! ## Parameters -/

/-- `SamplingType`. -/
inductive SamplingType where
  | greedy
  | random
  | randomSeed
deriving DecidableEq, Repr

/-- The sampling parameters that the batch and the processors read. -/
structure SamplingParams where
  samplingType : SamplingType := .random
  temperature : Rat := 1
  topP : Rat := 1
  topK : Int := 0
  minP : Rat := 0
  frequencyPenalty : Rat := 0
  presencePenalty : Rat := 0
  repetitionPenalty : Rat := 1
  logprobs : Option Int := none
  promptLogprobs : Option Int := none
  allowedTokenIds : Option (List TokenId) := none
  badWordsTokenIds : Option (List (List TokenId)) := none
  /-- The items of the dictionary. -/
  logitBias : Option (List (TokenId × Rat)) := none
  minTokens : Nat := 0
  /-- The elements of the set. -/
  allStopTokenIds : List TokenId := []
deriving DecidableEq, Repr

/-- The pooling parameters that the batch reads. -/
structure PoolingParams where
  requiresTokenIds : Bool := false
deriving DecidableEq, Repr

/-- The parameters of a request in an update. -/
inductive Params where
  | sampling (params : SamplingParams)
  | pooling (params : PoolingParams)
deriving DecidableEq, Repr

/-- A list of output tokens, which grows: the batch and the processors hold references to it. -/
abbrev OutputRef := Nat

/-! ## The builder -/

/-- `MoveDirectionality`. -/
inductive MoveDirectionality where
  | unidirectional
  | swap
deriving DecidableEq, Repr

/-- `AddedRequest`. -/
structure AddedRequest where
  index : Nat
  params : Params
  outputTokenIds : OutputRef
deriving DecidableEq, Repr

/-- `MovedRequest`. -/
structure MovedRequest where
  src : Nat
  tgt : Nat
  direct : MoveDirectionality
deriving DecidableEq, Repr

/-- `BatchUpdate`. -/
structure BatchUpdate where
  batchSize : Nat
  removed : List Nat
  moved : List MovedRequest
  added : List AddedRequest
deriving DecidableEq, Repr

/-- `BatchUpdateBuilder`. -/
structure BatchUpdateBuilder where
  removed : List Nat := []
  isRemovedSorted : Bool := false
  moved : List MovedRequest := []
  added : List AddedRequest := []
deriving DecidableEq, Repr

namespace BatchUpdateBuilder

/-- `_ensure_removed_sorted`: in descending order. -/
def ensureRemovedSorted (b : BatchUpdateBuilder) : BatchUpdateBuilder :=
  if b.isRemovedSorted then b
  else { b with removed := b.removed.insertionSort (· ≥ ·), isRemovedSorted := true }

/-- `removed_append`. -/
def removedAppend (b : BatchUpdateBuilder) (index : Nat) : Except PyError BatchUpdateBuilder := do
  require (b.isRemovedSorted = false) .runtimeError
  return { b with removed := b.removed ++ [index] }

/-- `peek_removed`: the lowest removed row. -/
def peekRemoved (b : BatchUpdateBuilder) : Option Nat × BatchUpdateBuilder :=
  if b.removed = [] then (none, b)
  else (b.ensureRemovedSorted.removed.getLast?, b.ensureRemovedSorted)

/-- `pop_removed`. -/
def popRemoved (b : BatchUpdateBuilder) : Option Nat × BatchUpdateBuilder :=
  if b.removed = [] then (none, b)
  else (b.ensureRemovedSorted.removed.getLast?,
    { b.ensureRemovedSorted with removed := b.ensureRemovedSorted.removed.dropLast })

/-- `get_and_reset`. -/
def getAndReset (b : BatchUpdateBuilder) (batchSize : Nat) :
    Option BatchUpdate × BatchUpdateBuilder :=
  let b := { b with isRemovedSorted := false }
  if b.removed = [] ∧ b.moved = [] ∧ b.added = [] then (none, b)
  else (some { batchSize, removed := b.removed, moved := b.moved, added := b.added }, {})

end BatchUpdateBuilder

/-! ## Dictionaries with entries for rows -/

section Replay

variable {β : Type} (entry : AddedRequest → Option β) (truthy : β → Bool)

/-- An added request puts its entry into its row, or drops the entry that is there. The flag says
whether the tensors have to be made anew. -/
def addEntry (s : Dict Nat β × Bool) (x : AddedRequest) : Dict Nat β × Bool :=
  match entry x with
  | some e => (s.1.set x.index e, true)
  | none => (s.1.erase x.index, s.2 || (s.1.get? x.index).isSome)

/-- The entry of a removed row is dropped. -/
def removeEntry (s : Dict Nat β × Bool) (index : Nat) : Dict Nat β × Bool :=
  (s.1.erase index, s.2 || (s.1.get? index).any truthy)

/-- The entry of a moved row. -/
def moveEntry (s : Dict Nat β × Bool) (m : MovedRequest) : Dict Nat β × Bool :=
  match m.direct with
  | .unidirectional =>
    let entries := s.1.erase m.src
    match s.1.get? m.src with
    | none => (entries.erase m.tgt, s.2 || (entries.get? m.tgt).isSome)
    | some a => (entries.set m.tgt a, true)
  | .swap =>
    let entries := s.1.erase m.src
    let s₁ := match entries.get? m.tgt with
      | some b => ((entries.erase m.tgt).set m.src b, true)
      | none => (entries.erase m.tgt, s.2)
    match s.1.get? m.src with
    | some a => (s₁.1.set m.tgt a, true)
    | none => s₁

/-- What an update does to the entries. -/
def replay (entries : Dict Nat β) (u : BatchUpdate) : Dict Nat β × Bool :=
  let s := u.added.foldl (addEntry entry) (entries, false)
  if s.1.entries = [] then s
  else u.moved.foldl moveEntry (u.removed.foldl (removeEntry truthy) s)

end Replay

/-! ## Logit biases -/

/-- The bias of an added request. -/
def biasEntry (x : AddedRequest) : Option (List (TokenId × Rat)) :=
  match x.params with
  | .sampling params => params.logitBias.filter (· ≠ [])
  | .pooling _ => none

/-- `LogitBiasLogitsProcessor`. -/
structure LogitBiasLogitsProcessor where
  biases : Dict Nat (List (TokenId × Rat)) := ∅
  /-- `logits_slice` and `bias_tensor`: row, token and bias. -/
  tensors : List (Nat × TokenId × Rat) := []

/-- `update_state`. -/
def LogitBiasLogitsProcessor.updateState (p : LogitBiasLogitsProcessor) :
    Option BatchUpdate → LogitBiasLogitsProcessor
  | none => p
  | some u =>
    let (biases, needsUpdate) := replay biasEntry (· ≠ []) p.biases u
    { biases
      tensors :=
        if needsUpdate then biases.entries.flatMap fun x => x.2.map fun y => (x.1, y) else p.tensors }

/-- What `apply` adds to the logits of a row. -/
def LogitBiasLogitsProcessor.applied (p : LogitBiasLogitsProcessor) (row : Nat) :
    List (TokenId × Rat) :=
  if p.biases.entries = [] then []
  else (p.tensors.filter fun x => x.1 = row).map Prod.snd

/-! ## Minimal numbers of tokens -/

/-- An entry of `min_toks`. -/
structure MinToksEntry where
  minTokens : Nat
  outputTokenIds : OutputRef
  stopTokenIds : List TokenId
deriving DecidableEq, Repr

/-- The entry of an added request that has not yet its minimal number of tokens. -/
def minToksEntry (outputs : Dict OutputRef (List TokenId)) (x : AddedRequest) : Option MinToksEntry :=
  match x.params with
  | .sampling params =>
    if params.minTokens ≠ 0 ∧ (outputs.getD x.outputTokenIds []).length < params.minTokens then
      some { minTokens := params.minTokens, outputTokenIds := x.outputTokenIds
             stopTokenIds := params.allStopTokenIds }
    else none
  | .pooling _ => none

/-- `MinTokensLogitsProcessor`. -/
structure MinTokensLogitsProcessor where
  minToks : Dict Nat MinToksEntry := ∅
  /-- `logits_slice`: row and token. -/
  tensors : List (Nat × TokenId) := []

/-- The rows whose requests have their minimal number of tokens. -/
def attained (outputs : Dict OutputRef (List TokenId)) (minToks : Dict Nat MinToksEntry) : List Nat :=
  (minToks.entries.filter fun x =>
    x.2.minTokens ≤ (outputs.getD x.2.outputTokenIds []).length).map Prod.fst

/-- `update_state`. The output tokens are those at the time of the call. -/
def MinTokensLogitsProcessor.updateState (p : MinTokensLogitsProcessor)
    (outputs : Dict OutputRef (List TokenId)) (u : Option BatchUpdate) : MinTokensLogitsProcessor :=
  let (minToks, needsUpdate) := match u with
    | none => (p.minToks, false)
    | some u => replay (minToksEntry outputs) (fun _ => true) p.minToks u
  let toRemove := attained outputs minToks
  let minToks := toRemove.foldl Dict.erase minToks
  { minToks
    tensors :=
      if needsUpdate ∨ toRemove ≠ [] then
        minToks.entries.flatMap fun x => x.2.stopTokenIds.map fun y => (x.1, y)
      else p.tensors }

/-- The tokens that `apply` blocks in a row. -/
def MinTokensLogitsProcessor.applied (p : MinTokensLogitsProcessor) (row : Nat) : List TokenId :=
  if p.minToks.entries = [] then []
  else (p.tensors.filter fun x => x.1 = row).map Prod.snd

/-! ## Minimal probabilities -/

/-- The `min_p` of the parameters. -/
def Params.minP : Params → Rat
  | sampling params => params.minP
  | pooling _ => 0

/-- `MinPLogitsProcessor`, on a device other than the CPU. -/
structure MinPLogitsProcessor where
  minPCount : Int := 0
  minPCpu : Nat → Rat := fun _ => 0
  /-- The slice of the device tensor that is held. -/
  minP : List Rat := []

namespace MinPLogitsProcessor

/-- An added request. -/
def addMinP (s : MinPLogitsProcessor × Bool) (x : AddedRequest) : MinPLogitsProcessor × Bool :=
  let minP := x.params.minP
  let s :=
    if s.1.minPCpu x.index ≠ minP then
      ({ s.1 with minPCpu := Function.update s.1.minPCpu x.index minP }, true)
    else s
  if minP ≠ 0 then ({ s.1 with minPCount := s.1.minPCount + 1 }, s.2) else s

/-- A removed row. -/
def removeMinP (p : MinPLogitsProcessor) (index : Nat) : MinPLogitsProcessor :=
  if p.minPCpu index ≠ 0 then { p with minPCount := p.minPCount - 1 } else p

/-- The array after a move. -/
def moveCpu (cpu : Nat → Rat) (m : MovedRequest) : Nat → Rat :=
  let moved := Function.update cpu m.tgt (cpu m.src)
  match m.direct with
  | .unidirectional => moved
  | .swap => Function.update moved m.src (cpu m.tgt)

/-- A moved row. -/
def moveMinP (s : MinPLogitsProcessor × Bool) (m : MovedRequest) : MinPLogitsProcessor × Bool :=
  if s.1.minPCpu m.src ≠ s.1.minPCpu m.tgt then
    ({ s.1 with minPCpu := moveCpu s.1.minPCpu m }, true)
  else s

/-- What an update does before the tensors are updated. -/
def replayMinP (p : MinPLogitsProcessor) (u : BatchUpdate) : MinPLogitsProcessor × Bool :=
  let s := u.added.foldl addMinP (p, false)
  if s.1.minPCount ≠ 0 then
    u.moved.foldl moveMinP (u.removed.foldl removeMinP s.1, s.2 || !u.removed.isEmpty)
  else s

/-- `update_state`. -/
def updateState (p : MinPLogitsProcessor) : Option BatchUpdate → MinPLogitsProcessor
  | none => p
  | some u =>
    let (p, needsUpdate) := p.replayMinP u
    if p.minPCount ≠ 0 ∧ (needsUpdate ∨ p.minP.length ≠ u.batchSize) then
      { p with minP := (List.range u.batchSize).map p.minPCpu }
    else p

/-- The `min_p` that `apply` uses for a row. -/
def applied (p : MinPLogitsProcessor) (row : Nat) : Option Rat :=
  if p.minPCount = 0 then none else p.minP[row]?

end MinPLogitsProcessor

end InferenceServer.PersistentBatch
