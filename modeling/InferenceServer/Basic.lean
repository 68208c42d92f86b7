import Mathlib.Tactic

/-!
# Python values

What the modelled Python code takes from the language: the exceptions it raises, floor and
ceiling division, and the slices and subscripts of a list, where a negative index counts from
the end.

## Main results

* `cdiv_le_iff`: the ceiling is the least number of blocks that covers the tokens
* `pySlice_natCast`, `pyGet?_natCast`: indices that do not count from the end
-/

namespace InferenceServer

/-- The identifier of a request. -/
abbrev ReqId := Nat

/-- The identifier of a KV cache block: its index in `BlockPool.blocks`. -/
abbrev BlockId := Nat

/-- A token id. -/
abbrev TokenId := Nat

/-- The function whose `assert` failed. -/
inductive Site where
  | blockHashSetter
  | genMmExtraHashKeys
  | popleft
  | popleftN
  | appendN
  | cacheFullBlocks
  | getNewBlocks
  | saveNewComputedBlocks
  | allocateSlots
  | getComputedBlocks
  | allocateNewBlocks
  | findLongestCacheHit
  | verifyAndSplitKVCacheGroups
  | getNumCommonPrefixBlocks
  | schedule
  | scheduleLora
  | updateWaitingForRemoteKv
  | updateFromOutput
  | updateRequestWithOutput
  | checkStop
  | finishRequests
  | freeRequest
  | freeBlocks
  | gatherMmEmbeddings
  | fromNewRequest
  | newCompletionOutput
  | processOutputs
  | pageSizeBytes
  | merge
  | getUniformPageSize
  | unifyKvCacheConfigs
  | initializeKvCaches
  | getAndUpdateP1
  | mapExpertIndices
  | rearrangeExpertWeightsInplace
  | reduceFlatData
  | itemModality
  | decodeTensor
  | decodeNestedSlices
  | grammarBitmask
  | registerAddRequest
  | swapStates
  | condense
  | prepareInputs
  | splitDecodesAndPrefills
  | makeLocalAttentionVirtualBatches
  | getCumsumAndArange
  | calcSpecDecodeMetadata
  | balancedPacking
  | replicateExperts
  | rebalanceExpertsHierarchical
  | requestOutputAdd
  | findSubarrayKmp
  | rejectionSample
  | mlaMetadataBuilder
  | mlaBuild
  | ensureDivisibility
  | shardIndices
  | vocabParallelEmbedding
  | shardedToFullMapping
  | weightLoader
deriving DecidableEq, Repr

/-- An exception. -/
inductive PyError where
  | assertionError (site : Site)
  | valueError
  | runtimeError
  | keyError
  | indexError
  | typeError
  | attributeError
  | notImplementedError
  | zeroDivisionError
  | timeoutError
  /-- A sentinel of the free list is taken for a block. The source rules this out. -/
  | sentinel
  /-- A loop of the model has run out of fuel; no call of the source corresponds to it. -/
  | outOfFuel
deriving DecidableEq, Repr

/-! ## Division -/

/-- Ceiling division, `-(a // -b)`. -/
def cdiv (a b : Int) : Int := -(Int.fdiv a (-b))

theorem cdiv_le_iff {a b n : Int} (hb : 0 < b) : cdiv a b ≤ n ↔ a ≤ n * b := by
  have hdiv : Int.fdiv a (-b) = -a / b := by
    rw [← neg_neg a, Int.neg_fdiv_neg, neg_neg, Int.fdiv_eq_ediv_of_nonneg _ hb.le]
  rw [cdiv, hdiv, neg_le, Int.le_ediv_iff_mul_le hb, Int.neg_mul, neg_le_neg_iff]

theorem le_cdiv_mul {a b : Int} (hb : 0 < b) : a ≤ cdiv a b * b := (cdiv_le_iff hb).mp le_rfl

theorem cdiv_mono {a a' b : Int} (hb : 0 < b) (h : a ≤ a') : cdiv a b ≤ cdiv a' b :=
  (cdiv_le_iff hb).mpr (h.trans (le_cdiv_mul hb))

/-! ## Slices and subscripts -/

/-- The position an index of a slice stands for in a list of length `n`. -/
def sliceBound (n : Nat) (i : Int) : Nat :=
  if i < 0 then (i + n).toNat else min i.toNat n

/-- `l[start:stop]`. -/
def pySlice {α : Type} (l : List α) (start stop : Int) : List α :=
  (l.drop (sliceBound l.length start)).take
    (sliceBound l.length stop - sliceBound l.length start)

/-- `l[i]`, if the index is in range. -/
def pyGet? {α : Type} (l : List α) (i : Int) : Option α :=
  if i < 0 then (if 0 ≤ i + l.length then l[(i + l.length).toNat]? else none) else l[i.toNat]?

section Slices

variable {α : Type}

@[simp] theorem sliceBound_natCast (n i : Nat) : sliceBound n i = min i n := by
  simp [sliceBound]

theorem pySlice_natCast (l : List α) (i j : Nat) : pySlice l i j = (l.take j).drop i := by
  simp only [pySlice, sliceBound_natCast]
  rw [List.drop_take]
  rcases le_total i l.length with hi | hi
  · rcases le_total j l.length with hj | hj
    · rw [min_eq_left hi, min_eq_left hj]
    · rw [min_eq_left hi, min_eq_right hj, List.take_of_length_le (by simp),
        List.take_of_length_le (by simp; omega)]
  · rw [min_eq_right hi, List.drop_of_length_le le_rfl, List.drop_of_length_le hi]
    simp

@[simp] theorem pyGet?_natCast (l : List α) (i : Nat) : pyGet? l i = l[i]? := by
  simp [pyGet?]

end Slices

end InferenceServer
