import InferenceServer.Basic
import InferenceServer.Lib.Outcome
import InferenceServer.Lib.Tabulate
import Mathlib.Data.Rat.Defs

/-!
# Rebalancing the experts

The load balancer for expert parallelism (`vllm/distributed/eplb/rebalance_algo.py`) decides which logical
expert each physical slot holds: groups of experts are packed onto nodes, experts are replicated within a
node, and the replicas are packed onto the GPUs of the node.

A tensor is the list of its rows. What the tensor library does with the loads, their arithmetic with its
rounding, the order in which equal loads are sorted, and which of equal loads is the greatest, is a
parameter.

## Main definitions

* `LoadOps`
* `balancedPacking`, `replicateExperts`, for one row
* `rebalanceExpertsHierarchical`, `rebalanceExperts`
-/

namespace InferenceServer.Distributed

open Outcome

/-- The operations on the loads of a layer. `argsort` is `sort(-1, descending=True).indices`, `argmax` is
`max(dim=-1).indices` of a row that is not empty. -/
structure LoadOps (W : Type) where
  zero : W
  add : W → W → W
  sum : List W → W
  div : W → Int → W
  lt : W → W → Bool
  argsort : List W → List Nat
  argsort_perm : ∀ l, (argsort l).Perm (List.range l.length)
  argmax : List W → Nat
  argmax_lt : ∀ l, l ≠ [] → argmax l < l.length

/-- `min(l, key=key)`: the first one of the least. -/
def minBy {W : Type} (lt : W → W → Bool) (key : Nat → W) : List Nat → Option Nat
  | [] => none
  | i :: is => some (is.foldl (fun best j => if lt (key j) (key best) then j else best) i)

theorem foldl_least_mem {W : Type} (lt : W → W → Bool) (key : Nat → W) (is : List Nat) (i : Nat) :
    is.foldl (fun best j => if lt (key j) (key best) then j else best) i ∈ i :: is := by
  induction is generalizing i with
  | nil => exact List.mem_singleton_self i
  | cons j is ih =>
    rw [List.foldl_cons]
    split_ifs
    · exact List.mem_cons_of_mem _ (ih j)
    · rcases List.mem_cons.mp (ih i) with h | h
      · exact List.mem_cons.mpr (.inl h)
      · exact List.mem_cons_of_mem _ (List.mem_cons_of_mem _ h)

theorem minBy_mem {W : Type} {lt : W → W → Bool} {key : Nat → W} {l : List Nat} {i : Nat}
    (h : minBy lt key l = some i) : i ∈ l := by
  cases l with
  | nil => exact nomatch h
  | cons j is =>
    cases h
    exact foldl_least_mem lt key is j

/-- Exact loads, with stable sorting. -/
def LoadOps.exact : LoadOps ℚ where
  zero := 0
  add := (· + ·)
  sum := List.sum
  div w n := w / n
  lt a b := decide (a < b)
  argsort l := (List.range l.length).mergeSort fun i j => decide (l.getD j 0 ≤ l.getD i 0)
  argsort_perm l := List.mergeSort_perm _ _
  argmax l := (minBy (fun a b : ℚ => decide (b < a)) (fun i => l.getD i 0)
    (List.range l.length)).getD 0
  argmax_lt l hl := by
    have hpos := List.length_pos_iff.mpr hl
    cases h : minBy (fun a b : ℚ => decide (b < a)) (fun i => l.getD i 0) (List.range l.length) with
    | none => exact hpos
    | some i => exact List.mem_range.mp (minBy_mem h)

section Algorithm

variable {W : Type} (L : LoadOps W)

/-- A position that is not one of the row. -/
def orIndexError {α : Type} : Option α → Except PyError α
  | some a => .ok a
  | none => .error .indexError

/-- `assert a % b == 0`, and then `a // b`. -/
def exactly (a b : Nat) (site : Site) : Except PyError Nat := do
  require (b ≠ 0) PyError.zeroDivisionError
  require (a % b = 0) (PyError.assertionError site)
  return a / b

/-! ## Packing -/

/-- The packs while the groups of a layer are packed, and the two results. -/
structure Packing (W : Type) where
  packWeights : List W
  packItems : List Nat
  packIndex : List Int
  rankInPack : List Int

/-- A group is put into the lightest pack that has room for it. -/
def packGroup (weight : List W) (numPacks groupsPerPack group : Nat) (s : Packing W) :
    Except PyError (Packing W) :=
  match minBy L.lt (fun i => s.packWeights.getD i L.zero)
    ((List.range numPacks).filter fun i => s.packItems.getD i 0 < groupsPerPack) with
  -- `min` of no arguments
  | none => .error .valueError
  | some pack => do
    let items := s.packItems.getD pack 0
    require (items < groupsPerPack) (PyError.assertionError .balancedPacking)
    return {
      packIndex := s.packIndex.set group (pack : Int)
      rankInPack := s.rankInPack.set group (items : Int)
      packWeights :=
        s.packWeights.set pack (L.add (s.packWeights.getD pack L.zero) (weight.getD group L.zero))
      packItems := s.packItems.set pack (items + 1) }

/-- `balanced_packing`, for a layer: the pack of each item, and its rank in the pack. -/
def balancedPacking (weight : List W) (numPacks : Nat) : Except PyError (List Int × List Int) := do
  let groupsPerPack ← exactly weight.length numPacks .balancedPacking
  if groupsPerPack = 1 then
    return ((List.range weight.length).map fun i : Nat => (i : Int),
      List.replicate weight.length 0)
  else do
    let s ← threadM (packGroup L weight numPacks groupsPerPack) (L.argsort weight)
      { packWeights := List.replicate numPacks L.zero
        packItems := List.replicate numPacks 0
        packIndex := List.replicate weight.length (-1)
        rankInPack := List.replicate weight.length (-1) }
    return (s.packIndex, s.rankInPack)

/-! ## Replication -/

/-- The results of `replicate_experts` for a row: `phy2log`, `rank`, `logcnt`. -/
structure Replicas where
  phy2log : List Int
  rank : List Int
  logcnt : List Int

/-- The slot `i` gets a replica of the expert with the greatest load for each of its replicas. -/
def replicateExpert (weight : List W) (i : Nat) (s : Replicas) : Except PyError Replicas := do
  let scaled := List.zipWith L.div weight s.logcnt
  require (scaled ≠ []) .indexError
  let redundant := L.argmax scaled
  let count := s.logcnt.getD redundant 0
  return {
    phy2log := s.phy2log.set i (redundant : Int)
    rank := s.rank.set i count
    logcnt := s.logcnt.set redundant (count + 1) }

/-- `replicate_experts`, for a row. -/
def replicateExperts (weight : List W) (numPhy : Nat) : Except PyError Replicas := do
  let numLog := weight.length
  require (numLog ≤ numPhy) (PyError.assertionError .replicateExperts)
  threadM (replicateExpert L weight) (List.range' numLog (numPhy - numLog))
    { phy2log := (List.range numPhy).map fun i : Nat => (i : Int)
      rank := List.replicate numPhy 0
      logcnt := List.replicate numLog 1 }

/-! ## The hierarchical policy -/

/-- `inverse`, for a row. The places of `empty_like` are all written. -/
def inverse (perm : List Int) : Except PyError (List Int) :=
  orIndexError (scatterAt (List.replicate perm.length 0) perm
    ((List.range perm.length).map fun i : Nat => (i : Int)))

/-- Step 3 for a node of a layer: the replicas are packed onto the GPUs. The logical expert of each slot
of the node, and the rank of its replica. -/
def packReplicas (gpusPerNode phyExpertsPerGpu : Nat) (tokensPerMlog : List W) (replicas : Replicas) :
    Except PyError (List Int × List Int) := do
  let tokensPerPhy ← orIndexError
    (gatherAt (List.zipWith L.div tokensPerMlog replicas.logcnt) replicas.phy2log)
  let (packIndex, rankInPack) ← balancedPacking L tokensPerPhy gpusPerNode
  let phy2pphy := List.zipWith (fun p r => p * (phyExpertsPerGpu : Int) + r) packIndex rankInPack
  let pphy2phy ← inverse phy2pphy
  let pphy2mlog ← orIndexError (gatherAt replicas.phy2log pphy2phy)
  let pphyrank ← orIndexError (gatherAt replicas.rank pphy2phy)
  return (pphy2mlog, pphyrank)

/-- Step 1 for a layer: the groups are packed onto the nodes. The number of each logical expert in the
order of the nodes. -/
def packGroups (numNodes groupsPerNode groupSize : Nat) (weight : List W) :
    Except PyError (List Int) := do
  let tokensPerGroup := (chunks groupSize weight).map L.sum
  let (packIndex, rankInPack) ← balancedPacking L tokensPerGroup numNodes
  let starts :=
    List.zipWith (fun p r => (p * groupsPerNode + r) * (groupSize : Int)) packIndex rankInPack
  return starts.flatMap fun start => (List.range groupSize).map fun j : Nat => start + (j : Int)

/-- `rebalance_experts_hierarchical`: `pphy2log`, `pphyrank` and `logcnt`, for each layer. -/
def rebalanceExpertsHierarchical (weight : List (List W))
    (numPhysicalExperts numGroups numNodes numGpus : Nat) :
    Except PyError (List (List Int) × List (List Int) × List (List Int)) := do
  let numLogicalExperts := (weight.headD []).length
  let groupSize ← exactly numLogicalExperts numGroups .rebalanceExpertsHierarchical
  let groupsPerNode ← exactly numGroups numNodes .rebalanceExpertsHierarchical
  let gpusPerNode ← exactly numGpus numNodes .rebalanceExpertsHierarchical
  let phyExpertsPerGpu ← exactly numPhysicalExperts numGpus .rebalanceExpertsHierarchical
  -- Step 1: pack groups to nodes
  let log2mlog ← weight.mapM (packGroups L numNodes groupsPerNode groupSize)
  let mlog2log ← log2mlog.mapM inverse
  -- Step 2: construct redundant experts within nodes, for the rows of the layers and nodes
  let gathered ← (weight.zip mlog2log).mapM fun e => orIndexError (gatherAt e.1 e.2)
  let expertsPerNode := numLogicalExperts / numNodes
  let tokensPerMlog := chunks expertsPerNode gathered.flatten
  let replicated ← tokensPerMlog.mapM fun w =>
    replicateExperts L w (numPhysicalExperts / numNodes)
  -- Step 3: pack physical experts to GPUs
  let packed ← (tokensPerMlog.zip replicated).mapM fun e =>
    packReplicas L gpusPerNode phyExpertsPerGpu e.1 e.2
  -- the rows of the nodes of a layer are put together; a view of no layers is ambiguous
  require (weight ≠ []) .runtimeError
  let pphy2mlog := (chunks numNodes (packed.map Prod.fst)).map fun rows =>
    rows.zipIdx.flatMap fun row => row.1.map fun m => m + ((row.2 * expertsPerNode : Nat) : Int)
  let pphy2log ← (mlog2log.zip pphy2mlog).mapM fun e => orIndexError (gatherAt e.1 e.2)
  let pphyrank := (chunks numNodes (packed.map Prod.snd)).map List.flatten
  let mlogcnt := (chunks numNodes (replicated.map (·.logcnt))).map List.flatten
  let logcnt ← (mlogcnt.zip log2mlog).mapM fun e => orIndexError (gatherAt e.1 e.2)
  return (pphy2log, pphyrank, logcnt)

/-! ## The entry point -/

/-- The slots of each logical expert of a layer, filled up with `-1`. -/
def slotsOf (numReplicas numLogicalExperts : Nat) (phy2log phyrank : List Int) :
    Except PyError (List (List Int)) := do
  let maxlogcnt := numReplicas - numLogicalExperts + 1
  let log2phy ← orIndexError (scatterAt (List.replicate (numLogicalExperts * maxlogcnt) (-1))
    (List.zipWith (fun e r => e * (maxlogcnt : Int) + r) phy2log phyrank)
    ((List.range numReplicas).map fun i : Nat => (i : Int)))
  return chunks maxlogcnt log2phy

/-- `rebalance_experts`: `phy2log`, `log2phy` and `logcnt`, for each layer. -/
def rebalanceExperts (weight : List (List W)) (numReplicas numGroups numNodes numGpus : Nat) :
    Except PyError (List (List Int) × List (List (List Int)) × List (List Int)) := do
  require (numNodes ≠ 0) .zeroDivisionError
  let policy :=
    if numGroups % numNodes = 0 then
      rebalanceExpertsHierarchical L weight numReplicas numGroups numNodes numGpus
    else
      -- the global policy
      rebalanceExpertsHierarchical L weight numReplicas 1 1 numGpus
  let (phy2log, phyrank, logcnt) ← policy
  let log2phy ← (phy2log.zip phyrank).mapM fun e =>
    slotsOf numReplicas (weight.headD []).length e.1 e.2
  return (phy2log, log2phy, logcnt)

end Algorithm

end InferenceServer.Distributed
