import InferenceServer.Basic
import InferenceServer.Lib.Dict
import InferenceServer.Lib.Outcome
import Mathlib.Data.List.Sort

/-!
# Moving expert weights

How the ranks of an expert-parallel group exchange the weights of the experts of one layer
(`vllm/distributed/eplb/rebalance_execute.py`). An old and a new map say which expert each physical
slot holds, `-1` for none; the slots are numbered over all ranks. Each rank computes from the two maps
what it copies, sends and receives, and no rank tells another one.

The program of a rank is a list of actions: the copies from its weights into its buffer, the sends
and receives, which it waits for, and the copies from the buffer back into the weights. A send reads
the weights, a receive writes the buffer. All ranks run their programs at once; for each ordered pair
of ranks the sends are matched with the receives in the order in which they were posted.
-/

namespace InferenceServer.Distributed

open Outcome

/-! ## Indices -/

/-- `idx_local_to_global`. -/
def idxLocalToGlobal (localIdx localCnt epRank : Nat) : Nat := epRank * localCnt + localIdx

/-- `global_idx_to_rank`. -/
def globalIdxToRank (globalIdx localCnt : Nat) : Nat := globalIdx / localCnt

/-- One step of the two loops of `get_ep_ranks_with_expert`. -/
def addRank (idx : Int) (numLocalExperts : Nat) (ranks : List Nat) (e : Int × Nat) : List Nat :=
  if e.1 = idx then
    let rank := globalIdxToRank e.2 numLocalExperts
    if ranks.getLast? = some rank then ranks else ranks ++ [rank]
  else ranks

/-- The ranks that have the expert. -/
def ranksWithExpert (idx : Int) (numLocalExperts : Nat) (indices : List Int) : List Nat :=
  indices.zipIdx.foldl (addRank idx numLocalExperts) []

/-- `get_ep_ranks_with_expert`. -/
def getEpRanksWithExpert (idx : Int) (numLocalExperts : Nat) (oldIndices newIndices : List Int) :
    List Nat × List Nat :=
  let ranksToSend := ranksWithExpert idx numLocalExperts oldIndices
  let ranksToRecv := ranksWithExpert idx numLocalExperts newIndices
  (ranksToSend, ranksToRecv.filter fun rank => rank ∉ ranksToSend)

/-- The ranks that the sender in position `senderPos` sends to: its block of the receivers, and one
of the remaining ones. -/
def recvBlock (numSenders : Nat) (ranksToRecv : List Nat) (senderPos : Nat) : List Nat :=
  let numDstPerSender := ranksToRecv.length / numSenders
  let recvRanks := (ranksToRecv.drop (senderPos * numDstPerSender)).take numDstPerSender
  let recverPos := numSenders * numDstPerSender + senderPos
  match ranksToRecv[recverPos]? with
  | some rank => recvRanks ++ [rank]
  | none => recvRanks

/-- The position of the sender for the receiver in position `recverPos`. -/
def srcPos (numSenders numReceivers recverPos : Nat) : Nat :=
  let numDstPerSender := numReceivers / numSenders
  let remainderStart := numSenders * numDstPerSender
  if recverPos < remainderStart then recverPos / numDstPerSender else recverPos - remainderStart

/-- The ranks that rank `epRank` sends an expert to. -/
def recvRanksOf (ranksToSend ranksToRecv : List Nat) (epRank : Nat) : Except PyError (List Nat) :=
  if ranksToSend = [] then .error .zeroDivisionError
  else
    match ranksToSend.idxOf? epRank with
    | none => .error .valueError
    | some senderPos => .ok (recvBlock ranksToSend.length ranksToRecv senderPos)

/-- The rank that rank `epRank` receives an expert from. -/
def srcRankOf (ranksToSend ranksToRecv : List Nat) (epRank : Nat) : Except PyError Nat :=
  if ranksToSend = [] then .error .zeroDivisionError
  else
    match ranksToRecv.idxOf? epRank with
    | none => .error .valueError
    | some recverPos =>
      match ranksToSend[srcPos ranksToSend.length ranksToRecv.length recverPos]? with
      | none => .error .indexError
      | some src => .ok src

/-! ## The program of a rank -/

/-- A point-to-point operation on weight number `k` of a slot. -/
inductive P2POp where
  /-- Send from the weights. -/
  | isend (k src dstRank : Nat)
  /-- Receive into the buffer. -/
  | irecv (k dst srcRank : Nat)
  deriving DecidableEq, Repr

/-- What a rank does. -/
structure RankProgram where
  /-- The slots copied into the buffer, with their place there. -/
  localCopies : List (Nat × Nat)
  p2pOps : List P2POp
  /-- The slots written, each with the place in the buffer. -/
  copyBacks : List (Nat × Nat)
  deriving DecidableEq, Repr

section

variable (numLocalExperts epRank numWeights : Nat) (oldIndices newIndices : List Int)

/-- The expert of a local slot. -/
def expertAt (indices : List Int) (i : Nat) : Int :=
  indices.getD (idxLocalToGlobal i numLocalExperts epRank) (-1)

def isUnchanged (i : Nat) : Bool :=
  expertAt numLocalExperts epRank oldIndices i = expertAt numLocalExperts epRank newIndices i

/-- One round of the loops that copy inside the rank. -/
def copyLocally (st : (Nat → Bool) × List (Nat × Nat)) (p : Nat × Nat) :
    (Nat → Bool) × List (Nat × Nat) :=
  let (isReceivedLocally, copies) := st
  let (src, dst) := p
  let old := expertAt numLocalExperts epRank oldIndices src
  let new := expertAt numLocalExperts epRank newIndices dst
  if isReceivedLocally dst then st
  else if old = -1 ∨ new = -1 then st
  else if old = new then (Function.update isReceivedLocally dst true, copies ++ [(src, dst)])
  else st

/-- The pairs of a source and a destination, in the order of the loops. -/
def localPairs : List (Nat × Nat) :=
  (List.range numLocalExperts).flatMap fun src => (List.range numLocalExperts).map fun dst => (src, dst)

/-- Step 1: which slots are received locally, and the copies. -/
def receiveLocally : (Nat → Bool) × List (Nat × Nat) :=
  (localPairs numLocalExperts).foldl (copyLocally numLocalExperts epRank oldIndices newIndices)
    (isUnchanged numLocalExperts epRank oldIndices newIndices, [])

/-- The first slot of each expert, among those that are not skipped. -/
def firstLocs (skip : Nat → Bool) (indices : List Int) : Dict Int Nat :=
  (List.range numLocalExperts).foldl
    (fun locs i =>
      let expert := expertAt numLocalExperts epRank indices i
      if skip i ∨ expert = -1 ∨ expert ∈ locs then locs else locs.set expert i) ∅

/-- `experts_send_loc`. -/
def expertsSendLoc : Dict Int Nat :=
  firstLocs numLocalExperts epRank (fun _ => false) oldIndices

/-- `experts_recv_loc`. -/
def expertsRecvLoc : Dict Int Nat :=
  firstLocs numLocalExperts epRank
    (receiveLocally numLocalExperts epRank oldIndices newIndices).1 newIndices

/-- `sorted(locs.items())`; the experts are distinct. -/
def sortedItems (locs : Dict Int Nat) : List (Int × Nat) :=
  locs.entries.insertionSort fun a b => a.1 ≤ b.1

/-- Step 2, for one expert. -/
def sendExpert (e : Int × Nat) : Except PyError (List P2POp) := do
  let (ranksToSend, ranksToRecv) := getEpRanksWithExpert e.1 numLocalExperts oldIndices newIndices
  let recvRanks ← recvRanksOf ranksToSend ranksToRecv epRank
  return recvRanks.flatMap fun dst => (List.range numWeights).map fun k => .isend k e.2 dst

/-- Step 3, for one expert. -/
def recvExpert (e : Int × Nat) : Except PyError (List P2POp) := do
  let (ranksToSend, ranksToRecv) := getEpRanksWithExpert e.1 numLocalExperts oldIndices newIndices
  let src ← srcRankOf ranksToSend ranksToRecv epRank
  return (List.range numWeights).map fun k => .irecv k e.2 src

/-- Step 5, for one slot: the place in the buffer it is copied from. -/
def copyBackOf (dst : Nat) : Except PyError (Option (Nat × Nat)) :=
  if isUnchanged numLocalExperts epRank oldIndices newIndices dst then .ok none
  else if (receiveLocally numLocalExperts epRank oldIndices newIndices).1 dst then .ok (some (dst, dst))
  else
    let expert := expertAt numLocalExperts epRank newIndices dst
    if expert = -1 then .ok none
    else
      match (expertsRecvLoc numLocalExperts epRank oldIndices newIndices).get? expert with
      | none => .error .keyError
      | some src => .ok (some (dst, src))

/-- `shuffle_layer`, the program of rank `epRank`. -/
def shuffleLayer : Except PyError RankProgram := do
  let sends ← (sortedItems (expertsSendLoc numLocalExperts epRank oldIndices)).mapM
    (sendExpert numLocalExperts epRank numWeights oldIndices newIndices)
  let recvs ← (sortedItems (expertsRecvLoc numLocalExperts epRank oldIndices newIndices)).mapM
    (recvExpert numLocalExperts epRank numWeights oldIndices newIndices)
  let copyBacks ← (List.range numLocalExperts).mapM
    (copyBackOf numLocalExperts epRank oldIndices newIndices)
  return {
    localCopies := (receiveLocally numLocalExperts epRank oldIndices newIndices).2
    p2pOps := sends.flatten ++ recvs.flatten
    copyBacks := copyBacks.filterMap id }

end

/-- An action of a rank. -/
inductive RankAction where
  | copyToBuffer (src dst : Nat)
  | p2p (op : P2POp)
  | copyBack (dst src : Nat)
  deriving DecidableEq, Repr

/-- The slot of the weights that an action reads. -/
def RankAction.reads : RankAction → Option Nat
  | copyToBuffer src _ => some src
  | p2p (.isend _ src _) => some src
  | p2p (.irecv ..) | copyBack .. => none

/-- The slot of the weights that an action writes. -/
def RankAction.writes : RankAction → Option Nat
  | copyBack dst _ => some dst
  | copyToBuffer .. | p2p _ => none

/-- The actions in their order. The sends and receives have completed before the first copy back. -/
def RankProgram.actions (p : RankProgram) : List RankAction :=
  p.localCopies.map (fun c => .copyToBuffer c.1 c.2) ++ p.p2pOps.map .p2p ++
    p.copyBacks.map fun c => .copyBack c.1 c.2

/-! ## The joint effect -/

/-- The sends to a rank: the number of the weight, and the slot. -/
def sendsTo (rank : Nat) (ops : List P2POp) : List (Nat × Nat) :=
  ops.filterMap fun
    | .isend k src dstRank => if dstRank = rank then some (k, src) else none
    | .irecv .. => none

/-- The receives from a rank. -/
def recvsFrom (rank : Nat) (ops : List P2POp) : List (Nat × Nat) :=
  ops.filterMap fun
    | .isend .. => none
    | .irecv k dst srcRank => if srcRank = rank then some (k, dst) else none

/-- The tensors of a rank, by the number of the weight and the slot. -/
abbrev Tensors (ω : Type) := Nat × Nat → ω

/-- Writes, one after the other. -/
def writeAll {ω : Type} (m : Tensors ω) (writes : List ((Nat × Nat) × ω)) : Tensors ω :=
  writes.foldl (fun m w => Function.update m w.1 w.2) m

/-- Copies of all the weights of a slot, as writes: the destination and what is read. -/
def copyWrites {ω : Type} (numWeights : Nat) (m : Tensors ω) (copies : List (Nat × Nat)) :
    List ((Nat × Nat) × ω) :=
  copies.flatMap fun c => (List.range numWeights).map fun k => ((k, c.2), m (k, c.1))

/-- What a rank receives from the ranks of the group, as writes: every receive with the send that it
is matched with. -/
def exchangeWrites {ω : Type} (epSize : Nat) (programs : Nat → RankProgram)
    (weights : Nat → Tensors ω) (rank : Nat) : List ((Nat × Nat) × ω) :=
  (List.range epSize).flatMap fun srcRank =>
    ((recvsFrom srcRank (programs rank).p2pOps).zip
      (sendsTo rank (programs srcRank).p2pOps)).map fun e => (e.1, weights srcRank e.2)

/-- The weights of the ranks after they have run their programs. -/
def runShuffle {ω : Type} (epSize numWeights : Nat) (programs : Nat → RankProgram)
    (weights buffers : Nat → Tensors ω) (rank : Nat) : Tensors ω :=
  let buffer := writeAll (buffers rank)
    (copyWrites numWeights (weights rank) (programs rank).localCopies)
  let buffer := writeAll buffer (exchangeWrites epSize programs weights rank)
  writeAll (weights rank)
    (copyWrites numWeights buffer ((programs rank).copyBacks.map fun c => (c.2, c.1)))

/-! ## Adding and removing ranks -/

/-- A rank mapping: the new rank of each old one, `-1` if it is removed. -/
abbrev RankMapping := Dict Nat Int

/-- The mapping of `_eplb_after_scale_up`. -/
def scaleUpRankMapping (oldEpSize : Nat) : RankMapping :=
  (List.range oldEpSize).foldl (fun m rank => m.set rank rank) ∅

/-- The mapping of `_eplb_before_scale_down`. -/
def scaleDownRankMapping (oldEpSize newEpSize : Nat) : RankMapping :=
  (List.range oldEpSize).foldl (fun m rank => m.set rank (if rank < newEpSize then rank else -1)) ∅

/-- `mapped[start:end] = block`. -/
def setSlice (mapped block : List Int) (start stop : Nat) : List Int :=
  mapped.take start ++ block ++ mapped.drop stop

/-- One round of `_map_old_expert_indices_with_rank_mapping`: a rank that is still there takes its
experts along. -/
def mapOldRank (rankMapping : RankMapping) (newEpSize numLocal : Nat) (oldIndices : List Int)
    (mapped : List Int) (oldRank : Nat) : List Int :=
  match rankMapping.get? oldRank with
  | some newRank =>
    if 0 ≤ newRank ∧ newRank < newEpSize then
      setSlice mapped ((oldIndices.drop (oldRank * numLocal)).take numLocal)
        (newRank.toNat * numLocal) ((newRank.toNat + 1) * numLocal)
    else mapped
  | none => mapped

/-- `_map_old_expert_indices_with_rank_mapping`, for one layer. -/
def mapOldExpertIndices (oldIndices : List Int) (rankMapping : RankMapping) (newEpSize : Nat) :
    Except PyError (List Int) := do
  require (rankMapping.entries ≠ []) (PyError.assertionError .mapExpertIndices)
  let oldEpSize := rankMapping.entries.length
  let numLocal := oldIndices.length / oldEpSize
  return (List.range oldEpSize).foldl (mapOldRank rankMapping newEpSize numLocal oldIndices)
    (List.replicate (newEpSize * numLocal) (-1))

/-- One round of `_map_new_expert_indices_with_rank_mapping`. -/
def mapNewRank (rankMapping : RankMapping) (newEpSize numLocal : Nat) (newIndices : List Int)
    (mapped : List Int) (oldRank : Nat) : Except PyError (List Int) :=
  match rankMapping.get? oldRank with
  | none => .error .keyError
  | some newRank =>
    if 0 ≤ newRank ∧ newRank < newEpSize then
      .ok (setSlice mapped ((newIndices.drop (newRank.toNat * numLocal)).take numLocal)
        (oldRank * numLocal) ((oldRank + 1) * numLocal))
    else .ok mapped

/-- `_map_new_expert_indices_with_rank_mapping`, for one layer. -/
def mapNewExpertIndices (newIndices : List Int) (rankMapping : RankMapping) :
    Except PyError (List Int) := do
  require (rankMapping.entries ≠ []) (PyError.assertionError .mapExpertIndices)
  let oldEpSize := rankMapping.entries.length
  let newEpSize := (rankMapping.entries.filter fun e => e.2 ≠ -1).length
  let numLocal := newIndices.length / newEpSize
  (List.range oldEpSize).foldlM (mapNewRank rankMapping newEpSize numLocal newIndices)
    (List.replicate (oldEpSize * numLocal) (-1))

/-- The maps in the numbering of the group that runs `shuffle_layer`: the new one is mapped if ranks
are removed, and the old one if ranks were added. -/
def mapIndices (epSize : Nat) (rankMapping : Option RankMapping) (oldIndices newIndices : List Int) :
    Except PyError (List Int × List Int) :=
  match rankMapping with
  | none => .ok (oldIndices, newIndices)
  | some rankMapping =>
    if rankMapping.entries.length = epSize then do
      let newIndices ← mapNewExpertIndices newIndices rankMapping
      return (oldIndices, newIndices)
    else do
      let oldIndices ← mapOldExpertIndices oldIndices rankMapping epSize
      return (oldIndices, newIndices)

/-- `rearrange_expert_weights_inplace`, the program of a rank for one layer. -/
def rearrangeExpertWeights (epSize numLocalExperts epRank numWeights : Nat)
    (rankMapping : Option RankMapping) (oldIndices newIndices : List Int) :
    Except PyError RankProgram := do
  let (oldIndices, newIndices) ← mapIndices epSize rankMapping oldIndices newIndices
  require (oldIndices.length = newIndices.length ∧ oldIndices.length = epSize * numLocalExperts)
    (PyError.assertionError .rearrangeExpertWeightsInplace)
  shuffleLayer numLocalExperts epRank numWeights oldIndices newIndices

end InferenceServer.Distributed
