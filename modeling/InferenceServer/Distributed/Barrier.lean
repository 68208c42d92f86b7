import InferenceServer.Distributed.ProcessGroup
import Mathlib.Data.Finset.Card

/-!
# The barrier of a stateless process group

`StatelessProcessGroup.barrier` synchronises the ranks through the store
(`vllm/distributed/utils.py`). Rank 0 broadcasts an id; every rank sets a key that says that it has
arrived and polls the keys of all ranks; then it sets a key that says that it departs. Rank 0 polls
these keys as well, and deletes all keys of the barrier before it returns. The other ranks return as
soon as they have set theirs.

A step is a call of `barrier`, or one access of one rank to the store with what the rank computes
from it: a `set`, a `get` or a `delete_key`. The loops over the ranks turn once in a step. There are no
timeouts and no errors of the store but that of a missing key.
-/

namespace InferenceServer.Distributed

/-- The key that says that a rank has arrived. -/
def arrivalKey {n : Nat} (barrierId : String) (r : Fin n) : String :=
  "arrival_" ++ barrierId ++ "_" ++ toString r.val

/-- The key that says that a rank departs. -/
def departureKey {n : Nat} (barrierId : String) (r : Fin n) : String :=
  "departure_" ++ barrierId ++ "_" ++ toString r.val

/-- Where a rank is in `barrier`. -/
inductive BarrierPc (n : Nat) where
  /-- Between two calls. -/
  | idle
  | broadcastId
  | signalArrival (barrierId : String)
  /-- The loop over the ranks is at `i`. -/
  | pollArrivals (barrierId : String) (processesArrived : Finset (Fin n)) (i : Nat)
  | signalDeparture (barrierId : String)
  | pollDepartures (barrierId : String) (processesDeparted : Finset (Fin n)) (i : Nat)
  | deleteArrival (barrierId : String) (i : Nat)
  | deleteDeparture (barrierId : String) (i : Nat)
  deriving DecidableEq

/-- A rank that calls `barrier`. -/
structure BarrierRank (n : Nat) where
  group : StatelessProcessGroup n
  pc : BarrierPc n := .idle
  /-- How many ids the rank has generated. -/
  generated : Nat := 0
  /-- History: how many calls of `barrier` have been made. -/
  entered : Nat := 0
  /-- History: how many calls of `barrier` have returned. -/
  returned : Nat := 0

/-- The store and the ranks. -/
structure BarrierGroup (n : Nat) where
  store : Store String := fun _ => none
  ranks : Fin n → BarrierRank n
  /-- History: the keys that have been deleted. -/
  deleted : List String := []

/-- A rank calls `barrier`, or makes its next step in it. -/
inductive BarrierOp (n : Nat) where
  | barrier (r : Fin n)
  | step (r : Fin n)
  deriving DecidableEq, Repr

namespace BarrierRank

variable {n : Nat}

def goTo (p : BarrierRank n) (pc : BarrierPc n) : BarrierRank n := { p with pc }

/-- The call returns. -/
def returns (p : BarrierRank n) : BarrierRank n :=
  { p with pc := .idle, returned := p.returned + 1 }

end BarrierRank

namespace BarrierGroup

variable {n : Nat}

/-- The state of rank `r`. -/
def put (s : BarrierGroup n) (r : Fin n) (p : BarrierRank n) : BarrierGroup n :=
  { s with ranks := Function.update s.ranks r p }

/-- `store.set`. -/
def set (s : BarrierGroup n) (key value : String) : BarrierGroup n :=
  { s with store := Function.update s.store key (some value) }

/-- `store.delete_key`. -/
def deleteKey (s : BarrierGroup n) (key : String) : BarrierGroup n :=
  { s with store := Function.update s.store key none, deleted := s.deleted ++ [key] }

/-- One turn of a loop that polls the keys of the ranks; `processes` are those whose key was found.
A missing key is looked for again in the next round. -/
def poll (s : BarrierGroup n) (key : Fin n → String) (processes : Finset (Fin n)) (i : Fin n) :
    Finset (Fin n) :=
  if i ∈ processes then processes
  else
    match s.store (key i) with
    | some _ => insert i processes
    | none => processes

variable [NeZero n] (uuid : Nat → String)

/-- `f"barrier_{uuid.uuid4()}"`. -/
def barrierId (k : Nat) : String := "barrier_" ++ uuid k

/-- The next step of rank `r` in `barrier`. -/
def step (s : BarrierGroup n) (r : Fin n) : Except GroupError (BarrierGroup n) :=
  let p := s.ranks r
  match p.pc with
  | .idle => .error .finished
  | .broadcastId =>
    if r = 0 then do
      let id := barrierId uuid p.generated
      let (id, group, store) ← p.group.broadcastObj s.store id 0
      .ok ({ s with store }.put r
        { p with group, generated := p.generated + 1, pc := .signalArrival id })
    else do
      let (id, group, store) ← p.group.broadcastObj s.store "" 0
      .ok ({ s with store }.put r { p with group, pc := .signalArrival id })
  | .signalArrival id => .ok ((s.set (arrivalKey id r) "1").put r (p.goTo (.pollArrivals id ∅ 0)))
  | .pollArrivals id processesArrived i =>
    if h : i < n then
      .ok (s.put r (p.goTo (.pollArrivals id (s.poll (arrivalKey id) processesArrived ⟨i, h⟩) (i + 1))))
    else if processesArrived.card < n then .ok (s.put r (p.goTo (.pollArrivals id processesArrived 0)))
    else .ok (s.put r (p.goTo (.signalDeparture id)))
  | .signalDeparture id =>
    let s := s.set (departureKey id r) "1"
    if r ≠ 0 then .ok (s.put r p.returns)
    else .ok (s.put r (p.goTo (.pollDepartures id ∅ 0)))
  | .pollDepartures id processesDeparted i =>
    if h : i < n then
      .ok (s.put r
        (p.goTo (.pollDepartures id (s.poll (departureKey id) processesDeparted ⟨i, h⟩) (i + 1))))
    else if processesDeparted.card < n then
      .ok (s.put r (p.goTo (.pollDepartures id processesDeparted 0)))
    else .ok (s.put r (p.goTo (.deleteArrival id 0)))
  | .deleteArrival id i =>
    if h : i < n then
      .ok ((s.deleteKey (arrivalKey id (⟨i, h⟩ : Fin n))).put r (p.goTo (.deleteDeparture id i)))
    else .ok (s.put r p.returns)
  | .deleteDeparture id i =>
    if h : i < n then
      .ok ((s.deleteKey (departureKey id (⟨i, h⟩ : Fin n))).put r (p.goTo (.deleteArrival id (i + 1))))
    else .ok (s.put r p.returns)

/-- The step function. A rank calls `barrier` when its last call has returned. -/
def apply (s : BarrierGroup n) : BarrierOp n → Except GroupError (BarrierGroup n)
  | .barrier r =>
    match (s.ranks r).pc with
    | .idle =>
      .ok (s.put r { s.ranks r with pc := .broadcastId, entered := (s.ranks r).entered + 1 })
    | _ => .error .blocked
  | .step r => s.step uuid r

end BarrierGroup

/-- All interleavings of the calls of `barrier`; `uuid k` is the `k`-th id that rank 0 generates. -/
def barrierMachine (n : Nat) [NeZero n] (uuid : Nat → String) :
    Machine (BarrierGroup n) (BarrierOp n) GroupError where
  init := { ranks := fun r => { group := { rank := r } } }
  step := BarrierGroup.apply uuid

end InferenceServer.Distributed
