import InferenceServer.Lib.Delimited
import InferenceServer.Lib.Run

/-!
# Messages of a stateless process group

A `StatelessProcessGroup` exchanges objects through one store that all its ranks access
(`vllm/distributed/utils.py`). A message is an entry of the store under a key that sender and
receiver compute for themselves, from counters that each rank keeps: how many objects it has sent to
a rank, received from a rank, broadcast, and received as broadcasts from a rank. `all_gather_obj` is
one broadcast for each rank, in the order of the ranks.

A step is one access of one rank to the store: `set` overwrites an entry, `get` waits for it. Every
call but `all_gather_obj` has exactly one. Entries do not expire, so that the queue of the entries
and their times is left out; an object stands for its pickle.
-/

namespace InferenceServer.Distributed

/-- The store; `none` where there is no entry. -/
abbrev Store (α : Type) := String → Option α

/-- The key of the `k`-th object sent to `dst`. -/
def sendKey {n : Nat} (dst : Fin n) (k : Nat) : String :=
  "send_to/" ++ toString dst.val ++ "/" ++ toString k

/-- The key of the `k`-th object that `src` broadcasts. -/
def broadcastKey {n : Nat} (src : Fin n) (k : Nat) : String :=
  "broadcast_from/" ++ toString src.val ++ "/" ++ toString k

/-- Why a step is not possible. -/
inductive GroupError where
  /-- `get` waits for an entry. -/
  | blocked
  /-- The rank has no call to make. -/
  | finished
  deriving DecidableEq, Repr

/-- The counters of one rank of a group of `n` ranks. -/
structure StatelessProcessGroup (n : Nat) where
  rank : Fin n
  sendDstCounter : Fin n → Nat := fun _ => 0
  recvSrcCounter : Fin n → Nat := fun _ => 0
  broadcastSendCounter : Nat := 0
  broadcastRecvSrcCounter : Fin n → Nat := fun _ => 0

namespace StatelessProcessGroup

variable {n : Nat} {α : Type}

/-- `send_obj`: the key names the destination and the number, and not the source. -/
def sendObj (g : StatelessProcessGroup n) (store : Store α) (obj : α) (dst : Fin n) :
    StatelessProcessGroup n × Store α :=
  let k := g.sendDstCounter dst
  ({ g with sendDstCounter := Function.update g.sendDstCounter dst (k + 1) },
    Function.update store (sendKey dst k) (some obj))

/-- `recv_obj`. -/
def recvObj (g : StatelessProcessGroup n) (store : Store α) (src : Fin n) :
    Except GroupError (α × StatelessProcessGroup n) :=
  let k := g.recvSrcCounter src
  match store (sendKey g.rank k) with
  | none => .error .blocked
  | some obj =>
    .ok (obj, { g with recvSrcCounter := Function.update g.recvSrcCounter src (k + 1) })

/-- `broadcast_obj`: the source sets an entry and returns its object, and any other rank returns
the object of the entry. -/
def broadcastObj (g : StatelessProcessGroup n) (store : Store α) (obj : α) (src : Fin n) :
    Except GroupError (α × StatelessProcessGroup n × Store α) :=
  if g.rank = src then
    let k := g.broadcastSendCounter
    .ok (obj, { g with broadcastSendCounter := k + 1 },
      Function.update store (broadcastKey src k) (some obj))
  else
    let k := g.broadcastRecvSrcCounter src
    match store (broadcastKey src k) with
    | none => .error .blocked
    | some received =>
      .ok (received,
        { g with
          broadcastRecvSrcCounter := Function.update g.broadcastRecvSrcCounter src (k + 1) },
        store)

end StatelessProcessGroup

/-- The calls of a program. -/
inductive GroupCall (n : Nat) (α : Type) where
  | sendObj (obj : α) (dst : Fin n)
  | recvObj (src : Fin n)
  /-- `obj` is only used by the source. -/
  | broadcastObj (obj : α) (src : Fin n)
  | allGatherObj (obj : α)
  deriving DecidableEq, Repr

/-- A rank and its program. -/
structure Rank (n : Nat) (α : Type) where
  group : StatelessProcessGroup n
  /-- The calls to make; the first one may be in progress. -/
  calls : List (GroupCall n α)
  /-- `gathered_objs` of the `all_gather_obj` in progress. -/
  gatheredObjs : List α := []
  /-- History: the calls that have returned. -/
  made : List (GroupCall n α) := []
  /-- History: what `recv_obj` has returned, for each source. -/
  received : Fin n → List α := fun _ => []
  /-- History: what `broadcast_obj` has returned, for each source. -/
  heard : Fin n → List α := fun _ => []
  /-- History: what `all_gather_obj` has returned. -/
  gathered : List (List α) := []

/-- The store and the ranks. -/
structure Group (n : Nat) (α : Type) where
  store : Store α := fun _ => none
  ranks : Fin n → Rank n α

namespace Rank

variable {n : Nat} {α : Type}

/-- A broadcast returns. -/
def hear (p : Rank n α) (src : Fin n) (obj : α) : Rank n α :=
  { p with heard := Function.update p.heard src (p.heard src ++ [obj]) }

/-- The call in progress returns. -/
def returns (p : Rank n α) : Rank n α :=
  { p with calls := p.calls.tail, made := p.made ++ p.calls.take 1 }

/-- The loop of `all_gather_obj` has gathered one more object; it returns after the last one. -/
def gather (p : Rank n α) (obj : α) : Rank n α :=
  let objs := p.gatheredObjs ++ [obj]
  if objs.length = n then
    { p.returns with gatheredObjs := [], gathered := p.gathered ++ [objs] }
  else { p with gatheredObjs := objs }

end Rank

namespace Group

variable {n : Nat} {α : Type}

/-- The state of rank `r` and the store. -/
def put (s : Group n α) (r : Fin n) (p : Rank n α) (store : Store α) : Group n α where
  store := store
  ranks := Function.update s.ranks r p

/-- The next access of rank `r` to the store. -/
def step (s : Group n α) (r : Fin n) : Except GroupError (Group n α) :=
  let p := s.ranks r
  match p.calls with
  | [] => .error .finished
  | .sendObj obj dst :: _ =>
    let (group, store) := p.group.sendObj s.store obj dst
    .ok (s.put r { p with group }.returns store)
  | .recvObj src :: _ => do
    let (obj, group) ← p.group.recvObj s.store src
    .ok (s.put r { p with
      group, received := Function.update p.received src (p.received src ++ [obj]) }.returns s.store)
  | .broadcastObj obj src :: _ => do
    let (obj, group, store) ← p.group.broadcastObj s.store obj src
    .ok (s.put r ({ p with group }.hear src obj).returns store)
  | .allGatherObj obj :: _ =>
    -- the loop is at the rank whose object comes next
    if h : p.gatheredObjs.length < n then do
      let src : Fin n := ⟨p.gatheredObjs.length, h⟩
      let (obj, group, store) ← p.group.broadcastObj s.store obj src
      .ok (s.put r (({ p with group }.hear src obj).gather obj) store)
    else .error .finished

end Group

/-- All interleavings of the programs of the ranks. A step is a rank. -/
def groupMachine {n : Nat} {α : Type} (programs : Fin n → List (GroupCall n α)) :
    Machine (Group n α) (Fin n) GroupError where
  init := { ranks := fun r => { group := { rank := r }, calls := programs r } }
  step := Group.step

end InferenceServer.Distributed
