import InferenceServer.Lib.Heapq
import InferenceServer.Request

/-!
# The request queues

The queues of requests that wait for admission (`vllm/v1/core/sched/request_queue.py`): a deque in
order of arrival, or a heap ordered by priority and arrival time.

A queue holds references to request objects. Of an object, the priority queue reads the priority
and the arrival time, which never change; a queue element is therefore the identifier with these
two fields. Heap entries that agree on both fields are compared as request objects, which have no
order: the comparison raises a `TypeError`.
-/

namespace InferenceServer

open Outcome

/-- The scheduling policy. -/
inductive SchedulingPolicy where
  | fcfs
  | priority
deriving DecidableEq, Repr

/-- A request in a queue. -/
structure QueueEntry where
  priority : Int
  arrivalTime : Int
  requestId : ReqId
deriving DecidableEq, Repr

/-- The request as a queue sees it. -/
def Request.queueEntry (r : Request) : QueueEntry :=
  { priority := r.priority, arrivalTime := r.arrivalTime, requestId := r.requestId }

/-- The comparison of the tuples `(priority, arrival_time, request)`. -/
def QueueEntry.lt (a b : QueueEntry) : Except PyError Bool :=
  if a.priority ≠ b.priority then .ok (a.priority < b.priority)
  else if a.arrivalTime ≠ b.arrivalTime then .ok (a.arrivalTime < b.arrivalTime)
  else if a.requestId ≠ b.requestId then .error .typeError
  else .ok false

/-- `FCFSRequestQueue` or `PriorityRequestQueue`. -/
inductive RequestQueue where
  | fcfs (deque : List QueueEntry)
  | priority (heap : List QueueEntry)
deriving DecidableEq, Repr

/-- `create_request_queue`. -/
def createRequestQueue : SchedulingPolicy → RequestQueue
  | .priority => .priority []
  | .fcfs => .fcfs []

namespace RequestQueue

/-- The stored elements. -/
def entries : RequestQueue → List QueueEntry
  | fcfs l => l
  | priority l => l

/-- The stored requests. -/
def ids (q : RequestQueue) : List ReqId := q.entries.map QueueEntry.requestId

/-- The policy of a queue. -/
def policy : RequestQueue → SchedulingPolicy
  | fcfs _ => .fcfs
  | priority _ => .priority

/-- `__len__`. -/
def length (q : RequestQueue) : Nat := q.entries.length

/-- `add_request`. -/
def addRequest (q : RequestQueue) (e : QueueEntry) : Except PyError RequestQueue :=
  match q with
  | fcfs l => .ok (fcfs (l ++ [e]))
  | priority l => do
    let h ← Heapq.heappush QueueEntry.lt l e
    return priority h

/-- `pop_request`. -/
def popRequest (q : RequestQueue) : Except PyError (QueueEntry × RequestQueue) :=
  match q with
  | fcfs [] => .error .indexError
  | fcfs (e :: l) => .ok (e, fcfs l)
  | priority l => do
    match ← Heapq.heappop QueueEntry.lt l with
    | none => .error .indexError
    | some (e, h) => return (e, priority h)

/-- `peek_request`. -/
def peekRequest (q : RequestQueue) : Except PyError QueueEntry :=
  match q.entries with
  | [] => .error .indexError
  | e :: _ => .ok e

/-- `prepend_request`; a priority queue has no front to prepend to. -/
def prependRequest (q : RequestQueue) (e : QueueEntry) : Except PyError RequestQueue :=
  match q with
  | fcfs l => .ok (fcfs (e :: l))
  | priority l => (priority l).addRequest e

/-- `__iter__`: a priority queue pops from a copy of its heap. -/
def iter (q : RequestQueue) : Except PyError (List QueueEntry) :=
  match q with
  | fcfs l => .ok l
  | priority l => Heapq.drain QueueEntry.lt l

/-- `prepend_requests`. A deque is extended on the left by the reversed queue, so that the
queue's own order is kept in front of it. -/
def prependRequests (q other : RequestQueue) : Except PyError RequestQueue := do
  let es ← other.iter
  match q with
  | fcfs l => return fcfs (es ++ l)
  | priority l => threadM (fun e q => q.addRequest e) es (priority l)

/-- `remove_request`. A deque raises if the request is not there. -/
def removeRequest (q : RequestQueue) (request : ReqId) : Except PyError RequestQueue :=
  match q with
  | fcfs l =>
    if request ∈ l.map QueueEntry.requestId then
      .ok (fcfs (l.eraseP fun e => e.requestId = request))
    else .error .valueError
  | priority l => do
    let h ← Heapq.heapify QueueEntry.lt (l.filter fun e => e.requestId ≠ request)
    return priority h

/-- `remove_requests`. -/
def removeRequests (q : RequestQueue) (requests : List ReqId) : Except PyError RequestQueue :=
  match q with
  | fcfs l => .ok (fcfs (l.filter fun e => e.requestId ∉ requests))
  | priority l => do
    let h ← Heapq.heapify QueueEntry.lt (l.filter fun e => e.requestId ∉ requests)
    return priority h

/-! ## What the operations do to the contents -/

variable {q q' other : RequestQueue} {e e' : QueueEntry}

@[simp] theorem ids_create (policy : SchedulingPolicy) : (createRequestQueue policy).ids = [] := by
  cases policy <;> rfl

theorem addRequest_perm (h : q.addRequest e = .ok q') :
    q'.entries.Perm (e :: q.entries) := by
  cases q with
  | fcfs l =>
    obtain rfl : fcfs (l ++ [e]) = q' := by simpa [addRequest] using h
    exact List.perm_append_singleton e l
  | priority l =>
    obtain ⟨h', hp, h⟩ := bind_eq_ok.mp h
    obtain rfl : priority h' = q' := pure_eq_ok.mp h
    exact Heapq.heappush_perm _ hp

theorem prependRequest_perm (h : q.prependRequest e = .ok q') :
    q'.entries.Perm (e :: q.entries) := by
  cases q with
  | fcfs l =>
    obtain rfl : fcfs (e :: l) = q' := by simpa [prependRequest] using h
    exact List.Perm.refl _
  | priority l => exact addRequest_perm h

/-- The popped request is the one that `peek_request` shows. -/
theorem popRequest_ok (h : q.popRequest = .ok (e, q')) :
    q.peekRequest = .ok e ∧ q.entries.Perm (e :: q'.entries) := by
  match q, h with
  | fcfs [], h => simp [popRequest] at h
  | fcfs (a :: l), h =>
    obtain ⟨rfl, rfl⟩ : a = e ∧ fcfs l = q' := by simpa [popRequest] using h
    exact ⟨rfl, List.Perm.refl _⟩
  | priority l, h =>
    obtain ⟨popped, hp, h⟩ := bind_eq_ok.mp h
    cases popped with
    | none => simp at h
    | some p =>
      obtain ⟨a, l'⟩ := p
      cases h
      obtain ⟨hhead, hperm⟩ := Heapq.heappop_some _ hp
      refine ⟨?_, hperm⟩
      obtain ⟨l₂, rfl⟩ := List.head?_eq_some_iff.mp hhead
      rfl

theorem peekRequest_mem (h : q.peekRequest = .ok e) : e ∈ q.entries := by
  unfold peekRequest at h
  split at h
  next => simp at h
  next a l heq =>
    cases h
    rw [heq]
    exact List.mem_cons_self

theorem iter_perm {es : List QueueEntry} (h : q.iter = .ok es) : es.Perm q.entries := by
  cases q with
  | fcfs l =>
    obtain rfl : l = es := by simpa [iter] using h
    exact List.Perm.refl _
  | priority l => exact Heapq.drain_perm _ h

theorem prependRequests_perm (h : q.prependRequests other = .ok q') :
    q'.entries.Perm (other.entries ++ q.entries) := by
  obtain ⟨es, hes, h⟩ := bind_eq_ok.mp h
  refine List.Perm.trans ?_ ((iter_perm hes).append_right q.entries)
  cases q with
  | fcfs l =>
    obtain rfl : fcfs (es ++ l) = q' := pure_eq_ok.mp h
    exact List.Perm.refl _
  | priority l =>
    -- the elements still to be added, with those the queue holds, are a permutation throughout
    have := threadM_invariant
      (I := fun rest (q : RequestQueue) => (rest ++ q.entries).Perm (es ++ (priority l).entries))
      (fun e rest q q₁ hI hadd =>
        ((addRequest_perm hadd).append_left rest |>.trans List.perm_middle).trans hI)
      (List.Perm.refl _) h
    simpa using this

theorem removeRequests_perm {rs : List ReqId} (h : q.removeRequests rs = .ok q') :
    q'.entries.Perm (q.entries.filter fun e => e.requestId ∉ rs) := by
  cases q with
  | fcfs l =>
    obtain rfl : fcfs _ = q' := by simpa only [removeRequests, Except.ok.injEq] using h
    exact List.Perm.refl _
  | priority l =>
    obtain ⟨h', hp, h⟩ := bind_eq_ok.mp h
    obtain rfl : priority h' = q' := pure_eq_ok.mp h
    exact Heapq.heapify_perm _ hp

/-! ### By identifier -/

theorem ids_addRequest (h : q.addRequest e = .ok q') : q'.ids.Perm (e.requestId :: q.ids) :=
  (addRequest_perm h).map QueueEntry.requestId

theorem ids_prependRequest (h : q.prependRequest e = .ok q') :
    q'.ids.Perm (e.requestId :: q.ids) :=
  (prependRequest_perm h).map QueueEntry.requestId

theorem ids_popRequest (h : q.popRequest = .ok (e, q')) : q.ids.Perm (e.requestId :: q'.ids) :=
  (popRequest_ok h).2.map QueueEntry.requestId

theorem ids_of_peekRequest (h : q.peekRequest = .ok e) : e.requestId ∈ q.ids :=
  List.mem_map_of_mem (peekRequest_mem h)

theorem ids_removeRequests {rs : List ReqId} (h : q.removeRequests rs = .ok q') :
    q'.ids.Perm (q.ids.filter (· ∉ rs)) := by
  have hp := (removeRequests_perm h).map QueueEntry.requestId
  unfold ids
  rw [List.filter_map]
  exact hp

/-! ### The policy -/

@[simp] theorem policy_create (policy : SchedulingPolicy) :
    (createRequestQueue policy).policy = policy := by
  cases policy <;> rfl

theorem eq_fcfs_of_policy (h : q.policy = .fcfs) : ∃ l, q = fcfs l := by
  cases q with
  | fcfs l => exact ⟨l, rfl⟩
  | priority l => cases h

theorem policy_addRequest (h : q.addRequest e = .ok q') : q'.policy = q.policy := by
  cases q with
  | fcfs l =>
    obtain rfl : fcfs (l ++ [e]) = q' := by simpa [addRequest] using h
    rfl
  | priority l =>
    obtain ⟨h', -, h⟩ := bind_eq_ok.mp h
    obtain rfl : priority h' = q' := pure_eq_ok.mp h
    rfl

theorem policy_removeRequests {rs : List ReqId} (h : q.removeRequests rs = .ok q') :
    q'.policy = q.policy := by
  cases q with
  | fcfs l =>
    obtain rfl : fcfs _ = q' := by simpa only [removeRequests, Except.ok.injEq] using h
    rfl
  | priority l =>
    obtain ⟨h', -, h⟩ := bind_eq_ok.mp h
    obtain rfl : priority h' = q' := pure_eq_ok.mp h
    rfl

end RequestQueue

end InferenceServer
