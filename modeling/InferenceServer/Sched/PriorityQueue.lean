import Mathlib.Data.Prod.Lex
import Mathlib.Data.Multiset.Filter
import InferenceServer.Lib.HeapOrder
import InferenceServer.Lib.Run
import InferenceServer.Sched.RequestQueue

/-!
# The order of the priority queue

A `PriorityRequestQueue` (`vllm/v1/core/sched/request_queue.py`) is meant to be a multiset of
requests from which a minimal one is popped: a request with the smallest priority, and of these one
that arrived first.

The entries of the heap are the tuples `(priority, arrival_time, request)`. Python compares them
component by component, and it compares the requests themselves if the first two components agree.
Requests have no order, so **two different requests that agree in both components cannot be in the
heap together** without the risk that a comparison raises. The children of one request of the front
end agree in both: they are copies with another id.

As long as no two such requests meet in the queue, the comparison is that of the keys, and the
queue does what it is meant to do.
-/

namespace InferenceServer

open Outcome
open Multiset (coe_eq_coe)

/-- The requests are ordered by priority and then by arrival time. -/
def QueueEntry.key (e : QueueEntry) : Int ×ₗ Int := toLex (e.priority, e.arrivalTime)

theorem QueueEntry.key_lt_key {a b : QueueEntry} :
    a.key < b.key ↔
      a.priority < b.priority ∨ a.priority = b.priority ∧ a.arrivalTime < b.arrivalTime :=
  Prod.Lex.lt_iff

/-- Two different requests that agree in everything that is compared before the requests. -/
def Tied (a b : QueueEntry) : Prop :=
  a.requestId ≠ b.requestId ∧ a.priority = b.priority ∧ a.arrivalTime = b.arrivalTime

instance (a b : QueueEntry) : Decidable (Tied a b) := by unfold Tied; infer_instance

/-- No two requests are tied. -/
def Untied (l : List QueueEntry) : Prop := ∀ a ∈ l, ∀ b ∈ l, ¬ Tied a b

instance (l : List QueueEntry) : Decidable (Untied l) := by unfold Untied; infer_instance

variable {a b e : QueueEntry} {l : List QueueEntry} {q other : RequestQueue}

theorem lt_of_tied (h : Tied a b) : a.lt b = .error .typeError := by
  obtain ⟨hid, hpriority, harrival⟩ := h
  unfold QueueEntry.lt
  rw [if_neg (not_not_intro hpriority), if_neg (not_not_intro harrival), if_pos hid]

theorem lt_of_not_tied (h : ¬ Tied a b) : a.lt b = .ok (decide (a.key < b.key)) := by
  unfold QueueEntry.lt
  simp only [QueueEntry.key_lt_key]
  split_ifs with hpriority harrival hid
  · simp [hpriority]
  · obtain hpriority := not_not.mp hpriority
    simp [hpriority]
  · exact absurd ⟨hid, not_not.mp hpriority, not_not.mp harrival⟩ h
  · obtain hpriority := not_not.mp hpriority
    obtain harrival := not_not.mp harrival
    simp [hpriority, harrival]

/-- **The comparison of the entries is that of the keys** exactly if no two requests are tied. -/
theorem compares_iff : Heapq.Compares QueueEntry.lt QueueEntry.key l ↔ Untied l := by
  constructor
  · intro hc a ha b hb htied
    have hlt := hc a ha b hb
    rw [lt_of_tied htied] at hlt
    cases hlt
  · exact fun hu a ha b hb => lt_of_not_tied (hu a ha b hb)

theorem Untied.mono {l' : List QueueEntry} (h : Untied l) (hsub : l' ⊆ l) : Untied l' :=
  fun a ha b hb => h a (hsub ha) b (hsub hb)

/-! ## The calls -/

/-- A call on a queue. -/
inductive QueueCall where
  | addRequest (request : QueueEntry)
  | prependRequest (request : QueueEntry)
  | prependRequests (requests : RequestQueue)
  | popRequest
  | peekRequest
  | removeRequest (request : ReqId)
  | removeRequests (requests : List ReqId)
deriving DecidableEq, Repr

/-- The requests that a call gives to the queue. -/
def QueueCall.given : QueueCall → List QueueEntry
  | addRequest request | prependRequest request => [request]
  | prependRequests requests => requests.entries
  | popRequest | peekRequest | removeRequest _ | removeRequests _ => []

/-- The request that a call returns, and the queue afterwards. -/
def RequestQueue.call (q : RequestQueue) :
    QueueCall → Except PyError (Option QueueEntry × RequestQueue)
  | .addRequest request => do return (none, ← q.addRequest request)
  | .prependRequest request => do return (none, ← q.prependRequest request)
  | .prependRequests requests => do return (none, ← q.prependRequests requests)
  | .popRequest => do
    let (request, q) ← q.popRequest
    return (some request, q)
  | .peekRequest => do return (some (← q.peekRequest), q)
  | .removeRequest request => do return (none, ← q.removeRequest request)
  | .removeRequests requests => do return (none, ← q.removeRequests requests)

/-- All sequences of calls on a `PriorityRequestQueue`. -/
def priorityRequestQueue : Machine RequestQueue QueueCall PyError where
  init := createRequestQueue .priority
  step q c := do
    let (_, q) ← q.call c
    return q

/-- **What a call is meant to do** to the multiset of the requests in the queue. -/
inductive Serves : Multiset QueueEntry → QueueCall → Option QueueEntry → Multiset QueueEntry → Prop
  | addRequest (s : Multiset QueueEntry) (e : QueueEntry) : Serves s (.addRequest e) none (e ::ₘ s)
  | prependRequest (s : Multiset QueueEntry) (e : QueueEntry) :
      Serves s (.prependRequest e) none (e ::ₘ s)
  | prependRequests (s : Multiset QueueEntry) (other : RequestQueue) :
      Serves s (.prependRequests other) none (other.entries + s)
  | popRequest (s : Multiset QueueEntry) (e : QueueEntry) (hmin : ∀ x ∈ e ::ₘ s, e.key ≤ x.key) :
      Serves (e ::ₘ s) .popRequest (some e) s
  | peekRequest (s : Multiset QueueEntry) (e : QueueEntry) (he : e ∈ s)
      (hmin : ∀ x ∈ s, e.key ≤ x.key) : Serves s .peekRequest (some e) s
  | removeRequest (s : Multiset QueueEntry) (r : ReqId) :
      Serves s (.removeRequest r) none (s.filter fun e => e.requestId ≠ r)
  | removeRequests (s : Multiset QueueEntry) (rs : List ReqId) :
      Serves s (.removeRequests rs) none (s.filter fun e => e.requestId ∉ rs)

/-- A call does what it is meant to do, and it raises only on an empty queue. -/
def RequestQueue.Fulfils (q : RequestQueue) (c : QueueCall) : Prop :=
  match q.call c with
  | .ok (r, q') => Serves q.entries c r q'.entries
  | .error err => err = .indexError ∧ (c = .popRequest ∨ c = .peekRequest) ∧ q.entries = []

/-! ## Untied requests -/

/-- A priority queue, and its heap is in order. -/
def RequestQueue.InOrder (q : RequestQueue) : Prop :=
  ∃ heap, q = .priority heap ∧ Heapq.HeapFrom QueueEntry.key 0 heap

namespace RequestQueue

theorem addRequest_spec (h : q.InOrder) (hu : Untied (e :: q.entries)) :
    ∃ q', q.addRequest e = .ok q' ∧ q'.InOrder ∧ q'.entries.Perm (e :: q.entries) := by
  obtain ⟨heap, rfl, hheap⟩ := h
  obtain ⟨heap', hpush, hheap'⟩ := Heapq.heappush_spec (compares_iff.mpr hu) hheap
  have hadd : (priority heap).addRequest e = .ok (priority heap') :=
    bind_eq_ok.mpr ⟨heap', hpush, rfl⟩
  exact ⟨_, hadd, ⟨heap', rfl, hheap'⟩, addRequest_perm hadd⟩

theorem popRequest_spec (h : q.InOrder) (hu : Untied q.entries) (hne : q.entries ≠ []) :
    ∃ e q', q.popRequest = .ok (e, q') ∧ q'.InOrder ∧ q.entries.Perm (e :: q'.entries) ∧
      ∀ x ∈ q.entries, e.key ≤ x.key := by
  obtain ⟨heap, rfl, hheap⟩ := h
  obtain ⟨e, heap', hpop, hheap', hperm, hmin⟩ :=
    Heapq.heappop_spec (compares_iff.mpr hu) hheap hne
  exact ⟨e, priority heap', bind_eq_ok.mpr ⟨_, hpop, rfl⟩, ⟨heap', rfl, hheap'⟩, hperm, hmin⟩

theorem peekRequest_spec (h : q.InOrder) (hne : q.entries ≠ []) :
    ∃ e, q.peekRequest = .ok e ∧ ∀ x ∈ q.entries, e.key ≤ x.key := by
  obtain ⟨heap, rfl, hheap⟩ := h
  cases heap with
  | nil => exact absurd rfl hne
  | cons e heap => exact ⟨e, rfl, fun x hx => hheap.root_le rfl hx⟩

theorem iter_ok (hu : Untied other.entries) : ∃ es, other.iter = .ok es := by
  cases other with
  | fcfs l => exact ⟨l, rfl⟩
  | priority l => exact Heapq.drain_ok (compares_iff.mpr hu).totalOn

theorem prependRequests_spec (h : q.InOrder) (hu : Untied (other.entries ++ q.entries)) :
    ∃ q', q.prependRequests other = .ok q' ∧ q'.InOrder ∧
      q'.entries.Perm (other.entries ++ q.entries) := by
  obtain ⟨es, hes⟩ := iter_ok (hu.mono (List.subset_append_left _ _))
  have hloop : ∀ es q, InOrder q → Untied (es ++ q.entries) →
      ∃ q', threadM (fun e q => q.addRequest e) es q = .ok q' ∧ q'.InOrder := by
    intro es
    induction es with
    | nil => exact fun q hq _ => ⟨q, rfl, hq⟩
    | cons e es ih =>
      intro q hq hu
      obtain ⟨q₁, hadd, hq₁, hperm⟩ := addRequest_spec hq
        (hu.mono (List.cons_subset.mpr ⟨List.mem_cons_self, fun x hx =>
          List.mem_cons_of_mem e (List.mem_append_right es hx)⟩))
      obtain ⟨q', hrest, hq'⟩ := ih q₁ hq₁
        (hu.mono ((hperm.append_left es).trans List.perm_middle).subset)
      exact ⟨q', threadM_cons_ok.mpr ⟨q₁, hadd, hrest⟩, hq'⟩
  obtain ⟨q', hrun, hq'⟩ := hloop es q h
    (hu.mono ((iter_perm hes).append_right q.entries).subset)
  have hprepend : q.prependRequests other = .ok q' := by
    obtain ⟨heap, rfl, -⟩ := h
    exact bind_eq_ok.mpr ⟨es, hes, hrun⟩
  exact ⟨q', hprepend, hq', prependRequests_perm hprepend⟩

/-- Both removals filter the heap and make it anew. -/
theorem heapify_filter_spec (hu : Untied l) (p : QueueEntry → Bool) :
    ∃ heap, Heapq.heapify QueueEntry.lt (l.filter p) = .ok heap ∧ (priority heap).InOrder ∧
      heap.Perm (l.filter p) := by
  obtain ⟨heap, hheapify, hheap⟩ := Heapq.heapify_spec
    (compares_iff.mpr (hu.mono (List.filter_sublist (p := p)).subset))
  exact ⟨heap, hheapify, ⟨heap, rfl, hheap⟩, Heapq.heapify_perm _ hheapify⟩

/-- **One call**, when the requests that meet are not tied. -/
theorem call_spec (h : q.InOrder) {c : QueueCall} (hu : Untied (c.given ++ q.entries)) :
    q.Fulfils c ∧ ∀ r q', q.call c = .ok (r, q') → q'.InOrder := by
  have hown : Untied q.entries := hu.mono (List.subset_append_right _ _)
  suffices hcall : (∃ r q', q.call c = .ok (r, q') ∧ Serves q.entries c r q'.entries ∧ q'.InOrder) ∨
      q.call c = .error .indexError ∧ (c = .popRequest ∨ c = .peekRequest) ∧ q.entries = [] by
    unfold Fulfils
    rcases hcall with ⟨r, q', hcall, hserves, hq'⟩ | ⟨hcall, herror⟩
    · rw [hcall]
      refine ⟨hserves, fun r₁ q₁ h₁ => ?_⟩
      cases h₁
      exact hq'
    · rw [hcall]
      exact ⟨⟨rfl, herror⟩, fun r₁ q₁ h₁ => by cases h₁⟩
  cases c with
  | addRequest e =>
    obtain ⟨q', hadd, hq', hperm⟩ := addRequest_spec h hu
    refine .inl ⟨none, q', bind_eq_ok.mpr ⟨q', hadd, rfl⟩, ?_, hq'⟩
    rw [coe_eq_coe.mpr hperm]
    exact .addRequest _ e
  | prependRequest e =>
    obtain ⟨q', hadd, hq', hperm⟩ := addRequest_spec h hu
    have hprepend : q.prependRequest e = .ok q' := by
      obtain ⟨heap, rfl, -⟩ := h
      exact hadd
    refine .inl ⟨none, q', bind_eq_ok.mpr ⟨q', hprepend, rfl⟩, ?_, hq'⟩
    rw [coe_eq_coe.mpr hperm]
    exact .prependRequest _ e
  | prependRequests other =>
    obtain ⟨q', hprepend, hq', hperm⟩ := prependRequests_spec h hu
    refine .inl ⟨none, q', bind_eq_ok.mpr ⟨q', hprepend, rfl⟩, ?_, hq'⟩
    rw [coe_eq_coe.mpr hperm]
    exact .prependRequests _ other
  | popRequest =>
    rcases eq_or_ne q.entries [] with hnil | hne
    · obtain ⟨heap, rfl, -⟩ := h
      obtain rfl : heap = [] := hnil
      exact .inr ⟨rfl, .inl rfl, rfl⟩
    · obtain ⟨e, q', hpop, hq', hperm, hmin⟩ := popRequest_spec h hown hne
      refine .inl ⟨some e, q', bind_eq_ok.mpr ⟨_, hpop, rfl⟩, ?_, hq'⟩
      rw [coe_eq_coe.mpr hperm]
      refine .popRequest (q'.entries : Multiset QueueEntry) e fun x hx => ?_
      exact hmin x (hperm.mem_iff.mpr (Multiset.mem_coe.mp hx))
  | peekRequest =>
    rcases eq_or_ne q.entries [] with hnil | hne
    · obtain ⟨heap, rfl, -⟩ := h
      obtain rfl : heap = [] := hnil
      exact .inr ⟨rfl, .inr rfl, rfl⟩
    · obtain ⟨e, hpeek, hmin⟩ := peekRequest_spec h hne
      exact .inl ⟨some e, q, bind_eq_ok.mpr ⟨e, hpeek, rfl⟩,
        .peekRequest _ e (peekRequest_mem hpeek) hmin, h⟩
  | removeRequest r =>
    obtain ⟨heap, rfl, -⟩ := h
    obtain ⟨heap', hheapify, hq', hperm⟩ := heapify_filter_spec hown fun e => e.requestId ≠ r
    refine .inl ⟨none, priority heap', bind_eq_ok.mpr ⟨_, bind_eq_ok.mpr ⟨heap', hheapify, rfl⟩, rfl⟩,
      ?_, hq'⟩
    change Serves _ _ _ (heap' : Multiset QueueEntry)
    rw [coe_eq_coe.mpr hperm]
    exact .removeRequest _ r
  | removeRequests rs =>
    obtain ⟨heap, rfl, -⟩ := h
    obtain ⟨heap', hheapify, hq', hperm⟩ := heapify_filter_spec hown fun e => e.requestId ∉ rs
    refine .inl ⟨none, priority heap', bind_eq_ok.mpr ⟨_, bind_eq_ok.mpr ⟨heap', hheapify, rfl⟩, rfl⟩,
      ?_, hq'⟩
    change Serves _ _ _ (heap' : Multiset QueueEntry)
    rw [coe_eq_coe.mpr hperm]
    exact .removeRequests _ rs

theorem inOrder_of_reach
    (h : priorityRequestQueue.Reach (fun q c => Untied (c.given ++ q.entries)) q) : q.InOrder :=
  h.invariant ⟨[], rfl, Heapq.heapFrom_nil⟩ fun q c q' hq hu hstep => by
    obtain ⟨⟨r, q₁⟩, hcall, hret⟩ := bind_eq_ok.mp hstep
    obtain rfl := pure_eq_ok.mp hret
    exact (call_spec hq hu).2 r q₁ hcall

/-- **In every run in which no tied requests meet**, every call does what it is meant to do. -/
theorem fulfils_of_untied {c : QueueCall}
    (h : priorityRequestQueue.Reach (fun q c => Untied (c.given ++ q.entries)) q)
    (hu : Untied (c.given ++ q.entries)) : q.Fulfils c :=
  (call_spec (inOrder_of_reach h) hu).1

/-- Two requests that differ in the arrival time are popped in this order. -/
theorem fulfils_of_untied_two :
    let first : QueueEntry := { priority := 0, arrivalTime := 1, requestId := 0 }
    let second : QueueEntry := { priority := 0, arrivalTime := 2, requestId := 1 }
    ∃ q : RequestQueue, q.entries = [first, second] ∧ q.Fulfils .popRequest := by
  intro first second
  have hrun : priorityRequestQueue.execIf (fun q c => Untied (c.given ++ q.entries))
      [.addRequest second, .addRequest first] priorityRequestQueue.init =
        some (priority [first, second]) := by decide +kernel
  exact ⟨_, rfl, fulfils_of_untied (Machine.reach_execIf .start hrun) (by decide)⟩

/-! ## Tied requests -/

/-- Adding one request to the empty queue. -/
theorem reach_singleton (a : QueueEntry) :
    priorityRequestQueue.Reach (fun _ _ => True) (priority [a]) := by
  refine Machine.Reach.next (i := .addRequest a) .start trivial ?_
  simp [priorityRequestQueue, call, addRequest, createRequestQueue, Heapq.heappush, Heapq.siftdown]

/-- **The second child of a request cannot be added.** -/
theorem secondChild_raises :
    let child (requestId : ReqId) : QueueEntry := { priority := 0, arrivalTime := 1, requestId }
    ∃ q, priorityRequestQueue.Reach (fun _ _ => True) q ∧ q.entries = [child 0] ∧
      ¬ q.Fulfils (.addRequest (child 1)) := by
  intro child
  refine ⟨priority [child 0], reach_singleton _, rfl, ?_⟩
  have hcall : (priority [child 0]).call (.addRequest (child 1)) =
      .error .typeError := by decide +kernel
  unfold Fulfils
  rw [hcall]
  exact fun h => nomatch h.1

end RequestQueue

end InferenceServer
