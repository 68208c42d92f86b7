import InferenceServer.Lib.Run

/-!
# Sends of the P2P connector

With `send_type` PUT_ASYNC, `P2pNcclEngine` (`p2p_nccl_engine.py`) sends the KV of a step from a
thread of its own. The worker puts an item into `send_queue` for every layer of every request that it
saves, and at the end of the step `wait_for_sent` waits until the queue is empty. The send thread takes
an item off the queue, reads the KV of the item from the paged cache and sends it.

One condition variable serves both directions: the send thread waits on it for items, the worker for
the queue to be empty. `notify` wakes the one that has waited longest.

The queue is empty as soon as its last item is taken off, and the KV of this item is read later. So
`wait_for_sent` waits for the wrong thing: **whatever is queued, there is an interleaving in which
`wait_for_sent` returns and the last item has not been read**. Then the blocks of the item may have
been given to another request when it is read. But no item is lost: every run ends, and when neither
party can go on, all steps have ended and all items have been read.

A section under `send_queue_cv` is one step, and so is a call of `extract_kv_from_layer`. The rest of
`send_sync` reads nothing from the cache.

## Main results

* `conserved_of_reach`, `extracted_of_returns_iff`, `sentInTime_iff`, `drained_of_stuck`
* `run_length_le`
-/

namespace InferenceServer.KVTransfer

open List (append_nil)

/-- A call of `send_tensor` in `save_kv_layer`. -/
structure SendCall where
  tensorId : String
  remoteAddress : Option String
  slotMapping : List Nat
  isMla : Bool
  deriving DecidableEq, Repr

/-- `SendQueueItem`, and the step that queued it. -/
structure SendQueueItem where
  tensorId : String
  remoteAddress : String
  slotMapping : List Nat
  isMla : Bool
  /-- History. -/
  step : Nat
  deriving DecidableEq, Repr

inductive Party where
  | worker
  | sendThread
  deriving DecidableEq, Repr

/-- Where the worker is. -/
inductive WorkerPc where
  /-- In the step, with the calls of `send_tensor` that are left; then in `wait_for_sent`. -/
  | saving (calls : List SendCall)
  /-- Waiting on the condition variable. -/
  | waiting
  /-- All steps have ended. -/
  | finished
  deriving DecidableEq, Repr

/-- Where the send thread is. -/
inductive SendThreadPc where
  /-- Before its section. -/
  | looping
  | waiting
  /-- In `send_sync`, before it reads the cache. -/
  | sending (item : SendQueueItem)
  /-- In `send_sync`, afterwards. -/
  | transferring (item : SendQueueItem)
  deriving DecidableEq, Repr

/-- The shared state of `P2pNcclEngine` and its two parties. -/
structure P2pNcclEngine where
  sendQueue : List SendQueueItem := []
  /-- Who waits on `send_queue_cv`, the one that has waited longest first. -/
  waiters : List Party := []
  worker : WorkerPc
  sendThread : SendThreadPc := .looping
  /-- The steps of the worker that have not begun. -/
  work : List (List SendCall)
  /-- The number of the step of the worker. -/
  step : Nat := 0
  /-- History: what has been queued. -/
  queued : List SendQueueItem := []
  /-- History: what has been read from the cache, and in which step of the worker. -/
  extracted : List (SendQueueItem × Nat) := []
  deriving DecidableEq, Repr

/-- A party that cannot go on. -/
inductive SendBlocked where
  | waiting
  | finished
  deriving DecidableEq, Repr

namespace P2pNcclEngine

/-- `send_queue_cv.notify()`. -/
def notify (s : P2pNcclEngine) : P2pNcclEngine := { s with waiters := s.waiters.tail }

/-- `send_tensor`. A tensor without a remote address goes to the store of this engine. -/
def sendTensor (s : P2pNcclEngine) (c : SendCall) : P2pNcclEngine :=
  match c.remoteAddress with
  | none => s
  | some remoteAddress =>
    let item : SendQueueItem :=
      { tensorId := c.tensorId, remoteAddress, slotMapping := c.slotMapping, isMla := c.isMla
        step := s.step }
    { s with sendQueue := s.sendQueue ++ [item], queued := s.queued ++ [item] }.notify

/-- The step of the worker ends, and the next one begins. -/
def endStep (s : P2pNcclEngine) : P2pNcclEngine :=
  match s.work with
  | [] => { s with worker := .finished, step := s.step + 1 }
  | calls :: work => { s with worker := .saving calls, work, step := s.step + 1 }

/-- The section of `wait_for_sent`, from where the worker has the lock. -/
def waitForSent (s : P2pNcclEngine) : P2pNcclEngine :=
  if s.sendQueue = [] then s.endStep
  else { s with worker := .waiting, waiters := s.waiters ++ [.worker] }

/-- The section of `send_async`, from where the send thread has the lock. -/
def takeItem (s : P2pNcclEngine) : P2pNcclEngine :=
  match s.sendQueue with
  | [] => { s with sendThread := .waiting, waiters := s.waiters ++ [.sendThread] }
  | item :: sendQueue =>
    let s := { s with sendQueue, sendThread := .sending item }
    if sendQueue = [] then s.notify else s

/-- `extract_kv_from_layer`. -/
def extractKvFromLayer (s : P2pNcclEngine) (item : SendQueueItem) : P2pNcclEngine :=
  { s with sendThread := .transferring item, extracted := s.extracted ++ [(item, s.step)] }

/-- The next step of the worker. -/
def stepWorker (s : P2pNcclEngine) : Except SendBlocked P2pNcclEngine :=
  match s.worker with
  | .saving (c :: calls) => .ok { s.sendTensor c with worker := .saving calls }
  | .saving [] => .ok s.waitForSent
  | .waiting => if .worker ∈ s.waiters then .error .waiting else .ok s.waitForSent
  | .finished => .error .finished

/-- The next step of the send thread. -/
def stepSendThread (s : P2pNcclEngine) : Except SendBlocked P2pNcclEngine :=
  match s.sendThread with
  | .looping => .ok s.takeItem
  | .waiting => if .sendThread ∈ s.waiters then .error .waiting else .ok s.takeItem
  | .sending item => .ok (s.extractKvFromLayer item)
  | .transferring _ => .ok { s with sendThread := .looping }

/-- The next step of a party. -/
def next (s : P2pNcclEngine) : Party → Except SendBlocked P2pNcclEngine
  | .worker => s.stepWorker
  | .sendThread => s.stepSendThread

/-- The engine before the first step of the worker. -/
def create : List (List SendCall) → P2pNcclEngine
  | [] => { worker := .finished, work := [] }
  | calls :: work => { worker := .saving calls, work }

end P2pNcclEngine

/-- The worker and the send thread, in any order. -/
def p2pSends (work : List (List SendCall)) : Machine P2pNcclEngine Party SendBlocked where
  init := .create work
  step := P2pNcclEngine.next

namespace P2pNcclEngine

variable {s t : P2pNcclEngine} {work : List (List SendCall)} {calls : List SendCall}

/-! ## What the send thread does -/

/-- What the send thread has taken off the queue and not read. -/
def taken (s : P2pNcclEngine) : List SendQueueItem :=
  match s.sendThread with
  | .sending item => [item]
  | _ => []

/-- **Nothing is lost**, and the order is kept. -/
def Conserved (s : P2pNcclEngine) : Prop :=
  s.extracted.map Prod.fst ++ s.taken ++ s.sendQueue = s.queued

variable (h : s.Conserved)

include h

theorem Conserved.sendTensor (c : SendCall) : (s.sendTensor c).Conserved := by
  unfold P2pNcclEngine.sendTensor
  cases c.remoteAddress with
  | none => exact h
  | some remoteAddress =>
    change s.extracted.map Prod.fst ++ s.taken ++ (s.sendQueue ++ [_]) = s.queued ++ [_]
    rw [← List.append_assoc, h]

theorem Conserved.endStep : s.endStep.Conserved := by
  unfold P2pNcclEngine.endStep
  cases s.work <;> exact h

theorem Conserved.waitForSent : s.waitForSent.Conserved := by
  unfold P2pNcclEngine.waitForSent
  split_ifs
  · exact h.endStep
  · exact h

theorem Conserved.takeItem (hnone : s.taken = []) : s.takeItem.Conserved := by
  unfold Conserved at h
  rw [hnone, append_nil] at h
  unfold P2pNcclEngine.takeItem
  cases hq : s.sendQueue with
  | nil =>
    rw [hq, append_nil] at h
    change s.extracted.map Prod.fst ++ [] ++ [] = s.queued
    rw [append_nil, append_nil, h]
  | cons item sendQueue =>
    have htaken : s.extracted.map Prod.fst ++ [item] ++ sendQueue = s.queued := by
      rw [← h, hq, List.append_assoc, List.singleton_append]
    dsimp only
    split_ifs <;> exact htaken

theorem Conserved.extractKvFromLayer {item : SendQueueItem}
    (hpc : s.sendThread = .sending item) : (s.extractKvFromLayer item).Conserved := by
  unfold Conserved taken at h
  rw [hpc] at h
  change (s.extracted ++ [(item, s.step)]).map Prod.fst ++ [] ++ s.sendQueue = s.queued
  rw [← h, List.map_append, append_nil]
  rfl

omit h

/-- **What a party can do.** -/
theorem next_cases {p : Party} (hs : s.next p = .ok t) :
    (∃ c calls, s.worker = .saving (c :: calls) ∧
        t = { s.sendTensor c with worker := .saving calls }) ∨
      ((s.worker = .saving [] ∨ s.worker = .waiting ∧ .worker ∉ s.waiters) ∧ t = s.waitForSent) ∨
      (s.taken = [] ∧ (s.sendThread = .looping ∨ .sendThread ∉ s.waiters) ∧ t = s.takeItem) ∨
      (∃ item, s.sendThread = .sending item ∧ t = s.extractKvFromLayer item) ∨
      ∃ item, s.sendThread = .transferring item ∧ t = { s with sendThread := .looping } := by
  cases p with
  | worker =>
    unfold P2pNcclEngine.next stepWorker at hs
    cases hpc : s.worker with
    | saving calls =>
      rw [hpc] at hs
      cases calls with
      | nil => exact .inr (.inl ⟨.inl rfl, (Except.ok.inj hs).symm⟩)
      | cons c calls => exact .inl ⟨c, calls, rfl, (Except.ok.inj hs).symm⟩
    | waiting =>
      rw [hpc] at hs
      split_ifs at hs with hwait
      exact .inr (.inl ⟨.inr ⟨rfl, hwait⟩, (Except.ok.inj hs).symm⟩)
    | finished =>
      rw [hpc] at hs
      cases hs
  | sendThread =>
    unfold P2pNcclEngine.next stepSendThread at hs
    cases hpc : s.sendThread with
    | looping =>
      rw [hpc] at hs
      exact .inr (.inr (.inl ⟨by rw [taken, hpc], .inl rfl, (Except.ok.inj hs).symm⟩))
    | waiting =>
      rw [hpc] at hs
      split_ifs at hs with hwait
      exact .inr (.inr (.inl ⟨by rw [taken, hpc], .inr hwait, (Except.ok.inj hs).symm⟩))
    | sending item =>
      rw [hpc] at hs
      exact .inr (.inr (.inr (.inl ⟨item, rfl, (Except.ok.inj hs).symm⟩)))
    | transferring item =>
      rw [hpc] at hs
      exact .inr (.inr (.inr (.inr ⟨item, rfl, (Except.ok.inj hs).symm⟩)))

/-- **A step of a party** keeps what has been queued. -/
theorem Conserved.next {p : Party} (h : s.Conserved) (hs : s.next p = .ok t) : t.Conserved := by
  rcases next_cases hs with ⟨c, calls, -, rfl⟩ | ⟨-, rfl⟩ | ⟨hnone, -, rfl⟩ | ⟨item, hpc, rfl⟩ |
    ⟨item, hpc, rfl⟩
  · exact h.sendTensor c
  · exact h.waitForSent
  · exact h.takeItem hnone
  · exact h.extractKvFromLayer hpc
  · unfold Conserved taken at h
    rw [hpc] at h
    exact h

theorem conserved_create : (create work).Conserved := by
  cases work <;> rfl

/-- **In every interleaving** the send thread loses nothing and keeps the order. -/
theorem conserved_of_reach (h : (p2pSends work).Reach (fun _ _ => True) s) : s.Conserved :=
  h.invariant conserved_create fun _ _ _ hs _ hst => hs.next hst

/-- **What is missing when `wait_for_sent` returns** is what the send thread has taken and not read. -/
theorem extracted_of_returns_iff (h : (p2pSends work).Reach (fun _ _ => True) s)
    (ht : s.next .worker = .ok t) (hreturns : t.step = s.step + 1) :
    t.extracted.map Prod.fst = t.queued ↔ s.taken = [] := by
  have hwait : t = s.endStep ∧ s.sendQueue = [] := by
    have hwait : ∀ u : P2pNcclEngine, s.waitForSent = u → u.step = s.step + 1 →
        u = s.endStep ∧ s.sendQueue = [] := by
      rintro u rfl hu
      unfold waitForSent at hu ⊢
      split_ifs at hu ⊢ with hq
      · exact ⟨rfl, hq⟩
      · exact absurd hu (Nat.ne_of_lt (Nat.lt_succ_self s.step))
    unfold next stepWorker at ht
    cases hpc : s.worker with
    | saving calls =>
      rw [hpc] at ht
      cases calls with
      | nil => exact hwait t (Except.ok.inj ht) hreturns
      | cons c calls =>
        cases ht
        have hsame : (s.sendTensor c).step = s.step := by
          unfold sendTensor
          cases c.remoteAddress <;> rfl
        exact absurd (hsame.symm.trans hreturns) (Nat.ne_of_lt (Nat.lt_succ_self s.step))
    | waiting =>
      rw [hpc] at ht
      split_ifs at ht
      exact hwait t (Except.ok.inj ht) hreturns
    | finished =>
      rw [hpc] at ht
      cases ht
  obtain ⟨rfl, hq⟩ := hwait
  have hc := conserved_of_reach h
  unfold Conserved at hc
  rw [hq, append_nil] at hc
  have hsame : s.endStep.extracted = s.extracted ∧ s.endStep.queued = s.queued := by
    unfold endStep
    cases s.work <;> exact ⟨rfl, rfl⟩
  rw [hsame.1, hsame.2, ← hc]
  exact List.self_eq_append_right

/-! ## The end of a step -/

/-- When `wait_for_sent` returns, all items that were queued have been read, and every item is read in
the step that queued it. -/
def SentInTime (work : List (List SendCall)) : Prop :=
  ∀ s, (p2pSends work).Reach (fun _ _ => True) s →
    (∀ t, s.next .worker = .ok t → t.step = s.step + 1 → t.extracted.map Prod.fst = t.queued) ∧
      ∀ e ∈ s.extracted, e.2 = e.1.step

/-- The items of calls. -/
def itemsOf (step : Nat) (calls : List SendCall) : List SendQueueItem :=
  calls.filterMap fun c => c.remoteAddress.map fun remoteAddress =>
    { tensorId := c.tensorId, remoteAddress, slotMapping := c.slotMapping, isMla := c.isMla, step }

theorem itemsOf_eq_nil {n : Nat} :
    itemsOf n calls = [] ↔ ∀ c ∈ calls, c.remoteAddress = none := by
  simp [itemsOf, List.filterMap_eq_nil_iff]

/-- The worker makes its calls while nobody waits. -/
theorem reach_saved (h : (p2pSends work).Reach (fun _ _ => True) s)
    (hpc : s.worker = .saving calls) (hwaiters : s.waiters = []) :
    ∃ t, (p2pSends work).Reach (fun _ _ => True) t ∧ t.worker = .saving [] ∧ t.work = s.work ∧
      t.sendThread = s.sendThread ∧ t.waiters = [] ∧
      t.sendQueue = s.sendQueue ++ itemsOf s.step calls := by
  induction calls generalizing s with
  | nil => exact ⟨s, h, hpc, rfl, rfl, hwaiters, (append_nil _).symm⟩
  | cons c calls ih =>
    have hstep : s.next .worker = .ok { s.sendTensor c with worker := .saving calls } := by
      unfold next stepWorker
      rw [hpc]
    have hreach : (p2pSends work).Reach (fun _ _ => True)
        { s.sendTensor c with worker := .saving calls } := h.next (i := .worker) trivial hstep
    cases hc : c.remoteAddress with
    | none =>
      have hsame : s.sendTensor c = s := by rw [sendTensor, hc]
      rw [hsame] at hreach
      obtain ⟨t, ht, hw, hwork, hthread, hwait, hq⟩ := ih hreach rfl hwaiters
      refine ⟨t, ht, hw, hwork, hthread, hwait, hq.trans ?_⟩
      simp [itemsOf, hc]
    | some remoteAddress =>
      have hnil : ({ s.sendTensor c with worker := .saving calls } : P2pNcclEngine).waiters = [] := by
        simp [sendTensor, hc, notify, hwaiters]
      obtain ⟨t, ht, hw, hwork, hthread, hwait, hq⟩ := ih hreach rfl hnil
      refine ⟨t, ht, hw, hwork.trans ?_, hthread.trans ?_, hwait, hq.trans ?_⟩ <;>
        simp [sendTensor, hc, notify, itemsOf]

/-- The send thread takes the last item off the queue. -/
theorem reach_takenLast {q : List SendQueueItem} {x : SendQueueItem}
    (h : (p2pSends work).Reach (fun _ _ => True) s) (hthread : s.sendThread = .looping)
    (hwaiters : s.waiters = []) (hq : s.sendQueue = q ++ [x]) :
    ∃ t, (p2pSends work).Reach (fun _ _ => True) t ∧ t.worker = s.worker ∧ t.sendQueue = [] ∧
      t.taken = [x] := by
  induction q generalizing s with
  | nil =>
    have hstep : s.next .sendThread = .ok s.takeItem := by
      unfold next stepSendThread
      rw [hthread]
    refine ⟨_, h.next (i := .sendThread) trivial hstep, ?_⟩
    unfold takeItem
    rw [hq]
    exact ⟨rfl, rfl, rfl⟩
  | cons y q ih =>
    -- the item is taken, read and sent
    have hstep₁ : s.next .sendThread =
        .ok { s with sendQueue := q ++ [x], sendThread := .sending y } := by
      unfold next stepSendThread takeItem
      rw [hthread, hq]
      simp
    have h₁ : (p2pSends work).Reach (fun _ _ => True)
        { s with sendQueue := q ++ [x], sendThread := .sending y } :=
      h.next (i := .sendThread) trivial hstep₁
    have hreach := (h₁.next (i := .sendThread) trivial rfl).next (i := .sendThread) trivial rfl
    obtain ⟨t, ht, hw, hqt, htaken⟩ := ih hreach rfl hwaiters rfl
    exact ⟨t, ht, hw, hqt, htaken⟩

/-- The worker has queued something. The queue is drained but for the last item, and the worker
returns. -/
theorem earlyReturn (hall : SentInTime work) (h : (p2pSends work).Reach (fun _ _ => True) s)
    (hpc : s.worker = .saving []) (hthread : s.sendThread = .looping) (hwaiters : s.waiters = [])
    (hne : s.sendQueue ≠ []) : False := by
  have hq : s.sendQueue = s.sendQueue.dropLast ++ [s.sendQueue.getLast hne] :=
    (List.dropLast_append_getLast hne).symm
  obtain ⟨u, hu, huw, huq, htaken⟩ := reach_takenLast h hthread hwaiters hq
  have hstep : u.next .worker = .ok u.endStep := by
    unfold next stepWorker waitForSent
    rw [huw, hpc]
    rw [if_pos huq]
  have hreturns : u.endStep.step = u.step + 1 := by
    unfold endStep
    cases u.work <;> rfl
  have hread := (hall u hu).1 _ hstep hreturns
  rw [extracted_of_returns_iff hu hstep hreturns, htaken] at hread
  cases hread

/-- The first item that is queued is enough for an interleaving that returns too early. -/
theorem not_sentInTime {rest : List (List SendCall)}
    (h : (p2pSends work).Reach (fun _ _ => True) s) (hpc : s.worker = .saving calls)
    (hwork : s.work = rest) (hthread : s.sendThread = .looping) (hwaiters : s.waiters = [])
    (hq : s.sendQueue = []) {c : SendCall} (hc : c ∈ calls ∨ ∃ l ∈ rest, c ∈ l)
    (haddress : c.remoteAddress ≠ none) : ¬ SentInTime work := by
  intro hall
  induction rest generalizing s calls with
  | nil =>
    obtain ⟨t, ht, hw, -, hthread', hwait, hqt⟩ := reach_saved h hpc hwaiters
    rw [hq, List.nil_append] at hqt
    have hne : itemsOf s.step calls ≠ [] := fun hnil =>
      haddress (itemsOf_eq_nil.mp hnil c (hc.resolve_right fun ⟨l, hl, _⟩ => by cases hl))
    exact earlyReturn hall ht hw (hthread'.trans hthread) hwait (hqt ▸ hne)
  | cons l rest ih =>
    obtain ⟨t, ht, hw, hwork', hthread', hwait, hqt⟩ := reach_saved h hpc hwaiters
    rw [hq, List.nil_append] at hqt
    by_cases hnil : itemsOf s.step calls = []
    swap
    · exact earlyReturn hall ht hw (hthread'.trans hthread) hwait (hqt ▸ hnil)
    -- nothing is queued in this step
    have hstep : t.next .worker =
        .ok { t with worker := .saving l, work := rest, step := t.step + 1 } := by
      unfold next stepWorker waitForSent endStep
      rw [hw, hqt, hnil, hwork', hwork]
      rfl
    refine ih (ht.next (i := .worker) trivial hstep) rfl rfl (hthread'.trans hthread) hwait
      (hqt.trans hnil) ?_
    rcases hc with hc | ⟨l', hl', hc⟩
    · exact absurd (itemsOf_eq_nil.mp hnil c hc) haddress
    · rcases List.mem_cons.mp hl' with rfl | hl'
      · exact .inl hc
      · exact .inr ⟨l', hl', hc⟩

/-- Nothing has been queued, and nothing will be. -/
structure Quiet (s : P2pNcclEngine) : Prop where
  queued : s.queued = []
  work : ∀ calls ∈ s.work, ∀ c ∈ calls, c.remoteAddress = none
  worker : ∀ calls, s.worker = .saving calls → ∀ c ∈ calls, c.remoteAddress = none

theorem Quiet.endStep (h : s.Quiet) : s.endStep.Quiet := by
  unfold P2pNcclEngine.endStep
  cases hwork : s.work with
  | nil =>
    exact ⟨h.queued, fun calls hc => h.work calls (hwork ▸ hc), fun calls hc => by cases hc⟩
  | cons l rest =>
    have hw := h.work
    rw [hwork] at hw
    refine ⟨h.queued, fun calls hc => hw calls (List.mem_cons_of_mem _ hc), ?_⟩
    intro calls hc
    obtain rfl := WorkerPc.saving.inj hc
    exact hw l List.mem_cons_self

theorem Quiet.waitForSent (h : s.Quiet) : s.waitForSent.Quiet := by
  unfold P2pNcclEngine.waitForSent
  split_ifs
  · exact h.endStep
  · exact ⟨h.queued, h.work, fun calls hc => by cases hc⟩

theorem Quiet.takeItem (h : s.Quiet) : s.takeItem.Quiet := by
  unfold P2pNcclEngine.takeItem
  split
  · exact ⟨h.queued, h.work, h.worker⟩
  · dsimp only
    split_ifs <;> exact ⟨h.queued, h.work, h.worker⟩

theorem Quiet.next {p : Party} (h : s.Quiet) (hs : s.next p = .ok t) : t.Quiet := by
  rcases next_cases hs with ⟨c, calls, hpc, rfl⟩ | ⟨-, rfl⟩ | ⟨-, -, rfl⟩ | ⟨-, -, rfl⟩ | ⟨-, -, rfl⟩
  · have hcalls := h.worker _ hpc
    rw [sendTensor, hcalls c List.mem_cons_self]
    refine ⟨h.queued, h.work, fun l hl => ?_⟩
    obtain rfl := WorkerPc.saving.inj hl
    exact fun c hc => hcalls c (List.mem_cons_of_mem _ hc)
  · exact h.waitForSent
  · exact h.takeItem
  · exact ⟨h.queued, h.work, h.worker⟩
  · exact ⟨h.queued, h.work, h.worker⟩

theorem quiet_create (hnone : ∀ calls ∈ work, ∀ c ∈ calls, c.remoteAddress = none) :
    (create work).Quiet := by
  cases work with
  | nil =>
    constructor
    · rfl
    · exact fun calls hc => absurd hc List.not_mem_nil
    · exact fun calls hc => nomatch hc
  | cons l rest =>
    refine ⟨rfl, fun calls hc => hnone calls (List.mem_cons_of_mem _ hc), fun calls hc => ?_⟩
    obtain rfl := WorkerPc.saving.inj hc
    exact hnone l List.mem_cons_self

/-- **The sends are in time in every interleaving exactly if nothing is queued.** -/
theorem sentInTime_iff (work : List (List SendCall)) :
    SentInTime work ↔ ∀ calls ∈ work, ∀ c ∈ calls, c.remoteAddress = none := by
  constructor
  · intro hall calls hcalls c hc
    by_contra haddress
    cases work with
    | nil => cases hcalls
    | cons l rest =>
      have hqueued : c ∈ l ∨ ∃ calls ∈ rest, c ∈ calls := by
        rcases List.mem_cons.mp hcalls with rfl | hcalls
        · exact .inl hc
        · exact .inr ⟨calls, hcalls, hc⟩
      exact not_sentInTime .start rfl rfl rfl rfl rfl hqueued haddress hall
  · intro hnone s hs
    have hquiet : s.Quiet := hs.invariant (quiet_create hnone) fun _ _ _ h _ hst => h.next hst
    -- what has been read has been queued
    have hread : ∀ u, (p2pSends work).Reach (fun _ _ => True) u → u.Quiet → u.extracted = [] :=
      fun u hu hq => by
        have hc := conserved_of_reach hu
        unfold Conserved at hc
        rw [hq.queued, List.append_eq_nil_iff, List.append_eq_nil_iff, List.map_eq_nil_iff] at hc
        exact hc.1.1
    refine ⟨fun t ht _ => ?_, fun e he => ?_⟩
    · have htquiet := hquiet.next ht
      rw [hread t (hs.next (i := .worker) trivial ht) htquiet, htquiet.queued]
      rfl
    · rw [hread s hs hquiet] at he
      cases he

/-- One tensor is saved, and the next step begins before it is read. -/
def lateRead : List Party := [.worker, .sendThread, .worker, .sendThread]

/-- **The tensor of the first step is read in the second.** -/
theorem lateRead_afterStep :
    let work : List (List SendCall) :=
      [[{ tensorId := "0#layer", remoteAddress := some "decode", slotMapping := [0]
          isMla := false }], []]
    (∃ s, (p2pSends work).Reach (fun _ _ => True) s ∧ ∃ e ∈ s.extracted, e.2 ≠ e.1.step) ∧
      ¬ SentInTime work := by
  intro work
  obtain ⟨s, hreach, hlate⟩ := (p2pSends work).exists_reach (fun _ _ => True) lateRead
    (fun s => ∃ e ∈ s.extracted, e.2 ≠ e.1.step) (by decide +kernel)
  refine ⟨⟨s, hreach, hlate⟩, fun hall => ?_⟩
  obtain ⟨e, he, hne⟩ := hlate
  exact hne ((hall s hreach).2 e he)

/-! ## Where nobody can go on -/

/-- The items of steps, the first of which has the number `n`. -/
def itemsFrom (n : Nat) : List (List SendCall) → List SendQueueItem
  | [] => []
  | calls :: work => itemsOf n calls ++ itemsFrom (n + 1) work

/-- The items that are still to be queued. -/
def left (s : P2pNcclEngine) : List SendQueueItem :=
  match s.worker with
  | .saving calls => itemsOf s.step calls ++ itemsFrom (s.step + 1) s.work
  | _ => itemsFrom (s.step + 1) s.work

/-- **Who waits, waits for the queue**: the worker while there are items, the send thread while there
are none. One condition variable for both does no harm, as at most one of them waits. -/
structure Waits (work : List (List SendCall)) (s : P2pNcclEngine) : Prop where
  worker : .worker ∈ s.waiters → s.worker = .waiting ∧ s.sendQueue ≠ []
  sendThread : .sendThread ∈ s.waiters → s.sendThread = .waiting ∧ s.sendQueue = []
  nodup : s.waiters.Nodup
  finished : s.worker = .finished → s.work = []
  calls : s.queued ++ s.left = itemsFrom 0 work

/-- `notify` wakes the other party, if it waits. -/
theorem tail_waiters {l : List Party} {p : Party} (hn : l.Nodup) (hp : p ∉ l) : l.tail = [] := by
  match l, hn with
  | [], _ | [_], _ => rfl
  | a :: b :: l, hn => cases a <;> cases b <;> cases p <;> simp at hn hp

theorem Waits.sendTensor (h : s.Waits work) {c : SendCall} (hpc : s.worker = .saving (c :: calls)) :
    Waits work { s.sendTensor c with worker := .saving calls } := by
  have hnot : .worker ∉ s.waiters := fun hw => by simpa [hpc] using (h.worker hw).1
  have hcalls := h.calls
  unfold left at hcalls
  rw [hpc] at hcalls
  unfold P2pNcclEngine.sendTensor
  cases hc : c.remoteAddress with
  | none =>
    refine ⟨fun hw => absurd hw hnot, h.sendThread, h.nodup, nofun, ?_⟩
    simpa [left, itemsOf, hc] using hcalls
  | some remoteAddress =>
    have htail := tail_waiters h.nodup hnot
    refine ⟨?_, ?_, ?_, nofun, ?_⟩
    all_goals simp only [notify, htail, List.not_mem_nil, false_implies, List.nodup_nil]
    simpa [left, itemsOf, hc] using hcalls

theorem Waits.waitForSent (h : s.Waits work)
    (hpc : s.worker = .saving [] ∨ s.worker = .waiting ∧ .worker ∉ s.waiters) :
    s.waitForSent.Waits work := by
  have hnot : .worker ∉ s.waiters := fun hw =>
    hpc.elim (fun hs => by simpa [hs] using (h.worker hw).1) fun hs => hs.2 hw
  have hcalls : s.queued ++ itemsFrom (s.step + 1) s.work = itemsFrom 0 work := by
    rw [← h.calls, left]
    rcases hpc with hpc | ⟨hpc, -⟩ <;> simp [hpc, itemsOf]
  unfold P2pNcclEngine.waitForSent
  split_ifs with hq
  · unfold endStep
    cases hwork : s.work with
    | nil =>
      rw [hwork] at hcalls
      exact ⟨fun hw => absurd hw hnot, h.sendThread, h.nodup, fun _ => rfl,
        by simpa [left, hwork, itemsFrom] using hcalls⟩
    | cons l rest =>
      rw [hwork] at hcalls
      exact ⟨fun hw => absurd hw hnot, h.sendThread, h.nodup, nofun, hcalls⟩
  · refine ⟨fun _ => ⟨rfl, hq⟩, fun hw => ?_, ?_, nofun, hcalls⟩
    · exact absurd (h.sendThread (by simpa using hw)).2 hq
    · exact h.nodup.append (List.nodup_singleton _) (by simpa using hnot)

theorem Waits.takeItem (h : s.Waits work)
    (hpc : s.sendThread = .looping ∨ .sendThread ∉ s.waiters) : s.takeItem.Waits work := by
  have hnot : .sendThread ∉ s.waiters := fun hw =>
    hpc.elim (fun hs => by simpa [hs] using (h.sendThread hw).1) fun hs => hs hw
  unfold P2pNcclEngine.takeItem
  split
  next hq =>
    refine ⟨fun hw => ?_, fun _ => ⟨rfl, hq⟩, ?_, h.finished, h.calls⟩
    · exact absurd hq (h.worker (by simpa using hw)).2
    · exact h.nodup.append (List.nodup_singleton _) (by simpa using hnot)
  next item sendQueue hq =>
    dsimp only
    split_ifs with hlast
    · have htail := tail_waiters h.nodup hnot
      refine ⟨?_, ?_, ?_, h.finished, h.calls⟩
      all_goals simp only [notify, htail, List.not_mem_nil, false_implies, List.nodup_nil]
    · exact ⟨fun hw => ⟨(h.worker hw).1, hlast⟩, fun hw => absurd hw hnot, h.nodup, h.finished,
        h.calls⟩

theorem Waits.next {p : Party} (h : s.Waits work) (hs : s.next p = .ok t) : t.Waits work := by
  rcases next_cases hs with ⟨c, calls, hpc, rfl⟩ | ⟨hpc, rfl⟩ | ⟨-, hpc, rfl⟩ | ⟨item, hpc, rfl⟩ |
    ⟨item, hpc, rfl⟩
  · exact h.sendTensor hpc
  · exact h.waitForSent hpc
  · exact h.takeItem hpc
  all_goals exact ⟨h.worker, fun hw => (nomatch hpc.symm.trans (h.sendThread hw).1), h.nodup,
    h.finished, h.calls⟩

/-- **A run that cannot go on has ended**: all steps have ended, and the items of all calls have been
read, in the order of the calls. No wake-up is lost. -/
theorem drained_of_stuck (h : (p2pSends work).Reach (fun _ _ => True) s)
    (hstuck : ∀ p t, s.next p ≠ .ok t) :
    s.worker = .finished ∧ s.extracted.map Prod.fst = itemsFrom 0 work := by
  have hwaits : s.Waits work := by
    refine h.invariant ?_ fun _ _ _ hs _ hst => hs.next hst
    cases work with
    | nil => exact ⟨nofun, nofun, List.nodup_nil, fun _ => rfl, rfl⟩
    | cons => exact ⟨nofun, nofun, List.nodup_nil, nofun, rfl⟩
  have hthread : .sendThread ∈ s.waiters := by
    by_contra hnot
    have hgo : ∃ t, s.next .sendThread = .ok t := by
      unfold P2pNcclEngine.next stepSendThread
      cases s.sendThread <;> simp [hnot]
    exact hstuck _ _ hgo.choose_spec
  obtain ⟨hpc, hq⟩ := hwaits.sendThread hthread
  have hworker : s.worker = .finished := by
    by_contra hne
    have hnot : .worker ∉ s.waiters := fun hw => (hwaits.worker hw).2 hq
    have hgo : ∃ t, s.next .worker = .ok t := by
      unfold P2pNcclEngine.next stepWorker
      rcases hw : s.worker with (_ | _) | _ | _ <;> simp_all
    exact hstuck _ _ hgo.choose_spec
  refine ⟨hworker, ?_⟩
  have hcalls := hwaits.calls
  have hread := conserved_of_reach h
  unfold Conserved taken at hread
  unfold left at hcalls
  rw [hpc, hq, append_nil, append_nil] at hread
  rw [hworker, hwaits.finished hworker, itemsFrom, append_nil] at hcalls
  exact hread.trans hcalls

/-- A bound on the steps that are left. -/
def stepsLeft (s : P2pNcclEngine) : Nat :=
  6 * s.work.flatten.length + s.work.length + 4 * s.sendQueue.length +
    (match s.worker with
    | .saving calls => 6 * calls.length + 1
    | .waiting => if .worker ∈ s.waiters then 0 else 1
    | .finished => 0) +
    match s.sendThread with
    | .sending _ => 3
    | .transferring _ => 2
    | .looping => 1
    | .waiting => if .sendThread ∈ s.waiters then 0 else 1

/-- What is done with an item pays for the wake-up. -/
theorem stepsLeft_lt {p : Party} (hs : s.next p = .ok t) : t.stepsLeft < s.stepsLeft := by
  obtain ⟨q, l, worker, thread, rest⟩ := s
  rcases next_cases hs with ⟨c, calls, rfl, rfl⟩ | ⟨hpc, rfl⟩ | ⟨-, hpc, rfl⟩ | ⟨item, rfl, rfl⟩ |
    ⟨item, rfl, rfl⟩
  · rcases hc : c.remoteAddress with _ | a
    · simp [sendTensor, hc, stepsLeft]
    · cases l <;> simp [sendTensor, hc, stepsLeft, notify] <;> grind
  · rcases q with _ | ⟨x, q⟩
    · rcases rest with _ | ⟨r, rest⟩ <;> simp [waitForSent, endStep, stepsLeft] <;> grind
    · simp [waitForSent, stepsLeft]
      grind
  · rcases q with _ | ⟨x, _ | ⟨y, q⟩⟩
    · simp [takeItem, stepsLeft]
      grind
    · cases l <;> simp [takeItem, stepsLeft, notify] <;> grind
    · simp [takeItem, stepsLeft]
      grind
  · exact Nat.add_lt_add_left (Nat.lt_succ_self 2) _
  · exact Nat.add_lt_add_left (Nat.lt_succ_self 1) _

/-- **Every run ends.** -/
theorem run_length_le {ps : List Party}
    (h : ((p2pSends work).execIf (fun _ _ => True) ps (create work)).isSome) :
    ps.length ≤ 6 * work.flatten.length + work.length + 1 := by
  obtain ⟨s, hs⟩ := Option.isSome_iff_exists.mp h
  have hle := Machine.length_le_of_execIf (fun _ _ _ => stepsLeft_lt) hs
  have hinit : (create work).stepsLeft = 6 * work.flatten.length + work.length + 1 := by
    cases work <;> simp [create, stepsLeft]
    omega
  omega

/-- A tensor is saved and read. -/
def oneTensor : List Party :=
  [.sendThread, .worker, .worker, .sendThread, .sendThread, .sendThread, .sendThread, .worker]

theorem length_le_oneTensor : oneTensor.length ≤ 8 :=
  @run_length_le [[⟨"0#layer", some "decode", [0], false⟩]] oneTensor (by decide +kernel)

/-- A tensor is saved and read, and then nobody can go on. -/
theorem drained_oneTensor :
    let work : List (List SendCall) := [[⟨"0#layer", some "decode", [0], false⟩]]
    ∃ s : P2pNcclEngine, s.extracted ≠ [] ∧ s.extracted.map Prod.fst = itemsFrom 0 work := by
  intro work
  obtain ⟨s, hreach, hread, hworker, hthread⟩ := (p2pSends work).exists_reach (fun _ _ => True)
    oneTensor (fun s => s.extracted ≠ [] ∧ s.next .worker = .error .finished ∧
      s.next .sendThread = .error .waiting) (by decide +kernel)
  refine ⟨s, hread, (drained_of_stuck hreach fun p t => ?_).2⟩
  cases p with
  | worker => rw [hworker]; nofun
  | sendThread => rw [hthread]; nofun

end P2pNcclEngine

end InferenceServer.KVTransfer
