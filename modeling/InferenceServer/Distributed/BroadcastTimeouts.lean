import InferenceServer.Distributed.BroadcastSafety
import InferenceServer.Lib.Outcome

/-!
# Timeouts of readers

`dequeue` can be called with a timeout, and called again after a `TimeoutError`. A local reader can time
out while it polls the metadata of its next chunk: then it has changed nothing. It can also time out when
it waits on its socket for a large object: then the chunk that holds the mark has already been marked as
read. The next call goes on with the next chunk, and the large object stays on the socket, where the next
large object is looked for.

So nothing is lost in the runs in which no reader times out at its socket. The remote readers, which only
have a socket, never lose anything.
-/

namespace InferenceServer.Distributed

open Outcome

/-- A message queue with `k` remote readers behind `n` local ones. -/
structure TimedQueue (n k : Nat) (α : Type) where
  queue : MessageQueue n α := {}
  remote : Channels (Fin k) α := .empty
  /-- The object of `enqueue` that has not been sent to the remote readers. -/
  pending : Option α := none
  /-- History: the objects that `dequeue` has returned to the remote readers. -/
  remoteDequeued : Fin k → List α := fun _ => []

/-- A process starts a call or makes a step, or a call of a reader times out. -/
inductive TimedOp (n k : Nat) (α : Type) where
  | enqueue (obj : α)
  | write
  | sendRemote
  | dequeue (r : Fin n)
  | read (r : Fin n)
  | timeout (r : Fin n)
  | recvRemote (i : Fin k)
  | timeoutRemote (i : Fin k)
  deriving DecidableEq, Repr

namespace TimedQueue

variable {n k : Nat} {α : Type} (maxChunks : Nat) (maxChunkBytes : Nat) (size : α → Nat)

/-- The local part makes a step. -/
def inner (s : TimedQueue n k α) (op : QueueOp n α) : Except QueueError (TimedQueue n k α) := do
  let queue ← s.queue.apply maxChunks maxChunkBytes size op
  return { s with queue }

/-- `raise TimeoutError` in `acquire_read`, or in `recv`. A message may still be on its way when the poll
of the socket ends. -/
def timeout (s : TimedQueue n k α) (r : Fin n) : Except QueueError (TimedQueue n k α) :=
  match s.queue.reader r with
  | .checkWritten readFlag =>
    if s.queue.writtenFlag (s.queue.readerIdx r) = false ∨ readFlag = true then
      .ok { s with queue := s.queue.goTo r .idle }
    else .error .blocked
  | .recv => .ok { s with queue := s.queue.goTo r .idle }
  | _ => .error .blocked

/-- The step function. -/
def apply (s : TimedQueue n k α) : TimedOp n k α → Except QueueError (TimedQueue n k α)
  | .enqueue obj =>
    match s.pending with
    | none => do
      let s ← s.inner maxChunks maxChunkBytes size (.enqueue obj)
      return { s with pending := some obj }
    | some _ => .error .blocked
  | .write => s.inner maxChunks maxChunkBytes size .write
  -- `enqueue` ends with the remote readers
  | .sendRemote =>
    match s.queue.writer, s.pending with
    | .idle, some obj => .ok { s with remote := s.remote.broadcast obj, pending := none }
    | _, _ => .error .blocked
  | .dequeue r => s.inner maxChunks maxChunkBytes size (.dequeue r)
  | .read r => s.inner maxChunks maxChunkBytes size (.read r)
  | .timeout r => s.timeout r
  | .recvRemote i =>
    match s.remote.receive i with
    | none => .error .blocked
    | some (obj, remote) =>
      .ok { s with
        remote
        remoteDequeued := Function.update s.remoteDequeued i (s.remoteDequeued i ++ [obj]) }
  | .timeoutRemote _ => .ok s

end TimedQueue

/-- All interleavings, with timeouts of the readers. -/
def timedQueueMachine (n k : Nat) {α : Type} (maxChunks maxChunkBytes : Nat) (size : α → Nat) :
    Machine (TimedQueue n k α) (TimedOp n k α) QueueError where
  init := {}
  step := TimedQueue.apply maxChunks maxChunkBytes size

variable {n k : Nat} {α : Type} {maxChunks maxChunkBytes : Nat} {size : α → Nat}

/-- **The condition**: no reader times out at its socket, behind the chunk of a large object. -/
def NoSocketTimeout (s : TimedQueue n k α) : TimedOp n k α → Prop
  | .timeout r => s.queue.reader r ≠ .recv
  | _ => True

/-- **Nothing is lost**: each reader has got a prefix of what was sent, and a local reader between two
calls has got the objects of all chunks that it has marked as read. -/
structure NothingLost (s : TimedQueue n k α) : Prop where
  isPrefix : ∀ r, s.queue.dequeued r <+: s.queue.enqueued
  idle : ∀ r, s.queue.reader r = .idle →
    s.queue.dequeued r = s.queue.enqueued.take (s.queue.finished r)
  remote : ∀ i, s.remoteDequeued i <+: s.queue.enqueued

/-- What holds in the runs without a timeout at a socket. -/
structure TimedInvariant (maxChunks maxChunkBytes : Nat) (size : α → Nat) (s : TimedQueue n k α) :
    Prop where
  queue : Invariant maxChunks maxChunkBytes size s.queue
  remote : ∃ l, s.queue.enqueued = l ++ s.pending.toList ∧ ∀ i, s.remoteDequeued i ++ s.remote i = l

variable {s s' : TimedQueue n k α} {r : Fin n}

theorem TimedInvariant.nothingLost (h : TimedInvariant maxChunks maxChunkBytes size s) :
    NothingLost s where
  isPrefix r := (h.queue.reader r).isPrefix
  idle r hr := by
    have hknows := h.queue.reader r
    rw [hr] at hknows
    exact hknows
  remote i := by
    obtain ⟨l, henq, hl⟩ := h.remote
    rw [henq, ← hl i, List.append_assoc]
    exact List.prefix_append _ _

/-- A step of the writer does not change what was sent. -/
theorem MessageQueue.enqueued_write {q q' : MessageQueue n α}
    (h : q.write maxChunks maxChunkBytes size = .ok q') : q'.enqueued = q.enqueued := by
  rw [MessageQueue.write] at h
  cases hpc : q.writer <;> rw [hpc] at h <;> dsimp only at h
  case idle => cases h
  case countReads | checkWritten | clearReads =>
    split at h <;> exact Except.ok.inj h ▸ rfl
  case clearWritten | writeChunk | setWritten | send => exact Except.ok.inj h ▸ rfl

/-- Neither does a step of a reader. -/
theorem MessageQueue.enqueued_read {q q' : MessageQueue n α} (h : q.read maxChunks r = .ok q') :
    q'.enqueued = q.enqueued := by
  rw [MessageQueue.read] at h
  cases hpc : q.reader r <;> rw [hpc] at h
  case idle => cases h
  case checkRead =>
    exact Except.ok.inj h ▸ rfl
  case checkWritten =>
    dsimp only at h
    split at h <;> exact Except.ok.inj h ▸ rfl
  case readChunk =>
    dsimp only at h
    split at h
    · exact Except.ok.inj h ▸ rfl
    · exact Except.ok.inj h ▸ rfl
    · cases h
  case setRead loaded =>
    cases loaded with
    | none => exact Except.ok.inj h ▸ rfl
    | some obj => exact Except.ok.inj h ▸ rfl
  case recv =>
    cases hrecv : q.sockets.receive r with
    | none =>
      rw [hrecv] at h
      cases h
    | some m =>
      rw [hrecv] at h
      exact Except.ok.inj h ▸ rfl

variable (h : TimedInvariant maxChunks maxChunkBytes size s)

include h

/-- A step of the local part in which nothing is sent. -/
theorem TimedInvariant.inner (hm : 0 < maxChunks) {op : QueueOp n α} {q : MessageQueue n α}
    (hq : s.queue.apply maxChunks maxChunkBytes size op = .ok q)
    (henq : q.enqueued = s.queue.enqueued) :
    TimedInvariant maxChunks maxChunkBytes size { s with queue := q } := by
  obtain ⟨l, hl, hremote⟩ := h.remote
  exact ⟨h.queue.apply hm hq, l, henq.trans hl, hremote⟩

theorem TimedInvariant.timeout (hsocket : s.queue.reader r ≠ .recv) (hs : s.timeout r = .ok s') :
    TimedInvariant maxChunks maxChunkBytes size s' := by
  have hknows := h.queue.reader r
  rw [TimedQueue.timeout] at hs
  cases hpc : s.queue.reader r <;> rw [hpc] at hs hknows <;> dsimp only at hs
  case checkWritten readFlag =>
    split at hs
    · -- the reader has marked nothing
      cases hs
      have hidle : s.queue.ReaderKnows maxChunkBytes size r .idle := by
        cases readFlag with
        | true => exact hknows
        | false => exact hknows.1
      exact ⟨h.queue.goTo hidle, h.remote⟩
    · exact nomatch hs
  case recv => exact absurd hpc hsocket
  all_goals exact nomatch hs

theorem TimedInvariant.apply (hm : 0 < maxChunks) {op : TimedOp n k α} (hop : NoSocketTimeout s op)
    (hs : s.apply maxChunks maxChunkBytes size op = .ok s') :
    TimedInvariant maxChunks maxChunkBytes size s' := by
  cases op with
  | enqueue obj =>
    rw [TimedQueue.apply] at hs
    cases hpending : s.pending with
    | some obj' =>
      rw [hpending] at hs
      cases hs
    | none =>
      rw [hpending] at hs
      obtain ⟨s₁, hs₁, hs⟩ := bind_eq_ok.mp hs
      obtain ⟨q, hq, hs₁⟩ := bind_eq_ok.mp hs₁
      cases hs₁
      cases hs
      obtain ⟨l, hl, hremote⟩ := h.remote
      refine ⟨h.queue.apply hm hq, l, ?_, hremote⟩
      rw [hpending] at hl
      rw [MessageQueue.apply] at hq
      cases hwriter : s.queue.writer <;> rw [hwriter] at hq
      case idle =>
        cases hq
        exact congrArg (· ++ [obj]) (hl.trans (List.append_nil l))
      all_goals cases hq
  | write =>
    obtain ⟨q, hq, hs⟩ := bind_eq_ok.mp hs
    cases hs
    exact h.inner hm hq (MessageQueue.enqueued_write hq)
  | dequeue r =>
    obtain ⟨q, hq, hs⟩ := bind_eq_ok.mp hs
    cases hs
    refine h.inner hm hq ?_
    rw [MessageQueue.apply] at hq
    split at hq
    · exact Except.ok.inj hq ▸ rfl
    · cases hq
  | read r =>
    obtain ⟨q, hq, hs⟩ := bind_eq_ok.mp hs
    cases hs
    exact h.inner hm hq (MessageQueue.enqueued_read hq)
  | timeout r => exact h.timeout hop hs
  | timeoutRemote i =>
    cases hs
    exact h
  | sendRemote =>
    rw [TimedQueue.apply] at hs
    split at hs
    · rename_i obj hwriter hpending
      cases hs
      obtain ⟨l, hl, hremote⟩ := h.remote
      rw [hpending] at hl
      refine ⟨h.queue, l ++ [obj], hl.trans (List.append_nil _).symm, fun i => ?_⟩
      change s.remoteDequeued i ++ (s.remote i ++ [obj]) = _
      rw [← List.append_assoc, hremote]
    · cases hs
  | recvRemote i =>
    rw [TimedQueue.apply] at hs
    split at hs
    · cases hs
    · rename_i obj remote hrecv
      cases hs
      obtain ⟨l, hl, hremote⟩ := h.remote
      refine ⟨h.queue, l, hl, fun j => ?_⟩
      obtain ⟨rest, hfront, rfl⟩ := Channels.receive_eq hrecv
      by_cases hj : j = i
      · subst hj
        simp only [Function.update_self]
        rw [List.append_assoc, ← hremote j, hfront]
        rfl
      · simp only [Function.update_of_ne hj]
        exact hremote j

omit h

/-- **A timed-out dequeue loses nothing**, local or remote, if no reader times out at its socket; and a
timeout keeps this exactly if it is not one at the socket. -/
theorem timed_out_dequeue_loses_nothing {n k : Nat} {α : Type} {maxChunks maxChunkBytes : Nat}
    {size : α → Nat} (hm : 0 < maxChunks) {s : TimedQueue n k α}
    (h : (timedQueueMachine n k maxChunks maxChunkBytes size).Reach NoSocketTimeout s) :
    NothingLost s ∧ ∀ r s', s.timeout r = .ok s' → (NothingLost s' ↔ s.queue.reader r ≠ .recv) := by
  have hinv : TimedInvariant maxChunks maxChunkBytes size s := by
    refine h.invariant ⟨invariant_init, [], rfl, fun i => rfl⟩ ?_
    exact fun _ _ _ hI hok hstep => hI.apply hm hok hstep
  refine ⟨hinv.nothingLost, fun r s' hs => ⟨fun hlost hsocket => ?_, fun hsocket => ?_⟩⟩
  · -- the object behind the mark has not been returned, but its chunk is finished
    have hknows := hinv.queue.reader r
    rw [TimedQueue.timeout, hsocket] at hs
    obtain rfl := Except.ok.inj hs
    rw [hsocket] at hknows
    obtain ⟨j, obj, hfinished, hdequeued, hobj, -⟩ := hknows
    have hidle := hlost.idle r (by simp [MessageQueue.goTo])
    change s.queue.dequeued r = s.queue.enqueued.take (s.queue.finished r) at hidle
    have hlt : j < s.queue.enqueued.length := (List.getElem?_eq_some_iff.mp hobj).1
    have hlen := congrArg List.length (hdequeued.symm.trans hidle)
    rw [hfinished, List.length_take, List.length_take] at hlen
    omega
  · exact (hinv.timeout hsocket hs).nothingLost

/-! ## A large object that is late -/

/-- A reader polls a chunk that is not written, and times out; then it gets the object. -/
def retryRun : List (TimedOp 1 1 Nat) :=
  .dequeue 0 :: List.replicate 1 (.read 0) ++ .timeout 0 ::
    .enqueue 5 :: List.replicate 8 .write ++ .sendRemote ::
    .dequeue 0 :: List.replicate 4 (.read 0) ++ [.recvRemote 0]

instance (s : TimedQueue n k Nat) (op : TimedOp n k Nat) : Decidable (NoSocketTimeout s op) := by
  cases op <;> unfold NoSocketTimeout <;> infer_instance

theorem timed_out_dequeue_loses_nothing_retryRun :
    ∃ s, (timedQueueMachine 1 1 2 10 id).Reach NoSocketTimeout s ∧ s.queue.enqueued = [5] ∧
      s.queue.dequeued 0 = [5] ∧ NothingLost s := by
  obtain ⟨s, hreach, henq, hdeq⟩ := (timedQueueMachine 1 1 2 10 id).exists_reach NoSocketTimeout
    retryRun (fun s => s.queue.enqueued = [5] ∧ s.queue.dequeued 0 = [5]) (by decide +kernel)
  exact ⟨s, hreach, henq, hdeq, (timed_out_dequeue_loses_nothing (by decide) hreach).1⟩

/-- A reader times out at its socket before the large object is there, and calls `dequeue` again: it gets
the small object behind it. -/
def lateRun : List (TimedOp 1 0 Nat) :=
  .enqueue 20 :: List.replicate 8 .write ++ .dequeue 0 :: List.replicate 4 (.read 0) ++
    .timeout 0 :: .write :: .sendRemote :: .enqueue 5 :: List.replicate 8 .write ++
    .dequeue 0 :: List.replicate 4 (.read 0)

theorem not_timed_out_dequeue_loses_nothing :
    ∃ s, (timedQueueMachine 1 0 2 10 id).Reach (fun _ _ => True) s ∧ s.queue.enqueued = [20, 5] ∧
      s.queue.dequeued 0 = [5] ∧ ¬ s.queue.dequeued 0 <+: s.queue.enqueued := by
  obtain ⟨s, hreach, henq, hdeq⟩ := (timedQueueMachine 1 0 2 10 id).exists_reach (fun _ _ => True)
    lateRun (fun s => s.queue.enqueued = [20, 5] ∧ s.queue.dequeued 0 = [5]) (by decide +kernel)
  refine ⟨s, hreach, henq, hdeq, ?_⟩
  rw [henq, hdeq]
  decide

end InferenceServer.Distributed
