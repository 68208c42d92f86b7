import InferenceServer.KVTransfer.TransferCounts

/-!
# A transfer is reported finished once

The scheduler sees a request in `finished_sending` once, with the last of the reports that are made of
it on all workers, and frees its blocks then; an asynchronous load is seen in `finished_recving` once,
with the last report of its connector.

This needs the count of the connectors to be on the workers before the first report. A step that is
scheduled and then dropped takes the count with it, since the scheduler forgets a count when it hands it
over; and a report in a step that was scheduled before the request finished comes too early. Both
countdowns are kept by request id only. So the scheduler must not ask the connectors a second time when a
finished request is aborted, and an id may be used again only when nothing is left of its last use.

One request is followed at a time: `TransferView` is what the system keeps of one id, and a step
changes the views of the other ids only where it executes or schedules.

## Main results

* `TransferView.Saves.execute`, `TransferView.Loads.execute`, `TransferSystem.Invariant.execute`,
  `reportedOnce_of_reach`
-/

namespace InferenceServer.KVTransfer

open Outcome
open List (finRange length_append length_nil mem_cons_self mem_map)
open Prod (fst snd)
open Finset (mem_filter mem_union mem_univ univ)
open Bool (noConfusion not_eq_true)

/-! ## What the scheduler should see -/

section Statement

variable {P : Type} {n : Nat}

/-- Every connector that saves the request has reported it on every worker. -/
def TransferHistory.AllSent (h : TransferHistory n) (id : ReqId) : Prop :=
  ∀ w, ∀ c ∈ h.savers id, c ∈ h.sent id w

/-- Every load of the request has been reported on every worker. -/
def TransferHistory.AllReceived (h : TransferHistory n) (id : ReqId) : Prop :=
  ∀ w, h.received id w = h.loads id

instance (h : TransferHistory n) (id : ReqId) : Decidable (h.AllSent id) :=
  inferInstanceAs (Decidable (∀ w, ∀ c ∈ h.savers id, c ∈ h.sent id w))

instance (h : TransferHistory n) (id : ReqId) : Decidable (h.AllReceived id) :=
  inferInstanceAs (Decidable (∀ w, h.received id w = h.loads id))

/-- The scheduler sees a request whose blocks are kept once, when all reports are made, and keeps the
blocks until then. It sees every load once, when all reports of it are made. -/
structure ReportedOnce (s : TransferSystem n) : Prop where
  sending : ∀ id, s.history.savers id ≠ [] →
    s.history.sendingSeen id = if s.history.AllSent id then 1 else 0
  kept : ∀ id, s.history.savers id ≠ [] → ¬ s.history.AllSent id →
    s.scheduler.requests.get? id =
      some { blockIds := s.history.blocksToSend id, finished := true }
  freed : ∀ id, s.history.savers id ≠ [] → s.history.AllSent id →
    s.scheduler.requests.get? id = none
  recving : ∀ id, s.history.recvingSeen id =
    if s.history.AllReceived id then s.history.loads id else s.history.loads id - 1

/-- A connector that saves a request reports it once on each worker, after it finished; the one that
loads a request reports it once on each worker for each load. -/
def TransferOp.Fair (s : TransferSystem n) : TransferOp P n → Prop
  | .execute reports =>
    (∀ w, ∀ e ∈ (reports w).zipIdx, ∀ id ∈ e.1.sending,
      e.2 ∈ s.history.savers id ∧ e.2 ∉ s.history.sent id w) ∧
    ∀ w, ∀ e ∈ (reports w).zipIdx, ∀ id ∈ e.1.recving,
      s.history.loader id = some e.2 ∧ s.history.received id w < s.history.loads id
  | _ => True

/-- Nothing is left of the last use of an id. -/
def TransferSystem.Unused (s : TransferSystem n) (id : ReqId) : Prop :=
  id ∉ s.scheduler.requests ∧ id ∉ s.scheduler.finishedRecvingKvReqIds ∧
    s.history.recvingSeen id = s.history.loads id

/-- An id is used again only when nothing is left of its last use; a finished request is not finished
again; a step that carries counts is not dropped; and a request that several connectors save is reported
only in steps scheduled after it finished. -/
def TransferOp.Orderly (batchQueue : Bool) (s : TransferSystem n) : TransferOp P n → Prop
  | .addRequest id => s.Unused id
  | .freeRequest id _ => ∀ r ∈ s.scheduler.requests.get? id, r.finished = false
  | .schedule totalNumScheduledTokens =>
    s.scheduler.connector.extraAsyncSaves.keys = [] ∨
      ¬ (batchQueue = true ∧ totalNumScheduledTokens = 0)
  | .execute reports => ∀ w, ∀ r ∈ reports w, ∀ id ∈ r.sending,
      1 < (s.history.savers id).length → s.history.finishedAt id ≤ s.history.executed
  | _ => True

instance (s : TransferSystem n) (op : TransferOp P n) : Decidable (op.Fair s) := by
  cases op <;> unfold TransferOp.Fair <;> infer_instance

instance (s : TransferSystem n) (id : ReqId) : Decidable (s.Unused id) :=
  inferInstanceAs (Decidable (_ ∧ _ ∧ _))

instance (batchQueue : Bool) (s : TransferSystem n) (op : TransferOp P n) :
    Decidable (op.Orderly batchQueue s) := by
  cases op <;> unfold TransferOp.Orderly <;> infer_instance

end Statement

/-! ## One request -/

/-- What the system keeps of one request, and its history. -/
structure TransferView (n : Nat) where
  request : Option KVRequest
  waiting : Bool
  ready : Bool
  pending : Option Nat
  flying : List (Option Nat)
  extra : Fin n → Option Nat
  sendLeft : Int
  recvLeft : Int
  executed : Nat
  finishedAt : Nat
  savers : List Nat
  blocksToSend : List BlockId
  sent : Fin n → List Nat
  sendingSeen : Nat
  loader : Option Nat
  loads : Nat
  received : Fin n → Nat
  recvingSeen : Nat

variable {P : Type} {n : Nat}

/-- What the system keeps of the request `id`. -/
def TransferSystem.view (s : TransferSystem n) (id : ReqId) : TransferView n where
  request := s.scheduler.requests.get? id
  waiting := decide (id ∈ s.scheduler.waitingForRemoteKvs)
  ready := decide (id ∈ s.scheduler.finishedRecvingKvReqIds)
  pending := s.scheduler.connector.extraAsyncSaves.get? id
  flying := s.inFlight.map fun m => m.extraAsyncSaves.get? id
  extra w := (s.workers w).extraAsyncSaves.get? id
  sendLeft := s.aggregator.sendRemainingCount.getD id n
  recvLeft := s.aggregator.recvRemainingCount.getD id n
  executed := s.history.executed
  finishedAt := s.history.finishedAt id
  savers := s.history.savers id
  blocksToSend := s.history.blocksToSend id
  sent := s.history.sent id
  sendingSeen := s.history.sendingSeen id
  loader := s.history.loader id
  loads := s.history.loads id
  received := s.history.received id
  recvingSeen := s.history.recvingSeen id

namespace TransferView

/-- The workers on which all connectors have reported the request. -/
def sentWorkers (v : TransferView n) : Finset (Fin n) :=
  Finset.univ.filter fun w => v.savers ≠ [] ∧ (v.sent w).length = v.savers.length

/-- The workers on which the load that is under way has been reported. -/
def receivedWorkers (v : TransferView n) : Finset (Fin n) :=
  Finset.univ.filter fun w => v.received w = v.recvingSeen + 1

/-- The count of the connectors is where the steps have brought it: at the scheduler, in the first step
that was scheduled after the request finished, or on the workers. -/
structure Saves (v : TransferView n) : Prop where
  savers_nodup : v.savers.Nodup
  sent_nodup : ∀ w, (v.sent w).Nodup
  sent_subset : ∀ w, v.sent w ⊆ v.savers
  finishedAt_le : v.finishedAt ≤ v.executed + v.flying.length
  pending : v.pending =
    if v.finishedAt = v.executed + v.flying.length then extraFor v.savers.length else none
  flying : ∀ (i : Nat) (e : Option Nat), v.flying[i]? = some e →
    e = if v.finishedAt = v.executed + i then extraFor v.savers.length else none
  extra : ∀ w, v.extra w =
    if v.finishedAt < v.executed then extraFor (v.savers.length - (v.sent w).length) else none
  unsent : 1 < v.savers.length → v.executed ≤ v.finishedAt → ∀ w, v.sent w = []
  sendLeft : v.sendLeft = n - if v.sendingSeen = 0 then v.sentWorkers.card else 0
  sendingSeen : v.sendingSeen = if v.sentWorkers = Finset.univ then 1 else 0
  request : v.savers ≠ [] → v.request =
    if v.sendingSeen = 0 then some { blockIds := v.blocksToSend, finished := true } else none

/-- At most one load is under way, and the scheduler does not start another one before it has seen
it. -/
structure Loads (v : TransferView n) : Prop where
  received_le : ∀ w, v.recvingSeen ≤ v.received w ∧ v.received w ≤ v.loads
  loads_le : v.loads ≤ v.recvingSeen + 1
  underway : v.loads = v.recvingSeen + 1 → v.receivedWorkers ≠ Finset.univ
  recvLeft : v.recvLeft = n - v.receivedWorkers.card
  idle : ∀ r, v.request = some r → r.finished = false → v.waiting = false →
    v.loads = v.recvingSeen ∧ v.ready = false
  ready : v.ready = true → v.loads = v.recvingSeen
  waiting : v.waiting = true → ∃ r, v.request = some r ∧ r.finished = false

/-! ## The reports of a step -/

/-- A step is executed: `sent` and `received` are the connectors that report the request on each worker,
and the scheduler sees it or not. -/
def execute (v : TransferView n) (sent received : Fin n → List Nat) (seenSending seenRecving : Bool)
    (sendLeft recvLeft : Int) : TransferView n :=
  { v with
    request := if seenSending then none else v.request
    ready := seenRecving || v.ready
    flying := v.flying.tail
    extra := fun w =>
      extraFor (savesLeft ((v.flying.head?.getD none).or (v.extra w)) - (sent w).length)
    sendLeft, recvLeft
    executed := v.executed + 1
    sent := fun w => v.sent w ++ sent w
    sendingSeen := v.sendingSeen + if seenSending then 1 else 0
    received := fun w => v.received w + (received w).length
    recvingSeen := v.recvingSeen + if seenRecving then 1 else 0 }

/-- The aggregator has a counter `left`, and the workers of `E` report the request: it is seen when
these are the last ones. -/
def Aggregates (left left' : Int) (E : Fin n → Prop) (seen : Bool) : Prop :=
  ∀ done now : Finset (Fin n), (∀ w, w ∈ now ↔ E w) → Disjoint done now → done ≠ Finset.univ →
    left = n - done.card →
    (seen = true ↔ done ∪ now = Finset.univ) ∧
      left' = if done ∪ now = Finset.univ then (n : Int) else n - (done ∪ now).card

namespace Saves

variable {v : TransferView n}

/-- New reports are of connectors that have not reported yet. -/
theorem length_sent_append (h : v.Saves) {w : Fin n} {R : List Nat} (hn : R.Nodup)
    (hR : ∀ c ∈ R, c ∈ v.savers ∧ c ∉ v.sent w) :
    (v.sent w ++ R).Nodup ∧ v.sent w ++ R ⊆ v.savers ∧
      (v.sent w).length + R.length ≤ v.savers.length := by
  have hnodup : (v.sent w ++ R).Nodup :=
    List.nodup_append.mpr ⟨h.sent_nodup w, hn, fun a ha b hb hab => (hR b hb).2 (hab ▸ ha)⟩
  have hsubset : v.sent w ++ R ⊆ v.savers :=
    List.append_subset.mpr ⟨h.sent_subset w, fun c hc => (hR c hc).1⟩
  refine ⟨hnodup, hsubset, ?_⟩
  rw [← length_append]
  exact (List.subperm_of_subset hnodup hsubset).length_le

/-- All connectors have reported if there are as many reports as connectors. -/
theorem sentWorkers_eq_univ_iff (h : v.Saves) (hne : v.savers ≠ []) :
    v.sentWorkers = univ ↔ ∀ w, ∀ c ∈ v.savers, c ∈ v.sent w := by
  simp only [sentWorkers, Finset.filter_eq_self, mem_univ, true_imp_iff]
  refine forall_congr' fun w => ⟨fun ⟨_, hlen⟩ c hc => ?_, fun hall => ⟨hne, ?_⟩⟩
  · have hsub := List.subperm_of_subset (h.sent_nodup w) (h.sent_subset w)
    exact (hsub.perm_of_length_le hlen.ge).mem_iff.mpr hc
  · exact le_antisymm (List.subperm_of_subset (h.sent_nodup w) (h.sent_subset w)).length_le
      (List.subperm_of_subset h.savers_nodup fun c hc => hall c hc).length_le

variable {e : Option Nat} {rest : List (Option Nat)} {sent : Fin n → List Nat}

/-- The entry of a worker after it has bound the metadata of the step. -/
theorem bound (h : v.Saves) (hfly : v.flying = e :: rest) (w : Fin n) :
    e.or (v.extra w) =
      if v.finishedAt ≤ v.executed then extraFor (v.savers.length - (v.sent w).length)
      else none := by
  have he := h.flying 0 e (by rw [hfly]; rfl)
  have hextra := h.extra w
  rw [Nat.add_zero] at he
  rcases Nat.lt_trichotomy v.finishedAt v.executed with hlt | heq | hgt
  · rw [if_neg (Nat.ne_of_lt hlt)] at he
    rw [if_pos hlt] at hextra
    rw [if_pos hlt.le, he, Option.none_or, hextra]
  · -- the count comes with this step, and nothing has been reported
    rw [if_pos heq] at he
    rw [if_neg (by omega)] at hextra
    rw [if_pos heq.le, he, hextra, Option.or_none]
    by_cases hk : 1 < v.savers.length
    · rw [h.unsent hk heq.ge w, length_nil, Nat.sub_zero]
    · rw [extraFor_of_le (by omega), extraFor_of_le (by omega)]
  · rw [if_neg (by omega)] at he
    rw [if_neg (by omega)] at hextra
    rw [if_neg (by omega), he, hextra, Option.none_or]

/-- **What a worker makes of the reports of a step.** It has enough left for them, and reports the
request if they are the last ones. -/
theorem report (h : v.Saves) (hfly : v.flying = e :: rest)
    {w : Fin n} {R : List Nat} (hn : R.Nodup) (hR : ∀ c ∈ R, c ∈ v.savers ∧ c ∉ v.sent w)
    (hord : R ≠ [] → 1 < v.savers.length → v.finishedAt ≤ v.executed) :
    R.length ≤ savesLeft (e.or (v.extra w)) ∧
      (0 < R.length ∧ R.length = savesLeft (e.or (v.extra w)) ↔
        0 < R.length ∧ (v.sent w).length + R.length = v.savers.length) ∧
      extraFor (savesLeft (e.or (v.extra w)) - R.length) =
        if v.finishedAt < v.executed + 1 then
          extraFor (v.savers.length - (v.sent w ++ R).length) else none := by
  obtain ⟨-, -, hlen⟩ := h.length_sent_append hn hR
  rw [h.bound hfly w, length_append]
  by_cases hfin : v.finishedAt ≤ v.executed
  · rw [if_pos hfin, if_pos (by omega), savesLeft_extraFor]
    refine ⟨by omega, by omega, ?_⟩
    by_cases hlast : v.savers.length - (v.sent w).length ≤ 1
    · rw [extraFor_of_le (by omega), extraFor_of_le (by omega)]
    · congr 1
      omega
  · -- the count is not here yet, so only a single connector can report
    rw [if_neg hfin, if_neg (by omega), savesLeft_none]
    have hone : R.length ≤ 1 ∧ (0 < R.length → v.savers.length ≤ 1) := by
      by_cases hne : R = []
      · subst hne
        exact ⟨Nat.zero_le 1, fun h => absurd h (lt_irrefl 0)⟩
      · have hk : ¬ 1 < v.savers.length := fun hk => hfin (hord hne hk)
        exact ⟨by omega, fun _ => by omega⟩
    exact ⟨hone.1, by omega, extraFor_of_le (by omega)⟩

variable [NeZero n]

theorem empty_ne_univ : (∅ : Finset (Fin n)) ≠ univ :=
  Finset.univ_nonempty.ne_empty.symm

/-- The counters of a request with its reports in a step. -/
theorem counts (h : v.Saves) {seen : Bool} {sendLeft : Int} (hfly : v.flying = e :: rest)
    (hn : ∀ w, (sent w).Nodup) (hsent : ∀ w, ∀ c ∈ sent w, c ∈ v.savers ∧ c ∉ v.sent w)
    (hord : ∀ w, sent w ≠ [] → 1 < v.savers.length → v.finishedAt ≤ v.executed)
    (hagg : Aggregates v.sendLeft sendLeft (fun w => 0 < (sent w).length ∧
      (sent w).length = savesLeft (e.or (v.extra w))) seen) {now : Finset (Fin n)}
    (hnow : ∀ w, w ∈ now ↔
      v.savers ≠ [] ∧ (v.sent w).length + (sent w).length = v.savers.length) :
    sendLeft = n - (if now = univ then 0 else now.card : Nat) ∧
      (seen = true ↔ v.sendingSeen = 0 ∧ now = univ) ∧
      (v.sendingSeen = 1 → now = univ) := by
  have hreport := fun w => h.report hfly (hn w) (hsent w) (hord w)
  have hlen := fun w => (h.length_sent_append (hn w) (hsent w)).2.2
  have hseen := h.sendingSeen
  have hleft := h.sendLeft
  by_cases hall : v.sentWorkers = univ
  · -- nothing is left to report
    rw [if_pos hall] at hseen
    rw [hseen, if_neg one_ne_zero] at hleft
    have hnone : ∀ w, (sent w).length = 0 := fun w => by
      have hw : w ∈ v.sentWorkers := hall ▸ mem_univ w
      have hw := (mem_filter.mp hw).2.2
      have := hlen w
      omega
    obtain ⟨h₁, h₂⟩ := hagg ∅ ∅ (fun w => by simp [hnone w]) (Finset.disjoint_empty_left _)
      empty_ne_univ (by rw [hleft]; rfl)
    rw [Finset.empty_union] at h₁ h₂
    rw [if_neg empty_ne_univ] at h₂
    have hsame : now = univ := by
      rw [Finset.eq_univ_iff_forall] at hall ⊢
      intro w
      have hw := (mem_filter.mp (hall w)).2
      exact (hnow w).mpr ⟨hw.1, by rw [hnone w]; exact hw.2⟩
    rw [if_pos hsame, h₂, hseen]
    exact ⟨rfl, iff_of_false (fun h => empty_ne_univ (h₁.mp h)) (fun h => one_ne_zero h.1),
      fun _ => hsame⟩
  · rw [if_neg hall] at hseen
    rw [hseen, if_pos rfl] at hleft
    set last := univ.filter fun w => 0 < (sent w).length ∧
      (sent w).length = savesLeft (e.or (v.extra w)) with hlast
    have hmem : ∀ w, w ∈ last ↔
        0 < (sent w).length ∧ (v.sent w).length + (sent w).length = v.savers.length := fun w => by
      rw [hlast, mem_filter, and_iff_right (mem_univ w)]
      exact (hreport w).2.1
    have hunion : now = v.sentWorkers ∪ last := by
      ext w
      rw [hnow, mem_union, hmem, sentWorkers, mem_filter,
        and_iff_right (mem_univ w)]
      have hw := hlen w
      constructor
      · rintro ⟨hne, heq⟩
        rcases Nat.eq_zero_or_pos (sent w).length with hz | hp
        · exact .inl ⟨hne, by omega⟩
        · exact .inr ⟨hp, heq⟩
      · rintro (⟨hne, heq⟩ | ⟨hp, heq⟩)
        · exact ⟨hne, by omega⟩
        · exact ⟨List.ne_nil_of_length_pos (by omega), heq⟩
    have hdisj : Disjoint v.sentWorkers last := by
      rw [Finset.disjoint_left]
      intro w hw hw'
      have h₁ := (mem_filter.mp hw).2.2
      have h₂ := (hmem w).mp hw'
      omega
    obtain ⟨h₁, h₂⟩ := hagg v.sentWorkers last (fun w => by simp [hlast]) hdisj hall hleft
    rw [← hunion] at h₁ h₂
    refine ⟨?_, by rw [h₁, hseen]; simp, fun h => absurd (hseen.symm.trans h) zero_ne_one⟩
    rw [h₂]
    split_ifs <;> simp

/-- What the scheduler sees is a finished request that it still keeps. -/
theorem request_of_seen (h : v.Saves) {now : Finset (Fin n)} (hnow : ∀ w, w ∈ now ↔
      v.savers ≠ [] ∧ (v.sent w).length + (sent w).length = v.savers.length)
    (hseen : v.sendingSeen = 0 ∧ now = univ) :
    v.request = some { blockIds := v.blocksToSend, finished := true } := by
  have hne : v.savers ≠ [] :=
    ((hnow (Classical.arbitrary (Fin n))).mp (hseen.2 ▸ mem_univ _)).1
  rw [h.request hne, if_pos hseen.1]

/-- **A step of the workers.** -/
theorem execute (h : v.Saves) (received : Fin n → List Nat) {seen : Bool}
    (seenRecving : Bool) {sendLeft : Int} (recvLeft : Int) (hfly : v.flying ≠ []) (hn : ∀ w, (sent w).Nodup)
    (hsent : ∀ w, ∀ c ∈ sent w, c ∈ v.savers ∧ c ∉ v.sent w)
    (hord : ∀ w, sent w ≠ [] → 1 < v.savers.length → v.finishedAt ≤ v.executed)
    (hagg : Aggregates v.sendLeft sendLeft (fun w => 0 < (sent w).length ∧
      (sent w).length = savesLeft ((v.flying.head?.getD none).or (v.extra w))) seen) :
    (v.execute sent received seen seenRecving sendLeft recvLeft).Saves ∧
      (seen = true → v.request = some { blockIds := v.blocksToSend, finished := true }) := by
  obtain ⟨e, rest, hfly⟩ := List.exists_cons_of_ne_nil hfly
  have hhead : v.flying.head?.getD none = e := by rw [hfly]; rfl
  have hlength : v.flying.length = rest.length + 1 := by rw [hfly]; rfl
  have hle := h.finishedAt_le
  rw [hhead] at hagg
  set v' := v.execute sent received seen seenRecving sendLeft recvLeft with hv'
  have hworkers : ∀ w, w ∈ v'.sentWorkers ↔
      v.savers ≠ [] ∧ (v.sent w).length + (sent w).length = v.savers.length := fun w => by
    simp [sentWorkers, hv', TransferView.execute]
  obtain ⟨hleft, hseen, hdone⟩ := h.counts hfly hn hsent hord hagg hworkers
  have hsum : v'.sendingSeen = v.sendingSeen + if seen then 1 else 0 := rfl
  have hseen' : v'.sendingSeen = if v'.sentWorkers = univ then 1 else 0 := by
    have hold : v.sendingSeen = 0 ∨ v.sendingSeen = 1 := by
      rw [h.sendingSeen]
      split_ifs <;> simp
    by_cases hall : v'.sentWorkers = univ
    · rw [if_pos hall, hsum]
      rcases hold with h₀ | h₁
      · rw [h₀, hseen.mpr ⟨h₀, hall⟩]
        rfl
      · have hfalse : seen = false := by
          rw [← not_eq_true, hseen, h₁]
          exact fun h => one_ne_zero h.1
        rw [h₁, hfalse]
        rfl
    · rw [if_neg hall, hsum]
      have hfalse : seen = false := by
        rw [← not_eq_true, hseen]
        exact fun h => hall h.2
      rw [hold.resolve_right fun h₁ => hall (hdone h₁), hfalse]
      rfl
  refine ⟨?_, fun hs => h.request_of_seen hworkers (hseen.mp hs)⟩
  refine {
    savers_nodup := h.savers_nodup
    sent_nodup := fun w => (h.length_sent_append (hn w) (hsent w)).1
    sent_subset := fun w => (h.length_sent_append (hn w) (hsent w)).2.1
    finishedAt_le := ?_
    pending := ?_
    flying := fun i a hi => ?_
    extra := fun w => ?_
    unsent := fun hk hfin w => ?_
    sendLeft := ?_
    sendingSeen := hseen'
    request := fun hne => ?_ }
  · change v.finishedAt ≤ v.executed + 1 + v.flying.tail.length
    rw [List.length_tail]
    omega
  · refine h.pending.trans (if_congr ?_ rfl rfl)
    change v.finishedAt = v.executed + v.flying.length ↔
      v.finishedAt = v.executed + 1 + v.flying.tail.length
    rw [List.length_tail]
    omega
  · change v.flying.tail[i]? = some a at hi
    rw [List.getElem?_tail] at hi
    refine (h.flying (i + 1) a hi).trans (if_congr ?_ rfl rfl)
    change v.finishedAt = v.executed + (i + 1) ↔ v.finishedAt = v.executed + 1 + i
    omega
  · change extraFor (savesLeft ((v.flying.head?.getD none).or (v.extra w)) - (sent w).length) = _
    rw [hhead]
    exact (h.report hfly (hn w) (hsent w) (hord w)).2.2
  · change v.sent w ++ sent w = []
    have hfin : v.executed + 1 ≤ v.finishedAt := hfin
    have hnil : sent w = [] := by
      by_contra hne
      have := hord w hne hk
      omega
    rw [h.unsent hk (by omega) w, hnil, List.append_nil]
  · change sendLeft = _
    rw [hleft, hseen']
    by_cases hall : v'.sentWorkers = univ
    · rw [if_pos hall, if_pos hall, if_neg one_ne_zero]
    · rw [if_neg hall, if_neg hall, if_pos rfl]
  · have hreq := h.request hne
    change (if seen then none else v.request) = if v'.sendingSeen = 0 then _ else none
    rw [hsum, hreq]
    cases seen with
    | false => rfl
    | true => simp

end Saves

namespace Loads

variable {v : TransferView n} [NeZero n]

/-- **A step of the workers**, for the asynchronous loads. -/
theorem execute (h : v.Loads) (sent : Fin n → List Nat) {received : Fin n → List Nat}
    {seenSending seen : Bool} (sendLeft : Int) {recvLeft : Int} (hn : ∀ w, (received w).length ≤ 1)
    (hreceived : ∀ w, received w ≠ [] → v.received w < v.loads)
    (hagg : Aggregates v.recvLeft recvLeft (fun w => 0 < (received w).length) seen)
    (hsending : seenSending = true → ∃ r, v.request = some r ∧ r.finished = true) :
    (v.execute sent received seenSending seen sendLeft recvLeft).Loads := by
  have hpos : ∀ w, 0 < (received w).length → v.received w < v.loads := fun w hw =>
    hreceived w (List.ne_nil_of_length_pos hw)
  have hle := h.loads_le
  set v' := v.execute sent received seenSending seen sendLeft recvLeft with hv'
  have hworkers : ∀ w, w ∈ v'.receivedWorkers ↔ v.received w + (received w).length =
      v.recvingSeen + (if seen then 1 else 0) + 1 := fun w => by
    simp [receivedWorkers, hv', TransferView.execute]
  set now := univ.filter fun w => 0 < (received w).length with hnow
  have hmem : ∀ w, w ∈ now ↔ 0 < (received w).length := fun w => by simp [hnow]
  have hold : ∀ w, w ∈ v.receivedWorkers ↔ v.received w = v.recvingSeen + 1 := fun w => by
    simp [receivedWorkers]
  have hdone : v.receivedWorkers ≠ univ := by
    by_cases hidle : v.loads = v.recvingSeen + 1
    · exact h.underway hidle
    · intro hall
      have hw := (hold 0).mp (hall ▸ mem_univ 0)
      have := (h.received_le 0).2
      omega
  have hdisj : Disjoint v.receivedWorkers now := by
    rw [Finset.disjoint_left]
    intro w hw hw'
    have h₁ := (hold w).mp hw
    have h₂ := hpos w ((hmem w).mp hw')
    omega
  obtain ⟨h₁, h₂⟩ := hagg v.receivedWorkers now hmem hdisj hdone h.recvLeft
  have hunion : ∀ w, w ∈ v.receivedWorkers ∪ now ↔
      v.received w + (received w).length = v.recvingSeen + 1 := fun w => by
    rw [mem_union, hold, hmem]
    have := h.received_le w
    have := hn w
    have := hpos w
    omega
  have hwaiting : v'.waiting = true → ∃ r, v'.request = some r ∧ r.finished = false := fun hwait => by
    obtain ⟨r, hr, hfin⟩ := h.waiting hwait
    refine ⟨r, ?_, hfin⟩
    change (if seenSending then none else v.request) = some r
    rw [if_neg, hr]
    intro hs
    obtain ⟨r', hr', hfin'⟩ := hsending hs
    rw [hr, Option.some.injEq] at hr'
    rw [← hr', hfin] at hfin'
    exact noConfusion hfin'
  by_cases hall : v.receivedWorkers ∪ now = univ
  · -- the last worker reports the load
    have htrue : seen = true := h₁.mpr hall
    have heach : ∀ w, v.received w + (received w).length = v.recvingSeen + 1 := fun w =>
      (hunion w).mp (hall ▸ mem_univ w)
    have hloads : v.loads = v.recvingSeen + 1 := by
      have h₀ := heach 0
      have := h.received_le 0
      have := hpos 0
      omega
    rw [if_pos hall] at h₂
    have hnone : v'.receivedWorkers = ∅ := by
      rw [Finset.eq_empty_iff_forall_notMem]
      intro w hw
      have h₀ := (hworkers w).mp hw
      rw [heach w, htrue, if_pos rfl] at h₀
      omega
    have hseen : v'.recvingSeen = v.recvingSeen + 1 := by
      simp [hv', TransferView.execute, htrue]
    have hrecv : ∀ w, v'.received w = v.recvingSeen + 1 := heach
    have hsame : v'.loads = v'.recvingSeen := by rw [hseen]; exact hloads
    refine {
      received_le := fun w => by rw [hsame, hseen, hrecv]; exact ⟨le_refl _, le_refl _⟩
      loads_le := by omega
      underway := fun h => by omega
      recvLeft := by
        rw [hnone]
        exact h₂.trans (by simp)
      idle := fun r hr hfin hwait => ?_
      ready := fun _ => hsame
      waiting := hwaiting }
    · -- an unfinished request that does not wait has no load under way
      exfalso
      have hreq : (if seenSending then none else v.request) = some r := hr
      split_ifs at hreq
      have := (h.idle r hreq hfin hwait).1
      omega
  · have hfalse : seen = false := by
      rw [← not_eq_true, h₁]
      exact hall
    rw [if_neg hall] at h₂
    have hsame : v'.receivedWorkers = v.receivedWorkers ∪ now := by
      ext w
      rw [hworkers, hunion, hfalse]
      simp
    have hseen : v'.recvingSeen = v.recvingSeen := by simp [hv', TransferView.execute, hfalse]
    refine {
      received_le := fun w => ?_
      loads_le := by rw [hseen]; exact h.loads_le
      underway := fun _ => by rw [hsame]; exact hall
      recvLeft := by rw [hsame]; exact h₂
      idle := fun r hr hfin hwait => ?_
      ready := fun hready => ?_
      waiting := hwaiting }
    · change v'.recvingSeen ≤ v.received w + (received w).length ∧
        v.received w + (received w).length ≤ v.loads
      rw [hseen]
      have := h.received_le w
      have := hn w
      have := hpos w
      omega
    · have hreq : (if seenSending then none else v.request) = some r := hr
      split_ifs at hreq
      have hidle := h.idle r hreq hfin hwait
      refine ⟨hseen ▸ hidle.1, ?_⟩
      change (seen || v.ready) = false
      rw [hfalse, hidle.2, Bool.or_false]
    · change (seen || v.ready) = true at hready
      rw [hfalse, Bool.false_or] at hready
      exact hseen ▸ h.ready hready

end Loads

/-! ## The other steps -/

section Steps

variable {v : TransferView n}

/-- Without connectors that save it, or when they all have reported it, nothing is left of the
request. -/
theorem Saves.nothing_left [NeZero n] (h : v.Saves)
    (hdone : v.savers = [] ∨ v.sentWorkers = univ) :
    v.pending = none ∧ (∀ e ∈ v.flying, e = none) ∧ (∀ w, v.extra w = none) ∧ v.sendLeft = n := by
  have hlen : ∀ w, v.savers.length ≤ (v.sent w).length := fun w => by
    rcases hdone with hnil | hall
    · rw [hnil]
      exact Nat.zero_le _
    · have hw : w ∈ v.sentWorkers := hall ▸ mem_univ w
      exact (mem_filter.mp hw).2.2.ge
  -- a count that has not reached the workers would be of a request without reports
  have hfin : v.executed ≤ v.finishedAt → extraFor v.savers.length = none := fun hle => by
    by_contra hne
    have hk : 1 < v.savers.length := by
      by_contra hk
      exact hne (extraFor_of_le (by omega))
    have := hlen 0
    rw [h.unsent hk hle 0, length_nil] at this
    omega
  refine ⟨?_, fun e he => ?_, fun w => ?_, ?_⟩
  · rw [h.pending]
    split_ifs with heq
    · exact hfin (by omega)
    · rfl
  · obtain ⟨i, hi⟩ := List.getElem?_of_mem he
    rw [h.flying i e hi]
    split_ifs with heq
    · exact hfin (by omega)
    · rfl
  · rw [h.extra w, Nat.sub_eq_zero_of_le (hlen w), extraFor_of_le (Nat.zero_le 1), ite_self]
  · have hseen := h.sendingSeen
    rw [h.sendLeft]
    rcases hdone with hnil | hall
    · have hnone : v.sentWorkers = ∅ := by simp [sentWorkers, hnil]
      simp [hnone]
    · rw [if_pos hall] at hseen
      simp [hseen]

/-- A request that no connector saves. -/
theorem Saves.of_unsaved [NeZero n] (hsavers : v.savers = []) (hsent : ∀ w, v.sent w = [])
    (hfin : v.finishedAt = 0) (hpending : v.pending = none) (hflying : ∀ e ∈ v.flying, e = none)
    (hextra : ∀ w, v.extra w = none) (hleft : v.sendLeft = n) (hseen : v.sendingSeen = 0) :
    v.Saves := by
  have hnone : v.sentWorkers = ∅ := by simp [sentWorkers, hsavers]
  have hextraFor : extraFor v.savers.length = none := by rw [hsavers]; rfl
  refine {
    savers_nodup := hsavers ▸ List.nodup_nil
    sent_nodup := fun w => hsent w ▸ List.nodup_nil
    sent_subset := fun w => by rw [hsent w]; exact List.nil_subset _
    finishedAt_le := by omega
    pending := by rw [hpending, hextraFor, ite_self]
    flying := fun i e hi => by
      rw [hflying e (List.mem_of_getElem? hi), hextraFor, ite_self]
    extra := fun w => by
      rw [hextra w, hsavers, length_nil, Nat.zero_sub, extraFor_of_le (Nat.zero_le 1), ite_self]
    unsent := fun _ _ w => hsent w
    sendLeft := by rw [hleft, hnone]; simp
    sendingSeen := by rw [hseen, hnone, if_neg Saves.empty_ne_univ]
    request := fun hne => absurd hsavers hne }

variable {r : KVRequest}

/-- A request that is not finished is not saved. -/
theorem Saves.savers_eq_nil (h : v.Saves) (hr : v.request = some r)
    (hfin : r.finished = false) : v.savers = [] ∧ ∀ w, v.sent w = [] := by
  have hsavers : v.savers = [] := by
    by_contra hne
    have hreq := h.request hne
    rw [hr] at hreq
    split_ifs at hreq
    rw [Option.some.injEq] at hreq
    rw [hreq] at hfin
    exact noConfusion hfin
  exact ⟨hsavers, fun w => List.subset_nil.mp (hsavers ▸ h.sent_subset w)⟩

/-- **The request finishes.** -/
theorem Saves.finish [NeZero n] (h : v.Saves) (hr : v.request = some r)
    (hfin : r.finished = false) {savers : List Nat} (hn : savers.Nodup) :
    Saves { v with
      request := if savers = [] then none else some { r with finished := true }
      waiting := false
      pending := if 1 < savers.length then some (savers.length - 1) else v.pending
      finishedAt := v.executed + v.flying.length
      savers
      blocksToSend := r.blockIds } := by
  obtain ⟨hsavers, hsent⟩ := h.savers_eq_nil hr hfin
  obtain ⟨hpending, hflying, hextra, hleft⟩ := h.nothing_left (.inl hsavers)
  have hseen : v.sendingSeen = 0 := by
    rw [h.sendingSeen, if_neg]
    intro hall
    have hw : (0 : Fin n) ∈ v.sentWorkers := hall ▸ mem_univ 0
    exact (mem_filter.mp hw).2.1 hsavers
  have hnone : (univ.filter fun w : Fin n =>
      savers ≠ [] ∧ (v.sent w).length = savers.length) = ∅ := by
    refine Finset.filter_eq_empty_iff.mpr fun w _ hw => hw.1 ?_
    rw [hsent w, length_nil] at hw
    exact List.eq_nil_of_length_eq_zero hw.2.symm
  refine {
    savers_nodup := hn
    sent_nodup := h.sent_nodup
    sent_subset := fun w => by rw [hsent w]; exact List.nil_subset _
    finishedAt_le := le_refl _
    pending := by rw [if_pos rfl, hpending]; rfl
    flying := fun i e hi => ?_
    extra := fun w => by rw [hextra w, if_neg (by simp)]
    unsent := fun _ _ w => hsent w
    sendLeft := ?_
    sendingSeen := ?_
    request := fun hne => by rw [if_neg hne, hseen]; rfl }
  · obtain ⟨hlt, -⟩ := List.getElem?_eq_some_iff.mp hi
    rw [hflying e (List.mem_of_getElem? hi), if_neg]
    change ¬ v.executed + v.flying.length = v.executed + i
    have hlt : i < v.flying.length := hlt
    omega
  · change v.sendLeft = n - ((if v.sendingSeen = 0 then Finset.card _ else 0 : Nat) : Int)
    rw [hleft, sentWorkers, hnone, hseen]
    simp
  · change v.sendingSeen = _
    rw [sentWorkers, hnone, if_neg Saves.empty_ne_univ, hseen]

/-- **A step is scheduled**: it takes the count. -/
theorem Saves.schedule (h : v.Saves) :
    Saves { v with pending := none, flying := v.flying ++ [v.pending] } := by
  have hle := h.finishedAt_le
  refine {
    savers_nodup := h.savers_nodup
    sent_nodup := h.sent_nodup
    sent_subset := h.sent_subset
    finishedAt_le := ?_
    pending := ?_
    flying := fun i e hi => ?_
    extra := h.extra
    unsent := h.unsent
    sendLeft := h.sendLeft
    sendingSeen := h.sendingSeen
    request := h.request }
  · change v.finishedAt ≤ v.executed + (v.flying ++ [v.pending]).length
    rw [length_append, List.length_singleton]
    omega
  · change none = if v.finishedAt = v.executed + (v.flying ++ [v.pending]).length then _ else none
    rw [length_append, List.length_singleton, if_neg (by omega)]
  · rcases Nat.lt_or_ge i v.flying.length with hlt | hge
    · rw [List.getElem?_append_left hlt] at hi
      exact h.flying i e hi
    · have hi' := hi
      rw [List.getElem?_append_right hge, List.getElem?_singleton] at hi'
      split_ifs at hi' with hz
      rw [Option.some.injEq] at hi'
      have hlen : i = v.flying.length := by omega
      rw [← hi', h.pending, hlen]

/-- The request of an unsaved request may change. -/
theorem Saves.withRequest (h : v.Saves) (hsavers : v.savers = []) (request : Option KVRequest)
    (waiting ready : Bool) (loader : Option Nat) (loads : Nat) :
    Saves { v with request, waiting, ready, loader, loads } :=
  { h with request := fun hne => absurd hsavers hne }

/-- No load is under way. -/
theorem Loads.receivedWorkers_eq_empty (h : v.Loads) (hidle : v.loads = v.recvingSeen) :
    v.receivedWorkers = ∅ := by
  refine Finset.filter_eq_empty_iff.mpr fun w _ hw => ?_
  have := (h.received_le w).2
  omega

/-- Only the request, and whether it waits, has changed. -/
theorem Loads.withRequest (h : v.Loads) {u : TransferView n}
    (hsame : u.loads = v.loads ∧ u.recvingSeen = v.recvingSeen ∧ u.received = v.received ∧
      u.recvLeft = v.recvLeft)
    (hready : u.ready = true → v.ready = true)
    (hidle : ∀ r, u.request = some r → r.finished = false → u.waiting = false →
      v.loads = v.recvingSeen ∧ u.ready = false)
    (hwaiting : u.waiting = true → ∃ r, u.request = some r ∧ r.finished = false) : u.Loads := by
  obtain ⟨hloads, hseen, hreceived, hleft⟩ := hsame
  have hworkers : u.receivedWorkers = v.receivedWorkers := by
    simp only [receivedWorkers, hreceived, hseen]
  exact {
    received_le := by rw [hloads, hseen, hreceived]; exact h.received_le
    loads_le := by rw [hloads, hseen]; exact h.loads_le
    underway := by rw [hloads, hseen, hworkers]; exact h.underway
    recvLeft := by rw [hleft, hworkers]; exact h.recvLeft
    idle := by rw [hloads, hseen]; exact hidle
    ready := fun hr => by rw [hloads, hseen]; exact h.ready (hready hr)
    waiting := hwaiting }

/-- **The scheduler starts a load.** -/
theorem Loads.load [NeZero n] (h : v.Loads) (hr : v.request = some r)
    (hfin : r.finished = false) (hwaiting : v.waiting = false) (loader : Option Nat) :
    Loads { v with waiting := true, loader, loads := v.loads + 1 } := by
  obtain ⟨hidle, hready⟩ := h.idle r hr hfin hwaiting
  have hnone := h.receivedWorkers_eq_empty hidle
  exact {
    received_le := fun w => ⟨(h.received_le w).1, (h.received_le w).2.trans (Nat.le_succ _)⟩
    loads_le := by simp [hidle]
    underway := fun _ => by
      change v.receivedWorkers ≠ univ
      rw [hnone]
      exact Saves.empty_ne_univ
    recvLeft := h.recvLeft
    idle := fun _ _ _ hw => noConfusion hw
    ready := fun hr => absurd (hready.symm.trans hr) Bool.false_ne_true
    waiting := fun _ => ⟨r, hr, hfin⟩ }

/-- A new request. -/
theorem Loads.of_unused (hloads : v.loads = 0) (hseen : v.recvingSeen = 0)
    (hreceived : ∀ w, v.received w = 0) (hleft : v.recvLeft = n) (hready : v.ready = false)
    (hwaiting : v.waiting = false) : v.Loads := by
  have hnone : v.receivedWorkers = ∅ :=
    Finset.filter_eq_empty_iff.mpr fun w _ hw => by rw [hreceived, hseen] at hw; omega
  exact {
    received_le := fun w => by rw [hreceived, hseen, hloads]; exact ⟨le_refl _, le_refl _⟩
    loads_le := by omega
    underway := fun h => by omega
    recvLeft := by rw [hleft, hnone]; simp
    idle := fun _ _ _ _ => ⟨hloads.trans hseen.symm, hready⟩
    ready := fun h => absurd (hready.symm.trans h) Bool.false_ne_true
    waiting := fun h => absurd (hwaiting.symm.trans h) Bool.false_ne_true }

end Steps

end TransferView

/-! ## The system -/

/-- The invariants hold of every request. -/
def TransferSystem.Invariant (s : TransferSystem n) : Prop :=
  ∀ id, (s.view id).Saves ∧ (s.view id).Loads

namespace TransferSystem

variable {s t : TransferSystem n}

theorem invariant_init [NeZero n] : ({} : TransferSystem n).Invariant := fun _ =>
  ⟨.of_unsaved rfl (fun _ => rfl) rfl rfl (fun _ he => absurd he List.not_mem_nil) (fun _ => rfl) rfl
    rfl, .of_unused rfl rfl (fun _ => rfl) rfl rfl rfl⟩

/-- A step that changes the view of one request keeps the invariants of the others. -/
theorem Invariant.of_view (h : s.Invariant) (id : ReqId)
    (hframe : ∀ j, j ≠ id → t.view j = s.view j)
    (hid : (t.view id).Saves ∧ (t.view id).Loads) : t.Invariant := fun j => by
  by_cases hj : j = id
  · exact hj ▸ hid
  · rw [hframe j hj]
    exact h j

variable {id : ReqId}

theorem Invariant.addRequest [NeZero n] (h : s.Invariant) (hunused : s.Unused id) :
    Invariant { s with
      scheduler := { s.scheduler with requests := s.scheduler.requests.set id {} }
      history := s.history.add id } := by
  obtain ⟨hsaves, hloads⟩ := h id
  obtain ⟨hreq, hready, hseen⟩ := hunused
  have hnone : (s.view id).request = none := Dict.get?_eq_none_iff.mpr hreq
  have hdone : (s.view id).savers = [] ∨ (s.view id).sentWorkers = univ := by
    by_contra hne
    rw [not_or] at hne
    have hold := hsaves.sendingSeen
    rw [if_neg hne.2] at hold
    have hkept := hsaves.request hne.1
    rw [hold, if_pos rfl, hnone] at hkept
    exact Option.some_ne_none _ hkept.symm
  obtain ⟨hpending, hflying, hextra, hleft⟩ := hsaves.nothing_left hdone
  have hwaiting : (s.view id).waiting = false := by
    rw [← not_eq_true]
    intro hw
    obtain ⟨r, hr, -⟩ := hloads.waiting hw
    rw [hnone] at hr
    exact Option.some_ne_none _ hr.symm
  have hrecvLeft := hloads.recvLeft
  rw [hloads.receivedWorkers_eq_empty hseen.symm] at hrecvLeft
  refine h.of_view id (fun j hj => ?_) ⟨.of_unsaved ?_ ?_ ?_ hpending hflying hextra hleft ?_,
    .of_unused ?_ ?_ ?_ (hrecvLeft.trans (by simp)) (decide_eq_false hready) hwaiting⟩
  · simp [view, TransferHistory.add, Dict.get?_set_ne hj, Function.update_of_ne hj]
  all_goals simp [view, TransferHistory.add]

theorem Invariant.allocate (h : s.Invariant) {r : KVRequest}
    (hr : s.scheduler.requests.get? id = some r) (hfin : r.finished = false)
    (blockIds : List BlockId) :
    Invariant { s with scheduler := s.scheduler.allocate id r blockIds } := by
  obtain ⟨hsaves, hloads⟩ := h id
  have hview : view { s with scheduler := s.scheduler.allocate id r blockIds } id = { s.view id with
      request := some { r with blockIds := r.blockIds ++ blockIds } } := by
    simp only [view, KVScheduler.allocate, Dict.get?_set_self]
    rfl
  refine h.of_view id (fun j hj => ?_) ?_
  · simp only [view, KVScheduler.allocate, Dict.get?_set_ne hj]
    rfl
  · rw [hview]
    refine ⟨hsaves.withRequest (hsaves.savers_eq_nil hr hfin).1 _ _ _ _ _,
      hloads.withRequest ⟨rfl, rfl, rfl, rfl⟩ (fun hready => hready) (fun _ _ _ hw => ?_)
        fun _ => ⟨_, rfl, hfin⟩⟩
    exact hloads.idle r hr hfin hw

/-- Only the connector chosen for the request changes. -/
theorem extraAsyncSaves_getNumNewMatchedTokens (m : MultiConnector) (id : ReqId)
    (answers : List (Nat × Bool)) :
    (m.getNumNewMatchedTokens id answers).2.extraAsyncSaves = m.extraAsyncSaves := by
  have hfold : ∀ (l : List ((Nat × Bool) × Nat)) (p : (Nat × Bool) × MultiConnector),
      (l.foldl (fun p e => if p.1.1 = 0 ∧ 0 < e.1.1 then
        (e.1, { p.2 with requestsToConnector := p.2.requestsToConnector.set id e.2 })
        else p) p).2.extraAsyncSaves = p.2.extraAsyncSaves := by
    intro l
    induction l with
    | nil => exact fun _ => rfl
    | cons e l ih =>
      intro p
      rw [List.foldl_cons, ih]
      split_ifs <;> rfl
  exact hfold _ _

variable (h : s.Invariant)

include h

/-- A connector with the same counts. -/
theorem Invariant.setConnector {connector : MultiConnector}
    (hextra : connector.extraAsyncSaves = s.scheduler.connector.extraAsyncSaves) :
    Invariant { s with scheduler := { s.scheduler with connector } } := fun j => by
  have hview : view { s with scheduler := { s.scheduler with connector } } j = s.view j := by
    simp only [view, hextra]
  rw [hview]
  exact h j

theorem Invariant.startLoad [NeZero n] {r : KVRequest}
    (hr : s.scheduler.requests.get? id = some r) (hfin : r.finished = false)
    (hwaiting : id ∉ s.scheduler.waitingForRemoteKvs) (loader : Option Nat) :
    Invariant { s with
      scheduler := { s.scheduler with
        waitingForRemoteKvs := id :: s.scheduler.waitingForRemoteKvs }
      history := s.history.load id loader } := by
  obtain ⟨hsaves, hloads⟩ := h id
  refine h.of_view id (fun j hj => ?_) ?_
  · simp [view, TransferHistory.load, hj]
  · have hview : view { s with
        scheduler := { s.scheduler with
          waitingForRemoteKvs := id :: s.scheduler.waitingForRemoteKvs }
        history := s.history.load id loader } id =
        { s.view id with waiting := true, loader, loads := (s.view id).loads + 1 } := by
      simp [view, TransferHistory.load]
    rw [hview]
    exact ⟨hsaves.withRequest (hsaves.savers_eq_nil hr hfin).1 _ _ _ _ _,
      hloads.load hr hfin (decide_eq_false hwaiting) loader⟩

theorem Invariant.lookAt [NeZero n] {answers : List (Nat × Bool)}
    {blockIds : Option (List BlockId)} (hs : s.lookAt id answers blockIds = .ok t) : t.Invariant := by
  unfold TransferSystem.lookAt at hs
  cases hr : s.scheduler.requests.get? id with
  | none => simp [hr] at hs
  | some r =>
    rw [hr] at hs
    dsimp only at hs
    by_cases hblocked : r.finished = true ∨ id ∈ s.scheduler.waitingForRemoteKvs
    · rw [if_pos hblocked] at hs
      simp at hs
    rw [if_neg hblocked] at hs
    rw [not_or, not_eq_true] at hblocked
    obtain ⟨hfin, hwaiting⟩ := hblocked
    have h₁ := h.setConnector
      (extraAsyncSaves_getNumNewMatchedTokens s.scheduler.connector id answers)
    cases blockIds with
    | none =>
      rw [Except.ok.injEq] at hs
      exact hs ▸ h₁
    | some blockIds =>
      have h₂ := h₁.allocate hr hfin blockIds
      by_cases hasync : (s.scheduler.connector.getNumNewMatchedTokens id answers).1.2 = true
      · simp only [hasync, if_true, Except.ok.injEq] at hs
        subst hs
        exact h₂.startLoad (Dict.get?_set_self ..) hfin hwaiting _
      · simp only [hasync, if_false, Bool.false_eq_true, Except.ok.injEq] at hs
        exact hs ▸ h₂

/-- The scheduler goes on with a request that has been loaded. -/
theorem Invariant.updateWaitingForRemoteKv (id : ReqId) :
    Invariant { s with scheduler := s.scheduler.updateWaitingForRemoteKv id } := by
  unfold KVScheduler.updateWaitingForRemoteKv
  split_ifs with hready
  · obtain ⟨hsaves, hloads⟩ := h id
    have hidle : (s.view id).loads = (s.view id).recvingSeen := hloads.ready (decide_eq_true hready)
    refine h.of_view id (fun j hj => ?_) ?_
    · simp [view, hj]
    · have hview : view { s with
          scheduler := { s.scheduler with
            waitingForRemoteKvs := s.scheduler.waitingForRemoteKvs.filter (· ≠ id)
            finishedRecvingKvReqIds := s.scheduler.finishedRecvingKvReqIds.filter (· ≠ id) } } id =
          { s.view id with waiting := false, ready := false } := by
        simp [view]
      rw [hview]
      refine ⟨{ hsaves with }, hloads.withRequest ⟨rfl, rfl, rfl, rfl⟩ (fun hr => noConfusion hr)
        (fun r hr hfin _ => ⟨hidle, rfl⟩) fun hw => noConfusion hw⟩
  · exact h

theorem Invariant.schedule (batchQueue : Bool) {totalNumScheduledTokens : Nat}
    (hord : s.scheduler.connector.extraAsyncSaves.keys = [] ∨
      ¬ (batchQueue = true ∧ totalNumScheduledTokens = 0))
    (hs : s.step (P := P) batchQueue (.schedule totalNumScheduledTokens) = .ok t) : t.Invariant := by
  simp only [TransferSystem.step, MultiConnector.buildConnectorMeta] at hs
  split_ifs at hs with hdrop
  · -- a dropped step takes no counts
    have hkeys := hord.resolve_right fun h => h hdrop
    rw [Except.ok.injEq] at hs
    subst hs
    intro id
    have hview : view { s with scheduler := { s.scheduler with connector :=
        { s.scheduler.connector with extraAsyncSaves := ∅ } } } id = s.view id := by
      have hnone : s.scheduler.connector.extraAsyncSaves.get? id = none := by
        rw [Dict.get?_eq_none_iff, Dict.mem_iff, hkeys]
        exact List.not_mem_nil
      simp only [view, hnone, Dict.get?_empty]
    rw [hview]
    exact h id
  · rw [Except.ok.injEq] at hs
    subst hs
    intro id
    obtain ⟨hsaves, hloads⟩ := h id
    have hview : view { s with
        scheduler := { s.scheduler with connector :=
          { s.scheduler.connector with extraAsyncSaves := ∅ } }
        inFlight := s.inFlight ++ [{ extraAsyncSaves := s.scheduler.connector.extraAsyncSaves }] } id =
        { s.view id with
          pending := none, flying := (s.view id).flying ++ [(s.view id).pending] } := by
      simp [view]
    rw [hview]
    exact ⟨hsaves.schedule, { hloads with }⟩

end TransferSystem

/-! ## A request finishes -/

theorem length_asyncSavers (answers : List (Bool × Option P)) :
    (TransferHistory.asyncSavers answers).length = answers.countP fst := by
  have hfrom : ∀ k, ((answers.zipIdx k).filter fun e => e.1.1).length = answers.countP fst := by
    induction answers with
    | nil => exact fun _ => rfl
    | cons a answers ih =>
      intro k
      rw [List.zipIdx_cons, List.filter_cons, List.countP_cons]
      split_ifs <;> simp [ih]
  rw [TransferHistory.asyncSavers, List.length_map]
  exact hfrom 0

theorem nodup_asyncSavers (answers : List (Bool × Option P)) :
    (TransferHistory.asyncSavers answers).Nodup := by
  have hsnd : (answers.zipIdx.map snd).Nodup := by
    rw [List.zipIdx_map_snd]
    exact List.nodup_range'
  exact hsnd.sublist (List.filter_sublist.map snd)

variable {answers : List (Bool × Option P)} {id : ReqId}

theorem foldlM_countAnswer {p q : Nat × Option P}
    (h : answers.foldlM MultiConnector.countAnswer p = .ok q) :
    q.1 = p.1 + answers.countP fst := by
  induction answers generalizing p with
  | nil =>
    obtain rfl : p = q := Except.ok.inj h
    rfl
  | cons a answers ih =>
    rw [List.foldlM_cons] at h
    obtain ⟨p', hp', h⟩ := bind_eq_ok.mp h
    have hcount : p'.1 = if a.1 then p.1 + 1 else p.1 := by
      obtain ⟨save, params⟩ := a
      obtain ⟨k, found⟩ := p
      cases params with
      | none => exact (Except.ok.inj hp') ▸ rfl
      | some params =>
        cases found with
        | none => exact (Except.ok.inj hp') ▸ rfl
        | some found => exact absurd hp' (by simp [MultiConnector.countAnswer])
    rw [ih h, hcount, List.countP_cons]
    split_ifs <;> omega

/-- **What the connectors answer.** -/
theorem requestFinished_spec {m c : MultiConnector}
    {delay : Bool} {params : Option P} (h : m.requestFinished id answers = .ok ((delay, params), c)) :
    (delay = false ↔ TransferHistory.asyncSavers answers = []) ∧ c.extraAsyncSaves =
      if 1 < (TransferHistory.asyncSavers answers).length then
        m.extraAsyncSaves.set id ((TransferHistory.asyncSavers answers).length - 1)
      else m.extraAsyncSaves := by
  obtain ⟨⟨asyncSaves, p⟩, hfold, h⟩ := bind_eq_ok.mp h
  have hcount := foldlM_countAnswer hfold
  rw [Nat.zero_add, ← length_asyncSavers] at hcount
  dsimp only at hcount
  simp only [pure, Except.pure, Except.ok.injEq, Prod.mk.injEq] at h
  obtain ⟨⟨rfl, -⟩, rfl⟩ := h
  refine ⟨?_, by rw [← hcount]⟩
  rw [decide_eq_false_iff_not, hcount, Nat.pos_iff_ne_zero, not_not, List.length_eq_zero_iff]

theorem TransferSystem.Invariant.freeRequest [NeZero n] {s t : TransferSystem n} (h : s.Invariant)
    (batchQueue : Bool) (hord : ∀ r ∈ s.scheduler.requests.get? id, r.finished = false)
    (hs : s.step batchQueue (.freeRequest id answers) = .ok t) : t.Invariant := by
  simp only [TransferSystem.step, KVScheduler.freeRequest] at hs
  cases hr : s.scheduler.requests.get? id with
  | none =>
    -- an id that the scheduler does not know
    simp only [hr] at hs
    exact (Except.ok.inj hs) ▸ h
  | some r =>
    obtain ⟨hsaves, hloads⟩ := h id
    have hfin := hord r hr
    simp only [hr] at hs
    obtain ⟨scheduler, hs', hs⟩ := bind_eq_ok.mp hs
    obtain ⟨⟨⟨delay, params⟩, c⟩, hc, hs'⟩ := bind_eq_ok.mp hs'
    obtain ⟨hdelay, hextra⟩ := requestFinished_spec hc
    simp only [pure, Except.pure, Except.ok.injEq] at hs
    set savers := TransferHistory.asyncSavers answers with hsavers
    -- the blocks are kept if and only if a connector saves the request
    have hrequests : scheduler = { s.scheduler with
        requests := if savers = [] then (s.scheduler.requests.set id { r with finished := true }).erase id
          else s.scheduler.requests.set id { r with finished := true }
        waitingForRemoteKvs := s.scheduler.waitingForRemoteKvs.filter (· ≠ id)
        connector := c } := by
      cases delay with
      | true =>
        have hne : savers ≠ [] := fun hnil => noConfusion (hdelay.mpr hnil)
        simp only [if_true, pure, Except.pure, Except.ok.injEq] at hs'
        rw [if_neg hne, ← hs']
      | false =>
        simp only [Bool.false_eq_true, if_false, KVScheduler.freeBlocks, Dict.get?_set_self, if_true,
          Except.ok.injEq] at hs'
        rw [if_pos (hdelay.mp rfl), ← hs']
    subst hrequests
    have hget : ∀ j, (if savers = [] then
        (s.scheduler.requests.set id { r with finished := true }).erase id
        else s.scheduler.requests.set id { r with finished := true }).get? j =
        if j = id then (if savers = [] then none else some { r with finished := true })
        else s.scheduler.requests.get? j := fun j => by
      by_cases hj : j = id
      · subst hj
        rw [if_pos rfl]
        split_ifs <;> simp
      · rw [if_neg hj]
        split_ifs <;> simp [Dict.get?_erase_ne hj, Dict.get?_set_ne hj]
    have hpending : ∀ j, c.extraAsyncSaves.get? j = if j = id then
        (if 1 < savers.length then some (savers.length - 1)
          else s.scheduler.connector.extraAsyncSaves.get? j)
        else s.scheduler.connector.extraAsyncSaves.get? j := fun j => by
      rw [hextra]
      by_cases hj : j = id
      · subst hj
        rw [if_pos rfl]
        split_ifs <;> simp
      · rw [if_neg hj]
        split_ifs <;> simp [Dict.get?_set_ne hj]
    refine h.of_view id (fun j hj => ?_) ?_
    · rw [← hs]
      simp [TransferSystem.view, TransferHistory.finish, hget, hpending, hj]
    · have hview : t.view id = { s.view id with
          request := if savers = [] then none else some { r with finished := true }
          waiting := false
          pending := if 1 < savers.length then some (savers.length - 1) else (s.view id).pending
          finishedAt := (s.view id).executed + (s.view id).flying.length
          savers
          blocksToSend := r.blockIds } := by
        have hwait : decide (id ∈ s.scheduler.waitingForRemoteKvs.filter (· ≠ id)) = false := by simp
        rw [← hs]
        simp only [TransferSystem.view, TransferHistory.finish, hget, hpending, hwait, if_true,
          Function.update_self, List.length_map]
        rfl
      rw [hview]
      refine ⟨hsaves.finish hr hfin (nodup_asyncSavers answers),
        hloads.withRequest ⟨rfl, rfl, rfl, rfl⟩ (fun hready => hready) (fun r' hr' hfin' _ => ?_)
          fun hw => absurd hw Bool.false_ne_true⟩
      -- the request is gone, or finished
      dsimp only at hr'
      split_ifs at hr'
      rw [Option.some.injEq] at hr'
      rw [← hr'] at hfin'
      exact noConfusion hfin'

/-! ## The workers execute a step -/

/-- A set of finished requests is freed, one after another. -/
theorem foldlM_freeBlocks {s : KVScheduler} {ids : List ReqId} (hn : ids.Nodup)
    (hids : ∀ id ∈ ids, ∃ r, s.requests.get? id = some r ∧ r.finished = true) :
    ∃ requests, ids.foldlM KVScheduler.freeBlocks s = .ok { s with requests } ∧
      ∀ id, requests.get? id = if id ∈ ids then none else s.requests.get? id := by
  induction ids generalizing s with
  | nil => exact ⟨s.requests, rfl, fun _ => rfl⟩
  | cons id ids ih =>
    rw [List.nodup_cons] at hn
    obtain ⟨r, hr, hfin⟩ := hids id mem_cons_self
    have hfree : s.freeBlocks id = .ok { s with requests := s.requests.erase id } := by
      simp [KVScheduler.freeBlocks, hr, hfin]
    obtain ⟨requests, hfold, hget⟩ := ih (s := { s with requests := s.requests.erase id }) hn.2
      fun j hj => by
        have hne : j ≠ id := fun heq => hn.1 (heq ▸ hj)
        obtain ⟨r, hr, hfin⟩ := hids j (List.mem_cons_of_mem _ hj)
        exact ⟨r, by rw [Dict.get?_erase_ne hne, hr], hfin⟩
    refine ⟨requests, ?_, fun j => ?_⟩
    · rw [List.foldlM_cons, hfree]
      exact hfold
    · rw [hget]
      by_cases hj : j = id
      · subst hj
        simp
      · simp [Dict.get?_erase_ne hj, hj]

/-- The connectors that report a request are those of the reports that name it. -/
theorem mem_reporters_map {reports : List TransferReport} {f : TransferReport → List ReqId}
    {c : Nat} (hc : c ∈ TransferHistory.reporters (reports.map f) id) :
    ∃ e ∈ reports.zipIdx, e.2 = c ∧ id ∈ f e.1 := by
  obtain ⟨l, hl, hid⟩ := mem_reporters.mp hc
  rw [List.zipIdx_map, mem_map] at hl
  obtain ⟨e, he, heq⟩ := hl
  obtain ⟨h₁, h₂⟩ := Prod.mk.inj heq
  exact ⟨e, he, h₂, by rw [h₁]; exact hid⟩

section Execute

variable {s : TransferSystem n} {reports : Fin n → List TransferReport}

/-- Only the connector of the load reports it, and once in a step. -/
theorem length_received_le (hfair : (TransferOp.execute (P := P) reports).Fair s) (id : ReqId)
    (w : Fin n) :
    (TransferHistory.reporters ((reports w).map TransferReport.recving) id).length ≤ 1 := by
  have hsame : ∀ c ∈ TransferHistory.reporters ((reports w).map TransferReport.recving) id,
      s.history.loader id = some c := fun c hc => by
    obtain ⟨e, he, rfl, hid⟩ := mem_reporters_map hc
    exact (hfair.2 w e he id hid).1
  have hn := nodup_reporters ((reports w).map TransferReport.recving) id
  revert hsame hn
  cases TransferHistory.reporters ((reports w).map TransferReport.recving) id with
  | nil => exact fun _ _ => Nat.zero_le 1
  | cons a l =>
    intro hsame hn
    cases l with
    | nil => exact le_refl 1
    | cons b l =>
      have ha := hsame a mem_cons_self
      have hb := hsame b (List.mem_cons_of_mem _ mem_cons_self)
      rw [ha, Option.some.injEq] at hb
      rw [hb] at hn
      exact absurd mem_cons_self (List.nodup_cons.mp hn).1

/-- The connectors that report a request as saved. -/
def sentBy (reports : Fin n → List TransferReport) (id : ReqId) (w : Fin n) : List Nat :=
  TransferHistory.reporters ((reports w).map TransferReport.sending) id

/-- The connectors that report a request as loaded. -/
def receivedBy (reports : Fin n → List TransferReport) (id : ReqId) (w : Fin n) : List Nat :=
  TransferHistory.reporters ((reports w).map TransferReport.recving) id

theorem sentBy_new (hfair : (TransferOp.execute (P := P) reports).Fair s) (id : ReqId) (w : Fin n) :
    ∀ c ∈ sentBy reports id w, c ∈ (s.view id).savers ∧ c ∉ (s.view id).sent w := fun c hc => by
  obtain ⟨e, he, rfl, hid⟩ := mem_reporters_map hc
  exact hfair.1 w e he id hid

theorem receivedBy_new (hfair : (TransferOp.execute (P := P) reports).Fair s) (id : ReqId)
    (w : Fin n) (hne : receivedBy reports id w ≠ []) :
    (s.view id).received w < (s.view id).loads := by
  obtain ⟨c, hc⟩ := List.exists_mem_of_ne_nil _ hne
  obtain ⟨e, he, rfl, hid⟩ := mem_reporters_map hc
  exact (hfair.2 w e he id hid).2

variable {batchQueue : Bool}

theorem sentBy_scheduled
    (hord : (TransferOp.execute (P := P) reports).Orderly batchQueue s) (id : ReqId) (w : Fin n)
    (hne : sentBy reports id w ≠ []) (hk : 1 < (s.view id).savers.length) :
    (s.view id).finishedAt ≤ (s.view id).executed := by
  obtain ⟨c, hc⟩ := List.exists_mem_of_ne_nil _ hne
  obtain ⟨e, he, rfl, hid⟩ := mem_reporters_map hc
  obtain ⟨-, -, hget⟩ := List.mem_zipIdx he
  exact hord w e.1 (hget ▸ List.getElem_mem _) id hid hk

/-- The entry of a worker when it has bound the metadata of the step. -/
def TransferView.boundExtra (v : TransferView n) (w : Fin n) : Option Nat :=
  (v.flying.head?.getD none).or (v.extra w)

/-- **What one worker returns for the reports of its connectors.** -/
theorem TransferSystem.Invariant.getFinished [NeZero n] (h : s.Invariant)
    (hfair : (TransferOp.execute (P := P) reports).Fair s)
    (hord : (TransferOp.execute (P := P) reports).Orderly batchQueue s)
    {metadata : MultiKVConnectorMetadata} {inFlight : List MultiKVConnectorMetadata}
    (hfly : s.inFlight = metadata :: inFlight) (w : Fin n) :
    ∃ p, ((s.workers w).bindConnectorMetadata metadata).getFinished (reports w) = .ok p ∧
      p.1.sending.Nodup ∧ p.1.recving.Nodup ∧ ∀ id,
        (id ∈ p.1.sending ↔ 0 < (sentBy reports id w).length ∧
          (sentBy reports id w).length = savesLeft ((s.view id).boundExtra w)) ∧
        (id ∈ p.1.recving ↔ 0 < (receivedBy reports id w).length) ∧
        p.2.extraAsyncSaves.get? id =
          extraFor (savesLeft ((s.view id).boundExtra w) - (sentBy reports id w).length) := by
  have hview : ∀ id, (s.view id).flying =
      metadata.extraAsyncSaves.get? id :: inFlight.map fun m => m.extraAsyncSaves.get? id :=
    fun id => by simp [TransferSystem.view, hfly]
  have hbound : ∀ id, ((s.workers w).bindConnectorMetadata metadata).extraAsyncSaves.get? id =
      (s.view id).boundExtra w := fun id => by
    rw [MultiConnector.get?_bindConnectorMetadata, TransferView.boundExtra, hview]
    rfl
  have hhead : ∀ id, (s.view id).boundExtra w =
      (metadata.extraAsyncSaves.get? id).or ((s.view id).extra w) := fun id => by
    rw [TransferView.boundExtra, hview]
    rfl
  have hpos : ((s.workers w).bindConnectorMetadata metadata).Positive := fun id => by
    rw [hbound, hhead, (h id).1.bound (hview id)]
    split_ifs
    · exact extraFor_ne_zero _
    · exact (Option.some_ne_none 0).symm
  have hcount : ∀ id, ((reports w).map TransferReport.sending).flatten.count id =
      (sentBy reports id w).length := fun id =>
    (length_reporters (fun l hl => by
      obtain ⟨r, -, rfl⟩ := mem_map.mp hl
      exact r.sending_nodup) id).symm
  have hcount' : ∀ id, ((reports w).map TransferReport.recving).flatten.count id =
      (receivedBy reports id w).length := fun id =>
    (length_reporters (fun l hl => by
      obtain ⟨r, -, rfl⟩ := mem_map.mp hl
      exact r.recving_nodup) id).symm
  obtain ⟨p, hp, hn, hn', hrecv, hsend, hextra⟩ := MultiConnector.getFinished_eq hpos (reports w)
    fun id => by
      rw [hcount, hbound, hhead]
      exact ((h id).1.report (hview id) (nodup_reporters _ id) (sentBy_new hfair id w)
        (sentBy_scheduled hord id w)).1
  refine ⟨p, hp, hn, hn', fun id => ⟨?_, ?_, ?_⟩⟩
  · rw [hsend, hcount, hbound]
  · rw [hrecv, ← hcount', List.count_pos_iff, List.mem_flatten]
    simp
  · rw [hextra, hcount, hbound]

/-- The workers that report a request are those whose set contains it. -/
theorem aggregates_updateFinishedSet (counts : Dict ReqId Int) {ids : Fin n → List ReqId}
    (hn : ∀ w, (ids w).Nodup) {id : ReqId} {E : Fin n → Prop} (hE : ∀ w, id ∈ ids w ↔ E w)
    {α : Type} {f : α → List ReqId} {outputs : List α}
    (ho : outputs.map f = (finRange n).map ids) :
    TransferView.Aggregates (n := n) (counts.getD id n)
      ((outputs.foldl (fun p o => KVOutputAggregator.updateFinishedSet n p (f o))
        (counts, [])).1.getD id n) E
      (decide (id ∈ (outputs.foldl (fun p o => KVOutputAggregator.updateFinishedSet n p (f o))
        (counts, [])).2)) := by
  intro done now hnow hdisj hdone hleft
  obtain ⟨h₁, h₂⟩ := KVOutputAggregator.updateFinishedSet_spec hn
    (fun w => (hnow w).trans (hE w).symm) hdisj hdone hleft ho rfl
  exact ⟨decide_eq_true_iff.trans h₁, h₂⟩

/-- **The workers execute a step.** Fair reports raise nothing. -/
theorem TransferSystem.Invariant.execute [NeZero n] (h : s.Invariant)
    (hfair : (TransferOp.execute (P := P) reports).Fair s)
    (hord : (TransferOp.execute (P := P) reports).Orderly batchQueue s) (hne : s.inFlight ≠ []) :
    ∃ t, s.execute reports = .ok t ∧ t.Invariant := by
  obtain ⟨metadata, inFlight, hfly⟩ := List.exists_cons_of_ne_nil hne
  choose p hp hn hn' hspec using h.getFinished hfair hord hfly
  have hran : s.runWorkers metadata reports = .ok ((finRange n).map p) := by
    rw [TransferSystem.runWorkers, mapM_eq_ok, List.forall₂_map_right_iff, List.forall₂_same]
    exact fun w _ => hp w
  have houtputs : ∀ f : FinishedTransfers → List ReqId,
      (((finRange n).map p).map fst).map f = (finRange n).map fun w => f (p w).1 :=
    fun f => by simp [List.map_map, Function.comp_def]
  have hsending := fun id => aggregates_updateFinishedSet s.aggregator.sendRemainingCount
    hn (fun w => (hspec w id).1) (houtputs FinishedTransfers.sending)
  have hrecving := fun id => aggregates_updateFinishedSet s.aggregator.recvRemainingCount
    hn' (fun w => (hspec w id).2.1) (houtputs FinishedTransfers.recving)
  set output := (s.aggregator.aggregate n (((finRange n).map p).map fst)).1 with houtput
  set aggregator := (s.aggregator.aggregate n (((finRange n).map p).map fst)).2 with hagg
  have hnodup : output.sending.Nodup := KVOutputAggregator.nodup_foldl_updateFinishedSet _ _ _
  have hsaves := fun id => (h id).1.execute (receivedBy reports id)
    (decide (id ∈ output.recving)) (aggregator.recvRemainingCount.getD id n)
    (by simp [TransferSystem.view, hfly]) (fun w => nodup_reporters _ id)
    (sentBy_new hfair id) (sentBy_scheduled hord id) (hsending id)
  have hloads := fun id => (h id).2.execute (sentBy reports id)
    (aggregator.sendRemainingCount.getD id n) (length_received_le hfair id)
    (receivedBy_new hfair id) (hrecving id) fun hs => ⟨_, (hsaves id).2 hs, rfl⟩
  obtain ⟨requests, hfree, hget⟩ := foldlM_freeBlocks (s := { s.scheduler with
    finishedRecvingKvReqIds := output.recving.foldl (fun l id => l.insert id)
      s.scheduler.finishedRecvingKvReqIds }) hnodup fun id hid =>
    ⟨_, (hsaves id).2 (decide_eq_true hid), rfl⟩
  obtain ⟨t, ht⟩ : ∃ t : TransferSystem n, t = { s with
      scheduler := { s.scheduler with
        requests
        finishedRecvingKvReqIds := output.recving.foldl (fun l id => l.insert id)
          s.scheduler.finishedRecvingKvReqIds }
      inFlight
      workers := fun w => (((finRange n).map p)[w.val]?.map snd).getD (s.workers w)
      aggregator
      history := s.history.execute reports output } := ⟨_, rfl⟩
  refine ⟨t, ?_, fun id => ?_⟩
  · rw [TransferSystem.execute, hfly]
    simp only [hran, bind, Except.bind, pure, Except.pure]
    rw [KVScheduler.updateFromKvXferFinished, ← houtput, hfree, ht]
  · have hview : t.view id = (s.view id).execute (sentBy reports id) (receivedBy reports id)
        (decide (id ∈ output.sending)) (decide (id ∈ output.recving))
        (aggregator.sendRemainingCount.getD id n) (aggregator.recvRemainingCount.getD id n) := by
      have hworker : ∀ w : Fin n,
          (((finRange n).map p)[w.val]?.map snd).getD (s.workers w) = (p w).2 :=
        fun w => by simp
      have hextra := fun w => (hspec w id).2.2
      have hready : decide (id ∈ output.recving.foldl (fun l id => l.insert id)
          s.scheduler.finishedRecvingKvReqIds) = (decide (id ∈ output.recving) ||
            decide (id ∈ s.scheduler.finishedRecvingKvReqIds)) := by
        rw [← Bool.decide_or]
        exact decide_eq_decide.mpr MultiConnector.mem_foldl_insert
      rw [ht]
      simp only [TransferSystem.view, TransferView.execute, TransferHistory.execute, hworker, hextra,
        hget, hready, decide_eq_true_eq]
      rw [hfly]
      rfl
    rw [hview]
    exact ⟨(hsaves id).1, hloads id⟩

end Execute

/-! ## Every run -/

section Runs

variable [NeZero n] {batchQueue : Bool} {s t : TransferSystem n}

/-- **Every orderly step keeps the invariants.** -/
theorem TransferSystem.Invariant.step (h : s.Invariant) {op : TransferOp P n} (hfair : op.Fair s)
    (hord : op.Orderly batchQueue s) (hs : s.step batchQueue op = .ok t) : t.Invariant := by
  cases op with
  | addRequest id => exact (Except.ok.inj hs) ▸ h.addRequest hord
  | allocate id blockIds =>
    simp only [TransferSystem.step] at hs
    cases hr : s.scheduler.requests.get? id with
    | none => simp [hr] at hs
    | some r =>
      rw [hr] at hs
      dsimp only at hs
      cases hfin : r.finished with
      | true => simp [hfin] at hs
      | false =>
        rw [hfin, if_neg Bool.false_ne_true] at hs
        exact (Except.ok.inj hs) ▸ h.allocate hr hfin blockIds
  | lookAt id answers blockIds => exact h.lookAt hs
  | updateWaitingForRemoteKv id =>
    simp only [TransferSystem.step] at hs
    split_ifs at hs
    exact (Except.ok.inj hs) ▸ h.updateWaitingForRemoteKv id
  | freeRequest id answers => exact h.freeRequest batchQueue hord hs
  | schedule totalNumScheduledTokens => exact h.schedule (P := P) batchQueue hord hs
  | execute reports =>
    have hne : s.inFlight ≠ [] := fun hnil => by
      simp [TransferSystem.step, TransferSystem.execute, hnil] at hs
    obtain ⟨u, hu, hinv⟩ := h.execute hfair hord hne
    have htu : (.ok t : Except TransferError (TransferSystem n)) = .ok u := hs.symm.trans hu
    exact (Except.ok.inj htu) ▸ hinv

theorem invariant_of_reach (h : (transferMachine P n batchQueue).Reach
    (fun s op => op.Fair s ∧ op.Orderly batchQueue s) s) : s.Invariant :=
  h.invariant TransferSystem.invariant_init fun _ _ _ hinv hok hs => hinv.step hok.1 hok.2 hs

/-- The invariants say what the scheduler has seen. -/
theorem TransferSystem.Invariant.reportedOnce (h : s.Invariant) : ReportedOnce s := by
  have hall : ∀ id, s.history.savers id ≠ [] →
      ((s.view id).sentWorkers = univ ↔ s.history.AllSent id) := fun id hne =>
    (h id).1.sentWorkers_eq_univ_iff hne
  have hseen : ∀ id, s.history.savers id ≠ [] →
      s.history.sendingSeen id = if s.history.AllSent id then 1 else 0 := fun id hne =>
    (h id).1.sendingSeen.trans (if_congr (hall id hne) rfl rfl)
  refine ⟨hseen, fun id hne hnot => ?_, fun id hne hsent => ?_, fun id => ?_⟩
  · have hreq := (h id).1.request hne
    change s.scheduler.requests.get? id = if s.history.sendingSeen id = 0 then _ else none at hreq
    rw [hreq, hseen id hne, if_neg hnot, if_pos rfl]
    rfl
  · have hreq := (h id).1.request hne
    change s.scheduler.requests.get? id = if s.history.sendingSeen id = 0 then _ else none at hreq
    rw [hreq, hseen id hne, if_pos hsent, if_neg one_ne_zero]
  · have hloads := (h id).2
    have hle : s.history.loads id ≤ s.history.recvingSeen id + 1 := hloads.loads_le
    have hge : ∀ w, s.history.recvingSeen id ≤ s.history.received id w ∧
        s.history.received id w ≤ s.history.loads id := hloads.received_le
    have h₀ := hge 0
    by_cases hreceived : s.history.AllReceived id
    · rw [if_pos hreceived]
      by_contra hne
      -- a load that is under way has not been reported everywhere
      have hunder : s.history.loads id = s.history.recvingSeen id + 1 := by omega
      refine hloads.underway hunder (Finset.eq_univ_iff_forall.mpr fun w => ?_)
      exact mem_filter.mpr ⟨mem_univ w, (hreceived w).trans hunder⟩
    · rw [if_neg hreceived]
      have hlt : s.history.loads id ≠ s.history.recvingSeen id := fun heq =>
        hreceived fun w => by
          have := hge w
          omega
      omega

/-- **A transfer is reported finished once**, and when all parties are done: in every run whose steps
are orderly, the scheduler has seen each request with the last of its reports and not before, keeps its
blocks until then, and no step of the workers raises. -/
theorem reportedOnce_of_reach (h : (transferMachine P n batchQueue).Reach
    (fun s op => op.Fair s ∧ op.Orderly batchQueue s) s) :
    ReportedOnce s ∧ ∀ reports : Fin n → List TransferReport,
      (TransferOp.execute (P := P) reports).Fair s →
      (TransferOp.execute (P := P) reports).Orderly batchQueue s → s.inFlight ≠ [] →
      ∃ t, (transferMachine P n batchQueue).step s (.execute reports) = .ok t := by
  have hinv := invariant_of_reach h
  refine ⟨hinv.reportedOnce, fun reports hfair hord hne => ?_⟩
  obtain ⟨t, ht, -⟩ := hinv.execute hfair hord hne
  exact ⟨t, ht⟩

end Runs

/-! ## A step that is dropped -/

/-- One connector reports request 0 on every worker. -/
def savedBy (c : Nat) : Fin 2 → List TransferReport := fun _ =>
  if c = 0 then [{ sending := [0] }, {}] else [{}, { sending := [0] }]

/-- Two connectors save a request; the step after its end is executed. -/
def savedTransfer : List (TransferOp Unit 2) :=
  [.addRequest 0, .allocate 0 [7], .schedule 1, .execute fun _ => [{}, {}],
    .freeRequest 0 [(true, none), (true, none)], .schedule 1, .execute (savedBy 1), .schedule 1,
    .execute (savedBy 0)]

/-- Two connectors save a request, and the step after its end has no tokens. -/
def droppedTransfer : List (TransferOp Unit 2) :=
  [.addRequest 0, .allocate 0 [7], .schedule 1, .execute fun _ => [{}, {}],
    .freeRequest 0 [(true, none), (true, none)], .schedule 0, .addRequest 1, .schedule 1,
    .execute (savedBy 0)]

/-- The blocks are freed with the report of the second connector. -/
theorem reportedOnce_savedTransfer : ∃ s : TransferSystem 2, ReportedOnce s ∧
    s.history.sendingSeen 0 = 1 := by
  obtain ⟨s, hreach, hseen⟩ := (transferMachine Unit 2 true).exists_reach
    (fun s op => op.Fair s ∧ op.Orderly true s) savedTransfer (fun s => s.history.sendingSeen 0 = 1)
    (by decide +kernel)
  exact ⟨s, (reportedOnce_of_reach hreach).1, hseen⟩

/-- **The count is lost with the dropped step**: the scheduler frees the blocks with the report of the
first connector. -/
theorem droppedTransfer_freed : ∃ s : TransferSystem 2,
    (transferMachine Unit 2 true).Reach (fun s op => op.Fair s) s ∧ ¬ ReportedOnce s := by
  obtain ⟨s, hreach, hsavers, hone, hnot⟩ := (transferMachine Unit 2 true).exists_reach
    (fun s op => op.Fair s) droppedTransfer
    (fun s => s.history.savers 0 = [0, 1] ∧ s.history.sendingSeen 0 = 1 ∧ ¬ s.history.AllSent 0)
    (by decide +kernel)
  refine ⟨s, hreach, fun h => ?_⟩
  have hzero := h.sending 0 (by rw [hsavers]; exact List.cons_ne_nil _ _)
  rw [hone, if_neg hnot] at hzero
  exact one_ne_zero hzero

end InferenceServer.KVTransfer
