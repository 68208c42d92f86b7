import InferenceServer.Sched.Placement

/-!
# The order of the waiting requests

Under the fcfs policy the waiting queue is a deque, which a scheduling step takes requests from the
front of. A request that cannot be admitted yet goes to a second deque, the skipped requests, and
those go back in front of the waiting queue when the step ends. A skipped request is prepended to
the second deque, and the second deque is put back in its own order: the requests that a step skips
come back in the reverse of the order in which it met them.

The order is therefore kept by a step that skips at most one request, and by no other
(`orderKept_iff`). Nothing else in the step matters to it: requests that are admitted leave the
queue, requests that are preempted come to its front from outside, and what the loop does not reach
stays as it is.

## Main results

* `waitingLoop_rotated`, `orderKept_iff`
-/

namespace InferenceServer

open Outcome

/-- **The order is kept**: of two requests that stay in the queue, the one that was ahead is ahead. -/
def OrderKept (before after : List ReqId) : Prop :=
  ∀ a b, List.Sublist [a, b] before → a ∈ after → b ∈ after → List.Sublist [a, b] after

/-! ## The skipped requests -/

section Skips

variable (H : BlockHasher) (C : SchedulerConfig) (E : Environment)

/-- A request that waits for nothing else is skipped, because its tokens do not fit the budget in
one piece, or parked, because its blocks are loaded. -/
def Pass.putsOff (p : Pass) (rid : ReqId) : Bool :=
  match p.sched.getComputedTokens H C E (p.sched.request rid) with
  | .error _ => false
  | .ok (ct, s) =>
    match { p with sched := s }.waitingDemand C (s.request rid) ct with
    | .ok .skip => true
    | .ok (.demand d) =>
      match s.kvCacheManager.allocateSlots H (s.request rid)
        (d.numNewTokens + ct.numExternalComputedTokens) ct.numNewLocalComputedTokens
        ct.newComputedBlocks C.numLookaheadTokens ct.loadKvAsync with
      | .ok (some _, _) => ct.loadKvAsync
      | _ => false
    | _ => false

/-- The request at the head of the queue, if the loop skips or parks it. -/
def Pass.skipped (p : Pass) : Option ReqId :=
  match p.sched.waiting.peekRequest with
  | .error _ => none
  | .ok e =>
    match p.sched.resolveStatus H C E e.requestId with
    | .error _ => none
    | .ok (ready, s) =>
      if ready = false ∨ p.exceedsLoras C (s.request e.requestId) = true ∨
          { p with sched := s }.putsOff H C E e.requestId = true then some e.requestId
      else none

/-- The requests that the loop over the waiting requests skips or parks. -/
def loopSkips : Nat → Pass → List ReqId
  | 0, _ => []
  | fuel + 1, p =>
    if p.sched.waiting.length ≠ 0 ∧ 0 < p.tokenBudget ∧
        p.sched.running.length ≠ C.maxNumRunningReqs then
      (p.skipped H C E).toList ++ match p.visitWaiting H C E with
      | .ok (true, p') => loopSkips fuel p'
      | _ => []
    else []

/-- **The requests that a call of `schedule` skips or parks**, in the order in which it meets
them. -/
def Scheduler.skips (s : Scheduler) : List ReqId :=
  match runningLoop H C s.running.length (.start C s) with
  | .error _ => []
  | .ok p =>
    match p.recordLoras C with
    | .error _ => []
    | .ok p => if p.preemptedReqs = [] then loopSkips H C E (p.sched.waiting.length + 1) p else []

end Skips

/-! ## The loop over the waiting requests -/

/-- **In the middle of the loop**: the requests `skips` have been skipped, and taken from a part of the
`queue` before the loop that the loop has come past. -/
structure Pass.Rotated (queue : List QueueEntry) (skips : List ReqId) (p : Pass) : Prop where
  taken : ∃ taken rest skipped, queue = taken ++ rest ∧ p.sched.waiting = .fcfs rest ∧
    p.skippedWaitingRequests = .fcfs skipped ∧ skipped.reverse.Sublist taken ∧
    skipped.reverse.map QueueEntry.requestId = skips

section Loop

variable {H : BlockHasher} {C : SchedulerConfig} {E : Environment} {p p' : Pass}
  {queue : List QueueEntry} {skips : List ReqId}

variable (h : p.Rotated queue skips)

include h

/-- A change of neither queue. -/
theorem Pass.Rotated.congr (hw : p'.sched.waiting = p.sched.waiting)
    (hs : p'.skippedWaitingRequests = p.skippedWaitingRequests) : p'.Rotated queue skips :=
  ⟨by rw [hw, hs]; exact h.taken⟩

/-- The head of the queue goes to the front of the skipped requests. -/
theorem Pass.Rotated.skip {e : QueueEntry}
    (hpeek : p.sched.waiting.peekRequest = .ok e) (hskip : p.skipWaiting = .ok p') :
    p'.Rotated queue (skips ++ [e.requestId]) := by
  obtain ⟨taken, rest, skipped, rfl, hw, hs, hsub, hids⟩ := h.taken
  obtain ⟨a, w, sk, hpop, hpre, rfl⟩ := skipWaiting_ok hskip
  obtain rfl : e = a := by simpa [hpeek] using (RequestQueue.popRequest_ok hpop).1
  rw [hw] at hpop
  cases rest with
  | nil => simp [RequestQueue.popRequest] at hpop
  | cons b rest =>
    obtain ⟨rfl, rfl⟩ : b = e ∧ RequestQueue.fcfs rest = w := by
      simpa [RequestQueue.popRequest] using hpop
    obtain rfl : RequestQueue.fcfs (b :: skipped) = sk := by
      simpa [hs, RequestQueue.prependRequest] using hpre
    refine ⟨taken ++ [b], rest, b :: skipped, by simp, rfl, rfl, ?_, ?_⟩
    · rw [List.reverse_cons]
      exact hsub.append (.refl _)
    · rw [List.reverse_cons, List.map_append, hids]
      rfl

/-- The head of the queue is admitted. -/
theorem Pass.Rotated.admitWaiting {rid : ReqId} {d : Demand}
    {ct : ComputedTokens} (hadmitted : p.admitWaiting C rid d ct = .ok p') : p'.Rotated queue skips := by
  obtain ⟨taken, rest, skipped, rfl, hw, hs, hsub, hids⟩ := h.taken
  have ha := admit_ok hadmitted
  obtain ⟨e, hpop⟩ := ha.waiting
  rw [hw] at hpop
  cases rest with
  | nil => simp [RequestQueue.popRequest] at hpop
  | cons b rest =>
    obtain ⟨rfl, hw'⟩ : b = e ∧ RequestQueue.fcfs rest = p'.sched.waiting := by
      simpa [RequestQueue.popRequest] using hpop
    exact ⟨taken ++ [b], rest, skipped, by simp, hw'.symm, ha.skippedWaitingRequests.trans hs,
      hsub.trans (List.sublist_append_left _ _), hids⟩

/-- A visit to a request that waits for nothing else. -/
theorem Pass.Rotated.scheduleWaiting {e : QueueEntry} {goOn : Bool}
    (hpeek : p.sched.waiting.peekRequest = .ok e)
    (hvisit : p.scheduleWaiting H C E e.requestId = .ok (goOn, p')) :
    p'.Rotated queue (skips ++
      if p.putsOff H C E e.requestId = true then [e.requestId] else []) := by
  obtain ⟨⟨ct, s⟩, hct, hvisit⟩ := bind_eq_ok.mp hvisit
  obtain ⟨wd, hwd, hvisit⟩ := bind_eq_ok.mp hvisit
  obtain ⟨k, rfl, -⟩ := getComputedTokens_ok hct
  have hrot : { p with sched := p.sched.withKV k : Pass }.Rotated queue skips := h.congr rfl rfl
  obtain ⟨off, hoff⟩ : ∃ off, p.putsOff H C E e.requestId = off := ⟨_, rfl⟩
  rw [hoff]
  simp only [Pass.putsOff, hct] at hoff
  rw [hwd] at hoff
  cases wd with
  | skip =>
    obtain ⟨p₁, hskip, hvisit⟩ := bind_eq_ok.mp hvisit
    cases hvisit
    subst hoff
    exact hrot.skip hpeek hskip
  | stop =>
    cases hvisit
    subst hoff
    simpa using hrot
  | demand d =>
    obtain ⟨⟨newBlocks, k'⟩, halloc, hvisit⟩ := bind_eq_ok.mp hvisit
    dsimp only at halloc hvisit hoff
    rw [halloc] at hoff
    cases newBlocks with
    | none =>
      cases hvisit
      subst hoff
      have hrot' : { p with sched := (p.sched.withKV k).withKV k' : Pass }.Rotated queue skips :=
        h.congr rfl rfl
      simpa using hrot'
    | some blocks =>
      have hrot' : { p with sched := (p.sched.withKV k).withKV k' : Pass }.Rotated queue skips :=
        h.congr rfl rfl
      cases hasync : ct.loadKvAsync with
      | true =>
        simp only [hasync, if_true] at hvisit
        obtain ⟨p₁, hpark, hvisit⟩ := bind_eq_ok.mp hvisit
        cases hvisit
        obtain ⟨p₂, hskip, rfl⟩ := parkRemote_ok hpark
        obtain rfl : true = off := hasync ▸ hoff
        exact (hrot'.skip hpeek hskip).congr rfl rfl
      | false =>
        simp only [hasync, Bool.false_eq_true, if_false] at hvisit
        obtain ⟨p₁, hadmitted, hvisit⟩ := bind_eq_ok.mp hvisit
        cases hvisit
        obtain rfl : false = off := hasync ▸ hoff
        simpa using hrot'.admitWaiting hadmitted

/-- **One visit of the loop.** -/
theorem Pass.Rotated.visitWaiting {goOn : Bool} (hvisit : p.visitWaiting H C E = .ok (goOn, p')) :
    p'.Rotated queue (skips ++ (p.skipped H C E).toList) := by
  obtain ⟨e, hpeek, hvisit⟩ := bind_eq_ok.mp hvisit
  obtain ⟨⟨ready, s⟩, hres, hvisit⟩ := bind_eq_ok.mp hvisit
  have hw := (resolveStatus_queues hres).1
  have hrot : { p with sched := s : Pass }.Rotated queue skips := h.congr hw rfl
  have hpeek' : s.waiting.peekRequest = .ok e := hw ▸ hpeek
  unfold Pass.skipped
  rw [hpeek]
  dsimp only
  rw [hres]
  dsimp only at hvisit ⊢
  split at hvisit
  next hskips =>
    obtain ⟨p₁, hskip, hvisit⟩ := bind_eq_ok.mp hvisit
    cases hvisit
    rw [if_pos (hskips.imp_right .inl)]
    exact hrot.skip hpeek' hskip
  next hskips =>
    have hput := hrot.scheduleWaiting hpeek' hvisit
    have hiff : (ready = false ∨ p.exceedsLoras C (s.request e.requestId) = true ∨
        { p with sched := s }.putsOff H C E e.requestId = true) ↔
        { p with sched := s }.putsOff H C E e.requestId = true :=
      ⟨fun ho => (or_assoc.mpr ho).resolve_left hskips, fun ho => .inr (.inr ho)⟩
    simp only [hiff]
    split at hput
    next hoff => simpa [hoff] using hput
    next hoff => simpa [hoff] using hput

/-- **The loop leaves the skipped requests in the reverse of their order.** -/
theorem waitingLoop_rotated {fuel : Nat} (hloop : waitingLoop H C E fuel p = .ok p') :
    p'.Rotated queue (skips ++ loopSkips H C E fuel p) := by
  induction fuel generalizing p skips with
  | zero => simp [waitingLoop] at hloop
  | succ fuel ih =>
    unfold waitingLoop at hloop
    unfold loopSkips
    split at hloop
    next hcond =>
      rw [if_pos hcond]
      obtain ⟨⟨goOn, p₁⟩, hvisit, hloop⟩ := bind_eq_ok.mp hloop
      have hrot := h.visitWaiting hvisit
      rw [hvisit, ← List.append_assoc]
      cases goOn with
      | true => exact ih hrot hloop
      | false =>
        cases hloop
        simpa using hrot
    next hcond =>
      rw [if_neg hcond]
      cases hloop
      simpa using h

end Loop

/-! ## The loop over the running requests -/

section Running

variable {H : BlockHasher} {C : SchedulerConfig} {p p' : Pass} {s s' : Scheduler} {rid : ReqId}
  {queue : List QueueEntry}

/-- The requests that are preempted come to the front of the queue. -/
theorem allocateOrPreempt_queue {n : Int} {fuel : Nat} {pre pre' : List ReqId}
    {res : Option (List (List BlockId))} (hw : s.waiting = .fcfs queue)
    (h : s.allocateOrPreempt H C rid n fuel pre = .ok (res, s', pre')) :
    ∃ l, s'.waiting = .fcfs (l ++ queue) ∧ pre'.length = pre.length + l.length := by
  induction fuel generalizing s pre queue with
  | zero => simp [Scheduler.allocateOrPreempt] at h
  | succ fuel ih =>
    obtain ⟨⟨newBlocks, k⟩, -, h⟩ := bind_eq_ok.mp h
    cases newBlocks with
    | some blocks =>
      cases h
      exact ⟨[], hw, rfl⟩
    | none =>
      obtain ⟨v, -, h⟩ := bind_eq_ok.mp h
      obtain ⟨s₂, hs₂, h⟩ := bind_eq_ok.mp h
      have hpre := (Scheduler.preempt_ok hs₂).waiting
      obtain ⟨e, hw₂⟩ : ∃ e, s₂.waiting = .fcfs (e :: queue) := by
        rw [Scheduler.waiting_withKV, hw] at hpre
        exact ⟨_, (Except.ok.inj hpre).symm⟩
      split at h
      next =>
        cases h
        exact ⟨[e], hw₂, by simp⟩
      next =>
        obtain ⟨l, hw', hlen⟩ := ih hw₂ h
        refine ⟨l ++ [e], by simpa using hw', ?_⟩
        rw [hlen, List.length_append, List.length_append, List.length_singleton,
          List.length_singleton]
        omega

theorem visitRunning_queue {goOn : Bool} (hw : p.sched.waiting = .fcfs queue)
    (h : p.visitRunning H C rid = .ok (goOn, p')) :
    ∃ l, p'.sched.waiting = .fcfs (l ++ queue) ∧
      p'.preemptedReqs.length = p.preemptedReqs.length + l.length ∧
      p'.skippedWaitingRequests = p.skippedWaitingRequests := by
  unfold Pass.visitRunning at h
  dsimp only at h
  split at h
  next =>
    cases h
    exact ⟨[], hw, rfl, rfl⟩
  next =>
    obtain ⟨⟨res, s, pre⟩, hloop, h⟩ := bind_eq_ok.mp h
    obtain ⟨l, hw', hlen⟩ := allocateOrPreempt_queue hw hloop
    cases res with
    | none =>
      cases h
      exact ⟨l, hw', hlen, rfl⟩
    | some blocks =>
      cases h
      have heff := { p with sched := s, preemptedReqs := pre : Pass }.scheduleRunning_effect rid
        (p.runningDemand C (p.sched.request rid)) blocks
      exact ⟨l, heff.waiting.trans hw', heff.preemptedReqs ▸ hlen, heff.skippedWaitingRequests⟩

/-- **The loop puts the requests that it preempts in front of the queue**, and skips none. -/
theorem runningLoop_queue {fuel : Nat} (hw : p.sched.waiting = .fcfs queue)
    (h : runningLoop H C fuel p = .ok p') :
    ∃ l, p'.sched.waiting = .fcfs (l ++ queue) ∧
      p'.preemptedReqs.length = p.preemptedReqs.length + l.length ∧
      p'.skippedWaitingRequests = p.skippedWaitingRequests := by
  induction fuel generalizing p queue with
  | zero =>
    unfold runningLoop at h
    split at h
    · simp at h
    · cases h
      exact ⟨[], hw, rfl, rfl⟩
  | succ fuel ih =>
    unfold runningLoop at h
    split at h
    next =>
      cases h
      exact ⟨[], hw, rfl, rfl⟩
    next rid hrid =>
      split at h
      next =>
        obtain ⟨⟨goOn, p₁⟩, hvisit, h⟩ := bind_eq_ok.mp h
        obtain ⟨l, hw₁, hlen₁, hs₁⟩ := visitRunning_queue hw hvisit
        cases goOn with
        | true =>
          obtain ⟨l', hw', hlen', hs'⟩ := ih hw₁ h
          refine ⟨l' ++ l, by simpa using hw', ?_, hs'.trans hs₁⟩
          rw [hlen', hlen₁, List.length_append]
          omega
        | false =>
          cases h
          exact ⟨l, hw₁, hlen₁, hs₁⟩
      next =>
        cases h
        exact ⟨[], hw, rfl, rfl⟩

end Running

/-! ## A call of `schedule` -/

section Step

variable {H : BlockHasher} {C : SchedulerConfig} {E : Environment} {s : Scheduler} {p : Pass}

/-- **The queue after the loops**: the skipped requests in the reverse of their order, what the loop did
not reach, and in front of both the preempted requests, if there are any. -/
structure Rearranged (before skips after : List ReqId) : Prop where
  split : ∃ preempted taken rest, before = taken ++ rest ∧
    after = preempted ++ skips.reverse ++ rest ∧ skips.Sublist taken ∧
    (preempted = [] ∨ taken = [])

/-- **What a scheduling step does to the queue.** -/
theorem schedulePass_rearranged (hpolicy : C.policy = .fcfs) (hw : s.waiting.policy = .fcfs)
    (h : s.schedulePass H C E = .ok p) :
    Rearranged s.waiting.ids (s.skips H C E) p.sched.waiting.ids ∧
      p.sched.waiting.policy = .fcfs := by
  obtain ⟨queue, hw⟩ := RequestQueue.eq_fcfs_of_policy hw
  obtain ⟨p₁, hrun, h⟩ := bind_eq_ok.mp h
  obtain ⟨p₂, hlora, h⟩ := bind_eq_ok.mp h
  obtain ⟨p₃, hwait, hrestore⟩ := bind_eq_ok.mp h
  obtain ⟨l, hw₁, hlen, hsk₁⟩ := runningLoop_queue (p := .start C s) hw hrun
  have hskips : s.skips H C E =
      if p₂.preemptedReqs = [] then loopSkips H C E (p₂.sched.waiting.length + 1) p₂ else [] := by
    simp only [Scheduler.skips, hrun, hlora]
  obtain ⟨hw₂, hsk₂, hpre₂⟩ : p₂.sched.waiting = .fcfs (l ++ queue) ∧
      p₂.skippedWaitingRequests = .fcfs [] ∧ p₂.preemptedReqs = p₁.preemptedReqs := by
    obtain ⟨loras, rfl⟩ := recordLoras_ok hlora
    refine ⟨hw₁, ?_, rfl⟩
    rw [hsk₁, Pass.start, hpolicy]
    rfl
  have hids : s.waiting.ids = queue.map QueueEntry.requestId := congrArg RequestQueue.ids hw
  unfold Pass.scheduleWaitingReqs at hwait
  split at hwait
  next hpre =>
    -- nothing was preempted, and the loop over the waiting requests has its turn
    have hl : l = [] := by
      rw [← hpre₂, hpre] at hlen
      exact List.length_eq_zero_iff.mp (by simpa [Pass.start] using hlen.symm)
    subst hl
    have hstart : p₂.Rotated queue [] := ⟨[], queue, [], rfl, hw₂, hsk₂, .refl _, rfl⟩
    obtain ⟨taken, rest, skipped, hq, hw₃, hsk₃, hsub, hmap⟩ :=
      (waitingLoop_rotated hstart hwait).taken
    rw [List.nil_append] at hmap
    rw [hskips, if_pos hpre, ← hmap, hids, hq]
    have hafter : p.sched.waiting = .fcfs (skipped ++ rest) := by
      unfold Pass.restoreSkipped at hrestore
      rw [hsk₃] at hrestore
      split at hrestore
      next hlen₃ =>
        cases hrestore
        obtain rfl : skipped = [] := List.length_eq_zero_iff.mp hlen₃
        exact hw₃
      next =>
        obtain ⟨w, hprep, hrestore⟩ := bind_eq_ok.mp hrestore
        cases hrestore
        rw [hw₃] at hprep
        exact (Except.ok.inj hprep).symm
    refine ⟨⟨[], taken.map QueueEntry.requestId, rest.map QueueEntry.requestId,
      List.map_append, ?_, hsub.map _, .inl rfl⟩, by rw [hafter]; rfl⟩
    rw [List.map_reverse, List.reverse_reverse, List.nil_append, ← List.map_append, hafter]
    rfl
  next hpre =>
    cases hwait
    unfold Pass.restoreSkipped at hrestore
    rw [hsk₂] at hrestore
    cases hrestore
    rw [hskips, if_neg hpre]
    refine ⟨⟨l.map QueueEntry.requestId, [], queue.map QueueEntry.requestId, hids, ?_,
      List.Sublist.refl _, .inr rfl⟩, by rw [hw₂]; rfl⟩
    rw [hw₂]
    simp [RequestQueue.ids, RequestQueue.entries]

/-- A list without duplicates does not have two elements in both orders. -/
theorem not_sublist_swap {α : Type} {a b : α} {l : List α} (h : (a :: l).Nodup) :
    ¬ List.Sublist [b, a] (a :: l) := fun hsub => by
  have ha : a ∉ l := (List.nodup_cons.mp h).1
  rcases List.sublist_cons_iff.mp hsub with hl | ⟨t, ht, hl⟩
  · exact ha (hl.subset (by simp))
  · obtain ⟨-, rfl⟩ : b = a ∧ [a] = t := by simpa using ht
    exact ha (hl.subset (by simp))

/-- **The order is kept exactly if at most one request is skipped.** -/
theorem Rearranged.keptOrder_iff {before skips after : List ReqId}
    (h : Rearranged before skips after) (hn : before.Nodup) (hn' : after.Nodup) :
    OrderKept before after ↔ skips.length ≤ 1 := by
  obtain ⟨preempted, taken, rest, rfl, rfl, hsub, hone⟩ := h.split
  constructor
  · intro hkept
    by_contra hlen
    -- the last two requests that were skipped stand in the other order
    obtain ⟨l, a, b, rfl⟩ : ∃ l a b, skips = l ++ [a, b] := by
      match hrev : skips.reverse with
      | [] => simp_all
      | [x] =>
        have := congrArg List.length hrev
        simp at this
        omega
      | b :: a :: l =>
        refine ⟨l.reverse, a, b, ?_⟩
        rw [← List.reverse_reverse skips, hrev]
        simp
    obtain rfl : preempted = [] := hone.resolve_right fun ht => by simp [ht] at hsub
    have hnd : (b :: a :: (l.reverse ++ rest)).Nodup := by simpa using hn'
    have := hkept a b (((List.sublist_append_right _ _).trans hsub).trans
      (List.sublist_append_left _ _)) (by simp) (by simp)
    exact not_sublist_swap hnd (by simpa using this)
  · intro hlen a b hab ha hb
    rcases hone with rfl | rfl
    · have hskips : skips.reverse = skips := by
        match skips, hlen with
        | [], _ => rfl
        | [x], _ => rfl
      rw [hskips, List.nil_append] at ha hb ⊢
      have htaken : ∀ c ∈ taken, c ∈ skips ++ rest → c ∈ skips := fun c hc hmem =>
        (List.mem_append.mp hmem).resolve_right fun hr => (List.disjoint_of_nodup_append hn) hc hr
      obtain ⟨l₁, l₂, hl, h₁, h₂⟩ := List.sublist_append_iff.mp hab
      match l₁, hl with
      | [], hl =>
        rw [hl]
        exact h₂.trans (List.sublist_append_right _ _)
      | [x], hl =>
        obtain ⟨rfl, rfl⟩ : a = x ∧ [b] = l₂ := by simpa using hl
        have hmem := htaken a (h₁.subset (by simp)) ha
        exact (List.singleton_sublist.mpr hmem).append h₂
      | x :: y :: l, hl =>
        obtain ⟨rfl, rfl, -⟩ : a = x ∧ b = y ∧ [] = l ++ l₂ := by simpa using hl
        -- there is only one skipped request
        obtain ⟨c, rfl⟩ : ∃ c, skips = [c] := by
          match skips, hlen, htaken a (h₁.subset (by simp)) ha with
          | [c], _, _ => exact ⟨c, rfl⟩
        obtain rfl : a = c := by simpa using htaken a (h₁.subset (by simp)) ha
        obtain rfl : b = a := by simpa using htaken b (h₁.subset (by simp)) hb
        have := hn.sublist (h₁.trans (List.sublist_append_left _ _))
        simp at this
    · exact (hab.trans (List.sublist_append_right _ _) : List.Sublist [a, b] _)

end Step

/-! ## Runs -/

section Runs

variable {H : BlockHasher} {C : SchedulerConfig} {E : Environment} {s : Engine} {s₀ : Scheduler}

/-- The waiting queue stays a deque. -/
theorem waiting_policy_of_reach (hpolicy : C.policy = .fcfs) (hinit : Scheduler.init C = .ok s₀)
    (hs : (engineMachine H C s₀).Reach UnusedIds s) : s.sched.waiting.policy = .fcfs := by
  induction hs with
  | start =>
    obtain ⟨_, -, h₁⟩ := bind_eq_ok.mp hinit
    obtain ⟨k, -, h₂⟩ := bind_eq_ok.mp h₁
    cases h₂
    exact (RequestQueue.policy_create C.policy).trans hpolicy
  | @next s s' op hs hok hstep ih =>
    have hplaced := Engine.places_of_reach hinit hs
    cases Engine.step_cases hstep with
    | addRequest hadd =>
      exact (addRequest_ok hadd).policy.trans ih
    | @schedule _ _ sched hsched =>
      obtain ⟨p, hp⟩ := schedule_ok hsched
      have hw : sched.waiting = p.sched.waiting := hp.advances.waiting
      exact hw ▸ (schedulePass_rearranged hpolicy ih hp.pass).2
    | updateFromOutput _ hup =>
      obtain ⟨u, hu, -⟩ := updateFromOutput_ok hup
      have hw : u.sched.waiting = s.sched.waiting := updateLoop_waiting hu.loop
      exact hu.policy.trans (hw ▸ ih)
    | @finishRequests _ _ _ sched hfin =>
      obtain ⟨-, valid, -, -, w, ⟨-, hpol⟩, hloop⟩ :=
        finishRequests_ok hplaced.1.nodupR hfin
      have hw : sched.waiting = w := finishLoop_waiting hloop
      exact hw ▸ hpol.trans ih

/-- **A scheduling step keeps the order of the requests that stay in the queue exactly if it skips
at most one of them.** -/
theorem orderKept_iff (hpolicy : C.policy = .fcfs) (hinit : Scheduler.init C = .ok s₀)
    (hs : (engineMachine H C s₀).Reach UnusedIds s) {output : SchedulerOutput} {sched : Scheduler}
    (hsched : s.sched.schedule H C E = .ok (output, sched)) :
    OrderKept s.sched.waiting.ids sched.waiting.ids ↔ (s.sched.skips H C E).length ≤ 1 := by
  have hplaced := Engine.places_of_reach hinit hs
  obtain ⟨hplaces, -⟩ := schedule_places hplaced.1 hplaced.2.mem_objects hsched
  obtain ⟨p, hp⟩ := schedule_ok hsched
  have hw : sched.waiting = p.sched.waiting := hp.advances.waiting
  obtain ⟨hre, -⟩ := schedulePass_rearranged hpolicy
    (waiting_policy_of_reach hpolicy hinit hs) hp.pass
  rw [← hw] at hre
  exact hre.keptOrder_iff hplaced.1.nodupW hplaces.nodupW

/-- The waiting queue before and after a step that follows a run. -/
def queueAfter (C : SchedulerConfig) (E : Environment) (ops : List EngineOp) :
    Option (List ReqId × List ReqId) :=
  (runEngine .encoding C UnusedIds ops).bind fun s =>
    match s.sched.schedule .encoding C E with
    | .ok (_, sched) => some (s.sched.waiting.ids, sched.waiting.ids)
    | .error _ => none

theorem queueAfter_ok {ops : List EngineOp} {before after : List ReqId}
    (h : queueAfter C E ops = some (before, after)) :
    ∃ s₀ s output sched, Scheduler.init C = .ok s₀ ∧
      (engineMachine .encoding C s₀).Reach UnusedIds s ∧
      s.sched.schedule .encoding C E = .ok (output, sched) ∧
      s.sched.waiting.ids = before ∧ sched.waiting.ids = after := by
  obtain ⟨s, hs, h⟩ := Option.bind_eq_some_iff.mp h
  obtain ⟨s₀, hinit, hreach⟩ := reach_runEngine hs
  split at h
  next output sched hsched =>
    cases h
    exact ⟨s₀, s, output, sched, hinit, hreach, hsched, rfl, rfl⟩
  next => simp at h

/-- A request whose output follows a grammar. -/
def grammarRequest (requestId : ReqId) : Request :=
  { textRequest requestId [1, 2] with
    samplingParams := some { maxTokens := 16, guidedDecoding := true } }

/-- No grammar is compiled yet. -/
def compiling : Environment := { grammarReady := fun _ => false }

/-- The first of four requests waits for its grammar, and there is room for the next two. -/
def oneSkipRun : List EngineOp :=
  [.addRequest (grammarRequest 1), .addRequest (textRequest 2 [1, 2]),
   .addRequest (textRequest 3 [1, 2]), .addRequest (textRequest 4 [1, 2])]

/-- **One skipped request** stays ahead of the one that is not reached. -/
theorem orderKept_oneSkipRun :
    ∃ s₀ s output sched, Scheduler.init (pairConfig 16 32) = .ok s₀ ∧
      (engineMachine .encoding (pairConfig 16 32) s₀).Reach UnusedIds s ∧
      s.sched.schedule .encoding (pairConfig 16 32) compiling = .ok (output, sched) ∧
      s.sched.waiting.ids = [1, 2, 3, 4] ∧ sched.waiting.ids = [1, 4] ∧
      (OrderKept [1, 2, 3, 4] [1, 4] ↔
        (s.sched.skips .encoding (pairConfig 16 32) compiling).length ≤ 1) := by
  have hafter : queueAfter (pairConfig 16 32) compiling oneSkipRun =
      some ([1, 2, 3, 4], [1, 4]) := by decide +kernel
  obtain ⟨s₀, s, output, sched, hinit, hreach, hsched, hbefore, hq⟩ := queueAfter_ok hafter
  refine ⟨s₀, s, output, sched, hinit, hreach, hsched, hbefore, hq, ?_⟩
  rw [← hbefore, ← hq]
  exact orderKept_iff rfl hinit hreach hsched

/-- **Two skipped requests** change places. -/
theorem not_orderKept_compiling :
    ∃ s₀ s output sched, Scheduler.init (pairConfig 16 32) = .ok s₀ ∧
      (engineMachine .encoding (pairConfig 16 32) s₀).Reach UnusedIds s ∧
      s.sched.schedule .encoding (pairConfig 16 32) compiling = .ok (output, sched) ∧
      ¬ OrderKept s.sched.waiting.ids sched.waiting.ids := by
  have hafter : queueAfter (pairConfig 16 32) compiling
      [.addRequest (grammarRequest 1), .addRequest (grammarRequest 2)] =
        some ([1, 2], [2, 1]) := by decide +kernel
  obtain ⟨s₀, s, output, sched, hinit, hreach, hsched, hbefore, hq⟩ := queueAfter_ok hafter
  refine ⟨s₀, s, output, sched, hinit, hreach, hsched, fun hkept => ?_⟩
  rw [hbefore, hq] at hkept
  have hsub := hkept 1 2 (.refl _) (by simp) (by simp)
  exact absurd (hsub.eq_of_length rfl) (by decide)

end Runs

end InferenceServer
