import InferenceServer.Sched.Placement
import InferenceServer.Sched.Demand

/-!
# The books of a scheduling step

What the local variables of `schedule` say about the step so far: which requests it has not come to,
which it has scheduled or preempted, and how much of the token budget is used.

A request may be both scheduled and preempted in a step, under the priority policy. The books are
therefore kept for both: a scheduled request is still running or has been preempted since.
-/

namespace InferenceServer

open Outcome

/-! ## Requests that the step has not come to -/

/-- The running requests that have not been scheduled in this step are as they were at its start. -/
structure Pass.Untouched (s : Scheduler) (p : Pass) : Prop where
  placed : p.Placed
  untouched : ∀ id ∈ p.sched.running, id ∉ p.numScheduledTokens →
    id ∈ s.running ∧ p.sched.request id = s.request id

section Untouched

variable {H : BlockHasher} {C : SchedulerConfig} {E : Environment} {s : Scheduler} {p p' : Pass}
  {rid : ReqId}

theorem Pass.untouched_start (h : s.Places s.running s.waiting.ids) :
    Pass.Untouched s (.start C s) := by
  refine ⟨?_, fun id hid _ => ⟨hid, rfl⟩⟩
  unfold Pass.Placed
  simpa [Pass.start] using h

/-- A request changes that is not running, or that is scheduled now. -/
theorem Pass.Untouched.of_modify (h : p.Untouched s) (hplaced : p'.Placed) {f : Request → Request}
    (hobj : p'.sched.objects = (p.sched.modify rid f).objects)
    (hrun : ∀ id ∈ p'.sched.running, id ∉ p'.numScheduledTokens →
      id ≠ rid ∧ id ∈ p.sched.running ∧ id ∉ p.numScheduledTokens) : Pass.Untouched s p' := by
  refine ⟨hplaced, fun id hid hun => ?_⟩
  obtain ⟨hne, hid', hun'⟩ := hrun id hid hun
  rw [Scheduler.request_congr hobj, Scheduler.request_modify_ne hne]
  exact h.untouched id hid' hun'

theorem Pass.Untouched.congr (h : p.Untouched s) (hplaced : p'.Placed)
    (hobj : p'.sched.objects = p.sched.objects) (hrun : p'.sched.running = p.sched.running)
    (hsch : p'.numScheduledTokens = p.numScheduledTokens) : Pass.Untouched s p' := by
  refine ⟨hplaced, fun id hid hun => ?_⟩
  rw [Scheduler.request_congr hobj]
  exact h.untouched id (hrun ▸ hid) (hsch ▸ hun)

/-- A waiting request is not running. -/
theorem Pass.Placed.ne_of_running (h : p.Placed) (hat : p.AtWaiting C rid) {id : ReqId}
    (hid : id ∈ p.sched.running) : id ≠ rid := by
  rintro rfl
  have h₁ := ((Scheduler.Places.running h id).mp hid).2
  rw [(h.mem_queue hat).2] at h₁
  cases h₁

/-- **Every move** leaves the running requests alone that it does not schedule. -/
theorem Pass.Untouched.move (h : p.Untouched s) (hm : Pass.Move H C E p p') :
    Pass.Untouched s p' := by
  have hplaced := h.placed.move hm
  cases hm with
  | passOver => exact h.congr hplaced rfl rfl rfl
  | @preempt rid v k s' hat hpos halloc hv hs =>
    have hp := Scheduler.preempt_ok hs
    have hrun : s'.running = p.sched.running.erase v :=
      hp.running.trans (Scheduler.removeVictim_eq hat.nodup hv)
    refine h.of_modify hplaced hp.objects fun id hid hun => ?_
    rw [hrun] at hid
    exact ⟨(hat.nodup.mem_erase_iff.mp hid).1, List.mem_of_mem_erase hid, hun⟩
  | @scheduleRunning rid blocks k hat hpos halloc =>
    have he := (p.withKV k).scheduleRunning_effect rid
      (p.runningDemand C (p.sched.request rid)) blocks
    refine h.of_modify hplaced (f := fun r => r.trimDrafts _) he.objects fun id hid hun => ?_
    rw [he.running] at hid
    rw [he.numScheduledTokens, Dict.mem_set, not_or] at hun
    exact ⟨hun.1, hid, hun.2⟩
  | recordLoras hl =>
    obtain ⟨loras, rfl⟩ := recordLoras_ok hl
    exact h.congr hplaced rfl rfl rfl
  | @resolveStatus rid ready s' hat hres =>
    have hne : ∀ id ∈ p.sched.running, id ≠ rid := fun _ => h.placed.ne_of_running hat
    refine ⟨hplaced, fun id hid hun => ?_⟩
    rw [(resolveStatus_queues hres).2] at hid
    rcases resolveStatus_ok hres with rfl | ⟨-, n, s₁, hrec, rfl⟩ | ⟨-, rfl⟩
    · exact h.untouched id hid hun
    · rw [Scheduler.request_modify_ne (hne id hid), Scheduler.request_congr hrec.objects,
        Scheduler.request_modify_ne (hne id hid)]
      exact h.untouched id hid hun
    · rw [Scheduler.request_modify_ne (hne id hid)]
      exact h.untouched id hid hun
  | skip hat hskip =>
    obtain ⟨e, w, sk, -, -, rfl⟩ := skipWaiting_ok hskip
    exact h.congr hplaced rfl rfl rfl
  | lookUp hat hct =>
    obtain ⟨k, rfl, -⟩ := getComputedTokens_ok hct
    exact h.congr hplaced rfl rfl rfl
  | noSlots hat halloc => exact h.congr hplaced rfl rfl rfl
  | @park _ rid ct s₀ d blocks k hat hct hd hasync halloc hp =>
    obtain ⟨p₁, hskip, rfl⟩ := parkRemote_ok hp
    obtain ⟨e, w, sk, -, -, rfl⟩ := skipWaiting_ok hskip
    exact h.of_modify hplaced (f := fun r => r.withStatus .waitingForRemoteKvs) rfl
      fun id hid hun => ⟨h.placed.ne_of_running hat hid, hid, hun⟩
  | @admitWaiting _ rid ct s₀ d blocks k hat hct hd hasync halloc ha =>
    have he := admit_ok ha
    refine h.of_modify hplaced (f := fun r => r.admitted _) he.objects fun id hid hun => ?_
    rw [he.running, List.mem_append, List.mem_singleton] at hid
    rw [he.numScheduledTokens, Dict.mem_set, not_or] at hun
    exact ⟨hun.1, hid.resolve_right hun.1, hun.2⟩

end Untouched

/-! ## The books -/

/-- **The books of a step** that started in `s`. -/
structure Pass.Books (C : SchedulerConfig) (s : Scheduler) (p : Pass) : Prop where
  untouched : p.Untouched s
  budget : p.tokenBudget = C.maxNumScheduledTokens - p.numScheduledTokens.total id
  scheduled : ∀ id ∈ p.numScheduledTokens, id ∈ p.sched.running ∨ id ∈ p.preemptedReqs
  preempted : ∀ id ∈ p.preemptedReqs,
    id ∉ p.sched.running ∧ (p.sched.request id).status = .preempted
  lists : (p.scheduledNewReqs ++ p.scheduledResumedReqs ++ p.scheduledRunningReqs).Perm
    p.numScheduledTokens.keys

section Books

variable {H : BlockHasher} {C : SchedulerConfig} {E : Environment} {s : Scheduler} {p p' : Pass}
  {rid : ReqId}

theorem Pass.books_start (h : s.Places s.running s.waiting.ids) : Pass.Books C s (.start C s) :=
  ⟨Pass.untouched_start h, by simp [Pass.start], fun id hid => absurd hid (Dict.notMem_empty id),
    fun id hid => absurd hid List.not_mem_nil, List.Perm.refl _⟩

/-- A waiting request has not been scheduled in this step. -/
theorem Pass.Books.unscheduled_waiting (h : p.Books C s) (hat : p.AtWaiting C rid) :
    rid ∉ p.numScheduledTokens := fun hid => by
  rcases h.scheduled rid hid with hrun | hpre
  · exact h.untouched.placed.ne_of_running hat hrun rfl
  · simp [hat.unpreempted] at hpre

/-- A move that schedules nothing and preempts nothing. -/
theorem Pass.Books.quiet (h : p.Books C s) (hunt : p'.Untouched s)
    (hrun : p'.sched.running = p.sched.running)
    (hreq : ∀ id ∈ p.preemptedReqs, p'.sched.request id = p.sched.request id)
    (hpre : p'.preemptedReqs = p.preemptedReqs) (hbudget : p'.tokenBudget = p.tokenBudget)
    (hsch : p'.numScheduledTokens = p.numScheduledTokens)
    (hnew : p'.scheduledNewReqs = p.scheduledNewReqs)
    (hres : p'.scheduledResumedReqs = p.scheduledResumedReqs)
    (hrunning : p'.scheduledRunningReqs = p.scheduledRunningReqs) : p'.Books C s := by
  refine ⟨hunt, ?_, fun id hid => ?_, fun id hid => ?_, ?_⟩
  · rw [hbudget, hsch]
    exact h.budget
  · rw [hrun, hpre]
    exact h.scheduled id (hsch ▸ hid)
  · rw [hpre] at hid
    rw [hrun, hreq id hid]
    exact h.preempted id hid
  · rw [hnew, hres, hrunning, hsch]
    exact h.lists

/-- **Every move keeps the books.** -/
theorem Pass.Books.move (h : p.Books C s) (hm : Pass.Move H C E p p') : p'.Books C s := by
  have hunt := h.untouched.move hm
  have hnone : ∀ rid, p.AtWaiting C rid → ∀ id ∈ p.preemptedReqs,
      p'.sched.request id = p.sched.request id := fun rid hat id hid => by
    simp [hat.unpreempted] at hid
  cases hm with
  | passOver => exact h.quiet hunt rfl (fun _ _ => rfl) rfl rfl rfl rfl rfl rfl
  | @preempt rid v k s' hat hpos halloc hv hs =>
    have hp := Scheduler.preempt_ok hs
    have hrun : s'.running = p.sched.running.erase v :=
      hp.running.trans (Scheduler.removeVictim_eq hat.nodup hv)
    refine ⟨hunt, h.budget, fun id hid => ?_, fun id hid => ?_, h.lists⟩
    · -- a scheduled request is still running, unless it is the victim
      rw [hrun, hat.nodup.mem_erase_iff, List.mem_append, List.mem_singleton]
      rcases h.scheduled id hid with hid | hid
      · by_cases hiv : id = v
        · exact .inr (.inr hiv)
        · exact .inl ⟨hiv, hid⟩
      · exact .inr (.inl hid)
    · dsimp only at hid ⊢
      rw [hrun, hp.request, hat.nodup.mem_erase_iff]
      by_cases hiv : id = v
      · rw [if_pos hiv]
        exact ⟨fun hm => hm.1 hiv, rfl⟩
      · rw [if_neg hiv]
        have hid := (List.mem_append.mp hid).resolve_right fun hm => hiv (List.mem_singleton.mp hm)
        exact ⟨fun hm => (h.preempted id hid).1 hm.2, (h.preempted id hid).2⟩
  | @scheduleRunning rid blocks k hat hpos halloc =>
    have he := (p.withKV k).scheduleRunning_effect rid
      (p.runningDemand C (p.sched.request rid)) blocks
    have hnew := hat.unscheduled
    refine ⟨hunt, ?_, fun id hid => ?_, fun id hid => ?_, ?_⟩
    · rw [he.tokenBudget, he.numScheduledTokens]
      change p.tokenBudget - _ = _ - Dict.total id (p.numScheduledTokens.set rid _)
      rw [Dict.total_set_of_notMem _ hnew, h.budget, id]
      ring
    · rw [he.running, he.preemptedReqs]
      rw [he.numScheduledTokens, Dict.mem_set] at hid
      rcases hid with rfl | hid
      · exact .inl hat.mem
      · exact h.scheduled id hid
    · rw [he.preemptedReqs] at hid
      obtain ⟨h₁, h₂⟩ := h.preempted id hid
      have hne : id ≠ rid := by
        rintro rfl
        exact h₁ hat.mem
      rw [he.running, Scheduler.request_congr he.objects, Scheduler.request_modify_ne hne]
      exact ⟨h₁, h₂⟩
    · rw [he.scheduledNewReqs, he.scheduledResumedReqs, he.scheduledRunningReqs,
        he.numScheduledTokens, ← List.append_assoc,
        Dict.keys_set_of_notMem (d := (p.withKV k).numScheduledTokens) hnew]
      exact h.lists.append_right [rid]
  | recordLoras hl =>
    obtain ⟨loras, rfl⟩ := recordLoras_ok hl
    exact h.quiet hunt rfl (fun _ _ => rfl) rfl rfl rfl rfl rfl rfl
  | resolveStatus hat hres =>
    exact h.quiet hunt (resolveStatus_queues hres).2 (hnone _ hat) rfl rfl rfl rfl rfl rfl
  | skip hat hskip =>
    obtain ⟨e, w, sk, -, -, rfl⟩ := skipWaiting_ok hskip
    exact h.quiet hunt rfl (hnone _ hat) rfl rfl rfl rfl rfl rfl
  | lookUp hat hct =>
    obtain ⟨k, rfl, -⟩ := getComputedTokens_ok hct
    exact h.quiet hunt rfl (hnone _ hat) rfl rfl rfl rfl rfl rfl
  | noSlots hat halloc => exact h.quiet hunt rfl (hnone _ hat) rfl rfl rfl rfl rfl rfl
  | @park _ rid ct s₀ d blocks k hat hct hd hasync halloc hp =>
    obtain ⟨p₁, hskip, rfl⟩ := parkRemote_ok hp
    obtain ⟨e, w, sk, -, -, rfl⟩ := skipWaiting_ok hskip
    exact h.quiet hunt rfl (hnone _ hat) rfl rfl rfl rfl rfl rfl
  | @admitWaiting _ rid ct s₀ d blocks k hat hct hd hasync halloc ha =>
    have he := admit_ok ha
    have hnew : rid ∉ p.numScheduledTokens := h.unscheduled_waiting hat
    refine ⟨hunt, ?_, fun id hid => ?_, fun id hid => ?_, ?_⟩
    · rw [he.tokenBudget, he.numScheduledTokens]
      change p.tokenBudget - _ = _ - Dict.total id (p.numScheduledTokens.set rid _)
      rw [Dict.total_set_of_notMem _ hnew, h.budget, id]
      ring
    · rw [he.running, he.preemptedReqs, List.mem_append, List.mem_singleton]
      rw [he.numScheduledTokens, Dict.mem_set] at hid
      rcases hid with hid | hid
      · exact .inl (.inr hid)
      · exact (h.scheduled id hid).imp_left .inl
    · rw [he.preemptedReqs, show (p.withKV k).preemptedReqs = [] from hat.unpreempted] at hid
      simp at hid
    · rw [he.numScheduledTokens, he.scheduledNewReqs, he.scheduledResumedReqs,
        he.scheduledRunningReqs,
        Dict.keys_set_of_notMem (d := (p.withKV k).numScheduledTokens) hnew]
      -- the request joins one of the first two lists
      refine List.Perm.trans ?_ (h.lists.append_right [rid])
      rw [List.perm_iff_count]
      intro id
      split
      · simp only [List.count_append, Pass.withKV]
        omega
      · simp only [List.count_append, Pass.withKV]
        omega

end Books

end InferenceServer
