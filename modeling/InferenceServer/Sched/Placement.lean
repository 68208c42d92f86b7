import InferenceServer.Sched.Engine

/-!
# Every request is where its status says

Requests move between the waiting queue, the list of running requests and, within a scheduling step,
a queue of skipped requests. Every move changes the status of the request along with its place. In
between the two changes the lists of the scheduler are out of step with the statuses: a stopped
request leaves the list of running requests only at the end of `update_from_output`, and
`finish_requests` removes the requests before it finishes them. The invariant is therefore stated
for *given* lists of running and waiting requests (`Scheduler.Places`); at each point of the code it
is clear which lists these are.

## Main results

* `Pass.Placed.move`, `requestsPlaced_of_reach`
-/

namespace InferenceServer

open Outcome

/-! ## Places -/

/-- Where a request belongs. -/
inductive Place where
  | running
  | queue
  | none
deriving DecidableEq, Repr

/-- Where a request of the status belongs. -/
def RequestStatus.place : RequestStatus → Place
  | .running => .running
  | .waiting | .waitingForFsm | .waitingForRemoteKvs | .preempted => .queue
  | .finishedStopped | .finishedLengthCapped | .finishedAborted | .finishedIgnored => .none

theorem RequestStatus.place_eq_running {st : RequestStatus} : st.place = .running ↔ st = .running := by
  cases st <;> decide

theorem RequestStatus.place_eq_none {st : RequestStatus} :
    st.place = .none ↔ st.isFinished = true := by
  cases st <;> decide

/-- Where the request belongs. -/
def Request.place (r : Request) : Place := r.status.place

theorem Request.place_of_finished {r : Request} (h : r.isFinished = true) : r.place = .none :=
  RequestStatus.place_eq_none.mpr h

namespace Scheduler

/-- **The requests are placed** in the lists `R` and `W`. -/
structure Places (s : Scheduler) (R W : List ReqId) : Prop where
  named : ∀ id ∈ s.objects, (s.request id).requestId = id
  nodupR : R.Nodup
  nodupW : W.Nodup
  running : ∀ id, id ∈ R ↔ id ∈ s.objects ∧ (s.request id).place = .running
  queue : ∀ id, id ∈ W ↔ id ∈ s.objects ∧ (s.request id).place = .queue

namespace Places

variable {s s' : Scheduler} {R W R' W' : List ReqId} {rid : ReqId}

variable (h : s.Places R W)

include h

theorem perm (hR : R'.Perm R) (hW : W'.Perm W) : s.Places R' W' :=
  ⟨h.named, hR.nodup_iff.mpr h.nodupR, hW.nodup_iff.mpr h.nodupW,
    fun id => hR.mem_iff.trans (h.running id), fun id => hW.mem_iff.trans (h.queue id)⟩

/-- The place of no object has changed. -/
theorem congr (hobj : ∀ id, id ∈ s'.objects ↔ id ∈ s.objects)
    (hreq : ∀ id, (s'.request id).requestId = (s.request id).requestId ∧
      (s'.request id).place = (s.request id).place) : s'.Places R W := by
  refine ⟨fun id hid => ?_, h.nodupR, h.nodupW, fun id => ?_, fun id => ?_⟩
  · rw [(hreq id).1]
    exact h.named id ((hobj id).mp hid)
  · rw [h.running, hobj, (hreq id).2]
  · rw [h.queue, hobj, (hreq id).2]

theorem mem_objects (hid : rid ∈ R ++ W) : rid ∈ s.objects := by
  rcases List.mem_append.mp hid with hid | hid
  · exact ((h.running rid).mp hid).1
  · exact ((h.queue rid).mp hid).1

theorem notMem_queue (hid : rid ∈ R) : rid ∉ W := fun hw => by
  have h₁ := ((h.running rid).mp hid).2
  rw [((h.queue rid).mp hw).2] at h₁
  cases h₁

theorem notMem_running (hid : rid ∈ W) : rid ∉ R :=
  fun hr => h.notMem_queue hr hid

/-- **One object changes its place.** -/
theorem relocate (hrid : rid ∈ s.objects) (hobj : ∀ id, id ∈ s'.objects ↔ id ∈ s.objects)
    (hothers : ∀ id, id ≠ rid → s'.request id = s.request id)
    (hname : (s'.request rid).requestId = (s.request rid).requestId) :
    s'.Places
      (R.filter (· ≠ rid) ++ if (s'.request rid).place = .running then [rid] else [])
      (W.filter (· ≠ rid) ++ if (s'.request rid).place = .queue then [rid] else []) := by
  have hnodup : ∀ (l : List ReqId) (c : Prop) [Decidable c], l.Nodup →
      (l.filter (· ≠ rid) ++ if c then [rid] else []).Nodup := by
    intro l c _ hl
    split
    · refine List.nodup_append.mpr ⟨hl.filter _, List.nodup_singleton _, ?_⟩
      rintro a ha b hb rfl
      simp only [List.mem_filter, decide_eq_true_eq] at ha
      exact ha.2 (List.mem_singleton.mp hb)
    · simpa using hl.filter _
  have hmem : ∀ (l : List ReqId) (pl : Place),
      (∀ id, id ∈ l ↔ id ∈ s.objects ∧ (s.request id).place = pl) →
      ∀ id, (id ∈ l.filter (· ≠ rid) ++ if (s'.request rid).place = pl then [rid] else []) ↔
        id ∈ s'.objects ∧ (s'.request id).place = pl := by
    intro l pl hl id
    rw [List.mem_append, List.mem_filter, hobj]
    by_cases hid : id = rid
    · subst hid
      split
      next hp => simp [hrid, hp]
      next hp => simp [hp]
    · rw [hothers id hid, hl id]
      split <;> simp [hid]
  refine ⟨fun id hid => ?_, hnodup R _ h.nodupR, hnodup W _ h.nodupW, hmem R _ h.running,
    hmem W _ h.queue⟩
  by_cases hne : id = rid
  · subst hne
    rw [hname]
    exact h.named id hrid
  · rw [hothers id hne]
    exact h.named id ((hobj id).mp hid)

omit h

theorem filter_ne_of_notMem {l : List ReqId} (h : rid ∉ l) : l.filter (· ≠ rid) = l :=
  List.filter_eq_self.mpr fun id hid => by
    simp only [ne_eq, decide_eq_true_eq]
    rintro rfl
    exact h hid

theorem erase_eq_filter_ne {l : List ReqId} (h : l.Nodup) : l.erase rid = l.filter (· ≠ rid) := by
  rw [h.erase_eq_filter]
  exact List.filter_congr fun id _ => by by_cases hid : id = rid <;> simp [hid]

theorem modify (h : s.Places R W) (hrid : rid ∈ s.objects) {f : Request → Request}
    (hname : (f (s.request rid)).requestId = (s.request rid).requestId) :
    (s.modify rid f).Places
      (R.filter (· ≠ rid) ++ if (f (s.request rid)).place = .running then [rid] else [])
      (W.filter (· ≠ rid) ++ if (f (s.request rid)).place = .queue then [rid] else []) := by
  have : (s.modify rid f).Places _ _ := h.relocate hrid
    (fun id => by
      rw [mem_objects_modify, or_iff_right_of_imp]
      rintro rfl
      exact hrid)
    (fun id hid => request_modify_ne hid) (by rw [request_modify_self]; exact hname)
  rwa [request_modify_self] at this

/-- An object changes and keeps its place. -/
theorem modify_same (h : s.Places R W) (hrid : rid ∈ s.objects) {f : Request → Request}
    (hname : (f (s.request rid)).requestId = (s.request rid).requestId)
    (hplace : (f (s.request rid)).place = (s.request rid).place) :
    (s.modify rid f).Places R W := by
  refine h.congr (fun id => ?_) fun id => ?_
  · rw [mem_objects_modify, or_iff_right_of_imp]
    rintro rfl
    exact hrid
  · rw [request_modify]
    split
    next hid =>
      subst hid
      exact ⟨hname, hplace⟩
    next => exact ⟨rfl, rfl⟩

end Places

end Scheduler

/-! ## The moves of a scheduling step -/

/-- The requests are placed in the list of running requests, and in the waiting queue with the
skipped requests. -/
def Pass.Placed (p : Pass) : Prop :=
  p.sched.Places p.sched.running (p.sched.waiting.ids ++ p.skippedWaitingRequests.ids)

namespace Pass.Placed

variable {H : BlockHasher} {C : SchedulerConfig} {E : Environment} {p p' : Pass} {rid : ReqId}

theorem withKV (h : p.Placed) (k : KVCacheManager) : (p.withKV k).Placed :=
  Scheduler.Places.congr (s := p.sched) h (fun _ => Iff.rfl) fun _ => ⟨rfl, rfl⟩

theorem mem_queue (h : p.Placed) (hat : p.AtWaiting C rid) :
    rid ∈ p.sched.objects ∧ (p.sched.request rid).place = .queue := by
  obtain ⟨e, hpeek, rfl⟩ := hat.peek
  exact (Scheduler.Places.queue h e.requestId).mp
    (List.mem_append_left _ (RequestQueue.ids_of_peekRequest hpeek))

/-- The request at the head of the queue has been popped. -/
theorem popped (hat : p.AtWaiting C rid) {e : QueueEntry} {w : RequestQueue}
    (hpop : p.sched.waiting.popRequest = .ok (e, w)) : e.requestId = rid := by
  obtain ⟨e', hpeek, rfl⟩ := hat.peek
  rw [(RequestQueue.popRequest_ok hpop).1] at hpeek
  rw [Except.ok.inj hpeek]

variable (h : p.Placed)

include h

theorem preempt {v : ReqId} {s : Scheduler} {pre : List ReqId}
    (hv : p.sched.victim C = .ok v) (hs : p.sched.preempt C v = .ok s) :
    { p with sched := s, preemptedReqs := pre : Pass }.Placed := by
  have hp := Scheduler.preempt_ok hs
  have hmem := (Scheduler.victim_ok hv).1
  have hobj : v ∈ p.sched.objects := Scheduler.Places.mem_objects h (List.mem_append_left _ hmem)
  have hreloc := Scheduler.Places.modify h hobj (f := Request.preempted) rfl
  have hplaces : s.Places _ _ := hreloc.congr (fun id => by rw [hp.objects])
    fun id => by rw [Scheduler.request_congr hp.objects]; exact ⟨rfl, rfl⟩
  refine hplaces.perm ?_ ?_
  · change s.running.Perm _
    rw [hp.running, Scheduler.removeVictim_eq h.nodupR hv,
      Scheduler.Places.erase_eq_filter_ne h.nodupR]
    simp [Request.preempted, Request.place, RequestStatus.place]
  · rw [Scheduler.Places.filter_ne_of_notMem (Scheduler.Places.notMem_queue h hmem)]
    have hids := RequestQueue.ids_prependRequest hp.waiting
    have hname : (p.sched.request v).queueEntry.requestId = v := h.named v hobj
    rw [hname] at hids
    simp only [Request.preempted, Request.place, RequestStatus.place, if_true]
    exact (hids.append_right _).trans (List.perm_append_singleton v _).symm

theorem skip (hskip : p.skipWaiting = .ok p') : p'.Placed := by
  obtain ⟨e, w, sk, hpop, hpre, rfl⟩ := skipWaiting_ok hskip
  refine Scheduler.Places.perm (s := { p.sched with waiting := w })
    (Scheduler.Places.congr (s := p.sched) h (fun _ => Iff.rfl) fun _ => ⟨rfl, rfl⟩)
    (List.Perm.refl _) ?_
  have h₁ := RequestQueue.ids_popRequest hpop
  have h₂ := RequestQueue.ids_prependRequest hpre
  -- the popped request has moved from the head of one queue to the other
  calc w.ids ++ sk.ids
      _ |>.Perm (w.ids ++ (e.requestId :: p.skippedWaitingRequests.ids)) := h₂.append_left _
      _ |>.Perm ((e.requestId :: w.ids) ++ p.skippedWaitingRequests.ids) := List.perm_middle
      _ |>.Perm (p.sched.waiting.ids ++ p.skippedWaitingRequests.ids) := h₁.symm.append_right _

theorem resolveStatus {ready : Bool} {s : Scheduler} (hat : p.AtWaiting C rid)
    (hres : p.sched.resolveStatus H C E rid = .ok (ready, s)) :
    { p with sched := s : Pass }.Placed := by
  obtain ⟨hobj, hplace⟩ := h.mem_queue hat
  obtain ⟨hw, hr⟩ := resolveStatus_queues hres
  have hplaces : s.Places p.sched.running
      (p.sched.waiting.ids ++ p.skippedWaitingRequests.ids) := by
    rcases resolveStatus_ok hres with rfl | ⟨-, n, s₁, hrec, rfl⟩ | ⟨-, rfl⟩
    · exact h
    · have hs₁ : s₁.Places p.sched.running
          (p.sched.waiting.ids ++ p.skippedWaitingRequests.ids) :=
        (Scheduler.Places.modify_same h hobj (f := fun r => r.withComputed n) rfl rfl).congr
          (fun id => by rw [hrec.objects])
          fun id => by rw [Scheduler.request_congr hrec.objects]; exact ⟨rfl, rfl⟩
      have hreq : s₁.request rid = (p.sched.request rid).withComputed n := by
        rw [Scheduler.request_congr hrec.objects, Scheduler.request_modify_self]
      refine hs₁.modify_same ?_ rfl ?_
      · rw [hrec.objects]
        exact Scheduler.mem_objects_modify.mpr (.inl rfl)
      · rw [hreq]
        exact hplace.symm
    · exact Scheduler.Places.modify_same h hobj rfl hplace.symm
  unfold Pass.Placed
  rw [hw, hr]
  exact hplaces

theorem park (hat : p.AtWaiting C rid) (hpark : p.parkRemote rid = .ok p') : p'.Placed := by
  obtain ⟨p₁, hskip, rfl⟩ := parkRemote_ok hpark
  obtain ⟨hobj, hplace⟩ := h.mem_queue hat
  have h₁ : p₁.Placed := h.skip hskip
  obtain ⟨e, w, sk, -, -, rfl⟩ := skipWaiting_ok hskip
  exact Scheduler.Places.modify_same h₁ hobj (f := fun r => r.withStatus .waitingForRemoteKvs) rfl
    hplace.symm

theorem admitWaiting {d : Demand} {ct : ComputedTokens} (hat : p.AtWaiting C rid)
    (hadmitted : p.admitWaiting C rid d ct = .ok p') : p'.Placed := by
  have ha := admit_ok hadmitted
  obtain ⟨hobj, hplace⟩ := h.mem_queue hat
  have hreloc := Scheduler.Places.modify h hobj
    (f := fun r => r.admitted ct.numComputedTokens) rfl
  have hplaces : p'.sched.Places _ _ := hreloc.congr (fun id => by rw [ha.objects])
    fun id => by rw [Scheduler.request_congr ha.objects]; exact ⟨rfl, rfl⟩
  have hW : rid ∈ p.sched.waiting.ids ++ p.skippedWaitingRequests.ids :=
    (Scheduler.Places.queue h rid).mpr ⟨hobj, hplace⟩
  obtain ⟨e, hpop⟩ := ha.waiting
  have hpopped := RequestQueue.ids_popRequest hpop
  rw [popped hat hpop] at hpopped
  refine hplaces.perm ?_ ?_
  · rw [ha.running, Scheduler.Places.filter_ne_of_notMem (Scheduler.Places.notMem_running h hW)]
    simp [Request.admitted, Request.place, RequestStatus.place]
  · rw [ha.skippedWaitingRequests, ← Scheduler.Places.erase_eq_filter_ne h.nodupW]
    simp only [Request.admitted, Request.place, RequestStatus.place, reduceCtorEq, if_false,
      List.append_nil]
    -- the queue without its head is the queue with the request erased
    have hperm := (hpopped.append_right p.skippedWaitingRequests.ids).erase rid
    rw [List.cons_append, List.erase_cons_head] at hperm
    exact hperm.symm

/-- **Every move keeps the requests placed.** -/
theorem move (hm : Pass.Move H C E p p') : p'.Placed := by
  cases hm with
  | passOver => exact h
  | @preempt rid v k s hat hpos halloc hv hs => exact (h.withKV k).preempt hv hs
  | @scheduleRunning rid blocks k hat hpos halloc =>
    have he := (p.withKV k).scheduleRunning_effect rid
      (p.runningDemand C (p.sched.request rid)) blocks
    unfold Pass.Placed
    rw [he.running, he.waiting, he.skippedWaitingRequests]
    have hobj : rid ∈ p.sched.objects :=
      Scheduler.Places.mem_objects h (List.mem_append_left _ hat.mem)
    have hsame : ∀ (r : Request) (n : Int),
        (r.trimDrafts n).requestId = r.requestId ∧ (r.trimDrafts n).place = r.place := by
      intro r n
      unfold Request.trimDrafts
      split <;> exact ⟨rfl, rfl⟩
    refine (Scheduler.Places.modify_same (h.withKV k) hobj (hsame _ _).1 (hsame _ _).2).congr
      (fun id => by rw [he.objects]) fun id => ?_
    rw [Scheduler.request_congr he.objects]
    exact ⟨rfl, rfl⟩
  | recordLoras hl =>
    obtain ⟨loras, rfl⟩ := recordLoras_ok hl
    exact h
  | resolveStatus hat hres => exact h.resolveStatus hat hres
  | skip hat hskip => exact h.skip hskip
  | lookUp hat hct =>
    obtain ⟨k, rfl, -⟩ := getComputedTokens_ok hct
    exact h.withKV k
  | noSlots hat halloc => exact h.withKV _
  | @park _ rid ct s₀ d blocks k hat hct hd hasync halloc hp =>
    exact (h.withKV k).park (hat.congr (s := p.sched.withKV k) rfl rfl) hp
  | @admitWaiting _ rid ct s₀ d blocks k hat hct hd hasync halloc ha =>
    exact (h.withKV k).admitWaiting (hat.congr (s := p.sched.withKV k) rfl rfl) ha

theorem moves {L : List Preemption} (hm : p.Moves H C E L p') : p'.Placed := by
  induction hm with
  | refl => exact h
  | tail _ hmove ih => exact ih.move hmove.move

end Pass.Placed

/-! ## What a scheduling step does to the request objects -/

/-- The same unfinished request, with the same tokens. -/
structure Request.Rescheduled (r r' : Request) : Prop where
  requestId : r'.requestId = r.requestId
  promptTokenIds : r'.promptTokenIds = r.promptTokenIds
  outputTokenIds : r'.outputTokenIds = r.outputTokenIds
  mmPositions : r'.mmPositions = r.mmPositions
  numOutputPlaceholders : r'.numOutputPlaceholders = r.numOutputPlaceholders
  unfinished : r.isFinished = false
  unfinished' : r'.isFinished = false

/-- **What `schedule` leaves alone**: the record of finished requests, and every request object up to
its scheduling state; of a finished request, everything. -/
structure Scheduler.Keeps (s s' : Scheduler) : Prop where
  frame : s.Frame s'
  mem_objects : ∀ id, id ∈ s'.objects ↔ id ∈ s.objects
  request : ∀ id, s'.request id = s.request id ∨
    (id ∈ s.objects ∧ (s.request id).Rescheduled (s'.request id))

namespace Scheduler.Keeps

variable {s s' s'' : Scheduler} {rid : ReqId}

theorem refl (s : Scheduler) : s.Keeps s := ⟨.refl s, fun _ => Iff.rfl, fun _ => .inl rfl⟩

theorem trans (h : s.Keeps s') (h' : s'.Keeps s'') : s.Keeps s'' := by
  refine ⟨h.frame.trans h'.frame, fun id => (h'.mem_objects id).trans (h.mem_objects id), ?_⟩
  intro id
  rcases h'.request id with h₂ | ⟨hid, h₂⟩
  · rw [h₂]
    exact h.request id
  · rcases h.request id with h₁ | ⟨hid', h₁⟩
    · rw [h₁] at h₂
      exact .inr ⟨(h.mem_objects id).mp hid, h₂⟩
    · exact .inr ⟨hid', h₂.requestId.trans h₁.requestId,
        h₂.promptTokenIds.trans h₁.promptTokenIds, h₂.outputTokenIds.trans h₁.outputTokenIds,
        h₂.mmPositions.trans h₁.mmPositions,
        h₂.numOutputPlaceholders.trans h₁.numOutputPlaceholders, h₁.unfinished, h₂.unfinished'⟩

theorem of_objects (hframe : s.Frame s') (hobj : s'.objects = s.objects) : s.Keeps s' :=
  ⟨hframe, fun id => by rw [hobj], fun id => .inl (request_congr hobj id)⟩

/-- One unfinished object changes. -/
theorem of_modify {f : Request → Request} (hframe : s.Frame s')
    (hobj : s'.objects = (s.modify rid f).objects) (hrid : rid ∈ s.objects)
    (hf : (s.request rid).Rescheduled (f (s.request rid))) : s.Keeps s' := by
  refine ⟨hframe, fun id => ?_, fun id => ?_⟩
  · rw [hobj, mem_objects_modify, or_iff_right_of_imp]
    rintro rfl
    exact hrid
  · rw [request_congr hobj, request_modify]
    split
    next hid =>
      subst hid
      exact .inr ⟨hrid, hf⟩
    next => exact .inl rfl

theorem modify {f : Request → Request} (hrid : rid ∈ s.objects)
    (hf : (s.request rid).Rescheduled (f (s.request rid))) : s.Keeps (s.modify rid f) :=
  .of_modify (s.onlyObjects_modify rid f).frame rfl hrid hf

theorem withKV (s : Scheduler) (k : KVCacheManager) : s.Keeps (s.withKV k) :=
  .of_objects (s.frame_withKV k) rfl

end Scheduler.Keeps

theorem Request.isFinished_of_place {r : Request} (h : r.place ≠ .none) : r.isFinished = false := by
  rw [Bool.eq_false_iff]
  intro hf
  exact h (Request.place_of_finished hf)

/-- **Every move keeps the requests**, if they are placed. -/
theorem Pass.Move.keeps {H : BlockHasher} {C : SchedulerConfig} {E : Environment} {p p' : Pass}
    (h : p.Placed) (hm : Pass.Move H C E p p') : p.sched.Keeps p'.sched := by
  have hrunning : ∀ rid ∈ p.sched.running, rid ∈ p.sched.objects ∧
      (p.sched.request rid).isFinished = false := fun rid hrid => by
    obtain ⟨hobj, hplace⟩ := (Scheduler.Places.running h rid).mp hrid
    exact ⟨hobj, Request.isFinished_of_place (by rw [hplace]; decide)⟩
  have hwaiting : ∀ rid, p.AtWaiting C rid → rid ∈ p.sched.objects ∧
      (p.sched.request rid).isFinished = false := fun rid hat => by
    obtain ⟨hobj, hplace⟩ := h.mem_queue hat
    exact ⟨hobj, Request.isFinished_of_place (by rw [hplace]; decide)⟩
  cases hm with
  | passOver => exact .refl _
  | @preempt rid v k s hat hpos halloc hv hs =>
    have hp := Scheduler.preempt_ok hs
    obtain ⟨hobj, hfin⟩ := hrunning v (Scheduler.victim_ok hv).1
    exact (Scheduler.Keeps.withKV p.sched k).trans
      (.of_modify hp.frame hp.objects hobj ⟨rfl, rfl, rfl, rfl, rfl, hfin, rfl⟩)
  | @scheduleRunning rid blocks k hat hpos halloc =>
    have he := (p.withKV k).scheduleRunning_effect rid
      (p.runningDemand C (p.sched.request rid)) blocks
    obtain ⟨hobj, hfin⟩ := hrunning rid hat.mem
    refine (Scheduler.Keeps.withKV p.sched k).trans (.of_modify he.frame he.objects hobj ?_)
    unfold Request.trimDrafts
    split <;> exact ⟨rfl, rfl, rfl, rfl, rfl, hfin, hfin⟩
  | recordLoras hl =>
    obtain ⟨loras, rfl⟩ := recordLoras_ok hl
    exact .refl _
  | @resolveStatus rid ready s hat hres =>
    obtain ⟨hobj, hfin⟩ := hwaiting rid hat
    rcases resolveStatus_ok hres with rfl | ⟨-, n, s₁, hrec, rfl⟩ | ⟨-, rfl⟩
    · exact .refl _
    · have h₁ : p.sched.Keeps s₁ :=
        .of_modify hrec.frame hrec.objects hobj ⟨rfl, rfl, rfl, rfl, rfl, hfin, hfin⟩
      have hfin₁ : (s₁.request rid).isFinished = false := by
        rw [Scheduler.request_congr hrec.objects, Scheduler.request_modify_self]
        exact hfin
      exact h₁.trans (.modify (f := fun r => r.withStatus .waiting)
        ((h₁.mem_objects rid).mpr hobj) ⟨rfl, rfl, rfl, rfl, rfl, hfin₁, rfl⟩)
    · exact .modify (f := fun r => r.withStatus .waiting) hobj ⟨rfl, rfl, rfl, rfl, rfl, hfin, rfl⟩
  | skip hat hskip =>
    obtain ⟨e, w, sk, -, -, rfl⟩ := skipWaiting_ok hskip
    exact .of_objects ⟨rfl, rfl, rfl, rfl, rfl⟩ rfl
  | lookUp hat hct =>
    obtain ⟨k, rfl, -⟩ := getComputedTokens_ok hct
    exact .withKV p.sched k
  | noSlots hat halloc => exact .withKV p.sched _
  | @park _ rid ct s₀ d blocks k hat hct hd hasync halloc hp =>
    obtain ⟨p₁, hskip, rfl⟩ := parkRemote_ok hp
    obtain ⟨e, w, sk, -, -, rfl⟩ := skipWaiting_ok hskip
    obtain ⟨hobj, hfin⟩ := hwaiting rid hat
    exact .of_modify (f := fun r => r.withStatus .waitingForRemoteKvs) ⟨rfl, rfl, rfl, rfl, rfl⟩
      rfl hobj ⟨rfl, rfl, rfl, rfl, rfl, hfin, rfl⟩
  | @admitWaiting _ rid ct s₀ d blocks k hat hct hd hasync halloc ha =>
    have he := admit_ok ha
    obtain ⟨hobj, hfin⟩ := hwaiting rid hat
    exact (Scheduler.Keeps.withKV p.sched k).trans
      (.of_modify he.frame he.objects hobj ⟨rfl, rfl, rfl, rfl, rfl, hfin, rfl⟩)

/-! ## A scheduling step -/

section Schedule

variable {H : BlockHasher} {C : SchedulerConfig} {E : Environment} {s s' : Scheduler} {p : Pass}
  {output : SchedulerOutput}

/-- The loops of a scheduling step keep the requests, and keep them placed. -/
theorem schedulePass_places (h : s.Places s.running s.waiting.ids)
    (hpass : s.schedulePass H C E = .ok p) :
    p.sched.Places p.sched.running p.sched.waiting.ids ∧ s.Keeps p.sched := by
  have hstart : (Pass.start C s).Placed := by
    unfold Pass.Placed
    simpa [Pass.start] using h
  obtain ⟨p₁, ⟨hplaced, hkeeps⟩, hrestore⟩ :=
    schedulePass_invariant (I := fun p => p.Placed ∧ s.Keeps p.sched) h.nodupR hpass
      ⟨hstart, .refl s⟩
      fun p p' hI hm => ⟨hI.1.move hm.move, hI.2.trans (hm.move.keeps hI.1)⟩
  obtain ⟨w, rfl, hperm⟩ := restoreSkipped_ok hrestore
  refine ⟨Scheduler.Places.perm (s := { p₁.sched with waiting := w })
    (Scheduler.Places.congr (s := p₁.sched) hplaced (fun _ => Iff.rfl) fun _ => ⟨rfl, rfl⟩)
    (List.Perm.refl _) ?_, hkeeps.trans (.of_objects ⟨rfl, rfl, rfl, rfl, rfl⟩ rfl)⟩
  have hids := hperm.map QueueEntry.requestId
  rw [List.map_append] at hids
  exact hids.trans List.perm_append_comm

/-- Everything that is scheduled was in `self.requests` and is running or has been preempted, so it
is not finished. -/
theorem advances_places {scheduled : Dict ReqId Int} {R W : List ReqId} (h : s.Places R W)
    (hsub : ∀ id ∈ s.requests, id ∈ s.objects) (ha : s.Advances C scheduled s') :
    s'.Places R W := by
  refine h.congr (fun id => ?_) fun id => ?_
  · rw [ha.mem_objects, or_iff_right_of_imp]
    exact fun hid => hsub id (ha.scheduled_mem id hid)
  · obtain ⟨n, hreq, -⟩ := ha.request id
    rw [hreq]
    exact ⟨rfl, rfl⟩

/-- **What `schedule` does to a request**: its tokens stay, and it is finished only if it was, with the
same status. -/
structure Request.Reschedules (r r' : Request) : Prop where
  promptTokenIds : r'.promptTokenIds = r.promptTokenIds
  outputTokenIds : r'.outputTokenIds = r.outputTokenIds
  mmPositions : r'.mmPositions = r.mmPositions
  isFinished : r'.isFinished = r.isFinished
  status : r.isFinished = true → r'.status = r.status
  numOutputPlaceholders : r.numOutputPlaceholders ≤ r'.numOutputPlaceholders

/-- **`schedule` keeps the requests placed.** -/
theorem schedule_places (h : s.Places s.running s.waiting.ids)
    (hsub : ∀ id ∈ s.requests, id ∈ s.objects)
    (hs : s.schedule H C E = .ok (output, s')) :
    s'.Places s'.running s'.waiting.ids ∧ s'.ledger = s.ledger ∧
      (∀ id, id ∈ s'.objects ↔ id ∈ s.objects) ∧
      ∀ id, (s.request id).Reschedules (s'.request id) := by
  obtain ⟨p, hsch⟩ := schedule_ok hs
  obtain ⟨hplaces, hkeeps⟩ := schedulePass_places h hsch.pass
  have hadv := hsch.advances
  have hsub' : ∀ id ∈ p.sched.requests, id ∈ p.sched.objects := fun id hid => by
    rw [hkeeps.frame.requests] at hid
    exact (hkeeps.mem_objects id).mpr (hsub id hid)
  refine ⟨?_, ?_, fun id => ?_, fun id => ?_⟩
  · rw [hadv.running, hadv.waiting]
    exact advances_places hplaces hsub' hadv
  · exact hadv.ledger.trans hkeeps.frame.ledger
  · rw [hadv.mem_objects, or_iff_right_of_imp (fun hid => hsub' id (hadv.scheduled_mem id hid))]
    exact hkeeps.mem_objects id
  · obtain ⟨n, hreq, hn⟩ := hadv.request id
    have hnn : 0 ≤ n := by
      rcases hn with rfl | ⟨-, -, rfl⟩ <;> decide
    rw [hreq]
    rcases hkeeps.request id with hk | ⟨-, hk⟩
    · rw [hk]
      exact ⟨rfl, rfl, rfl, rfl, fun _ => rfl, le_add_of_nonneg_right hnn⟩
    · refine ⟨hk.promptTokenIds, hk.outputTokenIds, hk.mmPositions,
        hk.unfinished'.trans hk.unfinished.symm, fun hf => by simp [hk.unfinished] at hf, ?_⟩
      rw [← hk.numOutputPlaceholders]
      exact le_add_of_nonneg_right hnn

end Schedule

/-! ## The results of a step -/

section Update

variable {H : BlockHasher} {C : SchedulerConfig} {E : Environment} {s s' : Scheduler}
  {u u' : UpdatePass} {rid : ReqId}

/-- Within `update_from_output`, the stopped requests are still in the lists. -/
def UpdatePass.Placed (u : UpdatePass) : Prop :=
  u.sched.Places (u.sched.running.filter (· ∉ u.stoppedRunningReqs))
    (u.sched.waiting.ids.filter (· ∉ u.stoppedPreemptedReqs))

theorem filter_notMem_append (l stopped : List ReqId) (rid : ReqId) :
    l.filter (· ∉ stopped ++ [rid]) = (l.filter (· ∉ stopped)).filter (· ≠ rid) := by
  rw [List.filter_filter]
  exact List.filter_congr fun id _ => by
    by_cases h₁ : id = rid <;> by_cases h₂ : id ∈ stopped <;> simp [h₁, h₂]

theorem Request.place_rejectDrafts (r : Request) (drafts generated : List TokenId) :
    (r.rejectDrafts drafts generated).requestId = r.requestId ∧
      (r.rejectDrafts drafts generated).place = r.place := by
  unfold Request.rejectDrafts
  split <;> exact ⟨rfl, rfl⟩

/-- One round of the loop keeps the requests placed. -/
theorem UpdatePass.Placed.applies {r : Request} {generated appended : List TokenId}
    {stopped : Bool} (h : u.Placed) (hrid : rid ∈ u.sched.objects)
    (hr : r.requestId = (u.sched.request rid).requestId ∧
      r.status = (u.sched.request rid).status)
    (ha : u.Applies C rid r generated appended stopped u') : u'.Placed := by
  have hobj : ∀ id, id ∈ u'.sched.objects ↔ id ∈ u.sched.objects := fun id =>
    ⟨fun hid => (ha.mem_objects id hid).elim (fun he => he ▸ hrid) fun h => h,
      ha.objects_mem id⟩
  have hname : (u'.sched.request rid).requestId = (u.sched.request rid).requestId :=
    ha.request.requestId.trans hr.1
  unfold UpdatePass.Placed
  rw [ha.running, ha.waiting, ha.stoppedRunningReqs, ha.stoppedPreemptedReqs]
  cases stopped with
  | false =>
    -- the request keeps its status
    have hplace : (u'.sched.request rid).place = (u.sched.request rid).place := by
      unfold Request.place
      rw [ha.request.status rfl, hr.2]
    simp only [Bool.false_eq_true, false_and, if_false]
    refine Scheduler.Places.congr h hobj fun id => ?_
    by_cases hid : id = rid
    · subst hid
      exact ⟨hname, hplace⟩
    · rw [ha.others id hid]
      exact ⟨rfl, rfl⟩
  | true =>
    have hreloc := Scheduler.Places.relocate h hrid hobj ha.others hname
    have hfin := Request.place_of_finished (ha.request.finished rfl)
    simp only [hfin, reduceCtorEq, if_false, List.append_nil] at hreloc
    by_cases hst : r.status = .running
    · -- it belonged to the running requests, so removing it from the others is no change
      have hplace : (u.sched.request rid).place = .running := by
        unfold Request.place
        rw [← hr.2, hst]
        rfl
      have hmem := (Scheduler.Places.running h rid).mpr ⟨hrid, hplace⟩
      rw [Scheduler.Places.filter_ne_of_notMem (Scheduler.Places.notMem_queue h hmem)] at hreloc
      simp only [hst, ne_eq, not_true_eq_false, and_false, and_true, if_true, if_false]
      rw [filter_notMem_append]
      exact hreloc
    · have hplace : (u.sched.request rid).place ≠ .running := by
        unfold Request.place
        rw [← hr.2, ne_eq, RequestStatus.place_eq_running]
        exact hst
      have hnot := fun hmem => hplace ((Scheduler.Places.running h rid).mp hmem).2
      rw [Scheduler.Places.filter_ne_of_notMem hnot] at hreloc
      simp only [hst, ne_eq, not_false_eq_true, and_false, and_true, if_true, if_false]
      rw [filter_notMem_append]
      exact hreloc

end Update

/-! ## The record of finished requests -/

/-- The connector was asked about the request, and the last time it asked to keep the blocks. -/
def Scheduler.Ledger.KeptByConnector (l : Scheduler.Ledger) (id : ReqId) : Prop :=
  (l.requestFinishedCalls.filter fun c => c.1 = id).getLast? = some (id, true)

/-- The keys of `self.requests` are requests that were added, and a finished one among them is kept
for the connector. -/
structure Scheduler.Accounts (s : Scheduler) : Prop where
  mem_objects : ∀ id ∈ s.requests, id ∈ s.objects
  kept : ∀ id ∈ s.requests, (s.request id).isFinished = true → s.ledger.KeptByConnector id

section Accounts

variable {C : SchedulerConfig} {E : Environment} {s s' : Scheduler} {rid id : ReqId}
  {l l' : Scheduler.Ledger} {stopped : Bool}

theorem Scheduler.Ledger.Records.kept (h : l.Records C rid stopped l')
    (hid : id ∈ l'.requests) :
    id ∈ l.requests ∧ (id ≠ rid → l.KeptByConnector id → l'.KeptByConnector id) ∧
      (stopped = true → id = rid → l'.KeptByConnector id) := by
  cases stopped with
  | false =>
    obtain rfl := h.unstopped rfl
    exact ⟨hid, fun _ hk => hk, fun h => by simp at h⟩
  | true =>
    obtain ⟨delay, hconn, rfl, hmem⟩ := h.stopped rfl
    refine ⟨?_, fun hne hk => ?_, fun _ heq => ?_⟩
    · cases delay with
      | true => exact hid
      | false => exact List.mem_of_mem_filter hid
    · unfold Scheduler.Ledger.KeptByConnector at hk ⊢
      dsimp only
      split
      · rw [List.filter_append]
        simpa [Ne.symm hne] using hk
      · exact hk
    · subst heq
      -- the request is still there, so the connector asked to keep it
      cases delay with
      | false => simp at hid
      | true =>
        have hc : C.hasConnector = true := by
          by_contra hc
          simpa using hconn (by simpa using hc)
        simp [Scheduler.Ledger.KeptByConnector, hc, List.filter_append]

/-- Finishing a request, or leaving its status alone, keeps the record in order. -/
theorem Scheduler.Accounts.records (h : s.Accounts)
    (hobj : ∀ id ∈ s.objects, id ∈ s'.objects)
    (hothers : ∀ id, id ≠ rid → s'.request id = s.request id)
    (hstatus : stopped = false → (s'.request rid).status = (s.request rid).status)
    (hrec : s.ledger.Records C rid stopped s'.ledger) : s'.Accounts := by
  refine ⟨fun id hid => hobj id (h.mem_objects id (hrec.kept hid).1), fun id hid hfin => ?_⟩
  obtain ⟨hmem, hne, heq⟩ := hrec.kept hid
  by_cases hr : id = rid
  · cases stopped with
    | true => exact heq rfl hr
    | false =>
      subst hr
      have hfin' : (s.request id).isFinished = true := by
        unfold Request.isFinished at hfin ⊢
        rwa [hstatus rfl] at hfin
      rw [hrec.unstopped rfl]
      exact h.kept id hmem hfin'
  · rw [hothers id hr] at hfin
    exact hne hr (h.kept id hmem hfin)

/-- A call that leaves the record and the ends of the requests alone. -/
theorem Scheduler.Accounts.of_schedule (h : s.Accounts) (hledger : s'.ledger = s.ledger)
    (hobj : ∀ id, id ∈ s'.objects ↔ id ∈ s.objects)
    (hfin : ∀ id, (s'.request id).isFinished = (s.request id).isFinished) : s'.Accounts := by
  have hreqs : s'.requests = s.requests := congrArg Scheduler.Ledger.requests hledger
  refine ⟨fun id hid => (hobj id).mpr (h.mem_objects id (hreqs ▸ hid)), fun id hid hf => ?_⟩
  rw [hledger]
  exact h.kept id (hreqs ▸ hid) (hfin id ▸ hf)

end Accounts

/-! ## The other calls -/

section Calls

variable {H : BlockHasher} {C : SchedulerConfig} {E : Environment} {s s' : Scheduler}
  {output : SchedulerOutput} {m : ModelRunnerOutput}

/-- One round of the loop of `update_from_output` keeps the requests placed and the record in
order. -/
theorem updateRequest_places {u u' : UpdatePass} {e : ReqId × Int} (hplaced : u.Placed)
    (hacc : u.sched.Accounts) (hstep : UpdatePass.updateRequest H C E output m e u = .ok u') :
    u'.Placed ∧ u'.sched.Accounts ∧ ∀ id, id ∈ u'.sched.objects ↔ id ∈ u.sched.objects := by
  obtain ⟨-, ⟨-, rfl⟩ | ⟨hmem, index, generated, appended, stopped, -, -, ha⟩⟩ :=
    updateRequest_ok hstep
  · exact ⟨hplaced, hacc, fun _ => Iff.rfl⟩
  · have hrid := hacc.mem_objects e.1 hmem
    have hr := Request.place_rejectDrafts (u.sched.request e.1)
      (output.scheduledSpecDecodeTokens.getD e.1 []) generated
    have hst := Request.status_rejectDrafts (u.sched.request e.1)
      (output.scheduledSpecDecodeTokens.getD e.1 []) generated
    refine ⟨hplaced.applies hrid ⟨hr.1, hst⟩ ha, ?_, fun id => ?_⟩
    · exact hacc.records ha.objects_mem ha.others
        (fun hs => (ha.request.status hs).trans hst) ha.records
    · exact ⟨fun hid => (ha.mem_objects id hid).elim (fun he => he ▸ hrid) fun h => h,
        ha.objects_mem id⟩

variable (h : s.Places s.running s.waiting.ids)

include h

theorem UpdatePass.placed_start : UpdatePass.Placed { sched := s } := by
  simpa [UpdatePass.Placed] using h

/-- The loop of `update_from_output` keeps the requests placed and the record in order. -/
theorem updateLoop_places {u : UpdatePass} (hacc : s.Accounts) {l : List (ReqId × Int)}
    (hloop : threadM (UpdatePass.updateRequest H C E output m) l { sched := s } = .ok u) :
    u.Placed ∧ u.sched.Accounts ∧ ∀ id, id ∈ u.sched.objects ↔ id ∈ s.objects := by
  refine threadM_invariant (I := fun _ u => u.Placed ∧ u.sched.Accounts ∧
    ∀ id, id ∈ u.sched.objects ↔ id ∈ s.objects) ?_
    ⟨UpdatePass.placed_start h, hacc, fun _ => Iff.rfl⟩ hloop
  rintro e rest u u' ⟨hplaced, hacc, hobj⟩ hstep
  obtain ⟨hplaced', hacc', hobj'⟩ := updateRequest_places hplaced hacc hstep
  exact ⟨hplaced', hacc', fun id => (hobj' id).trans (hobj id)⟩

/-- **`update_from_output` keeps the requests placed.** -/
theorem updateFromOutput_places {ecos : Dict Nat EngineCoreOutputs}
    (hacc : s.Accounts)
    (hup : s.updateFromOutput H C E output m = .ok (ecos, s')) :
    s'.Places s'.running s'.waiting.ids ∧ s'.Accounts ∧
      ∀ id, id ∈ s'.objects ↔ id ∈ s.objects := by
  obtain ⟨u, hu, -⟩ := updateFromOutput_ok hup
  obtain ⟨hplaced, hacc', hobj⟩ := updateLoop_places h hacc hu.loop
  obtain ⟨sent, -, hsent, hreq, hfreed⟩ := hu.freed
  have hrequest := Scheduler.request_congr hu.objects
  refine ⟨?_, ⟨fun id hid => ?_, fun id hid hfin => ?_⟩, fun id => ?_⟩
  · refine Scheduler.Places.perm (s := s') (Scheduler.Places.congr hplaced
      (fun id => by rw [hu.objects]) fun id => by rw [hrequest]; exact ⟨rfl, rfl⟩) ?_ hu.waiting
    rw [hu.running]
  · rw [hreq] at hid
    rw [hu.objects]
    exact hacc'.mem_objects id (List.mem_of_mem_filter hid)
  · rw [hreq] at hid
    rw [hrequest] at hfin
    have hk := hacc'.kept id (List.mem_of_mem_filter hid) hfin
    unfold Scheduler.Ledger.KeptByConnector Scheduler.ledger at hk ⊢
    rw [hu.requestFinishedCalls]
    exact hk
  · rw [hu.objects]
    exact hobj id

/-- **`add_request` keeps the requests placed**, if the identifier is not in use. -/
theorem addRequest_places {r : Request} (hacc : s.Accounts)
    (hR : r.requestId ∉ s.running) (hW : r.requestId ∉ s.waiting.ids)
    (hadd : s.addRequest r.new = .ok s') :
    s'.Places s'.running s'.waiting.ids ∧ s'.Accounts ∧
      ∀ id, id ∈ s'.objects ↔ id = r.requestId ∨ id ∈ s.objects := by
  have ha := addRequest_ok hadd
  have hreq : ∀ id, s'.request id = if id = r.requestId then r.new else s.request id := ha.request
  have hmem : ∀ id, id ∈ s'.objects ↔ id = r.requestId ∨ id ∈ s.objects := fun id => by
    rw [ha.objects]
    exact Dict.mem_set
  have hplace : r.new.place = .queue := by
    unfold Request.place Request.new
    split <;> rfl
  refine ⟨⟨fun id hid => ?_, ha.running ▸ h.nodupR, ?_, fun id => ?_, fun id => ?_⟩,
    ⟨fun id hid => ?_, fun id hid hfin => ?_⟩, hmem⟩
  · rw [hreq]
    split
    next heq => exact heq.symm
    next hid' => exact h.named id (((hmem id).mp hid).resolve_left hid')
  · exact ha.waiting.nodup_iff.mpr (List.nodup_cons.mpr ⟨hW, h.nodupW⟩)
  · rw [hreq, ha.running, hmem]
    split
    next heq =>
      subst heq
      simp [hR, hplace]
    next hid' => simp [hid', h.running]
  · rw [hreq, ha.waiting.mem_iff, List.mem_cons, h.queue, hmem, Request.requestId_new]
    split
    next heq => simp [heq, hplace]
    next hid' => simp [hid']
  · rw [ha.requests, mem_addToSet] at hid
    exact (hmem id).mpr (hid.imp_right (hacc.mem_objects id))
  · rw [ha.requests, mem_addToSet] at hid
    rw [hreq] at hfin
    split at hfin
    next => simp [Request.isFinished_new] at hfin
    next hid' =>
      have hk := hacc.kept id (hid.resolve_left hid') hfin
      unfold Scheduler.Ledger.KeptByConnector Scheduler.ledger at hk ⊢
      rw [ha.requestFinishedCalls]
      exact hk

omit h

/-- The second pass of `finish_requests`: from each finished request on, the lists without it are
those in which the requests are placed. -/
theorem finishLoop_places {status : RequestStatus} (hst : status.isFinished = true)
    {R W valid rest : List ReqId} (hn : rest.Nodup) (hrest : ∀ id ∈ rest, id ∈ s.objects)
    (hplaces : s.Places (R.filter fun id => id ∉ valid ∨ id ∈ rest)
      (W.filter fun id => id ∉ valid ∨ id ∈ rest))
    (hvalid : ∀ id ∈ rest, id ∈ valid) (hacc : s.Accounts)
    (h : threadM (Scheduler.finishRequest C E status) rest s = .ok s') :
    s'.Places (R.filter (· ∉ valid)) (W.filter (· ∉ valid)) ∧ s'.Accounts ∧
      s'.running = s.running ∧ s'.waiting = s.waiting ∧
      ∀ id, id ∈ s'.objects ↔ id ∈ s.objects := by
  induction rest generalizing s with
  | nil =>
    cases h
    simp only [List.not_mem_nil, or_false] at hplaces
    exact ⟨hplaces, hacc, rfl, rfl, fun _ => Iff.rfl⟩
  | cons rid rest ih =>
    obtain ⟨s₁, h₁, h⟩ := threadM_cons_ok.mp h
    obtain ⟨hobj, hrun, hwait, hrec, -⟩ := finishRequest_ok h₁
    obtain ⟨hnot, hnd⟩ := List.nodup_cons.mp hn
    have hrid : rid ∈ s.objects := hrest rid List.mem_cons_self
    have hmod := hplaces.modify hrid (f := fun r => r.withStatus status) rfl
    have hfilter : ∀ l : List ReqId,
        (l.filter fun id => id ∉ valid ∨ id ∈ rid :: rest).filter (· ≠ rid) =
          l.filter fun id => id ∉ valid ∨ id ∈ rest := fun l => by
      rw [List.filter_filter]
      refine List.filter_congr fun id _ => ?_
      by_cases hid : id = rid
      · subst hid
        simp [hnot, hvalid id List.mem_cons_self]
      · simp [hid]
    have hnone : ((s.request rid).withStatus status).place = .none :=
      RequestStatus.place_eq_none.mpr hst
    simp only [hnone, reduceCtorEq, if_false, List.append_nil] at hmod
    rw [hfilter R, hfilter W] at hmod
    have hmem : ∀ id, id ∈ s₁.objects ↔ id ∈ s.objects := fun id => by
      rw [hobj, Scheduler.mem_objects_modify, or_iff_right_of_imp]
      rintro rfl
      exact hrid
    have hreq : ∀ id, s₁.request id = (s.modify rid fun r => r.withStatus status).request id :=
      Scheduler.request_congr hobj
    have hacc₁ : s₁.Accounts := hacc.records (fun id => (hmem id).mpr)
      (fun id hid => (hreq id).trans (Scheduler.request_modify_ne hid)) (fun h => by simp at h) hrec
    have hplaces₁ : s₁.Places _ _ := hmod.congr (fun id => by rw [hobj])
      fun id => by rw [hreq id]; exact ⟨rfl, rfl⟩
    obtain ⟨ih₁, ih₂, ih₃, ih₄, ih₅⟩ :=
      ih hnd (fun id hid => (hmem id).mpr (hrest id (List.mem_cons_of_mem _ hid))) hplaces₁
        (fun id hid => hvalid id (List.mem_cons_of_mem _ hid)) hacc₁ h
    exact ⟨ih₁, ih₂, ih₃.trans hrun, ih₄.trans hwait, fun id => (ih₅ id).trans (hmem id)⟩

/-- **`finish_requests` keeps the requests placed.** -/
theorem finishRequests_places {ids : List ReqId} {status : RequestStatus}
    (h : s.Places s.running s.waiting.ids) (hacc : s.Accounts)
    (hfin : s.finishRequests C E ids status = .ok s') :
    s'.Places s'.running s'.waiting.ids ∧ s'.Accounts ∧
      ∀ id, id ∈ s'.objects ↔ id ∈ s.objects := by
  obtain ⟨hst, valid, hn, hvalid, w, ⟨hw, -⟩, hloop⟩ := finishRequests_ok h.nodupR hfin
  -- of the requests to finish, exactly the running ones are in the list of running requests
  have hrunning : s.running.filter
      (· ∉ valid.filter fun rid => (s.request rid).status = .running) =
        s.running.filter (· ∉ valid) := by
    refine List.filter_congr fun id hid => ?_
    have := RequestStatus.place_eq_running.mp ((h.running id).mp hid).2
    simp [this]
  have hwaiting : s.waiting.ids.filter
      (· ∉ valid.filter fun rid => (s.request rid).status ≠ .running) =
        s.waiting.ids.filter (· ∉ valid) := by
    refine List.filter_congr fun id hid => ?_
    have hplace := ((h.queue id).mp hid).2
    have : (s.request id).status ≠ .running := fun heq => by
      unfold Request.place at hplace
      rw [heq] at hplace
      cases hplace
    simp [this]
  rw [hrunning] at hloop
  rw [hwaiting] at hw
  have hmem : ∀ id ∈ valid, id ∈ s.objects := fun id hid =>
    hacc.mem_objects id ((hvalid id).mp hid).2
  have hplaces : s.Places (s.running.filter fun id => id ∉ valid ∨ id ∈ valid)
      (s.waiting.ids.filter fun id => id ∉ valid ∨ id ∈ valid) := by
    simpa using h
  obtain ⟨h₁, h₂, h₃, h₄, h₅⟩ :=
    finishLoop_places (s := { s with running := s.running.filter (· ∉ valid), waiting := w })
      hst hn hmem (hplaces.congr (fun _ => Iff.rfl) fun _ => ⟨rfl, rfl⟩) (fun _ hid => hid)
      ⟨hacc.mem_objects, hacc.kept⟩ hloop
  refine ⟨h₁.perm ?_ ?_, h₂, h₅⟩
  · rw [h₃]
  · rw [h₄]
    exact hw

end Calls

/-! ## Runs -/

/-- **No request is lost or duplicated.** A request that was added and is not finished occurs once in
the waiting queue and the list of running requests together, in the latter exactly if it is running; a
finished one in neither. A key of `self.requests` is an unfinished request, or one that the connector
asked to keep. -/
structure RequestsPlaced (s : Engine) : Prop where
  unfinished : ∀ id ∈ s.added, (s.sched.request id).isFinished = false →
    (s.sched.waiting.ids ++ s.sched.running).count id = 1 ∧
    (id ∈ s.sched.running ↔ (s.sched.request id).status = .running)
  finished : ∀ id ∈ s.added, (s.sched.request id).isFinished = true →
    id ∉ s.sched.waiting.ids ∧ id ∉ s.sched.running
  keys : ∀ id ∈ s.sched.requests, id ∈ s.added ∧
    ((s.sched.request id).isFinished = false ∨
      (s.sched.request id).isFinished = true ∧ s.sched.ledger.KeptByConnector id)

/-- **The invariant**: the requests are placed in the lists of the scheduler, and its objects are the
requests that were added. -/
structure Engine.Placed (s : Engine) : Prop where
  places : s.sched.Places s.sched.running s.sched.waiting.ids
  accounts : s.sched.Accounts
  added : ∀ id, id ∈ s.sched.objects ↔ id ∈ s.added

section Runs

variable {H : BlockHasher} {C : SchedulerConfig} {s s' : Engine} {s₀ : Scheduler}

theorem Engine.placed_init (h : Scheduler.init C = .ok s₀) :
    Engine.Placed { sched := s₀ } := by
  obtain ⟨_, -, h₁⟩ := bind_eq_ok.mp h
  obtain ⟨k, -, h₂⟩ := bind_eq_ok.mp h₁
  cases h₂
  refine ⟨⟨fun id hid => ?_, List.nodup_nil, ?_, fun id => ?_, fun id => ?_⟩,
    ⟨fun id hid => ?_, fun id hid => ?_⟩, fun id => ?_⟩
  · exact absurd hid (Dict.notMem_empty id)
  · simp
  · simp [Dict.notMem_empty id]
  · simp [Dict.notMem_empty id]
  · simp at hid
  · simp at hid
  · simp [Dict.notMem_empty id]

/-- **Every call keeps the invariant.** -/
theorem Engine.Placed.step (h : s.Placed) {op : EngineOp} (hok : FreshIds s op)
    (hstep : s.step H C op = .ok s') : s'.Placed := by
  cases Engine.step_cases hstep with
  | @addRequest r _ hadd =>
    have hnew : r.requestId ∉ s.sched.objects := fun hid => hok ((h.added _).mp hid)
    obtain ⟨h₁, h₂, h₃⟩ := addRequest_places h.places h.accounts
      (fun hid => hnew ((h.places.running _).mp hid).1)
      (fun hid => hnew ((h.places.queue _).mp hid).1) hadd
    refine ⟨h₁, h₂, fun id => ?_⟩
    rw [h₃, h.added, List.mem_append, List.mem_singleton, or_comm]
  | schedule hsched =>
    obtain ⟨h₁, hledger, h₃, h₄⟩ := schedule_places h.places h.accounts.mem_objects hsched
    exact ⟨h₁, h.accounts.of_schedule hledger h₃ fun id => (h₄ id).isFinished,
      fun id => (h₃ id).trans (h.added id)⟩
  | updateFromOutput _ hup =>
    obtain ⟨h₁, h₂, h₃⟩ := updateFromOutput_places h.places h.accounts hup
    exact ⟨h₁, h₂, fun id => (h₃ id).trans (h.added id)⟩
  | finishRequests hfin =>
    obtain ⟨h₁, h₂, h₃⟩ := finishRequests_places h.places h.accounts hfin
    exact ⟨h₁, h₂, fun id => (h₃ id).trans (h.added id)⟩

theorem Engine.placed_of_reach (hinit : Scheduler.init C = .ok s₀)
    (hs : (engineMachine H C s₀).Reach FreshIds s) : s.Placed :=
  hs.invariant (Engine.placed_init hinit) fun _ _ _ h hok hstep => h.step hok hstep

/-- **The requests stay placed if identifiers are used again** once their requests have finished. -/
theorem Engine.places_of_reach (hinit : Scheduler.init C = .ok s₀)
    (hs : (engineMachine H C s₀).Reach UnusedIds s) :
    s.sched.Places s.sched.running s.sched.waiting.ids ∧ s.sched.Accounts := by
  refine hs.invariant (I := fun s => s.sched.Places s.sched.running s.sched.waiting.ids ∧
    s.sched.Accounts) ?_ fun s op s' h hok hstep => ?_
  · have h := Engine.placed_init hinit
    exact ⟨h.places, h.accounts⟩
  · change s.step H C op = .ok s' at hstep
    cases Engine.step_cases hstep with
    | addRequest hadd =>
      obtain ⟨h₁, h₂, -⟩ := addRequest_places h.1 h.2 hok.1 hok.2 hadd
      exact ⟨h₁, h₂⟩
    | schedule hsched =>
      obtain ⟨h₁, hledger, h₃, h₄⟩ := schedule_places h.1 h.2.mem_objects hsched
      exact ⟨h₁, h.2.of_schedule hledger h₃ fun id => (h₄ id).isFinished⟩
    | updateFromOutput _ hup =>
      obtain ⟨h₁, h₂, -⟩ := updateFromOutput_places h.1 h.2 hup
      exact ⟨h₁, h₂⟩
    | finishRequests hfin =>
      obtain ⟨h₁, h₂, -⟩ := finishRequests_places h.1 h.2 hfin
      exact ⟨h₁, h₂⟩

theorem Request.place_of_unfinished {r : Request} (h : r.isFinished = false) :
    r.place = .running ∨ r.place = .queue := by
  cases hp : r.place with
  | running => exact .inl rfl
  | queue => exact .inr rfl
  | none =>
    have := RequestStatus.place_eq_none.mp hp
    simp [Request.isFinished, this] at h

theorem Engine.Placed.requestsPlaced (h : s.Placed) : RequestsPlaced s := by
  have hrunning : ∀ id ∈ s.added, (id ∈ s.sched.running ↔ (s.sched.request id).place = .running) :=
    fun id hid => (h.places.running id).trans (and_iff_right ((h.added id).mpr hid))
  have hqueue : ∀ id ∈ s.added, (id ∈ s.sched.waiting.ids ↔ (s.sched.request id).place = .queue) :=
    fun id hid => (h.places.queue id).trans (and_iff_right ((h.added id).mpr hid))
  refine ⟨fun id hid hfin => ⟨?_, ?_⟩, fun id hid hfin => ?_, fun id hid => ⟨?_, ?_⟩⟩
  · rw [List.count_append]
    rcases Request.place_of_unfinished hfin with hp | hp
    · have hmem := (hrunning id hid).mpr hp
      rw [List.count_eq_zero_of_not_mem (h.places.notMem_queue hmem),
        List.count_eq_one_of_mem h.places.nodupR hmem]
    · have hmem := (hqueue id hid).mpr hp
      rw [List.count_eq_zero_of_not_mem (h.places.notMem_running hmem),
        List.count_eq_one_of_mem h.places.nodupW hmem]
  · rw [hrunning id hid]
    exact RequestStatus.place_eq_running
  · rw [hrunning id hid, hqueue id hid, Request.place_of_finished hfin]
    exact ⟨by decide, by decide⟩
  · exact (h.added id).mp (h.accounts.mem_objects id hid)
  · cases hfin : (s.sched.request id).isFinished with
    | false => exact .inl rfl
    | true => exact .inr ⟨rfl, h.accounts.kept id hid hfin⟩

/-- **Requests are neither lost nor duplicated**, in any run. -/
theorem requestsPlaced_of_reach (hinit : Scheduler.init C = .ok s₀)
    (hs : (engineMachine H C s₀).Reach FreshIds s) : RequestsPlaced s :=
  (Engine.placed_of_reach hinit hs).requestsPlaced

/-- The second request is preempted, and the first one is aborted while its step is in flight; the
connector asks to keep its blocks. -/
def abortedRun : List EngineOp :=
  [.addRequest (textRequest 1 [1, 2]), .addRequest (textRequest 2 [3, 4]), .schedule {},
   .updateFromOutput {} (sampled [(1, [5]), (2, [6])]), .schedule {},
   .finishRequests { requestFinished := fun _ _ => (true, none) } [1] .finishedAborted]

/-- The theorem on a run with a preemption and a request that is kept for the connector. -/
theorem requestsPlaced_abortedRun :
    ∃ s, runEngine .encoding { pairConfig 4 8 with hasConnector := true } FreshIds abortedRun =
        some s ∧ s.sched.waiting.ids = [2] ∧ s.sched.running = [] ∧ s.sched.requests = [1, 2] ∧
      RequestsPlaced s := by
  have hrun : (runEngine .encoding { pairConfig 4 8 with hasConnector := true } FreshIds
      abortedRun).any (fun s => decide (s.sched.waiting.ids = [2] ∧ s.sched.running = [] ∧
        s.sched.requests = [1, 2])) = true := by decide +kernel
  obtain ⟨s, hs, hlists⟩ := Option.any_eq_true .. |>.mp hrun
  obtain ⟨h₁, h₂, h₃⟩ := of_decide_eq_true hlists
  obtain ⟨s₀, hinit, hreach⟩ := reach_runEngine hs
  exact ⟨s, hs, h₁, h₂, h₃, requestsPlaced_of_reach hinit hreach⟩

end Runs

end InferenceServer
