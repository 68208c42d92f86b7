import InferenceServer.Core.EngineCore
import InferenceServer.Sched.EncoderRoom
import InferenceServer.Sched.Finished
import InferenceServer.Worker.Executions

/-!
# Finish notices

The workers keep the states and the encoder outputs of a request until they are told that it has
finished. The scheduler lists finished requests and freed encoder inputs for the next output, and
`schedule` empties the lists each time it is called. A notice therefore reaches the workers exactly if
the output of that call is executed. `step` executes every output. `step_with_batch_queue` does not
execute an output without tokens, and the notices on it are lost.

## Main results

* `deliversNotices_of_reach`, `not_deliversNotices_emptyBatch`
-/

namespace InferenceServer

open Outcome

/-- The requests that the outputs list as finished. -/
def finishNotices (outputs : List SchedulerOutput) : List ReqId :=
  outputs.flatMap SchedulerOutput.finishedReqIds

/-- The encoder inputs that the outputs list as freed. -/
def freeNotices (outputs : List SchedulerOutput) : List (ReqId × Nat) :=
  outputs.flatMap SchedulerOutput.freeEncoderInputIds

/-! ## The condition and the property -/

/-- None of the requests is finished and still in `self.requests`. -/
def Scheduler.AllUnfinished (s : Scheduler) (ids : List ReqId) : Prop :=
  ∀ id ∈ ids, id ∈ s.requests → (s.request id).isFinished = false

instance (s : Scheduler) (ids : List ReqId) : Decidable (s.AllUnfinished ids) := by
  unfold Scheduler.AllUnfinished
  infer_instance

section Condition

variable (H : BlockHasher) (C : SchedulerConfig) (maxConcurrentBatches : Nat)

/-- The step submits no batch: its output, if it schedules one, is dropped. -/
def EngineCore.SubmitsNothing (s : EngineCore) (E : Environment) : Prop :=
  1 < maxConcurrentBatches ∧
    (s.scheduleBatch H C maxConcurrentBatches E).toOption.any (fun r => !r.1) = true

instance (s : EngineCore) (E : Environment) :
    Decidable (s.SubmitsNothing H C maxConcurrentBatches E) := by
  unfold EngineCore.SubmitsNothing
  infer_instance

/-- **The condition.** A step of the batch queue that schedules an output without tokens finds no
notices pending, and nothing finishes a request a second time. Requests arrive under new identifiers. -/
def KeepsNotices (s : EngineCore) : EngineCoreOp → Prop
  | .addRequest r => r.requestId ∉ s.added
  | .abortRequests _ ids => s.sched.AllUnfinished ids
  | .step E _ _ => s.SubmitsNothing H C maxConcurrentBatches E →
      (s.batchQueue.length < maxConcurrentBatches →
        s.sched.finishedReqIds = [] ∧ s.sched.encoderCacheManager.freed = []) ∧
      ∀ output ∈ s.batchQueue.head?, s.sched.AllUnfinished output.numScheduledTokens.keys

instance (s : EngineCore) (op : EngineCoreOp) :
    Decidable (KeepsNotices H C maxConcurrentBatches s op) := by
  cases op <;> unfold KeepsNotices <;> infer_instance

end Condition

/-- **The notices are delivered** between `s` and a later `t`: a request that is finished in `s` is
listed in exactly one executed output, the freed inputs are listed once each, in their order, those of
`s` in an executed output, and no worker has an entry of a request finished in `s`. -/
structure DeliversNotices (s t : EngineCore) : Prop where
  finished : ∀ id ∈ s.added, (s.sched.request id).isFinished = true →
    (finishNotices t.executed).count id = 1
  freedOnce : freeNotices t.executed ++ t.sched.encoderCacheManager.freed =
    t.sched.encoderCacheManager.everFreed
  freed : s.sched.encoderCacheManager.everFreed <+: freeNotices t.executed
  workers : ∀ isLastRank w, ModelRunner.Executed isLastRank t.executed w →
    ∀ id ∈ s.added, (s.sched.request id).isFinished = true →
      id ∉ w.requests ∧ id ∉ w.encoderCache

/-! ## The scheduler -/

/-- **The notices of the finished requests**: those delivered and those pending. -/
structure Scheduler.Notifies (s : Scheduler) (delivered : List ReqId) : Prop where
  nodup : (delivered ++ s.finishedReqIds).Nodup
  mem : ∀ id, id ∈ delivered ++ s.finishedReqIds ↔
    id ∈ s.objects ∧ (s.request id).isFinished = true

section Notifies

variable {H : BlockHasher} {C : SchedulerConfig} {E : Environment} {m : ModelRunnerOutput}
  {s s' : Scheduler} {delivered : List ReqId} {rid : ReqId} {stopped : Bool}

/-- No request finishes. -/
theorem Scheduler.Notifies.congr (h : s.Notifies delivered)
    (hobj : ∀ id, id ∈ s'.objects ↔ id ∈ s.objects)
    (hfin : ∀ id, (s'.request id).isFinished = (s.request id).isFinished)
    (hpending : s'.finishedReqIds = s.finishedReqIds) : s'.Notifies delivered := by
  refine ⟨hpending ▸ h.nodup, fun id => ?_⟩
  rw [hpending, h.mem, hobj, hfin]

/-- **An unfinished request finishes**, and is listed. -/
theorem Scheduler.Notifies.finish (h : s.Notifies delivered) (hmem : rid ∈ s.objects)
    (hun : (s.request rid).isFinished = false) (hobj : ∀ id, id ∈ s'.objects ↔ id ∈ s.objects)
    (hothers : ∀ id, id ≠ rid → s'.request id = s.request id)
    (hfin : (s'.request rid).isFinished = true)
    (hpending : s'.finishedReqIds = addToSet s.finishedReqIds rid) : s'.Notifies delivered := by
  have hnew : rid ∉ delivered ++ s.finishedReqIds := fun hid => by
    exact absurd ((h.mem rid).mp hid).2 (by simp [hun])
  have happ : delivered ++ s'.finishedReqIds = (delivered ++ s.finishedReqIds) ++ [rid] := by
    rw [hpending, addToSet, if_neg fun hid => hnew (List.mem_append_right _ hid),
      List.append_assoc]
  refine ⟨?_, fun id => ?_⟩
  · rw [happ]
    exact h.nodup.append (List.nodup_singleton _) (by simpa using hnew)
  · rw [happ, List.mem_append, List.mem_singleton, h.mem, hobj]
    by_cases hid : id = rid
    · rw [hid]
      exact ⟨fun _ => ⟨hmem, hfin⟩, fun _ => .inr rfl⟩
    · rw [hothers id hid]
      exact or_iff_left hid

/-- One round of `update_from_output`. -/
theorem UpdatePass.Applies.notifies {u u' : UpdatePass} {drafts generated appended : List TokenId}
    (ha : u.Applies C rid ((u.sched.request rid).rejectDrafts drafts generated) generated appended
      stopped u') (h : u.sched.Notifies delivered) (hmem : rid ∈ u.sched.objects)
    (hun : (u.sched.request rid).isFinished = false) :
    u'.sched.Notifies delivered ∧
      u.sched.encoderCacheManager.Lists u'.sched.encoderCacheManager := by
  obtain ⟨r, -, hends⟩ := ha.ends
  have hobj : ∀ id, id ∈ u'.sched.objects ↔ id ∈ u.sched.objects := fun id =>
    ⟨fun hid => (ha.mem_objects id hid).elim (fun hid => hid ▸ hmem) fun h => h,
      ha.objects_mem id⟩
  cases stopped with
  | true =>
    have henc : u'.sched.encoderCacheManager = u.sched.encoderCacheManager.free r :=
      hends.encoderCacheManager
    refine ⟨h.finish hmem hun hobj ha.others (ha.request.finished rfl) hends.finishedReqIds, ?_⟩
    exact henc ▸ EncoderCacheManager.lists_free _ _
  | false =>
    have henc : u'.sched.encoderCacheManager = u.sched.encoderCacheManager :=
      hends.encoderCacheManager
    refine ⟨h.congr hobj (fun id => ?_) hends.finishedReqIds, henc ▸ .refl _⟩
    by_cases hid : id = rid
    · unfold Request.isFinished
      rw [hid, ha.request.status rfl, Request.status_rejectDrafts]
    · rw [ha.others id hid]

variable {output : SchedulerOutput}

/-- The results of a step concern unfinished requests. -/
theorem updateFromOutput_notifies {ecos : Dict Nat EngineCoreOutputs}
    (hset : s.Settles) (hmem : ∀ id ∈ s.requests, id ∈ s.objects)
    (hok : s.AllUnfinished output.numScheduledTokens.keys) (h : s.Notifies delivered)
    (hup : s.updateFromOutput H C E output m = .ok (ecos, s')) :
    s'.Notifies delivered ∧ s.encoderCacheManager.Lists s'.encoderCacheManager := by
  obtain ⟨u, hu, -⟩ := updateFromOutput_ok hup
  have hstart : UpdatePass.Spares s output.numScheduledTokens.entries { sched := s } :=
    ⟨output.numScheduledTokens.nodup, hok, hmem, hset, .refl s, fun o ho => by
      simp [UpdatePass.allOutputs] at ho⟩
  obtain ⟨-, hloop, hlists⟩ := threadM_invariant (I := fun rest (u : UpdatePass) =>
      UpdatePass.Spares s rest u ∧ u.sched.Notifies delivered ∧
        s.encoderCacheManager.Lists u.sched.encoderCacheManager)
    (fun e rest u u' hI hstep => by
      refine ⟨hI.1.updateRequest hstep, ?_⟩
      obtain ⟨-, ⟨-, rfl⟩ | ⟨hreq, index, generated, appended, stopped, -, -, ha⟩⟩ :=
        updateRequest_ok hstep
      · exact hI.2
      · obtain ⟨h₁, h₂⟩ := ha.notifies hI.2.1 (hI.1.mem_objects e.1 hreq)
          (hI.1.unfinished e.1 List.mem_cons_self hreq)
        exact ⟨h₁, hI.2.2.trans h₂⟩) ⟨hstart, h, .refl _⟩ hu.loop
  have henc : s'.encoderCacheManager = u.sched.encoderCacheManager := hu.ends.encoderCacheManager
  refine ⟨hloop.congr (fun id => by rw [hu.objects])
    (fun id => by rw [Scheduler.request_congr hu.objects]) hu.ends.finishedReqIds, ?_⟩
  rw [henc]
  exact hlists

/-- The second pass of `finish_requests`. -/
theorem finishLoop_notifies {status : RequestStatus} (hst : status.isFinished = true)
    {rest : List ReqId} (hn : rest.Nodup)
    (hrest : ∀ id ∈ rest, id ∈ s.objects ∧ (s.request id).isFinished = false)
    (h : s.Notifies delivered)
    (hloop : threadM (Scheduler.finishRequest C E status) rest s = .ok s') :
    s'.Notifies delivered ∧ s.encoderCacheManager.Lists s'.encoderCacheManager := by
  induction rest generalizing s with
  | nil =>
    cases hloop
    exact ⟨h, .refl _⟩
  | cons rid rest ih =>
    obtain ⟨s₁, h₁, hloop⟩ := threadM_cons_ok.mp hloop
    obtain ⟨hobj, -, -, -, hends⟩ := finishRequest_ok h₁
    obtain ⟨hnot, hnd⟩ := List.nodup_cons.mp hn
    obtain ⟨hmem, hun⟩ := hrest rid List.mem_cons_self
    have hreq : ∀ id, s₁.request id = (s.modify rid fun r => r.withStatus status).request id :=
      Scheduler.request_congr hobj
    have hothers : ∀ id, id ≠ rid → s₁.request id = s.request id := fun id hid =>
      (hreq id).trans (Scheduler.request_modify_ne hid)
    have hobjs : ∀ id, id ∈ s₁.objects ↔ id ∈ s.objects := fun id => by
      rw [hobj, Scheduler.mem_objects_modify]
      exact or_iff_right_of_imp fun hid => hid ▸ hmem
    have hfin : (s₁.request rid).isFinished = true := by
      rw [hreq, Scheduler.request_modify_self]
      exact hst
    have henc : s₁.encoderCacheManager =
        s.encoderCacheManager.free ((s.request rid).withStatus status) := hends.encoderCacheManager
    obtain ⟨ih₁, ih₂⟩ := ih hnd
      (fun id hid => by
        rw [hothers id fun heq => hnot (heq ▸ hid), hobjs]
        exact hrest id (List.mem_cons_of_mem _ hid))
      (h.finish hmem hun hobjs hothers hfin hends.finishedReqIds) hloop
    exact ⟨ih₁, (henc ▸ EncoderCacheManager.lists_free _ _ :
      s.encoderCacheManager.Lists s₁.encoderCacheManager).trans ih₂⟩

theorem finishRequests_notifies {ids : List ReqId} {status : RequestStatus}
    (hn : s.running.Nodup) (hmem : ∀ id ∈ s.requests, id ∈ s.objects)
    (hok : s.AllUnfinished ids) (h : s.Notifies delivered)
    (hfin : s.finishRequests C E ids status = .ok s') :
    s'.Notifies delivered ∧ s.encoderCacheManager.Lists s'.encoderCacheManager := by
  obtain ⟨hst, valid, hnd, hvalid, w, -, hloop⟩ := finishRequests_ok hn hfin
  have hrest : ∀ id ∈ valid, id ∈ s.objects ∧ (s.request id).isFinished = false := fun id hid => by
    obtain ⟨h₁, h₂⟩ := (hvalid id).mp hid
    exact ⟨hmem id h₂, hok id h₁ h₂⟩
  have hend := finishLoop_notifies hst hnd (by exact hrest)
    (by exact ⟨h.nodup, h.mem⟩ : Scheduler.Notifies _ delivered) hloop
  exact ⟨hend.1, hend.2⟩

theorem addRequest_notifies {r : Request} (hnew : r.requestId ∉ s.objects)
    (h : s.Notifies delivered) (hadd : s.addRequest r.new = .ok s') : s'.Notifies delivered := by
  have ha := addRequest_ok hadd
  have hun : r.new.isFinished = false := by
    unfold Request.new Request.isFinished
    split <;> rfl
  refine ⟨ha.finishedReqIds ▸ h.nodup, fun id => ?_⟩
  rw [ha.finishedReqIds, h.mem, ha.request, ha.objects, Dict.mem_set]
  change _ ↔ (id = r.requestId ∨ _) ∧ _
  by_cases hid : id = r.requestId
  · simp [hid, hnew, hun]
  · simp [hid]

/-! ### A scheduling step -/

/-- **What a step tells the workers**: the notices that were pending, and requests that have not
finished. -/
structure Scheduler.Tells (s : Scheduler) (output : SchedulerOutput) (s' : Scheduler) : Prop where
  finished : output.finishedReqIds = s.finishedReqIds
  pending : s'.finishedReqIds = []
  freed : output.freeEncoderInputIds = s.encoderCacheManager.freed
  everFreed : s'.encoderCacheManager.everFreed =
    s.encoderCacheManager.everFreed ++ s'.encoderCacheManager.freed
  scheduledNewReqs : ∀ id ∈ output.scheduledNewReqs.map NewRequestData.reqId,
    (s.request id).isFinished = false
  scheduledEncoderInputs : ∀ id ∈ output.scheduledEncoderInputs, (s.request id).isFinished = false

/-- The loops of `schedule` free no encoder inputs, and those they schedule are of scheduled
requests. -/
theorem Pass.Turns.freed {G : List Grant} {p p' : Pass} (h : p.Turns C G p')
    (hstart : ∀ id ∈ p.scheduledEncoderInputs, id ∈ p.numScheduledTokens) :
    p'.sched.encoderCacheManager.freed = p.sched.encoderCacheManager.freed ∧
      p'.sched.encoderCacheManager.everFreed = p.sched.encoderCacheManager.everFreed ∧
      ∀ id ∈ p'.scheduledEncoderInputs, id ∈ p'.numScheduledTokens := by
  have hgrant : ∀ {g : Grant} {q : Pass} {n : Int},
      g.pass.RecordsInputs g.rid g.demand.encoderInputs q →
      q.numScheduledTokens = g.pass.numScheduledTokens.set g.rid n →
      (g.pass.sched.encoderCacheManager.freed = p.sched.encoderCacheManager.freed ∧
        g.pass.sched.encoderCacheManager.everFreed = p.sched.encoderCacheManager.everFreed ∧
        ∀ id ∈ g.pass.scheduledEncoderInputs, id ∈ g.pass.numScheduledTokens) →
      q.sched.encoderCacheManager.freed = p.sched.encoderCacheManager.freed ∧
        q.sched.encoderCacheManager.everFreed = p.sched.encoderCacheManager.everFreed ∧
        ∀ id ∈ q.scheduledEncoderInputs, id ∈ q.numScheduledTokens := by
    intro g q n hrec hset hI
    have halloc := g.pass.sched.encoderCacheManager.allocateAll_ok (g.pass.sched.request g.rid)
      g.demand.encoderInputs
    rw [hrec.encoderCacheManager, halloc.freed, halloc.everFreed, hset]
    refine ⟨hI.1, hI.2.1, fun id hid => ?_⟩
    rw [hrec.scheduledEncoderInputs] at hid
    rw [Dict.mem_set]
    split at hid
    · exact .inr (hI.2.2 id hid)
    · exact (Dict.mem_set.mp hid).imp_right (hI.2.2 id)
  induction h with
  | refl => exact ⟨rfl, rfl, hstart⟩
  | tail _ hturn ih =>
    cases hturn with
    | quiet hq =>
      rw [hq.encoderCacheManager, hq.scheduledEncoderInputs, hq.numScheduledTokens]
      exact ih
    | recordLoras hl =>
      obtain ⟨loras, rfl⟩ := recordLoras_ok hl
      exact ih
    | @running p₁ g blocks hg hadmits hnamed hq hrid hasks =>
      refine hgrant (scheduleRunning_records _ _ _ blocks)
        (g.pass.scheduleRunning_effect g.rid g.demand blocks).numScheduledTokens ?_
      rw [hq.encoderCacheManager, hq.scheduledEncoderInputs, hq.numScheduledTokens]
      exact ih
    | admitWaiting hg hadmits hnamed hpre hlora hasks hadmitted =>
      exact hgrant (admit_records hadmitted) (admit_ok hadmitted).numScheduledTokens ih

/-- The new requests of a step are scheduled. -/
theorem Scheduler.Schedules.scheduledNewReqs_mem {p : Pass}
    (hplaces : s.Places s.running s.waiting.ids) (hp : s.Schedules H C E p output s') :
    ∀ id ∈ p.scheduledNewReqs, id ∈ p.numScheduledTokens := by
  obtain ⟨p₁, hbooks, hrestore⟩ := schedulePass_invariant hplaces.nodupR hp.pass
    (Pass.books_start hplaces) fun _ _ h hm => Pass.Books.move h hm.move
  obtain ⟨w, rfl, -⟩ := restoreSkipped_ok hrestore
  intro id hid
  exact hbooks.lists.mem_iff.mp (List.mem_append_left _ (List.mem_append_left _ hid))

theorem schedule_tells (hplaces : s.Places s.running s.waiting.ids)
    (hacc : s.Accounts) (hsched : s.schedule H C E = .ok (output, s')) : s.Tells output s' := by
  obtain ⟨p, hp⟩ := schedule_ok hsched
  obtain ⟨hplaces', hkeeps⟩ := schedulePass_places hplaces hp.pass
  obtain ⟨hfreed, hever, hinputs⟩ := (schedulePass_turns hplaces hp.pass).freed (by
    intro id hid
    exact absurd hid (Dict.notMem_empty id))
  obtain ⟨henc, hpending⟩ := hp.encoder
  obtain ⟨l, hl, hl'⟩ := EncoderCacheManager.Lists.foldl
    (f := fun m (e : ReqId × Int) => m.freeComputed ((p.sched.request e.1).advanced e.2))
    (fun m e => .foldl (fun m i => m.lists_freeEncoderInput _ i) _ m) p.numScheduledTokens.entries
    p.sched.encoderCacheManager.getFreedIds.2
  rw [← henc] at hl hl'
  obtain ⟨common, rfl⟩ := hp.output
  refine ⟨hkeeps.frame.finishedReqIds, hpending, hfreed, ?_, fun id hid => ?_, fun id hid => ?_⟩
  · rw [hl', hl]
    exact congrArg (· ++ l) hever
  · obtain ⟨d, hd, rfl⟩ := List.mem_map.mp hid
    obtain ⟨rid, hrid, rfl⟩ := List.mem_map.mp hd
    have hun := scheduled_unfinished hplaces hacc hp (hp.scheduledNewReqs_mem hplaces rid hrid)
    have hname : (p.sched.request rid).requestId = rid :=
      hplaces'.named rid ((hkeeps.mem_objects rid).mpr hun.1)
    exact (congrArg (fun id => (s.request id).isFinished) hname).trans hun.2
  · exact (scheduled_unfinished hplaces hacc hp (hinputs id hid)).2

/-- **A step delivers the notices that are pending.** -/
theorem Scheduler.Tells.notifies (ht : s.Tells output s')
    (h : s.Notifies delivered) (hobj : ∀ id, id ∈ s'.objects ↔ id ∈ s.objects)
    (hfin : ∀ id, (s'.request id).isFinished = (s.request id).isFinished) :
    s'.Notifies (delivered ++ output.finishedReqIds) := by
  refine ⟨?_, fun id => ?_⟩
  · rw [ht.pending, List.append_nil, ht.finished]
    exact h.nodup
  · rw [ht.pending, List.append_nil, ht.finished, h.mem, hobj, hfin]

end Notifies

/-! ## Runs -/

/-- **What holds in every run**: each finished request and each freed input has been listed once, in an
executed output or for the next one, and the workers have no entry of a listed request. -/
structure EngineCore.Notices (s : EngineCore) : Prop where
  placed : Engine.Placed { sched := s.sched, added := s.added }
  settles : s.sched.Settles
  finished : s.sched.Notifies (finishNotices s.executed)
  freed : freeNotices s.executed ++ s.sched.encoderCacheManager.freed =
    s.sched.encoderCacheManager.everFreed
  workers : ∀ isLastRank w, ModelRunner.Executed isLastRank s.executed w →
    ∀ id ∈ finishNotices s.executed, id ∉ w.requests ∧ id ∉ w.encoderCache

/-- **What a step does**: finished requests stay finished, and an output that is executed has the
notices that were pending. -/
structure EngineCore.Passes (s s' : EngineCore) : Prop where
  keeps : s.sched.KeepsFinished s'.sched
  everFreed : s.sched.encoderCacheManager.everFreed <+: s'.sched.encoderCacheManager.everFreed
  executed : s'.executed = s.executed ∨ ∃ output, s'.executed = s.executed ++ [output] ∧
    output.finishedReqIds = s.sched.finishedReqIds ∧
    output.freeEncoderInputIds = s.sched.encoderCacheManager.freed

section Runs

variable {H : BlockHasher} {C : SchedulerConfig} {maxConcurrentBatches : Nat} {E E' : Environment}
  {m : ModelRunnerOutput} {s s' s'' t : EngineCore} {s₀ sched : Scheduler}
  {output : SchedulerOutput} {ecos : Dict Nat EngineCoreOutputs}

theorem finishNotices_concat (l : List SchedulerOutput) (output : SchedulerOutput) :
    finishNotices (l ++ [output]) = finishNotices l ++ output.finishedReqIds := by
  simp [finishNotices]

theorem freeNotices_concat (l : List SchedulerOutput) (output : SchedulerOutput) :
    freeNotices (l ++ [output]) = freeNotices l ++ output.freeEncoderInputIds := by
  simp [freeNotices]

theorem EngineCore.Passes.refl (s : EngineCore) : s.Passes s :=
  ⟨.refl _, List.prefix_rfl, .inl rfl⟩

/-- Nothing is executed in the second of two steps. -/
theorem EngineCore.Passes.trans (h : s.Passes s') (h' : s'.Passes s'')
    (hexec : s''.executed = s'.executed) : s.Passes s'' :=
  ⟨h.keeps.trans h'.keeps, h.everFreed.trans h'.everFreed, by rw [hexec]; exact h.executed⟩

/-- Nothing is executed. -/
theorem EngineCore.Notices.congr (h : s.Notices) (queue : List SchedulerOutput)
    (hplaced : Engine.Placed { sched, added := s.added }) (hset : sched.Settles)
    (hkeeps : s.sched.KeepsFinished sched) (hfin : sched.Notifies (finishNotices s.executed))
    (hlists : s.sched.encoderCacheManager.Lists sched.encoderCacheManager) :
    EngineCore.Notices { s with sched, batchQueue := queue } ∧
      s.Passes { s with sched, batchQueue := queue } := by
  obtain ⟨l, hl, hl'⟩ := hlists
  refine ⟨⟨hplaced, hset, hfin, ?_, h.workers⟩, hkeeps, hl' ▸ List.prefix_append _ _, .inl rfl⟩
  rw [hl, hl', ← h.freed, List.append_assoc]

/-- The result of a batch comes back. -/
theorem EngineCore.Notices.update (h : s.Notices) (queue : List SchedulerOutput)
    (hok : s.sched.AllUnfinished output.numScheduledTokens.keys)
    (hup : s.sched.updateFromOutput H C E' output m = .ok (ecos, sched)) :
    EngineCore.Notices { s with sched, batchQueue := queue } ∧
      s.Passes { s with sched, batchQueue := queue } := by
  let e : Engine := { sched := s.sched, inFlight := [output], added := s.added }
  have hstep : e.step H C (.updateFromOutput E' m) = .ok { e with
      sched, inFlight := [], returned := allEngineCoreOutputs ecos } := by
    simp [e, Engine.step, hup, bind, Except.bind, pure, Except.pure]
  have he : e.Placed := ⟨h.placed.places, h.placed.accounts, h.placed.added⟩
  have hfresh : FreshIds e (.updateFromOutput E' m) := trivial
  have hspares : SparesFinished e (.updateFromOutput E' m) := fun o ho => by
    obtain rfl : output = o := by simpa [e] using ho
    exact hok
  obtain ⟨hset, hsp⟩ := he.spares h.settles hfresh hspares hstep
  have hplaced := he.step hfresh hstep
  obtain ⟨hfin, hlists⟩ := updateFromOutput_notifies h.settles h.placed.accounts.mem_objects hok
    h.finished hup
  exact h.congr queue ⟨hplaced.places, hplaced.accounts, hplaced.added⟩ hset hsp.keeps hfin hlists

/-- What a scheduling step leaves alone. -/
structure EngineCore.Schedules (s : EngineCore) (output : SchedulerOutput) (sched : Scheduler) :
    Prop where
  tells : s.sched.Tells output sched
  placed : Engine.Placed { sched, added := s.added }
  settles : sched.Settles
  keeps : s.sched.KeepsFinished sched
  finished : sched.Notifies (finishNotices s.executed ++ output.finishedReqIds)
  unfinished : sched.AllUnfinished output.numScheduledTokens.keys
  allUnfinished : ∀ ids, s.sched.AllUnfinished ids → sched.AllUnfinished ids

variable (h : s.Notices)

include h

theorem EngineCore.Notices.schedules
    (hsched : s.sched.schedule H C E = .ok (output, sched)) : s.Schedules output sched := by
  let e : Engine := { sched := s.sched, added := s.added }
  have hstep : e.step H C (.schedule E) = .ok { e with sched, inFlight := [output] } := by
    simp [e, Engine.step, hsched, bind, Except.bind, pure, Except.pure]
  have hfresh : FreshIds e (.schedule E) := trivial
  have he : e.Placed := h.placed
  obtain ⟨hset, hsp⟩ := he.spares h.settles hfresh trivial hstep
  have hplaced := he.step hfresh hstep
  have htells := schedule_tells h.placed.places h.placed.accounts hsched
  obtain ⟨-, hledger, hobj, hreq⟩ :=
    schedule_places h.placed.places h.placed.accounts.mem_objects hsched
  have hrequests : sched.requests = s.sched.requests :=
    congrArg Scheduler.Ledger.requests hledger
  refine ⟨htells, ⟨hplaced.places, hplaced.accounts, hplaced.added⟩, hset, hsp.keeps,
    htells.notifies h.finished hobj fun id => (hreq id).isFinished, fun id hid _ => ?_,
    fun ids hun id hid hmem => ?_⟩
  · obtain ⟨p, hp⟩ := schedule_ok hsched
    obtain ⟨common, rfl⟩ := hp.output
    rw [(hreq id).isFinished]
    exact (scheduled_unfinished h.placed.places h.placed.accounts hp hid).2
  · rw [(hreq id).isFinished]
    exact hun id hid (hrequests ▸ hmem)

/-- **The output of a step is executed**: its notices are delivered. -/
theorem EngineCore.Notices.execute (queue : List SchedulerOutput) (hs : s.Schedules output sched) :
    EngineCore.Notices { s with sched, batchQueue := queue, executed := s.executed ++ [output] } ∧
      s.Passes { s with sched, batchQueue := queue, executed := s.executed ++ [output] } := by
  refine ⟨⟨hs.placed, hs.settles, ?_, ?_, fun isLastRank w hw id hid => ?_⟩, hs.keeps, ?_,
    .inr ⟨output, rfl, hs.tells.finished, hs.tells.freed⟩⟩
  · dsimp only
    rw [finishNotices_concat]
    exact hs.finished
  · dsimp only
    rw [freeNotices_concat, hs.tells.freed, h.freed, hs.tells.everFreed]
  · -- a request that was listed is finished, and the output schedules unfinished requests
    rw [finishNotices_concat] at hid
    obtain ⟨w₀, sampled, done, hw₀, hexec⟩ := ModelRunner.executed_concat hw
    have hfin : (s.sched.request id).isFinished = true := by
      rw [hs.tells.finished] at hid
      exact ((h.finished.mem id).mp hid).2
    obtain ⟨hreq, hcache⟩ := ModelRunner.mem_executeModel hexec id
    have hold : id ∈ output.finishedReqIds ∨ (id ∉ w₀.requests ∧ id ∉ w₀.encoderCache) :=
      (List.mem_append.mp hid).symm.imp_right (h.workers isLastRank w₀ hw₀ id)
    refine ⟨fun hmem => ?_, fun hmem => ?_⟩
    · rcases hreq hmem with hnew | ⟨hnot, hw₁⟩
      · exact absurd hfin (by simp [hs.tells.scheduledNewReqs id hnew])
      · exact (hold.resolve_left hnot).1 hw₁
    · rcases hcache hmem with hnew | ⟨hnot, hw₁⟩
      · exact absurd hfin (by simp [hs.tells.scheduledEncoderInputs id hnew])
      · exact (hold.resolve_left hnot).2 hw₁
  · exact hs.tells.everFreed ▸ List.prefix_append _ _

/-- **The output of a step is dropped**: nothing is lost if there are no notices pending. -/
theorem EngineCore.Notices.drop (hs : s.Schedules output sched)
    (hfinished : s.sched.finishedReqIds = []) (hfreed : s.sched.encoderCacheManager.freed = []) :
    EngineCore.Notices { s with sched } ∧ s.Passes { s with sched } := by
  refine h.congr s.batchQueue hs.placed hs.settles hs.keeps ?_
    ⟨sched.encoderCacheManager.freed, ?_, hs.tells.everFreed⟩
  · simpa [hs.tells.finished, hfinished] using hs.finished
  · rw [hfreed, List.nil_append]

theorem EngineCore.Notices.step (hstep : s.step H C E E' m = .ok s') :
    s'.Notices ∧ s.Passes s' := by
  rcases EngineCore.step_ok hstep with rfl | ⟨output, sched, ecos, sched', hsched, hup, rfl⟩
  · exact ⟨h, .refl _⟩
  · have hs := h.schedules hsched
    obtain ⟨h₁, hpass₁⟩ := h.execute s.batchQueue hs
    obtain ⟨h₂, hpass₂⟩ := h₁.update s.batchQueue hs.unfinished hup
    exact ⟨h₂, hpass₁.trans hpass₂ rfl⟩

/-- The oldest batch comes back. -/
theorem EngineCore.Notices.updateFromBatch (hok : ∀ output ∈ s.batchQueue.head?,
      s.sched.AllUnfinished output.numScheduledTokens.keys)
    (hup : s.updateFromBatch H C E' m = .ok s') :
    s'.Notices ∧ s.Passes s' ∧ s'.executed = s.executed := by
  rcases EngineCore.updateFromBatch_ok hup with
    rfl | ⟨output, queue, ecos, sched, hqueue, hsched, rfl⟩
  · exact ⟨h, .refl _, rfl⟩
  · obtain ⟨h₁, hpass⟩ := h.update queue (hok output (by simp [hqueue])) hsched
    exact ⟨h₁, hpass, rfl⟩

theorem EngineCore.Notices.stepWithBatchQueue (hbatch : 1 < maxConcurrentBatches)
    (hok : KeepsNotices H C maxConcurrentBatches s (.step E E' m))
    (hstep : s.stepWithBatchQueue H C maxConcurrentBatches E E' m = .ok s') :
    s'.Notices ∧ s.Passes s' := by
  obtain ⟨⟨scheduledBatch, s₁⟩, hbatch₁, h₁⟩ := bind_eq_ok.mp hstep
  have hnothing : scheduledBatch = false → s.SubmitsNothing H C maxConcurrentBatches E := by
    rintro rfl
    exact ⟨hbatch, by simp [hbatch₁, Except.toOption]⟩
  rcases EngineCore.scheduleBatch_ok hbatch₁ with ⟨rfl, -, rfl⟩ |
    ⟨hroom, output, sched, hsched, ⟨rfl, rfl⟩ | ⟨rfl, rfl⟩⟩
  · -- the batch queue is full
    obtain ⟨h₂, hpass, -⟩ := h.updateFromBatch (hok (hnothing rfl)).2 h₁
    exact ⟨h₂, hpass⟩
  · cases h₁
    exact h.execute _ (h.schedules hsched)
  · -- nothing is scheduled
    obtain ⟨hpending, hhead⟩ := hok (hnothing rfl)
    have hs := h.schedules hsched
    obtain ⟨h₂, hpass₂⟩ := h.drop hs (hpending hroom).1 (hpending hroom).2
    obtain ⟨h₃, hpass₃, hexec⟩ := h₂.updateFromBatch
      (fun output hout => hs.allUnfinished _ (hhead output hout)) h₁
    exact ⟨h₃, hpass₂.trans hpass₃ hexec⟩

/-- **Every operation that meets the condition** delivers or keeps the notices. -/
theorem EngineCore.Notices.apply {op : EngineCoreOp}
    (hok : KeepsNotices H C maxConcurrentBatches s op)
    (hstep : s.apply H C maxConcurrentBatches op = .ok s') : s'.Notices ∧ s.Passes s' := by
  let e : Engine := { sched := s.sched, added := s.added }
  have he : e.Placed := h.placed
  cases op with
  | addRequest r =>
    obtain ⟨sched, hadd, rfl⟩ := EngineCore.apply_addRequest hstep
    have hstep : e.step H C (.addRequest r) = .ok { e with
        sched, added := s.added ++ [r.requestId] } := by
      simp [e, Engine.step, hadd, bind, Except.bind, pure, Except.pure]
    have hfresh : FreshIds e (.addRequest r) := hok
    obtain ⟨hset, hsp⟩ := he.spares h.settles hfresh trivial hstep
    have hplaced := he.step hfresh hstep
    have hfin := addRequest_notifies (fun hid => hok ((h.placed.added _).mp hid)) h.finished hadd
    have henc := (addRequest_ok hadd).encoderCacheManager
    refine ⟨⟨hplaced, hset, hfin, ?_, h.workers⟩, hsp.keeps, ?_, .inl rfl⟩
    · dsimp only
      rw [henc]
      exact h.freed
    · dsimp only
      rw [henc]
  | abortRequests E ids =>
    obtain ⟨sched, hfin, rfl⟩ := EngineCore.apply_abortRequests hstep
    have hstep : e.step H C (.finishRequests E ids .finishedAborted) = .ok { e with sched } := by
      simp [e, Engine.step, hfin, bind, Except.bind, pure, Except.pure]
    have hfresh : FreshIds e (.finishRequests E ids .finishedAborted) := trivial
    obtain ⟨hset, hsp⟩ := he.spares h.settles hfresh hok hstep
    have hplaced := he.step hfresh hstep
    obtain ⟨hnot, hlists⟩ := finishRequests_notifies h.placed.places.nodupR
      h.placed.accounts.mem_objects hok h.finished hfin
    exact h.congr s.batchQueue hplaced hset hsp.keeps hnot hlists
  | step E E' m =>
    change s.stepFn H C maxConcurrentBatches E E' m = .ok s' at hstep
    unfold EngineCore.stepFn at hstep
    split at hstep
    next hbatch => exact h.stepWithBatchQueue hbatch hok hstep
    next => exact h.step hstep

omit h

theorem EngineCore.notices_init (hinit : Scheduler.init C = .ok s₀) :
    EngineCore.Notices { sched := s₀ } := by
  obtain ⟨_, -, h₁⟩ := bind_eq_ok.mp hinit
  obtain ⟨k, -, h₂⟩ := bind_eq_ok.mp h₁
  have hs := pure_eq_ok.mp h₂
  refine ⟨Engine.placed_init hinit, Scheduler.settles_init hinit, ⟨?_, fun id => ?_⟩, ?_,
    fun _ _ _ id hid => by simp [finishNotices] at hid⟩ <;> subst hs
  · simp [finishNotices]
  · simp [finishNotices]
  · rfl

/-- **Finish notices reach the workers.** From any state of a run that meets the condition, along every
continuation that meets it, pending notices have been delivered once another batch is executed. -/
theorem deliversNotices_of_reach (hinit : Scheduler.init C = .ok s₀)
    (hs : (engineCoreMachine H C maxConcurrentBatches s₀).Reach
      (KeepsNotices H C maxConcurrentBatches) s)
    (ht : ((engineCoreMachine H C maxConcurrentBatches s₀).restart s).Reach
      (KeepsNotices H C maxConcurrentBatches) t)
    (hmore : s.executed.length < t.executed.length) : DeliversNotices s t := by
  have hstart : s.Notices := hs.invariant (I := EngineCore.Notices)
    (EngineCore.notices_init hinit) fun _ _ _ hI hok hstep => (hI.apply hok hstep).1
  obtain ⟨hend, hkeeps, -, hdelivered⟩ := ht.invariant (I := fun t => t.Notices ∧
      s.sched.KeepsFinished t.sched ∧
      s.sched.encoderCacheManager.everFreed <+: t.sched.encoderCacheManager.everFreed ∧
      (t.executed.length = s.executed.length ∨
        (∀ id ∈ s.added, (s.sched.request id).isFinished = true →
          id ∈ finishNotices t.executed) ∧
        s.sched.encoderCacheManager.everFreed <+: freeNotices t.executed))
    ⟨hstart, .refl _, List.prefix_rfl, .inl rfl⟩ (by
      rintro t op t' ⟨hI, hkeeps, hever, hdelivered⟩ hok hstep
      obtain ⟨hI', hpass⟩ := hI.apply hok hstep
      refine ⟨hI', hkeeps.trans hpass.keeps, hever.trans hpass.everFreed, ?_⟩
      rcases hpass.executed with hsame | ⟨output, hexec, hfin, hfreed⟩
      · rw [hsame]
        exact hdelivered
      · -- the output that is executed has all that is pending
        rw [hexec, finishNotices_concat, hfin, freeNotices_concat, hfreed, hI.freed]
        refine .inr ⟨fun id hid hf => (hI.finished.mem id).mpr ?_, hever⟩
        have hobj := (hstart.placed.added id).mpr hid
        exact ⟨(hkeeps id hobj hf).1, hkeeps.isFinished hobj hf⟩)
  obtain ⟨hfin, hfreed⟩ := hdelivered.resolve_left (by omega)
  exact {
    finished := fun id hid hf => List.count_eq_one_of_mem
      (List.nodup_append.mp hend.finished.nodup).1 (hfin id hid hf)
    freedOnce := hend.freed
    freed := hfreed
    workers := fun isLastRank w hw id hid hf => hend.workers isLastRank w hw id (hfin id hid hf) }

/-- Two requests run, and the first one is aborted; with a batch queue of two. -/
def abortedBetweenSteps : List EngineCoreOp :=
  [.addRequest (textRequest 1 [1, 2]), .addRequest (textRequest 2 [3, 4]), .step {} {} (sampled []),
   .step {} {} (sampled [(1, [5]), (2, [6])]), .abortRequests {} [1]]

/-- The theorem on a run in which the second request goes on after the abort. -/
theorem deliversNotices_abortedBetweenSteps :
    ∃ (s₀ : Scheduler) (s t : EngineCore), Scheduler.init (pairConfig 8 8) = .ok s₀ ∧
      (engineCoreMachine .encoding (pairConfig 8 8) 2 s₀).Reach
        (KeepsNotices .encoding (pairConfig 8 8) 2) s ∧
      s.sched.finishedReqIds = [1] ∧ DeliversNotices s t := by
  let M : Scheduler → Machine EngineCore EngineCoreOp PyError :=
    engineCoreMachine .encoding (pairConfig 8 8) 2
  let ok := KeepsNotices .encoding (pairConfig 8 8) 2
  have hrun : (Scheduler.init (pairConfig 8 8)).toOption.any (fun s₀ =>
      ((M s₀).execIf ok abortedBetweenSteps { sched := s₀ }).any fun s =>
        decide (s.sched.finishedReqIds = [1]) &&
          (((M s₀).restart s).execIf ok [.step {} {} (sampled [])] s).any fun t =>
            decide (s.executed.length < t.executed.length)) = true := by
    decide +kernel
  obtain ⟨s₀, hinit, h⟩ := Option.any_eq_true .. |>.mp hrun
  obtain ⟨s, hs, h⟩ := Option.any_eq_true .. |>.mp h
  obtain ⟨hpending, h⟩ := Bool.and_eq_true _ _ ▸ h
  obtain ⟨t, ht, hmore⟩ := Option.any_eq_true .. |>.mp h
  have hinit : Scheduler.init (pairConfig 8 8) = .ok s₀ := toOption_eq_some.mp hinit
  have hreach := Machine.reach_execIf .start hs
  exact ⟨s₀, s, t, hinit, hreach, of_decide_eq_true hpending, deliversNotices_of_reach hinit
    hreach (Machine.reach_execIf .start ht) (of_decide_eq_true hmore)⟩

/-- Requests arrive under new identifiers. -/
def NewArrivals (s : EngineCore) : EngineCoreOp → Prop
  | .addRequest r => r.requestId ∉ s.added
  | _ => True

instance (s : EngineCore) (op : EngineCoreOp) : Decidable (NewArrivals s op) := by
  cases op <;> unfold NewArrivals <;> infer_instance

/-- The first request is aborted while the batch of both requests is in flight. -/
def abortedInFlight : List EngineCoreOp :=
  [.addRequest (textRequest 1 [1, 2]), .addRequest (textRequest 2 [3, 4]), .step {} {} (sampled []),
   .abortRequests {} [1]]

/-- The next step schedules nothing, and its output has the notice; the step after it executes another
batch. -/
def stepsAfterAbort : List EngineCoreOp := [.step {} {} (sampled [(2, [6])]), .step {} {} (sampled [])]

/-- **An output without tokens loses its notices**: the one that lists the aborted request is dropped.
-/
theorem not_deliversNotices_emptyBatch :
    ∃ (s₀ : Scheduler) (s t : EngineCore), Scheduler.init (pairConfig 8 8) = .ok s₀ ∧
      (engineCoreMachine .encoding (pairConfig 8 8) 2 s₀).Reach NewArrivals s ∧
      ((engineCoreMachine .encoding (pairConfig 8 8) 2 s₀).restart s).Reach NewArrivals t ∧
      1 ∈ s.executed.flatMap (fun o => o.numScheduledTokens.keys) ∧
      (s.sched.request 1).isFinished = true ∧ s.executed.length < t.executed.length ∧
      (∀ o ∈ t.executed, 0 < o.totalNumScheduledTokens) ∧ ¬DeliversNotices s t := by
  let M : Scheduler → Machine EngineCore EngineCoreOp PyError :=
    engineCoreMachine .encoding (pairConfig 8 8) 2
  have hrun : (Scheduler.init (pairConfig 8 8)).toOption.any (fun s₀ =>
      ((M s₀).execIf NewArrivals abortedInFlight { sched := s₀ }).any fun s =>
        decide (1 ∈ s.added ∧ 1 ∈ s.executed.flatMap (fun o => o.numScheduledTokens.keys) ∧
          (s.sched.request 1).isFinished = true) &&
          (((M s₀).restart s).execIf NewArrivals stepsAfterAbort s).any fun t =>
            decide (s.executed.length < t.executed.length ∧
              (∀ o ∈ t.executed, 0 < o.totalNumScheduledTokens) ∧
              (finishNotices t.executed).count 1 = 0)) = true := by
    decide +kernel
  obtain ⟨s₀, hinit, h⟩ := Option.any_eq_true .. |>.mp hrun
  obtain ⟨s, hs, h⟩ := Option.any_eq_true .. |>.mp h
  obtain ⟨hbefore, h⟩ := Bool.and_eq_true _ _ ▸ h
  obtain ⟨t, ht, hafter⟩ := Option.any_eq_true .. |>.mp h
  obtain ⟨hadded, hsent, hfin⟩ := of_decide_eq_true hbefore
  obtain ⟨hmore, hnonempty, hcount⟩ := of_decide_eq_true hafter
  refine ⟨s₀, s, t, toOption_eq_some.mp hinit, Machine.reach_execIf .start hs,
    Machine.reach_execIf .start ht, hsent, hfin, hmore, hnonempty, fun hdelivers => ?_⟩
  have hone := hdelivers.finished 1 hadded hfin
  omega

end Runs

end InferenceServer
