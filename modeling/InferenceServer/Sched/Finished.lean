import InferenceServer.Sched.Placement

/-!
# Finished requests

A request that is finished leaves `self.requests`, unless the connector asks to keep its blocks for a
while. In the meantime `update_from_output` and `finish_requests` still find it there, and neither of
them asks whether it is finished: an output in flight appends tokens to it, returns them to the client
and may finish it again, and so may an abort.

The condition is therefore that no such call concerns a finished request (`SparesFinished`). Under it
a finished request stays as it is (`staysFinished_of_reach`): whatever finishes a request finds it
unfinished, so the connector is asked about it once, and its blocks are freed once.

## Main results

* `Scheduler.Settles.records`, `staysFinished_of_reach`, `not_staysFinished_of_kept`
-/

namespace InferenceServer

open Outcome

/-! ## The condition and the property -/

/-- **The condition.** The results of a step and the requests to finish concern no request that is
finished and still in `self.requests`. -/
def SparesFinished (s : Engine) : EngineOp → Prop
  | .updateFromOutput _ _ => ∀ output ∈ s.inFlight.head?, ∀ id ∈ output.numScheduledTokens.keys,
      id ∈ s.sched.requests → (s.sched.request id).isFinished = false
  | .finishRequests _ ids _ => ∀ id ∈ ids,
      id ∈ s.sched.requests → (s.sched.request id).isFinished = false
  | _ => True

instance (s : Engine) (op : EngineOp) : Decidable (SparesFinished s op) := by
  refine op.casesOn ?_ ?_ ?_ ?_ <;> intros <;> unfold SparesFinished <;> infer_instance

/-- **Finished means finished**, for a request that is finished in `s`, up to a later `t`: its status
and tokens are the same, nothing has been returned for it, and over the whole run the connector was
asked about it at most once and its blocks were freed at most once. -/
structure StaysFinished (s t : Engine) (id : ReqId) : Prop where
  status : (t.sched.request id).status = (s.sched.request id).status
  outputTokenIds : (t.sched.request id).outputTokenIds = (s.sched.request id).outputTokenIds
  returned : t.returned.filter (·.requestId = id) = s.returned.filter (·.requestId = id)
  requestFinished : (t.sched.requestFinishedCalls.map Prod.fst).count id ≤ 1
  freedBlocks : t.sched.freedBlocks.count id ≤ 1

/-! ## The record -/

/-- **The connector is asked once and blocks are freed once.** Whoever the connector was asked about is
finished, and whose blocks were freed has left `self.requests`. -/
structure Scheduler.Settles (s : Scheduler) : Prop where
  nodupCalls : (s.requestFinishedCalls.map Prod.fst).Nodup
  calls : ∀ id ∈ s.requestFinishedCalls.map Prod.fst,
    id ∈ s.objects ∧ (s.request id).isFinished = true
  nodupFreed : s.freedBlocks.Nodup
  freed : ∀ id ∈ s.freedBlocks, id ∈ s.objects ∧ id ∉ s.requests

/-- Finished requests keep their status and their tokens. -/
def Scheduler.KeepsFinished (s s' : Scheduler) : Prop :=
  ∀ id ∈ s.objects, (s.request id).isFinished = true →
    id ∈ s'.objects ∧ (s'.request id).status = (s.request id).status ∧
      (s'.request id).outputTokenIds = (s.request id).outputTokenIds

section Record

variable {C : SchedulerConfig} {s s' s'' : Scheduler} {rid : ReqId} {stopped : Bool}

theorem Scheduler.KeepsFinished.refl (s : Scheduler) : s.KeepsFinished s :=
  fun _ hid _ => ⟨hid, rfl, rfl⟩

theorem Scheduler.KeepsFinished.isFinished (h : s.KeepsFinished s') {id : ReqId}
    (hid : id ∈ s.objects) (hfin : (s.request id).isFinished = true) :
    (s'.request id).isFinished = true := by
  unfold Request.isFinished at hfin ⊢
  rwa [(h id hid hfin).2.1]

theorem Scheduler.KeepsFinished.trans (h : s.KeepsFinished s') (h' : s'.KeepsFinished s'') :
    s.KeepsFinished s'' := by
  intro id hid hfin
  obtain ⟨hid', hst, hout⟩ := h id hid hfin
  obtain ⟨hid'', hst', hout'⟩ := h' id hid' (h.isFinished hid hfin)
  exact ⟨hid'', hst'.trans hst, hout'.trans hout⟩

/-- An unfinished request changes. -/
theorem Scheduler.KeepsFinished.of_others (hrid : (s.request rid).isFinished = false)
    (hobj : ∀ id ∈ s.objects, id ∈ s'.objects)
    (hothers : ∀ id, id ≠ rid → s'.request id = s.request id) : s.KeepsFinished s' := by
  intro id hid hfin
  have hne : id ≠ rid := by
    rintro rfl
    simp [hrid] at hfin
  rw [hothers id hne]
  exact ⟨hobj id hid, rfl, rfl⟩

/-- **Finishing an unfinished request**, or leaving its status alone, **keeps the record.** -/
theorem Scheduler.Settles.records (h : s.Settles) (hmem : rid ∈ s.objects)
    (hrid : (s.request rid).isFinished = false) (hobj : ∀ id ∈ s.objects, id ∈ s'.objects)
    (hothers : ∀ id, id ≠ rid → s'.request id = s.request id)
    (hfin : stopped = true → (s'.request rid).isFinished = true)
    (hrec : s.ledger.Records C rid stopped s'.ledger) : s'.Settles := by
  have hkeeps := Scheduler.KeepsFinished.of_others hrid hobj hothers
  -- the connector has not been asked about an unfinished request
  have hcall : rid ∉ s.requestFinishedCalls.map Prod.fst := fun hc => by
    exact absurd (h.calls rid hc).2 (by simp [hrid])
  cases stopped with
  | false =>
    have hl := hrec.unstopped rfl
    have h₁ : s'.requests = s.requests := congrArg Scheduler.Ledger.requests hl
    have h₂ : s'.requestFinishedCalls = s.requestFinishedCalls :=
      congrArg Scheduler.Ledger.requestFinishedCalls hl
    have h₃ : s'.freedBlocks = s.freedBlocks := congrArg Scheduler.Ledger.freedBlocks hl
    refine ⟨h₂ ▸ h.nodupCalls, fun id hid => ?_, h₃ ▸ h.nodupFreed, fun id hid => ?_⟩
    · obtain ⟨hid', hf⟩ := h.calls id (h₂ ▸ hid)
      exact ⟨hobj id hid', hkeeps.isFinished hid' hf⟩
    · obtain ⟨hid', hf⟩ := h.freed id (h₃ ▸ hid)
      exact ⟨hobj id hid', h₁ ▸ hf⟩
  | true =>
    obtain ⟨delay, -, hl, hreq⟩ := hrec.stopped rfl
    have h₁ : s'.requests = _ := congrArg Scheduler.Ledger.requests hl
    have h₂ : s'.requestFinishedCalls = _ := congrArg Scheduler.Ledger.requestFinishedCalls hl
    have h₃ : s'.freedBlocks = _ := congrArg Scheduler.Ledger.freedBlocks hl
    dsimp only [Scheduler.ledger] at h₁ h₂ h₃ hreq
    refine ⟨?_, fun id hid => ?_, ?_, fun id hid => ?_⟩
    · rw [h₂]
      split
      · rw [List.map_append, List.map_singleton]
        exact h.nodupCalls.append (List.nodup_singleton _) (by simpa using hcall)
      · exact h.nodupCalls
    · have hcases : id ∈ s.requestFinishedCalls.map Prod.fst ∨ id = rid := by
        rw [h₂] at hid
        split at hid
        · simpa using hid
        · exact .inl hid
      rcases hcases with hid | rfl
      · obtain ⟨hid', hf⟩ := h.calls id hid
        exact ⟨hobj id hid', hkeeps.isFinished hid' hf⟩
      · exact ⟨hobj id hmem, hfin rfl⟩
    · rw [h₃]
      split
      · exact h.nodupFreed
      next hd =>
        -- what has been freed is not in `self.requests`
        refine h.nodupFreed.append (List.nodup_singleton _) fun id hid hid' => ?_
        obtain rfl := List.mem_singleton.mp hid'
        exact (h.freed id hid).2 (hreq (by simpa using hd))
    · rw [h₁]
      rw [h₃] at hid
      cases delay with
      | true => exact ⟨hobj id (h.freed id hid).1, (h.freed id hid).2⟩
      | false =>
        simp only [Bool.false_eq_true, if_false, List.mem_append, List.mem_singleton] at hid
        rcases hid with hid | rfl
        · refine ⟨hobj id (h.freed id hid).1, ?_⟩
          simp [(h.freed id hid).2]
        · exact ⟨hobj id hmem, by simp⟩

end Record

/-! ## The calls -/

section Calls

variable {H : BlockHasher} {C : SchedulerConfig} {E : Environment} {s s' : Scheduler}

/-- A call that changes neither the record nor a finished request. -/
theorem Scheduler.Settles.of_ledger (h : s.Settles) (hledger : s'.ledger = s.ledger)
    (hkeeps : s.KeepsFinished s') (hobj : ∀ id ∈ s.objects, id ∈ s'.objects) : s'.Settles := by
  have h₁ : s'.requests = s.requests := congrArg Scheduler.Ledger.requests hledger
  have h₂ : s'.requestFinishedCalls = s.requestFinishedCalls :=
    congrArg Scheduler.Ledger.requestFinishedCalls hledger
  have h₃ : s'.freedBlocks = s.freedBlocks := congrArg Scheduler.Ledger.freedBlocks hledger
  refine ⟨h₂ ▸ h.nodupCalls, fun id hid => ?_, h₃ ▸ h.nodupFreed, fun id hid => ?_⟩
  · obtain ⟨hid', hf⟩ := h.calls id (h₂ ▸ hid)
    exact ⟨hobj id hid', hkeeps.isFinished hid' hf⟩
  · obtain ⟨hid', hf⟩ := h.freed id (h₃ ▸ hid)
    exact ⟨hobj id hid', h₁ ▸ hf⟩

/-- What the loop of `update_from_output` has done, with the requests `rest` still to visit. -/
structure UpdatePass.Spares (s : Scheduler) (rest : List (ReqId × Int)) (u : UpdatePass) : Prop where
  nodup : (rest.map Prod.fst).Nodup
  unfinished : ∀ id ∈ rest.map Prod.fst, id ∈ u.sched.requests →
    (u.sched.request id).isFinished = false
  mem_objects : ∀ id ∈ u.sched.requests, id ∈ u.sched.objects
  settles : u.sched.Settles
  keeps : s.KeepsFinished u.sched
  outputs : ∀ o ∈ u.allOutputs, o.requestId ∈ s.objects →
    (s.request o.requestId).isFinished = false

theorem Scheduler.Ledger.Records.requests_subset {l l' : Scheduler.Ledger} {rid : ReqId}
    {stopped : Bool} (h : l.Records C rid stopped l') : ∀ id ∈ l'.requests, id ∈ l.requests :=
  fun _ hid => (h.kept hid).1

/-- One round. -/
theorem UpdatePass.Spares.updateRequest {output : SchedulerOutput} {m : ModelRunnerOutput}
    {e : ReqId × Int} {rest : List (ReqId × Int)} {u u' : UpdatePass}
    (h : UpdatePass.Spares s (e :: rest) u)
    (hstep : UpdatePass.updateRequest H C E output m e u = .ok u') :
    UpdatePass.Spares s rest u' := by
  obtain ⟨hnot, hnd⟩ := List.nodup_cons.mp h.nodup
  obtain ⟨-, ⟨-, rfl⟩ | ⟨hmem, index, generated, appended, stopped, -, -, ha⟩⟩ :=
    updateRequest_ok hstep
  · exact ⟨hnd, fun id hid => h.unfinished id (List.mem_cons_of_mem _ hid), h.mem_objects,
      h.settles, h.keeps, h.outputs⟩
  · have hunf := h.unfinished e.1 List.mem_cons_self hmem
    have hobj := h.mem_objects e.1 hmem
    have hsub := ha.records.requests_subset
    have hkeeps := Scheduler.KeepsFinished.of_others hunf ha.objects_mem ha.others
    refine ⟨hnd, fun id hid hreq => ?_, fun id hid => ha.objects_mem id (h.mem_objects id (hsub id hid)),
      ?_, h.keeps.trans hkeeps, fun o ho hmem => ?_⟩
    · -- the requests to come are others
      rw [ha.others id (fun heq => hnot (heq ▸ hid))]
      exact h.unfinished id (List.mem_cons_of_mem _ hid) (hsub id hreq)
    · exact h.settles.records hobj hunf ha.objects_mem ha.others ha.request.finished ha.records
    · rcases ha.outputs o ho with ho | ho
      · exact h.outputs o ho hmem
      · -- a request that was finished at the start would be finished now
        rw [ho] at hmem ⊢
        rw [Bool.eq_false_iff]
        intro hfin
        exact absurd (h.keeps.isFinished hmem hfin) (by simp [hunf])

theorem updateFromOutput_settles {output : SchedulerOutput} {m : ModelRunnerOutput}
    {ecos : Dict Nat EngineCoreOutputs} (h : s.Settles)
    (hmem : ∀ id ∈ s.requests, id ∈ s.objects)
    (hok : ∀ id ∈ output.numScheduledTokens.keys, id ∈ s.requests →
      (s.request id).isFinished = false)
    (hup : s.updateFromOutput H C E output m = .ok (ecos, s')) :
    s'.Settles ∧ s.KeepsFinished s' ∧ ∀ o ∈ allEngineCoreOutputs ecos, o.requestId ∈ s.objects →
      (s.request o.requestId).isFinished = false := by
  obtain ⟨u, hu, houts⟩ := updateFromOutput_ok hup
  have hstart : UpdatePass.Spares s output.numScheduledTokens.entries { sched := s } :=
    ⟨output.numScheduledTokens.nodup, hok, hmem, h, .refl s, fun o ho => by
      simp [UpdatePass.allOutputs] at ho⟩
  have hend := threadM_invariant (I := UpdatePass.Spares s)
    (fun _ _ _ _ hI hstep => hI.updateRequest hstep) hstart hu.loop
  obtain ⟨sent, hn, hsent, hreq, hfreed⟩ := hu.freed
  have hrequest := Scheduler.request_congr hu.objects
  refine ⟨⟨?_, ?_, ?_, ?_⟩, ?_, fun o ho => hend.outputs o (houts o ho)⟩
  · rw [hu.requestFinishedCalls]
    exact hend.settles.nodupCalls
  · intro id hid
    rw [hu.requestFinishedCalls] at hid
    rw [hu.objects, hrequest]
    exact hend.settles.calls id hid
  · rw [hfreed]
    exact hend.settles.nodupFreed.append hn fun id hid hid' =>
      (hend.settles.freed id hid).2 (hsent id hid').1
  · intro id hid
    rw [hfreed] at hid
    rw [hu.objects, hreq]
    rcases List.mem_append.mp hid with hid | hid
    · obtain ⟨h₁, h₂⟩ := hend.settles.freed id hid
      exact ⟨h₁, fun hm => h₂ (List.mem_of_mem_filter hm)⟩
    · exact ⟨hend.mem_objects id (hsent id hid).1, by simp [hid]⟩
  · intro id hid hfin
    rw [hu.objects, hrequest]
    exact hend.keeps id hid hfin

/-- The second pass of `finish_requests`. -/
theorem finishLoop_settles {status : RequestStatus} (hst : status.isFinished = true)
    {rest : List ReqId} (hn : rest.Nodup)
    (hrest : ∀ id ∈ rest, id ∈ s.objects ∧ (s.request id).isFinished = false) (h : s.Settles)
    (hloop : threadM (Scheduler.finishRequest C E status) rest s = .ok s') :
    s'.Settles ∧ s.KeepsFinished s' := by
  induction rest generalizing s with
  | nil =>
    obtain rfl := Except.ok.inj hloop
    exact ⟨h, .refl s⟩
  | cons rid rest ih =>
    obtain ⟨s₁, h₁, hloop⟩ := threadM_cons_ok.mp hloop
    obtain ⟨hobj, -, -, hrec, -⟩ := finishRequest_ok h₁
    obtain ⟨hnot, hnd⟩ := List.nodup_cons.mp hn
    obtain ⟨hmem, hunf⟩ := hrest rid List.mem_cons_self
    have hreq : ∀ id, s₁.request id = (s.modify rid fun r => r.withStatus status).request id :=
      Scheduler.request_congr hobj
    have hothers : ∀ id, id ≠ rid → s₁.request id = s.request id := fun id hid =>
      (hreq id).trans (Scheduler.request_modify_ne hid)
    have hobjs : ∀ id ∈ s.objects, id ∈ s₁.objects := fun id hid => by
      rw [hobj]
      exact Scheduler.mem_objects_modify.mpr (.inr hid)
    have hfin : (s₁.request rid).isFinished = true := by
      rw [hreq, Scheduler.request_modify_self]
      exact hst
    obtain ⟨ih₁, ih₂⟩ := ih hnd
      (fun id hid => by
        rw [hothers id fun heq => hnot (heq ▸ hid)]
        obtain ⟨h₁, h₂⟩ := hrest id (List.mem_cons_of_mem _ hid)
        exact ⟨hobjs id h₁, h₂⟩)
      (h.records hmem hunf hobjs hothers (fun _ => hfin) hrec) hloop
    exact ⟨ih₁, (Scheduler.KeepsFinished.of_others hunf hobjs hothers).trans ih₂⟩

end Calls

/-! ## Runs -/

section Runs

variable {H : BlockHasher} {C : SchedulerConfig} {s s' t : Engine} {s₀ : Scheduler}

/-- A step leaves the finished requests alone. -/
structure Engine.Spares (s s' : Engine) : Prop where
  keeps : s.sched.KeepsFinished s'.sched
  returned : ∃ l, s'.returned = s.returned ++ l ∧ ∀ o ∈ l, o.requestId ∈ s.sched.objects →
    (s.sched.request o.requestId).isFinished = false

/-- **Every call that meets the condition** leaves the finished requests alone, and keeps the
record. -/
theorem Engine.Placed.spares (h : s.Placed) (hset : s.sched.Settles) {op : EngineOp}
    (hfresh : FreshIds s op) (hok : SparesFinished s op) (hstep : s.step H C op = .ok s') :
    s'.sched.Settles ∧ s.Spares s' := by
  cases Engine.step_cases hstep with
  | @addRequest r sched hadd =>
    have ha := addRequest_ok hadd
    have hnew : r.requestId ∉ s.sched.objects := fun hid => hfresh ((h.added _).mp hid)
    have hobj : ∀ id ∈ s.sched.objects, id ∈ sched.objects := fun id hid => by
      rw [ha.objects]
      exact Dict.mem_set.mpr (.inr hid)
    have hreq : ∀ id ∈ s.sched.objects, sched.request id = s.sched.request id := fun id hid => by
      rw [ha.request, if_neg]
      rintro rfl
      exact hnew hid
    have hkeeps : s.sched.KeepsFinished sched := fun id hid _ => by
      rw [hreq id hid]
      exact ⟨hobj id hid, rfl, rfl⟩
    refine ⟨⟨?_, fun id hid => ?_, ?_, fun id hid => ?_⟩, hkeeps, [], by simp, by simp⟩
    · exact ha.requestFinishedCalls ▸ hset.nodupCalls
    · obtain ⟨h₁, h₂⟩ := hset.calls id (ha.requestFinishedCalls ▸ hid)
      exact ⟨hobj id h₁, hkeeps.isFinished h₁ h₂⟩
    · exact ha.freedBlocks ▸ hset.nodupFreed
    · obtain ⟨h₁, h₂⟩ := hset.freed id (ha.freedBlocks ▸ hid)
      refine ⟨hobj id h₁, fun hm => ?_⟩
      change id ∈ sched.requests at hm
      rw [ha.requests, mem_addToSet] at hm
      rcases hm with rfl | hm
      · exact hnew h₁
      · exact h₂ hm
  | @schedule _ _ sched hsched =>
    obtain ⟨-, hledger, hobj, hreq⟩ := schedule_places h.places h.accounts.mem_objects hsched
    have hkeeps : s.sched.KeepsFinished sched := fun id hid hfin =>
      ⟨(hobj id).mpr hid, (hreq id).status hfin, (hreq id).outputTokenIds⟩
    exact ⟨hset.of_ledger hledger hkeeps fun id => (hobj id).mpr, hkeeps, [], by simp, by simp⟩
  | @updateFromOutput _ _ output _ _ _ hin hup =>
    obtain ⟨h₁, h₂, h₃⟩ := updateFromOutput_settles hset h.accounts.mem_objects
      (hok output (by simp [hin])) hup
    exact ⟨h₁, h₂, _, rfl, h₃⟩
  | finishRequests hfin =>
    obtain ⟨hst, valid, hn, hvalid, w, -, hloop⟩ := finishRequests_ok h.places.nodupR hfin
    have hunf : ∀ id ∈ valid, id ∈ s.sched.objects ∧ (s.sched.request id).isFinished = false := by
      intro id hid
      obtain ⟨h₁, h₂⟩ := (hvalid id).mp hid
      exact ⟨h.accounts.mem_objects id h₂, hok id h₁ h₂⟩
    have hend := finishLoop_settles hst hn (by exact hunf)
      (by exact ⟨hset.nodupCalls, hset.calls, hset.nodupFreed, hset.freed⟩) hloop
    exact ⟨hend.1, hend.2, [], by simp, by simp⟩

/-- Nothing is returned for a finished request. -/
theorem Engine.Spares.returned_filter (h : s.Spares s') {id : ReqId} (hid : id ∈ s.sched.objects)
    (hfin : (s.sched.request id).isFinished = true) :
    s'.returned.filter (·.requestId = id) = s.returned.filter (·.requestId = id) := by
  obtain ⟨l, heq, hl⟩ := h.returned
  have hnil : l.filter (·.requestId = id) = [] := List.filter_eq_nil_iff.mpr fun o ho hoid => by
    obtain rfl : o.requestId = id := by simpa using hoid
    exact absurd hfin (by simp [hl o ho hid])
  rw [heq, List.filter_append, hnil, List.append_nil]

theorem Scheduler.settles_init (h : Scheduler.init C = .ok s₀) : s₀.Settles := by
  obtain ⟨_, -, h₁⟩ := bind_eq_ok.mp h
  obtain ⟨k, -, h₂⟩ := bind_eq_ok.mp h₁
  cases h₂
  exact ⟨List.nodup_nil, by simp, List.nodup_nil, by simp⟩

/-- **Finished means finished.** From any state of a run that meets the condition, along every
continuation that meets it, a finished request stays as it is. -/
theorem staysFinished_of_reach (hinit : Scheduler.init C = .ok s₀)
    (hs : (engineMachine H C s₀).Reach (fun s op => FreshIds s op ∧ SparesFinished s op) s)
    (ht : ((engineMachine H C s₀).restart s).Reach (fun s op => FreshIds s op ∧ SparesFinished s op)
      t) {id : ReqId} (hid : id ∈ s.added) (hfin : (s.sched.request id).isFinished = true) :
    StaysFinished s t id := by
  have hstart : s.Placed ∧ s.sched.Settles := hs.invariant (I := fun s => s.Placed ∧ s.sched.Settles)
    ⟨Engine.placed_init hinit, Scheduler.settles_init hinit⟩
    fun _ _ _ hI hok hstep => ⟨hI.1.step hok.1 hstep, (hI.1.spares hI.2 hok.1 hok.2 hstep).1⟩
  have hobj := (hstart.1.added id).mpr hid
  have hend := ht.invariant (I := fun t => t.Placed ∧ t.sched.Settles ∧
      s.sched.KeepsFinished t.sched ∧
      t.returned.filter (·.requestId = id) = s.returned.filter (·.requestId = id))
    ⟨hstart.1, hstart.2, .refl _, rfl⟩ (by
      rintro t op t' ⟨hplaced, hset, hkeeps, hret⟩ hok hstep
      obtain ⟨hset', hsp⟩ := hplaced.spares hset hok.1 hok.2 hstep
      refine ⟨hplaced.step hok.1 hstep, hset', hkeeps.trans hsp.keeps, ?_⟩
      rw [hsp.returned_filter (hkeeps id hobj hfin).1 (hkeeps.isFinished hobj hfin), hret])
  obtain ⟨-, hset, hkeeps, hret⟩ := hend
  obtain ⟨-, hstatus, hout⟩ := hkeeps id hobj hfin
  exact ⟨hstatus, hout, hret, List.nodup_iff_count_le_one.mp hset.nodupCalls id,
    List.nodup_iff_count_le_one.mp hset.nodupFreed id⟩

/-- The first request is aborted between two steps, and kept for the connector. -/
def settledRun : List EngineOp :=
  [.addRequest (textRequest 1 [1, 2]), .addRequest (textRequest 2 [3, 4]), .schedule {},
   .updateFromOutput {} (sampled [(1, [5]), (2, [6])]),
   .finishRequests { requestFinished := fun _ _ => (true, none) } [1] .finishedAborted]

/-- Its blocks are sent during the next step. -/
def sentRun : List EngineOp :=
  [.schedule {}, .updateFromOutput {} { sampled [(2, [7])] with finishedSending := [1] }]

/-- The theorem on a run in which a finished request is kept, and freed when it has been sent. -/
theorem staysFinished_settledRun :
    ∃ (s₀ : Scheduler) (s t : Engine),
      (engineMachine .encoding { pairConfig 8 8 with hasConnector := true } s₀).Reach
        (fun s op => FreshIds s op ∧ SparesFinished s op) s ∧
      (s.sched.request 1).isFinished = true ∧ 1 ∈ s.sched.requests ∧
      t.sched.freedBlocks = [1] ∧ StaysFinished s t 1 := by
  let C := { pairConfig 8 8 with hasConnector := true }
  let M : Engine → Machine Engine EngineOp PyError := fun s =>
    ((engineMachine .encoding C s.sched).restart s)
  have hrun : (runEngine .encoding C (fun s op => FreshIds s op ∧ SparesFinished s op)
      settledRun).any (fun s => decide (1 ∈ s.added ∧ (s.sched.request 1).isFinished = true ∧
        1 ∈ s.sched.requests) &&
        ((M s).execIf (fun s op => FreshIds s op ∧ SparesFinished s op) sentRun s).any fun t =>
          decide (t.sched.freedBlocks = [1])) = true := by
    decide +kernel
  obtain ⟨s, hs, h⟩ := Option.any_eq_true .. |>.mp hrun
  obtain ⟨hbefore, hafter⟩ := Bool.and_eq_true _ _ ▸ h
  obtain ⟨hadded, hfin, hkept⟩ := of_decide_eq_true hbefore
  obtain ⟨t, ht, hfreed⟩ := Option.any_eq_true .. |>.mp hafter
  obtain ⟨s₀, hinit, hreach⟩ := reach_runEngine hs
  exact ⟨s₀, s, t, hreach, hfin, hkept, of_decide_eq_true hfreed,
    staysFinished_of_reach hinit hreach (Machine.reach_execIf .start ht) hadded hfin⟩

/-- The request is aborted while its step is in flight, and kept for the connector. -/
def keptRun : List EngineOp :=
  [.addRequest (textRequest 1 [1, 2]), .schedule {},
   .finishRequests { requestFinished := fun _ _ => (true, none) } [1] .finishedAborted]

/-- **Without the condition**, an aborted request that is still in `self.requests` gets another token,
which is returned to its client. -/
theorem not_staysFinished_of_kept :
    ∃ (H : BlockHasher) (C : SchedulerConfig) (s₀ : Scheduler) (s t : Engine),
      Scheduler.init C = .ok s₀ ∧ (engineMachine H C s₀).Reach FreshIds s ∧
      ((engineMachine H C s₀).restart s).Reach FreshIds t ∧ 1 ∈ s.added ∧
      (s.sched.request 1).isFinished = true ∧ ¬StaysFinished s t 1 ∧
      (t.sched.request 1).outputTokenIds = [5] ∧ t.returned.map (·.requestId) = [1] := by
  let C := { pairConfig 4 8 with hasConnector := true }
  let M : Engine → Machine Engine EngineOp PyError := fun s =>
    ((engineMachine .encoding C s.sched).restart s)
  have hrun : (runEngine .encoding C FreshIds keptRun).any (fun s => decide (1 ∈ s.added ∧
      (s.sched.request 1).isFinished = true ∧ (s.sched.request 1).outputTokenIds = []) &&
        ((M s).execIf FreshIds [.updateFromOutput {} (sampled [(1, [5])])] s).any fun t =>
          decide ((t.sched.request 1).outputTokenIds = [5] ∧
            t.returned.map (·.requestId) = [1])) = true := by
    decide +kernel
  obtain ⟨s, hs, h⟩ := Option.any_eq_true .. |>.mp hrun
  obtain ⟨hbefore, hafter⟩ := Bool.and_eq_true _ _ ▸ h
  obtain ⟨hadded, hfin, hout⟩ := of_decide_eq_true hbefore
  obtain ⟨t, ht, hbad⟩ := Option.any_eq_true .. |>.mp hafter
  obtain ⟨hout', hret⟩ := of_decide_eq_true hbad
  obtain ⟨s₀, hinit, hreach⟩ := reach_runEngine hs
  refine ⟨.encoding, C, s₀, s, t, hinit, hreach, Machine.reach_execIf .start ht, hadded, hfin, ?_,
    hout', hret⟩
  intro hstays
  have := hstays.outputTokenIds
  rw [hout, hout'] at this
  cases this

end Runs

end InferenceServer
