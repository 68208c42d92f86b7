import InferenceServer.KVCache.Tables
import InferenceServer.Sched.Placement

/-!
# The tables between two scheduling steps

The entry points of the scheduler other than `schedule` call the KV cache manager on behalf of one
request at a time, and change a table only to give it up: a request that is not finished afterwards
has the table it had (`Scheduler.Releases`).
-/

namespace InferenceServer

open Outcome

namespace Scheduler

/-- **The KV cache on behalf of one request**: the manager acts on the request, and what has been
received is the same. -/
structure ActsOn (rid : ReqId) (s s' : Scheduler) : Prop where
  manager : KVCacheManager.ActsOn rid s.kvCacheManager s'.kvCacheManager
  recving : s'.finishedRecvingKvReqIds = s.finishedRecvingKvReqIds

/-- The manager acts on the request without changing a table. -/
structure KeepsTables (rid : ReqId) (s s' : Scheduler) : Prop extends ActsOn rid s s' where
  tables : ∀ id, s'.kvCacheManager.getBlockIds id = s.kvCacheManager.getBlockIds id

variable {rid : ReqId} {s s' s'' : Scheduler}

theorem ActsOn.trans (h : ActsOn rid s s') (h' : ActsOn rid s' s'') : ActsOn rid s s'' :=
  ⟨h.manager.trans h'.manager, h'.recving.trans h.recving⟩

theorem KeepsTables.of_eq (hkv : s'.kvCacheManager = s.kvCacheManager)
    (hrec : s'.finishedRecvingKvReqIds = s.finishedRecvingKvReqIds) : KeepsTables rid s s' :=
  ⟨⟨hkv ▸ .refl rid _, hrec⟩, fun id => by rw [hkv]⟩

theorem KeepsTables.refl (rid : ReqId) (s : Scheduler) : KeepsTables rid s s := .of_eq rfl rfl

theorem KeepsTables.trans (h : KeepsTables rid s s') (h' : KeepsTables rid s' s'') :
    KeepsTables rid s s'' :=
  ⟨h.toActsOn.trans h'.toActsOn, fun id => (h'.tables id).trans (h.tables id)⟩

end Scheduler

section Entry

variable {H : BlockHasher} {C : SchedulerConfig} {E : Environment} {m : ModelRunnerOutput}
  {s s' : Scheduler} {u u' : UpdatePass} {rid : ReqId} {index : Nat} {stopped : Bool}
  {generated appended : List TokenId}

theorem freeBlocks_actsOn (h : s.freeBlocks rid = .ok s') : s.ActsOn rid s' := by
  obtain ⟨_, -, h⟩ := bind_eq_ok.mp h
  obtain ⟨k, hk, h⟩ := bind_eq_ok.mp h
  obtain ⟨_, -, h⟩ := bind_eq_ok.mp h
  cases h
  exact ⟨(KVCacheManager.actsOn_free hk).trans (KVCacheManager.actsOn_freeBlockHashes k rid rid),
    rfl⟩

theorem freeRequest_actsOn {params : Option KVTransferParams}
    (h : s.freeRequest C E rid = .ok (params, s')) : s.ActsOn rid s' := by
  obtain ⟨_, -, h⟩ := bind_eq_ok.mp h
  obtain ⟨⟨delay, params', s₁⟩, hconn, h⟩ := bind_eq_ok.mp h
  obtain ⟨-, rfl⟩ := connectorFinished_ok hconn
  cases delay with
  | true =>
    cases h
    exact ⟨.refl rid _, rfl⟩
  | false =>
    obtain ⟨s₂, hfree, h⟩ := bind_eq_ok.mp h
    cases h
    have hacts := freeBlocks_actsOn hfree
    exact ⟨hacts.manager, hacts.recving⟩

theorem appendGenerated_tables
    (h : s.appendGenerated H C rid generated = .ok (s', appended, stopped)) :
    s.KeepsTables rid s' := by
  unfold Scheduler.appendGenerated at h
  split at h
  next =>
    cases h
    exact .refl rid s
  next =>
    obtain ⟨⟨r, ap, st⟩, -, h⟩ := bind_eq_ok.mp h
    cases hasync : C.asyncScheduling with
    | false =>
      simp only [hasync, Bool.false_eq_true, if_false] at h
      cases h
      exact .of_eq rfl rfl
    | true =>
      simp only [hasync, if_true] at h
      obtain ⟨_, -, h⟩ := bind_eq_ok.mp h
      split at h
      · obtain ⟨k, hk, h⟩ := bind_eq_ok.mp h
        cases h
        obtain ⟨hacts, htables⟩ := KVCacheManager.actsOn_cacheBlocks rid hk
        exact ⟨⟨hacts, rfl⟩, htables⟩
      · cases h
        exact .of_eq rfl rfl

theorem checkPooler_tables {st : Bool} {pooler : Option (List Int)}
    (h : s.checkPooler C m rid index st = .ok (s', pooler, stopped)) : s.KeepsTables rid s' := by
  unfold Scheduler.checkPooler at h
  split at h
  next =>
    cases h
    exact .refl rid s
  next =>
    split at h
    next => simp at h
    next =>
      obtain ⟨⟨st', r'⟩, -, h⟩ := bind_eq_ok.mp h
      cases h
      exact .of_eq rfl rfl

/-- The end of a round: the drafts are assigned and the output is emitted. -/
theorem finishRound_tables {s₁ : Scheduler} {pooler : Option (List Int)}
    {params : Option KVTransferParams} (hdrafts : (u.sched.recordNans m rid).assignDrafts E m rid
      index = .ok s₁)
    (hemit : { u with sched := s₁ }.emitOutput m rid appended pooler params = .ok u') :
    u.sched.KeepsTables rid u'.sched := by
  have hnans : u.sched.KeepsTables rid (u.sched.recordNans m rid) := by
    unfold Scheduler.recordNans
    split
    · exact .of_eq rfl rfl
    · exact .refl rid _
  have hassign : (u.sched.recordNans m rid).KeepsTables rid s₁ := by
    unfold Scheduler.assignDrafts at hdrafts
    split at hdrafts
    · cases hdrafts
      exact .refl rid _
    · split at hdrafts
      · simp at hdrafts
      · cases hdrafts
        exact .of_eq rfl rfl
  rw [(emitOutput_ok hemit).1]
  exact hnans.trans hassign

/-- **A round of the loop** of `update_from_output` changes a table only if its request has stopped,
and then only that of the request. -/
theorem applyTokens_tables (hmem : rid ∈ u.sched.objects)
    (h : u.applyTokens H C E m rid index generated = .ok u') :
    u.sched.ActsOn rid u'.sched ∧
      ((u'.sched.request rid).isFinished = true ∨ u.sched.KeepsTables rid u'.sched) := by
  obtain ⟨⟨s₁, appended, st⟩, happ, h⟩ := bind_eq_ok.mp h
  obtain ⟨⟨s₂, pooler, stopped⟩, hpool, h⟩ := bind_eq_ok.mp h
  obtain ⟨⟨params, u₁⟩, hfree, h⟩ := bind_eq_ok.mp h
  obtain ⟨s₄, hdrafts, hemit⟩ := bind_eq_ok.mp h
  have hbefore := (appendGenerated_tables happ).trans (checkPooler_tables hpool)
  have hafter := finishRound_tables hdrafts hemit
  cases stopped with
  | false =>
    obtain ⟨-, rfl⟩ : none = params ∧ { u with sched := s₂ } = u₁ := by
      simpa [UpdatePass.freeStopped] using hfree
    have hall := hbefore.trans hafter
    exact ⟨hall.toActsOn, .inr hall⟩
  | true =>
    obtain ⟨-, -, hobj, -⟩ := freeStopped_ok hfree
    have hround : s₂.ActsOn rid u₁.sched := by
      unfold UpdatePass.freeStopped at hfree
      rw [if_pos rfl] at hfree
      obtain ⟨⟨params', s₃⟩, hreq, hfree⟩ := bind_eq_ok.mp hfree
      cases hfree
      split <;> exact freeRequest_actsOn hreq
    refine ⟨(hbefore.toActsOn.trans hround).trans hafter.toActsOn, .inl ?_⟩
    -- freeing the request, and what comes after it, leaves its status alone
    obtain ⟨ht₁, htakes₁, hstops⟩ := appendGenerated_ok happ
    obtain ⟨ht₂, htakes₂⟩ := checkPooler_ok htakes₁ hstops hpool
    obtain ⟨ht₃, n, hnans⟩ := recordNans_touches u₁.sched m rid
    obtain ⟨ht₄, l, hspec⟩ := assignDrafts_ok hdrafts
    rw [(emitOutput_ok hemit).1, hspec, hnans, Scheduler.request_congr hobj]
    exact htakes₂.finished rfl

/-- **One round of the loop** of `update_from_output`. -/
theorem updateRequest_tables {output : SchedulerOutput} {e : ReqId × Int}
    (h : UpdatePass.updateRequest H C E output m e u = .ok u') :
    u.sched.ActsOn e.1 u'.sched ∧
      ((u'.sched.request e.1).isFinished = true ∨ u.sched.KeepsTables e.1 u'.sched) := by
  obtain ⟨_, -, h⟩ := bind_eq_ok.mp h
  split at h
  next =>
    cases h
    exact ⟨(Scheduler.KeepsTables.refl e.1 _).toActsOn, .inr (.refl e.1 _)⟩
  next =>
    split at h
    next => simp at h
    next index hindex =>
      obtain ⟨generated, -, h⟩ := bind_eq_ok.mp h
      obtain ⟨hacts, hkeeps⟩ := applyTokens_tables (Scheduler.mem_objects_modify.mpr (.inl rfl)) h
      exact ⟨⟨hacts.manager, hacts.recving⟩,
        hkeeps.imp_right fun hk => ⟨⟨hk.manager, hk.recving⟩, hk.tables⟩⟩

/-- The second pass of `finish_requests`. -/
theorem finishRequest_actsOn {status : RequestStatus}
    (h : s.finishRequest C E status rid = .ok s') : s.ActsOn rid s' := by
  obtain ⟨⟨params, s₁⟩, hfree, h⟩ := bind_eq_ok.mp h
  cases h
  have hacts := freeRequest_actsOn hfree
  exact ⟨hacts.manager, hacts.recving⟩

/-! ### Whole calls -/

/-- **What the calls between two scheduling steps do to the tables**: a request that is not finished
has the table it had, and the status. -/
structure Scheduler.Releases (s s' : Scheduler) : Prop where
  config : s.kvCacheManager.SameConfig s'.kvCacheManager
  counted : s.kvCacheManager.Counted → s'.kvCacheManager.Counted
  recving : s'.finishedRecvingKvReqIds = s.finishedRecvingKvReqIds
  unfinished : ∀ id, (s'.request id).isFinished = false →
    (s'.request id).status = (s.request id).status ∧
      s'.kvCacheManager.getBlockIds id = s.kvCacheManager.getBlockIds id

theorem Scheduler.Releases.of_eq (hkv : s'.kvCacheManager = s.kvCacheManager)
    (hobj : s'.objects = s.objects)
    (hrec : s'.finishedRecvingKvReqIds = s.finishedRecvingKvReqIds) : s.Releases s' :=
  ⟨hkv ▸ .refl _, fun h => hkv ▸ h, hrec, fun id _ => ⟨by rw [Scheduler.request_congr hobj],
    by rw [hkv]⟩⟩

/-- A finished request stays finished, so the requests that are left at the end were there. -/
theorem Scheduler.Releases.trans {s'' : Scheduler} (h : s.Releases s') (h' : s'.Releases s'') :
    s.Releases s'' := by
  refine ⟨h.config.trans h'.config, fun hc => h'.counted (h.counted hc),
    h'.recving.trans h.recving, fun id hid => ?_⟩
  obtain ⟨hst', htable'⟩ := h'.unfinished id hid
  have hid' : (s'.request id).isFinished = false := by
    rwa [Request.isFinished, ← hst']
  obtain ⟨hst, htable⟩ := h.unfinished id hid'
  exact ⟨hst'.trans hst, htable'.trans htable⟩

/-- A call on behalf of one request, which it finishes or whose table it keeps. -/
theorem Scheduler.ActsOn.releases (h : s.ActsOn rid s')
    (hothers : ∀ id, id ≠ rid → s'.request id = s.request id)
    (hrid : (s'.request rid).isFinished = false →
      (s'.request rid).status = (s.request rid).status ∧
        s'.kvCacheManager.getBlockIds rid = s.kvCacheManager.getBlockIds rid) :
    s.Releases s' := by
  refine ⟨h.manager.config, h.manager.counted, h.recving, fun id hid => ?_⟩
  by_cases hne : id = rid
  · subst hne
    exact hrid hid
  · rw [hothers id hne, h.manager.getBlockIds hne]
    exact ⟨rfl, rfl⟩

theorem updateRequest_releases {output : SchedulerOutput} {e : ReqId × Int}
    (h : UpdatePass.updateRequest H C E output m e u = .ok u') : u.sched.Releases u'.sched := by
  obtain ⟨hacts, hkeeps⟩ := updateRequest_tables h
  obtain ⟨-, ⟨-, rfl⟩ | ⟨-, index, generated, appended, stopped, -, -, ha⟩⟩ := updateRequest_ok h
  · exact .of_eq rfl rfl rfl
  refine hacts.releases ha.others fun hid => ⟨?_, ?_⟩
  · cases stopped with
    | false => rw [ha.request.status rfl, Request.status_rejectDrafts]
    | true => simp [ha.request.finished rfl] at hid
  · rcases hkeeps with hfin | hkeeps
    · simp [hid] at hfin
    · exact hkeeps.tables e.1

theorem freeBlocks_releases (h : s.freeBlocks rid = .ok s') : s.Releases s' := by
  have hf := freeBlocks_ok h
  refine (freeBlocks_actsOn h).releases (fun id _ => Scheduler.request_congr hf.objects id)
    fun hid => ?_
  rw [Scheduler.request_congr hf.objects, hf.finished] at hid
  simp at hid

/-- Requests that have been sent are finished. -/
theorem updateFromKvXferFinished_releases (h : s.updateFromKvXferFinished m = .ok s') :
    Scheduler.Releases
      { s with
        finishedRecvingKvReqIds := m.finishedRecving.foldl addToSet s.finishedRecvingKvReqIds }
      s' := by
  refine threadM_invariant (I := fun _ (t : Scheduler) => Scheduler.Releases _ t)
    (fun id l t t' hI ht => ?_) (.of_eq rfl rfl rfl) h
  obtain ⟨_, -, ht⟩ := bind_eq_ok.mp ht
  exact hI.trans (freeBlocks_releases ht)

/-- **`update_from_output`** releases the blocks of requests that it finishes or that have been sent,
and takes note of what has been received. -/
theorem updateFromOutput_releases {output : SchedulerOutput} {ecos : Dict Nat EngineCoreOutputs}
    (h : s.updateFromOutput H C E output m = .ok (ecos, s')) :
    ∃ s₁, s.Releases s₁ ∧ Scheduler.Releases
      { s₁ with
        finishedRecvingKvReqIds := m.finishedRecving.foldl addToSet s₁.finishedRecvingKvReqIds }
      s' := by
  obtain ⟨u, hloop, h₁⟩ := bind_eq_ok.mp h
  obtain ⟨s₁, hstop, h₂⟩ := bind_eq_ok.mp h₁
  obtain ⟨s₂, hsent, h₃⟩ := bind_eq_ok.mp h₂
  have heco : s₂.engineCoreOutputs u.outputs = (ecos, s') := pure_eq_ok.mp h₃
  have hrounds : s.Releases u.sched := by
    refine threadM_invariant (I := fun _ (u : UpdatePass) => s.Releases u.sched)
      (fun e l u u' hI hu => hI.trans (updateRequest_releases hu)) ?_ hloop
    exact .of_eq rfl rfl rfl
  obtain ⟨w, rfl, -⟩ := removeWaiting_ok hstop
  obtain ⟨⟨d, rfl⟩, -⟩ := engineCoreOutputs_ok heco
  have hdict : s₂.Releases { s₂ with finishedReqIdsDict := d } := .of_eq rfl rfl rfl
  refine ⟨_, ?_, (updateFromKvXferFinished_releases hsent).trans hdict⟩
  exact hrounds.trans (.of_eq rfl rfl rfl)

/-- **`finish_requests`** releases the blocks of requests that it finishes. -/
theorem finishRequests_releases {ids : List ReqId} {status : RequestStatus}
    (hn : s.running.Nodup) (h : s.finishRequests C E ids status = .ok s') : s.Releases s' := by
  obtain ⟨hst, valid, -, -, w, -, hloop⟩ := finishRequests_ok hn h
  refine threadM_invariant (I := fun _ (t : Scheduler) => s.Releases t)
    (fun rid l t t' hI ht => hI.trans ?_) ?_ hloop
  case refine_2 => exact .of_eq rfl rfl rfl
  obtain ⟨hobj, -, -, -⟩ := finishRequest_ok ht
  refine (finishRequest_actsOn ht).releases (fun id hid => ?_) fun hid => ?_
  · rw [Scheduler.request_congr hobj, Scheduler.request_modify_ne hid]
  · rw [Scheduler.request_congr hobj, Scheduler.request_modify_self] at hid
    exact absurd (hst.symm.trans hid) (by decide)

end Entry

end InferenceServer
