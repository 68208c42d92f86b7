import InferenceServer.Sched.RemoteLoads

/-!
# Blocks that are being loaded

While the blocks of a parked request are being loaded, another process writes to them. They must not
go to another request before the worker has reported the load. The scheduler relies on the block
table for this: blocks that a table holds are not handed out (`allocateSlots_new`), and the table of
a parked request stays as it is (`Scheduler.Awaits`).

What ends this is a request that is finished while it is parked, by an abort or by a token of an
earlier step: `_free_request` asks the connector whether the blocks are still to be sent, not whether
they are still being received, and frees them. In a run that finishes no request whose load has not
been reported, no block of such a load is handed out.
-/

namespace InferenceServer

open Outcome
open Transfers (calls_load calls_of_load)

/-! ## Calls that finish no load -/

/-- The request with the tokens of a step, as `_update_request_with_output` leaves it. -/
def Request.takeGenerated (C : SchedulerConfig) (r : Request) (generated : List TokenId) :
    Except PyError (Request × List TokenId × Bool) :=
  if generated = [] then .ok (r, [], false)
  else do
    let (r, appended, stopped) ← r.updateWithOutput C.maxModelLen generated
    return (if C.asyncScheduling then r.addPlaceholders (-appended.length) else r, appended, stopped)

/-- Whether the request stops on what the model runner returns for it, as `check_stop` says. -/
def Request.stopsOn (C : SchedulerConfig) (m : ModelRunnerOutput) (index : Nat)
    (generated : List TokenId) (r : Request) : Bool :=
  match r.takeGenerated C generated, m.poolerOutput, m.poolerOutput[index]? with
  | .ok (_, _, stopped), [], _ => stopped
  | .ok (r, _, _), _ :: _, some pooler =>
    match r.checkStop C.maxModelLen pooler with
    | .ok (stopped, _) => stopped
    | .error _ => false
  | _, _, _ => false

/-- **No request is finished whose load has not been reported**: it is not among those to be finished,
and no token of an earlier step stops it. -/
def SparesLoads (C : SchedulerConfig) (s : TransferEngine) : EngineOp → Prop
  | .finishRequests _ ids _ => ∀ id ∈ ids, id ∉ s.transfers.unreported
  | .updateFromOutput _ m =>
    ∀ output ∈ s.engine.inFlight.head?, ∀ e ∈ output.numScheduledTokens.entries,
      e.1 ∈ s.transfers.unreported → ∀ index ∈ m.reqIdToIndex.get? e.1,
        ∀ generated ∈ (m.generated index).toOption,
          ((s.engine.sched.request e.1).rejectDrafts
            (output.scheduledSpecDecodeTokens.getD e.1 []) generated).stopsOn C m index generated =
              false
  | _ => True

section Stops

variable {H : BlockHasher} {C : SchedulerConfig} {E : Environment} {m : ModelRunnerOutput}
  {u u' : UpdatePass} {s s' : Scheduler} {rid : ReqId} {index : Nat}
  {generated appended : List TokenId} {stopped : Bool}

theorem appendGenerated_request
    (h : s.appendGenerated H C rid generated = .ok (s', appended, stopped)) :
    (s.request rid).takeGenerated C generated = .ok (s'.request rid, appended, stopped) := by
  unfold Scheduler.appendGenerated at h
  unfold Request.takeGenerated
  split at h
  next hnil =>
    cases h
    rw [if_pos hnil]
  next hnil =>
    obtain ⟨⟨r, ap, st⟩, hup, h⟩ := bind_eq_ok.mp h
    rw [if_neg hnil]
    refine bind_eq_ok.mpr ⟨_, hup, pure_eq_ok.mpr ?_⟩
    cases hasync : C.asyncScheduling with
    | false =>
      simp only [hasync, Bool.false_eq_true, if_false] at h
      cases h
      simp
    | true =>
      simp only [hasync, if_true] at h
      obtain ⟨_, -, h⟩ := bind_eq_ok.mp h
      split at h
      · obtain ⟨k, hk, h⟩ := bind_eq_ok.mp h
        cases h
        simp
      · cases h
        simp

/-- A request that does not stop on its tokens is as finished as before. -/
theorem applyTokens_of_not_stopsOn
    (hstops : (u.sched.request rid).stopsOn C m index generated = false)
    (h : u.applyTokens H C E m rid index generated = .ok u') :
    (u'.sched.request rid).status = (u.sched.request rid).status := by
  obtain ⟨⟨s₁, appended, st⟩, happ, h⟩ := bind_eq_ok.mp h
  obtain ⟨⟨s₂, pooler, stopped⟩, hpool, h⟩ := bind_eq_ok.mp h
  obtain ⟨⟨params, u₁⟩, hfree, h⟩ := bind_eq_ok.mp h
  obtain ⟨s₄, hdrafts, hemit⟩ := bind_eq_ok.mp h
  obtain rfl : stopped = false := by
    rw [Request.stopsOn, appendGenerated_request happ] at hstops
    unfold Scheduler.checkPooler at hpool
    cases hpl : m.poolerOutput with
    | nil =>
      rw [hpl] at hstops hpool
      cases hpool
      exact hstops
    | cons a l =>
      rw [hpl] at hstops hpool
      cases hget : (a :: l)[index]? with
      | none => simp [hget] at hpool
      | some pooler' =>
        simp only [hget] at hpool hstops
        obtain ⟨⟨st', r'⟩, hcheck, hpool⟩ := bind_eq_ok.mp hpool
        cases hpool
        simpa [hcheck] using hstops
  obtain ⟨ht₁, htakes₁, hstops₁⟩ := appendGenerated_ok happ
  obtain ⟨ht₂, htakes₂⟩ := checkPooler_ok htakes₁ hstops₁ hpool
  obtain ⟨-, -, hobj, -⟩ := freeStopped_ok hfree
  obtain ⟨ht₃, n₃, hnans⟩ := recordNans_touches u₁.sched m rid
  obtain ⟨ht₄, l, hspec⟩ := assignDrafts_ok hdrafts
  rw [(emitOutput_ok hemit).1, hspec, hnans, Scheduler.request_congr hobj]
  exact htakes₂.status rfl

/-- **`update_from_output`** leaves the status of a request alone that does not stop. -/
theorem updateFromOutput_status {output : SchedulerOutput} {ecos : Dict Nat EngineCoreOutputs}
    (hstops : ∀ e ∈ output.numScheduledTokens.entries, e.1 = rid →
      ∀ index ∈ m.reqIdToIndex.get? rid, ∀ generated ∈ (m.generated index).toOption,
        ((s.request rid).rejectDrafts (output.scheduledSpecDecodeTokens.getD rid [])
          generated).stopsOn C m index generated = false)
    (h : s.updateFromOutput H C E output m = .ok (ecos, s')) :
    (s'.request rid).status = (s.request rid).status := by
  obtain ⟨u, hu, -⟩ := updateFromOutput_ok h
  rw [Scheduler.request_congr hu.objects]
  -- the request is visited at most once, and is the same until then
  refine (threadM_invariant (I := fun rest (u : UpdatePass) =>
      (rest.map Prod.fst).Nodup ∧ (∀ e ∈ rest, e ∈ output.numScheduledTokens.entries) ∧
      (rid ∈ rest.map Prod.fst → u.sched.request rid = s.request rid) ∧
      (u.sched.request rid).status = (s.request rid).status) ?_ ?_ hu.loop).2.2.2
  · rintro e rest u u' ⟨hnd, hsub, hsame, hst⟩ hround
    rw [List.map_cons, List.nodup_cons] at hnd
    refine ⟨hnd.2, fun e' he' => hsub e' (List.mem_cons_of_mem e he'), ?_⟩
    obtain ⟨-, ⟨-, rfl⟩ | ⟨hmem, index, generated, appended, stopped, hindex, hgen, ha⟩⟩ :=
      updateRequest_ok hround
    · exact ⟨fun hid => hsame (List.mem_cons_of_mem _ hid), hst⟩
    by_cases hid : rid = e.1
    · refine ⟨fun hrest => absurd (hid ▸ hrest) hnd.1, ?_⟩
      have hnot := hstops e (hsub e List.mem_cons_self) hid.symm index (by rw [hid]; exact hindex)
        generated (by rw [hgen]; rfl)
      rw [← hsame (hid ▸ List.mem_cons_self)] at hnot
      rw [← hst]
      obtain ⟨_, -, hround⟩ := bind_eq_ok.mp hround
      rw [if_neg (not_not.mpr hmem), hindex] at hround
      obtain ⟨generated', hgen', hround⟩ := bind_eq_ok.mp hround
      obtain rfl : generated = generated' := Except.ok.inj (hgen.symm.trans hgen')
      subst hid
      have hkeeps := applyTokens_of_not_stopsOn (by
        rw [Scheduler.request_modify_self]
        exact hnot) hround
      rw [Scheduler.request_modify_self, Request.status_rejectDrafts] at hkeeps
      exact hkeeps
    · rw [ha.others rid hid]
      exact ⟨fun hrest => hsame (List.mem_cons_of_mem _ hrest), hst⟩
  · exact ⟨output.numScheduledTokens.nodup, fun e he => he, fun _ => rfl, rfl⟩

/-- **`finish_requests`** leaves the other requests alone. -/
theorem finishRequests_request {ids : List ReqId} {status : RequestStatus}
    (hn : s.running.Nodup) (h : s.finishRequests C E ids status = .ok s') (hid : rid ∉ ids) :
    s'.request rid = s.request rid := by
  obtain ⟨-, valid, -, hvalid, w, -, hloop⟩ := finishRequests_ok hn h
  refine (threadM_invariant (I := fun rest (u : Scheduler) => (∀ id ∈ rest, id ∈ valid) ∧
    u.request rid = s.request rid) (fun id rest u u' hI hu => ?_) ?_ hloop).2
  swap
  · exact ⟨fun _ h => h, rfl⟩
  obtain ⟨hobj, -, -, -⟩ := finishRequest_ok hu
  refine ⟨fun id' hid' => hI.1 id' (List.mem_cons_of_mem id hid'), ?_⟩
  rw [Scheduler.request_congr hobj, Scheduler.request_modify_ne, hI.2]
  rintro rfl
  exact hid ((hvalid rid).mp (hI.1 rid List.mem_cons_self)).1

end Stops

theorem mem_foldl_addToSet {α : Type} [DecidableEq α] {l s : List α} {a : α} :
    a ∈ l.foldl addToSet s ↔ a ∈ l ∨ a ∈ s := by
  induction l generalizing s with
  | nil => simp
  | cons b l ih =>
    rw [List.foldl_cons, ih, mem_addToSet, List.mem_cons]
    tauto

/-! ## Requests that are being loaded -/

/-- **A request whose load has not been reported is parked**, and will not be received yet. -/
def Scheduler.Loads (s : Scheduler) (t : Transfers) : Prop :=
  ∀ id ∈ t.unreported, (s.request id).status = .waitingForRemoteKvs ∧
    id ∉ s.finishedRecvingKvReqIds

section Loads

variable {H : BlockHasher} {C : SchedulerConfig} {E : Environment} {s₀ s s' : Scheduler}
  {t : Transfers} {p p' : Pass} {rid : ReqId} {cs : List KVCall}

/-- A call that changes nothing about parked requests. -/
theorem Scheduler.Loads.of_others (h : s.Loads t)
    (hrid : (s.request rid).status ≠ .waitingForRemoteKvs)
    (hothers : ∀ id, id ≠ rid → s'.request id = s.request id)
    (hrec : s'.finishedRecvingKvReqIds = s.finishedRecvingKvReqIds) : s'.Loads t := by
  intro id hid
  obtain ⟨hst, hnot⟩ := h id hid
  have hne : id ≠ rid := by
    rintro rfl
    exact hrid hst
  rw [hothers id hne, hrec]
  exact ⟨hst, hnot⟩

/-- A request is received only if the worker has reported it. -/
theorem Scheduler.Loads.resolveStatus (h : s.Loads t) {ready : Bool}
    (hres : s.resolveStatus H C E rid = .ok (ready, s')) : s'.Loads t := by
  intro id hid
  obtain ⟨hst, hnot⟩ := h id hid
  unfold Scheduler.resolveStatus at hres
  split at hres
  next hrid =>
    obtain ⟨⟨ready', s₁⟩, hup, hres⟩ := bind_eq_ok.mp hres
    obtain ⟨_, -, hup⟩ := bind_eq_ok.mp hup
    split at hup
    next =>
      cases hup
      cases hres
      exact ⟨hst, hnot⟩
    next hmem =>
      have hne : id ≠ rid := by
        rintro rfl
        exact hmem hnot
      split at hup
      next =>
        obtain ⟨k, -, hup⟩ := bind_eq_ok.mp hup
        cases hup
        cases hres
        rw [Scheduler.request_modify_ne hne, Scheduler.request_modify_ne hne]
        exact ⟨hst, fun hin => hnot (List.mem_of_mem_filter hin)⟩
      next => simp at hup
  next hrid =>
    have hne : id ≠ rid := by
      rintro rfl
      simp [hst] at hrid
    split at hres
    · cases hres
      rw [Scheduler.request_modify_ne hne]
      exact ⟨hst, hnot⟩
    · cases hres
      exact ⟨hst, hnot⟩
  next =>
    cases hres
    exact ⟨hst, hnot⟩

theorem preempt_recving {v : ReqId} (h : s.preempt C v = .ok s') :
    s'.finishedRecvingKvReqIds = s.finishedRecvingKvReqIds := by
  obtain ⟨k, -, h⟩ := bind_eq_ok.mp h
  obtain ⟨w, -, h⟩ := bind_eq_ok.mp h
  cases h
  rfl

theorem scheduleRunning_recving (p : Pass) (rid : ReqId) (d : Demand)
    (blocks : List (List BlockId)) : (p.scheduleRunning rid d blocks).sched.finishedRecvingKvReqIds =
      p.sched.finishedRecvingKvReqIds := by
  unfold Pass.scheduleRunning
  obtain ⟨m, inputs, budget, heq⟩ := Pass.allocateEncoder_eq _ rid d
  rw [heq]
  rfl

theorem admit_recving {d : Demand} {ct : ComputedTokens} (h : p.admitWaiting C rid d ct = .ok p') :
    p'.sched.finishedRecvingKvReqIds = p.sched.finishedRecvingKvReqIds := by
  obtain ⟨⟨e, w⟩, -, h⟩ := bind_eq_ok.mp h
  obtain ⟨_, -, h⟩ := bind_eq_ok.mp h
  cases h
  obtain ⟨m, inputs, budget, heq⟩ := Pass.allocateEncoder_eq _ rid d
  rw [heq]
  rfl

/-- **A move keeps the requests parked** whose load has not been reported. -/
theorem Scheduler.Loads.does (hinit : Scheduler.init C = .ok s₀) (hp : p.Placed)
    (ha : p.sched.Awaits C s₀ t) (h : p.sched.Loads t) (hd : Pass.Does H C E p cs p') :
    p'.sched.Loads (t.calls H E cs) := by
  have hrunning : ∀ {rid : ReqId}, rid ∈ p.sched.running →
      (p.sched.request rid).status ≠ .waitingForRemoteKvs := fun hrid => by
    rw [hp.status_of_mem hrid]
    decide
  cases hd with
  | passOver hat hzero => exact h
  | @preempt rid v k s hat hpos halloc hv hs =>
    rw [calls_of_load (by
      intro c hc
      rcases List.mem_pair.mp hc with rfl | rfl
      · exact load_allocateCall _
      · rfl)]
    have hpre := Scheduler.preempt_ok hs
    exact Scheduler.Loads.of_others (s := p.sched.withKV k) h
      (hrunning (Scheduler.victim_ok hv).1) (fun id hid => by rw [hpre.request, if_neg hid])
      (preempt_recving hs)
  | @scheduleRunning rid blocks k hat hpos halloc =>
    rw [calls_of_load (by simp)]
    have heff := (p.withKV k).scheduleRunning_effect rid (p.runningDemand C (p.sched.request rid))
      blocks
    refine Scheduler.Loads.of_others (s := p.sched.withKV k) h (hrunning hat.mem)
      (fun id hid => ?_) (scheduleRunning_recving ..)
    rw [Scheduler.request_congr heff.objects, Scheduler.request_modify_ne hid]
    rfl
  | recordLoras hl =>
    obtain ⟨loras, rfl⟩ := recordLoras_ok hl
    exact h
  | receive hat hst hmem hres =>
    rw [calls_of_load (by simp [Pass.receiveCalls, hst, hmem, KVCall.load])]
    exact h.resolveStatus hres
  | resolveStatus hat hnot hres => exact h.resolveStatus hres
  | skip hat hskip =>
    obtain ⟨e, w, sk, -, -, rfl⟩ := skipWaiting_ok hskip
    exact h
  | lookUp hat hst hnc hct =>
    rw [calls_of_load (by simp [KVCall.load])]
    obtain ⟨k, rfl, -⟩ := getComputedTokens_ok hct
    exact h
  | noSlots hat hst hct hdem halloc =>
    rw [calls_of_load (by simp [load_slotCall_of_none halloc])]
    exact h
  | @park _ rid ct s₁ d blocks k hat hst hct hdem hasync halloc hpark =>
    obtain ⟨load, hload, -⟩ := load_slotCall hinit ha.config
      (hp.named rid (hp.mem_queue hat).1) hct hdem hasync halloc
    obtain ⟨p₁, hskip, rfl⟩ := parkRemote_ok hpark
    obtain ⟨e, w, sk, -, -, rfl⟩ := skipWaiting_ok hskip
    intro id hid
    by_cases hne : id = rid
    · subst hne
      refine ⟨by rw [Scheduler.request_modify_self]; rfl, fun hin => ?_⟩
      -- its load counts as reported, if the worker has reported the request before
      change id ∈ p.sched.finishedRecvingKvReqIds at hin
      rw [calls_load hload] at hid
      exact hst (h id (by simpa [Pass.slotCall, hin] using hid)).1
    · have hid' : id ∈ t.unreported := by
        rw [calls_load hload] at hid
        split at hid
        · exact hid
        · exact (mem_addToSet.mp hid).resolve_left hne
      rw [Scheduler.request_modify_ne hne]
      exact h id hid'
  | @admitWaiting _ rid ct s₁ d blocks k hat hst hct hdem hasync halloc hadm =>
    rw [calls_of_load (by simp [load_slotCall_of_sync hasync])]
    have heff := admit_ok hadm
    refine Scheduler.Loads.of_others (s := p.sched.withKV k) h hst (fun id hid => ?_)
      (admit_recving (p := p.withKV k) hadm)
    rw [Scheduler.request_congr heff.objects, Scheduler.request_modify_ne hid]
    rfl

/-- **The blocks of a load are not handed out** by a call before the load has been reported. -/
def KVCall.SparesLoadingBlocks (H : BlockHasher) (t : Transfers) (c : KVCall) : Prop :=
  ∀ r n l hits lookahead delay new k, c.op = .allocateSlots r n l hits lookahead delay →
    c.sched.kvCacheManager.allocateSlots H r n l hits lookahead delay = .ok (some new, k) →
    ∀ id ∈ t.unreported, ∃ load, t.loads.get? id = some load ∧
      ∀ b ∈ load.blockIds.flatten, b ≠ c.sched.kvCacheManager.blockPool.nullBlock →
        b ∉ new.flatten

/-- Slots for a request that is not parked. -/
theorem sparesLoadingBlocks_allocateSlots {r : Request} {n l : Int} {hits : List (List BlockId)}
    {lookahead : Nat} {delay : Bool} (ha : s.Awaits C s₀ t) (h : s.Loads t)
    (hlen : hits.length = s.kvCacheManager.singleTypeManagers.length)
    (hst : (s.request r.requestId).status ≠ .waitingForRemoteKvs) :
    KVCall.SparesLoadingBlocks H t ⟨s, .allocateSlots r n l hits lookahead delay⟩ := by
  rintro _ _ _ _ _ _ new k ⟨⟩ halloc id hid
  obtain ⟨hparked, -⟩ := h id hid
  obtain ⟨load, hload, hmatch⟩ := ha.loads id hparked
  have hne : id ≠ r.requestId := by
    rintro rfl
    exact hst hparked
  refine ⟨load, hload, fun b hb hnull hnew => ?_⟩
  obtain ⟨blocks, hblocks, hb⟩ := List.mem_flatten.mp hb
  rw [← hmatch.blockIds] at hblocks
  exact KVCacheManager.allocateSlots_new ha.counted hlen halloc hne b hnew hnull blocks hblocks hb

/-- **No call of a move** hands out the blocks of a load. -/
theorem Pass.Does.sparesLoadingBlocks (hinit : Scheduler.init C = .ok s₀) (hp : p.Placed)
    (ha : p.sched.Awaits C s₀ t) (h : p.sched.Loads t) (hd : Pass.Does H C E p cs p') :
    Transfers.All H E (KVCall.SparesLoadingBlocks H) t cs := by
  have hrunning : ∀ {rid : ReqId}, rid ∈ p.sched.running → ∀ n,
      KVCall.SparesLoadingBlocks H t (p.sched.allocateCall C rid n) := fun hrid n => by
    refine sparesLoadingBlocks_allocateSlots ha h (List.length_map _) ?_
    rw [hp.requestId_of_mem hrid, hp.status_of_mem hrid]
    decide
  have hwaiting : ∀ {rid : ReqId} {ct : ComputedTokens} {s₁ : Scheduler}, p.AtWaiting C rid →
      (p.sched.request rid).status ≠ .waitingForRemoteKvs →
      s₁.getComputedTokens H C E (p.sched.request rid) = .ok (ct, p.sched) → ∀ d,
      KVCall.SparesLoadingBlocks H t (p.slotCall C rid d ct) := fun hat hst hct d => by
    refine sparesLoadingBlocks_allocateSlots ha h (length_newComputedBlocks hinit ha.config hct) ?_
    rwa [hp.named _ (hp.mem_queue hat).1]
  cases hd with
  | passOver hat hzero => trivial
  | preempt hat hpos halloc hv hs =>
    exact ⟨hrunning hat.mem _, fun _ _ _ _ _ _ _ _ hop => (by cases hop), trivial⟩
  | scheduleRunning hat hpos halloc => exact ⟨hrunning hat.mem _, trivial⟩
  | recordLoras hl => trivial
  | receive hat hst hmem hres =>
    rw [Pass.receiveCalls, if_pos ⟨hst, hmem⟩]
    exact ⟨fun _ _ _ _ _ _ _ _ hop => (by cases hop), trivial⟩
  | resolveStatus hat hnot hres => trivial
  | skip hat hskip => trivial
  | lookUp hat hst hnc hct => exact ⟨fun _ _ _ _ _ _ _ _ hop => (by cases hop), trivial⟩
  | noSlots hat hst hct hdem halloc => exact ⟨hwaiting hat hst hct _, trivial⟩
  | park hat hst hct hdem hasync halloc hpark => exact ⟨hwaiting hat hst hct _, trivial⟩
  | admitWaiting hat hst hct hdem hasync halloc hadm => exact ⟨hwaiting hat hst hct _, trivial⟩

end Loads

/-! ## Runs -/

section Runs

variable {H : BlockHasher} {C : SchedulerConfig} {E : Environment} {s₀ : Scheduler}
  {s u : TransferEngine} {pre post : List KVCall} {c : KVCall}

/-- Calls under new identifiers, none of which finishes a request that is being loaded. -/
def FreshAndSparesLoads (C : SchedulerConfig) (s : TransferEngine) (op : EngineOp) : Prop :=
  FreshIds s.engine op ∧ SparesLoads C s op

theorem Scheduler.Loads.step (hinit : Scheduler.init C = .ok s₀) (ha : s.Awaits C s₀)
    (h : s.engine.sched.Loads s.transfers) {op : EngineOp} (hok : FreshAndSparesLoads C s op)
    (hstep : s.step H C op = .ok u) : u.engine.sched.Loads u.transfers := by
  obtain ⟨hengine, htransfers⟩ := TransferEngine.step_ok hstep
  rw [htransfers]
  cases op with
  | addRequest r =>
    obtain ⟨sched, hadd, he⟩ := Engine.step_addRequest hengine
    rw [he]
    have heff := addRequest_ok hadd
    obtain ⟨w, -, hadd⟩ := bind_eq_ok.mp hadd
    cases hadd
    intro id hid
    obtain ⟨hst, hnot⟩ := h id hid
    have hne : id ≠ r.new.requestId := by
      rintro rfl
      -- a request that is parked is not new
      have hobj : r.new.requestId ∈ s.engine.sched.objects := by
        by_contra hno
        rw [Scheduler.request, Dict.getD_of_none (Dict.get?_eq_none_iff.mpr hno)] at hst
        cases hst
      exact hok.1 ((ha.placed.added _).mp hobj)
    rw [heff.request, if_neg hne]
    exact ⟨hst, hnot⟩
  | schedule E =>
    obtain ⟨output, sched, hsched, he⟩ := Engine.step_schedule hengine
    rw [he]
    obtain ⟨-, p, ⟨-, hloads⟩, hcloses⟩ := schedule_transfers (Q := fun _ _ => True)
      (J := fun p t => p.sched.Awaits C s₀ t ∧ p.sched.Loads t) ha.placed.places hsched
      ⟨ha.awaits, h⟩ fun p cs p' t hp hJ hd =>
        ⟨⟨hJ.1.does hinit hp hd, hJ.2.does hinit hp hJ.1 hd⟩, Transfers.all_true _ _⟩
    intro id hid
    obtain ⟨hst, hnot⟩ := hloads id hid
    exact ⟨(hcloses.status id).trans hst, hcloses.recving ▸ hnot⟩
  | updateFromOutput E m =>
    obtain ⟨output, inFlight, outputs, sched, hin, hup, he⟩ :=
      Engine.step_updateFromOutput hengine
    rw [he]
    obtain ⟨s₁, h₁, h₂⟩ := updateFromOutput_releases hup
    intro id hid
    obtain ⟨hid, hrep⟩ := List.mem_filter.mp hid
    obtain ⟨hst, hnot⟩ := h id hid
    refine ⟨(updateFromOutput_status (fun e hentry heid => ?_) hup).trans hst, fun hmem => ?_⟩
    · subst heid
      exact hok.2 output (by rw [hin]; rfl) e hentry hid
    · rw [h₂.recving] at hmem
      rcases mem_foldl_addToSet.mp hmem with hmem | hmem
      · simp [hmem] at hrep
      · exact hnot (h₁.recving ▸ hmem)
  | finishRequests E ids status =>
    obtain ⟨sched, hfin, he⟩ := Engine.step_finishRequests hengine
    rw [he]
    intro id hid
    obtain ⟨hst, hnot⟩ := h id hid
    rw [finishRequests_request ha.placed.places.nodupR hfin fun hids => hok.2 id hids hid,
      (finishRequests_releases ha.placed.places.nodupR hfin).recving]
    exact ⟨hst, hnot⟩

theorem loads_of_reach (hinit : Scheduler.init C = .ok s₀)
    (hs : (transferMachine H C s₀).Reach (FreshAndSparesLoads C) s) :
    s.Awaits C s₀ ∧ s.engine.sched.Loads s.transfers :=
  hs.invariant (I := fun s => s.Awaits C s₀ ∧ s.engine.sched.Loads s.transfers)
    ⟨⟨Engine.placed_init hinit, Scheduler.awaits_init hinit⟩, fun id hid => by cases hid⟩
    fun _ _ _ h hok hstep => ⟨h.1.step hinit hok.1 hstep, h.2.step hinit h.1 hok hstep⟩

/-- **Blocks that are being loaded are not handed out**, in any run that finishes no request whose
load has not been reported. -/
theorem loadingBlocks_of_reach (hinit : Scheduler.init C = .ok s₀)
    (hs : (transferMachine H C s₀).Reach (FreshAndSparesLoads C) s)
    (hstep : s.step H C (.schedule E) = .ok u)
    (hcalls : s.engine.sched.scheduleCalls H C E = pre ++ c :: post) :
    c.SparesLoadingBlocks H (s.transfers.calls H E pre) := by
  obtain ⟨ha, h⟩ := loads_of_reach hinit hs
  obtain ⟨hengine, -⟩ := TransferEngine.step_ok hstep
  obtain ⟨output, sched, hsched, -⟩ := Engine.step_schedule hengine
  obtain ⟨hall, -⟩ := schedule_transfers (Q := KVCall.SparesLoadingBlocks H)
    (J := fun p t => p.sched.Awaits C s₀ t ∧ p.sched.Loads t) ha.placed.places hsched
    ⟨ha.awaits, h⟩ fun p cs p' t hp hJ hd =>
      ⟨⟨hJ.1.does hinit hp hd, hJ.2.does hinit hp hJ.1 hd⟩,
        hd.sparesLoadingBlocks hinit hp hJ.1 hJ.2⟩
  rw [hcalls] at hall
  exact hall.at

instance (C : SchedulerConfig) (s : TransferEngine) (op : EngineOp) :
    Decidable (SparesLoads C s op) := by
  refine op.casesOn ?_ ?_ ?_ ?_ <;> intros <;> unfold SparesLoads <;> infer_instance

instance (C : SchedulerConfig) (s : TransferEngine) (op : EngineOp) :
    Decidable (FreshAndSparesLoads C s op) := by
  unfold FreshAndSparesLoads
  infer_instance

/-! ## The Nixl connector -/

/-- What the Nixl connector reads of the `kv_transfer_params` of a request. -/
structure NixlParams where
  doRemotePrefill : Bool
  doRemoteDecode : Bool
deriving DecidableEq

/-- `get_num_new_matched_tokens`: the full blocks of the prompt are loaded from the prefill
instance. -/
def NixlParams.getNumNewMatchedTokens (params : Option NixlParams) (blockSize : Nat) (r : Request)
    (numComputedTokens : Int) : Int × Bool :=
  match params with
  | some p =>
    let count := max ((r.promptTokenIds.length / blockSize * blockSize : Nat) - numComputedTokens) 0
    if p.doRemotePrefill = true ∧ 0 < count then (count, true) else (0, false)
  | none => (0, false)

/-- `update_state_after_alloc`: there is one transfer for a request. -/
def NixlParams.updateStateAfterAlloc (useHostBuffer : Bool) (p : NixlParams) : NixlParams :=
  if useHostBuffer = true ∧ p.doRemoteDecode = true then p else { p with doRemotePrefill := false }

/-- `request_finished`: whether the blocks are kept until they have been sent. -/
def NixlParams.requestFinished (params : Option NixlParams) (blockSize : Nat) (r : Request)
    (blockIds : List BlockId) : Bool :=
  match params with
  | none => false
  | some p =>
    if p.doRemotePrefill then false
    else if p.doRemoteDecode = false ∨ r.status ≠ .finishedLengthCapped then false
    else
      let computedBlockIds :=
        if r.numComputedTokens % blockSize = 0 then blockIds else blockIds.dropLast
      computedBlockIds ≠ []

/-- The Nixl connector. -/
def nixl (C : SchedulerConfig) (params : ReqId → Option NixlParams) : Environment where
  getNumNewMatchedTokens r n :=
    NixlParams.getNumNewMatchedTokens (params r.requestId) C.blockSize r n
  requestFinished r blockIds :=
    (NixlParams.requestFinished (params r.requestId) C.blockSize r blockIds, none)

/-- Request 1 is prefilled remotely. -/
def remotePrefill (id : ReqId) : Option NixlParams :=
  if id = 1 then some ⟨true, false⟩ else none

/-- The same, once the slots have been allocated. -/
def remotePrefillStarted (id : ReqId) : Option NixlParams :=
  (remotePrefill id).map (NixlParams.updateStateAfterAlloc false)

/-- Three blocks besides the null block. -/
def smallConfig : SchedulerConfig := { pairConfig 4 16 with hasConnector := true }

/-- A request is parked, and another one arrives. -/
def parkedRun (promptTokenIds : List TokenId) : List EngineOp :=
  [.addRequest (textRequest 1 [1, 2, 3, 4]), .schedule (nixl smallConfig remotePrefill),
   .addRequest (textRequest 2 promptTokenIds)]

/-- The request is aborted before its load has been reported. -/
def abortedLoadRun : List EngineOp :=
  parkedRun [5, 6, 7, 8] ++ [.finishRequests (nixl smallConfig remotePrefillStarted) [1] .finishedAborted]

/-- The blocks that a step hands out, and the blocks of the load of request 1, which has not been
reported. -/
def handedOut (C : SchedulerConfig) (E : Environment) (s : TransferEngine) :
    Option (List BlockId × List BlockId) :=
  match s.engine.sched.scheduleCalls .encoding C E, s.transfers.loads.get? 1 with
  | _ :: ⟨sched, .allocateSlots r n l hits lookahead delay⟩ :: _, some load =>
    match sched.kvCacheManager.allocateSlots .encoding r n l hits lookahead delay with
    | .ok (some new, _) =>
      if 1 ∈ s.transfers.unreported then some (new.flatten, load.blockIds.flatten) else none
    | _ => none
  | _, _ => none

theorem handedOut_ok {l l' : List BlockId} (h : handedOut C E s = some (l, l')) :
    ∃ c₁ sched r n numLocal hits lookahead delay post new k load,
      s.engine.sched.scheduleCalls .encoding C E =
        [c₁] ++ ⟨sched, .allocateSlots r n numLocal hits lookahead delay⟩ :: post ∧
      sched.kvCacheManager.allocateSlots .encoding r n numLocal hits lookahead delay =
        .ok (some new, k) ∧
      s.transfers.loads.get? 1 = some load ∧ 1 ∈ s.transfers.unreported ∧
      new.flatten = l ∧ load.blockIds.flatten = l' := by
  unfold handedOut at h
  split at h
  next c₁ sched r n numLocal hits lookahead delay post load hcalls hload =>
    split at h
    next new k halloc =>
      split at h
      next hmem =>
        cases h
        exact ⟨c₁, sched, r, n, numLocal, hits, lookahead, delay, post, new, k, load, hcalls,
          halloc, hload, hmem, rfl, rfl⟩
      next => simp at h
    next => simp at h
  next => simp at h

/-- **While request 1 is being loaded**, request 2 gets another block. -/
theorem loadingBlocks_parkedRun :
    ∃ s₀ s u c₁ c post, Scheduler.init smallConfig = .ok s₀ ∧
      (transferMachine .encoding smallConfig s₀).Reach (FreshAndSparesLoads smallConfig) s ∧
      s.step .encoding smallConfig (.schedule (nixl smallConfig remotePrefillStarted)) = .ok u ∧
      s.engine.sched.scheduleCalls .encoding smallConfig (nixl smallConfig remotePrefillStarted) =
        [c₁] ++ c :: post ∧ 1 ∈ s.transfers.unreported ∧
      c.SparesLoadingBlocks .encoding (s.transfers.calls .encoding
        (nixl smallConfig remotePrefillStarted) [c₁]) := by
  obtain ⟨s₀, s, hinit, hreach, hout, hok⟩ := exists_runTransfers .encoding smallConfig
    (FreshAndSparesLoads smallConfig) (parkedRun [5, 6])
    (fun s => handedOut smallConfig (nixl smallConfig remotePrefillStarted) s = some ([3], [1, 2]) ∧
      (s.step .encoding smallConfig (.schedule (nixl smallConfig remotePrefillStarted))).isOk = true)
    (by decide +kernel)
  obtain ⟨u, hu⟩ := isOk_iff.mp hok
  obtain ⟨c₁, sched, r, n, numLocal, hits, lookahead, delay, post, new, k, load, hcalls, -, -,
    hmem, -⟩ := handedOut_ok hout
  exact ⟨s₀, s, u, c₁, _, post, hinit, hreach, hu, hcalls, hmem,
    loadingBlocks_of_reach hinit hreach hu hcalls⟩

/-- **Once request 1 has been aborted**, request 2 gets one of its blocks, while they are still being
loaded. -/
theorem not_sparesLoadingBlocks_aborted :
    ∃ s₀ s u c₁ c post, Scheduler.init smallConfig = .ok s₀ ∧
      (transferMachine .encoding smallConfig s₀).Reach (fun s => FreshIds s.engine) s ∧
      s.step .encoding smallConfig (.schedule (nixl smallConfig remotePrefillStarted)) = .ok u ∧
      s.engine.sched.scheduleCalls .encoding smallConfig (nixl smallConfig remotePrefillStarted) =
        [c₁] ++ c :: post ∧ 1 ∈ s.transfers.unreported ∧
      ¬ c.SparesLoadingBlocks .encoding s.transfers := by
  obtain ⟨s₀, s, hinit, hreach, hout, hok, hnull⟩ := exists_runTransfers .encoding smallConfig
    (fun s => FreshIds s.engine) abortedLoadRun
    (fun s =>
      handedOut smallConfig (nixl smallConfig remotePrefillStarted) s = some ([3, 2], [1, 2]) ∧
      (s.step .encoding smallConfig (.schedule (nixl smallConfig remotePrefillStarted))).isOk = true ∧
      ∀ c ∈ s.engine.sched.scheduleCalls .encoding smallConfig
        (nixl smallConfig remotePrefillStarted), c.sched.kvCacheManager.blockPool.nullBlock = 0) (by decide +kernel)
  obtain ⟨u, hu⟩ := isOk_iff.mp hok
  obtain ⟨c₁, sched, r, n, numLocal, hits, lookahead, delay, post, new, k, load, hcalls, halloc,
    hload, hmem, hnew, hblocks⟩ := handedOut_ok hout
  refine ⟨s₀, s, u, c₁, _, post, hinit, hreach, hu, hcalls, hmem, fun hspares => ?_⟩
  obtain ⟨load', hload', hnot⟩ := hspares _ _ _ _ _ _ _ _ rfl halloc 1 hmem
  obtain rfl : load = load' := Option.some_inj.mp (hload.symm.trans hload')
  refine hnot 2 (by rw [hblocks]; decide) ?_ (by rw [hnew]; decide)
  rw [hnull _ (hcalls ▸ List.mem_append_right _ List.mem_cons_self)]
  decide

end Runs

end InferenceServer
