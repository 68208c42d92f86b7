import InferenceServer.Sched.Placement

/-!
# The grants of a scheduling step

A scheduling step gives tokens to requests, one request after the other. `Scheduler.grants` lists
these grants, each with the local variables at the time, so that a condition on a step can speak of
what the step finds when it grants: the room in the encoder cache, or the adapters of the requests
that run.

Between two grants the step moves requests about and allocates blocks, which a statement about
encoder inputs or adapters need not know. `Pass.Quiet` says what these moves leave alone; a step is
a sequence of quiet moves and of the grants in the list (`Pass.Turns`, `schedulePass_turns`).
-/

namespace InferenceServer

open Outcome
open List (mem_append mem_append_left mem_append_right)

/-- A request is given tokens: the local variables at the time, what the request demands, and
whether it comes from the waiting queue. -/
structure Grant where
  pass : Pass
  rid : ReqId
  demand : Demand
  admits : Bool

/-- The request that is given tokens. -/
def Grant.request (g : Grant) : Request := g.pass.sched.request g.rid

/-! ## The list of the grants -/

section Grants

variable (H : BlockHasher) (C : SchedulerConfig) (E : Environment)

/-- The grant to a running request, if it has tokens to compute and its slots can be allocated. -/
def Pass.runningGrant (p : Pass) (rid : ReqId) : Option Grant :=
  let d := p.runningDemand C (p.sched.request rid)
  if d.numNewTokens = 0 then none
  else
    match p.sched.allocateOrPreempt H C rid d.numNewTokens p.sched.running.length
      p.preemptedReqs with
    | .ok (some _, s, preempted) =>
      some ⟨{ p with sched := s, preemptedReqs := preempted }, rid, d, false⟩
    | _ => none

/-- The grant to a waiting request that waits for nothing else. -/
def Pass.admissionGrant (p : Pass) (rid : ReqId) : Option Grant :=
  match p.sched.getComputedTokens H C E (p.sched.request rid) with
  | .error _ => none
  | .ok (ct, s) =>
    match { p with sched := s }.waitingDemand C (s.request rid) ct with
    | .ok (.demand d) =>
      match s.kvCacheManager.allocateSlots H (s.request rid)
        (d.numNewTokens + ct.numExternalComputedTokens) ct.numNewLocalComputedTokens
        ct.newComputedBlocks C.numLookaheadTokens ct.loadKvAsync with
      | .ok (some _, k) =>
        if ct.loadKvAsync then none else some ⟨{ p with sched := s.withKV k }, rid, d, true⟩
      | _ => none
    | _ => none

/-- The grant to the request at the head of the waiting queue. -/
def Pass.waitingGrant (p : Pass) : Option Grant :=
  match p.sched.waiting.peekRequest with
  | .error _ => none
  | .ok e =>
    match p.sched.resolveStatus H C E e.requestId with
    | .error _ => none
    | .ok (ready, s) =>
      if ready = false ∨ p.exceedsLoras C (s.request e.requestId) = true then none
      else { p with sched := s }.admissionGrant H C E e.requestId

/-- The grants of the loop over the running requests. -/
def runningGrants : Nat → Pass → List Grant
  | 0, _ => []
  | fuel + 1, p =>
    match p.sched.running[p.reqIndex]? with
    | none => []
    | some rid =>
      if 0 < p.tokenBudget then
        (p.runningGrant H C rid).toList ++ match p.visitRunning H C rid with
        | .ok (true, p') => runningGrants fuel p'
        | _ => []
      else []

/-- The grants of the loop over the waiting requests. -/
def waitingGrants : Nat → Pass → List Grant
  | 0, _ => []
  | fuel + 1, p =>
    if p.sched.waiting.length ≠ 0 ∧ 0 < p.tokenBudget ∧
        p.sched.running.length ≠ C.maxNumRunningReqs then
      (p.waitingGrant H C E).toList ++ match p.visitWaiting H C E with
      | .ok (true, p') => waitingGrants fuel p'
      | _ => []
    else []

/-- **The grants of a call of `schedule`**, in their order. -/
def Scheduler.grants (s : Scheduler) : List Grant :=
  runningGrants H C s.running.length (.start C s) ++
    match runningLoop H C s.running.length (.start C s) >>= Pass.recordLoras C with
    | .ok p =>
      if p.preemptedReqs = [] then waitingGrants H C E (p.sched.waiting.length + 1) p else []
    | .error _ => []

end Grants

/-! ## What happens between the grants -/

/-- **A quiet move**: nothing is granted. Requests may leave the list of running requests, and the
queue, the blocks and the states of the requests may change. -/
structure Pass.Quiet (p p' : Pass) : Prop where
  running : p'.sched.running ⊆ p.sched.running
  encoderCacheManager : p'.sched.encoderCacheManager = p.sched.encoderCacheManager
  inputs : p.sched.SameInputs p'.sched
  scheduledNewReqs : p'.scheduledNewReqs = p.scheduledNewReqs
  scheduledResumedReqs : p'.scheduledResumedReqs = p.scheduledResumedReqs
  scheduledRunningReqs : p'.scheduledRunningReqs = p.scheduledRunningReqs
  scheduledLoras : p'.scheduledLoras = p.scheduledLoras
  numScheduledTokens : p'.numScheduledTokens = p.numScheduledTokens
  scheduledEncoderInputs : p'.scheduledEncoderInputs = p.scheduledEncoderInputs
  unpreempted : p'.preemptedReqs = [] → p.preemptedReqs = [] ∧ p'.sched.running = p.sched.running

namespace Pass.Quiet

variable {H : BlockHasher} {C : SchedulerConfig} {E : Environment} {p p' p'' : Pass} {rid : ReqId}

theorem refl (p : Pass) : p.Quiet p :=
  ⟨fun _ h => h, rfl, .refl _, rfl, rfl, rfl, rfl, rfl, rfl, fun h => ⟨h, rfl⟩⟩

theorem trans (h : p.Quiet p') (h' : p'.Quiet p'') : p.Quiet p'' :=
  ⟨fun _ hid => h.running (h'.running hid),
    h'.encoderCacheManager.trans h.encoderCacheManager, h.inputs.trans h'.inputs,
    h'.scheduledNewReqs.trans h.scheduledNewReqs,
    h'.scheduledResumedReqs.trans h.scheduledResumedReqs,
    h'.scheduledRunningReqs.trans h.scheduledRunningReqs,
    h'.scheduledLoras.trans h.scheduledLoras,
    h'.numScheduledTokens.trans h.numScheduledTokens,
    h'.scheduledEncoderInputs.trans h.scheduledEncoderInputs, fun hpre =>
      ⟨(h.unpreempted (h'.unpreempted hpre).1).1,
        (h'.unpreempted hpre).2.trans (h.unpreempted (h'.unpreempted hpre).1).2⟩⟩

variable {s : Scheduler}

/-- The scheduler changes, but neither its encoder cache nor its requests. -/
theorem of_sched (hr : s.running = p.sched.running)
    (he : s.encoderCacheManager = p.sched.encoderCacheManager) (hi : p.sched.SameInputs s) :
    p.Quiet { p with sched := s } :=
  ⟨hr ▸ fun _ h => h, he, hi, rfl, rfl, rfl, rfl, rfl, rfl, fun h => ⟨h, hr⟩⟩

theorem withKV (p : Pass) (k : KVCacheManager) : p.Quiet { p with sched := p.sched.withKV k } :=
  of_sched rfl rfl (.of_objects rfl)

/-- A running request is preempted. -/
theorem preempt {v : ReqId} (h : p.sched.preempt C v = .ok s) :
    p.Quiet { p with sched := s, preemptedReqs := p.preemptedReqs ++ [v] } := by
  have hp := Scheduler.preempt_ok h
  refine ⟨fun id hid => ?_, hp.encoderCacheManager,
    .of_modify hp.objects fun _ => ⟨rfl, rfl, rfl, rfl, rfl, rfl, rfl⟩, rfl, rfl, rfl, rfl, rfl, rfl,
    fun hpre => by simp at hpre⟩
  rw [hp.running] at hid
  unfold Scheduler.removeVictim at hid
  split at hid
  · exact List.mem_of_mem_erase hid
  · exact List.mem_of_mem_dropLast hid

theorem resolveStatus {ready : Bool}
    (h : p.sched.resolveStatus H C E rid = .ok (ready, s)) : p.Quiet { p with sched := s } := by
  rcases resolveStatus_ok h with rfl | ⟨-, n, s₁, hrec, rfl⟩ | ⟨-, rfl⟩
  · exact refl p
  · exact of_sched hrec.running hrec.encoderCacheManager
      ((Scheduler.SameInputs.of_modify hrec.objects fun _ => ⟨rfl, rfl, rfl, rfl, rfl, rfl, rfl⟩).trans
        (.of_modify rfl fun _ => ⟨rfl, rfl, rfl, rfl, rfl, rfl, rfl⟩))
  · exact of_sched rfl rfl (.of_modify rfl fun _ => ⟨rfl, rfl, rfl, rfl, rfl, rfl, rfl⟩)

theorem skipWaiting (h : p.skipWaiting = .ok p') : p.Quiet p' := by
  obtain ⟨e, w, sk, -, -, rfl⟩ := skipWaiting_ok h
  exact ⟨fun _ h => h, rfl, .of_objects rfl, rfl, rfl, rfl, rfl, rfl, rfl, fun h => ⟨h, rfl⟩⟩

theorem parkRemote (h : p.parkRemote rid = .ok p') : p.Quiet p' := by
  obtain ⟨p₁, hskip, rfl⟩ := parkRemote_ok h
  exact (skipWaiting hskip).trans
    (of_sched rfl rfl (.of_modify rfl fun _ => ⟨rfl, rfl, rfl, rfl, rfl, rfl, rfl⟩))

theorem restoreSkipped (h : p.restoreSkipped = .ok p') : p.Quiet p' := by
  obtain ⟨w, rfl, -⟩ := restoreSkipped_ok h
  exact of_sched rfl rfl (.of_objects rfl)

end Pass.Quiet

/-! ## Turns -/

/-- What the request demands is what `_try_schedule_encoder_inputs` leaves of some number of tokens,
for a request of which `numComputedTokens` tokens are computed. -/
def Grant.Asks (C : SchedulerConfig) (g : Grant) (numComputedTokens : Int) : Prop :=
  ∃ n budget, tryScheduleEncoderInputs C g.pass.sched.encoderCacheManager g.request
    numComputedTokens n budget =
      (g.demand.encoderInputs, g.demand.numNewTokens, g.demand.encoderBudget)

/-- **A turn of a scheduling step** with the grants `G`: a quiet move, the record of the adapters, or
a grant. -/
inductive Pass.Turn (C : SchedulerConfig) (G : List Grant) : Pass → Pass → Prop where
  | quiet {p p' : Pass} (h : p.Quiet p') : Turn C G p p'
  | recordLoras {p p' : Pass} (h : p.recordLoras C = .ok p') : Turn C G p p'
  | running {p : Pass} {g : Grant} {blocks : List (List BlockId)} (hg : g ∈ G)
      (hadmits : g.admits = false) (hnamed : g.request.requestId = g.rid) (hq : p.Quiet g.pass)
      (hrid : g.rid ∈ p.sched.running) (hasks : g.Asks C g.request.numComputedTokens) :
      Turn C G p (g.pass.scheduleRunning g.rid g.demand blocks)
  | admitWaiting {g : Grant} {ct : ComputedTokens} {p' : Pass} (hg : g ∈ G)
      (hadmits : g.admits = true) (hnamed : g.request.requestId = g.rid)
      (hpre : g.pass.preemptedReqs = []) (hlora : g.pass.exceedsLoras C g.request = false)
      (hasks : g.Asks C ct.numComputedTokens)
      (h : g.pass.admitWaiting C g.rid g.demand ct = .ok p') : Turn C G g.pass p'

/-- A sequence of turns. -/
abbrev Pass.Turns (C : SchedulerConfig) (G : List Grant) : Pass → Pass → Prop :=
  Relation.ReflTransGen (Pass.Turn C G)

theorem Pass.Turns.mono {C : SchedulerConfig} {G G' : List Grant} {p p' : Pass}
    (h : p.Turns C G p') (hG : ∀ g ∈ G, g ∈ G') : p.Turns C G' p' := by
  refine Relation.ReflTransGen.mono (r := Pass.Turn C G) (fun a b ht => ?_) _ _ h
  cases ht with
  | quiet h => exact .quiet h
  | recordLoras h => exact .recordLoras h
  | running hg hadmits hnamed hq hrid hasks =>
    exact .running (hG _ hg) hadmits hnamed hq hrid hasks
  | admitWaiting hg hadmits hnamed hpre hlora hasks h =>
    exact .admitWaiting (hG _ hg) hadmits hnamed hpre hlora hasks h

section Turns

variable {H : BlockHasher} {C : SchedulerConfig} {E : Environment} {p p' : Pass} {rid : ReqId}

variable {fuel : Nat} {s : Scheduler} {goOn : Bool}

/-- The inner loop over the running requests is quiet, and leaves the request alone if it finds slots
for it. -/
theorem allocateOrPreempt_quiet {n : Int} {pre : List ReqId} {res : Option (List (List BlockId))}
    (h : p.sched.allocateOrPreempt H C rid n fuel p.preemptedReqs = .ok (res, s, pre)) :
    p.Quiet { p with sched := s, preemptedReqs := pre } ∧
      (res ≠ none → s.request rid = p.sched.request rid) := by
  induction fuel generalizing p with
  | zero => simp [Scheduler.allocateOrPreempt] at h
  | succ fuel ih =>
    obtain ⟨⟨newBlocks, k⟩, -, h⟩ := bind_eq_ok.mp h
    have hkv := Pass.Quiet.withKV p k
    cases newBlocks with
    | some blocks =>
      cases h
      exact ⟨hkv, fun _ => rfl⟩
    | none =>
      obtain ⟨v, -, h⟩ := bind_eq_ok.mp h
      obtain ⟨s₂, hs₂, h⟩ := bind_eq_ok.mp h
      have hq := hkv.trans (Pass.Quiet.preempt hs₂)
      split at h
      next hv =>
        cases h
        exact ⟨hq, fun hres => absurd rfl hres⟩
      next hv =>
        obtain ⟨hrest, hreq⟩ :=
          ih (p := { p with sched := s₂, preemptedReqs := p.preemptedReqs ++ [v] }) h
        refine ⟨hq.trans hrest, fun hres => (hreq hres).trans ?_⟩
        exact ((Scheduler.preempt_ok hs₂).request rid).trans (if_neg (Ne.symm hv))

/-- One round of the loop over the running requests. -/
theorem visitRunning_turns (hplaced : p.Placed) (hrid : rid ∈ p.sched.running)
    (h : p.visitRunning H C rid = .ok (goOn, p')) :
    p.Turns C (p.runningGrant H C rid).toList p' := by
  unfold Pass.visitRunning at h
  unfold Pass.runningGrant
  dsimp only at h ⊢
  split at h
  next =>
    cases h
    exact .single (.quiet ⟨fun _ h => h, rfl, .refl _, rfl, rfl, rfl, rfl, rfl, rfl, fun h => ⟨h, rfl⟩⟩)
  next hpos =>
    obtain ⟨⟨res, s, pre⟩, hloop, h⟩ := bind_eq_ok.mp h
    obtain ⟨hq, hreq⟩ := allocateOrPreempt_quiet hloop
    rw [if_neg hpos, hloop]
    cases res with
    | none =>
      cases h
      exact .single (.quiet hq)
    | some blocks =>
      cases h
      have hsame : s.request rid = p.sched.request rid := hreq (by simp)
      have hnamed : (s.request rid).requestId = rid :=
        hsame ▸ hplaced.named rid (hplaced.mem_objects (mem_append_left _ hrid))
      refine .single (.running (g := ⟨{ p with sched := s, preemptedReqs := pre }, rid,
        p.runningDemand C (p.sched.request rid), false⟩) (by simp) rfl hnamed hq hrid
        ⟨C.numNewTokensRunning (p.sched.request rid) p.tokenBudget, p.encoderBudget, ?_⟩)
      change tryScheduleEncoderInputs C s.encoderCacheManager (s.request rid)
        (s.request rid).numComputedTokens _ _ = _
      rw [hsame, show s.encoderCacheManager = p.sched.encoderCacheManager from
        hq.encoderCacheManager]
      rfl

theorem runningLoop_turns (ha : p.Ahead) (hplaced : p.Placed)
    (h : runningLoop H C fuel p = .ok p') :
    p.Turns C (runningGrants H C fuel p) p' := by
  induction fuel generalizing p with
  | zero =>
    unfold runningLoop at h
    split at h
    · simp at h
    · cases h
      exact .refl
  | succ fuel ih =>
    unfold runningLoop at h
    unfold runningGrants
    cases hrid : p.sched.running[p.reqIndex]? with
    | none =>
      simp only [hrid] at h
      cases h
      exact .refl
    | some rid =>
      simp only [hrid] at h ⊢
      split at h
      next hb =>
        obtain ⟨⟨goOn, p₁⟩, hvisit, h⟩ := bind_eq_ok.mp h
        have hturns := visitRunning_turns hplaced (List.mem_of_getElem? hrid) hvisit
        obtain ⟨hm, hahead⟩ := visitRunning_trace (E := {}) (ha.at hrid hb)
          (fun _ he => he) hvisit
        rw [if_pos hb, hvisit]
        cases goOn with
        | true =>
          exact (hturns.mono fun g hg => mem_append_left _ hg).trans
            ((ih (hahead rfl) (hplaced.moves hm.moves) h).mono fun g hg => mem_append_right _ hg)
        | false =>
          cases h
          exact hturns.mono fun g hg => mem_append_left _ hg
      next =>
        cases h
        exact .refl

/-- The demand of a waiting request that loads no blocks. -/
theorem waitingDemand_asks {ct : ComputedTokens} {d : Demand} {k : KVCacheManager}
    (hasync : ct.loadKvAsync = false)
    (h : p.waitingDemand C (p.sched.request rid) ct = .ok (.demand d)) :
    Grant.Asks C ⟨{ p with sched := p.sched.withKV k }, rid, d, true⟩ ct.numComputedTokens := by
  unfold Pass.waitingDemand at h
  rw [if_neg (by simp [hasync])] at h
  dsimp only at h
  split at h
  next => simp at h
  next =>
    obtain ⟨_, -, h⟩ := bind_eq_ok.mp h
    split at h
    next => simp [pure_eq_ok] at h
    next =>
      obtain rfl : _ = d := by simpa using pure_eq_ok.mp h
      exact ⟨_, _, rfl⟩

/-- A visit to a request that waits for nothing else. -/
theorem scheduleWaiting_turns (hpre : p.preemptedReqs = [])
    (hnamed : (p.sched.request rid).requestId = rid)
    (hlora : p.exceedsLoras C (p.sched.request rid) = false)
    (h : p.scheduleWaiting H C E rid = .ok (goOn, p')) :
    p.Turns C (p.admissionGrant H C E rid).toList p' := by
  obtain ⟨⟨ct, s⟩, hct, h⟩ := bind_eq_ok.mp h
  obtain ⟨wd, hwd, h⟩ := bind_eq_ok.mp h
  obtain ⟨k, rfl, -⟩ := getComputedTokens_ok hct
  have hkv := Pass.Quiet.withKV p k
  unfold Pass.admissionGrant
  simp only [hct]
  rw [hwd]
  cases wd with
  | skip =>
    obtain ⟨p₁, hskip, h⟩ := bind_eq_ok.mp h
    cases h
    exact .single (.quiet (hkv.trans (.skipWaiting hskip)))
  | stop =>
    cases h
    exact .single (.quiet hkv)
  | demand d =>
    obtain ⟨⟨newBlocks, k'⟩, halloc, h⟩ := bind_eq_ok.mp h
    dsimp only at halloc h ⊢
    rw [halloc]
    have hkv' := hkv.trans (Pass.Quiet.withKV { p with sched := p.sched.withKV k } k')
    cases newBlocks with
    | none =>
      cases h
      exact .single (.quiet hkv')
    | some blocks =>
      cases hasync : ct.loadKvAsync with
      | true =>
        simp only [hasync, if_true] at h
        obtain ⟨p₁, hpark, h⟩ := bind_eq_ok.mp h
        cases h
        exact .single (.quiet (hkv'.trans (.parkRemote hpark)))
      | false =>
        simp only [hasync, Bool.false_eq_true, if_false] at h ⊢
        obtain ⟨p₁, hadmitted, h⟩ := bind_eq_ok.mp h
        cases h
        exact .head (.quiet hkv') (.single (.admitWaiting
          (g := ⟨{ p with sched := (p.sched.withKV k).withKV k' }, rid, d, true⟩) (by simp) rfl
          hnamed hpre hlora (waitingDemand_asks hasync hwd) hadmitted))

/-- One round of the loop over the waiting requests. -/
theorem visitWaiting_turns (hplaced : p.Placed) (hpre : p.preemptedReqs = [])
    (h : p.visitWaiting H C E = .ok (goOn, p')) :
    p.Turns C (p.waitingGrant H C E).toList p' := by
  obtain ⟨e, hpeek, h⟩ := bind_eq_ok.mp h
  obtain ⟨⟨ready, s⟩, hres, h⟩ := bind_eq_ok.mp h
  have hq := Pass.Quiet.resolveStatus hres
  unfold Pass.waitingGrant
  simp only [hpeek, hres]
  dsimp only at h
  split at h
  next hskips =>
    obtain ⟨p₁, hskip, h⟩ := bind_eq_ok.mp h
    cases h
    exact .single (.quiet (hq.trans (.skipWaiting hskip)))
  next hskips =>
    rw [if_neg (show ¬ (ready = false ∨ p.exceedsLoras C (s.request e.requestId) = true) from
      hskips)]
    have hobj := hplaced.mem_objects
      (mem_append_right _ (mem_append_left _ (RequestQueue.ids_of_peekRequest hpeek)))
    refine .head (.quiet hq) (scheduleWaiting_turns hpre
      ((hq.inputs _).requestId.trans (hplaced.named _ hobj)) ?_ h)
    exact Bool.eq_false_iff.mpr fun he => hskips (.inr he)

theorem waitingLoop_turns (hplaced : p.Placed) (hpre : p.preemptedReqs = [])
    (h : waitingLoop H C E fuel p = .ok p') :
    p.Turns C (waitingGrants H C E fuel p) p' := by
  induction fuel generalizing p with
  | zero => simp [waitingLoop] at h
  | succ fuel ih =>
    unfold waitingLoop at h
    unfold waitingGrants
    split at h
    next hcond =>
      obtain ⟨⟨goOn, p₁⟩, hvisit, h⟩ := bind_eq_ok.mp h
      have hturns := visitWaiting_turns hplaced hpre hvisit
      obtain ⟨hm, hpre₁⟩ := visitWaiting_trace (L := []) hcond.2.1 hcond.2.2 hpre hvisit
      rw [if_pos hcond, hvisit]
      cases goOn with
      | true =>
        exact (hturns.mono fun g hg => mem_append_left _ hg).trans
          ((ih (hplaced.moves hm.moves) hpre₁ h).mono fun g hg => mem_append_right _ hg)
      | false =>
        cases h
        exact hturns.mono fun g hg => mem_append_left _ hg
    next hcond =>
      cases h
      exact .refl

theorem placed_start (h : s.Places s.running s.waiting.ids) :
    (Pass.start C s).Placed := by
  unfold Pass.Placed
  simpa [Pass.start] using h

/-- The loop over the running requests, from the start of the step. -/
theorem runningLoop_turns_start (h : s.Places s.running s.waiting.ids)
    (hrun : runningLoop H C s.running.length (.start C s) = .ok p) :
    (Pass.start C s).Turns C (runningGrants H C s.running.length (.start C s)) p :=
  runningLoop_turns ⟨h.nodupR, fun id _ => Dict.notMem_empty id⟩ (placed_start h) hrun

/-- The local variables when the waiting requests get their turn. -/
theorem placed_recordLoras {p₁ p₂ : Pass} (hplaces : s.Places s.running s.waiting.ids)
    (hrun : runningLoop H C s.running.length (.start C s) = .ok p₁)
    (hlora : p₁.recordLoras C = .ok p₂) : p₂.Placed :=
  ((placed_start hplaces).moves (runningLoop_trace (L := s.preemptions H C) (E := {})
    ⟨hplaces.nodupR, fun id _ => Dict.notMem_empty id⟩ (fun _ he => he) hrun).moves).move
    (.recordLoras (H := H) (E := {}) hlora)

/-- **A scheduling step is a sequence of turns.** -/
theorem schedulePass_turns (hplaces : s.Places s.running s.waiting.ids)
    (h : s.schedulePass H C E = .ok p) : (Pass.start C s).Turns C (s.grants H C E) p := by
  obtain ⟨p₁, hrun, h⟩ := bind_eq_ok.mp h
  obtain ⟨p₂, hlora, h⟩ := bind_eq_ok.mp h
  obtain ⟨p₃, hwait, hrestore⟩ := bind_eq_ok.mp h
  have hrunning : (Pass.start C s).Turns C (s.grants H C E) _ :=
    (runningLoop_turns_start hplaces hrun).mono fun g hg => mem_append_left _ hg
  refine ((hrunning.tail (.recordLoras hlora)).trans ?_).tail (.quiet (.restoreSkipped hrestore))
  have hplaced₂ := placed_recordLoras hplaces hrun hlora
  unfold Pass.scheduleWaitingReqs at hwait
  split at hwait
  next hpre =>
    refine (waitingLoop_turns hplaced₂ hpre hwait).mono fun g hg => mem_append_right _ ?_
    rw [show runningLoop H C s.running.length (Pass.start C s) >>= Pass.recordLoras C = .ok p₂ from
      bind_eq_ok.mpr ⟨p₁, hrun, hlora⟩]
    simpa only [if_pos hpre] using hg
  next =>
    cases hwait
    exact .refl

end Turns

/-! ## Every grant occurs -/

/-- **A grant occurs** in a step: the step comes to it by turns, and the request asks for it. -/
structure Grant.Occurs (C : SchedulerConfig) (G : List Grant) (p : Pass) (g : Grant) : Prop where
  turns : p.Turns C G g.pass
  named : g.request.requestId = g.rid
  asks : ∃ n, g.Asks C n

section Occurs

variable {H : BlockHasher} {C : SchedulerConfig} {E : Environment} {p p' : Pass} {rid : ReqId}
  {g : Grant} {G G' G'' : List Grant}

/-- A grant that occurs later on. -/
theorem Grant.Occurs.after (h : g.Occurs C G p') (hturns : p.Turns C G' p')
    (hG : ∀ g ∈ G, g ∈ G'') (hG' : ∀ g ∈ G', g ∈ G'') : g.Occurs C G'' p :=
  ⟨(hturns.mono hG').trans (h.turns.mono hG), h.named, h.asks⟩

theorem runningGrant_occurs (hplaced : p.Placed) (hrid : rid ∈ p.sched.running)
    (h : p.runningGrant H C rid = some g) : g.Occurs C G p := by
  unfold Pass.runningGrant at h
  dsimp only at h
  split at h
  next => simp at h
  next =>
    split at h
    next blocks s pre hloop =>
      obtain rfl := Option.some_inj.mp h
      obtain ⟨hq, hreq⟩ := allocateOrPreempt_quiet hloop
      have hsame : s.request rid = p.sched.request rid := hreq (by simp)
      have hobj := hplaced.mem_objects (mem_append_left _ hrid)
      refine ⟨.single (.quiet hq), (congrArg Request.requestId hsame).trans (hplaced.named rid hobj),
        (p.sched.request rid).numComputedTokens,
        C.numNewTokensRunning (p.sched.request rid) p.tokenBudget, p.encoderBudget, ?_⟩
      change tryScheduleEncoderInputs C s.encoderCacheManager (s.request rid) _ _ _ = _
      rw [hsame, show s.encoderCacheManager = p.sched.encoderCacheManager from
        hq.encoderCacheManager]
      rfl
    next => simp at h

theorem admissionGrant_occurs (hnamed : (p.sched.request rid).requestId = rid)
    (h : p.admissionGrant H C E rid = some g) : g.Occurs C G p := by
  unfold Pass.admissionGrant at h
  split at h
  next => simp at h
  next ct s hct =>
    obtain ⟨k, rfl, -⟩ := getComputedTokens_ok hct
    split at h
    next d hd =>
      split at h
      next blocks k' halloc =>
        split at h
        next => simp at h
        next hasync =>
          obtain rfl := Option.some_inj.mp h
          exact ⟨.single (.quiet ((Pass.Quiet.withKV p k).trans (.withKV _ k'))), hnamed, _,
            waitingDemand_asks (by simpa using hasync) hd⟩
      next => simp at h
    next => simp at h

theorem waitingGrant_occurs (hplaced : p.Placed) (h : p.waitingGrant H C E = some g) :
    g.Occurs C G p := by
  unfold Pass.waitingGrant at h
  split at h
  next => simp at h
  next e hpeek =>
    split at h
    next => simp at h
    next ready s hres =>
      split at h
      next => simp at h
      next =>
        have hq := Pass.Quiet.resolveStatus hres
        have hobj := hplaced.mem_objects
          (mem_append_right _ (mem_append_left _ (RequestQueue.ids_of_peekRequest hpeek)))
        have ho := admissionGrant_occurs (G := G)
          ((hq.inputs _).requestId.trans (hplaced.named _ hobj)) h
        exact ⟨.head (.quiet hq) ho.turns, ho.named, ho.asks⟩

theorem runningGrants_occur {fuel : Nat} (ha : p.Ahead) (hplaced : p.Placed)
    (hg : g ∈ runningGrants H C fuel p) : g.Occurs C (runningGrants H C fuel p) p := by
  induction fuel generalizing p with
  | zero => simp [runningGrants] at hg
  | succ fuel ih =>
    unfold runningGrants at hg ⊢
    split at hg
    next => simp at hg
    next rid hrid =>
      split at hg
      next hb =>
        rw [if_pos hb]
        rcases mem_append.mp hg with hg | hg
        · exact runningGrant_occurs hplaced (List.mem_of_getElem? hrid) (Option.mem_toList.mp hg)
        · split at hg
          next p₁ hvisit =>
            obtain ⟨hm, hahead⟩ := visitRunning_trace (E := {}) (ha.at hrid hb)
              (fun _ he => he) hvisit
            exact (ih (hahead rfl) (hplaced.moves hm.moves) hg).after
              (visitRunning_turns hplaced (List.mem_of_getElem? hrid) hvisit)
              (fun _ h => mem_append_right _ h) fun _ h => mem_append_left _ h
          next => simp at hg
      next => simp at hg

theorem waitingGrants_occur {fuel : Nat} (hplaced : p.Placed) (hpre : p.preemptedReqs = [])
    (hg : g ∈ waitingGrants H C E fuel p) : g.Occurs C (waitingGrants H C E fuel p) p := by
  induction fuel generalizing p with
  | zero => simp [waitingGrants] at hg
  | succ fuel ih =>
    unfold waitingGrants at hg ⊢
    split at hg
    next hcond =>
      rw [if_pos hcond]
      rcases mem_append.mp hg with hg | hg
      · exact waitingGrant_occurs hplaced (Option.mem_toList.mp hg)
      · split at hg
        next p₁ hvisit =>
          obtain ⟨hm, hpre₁⟩ := visitWaiting_trace (L := []) hcond.2.1 hcond.2.2 hpre hvisit
          exact (ih (hplaced.moves hm.moves) hpre₁ hg).after (visitWaiting_turns hplaced hpre hvisit)
            (fun _ h => mem_append_right _ h) fun _ h => mem_append_left _ h
        next => simp at hg
    next => simp at hg

/-- **Every grant of a call occurs.** -/
theorem grants_occur {s : Scheduler} (hplaces : s.Places s.running s.waiting.ids)
    (hg : g ∈ s.grants H C E) : g.Occurs C (s.grants H C E) (.start C s) := by
  unfold Scheduler.grants at hg ⊢
  rcases mem_append.mp hg with hg | hg
  · have ho := runningGrants_occur ⟨hplaces.nodupR, fun id _ => Dict.notMem_empty id⟩
      (placed_start hplaces) hg
    exact ho.after .refl (fun _ h => mem_append_left _ h) fun _ h =>
      mem_append_left _ h
  · split at hg
    next p₂ hp =>
      obtain ⟨p₁, hrun, hlora⟩ := bind_eq_ok.mp hp
      split at hg
      next hpre =>
        have hturns := (runningLoop_turns_start hplaces hrun).tail (.recordLoras hlora)
        rw [if_pos hpre]
        exact (waitingGrants_occur (placed_recordLoras hplaces hrun hlora) hpre hg).after hturns
          (fun _ h => mem_append_right _ h) fun _ h => mem_append_left _ h
      next => simp at hg
    next => simp at hg

end Occurs

end InferenceServer
