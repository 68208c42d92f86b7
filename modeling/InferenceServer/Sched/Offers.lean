import InferenceServer.KVCache.HashLookups
import InferenceServer.Sched.CacheSafety
import InferenceServer.Sched.Grants

/-!
# The tokens of a grant

A grant gives a request what is left of the tokens that it is offered, once its encoder inputs have been
looked at. This module says what is offered: to a running request up to the last position of the model, and
to a waiting request, if there are no cached and no remote tokens, all of its tokens. Both are bounded by
the budget that the grants before it have left.

Where a grant is made, an invariant of the moves of the step holds. So a property of the offered tokens
needs one lemma for the moves, and nothing about the two loops (`grants_at`).

## Main results

* `kvInvariant_sameSetup`, `grants_at`, `granted_of_scheduled`
-/

namespace InferenceServer

open Outcome

/-! ## The setup of the manager -/

/-- **The manager stays set up in the same way** in a run. -/
theorem kvInvariant_sameSetup {H : BlockHasher} {k₀ : KVCacheManager} :
    KVInvariant H (fun _ => True) k₀.SameSetup where
  getComputedBlocks h hget := h.trans (KVCacheManager.keepsHashes_getComputedBlocks hget).1.setup
  allocateSlots h _ _ ha := h.trans (KVCacheManager.keepsHashes_allocateSlots ha).1.setup
  cacheBlocks h _ hc := h.trans (KVCacheManager.keepsHashes_cacheBlocks hc).setup
  free h hf := h.trans (KVCacheManager.actsOn_free hf).config.setup
  freeBlockHashes rid h := h.trans (KVCacheManager.actsOn_freeBlockHashes _ rid 0).config.setup
  takeEvents h := h.trans (KVCacheManager.actsOn_takeEvents _ 0).config.setup

/-- Every engine step leaves the manager set up in the same way. -/
theorem Engine.sameSetup_step {H : BlockHasher} {C : SchedulerConfig} {s s' : Engine} {op : EngineOp}
    (hn : s.sched.running.Nodup) (h : s.step H C op = .ok s') :
    s.sched.kvCacheManager.SameSetup s'.sched.kvCacheManager := by
  refine kvInvariant_sameSetup.step hn (.refl _) ?_ h
  cases op with
  | schedule E => exact fun _ _ => trivial
  | updateFromOutput E m => exact fun _ _ _ _ => trivial
  | addRequest | finishRequests => trivial

/-! ## The grants of a step -/

/-- The tokens that are offered to a request, before its inputs are looked at. -/
def Grant.offered (C : SchedulerConfig) (g : Grant) : Int :=
  if g.admits then
    min (C.capPrefill (g.request.numTokens - g.request.numComputedTokens)) g.pass.tokenBudget
  else C.numNewTokensRunning g.request g.pass.tokenBudget

/-- The grant is what is left of the offered tokens. -/
structure Grant.Made (C : SchedulerConfig) (g : Grant) : Prop where
  budget : 0 < g.pass.tokenBudget
  asks : tryScheduleEncoderInputs C g.pass.sched.encoderCacheManager g.request
    g.request.numComputedTokens (g.offered C) g.pass.encoderBudget =
      (g.demand.encoderInputs, g.demand.numNewTokens, g.demand.encoderBudget)
  offers : g.admits = true → 0 < g.offered C

section Made

variable {H : BlockHasher} {C : SchedulerConfig} {E : Environment} {s : Scheduler} {p : Pass}
  {rid : ReqId} {g : Grant}

/-- A grant to a running request. -/
theorem runningGrant_made (hat : p.At rid) (h : p.runningGrant H C rid = some g) :
    g.Made C ∧ g.admits = false ∧ g.rid = rid ∧ g.request = p.sched.request rid := by
  unfold Pass.runningGrant at h
  dsimp only at h
  split at h
  next => simp at h
  next =>
    split at h
    next blocks s pre hloop =>
      obtain rfl := Option.some_inj.mp h
      obtain ⟨hq, hreq⟩ := allocateOrPreempt_quiet hloop
      have hsame : s.request rid = p.sched.request rid := hreq (by simp)
      have henc : s.encoderCacheManager = p.sched.encoderCacheManager := hq.encoderCacheManager
      refine ⟨⟨hat.budget, ?_, fun hadmits => by simp at hadmits⟩, rfl, rfl, hsame⟩
      change tryScheduleEncoderInputs C s.encoderCacheManager (s.request rid)
        (s.request rid).numComputedTokens (C.numNewTokensRunning (s.request rid) p.tokenBudget) _ = _
      rw [hsame, henc]
      rfl
    next => simp at h

variable (hconn : C.hasConnector = false)

include hconn

/-- Without prefix caching and without a connector, no tokens of a waiting request are found. -/
theorem getComputedTokens_uncached {ct : ComputedTokens} {r : Request} {s' : Scheduler}
    (hcaching : s'.kvCacheManager.enableCaching = false)
    (h : s.getComputedTokens H C E r = .ok (ct, s')) :
    ct.numComputedTokens = r.numComputedTokens ∧ ct.loadKvAsync = false := by
  obtain ⟨k, rfl, ⟨-, -, rfl⟩ | ⟨hzero, blocks, n, hget, -, -, hext, hct⟩⟩ := getComputedTokens_ok h
  · exact ⟨rfl, rfl⟩
  · have hoff : s.kvCacheManager.enableCaching = false :=
      (KVCacheManager.keepsHashes_getComputedBlocks hget).1.setup.enableCaching.symm.trans hcaching
    have hskip : s.kvCacheManager.skipsPrefixCache r = true := by
      simp [KVCacheManager.skipsPrefixCache, hoff]
    unfold KVCacheManager.getComputedBlocks at hget
    rw [if_pos hskip] at hget
    cases hget
    rw [if_neg (by simp [hconn])] at hext
    obtain ⟨hext, hasync⟩ := Prod.mk.inj hext
    exact ⟨by rw [hct, hext, hzero, add_zero], hasync⟩

/-- A grant to a waiting request. -/
theorem admissionGrant_made (hcaching : p.sched.kvCacheManager.enableCaching = false)
    (hb : 0 < p.tokenBudget) (h : p.admissionGrant H C E rid = some g) :
    g.Made C ∧ g.admits = true ∧ g.rid = rid ∧ g.request = p.sched.request rid := by
  unfold Pass.admissionGrant at h
  split at h
  next => simp at h
  next ct s hct =>
    have hcaching' : s.kvCacheManager.enableCaching = false := by
      obtain ⟨k, rfl, ⟨-, rfl, -⟩ | ⟨-, blocks, n, hget, -⟩⟩ := getComputedTokens_ok hct
      · exact hcaching
      · exact (KVCacheManager.keepsHashes_getComputedBlocks hget).1.setup.enableCaching.trans hcaching
    obtain ⟨hsame, hasync⟩ := getComputedTokens_uncached hconn hcaching' hct
    obtain ⟨k, rfl, -⟩ := getComputedTokens_ok hct
    split at h
    next d hd =>
      split at h
      next blocks k' halloc =>
        rw [if_neg (by simp [hasync])] at h
        obtain rfl := Option.some_inj.mp h
        unfold Pass.waitingDemand at hd
        rw [if_neg (by simp [hasync])] at hd
        dsimp only at hd
        split at hd
        next => simp at hd
        next =>
          obtain ⟨_, hpos, hd⟩ := bind_eq_ok.mp hd
          split at hd
          next => simp [pure_eq_ok] at hd
          next =>
            obtain rfl : _ = d := by simpa using pure_eq_ok.mp hd
            rw [hsame] at hpos
            refine ⟨⟨hb, ?_, fun _ => require_eq_ok.mp hpos⟩, rfl, rfl, rfl⟩
            rw [hsame]
            rfl
      next => simp at h
    next => simp at h

/-- Without a connector, a waiting request waits for its grammar, if for anything. -/
theorem resolveStatus_unconnected {ready : Bool} {s' : Scheduler}
    (h : s.resolveStatus H C E rid = .ok (ready, s')) :
    s' = s ∨ ((s.request rid).status = .waitingForFsm ∧
      s' = s.modify rid fun r => r.withStatus .waiting) := by
  rcases resolveStatus_ok h with rfl | ⟨hst, n, s₁, hrec, rfl⟩ | hfsm
  · exact .inl rfl
  · unfold Scheduler.resolveStatus at h
    rw [hst] at h
    obtain ⟨_, hup, -⟩ := bind_eq_ok.mp h
    obtain ⟨_, hreq, -⟩ := bind_eq_ok.mp hup
    exact absurd (require_eq_ok.mp hreq) (by simp [hconn])
  · exact .inr hfsm

/-- A grant to the request at the head of the queue. -/
theorem waitingGrant_made (hcaching : p.sched.kvCacheManager.enableCaching = false)
    (hat : p.AtWaiting C rid) (h : p.waitingGrant H C E = some g) :
    g.Made C ∧ g.admits = true ∧ g.rid = rid ∧
      ∃ status, g.request = (p.sched.request rid).withStatus status := by
  obtain ⟨e, hpeek, rfl⟩ := hat.peek
  unfold Pass.waitingGrant at h
  rw [hpeek] at h
  dsimp only at h
  split at h
  next => simp at h
  next ready s hres =>
    split at h
    next => simp at h
    next =>
      obtain ⟨hk, status, hstatus⟩ : s.kvCacheManager = p.sched.kvCacheManager ∧ ∃ status,
          s.request e.requestId = (p.sched.request e.requestId).withStatus status := by
        rcases resolveStatus_unconnected hconn hres with rfl | ⟨-, rfl⟩
        · exact ⟨rfl, _, rfl⟩
        · exact ⟨rfl, _, Scheduler.request_modify_self⟩
      have hcaching' : s.kvCacheManager.enableCaching = false := hk ▸ hcaching
      obtain ⟨hmade, hadmits, hrid, hrequest⟩ :=
        admissionGrant_made (p := { p with sched := s }) hconn hcaching' hat.budget h
      exact ⟨hmade, hadmits, hrid, status, hrequest.trans hstatus⟩

end Made

/-! ### Where the grants are made -/

section At

variable {H : BlockHasher} {C : SchedulerConfig} {E : Environment} {s : Scheduler} {p p' : Pass}
  {g : Grant} {L : List Preemption} {I : Pass → Prop}

theorem Pass.Moves.invariant (h : p.Moves H C E L p') (start : I p)
    (move : ∀ p p', I p → Pass.MoveIn H C E L p p' → I p') : I p' := by
  induction h with
  | refl => exact start
  | tail _ hm ih => exact move _ _ ih hm

theorem runningGrants_at {fuel : Nat} (ha : p.Ahead)
    (hL : ∀ e ∈ loopPreemptions H C fuel p, e ∈ L) (start : I p)
    (move : ∀ p p', I p → Pass.MoveIn H C E L p p' → I p') (hg : g ∈ runningGrants H C fuel p) :
    ∃ p rid, I p ∧ p.At rid ∧ p.runningGrant H C rid = some g := by
  induction fuel generalizing p with
  | zero => simp [runningGrants] at hg
  | succ fuel ih =>
    unfold runningGrants at hg
    unfold loopPreemptions at hL
    split at hg
    next => simp at hg
    next rid hrid =>
      rw [hrid] at hL
      split at hg
      next hb =>
        have hat := ha.at hrid hb
        dsimp only at hL
        rw [if_pos hb] at hL
        rcases List.mem_append.mp hg with hg | hg
        · exact ⟨p, rid, start, hat, Option.mem_toList.mp hg⟩
        · split at hg
          next p₁ hvisit =>
            rw [hvisit] at hL
            obtain ⟨hm, hahead⟩ := visitRunning_trace (E := E) hat
              (fun e he => hL e (List.mem_append_left _ he)) hvisit
            exact ih (hahead rfl) (fun e he => hL e (List.mem_append_right _ he))
              (hm.moves.invariant start move) hg
          next => simp at hg
      next => simp at hg

theorem waitingGrants_at {fuel : Nat} (hpre : p.preemptedReqs = []) (start : I p)
    (move : ∀ p p', I p → Pass.MoveIn H C E L p p' → I p')
    (hg : g ∈ waitingGrants H C E fuel p) :
    ∃ p rid, I p ∧ p.AtWaiting C rid ∧ p.waitingGrant H C E = some g := by
  induction fuel generalizing p with
  | zero => simp [waitingGrants] at hg
  | succ fuel ih =>
    unfold waitingGrants at hg
    split at hg
    next hcond =>
      rcases List.mem_append.mp hg with hg | hg
      · have hg := Option.mem_toList.mp hg
        obtain ⟨e, hpeek⟩ : ∃ e, p.sched.waiting.peekRequest = .ok e := by
          unfold Pass.waitingGrant at hg
          cases hpeek : p.sched.waiting.peekRequest with
          | ok e => exact ⟨e, rfl⟩
          | error e => simp [hpeek] at hg
        exact ⟨p, e.requestId, start, ⟨⟨e, hpeek, rfl⟩, hcond.2.1, hcond.2.2, hpre⟩, hg⟩
      · split at hg
        next p₁ hvisit =>
          obtain ⟨hm, hpre₁⟩ := visitWaiting_trace hcond.2.1 hcond.2.2 hpre hvisit
          exact ih hpre₁ (hm.moves.invariant start move) hg
        next => simp at hg
    next => simp at hg

/-- **The invariant rule for the grants**: what the moves of the step keep holds where a grant is
made. -/
theorem grants_at (hn : s.running.Nodup) (start : I (.start C s))
    (move : ∀ p p', I p → Pass.MoveIn H C E (s.preemptions H C) p p' → I p')
    (hg : g ∈ s.grants H C E) :
    (∃ p rid, I p ∧ p.At rid ∧ p.runningGrant H C rid = some g) ∨
      ∃ p rid, I p ∧ p.AtWaiting C rid ∧ p.waitingGrant H C E = some g := by
  have ha : (Pass.start C s).Ahead := ⟨hn, fun id _ => Dict.notMem_empty id⟩
  rcases List.mem_append.mp hg with hg | hg
  · exact .inl (runningGrants_at ha (fun _ he => he) start move hg)
  · split at hg
    next p₂ hp =>
      obtain ⟨p₁, hrun, hlora⟩ := bind_eq_ok.mp hp
      split at hg
      next hpre =>
        have hquiet : p₂.preemptedReqs = p₁.preemptedReqs := by
          obtain ⟨loras, rfl⟩ := recordLoras_ok hlora
          rfl
        have hm : (Pass.start C s).Moves H C E (s.preemptions H C) p₂ :=
          (runningLoop_trace ha (fun _ he => he) hrun).moves.tail
            ((Pass.Move.recordLoras hlora).quiet hquiet)
        exact .inr (waitingGrants_at hpre (hm.invariant start move) move hg)
      next => simp at hg
    next => simp at hg

/-- **What a step schedules has been granted.** -/
theorem granted_of_scheduled (hplaces : s.Places s.running s.waiting.ids)
    (h : s.schedulePass H C E = .ok p) {rid : ReqId} {n : Int}
    (hn : p.numScheduledTokens.get? rid = some n) :
    ∃ g ∈ s.grants H C E, g.rid = rid ∧ g.demand.numNewTokens = n := by
  have hset : ∀ g ∈ s.grants H C E, ∀ d : Dict ReqId Int, (∀ rid n, d.get? rid = some n →
      ∃ g ∈ s.grants H C E, g.rid = rid ∧ g.demand.numNewTokens = n) →
      ∀ rid n, (d.set g.rid g.demand.numNewTokens).get? rid = some n →
        ∃ g ∈ s.grants H C E, g.rid = rid ∧ g.demand.numNewTokens = n := by
    intro g hg d hd rid n hget
    rw [Dict.get?_set] at hget
    split at hget
    next heq => exact ⟨g, hg, heq.symm, Option.some.inj hget⟩
    next => exact hd rid n hget
  have hturns := schedulePass_turns hplaces h
  clear h
  revert rid n
  change ∀ rid n, p.numScheduledTokens.get? rid = some n → _
  induction hturns with
  | refl =>
    intro rid n hn
    simp [Pass.start] at hn
  | tail _ hturn ih =>
    cases hturn with
    | quiet hq => exact hq.numScheduledTokens ▸ ih
    | recordLoras hl =>
      obtain ⟨loras, rfl⟩ := recordLoras_ok hl
      exact ih
    | @running _ g blocks hg hadmits hnamed hq hrid hasks =>
      rw [(g.pass.scheduleRunning_effect g.rid g.demand blocks).numScheduledTokens]
      exact hset g hg _ (hq.numScheduledTokens ▸ ih)
    | admitWaiting hg hadmits hnamed hpre hlora hasks hadmitted =>
      rw [(admit_ok hadmitted).numScheduledTokens]
      exact hset _ hg _ ih

end At

end InferenceServer
