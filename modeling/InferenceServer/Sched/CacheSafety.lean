import InferenceServer.KVCache.Groups
import InferenceServer.Sched.LoadingBlocks

/-!
# The KV cache in runs of the scheduler

The KV cache manager has invariants of its own. They hold in a run of the scheduler if the scheduler
calls the manager as it should: it passes on the hits that `get_computed_blocks` has returned for the
request, and it does not have null blocks cached.

`KVInvariant H Q I` says that the calls of the manager keep `I`, as long as the calls that cache blocks
satisfy `Q`. What a scheduling step, `update_from_output` and `finish_requests` do to the manager is
then said once, for every such `I`. The calls of `update_from_output` that cache blocks are those of
the `AsyncScheduler` (`Scheduler.updateCalls`).

## Main results

* `KVInvariant.schedule`, `.updateFromOutput`, `.finishRequests`, `KVInvariant.step`,
  `kvInvariant_sound`
-/

namespace InferenceServer

open Outcome

/-- Hits that the manager returns for a request, or none. -/
def KVCacheManager.Offers (H : BlockHasher) (k : KVCacheManager) (r : Request)
    (hits : List (List BlockId)) : Prop :=
  hits = k.createEmptyBlockList ∨ ∃ n k', k.getComputedBlocks H r = .ok (hits, n, k')

/-- **An invariant of the manager** under the calls of the scheduler. The calls that cache blocks
satisfy `Q`. -/
structure KVInvariant (H : BlockHasher) (Q : KVCall → Prop) (I : KVCacheManager → Prop) : Prop where
  getComputedBlocks : ∀ {k k' : KVCacheManager} {r : Request} {hits : List (List BlockId)} {n : Int},
    I k → k.getComputedBlocks H r = .ok (hits, n, k') → I k'
  allocateSlots : ∀ {s : Scheduler} {k' : KVCacheManager} {r : Request} {n l : Int}
    {hits : List (List BlockId)} {lookahead : Nat} {delay : Bool}
    {res : Option (List (List BlockId))}, I s.kvCacheManager → s.kvCacheManager.Offers H r hits →
    Q ⟨s, .allocateSlots r n l hits lookahead delay⟩ →
    s.kvCacheManager.allocateSlots H r n l hits lookahead delay = .ok (res, k') → I k'
  cacheBlocks : ∀ {s : Scheduler} {k' : KVCacheManager} {r : Request} {n : Int},
    I s.kvCacheManager → Q ⟨s, .cacheBlocks r n⟩ →
    s.kvCacheManager.cacheBlocks H r n = .ok k' → I k'
  free : ∀ {k k' : KVCacheManager} {rid : ReqId}, I k → k.free rid = .ok k' → I k'
  freeBlockHashes : ∀ {k : KVCacheManager} (rid : ReqId), I k → I (k.freeBlockHashes rid)
  takeEvents : ∀ {k : KVCacheManager}, I k → I k.takeEvents.2

/-! ## The calls of `update_from_output` -/

section Calls

variable (H : BlockHasher) (C : SchedulerConfig) (E : Environment)

/-- The blocks that are cached when the tokens of a request come back. -/
def Scheduler.appendCalls (s : Scheduler) (rid : ReqId) (generated : List TokenId) : List KVCall :=
  if generated ≠ [] ∧ C.asyncScheduling = true ∧ (s.request rid).status = .running then
    match (s.request rid).takeGenerated C generated with
    | .ok (r, _, _) =>
      [⟨s.modify rid fun _ => r, .cacheBlocks r (r.numComputedTokens - r.numOutputPlaceholders)⟩]
    | .error _ => []
  else []

/-- The caching calls of one round of the loop of `update_from_output`. -/
def UpdatePass.requestCalls (output : SchedulerOutput) (m : ModelRunnerOutput) (u : UpdatePass)
    (rid : ReqId) : List KVCall :=
  if rid ∉ u.sched.requests then []
  else
    match (m.reqIdToIndex.get? rid).map m.generated with
    | some (.ok generated) =>
      (u.sched.modify rid fun r => r.rejectDrafts
        (output.scheduledSpecDecodeTokens.getD rid []) generated).appendCalls C rid generated
    | _ => []

/-- The caching calls of the loop of `update_from_output`. -/
def updateLoopCalls (output : SchedulerOutput) (m : ModelRunnerOutput) :
    List (ReqId × Int) → UpdatePass → List KVCall
  | [], _ => []
  | e :: l, u =>
    u.requestCalls C output m e.1 ++ match UpdatePass.updateRequest H C E output m e u with
    | .ok u' => updateLoopCalls output m l u'
    | .error _ => []

/-- **The calls of `update_from_output` that cache blocks**, in their order. -/
def Scheduler.updateCalls (s : Scheduler) (output : SchedulerOutput) (m : ModelRunnerOutput) :
    List KVCall :=
  updateLoopCalls H C E output m output.numScheduledTokens.entries { sched := s }

/-- **The calls of the manager in an engine step** satisfy `Q`: all calls of a scheduling step, and
the caching calls of `update_from_output`. -/
def Engine.CallsMeet (Q : KVCall → Prop) (s : Engine) : EngineOp → Prop
  | .schedule E => ∀ c ∈ s.sched.scheduleCalls H C E, Q c
  | .updateFromOutput E m =>
    ∀ output ∈ s.inFlight.head?, ∀ c ∈ s.sched.updateCalls H C E output m, Q c
  | _ => True

instance (Q : KVCall → Prop) [DecidablePred Q] (s : Engine) (op : EngineOp) :
    Decidable (s.CallsMeet H C Q op) := by
  refine op.casesOn ?_ ?_ ?_ ?_ <;> intros <;> unfold Engine.CallsMeet <;> infer_instance

end Calls

/-! ## Moves -/

section Moves

variable {H : BlockHasher} {C : SchedulerConfig} {E : Environment} {Q : KVCall → Prop}
  {I : KVCacheManager → Prop} {p p' : Pass} {cs : List KVCall} {s s' : Scheduler} {rid : ReqId}

/-- Looking a request up a second time gives the same hits. -/
theorem KVCacheManager.getComputedBlocks_again {k k' : KVCacheManager} {r : Request}
    {hits : List (List BlockId)} {n : Int} (h : k.getComputedBlocks H r = .ok (hits, n, k')) :
    k'.Offers H r hits := by
  unfold KVCacheManager.getComputedBlocks at h
  split at h
  next hskip =>
    obtain ⟨rfl, -, rfl⟩ := triple_of_ok h
    exact .inl rfl
  next hskip =>
    obtain ⟨hashes, hh, h⟩ := bind_eq_ok.mp h
    obtain ⟨⟨hits', n'⟩, hfind, h⟩ := bind_eq_ok.mp h
    obtain ⟨rfl, rfl, rfl⟩ := triple_of_ok h
    have hagain : KVCacheManager.requestBlockHashes
        { k with reqToBlockHashes := k.reqToBlockHashes.set r.requestId hashes } H r =
          .ok hashes := by
      unfold KVCacheManager.requestBlockHashes at hh ⊢
      rw [Dict.getD_set, if_pos rfl]
      split
      next =>
        -- no hash is remembered, so they were computed
        split at hh
        · exact hh
        next hne => exact absurd (Except.ok.inj hh) hne
      next => rfl
    refine .inr ⟨n', { k with
      reqToBlockHashes := (k.reqToBlockHashes.set r.requestId hashes).set r.requestId hashes }, ?_⟩
    unfold KVCacheManager.getComputedBlocks
    rw [if_neg (by exact hskip)]
    exact bind_eq_ok.mpr ⟨hashes, hagain, bind_eq_ok.mpr ⟨(hits', n'), hfind, rfl⟩⟩

/-- The computed blocks of a waiting request. -/
theorem offers_newComputedBlocks {ct : ComputedTokens} {r : Request}
    (h : s.getComputedTokens H C E r = .ok (ct, s')) :
    s'.kvCacheManager.Offers H r ct.newComputedBlocks := by
  obtain ⟨k, rfl, ⟨-, rfl, rfl⟩ | ⟨-, hits, n, hget, rfl, -⟩⟩ := getComputedTokens_ok h
  · exact .inl rfl
  · exact KVCacheManager.getComputedBlocks_again hget

variable (hI : KVInvariant H Q I)

include hI

theorem KVInvariant.resolveStatus (h : I p.sched.kvCacheManager)
    (hmem : (p.sched.request rid).status = .waitingForRemoteKvs →
      rid ∈ p.sched.finishedRecvingKvReqIds → ∀ c ∈ p.receiveCalls C rid, Q c) {ready : Bool}
    (hres : p.sched.resolveStatus H C E rid = .ok (ready, s')) : I s'.kvCacheManager := by
  rcases resolveStatus_ok hres with rfl | ⟨hst, n, s₁, hrec, rfl⟩ | ⟨-, rfl⟩
  · exact h
  · obtain ⟨blockIds, hids, rfl⟩ := hrec.count
    refine hI.cacheBlocks h (hmem hst hrec.received _ ?_) hrec.kvCacheManager
    rw [Pass.receiveCalls, if_pos ⟨hst, hrec.received⟩, hids]
    simp
  · exact h

/-- **A move keeps an invariant of the manager.** -/
theorem KVInvariant.does (h : I p.sched.kvCacheManager)
    (hQ : ∀ c ∈ cs, Q c) (hd : Pass.Does H C E p cs p') : I p'.sched.kvCacheManager := by
  cases hd with
  | passOver hat hzero => exact h
  | preempt hat hpos halloc hv hs =>
    have hk := hI.allocateSlots h (.inl rfl) (hQ _ List.mem_cons_self) halloc
    exact hI.free hk (Scheduler.preempt_ok hs).kvCacheManager
  | @scheduleRunning rid blocks k hat hpos halloc =>
    have hk := hI.allocateSlots h (.inl rfl) (hQ _ List.mem_cons_self) halloc
    rw [((p.withKV k).scheduleRunning_effect rid _ blocks).kvCacheManager]
    exact hk
  | recordLoras hl =>
    obtain ⟨loras, rfl⟩ := recordLoras_ok hl
    exact h
  | receive hat hst hmem hres => exact hI.resolveStatus h (fun _ _ => hQ) hres
  | resolveStatus hat hnot hres =>
    exact hI.resolveStatus h (fun hst hmem => absurd ⟨hst, hmem⟩ hnot) hres
  | skip hat hskip =>
    obtain ⟨e, w, sk, -, -, rfl⟩ := skipWaiting_ok hskip
    exact h
  | lookUp hat hst hnc hct =>
    obtain ⟨k, rfl, ⟨-, rfl, -⟩ | ⟨-, blocks, n, hget, -⟩⟩ := getComputedTokens_ok hct
    · exact h
    · exact hI.getComputedBlocks h hget
  | noSlots hat hst hct hdem halloc =>
    exact hI.allocateSlots h (offers_newComputedBlocks hct) (hQ _ List.mem_cons_self) halloc
  | park hat hst hct hdem hasync halloc hpark =>
    have hk := hI.allocateSlots h (offers_newComputedBlocks hct) (hQ _ List.mem_cons_self) halloc
    obtain ⟨p₁, hskip, rfl⟩ := parkRemote_ok hpark
    obtain ⟨e, w, sk, -, -, rfl⟩ := skipWaiting_ok hskip
    exact hk
  | admitWaiting hat hst hct hdem hasync halloc hadm =>
    have hk := hI.allocateSlots h (offers_newComputedBlocks hct) (hQ _ List.mem_cons_self) halloc
    rw [(admit_ok hadm).kvCacheManager]
    exact hk

/-- **The loops of a scheduling step** keep an invariant of the manager. -/
theorem KVInvariant.schedulePass (hn : s.running.Nodup)
    (h : I s.kvCacheManager) (hQ : ∀ c ∈ s.scheduleCalls H C E, Q c)
    (hpass : s.schedulePass H C E = .ok p) : I p.sched.kvCacheManager := by
  obtain ⟨p₁, hp₁, hr⟩ := schedulePass_calls
    (I := fun cs p => (∀ c ∈ cs, Q c) → I p.sched.kvCacheManager) hn hpass (fun _ => h)
    fun cs p c p' ih hd hall => hI.does
      (ih fun c' hc' => hall c' (List.mem_append_left c hc'))
      (fun c' hc' => hall c' (List.mem_append_right cs hc')) hd
  obtain ⟨w, rfl, -⟩ := restoreSkipped_ok hr
  exact hp₁ hQ

theorem KVInvariant.schedule (hn : s.running.Nodup)
    (h : I s.kvCacheManager) (hQ : ∀ c ∈ s.scheduleCalls H C E, Q c) {output : SchedulerOutput}
    (hs : s.schedule H C E = .ok (output, s')) : I s'.kvCacheManager := by
  obtain ⟨p, hp⟩ := schedule_ok hs
  rw [hp.kvCacheManager]
  exact hI.takeEvents (hI.schedulePass hn h hQ hp.pass)

end Moves

/-! ## The other entry points -/

section Entry

variable {H : BlockHasher} {C : SchedulerConfig} {E : Environment} {Q : KVCall → Prop}
  {I : KVCacheManager → Prop} {m : ModelRunnerOutput} {output : SchedulerOutput}
  {s s' : Scheduler} {u u' : UpdatePass} {rid : ReqId} {index : Nat} {stopped : Bool}
  {generated appended : List TokenId}

theorem KVInvariant.freeBlocks (hI : KVInvariant H Q I) (h : I s.kvCacheManager)
    (hf : s.freeBlocks rid = .ok s') : I s'.kvCacheManager := by
  obtain ⟨_, -, hf⟩ := bind_eq_ok.mp hf
  obtain ⟨k, hk, hf⟩ := bind_eq_ok.mp hf
  obtain ⟨_, -, hf⟩ := bind_eq_ok.mp hf
  cases hf
  exact hI.freeBlockHashes rid (hI.free h hk)

theorem KVInvariant.freeRequest (hI : KVInvariant H Q I) (h : I s.kvCacheManager)
    {params : Option KVTransferParams} (hf : s.freeRequest C E rid = .ok (params, s')) :
    I s'.kvCacheManager := by
  obtain ⟨_, -, hf⟩ := bind_eq_ok.mp hf
  obtain ⟨⟨delay, params', s₁⟩, hconn, hf⟩ := bind_eq_ok.mp hf
  obtain ⟨-, rfl⟩ := connectorFinished_ok hconn
  cases delay with
  | true =>
    cases hf
    exact h
  | false =>
    obtain ⟨s₂, hfree, hf⟩ := bind_eq_ok.mp hf
    cases hf
    refine hI.freeBlocks ?_ hfree
    exact h

/-- The tokens of a request come back: the `AsyncScheduler` caches the blocks they complete. -/
theorem KVInvariant.appendGenerated (hI : KVInvariant H Q I) (h : I s.kvCacheManager)
    (hQ : ∀ c ∈ s.appendCalls C rid generated, Q c)
    (happ : s.appendGenerated H C rid generated = .ok (s', appended, stopped)) :
    I s'.kvCacheManager := by
  unfold Scheduler.appendGenerated at happ
  split at happ
  next =>
    obtain ⟨rfl, -, -⟩ := triple_of_ok happ
    exact h
  next hne =>
    obtain ⟨⟨r, ap, st⟩, hup, happ⟩ := bind_eq_ok.mp happ
    cases hasync : C.asyncScheduling with
    | false =>
      simp only [hasync, Bool.false_eq_true, if_false] at happ
      obtain ⟨rfl, -, -⟩ := triple_of_ok happ
      exact h
    | true =>
      simp only [hasync, if_true] at happ
      obtain ⟨_, -, happ⟩ := bind_eq_ok.mp happ
      split at happ
      next hst =>
        obtain ⟨k, hk, happ⟩ := bind_eq_ok.mp happ
        obtain ⟨rfl, -, -⟩ := triple_of_ok happ
        have htake : (s.request rid).takeGenerated C generated =
            .ok (r.addPlaceholders (-ap.length), ap, st) := by
          rw [Request.takeGenerated, if_neg hne, hasync]
          exact bind_eq_ok.mpr ⟨_, hup, rfl⟩
        refine hI.cacheBlocks (s := s.modify rid fun _ => r.addPlaceholders (-ap.length)) h
          (hQ _ ?_) hk
        rw [Scheduler.appendCalls, if_pos ⟨hne, hasync, hst⟩, htake]
        exact List.mem_singleton_self _
      next =>
        obtain ⟨rfl, -, -⟩ := triple_of_ok happ
        exact h

theorem checkPooler_kvCacheManager {st : Bool} {pooler : Option (List Int)}
    (h : s.checkPooler C m rid index st = .ok (s', pooler, stopped)) :
    s'.kvCacheManager = s.kvCacheManager := by
  unfold Scheduler.checkPooler at h
  split at h
  next =>
    cases h
    rfl
  next =>
    split at h
    next => simp at h
    next =>
      obtain ⟨⟨st', r'⟩, -, h⟩ := bind_eq_ok.mp h
      cases h
      rfl

theorem assignDrafts_kvCacheManager (h : s.assignDrafts E m rid index = .ok s') :
    s'.kvCacheManager = s.kvCacheManager := by
  unfold Scheduler.assignDrafts at h
  split at h
  · rw [Except.ok.inj h]
  · split at h
    · simp at h
    · rw [← Except.ok.inj h]
      rfl

theorem recordNans_kvCacheManager (s : Scheduler) (m : ModelRunnerOutput) (rid : ReqId) :
    (s.recordNans m rid).kvCacheManager = s.kvCacheManager := by
  unfold Scheduler.recordNans
  split <;> rfl

variable (hI : KVInvariant H Q I)

include hI

theorem KVInvariant.applyTokens (h : I u.sched.kvCacheManager)
    (hQ : ∀ c ∈ u.sched.appendCalls C rid generated, Q c)
    (ha : u.applyTokens H C E m rid index generated = .ok u') : I u'.sched.kvCacheManager := by
  obtain ⟨⟨s₁, appended, st⟩, happ, ha⟩ := bind_eq_ok.mp ha
  obtain ⟨⟨s₂, pooler, stopped⟩, hpool, ha⟩ := bind_eq_ok.mp ha
  obtain ⟨⟨params, u₁⟩, hfree, ha⟩ := bind_eq_ok.mp ha
  obtain ⟨s₄, hdrafts, hemit⟩ := bind_eq_ok.mp ha
  have h₂ : I s₂.kvCacheManager := by
    rw [checkPooler_kvCacheManager hpool]
    exact hI.appendGenerated h hQ happ
  have h₃ : I u₁.sched.kvCacheManager := by
    unfold UpdatePass.freeStopped at hfree
    split at hfree
    next =>
      obtain ⟨⟨params', s₃⟩, hreq, hfree⟩ := bind_eq_ok.mp hfree
      cases hfree
      split <;> exact hI.freeRequest h₂ hreq
    next =>
      cases hfree
      exact h₂
  rw [(emitOutput_ok hemit).1, assignDrafts_kvCacheManager hdrafts, recordNans_kvCacheManager]
  exact h₃

/-- **One round of the loop** of `update_from_output`. -/
theorem KVInvariant.updateRequest {e : ReqId × Int}
    (h : I u.sched.kvCacheManager) (hQ : ∀ c ∈ u.requestCalls C output m e.1, Q c)
    (hu : UpdatePass.updateRequest H C E output m e u = .ok u') : I u'.sched.kvCacheManager := by
  obtain ⟨_, -, hu⟩ := bind_eq_ok.mp hu
  unfold UpdatePass.requestCalls at hQ
  split at hu
  next =>
    cases hu
    exact h
  next hmem =>
    rw [if_neg hmem] at hQ
    split at hu
    next => simp at hu
    next index hindex =>
      obtain ⟨generated, hgen, hu⟩ := bind_eq_ok.mp hu
      rw [hindex, Option.map_some, hgen] at hQ
      refine hI.applyTokens ?_ hQ hu
      exact h

theorem KVInvariant.updateLoop {l : List (ReqId × Int)}
    (h : I u.sched.kvCacheManager) (hQ : ∀ c ∈ updateLoopCalls H C E output m l u, Q c)
    (hloop : threadM (UpdatePass.updateRequest H C E output m) l u = .ok u') :
    I u'.sched.kvCacheManager := by
  induction l generalizing u with
  | nil =>
    cases hloop
    exact h
  | cons e l ih =>
    obtain ⟨u₁, hu₁, hloop⟩ := bind_eq_ok.mp hloop
    rw [updateLoopCalls, hu₁] at hQ
    refine ih (hI.updateRequest h (fun c hc => hQ c (List.mem_append_left _ hc)) hu₁)
      (fun c hc => hQ c (List.mem_append_right _ hc)) hloop

theorem KVInvariant.updateFromKvXferFinished (h : I s.kvCacheManager)
    (hsent : s.updateFromKvXferFinished m = .ok s') : I s'.kvCacheManager := by
  refine threadM_invariant (I := fun _ (t : Scheduler) => I t.kvCacheManager)
    (fun id l t t' ht ht' => ?_) ?_ hsent
  · obtain ⟨_, -, ht'⟩ := bind_eq_ok.mp ht'
    exact hI.freeBlocks ht ht'
  · exact h

/-- **`update_from_output`** keeps an invariant of the manager. -/
theorem KVInvariant.updateFromOutput (h : I s.kvCacheManager)
    (hQ : ∀ c ∈ s.updateCalls H C E output m, Q c) {ecos : Dict Nat EngineCoreOutputs}
    (hup : s.updateFromOutput H C E output m = .ok (ecos, s')) : I s'.kvCacheManager := by
  obtain ⟨u, hloop, hup⟩ := bind_eq_ok.mp hup
  obtain ⟨s₁, hstop, hup⟩ := bind_eq_ok.mp hup
  obtain ⟨s₂, hsent, hup⟩ := bind_eq_ok.mp hup
  have heco : s₂.engineCoreOutputs u.outputs = (ecos, s') := pure_eq_ok.mp hup
  have hu := hI.updateLoop (u := { sched := s }) h hQ hloop
  obtain ⟨w, rfl, -⟩ := removeWaiting_ok hstop
  obtain ⟨⟨d, rfl⟩, -⟩ := engineCoreOutputs_ok heco
  have hsent₂ : I s₂.kvCacheManager := by
    refine hI.updateFromKvXferFinished ?_ hsent
    exact hu
  exact hsent₂

/-- **`finish_requests`** keeps an invariant of the manager. -/
theorem KVInvariant.finishRequests (hn : s.running.Nodup)
    (h : I s.kvCacheManager) {ids : List ReqId} {status : RequestStatus}
    (hf : s.finishRequests C E ids status = .ok s') : I s'.kvCacheManager := by
  obtain ⟨-, valid, -, -, w, -, hloop⟩ := finishRequests_ok hn hf
  refine threadM_invariant (I := fun _ (t : Scheduler) => I t.kvCacheManager)
    (fun id l t t' ht ht' => ?_) ?_ hloop
  · obtain ⟨⟨params, s₁⟩, hfree, ht'⟩ := bind_eq_ok.mp ht'
    cases ht'
    exact hI.freeRequest (s := t.modify id _) ht hfree
  · exact h

/-- **A step of the engine** keeps an invariant of the manager. -/
theorem KVInvariant.step {e e' : Engine} {op : EngineOp}
    (hn : e.sched.running.Nodup) (h : I e.sched.kvCacheManager) (hQ : e.CallsMeet H C Q op)
    (hstep : e.step H C op = .ok e') : I e'.sched.kvCacheManager := by
  cases Engine.step_cases hstep with
  | addRequest hadd =>
    obtain ⟨w, -, hadd⟩ := bind_eq_ok.mp hadd
    cases hadd
    exact h
  | schedule hsched =>
    exact hI.schedule hn h hQ hsched
  | @updateFromOutput _ _ output _ _ _ hin hup =>
    exact hI.updateFromOutput h (hQ output (by rw [hin]; rfl)) hup
  | finishRequests hfin =>
    exact hI.finishRequests hn h hfin

end Entry

/-! ## The manager with its groups -/

/-- **The call does not cache the null block**: with prefix caching on, no block that it is about to
cache is null, or becomes so in the same call, and the number of tokens is not negative. -/
def KVCall.CachesNoNull (c : KVCall) : Prop :=
  match c.op with
  | .allocateSlots r n l _ _ delay =>
    c.sched.kvCacheManager.enableCaching = true → delay = false →
      c.sched.kvCacheManager.AllocateClean r n l
  | .cacheBlocks r n =>
    c.sched.kvCacheManager.enableCaching = true →
      0 ≤ n ∧ ∀ m ∈ c.sched.kvCacheManager.singleTypeManagers,
        m.SkipClean c.sched.kvCacheManager.blockPool.nullBlock r.requestId 0 n
  | _ => True

instance : DecidablePred KVCall.CachesNoNull := by
  intro c
  unfold KVCall.CachesNoNull
  split <;> infer_instance

/-- Hits of the manager fit their request and belong to their groups. -/
theorem KVCacheManager.Sound.offers {H : BlockHasher} (hH : H.Lawful) {k : KVCacheManager}
    {r : Request} {hits : List (List BlockId)} (h : k.Sound H) (ho : k.Offers H r hits) :
    (∀ l ∈ hits, HitsFit (HasDepth H) r.requestId k.blockPool l) ∧
      List.Forall₂ (InGroup k.blockPool) k.singleTypeManagers hits := by
  rcases ho with rfl | ⟨n, k', hget⟩
  · exact ⟨KVCacheManager.hitsFit_createEmptyBlockList k,
      KVCacheManager.inGroup_createEmptyBlockList k⟩
  · obtain ⟨-, hfit, hof⟩ := h.getComputedBlocks hH hget
    obtain ⟨hashes, rfl⟩ := KVCacheManager.getComputedBlocks_eq hget
    exact ⟨hfit, hof⟩

/-- **The invariant of the manager, with the groups**, holds in runs of the scheduler. -/
theorem kvInvariant_sound {H : BlockHasher} (hH : H.Lawful) :
    KVInvariant H KVCall.CachesNoNull (KVCacheManager.Sound H) where
  getComputedBlocks h hget := (h.getComputedBlocks hH hget).1
  allocateSlots h ho hQ ha := by
    obtain ⟨hfit, hof⟩ := h.offers hH ho
    exact h.allocateSlots hH hfit hof hQ ha
  cacheBlocks h hQ hc := h.cacheBlocks hH hQ hc
  free h hf := h.free hf
  freeBlockHashes rid h := h.freeBlockHashes rid
  takeEvents h := h.takeEvents

end InferenceServer
