import InferenceServer.Sched.DraftTokens
import InferenceServer.Sched.Offers

/-!
# The hashes of waiting requests

The hashes of a request are extended when slots are allocated for it, up to the tokens that it has then.
The tokens that the step brings are not hashed before the next allocation. So a request that accepts
several drafts, and with them completes a block, has a block that is not hashed; and if it is preempted
before its next allocation, the next lookup starts at this block. With a sliding window or with chunked
local attention alone, it reads behind the last hash.

The invariant of a run is that every waiting request is remembered well enough. A waiting request is
preempted, or it arrives, or it waits for blocks from another instance; and while it waits, a result from
before its preemption can bring more tokens. The condition on the calls is about the preemptions and
about these results.

## Main results

* `lookups_return_of_reach`, `not_lookups_return`
-/

namespace InferenceServer

open Outcome
open Scheduler (request_congr request_modify_self request_modify_ne)
open KVCacheManager (lookupBlocks skipsPrefixCache hashesOf keepsHashes_getComputedBlocks
  keepsHashes_allocateSlots actsOn_free keepsHashes_cacheBlocks)

/-! ## What is remembered of a request -/

/-- **Remembered well enough**: the hashes cover the tokens, or there are none and no blocks are on their
way, whose hashes would be the first ones. -/
def KVCacheManager.Recalls (k : KVCacheManager) (r : Request) : Prop :=
  k.kind.ReadsByIndex → k.skipsPrefixCache r = false →
    (k.hashesOf r.requestId = [] ∧ r.status ≠ .waitingForRemoteKvs) ∨ k.Covers r

instance (k : KVCacheManager) (r : Request) : Decidable (k.Recalls r) := by
  unfold KVCacheManager.Recalls
  infer_instance

/-- A victim that is remembered well enough. -/
def Preemption.Recalled (e : Preemption) : Prop :=
  e.pass.sched.kvCacheManager.Recalls (e.pass.sched.request e.victim)

instance (e : Preemption) : Decidable e.Recalled :=
  inferInstanceAs (Decidable (KVCacheManager.Recalls _ _))

section Recalls

variable {k k' : KVCacheManager} {r r' : Request}

theorem KVCacheManager.Recalls.remembers (h : k.Recalls r) : k.Remembers r := fun hkind hskips =>
  (h hkind hskips).imp_left And.left

/-- The same tokens and the same hashes. -/
theorem KVCacheManager.Recalls.congr (h : k.Recalls r) (hsetup : k.SameSetup k')
    (hhashes : k'.hashesOf r'.requestId = k.hashesOf r.requestId)
    (htokens : r'.numTokens = r.numTokens) (hparams : r'.samplingParams = r.samplingParams)
    (hstatus : r'.status = .waitingForRemoteKvs → r.status = .waitingForRemoteKvs) :
    k'.Recalls r' := by
  unfold KVCacheManager.Recalls KVCacheManager.Covers lookupBlocks
    skipsPrefixCache at *
  rw [hsetup.kind, hsetup.enableCaching, hsetup.blockSize, hhashes, htokens, hparams]
  exact fun hkind hskips => (h hkind hskips).imp_left fun hnil => ⟨hnil.1, fun h => hnil.2 (hstatus h)⟩

/-- Hashes that cover the tokens may be extended. -/
theorem KVCacheManager.Covers.extend (h : k.Covers r) (hsetup : k.SameSetup k')
    (hpre : k.hashesOf r.requestId <+: k'.hashesOf r'.requestId)
    (htokens : r'.numTokens = r.numTokens) : k'.Covers r' := by
  unfold KVCacheManager.Covers lookupBlocks at *
  rw [hsetup.blockSize, htokens]
  exact h.trans hpre.length_le

/-- Blocks are received, and their hashes appended to those of the lookup. -/
theorem KVCacheManager.Recalls.received (h : k.Recalls r)
    (hst : r.status = .waitingForRemoteKvs) (hsetup : k.SameSetup k')
    (hpre : k.hashesOf r.requestId <+: k'.hashesOf r'.requestId)
    (htokens : r'.numTokens = r.numTokens) (hparams : r'.samplingParams = r.samplingParams) :
    k'.Recalls r' := by
  intro hkind hskips
  rw [hsetup.kind] at hkind
  unfold skipsPrefixCache at hskips
  rw [hsetup.enableCaching, hparams] at hskips
  rcases h hkind hskips with ⟨-, hnot⟩ | hcovers
  · exact absurd hst hnot
  · exact .inr (hcovers.extend hsetup hpre htokens)

end Recalls

/-! ## The invariant -/

/-- **Every waiting request is remembered well enough**, and nothing is remembered of a request that has not
arrived. -/
structure Scheduler.Recalls (s : Scheduler) : Prop where
  named : ∀ id ∈ s.objects, (s.request id).requestId = id
  fresh : ∀ id, id ∉ s.objects → s.kvCacheManager.hashesOf id = []
  recalls : ∀ id ∈ s.objects, (s.request id).place = .queue →
    s.kvCacheManager.Recalls (s.request id)

/-- The requests change, but not what a waiting request brings to a lookup. -/
structure Request.WaitsAs (r r' : Request) : Prop where
  requestId : r'.requestId = r.requestId
  numTokens : r'.numTokens = r.numTokens
  samplingParams : r'.samplingParams = r.samplingParams
  place : r'.place = .queue → r.place = .queue
  remote : r'.status = .waitingForRemoteKvs → r.status = .waitingForRemoteKvs

/-- The hashes change of one request only. -/
structure KVCacheManager.ChangesHashes (rid : ReqId) (k k' : KVCacheManager) : Prop where
  setup : k.SameSetup k'
  others : ∀ id, id ≠ rid → k'.hashesOf id = k.hashesOf id

section Invariant

variable {k k' k'' : KVCacheManager} {s s' : Scheduler} {rid : ReqId}

theorem Request.WaitsAs.refl (r : Request) : r.WaitsAs r := ⟨rfl, rfl, rfl, fun h => h, fun h => h⟩

theorem KVCacheManager.KeepsHashes.changes (h : KeepsHashes rid k k') : ChangesHashes rid k k' :=
  ⟨h.setup, h.others⟩

theorem KVCacheManager.ChangesHashes.trans (h : ChangesHashes rid k k')
    (h' : ChangesHashes rid k' k'') : ChangesHashes rid k k'' :=
  ⟨h.setup.trans h'.setup, fun id hid => (h'.others id hid).trans (h.others id hid)⟩

/-- **The rule for a change of one request**, on whose behalf the manager may be called. -/
theorem Scheduler.Recalls.of_request (h : s.Recalls) (hrid : rid ∈ s.objects)
    (hobj : ∀ id, id ∈ s'.objects ↔ id ∈ s.objects)
    (hk : KVCacheManager.ChangesHashes rid s.kvCacheManager s'.kvCacheManager)
    (hothers : ∀ id, id ≠ rid → s'.request id = s.request id)
    (hname : (s'.request rid).requestId = rid)
    (hself : (s'.request rid).place = .queue → s'.kvCacheManager.Recalls (s'.request rid)) :
    s'.Recalls := by
  refine ⟨fun id hid => ?_, fun id hid => ?_, fun id hid hq => ?_⟩
  · by_cases heq : id = rid
    · rw [heq]
      exact hname
    · rw [hothers id heq]
      exact h.named id ((hobj id).mp hid)
  · have hne : id ≠ rid := fun heq => hid ((hobj id).mpr (heq ▸ hrid))
    rw [hk.others id hne]
    exact h.fresh id fun hmem => hid ((hobj id).mpr hmem)
  · by_cases heq : id = rid
    · subst heq
      exact hself hq
    · have hmem := (hobj id).mp hid
      rw [hothers id heq] at hq ⊢
      refine (h.recalls id hmem hq).congr hk.setup ?_ rfl rfl fun hst => hst
      rw [h.named id hmem]
      exact hk.others id heq

/-- **The rule for a change of no waiting request**. -/
theorem Scheduler.Recalls.of_waiting (h : s.Recalls)
    (hobj : ∀ id, id ∈ s'.objects ↔ id ∈ s.objects)
    (hsetup : s.kvCacheManager.SameSetup s'.kvCacheManager)
    (hhashes : s'.kvCacheManager.reqToBlockHashes = s.kvCacheManager.reqToBlockHashes)
    (hreq : ∀ id ∈ s.objects, (s.request id).WaitsAs (s'.request id)) : s'.Recalls := by
  have hsame : ∀ id, s'.kvCacheManager.hashesOf id = s.kvCacheManager.hashesOf id := fun id => by
    unfold hashesOf
    rw [hhashes]
  refine ⟨fun id hid => ?_, fun id hid => ?_, fun id hid hq => ?_⟩
  · have hmem := (hobj id).mp hid
    rw [(hreq id hmem).requestId]
    exact h.named id hmem
  · rw [hsame id]
    exact h.fresh id fun hmem => hid ((hobj id).mpr hmem)
  · have hmem := (hobj id).mp hid
    have hr := hreq id hmem
    refine (h.recalls id hmem (hr.place hq)).congr hsetup ?_ hr.numTokens hr.samplingParams hr.remote
    rw [hsame, hr.requestId]

end Invariant

/-! ## In the middle of a step -/

/-- **The invariant in the middle of a step** that started in `s`. -/
structure Pass.Recalls (s : Scheduler) (p : Pass) : Prop where
  placed : p.Placed
  keeps : s.Keeps p.sched
  recalls : p.sched.Recalls

theorem Request.place_trimDrafts (r : Request) (n : Int) : (r.trimDrafts n).place = r.place := by
  unfold Request.trimDrafts
  split <;> rfl

section Step

variable {H : BlockHasher} {C : SchedulerConfig} {E : Environment} {s : Scheduler} {p p' : Pass}
  {rid : ReqId} {L : List Preemption}

/-- **After a lookup** the hashes cover the tokens. -/
theorem Pass.Recalls.recalls_lookUp (h : p.Recalls s) (hrid : rid ∈ p.sched.objects)
    (hq : (p.sched.request rid).place = .queue) {k : KVCacheManager}
    {blocks : List (List BlockId)} {n : Int}
    (hget : p.sched.kvCacheManager.getComputedBlocks H (p.sched.request rid) =
      .ok (blocks, n, k)) : k.Recalls (p.sched.request rid) := by
  obtain ⟨hk, hremembers, hcovers⟩ := keepsHashes_getComputedBlocks hget
  intro hkind hskips
  right
  have hskips' : p.sched.kvCacheManager.skipsPrefixCache (p.sched.request rid) = false := by
    unfold skipsPrefixCache at hskips ⊢
    rwa [hk.setup.enableCaching] at hskips
  rcases hremembers (h.recalls.recalls rid hrid hq).remembers hkind hskips with hnil | hcov
  · exact hcovers hskips' hnil
  · exact hcov

/-- A request whose blocks are to be loaded has been looked up. -/
theorem Pass.Recalls.covers_lookedUp (h : p.Recalls s) (hrid : rid ∈ p.sched.objects)
    (hq : (p.sched.request rid).place = .queue) {s₀ : Scheduler} {ct : ComputedTokens}
    (hct : s₀.getComputedTokens H C E (p.sched.request rid) = .ok (ct, p.sched))
    (hasync : ct.loadKvAsync = true) (hkind : p.sched.kvCacheManager.kind.ReadsByIndex)
    (hskips : p.sched.kvCacheManager.skipsPrefixCache (p.sched.request rid) = false) :
    p.sched.kvCacheManager.Covers (p.sched.request rid) := by
  obtain ⟨k, hsched, ⟨-, -, rfl⟩ | ⟨-, blocks, n, hget, -⟩⟩ := getComputedTokens_ok hct
  · cases hasync
  · have hk : p.sched.kvCacheManager = k := by rw [hsched]; rfl
    obtain ⟨hkeeps, -, hcovers⟩ := keepsHashes_getComputedBlocks hget
    rw [← hk] at hkeeps hcovers
    rcases h.recalls.recalls rid hrid hq hkind hskips with ⟨hnil, -⟩ | hcov
    · refine hcovers ?_ ?_
      · unfold skipsPrefixCache at hskips ⊢
        rwa [hkeeps.setup.enableCaching] at hskips
      · exact hnil
    · exact hcov

/-- **A move** keeps the waiting requests remembered, if the victims are. -/
theorem Pass.Recalls.move (h : p.Recalls s) (hm : Pass.MoveIn H C E L p p')
    (hL : ∀ e ∈ L, e.Recalled) : p'.Recalls s := by
  have hmoved := hm.move.keeps h.placed
  have hobjects : ∀ id, id ∈ p'.sched.objects ↔ id ∈ p.sched.objects := hmoved.mem_objects
  refine ⟨h.placed.move hm.move, h.keeps.trans hmoved, ?_⟩
  have hnamed := h.recalls.named
  obtain ⟨hmove, hvictim⟩ := hm
  -- a move that changes neither the manager nor the requests
  have hquiet : p'.sched.kvCacheManager = p.sched.kvCacheManager →
      p'.sched.objects = p.sched.objects → p'.sched.Recalls := fun hk hobj =>
    h.recalls.of_waiting hobjects (hk ▸ .refl _) (by rw [hk]) fun id _ =>
      request_congr hobj id ▸ .refl _
  cases hmove with
  | passOver => exact hquiet rfl rfl
  | @preempt rid v k s' hat hpos halloc hv hs =>
    obtain ⟨rid', -, hmem⟩ := hvictim v rfl
    have hp := Scheduler.preempt_ok hs
    obtain ⟨halloc, hsame⟩ := keepsHashes_allocateSlots halloc
    have hhashes : s'.kvCacheManager.reqToBlockHashes = p.sched.kvCacheManager.reqToBlockHashes :=
      (KVCacheManager.reqToBlockHashes_free hp.kvCacheManager).trans (hsame (.inl rfl))
    have hsetup : p.sched.kvCacheManager.SameSetup s'.kvCacheManager :=
      halloc.setup.trans (actsOn_free hp.kvCacheManager).config.setup
    have hkeep : KVCacheManager.KeepsHashes v p.sched.kvCacheManager s'.kvCacheManager :=
      .of_eq hsetup hhashes
    have hrecalled : p.sched.kvCacheManager.Recalls (p.sched.request v) := hL _ hmem
    have hvobj : v ∈ p.sched.objects :=
      ((Scheduler.Places.running h.placed v).mp (Scheduler.victim_ok hv).1).1
    have hself : s'.request v = (p.sched.request v).preempted :=
      (hp.request v).trans (if_pos rfl)
    refine h.recalls.of_request hvobj hobjects hkeep.changes (fun id hid => ?_) ?_ fun _ => ?_
    · exact (hp.request id).trans (if_neg hid)
    · dsimp only
      rw [hself]
      exact hnamed v hvobj
    · dsimp only
      rw [hself]
      refine hrecalled.congr hsetup ?_ rfl rfl fun hst => nomatch hst
      unfold hashesOf
      rw [hhashes]
      rfl
  | @scheduleRunning rid blocks k hat hpos halloc =>
    have he := (p.withKV k).scheduleRunning_effect rid
      (p.runningDemand C (p.sched.request rid)) blocks
    obtain ⟨hobj, hplace⟩ := (Scheduler.Places.running h.placed rid).mp hat.mem
    obtain ⟨halloc, -⟩ := keepsHashes_allocateSlots halloc
    rw [hnamed rid hobj] at halloc
    have hself := request_congr he.objects rid
    rw [request_modify_self] at hself
    refine h.recalls.of_request hobj hobjects (he.kvCacheManager ▸ halloc.changes)
      (fun id hid => ?_) ?_ fun hq => ?_
    · rw [request_congr he.objects, request_modify_ne hid]
      rfl
    · rw [hself]
      exact (Request.sameInputs_trimDrafts _ _).requestId.trans (hnamed rid hobj)
    · -- a request that is scheduled does not wait
      rw [hself, Request.place_trimDrafts] at hq
      exact absurd (hplace.symm.trans hq) (by decide)
  | recordLoras hl =>
    obtain ⟨loras, rfl⟩ := recordLoras_ok hl
    exact hquiet rfl rfl
  | @resolveStatus rid ready s' hat hres =>
    obtain ⟨hobj, hq⟩ := h.placed.mem_queue hat
    rcases resolveStatus_ok hres with rfl | ⟨hst, n, s₁, hrec, rfl⟩ | ⟨hst, rfl⟩
    · exact hquiet rfl rfl
    · have hk := keepsHashes_cacheBlocks hrec.kvCacheManager
      rw [hnamed rid hobj] at hk
      have hself : (s₁.modify rid fun r => r.withStatus .waiting).request rid =
          ((p.sched.request rid).withComputed n).withStatus .waiting := by
        rw [request_modify_self, request_congr hrec.objects,
          request_modify_self]
      refine h.recalls.of_request hobj hobjects hk.changes (fun id hid => ?_) ?_ fun _ => ?_
      · dsimp only
        rw [request_modify_ne hid, request_congr hrec.objects,
          request_modify_ne hid]
      · exact (congrArg Request.requestId hself).trans (hnamed rid hobj)
      · -- the hashes of the received blocks come behind those of the lookup
        rw [hself]
        have hpre := hk.isPrefix
        rw [← hnamed rid hobj] at hpre
        exact (h.recalls.recalls rid hobj hq).received hst hk.setup hpre rfl rfl
    · refine h.recalls.of_waiting hobjects (.refl _) rfl fun id _ => ?_
      rw [Scheduler.request_modify]
      split
      next heq =>
        subst heq
        exact ⟨rfl, rfl, rfl, fun _ => hq, fun hst => nomatch hst⟩
      next => exact .refl _
  | skip hat hskip =>
    obtain ⟨e, w, sk, -, -, rfl⟩ := skipWaiting_ok hskip
    exact hquiet rfl rfl
  | @lookUp rid ct s' hat hct =>
    obtain ⟨hobj, hq⟩ := h.placed.mem_queue hat
    obtain ⟨k, rfl, ⟨-, rfl, -⟩ | ⟨-, blocks, n, hget, -⟩⟩ := getComputedTokens_ok hct
    · exact hquiet rfl rfl
    · have hk := (keepsHashes_getComputedBlocks hget).1
      rw [hnamed rid hobj] at hk
      exact h.recalls.of_request hobj hobjects hk.changes (fun _ _ => rfl) (hnamed rid hobj)
        fun _ => h.recalls_lookUp hobj hq hget
  | @noSlots rid ct n k hat halloc =>
    obtain ⟨halloc, hsame⟩ := keepsHashes_allocateSlots halloc
    exact h.recalls.of_waiting hobjects halloc.setup (hsame (.inl rfl)) fun _ _ => .refl _
  | @park _ rid ct s₀ d blocks k hat hct hd hasync halloc hp =>
    obtain ⟨hobj, hq⟩ := h.placed.mem_queue hat
    obtain ⟨halloc, hsame⟩ := keepsHashes_allocateSlots halloc
    have hsame : k.reqToBlockHashes = p.sched.kvCacheManager.reqToBlockHashes := hsame (.inr hasync)
    obtain ⟨p₁, hskip, rfl⟩ := parkRemote_ok hp
    obtain ⟨e, w, sk, -, -, rfl⟩ := skipWaiting_ok hskip
    rw [hnamed rid hobj] at halloc
    refine h.recalls.of_request hobj hobjects halloc.changes
      (fun id hid => request_modify_ne hid) ?_ fun _ => ?_
    · dsimp only
      rw [request_modify_self]
      exact hnamed rid hobj
    rw [request_modify_self]
    -- the blocks are looked up before they are loaded
    intro hkind hskips
    have hkind : k.kind.ReadsByIndex := hkind
    rw [halloc.setup.kind] at hkind
    have hskips : k.skipsPrefixCache (p.sched.request rid) = false := hskips
    unfold skipsPrefixCache at hskips
    rw [halloc.setup.enableCaching] at hskips
    have hcovers := h.covers_lookedUp hobj hq hct hasync hkind hskips
    refine .inr (hcovers.extend halloc.setup (?_ : _ <+: k.hashesOf _) rfl)
    unfold hashesOf
    rw [hsame]
    exact List.prefix_rfl
  | @admitWaiting _ rid ct s₀ d blocks k hat hct hd hasync halloc ha =>
    have he := admit_ok ha
    obtain ⟨hobj, -⟩ := h.placed.mem_queue hat
    obtain ⟨halloc, -⟩ := keepsHashes_allocateSlots halloc
    rw [hnamed rid hobj] at halloc
    have hself := request_congr he.objects rid
    rw [request_modify_self] at hself
    refine h.recalls.of_request hobj hobjects (he.kvCacheManager ▸ halloc.changes)
      (fun id hid => ?_) ?_ fun hq => ?_
    · rw [request_congr he.objects, request_modify_ne hid]
      rfl
    · rw [hself]
      exact hnamed rid hobj
    · rw [hself] at hq
      cases hq

/-- A move leaves the manager set up in the same way. -/
theorem Pass.Move.sameSetup (h : Pass.Move H C E p p') :
    p.sched.kvCacheManager.SameSetup p'.sched.kvCacheManager := by
  cases h with
  | passOver => exact .refl _
  | preempt hat hpos halloc hv hs =>
    exact (keepsHashes_allocateSlots halloc).1.setup.trans
      (actsOn_free (Scheduler.preempt_ok hs).kvCacheManager).config.setup
  | @scheduleRunning rid blocks k hat hpos halloc =>
    rw [((p.withKV k).scheduleRunning_effect rid
      (p.runningDemand C (p.sched.request rid)) blocks).kvCacheManager]
    exact (keepsHashes_allocateSlots halloc).1.setup
  | recordLoras hl =>
    obtain ⟨loras, rfl⟩ := recordLoras_ok hl
    exact .refl _
  | resolveStatus hat hres =>
    rcases resolveStatus_ok hres with rfl | ⟨-, n, s₁, hrec, rfl⟩ | ⟨-, rfl⟩
    · exact .refl _
    · exact (keepsHashes_cacheBlocks hrec.kvCacheManager).setup
    · exact .refl _
  | skip hat hskip =>
    obtain ⟨e, w, sk, -, -, rfl⟩ := skipWaiting_ok hskip
    exact .refl _
  | lookUp hat hct =>
    obtain ⟨k, rfl, ⟨-, rfl, -⟩ | ⟨-, blocks, n, hget, -⟩⟩ := getComputedTokens_ok hct
    · exact .refl _
    · exact (keepsHashes_getComputedBlocks hget).1.setup
  | noSlots hat halloc => exact (keepsHashes_allocateSlots halloc).1.setup
  | park hat hct hd hasync halloc hp =>
    obtain ⟨p₁, hskip, rfl⟩ := parkRemote_ok hp
    obtain ⟨e, w, sk, -, -, rfl⟩ := skipWaiting_ok hskip
    exact (keepsHashes_allocateSlots halloc).1.setup
  | admitWaiting hat hct hd hasync halloc ha =>
    rw [(admit_ok ha).kvCacheManager]
    exact (keepsHashes_allocateSlots halloc).1.setup

/-- **At any time in a step** the waiting requests are remembered, if the victims are. -/
theorem Pass.Recalls.of_moves (hplaces : s.Places s.running s.waiting.ids) (h : s.Recalls)
    (hL : ∀ e ∈ L, e.Recalled) (hm : (Pass.start C s).Moves H C E L p) : p.Recalls s := by
  induction hm with
  | refl => exact ⟨placed_start hplaces, .refl s, h⟩
  | tail _ hmove ih => exact ih.move hmove hL

/-- **A step** keeps the waiting requests remembered. -/
theorem schedule_recalls (hplaces : s.Places s.running s.waiting.ids) (h : s.Recalls)
    (hvictims : ∀ e ∈ s.preemptions H C, e.Recalled) {output : SchedulerOutput} {s' : Scheduler}
    (hobj : ∀ id, id ∈ s'.objects ↔ id ∈ s.objects)
    (hs : s.schedule H C E = .ok (output, s')) : s'.Recalls := by
  obtain ⟨p, hsch⟩ := schedule_ok hs
  obtain ⟨p₁, htrace, hrestore⟩ := schedulePass_trace hplaces.nodupR hsch.pass
  have hmoves := htrace.moves
  obtain ⟨w, rfl, -⟩ := restoreSkipped_ok hrestore
  have hp := Pass.Recalls.of_moves hplaces h hvictims hmoves
  refine Scheduler.Recalls.of_waiting hp.recalls (fun id => ?_) ?_ ?_ fun id _ => ?_
  · rw [hobj id]
    exact (hp.keeps.mem_objects id).symm
  · rw [hsch.kvCacheManager]
    exact ⟨rfl, rfl, rfl, rfl⟩
  · rw [hsch.kvCacheManager]
    exact KVCacheManager.reqToBlockHashes_takeEvents _
  · -- what is scheduled counts as computed; the tokens are the same
    obtain ⟨n, hreq, -⟩ := hsch.advances.request id
    rw [hreq]
    exact ⟨rfl, rfl, rfl, fun hq => hq, fun hst => hst⟩

end Step

/-! ## The tokens of a result -/

section Update

variable {H : BlockHasher} {C : SchedulerConfig} {E : Environment} {m : ModelRunnerOutput}
  {output : SchedulerOutput} {s s' : Scheduler} {u u' : UpdatePass} {rid : ReqId} {index : Nat}
  {stopped : Bool} {generated appended : List TokenId}

/-- A request that ends is forgotten. -/
theorem freeBlocks_changesHashes (h : s.freeBlocks rid = .ok s') :
    KVCacheManager.ChangesHashes rid s.kvCacheManager s'.kvCacheManager := by
  obtain ⟨_, -, h⟩ := bind_eq_ok.mp h
  obtain ⟨k, hk, h⟩ := bind_eq_ok.mp h
  obtain ⟨_, -, h⟩ := bind_eq_ok.mp h
  cases h
  have hfree : KVCacheManager.KeepsHashes rid s.kvCacheManager k :=
    .of_eq (actsOn_free hk).config.setup (KVCacheManager.reqToBlockHashes_free hk)
  exact hfree.changes.trans ⟨⟨rfl, rfl, rfl, rfl⟩, fun id hid =>
    KVCacheManager.hashesOf_freeBlockHashes hid⟩

theorem freeRequest_changesHashes {params : Option KVTransferParams}
    (h : s.freeRequest C E rid = .ok (params, s')) :
    KVCacheManager.ChangesHashes rid s.kvCacheManager s'.kvCacheManager := by
  obtain ⟨_, -, h⟩ := bind_eq_ok.mp h
  obtain ⟨⟨delay, params', s₁⟩, hconn, h⟩ := bind_eq_ok.mp h
  obtain ⟨-, rfl⟩ := connectorFinished_ok hconn
  cases delay with
  | true =>
    cases h
    exact ⟨.refl _, fun _ _ => rfl⟩
  | false =>
    obtain ⟨s₂, hfree, h⟩ := bind_eq_ok.mp h
    cases h
    have hfreed := freeBlocks_changesHashes hfree
    exact hfreed

/-- The blocks that the tokens complete are cached for a running request only. -/
theorem appendGenerated_hashes (hname : (s.request rid).requestId = rid)
    (h : s.appendGenerated H C rid generated = .ok (s', appended, stopped)) :
    KVCacheManager.ChangesHashes rid s.kvCacheManager s'.kvCacheManager ∧
      ((s.request rid).status ≠ .running → s'.kvCacheManager = s.kvCacheManager) := by
  have hrefl : KVCacheManager.ChangesHashes rid s.kvCacheManager s.kvCacheManager :=
    ⟨.refl _, fun _ _ => rfl⟩
  unfold Scheduler.appendGenerated at h
  split at h
  next =>
    obtain ⟨rfl, -, -⟩ := triple_of_ok h
    exact ⟨hrefl, fun _ => rfl⟩
  next hne =>
    obtain ⟨⟨r, ap, st⟩, hup, h⟩ := bind_eq_ok.mp h
    cases hasync : C.asyncScheduling with
    | false =>
      simp only [hasync, Bool.false_eq_true, if_false] at h
      obtain ⟨rfl, -, -⟩ := triple_of_ok h
      exact ⟨hrefl, fun _ => rfl⟩
    | true =>
      simp only [hasync, if_true] at h
      obtain ⟨_, -, h⟩ := bind_eq_ok.mp h
      split at h
      next hst =>
        obtain ⟨k, hk, h⟩ := bind_eq_ok.mp h
        obtain ⟨rfl, -, -⟩ := triple_of_ok h
        have hr : (r.addPlaceholders (-ap.length)).requestId = rid :=
          (Request.takesTokens_of_updateWithOutput (C := C) hup).requestId.trans hname
        have hkeeps := keepsHashes_cacheBlocks hk
        rw [hr] at hkeeps
        exact ⟨hkeeps.changes, fun hnot => absurd hst hnot⟩
      next =>
        obtain ⟨rfl, -, -⟩ := triple_of_ok h
        exact ⟨hrefl, fun _ => rfl⟩

/-- Without a stop, the tokens are appended as they are. -/
theorem appendGenerated_unstopped
    (h : s.appendGenerated H C rid generated = .ok (s', appended, false)) :
    ∃ r, (s.request rid).updateWithOutput C.maxModelLen generated = .ok (r, generated, false) := by
  unfold Scheduler.appendGenerated at h
  split at h
  next hnil =>
    rw [hnil]
    exact ⟨_, rfl⟩
  next =>
    obtain ⟨⟨r, ap, st⟩, hup, h⟩ := bind_eq_ok.mp h
    have hst : st = false := by
      dsimp only at h
      split at h
      · obtain ⟨_, -, h⟩ := bind_eq_ok.mp h
        split at h
        · obtain ⟨k, -, h⟩ := bind_eq_ok.mp h
          exact (Prod.mk.inj (Prod.mk.inj (pure_eq_ok.mp h)).2).2
        · exact (Prod.mk.inj (Prod.mk.inj (pure_eq_ok.mp h)).2).2
      · exact (Prod.mk.inj (Prod.mk.inj (pure_eq_ok.mp h)).2).2
    subst hst
    rcases Request.updateWithOutput_ok hup with ⟨-, rfl, -⟩ | ⟨hstop, -⟩
    · exact ⟨r, hup⟩
    · cases hstop

theorem checkPooler_unstopped {st : Bool} {pooler : Option (List Int)}
    (hs : st = true → (s.request rid).StopsOnTokens C.maxModelLen)
    (h : s.checkPooler C m rid index st = .ok (s', pooler, false)) : st = false := by
  unfold Scheduler.checkPooler at h
  split at h
  · exact (Prod.mk.inj (Prod.mk.inj (Except.ok.inj h)).2).2
  · split at h
    · simp at h
    · obtain ⟨⟨st', r⟩, hcheck, h⟩ := bind_eq_ok.mp h
      cases h
      cases st with
      | false => rfl
      | true => exact absurd ((hs rfl).checkStop hcheck) (by decide)

/-- **The tokens of one request**: the manager changes for a running request, and for one that stops. One
that waits, and goes on waiting, gets the tokens only. -/
theorem applyTokens_hashes (hname : (u.sched.request rid).requestId = rid)
    (h : u.applyTokens H C E m rid index generated = .ok u') :
    KVCacheManager.ChangesHashes rid u.sched.kvCacheManager u'.sched.kvCacheManager ∧
      ((u.sched.request rid).place = .queue → (u'.sched.request rid).place = .queue →
        u'.sched.kvCacheManager = u.sched.kvCacheManager ∧
        ∃ r, (u.sched.request rid).updateWithOutput C.maxModelLen generated =
          .ok (r, generated, false)) := by
  obtain ⟨⟨s₁, appended, st⟩, happ, h⟩ := bind_eq_ok.mp h
  obtain ⟨⟨s₂, pooler, stopped⟩, hpool, h⟩ := bind_eq_ok.mp h
  obtain ⟨⟨params, u₁⟩, hfree, h⟩ := bind_eq_ok.mp h
  obtain ⟨s₄, hdrafts, h⟩ := bind_eq_ok.mp h
  obtain ⟨happend, hnot⟩ := appendGenerated_hashes hname happ
  have hunstopped : stopped = false → st = false := by
    rintro rfl
    exact checkPooler_unstopped (appendGenerated_ok happ).2.2 hpool
  have hpool := checkPooler_kvCacheManager hpool
  obtain ⟨n, hnans⟩ := (recordNans_touches u₁.sched m rid).2
  obtain ⟨l, hspec⟩ := (assignDrafts_ok hdrafts).2
  have hend : u'.sched.kvCacheManager = u₁.sched.kvCacheManager := by
    rw [(emitOutput_ok h).1]
    exact (assignDrafts_kvCacheManager hdrafts).trans (recordNans_kvCacheManager _ m rid)
  have hstatus : (u'.sched.request rid).status = (u₁.sched.request rid).status := by
    rw [(emitOutput_ok h).1]
    rw [hspec, hnans]
  rw [hend]
  unfold UpdatePass.freeStopped at hfree
  split at hfree
  next =>
    obtain ⟨⟨params', s₃⟩, hreq, hfree⟩ := bind_eq_ok.mp hfree
    obtain ⟨-, hu₁⟩ := pair_of_ok hfree
    have hsched : u₁.sched = s₃ := by
      rw [← hu₁]
      split <;> rfl
    obtain ⟨delay, hf⟩ := freeRequest_ok hreq
    rw [hsched] at hstatus ⊢
    refine ⟨happend.trans (hpool ▸ freeRequest_changesHashes hreq), fun _ hq => ?_⟩
    -- a request that stops does not wait any more
    have hfin : (s₃.request rid).isFinished = true := by
      rw [request_congr hf.objects]
      exact hf.finished
    have hnone := Request.place_of_finished hfin
    unfold Request.place at hq hnone
    rw [hstatus, hnone] at hq
    cases hq
  next hstop =>
    cases hfree
    rw [hpool]
    refine ⟨happend, fun hq _ => ⟨hnot fun hrun => ?_, ?_⟩⟩
    · unfold Request.place at hq
      rw [hrun] at hq
      cases hq
    · obtain rfl := hunstopped (Bool.not_eq_true _ ▸ hstop)
      exact appendGenerated_unstopped happ

/-- **The tokens of one request** keep the waiting requests remembered, if it is remembered with them. -/
theorem Scheduler.Recalls.applyTokens (h : u.sched.Recalls) (hrid : rid ∈ u.sched.objects)
    (hwait : (u.sched.request rid).place = .queue → ∀ r,
      (u.sched.request rid).updateWithOutput C.maxModelLen generated = .ok (r, generated, false) →
        u.sched.kvCacheManager.Recalls r)
    (hstep : u.applyTokens H C E m rid index generated = .ok u') : u'.sched.Recalls := by
  have hname := h.named rid hrid
  obtain ⟨appended, stopped, ha⟩ := applyTokens_ok hrid hstep
  obtain ⟨hk, hsame⟩ := applyTokens_hashes hname hstep
  have hid : (u'.sched.request rid).requestId = rid := ha.request.requestId.trans hname
  refine h.of_request hrid (fun id => ⟨fun hmem => ?_, ha.objects_mem id⟩) hk ha.others hid
    fun hq => ?_
  · exact (ha.mem_objects id hmem).elim (fun heq => heq ▸ hrid) fun h => h
  · -- a request that still waits has not stopped
    have hstopped : stopped = false := by
      cases stopped with
      | false => rfl
      | true =>
        have hnone := Request.place_of_finished (ha.request.finished rfl)
        rw [hq] at hnone
        cases hnone
    have hstatus := ha.request.status hstopped
    have hplace : (u.sched.request rid).place = .queue := by
      unfold Request.place at hq ⊢
      rwa [hstatus] at hq
    obtain ⟨hkv, r, hr⟩ := hsame hplace hq
    have happend : r = (u.sched.request rid).appendOutputTokenIds generated := by
      rcases Request.updateWithOutput_ok hr with ⟨-, -, hr, -⟩ | ⟨hstop, -⟩
      · exact hr
      · cases hstop
    have hrecalls := hwait hplace r hr
    rw [happend] at hrecalls
    rw [hkv]
    refine hrecalls.congr (.refl _) ?_ ?_ ha.request.samplingParams fun hst => ?_
    · rw [hid]
      exact congrArg _ hname.symm
    · unfold Request.numTokens Request.allTokenIds
      rw [ha.request.promptTokenIds, ha.request.outputTokenIds, ha.request.complete hstopped]
      rfl
    · exact hstatus.symm.trans hst

/-- **The late tokens of the waiting requests**: if a result brings tokens to a waiting request, and they do
not stop it, it is remembered well enough with them. -/
def Scheduler.ReturnsRecalled (C : SchedulerConfig) (s : Scheduler) (output : SchedulerOutput)
    (m : ModelRunnerOutput) : Prop :=
  ∀ id ∈ output.numScheduledTokens.keys, id ∈ s.requests → (s.request id).place = .queue →
    ∀ index ∈ m.reqIdToIndex.get? id, ∀ generated ∈ (m.generated index).toOption,
      ∀ res ∈ (((s.request id).rejectDrafts (output.scheduledSpecDecodeTokens.getD id [])
        generated).updateWithOutput C.maxModelLen generated).toOption,
        res.2.2 = false → s.kvCacheManager.Recalls res.1

/-- In the middle of the loop over the results: the requests to come are as they were. -/
structure UpdatePass.Recalls (s : Scheduler) (rest : List (ReqId × Int)) (u : UpdatePass) :
    Prop where
  nodup : (rest.map Prod.fst).Nodup
  requests : ∀ id ∈ u.sched.requests, id ∈ s.requests
  mem_objects : ∀ id ∈ s.requests, id ∈ u.sched.objects
  setup : s.kvCacheManager.SameSetup u.sched.kvCacheManager
  before : ∀ id ∈ rest.map Prod.fst, u.sched.request id = s.request id ∧
    u.sched.kvCacheManager.hashesOf id = s.kvCacheManager.hashesOf id
  recalls : u.sched.Recalls

/-- **One round of the loop.** -/
theorem UpdatePass.Recalls.updateRequest {e : ReqId × Int} {rest : List (ReqId × Int)}
    (h : u.Recalls s (e :: rest)) (hreturns : s.ReturnsRecalled C output m)
    (hkey : e.1 ∈ output.numScheduledTokens.keys)
    (hstep : UpdatePass.updateRequest H C E output m e u = .ok u') : u'.Recalls s rest := by
  obtain ⟨hnot, hnd⟩ := List.nodup_cons.mp h.nodup
  obtain ⟨_, -, hstep⟩ := bind_eq_ok.mp hstep
  split at hstep
  next =>
    cases hstep
    exact ⟨hnd, h.requests, h.mem_objects, h.setup,
      fun id hid => h.before id (List.mem_cons_of_mem _ hid), h.recalls⟩
  next hmem =>
  have hmem := not_not.mp hmem
  split at hstep
  next => simp at hstep
  next index hindex =>
  obtain ⟨generated, hgen, hstep⟩ := bind_eq_ok.mp hstep
  have hrid := h.mem_objects e.1 (h.requests e.1 hmem)
  obtain ⟨hreq, hhashes⟩ := h.before e.1 List.mem_cons_self
  have hreject : ∀ id, (u.sched.request id).WaitsAs ((u.sched.modify e.1 fun r =>
      r.rejectDrafts (output.scheduledSpecDecodeTokens.getD e.1 []) generated).request id) := by
    intro id
    rw [Scheduler.request_modify]
    split
    next heq =>
      rw [heq]
      unfold Request.rejectDrafts
      split <;> exact ⟨rfl, rfl, rfl, fun hq => hq, fun hst => hst⟩
    next => exact .refl _
  have hobj : ∀ id, id ∈ (u.sched.modify e.1 fun r => r.rejectDrafts
      (output.scheduledSpecDecodeTokens.getD e.1 []) generated).objects ↔ id ∈ u.sched.objects :=
    fun id => by
      rw [Scheduler.mem_objects_modify, or_iff_right_of_imp]
      exact fun heq => heq ▸ hrid
  have hrejected := h.recalls.of_waiting hobj (.refl _) rfl fun id _ => hreject id
  have hrid' := (hobj e.1).mpr hrid
  obtain ⟨appended, stopped, ha⟩ := applyTokens_ok hrid' hstep
  obtain ⟨hk, -⟩ := applyTokens_hashes (hrejected.named e.1 hrid') hstep
  refine ⟨hnd, fun id hid => ?_, fun id hid => ?_, h.setup.trans hk.setup, fun id hid => ?_, ?_⟩
  · exact h.requests id (ha.records.kept hid).1
  · exact ha.objects_mem id ((hobj id).mpr (h.mem_objects id hid))
  · have hne : id ≠ e.1 := fun heq => hnot (heq ▸ hid)
    obtain ⟨hreq, hhashes⟩ := h.before id (List.mem_cons_of_mem _ hid)
    refine ⟨?_, (hk.others id hne).trans hhashes⟩
    rw [ha.others id hne]
    exact (request_modify_ne hne).trans hreq
  · refine hrejected.applyTokens hrid' (fun hq r hr => ?_) hstep
    have hr' := (Request.takesTokens_of_updateWithOutput (C := C) hr).requestId.trans
      (hrejected.named e.1 hrid')
    rw [request_modify_self, hreq] at hq hr
    have hplace := (Request.place_rejectDrafts (s.request e.1)
      (output.scheduledSpecDecodeTokens.getD e.1 []) generated).2.symm.trans hq
    have hrecalled := hreturns e.1 hkey (h.requests e.1 hmem) hplace index hindex generated
      (toOption_eq_some.mpr hgen) (r, generated, false) (toOption_eq_some.mpr hr) rfl
    refine hrecalled.congr h.setup ?_ rfl rfl fun hst => hst
    rw [hr']
    exact hhashes

/-- A finished request is freed. -/
theorem Scheduler.Recalls.of_finished (h : s.Recalls) (hrid : rid ∈ s.objects)
    (hfin : (s.request rid).isFinished = true) (hobj : s'.objects = s.objects)
    (hk : KVCacheManager.ChangesHashes rid s.kvCacheManager s'.kvCacheManager) : s'.Recalls := by
  have hreq := request_congr hobj
  refine h.of_request hrid (fun id => by rw [hobj]) hk (fun id _ => hreq id) ?_ fun hq => ?_
  · rw [hreq rid]
    exact h.named rid hrid
  · rw [hreq rid, Request.place_of_finished hfin] at hq
    cases hq

theorem freeRequest_recalls {params : Option KVTransferParams} (h : s.Recalls)
    (hrid : rid ∈ s.objects) (hfree : s.freeRequest C E rid = .ok (params, s')) : s'.Recalls := by
  obtain ⟨delay, hf⟩ := freeRequest_ok hfree
  exact h.of_finished hrid hf.finished hf.objects (freeRequest_changesHashes hfree)

/-- **A result** keeps the waiting requests remembered. -/
theorem updateFromOutput_recalls {ecos : Dict Nat EngineCoreOutputs} (h : s.Recalls)
    (hplaces : s.Places s.running s.waiting.ids) (hacc : s.Accounts)
    (hreturns : s.ReturnsRecalled C output m)
    (hup : s.updateFromOutput H C E output m = .ok (ecos, s')) : s'.Recalls := by
  obtain ⟨u, hloop, hup⟩ := bind_eq_ok.mp hup
  obtain ⟨s₁, hstop, hup⟩ := bind_eq_ok.mp hup
  obtain ⟨s₂, hsent, hup⟩ := bind_eq_ok.mp hup
  have heco : s₂.engineCoreOutputs u.outputs = (ecos, s') := pure_eq_ok.mp hup
  have hstart : UpdatePass.Recalls s output.numScheduledTokens.entries { sched := s } :=
    ⟨output.numScheduledTokens.nodup, fun _ hid => hid, hacc.mem_objects, .refl _,
      fun _ _ => ⟨rfl, rfl⟩, h⟩
  have hend := threadM_invariant (I := fun rest (u : UpdatePass) =>
      (∀ e ∈ rest, e.1 ∈ output.numScheduledTokens.keys) ∧ u.Recalls s rest)
    (fun e rest u u' hI hstep => ⟨fun e' he' => hI.1 e' (List.mem_cons_of_mem _ he'),
      hI.2.updateRequest hreturns (hI.1 e List.mem_cons_self) hstep⟩)
    ⟨fun e he => Dict.mem_entries_fst he, hstart⟩ hloop
  have hu := hend.2.recalls
  have hmem := (updateLoop_places hplaces hacc hloop).2.1.mem_objects
  obtain ⟨w, rfl, -⟩ := removeWaiting_ok hstop
  obtain ⟨⟨d, rfl⟩, -⟩ := engineCoreOutputs_ok heco
  have hsent₂ : s₂.Recalls ∧ ∀ id ∈ s₂.requests, id ∈ s₂.objects := by
    refine threadM_invariant (I := fun _ (t : Scheduler) =>
      t.Recalls ∧ ∀ id ∈ t.requests, id ∈ t.objects) (fun id l t t' ht ht' => ?_) ?_ hsent
    · obtain ⟨_, -, ht'⟩ := bind_eq_ok.mp ht'
      have hf := freeBlocks_ok ht'
      refine ⟨ht.1.of_finished (ht.2 id hf.mem) hf.finished hf.objects
        (freeBlocks_changesHashes ht'), fun id' hid' => ?_⟩
      rw [hf.requests] at hid'
      rw [hf.objects]
      exact ht.2 id' (List.mem_of_mem_filter hid')
    · exact ⟨⟨hu.named, hu.fresh, hu.recalls⟩, hmem⟩
  exact ⟨hsent₂.1.named, hsent₂.1.fresh, hsent₂.1.recalls⟩

/-- **Requests that are finished from outside** do not wait any more. -/
theorem finishRequests_recalls {ids : List ReqId} {status : RequestStatus} (h : s.Recalls)
    (hn : s.running.Nodup) (hmem : ∀ id ∈ s.requests, id ∈ s.objects)
    (hfin : s.finishRequests C E ids status = .ok s') : s'.Recalls := by
  obtain ⟨hst, valid, -, hvalid, w, -, hloop⟩ := finishRequests_ok hn hfin
  have hend := threadM_invariant (I := fun rest (t : Scheduler) =>
      t.Recalls ∧ ∀ id ∈ rest, id ∈ t.objects) ?_ ?_ hloop
  · exact hend.1
  · rintro rid rest t t' ⟨ht, hrest⟩ hround
    have hobj : ∀ id, id ∈ (t.modify rid fun r => r.withStatus status).objects ↔ id ∈ t.objects :=
      fun id => by
        rw [Scheduler.mem_objects_modify, or_iff_right_of_imp]
        exact fun heq => heq ▸ hrest rid List.mem_cons_self
    obtain ⟨⟨params, t₁⟩, hfree, hround⟩ := bind_eq_ok.mp hround
    cases hround
    have hrid := hrest rid List.mem_cons_self
    have hended : (t.modify rid fun r => r.withStatus status).Recalls := by
      refine ht.of_request hrid hobj ⟨.refl _, fun _ _ => rfl⟩
        (fun id hid => request_modify_ne hid) ?_ fun hq => ?_
      · rw [request_modify_self]
        exact ht.named rid hrid
      · rw [request_modify_self] at hq
        have hnone : ((t.request rid).withStatus status).place = .none :=
          RequestStatus.place_eq_none.mpr hst
        rw [hq] at hnone
        cases hnone
    obtain ⟨delay, hf⟩ := freeRequest_ok hfree
    refine ⟨freeRequest_recalls hended ((hobj rid).mpr hrid) hfree, fun id hid => ?_⟩
    rw [hf.objects]
    exact (hobj id).mpr (hrest id (List.mem_cons_of_mem _ hid))
  · exact ⟨⟨h.named, h.fresh, h.recalls⟩, fun id hid => hmem id ((hvalid id).mp hid).2⟩

end Update

/-! ## Whole runs -/

/-- **The condition on the calls.** A request comes with a token, and with a hash for each item. A
victim is remembered well enough when it is preempted, and a waiting request with the tokens of a late
result. -/
def RecallsWaiting (H : BlockHasher) (C : SchedulerConfig) (s : Engine) : EngineOp → Prop
  | .addRequest r => r.Hashable
  | .schedule _ => ∀ e ∈ s.sched.preemptions H C, e.Recalled
  | .updateFromOutput _ m => ∀ output ∈ s.inFlight.head?, s.sched.ReturnsRecalled C output m
  | .finishRequests .. => True

instance (H : BlockHasher) (C : SchedulerConfig) (s : Engine) (op : EngineOp) :
    Decidable (RecallsWaiting H C s op) := by
  refine op.casesOn ?_ ?_ ?_ ?_ <;> intros <;> unfold RecallsWaiting <;> unfold Scheduler.ReturnsRecalled <;> infer_instance

/-- The groups of chunked local attention are not used with an EAGLE head. -/
def SchedulerConfig.EagleFits (C : SchedulerConfig) : Prop :=
  ∀ g ∈ C.kvCacheConfig.kvCacheGroups, g.isChunkedLocal = true → C.useEagle = false

/-- **The invariant** between the calls. -/
structure Engine.Recalls (s : Engine) : Prop where
  placed : s.Placed
  uniform : s.sched.kvCacheManager.kind.Uniform s.sched.kvCacheManager.blockSize
    s.sched.kvCacheManager.useEagle
  hashable : ∀ id ∈ s.sched.objects, (s.sched.request id).Hashable
  recalls : s.sched.Recalls

section Runs

variable {H : BlockHasher} {C : SchedulerConfig} {E : Environment} {s s' : Engine} {s₀ : Scheduler}

/-- The coordinator of a new manager has one block size. -/
theorem KVCacheManager.uniform_init {config : KVCacheConfig} {maxModelLen : Nat}
    {enableCaching useEagle events : Bool} {k : KVCacheManager}
    (heagle : ∀ g ∈ config.kvCacheGroups, g.isChunkedLocal = true → useEagle = false)
    (h : KVCacheManager.init config maxModelLen enableCaching useEagle events = .ok k) :
    k.kind.Uniform k.blockSize k.useEagle ∧ k.reqToBlockHashes = ∅ := by
  obtain ⟨_, hsize, h⟩ := bind_eq_ok.mp h
  obtain ⟨kind, hkind, h⟩ := bind_eq_ok.mp h
  obtain ⟨pool, -, h⟩ := bind_eq_ok.mp h
  cases h
  refine ⟨?_, rfl⟩
  have hsize := require_eq_ok.mp hsize
  unfold getKVCacheCoordinator at hkind
  split at hkind
  next =>
    cases hkind
    trivial
  next hcaching =>
    have hsize := hsize (by simpa using hcaching)
    split at hkind
    next g hgroups =>
      cases hkind
      have hmem : g ∈ config.kvCacheGroups := hgroups ▸ List.mem_singleton_self g
      exact ⟨hsize g hmem, heagle g hmem⟩
    next =>
      cases kind with
      | noPrefixCache => trivial
      | unitary spec =>
        unfold verifyAndSplitKVCacheGroups at hkind
        dsimp only at hkind
        split at hkind
        · obtain ⟨_, -, hkind⟩ := bind_eq_ok.mp hkind
          obtain ⟨_, -, hkind⟩ := bind_eq_ok.mp hkind
          split_ifs at hkind <;> cases hkind
        · cases hkind
      | hybrid fullIds otherIds full other first =>
        have hsplit := hybridSplit_of_verify hkind
        exact ⟨hsplit.mem_full.2, hsize full hsplit.mem_full.1, hsize other hsplit.mem_other.1,
          heagle other hsplit.mem_other.1⟩

theorem Engine.recalls_init (heagle : C.EagleFits) (h : Scheduler.init C = .ok s₀) :
    Engine.Recalls { sched := s₀ } := by
  have hplaced := Engine.placed_init h
  obtain ⟨huniform, hempty⟩ := KVCacheManager.uniform_init heagle (Scheduler.init_manager h).2
  have hnone : ∀ id, id ∉ s₀.objects := fun id hid =>
    absurd ((hplaced.added id).mp hid) List.not_mem_nil
  refine ⟨hplaced, huniform, fun id hid => absurd hid (hnone id), ⟨fun id hid => absurd hid (hnone id),
    fun id _ => ?_, fun id hid => absurd hid (hnone id)⟩⟩
  unfold hashesOf
  rw [hempty]
  rfl

theorem Request.SameInputs.hashable {r r' : Request} (h : r.SameInputs r') (hr : r.Hashable) :
    r'.Hashable :=
  ⟨by rw [h.promptTokenIds]; exact hr.nonempty, by rw [h.mmPositions, h.mmHashes]; exact hr.items⟩

/-- An arriving request has no hashes yet. -/
theorem addRequest_recalls {s s' : Scheduler} {r : Request} (h : s.Recalls)
    (hnew : r.requestId ∉ s.objects) (hadd : s.addRequest r.new = .ok s')
    (hk : s'.kvCacheManager = s.kvCacheManager) : s'.Recalls := by
  have ha := addRequest_ok hadd
  have hreq := ha.request
  have hmem : ∀ id, id ∈ s'.objects ↔ id = r.requestId ∨ id ∈ s.objects := fun id => by
    rw [ha.objects, Dict.mem_set]
    rfl
  refine ⟨fun id hid => ?_, fun id hid => ?_, fun id hid hq => ?_⟩
  · rw [hreq]
    split
    next heq => exact heq.symm
    next hne => exact h.named id (((hmem id).mp hid).resolve_left hne)
  · rw [hk]
    exact h.fresh id fun hold => hid ((hmem id).mpr (.inr hold))
  · rw [hreq] at hq ⊢
    split at hq
    next heq =>
      rw [if_pos heq, hk]
      intro _ _
      refine .inl ⟨h.fresh _ hnew, ?_⟩
      unfold Request.new
      split <;> exact fun hst => nomatch hst
    next hne =>
      rw [if_neg hne, hk]
      exact h.recalls id (((hmem id).mp hid).resolve_left hne) hq

/-- **A call** keeps the waiting requests remembered. -/
theorem Engine.Recalls.step (h : s.Recalls) {op : EngineOp} (hfresh : FreshIds s op)
    (hok : RecallsWaiting H C s op) (hstep : s.step H C op = .ok s') : s'.Recalls := by
  have hsetup := Engine.sameSetup_step h.placed.places.nodupR hstep
  have hplaced := h.placed.step hfresh hstep
  have huniform : s'.sched.kvCacheManager.kind.Uniform s'.sched.kvCacheManager.blockSize
      s'.sched.kvCacheManager.useEagle := by
    rw [hsetup.kind, hsetup.blockSize, hsetup.useEagle]
    exact h.uniform
  suffices hall : (∀ id ∈ s'.sched.objects, (s'.sched.request id).Hashable) ∧ s'.sched.Recalls from
    ⟨hplaced, huniform, hall.1, hall.2⟩
  have hsame : (∀ id, id ∈ s'.sched.objects ↔ id ∈ s.sched.objects) →
      s.sched.SameInputs s'.sched → ∀ id ∈ s'.sched.objects, (s'.sched.request id).Hashable :=
    fun hobj hinputs id hid => (hinputs id).hashable (h.hashable id ((hobj id).mp hid))
  have hobj : (∀ r, op ≠ .addRequest r) → ∀ id, id ∈ s'.sched.objects ↔ id ∈ s.sched.objects :=
    fun hop id => by
      rw [hplaced.added, h.placed.added]
      cases Engine.step_cases hstep with
      | addRequest => exact absurd rfl (hop _)
      | schedule | updateFromOutput | finishRequests => exact Iff.rfl
  cases Engine.step_cases hstep with
  | @addRequest r sched hadd =>
    have hnew : r.requestId ∉ s.sched.objects := fun hid =>
      hfresh ((h.placed.added _).mp hid)
    have ha := addRequest_ok hadd
    refine ⟨fun id hid => ?_, addRequest_recalls h.recalls hnew hadd ?_⟩
    · rw [ha.request]
      split
      next => exact ⟨hok.nonempty, hok.items⟩
      next hne =>
        refine h.hashable id ?_
        have hid : id ∈ sched.objects := hid
        rw [ha.objects, Dict.mem_set] at hid
        exact hid.resolve_left hne
    · obtain ⟨w, -, hadd⟩ := bind_eq_ok.mp hadd
      rw [← pure_eq_ok.mp hadd]
  | schedule hsched =>
    have hobj := hobj fun _ h => nomatch h
    exact ⟨hsame hobj ((schedule_handsOut h.placed.places.nodupR hsched).1),
      schedule_recalls h.placed.places h.recalls hok hobj hsched⟩
  | @updateFromOutput _ _ output _ _ _ hin hup =>
    have hobj := hobj fun _ h => nomatch h
    exact ⟨hsame hobj (updateFromOutput_sameInputs hup).1,
      updateFromOutput_recalls h.recalls h.placed.places h.placed.accounts
        (hok output (by rw [hin]; rfl)) hup⟩
  | finishRequests hfin =>
    have hobj := hobj fun _ h => nomatch h
    have hn := h.placed.places.nodupR
    exact ⟨hsame hobj (finishRequests_sameInputs hn hfin).1,
      finishRequests_recalls h.recalls hn h.placed.accounts.mem_objects hfin⟩

/-- **Every lookup for a waiting request returns**: in every run whose calls keep the waiting requests
remembered, between the calls and at any time in a step that does. -/
theorem lookups_return_of_reach (heagle : C.EagleFits) (hinit : Scheduler.init C = .ok s₀)
    (hs : (engineMachine H C s₀).Reach (fun s op => FreshIds s op ∧ RecallsWaiting H C s op) s)
    (hstep : RecallsWaiting H C s (.schedule E)) {p : Pass}
    (hp : (Pass.start C s.sched).Moves H C E (s.sched.preemptions H C) p) {id : ReqId}
    (hid : id ∈ p.sched.objects) (hq : (p.sched.request id).place = .queue) :
    ∃ res, p.sched.kvCacheManager.getComputedBlocks H (p.sched.request id) = .ok res := by
  have h := hs.invariant (I := Engine.Recalls) (Engine.recalls_init heagle hinit)
    fun _ _ _ hI hok hstep => hI.step hok.1 hok.2 hstep
  have hpass := Pass.Recalls.of_moves h.placed.places h.recalls hstep hp
  have hinputs : s.sched.SameInputs p.sched := by
    refine Pass.HandsOut.sameInputs (hp.invariant ?_ fun p p' hI hm => hI.move hm.move)
    exact ⟨.refl _, fun _ => List.prefix_rfl, fun id hid => absurd hid (Dict.notMem_empty id),
      fun id hid => absurd hid (Dict.notMem_empty id), fun id drafts hid => by simp [Pass.start] at hid⟩
  have hsetup : s.sched.kvCacheManager.SameSetup p.sched.kvCacheManager :=
    hp.invariant (I := fun p => s.sched.kvCacheManager.SameSetup p.sched.kvCacheManager) (.refl _)
      fun _ _ hI hm => hI.trans hm.move.sameSetup
  refine KVCacheManager.getComputedBlocks_returns ?_ ?_ (hpass.recalls.recalls id hid hq).remembers
  · rw [hsetup.kind, hsetup.blockSize, hsetup.useEagle]
    exact h.uniform
  · exact (hinputs id).hashable (h.hashable id ((hpass.keeps.mem_objects id).mp hid))

/-- A group of sliding window attention: windows of four tokens, in blocks of two. -/
def slidingConfig (numBlocks : Nat) : SchedulerConfig :=
  { pairConfig numBlocks 40 with
    kvCacheConfig :=
      { numBlocks
        kvCacheGroups := [.slidingWindow 2 ⟨1, 1, "float16", false⟩ 4]
        blockSize_pos := by simp [KVCacheSpec.blockSize] } }

/-- **A request that was preempted without drafts**: its blocks were hashed as they were allocated. -/
theorem lookups_return_preempted :
    ∃ s₀ s, Scheduler.init (slidingConfig 4) = .ok s₀ ∧
      (engineMachine .encoding (slidingConfig 4) s₀).Reach
        (fun s op => FreshIds s op ∧ RecallsWaiting .encoding (slidingConfig 4) s op) s ∧
      s.sched.waiting.ids = [2] ∧ (s.sched.request 2).numTokens = 3 ∧
      ∃ res, s.sched.kvCacheManager.getComputedBlocks .encoding (s.sched.request 2) = .ok res := by
  obtain ⟨s₀, s, hinit, hreach, hwaiting, htokens, hobj, hplace, hstep⟩ := exists_runEngine
    .encoding (slidingConfig 4)
    (fun s op => FreshIds s op ∧ RecallsWaiting .encoding (slidingConfig 4) s op)
    [.addRequest (textRequest 1 [1, 2]), .addRequest (textRequest 2 [3, 4]), .schedule {},
      .updateFromOutput {} (sampled [(1, [5]), (2, [6])]), .schedule {}]
    (fun s => s.sched.waiting.ids = [2] ∧ (s.sched.request 2).numTokens = 3 ∧ 2 ∈ s.sched.objects ∧
      (s.sched.request 2).place = .queue ∧
      RecallsWaiting .encoding (slidingConfig 4) s (.schedule {})) (by decide +kernel)
  exact ⟨s₀, s, hinit, hreach, hwaiting, htokens,
    lookups_return_of_reach (E := {}) (fun _ _ _ => rfl) hinit hreach hstep .refl hobj hplace⟩

/-- **Drafts across a block boundary.** The second request accepts three drafts and is preempted: one of
its three blocks has a hash, and the next lookup reads the third one. -/
theorem not_lookups_return :
    ∃ s₀ s, Scheduler.init (slidingConfig 6) = .ok s₀ ∧
      (engineMachine .encoding (slidingConfig 6) s₀).Reach FreshIds s ∧
      s.sched.waiting.ids = [2] ∧ (s.sched.request 2).numTokens = 7 ∧
      (s.sched.kvCacheManager.hashesOf 2).length = 1 ∧
      s.sched.kvCacheManager.getComputedBlocks .encoding (s.sched.request 2) =
        .error .indexError := by
  obtain ⟨s₀, s, hinit, hreach, hwaiting, htokens, hhashes, herror⟩ := exists_runEngine .encoding
    (slidingConfig 6) FreshIds
    [.addRequest (textRequest 1 [1, 2]), .addRequest (textRequest 2 [3, 4]), .schedule {},
      .updateFromOutput {}
        { sampled [(1, [5]), (2, [6])] with specTokenIds := some [[], [7, 8, 9]] },
      .schedule {}, .updateFromOutput {} (sampled [(1, [10]), (2, [7, 8, 9, 11])]), .schedule {}]
    (fun s => s.sched.waiting.ids = [2] ∧ (s.sched.request 2).numTokens = 7 ∧
      (s.sched.kvCacheManager.hashesOf 2).length = 1 ∧
      s.sched.kvCacheManager.getComputedBlocks .encoding (s.sched.request 2) = .error .indexError)
    (by decide +kernel)
  exact ⟨s₀, s, hinit, hreach, hwaiting, htokens, hhashes, herror⟩

end Runs

end InferenceServer
