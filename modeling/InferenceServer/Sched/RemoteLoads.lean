import InferenceServer.KVCache.OneGroup
import InferenceServer.Sched.ManagerCalls

/-!
# Remote loads

A KV connector may load the blocks of a waiting request asynchronously: slots are allocated for what
it finds, and the request is parked (`WAITING_FOR_REMOTE_KVS`) until the worker reports it in
`finished_recving`. The scheduler does not write down what it has asked for. It knows again that a
request is parked by its status, and how much there is to receive by the number of its blocks.

The loads are kept here beside a run of the engine, as the calls of the manager tell them
(`Transfers`): which tokens were there, which ones the connector had, and the blocks. While a
request is parked, nothing changes its block table (`awaits_of_reach`).

## Main results

* `Scheduler.Awaits.does`, `awaits_of_reach`
* `schedule_awaits`: what holds at every call of a scheduling step
-/

namespace InferenceServer

open Outcome
open Scheduler (request_modify request_congr)
open KVCacheManager (fits_init specs getComputedBlocks_eq)

/-! ## Loads -/

/-- A load that the connector has been asked for. -/
structure RemoteLoad where
  /-- The tokens that were cached locally. -/
  numLocal : Int
  /-- The tokens that the connector has. -/
  numExternal : Int
  /-- The blocks that the request held before the slots were allocated. -/
  numHeld : Nat
  /-- The blocks that it holds since. -/
  blockIds : List (List BlockId)

/-- The block size of the KV cache group; with a connector, there is one. -/
def SchedulerConfig.groupBlockSize (C : SchedulerConfig) : Nat :=
  (C.kvCacheConfig.kvCacheGroups.head?.map KVCacheSpec.blockSize).getD 0

/-- The number of blocks that slots for a load and the lookahead tokens take. -/
def RemoteLoad.numBlocks (C : SchedulerConfig) (load : RemoteLoad) : Int :=
  max (load.numHeld + load.numLocal / C.groupBlockSize)
    (cdiv (min (load.numLocal + load.numExternal + C.numLookaheadTokens) C.maxModelLen)
      C.groupBlockSize)

/-- The loads of a run. -/
structure Transfers where
  /-- The last load of every request. -/
  loads : Dict ReqId RemoteLoad := ∅
  /-- The requests whose load the worker has not reported in `finished_recving`. -/
  unreported : List ReqId := []

section Machine

variable (H : BlockHasher) (C : SchedulerConfig)

/-- The load that a call begins: slots are allocated that are not to be cached yet. -/
def KVCall.load (E : Environment) (c : KVCall) : Option (ReqId × RemoteLoad) :=
  match c.op with
  | .allocateSlots r n l hits lookahead delay =>
    match delay, c.sched.kvCacheManager.allocateSlots H r n l hits lookahead delay with
    | true, .ok (some _, k) => some (r.requestId,
        { numLocal := l
          numExternal := (E.getNumNewMatchedTokens r l).1
          numHeld := (c.sched.kvCacheManager.getBlockIds r.requestId).flatten.length
          blockIds := k.getBlockIds r.requestId })
    | _, _ => none
  | _ => none

/-- Take note of a call. The worker may have reported the request before its load began. -/
def Transfers.call (E : Environment) (t : Transfers) (c : KVCall) : Transfers :=
  match c.load H E with
  | none => t
  | some (rid, load) =>
    { loads := t.loads.set rid load
      unreported := if rid ∈ c.sched.finishedRecvingKvReqIds then t.unreported
        else addToSet t.unreported rid }

/-- Take note of calls, in their order. -/
def Transfers.calls (E : Environment) (t : Transfers) (cs : List KVCall) : Transfers :=
  cs.foldl (Transfers.call H E) t

/-- Take note of what an engine does. -/
def Transfers.observe (s : Engine) (t : Transfers) : EngineOp → Transfers
  | .schedule E => t.calls H E (s.sched.scheduleCalls H C E)
  | .updateFromOutput _ m => { t with unreported := t.unreported.filter (· ∉ m.finishedRecving) }
  | _ => t

/-- An engine, with the loads of its run. -/
structure TransferEngine where
  engine : Engine
  transfers : Transfers := {}

/-- Make a call. -/
def TransferEngine.step (s : TransferEngine) (op : EngineOp) : Except PyError TransferEngine := do
  let engine ← s.engine.step H C op
  return { engine, transfers := s.transfers.observe H C s.engine op }

/-- The runs of the engine, with their loads. -/
def transferMachine (sched : Scheduler) : Machine TransferEngine EngineOp PyError where
  init := { engine := { sched } }
  step := TransferEngine.step H C

end Machine

/-- A run with its loads is a run of the engine. -/
theorem TransferEngine.step_ok {H : BlockHasher} {C : SchedulerConfig} {s s' : TransferEngine}
    {op : EngineOp} (h : s.step H C op = .ok s') :
    s.engine.step H C op = .ok s'.engine ∧ s'.transfers = s.transfers.observe H C s.engine op := by
  obtain ⟨e, he, h⟩ := bind_eq_ok.mp h
  cases h
  exact ⟨he, rfl⟩

/-! ## Calls of a step -/

/-- A property of every call, with the loads that were begun before it. -/
def Transfers.All (H : BlockHasher) (E : Environment) (Q : Transfers → KVCall → Prop) :
    Transfers → List KVCall → Prop
  | _, [] => True
  | t, c :: cs => Q t c ∧ All H E Q (t.call H E c) cs

section All

variable {H : BlockHasher} {E : Environment} {Q : Transfers → KVCall → Prop} {t : Transfers}
  {cs cs' : List KVCall} {c : KVCall}

@[simp] theorem Transfers.calls_append :
    t.calls H E (cs ++ cs') = (t.calls H E cs).calls H E cs' := List.foldl_append ..

theorem Transfers.all_append : Transfers.All H E Q t (cs ++ cs') ↔
    Transfers.All H E Q t cs ∧ Transfers.All H E Q (t.calls H E cs) cs' := by
  induction cs generalizing t with
  | nil => simp [Transfers.All, Transfers.calls]
  | cons a cs ih =>
    rw [List.cons_append, Transfers.All, Transfers.All, ih, and_assoc]
    rfl

theorem Transfers.all_true (t : Transfers) (cs : List KVCall) :
    Transfers.All H E (fun _ _ => True) t cs := by
  induction cs generalizing t with
  | nil => trivial
  | cons c cs ih => exact ⟨trivial, ih _⟩

/-- The property of one call among the others. -/
theorem Transfers.All.at {pre post : List KVCall}
    (h : Transfers.All H E Q t (pre ++ c :: post)) : Q (t.calls H E pre) c :=
  (Transfers.all_append.mp h).2.1

end All

/-! ## One group -/

section Init

variable {C : SchedulerConfig} {s₀ : Scheduler}

/-- What the constructor makes of the configuration. -/
theorem Scheduler.init_manager (h : Scheduler.init C = .ok s₀) :
    (C.hasConnector = true → C.kvCacheConfig.kvCacheGroups.length = 1) ∧
      KVCacheManager.init C.kvCacheConfig C.maxModelLen C.enablePrefixCaching C.useEagle
        C.enableKVCacheEvents = .ok s₀.kvCacheManager := by
  obtain ⟨_, hgroups, h₁⟩ := bind_eq_ok.mp h
  obtain ⟨k, hk, h₂⟩ := bind_eq_ok.mp h₁
  cases h₂
  exact ⟨require_eq_ok.mp hgroups, hk⟩

/-- The new manager counts no references. -/
theorem KVCacheManager.counted_init {config : KVCacheConfig} {maxModelLen : Nat}
    {enableCaching useEagle events : Bool} {k : KVCacheManager}
    (h : KVCacheManager.init config maxModelLen enableCaching useEagle events = .ok k) :
    k.Counted := by
  have hfits := fits_init (P := fun _ _ _ => True) h
  obtain ⟨free, hacc⟩ := hfits.coherent.accounts
  intro b hb
  simpa using hacc.refCnt b hb

/-- **With a connector there is one group**: the manager, in any later state. -/
theorem Scheduler.oneGroup_of_init (h : Scheduler.init C = .ok s₀) (hconn : C.hasConnector = true)
    {k : KVCacheManager} (hk : s₀.kvCacheManager.SameConfig k) :
    ∃ m, k.singleTypeManagers = [m] ∧ m.blockSize = C.groupBlockSize ∧ 0 < C.groupBlockSize ∧
      k.maxModelLen = C.maxModelLen ∧
      (k.kind = .noPrefixCache ∨ k.kind = .unitary m.kvCacheSpec) := by
  obtain ⟨hgroups, hinit⟩ := Scheduler.init_manager h
  obtain ⟨g, hg⟩ := List.length_eq_one_iff.mp (hgroups hconn)
  have hpos : 0 < g.blockSize := C.kvCacheConfig.blockSize_pos g (by simp [hg])
  have hbs : C.groupBlockSize = g.blockSize := by simp [SchedulerConfig.groupBlockSize, hg]
  obtain ⟨_, -, hinit⟩ := bind_eq_ok.mp hinit
  obtain ⟨kind, hkind, hinit⟩ := bind_eq_ok.mp hinit
  obtain ⟨pool, -, hinit⟩ := bind_eq_ok.mp hinit
  have hk₀ := pure_eq_ok.mp hinit
  have hspecs : specs k.singleTypeManagers = [g] := by
    rw [hk.specs, ← hk₀, hg]
    rfl
  obtain ⟨m, hm, hmg⟩ : ∃ m, k.singleTypeManagers = [m] ∧ m.kvCacheSpec = g := by
    simpa [specs, List.map_eq_singleton_iff] using hspecs
  refine ⟨m, hm, ?_, hbs ▸ hpos, by rw [hk.maxModelLen, ← hk₀], ?_⟩
  · rw [SingleTypeKVCacheManager.blockSize, hmg, hbs]
  · rw [hk.kind, ← hk₀, hmg]
    unfold getKVCacheCoordinator at hkind
    rw [hg] at hkind
    split at hkind
    · exact .inl (Except.ok.inj hkind).symm
    · exact .inr (Except.ok.inj hkind).symm

end Init

/-! ## Parked requests -/

/-- The blocks are those of the load, as many as its slots take. -/
structure RemoteLoad.Matches (C : SchedulerConfig) (load : RemoteLoad)
    (blockIds : List (List BlockId)) : Prop where
  blockIds : blockIds = load.blockIds
  table : ∃ table, load.blockIds = [table] ∧ (table.length : Int) = load.numBlocks C

/-- **The invariant**: a parked request has the blocks of its load. -/
structure Scheduler.Awaits (C : SchedulerConfig) (s s₀ : Scheduler) (t : Transfers) : Prop where
  config : s₀.kvCacheManager.SameConfig s.kvCacheManager
  counted : s.kvCacheManager.Counted
  loads : ∀ id, (s.request id).status = .waitingForRemoteKvs →
    ∃ load, t.loads.get? id = some load ∧ load.Matches C (s.kvCacheManager.getBlockIds id)

section Awaits

variable {H : BlockHasher} {C : SchedulerConfig} {E : Environment} {s₀ s s' : Scheduler}
  {t : Transfers} {p p' : Pass} {rid : ReqId} {cs : List KVCall}

/-- The requests that are parked were parked before, with the same table. -/
theorem Scheduler.Awaits.congr (h : s.Awaits C s₀ t)
    (hconfig : s.kvCacheManager.SameConfig s'.kvCacheManager)
    (hcounted : s.kvCacheManager.Counted → s'.kvCacheManager.Counted)
    (hparked : ∀ id, (s'.request id).status = .waitingForRemoteKvs →
      (s.request id).status = .waitingForRemoteKvs ∧
        s'.kvCacheManager.getBlockIds id = s.kvCacheManager.getBlockIds id) :
    s'.Awaits C s₀ t := by
  refine ⟨h.config.trans hconfig, hcounted h.counted, fun id hid => ?_⟩
  obtain ⟨hst, htable⟩ := hparked id hid
  rw [htable]
  exact h.loads id hst

/-- A call on behalf of a request that is not parked. -/
theorem Scheduler.Awaits.actsOn (h : s.Awaits C s₀ t)
    (hacts : KVCacheManager.ActsOn rid s.kvCacheManager s'.kvCacheManager)
    (hrid : (s'.request rid).status ≠ .waitingForRemoteKvs)
    (hothers : ∀ id, id ≠ rid → (s'.request id).status = (s.request id).status) :
    s'.Awaits C s₀ t := by
  refine h.congr hacts.config hacts.counted fun id hid => ?_
  have hne : id ≠ rid := by
    rintro rfl
    exact hrid hid
  exact ⟨(hothers id hne).symm.trans hid, hacts.getBlockIds hne⟩

theorem Scheduler.Awaits.of_eq (h : s.Awaits C s₀ t)
    (hkv : s'.kvCacheManager = s.kvCacheManager)
    (hst : ∀ id, (s'.request id).status = .waitingForRemoteKvs →
      (s.request id).status = .waitingForRemoteKvs) : s'.Awaits C s₀ t :=
  h.congr (hkv ▸ .refl _) (fun hc => hkv ▸ hc) fun id hid => ⟨hst id hid, by rw [hkv]⟩

variable {ct : ComputedTokens} {d : Demand} {k : KVCacheManager}

/-- There is a list of hits for every group. -/
theorem length_newComputedBlocks {r : Request}
    (hinit : Scheduler.init C = .ok s₀) (hconfig : s₀.kvCacheManager.SameConfig s'.kvCacheManager)
    (h : s.getComputedTokens H C E r = .ok (ct, s')) :
    ct.newComputedBlocks.length = s'.kvCacheManager.singleTypeManagers.length := by
  obtain ⟨k, rfl, ⟨-, rfl, rfl⟩ | ⟨-, blocks, n, hget, rfl, -⟩⟩ := getComputedTokens_ok h
  · exact List.length_map _
  have hgroups : s.kvCacheManager.groupOrder.length =
      s.kvCacheManager.singleTypeManagers.length := by
    have hfits := fits_init (P := fun _ _ _ => True)
      (Scheduler.init_manager hinit).2
    have hsame := (hfits.groups ▸ hconfig.length_groupOrder).trans
      (KVCacheManager.length_eq_of_specs hconfig.specs).symm
    obtain ⟨hashes, rfl⟩ := getComputedBlocks_eq hget
    exact hsame
  have hlen := KVCacheManager.length_getComputedBlocks hgroups hget
  obtain ⟨hashes, rfl⟩ := getComputedBlocks_eq hget
  exact hlen

/-- **The load of a parked request**: the slots are those of the tokens that are cached locally, of
those that the connector has, and of the lookahead tokens. -/
theorem load_slotCall {blocks : List (List BlockId)} (hinit : Scheduler.init C = .ok s₀)
    (hconfig : s₀.kvCacheManager.SameConfig p.sched.kvCacheManager)
    (hname : (p.sched.request rid).requestId = rid)
    (hct : s.getComputedTokens H C E (p.sched.request rid) = .ok (ct, p.sched))
    (hd : p.waitingDemand C (p.sched.request rid) ct = .ok (.demand d))
    (hasync : ct.loadKvAsync = true)
    (halloc : p.sched.kvCacheManager.allocateSlots H (p.sched.request rid)
      (d.numNewTokens + ct.numExternalComputedTokens) ct.numNewLocalComputedTokens
      ct.newComputedBlocks C.numLookaheadTokens ct.loadKvAsync = .ok (some blocks, k)) :
    ∃ load, (p.slotCall C rid d ct).load H E = some (rid, load) ∧
      load.Matches C (k.getBlockIds rid) := by
  obtain ⟨k₁, hs, ⟨-, -, rfl⟩ | ⟨hnc, hits, n, hget, rfl, rfl, hext, -⟩⟩ :=
    getComputedTokens_ok hct
  · simp at hasync
  have hconn : C.hasConnector = true := by
    by_contra hno
    rw [if_neg hno, hasync] at hext
    simp at hext
  rw [if_pos hconn] at hext
  have hzero : d.numNewTokens = 0 := by
    unfold Pass.waitingDemand at hd
    rw [if_pos hasync] at hd
    obtain ⟨_, -, hd⟩ := bind_eq_ok.mp hd
    obtain rfl : _ = d := WaitingDemand.demand.inj (pure_eq_ok.mp hd)
    rfl
  have hk₁ : p.sched.kvCacheManager = k₁ := by rw [hs]; rfl
  obtain ⟨m, hm, hbs, hpos, hlen, hkind⟩ := Scheduler.oneGroup_of_init hinit hconn hconfig
  obtain ⟨row, hrow, hn, -⟩ : ∃ row, ct.newComputedBlocks = [row] ∧
      ct.numNewLocalComputedTokens = row.length * m.blockSize ∧
        k₁.singleTypeManagers = [m] := by
    obtain ⟨hashes, hk⟩ := getComputedBlocks_eq hget
    rw [hk₁, hk] at hm hkind
    exact KVCacheManager.getComputedBlocks_oneGroup (k := s.kvCacheManager) hm hkind hget
  rw [hrow] at halloc
  obtain ⟨table, htable, htl⟩ := KVCacheManager.allocateSlots_oneGroup hm halloc
  rw [hname] at htable htl
  refine ⟨⟨ct.numNewLocalComputedTokens, (E.getNumNewMatchedTokens (p.sched.request rid)
    ct.numNewLocalComputedTokens).1, (p.sched.kvCacheManager.getBlockIds rid).flatten.length,
    k.getBlockIds rid⟩, ?_, rfl, table, htable, ?_⟩
  · rw [hasync] at halloc
    simp only [KVCall.load, Pass.slotCall, hrow, hasync, halloc, hname]
  · rw [htl, hnc, hzero, hlen, hbs]
    unfold RemoteLoad.numBlocks
    have hheld : (p.sched.kvCacheManager.getBlockIds rid).flatten = m.blocksOf rid := by
      simp [KVCacheManager.getBlockIds, hm]
    have hrows : ct.numNewLocalComputedTokens / (C.groupBlockSize : Int) = row.length := by
      rw [hn, hbs]
      exact Int.mul_ediv_cancel _ (by exact_mod_cast hpos.ne')
    rw [hheld, hrows, ← hext]
    ring_nf

/-- Calls that begin no load. -/
theorem Transfers.calls_of_load {cs : List KVCall} (h : ∀ c ∈ cs, c.load H E = none) :
    t.calls H E cs = t := by
  induction cs with
  | nil => rfl
  | cons c cs ih =>
    have hc : t.call H E c = t := by rw [Transfers.call, h c List.mem_cons_self]
    rw [Transfers.calls, List.foldl_cons, hc]
    exact ih fun c' hc' => h c' (List.mem_cons_of_mem c hc')

/-- A call that begins a load. -/
theorem Transfers.calls_load {c : KVCall} {load : RemoteLoad}
    (h : c.load H E = some (rid, load)) : t.calls H E [c] =
      { loads := t.loads.set rid load
        unreported := if rid ∈ c.sched.finishedRecvingKvReqIds then t.unreported
          else addToSet t.unreported rid } := by
  simp [Transfers.calls, Transfers.call, h]

@[simp] theorem load_allocateCall (n : Int) : (s.allocateCall C rid n).load H E = none := by
  simp only [KVCall.load, Scheduler.allocateCall]

theorem load_slotCall_of_sync (h : ct.loadKvAsync = false) :
    (p.slotCall C rid d ct).load H E = none := by
  simp only [KVCall.load, Pass.slotCall, h]

theorem load_slotCall_of_none (h : p.sched.kvCacheManager.allocateSlots H (p.sched.request rid)
      (d.numNewTokens + ct.numExternalComputedTokens) ct.numNewLocalComputedTokens
      ct.newComputedBlocks C.numLookaheadTokens ct.loadKvAsync = .ok (none, k)) :
    (p.slotCall C rid d ct).load H E = none := by
  cases hasync : ct.loadKvAsync with
  | false => exact load_slotCall_of_sync hasync
  | true =>
    rw [hasync] at h
    simp only [KVCall.load, Pass.slotCall, hasync, h]

@[simp] theorem Request.status_trimDrafts (r : Request) (n : Int) :
    (r.trimDrafts n).status = r.status := by
  unfold Request.trimDrafts
  split <;> rfl

/-- A request in the list of running requests is running. -/
theorem Pass.Placed.status_of_mem (h : p.Placed) (hrid : rid ∈ p.sched.running) :
    (p.sched.request rid).status = .running :=
  RequestStatus.place_eq_running.mp ((Scheduler.Places.running h rid).mp hrid).2

theorem Pass.Placed.requestId_of_mem (h : p.Placed) (hrid : rid ∈ p.sched.running) :
    (p.sched.request rid).requestId = rid :=
  h.named rid ((Scheduler.Places.running h rid).mp hrid).1

/-- Slots for a running request. -/
theorem Scheduler.Awaits.tryAllocate (h : p.sched.Awaits C s₀ t) (hp : p.Placed)
    (hrid : rid ∈ p.sched.running) {new : Option (List (List BlockId))}
    (halloc : p.tryAllocate H C rid = .ok (new, k)) :
    KVCacheManager.ActsOn rid p.sched.kvCacheManager k ∧ (p.sched.withKV k).Awaits C s₀ t := by
  have hacts := KVCacheManager.actsOn_allocateSlots (List.length_map _) halloc
  rw [hp.requestId_of_mem hrid] at hacts
  refine ⟨hacts, h.actsOn hacts ?_ fun _ _ => rfl⟩
  rw [Scheduler.request_withKV, hp.status_of_mem hrid]
  decide

/-- Slots for a request that waits, and is not parked. -/
theorem Scheduler.Awaits.allocateWaiting (hinit : Scheduler.init C = .ok s₀)
    (h : p.sched.Awaits C s₀ t) (hp : p.Placed) (hat : p.AtWaiting C rid)
    (hst : (p.sched.request rid).status ≠ .waitingForRemoteKvs)
    (hct : s.getComputedTokens H C E (p.sched.request rid) = .ok (ct, p.sched)) {n : Int}
    {new : Option (List (List BlockId))}
    (halloc : p.sched.kvCacheManager.allocateSlots H (p.sched.request rid) n
      ct.numNewLocalComputedTokens ct.newComputedBlocks C.numLookaheadTokens ct.loadKvAsync =
        .ok (new, k)) :
    KVCacheManager.ActsOn rid p.sched.kvCacheManager k ∧ (p.sched.withKV k).Awaits C s₀ t := by
  have hacts := KVCacheManager.actsOn_allocateSlots
    (length_newComputedBlocks hinit h.config hct) halloc
  rw [hp.named rid (hp.mem_queue hat).1] at hacts
  exact ⟨hacts, h.actsOn hacts hst fun _ _ => rfl⟩

/-- A request may be parked no longer; its blocks are then cached. -/
theorem Scheduler.Awaits.resolveStatus (h : s.Awaits C s₀ t) {ready : Bool}
    (hres : s.resolveStatus H C E rid = .ok (ready, s')) : s'.Awaits C s₀ t := by
  have hmodify : ∀ {s₁ : Scheduler} {id : ReqId},
      ((s₁.modify rid fun r => r.withStatus .waiting).request id).status = .waitingForRemoteKvs →
        (s₁.request id).status = .waitingForRemoteKvs := by
    intro s₁ id hid
    rw [request_modify] at hid
    split at hid
    · simp [Request.withStatus] at hid
    · exact hid
  rcases resolveStatus_ok hres with rfl | ⟨-, n, s₁, hrec, rfl⟩ | ⟨-, rfl⟩
  · exact h
  · obtain ⟨hacts, htables⟩ := KVCacheManager.actsOn_cacheBlocks rid hrec.kvCacheManager
    refine h.congr hacts.config hacts.counted fun id hid => ⟨?_, htables id⟩
    have hid' := hmodify hid
    rw [request_congr hrec.objects, request_modify] at hid'
    split at hid'
    next hid'' =>
      subst hid''
      exact hid'
    next => exact hid'
  · exact h.of_eq rfl fun id hid => hmodify hid

open Transfers (calls_of_load calls_load)

/-- **A move keeps the invariant**, and a request that it parks has the blocks of its load. -/
theorem Scheduler.Awaits.does (hinit : Scheduler.init C = .ok s₀) (h : p.sched.Awaits C s₀ t)
    (hp : p.Placed) (hd : Pass.Does H C E p cs p') : p'.sched.Awaits C s₀ (t.calls H E cs) := by
  cases hd with
  | passOver hat hzero => exact h
  | @preempt rid v k s hat hpos halloc hv hs =>
    rw [calls_of_load (by
      intro c hc
      rcases List.mem_pair.mp hc with rfl | rfl
      · exact load_allocateCall _
      · rfl)]
    obtain ⟨-, hk⟩ := h.tryAllocate hp hat.mem halloc
    have hpre := Scheduler.preempt_ok hs
    refine hk.actsOn (KVCacheManager.actsOn_free hpre.kvCacheManager) ?_ fun id hid => ?_
    · rw [hpre.request, if_pos rfl]
      simp [Request.preempted]
    · rw [hpre.request, if_neg hid]
  | @scheduleRunning rid blocks k hat hpos halloc =>
    rw [calls_of_load (by simp)]
    obtain ⟨-, hk⟩ := h.tryAllocate hp hat.mem halloc
    have heff := (p.withKV k).scheduleRunning_effect rid (p.runningDemand C (p.sched.request rid))
      blocks
    refine hk.of_eq heff.kvCacheManager fun id hid => ?_
    rw [request_congr heff.objects, request_modify] at hid
    split at hid
    next hid' =>
      subst hid'
      rwa [Request.status_trimDrafts] at hid
    next => exact hid
  | recordLoras hl =>
    obtain ⟨loras, rfl⟩ := recordLoras_ok hl
    exact h
  | receive hat hst hmem hres =>
    rw [calls_of_load (by simp [Pass.receiveCalls, hst, hmem, KVCall.load])]
    exact h.resolveStatus hres
  | resolveStatus hat hnot hres => exact h.resolveStatus hres
  | skip hat hskip =>
    obtain ⟨e, w, sk, -, -, rfl⟩ := skipWaiting_ok hskip
    exact h.of_eq rfl fun _ hid => hid
  | lookUp hat hst hnc hct =>
    rw [calls_of_load (by simp [KVCall.load])]
    obtain ⟨k, rfl, ⟨-, rfl, -⟩ | ⟨-, blocks, n, hget, -⟩⟩ := getComputedTokens_ok hct
    · exact h
    · obtain ⟨hashes, rfl⟩ := getComputedBlocks_eq hget
      exact h.congr ⟨rfl, rfl, rfl, rfl, rfl, rfl, .refl _⟩ (fun hc => hc)
        fun _ hid => ⟨hid, rfl⟩
  | @noSlots rid ct s₁ d k hat hst hct hdem halloc =>
    rw [calls_of_load (by simp [load_slotCall_of_none halloc])]
    exact (h.allocateWaiting hinit hp hat hst hct halloc).2
  | @park _ rid ct s₁ d blocks k hat hst hct hdem hasync halloc hpark =>
    obtain ⟨hacts, hk⟩ := h.allocateWaiting hinit hp hat hst hct halloc
    obtain ⟨load, hload, hmatch⟩ := load_slotCall hinit h.config
      (hp.named rid (hp.mem_queue hat).1) hct hdem hasync halloc
    obtain ⟨p₁, hskip, rfl⟩ := parkRemote_ok hpark
    obtain ⟨e, w, sk, -, -, rfl⟩ := skipWaiting_ok hskip
    refine ⟨hk.config, hk.counted, fun id hid => ?_⟩
    rw [calls_load hload, Dict.get?_set]
    by_cases hne : id = rid
    · subst hne
      exact ⟨load, by simp, hmatch⟩
    · rw [if_neg hne]
      refine hk.loads id ?_
      rw [Scheduler.request_modify_ne hne] at hid
      exact hid
  | @admitWaiting _ rid ct s₁ d blocks k hat hst hct hdem hasync halloc hadm =>
    rw [calls_of_load (by simp [load_slotCall_of_sync hasync])]
    obtain ⟨hacts, hk⟩ := h.allocateWaiting hinit hp hat hst hct halloc
    have ha := admit_ok hadm
    refine hk.of_eq ha.kvCacheManager fun id hid => ?_
    rw [request_congr ha.objects, request_modify] at hid
    split at hid
    next => simp [Request.admitted] at hid
    next => exact hid

/-! ## Whole calls -/

theorem advance_recving {n : Int} (h : s.advance rid n = .ok s') :
    s'.finishedRecvingKvReqIds = s.finishedRecvingKvReqIds := by
  obtain ⟨_, -, h⟩ := bind_eq_ok.mp h
  cases h
  split <;> rfl

theorem addPlaceholder_recving (h : s.addPlaceholder rid = .ok s') :
    s'.finishedRecvingKvReqIds = s.finishedRecvingKvReqIds := by
  obtain ⟨_, -, h⟩ := bind_eq_ok.mp h
  cases h
  split <;> rfl

theorem updateAfterSchedule_recving {scheduled : List (ReqId × Int)}
    (h : s.updateAfterSchedule C scheduled = .ok s') :
    s'.finishedRecvingKvReqIds = s.finishedRecvingKvReqIds := by
  obtain ⟨s₁, hadvance, h⟩ := bind_eq_ok.mp h
  have h₁ := threadM_invariant (I := fun _ (u : Scheduler) =>
      u.finishedRecvingKvReqIds = s.finishedRecvingKvReqIds)
    (fun e l u u' hI hu => (advance_recving hu).trans hI) rfl hadvance
  split at h
  · refine threadM_invariant (I := fun _ (u : Scheduler) =>
        u.finishedRecvingKvReqIds = s.finishedRecvingKvReqIds)
      (fun e l u u' hI hu => (addPlaceholder_recving hu).trans hI) ?_ h
    exact h₁
  · cases h
    exact h₁

/-- What the end of a scheduling step leaves alone. -/
structure Scheduler.Closes (s s' : Scheduler) : Prop where
  kvCacheManager : s'.kvCacheManager = s.kvCacheManager.takeEvents.2
  recving : s'.finishedRecvingKvReqIds = s.finishedRecvingKvReqIds
  status : ∀ id, (s'.request id).status = (s.request id).status

theorem Scheduler.Awaits.closes (h : s.Awaits C s₀ t) (hc : s.Closes s') : s'.Awaits C s₀ t := by
  have hacts := KVCacheManager.actsOn_takeEvents s.kvCacheManager 0
  rw [← hc.kvCacheManager] at hacts
  refine h.congr hacts.config hacts.counted fun id hid => ⟨(hc.status id).symm.trans hid, ?_⟩
  rw [hc.kvCacheManager]
  rfl

/-- **The rule for a scheduling step**, its calls and its loads: `J` holds between the moves, and `Q`
of every call. -/
theorem schedule_transfers {output : SchedulerOutput} {J : Pass → Transfers → Prop}
    {Q : Transfers → KVCall → Prop} (hplaces : s.Places s.running s.waiting.ids)
    (hs : s.schedule H C E = .ok (output, s')) (start : J (.start C s) t)
    (step : ∀ p cs p' t, p.Placed → J p t → Pass.Does H C E p cs p' →
      J p' (t.calls H E cs) ∧ Transfers.All H E Q t cs) :
    Transfers.All H E Q t (s.scheduleCalls H C E) ∧
      ∃ p, J p (t.calls H E (s.scheduleCalls H C E)) ∧ p.sched.Closes s' := by
  obtain ⟨p, hpass, h⟩ := bind_eq_ok.mp hs
  obtain ⟨_, -, h⟩ := bind_eq_ok.mp h
  obtain ⟨common, -, h⟩ := bind_eq_ok.mp h
  obtain ⟨s₁, hup, h⟩ := bind_eq_ok.mp h
  cases h
  have hplaced : (Pass.start C s).Placed := by
    unfold Pass.Placed
    simpa [Pass.start] using hplaces
  obtain ⟨p₁, ⟨-, hJ, hQ⟩, hr⟩ := schedulePass_calls
    (I := fun cs p => p.Placed ∧ J p (t.calls H E cs) ∧ Transfers.All H E Q t cs) hplaces.nodupR
    hpass ⟨hplaced, start, trivial⟩ fun cs p c p' hI hd => by
      obtain ⟨hJ, hQ⟩ := step p c p' _ hI.1 hI.2.1 hd
      rw [Transfers.calls_append]
      exact ⟨hI.1.move hd.move, hJ, Transfers.all_append.mpr ⟨hI.2.2, hQ⟩⟩
  obtain ⟨w, rfl, -⟩ := restoreSkipped_ok hr
  have hrec := updateAfterSchedule_recving hup
  obtain ⟨ha, hk⟩ := updateAfterSchedule_ok hup
  refine ⟨hQ, p₁, hJ, hk, hrec, fun id => ?_⟩
  obtain ⟨n, hreq, -⟩ := ha.request id
  rw [hreq]
  rfl

/-- The new scheduler has no parked request. -/
theorem Scheduler.awaits_init (hinit : Scheduler.init C = .ok s₀) : s₀.Awaits C s₀ {} := by
  obtain ⟨-, hk⟩ := Scheduler.init_manager hinit
  refine ⟨.refl _, KVCacheManager.counted_init hk, fun id hid => ?_⟩
  obtain ⟨_, -, h⟩ := bind_eq_ok.mp hinit
  obtain ⟨k, -, h⟩ := bind_eq_ok.mp h
  cases h
  cases hid

/-- A request that is not finished after a call is parked only if it was. -/
theorem Scheduler.Awaits.releases (h : s.Awaits C s₀ t) (hr : s.Releases s') :
    s'.Awaits C s₀ t := by
  refine h.congr hr.config hr.counted fun id hid => ?_
  obtain ⟨hst, htable⟩ := hr.unfinished id (by rw [Request.isFinished, hid]; decide)
  exact ⟨hst.symm.trans hid, htable⟩

theorem Scheduler.Awaits.addRequest {r : Request} (h : s.Awaits C s₀ t)
    (hadd : s.addRequest r.new = .ok s') : s'.Awaits C s₀ t := by
  have ha := addRequest_ok hadd
  obtain ⟨w, -, hadd⟩ := bind_eq_ok.mp hadd
  cases hadd
  refine h.of_eq rfl fun id hid => ?_
  rw [ha.request] at hid
  split at hid
  · unfold Request.new at hid
    split at hid <;> simp at hid
  · exact hid

end Awaits

/-! ## Runs -/

section Runs

variable {H : BlockHasher} {C : SchedulerConfig} {s₀ : Scheduler} {s s' : TransferEngine}

/-- What holds in every run of the engine with its loads. -/
structure TransferEngine.Awaits (C : SchedulerConfig) (s₀ : Scheduler) (s : TransferEngine) :
    Prop where
  placed : s.engine.Placed
  awaits : s.engine.sched.Awaits C s₀ s.transfers

theorem TransferEngine.Awaits.step (hinit : Scheduler.init C = .ok s₀)
    (h : s.Awaits C s₀) {op : EngineOp} (hfresh : FreshIds s.engine op)
    (hstep : s.step H C op = .ok s') : s'.Awaits C s₀ := by
  obtain ⟨hengine, htransfers⟩ := TransferEngine.step_ok hstep
  refine ⟨h.placed.step hfresh hengine, ?_⟩
  rw [htransfers]
  cases op with
  | addRequest r =>
    obtain ⟨sched, hadd, he⟩ := Engine.step_addRequest hengine
    rw [he]
    exact h.awaits.addRequest hadd
  | schedule E =>
    obtain ⟨output, sched, hsched, he⟩ := Engine.step_schedule hengine
    rw [he]
    obtain ⟨-, p, hawaits, hcloses⟩ := schedule_transfers (Q := fun _ _ => True)
      (J := fun p t => p.sched.Awaits C s₀ t) h.placed.places hsched h.awaits
      fun p cs p' t hp hJ hd => ⟨hJ.does hinit hp hd, Transfers.all_true _ _⟩
    exact hawaits.closes hcloses
  | updateFromOutput E m =>
    obtain ⟨output, inFlight, outputs, sched, -, hup, he⟩ := Engine.step_updateFromOutput hengine
    rw [he]
    obtain ⟨s₁, h₁, h₂⟩ := updateFromOutput_releases hup
    have hmarked : { s₁ with
        finishedRecvingKvReqIds :=
          m.finishedRecving.foldl addToSet s₁.finishedRecvingKvReqIds }.Awaits C s₀ s.transfers :=
      (h.awaits.releases h₁).of_eq rfl fun _ hid => hid
    have hawaits := hmarked.releases h₂
    exact ⟨hawaits.config, hawaits.counted, hawaits.loads⟩
  | finishRequests E ids status =>
    obtain ⟨sched, hfin, he⟩ := Engine.step_finishRequests hengine
    rw [he]
    exact h.awaits.releases (finishRequests_releases h.placed.places.nodupR hfin)

/-- **A parked request keeps its blocks**, in every run. -/
theorem awaits_of_reach (hinit : Scheduler.init C = .ok s₀)
    (hs : (transferMachine H C s₀).Reach (fun s => FreshIds s.engine) s) : s.Awaits C s₀ :=
  hs.invariant ⟨Engine.placed_init hinit, Scheduler.awaits_init hinit⟩
    fun _ _ _ h hok hstep => h.step hinit hok hstep

end Runs

/-! ## Executing runs -/

/-- The state after a list of calls on a new scheduler, with the loads. -/
def runTransfers (H : BlockHasher) (C : SchedulerConfig) (ok : TransferEngine → EngineOp → Prop)
    [∀ s op, Decidable (ok s op)] (ops : List EngineOp) : Option TransferEngine :=
  match Scheduler.init C with
  | .ok s₀ => (transferMachine H C s₀).execIf ok ops { engine := { sched := s₀ } }
  | .error _ => none

theorem exists_runTransfers (H : BlockHasher) (C : SchedulerConfig)
    (ok : TransferEngine → EngineOp → Prop) [∀ s op, Decidable (ok s op)] (ops : List EngineOp)
    (p : TransferEngine → Prop) [DecidablePred p]
    (h : ((runTransfers H C ok ops).any fun s => decide (p s)) = true) :
    ∃ s₀ s, Scheduler.init C = .ok s₀ ∧ (transferMachine H C s₀).Reach ok s ∧ p s := by
  obtain ⟨s, hs, hp⟩ := (Option.any_eq_true ..).mp h
  unfold runTransfers at hs
  cases hinit : Scheduler.init C with
  | error e => simp [hinit] at hs
  | ok s₀ =>
    simp only [hinit] at hs
    exact ⟨s₀, s, rfl, Machine.reach_execIf .start hs, of_decide_eq_true hp⟩

/-- A connector that loads four tokens beyond those that are there, asynchronously. -/
def fourTokens : Environment where
  getNumNewMatchedTokens := fun _ _ => (4, true)

/-- A request is parked, and the worker reports its load. -/
def receivedRun (promptTokenIds : List TokenId) : List EngineOp :=
  [.addRequest (textRequest 1 promptTokenIds), .schedule fourTokens,
   .updateFromOutput {} { sampled [] with finishedRecving := [1] }]

end InferenceServer
