import InferenceServer.Sched.RemoteLoads

/-!
# What has been received

When the worker has reported a load, `_update_waiting_for_remote_kv` counts the blocks of the request
and takes them all for received. They were allocated for the tokens of the load and for the lookahead
tokens, up to the end of the last block. The count is right if the request has no token beyond the
load but the last one, which is computed again anyway, or if the blocks end where the load ends.
-/

namespace InferenceServer

open Outcome

/-- The blocks of a parked request are cached: the request, and the scheduler in which it waits to be
scheduled. -/
def KVCall.receipt (H : BlockHasher) (C : SchedulerConfig) (E : Environment) (c : KVCall) :
    Option (ReqId × Scheduler) :=
  match c.op with
  | .cacheBlocks r _ =>
    match c.sched.resolveStatus H C E r.requestId with
    | .ok (true, s) => some (r.requestId, s)
    | _ => none
  | _ => none

/-- **Nothing beyond the first `n` tokens** of a request is taken for received: not by the number of
computed tokens, and not by a block that is given a hash. -/
structure Scheduler.ReceivesWithin (s : Scheduler) (rid : ReqId) (n : Int) (s' : Scheduler) :
    Prop where
  computed : (s'.request rid).numComputedTokens ≤ n
  hashed : ∀ b, (s'.kvCacheManager.blockPool.block b).blockHash ≠
      (s.kvCacheManager.blockPool.block b).blockHash →
    ∃ m ∈ s.kvCacheManager.singleTypeManagers, ∃ i : Nat, (m.blocksOf rid)[i]? = some b ∧
      ((i + 1) * m.blockSize : Int) ≤ n

section Receipt

variable {H : BlockHasher} {C : SchedulerConfig} {E : Environment} {s₀ s s' : Scheduler}
  {t : Transfers} {p p' : Pass} {rid : ReqId} {cs : List KVCall} {r : Request}

/-- The number of received tokens is within the load, or it is not. -/
theorem numReceivedTokens_le_iff {blockIds : List BlockId} {n : Int} :
    C.numReceivedTokens r blockIds ≤ n ↔
      (r.numTokens : Int) ≤ n + 1 ∨ (blockIds.length * C.blockSize : Int) ≤ n := by
  unfold SchedulerConfig.numReceivedTokens
  push_cast
  split_ifs with h
  · rw [h]
    constructor
    · intro hn
      exact .inl (by omega)
    · rintro (hn | hn)
      · omega
      · have := min_le_left ((blockIds.length : Int) * C.blockSize) r.numTokens
        omega
  · rcases min_choice ((blockIds.length : Int) * C.blockSize) r.numTokens with hm | hm
    · rw [hm] at h ⊢
      have := min_eq_left_iff.mp hm
      constructor
      · exact .inr
      · rintro (hn | hn)
        · omega
        · exact hn
    · exact absurd hm h

theorem numReceivedTokens_nonneg {blockIds : List BlockId} (h : 0 < r.numTokens) :
    0 ≤ C.numReceivedTokens r blockIds := by
  unfold SchedulerConfig.numReceivedTokens
  dsimp only
  split_ifs <;> omega

/-- **A receipt**: the load is all that counts. -/
theorem Scheduler.Awaits.tokens_eq_iff (h : s.Awaits C s₀ t)
    (hst : (s.request rid).status = .waitingForRemoteKvs)
    (hname : (s.request rid).requestId = rid) (htokens : 0 < (s.request rid).numTokens)
    (hres : s.resolveStatus H C E rid = .ok (true, s')) :
    ∃ load, t.loads.get? rid = some load ∧
      (s.ReceivesWithin rid (load.numLocal + load.numExternal) s' ↔
        ((s.request rid).numTokens : Int) ≤ load.numLocal + load.numExternal + 1 ∨
          load.numBlocks C * C.blockSize ≤ load.numLocal + load.numExternal) := by
  obtain ⟨load, hload, hids, table, htable, hlen⟩ := h.loads rid hst
  refine ⟨load, hload, ?_⟩
  unfold Scheduler.resolveStatus at hres
  rw [hst] at hres
  obtain ⟨⟨ready, s₁⟩, hup, hres⟩ := bind_eq_ok.mp hres
  rcases updateWaitingForRemoteKv_ok hup with ⟨rfl, -⟩ | ⟨rfl, n, hrec⟩
  · simp [pure_eq_ok] at hres
  cases hres
  obtain ⟨blockIds, hblockIds, hn⟩ := hrec.count
  obtain rfl : table = blockIds := by
    rw [hids, htable] at hblockIds
    exact List.singleton_inj.mp hblockIds
  rw [← hlen, ← numReceivedTokens_le_iff, ← hn]
  have hcomputed : ((s₁.modify rid fun r => r.withStatus .waiting).request rid).numComputedTokens =
      n := by
    rw [Scheduler.request_modify_self, Scheduler.request_congr hrec.objects,
      Scheduler.request_modify_self]
    rfl
  constructor
  · intro hwithin
    exact hcomputed ▸ hwithin.computed
  · intro hle
    refine ⟨hcomputed ▸ hle, fun b hb => ?_⟩
    -- the blocks that get a hash are full within the received tokens
    obtain ⟨m, hm, i, hi, hfull⟩ := KVCacheManager.cacheBlocks_hashes
      (hn ▸ numReceivedTokens_nonneg htokens) hrec.kvCacheManager hb
    rw [hname] at hi
    exact ⟨m, hm, i, hi, hfull.trans hle⟩

/-- A call that caches received blocks is for a parked request. -/
theorem Pass.Does.receipt (hp : p.Placed) (h : p.sched.Awaits C s₀ t)
    (hd : Pass.Does H C E p cs p') :
    Transfers.All H E (fun t c => ∀ r n, c.op = .cacheBlocks r n → c.sched.Awaits C s₀ t ∧
      r = c.sched.request r.requestId ∧ r.status = .waitingForRemoteKvs) t cs := by
  cases hd with
  | passOver hat hzero => trivial
  | preempt hat hpos halloc hv hs =>
    exact ⟨fun _ _ hop => (by cases hop), fun _ _ hop => (by cases hop), trivial⟩
  | scheduleRunning hat hpos halloc => exact ⟨fun _ _ hop => (by cases hop), trivial⟩
  | recordLoras hl => trivial
  | receive hat hst hmem hres =>
    rw [Pass.receiveCalls, if_pos ⟨hst, hmem⟩]
    refine ⟨fun r n hop => ?_, trivial⟩
    obtain ⟨rfl, rfl⟩ := ManagerOp.cacheBlocks.inj hop
    refine ⟨h, ?_, hst⟩
    rw [hp.named _ (hp.mem_queue hat).1]
  | resolveStatus hat hnot hres => trivial
  | skip hat hskip => trivial
  | lookUp hat hst hnc hct => exact ⟨fun _ _ hop => (by cases hop), trivial⟩
  | noSlots hat hst hct hdem halloc => exact ⟨fun _ _ hop => (by cases hop), trivial⟩
  | park hat hst hct hdem hasync halloc hpark =>
    exact ⟨fun _ _ hop => (by cases hop), trivial⟩
  | admitWaiting hat hst hct hdem hasync halloc hadm => exact ⟨fun _ _ hop => (by cases hop), trivial⟩

end Receipt

/-! ## Runs -/

section Runs

variable {H : BlockHasher} {C : SchedulerConfig} {E : Environment} {s₀ : Scheduler}
  {s u : TransferEngine} {pre post : List KVCall} {c : KVCall} {rid : ReqId} {s' : Scheduler}

/-- **When nothing beyond the load is taken for received**, in any run: exactly if the request has at
most one more token than its load, or the blocks allocated for the load and the lookahead tokens hold no
more than the load. A request has a token: an empty prompt is refused on arrival. -/
theorem receivesWithin_iff (hinit : Scheduler.init C = .ok s₀)
    (hs : (transferMachine H C s₀).Reach (fun s => FreshIds s.engine) s)
    (hstep : s.step H C (.schedule E) = .ok u)
    (hcalls : s.engine.sched.scheduleCalls H C E = pre ++ c :: post)
    (hreceipt : c.receipt H C E = some (rid, s'))
    (htokens : 0 < (c.sched.request rid).numTokens) :
    ∃ load, (s.transfers.calls H E pre).loads.get? rid = some load ∧
      (c.sched.ReceivesWithin rid (load.numLocal + load.numExternal) s' ↔
        ((c.sched.request rid).numTokens : Int) ≤ load.numLocal + load.numExternal + 1 ∨
          load.numBlocks C * C.blockSize ≤ load.numLocal + load.numExternal) := by
  have h := awaits_of_reach hinit hs
  obtain ⟨hengine, -⟩ := TransferEngine.step_ok hstep
  obtain ⟨output, sched, hsched, -⟩ := Engine.step_schedule hengine
  obtain ⟨hall, -⟩ := schedule_transfers (J := fun p t => p.sched.Awaits C s₀ t)
    h.placed.places hsched h.awaits fun p cs p' t hp hJ hd =>
      ⟨hJ.does hinit hp hd, hd.receipt hp hJ⟩
  rw [hcalls] at hall
  have hc := hall.at
  unfold KVCall.receipt at hreceipt
  split at hreceipt
  next r n hop =>
    split at hreceipt
    next s₁ hres =>
      obtain ⟨rfl, rfl⟩ : r.requestId = rid ∧ s₁ = s' := by simpa using hreceipt
      obtain ⟨hawaits, hr, hst⟩ := hc r n hop
      rw [hr] at hst
      exact hawaits.tokens_eq_iff hst (congrArg Request.requestId hr).symm htokens hres
    next => simp at hreceipt
  next => simp at hreceipt

/-- The first call of the next step is the receipt of request 1, after which `n` tokens count as
computed. -/
def receives (C : SchedulerConfig) (n : Int) (s : TransferEngine) : Bool :=
  match s.engine.sched.scheduleCalls .encoding C fourTokens with
  | [] => false
  | c :: _ =>
    match c.receipt .encoding C fourTokens with
    | some (1, s') => (s'.request 1).numComputedTokens = n ∧ (c.sched.request 1).numTokens = 8
    | _ => false

theorem receives_ok {n : Int} (h : receives C n s = true) :
    ∃ c post s', s.engine.sched.scheduleCalls .encoding C fourTokens = c :: post ∧
      c.receipt .encoding C fourTokens = some (1, s') ∧ (s'.request 1).numComputedTokens = n ∧
      (c.sched.request 1).numTokens = 8 := by
  unfold receives at h
  split at h
  · simp at h
  next c post hcalls =>
    split at h
    next s' hreceipt => exact ⟨c, post, s', hcalls, hreceipt, of_decide_eq_true h⟩
    next => simp at h

/-- A configuration with a connector. -/
def connectorConfig (numLookaheadTokens : Nat) : SchedulerConfig :=
  { pairConfig 8 16 with hasConnector := true, numLookaheadTokens }

/-- **Without lookahead tokens** the load of four tokens takes two blocks, and four tokens are
received. -/
theorem receivesWithin_without_lookahead :
    ∃ s₀ s u c post s' load, Scheduler.init (connectorConfig 0) = .ok s₀ ∧
      (transferMachine .encoding (connectorConfig 0) s₀).Reach (fun s => FreshIds s.engine) s ∧
      s.step .encoding (connectorConfig 0) (.schedule fourTokens) = .ok u ∧
      s.engine.sched.scheduleCalls .encoding (connectorConfig 0) fourTokens = [] ++ c :: post ∧
      c.receipt .encoding (connectorConfig 0) fourTokens = some (1, s') ∧
      s.transfers.loads.get? 1 = some load ∧ load.numLocal = 0 ∧ load.numExternal = 4 ∧
      c.sched.ReceivesWithin 1 (load.numLocal + load.numExternal) s' := by
  obtain ⟨s₀, s, hinit, hreach, hreceives, hok, hloads⟩ := exists_runTransfers .encoding
    (connectorConfig 0) (fun s => FreshIds s.engine) (receivedRun [1, 2, 3, 4, 5, 6, 7, 8])
    (fun s => receives (connectorConfig 0) 4 s = true ∧
      (s.step .encoding (connectorConfig 0) (.schedule fourTokens)).isOk = true ∧
      (s.transfers.loads.get? 1).map (fun load => (load.numLocal, load.numExternal,
      load.numBlocks (connectorConfig 0))) = some (0, 4, 2)) (by decide +kernel)
  obtain ⟨c, post, s', hcalls, hreceipt, -, htokens⟩ := receives_ok hreceives
  obtain ⟨u, hu⟩ := isOk_iff.mp hok
  obtain ⟨load, hload, hiff⟩ := receivesWithin_iff hinit hreach hu
    (hcalls.trans (List.nil_append _).symm) hreceipt (by omega)
  rw [Transfers.calls, List.foldl_nil] at hload
  rw [hload, Option.map_some, Option.some_inj, Prod.mk.injEq, Prod.mk.injEq] at hloads
  obtain ⟨hlocal, hexternal, hblocks⟩ := hloads
  refine ⟨s₀, s, u, c, post, s', load, hinit, hreach, hu, hcalls, hreceipt, hload, hlocal,
    hexternal, hiff.mpr (.inr ?_)⟩
  rw [hblocks, hlocal, hexternal]
  decide

/-- **With one lookahead token** the load of four tokens takes three blocks, of which the third gets a
hash. -/
theorem not_receivesWithin_lookahead :
    ∃ s₀ s u c post s' load, Scheduler.init (connectorConfig 1) = .ok s₀ ∧
      (transferMachine .encoding (connectorConfig 1) s₀).Reach (fun s => FreshIds s.engine) s ∧
      s.step .encoding (connectorConfig 1) (.schedule fourTokens) = .ok u ∧
      s.engine.sched.scheduleCalls .encoding (connectorConfig 1) fourTokens = [] ++ c :: post ∧
      c.receipt .encoding (connectorConfig 1) fourTokens = some (1, s') ∧
      s.transfers.loads.get? 1 = some load ∧ load.numLocal = 0 ∧ load.numExternal = 4 ∧
      (s'.request 1).numComputedTokens = 6 ∧
      ¬ c.sched.ReceivesWithin 1 (load.numLocal + load.numExternal) s' := by
  obtain ⟨s₀, s, hinit, hreach, hreceives, hok, hloads⟩ := exists_runTransfers .encoding
    (connectorConfig 1) (fun s => FreshIds s.engine) (receivedRun [1, 2, 3, 4, 5, 6, 7, 8])
    (fun s => receives (connectorConfig 1) 6 s = true ∧
      (s.step .encoding (connectorConfig 1) (.schedule fourTokens)).isOk = true ∧
      (s.transfers.loads.get? 1).map (fun load => (load.numLocal, load.numExternal)) = some (0, 4))
    (by decide +kernel)
  obtain ⟨c, post, s', hcalls, hreceipt, hcomputed, -⟩ := receives_ok hreceives
  obtain ⟨u, hu⟩ := isOk_iff.mp hok
  obtain ⟨load, hload, hload'⟩ := Option.map_eq_some_iff.mp hloads
  obtain ⟨hlocal, hexternal⟩ := Prod.mk.inj hload'
  refine ⟨s₀, s, u, c, post, s', load, hinit, hreach, hu, hcalls, hreceipt, hload, hlocal,
    hexternal, hcomputed, fun hwithin => ?_⟩
  have hle := hwithin.computed
  rw [hcomputed, hlocal, hexternal] at hle
  omega

end Runs

end InferenceServer
