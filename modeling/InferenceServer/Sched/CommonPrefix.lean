import Mathlib.Data.List.TakeWhile
import InferenceServer.Sched.CacheSafety

/-!
# The common prefix

A scheduling step tells the worker, for every group, how many leading blocks all running requests
have in common. The scheduler compares no tables for this: it walks along the table of one running
request as long as the reference count of the block is the number of running requests.

The references to a block of a full attention group come from tables of that group, at most one from
each and all at one position (`KVCacheManager.Sound`). As many references as there are running requests
therefore mean that all of them hold the block, at the same position, provided that nobody else does.
Requests that are not running may hold blocks as well: a finished request whose blocks the connector
is still sending, or a request that is parked until its blocks have been received. With such a holder the
count is taken for a running request that does not have the block.
-/

namespace InferenceServer

open Outcome

/-- **The common prefix is common**: the first blocks of a group, as many as the number says, are the
same in the table of every running request. -/
def Scheduler.SharesPrefix (s : Scheduler) (numCommonPrefixBlocks : List Nat) : Prop :=
  ∀ (g n : Nat) (m : SingleTypeKVCacheManager), numCommonPrefixBlocks[g]? = some n →
    s.kvCacheManager.singleTypeManagers[g]? = some m → ∀ rid ∈ s.running,
      n ≤ (m.blocksOf rid).length ∧
        ∀ rid' ∈ s.running, (m.blocksOf rid).take n = (m.blocksOf rid').take n

/-- **The holders run**: a full attention block of the first running request that has as many references
as there are running requests is held by running requests only. -/
def Scheduler.HoldersRun (s : Scheduler) : Prop :=
  ∀ rid ∈ s.running.head?, ∀ m ∈ s.kvCacheManager.singleTypeManagers,
    m.kvCacheSpec.isFullAttention = true → ∀ b ∈ m.blocksOf rid,
      (s.kvCacheManager.blockPool.block b).refCnt = s.running.length →
        ∀ e ∈ m.reqToBlocks.entries, b ∈ e.2 → e.1 ∈ s.running

instance : DecidablePred Scheduler.HoldersRun := fun s => by
  unfold Scheduler.HoldersRun
  infer_instance

/-! ## Counting -/

section Counting

variable {H : BlockHasher} {s : Scheduler} {m : SingleTypeKVCacheManager} {rid rid' : ReqId}
  {b : BlockId}

/-- **A block with as many references as there are running requests is held by all of them.** -/
theorem KVCacheManager.Sound.mem_of_refCnt {k : KVCacheManager} (h : k.Sound H)
    (hm : m ∈ k.singleTypeManagers) (hb : b ∈ m.blocksOf rid) (hz : b ≠ k.blockPool.nullBlock)
    {ids : List ReqId} (hcount : (k.blockPool.block b).refCnt = ids.length)
    (hids : ∀ id, b ∈ m.blocksOf id → id ∈ ids) (hrid' : rid' ∈ ids) : b ∈ m.blocksOf rid' := by
  have hle : m.tableCount b ≤ (ids.filter fun id => b ∈ m.blocksOf id).length :=
    m.tableCount_le (fun id => h.fits.coherent.count_le_one hm hz) hids
  rw [h.refCnt hm hb hz, Nat.cast_inj] at hcount
  have hall : (ids.filter fun id => b ∈ m.blocksOf id).length = ids.length :=
    le_antisymm (List.length_filter_le ..) (hcount ▸ hle)
  simpa using List.length_filter_eq_length_iff.mp hall rid' hrid'

/-- The block at a position of the common prefix. -/
theorem Scheduler.getElem?_of_holdersRun (h : s.kvCacheManager.Sound H) (hrun : s.HoldersRun)
    (hfirst : s.running.head? = some rid) (hm : m ∈ s.kvCacheManager.singleTypeManagers)
    (hfull : m.kvCacheSpec.isFullAttention = true) {i : Nat} (hb : (m.blocksOf rid)[i]? = some b)
    (hcount : (s.kvCacheManager.blockPool.block b).refCnt = s.running.length)
    (hrid' : rid' ∈ s.running) : (m.blocksOf rid')[i]? = some b := by
  have hmem : b ∈ m.blocksOf rid := List.mem_of_getElem? hb
  have hz : b ≠ s.kvCacheManager.blockPool.nullBlock := fun hz =>
    (h.grouped m hm rid).full hfull (hz ▸ hmem)
  have hids : ∀ id, b ∈ m.blocksOf id → id ∈ s.running := fun id hid => by
    cases hget : m.reqToBlocks.get? id with
    | none =>
      rw [SingleTypeKVCacheManager.blocksOf, Dict.getD_of_none hget] at hid
      cases hid
    | some l =>
      rw [SingleTypeKVCacheManager.blocksOf, Dict.getD_of_get? hget] at hid
      exact hrun rid hfirst m hm hfull b hmem hcount (id, l) (Dict.get?_eq_some_iff.mp hget) hid
  obtain ⟨j, hj⟩ := List.mem_iff_getElem?.mp (h.mem_of_refCnt hm hmem hz hcount hids hrid')
  -- a block stands at one position in all tables
  rw [h.fits.coherent.position rid i rid' j b hz ⟨m, hm, hb⟩ ⟨m, hm, hj⟩]
  exact hj

/-- **The numbers are right** if the holders run. -/
theorem Scheduler.sharesPrefix {C : SchedulerConfig} (h : s.kvCacheManager.Sound H)
    (hnamed : ∀ id ∈ s.running, (s.request id).requestId = id) (hrun : s.HoldersRun)
    {common : List Nat} (hc : s.numCommonPrefixBlocks C = .ok common) : s.SharesPrefix common := by
  intro g n m hn hm rid' hrid'
  have hmem : m ∈ s.kvCacheManager.singleTypeManagers := List.mem_of_getElem? hm
  unfold Scheduler.numCommonPrefixBlocks at hc
  cases hr : s.running with
  | nil => simp [hr] at hrid'
  | cons rid l =>
    rw [hr] at hc
    obtain ⟨_, -, hc⟩ := bind_eq_ok.mp hc
    cases hc
    rw [List.getElem?_map, hm, Option.map_some, Option.some_inj, ← hr,
      hnamed rid (hr ▸ List.mem_cons_self)] at hn
    have hsame : ∀ i < n, ∃ b, ∀ id ∈ s.running, (m.blocksOf id)[i]? = some b := by
      intro i hi
      -- only full attention counts, and only with prefix caching
      have hcounted : m.kvCacheSpec.isFullAttention = true ∧
          i < ((m.blocksOf rid).takeWhile fun b =>
            (s.kvCacheManager.blockPool.block b).refCnt = s.running.length).length := by
        split at hn
        · omega
        · unfold SingleTypeKVCacheManager.getNumCommonPrefixBlocks at hn
          split at hn
          next hspec => exact ⟨by rw [hspec]; rfl, hn ▸ hi⟩
          next => omega
      obtain ⟨hfull, hlt⟩ := hcounted
      have hprefix := List.takeWhile_prefix (l := m.blocksOf rid) fun b =>
        decide ((s.kvCacheManager.blockPool.block b).refCnt = s.running.length)
      have hget := hprefix.getElem hlt
      have hcount := List.mem_takeWhile_imp (List.getElem_mem hlt)
      refine ⟨_, fun id hid => s.getElem?_of_holdersRun h hrun (by rw [hr]; rfl) hmem hfull
        (List.getElem?_eq_some_iff.mpr ⟨_, hget.symm⟩) (by simpa using hcount) hid⟩
    refine ⟨?_, fun id hid => List.ext_getElem? fun i => ?_⟩
    · by_contra hlt
      obtain ⟨b, hb⟩ := hsame (m.blocksOf rid').length (by omega)
      simpa using hb rid' (hr ▸ hrid')
    · rw [List.getElem?_take, List.getElem?_take]
      split_ifs with hi
      · obtain ⟨b, hb⟩ := hsame i hi
        rw [hb rid' (hr ▸ hrid'), hb id (hr ▸ hid)]
      · rfl

end Counting

/-! ## Runs -/

section Runs

variable {H : BlockHasher} {C : SchedulerConfig} {E : Environment} {s₀ : Scheduler} {s : Engine}

/-- Requests under new identifiers, and calls that do not cache the null block. -/
def FreshAndCachesNoNull (H : BlockHasher) (C : SchedulerConfig) (s : Engine) (op : EngineOp) :
    Prop :=
  FreshIds s op ∧ s.CallsMeet H C KVCall.CachesNoNull op

instance (s : Engine) (op : EngineOp) : Decidable (FreshAndCachesNoNull H C s op) := by
  unfold FreshAndCachesNoNull
  infer_instance

/-- The invariant of the manager holds in every run that caches no null block. -/
theorem sound_of_reach (hH : H.Lawful) (hinit : Scheduler.init C = .ok s₀)
    (hs : (engineMachine H C s₀).Reach (FreshAndCachesNoNull H C) s) :
    s.Placed ∧ s.sched.kvCacheManager.Sound H :=
  hs.invariant (I := fun s => s.Placed ∧ s.sched.kvCacheManager.Sound H)
    ⟨Engine.placed_init hinit, KVCacheManager.sound_init (Scheduler.init_manager hinit).2⟩
    fun _ _ _ h hok hstep => ⟨h.1.step hok.1 hstep,
      (kvInvariant_sound hH).step h.1.places.nodupR h.2 hok.2 hstep⟩

/-- **The common prefix is common**, in every run that caches no null block, where the holders run. -/
theorem commonPrefix_of_reach (hH : H.Lawful) (hinit : Scheduler.init C = .ok s₀)
    (hs : (engineMachine H C s₀).Reach (FreshAndCachesNoNull H C) s)
    (hcalls : ∀ c ∈ s.sched.scheduleCalls H C E, c.CachesNoNull)
    (hrun : ∀ p, s.sched.schedulePass H C E = .ok p → p.sched.HoldersRun)
    {output : SchedulerOutput} {sched : Scheduler}
    (hsched : s.sched.schedule H C E = .ok (output, sched)) :
    sched.SharesPrefix output.numCommonPrefixBlocks := by
  obtain ⟨hplaced, hsound⟩ := sound_of_reach hH hinit hs
  obtain ⟨p, hpass, h⟩ := bind_eq_ok.mp hsched
  obtain ⟨_, -, h⟩ := bind_eq_ok.mp h
  obtain ⟨common, hcommon, h⟩ := bind_eq_ok.mp h
  obtain ⟨s₁, hup, h⟩ := bind_eq_ok.mp h
  obtain ⟨rfl, rfl⟩ := pair_of_ok h
  have hp : p.sched.kvCacheManager.Sound H :=
    (kvInvariant_sound hH).schedulePass hplaced.places.nodupR hsound hcalls hpass
  have hplaces := (schedulePass_places hplaced.places hpass).1
  have hshares := Scheduler.sharesPrefix hp
    (fun id hid => hplaces.named id ((hplaces.running id).mp hid).1) (hrun p hpass) hcommon
  -- the tables and the running requests are the same at the end
  obtain ⟨ha, hk⟩ := updateAfterSchedule_ok hup
  intro g n m hn hm
  rw [ha.running]
  rw [hk] at hm
  exact hshares g n m hn hm

/-- The common prefix blocks that a step reports after a run, with the tables of the running
requests. -/
def commonPrefixAfter (C : SchedulerConfig) (E : Environment) (ops : List EngineOp) :
    Option (List Nat × List (List (List BlockId))) :=
  (runEngine .encoding C (FreshAndCachesNoNull .encoding C) ops).bind fun s =>
    match s.sched.schedule .encoding C E with
    | .ok (output, sched) => some (output.numCommonPrefixBlocks,
        sched.kvCacheManager.singleTypeManagers.map fun m => sched.running.map m.blocksOf)
    | .error _ => none

theorem commonPrefixAfter_ok {ops : List EngineOp} {common : List Nat}
    {tables : List (List (List BlockId))} (h : commonPrefixAfter C E ops = some (common, tables)) :
    ∃ s₀ s output sched, Scheduler.init C = .ok s₀ ∧
      (engineMachine .encoding C s₀).Reach (FreshAndCachesNoNull .encoding C) s ∧
      s.sched.schedule .encoding C E = .ok (output, sched) ∧
      output.numCommonPrefixBlocks = common ∧
      (sched.kvCacheManager.singleTypeManagers.map fun m => sched.running.map m.blocksOf) =
        tables := by
  obtain ⟨s, hs, h⟩ := Option.bind_eq_some_iff.mp h
  obtain ⟨s₀, hinit, hreach⟩ := reach_runEngine hs
  split at h
  next output sched hsched =>
    cases h
    exact ⟨s₀, s, output, sched, hinit, hreach, hsched, rfl, rfl⟩
  next => simp at h

/-- A request with a prompt of five tokens, two blocks of which are shared. -/
def sharingRequest (requestId : ReqId) (last : TokenId) : Request :=
  textRequest requestId [7, 7, 7, 7, last]

/-- A request is running when another one with the same prefix arrives. -/
def sharedRun : List EngineOp :=
  [.addRequest (sharingRequest 1 5), .schedule {}, .addRequest (sharingRequest 2 6)]

/-- **Two running requests** share two blocks. -/
theorem commonPrefix_sharedRun :
    ∃ s₀ s output sched, Scheduler.init (pairConfig 16 32) = .ok s₀ ∧
      (engineMachine .encoding (pairConfig 16 32) s₀).Reach
        (FreshAndCachesNoNull .encoding (pairConfig 16 32)) s ∧
      s.sched.schedule .encoding (pairConfig 16 32) {} = .ok (output, sched) ∧
      output.numCommonPrefixBlocks = [2] ∧ sched.SharesPrefix [2] := by
  obtain ⟨s₀, s, hinit, hreach, hcalls, hholders, hcommon⟩ := exists_runEngine .encoding
    (pairConfig 16 32) (FreshAndCachesNoNull .encoding (pairConfig 16 32)) sharedRun
    (fun s => (∀ c ∈ s.sched.scheduleCalls .encoding (pairConfig 16 32) {}, c.CachesNoNull) ∧
      (∀ p ∈ (s.sched.schedulePass .encoding (pairConfig 16 32) {}).toOption, p.sched.HoldersRun) ∧
      (s.sched.schedule .encoding (pairConfig 16 32) {}).toOption.map
        (fun e => e.1.numCommonPrefixBlocks) = some [2])
    (by decide +kernel)
  obtain ⟨⟨output, sched⟩, hsched, hcommon⟩ := Option.map_eq_some_iff.mp hcommon
  cases hok : s.sched.schedule .encoding (pairConfig 16 32) {} with
  | error e => simp [hok, Except.toOption] at hsched
  | ok e =>
    rw [hok] at hsched
    obtain rfl : e = (output, sched) := Option.some_inj.mp hsched
    refine ⟨s₀, s, output, sched, hinit, hreach, hok, hcommon, ?_⟩
    exact hcommon ▸ commonPrefix_of_reach BlockHasher.lawful_encoding hinit hreach hcalls
      (fun p hp => hholders p (by rw [hp]; rfl)) hok

/-- A connector that sends the blocks of request 1 to a decode instance. -/
def sendingConfig : SchedulerConfig := { pairConfig 16 32 with hasConnector := true }

/-- Request 1 is decoded remotely. -/
def remoteDecode (id : ReqId) : Option NixlParams := if id = 1 then some ⟨false, true⟩ else none

/-- Request 1 has finished, and its blocks are being sent, when two others arrive: one with the same
prefix, and one with another prompt. -/
def sendingRun : List EngineOp :=
  [.addRequest { sharingRequest 1 5 with samplingParams := some { maxTokens := 1 } },
   .schedule (nixl sendingConfig remoteDecode),
   .updateFromOutput (nixl sendingConfig remoteDecode) (sampled [(1, [8])]),
   .addRequest (sharingRequest 2 6), .addRequest (textRequest 3 [1, 2, 3])]

/-- **Two blocks are reported that the second running request does not have**: a finished request holds
them. -/
theorem not_sharesPrefix_sending :
    ∃ s₀ s output sched, Scheduler.init sendingConfig = .ok s₀ ∧
      (engineMachine .encoding sendingConfig s₀).Reach
        (FreshAndCachesNoNull .encoding sendingConfig) s ∧
      s.sched.schedule .encoding sendingConfig (nixl sendingConfig remoteDecode) =
        .ok (output, sched) ∧ ¬ sched.SharesPrefix output.numCommonPrefixBlocks := by
  have hafter : commonPrefixAfter sendingConfig (nixl sendingConfig remoteDecode) sendingRun =
      some ([2], [[[1, 2, 4], [5, 6]]]) := by decide +kernel
  obtain ⟨s₀, s, output, sched, hinit, hreach, hsched, hcommon, htables⟩ :=
    commonPrefixAfter_ok hafter
  refine ⟨s₀, s, output, sched, hinit, hreach, hsched, fun hshares => ?_⟩
  obtain ⟨m, hm, htables⟩ := List.map_eq_singleton_iff.mp htables
  obtain ⟨r₂, l, hrunning, h₂, htail⟩ := List.map_eq_cons_iff.mp htables
  obtain ⟨r₃, rfl, h₃⟩ := List.map_eq_singleton_iff.mp htail
  have hsame := (hshares 0 2 m (by rw [hcommon]; rfl) (by rw [hm]; rfl) r₂
    (by simp [hrunning])).2 r₃ (by simp [hrunning])
  rw [h₂, h₃] at hsame
  exact absurd hsame (by decide)

end Runs

end InferenceServer
