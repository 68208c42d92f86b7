import InferenceServer.KVCache.Configs
import InferenceServer.Lib.Bisection

/-!
# The longest model length that fits

If the memory does not hold the KV cache of one request of the maximum length, the engine refuses to
start, and its message suggests a shorter length: `estimate_max_model_len` of
`vllm/v1/core/kv_cache_utils.py` searches the lengths by bisection, and sets the length in the
configuration each time it asks whether one fits.

The search is right because a longer request never needs less memory. Each kind of spec rounds a number
of tokens up to blocks, and that number is the length itself, the length capped by a window, or none.
-/

namespace InferenceServer

open Outcome Bisection

variable (dtypeSize : String → Nat)

/-- The configuration with another maximum model length. -/
def VllmConfig.withMaxModelLen (V : VllmConfig) (modelLen : Int) : VllmConfig :=
  { V with maxModelLen := modelLen.toNat }

section Estimate

variable (specs : List KVCacheSpec) (availableMemory : Int)

/-- `fits_in_memory`. The length stays in the configuration. -/
def fitsInMemory (V : VllmConfig) (modelLen : Int) : Except PyError (Bool × VllmConfig) := do
  let V := V.withMaxModelLen modelLen
  let memoryNeeded ← maxMemoryUsageBytes dtypeSize V specs
  return (memoryNeeded ≤ availableMemory, V)

/-- The loop of `estimate_max_model_len`. -/
def estimateLoop (V : VllmConfig) (left right result : Int) : Except PyError (Int × VllmConfig) :=
  if left ≤ right then do
    let mid := Int.fdiv (left + right) 2
    let (fits, V) ← fitsInMemory dtypeSize specs availableMemory V mid
    if fits then estimateLoop V (mid + 1) right mid
    else estimateLoop V left (mid - 1) result
  else .ok (result, V)
termination_by (right + 1 - left).toNat
decreasing_by
  all_goals
    rw [Int.fdiv_eq_ediv_of_nonneg _ (by decide)]
    omega

/-- `estimate_max_model_len`, with the configuration that it leaves behind. -/
def estimateMaxModelLen (V : VllmConfig) (d : LayerSpecs) : Except PyError (Int × VllmConfig) := do
  let currentMax := V.maxModelLen
  let (fits, V) ← fitsInMemory dtypeSize d.values availableMemory V 1
  if fits then estimateLoop dtypeSize d.values availableMemory V 1 currentMax 1
  else return (0, V)

end Estimate

/-! ## The memory of a request -/

/-- The specs whose memory is defined: a block has a positive number of tokens, and a page is padded
to at least its size, as `page_size_bytes` asserts. -/
def KVCacheSpec.Sized (s : KVCacheSpec) : Prop :=
  0 < s.blockSize ∧ (s.pageSizeBytes dtypeSize).isOk

variable {dtypeSize} {V : VllmConfig} {specs : List KVCacheSpec} {availableMemory : Int}

/-- The number of tokens for which blocks are held grows with the length, and the number of blocks
besides does not depend on it. -/
theorem KVCacheSpec.maxTokens_mono (s : KVCacheSpec) {m n : Int} (h : m ≤ n) :
    (s.maxTokens (V.withMaxModelLen m)).1 ≤ (s.maxTokens (V.withMaxModelLen n)).1 ∧
      (s.maxTokens (V.withMaxModelLen m)).2 = (s.maxTokens (V.withMaxModelLen n)).2 := by
  have hlen : ((V.withMaxModelLen m).maxModelLen : Int) ≤ (V.withMaxModelLen n).maxModelLen := by
    simp only [VllmConfig.withMaxModelLen]
    omega
  cases s with
  | fullAttention => exact ⟨hlen, rfl⟩
  | slidingWindow => exact ⟨min_le_min le_rfl hlen, rfl⟩
  | chunkedLocalAttention => exact ⟨min_le_min le_rfl hlen, rfl⟩
  | mamba => exact ⟨le_rfl, rfl⟩

/-- The memory of a spec, of any kind, at two lengths. -/
theorem KVCacheSpec.maxMemoryUsageBytes_mono {s : KVCacheSpec} (hs : s.Sized dtypeSize) {m n : Int}
    (h : m ≤ n) : ∃ a b, s.maxMemoryUsageBytes dtypeSize (V.withMaxModelLen m) = .ok a ∧
      s.maxMemoryUsageBytes dtypeSize (V.withMaxModelLen n) = .ok b ∧ a ≤ b := by
  obtain ⟨hpos, hpage⟩ := hs
  obtain ⟨pageSize, hpage⟩ := isOk_iff.mp hpage
  obtain ⟨htokens, hextra⟩ := s.maxTokens_mono (V := V) h
  have hblocks := cdiv_mono (Int.natCast_pos.mpr hpos) htokens
  have husage := Int.mul_le_mul_of_nonneg_right (add_le_add hblocks (le_of_eq hextra))
    (Int.natCast_nonneg pageSize)
  unfold maxMemoryUsageBytes
  rw [hpage]
  cases s with
  | mamba => exact ⟨_, _, rfl, rfl, le_rfl⟩
  | fullAttention | slidingWindow | chunkedLocalAttention =>
    exact ⟨_, _, bind_of_ok (require_of hpos), bind_of_ok (require_of hpos), husage⟩

/-- **A longer request needs at least as much memory**, for every mixture of specs. -/
theorem maxMemoryUsageBytes_mono (hspecs : ∀ s ∈ specs, s.Sized dtypeSize) {m n : Int} (h : m ≤ n) :
    ∃ a b, maxMemoryUsageBytes dtypeSize (V.withMaxModelLen m) specs = .ok a ∧
      maxMemoryUsageBytes dtypeSize (V.withMaxModelLen n) specs = .ok b ∧ a ≤ b := by
  have hsum : ∃ as bs, specs.mapM
        (KVCacheSpec.maxMemoryUsageBytes dtypeSize (V.withMaxModelLen m)) = .ok as ∧
      specs.mapM (KVCacheSpec.maxMemoryUsageBytes dtypeSize (V.withMaxModelLen n)) = .ok bs ∧
      as.sum ≤ bs.sum := by
    induction specs with
    | nil => exact ⟨[], [], rfl, rfl, le_rfl⟩
    | cons s specs ih =>
      obtain ⟨a, b, ha, hb, hab⟩ :=
        KVCacheSpec.maxMemoryUsageBytes_mono (V := V) (hspecs s List.mem_cons_self) h
      obtain ⟨as, bs, has, hbs, hsum⟩ := ih fun s hs => hspecs s (List.mem_cons_of_mem _ hs)
      refine ⟨a :: as, b :: bs, ?_, ?_, ?_⟩
      · exact mapM_eq_ok.mpr (.cons ha (mapM_eq_ok.mp has))
      · exact mapM_eq_ok.mpr (.cons hb (mapM_eq_ok.mp hbs))
      · rw [List.sum_cons, List.sum_cons]
        exact add_le_add hab hsum
  obtain ⟨as, bs, has, hbs, hsum⟩ := hsum
  exact ⟨as.sum, bs.sum, bind_of_ok has, bind_of_ok hbs, hsum⟩

/-! ## The search -/

/-- A length that fits in the memory. -/
def FitsInMemory (dtypeSize : String → Nat) (V : VllmConfig) (specs : List KVCacheSpec)
    (availableMemory modelLen : Int) : Prop :=
  ∃ usage, maxMemoryUsageBytes dtypeSize (V.withMaxModelLen modelLen) specs = .ok usage ∧
    usage ≤ availableMemory

variable (hspecs : ∀ s ∈ specs, s.Sized dtypeSize)

include hspecs

theorem FitsInMemory.mono {m n : Int} (h : m ≤ n)
    (hn : FitsInMemory dtypeSize V specs availableMemory n) :
    FitsInMemory dtypeSize V specs availableMemory m := by
  obtain ⟨usage, husage, hle⟩ := hn
  obtain ⟨a, b, ha, hb, hab⟩ := maxMemoryUsageBytes_mono (V := V) hspecs h
  obtain rfl : b = usage := Except.ok.inj (hb.symm.trans husage)
  exact ⟨a, ha, hab.trans hle⟩

/-- A question of the search is answered right, whatever length was asked for before. -/
theorem fitsInMemory_ok (V : VllmConfig)
    (availableMemory modelLen : Int) {V' : VllmConfig} {len : Int} (hV' : V' = V ∨ V' = V.withMaxModelLen len) :
    ∃ fits, fitsInMemory dtypeSize specs availableMemory V' modelLen =
      .ok (fits, V.withMaxModelLen modelLen) ∧
      (fits = true ↔ FitsInMemory dtypeSize V specs availableMemory modelLen) := by
  obtain ⟨usage, -, husage, -⟩ :=
    maxMemoryUsageBytes_mono (V := V) hspecs (le_refl modelLen)
  have hsame : V'.withMaxModelLen modelLen = V.withMaxModelLen modelLen := by
    rcases hV' with rfl | rfl <;> rfl
  refine ⟨usage ≤ availableMemory, ?_, ?_⟩
  · unfold fitsInMemory
    simp only [hsame]
    exact bind_of_ok husage
  · rw [decide_eq_true_iff]
    refine ⟨fun hle => ⟨usage, husage, hle⟩, ?_⟩
    rintro ⟨usage', husage', hle⟩
    rwa [Except.ok.inj (husage.symm.trans husage')]

/-- The loop ends with the greatest length that fits. -/
theorem estimateLoop_greatest (len : Int) {top left right result : Int}
    (h : Bracket (FitsInMemory dtypeSize V specs availableMemory) 1 top left right result) :
    ∃ modelLen V', estimateLoop dtypeSize specs availableMemory (V.withMaxModelLen len) left right
        result = .ok (modelLen, V') ∧
      IsGreatest (candidates (FitsInMemory dtypeSize V specs availableMemory) 1 top) modelLen := by
  -- the interval gets shorter with each question
  induction hlength : (right + 1 - left).toNat using Nat.strong_induction_on
    generalizing left right result len with
  | _ length ih =>
    unfold estimateLoop
    split_ifs with hle
    · have hmid : Int.fdiv (left + right) 2 = (left + right) / 2 :=
        Int.fdiv_eq_ediv_of_nonneg _ (by decide)
      obtain ⟨fits, hfits, hiff⟩ := fitsInMemory_ok hspecs V availableMemory
        ((left + right) / 2) (.inr (rfl : V.withMaxModelLen len = _))
      simp only [hmid]
      rw [bind_of_ok hfits]
      cases fits with
      | true =>
        exact ih _ (by omega) _ (h.upper (hiff.mp rfl) (by omega) (by omega)) rfl
      | false =>
        have hbad : ¬ FitsInMemory dtypeSize V specs availableMemory ((left + right) / 2) :=
          fun hgood => Bool.false_ne_true (hiff.mpr hgood)
        exact ih _ (by omega) _ (h.lower (fun m n _ hmn => FitsInMemory.mono hspecs hmn) hbad
          (by omega) (by omega)) rfl
    · exact ⟨result, _, rfl, h.finish (by omega)⟩

omit hspecs

/-- **The suggested length is the greatest one that fits**, and 0 if there is none; and a longer
request needs at least as much memory. -/
theorem estimateMaxModelLen_greatest {d : LayerSpecs} (hlen : 1 ≤ V.maxModelLen)
    (hspecs : ∀ s ∈ d.values, s.Sized dtypeSize) :
    (∃ modelLen V', estimateMaxModelLen dtypeSize availableMemory V d = .ok (modelLen, V') ∧
      (IsGreatest (candidates (FitsInMemory dtypeSize V d.values availableMemory) 1 V.maxModelLen)
          modelLen ∨
        modelLen = 0 ∧
          candidates (FitsInMemory dtypeSize V d.values availableMemory) 1 V.maxModelLen = ∅)) ∧
    ∀ m n : Int, m ≤ n →
      ∃ a b, maxMemoryUsageBytes dtypeSize (V.withMaxModelLen m) d.values = .ok a ∧
        maxMemoryUsageBytes dtypeSize (V.withMaxModelLen n) d.values = .ok b ∧ a ≤ b := by
  refine ⟨?_, fun m n h => maxMemoryUsageBytes_mono hspecs h⟩
  have hsame : V = V ∨ V = V.withMaxModelLen 0 := .inl rfl
  obtain ⟨fits, hfits, hiff⟩ := fitsInMemory_ok hspecs V availableMemory 1 hsame
  unfold estimateMaxModelLen
  rw [bind_of_ok hfits]
  cases fits with
  | true =>
    obtain ⟨modelLen, V', hloop, hgreatest⟩ := estimateLoop_greatest hspecs 1
      (Bracket.start (hiff.mp rfl) (Int.ofNat_le.mpr hlen))
    exact ⟨modelLen, V', hloop, .inl hgreatest⟩
  | false =>
    refine ⟨0, _, rfl, .inr ⟨rfl, Set.eq_empty_of_forall_notMem fun n hn => ?_⟩⟩
    exact Bool.false_ne_true (hiff.mpr (hn.2.2.mono hspecs hn.1))

/-- One layer of each kind. -/
def fourKinds : LayerSpecs :=
  let f : AttentionFormat := { numKvHeads := 2, headSize := 4, dtype := "half", useMla := false }
  Dict.ofEntries [("full", .fullAttention 4 f none none), ("sliding", .slidingWindow 4 f 3),
    ("local", .chunkedLocalAttention 4 f 8), ("mamba", .mamba 4 [[2, 3]] "half" (some 16) "mamba2")]

theorem estimateMaxModelLen_fourKinds :
    ∃ modelLen V', estimateMaxModelLen (fun _ => 2) 2000 ⟨64, 8, none, false⟩ fourKinds =
        .ok (modelLen, V') ∧
      (IsGreatest (candidates (FitsInMemory (fun _ => 2) ⟨64, 8, none, false⟩ fourKinds.values 2000)
          1 64) modelLen ∨
        modelLen = 0 ∧
          candidates (FitsInMemory (fun _ => 2) ⟨64, 8, none, false⟩ fourKinds.values 2000) 1 64 =
            ∅) :=
  (estimateMaxModelLen_greatest (V := ⟨64, 8, none, false⟩) (by decide)
    (by unfold KVCacheSpec.Sized; decide)).1

end InferenceServer
