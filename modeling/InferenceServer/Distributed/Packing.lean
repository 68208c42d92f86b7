import InferenceServer.Distributed.Rebalance
import InferenceServer.Lib.Ranked

/-!
# Packing and replication

The two greedy loops of the load balancer hand out places one at a time: a pack gives the next group its
next rank, an expert gives the next slot its next replica. Which pack or expert is taken depends on the
loads, but each group gets a place of its own, and the replicas of an expert are numbered.

## Main results

* `balancedPacking_ok`, `replicateExperts_ok`, `inverse_ok`, `packReplicas_ok`, `packGroups_ok`
-/

namespace InferenceServer.Distributed

open Outcome
open Function (update update_of_ne update_self)
open List (range replicate zipWith)

variable {W : Type} {L : LoadOps W}

theorem range_cast (n : Nat) : ((range n).map fun i : Nat => (i : Int)) = intTab n fun i => i := rfl

theorem replicate_intTab (n a : Nat) : replicate n (a : Int) = intTab n fun _ => a :=
  replicate_eq_tab n (a : Int)

theorem exactly_ok {a b : Nat} {site : Site} (hb : 0 < b) (h : b ∣ a) :
    exactly a b site = .ok (a / b) := by
  rw [exactly, bind_of_ok (require_of (by omega)),
    bind_of_ok (require_of (Nat.mod_eq_zero_of_dvd h))]
  rfl

theorem mapM_tab {α β : Type} {n : Nat} {f : α → Except PyError β} {a : Nat → α} {b : Nat → β}
    (h : ∀ i < n, f (a i) = .ok (b i)) : (tab n a).mapM f = .ok (tab n b) := by
  induction n with
  | zero => rfl
  | succ n ih =>
    rw [tab_succ, tab_succ, List.mapM_append, ih fun i hi => h i (by omega)]
    simp only [List.mapM_cons, List.mapM_nil, h n (by omega)]
    rfl

/-! ## Packing -/

/-- The first `k` items of the order `σ` have been packed. -/
structure PackedUpTo (n numPacks groupsPerPack : Nat) (σ : Nat → Nat) (k : Nat) (s : Packing W)
    (pack rank items : Nat → Nat) : Prop where
  packItems : s.packItems = tab numPacks items
  packIndex : ∃ f, s.packIndex = tab n f ∧ ∀ p < k, f (σ p) = pack p
  rankInPack : ∃ f, s.rankInPack = tab n f ∧ ∀ p < k, f (σ p) = rank p
  ranked : Ranked numPacks k pack rank items
  room : ∀ j < numPacks, items j ≤ groupsPerPack

/-- As long as there are items, a pack has room. -/
theorem exists_room {m g k : Nat} {pack rank items : Nat → Nat} (h : Ranked m k pack rank items)
    (hk : k < m * g) : ∃ j < m, items j < g := by
  by_contra hfull
  push Not at hfull
  have hle : (Finset.range m).card • g ≤ ∑ j ∈ Finset.range m, items j :=
    Finset.card_nsmul_le_sum _ _ _ fun j hj => hfull j (Finset.mem_range.mp hj)
  rw [h.sum_count, Finset.card_range, smul_eq_mul] at hle
  omega

theorem minBy_isSome {lt : W → W → Bool} {key : Nat → W} {l : List Nat} (h : l ≠ []) :
    ∃ i, minBy lt key l = some i := by
  cases l with
  | nil => exact absurd rfl h
  | cons i is => exact ⟨_, rfl⟩

/-- **One group** is packed. -/
theorem packGroup_ok {weight : List W} {m g k : Nat} {σ τ pack rank items : Nat → Nat}
    {s : Packing W} (hσ : PermOn (m * g) σ τ) (h : PackedUpTo (m * g) m g σ k s pack rank items)
    (hk : k < m * g) :
    ∃ s' pack' rank' items', packGroup L weight m g (σ k) s = .ok s' ∧
      PackedUpTo (m * g) m g σ (k + 1) s' pack' rank' items' := by
  have hitems : ∀ j < m, s.packItems.getD j 0 = items j := fun j hj => by
    rw [h.packItems, getD_tab items 0 hj]
  -- the lightest pack with room
  obtain ⟨j, hj, hroom⟩ := exists_room h.ranked hk
  obtain ⟨e, hmin⟩ := @minBy_isSome W L.lt (fun i => s.packWeights.getD i L.zero)
    ((range m).filter fun i => s.packItems.getD i 0 < g) (by
      refine List.ne_nil_of_mem (List.mem_filter.mpr ⟨List.mem_range.mpr hj, ?_⟩)
      rw [hitems j hj]
      exact decide_eq_true hroom)
  obtain ⟨he, hfree⟩ := List.mem_filter.mp (minBy_mem hmin)
  have he : e < m := List.mem_range.mp he
  have hfree : items e < g := by
    rw [hitems e he] at hfree
    exact of_decide_eq_true hfree
  have hsame : ∀ p < k, σ p ≠ σ k := fun p hp heq =>
    hp.ne (hσ.inj p (by omega) k hk heq)
  obtain ⟨f, hf, hfσ⟩ := h.packIndex
  obtain ⟨f', hf', hfσ'⟩ := h.rankInPack
  let s' : Packing W := {
    packIndex := s.packIndex.set (σ k) (e : Int)
    rankInPack := s.rankInPack.set (σ k) (items e : Int)
    packWeights := s.packWeights.set e
      (L.add (s.packWeights.getD e L.zero) (weight.getD (σ k) L.zero))
    packItems := s.packItems.set e (items e + 1) }
  refine ⟨s', update pack k e, update rank k (items e),
    update items e (items e + 1), ?_, ?_, ?_, ?_, h.ranked.snoc he, fun j hj => ?_⟩
  · rw [packGroup, hmin]
    dsimp only
    rw [hitems e he, bind_of_ok (require_of hfree)]
    rfl
  · change s.packItems.set e (items e + 1) = _
    rw [h.packItems, set_tab]
  · refine ⟨update f (σ k) (e : Int), ?_, fun p hp => ?_⟩
    · change s.packIndex.set (σ k) (e : Int) = _
      rw [hf, set_tab]
    · rcases Nat.lt_succ_iff_lt_or_eq.mp hp with hp | rfl
      · rw [update_of_ne (hsame p hp), update_of_ne hp.ne, hfσ p hp]
      · rw [update_self, update_self]
  · refine ⟨update f' (σ k) (items e : Int), ?_, fun p hp => ?_⟩
    · change s.rankInPack.set (σ k) (items e : Int) = _
      rw [hf', set_tab]
    · rcases Nat.lt_succ_iff_lt_or_eq.mp hp with hp | rfl
      · rw [update_of_ne (hsame p hp), update_of_ne hp.ne, hfσ' p hp]
      · rw [update_self, update_self]
  · by_cases hje : j = e
    · rw [hje, update_self]
      exact hfree
    · rw [update_of_ne hje]
      exact h.room j hj

/-- The loop over the groups. -/
theorem packLoop_ok {weight : List W} {m g : Nat} {σ τ : Nat → Nat} (hσ : PermOn (m * g) σ τ)
    {s : Packing W} {pack rank : Nat → Nat}
    (h : PackedUpTo (m * g) m g σ 0 s pack rank fun _ => 0) {k : Nat} (hk : k ≤ m * g) :
    ∃ s' pack' rank' items', threadM (packGroup L weight m g) (tab k σ) s = .ok s' ∧
      PackedUpTo (m * g) m g σ k s' pack' rank' items' := by
  induction k with
  | zero => exact ⟨s, pack, rank, _, rfl, h⟩
  | succ k ih =>
    obtain ⟨s₁, pack₁, rank₁, items₁, hs₁, h₁⟩ := ih (by omega)
    obtain ⟨s₂, pack₂, rank₂, items₂, hs₂, h₂⟩ :=
      @packGroup_ok W L weight m g k σ τ pack₁ rank₁ items₁ s₁ hσ h₁ hk
    refine ⟨s₂, pack₂, rank₂, items₂, ?_, h₂⟩
    rw [tab_succ, threadM_append, bind_of_ok hs₁, threadM, bind_of_ok hs₂]
    rfl

/-- **`balanced_packing`** gives every item a place of its own. -/
theorem balancedPacking_ok (L : LoadOps W) {weight : List W} {m g : Nat} (hm : 0 < m)
    (hlen : weight.length = m * g) :
    ∃ pack rank, balancedPacking L weight m = .ok (intTab (m * g) pack, intTab (m * g) rank) ∧
      (∀ i < m * g, pack i < m) ∧ (∀ i < m * g, rank i < g) ∧
      ∀ i < m * g, ∀ j < m * g, pack i = pack j → rank i = rank j → i = j := by
  have hdiv : weight.length / m = g := by rw [hlen, Nat.mul_div_cancel_left g hm]
  rw [balancedPacking, bind_of_ok (exactly_ok hm (hlen ▸ Nat.dvd_mul_right m g)), hdiv]
  by_cases hone : g = 1
  · -- every item is a pack
    subst hone
    rw [if_pos rfl, hlen, Nat.mul_one]
    refine ⟨fun i => i, fun _ => 0, ?_, fun i hi => hi, fun i _ => Nat.zero_lt_one,
      fun i _ j _ h _ => h⟩
    rw [range_cast, ← Nat.cast_zero, replicate_intTab]
    rfl
  · rw [if_neg hone]
    obtain ⟨σ, τ, horder, hσ⟩ := exists_tab_of_perm (hlen ▸ L.argsort_perm weight)
    have hstart : PackedUpTo (m * g) m g σ 0
        { packWeights := replicate m L.zero
          packItems := replicate m 0
          packIndex := replicate weight.length (-1)
          rankInPack := replicate weight.length (-1) }
        (fun _ => 0) (fun _ => 0) fun _ => 0 := by
      refine ⟨replicate_eq_tab m 0, ⟨fun _ => -1, ?_, fun p hp => absurd hp (Nat.not_lt_zero p)⟩,
        ⟨fun _ => -1, ?_, fun p hp => absurd hp (Nat.not_lt_zero p)⟩, .empty m _ _,
        fun _ _ => Nat.zero_le _⟩
      · change replicate weight.length (-1) = _
        rw [hlen, replicate_eq_tab]
      · change replicate weight.length (-1) = _
        rw [hlen, replicate_eq_tab]
    obtain ⟨s, pack, rank, items, hs, h⟩ :=
      @packLoop_ok W L weight m g σ τ hσ _ _ _ hstart (m * g) le_rfl
    obtain ⟨f, hf, hfσ⟩ := h.packIndex
    obtain ⟨f', hf', hfσ'⟩ := h.rankInPack
    refine ⟨fun i => pack (τ i), fun i => rank (τ i), ?_, fun i hi => ?_, fun i hi => ?_,
      fun i hi j hj hpack hrank => ?_⟩
    · rw [horder, bind_of_ok hs, hf, hf']
      refine congrArg Except.ok (Prod.ext (tab_congr fun i hi => ?_) (tab_congr fun i hi => ?_))
      · rw [← hfσ _ (hσ.inv_lt i hi), hσ.apply_inv i hi]
      · rw [← hfσ' _ (hσ.inv_lt i hi), hσ.apply_inv i hi]
    · exact h.ranked.owner_lt _ (hσ.inv_lt i hi)
    · exact (h.ranked.rank_lt _ (hσ.inv_lt i hi)).trans_le
        (h.room _ (h.ranked.owner_lt _ (hσ.inv_lt i hi)))
    · exact hσ.symm.inj i hi j hj
        (h.ranked.inj _ (hσ.inv_lt i hi) _ (hσ.inv_lt j hj) hpack hrank)

/-! ## Replication -/

/-- **One slot** gets a replica. -/
theorem replicateExpert_ok {weight : List W} {n k i : Nat} {owner rank count : Nat → Nat}
    (hn : 0 < n) (hlen : weight.length = n) :
    ∃ e < n, replicateExpert L weight i ⟨intTab k owner, intTab k rank, intTab n count⟩ =
      .ok ⟨intTab k (update owner i e), intTab k (update rank i (count e)),
        intTab n (update count e (count e + 1))⟩ := by
  have hscaled : (zipWith L.div weight (intTab n count)).length = n := by
    rw [List.length_zipWith, length_tab, hlen, min_self]
  have hne : zipWith L.div weight (intTab n count) ≠ [] := by
    refine List.length_pos_iff.mp ?_
    rw [hscaled]
    exact hn
  have he := L.argmax_lt _ hne
  rw [hscaled] at he
  refine ⟨_, he, ?_⟩
  have hget : (intTab n count).getD (L.argmax (zipWith L.div weight (intTab n count))) 0 =
      count (L.argmax (zipWith L.div weight (intTab n count))) := getD_tab _ 0 he
  rw [replicateExpert]
  dsimp only
  rw [bind_of_ok (require_of hne), hget]
  refine congrArg Except.ok ?_
  rw [set_intTab, set_intTab, ← Nat.cast_succ, set_intTab]

theorem replicateLoop_ok {weight : List W} {n k : Nat} (hn : 0 < n) (hlen : weight.length = n)
    (j : Nat) :
    ∃ owner rank count, threadM (replicateExpert L weight) (List.range' n j)
        ⟨intTab k fun p => p, intTab k fun _ => 0, intTab n fun _ => 1⟩ =
          .ok ⟨intTab k owner, intTab k rank, intTab n count⟩ ∧
      Ranked n (n + j) owner rank count ∧ ∀ e < n, 1 ≤ count e := by
  induction j with
  | zero => exact ⟨_, _, _, rfl, .id n, fun _ _ => le_rfl⟩
  | succ j ih =>
    obtain ⟨owner, rank, count, hs, hranked, hpos⟩ := ih
    obtain ⟨e, he, hstep⟩ :=
      @replicateExpert_ok W L weight n k (n + j) owner rank count hn hlen
    refine ⟨_, _, _, ?_, hranked.snoc he, fun e' he' => ?_⟩
    · rw [List.range'_1_concat, threadM_append, bind_of_ok hs, threadM, bind_of_ok hstep]
      rfl
    · by_cases hee : e' = e
      · rw [hee, update_self]
        omega
      · rw [update_of_ne hee]
        exact hpos e' he'

/-- **`replicate_experts`** numbers the replicas of every expert, and there is at least one. -/
theorem replicateExperts_ok (L : LoadOps W) {weight : List W} {n k : Nat} (hn : 0 < n)
    (hlen : weight.length = n) (hk : n ≤ k) :
    ∃ owner rank count, replicateExperts L weight k =
        .ok ⟨intTab k owner, intTab k rank, intTab n count⟩ ∧
      Ranked n k owner rank count ∧ ∀ e < n, 1 ≤ count e := by
  obtain ⟨owner, rank, count, hs, hranked, hpos⟩ := replicateLoop_ok (L := L) (k := k) hn hlen (k - n)
  refine ⟨owner, rank, count, ?_, by rwa [Nat.add_sub_cancel' hk] at hranked, hpos⟩
  have hones : replicate n (1 : Int) = intTab n fun _ => 1 := replicate_intTab n 1
  rw [replicateExperts, hlen, bind_of_ok (require_of hk), range_cast, ← Nat.cast_zero, replicate_intTab,
    hones]
  exact hs

/-! ## Permutations -/

/-- **`inverse`** of a permutation. -/
theorem inverse_ok {n : Nat} {σ τ : Nat → Nat} (h : PermOn n σ τ) :
    inverse (intTab n σ) = .ok (intTab n τ) := by
  obtain ⟨f, hf, hset, -⟩ := scatterAt_tab (fun _ => (0 : Int)) (fun i => (i : Int)) h.lt h.inj
  rw [inverse, length_tab, replicate_eq_tab, range_cast, hf]
  refine congrArg Except.ok (tab_congr fun i hi => ?_)
  rw [← hset _ (h.inv_lt i hi), h.apply_inv i hi]

/-- The places of a packing, as one number. -/
theorem places_intTab (n m : Nat) (pack rank : Nat → Nat) :
    zipWith (fun p r => p * (m : Int) + r) (intTab n pack) (intTab n rank) =
      intTab n fun i => pack i * m + rank i := by
  rw [zipWith_tab]
  exact tab_congr fun i _ => by push_cast; rfl

/-- **Step 3** gives the slots of a node other numbers. -/
theorem packReplicas_ok (L : LoadOps W) {weight : List W} {n m g : Nat} {owner rank count : Nat → Nat}
    (hm : 0 < m) (hlen : weight.length = n) (h : Ranked n (m * g) owner rank count) :
    ∃ owner' rank', packReplicas L m g weight
        ⟨intTab (m * g) owner, intTab (m * g) rank, intTab n count⟩ =
          .ok (intTab (m * g) owner', intTab (m * g) rank') ∧
      Ranked n (m * g) owner' rank' count := by
  -- the loads of the replicas
  have : Inhabited W := ⟨L.zero⟩
  obtain ⟨w, hw⟩ := exists_eq_tab weight
  rw [hlen] at hw
  have hgather := @gatherAt_tab W n (m * g) (fun e => L.div (w e) (count e)) owner h.owner_lt
  obtain ⟨pack, place, hpacked, hpack, hplace, hinj⟩ := balancedPacking_ok L hm
    (length_tab (m * g) fun p => L.div (w (owner p)) (count (owner p)))
  obtain ⟨τ, hτ⟩ := PermOn.of_places hpack hplace hinj
  refine ⟨fun p => owner (τ p), fun p => rank (τ p), ?_, h.reorder hτ.symm⟩
  rw [packReplicas, hw, zipWith_tab, hgather]
  change (balancedPacking L _ m >>= _) = _
  rw [bind_of_ok hpacked]
  dsimp only
  rw [places_intTab, bind_of_ok (inverse_ok hτ), gatherAt_tab _ hτ.inv_lt, gatherAt_tab _ hτ.inv_lt]
  rfl

/-- **Step 1** numbers the experts in the order of the nodes; the node of an expert is that of its
group. -/
theorem packGroups_ok (L : LoadOps W) {weight : List W} {numNodes groupsPerNode groupSize : Nat}
    (hnodes : 0 < numNodes) (hsize : 0 < groupSize)
    (hlen : weight.length = numNodes * groupsPerNode * groupSize) :
    ∃ σ τ node : Nat → Nat, packGroups L numNodes groupsPerNode groupSize weight =
        .ok (intTab (numNodes * groupsPerNode * groupSize) σ) ∧
      PermOn (numNodes * groupsPerNode * groupSize) σ τ ∧
      ∀ e < numNodes * groupsPerNode * groupSize,
        σ e / (groupsPerNode * groupSize) = node (e / groupSize) := by
  have : Inhabited W := ⟨L.zero⟩
  obtain ⟨w, hw⟩ := exists_eq_tab weight
  rw [hlen] at hw
  have hgroups : (chunks groupSize weight).map L.sum = tab (numNodes * groupsPerNode) fun a =>
      L.sum (tab groupSize fun b => w (a * groupSize + b)) := by
    rw [hw, chunks_tab hsize, map_tab]
  obtain ⟨pack, rank, hpacked, hpack, hrank, hinj⟩ := balancedPacking_ok L hnodes
    (length_tab (numNodes * groupsPerNode) fun a =>
      L.sum (tab groupSize fun b => w (a * groupSize + b)))
  obtain ⟨τ, hτ⟩ := PermOn.of_places hpack hrank hinj
  refine ⟨fun e => (pack (e / groupSize) * groupsPerNode + rank (e / groupSize)) * groupSize +
    e % groupSize, _, pack, ?_, hτ.blocks groupSize, fun e he => ?_⟩
  · rw [packGroups, hgroups]
    rw [bind_of_ok hpacked]
    refine congrArg Except.ok ?_
    rw [zipWith_tab, List.flatMap_def, map_tab]
    have hrow : ∀ a, ((range groupSize).map fun j : Nat =>
        ((pack a : Int) * groupsPerNode + rank a) * groupSize + j) =
          tab groupSize fun j : Nat => ((pack a : Int) * groupsPerNode + rank a) * groupSize + j :=
      fun a => rfl
    simp only [hrow]
    rw [flatten_tab]
    exact tab_congr fun e _ => by push_cast; rfl
  · have hgroup : e / groupSize < numNodes * groupsPerNode :=
      Nat.div_lt_of_lt_mul (Nat.mul_comm _ groupSize ▸ he)
    have hplace : rank (e / groupSize) * groupSize + e % groupSize < groupsPerNode * groupSize :=
      mul_add_lt (hrank _ hgroup) (Nat.mod_lt e hsize)
    dsimp only
    rw [Nat.add_mul, Nat.add_assoc, Nat.mul_assoc]
    exact (div_mod_of_lt hplace).1

end InferenceServer.Distributed
