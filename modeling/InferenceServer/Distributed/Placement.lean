import InferenceServer.Distributed.Packing

/-!
# The placement of the experts

Each step of the load balancer is a renumbering: the experts are numbered in the order of the nodes, the
slots of a node are numbered in the order of its GPUs, and the nodes of a layer are put next to each
other. So from the replicas of the single nodes one gets a numbering of the replicas of each expert by
the slots of the layer, whatever the loads are.

## Main results

* `rebalanceExpertsHierarchical_ok`, `slotsOf_ok`, `rebalance_consistent`
-/

namespace InferenceServer.Distributed

open Outcome

variable {W : Type}

/-! ## The hierarchical policy -/

/-- The maps of a layer, as functions. -/
structure Placed (numLogical numSlots slotsPerNode groupSize : Nat) (owner rank count : Nat → Nat) :
    Prop where
  ranked : Ranked numLogical numSlots owner rank count
  pos : ∀ e < numLogical, 1 ≤ count e
  node : ∃ node : Nat → Nat, ∀ p < numSlots, p / slotsPerNode = node (owner p / groupSize)

/-- The nodes of a layer, one behind the other. -/
theorem zipIdx_flatMap_tab (n k m : Nat) (f : Nat → Nat → Nat) :
    ((tab n fun a => intTab k (f a)).zipIdx.flatMap fun row =>
        row.1.map fun x => x + ((row.2 * m : Nat) : Int)) =
      intTab (n * k) fun p => p / k * m + f (p / k) (p % k) := by
  rw [zipIdx_tab, List.flatMap_def, map_tab]
  simp only [map_tab]
  rw [flatten_tab]
  exact tab_congr fun p _ => by push_cast; ring

/-- The rows of the nodes of a layer become rows of the layer. -/
theorem layers_tab {α : Type} {n : Nat} (hn : 0 < n) (m k : Nat) (f : Nat → Nat → α) :
    (chunks n (tab (m * n) fun t => tab k (f t))).map List.flatten =
      tab m fun l => tab (n * k) fun p => f (l * n + p / k) (p % k) := by
  rw [chunks_tab hn, map_tab]
  exact tab_congr fun l _ => flatten_tab n k fun a => f (l * n + a)

/-- A layer, put together from its nodes. -/
theorem placed_of_nodes {numNodes expertsPerNode slotsPerNode groupSize : Nat}
    {owner rank count : Nat → Nat → Nat} {σ τ node : Nat → Nat}
    (hranked : ∀ a < numNodes, Ranked expertsPerNode slotsPerNode (owner a) (rank a) (count a))
    (hpos : ∀ a < numNodes, ∀ e < expertsPerNode, 1 ≤ count a e)
    (hσ : PermOn (numNodes * expertsPerNode) σ τ)
    (hnode : ∀ e < numNodes * expertsPerNode, σ e / expertsPerNode = node (e / groupSize)) :
    Placed (numNodes * expertsPerNode) (numNodes * slotsPerNode) slotsPerNode groupSize
      (fun p => τ (p / slotsPerNode * expertsPerNode + owner (p / slotsPerNode) (p % slotsPerNode)))
      (fun p => rank (p / slotsPerNode) (p % slotsPerNode))
      fun e => count (σ e / expertsPerNode) (σ e % expertsPerNode) := by
  have hstack := Ranked.stack hranked
  refine ⟨hstack.relabel hσ, fun e he => ?_, node, fun p hp => ?_⟩
  · have hlt := hσ.lt e he
    have hn : 0 < expertsPerNode := Nat.pos_of_ne_zero fun hn => by
      rw [hn, Nat.mul_zero] at he
      omega
    exact hpos _ (Nat.div_lt_of_lt_mul (Nat.mul_comm numNodes _ ▸ hlt)) _ (Nat.mod_lt _ hn)
  · -- the number of the expert in the order of the nodes tells its node
    have hlt := hstack.owner_lt p hp
    have hslots : 0 < slotsPerNode := Nat.pos_of_ne_zero fun hn => by
      rw [hn, Nat.mul_zero] at hp
      omega
    have hplace := (hranked _ (Nat.div_lt_of_lt_mul (Nat.mul_comm numNodes _ ▸ hp))).owner_lt _
      (Nat.mod_lt p hslots)
    rw [← hnode _ (hσ.inv_lt _ hlt), hσ.apply_inv _ hlt]
    exact (div_mod_of_lt hplace).1.symm

/-- `gather(-1, …)`, row by row. -/
theorem gatherRows_tab {α : Type} {n : Nat} {a b : Nat → List α} {i : Nat → List Int}
    (h : ∀ l < n, gatherAt (a l) (i l) = some (b l)) :
    ((tab n a).zip (tab n i)).mapM (fun e => orIndexError (gatherAt e.1 e.2)) = .ok (tab n b) := by
  rw [zip_tab]
  refine mapM_tab fun l hl => ?_
  rw [h l hl]
  rfl

/-- The loads of the experts of each node, in the order of the nodes. -/
theorem gathered_rows (z : W) {layers n k : Nat} (hk : 0 < k) {row : Nat → List W}
    (hrow : ∀ l < layers, (row l).length = n * k) {σ τ : Nat → Nat → Nat}
    (hσ : ∀ l < layers, PermOn (n * k) (σ l) (τ l)) :
    ∃ gathered tokens, ((tab layers row).zip (tab layers fun l => intTab (n * k) (τ l))).mapM
        (fun e => orIndexError (gatherAt e.1 e.2)) = .ok gathered ∧
      chunks k gathered.flatten = tab (layers * n) tokens ∧
      ∀ t < layers * n, (tokens t).length = k := by
  refine ⟨tab layers fun l => tab (n * k) fun j => (row l).getD (τ l j) z,
    fun t => tab k fun b => (row ((t * k + b) / (n * k))).getD
      (τ ((t * k + b) / (n * k)) ((t * k + b) % (n * k))) z, ?_, ?_, fun t _ => length_tab _ _⟩
  · refine gatherRows_tab fun l hl => ?_
    have hfun : row l = tab (n * k) fun e => (row l).getD e z := by
      have : Inhabited W := ⟨z⟩
      obtain ⟨f, hf⟩ := exists_eq_tab (row l)
      rw [hrow l hl] at hf
      conv_lhs => rw [hf]
      refine tab_congr fun e he => ?_
      rw [hf, getD_tab f z he]
    conv_lhs => rw [hfun, gatherAt_tab _ (hσ l hl).inv_lt]
  · rw [flatten_tab, ← Nat.mul_assoc, chunks_tab hk]

/-- **The hierarchical policy** places the experts of every layer. -/
theorem rebalanceExpertsHierarchical_ok (L : LoadOps W) {layers : Nat} {row : Nat → List W}
    {numNodes groupsPerNode groupSize gpusPerNode phyPerGpu : Nat} (hlayers : 0 < layers)
    (hrow : ∀ l < layers, (row l).length = numNodes * groupsPerNode * groupSize)
    (hpos : 0 < numNodes * groupsPerNode * groupSize)
    (hle : numNodes * groupsPerNode * groupSize ≤ numNodes * gpusPerNode * phyPerGpu) :
    ∃ owner rank count : Nat → Nat → Nat,
      rebalanceExpertsHierarchical L (tab layers row) (numNodes * gpusPerNode * phyPerGpu)
          (numNodes * groupsPerNode) numNodes (numNodes * gpusPerNode) =
        .ok (tab layers fun l => intTab (numNodes * gpusPerNode * phyPerGpu) (owner l),
          tab layers fun l => intTab (numNodes * gpusPerNode * phyPerGpu) (rank l),
          tab layers fun l => intTab (numNodes * groupsPerNode * groupSize) (count l)) ∧
      ∀ l < layers, Placed (numNodes * groupsPerNode * groupSize)
        (numNodes * gpusPerNode * phyPerGpu) (gpusPerNode * phyPerGpu) groupSize (owner l) (rank l)
        (count l) := by
  -- all numbers are positive
  have hnodes : 0 < numNodes := Nat.pos_of_ne_zero fun h => by simp [h] at hpos
  have hgroups : 0 < groupsPerNode := Nat.pos_of_ne_zero fun h => by simp [h] at hpos
  have hsize : 0 < groupSize := Nat.pos_of_ne_zero fun h => by simp [h] at hpos
  have hslots : 0 < numNodes * gpusPerNode * phyPerGpu := hpos.trans_le hle
  have hgpus : 0 < gpusPerNode := Nat.pos_of_ne_zero fun h => by simp [h] at hslots
  have hexperts : 0 < groupsPerNode * groupSize := Nat.mul_pos hgroups hsize
  have hne : tab layers row ≠ [] := by
    refine List.length_pos_iff.mp ?_
    rw [length_tab]
    exact hlayers
  have hhead : ((tab layers row).headD []).length = numNodes * groupsPerNode * groupSize := by
    obtain ⟨w, ws, hw⟩ := List.exists_cons_of_ne_nil hne
    obtain ⟨l, hl, rfl⟩ := mem_tab.mp (hw ▸ List.mem_cons_self : w ∈ tab layers row)
    rw [hw]
    exact hrow l hl
  have hle' : groupsPerNode * groupSize ≤ gpusPerNode * phyPerGpu := by
    rw [Nat.mul_assoc, Nat.mul_assoc] at hle
    exact Nat.le_of_mul_le_mul_left hle hnodes
  -- Step 1
  have hstep1 := fun l (hl : l < layers) => packGroups_ok L hnodes hsize (hrow l hl)
  choose! σ τ node hpack hσ hnode using hstep1
  simp only [Nat.mul_assoc] at hrow hpack hσ hnode hhead ⊢
  -- Step 2
  obtain ⟨gathered, tokens, hgathered, htokens, hlen⟩ := gathered_rows L.zero hexperts hrow hσ
  have hstep2 := fun t (ht : t < layers * numNodes) =>
    replicateExperts_ok L hexperts (hlen t ht) hle'
  choose! owner rank count hreplicated hranked hcount using hstep2
  -- Step 3
  have hstep3 := fun t (ht : t < layers * numNodes) =>
    packReplicas_ok L hgpus (hlen t ht) (hranked t ht)
  choose! owner' rank' hpacked hranked' using hstep3
  have hblock : ∀ l < layers, ∀ a < numNodes, l * numNodes + a < layers * numNodes :=
    fun l hl a ha => mul_add_lt hl ha
  have hplaced := fun l (hl : l < layers) => placed_of_nodes
    (fun a ha => hranked' _ (hblock l hl a ha)) (fun a ha => hcount _ (hblock l hl a ha)) (hσ l hl)
    (hnode l hl)
  refine ⟨_, _, _, ?_, hplaced⟩
  have hexact : ∀ a b, 0 < b → ∀ site, exactly (b * a) b site = .ok a := fun a b hb site => by
    rw [exactly_ok hb (Nat.dvd_mul_right b a), Nat.mul_div_cancel_left a hb]
  have hperNode : numNodes * (groupsPerNode * groupSize) / numNodes = groupsPerNode * groupSize :=
    Nat.mul_div_cancel_left _ hnodes
  have hslotsPerNode : numNodes * (gpusPerNode * phyPerGpu) / numNodes = gpusPerNode * phyPerGpu :=
    Nat.mul_div_cancel_left _ hnodes
  have hgroupSize : exactly (numNodes * (groupsPerNode * groupSize)) (numNodes * groupsPerNode)
      .rebalanceExpertsHierarchical = .ok groupSize := by
    rw [← Nat.mul_assoc]
    exact hexact _ _ (Nat.mul_pos hnodes hgroups) _
  have hphyPerGpu : exactly (numNodes * (gpusPerNode * phyPerGpu)) (numNodes * gpusPerNode)
      .rebalanceExpertsHierarchical = .ok phyPerGpu := by
    rw [← Nat.mul_assoc]
    exact hexact _ _ (Nat.mul_pos hnodes hgpus) _
  rw [rebalanceExpertsHierarchical, hhead, bind_of_ok hgroupSize,
    bind_of_ok (hexact groupsPerNode numNodes hnodes _),
    bind_of_ok (hexact gpusPerNode numNodes hnodes _), bind_of_ok hphyPerGpu,
    bind_of_ok (mapM_tab hpack), bind_of_ok (mapM_tab fun l hl => inverse_ok (hσ l hl)),
    bind_of_ok hgathered]
  dsimp only
  rw [hperNode, hslotsPerNode, htokens, bind_of_ok (mapM_tab hreplicated), zip_tab,
    bind_of_ok (mapM_tab hpacked), bind_of_ok (require_of hne)]
  -- the rows of the nodes of a layer are put together
  have hrows : (chunks numNodes (tab (layers * numNodes) fun t =>
        intTab (gpusPerNode * phyPerGpu) (owner' t))).map (fun rows => rows.zipIdx.flatMap fun row =>
          row.1.map fun m => m + ((row.2 * (groupsPerNode * groupSize) : Nat) : Int)) =
      tab layers fun l => intTab (numNodes * (gpusPerNode * phyPerGpu)) fun p =>
        p / (gpusPerNode * phyPerGpu) * (groupsPerNode * groupSize) +
          owner' (l * numNodes + p / (gpusPerNode * phyPerGpu)) (p % (gpusPerNode * phyPerGpu)) := by
    rw [chunks_tab hnodes, map_tab]
    exact tab_congr fun l _ => zipIdx_flatMap_tab numNodes _ _ fun a => owner' (l * numNodes + a)
  have hlog : ∀ l < layers, gatherAt
        (intTab (numNodes * (groupsPerNode * groupSize)) (τ l))
        (intTab (numNodes * (gpusPerNode * phyPerGpu)) fun p =>
          p / (gpusPerNode * phyPerGpu) * (groupsPerNode * groupSize) +
            owner' (l * numNodes + p / (gpusPerNode * phyPerGpu)) (p % (gpusPerNode * phyPerGpu))) =
      some (intTab (numNodes * (gpusPerNode * phyPerGpu)) fun p => τ l
        (p / (gpusPerNode * phyPerGpu) * (groupsPerNode * groupSize) +
          owner' (l * numNodes + p / (gpusPerNode * phyPerGpu)) (p % (gpusPerNode * phyPerGpu)))) := by
    intro l hl
    rw [gatherAt_tab _ (Ranked.stack fun a ha => hranked' _ (hblock l hl a ha)).owner_lt]
  have hcnt : ∀ l < layers, gatherAt
        (tab (numNodes * (groupsPerNode * groupSize)) fun p =>
          (count (l * numNodes + p / (groupsPerNode * groupSize)) (p % (groupsPerNode * groupSize)) :
            Int))
        (intTab (numNodes * (groupsPerNode * groupSize)) (σ l)) =
      some (intTab (numNodes * (groupsPerNode * groupSize)) fun e =>
        count (l * numNodes + σ l e / (groupsPerNode * groupSize))
          (σ l e % (groupsPerNode * groupSize))) := by
    intro l hl
    rw [gatherAt_tab _ (hσ l hl).lt]
  simp only [map_tab]
  rw [hrows, layers_tab hnodes, layers_tab hnodes, bind_of_ok (gatherRows_tab hlog),
    bind_of_ok (gatherRows_tab hcnt)]
  rfl

/-! ## The slots of an expert -/

/-- **The slots** of each expert are at the ranks of its replicas, and behind them there is `-1`. -/
theorem slotsOf_ok {n k : Nat} {owner rank count : Nat → Nat} (h : Ranked n k owner rank count)
    (hpos : ∀ e < n, 1 ≤ count e) (hn : n ≤ k) :
    ∃ f : Nat → Nat → Int, slotsOf k n (intTab k owner) (intTab k rank) =
        .ok (tab n fun e => tab (k - n + 1) (f e)) ∧
      ∀ e < n, count e ≤ k - n + 1 ∧
        (∀ p < k, owner p = e → f e (rank p) = p) ∧
        ∀ r < k - n + 1, count e ≤ r → f e r = -1 := by
  have hcount : ∀ e < n, count e ≤ k - n + 1 := fun e he => by
    have := h.count_add_le hpos he
    omega
  have hrank : ∀ p < k, rank p < k - n + 1 := fun p hp =>
    (h.rank_lt p hp).trans_le (hcount _ (h.owner_lt p hp))
  have hdivmod := fun p (hp : p < k) => @div_mod_of_lt (owner p) (rank p) (k - n + 1) (hrank p hp)
  obtain ⟨f, hf, hset, hkeep⟩ := @scatterAt_tab Int (n * (k - n + 1)) k (fun _ => -1)
    (fun p => owner p * (k - n + 1) + rank p) (fun p => (p : Int))
    (fun p hp => mul_add_lt (h.owner_lt p hp) (hrank p hp)) (fun p hp q hq heq => by
      refine h.inj p hp q hq ?_ ?_
      · rw [← (hdivmod p hp).1, ← (hdivmod q hq).1, heq]
      · rw [← (hdivmod p hp).2, ← (hdivmod q hq).2, heq])
  refine ⟨fun e r => f (e * (k - n + 1) + r), ?_, fun e he => ⟨hcount e he, ?_, ?_⟩⟩
  · rw [slotsOf, places_intTab, replicate_eq_tab, range_cast, hf]
    exact congrArg Except.ok (chunks_tab (Nat.succ_pos _) f)
  · rintro p hp rfl
    exact hset p hp
  · intro r hr hle
    refine hkeep _ (mul_add_lt he hr) fun p hp heq => ?_
    -- the place is not one of a replica
    obtain ⟨hd, hm⟩ := @div_mod_of_lt e r _ hr
    have howner : owner p = e := by rw [← (hdivmod p hp).1, heq, hd]
    have hrankp : rank p = r := by rw [← (hdivmod p hp).2, heq, hm]
    have := h.rank_lt p hp
    rw [howner, hrankp] at this
    omega

/-! ## The maps of a layer -/

/-- **The maps of a layer are consistent**: every logical expert has a replica, the counts sum to the
number of slots, and the entries of `log2phy` that are not negative are the first ones, and they are the
slots that hold the expert. -/
structure Consistent (numLogical numReplicas : Nat) (phy2log : List Int) (log2phy : List (List Int))
    (logcnt : List Int) : Prop where
  length_phy2log : phy2log.length = numReplicas
  length_log2phy : log2phy.length = numLogical
  length_logcnt : logcnt.length = numLogical
  sum : logcnt.sum = numReplicas
  experts : ∀ e < numLogical, ∃ (row : List Int) (c : Nat), log2phy[e]? = some row ∧
    logcnt[e]? = some (c : Int) ∧ 1 ≤ c ∧ c ≤ row.length ∧
    (∀ r x, row[r]? = some x → (0 ≤ x ↔ r < c)) ∧ (row.take c).Nodup ∧
    ∀ p : Nat, (p : Int) ∈ row.take c ↔ phy2log[p]? = some (e : Int)

/-- **The replicas of an expert group** lie on one node. -/
def GroupsOnNodes (groupSize slotsPerGpu gpusPerNode : Nat) (phy2log : List Int) : Prop :=
  ∀ group, ∃ node, ∀ p e : Nat, phy2log[p]? = some (e : Int) → e / groupSize = group →
    p / slotsPerGpu / gpusPerNode = node

theorem sum_intTab (n : Nat) (f : Nat → Nat) :
    (intTab n f).sum = ((∑ i ∈ Finset.range n, f i : Nat) : Int) := by
  induction n with
  | zero => rfl
  | succ n ih =>
    rw [intTab, tab_succ, List.sum_append, List.sum_singleton, Finset.sum_range_succ]
    rw [intTab] at ih
    rw [ih]
    rfl

theorem take_tab {α : Type} {n c : Nat} (f : Nat → α) (h : c ≤ n) : (tab n f).take c = tab c f := by
  rw [tab, ← List.map_take, List.take_range, min_eq_left h]
  rfl

/-- A numbering of the replicas gives consistent maps. -/
theorem consistent_of_ranked {n k : Nat} {owner rank count : Nat → Nat}
    (h : Ranked n k owner rank count) (hpos : ∀ e < n, 1 ≤ count e) {f : Nat → Nat → Int}
    (hf : ∀ e < n, count e ≤ k - n + 1 ∧ (∀ p < k, owner p = e → f e (rank p) = p) ∧
      ∀ r < k - n + 1, count e ≤ r → f e r = -1) :
    Consistent n k (intTab k owner) (tab n fun e => tab (k - n + 1) (f e)) (intTab n count) where
  length_phy2log := length_tab _ _
  length_log2phy := length_tab _ _
  length_logcnt := length_tab _ _
  sum := by rw [sum_intTab, h.sum_count]
  experts e he := by
    obtain ⟨hle, hset, hrest⟩ := hf e he
    -- the entry at a rank below the count is the slot of that replica
    have hslot : ∀ r < count e, ∃ p < k, owner p = e ∧ rank p = r ∧ f e r = p := by
      intro r hr
      obtain ⟨p, hp, hpe, hpr⟩ := h.surj e he r hr
      exact ⟨p, hp, hpe, hpr, hpr ▸ hset p hp hpe⟩
    refine ⟨_, count e, getElem?_tab _ he, getElem?_tab _ he, hpos e he, ?_, fun r x hx => ?_, ?_,
      fun p => ?_⟩
    · rw [length_tab]
      exact hle
    · obtain ⟨hr, rfl⟩ := getElem?_tab_eq_some.mp hx
      constructor
      · intro hx
        by_contra hge
        rw [hrest r hr (by omega)] at hx
        exact absurd hx (by decide)
      · intro hlt
        obtain ⟨p, -, -, -, hfr⟩ := hslot r hlt
        rw [hfr]
        exact Int.natCast_nonneg p
    · rw [take_tab _ hle]
      refine List.Nodup.map_on (fun r hr r' hr' heq => ?_) List.nodup_range
      obtain ⟨p, -, -, hpr, hfr⟩ := hslot r (List.mem_range.mp hr)
      obtain ⟨p', -, -, hpr', hfr'⟩ := hslot r' (List.mem_range.mp hr')
      rw [hfr, hfr', Nat.cast_inj] at heq
      rw [← hpr, ← hpr', heq]
    · rw [take_tab _ hle, mem_tab]
      constructor
      · rintro ⟨r, hr, hfr⟩
        obtain ⟨p', hp', hpe, -, hfr'⟩ := hslot r hr
        rw [hfr', Nat.cast_inj] at hfr
        subst hfr
        exact getElem?_tab_eq_some.mpr ⟨hp', by rw [hpe]⟩
      · intro hp
        obtain ⟨hp, hpe⟩ := getElem?_tab_eq_some.mp hp
        have howner : owner p = e := by exact_mod_cast hpe
        exact ⟨rank p, howner ▸ h.rank_lt p hp, hset p hp howner⟩

/-! ## The entry point -/

/-- A load matrix: the loads of the logical experts in each layer. -/
structure LoadMatrix (W : Type) where
  rows : List (List W)
  numLogicalExperts : Nat
  nonempty : rows ≠ []
  pos : 0 < numLogicalExperts
  uniform : ∀ w ∈ rows, w.length = numLogicalExperts

/-- The arguments that the load balancer admits. -/
structure Admitted (numLogical numReplicas numGroups numNodes numGpus : Nat) : Prop where
  nodes : numNodes ≠ 0
  replicas : numLogical ≤ numReplicas
  gpus : numGpus ∣ numReplicas
  hierarchical : numNodes ∣ numGroups → numGroups ∣ numLogical ∧ numNodes ∣ numGpus

/-- The maps of all layers, from those of the policy. -/
theorem rebalanceExperts_of_placed (L : LoadOps W) (m : LoadMatrix W)
    {numReplicas numGroups numNodes numGpus slotsPerNode groupSize : Nat}
    {owner rank count : Nat → Nat → Nat} (hnodes : numNodes ≠ 0)
    (hle : m.numLogicalExperts ≤ numReplicas)
    (hpolicy : (if numGroups % numNodes = 0 then
        rebalanceExpertsHierarchical L m.rows numReplicas numGroups numNodes numGpus
      else rebalanceExpertsHierarchical L m.rows numReplicas 1 1 numGpus) =
      .ok (tab m.rows.length fun l => intTab numReplicas (owner l),
        tab m.rows.length fun l => intTab numReplicas (rank l),
        tab m.rows.length fun l => intTab m.numLogicalExperts (count l)))
    (hplaced : ∀ l < m.rows.length, Placed m.numLogicalExperts numReplicas slotsPerNode groupSize
      (owner l) (rank l) (count l)) :
    ∃ log2phy, rebalanceExperts L m.rows numReplicas numGroups numNodes numGpus =
        .ok (tab m.rows.length fun l => intTab numReplicas (owner l), tab m.rows.length log2phy,
          tab m.rows.length fun l => intTab m.numLogicalExperts (count l)) ∧
      ∀ l < m.rows.length, Consistent m.numLogicalExperts numReplicas
        (intTab numReplicas (owner l)) (log2phy l) (intTab m.numLogicalExperts (count l)) := by
  have hslots := fun l (hl : l < m.rows.length) =>
    slotsOf_ok (hplaced l hl).ranked (hplaced l hl).pos hle
  choose! f hf hspec using hslots
  refine ⟨_, ?_, fun l hl => consistent_of_ranked (hplaced l hl).ranked (hplaced l hl).pos (hspec l hl)⟩
  have hhead : (m.rows.headD []).length = m.numLogicalExperts := by
    obtain ⟨w, ws, hw⟩ := List.exists_cons_of_ne_nil m.nonempty
    rw [hw]
    exact m.uniform w (hw ▸ List.mem_cons_self)
  rw [rebalanceExperts, bind_of_ok (require_of hnodes), bind_of_ok hpolicy]
  dsimp only
  rw [hhead, zip_tab, bind_of_ok (mapM_tab hf)]
  rfl

/-- **Rebalancing yields a consistent placement**, whatever the loads are and however ties are broken;
with the hierarchical policy the replicas of an expert group lie on one node. -/
theorem rebalance_consistent {W : Type} (L : LoadOps W) (m : LoadMatrix W)
    {numReplicas numGroups numNodes numGpus : Nat}
    (h : Admitted m.numLogicalExperts numReplicas numGroups numNodes numGpus) :
    ∃ phy2log log2phy logcnt,
      rebalanceExperts L m.rows numReplicas numGroups numNodes numGpus =
        .ok (phy2log, log2phy, logcnt) ∧
      phy2log.length = m.rows.length ∧ log2phy.length = m.rows.length ∧
      logcnt.length = m.rows.length ∧
      ∀ (layer : Nat) p2l l2p cnt, phy2log[layer]? = some p2l → log2phy[layer]? = some l2p →
        logcnt[layer]? = some cnt → Consistent m.numLogicalExperts numReplicas p2l l2p cnt ∧
        (numNodes ∣ numGroups → GroupsOnNodes (m.numLogicalExperts / numGroups)
          (numReplicas / numGpus) (numGpus / numNodes) p2l) := by
  have hlayers : 0 < m.rows.length := List.length_pos_iff.mpr m.nonempty
  obtain ⟨row, hrow⟩ := exists_eq_tab m.rows
  have hlen : ∀ l < m.rows.length, (row l).length = m.numLogicalExperts := fun l hl =>
    m.uniform _ (by rw [hrow]; exact mem_tab.mpr ⟨l, hl, rfl⟩)
  obtain ⟨phyPerGpu, hphy⟩ := h.gpus
  -- in both policies the experts are placed; only the hierarchical one knows the groups
  have hpolicy : ∃ slotsPerNode groupSize, ∃ owner rank count : Nat → Nat → Nat,
      (if numGroups % numNodes = 0 then
        rebalanceExpertsHierarchical L m.rows numReplicas numGroups numNodes numGpus
      else rebalanceExpertsHierarchical L m.rows numReplicas 1 1 numGpus) =
      .ok (tab m.rows.length fun l => intTab numReplicas (owner l),
        tab m.rows.length fun l => intTab numReplicas (rank l),
        tab m.rows.length fun l => intTab m.numLogicalExperts (count l)) ∧
      (∀ l < m.rows.length, Placed m.numLogicalExperts numReplicas slotsPerNode groupSize
        (owner l) (rank l) (count l)) ∧
      (numNodes ∣ numGroups → groupSize = m.numLogicalExperts / numGroups ∧
        slotsPerNode = numReplicas / numGpus * (numGpus / numNodes)) := by
    by_cases hdvd : numNodes ∣ numGroups
    · rw [if_pos (Nat.mod_eq_zero_of_dvd hdvd)]
      obtain ⟨⟨groupSize, hsize⟩, gpusPerNode, hgpus⟩ := h.hierarchical hdvd
      obtain ⟨groupsPerNode, hgroups⟩ := hdvd
      subst hgroups hgpus hphy
      have hpos := m.pos
      have hle := h.replicas
      rw [hsize] at hlen hpos hle
      obtain ⟨owner, rank, count, hok, hplaced⟩ := @rebalanceExpertsHierarchical_ok W L
        m.rows.length row numNodes groupsPerNode groupSize gpusPerNode phyPerGpu hlayers hlen hpos hle
      have hgroups : 0 < numNodes * groupsPerNode := Nat.pos_of_ne_zero fun hz => by simp [hz] at hpos
      have hgpus : 0 < numNodes * gpusPerNode :=
        Nat.pos_of_ne_zero fun hz => by
          rw [hz, Nat.zero_mul] at hle
          omega
      refine ⟨gpusPerNode * phyPerGpu, groupSize, owner, rank, count, ?_, ?_, fun _ => ⟨?_, ?_⟩⟩
      · rw [hsize, ← hok, ← hrow]
      · rw [hsize]
        exact hplaced
      · rw [hsize, Nat.mul_div_cancel_left _ hgroups]
      · rw [Nat.mul_div_cancel_left _ hgpus,
          Nat.mul_div_cancel_left _ (Nat.pos_of_ne_zero h.nodes), Nat.mul_comm]
    · rw [if_neg fun hmod => hdvd (Nat.dvd_of_mod_eq_zero hmod)]
      have hlen' : ∀ l < m.rows.length, (row l).length = 1 * 1 * m.numLogicalExperts := fun l hl => by
        rw [hlen l hl, Nat.one_mul]
      obtain ⟨owner, rank, count, hok, hplaced⟩ := @rebalanceExpertsHierarchical_ok W L
        m.rows.length row 1 1 m.numLogicalExperts numGpus phyPerGpu hlayers hlen'
        (by simpa using m.pos) (by simpa [← hphy] using h.replicas)
      simp only [Nat.one_mul, ← hphy] at hok hplaced
      refine ⟨numGpus * phyPerGpu, m.numLogicalExperts, owner, rank, count, ?_, ?_,
        fun hc => absurd hc hdvd⟩
      · rw [← hok, ← hrow]
      · rw [← hphy]
        exact hplaced
  obtain ⟨slotsPerNode, groupSize, owner, rank, count, hok, hplaced, hsizes⟩ := hpolicy
  obtain ⟨log2phy, hresult, hconsistent⟩ :=
    rebalanceExperts_of_placed L m h.nodes h.replicas hok hplaced
  refine ⟨_, _, _, hresult, length_tab _ _, length_tab _ _, length_tab _ _, ?_⟩
  intro layer p2l l2p cnt hp2l hl2p hcnt
  obtain ⟨hl, rfl⟩ := getElem?_tab_eq_some.mp hp2l
  obtain ⟨-, rfl⟩ := getElem?_tab_eq_some.mp hl2p
  obtain ⟨-, rfl⟩ := getElem?_tab_eq_some.mp hcnt
  refine ⟨hconsistent layer hl, fun hdvd group => ?_⟩
  obtain ⟨hsize, hslots⟩ := hsizes hdvd
  obtain ⟨node, hnode⟩ := (hplaced layer hl).node
  refine ⟨node group, fun p e hp hgroup => ?_⟩
  obtain ⟨hlt, howner⟩ := getElem?_tab_eq_some.mp hp
  have howner : owner layer p = e := by exact_mod_cast howner
  rw [Nat.div_div_eq_div_mul, ← hslots, hnode p hlt, howner, hsize, hgroup]

/-! ## A small matrix -/

/-- One layer with four experts. -/
def fourExperts : LoadMatrix ℚ where
  rows := [[8, 1, 3, 4]]
  numLogicalExperts := 4
  nonempty := by decide
  pos := by decide
  uniform := by simp

theorem rebalance_consistent_four :
    ∃ phy2log log2phy logcnt,
      rebalanceExperts .exact fourExperts.rows 8 2 2 4 = .ok (phy2log, log2phy, logcnt) ∧
      ∀ (layer : Nat) p2l l2p cnt, phy2log[layer]? = some p2l → log2phy[layer]? = some l2p →
        logcnt[layer]? = some cnt → Consistent 4 8 p2l l2p cnt ∧ GroupsOnNodes 2 2 2 p2l := by
  obtain ⟨phy2log, log2phy, logcnt, hok, -, -, -, h⟩ := rebalance_consistent .exact fourExperts
    (show Admitted 4 8 2 2 4 from ⟨by decide, by decide, by decide, fun _ => by decide⟩)
  refine ⟨phy2log, log2phy, logcnt, hok, fun layer p2l l2p cnt h1 h2 h3 => ?_⟩
  obtain ⟨hconsistent, hgroups⟩ := h layer p2l l2p cnt h1 h2 h3
  exact ⟨hconsistent, hgroups (by decide)⟩

end InferenceServer.Distributed
