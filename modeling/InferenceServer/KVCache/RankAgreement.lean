import InferenceServer.KVCache.Configs

/-!
# The workers agree on the groups

One scheduler hands out block ids for the workers of all pipeline stages, so that their KV cache
groups have to be the same. Every worker's own configuration is laid out soundly
(`getKvCacheConfig_laidOut`): each of its layers is in one group and one tensor, and the layers that
share a tensor are in different groups. `unify_kv_cache_configs` compares the groups of the workers
with those of the first one, but only as far as both have them. The workers agree exactly if their
layers make the same number of groups.

## Main results

* `getKvCacheConfig_laidOut`, `getKvCacheConfig_length`, `ranksAgree_iff`
-/

namespace InferenceServer

open Outcome
open List (map_cons mem_cons_self mem_map mem_map_of_mem)

/-- **The layout of a worker**: each of its layers is in one group and one tensor, layers that share a
tensor are in different groups, and each tensor has the pages of its groups. -/
structure WorkerKVCacheConfig.LaidOut (dtypeSize : String → Nat) (layers : List String)
    (c : WorkerKVCacheConfig) : Prop where
  groups : (c.kvCacheGroups.flatMap KVCacheGroupSpec.layerNames).Perm layers
  tensors : (c.kvCacheTensors.flatMap KVCacheTensor.sharedBy).Perm layers
  apart : ∀ t ∈ c.kvCacheTensors, ∀ g ∈ c.kvCacheGroups, ∀ a ∈ t.sharedBy, ∀ b ∈ t.sharedBy,
    a ∈ g.layerNames → b ∈ g.layerNames → a = b
  pages : ∀ t ∈ c.kvCacheTensors, ∀ g ∈ c.kvCacheGroups, ∀ a ∈ t.sharedBy, a ∈ g.layerNames →
    ∃ pageSize, g.kvCacheSpec.pageSizeBytes dtypeSize = .ok pageSize ∧
      pageSize * c.numBlocks ≤ t.size

/-- **The workers agree.** They have the same groups in the same order and the least of the numbers of
blocks that they have planned, and each of them is laid out soundly. -/
structure RanksAgree (dtypeSize : String → Nat) (V : VllmConfig) (specs : List LayerSpecs)
    (availableMemory : List Int) (configs : List WorkerKVCacheConfig) : Prop where
  kvCacheSpecs : ∀ c ∈ configs, ∀ c' ∈ configs,
    c.kvCacheGroups.map KVCacheGroupSpec.kvCacheSpec =
      c'.kvCacheGroups.map KVCacheGroupSpec.kvCacheSpec
  numBlocks : ∃ planned, (specs.zip availableMemory).mapM
      (fun e => getKvCacheConfig dtypeSize V e.1 e.2) = .ok planned ∧
    ∀ c ∈ configs, IsLeast {n | ∃ p ∈ planned, p.numBlocks = n} c.numBlocks
  laidOut : List.Forall₂ (fun (d : LayerSpecs) c => c.LaidOut dtypeSize d.keys) specs configs

/-- The number of groups that a worker's layers make: none without layers, one if all specs merge,
and otherwise those of each spec, of the size of the smallest. -/
def numKvCacheGroups (V : VllmConfig) (d : LayerSpecs) : Except PyError Nat := do
  let d ← plannedSpecs V d
  if d.values = [] then return 0
  else if ← isKvCacheTypeUniform d then return 1
  else return ((sameTypeLayers d).entries.map fun e =>
    (e.2.length + groupSize d - 1) / groupSize d).sum

/-! ## Groups and tensors -/

section Layout

variable {dtypeSize : String → Nat} {V : VllmConfig} {d : LayerSpecs} {pageSize : Nat}
  {numBlocks : Int} {groups : List KVCacheGroupSpec} {names : List (List String)}

/-- A merged spec has the page size of the first one. -/
theorem pageSizeBytes_merge {specs : List KVCacheSpec} {s : KVCacheSpec}
    (h : KVCacheSpec.merge specs = .ok s) :
    ∃ first ∈ specs, s.pageSizeBytes dtypeSize = first.pageSizeBytes dtypeSize := by
  unfold KVCacheSpec.merge at h
  split at h
  next => cases h
  next bs f _ _ rest =>
    obtain ⟨_, -, h₁⟩ := bind_eq_ok.mp h
    obtain ⟨w, -, h₂⟩ := bind_eq_ok.mp h₁
    obtain ⟨c, -, h₃⟩ := bind_eq_ok.mp h₂
    obtain ⟨_, -, h₄⟩ := bind_eq_ok.mp h₃
    obtain ⟨_, -, h₅⟩ := bind_eq_ok.mp h₄
    obtain rfl := pure_eq_ok.mp h₅
    exact ⟨_, mem_cons_self, rfl⟩
  next first rest _ =>
    obtain ⟨_, -, h₁⟩ := bind_eq_ok.mp h
    obtain rfl := pure_eq_ok.mp h₁
    exact ⟨first, mem_cons_self, rfl⟩

/-- All layers have the uniform page size. -/
theorem getUniformPageSize_ok (h : getUniformPageSize dtypeSize d = .ok pageSize) {name : String}
    {s : KVCacheSpec} (hs : d.get? name = some s) : s.pageSizeBytes dtypeSize = .ok pageSize := by
  obtain ⟨sizes, hsizes, h₁⟩ := bind_eq_ok.mp h
  obtain ⟨all, hall, h₂⟩ := bind_eq_ok.mp hsizes
  cases h₂
  have hmem : s ∈ d.values := mem_map_of_mem (f := Prod.snd) (Dict.get?_eq_some_iff.mp hs)
  obtain ⟨n, hn, hsize⟩ := (exists_of_mapM hall).1 s hmem
  split at h₁
  next single hsingle =>
    cases h₁
    rw [← List.mem_dedup, hsingle, List.mem_singleton] at hn
    exact hn ▸ hsize
  next => cases h₁

/-- The groups have the given layers, and the page size of their layers. -/
theorem createKvCacheGroupSpecs_ok (h : createKvCacheGroupSpecs d names = .ok groups) :
    groups.map KVCacheGroupSpec.layerNames = names ∧
      (getUniformPageSize dtypeSize d = .ok pageSize →
        ∀ g ∈ groups, g.kvCacheSpec.pageSizeBytes dtypeSize = .ok pageSize) := by
  obtain ⟨f, hf, hrun⟩ : ∃ f : String → Except PyError KVCacheSpec,
      (∀ name s, f name = .ok s → d.get? name = some s) ∧ (names.mapM fun layerNames => do
        let layerSpecs ← layerNames.mapM f
        let kvCacheSpec ← KVCacheSpec.merge layerSpecs
        return { layerNames, kvCacheSpec } : Except PyError _) = .ok groups := by
    refine ⟨_, fun name s hs => ?_, h⟩
    split at hs
    next s' hget => rw [hget, Except.ok.inj hs]
    next => cases hs
  have hgroup : ∀ {layerNames : List String} {g : KVCacheGroupSpec}, (do
        let layerSpecs ← layerNames.mapM f
        let kvCacheSpec ← KVCacheSpec.merge layerSpecs
        return { layerNames, kvCacheSpec } : Except PyError KVCacheGroupSpec) = .ok g →
      g.layerNames = layerNames ∧ (getUniformPageSize dtypeSize d = .ok pageSize →
        g.kvCacheSpec.pageSizeBytes dtypeSize = .ok pageSize) := by
    intro layerNames g hg
    obtain ⟨layerSpecs, hspecs, hg₁⟩ := bind_eq_ok.mp hg
    obtain ⟨s, hs, hg₂⟩ := bind_eq_ok.mp hg₁
    cases hg₂
    refine ⟨rfl, fun huniform => ?_⟩
    obtain ⟨first, hfirst, heq⟩ := pageSizeBytes_merge hs
    obtain ⟨name, -, hname⟩ := (exists_of_mapM hspecs).2 first hfirst
    rw [heq]
    exact getUniformPageSize_ok huniform (hf _ _ hname)
  refine ⟨?_, fun huniform g hg => ?_⟩
  · have hall := mapM_eq_ok.mp hrun
    clear h hrun
    induction hall with
    | nil => rfl
    | cons hg _ ih => rw [map_cons, ih, (hgroup hg).1]
  · obtain ⟨layerNames, -, hlayers⟩ := (exists_of_mapM hrun).2 g hg
    exact (hgroup hlayers).2 huniform

theorem length_createKvCacheGroupSpecs (h : createKvCacheGroupSpecs d names = .ok groups) :
    groups.length = names.length := by
  exact (mapM_eq_ok.mp h).length_eq.symm

/-! ### One spec -/

variable {availableMemory : Int} {c : WorkerKVCacheConfig}

theorem uniformType_laidOut
    (h : getKvCacheConfigUniformType dtypeSize V d availableMemory = .ok c) :
    c.LaidOut dtypeSize d.keys ∧ c.kvCacheGroups.length = 1 := by
  obtain ⟨pageSize, hsize, h₁⟩ := bind_eq_ok.mp h
  obtain ⟨numBlocks, -, h₂⟩ := bind_eq_ok.mp h₁
  obtain ⟨groups, hgroups, h₃⟩ := bind_eq_ok.mp h₂
  cases h₃
  obtain ⟨hnames, hpages⟩ := createKvCacheGroupSpecs_ok hgroups
  refine ⟨⟨?_, ?_, fun t ht g _ a ha b hb _ _ => ?_, fun t ht g hg _ _ _ => ?_⟩, ?_⟩
  · dsimp only
    rw [List.flatMap_def, hnames, List.flatten_singleton]
  · dsimp only
    rw [List.flatMap_map, List.flatMap_singleton']
  · obtain ⟨name, -, rfl⟩ := mem_map.mp ht
    rw [List.mem_singleton.mp ha, List.mem_singleton.mp hb]
  · obtain ⟨name, -, rfl⟩ := mem_map.mp ht
    exact ⟨pageSize, hpages hsize g hg, le_refl _⟩
  · exact length_createKvCacheGroupSpecs hgroups

/-! ### Several specs -/

/-- The layers of all specs are those of the worker. -/
theorem sameTypeLayers_perm (d : LayerSpecs) :
    ((sameTypeLayers d).entries.flatMap Prod.snd).Perm d.keys := by
  have hfold : ∀ (l : List (String × KVCacheSpec)) (layers : Dict KVCacheSpec (List String)),
      ((l.foldl (fun layers e => layers.set e.2 (layers.getD e.2 [] ++ [e.1])) layers).entries.flatMap
        Prod.snd).Perm (layers.entries.flatMap Prod.snd ++ l.map Prod.fst) := by
    intro l
    induction l with
    | nil => simp
    | cons e l ih =>
      intro layers
      refine (ih _).trans ?_
      rw [map_cons, ← List.singleton_append, ← List.append_assoc]
      exact (layers.flatMap_set_append e.2 e.1).append_right _
  exact hfold d.entries ∅

theorem groupedLayers_perm (hpos : 0 < groupSize d) : (groupedLayers d).flatten.Perm d.keys := by
  unfold groupedLayers
  rw [← List.flatMap_id, List.flatMap_assoc]
  simp only [List.flatMap_id, flatten_chunks hpos]
  exact sameTypeLayers_perm d

theorem length_groupedLayers (d : LayerSpecs) : (groupedLayers d).length =
    ((sameTypeLayers d).entries.map fun e => (e.2.length + groupSize d - 1) / groupSize d).sum := by
  unfold groupedLayers
  rw [List.length_flatMap]
  simp only [length_chunks]

theorem uniformPageSize_laidOut
    (h : getKvCacheConfigUniformPageSize dtypeSize V d availableMemory = .ok c) :
    c.LaidOut dtypeSize d.keys ∧ c.kvCacheGroups.length = (groupedLayers d).length := by
  obtain ⟨groups, hgroups, h₁⟩ := bind_eq_ok.mp h
  obtain ⟨pageSize, hsize, h₂⟩ := bind_eq_ok.mp h₁
  obtain ⟨numBlocks, hblocks, h₃⟩ := bind_eq_ok.mp h₂
  cases h₃
  obtain ⟨hnames, hpages⟩ := createKvCacheGroupSpecs_ok hgroups
  have hpos : 0 < groupSize d := by
    obtain ⟨_, -, hb⟩ := bind_eq_ok.mp hblocks
    obtain ⟨_, hpos, -⟩ := bind_eq_ok.mp hb
    exact require_eq_ok.mp hpos
  have hperm := groupedLayers_perm hpos
  have hlen : ∀ r ∈ groupedLayers d, r.length ≤ groupSize d := fun r hr => by
    obtain ⟨e, -, hr⟩ := List.mem_flatMap.mp hr
    exact length_of_mem_chunks hr
  refine ⟨⟨?_, ?_, fun t ht g hg a ha b hb hag hbg => ?_, fun t ht g hg _ _ _ => ?_⟩, ?_⟩
  · dsimp only
    rw [List.flatMap_def, hnames]
    exact hperm
  · dsimp only
    rw [List.flatMap_map, List.flatMap_id']
    exact (flatten_columns hlen).trans hperm
  · obtain ⟨column, hcolumn, rfl⟩ := mem_map.mp ht
    refine columns_row_eq (hperm.nodup_iff.mpr d.keys_nodup) hcolumn (hnames ▸ ?_) ha hb hag hbg
    exact mem_map_of_mem (f := KVCacheGroupSpec.layerNames) hg
  · obtain ⟨column, -, rfl⟩ := mem_map.mp ht
    exact ⟨pageSize, hpages hsize g hg, le_refl _⟩
  · exact length_createKvCacheGroupSpecs hgroups

/-! ### The plan of a worker -/

theorem unifyHybridKvCacheSpecs_keys {d' : LayerSpecs} (h : unifyHybridKvCacheSpecs d = .ok d') :
    d'.keys = d.keys := by
  obtain ⟨uniform, -, h₁⟩ := bind_eq_ok.mp h
  split at h₁
  next =>
    cases h₁
    rfl
  next =>
    obtain ⟨_, -, h₂⟩ := bind_eq_ok.mp h₁
    obtain ⟨_, -, h₃⟩ := bind_eq_ok.mp h₂
    cases h₃
    split
    · exact Dict.keys_mapValues _ _
    · rfl

theorem plannedSpecs_keys {d' : LayerSpecs} (h : plannedSpecs V d = .ok d') : d'.keys = d.keys := by
  unfold plannedSpecs at h
  split at h
  next => exact unifyHybridKvCacheSpecs_keys h
  next =>
    cases h
    rfl

/-- **The plan of a worker** is laid out soundly, with the groups its layers make. -/
theorem getKvCacheConfig_ok (h : getKvCacheConfig dtypeSize V d availableMemory = .ok c) :
    c.LaidOut dtypeSize d.keys ∧ numKvCacheGroups V d = .ok c.kvCacheGroups.length := by
  obtain ⟨_, -, h₁⟩ := bind_eq_ok.mp h
  obtain ⟨d', hd', h₂⟩ := bind_eq_ok.mp h₁
  unfold numKvCacheGroups
  rw [← plannedSpecs_keys hd', hd']
  change _ ∧ (if d'.values = [] then pure 0 else do
    if ← isKvCacheTypeUniform d' then return 1
    else return ((sameTypeLayers d').entries.map fun e =>
      (e.2.length + groupSize d' - 1) / groupSize d').sum : Except PyError Nat) = _
  split at h₂
  next hnil =>
    cases h₂
    rw [if_pos hnil]
    have hkeys : d'.keys = [] := by
      rw [LayerSpecs.values, List.map_eq_nil_iff] at hnil
      rw [Dict.keys, hnil]
      rfl
    refine ⟨⟨hkeys ▸ .refl _, hkeys ▸ .refl _, ?_, ?_⟩, rfl⟩ <;> simp
  next hne =>
  rw [if_neg hne]
  obtain ⟨uniform, huniform, h₃⟩ := bind_eq_ok.mp h₂
  rw [huniform]
  change _ ∧ (if uniform then pure 1 else pure _ : Except PyError Nat) = _
  split at h₃
  next htrue =>
    obtain ⟨hlaid, hlen⟩ := uniformType_laidOut h₃
    rw [if_pos htrue, hlen]
    exact ⟨hlaid, rfl⟩
  next hfalse =>
    obtain ⟨sizes, -, h₄⟩ := bind_eq_ok.mp h₃
    split at h₄
    next =>
      obtain ⟨hlaid, hlen⟩ := uniformPageSize_laidOut h₄
      rw [if_neg hfalse, hlen, length_groupedLayers]
      exact ⟨hlaid, rfl⟩
    next => cases h₄

end Layout

/-! ## The configurations of all workers -/

section Unify

variable {dtypeSize : String → Nat} {V : VllmConfig} {configs planned : List WorkerKVCacheConfig}
  {c p : WorkerKVCacheConfig} {layers : List String}

theorem sortGroups_perm {groups sorted : List KVCacheGroupSpec} (h : sortGroups groups = .ok sorted) :
    sorted.Perm groups := by
  unfold sortGroups at h
  dsimp only at h
  split at h
  next =>
    cases h
    exact List.perm_insertionSort _ _
  next => cases h

/-- What becomes of the plan of a worker: its groups are sorted, and fewer blocks are used. -/
structure WorkerKVCacheConfig.Becomes (p c : WorkerKVCacheConfig) : Prop where
  kvCacheGroups : c.kvCacheGroups.Perm p.kvCacheGroups
  kvCacheTensors : c.kvCacheTensors = p.kvCacheTensors
  numBlocks : c.numBlocks ≤ p.numBlocks

theorem WorkerKVCacheConfig.LaidOut.becomes (h : p.LaidOut dtypeSize layers) (hb : p.Becomes c) :
    c.LaidOut dtypeSize layers where
  groups := (hb.kvCacheGroups.flatMap_right _).trans h.groups
  tensors := hb.kvCacheTensors ▸ h.tensors
  apart t ht g hg := h.apart t (hb.kvCacheTensors ▸ ht) g (hb.kvCacheGroups.mem_iff.mp hg)
  pages t ht g hg a ha hag := by
    obtain ⟨pageSize, hsize, hle⟩ :=
      h.pages t (hb.kvCacheTensors ▸ ht) g (hb.kvCacheGroups.mem_iff.mp hg) a ha hag
    exact ⟨pageSize, hsize,
      (mul_le_mul_of_nonneg_left hb.numBlocks (Int.natCast_nonneg _)).trans hle⟩

theorem sortConfigs_ok (h : sortConfigs planned = .ok configs) :
    List.Forall₂ (fun p c => c.kvCacheGroups.Perm p.kvCacheGroups ∧
      c = { p with kvCacheGroups := c.kvCacheGroups }) planned configs := by
  refine (mapM_eq_ok.mp h).imp fun p c hc => ?_
  obtain ⟨groups, hgroups, hc⟩ := bind_eq_ok.mp hc
  cases hc
  exact ⟨sortGroups_perm hgroups, rfl⟩

theorem WorkerKVCacheConfig.SameGroups.refl (c : WorkerKVCacheConfig) : c.SameGroups c := by
  intro e he
  rw [← List.map_id c.kvCacheGroups, List.zip_map', mem_map] at he
  obtain ⟨g, -, rfl⟩ := he
  rfl

variable (h : List.Forall₂ (fun p c : WorkerKVCacheConfig => c.kvCacheGroups.Perm p.kvCacheGroups ∧
  c = { p with kvCacheGroups := c.kvCacheGroups }) planned configs)

include h

theorem map_numBlocks_eq : configs.map WorkerKVCacheConfig.numBlocks = planned.map WorkerKVCacheConfig.numBlocks := by
  induction h with
  | nil => rfl
  | cons hc _ ih => rw [map_cons, map_cons, ih, hc.2]

theorem becomes_of_le {least : Int} (hle : ∀ p ∈ planned, least ≤ p.numBlocks) :
    List.Forall₂ WorkerKVCacheConfig.Becomes planned
      (configs.map fun c => { c with numBlocks := least }) := by
  induction h with
  | nil => exact .nil
  | cons hc _ ih =>
    refine .cons ⟨hc.1, ?_, hle _ mem_cons_self⟩ (ih fun p hp =>
      hle p (List.mem_cons_of_mem _ hp))
    rw [hc.2]

omit h

/-- **What `unify_kv_cache_configs` does**: it compares the groups of the first worker with those of
every other one, as far as both have them. -/
theorem unifyKvCacheConfigs_ok (h : unifyKvCacheConfigs planned = .ok configs) :
    List.Forall₂ WorkerKVCacheConfig.Becomes planned configs ∧
      (∀ c ∈ configs, IsLeast {n | ∃ p ∈ planned, p.numBlocks = n} c.numBlocks) ∧
      ∃ first ∈ configs, ∀ c ∈ configs, first.SameGroups c := by
  obtain ⟨sorted, hsorted, h₁⟩ := bind_eq_ok.mp h
  obtain ⟨_, hsame, h₂⟩ := bind_eq_ok.mp h₁
  have hsame := require_eq_ok.mp hsame
  have hbecomes := sortConfigs_ok hsorted
  split at h₂
  next => cases h₂
  next least hleast =>
    cases h₂
    obtain ⟨hmem, hlower⟩ := List.min?_eq_some_iff.mp hleast
    have hfirst : ∃ first ∈ sorted, ∀ c ∈ sorted, first.SameGroups c := by
      cases sorted with
      | nil => simp at hmem
      | cons first rest =>
        refine ⟨first, mem_cons_self, fun c hc => ?_⟩
        rcases List.mem_cons.mp hc with rfl | hc
        · exact .refl _
        · exact hsame first rfl c hc
    rw [map_numBlocks_eq hbecomes] at hmem hlower
    refine ⟨becomes_of_le hbecomes fun p hp => hlower _ (mem_map_of_mem hp), fun c hc => ?_, ?_⟩
    · obtain ⟨c', -, rfl⟩ := mem_map.mp hc
      refine ⟨mem_map.mp hmem, ?_⟩
      rintro n ⟨p, hp, rfl⟩
      exact hlower _ (mem_map_of_mem hp)
    · obtain ⟨first, hmem, hall⟩ := hfirst
      refine ⟨_, mem_map_of_mem hmem, fun c hc => ?_⟩
      obtain ⟨c', hc', rfl⟩ := mem_map.mp hc
      exact hall c' hc'

/-- Groups that agree as far as both workers have them are the same if they are equally many. -/
theorem WorkerKVCacheConfig.SameGroups.map_eq (h : p.SameGroups c)
    (hlen : p.kvCacheGroups.length = c.kvCacheGroups.length) :
    p.kvCacheGroups.map KVCacheGroupSpec.kvCacheSpec =
      c.kvCacheGroups.map KVCacheGroupSpec.kvCacheSpec := by
  refine List.ext_getElem (by simpa using hlen) fun i hi hi' => ?_
  rw [List.length_map] at hi hi'
  have hmem : (p.kvCacheGroups[i], c.kvCacheGroups[i]) ∈ p.kvCacheGroups.zip c.kvCacheGroups := by
    rw [← List.getElem_zip (h := by simp [hi, hi'])]
    exact List.getElem_mem _
  simpa using h _ hmem

/-- **The workers agree** exactly if their layers make the same number of groups. -/
theorem ranksAgree_iff {specs : List LayerSpecs} {availableMemory : List Int}
    (h : initializeKvCaches dtypeSize V specs availableMemory = .ok configs) :
    RanksAgree dtypeSize V specs availableMemory configs ↔
      ∀ d ∈ specs, ∀ d' ∈ specs, numKvCacheGroups V d = numKvCacheGroups V d' := by
  obtain ⟨_, hlen, h₁⟩ := bind_eq_ok.mp h
  obtain ⟨planned, hplanned, h₂⟩ := bind_eq_ok.mp h₁
  obtain ⟨unified, hunified, h₃⟩ := bind_eq_ok.mp h₂
  obtain ⟨_, -, h₄⟩ := bind_eq_ok.mp h₃
  obtain rfl := pure_eq_ok.mp h₄
  have hlen := require_eq_ok.mp hlen
  obtain ⟨hbecomes, hleast, first, hfirst, hsame⟩ := unifyKvCacheConfigs_ok hunified
  -- the plans of the workers, with what becomes of them
  have hplans : List.Forall₂ (fun (d : LayerSpecs) p =>
      p.LaidOut dtypeSize d.keys ∧ numKvCacheGroups V d = .ok p.kvCacheGroups.length)
      specs planned := by
    rw [← List.map_fst_zip hlen.le, List.forall₂_map_left_iff]
    exact (mapM_eq_ok.mp hplanned).imp fun _ _ hp => getKvCacheConfig_ok hp
  have hranks : List.Forall₂ (fun (d : LayerSpecs) c =>
      c.LaidOut dtypeSize d.keys ∧ numKvCacheGroups V d = .ok c.kvCacheGroups.length)
      specs unified :=
    forall₂_trans (fun d p c hp hc => ⟨hp.1.becomes hc, hc.kvCacheGroups.length_eq ▸ hp.2⟩)
      hplans hbecomes
  constructor
  · intro hagree d hd d' hd'
    obtain ⟨c, hc, -, hnum⟩ := exists_of_forall₂_left hranks hd
    obtain ⟨c', hc', -, hnum'⟩ := exists_of_forall₂_left hranks hd'
    have heq := congrArg List.length (hagree.kvCacheSpecs c hc c' hc')
    rw [List.length_map, List.length_map] at heq
    rw [hnum, hnum', heq]
  · intro hnum
    have hlength : ∀ c ∈ unified, first.kvCacheGroups.map KVCacheGroupSpec.kvCacheSpec =
        c.kvCacheGroups.map KVCacheGroupSpec.kvCacheSpec := by
      intro c hc
      obtain ⟨d, hd, -, hd₁⟩ := exists_of_forall₂_right hranks hfirst
      obtain ⟨d', hd', -, hd₂⟩ := exists_of_forall₂_right hranks hc
      exact (hsame c hc).map_eq (Except.ok.inj (hd₁.symm.trans ((hnum d hd d' hd').trans hd₂)))
    exact {
      kvCacheSpecs := fun c hc c' hc' => (hlength c hc).symm.trans (hlength c' hc')
      numBlocks := ⟨planned, hplanned, hleast⟩
      laidOut := hranks.imp fun _ _ hc => hc.1 }

end Unify

/-! ## Pipelines -/

section Examples

/-- A stage of a pipeline with one layer of full attention and the given layers of windowed attention. -/
def pipelineStage (full : String) (windowed : List String) : LayerSpecs :=
  windowed.foldl (fun d name => d.set name (.slidingWindow 16 ⟨2, 8, "bfloat16", false⟩ 64))
    ((∅ : LayerSpecs).set full (.fullAttention 16 ⟨2, 8, "bfloat16", false⟩ none none))

def pipelineConfig : VllmConfig := { maxModelLen := 64, maxNumBatchedTokens := 64 }

/-- Two stages with one layer of windowed attention each agree. -/
theorem ranksAgree_evenStages : ∃ configs,
    initializeKvCaches (fun _ => 2) pipelineConfig
      [pipelineStage "layers.0" ["layers.1"], pipelineStage "layers.2" ["layers.3"]]
      [100000, 200000] = .ok configs ∧
    RanksAgree (fun _ => 2) pipelineConfig
      [pipelineStage "layers.0" ["layers.1"], pipelineStage "layers.2" ["layers.3"]]
      [100000, 200000] configs := by
  have hok : (initializeKvCaches (fun _ => 2) pipelineConfig
      [pipelineStage "layers.0" ["layers.1"], pipelineStage "layers.2" ["layers.3"]]
      [100000, 200000]).isOk = true := by decide +kernel
  obtain ⟨configs, h⟩ := isOk_iff.mp hok
  refine ⟨configs, h, (ranksAgree_iff h).mpr ?_⟩
  decide +kernel

/-- **Stages with different numbers of groups pass**: the second stage has a third group. -/
theorem not_ranksAgree_unevenStages : ∃ configs,
    initializeKvCaches (fun _ => 2) pipelineConfig
      [pipelineStage "layers.0" ["layers.1"], pipelineStage "layers.2" ["layers.3", "layers.4"]]
      [100000, 200000] = .ok configs ∧
    ¬ RanksAgree (fun _ => 2) pipelineConfig
      [pipelineStage "layers.0" ["layers.1"], pipelineStage "layers.2" ["layers.3", "layers.4"]]
      [100000, 200000] configs := by
  have hrun : (initializeKvCaches (fun _ => 2) pipelineConfig
      [pipelineStage "layers.0" ["layers.1"], pipelineStage "layers.2" ["layers.3", "layers.4"]]
      [100000, 200000]).toOption.any (fun configs => configs.map
        (fun c => c.kvCacheGroups.length) = [2, 3]) = true := by decide +kernel
  obtain ⟨configs, h, hgroups⟩ := Option.any_eq_true .. |>.mp hrun
  have hgroups := of_decide_eq_true hgroups
  refine ⟨configs, ?_, fun hagree => ?_⟩
  · revert h
    cases initializeKvCaches (fun _ => 2) pipelineConfig _ _ <;> simp [Except.toOption]
  · have hlengths : ∀ c ∈ configs, ∀ c' ∈ configs,
        c.kvCacheGroups.length = c'.kvCacheGroups.length := fun c hc c' hc' => by
      simpa using congrArg List.length (hagree.kvCacheSpecs c hc c' hc')
    have hmem : ∀ n ∈ [2, 3], ∃ c ∈ configs, c.kvCacheGroups.length = n := fun n hn =>
      List.mem_map.mp (hgroups ▸ hn)
    obtain ⟨c, hc, h₂⟩ := hmem 2 (by simp)
    obtain ⟨c', hc', h₃⟩ := hmem 3 (by simp)
    have := hlengths c hc c' hc'
    omega

end Examples

end InferenceServer
