import InferenceServer.Worker.InputBatch

/-!
# The rows of the persistent batch

After every step, the first rows of the batch are the active requests, and each row holds the data of
its request. Rows may be empty only within a step. The emptied rows are those in the builder, so the
batch is described at every moment by where the requests are (`Placed`) and by which rows are holes
(`Holes`).

A row that nobody has must have no entries in the dictionaries with rows as keys, since an added
request enters only what it has. All the other data are overwritten.

`condense` takes the last request and the lowest hole. The rows from its bound on are empty, and the
holes below the bound are those in the builder; when the lowest hole is not below the last request,
there are no holes left among the requests.

## Main results

* `Placed.removeRequest`, `Placed.addRequest`, `Placed.moveRequest`, `Placed.swapStates`,
  `coherent_of_reach`
-/

namespace InferenceServer.PersistentBatch

open Outcome
open Function (update update_of_ne update_self)
open List (getElem?_eq_none getElem?_set getElem?_set_ne length_append length_set length_take mem_append mem_singleton nodup_cons take_left' take_zero)
open Option (map_some)

/-! ## A row and its request -/

/-- A row of a block table has the blocks of the request. -/
def BlockRow.Has (t : BlockRow) (blockIds : List BlockId) : Prop :=
  t.numBlocks = blockIds.length ∧ t.blocks.take t.numBlocks = blockIds

/-- The sampling parameters are in the row. -/
def Row.Samples (row : Row) (cfg : BatchConfig) (params : SamplingParams) : Prop :=
  row.temperature = params.storedTemperature ∧ row.topP = params.topP ∧
    row.topK = params.storedTopK cfg ∧ row.frequencyPenalty = params.frequencyPenalty ∧
    row.presencePenalty = params.presencePenalty ∧ row.repetitionPenalty = params.repetitionPenalty

/-- The generator of a request that samples. -/
def CachedRequestState.ownGenerator (r : CachedRequestState) : Option Generator :=
  if r.samplingParams.isSome then r.generator else none

/-- The bad words of a request, if there are any. -/
def CachedRequestState.ownBadWords (r : CachedRequestState) : Option (List (List TokenId)) :=
  r.samplingParams.bind fun params => params.badWordsTokenIds.filter (· ≠ [])

/-- **The row holds the request.** -/
structure Row.Holds (cfg : BatchConfig) (row : Row) (a : ActiveRequest) : Prop where
  tokenIds : row.tokenIds.take row.numTokens = a.state.promptTokenIds ++ a.output
  numTokens : row.numTokens = a.state.promptTokenIds.length + a.output.length
  numTokensNoSpec : row.numTokensNoSpec = a.state.promptTokenIds.length + a.output.length
  numPromptTokens : row.numPromptTokens = a.state.promptTokenIds.length
  numComputedTokens : row.numComputedTokens = a.state.numComputedTokens
  blockTables : List.Forall₂ BlockRow.Has row.blockTables a.state.blockIds
  sampling : ∀ params, a.state.samplingParams = some params → row.Samples cfg params
  generator : row.generator = a.state.ownGenerator
  badWords : row.badWordsTokenIds = a.state.ownBadWords
  lora : row.requestLoraMapping = a.state.loraId

/-- The arrays of the row have their columns. -/
structure Row.Sized (cfg : BatchConfig) (row : Row) : Prop where
  tokenIds : row.tokenIds.length = cfg.maxModelLen
  blockTables : List.Forall₂ (fun n t => t.blocks.length = n) cfg.maxNumBlocksPerReq row.blockTables

/-- The dictionaries have no entries for the row. -/
def Row.Vacant (row : Row) : Prop := row.generator = none ∧ row.badWordsTokenIds = none

variable {cfg : BatchConfig} {row src tgt row' : Row} {a : ActiveRequest}

theorem Row.sized_new (cfg : BatchConfig) : (Row.new cfg).Sized cfg := by
  refine ⟨List.length_replicate, ?_⟩
  change List.Forall₂ _ cfg.maxNumBlocksPerReq (cfg.maxNumBlocksPerReq.map _)
  rw [List.forall₂_map_right_iff, List.forall₂_same]
  exact fun n _ => List.length_replicate

theorem Row.vacant_new (cfg : BatchConfig) : (Row.new cfg).Vacant := ⟨rfl, rfl⟩

theorem Row.Sized.clear (h : row.Sized cfg) : row.clear.Sized cfg := ⟨h.tokenIds, h.blockTables⟩

theorem Row.vacant_clear (row : Row) : row.clear.Vacant := ⟨rfl, rfl⟩

theorem Row.Sized.moveFrom (h : row.Sized cfg) : row.moveFrom.Sized cfg := ⟨h.tokenIds, h.blockTables⟩

theorem Row.vacant_moveFrom (row : Row) : row.moveFrom.Vacant := ⟨rfl, rfl⟩

theorem Row.Sized.swapInto (h : src.Sized cfg) : (src.swapInto tgt).Sized cfg :=
  ⟨h.tokenIds, h.blockTables⟩

theorem Row.Holds.swapInto (h : src.Holds cfg a) : (src.swapInto tgt).Holds cfg a :=
  ⟨h.tokenIds, h.numTokens, h.numTokensNoSpec, h.numPromptTokens, h.numComputedTokens,
    h.blockTables, h.sampling, h.generator, h.badWords, h.lora⟩

/-! ### Adding -/

theorem assignSlice_of_le {α : Type} {l values l' : List α} {start : Nat}
    (hle : start + values.length ≤ l.length) (h : assignSlice l start values = .ok l') :
    l' = l.take start ++ values ++ l.drop (start + values.length) ∧ l'.length = l.length := by
  rw [assignSlice, if_pos hle] at h
  cases h
  refine ⟨rfl, ?_⟩
  simp only [length_append, length_take, List.length_drop]
  omega

theorem BlockRow.addRow_has {t t' : BlockRow} {blockIds : List BlockId}
    (hle : blockIds.length ≤ t.blocks.length) (h : t.addRow blockIds = .ok t') :
    t'.Has blockIds ∧ t'.blocks.length = t.blocks.length := by
  unfold BlockRow.addRow BlockRow.appendRow at h
  split_ifs at h with hnil
  · cases h
    subst hnil
    exact ⟨⟨rfl, take_zero⟩, rfl⟩
  · obtain ⟨blocks, hblocks, h⟩ := bind_eq_ok.mp h
    cases h
    obtain ⟨rfl, hlen⟩ := assignSlice_of_le (by dsimp only; omega) hblocks
    refine ⟨⟨Nat.zero_add _, ?_⟩, hlen⟩
    rw [Nat.zero_add, take_zero, List.nil_append, take_left']
    rfl

theorem addRows_has {sizes : List Nat} {ts ts' : List BlockRow} {blockIds : List (List BlockId)}
    (hsized : List.Forall₂ (fun n t => t.blocks.length = n) sizes ts)
    (hfits : List.Forall₂ (fun n ids => ids.length ≤ n) sizes blockIds)
    (h : addRows ts blockIds = .ok ts') :
    List.Forall₂ BlockRow.Has ts' blockIds ∧
      List.Forall₂ (fun n t => t.blocks.length = n) sizes ts' := by
  induction hsized generalizing blockIds ts' with
  | nil =>
    cases hfits
    cases h
    exact ⟨.nil, .nil⟩
  | cons hn _ ih =>
    cases hfits with
    | cons hle hfits =>
      obtain ⟨t', ht', h⟩ := bind_eq_ok.mp h
      obtain ⟨ts₁, hts₁, h⟩ := bind_eq_ok.mp h
      cases h
      obtain ⟨hhas, hlen⟩ := BlockRow.addRow_has (hn ▸ hle) ht'
      obtain ⟨hrest, hsizes⟩ := ih hfits hts₁
      exact ⟨.cons hhas hrest, .cons (hlen.trans hn) hsizes⟩

/-- **Loading a request** into a row that nobody has. -/
theorem Row.load_holds {r : CachedRequestState} {output : List TokenId} (hsized : row.Sized cfg)
    (hvacant : row.Vacant) (hfits : Fits cfg r output) (h : row.load cfg r output = .ok row') :
    row'.Holds cfg ⟨r, output⟩ ∧ row'.Sized cfg := by
  obtain ⟨hlen, hblocks⟩ := hfits
  obtain ⟨prompt, hprompt, h⟩ := bind_eq_ok.mp h
  obtain ⟨tokens, htokens, h⟩ := bind_eq_ok.mp h
  obtain ⟨tables, htables, h⟩ := bind_eq_ok.mp h
  have hrow := hsized.tokenIds
  obtain ⟨hprompt, hpromptLen⟩ := assignSlice_of_le (by omega) hprompt
  obtain ⟨htokens, htokensLen⟩ := assignSlice_of_le (by omega) htokens
  obtain ⟨hhas, htablesSized⟩ := addRows_has hsized.blockTables hblocks htables
  have htake : tokens.take (r.promptTokenIds.length + output.length) =
      r.promptTokenIds ++ output := by
    rw [htokens, hprompt, take_zero, List.nil_append, Nat.zero_add, take_left' rfl,
      take_left' (by rw [length_append])]
  have hsize : tokens.length = cfg.maxModelLen := by omega
  obtain ⟨hgenerator, hbadWords⟩ := hvacant
  cases hsampling : r.samplingParams with
  | some params =>
    rw [CachedRequestState.params, hsampling] at h
    cases h
    refine ⟨⟨htake, rfl, rfl, rfl, rfl, hhas, fun p hp => ?_, ?_, ?_, rfl⟩, hsize, htablesSized⟩
    · rw [hsampling] at hp
      cases hp
      exact ⟨rfl, rfl, rfl, rfl, rfl, rfl⟩
    · simp [Row.loadSampling, CachedRequestState.ownGenerator, hsampling, hgenerator]
    · simp [Row.loadSampling, CachedRequestState.ownBadWords, hsampling, hbadWords]
  | none =>
    rw [CachedRequestState.params, hsampling] at h
    cases hpooling : r.poolingParams with
    | none =>
      rw [hpooling] at h
      cases h
    | some params =>
      rw [hpooling] at h
      cases h
      refine ⟨⟨htake, rfl, rfl, rfl, rfl, hhas, fun p hp => ?_, ?_, ?_, rfl⟩, hsize, htablesSized⟩
      · rw [hsampling] at hp
        cases hp
      · simp [CachedRequestState.ownGenerator, hsampling, hgenerator]
      · simp [CachedRequestState.ownBadWords, hsampling, hbadWords]

/-! ### Moving -/

/-- A prefix that is copied. -/
theorem length_take_append_drop {α : Type} {l l' : List α} (n : Nat) (h : l.length = l'.length) :
    (l.take n ++ l'.drop n).length = l.length := by
  rw [length_append, length_take, List.length_drop]
  omega

theorem BlockRow.Has.le {t : BlockRow} {blockIds : List BlockId} (h : t.Has blockIds) :
    t.numBlocks ≤ t.blocks.length := by
  have hlen := congrArg List.length h.2
  rw [length_take, ← h.1] at hlen
  omega

theorem take_take_append {α : Type} {l l' : List α} {n : Nat} (h : n ≤ l.length) :
    (l.take n ++ l').take n = l.take n :=
  take_left' (List.length_take_of_le h)

theorem Row.Sized.moveInto (hsrc : src.Sized cfg) (htgt : tgt.Sized cfg) :
    (src.moveInto tgt).Sized cfg := by
  refine ⟨(length_take_append_drop _ (hsrc.tokenIds.trans htgt.tokenIds.symm)).trans hsrc.tokenIds, ?_⟩
  have htables : ∀ sizes ts ts', List.Forall₂ (fun n t => t.blocks.length = n) sizes ts →
      List.Forall₂ (fun n t => t.blocks.length = n) sizes ts' →
      List.Forall₂ (fun n t => t.blocks.length = n) sizes (List.zipWith BlockRow.moveRow ts ts') := by
    intro sizes ts ts' hts hts'
    induction hts generalizing ts' with
    | nil => exact .nil
    | cons hn _ ih =>
      cases hts' with
      | cons hn' hts' =>
        exact .cons ((length_take_append_drop _ (hn.trans hn'.symm)).trans hn) (ih _ hts')
  exact htables _ _ _ hsrc.blockTables htgt.blockTables

/-- **A moved row holds the request** as before: only the valid prefixes are copied. -/
theorem Row.Holds.moveInto (h : src.Holds cfg a) (hsrc : src.Sized cfg) (htgt : tgt.Sized cfg)
    (hvacant : tgt.Vacant) : (src.moveInto tgt).Holds cfg a := by
  have htokens : (src.moveInto tgt).tokenIds.take src.numTokens = src.tokenIds.take src.numTokens := by
    refine take_take_append ?_
    have hlen := congrArg List.length h.tokenIds
    rw [length_take, length_append, ← h.numTokens] at hlen
    omega
  have htables : ∀ sizes ts ts' ids, List.Forall₂ (fun n t => t.blocks.length = n) sizes ts →
      List.Forall₂ (fun n t => t.blocks.length = n) sizes ts' → List.Forall₂ BlockRow.Has ts ids →
      List.Forall₂ BlockRow.Has (List.zipWith BlockRow.moveRow ts ts') ids := by
    intro sizes ts ts' ids hts hts' hids
    induction hts generalizing ts' ids with
    | nil =>
      cases hids
      exact .nil
    | cons hn _ ih =>
      cases hts' with
      | cons hn' hts' =>
        cases hids with
        | cons hid hids =>
          exact .cons ⟨hid.1, (take_take_append hid.le).trans hid.2⟩ (ih _ _ hts' hids)
  obtain ⟨hgenerator, hbadWords⟩ := hvacant
  refine ⟨htokens.trans h.tokenIds, h.numTokens, h.numTokensNoSpec, h.numPromptTokens,
    h.numComputedTokens, htables _ _ _ _ hsrc.blockTables htgt.blockTables h.blockTables,
    h.sampling, ?_, ?_, h.lora⟩
  · rw [← h.generator]
    simp [Row.moveInto, hgenerator]
  · rw [← h.badWords]
    simp [Row.moveInto, hbadWords]

/-! ## The LoRA maps -/

/-- The id of the adapter of a request, if it has one. -/
def ActiveRequest.adapter (a : ActiveRequest) : Option Int :=
  a.state.loraRequest.map LoRARequest.loraIntId

/-- **The maps list the active requests of each adapter**, and the adapters that have some. -/
structure LoraMaps.Lists (maps : LoraMaps) (active : Dict ReqId ActiveRequest) : Prop where
  mem : ∀ loraId id, id ∈ maps.requestIds.getD loraId [] ↔
    ∃ a, active.get? id = some a ∧ a.adapter = some loraId
  nodup : ∀ loraId, (maps.requestIds.getD loraId []).Nodup
  nonempty : ∀ loraId, maps.requestIds.get? loraId ≠ some []
  adapters : ∀ loraId, loraId ∈ maps.loraRequest ↔ loraId ∈ maps.requestIds
  loraIntId : ∀ loraId lora, maps.loraRequest.get? loraId = some lora → lora.loraIntId = loraId

variable {maps maps' : LoraMaps} {active : Dict ReqId ActiveRequest} {id : ReqId}

theorem LoraMaps.lists_empty : LoraMaps.Lists {} ∅ :=
  ⟨by simp, by simp, by simp, by simp, by simp⟩

/-- A request without an adapter. -/
theorem LoraMaps.Lists.set_none (h : maps.Lists active) (hnew : id ∉ active) (hnone : a.adapter = none) :
    maps.Lists (active.set id a) := by
  refine ⟨fun loraId j => ?_, h.nodup, h.nonempty, h.adapters, h.loraIntId⟩
  rw [h.mem]
  by_cases hj : j = id
  · subst hj
    rw [Dict.get?_eq_none_iff.mpr hnew, Dict.get?_set_self]
    simp [hnone]
  · rw [Dict.get?_set_ne hj]

theorem LoraMaps.Lists.add (h : maps.Lists active) (hnew : id ∉ active) {lora : LoRARequest}
    (hlora : a.adapter = some lora.loraIntId) : (maps.add id lora).Lists (active.set id a) := by
  have hget : ∀ loraId, (maps.add id lora).requestIds.getD loraId [] =
      if loraId = lora.loraIntId then (maps.requestIds.getD loraId []).insert id
      else maps.requestIds.getD loraId [] := fun loraId => by
    by_cases hl : loraId = lora.loraIntId
    · subst hl
      simp [LoraMaps.add]
    · simp [LoraMaps.add, Dict.getD_set_ne hl, hl]
  refine ⟨fun loraId j => ?_, fun loraId => ?_, fun loraId => ?_, fun loraId => ?_, fun loraId l => ?_⟩
  · have hmem := h.mem loraId j
    rw [hget, Dict.get?_set]
    by_cases hj : j = id
    · subst hj
      rw [Dict.get?_eq_none_iff.mpr hnew] at hmem
      by_cases hl : loraId = lora.loraIntId
      · simp [hl, hlora]
      · simp [hl, hmem, hlora, Ne.symm hl]
    · by_cases hl : loraId = lora.loraIntId
      · subst hl
        simp [hj, hmem]
      · simp [hl, hj, hmem]
  · rw [hget]
    split_ifs
    · exact (h.nodup loraId).insert
    · exact h.nodup loraId
  · have hne := h.nonempty loraId
    simp only [LoraMaps.add, Dict.get?_set]
    split_ifs
    · intro hnil
      have := List.ne_nil_of_mem (List.mem_insert_self (a := id)
        (l := maps.requestIds.getD lora.loraIntId []))
      exact this (Option.some.inj hnil)
    · exact hne
  · simp only [LoraMaps.add, Dict.mem_set, h.adapters]
  · simp only [LoraMaps.add, Dict.get?_set]
    split_ifs with hl
    · rintro ⟨⟩
      exact hl.symm
    · exact h.loraIntId loraId l

/-- A removed request. -/
theorem LoraMaps.Lists.discard (h : maps.Lists active) (ha : active.get? id = some a)
    (hd : maps.discard id a.state.loraId = .ok maps') : maps'.Lists (active.erase id) := by
  unfold LoraMaps.discard at hd
  cases hlora : a.state.loraRequest with
  | none =>
    have hzero : a.state.loraId = 0 := by rw [CachedRequestState.loraId, hlora]
    rw [if_pos hzero] at hd
    cases hd
    refine ⟨fun loraId j => ?_, h.nodup, h.nonempty, h.adapters, h.loraIntId⟩
    rw [h.mem]
    by_cases hj : j = id
    · subst hj
      rw [ha, Dict.get?_erase_self]
      simp [ActiveRequest.adapter, hlora]
    · rw [Dict.get?_erase_ne hj]
  | some lora =>
    have hid : a.state.loraId = lora.loraIntId := by rw [CachedRequestState.loraId, hlora]
    have hadapter : a.adapter = some lora.loraIntId := by rw [ActiveRequest.adapter, hlora]; rfl
    have hne : a.state.loraId ≠ 0 := by
      have := lora.one_le
      omega
    rw [if_neg hne, hid] at hd
    cases hget : maps.requestIds.get? lora.loraIntId with
    | none =>
      rw [hget] at hd
      cases hd
    | some ids =>
      rw [hget] at hd
      dsimp only at hd
      have hids : maps.requestIds.getD lora.loraIntId [] = ids := Dict.getD_of_get? hget
      -- what is listed afterwards
      suffices hlists : (∀ loraId, maps'.requestIds.getD loraId [] =
            if loraId = lora.loraIntId then ids.filter (· ≠ id)
            else maps.requestIds.getD loraId []) ∧
          (∀ loraId, maps'.requestIds.get? loraId ≠ some []) ∧
          (∀ loraId, loraId ∈ maps'.loraRequest ↔ loraId ∈ maps'.requestIds) ∧
          ∀ loraId l, maps'.loraRequest.get? loraId = some l → l.loraIntId = loraId by
        obtain ⟨hget', hnonempty, hadapters, hloraIntId⟩ := hlists
        refine ⟨fun loraId j => ?_, fun loraId => ?_, hnonempty, hadapters, hloraIntId⟩
        · have hmem := h.mem loraId j
          rw [hget', Dict.get?_erase]
          by_cases hl : loraId = lora.loraIntId
          · subst hl
            rw [hids] at hmem
            by_cases hj : j = id <;> simp [hj, hmem]
          · rw [if_neg hl, hmem]
            by_cases hj : j = id
            · subst hj
              simp [ha, hadapter, Ne.symm hl]
            · simp [hj]
        · rw [hget']
          split_ifs
          · exact (hids ▸ h.nodup lora.loraIntId).filter _
          · exact h.nodup loraId
      split_ifs at hd with hnil
      · cases hd
        refine ⟨fun loraId => ?_, fun loraId => ?_, fun loraId => ?_, fun loraId l => ?_⟩
        · rw [Dict.getD_erase]
          split_ifs
          · exact hnil.symm
          · rfl
        · rw [Dict.get?_erase]
          split_ifs
          · exact fun hc => by cases hc
          · exact h.nonempty loraId
        · rw [Dict.mem_erase, Dict.mem_erase, h.adapters]
        · rw [Dict.get?_erase]
          split_ifs
          · exact fun hc => by cases hc
          · exact h.loraIntId loraId l
      · cases hd
        refine ⟨fun loraId => ?_, fun loraId => ?_, fun loraId => ?_, h.loraIntId⟩
        · rw [Dict.getD_set]
        · rw [Dict.get?_set]
          split_ifs
          · exact fun hc => hnil (Option.some.inj hc)
          · exact h.nonempty loraId
        · have hmem : lora.loraIntId ∈ maps.requestIds := Dict.mem_of_get? hget
          rw [Dict.mem_set, h.adapters]
          constructor
          · exact .inr
          · rintro (rfl | hl)
            · exact hmem
            · exact hl

/-! ## Where the requests are -/

/-- The request is in the row. -/
def InputBatch.At (b : InputBatch) (i : Nat) (id : ReqId) : Prop := b.reqIds[i]? = some (some id)

/-- Nobody is in the row. -/
def InputBatch.Free (b : InputBatch) (i : Nat) : Prop := ∀ id, ¬ b.At i id

/-- **The batch at any moment.** Every active request has its row, and holds it. -/
structure Placed (cfg : BatchConfig) (b : InputBatch) (active : Dict ReqId ActiveRequest) : Prop where
  inverse : ∀ id i, b.reqIdToIndex.get? id = some i ↔ b.At i id
  keys : ∀ id, id ∈ active ↔ id ∈ b.reqIdToIndex
  holds : ∀ i id a, b.At i id → active.get? id = some a → (b.row i).Holds cfg a
  outputs : ∀ i id a, b.At i id → active.get? id = some a →
    b.reqOutputTokenIds[i]? = some (some a.state.outputTokenIds)
  sized : ∀ i, (b.row i).Sized cfg
  vacant : ∀ i, b.Free i → (b.row i).Vacant
  lora : b.lora.Lists active
  length : b.reqOutputTokenIds.length = b.reqIds.length
  below : b.reqIds.length ≤ cfg.maxNumReqs

variable {b b' : InputBatch} {i j : Nat} {id' : ReqId} {r : CachedRequestState}
  {output : List TokenId}

theorem placed_new (cfg : BatchConfig) : Placed cfg (.new cfg) ∅ where
  inverse id i := by simp [InputBatch.new, InputBatch.At]
  keys id := by simp [InputBatch.new]
  holds i id a h := by simp [InputBatch.new, InputBatch.At] at h
  outputs i id a h := by simp [InputBatch.new, InputBatch.At] at h
  sized _ := Row.sized_new cfg
  vacant _ _ := Row.vacant_new cfg
  lora := LoraMaps.lists_empty
  length := rfl
  below := Nat.zero_le _

namespace Placed

theorem at_unique (h : Placed cfg b active) (hi : b.At i id) (hj : b.At j id) : i = j :=
  Option.some.inj (((h.inverse id i).mpr hi).symm.trans ((h.inverse id j).mpr hj))

theorem lt_length (hi : b.At i id) : i < b.reqIds.length := (List.getElem?_eq_some_iff.mp hi).1

/-- A request in a row is active. -/
theorem exists_active (h : Placed cfg b active) (hi : b.At i id) : ∃ a, active.get? id = some a :=
  Dict.mem_iff_get?.mp ((h.keys id).mpr (Dict.mem_of_get? ((h.inverse id i).mpr hi)))

/-- An active request is in a row. -/
theorem exists_at (h : Placed cfg b active) (ha : id ∈ active) : ∃ i, b.At i id := by
  obtain ⟨i, hi⟩ := Dict.mem_iff_get?.mp ((h.keys id).mp ha)
  exact ⟨i, (h.inverse id i).mp hi⟩

theorem at_inj (hid : b.At i id) (hid' : b.At i id') : id = id' :=
  Option.some.inj (Option.some.inj (hid.symm.trans hid'))

/-- **Requests may change their rows** if their data go with them. -/
theorem relocate (h : Placed cfg b active) (f : Nat → Nat)
    (hAt : ∀ j id, b'.At j id ↔ ∃ i, b.At i id ∧ f i = j)
    (hindex : ∀ id, b'.reqIdToIndex.get? id = (b.reqIdToIndex.get? id).map f)
    (hholds : ∀ i id a, b.At i id → (b.row i).Holds cfg a → (b'.row (f i)).Holds cfg a)
    (houtputs : ∀ i id out, b.At i id → b.reqOutputTokenIds[i]? = some (some out) →
      b'.reqOutputTokenIds[f i]? = some (some out))
    (hsized : ∀ i, (b'.row i).Sized cfg) (hvacant : ∀ i, b'.Free i → (b'.row i).Vacant)
    (hlora : b'.lora = b.lora) (hlength : b'.reqOutputTokenIds.length = b.reqOutputTokenIds.length)
    (hrows : b'.reqIds.length = b.reqIds.length) : Placed cfg b' active where
  inverse id j := by
    rw [hindex, Option.map_eq_some_iff, hAt]
    simp only [h.inverse]
  keys id := by
    rw [h.keys, Dict.mem_iff_get?, Dict.mem_iff_get?, hindex]
    simp
  holds j id a hj ha := by
    obtain ⟨i, hi, rfl⟩ := (hAt j id).mp hj
    exact hholds i id a hi (h.holds i id a hi ha)
  outputs j id a hj ha := by
    obtain ⟨i, hi, rfl⟩ := (hAt j id).mp hj
    exact houtputs i id _ hi (h.outputs i id a hi ha)
  sized := hsized
  vacant := hvacant
  lora := hlora ▸ h.lora
  length := by rw [hlength, hrows, h.length]
  below := hrows ▸ h.below

/-- What is said of the requests and their rows does not depend on the rest. -/
theorem congr (h : Placed cfg b active) (hreqIds : b'.reqIds = b.reqIds)
    (hindex : b'.reqIdToIndex = b.reqIdToIndex)
    (houtputs : b'.reqOutputTokenIds = b.reqOutputTokenIds) (hrow : b'.row = b.row)
    (hlora : b'.lora = b.lora) : Placed cfg b' active := by
  have hAt : ∀ j id, b'.At j id ↔ b.At j id := fun j id => by rw [InputBatch.At, hreqIds, InputBatch.At]
  refine h.relocate id (by simp [hAt]) (by simp [hindex]) ?_ ?_ (hrow ▸ h.sized) (fun i hi => ?_) hlora
    (by rw [houtputs]) (by rw [hreqIds])
  · exact fun i _ a _ hh => hrow ▸ hh
  · exact fun i _ out _ hout => houtputs ▸ hout
  · exact hrow ▸ h.vacant i fun id hid => hi id ((hAt i id).mpr hid)

end Placed

/-! ### Removing -/

/-- What `remove_request` does. -/
theorem InputBatch.removeRequest_cases (h : b.removeRequest cfg id = .ok b') :
    (b.reqIdToIndex.get? id = none ∧ b' = b) ∨
      ∃ i builder lora, b.reqIdToIndex.get? id = some i ∧ b.builder.removedAppend i = .ok builder ∧
        b.lora.discard id (b.row i).requestLoraMapping = .ok lora ∧
        b' = { b with
          reqIdToIndex := b.reqIdToIndex.erase id
          builder, lora
          reqIds := b.reqIds.set i none
          reqOutputTokenIds := b.reqOutputTokenIds.set i none
          sets := b.sets.discard id
          row := update b.row i (b.row i).clear
          allowedTokenIdsMask :=
            b.allowedTokenIdsMask.map fun mask => update mask i (noMask cfg) } := by
  unfold InputBatch.removeRequest at h
  cases hget : b.reqIdToIndex.get? id with
  | none =>
    rw [hget] at h
    exact .inl ⟨rfl, (Except.ok.inj h).symm⟩
  | some i =>
    rw [hget] at h
    obtain ⟨builder, hbuilder, h⟩ := bind_eq_ok.mp h
    obtain ⟨lora, hlora, h⟩ := bind_eq_ok.mp h
    exact .inr ⟨i, builder, lora, rfl, hbuilder, hlora, (pure_eq_ok.mp h).symm⟩

theorem Placed.removeRequest (h : Placed cfg b active) (hr : b.removeRequest cfg id = .ok b') :
    Placed cfg b' (active.erase id) := by
  rcases InputBatch.removeRequest_cases hr with
    ⟨hnone, rfl⟩ | ⟨i, builder, lora, hget, -, hlora, rfl⟩
  · have hnot : id ∉ active := fun ha =>
      Dict.get?_eq_none_iff.mp hnone ((h.keys id).mp ha)
    rwa [Dict.erase_of_notMem hnot]
  have hat : b.At i id := (h.inverse id i).mp hget
  obtain ⟨a, ha⟩ := h.exists_active hat
  -- who is in a row afterwards
  have hAt : ∀ j id', (b.reqIds.set i none)[j]? = some (some id') ↔ b.At j id' ∧ id' ≠ id := by
    intro j id'
    rw [getElem?_set]
    by_cases hj : i = j
    · subst hj
      have hlen := Placed.lt_length hat
      simp only [if_true, hlen, Option.some.injEq, reduceCtorEq, false_iff, not_and, not_not]
      exact fun hat' => by
        have := hat'.symm.trans hat
        exact Option.some.inj (Option.some.inj this)
    · rw [if_neg hj]
      exact ⟨fun hat' => ⟨hat', fun hid => hj (h.at_unique hat (hid ▸ hat'))⟩, fun hat' => hat'.1⟩
  have hother : ∀ {j id'}, b.At j id' → id' ≠ id → j ≠ i := fun hat' hne hj => by
    have := (hj ▸ hat').symm.trans hat
    exact hne (Option.some.inj (Option.some.inj this))
  refine ⟨fun id' j => ?_, fun id' => ?_, fun j id' a' hj ha' => ?_, fun j id' a' hj ha' => ?_,
    fun j => ?_, fun j hfree => ?_, h.lora.discard ha (h.holds i id a hat ha |>.lora ▸ hlora), ?_, ?_⟩
  · change (b.reqIdToIndex.erase id).get? id' = some j ↔ (b.reqIds.set i none)[j]? = some (some id')
    rw [hAt, Dict.get?_erase, ← h.inverse]
    by_cases hid : id' = id <;> simp [hid]
  · rw [Dict.mem_erase, Dict.mem_erase, h.keys]
  · obtain ⟨hat', hne⟩ := (hAt j id').mp hj
    rw [Dict.get?_erase_ne hne] at ha'
    change (update b.row i _ j).Holds cfg a'
    rw [update_of_ne (hother hat' hne)]
    exact h.holds j id' a' hat' ha'
  · obtain ⟨hat', hne⟩ := (hAt j id').mp hj
    rw [Dict.get?_erase_ne hne] at ha'
    change (b.reqOutputTokenIds.set i none)[j]? = _
    rw [getElem?_set_ne (hother hat' hne).symm]
    exact h.outputs j id' a' hat' ha'
  · change (update b.row i _ j).Sized cfg
    rcases eq_or_ne j i with rfl | hj
    · rw [update_self]
      exact (h.sized j).clear
    · rw [update_of_ne hj]
      exact h.sized j
  · change (update b.row i _ j).Vacant
    rcases eq_or_ne j i with rfl | hj
    · rw [update_self]
      exact Row.vacant_clear _
    · rw [update_of_ne hj]
      refine h.vacant j fun id' hat' => hfree id' ((hAt j id').mpr ⟨hat', fun hid => hj ?_⟩)
      exact h.at_unique (hid ▸ hat') hat
  · change (b.reqOutputTokenIds.set i none).length = (b.reqIds.set i none).length
    rw [length_set, length_set, h.length]
  · change (b.reqIds.set i none).length ≤ _
    rw [length_set]
    exact h.below

/-! ### Holes -/

/-- **The emptied rows are those in the builder.** -/
structure Holes (b : InputBatch) : Prop where
  nodup : b.builder.removed.Nodup
  mem : ∀ i, i ∈ b.builder.removed ↔ b.reqIds[i]? = some none

/-- The rows of the requests. -/
def InputBatch.rows (b : InputBatch) : List Nat := b.reqIdToIndex.entries.map Prod.snd

theorem Placed.mem_rows (h : Placed cfg b active) : i ∈ b.rows ↔ ∃ id, b.At i id := by
  unfold InputBatch.rows
  rw [List.mem_map]
  constructor
  · rintro ⟨⟨id, j⟩, hmem, rfl⟩
    exact ⟨id, (h.inverse id j).mp (Dict.get?_eq_some_iff.mpr hmem)⟩
  · rintro ⟨id, hat⟩
    exact ⟨(id, i), Dict.get?_eq_some_iff.mp ((h.inverse id i).mpr hat), rfl⟩

theorem Placed.nodup_rows (h : Placed cfg b active) : b.rows.Nodup := by
  refine List.Nodup.map_on ?_ (List.Nodup.of_map Prod.fst b.reqIdToIndex.nodup)
  rintro ⟨id₁, i₁⟩ h₁ ⟨id₂, i₂⟩ h₂ heq
  obtain rfl : i₁ = i₂ := heq
  have hat₁ := (h.inverse id₁ i₁).mp (Dict.get?_eq_some_iff.mpr h₁)
  have hat₂ := (h.inverse id₂ i₁).mp (Dict.get?_eq_some_iff.mpr h₂)
  rw [Option.some.inj (Option.some.inj (hat₁.symm.trans hat₂))]

theorem length_of_mem_iff_lt {l : List Nat} {n : Nat} (hnodup : l.Nodup)
    (hmem : ∀ i, i ∈ l ↔ i < n) : l.length = n := by
  have hperm : l.Perm (List.range n) :=
    (List.perm_ext_iff_of_nodup hnodup List.nodup_range).mpr fun i => by rw [hmem, List.mem_range]
  rw [hperm.length_eq, List.length_range]

/-- If the requests are exactly in the rows below a bound, then the bound is their number. -/
theorem Placed.numReqs_eq (h : Placed cfg b active) {n : Nat} (hn : ∀ i, (∃ id, b.At i id) ↔ i < n) :
    b.numReqs = n := by
  have hlen := length_of_mem_iff_lt h.nodup_rows fun i => h.mem_rows.trans (hn i)
  rwa [InputBatch.rows, List.length_map] at hlen

/-- The requests and the holes make up all rows. -/
theorem Placed.numReqs_add (h : Placed cfg b active) (hh : Holes b) :
    b.numReqs + b.builder.removed.length = b.reqIds.length := by
  have hnodup : (b.rows ++ b.builder.removed).Nodup := by
    refine List.nodup_append'.mpr ⟨h.nodup_rows, hh.nodup, fun i hrow hhole => ?_⟩
    obtain ⟨id, hat⟩ := h.mem_rows.mp hrow
    have := ((hh.mem i).mp hhole).symm.trans hat
    cases Option.some.inj this
  have hmem : ∀ i, i ∈ b.rows ++ b.builder.removed ↔ i < b.reqIds.length := fun i => by
    rw [mem_append, h.mem_rows, hh.mem]
    constructor
    · rintro (⟨id, hat⟩ | hhole)
      · exact Placed.lt_length hat
      · exact (List.getElem?_eq_some_iff.mp hhole).1
    · intro hi
      cases hget : b.reqIds[i] with
      | none => exact .inr (List.getElem?_eq_some_iff.mpr ⟨hi, hget⟩)
      | some id => exact .inl ⟨id, List.getElem?_eq_some_iff.mpr ⟨hi, hget⟩⟩
  have hlen := length_of_mem_iff_lt hnodup hmem
  rwa [length_append, InputBatch.rows, List.length_map] at hlen

theorem Holes.free (hh : Holes b) (hi : i ∈ b.builder.removed) : b.Free i := fun id hat => by
  have := ((hh.mem i).mp hi).symm.trans hat
  cases Option.some.inj this

theorem Holes.lt_length (hh : Holes b) (hi : i ∈ b.builder.removed) : i < b.reqIds.length :=
  (List.getElem?_eq_some_iff.mp ((hh.mem i).mp hi)).1

/-- A removed request leaves a hole. -/
theorem Holes.removeRequest (hh : Holes b) (h : Placed cfg b active)
    (hr : b.removeRequest cfg id = .ok b') : Holes b' := by
  rcases InputBatch.removeRequest_cases hr with
    ⟨-, rfl⟩ | ⟨i, builder, lora, hget, hbuilder, -, rfl⟩
  · exact hh
  have hat : b.At i id := (h.inverse id i).mp hget
  obtain ⟨_, -, hbuilder⟩ := bind_eq_ok.mp hbuilder
  cases hbuilder
  have hnot : i ∉ b.builder.removed := fun hi => hh.free hi id hat
  refine ⟨?_, fun j => ?_⟩
  · exact List.nodup_append'.mpr
      ⟨hh.nodup, List.nodup_singleton i, fun x hx hxi => hnot (mem_singleton.mp hxi ▸ hx)⟩
  · change j ∈ b.builder.removed ++ [i] ↔ (b.reqIds.set i none)[j]? = some none
    rw [mem_append, mem_singleton, getElem?_set, hh.mem]
    by_cases hj : i = j
    · subst hj
      simp [Placed.lt_length hat]
    · rw [if_neg hj]
      exact or_iff_left (Ne.symm hj)

/-! ### The builder -/

/-- If the builder says that its removed rows are sorted, they are. -/
def BatchUpdateBuilder.SortedIf (u : BatchUpdateBuilder) : Prop :=
  u.isRemovedSorted = true → u.removed.Pairwise (· ≥ ·)

namespace BatchUpdateBuilder

variable {u : BatchUpdateBuilder}

theorem ensureRemovedSorted_perm (u : BatchUpdateBuilder) :
    u.ensureRemovedSorted.removed.Perm u.removed := by
  unfold ensureRemovedSorted
  split_ifs
  · exact List.Perm.refl _
  · exact List.perm_insertionSort ..

theorem ensureRemovedSorted_sorted (h : u.SortedIf) :
    u.ensureRemovedSorted.removed.Pairwise (· ≥ ·) := by
  unfold ensureRemovedSorted
  split_ifs with hs
  · exact h hs
  · exact List.pairwise_insertionSort ..

@[simp] theorem added_ensureRemovedSorted : u.ensureRemovedSorted.added = u.added := by
  unfold ensureRemovedSorted
  split_ifs <;> rfl

@[simp] theorem moved_ensureRemovedSorted : u.ensureRemovedSorted.moved = u.moved := by
  unfold ensureRemovedSorted
  split_ifs <;> rfl

@[simp] theorem isRemovedSorted_ensureRemovedSorted :
    u.ensureRemovedSorted.isRemovedSorted = true := by
  unfold ensureRemovedSorted
  split_ifs with h
  · exact h
  · rfl

theorem ensureRemovedSorted_of_sorted (h : u.isRemovedSorted = true) :
    u.ensureRemovedSorted = u := by
  rw [ensureRemovedSorted, if_pos h]

/-- Popping a removed row. -/
structure Pops (u : BatchUpdateBuilder) (i : Nat) (u' : BatchUpdateBuilder) : Prop where
  pop : u.popRemoved = (some i, u')
  peek : u.peekRemoved = (some i, u.ensureRemovedSorted)
  perm : u.removed.Perm (i :: u'.removed)
  sorted : u'.SortedIf
  isSorted : u'.isRemovedSorted = true
  lowest : ∀ j ∈ u.removed, i ≤ j
  added : u'.added = u.added
  moved : u'.moved = u.moved

/-- **The lowest removed row** is popped. -/
theorem exists_pops (h : u.SortedIf) (hne : u.removed ≠ []) : ∃ i u', u.Pops i u' := by
  have hperm := ensureRemovedSorted_perm u
  have hsorted := ensureRemovedSorted_sorted h
  have hne' : u.ensureRemovedSorted.removed ≠ [] := fun hnil =>
    hne (List.perm_nil.mp (hnil ▸ hperm.symm))
  have hlast : u.ensureRemovedSorted.removed.getLast? =
      some (u.ensureRemovedSorted.removed.getLast hne') := List.getLast?_eq_some_getLast hne'
  have hsplit := List.dropLast_append_getLast hne'
  refine ⟨u.ensureRemovedSorted.removed.getLast hne',
    { u.ensureRemovedSorted with removed := u.ensureRemovedSorted.removed.dropLast }, ?_⟩
  constructor
  · rw [popRemoved, if_neg hne, hlast]
  · rw [peekRemoved, if_neg hne, hlast]
  · refine hperm.symm.trans ?_
    conv_lhs => rw [← hsplit]
    exact List.perm_append_singleton ..
  · exact fun _ => hsorted.sublist (List.dropLast_sublist _)
  · exact isRemovedSorted_ensureRemovedSorted
  · intro j hj
    have hj' := hperm.mem_iff.mpr hj
    rw [← hsplit, mem_append, mem_singleton] at hj'
    rcases hj' with hj' | rfl
    · rw [← hsplit] at hsorted
      exact (List.pairwise_append.mp hsorted).2.2 j hj' _ (mem_singleton.mpr rfl)
    · exact le_rfl
  · exact added_ensureRemovedSorted
  · exact moved_ensureRemovedSorted

theorem popRemoved_nil (h : u.removed = []) : u.popRemoved = (none, u) := by
  rw [popRemoved, if_pos h]

end BatchUpdateBuilder

/-! ### Adding -/

/-- What `add_request` does: the request is in the row `i`. -/
structure InputBatch.Adds (cfg : BatchConfig) (b : InputBatch) (r : CachedRequestState)
    (output : List TokenId) (i : Nat) (b' : InputBatch) : Prop where
  builder : b'.builder = { b.getNextAddIndex.2 with
    added := b.getNextAddIndex.2.added ++
      (r.params.map fun params => AddedRequest.mk i params r.outputTokenIds).toList }
  lt : i < cfg.maxNumReqs
  le : i ≤ b.reqIds.length
  reqIds : ∀ j, b'.reqIds[j]? = if j = i then some (some r.reqId) else b.reqIds[j]?
  outputs : b.reqOutputTokenIds.length = b.reqIds.length → ∀ j, b'.reqOutputTokenIds[j]? =
    if j = i then some (some r.outputTokenIds) else b.reqOutputTokenIds[j]?
  index : b'.reqIdToIndex = b.reqIdToIndex.set r.reqId i
  load : ∃ row, (b.row i).load cfg r output = .ok row ∧ b'.row = Function.update b.row i row
  params : ∃ params, r.params = some params
  lora : b'.lora = (r.loraRequest.map (b.lora.add r.reqId)).getD b.lora
  mask : ∃ b₁ : InputBatch, b₁.allowedTokenIdsMask = b.allowedTokenIdsMask ∧
    ∃ b₂, b₁.addMask cfg i r = .ok b₂ ∧ b'.allowedTokenIdsMask = b₂.allowedTokenIdsMask
  minP : b'.minP = b.minP
  logitBias : b'.logitBias = b.logitBias
  minTokens : b'.minTokens = b.minTokens

theorem InputBatch.addMask_frame {r : CachedRequestState} (h : b.addMask cfg i r = .ok b') :
    b' = { b with allowedTokenIdsMask := b'.allowedTokenIdsMask } := by
  unfold InputBatch.addMask at h
  split at h
  · cases h
    rfl
  · obtain ⟨mask, -, h⟩ := bind_eq_ok.mp h
    cases h
    rfl

/-- The place of an added request. -/
theorem InputBatch.placeAdded_cases (h : b.placeAdded i r = .ok b') :
    i ≤ b.reqIds.length ∧ (∀ j, b'.reqIds[j]? = if j = i then some (some r.reqId) else b.reqIds[j]?) ∧
      (b.reqOutputTokenIds.length = b.reqIds.length → ∀ j, b'.reqOutputTokenIds[j]? =
        if j = i then some (some r.outputTokenIds) else b.reqOutputTokenIds[j]?) ∧
      b' = { b with
        reqIds := b'.reqIds
        reqOutputTokenIds := b'.reqOutputTokenIds
        reqIdToIndex := b.reqIdToIndex.set r.reqId i } := by
  have hsnoc : ∀ {γ : Type} (l : List γ) (x : γ) (j : Nat),
      (l ++ [x])[j]? = if j = l.length then some x else l[j]? := by
    intro γ l x j
    rw [List.getElem?_append]
    split_ifs with h₁ h₂ h₂
    · omega
    · rfl
    · rw [h₂, Nat.sub_self]
      rfl
    · rw [getElem?_eq_none (by rw [List.length_singleton]; omega),
        getElem?_eq_none (by omega)]
  have hset : ∀ {γ : Type} (l : List γ) (x : γ) (j : Nat), i < l.length →
      (l.set i x)[j]? = if j = i then some x else l[j]? := by
    intro γ l x j hi
    rw [getElem?_set]
    by_cases hj : j = i
    · subst hj
      simp [hi]
    · rw [if_neg (Ne.symm hj), if_neg hj]
  unfold InputBatch.placeAdded at h
  split_ifs at h with hi
  · cases h
    subst hi
    refine ⟨le_rfl, hsnoc _ _, fun hlen j => ?_, rfl⟩
    rw [← hlen]
    exact hsnoc _ _ j
  · obtain ⟨_, hlt, h⟩ := bind_eq_ok.mp h
    have hlt := require_eq_ok.mp hlt
    cases h
    exact ⟨hlt.le, fun j => hset _ _ j hlt, fun hlen j => hset _ _ j (hlen ▸ hlt), rfl⟩

theorem InputBatch.addRequest_adds (h : b.addRequest cfg r output = .ok b') :
    b.Adds cfg r output b.getNextAddIndex.1 b' := by
  unfold InputBatch.addRequest at h
  cases hnext : b.getNextAddIndex with
  | mk i builder =>
    rw [hnext] at h
    obtain ⟨_, hlt, h⟩ := bind_eq_ok.mp h
    obtain ⟨b₁, hplace, h⟩ := bind_eq_ok.mp h
    obtain ⟨row, hrow, h⟩ := bind_eq_ok.mp h
    obtain ⟨b₂, hmask, h⟩ := bind_eq_ok.mp h
    cases h
    obtain ⟨hle, hreqIds, houtputs, hb₁⟩ := InputBatch.placeAdded_cases hplace
    have hb₂ := InputBatch.addMask_frame hmask
    have hrow₁ : b₁.row = b.row := by rw [hb₁]
    rw [hrow₁] at hrow
    constructor
    · dsimp only
      rw [hb₂, hb₁, hnext]
    · exact require_eq_ok.mp hlt
    · exact hle
    · intro j
      rw [← hreqIds j, hb₂]
    · intro hlen j
      rw [← houtputs hlen j, hb₂]
    · dsimp only
      rw [hb₂, hb₁]
    · refine ⟨row, hrow, ?_⟩
      rw [hb₂, hrow₁]
    · cases hparams : r.params with
      | some params => exact ⟨params, rfl⟩
      | none =>
        obtain ⟨_, -, hrow⟩ := bind_eq_ok.mp hrow
        obtain ⟨_, -, hrow⟩ := bind_eq_ok.mp hrow
        obtain ⟨_, -, hrow⟩ := bind_eq_ok.mp hrow
        rw [hparams] at hrow
        cases hrow
    · dsimp only
      rw [hb₂, hb₁]
    · refine ⟨_, ?_, b₂, hmask, rfl⟩
      rw [hb₁]
    · dsimp only
      rw [hb₂, hb₁]
    · dsimp only
      rw [hb₂, hb₁]
    · dsimp only
      rw [hb₂, hb₁]

/-- **The row of the next added request** is the lowest hole, or the end if there is none. -/
theorem Placed.getNextAddIndex_cases (h : Placed cfg b active) (hh : Holes b)
    (hs : b.builder.SortedIf) :
    (b.builder.removed = [] ∧ b.getNextAddIndex = (b.reqIds.length, b.builder)) ∨
      ∃ i u', b.builder.Pops i u' ∧ b.getNextAddIndex = (i, u') := by
  unfold InputBatch.getNextAddIndex
  by_cases hne : b.builder.removed = []
  · have hsize := h.numReqs_add hh
    rw [hne, List.length_nil, Nat.add_zero] at hsize
    exact .inl ⟨hne, by rw [BatchUpdateBuilder.popRemoved_nil hne, hsize]⟩
  · obtain ⟨i, u', hpops⟩ := BatchUpdateBuilder.exists_pops hs hne
    exact .inr ⟨i, u', hpops, by rw [hpops.pop]⟩

theorem Placed.free_nextAddIndex (h : Placed cfg b active) (hh : Holes b)
    (hs : b.builder.SortedIf) : b.Free b.getNextAddIndex.1 := by
  rcases h.getNextAddIndex_cases hh hs with ⟨-, hnext⟩ | ⟨i, u', hpops, hnext⟩ <;> rw [hnext]
  · exact fun id hat => absurd (Placed.lt_length hat) (Nat.lt_irrefl _)
  · exact hh.free (hpops.perm.mem_iff.mpr List.mem_cons_self)

theorem length_of_getElem? {γ : Type} {l l' : List γ} {x : γ}
    (h : ∀ j, l'[j]? = if j = i then some x else l[j]?) : l'.length = max l.length (i + 1) := by
  refine le_antisymm (List.getElem?_eq_none_iff.mp ?_) (max_le (List.getElem?_eq_none_iff.mp ?_) ?_)
  · rw [h, if_neg (by omega), getElem?_eq_none (by omega)]
  · have hget := h l'.length
    rw [getElem?_eq_none le_rfl] at hget
    split_ifs at hget
    exact hget.symm
  · have hget := h i
    rw [if_pos rfl] at hget
    exact (List.getElem?_eq_some_iff.mp hget).1

/-- **An added request** is placed into a row that nobody has. -/
theorem Placed.addRequest (h : Placed cfg b active) (hadds : b.Adds cfg r output i b')
    (hfree : b.Free i) (hnew : r.reqId ∉ active) (hfits : Fits cfg r output) :
    Placed cfg b' (active.set r.reqId ⟨r, output⟩) := by
  obtain ⟨row, hload, hrow⟩ := hadds.load
  obtain ⟨hholds, hsized⟩ := Row.load_holds (h.sized i) (h.vacant i hfree) hfits hload
  have hAt : ∀ j id, b'.At j id ↔ if j = i then id = r.reqId else b.At j id := fun j id => by
    unfold InputBatch.At
    rw [hadds.reqIds]
    split_ifs
    · rw [Option.some.injEq, Option.some.injEq, eq_comm]
    · exact Iff.rfl
  have hnotAt : ∀ j, ¬ b.At j r.reqId := fun j hat =>
    hnew ((h.keys _).mpr (Dict.mem_of_get? ((h.inverse _ j).mpr hat)))
  have hother : ∀ {j id}, b.At j id → j ≠ i ∧ id ≠ r.reqId := fun {j id} hat =>
    ⟨fun hj => hfree id (hj ▸ hat), fun hid => hnotAt j (hid ▸ hat)⟩
  have hlen := length_of_getElem? hadds.reqIds
  refine ⟨fun id j => ?_, fun id => ?_, fun j id a hj ha => ?_, fun j id a hj ha => ?_, fun j => ?_,
    fun j hfree' => ?_, ?_, ?_, ?_⟩
  · rw [hadds.index, Dict.get?_set, hAt]
    by_cases hid : id = r.reqId
    · subst hid
      rw [if_pos rfl, Option.some.injEq, eq_comm]
      by_cases hj : j = i
      · simp [hj]
      · simp [hj, hnotAt j]
    · rw [if_neg hid, h.inverse]
      by_cases hj : j = i
      · subst hj
        simp [hid, hfree id]
      · simp [hj]
  · rw [hadds.index, Dict.mem_set, Dict.mem_set, h.keys]
  · rw [hrow]
    rw [hAt] at hj
    by_cases hji : j = i
    · subst hji
      rw [if_pos rfl] at hj
      subst hj
      rw [Dict.get?_set_self] at ha
      cases ha
      rwa [update_self]
    · rw [if_neg hji] at hj
      rw [Dict.get?_set_ne (hother hj).2] at ha
      rw [update_of_ne hji]
      exact h.holds j id a hj ha
  · rw [hadds.outputs h.length]
    rw [hAt] at hj
    by_cases hji : j = i
    · rw [if_pos hji] at hj ⊢
      subst hj
      rw [Dict.get?_set_self] at ha
      cases ha
      rfl
    · rw [if_neg hji] at hj ⊢
      rw [Dict.get?_set_ne (hother hj).2] at ha
      exact h.outputs j id a hj ha
  · rw [hrow]
    rcases eq_or_ne j i with rfl | hj
    · rwa [update_self]
    · rw [update_of_ne hj]
      exact h.sized j
  · rw [hrow]
    rcases eq_or_ne j i with rfl | hj
    · exact absurd ((hAt j r.reqId).mpr (by rw [if_pos rfl])) (hfree' r.reqId)
    · rw [update_of_ne hj]
      exact h.vacant j fun id hat => hfree' id ((hAt j id).mpr (by rwa [if_neg hj]))
  · rw [hadds.lora]
    cases hlora : r.loraRequest with
    | none => exact h.lora.set_none hnew (by rw [ActiveRequest.adapter, hlora]; rfl)
    | some lora => exact h.lora.add hnew (by rw [ActiveRequest.adapter, hlora]; rfl)
  · rw [hlen, length_of_getElem? (hadds.outputs h.length), h.length]
  · rw [hlen]
    exact max_le h.below hadds.lt

/-- An added request fills a hole, or there are none. -/
theorem Holes.addRequest (hh : Holes b) (h : Placed cfg b active) (hs : b.builder.SortedIf)
    (hadds : b.Adds cfg r output b.getNextAddIndex.1 b') :
    Holes b' ∧ b'.builder.SortedIf ∧ b'.builder.removed = b.getNextAddIndex.2.removed := by
  have hreqIds := hadds.reqIds
  have hbuilder := hadds.builder
  rcases h.getNextAddIndex_cases hh hs with ⟨hnil, hnext⟩ | ⟨i, u', hpops, hnext⟩ <;>
    rw [hnext] at hreqIds hbuilder ⊢
  · have hremoved : b'.builder.removed = b.builder.removed := by rw [hbuilder]
    refine ⟨⟨hremoved ▸ hh.nodup, fun j => ?_⟩, ?_, hremoved⟩
    · rw [hremoved, hreqIds, hh.mem]
      split_ifs with hj
      · subst hj
        rw [getElem?_eq_none le_rfl]
        simp
      · exact Iff.rfl
    · rw [hbuilder]
      exact hs
  · have hremoved : b'.builder.removed = u'.removed := by rw [hbuilder]
    have hnodup := hpops.perm.nodup hh.nodup
    refine ⟨⟨hremoved ▸ hnodup.of_cons, fun j => ?_⟩, ?_, hremoved⟩
    · have hmem := hh.mem j
      rw [hpops.perm.mem_iff, List.mem_cons] at hmem
      rw [hremoved, hreqIds]
      split_ifs with hj
      · subst hj
        simpa using (nodup_cons.mp hnodup).1
      · rw [← hmem]
        exact (or_iff_right hj).symm
    · rw [hbuilder]
      exact hpops.sorted

/-! ### Moving down -/

/-- What the body of the loop of `condense` does. -/
structure InputBatch.MovesDown (b : InputBatch) (src tgt : Nat) (id : ReqId) (b' : InputBatch) : Prop
    where
  atSrc : b.At src id
  reqIds : b'.reqIds = (b.reqIds.set tgt (some id)).set src none
  outputs : b'.reqOutputTokenIds =
    (b.reqOutputTokenIds.set tgt (b.reqOutputTokenIds[src]?.join)).set src none
  index : b'.reqIdToIndex = b.reqIdToIndex.set id tgt
  row : b'.row = Function.update (Function.update b.row tgt ((b.row src).moveInto (b.row tgt))) src
    (b.row src).moveFrom
  mask : b'.allowedTokenIdsMask = b.allowedTokenIdsMask.map fun mask =>
    Function.update mask tgt (mask src)
  lora : b'.lora = b.lora
  builder : b'.builder = b.builder
  minP : b'.minP = b.minP
  logitBias : b'.logitBias = b.logitBias
  minTokens : b'.minTokens = b.minTokens

theorem InputBatch.moveRequest_moves {src tgt : Nat} (h : b.moveRequest src tgt = .ok b') :
    ∃ id, b.MovesDown src tgt id b' := by
  unfold InputBatch.moveRequest at h
  split at h
  next reqId hat =>
    cases h
    exact ⟨reqId, hat, rfl, rfl, rfl, rfl, rfl, rfl, rfl, rfl, rfl, rfl⟩
  next => cases h
  next => cases h

/-- Who is in a row after a move. -/
theorem InputBatch.MovesDown.at_iff {src tgt : Nat} (hm : b.MovesDown src tgt id b')
    (htgt : tgt < b.reqIds.length) (hne : src ≠ tgt) (j : Nat) (id' : ReqId) :
    b'.At j id' ↔ j ≠ src ∧ if j = tgt then id' = id else b.At j id' := by
  have hsrc := Placed.lt_length hm.atSrc
  unfold InputBatch.At
  rw [hm.reqIds, getElem?_set, getElem?_set, length_set]
  by_cases hjs : j = src
  · subst hjs
    simp [hsrc]
  · rw [if_neg (Ne.symm hjs)]
    by_cases hjt : j = tgt
    · subst hjt
      simp [htgt, hjs, eq_comm]
    · simp [Ne.symm hjt, hjs, hjt]

/-- **A request that moves down** holds its new row. -/
theorem Placed.moveRequest {src tgt : Nat} (h : Placed cfg b active)
    (hm : b.MovesDown src tgt id b') (hfree : b.Free tgt) (htgt : tgt < b.reqIds.length) :
    Placed cfg b' active := by
  have hne : src ≠ tgt := fun heq => hfree id (heq ▸ hm.atSrc)
  have hAt := hm.at_iff htgt hne
  refine h.relocate (fun i => if i = src then tgt else i) (fun j id' => ?_) (fun id' => ?_)
    (fun i id' a hi hh => ?_) (fun i id' out hi hout => ?_) (fun j => ?_) (fun j hfree' => ?_) hm.lora
    (by rw [hm.outputs]; simp) (by rw [hm.reqIds]; simp)
  · rw [hAt]
    constructor
    · rintro ⟨hjs, hj⟩
      by_cases hjt : j = tgt
      · rw [if_pos hjt] at hj
        exact ⟨src, hj ▸ hm.atSrc, by rw [if_pos rfl, hjt]⟩
      · rw [if_neg hjt] at hj
        exact ⟨j, hj, if_neg hjs⟩
    · rintro ⟨i, hi, rfl⟩
      by_cases his : i = src
      · rw [if_pos his, if_pos rfl]
        exact ⟨hne.symm, Placed.at_inj (his ▸ hi) hm.atSrc⟩
      · rw [if_neg his, if_neg fun hit : i = tgt => hfree id' (hit ▸ hi)]
        exact ⟨his, hi⟩
  · rw [hm.index, Dict.get?_set]
    split_ifs with hid
    · rw [hid, (h.inverse _ _).mpr hm.atSrc, map_some, if_pos rfl]
    · cases hget : b.reqIdToIndex.get? id' with
      | none => rfl
      | some i =>
        have hi := (h.inverse _ _).mp hget
        rw [map_some, if_neg fun his : i = src => hid (Placed.at_inj (his ▸ hi) hm.atSrc)]
  · rw [hm.row]
    by_cases his : i = src
    · rw [if_pos his, update_of_ne hne.symm, update_self]
      exact (his ▸ hh).moveInto (h.sized src) (h.sized tgt) (h.vacant tgt hfree)
    · rw [if_neg his, update_of_ne his,
        update_of_ne fun hit : i = tgt => hfree id' (hit ▸ hi)]
      exact hh
  · rw [hm.outputs]
    by_cases his : i = src
    · rw [if_pos his, getElem?_set_ne hne, List.getElem?_set_self (h.length ▸ htgt), ← his, hout]
      rfl
    · rw [if_neg his, getElem?_set_ne (Ne.symm his),
        getElem?_set_ne fun hit : tgt = i => hfree id' (hit ▸ hi)]
      exact hout
  · rw [hm.row]
    rcases eq_or_ne j src with rfl | hjs
    · rw [update_self]
      exact (h.sized j).moveFrom
    · rw [update_of_ne hjs]
      rcases eq_or_ne j tgt with rfl | hjt
      · rw [update_self]
        exact (h.sized src).moveInto (h.sized j)
      · rw [update_of_ne hjt]
        exact h.sized j
  · rw [hm.row]
    rcases eq_or_ne j src with rfl | hjs
    · rw [update_self]
      exact Row.vacant_moveFrom _
    · rw [update_of_ne hjs]
      rcases eq_or_ne j tgt with rfl | hjt
      · exact absurd ((hAt j id).mpr ⟨hjs, by rw [if_pos rfl]⟩) (hfree' id)
      · rw [update_of_ne hjt]
        exact h.vacant j fun id' hat => hfree' id' ((hAt j id').mpr ⟨hjs, by rwa [if_neg hjt]⟩)

/-! ### Swapping -/

/-- What `swap_states` does. -/
structure InputBatch.Swaps (b : InputBatch) (i1 i2 : Nat) (id1 id2 : ReqId) (b' : InputBatch) : Prop
    where
  at1 : b.At i1 id1
  at2 : b.At i2 id2
  index : ∃ x1 x2, b.reqIdToIndex.get? id1 = some x1 ∧ b.reqIdToIndex.get? id2 = some x2 ∧
    b'.reqIdToIndex = (b.reqIdToIndex.set id1 x2).set id2 x1
  reqIds : b'.reqIds = (b.reqIds.set i1 (some id2)).set i2 (some id1)
  outputs : b'.reqOutputTokenIds =
    (b.reqOutputTokenIds.set i1 (b.reqOutputTokenIds[i2]?.join)).set i2 (b.reqOutputTokenIds[i1]?.join)
  row : b'.row = Function.update (Function.update b.row i1 ((b.row i2).swapInto (b.row i1))) i2
    ((b.row i1).swapInto (b.row i2))
  mask : b'.allowedTokenIdsMask =
    b.allowedTokenIdsMask.map fun mask => InputBatch.swapViews mask i1 i2
  lora : b'.lora = b.lora
  builder : b'.builder = { b.builder with
    moved := b.builder.moved ++ [{ src := i1, tgt := i2, direct := .swap }] }
  minP : b'.minP = b.minP
  logitBias : b'.logitBias = b.logitBias
  minTokens : b'.minTokens = b.minTokens

variable {i1 i2 : Nat} {id1 id2 : ReqId}

theorem InputBatch.swapStates_swaps (h : b.swapStates i1 i2 = .ok b') :
    ∃ id1 id2, b.Swaps i1 i2 id1 id2 b' := by
  unfold InputBatch.swapStates at h
  split at h
  next id1 id2 hat1 hat2 =>
    split at h
    next x1 x2 hx1 hx2 =>
      cases h
      exact ⟨id1, id2, hat1, hat2, ⟨x1, x2, hx1, hx2, rfl⟩, rfl, rfl, rfl, rfl, rfl, rfl, rfl, rfl, rfl⟩
    next => cases h
  next => cases h
  next => cases h

/-- Who is in a row after a swap. -/
theorem InputBatch.Swaps.at_iff (hs : b.Swaps i1 i2 id1 id2 b') (j : Nat) (id : ReqId) :
    b'.At j id ↔ if j = i2 then id = id1 else if j = i1 then id = id2 else b.At j id := by
  have h1 := Placed.lt_length hs.at1
  have h2 := Placed.lt_length hs.at2
  unfold InputBatch.At
  rw [hs.reqIds, getElem?_set, getElem?_set, length_set]
  by_cases hj2 : j = i2
  · subst hj2
    simp [h2, eq_comm]
  · rw [if_neg (Ne.symm hj2), if_neg hj2]
    by_cases hj1 : j = i1
    · subst hj1
      simp [h1, eq_comm]
    · rw [if_neg (Ne.symm hj1), if_neg hj1]

/-- **Swapped requests** hold their new rows. -/
theorem Placed.swapStates (h : Placed cfg b active) (hs : b.Swaps i1 i2 id1 id2 b') :
    Placed cfg b' active := by
  have hAt := hs.at_iff
  obtain ⟨x1, x2, hx1, hx2, hindex⟩ := hs.index
  obtain rfl : x1 = i1 := h.at_unique ((h.inverse id1 x1).mp hx1) hs.at1
  obtain rfl : x2 = i2 := h.at_unique ((h.inverse id2 x2).mp hx2) hs.at2
  have hl1 := h.length ▸ Placed.lt_length hs.at1
  have hl2 := h.length ▸ Placed.lt_length hs.at2
  have hothers : ∀ i, i ≠ x1 → i ≠ x2 → Equiv.swap x1 x2 i = i := fun _ => Equiv.swap_apply_of_ne_of_ne
  refine h.relocate (Equiv.swap x1 x2) (fun j id => ?_) (fun id => ?_) (fun i id a hi hh => ?_)
    (fun i id out hi hout => ?_) (fun j => ?_) (fun j hfree => ?_) hs.lora (by rw [hs.outputs]; simp)
    (by rw [hs.reqIds]; simp)
  · rw [hAt]
    constructor
    · refine fun hj => ⟨Equiv.swap x1 x2 j, ?_, Equiv.swap_apply_self _ _ _⟩
      split_ifs at hj with hj2 hj1
      · rw [hj2, Equiv.swap_apply_right, hj]
        exact hs.at1
      · rw [hj1, Equiv.swap_apply_left, hj]
        exact hs.at2
      · rwa [hothers j hj1 hj2]
    · rintro ⟨i, hi, rfl⟩
      by_cases hi1 : i = x1
      · rw [hi1, Equiv.swap_apply_left, if_pos rfl]
        exact Placed.at_inj (hi1 ▸ hi) hs.at1
      · by_cases hi2 : i = x2
        · rw [hi2, Equiv.swap_apply_right, if_neg fun heq => hi1 (hi2.trans heq.symm), if_pos rfl]
          exact Placed.at_inj (hi2 ▸ hi) hs.at2
        · rwa [hothers i hi1 hi2, if_neg hi2, if_neg hi1]
  · rw [hindex, Dict.get?_set, Dict.get?_set]
    split_ifs with hid2 hid1
    · rw [hid2, hx2, map_some, Equiv.swap_apply_right]
    · rw [hid1, hx1, map_some, Equiv.swap_apply_left]
    · cases hget : b.reqIdToIndex.get? id with
      | none => rfl
      | some i =>
        have hi := (h.inverse _ _).mp hget
        rw [map_some, hothers i (fun hi1 => hid1 (Placed.at_inj (hi1 ▸ hi) hs.at1))
          fun hi2 => hid2 (Placed.at_inj (hi2 ▸ hi) hs.at2)]
  · rw [hs.row]
    by_cases hi1 : i = x1
    · rw [hi1, Equiv.swap_apply_left, update_self]
      exact (hi1 ▸ hh).swapInto
    · by_cases hi2 : i = x2
      · rw [hi2, Equiv.swap_apply_right, update_of_ne fun heq => hi1 (hi2.trans heq.symm),
          update_self]
        exact (hi2 ▸ hh).swapInto
      · rw [hothers i hi1 hi2, update_of_ne hi2, update_of_ne hi1]
        exact hh
  · rw [hs.outputs]
    by_cases hi1 : i = x1
    · rw [hi1, Equiv.swap_apply_left, List.getElem?_set_self (by rwa [length_set]), ← hi1, hout]
      rfl
    · by_cases hi2 : i = x2
      · rw [hi2, Equiv.swap_apply_right, getElem?_set_ne fun heq => hi1 (hi2.trans heq),
          List.getElem?_set_self hl1, ← hi2, hout]
        rfl
      · rw [hothers i hi1 hi2, getElem?_set_ne (Ne.symm hi2), getElem?_set_ne (Ne.symm hi1)]
        exact hout
  · rw [hs.row]
    rcases eq_or_ne j x2 with rfl | hj2
    · rw [update_self]
      exact (h.sized x1).swapInto
    · rw [update_of_ne hj2]
      rcases eq_or_ne j x1 with rfl | hj1
      · rw [update_self]
        exact (h.sized x2).swapInto
      · rw [update_of_ne hj1]
        exact h.sized j
  · have hj2 : j ≠ x2 := fun hj => hfree id1 ((hAt j id1).mpr (by rw [if_pos hj]))
    have hj1 : j ≠ x1 := fun hj => hfree id2 ((hAt j id2).mpr (by rw [if_neg hj2, if_pos hj]))
    rw [hs.row, update_of_ne hj2, update_of_ne hj1]
    exact h.vacant j fun id hat => hfree id ((hAt j id).mpr (by rwa [if_neg hj2, if_neg hj1]))

/-! ### Condensing -/

/-- The inner loop stops above a row that has not been emptied. -/
theorem InputBatch.skipEmpty_spec (removed : List Nat) (bound : Nat) :
    InputBatch.skipEmpty removed bound ≤ bound ∧
      (∀ i, InputBatch.skipEmpty removed bound ≤ i → i < bound → i ∈ removed) ∧
      ∀ n, InputBatch.skipEmpty removed bound = n + 1 → n ∉ removed := by
  induction bound with
  | zero => exact ⟨le_rfl, fun i _ hi => absurd hi (Nat.not_lt_zero i), fun n hn => by cases hn⟩
  | succ bound ih =>
    unfold InputBatch.skipEmpty
    split_ifs with hmem
    · obtain ⟨hle, hskipped, hlast⟩ := ih
      refine ⟨hle.trans (Nat.le_succ _), fun i hi hlt => ?_, hlast⟩
      rcases Nat.lt_succ_iff_lt_or_eq.mp hlt with hlt | rfl
      · exact hskipped i hi hlt
      · exact hmem
    · refine ⟨le_rfl, fun i hi hlt => absurd hlt (Nat.not_lt.mpr hi), fun n hn => ?_⟩
      obtain rfl := Nat.succ.inj hn
      exact hmem

/-- A turn of the loop of `condense`: the request in `src` moves down into the lowest hole. -/
structure InputBatch.Turn (cfg : BatchConfig) (active : Dict ReqId ActiveRequest)
    (b : InputBatch) (src tgt : Nat) (b' : InputBatch) : Prop where
  placed : Placed cfg b active
  free : b.Free tgt
  lt : tgt < b.reqIds.length
  notRemoved : src ∉ b.builder.removed
  moves : ∃ id u', b.builder.Pops tgt u' ∧
    InputBatch.MovesDown
      { b with builder := { u' with
          moved := u'.moved ++ [{ src, tgt, direct := .unidirectional }] } } src tgt id b'

/-- Some turns of the loop. -/
def InputBatch.Turns (cfg : BatchConfig) (active : Dict ReqId ActiveRequest) :
    InputBatch → InputBatch → Prop :=
  Relation.ReflTransGen fun b b' => ∃ src tgt, b.Turn cfg active src tgt b'

theorem InputBatch.Turn.placed' {src tgt : Nat} (ht : b.Turn cfg active src tgt b') :
    Placed cfg b' active := by
  obtain ⟨id, u', -, hm⟩ := ht.moves
  have h' : Placed cfg
      { b with builder := { u' with moved := u'.moved ++ [{ src, tgt, direct := .unidirectional }] } }
      active := ht.placed.congr rfl rfl rfl rfl rfl
  exact h'.moveRequest hm ht.free ht.lt

/-- Below the bound, the holes are those in the builder; nobody is above. -/
structure Sliding (bound : Nat) (b : InputBatch) : Prop where
  nodup : b.builder.removed.Nodup
  sorted : b.builder.SortedIf
  isSorted : b.builder.isRemovedSorted = true
  below : ∀ i, i < bound → (i ∈ b.builder.removed ↔ b.reqIds[i]? = some none)
  free : ∀ i, i ∈ b.builder.removed → b.Free i
  lt : ∀ i, i ∈ b.builder.removed → i < b.reqIds.length
  above : ∀ i, bound ≤ i → b.Free i
  le : bound ≤ b.reqIds.length

/-- Nobody is in the rows that the inner loop skips. -/
theorem Sliding.skip {bound : Nat} (hsl : Sliding bound b) :
    Sliding (InputBatch.skipEmpty b.builder.removed bound) b := by
  obtain ⟨hle, hskipped, -⟩ := InputBatch.skipEmpty_spec b.builder.removed bound
  refine ⟨hsl.nodup, hsl.sorted, hsl.isSorted, fun i hi => hsl.below i (by omega), hsl.free, hsl.lt,
    fun i hi => ?_, hle.trans hsl.le⟩
  by_cases hib : i < bound
  · exact hsl.free i (hskipped i hi hib)
  · exact hsl.above i (by omega)

/-- **A turn** lowers the bound by one row. -/
theorem Sliding.turn {last tgt : Nat} (hsl : Sliding (last + 1) b)
    (ht : b.Turn cfg active last tgt b') (hlt : tgt < last) : Sliding last b' := by
  obtain ⟨id, u', hpops, hm⟩ := ht.moves
  have hne : last ≠ tgt := by omega
  have hAt := hm.at_iff ht.lt hne
  have hlast := Placed.lt_length hm.atSrc
  have hnodup := hpops.perm.nodup hsl.nodup
  have hremoved : b'.builder.removed = u'.removed := by rw [hm.builder]
  have hsub : ∀ i, i ∈ u'.removed → i ∈ b.builder.removed ∧ i ≠ tgt ∧ i ≠ last := fun i hi => by
    have hmem := hpops.perm.mem_iff.mpr (List.mem_cons_of_mem tgt hi)
    exact ⟨hmem, fun h => (nodup_cons.mp hnodup).1 (h ▸ hi), fun h => ht.notRemoved (h ▸ hmem)⟩
  refine ⟨hremoved ▸ hnodup.of_cons, ?_, ?_, fun i hi => ?_, fun i hi => ?_, fun i hi => ?_,
    fun i hi id' hat => ?_, ?_⟩
  · rw [hm.builder]
    exact hpops.sorted
  · rw [hm.builder]
    exact hpops.isSorted
  · have hbelow := hsl.below i (by omega)
    rw [hpops.perm.mem_iff, List.mem_cons] at hbelow
    rw [hremoved, hm.reqIds, getElem?_set_ne (by omega), getElem?_set]
    by_cases hit : tgt = i
    · subst hit
      have hlen : tgt < b.reqIds.length := ht.lt
      simpa [hlen] using (nodup_cons.mp hnodup).1
    · rw [if_neg hit]
      exact (or_iff_right (Ne.symm hit)).symm.trans hbelow
  · rw [hremoved] at hi
    obtain ⟨hmem, hit, hil⟩ := hsub i hi
    intro id' hat
    obtain ⟨-, hat⟩ := (hAt i id').mp hat
    rw [if_neg hit] at hat
    exact hsl.free i hmem id' hat
  · rw [hremoved] at hi
    rw [hm.reqIds, length_set, length_set]
    exact hsl.lt i (hsub i hi).1
  · obtain ⟨hil, hat⟩ := (hAt i id').mp hat
    rw [if_neg (by omega)] at hat
    exact hsl.above i (by omega) id' hat
  · rw [hm.reqIds, length_set, length_set]
    exact hlast.le

/-- If no hole is below the bound, then the requests are the rows below it. -/
theorem Sliding.filled {bound : Nat} (hsl : Sliding bound b)
    (hnone : ∀ i, i < bound → i ∉ b.builder.removed) (i : Nat) : (∃ id, b.At i id) ↔ i < bound := by
  constructor
  · rintro ⟨id, hat⟩
    by_contra hle
    exact hsl.above i (Nat.not_lt.mp hle) id hat
  · intro hi
    have hlen := hi.trans_le hsl.le
    cases hget : b.reqIds[i] with
    | none =>
      exact absurd ((hsl.below i hi).mpr (List.getElem?_eq_some_iff.mpr ⟨hlen, hget⟩)) (hnone i hi)
    | some id => exact ⟨id, List.getElem?_eq_some_iff.mpr ⟨hlen, hget⟩⟩

/-- **The loop of `condense`** ends with the requests in the first rows. -/
theorem condenseLoop_spec {fuel bound : Nat} (h : Placed cfg b active) (hsl : Sliding bound b)
    (hfuel : b.builder.removed.length ≤ fuel) (hloop : b.condenseLoop fuel bound = .ok b') :
    InputBatch.Turns cfg active b b' ∧ Placed cfg b' active ∧
      ∃ n, Sliding n b' ∧ ∀ i, (∃ id, b'.At i id) ↔ i < n := by
  induction fuel generalizing b bound with
  | zero =>
    cases hloop
    have hnil := List.length_eq_zero_iff.mp (Nat.le_zero.mp hfuel)
    exact ⟨.refl, h, bound, hsl, hsl.filled fun i _ hi => by rw [hnil] at hi; cases hi⟩
  | succ fuel ih =>
    unfold InputBatch.condenseLoop at hloop
    by_cases hnil : b.builder.removed = []
    · rw [if_pos hnil] at hloop
      cases hloop
      exact ⟨.refl, h, bound, hsl, hsl.filled fun i _ hi => by rw [hnil] at hi; cases hi⟩
    rw [if_neg hnil] at hloop
    obtain ⟨tgt, u', hpops⟩ := BatchUpdateBuilder.exists_pops hsl.sorted hnil
    have hsl' := hsl.skip
    obtain ⟨-, -, hlast⟩ := InputBatch.skipEmpty_spec b.builder.removed bound
    rw [hpops.peek, BatchUpdateBuilder.ensureRemovedSorted_of_sorted hsl.isSorted] at hloop
    generalize InputBatch.skipEmpty b.builder.removed bound = n at hloop hsl' hlast
    dsimp only at hloop
    by_cases hbreak : n ≤ tgt + 1
    · -- the lowest hole is not below the last request
      rw [if_pos hbreak] at hloop
      cases hloop
      refine ⟨.refl, h, n, hsl', hsl'.filled fun i hi hmem => ?_⟩
      have hle := hpops.lowest i hmem
      obtain ⟨m, rfl⟩ := Nat.exists_eq_succ_of_ne_zero (Nat.ne_of_gt (Nat.zero_lt_of_lt hi))
      refine hlast m rfl ?_
      obtain rfl : i = m := by omega
      exact hmem
    · rw [if_neg hbreak] at hloop
      obtain ⟨last, rfl⟩ : ∃ last, n = last + 1 := ⟨n - 1, by omega⟩
      rw [hpops.pop, Nat.add_sub_cancel] at hloop
      obtain ⟨b₁, hmove, hloop⟩ := bind_eq_ok.mp hloop
      obtain ⟨id, hm⟩ := InputBatch.moveRequest_moves hmove
      have htgt : tgt ∈ b.builder.removed := hpops.perm.mem_iff.mpr List.mem_cons_self
      have hturn : b.Turn cfg active last tgt b₁ :=
        ⟨h, hsl.free tgt htgt, hsl.lt tgt htgt, hlast last rfl, id, u', hpops, hm⟩
      have hfuel' : b₁.builder.removed.length ≤ fuel := by
        have hlen := hpops.perm.length_eq
        rw [hm.builder]
        dsimp only
        rw [List.length_cons] at hlen
        omega
      obtain ⟨hturns, hplaced, hend⟩ := ih hturn.placed' (hsl'.turn hturn (by omega)) hfuel' hloop
      exact ⟨hturns.head ⟨last, tgt, hturn⟩, hplaced, hend⟩

/-- The lists are trimmed behind the last request. -/
theorem Placed.trim {n : Nat} (h : Placed cfg b active) (hn : ∀ i id, b.At i id → i < n) :
    Placed cfg { b with
      reqIds := b.reqIds.take n
      reqOutputTokenIds := b.reqOutputTokenIds.take n } active := by
  have hAt : ∀ i id, (b.reqIds.take n)[i]? = some (some id) ↔ b.At i id := fun i id => by
    rw [List.getElem?_take]
    split_ifs with hi
    · exact Iff.rfl
    · exact ⟨(fun hc => nomatch hc), fun hat => absurd (hn i id hat) hi⟩
  refine ⟨fun id i => (h.inverse id i).trans (hAt i id).symm, h.keys,
    fun i id a hi => h.holds i id a ((hAt i id).mp hi), fun i id a hi ha => ?_, h.sized,
    fun i hfree => h.vacant i fun id hat => hfree id ((hAt i id).mpr hat), h.lora, ?_, ?_⟩
  · have hat := (hAt i id).mp hi
    change (b.reqOutputTokenIds.take n)[i]? = _
    rw [List.getElem?_take, if_pos (hn i id hat)]
    exact h.outputs i id a hat ha
  · change (b.reqOutputTokenIds.take n).length = (b.reqIds.take n).length
    rw [length_take, length_take, h.length]
  · change (b.reqIds.take n).length ≤ _
    rw [length_take]
    exact (Nat.min_le_right _ _).trans h.below

/-- The requests are exactly in the first rows. -/
structure Dense (b : InputBatch) : Prop where
  at_iff : ∀ i, (∃ id, b.At i id) ↔ i < b.reqIds.length
  removed : ∀ i, i ∈ b.builder.removed → b.reqIds.length ≤ i

/-- **What `condense` does**: some turns, and the lists are trimmed. -/
theorem condense_spec (h : Placed cfg b active) (hh : Holes b) (hs : b.builder.SortedIf)
    (hc : b.condense = .ok b') :
    ∃ b₁, InputBatch.Turns cfg active { b with builder := b.builder.ensureRemovedSorted } b₁ ∧
      b' = { b₁ with reqIds := b'.reqIds, reqOutputTokenIds := b'.reqOutputTokenIds } ∧
      (∀ i id, b'.At i id ↔ b₁.At i id) ∧ Placed cfg b' active ∧ Dense b' := by
  have hperm := BatchUpdateBuilder.ensureRemovedSorted_perm b.builder
  obtain ⟨b₀, hb₀⟩ : ∃ b₀ : InputBatch, b₀ = { b with builder := b.builder.ensureRemovedSorted } :=
    ⟨_, rfl⟩
  have h₀ : Placed cfg b₀ active := by
    rw [hb₀]
    exact h.congr rfl rfl rfl rfl rfl
  have hbuilder : b₀.builder = b.builder.ensureRemovedSorted := by rw [hb₀]
  have hh₀ : Holes b₀ := by
    rw [hb₀]
    exact ⟨hperm.symm.nodup hh.nodup, fun i => hperm.mem_iff.trans (hh.mem i)⟩
  replace hc : (if b₀.builder.removed = [] then Except.ok b₀
      else if b₀.numReqs = 0 then .ok { b₀ with reqIds := [], reqOutputTokenIds := [] }
      else do
        let emptied := b₀.builder.removed.length
        let b ← InputBatch.condenseLoop emptied (b₀.numReqs + emptied) b₀
        return { b with
          reqIds := b.reqIds.take b.numReqs
          reqOutputTokenIds := b.reqOutputTokenIds.take b.numReqs }) = .ok b' := by
    rw [hb₀]
    exact hc
  rw [← hb₀]
  have hsl : Sliding b₀.reqIds.length b₀ :=
    ⟨hh₀.nodup, fun _ => hbuilder ▸ BatchUpdateBuilder.ensureRemovedSorted_sorted hs,
      hbuilder ▸ BatchUpdateBuilder.isRemovedSorted_ensureRemovedSorted, fun i _ => hh₀.mem i,
      fun i hi => hh₀.free hi, fun i hi => hh₀.lt_length hi,
      fun i hi id hat => absurd (Placed.lt_length hat) (Nat.not_lt.mpr hi), le_rfl⟩
  -- the trimmed lists, once the requests are in the first rows
  have htrim : ∀ b₁ : InputBatch, ∀ n, Placed cfg b₁ active → Sliding n b₁ →
      (∀ i, (∃ id, b₁.At i id) ↔ i < n) → b' = { b₁ with
        reqIds := b₁.reqIds.take n
        reqOutputTokenIds := b₁.reqOutputTokenIds.take n } →
      b' = { b₁ with reqIds := b'.reqIds, reqOutputTokenIds := b'.reqOutputTokenIds } ∧
        (∀ i id, b'.At i id ↔ b₁.At i id) ∧ Placed cfg b' active ∧ Dense b' := by
    rintro b₁ n h₁ hsl₁ hn rfl
    have hlt : ∀ i id, b₁.At i id → i < n := fun i id hat => (hn i).mp ⟨id, hat⟩
    have hAt : ∀ i id, (b₁.reqIds.take n)[i]? = some (some id) ↔ b₁.At i id := fun i id => by
      rw [List.getElem?_take]
      split_ifs with hi
      · exact Iff.rfl
      · exact ⟨(fun hc => nomatch hc), fun hat => absurd (hlt i id hat) hi⟩
    have hlen : (b₁.reqIds.take n).length = n := List.length_take_of_le hsl₁.le
    refine ⟨rfl, hAt, h₁.trim hlt, fun i => ?_, fun i hi => ?_⟩
    · change (∃ id, (b₁.reqIds.take n)[i]? = some (some id)) ↔ i < (b₁.reqIds.take n).length
      rw [hlen, ← hn]
      exact exists_congr (hAt i)
    · change (b₁.reqIds.take n).length ≤ i
      rw [hlen]
      by_contra hlt'
      obtain ⟨id, hat⟩ := (hn i).mpr (Nat.not_le.mp hlt')
      exact hsl₁.free i hi id hat
  split_ifs at hc with hnil hzero
  · -- no row has been emptied
    obtain rfl := Except.ok.inj hc
    have hn := hsl.filled fun i _ hi => by rw [hnil] at hi; cases hi
    obtain ⟨-, hAt, hplaced, hdense⟩ := htrim b₀ b₀.reqIds.length h₀ hsl hn (by
      rw [List.take_length, List.take_of_length_le h₀.length.le])
    exact ⟨b₀, .refl, rfl, hAt, hplaced, hdense⟩
  · -- the batch is empty
    have hrows : b₀.rows = [] := by
      rw [InputBatch.rows, List.length_eq_zero_iff.mp hzero, List.map_nil]
    have hnone : ∀ i, b₀.Free i := fun i id hat => by
      have hmem := h₀.mem_rows.mpr ⟨id, hat⟩
      rw [hrows] at hmem
      cases hmem
    have hsl₀ : Sliding 0 b₀ := ⟨hsl.nodup, hsl.sorted, hsl.isSorted,
      fun i hi => absurd hi (Nat.not_lt_zero i), hsl.free, hsl.lt, fun i _ => hnone i, Nat.zero_le _⟩
    obtain ⟨heq, hAt, hplaced, hdense⟩ := htrim b₀ 0 h₀ hsl₀
      (fun i => ⟨fun ⟨id, hat⟩ => absurd hat (hnone i id), fun hi => absurd hi (Nat.not_lt_zero i)⟩)
      (Except.ok.inj hc).symm
    exact ⟨b₀, .refl, heq, hAt, hplaced, hdense⟩
  · obtain ⟨b₁, hloop, hc⟩ := bind_eq_ok.mp hc
    have hsize : b₀.numReqs + b₀.builder.removed.length = b₀.reqIds.length := h₀.numReqs_add hh₀
    rw [hsize] at hloop
    obtain ⟨hturns, h₁, n, hsl₁, hn⟩ := condenseLoop_spec h₀ hsl le_rfl hloop
    have hnum : b₁.numReqs = n := h₁.numReqs_eq hn
    obtain ⟨heq, hAt, hplaced, hdense⟩ := htrim b₁ n h₁ hsl₁ hn (by
      rw [← hnum]
      exact (pure_eq_ok.mp hc).symm)
    exact ⟨b₁, hturns, heq, hAt, hplaced, hdense⟩

/-! ## After a step -/

/-- **The batch after a step.** The first rows are the active requests, the index is the inverse of the
list, every row holds its request, and the maps list the requests of each adapter. -/
structure Coherent (cfg : BatchConfig) (b : InputBatch) (active : Dict ReqId ActiveRequest) : Prop where
  length : b.reqIds.length = b.numReqs
  rows : ∀ i, i < b.numReqs → ∃ id ∈ active, b.reqIds[i]? = some (some id)
  all : ∀ id ∈ active, ∃ i, i < b.numReqs ∧ b.reqIds[i]? = some (some id)
  inverse : ∀ id i, b.reqIdToIndex.get? id = some i ↔ b.reqIds[i]? = some (some id)
  holds : ∀ i id a, b.reqIds[i]? = some (some id) → active.get? id = some a →
    (b.row i).Holds cfg a ∧ b.reqOutputTokenIds[i]? = some (some a.state.outputTokenIds)
  lora : b.lora.Lists active

theorem Placed.coherent (h : Placed cfg b active) (hd : Dense b) : Coherent cfg b active := by
  have hnum := h.numReqs_eq hd.at_iff
  constructor
  · exact hnum.symm
  · intro i hi
    obtain ⟨id, hat⟩ := (hd.at_iff i).mpr (hnum ▸ hi)
    obtain ⟨a, ha⟩ := h.exists_active hat
    exact ⟨id, Dict.mem_of_get? ha, hat⟩
  · intro id hid
    obtain ⟨i, hat⟩ := h.exists_at hid
    exact ⟨i, hnum ▸ Placed.lt_length hat, hat⟩
  · exact h.inverse
  · exact fun i id a hat ha => ⟨h.holds i id a hat ha, h.outputs i id a hat ha⟩
  · exact h.lora

/-- Where the batch is in a step. -/
structure InStep (cfg : BatchConfig) (s : BatchState) : Prop where
  placed : Placed cfg s.batch s.active
  sorted : s.batch.builder.SortedIf
  holes : s.phase ≠ .condensed → Holes s.batch
  idle : s.phase = .idle → s.batch.builder = {}
  adding : s.phase = .idle ∨ s.phase = .removing → s.batch.builder.added = []
  moved : s.phase ≠ .condensed → s.batch.builder.moved = []
  dense : s.phase = .condensed → Dense s.batch

variable {s s' : BatchState} {op : BatchOp}

theorem inStep_init (cfg : BatchConfig) : InStep cfg (inputBatch cfg).init where
  placed := placed_new cfg
  sorted hs := nomatch hs
  holes _ := ⟨List.nodup_nil, fun i => by simp [inputBatch, InputBatch.new]⟩
  idle _ := rfl
  adding _ := rfl
  moved _ := rfl
  dense hc := nomatch hc

/-- The builder after `get_and_reset` is as new. -/
theorem BatchUpdateBuilder.getAndReset_snd (u : BatchUpdateBuilder) (n : Nat) :
    (u.getAndReset n).2 = {} := by
  obtain ⟨removed, isSorted, moved, added⟩ := u
  unfold BatchUpdateBuilder.getAndReset
  dsimp only
  split_ifs with hnil
  · obtain ⟨rfl, rfl, rfl⟩ := hnil
    rfl
  · rfl

theorem InputBatch.refreshMetadata_builder (b : InputBatch) (outputs : Dict OutputRef (List TokenId)) :
    (b.refreshMetadata outputs).builder = {} := BatchUpdateBuilder.getAndReset_snd ..

/-- Neither the sortedness of the builder nor its other lists are touched by a removal. -/
theorem InputBatch.removeRequest_builder (h : b.removeRequest cfg id = .ok b') :
    b'.builder = b.builder ∨ b.builder.isRemovedSorted = false ∧
      ∃ i, b'.builder = { b.builder with removed := b.builder.removed ++ [i] } := by
  rcases InputBatch.removeRequest_cases h with ⟨-, rfl⟩ | ⟨i, builder, lora, -, hbuilder, -, rfl⟩
  · exact .inl rfl
  · obtain ⟨_, hsorted, hbuilder⟩ := bind_eq_ok.mp hbuilder
    exact .inr ⟨require_eq_ok.mp hsorted, i, (pure_eq_ok.mp hbuilder).symm⟩

theorem InStep.removeRequest (h : InStep cfg s)
    (ha : s.phase = .idle ∨ s.phase = .removing) (hr : s.batch.removeRequest cfg id = .ok b') :
    InStep cfg { s with batch := b', phase := .removing, active := s.active.erase id } := by
  have hphase : s.phase ≠ .condensed := by rcases ha with ha | ha <;> rw [ha] <;> decide
  have hadded := h.adding ha
  have hmoved := h.moved hphase
  have hbuilder := InputBatch.removeRequest_builder hr
  refine ⟨h.placed.removeRequest hr, ?_, fun _ => (h.holes hphase).removeRequest h.placed hr,
    (fun hc => nomatch hc), fun _ => ?_, fun _ => ?_, fun hc => nomatch hc⟩
  · rcases hbuilder with heq | ⟨hs, i, heq⟩ <;> dsimp only <;> rw [heq]
    · exact h.sorted
    · intro hc
      rw [hs] at hc
      cases hc
  · rcases hbuilder with heq | ⟨-, i, heq⟩ <;> dsimp only <;> rw [heq]
    · exact hadded
    · exact hadded
  · rcases hbuilder with heq | ⟨-, i, heq⟩ <;> dsimp only <;> rw [heq]
    · exact hmoved
    · exact hmoved

theorem BatchUpdateBuilder.popRemoved_moved (u : BatchUpdateBuilder) :
    u.popRemoved.2.moved = u.moved := by
  unfold BatchUpdateBuilder.popRemoved
  split_ifs
  · rfl
  · exact BatchUpdateBuilder.moved_ensureRemovedSorted

theorem InputBatch.getNextAddIndex_moved (b : InputBatch) :
    b.getNextAddIndex.2.moved = b.builder.moved := by
  have hpop := b.builder.popRemoved_moved
  unfold InputBatch.getNextAddIndex
  split
  · next heq => rwa [heq] at hpop
  · next heq => rwa [heq] at hpop

theorem InStep.addRequest (h : InStep cfg s) (hphase : s.phase ≠ .condensed)
    (hnew : r.reqId ∉ s.active) (hfits : Fits cfg r output)
    (hr : s.batch.addRequest cfg r output = .ok b') :
    InStep cfg { s with
      batch := b', phase := .adding, active := s.active.set r.reqId { state := r, output } } := by
  have hadds := InputBatch.addRequest_adds hr
  have hfree := h.placed.free_nextAddIndex (h.holes hphase) h.sorted
  obtain ⟨hholes, hsorted, -⟩ := (h.holes hphase).addRequest h.placed h.sorted hadds
  refine ⟨h.placed.addRequest hadds hfree hnew hfits, hsorted, fun _ => hholes,
    (fun hc => nomatch hc), ?_, fun _ => ?_, fun hc => nomatch hc⟩
  · rintro (hc | hc) <;> cases hc
  · dsimp only
    rw [hadds.builder]
    exact (InputBatch.getNextAddIndex_moved _).trans (h.moved hphase)

/-- The builder stays sorted in the turns of the loop. -/
theorem InputBatch.Turns.sorted (ht : InputBatch.Turns cfg active b b') (h : b.builder.SortedIf) :
    b'.builder.SortedIf := by
  induction ht with
  | refl => exact h
  | tail _ hturn _ =>
    obtain ⟨src, tgt, hturn⟩ := hturn
    obtain ⟨id, u', hpops, hm⟩ := hturn.moves
    rw [hm.builder]
    exact hpops.sorted

theorem InStep.condense (h : InStep cfg s) (hphase : s.phase ≠ .condensed)
    (hr : s.batch.condense = .ok b') : InStep cfg { s with batch := b', phase := .condensed } := by
  obtain ⟨b₁, hturns, heq, -, hplaced, hdense⟩ := condense_spec h.placed (h.holes hphase) h.sorted hr
  have hsorted : b₁.builder.SortedIf :=
    hturns.sorted fun _ => BatchUpdateBuilder.ensureRemovedSorted_sorted h.sorted
  refine ⟨hplaced, ?_, fun hc => absurd rfl hc, (fun hc => nomatch hc), ?_, fun hc => absurd rfl hc,
    fun _ => hdense⟩
  · dsimp only
    rw [heq]
    exact hsorted
  · rintro (hc | hc) <;> cases hc

/-- The requests stay in the first rows. -/
theorem Dense.swapStates (hd : Dense b) (hs : b.Swaps i1 i2 id1 id2 b') : Dense b' := by
  have hlen : b'.reqIds.length = b.reqIds.length := by
    rw [hs.reqIds, length_set, length_set]
  constructor
  · intro i
    rw [hlen, ← hd.at_iff]
    by_cases hi2 : i = i2
    · exact iff_of_true ⟨id1, (hs.at_iff i id1).mpr (by rw [if_pos hi2])⟩ ⟨id2, hi2 ▸ hs.at2⟩
    · by_cases hi1 : i = i1
      · exact iff_of_true ⟨id2, (hs.at_iff i id2).mpr (by rw [if_neg hi2, if_pos hi1])⟩
          ⟨id1, hi1 ▸ hs.at1⟩
      · exact exists_congr fun id => by rw [hs.at_iff, if_neg hi2, if_neg hi1]
  · intro i hi
    rw [hs.builder] at hi
    rw [hlen]
    exact hd.removed i hi

theorem InStep.swapStates (h : InStep cfg s) (hphase : s.phase = .condensed)
    (hr : s.batch.swapStates i1 i2 = .ok b') : InStep cfg { s with batch := b' } := by
  obtain ⟨id1, id2, hs⟩ := InputBatch.swapStates_swaps hr
  refine ⟨h.placed.swapStates hs, ?_, fun hc => absurd hphase hc, fun hc => ?_, fun hc => ?_,
    fun hc => absurd hphase hc, fun _ => (h.dense hphase).swapStates hs⟩
  · dsimp only
    rw [hs.builder]
    exact h.sorted
  · exact nomatch hphase.symm.trans hc
  · rcases hc with hc | hc <;> exact nomatch hphase.symm.trans hc

theorem InStep.refreshMetadata (h : InStep cfg s) (hphase : s.phase = .condensed)
    (outputs : Dict OutputRef (List TokenId)) :
    InStep cfg { s with batch := s.batch.refreshMetadata outputs, phase := .idle } := by
  have hbuilder := s.batch.refreshMetadata_builder outputs
  have hplaced : Placed cfg (s.batch.refreshMetadata outputs) s.active :=
    h.placed.congr rfl rfl rfl rfl rfl
  have hdense := h.dense hphase
  refine ⟨hplaced, ?_, fun _ => ⟨?_, fun i => ?_⟩, fun _ => hbuilder, fun _ => ?_, fun _ => ?_,
    fun hc => nomatch hc⟩
  · exact hbuilder ▸ fun hc => nomatch hc
  · exact hbuilder ▸ List.nodup_nil
  · -- no row is empty after `condense`
    rw [hbuilder]
    refine iff_of_false List.not_mem_nil fun hnone => ?_
    obtain ⟨id, hat⟩ := (hdense.at_iff i).mpr (List.getElem?_eq_some_iff.mp hnone).1
    cases Option.some.inj (hat.symm.trans hnone)
  · exact hbuilder ▸ rfl
  · exact hbuilder ▸ rfl

/-- **A step of the worker** keeps the batch coherent with its requests. -/
theorem InStep.next (h : InStep cfg s) (ha : Admitted cfg s op)
    (hstep : (inputBatch cfg).step s op = .ok s') : InStep cfg s' := by
  cases op with
  | removeRequest id =>
    obtain ⟨b', hr, hstep⟩ := bind_eq_ok.mp hstep
    cases hstep
    exact h.removeRequest ha hr
  | addRequest r =>
    obtain ⟨b', hr, hstep⟩ := bind_eq_ok.mp hstep
    cases hstep
    exact h.addRequest ha.1 ha.2.1 ha.2.2 hr
  | condense =>
    obtain ⟨b', hr, hstep⟩ := bind_eq_ok.mp hstep
    cases hstep
    exact h.condense ha hr
  | swapStates i1 i2 =>
    obtain ⟨b', hr, hstep⟩ := bind_eq_ok.mp hstep
    cases hstep
    exact h.swapStates ha hr
  | refreshMetadata =>
    cases hstep
    exact h.refreshMetadata ha s.outputs
  | generate ref tokens =>
    cases hstep
    exact ⟨h.placed, h.sorted, h.holes, h.idle, h.adding, h.moved, h.dense⟩

end InferenceServer.PersistentBatch
