import InferenceServer.Sched.Grants
import InferenceServer.Sched.Books

/-!
# The books of the encoder cache

The encoder cache manager counts the encoder tokens for which there is room, and records which
inputs of which requests are cached. The count and the record agree: every input that takes room is
recorded once, and every input that gives room back was recorded.

This module has the operations of the manager, in the form in which statements about whole runs use
them, and what a scheduling step does with them: the inputs it asks for (`encoderInputsLoop_ok`),
those it records (`Pass.RecordsInputs`), and those it frees when their tokens are computed
(`advanceLoop_encoder`).

## Main results

* `EncoderCacheManager.Books.allocateAll`, `EncoderCacheManager.Books.freeInputs`
* `tryScheduleEncoderInputs_ok`, `advanceLoop_encoder`
-/

namespace InferenceServer

open Outcome
open List (map_cons map_nil mem_cons mem_cons_of_mem mem_cons_self nodup_cons sum sum_cons sum_nil)

/-! ## The manager -/

namespace EncoderCacheManager

/-- The cached inputs of the request `rid`. -/
def cachedOf (m : EncoderCacheManager) (rid : ReqId) : List Nat := m.cached.getD rid []

/-- The number of encoder tokens of the recorded inputs; `w` gives the tokens of an input. -/
def tokens (m : EncoderCacheManager) (w : ReqId → Nat → Nat) : Nat :=
  (m.cached.entries.map fun e => (e.2.map (w e.1)).sum).sum

/-- Free some inputs of a request. -/
def freeInputs (m : EncoderCacheManager) (r : Request) (inputs : List Nat) : EncoderCacheManager :=
  inputs.foldl (fun m i => m.freeEncoderInput r i) m

/-- **The books agree**: the free slots are those that no recorded input takes. -/
structure Books (w : ReqId → Nat → Nat) (m : EncoderCacheManager) : Prop where
  exact : m.numFreeSlots = m.cacheSize - m.tokens w
  nodup : ∀ rid, (m.cachedOf rid).Nodup

variable {m m' : EncoderCacheManager} {w w' : ReqId → Nat → Nat} {r : Request} {i : Nat}
  {rid : ReqId} {inputs l : List Nat}

theorem mem_getCachedInputIds : i ∈ m.getCachedInputIds r ↔ i ∈ m.cachedOf r.requestId := Iff.rfl

theorem hasCache_eq_false : m.hasCache r i = false ↔ i ∉ m.cachedOf r.requestId := by
  simp [hasCache, mem_getCachedInputIds]

theorem cachedOf_of_mem {e : ReqId × List Nat} (h : e ∈ m.cached.entries) :
    m.cachedOf e.1 = e.2 :=
  Dict.getD_of_get? (Dict.get?_eq_some_iff.mpr h)

theorem mem_cached_of_mem (h : i ∈ m.cachedOf rid) : rid ∈ m.cached := by
  by_contra hkey
  rw [cachedOf, Dict.getD_of_none (Dict.get?_eq_none_iff.mpr hkey)] at h
  simp at h

/-- The tokens, summed over any set of requests that has all those with recorded inputs. -/
theorem tokens_eq_sum {S : Finset ReqId} (h : m.cached.keys.toFinset ⊆ S) :
    m.tokens w = ∑ rid ∈ S, ((m.cachedOf rid).map (w rid)).sum := by
  have hkeys : m.tokens w = (m.cached.keys.map fun rid => ((m.cachedOf rid).map (w rid)).sum).sum := by
    unfold tokens Dict.keys
    rw [List.map_map]
    refine congrArg sum (List.map_congr_left fun e he => ?_)
    rw [Function.comp_apply, cachedOf_of_mem he]
  have hzero : ∀ rid ∈ S, rid ∉ m.cached.keys.toFinset →
      ((m.cachedOf rid).map (w rid)).sum = 0 := fun rid _ hrid => by
    have : m.cachedOf rid = [] := Dict.getD_of_none
      (Dict.get?_eq_none_iff.mpr fun hmem => hrid (List.mem_toFinset.mpr hmem))
    simp [this]
  rw [← Finset.sum_subset h hzero, List.sum_toFinset _ m.cached.keys_nodup, hkeys]

/-- The tokens after the record of one request has changed. -/
theorem tokens_update (h : ∀ id, id ≠ rid → m'.cachedOf id = m.cachedOf id) :
    m'.tokens w + ((m.cachedOf rid).map (w rid)).sum =
      m.tokens w + ((m'.cachedOf rid).map (w rid)).sum := by
  let S := insert rid (m.cached.keys.toFinset ∪ m'.cached.keys.toFinset)
  have hrid : rid ∈ S := Finset.mem_insert_self _ _
  have hS : m.cached.keys.toFinset ⊆ S :=
    Finset.subset_union_left.trans (Finset.subset_insert _ _)
  have hS' : m'.cached.keys.toFinset ⊆ S :=
    Finset.subset_union_right.trans (Finset.subset_insert _ _)
  have hrest : ∑ id ∈ S.erase rid, ((m'.cachedOf id).map (w id)).sum =
      ∑ id ∈ S.erase rid, ((m.cachedOf id).map (w id)).sum :=
    Finset.sum_congr rfl fun id hid => by rw [h id (Finset.ne_of_mem_erase hid)]
  rw [tokens_eq_sum hS, tokens_eq_sum hS', ← Finset.add_sum_erase S _ hrid, hrest,
    ← Finset.add_sum_erase S (fun id => ((m.cachedOf id).map (w id)).sum) hrid]
  ring

/-- The books depend on the tokens of the recorded inputs only. -/
theorem Books.congr (h : m.Books w) (hw : ∀ rid, m.cachedOf rid ≠ [] → w' rid = w rid) :
    m.Books w' := by
  refine ⟨?_, h.nodup⟩
  rw [show m.tokens w' = m.tokens w from ?_]
  · exact h.exact
  · refine congrArg sum (List.map_congr_left fun e he => ?_)
    by_cases hnil : e.2 = []
    · simp [hnil]
    · rw [hw e.1 (cachedOf_of_mem he ▸ hnil)]

/-! ### Taking room -/

/-- An input that is not cached is recorded. -/
structure Allocates (m : EncoderCacheManager) (r : Request) (inputs : List Nat)
    (m' : EncoderCacheManager) : Prop where
  cacheSize : m'.cacheSize = m.cacheSize
  freed : m'.freed = m.freed
  everFreed : m'.everFreed = m.everFreed
  mem : ∀ i, i ∈ m'.cachedOf r.requestId ↔ i ∈ inputs ∨ i ∈ m.cachedOf r.requestId
  others : ∀ rid, rid ≠ r.requestId → m'.cachedOf rid = m.cachedOf rid
  numFreeSlots : m'.numFreeSlots = m.numFreeSlots - (inputs.map r.getNumEncoderTokens).sum

theorem allocate_ok (m : EncoderCacheManager) (r : Request) (i : Nat) :
    m.Allocates r [i] (m.allocate r i) := by
  refine ⟨rfl, rfl, rfl, fun j => ?_, fun rid hrid => ?_, ?_⟩
  · simp [allocate, cachedOf, getCachedInputIds]
  · simp [allocate, cachedOf, Dict.getD_set_ne hrid]
  · simp [allocate]

theorem Books.allocate (h : m.Books w) (hw : ∀ i, w r.requestId i = r.getNumEncoderTokens i)
    (hnot : i ∉ m.cachedOf r.requestId) : (m.allocate r i).Books w := by
  have hok := allocate_ok m r i
  have hcons : (m.allocate r i).cachedOf r.requestId = i :: m.cachedOf r.requestId := by
    have : (m.allocate r i).cachedOf r.requestId = (m.cachedOf r.requestId).insert i :=
      Dict.getD_set_self
    rw [this, List.insert_of_not_mem hnot]
  refine ⟨?_, fun rid => ?_⟩
  · have htokens := tokens_update (w := w) hok.others
    have hexact := h.exact
    have hfree := hok.numFreeSlots
    simp only [hcons, map_cons, sum_cons, hw, map_nil, sum_nil, add_zero]
      at htokens hfree
    rw [hfree, hok.cacheSize]
    omega
  · by_cases hrid : rid = r.requestId
    · rw [hrid, hcons]
      exact nodup_cons.mpr ⟨hnot, h.nodup _⟩
    · rw [hok.others rid hrid]
      exact h.nodup rid

theorem allocateAll_ok (m : EncoderCacheManager) (r : Request) (inputs : List Nat) :
    m.Allocates r inputs (m.allocateAll r inputs) := by
  induction inputs generalizing m with
  | nil => exact ⟨rfl, rfl, rfl, fun i => by simp [allocateAll], fun _ _ => rfl, by simp [allocateAll]⟩
  | cons i inputs ih =>
    have h := ih (m.allocate r i)
    have h₁ := allocate_ok m r i
    refine ⟨h.cacheSize.trans h₁.cacheSize, h.freed.trans h₁.freed,
      h.everFreed.trans h₁.everFreed, fun j => ?_, fun rid hrid =>
      (h.others rid hrid).trans (h₁.others rid hrid), ?_⟩
    · refine (h.mem j).trans ?_
      rw [h₁.mem]
      simp only [mem_cons, List.not_mem_nil, or_false]
      tauto
    · refine h.numFreeSlots.trans ?_
      rw [h₁.numFreeSlots]
      simp only [map_cons, map_nil, sum_cons, sum_nil, Nat.cast_add]
      omega

/-- **Inputs that are not cached take their room.** -/
theorem Books.allocateAll (h : m.Books w) (hw : ∀ i, w r.requestId i = r.getNumEncoderTokens i)
    (hn : inputs.Nodup) (hnot : ∀ i ∈ inputs, i ∉ m.cachedOf r.requestId) :
    (m.allocateAll r inputs).Books w := by
  induction inputs generalizing m with
  | nil => exact h
  | cons i inputs ih =>
    obtain ⟨hi, hn⟩ := nodup_cons.mp hn
    refine ih (h.allocate hw (hnot i mem_cons_self)) hn fun j hj hmem => ?_
    rcases ((allocate_ok m r i).mem j).mp hmem with hj' | hj'
    · obtain rfl : j = i := by simpa using hj'
      exact hi hj
    · exact hnot j (mem_cons_of_mem _ hj) hj'

/-! ### Giving room back -/

/-- Cached inputs are freed. -/
structure FreesInputs (m : EncoderCacheManager) (r : Request) (inputs : List Nat)
    (m' : EncoderCacheManager) : Prop where
  cacheSize : m'.cacheSize = m.cacheSize
  freed : m'.freed = m.freed ++ inputs.map fun i => (r.requestId, i)
  cached : m'.cachedOf r.requestId = (m.cachedOf r.requestId).filter (· ∉ inputs)
  others : ∀ rid, rid ≠ r.requestId → m'.cachedOf rid = m.cachedOf rid
  numFreeSlots : m'.numFreeSlots = m.numFreeSlots + (inputs.map r.getNumEncoderTokens).sum

theorem freeEncoderInput_ok (hmem : i ∈ m.cachedOf r.requestId) :
    m.FreesInputs r [i] (m.freeEncoderInput r i) := by
  unfold freeEncoderInput
  rw [if_neg (not_not.mpr (mem_cached_of_mem hmem))]
  refine ⟨rfl, by simp, ?_, fun rid hrid => ?_, by simp⟩
  · have hfilter : (m.getCachedInputIds r).filter (· ≠ i) =
        (m.cachedOf r.requestId).filter (· ∉ [i]) :=
      List.filter_congr fun j _ => by simp
    dsimp only [cachedOf] at hfilter ⊢
    split
    next hnil => rw [Dict.getD_erase, if_pos rfl, ← hfilter, hnil]
    next => rw [Dict.getD_set_self, hfilter]
  · dsimp only [cachedOf]
    split
    · rw [Dict.getD_erase, if_neg hrid]
    · rw [Dict.getD_set_ne hrid]

/-- **Freed inputs give their room back.** -/
theorem Books.freeEncoderInput (h : m.Books w)
    (hw : ∀ i, w r.requestId i = r.getNumEncoderTokens i) (hmem : i ∈ m.cachedOf r.requestId) :
    (m.freeEncoderInput r i).Books w := by
  have hok := freeEncoderInput_ok hmem
  have hperm : (m.cachedOf r.requestId).Perm
      (i :: (m.freeEncoderInput r i).cachedOf r.requestId) := by
    have hrest : (m.freeEncoderInput r i).cachedOf r.requestId = (m.cachedOf r.requestId).erase i := by
      rw [hok.cached, (h.nodup _).erase_eq_filter]
      exact List.filter_congr fun j _ => by by_cases hji : j = i <;> simp [hji]
    rw [hrest]
    exact List.perm_cons_erase hmem
  refine ⟨?_, fun rid => ?_⟩
  · have htokens := tokens_update (w := w) hok.others
    have hsum := (hperm.map (w r.requestId)).sum_eq
    have hexact := h.exact
    have hfree := hok.numFreeSlots
    simp only [map_cons, sum_cons, hw, map_nil, sum_nil, add_zero]
      at hsum hfree
    rw [hfree, hok.cacheSize]
    omega
  · by_cases hrid : rid = r.requestId
    · rw [hrid, hok.cached]
      exact (h.nodup _).filter _
    · rw [hok.others rid hrid]
      exact h.nodup rid

/-- The inputs are freed one after the other. -/
theorem freeInputs_ok (hn : inputs.Nodup) (hmem : ∀ i ∈ inputs, i ∈ m.cachedOf r.requestId) :
    m.FreesInputs r inputs (m.freeInputs r inputs) ∧
      ((∀ i, w r.requestId i = r.getNumEncoderTokens i) → m.Books w →
        (m.freeInputs r inputs).Books w) := by
  induction inputs generalizing m with
  | nil =>
    exact ⟨⟨rfl, by simp [freeInputs], by simp [freeInputs], fun _ _ => rfl, by simp [freeInputs]⟩,
      fun _ h => h⟩
  | cons i inputs ih =>
    obtain ⟨hi, hn⟩ := nodup_cons.mp hn
    have h₁ := freeEncoderInput_ok (hmem i mem_cons_self)
    have hmem' : ∀ j ∈ inputs, j ∈ (m.freeEncoderInput r i).cachedOf r.requestId := fun j hj => by
      rw [h₁.cached, List.mem_filter]
      refine ⟨hmem j (mem_cons_of_mem _ hj), decide_eq_true fun hji => hi ?_⟩
      rwa [← List.mem_singleton.mp hji]
    obtain ⟨h, hbooks⟩ := ih hn hmem'
    refine ⟨⟨h.cacheSize.trans h₁.cacheSize, h.freed.trans ?_, h.cached.trans ?_,
      fun rid hrid => (h.others rid hrid).trans (h₁.others rid hrid), h.numFreeSlots.trans ?_⟩,
      fun hw hb => hbooks hw (hb.freeEncoderInput hw (hmem i mem_cons_self))⟩
    · rw [h₁.freed, List.append_assoc]
      rfl
    · rw [h₁.cached, List.filter_filter]
      exact List.filter_congr fun j _ => by simp [not_or, Bool.and_comm]
    · rw [h₁.numFreeSlots]
      simp only [map_cons, map_nil, sum_cons, sum_nil, Nat.cast_add]
      omega

/-- Room is given back: the books still agree. -/
structure GivesBack (w : ReqId → Nat → Nat) (m m' : EncoderCacheManager) : Prop where
  books : m'.Books w
  cachedOf : ∀ rid, m'.cachedOf rid ⊆ m.cachedOf rid
  numFreeSlots : m.numFreeSlots ≤ m'.numFreeSlots
  freed : m.freed <+: m'.freed
  unrecorded : ∀ e ∈ m'.freed, e ∈ m.freed ∨ e.2 ∉ m'.cachedOf e.1

theorem GivesBack.refl (h : m.Books w) : GivesBack w m m :=
  ⟨h, fun _ _ hi => hi, le_refl _, List.prefix_rfl, fun _ => .inl⟩

theorem GivesBack.trans {m'' : EncoderCacheManager} (h : GivesBack w m m')
    (h' : GivesBack w m' m'') : GivesBack w m m'' :=
  ⟨h'.books, fun rid _ hi => h.cachedOf rid (h'.cachedOf rid hi),
    h.numFreeSlots.trans h'.numFreeSlots, h.freed.trans h'.freed, fun e he =>
      (h'.unrecorded e he).elim (fun he => (h.unrecorded e he).imp_right fun hne hmem =>
        hne (h'.cachedOf _ hmem)) .inr⟩

/-- **Room is given back** in each round of a loop. -/
theorem GivesBack.foldl {α : Type} {f : EncoderCacheManager → α → EncoderCacheManager}
    {l : List α} (hf : ∀ a ∈ l, ∀ m : EncoderCacheManager, m.Books w → GivesBack w m (f m a))
    (h : m.Books w) : GivesBack w m (l.foldl f m) := by
  induction l generalizing m with
  | nil => exact .refl h
  | cons a l ih =>
    have h₁ := hf a mem_cons_self m h
    exact h₁.trans (ih (fun b hb => hf b (mem_cons_of_mem _ hb)) h₁.books)

theorem Books.freeInputs (h : m.Books w) (hw : ∀ i, w r.requestId i = r.getNumEncoderTokens i)
    (hn : inputs.Nodup) (hmem : ∀ i ∈ inputs, i ∈ m.cachedOf r.requestId) :
    GivesBack w m (m.freeInputs r inputs) := by
  obtain ⟨hok, hbooks⟩ := freeInputs_ok (w := w) hn hmem
  refine ⟨hbooks hw h, fun rid i hi => ?_, ?_, hok.freed ▸ List.prefix_append _ _,
    fun e he => ?_⟩
  · by_cases hrid : rid = r.requestId
    · rw [hrid, hok.cached] at hi
      exact hrid ▸ List.mem_of_mem_filter hi
    · rwa [hok.others rid hrid] at hi
  · rw [hok.numFreeSlots]
    omega
  · rw [hok.freed] at he
    refine (List.mem_append.mp he).imp_right fun he => ?_
    obtain ⟨i, hi, rfl⟩ := List.mem_map.mp he
    rw [hok.cached]
    simp [hi]

theorem free_eq (m : EncoderCacheManager) (r : Request) :
    m.free r = m.freeInputs r (m.cachedOf r.requestId) := rfl

/-- All inputs of a request are freed. -/
theorem Books.free (h : m.Books w) (hw : ∀ i, w r.requestId i = r.getNumEncoderTokens i) :
    GivesBack w m (m.free r) ∧ (m.free r).cachedOf r.requestId = [] := by
  rw [free_eq]
  have hn := h.nodup r.requestId
  refine ⟨h.freeInputs hw hn fun _ hi => hi, ?_⟩
  rw [(freeInputs_ok (w := w) hn fun _ hi => hi).1.cached, List.filter_eq_nil_iff]
  exact fun i hi => by simpa using hi

end EncoderCacheManager

/-! ## The inputs that are scheduled -/

/-- **What `_try_schedule_encoder_inputs` answers** for the placeholders `l`: inputs that are not
cached, and a number of tokens whose inputs are all cached or among these. -/
structure EncoderCacheManager.Schedules (m : EncoderCacheManager) (r : Request)
    (numComputedTokens : Int) (l : List (PlaceholderRange × Nat)) (inputs : List Nat)
    (n' : Int) : Prop where
  sublist : inputs.Sublist (l.map Prod.snd)
  uncached : ∀ i ∈ inputs, i ∉ m.cachedOf r.requestId
  covers : n' ≠ 0 → ∀ e ∈ l.takeWhile fun e => (e.1.offset : Int) < numComputedTokens + n',
    numComputedTokens < e.1.offset + e.1.length →
      e.2 ∈ m.cachedOf r.requestId ∨ e.2 ∈ inputs

section Inputs

variable {C : SchedulerConfig} {m : EncoderCacheManager} {r : Request}
  {numComputedTokens n n' budget budget' : Int} {l : List (PlaceholderRange × Nat)}
  {inputs inputs' : List Nat}

/-- The loop stops before a placeholder, or takes none of its tokens. -/
theorem EncoderCacheManager.Schedules.stop {e : PlaceholderRange × Nat}
    (hstop : n' ≠ 0 → numComputedTokens + n' ≤ e.1.offset) :
    m.Schedules r numComputedTokens (e :: l) [] n' := by
  refine ⟨List.nil_sublist _, by simp, fun hn e' he' => ?_⟩
  rw [List.takeWhile_cons_of_neg (by simpa using hstop hn)] at he'
  simp at he'

/-- The loop passes over a placeholder. -/
theorem EncoderCacheManager.Schedules.passOver {e : PlaceholderRange × Nat}
    (h : m.Schedules r numComputedTokens l inputs n')
    (he : numComputedTokens < e.1.offset + e.1.length → e.2 ∈ m.cachedOf r.requestId) :
    m.Schedules r numComputedTokens (e :: l) inputs n' := by
  refine ⟨h.sublist.trans (List.sublist_cons_self _ _), h.uncached, fun hn e' he' hlt => ?_⟩
  by_cases hpos : (e.1.offset : Int) < numComputedTokens + n'
  · rw [List.takeWhile_cons_of_pos (by simpa using hpos)] at he'
    rcases mem_cons.mp he' with rfl | he'
    · exact .inl (he hlt)
    · exact h.covers hn e' he' hlt
  · rw [List.takeWhile_cons_of_neg (by simpa using hpos)] at he'
    simp at he'

/-- The loop takes an input. -/
theorem EncoderCacheManager.Schedules.take {e : PlaceholderRange × Nat}
    (h : m.Schedules r numComputedTokens l inputs n') (he : e.2 ∉ m.cachedOf r.requestId) :
    m.Schedules r numComputedTokens (e :: l) (e.2 :: inputs) n' := by
  refine ⟨h.sublist.cons_cons _, fun i hi => ?_, fun hn e' he' hlt => ?_⟩
  · rcases mem_cons.mp hi with rfl | hi
    · exact he
    · exact h.uncached i hi
  · by_cases hpos : (e.1.offset : Int) < numComputedTokens + n'
    · rw [List.takeWhile_cons_of_pos (by simpa using hpos)] at he'
      rcases mem_cons.mp he' with rfl | he'
      · exact .inr mem_cons_self
      · exact (h.covers hn e' he' hlt).imp_right (mem_cons_of_mem _)
    · rw [List.takeWhile_cons_of_neg (by simpa using hpos)] at he'
      simp at he'

theorem encoderInputsLoop_ok
    (h : encoderInputsLoop C m r numComputedTokens l inputs n budget = (inputs', n', budget')) :
    ∃ new, inputs' = inputs ++ new ∧ m.Schedules r numComputedTokens l new n' := by
  induction l generalizing inputs budget with
  | nil =>
    obtain ⟨rfl, rfl, -⟩ : inputs = inputs' ∧ n = n' ∧ budget = budget' := by
      simpa [encoderInputsLoop] using h
    exact ⟨[], by simp, List.Sublist.refl _, by simp, by simp⟩
  | cons e l ih =>
    obtain ⟨pos, i⟩ := e
    unfold encoderInputsLoop at h
    split at h
    next hstop =>
      obtain ⟨rfl, rfl, -⟩ : inputs = inputs' ∧ n = n' ∧ budget = budget' := by simpa using h
      exact ⟨[], by simp, .stop fun _ => hstop⟩
    next hstop =>
    split at h
    next hdone =>
      obtain ⟨new, rfl, hs⟩ := ih h
      exact ⟨new, rfl, hs.passOver fun hlt => absurd hlt (not_lt.mpr hdone)⟩
    next hdone =>
    split at h
    next hcached =>
      obtain ⟨new, rfl, hs⟩ := ih h
      exact ⟨new, rfl, hs.passOver fun _ => of_decide_eq_true hcached⟩
    next hcached =>
    split at h
    next hchunk =>
      obtain ⟨rfl, rfl, -⟩ : inputs = inputs' ∧ pos.offset - numComputedTokens = n' ∧
        budget = budget' := by simpa using h
      exact ⟨[], by simp, .stop fun _ => by dsimp only; omega⟩
    next =>
    split at h
    next hfull =>
      obtain ⟨rfl, rfl, -⟩ : inputs = inputs' ∧ (if numComputedTokens < pos.offset then
        pos.offset - numComputedTokens else 0) = n' ∧ budget = budget' := by simpa using h
      split
      next hlt => exact ⟨[], by simp, .stop fun _ => by dsimp only; omega⟩
      next hlt => exact ⟨[], by simp, .stop fun h0 => absurd rfl h0⟩
    next hfull =>
      obtain ⟨new, rfl, hs⟩ := ih h
      refine ⟨i :: new, by simp, hs.take ?_⟩
      exact EncoderCacheManager.hasCache_eq_false.mp (Bool.eq_false_iff.mpr hcached)

theorem tryScheduleEncoderInputs_ok
    (h : tryScheduleEncoderInputs C m r numComputedTokens n budget = (inputs, n', budget')) :
    m.Schedules r numComputedTokens r.mmPositions.zipIdx inputs n' := by
  unfold tryScheduleEncoderInputs at h
  split at h
  next hnone =>
    obtain ⟨rfl, rfl, -⟩ : [] = inputs ∧ n = n' ∧ budget = budget' := by simpa using h
    refine ⟨List.nil_sublist _, by simp, fun hn => ?_⟩
    have hnil : r.mmPositions = [] := by
      simpa [Request.hasEncoderInputs] using hnone.resolve_left hn
    simp [hnil]
  next =>
    obtain ⟨new, rfl, hs⟩ := encoderInputsLoop_ok h
    simpa using hs

/-- An input is scheduled once. -/
theorem EncoderCacheManager.Schedules.nodup
    (h : m.Schedules r numComputedTokens r.mmPositions.zipIdx inputs n') : inputs.Nodup := by
  refine h.sublist.nodup ?_
  rw [List.zipIdx_map_snd]
  exact List.nodup_range'

end Inputs

/-- Recording inputs depends on the request's identifier and placeholders only. -/
theorem EncoderCacheManager.allocateAll_congr {r r' : Request} (h : r.SameInputs r')
    (m : EncoderCacheManager) (inputs : List Nat) :
    m.allocateAll r' inputs = m.allocateAll r inputs := by
  unfold EncoderCacheManager.allocateAll EncoderCacheManager.allocate
    EncoderCacheManager.getCachedInputIds Request.getNumEncoderTokens
  rw [h.requestId, h.mmPositions]

/-- **The inputs of a request are recorded.** -/
structure Pass.RecordsInputs (p : Pass) (rid : ReqId) (inputs : List Nat) (p' : Pass) : Prop where
  encoderCacheManager : p'.sched.encoderCacheManager =
    p.sched.encoderCacheManager.allocateAll (p.sched.request rid) inputs
  scheduledEncoderInputs : p'.scheduledEncoderInputs =
    if inputs = [] then p.scheduledEncoderInputs else p.scheduledEncoderInputs.set rid inputs

section Records

variable {C : SchedulerConfig} {p p' : Pass} {rid : ReqId} {d : Demand}

theorem allocateEncoder_records (p : Pass) (rid : ReqId) (d : Demand) :
    p.RecordsInputs rid d.encoderInputs (p.allocateEncoder rid d) := by
  unfold Pass.allocateEncoder
  split
  next hnil => exact ⟨by rw [hnil]; rfl, by rw [if_pos hnil]⟩
  next hnil => exact ⟨rfl, by rw [if_neg hnil]⟩

theorem scheduleRunning_records (p : Pass) (rid : ReqId) (d : Demand)
    (blocks : List (List BlockId)) :
    p.RecordsInputs rid d.encoderInputs (p.scheduleRunning rid d blocks) := by
  obtain ⟨h₁, h₂⟩ := allocateEncoder_records _ rid d
  refine ⟨h₁.trans (EncoderCacheManager.allocateAll_congr ?_ _ _), h₂⟩
  change Request.SameInputs _ ((p.sched.modify rid _).request rid)
  rw [Scheduler.request_modify_self]
  exact Request.sameInputs_trimDrafts _ _

theorem admit_records {ct : ComputedTokens} (h : p.admitWaiting C rid d ct = .ok p') :
    p.RecordsInputs rid d.encoderInputs p' := by
  obtain ⟨⟨e, w⟩, -, h⟩ := bind_eq_ok.mp h
  obtain ⟨_, -, h⟩ := bind_eq_ok.mp h
  cases h
  obtain ⟨h₁, h₂⟩ := allocateEncoder_records _ rid d
  refine ⟨h₁.trans (EncoderCacheManager.allocateAll_congr ?_ _ _), h₂⟩
  change Request.SameInputs _ ((Scheduler.modify _ rid _).request rid)
  rw [Scheduler.request_modify_self]
  exact ⟨rfl, rfl, rfl, rfl, rfl, rfl, rfl⟩

end Records

/-! ## The inputs that are computed -/

/-- The tokens of the input are computed. -/
def Request.computedInput (r : Request) (i : Nat) : Bool :=
  match r.mmPositions[i]? with
  | some pos => (pos.offset + pos.length : Int) ≤ r.numComputedTokens
  | none => false

/-- Free the inputs of a request that are computed. -/
def EncoderCacheManager.freeComputed (m : EncoderCacheManager) (r : Request) :
    EncoderCacheManager :=
  m.freeInputs r ((m.cachedOf r.requestId).filter r.computedInput)

section Computed

variable {C : SchedulerConfig} {H : BlockHasher} {E : Environment} {s s' : Scheduler}
  {rid : ReqId}

theorem freeEncoderInputs_eq (s : Scheduler) (r : Request) :
    (s.freeEncoderInputs r).encoderCacheManager = s.encoderCacheManager.freeComputed r := by
  unfold Scheduler.freeEncoderInputs EncoderCacheManager.freeComputed
    EncoderCacheManager.freeInputs
  rw [List.foldl_filter]
  refine congrArg (fun f => List.foldl f _ _) (funext fun m => funext fun i => ?_)
  unfold Request.computedInput
  cases r.mmPositions[i]? with
  | none => rfl
  | some pos => simp

theorem advance_encoder {n : Int} (h : s.advance rid n = .ok s') :
    s'.encoderCacheManager = s.encoderCacheManager.freeComputed ((s.request rid).advanced n) := by
  obtain ⟨_, -, h⟩ := bind_eq_ok.mp h
  cases h
  split
  next => rw [freeEncoderInputs_eq, Scheduler.request_modify_self]; rfl
  next hnone =>
    -- without placeholders nothing is computed
    have hnil : (s.request rid).mmPositions = [] := by
      simpa [Request.hasEncoderInputs, Request.advanced] using hnone
    have hfilter : ∀ l : List Nat, l.filter ((s.request rid).advanced n).computedInput = [] :=
      fun l => List.filter_eq_nil_iff.mpr fun i _ => by
        simp [Request.computedInput, Request.advanced, hnil]
    unfold EncoderCacheManager.freeComputed
    rw [hfilter]
    rfl

/-- **After the step**, the computed inputs of the scheduled requests are freed. -/
theorem advanceLoop_encoder {l : List (ReqId × Int)} (hn : (l.map Prod.fst).Nodup)
    (h : threadM (fun e (s : Scheduler) => s.advance e.1 e.2) l s = .ok s') :
    s'.encoderCacheManager = l.foldl
      (fun m e => m.freeComputed ((s.request e.1).advanced e.2)) s.encoderCacheManager := by
  induction l generalizing s with
  | nil =>
    cases h
    rfl
  | cons e l ih =>
    obtain ⟨s₁, h₁, h⟩ := threadM_cons_ok.mp h
    obtain ⟨hnot, hnd⟩ := nodup_cons.mp hn
    obtain ⟨-, hobj, -⟩ := advance_ok h₁
    rw [ih hnd h, List.foldl_cons, advance_encoder h₁]
    refine List.foldl_ext _ _ _ fun m e' he' => ?_
    have hne : e'.1 ≠ e.1 := fun heq => hnot (heq ▸ List.mem_map_of_mem he')
    rw [Scheduler.request_congr hobj, Scheduler.request_modify_ne hne]

/-- The encoder cache and the finished requests after `_update_after_schedule`. -/
theorem updateAfterSchedule_encoder {l : List (ReqId × Int)} (hn : (l.map Prod.fst).Nodup)
    (h : s.updateAfterSchedule C l = .ok s') :
    s'.encoderCacheManager = l.foldl
      (fun m e => m.freeComputed ((s.request e.1).advanced e.2)) s.encoderCacheManager ∧
      s'.finishedReqIds = [] := by
  obtain ⟨s₁, h₁, h⟩ := bind_eq_ok.mp h
  rw [← advanceLoop_encoder hn h₁]
  split at h
  next =>
    refine threadM_invariant (I := fun _ s₂ => s₂.encoderCacheManager = s₁.encoderCacheManager ∧
      s₂.finishedReqIds = []) (fun e _ s₂ s₃ hI hstep => ?_) ⟨rfl, rfl⟩ h
    obtain ⟨-, rfl | rfl⟩ := addPlaceholder_ok hstep <;> exact hI
  next =>
    cases h
    exact ⟨rfl, rfl⟩

/-- **The encoder cache after a call** of `schedule`. -/
theorem Scheduler.Schedules.encoder {p : Pass} {output : SchedulerOutput}
    (h : s.Schedules H C E p output s') :
    s'.encoderCacheManager = p.numScheduledTokens.entries.foldl
      (fun m e => m.freeComputed ((p.sched.request e.1).advanced e.2))
      p.sched.encoderCacheManager.getFreedIds.2 ∧ s'.finishedReqIds = [] :=
  updateAfterSchedule_encoder p.numScheduledTokens.nodup h.after

end Computed

end InferenceServer
