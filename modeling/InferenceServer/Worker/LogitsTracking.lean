import InferenceServer.Worker.BatchChanges

/-!
# The logits processors and the batch

After `refresh_metadata`, what a processor applies to a row is what the request in the row asks for. For
the biases and for the minimal numbers of tokens this holds in every run: their entries are those of the
view, and the tensors are made anew whenever an entry has changed.

The processor for `min_p` keeps a counter and a slice of the values on the device. The counter is at
least the number of the requests with a `min_p`: a request whose row has been filled is never subtracted.
When the counter is 0, the values are still written into the array, but the slice is not copied. If then
a request comes whose `min_p` is what its row already has, the counter is no longer 0, nothing seems to
have changed, and the slice is that of another time. `FreshMinP` excludes this case.

## Main results

* `Tracking.change`, `Tracking.refresh`: what a change and `refresh_metadata` keep
* `applies_of_reach`
-/

namespace InferenceServer.PersistentBatch

open Outcome
open List (cons_ne_nil foldl_cons map_cons range sum_cons)
open Function (update_eq_self update_of_ne)

/-! ## What a request asks for -/

/-- The `min_p` of a request. -/
def ActiveRequest.minP (a : ActiveRequest) : Rat := (a.state.params.map Params.minP).getD 0

/-- The `logit_bias` of a request. -/
def ActiveRequest.logitBias (a : ActiveRequest) : List (TokenId × Rat) :=
  (a.state.samplingParams.bind SamplingParams.logitBias).getD []

/-- The tokens that a request must not sample: its stop tokens, while it has fewer than `min_tokens`
output tokens. -/
def ActiveRequest.blockedTokenIds (outputs : Dict OutputRef (List TokenId)) (a : ActiveRequest) :
    List TokenId :=
  match a.state.samplingParams with
  | some params =>
    if (outputs.getD a.state.outputTokenIds []).length < params.minTokens then params.allStopTokenIds
    else []
  | none => []

/-- **What the processors apply to the row of a request.** -/
structure Applies (s : BatchState) (i : Nat) (a : ActiveRequest) : Prop where
  minP : s.batch.minP.minPCount ≠ 0 → s.batch.minP.applied i = some a.minP
  noMinP : s.batch.minP.minPCount = 0 → a.minP = 0
  logitBias : s.batch.logitBias.applied i = a.logitBias
  minTokens : s.batch.minTokens.applied i = a.blockedTokenIds s.outputs

variable {cfg : BatchConfig} {b b' : InputBatch} {active active' : Dict ReqId ActiveRequest}
  {s s' : BatchState}

/-! ## Entries after an update -/

section Entries

variable {β : Type} {entry : AddedRequest → Option β} {truthy : β → Bool} {d d' : Dict Nat β}

/-- The entries after `get_and_reset`. Without an update they stay as they are. -/
def updated (entry : AddedRequest → Option β) (truthy : β → Bool) (d : Dict Nat β) :
    Option BatchUpdate → Dict Nat β × Bool
  | none => (d, false)
  | some u => replay entry truthy d u

theorem getAndReset_cases (u : BatchUpdateBuilder) (n : Nat) :
    ((u.getAndReset n).1 = none ∧ u.removed = [] ∧ u.moved = [] ∧ u.added = []) ∨
      (u.getAndReset n).1 =
        some { batchSize := n, removed := u.removed, moved := u.moved, added := u.added } := by
  unfold BatchUpdateBuilder.getAndReset
  dsimp only
  split_ifs with hnil
  · exact .inl ⟨rfl, hnil⟩
  · exact .inr rfl

/-- **The entries after an update** are those of the view, without those of the removed rows. -/
theorem get?_updated (h : Apart b) (n i : Nat) :
    (updated entry truthy d (b.builder.getAndReset n).1).1.get? i =
      if i ∈ b.builder.removed then none else viewOf entry (fun _ => none) d.get? b.builder i := by
  rcases getAndReset_cases b.builder n with ⟨hnone, hremoved, hmoved, hadded⟩ | hsome
  · rw [hnone, hremoved, if_neg List.not_mem_nil, viewOf, hmoved, hadded]
    rfl
  rw [hsome]
  change (replay entry truthy d _).1.get? i = _
  rw [get?_replay]
  split_ifs with hi
  · -- the moves do not touch the removed rows
    rw [foldl_moveView_of_notMem fun m hm =>
      ⟨fun heq => (h.moved m hm).1 (heq ▸ hi), fun heq => (h.moved m hm).2 (heq ▸ hi)⟩, if_pos hi]
  · exact foldl_moveView_congr (C := (· ∉ b.builder.removed))
      (fun j hj => if_neg hj) h.moved i hi

theorem updated_quiet {u : Option BatchUpdate}
    (htruthy : ∀ i e, d.get? i = some e → truthy e = true)
    (h : (updated entry truthy d u).2 = false) : (updated entry truthy d u).1 = d := by
  cases u with
  | none => rfl
  | some u => exact replay_quiet htruthy h

/-- The entries that are found after an update are good for the requests in their rows. -/
theorem Tracks.updated {Good : ActiveRequest → Option β → Prop}
    (h : Tracks entry (fun _ => none) Good d.get? b active) (hapart : Apart b) {n i : Nat} {id : ReqId}
    {a : ActiveRequest} (hat : b.At i id) (ha : active.get? id = some a) :
    Good a ((updated entry truthy d (b.builder.getAndReset n).1).1.get? i) := by
  rw [get?_updated hapart, if_neg fun hi => hapart.free i hi id hat]
  exact h i id a hat ha

/-- After an update, only the rows of requests have entries. -/
theorem Occupies.updated (h : Occupies entry d.get? b) (hapart : Apart b) {n i : Nat}
    (hi : (updated entry truthy d (b.builder.getAndReset n).1).1.get? i ≠ none) :
    ∃ id, b.At i id := by
  rw [get?_updated hapart] at hi
  split_ifs at hi with hmem
  · exact absurd rfl hi
  · exact (h i hi).resolve_right hmem

/-- The tensors of some entries. -/
def flatten {δ : Type} (tokens : β → List δ) (d : Dict Nat β) : List (Nat × δ) :=
  d.entries.flatMap fun x => (tokens x.2).map fun y => (x.1, y)

/-- What is applied to a row, if the tensors are those of the entries. -/
theorem applied_flatten {δ : Type} {tokens : β → List δ} {tensors : List (Nat × δ)}
    (h : tensors = flatten tokens d) (i : Nat) :
    (if d.entries = [] then [] else (tensors.filter fun x => x.1 = i).map Prod.snd) =
      (d.get? i).elim [] tokens := by
  split_ifs with hnil
  · have hnone : d.get? i = none := by
      unfold Dict.get?
      rw [hnil]
      rfl
    rw [hnone]
    rfl
  · rw [h]
    exact filter_flatten d tokens i

end Entries

/-! ## Biases -/

/-- The entry of a request: its biases if it has any. -/
def ActiveRequest.biasEntry (a : ActiveRequest) : Option (List (TokenId × Rat)) :=
  a.state.samplingParams.bind fun params => params.logitBias.filter (· ≠ [])

variable {r : CachedRequestState} {output : List TokenId} {i : Nat} {params : Params}
  {a : ActiveRequest}

theorem biasEntry_eq (h : r.params = some params) :
    biasEntry { index := i, params, outputTokenIds := r.outputTokenIds } =
      ActiveRequest.biasEntry { state := r, output } := by
  unfold CachedRequestState.params at h
  unfold ActiveRequest.biasEntry
  cases hs : r.samplingParams with
  | some params' =>
    rw [hs] at h
    cases h
    rfl
  | none =>
    rw [hs] at h
    obtain ⟨pooling, -, rfl⟩ := Option.map_eq_some_iff.mp h
    rfl

theorem biasEntry_elim (a : ActiveRequest) : a.biasEntry.elim [] id = a.logitBias := by
  unfold ActiveRequest.biasEntry ActiveRequest.logitBias
  cases a.state.samplingParams with
  | none => rfl
  | some params =>
    change (params.logitBias.filter (· ≠ [])).elim [] id = params.logitBias.getD []
    cases hbias : params.logitBias with
    | none => rfl
    | some bias =>
      by_cases hnil : bias = []
      · subst hnil
        rfl
      · rw [Option.filter_some, if_pos (by simpa using hnil)]
        rfl

/-- What holds of the processor of the biases. -/
structure BiasTracking (b : InputBatch) (active : Dict ReqId ActiveRequest) : Prop where
  tracks : Tracks biasEntry (fun _ => none) (fun a e => e = a.biasEntry) b.logitBias.biases.get? b
    active
  occupies : Occupies biasEntry b.logitBias.biases.get? b
  truthy : ∀ i e, b.logitBias.biases.get? i = some e → decide (e ≠ []) = true
  tensors : b.logitBias.tensors = flatten id b.logitBias.biases

theorem BiasTracking.change (h : BiasTracking b active) (c : Change b active b' active') :
    BiasTracking b' active' := by
  obtain ⟨-, hbias, -⟩ := c.same
  refine ⟨?_, ?_, ?_, ?_⟩ <;> rw [hbias]
  · exact h.tracks.change c fun r output i params hparams => biasEntry_eq hparams
  · exact h.occupies.change c
  · exact h.truthy
  · exact h.tensors

theorem LogitBiasLogitsProcessor.updateState_eq (p : LogitBiasLogitsProcessor)
    (u : Option BatchUpdate) : p.updateState u =
      { biases := (updated biasEntry (· ≠ []) p.biases u).1
        tensors := if (updated biasEntry (· ≠ []) p.biases u).2 then
          flatten id (updated biasEntry (· ≠ []) p.biases u).1 else p.tensors } := by
  cases u with
  | none => rfl
  | some u => rfl

theorem viewOf_empty {γ : Type} {put : AddedRequest → γ} {vacate : γ → γ} {f : Nat → γ} :
    viewOf put vacate f {} = f := rfl

/-- **The biases after `refresh_metadata`.** -/
theorem BiasTracking.refresh (h : BiasTracking b active) (hp : Placed cfg b active) (hapart : Apart b)
    (outputs : Dict OutputRef (List TokenId)) : BiasTracking (b.refreshMetadata outputs) active := by
  have hbuilder := b.refreshMetadata_builder outputs
  have heq : (b.refreshMetadata outputs).logitBias =
      b.logitBias.updateState (b.builder.getAndReset b.numReqs).1 := rfl
  rw [LogitBiasLogitsProcessor.updateState_eq] at heq
  have htracks : ∀ i id a, b.At i id → active.get? id = some a →
      (b.refreshMetadata outputs).logitBias.biases.get? i = a.biasEntry := fun i id a hat ha => by
    rw [heq]
    exact h.tracks.updated hapart hat ha
  have hoccupies : ∀ i, (b.refreshMetadata outputs).logitBias.biases.get? i ≠ none →
      ∃ id, b.At i id := fun i hi => by
    rw [heq] at hi
    exact h.occupies.updated hapart hi
  refine ⟨fun i id a hat ha => ?_, fun i hi => ?_, fun i e hi => ?_, ?_⟩
  · rw [hbuilder, viewOf_empty]
    exact htracks i id a hat ha
  · rw [hbuilder, viewOf_empty] at hi
    exact .inl (hoccupies i hi)
  · obtain ⟨id, hat⟩ := hoccupies i (by rw [hi]; exact Option.some_ne_none e)
    obtain ⟨a, ha⟩ := hp.exists_active hat
    have hentry := (htracks i id a hat ha).symm.trans hi
    obtain ⟨params, -, hfilter⟩ := Option.bind_eq_some_iff.mp hentry
    exact (Option.filter_eq_some_iff.mp hfilter).2
  · rw [heq]
    split_ifs with hflag
    · rfl
    · rw [updated_quiet h.truthy (Bool.not_eq_true _ ▸ hflag)]
      exact h.tensors

/-! ## Minimal numbers of tokens -/

/-- No list of output tokens has become shorter. -/
def Grows (outputs outputs' : Dict OutputRef (List TokenId)) : Prop :=
  ∀ ref, (outputs.getD ref []).length ≤ (outputs'.getD ref []).length

theorem Grows.refl (outputs : Dict OutputRef (List TokenId)) : Grows outputs outputs := fun _ => le_rfl

theorem Grows.trans {o₁ o₂ o₃ : Dict OutputRef (List TokenId)} (h : Grows o₁ o₂) (h' : Grows o₂ o₃) :
    Grows o₁ o₃ := fun ref => (h ref).trans (h' ref)

theorem grows_generate (s : BatchState) (ref : OutputRef) (tokens : List TokenId) :
    Grows s.outputs (s.outputs.set ref (s.output ref ++ tokens)) := fun ref' => by
  rw [Dict.getD_set]
  split_ifs with heq
  · rw [heq, List.length_append]
    exact Nat.le_add_right _ _
  · exact le_rfl

/-- An entry is good for a request if it has its stop tokens; there is none if the request has its
minimal number of tokens. -/
def MinToksFor (outputs : Dict OutputRef (List TokenId)) (a : ActiveRequest)
    (e : Option MinToksEntry) : Prop :=
  (∃ params, a.state.samplingParams = some params ∧
    e = some { minTokens := params.minTokens, outputTokenIds := a.state.outputTokenIds
               stopTokenIds := params.allStopTokenIds }) ∨
  (e = none ∧ ∀ params, a.state.samplingParams = some params →
    params.minTokens ≤ (outputs.getD a.state.outputTokenIds []).length)

variable {outputs outputs' : Dict OutputRef (List TokenId)}

theorem MinToksFor.grows {e : Option MinToksEntry} (h : MinToksFor outputs a e)
    (hg : Grows outputs outputs') : MinToksFor outputs' a e :=
  h.imp_right fun ⟨hnone, hle⟩ => ⟨hnone, fun params hparams => (hle params hparams).trans (hg _)⟩

theorem minToksFor_minToksEntry (h : r.params = some params) :
    MinToksFor outputs { state := r, output }
      (minToksEntry outputs { index := i, params, outputTokenIds := r.outputTokenIds }) := by
  unfold CachedRequestState.params at h
  cases hs : r.samplingParams with
  | some params' =>
    rw [hs] at h
    cases h
    unfold minToksEntry
    dsimp only
    split_ifs with hshort
    · exact .inl ⟨params', hs, rfl⟩
    · refine .inr ⟨rfl, fun params hparams => ?_⟩
      obtain rfl := Option.some.inj (hs.symm.trans hparams)
      change params'.minTokens ≤ (outputs.getD r.outputTokenIds []).length
      by_contra hlt
      exact hshort ⟨Nat.ne_of_gt (by omega), by omega⟩
  | none =>
    rw [hs] at h
    obtain ⟨pooling, -, rfl⟩ := Option.map_eq_some_iff.mp h
    refine .inr ⟨rfl, fun params hparams => ?_⟩
    cases hs.symm.trans hparams

/-- What holds of the processor of the minimal numbers, however many tokens the requests generate
before it is asked. -/
structure MinToksTracking (outputs : Dict OutputRef (List TokenId)) (b : InputBatch)
    (active : Dict ReqId ActiveRequest) : Prop where
  tracks : ∀ outputs', Grows outputs outputs' →
    Tracks (minToksEntry outputs') (fun _ => none) (MinToksFor outputs') b.minTokens.minToks.get? b
      active
  tensors : b.minTokens.tensors = flatten MinToksEntry.stopTokenIds b.minTokens.minToks

theorem MinToksTracking.change (h : MinToksTracking outputs b active)
    (c : Change b active b' active') : MinToksTracking outputs b' active' := by
  obtain ⟨-, -, hminToks⟩ := c.same
  refine ⟨fun outputs' hg => ?_, ?_⟩ <;> rw [hminToks]
  · exact (h.tracks outputs' hg).change c fun r output i params hparams =>
      minToksFor_minToksEntry hparams
  · exact h.tensors

theorem MinToksTracking.grows (h : MinToksTracking outputs b active) (hg : Grows outputs outputs') :
    MinToksTracking outputs' b active :=
  ⟨fun outputs'' hg' => h.tracks outputs'' (hg.trans hg'), h.tensors⟩

/-- The entries and the tensors after `update_state`. -/
theorem MinTokensLogitsProcessor.updateState_eq (p : MinTokensLogitsProcessor)
    (outputs : Dict OutputRef (List TokenId)) (u : Option BatchUpdate) :
    p.updateState outputs u =
      let d := updated (minToksEntry outputs) (fun _ => true) p.minToks u
      let minToks := (attained outputs d.1).foldl Dict.erase d.1
      { minToks
        tensors := if d.2 ∨ attained outputs d.1 ≠ [] then
          flatten MinToksEntry.stopTokenIds minToks else p.tensors } := by
  cases u with
  | none => rfl
  | some u => rfl

theorem mem_attained {minToks : Dict Nat MinToksEntry} :
    i ∈ attained outputs minToks ↔ ∃ e, minToks.get? i = some e ∧
      e.minTokens ≤ (outputs.getD e.outputTokenIds []).length := by
  unfold attained
  rw [List.mem_map]
  constructor
  · rintro ⟨⟨j, e⟩, hmem, rfl⟩
    obtain ⟨hmem, hle⟩ := List.mem_filter.mp hmem
    exact ⟨e, Dict.get?_eq_some_iff.mpr hmem, of_decide_eq_true hle⟩
  · rintro ⟨e, hget, hle⟩
    exact ⟨(i, e), List.mem_filter.mpr ⟨Dict.get?_eq_some_iff.mp hget, decide_eq_true hle⟩, rfl⟩

/-- **The minimal numbers after `refresh_metadata`**: there is an entry for a request exactly as long as
it has too few tokens. -/
theorem MinToksTracking.refresh (h : MinToksTracking outputs b active) (hapart : Apart b) :
    MinToksTracking outputs (b.refreshMetadata outputs) active ∧
      ∀ i id a, b.At i id → active.get? id = some a →
        ((b.refreshMetadata outputs).minTokens.minToks.get? i).elim [] MinToksEntry.stopTokenIds =
          a.blockedTokenIds outputs := by
  have hbuilder := b.refreshMetadata_builder outputs
  have heq : (b.refreshMetadata outputs).minTokens =
      b.minTokens.updateState outputs (b.builder.getAndReset b.numReqs).1 := rfl
  rw [MinTokensLogitsProcessor.updateState_eq] at heq
  obtain ⟨d, hd⟩ : ∃ d, d = updated (minToksEntry outputs) (fun _ => true) b.minTokens.minToks
    (b.builder.getAndReset b.numReqs).1 := ⟨_, rfl⟩
  rw [← hd] at heq
  have hget : ∀ i, (b.refreshMetadata outputs).minTokens.minToks.get? i =
      if i ∈ attained outputs d.1 then none else d.1.get? i := fun i => by
    rw [heq]
    exact Dict.get?_foldl_erase ..
  have htracks : ∀ i id a, b.At i id → active.get? id = some a →
      MinToksFor outputs a (d.1.get? i) := fun i id a hat ha => by
    rw [hd]
    exact (h.tracks outputs (.refl outputs)).updated hapart hat ha
  -- what is dropped belongs to a request that has its minimal number of tokens
  have hgood : ∀ i id a, b.At i id → active.get? id = some a →
      MinToksFor outputs a ((b.refreshMetadata outputs).minTokens.minToks.get? i) :=
    fun i id a hat ha => by
      rw [hget]
      split_ifs with hmem
      · obtain ⟨e, he, hle⟩ := mem_attained.mp hmem
        rcases htracks i id a hat ha with ⟨params, hparams, hentry⟩ | ⟨hnone, -⟩
        · obtain rfl := Option.some.inj (he.symm.trans hentry)
          refine .inr ⟨rfl, fun params' hparams' => ?_⟩
          obtain rfl := Option.some.inj (hparams.symm.trans hparams')
          exact hle
        · cases he.symm.trans hnone
      · exact htracks i id a hat ha
  refine ⟨⟨fun outputs' hg i id a hat ha => ?_, ?_⟩, fun i id a hat ha => ?_⟩
  · rw [hbuilder, viewOf_empty]
    exact (hgood i id a hat ha).grows hg
  · rw [heq]
    dsimp only
    split_ifs with hflag
    · rfl
    · obtain ⟨hflag, hnil⟩ := not_or.mp hflag
      have hsame : d.1 = b.minTokens.minToks := by
        rw [hd] at hflag ⊢
        exact updated_quiet (fun _ _ _ => rfl) (Bool.not_eq_true _ ▸ hflag)
      rw [not_not.mp hnil, hsame]
      exact h.tensors
  · unfold ActiveRequest.blockedTokenIds
    rcases hgood i id a hat ha with ⟨params, hparams, hentry⟩ | ⟨hnone, hle⟩
    · rw [hentry, hparams]
      have hshort : (outputs.getD a.state.outputTokenIds []).length < params.minTokens := by
        by_contra hle
        have hnot : i ∉ attained outputs d.1 := fun hmem => by
          rw [hget, if_pos hmem] at hentry
          cases hentry
        rw [hget, if_neg hnot] at hentry
        exact hnot (mem_attained.mpr ⟨_, hentry, Nat.not_lt.mp hle⟩)
      dsimp only
      rw [if_pos hshort]
      rfl
    · rw [hnone]
      cases hparams : a.state.samplingParams with
      | none => rfl
      | some params =>
        dsimp only
        rw [if_neg (Nat.not_lt.mpr (hle params hparams))]
        rfl

/-! ## Minimal probabilities -/

/-- 1 for a `min_p` that is counted. -/
def counted (minP : Rat) : Int := if minP ≠ 0 then 1 else 0

theorem counted_nonneg (minP : Rat) : 0 ≤ counted minP := by
  unfold counted
  split_ifs <;> decide

theorem eq_zero_of_counted {minP : Rat} (h : counted minP ≤ 0) : minP = 0 := by
  by_contra hne
  rw [counted, if_pos hne] at h
  exact absurd h (by decide)

theorem sum_counted_nonneg {α : Type} (f : α → Rat) (l : List α) :
    0 ≤ (l.map fun x => counted (f x)).sum :=
  List.sum_nonneg fun _ hx => by
    obtain ⟨x, -, rfl⟩ := List.mem_map.mp hx
    exact counted_nonneg _

/-- The `min_p` of an added request. -/
def AddedRequest.minP (x : AddedRequest) : Rat := x.params.minP

/-- The number of the added requests with a `min_p`. -/
def addedMinP (added : List AddedRequest) : Int := (added.map fun x => counted x.minP).sum

theorem addedMinP_append (added : List AddedRequest) (x : AddedRequest) :
    addedMinP (added ++ [x]) = addedMinP added + counted x.minP := by
  simp [addedMinP]

namespace MinPLogitsProcessor

variable {p : MinPLogitsProcessor}

/-- What an added request does. A value that is there already is written once more in the view. -/
theorem addMinP_fst (s : MinPLogitsProcessor × Bool) (x : AddedRequest) :
    (addMinP s x).1 = { s.1 with
      minPCount := s.1.minPCount + counted x.minP
      minPCpu := addView AddedRequest.minP s.1.minPCpu x } := by
  have hcpu : addView AddedRequest.minP s.1.minPCpu x =
      if s.1.minPCpu x.index ≠ x.params.minP then
        Function.update s.1.minPCpu x.index x.params.minP else s.1.minPCpu := by
    unfold addView AddedRequest.minP
    split_ifs with hsame
    · rfl
    · rw [← not_not.mp hsame, update_eq_self]
  rw [hcpu]
  unfold addMinP counted AddedRequest.minP
  dsimp only
  by_cases hsame : s.1.minPCpu x.index ≠ x.params.minP
  · rw [if_pos hsame, if_pos hsame]
    by_cases hzero : x.params.minP ≠ 0
    · rw [if_pos hzero, if_pos hzero]
    · rw [if_neg hzero, if_neg hzero, add_zero]
  · rw [if_neg hsame, if_neg hsame]
    by_cases hzero : x.params.minP ≠ 0
    · rw [if_pos hzero, if_pos hzero]
    · rw [if_neg hzero, if_neg hzero, add_zero]

theorem addMinP_quiet {s : MinPLogitsProcessor × Bool} {x : AddedRequest}
    (h : (addMinP s x).2 = false) : s.2 = false ∧ s.1.minPCpu x.index = x.minP := by
  unfold addMinP at h
  dsimp only at h
  by_cases hsame : s.1.minPCpu x.index ≠ x.params.minP
  · rw [if_pos hsame] at h
    split_ifs at h
  · rw [if_neg hsame] at h
    refine ⟨?_, not_not.mp hsame⟩
    split_ifs at h <;> exact h

/-- What the added requests do to the processor. -/
theorem foldl_addMinP (added : List AddedRequest) (s : MinPLogitsProcessor × Bool) :
    (added.foldl addMinP s).1 =
        { s.1 with
          minPCount := s.1.minPCount + addedMinP added
          minPCpu := added.foldl (addView AddedRequest.minP) s.1.minPCpu } ∧
      ((added.foldl addMinP s).2 = false → s.2 = false ∧
        ∀ x ∈ added, s.1.minPCpu x.index = x.minP) := by
  induction added generalizing s with
  | nil => exact ⟨by simp [addedMinP], fun h => ⟨h, fun x hx => nomatch hx⟩⟩
  | cons x added ih =>
    obtain ⟨hstate, hflag⟩ := ih (addMinP s x)
    rw [addMinP_fst] at hstate hflag
    refine ⟨?_, fun h => ?_⟩
    · rw [foldl_cons, hstate, foldl_cons, addedMinP, addedMinP, map_cons,
        sum_cons, add_assoc]
    · obtain ⟨hx, hrest⟩ := hflag h
      obtain ⟨hs, hstored⟩ := addMinP_quiet hx
      rw [addView, ← hstored, update_eq_self] at hrest
      exact ⟨hs, fun y hy => (List.mem_cons.mp hy).elim (fun heq => heq ▸ hstored) (hrest y)⟩

/-- What the removed rows do. -/
theorem foldl_removeMinP (removed : List Nat) (p : MinPLogitsProcessor) :
    removed.foldl removeMinP p =
      { p with minPCount := p.minPCount - (removed.map fun i => counted (p.minPCpu i)).sum } := by
  induction removed generalizing p with
  | nil => simp
  | cons i removed ih =>
    have hstep : removeMinP p i = { p with minPCount := p.minPCount - counted (p.minPCpu i) } := by
      unfold removeMinP counted
      split_ifs <;> simp
    rw [foldl_cons, hstep, ih, map_cons, sum_cons]
    congr 1
    ring

theorem moveCpu_eq (cpu : Nat → Rat) (m : MovedRequest) : moveCpu cpu m = moveView id cpu m := by
  unfold moveCpu moveView
  cases m.direct with
  | unidirectional =>
    dsimp only [id]
    rw [update_eq_self]
  | swap =>
    dsimp only
    by_cases hsame : m.src = m.tgt
    · rw [hsame]
    · rw [Function.update_comm (Ne.symm hsame)]

/-- A move between equal values changes nothing. -/
theorem moveView_of_eq {cpu : Nat → Rat} {m : MovedRequest} (h : cpu m.src = cpu m.tgt) :
    moveView id cpu m = cpu := by
  unfold moveView
  cases m.direct with
  | unidirectional =>
    dsimp only [id]
    rw [update_eq_self, h, update_eq_self]
  | swap =>
    dsimp only
    rw [← h, update_eq_self, h, update_eq_self]

/-- What the moves do. -/
theorem foldl_moveMinP (moved : List MovedRequest) (s : MinPLogitsProcessor × Bool) :
    (moved.foldl moveMinP s).1 =
        { s.1 with minPCpu := moved.foldl (moveView id) s.1.minPCpu } ∧
      ((moved.foldl moveMinP s).2 = false → s.2 = false ∧
        ∀ m ∈ moved, s.1.minPCpu m.src = s.1.minPCpu m.tgt) := by
  induction moved generalizing s with
  | nil => exact ⟨rfl, fun h => ⟨h, fun m hm => nomatch hm⟩⟩
  | cons m moved ih =>
    obtain ⟨hstate, hflag⟩ := ih (moveMinP s m)
    have hstep : (moveMinP s m).1 = { s.1 with minPCpu := moveView id s.1.minPCpu m } := by
      unfold moveMinP
      split_ifs with hsame
      · rw [moveCpu_eq]
      · rw [moveView_of_eq (not_not.mp hsame)]
    have hquiet : (moveMinP s m).2 = false →
        s.2 = false ∧ s.1.minPCpu m.src = s.1.minPCpu m.tgt := by
      unfold moveMinP
      split_ifs with hsame
      · exact fun h => nomatch h
      · exact fun h => ⟨h, not_not.mp hsame⟩
    refine ⟨by rw [foldl_cons, hstate, hstep, foldl_cons], fun h => ?_⟩
    obtain ⟨hm, hrest⟩ := hflag h
    obtain ⟨hs, hsame⟩ := hquiet hm
    rw [hstep, moveView_of_eq hsame] at hrest
    exact ⟨hs, fun m' hm' => (List.mem_cons.mp hm').elim (fun heq => heq ▸ hsame) (hrest m')⟩

end MinPLogitsProcessor

/-- The values in the view. -/
def InputBatch.minPView (b : InputBatch) : Nat → Rat :=
  viewOf AddedRequest.minP id b.minP.minPCpu b.builder

/-- What holds of the processor for `min_p`. The counter, with the added requests, is at least the
number of the requests with a `min_p` and of the removed rows with one. If it is 0, the moves are not
replayed; then they have nothing to do. -/
structure MinPTracking (b : InputBatch) (active : Dict ReqId ActiveRequest) : Prop where
  tracks : Tracks AddedRequest.minP id (fun a minP => minP = a.minP) b.minP.minPCpu b active
  count : Dict.total (fun a => counted a.minP) active +
    (b.builder.removed.map fun i => counted (b.minPView i)).sum ≤
      b.minP.minPCount + addedMinP b.builder.added
  zero : b.minP.minPCount + addedMinP b.builder.added = 0 → ∀ i, b.Taken i →
    b.builder.added.foldl (addView AddedRequest.minP) b.minP.minPCpu i = 0
  held : b.minP.minPCount ≠ 0 →
    b.minP.minP = (List.range b.minP.minP.length).map b.minP.minPCpu
  size : b.builder.removed = [] → b.builder.moved = [] → b.builder.added = [] →
    b.minP.minPCount ≠ 0 → b.minP.minP.length = b.numReqs

theorem total_counted_nonneg (active : Dict ReqId ActiveRequest) :
    0 ≤ Dict.total (fun a => counted a.minP) active :=
  sum_counted_nonneg (fun x : ReqId × ActiveRequest => x.2.minP) active.entries

/-- If no request is counted, none has a `min_p`. -/
theorem minP_of_total {id : ReqId} (ha : active.get? id = some a)
    (h : Dict.total (fun a => counted a.minP) active ≤ 0) : a.minP = 0 := by
  have hsplit := Dict.total_erase (fun a : ActiveRequest => counted a.minP) active id
  have hrest := total_counted_nonneg (active.erase id)
  rw [ha, Option.map_some, Option.getD_some] at hsplit
  exact eq_zero_of_counted (by omega)

theorem sum_counted_congr {f g : Nat → Rat} {l : List Nat} (h : ∀ i ∈ l, f i = g i) :
    (l.map fun i => counted (f i)).sum = (l.map fun i => counted (g i)).sum := by
  rw [List.map_congr_left fun i hi => by rw [h i hi]]

theorem sum_counted_perm {f : Nat → Rat} {l l' : List Nat} (h : l.Perm l') :
    (l.map fun i => counted (f i)).sum = (l'.map fun i => counted (f i)).sum :=
  (h.map _).sum_eq

theorem minP_of_params
    (h : r.params = some params) : ActiveRequest.minP { state := r, output } = params.minP := by
  rw [ActiveRequest.minP, h]
  rfl

variable (h : MinPTracking b active)

include h

/-- The counter and the rows. -/
theorem MinPTracking.count_change (hapart : Apart b) (c : Change b active b' active') :
    Dict.total (fun a => counted a.minP) active' +
      (b'.builder.removed.map fun i => counted (b'.minPView i)).sum ≤
        b'.minP.minPCount + addedMinP b'.builder.added := by
  have hcount := h.count
  rw [c.same.1]
  unfold InputBatch.minPView at hcount ⊢
  rw [c.same.1]
  cases c with
  | remove i id a hat only ha at_iff moved builder =>
    -- the request is counted as a removed row from now on
    have hview := h.tracks i id a hat ha
    have htotal := Dict.total_erase (fun a : ActiveRequest => counted a.minP) active id
    rw [ha, Option.map_some, Option.getD_some] at htotal
    have hadded : b'.builder.added = b.builder.added := by rw [builder]
    have hremoved : b'.builder.removed = b.builder.removed ++ [i] := by rw [builder]
    rw [viewOf_congr hadded (by rw [builder]), hadded, hremoved, List.map_append, List.sum_append,
      List.map_singleton, List.sum_singleton, hview]
    omega
  | add i r output params hparams free new nowhere at_iff moved moved' added removed =>
    have hadd : ∀ j, j ≠ i → viewOf AddedRequest.minP id b.minP.minPCpu b'.builder j =
        viewOf AddedRequest.minP id b.minP.minPCpu b.builder j := fun j hj => by
      rw [viewOf_add moved moved' added]
      exact update_of_ne hj ..
    have hi : i ∉ b'.builder.removed := by
      rcases removed with hperm | ⟨heq, hnot⟩
      · exact (List.nodup_cons.mp (hperm.nodup hapart.nodup)).1
      · exact heq ▸ hnot
    rw [Dict.total_set_of_notMem _ new, minP_of_params hparams, added, addedMinP_append,
      sum_counted_congr fun j hj => hadd j fun heq => hi (heq ▸ hj)]
    change _ ≤ b.minP.minPCount + (addedMinP b.builder.added + counted params.minP)
    rcases removed with hperm | ⟨heq, -⟩
    · rw [sum_counted_perm hperm, map_cons, sum_cons] at hcount
      have := counted_nonneg (viewOf AddedRequest.minP id b.minP.minPCpu b.builder i)
      omega
    · rw [heq]
      omega
  | move src tgt reqId hat free at_iff notRemoved removed added moved =>
    have hnot := (List.nodup_cons.mp (removed.nodup hapart.nodup)).1
    have hsame : ∀ j ∈ b'.builder.removed, viewOf AddedRequest.minP id b.minP.minPCpu b'.builder j =
        viewOf AddedRequest.minP id b.minP.minPCpu b.builder j := fun j hj => by
      have hmem := removed.mem_iff.mpr (List.mem_cons_of_mem tgt hj)
      rw [viewOf_move added moved]
      exact moveView_of_ne (fun heq : j = src => notRemoved (heq ▸ hmem))
        fun heq : j = tgt => hnot (heq ▸ hj)
    rw [added, sum_counted_congr hsame]
    rw [sum_counted_perm removed, map_cons, sum_cons] at hcount
    have := counted_nonneg (viewOf AddedRequest.minP id b.minP.minPCpu b.builder tgt)
    omega
  | swap i1 i2 id1 id2 at1 at2 at_iff builder =>
    have hadded : b'.builder.added = b.builder.added := by rw [builder]
    have hmoved : b'.builder.moved =
        b.builder.moved ++ [{ src := i1, tgt := i2, direct := .swap }] := by rw [builder]
    have hremoved : b'.builder.removed = b.builder.removed := by rw [builder]
    rw [hadded, hremoved, sum_counted_congr (g := viewOf AddedRequest.minP id b.minP.minPCpu b.builder)]
    · exact hcount
    · intro j hj
      rw [viewOf_move hadded hmoved]
      exact moveView_of_ne (fun heq => hapart.free j hj id1 (heq ▸ at1))
        fun heq => hapart.free j hj id2 (heq ▸ at2)
  | tidy at_iff removed added moved =>
    rw [added, viewOf_congr added moved, sum_counted_perm removed]
    exact hcount

/-- The counter with the added requests is never negative. -/
theorem MinPTracking.count_nonneg : 0 ≤ b.minP.minPCount + addedMinP b.builder.added :=
  (Int.add_nonneg (total_counted_nonneg active) (sum_counted_nonneg b.minPView _)).trans h.count

theorem MinPTracking.zero_change (c : Change b active b' active')
    (hzero : b'.minP.minPCount + addedMinP b'.builder.added = 0) {j : Nat} (hj : b'.Taken j) :
    b'.builder.added.foldl (addView AddedRequest.minP) b'.minP.minPCpu j = 0 := by
  rw [c.same.1] at hzero ⊢
  rcases c.added_cases with hadded | ⟨x, hadded⟩
  · rw [hadded] at hzero ⊢
    rcases c.taken hj with htaken | ⟨x, hx, -⟩
    · exact h.zero hzero j htaken
    · rw [hadded] at hx
      simp at hx
  · have hbefore := h.count_nonneg
    have hx := counted_nonneg x.minP
    rw [hadded, addedMinP_append] at hzero
    rw [hadded, List.foldl_append]
    change addView AddedRequest.minP _ x j = 0
    unfold addView
    by_cases hjx : j = x.index
    · rw [hjx, Function.update_self]
      exact eq_zero_of_counted (by omega)
    · rw [update_of_ne hjx]
      refine h.zero (by omega) j ?_
      rcases c.taken hj with htaken | ⟨x', hx', hindex⟩
      · exact htaken
      · rw [hadded] at hx'
        obtain rfl : x = x' := by simpa using hx'
        exact absurd hindex.symm hjx

theorem MinPTracking.change (hapart : Apart b)
    (c : Change b active b' active') : MinPTracking b' active' := by
  have hsame := c.same.1
  refine ⟨?_, h.count_change hapart c, ?_, ?_, ?_⟩
  · rw [hsame]
    exact h.tracks.change c fun r output i params hparams => (minP_of_params hparams).symm
  · exact fun hzero j hj => h.zero_change c hzero hj
  · rw [hsame]
    exact h.held
  · rw [hsame]
    cases c with
    | remove i id a hat only ha at_iff moved builder =>
      intro hremoved
      rw [builder] at hremoved
      exact absurd hremoved (List.append_ne_nil_of_right_ne_nil _ (cons_ne_nil _ _))
    | add i r output params hparams free new nowhere at_iff moved moved' added removed =>
      intro _ _ hadded
      rw [added] at hadded
      exact absurd hadded (List.append_ne_nil_of_right_ne_nil _ (cons_ne_nil _ _))
    | move src tgt id hat free at_iff notRemoved removed added moved =>
      intro _ hmoved
      rw [moved] at hmoved
      exact absurd hmoved (List.append_ne_nil_of_right_ne_nil _ (cons_ne_nil _ _))
    | swap i1 i2 id1 id2 at1 at2 at_iff builder =>
      intro _ hmoved
      rw [builder] at hmoved
      exact absurd hmoved (List.append_ne_nil_of_right_ne_nil _ (cons_ne_nil _ _))
    | tidy at_iff removed added moved numReqs =>
      intro hremoved hmoved hadded
      rw [numReqs]
      exact h.size (List.perm_nil.mp (hremoved ▸ removed.symm)) (moved ▸ hmoved) (added ▸ hadded)

omit h

/-- **The condition on `refresh_metadata`.** If no request has been counted and one with a `min_p` has
been added, but nobody has left, every added request finds its `min_p` in its row, the moves are between
equal values, and the slice on the device is as long as the batch, then the slice is that of the values.
-/
def FreshMinP (b : InputBatch) : Prop :=
  b.minP.minPCount = 0 → b.minP.minP.length = b.numReqs → b.builder.removed = [] →
    (∃ x ∈ b.builder.added, x.minP ≠ 0) → (∀ x ∈ b.builder.added, b.minP.minPCpu x.index = x.minP) →
      (∀ m ∈ b.builder.moved, b.minP.minPCpu m.src = b.minP.minPCpu m.tgt) →
        b.minP.minP = (List.range b.numReqs).map b.minP.minPCpu

instance (b : InputBatch) : Decidable (FreshMinP b) := by
  unfold FreshMinP
  infer_instance

/-- The processor after an update, before the slice is copied. -/
structure Replayed (b : InputBatch) (p : MinPLogitsProcessor) (needsUpdate : Bool) : Prop where
  minP : p.minP = b.minP.minP
  -- the moves have been replayed, or nothing is counted
  cpu : (p.minPCpu = b.minPView ∧ p.minPCount = b.minP.minPCount + addedMinP b.builder.added -
      (b.builder.removed.map fun i => counted (b.minPView i)).sum) ∨
    (p.minPCpu = b.builder.added.foldl (addView AddedRequest.minP) b.minP.minPCpu ∧
      p.minPCount = 0 ∧ b.minP.minPCount + addedMinP b.builder.added = 0)
  quiet : needsUpdate = false → p.minPCount ≠ 0 →
    b.builder.removed = [] ∧ (∀ x ∈ b.builder.added, b.minP.minPCpu x.index = x.minP) ∧
      (∀ m ∈ b.builder.moved, b.minP.minPCpu m.src = b.minP.minPCpu m.tgt) ∧
      p.minPCpu = b.minP.minPCpu

/-- Added requests that find their values change nothing. -/
theorem foldl_addView_stored {added : List AddedRequest} {cpu : Nat → Rat}
    (h : ∀ x ∈ added, cpu x.index = x.minP) : added.foldl (addView AddedRequest.minP) cpu = cpu := by
  induction added with
  | nil => rfl
  | cons x added ih =>
    rw [foldl_cons, addView, ← h x List.mem_cons_self, update_eq_self]
    exact ih fun y hy => h y (List.mem_cons_of_mem x hy)

theorem foldl_moveView_equal {moved : List MovedRequest} {cpu : Nat → Rat}
    (h : ∀ m ∈ moved, cpu m.src = cpu m.tgt) : moved.foldl (moveView id) cpu = cpu := by
  induction moved with
  | nil => rfl
  | cons m moved ih =>
    rw [foldl_cons, MinPLogitsProcessor.moveView_of_eq (h m List.mem_cons_self)]
    exact ih fun m' hm' => h m' (List.mem_cons_of_mem m hm')

theorem replayed_replayMinP (hapart : Apart b) (n : Nat) :
    let s := b.minP.replayMinP
      { batchSize := n, removed := b.builder.removed, moved := b.builder.moved
        added := b.builder.added }
    Replayed b s.1 s.2 := by
  obtain ⟨hadd, hstored⟩ := MinPLogitsProcessor.foldl_addMinP b.builder.added (b.minP, false)
  unfold MinPLogitsProcessor.replayMinP
  dsimp only
  rw [hadd]
  split_ifs with hzero
  · obtain ⟨hmove, hequal⟩ := MinPLogitsProcessor.foldl_moveMinP b.builder.moved
      (b.builder.removed.foldl MinPLogitsProcessor.removeMinP
        { b.minP with
          minPCount := b.minP.minPCount + addedMinP b.builder.added
          minPCpu := b.builder.added.foldl (addView AddedRequest.minP) b.minP.minPCpu },
        (b.builder.added.foldl MinPLogitsProcessor.addMinP (b.minP, false)).2 ||
          !b.builder.removed.isEmpty)
    rw [MinPLogitsProcessor.foldl_removeMinP] at hmove hequal
    rw [MinPLogitsProcessor.foldl_removeMinP, hmove]
    constructor
    · rfl
    · refine .inl ⟨rfl, ?_⟩
      -- the moves do not touch the removed rows
      rw [sum_counted_congr (g := b.minPView)]
      intro i hi
      exact (foldl_moveView_of_notMem fun m hm =>
        ⟨fun heq => (hapart.moved m hm).1 (heq ▸ hi), fun heq => (hapart.moved m hm).2 (heq ▸ hi)⟩).symm
    · intro hflag _
      obtain ⟨hflag, hmoved⟩ := hequal hflag
      obtain ⟨hflag, hremoved⟩ := Bool.or_eq_false_iff.mp hflag
      have hadded := (hstored hflag).2
      rw [foldl_addView_stored hadded] at hmoved
      refine ⟨by simpa using hremoved, hadded, hmoved, ?_⟩
      rw [foldl_addView_stored hadded, foldl_moveView_equal hmoved]
  · have hzero := not_not.mp hzero
    rw [hadd]
    exact ⟨rfl, .inr ⟨rfl, hzero, hzero⟩, fun _ hne => absurd hzero hne⟩

/-- **The `min_p` after `refresh_metadata`**: the values are those of the requests, and if any is counted,
then the slice on the device is that of the values. -/
theorem MinPTracking.refresh (h : MinPTracking b active) (hp : Placed cfg b active) (hapart : Apart b)
    (hfresh : FreshMinP b) (outputs : Dict OutputRef (List TokenId)) :
    MinPTracking (b.refreshMetadata outputs) active ∧
      (∀ i id a, b.At i id → active.get? id = some a →
        (b.refreshMetadata outputs).minP.minPCpu i = a.minP) ∧
      Dict.total (fun a => counted a.minP) active ≤ (b.refreshMetadata outputs).minP.minPCount ∧
      ((b.refreshMetadata outputs).minP.minPCount ≠ 0 → (b.refreshMetadata outputs).minP.minP =
        (range b.numReqs).map (b.refreshMetadata outputs).minP.minPCpu) := by
  have hbuilder := b.refreshMetadata_builder outputs
  -- it is enough to know the processor
  suffices hall : (∀ i id a, b.At i id → active.get? id = some a →
        (b.refreshMetadata outputs).minP.minPCpu i = a.minP) ∧
      Dict.total (fun a => counted a.minP) active ≤ (b.refreshMetadata outputs).minP.minPCount ∧
      ((b.refreshMetadata outputs).minP.minPCount ≠ 0 → (b.refreshMetadata outputs).minP.minP =
        (range b.numReqs).map (b.refreshMetadata outputs).minP.minPCpu) by
    obtain ⟨hcpu, hcount, hheld⟩ := hall
    refine ⟨⟨fun i id a hat ha => ?_, ?_, fun hzero i hi => ?_, fun hne => ?_, fun _ _ _ hne => ?_⟩,
      hcpu, hcount, hheld⟩
    · rw [hbuilder, viewOf_empty]
      exact hcpu i id a hat ha
    · rw [hbuilder]
      simpa [addedMinP] using hcount
    · rw [hbuilder] at hzero
      rw [InputBatch.Taken, hbuilder] at hi
      rw [hbuilder]
      obtain ⟨id, hat⟩ := hi.resolve_right List.not_mem_nil
      obtain ⟨a, ha⟩ := hp.exists_active hat
      refine (hcpu i id a hat ha).trans (minP_of_total ha ?_)
      simp only [addedMinP, List.map_nil, List.sum_nil, add_zero] at hzero
      rwa [hzero] at hcount
    · rw [hheld hne, List.length_map, List.length_range]
    · rw [hheld hne, List.length_map, List.length_range]
      rfl
  have heq : (b.refreshMetadata outputs).minP =
      b.minP.updateState (b.builder.getAndReset b.numReqs).1 := rfl
  rcases getAndReset_cases b.builder b.numReqs with ⟨hnone, hremoved, hmoved, hadded⟩ | hsome
  · -- nothing has happened
    rw [heq, hnone]
    have htracks := h.tracks
    have hcount := h.count
    unfold Tracks viewOf at htracks
    rw [hmoved, hadded] at htracks
    rw [hremoved, hadded] at hcount
    refine ⟨htracks, ?_, fun hne => ?_⟩
    · change _ ≤ b.minP.minPCount
      simpa [addedMinP] using hcount
    change b.minP.minP = _
    rw [h.held hne, h.size hremoved hmoved hadded hne]
    rfl
  rw [heq, hsome]
  have hreplayed := replayed_replayMinP hapart b.numReqs
  unfold MinPLogitsProcessor.updateState
  dsimp only at hreplayed ⊢
  obtain ⟨s, hs⟩ : ∃ s, s = b.minP.replayMinP
    { batchSize := b.numReqs, removed := b.builder.removed, moved := b.builder.moved
      added := b.builder.added } := ⟨_, rfl⟩
  rw [← hs] at hreplayed ⊢
  have hcpu : ∀ i id a, b.At i id → active.get? id = some a → s.1.minPCpu i = a.minP :=
    fun i id a hat ha => by
      rcases hreplayed.cpu with ⟨hview, -⟩ | ⟨hview, -, hzero⟩
      · rw [hview]
        exact h.tracks i id a hat ha
      · have hcount := h.count
        have hrest := sum_counted_nonneg b.minPView b.builder.removed
        rw [hview, h.zero hzero i (.inl ⟨id, hat⟩), minP_of_total ha (by omega)]
  have hcount : Dict.total (fun a => counted a.minP) active ≤ s.1.minPCount := by
    have hcount := h.count
    have hrest := sum_counted_nonneg b.minPView b.builder.removed
    rcases hreplayed.cpu with ⟨-, hview⟩ | ⟨-, hview, hzero⟩ <;> rw [hview] <;> omega
  split_ifs with hupdate
  · exact ⟨hcpu, hcount, fun _ => rfl⟩
  · refine ⟨hcpu, hcount, fun hne => ?_⟩
    obtain ⟨hflag, hlen⟩ := not_or.mp fun hor => hupdate ⟨hne, hor⟩
    obtain ⟨hremoved, hadded, hmoved, hsame⟩ := hreplayed.quiet (Bool.not_eq_true _ ▸ hflag) hne
    have hlen := not_not.mp hlen
    rw [hreplayed.minP] at hlen ⊢
    rw [hsame]
    by_cases hzero : b.minP.minPCount = 0
    · refine hfresh hzero hlen hremoved ?_ hadded hmoved
      -- the counter has become positive, so one of the added requests has been counted
      by_contra hnone
      have hnot : ∀ x ∈ b.builder.added, x.minP = 0 := fun x hx => by
        by_contra hx'
        exact hnone ⟨x, hx, hx'⟩
      have hsum : addedMinP b.builder.added = 0 := by
        unfold addedMinP
        rw [List.map_congr_left fun x hx => by rw [hnot x hx]]
        simp [counted]
      rcases hreplayed.cpu with ⟨-, hview⟩ | ⟨-, hview, -⟩
      · rw [hremoved, hsum, hzero] at hview
        exact hne (by simpa using hview)
      · exact hne hview
    · rw [h.held hzero, hlen]

/-! ## Runs -/

/-- **What holds in every state.** -/
structure Tracking (outputs : Dict OutputRef (List TokenId)) (b : InputBatch)
    (active : Dict ReqId ActiveRequest) : Prop where
  apart : Apart b
  biases : BiasTracking b active
  minToks : MinToksTracking outputs b active
  minP : MinPTracking b active

theorem Tracking.change (h : Tracking outputs b active) (c : Change b active b' active') :
    Tracking outputs b' active' :=
  ⟨h.apart.change c, h.biases.change c, h.minToks.change c, h.minP.change h.apart c⟩

theorem Tracking.grows (h : Tracking outputs b active) (hg : Grows outputs outputs') :
    Tracking outputs' b active :=
  ⟨h.apart, h.biases, h.minToks.grows hg, h.minP⟩

theorem tracking_init (cfg : BatchConfig) :
    Tracking (inputBatch cfg).init.outputs (inputBatch cfg).init.batch
      (inputBatch cfg).init.active where
  apart := ⟨List.nodup_nil, (fun i hi => nomatch hi), fun m hm => nomatch hm⟩
  biases := by
    refine ⟨fun i id a hat => ?_, fun i hi => absurd rfl hi, fun i e he => (nomatch he), rfl⟩
    simp [inputBatch, InputBatch.new, InputBatch.At] at hat
  minToks := by
    refine ⟨fun outputs' _ i id a hat => ?_, rfl⟩
    simp [inputBatch, InputBatch.new, InputBatch.At] at hat
  minP := by
    refine ⟨fun i id a hat => ?_, le_refl (0 : Int), fun _ _ _ => rfl, fun hne => absurd rfl hne,
      fun _ _ _ hne => absurd rfl hne⟩
    simp [inputBatch, InputBatch.new, InputBatch.At] at hat

/-- What holds in every state, after `refresh_metadata`. -/
theorem Tracking.refresh (h : Tracking outputs b active) (hp : Placed cfg b active)
    (hfresh : FreshMinP b) : Tracking outputs (b.refreshMetadata outputs) active := by
  have hbuilder := b.refreshMetadata_builder outputs
  refine ⟨⟨?_, fun i hi => ?_, fun m hm => ?_⟩, h.biases.refresh hp h.apart outputs,
    (h.minToks.refresh h.apart).1, (h.minP.refresh hp h.apart hfresh outputs).1⟩
  · exact hbuilder ▸ List.nodup_nil
  · rw [hbuilder] at hi
    cases hi
  · rw [hbuilder] at hm
    cases hm

/-- **What the processors apply after `refresh_metadata`.** -/
theorem Tracking.applies (h : Tracking s.outputs s.batch s.active) (hin : InStep cfg s)
    (hphase : s.phase = .condensed) (hfresh : FreshMinP s.batch) {id : ReqId}
    (hat : s.batch.At i id) (ha : s.active.get? id = some a) :
    Applies { s with batch := s.batch.refreshMetadata s.outputs, phase := .idle } i a := by
  obtain ⟨-, hcpu, hcount, hheld⟩ := h.minP.refresh hin.placed h.apart hfresh s.outputs
  have hbiases := h.biases.refresh hin.placed h.apart s.outputs
  obtain ⟨hminToks, hblocked⟩ := h.minToks.refresh h.apart
  have hi : i < s.batch.numReqs := by
    have hcoherent := hin.placed.coherent (hin.dense hphase)
    exact hcoherent.length ▸ Placed.lt_length hat
  constructor
  · intro hne
    unfold MinPLogitsProcessor.applied
    rw [if_neg hne, hheld hne, List.getElem?_map, List.getElem?_range hi, Option.map_some,
      hcpu i id a hat ha]
  · intro hzero
    exact minP_of_total ha (hzero ▸ hcount)
  · have hentry := hbiases.tracks i id a hat ha
    rw [s.batch.refreshMetadata_builder, viewOf_empty] at hentry
    exact (applied_flatten hbiases.tensors i).trans (by rw [hentry, biasEntry_elim])
  · exact (applied_flatten hminToks.tensors i).trans (hblocked i id a hat ha)

/-- The order of the calls, and the condition on `refresh_metadata`. -/
def AdmittedFresh (cfg : BatchConfig) (s : BatchState) (op : BatchOp) : Prop :=
  Admitted cfg s op ∧ (op = .refreshMetadata → FreshMinP s.batch)

instance (cfg : BatchConfig) (s : BatchState) (op : BatchOp) :
    Decidable (AdmittedFresh cfg s op) := by
  unfold AdmittedFresh
  infer_instance

theorem tracking_of_reach (h : (inputBatch cfg).Reach (AdmittedFresh cfg) s) :
    InStep cfg s ∧ Tracking s.outputs s.batch s.active := by
  refine h.invariant (I := fun s => InStep cfg s ∧ Tracking s.outputs s.batch s.active)
    ⟨inStep_init cfg, tracking_init cfg⟩ fun s op s' hs ha hstep => ?_
  obtain ⟨hin, htracking⟩ := hs
  refine ⟨hin.next ha.1 hstep, ?_⟩
  rcases hin.changes ha.1 hstep with ⟨hchanges, houtputs⟩ | rfl | ⟨ref, tokens, rfl⟩
  · rw [houtputs]
    exact hchanges.invariant htracking fun _ _ _ _ ht hc => ht.change hc
  · cases hstep
    exact htracking.refresh hin.placed (ha.2 rfl)
  · cases hstep
    exact htracking.grows (grows_generate s ref tokens)

/-- **The logits processors track the batch**: in every run whose refreshes meet the condition, after each
`refresh_metadata` they apply to the row of a request what the request asks for. -/
theorem applies_of_reach (h : (inputBatch cfg).Reach (AdmittedFresh cfg) s)
    (ha : AdmittedFresh cfg s .refreshMetadata)
    (hstep : (inputBatch cfg).step s .refreshMetadata = .ok s') {i : Nat} {id : ReqId}
    {a : ActiveRequest} (hat : s'.batch.At i id) (hget : s'.active.get? id = some a) :
    Applies s' i a := by
  obtain ⟨hin, htracking⟩ := tracking_of_reach h
  obtain rfl := Except.ok.inj hstep
  exact htracking.applies hin ha.1 (ha.2 rfl) hat hget

theorem applies_after_a_move :
    ∃ (cfg : BatchConfig) (s s' : BatchState) (a : ActiveRequest),
      (inputBatch cfg).Reach (AdmittedFresh cfg) s ∧
        (inputBatch cfg).step s .refreshMetadata = .ok s' ∧ s'.batch.At 0 2 ∧
          s'.active.get? 2 = some a ∧ Applies s' 0 a := by
  let cfg : BatchConfig := { maxNumReqs := 2, maxModelLen := 4, vocabSize := 4, maxNumBlocksPerReq := [] }
  let request (id : ReqId) : CachedRequestState :=
    { reqId := id, promptTokenIds := [1], blockIds := [], outputTokenIds := id
      samplingParams := some
        { minP := 1 / 2, logitBias := some [(3, 1)], minTokens := 2, allStopTokenIds := [2] } }
  let run : List BatchOp :=
    [.addRequest (request 1), .addRequest (request 2), .condense, .refreshMetadata, .generate 2 [1],
      .removeRequest 1, .condense]
  obtain ⟨s, hreach, ha, hat, hsome⟩ := (inputBatch cfg).exists_reach (AdmittedFresh cfg) run
    (fun s => AdmittedFresh cfg s .refreshMetadata ∧ s.batch.reqIds[0]? = some (some 2) ∧
      (s.active.get? 2).isSome) (by decide +kernel)
  obtain ⟨a, hget⟩ := Option.isSome_iff_exists.mp hsome
  exact ⟨cfg, s, _, a, hreach, rfl, hat, hget, applies_of_reach hreach ha rfl hat hget⟩

/-- Two requests leave and nobody is counted, so the slice stays as it is, and a new request samples
with the `min_p` of one that left. -/
theorem stale_min_p :
    ∃ (cfg : BatchConfig) (s s' : BatchState) (a : ActiveRequest),
      (inputBatch cfg).Reach (Admitted cfg) s ∧ Admitted cfg s .refreshMetadata ∧
        (inputBatch cfg).step s .refreshMetadata = .ok s' ∧ s'.batch.At 0 3 ∧
          s'.active.get? 3 = some a ∧ ¬ Applies s' 0 a := by
  let cfg : BatchConfig := { maxNumReqs := 2, maxModelLen := 4, vocabSize := 4, maxNumBlocksPerReq := [] }
  let request (id : ReqId) (minP : Rat) : CachedRequestState :=
    { reqId := id, promptTokenIds := [1], blockIds := [], outputTokenIds := id
      samplingParams := some { minP } }
  let run : List BatchOp :=
    [.addRequest (request 1 (1 / 2)), .addRequest (request 2 (1 / 4)), .condense, .refreshMetadata,
      .removeRequest 1, .removeRequest 2, .condense, .refreshMetadata,
      .addRequest (request 3 0), .condense, .refreshMetadata,
      .addRequest (request 4 (1 / 4)), .condense]
  have hrun : ((inputBatch cfg).execIf (Admitted cfg) run (inputBatch cfg).init).any fun s =>
      decide (s.phase = .condensed ∧ s.batch.reqIds[0]? = some (some 3) ∧
        (s.batch.refreshMetadata s.outputs).minP.minPCount ≠ 0) &&
      (s.active.get? 3).any fun a =>
        decide ((s.batch.refreshMetadata s.outputs).minP.applied 0 ≠ some a.minP) := by
    decide +kernel
  obtain ⟨s, hs, hend⟩ := (Option.any_eq_true ..).mp hrun
  obtain ⟨hstate, hany⟩ := Bool.and_eq_true_iff.mp hend
  obtain ⟨hphase, hat, hcount⟩ := of_decide_eq_true hstate
  obtain ⟨a, hget, hne⟩ := (Option.any_eq_true ..).mp hany
  exact ⟨cfg, s, _, a, Machine.reach_execIf .start hs, hphase, rfl, hat, hget,
    fun happlies => of_decide_eq_true hne (happlies.minP hcount)⟩

end InferenceServer.PersistentBatch
