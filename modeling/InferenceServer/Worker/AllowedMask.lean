import InferenceServer.Worker.BatchRows

/-!
# The masks of allowed tokens

The tensor with the masks of all rows is made for the first request with allowed tokens, and from then
on it is applied to every row. Three operations keep it up: `add_request` writes the row of a request
with allowed tokens, `remove_request` clears the row, and `condense` copies a row.

Two operations do not. `swap_states` swaps the rows through views, so both rows have the mask of the
second one afterwards. And `condense` leaves the mask in the row from which a request has moved;
`add_request` does not touch the row of a request without allowed tokens, which then has the mask of the
one that was there before. Where neither matters, the masks are those of the requests.

## Main results

* `Masked.swapStates_iff`, `masked_addRequest_iff`, `masked_of_reach`
-/

namespace InferenceServer.PersistentBatch

open Outcome
open Function (update update_of_ne update_self)

/-- The mask that a request asks for: `False` exactly on its allowed tokens if it has any, and all
`False` otherwise. -/
def CachedRequestState.ownMask (cfg : BatchConfig) (r : CachedRequestState) : List Bool :=
  (List.range cfg.vocabSize).map fun t =>
    match r.samplingParams.bind SamplingParams.allowed with
    | some allowed => decide (t ∉ allowed)
    | none => false

/-- The mask of a row. Without a tensor there is none. -/
def InputBatch.maskRow (b : InputBatch) (cfg : BatchConfig) (i : Nat) : List Bool :=
  match b.allowedTokenIdsMask with
  | some mask => mask i
  | none => noMask cfg

/-- Every active request has its mask. -/
def Masked (cfg : BatchConfig) (b : InputBatch) (active : Dict ReqId ActiveRequest) : Prop :=
  ∀ i id a, b.At i id → active.get? id = some a → b.maskRow cfg i = a.state.ownMask cfg

/-- **The condition on a call**: rows are swapped if they have the same mask, and a request without
allowed tokens is added into a row whose mask is all `False`. -/
def KeepsMask (cfg : BatchConfig) (s : BatchState) : BatchOp → Prop
  | .swapStates i1 i2 => s.batch.maskRow cfg i1 = s.batch.maskRow cfg i2
  | .addRequest r =>
    r.samplingParams.bind SamplingParams.allowed = none →
      s.batch.maskRow cfg s.batch.getNextAddIndex.1 = noMask cfg
  | _ => True

instance (cfg : BatchConfig) (s : BatchState) (op : BatchOp) : Decidable (KeepsMask cfg s op) := by
  refine op.casesOn ?_ ?_ ?_ ?_ ?_ ?_ <;> intros <;> unfold KeepsMask <;> infer_instance

variable {cfg : BatchConfig} {b b' : InputBatch} {active : Dict ReqId ActiveRequest} {i : Nat}
  {id : ReqId} {r : CachedRequestState} {output : List TokenId}

/-! ## The mask of a request -/

theorem CachedRequestState.ownMask_of_none (h : r.samplingParams.bind SamplingParams.allowed = none) :
    r.ownMask cfg = noMask cfg := by
  unfold CachedRequestState.ownMask noMask
  rw [h, List.map_const', List.length_range]

/-- Clearing one token after the other. -/
theorem foldl_set_false (allowed : List TokenId) (mask : List Bool) :
    (allowed.foldl (fun mask t => mask.set t false) mask).length = mask.length ∧
      ∀ t, (allowed.foldl (fun mask t => mask.set t false) mask)[t]? =
        if t ∈ allowed then mask[t]?.map fun _ => false else mask[t]? := by
  induction allowed generalizing mask with
  | nil => exact ⟨rfl, fun t => by rw [if_neg List.not_mem_nil]; rfl⟩
  | cons x allowed ih =>
    obtain ⟨hlen, hget⟩ := ih (mask.set x false)
    refine ⟨hlen.trans List.length_set, fun t => (hget t).trans ?_⟩
    rw [List.getElem?_set]
    by_cases hx : x = t
    · subst hx
      by_cases hlt : x < mask.length
      · simp [hlt]
      · simp [hlt]
    · rw [if_neg hx]
      by_cases ht : t ∈ allowed
      · rw [if_pos ht, if_pos (List.mem_cons_of_mem x ht)]
      · rw [if_neg ht, if_neg (by simp [ht, Ne.symm hx])]

/-- The mask that `add_request` writes. -/
theorem allowedMask_eq {allowed : List TokenId} {mask : List Bool}
    (h : r.samplingParams.bind SamplingParams.allowed = some allowed)
    (hm : allowedMask cfg allowed = .ok mask) : mask = r.ownMask cfg := by
  obtain ⟨_, -, hm⟩ := bind_eq_ok.mp hm
  cases hm
  obtain ⟨hlen, hget⟩ := foldl_set_false allowed (List.replicate cfg.vocabSize true)
  refine List.ext_getElem? fun t => ?_
  rw [hget, CachedRequestState.ownMask, h, List.getElem?_replicate, List.getElem?_map]
  by_cases ht : t < cfg.vocabSize
  · rw [if_pos ht, List.getElem?_range ht]
    by_cases hmem : t ∈ allowed <;> simp [hmem]
  · rw [if_neg ht, List.getElem?_eq_none (by rw [List.length_range]; omega)]
    simp

/-! ## The operations -/

/-- The masks are those of the requests, whatever else changes. -/
theorem Masked.congr (h : Masked cfg b active) (hat : ∀ i id, b'.At i id → b.At i id)
    (hmask : b'.allowedTokenIdsMask = b.allowedTokenIdsMask) : Masked cfg b' active := by
  intro i id a hi ha
  rw [InputBatch.maskRow, hmask]
  exact h i id a (hat i id hi) ha

theorem InputBatch.maskRow_of_map {f : (Nat → List Bool) → Nat → List Bool}
    (hmask : b'.allowedTokenIdsMask = b.allowedTokenIdsMask.map f) {i : Nat}
    (hf : f (fun _ => noMask cfg) i = noMask cfg) :
    b'.maskRow cfg i = f (b.maskRow cfg) i := by
  unfold InputBatch.maskRow
  rw [hmask]
  cases b.allowedTokenIdsMask with
  | none => exact hf.symm
  | some mask => rfl

/-- The row of a removed request is cleared. -/
theorem Masked.removeRequest (h : Masked cfg b active) (hp : Placed cfg b active)
    (hr : b.removeRequest cfg id = .ok b') : Masked cfg b' (active.erase id) := by
  intro j id' a hj ha
  have hne : id' ≠ id := fun heq => by
    rw [heq, Dict.get?_erase_self] at ha
    cases ha
  rw [Dict.get?_erase_ne hne] at ha
  rcases InputBatch.removeRequest_cases hr with ⟨-, rfl⟩ | ⟨i, builder, lora, hget, -, -, rfl⟩
  · exact h j id' a hj ha
  have hji : j ≠ i := by
    rintro rfl
    have hnone : (b.reqIds.set j none)[j]? = some (some id') := hj
    rw [List.getElem?_set_self (Placed.lt_length ((hp.inverse id j).mp hget))] at hnone
    cases Option.some.inj hnone
  have hold : b.At j id' := by
    have hset : (b.reqIds.set i none)[j]? = some (some id') := hj
    rwa [List.getElem?_set_ne (Ne.symm hji)] at hset
  rw [InputBatch.maskRow_of_map (f := fun mask => update mask i (noMask cfg)) rfl
    (by rw [update_of_ne hji]), update_of_ne hji]
  exact h j id' a hold ha

/-- The masks after an added request: its row is written if it has allowed tokens. -/
theorem InputBatch.Adds.maskRow {i : Nat} (ha : b.Adds cfg r output i b') (j : Nat) :
    b'.maskRow cfg j =
      if j = i ∧ r.samplingParams.bind SamplingParams.allowed ≠ none then r.ownMask cfg
      else b.maskRow cfg j := by
  obtain ⟨b₁, hb₁, b₂, hadd, hb'⟩ := ha.mask
  unfold InputBatch.maskRow
  rw [hb', ← hb₁]
  unfold InputBatch.addMask at hadd
  split at hadd
  next hnone =>
    cases hadd
    rw [if_neg fun hc => hc.2 hnone]
  next allowed hallowed =>
    obtain ⟨mask, hmask, hadd⟩ := bind_eq_ok.mp hadd
    cases hadd
    obtain rfl := allowedMask_eq hallowed hmask
    dsimp only
    by_cases hj : j = i
    · subst hj
      rw [update_self, if_pos ⟨rfl, by rw [hallowed]; exact Option.some_ne_none _⟩]
    · rw [update_of_ne hj, if_neg fun hc => hj hc.1]
      cases b₁.allowedTokenIdsMask <;> rfl

variable (h : Masked cfg b active)

include h

/-- **An added request** has its mask exactly if it has allowed tokens or its row has no mask. -/
theorem masked_addRequest_iff {i : Nat} (hp : Placed cfg b active)
    (ha : b.Adds cfg r output i b') (hfree : b.Free i) (hnew : r.reqId ∉ active) :
    Masked cfg b' (active.set r.reqId ⟨r, output⟩) ↔
      (r.samplingParams.bind SamplingParams.allowed = none → b.maskRow cfg i = noMask cfg) := by
  have hAt : b'.At i r.reqId := by
    rw [InputBatch.At, ha.reqIds, if_pos rfl]
  constructor
  · intro hm hnone
    have hrow := hm i r.reqId _ hAt (Dict.get?_set_self ..)
    rwa [ha.maskRow, if_neg fun hc => hc.2 hnone, CachedRequestState.ownMask_of_none hnone] at hrow
  · intro hrow j id a hj hget
    rw [ha.maskRow]
    rw [InputBatch.At, ha.reqIds] at hj
    by_cases hji : j = i
    · subst hji
      rw [if_pos rfl] at hj
      obtain rfl := Option.some.inj (Option.some.inj hj)
      rw [Dict.get?_set_self] at hget
      cases hget
      by_cases hnone : r.samplingParams.bind SamplingParams.allowed = none
      · rw [if_neg fun hc => hc.2 hnone, hrow hnone]
        exact (CachedRequestState.ownMask_of_none hnone).symm
      · rw [if_pos ⟨rfl, hnone⟩]
    · rw [if_neg hji] at hj
      have hid : id ≠ r.reqId := fun heq =>
        hnew ((hp.keys _).mpr (Dict.mem_of_get? ((hp.inverse _ j).mpr (heq ▸ hj))))
      rw [if_neg fun hc => hji hc.1]
      exact h j id a hj (by rwa [Dict.get?_set_ne hid] at hget)

/-- A request that moves down takes its mask with it. -/
theorem Masked.turn {src tgt : Nat} (ht : b.Turn cfg active src tgt b') : Masked cfg b' active := by
  obtain ⟨moved, u', -, hm⟩ := ht.moves
  have hne : src ≠ tgt := fun heq => ht.free moved (heq ▸ hm.atSrc)
  intro j id a hj ha
  obtain ⟨-, hj⟩ := (hm.at_iff ht.lt hne j id).mp hj
  by_cases hjt : j = tgt
  · rw [if_pos hjt] at hj
    subst hj hjt
    rw [InputBatch.maskRow_of_map (f := fun mask => update mask j (mask src)) hm.mask
      (by rw [update_self]), update_self]
    exact h src id a hm.atSrc ha
  · rw [if_neg hjt] at hj
    rw [InputBatch.maskRow_of_map (f := fun mask => update mask tgt (mask src)) hm.mask
      (by rw [update_of_ne hjt]), update_of_ne hjt]
    exact h j id a hj ha

theorem Masked.turns (ht : InputBatch.Turns cfg active b b') : Masked cfg b' active := by
  induction ht with
  | refl => exact h
  | tail _ hturn ih =>
    obtain ⟨src, tgt, hturn⟩ := hturn
    exact ih.turn hturn

theorem Masked.condense (hp : Placed cfg b active) (hh : Holes b)
    (hs : b.builder.SortedIf) (hr : b.condense = .ok b') : Masked cfg b' active := by
  obtain ⟨b₁, hturns, heq, hat, -, -⟩ := condense_spec hp hh hs hr
  have h₀ : Masked cfg { b with builder := b.builder.ensureRemovedSorted } active :=
    h.congr (fun _ _ hat => hat) rfl
  exact (h₀.turns hturns).congr (fun i id => (hat i id).mp) (by rw [heq])

omit h

variable {i1 i2 : Nat} {id1 id2 : ReqId}

/-- The masks after a swap: both rows have that of the second one. -/
theorem InputBatch.Swaps.maskRow (hs : b.Swaps i1 i2 id1 id2 b') (j : Nat) :
    b'.maskRow cfg j = if j = i1 then b.maskRow cfg i2 else b.maskRow cfg j := by
  unfold InputBatch.maskRow
  rw [hs.mask]
  cases b.allowedTokenIdsMask with
  | none => exact (ite_self _).symm
  | some mask =>
    change InputBatch.swapViews mask i1 i2 j = _
    unfold InputBatch.swapViews
    rw [update_self]
    by_cases h1 : j = i1
    · subst h1
      rw [if_pos rfl]
      by_cases h2 : j = i2
      · rw [h2, update_self]
      · rw [update_of_ne h2, update_self]
    · rw [if_neg h1]
      by_cases h2 : j = i2
      · rw [h2, update_self]
      · rw [update_of_ne h2, update_of_ne h1]

/-- **Swapped requests** have their masks exactly if the masks are the same. -/
theorem Masked.swapStates_iff (h : Masked cfg b active) (hp : Placed cfg b active)
    (hs : b.Swaps i1 i2 id1 id2 b') :
    Masked cfg b' active ↔ b.maskRow cfg i1 = b.maskRow cfg i2 := by
  obtain ⟨a1, ha1⟩ := hp.exists_active hs.at1
  obtain ⟨a2, ha2⟩ := hp.exists_active hs.at2
  have h1 := h i1 id1 a1 hs.at1 ha1
  have h2 := h i2 id2 a2 hs.at2 ha2
  constructor
  · intro hm
    -- the first request is in the second row now, with the mask of the second one
    have hrow := hm i2 id1 a1 ((hs.at_iff i2 id1).mpr (by rw [if_pos rfl])) ha1
    rw [hs.maskRow] at hrow
    by_cases heq : i2 = i1
    · rw [heq]
    · rw [if_neg heq] at hrow
      rw [h1, hrow]
  · intro heq j id a hj ha
    rw [hs.at_iff] at hj
    rw [hs.maskRow]
    by_cases hj2 : j = i2
    · rw [if_pos hj2] at hj
      subst hj hj2
      obtain rfl := Option.some.inj (ha1.symm.trans ha)
      rw [ite_self, ← heq, h1]
    · rw [if_neg hj2] at hj
      by_cases hj1 : j = i1
      · rw [if_pos hj1] at hj ⊢
        subst hj
        obtain rfl := Option.some.inj (ha2.symm.trans ha)
        exact h2
      · rw [if_neg hj1] at hj ⊢
        exact h j id a hj ha

/-! ## Runs -/

theorem Masked.next {s s' : BatchState} {op : BatchOp} (h : Masked cfg s.batch s.active)
    (hin : InStep cfg s) (ha : Admitted cfg s op) (hk : KeepsMask cfg s op)
    (hstep : (inputBatch cfg).step s op = .ok s') : Masked cfg s'.batch s'.active := by
  cases op with
  | removeRequest id =>
    obtain ⟨b', hr, hstep⟩ := bind_eq_ok.mp hstep
    cases hstep
    exact h.removeRequest hin.placed hr
  | addRequest r =>
    obtain ⟨b', hr, hstep⟩ := bind_eq_ok.mp hstep
    cases hstep
    have hadds := InputBatch.addRequest_adds hr
    have hfree := hin.placed.free_nextAddIndex (hin.holes ha.1) hin.sorted
    exact (masked_addRequest_iff h hin.placed hadds hfree ha.2.1).mpr hk
  | condense =>
    obtain ⟨b', hr, hstep⟩ := bind_eq_ok.mp hstep
    cases hstep
    exact h.condense hin.placed (hin.holes ha) hin.sorted hr
  | swapStates i1 i2 =>
    obtain ⟨b', hr, hstep⟩ := bind_eq_ok.mp hstep
    cases hstep
    obtain ⟨id1, id2, hs⟩ := InputBatch.swapStates_swaps hr
    exact (h.swapStates_iff hin.placed hs).mpr hk
  | refreshMetadata =>
    cases hstep
    exact h.congr (fun _ _ hat => hat) rfl
  | generate ref tokens =>
    cases hstep
    exact h

/-- **The masks follow their requests** in every run whose calls meet the condition. -/
theorem masked_of_reach {s : BatchState}
    (h : (inputBatch cfg).Reach (fun s op => Admitted cfg s op ∧ KeepsMask cfg s op) s) :
    Masked cfg s.batch s.active := by
  have hinit : Masked cfg (inputBatch cfg).init.batch (inputBatch cfg).init.active := by
    intro i id a hi
    simp [InputBatch.At, inputBatch, InputBatch.new] at hi
  have hboth : InStep cfg s ∧ Masked cfg s.batch s.active :=
    h.invariant (I := fun s => InStep cfg s ∧ Masked cfg s.batch s.active)
      ⟨inStep_init cfg, hinit⟩ fun _ _ _ hs ha hstep =>
        ⟨hs.1.next ha.1 hstep, hs.2.next hs.1 ha.1 ha.2 hstep⟩
  exact hboth.2

theorem masked_after_a_move :
    ∃ (cfg : BatchConfig) (s : BatchState),
      (inputBatch cfg).Reach (fun s op => Admitted cfg s op ∧ KeepsMask cfg s op) s ∧
        s.batch.reqIds = [some 2] ∧ s.batch.maskRow cfg 0 = [false, true] ∧
        Masked cfg s.batch s.active := by
  let cfg : BatchConfig := { maxNumReqs := 2, maxModelLen := 4, vocabSize := 2, maxNumBlocksPerReq := [] }
  let request (id : ReqId) (allowed : Option (List TokenId)) : CachedRequestState :=
    { reqId := id, promptTokenIds := [1], samplingParams := some { allowedTokenIds := allowed }
      blockIds := [], outputTokenIds := id }
  let run : List BatchOp :=
    [.addRequest (request 1 none), .addRequest (request 2 (some [0])), .condense, .refreshMetadata,
      .removeRequest 1, .condense]
  obtain ⟨s, hreach, hreqIds, hrow⟩ := (inputBatch cfg).exists_reach
    (fun s op => Admitted cfg s op ∧ KeepsMask cfg s op) run
    (fun s => s.batch.reqIds = [some 2] ∧ s.batch.maskRow cfg 0 = [false, true]) (by decide +kernel)
  exact ⟨cfg, s, hreach, hreqIds, hrow, masked_of_reach hreach⟩

/-- An active request in a row with another mask. -/
def Mismatched (cfg : BatchConfig) (s : BatchState) (i : Nat) (id : ReqId) : Bool :=
  decide (s.phase = .condensed ∧ s.batch.reqIds[i]? = some (some id)) &&
    (s.active.get? id).any fun a => decide (s.batch.maskRow cfg i ≠ a.state.ownMask cfg)

theorem not_masked_of_mismatched {s : BatchState} (h : Mismatched cfg s i id) :
    s.phase = .condensed ∧ ¬ Masked cfg s.batch s.active := by
  obtain ⟨hat, hany⟩ := Bool.and_eq_true_iff.mp h
  obtain ⟨hphase, hat⟩ := of_decide_eq_true hat
  obtain ⟨a, ha, hne⟩ := (Option.any_eq_true ..).mp hany
  exact ⟨hphase, fun hm => of_decide_eq_true hne (hm i id a hat ha)⟩

/-- `swap_states`. -/
def BatchOp.isSwap : BatchOp → Bool
  | .swapStates _ _ => true
  | _ => false

/-- A swap gives the first request the mask of the second one; and a request added into the row from
which another one has moved gets its mask. -/
theorem masks_of_other_requests :
    ∃ cfg : BatchConfig,
      (∃ s, (inputBatch cfg).Reach (Admitted cfg) s ∧ s.phase = .condensed ∧
        ¬ Masked cfg s.batch s.active) ∧
      ∃ s, (inputBatch cfg).Reach (fun s op => Admitted cfg s op ∧ op.isSwap = false) s ∧
        s.phase = .condensed ∧ ¬ Masked cfg s.batch s.active := by
  let cfg : BatchConfig := { maxNumReqs := 2, maxModelLen := 4, vocabSize := 2, maxNumBlocksPerReq := [] }
  let request (id : ReqId) (allowed : Option (List TokenId)) : CachedRequestState :=
    { reqId := id, promptTokenIds := [1], samplingParams := some { allowedTokenIds := allowed }
      blockIds := [], outputTokenIds := id }
  let start : List BatchOp := [.addRequest (request 1 none), .addRequest (request 2 (some [0])), .condense]
  let swapped := start ++ [.swapStates 0 1]
  let stale := start ++
    [.refreshMetadata, .removeRequest 1, .condense, .refreshMetadata, .addRequest (request 3 none),
      .condense]
  have hswapped : ((inputBatch cfg).execIf (Admitted cfg) swapped (inputBatch cfg).init).any fun s =>
      Mismatched cfg s 1 1 := by decide +kernel
  have hstale : ((inputBatch cfg).execIf (fun s op => Admitted cfg s op ∧ op.isSwap = false) stale
      (inputBatch cfg).init).any fun s => Mismatched cfg s 1 3 := by decide +kernel
  obtain ⟨s, hs, hm⟩ := (Option.any_eq_true ..).mp hswapped
  obtain ⟨s', hs', hm'⟩ := (Option.any_eq_true ..).mp hstale
  exact ⟨cfg, ⟨s, Machine.reach_execIf .start hs, not_masked_of_mismatched hm⟩,
    ⟨s', Machine.reach_execIf .start hs', not_masked_of_mismatched hm'⟩⟩


end InferenceServer.PersistentBatch
