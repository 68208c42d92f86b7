import InferenceServer.SpecDecode.RejectionSampler
import Mathlib.Order.Bounds.Basic

/-!
# An accepted prefix and one token

For each request the rejection sampler returns the drafts up to the first one that is rejected, and one
token more: what replaces the rejected draft, or the bonus token. The arrays of the requests are ragged,
so that a program has to find its drafts by the running sums, and its row by the length of the longest
row. A program writes into its own row only, and each row is written by one of the two kernels.

## Main results

* `sampleRequest_ok`, `rejectionSample_ok`, `rejectionSample_acceptsPrefix`
-/

namespace InferenceServer.SpecDecode

open Outcome Ragged
open Function (update update_of_ne update_self update_eq_self)
open List (getElem?_eq_getElem getElem?_eq_none getElem?_map getElem_mem length_map map_cons mem_range range take_succ_cons)

/-! ## Requests -/

/-- A draft token, what the target model says at its place, and the outcome of the comparison. -/
structure Position where
  draft : TokenId
  targetArgmax : TokenId
  recovered : TokenId
  accepted : Bool
  deriving DecidableEq, Repr

structure SampledRequest where
  positions : List Position
  bonus : TokenId
  greedy : Bool
  deriving DecidableEq, Repr

/-- The token for a draft, and whether the draft is rejected. -/
def Position.choice (greedy : Bool) (p : Position) : TokenId × Bool :=
  if greedy then (p.targetArgmax, p.draft ≠ p.targetArgmax)
  else if p.accepted then (p.draft, false) else (p.recovered, true)

/-- The tokens for the drafts up to the first that is rejected, or all of them and the bonus token. -/
def sampledTokens (greedy : Bool) (bonus : TokenId) : List Position → List TokenId
  | [] => [bonus]
  | p :: ps =>
    if (p.choice greedy).2 then [(p.choice greedy).1]
    else (p.choice greedy).1 :: sampledTokens greedy bonus ps

namespace SampledRequest

def tokens (q : SampledRequest) : List TokenId := sampledTokens q.greedy q.bonus q.positions

def drafts (q : SampledRequest) : List TokenId := q.positions.map Position.draft

def argmaxes (q : SampledRequest) : List TokenId := q.positions.map Position.targetArgmax

/-- All token ids are in the vocabulary. -/
def Below (q : SampledRequest) (vocabSize : Nat) : Prop :=
  q.bonus < vocabSize ∧ ∀ p ∈ q.positions,
    p.draft < vocabSize ∧ p.targetArgmax < vocabSize ∧ p.recovered < vocabSize

end SampledRequest

/-- The number of drafts of each request. -/
def draftCounts (rs : List SampledRequest) : List Nat := rs.map fun q => q.positions.length

/-- The arrays for a batch of requests. -/
def RejectionInputs.ofRequests (rs : List SampledRequest) (maxSpecLen : Nat) : RejectionInputs where
  draftTokenIds := rs.flatMap fun q => q.positions.map Position.draft
  numDraftTokens := draftCounts rs
  maxSpecLen := maxSpecLen
  cuNumDraftTokens := cumsum (draftCounts rs)
  targetArgmax := rs.flatMap fun q => q.positions.map Position.targetArgmax
  accepted := rs.flatMap fun q => q.positions.map Position.accepted
  recoveredTokenIds := rs.flatMap fun q => q.positions.map Position.recovered
  bonusTokenIds := rs.map SampledRequest.bonus
  isGreedy := rs.map SampledRequest.greedy
  allGreedy := rs.all SampledRequest.greedy
  allRandom := rs.all fun q => !q.greedy

/-! ## A row -/

/-- The tokens as they are in the buffer. -/
def asInts (tokens : List TokenId) : List Int := tokens.map fun id : TokenId => (id : Int)

/-- A row into which tokens are written from a place on. -/
def overwrite (g : Nat → Int) (k : Nat) (tokens : List TokenId) : Nat → Int := fun c =>
  if k ≤ c then (tokens[c - k]?).elim (g c) fun id => (id : Int) else g c

theorem overwrite_singleton (g : Nat → Int) (k : Nat) (id : TokenId) :
    overwrite g k [id] = update g k (id : Int) := by
  funext c
  unfold overwrite
  rcases Nat.lt_trichotomy c k with hlt | rfl | hgt
  · rw [if_neg (by omega), update_of_ne (by omega)]
  · rw [if_pos le_rfl, Nat.sub_self, update_self]
    rfl
  · rw [if_pos hgt.le, update_of_ne (by omega), getElem?_eq_none (by simp; omega)]
    rfl

theorem overwrite_cons (g : Nat → Int) (k : Nat) (id : TokenId) (tokens : List TokenId) :
    overwrite (update g k (id : Int)) (k + 1) tokens = overwrite g k (id :: tokens) := by
  funext c
  unfold overwrite
  rcases Nat.lt_trichotomy c k with hlt | rfl | hgt
  · rw [if_neg (by omega), if_neg (by omega), update_of_ne (by omega)]
  · rw [if_neg (by omega), if_pos le_rfl, Nat.sub_self, update_self]
    rfl
  · rw [if_pos (by omega), if_pos hgt.le, update_of_ne (by omega),
      show c - k = c - (k + 1) + 1 by omega, List.getElem?_cons_succ]

/-- A row of placeholders into which the tokens of a request are written. -/
theorem tab_overwrite {w : Nat} {tokens : List TokenId} (h : tokens.length ≤ w) :
    tab w (overwrite (fun _ => placeholderTokenId) 0 tokens) =
      asInts tokens ++ List.replicate (w - tokens.length) placeholderTokenId := by
  unfold asInts
  refine List.ext_getElem? fun c => ?_
  by_cases hc : c < tokens.length
  · rw [getElem?_tab _ (by omega), List.getElem?_append_left (by simpa using hc), getElem?_map,
      overwrite, if_pos (Nat.zero_le c), Nat.sub_zero, getElem?_eq_getElem hc]
    rfl
  · rw [List.getElem?_append_right (by simpa using hc), length_map]
    by_cases hw : c < w
    · rw [getElem?_tab _ hw, List.getElem?_replicate_of_lt (by omega), overwrite,
        if_pos (Nat.zero_le c), Nat.sub_zero, getElem?_eq_none (by omega)]
      rfl
    · rw [getElem?_eq_none (by rw [length_tab]; omega),
        getElem?_eq_none (by rw [List.length_replicate]; omega)]

/-! ## A program -/

section Program

variable {x : RejectionInputs} {choose : Nat → Except PyError (TokenId × Bool)} {r n start k : Nat}
  {greedy : Bool} {bonus : TokenId} {ps : List Position}

theorem samplePosition_rejected (l : List Nat) (out : List Int) :
    threadM (x.samplePosition choose r start) l (out, true) = .ok (out, true) := by
  induction l with
  | nil => rfl
  | cons pos l ih => exact ih

variable (x start bonus) in
/-- The loop over the drafts from the `k`-th on, and the bonus token. -/
theorem loop_ok (hchoose : ∀ i p, ps[i]? = some p → choose (start + (k + i)) = .ok (p.choice greedy))
    (hr : r < n) (hlen : k + ps.length ≤ x.maxSpecLen) (f : Nat → Nat → Int) :
    ∃ st, threadM (x.samplePosition choose r start) (List.range' k ps.length)
        (rowBuffer n (x.maxSpecLen + 1) f, false) = .ok st ∧
      (if st.2 then .ok st.1
        else store st.1 (r * (x.maxSpecLen + 1) + (k + ps.length)) (bonus : Int)) =
      .ok (rowBuffer n (x.maxSpecLen + 1)
        (update f r (overwrite (f r) k (sampledTokens greedy bonus ps)))) := by
  induction ps generalizing k f with
  | nil =>
    refine ⟨_, rfl, ?_⟩
    rw [if_neg Bool.false_ne_true, List.length_nil, Nat.add_zero, sampledTokens,
      overwrite_singleton]
    exact store_rowBuffer hr (by omega) _
  | cons p ps ih =>
    rw [List.length_cons] at hlen
    have hchosen := hchoose 0 p rfl
    rw [Nat.add_zero] at hchosen
    have hstore := store_rowBuffer (f := f) hr (show k < x.maxSpecLen + 1 by omega)
      ((p.choice greedy).1 : Int)
    -- the first draft
    have hfirst : x.samplePosition choose r start k (rowBuffer n (x.maxSpecLen + 1) f, false) =
        .ok (rowBuffer n (x.maxSpecLen + 1)
          (update f r (update (f r) k ((p.choice greedy).1 : Int))),
          (p.choice greedy).2) := by
      unfold RejectionInputs.samplePosition
      rw [if_neg Bool.false_ne_true, bind_of_ok hchosen]
      exact bind_of_ok hstore
    rw [List.length_cons, List.range'_succ, threadM, bind_of_ok hfirst, sampledTokens]
    cases hrejected : (p.choice greedy).2 with
    | true =>
      refine ⟨_, samplePosition_rejected _ _, ?_⟩
      rw [if_pos rfl, if_pos rfl, overwrite_singleton]
    | false =>
      have hrest : ∀ i p, ps[i]? = some p → choose (start + (k + 1 + i)) = .ok (p.choice greedy) := by
        intro i p hp
        rw [show k + 1 + i = k + (i + 1) by omega]
        exact hchoose (i + 1) p hp
      obtain ⟨st, hloop, hfinal⟩ := ih hrest (by omega)
        (update f r (update (f r) k ((p.choice greedy).1 : Int)))
      refine ⟨st, hloop, ?_⟩
      rw [if_neg Bool.false_ne_true, ← overwrite_cons]
      rw [update_self, Function.update_idem] at hfinal
      rw [show k + (ps.length + 1) = k + 1 + ps.length by omega]
      exact hfinal

end Program

/-! ## The arrays of a batch -/

open RejectionInputs (ofRequests)

section Batch

variable {rs : List SampledRequest} {q : SampledRequest} {r maxSpecLen : Nat}

/-- Where the drafts of a request begin. -/
def startOf (rs : List SampledRequest) (r : Nat) : Nat := ((draftCounts rs).take r).sum

theorem startOf_succ (hq : rs[r]? = some q) :
    startOf rs (r + 1) = startOf rs r + q.positions.length := by
  have hcount : (draftCounts rs)[r]? = some q.positions.length := by
    rw [draftCounts, getElem?_map, hq]
    rfl
  obtain ⟨hlt, heq⟩ := List.getElem?_eq_some_iff.mp hcount
  rw [startOf, startOf, List.sum_take_succ _ _ hlt, heq]

/-- An element of a ragged array. -/
theorem load_flatMap {α : Type} (g : Position → α) (hq : rs[r]? = some q) {i : Nat} {p : Position}
    (hp : q.positions[i]? = some p) :
    load (rs.flatMap fun q => q.positions.map g) (startOf rs r + i) = .ok (g p) := by
  rw [load_eq_ok]
  induction rs generalizing r with
  | nil => cases hq
  | cons q' rs ih =>
    rw [List.flatMap_cons]
    cases r with
    | zero =>
      obtain rfl : q' = q := Option.some.inj hq
      have hi := (List.getElem?_eq_some_iff.mp hp).1
      rw [startOf, List.take_zero, List.sum_nil, Nat.zero_add,
        List.getElem?_append_left (by simpa using hi), getElem?_map, hp]
      rfl
    | succ r =>
      have hstart : startOf (q' :: rs) (r + 1) = q'.positions.length + startOf rs r := by
        simp only [startOf, draftCounts, map_cons, take_succ_cons, List.sum_cons]
      rw [hstart, List.getElem?_append_right (by rw [length_map]; omega), length_map,
        show q'.positions.length + startOf rs r + i - q'.positions.length = startOf rs r + i by omega]
      exact ih hq

variable (hq : rs[r]? = some q)

include hq

theorem startIdx_ok : (ofRequests rs maxSpecLen).startIdx r = .ok (startOf rs r) := by
  have hr := (List.getElem?_eq_some_iff.mp hq).1
  unfold RejectionInputs.startIdx
  split_ifs with hzero
  · rw [hzero]
    rfl
  · have hsum := getElem?_sumsFrom (l := draftCounts rs) 0 (i := r - 1)
      (by rw [draftCounts, length_map]; omega)
    rw [load_eq_ok, ofRequests, cumsum, hsum, Nat.sub_add_cancel (by omega), zero_add]
    rfl

theorem endIdx_ok :
    load (ofRequests rs maxSpecLen).cuNumDraftTokens r = .ok (startOf rs (r + 1)) := by
  have hr := (List.getElem?_eq_some_iff.mp hq).1
  have hsum := getElem?_sumsFrom (l := draftCounts rs) 0 (i := r)
    (by rw [draftCounts, length_map]; omega)
  rw [load_eq_ok, ofRequests, cumsum, hsum, zero_add]
  rfl

theorem greedyChoice_ok {i : Nat} {p : Position} (hp : q.positions[i]? = some p) :
    (ofRequests rs maxSpecLen).greedyChoice (startOf rs r + i) =
      .ok (p.choice true) :=
  (bind_of_ok (load_flatMap Position.draft hq hp)).trans
    (bind_of_ok (load_flatMap Position.targetArgmax hq hp))

theorem randomChoice_ok {i : Nat} {p : Position} (hp : q.positions[i]? = some p) :
    (ofRequests rs maxSpecLen).randomChoice (startOf rs r + i) =
      .ok (p.choice false) := by
  unfold RejectionInputs.randomChoice Position.choice
  refine (bind_of_ok (load_flatMap Position.draft hq hp)).trans
    ((bind_of_ok (load_flatMap Position.accepted hq hp)).trans ?_)
  cases p.accepted with
  | true => rfl
  | false => exact bind_of_ok (load_flatMap Position.recovered hq hp)

/-- **A program writes the tokens of its request** into its row. -/
theorem sampleRequest_ok {choose : Nat → Except PyError (TokenId × Bool)} {n : Nat}
    (hr : r < n) (hlen : q.positions.length ≤ maxSpecLen)
    (hchoose : ∀ i p, q.positions[i]? = some p →
      choose (startOf rs r + i) = .ok (p.choice q.greedy)) (f : Nat → Nat → Int) :
    (ofRequests rs maxSpecLen).sampleRequest choose r
        (rowBuffer n (maxSpecLen + 1) f) =
      .ok (rowBuffer n (maxSpecLen + 1) (update f r (overwrite (f r) 0 q.tokens))) := by
  have hcount : startOf rs (r + 1) - startOf rs r = q.positions.length := by
    rw [startOf_succ hq]
    omega
  have hbonus : load (ofRequests rs maxSpecLen).bonusTokenIds r = .ok q.bonus := by
    rw [load_eq_ok, ofRequests, getElem?_map, hq]
    rfl
  have hchoose' : ∀ i p, q.positions[i]? = some p →
      choose (startOf rs r + (0 + i)) = .ok (p.choice q.greedy) := fun i p hp => by
    rw [Nat.zero_add]
    exact hchoose i p hp
  have hlen' : 0 + q.positions.length ≤ maxSpecLen := by
    rw [Nat.zero_add]
    exact hlen
  obtain ⟨⟨out, rejected⟩, hloop, hfinal⟩ :=
    loop_ok (ofRequests rs maxSpecLen) (startOf rs r) q.bonus hchoose' hr hlen' f
  rw [← List.range_eq_range'] at hloop
  unfold RejectionInputs.sampleRequest
  rw [bind_of_ok (startIdx_ok hq), bind_of_ok (endIdx_ok hq)]
  simp only [hcount]
  refine (bind_of_ok hloop).trans ?_
  cases rejected with
  | true => exact hfinal
  | false =>
    rw [if_neg Bool.false_ne_true, Nat.zero_add] at hfinal
    exact (bind_of_ok hbonus).trans hfinal

end Batch

/-! ## The two kernels -/

section Kernels

variable {rs : List SampledRequest} {maxSpecLen : Nat} {order : List Nat}

/-- A row after the kernel for the greedy requests, or the one for the others. -/
def rowAfter (rs : List SampledRequest) (greedy : Bool) (r : Nat) (g : Nat → Int) : Nat → Int :=
  match rs[r]? with
  | some q => if q.greedy = greedy then overwrite g 0 q.tokens else g
  | none => g

theorem rowAfter_of_get {q : SampledRequest} {greedy : Bool} {r : Nat} {g : Nat → Int}
    (hq : rs[r]? = some q) :
    rowAfter rs greedy r g = if q.greedy = greedy then overwrite g 0 q.tokens else g := by
  rw [rowAfter, hq]

theorem load_isGreedy {q : SampledRequest} {r : Nat} (hq : rs[r]? = some q) :
    load (rs.map SampledRequest.greedy) r = .ok q.greedy := by
  rw [load_eq_ok, getElem?_map, hq]
  rfl

theorem greedyKernel_ok (hlen : ∀ q ∈ rs, q.positions.length ≤ maxSpecLen) {r : Nat}
    (hr : r < rs.length) (f : Nat → Nat → Int) :
    (ofRequests rs maxSpecLen).rejectionGreedySampleKernel
        (if rs.all SampledRequest.greedy then none else some (rs.map SampledRequest.greedy)) r
        (rowBuffer rs.length (maxSpecLen + 1) f) =
      .ok (rowBuffer rs.length (maxSpecLen + 1)
        (update f r (rowAfter rs true r (f r)))) := by
  have hq : rs[r]? = some rs[r] := getElem?_eq_getElem hr
  have hmem : rs[r] ∈ rs := getElem_mem hr
  have hload : ((if rs.all SampledRequest.greedy then none
      else some (rs.map SampledRequest.greedy)).elim (.ok true) fun l => load l r :
        Except PyError Bool) = .ok rs[r].greedy := by
    split_ifs with hall
    · exact congrArg Except.ok (List.all_eq_true.mp hall _ hmem).symm
    · exact load_isGreedy hq
  unfold RejectionInputs.rejectionGreedySampleKernel
  rw [bind_of_ok hload, rowAfter_of_get hq]
  split_ifs with hgreedy
  · exact sampleRequest_ok hq hr (hlen _ hmem) (fun i p hp => by
      rw [greedyChoice_ok hq hp, hgreedy]) f
  · rw [update_eq_self]
    rfl

theorem randomKernel_ok (hlen : ∀ q ∈ rs, q.positions.length ≤ maxSpecLen) {r : Nat}
    (hr : r < rs.length) (f : Nat → Nat → Int) :
    (ofRequests rs maxSpecLen).rejectionRandomSampleKernel
        (rs.map SampledRequest.greedy) r (rowBuffer rs.length (maxSpecLen + 1) f) =
      .ok (rowBuffer rs.length (maxSpecLen + 1)
        (update f r (rowAfter rs false r (f r)))) := by
  have hq : rs[r]? = some rs[r] := getElem?_eq_getElem hr
  unfold RejectionInputs.rejectionRandomSampleKernel
  rw [bind_of_ok (load_isGreedy hq), rowAfter_of_get hq]
  cases hgreedy : rs[r].greedy with
  | true =>
    rw [if_pos rfl, if_neg Bool.true_eq_false_eq_False, update_eq_self]
    rfl
  | false =>
    rw [if_neg Bool.false_ne_true, if_pos rfl]
    exact sampleRequest_ok hq hr (hlen _ (getElem_mem hr)) (fun i p hp => by
      rw [randomChoice_ok hq hp, hgreedy]) f

/-- All programs of a kernel, in some order. -/
theorem allRows {b : Bool} (horder : order.Perm (range rs.length)) (f : Nat → Nat → Int) :
    (fun r => if r ∈ order then rowAfter rs b r (f r) else f r) = fun r => rowAfter rs b r (f r) := by
  funext r
  split_ifs with hr
  · rfl
  · have hlen : rs.length ≤ r := by
      by_contra hlt
      exact hr (horder.mem_iff.mpr (mem_range.mpr (by omega)))
    rw [rowAfter, getElem?_eq_none hlen]

theorem greedyPass_ok (hlen : ∀ q ∈ rs, q.positions.length ≤ maxSpecLen)
    (horder : order.Perm (range rs.length)) (f : Nat → Nat → Int) :
    (ofRequests rs maxSpecLen).greedyPass order
        (rowBuffer rs.length (maxSpecLen + 1) f) =
      .ok (rowBuffer rs.length (maxSpecLen + 1) fun r => rowAfter rs true r (f r)) := by
  unfold RejectionInputs.greedyPass
  by_cases hrandom : (ofRequests rs maxSpecLen).allRandom = true
  · -- there are no greedy requests
    rw [if_pos hrandom]
    refine congrArg Except.ok (rowBuffer_congr fun r hr => ?_)
    have hq : rs[r]? = some rs[r] := getElem?_eq_getElem hr
    have hnot := List.all_eq_true.mp hrandom _ (getElem_mem hr)
    rw [rowAfter_of_get hq, if_neg (by simpa using hnot)]
  · rw [if_neg hrandom, ← allRows horder f]
    exact threadM_rowBuffer (fun r hr f => greedyKernel_ok hlen hr f)
      (horder.nodup_iff.mpr List.nodup_range)
      (fun r hr => mem_range.mp (horder.mem_iff.mp hr)) f

theorem randomPass_ok (hlen : ∀ q ∈ rs, q.positions.length ≤ maxSpecLen)
    (horder : order.Perm (range rs.length)) (f : Nat → Nat → Int) :
    (ofRequests rs maxSpecLen).randomPass order
        (rowBuffer rs.length (maxSpecLen + 1) f) =
      .ok (rowBuffer rs.length (maxSpecLen + 1) fun r => rowAfter rs false r (f r)) := by
  unfold RejectionInputs.randomPass
  split_ifs with hgreedy
  · -- there are only greedy requests
    refine congrArg Except.ok (rowBuffer_congr fun r hr => ?_)
    have hq : rs[r]? = some rs[r] := getElem?_eq_getElem hr
    have hall := List.all_eq_true.mp (Bool.and_eq_true_iff.mp hgreedy).1 _ (getElem_mem hr)
    rw [rowAfter_of_get hq, if_neg (by rw [hall]; exact Bool.true_eq_false_eq_False)]
  · rw [← allRows horder f]
    exact threadM_rowBuffer (fun r hr f => randomKernel_ok hlen hr f)
      (horder.nodup_iff.mpr List.nodup_range)
      (fun r hr => mem_range.mp (horder.mem_iff.mp hr)) f

end Kernels

/-! ## The rows -/

section Rows

variable {rs : List SampledRequest} {maxSpecLen vocabSize : Nat} {greedyOrder randomOrder : List Nat}

theorem length_flatMap_positions {α β : Type} (g : Position → α) (h : Position → β) :
    (rs.flatMap fun q => q.positions.map g).length = (rs.flatMap fun q => q.positions.map h).length := by
  simp only [List.length_flatMap, length_map]

/-- **All rows**: the tokens of the request, and placeholders behind them. -/
theorem rejectionSample_ok (hlen : ∀ q ∈ rs, q.positions.length ≤ maxSpecLen)
    (hgreedy : greedyOrder.Perm (range rs.length))
    (hrandom : randomOrder.Perm (range rs.length)) :
    (ofRequests rs maxSpecLen).rejectionSample greedyOrder randomOrder =
      .ok (rs.map fun q =>
        tab (maxSpecLen + 1) (overwrite (fun _ => placeholderTokenId) 0 q.tokens)) := by
  have hcount : (ofRequests rs maxSpecLen).numDraftTokens.length = rs.length :=
    length_map _
  have hshape : (ofRequests rs maxSpecLen).targetArgmax.length =
      (ofRequests rs maxSpecLen).draftTokenIds.length :=
    length_flatMap_positions Position.targetArgmax Position.draft
  refine (bind_of_ok (require_of hshape)).trans ?_
  rw [hcount, show (ofRequests rs maxSpecLen).maxSpecLen = maxSpecLen from rfl,
    replicate_eq_rowBuffer, bind_of_ok (greedyPass_ok hlen hgreedy _),
    bind_of_ok (randomPass_ok hlen hrandom _), chunks_rowBuffer (Nat.succ_pos _)]
  -- each row was written by one of the two kernels
  refine congrArg Except.ok (List.ext_getElem? fun r => ?_)
  by_cases hr : r < rs.length
  · have hq : rs[r]? = some rs[r] := getElem?_eq_getElem hr
    rw [getElem?_tab _ hr, getElem?_map, hq, rowAfter_of_get hq, rowAfter_of_get hq]
    cases rs[r].greedy <;> rfl
  · rw [getElem?_eq_none (by rw [length_tab]; omega),
      getElem?_eq_none (by rw [length_map]; omega)]

theorem length_sampledTokens_le (greedy : Bool) (bonus : TokenId) (ps : List Position) :
    (sampledTokens greedy bonus ps).length ≤ ps.length + 1 := by
  induction ps with
  | nil => exact le_rfl
  | cons p ps ih =>
    unfold sampledTokens
    split_ifs
    · simp
    · simpa using ih

/-- Every token of a request is one of the ids in its arrays. -/
theorem SampledRequest.Below.tokens_lt {q : SampledRequest} (h : q.Below vocabSize) :
    ∀ id ∈ q.tokens, id < vocabSize := by
  obtain ⟨positions, bonus, greedy⟩ := q
  obtain ⟨hbonus, hpositions⟩ := h
  change ∀ id ∈ sampledTokens greedy bonus positions, id < vocabSize
  induction positions with
  | nil =>
    rintro id hid
    rwa [List.mem_singleton.mp hid]
  | cons p ps ih =>
    obtain ⟨hp, hps⟩ := List.forall_mem_cons.mp hpositions
    have hchoice : (p.choice greedy).1 < vocabSize := by
      unfold Position.choice
      split_ifs
      · exact hp.2.1
      · exact hp.1
      · exact hp.2.2
    rintro id hid
    unfold sampledTokens at hid
    split_ifs at hid
    · rwa [List.mem_singleton.mp hid]
    · rcases List.mem_cons.mp hid with rfl | hid
      · exact hchoice
      · exact ih hbonus hps id hid

theorem parseOutput_rows (hlen : ∀ q ∈ rs, q.positions.length ≤ maxSpecLen)
    (hvocab : ∀ q ∈ rs, q.Below vocabSize) :
    parseOutput (rs.map fun q =>
      tab (maxSpecLen + 1) (overwrite (fun _ => placeholderTokenId) 0 q.tokens)) vocabSize =
      rs.map fun q => asInts q.tokens := by
  unfold parseOutput
  rw [List.map_map]
  refine List.map_congr_left fun q hq => ?_
  have hfit : q.tokens.length ≤ maxSpecLen + 1 :=
    (length_sampledTokens_le _ _ _).trans (Nat.succ_le_succ (hlen q hq))
  rw [Function.comp_apply, tab_overwrite hfit, List.filter_append]
  have htokens : (asInts q.tokens).filter
      (fun id => id ≠ placeholderTokenId ∧ id < vocabSize) = asInts q.tokens := by
    refine List.filter_eq_self.mpr fun id hid => ?_
    obtain ⟨token, htoken, rfl⟩ := List.mem_map.mp hid
    have hlt := (hvocab q hq).tokens_lt token htoken
    exact decide_eq_true ⟨by unfold placeholderTokenId; omega, by exact_mod_cast hlt⟩
  have hplaceholders : (List.replicate (maxSpecLen + 1 - q.tokens.length) placeholderTokenId).filter
      (fun id => id ≠ placeholderTokenId ∧ id < vocabSize) = [] := by
    refine List.filter_eq_nil_iff.mpr fun id hid => ?_
    rw [(List.mem_replicate.mp hid).2]
    simp
  rw [htokens, hplaceholders, List.append_nil]

end Rows

/-! ## The accepted prefix -/

/-- A row is a prefix of the drafts and one more token: the bonus token if all are accepted, and
otherwise what replaces the rejected one. For a greedy request it is the longest prefix that agrees with
the argmaxes, and for another one the drafts before the first that is not accepted. -/
def SampledRequest.AcceptsPrefix (q : SampledRequest) (row : List Int) : Prop :=
  ∃ a token, a ≤ q.drafts.length ∧ row = asInts (q.drafts.take a ++ [token]) ∧
    (a = q.drafts.length → token = q.bonus) ∧
    (∀ p, q.positions[a]? = some p → token = if q.greedy then p.targetArgmax else p.recovered) ∧
    (q.greedy = true →
      IsGreatest {m | m ≤ q.drafts.length ∧ q.drafts.take m = q.argmaxes.take m} a) ∧
    (q.greedy = false → a = (q.positions.takeWhile Position.accepted).length)

/-- A draft that is kept is the token that is stored. -/
theorem Position.choice_kept {greedy : Bool} {p : Position} (h : (p.choice greedy).2 = false) :
    (p.choice greedy).1 = p.draft := by
  unfold choice at h ⊢
  split_ifs at h ⊢ with hgreedy haccepted
  · exact (not_ne_iff.mp (of_decide_eq_false h)).symm
  · rfl

theorem Position.choice_rejected {greedy : Bool} {p : Position} (h : (p.choice greedy).2 = true) :
    (p.choice greedy).1 = if greedy then p.targetArgmax else p.recovered := by
  unfold choice at h ⊢
  split_ifs at h ⊢ with hgreedy haccepted
  · rfl
  · rfl

/-- The number of drafts before the first that is rejected. -/
def acceptedCount (greedy : Bool) (ps : List Position) : Nat :=
  (ps.takeWhile fun p => !(p.choice greedy).2).length

theorem acceptedCount_cons (greedy : Bool) (p : Position) (ps : List Position) :
    acceptedCount greedy (p :: ps) =
      if (p.choice greedy).2 then 0 else acceptedCount greedy ps + 1 := by
  unfold acceptedCount
  rw [List.takeWhile_cons]
  cases (p.choice greedy).2 <;> rfl

theorem sampledTokens_eq (greedy : Bool) (bonus : TokenId) (ps : List Position) :
    ∃ token, sampledTokens greedy bonus ps =
        (ps.map Position.draft).take (acceptedCount greedy ps) ++ [token] ∧
      (acceptedCount greedy ps = ps.length → token = bonus) ∧
      ∀ p, ps[acceptedCount greedy ps]? = some p →
        token = if greedy then p.targetArgmax else p.recovered := by
  induction ps with
  | nil => exact ⟨bonus, rfl, fun _ => rfl, (fun _ hp => nomatch hp)⟩
  | cons p ps ih =>
    rw [acceptedCount_cons]
    unfold sampledTokens
    cases hrejected : (p.choice greedy).2 with
    | true =>
      refine ⟨(p.choice greedy).1, rfl, fun h => absurd h (by simp), fun p' hp' => ?_⟩
      obtain rfl : p = p' := Option.some.inj hp'
      exact Position.choice_rejected hrejected
    | false =>
      obtain ⟨token, htokens, hbonus, hlast⟩ := ih
      refine ⟨token, ?_, fun h => hbonus (Nat.succ.inj h), fun p' hp' => hlast p' hp'⟩
      rw [if_neg Bool.false_ne_true, if_neg Bool.false_ne_true, htokens,
        Position.choice_kept hrejected]
      rfl

theorem acceptedCount_le (greedy : Bool) (ps : List Position) :
    acceptedCount greedy ps ≤ ps.length := (List.takeWhile_prefix _).length_le

/-- For a greedy request, the drafts are kept as long as they agree with the argmaxes. -/
theorem isGreatest_acceptedCount (ps : List Position) :
    IsGreatest {m | m ≤ ps.length ∧
      (ps.map Position.draft).take m = (ps.map Position.targetArgmax).take m}
      (acceptedCount true ps) := by
  induction ps with
  | nil => exact ⟨⟨le_rfl, rfl⟩, fun m hm => hm.1⟩
  | cons p ps ih =>
    rw [acceptedCount_cons]
    have hchoice : (p.choice true).2 = decide (p.draft ≠ p.targetArgmax) := rfl
    by_cases heq : p.draft = p.targetArgmax
    · rw [if_neg (by rw [hchoice]; simpa using heq)]
      constructor
      · refine ⟨Nat.succ_le_succ ih.1.1, ?_⟩
        simp only [map_cons, take_succ_cons, heq, ih.1.2]
      · rintro (_ | m) ⟨hle, htake⟩
        · exact Nat.zero_le _
        · simp only [map_cons, take_succ_cons, List.cons.injEq] at htake
          exact Nat.succ_le_succ (ih.2 ⟨Nat.le_of_succ_le_succ hle, htake.2⟩)
    · rw [if_pos (by rw [hchoice]; simpa using heq)]
      refine ⟨⟨Nat.zero_le _, rfl⟩, ?_⟩
      rintro (_ | m) ⟨-, htake⟩
      · exact le_rfl
      · simp only [map_cons, take_succ_cons, List.cons.injEq] at htake
        exact absurd htake.1 heq

theorem acceptedCount_false (ps : List Position) :
    acceptedCount false ps = (ps.takeWhile Position.accepted).length := by
  unfold acceptedCount
  congr 2
  funext p
  unfold Position.choice
  cases p.accepted <;> rfl

theorem SampledRequest.acceptsPrefix (q : SampledRequest) : q.AcceptsPrefix (asInts q.tokens) := by
  obtain ⟨token, htokens, hbonus, hlast⟩ := sampledTokens_eq q.greedy q.bonus q.positions
  have hlength : q.drafts.length = q.positions.length := length_map _
  refine ⟨acceptedCount q.greedy q.positions, token, ?_, congrArg asInts htokens, ?_, hlast, ?_, ?_⟩
  · exact hlength ▸ acceptedCount_le q.greedy q.positions
  · exact hlength ▸ hbonus
  · intro hgreedy
    rw [hgreedy, hlength]
    exact isGreatest_acceptedCount q.positions
  · intro hrandom
    rw [hrandom]
    exact acceptedCount_false q.positions

/-- **An accepted prefix and one token** for every request of a batch, in whatever order the programs of
the kernels run. -/
theorem rejectionSample_acceptsPrefix {rs : List SampledRequest} {maxSpecLen vocabSize : Nat}
    {greedyOrder randomOrder : List Nat} (hlen : ∀ q ∈ rs, q.positions.length ≤ maxSpecLen)
    (hvocab : ∀ q ∈ rs, q.Below vocabSize) (hgreedy : greedyOrder.Perm (List.range rs.length))
    (hrandom : randomOrder.Perm (List.range rs.length)) :
    ∃ rows, (RejectionInputs.ofRequests rs maxSpecLen).rejectionSample greedyOrder randomOrder =
        .ok rows ∧
      List.Forall₂ SampledRequest.AcceptsPrefix rs (parseOutput rows vocabSize) := by
  refine ⟨_, rejectionSample_ok hlen hgreedy hrandom, ?_⟩
  rw [parseOutput_rows hlen hvocab, List.forall₂_map_right_iff]
  exact List.forall₂_same.mpr fun q _ => q.acceptsPrefix

/-- A greedy request whose second draft is rejected, one without drafts, and a random one whose draft is
accepted. -/
def mixedRequests : List SampledRequest :=
  [⟨[⟨5, 5, 0, false⟩, ⟨6, 7, 0, true⟩], 9, true⟩, ⟨[], 8, true⟩, ⟨[⟨3, 1, 2, true⟩], 4, false⟩]

theorem rejectionSample_acceptsPrefix_mixed :
    ∃ rows, (RejectionInputs.ofRequests mixedRequests 2).rejectionSample [2, 0, 1] [1, 2, 0] =
        .ok rows ∧
      List.Forall₂ SampledRequest.AcceptsPrefix mixedRequests (parseOutput rows 10) :=
  rejectionSample_acceptsPrefix (by decide) (by unfold SampledRequest.Below; decide) (by decide)
    (by decide)

example : ((RejectionInputs.ofRequests mixedRequests 2).rejectionSample [2, 0, 1] [1, 2, 0]).map
    (parseOutput · 10) = .ok [[5, 7], [8], [3, 4]] := by
  decide +kernel

end InferenceServer.SpecDecode
