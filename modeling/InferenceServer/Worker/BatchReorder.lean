import Mathlib.Data.List.TakeWhile
import InferenceServer.Worker.AttentionMetadata

/-!
# Decodes first

A backend may want the requests with few tokens, its *decodes*, before the others in the batch.
`reorder_batch_to_split_decodes_and_prefills` (`vllm/v1/attention/backends/utils.py`) lists the rows of
the decodes and those of the prefills, and swaps the last decodes with the first prefills, until it
comes to a decode that is in one of the first rows already. As many decodes are behind the boundary as
prefills are before it. So the decodes it has come past are all of the former, and their partners all of
the latter.

## Main results

* `swapLoop_eq`: the loop swaps the wrong pairs
* `reorder_separates`
-/

namespace InferenceServer.PersistentBatch

open Outcome
open List (flatMap_cons getElem?_eq_getElem getElem?_set_ne mem_append mem_cons mem_cons_of_mem mem_cons_self mem_filter mem_flatMap mem_reverse of_mem_filter of_mem_zip)

/-! ## The function -/

/-- The loop over `input_batch.req_ids`: the rows of the decodes and of the prefills, from row `i`
on. -/
def classify (out : SchedulerOutput) (decodeThreshold : Int) :
    Nat → List (Option ReqId) → Except PyError (List Nat × List Nat)
  | _, [] => .ok ([], [])
  | i, reqId :: reqIds => do
    let numTokens ← numTokensOf out reqId
    let (decodes, prefills) ← classify out decodeThreshold (i + 1) reqIds
    if numTokens ≤ decodeThreshold then return (i :: decodes, prefills)
    else return (decodes, i :: prefills)

/-- The loop over `range(1, min(num_decodes, num_prefills) + 1)`. -/
def swapLoop (decodes prefills : List Nat) :
    List Nat → Bool → InputBatch → Except PyError (Bool × InputBatch)
  | [], modifiedBatch, b => .ok (modifiedBatch, b)
  | i :: is, modifiedBatch, b =>
    match decodes[decodes.length - i]?, prefills[i - 1]? with
    | some decodeIdx, some prefillIdx =>
      if decodeIdx < decodes.length then .ok (modifiedBatch, b)
      else do
        let b ← b.swapStates prefillIdx decodeIdx
        swapLoop decodes prefills is true b
    | _, _ => .error .indexError

/-- `reorder_batch_to_split_decodes_and_prefills`. -/
def reorderBatchToSplitDecodesAndPrefills (b : InputBatch) (out : SchedulerOutput)
    (decodeThreshold : Int) : Except PyError (Bool × InputBatch) := do
  let (decodes, prefills) ← classify out decodeThreshold 0 b.reqIds
  swapLoop decodes prefills (List.range' 1 (min decodes.length prefills.length)) false b

/-! ## Which rows are swapped -/

/-- The decodes behind the boundary, from the last one on, with the first prefills. -/
def wrongPairs (decodes prefills : List Nat) : List (Nat × Nat) :=
  (prefills.zip decodes.reverse).takeWhile fun p => decide (decodes.length ≤ p.2)

/-- The swaps of a list of pairs of rows. -/
def swapAll (pairs : List (Nat × Nat)) (b : InputBatch) : Except PyError InputBatch :=
  threadM (fun p b => b.swapStates p.1 p.2) pairs b

theorem swapLoop_eq (decodes prefills : List Nat) (modifiedBatch : Bool) (b : InputBatch) {k n : Nat}
    (hn : k + n = min decodes.length prefills.length) :
    swapLoop decodes prefills (List.range' (k + 1) n) modifiedBatch b =
      (swapAll (((prefills.zip decodes.reverse).drop k).takeWhile
        fun p => decide (decodes.length ≤ p.2)) b).map fun b' =>
          (modifiedBatch || decide (((prefills.zip decodes.reverse).drop k).takeWhile
            (fun p => decide (decodes.length ≤ p.2)) ≠ []), b') := by
  induction n generalizing k modifiedBatch b with
  | zero =>
    have hnil : (prefills.zip decodes.reverse).drop k = [] := by
      refine List.drop_eq_nil_of_le ?_
      rw [List.length_zip, List.length_reverse]
      omega
    simp [hnil, swapLoop, swapAll, Except.map]
  | succ n ih =>
    have hk : k < (prefills.zip decodes.reverse).length := by
      rw [List.length_zip, List.length_reverse]
      omega
    have hdecode : decodes[decodes.length - (k + 1)]? = some (prefills.zip decodes.reverse)[k].2 := by
      rw [List.getElem_zip, List.getElem_reverse, Nat.sub_add_eq, Nat.sub_right_comm,
        getElem?_eq_getElem (by omega)]
    have hprefill : prefills[k + 1 - 1]? = some (prefills.zip decodes.reverse)[k].1 := by
      rw [List.getElem_zip, getElem?_eq_getElem (by omega)]
      rfl
    rw [List.range'_succ, swapLoop, hdecode, hprefill, List.drop_eq_getElem_cons hk]
    dsimp only
    by_cases hlt : (prefills.zip decodes.reverse)[k].2 < decodes.length
    · rw [if_pos hlt, List.takeWhile_cons_of_neg (by simpa using hlt)]
      simp [swapAll, threadM, Except.map]
    · rw [if_neg hlt, List.takeWhile_cons_of_pos (by simpa using hlt), swapAll, threadM]
      simp only [ne_eq, reduceCtorEq, not_false_eq_true, decide_true, Bool.or_true]
      cases b.swapStates (prefills.zip decodes.reverse)[k].1 (prefills.zip decodes.reverse)[k].2 with
      | error e => rfl
      | ok b' =>
        change swapLoop decodes prefills (List.range' (k + 1 + 1) n) true b' = _
        rw [ih true b' (by omega)]
        simp only [Bool.true_or]
        rfl

/-! ## The rows of the decodes and of the prefills -/

section Rows

variable {α : Type} {q : α → Bool} {l : List α}

/-- The rows, from `i` on, whose entry satisfies the predicate. -/
def rowsWhere (q : α → Bool) (i : Nat) (l : List α) : List Nat :=
  ((l.zipIdx i).filter fun p => q p.1).map Prod.snd

theorem rowsWhere_cons (q : α → Bool) (i : Nat) (a : α) (l : List α) :
    rowsWhere q i (a :: l) =
      if q a then i :: rowsWhere q (i + 1) l else rowsWhere q (i + 1) l := by
  rw [rowsWhere, List.zipIdx_cons, List.filter_cons]
  split <;> rfl

theorem length_rowsWhere (q : α → Bool) (i : Nat) (l : List α) :
    (rowsWhere q i l).length = (l.filter q).length := by
  induction l generalizing i with
  | nil => rfl
  | cons a l ih => rw [rowsWhere_cons, List.filter_cons]; split <;> simp [ih]

theorem mem_rowsWhere {j : Nat} : j ∈ rowsWhere q 0 l ↔ ∃ a, l[j]? = some a ∧ q a = true := by
  simp only [rowsWhere, List.mem_map, mem_filter, Prod.exists, exists_eq_right,
    List.mk_mem_zipIdx_iff_getElem?]

theorem sorted_rowsWhere (q : α → Bool) (i : Nat) (l : List α) :
    (rowsWhere q i l).Pairwise (· < ·) := by
  have hsub : (rowsWhere q i l).Sublist ((l.zipIdx i).map Prod.snd) := List.filter_sublist.map _
  rw [List.zipIdx_map_snd] at hsub
  exact (List.pairwise_lt_range' (s := i) (n := l.length)).sublist hsub

theorem lt_of_mem_rowsWhere {j : Nat} (hj : j ∈ rowsWhere q 0 l) : j < l.length := by
  obtain ⟨a, ha, -⟩ := mem_rowsWhere.mp hj
  exact (List.getElem?_eq_some_iff.mp ha).1

/-- A sorted list is what is below a bound and what is not. -/
theorem eq_below_append_above {rows : List Nat} (h : rows.Pairwise (· < ·)) (w : Nat) :
    rows = rows.filter (fun j => decide (j < w)) ++ rows.filter (fun j => decide (w ≤ j)) := by
  induction rows with
  | nil => rfl
  | cons x rows ih =>
    have htail := List.pairwise_cons.mp h
    by_cases hx : x < w
    · rw [List.filter_cons_of_pos (by simpa using hx),
        List.filter_cons_of_neg (by simpa using hx), List.cons_append, ← ih htail.2]
    · -- nothing after `x` is below the bound
      have hall : ∀ j ∈ x :: rows, w ≤ j := by
        intro j hj
        rcases mem_cons.mp hj with rfl | hj
        · omega
        · have := htail.1 j hj
          omega
      rw [List.filter_eq_nil_iff.mpr fun j hj => by simpa using hall j hj,
        List.filter_eq_self.mpr fun j hj => by simpa using hall j hj, List.nil_append]

/-- **As many rows are behind the boundary as rows of the others are before it.** The boundary is the
number of the former. -/
theorem length_behind_eq (q : α → Bool) (l : List α) :
    ((rowsWhere q 0 l).filter fun j => decide ((rowsWhere q 0 l).length ≤ j)).length =
      ((rowsWhere (fun a => !q a) 0 l).filter
        fun j => decide (j < (rowsWhere q 0 l).length)).length := by
  have hle : (rowsWhere q 0 l).length ≤ l.length := by
    rw [length_rowsWhere]
    exact List.length_filter_le q l
  generalize hw : (rowsWhere q 0 l).length = w at *
  -- the rows before the boundary, of both kinds
  have hperm : ((rowsWhere q 0 l).filter (fun j => decide (j < w)) ++
      (rowsWhere (fun a => !q a) 0 l).filter fun j => decide (j < w)).Perm (List.range w) := by
    refine (List.perm_ext_iff_of_nodup (List.nodup_append.mpr ⟨?_, ?_, ?_⟩) List.nodup_range).mpr ?_
    · exact ((sorted_rowsWhere q 0 l).imp fun h => h.ne).filter _
    · exact ((sorted_rowsWhere _ 0 l).imp fun h => h.ne).filter _
    · intro i hi j hj hij
      obtain ⟨a, ha, hqa⟩ := mem_rowsWhere.mp (List.mem_of_mem_filter hi)
      obtain ⟨a', ha', hqa'⟩ := mem_rowsWhere.mp (List.mem_of_mem_filter hj)
      obtain rfl := Option.some.inj ((hij ▸ ha).symm.trans ha')
      simp [hqa] at hqa'
    · intro j
      simp only [mem_append, mem_filter, mem_rowsWhere, decide_eq_true_eq, List.mem_range]
      refine ⟨fun h => h.elim (·.2) (·.2), fun hj => ?_⟩
      have hlt := hj.trans_le hle
      have hat := getElem?_eq_getElem hlt
      by_cases hq : q l[j] = true
      · exact .inl ⟨⟨_, hat, hq⟩, hj⟩
      · exact .inr ⟨⟨_, hat, by simpa using hq⟩, hj⟩
  have hbefore := hperm.length_eq
  have hsplit := congrArg List.length (eq_below_append_above (sorted_rowsWhere q 0 l) w)
  rw [List.length_append, List.length_range] at hbefore
  rw [List.length_append, hw] at hsplit
  omega

end Rows

/-- The pairs that the loop swaps: the prefills before the boundary with the decodes behind it. -/
theorem wrongPairs_eq (q : ReqId → Bool) (ids : List ReqId) :
    wrongPairs (rowsWhere q 0 ids) (rowsWhere (fun id => !q id) 0 ids) =
      ((rowsWhere (fun id => !q id) 0 ids).filter
        fun j => decide (j < (rowsWhere q 0 ids).length)).zip
      ((rowsWhere q 0 ids).filter fun j => decide ((rowsWhere q 0 ids).length ≤ j)).reverse := by
  have hlength := length_behind_eq q ids
  have hsorted := sorted_rowsWhere q 0 ids
  have hsorted' := sorted_rowsWhere (fun id => !q id) 0 ids
  generalize rowsWhere q 0 ids = decodes at *
  generalize rowsWhere (fun id => !q id) 0 ids = prefills at *
  have hdecodes := eq_below_append_above hsorted decodes.length
  have hprefills := eq_below_append_above hsorted' decodes.length
  generalize hw : decodes.length = w at *
  rw [wrongPairs, hw]
  conv_lhs => rw [hdecodes, hprefills, List.reverse_append]
  rw [List.zip_append (by simpa using hlength.symm), List.takeWhile_append_of_pos]
  · rw [List.append_right_eq_self, List.takeWhile_eq_nil_iff]
    intro hpos
    have hmem := (of_mem_zip (List.getElem_mem hpos)).2
    have := of_mem_filter (mem_reverse.mp hmem)
    simpa using this
  · intro p hp
    have hmem := mem_reverse.mp (of_mem_zip hp).2
    simpa using of_mem_filter hmem

/-! ## What the swaps do -/

variable {b : InputBatch} {ids : List ReqId} {out : SchedulerOutput} {t : Int}

/-- The request counts as a decode. -/
def isDecode (out : SchedulerOutput) (t : Int) (id : ReqId) : Bool := decide (tokensOf out id ≤ t)

theorem classify_ok (hscheduled : ∀ id ∈ ids, id ∈ out.numScheduledTokens) (i : Nat) :
    classify out t i (ids.map some) =
      .ok (rowsWhere (isDecode out t) i ids, rowsWhere (fun id => !isDecode out t id) i ids) := by
  induction ids generalizing i with
  | nil => rfl
  | cons id ids ih =>
    obtain ⟨n, hn⟩ := Dict.mem_iff_get?.mp (hscheduled id mem_cons_self)
    have hid : numTokensOf out (some id) = .ok (tokensOf out id) := by
      simp only [numTokensOf, hn, tokensOf, Dict.getD_of_get? hn]
    rw [List.map_cons, classify, bind_of_ok hid,
      bind_of_ok (ih (fun id' h => hscheduled id' (mem_cons_of_mem _ h)) (i + 1)),
      rowsWhere_cons, rowsWhere_cons]
    by_cases ht : tokensOf out id ≤ t <;> simp [isDecode, ht] <;> rfl

theorem InputBatch.Lists.swapStates (h : b.Lists ids) {i j : Nat} (hi : i < ids.length)
    (hj : j < ids.length) :
    ∃ b', b.swapStates i j = .ok b' ∧ b'.Lists ((ids.set i ids[j]).set j ids[i]) := by
  have hat : ∀ {k : Nat} (hk : k < ids.length), b.reqIds[k]? = some (some ids[k]) := by
    intro k hk
    rw [h.reqIds, List.getElem?_map, getElem?_eq_getElem hk]
    rfl
  have hindex : ∀ {k : Nat} (hk : k < ids.length), b.reqIdToIndex.get? ids[k] = some k := fun hk =>
    (h.inverse _ _).mpr (getElem?_eq_getElem hk)
  have hok : ∃ b', b.swapStates i j = .ok b' := by
    unfold InputBatch.swapStates
    rw [hat hi, hat hj]
    dsimp only
    rw [hindex hi, hindex hj]
    exact ⟨_, rfl⟩
  obtain ⟨b', hb'⟩ := hok
  obtain ⟨id1, id2, hs⟩ := InputBatch.swapStates_swaps hb'
  obtain rfl : ids[i] = id1 := Option.some.inj (Option.some.inj ((hat hi).symm.trans hs.at1))
  obtain rfl : ids[j] = id2 := Option.some.inj (Option.some.inj ((hat hj).symm.trans hs.at2))
  obtain ⟨x1, x2, hx1, hx2, hset⟩ := hs.index
  obtain rfl : i = x1 := Option.some.inj ((hindex hi).symm.trans hx1)
  obtain rfl : j = x2 := Option.some.inj ((hindex hj).symm.trans hx2)
  have hnodup : ((ids.set i ids[j]).set j ids[i]).Nodup :=
    (List.set_set_perm hi hj).nodup_iff.mpr h.nodup
  refine ⟨b', hb', ?_, hnodup, fun id k => ?_⟩
  · rw [hs.reqIds, h.reqIds, List.map_set, List.map_set]
  · -- a request of the new list is in one row
    have hone : ∀ {k' : Nat} {id : ReqId}, ((ids.set i ids[j]).set j ids[i])[k']? = some id →
        (k' = k ↔ ((ids.set i ids[j]).set j ids[i])[k]? = some id) := by
      intro k' id hk'
      obtain ⟨hlt, rfl⟩ := List.getElem?_eq_some_iff.mp hk'
      refine ⟨fun heq => heq ▸ hk', fun hk => ?_⟩
      obtain ⟨hlt', heq⟩ := List.getElem?_eq_some_iff.mp hk
      exact (hnodup.getElem_inj_iff.mp heq).symm
    have hnewi : ((ids.set i ids[j]).set j ids[i])[i]? = some ids[j] := by
      rw [List.getElem?_set, List.length_set]
      by_cases hji : j = i
      · subst hji
        rw [if_pos rfl, if_pos hj]
      · rw [if_neg hji, List.getElem?_set_self hi]
    have hnewj : ((ids.set i ids[j]).set j ids[i])[j]? = some ids[i] :=
      List.getElem?_set_self (by simpa using hj)
    rw [hset, Dict.get?_set, Dict.get?_set]
    by_cases hidj : id = ids[j]
    · rw [if_pos hidj, hidj, Option.some.injEq]
      exact hone hnewi
    · rw [if_neg hidj]
      by_cases hidi : id = ids[i]
      · rw [if_pos hidi, hidi, Option.some.injEq]
        exact hone hnewj
      · rw [if_neg hidi, h.inverse]
        by_cases hkj : k = j
        · subst hkj
          rw [hnewj, getElem?_eq_getElem hj]
          exact iff_of_false (fun heq => hidj (Option.some.inj heq).symm)
            fun heq => hidi (Option.some.inj heq).symm
        · by_cases hki : k = i
          · subst hki
            rw [hnewi, getElem?_eq_getElem hi]
            exact iff_of_false (fun heq => hidi (Option.some.inj heq).symm)
              fun heq => hidj (Option.some.inj heq).symm
          · rw [getElem?_set_ne (Ne.symm hkj), getElem?_set_ne (Ne.symm hki)]

/-- **What swaps of different rows do**: the two rows of each pair are exchanged, and nothing else
changes. -/
theorem swapAll_ok {pairs : List (Nat × Nat)} (h : b.Lists ids)
    (hlt : ∀ p ∈ pairs, p.1 < ids.length ∧ p.2 < ids.length)
    (hrows : (pairs.flatMap fun p => [p.1, p.2]).Nodup) :
    ∃ b' ids', swapAll pairs b = .ok b' ∧ b'.Lists ids' ∧ ids'.Perm ids ∧
      (∀ i, i ∉ (pairs.flatMap fun p => [p.1, p.2]) → ids'[i]? = ids[i]?) ∧
      ∀ p ∈ pairs, ids'[p.1]? = ids[p.2]? ∧ ids'[p.2]? = ids[p.1]? := by
  induction pairs generalizing b ids with
  | nil => exact ⟨b, ids, rfl, h, .refl _, fun _ _ => rfl, fun _ hp => nomatch hp⟩
  | cons p pairs ih =>
    obtain ⟨i, j⟩ := p
    obtain ⟨hi, hj⟩ := hlt _ mem_cons_self
    obtain ⟨b₁, hb₁, h₁⟩ := h.swapStates hi hj
    rw [flatMap_cons] at hrows
    obtain ⟨hij, hrest, hdisj⟩ := List.nodup_append.mp hrows
    have hne : i ≠ j := by simpa using hij
    have hlen : ((ids.set i ids[j]).set j ids[i]).length = ids.length := by simp
    obtain ⟨b', ids', hb', h', hperm, hsame, hswapped⟩ := ih h₁
      (fun p hp => hlen.symm ▸ hlt p (mem_cons_of_mem _ hp)) hrest
    have hout : ∀ k, k ≠ i → k ≠ j → ((ids.set i ids[j]).set j ids[i])[k]? = ids[k]? := by
      intro k hki hkj
      rw [getElem?_set_ne hkj.symm, getElem?_set_ne hki.symm]
    have hnot : ∀ k ∈ pairs.flatMap (fun p => [p.1, p.2]), k ≠ i ∧ k ≠ j := fun k hk =>
      ⟨fun heq => hdisj i (by simp) k hk heq.symm, fun heq => hdisj j (by simp) k hk heq.symm⟩
    refine ⟨b', ids', ?_, h', hperm.trans (List.set_set_perm hi hj), fun k hk => ?_, fun p hp => ?_⟩
    · rw [swapAll, threadM, bind_of_ok hb₁]
      exact hb'
    · rw [flatMap_cons, mem_append, not_or] at hk
      obtain ⟨hki, hkj⟩ : k ≠ i ∧ k ≠ j := by simpa using hk.1
      rw [hsame k hk.2, hout k hki hkj]
    · rcases mem_cons.mp hp with rfl | hp
      · -- the rows of the first pair are in no other pair
        have hii : i ∉ pairs.flatMap fun p => [p.1, p.2] := fun hmem => (hnot i hmem).1 rfl
        have hjj : j ∉ pairs.flatMap fun p => [p.1, p.2] := fun hmem => (hnot j hmem).2 rfl
        rw [hsame i hii, hsame j hjj, getElem?_set_ne hne.symm, List.getElem?_set_self hi,
          List.getElem?_set_self (by simpa using hj), getElem?_eq_getElem hi,
          getElem?_eq_getElem hj]
        exact ⟨rfl, rfl⟩
      · have h1 := hnot p.1 (mem_flatMap.mpr ⟨p, hp, by simp⟩)
        have h2 := hnot p.2 (mem_flatMap.mpr ⟨p, hp, by simp⟩)
        rw [(hswapped p hp).1, (hswapped p hp).2, hout _ h1.1 h1.2, hout _ h2.1 h2.2]
        exact ⟨rfl, rfl⟩

/-! ## The reordered batch -/

/-- A list whose first `w` entries are those that satisfy a predicate. -/
theorem eq_filter_append_filter {α : Type} {q : α → Bool} {l : List α} {w : Nat}
    (h : ∀ i a, l[i]? = some a → (q a = true ↔ i < w)) :
    l = l.filter q ++ l.filter fun a => !q a := by
  have htake : ∀ a ∈ l.take w, q a = true := by
    intro a ha
    obtain ⟨i, hi⟩ := List.mem_iff_getElem?.mp ha
    rw [List.getElem?_take] at hi
    split at hi
    next hlt => exact (h i a hi).mpr hlt
    next => cases hi
  have hdrop : ∀ a ∈ l.drop w, ¬ q a = true := by
    intro a ha
    obtain ⟨i, hi⟩ := List.mem_iff_getElem?.mp ha
    rw [List.getElem?_drop] at hi
    exact fun hq => absurd ((h _ a hi).mp hq) (by omega)
  have hyes : l.filter q = l.take w := by
    conv_lhs => rw [← List.take_append_drop w l, List.filter_append]
    rw [List.filter_eq_self.mpr htake, List.filter_eq_nil_iff.mpr hdrop, List.append_nil]
  have hno : l.filter (fun a => !q a) = l.drop w := by
    conv_lhs => rw [← List.take_append_drop w l, List.filter_append]
    have hall : (l.drop w).filter (fun a => !q a) = l.drop w :=
      List.filter_eq_self.mpr fun a ha => by simpa using hdrop a ha
    rw [hall, List.filter_eq_nil_iff.mpr fun a ha => by simpa using htake a ha, List.nil_append]
  rw [hyes, hno, List.take_append_drop]

theorem mem_rows_zip {rows rows' : List Nat} (hlength : rows.length = rows'.length) {i : Nat}
    (hi : i ∈ rows ∨ i ∈ rows') : i ∈ (rows.zip rows').flatMap fun p => [p.1, p.2] := by
  induction rows generalizing rows' with
  | nil => cases rows' with
    | nil => simp at hi
    | cons => cases hlength
  | cons j rows ih =>
    cases rows' with
    | nil => cases hlength
    | cons j' rows' =>
      have hih := @ih rows' (Nat.succ.inj hlength)
      simp only [mem_cons] at hi
      simp only [List.zip_cons_cons, flatMap_cons, mem_append, mem_cons,
        List.not_mem_nil, or_false]
      tauto

/-- The rows of two lists without a common row, paired. -/
theorem nodup_rows_zip {rows rows' : List Nat} (hrows : rows.Nodup) (hrows' : rows'.Nodup)
    (hdisj : ∀ i ∈ rows, i ∉ rows') : ((rows.zip rows').flatMap fun p => [p.1, p.2]).Nodup := by
  induction rows generalizing rows' with
  | nil => simp
  | cons i rows ih =>
    cases rows' with
    | nil => simp
    | cons j rows' =>
      obtain ⟨hi, hrows⟩ := List.nodup_cons.mp hrows
      obtain ⟨hj, hrows'⟩ := List.nodup_cons.mp hrows'
      have hmem : ∀ k ∈ (rows.zip rows').flatMap fun p => [p.1, p.2], k ∈ rows ∨ k ∈ rows' := by
        intro k hk
        obtain ⟨p, hp, hk⟩ := mem_flatMap.mp hk
        obtain ⟨h1, h2⟩ := of_mem_zip hp
        rcases mem_cons.mp hk with rfl | hk
        · exact .inl h1
        · exact .inr ((List.mem_singleton.mp hk) ▸ h2)
      rw [List.zip_cons_cons, flatMap_cons, List.nodup_append]
      refine ⟨?_, ih hrows hrows' fun k hk hk' =>
        hdisj k (mem_cons_of_mem _ hk) (mem_cons_of_mem _ hk'), fun k hk k' hk' heq => ?_⟩
      · have hij : i ≠ j := fun heq => hdisj i mem_cons_self (heq ▸ mem_cons_self)
        simpa using hij
      · subst heq
        have hkij : k = i ∨ k = j := by simpa using hk
        rcases hkij with rfl | rfl <;> rcases hmem _ hk' with hk' | hk'
        · exact hi hk'
        · exact hdisj k mem_cons_self (mem_cons_of_mem _ hk')
        · exact hdisj k (mem_cons_of_mem _ hk') mem_cons_self
        · exact hj hk'

/-- The rows of the wrong pairs are all different. -/
theorem nodup_wrongPairs (q : ReqId → Bool) (ids : List ReqId) :
    ((wrongPairs (rowsWhere q 0 ids) (rowsWhere (fun id => !q id) 0 ids)).flatMap
      fun p => [p.1, p.2]).Nodup := by
  rw [wrongPairs_eq]
  refine nodup_rows_zip (((sorted_rowsWhere _ 0 ids).imp fun h => h.ne).filter _)
    (List.nodup_reverse.mpr (((sorted_rowsWhere q 0 ids).imp fun h => h.ne).filter _)) fun i hi hi' => ?_
  have hlt := of_mem_filter hi
  have hle := of_mem_filter (mem_reverse.mp hi')
  simp only [decide_eq_true_eq] at hlt hle
  omega

/-- **The rows after the swaps**: the decodes are in the first ones. -/
theorem isDecode_iff_lt {q : ReqId → Bool} {ids' : List ReqId}
    (hsame : ∀ i, i ∉ ((wrongPairs (rowsWhere q 0 ids) (rowsWhere (fun id => !q id) 0 ids)).flatMap
      fun p => [p.1, p.2]) → ids'[i]? = ids[i]?)
    (hswapped : ∀ p ∈ wrongPairs (rowsWhere q 0 ids) (rowsWhere (fun id => !q id) 0 ids),
      ids'[p.1]? = ids[p.2]? ∧ ids'[p.2]? = ids[p.1]?)
    (i : Nat) (id : ReqId) (hid : ids'[i]? = some id) :
    q id = true ↔ i < (rowsWhere q 0 ids).length := by
  have hlength := length_behind_eq q ids
  rw [wrongPairs_eq] at hsame hswapped
  by_cases hmem : i ∈ (((rowsWhere (fun id => !q id) 0 ids).filter
        fun j => decide (j < (rowsWhere q 0 ids).length)).zip
      ((rowsWhere q 0 ids).filter fun j => decide ((rowsWhere q 0 ids).length ≤ j)).reverse).flatMap
        fun p => [p.1, p.2]
  · -- the request comes from the other row of a pair
    obtain ⟨p, hp, hip⟩ := mem_flatMap.mp hmem
    obtain ⟨h1, h2⟩ := of_mem_zip hp
    obtain ⟨hprefill, hlt⟩ := mem_filter.mp h1
    obtain ⟨hdecode, hle⟩ := mem_filter.mp (mem_reverse.mp h2)
    obtain ⟨id1, hid1, hq1⟩ := mem_rowsWhere.mp hprefill
    obtain ⟨id2, hid2, hq2⟩ := mem_rowsWhere.mp hdecode
    simp only [decide_eq_true_eq] at hlt hle
    have hip' : i = p.1 ∨ i = p.2 := by simpa using hip
    rcases hip' with rfl | rfl
    · obtain rfl := Option.some.inj (((hswapped p hp).1.symm.trans hid).symm.trans hid2)
      exact iff_of_true hq2 hlt
    · obtain rfl := Option.some.inj (((hswapped p hp).2.symm.trans hid).symm.trans hid1)
      exact iff_of_false (by simpa using hq1) (by omega)
  · -- the request has stayed: else its row would be in a pair
    have hstay := (hsame i hmem).symm.trans hid
    have hnot : ∀ {j : Nat}, _ → j ≠ i := fun hj heq =>
      hmem (heq ▸ mem_rows_zip (by rw [List.length_reverse, hlength]) hj)
    constructor
    · intro hq
      by_contra hge
      exact hnot (.inr (mem_reverse.mpr (mem_filter.mpr
        ⟨mem_rowsWhere.mpr ⟨id, hstay, hq⟩, by simpa using hge⟩))) rfl
    · intro hlt
      by_contra hq
      exact hnot (.inl (mem_filter.mpr ⟨mem_rowsWhere.mpr ⟨id, hstay, by simpa using hq⟩,
        by simpa using hlt⟩)) rfl

theorem InputBatch.Lists.refreshMetadata (h : b.Lists ids) (outputs : Dict OutputRef (List TokenId)) :
    (b.refreshMetadata outputs).Lists ids := ⟨h.reqIds, h.nodup, h.inverse⟩

/-- The reordering is the swaps of the wrong pairs. -/
theorem reorder_eq (h : b.Lists ids) (hscheduled : ∀ id ∈ ids, id ∈ out.numScheduledTokens) :
    reorderBatchToSplitDecodesAndPrefills b out t =
      let pairs := wrongPairs (rowsWhere (isDecode out t) 0 ids)
        (rowsWhere (fun id => !isDecode out t id) 0 ids)
      (swapAll pairs b).map fun b' => (decide (pairs ≠ []), b') := by
  rw [reorderBatchToSplitDecodesAndPrefills, h.reqIds, bind_of_ok (classify_ok hscheduled 0)]
  exact swapLoop_eq _ _ false b (Nat.zero_add _)

/-- **The reordered batch.** Its requests are the same, the decodes before the others; no row is in two
of the swaps; and the boundary in its metadata is the true one. -/
theorem reorder_separates (h : b.Lists ids) (hscheduled : ∀ id ∈ ids, id ∈ out.numScheduledTokens)
    (t : Int) :
    ∃ modified b' decodes prefills swaps,
      reorderBatchToSplitDecodesAndPrefills b out t = .ok (modified, b') ∧
      b'.Lists (decodes ++ prefills) ∧ (decodes ++ prefills).Perm ids ∧
      (∀ id ∈ decodes, tokensOf out id ≤ t) ∧ (∀ id ∈ prefills, t < tokensOf out id) ∧
      swapAll swaps b = .ok b' ∧ (swaps.flatMap fun p => [p.1, p.2]).Nodup ∧
      (modified = true ↔ swaps ≠ []) ∧
      (0 < out.totalNumScheduledTokens →
        out.totalNumScheduledTokens = (ids.map (tokensOf out)).sum →
        ∀ outputs group slotMapping, ∃ m,
          prepareAttnMetadata (b'.refreshMetadata outputs) out group slotMapping = .ok m ∧
          splitDecodesAndPrefills m t =
            .ok ((ids.filter fun id => tokensOf out id ≤ t).length,
              (ids.filter fun id => t < tokensOf out id).length,
              ((ids.filter fun id => tokensOf out id ≤ t).map (tokensOf out)).sum,
              ((ids.filter fun id => t < tokensOf out id).map (tokensOf out)).sum)) := by
  have hlt : ∀ p ∈ wrongPairs (rowsWhere (isDecode out t) 0 ids)
      (rowsWhere (fun id => !isDecode out t id) 0 ids), p.1 < ids.length ∧ p.2 < ids.length := by
    intro p hp
    obtain ⟨h1, h2⟩ := List.of_mem_zip (List.takeWhile_subset _ hp)
    exact ⟨lt_of_mem_rowsWhere h1, lt_of_mem_rowsWhere (List.mem_reverse.mp h2)⟩
  obtain ⟨b', ids', hb', hlists, hperm, hsame, hswapped⟩ := swapAll_ok h hlt (nodup_wrongPairs _ ids)
  have hsplit : ids' = ids'.filter (isDecode out t) ++ ids'.filter fun id => !isDecode out t id :=
    eq_filter_append_filter (isDecode_iff_lt hsame hswapped)
  have hyes : (ids'.filter (isDecode out t)).Perm (ids.filter fun id => tokensOf out id ≤ t) :=
    hperm.filter _
  have hno : (ids'.filter fun id => !isDecode out t id).Perm
      (ids.filter fun id => t < tokensOf out id) := by
    have hfun : (fun id => !isDecode out t id) = fun id => decide (t < tokensOf out id) := by
      funext id
      rw [isDecode, ← decide_not, decide_eq_decide, not_le]
    exact hfun ▸ hperm.filter _
  have hdecode : ∀ id ∈ ids'.filter (isDecode out t), tokensOf out id ≤ t := by
    intro id hid
    have hq := List.of_mem_filter hid
    simpa [isDecode] using hq
  have hprefill : ∀ id ∈ ids'.filter (fun id => !isDecode out t id), t < tokensOf out id := by
    intro id hid
    have hq := List.of_mem_filter hid
    simpa [isDecode] using hq
  refine ⟨_, b', ids'.filter (isDecode out t), ids'.filter fun id => !isDecode out t id, _, ?_,
    hsplit ▸ hlists, hsplit ▸ hperm, hdecode, hprefill, hb', nodup_wrongPairs _ ids,
    decide_eq_true_iff, fun hpos htotal outputs group slotMapping => ?_⟩
  · rw [reorder_eq h hscheduled]
    dsimp only
    rw [hb']
    rfl
  · have hsum : out.totalNumScheduledTokens = (ids'.map (tokensOf out)).sum :=
      htotal.trans (hperm.map _).sum_eq.symm
    obtain ⟨m, hm, hdescribes⟩ := prepareAttnMetadata_ok (hlists.refreshMetadata outputs)
      (fun id hid => hscheduled id (hperm.mem_iff.mp hid)) hsum hpos group slotMapping
    refine ⟨m, hm, ?_⟩
    rw [hsplit, List.map_append] at hdescribes
    rw [splitDecodesAndPrefills_ok hdescribes (List.forall_mem_map.mpr hdecode)
      (List.forall_mem_map.mpr hprefill), List.length_map, List.length_map, hyes.length_eq,
      hno.length_eq, (hyes.map _).sum_eq, (hno.map _).sum_eq]

end InferenceServer.PersistentBatch
