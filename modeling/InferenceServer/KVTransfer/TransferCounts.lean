import InferenceServer.KVTransfer.MultiConnector
import InferenceServer.Lib.CountDown
import InferenceServer.Lib.Outcome

/-!
# The two countdowns of a transfer

`get_finished` of a worker and `KVOutputAggregator.aggregate` are both countdowns: the one counts the
connectors that have saved a request, the other the workers. They differ in where a counter starts. A
request that is not in `extra_async_saves` needs one more report; one that is not in the dictionaries of
the aggregator needs a report from every worker.

What a step does to a request is then read off from how often it is reported.
-/

namespace InferenceServer.KVTransfer

open Outcome
open List (finRange foldl_cons map_cons nodup_nil)
open Finset (card_univ univ)

/-! ## The connectors of a worker -/

/-- How many reports of a request are left, by its entry of `extra_async_saves`. -/
def savesLeft (extra : Option Nat) : Nat := extra.elim 1 (· + 1)

/-- The entry of `extra_async_saves` if `left` reports are left. -/
def extraFor (left : Nat) : Option Nat := if 1 < left then some (left - 1) else none

@[simp] theorem savesLeft_none : savesLeft none = 1 := rfl

@[simp] theorem savesLeft_some (e : Nat) : savesLeft (some e) = e + 1 := rfl

theorem savesLeft_extraFor (left : Nat) : savesLeft (extraFor left) = max 1 left := by
  unfold extraFor
  split_ifs with h
  · simp only [savesLeft_some]
    omega
  · simp only [savesLeft_none]
    omega

theorem extraFor_of_le {left : Nat} (h : left ≤ 1) : extraFor left = none := by
  rw [extraFor, if_neg (by omega)]

theorem extraFor_ne_zero (left : Nat) : extraFor left ≠ some 0 := by
  unfold extraFor
  split_ifs with h
  · simp only [ne_eq, Option.some.injEq]
    omega
  · exact (Option.some_ne_none 0).symm

/-- An entry that is not zero is known by the number of reports that are left. -/
theorem eq_extraFor {extra : Option Nat} (h : extra ≠ some 0) : extra = extraFor (savesLeft extra) := by
  cases extra with
  | none => rfl
  | some e =>
    have he : e ≠ 0 := fun he => h (by rw [he])
    rw [savesLeft_some, extraFor, if_pos (by omega), Nat.add_sub_cancel]

namespace MultiConnector

/-- No entry of `extra_async_saves` is zero. -/
def Positive (m : MultiConnector) : Prop := ∀ id, m.extraAsyncSaves.get? id ≠ some 0

/-- The countdown over the connectors. -/
def countDown (p : FinishedTransfers × MultiConnector) : CountDown ReqId where
  left id := savesLeft (p.2.extraAsyncSaves.get? id)
  finished := p.1.sending

variable {p : FinishedTransfers × MultiConnector}

/-- **A reported save is a tick.** -/
theorem finishSave_eq (hp : p.2.Positive) (id : ReqId) :
    ∃ p', finishSave p id = .ok p' ∧ p'.2.Positive ∧ p'.1.recving = p.1.recving ∧
      countDown p' = (countDown p).tick 1 id := by
  unfold finishSave
  cases he : p.2.extraAsyncSaves.get? id with
  | none =>
    have hleft : (countDown p).left id = 1 := by simp [countDown, he]
    refine ⟨_, rfl, hp, rfl, ?_⟩
    rw [CountDown.tick, if_pos (by omega), Function.update_eq_self_iff.mpr hleft.symm]
    rfl
  | some e =>
    have h₀ : e ≠ 0 := fun h => hp id (by rw [he, h])
    have hleft : (countDown p).left id = e + 1 := by simp [countDown, he]
    dsimp only
    have htick : (countDown p).tick 1 id = { countDown p with
        left := Function.update (countDown p).left id ((countDown p).left id - 1) } :=
      if_neg (by omega)
    rw [if_neg h₀, htick]
    by_cases h₁ : e = 1
    · -- the entry is deleted: one report is left
      rw [if_pos h₁]
      refine ⟨_, rfl, fun j => ?_, rfl, ?_⟩
      · rw [Dict.get?_erase]
        split_ifs
        · exact (Option.some_ne_none 0).symm
        · exact hp j
      · simp only [countDown, CountDown.mk.injEq, and_true]
        funext j
        rw [Dict.get?_erase, Function.update_apply]
        split_ifs with hj
        · simp [he, h₁]
        · rfl
    · rw [if_neg h₁]
      refine ⟨_, rfl, fun j => ?_, rfl, ?_⟩
      · rw [Dict.get?_set]
        split_ifs
        · simp only [ne_eq, Option.some.injEq]
          omega
        · exact hp j
      · simp only [countDown, CountDown.mk.injEq, and_true]
        funext j
        rw [Dict.get?_set, Function.update_apply]
        split_ifs with hj
        · simp only [savesLeft_some, he]
          omega
        · rfl

theorem foldlM_finishSave (hp : p.2.Positive) (ids : List ReqId) :
    ∃ p', ids.foldlM finishSave p = .ok p' ∧ p'.2.Positive ∧ p'.1.recving = p.1.recving ∧
      countDown p' = (countDown p).ticks 1 ids := by
  induction ids generalizing p with
  | nil => exact ⟨p, rfl, hp, rfl, rfl⟩
  | cons id ids ih =>
    obtain ⟨q, hq, hqp, hqr, hqc⟩ := finishSave_eq hp id
    obtain ⟨r, hr, hrp, hrr, hrc⟩ := ih hqp
    refine ⟨r, ?_, hrp, hrr.trans hqr, ?_⟩
    · rw [List.foldlM_cons, hq]
      exact hr
    · rw [hrc, hqc, CountDown.ticks_cons]

theorem mem_foldl_insert {l s : List ReqId} {id : ReqId} :
    id ∈ l.foldl (fun s id => s.insert id) s ↔ id ∈ l ∨ id ∈ s := by
  induction l generalizing s with
  | nil => simp
  | cons j l ih =>
    rw [foldl_cons, ih, List.mem_insert_iff, List.mem_cons]
    tauto

theorem nodup_foldl_insert {l s : List ReqId} (h : s.Nodup) :
    (l.foldl (fun s id => s.insert id) s).Nodup := by
  induction l generalizing s with
  | nil => exact h
  | cons j l ih => exact ih h.insert

/-- **The reports of all connectors are ticks**, in the order of the connectors. -/
theorem foldlM_collect (hp : p.2.Positive)
    (hn : p.1.recving.Nodup) (reports : List TransferReport) :
    ∃ p', reports.foldlM collect p = .ok p' ∧ p'.2.Positive ∧ p'.1.recving.Nodup ∧
      (∀ id, id ∈ p'.1.recving ↔ id ∈ p.1.recving ∨ ∃ r ∈ reports, id ∈ r.recving) ∧
      countDown p' = (countDown p).ticks 1 (reports.map TransferReport.sending).flatten := by
  induction reports generalizing p with
  | nil => exact ⟨p, rfl, hp, hn, by simp, rfl⟩
  | cons r reports ih =>
    obtain ⟨q, hq, hqp, hqr, hqn, hqc⟩ : ∃ q, collect p r = .ok q ∧ q.2.Positive ∧
        (∀ id, id ∈ q.1.recving ↔ id ∈ r.recving ∨ id ∈ p.1.recving) ∧ q.1.recving.Nodup ∧
        countDown q = (countDown p).ticks 1 r.sending := by
      unfold collect
      split_ifs with hr
      · exact ⟨p, rfl, hp, by simp [hr.1], hn, by simp [hr.2]⟩
      · obtain ⟨q, hq, hqp, hqr, hqc⟩ := foldlM_finishSave
          (p := ({ p.1 with recving := r.recving.foldl (fun s id => s.insert id) p.1.recving }, p.2))
          hp r.sending
        refine ⟨q, hq, hqp, fun id => ?_, ?_, hqc⟩
        · rw [hqr]
          exact mem_foldl_insert
        · rw [hqr]
          exact nodup_foldl_insert hn
    obtain ⟨t, ht, htp, htn, htr, htc⟩ := ih hqp hqn
    refine ⟨t, ?_, htp, htn, fun id => ?_, ?_⟩
    · rw [List.foldlM_cons, hq]
      exact ht
    · rw [htr, hqr, List.exists_mem_cons_iff]
      tauto
    · rw [htc, hqc, map_cons, List.flatten_cons, CountDown.ticks_append]

/-- **What a worker reports.** A request is reported with the report of its last connector. -/
theorem getFinished_eq {m : MultiConnector} (hm : m.Positive) (reports : List TransferReport)
    (hle : ∀ id, (reports.map TransferReport.sending).flatten.count id ≤
      savesLeft (m.extraAsyncSaves.get? id)) :
    ∃ p, m.getFinished reports = .ok p ∧ p.1.sending.Nodup ∧ p.1.recving.Nodup ∧
      (∀ id, id ∈ p.1.recving ↔ ∃ r ∈ reports, id ∈ r.recving) ∧
      (∀ id, id ∈ p.1.sending ↔
        0 < (reports.map TransferReport.sending).flatten.count id ∧
          (reports.map TransferReport.sending).flatten.count id =
            savesLeft (m.extraAsyncSaves.get? id)) ∧
      ∀ id, p.2.extraAsyncSaves.get? id = extraFor
        (savesLeft (m.extraAsyncSaves.get? id) -
          (reports.map TransferReport.sending).flatten.count id) := by
  obtain ⟨p, hp, hpos, hn, hr, hc⟩ := foldlM_collect (p := ({}, m)) hm nodup_nil reports
  have hleft : ∀ id, (savesLeft (p.2.extraAsyncSaves.get? id) : Int) =
      ((countDown ({}, m)).ticks 1 (reports.map TransferReport.sending).flatten).left id :=
    fun id => congrArg (fun c => CountDown.left c id) hc
  have hsent : p.1.sending =
      ((countDown ({}, m)).ticks 1 (reports.map TransferReport.sending).flatten).finished :=
    congrArg CountDown.finished hc
  refine ⟨p, hp, hsent ▸ CountDown.nodup_finished_ticks nodup_nil, hn,
    fun id => by simp [hr], fun id => ?_, fun id => ?_⟩
  · rw [hsent]
    rcases Nat.lt_or_eq_of_le (hle id) with hlt | heq
    · rw [(CountDown.ticks_of_lt (c := countDown ({}, m)) (Int.ofNat_lt.mpr hlt)).2]
      simp only [countDown, List.not_mem_nil, false_iff]
      omega
    · have hpos : 0 < (reports.map TransferReport.sending).flatten.count id := by
        rw [heq]
        cases m.extraAsyncSaves.get? id <;> simp
      exact iff_of_true (CountDown.ticks_of_eq (c := countDown ({}, m)) hpos
        (congrArg Nat.cast heq)).2 ⟨hpos, heq⟩
  · rw [eq_extraFor (hpos id)]
    rcases Nat.lt_or_eq_of_le (hle id) with hlt | heq
    · have h := hleft id
      rw [(CountDown.ticks_of_lt (c := countDown ({}, m)) (Int.ofNat_lt.mpr hlt)).1] at h
      simp only [countDown] at h
      congr 1
      omega
    · have hpos : 0 < (reports.map TransferReport.sending).flatten.count id := by
        rw [heq]
        cases m.extraAsyncSaves.get? id <;> simp
      have h := hleft id
      rw [(CountDown.ticks_of_eq (c := countDown ({}, m)) hpos (congrArg Nat.cast heq)).1] at h
      rw [heq, Nat.sub_self, extraFor_of_le (Nat.zero_le 1), extraFor_of_le (by omega)]

/-- The entries of the metadata replace those of the worker. -/
theorem get?_bindConnectorMetadata (m : MultiConnector) (metadata : MultiKVConnectorMetadata)
    (id : ReqId) :
    (m.bindConnectorMetadata metadata).extraAsyncSaves.get? id =
      (metadata.extraAsyncSaves.get? id).or (m.extraAsyncSaves.get? id) := by
  obtain ⟨⟨entries, hn⟩⟩ := metadata
  change (entries.foldl (fun d e => Dict.set d e.1 e.2) m.extraAsyncSaves).get? id =
    (Dict.find entries id).or (m.extraAsyncSaves.get? id)
  induction entries generalizing m with
  | nil => rfl
  | cons e entries ih =>
    rw [map_cons, List.nodup_cons] at hn
    rw [foldl_cons]
    refine (ih ⟨m.requestsToConnector, m.extraAsyncSaves.set e.1 e.2⟩ hn.2).trans ?_
    rw [Dict.get?_set]
    by_cases hid : id = e.1
    · -- the key does not occur again
      subst hid
      rw [Dict.find_eq_none_iff.mpr hn.1]
      simp [Dict.find]
    · simp [Dict.find, hid, Ne.symm hid]

end MultiConnector

/-! ## The workers -/

namespace KVOutputAggregator

variable {n : Nat}

/-- The countdown over the workers, for one of the two dictionaries. -/
def countDown (worldSize : Nat) (p : Dict ReqId Int × List ReqId) : CountDown ReqId where
  left id := p.1.getD id worldSize
  finished := p.2

theorem updateFinished_eq (p : Dict ReqId Int × List ReqId) (id : ReqId) :
    countDown n (updateFinished n p id) = (countDown n p).tick n id := by
  unfold updateFinished CountDown.tick
  have hleft : (countDown n p).left id = p.1.getD id n := rfl
  rw [hleft]
  dsimp only
  split_ifs
  · simp only [countDown, CountDown.mk.injEq, and_true]
    funext j
    rw [Dict.getD_erase, Function.update_apply]
  · simp only [countDown, CountDown.mk.injEq, and_true]
    funext j
    rw [Dict.getD_set, Function.update_apply]

theorem foldl_updateFinished (p : Dict ReqId Int × List ReqId) (ids : List ReqId) :
    countDown n (updateFinishedSet n p ids) = (countDown n p).ticks n ids := by
  induction ids generalizing p with
  | nil => rfl
  | cons id ids ih =>
    rw [CountDown.ticks_cons, ← updateFinished_eq]
    exact ih _

/-- **The outputs of all workers are ticks**, in the order of the workers. -/
theorem foldl_updateFinishedSet {α : Type} (f : α → List ReqId) (p : Dict ReqId Int × List ReqId)
    (outputs : List α) :
    countDown n (outputs.foldl (fun p o => updateFinishedSet n p (f o)) p) =
      (countDown n p).ticks n (outputs.map f).flatten := by
  induction outputs generalizing p with
  | nil => rfl
  | cons o outputs ih =>
    rw [foldl_cons, ih, foldl_updateFinished, map_cons, List.flatten_cons,
      CountDown.ticks_append]

theorem nodup_foldl_updateFinishedSet {α : Type} (f : α → List ReqId) (counts : Dict ReqId Int)
    (outputs : List α) :
    (outputs.foldl (fun p o => updateFinishedSet n p (f o)) (counts, [])).2.Nodup := by
  have hmem := congrArg CountDown.finished (foldl_updateFinishedSet (n := n) f (counts, []) outputs)
  change (outputs.foldl (fun p o => updateFinishedSet n p (f o)) (counts, [])).2 = _ at hmem
  rw [hmem]
  exact CountDown.nodup_finished_ticks nodup_nil

/-- A request occurs in the sets of the workers as often as there are workers that report it. -/
theorem count_flatten_workers {ids : Fin n → List ReqId} (hn : ∀ w, (ids w).Nodup) {id : ReqId}
    {E : Finset (Fin n)} (hE : ∀ w, w ∈ E ↔ id ∈ ids w) :
    ((finRange n).map ids).flatten.count id = E.card := by
  have hcount : ∀ w, (ids w).count id = if decide (id ∈ ids w) = true then 1 else 0 := fun w => by
    rw [(hn w).count]
    simp
  have hfilter : E = ((finRange n).filter fun w => decide (id ∈ ids w)).toFinset := by
    ext w
    simp [hE]
  rw [List.count_flatten, List.map_map, hfilter,
    List.toFinset_card_of_nodup ((List.nodup_finRange n).filter _), ← List.countP_eq_length_filter]
  generalize finRange n = l
  induction l with
  | nil => rfl
  | cons w l ih =>
    rw [map_cons, List.sum_cons, ih, List.countP_cons, Function.comp_apply, hcount]
    omega

/-- **What the scheduler sees.** The workers `done` have reported the request before; it is seen when
the workers `E` that report it now are the others, and then it waits for all workers again. -/
theorem updateFinishedSet_spec {counts : Dict ReqId Int} {ids : Fin n → List ReqId}
    (hn : ∀ w, (ids w).Nodup) {id : ReqId} {done E : Finset (Fin n)}
    (hE : ∀ w, w ∈ E ↔ id ∈ ids w) (hdisj : Disjoint done E) (hdone : done ≠ univ)
    (hleft : counts.getD id n = n - done.card) {α : Type} {f : α → List ReqId} {outputs : List α}
    (ho : outputs.map f = (finRange n).map ids) {p : Dict ReqId Int × List ReqId}
    (hp : outputs.foldl (fun p o => updateFinishedSet n p (f o)) (counts, []) = p) :
    (id ∈ p.2 ↔ done ∪ E = univ) ∧
      p.1.getD id n = if done ∪ E = univ then (n : Int) else n - (done ∪ E).card := by
  have hticks := foldl_updateFinishedSet (n := n) f (counts, []) outputs
  rw [hp, ho] at hticks
  have hcount := count_flatten_workers hn hE
  have hunion := Finset.card_union_of_disjoint hdisj
  have hstart : (countDown n (counts, [])).left id = n - done.card := hleft
  have hleft' : p.1.getD id n = ((countDown n (counts, [])).ticks n
      ((finRange n).map ids).flatten).left id := congrArg (fun c => CountDown.left c id) hticks
  have hmem : p.2 = ((countDown n (counts, [])).ticks n
      ((finRange n).map ids).flatten).finished := congrArg CountDown.finished hticks
  rw [hleft', hmem]
  set c := countDown n (counts, []) with hc
  set l := ((finRange n).map ids).flatten with hl
  have hlt : done.card < n := by
    have := Finset.card_lt_card (Finset.ssubset_univ_iff.mpr hdone)
    rwa [card_univ, Fintype.card_fin] at this
  by_cases hall : done ∪ E = univ
  · -- the last worker reports
    rw [if_pos hall]
    rw [hall, card_univ, Fintype.card_fin] at hunion
    obtain ⟨h₁, h₂⟩ : (c.ticks n l).left id = n ∧ id ∈ (c.ticks n l).finished :=
      CountDown.ticks_of_eq (by omega) (by omega)
    exact ⟨iff_of_true h₂ hall, h₁⟩
  · rw [if_neg hall]
    have hlt' : (done ∪ E).card < n := by
      have := Finset.card_lt_card (Finset.ssubset_univ_iff.mpr hall)
      rwa [card_univ, Fintype.card_fin] at this
    obtain ⟨h₁, h₂⟩ : (c.ticks n l).left id = c.left id - l.count id ∧
        (id ∈ (c.ticks n l).finished ↔ id ∈ c.finished) := CountDown.ticks_of_lt (by omega)
    refine ⟨iff_of_false (fun h => ?_) hall, by omega⟩
    exact List.not_mem_nil (h₂.mp h)

end KVOutputAggregator

/-! ## How often a request is reported -/

/-- A connector reports a request at most once in a step. -/
theorem length_reporters {sets : List (List ReqId)} (hn : ∀ l ∈ sets, l.Nodup) (id : ReqId) :
    (TransferHistory.reporters sets id).length = sets.flatten.count id := by
  have hfrom : ∀ k, ((sets.zipIdx k).filter fun e => decide (id ∈ e.1)).length =
      sets.flatten.count id := by
    induction sets with
    | nil => exact fun _ => rfl
    | cons l sets ih =>
      intro k
      rw [List.zipIdx_cons, List.flatten_cons, List.count_append, (hn l (List.mem_cons_self)).count,
        List.filter_cons]
      have ih := ih (fun l hl => hn l (List.mem_cons_of_mem _ hl)) (k + 1)
      by_cases hmem : id ∈ l
      · simp only [hmem, decide_true, if_true, List.length_cons, ih]
        omega
      · simp only [hmem, decide_false, if_false, Bool.false_eq_true, ih]
        omega
  rw [TransferHistory.reporters, List.length_map]
  exact hfrom 0

theorem mem_reporters {sets : List (List ReqId)} {id : ReqId} {c : Nat} :
    c ∈ TransferHistory.reporters sets id ↔ ∃ l, (l, c) ∈ sets.zipIdx ∧ id ∈ l := by
  simp [TransferHistory.reporters]

theorem nodup_reporters (sets : List (List ReqId)) (id : ReqId) :
    (TransferHistory.reporters sets id).Nodup := by
  have hsnd : (sets.zipIdx.map Prod.snd).Nodup := by
    rw [List.zipIdx_map_snd]
    exact List.nodup_range'
  exact hsnd.sublist (List.filter_sublist.map Prod.snd)

end InferenceServer.KVTransfer
