import InferenceServer.Distributed.RebalanceExecute

/-!
# Expert weights end where the map says

The ranks compute who sends what to whom without talking to each other. That they agree rests on one
fact about integer division (`mem_recvBlock_iff`): the block of receivers that a sender takes, with
its share of the remainder, consists of the receivers that compute this sender. And both the sender
and the receiver go through the experts in ascending order, so that the operations between them pair
up one by one.

A slot gets its expert in one of three ways. It has it already; or a slot of the same rank has it, and
it is copied through the buffer; or no slot of the rank has it, and then the rank is among the
receivers of the expert, and the first slot that needs it is the place in the buffer where it is
received.

## Main results

* `mem_ranksWithExpert`, `pairwise_ranksWithExpert`: the ranks with an expert, in ascending order
* `mem_recvBlock_iff`
* `ShufflesRight`: the programs of all ranks fit together and put the experts where the map says
* `rearrangeExpertWeights_correct`
-/

namespace InferenceServer.Distributed

open Outcome
open List (append_nil foldl_append foldl_cons foldl_nil getElem?_inj length_map length_range mem_append mem_filter mem_flatMap mem_map mem_of_getElem? mem_range mem_singleton range range_succ replicate)

/-! ## The ranks with an expert -/

section

variable {idx : Int} {numLocalExperts : Nat}

@[simp] theorem ranksWithExpert_nil : ranksWithExpert idx numLocalExperts [] = [] := rfl

theorem ranksWithExpert_concat (indices : List Int) (e : Int) :
    ranksWithExpert idx numLocalExperts (indices ++ [e]) =
      addRank idx numLocalExperts (ranksWithExpert idx numLocalExperts indices)
        (e, indices.length) := by
  simp [ranksWithExpert, List.zipIdx_append]

theorem mem_addRank {ranks : List Nat} {e : Int × Nat} {rank : Nat} :
    rank ∈ addRank idx numLocalExperts ranks e ↔
      rank ∈ ranks ∨ e.1 = idx ∧ globalIdxToRank e.2 numLocalExperts = rank := by
  unfold addRank
  dsimp only
  split_ifs with he hlast
  · have hmem := List.mem_of_getLast? hlast
    constructor
    · exact .inl
    · rintro (h | ⟨-, rfl⟩)
      · exact h
      · exact hmem
  · simp [he, eq_comm]
  · simp [he]

theorem mem_ranksWithExpert {indices : List Int} {rank : Nat} :
    rank ∈ ranksWithExpert idx numLocalExperts indices ↔
      ∃ i : Nat, indices[i]? = some idx ∧ i / numLocalExperts = rank := by
  induction indices using List.reverseRecOn with
  | nil => simp
  | append_singleton indices e ih =>
    rw [ranksWithExpert_concat, mem_addRank, ih]
    constructor
    · rintro (⟨i, hi, hrank⟩ | ⟨rfl, hrank⟩)
      · have hlt := (List.getElem?_eq_some_iff.mp hi).1
        exact ⟨i, (List.getElem?_append_left hlt).trans hi, hrank⟩
      · exact ⟨indices.length, by simp, hrank⟩
    · rintro ⟨i, hi, hrank⟩
      rcases Nat.lt_trichotomy i indices.length with hlt | rfl | hgt
      · exact .inl ⟨i, (List.getElem?_append_left hlt).symm.trans hi, hrank⟩
      · exact .inr ⟨by simpa using hi, hrank⟩
      · rw [List.getElem?_eq_none (by simp; omega)] at hi
        cases hi

/-- The ranks come in ascending order, and each of them once. -/
theorem pairwise_ranksWithExpert (indices : List Int) :
    (ranksWithExpert idx numLocalExperts indices).Pairwise (· < ·) := by
  induction indices using List.reverseRecOn with
  | nil => exact List.Pairwise.nil
  | append_singleton indices e ih =>
    rw [ranksWithExpert_concat]
    unfold addRank
    dsimp only
    split_ifs with he hlast
    · exact ih
    · rw [List.pairwise_append]
      refine ⟨ih, List.pairwise_singleton _ _, fun a ha b hb => ?_⟩
      obtain rfl := mem_singleton.mp hb
      have hle : ∀ c ∈ ranksWithExpert idx numLocalExperts indices,
          c ≤ globalIdxToRank indices.length numLocalExperts := by
        intro c hc
        obtain ⟨i, hi, rfl⟩ := mem_ranksWithExpert.mp hc
        exact Nat.div_le_div_right (List.getElem?_eq_some_iff.mp hi).1.le
      refine lt_of_le_of_ne (hle a ha) fun heq => hlast ?_
      -- no rank comes after the greatest one
      rcases List.eq_nil_or_concat (ranksWithExpert idx numLocalExperts indices) with hnil | ⟨l, c, hl⟩
      · rw [hnil] at ha
        cases ha
      · rw [hl] at ha ih hle ⊢
        have hc := hle c (by simp)
        rw [List.concat_eq_append, List.pairwise_append] at ih
        rcases mem_append.mp (List.concat_eq_append ▸ ha) with hal | hac
        · have hlt := ih.2.2 a hal c (by simp)
          omega
        · obtain rfl : a = c := by simpa using hac
          simp [heq]
    · exact ih

end

/-! ## Senders and receivers -/

variable {numSenders senderPos : Nat} {ranksToRecv : List Nat}

/-- What a sender takes: its block, and its share of the remainder. -/
theorem mem_recvBlock {rank : Nat} :
    rank ∈ recvBlock numSenders ranksToRecv senderPos ↔
      (∃ j < ranksToRecv.length / numSenders,
        ranksToRecv[senderPos * (ranksToRecv.length / numSenders) + j]? = some rank) ∨
      ranksToRecv[numSenders * (ranksToRecv.length / numSenders) + senderPos]? = some rank := by
  have hblock : ∀ b q, rank ∈ (ranksToRecv.drop b).take q ↔
      ∃ j < q, ranksToRecv[b + j]? = some rank := by
    intro b q
    rw [List.mem_iff_getElem?]
    refine exists_congr fun j => ?_
    rw [List.getElem?_take, List.getElem?_drop]
    split_ifs with hj <;> simp [hj]
  unfold recvBlock
  dsimp only
  rw [← hblock]
  split
  · rename_i r hr
    rw [hr, mem_append, mem_singleton, Option.some_inj, eq_comm (a := r)]
  · rename_i hr
    rw [hr]
    simp

/-- **The senders and the receivers compute the same pairs.** -/
theorem mem_recvBlock_iff (hnodup : ranksToRecv.Nodup)
    {recverPos : Nat} (hsender : senderPos < numSenders) {rank : Nat}
    (hrank : ranksToRecv[recverPos]? = some rank) :
    rank ∈ recvBlock numSenders ranksToRecv senderPos ↔
      srcPos numSenders ranksToRecv.length recverPos = senderPos := by
  have hlt := (List.getElem?_eq_some_iff.mp hrank).1
  have hpos : ∀ x : Nat, ranksToRecv[x]? = some rank ↔ x = recverPos := by
    refine fun x => ⟨fun hx => ?_, fun hx => hx ▸ hrank⟩
    exact ((getElem?_inj hlt hnodup).mp (hrank.trans hx.symm)).symm
  rw [mem_recvBlock]
  simp only [hpos]
  unfold srcPos
  dsimp only
  generalize ranksToRecv.length / numSenders = q
  have hend : senderPos * q + q ≤ numSenders * q := by
    rw [← Nat.succ_mul]
    exact Nat.mul_le_mul_right q hsender
  split_ifs with hstart
  · -- within the blocks
    have hq : 0 < q := by
      by_contra hzero
      obtain rfl : q = 0 := by omega
      omega
    rw [Nat.div_eq_iff hq]
    constructor
    · rintro (⟨j, hj, heq⟩ | heq) <;> omega
    · intro hdiv
      exact .inl ⟨recverPos - senderPos * q, by omega, by omega⟩
  · -- among the remaining receivers
    constructor
    · rintro (⟨j, hj, heq⟩ | heq) <;> omega
    · intro hsub
      exact .inr (by omega)

/-- The receivers of a sender are distinct. -/
theorem nodup_recvBlock (hnodup : ranksToRecv.Nodup) (hsender : senderPos < numSenders) :
    (recvBlock numSenders ranksToRecv senderPos).Nodup := by
  unfold recvBlock
  dsimp only
  have hsub : ((ranksToRecv.drop (senderPos * (ranksToRecv.length / numSenders))).take
      (ranksToRecv.length / numSenders)).Nodup :=
    (hnodup.sublist (List.drop_sublist ..)).sublist (List.take_sublist ..)
  split
  · rename_i r hr
    rw [List.nodup_append]
    refine ⟨hsub, List.nodup_singleton r, fun a ha b hb => ?_⟩
    obtain rfl := mem_singleton.mp hb
    rintro rfl
    obtain ⟨j, hj⟩ := List.mem_iff_getElem?.mp ha
    rw [List.getElem?_take, List.getElem?_drop] at hj
    split_ifs at hj with hlt
    have hr' := (List.getElem?_eq_some_iff.mp hr).1
    have heq := (getElem?_inj hr' hnodup).mp (hr.trans hj.symm)
    have hend : senderPos * (ranksToRecv.length / numSenders) +
        ranksToRecv.length / numSenders ≤ numSenders * (ranksToRecv.length / numSenders) := by
      rw [← Nat.succ_mul]
      exact Nat.mul_le_mul_right _ hsender
    omega
  · exact hsub

theorem srcPos_lt {numReceivers recverPos : Nat} (hsenders : 0 < numSenders)
    (hrecver : recverPos < numReceivers) :
    srcPos numSenders numReceivers recverPos < numSenders := by
  unfold srcPos
  dsimp only
  have hdiv := Nat.div_add_mod numReceivers numSenders
  have hmod := Nat.mod_lt numReceivers hsenders
  split_ifs with hstart
  · exact Nat.div_lt_of_lt_mul (by rwa [Nat.mul_comm])
  · omega

/-- Rank `a` sends the expert to rank `b`. -/
def Assigned (ranksToSend ranksToRecv : List Nat) (a b : Nat) : Prop :=
  ∃ i j : Nat, ranksToSend[i]? = some a ∧ ranksToRecv[j]? = some b ∧
    srcPos ranksToSend.length ranksToRecv.length j = i

section

variable {ranksToSend ranksToRecv : List Nat} {a b : Nat}

theorem getElem?_of_idxOf? {ranks : List Nat} {i : Nat} (hi : ranks.idxOf? a = some i) :
    ranks[i]? = some a := by
  obtain ⟨hlt, heq, -⟩ := List.idxOf?_eq_some_iff.mp hi
  rw [List.getElem?_eq_getElem hlt, heq]

/-- A rank that has the expert computes the ranks that it is assigned to. -/
theorem recvRanksOf_ok (hsend : ranksToSend.Nodup) (hrecv : ranksToRecv.Nodup)
    (ha : a ∈ ranksToSend) :
    ∃ recvRanks, recvRanksOf ranksToSend ranksToRecv a = .ok recvRanks ∧ recvRanks.Nodup ∧
      ∀ b, b ∈ recvRanks ↔ Assigned ranksToSend ranksToRecv a b := by
  obtain ⟨i, hi⟩ : ∃ i, ranksToSend.idxOf? a = some i := by
    rw [← Option.isSome_iff_exists, List.isSome_idxOf?]
    exact ha
  have hget := getElem?_of_idxOf? hi
  have hlt := (List.getElem?_eq_some_iff.mp hget).1
  refine ⟨recvBlock ranksToSend.length ranksToRecv i, ?_, nodup_recvBlock hrecv hlt, fun b => ?_⟩
  · rw [recvRanksOf, if_neg (List.ne_nil_of_mem ha), hi]
  · constructor
    · intro hb
      obtain ⟨j, hj⟩ : ∃ j : Nat, ranksToRecv[j]? = some b := by
        rcases mem_recvBlock.mp hb with ⟨j, -, hj⟩ | hj <;> exact ⟨_, hj⟩
      exact ⟨i, j, hget, hj, (mem_recvBlock_iff hrecv hlt hj).mp hb⟩
    · rintro ⟨i', j, hi', hj, hsrc⟩
      obtain rfl := (getElem?_inj hlt hsend).mp (hget.trans hi'.symm)
      exact (mem_recvBlock_iff hrecv hlt hj).mpr hsrc

/-- A rank that needs the expert computes the rank that is assigned to it. -/
theorem srcRankOf_ok (hrecv : ranksToRecv.Nodup) (hne : ranksToSend ≠ []) (hb : b ∈ ranksToRecv) :
    ∃ src, srcRankOf ranksToSend ranksToRecv b = .ok src ∧
      ∀ a, src = a ↔ Assigned ranksToSend ranksToRecv a b := by
  obtain ⟨j, hj⟩ : ∃ j, ranksToRecv.idxOf? b = some j := by
    rw [← Option.isSome_iff_exists, List.isSome_idxOf?]
    exact hb
  have hget := getElem?_of_idxOf? hj
  have hlt := (List.getElem?_eq_some_iff.mp hget).1
  have hsrc := srcPos_lt (List.length_pos_of_ne_nil hne) hlt
  refine ⟨ranksToSend[srcPos ranksToSend.length ranksToRecv.length j], ?_, fun a => ?_⟩
  · rw [srcRankOf, if_neg hne, hj]
    dsimp only
    rw [List.getElem?_eq_getElem hsrc]
  · constructor
    · rintro rfl
      exact ⟨_, j, List.getElem?_eq_getElem hsrc, hget, rfl⟩
    · rintro ⟨i, j', hi, hj', rfl⟩
      obtain rfl := (getElem?_inj hlt hrecv).mp (hget.trans hj'.symm)
      rw [List.getElem?_eq_getElem hsrc] at hi
      exact Option.some.inj hi

end

/-! ## The slots of a rank -/

/-- Rank `r` has the expert in one of its slots. -/
def Holds (numLocalExperts : Nat) (indices : List Int) (r : Nat) (e : Int) : Prop :=
  ∃ i < numLocalExperts, expertAt numLocalExperts r indices i = e

section

variable {epSize L r : Nat} {indices : List Int} {e : Int}

variable (hlen : indices.length = epSize * L)

include hlen

theorem mem_ranksWithExpert_iff (he : e ≠ -1) :
    r ∈ ranksWithExpert e L indices ↔ Holds L indices r e := by
  rw [mem_ranksWithExpert]
  constructor
  · rintro ⟨j, hj, rfl⟩
    have hlt := (List.getElem?_eq_some_iff.mp hj).1
    have hL : 0 < L := Nat.pos_of_ne_zero fun h => by simp [hlen, h] at hlt
    refine ⟨j % L, Nat.mod_lt _ hL, ?_⟩
    rw [expertAt, idxLocalToGlobal, Nat.div_add_mod', List.getD_eq_getElem?_getD, hj]
    rfl
  · rintro ⟨i, hi, heq⟩
    refine ⟨idxLocalToGlobal i L r, ?_, ?_⟩
    · rw [expertAt, List.getD_eq_getElem?_getD] at heq
      cases hget : indices[idxLocalToGlobal i L r]? with
      | none => exact absurd (by simpa [hget] using heq.symm) he
      | some e' => simpa [hget] using heq
    · rw [idxLocalToGlobal, Nat.mul_comm, Nat.mul_add_div (by omega), Nat.div_eq_of_lt hi]
      rfl

theorem lt_of_mem_ranksWithExpert (h : r ∈ ranksWithExpert e L indices) : r < epSize := by
  obtain ⟨j, hj, rfl⟩ := mem_ranksWithExpert.mp h
  have hlt := (List.getElem?_eq_some_iff.mp hj).1
  rw [hlen] at hlt
  exact Nat.div_lt_of_lt_mul (by rwa [Nat.mul_comm])

/-- An expert of the map is in a slot of some rank. -/
theorem exists_holds (he : e ≠ -1) (hmem : e ∈ indices) : ∃ a, Holds L indices a e := by
  obtain ⟨j, hj⟩ := List.mem_iff_getElem?.mp hmem
  exact ⟨j / L, (mem_ranksWithExpert_iff hlen he).mp (mem_ranksWithExpert.mpr ⟨j, hj, rfl⟩)⟩

omit hlen

theorem mem_of_holds (he : e ≠ -1) (h : Holds L indices r e) : e ∈ indices := by
  obtain ⟨i, -, heq⟩ := h
  rw [expertAt, List.getD_eq_getElem?_getD] at heq
  cases hget : indices[idxLocalToGlobal i L r]? with
  | none => exact absurd (by simpa [hget] using heq.symm) he
  | some e' =>
    obtain rfl : e' = e := by simpa [hget] using heq
    exact mem_of_getElem? hget

/-- What the dictionary of the first slots holds after the slots below `n`. -/
structure FirstLocs (L r : Nat) (skip : Nat → Bool) (indices : List Int) (n : Nat)
    (locs : Dict Int Nat) : Prop where
  slot : ∀ e i, locs.get? e = some i →
    i < n ∧ skip i = false ∧ expertAt L r indices i = e ∧ e ≠ -1
  all : ∀ i < n, skip i = false → expertAt L r indices i ≠ -1 → expertAt L r indices i ∈ locs

theorem firstLocs_spec (L r : Nat) (indices : List Int) (skip : Nat → Bool) :
    FirstLocs L r skip indices L (firstLocs L r skip indices) := by
  unfold firstLocs
  generalize hstep : (fun (locs : Dict Int Nat) (i : Nat) =>
    let expert := expertAt L r indices i
    if skip i ∨ expert = -1 ∨ expert ∈ locs then locs else locs.set expert i) = step
  suffices h : ∀ n, FirstLocs L r skip indices n ((range n).foldl step ∅) from h L
  intro n
  induction n with
  | zero =>
    refine ⟨fun e i h => ?_, fun i hi => by omega⟩
    simp at h
  | succ n ih =>
    rw [range_succ, foldl_append, foldl_cons, foldl_nil]
    generalize (range n).foldl step ∅ = locs at ih ⊢
    subst hstep
    dsimp only
    split_ifs with hskip
    · refine ⟨fun e i h => ?_, fun i hi hs hne => ?_⟩
      · obtain ⟨hlt, hrest⟩ := ih.slot e i h
        exact ⟨by omega, hrest⟩
      · rcases Nat.lt_succ_iff_lt_or_eq.mp hi with hlt | rfl
        · exact ih.all i hlt hs hne
        · rcases hskip with h | h | h
          · simp [hs] at h
          · exact absurd h hne
          · exact h
    · push Not at hskip
      obtain ⟨hs, hne, hnew⟩ := hskip
      refine ⟨fun e i h => ?_, fun i hi hs' hne' => ?_⟩
      · rw [Dict.get?_set] at h
        split_ifs at h with heq
        · cases h
          exact ⟨by omega, by simpa using hs, heq.symm, heq ▸ hne⟩
        · obtain ⟨hlt, hrest⟩ := ih.slot e i h
          exact ⟨by omega, hrest⟩
      · rw [Dict.mem_set]
        rcases Nat.lt_succ_iff_lt_or_eq.mp hi with hlt | rfl
        · exact .inr (ih.all i hlt hs' hne')
        · exact .inl rfl

/-! ## Copies inside a rank -/

section

variable {oldIndices newIndices : List Int}

/-- What is known after the pairs `ps` of the loops that copy inside the rank. -/
structure CopiesLocally (L r : Nat) (oldIndices newIndices : List Int) (ps : List (Nat × Nat))
    (st : (Nat → Bool) × List (Nat × Nat)) : Prop where
  kept : ∀ dst, isUnchanged L r oldIndices newIndices dst → st.1 dst
  tried : ∀ p ∈ ps, expertAt L r newIndices p.2 ≠ -1 →
    expertAt L r oldIndices p.1 = expertAt L r newIndices p.2 → st.1 p.2
  reason : ∀ dst, st.1 dst →
    isUnchanged L r oldIndices newIndices dst ∨ ∃ src, (src, dst) ∈ st.2
  copy : ∀ c ∈ st.2, c ∈ ps ∧ expertAt L r newIndices c.2 ≠ -1 ∧
    expertAt L r oldIndices c.1 = expertAt L r newIndices c.2

theorem copiesLocally_foldl (ps : List (Nat × Nat)) :
    CopiesLocally L r oldIndices newIndices ps
      (ps.foldl (copyLocally L r oldIndices newIndices)
        (isUnchanged L r oldIndices newIndices, [])) := by
  induction ps using List.reverseRecOn with
  | nil => exact ⟨fun _ h => h, by simp, fun _ h => .inl h, by simp⟩
  | append_singleton ps p ih =>
    rw [foldl_append, foldl_cons, foldl_nil]
    generalize ps.foldl (copyLocally L r oldIndices newIndices)
      (isUnchanged L r oldIndices newIndices, []) = st at ih ⊢
    have hcopy : ∀ c ∈ st.2, c ∈ ps ++ [p] ∧ expertAt L r newIndices c.2 ≠ -1 ∧
        expertAt L r oldIndices c.1 = expertAt L r newIndices c.2 := fun c hc => by
      obtain ⟨hmem, hrest⟩ := ih.copy c hc
      exact ⟨List.mem_append_left _ hmem, hrest⟩
    have hsame : (expertAt L r newIndices p.2 ≠ -1 →
        expertAt L r oldIndices p.1 = expertAt L r newIndices p.2 → st.1 p.2) →
        CopiesLocally L r oldIndices newIndices (ps ++ [p]) st := by
      refine fun hp => ⟨ih.kept, fun q hq => ?_, ih.reason, hcopy⟩
      rcases mem_append.mp hq with hq | hq
      · exact ih.tried q hq
      · obtain rfl := mem_singleton.mp hq
        exact hp
    unfold copyLocally
    dsimp only
    split_ifs with hdone hnone heq
    · exact hsame fun _ _ => hdone
    · exact hsame fun hne heq => by
        rcases hnone with h | h
        · exact absurd (heq ▸ h) hne
        · exact absurd h hne
    · push Not at hnone
      have hupd : ∀ dst, Function.update st.1 p.2 true dst = true ↔ dst = p.2 ∨ st.1 dst := by
        intro dst
        rw [Function.update_apply]
        split_ifs with h <;> simp [h]
      refine ⟨fun dst h => (hupd dst).mpr (.inr (ih.kept dst h)), fun q hq hne heq' => ?_,
        fun dst h => ?_, fun c hc => ?_⟩
      · refine (hupd q.2).mpr ?_
        rcases mem_append.mp hq with hq | hq
        · exact .inr (ih.tried q hq hne heq')
        · exact .inl (congrArg Prod.snd (mem_singleton.mp hq))
      · rcases (hupd dst).mp h with rfl | h
        · exact .inr ⟨p.1, by simp⟩
        · rcases ih.reason dst h with h | ⟨src, h⟩
          · exact .inl h
          · exact .inr ⟨src, List.mem_append_left _ h⟩
      · rcases mem_append.mp hc with hc | hc
        · exact hcopy c hc
        · obtain rfl := mem_singleton.mp hc
          exact ⟨by simp, hnone.2, heq⟩
    · exact hsame fun _ h => absurd h heq

theorem mem_localPairs {p : Nat × Nat} : p ∈ localPairs L ↔ p.1 < L ∧ p.2 < L := by
  obtain ⟨src, dst⟩ := p
  simp [localPairs]

theorem receiveLocally_spec (L r : Nat) (oldIndices newIndices : List Int) :
    CopiesLocally L r oldIndices newIndices (localPairs L)
      (receiveLocally L r oldIndices newIndices) :=
  copiesLocally_foldl (localPairs L)

/-- **A slot is received locally exactly if the rank has its expert.** -/
theorem receiveLocally_iff {dst : Nat} (hdst : dst < L) (hne : expertAt L r newIndices dst ≠ -1) :
    (receiveLocally L r oldIndices newIndices).1 dst ↔
      Holds L oldIndices r (expertAt L r newIndices dst) := by
  have hspec := receiveLocally_spec L r oldIndices newIndices
  constructor
  · intro h
    rcases hspec.reason dst h with h | ⟨src, h⟩
    · exact ⟨dst, hdst, of_decide_eq_true h⟩
    · obtain ⟨hmem, -, heq⟩ := hspec.copy _ h
      exact ⟨src, (mem_localPairs.mp hmem).1, heq⟩
  · rintro ⟨src, hsrc, heq⟩
    exact hspec.tried (src, dst) (mem_localPairs.mpr ⟨hsrc, hdst⟩) hne heq

/-! ## What a rank sends and receives -/

theorem mem_expertsSendLoc :
    e ∈ expertsSendLoc L r oldIndices ↔ e ≠ -1 ∧ Holds L oldIndices r e := by
  have hspec := firstLocs_spec L r oldIndices fun _ => false
  constructor
  · intro h
    obtain ⟨i, hi⟩ := Dict.mem_iff_get?.mp h
    obtain ⟨hlt, -, heq, hne⟩ := hspec.slot e i hi
    exact ⟨hne, i, hlt, heq⟩
  · rintro ⟨hne, i, hlt, rfl⟩
    exact hspec.all i hlt rfl hne

theorem mem_expertsRecvLoc : e ∈ expertsRecvLoc L r oldIndices newIndices ↔
    e ≠ -1 ∧ Holds L newIndices r e ∧ ¬Holds L oldIndices r e := by
  have hspec := firstLocs_spec L r newIndices
    (receiveLocally L r oldIndices newIndices).1
  constructor
  · intro h
    obtain ⟨i, hi⟩ := Dict.mem_iff_get?.mp h
    obtain ⟨hlt, hskip, rfl, hne⟩ := hspec.slot e i hi
    refine ⟨hne, ⟨i, hlt, rfl⟩, fun hold => ?_⟩
    simp [(receiveLocally_iff hlt hne).mpr hold] at hskip
  · rintro ⟨hne, ⟨i, hlt, rfl⟩, hold⟩
    refine hspec.all i hlt ?_ hne
    rw [Bool.eq_false_iff]
    exact fun h => hold ((receiveLocally_iff hlt hne).mp h)

/-- The receivers of an expert are the ranks that need it and do not have it. -/
theorem mem_ranksToRecv (hold : oldIndices.length = epSize * L)
    (hnew : newIndices.length = epSize * L) (he : e ≠ -1) :
    r ∈ (getEpRanksWithExpert e L oldIndices newIndices).2 ↔
      Holds L newIndices r e ∧ ¬Holds L oldIndices r e := by
  rw [getEpRanksWithExpert, mem_filter, decide_eq_true_eq, mem_ranksWithExpert_iff hnew he,
    mem_ranksWithExpert_iff hold he]

theorem mem_sortedItems {locs : Dict Int Nat} {p : Int × Nat} :
    p ∈ sortedItems locs ↔ locs.get? p.1 = some p.2 := by
  rw [sortedItems, List.mem_insertionSort, Dict.get?_eq_some_iff]

/-- The experts come in strictly ascending order. -/
theorem pairwise_sortedItems (locs : Dict Int Nat) :
    ((sortedItems locs).map Prod.fst).Pairwise (· < ·) := by
  have hle : ((sortedItems locs).map Prod.fst).Pairwise (· ≤ ·) := by
    rw [List.pairwise_map]
    have htotal : Std.Total fun a b : Int × Nat => a.1 ≤ b.1 := ⟨fun a b => Int.le_total a.1 b.1⟩
    have htrans : IsTrans (Int × Nat) fun a b => a.1 ≤ b.1 := ⟨fun _ _ _ => Int.le_trans⟩
    exact List.pairwise_insertionSort _ _
  have hnodup : ((sortedItems locs).map Prod.fst).Nodup :=
    ((List.perm_insertionSort _ locs.entries).map Prod.fst).nodup_iff.mpr locs.nodup
  exact (hle.and hnodup).imp fun h => lt_of_le_of_ne h.1 h.2

end

end

/-! ## The operations between two ranks -/

theorem flatMap_of_forall₂ {α β γ : Type} {P : α → Prop} [DecidablePred P] {f : β → List γ}
    {g : α → List γ} {l : List α} {bs : List β}
    (h : List.Forall₂ (fun a b => f b = if P a then g a else []) l bs) :
    bs.flatMap f = (l.filter P).flatMap g := by
  induction h with
  | nil => rfl
  | @cons a b l bs hab _ ih =>
    rw [List.flatMap_cons, hab, ih]
    by_cases ha : P a <;> simp [ha]

/-- The operations of one rank for all the weights of an expert. -/
def weightOps (numWeights : Nat) (p : Int × Nat) : List (Nat × Nat) :=
  (List.range numWeights).map fun k => (k, p.2)

theorem sendsTo_isend (numWeights src dst b : Nat) :
    sendsTo b ((range numWeights).map fun k => .isend k src dst) =
      if dst = b then (range numWeights).map fun k => (k, src) else [] := by
  rw [sendsTo, List.filterMap_map]
  split_ifs with h
  · rw [← List.filterMap_eq_map]
    exact List.filterMap_congr fun k _ => by simp [h]
  · exact List.filterMap_eq_nil_iff.mpr fun k _ => by simp [h]

theorem recvsFrom_irecv (numWeights dst src a : Nat) :
    recvsFrom a ((range numWeights).map fun k => .irecv k dst src) =
      if src = a then (range numWeights).map fun k => (k, dst) else [] := by
  rw [recvsFrom, List.filterMap_map]
  split_ifs with h
  · rw [← List.filterMap_eq_map]
    exact List.filterMap_congr fun k _ => by simp [h]
  · exact List.filterMap_eq_nil_iff.mpr fun k _ => by simp [h]

/-- The sends of an expert to distinct ranks, one of them `b` or not. -/
theorem sendsTo_flatMap (numWeights src b : Nat) {recvRanks : List Nat} (h : recvRanks.Nodup) :
    sendsTo b (recvRanks.flatMap fun dst =>
        (range numWeights).map fun k => .isend k src dst) =
      if b ∈ recvRanks then (range numWeights).map fun k => (k, src) else [] := by
  induction recvRanks with
  | nil => rfl
  | cons dst recvRanks ih =>
    obtain ⟨hnot, hnodup⟩ := List.nodup_cons.mp h
    have hcons : sendsTo b ((dst :: recvRanks).flatMap fun dst =>
          (range numWeights).map fun k => .isend k src dst) =
        sendsTo b ((range numWeights).map fun k => .isend k src dst) ++
          sendsTo b (recvRanks.flatMap fun dst =>
            (range numWeights).map fun k => .isend k src dst) := by
      rw [List.flatMap_cons]
      exact List.filterMap_append
    rw [hcons, sendsTo_isend, ih hnodup]
    by_cases hb : dst = b
    · subst hb
      simp [hnot]
    · simp [hb, Ne.symm hb]

section

variable {epSize L W : Nat} {oldIndices newIndices : List Int} {e : Int} {a b r : Nat}

/-- Rank `a` sends the expert to rank `b`. -/
def Exchanged (L : Nat) (oldIndices newIndices : List Int) (e : Int) (a b : Nat) : Prop :=
  Assigned (getEpRanksWithExpert e L oldIndices newIndices).1
    (getEpRanksWithExpert e L oldIndices newIndices).2 a b

theorem Exchanged.holds (hold : oldIndices.length = epSize * L)
    (hnew : newIndices.length = epSize * L) (he : e ≠ -1)
    (h : Exchanged L oldIndices newIndices e a b) :
    Holds L oldIndices a e ∧ Holds L newIndices b e ∧ ¬Holds L oldIndices b e := by
  obtain ⟨i, j, hi, hj, -⟩ := h
  exact ⟨(mem_ranksWithExpert_iff hold he).mp (mem_of_getElem? hi),
    (mem_ranksToRecv hold hnew he).mp (mem_of_getElem? hj)⟩

/-- What is used of the maps: their length, and that every expert of the new one is in the old one. -/
structure Maps (epSize L : Nat) (oldIndices newIndices : List Int) : Prop where
  old : oldIndices.length = epSize * L
  new : newIndices.length = epSize * L
  occurs : ∀ e ∈ newIndices, e ≠ -1 → e ∈ oldIndices

theorem nodup_ranksToSend (L : Nat) (oldIndices newIndices : List Int) (e : Int) :
    (getEpRanksWithExpert e L oldIndices newIndices).1.Nodup :=
  (pairwise_ranksWithExpert oldIndices).imp fun h => Nat.ne_of_lt h

theorem nodup_ranksToRecv (L : Nat) (oldIndices newIndices : List Int) (e : Int) :
    (getEpRanksWithExpert e L oldIndices newIndices).2.Nodup :=
  ((pairwise_ranksWithExpert newIndices).imp fun h => Nat.ne_of_lt h).filter _

open Classical in
theorem sendExpert_ok (hmaps : Maps epSize L oldIndices newIndices) {p : Int × Nat}
    (hp : p ∈ sortedItems (expertsSendLoc L a oldIndices)) :
    ∃ ops, sendExpert L a W oldIndices newIndices p = .ok ops ∧
      (∀ b, sendsTo b ops =
        if Exchanged L oldIndices newIndices p.1 a b then weightOps W p else []) ∧
      ∀ c, recvsFrom c ops = [] := by
  obtain ⟨hne, hholds⟩ := mem_expertsSendLoc.mp (Dict.mem_of_get? (mem_sortedItems.mp hp))
  obtain ⟨recvRanks, hok, hnodup, hmem⟩ := recvRanksOf_ok
    (nodup_ranksToSend L oldIndices newIndices p.1) (nodup_ranksToRecv L oldIndices newIndices p.1)
    ((mem_ranksWithExpert_iff hmaps.old hne).mpr hholds)
  refine ⟨_, bind_eq_ok.mpr ⟨recvRanks, hok, rfl⟩, fun b => ?_, fun c => ?_⟩
  · rw [sendsTo_flatMap W p.2 b hnodup]
    simp only [hmem b]
    rfl
  · refine List.filterMap_eq_nil_iff.mpr fun op hop => ?_
    obtain ⟨dst, -, hop⟩ := mem_flatMap.mp hop
    obtain ⟨k, -, rfl⟩ := mem_map.mp hop
    rfl

open Classical in
theorem recvExpert_ok (hmaps : Maps epSize L oldIndices newIndices) {p : Int × Nat}
    (hp : p ∈ sortedItems (expertsRecvLoc L b oldIndices newIndices)) :
    ∃ ops, recvExpert L b W oldIndices newIndices p = .ok ops ∧
      (∀ a, recvsFrom a ops =
        if Exchanged L oldIndices newIndices p.1 a b then weightOps W p else []) ∧
      ∀ c, sendsTo c ops = [] := by
  obtain ⟨hne, hholds, hnot⟩ := mem_expertsRecvLoc.mp (Dict.mem_of_get? (mem_sortedItems.mp hp))
  obtain ⟨c, hc⟩ := exists_holds hmaps.old hne (hmaps.occurs _ (mem_of_holds hne hholds) hne)
  have hsend := (mem_ranksWithExpert_iff hmaps.old hne).mpr hc
  obtain ⟨src, hok, hsrc⟩ := srcRankOf_ok
    (nodup_ranksToRecv L oldIndices newIndices p.1)
    (List.ne_nil_of_mem hsend) ((mem_ranksToRecv hmaps.old hmaps.new hne).mpr ⟨hholds, hnot⟩)
  refine ⟨_, bind_eq_ok.mpr ⟨src, hok, rfl⟩, fun a => ?_, fun c => ?_⟩
  · rw [recvsFrom_irecv]
    simp only [hsrc a]
    rfl
  · refine List.filterMap_eq_nil_iff.mpr fun op hop => ?_
    obtain ⟨k, -, rfl⟩ := mem_map.mp hop
    rfl

/-- A slot that changes and gets an expert is copied back. -/
theorem copyBackOf_ok (r : Nat) (oldIndices newIndices : List Int) {dst : Nat} (hdst : dst < L) :
    ∃ c, copyBackOf L r oldIndices newIndices dst = .ok c ∧
      (¬isUnchanged L r oldIndices newIndices dst → expertAt L r newIndices dst ≠ -1 →
        ∃ src, c = some (dst, src)) := by
  unfold copyBackOf
  dsimp only
  split_ifs with hsame hrecv hnone
  · exact ⟨_, rfl, fun h => absurd hsame h⟩
  · exact ⟨_, rfl, fun _ _ => ⟨_, rfl⟩⟩
  · exact ⟨_, rfl, fun _ h => absurd hnone h⟩
  · have hmem : expertAt L r newIndices dst ∈ expertsRecvLoc L r oldIndices newIndices :=
      mem_expertsRecvLoc.mpr ⟨hnone, ⟨dst, hdst, rfl⟩,
        fun h => hrecv ((receiveLocally_iff hdst hnone).mpr h)⟩
    obtain ⟨src, hsrc⟩ := Dict.mem_iff_get?.mp hmem
    rw [hsrc]
    exact ⟨_, rfl, fun _ _ => ⟨_, rfl⟩⟩

/-- It is copied from where the buffer got the expert. -/
theorem copyBackOf_some {dst : Nat} {c : Nat × Nat}
    (h : copyBackOf L r oldIndices newIndices dst = .ok (some c)) :
    c.1 = dst ∧
      ((∃ src, (src, dst) ∈ (receiveLocally L r oldIndices newIndices).2 ∧ c.2 = dst) ∨
        (expertAt L r newIndices dst, c.2) ∈
          sortedItems (expertsRecvLoc L r oldIndices newIndices)) := by
  unfold copyBackOf at h
  dsimp only at h
  split_ifs at h with hsame hrecv hnone
  · cases h
  · obtain rfl := Option.some.inj (Except.ok.inj h)
    rcases (receiveLocally_spec L r oldIndices newIndices).reason dst hrecv with h | ⟨src, h⟩
    · exact absurd h hsame
    · exact ⟨rfl, .inl ⟨src, h, rfl⟩⟩
  · cases h
  · split at h
    · cases h
    · rename_i src hsrc
      obtain rfl := Option.some.inj (Except.ok.inj h)
      exact ⟨rfl, .inr (mem_sortedItems.mpr hsrc)⟩

open Classical in
/-- What the program of a rank consists of. -/
structure ProgramFor (L W r : Nat) (oldIndices newIndices : List Int) (p : RankProgram) : Prop where
  localCopies : p.localCopies = (receiveLocally L r oldIndices newIndices).2
  sends : ∀ b, sendsTo b p.p2pOps =
    ((sortedItems (expertsSendLoc L r oldIndices)).filter
      fun q => Exchanged L oldIndices newIndices q.1 r b).flatMap (weightOps W)
  recvs : ∀ a, recvsFrom a p.p2pOps =
    ((sortedItems (expertsRecvLoc L r oldIndices newIndices)).filter
      fun q => Exchanged L oldIndices newIndices q.1 a r).flatMap (weightOps W)
  copyBacks : ∀ c, c ∈ p.copyBacks ↔
    ∃ dst < L, copyBackOf L r oldIndices newIndices dst = .ok (some c)

open Classical in
/-- Every rank finds its program. -/
theorem shuffleLayer_ok (hmaps : Maps epSize L oldIndices newIndices) (r : Nat) :
    ∃ p, shuffleLayer L r W oldIndices newIndices = .ok p ∧
      ProgramFor L W r oldIndices newIndices p := by
  obtain ⟨sends, hsends, hsend⟩ := exists_mapM_ok fun q hq =>
    sendExpert_ok (a := r) (W := W) hmaps (p := q) hq
  obtain ⟨recvs, hrecvs, hrecv⟩ := exists_mapM_ok fun q hq =>
    recvExpert_ok (b := r) (W := W) hmaps (p := q) hq
  obtain ⟨backs, hbacks, -⟩ := exists_mapM_ok
    (R := fun _ _ => True) (l := range L)
    (f := copyBackOf L r oldIndices newIndices) fun dst hdst => by
      obtain ⟨c, hc, -⟩ := copyBackOf_ok r oldIndices newIndices (mem_range.mp hdst)
      exact ⟨c, hc, trivial⟩
  refine ⟨_, bind_eq_ok.mpr ⟨sends, hsends, bind_eq_ok.mpr ⟨recvs, hrecvs,
    bind_eq_ok.mpr ⟨backs, hbacks, rfl⟩⟩⟩, rfl, fun b => ?_, fun a => ?_, fun c => ?_⟩
  · have hnone : sendsTo b recvs.flatten = [] := by
      rw [sendsTo, List.filterMap_flatten, List.flatten_eq_nil_iff]
      rintro ops hops
      obtain ⟨ops', hops', rfl⟩ := mem_map.mp hops
      obtain ⟨q, -, -, hq⟩ := exists_of_forall₂_right hrecv hops'
      exact hq b
    have happ : sendsTo b (sends.flatten ++ recvs.flatten) =
        sends.flatMap (sendsTo b) ++ sendsTo b recvs.flatten := by
      rw [sendsTo, List.filterMap_append, List.filterMap_flatten]
      rfl
    rw [happ, hnone, append_nil]
    exact flatMap_of_forall₂ (hsend.imp fun _ _ h => h.1 b)
  · have hnone : recvsFrom a sends.flatten = [] := by
      rw [recvsFrom, List.filterMap_flatten, List.flatten_eq_nil_iff]
      rintro ops hops
      obtain ⟨ops', hops', rfl⟩ := mem_map.mp hops
      obtain ⟨q, -, -, hq⟩ := exists_of_forall₂_right hsend hops'
      exact hq a
    have happ : recvsFrom a (sends.flatten ++ recvs.flatten) =
        recvsFrom a sends.flatten ++ recvs.flatMap (recvsFrom a) := by
      rw [recvsFrom, List.filterMap_append, List.filterMap_flatten (L := recvs)]
      rfl
    rw [happ, hnone, List.nil_append]
    exact flatMap_of_forall₂ (hrecv.imp fun _ _ h => h.1 a)
  · obtain ⟨hto, hfrom⟩ := exists_of_mapM hbacks
    rw [List.mem_filterMap]
    constructor
    · rintro ⟨c', hc', rfl⟩
      obtain ⟨dst, hdst, hok⟩ := hfrom _ hc'
      exact ⟨dst, mem_range.mp hdst, hok⟩
    · rintro ⟨dst, hdst, hok⟩
      obtain ⟨c', hc', hok'⟩ := hto dst (mem_range.mpr hdst)
      obtain rfl := Except.ok.inj (hok'.symm.trans hok)
      exact ⟨some c, hc', rfl⟩

/-- The operations of a list of items with the experts in place of the slots. -/
theorem map_weightOps {l : List (Int × Nat)} {g : Nat → Int} (h : ∀ q ∈ l, g q.2 = q.1) :
    (l.flatMap (weightOps W)).map (fun op => (op.1, g op.2)) =
      (l.map Prod.fst).flatMap fun e => (range W).map fun k => (k, e) := by
  rw [List.map_flatMap, List.flatMap_map]
  refine List.flatMap_congr fun q hq => ?_
  rw [weightOps, List.map_map]
  exact List.map_congr_left fun k _ => by simp [h q hq]

/-- The slot in which an expert to be sent or received is. -/
theorem expertAt_of_mem_sendLoc {q : Int × Nat} (h : q ∈ sortedItems (expertsSendLoc L r oldIndices)) :
    q.2 < L ∧ expertAt L r oldIndices q.2 = q.1 ∧ q.1 ≠ -1 := by
  obtain ⟨hlt, -, heq, hne⟩ := (firstLocs_spec L r oldIndices fun _ => false).slot _ _ (mem_sortedItems.mp h)
  exact ⟨hlt, heq, hne⟩

theorem expertAt_of_mem_recvLoc {q : Int × Nat}
    (h : q ∈ sortedItems (expertsRecvLoc L r oldIndices newIndices)) :
    q.2 < L ∧ expertAt L r newIndices q.2 = q.1 ∧ q.1 ≠ -1 := by
  obtain ⟨hlt, -, heq, hne⟩ := (firstLocs_spec L r newIndices _).slot _ _ (mem_sortedItems.mp h)
  exact ⟨hlt, heq, hne⟩

/-- **The sends and the receives between two ranks pair up**: they are as many, and name the same
weights of the same experts in the same order. -/
theorem sends_match_recvs (hmaps : Maps epSize L oldIndices newIndices) {p q : RankProgram}
    (hp : ProgramFor L W a oldIndices newIndices p) (hq : ProgramFor L W b oldIndices newIndices q) :
    (sendsTo b p.p2pOps).map (fun op => (op.1, expertAt L a oldIndices op.2)) =
      (recvsFrom a q.p2pOps).map fun op => (op.1, expertAt L b newIndices op.2) := by
  rw [hp.sends, hq.recvs,
    map_weightOps fun q hq => (expertAt_of_mem_sendLoc (mem_filter.mp hq).1).2.1,
    map_weightOps fun q hq => (expertAt_of_mem_recvLoc (mem_filter.mp hq).1).2.1]
  congr 1
  -- both are ascending lists of the experts that `a` sends to `b`
  refine List.Pairwise.eq_of_mem_iff
    ((pairwise_sortedItems _).sublist (List.filter_sublist.map _))
    ((pairwise_sortedItems _).sublist (List.filter_sublist.map _)) fun e => ?_
  simp only [mem_map, mem_filter, decide_eq_true_eq]
  constructor
  · rintro ⟨⟨e, src⟩, ⟨hmem, hex⟩, rfl⟩
    obtain ⟨-, -, hne⟩ := expertAt_of_mem_sendLoc hmem
    have hholds := hex.holds hmaps.old hmaps.new hne
    obtain ⟨dst, hdst⟩ := Dict.mem_iff_get?.mp (mem_expertsRecvLoc.mpr ⟨hne, hholds.2⟩)
    exact ⟨(e, dst), ⟨mem_sortedItems.mpr hdst, hex⟩, rfl⟩
  · rintro ⟨⟨e, dst⟩, ⟨hmem, hex⟩, rfl⟩
    obtain ⟨-, -, hne⟩ := expertAt_of_mem_recvLoc hmem
    have hholds := hex.holds hmaps.old hmaps.new hne
    obtain ⟨src, hsrc⟩ := Dict.mem_iff_get?.mp (mem_expertsSendLoc.mpr ⟨hne, hholds.1⟩)
    exact ⟨(e, src), ⟨mem_sortedItems.mpr hsrc, hex⟩, rfl⟩

/-! ## The joint effect -/

/-- A place to which only `v` is written holds `v`, if it is written at all or holds it already. -/
theorem writeAll_eq {ω : Type} {writes : List ((Nat × Nat) × ω)} {m : Tensors ω} {x : Nat × Nat}
    {v : ω} (hv : ∀ w ∈ writes, w.1 = x → w.2 = v) (h : m x = v ∨ ∃ w ∈ writes, w.1 = x) :
    writeAll m writes x = v := by
  induction writes generalizing m with
  | nil => simpa [writeAll] using h
  | cons w writes ih =>
    refine ih (fun w' hw' => hv w' (List.mem_cons_of_mem _ hw')) ?_
    dsimp only
    rw [Function.update_apply]
    split_ifs with hx
    · exact .inl (hv w List.mem_cons_self hx.symm)
    · rcases h with h | ⟨w', hw', hx'⟩
      · exact .inl h
      · rcases List.mem_cons.mp hw' with rfl | hw'
        · exact absurd hx'.symm hx
        · exact .inr ⟨w', hw', hx'⟩

theorem mem_copyWrites {ω : Type} {m : Tensors ω} {copies : List (Nat × Nat)}
    {w : (Nat × Nat) × ω} :
    w ∈ copyWrites W m copies ↔ ∃ c ∈ copies, ∃ k < W, w = ((k, c.2), m (k, c.1)) := by
  simp [copyWrites, eq_comm]

theorem eq_of_mem_zip {α β γ : Type} {f : α → γ} {g : β → γ} {xs : List α} {ys : List β}
    (h : xs.map f = ys.map g) {p : α × β} (hp : p ∈ xs.zip ys) : f p.1 = g p.2 := by
  obtain ⟨i, hi⟩ := List.mem_iff_getElem?.mp hp
  obtain ⟨hx, hy⟩ := List.getElem?_zip_eq_some.mp hi
  have heq := congrArg (·[i]?) h
  simpa [hx, hy] using heq

section

variable {ω : Type} {expertWeights : Int → Nat → ω} {weights : Nat → Tensors ω}
  {programs : Nat → RankProgram}

/-- The slots of a rank hold the weights of their experts. -/
def HoldsWeights (L W : Nat) (expertWeights : Int → Nat → ω) (indices : List Int) (r : Nat)
    (m : Tensors ω) : Prop :=
  ∀ i < L, ∀ k < W, expertAt L r indices i ≠ -1 → m (k, i) = expertWeights (expertAt L r indices i) k

/-- A rank receives the weights that the new map names, and for every expert that it does not have. -/
theorem exchangeWrites_spec (hmaps : Maps epSize L oldIndices newIndices)
    (hprograms : ∀ r < epSize, ProgramFor L W r oldIndices newIndices (programs r))
    (hweights : ∀ r < epSize, HoldsWeights L W expertWeights oldIndices r (weights r))
    (hb : b < epSize) :
    (∀ w ∈ exchangeWrites epSize programs weights b,
      w.2 = expertWeights (expertAt L b newIndices w.1.2) w.1.1) ∧
    ∀ q ∈ sortedItems (expertsRecvLoc L b oldIndices newIndices), ∀ k < W,
      ∃ w ∈ exchangeWrites epSize programs weights b, w.1 = (k, q.2) := by
  classical
  have hmatch := fun a ha => sends_match_recvs hmaps (hprograms a ha) (hprograms b hb)
  constructor
  · intro w hw
    obtain ⟨a, ha, hw⟩ := mem_flatMap.mp hw
    obtain ⟨⟨⟨k, dst⟩, k', src⟩, hpair, rfl⟩ := mem_map.mp hw
    have ha := mem_range.mp ha
    obtain ⟨hk, heq⟩ := Prod.mk.inj (eq_of_mem_zip (hmatch a ha).symm hpair)
    dsimp only at hk heq ⊢
    subst hk
    -- the place that the matching send reads from
    have hsend := (List.of_mem_zip hpair).2
    rw [(hprograms a ha).sends] at hsend
    obtain ⟨q, hq, hop⟩ := mem_flatMap.mp hsend
    obtain ⟨k', hk, hop⟩ := mem_map.mp hop
    obtain ⟨rfl, rfl⟩ := Prod.mk.inj hop
    obtain ⟨hlt, hslot, hne⟩ := expertAt_of_mem_sendLoc (mem_filter.mp hq).1
    rw [hweights a ha q.2 hlt k' (mem_range.mp hk) (hslot ▸ hne), ← heq]
  · intro q hq k hk
    obtain ⟨-, -, hne⟩ := expertAt_of_mem_recvLoc hq
    obtain ⟨-, hholds, hnot⟩ := mem_expertsRecvLoc.mp (Dict.mem_of_get? (mem_sortedItems.mp hq))
    obtain ⟨c, hc⟩ := exists_holds hmaps.old hne (hmaps.occurs _ (mem_of_holds hne hholds) hne)
    obtain ⟨a, -, hsrc⟩ := srcRankOf_ok
      (nodup_ranksToRecv L oldIndices newIndices q.1)
      (List.ne_nil_of_mem ((mem_ranksWithExpert_iff hmaps.old hne).mpr hc))
      ((mem_ranksToRecv hmaps.old hmaps.new hne).mpr ⟨hholds, hnot⟩)
    have hex : Exchanged L oldIndices newIndices q.1 a b := (hsrc a).mp rfl
    have ha : a < epSize := by
      obtain ⟨i, -, hi, -⟩ := hex
      exact lt_of_mem_ranksWithExpert hmaps.old (mem_of_getElem? hi)
    have hrecv : (k, q.2) ∈ recvsFrom a (programs b).p2pOps := by
      rw [(hprograms b hb).recvs]
      exact mem_flatMap.mpr ⟨q, mem_filter.mpr ⟨hq, decide_eq_true hex⟩,
        mem_map.mpr ⟨k, mem_range.mpr hk, rfl⟩⟩
    have hlen : (recvsFrom a (programs b).p2pOps).length ≤
        (sendsTo b (programs a).p2pOps).length := by
      have h := congrArg List.length (hmatch a ha)
      simp only [length_map] at h
      exact h.ge
    rw [← List.map_fst_zip hlen] at hrecv
    obtain ⟨pair, hpair, heq⟩ := mem_map.mp hrecv
    exact ⟨_, mem_flatMap.mpr ⟨a, mem_range.mpr ha, mem_map.mpr ⟨pair, hpair, rfl⟩⟩,
      heq⟩

/-- **After all ranks have run their programs, every slot holds the weights of its expert.** -/
theorem runShuffle_holdsWeights (hmaps : Maps epSize L oldIndices newIndices)
    (hprograms : ∀ r < epSize, ProgramFor L W r oldIndices newIndices (programs r))
    (hweights : ∀ r < epSize, HoldsWeights L W expertWeights oldIndices r (weights r))
    (buffers : Nat → Tensors ω) (hb : b < epSize) :
    HoldsWeights L W expertWeights newIndices b
      (runShuffle epSize W programs weights buffers b) := by
  obtain ⟨hright, hreceived⟩ := exchangeWrites_spec hmaps hprograms hweights hb
  have hspec := receiveLocally_spec L b oldIndices newIndices
  unfold runShuffle
  dsimp only
  rw [(hprograms b hb).localCopies]
  generalize hlocal : writeAll (buffers b) (copyWrites W (weights b)
    (receiveLocally L b oldIndices newIndices).2) = localBuffer
  generalize hbuffer : writeAll localBuffer (exchangeWrites epSize programs weights b) = buffer
  -- the buffer, where something has been copied or received
  have hcopied : ∀ c ∈ (receiveLocally L b oldIndices newIndices).2, ∀ k < W,
      buffer (k, c.2) = expertWeights (expertAt L b newIndices c.2) k := by
    intro c hc k hk
    subst hbuffer
    refine writeAll_eq (fun w hw hx => by rw [hright w hw, hx]) (.inl ?_)
    subst hlocal
    refine writeAll_eq (fun w hw hx => ?_) (.inr ⟨_, mem_copyWrites.mpr ⟨c, hc, k, hk, rfl⟩, rfl⟩)
    obtain ⟨c', hc', k', -, rfl⟩ := mem_copyWrites.mp hw
    obtain ⟨rfl, hdst⟩ := Prod.mk.inj hx
    obtain ⟨hmem, hne, heq⟩ := hspec.copy c' hc'
    rw [← hdst, ← heq]
    exact hweights b hb c'.1 (mem_localPairs.mp hmem).1 k' hk (heq ▸ hne)
  have hexchanged : ∀ q ∈ sortedItems (expertsRecvLoc L b oldIndices newIndices), ∀ k < W,
      buffer (k, q.2) = expertWeights (expertAt L b newIndices q.2) k := by
    intro q hq k hk
    subst hbuffer
    exact writeAll_eq (fun w hw hx => by rw [hright w hw, hx]) (.inr (hreceived q hq k hk))
  intro dst hdst k hk hne
  refine writeAll_eq (fun w hw hx => ?_) ?_
  · -- what is copied back
    obtain ⟨c', hc', k', -, rfl⟩ := mem_copyWrites.mp hw
    obtain ⟨c, hc, rfl⟩ := mem_map.mp hc'
    obtain ⟨rfl, hcdst⟩ := Prod.mk.inj hx
    obtain ⟨dst', -, hback⟩ := ((hprograms b hb).copyBacks c).mp hc
    obtain ⟨rfl, hfrom⟩ := copyBackOf_some hback
    subst hcdst
    rcases hfrom with ⟨src, hcopy, hsrc⟩ | hq
    · rw [hsrc]
      exact hcopied _ hcopy k' hk
    · obtain ⟨-, hslot, -⟩ := expertAt_of_mem_recvLoc hq
      exact (hexchanged _ hq k' hk).trans (congrArg (expertWeights · k') hslot)
  · by_cases hsame : isUnchanged L b oldIndices newIndices dst
    · left
      have heq : expertAt L b oldIndices dst = expertAt L b newIndices dst := of_decide_eq_true hsame
      rw [← heq]
      exact hweights b hb dst hdst k hk (heq ▸ hne)
    · right
      obtain ⟨c, hback, hsome⟩ := copyBackOf_ok b oldIndices newIndices hdst
      obtain ⟨src, rfl⟩ := hsome hsame hne
      exact ⟨_, mem_copyWrites.mpr ⟨(src, dst), mem_map.mpr
        ⟨(dst, src), ((hprograms b hb).copyBacks _).mpr ⟨dst, hdst, hback⟩, rfl⟩, k, hk, rfl⟩, rfl⟩

end

end

/-! ## Adding and removing ranks -/

section

variable {L : Nat} {oldIndices newIndices : List Int}

/-- The entries of a rank mapping that is built rank by rank. -/
theorem entries_foldl_set (f : Nat → Int) (n : Nat) :
    ((range n).foldl (fun (m : RankMapping) rank => m.set rank (f rank)) ∅).entries =
      (range n).map fun rank => (rank, f rank) := by
  induction n with
  | zero => rfl
  | succ n ih =>
    rw [range_succ, foldl_append, foldl_cons, foldl_nil,
      Dict.entries_set_of_notMem, ih, List.map_append]
    · rfl
    · rw [Dict.mem_iff, Dict.keys, ih]
      simp

theorem get?_foldl_set (f : Nat → Int) {n rank : Nat} (hrank : rank < n) :
    ((range n).foldl (fun (m : RankMapping) rank => m.set rank (f rank)) ∅).get? rank =
      some (f rank) := by
  rw [Dict.get?_eq_some_iff, entries_foldl_set]
  exact mem_map.mpr ⟨rank, mem_range.mpr hrank, rfl⟩

/-- The block of one more rank is filled in. -/
theorem setSlice_block {indices : List Int} {n m : Nat} (hlen : (n + 1) * L ≤ indices.length) :
    setSlice (indices.take (n * L) ++ replicate ((m + 1) * L) (-1))
        ((indices.drop (n * L)).take L) (n * L) ((n + 1) * L) =
      indices.take ((n + 1) * L) ++ replicate (m * L) (-1) := by
  have htake : (indices.take (n * L)).length = n * L := by
    rw [List.length_take, Nat.min_eq_left]
    exact (Nat.mul_le_mul_right L n.le_succ).trans hlen
  have hnext : (n + 1) * L = n * L + L := Nat.succ_mul n L
  have hrest : (m + 1) * L - L = m * L := by rw [Nat.succ_mul]; omega
  have hnil : (indices.take (n * L)).drop (n * L + L) = [] := List.drop_eq_nil_of_le (by omega)
  rw [setSlice, List.take_left' htake, List.drop_append, htake, hnext, Nat.add_sub_cancel_left,
    hnil, List.nil_append, List.drop_replicate, hrest, List.take_add]

/-- **Scale-up.** The old ranks keep their experts, and the new ranks have none. -/
theorem mapOldExpertIndices_scaleUp {oldEpSize newEpSize : Nat} (hpos : 0 < oldEpSize)
    (hle : oldEpSize ≤ newEpSize) (hlen : oldIndices.length = oldEpSize * L) :
    mapOldExpertIndices oldIndices (scaleUpRankMapping oldEpSize) newEpSize =
      .ok (oldIndices ++ replicate ((newEpSize - oldEpSize) * L) (-1)) := by
  have hentries := entries_foldl_set (fun rank => (rank : Int)) oldEpSize
  have hsize : (scaleUpRankMapping oldEpSize).entries.length = oldEpSize := by
    rw [scaleUpRankMapping, hentries, length_map, length_range]
  have hlocal : oldIndices.length / oldEpSize = L := by
    rw [hlen, Nat.mul_div_cancel_left L hpos]
  refine bind_eq_ok.mpr ⟨(), require_eq_ok.mpr fun h => ?_, ?_⟩
  · rw [h] at hsize
    exact hpos.ne hsize
  rw [pure_eq_ok, hsize, hlocal]
  suffices h : ∀ n ≤ oldEpSize,
      (range n).foldl (mapOldRank (scaleUpRankMapping oldEpSize) newEpSize L oldIndices)
        (replicate (newEpSize * L) (-1)) =
      oldIndices.take (n * L) ++ replicate ((newEpSize - n) * L) (-1) by
    rw [h oldEpSize le_rfl, ← hlen, List.take_length]
  intro n
  induction n with
  | zero => simp
  | succ n ih =>
    intro hn
    have hget : (scaleUpRankMapping oldEpSize).get? n = some (n : Int) :=
      get?_foldl_set (fun rank => (rank : Int)) (by omega)
    have hrange : (0 : Int) ≤ n ∧ (n : Int) < newEpSize := by omega
    obtain ⟨m, hm⟩ : ∃ m, newEpSize - n = m + 1 := ⟨newEpSize - n - 1, by omega⟩
    rw [range_succ, foldl_append, foldl_cons, foldl_nil, ih (by omega),
      mapOldRank, hget]
    dsimp only
    rw [if_pos hrange, Int.toNat_natCast, hm, show newEpSize - (n + 1) = m by omega]
    exact setSlice_block (hlen ▸ Nat.mul_le_mul_right L hn)

/-- **Scale-down.** The ranks that stay get the new experts, and the others none. -/
theorem mapNewExpertIndices_scaleDown {oldEpSize newEpSize : Nat} (hpos : 0 < newEpSize)
    (hle : newEpSize ≤ oldEpSize) (hlen : newIndices.length = newEpSize * L) :
    mapNewExpertIndices newIndices (scaleDownRankMapping oldEpSize newEpSize) =
      .ok (newIndices ++ replicate ((oldEpSize - newEpSize) * L) (-1)) := by
  have hentries := entries_foldl_set
    (fun rank => if rank < newEpSize then (rank : Int) else -1) oldEpSize
  have hsize : (scaleDownRankMapping oldEpSize newEpSize).entries.length = oldEpSize := by
    rw [scaleDownRankMapping, hentries, length_map, length_range]
  have hstay : ((scaleDownRankMapping oldEpSize newEpSize).entries.filter
      fun e => e.2 ≠ -1).length = newEpSize := by
    rw [scaleDownRankMapping, hentries, List.filter_map, length_map]
    have hfilter : (range oldEpSize).filter
        ((fun e : Nat × Int => decide (e.2 ≠ -1)) ∘
          fun rank => (rank, if rank < newEpSize then (rank : Int) else -1)) =
        (range oldEpSize).filter fun rank => rank < newEpSize := by
      refine List.filter_congr fun rank _ => ?_
      by_cases h : rank < newEpSize
      · simp [h]
      · simp [h]
    obtain ⟨d, rfl⟩ := Nat.exists_eq_add_of_le hle
    rw [hfilter, List.range_add, List.filter_append, List.filter_eq_self.mpr (by simp),
      List.filter_eq_nil_iff.mpr (by simp), append_nil, length_range]
  have hlocal : newIndices.length / newEpSize = L := by
    rw [hlen, Nat.mul_div_cancel_left L hpos]
  refine bind_eq_ok.mpr ⟨(), require_eq_ok.mpr fun h => ?_, ?_⟩
  · rw [h] at hsize
    exact (hpos.trans_le hle).ne hsize
  dsimp only
  rw [hstay, hlocal, hsize]
  suffices h : ∀ n ≤ oldEpSize, (range n).foldlM
      (mapNewRank (scaleDownRankMapping oldEpSize newEpSize) newEpSize L newIndices)
        (replicate (oldEpSize * L) (-1)) =
      .ok (newIndices.take (min n newEpSize * L) ++
        replicate ((oldEpSize - min n newEpSize) * L) (-1)) by
    rw [h oldEpSize le_rfl, Nat.min_eq_right hle, ← hlen, List.take_length]
  intro n
  induction n with
  | zero =>
    intro _
    simp
    rfl
  | succ n ih =>
    intro hn
    have hget : (scaleDownRankMapping oldEpSize newEpSize).get? n =
        some (if n < newEpSize then (n : Int) else -1) :=
      get?_foldl_set (fun rank => if rank < newEpSize then (rank : Int) else -1) (by omega)
    rw [range_succ, List.foldlM_append, ih (by omega)]
    refine bind_eq_ok.mpr ⟨_, rfl, bind_eq_ok.mpr ⟨_, ?_, rfl⟩⟩
    rw [mapNewRank, hget]
    dsimp only
    by_cases hlt : n < newEpSize
    · have hrange : (0 : Int) ≤ n ∧ (n : Int) < newEpSize := by omega
      obtain ⟨m, hm⟩ : ∃ m, oldEpSize - n = m + 1 := ⟨oldEpSize - n - 1, by omega⟩
      rw [if_pos hlt, if_pos hrange, Int.toNat_natCast, Nat.min_eq_left hlt.le,
        Nat.min_eq_left (show n + 1 ≤ newEpSize from hlt), hm,
        show oldEpSize - (n + 1) = m by omega]
      exact congrArg _ (setSlice_block (hlen ▸ Nat.mul_le_mul_right L hlt))
    · rw [if_neg hlt, if_neg (by omega), Nat.min_eq_right (by omega), Nat.min_eq_right (by omega)]

theorem expertAt_append_replicate (indices : List Int) (n r i : Nat) :
    expertAt L r (indices ++ replicate n (-1)) i = expertAt L r indices i := by
  rw [expertAt, expertAt, List.getD_eq_getElem?_getD, List.getD_eq_getElem?_getD]
  by_cases hlt : idxLocalToGlobal i L r < indices.length
  · rw [List.getElem?_append_left hlt]
  · rw [List.getElem?_append_right (by omega), List.getElem?_eq_none (l := indices) (by omega),
      List.getElem?_replicate]
    split_ifs <;> rfl

/-- The expert weights end where the map says: every rank finds its program; between each two ranks the
sends and the receives pair up; no weights are read after they have been overwritten; and slots that
hold the weights of the old map hold those of the new one afterwards. -/
def ShufflesRight (epSize L W : Nat) (rankMapping : Option RankMapping)
    (oldIndices newIndices : List Int) : Prop :=
  ∃ programs : Nat → RankProgram,
    (∀ r < epSize, rearrangeExpertWeights epSize L r W rankMapping oldIndices newIndices =
      .ok (programs r)) ∧
    (∀ a < epSize, ∀ b < epSize,
      (sendsTo b (programs a).p2pOps).map (fun op => (op.1, expertAt L a oldIndices op.2)) =
        (recvsFrom a (programs b).p2pOps).map fun op => (op.1, expertAt L b newIndices op.2)) ∧
    (∀ r < epSize, (programs r).actions.Pairwise
      fun x y => ∀ i, x.writes = some i → y.reads ≠ some i) ∧
    ∀ (ω : Type) (expertWeights : Int → Nat → ω) (weights buffers : Nat → Tensors ω),
      (∀ r < epSize, HoldsWeights L W expertWeights oldIndices r (weights r)) →
      ∀ r < epSize, HoldsWeights L W expertWeights newIndices r
        (runShuffle epSize W programs weights buffers r)

theorem pairwise_actions (p : RankProgram) :
    p.actions.Pairwise fun x y => ∀ i, x.writes = some i → y.reads ≠ some i := by
  have hbefore : ∀ x ∈ p.localCopies.map (fun c => RankAction.copyToBuffer c.1 c.2) ++
      p.p2pOps.map .p2p, x.writes = none := by
    intro x hx
    rcases mem_append.mp hx with hx | hx
    · obtain ⟨c, -, rfl⟩ := mem_map.mp hx
      rfl
    · obtain ⟨op, -, rfl⟩ := mem_map.mp hx
      rfl
  have hafter : ∀ y ∈ p.copyBacks.map (fun c => RankAction.copyBack c.1 c.2), y.reads = none := by
    intro y hy
    obtain ⟨c, -, rfl⟩ := mem_map.mp hy
    rfl
  refine List.pairwise_append.mpr ⟨?_, ?_, fun x hx y _ i hi => ?_⟩
  · exact List.pairwise_of_forall_mem_list fun x hx y _ i hi => by simp [hbefore x hx] at hi
  · exact List.pairwise_of_forall_mem_list fun x _ y hy i _ => by simp [hafter y hy]
  · simp [hbefore x hx] at hi

/-- The rank mapping of a call, and the lengths of the maps that it comes with. -/
inductive MappingFor (epSize L : Nat) (oldIndices newIndices : List Int) :
    Option RankMapping → Prop where
  | none (hold : oldIndices.length = epSize * L) (hnew : newIndices.length = epSize * L) :
    MappingFor epSize L oldIndices newIndices none
  | scaleUp {oldEpSize : Nat} (hpos : 0 < oldEpSize) (hlt : oldEpSize < epSize)
    (hold : oldIndices.length = oldEpSize * L) (hnew : newIndices.length = epSize * L) :
    MappingFor epSize L oldIndices newIndices (some (scaleUpRankMapping oldEpSize))
  | scaleDown {newEpSize : Nat} (hpos : 0 < newEpSize) (hle : newEpSize ≤ epSize)
    (hold : oldIndices.length = epSize * L) (hnew : newIndices.length = newEpSize * L) :
    MappingFor epSize L oldIndices newIndices (some (scaleDownRankMapping epSize newEpSize))

/-- The mapped maps hold the same experts, and are as long as the group has slots. -/
theorem MappingFor.mapIndices_ok {epSize : Nat} {rankMapping : Option RankMapping}
    (h : MappingFor epSize L oldIndices newIndices rankMapping) :
    ∃ n m, mapIndices epSize rankMapping oldIndices newIndices =
        .ok (oldIndices ++ replicate n (-1), newIndices ++ replicate m (-1)) ∧
      (oldIndices ++ replicate n (-1)).length = epSize * L ∧
      (newIndices ++ replicate m (-1)).length = epSize * L := by
  cases h with
  | none hold hnew =>
    refine ⟨0, 0, ?_, by simpa using hold, by simpa using hnew⟩
    rw [mapIndices, List.replicate_zero, append_nil, append_nil]
  | @scaleUp oldEpSize hpos hlt hold hnew =>
    refine ⟨(epSize - oldEpSize) * L, 0, ?_, ?_, by simpa using hnew⟩
    · have hsize : (scaleUpRankMapping oldEpSize).entries.length ≠ epSize := by
        rw [scaleUpRankMapping, entries_foldl_set fun rank => (rank : Int), length_map,
          length_range]
        exact hlt.ne
      rw [mapIndices, if_neg hsize, mapOldExpertIndices_scaleUp hpos hlt.le hold, List.replicate_zero,
        append_nil]
      rfl
    · rw [List.length_append, List.length_replicate, hold, ← Nat.add_mul,
        Nat.add_sub_cancel' hlt.le]
  | @scaleDown newEpSize hpos hle hold hnew =>
    refine ⟨0, (epSize - newEpSize) * L, ?_, by simpa using hold, ?_⟩
    · have hsize : (scaleDownRankMapping epSize newEpSize).entries.length = epSize := by
        rw [scaleDownRankMapping,
          entries_foldl_set fun rank => if rank < newEpSize then (rank : Int) else -1,
          length_map, length_range]
      rw [mapIndices, if_pos hsize, mapNewExpertIndices_scaleDown hpos hle hnew, List.replicate_zero,
        append_nil]
      rfl
    · rw [List.length_append, List.length_replicate, hnew, ← Nat.add_mul,
        Nat.add_sub_cancel' hle]

/-- **Expert weights end where the map says**, for every number of ranks and slots, with and without
ranks added or removed, if every expert of the new map is in the old one. -/
theorem rearrangeExpertWeights_correct {epSize W : Nat} {rankMapping : Option RankMapping}
    (hmapping : MappingFor epSize L oldIndices newIndices rankMapping)
    (hoccurs : ∀ e ∈ newIndices, e ≠ -1 → e ∈ oldIndices) :
    ShufflesRight epSize L W rankMapping oldIndices newIndices := by
  obtain ⟨n, m, hmap, hold, hnew⟩ := hmapping.mapIndices_ok
  generalize hold' : oldIndices ++ List.replicate n (-1) = oldMapped at hmap hold
  generalize hnew' : newIndices ++ List.replicate m (-1) = newMapped at hmap hnew
  have hmaps : Maps epSize L oldMapped newMapped := by
    refine ⟨hold, hnew, fun e he hne => ?_⟩
    subst hold' hnew'
    rcases List.mem_append.mp he with he | he
    · exact List.mem_append_left _ (hoccurs e he hne)
    · exact absurd (List.eq_of_mem_replicate he) hne
  have hexpertOld : ∀ r i, expertAt L r oldMapped i = expertAt L r oldIndices i := fun r i =>
    hold' ▸ expertAt_append_replicate oldIndices n r i
  have hexpertNew : ∀ r i, expertAt L r newMapped i = expertAt L r newIndices i := fun r i =>
    hnew' ▸ expertAt_append_replicate newIndices m r i
  choose programs hok hprogram using fun r => shuffleLayer_ok (W := W) hmaps r
  refine ⟨programs, fun r _ => ?_, fun a _ b _ => ?_, fun r _ => pairwise_actions _,
    fun ω expertWeights weights buffers hweights r hr => ?_⟩
  · exact bind_eq_ok.mpr ⟨_, hmap, bind_eq_ok.mpr ⟨(), require_eq_ok.mpr
      ⟨hold.trans hnew.symm, hold⟩, hok r⟩⟩
  · have h := sends_match_recvs hmaps (hprogram a) (hprogram b)
    simpa only [hexpertOld, hexpertNew] using h
  · have hbefore : ∀ r < epSize, HoldsWeights L W expertWeights oldMapped r (weights r) :=
      fun r hr => by simpa only [HoldsWeights, hexpertOld] using hweights r hr
    have h := runShuffle_holdsWeights hmaps (fun r _ => hprogram r) hbefore buffers hr
    simpa only [HoldsWeights, hexpertNew] using h

/-- One rank becomes two, and the new one gets both experts. -/
theorem shufflesRight_scaleUp :
    ShufflesRight 2 2 1 (some (scaleUpRankMapping 1)) [0, 1] [1, 0, 0, 1] :=
  rearrangeExpertWeights_correct (.scaleUp (by decide) (by decide) rfl rfl) (by decide)

end

end InferenceServer.Distributed
