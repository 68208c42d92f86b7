import InferenceServer.Distributed.Barrier
import InferenceServer.Distributed.GroupMessages

/-!
# The barrier synchronises

Count the progress of a rank in steps of the protocol: a barrier has seven stages, and a rank that
has returned from `k` barriers and is at stage `m` of the next one has made the progress `7 * k + m`.
Progress never decreases. What a key of the store says is that a certain rank has made a certain
progress: the rank has set the key itself, and the id in the key is that of one barrier only.

A rank leaves the loop over the arrivals when it has found the keys of all ranks, so that all ranks
have arrived in this barrier; and rank 0 leaves the loop over the departures when all ranks have
departed. Only then does it delete the keys. A rank that has departed looks for no key of this
barrier any more, and the keys of another barrier are other keys.

## Main results

* `arrivalKey_inj`, `departureKey_inj`: the keys of different barriers and ranks are different
* `barrierInvariant_of_reach`: the invariant holds in every interleaving
* `barrier_synchronises`
-/

namespace InferenceServer.Distributed

open Outcome
open Function (update update_of_ne update_self update_apply)

variable {n : Nat}

/-! ## The keys -/

variable {r r' : Fin n} {id id' : String}

/-- A word, an underscore and a rank: the last underscore divides them. -/
theorem underscore_inj {w w' : String}
    (h : w ++ "_" ++ toString r.val = w' ++ "_" ++ toString r'.val) : w = w' ∧ r = r' := by
  have hlist := congrArg (fun s => s.toList.reverse) h
  have happ : ∀ (w : String) (r : Fin n), (w ++ "_" ++ toString r.val).toList.reverse =
      (Nat.toDigits 10 r.val).reverse ++ ['_'] ++ w.toList.reverse := by
    intro w r
    simp [Nat.toList_repr]
  have hapart : TellsApart (fun m => (Nat.toDigits 10 m).reverse ++ ['_']) r.val r'.val := by
    apply TellsApart.delimited (p := Char.isDigit) _ _ rfl
    · intro heq
      exact toDigits_ten_inj.mp (List.reverse_injective heq)
    · intro c hc
      exact isDigit_toDigits_ten c (List.mem_reverse.mp hc)
    · intro c hc
      exact isDigit_toDigits_ten c (List.mem_reverse.mp hc)
  rw [happ, happ] at hlist
  obtain ⟨hr, hw⟩ := hapart _ _ hlist
  exact ⟨String.toList_inj.mp (List.reverse_injective hw), Fin.ext hr⟩

theorem arrivalKey_inj :
    arrivalKey id r = arrivalKey id' r' ↔ id = id' ∧ r = r' := by
  constructor
  · intro h
    obtain ⟨hid, hr⟩ := underscore_inj h
    exact ⟨(String.append_right_inj _).mp hid, hr⟩
  · rintro ⟨rfl, rfl⟩
    rfl

theorem departureKey_inj :
    departureKey id r = departureKey id' r' ↔ id = id' ∧ r = r' := by
  constructor
  · intro h
    obtain ⟨hid, hr⟩ := underscore_inj h
    exact ⟨(String.append_right_inj _).mp hid, hr⟩
  · rintro ⟨rfl, rfl⟩
    rfl

theorem arrivalKey_ne_departureKey :
    arrivalKey id r ≠ departureKey id' r' := by
  intro h
  have hlist := congrArg String.toList h
  simp [arrivalKey, departureKey] at hlist

theorem broadcastKey_ne_arrivalKey {src : Fin n} {k : Nat} :
    broadcastKey src k ≠ arrivalKey id r := by
  intro h
  have hlist := congrArg String.toList h
  simp [arrivalKey, broadcastKey] at hlist

theorem broadcastKey_ne_departureKey {src : Fin n} {k : Nat} :
    broadcastKey src k ≠ departureKey id r := by
  intro h
  have hlist := congrArg String.toList h
  simp [departureKey, broadcastKey] at hlist

open BarrierGroup in
theorem barrierId_inj {uuid : Nat → String} (huuid : Function.Injective uuid) {j k : Nat} :
    barrierId uuid j = barrierId uuid k ↔ j = k := by
  constructor
  · intro h
    exact huuid ((String.append_right_inj _).mp h)
  · rintro rfl
    rfl

/-! ## Progress -/

/-- The stages of a barrier. -/
def BarrierPc.stage : BarrierPc n → Nat
  | .idle => 0
  | .broadcastId => 1
  | .signalArrival _ => 2
  | .pollArrivals .. => 3
  | .signalDeparture _ => 4
  | .pollDepartures .. => 5
  | .deleteArrival .. | .deleteDeparture .. => 6

/-- The id of the barrier that a rank is in, if it has it. -/
def BarrierPc.id? : BarrierPc n → Option String
  | .idle | .broadcastId => none
  | .signalArrival id | .pollArrivals id _ _ | .signalDeparture id | .pollDepartures id _ _
  | .deleteArrival id _ | .deleteDeparture id _ => some id

/-- How far a rank has come. -/
def BarrierRank.progress (p : BarrierRank n) : Nat := 7 * p.returned + p.pc.stage

/-- Rank `r` has come to stage `m` of barrier `j`. -/
def BarrierGroup.Reached (s : BarrierGroup n) (r : Fin n) (m j : Nat) : Prop :=
  7 * j + m ≤ (s.ranks r).progress

/-- What a rank knows from the keys that it has found. -/
def BarrierPc.Knows (s : BarrierGroup n) (j : Nat) : BarrierPc n → Prop
  | .pollArrivals _ processesArrived _ => ∀ q ∈ processesArrived, s.Reached q 3 j
  | .pollDepartures _ processesDeparted _ => ∀ q ∈ processesDeparted, s.Reached q 5 j
  | _ => True

section Progress

variable {s s' : BarrierGroup n} {p : BarrierRank n} {r : Fin n}

/-- Progress is kept. -/
theorem BarrierGroup.Reached.mono {q : Fin n} {m j : Nat} (h : s.Reached q m j)
    (hranks : s'.ranks = update s.ranks r p)
    (hmono : (s.ranks r).progress ≤ p.progress) : s'.Reached q m j := by
  unfold BarrierGroup.Reached at *
  rw [hranks, update_apply]
  split_ifs with hq
  · subst hq
    exact h.trans hmono
  · exact h

theorem BarrierPc.Knows.mono {pc : BarrierPc n} {j : Nat} (h : pc.Knows s j)
    (hranks : s'.ranks = update s.ranks r p)
    (hmono : (s.ranks r).progress ≤ p.progress) : pc.Knows s' j := by
  cases pc with
  | pollArrivals id processes i => exact fun q hq => (h q hq).mono hranks hmono
  | pollDepartures id processes i => exact fun q hq => (h q hq).mono hranks hmono
  | _ => trivial

/-- What the loops find. -/
theorem poll_knows {key : Fin n → String} {processes : Finset (Fin n)} {i : Fin n} {m j : Nat}
    (hprocesses : ∀ q ∈ processes, s.Reached q m j)
    (hkey : ∀ q v, s.store (key q) = some v → s.Reached q m j) :
    ∀ q ∈ s.poll key processes i, s.Reached q m j := by
  intro q hq
  unfold BarrierGroup.poll at hq
  split_ifs at hq with hi
  · exact hprocesses q hq
  · cases hget : s.store (key i) with
    | none =>
      rw [hget] at hq
      exact hprocesses q hq
    | some v =>
      rw [hget] at hq
      rcases Finset.mem_insert.mp hq with rfl | hq
      · exact hkey q v hget
      · exact hprocesses q hq

/-- A loop that is left has found all ranks. -/
theorem mem_of_not_card_lt {processes : Finset (Fin n)} (h : ¬ processes.card < n) (q : Fin n) :
    q ∈ processes := by
  have huniv : processes = Finset.univ := by
    apply Finset.eq_univ_of_card
    rw [Fintype.card_fin]
    have hle := Finset.card_le_univ processes
    rw [Fintype.card_fin] at hle
    omega
  rw [huniv]
  exact Finset.mem_univ q

end Progress

section Statement

variable [NeZero n]

/-- Rank `r` looks for `key`, and goes on when it is found. -/
def BarrierGroup.WaitsFor (s : BarrierGroup n) (r : Fin n) (key : String) : Prop :=
  match (s.ranks r).pc with
  | .broadcastId =>
    r ≠ 0 ∧ key = broadcastKey (0 : Fin n) ((s.ranks r).group.broadcastRecvSrcCounter 0)
  | .pollArrivals id processesArrived _ => ∃ q ∉ processesArrived, key = arrivalKey id q
  | .pollDepartures id processesDeparted _ => ∃ q ∉ processesDeparted, key = departureKey id q
  | _ => False

/-- No rank has returned from a barrier that some rank has not entered, no rank is behind rank 0, and
no rank waits for a key that has been deleted. -/
structure Synchronised (s : BarrierGroup n) : Prop where
  entered : ∀ r r' k, k ≤ (s.ranks r).returned → k ≤ (s.ranks r').entered
  last : ∀ r k, k ≤ (s.ranks 0).returned → k ≤ (s.ranks r).returned
  waits : ∀ r key, s.WaitsFor r key → key ∉ s.deleted

end Statement

/-! ## The invariant -/

open BarrierRank (progress)

section Invariant

variable [NeZero n] {uuid : Nat → String} {s s' : BarrierGroup n} {p : BarrierRank n} {r : Fin n}

open BarrierGroup (barrierId)

/-- How many ids a rank has had. -/
def BarrierRank.ids (p : BarrierRank n) : Nat := p.returned + min (p.pc.stage / 2) 1

/-- What a rank knows from itself: the id of its barrier is the next one, and only rank 0 waits for
the departures. -/
structure BarrierRank.Follows (uuid : Nat → String) (r : Fin n) (p : BarrierRank n) : Prop where
  rank : p.group.rank = r
  entered : p.entered = p.returned + min p.pc.stage 1
  stage : r ≠ 0 → p.pc.stage ≤ 4
  id : ∀ id, p.pc.id? = some id → id = barrierId uuid p.returned
  generated : r = 0 → p.generated = p.ids ∧ p.group.broadcastSendCounter = p.ids
  received : r ≠ 0 → p.group.broadcastRecvSrcCounter 0 = p.ids

/-- What the keys of the store say, and what the ranks know. -/
structure BarrierInvariant (uuid : Nat → String) (s : BarrierGroup n) : Prop where
  follows : ∀ r, (s.ranks r).Follows uuid r
  knows : ∀ r, (s.ranks r).pc.Knows s (s.ranks r).returned
  ids : ∀ k v, s.store (broadcastKey (0 : Fin n) k) = some v → v = barrierId uuid k
  arrival : ∀ j q v, s.store (arrivalKey (barrierId uuid j) q) = some v → s.Reached q 3 j
  departure : ∀ j q v, s.store (departureKey (barrierId uuid j) q) = some v → s.Reached q 5 j
  passed : ∀ r j, s.Reached r 4 j → ∀ q, s.Reached q 3 j
  cleaned : ∀ j, s.Reached 0 6 j → ∀ q, s.Reached q 5 j
  deleted : ∀ key ∈ s.deleted, ∃ j, ∃ q : Fin n, (key = arrivalKey (barrierId uuid j) q ∨
    key = departureKey (barrierId uuid j) q) ∧ s.Reached 0 6 j

/-- **The rule for a step** of rank `r`. What is new is what it stores, and what it has come to. -/
theorem BarrierInvariant.put (h : BarrierInvariant uuid s)
    (hranks : s'.ranks = update s.ranks r p)
    (hmono : (s.ranks r).progress ≤ p.progress) (hfollows : p.Follows uuid r)
    (hknows : p.pc.Knows s p.returned)
    (hids : ∀ k v, s'.store (broadcastKey (0 : Fin n) k) = some v →
      s.store (broadcastKey (0 : Fin n) k) = some v ∨ v = barrierId uuid k)
    (harrival : ∀ j q v, s'.store (arrivalKey (barrierId uuid j) q) = some v →
      s.store (arrivalKey (barrierId uuid j) q) = some v ∨ s'.Reached q 3 j)
    (hdeparture : ∀ j q v, s'.store (departureKey (barrierId uuid j) q) = some v →
      s.store (departureKey (barrierId uuid j) q) = some v ∨ s'.Reached q 5 j)
    (hpassed : ∀ j, 7 * j + 4 ≤ p.progress → s.Reached r 4 j ∨ ∀ q, s.Reached q 3 j)
    (hcleaned : r = 0 → ∀ j, 7 * j + 6 ≤ p.progress → s.Reached r 6 j ∨ ∀ q, s.Reached q 5 j)
    (hdeleted : ∀ key ∈ s'.deleted, key ∈ s.deleted ∨ ∃ j, ∃ q : Fin n,
      (key = arrivalKey (barrierId uuid j) q ∨ key = departureKey (barrierId uuid j) q) ∧
        s.Reached 0 6 j) : BarrierInvariant uuid s' := by
  have hother : ∀ q ≠ r, s'.ranks q = s.ranks q := by
    intro q hq
    rw [hranks, update_of_ne hq]
  have hself : s'.ranks r = p := by
    rw [hranks, update_self]
  refine ⟨?_, ?_, ?_, ?_, ?_, ?_, ?_, ?_⟩
  · intro q
    by_cases hq : q = r
    · subst hq
      rwa [hself]
    · rw [hother q hq]
      exact h.follows q
  · intro q
    by_cases hq : q = r
    · subst hq
      rw [hself]
      exact hknows.mono hranks hmono
    · rw [hother q hq]
      exact (h.knows q).mono hranks hmono
  · intro k v hget
    rcases hids k v hget with hold | hnew
    · exact h.ids k v hold
    · exact hnew
  · intro j q v hget
    rcases harrival j q v hget with hold | hnew
    · exact (h.arrival j q v hold).mono hranks hmono
    · exact hnew
  · intro j q v hget
    rcases hdeparture j q v hget with hold | hnew
    · exact (h.departure j q v hold).mono hranks hmono
    · exact hnew
  · intro q j hreached q'
    have hall : ∀ q', s.Reached q' 3 j := by
      by_cases hq : q = r
      · subst hq
        unfold BarrierGroup.Reached at hreached
        rw [hself] at hreached
        rcases hpassed j hreached with hold | hnew
        · exact h.passed q j hold
        · exact hnew
      · unfold BarrierGroup.Reached at hreached
        rw [hother q hq] at hreached
        exact h.passed q j hreached
    exact (hall q').mono hranks hmono
  · intro j hreached q
    have hall : ∀ q, s.Reached q 5 j := by
      unfold BarrierGroup.Reached at hreached
      by_cases hr : r = 0
      · subst hr
        rw [hself] at hreached
        rcases hcleaned rfl j hreached with hold | hnew
        · exact h.cleaned j hold
        · exact hnew
      · rw [hother 0 (Ne.symm hr)] at hreached
        exact h.cleaned j hreached
    exact (hall q).mono hranks hmono
  · intro key hkey
    rcases hdeleted key hkey with hold | ⟨j, q, hnew, hreached⟩
    · obtain ⟨j, q, hkey, hreached⟩ := h.deleted key hold
      exact ⟨j, q, hkey, hreached.mono hranks hmono⟩
    · exact ⟨j, q, hnew, hreached.mono hranks hmono⟩

/-- A rank goes on without a change of the store, and passes no loop. -/
theorem BarrierInvariant.move (h : BarrierInvariant uuid s)
    (hmono : (s.ranks r).progress ≤ p.progress) (hfollows : p.Follows uuid r)
    (hknows : p.pc.Knows s p.returned)
    (hpassed : ∀ j, 7 * j + 4 ≤ p.progress → s.Reached r 4 j ∨ ∀ q, s.Reached q 3 j)
    (hcleaned : r = 0 → ∀ j, 7 * j + 6 ≤ p.progress → s.Reached r 6 j ∨ ∀ q, s.Reached q 5 j) :
    BarrierInvariant uuid (s.put r p) :=
  h.put rfl hmono hfollows hknows (fun _ _ => .inl) (fun _ _ _ => .inl) (fun _ _ _ => .inl)
    hpassed hcleaned (fun _ => .inl)

variable {id : String} {pc : BarrierPc n}

/-- Rank 0 broadcasts the id of its barrier, and the other ranks receive that of theirs. -/
theorem BarrierInvariant.broadcast (h : BarrierInvariant uuid s) {obj : String}
    {group : StatelessProcessGroup n} {store : Store String}
    (hpc : (s.ranks r).pc = .broadcastId) (hp : p.group = group ∧ p.pc = .signalArrival id ∧
      p.entered = (s.ranks r).entered ∧ p.returned = (s.ranks r).returned ∧
      p.generated = (s.ranks r).generated + if r = 0 then 1 else 0)
    (hobj : r = 0 → obj = barrierId uuid (s.ranks r).generated)
    (hbroadcast : (s.ranks r).group.broadcastObj s.store obj 0 = .ok (id, group, store)) :
    BarrierInvariant uuid ({ s with store }.put r p) := by
  obtain ⟨hgroup, hpc', hentered, hreturned, hgenerated⟩ := hp
  have hf := h.follows r
  have hids : (s.ranks r).ids = (s.ranks r).returned := by
    simp [BarrierRank.ids, hpc, BarrierPc.stage]
  have hids' : p.ids = (s.ranks r).returned + 1 := by
    simp [BarrierRank.ids, hpc', BarrierPc.stage, hreturned]
  have hprogress : (s.ranks r).progress = 7 * (s.ranks r).returned + 1 := by
    simp [progress, hpc, BarrierPc.stage]
  have hprogress' : p.progress = 7 * (s.ranks r).returned + 2 := by
    simp [progress, hpc', BarrierPc.stage, hreturned]
  have hent : p.entered = p.returned + min p.pc.stage 1 := by
    have hent := hf.entered
    simp [hpc, BarrierPc.stage] at hent
    simp [hpc', BarrierPc.stage, hentered, hreturned, hent]
  have hpassed : ∀ j, 7 * j + 4 ≤ p.progress → s.Reached r 4 j ∨ ∀ q, s.Reached q 3 j := by
    intro j hj
    left
    unfold BarrierGroup.Reached
    omega
  have hcleaned : r = 0 → ∀ j, 7 * j + 6 ≤ p.progress → s.Reached r 6 j ∨ ∀ q, s.Reached q 5 j := by
    intro _ j hj
    left
    unfold BarrierGroup.Reached
    omega
  have hknows : p.pc.Knows s p.returned := by
    rw [hpc']
    trivial
  unfold StatelessProcessGroup.broadcastObj at hbroadcast
  have hrank := hf.rank
  by_cases hr : r = 0
  · subst hr
    obtain ⟨hgen, hctr⟩ := hf.generated rfl
    rw [if_pos hrank, hobj rfl] at hbroadcast
    cases hbroadcast
    refine h.put rfl (by omega) ⟨?_, hent, fun h => absurd rfl h, ?_, ?_, fun h => absurd rfl h⟩
      hknows ?_ ?_ ?_ hpassed hcleaned (fun _ => .inl)
    · rw [hgroup]
      exact hrank
    · intro id hid
      rw [hpc', BarrierPc.id?, hgen, hids] at hid
      rw [← Option.some.inj hid, hreturned]
    · intro _
      rw [hgenerated, hgroup, hids', hgen, hids]
      refine ⟨rfl, ?_⟩
      rw [hctr, hids]
    · -- the entry that is set is that of the barrier
      intro k v hget
      by_cases hkey : broadcastKey (0 : Fin n) k =
          broadcastKey (0 : Fin n) (s.ranks 0).group.broadcastSendCounter
      · obtain ⟨-, rfl⟩ := broadcastKey_inj.mp hkey
        dsimp only [BarrierGroup.put] at hget
        rw [update_self] at hget
        right
        rw [← Option.some.inj hget, hctr, hgen]
      · dsimp only [BarrierGroup.put] at hget
        rw [update_of_ne hkey] at hget
        exact .inl hget
    · intro j q v hget
      dsimp only [BarrierGroup.put] at hget
      rw [update_of_ne broadcastKey_ne_arrivalKey.symm] at hget
      exact .inl hget
    · intro j q v hget
      dsimp only [BarrierGroup.put] at hget
      rw [update_of_ne broadcastKey_ne_departureKey.symm] at hget
      exact .inl hget
  · rw [if_neg (fun hzero => hr (hrank.symm.trans hzero))] at hbroadcast
    dsimp only at hbroadcast
    cases hget : s.store (broadcastKey (0 : Fin n)
        ((s.ranks r).group.broadcastRecvSrcCounter 0)) with
    | none => simp [hget] at hbroadcast
    | some received =>
      rw [hget] at hbroadcast
      cases hbroadcast
      have hctr := hf.received hr
      refine h.put rfl (by omega)
        ⟨?_, hent, fun _ => by simp [hpc', BarrierPc.stage], ?_, fun h => absurd h hr, ?_⟩
        hknows (fun _ _ => .inl) (fun _ _ _ => .inl) (fun _ _ _ => .inl) hpassed hcleaned
        (fun _ => .inl)
      · rw [hgroup]
        exact hrank
      · intro id hid
        rw [hpc', BarrierPc.id?] at hid
        rw [← Option.some.inj hid, hreturned, h.ids _ _ hget, hctr, hids]
      · intro _
        rw [hgroup, hids']
        dsimp only
        rw [update_self, hctr, hids]

/-- A rank that has its id goes on in the same barrier. -/
theorem BarrierRank.Follows.goTo (hf : p.Follows uuid r)
    (hstage : 2 ≤ p.pc.stage) (hstage' : 2 ≤ pc.stage) (hid : pc.id? = p.pc.id?)
    (hle : r ≠ 0 → pc.stage ≤ 4) : (p.goTo pc).Follows uuid r := by
  have hids : (p.goTo pc).ids = p.ids := by
    simp only [BarrierRank.ids, BarrierRank.goTo]
    omega
  refine ⟨hf.rank, ?_, hle, ?_, ?_, ?_⟩
  · have hent := hf.entered
    simp only [BarrierRank.goTo]
    omega
  · intro id hpc
    exact hf.id id (hid.symm.trans hpc)
  · rw [hids]
    exact hf.generated
  · rw [hids]
    exact hf.received

/-- A rank returns. -/
theorem BarrierRank.Follows.returns (hf : p.Follows uuid r) (hstage : 2 ≤ p.pc.stage) :
    p.returns.Follows uuid r := by
  have hzero : p.returns.pc.stage = 0 := rfl
  have hids : p.returns.ids = p.ids := by
    simp only [BarrierRank.ids, hzero]
    simp only [BarrierRank.returns]
    omega
  refine ⟨hf.rank, ?_, fun _ => Nat.zero_le _, fun id hid => (by cases hid), ?_, ?_⟩
  · have hent := hf.entered
    rw [hzero]
    simp only [BarrierRank.returns]
    omega
  · rw [hids]
    exact hf.generated
  · rw [hids]
    exact hf.received

/-- `barrier` is called. -/
theorem BarrierInvariant.barrier (h : BarrierInvariant uuid s) (hpc : (s.ranks r).pc = .idle) :
    BarrierInvariant uuid
      (s.put r { s.ranks r with pc := .broadcastId, entered := (s.ranks r).entered + 1 }) := by
  have hf := h.follows r
  have hent := hf.entered
  have hgen := hf.generated
  have hrecv := hf.received
  simp only [BarrierRank.ids, hpc, BarrierPc.stage] at hent hgen hrecv
  apply h.move
  · simp [progress, hpc, BarrierPc.stage]
  · refine ⟨hf.rank, ?_, fun _ => ?_, fun id hid => (by cases hid), ?_, ?_⟩
    · simp [BarrierPc.stage, hent]
    · simp [BarrierPc.stage]
    · simpa [BarrierRank.ids, BarrierPc.stage] using hgen
    · simpa [BarrierRank.ids, BarrierPc.stage] using hrecv
  · trivial
  · intro j hj
    left
    simp only [BarrierGroup.Reached, progress, hpc, BarrierPc.stage] at hj ⊢
    omega
  · intro _ j hj
    left
    simp only [BarrierGroup.Reached, progress, hpc, BarrierPc.stage] at hj ⊢
    omega

/-- The arrival is signalled. -/
theorem BarrierInvariant.signalArrival (huuid : Function.Injective uuid)
    (h : BarrierInvariant uuid s) (hpc : (s.ranks r).pc = .signalArrival id) :
    BarrierInvariant uuid
      ((s.set (arrivalKey id r) "1").put r ((s.ranks r).goTo (.pollArrivals id ∅ 0))) := by
  have hf := h.follows r
  have hid : id = barrierId uuid (s.ranks r).returned := hf.id id (by rw [hpc]; rfl)
  have hprogress : (s.ranks r).progress = 7 * (s.ranks r).returned + 2 := by
    simp [progress, hpc, BarrierPc.stage]
  have hprogress' : ((s.ranks r).goTo (.pollArrivals id ∅ 0)).progress =
      7 * (s.ranks r).returned + 3 := rfl
  refine h.put rfl (by omega) ?_ ?_ ?_ ?_ ?_ ?_ ?_ (fun _ => .inl)
  · apply hf.goTo <;> simp [hpc, BarrierPc.stage, BarrierPc.id?]
  · intro q hq
    cases hq
  · intro k v hget
    dsimp only [BarrierGroup.put, BarrierGroup.set] at hget
    rw [update_of_ne broadcastKey_ne_arrivalKey] at hget
    exact .inl hget
  · -- the key that is set is that of this rank in this barrier
    intro j q v hget
    by_cases hkey : arrivalKey (barrierId uuid j) q = arrivalKey id r
    · obtain ⟨hj, rfl⟩ := arrivalKey_inj.mp hkey
      rw [hid, barrierId_inj huuid] at hj
      right
      unfold BarrierGroup.Reached
      dsimp only [BarrierGroup.put]
      rw [update_self]
      omega
    · dsimp only [BarrierGroup.put, BarrierGroup.set] at hget
      rw [update_of_ne hkey] at hget
      exact .inl hget
  · intro j q v hget
    dsimp only [BarrierGroup.put, BarrierGroup.set] at hget
    rw [update_of_ne arrivalKey_ne_departureKey.symm] at hget
    exact .inl hget
  · intro j hj
    left
    unfold BarrierGroup.Reached
    omega
  · intro _ j hj
    left
    unfold BarrierGroup.Reached
    omega

/-- The departure is signalled; `p` is the rank after it. -/
theorem BarrierInvariant.signalDeparture (huuid : Function.Injective uuid)
    (h : BarrierInvariant uuid s) (hpc : (s.ranks r).pc = .signalDeparture id)
    (hp : p = if r ≠ 0 then (s.ranks r).returns else (s.ranks r).goTo (.pollDepartures id ∅ 0)) :
    BarrierInvariant uuid ((s.set (departureKey id r) "1").put r p) := by
  have hf := h.follows r
  have hid : id = barrierId uuid (s.ranks r).returned := hf.id id (by rw [hpc]; rfl)
  have hprogress : (s.ranks r).progress = 7 * (s.ranks r).returned + 4 := by
    simp [progress, hpc, BarrierPc.stage]
  have hprogress' : 7 * (s.ranks r).returned + 5 ≤ p.progress ∧
      p.progress ≤ 7 * (s.ranks r).returned + 7 ∧
      (r = 0 → p.progress = 7 * (s.ranks r).returned + 5) := by
    rw [hp]
    split_ifs with hr
    · simp only [progress, BarrierRank.returns, BarrierPc.stage]
      exact ⟨by omega, by omega, fun hzero => absurd hzero hr⟩
    · simp [progress, BarrierRank.goTo, BarrierPc.stage]
  refine h.put rfl (by omega) ?_ ?_ ?_ ?_ ?_ ?_ ?_ (fun _ => .inl)
  · rw [hp]
    split_ifs with hr
    · apply hf.returns
      simp [hpc, BarrierPc.stage]
    · apply hf.goTo
      · simp [hpc, BarrierPc.stage]
      · simp [BarrierPc.stage]
      · rw [hpc]
        rfl
      · exact fun hne => absurd hne hr
  · rw [hp]
    split_ifs
    · trivial
    · intro q hq
      cases hq
  · intro k v hget
    dsimp only [BarrierGroup.put, BarrierGroup.set] at hget
    rw [update_of_ne broadcastKey_ne_departureKey] at hget
    exact .inl hget
  · intro j q v hget
    dsimp only [BarrierGroup.put, BarrierGroup.set] at hget
    rw [update_of_ne arrivalKey_ne_departureKey] at hget
    exact .inl hget
  · intro j q v hget
    by_cases hkey : departureKey (barrierId uuid j) q = departureKey id r
    · obtain ⟨hj, rfl⟩ := departureKey_inj.mp hkey
      rw [hid, barrierId_inj huuid] at hj
      right
      unfold BarrierGroup.Reached
      dsimp only [BarrierGroup.put]
      rw [update_self]
      omega
    · dsimp only [BarrierGroup.put, BarrierGroup.set] at hget
      rw [update_of_ne hkey] at hget
      exact .inl hget
  · intro j hj
    left
    unfold BarrierGroup.Reached
    omega
  · intro hr j hj
    have hexact := hprogress'.2.2 hr
    left
    unfold BarrierGroup.Reached
    omega

variable (h : BarrierInvariant uuid s)

include h

/-- A key of the barrier is deleted, after rank 0 has found all departures. -/
theorem BarrierInvariant.delete {key : String}
    (hstage : (s.ranks r).pc.stage = 6) (hpc : (s.ranks r).pc.id? = some id)
    (hstage' : pc.stage = 6) (hid : pc.id? = some id)
    (hkey : ∃ q : Fin n, key = arrivalKey id q ∨ key = departureKey id q) :
    BarrierInvariant uuid ((s.deleteKey key).put r ((s.ranks r).goTo pc)) := by
  have hf := h.follows r
  have hidr := hf.id id hpc
  obtain rfl : r = 0 := by
    by_contra hne
    have hle := hf.stage hne
    omega
  have hprogress : (s.ranks 0).progress = 7 * (s.ranks 0).returned + 6 := by
    rw [progress, hstage]
  have hprogress' : ((s.ranks 0).goTo pc).progress = 7 * (s.ranks 0).returned + 6 := by
    rw [progress, BarrierRank.goTo, hstage']
  -- a deleted key is missing, and the others are as before
  have hstore : ∀ k v, update s.store key none k = some v → s.store k = some v := by
    intro k v hget
    by_cases hk : k = key
    · rw [hk, update_self] at hget
      cases hget
    · rwa [update_of_ne hk] at hget
  refine h.put rfl (by omega) ?_ ?_ (fun k v hget => .inl (hstore _ _ hget))
    (fun j q v hget => .inl (hstore _ _ hget)) (fun j q v hget => .inl (hstore _ _ hget)) ?_ ?_ ?_
  · exact hf.goTo (by omega) (by omega) (hid.trans hpc.symm) (fun hne => absurd rfl hne)
  · cases pc with
    | pollArrivals => cases hstage'
    | pollDepartures => cases hstage'
    | _ => trivial
  · intro j hj
    left
    unfold BarrierGroup.Reached
    omega
  · intro _ j hj
    left
    unfold BarrierGroup.Reached
    omega
  · intro k hk
    rcases List.mem_append.mp hk with hk | hk
    · exact .inl hk
    · right
      rw [List.mem_singleton.mp hk]
      obtain ⟨q, hq⟩ := hkey
      refine ⟨(s.ranks 0).returned, q, ?_, ?_⟩
      · rwa [← hidr]
      · unfold BarrierGroup.Reached
        omega

/-- Rank 0 has deleted all keys. -/
theorem BarrierInvariant.leave (hstage : (s.ranks r).pc.stage = 6) :
    BarrierInvariant uuid (s.put r (s.ranks r).returns) := by
  have hprogress : (s.ranks r).progress = 7 * (s.ranks r).returned + 6 := by
    rw [progress, hstage]
  have hprogress' : (s.ranks r).returns.progress = 7 * ((s.ranks r).returned + 1) := rfl
  apply h.move
  · omega
  · exact (h.follows r).returns (by omega)
  · trivial
  · intro j hj
    left
    unfold BarrierGroup.Reached
    omega
  · intro _ j hj
    left
    unfold BarrierGroup.Reached
    omega

/-- A turn of a loop that polls, which goes on. -/
theorem BarrierInvariant.poll
    (hstage : pc.stage = (s.ranks r).pc.stage) (hlt : 2 ≤ (s.ranks r).pc.stage)
    (hid : pc.id? = (s.ranks r).pc.id?) (hknows : pc.Knows s (s.ranks r).returned) :
    BarrierInvariant uuid (s.put r ((s.ranks r).goTo pc)) := by
  have hprogress : ((s.ranks r).goTo pc).progress = (s.ranks r).progress := by
    rw [progress, progress, BarrierRank.goTo, hstage]
  apply h.move
  · exact hprogress.ge
  · apply (h.follows r).goTo hlt (by omega) hid
    intro hne
    have hle := (h.follows r).stage hne
    omega
  · exact hknows
  · intro j hj
    left
    rwa [hprogress] at hj
  · intro _ j hj
    left
    rwa [hprogress] at hj

/-- A loop that polls is left: all ranks have come so far in this barrier. -/
theorem BarrierInvariant.pass {m : Nat}
    (hm : m = 3 ∨ m = 5) (hstage : (s.ranks r).pc.stage = m) (hstage' : pc.stage = m + 1)
    (hid : pc.id? = (s.ranks r).pc.id?) (hall : ∀ q, s.Reached q m (s.ranks r).returned) :
    BarrierInvariant uuid (s.put r ((s.ranks r).goTo pc)) := by
  have hprogress : (s.ranks r).progress = 7 * (s.ranks r).returned + m := by
    rw [progress, hstage]
  have hprogress' : ((s.ranks r).goTo pc).progress = 7 * (s.ranks r).returned + (m + 1) := by
    rw [progress, BarrierRank.goTo, hstage']
  apply h.move
  · omega
  · apply (h.follows r).goTo (by omega) (by omega) hid
    intro hne
    have hle := (h.follows r).stage hne
    omega
  · cases pc with
    | pollArrivals =>
      simp only [BarrierPc.stage] at hstage'
      omega
    | pollDepartures =>
      simp only [BarrierPc.stage] at hstage'
      omega
    | _ => trivial
  · intro j hj
    rcases Nat.lt_or_ge (7 * j + 4) ((s.ranks r).progress + 1) with hold | hnew
    · left
      unfold BarrierGroup.Reached
      omega
    · right
      obtain rfl : m = 3 := by omega
      obtain rfl : j = (s.ranks r).returned := by omega
      exact hall
  · intro _ j hj
    rcases Nat.lt_or_ge (7 * j + 6) ((s.ranks r).progress + 1) with hold | hnew
    · left
      unfold BarrierGroup.Reached
      omega
    · right
      obtain rfl : m = 5 := by omega
      obtain rfl : j = (s.ranks r).returned := by omega
      exact hall

omit h

/-- **One step.** -/
theorem BarrierInvariant.step (huuid : Function.Injective uuid) (h : BarrierInvariant uuid s)
    (hs : s.step uuid r = .ok s') : BarrierInvariant uuid s' := by
  have hf := h.follows r
  have hknows := h.knows r
  unfold BarrierGroup.step at hs
  dsimp only at hs
  split at hs
  case h_1 => cases hs
  case h_2 hpc =>
    by_cases hr : r = 0
    · rw [if_pos hr] at hs
      obtain ⟨⟨id, group, store⟩, hbroadcast, hs⟩ := bind_eq_ok.mp hs
      cases hs
      exact h.broadcast hpc ⟨rfl, rfl, rfl, rfl, by rw [if_pos hr]⟩ (fun _ => rfl) hbroadcast
    · rw [if_neg hr] at hs
      obtain ⟨⟨id, group, store⟩, hbroadcast, hs⟩ := bind_eq_ok.mp hs
      cases hs
      exact h.broadcast hpc ⟨rfl, rfl, rfl, rfl, by rw [if_neg hr]; rfl⟩
        (fun hzero => absurd hzero hr) hbroadcast
  case h_3 id hpc =>
    cases hs
    exact h.signalArrival huuid hpc
  case h_4 id processes i hpc =>
    rw [hpc] at hknows
    have hid : id = barrierId uuid (s.ranks r).returned := hf.id id (by rw [hpc]; rfl)
    split_ifs at hs with hi hcard <;> obtain rfl := Except.ok.inj hs
    · apply h.poll <;> try rw [hpc]
      · rfl
      · simp [BarrierPc.stage]
      · rfl
      · apply poll_knows hknows
        intro q v hget
        rw [hid] at hget
        exact h.arrival _ q v hget
    · apply h.poll <;> try rw [hpc]
      · rfl
      · simp [BarrierPc.stage]
      · rfl
      · exact hknows
    · apply h.pass (.inl rfl) (by rw [hpc]; rfl) rfl (by rw [hpc]; rfl)
      exact fun q => hknows q (mem_of_not_card_lt hcard q)
  case h_5 id hpc =>
    split_ifs at hs with hr <;> obtain rfl := Except.ok.inj hs
    · exact h.signalDeparture huuid hpc (if_pos hr).symm
    · exact h.signalDeparture huuid hpc (if_neg hr).symm
  case h_6 id processes i hpc =>
    rw [hpc] at hknows
    have hid : id = barrierId uuid (s.ranks r).returned := hf.id id (by rw [hpc]; rfl)
    split_ifs at hs with hi hcard <;> obtain rfl := Except.ok.inj hs
    · apply h.poll <;> try rw [hpc]
      · rfl
      · simp [BarrierPc.stage]
      · rfl
      · apply poll_knows hknows
        intro q v hget
        rw [hid] at hget
        exact h.departure _ q v hget
    · apply h.poll <;> try rw [hpc]
      · rfl
      · simp [BarrierPc.stage]
      · rfl
      · exact hknows
    · apply h.pass (.inr rfl) (by rw [hpc]; rfl) rfl (by rw [hpc]; rfl)
      exact fun q => hknows q (mem_of_not_card_lt hcard q)
  case h_7 id i hpc =>
    split_ifs at hs with hi <;> obtain rfl := Except.ok.inj hs
    · exact h.delete (by rw [hpc]; rfl) (by rw [hpc]; rfl) rfl rfl ⟨_, .inl rfl⟩
    · exact h.leave (by rw [hpc]; rfl)
  case h_8 id i hpc =>
    split_ifs at hs with hi <;> obtain rfl := Except.ok.inj hs
    · exact h.delete (by rw [hpc]; rfl) (by rw [hpc]; rfl) rfl rfl ⟨_, .inr rfl⟩
    · exact h.leave (by rw [hpc]; rfl)

theorem BarrierInvariant.apply {op : BarrierOp n} (huuid : Function.Injective uuid)
    (h : BarrierInvariant uuid s) (hs : s.apply uuid op = .ok s') : BarrierInvariant uuid s' := by
  cases op with
  | barrier r =>
    unfold BarrierGroup.apply at hs
    dsimp only at hs
    split at hs
    case h_1 hpc =>
      cases hs
      exact h.barrier hpc
    case h_2 => cases hs
  | step r => exact h.step huuid hs

/-- No rank has called `barrier` at the start. -/
theorem barrierInvariant_init : BarrierInvariant uuid (barrierMachine n uuid).init where
  follows _ := ⟨rfl, rfl, fun _ => Nat.zero_le _, fun _ h => (by cases h),
    fun _ => by simp [barrierMachine, BarrierRank.ids, BarrierPc.stage],
    fun _ => by simp [barrierMachine, BarrierRank.ids, BarrierPc.stage]⟩
  knows _ := trivial
  ids _ _ h := by cases h
  arrival _ _ _ h := by cases h
  departure _ _ _ h := by cases h
  passed _ _ h := absurd h (by simp [BarrierGroup.Reached, progress, barrierMachine,
    BarrierPc.stage])
  cleaned _ h := absurd h (by simp [BarrierGroup.Reached, progress, barrierMachine,
    BarrierPc.stage])
  deleted _ h := by cases h

theorem barrierInvariant_of_reach (huuid : Function.Injective uuid)
    (h : (barrierMachine n uuid).Reach (fun _ _ => True) s) : BarrierInvariant uuid s :=
  h.invariant barrierInvariant_init fun _ _ _ hinv _ hs => hinv.apply huuid hs

/-! ## Main result -/

/-- **The barrier synchronises.** -/
theorem barrier_synchronises (huuid : Function.Injective uuid)
    (h : (barrierMachine n uuid).Reach (fun _ _ => True) s) : Synchronised s := by
  have hinv := barrierInvariant_of_reach huuid h
  refine ⟨?_, ?_, ?_⟩
  · intro r r' k hk
    -- a rank that has returned has found the arrivals of all ranks
    cases k with
    | zero => exact Nat.zero_le _
    | succ k =>
      have hpassed : s.Reached r 4 k := by
        unfold BarrierGroup.Reached BarrierRank.progress
        omega
      have harrived := hinv.passed r k hpassed r'
      have hentered := (hinv.follows r').entered
      unfold BarrierGroup.Reached BarrierRank.progress at harrived
      have hstage : (s.ranks r').pc.stage ≤ 6 := by
        cases (s.ranks r').pc <;> simp [BarrierPc.stage]
      omega
  · intro r k hk
    by_cases hr : r = 0
    · rwa [hr]
    · cases k with
      | zero => exact Nat.zero_le _
      | succ k =>
        have hcleaned : s.Reached 0 6 k := by
          unfold BarrierGroup.Reached BarrierRank.progress
          omega
        have hdeparted := hinv.cleaned k hcleaned r
        have hstage := (hinv.follows r).stage hr
        unfold BarrierGroup.Reached BarrierRank.progress at hdeparted
        omega
  · intro r key hwaits hdeleted
    obtain ⟨j, q, hkey, hcleaned⟩ := hinv.deleted key hdeleted
    have hdeparted := hinv.cleaned j hcleaned r
    unfold BarrierGroup.Reached BarrierRank.progress at hdeparted
    have hid := (hinv.follows r).id
    unfold BarrierGroup.WaitsFor at hwaits
    split at hwaits
    case h_1 hpc =>
      obtain ⟨-, rfl⟩ := hwaits
      rcases hkey with hkey | hkey
      · exact broadcastKey_ne_arrivalKey hkey
      · exact broadcastKey_ne_departureKey hkey
    case h_2 id processes i hpc =>
      obtain ⟨q', -, rfl⟩ := hwaits
      rcases hkey with hkey | hkey
      · obtain ⟨hj, -⟩ := arrivalKey_inj.mp hkey
        rw [hid id (by rw [hpc]; rfl), barrierId_inj huuid] at hj
        simp only [hpc, BarrierPc.stage] at hdeparted
        omega
      · exact arrivalKey_ne_departureKey hkey
    case h_3 id processes i hpc =>
      obtain ⟨q', -, rfl⟩ := hwaits
      rcases hkey with hkey | hkey
      · exact arrivalKey_ne_departureKey hkey.symm
      · obtain ⟨hj, -⟩ := departureKey_inj.mp hkey
        rw [hid id (by rw [hpc]; rfl), barrierId_inj huuid] at hj
        -- only rank 0 waits for departures, and it deletes the keys later
        obtain rfl : r = 0 := by
          by_contra hne
          have hle := (hinv.follows r).stage hne
          simp only [hpc, BarrierPc.stage] at hle
          omega
        unfold BarrierGroup.Reached BarrierRank.progress at hcleaned
        simp only [hpc, BarrierPc.stage] at hcleaned
        omega
    case h_4 => exact hwaits

end Invariant

/-- Two ranks in a barrier: rank 0 announces its id, both arrive and look around, and rank 1 leaves
first. -/
def barrierRun : List (BarrierOp 2) :=
  [.barrier 0, .barrier 1, .step 0, .step 1, .step 0, .step 1] ++
    List.replicate 4 (.step 1) ++ List.replicate 12 (.step 0)

theorem barrier_synchronises_two : ∃ s, (barrierMachine 2 toString).Reach (fun _ _ => True) s ∧
    (s.ranks 0).returned = 1 ∧ (s.ranks 1).returned = 1 ∧ s.deleted.length = 4 ∧
      Synchronised s := by
  obtain ⟨s, hreach, hzero, hone, hdeleted⟩ := (barrierMachine 2 toString).exists_reach
    (fun _ _ => True) barrierRun
    (fun s => (s.ranks 0).returned = 1 ∧ (s.ranks 1).returned = 1 ∧ s.deleted.length = 4)
    (by decide +kernel)
  have huuid : Function.Injective (toString : Nat → String) := by
    intro j k hjk
    apply toDigits_ten_inj.mp
    rw [← Nat.toList_repr, ← Nat.toList_repr]
    exact congrArg String.toList hjk
  exact ⟨s, hreach, hzero, hone, hdeleted, barrier_synchronises huuid hreach⟩

end InferenceServer.Distributed
