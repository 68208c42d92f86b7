import InferenceServer.Distributed.ProcessGroup
import InferenceServer.Lib.Outcome

/-!
# What a stateless process group delivers

Every message has a key of its own, but one kind has not: the key of an object sent to a rank names
that rank and a number, and the number is counted by the sender. Two ranks that send to the same
rank use the same keys. The entry holds the object of the rank that has set it last, and a receiver
that waits for an object of one rank takes the object of another one.

This does not happen if an entry is only used by one sender at a time. A sender uses the entry from
its `set` to the `get` of the receiver; the condition of this module is that no rank sets an entry
that another sender uses, and that no rank gets an entry that the sender it waits for does not use.
If every rank has at most one rank that sends to it, all runs satisfy it.

The key of a broadcast names its source. The ranks make the same broadcasts and gathers in the same
order, so that the number of the broadcasts of a source that a rank has heard when it comes to a
gather is the number that the source has made when it comes to the same gather.

## Main results

* `sendKey_inj`, `broadcastKey_inj`, `sendKey_ne_broadcastKey`: the keys of the entries
* `delivers_of_reach`, `separate_of_reach`
-/

namespace InferenceServer.Distributed

open Outcome
open Function (update update_of_ne update_self update_apply)
open List (append_assoc length_append length_singleton)
open Nat (toDigits)

variable {n : Nat} {α : Type}

/-! ## The keys -/

variable {dst src : Fin n} {k k' : Nat}

theorem toList_sendKey : (sendKey dst k).toList =
    "send_to/".toList ++ ((toDigits 10 dst.val ++ ['/']) ++ toDigits 10 k) := by
  simp [sendKey, Nat.toList_repr]

theorem toList_broadcastKey : (broadcastKey src k).toList =
    "broadcast_from/".toList ++ ((toDigits 10 src.val ++ ['/']) ++ toDigits 10 k) := by
  simp [broadcastKey, Nat.toList_repr]

/-- A rank and a number, with a slash between them. -/
theorem digits_inj {r r' : Fin n} (h : (toDigits 10 r.val ++ ['/']) ++ toDigits 10 k =
      (toDigits 10 r'.val ++ ['/']) ++ toDigits 10 k') : r = r' ∧ k = k' := by
  have hapart : TellsApart (fun m => toDigits 10 m ++ ['/']) r.val r'.val :=
    .delimited isDigit_toDigits_ten isDigit_toDigits_ten rfl toDigits_ten_inj.mp
  obtain ⟨hr, hk⟩ := hapart _ _ h
  exact ⟨Fin.ext hr, toDigits_ten_inj.mp hk⟩

theorem sendKey_inj {dst' : Fin n} :
    sendKey dst k = sendKey dst' k' ↔ dst = dst' ∧ k = k' := by
  constructor
  · intro h
    have hlist := congrArg String.toList h
    rw [toList_sendKey, toList_sendKey] at hlist
    exact digits_inj (List.append_cancel_left hlist)
  · rintro ⟨rfl, rfl⟩
    rfl

theorem broadcastKey_inj {src' : Fin n} :
    broadcastKey src k = broadcastKey src' k' ↔ src = src' ∧ k = k' := by
  constructor
  · intro h
    have hlist := congrArg String.toList h
    rw [toList_broadcastKey, toList_broadcastKey] at hlist
    exact digits_inj (List.append_cancel_left hlist)
  · rintro ⟨rfl, rfl⟩
    rfl

theorem sendKey_ne_broadcastKey :
    sendKey dst k ≠ broadcastKey src k' := by
  intro h
  have hlist := congrArg String.toList h
  rw [toList_sendKey, toList_broadcastKey] at hlist
  -- the first letters differ
  simp at hlist

/-! ## What the calls promise -/

section Statement

/-- The objects that a program sends to `dst`. -/
def sends (calls : List (GroupCall n α)) (dst : Fin n) : List α :=
  calls.filterMap fun
    | .sendObj obj d => if d = dst then some obj else none
    | _ => none

/-- How many objects a program receives from `src`. -/
def receives (calls : List (GroupCall n α)) (src : Fin n) : Nat :=
  calls.countP fun
    | .recvObj s => decide (s = src)
    | _ => false

/-- The objects that the program of `src` broadcasts, by `broadcast_obj` or by `all_gather_obj`. -/
def broadcasts (src : Fin n) (calls : List (GroupCall n α)) : List α :=
  calls.filterMap fun
    | .broadcastObj obj s => if s = src then some obj else none
    | .allGatherObj obj => some obj
    | _ => none

/-- The objects that a program gives to `all_gather_obj`. -/
def gathers (calls : List (GroupCall n α)) : List α :=
  calls.filterMap fun
    | .allGatherObj obj => some obj
    | _ => none

/-- A call of all ranks: a broadcast with its source, or a gather. -/
inductive Collective (n : Nat) where
  | broadcast (src : Fin n)
  | gather
  deriving DecidableEq, Repr

/-- The calls of all ranks that a program makes. -/
def collectives (calls : List (GroupCall n α)) : List (Collective n) :=
  calls.filterMap fun
    | .broadcastObj _ src => some (.broadcast src)
    | .allGatherObj _ => some .gather
    | _ => none

/-- The calls of the ranks match up as in a collective program. -/
structure Matches (programs : Fin n → List (GroupCall n α)) : Prop where
  sameCollectives : ∀ r r', collectives (programs r) = collectives (programs r')
  sent : ∀ r src, receives (programs r) src ≤ (sends (programs src) r).length

instance (programs : Fin n → List (GroupCall n α)) : Decidable (Matches programs) :=
  decidable_of_iff ((∀ r r', collectives (programs r) = collectives (programs r')) ∧
      ∀ r src, receives (programs r) src ≤ (sends (programs src) r).length)
    ⟨fun h => ⟨h.1, h.2⟩, fun h => ⟨h.1, h.2⟩⟩

/-- The `k`-th `recv_obj` from a rank has returned the `k`-th object that it sends, the `k`-th broadcast
the `k`-th object it broadcasts, and the `k`-th `all_gather_obj` the `k`-th objects of all ranks in
order. -/
structure Delivers (programs : Fin n → List (GroupCall n α)) (s : Group n α) : Prop where
  received : ∀ r src, (s.ranks r).received src <+: sends (programs src) r
  heard : ∀ r src, (s.ranks r).heard src <+: broadcasts src (programs src)
  gathered : ∀ r (k : Nat) (objs : List α), (s.ranks r).gathered[k]? = some objs →
    objs.map some = List.ofFn fun q => (gathers (programs q))[k]?

/-- The `k`-th object that `src` has sent to `dst` is not received. -/
def Group.InUse (s : Group n α) (src dst : Fin n) (k : Nat) : Prop :=
  (s.ranks dst).group.recvSrcCounter src ≤ k ∧ k < (s.ranks src).group.sendDstCounter dst

/-- The next access of rank `r` keeps the entries of the senders apart: `send_obj` sets no entry that
another sender uses, and `recv_obj` gets an entry that the sender it names uses. -/
def Group.Separate (s : Group n α) (r : Fin n) : Prop :=
  match (s.ranks r).calls with
  | .sendObj _ dst :: _ =>
    ∀ q ≠ r, ¬ s.InUse q dst ((s.ranks r).group.sendDstCounter dst)
  | .recvObj src :: _ => s.InUse src r ((s.ranks r).group.recvSrcCounter src)
  | _ => True

instance (s : Group n α) (src dst : Fin n) (k : Nat) : Decidable (s.InUse src dst k) :=
  inferInstanceAs (Decidable (_ ∧ _))

instance (s : Group n α) (r : Fin n) : Decidable (s.Separate r) := by
  unfold Group.Separate
  split <;> infer_instance

/-- Every rank has at most one rank that sends to it. -/
def OneSender (programs : Fin n → List (GroupCall n α)) : Prop :=
  ∀ dst q q', sends (programs q) dst ≠ [] → sends (programs q') dst ≠ [] → q = q'

end Statement

/-! ## Programs -/

section Programs

variable {calls calls' : List (GroupCall n α)} {call : GroupCall n α} {obj : α} {src dst : Fin n}

/-- The next element of a filtered list is the image of the next element that has one. -/
theorem filterMap_next {β : Type} {f : GroupCall n α → Option β} {b : β} (h : f call = some b) :
    ((calls ++ call :: calls').filterMap f)[(calls.filterMap f).length]? = some b := by
  rw [List.filterMap_append, List.filterMap_cons_some h]
  simp

theorem sends_next : (sends (calls ++ .sendObj obj dst :: calls') dst)[(sends calls dst).length]? =
    some obj :=
  filterMap_next (if_pos rfl)

theorem broadcasts_next :
    (broadcasts src (calls ++ .broadcastObj obj src :: calls'))[(broadcasts src calls).length]? =
      some obj :=
  filterMap_next (if_pos rfl)

/-- How many of the calls of all ranks are broadcasts of `src`. -/
def broadcastCount (src : Fin n) (l : List (Collective n)) : Nat :=
  l.countP fun c => decide (c = .broadcast src ∨ c = .gather)

theorem length_broadcasts :
    (broadcasts src calls).length = broadcastCount src (collectives calls) := by
  induction calls with
  | nil => rfl
  | cons call calls ih =>
    cases call with
    | sendObj obj dst => exact ih
    | recvObj src' => exact ih
    | broadcastObj obj src' =>
      by_cases hsrc : src' = src
      · simp [broadcasts, collectives, broadcastCount, hsrc] at ih ⊢
        exact ih
      · simp [broadcasts, collectives, broadcastCount, hsrc] at ih ⊢
        exact ih
    | allGatherObj obj =>
      simp [broadcasts, collectives, broadcastCount] at ih ⊢
      exact ih

theorem length_gathers : (gathers calls).length = (collectives calls).count .gather := by
  induction calls with
  | nil => rfl
  | cons call calls ih =>
    cases call with
    | sendObj obj dst => exact ih
    | recvObj src' => exact ih
    | broadcastObj obj src' => simpa [gathers, collectives] using ih
    | allGatherObj obj => simpa [gathers, collectives] using ih

/-- The broadcast that `src` makes at a gather is of the object that it gives to this gather. -/
theorem broadcasts_at_gather {pre post : List (Collective n)}
    (h : collectives calls = pre ++ .gather :: post) :
    (broadcasts src calls)[broadcastCount src pre]? = (gathers calls)[pre.count .gather]? := by
  induction calls generalizing pre with
  | nil => simp [collectives] at h
  | cons call calls ih =>
    cases call with
    | sendObj obj dst => exact ih h
    | recvObj src' => exact ih h
    | broadcastObj obj src' =>
      cases pre with
      | nil => simp [collectives] at h
      | cons c pre =>
        obtain ⟨rfl, hrest⟩ := List.cons.inj h
        have ih := ih hrest
        by_cases hsrc : src' = src
        · simpa [broadcasts, gathers, broadcastCount, hsrc] using ih
        · simpa [broadcasts, gathers, broadcastCount, hsrc] using ih
    | allGatherObj obj =>
      cases pre with
      | nil => simp [broadcasts, gathers, broadcastCount]
      | cons c pre =>
        obtain ⟨rfl, hrest⟩ := List.cons.inj h
        have ih := ih hrest
        simpa [broadcasts, gathers, broadcastCount] using ih

/-- **Gathers are aligned.** When a rank comes to a gather, the next broadcast of any rank `src` that
it hears is that of the object that `src` gives to the same gather. -/
theorem Matches.gather_next {programs : Fin n → List (GroupCall n α)} (h : Matches programs)
    {r : Fin n} (hprogram : programs r = calls ++ .allGatherObj obj :: calls') (src : Fin n) :
    (broadcasts src (programs src))[(broadcasts src calls).length]? =
      (gathers (programs src))[(gathers calls).length]? := by
  rw [length_broadcasts, length_gathers]
  have hsplit : collectives (programs src) =
      collectives calls ++ .gather :: collectives calls' := by
    rw [h.sameCollectives src r, hprogram, collectives, List.filterMap_append]
    rfl
  exact broadcasts_at_gather hsplit

/-- A list that is a part of another one goes on with its next element. -/
theorem isPrefix_concat {l l' : List α} {a : α} (h : l <+: l') (ha : l'[l.length]? = some a) :
    l ++ [a] <+: l' := by
  obtain ⟨t, rfl⟩ := h
  rw [List.getElem?_append_right le_rfl, Nat.sub_self] at ha
  cases t with
  | nil => cases ha
  | cons b t =>
    cases ha
    exact ⟨t, by simp⟩

end Programs

/-! ## The ranks -/

/-- The counters of a rank are the numbers of what it has received and heard. -/
structure Rank.Counts (r : Fin n) (p : Rank n α) : Prop where
  rank : p.group.rank = r
  received : ∀ src, p.group.recvSrcCounter src = (p.received src).length
  broadcasts : p.group.broadcastSendCounter = (p.heard r).length
  heard : ∀ src ≠ r, p.group.broadcastRecvSrcCounter src = (p.heard src).length

/-- What a rank has done is a part of its program. -/
structure Rank.Follows (program : List (GroupCall n α)) (p : Rank n α) : Prop where
  program : program = p.made ++ p.calls
  sent : ∀ dst, p.group.sendDstCounter dst = (sends p.made dst).length
  heard : ∀ src, (p.heard src).length =
    (broadcasts src p.made).length + if src.val < p.gatheredObjs.length then 1 else 0
  gathered : p.gathered.length = (gathers p.made).length
  gathering : p.gatheredObjs = [] ∨ ∃ obj calls, p.calls = .allGatherObj obj :: calls
  lt : p.gatheredObjs.length < n

/-- What has been returned to a rank is what was promised. -/
structure Rank.Delivered (programs : Fin n → List (GroupCall n α)) (r : Fin n) (p : Rank n α) :
    Prop where
  received : ∀ src, p.received src <+: sends (programs src) r
  heard : ∀ src, p.heard src <+: broadcasts src (programs src)
  gathered : ∀ (k : Nat) (objs : List α), p.gathered[k]? = some objs →
    objs.map some = List.ofFn fun q => (gathers (programs q))[k]?
  gatheredObjs : ∀ q : Fin n, q.val < p.gatheredObjs.length →
    p.gatheredObjs[q.val]? = (gathers (programs q))[p.gathered.length]?

/-- What holds in every state: the ranks follow their programs, the entries of broadcasts hold what
was broadcast, and the entries in use hold what was sent. -/
structure GroupInvariant (programs : Fin n → List (GroupCall n α)) (s : Group n α) : Prop where
  counts : ∀ r, (s.ranks r).Counts r
  follows : ∀ r, (s.ranks r).Follows (programs r)
  delivered : ∀ r, (s.ranks r).Delivered programs r
  broadcastEntry : ∀ src k obj, s.store (broadcastKey src k) = some obj →
    (broadcasts src (programs src))[k]? = some obj
  sendEntry : ∀ src dst k, s.InUse src dst k →
    s.store (sendKey dst k) = (sends (programs src) dst)[k]?
  origin : ∀ (dst : Fin n) k obj, s.store (sendKey dst k) = some obj →
    ∃ src, k < (s.ranks src).group.sendDstCounter dst

section Ranks

variable {programs : Fin n → List (GroupCall n α)} {program : List (GroupCall n α)} {r src : Fin n}
  {p p' : Rank n α} {call : GroupCall n α} {calls : List (GroupCall n α)} {obj : α}

theorem Rank.returns_eq (h : p.calls = call :: calls) :
    p.returns = { p with calls, made := p.made ++ [call] } := by
  simp [Rank.returns, h]

/-- A broadcast returns: what changes is the number of broadcasts heard, and what was heard. -/
structure Rank.Hears (p p' : Rank n α) (r src : Fin n) (obj : α) : Prop where
  counts : p'.Counts r
  heard : p'.heard = Function.update p.heard src (p.heard src ++ [obj])
  sendDstCounter : p'.group.sendDstCounter = p.group.sendDstCounter
  recvSrcCounter : p'.group.recvSrcCounter = p.group.recvSrcCounter
  calls : p'.calls = p.calls
  gatheredObjs : p'.gatheredObjs = p.gatheredObjs
  made : p'.made = p.made
  received : p'.received = p.received
  gathered : p'.gathered = p.gathered

variable {heard : α}

/-- **A broadcast.** The source sets its next entry; any other rank gets the next entry of the source.
-/
theorem broadcastObj_hears {store store' : Store α} {group : StatelessProcessGroup n}
    (hcounts : p.Counts r) (hr : r = src →
      (broadcasts src (programs src))[(p.heard src).length]? = some obj)
    (hentry : ∀ src k obj, store (broadcastKey src k) = some obj →
      (broadcasts src (programs src))[k]? = some obj)
    (h : p.group.broadcastObj store obj src = .ok (heard, group, store')) :
    Rank.Hears p (({ p with group } : Rank n α).hear src heard) r src heard ∧
      (broadcasts src (programs src))[(p.heard src).length]? = some heard ∧
      (∀ src k obj, store' (broadcastKey src k) = some obj →
        (broadcasts src (programs src))[k]? = some obj) ∧
      ∀ dst : Fin n, ∀ k, store' (sendKey dst k) = store (sendKey dst k) := by
  unfold StatelessProcessGroup.broadcastObj at h
  have hrank := hcounts.rank
  by_cases hsrc : p.group.rank = src
  · rw [if_pos hsrc] at h
    cases h
    obtain rfl : r = src := hrank.symm.trans hsrc
    refine ⟨⟨⟨hcounts.rank, hcounts.received, ?_, ?_⟩, rfl, rfl, rfl, rfl, rfl, rfl, rfl, rfl⟩,
      hr rfl, ?_, ?_⟩
    · simp [Rank.hear, hcounts.broadcasts]
    · intro q hq
      simp only [Rank.hear, update_of_ne hq]
      exact hcounts.heard q hq
    · intro q k obj' hget
      by_cases hkey : broadcastKey q k = broadcastKey r p.group.broadcastSendCounter
      · obtain ⟨rfl, rfl⟩ := broadcastKey_inj.mp hkey
        rw [update_self] at hget
        rw [hcounts.broadcasts, ← hget]
        exact hr rfl
      · rw [update_of_ne hkey] at hget
        exact hentry q k obj' hget
    · intro dst k
      exact update_of_ne sendKey_ne_broadcastKey _ _
  · rw [if_neg hsrc] at h
    dsimp only at h
    rw [hrank] at hsrc
    have hctr := hcounts.heard src (Ne.symm hsrc)
    cases hget : store (broadcastKey src (p.group.broadcastRecvSrcCounter src)) with
    | none => simp [hget] at h
    | some received =>
      rw [hget] at h
      cases h
      refine ⟨⟨⟨hcounts.rank, hcounts.received, ?_, ?_⟩, rfl, rfl, rfl, rfl, rfl, rfl, rfl, rfl⟩,
        ?_, hentry, fun _ _ => rfl⟩
      · simp only [Rank.hear, update_of_ne hsrc]
        exact hcounts.broadcasts
      · intro q hq
        by_cases hqs : q = src
        · subst hqs
          simp [Rank.hear, hctr]
        · simp only [Rank.hear, update_of_ne hqs]
          exact hcounts.heard q hq
      · rw [← hctr]
        exact hentry _ _ _ hget

variable (h : p.Follows program)

include h

/-- A call of `send_obj` is counted. -/
theorem Rank.Follows.send {dst : Fin n} (hcalls : p.calls = .sendObj obj dst :: calls)
    (hsent : p'.group.sendDstCounter =
      update p.group.sendDstCounter dst (p.group.sendDstCounter dst + 1))
    (hp' : p' = { p with group := p'.group, calls, made := p.made ++ [.sendObj obj dst] }) :
    p'.Follows program := by
  have hnil : p.gatheredObjs = [] := by
    rcases h.gathering with hnil | ⟨_, _, hcall⟩
    · exact hnil
    · rw [hcalls] at hcall
      cases hcall
  rw [hp']
  refine ⟨?_, ?_, ?_, ?_, .inl hnil, h.lt⟩
  · rw [h.program, hcalls, append_assoc, List.singleton_append]
  · intro dst'
    rw [hsent]
    by_cases hdst : dst' = dst
    · subst hdst
      simp [h.sent, sends]
    · rw [update_of_ne hdst, h.sent]
      simp [sends, Ne.symm hdst]
  · intro src
    simpa [broadcasts] using h.heard src
  · simpa [gathers] using h.gathered

/-- A call of `recv_obj` is counted. -/
theorem Rank.Follows.recv (hcalls : p.calls = .recvObj src :: calls)
    (hsent : p'.group.sendDstCounter = p.group.sendDstCounter)
    (hp' : p' = { p with
      group := p'.group, received := p'.received, calls, made := p.made ++ [.recvObj src] }) :
    p'.Follows program := by
  have hnil : p.gatheredObjs = [] := by
    rcases h.gathering with hnil | ⟨_, _, hcall⟩
    · exact hnil
    · rw [hcalls] at hcall
      cases hcall
  rw [hp']
  refine ⟨?_, ?_, ?_, ?_, .inl hnil, h.lt⟩
  · rw [h.program, hcalls, append_assoc, List.singleton_append]
  · intro dst
    rw [hsent, h.sent]
    simp [sends]
  · intro src
    simpa [broadcasts] using h.heard src
  · simpa [gathers] using h.gathered

/-- A call of `broadcast_obj` is counted. -/
theorem Rank.Follows.broadcast (hcalls : p.calls = .broadcastObj obj src :: calls)
    (hears : Rank.Hears p p' r src heard) : p'.returns.Follows program := by
  have hnil : p.gatheredObjs = [] := by
    rcases h.gathering with hnil | ⟨_, _, hcall⟩
    · exact hnil
    · rw [hcalls] at hcall
      cases hcall
  rw [Rank.returns_eq (hears.calls.trans hcalls)]
  refine ⟨?_, ?_, ?_, ?_, .inl (hears.gatheredObjs.trans hnil), ?_⟩
  · rw [h.program, hcalls, hears.made, append_assoc, List.singleton_append]
  · intro dst
    rw [hears.sendDstCounter, hears.made, h.sent]
    simp [sends]
  · intro q
    have hq := h.heard q
    rw [hnil] at hq
    rw [hears.heard, hears.made, hears.gatheredObjs, hnil]
    by_cases hsrc : q = src
    · subst hsrc
      simpa [broadcasts] using hq
    · rw [update_of_ne hsrc]
      simpa [broadcasts, Ne.symm hsrc] using hq
  · dsimp only
    rw [hears.gathered, hears.made, h.gathered]
    simp [gathers]
  · dsimp only
    rw [hears.gatheredObjs]
    exact h.lt

/-- One turn of the loop of `all_gather_obj`. -/
theorem Rank.Follows.gather (hcalls : p.calls = .allGatherObj obj :: calls)
    (hsrc : src.val = p.gatheredObjs.length) (hears : Rank.Hears p p' r src heard) :
    (p'.gather heard).Follows program := by
  -- the rank at which the loop was is the one that is heard once more
  have hheard : ∀ q : Fin n, (p'.heard q).length =
      (broadcasts q p.made).length + if q.val < p.gatheredObjs.length + 1 then 1 else 0 := by
    intro q
    rw [hears.heard]
    have hq := h.heard q
    by_cases hqs : q = src
    · subst hqs
      rw [if_neg (by omega)] at hq
      rw [update_self, length_append, length_singleton, hq, if_pos (by omega)]
    · have hne : q.val ≠ p.gatheredObjs.length := by
        intro heq
        exact hqs (Fin.ext (heq.trans hsrc.symm))
      rw [update_of_ne hqs, hq]
      congr 1
      split_ifs <;> omega
  unfold Rank.gather
  dsimp only
  split_ifs with hlen
  · rw [length_append, length_singleton, hears.gatheredObjs] at hlen
    rw [Rank.returns_eq (hears.calls.trans hcalls)]
    refine ⟨?_, ?_, ?_, ?_, .inl rfl, ?_⟩
    · rw [h.program, hcalls, hears.made, append_assoc, List.singleton_append]
    · intro dst
      rw [hears.sendDstCounter, hears.made, h.sent]
      simp [sends]
    · intro q
      rw [hheard q, hears.made, if_pos (by omega)]
      simp [broadcasts]
    · dsimp only
      rw [length_append, length_singleton, hears.gathered, hears.made, h.gathered]
      simp [gathers]
    · exact src.pos
  · rw [length_append, length_singleton, hears.gatheredObjs] at hlen
    have hlt := h.lt
    refine ⟨?_, ?_, ?_, ?_, .inr ⟨obj, calls, hears.calls.trans hcalls⟩, ?_⟩
    · rw [h.program, hears.made, hears.calls]
    · intro dst
      rw [hears.sendDstCounter, hears.made, h.sent]
    · intro q
      rw [hheard q, hears.made, length_append, length_singleton, hears.gatheredObjs]
    · rw [hears.gathered, hears.made, h.gathered]
    · dsimp only
      rw [length_append, length_singleton, hears.gatheredObjs]
      omega

omit h

/-- What is received next is what is promised next. -/
theorem Rank.Delivered.receive (h : p.Delivered programs r)
    (hnext : (sends (programs src) r)[(p.received src).length]? = some obj)
    (hreceived : p'.received = update p.received src (p.received src ++ [obj]))
    (hp' : p' = { p with
      group := p'.group, received := p'.received, calls := p'.calls, made := p'.made }) :
    p'.Delivered programs r := by
  rw [hp']
  refine ⟨?_, h.heard, h.gathered, h.gatheredObjs⟩
  intro q
  rw [hreceived]
  by_cases hq : q = src
  · subst hq
    rw [update_self]
    exact isPrefix_concat (h.received q) hnext
  · rw [update_of_ne hq]
    exact h.received q

/-- What is heard next is what is promised next. -/
theorem Rank.Delivered.hear (h : p.Delivered programs r) (hears : Rank.Hears p p' r src obj)
    (hnext : (broadcasts src (programs src))[(p.heard src).length]? = some obj) :
    p'.Delivered programs r := by
  refine ⟨?_, ?_, ?_, ?_⟩
  · rw [hears.received]
    exact h.received
  · intro q
    rw [hears.heard]
    by_cases hq : q = src
    · subst hq
      rw [update_self]
      exact isPrefix_concat (h.heard q) hnext
    · rw [update_of_ne hq]
      exact h.heard q
  · rw [hears.gathered]
    exact h.gathered
  · rw [hears.gatheredObjs, hears.gathered]
    exact h.gatheredObjs

/-- The objects of a gather come in the order of the ranks. -/
theorem Rank.Delivered.gather (h : p.Delivered programs r) (hlt : p.gatheredObjs.length < n)
    (hnext : (gathers (programs ⟨p.gatheredObjs.length, hlt⟩))[p.gathered.length]? = some obj) :
    (p.gather obj).Delivered programs r := by
  have hobjs : ∀ q : Fin n, q.val < p.gatheredObjs.length + 1 →
      (p.gatheredObjs ++ [obj])[q.val]? = (gathers (programs q))[p.gathered.length]? := by
    intro q hq
    by_cases hlast : q.val < p.gatheredObjs.length
    · rw [List.getElem?_append_left hlast]
      exact h.gatheredObjs q hlast
    · obtain rfl : q = ⟨p.gatheredObjs.length, hlt⟩ := Fin.ext (by dsimp only; omega)
      rw [hnext, List.getElem?_append_right le_rfl, Nat.sub_self]
      rfl
  unfold Rank.gather
  dsimp only
  split_ifs with hlen
  · refine ⟨h.received, h.heard, ?_, fun q hq => absurd hq (Nat.not_lt_zero _)⟩
    intro k objs hget
    by_cases hk : k < p.gathered.length
    · rw [List.getElem?_append_left hk] at hget
      exact h.gathered k objs hget
    · -- the list that is complete now
      rw [List.getElem?_append_right (by omega)] at hget
      obtain ⟨hzero, rfl⟩ : k - p.gathered.length = 0 ∧ p.gatheredObjs ++ [obj] = objs := by
        cases hd : k - p.gathered.length with
        | zero => simpa [hd] using hget
        | succ m => simp [hd] at hget
      obtain rfl : k = p.gathered.length := by omega
      apply List.ext_getElem
      · rw [List.length_map, List.length_ofFn, hlen]
      · intro i hi hi'
        rw [List.length_ofFn] at hi'
        rw [List.getElem_map, List.getElem_ofFn, ← hobjs ⟨i, hi'⟩ (by
          rw [length_append, length_singleton] at hlen
          omega)]
        exact (List.getElem?_eq_getElem _).symm
  · exact ⟨h.received, h.heard, h.gathered, fun q hq => hobjs q (by simpa using hq)⟩

end Ranks

/-! ## The steps -/

section Steps

variable {programs : Fin n → List (GroupCall n α)} {s s' : Group n α} {r : Fin n}
  {calls : List (GroupCall n α)}

variable {p : Rank n α} {store : Store α} {src : Fin n} {obj heard : α}
  {group : StatelessProcessGroup n}

theorem Group.ranks_put {q : Fin n} :
    (s.put r p store).ranks q = if q = r then p else s.ranks q :=
  update_apply _ _ _ _

/-- A rank that does not send or receive changes no entry in use. -/
theorem Group.inUse_put {dst : Fin n} {k : Nat}
    (hsent : p.group.sendDstCounter = (s.ranks r).group.sendDstCounter)
    (hreceived : p.group.recvSrcCounter = (s.ranks r).group.recvSrcCounter) :
    (s.put r p store).InUse src dst k ↔ s.InUse src dst k := by
  have hdst : ((s.put r p store).ranks dst).group.recvSrcCounter =
      (s.ranks dst).group.recvSrcCounter := by
    rw [Group.ranks_put]
    split_ifs with hr
    · rw [hr, hreceived]
    · rfl
  have hsrc : ((s.put r p store).ranks src).group.sendDstCounter =
      (s.ranks src).group.sendDstCounter := by
    rw [Group.ranks_put]
    split_ifs with hr
    · rw [hr, hsent]
    · rfl
  unfold Group.InUse
  rw [hdst, hsrc]

variable (h : GroupInvariant programs s)

include h

/-- What one rank does to itself and to the entries. -/
theorem GroupInvariant.put
    (hcounts : p.Counts r) (hfollows : p.Follows (programs r)) (hdelivered : p.Delivered programs r)
    (hbroadcast : ∀ src k obj, store (broadcastKey src k) = some obj →
      (broadcasts src (programs src))[k]? = some obj)
    (hsend : ∀ src dst k, (s.put r p store).InUse src dst k →
      store (sendKey dst k) = (sends (programs src) dst)[k]?)
    (horigin : ∀ (dst : Fin n) k obj, store (sendKey dst k) = some obj →
      ∃ src, k < ((s.put r p store).ranks src).group.sendDstCounter dst) :
    GroupInvariant programs (s.put r p store) := by
  refine ⟨?_, ?_, ?_, hbroadcast, hsend, horigin⟩ <;> intro q <;> rw [Group.ranks_put] <;>
    split_ifs with hq
  · exact hq ▸ hcounts
  · exact h.counts q
  · exact hq ▸ hfollows
  · exact h.follows q
  · exact hq ▸ hdelivered
  · exact h.delivered q

/-- `send_obj`: the entry that is set is used by no other sender. -/
theorem GroupInvariant.send {dst : Fin n} (hcalls : (s.ranks r).calls = .sendObj obj dst :: calls)
    (hsep : ∀ q ≠ r, ¬ s.InUse q dst ((s.ranks r).group.sendDstCounter dst))
    (hsend : (s.ranks r).group.sendObj s.store obj dst = (group, store)) :
    GroupInvariant programs (s.put r { s.ranks r with group }.returns store) := by
  have hcounts := h.counts r
  have hfollows := h.follows r
  have hdelivered := h.delivered r
  rw [Rank.returns_eq (p := { s.ranks r with group }) hcalls]
  obtain ⟨rfl, rfl⟩ := Prod.mk.inj hsend
  apply h.put
  · exact ⟨hcounts.rank, hcounts.received, hcounts.broadcasts, hcounts.heard⟩
  · exact hfollows.send hcalls rfl rfl
  · exact ⟨hdelivered.received, hdelivered.heard, hdelivered.gathered, hdelivered.gatheredObjs⟩
  · intro src k obj' hget
    rw [update_of_ne sendKey_ne_broadcastKey.symm] at hget
    exact h.broadcastEntry src k obj' hget
  · intro src dst' k huse
    obtain ⟨hle, hlt⟩ := huse
    rw [Group.ranks_put] at hle hlt
    replace hle : (s.ranks dst').group.recvSrcCounter src ≤ k := by
      split_ifs at hle with hr
      · rw [hr]
        exact hle
      · exact hle
    by_cases hkey : dst' = dst ∧ k = (s.ranks r).group.sendDstCounter dst
    · obtain ⟨rfl, rfl⟩ := hkey
      rw [update_self]
      split_ifs at hlt with hr
      · rw [hr, hfollows.program, hcalls, hfollows.sent]
        exact sends_next.symm
      · exact absurd ⟨hle, hlt⟩ (hsep src hr)
    · rw [update_of_ne (fun heq => hkey (sendKey_inj.mp heq))]
      apply h.sendEntry src dst' k
      refine ⟨hle, ?_⟩
      split_ifs at hlt with hr
      · rw [hr]
        dsimp only at hlt
        by_cases hdst : dst' = dst
        · subst hdst
          rw [update_self] at hlt
          have hne : k ≠ (s.ranks r).group.sendDstCounter dst' := fun hk => hkey ⟨rfl, hk⟩
          omega
        · rwa [update_of_ne hdst] at hlt
      · exact hlt
  · intro dst' k obj' hget
    -- the counter of `r` for `dst` has moved on, and no other one has
    have hmono : ∀ q, (s.ranks q).group.sendDstCounter dst' ≤ ((s.put r
        { s.ranks r with
          group := { (s.ranks r).group with
            sendDstCounter := update (s.ranks r).group.sendDstCounter dst
              ((s.ranks r).group.sendDstCounter dst + 1) }
          calls
          made := (s.ranks r).made ++ [.sendObj obj dst] } s.store).ranks
            q).group.sendDstCounter dst' := by
      intro q
      rw [Group.ranks_put]
      split_ifs with hr
      · rw [hr]
        by_cases hdst : dst' = dst
        · subst hdst
          dsimp only
          rw [update_self]
          omega
        · dsimp only
          rw [update_of_ne hdst]
      · exact le_rfl
    by_cases hkey : dst' = dst ∧ k = (s.ranks r).group.sendDstCounter dst
    · obtain ⟨rfl, rfl⟩ := hkey
      refine ⟨r, ?_⟩
      rw [Group.ranks_put, if_pos rfl]
      dsimp only
      rw [update_self]
      omega
    · rw [update_of_ne (fun heq => hkey (sendKey_inj.mp heq))] at hget
      obtain ⟨q, hq⟩ := h.origin dst' k obj' hget
      exact ⟨q, hq.trans_le (hmono q)⟩

/-- `recv_obj`: the entry is in use by the rank that is named, and holds its object. -/
theorem GroupInvariant.recv (hcalls : (s.ranks r).calls = .recvObj src :: calls)
    (hsep : s.InUse src r ((s.ranks r).group.recvSrcCounter src))
    (hrecv : (s.ranks r).group.recvObj s.store src = .ok (obj, group)) :
    GroupInvariant programs (s.put r
      { s.ranks r with
        group
        received := update (s.ranks r).received src
          ((s.ranks r).received src ++ [obj]) }.returns s.store) := by
  have hcounts := h.counts r
  have hentry := h.sendEntry src r _ hsep
  unfold StatelessProcessGroup.recvObj at hrecv
  dsimp only at hrecv
  rw [hcounts.rank, hentry] at hrecv
  cases hnext : (sends (programs src) r)[(s.ranks r).group.recvSrcCounter src]? with
  | none => simp [hnext] at hrecv
  | some obj' =>
    rw [hnext] at hrecv
    obtain ⟨rfl, rfl⟩ := pair_of_ok hrecv
    rw [hcounts.received] at hnext
    rw [Rank.returns_eq (p := { s.ranks r with
      group := { (s.ranks r).group with
        rank := r
        recvSrcCounter := update (s.ranks r).group.recvSrcCounter src
          ((s.ranks r).group.recvSrcCounter src + 1) }
      received := update (s.ranks r).received src
        ((s.ranks r).received src ++ [obj']) }) hcalls]
    apply h.put
    · refine ⟨rfl, ?_, hcounts.broadcasts, hcounts.heard⟩
      intro q
      dsimp only
      by_cases hq : q = src
      · subst hq
        simp [hcounts.received]
      · rw [update_of_ne hq, update_of_ne hq, hcounts.received]
    · exact (h.follows r).recv hcalls rfl rfl
    · exact (h.delivered r).receive hnext rfl rfl
    · exact h.broadcastEntry
    · intro src' dst k huse
      obtain ⟨hle, hlt⟩ := huse
      rw [Group.ranks_put] at hle hlt
      apply h.sendEntry src' dst k
      constructor
      · split_ifs at hle with hr
        · subst hr
          dsimp only at hle
          by_cases hq : src' = src
          · subst hq
            rw [update_self] at hle
            omega
          · rwa [update_of_ne hq] at hle
        · exact hle
      · split_ifs at hlt with hr
        · rw [hr]
          exact hlt
        · exact hlt
    · intro dst k obj' hget
      obtain ⟨q, hq⟩ := h.origin dst k obj' hget
      refine ⟨q, ?_⟩
      rw [Group.ranks_put]
      split_ifs with hr
      · subst hr
        exact hq
      · exact hq

/-- A rank that has heard a broadcast goes on. -/
theorem GroupInvariant.hear {p' : Rank n α} (hears : Rank.Hears (s.ranks r) p' r src heard)
    (hgroup : p.group = p'.group) (hcounts : p.heard = p'.heard ∧ p.received = p'.received)
    (hfollows : p.Follows (programs r)) (hdelivered : p.Delivered programs r)
    (hentry : ∀ src k obj, store (broadcastKey src k) = some obj →
      (broadcasts src (programs src))[k]? = some obj)
    (hsame : ∀ (dst : Fin n) k, store (sendKey dst k) = s.store (sendKey dst k)) :
    GroupInvariant programs (s.put r p store) := by
  refine h.put ?_ hfollows hdelivered hentry ?_ ?_
  · refine ⟨hgroup ▸ hears.counts.rank, ?_, ?_, ?_⟩
    · rw [hgroup, hcounts.2]
      exact hears.counts.received
    · rw [hgroup, hcounts.1]
      exact hears.counts.broadcasts
    · rw [hgroup, hcounts.1]
      exact hears.counts.heard
  · intro src' dst k huse
    rw [hsame]
    apply h.sendEntry
    exact (Group.inUse_put (hgroup ▸ hears.sendDstCounter) (hgroup ▸ hears.recvSrcCounter)).mp huse
  · intro dst k obj hget
    rw [hsame] at hget
    obtain ⟨q, hq⟩ := h.origin dst k obj hget
    refine ⟨q, ?_⟩
    rw [Group.ranks_put]
    split_ifs with hr
    · subst hr
      rw [hgroup, hears.sendDstCounter]
      exact hq
    · exact hq

/-- `broadcast_obj`. -/
theorem GroupInvariant.broadcast (hcalls : (s.ranks r).calls = .broadcastObj obj src :: calls)
    (hbroadcast : (s.ranks r).group.broadcastObj s.store obj src = .ok (heard, group, store)) :
    GroupInvariant programs
      (s.put r (({ s.ranks r with group } : Rank n α).hear src heard).returns store) := by
  have hfollows := h.follows r
  have hnil : (s.ranks r).gatheredObjs = [] := by
    rcases hfollows.gathering with hnil | ⟨_, _, hcall⟩
    · exact hnil
    · rw [hcalls] at hcall
      cases hcall
  have hown : r = src →
      (broadcasts src (programs src))[((s.ranks r).heard src).length]? = some obj := by
    rintro rfl
    rw [hfollows.heard, hnil, hfollows.program, hcalls]
    exact broadcasts_next
  obtain ⟨hears, hnext, hentry, hsame⟩ :=
    broadcastObj_hears (h.counts r) hown h.broadcastEntry hbroadcast
  have hreturns := Rank.returns_eq (hears.calls.trans hcalls)
  have hd := (h.delivered r).hear hears hnext
  refine h.hear hears ?_ ?_ (hfollows.broadcast hcalls hears) ?_ hentry hsame
  · rw [hreturns]
  · rw [hreturns]
    exact ⟨rfl, rfl⟩
  · rw [hreturns]
    exact ⟨hd.received, hd.heard, hd.gathered, hd.gatheredObjs⟩

omit h

/-- One turn of the loop of `all_gather_obj`: the broadcast that is heard belongs to this gather. -/
theorem GroupInvariant.gather (hmatch : Matches programs) (h : GroupInvariant programs s)
    (hcalls : (s.ranks r).calls = .allGatherObj obj :: calls)
    (hlt : (s.ranks r).gatheredObjs.length < n)
    (hbroadcast : (s.ranks r).group.broadcastObj s.store obj ⟨_, hlt⟩ = .ok (heard, group, store)) :
    GroupInvariant programs
      (s.put r ((({ s.ranks r with group } : Rank n α).hear ⟨_, hlt⟩ heard).gather heard)
        store) := by
  have hfollows := h.follows r
  have hcount : ((s.ranks r).heard ⟨_, hlt⟩).length =
      (broadcasts ⟨_, hlt⟩ (s.ranks r).made).length := by
    rw [hfollows.heard, if_neg (Nat.lt_irrefl _), Nat.add_zero]
  have hown : r = ⟨_, hlt⟩ →
      (broadcasts ⟨_, hlt⟩ (programs ⟨_, hlt⟩))[((s.ranks r).heard ⟨_, hlt⟩).length]? =
        some obj := by
    intro hr
    rw [hcount, ← hr, hfollows.program, hcalls]
    exact filterMap_next rfl
  obtain ⟨hears, hnext, hentry, hsame⟩ :=
    broadcastObj_hears (h.counts r) hown h.broadcastEntry hbroadcast
  have haligned := hmatch.gather_next (hfollows.program.trans (by rw [hcalls])) ⟨_, hlt⟩
  rw [← hcount, hnext, ← hfollows.gathered] at haligned
  have hd := ((h.delivered r).hear hears hnext).gather hlt haligned.symm
  refine h.hear hears ?_ ?_ (hfollows.gather hcalls rfl hears) hd hentry hsame
  · unfold Rank.gather
    dsimp only
    split_ifs <;> rfl
  · unfold Rank.gather
    dsimp only
    split_ifs <;> exact ⟨rfl, rfl⟩

/-- **One step.** -/
theorem GroupInvariant.step (hmatch : Matches programs) (h : GroupInvariant programs s)
    (hsep : s.Separate r) (hs : s.step r = .ok s') : GroupInvariant programs s' := by
  unfold Group.step at hs
  unfold Group.Separate at hsep
  dsimp only at hs
  split at hs
  case h_1 hcalls => cases hs
  case h_2 obj dst calls hcalls =>
    rw [hcalls] at hsep
    cases hs
    exact h.send hcalls hsep rfl
  case h_3 src calls hcalls =>
    rw [hcalls] at hsep
    obtain ⟨⟨obj, group⟩, hrecv, hs⟩ := bind_eq_ok.mp hs
    cases hs
    exact h.recv hcalls hsep hrecv
  case h_4 obj src calls hcalls =>
    obtain ⟨⟨heard, group, store⟩, hbroadcast, hs⟩ := bind_eq_ok.mp hs
    cases hs
    exact h.broadcast hcalls hbroadcast
  case h_5 obj calls hcalls =>
    rw [dif_pos (h.follows r).lt] at hs
    obtain ⟨⟨heard, group, store⟩, hbroadcast, hs⟩ := bind_eq_ok.mp hs
    cases hs
    exact h.gather hmatch hcalls (h.follows r).lt hbroadcast

/-- Nothing has been done at the start. -/
theorem groupInvariant_init : GroupInvariant programs (groupMachine programs).init where
  counts _ := ⟨rfl, fun _ => rfl, rfl, fun _ _ => rfl⟩
  follows r := ⟨rfl, fun _ => rfl, fun _ => rfl, rfl, .inl rfl, r.pos⟩
  delivered _ := ⟨fun _ => List.nil_prefix, fun _ => List.nil_prefix, fun _ _ h => (by cases h),
    fun _ h => absurd h (Nat.not_lt_zero _)⟩
  broadcastEntry _ _ _ h := by cases h
  sendEntry _ _ _ h := absurd h.2 (Nat.not_lt_zero _)
  origin _ _ _ h := by cases h

theorem invariant_of_reach_group (hmatch : Matches programs)
    (h : (groupMachine programs).Reach Group.Separate s) : GroupInvariant programs s :=
  h.invariant groupInvariant_init fun _ _ _ hinv hsep hs => hinv.step hmatch hsep hs

end Steps

/-! ## Main results -/

/-- **What is delivered.** If the calls match up as in a collective program, every run in which no
access mixes the entries of two senders delivers what the calls promise. -/
theorem delivers_of_reach {programs : Fin n → List (GroupCall n α)} {s : Group n α}
    (hmatch : Matches programs) (h : (groupMachine programs).Reach Group.Separate s) :
    Delivers programs s :=
  let hinv := invariant_of_reach_group hmatch h
  ⟨fun r => (hinv.delivered r).received, fun r => (hinv.delivered r).heard,
    fun r => (hinv.delivered r).gathered⟩

section Runs

/-- Two ranks: an object is sent, another one broadcast, and two are gathered. -/
def twoPrograms : Fin 2 → List (GroupCall 2 Nat)
  | 0 => [.sendObj 1 1, .broadcastObj 5 0, .allGatherObj 7]
  | 1 => [.recvObj 0, .broadcastObj 0 0, .allGatherObj 8]

theorem delivers_twoPrograms : ∃ s, (groupMachine twoPrograms).Reach Group.Separate s ∧
    (s.ranks 0).gathered = [[7, 8]] ∧ Delivers twoPrograms s := by
  obtain ⟨s, hreach, hgathered⟩ := (groupMachine twoPrograms).exists_reach Group.Separate
    [0, 1, 0, 1, 0, 1, 1, 0] (fun s => (s.ranks 0).gathered = [[7, 8]]) (by decide +kernel)
  exact ⟨s, hreach, hgathered, delivers_of_reach (by decide) hreach⟩

/-- Ranks 0 and 1 send an object each to rank 2. -/
def threePrograms : Fin 3 → List (GroupCall 3 Nat)
  | 0 => [.sendObj 10 2]
  | 1 => [.sendObj 20 2]
  | 2 => [.recvObj 0, .recvObj 1]

/-- Rank 1 overwrites the entry that rank 0 has set, and rank 2 takes its object for that of
rank 0. -/
theorem threePrograms_mixed : Matches threePrograms ∧ ∃ s,
    (groupMachine threePrograms).Reach (fun _ _ => True) s ∧
      (s.ranks 2).received 0 = [20] ∧ ¬ Delivers threePrograms s := by
  refine ⟨by decide, ?_⟩
  obtain ⟨s, hreach, hreceived⟩ := (groupMachine threePrograms).exists_reach (fun _ _ => True)
    [0, 1, 2] (fun s => (s.ranks 2).received 0 = [20]) (by decide +kernel)
  refine ⟨s, hreach, hreceived, ?_⟩
  intro hdelivers
  have hsent := hdelivers.received 2 0
  rw [hreceived] at hsent
  revert hsent
  decide

end Runs

/-- **One sender for each rank.** Then no run mixes the entries of two senders. -/
theorem separate_of_reach {programs : Fin n → List (GroupCall n α)} {s : Group n α}
    (hmatch : Matches programs) (hone : OneSender programs)
    (h : (groupMachine programs).Reach (fun _ _ => True) s) :
    (groupMachine programs).Reach Group.Separate s := by
  induction h with
  | start => exact .start
  | @next s s' r _ _ hs ih =>
    have hinv := invariant_of_reach_group hmatch ih
    -- a rank that has counted an object for `dst` sends to `dst`
    have hsends : ∀ {q dst k}, k < (s.ranks q).group.sendDstCounter dst →
        sends (programs q) dst ≠ [] := by
      intro q dst k hlt hnil
      rw [(hinv.follows q).sent] at hlt
      rw [(hinv.follows q).program, sends, List.filterMap_append] at hnil
      have hmade : sends (s.ranks q).made dst = [] := (List.append_eq_nil_iff.mp hnil).1
      rw [hmade] at hlt
      exact absurd hlt (Nat.not_lt_zero _)
    refine ih.next ?_ hs
    unfold Group.Separate
    split
    case h_1 obj dst calls hcalls =>
      intro q hq huse
      have hr : sends (programs r) dst ≠ [] := by
        rw [(hinv.follows r).program, hcalls]
        simp [sends]
      exact hq (hone dst q r (hsends huse.2) hr)
    case h_2 src calls hcalls =>
      change s.step r = .ok s' at hs
      unfold Group.step at hs
      dsimp only at hs
      rw [hcalls] at hs
      obtain ⟨⟨obj, group⟩, hrecv, -⟩ := bind_eq_ok.mp hs
      unfold StatelessProcessGroup.recvObj at hrecv
      rw [(hinv.counts r).rank] at hrecv
      cases hget : s.store (sendKey r ((s.ranks r).group.recvSrcCounter src)) with
      | none => simp [hget] at hrecv
      | some obj' =>
        -- the entry was set by some rank, which is the one that is named
        obtain ⟨q, hq⟩ := hinv.origin r _ obj' hget
        have hsrc : sends (programs src) r ≠ [] := by
          have hle := hmatch.sent r src
          rw [(hinv.follows r).program, hcalls, receives, List.countP_append] at hle
          intro hnil
          rw [hnil] at hle
          simp at hle
        obtain rfl := hone r q src (hsends hq) hsrc
        exact ⟨le_rfl, hq⟩
    case h_3 => trivial

/-- **With one sender for each rank every run delivers** what the calls promise. -/
theorem delivers_of_oneSender {programs : Fin n → List (GroupCall n α)} {s : Group n α}
    (hmatch : Matches programs) (hone : OneSender programs)
    (h : (groupMachine programs).Reach (fun _ _ => True) s) : Delivers programs s :=
  let hinv := invariant_of_reach_group hmatch (separate_of_reach hmatch hone h)
  ⟨fun r => (hinv.delivered r).received, fun r => (hinv.delivered r).heard,
    fun r => (hinv.delivered r).gathered⟩

theorem delivers_twoPrograms_oneSender :
    ∃ s, (s.ranks 0).gathered = [[7, 8]] ∧ Delivers twoPrograms s := by
  obtain ⟨s, hreach, hgathered⟩ := (groupMachine twoPrograms).exists_reach (fun _ _ => True)
    [0, 1, 0, 1, 0, 1, 1, 0] (fun s => (s.ranks 0).gathered = [[7, 8]]) (by decide +kernel)
  exact ⟨s, hgathered, delivers_of_oneSender (by decide) (by unfold OneSender; decide) hreach⟩

end InferenceServer.Distributed
