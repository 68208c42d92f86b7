import Mathlib.Data.List.ReduceOption
import InferenceServer.Lib.Journal
import InferenceServer.Lib.Run
import InferenceServer.KVCache.BlockPool

/-!
# Publishing the events of the prefix cache

`ZmqEventPublisher` (`vllm/distributed/kv_events.py`) publishes the batches of KV cache events from a
thread of its own. The thread takes a batch off a queue, numbers it, encodes it, sends it to the
subscribers, and puts it into a bounded buffer. Live messages may be lost; a subscriber that sees a
gap in the numbers asks for a replay, and gets what the buffer holds from a number on.

The number is taken *before* the batch is encoded, and the encoder raises on an integer that has no
64 bits. Then the batch is neither sent nor put into the buffer, and the thread goes on with the next
number. **No replay can close such a gap**, and the subscriber never learns of the batch. With
`sha256`, the hash values of the blocks have 256 bits, so that almost all batches are of this kind.

Otherwise a replay that is served in time closes every gap (`recovers_iff`).

Sending does not fail: a socket of the publishing kind drops what it cannot deliver.

## Main results

* `numbered_of_reach`, `recovers_iff`
-/

namespace InferenceServer

open Outcome

/-! ## Batches and their encoding -/

/-- The integers that have an encoding. -/
def HasEncoding (n : Int) : Prop := -2 ^ 63 ≤ n ∧ n < 2 ^ 64

instance (n : Int) : Decidable (HasEncoding n) := by unfold HasEncoding; infer_instance

/-- The hash values in an event. -/
def KVCacheEvent.hashValues : KVCacheEvent → List Int
  | blockStored blockHashes parentBlockHash .. => blockHashes ++ parentBlockHash.toList
  | blockRemoved blockHashes => blockHashes
  | allBlocksCleared => []

/-- The other integers in an event. -/
def KVCacheEvent.otherInts : KVCacheEvent → List Int
  | blockStored _ _ tokenIds blockSize loraId =>
    tokenIds.map Int.ofNat ++ (Int.ofNat blockSize :: loraId.toList)
  | blockRemoved _ => []
  | allBlocksCleared => []

/-- `KVEventBatch`. -/
structure KVEventBatch where
  ts : Int
  events : List KVCacheEvent
  dataParallelRank : Option Int := none
deriving DecidableEq, Repr

namespace KVEventBatch

def hashValues (b : KVEventBatch) : List Int := b.events.flatMap KVCacheEvent.hashValues

def otherInts (b : KVEventBatch) : List Int :=
  b.events.flatMap KVCacheEvent.otherInts ++ b.dataParallelRank.toList

/-- All integers of the batch have an encoding. -/
def Encodable (b : KVEventBatch) : Prop := ∀ n ∈ b.hashValues ++ b.otherInts, HasEncoding n

instance (b : KVEventBatch) : Decidable b.Encodable := by unfold Encodable; infer_instance

end KVEventBatch

/-- The encoder of `msgspec` and a decoder: the encoder raises exactly on integers without an
encoding, and the decoder gives the batch back. -/
structure Codec (π : Type) where
  encode : KVEventBatch → Option π
  decode : π → KVEventBatch
  encode_isSome : ∀ b, (encode b).isSome ↔ b.Encodable
  decode_encode : ∀ b p, encode b = some p → decode p = b

/-! ## The hash functions -/

/-- `caching_hash_algo`. -/
inductive CachingHashAlgo where
  | builtin
  | sha256
  | sha256Cbor64bit
deriving DecidableEq, Repr

/-- The values of a hash function. -/
def CachingHashAlgo.Value : CachingHashAlgo → Int → Prop
  | builtin, n => -2 ^ 63 ≤ n ∧ n < 2 ^ 63
  | sha256, n => 0 ≤ n ∧ n < 2 ^ 256
  | sha256Cbor64bit, n => 0 ≤ n ∧ n < 2 ^ 64

/-! ## The publisher -/

/-- `ZmqEventPublisher`, with its thread. -/
structure ZmqEventPublisher (π : Type) where
  dataParallelRank : Int
  running : Bool := true
  /-- `_event_queue`; `none` is the sentinel. -/
  eventQueue : List (Option KVEventBatch) := []
  buffer : List (Nat × π) := []
  /-- The next value of `_seq_gen`. -/
  seqGen : Nat := 0
  /-- The thread has returned. -/
  stopped : Bool := false
  /-- History: the published batches. -/
  published : List KVEventBatch := []
  /-- History: the live messages. Any of them may be lost. -/
  live : List (Nat × π) := []
deriving DecidableEq

/-- Why a step is not made. -/
inductive PublisherError where
  /-- `RuntimeError("Publisher is closed")`. -/
  | closed
  /-- The queue is full: `put` waits, and `put_nowait` raises. -/
  | full
  /-- The queue is empty: the thread waits. -/
  | empty
  /-- The thread has returned. -/
  | stopped
deriving DecidableEq, Repr

/-- The bounds of the buffer and the queue. A queue with the bound 0 has no bound. -/
structure PublisherConfig where
  bufferSteps : Nat := 10000
  maxQueueSize : Nat := 100000
deriving DecidableEq, Repr

/-- A message of a replay. -/
inductive ReplayMessage (π : Type) where
  | batch (seq : Nat) (payload : π)
  /-- `END_SEQ`. -/
  | endSeq
deriving DecidableEq, Repr

namespace ZmqEventPublisher

variable {π : Type} (C : Codec π) (cfg : PublisherConfig)

/-- There is room in the queue. -/
def HasRoom (s : ZmqEventPublisher π) : Prop :=
  cfg.maxQueueSize = 0 ∨ s.eventQueue.length < cfg.maxQueueSize

instance (s : ZmqEventPublisher π) : Decidable (s.HasRoom cfg) := by
  unfold HasRoom
  infer_instance

/-- `publish`. A batch without a rank gets that of the publisher. -/
def publish (s : ZmqEventPublisher π) (events : KVEventBatch) :
    Except PublisherError (ZmqEventPublisher π) := do
  require (s.running = true) .closed
  let events := match events.dataParallelRank with
    | none => { events with dataParallelRank := some s.dataParallelRank }
    | some _ => events
  require (s.HasRoom cfg) .full
  return { s with
    eventQueue := s.eventQueue ++ [some events]
    published := s.published ++ [events] }

/-- The beginning of `shutdown`. -/
def shutdown (s : ZmqEventPublisher π) : Except PublisherError (ZmqEventPublisher π) := do
  require (s.HasRoom cfg) .full
  return { s with running := false, eventQueue := s.eventQueue ++ [none] }

/-- The payload of a batch, and whether its number has eight bytes. -/
def payload (seq : Nat) (event : KVEventBatch) : Option π :=
  (C.encode event).bind fun payload => if seq < 2 ^ 64 then some payload else none

/-- The main part of a turn of `_publisher_thread`. -/
def publishNext (s : ZmqEventPublisher π) : Except PublisherError (ZmqEventPublisher π) := do
  require (s.stopped = false) .stopped
  match s.eventQueue with
  | [] => .error .empty
  | none :: eventQueue => return { s with eventQueue, stopped := true }
  | some event :: eventQueue =>
    let seq := s.seqGen
    let s := { s with eventQueue, seqGen := seq + 1 }
    match payload C seq event with
    -- the exception is logged, and the number is gone
    | none => return s
    | some payload =>
      return { s with
        live := s.live ++ [(seq, payload)]
        buffer := Journal.lastOf cfg.bufferSteps (s.buffer ++ [(seq, payload)]) }

/-- `_service_replay`. -/
def serviceReplay (s : ZmqEventPublisher π) (startSeq : Nat) : List (ReplayMessage π) :=
  (s.buffer.filter fun x => startSeq ≤ x.1).map (fun x => .batch x.1 x.2) ++ [.endSeq]

end ZmqEventPublisher

/-- What happens to a publisher. A replay changes nothing, so it is a function of the state. -/
inductive PublisherStep where
  | publish (events : KVEventBatch)
  | shutdown
  | publishNext
deriving DecidableEq, Repr

/-- The publisher and its thread, in any order. -/
def eventPublisher {π : Type} (C : Codec π) (cfg : PublisherConfig) (dataParallelRank : Int) :
    Machine (ZmqEventPublisher π) PublisherStep PublisherError where
  init := { dataParallelRank }
  step s
    | .publish events => s.publish cfg events
    | .shutdown => s.shutdown cfg
    | .publishNext => s.publishNext C cfg

/-! ## The subscriber -/

/-- A subscriber with the next number it expects and the batches it has applied. -/
structure Subscriber where
  next : Nat
  applied : List KVEventBatch
deriving DecidableEq, Repr

/-- A subscriber skips the numbers it has applied. -/
def Subscriber.receive {π : Type} (C : Codec π) (sub : Subscriber) (seq : Nat) (payload : π) :
    Subscriber :=
  if seq < sub.next then sub
  else { next := seq + 1, applied := sub.applied ++ [C.decode payload] }

/-- A subscriber reads a replay to its end. -/
def Subscriber.catchUp {π : Type} (C : Codec π) (sub : Subscriber) :
    List (ReplayMessage π) → Subscriber
  | [] => sub
  | .endSeq :: _ => sub
  | .batch seq payload :: rest => (sub.receive C seq payload).catchUp C rest

/-- What a replay carries up to a number. -/
def ReplayMessage.upTo {π : Type} (seq : Nat) (messages : List (ReplayMessage π)) : List (Nat × π) :=
  (messages.filterMap fun
    | .batch seq payload => some (seq, payload)
    | .endSeq => none).filter fun x => x.1 ≤ seq

/-- **What a replay is for.** The replay from `m` carries every number from `m` to `seq` once and in
order, each with its batch. A subscriber that has applied the batches below `m` has then applied all up
to `seq`. -/
structure ZmqEventPublisher.Recovers {π : Type} (C : Codec π) (s : ZmqEventPublisher π) (m seq : Nat) :
    Prop where
  numbers : (ReplayMessage.upTo seq (s.serviceReplay m)).map (fun x => (x.1, some (C.decode x.2))) =
    (List.range' m (seq + 1 - m)).map fun i => (i, s.published[i]?)
  applied : ((Subscriber.mk m (s.published.take m)).catchUp C (s.serviceReplay m)).applied.take
    (seq + 1) = s.published.take (seq + 1)

/-! ## What has been sent -/

variable {π : Type} {C : Codec π} {cfg : PublisherConfig} {rank : Int} {s t : ZmqEventPublisher π}

namespace ZmqEventPublisher

theorem payload_isSome {seq : Nat} {event : KVEventBatch} :
    (payload C seq event).isSome ↔ event.Encodable ∧ seq < 2 ^ 64 := by
  rw [← C.encode_isSome, payload]
  cases C.encode event with
  | none => simp
  | some p => simp

theorem decode_payload {seq : Nat} {event : KVEventBatch} {p : π}
    (h : payload C seq event = some p) : C.decode p = event := by
  obtain ⟨p', hencode, hp⟩ := Option.bind_eq_some_iff.mp h
  split_ifs at hp
  obtain rfl := Option.some.inj hp
  exact C.decode_encode event p' hencode

/-- The batches are numbered in the order in which they were published. What could be sent has been
sent, and the buffer has the last of it. -/
structure Numbered (C : Codec π) (cfg : PublisherConfig) (s : ZmqEventPublisher π) : Prop where
  le : s.seqGen ≤ s.published.length
  queue : s.eventQueue.reduceOption = s.published.drop s.seqGen
  live : s.live = Journal.journal (payload C) (s.published.take s.seqGen)
  buffer : s.buffer = Journal.lastOf cfg.bufferSteps s.live

theorem Numbered.publish {events : KVEventBatch} (h : s.Numbered C cfg)
    (hs : s.publish cfg events = .ok t) : t.Numbered C cfg := by
  obtain ⟨_, -, hs⟩ := bind_eq_ok.mp hs
  obtain ⟨_, -, hs⟩ := bind_eq_ok.mp hs
  cases hs
  have hle := h.le
  refine ⟨?_, ?_, ?_, h.buffer⟩
  · dsimp only
    rw [List.length_append]
    omega
  · dsimp only
    rw [List.reduceOption_append, h.queue, List.drop_append_of_le_length hle]
    rfl
  · dsimp only
    rw [h.live, List.take_append_of_le_length hle]

theorem Numbered.shutdown (h : s.Numbered C cfg) (hs : s.shutdown cfg = .ok t) :
    t.Numbered C cfg := by
  obtain ⟨_, -, hs⟩ := bind_eq_ok.mp hs
  cases hs
  refine ⟨h.le, ?_, h.live, h.buffer⟩
  rw [List.reduceOption_append, h.queue]
  exact List.append_nil _

/-- **A turn of the thread** takes the next number for the next batch. -/
theorem Numbered.publishNext (h : s.Numbered C cfg) (hs : s.publishNext C cfg = .ok t) :
    t.Numbered C cfg := by
  obtain ⟨_, -, hs⟩ := bind_eq_ok.mp hs
  have hqueue := h.queue
  cases hq : s.eventQueue with
  | nil =>
    rw [hq] at hs
    cases hs
  | cons item eventQueue =>
    rw [hq] at hs hqueue
    cases item with
    | none =>
      cases hs
      exact ⟨h.le, hqueue, h.live, h.buffer⟩
    | some event =>
      -- the batch is the one that the number belongs to
      rw [List.reduceOption_cons_of_some] at hqueue
      have hget : s.published[s.seqGen]? = some event := by
        rw [← List.head?_drop, ← hqueue]
        rfl
      have hlt := (List.getElem?_eq_some_iff.mp hget).1
      have hrest : eventQueue.reduceOption = s.published.drop (s.seqGen + 1) := by
        rw [← List.tail_drop, ← hqueue]
        rfl
      have htake : s.published.take (s.seqGen + 1) = s.published.take s.seqGen ++ [event] := by
        rw [List.take_add_one, hget]
        rfl
      have hlen : (s.published.take s.seqGen).length = s.seqGen := by
        rw [List.length_take]
        omega
      dsimp only at hs
      cases hpayload : payload C s.seqGen event with
      | none =>
        rw [hpayload] at hs
        cases hs
        refine ⟨hlt, hrest, ?_, h.buffer⟩
        dsimp only
        rw [htake, Journal.journal_snoc, hlen, hpayload, h.live]
        exact (List.append_nil _).symm
      | some p =>
        rw [hpayload] at hs
        cases hs
        refine ⟨hlt, hrest, ?_, ?_⟩
        · dsimp only
          rw [htake, Journal.journal_snoc, hlen, hpayload, h.live]
          rfl
        · dsimp only
          rw [h.buffer, Journal.lastOf_lastOf_append]

/-- **What has been sent and what is in the buffer**, in every run. -/
theorem numbered_of_reach (h : (eventPublisher C cfg rank).Reach (fun _ _ => True) s) :
    s.Numbered C cfg :=
  h.invariant ⟨le_rfl, rfl, rfl, List.drop_nil.symm⟩ fun s i t hs _ hstep => by
    cases i with
    | publish events => exact hs.publish hstep
    | shutdown => exact hs.shutdown hstep
    | publishNext => exact hs.publishNext hstep

/-! ## Replays -/

theorem upTo_serviceReplay (s : ZmqEventPublisher π) (m seq : Nat) :
    ReplayMessage.upTo seq (s.serviceReplay m) =
      (s.buffer.filter fun x => m ≤ x.1).filter fun x => x.1 ≤ seq := by
  unfold ReplayMessage.upTo serviceReplay
  rw [List.filterMap_append, List.filterMap_map]
  simp

end ZmqEventPublisher

/-- A subscriber that expects nothing below the numbers of a replay applies all of it. -/
theorem Subscriber.applied_catchUp (sub : Subscriber) (messages : List (Nat × π))
    (hsorted : messages.Pairwise fun x y => x.1 < y.1) (hnext : ∀ x ∈ messages, sub.next ≤ x.1) :
    (sub.catchUp C (messages.map (fun x => .batch x.1 x.2) ++ [.endSeq])).applied =
      sub.applied ++ messages.map fun x => C.decode x.2 := by
  induction messages generalizing sub with
  | nil => exact (List.append_nil _).symm
  | cons x messages ih =>
    have hx := hnext x List.mem_cons_self
    rw [List.map_cons, List.cons_append, Subscriber.catchUp, Subscriber.receive,
      if_neg (Nat.not_lt.mpr hx)]
    rw [ih _ hsorted.of_cons fun y hy => Nat.succ_le_of_lt (List.rel_of_pairwise_cons hsorted hy)]
    rw [List.append_assoc, List.singleton_append, List.map_cons]

namespace ZmqEventPublisher

/-- **A replay that is served in time recovers** exactly if all batches from `m` to `seq` could be
encoded. -/
theorem recovers_iff {m seq : Nat} (h : (eventPublisher C cfg rank).Reach (fun _ _ => True) s)
    (hlive : ∃ p, (seq, p) ∈ s.live) (hm : m < seq) (htime : s.seqGen ≤ m + cfg.bufferSteps) :
    s.Recovers C m seq ↔
      ∀ i b, m ≤ i → i ≤ seq → s.published[i]? = some b → b.Encodable := by
  have hn := numbered_of_reach h
  have hle := hn.le
  obtain ⟨p, hp⟩ := hlive
  have hsorted : s.live.Pairwise fun x y => x.1 < y.1 := hn.live ▸ Journal.sorted_journal ..
  have hlt : ∀ x ∈ s.live, x.1 < s.seqGen := fun x hx => by
    rw [hn.live] at hx
    have := Journal.lt_of_mem_journal hx
    rw [List.length_take] at this
    omega
  have hseq := hlt _ hp
  have hseq64 : seq < 2 ^ 64 := by
    rw [hn.live] at hp
    obtain ⟨b, -, hpayload⟩ := Journal.mem_journal.mp hp
    exact (payload_isSome.mp (Option.isSome_iff_exists.mpr ⟨p, hpayload⟩)).2
  -- the buffer still has all that was sent from `m` on
  have hbuffer : (s.buffer.filter fun x => m ≤ x.1) = s.live.filter fun x => m ≤ x.1 := by
    rw [hn.buffer]
    exact Journal.filter_lastOf hsorted hlt htime
  have hget : ∀ i, i ≤ seq → (s.published.take s.seqGen)[i]? = s.published[i]? := fun i hi =>
    List.getElem?_take_of_lt (by dsimp only at hseq; omega)
  have hnumbers : (ReplayMessage.upTo seq (s.serviceReplay m)).map
        (fun x => (x.1, some (C.decode x.2))) =
        (List.range' m (seq + 1 - m)).map (fun i => (i, s.published[i]?)) ↔
      ∀ i b, m ≤ i → i ≤ seq → s.published[i]? = some b → b.Encodable := by
    have hrange := Journal.range_iff (f := payload C) (l := s.published.take s.seqGen)
      (g := C.decode) (fun _ _ _ => decode_payload) (m := m) (s := seq)
      (by rw [List.length_take]; dsimp only at hseq; omega)
    rw [← hn.live] at hrange
    rw [upTo_serviceReplay, hbuffer, List.filter_filter]
    have hleft : (s.live.filter fun x => decide (x.1 ≤ seq) && decide (m ≤ x.1)) =
        s.live.filter fun x => decide (m ≤ x.1 ∧ x.1 ≤ seq) := by
      refine List.filter_congr fun x _ => ?_
      rw [Bool.and_comm, Bool.decide_and]
    have hright : (List.range' m (seq + 1 - m)).map (fun i => (i, s.published[i]?)) =
        (List.range' m (seq + 1 - m)).map fun i => (i, (s.published.take s.seqGen)[i]?) := by
      refine List.map_congr_left fun i hi => ?_
      have := (List.mem_range'_1.mp hi).2
      rw [hget i (by omega)]
    rw [hleft, hright, hrange]
    refine forall₂_congr fun i b => forall₂_congr fun hmi hi => ?_
    rw [hget i hi, payload_isSome]
    exact imp_congr_right fun _ => and_iff_left (by omega)
  refine ⟨fun hr => hnumbers.mp hr.numbers, fun hall => ?_⟩
  have heq := hnumbers.mpr hall
  refine ⟨heq, ?_⟩
  -- what the subscriber applies begins with the batches from `m` to `seq`
  rw [upTo_serviceReplay, hbuffer] at heq
  have hfirst : (((s.live.filter fun x => m ≤ x.1).filter fun x => x.1 ≤ seq).map
      fun x => C.decode x.2) = (s.published.drop m).take (seq + 1 - m) := by
    have hmap := congrArg (List.map Prod.snd) heq
    rw [List.map_map, List.map_map] at hmap
    refine List.map_injective_iff.mpr (Option.some_injective _) ?_
    rw [← Journal.map_getElem?_range' (by dsimp only at hseq; omega), List.map_map]
    exact hmap
  have hfrom : (s.live.filter fun x => m ≤ x.1).Pairwise fun x y => x.1 < y.1 :=
    hsorted.sublist List.filter_sublist
  unfold serviceReplay
  rw [hbuffer, Subscriber.applied_catchUp _ _ hfrom fun x hx => by simpa using (List.mem_filter.mp hx).2]
  rw [← Journal.filter_append_filter seq hfrom, List.map_append, hfirst, ← List.append_assoc]
  have htake : s.published.take m ++ (s.published.drop m).take (seq + 1 - m) =
      s.published.take (seq + 1) := by
    rw [show seq + 1 = m + (seq + 1 - m) by omega, List.take_add]
    simp
  rw [htake, List.take_append_of_le_length (by rw [List.length_take]; dsimp only at hseq; omega),
    List.take_take, Nat.min_self]

/-! ## A batch that is lost -/

/-- A codec whose payloads are the batches. -/
def plainCodec : Codec KVEventBatch where
  encode b := if b.Encodable then some b else none
  decode b := b
  encode_isSome b := by
    by_cases h : b.Encodable <;> simp [h]
  decode_encode b p h := by
    split_ifs at h
    exact (Option.some.inj h).symm

/-- A batch with one block that has been stored. -/
def storedBatch (blockHash : Int) : KVEventBatch :=
  { ts := 0, events := [.blockStored [blockHash] none [1, 2] 2 none] }

/-- The publisher publishes batches, and then its thread takes all of them. -/
def publishAll (blockHashes : List Int) : List PublisherStep :=
  blockHashes.map (fun h => .publish (storedBatch h)) ++ blockHashes.map fun _ => .publishNext

/-- A replay of two batches. -/
theorem recovers_two :
    ∃ s, (eventPublisher plainCodec {} 0).Reach (fun _ _ => True) s ∧
      s.Recovers plainCodec 0 1 := by
  obtain ⟨s, hreach, ⟨x, hx, hseq⟩, hseqGen, hall⟩ := (eventPublisher plainCodec {} 0).exists_reach
    (fun _ _ => True) (publishAll [5, -7])
    (fun s => (∃ x ∈ s.live, x.1 = 1) ∧ s.seqGen = 2 ∧ ∀ b ∈ s.published, b.Encodable)
    (by decide +kernel)
  refine ⟨s, hreach, (recovers_iff hreach ⟨x.2, hseq ▸ hx⟩ Nat.one_pos ?_).mpr ?_⟩
  · rw [hseqGen]
    decide
  · exact fun i b _ _ hget => hall b (List.mem_of_getElem? hget)

/-- **The batch with a hash value of more than 64 bits is lost**: the replay from 1 has no batch under
1. -/
theorem notRecovers_sha256 :
    CachingHashAlgo.sha256.Value (2 ^ 64) ∧
      ∃ s, (eventPublisher plainCodec {} 0).Reach (fun _ _ => True) s ∧
        s.live.map Prod.fst = [0, 2] ∧ s.seqGen ≤ 1 + 10000 ∧
        s.published.map KVEventBatch.hashValues = [[5], [2 ^ 64], [7]] ∧
        ¬ s.Recovers plainCodec 1 2 := by
  refine ⟨⟨by norm_num, by norm_num⟩, ?_⟩
  obtain ⟨s, hreach, hlive, hseqGen, hpublished, hreplay⟩ :=
    (eventPublisher plainCodec {} 0).exists_reach (fun _ _ => True) (publishAll [5, 2 ^ 64, 7])
    (fun s => s.live.map Prod.fst = [0, 2] ∧ s.seqGen ≤ 1 + 10000 ∧
      s.published.map KVEventBatch.hashValues = [[5], [2 ^ 64], [7]] ∧
      (ReplayMessage.upTo 2 (s.serviceReplay 1)).map Prod.fst = [2]) (by decide +kernel)
  refine ⟨s, hreach, hlive, hseqGen, hpublished, fun hr => ?_⟩
  have hnumbers := congrArg (List.map Prod.fst) hr.numbers
  rw [List.map_map, List.map_map] at hnumbers
  change (ReplayMessage.upTo 2 (s.serviceReplay 1)).map Prod.fst = [1, 2] at hnumbers
  rw [hreplay] at hnumbers
  cases hnumbers

end ZmqEventPublisher

end InferenceServer
