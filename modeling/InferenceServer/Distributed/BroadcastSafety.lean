import InferenceServer.Distributed.ShmBroadcast

/-!
# The ring buffer delivers what was sent

Number the objects by the order of their `enqueue`. Object `k` goes through chunk `k % maxChunks`,
for the writer and for every reader, so that the indices of the processes are the numbers of chunks
they are done with, modulo the number of chunks. A chunk is live from its mark as written until the
writer clears it; while it is live its flags say which readers are past its object, and its data are
that object. No reader is ahead of the writer, and none is more than one round behind, since the
writer counts the flags before it clears a chunk.

Nobody reads all flags at once. What makes the polling sound is that what a process waits for stays
once it has come: the flags that the writer counts are only reset by the writer, and the flag that a
reader finds unset is only set by the reader.

A large object is received by the reader that has read its mark. The socket delivers the large
objects in their order, and so do the chunks deliver the marks.

## Main results

* `invariant_of_reach`: the invariant holds in every interleaving
* `broadcast_delivers`, `polling_exact`
-/

namespace InferenceServer.Distributed

open Function (update update_of_ne update_self update_eq_self)

variable {n : Nat} {α : Type} {maxChunks maxChunkBytes : Nat} {size : α → Nat}

/-- Within one round different numbers have different chunks. -/
theorem eq_of_mod_eq {m j k : Nat} (hjk : j ≤ k) (hlt : k < j + m) (hmod : j % m = k % m) :
    j = k := by
  have hm : 0 < m := by omega
  have hj := Nat.div_add_mod j m
  have hk := Nat.div_add_mod k m
  have hdiv : j / m = k / m := by
    have hle : j / m ≤ k / m := Nat.div_le_div_right hjk
    by_contra hne
    have hstep : m * (j / m + 1) ≤ m * (k / m) := Nat.mul_le_mul_left m (by omega)
    rw [Nat.mul_add, Nat.mul_one] at hstep
    omega
  rw [← hj, ← hk, hdiv, hmod]

theorem mod_ne_mod {m j k : Nat} (hjk : j < k) (hlt : k < j + m) : j % m ≠ k % m := by
  intro hmod
  have heq := eq_of_mod_eq hjk.le hlt hmod
  omega

/-- The chunk of the next number. -/
theorem succ_mod_mod (k m : Nat) : (k % m + 1) % m = (k + 1) % m := by
  rw [Nat.add_mod, Nat.mod_mod, ← Nat.add_mod]

/-- The chunk holds the object. -/
def Chunk.Holds (maxChunkBytes : Nat) (size : α → Nat) (c : Chunk α) (obj : α) : Prop :=
  if MessageQueue.overflows maxChunkBytes size obj then c.overflow = true
  else c = { overflow := false, obj := some obj }

/-- The writer is between clearing a chunk and marking it as written. -/
def WriterPc.clearing : WriterPc α → Prop
  | .writeChunk _ | .clearReads _ _ | .setWritten _ => True
  | _ => False

/-- The last object passed to `enqueue` is the one to be published next. -/
def MessageQueue.Next (s : MessageQueue n α) (obj : α) : Prop :=
  ∃ l, s.enqueued = l ++ [obj] ∧ l.length = s.published

/-- The chunk of the next object may be written: every reader is past what it held before. -/
def MessageQueue.Free (maxChunks : Nat) (s : MessageQueue n α) : Prop :=
  ∀ r, s.published < s.finished r + maxChunks

/-- What the writer knows at its next step. -/
def MessageQueue.WriterKnows (maxChunks maxChunkBytes : Nat) (size : α → Nat)
    (s : MessageQueue n α) : WriterPc α → Prop
  | .idle => s.enqueued.length = s.published
  | .countReads obj i count => s.Next obj ∧ i ≤ n ∧ count ≤ i ∧
    (count = i → ∀ r : Fin n, r < i → s.readFlag s.writerIdx r = true)
  | .checkWritten obj readCount => s.Next obj ∧ readCount ≤ n ∧
    (readCount = n → ∀ r, s.readFlag s.writerIdx r = true)
  | .clearWritten obj => s.Next obj ∧ s.Free maxChunks
  | .writeChunk obj => s.Next obj ∧ s.Free maxChunks ∧ s.writtenFlag s.writerIdx = false
  | .clearReads obj i => s.Next obj ∧ s.Free maxChunks ∧ s.writtenFlag s.writerIdx = false ∧
    (s.chunks s.writerIdx).Holds maxChunkBytes size obj ∧
    ∀ r : Fin n, r < i → s.readFlag s.writerIdx r = false
  | .setWritten obj => s.Next obj ∧ s.Free maxChunks ∧ s.writtenFlag s.writerIdx = false ∧
    (s.chunks s.writerIdx).Holds maxChunkBytes size obj ∧
    ∀ r, s.readFlag s.writerIdx r = false
  | .send obj => MessageQueue.overflows maxChunkBytes size obj = true ∧
    ∃ l, s.enqueued = l ++ [obj] ∧ l.length + 1 = s.published

/-- What reader `r` knows at its next step. -/
def MessageQueue.ReaderKnows (maxChunkBytes : Nat) (size : α → Nat) (s : MessageQueue n α)
    (r : Fin n) : ReaderPc α → Prop
  | .idle | .checkRead | .checkWritten true => s.dequeued r = s.enqueued.take (s.finished r)
  | .checkWritten false => s.dequeued r = s.enqueued.take (s.finished r) ∧
    s.readFlag (s.readerIdx r) r = false
  | .readChunk => s.dequeued r = s.enqueued.take (s.finished r) ∧ s.finished r < s.published
  | .setRead loaded => s.dequeued r = s.enqueued.take (s.finished r) ∧
    s.finished r < s.published ∧ ∃ obj, s.enqueued[s.finished r]? = some obj ∧
      loaded = if MessageQueue.overflows maxChunkBytes size obj then none else some obj
  | .recv => ∃ k obj, s.finished r = k + 1 ∧ s.dequeued r = s.enqueued.take k ∧
    s.enqueued[k]? = some obj ∧ MessageQueue.overflows maxChunkBytes size obj = true

/-- What a reader knows is about its own flag and its own lists. -/
theorem MessageQueue.ReaderKnows.congr {s s' : MessageQueue n α} {r : Fin n} {pc : ReaderPc α}
    (h : s.ReaderKnows maxChunkBytes size r pc) (hdeq : s'.dequeued r = s.dequeued r)
    (henq : s'.enqueued = s.enqueued) (hfin : s'.finished r = s.finished r)
    (hpub : s.published ≤ s'.published)
    (hflag : s.readFlag (s.readerIdx r) r = false → s'.readFlag (s'.readerIdx r) r = false) :
    s'.ReaderKnows maxChunkBytes size r pc := by
  have hlist : s.dequeued r = s.enqueued.take (s.finished r) →
      s'.dequeued r = s'.enqueued.take (s'.finished r) := fun hlist => by rw [hdeq, henq, hfin, hlist]
  cases pc with
  | idle => exact hlist h
  | checkRead => exact hlist h
  | checkWritten readFlag =>
    cases readFlag with
    | true => exact hlist h
    | false => exact ⟨hlist h.1, hflag h.2⟩
  | readChunk => exact ⟨hlist h.1, by rw [hfin]; exact h.2.trans_le hpub⟩
  | setRead loaded =>
    obtain ⟨hl, hlt, hobj⟩ := h
    exact ⟨hlist hl, by rw [hfin]; exact hlt.trans_le hpub, by rwa [hfin, henq]⟩
  | recv =>
    obtain ⟨k, obj, hk, hl, hobj, hover⟩ := h
    exact ⟨k, obj, hfin.trans hk, by rw [hdeq, henq, hl], by rwa [henq], hover⟩

/-- What a reader has got is at the start of what was sent. -/
theorem MessageQueue.ReaderKnows.isPrefix {s : MessageQueue n α} {r : Fin n} {pc : ReaderPc α}
    (h : s.ReaderKnows maxChunkBytes size r pc) : s.dequeued r <+: s.enqueued := by
  cases pc with
  | idle => exact h ▸ List.take_prefix _ _
  | checkRead => exact h ▸ List.take_prefix _ _
  | checkWritten readFlag =>
    cases readFlag with
    | false => exact h.1 ▸ List.take_prefix _ _
    | true => exact h ▸ List.take_prefix _ _
  | readChunk => exact h.1 ▸ List.take_prefix _ _
  | setRead => exact h.1 ▸ List.take_prefix _ _
  | recv =>
    obtain ⟨k, -, -, hdeq, -⟩ := h
    exact hdeq ▸ List.take_prefix _ _

/-- The flags that the writer has counted stay set, and the flags it has reset stay unset. -/
theorem MessageQueue.WriterKnows.congr {s s' : MessageQueue n α} {pc : WriterPc α}
    (h : s.WriterKnows maxChunks maxChunkBytes size pc) (henq : s'.enqueued = s.enqueued)
    (hpub : s'.published = s.published) (hfin : ∀ r, s.finished r ≤ s'.finished r)
    (hidx : s'.writerIdx = s.writerIdx) (hwritten : s'.writtenFlag = s.writtenFlag)
    (hchunks : s'.chunks = s.chunks)
    (hset : ∀ r, s.readFlag s.writerIdx r = true → s'.readFlag s.writerIdx r = true)
    (hunset : s.Free maxChunks → ∀ r, s.readFlag s.writerIdx r = false →
      s'.readFlag s.writerIdx r = false) :
    s'.WriterKnows maxChunks maxChunkBytes size pc := by
  have hnext : ∀ obj, s.Next obj → s'.Next obj := fun obj ⟨l, hl, hlen⟩ =>
    ⟨l, henq.trans hl, hlen.trans hpub.symm⟩
  have hfree : s.Free maxChunks → s'.Free maxChunks := fun hfree r => by
    have hlt := hfree r
    have hle := hfin r
    omega
  cases pc with
  | idle => exact (congrArg List.length henq).trans (h.trans hpub.symm)
  | countReads obj i count =>
    exact ⟨hnext _ h.1, h.2.1, h.2.2.1, fun hc r hr => hidx ▸ hset r (h.2.2.2 hc r hr)⟩
  | checkWritten obj readCount =>
    exact ⟨hnext _ h.1, h.2.1, fun hc r => hidx ▸ hset r (h.2.2 hc r)⟩
  | clearWritten obj => exact ⟨hnext _ h.1, hfree h.2⟩
  | writeChunk obj => exact ⟨hnext _ h.1, hfree h.2.1, by rw [hidx, hwritten]; exact h.2.2⟩
  | clearReads obj i =>
    obtain ⟨hn, hf, hw, hc, hr⟩ := h
    exact ⟨hnext _ hn, hfree hf, by rw [hidx, hwritten]; exact hw, by rw [hidx, hchunks]; exact hc,
      fun r hi => hidx ▸ hunset hf r (hr r hi)⟩
  | setWritten obj =>
    obtain ⟨hn, hf, hw, hc, hr⟩ := h
    exact ⟨hnext _ hn, hfree hf, by rw [hidx, hwritten]; exact hw, by rw [hidx, hchunks]; exact hc,
      fun r => hidx ▸ hunset hf r (hr r)⟩
  | send obj =>
    obtain ⟨hover, l, hl, hlen⟩ := h
    exact ⟨hover, l, henq.trans hl, hlen.trans hpub.symm⟩

/-- How many objects the writer is done with. -/
def MessageQueue.sent (s : MessageQueue n α) : Nat :=
  match s.writer with
  | .send _ => s.published - 1
  | _ => s.published

open MessageQueue (sent)

/-- **The invariant.** -/
structure Invariant (maxChunks maxChunkBytes : Nat) (size : α → Nat) (s : MessageQueue n α) :
    Prop where
  writerIdx : s.writerIdx = s.published % maxChunks
  readerIdx : ∀ r, s.readerIdx r = s.finished r % maxChunks
  behind : ∀ r, s.finished r ≤ s.published
  round : ∀ r, s.published ≤ s.finished r + maxChunks
  /-- A live chunk is marked as written, its flags say who is past it, and it holds its object. -/
  live : ∀ k < s.published, s.published ≤ k + maxChunks →
    (s.writer.clearing → s.published < k + maxChunks) →
    s.writtenFlag (k % maxChunks) = true ∧
      (∀ r, s.readFlag (k % maxChunks) r = decide (k < s.finished r)) ∧
      ∀ obj, s.enqueued[k]? = some obj →
        (s.chunks (k % maxChunks)).Holds maxChunkBytes size obj
  /-- A chunk that was never used has no flag set. -/
  fresh : ∀ j, s.published ≤ j → s.writtenFlag j = false ∧ ∀ r, s.readFlag j r = false
  writer : s.WriterKnows maxChunks maxChunkBytes size s.writer
  reader : ∀ r, s.ReaderKnows maxChunkBytes size r (s.reader r)
  /-- The socket of a reader holds the large objects that it has not received. -/
  sockets : ∀ r, (s.dequeued r).filter (MessageQueue.overflows maxChunkBytes size) ++ s.sockets r =
    (s.enqueued.take s.sent).filter (MessageQueue.overflows maxChunkBytes size)

namespace Invariant

variable {s s' : MessageQueue n α} {r : Fin n} {obj : α} (h : Invariant maxChunks maxChunkBytes size s)

include h

/-! ## What the flags tell -/

theorem length_le : s.published ≤ s.enqueued.length := by
  have hw := h.writer
  cases hpc : s.writer <;> rw [hpc] at hw
  case idle => exact hw.ge
  case send =>
    obtain ⟨-, l, hl, hlen⟩ := hw
    simp [hl, hlen]
  all_goals
    obtain ⟨l, hl, hlen⟩ := hw.1
    simp [hl, hlen]

/-- **The writer clears a chunk only when all readers are past it.** -/
theorem free (hm : 0 < maxChunks) (hclear : ¬ s.writer.clearing)
    (hpoll : s.writtenFlag s.writerIdx = false ∨ ∀ r, s.readFlag s.writerIdx r = true) :
    s.Free maxChunks := by
  intro r
  by_cases hfirst : s.published < maxChunks
  · omega
  · -- the chunk still holds the object of the round before
    have hmod : (s.published - maxChunks) % maxChunks = s.writerIdx := by
      rw [h.writerIdx, ← Nat.mod_eq_sub_mod (by omega)]
    obtain ⟨hwritten, hreads, -⟩ := h.live (s.published - maxChunks) (by omega) (by omega)
      fun hc => absurd hc hclear
    rw [hmod] at hwritten hreads
    rcases hpoll with hpoll | hpoll
    · rw [hpoll] at hwritten
      cases hwritten
    · have hpast := (hreads r).symm.trans (hpoll r)
      have hlt : s.published - maxChunks < s.finished r := of_decide_eq_true hpast
      omega

/-- While the writer clears and writes a chunk, it is not marked as written. -/
theorem unwritten_of_clearing (hclear : s.writer.clearing) : s.writtenFlag s.writerIdx = false := by
  have hw := h.writer
  cases hpc : s.writer <;> rw [hpc] at hw hclear
  case writeChunk => exact hw.2.2
  case clearReads => exact hw.2.2.1
  case setWritten => exact hw.2.2.1
  all_goals exact hclear.elim

/-- **A reader reads a chunk only when it holds the reader's next object.** -/
theorem unread (hm : 0 < maxChunks) (hread : s.readFlag (s.readerIdx r) r = false)
    (hwritten : s.writtenFlag (s.readerIdx r) = true) : s.finished r < s.published := by
  have hbehind := h.behind r
  by_contra hge
  have heq : s.finished r = s.published := by omega
  have hidx : s.readerIdx r = s.published % maxChunks := by rw [h.readerIdx, heq]
  rw [hidx] at hread hwritten
  by_cases hfirst : s.published < maxChunks
  · have hfresh := (h.fresh (s.published % maxChunks) (by rw [Nat.mod_eq_of_lt hfirst])).1
    rw [hwritten] at hfresh
    cases hfresh
  · have hmod : (s.published - maxChunks) % maxChunks = s.published % maxChunks :=
      (Nat.mod_eq_sub_mod (by omega)).symm
    by_cases hclear : s.writer.clearing
    · have hcleared := h.unwritten_of_clearing hclear
      rw [h.writerIdx, hwritten] at hcleared
      cases hcleared
    · obtain ⟨-, hreads, -⟩ := h.live (s.published - maxChunks) (by omega) (by omega)
        fun hc => absurd hc hclear
      rw [hmod] at hreads
      have hpast := (hreads r).symm.trans hread
      have hnot : ¬ s.published - maxChunks < s.finished r := of_decide_eq_false hpast
      omega

/-- While the writer clears and writes a chunk, every reader is past what it held. -/
theorem free_of_clearing (hclear : s.writer.clearing) : s.Free maxChunks := by
  have hw := h.writer
  cases hpc : s.writer <;> rw [hpc] at hw hclear
  case writeChunk => exact hw.2.1
  case clearReads => exact hw.2.1
  case setWritten => exact hw.2.1
  all_goals exact hclear.elim

/-- What a reader that has not finished a published object finds in its chunk. -/
theorem chunk_of_unfinished (hlt : s.finished r < s.published) :
    ∃ obj, s.enqueued[s.finished r]? = some obj ∧
      (s.chunks (s.readerIdx r)).Holds maxChunkBytes size obj := by
  have hlen : s.finished r < s.enqueued.length := hlt.trans_le h.length_le
  have hobj : s.enqueued[s.finished r]? = some s.enqueued[s.finished r] :=
    List.getElem?_eq_getElem hlen
  obtain ⟨-, -, hholds⟩ := h.live (s.finished r) hlt (h.round r) fun hc => h.free_of_clearing hc r
  rw [h.readerIdx]
  exact ⟨_, hobj, hholds _ hobj⟩

/-- A reader that has not finished a published object is not at the chunk of the writer. -/
theorem readerIdx_ne (hfree : s.Free maxChunks)
    (hlt : s.finished r < s.published) : s.readerIdx r ≠ s.writerIdx := by
  rw [h.readerIdx, h.writerIdx]
  exact mod_ne_mod hlt (hfree r)

/-! ## The writer -/

/-- The writer goes on, without a change to the shared memory. -/
theorem setWriter {pc : WriterPc α} (hclear : s.writer.clearing ↔ pc.clearing)
    (hsent : ({ s with writer := pc } : MessageQueue n α).sent = s.sent)
    (hw : s.WriterKnows maxChunks maxChunkBytes size pc) :
    Invariant maxChunks maxChunkBytes size { s with writer := pc } where
  writerIdx := h.writerIdx
  readerIdx := h.readerIdx
  behind := h.behind
  round := h.round
  live k hk hk' hc := h.live k hk hk' fun hc' => hc (hclear.mp hc')
  fresh := h.fresh
  writer := hw
  reader := h.reader
  sockets r := by
    rw [hsent]
    exact h.sockets r

/-- A call of `enqueue` starts. -/
theorem enqueue (hpc : s.writer = .idle) (obj : α) : Invariant maxChunks maxChunkBytes size
      { s with writer := .countReads obj 0 0, enqueued := s.enqueued ++ [obj] } := by
  have hlen : s.enqueued.length = s.published := by
    have hw := h.writer
    rw [hpc] at hw
    exact hw
  have htake : ∀ k ≤ s.published, (s.enqueued ++ [obj]).take k = s.enqueued.take k :=
    fun k hk => List.take_append_of_le_length (by omega)
  have hget : ∀ k < s.published, (s.enqueued ++ [obj])[k]? = s.enqueued[k]? :=
    fun k hk => List.getElem?_append_left (by omega)
  refine ⟨h.writerIdx, h.readerIdx, h.behind, h.round, fun k hk hk' _ => ?_, h.fresh,
    ⟨⟨s.enqueued, rfl, hlen⟩, Nat.zero_le n, le_rfl, nofun⟩, fun r => ?_, fun r => ?_⟩
  · obtain ⟨hwritten, hreads, hholds⟩ := h.live k hk hk' fun hc => by
      rw [hpc] at hc
      exact hc.elim
    exact ⟨hwritten, hreads, fun o ho => hholds o (by rwa [hget k hk] at ho)⟩
  · have hr := h.reader r
    have hbehind := h.behind r
    cases hrpc : s.reader r <;> rw [hrpc] at hr
    case idle => exact hr.trans (htake _ hbehind).symm
    case checkRead => exact hr.trans (htake _ hbehind).symm
    case checkWritten readFlag =>
      cases readFlag with
      | true => exact hr.trans (htake _ hbehind).symm
      | false => exact ⟨hr.1.trans (htake _ hbehind).symm, hr.2⟩
    case readChunk => exact ⟨hr.1.trans (htake _ hbehind).symm, hr.2⟩
    case setRead loaded =>
      obtain ⟨hdeq, hlt, o, ho, hloaded⟩ := hr
      exact ⟨hdeq.trans (htake _ hbehind).symm, hlt, o, (hget _ hlt).trans ho, hloaded⟩
    case recv =>
      obtain ⟨k, o, hk, hdeq, ho, hover⟩ := hr
      exact ⟨k, o, hk, hdeq.trans (htake _ (by omega)).symm, (hget _ (by omega)).trans ho, hover⟩
  · have hsocket := h.sockets r
    have hsent : s.sent = s.published := by simp [sent, hpc]
    rw [hsent] at hsocket
    exact hsocket.trans (congrArg _ (htake _ le_rfl).symm)

/-- The writer reads one flag, or has read them all. -/
theorem countReads {i count : Nat} (hpc : s.writer = .countReads obj i count)
    (hs : s.write maxChunks maxChunkBytes size = .ok s') :
    Invariant maxChunks maxChunkBytes size s' := by
  have hw := h.writer
  rw [hpc] at hw
  obtain ⟨hnext, hi, hcount, hall⟩ := hw
  simp only [MessageQueue.write, hpc] at hs
  split_ifs at hs with hlt
  · cases hs
    refine h.setWriter (by rw [hpc]; rfl) (by simp [sent, hpc]) ⟨hnext, hlt, ?_, ?_⟩
    · have hle := Bool.toNat_le (s.readFlag s.writerIdx ⟨i, hlt⟩)
      omega
    · -- a full count so far means that the last flag was set as well
      intro hfull r hr
      have hle := Bool.toNat_le (s.readFlag s.writerIdx ⟨i, hlt⟩)
      rcases Nat.lt_succ_iff_lt_or_eq.mp hr with hr | hr
      · exact hall (by omega) r hr
      · obtain rfl : r = ⟨i, hlt⟩ := Fin.ext hr
        exact Bool.toNat_eq_one.mp (by omega)
  · cases hs
    obtain rfl : i = n := by omega
    exact h.setWriter (by rw [hpc]; rfl) (by simp [sent, hpc])
      ⟨hnext, hcount, fun hfull r => hall hfull r r.isLt⟩

/-- The writer polls again, or goes on to clear the chunk. -/
theorem checkWritten (hm : 0 < maxChunks)
    {readCount : Nat} (hpc : s.writer = .checkWritten obj readCount)
    (hs : s.write maxChunks maxChunkBytes size = .ok s') :
    Invariant maxChunks maxChunkBytes size s' := by
  have hw := h.writer
  rw [hpc] at hw
  obtain ⟨hnext, hcount, hall⟩ := hw
  simp only [MessageQueue.write, hpc] at hs
  split_ifs at hs with hpoll
  · cases hs
    exact h.setWriter (by rw [hpc]; rfl) (by simp [sent, hpc])
      ⟨hnext, Nat.zero_le n, le_rfl, nofun⟩
  · cases hs
    refine h.setWriter (by rw [hpc]; rfl) (by simp [sent, hpc])
      ⟨hnext, h.free hm (by rw [hpc]; exact id) ?_⟩
    cases hflag : s.writtenFlag s.writerIdx with
    | false => exact .inl rfl
    | true => exact .inr (hall (by simpa [hflag] using hpoll))

/-- The writer clears the mark of the chunk, which is then no longer live. -/
theorem clearWritten (hpc : s.writer = .clearWritten obj) :
    Invariant maxChunks maxChunkBytes size
      { s with
        writtenFlag := update s.writtenFlag s.writerIdx false
        writer := .writeChunk obj } := by
  have hw := h.writer
  rw [hpc] at hw
  refine ⟨h.writerIdx, h.readerIdx, h.behind, h.round, fun k hk hk' hc => ?_, fun j hj => ?_,
    ⟨hw.1, hw.2, update_self ..⟩, fun r => ?_, fun r => ?_⟩
  · obtain ⟨hwritten, hreads, hholds⟩ := h.live k hk hk' fun hc => by
      rw [hpc] at hc
      exact hc.elim
    have hne : k % maxChunks ≠ s.writerIdx := h.writerIdx ▸ mod_ne_mod hk (hc trivial)
    exact ⟨(update_of_ne hne ..).trans hwritten, hreads, hholds⟩
  · refine ⟨?_, (h.fresh j hj).2⟩
    by_cases hj' : j = s.writerIdx
    · obtain rfl := hj'
      exact update_self ..
    · exact (update_of_ne hj' ..).trans (h.fresh j hj).1
  · exact (h.reader r).congr rfl rfl rfl le_rfl id
  · have hsocket := h.sockets r
    simpa [sent, hpc] using hsocket

/-- The writer writes the chunk, which no reader is looking at. -/
theorem writeChunk (hpc : s.writer = .writeChunk obj)
    (hs : s.write maxChunks maxChunkBytes size = .ok s') :
    Invariant maxChunks maxChunkBytes size s' := by
  have hw := h.writer
  rw [hpc] at hw
  obtain ⟨hnext, hfree, hwritten⟩ := hw
  simp only [MessageQueue.write, hpc] at hs
  cases hs
  refine ⟨h.writerIdx, h.readerIdx, h.behind, h.round, fun k hk hk' hc => ?_, h.fresh,
    ⟨hnext, hfree, hwritten, ?_, nofun⟩, fun r => (h.reader r).congr rfl rfl rfl le_rfl id,
    fun r => ?_⟩
  · obtain ⟨hwritten, hreads, hholds⟩ := h.live k hk hk' fun _ => hc trivial
    have hne : k % maxChunks ≠ s.writerIdx := h.writerIdx ▸ mod_ne_mod hk (hc trivial)
    exact ⟨hwritten, hreads, fun o ho => by
      dsimp only
      rw [update_of_ne hne]
      exact hholds o ho⟩
  · dsimp only
    rw [update_self]
    unfold Chunk.Holds
    split_ifs <;> rfl
  · have hsocket := h.sockets r
    simpa [sent, hpc] using hsocket

/-- The writer resets one flag, or has reset them all. -/
theorem clearReads {i : Nat} (hpc : s.writer = .clearReads obj i)
    (hs : s.write maxChunks maxChunkBytes size = .ok s') :
    Invariant maxChunks maxChunkBytes size s' := by
  have hw := h.writer
  rw [hpc] at hw
  obtain ⟨hnext, hfree, hwritten, hholds, hreset⟩ := hw
  simp only [MessageQueue.write, hpc] at hs
  split_ifs at hs with hlt
  · cases hs
    -- the flags after the step are the flags before it or unset
    have hflag : ∀ j r, s.readFlag j r = false →
        update s.readFlag s.writerIdx
          (update (s.readFlag s.writerIdx) ⟨i, hlt⟩ false) j r = false := by
      intro j r hj
      by_cases hj' : j = s.writerIdx
      · subst hj'
        rw [update_self]
        by_cases hr : r = ⟨i, hlt⟩
        · rw [hr, update_self]
        · rwa [update_of_ne hr]
      · rwa [update_of_ne hj']
    refine ⟨h.writerIdx, h.readerIdx, h.behind, h.round, fun k hk hk' hc => ?_,
      fun j hj => ⟨(h.fresh j hj).1, fun r => hflag j r ((h.fresh j hj).2 r)⟩,
      ⟨hnext, hfree, hwritten, hholds, fun r hr => ?_⟩,
      fun r => (h.reader r).congr rfl rfl rfl le_rfl (hflag _ r), fun r => ?_⟩
    · obtain ⟨hwritten, hreads, hholds⟩ := h.live k hk hk' fun _ => hc trivial
      have hne : k % maxChunks ≠ s.writerIdx := h.writerIdx ▸ mod_ne_mod hk (hc trivial)
      exact ⟨hwritten, fun r => (congrFun (update_of_ne hne ..) r).trans (hreads r), hholds⟩
    · rcases Nat.lt_succ_iff_lt_or_eq.mp hr with hr | hr
      · exact hflag s.writerIdx r (hreset r hr)
      · obtain rfl : r = ⟨i, hlt⟩ := Fin.ext hr
        dsimp only
        rw [update_self, update_self]
    · have hsocket := h.sockets r
      simpa [sent, hpc] using hsocket
  · cases hs
    exact h.setWriter (by rw [hpc]; rfl) (by simp [sent, hpc])
      ⟨hnext, hfree, hwritten, hholds, fun r => hreset r (by omega)⟩

/-- **The writer publishes its object**: the chunk becomes live. -/
theorem setWritten (hpc : s.writer = .setWritten obj)
    (hs : s.write maxChunks maxChunkBytes size = .ok s') :
    Invariant maxChunks maxChunkBytes size s' := by
  have hw := h.writer
  rw [hpc] at hw
  obtain ⟨⟨l, hl, hlen⟩, hfree, -, hholds, hreset⟩ := hw
  simp only [MessageQueue.write, hpc] at hs
  cases hs
  have hobj : s.enqueued[s.published]? = some obj := by
    rw [hl, ← hlen, List.getElem?_append_right le_rfl]
    simp
  refine ⟨?_, h.readerIdx, fun r => (h.behind r).trans (Nat.le_succ _), fun r => hfree r,
    fun k hk hk' _ => ?_, fun j hj => ?_, ?_,
    fun r => (h.reader r).congr rfl rfl rfl (Nat.le_succ _) id, fun r => ?_⟩
  · dsimp only
    rw [h.writerIdx, succ_mod_mod]
  · rcases Nat.lt_succ_iff_lt_or_eq.mp hk with hk | rfl
    · have hlive : s.published < k + maxChunks := hk'
      obtain ⟨hwritten, hreads, hholds⟩ := h.live k hk hlive.le fun _ => hlive
      have hne : k % maxChunks ≠ s.writerIdx := h.writerIdx ▸ mod_ne_mod hk hlive
      exact ⟨(update_of_ne hne ..).trans hwritten, hreads, hholds⟩
    · rw [← h.writerIdx]
      refine ⟨update_self .., fun r => ?_, fun o ho => ?_⟩
      · have hbehind := h.behind r
        have hnot : ¬ s.published < s.finished r := by omega
        exact (hreset r).trans (decide_eq_false hnot).symm
      · obtain rfl : obj = o := Option.some.inj (hobj.symm.trans ho)
        exact hholds
  · have hne : j ≠ s.writerIdx := by
      have hle := Nat.mod_le s.published maxChunks
      rw [h.writerIdx]
      dsimp only at hj
      omega
    exact ⟨(update_of_ne hne ..).trans (h.fresh j (Nat.le_of_succ_le hj)).1,
      (h.fresh j (Nat.le_of_succ_le hj)).2⟩
  · dsimp only
    split_ifs with hover
    · exact ⟨hover, l, hl, by rw [hlen]⟩
    · simp [MessageQueue.WriterKnows, hl, hlen]
  · have hsocket := h.sockets r
    have hsent : s.sent = s.published := by simp [sent, hpc]
    rw [hsent] at hsocket
    refine hsocket.trans ?_
    by_cases hover : MessageQueue.overflows maxChunkBytes size obj = true
    · simp [sent, hover]
    · have hall : s.enqueued.take (s.published + 1) = s.enqueued.take s.published ++ [obj] := by
        rw [List.take_add_one, hobj]
        rfl
      simp only [sent, hover, if_false, Bool.false_eq_true, hall, List.filter_append]
      simp [hover]

/-- The writer sends a large object to all readers. -/
theorem send (hpc : s.writer = .send obj) : Invariant maxChunks maxChunkBytes size
      { s with sockets := s.sockets.broadcast obj, writer := .idle } := by
  have hw := h.writer
  rw [hpc] at hw
  obtain ⟨hover, l, hl, hlen⟩ := hw
  refine ⟨h.writerIdx, h.readerIdx, h.behind, h.round, fun k hk hk' _ => ?_, h.fresh, ?_,
    fun r => (h.reader r).congr rfl rfl rfl le_rfl id, fun r => ?_⟩
  · exact h.live k hk hk' fun hc => by
      rw [hpc] at hc
      exact hc.elim
  · simp [MessageQueue.WriterKnows, hl, hlen]
  · have hsocket := h.sockets r
    have hsent : s.sent = l.length := by simp [sent, hpc, ← hlen]
    rw [hsent, hl, List.take_left] at hsocket
    have hall : (s.enqueued.take s.published) = l ++ [obj] := by
      rw [hl, ← hlen]
      exact List.take_of_length_le (by simp)
    simp only [sent, Channels.broadcast, hall, List.filter_append]
    rw [← List.append_assoc, hsocket]
    simp [hover]

theorem write (hm : 0 < maxChunks) (hs : s.write maxChunks maxChunkBytes size = .ok s') :
    Invariant maxChunks maxChunkBytes size s' := by
  cases hpc : s.writer with
  | idle => simp [MessageQueue.write, hpc] at hs
  | countReads obj i count => exact h.countReads hpc hs
  | checkWritten obj readCount => exact h.checkWritten hm hpc hs
  | clearWritten obj =>
    simp only [MessageQueue.write, hpc] at hs
    cases hs
    exact h.clearWritten hpc
  | writeChunk obj => exact h.writeChunk hpc hs
  | clearReads obj i => exact h.clearReads hpc hs
  | setWritten obj => exact h.setWritten hpc hs
  | send obj =>
    simp only [MessageQueue.write, hpc] at hs
    cases hs
    exact h.send hpc

/-! ## The readers -/

/-- A reader goes on, without a change to the shared memory. -/
theorem goTo {pc : ReaderPc α} (hr : s.ReaderKnows maxChunkBytes size r pc) :
    Invariant maxChunks maxChunkBytes size (s.goTo r pc) where
  writerIdx := h.writerIdx
  readerIdx := h.readerIdx
  behind := h.behind
  round := h.round
  live := h.live
  fresh := h.fresh
  writer := h.writer
  reader j := by
    by_cases hj : j = r
    · subst hj
      simp only [MessageQueue.goTo, update_self]
      exact hr.congr rfl rfl rfl le_rfl id
    · simp only [MessageQueue.goTo, update_of_ne hj]
      exact (h.reader j).congr rfl rfl rfl le_rfl id
  sockets := h.sockets

/-- A reader loads the chunk, which holds its next object. -/
theorem readChunk (hpc : s.reader r = .readChunk) : ∃ obj, s.enqueued[s.finished r]? = some obj ∧
      s.read maxChunks r = .ok (s.goTo r (.setRead
        (if MessageQueue.overflows maxChunkBytes size obj then none else some obj))) := by
  have hr := h.reader r
  rw [hpc] at hr
  obtain ⟨obj, hobj, hholds⟩ := h.chunk_of_unfinished hr.2
  refine ⟨obj, hobj, ?_⟩
  unfold Chunk.Holds at hholds
  simp only [MessageQueue.read, hpc]
  split_ifs at hholds with hover
  · rw [if_pos hover]
    split
    · rfl
    · rename_i hchunk
      rw [hchunk] at hholds
      cases hholds
    · rename_i hchunk
      rw [hchunk] at hholds
      cases hholds
  · rw [if_neg hover, hholds]

/-- The flags after a reader has marked its chunk as read. -/
theorem finish_readFlag (j : Nat) (i : Fin n) : (s.finish maxChunks r).readFlag j i =
      if j = s.finished r % maxChunks ∧ i = r then true else s.readFlag j i := by
  simp only [MessageQueue.finish, h.readerIdx]
  by_cases hj : j = s.finished r % maxChunks
  · subst hj
    by_cases hi : i = r
    · simp [hi]
    · simp [hi]
  · simp [hj]

/-- **A reader marks its chunk as read**, and goes on with what it has loaded. -/
theorem finish (hlt : s.finished r < s.published) (pc : ReaderPc α) (l : List α)
    (hr : ({ s.finish maxChunks r with
      reader := update s.reader r pc
      dequeued := update s.dequeued r l } :
      MessageQueue n α).ReaderKnows maxChunkBytes size r pc)
    (hl : l.filter (MessageQueue.overflows maxChunkBytes size) =
      (s.dequeued r).filter (MessageQueue.overflows maxChunkBytes size)) :
    Invariant maxChunks maxChunkBytes size
      { s.finish maxChunks r with
        reader := update s.reader r pc
        dequeued := update s.dequeued r l } := by
  have hflag := h.finish_readFlag (r := r)
  have hfin : ∀ i, s.finished i ≤ (s.finish maxChunks r).finished i := by
    intro i
    by_cases hi : i = r
    · subst hi
      simp [MessageQueue.finish]
    · simp [MessageQueue.finish, hi]
  refine ⟨h.writerIdx, fun i => ?_, fun i => ?_, fun i => (h.round i).trans (Nat.add_le_add_right
    (hfin i) _), fun k hk hk' hc => ?_, fun j hj => ⟨(h.fresh j hj).1, fun i => ?_⟩,
    h.writer.congr rfl rfl hfin rfl rfl rfl (fun i hi => ?_) (fun hfree i hi => ?_),
    fun i => ?_, fun i => ?_⟩
  · by_cases hi : i = r
    · subst hi
      simp [MessageQueue.finish, h.readerIdx, succ_mod_mod]
    · simp [MessageQueue.finish, hi, h.readerIdx]
  · by_cases hi : i = r
    · subst hi
      simpa [MessageQueue.finish] using hlt
    · simpa [MessageQueue.finish, hi] using h.behind i
  · obtain ⟨hwritten, hreads, hholds⟩ := h.live k hk hk' hc
    refine ⟨hwritten, fun i => (hflag _ i).trans ?_, hholds⟩
    by_cases hi : i = r
    · subst hi
      -- among the live chunks only that of the reader's object is its chunk
      by_cases hkf : k = s.finished i
      · simp [hkf, MessageQueue.finish]
      · have hround := h.round i
        have hlt' : k < s.published := hk
        have hlive : s.published ≤ k + maxChunks := hk'
        have hne : k % maxChunks ≠ s.finished i % maxChunks := by
          rcases Nat.lt_or_gt_of_ne hkf with hkf | hkf
          · exact mod_ne_mod hkf (by omega)
          · exact (mod_ne_mod hkf (by omega)).symm
        have hiff : k < s.finished i ↔ k < s.finished i + 1 := by omega
        simp [hne, hreads, MessageQueue.finish, hiff]
    · simp [hi, hreads, MessageQueue.finish]
  · have hne : j ≠ s.finished r % maxChunks := by
      have hle := Nat.mod_le (s.finished r) maxChunks
      have hj' : s.published ≤ j := hj
      omega
    exact (hflag j i).trans (by simp [hne, (h.fresh j hj).2 i])
  · exact (hflag _ i).trans (by simp [hi])
  · have hne : s.writerIdx ≠ s.finished r % maxChunks := by
      rw [← h.readerIdx]
      exact (h.readerIdx_ne hfree hlt).symm
    exact (hflag _ i).trans (by simp [hne, hi])
  · by_cases hi : i = r
    · subst hi
      simpa only [update_self] using hr
    · simp only [update_of_ne hi]
      refine (h.reader i).congr ?_ rfl ?_ le_rfl fun hf => ?_
      · simp [hi]
      · simp [MessageQueue.finish, hi]
      · refine (hflag _ i).trans ?_
        simpa [hi, MessageQueue.finish] using hf
  · have hfilter : (update s.dequeued r l i).filter
        (MessageQueue.overflows maxChunkBytes size) =
          (s.dequeued i).filter (MessageQueue.overflows maxChunkBytes size) := by
      by_cases hi : i = r
      · subst hi
        rw [update_self, hl]
      · rw [update_of_ne hi]
    exact (congrArg (· ++ s.sockets i) hfilter).trans (h.sockets i)

/-- What was loaded from the chunk is returned, or the socket is asked for it. -/
theorem setRead {loaded : Option α}
    (hpc : s.reader r = .setRead loaded) (hs : s.read maxChunks r = .ok s') :
    Invariant maxChunks maxChunkBytes size s' := by
  have hr := h.reader r
  rw [hpc] at hr
  obtain ⟨hdeq, hlt, obj, hobj, hloaded⟩ := hr
  simp only [MessageQueue.read, hpc] at hs
  have htake : s.enqueued.take (s.finished r + 1) = s.enqueued.take (s.finished r) ++ [obj] := by
    rw [List.take_add_one, hobj]
    rfl
  have hfin : (s.finish maxChunks r).finished r = s.finished r + 1 := by
    simp [MessageQueue.finish]
  split_ifs at hloaded with hover
  · subst hloaded
    cases hs
    have hend := h.finish hlt .recv (s.dequeued r)
      ⟨s.finished r, obj, hfin, (update_self ..).trans hdeq, hobj, hover⟩ rfl
    rwa [update_eq_self] at hend
  · subst hloaded
    cases hs
    refine h.finish hlt .idle (s.dequeued r ++ [obj]) ?_ (by simp [hover])
    simp only [MessageQueue.ReaderKnows, update_self, hfin, hdeq]
    exact htake.symm

/-- **The socket delivers the object whose mark was read.** -/
theorem recv (hpc : s.reader r = .recv)
    (hs : s.read maxChunks r = .ok s') : Invariant maxChunks maxChunkBytes size s' := by
  have hr := h.reader r
  rw [hpc] at hr
  obtain ⟨k, obj, hk, hdeq, hobj, hover⟩ := hr
  simp only [MessageQueue.read, hpc] at hs
  have htake : s.enqueued.take (k + 1) = s.enqueued.take k ++ [obj] := by
    rw [List.take_add_one, hobj]
    rfl
  unfold Channels.receive at hs
  have hsocket := h.sockets r
  cases hq : s.sockets r with
  | nil => simp [hq] at hs
  | cons a q =>
    simp only [hq] at hs
    cases hs
    rw [hdeq, hq] at hsocket
    -- there is a message only if the writer is done with the object
    have hbehind := h.behind r
    have hsent : k < s.sent := by
      by_contra hge
      have hsub : s.sent = k := by
        have hle : s.published ≤ s.sent + 1 := by unfold sent; split <;> omega
        omega
      rw [hsub] at hsocket
      have hlen := congrArg List.length hsocket
      simp at hlen
    obtain ⟨rest, hrest⟩ : ∃ rest, s.enqueued.take s.sent = s.enqueued.take (k + 1) ++ rest :=
      ⟨_, (List.take_append_drop (k + 1) _).symm.trans (by
        rw [List.take_take, Nat.min_eq_left hsent])⟩
    have hhead : a = obj ∧ q = rest.filter (MessageQueue.overflows maxChunkBytes size) := by
      rw [hrest, htake] at hsocket
      simpa [hover] using hsocket
    obtain ⟨rfl, hq'⟩ := hhead
    refine ⟨h.writerIdx, h.readerIdx, h.behind, h.round, h.live, h.fresh, h.writer, fun i => ?_,
      fun i => ?_⟩
    · by_cases hi : i = r
      · subst hi
        simp only [MessageQueue.returns, update_self, MessageQueue.ReaderKnows]
        rw [hdeq, hk, htake]
      · simp only [MessageQueue.returns, update_of_ne hi]
        refine (h.reader i).congr ?_ rfl rfl le_rfl id
        simp [hi]
    · change (update s.dequeued r (s.dequeued r ++ [a]) i).filter _ ++
        update s.sockets r q i = (s.enqueued.take s.sent).filter _
      by_cases hi : i = r
      · subst hi
        rw [hrest, htake, hdeq.symm, update_self, update_self]
        simp [hover, hq']
      · rw [update_of_ne hi, update_of_ne hi]
        exact h.sockets i

theorem read (hm : 0 < maxChunks)
    (hs : s.read maxChunks r = .ok s') : Invariant maxChunks maxChunkBytes size s' := by
  have hr := h.reader r
  cases hpc : s.reader r with
  | idle => simp [MessageQueue.read, hpc] at hs
  | checkRead =>
    rw [hpc] at hr
    simp only [MessageQueue.read, hpc] at hs
    cases hs
    refine h.goTo ?_
    cases hflag : s.readFlag (s.readerIdx r) r with
    | false => exact ⟨hr, hflag⟩
    | true => exact hr
  | checkWritten readFlag =>
    rw [hpc] at hr
    simp only [MessageQueue.read, hpc] at hs
    have hdeq : s.dequeued r = s.enqueued.take (s.finished r) := by
      cases readFlag with
      | false => exact hr.1
      | true => exact hr
    split_ifs at hs with hpoll
    · cases hs
      exact h.goTo hdeq
    · cases hs
      obtain ⟨hwritten, hread⟩ := not_or.mp hpoll
      obtain rfl : readFlag = false := by simpa using hread
      exact h.goTo ⟨hdeq, h.unread hm hr.2 (by simpa using hwritten)⟩
  | readChunk =>
    rw [hpc] at hr
    obtain ⟨obj, hobj, hread⟩ := h.readChunk hpc
    obtain rfl := Except.ok.inj (hread.symm.trans hs)
    exact h.goTo ⟨hr.1, hr.2, obj, hobj, rfl⟩
  | setRead loaded => exact h.setRead hpc hs
  | recv => exact h.recv hpc hs

theorem apply (hm : 0 < maxChunks)
    {op : QueueOp n α} (hs : s.apply maxChunks maxChunkBytes size op = .ok s') :
    Invariant maxChunks maxChunkBytes size s' := by
  cases op with
  | enqueue obj =>
    simp only [MessageQueue.apply] at hs
    cases hpc : s.writer with
    | idle =>
      simp only [hpc] at hs
      cases hs
      exact h.enqueue hpc obj
    | _ => simp [hpc] at hs
  | write => exact h.write hm hs
  | dequeue r =>
    have hr := h.reader r
    simp only [MessageQueue.apply] at hs
    cases hpc : s.reader r with
    | idle =>
      simp only [hpc] at hs hr
      cases hs
      exact h.goTo hr
    | _ => simp [hpc] at hs
  | read r => exact h.read hm hs

/-- No step loads a chunk without an object. -/
theorem apply_ne (op : QueueOp n α) :
    s.apply maxChunks maxChunkBytes size op ≠ .error .unpicklingError := by
  cases op with
  | enqueue obj =>
    simp only [MessageQueue.apply]
    cases s.writer <;> simp
  | write =>
    simp only [MessageQueue.apply, MessageQueue.write]
    cases s.writer <;> simp <;> split_ifs <;> simp
  | dequeue r =>
    simp only [MessageQueue.apply]
    cases s.reader r <;> simp
  | read r =>
    simp only [MessageQueue.apply]
    cases hpc : s.reader r with
    | readChunk =>
      obtain ⟨obj, -, hread⟩ := h.readChunk hpc
      rw [hread]
      exact nofun
    | checkWritten readFlag =>
      simp only [MessageQueue.read, hpc]
      split_ifs <;> exact nofun
    | setRead loaded =>
      simp only [MessageQueue.read, hpc]
      cases loaded <;> exact nofun
    | recv =>
      simp only [MessageQueue.read, hpc]
      cases s.sockets.receive r <;> exact nofun
    | idle | checkRead => simp [MessageQueue.read, hpc]

end Invariant

/-! ## Runs -/

theorem invariant_init : Invariant maxChunks maxChunkBytes size ({} : MessageQueue n α) :=
  ⟨(Nat.zero_mod _).symm, fun _ => (Nat.zero_mod _).symm, fun _ => le_rfl,
    fun _ => Nat.zero_le _, nofun, fun _ _ => ⟨rfl, fun _ => rfl⟩, rfl, fun _ => rfl, fun _ => rfl⟩

theorem invariant_of_reach {s : MessageQueue n α} (hm : 0 < maxChunks)
    (h : (messageQueueMachine n maxChunks maxChunkBytes size).Reach (fun _ _ => True) s) :
    Invariant maxChunks maxChunkBytes size s := by
  exact h.invariant invariant_init fun s op s' hs _ hst => hs.apply hm hst

/-- While the writer writes a chunk, no reader is at it: every reader that is at an object is at one
of another chunk, and every reader is past the object that the chunk held. -/
def MessageQueue.NotOverwritten (maxChunks : Nat) (s : MessageQueue n α) : Prop :=
  s.writer.clearing → ∀ r,
    (s.reader r = .readChunk ∨ (∃ loaded, s.reader r = .setRead loaded) →
      s.readerIdx r ≠ s.writerIdx) ∧
    s.published < s.finished r + maxChunks

/-- **The ring buffer delivers what was sent.** In every interleaving each reader has got a prefix of
the objects in their order, no chunk is written while a reader may still read it, and no reader loads a
chunk that holds no object. -/
theorem broadcast_delivers {s : MessageQueue n α} (hm : 0 < maxChunks)
    (h : (messageQueueMachine n maxChunks maxChunkBytes size).Reach (fun _ _ => True) s) :
    (∀ r, s.dequeued r <+: s.enqueued) ∧ s.NotOverwritten maxChunks ∧
      ∀ op, s.apply maxChunks maxChunkBytes size op ≠ .error .unpicklingError := by
  have hinv := invariant_of_reach hm h
  refine ⟨fun r => (hinv.reader r).isPrefix,
    fun hclear r => ⟨fun hr => ?_, hinv.free_of_clearing hclear r⟩, fun op => ?_⟩
  · have hknows := hinv.reader r
    refine hinv.readerIdx_ne (hinv.free_of_clearing hclear) ?_
    rcases hr with hpc | ⟨loaded, hpc⟩ <;> rw [hpc] at hknows
    · exact hknows.2
    · exact hknows.2.1
  · exact hinv.apply_ne op

/-- One chunk and two readers: a small object is written and read, then a large one goes around the
chunk to the first reader. -/
def wrapRun : List (QueueOp 2 Nat) :=
  .enqueue 5 :: List.replicate 10 .write ++
    .dequeue 0 :: List.replicate 4 (.read 0) ++ .dequeue 1 :: List.replicate 4 (.read 1) ++
    .enqueue 20 :: List.replicate 11 .write ++ .dequeue 0 :: List.replicate 5 (.read 0)

theorem broadcast_delivers_wrapRun :
    ∃ s, (messageQueueMachine 2 1 10 id).Reach (fun _ _ => True) s ∧ s.enqueued = [5, 20] ∧
      s.dequeued 0 = [5, 20] ∧ s.dequeued 1 = [5] ∧ (∀ r, s.dequeued r <+: s.enqueued) ∧
      s.NotOverwritten 1 ∧ ∀ op, s.apply 1 10 id op ≠ .error .unpicklingError := by
  obtain ⟨s, hreach, henq, hdeq, hdeq'⟩ := (messageQueueMachine 2 1 10 id).exists_reach
    (fun _ _ => True) wrapRun
    (fun s => s.enqueued = [5, 20] ∧ s.dequeued 0 = [5, 20] ∧ s.dequeued 1 = [5])
    (by decide +kernel)
  exact ⟨s, hreach, henq, hdeq, hdeq', broadcast_delivers (by decide) hreach⟩

/-! ## Waiting -/

/-- What `acquire_write` waits for. -/
def MessageQueue.Reusable (s : MessageQueue n α) : Prop :=
  s.writtenFlag s.writerIdx = true → ∀ r, s.readFlag s.writerIdx r = true

/-- What `acquire_read` waits for. -/
def MessageQueue.Ready (s : MessageQueue n α) (r : Fin n) : Prop :=
  s.readFlag (s.readerIdx r) r = false ∧ s.writtenFlag (s.readerIdx r) = true

/-- **The flags tell the truth, and nobody waits for ever.** In every state a reader finds its chunk ready
exactly if an object has been published that it has not finished, the writer finds its chunk reusable
exactly if no reader is a whole round behind, and if it does not, some reader finds its chunk ready. -/
theorem polling_exact {s : MessageQueue n α} (hm : 0 < maxChunks)
    (h : (messageQueueMachine n maxChunks maxChunkBytes size).Reach (fun _ _ => True) s) :
    (∀ r, s.Ready r ↔ s.finished r < s.published) ∧ (s.Reusable ↔ s.Free maxChunks) ∧
      (¬ s.Reusable → ∃ r, s.Ready r) := by
  have hinv := invariant_of_reach hm h
  have hready : ∀ r, s.Ready r ↔ s.finished r < s.published := by
    refine fun r => ⟨fun hpoll => hinv.unread hm hpoll.1 hpoll.2, fun hlt => ?_⟩
    obtain ⟨hwritten, hreads, -⟩ := hinv.live _ hlt (hinv.round r) fun hc => hinv.free_of_clearing hc r
    unfold MessageQueue.Ready
    rw [hinv.readerIdx]
    exact ⟨(hreads r).trans (decide_eq_false (lt_irrefl _)), hwritten⟩
  have hreusable : s.Reusable ↔ s.Free maxChunks := by
    constructor
    · intro hpoll
      by_cases hc : s.writer.clearing
      · exact hinv.free_of_clearing hc
      · exact hinv.free hm hc ((Bool.eq_false_or_eq_true _).symm.imp_right hpoll)
    · intro hfree hwritten r
      have hclear : ¬ s.writer.clearing := fun hc => by
        rw [hinv.unwritten_of_clearing hc] at hwritten
        cases hwritten
      rw [hinv.writerIdx] at hwritten ⊢
      -- the chunk was used before, so that it has the flags of the last round
      have hused : maxChunks ≤ s.published := by
        by_contra hfirst
        rw [Nat.mod_eq_of_lt (not_le.mp hfirst), (hinv.fresh _ le_rfl).1] at hwritten
        cases hwritten
      have hpast := hfree r
      obtain ⟨-, hreads, -⟩ := hinv.live (s.published - maxChunks) (by omega) (by omega)
        fun hc => absurd hc hclear
      rw [Nat.mod_eq_sub_mod hused, hreads r]
      exact decide_eq_true (by omega)
  refine ⟨hready, hreusable, fun hwait => ?_⟩
  obtain ⟨r, hr⟩ := not_forall.mp (mt hreusable.mpr hwait)
  exact ⟨r, (hready r).mpr (by omega)⟩

theorem polling_exact_wrapRun : ∃ s : MessageQueue 2 Nat, s.enqueued = [5, 20] ∧
    (∀ r, s.Ready r ↔ s.finished r < s.published) ∧ (s.Reusable ↔ s.Free 1) ∧
      (¬ s.Reusable → ∃ r, s.Ready r) := by
  obtain ⟨s, hreach, henq⟩ := (messageQueueMachine 2 1 10 id).exists_reach (fun _ _ => True) wrapRun
    (fun s => s.enqueued = [5, 20]) (by decide +kernel)
  exact ⟨s, henq, polling_exact (by decide) hreach⟩

end InferenceServer.Distributed
