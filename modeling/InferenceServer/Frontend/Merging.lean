import InferenceServer.Frontend.OutputCollector

/-!
# Merged outputs

When the producer is ahead of the consumer, outputs are merged. What the consumer reads in the end, for
each completion the text, the tokens, the log probabilities and the last reasons, is the same as if it had
received every output, since these fields are appended, or those of the last output are kept. But the
parameters of a KV transfer are overwritten by the next output, also when it has none: if a child of a
request with `n > 1` finishes with parameters and the output of another child is merged behind it, the
parameters are lost.

The outputs that are put with no receive in between are a batch. The consumer loses nothing exactly if the
last parameters are those of an output that ends its batch (and if log probabilities are not merged into an
output that has none, which the code asserts).

## Main results

* `addCompletion_reads`, `Merged.add`, `merging_lossless_iff`
-/

namespace InferenceServer.Outputs

open Outcome
open List (append_assoc append_nil filter_cons_of_neg filter_cons_of_pos getLast? map_cons nodup_cons)

variable {L C K : Type}

/-! ## What is read -/

/-- What is read of the completions of one index: text, tokens and log probabilities, whether the first one
has log probabilities, and the values of the last one. -/
structure Reading (L C : Type) where
  text : Frontend.Text
  tokenIds : List TokenId
  logprobs : List L
  hasLogprobs : Option Bool
  last : Option (Option C × Option FinishReason × Option Frontend.StopReason)

/-- The reading of a list of completions. -/
def read (l : List (CompletionOutput L C)) : Reading L C where
  text := l.flatMap (·.text)
  tokenIds := l.flatMap (·.tokenIds)
  logprobs := l.flatMap (·.logprobs.getD [])
  hasLogprobs := l.head?.map (·.logprobs.isSome)
  last := l.getLast?.map fun c => (c.cumulativeLogprob, c.finishReason, c.stopReason)

/-- One list is read, and then another one. -/
def Reading.append (r r' : Reading L C) : Reading L C where
  text := r.text ++ r'.text
  tokenIds := r.tokenIds ++ r'.tokenIds
  logprobs := r.logprobs ++ r'.logprobs
  hasLogprobs := r.hasLogprobs.or r'.hasLogprobs
  last := r'.last.or r.last

theorem read_append (l l' : List (CompletionOutput L C)) :
    read (l ++ l') = (read l).append (read l') := by
  simp only [read, Reading.append, List.flatMap_append, List.head?_append, List.getLast?_append,
    Option.map_or]

/-- The completions of one index. -/
def atIndex (i : Nat) (l : List (CompletionOutput L C)) : List (CompletionOutput L C) :=
  l.filter fun c => c.index = i

theorem atIndex_append (i : Nat) (l l' : List (CompletionOutput L C)) :
    atIndex i (l ++ l') = atIndex i l ++ atIndex i l' := List.filter_append ..

variable {l outs : List (CompletionOutput L C)} {n : CompletionOutput L C}

theorem atIndex_eq_nil {i : Nat} (h : i ∉ l.map (·.index)) :
    atIndex i l = [] := by
  refine List.filter_eq_nil_iff.mpr fun c hc => ?_
  simp only [decide_eq_true_eq]
  rintro rfl
  exact h (List.mem_map_of_mem hc)

/-- The reading of a completion in a list of outputs. -/
def reading (i : Nat) (os : List (RequestOutput L C K)) : Reading L C :=
  read (atIndex i (os.flatMap (·.outputs)))

theorem reading_append (i : Nat) (os os' : List (RequestOutput L C K)) :
    reading i (os ++ os') = (reading i os).append (reading i os') := by
  rw [reading, List.flatMap_append, atIndex_append, read_append]
  rfl

/-! ## Merging completions -/

theorem read_merge {c c' : CompletionOutput L C} (h : c.merge n = .ok c') :
    c'.index = c.index ∧ read [c'] = read [c, n] := by
  obtain ⟨_, hreq, h⟩ := bind_eq_ok.mp h
  cases h
  refine ⟨rfl, ?_⟩
  cases hc : c.logprobs with
  | some l => simp [read, hc]
  | none =>
    -- there is nothing to append
    rcases require_eq_ok.mp hreq with hempty | hsome
    · rw [List.isEmpty_iff] at hempty
      simp [read, hc, hempty]
    · rw [hc] at hsome
      exact nomatch hsome

theorem merge_ok_iff {c : CompletionOutput L C} :
    (∃ c', c.merge n = .ok c') ↔ (c.logprobs.isSome = false → n.logprobs.getD [] = []) := by
  constructor
  · rintro ⟨c', h⟩ hnone
    obtain ⟨_, hreq, -⟩ := bind_eq_ok.mp h
    rcases require_eq_ok.mp hreq with hempty | hsome
    · exact List.isEmpty_iff.mp hempty
    · exact nomatch hnone.symm.trans hsome
  · intro h
    refine ⟨_, bind_of_ok (require_of ?_)⟩
    cases hc : c.logprobs.isSome with
    | true => exact .inr rfl
    | false => exact .inl (List.isEmpty_iff.mpr (h hc))

/-- **A completion is added** to others with different indices: the reading of each index is that of the
old completions and the new one. -/
theorem addCompletion_reads {outs' : List (CompletionOutput L C)}
    (hnodup : (outs.map (·.index)).Nodup) (h : addCompletion true n outs = .ok outs') :
    (∀ i, i ∈ outs'.map (·.index) ↔ i = n.index ∨ i ∈ outs.map (·.index)) ∧
      (outs'.map (·.index)).Nodup ∧
      ∀ i, read (atIndex i outs') = read (atIndex i outs ++ atIndex i [n]) := by
  induction outs generalizing outs' with
  | nil =>
    cases h
    exact ⟨fun i => by simp, List.nodup_singleton _, fun i => rfl⟩
  | cons c rest ih =>
    obtain ⟨hc, hrest⟩ := nodup_cons.mp hnodup
    rw [addCompletion] at h
    by_cases hindex : c.index = n.index
    · rw [if_pos hindex, if_pos rfl] at h
      obtain ⟨c', hmerge, h⟩ := bind_eq_ok.mp h
      cases h
      obtain ⟨hc', hread⟩ := read_merge hmerge
      have hindices : (c' :: rest).map (·.index) = (c :: rest).map (·.index) := by
        rw [map_cons, map_cons, hc']
      rw [hindices]
      refine ⟨fun i => ⟨.inr, fun hi => ?_⟩, hnodup, fun i => ?_⟩
      · rcases hi with rfl | hi
        · rw [← hindex]
          exact List.mem_cons_self
        · exact hi
      · by_cases hi : c.index = i
        · -- the others have another index
          subst hi
          have hnil : atIndex c.index rest = [] := atIndex_eq_nil hc
          have hleft : atIndex c.index (c' :: rest) = [c'] := by
            rw [atIndex, filter_cons_of_pos (by simpa using hc')]
            exact congrArg _ hnil
          have hright : atIndex c.index (c :: rest) ++ atIndex c.index [n] = [c, n] := by
            rw [atIndex, filter_cons_of_pos (by simp), atIndex,
              filter_cons_of_pos (by simpa using hindex.symm)]
            exact congrArg (c :: · ++ [n]) hnil
          rw [hleft, hright, hread]
        · rw [atIndex, filter_cons_of_neg (by simpa [hc'] using hi), atIndex,
            filter_cons_of_neg (by simpa using hi), atIndex,
            filter_cons_of_neg (by simpa [← hindex] using hi), List.filter_nil, append_nil]
    · rw [if_neg hindex] at h
      obtain ⟨rest', hadd, h⟩ := bind_eq_ok.mp h
      cases h
      obtain ⟨hmem, hnodup', hread⟩ := ih hrest hadd
      refine ⟨fun i => ?_, ?_, fun i => ?_⟩
      · rw [map_cons, map_cons, List.mem_cons, List.mem_cons, hmem]
        tauto
      · rw [map_cons, nodup_cons]
        refine ⟨fun hc' => ?_, hnodup'⟩
        rcases (hmem _).mp hc' with heq | hin
        · exact hindex heq
        · exact hc hin
      · have hcons : ∀ l : List (CompletionOutput L C),
            atIndex i (c :: l) = atIndex i [c] ++ atIndex i l := fun l => atIndex_append i [c] l
        rw [hcons rest', hcons rest, append_assoc, read_append, hread, ← read_append]

/-- **The assertion** holds if log probabilities are not merged into a completion that has none. -/
theorem addCompletion_ok_iff :
    (∃ outs', addCompletion true n outs = .ok outs') ↔
      ((read (atIndex n.index outs)).hasLogprobs = some false → n.logprobs.getD [] = []) := by
  induction outs with
  | nil => exact iff_of_true ⟨[n], rfl⟩ fun hc => nomatch hc
  | cons c rest ih =>
    by_cases hindex : c.index = n.index
    · have hfirst : (read (atIndex n.index (c :: rest))).hasLogprobs = some c.logprobs.isSome := by
        rw [atIndex, filter_cons_of_pos (by simpa using hindex)]
        rfl
      rw [hfirst, Option.some.injEq, ← merge_ok_iff, addCompletion, if_pos hindex, if_pos rfl]
      constructor
      · rintro ⟨outs', h⟩
        obtain ⟨c', hmerge, -⟩ := bind_eq_ok.mp h
        exact ⟨c', hmerge⟩
      · rintro ⟨c', hmerge⟩
        exact ⟨_, bind_of_ok hmerge⟩
    · have hrest : atIndex n.index (c :: rest) = atIndex n.index rest := by
        rw [atIndex, filter_cons_of_neg (by simpa using hindex)]
        rfl
      rw [hrest, ← ih, addCompletion, if_neg hindex]
      constructor
      · rintro ⟨outs', h⟩
        obtain ⟨rest', hadd, -⟩ := bind_eq_ok.mp h
        exact ⟨rest', hadd⟩
      · rintro ⟨rest', hadd⟩
        exact ⟨_, bind_of_ok hadd⟩

/-! ## Merging outputs -/

/-- The loop of `add` over the completions of the next output. -/
theorem addAll_reads {ns outs' : List (CompletionOutput L C)}
    (hnodup : (outs.map (·.index)).Nodup) (h : threadM (addCompletion true) ns outs = .ok outs') :
    (outs'.map (·.index)).Nodup ∧
      ∀ i, read (atIndex i outs') = read (atIndex i outs ++ atIndex i ns) := by
  induction ns generalizing outs with
  | nil =>
    cases h
    exact ⟨hnodup, fun i => congrArg read (append_nil _).symm⟩
  | cons n ns ih =>
    obtain ⟨outs₁, hadd, hrest⟩ := threadM_cons_ok.mp h
    obtain ⟨-, hnodup₁, hread₁⟩ := addCompletion_reads hnodup hadd
    obtain ⟨hnodup', hread⟩ := ih hnodup₁ hrest
    refine ⟨hnodup', fun i => ?_⟩
    have hcons : atIndex i (n :: ns) = atIndex i [n] ++ atIndex i ns := atIndex_append i [n] ns
    rw [hread, hcons, read_append, hread₁, ← read_append, append_assoc]

/-- Completions of other indices do not matter to the assertion. -/
theorem addAll_ok_iff {ns : List (CompletionOutput L C)} (hnodup : (outs.map (·.index)).Nodup)
    (hns : (ns.map (·.index)).Nodup) :
    (∃ outs', threadM (addCompletion true) ns outs = .ok outs') ↔
      ∀ n ∈ ns, (read (atIndex n.index outs)).hasLogprobs = some false → n.logprobs.getD [] = [] := by
  induction ns generalizing outs with
  | nil => exact iff_of_true ⟨outs, rfl⟩ fun n hn => nomatch hn
  | cons n ns ih =>
    obtain ⟨hn, hns⟩ := nodup_cons.mp hns
    rw [List.forall_mem_cons, ← addCompletion_ok_iff]
    -- the reading of the other indices is the same once the first completion has been added
    have hsame : ∀ outs₁, addCompletion true n outs = .ok outs₁ → ∀ n' ∈ ns,
        read (atIndex n'.index outs₁) = read (atIndex n'.index outs) := by
      intro outs₁ hadd n' hn'
      have hnil : atIndex n'.index [n] = [] := by
        refine atIndex_eq_nil fun hmem => hn ?_
        rw [List.map_singleton, List.mem_singleton] at hmem
        change n.index ∈ _
        rw [← hmem]
        exact List.mem_map_of_mem hn'
      rw [(addCompletion_reads hnodup hadd).2.2, hnil, append_nil]
    constructor
    · rintro ⟨outs', h⟩
      obtain ⟨outs₁, hadd, hrest⟩ := threadM_cons_ok.mp h
      refine ⟨⟨outs₁, hadd⟩, fun n' hn' hfirst => ?_⟩
      have hall := (ih (addCompletion_reads hnodup hadd).2.1 hns).mp ⟨outs', hrest⟩
      exact hall n' hn' (by rw [hsame outs₁ hadd n' hn']; exact hfirst)
    · rintro ⟨⟨outs₁, hadd⟩, hall⟩
      obtain ⟨outs', hrest⟩ := (ih (addCompletion_reads hnodup hadd).2.1 hns).mpr
        fun n' hn' hfirst => hall n' hn' (by rw [← hsame outs₁ hadd n' hn']; exact hfirst)
      exact ⟨outs', threadM_cons_ok.mpr ⟨outs₁, hadd, hrest⟩⟩

/-- The completions of an output have different indices. -/
def RequestOutput.Distinct (o : RequestOutput L C K) : Prop := (o.outputs.map (·.index)).Nodup

/-- The output is a batch of outputs that have been merged. -/
structure Merged (batch : List (RequestOutput L C K)) (held : RequestOutput L C K) : Prop where
  distinct : held.Distinct
  reads : ∀ i, reading i [held] = reading i batch
  finished : held.finished = batch.any (·.finished)
  kvTransferParams : some held.kvTransferParams = batch.getLast?.map (·.kvTransferParams)

theorem Merged.single {o : RequestOutput L C K} (h : o.Distinct) : Merged [o] o where
  distinct := h
  reads _ := rfl
  finished := by simp
  kvTransferParams := rfl

/-- **The assertion** about a batch: no log probabilities are behind a completion that has none. -/
def Mergeable (batch : List (RequestOutput L C K)) : Prop :=
  ∀ i, (reading i batch).hasLogprobs = some false → (reading i batch).logprobs = []

variable {batch : List (RequestOutput L C K)} {held held' o : RequestOutput L C K}

theorem reading_singleton (i : Nat) (o : RequestOutput L C K) :
    reading i [o] = read (atIndex i o.outputs) := by
  rw [reading, List.flatMap_singleton]

/-- **`add`** merges one more output into the batch. -/
theorem Merged.add (h : Merged batch held) (hadd : held.add o true = .ok held') :
    Merged (batch ++ [o]) held' := by
  obtain ⟨outs, houts, hadd⟩ := bind_eq_ok.mp hadd
  cases hadd
  obtain ⟨hnodup, hread⟩ := addAll_reads h.distinct houts
  refine ⟨hnodup, fun i => ?_, ?_, ?_⟩
  · rw [reading_append, ← h.reads, reading_singleton, reading_singleton, reading_singleton,
      ← read_append]
    exact hread i
  · rw [List.any_append, ← h.finished]
    simp
  · rw [List.getLast?_append]
    rfl

/-- An output has at most one completion of an index. -/
theorem atIndex_of_nodup (h : (l.map (·.index)).Nodup) (i : Nat) :
    atIndex i l = [] ∨ ∃ c, atIndex i l = [c] := by
  induction l with
  | nil => exact .inl rfl
  | cons c rest ih =>
    obtain ⟨hc, hrest⟩ := nodup_cons.mp h
    by_cases hi : c.index = i
    · subst hi
      refine .inr ⟨c, ?_⟩
      rw [atIndex, filter_cons_of_pos (by simp)]
      exact congrArg _ (atIndex_eq_nil hc)
    · rw [atIndex, filter_cons_of_neg (by simpa using hi)]
      exact ih hrest

theorem mergeable_singleton (h : o.Distinct) : Mergeable [o] := by
  intro i hfirst
  rw [reading_singleton] at hfirst ⊢
  rcases atIndex_of_nodup h i with hnil | ⟨c, hc⟩
  · rw [hnil] at hfirst
    exact nomatch hfirst
  · rw [hc] at hfirst ⊢
    have hnone : c.logprobs.isSome = false := Option.some.inj hfirst
    rw [Option.isSome_eq_false_iff, Option.isNone_iff_eq_none] at hnone
    simp [read, hnone]

theorem logprobs_of_hasLogprobs_none
    (h : (read l).hasLogprobs = none) : (read l).logprobs = [] := by
  cases l with
  | nil => rfl
  | cons c l => exact nomatch h

/-- Merging succeeds exactly if the longer batch is one whose log probabilities can be merged. -/
theorem Merged.add_ok_iff (h : Merged batch held) (hb : Mergeable batch) (ho : o.Distinct) :
    (∃ held', held.add o true = .ok held') ↔ Mergeable (batch ++ [o]) := by
  have hadd : (∃ held', held.add o true = .ok held') ↔ ∀ n ∈ o.outputs,
      (reading n.index batch).hasLogprobs = some false → n.logprobs.getD [] = [] := by
    have hiff := addAll_ok_iff h.distinct ho
    simp only [← reading_singleton, h.reads] at hiff
    rw [← hiff]
    constructor
    · rintro ⟨held', h⟩
      obtain ⟨outs, houts, -⟩ := bind_eq_ok.mp h
      exact ⟨outs, houts⟩
    · rintro ⟨outs, houts⟩
      exact ⟨_, bind_of_ok houts⟩
  rw [hadd]
  constructor
  · intro hall i hfirst
    rw [reading_append] at hfirst ⊢
    change (reading i batch).hasLogprobs.or (reading i [o]).hasLogprobs = _ at hfirst
    change (reading i batch).logprobs ++ (reading i [o]).logprobs = []
    cases hbatch : (reading i batch).hasLogprobs with
    | none =>
      -- the batch has no completion of the index
      rw [hbatch, Option.none_or] at hfirst
      rw [reading, logprobs_of_hasLogprobs_none hbatch, mergeable_singleton ho i hfirst]
      rfl
    | some b =>
      rw [hbatch] at hfirst
      obtain rfl : b = false := Option.some.inj hfirst
      rw [hb i hbatch, List.nil_append, reading_singleton]
      refine List.flatMap_eq_nil_iff.mpr fun n hn => ?_
      obtain ⟨hout, hi⟩ := List.mem_filter.mp hn
      have hindex : n.index = i := by simpa using hi
      exact hall n hout (hindex ▸ hbatch)
  · intro hmerge n hn hbatch
    have hfirst : (reading n.index (batch ++ [o])).hasLogprobs = some false := by
      rw [reading_append]
      change (reading n.index batch).hasLogprobs.or _ = _
      rw [hbatch]
      rfl
    have hnil := hmerge n.index hfirst
    rw [reading_append] at hnil
    have hnil' := (List.append_eq_nil_iff.mp hnil).2
    rw [reading_singleton] at hnil'
    exact List.flatMap_eq_nil_iff.mp hnil' n (List.mem_filter.mpr ⟨hn, by simp⟩)

/-! ## Batches -/

/-- The outputs that are put. -/
def puts (ops : List (CollectorOp L C K)) : List (RequestOutput L C K) :=
  ops.filterMap fun
    | .put o => some o
    | _ => none

/-- A batch that ends. -/
def closed (pending : List (RequestOutput L C K)) : List (List (RequestOutput L C K)) :=
  if pending.isEmpty then [] else [pending]

/-- **The batches**: the outputs between which the consumer does not ask for one. -/
def batches : List (RequestOutput L C K) → List (CollectorOp L C K) → List (List (RequestOutput L C K))
  | pending, [] => closed pending
  | pending, .put o :: ops => batches (pending ++ [o]) ops
  | pending, .get :: ops | pending, .getNowait :: ops => closed pending ++ batches [] ops

theorem flatten_closed (pending : List (RequestOutput L C K)) : (closed pending).flatten = pending := by
  rw [closed]
  cases pending <;> simp

theorem flatten_batches (pending : List (RequestOutput L C K)) (ops : List (CollectorOp L C K)) :
    (batches pending ops).flatten = pending ++ puts ops := by
  induction ops generalizing pending with
  | nil =>
    rw [batches, flatten_closed]
    exact (append_nil _).symm
  | cons op ops ih =>
    cases op with
    | put o =>
      rw [batches, ih, append_assoc]
      rfl
    | get | getNowait =>
      rw [batches, List.flatten_append, flatten_closed, ih]
      rfl

/-- The collector holds the batch that is pending. -/
structure Holds (pending : List (RequestOutput L C K)) (s : Consumer L C K) : Prop where
  aggregate : s.collector.aggregate = true
  held : (pending = [] ∧ s.collector.output = none) ∨
    ∃ held, s.collector.output = some (.output held) ∧ Merged pending held ∧ Mergeable pending

variable {s s' : Consumer L C K} {pending : List (RequestOutput L C K)}
  {ops : List (CollectorOp L C K)}

theorem Merged.ne_nil (h : Merged batch held) : batch ≠ [] := by
  rintro rfl
  exact nomatch h.kvTransferParams

variable (h : Holds pending s)

include h

/-- **`put`** makes the batch longer, if the log probabilities can be merged. -/
theorem Holds.put (ho : o.Distinct) :
    (Mergeable (pending ++ [o]) ∧ ∃ s', s.step (.put o) = .ok s' ∧ Holds (pending ++ [o]) s' ∧
        s'.received = s.received) ∨
      (¬ Mergeable (pending ++ [o]) ∧ ∀ s', s.step (.put o) ≠ .ok s') := by
  obtain ⟨collector, received⟩ := s
  rcases h.held with ⟨rfl, hnone⟩ | ⟨held, hheld, hmerged, hmergeable⟩
  · obtain ⟨aggregate, output, ready⟩ := collector
    obtain rfl : output = none := hnone
    exact .inl ⟨mergeable_singleton ho, ⟨⟨aggregate, some (.output o), true⟩, received⟩, rfl,
      ⟨h.aggregate, .inr ⟨o, rfl, .single ho, mergeable_singleton ho⟩⟩, rfl⟩
  · obtain ⟨aggregate, output, ready⟩ := collector
    obtain rfl : output = some (.output held) := hheld
    obtain rfl : aggregate = true := h.aggregate
    have hstep : Consumer.step ⟨⟨true, some (.output held), ready⟩, received⟩ (.put o) =
        (held.add o true).bind fun held' =>
          .ok ⟨⟨true, some (.output held'), ready⟩, received⟩ := by
      have hput : RequestOutputCollector.put ⟨true, some (.output held), ready⟩ (.output o) =
          (held.add o true).bind fun held' => .ok ⟨true, some (.output held'), ready⟩ := rfl
      rw [Consumer.step, hput]
      cases held.add o true <;> rfl
    by_cases hm : Mergeable (pending ++ [o])
    · obtain ⟨held', hadd⟩ := (hmerged.add_ok_iff hmergeable ho).mpr hm
      refine .inl ⟨hm, ⟨⟨true, some (.output held'), ready⟩, received⟩, ?_,
        ⟨rfl, .inr ⟨held', rfl, hmerged.add hadd, hm⟩⟩, rfl⟩
      rw [hstep, hadd]
      rfl
    · refine .inr ⟨hm, fun s' hs => hm ?_⟩
      rw [hstep] at hs
      obtain ⟨held', hadd, -⟩ := bind_eq_ok.mp hs
      exact (hmerged.add_ok_iff hmergeable ho).mp ⟨held', hadd⟩

/-- **A receive** ends the batch. -/
theorem Holds.receive (op : CollectorOp L C K) (hop : ∀ o, op ≠ .put o) :
    ∃ s' D, s.step op = .ok s' ∧ Holds [] s' ∧ s'.received = s.received ++ D ∧
      List.Forall₂ Merged (closed pending) D := by
  obtain ⟨⟨aggregate, output, ready⟩, received⟩ := s
  rcases h.held with ⟨rfl, hnone⟩ | ⟨held, hheld, hmerged, -⟩
  · obtain rfl : output = none := hnone
    refine ⟨⟨⟨aggregate, none, ready⟩, received⟩, [], ?_, ⟨h.aggregate, .inl ⟨rfl, rfl⟩⟩,
      (append_nil _).symm, .nil⟩
    cases op with
    | put o => exact absurd rfl (hop o)
    | get => rfl
    | getNowait => rfl
  · obtain rfl : output = some (.output held) := hheld
    refine ⟨⟨⟨aggregate, none, false⟩, received ++ [held]⟩, [held], ?_,
      ⟨h.aggregate, .inl ⟨rfl, rfl⟩⟩, rfl, ?_⟩
    · cases op with
      | put o => exact absurd rfl (hop o)
      | get => rfl
      | getNowait => rfl
    · rw [closed, if_neg (by simpa using hmerged.ne_nil)]
      exact .cons hmerged .nil

theorem Holds.delivered :
    ∃ D, s.delivered = s.received ++ D ∧ List.Forall₂ Merged (closed pending) D := by
  rw [Consumer.delivered]
  rcases h.held with ⟨rfl, hnone⟩ | ⟨held, hheld, hmerged, -⟩
  · rw [hnone]
    exact ⟨[], rfl, .nil⟩
  · rw [hheld]
    refine ⟨[held], rfl, ?_⟩
    rw [closed, if_neg (by simpa using hmerged.ne_nil)]
    exact .cons hmerged .nil

theorem Holds.mergeable_closed : ∀ b ∈ closed pending, Mergeable b := by
  intro b hb
  rcases h.held with ⟨rfl, -⟩ | ⟨held, -, hmerged, hmergeable⟩
  · exact nomatch hb
  · rw [closed, if_neg (by simpa using hmerged.ne_nil), List.mem_singleton] at hb
    exact hb ▸ hmergeable

omit h

/-- A batch that cannot be merged does not become one that can. -/
theorem Mergeable.of_append {b b' : List (RequestOutput L C K)} (h : Mergeable (b ++ b')) :
    Mergeable b := by
  intro i hfirst
  have hlong : (reading i (b ++ b')).hasLogprobs = some false := by
    rw [reading_append]
    change (reading i b).hasLogprobs.or _ = _
    rw [hfirst]
    rfl
  have hnil := h i hlong
  rw [reading_append] at hnil
  exact (List.append_eq_nil_iff.mp hnil).1

theorem exists_batch (hne : pending ≠ []) (ops : List (CollectorOp L C K)) :
    ∃ b, pending ++ b ∈ batches pending ops := by
  induction ops generalizing pending with
  | nil =>
    refine ⟨[], ?_⟩
    rw [batches, closed, if_neg (by simpa using hne), append_nil]
    exact List.mem_singleton_self _
  | cons op ops ih =>
    cases op with
    | put o =>
      obtain ⟨b, hb⟩ := @ih (pending ++ [o]) (by simp)
      exact ⟨[o] ++ b, by rwa [← append_assoc]⟩
    | get | getNowait =>
      refine ⟨[], List.mem_append_left _ ?_⟩
      rw [closed, if_neg (by simpa using hne), append_nil]
      exact List.mem_singleton_self _

/-- **A run** ends, and delivers its batches, exactly if they can be merged. -/
theorem Holds.run (h : Holds pending s) (hdistinct : ∀ o ∈ puts ops, o.Distinct) :
    ((∀ b ∈ batches pending ops, Mergeable b) ∧ ∃ s' D, s.run ops = .ok s' ∧
        s'.delivered = s.received ++ D ∧ List.Forall₂ Merged (batches pending ops) D) ∨
      ((¬ ∀ b ∈ batches pending ops, Mergeable b) ∧ ∀ s', s.run ops ≠ .ok s') := by
  induction ops generalizing pending s with
  | nil =>
    obtain ⟨D, hD, hmerged⟩ := h.delivered
    exact .inl ⟨h.mergeable_closed, s, D, rfl, hD, hmerged⟩
  | cons op ops ih =>
    have hreceive : (∀ o, op ≠ .put o) → (∀ o ∈ puts ops, o.Distinct) →
        batches pending (op :: ops) = closed pending ++ batches [] ops →
        ((∀ b ∈ batches pending (op :: ops), Mergeable b) ∧ ∃ s' D, s.run (op :: ops) = .ok s' ∧
            s'.delivered = s.received ++ D ∧
            List.Forall₂ Merged (batches pending (op :: ops)) D) ∨
          ((¬ ∀ b ∈ batches pending (op :: ops), Mergeable b) ∧
            ∀ s', s.run (op :: ops) ≠ .ok s') := by
      intro hop hrest hbatches
      obtain ⟨s₁, D₁, hstep, hholds, hreceived, hmerged₁⟩ := h.receive op hop
      have hrun : s.run (op :: ops) = s₁.run ops := by
        rw [Consumer.run, threadM, hstep]
        rfl
      rw [hbatches, hrun]
      rcases ih hholds hrest with ⟨hall, s', D, hs', hD, hmerged⟩ | ⟨hnot, hfails⟩
      · refine .inl ⟨fun b hb => ?_, s', D₁ ++ D, hs', ?_, List.rel_append hmerged₁ hmerged⟩
        · rcases List.mem_append.mp hb with hb | hb
          · exact h.mergeable_closed b hb
          · exact hall b hb
        · rw [hD, hreceived, append_assoc]
      · exact .inr ⟨fun hall => hnot fun b hb => hall b (List.mem_append_right _ hb), hfails⟩
    cases op with
    | get => exact hreceive (fun o hc => by cases hc) hdistinct rfl
    | getNowait => exact hreceive (fun o hc => by cases hc) hdistinct rfl
    | put o =>
      have ho : o.Distinct := hdistinct o List.mem_cons_self
      have hrest : ∀ o ∈ puts ops, o.Distinct := fun o' ho' => hdistinct o' (List.mem_cons_of_mem _ ho')
      rw [batches]
      rcases h.put ho with ⟨-, s₁, hstep, hholds, hreceived⟩ | ⟨hnot, hfails⟩
      · have hrun : s.run (.put o :: ops) = s₁.run ops := by
          rw [Consumer.run, threadM, hstep]
          rfl
        rw [hrun, ← hreceived]
        exact ih hholds hrest
      · refine .inr ⟨fun hall => hnot ?_, fun s' hs' => ?_⟩
        · obtain ⟨b, hb⟩ := @exists_batch L C K (pending ++ [o]) (by simp) ops
          exact (hall _ hb).of_append
        · obtain ⟨s₁, hstep, -⟩ := threadM_cons_ok.mp hs'
          exact hfails s₁ hstep

/-! ## Nothing is lost -/

/-- The last parameters of a KV transfer. -/
def lastKvTransferParams (os : List (RequestOutput L C K)) : Option K :=
  (os.filterMap (·.kvTransferParams)).getLast?

/-- **Lossless**: the outputs that are received read as those that were put: for each index the same
text, tokens, log probabilities and last values, and for the request the same flag and last parameters
of a KV transfer. -/
structure Lossless (put received : List (RequestOutput L C K)) : Prop where
  reads : ∀ i, reading i received = reading i put
  finished : received.any (·.finished) = put.any (·.finished)
  kvTransferParams : lastKvTransferParams received = lastKvTransferParams put

/-- What the batches and the merged outputs have in common. -/
theorem merged_reads {bs : List (List (RequestOutput L C K))} {D : List (RequestOutput L C K)}
    (h : List.Forall₂ Merged bs D) :
    (∀ i, reading i D = reading i bs.flatten) ∧
      D.any (·.finished) = bs.flatten.any (·.finished) ∧
      lastKvTransferParams D = lastKvTransferParams (bs.filterMap getLast?) := by
  have hkv : D.filterMap (·.kvTransferParams) =
      (bs.filterMap getLast?).filterMap (·.kvTransferParams) := by
    induction h with
    | nil => rfl
    | @cons b held bs D hmerged _ ih =>
      -- the parameters are those of the last output of the batch
      obtain ⟨o, ho, hparams⟩ := Option.map_eq_some_iff.mp hmerged.kvTransferParams.symm
      rw [List.filterMap_cons_some ho, List.filterMap_cons, List.filterMap_cons, hparams, ih]
  refine ⟨fun i => ?_, ?_, congrArg getLast? hkv⟩
  · clear hkv
    induction h with
    | nil => rfl
    | @cons b held bs D hmerged _ ih =>
      have hcons : reading i (held :: D) = (reading i [held]).append (reading i D) :=
        reading_append i [held] D
      rw [hcons, hmerged.reads, ih, List.flatten_cons, reading_append]
  · clear hkv
    induction h with
    | nil => rfl
    | @cons b held bs D hmerged _ ih =>
      rw [List.any_cons, List.flatten_cons, List.any_append, ih, hmerged.finished]

/-- **Merging is lossless** exactly if the log probabilities of each batch can be merged, and the last
parameters of a KV transfer are those of an output that ends a batch. -/
theorem merging_lossless_iff {L C K : Type} (ops : List (CollectorOp L C K))
    (hdistinct : ∀ o ∈ puts ops, o.Distinct) :
    (∃ s, Consumer.run { collector := .new .delta } ops = .ok s ∧
        Lossless (puts ops) s.delivered) ↔
      (∀ b ∈ batches [] ops, Mergeable b) ∧
        lastKvTransferParams ((batches [] ops).filterMap List.getLast?) =
          lastKvTransferParams (puts ops) := by
  have hstart : Holds [] ({ collector := .new .delta } : Consumer L C K) := ⟨rfl, .inl ⟨rfl, rfl⟩⟩
  have hflat : (batches [] ops).flatten = puts ops := flatten_batches [] ops
  rcases hstart.run hdistinct with ⟨hall, s, D, hs, hD, hmerged⟩ | ⟨hnot, hfails⟩
  · obtain ⟨hreads, hfinished, hkv⟩ := merged_reads hmerged
    rw [hflat] at hreads hfinished
    have hD' : s.delivered = D := hD
    constructor
    · rintro ⟨s', hs', hlossless⟩
      obtain rfl : s = s' := Except.ok.inj (hs.symm.trans hs')
      rw [hD'] at hlossless
      exact ⟨hall, hkv.symm.trans hlossless.kvTransferParams⟩
    · rintro ⟨-, hlast⟩
      refine ⟨s, hs, ?_⟩
      rw [hD']
      exact ⟨hreads, hfinished, hkv.trans hlast⟩
  · refine iff_of_false ?_ fun h => hnot h.1
    rintro ⟨s, hs, -⟩
    exact hfails s hs

/-! ## Two children -/

/-- A piece of text of a child, which finishes if it has parameters of a KV transfer. -/
def piece (index : Nat) (text : Frontend.Text) (kvTransferParams : Option Nat) :
    RequestOutput Nat Nat Nat where
  outputs := [{
    index
    text
    tokenIds := [7]
    cumulativeLogprob := none
    logprobs := none
    finishReason := if kvTransferParams.isSome then some .length else none }]
  finished := false
  kvTransferParams

/-- The pieces of two children are merged, and the last one has the parameters. -/
theorem merging_lossless_two :
    ∃ s, Consumer.run { collector := .new .delta }
        [.put (piece 0 ['a'] none), .put (piece 1 ['b'] (some 3)), .get] = .ok s ∧
      Lossless [piece 0 ['a'] none, piece 1 ['b'] (some 3)] s.delivered := by
  refine (merging_lossless_iff [.put (piece 0 ['a'] none), .put (piece 1 ['b'] (some 3)), .get]
    (by simp [puts, RequestOutput.Distinct, piece])).mpr ⟨?_, rfl⟩
  intro b hb i _
  obtain rfl : b = [piece 0 ['a'] none, piece 1 ['b'] (some 3)] := List.mem_singleton.mp hb
  rw [reading, read]
  refine List.flatMap_eq_nil_iff.mpr fun c hc => ?_
  have hmem := (List.mem_filter.mp hc).1
  simp only [List.flatMap_cons, List.flatMap_nil, piece, List.append_nil, List.mem_append,
    List.mem_singleton] at hmem
  rcases hmem with rfl | rfl <;> rfl

/-- The piece of another child is merged behind the one that has the parameters. -/
theorem not_merging_lossless :
    ∃ s, Consumer.run { collector := .new .delta }
        [.put (piece 0 ['a'] (some 3)), .put (piece 1 ['b'] none), .get] = .ok s ∧
      ¬ Lossless [piece 0 ['a'] (some 3), piece 1 ['b'] none] s.delivered := by
  refine ⟨_, rfl, fun h => ?_⟩
  have hkv := h.kvTransferParams
  revert hkv
  decide

end InferenceServer.Outputs
