import InferenceServer.Frontend.Detokenizer

/-!
# Streamed text is never retracted

In delta mode a client gets the text of its request piece by piece, and cannot give any of it back. A
stop string cuts the text at a place that may be before the new text. But as many characters are held
back as the longest stop string can have there, so that what has been returned is always at the start of
the text that is left.

## Main results

* `Streaming.update`, `Streaming.getNextOutputText`, `streamed_text_never_retracted`
-/

namespace InferenceServer.Frontend

open BaseIncrementalDetokenizer

variable {Δ : Type} {decodeNext : Δ → TokenId → Text × Δ}

/-! ## The stream of a request -/

section Stream

variable (decodeNext)

/-- An output of the engine for the request: the new tokens, and why it is finished, if it is. -/
abbrev EngineStep := List TokenId × Option FinishReason

/-- What `process_outputs` does for an output of the engine: the new text, the stop string, and whether
the request is finished. -/
def processStep (d : BaseIncrementalDetokenizer Δ) (o : EngineStep) :
    (Text × Option Text × Bool) × BaseIncrementalDetokenizer Δ :=
  let (stopString, d) := d.update decodeNext o.1 (o.2 = some .stop)
  let finishReason := if stopString.getD [] ≠ [] then some .stop else o.2
  let (delta, d) := d.getNextOutputText finishReason.isSome true
  ((delta, stopString, finishReason.isSome), d)

/-- The stream of a request: the texts that have been returned, the stop string, whether the request is
finished, and the detokenizer. -/
structure Streamed (Δ : Type) where
  deltas : List Text
  stopString : Option Text
  finished : Bool
  detokenizer : BaseIncrementalDetokenizer Δ

/-- The outputs of the engine are processed until the request is finished. -/
def streamOutputs : BaseIncrementalDetokenizer Δ → List EngineStep → Streamed Δ
  | d, [] => ⟨[], none, false, d⟩
  | d, o :: os =>
    let ((delta, stopString, finished), d) := processStep decodeNext d o
    if finished then ⟨[delta], stopString, true, d⟩
    else
      let rest := streamOutputs d os
      { rest with deltas := delta :: rest.deltas }

end Stream

/-! ## What has been returned -/

/-- **Streaming**: what has been returned is at the start of the text, and behind it there are as many
characters as are held back. -/
structure Streaming (d : BaseIncrementalDetokenizer Δ) (returned : Text) : Prop where
  nonempty : ∀ s ∈ d.stop, s ≠ []
  nonneg : 0 ≤ d.stopBufferLength
  buffer : d.includeStopStrInOutput = false → ∀ s ∈ d.stop, (s.length : Int) ≤ d.stopBufferLength + 1
  offset : d.lastOutputTextOffset = returned.length
  atStart : returned <+: d.outputText
  held : returned = [] ∨ returned.length + d.stopBufferLength ≤ d.outputText.length

theorem length_le_foldl_max (l : List Nat) (a : Nat) :
    a ≤ l.foldl max a ∧ ∀ n ∈ l, n ≤ l.foldl max a := by
  induction l generalizing a with
  | nil => simp
  | cons x l ih =>
    obtain ⟨hle, hall⟩ := ih (max a x)
    refine ⟨(le_max_left a x).trans hle, fun n hn => ?_⟩
    rcases List.mem_cons.mp hn with rfl | hn
    · exact (le_max_right a n).trans hle
    · exact hall n hn

theorem streaming_new {stop : List Text} (hstop : ∀ s ∈ stop, s ≠ []) (includeInOutput : Bool)
    (stream : Δ) : Streaming (.new stop includeInOutput stream) [] where
  nonempty := hstop
  nonneg := by
    rw [BaseIncrementalDetokenizer.new]
    dsimp only
    split_ifs with hc
    · -- a stop string has a character
      obtain ⟨s, hs⟩ := List.exists_mem_of_ne_nil stop hc.1
      have hpos := List.length_pos_iff.mpr (hstop s hs)
      have hle := (length_le_foldl_max (stop.map List.length) 0).2 _ (List.mem_map_of_mem hs)
      omega
    · exact le_rfl
  buffer hinclude s hs := by
    have hne : stop ≠ [] := List.ne_nil_of_mem hs
    have hle := (length_le_foldl_max (stop.map List.length) 0).2 _ (List.mem_map_of_mem hs)
    rw [BaseIncrementalDetokenizer.new] at hinclude ⊢
    dsimp only at hinclude ⊢
    rw [if_pos ⟨hne, hinclude⟩]
    omega
  offset := rfl
  atStart := List.nil_prefix
  held := .inl rfl

variable {d : BaseIncrementalDetokenizer Δ} {returned : Text}

/-- The fields that `update` leaves as they are. -/
structure SameStream (d d' : BaseIncrementalDetokenizer Δ) : Prop where
  stop : d'.stop = d.stop
  includeInOutput : d'.includeStopStrInOutput = d.includeStopStrInOutput
  buffer : d'.stopBufferLength = d.stopBufferLength
  offset : d'.lastOutputTextOffset = d.lastOutputTextOffset

/-- The text grows, and what is held back is still behind what has been returned. -/
theorem Streaming.extend (h : Streaming d returned) {d' : BaseIncrementalDetokenizer Δ}
    (hsame : SameStream d d') {more : Text} (htext : d'.outputText = d.outputText ++ more) :
    Streaming d' returned := by
  refine ⟨hsame.stop ▸ h.nonempty, hsame.buffer ▸ h.nonneg, fun hinc s hs => ?_, hsame.offset ▸ h.offset,
    htext ▸ h.atStart.trans (List.prefix_append _ _), h.held.imp_right fun hle => ?_⟩
  · rw [hsame.buffer]
    exact h.buffer (hsame.includeInOutput ▸ hinc) s (hsame.stop ▸ hs)
  · rw [hsame.buffer, htext, List.length_append]
    omega

/-- **`update`** does not take back what has been returned. -/
theorem Streaming.update (h : Streaming d returned) (newTokenIds : List TokenId)
    (stopTerminated : Bool) :
    SameStream d (d.update decodeNext newTokenIds stopTerminated).2 ∧
      returned <+: (d.update decodeNext newTokenIds stopTerminated).2.outputText ∧
      ((d.update decodeNext newTokenIds stopTerminated).1 = none →
        Streaming (d.update decodeNext newTokenIds stopTerminated).2 returned) := by
  cases stopTerminated with
  | true =>
    rw [BaseIncrementalDetokenizer.update]
    by_cases hnil : newTokenIds = []
    · rw [if_pos hnil]
      exact ⟨⟨rfl, rfl, rfl, rfl⟩, h.atStart, fun _ => h⟩
    · rw [if_neg hnil]
      have hsame : SameStream d { d.decode decodeNext (if true = true ∧ d.includeStopStrInOutput = false
          then newTokenIds.dropLast else newTokenIds) with
          tokenIds := (d.decode decodeNext (if true = true ∧ d.includeStopStrInOutput = false
            then newTokenIds.dropLast else newTokenIds)).tokenIds ++
              (if true = true ∧ d.includeStopStrInOutput = false then newTokenIds.getLast?.toList
                else []) } := ⟨rfl, rfl, rfl, rfl⟩
      have hext := h.extend hsame rfl
      exact ⟨hsame, hext.atStart, fun _ => hext⟩
  | false =>
    rw [update_eq h.nonempty]
    dsimp only
    have hdecode : SameStream d (d.decode decodeNext newTokenIds) := ⟨rfl, rfl, rfl, rfl⟩
    cases hm : matchStop d.stop d.outputText.length
        (d.outputText ++ (decodeAll decodeNext d.stream newTokenIds).1) with
    | none =>
      have hext := h.extend hdecode rfl
      exact ⟨hdecode, hext.atStart, fun _ => hext⟩
    | some m =>
      obtain ⟨s, i⟩ := m
      obtain ⟨hs, -, hle⟩ := matchStop_spec hm
      refine ⟨⟨rfl, rfl, rfl, rfl⟩, ?_, fun hc => by cases hc⟩
      -- the cut is not before the end of what has been returned
      have hcut : returned.length ≤ cutAt d.includeStopStrInOutput s i := by
        have hlen := h.atStart.length_le
        rw [cutAt]
        cases hinc : d.includeStopStrInOutput with
        | true =>
          rw [if_pos rfl]
          omega
        | false =>
          rw [if_neg (by decide)]
          have hbuf := h.buffer hinc s hs
          rcases h.held with hnil | hheld
          · rw [hnil]
            exact Nat.zero_le _
          · omega
      have hbound : returned.length ≤ d.outputText.length := h.atStart.length_le
      refine List.prefix_of_prefix_length_le (h.atStart.trans (List.prefix_append _ _))
        (List.take_prefix _ _) ?_
      change returned.length ≤ (List.take _ (d.outputText ++ _)).length
      rw [List.length_take, List.length_append]
      exact le_min hcut (by omega)

/-- **`get_next_output_text`** goes on from where it has stopped. -/
theorem getNextOutputText_eq (hnonneg : 0 ≤ d.stopBufferLength)
    (hoffset : d.lastOutputTextOffset = returned.length) (hpre : returned <+: d.outputText)
    (finished : Bool) :
    ∃ n : Nat, returned.length ≤ n ∧ n ≤ d.outputText.length ∧
      returned ++ (d.getNextOutputText finished true).1 = d.outputText.take n ∧
      (d.getNextOutputText finished true).2 = { d with lastOutputTextOffset := (n : Int) } ∧
      (finished = true → n = d.outputText.length) ∧
      (n = returned.length ∨
        (n : Int) + (if finished then 0 else d.stopBufferLength) = d.outputText.length) := by
  have hlen := hpre.length_le
  have htake : returned = d.outputText.take returned.length := (List.prefix_iff_eq_take.mp hpre)
  have hbuffer : (0 : Int) ≤ if finished then 0 else d.stopBufferLength := by
    split_ifs <;> omega
  rw [getNextOutputText]
  rw [if_neg (by decide)]
  by_cases hmore : d.lastOutputTextOffset <
      d.outputText.length - (if finished then 0 else d.stopBufferLength)
  · -- there is more to return
    rw [if_pos hmore, hoffset]
    rw [hoffset] at hmore
    obtain ⟨n, hn⟩ : ∃ n : Nat,
        (d.outputText.length : Int) - (if finished then 0 else d.stopBufferLength) = n :=
      Int.eq_ofNat_of_zero_le (by omega)
    rw [hn] at hmore ⊢
    refine ⟨n, by omega, by omega, ?_, rfl, fun hfin => ?_, .inr (by omega)⟩
    · rw [pySlice_natCast]
      have hfirst : returned = (d.outputText.take n).take returned.length := by
        rw [List.take_take, min_eq_left (by omega)]
        exact htake
      conv_lhs => arg 1; rw [hfirst]
      exact List.take_append_drop _ _
    · rw [if_pos hfin] at hn
      omega
  · rw [if_neg hmore]
    rw [hoffset] at hmore
    refine ⟨returned.length, le_rfl, hlen, ?_, ?_, fun hfin => ?_, .inl rfl⟩
    · rw [List.append_nil]
      exact htake
    · rw [← hoffset]
    · rw [if_pos hfin] at hmore
      omega

/-- A call before the request is finished keeps the characters back. -/
theorem Streaming.getNextOutputText (h : Streaming d returned) :
    Streaming (d.getNextOutputText false true).2
      (returned ++ (d.getNextOutputText false true).1) := by
  obtain ⟨n, hle, hbound, htext, hd, -, hheld⟩ :=
    getNextOutputText_eq h.nonneg h.offset h.atStart false
  rw [htext, hd]
  refine ⟨h.nonempty, h.nonneg, h.buffer, ?_, List.take_prefix _ _, ?_⟩
  · change (n : Int) = _
    rw [List.length_take, min_eq_left hbound]
  · change _ ∨ ((d.outputText.take n).length : Int) + d.stopBufferLength ≤ d.outputText.length
    rw [List.length_take, min_eq_left hbound]
    rcases hheld with rfl | hheld
    · rcases h.held with hnil | hheld
      · left
        rw [hnil]
        rfl
      · exact .inr hheld
    · rw [if_neg (by decide)] at hheld
      exact .inr hheld.le

/-! ## A step of the stream -/

theorem update_terminated (d : BaseIncrementalDetokenizer Δ) (newTokenIds : List TokenId) :
    (d.update decodeNext newTokenIds true).1 = none := by
  rw [BaseIncrementalDetokenizer.update]
  by_cases hnil : newTokenIds = []
  · rw [if_pos hnil]
  · rw [if_neg hnil]
    rfl

/-- The text of the request once the new tokens are decoded. -/
abbrev textAfter (decodeNext : Δ → TokenId → Text × Δ) (d : BaseIncrementalDetokenizer Δ)
    (newTokenIds : List TokenId) : Text :=
  d.outputText ++ (decodeAll decodeNext d.stream newTokenIds).1

theorem update_of_none (hstop : ∀ s ∈ d.stop, s ≠ []) {newTokenIds : List TokenId}
    (h : (d.update decodeNext newTokenIds false).1 = none) :
    (d.update decodeNext newTokenIds false).2 = d.decode decodeNext newTokenIds := by
  rw [update_eq hstop] at h ⊢
  dsimp only at h ⊢
  cases hm : matchStop d.stop d.outputText.length
      (d.outputText ++ (decodeAll decodeNext d.stream newTokenIds).1) with
  | none => rfl
  | some m =>
    rw [hm] at h
    exact nomatch h

theorem update_of_some (hstop : ∀ s ∈ d.stop, s ≠ []) {newTokenIds : List TokenId} {s : Text}
    (h : (d.update decodeNext newTokenIds false).1 = some s) :
    s ∈ d.stop ∧ (d.includeStopStrInOutput = false →
      ∃ i, OccursAt s (textAfter decodeNext d newTokenIds) i ∧
        (d.update decodeNext newTokenIds false).2.outputText =
          (textAfter decodeNext d newTokenIds).take i) := by
  rw [update_eq hstop] at h ⊢
  dsimp only at h ⊢
  cases hm : matchStop d.stop d.outputText.length
      (d.outputText ++ (decodeAll decodeNext d.stream newTokenIds).1) with
  | none =>
    rw [hm] at h
    exact nomatch h
  | some m =>
    obtain ⟨s', i⟩ := m
    rw [hm] at h
    obtain rfl : s' = s := Option.some.inj h
    obtain ⟨hs, hat, -⟩ := matchStop_spec hm
    refine ⟨hs, fun hinc => ⟨i, hat, ?_⟩⟩
    change (textAfter decodeNext d newTokenIds).take (cutAt d.includeStopStrInOutput s' i) = _
    rw [cutAt, hinc, if_neg (by decide)]

/-- **A step** returns text that stays: it has only added text, or the text ends where a stop string
starts that has been found and is left out. -/
structure StepReturns (decodeNext : Δ → TokenId → Text × Δ) (d : BaseIncrementalDetokenizer Δ)
    (returned : Text) (newTokenIds : List TokenId)
    (r : (Text × Option Text × Bool) × BaseIncrementalDetokenizer Δ) : Prop where
  isPrefix : returned ++ r.1.1 <+: r.2.outputText
  all : r.1.2.2 = true → returned ++ r.1.1 = r.2.outputText
  goesOn : r.1.2.2 = false → Streaming r.2 (returned ++ r.1.1) ∧
    r.2.outputText = textAfter decodeNext d newTokenIds ∧
    r.2.stream = (decodeAll decodeNext d.stream newTokenIds).2 ∧
    r.2.includeStopStrInOutput = d.includeStopStrInOutput ∧ r.2.stop = d.stop
  cut : ∀ s, r.1.2.1 = some s → r.1.2.2 = true ∧ s ∈ d.stop ∧ (d.includeStopStrInOutput = false →
    ∃ i, OccursAt s (textAfter decodeNext d newTokenIds) i ∧
      r.2.outputText = (textAfter decodeNext d newTokenIds).take i)

theorem Streaming.processStep (h : Streaming d returned) (o : EngineStep) :
    StepReturns decodeNext d returned o.1 (processStep decodeNext d o) := by
  -- the engine has told that the request stops, or the stop strings are looked for
  have hsome : ∀ s, (d.update decodeNext o.1 (o.2 = some .stop)).1 = some s →
      decide (o.2 = some FinishReason.stop) = false := by
    intro s hs
    by_contra hterminated
    rw [Bool.not_eq_false] at hterminated
    rw [hterminated, update_terminated] at hs
    exact nomatch hs
  obtain ⟨hsame, hpre, hgoes⟩ :=
    @Streaming.update _ decodeNext _ _ h o.1 (o.2 = some .stop)
  have hfound : ∀ s, (d.update decodeNext o.1 (o.2 = some .stop)).1 = some s → s ∈ d.stop ∧
      (d.includeStopStrInOutput = false → ∃ i, OccursAt s (textAfter decodeNext d o.1) i ∧
        (d.update decodeNext o.1 (o.2 = some .stop)).2.outputText =
          (textAfter decodeNext d o.1).take i) := by
    intro s hs
    have hterminated := hsome s hs
    rw [hterminated] at hs ⊢
    exact update_of_some h.nonempty hs
  have hnothing : o.2 = none → (d.update decodeNext o.1 (o.2 = some .stop)).1 = none →
      (d.update decodeNext o.1 (o.2 = some .stop)).2 = d.decode decodeNext o.1 := by
    intro hreason hnone
    have hterminated : decide (o.2 = some FinishReason.stop) = false := by rw [hreason]; rfl
    rw [hterminated] at hnone ⊢
    exact update_of_none h.nonempty hnone
  rw [Frontend.processStep]
  generalize d.update decodeNext o.1 (o.2 = some .stop) = u at *
  obtain ⟨stopString, d'⟩ := u
  dsimp only at *
  have hnonneg : 0 ≤ d'.stopBufferLength := hsame.buffer ▸ h.nonneg
  have hoffset : d'.lastOutputTextOffset = returned.length := hsame.offset ▸ h.offset
  -- a stop string that has been found finishes the request
  have hfinished : ∀ s, stopString = some s → stopString.getD [] ≠ [] := by
    rintro s rfl
    exact h.nonempty s (hfound s rfl).1
  generalize hfin : (if stopString.getD [] ≠ [] then some FinishReason.stop else o.2).isSome = fin
  obtain ⟨n, -, -, htext, hd, hall, -⟩ := getNextOutputText_eq hnonneg hoffset hpre fin
  refine ⟨?_, fun hf => ?_, fun hf => ?_, fun s hs => ⟨?_, (hfound s hs).1, fun hinc => ?_⟩⟩
  · dsimp only
    rw [htext, hd]
    exact List.take_prefix _ _
  · dsimp only
    rw [htext, hd, hall hf, List.take_length]
  · dsimp only at hf ⊢
    subst hf
    have hnone : stopString = none := by
      by_contra hsomeString
      obtain ⟨s, hs⟩ := Option.ne_none_iff_exists'.mp hsomeString
      rw [if_pos (hfinished s hs)] at hfin
      exact nomatch hfin
    have hreason : o.2 = none := by
      rw [hnone, if_neg (by simp)] at hfin
      exact Option.isNone_iff_eq_none.mp (Option.isSome_eq_false_iff.mp hfin)
    refine ⟨(hgoes hnone).getNextOutputText, ?_, ?_, ?_, ?_⟩
    all_goals rw [hd, hnothing hreason hnone]
    all_goals rfl
  · dsimp only at hs ⊢
    rw [← hfin, if_pos (hfinished s hs)]
    rfl
  · obtain ⟨i, hat, hcut⟩ := (hfound s hs).2 hinc
    refine ⟨i, hat, ?_⟩
    rw [hd]
    exact hcut

/-! ## The whole stream -/

/-- What the stream of a request returns is at the start of its text, it is all of it once the request
is finished, and it ends where a stop string starts that is left out. -/
theorem Streaming.streamOutputs (h : Streaming d returned) (os : List EngineStep) :
    let r := streamOutputs decodeNext d os
    returned ++ r.deltas.flatten <+: r.detokenizer.outputText ∧
      (r.finished = true → returned ++ r.deltas.flatten = r.detokenizer.outputText) ∧
      ∀ s, r.stopString = some s → s ∈ d.stop ∧ r.finished = true ∧
        (d.includeStopStrInOutput = false →
          ∃ i, OccursAt s (textAfter decodeNext d ((os.take r.deltas.length).flatMap (·.1))) i ∧
            returned ++ r.deltas.flatten =
              (textAfter decodeNext d ((os.take r.deltas.length).flatMap (·.1))).take i) := by
  -- on the outputs of the engine, for every text that has been returned before
  induction os generalizing d returned with
  | nil =>
    refine ⟨?_, (fun hc => nomatch hc), fun s hs => nomatch hs⟩
    change returned ++ List.flatten [] <+: d.outputText
    rw [List.flatten_nil, List.append_nil]
    exact h.atStart
  | cons o os ih =>
    have hstep := @Streaming.processStep _ decodeNext _ _ h o
    rw [Frontend.streamOutputs]
    generalize Frontend.processStep decodeNext d o = p at *
    obtain ⟨⟨delta, stopString, finished⟩, d'⟩ := p
    obtain ⟨hpre, hall, hgoes, hcut⟩ := hstep
    dsimp only at hpre hall hgoes hcut ⊢
    cases finished with
    | true =>
      rw [if_pos rfl]
      dsimp only
      rw [List.flatten_singleton, List.length_singleton, List.take_succ_cons, List.take_zero,
        List.flatMap_singleton]
      refine ⟨hpre, hall, fun s hs => ⟨(hcut s hs).2.1, rfl, fun hinc => ?_⟩⟩
      obtain ⟨i, hat, htext⟩ := (hcut s hs).2.2 hinc
      exact ⟨i, hat, (hall rfl).trans htext⟩
    | false =>
      rw [if_neg (by decide)]
      obtain ⟨hstreaming, htext, hstream, hinclude, hstop⟩ := hgoes rfl
      obtain ⟨hp, hf, hs⟩ := ih hstreaming
      rw [List.flatten_cons, ← List.append_assoc, List.length_cons, List.take_succ_cons,
        List.flatMap_cons]
      refine ⟨hp, hf, fun s hstopString => ?_⟩
      obtain ⟨hmem, hfin, hat⟩ := hs s hstopString
      refine ⟨hstop ▸ hmem, hfin, fun hinc => ?_⟩
      -- the texts of the first output and of the others
      have hwhole : ∀ l, textAfter decodeNext d' l = textAfter decodeNext d (o.1 ++ l) := by
        intro l
        rw [textAfter, textAfter, htext, hstream, decodeAll_append, List.append_assoc]
      rw [← hwhole]
      exact hat (hinclude.trans hinc)

/-- The outputs that have been processed are the first ones. -/
theorem take_deltas (d : BaseIncrementalDetokenizer Δ) (os : List EngineStep) (k : Nat) :
    (streamOutputs decodeNext d (os.take k)).deltas =
      (streamOutputs decodeNext d os).deltas.take k := by
  induction os generalizing d k with
  | nil => rw [List.take_nil, streamOutputs, List.take_nil]
  | cons o os ih =>
    cases k with
    | zero => rw [List.take_zero, List.take_zero, streamOutputs]
    | succ k =>
      rw [List.take_succ_cons, streamOutputs, streamOutputs]
      dsimp only
      split_ifs
      · rw [List.take_succ_cons, List.take_nil]
      · rw [List.take_succ_cons, ih]

/-- **Streamed text is never retracted.** Whatever the tokens decode to, what has been returned is at
the start of the text as it is then and of what is returned in the end; a finished request has got all
of its text. If a stop string has been found and is left out, what has been returned ends where its
occurrence starts. -/
theorem streamed_text_never_retracted {Δ : Type} (decodeNext : Δ → TokenId → Text × Δ) (stream : Δ)
    (stop : List Text) (hstop : ∀ s ∈ stop, s ≠ []) (includeInOutput : Bool) (os : List EngineStep) :
    let run := fun os => streamOutputs decodeNext (.new stop includeInOutput stream) os
    ((run os).finished = true → (run os).deltas.flatten = (run os).detokenizer.outputText) ∧
      (∀ k, (run (os.take k)).deltas.flatten <+: (run (os.take k)).detokenizer.outputText ∧
        (run (os.take k)).deltas.flatten <+: (run os).deltas.flatten ∧
        (run (os.take k)).deltas.flatten <+: (run os).detokenizer.outputText) ∧
      ∀ s, (run os).stopString = some s → s ∈ stop ∧ (run os).finished = true ∧
        (includeInOutput = false → ∃ i,
          OccursAt s (decodeAll decodeNext stream
            ((os.take (run os).deltas.length).flatMap (·.1))).1 i ∧
          (run os).deltas.flatten = (decodeAll decodeNext stream
            ((os.take (run os).deltas.length).flatMap (·.1))).1.take i) := by
  intro run
  have hnew : Streaming (.new stop includeInOutput stream) [] :=
    streaming_new hstop includeInOutput stream
  obtain ⟨hpre, hfinished, hcut⟩ :=
    @Streaming.streamOutputs _ decodeNext _ _ hnew os
  refine ⟨hfinished, fun k => ?_, hcut⟩
  have htake : (run (os.take k)).deltas.flatten <+: (run os).deltas.flatten := by
    change (streamOutputs _ _ (os.take k)).deltas.flatten <+: _
    rw [take_deltas]
    exact (List.take_prefix _ _).flatten
  exact ⟨(hnew.streamOutputs (os.take k)).1, htake, htake.trans hpre⟩

/-- A stop string that straddles two outputs of the engine. -/
theorem streamed_text_never_retracted_abc :
    let outputs : List EngineStep := [([0], none), ([1], none), ([2], none)]
    let r := streamOutputs spell (.new [['b', 'c']] false ()) outputs
    r.stopString = some ['b', 'c'] ∧ r.deltas.flatten = r.detokenizer.outputText ∧
      ∃ i, OccursAt ['b', 'c'] (decodeAll spell () ((outputs.take r.deltas.length).flatMap (·.1))).1 i ∧
        r.deltas.flatten =
          (decodeAll spell () ((outputs.take r.deltas.length).flatMap (·.1))).1.take i := by
  have h := streamed_text_never_retracted spell () [['b', 'c']] (by decide) false
    [([0], none), ([1], none), ([2], none)]
  exact ⟨by decide, h.1 (by decide), (h.2.2 _ (by decide)).2.2 rfl⟩

end InferenceServer.Frontend
