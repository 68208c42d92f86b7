import InferenceServer.Lib.Substring
import InferenceServer.Request

/-!
# Detokenizing and stop strings

`BaseIncrementalDetokenizer` (`vllm/v1/engine/detokenizer.py`) turns the tokens of a request into text
as they arrive, looks for stop strings (`StopChecker.check_stop_strings`), and hands out the text that
is new since the last time. What a token decodes to is up to the tokenizer: `decode_next` is a
parameter, with a state of its own. If stop strings are left out of the output, some text is held back,
which may turn out to be the start of one.

A text is the list of its code points.
-/

namespace InferenceServer.Frontend

/-- A string. -/
abbrev Text := List Char

/-! ## The functions -/

/-- `text.find(word, start)`. -/
def pyFind (text word : Text) (start : Int) : Option Nat :=
  findFrom word text (if start < 0 then max 0 (start + text.length) else start).toNat

/-- The loop of `check_stop_strings`. -/
def checkStops (outputText : Text) (newCharCount : Nat) (includeInOutput : Bool) :
    List Text → Option (Text × Int)
  | [] => none
  | stopStr :: stop =>
    match pyFind outputText stopStr (1 - newCharCount - stopStr.length) with
    | none => checkStops outputText newCharCount includeInOutput stop
    | some stopIndex =>
      if includeInOutput then
        if stopIndex + stopStr.length ≥ outputText.length then some (stopStr, -1)
        else some (stopStr, ((stopIndex + stopStr.length : Nat) : Int))
      else some (stopStr, (stopIndex : Int))

/-- `StopChecker.check_stop_strings`: the stop string, and the length to which the text is truncated, or
`-1`. -/
def checkStopStrings (outputText : Text) (newCharCount : Nat) (stop : List Text)
    (includeInOutput : Bool) : Option (Text × Int) :=
  if newCharCount = 0 ∨ stop = [] then none
  else checkStops outputText newCharCount includeInOutput stop

/-- The text of new tokens, and the state of the decoder behind them. -/
def decodeAll {Δ : Type} (decodeNext : Δ → TokenId → Text × Δ) : Δ → List TokenId → Text × Δ
  | stream, [] => ([], stream)
  | stream, token :: tokens =>
    let (text, stream) := decodeNext stream token
    let (rest, stream) := decodeAll decodeNext stream tokens
    (text ++ rest, stream)

theorem decodeAll_append {Δ : Type} (decodeNext : Δ → TokenId → Text × Δ) (stream : Δ)
    (l l' : List TokenId) :
    decodeAll decodeNext stream (l ++ l') =
      ((decodeAll decodeNext stream l).1 ++
          (decodeAll decodeNext (decodeAll decodeNext stream l).2 l').1,
        (decodeAll decodeNext (decodeAll decodeNext stream l).2 l').2) := by
  induction l generalizing stream with
  | nil => rfl
  | cons token l ih =>
    rw [List.cons_append, decodeAll, decodeAll]
    dsimp only
    rw [ih, List.append_assoc]

/-- A decoder for which the tokens are letters. -/
def spell (_ : Unit) (token : TokenId) : Text × Unit := ([Char.ofNat (97 + token)], ())

/-- `BaseIncrementalDetokenizer`, with the state of its decoder. -/
structure BaseIncrementalDetokenizer (Δ : Type) where
  tokenIds : List TokenId := []
  stop : List Text
  includeStopStrInOutput : Bool
  stopBufferLength : Int
  lastOutputTextOffset : Int := 0
  outputText : Text := []
  stream : Δ

namespace BaseIncrementalDetokenizer

variable {Δ : Type} (decodeNext : Δ → TokenId → Text × Δ)

/-- `__init__`. -/
def new (stop : List Text) (includeStopStrInOutput : Bool) (stream : Δ) :
    BaseIncrementalDetokenizer Δ where
  stop
  includeStopStrInOutput
  stopBufferLength :=
    if stop ≠ [] ∧ includeStopStrInOutput = false then
      ((stop.map List.length).foldl max 0 : Nat) - 1
    else 0
  stream

/-- The loop over the new tokens. -/
def decode (d : BaseIncrementalDetokenizer Δ) (newTokenIds : List TokenId) :
    BaseIncrementalDetokenizer Δ :=
  let (text, stream) := decodeAll decodeNext d.stream newTokenIds
  { d with
    tokenIds := d.tokenIds ++ newTokenIds
    outputText := d.outputText ++ text
    stream }

/-- `update`: the stop string that has been matched, and the detokenizer. -/
def update (d : BaseIncrementalDetokenizer Δ) (newTokenIds : List TokenId) (stopTerminated : Bool) :
    Option Text × BaseIncrementalDetokenizer Δ :=
  if newTokenIds = [] then (none, d)
  else
    let skipped :=
      if stopTerminated = true ∧ d.includeStopStrInOutput = false then newTokenIds.getLast?.toList
      else []
    let decoded :=
      if stopTerminated = true ∧ d.includeStopStrInOutput = false then newTokenIds.dropLast
      else newTokenIds
    let offsetBefore := d.outputText.length
    let d := d.decode decodeNext decoded
    if stopTerminated then (none, { d with tokenIds := d.tokenIds ++ skipped })
    else
      match checkStopStrings d.outputText (d.outputText.length - offsetBefore) d.stop
        d.includeStopStrInOutput with
      | none => (none, d)
      | some (stopString, truncateTo) =>
        if truncateTo ≠ -1 then
          (some stopString, { d with outputText := pySlice d.outputText 0 truncateTo })
        else (some stopString, d)

/-- `get_next_output_text`. -/
def getNextOutputText (d : BaseIncrementalDetokenizer Δ) (finished delta : Bool) :
    Text × BaseIncrementalDetokenizer Δ :=
  let bufferLength := if finished then 0 else d.stopBufferLength
  if delta = false then
    (if bufferLength ≠ 0 then pySlice d.outputText 0 (-bufferLength) else d.outputText, d)
  else
    let length := d.outputText.length - bufferLength
    if d.lastOutputTextOffset < length then
      (pySlice d.outputText d.lastOutputTextOffset length, { d with lastOutputTextOffset := length })
    else ([], d)

end BaseIncrementalDetokenizer

/-! ## What the check finds -/

/-- The first stop string of the list that has an occurrence which ends behind the first `before`
characters, with its first such occurrence. -/
def matchStop (stop : List Text) (before : Nat) (text : Text) : Option (Text × Nat) :=
  stop.findSome? fun s => (findFrom s text (before + 1 - s.length)).map fun i => (s, i)

/-- Where the text is cut for a stop string. -/
def cutAt (includeInOutput : Bool) (s : Text) (i : Nat) : Nat :=
  if includeInOutput then i + s.length else i

variable {stop : List Text} {old new : Text} {includeInOutput : Bool} {s : Text} {i : Nat}

theorem matchStop_cons (before : Nat) (text : Text) :
    matchStop (s :: stop) before text =
      match findFrom s text (before + 1 - s.length) with
      | none => matchStop stop before text
      | some i => some (s, i) := by
  rw [matchStop, List.findSome?_cons]
  cases findFrom s text (before + 1 - s.length) <;> rfl

theorem matchStop_spec {before : Nat} {text : Text} (h : matchStop stop before text = some (s, i)) :
    s ∈ stop ∧ OccursAt s text i ∧ before + 1 ≤ i + s.length := by
  obtain ⟨l, s', l', heq, hsome, -⟩ := List.findSome?_eq_some_iff.mp h
  obtain ⟨i', hfind, hpair⟩ := Option.map_eq_some_iff.mp hsome
  obtain ⟨rfl, rfl⟩ := Prod.mk.inj hpair
  obtain ⟨hle, hat, -⟩ := findFrom_eq_some_iff.mp hfind
  exact ⟨heq ▸ List.mem_append_right _ List.mem_cons_self, hat, by omega⟩

theorem checkStops_eq (hstop : ∀ s ∈ stop, s ≠ []) (hnew : new ≠ []) :
    checkStops (old ++ new) new.length includeInOutput stop =
      (matchStop stop old.length (old ++ new)).map fun m =>
        (m.1, if includeInOutput = true ∧ m.2 + m.1.length ≥ (old ++ new).length then -1
          else (cutAt includeInOutput m.1 m.2 : Int)) := by
  induction stop with
  | nil => rfl
  | cons s stop ih =>
    have hpos := List.length_pos_iff.mpr (hstop s List.mem_cons_self)
    have hnewPos := List.length_pos_iff.mpr hnew
    -- the search starts where an occurrence may end in the new text
    have hstart : pyFind (old ++ new) s (1 - (new.length : Int) - s.length) =
        findFrom s (old ++ new) (old.length + 1 - s.length) := by
      rw [pyFind, if_pos (by omega), List.length_append]
      congr 1
      omega
    rw [checkStops, hstart, matchStop_cons]
    cases findFrom s (old ++ new) (old.length + 1 - s.length) with
    | none => exact ih fun s' hs' => hstop s' (List.mem_cons_of_mem _ hs')
    | some i =>
      cases includeInOutput
      · simp [cutAt]
      · simp only [Option.map_some, cutAt, if_true, true_and]
        split <;> rfl

/-- **The check** finds what `matchStop` finds. -/
theorem checkStopStrings_eq (hstop : ∀ s ∈ stop, s ≠ []) :
    checkStopStrings (old ++ new) new.length stop includeInOutput =
      (matchStop stop old.length (old ++ new)).map fun m =>
        (m.1, if includeInOutput = true ∧ m.2 + m.1.length ≥ (old ++ new).length then -1
          else (cutAt includeInOutput m.1 m.2 : Int)) := by
  rw [checkStopStrings]
  by_cases hnew : new = []
  · subst hnew
    rw [if_pos (.inl rfl)]
    cases hm : matchStop stop old.length (old ++ []) with
    | none => rfl
    | some m =>
      -- an occurrence would end behind the text
      obtain ⟨-, hat, hle⟩ := matchStop_spec hm
      have := hat.2
      rw [List.append_nil] at this
      omega
  · by_cases hnil : stop = []
    · subst hnil
      rw [if_pos (.inr rfl)]
      rfl
    · rw [if_neg (by simp [hnew, hnil]), checkStops_eq hstop hnew]

namespace BaseIncrementalDetokenizer

variable {Δ : Type} {decodeNext : Δ → TokenId → Text × Δ} {d : BaseIncrementalDetokenizer Δ}

/-- The detokenizer with another text. -/
def withText (d : BaseIncrementalDetokenizer Δ) (text : Text) : BaseIncrementalDetokenizer Δ :=
  { d with outputText := text }

/-- **What `update` does** with new tokens behind which the engine has not stopped: it adds their text,
and cuts the text at the stop string that is found. -/
theorem update_eq (hstop : ∀ s ∈ d.stop, s ≠ []) (newTokenIds : List TokenId) :
    d.update decodeNext newTokenIds false =
      let text := d.outputText ++ (decodeAll decodeNext d.stream newTokenIds).1
      match matchStop d.stop d.outputText.length text with
      | none => (none, d.decode decodeNext newTokenIds)
      | some (s, i) => (some s, (d.decode decodeNext newTokenIds).withText
          (text.take (cutAt d.includeStopStrInOutput s i))) := by
  by_cases hnil : newTokenIds = []
  · -- without new text nothing is found
    subst hnil
    have hnone : matchStop d.stop d.outputText.length (d.outputText ++ []) = none := by
      have hcheck := @checkStopStrings_eq d.stop d.outputText [] d.includeStopStrInOutput hstop
      rw [checkStopStrings, if_pos (.inl rfl)] at hcheck
      exact Option.map_eq_none_iff.mp hcheck.symm
    rw [update, if_pos rfl, decodeAll]
    dsimp only
    rw [hnone]
    simp [decode, decodeAll]
  · have htext : (d.decode decodeNext newTokenIds).outputText =
        d.outputText ++ (decodeAll decodeNext d.stream newTokenIds).1 := rfl
    have hlen : (d.outputText ++ (decodeAll decodeNext d.stream newTokenIds).1).length -
        d.outputText.length = (decodeAll decodeNext d.stream newTokenIds).1.length := by
      rw [List.length_append, Nat.add_sub_cancel_left]
    have hfields : (d.decode decodeNext newTokenIds).stop = d.stop ∧
        (d.decode decodeNext newTokenIds).includeStopStrInOutput = d.includeStopStrInOutput := ⟨rfl, rfl⟩
    rw [update, if_neg hnil]
    simp only [Bool.false_eq_true, false_and, if_false]
    rw [hfields.1, hfields.2, htext, hlen, checkStopStrings_eq hstop]
    cases hm : matchStop d.stop d.outputText.length
        (d.outputText ++ (decodeAll decodeNext d.stream newTokenIds).1) with
    | none => rfl
    | some m =>
      obtain ⟨s, i⟩ := m
      have hat := (matchStop_spec hm).2.1
      simp only [Option.map_some]
      split_ifs with hend
      · exact absurd rfl ‹_›
      · -- the stop string is the end of the text
        rw [cutAt, if_pos hend.1, List.take_of_length_le hend.2]
        rfl
      · rw [withText, ← Nat.cast_zero, pySlice_natCast, List.drop_zero]
        rfl
      · omega

end BaseIncrementalDetokenizer

end InferenceServer.Frontend
