import InferenceServer.Frontend.Detokenizer

/-!
# Where a request stops, and how its tokens are grouped

Speculative decoding hands the tokens of a request to `update` several at a time. The check goes through
the stop strings in the order of the list, over all of the new text: of two stop strings that end in the
text of one call it takes the one that is first in the list, not the one that ends first. So the grouping
of the tokens decides where the text is cut, and with the whole text in one call the returned text may
contain a stop string.

All groupings agree exactly if the first stop string of the list that is in the text of all tokens is
already there when any stop string is.
-/

namespace InferenceServer.Frontend

open BaseIncrementalDetokenizer

variable {Δ : Type}

/-- The groups of tokens are given to `update`, until it returns a stop string. -/
def runGroups (decodeNext : Δ → TokenId → Text × Δ) :
    BaseIncrementalDetokenizer Δ → List (List TokenId) → Option Text × Text
  | d, [] => (none, d.outputText)
  | d, group :: groups =>
    match d.update decodeNext group false with
    | (some stopString, d) => (some stopString, d.outputText)
    | (none, d) => runGroups decodeNext d groups

/-! ## The verdict on a text -/

/-- The first stop string of the list that is in the text, and the text cut there. -/
def verdict (stop : List Text) (includeInOutput : Bool) (text : Text) : Option Text × Text :=
  match matchStop stop 0 text with
  | none => (none, text)
  | some (s, i) => (some s, text.take (cutAt includeInOutput s i))

variable {stop : List Text} {includeInOutput : Bool} {text more : Text}

theorem matchStop_zero (hstop : ∀ s ∈ stop, s ≠ []) (text : Text) :
    matchStop stop 0 text = stop.findSome? fun s => (findFrom s text 0).map fun i => (s, i) := by
  induction stop with
  | nil => rfl
  | cons s stop ih =>
    have hpos := List.length_pos_iff.mpr (hstop s List.mem_cons_self)
    rw [matchStop_cons, List.findSome?_cons, show 0 + 1 - s.length = 0 by omega,
      ih fun s' hs' => hstop s' (List.mem_cons_of_mem _ hs')]
    cases findFrom s text 0 <;> rfl

/-- If the old text has no stop string, the new text decides as if all of the text were searched. -/
theorem matchStop_append (hstop : ∀ s ∈ stop, s ≠ []) (hnone : ∀ s ∈ stop, ¬ Occurs s text) :
    matchStop stop text.length (text ++ more) = matchStop stop 0 (text ++ more) := by
  induction stop with
  | nil => rfl
  | cons s stop ih =>
    have hpos := List.length_pos_iff.mpr (hstop s List.mem_cons_self)
    have hfind : findFrom s (text ++ more) (text.length + 1 - s.length) =
        findFrom s (text ++ more) (0 + 1 - s.length) := by
      rw [show 0 + 1 - s.length = 0 by omega]
      -- an occurrence does not end in the old text
      have hend : ∀ i, OccursAt s (text ++ more) i → text.length + 1 - s.length ≤ i := by
        intro i hat
        by_contra hlt
        exact hnone s List.mem_cons_self ⟨i, hat.of_append (by omega)⟩
      cases hfirst : findFrom s (text ++ more) 0 with
      | none =>
        rw [findFrom_eq_none_iff] at hfirst ⊢
        exact fun j _ => hfirst j (Nat.zero_le _)
      | some i =>
        rw [findFrom_eq_some_iff] at hfirst ⊢
        obtain ⟨-, hat, hleast⟩ := hfirst
        exact ⟨hend i hat, hat, fun j _ => hleast j (Nat.zero_le _)⟩
    rw [matchStop_cons, matchStop_cons, hfind,
      ih (fun s' hs' => hstop s' (List.mem_cons_of_mem _ hs'))
        fun s' hs' => hnone s' (List.mem_cons_of_mem _ hs')]

theorem findFrom_zero_isSome (s text : Text) : (findFrom s text 0).isSome = decide (Occurs s text) := by
  rw [Bool.eq_iff_iff, decide_eq_true_iff, ← not_iff_not, Bool.not_eq_true, Option.isSome_eq_false_iff,
    Option.isNone_iff_eq_none, findFrom_eq_none_iff, Occurs]
  push Not
  exact ⟨fun h i => h i (Nat.zero_le _), fun h i _ => h i⟩

/-- The stop string that is found is the first one of the list that is in the text. -/
theorem matchStop_find (hstop : ∀ s ∈ stop, s ≠ []) (text : Text) :
    matchStop stop 0 text = (stop.find? fun s => Occurs s text).bind fun s =>
      (findFrom s text 0).map fun i => (s, i) := by
  rw [matchStop_zero hstop]
  clear hstop
  induction stop with
  | nil => rfl
  | cons s stop ih =>
    have hsome := findFrom_zero_isSome s text
    rw [List.findSome?_cons, List.find?_cons]
    cases hf : findFrom s text 0 with
    | none =>
      rw [hf] at hsome
      rw [← hsome]
      exact ih
    | some i =>
      rw [hf] at hsome
      rw [← hsome]
      change some (s, i) = (findFrom s text 0).map _
      rw [hf]
      rfl

theorem findFrom_of_find? {s : Text} (hfind : (stop.find? fun s => Occurs s text) = some s) :
    ∃ i, findFrom s text 0 = some i := by
  have hocc := List.find?_some hfind
  rw [← findFrom_zero_isSome] at hocc
  exact Option.isSome_iff_exists.mp hocc

theorem verdict_fst (hstop : ∀ s ∈ stop, s ≠ []) (includeInOutput : Bool) (text : Text) :
    (verdict stop includeInOutput text).1 = stop.find? fun s => Occurs s text := by
  rw [verdict, matchStop_find hstop]
  cases hfind : stop.find? fun s => Occurs s text with
  | none => rfl
  | some s =>
    obtain ⟨i, hi⟩ := findFrom_of_find? hfind
    rw [Option.bind_some, hi]
    rfl

/-- More text does not change the verdict if it brings no stop string that is before the one found. -/
theorem verdict_append (hstop : ∀ s ∈ stop, s ≠ []) (hocc : ∃ s ∈ stop, Occurs s text)
    (hfirst : (stop.find? fun s => Occurs s text) = stop.find? fun s => Occurs s (text ++ more)) :
    verdict stop includeInOutput (text ++ more) = verdict stop includeInOutput text := by
  rw [verdict, verdict, matchStop_find hstop, matchStop_find hstop, ← hfirst]
  cases hfind : stop.find? fun s => Occurs s text with
  | none =>
    obtain ⟨s, hs, hin⟩ := hocc
    exact absurd (decide_eq_true hin) (List.find?_eq_none.mp hfind s hs)
  | some s =>
    obtain ⟨i, hi⟩ := findFrom_of_find? hfind
    obtain ⟨-, hat, hleast⟩ := findFrom_eq_some_iff.mp hi
    -- the first occurrence is the same one in the longer text
    have hi' : findFrom s (text ++ more) 0 = some i := by
      refine findFrom_eq_some_iff.mpr ⟨Nat.zero_le _, hat.append more, fun j hj hlt hat' => ?_⟩
      have := hat.2
      exact hleast j hj hlt (hat'.of_append (by omega))
    rw [Option.bind_some, Option.bind_some, hi, hi']
    change (some s, (text ++ more).take _) = (some s, text.take _)
    have hcut : cutAt includeInOutput s i ≤ text.length := by
      have := hat.2
      rw [cutAt]
      split_ifs <;> omega
    rw [List.take_append_of_le_length hcut]

/-! ## The groups -/

variable {decodeNext : Δ → TokenId → Text × Δ}

theorem verdict_of_none (hstop : ∀ s ∈ stop, s ≠ []) (hnone : ∀ s ∈ stop, ¬ Occurs s text) :
    verdict stop includeInOutput text = (none, text) := by
  have hfind : (stop.find? fun s => Occurs s text) = none :=
    List.find?_eq_none.mpr fun s hs => by simpa using hnone s hs
  rw [verdict, matchStop_find hstop, hfind]
  rfl

/-- **A group** behind which a stop string occurs gives the verdict on the text there. -/
theorem runGroups_cons {d : BaseIncrementalDetokenizer Δ} (hstop : ∀ s ∈ d.stop, s ≠ [])
    (hnone : ∀ s ∈ d.stop, ¬ Occurs s d.outputText) (group : List TokenId)
    (groups : List (List TokenId)) :
    runGroups decodeNext d (group :: groups) =
      if ∃ s ∈ d.stop, Occurs s (d.decode decodeNext group).outputText then
        verdict d.stop d.includeStopStrInOutput (d.decode decodeNext group).outputText
      else runGroups decodeNext (d.decode decodeNext group) groups := by
  have htext : (d.decode decodeNext group).outputText =
      d.outputText ++ (decodeAll decodeNext d.stream group).1 := rfl
  rw [runGroups, update_eq hstop, htext]
  dsimp only
  rw [matchStop_append hstop hnone]
  cases hm : matchStop d.stop 0 (d.outputText ++ (decodeAll decodeNext d.stream group).1) with
  | some m =>
    obtain ⟨s, i⟩ := m
    obtain ⟨hs, hat, -⟩ := matchStop_spec hm
    rw [if_pos ⟨s, hs, i, hat⟩, verdict, hm]
    rfl
  | none =>
    have hfirst := verdict_fst hstop d.includeStopStrInOutput
      (d.outputText ++ (decodeAll decodeNext d.stream group).1)
    rw [verdict, hm] at hfirst
    rw [if_neg]
    rintro ⟨s, hs, hocc⟩
    exact List.find?_eq_none.mp hfirst.symm s hs (decide_eq_true hocc)

/-- **The result** is the verdict on the text behind one of the groups, the last one or one behind which a
stop string occurs. -/
theorem runGroups_eq {d : BaseIncrementalDetokenizer Δ} (hstop : ∀ s ∈ d.stop, s ≠ [])
    (hnone : ∀ s ∈ d.stop, ¬ Occurs s d.outputText) (groups : List (List TokenId)) :
    ∃ before behind, groups = before ++ behind ∧
      runGroups decodeNext d groups = verdict d.stop d.includeStopStrInOutput
        (d.decode decodeNext before.flatten).outputText ∧
      (behind = [] ∨ ∃ s ∈ d.stop, Occurs s (d.decode decodeNext before.flatten).outputText) := by
  -- on the groups, for every detokenizer in whose text no stop string occurs
  induction groups generalizing d with
  | nil =>
    refine ⟨[], [], rfl, ?_, .inl rfl⟩
    have hsame : (d.decode decodeNext []).outputText = d.outputText := List.append_nil _
    rw [List.flatten_nil, hsame, verdict_of_none hstop hnone]
    rfl
  | cons group groups ih =>
    rw [runGroups_cons hstop hnone]
    split_ifs with hocc
    · refine ⟨[group], groups, rfl, ?_, .inr ?_⟩
      · rw [List.flatten_singleton]
      · rwa [List.flatten_singleton]
    · push Not at hocc
      obtain ⟨before, behind, rfl, hrun, hend⟩ := @ih (d.decode decodeNext group) hstop hocc
      have htext : ((d.decode decodeNext group).decode decodeNext before.flatten).outputText =
          (d.decode decodeNext (group :: before).flatten).outputText := by
        change (d.outputText ++ _) ++ _ = d.outputText ++ (decodeAll decodeNext d.stream _).1
        rw [List.flatten_cons, decodeAll_append, List.append_assoc]
        rfl
      rw [htext] at hrun hend
      exact ⟨group :: before, behind, rfl, hrun, hend⟩

/-- **The condition**: whenever a stop string is in the text of the first tokens, the first one of the
list that is there is the first one that is in the text of all tokens. -/
def FirstStopDecides (decodeNext : Δ → TokenId → Text × Δ) (stream : Δ) (stop : List Text)
    (tokens : List TokenId) : Prop :=
  ∀ k, (∃ s ∈ stop, Occurs s (decodeAll decodeNext stream (tokens.take k)).1) →
    (stop.find? fun s => Occurs s (decodeAll decodeNext stream (tokens.take k)).1) =
      stop.find? fun s => Occurs s (decodeAll decodeNext stream tokens).1

theorem not_occurs_nil {s : Text} (hs : s ≠ []) : ¬ Occurs s [] := by
  rintro ⟨i, -, hle⟩
  have := List.length_pos_iff.mpr hs
  rw [List.length_nil] at hle
  omega

/-- **Stopping does not depend on the grouping** of the tokens exactly if the first stop string of the
list that is in the text of all tokens is already in the text of the first tokens with any stop string. -/
theorem stop_independent_of_grouping_iff {Δ : Type} (decodeNext : Δ → TokenId → Text × Δ) (stream : Δ)
    (stop : List Text) (hstop : ∀ s ∈ stop, s ≠ []) (includeInOutput : Bool) (tokens : List TokenId) :
    (∀ groups groups' : List (List TokenId), groups.flatten = tokens → groups'.flatten = tokens →
        runGroups decodeNext (.new stop includeInOutput stream) groups =
          runGroups decodeNext (.new stop includeInOutput stream) groups') ↔
      FirstStopDecides decodeNext stream stop tokens := by
  have hempty : ∀ s ∈ stop, ¬ Occurs s [] := fun s hs => not_occurs_nil (hstop s hs)
  have hcons := @runGroups_cons Δ decodeNext (.new stop includeInOutput stream) hstop hempty
  constructor
  · intro hagree k hocc
    -- all tokens in one call, against the first tokens and then the others
    have hone : runGroups decodeNext (.new stop includeInOutput stream) [tokens] =
        verdict stop includeInOutput (decodeAll decodeNext stream tokens).1 := by
      rw [hcons]
      split_ifs with hany
      · rfl
      · push Not at hany
        exact (verdict_of_none hstop hany).symm
    have htwo : runGroups decodeNext (.new stop includeInOutput stream)
        [tokens.take k, tokens.drop k] =
          verdict stop includeInOutput (decodeAll decodeNext stream (tokens.take k)).1 := by
      rw [hcons]
      exact if_pos hocc
    rw [← verdict_fst hstop includeInOutput, ← verdict_fst hstop includeInOutput, ← hone, ← htwo]
    refine congrArg Prod.fst (hagree _ _ ?_ ?_)
    · rw [List.flatten_cons, List.flatten_singleton, List.take_append_drop]
    · rw [List.flatten_singleton]
  · intro hfirst
    -- every grouping ends with the verdict on the whole text
    have hwhole : ∀ groups : List (List TokenId), groups.flatten = tokens →
        runGroups decodeNext (.new stop includeInOutput stream) groups =
          verdict stop includeInOutput (decodeAll decodeNext stream tokens).1 := by
      intro groups hflat
      obtain ⟨before, behind, rfl, hverdict, hend⟩ :=
        @runGroups_eq Δ decodeNext (.new stop includeInOutput stream) hstop hempty groups
      change _ = verdict stop includeInOutput (decodeAll decodeNext stream before.flatten).1 at hverdict
      rw [hverdict]
      rcases hend with rfl | hocc
      · rw [← hflat, List.append_nil]
      · rw [List.flatten_append] at hflat
        have htake : tokens.take before.flatten.length = before.flatten := by
          rw [← hflat, List.take_left]
        have hsame := hfirst before.flatten.length
        rw [htake] at hsame
        have hfind := hsame hocc
        rw [← hflat, decodeAll_append] at hfind ⊢
        exact (verdict_append hstop hocc hfind).symm
    intro groups groups' hflat hflat'
    rw [hwhole groups hflat, hwhole groups' hflat']

/-- The tokens `b` and `c` with the stop strings `c` and `b`, one at a time and in one call. -/
theorem not_forall_stop_independent_of_grouping :
    ¬ ∀ groups groups' : List (List TokenId), groups.flatten = [1, 2] → groups'.flatten = [1, 2] →
      runGroups spell (.new [['c'], ['b']] false ()) groups =
        runGroups spell (.new [['c'], ['b']] false ()) groups' := by
  intro h
  have hrun := h [[1], [2]] [[1, 2]] rfl rfl
  revert hrun
  decide

/-- With the stop strings the other way around the two groupings agree. -/
theorem stop_independent_of_grouping_bc :
    runGroups spell (.new [['b'], ['c']] false ()) [[1], [2]] =
      runGroups spell (.new [['b'], ['c']] false ()) [[1, 2]] := by
  refine (stop_independent_of_grouping_iff spell () [['b'], ['c']] (by decide) false [1, 2]).mpr ?_
    [[1], [2]] [[1, 2]] rfl rfl
  rintro (_ | _ | k)
  · decide
  · decide
  · intro _
    rw [List.take_of_length_le (by simp)]

end InferenceServer.Frontend
