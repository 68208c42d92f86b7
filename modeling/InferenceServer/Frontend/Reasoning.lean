import InferenceServer.Frontend.Detokenizer

/-!
# Reasoning and content

`DeepSeekR1ReasoningParser` (`vllm/reasoning/deepseek_r1_reasoning_parser.py`) tells the reasoning
`<think>…</think>` of an output from its content. `extract_reasoning_content` splits a whole text;
`extract_reasoning_content_streaming` decides for each delta on its own, by the tokens that it and the
earlier ones have. The arguments `previous_text`, `current_text` and `current_token_ids` are not read.

The streamed split is the unstreamed one unless a delta is read as something else: a first `<think>`
that comes with text and without `</think>` stays in the reasoning, what precedes it is kept, every
delta with a `</think>` is split at it again, and a later `<think>` that comes alone is dropped.
-/

namespace InferenceServer.Frontend

open List (append_assoc flatten_cons infix_rfl mem_append mem_append_left mem_cons)

/-- `start_token`. -/
def startToken : Text := "<think>".toList

/-- `end_token`. -/
def endToken : Text := "</think>".toList

/-- The parser, with the texts of the tokens. -/
structure DeepSeekR1ReasoningParser where
  startTokenId : TokenId
  endTokenId : TokenId
  tokenText : TokenId → Text
  tokenText_start : tokenText startTokenId = startToken
  tokenText_end : tokenText endTokenId = endToken

structure DeltaMessage where
  reasoningContent : Option Text := none
  content : Option Text := none

/-- `text.find(word)`. -/
def find (text word : Text) : Int := (findFrom word text 0).elim (-1) fun i => (i : Int)

/-- `text.partition(word)`. -/
def partition (text word : Text) : Text × Text × Text :=
  match findFrom word text 0 with
  | some i => (text.take i, word, text.drop (i + word.length))
  | none => (text, [], [])

/-- `text if text else None`. -/
def orNone (text : Text) : Option Text := if text = [] then none else some text

/-- The message of a text with the end token, the reasoning of which begins at `start`. -/
def splitAtEnd (deltaText : Text) (start : Int) : DeltaMessage :=
  let endIndex := find deltaText endToken
  { reasoningContent := some (pySlice deltaText start endIndex)
    content := orNone (pySlice deltaText (endIndex + endToken.length) deltaText.length) }

/-- `extract_reasoning_content`: the reasoning and the content. -/
def extractReasoningContent (modelOutput : Text) : Option Text × Option Text :=
  let parts := partition modelOutput startToken
  let modelOutput := if parts.2.1 ≠ [] then parts.2.2 else parts.1
  if Occurs endToken modelOutput then
    let (reasoningContent, _, content) := partition modelOutput endToken
    (some reasoningContent, orNone content)
  else (some modelOutput, none)

namespace DeepSeekR1ReasoningParser

variable (P : DeepSeekR1ReasoningParser)

/-- `extract_reasoning_content_streaming`. -/
def extractReasoningContentStreaming (deltaText : Text) (previousTokenIds deltaTokenIds : List TokenId) :
    Option DeltaMessage :=
  if deltaTokenIds = [P.startTokenId] ∨ deltaTokenIds = [P.endTokenId] then none
  else if P.startTokenId ∈ previousTokenIds then
    if P.endTokenId ∈ deltaTokenIds then some (splitAtEnd deltaText 0)
    else if P.endTokenId ∈ previousTokenIds then some { content := some deltaText }
    else some { reasoningContent := some deltaText }
  else if P.startTokenId ∈ deltaTokenIds then
    if P.endTokenId ∈ deltaTokenIds then
      some (splitAtEnd deltaText (find deltaText startToken + startToken.length))
    else some { reasoningContent := some deltaText }
  else
    if P.endTokenId ∈ deltaTokenIds then some (splitAtEnd deltaText 0)
    else if P.endTokenId ∈ previousTokenIds then some { content := some deltaText }
    else some { reasoningContent := some deltaText }

/-- The text of tokens. -/
def text (ids : List TokenId) : Text := ids.flatMap P.tokenText

/-- What a delta adds to the reasoning and to the content. -/
def emitted (previous delta : List TokenId) : Text × Text :=
  let message := (P.extractReasoningContentStreaming (P.text delta) previous delta).getD {}
  (message.reasoningContent.getD [], message.content.getD [])

/-- The two strings of the deltas, one after the other. -/
def streamed : List TokenId → List (List TokenId) → Text × Text
  | _, [] => ([], [])
  | previous, delta :: deltas =>
    let rest := streamed (previous ++ delta) deltas
    ((P.emitted previous delta).1 ++ rest.1, (P.emitted previous delta).2 ++ rest.2)

/-- The two strings of the whole text. -/
def unstreamed (ids : List TokenId) : Text × Text :=
  let (reasoning, content) := extractReasoningContent (P.text ids)
  (reasoning.getD [], content.getD [])

/-- Every occurrence of the token's text is this token's own. -/
def Marks (token : TokenId) (ids : List TokenId) : Prop :=
  ∀ i < (P.text ids).length, OccursAt (P.tokenText token) (P.text ids) i →
    ∃ k < ids.length, ids[k]? = some token ∧ (P.text (ids.take k)).length = i

instance (token : TokenId) (ids : List TokenId) : Decidable (P.Marks token ids) :=
  inferInstanceAs (Decidable (∀ i < _, _ → ∃ k < _, _))

/-- No other token's text contributes to a think token's. -/
structure Readable (ids : List TokenId) : Prop where
  starts : P.Marks P.startTokenId ids
  ends : P.Marks P.endTokenId ids

/-- At most one of the deltas has the end token. -/
def EndsOnce (deltas : List (List TokenId)) : Prop :=
  (deltas.filter fun delta => P.endTokenId ∈ delta).length ≤ 1

instance (deltas : List (List TokenId)) : Decidable (P.EndsOnce deltas) :=
  inferInstanceAs (Decidable (_ ≤ _))

/-- **No delta is misread**: without a start token, at most one delta has an end token. Otherwise
nothing is emitted before the delta with the first start token. That delta is the start token alone, or
has its first end token behind it; a start token does not come alone again; one delta from then on has
an end token, and if there was one before the start, no text comes between. -/
def SplitsOnce (deltas : List (List TokenId)) : Prop :=
  (P.startTokenId ∉ deltas.flatten ∧ P.EndsOnce deltas) ∨
  ∃ before delta after, deltas = before ++ delta :: after ∧ P.startTokenId ∉ before.flatten ∧
    (∀ d ∈ before, P.text (d.erase P.endTokenId) = []) ∧ [P.startTokenId] ∉ after ∧
    ((delta = [P.startTokenId] ∧ P.EndsOnce after ∧ (P.endTokenId ∈ before.flatten →
        ∀ d ∈ after.takeWhile (P.endTokenId ∉ ·), P.text d = [])) ∨
      ∃ a b, delta = a ++ P.startTokenId :: b ∧ P.startTokenId ∉ a ∧ P.endTokenId ∉ a ∧
        P.endTokenId ∈ b ∧ P.endTokenId ∉ after.flatten)

/-! ## Where the marks are -/

variable {P} {ids l a b previous delta : List TokenId} {deltas : List (List TokenId)}
  {token : TokenId} {i : Nat}

@[simp] theorem text_nil : P.text [] = [] := rfl

@[simp] theorem text_cons : P.text (token :: l) = P.tokenText token ++ P.text l := rfl

@[simp] theorem text_append : P.text (a ++ b) = P.text a ++ P.text b := List.flatMap_append

theorem occursAt_own : OccursAt (P.tokenText token) (P.text (a ++ token :: b)) (P.text a).length := by
  simp [OccursAt]

/-- An occurrence in the text of a part is the text of a token of the part. -/
theorem Marks.exists_split (h : P.Marks token ids) (ht : P.tokenText token ≠ []) (hl : l <:+: ids)
    (hocc : OccursAt (P.tokenText token) (P.text l) i) :
    ∃ a b, l = a ++ token :: b ∧ (P.text a).length = i := by
  obtain ⟨p, q, rfl⟩ := hl
  have hpos := List.length_pos_iff.mpr ht
  have hle := hocc.2
  obtain ⟨k, hk, hget, hlen⟩ := h ((P.text p).length + i) (by simp; omega) (by
    obtain ⟨htake, hle⟩ := hocc.append (P.text q)
    refine ⟨?_, by simp at hle ⊢; omega⟩
    rw [text_append, text_append, append_assoc, List.drop_length_add_append]
    exact htake)
  have hsplit := List.take_append_drop k (p ++ l ++ q)
  rw [List.getElem?_eq_getElem hk, Option.some.injEq] at hget
  rw [List.drop_eq_getElem_cons hk, hget] at hsplit
  generalize (p ++ l ++ q).take k = a at hsplit hlen
  generalize (p ++ l ++ q).drop (k + 1) = b at hsplit
  rw [append_assoc, List.append_eq_append_iff] at hsplit
  -- the token is neither before the part nor behind it
  rcases hsplit with ⟨p', rfl, hrest⟩ | ⟨a', rfl, hrest⟩
  · cases p' with
    | nil =>
      cases l with
      | nil =>
        rw [text_nil, List.length_nil] at hle
        omega
      | cons t l =>
        obtain ⟨rfl, -⟩ := List.cons.inj hrest
        exact ⟨[], l, rfl, by simp at hlen ⊢; omega⟩
    | cons t p' =>
      obtain ⟨rfl, -⟩ := List.cons.inj hrest
      simp at hlen
      omega
  · rcases List.append_eq_append_iff.mp hrest with ⟨a'', rfl, -⟩ | ⟨l', rfl, hb⟩
    · simp at hlen hle
      omega
    · cases l' with
      | nil =>
        simp at hlen hle
        omega
      | cons t l' =>
        obtain ⟨rfl, -⟩ := List.cons.inj hb
        exact ⟨a', l', rfl, by simpa using hlen⟩

/-- The first occurrence of the mark is the first such token. -/
theorem Marks.find_eq (h : P.Marks token ids) (ht : P.tokenText token ≠ [])
    (hl : a ++ token :: b <:+: ids) (ha : token ∉ a) :
    findFrom (P.tokenText token) (P.text (a ++ token :: b)) 0 = some (P.text a).length := by
  refine findFrom_eq_some_iff.mpr ⟨Nat.zero_le _, occursAt_own, fun j _ hj hocc => ?_⟩
  obtain ⟨a', b', hsplit, rfl⟩ := h.exists_split ht hl hocc
  rcases List.append_eq_append_iff.mp hsplit with ⟨c, rfl, -⟩ | ⟨c, rfl, hrest⟩
  · simp at hj
  · cases c with
    | nil => simp at hj
    | cons t c =>
      obtain ⟨rfl, -⟩ := List.cons.inj hrest
      exact ha (by simp)

theorem Marks.find_none (h : P.Marks token ids) (ht : P.tokenText token ≠ []) (hl : l <:+: ids)
    (hnot : token ∉ l) : findFrom (P.tokenText token) (P.text l) 0 = none := by
  refine findFrom_eq_none_iff.mpr fun j _ hocc => ?_
  obtain ⟨a, b, rfl, -⟩ := h.exists_split ht hl hocc
  simp at hnot

theorem start_ne : P.tokenText P.startTokenId ≠ [] := P.tokenText_start ▸ by decide

theorem end_ne : P.tokenText P.endTokenId ≠ [] := P.tokenText_end ▸ by decide

theorem start_ne_end : P.startTokenId ≠ P.endTokenId := fun h => by
  have := congrArg P.tokenText h
  rw [P.tokenText_start, P.tokenText_end] at this
  exact absurd this (by decide)

/-! ## The whole text -/

/-- The texts before and behind the first end token. -/
def cut (P : DeepSeekR1ReasoningParser) : List TokenId → Text × Text
  | [] => ([], [])
  | token :: l =>
    if token = P.endTokenId then ([], P.text l) else (P.tokenText token ++ (P.cut l).1, (P.cut l).2)

theorem cut_append (ha : P.endTokenId ∉ a) :
    P.cut (a ++ l) = (P.text a ++ (P.cut l).1, (P.cut l).2) := by
  induction a with
  | nil => rfl
  | cons token a ih =>
    rw [mem_cons, not_or] at ha
    rw [List.cons_append, cut, if_neg (Ne.symm ha.1), ih ha.2, text_cons, append_assoc]

theorem cut_end (ha : P.endTokenId ∉ a) : P.cut (a ++ P.endTokenId :: b) = (P.text a, P.text b) := by
  rw [cut_append ha, cut, if_pos rfl, List.append_nil]

theorem cut_of_notMem (hl : P.endTokenId ∉ l) : P.cut l = (P.text l, []) := by
  simpa [cut] using cut_append (l := []) hl

@[simp] theorem orNone_getD (text : Text) : (orNone text).getD [] = text := by
  unfold orNone
  split_ifs with h <;> simp [h]

theorem Marks.partition_eq (h : P.Marks token ids) (ht : P.tokenText token ≠ [])
    (hl : a ++ token :: b <:+: ids) (ha : token ∉ a) :
    partition (P.text (a ++ token :: b)) (P.tokenText token) =
      (P.text a, P.tokenText token, P.text b) := by
  rw [partition, h.find_eq ht hl ha]
  simp

/-- What follows the start is cut at its first end token. -/
theorem unstreamed_of_rest (h : P.Readable ids) (hl : l <:+: ids)
    (hrest : (if (partition (P.text ids) startToken).2.1 ≠ [] then
        (partition (P.text ids) startToken).2.2 else (partition (P.text ids) startToken).1) =
      P.text l) : P.unstreamed ids = P.cut l := by
  unfold unstreamed extractReasoningContent
  dsimp only
  rw [hrest]
  by_cases he : P.endTokenId ∈ l
  · obtain ⟨a, b, rfl, ha⟩ := List.eq_append_cons_of_mem he
    have hpart := h.ends.partition_eq end_ne hl ha
    have hocc : Occurs endToken (P.text (a ++ P.endTokenId :: b)) := by
      have : OccursAt (P.tokenText P.endTokenId) (P.text (a ++ P.endTokenId :: b)) (P.text a).length :=
        occursAt_own
      rw [P.tokenText_end] at this
      exact ⟨_, this⟩
    rw [P.tokenText_end] at hpart
    rw [if_pos hocc, hpart, cut_end ha]
    simp
  · have hnone := h.ends.find_none end_ne hl he
    rw [P.tokenText_end, findFrom_eq_none_iff] at hnone
    rw [if_neg fun ⟨i, hi⟩ => hnone i (Nat.zero_le i) hi, cut_of_notMem he]
    rfl

theorem unstreamed_of_notMem (h : P.Readable ids) (hs : P.startTokenId ∉ ids) :
    P.unstreamed ids = P.cut ids := by
  refine unstreamed_of_rest h infix_rfl ?_
  have hnone := h.starts.find_none start_ne infix_rfl hs
  rw [P.tokenText_start] at hnone
  rw [partition, hnone]
  simp

theorem unstreamed_of_start (h : P.Readable (a ++ P.startTokenId :: b)) (ha : P.startTokenId ∉ a) :
    P.unstreamed (a ++ P.startTokenId :: b) = P.cut b := by
  refine unstreamed_of_rest h ⟨a ++ [P.startTokenId], [], by simp⟩ ?_
  have hpart := h.starts.partition_eq start_ne infix_rfl ha
  rw [P.tokenText_start] at hpart
  rw [hpart]
  exact if_pos (show startToken ≠ [] by decide)

/-! ## The deltas -/

theorem Readable.splitAtEnd_eq (h : P.Readable ids) (hl : a ++ P.endTokenId :: b <:+: ids)
    (ha : P.endTokenId ∉ a) (n : Nat) : splitAtEnd (P.text (a ++ P.endTokenId :: b)) n =
      { reasoningContent := some ((P.text a).drop n), content := orNone (P.text b) } := by
  have hfind := h.ends.find_eq end_ne hl ha
  rw [P.tokenText_end] at hfind
  simp only [splitAtEnd, find, hfind, Option.elim_some]
  rw [← Nat.cast_add, pySlice_natCast, pySlice_natCast, List.take_length, text_append, text_cons,
    P.tokenText_end, List.take_left, ← append_assoc, List.drop_left' (by simp)]

theorem emitted_start : P.emitted previous [P.startTokenId] = ([], []) := by
  simp [emitted, extractReasoningContentStreaming]

/-- A delta with an end token is split at the first one, if no start token comes for the first time. -/
theorem Readable.emitted_end (h : P.Readable ids) (hl : a ++ P.endTokenId :: b <:+: ids)
    (ha : P.endTokenId ∉ a)
    (hs : P.startTokenId ∈ previous ∨ P.startTokenId ∉ a ++ P.endTokenId :: b) :
    P.emitted previous (a ++ P.endTokenId :: b) = (P.text a, P.text b) := by
  have hsplit := h.splitAtEnd_eq hl ha 0
  rw [Nat.cast_zero, List.drop_zero] at hsplit
  have hmem : P.endTokenId ∈ a ++ P.endTokenId :: b := by simp
  unfold emitted extractReasoningContentStreaming
  split_ifs with hone hprev hdelta
  · -- the end token alone
    rcases hone with hone | hone
    · exact absurd (List.mem_singleton.mp (hone ▸ hmem)) start_ne_end.symm
    · obtain ⟨rfl, rfl⟩ : a = [] ∧ b = [] := by
        cases a with
        | nil => exact ⟨rfl, (List.cons.inj hone).2⟩
        | cons t a => exact absurd (congrArg List.length hone) (by simp)
      rfl
  · simp only [Option.getD_some, hsplit, orNone_getD]
  · exact absurd hdelta (hs.resolve_left hprev)
  · simp only [Option.getD_some, hsplit, orNone_getD]

theorem emitted_of_notMem (he : P.endTokenId ∉ delta) (halone : delta ≠ [P.startTokenId])
    (hs : P.startTokenId ∈ previous ∨ P.startTokenId ∉ delta) :
    P.emitted previous delta =
      if P.endTokenId ∈ previous then ([], P.text delta) else (P.text delta, []) := by
  have hone : ¬ (delta = [P.startTokenId] ∨ delta = [P.endTokenId]) := by
    rintro (rfl | rfl)
    · exact halone rfl
    · simp at he
  unfold emitted extractReasoningContentStreaming
  rw [if_neg hone]
  by_cases hprev : P.startTokenId ∈ previous
  · rw [if_pos hprev, if_neg he]
    split_ifs <;> rfl
  · rw [if_neg hprev, if_neg (hs.resolve_left hprev), if_neg he]
    split_ifs <;> rfl

/-- The delta in which the reasoning starts and ends. -/
theorem Readable.emitted_both (h : P.Readable ids) (hl : a ++ P.startTokenId :: b <:+: ids)
    (hs : P.startTokenId ∉ previous) (ha : P.startTokenId ∉ a) (hea : P.endTokenId ∉ a)
    (hb : P.endTokenId ∈ b) : P.emitted previous (a ++ P.startTokenId :: b) = P.cut b := by
  obtain ⟨b, c, rfl, hnot⟩ := List.eq_append_cons_of_mem hb
  have hfind := h.starts.find_eq start_ne hl ha
  rw [P.tokenText_start] at hfind
  have hshape : a ++ P.startTokenId :: (b ++ P.endTokenId :: c) =
      (a ++ P.startTokenId :: b) ++ P.endTokenId :: c := by simp
  have hsplit := h.splitAtEnd_eq (hshape ▸ hl) (by simp [hea, hnot, start_ne_end.symm])
    ((P.text a).length + startToken.length)
  have hone : ∀ t, ¬ a ++ P.startTokenId :: (b ++ P.endTokenId :: c) = [t] := fun t ht => by
    have := congrArg List.length ht
    simp at this
    omega
  unfold emitted extractReasoningContentStreaming
  rw [if_neg (not_or.mpr ⟨hone _, hone _⟩), if_neg hs, if_pos (by simp), if_pos (by simp), find,
    hfind, Option.elim_some, ← Nat.cast_add, hshape, hsplit, cut_end hnot]
  simp [P.tokenText_start]

/-- Once the reasoning has ended, everything is content. -/
theorem streamed_of_ended (he : P.endTokenId ∈ previous) (hn : P.endTokenId ∉ deltas.flatten)
    (halone : [P.startTokenId] ∉ deltas)
    (hs : P.startTokenId ∈ previous ∨ P.startTokenId ∉ deltas.flatten) :
    P.streamed previous deltas = ([], P.text deltas.flatten) := by
  induction deltas generalizing previous with
  | nil => rfl
  | cons d deltas ih =>
    simp only [flatten_cons, mem_append, mem_cons, not_or] at hn hs halone
    rw [streamed, emitted_of_notMem hn.1 (Ne.symm halone.1) (hs.imp_right And.left), if_pos he,
      ih (mem_append_left _ he) hn.2 halone.2
        (hs.imp (mem_append_left _) And.right)]
    simp

/-- **The deltas from the start on** are cut at the first end token, if one of them has one. -/
theorem Readable.streamed_eq_cut (h : P.Readable ids) (hl : deltas.flatten <:+: ids)
    (halone : [P.startTokenId] ∉ deltas) (honce : P.EndsOnce deltas)
    (hs : P.startTokenId ∈ previous ∨ P.startTokenId ∉ deltas.flatten)
    (hquiet : P.endTokenId ∈ previous →
      ∀ d ∈ deltas.takeWhile (P.endTokenId ∉ ·), P.text d = []) :
    P.streamed previous deltas = P.cut deltas.flatten := by
  induction deltas generalizing previous with
  | nil => rfl
  | cons d deltas ih =>
    have hrest : deltas.flatten <:+: ids := (List.suffix_append d _).isInfix.trans hl
    have hs' : P.startTokenId ∈ previous ++ d ∨ P.startTokenId ∉ deltas.flatten :=
      hs.imp (mem_append_left _) fun hn hm => hn (List.mem_append_right _ hm)
    have hsd : P.startTokenId ∈ previous ∨ P.startTokenId ∉ d :=
      hs.imp_right fun hn hm => hn (mem_append_left _ hm)
    rw [mem_cons, not_or] at halone
    rw [streamed, flatten_cons]
    by_cases he : P.endTokenId ∈ d
    · -- no other delta has an end token
      have hnone : P.endTokenId ∉ deltas.flatten := by
        intro hm
        obtain ⟨d', hd', he'⟩ := List.mem_flatten.mp hm
        have hmem : d' ∈ deltas.filter fun d => P.endTokenId ∈ d :=
          List.mem_filter.mpr ⟨hd', decide_eq_true he'⟩
        have := List.length_pos_of_mem hmem
        rw [EndsOnce, List.filter_cons_of_pos (by simpa using he), List.length_cons] at honce
        omega
      obtain ⟨a, b, rfl, ha⟩ := List.eq_append_cons_of_mem he
      rw [h.emitted_end ((List.prefix_append _ _).isInfix.trans hl) ha hsd,
        streamed_of_ended (List.mem_append_right _ he) hnone halone.2 hs', append_assoc,
        List.cons_append, cut_end ha]
      simp
    · have hfilter : P.EndsOnce deltas := by
        rwa [EndsOnce, List.filter_cons_of_neg (by simpa using he)] at honce
      rw [List.takeWhile_cons_of_pos (by simpa using he)] at hquiet
      have hrec := ih hrest halone.2 hfilter hs' fun hm d' hd' =>
        hquiet ((mem_append.mp hm).resolve_right he) d' (List.mem_cons_of_mem _ hd')
      rw [emitted_of_notMem he (Ne.symm halone.1) hsd, hrec, cut_append he]
      split_ifs with hprev
      · simp [hquiet hprev d List.mem_cons_self]
      · rfl

/-- Deltas of which nothing is left but an end token add nothing. -/
theorem Readable.streamed_silent (h : P.Readable ids) {before : List (List TokenId)}
    (hl : before.flatten <:+: ids) (hs : P.startTokenId ∉ previous ++ before.flatten)
    (hsilent : ∀ d ∈ before, P.text (d.erase P.endTokenId) = []) :
    P.streamed previous (before ++ deltas) = P.streamed (previous ++ before.flatten) deltas := by
  induction before generalizing previous with
  | nil => rw [List.flatten_nil, List.append_nil, List.nil_append]
  | cons d before ih =>
    rw [flatten_cons, ← append_assoc] at hs
    have hsd : P.startTokenId ∉ previous ++ d := fun hm => hs (mem_append_left _ hm)
    rw [mem_append, not_or] at hsd
    have hzero : P.emitted previous d = ([], []) := by
      have hd := hsilent d List.mem_cons_self
      by_cases he : P.endTokenId ∈ d
      · obtain ⟨a, b, rfl, ha⟩ := List.eq_append_cons_of_mem he
        rw [List.erase_append_right _ ha, List.erase_cons_head, text_append,
          List.append_eq_nil_iff] at hd
        rw [h.emitted_end ((List.prefix_append _ _).isInfix.trans hl) ha (.inr hsd.2), hd.1, hd.2]
      · rw [List.erase_of_not_mem he] at hd
        rw [emitted_of_notMem he (fun hone => hsd.2 (by simp [hone])) (.inr hsd.2), hd, ite_self]
    rw [List.cons_append, streamed, hzero, ih ((List.suffix_append d _).isInfix.trans hl) hs
      fun d' hd' => hsilent d' (List.mem_cons_of_mem _ hd'), flatten_cons, append_assoc]
    simp

/-- **The streamed split** is that of the whole text if no delta is misread. -/
theorem streamed_eq_unstreamed (P : DeepSeekR1ReasoningParser) (deltas : List (List TokenId))
    (h : P.Readable deltas.flatten) (hsplits : P.SplitsOnce deltas) :
    P.streamed [] deltas = P.unstreamed deltas.flatten := by
  rcases hsplits with ⟨hs, honce⟩ | ⟨before, delta, after, rfl, hs, hsilent, halone, hdelta⟩
  · rw [unstreamed_of_notMem h hs]
    refine h.streamed_eq_cut List.infix_rfl (fun hm => hs ?_) honce (.inr hs) fun he => nomatch he
    exact List.mem_flatten.mpr ⟨_, hm, List.mem_singleton_self _⟩
  have hflat : (before ++ delta :: after).flatten =
      before.flatten ++ (delta ++ after.flatten) := by simp
  rw [hflat] at h ⊢
  rw [h.streamed_silent (List.prefix_append _ _).isInfix hs hsilent, List.nil_append, streamed]
  rcases hdelta with ⟨rfl, honce, hquiet⟩ | ⟨a, b, rfl, ha, hea, hb, hn⟩
  · have hcut : P.streamed (before.flatten ++ [P.startTokenId]) after = P.cut after.flatten :=
      h.streamed_eq_cut ⟨before.flatten ++ [P.startTokenId], [], by simp⟩ halone honce (.inl (by simp))
        fun he => hquiet (by simpa [start_ne_end.symm] using he)
    rw [emitted_start, hcut]
    exact (unstreamed_of_start h hs).symm
  · have hinf : a ++ P.startTokenId :: b <:+: before.flatten ++
        (a ++ P.startTokenId :: b ++ after.flatten) := ⟨before.flatten, after.flatten, by simp⟩
    have hids : before.flatten ++ (a ++ P.startTokenId :: b ++ after.flatten) =
        (before.flatten ++ a) ++ P.startTokenId :: (b ++ after.flatten) := by simp
    rw [h.emitted_both hinf hs ha hea hb, streamed_of_ended (by simp [hb]) hn halone
      (.inl (by simp))]
    rw [hids] at h ⊢
    rw [unstreamed_of_start h (by simpa [ha] using hs)]
    obtain ⟨b, c, rfl, hnot⟩ := List.eq_append_cons_of_mem hb
    rw [cut_end hnot, List.append_assoc, List.cons_append, cut_end hnot]
    simp

/-- A parser for which the tokens from 2 on are letters. -/
def letterParser : DeepSeekR1ReasoningParser where
  startTokenId := 0
  endTokenId := 1
  tokenText token := if token = 0 then startToken else if token = 1 then endToken else ['a']
  tokenText_start := rfl
  tokenText_end := rfl

/-- The theorem on an output whose start token comes alone. -/
theorem streamed_eq_unstreamed_alone :
    letterParser.streamed [] [[0], [2, 1, 2]] = letterParser.unstreamed [0, 2, 1, 2] :=
  streamed_eq_unstreamed letterParser [[0], [2, 1, 2]] ⟨by decide +kernel, by decide +kernel⟩
    (.inr ⟨[], [0], [[2, 1, 2]], rfl, by decide, by decide, by decide,
      .inl ⟨rfl, by decide, fun he => nomatch he⟩⟩)

/-- **Not every delta is read right**: the start token stays in the reasoning if it comes with text. -/
theorem streamed_ne_unstreamed :
    ∃ (P : DeepSeekR1ReasoningParser) (deltas : List (List TokenId)),
      P.Readable deltas.flatten ∧ (∀ d ∈ deltas, d ≠ []) ∧
      P.streamed [] deltas = ("<think>a".toList, []) ∧
      P.unstreamed deltas.flatten = ("a".toList, []) ∧
      P.streamed [] deltas ≠ P.unstreamed deltas.flatten :=
  ⟨letterParser, [[0, 2]], ⟨by decide +kernel, by decide +kernel⟩, by decide, by decide +kernel,
    by decide +kernel, by decide +kernel⟩

end DeepSeekR1ReasoningParser

end InferenceServer.Frontend
