import InferenceServer.Sched.DraftTokens
import InferenceServer.Sched.Placement

/-!
# Grammar states

`update_from_output` advances the grammar of a request over all tokens that a result brings, or over
none of them. With a reasoning parser the output is constrained from some token on, and the request
learns that with the result that has the last token of the reasoning: the tokens of that result do not
advance the grammar. That is right if the reasoning ends with the last of them, which it does if a
step brings one token. If a step accepts drafts, the tokens after the end of the reasoning are lost
for the grammar, and it stays behind for good (`reasoningRun_behind`).

The flag of a request is asked for in two places: by `grammar_bitmask`, which looks at the prompt, and
by `should_advance`, which looks at all tokens. The first one comes first: a request is scheduled
before it has a result.

## Main results

* `follows_of_reach`, `reasoningRun_behind`
-/

namespace InferenceServer

open Outcome

/-! ## The condition and the property -/

/-- The tokens after the end of the reasoning section, which starts with `before` and goes on in
`tokens`. -/
def afterReasoning (isReasoningEnd : List TokenId → Bool) :
    List TokenId → List TokenId → List TokenId
  | before, tokens =>
    if isReasoningEnd before then tokens
    else
      match tokens with
      | [] => []
      | token :: tokens => afterReasoning isReasoningEnd (before ++ [token]) tokens
termination_by structural _ tokens => tokens

namespace StructuredOutputManager

variable {Q : Type} (S : StructuredOutputManager Q)

/-- The output tokens that are constrained by the grammar. -/
def constrainedTokens (r : Request) : List TokenId :=
  match S.reasoner with
  | none => r.outputTokenIds
  | some isReasoningEnd => afterReasoning isReasoningEnd r.promptTokenIds r.outputTokenIds

/-- The output of the request is known to be constrained. -/
def constrains (sr : StructuredOutputRequest Q) : Bool :=
  S.reasoner.isNone || sr.reasoningEnded == some true

end StructuredOutputManager

/-- **The grammar state follows the constrained tokens** of a request. -/
def StructuredEngine.Follows {Q : Type} (S : StructuredOutputManager Q) (s : StructuredEngine Q)
    (id : ReqId) : Prop :=
  (S.constrainedTokens (s.engine.sched.request id)).foldlM S.acceptToken (S.compileGrammar id) =
    some (S.record s.structured id).grammar.matcher.state

instance {Q : Type} [DecidableEq Q] (S : StructuredOutputManager Q) (s : StructuredEngine Q)
    (id : ReqId) : Decidable (s.Follows S id) := by
  unfold StructuredEngine.Follows
  infer_instance

/-- The requests with structured output that the next result is for. -/
def StructuredEngine.answered {Q : Type} (s : StructuredEngine Q) : List ReqId :=
  match s.engine.inFlight.head? with
  | none => []
  | some output => output.numScheduledTokens.keys.filter fun id =>
      decide (id ∈ s.engine.sched.requests) && (s.engine.sched.request id).useStructuredOutput

/-- Requests arrive under new identifiers. The model runner obeys the bitmask: for a request whose
output is constrained, it returns tokens that the grammar accepts. Once a request has drafts, every
result has new ones. -/
def ObeysBitmask {Q : Type} (S : StructuredOutputManager Q) (C : SchedulerConfig)
    (s : StructuredEngine Q) : EngineOp → Prop
  | .addRequest r => r.requestId ∉ s.engine.added
  | .updateFromOutput _ m => ∀ id ∈ s.answered,
      ((s.engine.sched.request id).specTokenIds ≠ [] → m.specTokenIds.isSome = true) ∧
      (S.constrains (S.record s.structured id) = true →
        ((s.engine.sched.newTokenIds C m id).foldlM S.acceptToken
          (S.record s.structured id).grammar.matcher.state).isSome = true)
  | _ => True

/-- **The condition**: besides, the reasoning of a request does not end before the last of the tokens
that a result adds to it. -/
def EndsReasoningLast {Q : Type} (S : StructuredOutputManager Q) (C : SchedulerConfig)
    (s : StructuredEngine Q) (op : EngineOp) : Prop :=
  ObeysBitmask S C s op ∧
    match op with
    | .updateFromOutput _ m => ∀ id ∈ s.answered, S.constrains (S.record s.structured id) = false →
        ∀ isReasoningEnd ∈ S.reasoner, afterReasoning isReasoningEnd
          (s.engine.sched.request id).allTokenIds (s.engine.sched.newTokenIds C m id) = []
    | _ => True

instance {Q : Type} (S : StructuredOutputManager Q) (C : SchedulerConfig)
    (s : StructuredEngine Q) (op : EngineOp) : Decidable (ObeysBitmask S C s op) := by
  refine op.casesOn ?_ ?_ ?_ ?_ <;> intros <;> unfold ObeysBitmask <;> infer_instance

instance {Q : Type} (S : StructuredOutputManager Q) (C : SchedulerConfig)
    (s : StructuredEngine Q) (op : EngineOp) : Decidable (EndsReasoningLast S C s op) := by
  refine op.casesOn ?_ ?_ ?_ ?_ <;> intros <;> unfold EndsReasoningLast <;> infer_instance

/-! ## The reasoning section -/

/-- Whether the reasoning section, which starts with `before`, ends within `tokens`. -/
def endsReasoning (isReasoningEnd : List TokenId → Bool) : List TokenId → List TokenId → Bool
  | before, [] => isReasoningEnd before
  | before, token :: tokens =>
    isReasoningEnd before || endsReasoning isReasoningEnd (before ++ [token]) tokens

section Reasoning

variable {isReasoningEnd : List TokenId → Bool} {before tokens new : List TokenId}

theorem afterReasoning_of_end (h : isReasoningEnd before = true) :
    afterReasoning isReasoningEnd before tokens = tokens := by
  unfold afterReasoning
  rw [if_pos h]

theorem afterReasoning_cons (h : isReasoningEnd before = false) (token : TokenId) :
    afterReasoning isReasoningEnd before (token :: tokens) =
      afterReasoning isReasoningEnd (before ++ [token]) tokens := by
  rw [afterReasoning, if_neg (by simp [h])]

theorem afterReasoning_nil : afterReasoning isReasoningEnd before [] = [] := by
  unfold afterReasoning
  split <;> rfl

/-- Once the reasoning has ended, further tokens are constrained. -/
theorem afterReasoning_append (h : endsReasoning isReasoningEnd before tokens = true) :
    afterReasoning isReasoningEnd before (tokens ++ new) =
      afterReasoning isReasoningEnd before tokens ++ new := by
  induction tokens generalizing before with
  | nil =>
    have hend : isReasoningEnd before = true := h
    rw [afterReasoning_of_end hend, afterReasoning_of_end hend]
  | cons token tokens ih =>
    cases hend : isReasoningEnd before with
    | true => rw [afterReasoning_of_end hend, afterReasoning_of_end hend]
    | false =>
      rw [endsReasoning, hend, Bool.false_or] at h
      rw [List.cons_append, afterReasoning_cons hend, afterReasoning_cons hend, ih h]

/-- Until then, none are, and the section goes on. -/
theorem afterReasoning_append_of_not (new : List TokenId)
    (h : endsReasoning isReasoningEnd before tokens = false) :
    afterReasoning isReasoningEnd before (tokens ++ new) =
        afterReasoning isReasoningEnd (before ++ tokens) new ∧
      endsReasoning isReasoningEnd before (tokens ++ new) =
        endsReasoning isReasoningEnd (before ++ tokens) new := by
  induction tokens generalizing before with
  | nil => simp
  | cons token tokens ih =>
    obtain ⟨hend, h⟩ := Bool.or_eq_false_iff.mp h
    obtain ⟨hafter, hends⟩ := ih h
    rw [List.cons_append, afterReasoning_cons hend, endsReasoning, hend, Bool.false_or, hafter, hends,
      List.append_assoc]
    exact ⟨rfl, rfl⟩

theorem endsReasoning_append (h : endsReasoning isReasoningEnd before tokens = true) :
    endsReasoning isReasoningEnd before (tokens ++ new) = true := by
  induction tokens generalizing before with
  | nil =>
    cases new with
    | nil => exact h
    | cons token new => exact Bool.or_eq_true_iff.mpr (.inl h)
  | cons token tokens ih =>
    rcases Bool.or_eq_true_iff.mp h with hend | h
    · exact Bool.or_eq_true_iff.mpr (.inl hend)
    · exact Bool.or_eq_true_iff.mpr (.inr (ih h))

theorem afterReasoning_of_not (h : endsReasoning isReasoningEnd before tokens = false) :
    afterReasoning isReasoningEnd before tokens = [] := by
  have happ := (afterReasoning_append_of_not [] h).1
  rwa [List.append_nil, afterReasoning_nil] at happ

theorem not_end_of_not (h : endsReasoning isReasoningEnd before tokens = false) :
    isReasoningEnd (before ++ tokens) = false := by
  have happ := (afterReasoning_append_of_not [] h).2
  rw [List.append_nil, h] at happ
  exact happ.symm

/-- If no token is constrained, the section ends with the last token or not at all. -/
theorem endsReasoning_of_afterReasoning (h : afterReasoning isReasoningEnd before tokens = []) :
    endsReasoning isReasoningEnd before tokens = isReasoningEnd (before ++ tokens) := by
  induction tokens generalizing before with
  | nil => rw [endsReasoning, List.append_nil]
  | cons token tokens ih =>
    cases hend : isReasoningEnd before with
    | true =>
      rw [afterReasoning_of_end hend] at h
      cases h
    | false =>
      rw [afterReasoning_cons hend] at h
      rw [endsReasoning, hend, Bool.false_or, ih h, List.append_assoc]
      rfl

end Reasoning

/-! ## Grammars -/

section Grammar

variable {Q : Type} {δ : Q → TokenId → Option Q} {g : XgrammarGrammar Q} {l : List TokenId} {q : Q}

/-- `accept_tokens` accepts tokens up to the first one that is rejected. -/
theorem XgrammarGrammar.acceptTokens_eq (g : XgrammarGrammar Q) (l : List TokenId) :
    g.acceptTokens δ l = (decide ((g.matcher.acceptAll δ l).1 = l),
      ⟨(g.matcher.acceptAll δ l).2, g.numProcessedTokens + (g.matcher.acceptAll δ l).1.length⟩) := by
  induction l generalizing g with
  | nil => simp [acceptTokens, UndoRun.acceptAll]
  | cons token tokens ih =>
    unfold acceptTokens UndoRun.acceptAll
    cases g.matcher.accept δ token with
    | none => simp
    | some matcher =>
      dsimp only
      rw [ih]
      simp [Int.add_assoc, Int.add_comm 1]

theorem XgrammarGrammar.acceptTokens_of_run (h : l.foldlM δ g.matcher.state = some q) :
    (g.acceptTokens δ l).1 = true ∧ (g.acceptTokens δ l).2.matcher.state = q := by
  obtain ⟨hall, hstate⟩ := UndoRun.acceptAll_of_run h
  rw [acceptTokens_eq]
  exact ⟨decide_eq_true hall, hstate⟩

/-- A token that is accepted can be taken back. -/
theorem XgrammarGrammar.rollback_acceptTokens {token : TokenId} (n : Nat)
    (h : (g.acceptTokens δ [token]).1 = true) :
    (g.acceptTokens δ [token]).2.rollback (n + 1) = g.rollback n := by
  unfold acceptTokens at h ⊢
  cases ha : g.matcher.accept δ token with
  | none => simp [ha] at h
  | some matcher =>
    change XgrammarGrammar.mk (matcher.rollback (n + 1)) (g.numProcessedTokens + 1 - (n + 1 : Nat)) = _
    rw [UndoRun.rollback_accept ha, Nat.cast_succ, add_sub_add_right_eq_sub]
    rfl

@[simp] theorem XgrammarGrammar.rollback_zero (g : XgrammarGrammar Q) : g.rollback 0 = g := by
  simp [rollback, UndoRun.rollback]

/-- **`validate_tokens` changes nothing**, and returns tokens that are accepted. -/
theorem XgrammarGrammar.validateTokens_ok (g : XgrammarGrammar Q) (l : List TokenId) :
    (g.validateTokens δ l).2 = g ∧
      ((g.validateTokens δ l).1.foldlM δ g.matcher.state).isSome = true := by
  have hback := UndoRun.rollback_acceptAll (δ := δ) g.matcher l
  refine ⟨?_, Option.isSome_of_eq_some (UndoRun.run_acceptAll g.matcher l)⟩
  unfold validateTokens
  dsimp only
  split
  next => rw [hback]
  next hlen =>
    rw [Nat.eq_zero_of_not_pos hlen] at hback
    rw [show (g.matcher.acceptAll δ l).2 = g.matcher from hback]

end Grammar

/-! ## The bitmask -/

namespace StructuredOutputManager

variable {Q : Type} {S : StructuredOutputManager Q} {sr : StructuredOutputRequest Q} {r r' : Request}
  {d : Dict ReqId (StructuredOutputRequest Q)} {id : ReqId}

theorem record_set (rid : ReqId) :
    S.record (d.set rid sr) id = if id = rid then sr else S.record d id := by
  unfold record
  rw [Dict.getD_set]

/-- If the bitmask does not apply, or the grammar is terminated, nothing happens. -/
theorem maskTokens_idle {applies : Bool} {g : XgrammarGrammar Q} {n : Nat}
    (h : ¬(applies = true ∧ S.isTerminated g.matcher.state = false))
    (tokens : List (Option TokenId)) :
    ∃ rows, S.maskTokens applies tokens g n = .ok (rows, g, n) := by
  induction tokens with
  | nil => exact ⟨[], rfl⟩
  | cons token tokens ih =>
    obtain ⟨rows, hrows⟩ := ih
    refine ⟨(fun _ => true) :: rows, ?_⟩
    rw [maskTokens, if_neg h, hrows]
    rfl

/-- **The drafts that the grammar accepts** are accepted one by one, and can be taken back. -/
theorem maskTokens_ok {applies : Bool} {g : XgrammarGrammar Q} {n : Nat} {drafts : List TokenId}
    (h : applies = true → (drafts.foldlM S.acceptToken g.matcher.state).isSome = true) :
    ∃ rows last n', S.maskTokens applies (drafts.map some ++ [none]) g n = .ok (rows, last, n') ∧
      last.rollback n' = g.rollback n := by
  induction drafts generalizing g n with
  | nil =>
    by_cases hc : applies = true ∧ S.isTerminated g.matcher.state = false
    · refine ⟨[S.fillBitmask g], g, n, ?_, rfl⟩
      rw [List.map_nil, List.nil_append, maskTokens, if_pos hc]
      rfl
    · obtain ⟨rows, hrows⟩ := maskTokens_idle (n := n) hc [none]
      exact ⟨rows, g, n, hrows, rfl⟩
  | cons token drafts ih =>
    by_cases hc : applies = true ∧ S.isTerminated g.matcher.state = false
    · obtain ⟨q, hq⟩ := Option.isSome_iff_exists.mp (h hc.1)
      rw [List.foldlM_cons] at hq
      obtain ⟨q', hq', hq⟩ := Option.bind_eq_some_iff.mp hq
      have hone : [token].foldlM S.acceptToken g.matcher.state = some q' := by
        rw [List.foldlM_cons, hq']
        rfl
      obtain ⟨hacc, hstate⟩ := XgrammarGrammar.acceptTokens_of_run hone
      obtain ⟨rows, last, n', hrows, hback⟩ :=
        ih (g := (g.acceptTokens S.acceptToken [token]).2) (n := n + 1) fun _ => by
          rw [hstate, hq]
          rfl
      refine ⟨S.fillBitmask g :: rows, last, n', ?_,
        hback.trans (XgrammarGrammar.rollback_acceptTokens n hacc)⟩
      have hadv : S.advanceDraft g n (some token) =
          .ok ((g.acceptTokens S.acceptToken [token]).2, n + 1) :=
        bind_eq_ok.mpr ⟨(), require_eq_ok.mpr hacc, rfl⟩
      rw [List.map_cons, List.cons_append, maskTokens, if_pos hc, hadv]
      change (S.maskTokens applies (drafts.map some ++ [none]) _ (n + 1) >>= _) = _
      rw [hrows]
      rfl
    · obtain ⟨rows, hrows⟩ := maskTokens_idle (n := n) hc ((token :: drafts).map some ++ [none])
      exact ⟨rows, g, n, hrows, rfl⟩

theorem applyBitmask_grammar (prompt : List TokenId) (sr : StructuredOutputRequest Q) :
    (S.applyBitmask prompt sr).2.grammar = sr.grammar := by
  unfold applyBitmask
  split <;> rfl

/-- The rows of a request are filled, and of its record only the flag may change. -/
theorem maskRequest_ok {prompt drafts : List TokenId}
    (h : (S.applyBitmask prompt sr).1 = true →
      (drafts.foldlM S.acceptToken sr.grammar.matcher.state).isSome = true) :
    ∃ rows, S.maskRequest prompt drafts sr = .ok (rows, (S.applyBitmask prompt sr).2) := by
  rw [← applyBitmask_grammar prompt sr] at h
  obtain ⟨rows, last, n, hrows, hback⟩ := maskTokens_ok (n := 0) h
  refine ⟨rows, ?_⟩
  rw [XgrammarGrammar.rollback_zero] at hback
  have hlast : (if 0 < n then last.rollback n else last) = (S.applyBitmask prompt sr).2.grammar := by
    split_ifs with hn
    · exact hback
    · rwa [Nat.eq_zero_of_not_pos hn, XgrammarGrammar.rollback_zero] at hback
  unfold maskRequest
  dsimp only
  rw [hrows]
  change Except.ok (rows, { (S.applyBitmask prompt sr).2 with
    grammar := if 0 < n then last.rollback n else last }) = _
  rw [hlast]

variable {s : Scheduler} {C : SchedulerConfig}

/-- **`grammar_bitmask` succeeds** if the grammars accept the drafts, and of the records only the flags
change, of those that have a position. -/
theorem grammarBitmask_ok {output : SchedulerOutput}
    (h : ∀ id ∈ output.structuredOutputRequestIds, id ∈ s.requests ∧
      ((S.applyBitmask (s.request id).promptTokenIds (S.record d id)).1 = true →
        ((output.scheduledSpecDecodeTokens.getD id []).foldlM S.acceptToken
          (S.record d id).grammar.matcher.state).isSome = true)) :
    ∃ rows d', S.grammarBitmask s output d = .ok (rows, d') ∧ ∀ id, S.record d' id =
      if id ∈ output.structuredOutputRequestIds then
        (S.applyBitmask (s.request id).promptTokenIds (S.record d id)).2
      else S.record d id := by
  unfold grammarBitmask
  split_ifs with hnil
  · refine ⟨none, d, rfl, fun id => (if_neg ?_).symm⟩
    rw [Dict.mem_iff, Dict.keys, hnil]
    exact List.not_mem_nil
  · dsimp only
    have hperm := List.perm_insertionSort (fun e e' : ReqId × Nat => e.2 ≤ e'.2)
      output.structuredOutputRequestIds.entries
    generalize hl : output.structuredOutputRequestIds.entries.insertionSort
      (fun e e' => e.2 ≤ e'.2) = l at hperm
    have hkeys : ∀ id, id ∈ output.structuredOutputRequestIds ↔ id ∈ l.map Prod.fst := fun id =>
      (hperm.map Prod.fst).mem_iff.symm
    have hnodup : (l.map Prod.fst).Nodup :=
      (hperm.map Prod.fst).nodup_iff.mpr output.structuredOutputRequestIds.nodup
    simp only [hkeys] at h ⊢
    clear hl hperm hkeys
    suffices hloop : ∃ rows d', mapThreadM (S.maskScheduled s output) l d = .ok (rows, d') ∧
        ∀ id, S.record d' id = if id ∈ l.map Prod.fst then
            (S.applyBitmask (s.request id).promptTokenIds (S.record d id)).2
          else S.record d id by
      obtain ⟨rows, d', hrows, hd'⟩ := hloop
      refine ⟨some rows.flatten, d', ?_, hd'⟩
      rw [hrows]
      rfl
    clear hnil
    induction l generalizing d with
    | nil => exact ⟨[], d, rfl, fun id => rfl⟩
    | cons e l ih =>
      obtain ⟨hnot, hnd⟩ := List.nodup_cons.mp hnodup
      obtain ⟨hmem, hrun⟩ := h e.1 List.mem_cons_self
      obtain ⟨rows, hrows⟩ := maskRequest_ok hrun
      let d₁ := d.set e.1 (S.applyBitmask (s.request e.1).promptTokenIds (S.record d e.1)).2
      have hfirst : S.maskScheduled s output e d = .ok (rows, d₁) :=
        bind_eq_ok.mpr ⟨(), require_eq_ok.mpr hmem, bind_eq_ok.mpr ⟨_, hrows, rfl⟩⟩
      have hother : ∀ id, id ≠ e.1 → S.record d₁ id = S.record d id := fun id hid =>
        (record_set e.1).trans (if_neg hid)
      obtain ⟨rest, d', hrest, hd'⟩ := ih (d := d₁) hnd fun id hid => by
        rw [hother id fun heq => hnot (heq ▸ hid)]
        exact h id (List.mem_cons_of_mem _ hid)
      refine ⟨rows :: rest, d', mapThreadM_cons_ok.mpr ⟨rows, d₁, rest, hfirst, hrest, rfl⟩,
        fun id => ?_⟩
      rw [hd']
      by_cases hid : id = e.1
      · subst hid
        rw [if_neg hnot, if_pos (by simp), record_set, if_pos rfl]
      · simp only [hother id hid, List.map_cons, List.mem_cons, hid, false_or]

/-! ## One request -/

/-- **The invariant** of a request with structured output, and its record: the grammar state, the
flag, and the drafts. As long as nobody has asked for the flag, there is no output. -/
structure Tracks (S : StructuredOutputManager Q) (id : ReqId) (r : Request)
    (sr : StructuredOutputRequest Q) : Prop where
  state : (S.constrainedTokens r).foldlM S.acceptToken (S.compileGrammar id) =
    some sr.grammar.matcher.state
  unasked : S.reasoner.isSome = true → sr.reasoningEnded = none →
    r.outputTokenIds = [] ∧ r.specTokenIds = []
  asked : ∀ isReasoningEnd, S.reasoner = some isReasoningEnd → ∀ ended,
    sr.reasoningEnded = some ended →
      endsReasoning isReasoningEnd r.promptTokenIds r.outputTokenIds = ended
  drafts : S.constrains sr = true →
    (r.specTokenIds.foldlM S.acceptToken sr.grammar.matcher.state).isSome = true

theorem constrainedTokens_congr (hprompt : r'.promptTokenIds = r.promptTokenIds)
    (hout : r'.outputTokenIds = r.outputTokenIds) :
    S.constrainedTokens r' = S.constrainedTokens r := by
  unfold constrainedTokens
  rw [hprompt, hout]

theorem constrainedTokens_of_nil (hout : r.outputTokenIds = []) : S.constrainedTokens r = [] := by
  unfold constrainedTokens
  rw [hout]
  split
  · rfl
  · exact afterReasoning_nil

theorem tracks_newRequest (id : ReqId) (hout : r.outputTokenIds = []) (hspec : r.specTokenIds = []) :
    S.Tracks id r (S.newRequest id) := by
  refine ⟨?_, fun _ _ => ⟨hout, hspec⟩, fun _ _ _ h => (by cases h), fun _ => ?_⟩
  · rw [constrainedTokens_of_nil hout]
    rfl
  · rw [hspec]
    rfl

/-- The scheduler may drop drafts. -/
theorem Tracks.reschedule (h : S.Tracks id r sr) (hprompt : r'.promptTokenIds = r.promptTokenIds)
    (hout : r'.outputTokenIds = r.outputTokenIds) (hspec : r'.specTokenIds <+: r.specTokenIds) :
    S.Tracks id r' sr := by
  refine ⟨?_, fun hS hnone => ?_, fun R hR ended hended => ?_, fun hc => ?_⟩
  · rw [constrainedTokens_congr hprompt hout]
    exact h.state
  · obtain ⟨hnil, hdrafts⟩ := h.unasked hS hnone
    rw [hdrafts] at hspec
    exact ⟨hout.trans hnil, List.prefix_nil.mp hspec⟩
  · rw [hprompt, hout]
    exact h.asked R hR ended hended
  · exact UndoRun.run_of_isPrefix hspec (h.drafts hc)

/-- If the bitmask applies, the grammar accepts the drafts. -/
theorem Tracks.of_applies (h : S.Tracks id r sr)
    (happlies : (S.applyBitmask r.promptTokenIds sr).1 = true) :
    (r.specTokenIds.foldlM S.acceptToken sr.grammar.matcher.state).isSome = true := by
  unfold applyBitmask at happlies
  split at happlies
  next hS => exact h.drafts (by simp [constrains, hS])
  next R hS =>
    cases hended : sr.reasoningEnded with
    | none =>
      rw [(h.unasked (by simp [hS]) hended).2]
      rfl
    | some ended =>
      rw [hended] at happlies
      exact h.drafts (by simpa [constrains, hS, hended] using happlies)

/-- The flag that `grammar_bitmask` sets is right: without output, the prompt decides. -/
theorem Tracks.mask (h : S.Tracks id r sr) :
    S.Tracks id r (S.applyBitmask r.promptTokenIds sr).2 := by
  have hgrammar := applyBitmask_grammar (S := S) r.promptTokenIds sr
  cases hS : S.reasoner with
  | none =>
    have hsame : (S.applyBitmask r.promptTokenIds sr).2 = sr := by
      rw [applyBitmask, hS]
    rw [hsame]
    exact h
  | some R =>
    have hflag : (S.applyBitmask r.promptTokenIds sr).2.reasoningEnded =
        some (S.applyBitmask r.promptTokenIds sr).1 := by
      rw [applyBitmask, hS]
    have hvalue : (S.applyBitmask r.promptTokenIds sr).1 =
        sr.reasoningEnded.getD (R r.promptTokenIds) := by
      rw [applyBitmask, hS]
    refine ⟨by rw [hgrammar]; exact h.state, fun _ hnone => ?_, fun R' hR' ended hended => ?_,
      fun hc => ?_⟩
    · rw [hflag] at hnone
      cases hnone
    · obtain rfl : R = R' := Option.some.inj (hS.symm.trans hR')
      rw [hflag] at hended
      rw [← Option.some.inj hended, hvalue]
      cases hwas : sr.reasoningEnded with
      | none =>
        rw [(h.unasked (by simp [hS]) hwas).1]
        rfl
      | some was => exact h.asked R hS was hwas
    · rw [hgrammar]
      exact h.of_applies (by simpa [constrains, hS, hflag] using hc)

theorem shouldAdvance_of_constrains (huse : r.useStructuredOutput = true)
    (h : S.constrains sr = true) : S.shouldAdvance r sr = (true, sr) := by
  unfold shouldAdvance
  rw [if_neg (by simp [huse])]
  split
  next => rfl
  next hS => rw [if_pos (by simpa [constrains, hS] using h)]

theorem shouldAdvance_of_not {R : List TokenId → Bool} (huse : r.useStructuredOutput = true)
    (hS : S.reasoner = some R) (h : sr.reasoningEnded = some false) :
    S.shouldAdvance r sr = (false, { sr with reasoningEnded := some (R r.allTokenIds) }) := by
  unfold shouldAdvance
  rw [if_neg (by simp [huse]), hS]
  dsimp only
  rw [if_neg (by simp [h])]
  cases hR : R r.allTokenIds with
  | true => rfl
  | false =>
    rw [← h]
    rfl

/-- **The new tokens of a request.** If its output is constrained, they are accepted. Else the reasoning
ends with the last of them, or not at all, and the grammar stays in its first state. -/
theorem Tracks.accept {new : List TokenId} (h : S.Tracks id r sr) (r' : Request)
    (sr' : StructuredOutputRequest Q)
    (haccept : sr' = S.acceptNewTokens r' new sr)
    (huse : r'.useStructuredOutput = true) (hprompt : r'.promptTokenIds = r.promptTokenIds)
    (hout : r'.outputTokenIds = r.outputTokenIds ++ new)
    (hasked : S.reasoner.isSome = true → sr.reasoningEnded ≠ none)
    (hrun : S.constrains sr = true →
      (new.foldlM S.acceptToken sr.grammar.matcher.state).isSome = true)
    (hlast : S.constrains sr = false → ∀ R, S.reasoner = some R →
      afterReasoning R r.allTokenIds new = []) :
    S.shouldAdvance r' sr' = (S.constrains sr', sr') ∧
      (S.reasoner.isSome = true → sr'.reasoningEnded ≠ none) ∧
      S.Tracks id { r' with specTokenIds := [] } sr' := by
  cases hc : S.constrains sr with
  | true =>
    obtain ⟨q, hq⟩ := Option.isSome_iff_exists.mp (hrun hc)
    have hadv := shouldAdvance_of_constrains huse hc
    have hstate : sr'.grammar.matcher.state = q := by
      rw [haccept]
      unfold acceptNewTokens
      split_ifs with hnil
      · rw [hnil] at hq
        exact Option.some.inj hq
      · rw [hadv]
        exact (XgrammarGrammar.acceptTokens_of_run hq).2
    have hflag : sr'.reasoningEnded = sr.reasoningEnded := by
      rw [haccept]
      unfold acceptNewTokens
      split_ifs with hnil
      · rfl
      · rw [hadv]
        rfl
    have hc' : S.constrains sr' = true := by
      unfold constrains at hc ⊢
      rw [hflag]
      exact hc
    have hends : ∀ R, S.reasoner = some R →
        endsReasoning R r.promptTokenIds r.outputTokenIds = true := fun R hR =>
      h.asked R hR true (by simpa [constrains, hR] using hc)
    have hstill : S.reasoner.isSome = true → sr'.reasoningEnded ≠ none := fun hS =>
      hflag ▸ hasked hS
    refine ⟨by rw [hc']; exact shouldAdvance_of_constrains huse hc', hstill, ?_,
      fun hS hnone => absurd hnone (hstill hS), fun R hR ended hended => ?_, fun _ => rfl⟩
    · have htokens : S.constrainedTokens { r' with specTokenIds := [] } =
          S.constrainedTokens r ++ new := by
        unfold constrainedTokens
        rw [hprompt, hout]
        split
        next => rfl
        next R hR => exact afterReasoning_append (hends R hR)
      rw [htokens, List.foldlM_append, h.state, hstate]
      exact hq
    · rw [hflag] at hended
      have hold := h.asked R hR ended hended
      rw [← hold, hends R hR]
      rw [hprompt, hout]
      exact endsReasoning_append (hends R hR)
  | false =>
    -- there is a reasoning parser, and the flag says that the section goes on
    obtain ⟨hsome, hflag⟩ := Bool.or_eq_false_iff.mp hc
    obtain ⟨R, hR⟩ : ∃ R, S.reasoner = some R :=
      Option.isSome_iff_exists.mp (by simpa using hsome)
    obtain ⟨ended, hended⟩ := Option.ne_none_iff_exists'.mp (hasked (by rw [hR]; rfl))
    obtain rfl : ended = false := by simpa [hended] using hflag
    have hends := h.asked R hR false hended
    have hnil := hlast hc R hR
    have hall : r'.allTokenIds = r.allTokenIds ++ new := by
      rw [Request.allTokenIds, Request.allTokenIds, hprompt, hout, List.append_assoc]
    have hadv := shouldAdvance_of_not huse hR hended
    obtain ⟨hafter, hends'⟩ := afterReasoning_append_of_not new hends
    have hlater : endsReasoning R r'.promptTokenIds r'.outputTokenIds = R r'.allTokenIds := by
      rw [hprompt, hout, hends', hall]
      exact endsReasoning_of_afterReasoning hnil
    have hsr' : sr' = { sr with reasoningEnded := some (R r'.allTokenIds) } := by
      rw [haccept]
      unfold acceptNewTokens
      split_ifs with hnew
      · have hno : R r'.allTokenIds = false := by
          rw [hall, hnew, List.append_nil]
          exact not_end_of_not hends
        rw [hno, ← hended]
      · rw [hadv]
        rfl
    have hc' : S.constrains sr' = R r'.allTokenIds := by
      rw [hsr']
      simp [constrains, hR]
    have hstill : sr'.reasoningEnded ≠ none := by
      rw [hsr']
      exact Option.some_ne_none _
    refine ⟨?_, fun _ => hstill, ?_, fun _ hnone => absurd hnone hstill,
      fun R' hR' ended hended' => ?_, fun _ => rfl⟩
    · rw [hc']
      cases hRall : R r'.allTokenIds with
      | true => exact shouldAdvance_of_constrains huse (hc'.trans hRall)
      | false =>
        have hfalse : sr'.reasoningEnded = some false := by rw [hsr', hRall]
        rw [shouldAdvance_of_not huse hR hfalse, hRall, ← hfalse]
    · have htokens : S.constrainedTokens { r' with specTokenIds := [] } = S.constrainedTokens r := by
        unfold constrainedTokens
        rw [hR]
        dsimp only
        rw [hprompt, hout, hafter, afterReasoning_of_not hends]
        exact hnil
      rw [htokens, hsr']
      exact h.state
    · obtain rfl : R = R' := Option.some.inj (hR.symm.trans hR')
      rw [hsr'] at hended'
      exact hlater.trans (Option.some.inj hended')

theorem shouldAdvance_congr (huse : r'.useStructuredOutput = r.useStructuredOutput)
    (hall : r'.allTokenIds = r.allTokenIds) : S.shouldAdvance r' sr = S.shouldAdvance r sr := by
  unfold shouldAdvance
  rw [huse, hall]

/-- **A result keeps the invariant** of a request that it is for. -/
theorem Tracks.receive {E : Environment} {m : ModelRunnerOutput}
    (h : S.Tracks id (s.request id) (S.record d id)) (hname : (s.request id).requestId = id)
    (huse : (s.request id).useStructuredOutput = true)
    (hrec : (s.request id).Receives (S.environment C s m d E) m id (s.newTokenIds C m id) r')
    (hasked : S.reasoner.isSome = true → (S.record d id).reasoningEnded ≠ none)
    (hdrafts : (s.request id).specTokenIds ≠ [] → m.specTokenIds.isSome = true)
    (hrun : S.constrains (S.record d id) = true → ((s.newTokenIds C m id).foldlM S.acceptToken
      (S.record d id).grammar.matcher.state).isSome = true)
    (hlast : S.constrains (S.record d id) = false → ∀ R, S.reasoner = some R →
      afterReasoning R (s.request id).allTokenIds (s.newTokenIds C m id) = []) :
    S.Tracks id r' (S.updateRecord C s m d id) ∧
      (S.reasoner.isSome = true → (S.updateRecord C s m d id).reasoningEnded ≠ none) := by
  have huse' : (s.requestAfter C m id).useStructuredOutput = true := huse
  obtain ⟨hanswer, hstill, htracks⟩ := h.accept (s.requestAfter C m id)
    (S.accepted C s m d id) rfl huse' rfl rfl hasked hrun hlast
  have hvalid := XgrammarGrammar.validateTokens_ok (δ := S.acceptToken)
    (S.accepted C s m d id).grammar
  -- the second question and the drafts change no record
  have hsame : S.updateRecord C s m d id = S.accepted C s m d id := by
    unfold updateRecord
    split
    next => rfl
    next drafts _ =>
      unfold validateDrafts
      rw [hanswer]
      dsimp only
      split_ifs
      · dsimp only
        rw [(hvalid drafts).1]
      · rfl
  have hprompt : r'.promptTokenIds = (s.request id).promptTokenIds := hrec.sameInputs.promptTokenIds
  rw [hsame]
  refine ⟨⟨?_, fun hS hnone => absurd hnone (hstill hS), fun R hR ended hended => ?_, fun hc => ?_⟩,
    hstill⟩
  · rw [← htracks.state]
    exact congrArg (List.foldlM S.acceptToken _) (constrainedTokens_congr hprompt hrec.outputTokenIds)
  · rw [hprompt, hrec.outputTokenIds]
    exact htracks.asked R hR ended hended
  · cases hspec : m.specTokenIds with
    | none =>
      rw [hrec.kept hspec]
      have hnil : (s.request id).specTokenIds = [] := by
        by_contra hne
        have hsome := hdrafts hne
        rw [hspec] at hsome
        cases hsome
      rw [hnil]
      rfl
    | some l =>
      obtain ⟨drafts, asked, hd, hinputs, hout, hnew⟩ := hrec.drafts (by rw [hspec]; rfl)
      have hask : (S.environment C s m d E).shouldAdvance asked = true := by
        change (S.shouldAdvance asked (S.accepted C s m d asked.requestId)).1 = true
        have hall : asked.allTokenIds = (s.requestAfter C m id).allTokenIds := by
          rw [Request.allTokenIds, hinputs.promptTokenIds, hout]
          rfl
        rw [hinputs.requestId, hname, shouldAdvance_congr (r := s.requestAfter C m id)
          hinputs.useStructuredOutput hall, hanswer]
        exact hc
      have huse'' : asked.useStructuredOutput = true := hinputs.useStructuredOutput.trans huse
      have hvalidated : (S.environment C s m d E).validateTokens id drafts =
          ((S.accepted C s m d id).grammar.validateTokens S.acceptToken drafts).1 := by
        change (S.validateDrafts _ drafts (S.accepted C s m d id)).1 = _
        unfold validateDrafts
        rw [hanswer]
        dsimp only
        rw [if_pos hc]
      rw [hnew, if_pos ⟨huse'', hask⟩, hvalidated]
      exact (hvalid drafts).2

/-- The record of a request after a result depends on its record before. -/
theorem updateRecord_congr {m : ModelRunnerOutput}
    {d' : Dict ReqId (StructuredOutputRequest Q)} (h : S.record d' id = S.record d id) :
    S.updateRecord C s m d' id = S.updateRecord C s m d id := by
  unfold updateRecord accepted
  rw [h]

/-- The records after a result. -/
theorem record_updateFromOutput (s : Scheduler) (output : SchedulerOutput)
    (m : ModelRunnerOutput) (id : ReqId) :
    S.record (S.updateFromOutput C s output m d) id =
      if id ∈ output.numScheduledTokens.keys ∧ id ∈ s.requests then S.updateRecord C s m d id
      else S.record d id := by
  have hloop : ∀ l : List ReqId, l.Nodup → ∀ d, S.record (l.foldl
      (fun d id => d.set id (S.updateRecord C s m d id)) d) id =
        if id ∈ l then S.updateRecord C s m d id else S.record d id := by
    intro l
    induction l with
    | nil => intro _ d; rfl
    | cons rid l ih =>
      intro hn d
      obtain ⟨hnot, hnd⟩ := List.nodup_cons.mp hn
      rw [List.foldl_cons, ih hnd]
      by_cases hid : id = rid
      · subst hid
        rw [if_neg hnot, if_pos List.mem_cons_self, record_set, if_pos rfl]
      · have hsame : S.record (d.set rid (S.updateRecord C s m d rid)) id = S.record d id :=
          (record_set rid).trans (if_neg hid)
        rw [hsame, updateRecord_congr hsame]
        simp [hid]
  unfold updateFromOutput
  rw [hloop _ (output.numScheduledTokens.keys_nodup.filter _)]
  simp only [List.mem_filter, decide_eq_true_eq]

end StructuredOutputManager

/-! ## Runs -/

section Runs

variable {Q : Type} {S : StructuredOutputManager Q} {H : BlockHasher} {C : SchedulerConfig}
  {s s' : StructuredEngine Q} {s₀ : Scheduler} {id : ReqId}

/-- **The invariant**: the requests with structured output, and which of them the results in flight
are for. -/
structure StructuredEngine.Tracked (S : StructuredOutputManager Q) (s : StructuredEngine Q) :
    Prop where
  placed : s.engine.Placed
  known : ∀ output ∈ s.engine.inFlight, ∀ id ∈ output.numScheduledTokens, id ∈ s.engine.added
  tracks : ∀ id ∈ s.engine.added, (s.engine.sched.request id).useStructuredOutput = true →
    S.Tracks id (s.engine.sched.request id) (S.record s.structured id)
  unasked : ∀ id, (s.engine.sched.request id).useStructuredOutput = true →
    S.reasoner.isSome = true → (S.record s.structured id).reasoningEnded = none →
      ∀ output ∈ s.engine.inFlight, id ∉ output.numScheduledTokens

theorem StructuredEngine.tracked_init (hinit : Scheduler.init C = .ok s₀) :
    StructuredEngine.Tracked S { engine := { sched := s₀ } } :=
  ⟨Engine.placed_init hinit, fun _ h => absurd h List.not_mem_nil,
    fun _ h => absurd h List.not_mem_nil, fun _ _ _ _ _ h => absurd h List.not_mem_nil⟩

variable {E : Environment}

variable (h : s.Tracked S)

include h

/-- **`grammar_bitmask` succeeds on the output of every step**, and changes no grammar. -/
theorem StructuredEngine.Tracked.bitmask {output : SchedulerOutput} {sched : Scheduler}
    (hsched : s.engine.sched.schedule H C E = .ok (output, sched)) :
    ∃ rows d, S.grammarBitmask sched output s.structured = .ok (rows, d) ∧ ∀ id,
      S.record d id = if id ∈ output.structuredOutputRequestIds then
        (S.applyBitmask (sched.request id).promptTokenIds (S.record s.structured id)).2
      else S.record s.structured id := by
  obtain ⟨hplaces, hledger, hobj, hreq⟩ :=
    schedule_places h.placed.places h.placed.accounts.mem_objects hsched
  obtain ⟨-, hspec, -, hmem, hpos, hdrafts⟩ := schedule_handsOut h.placed.places.nodupR hsched
  refine StructuredOutputManager.grammarBitmask_ok fun id hid => ?_
  obtain ⟨hnum, huse⟩ := hpos id hid
  have hid' : id ∈ sched.requests := hmem id hnum
  have hrequests : sched.requests = s.engine.sched.requests :=
    congrArg Scheduler.Ledger.requests hledger
  have hadded : id ∈ s.engine.added := (h.placed.added id).mp
    (h.placed.accounts.mem_objects id (hrequests ▸ hid'))
  refine ⟨hid', fun happlies => ?_⟩
  rw [(hreq id).promptTokenIds] at happlies
  exact UndoRun.run_of_isPrefix ((hdrafts id).trans (hspec id))
    ((h.tracks id hadded huse).of_applies happlies)

theorem StructuredEngine.Tracked.addRequest {r : Request} (hnew : r.requestId ∉ s.engine.added)
    (hstep : s.step S H C (.addRequest r) = .ok s') : s'.Tracked S := by
  obtain ⟨engine, hengine, hstep⟩ := bind_eq_ok.mp hstep
  cases hstep
  have hfresh : FreshIds s.engine (.addRequest r) := hnew
  have hplaced := h.placed.step hfresh hengine
  obtain ⟨sched, hadd, rfl⟩ := Engine.step_addRequest hengine
  have hrequest : ∀ id, sched.request id =
      if id = r.requestId then r.new else s.engine.sched.request id := fun id =>
    (addRequest_ok hadd).request id
  refine ⟨hplaced, fun output hin id hid => List.mem_append_left _ (h.known output hin id hid),
    fun id hid huse => ?_, fun id huse hS hnone output hin hid => ?_⟩
  · dsimp only at hid huse ⊢
    rw [hrequest] at huse ⊢
    rw [StructuredOutputManager.record_set]
    by_cases heq : id = r.requestId
    · rw [if_pos heq, if_pos heq, heq]
      exact StructuredOutputManager.tracks_newRequest _ rfl rfl
    · rw [if_neg heq] at huse
      rw [if_neg heq, if_neg heq]
      exact h.tracks id (by simpa [heq] using hid) huse
  · dsimp only at huse hin hnone
    have hknown := h.known output hin id hid
    have heq : id ≠ r.requestId := fun heq => hnew (heq ▸ hknown)
    rw [hrequest, if_neg heq] at huse
    rw [StructuredOutputManager.record_set, if_neg heq] at hnone
    exact h.unasked id huse hS hnone output hin hid

theorem StructuredEngine.Tracked.schedule (hstep : s.step S H C (.schedule E) = .ok s') :
    s'.Tracked S := by
  obtain ⟨⟨output, sched⟩, hsched, hstep⟩ := bind_eq_ok.mp hstep
  obtain ⟨⟨rows, d⟩, hmask, hstep⟩ := bind_eq_ok.mp hstep
  cases hstep
  have hengine : s.engine.step H C (.schedule E) =
      .ok { s.engine with sched, inFlight := s.engine.inFlight ++ [output] } :=
    bind_eq_ok.mpr ⟨(output, sched), hsched, rfl⟩
  have hfresh : FreshIds s.engine (.schedule E) := trivial
  have hplaced := h.placed.step hfresh hengine
  obtain ⟨hplaces, hledger, hobj, hreq⟩ :=
    schedule_places h.placed.places h.placed.accounts.mem_objects hsched
  obtain ⟨hinputs, hspec, hposition, hmem, hpos, -⟩ :=
    schedule_handsOut h.placed.places.nodupR hsched
  obtain ⟨rows', d', hmask', hrecord⟩ := h.bitmask hsched
  obtain ⟨-, rfl⟩ := Prod.mk.inj (Except.ok.inj (hmask'.symm.trans hmask))
  have huses : ∀ id, (sched.request id).useStructuredOutput =
      (s.engine.sched.request id).useStructuredOutput := fun id => (hinputs id).useStructuredOutput
  refine ⟨hplaced, fun output' hin id hid => ?_, fun id hid huse => ?_,
    fun id huse hS hnone output' hin hid => ?_⟩
  · rcases List.mem_append.mp hin with hin | hin
    · exact h.known output' hin id hid
    · obtain rfl := List.mem_singleton.mp hin
      have hrequests : sched.requests = s.engine.sched.requests :=
        congrArg Scheduler.Ledger.requests hledger
      exact (h.placed.added id).mp
        (h.placed.accounts.mem_objects id (hrequests ▸ hmem id hid))
  · dsimp only at hid huse ⊢
    rw [huses] at huse
    have htracks := (h.tracks id hid huse).reschedule (hreq id).promptTokenIds
      (hreq id).outputTokenIds (hspec id)
    rw [hrecord]
    split_ifs
    · exact htracks.mask
    · exact htracks
  · dsimp only at huse hnone hin
    rw [huses] at huse
    rw [hrecord] at hnone
    have hnot : id ∉ output.structuredOutputRequestIds := by
      intro hmasked
      rw [if_pos hmasked, StructuredOutputManager.applyBitmask] at hnone
      split at hnone
      next hR => simp [hR] at hS
      next => cases hnone
    rw [if_neg hnot] at hnone
    rcases List.mem_append.mp hin with hin | hin
    · exact h.unasked id huse hS hnone output' hin hid
    · obtain rfl := List.mem_singleton.mp hin
      exact hnot (hposition id hid huse)

theorem StructuredEngine.Tracked.updateFromOutput {m : ModelRunnerOutput}
    (hok : EndsReasoningLast S C s (.updateFromOutput E m))
    (hstep : s.step S H C (.updateFromOutput E m) = .ok s') : s'.Tracked S := by
  obtain ⟨engine, hengine, hstep⟩ := bind_eq_ok.mp hstep
  cases hstep
  have hfresh : FreshIds s.engine
    (.updateFromOutput (S.environment C s.engine.sched m s.structured E) m) := trivial
  have hplaced := h.placed.step hfresh hengine
  obtain ⟨output, inFlight, outputs, sched, hin, hup, rfl⟩ :=
    Engine.step_updateFromOutput hengine
  have hhead : output ∈ s.engine.inFlight := by simp [hin]
  have hlater : ∀ output' ∈ inFlight, output' ∈ s.engine.inFlight := fun output' h => by
    simp [hin, h]
  obtain ⟨hinputs, -⟩ := updateFromOutput_sameInputs hup
  have huses : ∀ id, (sched.request id).useStructuredOutput =
      (s.engine.sched.request id).useStructuredOutput := fun id => (hinputs id).useStructuredOutput
  have hrecord := fun id => StructuredOutputManager.record_updateFromOutput (S := S) (C := C)
    (d := s.structured) s.engine.sched output m id
  -- every request that receives tokens keeps the invariant, and its flag stays asked for
  have hreceive : ∀ id ∈ output.numScheduledTokens.keys, id ∈ s.engine.sched.requests →
      (s.engine.sched.request id).useStructuredOutput = true →
      S.Tracks id (sched.request id) (S.updateRecord C s.engine.sched m s.structured id) ∧
        (S.reasoner.isSome = true →
          (S.updateRecord C s.engine.sched m s.structured id).reasoningEnded ≠ none) := by
    intro id hkey hmem huse
    have hadded := h.known output hhead id hkey
    have hanswered : id ∈ s.answered := by
      unfold StructuredEngine.answered
      rw [hin]
      simp [hkey, hmem, huse]
    obtain ⟨hdrafts, hrun⟩ := hok.1 id hanswered
    refine (h.tracks id hadded huse).receive
      (h.placed.places.named id (h.placed.accounts.mem_objects id hmem)) huse
      ((updateFromOutput_request hup id).1 hkey hmem) (fun hS hnone => ?_) hdrafts hrun
      fun hc R hR => hok.2 id hanswered hc R hR
    exact h.unasked id huse hS hnone output hhead hkey
  refine ⟨hplaced, fun output' hin' => h.known output' (hlater output' hin'), fun id hid huse => ?_,
    fun id huse hS hnone output' hin' hid => ?_⟩
  · dsimp only at hid huse ⊢
    rw [huses] at huse
    rw [hin]
    dsimp only [List.head?_cons]
    rw [hrecord]
    split_ifs with hvisited
    · exact (hreceive id hvisited.1 hvisited.2 huse).1
    · rw [(updateFromOutput_request hup id).2 (not_and_or.mp hvisited)]
      exact h.tracks id hid huse
  · dsimp only at huse hnone hin'
    rw [huses] at huse
    rw [hin] at hnone
    dsimp only [List.head?_cons] at hnone
    rw [hrecord] at hnone
    split_ifs at hnone with hvisited
    · exact (hreceive id hvisited.1 hvisited.2 huse).2 hS hnone
    · exact h.unasked id huse hS hnone output' (hlater output' hin') hid

theorem StructuredEngine.Tracked.finishRequests {ids : List ReqId}
    {status : RequestStatus}
    (hstep : s.step S H C (.finishRequests E ids status) = .ok s') : s'.Tracked S := by
  obtain ⟨engine, hengine, hstep⟩ := bind_eq_ok.mp hstep
  cases hstep
  have hfresh : FreshIds s.engine (.finishRequests E ids status) := trivial
  have hplaced := h.placed.step hfresh hengine
  obtain ⟨sched, hfin, rfl⟩ := Engine.step_finishRequests hengine
  obtain ⟨hinputs, -⟩ := finishRequests_sameInputs h.placed.places.nodupR hfin
  have hsame := finishRequests_tokens h.placed.places.nodupR hfin
  refine ⟨hplaced, h.known, fun id hid huse => ?_, fun id huse => ?_⟩
  · exact (h.tracks id hid ((hinputs id).useStructuredOutput ▸ huse)).reschedule
      (hinputs id).promptTokenIds (hsame id).1 ((hsame id).2 ▸ List.prefix_rfl)
  · exact h.unasked id ((hinputs id).useStructuredOutput ▸ huse)

/-- **Every call that meets the condition keeps the invariant.** -/
theorem StructuredEngine.Tracked.step {op : EngineOp}
    (hok : EndsReasoningLast S C s op) (hstep : s.step S H C op = .ok s') : s'.Tracked S := by
  cases op with
  | addRequest r => exact h.addRequest hok.1 hstep
  | schedule E => exact h.schedule hstep
  | updateFromOutput E m => exact h.updateFromOutput hok hstep
  | finishRequests E ids status => exact h.finishRequests hstep

omit h

/-- **The grammar follows the constrained tokens.** In every run that meets the condition, the grammar
state of a request is the run over its output tokens after the end of the reasoning. On the output of
any further step, `grammar_bitmask` does not fail and changes no grammar. -/
theorem follows_of_reach (hinit : Scheduler.init C = .ok s₀)
    (hs : (structuredMachine S H C s₀).Reach (EndsReasoningLast S C) s) :
    (∀ id ∈ s.engine.added, (s.engine.sched.request id).useStructuredOutput = true →
      s.Follows S id) ∧
    ∀ E output sched, s.engine.sched.schedule H C E = .ok (output, sched) →
      ∃ rows d, S.grammarBitmask sched output s.structured = .ok (rows, d) ∧
        ∀ id, (S.record d id).grammar = (S.record s.structured id).grammar := by
  have h : s.Tracked S := hs.invariant (StructuredEngine.tracked_init hinit)
    fun _ _ _ hI hok hstep => hI.step hok hstep
  refine ⟨fun id hid huse => (h.tracks id hid huse).state, fun E output sched hsched => ?_⟩
  obtain ⟨rows, d, hmask, hrecord⟩ := h.bitmask hsched
  refine ⟨rows, d, hmask, fun id => ?_⟩
  rw [hrecord]
  split_ifs
  · exact StructuredOutputManager.applyBitmask_grammar _ _
  · rfl

/-- A grammar that accepts the tokens 20, 21, 22, …, after a reasoning section that 9 ends. -/
def countingGrammar : StructuredOutputManager Nat where
  acceptToken q token := if token = 20 + q then some (q + 1) else none
  compileGrammar _ := 0
  reasoner := some fun tokens => decide (9 ∈ tokens)

/-- The state after a list of calls on a new scheduler. -/
def runStructured {Q : Type} (S : StructuredOutputManager Q) (H : BlockHasher) (C : SchedulerConfig)
    (ok : StructuredEngine Q → EngineOp → Prop) [∀ s op, Decidable (ok s op)] (ops : List EngineOp) :
    Option (StructuredEngine Q) :=
  match Scheduler.init C with
  | .ok s₀ => (structuredMachine S H C s₀).execIf ok ops { engine := { sched := s₀ } }
  | .error _ => none

/-- A request whose reasoning ends with an accepted draft. -/
def reasoningRun (last : List TokenId) : List EngineOp :=
  [.addRequest { requestId := 1, promptTokenIds := [1, 2],
                 samplingParams := some { maxTokens := 16, guidedDecoding := true } },
   .schedule {}, .updateFromOutput {} { sampled [(1, [5])] with specTokenIds := some [[9]] },
   .schedule {}, .updateFromOutput {} { sampled [(1, last)] with specTokenIds := some [[20]] }]

theorem exists_runStructured {Q : Type} (S : StructuredOutputManager Q) (H : BlockHasher)
    (C : SchedulerConfig) (ok : StructuredEngine Q → EngineOp → Prop) [∀ s op, Decidable (ok s op)]
    (ops : List EngineOp) (p : StructuredEngine Q → Prop) [DecidablePred p]
    (h : ((runStructured S H C ok ops).any fun s => decide (p s)) = true) :
    ∃ s₀ s, Scheduler.init C = .ok s₀ ∧ (structuredMachine S H C s₀).Reach ok s ∧ p s := by
  obtain ⟨s, hs, hp⟩ := (Option.any_eq_true ..).mp h
  unfold runStructured at hs
  cases hinit : Scheduler.init C with
  | error e => simp [hinit] at hs
  | ok s₀ =>
    simp only [hinit] at hs
    exact ⟨s₀, s, rfl, Machine.reach_execIf .start hs, of_decide_eq_true hp⟩

/-- The theorem on a run in which the reasoning ends with an accepted draft, and the next step brings
two tokens of the grammar. -/
theorem follows_reasoningRun :
    ∃ (s₀ : Scheduler) (s : StructuredEngine Nat),
      (structuredMachine countingGrammar .encoding (pairConfig 8 16) s₀).Reach
        (EndsReasoningLast countingGrammar (pairConfig 8 16)) s ∧
      (s.engine.sched.request 1).outputTokenIds = [5, 9, 20, 21] ∧
      (countingGrammar.record s.structured 1).grammar.matcher.state = 2 ∧
      s.Follows countingGrammar 1 := by
  obtain ⟨s₀, s, hinit, hreach, hadded, huse, htokens, hstate⟩ := exists_runStructured
    countingGrammar .encoding (pairConfig 8 16)
    (EndsReasoningLast countingGrammar (pairConfig 8 16)) (reasoningRun [9] ++ [.schedule {},
      .updateFromOutput {} { sampled [(1, [20, 21])] with specTokenIds := some [[]] }])
    (fun s => 1 ∈ s.engine.added ∧ (s.engine.sched.request 1).useStructuredOutput = true ∧
      (s.engine.sched.request 1).outputTokenIds = [5, 9, 20, 21] ∧
      (countingGrammar.record s.structured 1).grammar.matcher.state = 2) (by decide +kernel)
  exact ⟨s₀, s, hreach, htokens, hstate, (follows_of_reach hinit hreach).1 1 hadded huse⟩

/-- **Without the condition**, the token after the end of the reasoning is lost for the grammar. -/
theorem reasoningRun_behind :
    ∃ (Q : Type) (S : StructuredOutputManager Q) (H : BlockHasher) (C : SchedulerConfig)
      (s₀ : Scheduler) (s : StructuredEngine Q), Scheduler.init C = .ok s₀ ∧
      (structuredMachine S H C s₀).Reach (ObeysBitmask S C) s ∧ 1 ∈ s.engine.added ∧
      (s.engine.sched.request 1).useStructuredOutput = true ∧
      S.constrainedTokens (s.engine.sched.request 1) = [20] ∧
      (S.record s.structured 1).grammar.matcher.state = S.compileGrammar 1 ∧
      ¬s.Follows S 1 := by
  obtain ⟨s₀, s, hinit, hreach, hadded, huse, htokens, hstate, hnot⟩ := exists_runStructured
    countingGrammar .encoding (pairConfig 8 16) (ObeysBitmask countingGrammar (pairConfig 8 16))
    (reasoningRun [9, 20]) (fun s => 1 ∈ s.engine.added ∧
      (s.engine.sched.request 1).useStructuredOutput = true ∧
      countingGrammar.constrainedTokens (s.engine.sched.request 1) = [20] ∧
      (countingGrammar.record s.structured 1).grammar.matcher.state =
        countingGrammar.compileGrammar 1 ∧
      ¬s.Follows countingGrammar 1) (by decide +kernel)
  exact ⟨Nat, countingGrammar, .encoding, pairConfig 8 16, s₀, s, hinit, hreach, hadded, huse,
    htokens, hstate, hnot⟩

end Runs

end InferenceServer
