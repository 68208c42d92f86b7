import InferenceServer.Lib.Borders
import InferenceServer.SpecDecode.Memory

/-!
# Drafts from the context

`NgramProposer` (`vllm/v1/spec_decode/ngram_proposer.py`) drafts the tokens that followed an earlier
occurrence of the last tokens of the context. It tries the last `n` tokens for every `n` from `max_n`
down to `min_n`, and for each it searches the context before them with the algorithm of Knuth, Morris
and Pratt: a table of longest borders, and one pass over the context.

The loops of the source are given fuel. Both go on with the next position or with a shorter border, so
that twice the length is enough.

## Main results

* `kmpLpsArray_ok`, `findSubarrayKmp_ok`, `NgramProposer.propose_eq_naive`
-/

namespace InferenceServer.SpecDecode

open Outcome Borders

/-- The loop of `_kmp_lps_array`. -/
def lpsLoop (pattern : List TokenId) : Nat → List Nat → Nat → Nat → Except PyError (List Nat)
  | 0, _, _, _ => .error .outOfFuel
  | fuel + 1, lps, prevLps, i =>
    if i < pattern.length then do
      let token ← load pattern i
      let next ← load pattern prevLps
      if token = next then lpsLoop pattern fuel (lps.set i (prevLps + 1)) (prevLps + 1) (i + 1)
      else if prevLps ≠ 0 then do
        let shorter ← load lps (prevLps - 1)
        lpsLoop pattern fuel lps shorter i
      else lpsLoop pattern fuel (lps.set i 0) prevLps (i + 1)
    else .ok lps

/-- `_kmp_lps_array`. -/
def kmpLpsArray (pattern : List TokenId) : Except PyError (List Nat) :=
  lpsLoop pattern (2 * pattern.length + 1) (List.replicate pattern.length 0) 0 1

/-- The loop of `_find_subarray_kmp`. -/
def searchLoop (context pattern : List TokenId) (lps : List Nat) (n : Nat) (k : Int) :
    Nat → Nat → Nat → Except PyError (Option (List TokenId))
  | 0, _, _ => .error .outOfFuel
  | fuel + 1, i, j =>
    if (i : Int) < context.length - n then do
      let token ← load context i
      let next ← load pattern j
      if token = next then
        if j + 1 = n then .ok (some (pySlice context (i + 1 : Nat) ((i + 1 : Nat) + k)))
        else searchLoop context pattern lps n k fuel (i + 1) (j + 1)
      else if j ≠ 0 then do
        let shorter ← load lps (j - 1)
        searchLoop context pattern lps n k fuel i shorter
      else searchLoop context pattern lps n k fuel (i + 1) j
    else .ok none

/-- `_find_subarray_kmp`. -/
def findSubarrayKmp (contextTokenIds : List TokenId) (n : Nat) (k : Int) :
    Except PyError (Option (List TokenId)) := do
  require (0 < n) (PyError.assertionError .findSubarrayKmp)
  let pattern := pySlice contextTokenIds (-n) contextTokenIds.length
  let lps ← kmpLpsArray pattern
  searchLoop contextTokenIds pattern lps n k (2 * contextTokenIds.length + 1) 0 0

/-- The parameters of `NgramProposer`. -/
structure NgramProposer where
  minN : Nat
  maxN : Nat
  k : Int
  maxModelLen : Int

namespace NgramProposer

/-- The loop of `propose` over the values of `n`. -/
def proposeLoop (contextTokenIds : List TokenId) (k : Int) :
    List Nat → Except PyError (Option (List TokenId))
  | [] => .ok none
  | n :: ns => do
    match ← findSubarrayKmp contextTokenIds n k with
    | some result => return some result
    | none => proposeLoop contextTokenIds k ns

/-- The number of tokens that are proposed at most. -/
def draftLength (P : NgramProposer) (contextTokenIds : List TokenId) : Int :=
  min P.k (P.maxModelLen - contextTokenIds.length)

/-- `propose`. -/
def propose (P : NgramProposer) (contextTokenIds : List TokenId) :
    Except PyError (Option (List TokenId)) :=
  let k := P.draftLength contextTokenIds
  if k ≤ 0 then .ok none
  else proposeLoop contextTokenIds k (List.range' P.minN (P.maxN + 1 - P.minN)).reverse

end NgramProposer

/-! ## The table of borders -/

section Table

variable {pattern : List TokenId} {lps : List Nat} {m : Nat}

/-- The table has the longest borders of the prefixes up to length `m`. -/
def LongestBorders (pattern : List TokenId) (lps : List Nat) (m : Nat) : Prop :=
  ∀ q < m, q < pattern.length →
    ∃ b, lps[q]? = some b ∧ IsGreatest (borders (fun i => pattern[i]?) (q + 1)) b

theorem LongestBorders.set {b : Nat} (h : LongestBorders pattern lps m)
    (hlen : lps.length = pattern.length)
    (hb : IsGreatest (borders (fun i => pattern[i]?) (m + 1)) b) :
    LongestBorders pattern (lps.set m b) (m + 1) := by
  intro q hq hqlen
  rcases Nat.lt_succ_iff_lt_or_eq.mp hq with hq | rfl
  · obtain ⟨c, hc, hgreatest⟩ := h q hq hqlen
    exact ⟨c, by rw [List.getElem?_set_ne (by omega), hc], hgreatest⟩
  · exact ⟨b, by rw [List.getElem?_set_self (by omega)], hb⟩

theorem lpsLoop_ok {fuel i prevLps : Nat} (hlen : lps.length = pattern.length)
    (htable : LongestBorders pattern lps i)
    (hborder : i < pattern.length → Extending (fun i => pattern[i]?) i prevLps)
    (hfuel : 2 * (pattern.length - i) + prevLps < fuel) :
    ∃ lps', lpsLoop pattern fuel lps prevLps i = .ok lps' ∧
      LongestBorders pattern lps' pattern.length := by
  induction fuel generalizing lps i prevLps with
  | zero => omega
  | succ fuel ih =>
    unfold lpsLoop
    by_cases hi : i < pattern.length
    · rw [if_pos hi]
      have hext := hborder hi
      have hprev : prevLps < i := hext.border.1
      have htoken : pattern[i]? = some pattern[i] := List.getElem?_eq_getElem hi
      have hlt : prevLps < pattern.length := by omega
      have hnext : pattern[prevLps]? = some pattern[prevLps] := List.getElem?_eq_getElem hlt
      rw [bind_of_ok (load_eq_ok.mpr htoken), bind_of_ok (load_eq_ok.mpr hnext)]
      by_cases heq : pattern[i] = pattern[prevLps]
      · -- the border is continued
        rw [if_pos heq]
        have hlongest := hext.hit (show pattern[i]? = pattern[prevLps]? by rw [htoken, hnext, heq])
        exact ih (by simpa using hlen) (htable.set hlen hlongest)
          (fun _ => Extending.longest hlongest) (by omega)
      · rw [if_neg heq]
        have hne : pattern[i]? ≠ pattern[prevLps]? := by
          rw [htoken, hnext]
          exact fun h => heq (Option.some.inj h)
        by_cases hzero : prevLps = 0
        · rw [if_neg (not_not.mpr hzero)]
          subst hzero
          have hlongest := hext.skip hne
          exact ih (by simpa using hlen) (htable.set hlen hlongest)
            (fun _ => Extending.longest hlongest) (by omega)
        · -- its longest border is tried
          rw [if_pos hzero]
          obtain ⟨b, hb, hgreatest⟩ := htable (prevLps - 1) (by omega) (by omega)
          rw [Nat.sub_add_cancel (Nat.pos_of_ne_zero hzero)] at hgreatest
          rw [bind_of_ok (load_eq_ok.mpr hb)]
          have hshorter := hgreatest.1.1
          exact ih hlen htable (fun _ => hext.fallBack hne hgreatest) (by omega)
    · rw [if_neg hi]
      exact ⟨lps, rfl, fun q hq hqlen => htable q (by omega) hqlen⟩

/-- **The table of borders.** -/
theorem kmpLpsArray_ok (pattern : List TokenId) :
    ∃ lps, kmpLpsArray pattern = .ok lps ∧ LongestBorders pattern lps pattern.length := by
  refine lpsLoop_ok List.length_replicate (fun q hq hqlen => ?_) (fun _ => Extending.start) (by omega)
  obtain rfl : q = 0 := by omega
  exact ⟨0, List.getElem?_replicate_of_lt hqlen, borders_one⟩

end Table

/-! ## The search -/

/-- The last `n` tokens of the context are also found at `s`, in the part before them. -/
def Recurs (context : List TokenId) (n s : Nat) : Prop :=
  (s + n : Int) ≤ context.length - n ∧
    pySlice context s (s + n : Nat) = pySlice context (-n) context.length

section Search

variable {context pattern : List TokenId} {lps : List Nat} {n : Nat} {k : Int}

theorem lastTokens_eq (hn : 0 < n) :
    pySlice context (-n) context.length = context.drop (context.length - n) := by
  have hstart : sliceBound context.length (-n) = context.length - n := by
    unfold sliceBound
    rw [if_pos (by omega)]
    omega
  rw [pySlice, hstart, sliceBound_natCast, Nat.min_self]
  exact List.take_of_length_le (by rw [List.length_drop])

/-- The last tokens are found at a position exactly if all their tokens are. -/
theorem recurs_iff (hn : 0 < n) {s : Nat} : Recurs context n s ↔
    (s + n : Int) ≤ context.length - n ∧
      Matches (fun i => (pySlice context (-n) context.length)[i]?) (fun i => context[i]?) s n := by
  refine and_congr_right fun hle => ?_
  rw [pySlice_natCast, lastTokens_eq hn]
  constructor
  · intro heq i hi
    dsimp only
    rw [← heq, List.getElem?_drop, List.getElem?_take_of_lt (by omega)]
  · intro hmatch
    refine List.ext_getElem? fun i => ?_
    by_cases hi : i < n
    · rw [List.getElem?_drop, List.getElem?_take_of_lt (by omega)]
      exact hmatch i hi
    · rw [List.getElem?_eq_none (by rw [List.length_drop, List.length_take]; omega),
        List.getElem?_eq_none (by rw [List.length_drop]; omega)]

/-- What a search returns: nothing if the last tokens do not recur, and otherwise the tokens after the
first place where they do. -/
def Finds (context : List TokenId) (n : Nat) (k : Int) (result : Option (List TokenId)) : Prop :=
  (result = none ∧ ∀ s, ¬ Recurs context n s) ∨
    ∃ s, IsLeast {s | Recurs context n s} s ∧
      result = some (pySlice context (s + n : Nat) ((s + n : Nat) + k))

theorem searchLoop_ok {fuel i j : Nat} (hpattern : pattern = pySlice context (-n) context.length)
    (hn : 0 < n) (htable : LongestBorders pattern lps pattern.length)
    (hsearch : Searching (fun i => pattern[i]?) (fun i => context[i]?) n i j)
    (hfuel : 2 * (context.length - i) + j < fuel) :
    ∃ result, searchLoop context pattern lps n k fuel i j = .ok result ∧ Finds context n k result := by
  induction fuel generalizing i j with
  | zero => omega
  | succ fuel ih =>
    unfold searchLoop
    by_cases hi : (i : Int) < context.length - n
    · rw [if_pos hi]
      have hlength : pattern.length = n := by
        rw [hpattern, lastTokens_eq hn, List.length_drop]
        omega
      have hshort := hsearch.short
      have hle := hsearch.le
      have hi : i < context.length := by omega
      have hj : j < pattern.length := by omega
      have htoken : context[i]? = some context[i] := List.getElem?_eq_getElem hi
      have hnext : pattern[j]? = some pattern[j] := List.getElem?_eq_getElem hj
      rw [bind_of_ok (load_eq_ok.mpr htoken), bind_of_ok (load_eq_ok.mpr hnext)]
      by_cases heq : context[i] = pattern[j]
      · rw [if_pos heq]
        have hhit : context[i]? = pattern[j]? := by rw [htoken, hnext, heq]
        by_cases hlong : j + 1 = n
        · -- all of the last tokens have been matched
          rw [if_pos hlong]
          have hleast := hsearch.found hhit hlong
          rw [hpattern] at hleast
          have hend : i - j + n = i + 1 := by omega
          refine ⟨_, rfl, .inr ⟨i - j, ⟨(recurs_iff hn).mpr ⟨by omega, hleast.1⟩, fun s hs => ?_⟩, ?_⟩⟩
          · exact hleast.2 ((recurs_iff hn).mp hs).2
          · rw [hend]
        · rw [if_neg hlong]
          exact ih (hsearch.hit hhit (by omega)) (by omega)
      · rw [if_neg heq]
        have hne : context[i]? ≠ pattern[j]? := by
          rw [htoken, hnext]
          exact fun h => heq (Option.some.inj h)
        by_cases hzero : j = 0
        · rw [if_neg (not_not.mpr hzero)]
          subst hzero
          exact ih (hsearch.skip hne) (by omega)
        · rw [if_pos hzero]
          obtain ⟨b, hb, hgreatest⟩ := htable (j - 1) (by omega) (by omega)
          rw [Nat.sub_add_cancel (Nat.pos_of_ne_zero hzero)] at hgreatest
          rw [bind_of_ok (load_eq_ok.mpr hb)]
          have hshorter := hgreatest.1.1
          exact ih (hsearch.fallBack hne hgreatest) (by omega)
    · rw [if_neg hi]
      refine ⟨none, rfl, .inl ⟨rfl, fun s hs => ?_⟩⟩
      obtain ⟨hle, hmatch⟩ := (recurs_iff hn).mp hs
      rw [← hpattern] at hmatch
      exact hsearch.finish (by omega) hmatch

/-- **The tokens after the first occurrence.** -/
theorem findSubarrayKmp_ok (context : List TokenId) (hn : 0 < n) (k : Int) :
    ∃ result, findSubarrayKmp context n k = .ok result ∧ Finds context n k result := by
  obtain ⟨lps, hlps, htable⟩ := kmpLpsArray_ok (pySlice context (-n) context.length)
  have hfuel : 2 * (context.length - 0) + 0 < 2 * context.length + 1 := by omega
  obtain ⟨result, hsearch, hfinds⟩ :=
    searchLoop_ok (k := k) rfl hn htable (Searching.start hn) hfuel
  exact ⟨result, (bind_of_ok (require_of hn)).trans ((bind_of_ok hlps).trans hsearch), hfinds⟩

/-- The tokens that are found are some: the last ones follow them. -/
theorem Recurs.slice_ne_nil {s : Nat} (hs : Recurs context n s) (hn : 0 < n) (hk : 0 < k) :
    pySlice context (s + n : Nat) ((s + n : Nat) + k) ≠ [] := by
  obtain ⟨k, rfl⟩ := Int.eq_ofNat_of_zero_le hk.le
  have hle := hs.1
  rw [show ((s + n : Nat) : Int) + ((k : Nat) : Int) = ((s + n + k : Nat) : Int) by omega,
    pySlice_natCast]
  intro hnil
  have hlength := congrArg List.length hnil
  rw [List.length_drop, List.length_take, List.length_nil] at hlength
  omega

end Search

/-! ## What is proposed -/

namespace NgramProposer

variable {P : NgramProposer} {context : List TokenId} {k : Int} {ns : List Nat}

/-- The values of `n` are tried until one is found that recurs. -/
theorem proposeLoop_ok (context : List TokenId) (k : Int) (hpos : ∀ n ∈ ns, 0 < n) (hsorted : ns.Pairwise (· > ·)) :
    ∃ result, proposeLoop context k ns = .ok result ∧
      ((result = none ∧ ∀ n ∈ ns, ∀ s, ¬ Recurs context n s) ∨
        ∃ n s, IsGreatest {n | n ∈ ns ∧ ∃ s, Recurs context n s} n ∧
          IsLeast {s | Recurs context n s} s ∧
          result = some (pySlice context (s + n : Nat) ((s + n : Nat) + k))) := by
  induction ns with
  | nil => exact ⟨none, rfl, .inl ⟨rfl, (fun _ hn => nomatch hn)⟩⟩
  | cons n ns ih =>
    obtain ⟨hlt, hsorted⟩ := List.pairwise_cons.mp hsorted
    obtain ⟨found, hfound, hfinds⟩ := findSubarrayKmp_ok context (hpos n List.mem_cons_self) k
    unfold proposeLoop
    rw [bind_of_ok hfound]
    rcases hfinds with ⟨rfl, hnone⟩ | ⟨s, hleast, rfl⟩
    · obtain ⟨result, hloop, hresult⟩ := ih (fun n hn => hpos n (List.mem_cons_of_mem _ hn)) hsorted
      refine ⟨result, hloop, ?_⟩
      rcases hresult with ⟨rfl, hrest⟩ | ⟨n', s, hgreatest, hleast, rfl⟩
      · exact .inl ⟨rfl, List.forall_mem_cons.mpr ⟨hnone, hrest⟩⟩
      · refine .inr ⟨n', s, ⟨⟨List.mem_cons_of_mem _ hgreatest.1.1, hgreatest.1.2⟩, ?_⟩, hleast, rfl⟩
        rintro m ⟨hm, s', hs'⟩
        rcases List.mem_cons.mp hm with rfl | hm
        · exact absurd hs' (hnone s')
        · exact hgreatest.2 ⟨hm, s', hs'⟩
    · refine ⟨_, rfl, .inr ⟨n, s, ⟨⟨List.mem_cons_self, s, hleast.1⟩, ?_⟩, hleast, rfl⟩⟩
      rintro m ⟨hm, -⟩
      rcases List.mem_cons.mp hm with rfl | hm
      · exact le_rfl
      · exact (hlt m hm).le

/-- **Drafting from the context equals the naive search**: nothing is proposed exactly if there is no
room or the last `n` tokens recur for no `n`; otherwise the tokens after the first occurrence, for the
greatest `n`. -/
theorem propose_eq_naive (P : NgramProposer) (context : List TokenId) (hmin : 1 ≤ P.minN) :
    ∃ result, P.propose context = .ok result ∧
      (result = none ↔ P.draftLength context ≤ 0 ∨
        ∀ n, P.minN ≤ n → n ≤ P.maxN → ∀ s, ¬ Recurs context n s) ∧
      ∀ draft, result = some draft → draft ≠ [] ∧
        ∃ n s, IsGreatest {n | (P.minN ≤ n ∧ n ≤ P.maxN) ∧ ∃ s, Recurs context n s} n ∧
          IsLeast {s | Recurs context n s} s ∧
          draft = pySlice context (s + n : Nat) ((s + n : Nat) + P.draftLength context) := by
  have hmem : ∀ n, n ∈ (List.range' P.minN (P.maxN + 1 - P.minN)).reverse ↔
      P.minN ≤ n ∧ n ≤ P.maxN := by
    intro n
    rw [List.mem_reverse, List.mem_range'_1]
    omega
  have hsorted : (List.range' P.minN (P.maxN + 1 - P.minN)).reverse.Pairwise (· > ·) :=
    List.pairwise_reverse.mpr List.pairwise_lt_range'
  by_cases hroom : P.draftLength context ≤ 0
  · exact ⟨none, if_pos hroom, iff_of_true rfl (.inl hroom), (fun _ h => nomatch h)⟩
  · obtain ⟨result, hloop, hresult⟩ := proposeLoop_ok context (P.draftLength context)
      (fun n hn => hmin.trans ((hmem n).mp hn).1) hsorted
    refine ⟨result, (if_neg hroom).trans hloop, ?_⟩
    simp only [hmem] at hresult
    rcases hresult with ⟨rfl, hnone⟩ | ⟨n, s, hgreatest, hleast, rfl⟩
    · exact ⟨iff_of_true rfl (.inr fun n hn hn' => hnone n ⟨hn, hn'⟩), (fun _ h => nomatch h)⟩
    · obtain ⟨hn, s', hs'⟩ := hgreatest.1
      refine ⟨iff_of_false (fun h => nomatch h) ?_, ?_⟩
      · rintro (hle | hnone)
        · exact hroom hle
        · exact hnone n hn.1 hn.2 s' hs'
      · rintro draft hdraft
        obtain rfl := Option.some.inj hdraft
        exact ⟨Recurs.slice_ne_nil hleast.1 (hmin.trans hn.1) (not_le.mp hroom), n, s, hgreatest,
          hleast, rfl⟩

/-- The example of the docstring of `propose`. -/
theorem propose_eq_naive_docstring :
    ∃ result, NgramProposer.propose ⟨2, 3, 4, 100⟩ [1, 2, 3, 4, 2, 3] = .ok result ∧
      ∀ draft, result = some draft → draft ≠ [] := by
  obtain ⟨result, hok, -, hdraft⟩ :=
    propose_eq_naive ⟨2, 3, 4, 100⟩ [1, 2, 3, 4, 2, 3] (by decide)
  exact ⟨result, hok, fun draft h => (hdraft draft h).1⟩

example : NgramProposer.propose ⟨2, 3, 4, 100⟩ [1, 2, 3, 4, 2, 3] = .ok (some [4, 2, 3]) := by
  decide +kernel

end NgramProposer

end InferenceServer.SpecDecode
