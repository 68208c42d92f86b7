import InferenceServer.KVCache.HashLoop
import InferenceServer.Lib.Run

/-!
# The two paths to a block hash

A block hash is computed from scratch by `hash_request_tokens`, which walks over all blocks with a
running index into the multi-modal items, or incrementally by `cache_full_blocks`, which looks at
the last item only. The extra keys of a block from scratch are the hashes of the items that reach
into it (`blockKeys`); so the whole from-scratch list is the chain `chainHash`.

The incremental path gives the same keys exactly on the blocks for which its comment holds, that
only the last item matters: no other item reaches into the block, and the last one does not end
at its first position. An item that ends exactly at the boundary is taken by the incremental path
and not by the other one.

## Main results

* `hashRequestTokens_eq`, `blockHashes_prefix_hashRequestTokens`, `blockHashes_ne_hashRequestTokens`
-/

namespace InferenceServer

open Outcome

/-! ## The items that reach into a block -/

namespace PlaceholderRange

/-- The end of an item, where an empty item takes one position. -/
def reachEnd (p : PlaceholderRange) : Nat := p.offset + max p.length 1

/-- The item reaches into the positions from `s` to `e`. -/
def Reaches (p : PlaceholderRange) (s e : Nat) : Prop := p.offset < e ∧ s < p.reachEnd

instance (p : PlaceholderRange) (s e : Nat) : Decidable (p.Reaches s e) :=
  inferInstanceAs (Decidable (_ ∧ _))

end PlaceholderRange

/-- The placeholders are sorted and do not overlap. -/
def Request.MmOrdered (r : Request) : Prop :=
  r.mmPositions.Pairwise fun a b => a.stop ≤ b.offset

instance (r : Request) : Decidable r.MmOrdered :=
  inferInstanceAs (Decidable (List.Pairwise _ _))

/-- The multi-modal items with their hashes. -/
def Request.mmItems (r : Request) : List (PlaceholderRange × String) :=
  r.mmPositions.zip r.mmHashes

/-- The hashes of the items that reach into the positions from `s` to `e`. -/
def reachKeys (items : List (PlaceholderRange × String)) (s e : Nat) : List ExtraKey :=
  (items.filter fun it => it.1.Reaches s e).map fun it => .str it.2

/-- The extra keys of block `k`. -/
def blockKeys (bs : Nat) (r : Request) (k : Nat) : Option (List ExtraKey) :=
  keyTuple (genLoraExtraHashKeys r ++ reachKeys r.mmItems (k * bs) ((k + 1) * bs) ++
    cacheSaltKeys r (k * bs : Nat))

/-- **The chain of block hashes** of a request. -/
def chainHash (H : BlockHasher) (bs : Nat) (r : Request) : Nat → BlockHash
  | 0 => hashBlockTokens H none (blockTokens bs r.allTokenIds 0) (blockKeys bs r 0)
  | k + 1 => hashBlockTokens H (some (chainHash H bs r k).hashValue)
      (blockTokens bs r.allTokenIds (k + 1)) (blockKeys bs r (k + 1))

section Scan

variable {items : List (PlaceholderRange × String)} {s e : Nat}

theorem Request.MmOrdered.mmItems {r : Request} (h : r.MmOrdered) :
    r.mmItems.Pairwise fun a b => a.1.stop ≤ b.1.offset := by
  have hsub : (r.mmItems.map Prod.fst).Sublist r.mmPositions := by
    unfold Request.mmItems
    generalize r.mmHashes = hs
    induction r.mmPositions generalizing hs with
    | nil => simp
    | cons p ps ih =>
      cases hs with
      | nil => simp
      | cons x xs => exact (ih xs).cons_cons p
  exact List.pairwise_map.mp (List.Pairwise.sublist hsub h)

/-- The last item ends last. -/
theorem Request.MmOrdered.stop_le_last {r : Request} (h : r.MmOrdered) {last p : PlaceholderRange}
    (hlast : r.mmPositions.getLast? = some last) (hp : p ∈ r.mmPositions) :
    p.stop ≤ last.stop := by
  obtain ⟨pre, hpre⟩ := List.getLast?_eq_some_iff.mp hlast
  rw [Request.MmOrdered, hpre, List.pairwise_append] at h
  rw [hpre, List.mem_append, List.mem_singleton] at hp
  rcases hp with hp | rfl
  · have hle := h.2.2 p hp last (by simp)
    unfold PlaceholderRange.stop at hle ⊢
    omega
  · exact le_rfl

/-- Items that lie behind position `e` are not looked at. -/
theorem reachKeys_eq_nil (h : ∀ it ∈ items, it.1.offset < e → it.1.reachEnd ≤ s) :
    reachKeys items s e = [] := by
  unfold reachKeys
  rw [List.filter_eq_nil_iff.mpr, List.map_nil]
  intro it hit hreach
  obtain ⟨h₁, h₂⟩ : it.1.Reaches s e := of_decide_eq_true hreach
  exact absurd (h it hit h₁) (not_le.mpr h₂)

/-- The running index of `hash_request_tokens` splits the items at position `s`. -/
structure SplitAt (items : List (PlaceholderRange × String)) (s i : Nat) : Prop where
  le : i ≤ items.length
  done : ∀ it ∈ items.take i, it.1.reachEnd ≤ s
  left : ∀ it ∈ items.drop i, s < it.1.reachEnd

/-- **The scan** of `_gen_mm_extra_hash_keys` over the items that are left. -/
theorem scanMm_eq (hord : items.Pairwise fun a b => a.1.stop ≤ b.1.offset)
    (hleft : ∀ it ∈ items, s < it.1.reachEnd) (i : Nat) :
    ∃ n, scanMm s e items i = (reachKeys items s e, i + n) ∧ SplitAt items e n := by
  induction items generalizing i with
  | nil => exact ⟨0, by simp [scanMm, reachKeys], by simp, by simp, by simp⟩
  | cons it items ih =>
    obtain ⟨p, h⟩ := it
    obtain ⟨hp, hord'⟩ := List.pairwise_cons.mp hord
    simp only at hp
    have hps : s < p.reachEnd := hleft (p, h) (by simp)
    have hsp : s ≤ p.stop := by
      unfold PlaceholderRange.reachEnd at hps
      unfold PlaceholderRange.stop
      omega
    rw [scanMm]
    by_cases he : e > p.offset
    · have hreach : reachKeys ((p, h) :: items) s e = .str h :: reachKeys items s e := by
        simp [reachKeys, PlaceholderRange.Reaches, show p.offset < e from he, hps]
      rw [if_pos (by exact_mod_cast he), if_neg (by omega), hreach]
      by_cases hstop : p.stop ≤ e
      · rw [if_pos (by exact_mod_cast hstop)]
        obtain ⟨n, hscan, hsplit⟩ := ih hord' (fun it hit => hleft it (by simp [hit])) (i + 1)
        refine ⟨n + 1, by rw [hscan]; simp; omega, by simpa using hsplit.le, ?_, ?_⟩
        · intro it hit
          rw [List.take_succ_cons, List.mem_cons] at hit
          rcases hit with rfl | hit
          · change p.reachEnd ≤ e
            unfold PlaceholderRange.reachEnd
            unfold PlaceholderRange.stop at hstop
            omega
          · exact hsplit.done it hit
        · simpa using hsplit.left
      · -- the item goes on behind the block, so the items after it start behind the block
        rw [if_neg (by exact_mod_cast hstop)]
        have hnil : reachKeys items s e = [] := reachKeys_eq_nil fun it hit hlt => by
          have := hp it hit
          omega
        refine ⟨0, by rw [hnil]; rfl, by simp, by simp, fun it hit => ?_⟩
        rcases List.mem_cons.mp hit with rfl | hit
        · change e < p.reachEnd
          unfold PlaceholderRange.reachEnd
          unfold PlaceholderRange.stop at hstop
          omega
        · have := hp it hit
          unfold PlaceholderRange.reachEnd
          omega
    · have hnot : ∀ it ∈ (p, h) :: items, e ≤ it.1.offset := by
        intro it hit
        rcases List.mem_cons.mp hit with rfl | hit
        · exact not_lt.mp he
        · have h₁ := hp it hit
          unfold PlaceholderRange.stop at h₁
          omega
      rw [if_neg (by omega)]
      refine ⟨0, ?_, by simp, by simp, fun it hit => ?_⟩
      · rw [reachKeys_eq_nil fun it hit hlt => absurd hlt (by have := hnot it hit; omega)]
        rfl
      · have := hnot it (by simpa using hit)
        unfold PlaceholderRange.reachEnd
        omega

/-- Items before the index do not reach into a block that starts at `s`. -/
theorem SplitAt.reachKeys_drop {i : Nat} (h : SplitAt items s i) (e : Nat) :
    reachKeys (items.drop i) s e = reachKeys items s e := by
  have happ : reachKeys items s e =
      reachKeys (items.take i) s e ++ reachKeys (items.drop i) s e := by
    unfold reachKeys
    rw [← List.map_append, ← List.filter_append, List.take_append_drop]
  rw [happ, reachKeys_eq_nil fun it hit _ => h.done it hit, List.nil_append]

theorem SplitAt.trans {i n : Nat} (h : SplitAt items s i) (h' : SplitAt (items.drop i) e n)
    (hse : s ≤ e) : SplitAt items e (i + n) where
  le := by
    have h₁ := h.le
    have h₂ := h'.le
    rw [List.length_drop] at h₂
    omega
  done it hit := by
    rw [List.take_add, List.mem_append] at hit
    rcases hit with hit | hit
    · exact (h.done it hit).trans hse
    · exact h'.done it hit
  left it hit := h'.left it (by rwa [List.drop_drop])

end Scan

/-! ## The from-scratch path -/

section Scratch

variable {r : Request} {bs : Nat} {H : BlockHasher}

/-- What a call of `_gen_mm_extra_hash_keys` returns for a request with items. -/
theorem genMmExtraHashKeys_cases {last : PlaceholderRange}
    (hlast : r.mmPositions.getLast? = some last) {s e idx : Int} {keys : List ExtraKey} {j : Int}
    (h : genMmExtraHashKeys r s e idx = .ok (keys, j)) :
    r.mmPositions.length = r.mmHashes.length ∧
      ((last.stop : Int) < s ∧ keys = [] ∧ j = idx ∨
        s ≤ last.stop ∧ ∃ i, i = (if idx < 0 then r.mmPositions.length + idx else idx).toNat ∧
          keys = (scanMm s e (r.mmItems.drop i) i).1 ∧ j = (scanMm s e (r.mmItems.drop i) i).2) := by
  unfold genMmExtraHashKeys at h
  simp only [hlast] at h
  by_cases hlen : r.mmPositions.length ≠ r.mmHashes.length
  · simp [hlen] at h
  rw [if_neg hlen] at h
  refine ⟨not_ne_iff.mp hlen, ?_⟩
  by_cases hs : (last.stop : Int) < s
  · rw [if_pos hs] at h
    cases h
    exact .inl ⟨hs, rfl, rfl⟩
  · rw [if_neg hs] at h
    obtain ⟨_, -, h₁⟩ := bind_eq_ok.mp h
    obtain ⟨hk, hj⟩ := Prod.mk.inj (pure_eq_ok.mp h₁)
    exact .inr ⟨not_lt.mp hs, _, rfl, hk.symm, hj.symm⟩

variable (hord : r.MmOrdered)

include hord

/-- The keys of the multi-modal items and the next index, from a running index. -/
theorem genMmExtraHashKeys_ok {s e i : Nat} (hse : s ≤ e)
    (hi : SplitAt r.mmItems s i) {keys : List ExtraKey} {j : Int}
    (h : genMmExtraHashKeys r s e i = .ok (keys, j)) :
    keys = reachKeys r.mmItems s e ∧ ∃ n : Nat, j = n ∧ SplitAt r.mmItems e n := by
  cases hlast : r.mmPositions.getLast? with
  | none =>
    have hnil : r.mmItems = [] := by simp [Request.mmItems, List.getLast?_eq_none_iff.mp hlast]
    obtain ⟨rfl, rfl⟩ : [] = keys ∧ (i : Int) = j := by simpa [genMmExtraHashKeys, hlast] using h
    have h0 := hi.le
    rw [hnil] at h0 ⊢
    obtain rfl : i = 0 := by simpa using h0
    exact ⟨rfl, 0, rfl, by simp, by simp, by simp⟩
  | some last =>
    obtain ⟨-, ⟨hs, rfl, rfl⟩ | ⟨-, i', hi', hkeys, hj⟩⟩ := genMmExtraHashKeys_cases hlast h
    · -- the block starts behind the last item, so no item is left
      have hall : ∀ it ∈ r.mmItems, it.1.reachEnd ≤ s := by
        intro it hit
        have hle := hord.stop_le_last hlast (List.of_mem_zip hit).1
        unfold PlaceholderRange.stop at hle hs
        unfold PlaceholderRange.reachEnd
        omega
      refine ⟨(reachKeys_eq_nil fun it hit _ => hall it hit).symm, i, rfl, hi.le, fun it hit =>
        (hall it (List.mem_of_mem_take hit)).trans hse, fun it hit => ?_⟩
      have h₁ := hi.left it hit
      have h₂ := hall it (List.mem_of_mem_drop hit)
      omega
    · rw [if_neg (by omega), Int.toNat_natCast] at hi'
      subst hi'
      obtain ⟨n, hscan, hsplit⟩ := scanMm_eq (e := e)
        (hord.mmItems.sublist (List.drop_sublist i' _)) hi.left i'
      rw [hscan] at hkeys hj
      exact ⟨hkeys.trans (hi.reachKeys_drop e), i' + n, hj, hi.trans hsplit hse⟩

/-- The keys of a block in `hash_request_tokens`. -/
theorem scratchExtraKeys_ok {k i : Nat}
    (hi : SplitAt r.mmItems (k * bs) i) {keys : Option (List ExtraKey)} {j : Int}
    (h : scratchExtraKeys bs r k i = .ok (keys, j)) :
    keys = blockKeys bs r k ∧
      ∃ n : Nat, j = n ∧ SplitAt r.mmItems ((k + 1) * bs) n := by
  have hse : k * bs ≤ (k + 1) * bs := Nat.mul_le_mul_right bs (by omega)
  unfold scratchExtraKeys at h
  split_ifs at h with hneed
  · obtain ⟨⟨mm, idx⟩, h₁, h₂⟩ := bind_eq_ok.mp h
    cases h₂
    obtain ⟨rfl, hn⟩ := genMmExtraHashKeys_ok hord hse hi h₁
    exact ⟨rfl, hn⟩
  · -- nothing that could give a key
    cases h
    simp only [needExtraKeys, Bool.or_eq_true, Bool.not_eq_true', not_or, Bool.not_eq_false,
      List.isEmpty_iff, Option.isSome_iff_ne_none, ne_eq, not_not] at hneed
    obtain ⟨⟨hmm, hlora⟩, hsalt⟩ := hneed
    have hitems : r.mmItems = [] := by simp [Request.mmItems, hmm]
    refine ⟨?_, 0, ?_, by simp, by simp [hitems], by simp [hitems]⟩
    · simp [blockKeys, hitems, reachKeys, genLoraExtraHashKeys, cacheSaltKeys, hlora, hsalt, keyTuple]
    · have h0 := hi.le
      rw [hitems] at h0
      simpa using h0

theorem hashBlocksFrom_eq {n k i : Nat} {parent : Option Int}
    {l : List BlockHash} (hi : SplitAt r.mmItems (k * bs) i)
    (hparent : parent = match k with
      | 0 => none
      | k + 1 => some (chainHash H bs r k).hashValue)
    (h : hashBlocksFrom H bs r n k i parent = .ok l) :
    l = (List.range n).map fun j => chainHash H bs r (k + j) := by
  induction n generalizing k i parent l with
  | zero =>
    obtain rfl : [] = l := by simpa [hashBlocksFrom] using h
    rfl
  | succ n ih =>
    obtain ⟨keys, idx, rest, h₁, h₂, rfl⟩ := hashBlocksFrom_succ_ok.mp h
    obtain ⟨rfl, i', rfl, hi'⟩ := scratchExtraKeys_ok hord hi h₁
    have hchain : hashBlockTokens H parent (blockTokens bs r.allTokenIds k) (blockKeys bs r k) =
        chainHash H bs r k := by
      cases k <;> rw [hparent] <;> rfl
    rw [hchain] at h₂ ⊢
    rw [ih hi' rfl h₂, List.range_succ_eq_map]
    simp [Function.comp_def, Nat.add_assoc, Nat.add_comm 1]

/-- **The from-scratch list is the chain.** -/
theorem hashRequestTokens_eq {l : List BlockHash} (h : hashRequestTokens H bs r = .ok l) :
    l = (List.range (r.numTokens / bs)).map (chainHash H bs r) := by
  have hsplit : SplitAt r.mmItems (0 * bs) 0 := by
    refine ⟨by omega, by simp, fun it _ => ?_⟩
    unfold PlaceholderRange.reachEnd
    omega
  simpa using hashBlocksFrom_eq (i := 0) hord hsplit rfl h

end Scratch

/-! ## The incremental path -/

/-- **Only the last item matters for block `k`**: no other item reaches into it, and the last one
does not end at its first position. -/
def LastItemOnly (bs : Nat) (r : Request) (k : Nat) : Prop :=
  (∀ p ∈ r.mmPositions.dropLast, ¬p.Reaches (k * bs) ((k + 1) * bs)) ∧
    ∀ p ∈ r.mmPositions.getLast?, ¬(p.stop = k * bs ∧ 0 < p.length)

instance (bs : Nat) (r : Request) (k : Nat) : Decidable (LastItemOnly bs r k) :=
  inferInstanceAs (Decidable (_ ∧ _))

section Incremental

variable {r r' : Request} {bs : Nat} {H : BlockHasher}

theorem keyTuple_injective : Function.Injective keyTuple := by
  intro a b h
  unfold keyTuple at h
  cases a <;> cases b <;> simp_all

/-- The keys that the incremental path takes from the multi-modal items: it starts at the last
one. -/
theorem genMmExtraHashKeys_last {last : PlaceholderRange} {name : String}
    {init : List (PlaceholderRange × String)} (hitems : r.mmItems = init ++ [(last, name)])
    (hlast : r.mmPositions.getLast? = some last) {s e : Nat} {keys : List ExtraKey} {j : Int}
    (h : genMmExtraHashKeys r s e (-1) = .ok (keys, j)) :
    keys = if last.offset < e ∧ s ≤ last.stop then [.str name] else [] := by
  obtain ⟨hlen, ⟨hs, rfl, -⟩ | ⟨hs, i, hi, rfl, -⟩⟩ := genMmExtraHashKeys_cases hlast h
  · rw [if_neg (by omega)]
  · have hlen' : r.mmItems.length = r.mmPositions.length := by
      simp [Request.mmItems, List.length_zip, ← hlen]
    rw [hitems, List.length_append, List.length_singleton] at hlen'
    obtain rfl : i = init.length := by
      rw [hi, if_pos (by omega)]
      omega
    rw [hitems, List.drop_left]
    simp only [scanMm]
    have hs' : s ≤ last.stop := by exact_mod_cast hs
    by_cases he : last.offset < e
    · have hkey : last.offset < e ∧ s ≤ last.stop := ⟨he, hs'⟩
      rw [if_pos (by exact_mod_cast he), if_neg (by omega), if_pos hkey]
      split_ifs <;> rfl
    · rw [if_neg (by omega), if_neg fun hkey => he hkey.1]

/-- **When the two paths take the same keys.** -/
theorem incrementalKeys_eq_iff (hord : r.MmOrdered) {k : Nat} {keys : Option (List ExtraKey)}
    {j : Int}
    (h : generateBlockHashExtraKeys r (k * bs : Nat) ((k + 1) * bs : Nat) (-1) = .ok (keys, j)) :
    keys = blockKeys bs r k ↔ LastItemOnly bs r k := by
  obtain ⟨⟨mm, idx⟩, h₁, h₂⟩ := bind_eq_ok.mp h
  obtain ⟨rfl, -⟩ := Prod.mk.inj (pure_eq_ok.mp h₂)
  rw [blockKeys, keyTuple_injective.eq_iff, List.append_left_inj, List.append_right_inj]
  have hse : k * bs ≤ (k + 1) * bs := Nat.mul_le_mul_right bs (by omega)
  unfold LastItemOnly
  generalize k * bs = s at h₁ hse ⊢
  generalize (k + 1) * bs = e at h₁ hse ⊢
  cases hlast : r.mmPositions.getLast? with
  | none =>
    have hnil : r.mmPositions = [] := List.getLast?_eq_none_iff.mp hlast
    obtain ⟨rfl, -⟩ : [] = mm ∧ (-1 : Int) = idx := by
      simpa [genMmExtraHashKeys, hlast] using h₁
    simp [Request.mmItems, hnil, reachKeys]
  | some last =>
    obtain ⟨ps, hps⟩ := List.getLast?_eq_some_iff.mp hlast
    obtain ⟨hlen, -⟩ := genMmExtraHashKeys_cases hlast h₁
    obtain ⟨names, name, hnames⟩ : ∃ ns n, r.mmHashes = ns ++ [n] := by
      rcases List.eq_nil_or_concat r.mmHashes with hn | hn
      · simp [hn, hps] at hlen
      · simpa using hn
    have hlen' : ps.length = names.length := by simpa [hps, hnames] using hlen
    have hitems : r.mmItems = ps.zip names ++ [(last, name)] := by
      rw [Request.mmItems, hps, hnames, List.zip_append hlen']
      rfl
    rw [genMmExtraHashKeys_last hitems hlast h₁, hitems]
    have hfst : ∀ p, p ∈ ps ↔ ∃ n, (p, n) ∈ ps.zip names := by
      intro p
      conv_lhs => rw [← List.map_fst_zip hlen'.le]
      simp
    have hbefore : ∀ p ∈ ps, p.stop ≤ last.offset := by
      have hord' := hord
      rw [Request.MmOrdered, hps, List.pairwise_append] at hord'
      exact fun p hp => hord'.2.2 p hp last (by simp)
    have hsplit : reachKeys (ps.zip names ++ [(last, name)]) s e =
        reachKeys (ps.zip names) s e ++ if last.Reaches s e then [.str name] else [] := by
      unfold reachKeys
      rw [List.filter_append, List.map_append]
      congr 1
      split_ifs with hr <;> simp [hr]
    have hinit : reachKeys (ps.zip names) s e = [] ↔ ∀ p ∈ ps, ¬p.Reaches s e := by
      simp only [reachKeys, List.map_eq_nil_iff, List.filter_eq_nil_iff, decide_eq_true_eq]
      constructor
      · intro ha p hp
        obtain ⟨n, hn⟩ := (hfst p).mp hp
        exact ha (p, n) hn
      · intro ha it hit
        exact ha it.1 ((hfst it.1).mpr ⟨it.2, hit⟩)
    rw [hsplit, hps, List.dropLast_concat, ← hinit]
    simp only [Option.mem_def, Option.some.injEq, forall_eq']
    -- the last item gives a key on both paths, or ends at the start of the block
    have hcase : last.Reaches s e ↔
        (last.offset < e ∧ s ≤ last.stop) ∧ ¬(last.stop = s ∧ 0 < last.length) := by
      unfold PlaceholderRange.Reaches PlaceholderRange.reachEnd PlaceholderRange.stop
      omega
    by_cases hnil : reachKeys (ps.zip names) s e = []
    · simp only [hnil, List.nil_append, true_and]
      by_cases hc : last.offset < e ∧ s ≤ last.stop
      · by_cases hend : last.stop = s ∧ 0 < last.length
        · simp [hc, hend, hcase]
        · simp [hc, hend, hcase]
      · have hend : ¬(last.stop = s ∧ 0 < last.length) := by
          unfold PlaceholderRange.stop at hc ⊢
          omega
        simp [hc, hend, hcase]
    · refine iff_of_false (fun heq => hnil ?_) fun hl => hnil hl.1
      -- an item before the last one reaches into the block, so the last one ends behind its start
      obtain ⟨p, hp, hreach⟩ : ∃ p ∈ ps, p.Reaches s e := by
        by_contra hno
        exact hnil (hinit.mpr fun p hp hr => hno ⟨p, hp, hr⟩)
      have hle := hbefore p hp
      have hd : last.offset < e ∧ s ≤ last.stop → last.Reaches s e := by
        intro hc
        refine hcase.mpr ⟨hc, fun hend => ?_⟩
        obtain ⟨h₁, h₂⟩ := hreach
        unfold PlaceholderRange.reachEnd at h₂
        unfold PlaceholderRange.stop at hle hend
        omega
      have hlength := congrArg List.length heq
      by_cases hc : last.offset < e ∧ s ≤ last.stop
      · rw [if_pos hc, if_pos (hd hc)] at hlength
        exact List.length_eq_zero_iff.mp (by simpa using hlength.symm)
      · rw [if_neg hc] at hlength
        exact List.length_eq_zero_iff.mp (by simp at hlength; omega)

/-- The tokens of a block as `cache_full_blocks` slices them. -/
theorem pySlice_block (bs k : Nat) (tokens : List TokenId) :
    pySlice tokens ((k : Int) * bs) (((k : Int) + 1) * bs) = blockTokens bs tokens k := by
  have h₁ : (k : Int) * bs = (k * bs : Nat) := by push_cast; rfl
  have h₂ : ((k : Int) + 1) * bs = ((k + 1) * bs : Nat) := by push_cast; rfl
  rw [h₁, h₂, pySlice_natCast, List.drop_take, blockTokens, Nat.add_mul, Nat.one_mul,
    Nat.add_sub_cancel_left]

theorem length_blockTokens_eq {bs k : Nat} {tokens : List TokenId} (hbs : 0 < bs) :
    (blockTokens bs tokens k).length = bs ↔ (k + 1) * bs ≤ tokens.length := by
  rw [blockTokens, List.length_take, List.length_drop, Nat.add_mul, Nat.one_mul]
  omega

/-- The hash value of the block before block `k` of the chain. -/
def chainPrev (H : BlockHasher) (bs : Nat) (r : Request) : Nat → Option Int
  | 0 => none
  | k + 1 => some (chainHash H bs r k).hashValue

theorem chainHash_eq (H : BlockHasher) (bs : Nat) (r : Request) (k : Nat) :
    chainHash H bs r k = hashBlockTokens H (chainPrev H bs r k)
      (blockTokens bs r.allTokenIds k) (blockKeys bs r k) := by
  cases k <;> rfl

/-- **The incremental path computes the next hash of the chain.** -/
theorem computeBlockHash_eq (hord : r.MmOrdered) (hbs : 0 < bs) {k : Nat}
    (hlast : LastItemOnly bs r k) {h : BlockHash}
    (hc : BlockPool.computeBlockHash H r bs (chainPrev H bs r k) k = .ok h) :
    h = chainHash H bs r k ∧ (k + 1) * bs ≤ r.numTokens := by
  obtain ⟨hlen, keys, idx, hkeys, rfl⟩ := BlockPool.computeBlockHash_ok hc
  rw [pySlice_block] at hlen ⊢
  refine ⟨?_, (length_blockTokens_eq hbs).mp hlen⟩
  have h₁ : (k : Int) * bs = (k * bs : Nat) := by push_cast; rfl
  have h₂ : ((k : Int) + 1) * bs = ((k + 1) * bs : Nat) := by push_cast; rfl
  rw [h₁, h₂] at hkeys
  rw [(incrementalKeys_eq_iff hord hkeys).mpr hlast, chainHash_eq]

/-- The chain of a request that has been extended. -/
theorem chainHash_extends (he : r.Extends r') {k : Nat} (hk : (k + 1) * bs ≤ r.numTokens) :
    chainHash H bs r' k = chainHash H bs r k := by
  have htok : ∀ j, (j + 1) * bs ≤ r.numTokens →
      blockTokens bs r'.allTokenIds j = blockTokens bs r.allTokenIds j := by
    intro j hj
    obtain ⟨more, hmore⟩ := he.allTokenIds
    rw [Nat.add_mul, Nat.one_mul] at hj
    unfold blockTokens
    rw [← hmore, List.drop_append_of_le_length (by unfold Request.numTokens at hj; omega),
      List.take_append_of_le_length (by
        rw [List.length_drop]
        unfold Request.numTokens at hj
        omega)]
  have hkeys : ∀ j, blockKeys bs r' j = blockKeys bs r j := by
    intro j
    simp only [blockKeys, Request.mmItems, genLoraExtraHashKeys, cacheSaltKeys, he.mmPositions,
      he.mmHashes, he.loraRequest, he.cacheSalt]
  induction k with
  | zero => rw [chainHash, chainHash, htok 0 hk, hkeys]
  | succ k ih =>
    have hk' : (k + 1) * bs ≤ r.numTokens :=
      (Nat.mul_le_mul_right bs (by omega)).trans hk
    rw [chainHash, chainHash, ih hk', htok (k + 1) hk, hkeys]

end Incremental

/-! ## Runs of `cache_full_blocks` for one request -/

/-- The hash is that of block `i` of the chain of `r`. -/
def OnChain (H : BlockHasher) (bs : Nat) (r : Request) (_ : ReqId) (i : Nat) (h : BlockHash) : Prop :=
  h = chainHash H bs r i ∧ (i + 1) * bs ≤ r.numTokens

/-- A request with the block hashes recorded for it. -/
structure HashState where
  request : Request
  blockHashes : List BlockHash

/-- A call of `cache_full_blocks`: the pool at this time, the request, which may have new tokens,
its block table, and the numbers of blocks that are cached and full. -/
structure CacheCall where
  pool : BlockPool
  request : Request
  blocks : List BlockId
  numCachedBlocks : Nat
  numFullBlocks : Nat
  groupId : Nat

/-- The calls of `cache_full_blocks` that extend the block hashes of one request. -/
def hashMachine (H : BlockHasher) (bs : Nat) (s : HashState) :
    Machine HashState CacheCall PyError where
  init := s
  step s c := do
    let (_, hashes) ← c.pool.cacheFullBlocks H c.request c.blocks s.blockHashes c.numCachedBlocks
      c.numFullBlocks bs c.groupId
    return ⟨c.request, hashes⟩

/-- What the manager passes: the same request later on, whose last cached block has the hash that
is recorded for it. -/
structure CacheCall.Continues (s : HashState) (c : CacheCall) : Prop where
  request : s.request.Extends c.request
  backed : ∀ i, c.numCachedBlocks = i + 1 → ∀ b, c.blocks[i]? = some b →
    ∀ h, (c.pool.block b).blockHash = some h → s.blockHashes[i]? = some h.blockHash

/-- **The condition on a call**: only the last multi-modal item matters for the blocks that are
hashed incrementally. -/
def CacheCall.HashesLastItemOnly (bs : Nat) (s : HashState) (c : CacheCall) : Prop :=
  ∀ k < c.numFullBlocks, s.blockHashes.length ≤ k → LastItemOnly bs c.request k

section Runs

variable {H : BlockHasher} {bs : Nat} {s t : HashState} {r : Request} {hashes : List BlockHash}

theorem prevFits_onChain {i : Nat} {prev : Option Int} {rid : ReqId}
    (h : PrevFits (OnChain H bs r) rid i prev) : prev = chainPrev H bs r i := by
  cases i with
  | zero => exact h
  | succ i =>
    obtain ⟨k, ⟨rfl, -⟩, rfl⟩ := h
    rfl

/-- **One call keeps the list on the chain.** -/
theorem recorded_onChain_step {s₀ : HashState} (hbs : 0 < bs) (hord : s.request.MmOrdered)
    (hrec : Recorded (OnChain H bs s.request) s.request.requestId s.blockHashes) {c : CacheCall}
    (hcont : c.Continues s) (hlast : c.HashesLastItemOnly bs s)
    (hstep : (hashMachine H bs s₀).step s c = .ok t) :
    t.request.MmOrdered ∧
      Recorded (OnChain H bs t.request) t.request.requestId t.blockHashes := by
  obtain ⟨⟨p, hashes⟩, h₁, h₂⟩ := bind_eq_ok.mp hstep
  cases h₂
  have hord' : c.request.MmOrdered := by
    rw [Request.MmOrdered, hcont.request.mmPositions]
    exact hord
  have hrec' : Recorded (OnChain H bs c.request) c.request.requestId s.blockHashes := by
    intro i h hi
    obtain ⟨rfl, hle⟩ := hrec i h hi
    refine ⟨(chainHash_extends hcont.request hle).symm, hle.trans ?_⟩
    exact hcont.request.allTokenIds.length_le
  refine ⟨hord', (recorded_cacheFullBlocks hrec' ?_ ?_ h₁).1⟩
  · intro i prev h hlo hhi hprev hc
    rw [prevFits_onChain hprev] at hc
    exact computeBlockHash_eq hord' hbs (hlast i hhi hlo) hc
  · intro prev hprev
    unfold BlockPool.prevBlockHash at hprev
    cases hn : c.numCachedBlocks with
    | zero => simpa [PrevFits, hn] using hprev.symm
    | succ i =>
      rw [hn, if_neg (by omega), show ((i + 1 : Nat) : Int) - 1 = (i : Nat) by omega,
        pyGet?_natCast] at hprev
      cases hb : c.blocks[i]? with
      | none => simp [hb] at hprev
      | some b =>
        cases hk : (c.pool.block b).blockHash with
        | none => simp [hb, hk] at hprev
        | some k =>
          obtain rfl : some k.getHashValue = prev := by simpa [hb, hk] using hprev
          exact ⟨k.blockHash, hrec' i _ (hcont.backed i hn b hb k hk), rfl⟩

/-- A list of hashes on the chain is a part of the from-scratch list. -/
theorem prefix_of_recorded {rid : ReqId} {full : List BlockHash} (hbs : 0 < bs)
    (hord : r.MmOrdered) (hrec : Recorded (OnChain H bs r) rid hashes)
    (hfull : hashRequestTokens H bs r = .ok full) : hashes <+: full := by
  rw [hashRequestTokens_eq hord hfull]
  refine List.prefix_iff_getElem?.mpr fun i hi => ?_
  obtain ⟨h₁, h₂⟩ := hrec i hashes[i] (List.getElem?_eq_getElem hi)
  have hlt : i < r.numTokens / bs := by
    rw [Nat.lt_iff_add_one_le, Nat.le_div_iff_mul_le hbs]
    exact h₂
  rw [List.getElem?_map, List.getElem?_range hlt, h₁]
  rfl

/-- **The two paths agree.** Every run of `cache_full_blocks` calls whose incrementally hashed blocks
meet the condition records, from no or from all prompt hashes, a prefix of the list that
`hash_request_tokens` computes from scratch; it is the whole list once all full blocks are cached. -/
theorem blockHashes_prefix_hashRequestTokens (hbs : 0 < bs) (hord : r.MmOrdered)
    (hstart : hashes = [] ∨ hashRequestTokens H bs r = .ok hashes)
    (hs : (hashMachine H bs ⟨r, hashes⟩).Reach
      (fun s c => c.Continues s ∧ c.HashesLastItemOnly bs s) s)
    {full : List BlockHash} (hfull : hashRequestTokens H bs s.request = .ok full) :
    s.blockHashes <+: full ∧
      (s.blockHashes.length = s.request.numTokens / bs → s.blockHashes = full) := by
  have hinv : s.request.MmOrdered ∧
      Recorded (OnChain H bs s.request) s.request.requestId s.blockHashes := by
    refine hs.invariant (I := fun s => s.request.MmOrdered ∧
      Recorded (OnChain H bs s.request) s.request.requestId s.blockHashes) ⟨hord, ?_⟩ ?_
    · rcases hstart with rfl | hstart
      · intro i h hi
        simp [hashMachine] at hi
      · intro i h hi
        have hi' : hashes[i]? = some h := hi
        rw [hashRequestTokens_eq hord hstart] at hi'
        obtain ⟨hlt, rfl⟩ := List.getElem?_eq_some_iff.mp hi'
        simp only [List.length_map, List.length_range] at hlt
        refine ⟨by simp [hashMachine], ?_⟩
        exact (Nat.le_div_iff_mul_le hbs).mp hlt
    · rintro s c t ⟨h₁, h₂⟩ ⟨hcont, hlast⟩ hstep
      exact recorded_onChain_step hbs h₁ h₂ hcont hlast hstep
  have hpre := prefix_of_recorded hbs hinv.1 hinv.2 hfull
  refine ⟨hpre, fun hlen => hpre.eq_of_length ?_⟩
  rw [hlen, length_hashRequestTokens hfull]

end Runs

/-! ## An image at a block boundary -/

/-- A prompt of one block with an image of the given length at its start. -/
def imageRequest (length : Nat) (output : List TokenId) : Request :=
  { requestId := 1, promptTokenIds := [7, 7], outputTokenIds := output
    mmPositions := [⟨0, length⟩], mmHashes := ["image"] }

/-- A pool that has given out the blocks 1 and 2. -/
def imagePool : Except PyError BlockPool := do
  let p ← BlockPool.init 4 true false
  let (_, p') ← p.getNewBlocks 2
  return p'

/-- Cache the block of the prompt and one block of generated tokens. -/
def imageCall (length : Nat) (p : BlockPool) : CacheCall :=
  { pool := p, request := imageRequest length [5, 6], blocks := [1, 2]
    numCachedBlocks := 0, numFullBlocks := 2, groupId := 0 }

/-- The from-scratch lists before and after the call, and the state that the call leads to. -/
def imageRun (H : BlockHasher) (length : Nat) :
    Except PyError (BlockPool × List BlockHash × List BlockHash × HashState) := do
  let p ← imagePool
  let prompt ← hashRequestTokens H 2 (imageRequest length [])
  let full ← hashRequestTokens H 2 (imageRequest length [5, 6])
  let s ← (hashMachine H 2 ⟨imageRequest length [], prompt⟩).step
    ⟨imageRequest length [], prompt⟩ (imageCall length p)
  return (p, prompt, full, s)

theorem imageCall_continues (length : Nat) (p : BlockPool) (prompt : List BlockHash) :
    (imageCall length p).Continues ⟨imageRequest length [], prompt⟩ where
  request := ⟨rfl, rfl, List.nil_prefix, rfl, rfl, rfl, rfl⟩
  backed i hi := by simp [imageCall] at hi

theorem imageRun_ok {H : BlockHasher} {length : Nat} {p : BlockPool} {prompt full : List BlockHash}
    {s : HashState} (h : imageRun H length = .ok (p, prompt, full, s)) :
    hashRequestTokens H 2 (imageRequest length []) = .ok prompt ∧
      hashRequestTokens H 2 (imageRequest length [5, 6]) = .ok full ∧
      (hashMachine H 2 ⟨imageRequest length [], prompt⟩).step
        ⟨imageRequest length [], prompt⟩ (imageCall length p) = .ok s ∧
      s.request = imageRequest length [5, 6] := by
  obtain ⟨p', -, h₁⟩ := bind_eq_ok.mp h
  obtain ⟨prompt', h₂, h₃⟩ := bind_eq_ok.mp h₁
  obtain ⟨full', h₄, h₅⟩ := bind_eq_ok.mp h₃
  obtain ⟨s', h₆, h₇⟩ := bind_eq_ok.mp h₅
  obtain ⟨rfl, rfl, rfl, rfl⟩ := triple_of_ok h₇
  refine ⟨h₂, h₄, h₆, ?_⟩
  obtain ⟨⟨q, hashes⟩, -, h₈⟩ := bind_eq_ok.mp h₆
  cases h₈
  rfl

/-- **An image that ends at the block boundary** is a key of the next block on the incremental
path, and not from scratch. -/
theorem blockHashes_ne_hashRequestTokens :
    ∃ prompt full s, (imageRequest 2 []).MmOrdered ∧
      hashRequestTokens BlockHasher.encoding 2 (imageRequest 2 []) = .ok prompt ∧
      (hashMachine BlockHasher.encoding 2 ⟨imageRequest 2 [], prompt⟩).Reach
        (fun s c => c.Continues s) s ∧
      hashRequestTokens BlockHasher.encoding 2 s.request = .ok full ∧
      s.blockHashes.length = full.length ∧ s.blockHashes ≠ full := by
  have hrun : (match imageRun BlockHasher.encoding 2 with
      | .ok (_, _, full, s) =>
        decide (s.blockHashes.length = full.length ∧ s.blockHashes ≠ full)
      | .error _ => false) = true := by decide +kernel
  cases h : imageRun BlockHasher.encoding 2 with
  | error e => simp [h] at hrun
  | ok x =>
    obtain ⟨p, prompt, full, s⟩ := x
    obtain ⟨h₁, h₂, h₃, h₄⟩ := imageRun_ok h
    simp only [h, decide_eq_true_eq] at hrun
    exact ⟨prompt, full, s, by decide, h₁, Machine.Reach.start.next
      (imageCall_continues 2 p prompt) h₃, by rw [h₄]; exact h₂, hrun⟩

/-- The theorem on an image that ends inside the prompt's block. -/
theorem blockHashes_eq_of_image_inside :
    ∃ prompt full s, hashRequestTokens BlockHasher.encoding 2 (imageRequest 1 []) = .ok prompt ∧
      hashRequestTokens BlockHasher.encoding 2 s.request = .ok full ∧
      (hashMachine BlockHasher.encoding 2 ⟨imageRequest 1 [], prompt⟩).Reach
        (fun s c => c.Continues s ∧ c.HashesLastItemOnly 2 s) s ∧
      s.blockHashes.length = 2 ∧ s.blockHashes = full := by
  have hrun : (match imageRun BlockHasher.encoding 1 with
      | .ok (_, _, _, s) => decide (s.blockHashes.length = 2)
      | .error _ => false) = true := by decide +kernel
  cases h : imageRun BlockHasher.encoding 1 with
  | error e => simp [h] at hrun
  | ok x =>
    obtain ⟨p, prompt, full, s⟩ := x
    obtain ⟨h₁, h₂, h₃, h₄⟩ := imageRun_ok h
    simp only [h, decide_eq_true_eq] at hrun
    have hlast : (imageCall 1 p).HashesLastItemOnly 2 ⟨imageRequest 1 [], prompt⟩ := by
      have hall : ∀ k < 2, LastItemOnly 2 (imageRequest 1 [5, 6]) k := by decide
      exact fun k hk _ => hall k hk
    have hreach : (hashMachine BlockHasher.encoding 2 ⟨imageRequest 1 [], prompt⟩).Reach
        (fun s c => c.Continues s ∧ c.HashesLastItemOnly 2 s) s :=
      Machine.Reach.start.next ⟨imageCall_continues 1 p prompt, hlast⟩ h₃
    have hfull : hashRequestTokens BlockHasher.encoding 2 s.request = .ok full := by
      rw [h₄]
      exact h₂
    exact ⟨prompt, full, s, h₁, hfull, hreach, hrun,
      (blockHashes_prefix_hashRequestTokens (by decide) (by decide) (.inr h₁) hreach hfull).2
        (by rw [hrun, h₄]; rfl)⟩

end InferenceServer
