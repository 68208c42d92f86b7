import InferenceServer.Lib.Outcome
import InferenceServer.Request
import Mathlib.Logic.Equiv.List

/-!
# Block hashes

The hashes under which full blocks enter the prefix cache (`vllm/v1/core/kv_cache_utils.py`).
The hash of a block is taken over the hash of the block before it, its tokens and its extra
keys: the LoRA id, the hashes of the multi-modal items in the block and, in the first block, the
cache salt.

The hash function and `NONE_HASH` are parameters (`BlockHasher`); the source passes the built-in
`hash`, `sha256` or `sha256_cbor_64bit`.

## Main results

* `BlockHasher.Depth.unique`, `hashBlocksFrom_induction`
* `BlockHasher.lawful_encoding`: there is an injective block hash function
-/

namespace InferenceServer

open Outcome

/-- An element of the tuple of extra keys. A LoRA id is an integer; the hash of a multi-modal
item and the cache salt are strings. -/
inductive ExtraKey where
  | int (i : Int)
  | str (s : String)
deriving DecidableEq, Repr

/-- The hash of a block, with the data it was taken over. -/
structure BlockHash where
  hashValue : Int
  tokenIds : List TokenId
  extraKeys : Option (List ExtraKey)
deriving DecidableEq, Repr

/-- The key of the prefix cache. -/
structure BlockHashWithGroupId where
  blockHash : BlockHash
  groupId : Nat
deriving DecidableEq, Repr

def BlockHashWithGroupId.getHashValue (h : BlockHashWithGroupId) : Int := h.blockHash.hashValue

/-- The hash function of the manager and the global `NONE_HASH`. -/
structure BlockHasher where
  hashFunction : Int → List TokenId → Option (List ExtraKey) → Int
  noneHash : Int

/-! ## Extra keys -/

/-- Whether the blocks of the request need extra keys. -/
def needExtraKeys (r : Request) : Bool :=
  !r.mmHashes.isEmpty || r.loraRequest.isSome || r.cacheSalt.isSome

/-- The `while` loop of `_gen_mm_extra_hash_keys`, over the items from index `i` on: the keys
and the index at which it stops. -/
def scanMm (start stop : Int) : List (PlaceholderRange × String) → Nat → List ExtraKey × Nat
  | [], i => ([], i)
  | (p, h) :: l, i =>
    if stop > p.offset then
      -- the block has passed the item
      if start > p.stop then scanMm start stop l (i + 1)
      else if stop ≥ p.stop then
        let (keys, j) := scanMm start stop l (i + 1)
        (.str h :: keys, j)
      else ([.str h], i)
    else ([], i)

/-- `_gen_mm_extra_hash_keys`. A negative start index counts from the last item. -/
def genMmExtraHashKeys (r : Request) (start stop : Int) (startMmIdx : Int) :
    Except PyError (List ExtraKey × Int) :=
  match r.mmPositions.getLast? with
  | none => .ok ([], startMmIdx)
  | some last =>
    if r.mmPositions.length ≠ r.mmHashes.length then .error .valueError
    else if (last.stop : Int) < start then .ok ([], startMmIdx)
    else do
      require (startMmIdx < 0 → -startMmIdx ≤ r.mmPositions.length)
        (.assertionError .genMmExtraHashKeys)
      let idx := (if startMmIdx < 0 then r.mmPositions.length + startMmIdx else startMmIdx).toNat
      let (keys, i) := scanMm start stop ((r.mmPositions.zip r.mmHashes).drop idx) idx
      return (keys, (i : Int))

/-- `_gen_lora_extra_hash_keys`. -/
def genLoraExtraHashKeys (r : Request) : List ExtraKey :=
  match r.loraRequest with
  | none => []
  | some lora => [.int lora.loraIntId]

/-- The cache salt, for the first block only; an empty salt counts as none. -/
def cacheSaltKeys (r : Request) (start : Int) : List ExtraKey :=
  match r.cacheSalt with
  | some salt => if start = 0 ∧ salt ≠ "" then [.str salt] else []
  | none => []

/-- The tuple of the keys, or `None` if there are none. -/
def keyTuple (keys : List ExtraKey) : Option (List ExtraKey) :=
  if keys.isEmpty then none else some keys

/-- `generate_block_hash_extra_keys`. -/
def generateBlockHashExtraKeys (r : Request) (start stop : Int) (startMmIdx : Int) :
    Except PyError (Option (List ExtraKey) × Int) := do
  let (mmExtraKeys, newStartMmIdx) ← genMmExtraHashKeys r start stop startMmIdx
  return (keyTuple (genLoraExtraHashKeys r ++ mmExtraKeys ++ cacheSaltKeys r start),
    newStartMmIdx)

/-! ## Hashes -/

/-- The hash value of the previous block as the hash function is given it: a missing and a zero
hash are both replaced by `NONE_HASH`. -/
def BlockHasher.parentHash (H : BlockHasher) : Option Int → Int
  | none => H.noneHash
  | some p => if p = 0 then H.noneHash else p

/-- `hash_block_tokens`. -/
def hashBlockTokens (H : BlockHasher) (parentBlockHash : Option Int) (tokenIds : List TokenId)
    (extraKeys : Option (List ExtraKey)) : BlockHash :=
  { hashValue := H.hashFunction (H.parentHash parentBlockHash) tokenIds extraKeys
    tokenIds, extraKeys }

/-- The tokens of block `k`. -/
def blockTokens (bs : Nat) (tokenIds : List TokenId) (k : Nat) : List TokenId :=
  (tokenIds.drop (k * bs)).take bs

/-- The extra keys of block `k` in `hash_request_tokens`, and the next multi-modal index. -/
def scratchExtraKeys (bs : Nat) (r : Request) (k : Nat) (currMmIdx : Int) :
    Except PyError (Option (List ExtraKey) × Int) :=
  if needExtraKeys r then
    generateBlockHashExtraKeys r (k * bs : Nat) ((k + 1) * bs : Nat) currMmIdx
  else .ok (none, currMmIdx)

/-- The loop of `hash_request_tokens`: the hashes of `n` blocks from block `k` on. -/
def hashBlocksFrom (H : BlockHasher) (bs : Nat) (r : Request) :
    (n k : Nat) → (currMmIdx : Int) → (parent : Option Int) → Except PyError (List BlockHash)
  | 0, _, _, _ => .ok []
  | n + 1, k, currMmIdx, parent => do
    let (extraKeys, nextMmIdx) ← scratchExtraKeys bs r k currMmIdx
    let blockHash := hashBlockTokens H parent (blockTokens bs r.allTokenIds k) extraKeys
    let rest ← hashBlocksFrom H bs r n (k + 1) nextMmIdx (some blockHash.hashValue)
    return blockHash :: rest

/-- `hash_request_tokens`: the hashes of the full blocks of the request. The loop of the source
ends at the first block that is not full. -/
def hashRequestTokens (H : BlockHasher) (bs : Nat) (r : Request) :
    Except PyError (List BlockHash) :=
  hashBlocksFrom H bs r (r.numTokens / bs) 0 0 none

/-! ## Chains -/

variable {H : BlockHasher} {bs n k : Nat} {r : Request} {idx : Int} {parent : Option Int}
  {l : List BlockHash}

theorem hashBlocksFrom_succ_ok :
    hashBlocksFrom H bs r (n + 1) k idx parent = .ok l ↔
      ∃ keys idx' rest,
        scratchExtraKeys bs r k idx = .ok (keys, idx') ∧
        hashBlocksFrom H bs r n (k + 1) idx'
          (some (hashBlockTokens H parent (blockTokens bs r.allTokenIds k) keys).hashValue) =
            .ok rest ∧
        l = hashBlockTokens H parent (blockTokens bs r.allTokenIds k) keys :: rest := by
  simp only [hashBlocksFrom, bind_eq_ok, pure_eq_ok, Prod.exists]
  constructor
  · rintro ⟨keys, idx', h₁, rest, h₂, rfl⟩
    exact ⟨keys, idx', rest, h₁, h₂, rfl⟩
  · rintro ⟨keys, idx', rest, h₁, h₂, rfl⟩
    exact ⟨keys, idx', h₁, rest, h₂, rfl⟩

theorem length_hashBlocksFrom
    (h : hashBlocksFrom H bs r n k idx parent = .ok l) : l.length = n := by
  induction n generalizing k idx parent l with
  | zero =>
    obtain rfl : [] = l := by simpa [hashBlocksFrom] using h
    rfl
  | succ n ih =>
    obtain ⟨_, _, rest, -, h₂, rfl⟩ := hashBlocksFrom_succ_ok.mp h
    simp [ih h₂]

theorem length_hashRequestTokens
    (h : hashRequestTokens H bs r = .ok l) : l.length = r.numTokens / bs :=
  length_hashBlocksFrom h

/-- **Induction along the from-scratch list**: a property of a position and the hash there that
is passed on by `hash_block_tokens` holds of every entry. -/
theorem hashBlocksFrom_induction {P : Nat → BlockHash → Prop}
    (h : hashBlocksFrom H bs r n k idx parent = .ok l)
    (hfirst : ∀ keys, P k (hashBlockTokens H parent (blockTokens bs r.allTokenIds k) keys))
    (hnext : ∀ j b keys, P j b → P (j + 1)
      (hashBlockTokens H (some b.hashValue) (blockTokens bs r.allTokenIds (j + 1)) keys)) :
    ∀ i b, l[i]? = some b → P (k + i) b := by
  induction n generalizing k idx parent l with
  | zero =>
    obtain rfl : [] = l := by simpa [hashBlocksFrom] using h
    simp
  | succ n ih =>
    obtain ⟨keys, idx', rest, -, h₂, rfl⟩ := hashBlocksFrom_succ_ok.mp h
    intro i b hi
    cases i with
    | zero =>
      obtain rfl : _ = b := by simpa using hi
      exact hfirst keys
    | succ i =>
      have hrec := ih h₂ (fun keys' => hnext k _ keys' (hfirst keys)) i b (by simpa using hi)
      rwa [show k + (i + 1) = k + 1 + i by omega]

/-! ## Injective hash functions -/

/-- **The block hash function is injective** on what it is called with: the previous hash is
missing or the hash of some block. -/
structure BlockHasher.Lawful (H : BlockHasher) : Prop where
  injective : ∀ p t e p' t' e', H.hashFunction p t e = H.hashFunction p' t' e' →
    p = p' ∧ t = t' ∧ e = e'
  ne_noneHash : ∀ p t e, H.hashFunction p t e ≠ H.noneHash
  ne_zero : ∀ p t e, H.hashFunction p t e ≠ 0

/-- `v` is a hash value of the `n`-th block of some chain of blocks. -/
inductive BlockHasher.Depth (H : BlockHasher) : Int → Nat → Prop where
  | first (t : List TokenId) (e : Option (List ExtraKey)) :
      Depth H (H.hashFunction H.noneHash t e) 1
  | next {p : Int} {n : Nat} (h : Depth H p n) (t : List TokenId) (e : Option (List ExtraKey)) :
      Depth H (H.hashFunction p t e) (n + 1)

namespace BlockHasher

variable {H : BlockHasher}

theorem Depth.eq_hash {v : Int} {n : Nat} (h : H.Depth v n) :
    ∃ p t e, v = H.hashFunction p t e := by
  cases h with
  | first t e => exact ⟨_, _, _, rfl⟩
  | next _ t e => exact ⟨_, _, _, rfl⟩

/-- **A hash value belongs to one position.** -/
theorem Depth.unique (hH : H.Lawful) {v : Int} {n m : Nat} (hn : H.Depth v n)
    (hm : H.Depth v m) : n = m := by
  induction hn generalizing m with
  | first t e =>
    generalize hv : H.hashFunction H.noneHash t e = v at hm
    cases hm with
    | first => rfl
    | next hp =>
      obtain ⟨p, t', e', rfl⟩ := hp.eq_hash
      exact absurd (hH.injective _ _ _ _ _ _ hv).1.symm (hH.ne_noneHash _ _ _)
  | @next p k hp t e ih =>
    generalize hv : H.hashFunction p t e = v at hm
    cases hm with
    | first =>
      obtain ⟨p', t', e', rfl⟩ := hp.eq_hash
      exact absurd (hH.injective _ _ _ _ _ _ hv).1 (hH.ne_noneHash _ _ _)
    | next hp' =>
      obtain rfl := (hH.injective _ _ _ _ _ _ hv).1
      rw [ih hp']

theorem parentHash_of_depth (hH : H.Lawful) {v : Int} {n : Nat} (h : H.Depth v n) :
    H.parentHash (some v) = v := by
  obtain ⟨p, t, e, rfl⟩ := h.eq_hash
  simp [parentHash, hH.ne_zero]

end BlockHasher

theorem depth_hashBlockTokens_first (H : BlockHasher) (t : List TokenId)
    (e : Option (List ExtraKey)) : H.Depth (hashBlockTokens H none t e).hashValue 1 :=
  .first t e

theorem depth_hashBlockTokens_next (hH : H.Lawful) {v : Int}
    (h : H.Depth v n) (t : List TokenId) (e : Option (List ExtraKey)) :
    H.Depth (hashBlockTokens H (some v) t e).hashValue (n + 1) := by
  unfold hashBlockTokens
  rw [BlockHasher.parentHash_of_depth hH h]
  exact h.next t e

/-! ## A hash function without collisions -/

/-- An extra key as a list of numbers. -/
def ExtraKey.code : ExtraKey → List Nat
  | .int i => [0, Encodable.encode i]
  | .str s => 1 :: s.toList.map Char.toNat

theorem ExtraKey.code_injective : Function.Injective ExtraKey.code := by
  intro a b h
  cases a with
  | int i =>
    cases b with
    | int j => simpa [ExtraKey.code] using h
    | str t => simp [ExtraKey.code] at h
  | str s =>
    cases b with
    | int j => simp [ExtraKey.code] at h
    | str t =>
      have hst : s.toList.map Char.toNat = t.toList.map Char.toNat := by
        simpa [ExtraKey.code] using h
      have hinj : Function.Injective Char.toNat := fun c d hcd => Char.ext (UInt32.toNat_inj.mp hcd)
      rw [String.toList_injective (List.map_injective_iff.mpr hinj hst)]

/-- A hash function without collisions. -/
def BlockHasher.encoding : BlockHasher where
  hashFunction p t e := (Encodable.encode (p, t, e.map (List.map ExtraKey.code)) : Nat) + 1
  noneHash := -1

theorem BlockHasher.lawful_encoding : BlockHasher.encoding.Lawful where
  injective p t e p' t' e' h := by
    have h' : Encodable.encode (p, t, e.map (List.map ExtraKey.code)) =
        Encodable.encode (p', t', e'.map (List.map ExtraKey.code)) := by
      simpa [encoding] using h
    obtain ⟨hp, ht, he⟩ := Prod.mk.injEq .. ▸ Prod.mk.injEq .. ▸ Encodable.encode_injective h'
    exact ⟨hp, ht, Option.map_injective (List.map_injective_iff.mpr ExtraKey.code_injective) he⟩
  ne_noneHash p t e := by
    simp only [encoding]
    omega
  ne_zero p t e := by
    simp only [encoding]
    omega

end InferenceServer
