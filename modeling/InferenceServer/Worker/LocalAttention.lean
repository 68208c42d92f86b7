import InferenceServer.Lib.Chunks
import InferenceServer.Worker.SpecDecodeMetadata

/-!
# Chunked local attention

With chunked local attention a token sees only the keys of its own chunk, up to itself.
`make_local_attention_virtual_batches` (`vllm/v1/attention/backends/utils.py`) gets this from a kernel
for causal attention: it cuts every request at the boundaries of the chunks, and makes of each piece a
*virtual* batch, with the keys of its chunk and the blocks that hold them. Kernel and request agree on
what a query token reads, which is a list of slots: a block, and a position in it.

## Main results

* `makeLocalAttentionVirtualBatches_eq`, `virtual_batches_read_locally`
-/

namespace InferenceServer.PersistentBatch

open Outcome Ragged
open List (getElem?_eq_getElem length_flatMap map_congr_left map_map range replicate zipWith)
open Int (fdiv fmod)

/-! ## The function -/

/-- A value that numpy could not compute. -/
def orValueError {α : Type} : Option α → Except PyError α
  | none => .error .valueError
  | some a => .ok a

/-- `block_table[batch_indices, block_indices]`, at one place. -/
def blockAt (blockTable : List (List Int)) (batchIndex blockIndex : Int) : Except PyError Int :=
  match (pyGet? blockTable batchIndex).bind fun row => pyGet? row blockIndex with
  | none => .error .indexError
  | some block => .ok block

/-- `l[-1]`. -/
def lastOf (l : List Int) : Except PyError Int :=
  match l.getLast? with
  | none => .error .indexError
  | some n => .ok n

/-- `make_local_attention_virtual_batches`. -/
def makeLocalAttentionVirtualBatches (attnChunkSize : Int) (m : CommonAttentionMetadata)
    (blockSize : Int) : Except PyError CommonAttentionMetadata := do
  let qSeqlens := m.queryLens
  let actualBatchSize := m.seqLens.length
  let qTokensInFirstBlock := List.zipWith
    (fun k q => min (attnChunkSize - Int.fmod (k - q) attnChunkSize) q) m.seqLens qSeqlens
  let tokensInLastBlock := m.seqLens.map fun k => attnChunkSize + Int.fmod k (-attnChunkSize)
  let localBlocks := List.zipWith (fun q first => 1 + cdiv (q - first) attnChunkSize) qSeqlens
    qTokensInFirstBlock
  let cuNumBlocks := cumsum localBlocks
  let virtualBatches ← lastOf cuNumBlocks
  let blockOffsets := npRepeat (List.zipWith (· - ·) cuNumBlocks localBlocks) localBlocks
  let arange := List.zipWith (· - ·)
    ((List.range' 0 virtualBatches.toNat).map fun i : Nat => (i : Int)) blockOffsets
  let rarange := List.zipWith (fun n a => n - a - 1) (npRepeat localBlocks localBlocks) arange
  let seqlensQLocal := npRepeat (List.zipWith (· - ·) qSeqlens qTokensInFirstBlock) localBlocks
  let seqlensQLocal ← orValueError
    (maskAssign seqlensQLocal (arange.map fun a => decide (a = 0)) qTokensInFirstBlock)
  let later := arange.map fun a => decide (0 < a)
  let seqlensQLocal ← orValueError (maskAssign seqlensQLocal later (maskSelect
    (List.zipWith (fun q a => min (q - attnChunkSize * (a - 1)) attnChunkSize) seqlensQLocal arange)
    later))
  let cuSeqlensQLocal := 0 :: cumsum seqlensQLocal
  let seqlensKLocal := List.replicate virtualBatches.toNat attnChunkSize
  let seqlensKLocal ← orValueError
    (indexAssign seqlensKLocal (cuNumBlocks.map fun n => n - 1) tokensInLastBlock)
  let numComputedTokensLocal := List.zipWith (· - ·) seqlensKLocal seqlensQLocal
  let kSeqstartsAbsolute := List.zipWith (· - ·) (npRepeat m.seqLens localBlocks)
    (List.zipWith (fun r last => r * attnChunkSize + last) rarange
      (npRepeat tokensInLastBlock localBlocks))
  let blockStarts := kSeqstartsAbsolute.map fun n => Int.fdiv n blockSize
  require (Int.fmod attnChunkSize blockSize = 0) (.assertionError .makeLocalAttentionVirtualBatches)
  let pagesPerLocalBatch := Int.fdiv attnChunkSize blockSize
  let blockIndices := blockStarts.flatMap fun start =>
    (List.range pagesPerLocalBatch.toNat).map fun i : Nat => (i : Int) + start
  -- the number of columns of the block table
  let width : Int := (m.blockTable.headD []).length
  let blockIndices := blockIndices.map fun i => min i (width - 1)
  let batchIndices := npRepeat ((List.range actualBatchSize).map fun i : Nat => (i : Int))
    (localBlocks.map fun n => n * pagesPerLocalBatch)
  require (batchIndices.length = blockIndices.length) .indexError
  let blocks ← (batchIndices.zip blockIndices).mapM fun e => blockAt m.blockTable e.1 e.2
  let blockTableLocal := chunks (blocks.length / virtualBatches.toNat) blocks
  -- `max` of an empty array
  require (seqlensQLocal ≠ []) .valueError
  return {
    queryStartLoc := cuSeqlensQLocal
    seqLens := seqlensKLocal
    numComputedTokens := numComputedTokensLocal
    numReqs := seqlensKLocal.length
    numActualTokens := m.numActualTokens
    maxQueryLen := seqlensQLocal.foldl max (seqlensQLocal.headD 0)
    blockTable := blockTableLocal
    slotMapping := m.slotMapping
    causal := true }

/-! ## What a query token reads -/

/-- The slot of a key: its block in the table of the batch, and its position in the block. -/
def slotOf (blockSize : Nat) (row : List Int) (key : Nat) : Option (Int × Nat) :=
  row[key / blockSize]?.map fun block => (block, key % blockSize)

/-- What the query tokens of a batch read: a token, by its number among all query tokens, and the slots of
the keys it sees. -/
def queryReads (keysOf : Nat → List Nat) (blockSize : Nat) (start queryLen : Int) (row : List Int) :
    List (Int × List (Option (Int × Nat))) :=
  (List.range queryLen.toNat).map fun t : Nat => (start + (t : Int), (keysOf t).map (slotOf blockSize row))

/-- The batches of metadata: where the query tokens start, how many they are, the length of the
sequence, and the row of the block table. -/
def CommonAttentionMetadata.batches (m : CommonAttentionMetadata) :
    List ((Int × Int) × (Int × List Int)) :=
  (m.queryStartLoc.zip m.queryLens).zip (m.seqLens.zip m.blockTable)

/-- What the query tokens of all batches read. The keys that a query token sees depend on the number of
keys before the query tokens and on its place among them. -/
def readsWith (keysOf : Nat → Nat → List Nat) (blockSize : Nat) (m : CommonAttentionMetadata) :
    List (Int × List (Option (Int × Nat))) :=
  m.batches.flatMap fun e =>
    queryReads (keysOf (e.2.1 - e.1.2).toNat) blockSize e.1.1 e.1.2 e.2.2

/-- **Causal attention**: a query token sees the keys up to its own, the last query token being at the
last key. -/
def causalReads (blockSize : Nat) : CommonAttentionMetadata → List (Int × List (Option (Int × Nat))) :=
  readsWith (fun context t => List.range (context + t + 1)) blockSize

/-- **Chunked local attention**: the query token at position `p` of its request sees the keys at the
positions from the start of its chunk up to `p`. -/
def localReads (chunk blockSize : Nat) :
    CommonAttentionMetadata → List (Int × List (Option (Int × Nat))) :=
  readsWith (fun context t =>
    let p := context + t
    List.range' (p / chunk * chunk) (p - p / chunk * chunk + 1)) blockSize

/-! ## The pieces of a request -/

/-- The number of query tokens of a request, and the length of its sequence. -/
structure SeqLens where
  queryLen : Nat
  seqLen : Nat
deriving DecidableEq, Repr

namespace SeqLens

variable {c : Nat} {r : SeqLens} {j : Nat}

/-- The position of the first query token. -/
def context (r : SeqLens) : Nat := r.seqLen - r.queryLen

/-- The number of pieces that the boundaries of the chunks make of the query tokens. -/
def pieces (c : Nat) (r : SeqLens) : Nat := (r.seqLen - 1) / c - r.context / c + 1

/-- Where the pieces meet: piece `j` goes from `bound c r j` to `bound c r (j + 1)`. -/
def bound (c : Nat) (r : SeqLens) (j : Nat) : Nat :=
  min (max ((r.context / c + j) * c) r.context) r.seqLen

/-- A request that has a query token, at its end. -/
def Valid (r : SeqLens) : Prop := 1 ≤ r.queryLen ∧ r.queryLen ≤ r.seqLen

variable (h : r.Valid) (hc : 0 < c)

include h hc

/-- The chunks of the first and of the last query token. -/
theorem Valid.chunks : r.context / c * c ≤ r.context ∧ r.context < r.context / c * c + c ∧
      (r.seqLen - 1) / c * c ≤ r.seqLen - 1 ∧ r.seqLen - 1 < (r.seqLen - 1) / c * c + c ∧
      r.context / c ≤ (r.seqLen - 1) / c ∧ r.context + r.queryLen = r.seqLen := by
  obtain ⟨h1, h2⟩ := h
  have hle : r.context ≤ r.seqLen - 1 := by rw [context]; omega
  refine ⟨Nat.div_mul_le_self _ _, Nat.lt_div_mul_add hc, Nat.div_mul_le_self _ _,
    Nat.lt_div_mul_add hc, Nat.div_le_div_right hle, ?_⟩
  rw [context]
  omega

theorem Valid.bound_zero : bound c r 0 = r.context := by
  have := h.chunks hc
  rw [bound, Nat.add_zero]
  omega

/-- A boundary after the first one is the start of a chunk. -/
theorem Valid.bound_succ : bound c r (j + 1) = min ((r.context / c + (j + 1)) * c) r.seqLen := by
  have := h.chunks hc
  have hmul : (r.context / c + (j + 1)) * c = r.context / c * c + c + j * c := by ring
  rw [bound, hmul]
  omega

theorem Valid.bound_pieces : bound c r (pieces c r) = r.seqLen := by
  have hk := h.chunks hc
  rw [pieces, h.bound_succ hc]
  have hsum : r.context / c + ((r.seqLen - 1) / c - r.context / c + 1) = (r.seqLen - 1) / c + 1 := by
    omega
  rw [hsum, Nat.succ_mul]
  omega

/-- A piece is in its chunk, and the chunk starts before the end of the sequence. -/
theorem Valid.bound_lt (hj : j < pieces c r) :
    (r.context / c + j) * c < r.seqLen ∧ (r.context / c + j) * c ≤ bound c r j ∧
      bound c r j ≤ bound c r (j + 1) ∧ bound c r (j + 1) ≤ (r.context / c + j) * c + c ∧
      bound c r (j + 1) ≤ r.seqLen := by
  have hk := h.chunks hc
  rw [pieces] at hj
  have hle : (r.context / c + j) * c ≤ (r.seqLen - 1) / c * c := Nat.mul_le_mul_right c (by omega)
  have hmul : (r.context / c + (j + 1)) * c = (r.context / c + j) * c + c := by ring
  have hpos := h.1
  have hstart : r.context / c * c ≤ (r.context / c + j) * c := Nat.mul_le_mul_right c (by omega)
  rw [h.bound_succ hc, bound, hmul]
  omega

/-! ### What the array arithmetic computes -/

theorem Valid.first : min ((c : Int) - fmod ((r.seqLen : Int) - r.queryLen) c) r.queryLen =
      ((bound c r 1 - bound c r 0 : Nat) : Int) := by
  have hk := h.chunks hc
  have hctx : (r.seqLen : Int) - r.queryLen = (r.context : Nat) := by omega
  have hmod : fmod ((r.context : Nat) : Int) c = ((r.context - r.context / c * c : Nat) : Int) := by
    rw [Int.fmod_eq_emod_of_nonneg _ (by omega), ← Int.natCast_mod, Nat.mod_eq_sub_div_mul]
  rw [hctx, hmod, h.bound_zero hc, h.bound_succ hc]
  have hmul : (r.context / c + (0 + 1)) * c = r.context / c * c + c := by ring
  rw [hmul]
  omega

theorem Valid.last : (c : Int) + fmod (r.seqLen : Int) (-(c : Int)) =
      ((r.seqLen - (r.seqLen - 1) / c * c : Nat) : Int) := by
  have hk := h.chunks hc
  have hpos := h.1
  have hneg : fmod (r.seqLen : Int) (-(c : Int)) = -(fmod (-(r.seqLen : Int)) c) := by
    rw [← Int.neg_fmod_neg, neg_neg]
  -- the rest of the sequence up to the next boundary
  have hrest : fmod (-(r.seqLen : Int)) c =
      (((r.seqLen - 1) / c * c + c - r.seqLen : Nat) : Int) := by
    rw [Int.fmod_eq_emod_of_nonneg _ (by omega)]
    have hsplit : -(r.seqLen : Int) =
        (((r.seqLen - 1) / c * c + c - r.seqLen : Nat) : Int) + c * (-(((r.seqLen - 1) / c + 1 : Nat) : Int)) := by
      have hmul : (c : Int) * (-(((r.seqLen - 1) / c + 1 : Nat) : Int)) =
          -(((r.seqLen - 1) / c * c + c : Nat) : Int) := by
        push_cast
        ring
      rw [hmul]
      omega
    rw [hsplit, Int.add_mul_emod_self_left, Int.emod_eq_of_lt (by omega) (by omega)]
  rw [hneg, hrest]
  omega

theorem Valid.blocks : 1 + cdiv ((r.queryLen : Int) - ((bound c r 1 - bound c r 0 : Nat) : Int)) c =
      ((pieces c r : Nat) : Int) := by
  have hk := h.chunks hc
  have hpos := h.1
  have hlast : ((r.seqLen - 1) / c - r.context / c) * c =
      (r.seqLen - 1) / c * c - r.context / c * c := Nat.sub_mul _ _ _
  have hmul : (r.context / c + (0 + 1)) * c = r.context / c * c + c := by ring
  have hcdiv : cdiv ((r.queryLen : Int) - ((bound c r 1 - bound c r 0 : Nat) : Int)) c =
      (((r.seqLen - 1) / c - r.context / c : Nat) : Int) := by
    rw [h.bound_zero hc, h.bound_succ hc, hmul]
    refine le_antisymm ((cdiv_le_iff (by omega)).mpr ?_) (not_lt.mp fun hlt => ?_)
    · rw [← Nat.cast_mul, hlast]
      omega
    · -- with one piece less, the end of the sequence is not reached
      have hle := (cdiv_le_iff (show (0 : Int) < c by omega)).mp (Int.le_sub_one_of_lt hlt)
      rw [sub_mul, one_mul, ← Nat.cast_mul, hlast] at hle
      omega
  rw [hcdiv, pieces]
  push_cast
  ring

theorem Valid.later (hj : j + 1 < pieces c r) :
    min ((r.queryLen : Int) - ((bound c r 1 - bound c r 0 : Nat) : Int) - c * (((j + 1 : Nat) : Int) - 1)) c =
      ((bound c r (j + 2) - bound c r (j + 1) : Nat) : Int) := by
  have hk := h.chunks hc
  have hlt := h.bound_lt hc hj
  have hcast : (c : Int) * (((j + 1 : Nat) : Int) - 1) = ((j * c : Nat) : Int) := by
    push_cast
    ring
  have hmul : ∀ i, (r.context / c + (i + 1)) * c = r.context / c * c + i * c + c := fun i => by ring
  have hmul' : (j + 1) * c = j * c + c := by ring
  rw [hcast, h.bound_zero hc, h.bound_succ hc, h.bound_succ hc, h.bound_succ hc, hmul, hmul, hmul,
    hmul']
  rw [hmul] at hlt
  omega

/-- The last piece is in the last chunk. -/
theorem Valid.chunk_last (hj : j + 1 = pieces c r) :
    (r.context / c + j) * c = (r.seqLen - 1) / c * c := by
  have hk := h.chunks hc
  rw [pieces] at hj
  congr 1
  omega

/-- The other pieces go up to the end of their chunks. -/
theorem Valid.bound_full (hj : j + 1 < pieces c r) :
    bound c r (j + 1) = (r.context / c + j) * c + c := by
  have hlt := (h.bound_lt hc hj).1
  have hmul : (r.context / c + (j + 1)) * c = (r.context / c + j) * c + c := by ring
  rw [h.bound_succ hc, hmul]
  rw [hmul] at hlt
  omega

theorem Valid.start (hj : j < pieces c r) : (r.seqLen : Int) - (((pieces c r : Int) - j - 1) * c +
      ((r.seqLen - (r.seqLen - 1) / c * c : Nat) : Int)) = (((r.context / c + j) * c : Nat) : Int) := by
  have hk := h.chunks hc
  rw [pieces] at hj ⊢
  have hcount : (((r.seqLen - 1) / c - r.context / c + 1 : Nat) : Int) - j - 1 =
      (((r.seqLen - 1) / c - (r.context / c + j) : Nat) : Int) := by omega
  have hmul := Nat.sub_mul ((r.seqLen - 1) / c) (r.context / c + j) c
  have hle : (r.context / c + j) * c ≤ (r.seqLen - 1) / c * c := Nat.mul_le_mul_right c (by omega)
  rw [hcount, ← Nat.cast_mul, hmul]
  omega

end SeqLens

/-! ## The virtual batches -/

/-- **The batch that metadata are about**: the numbers of the query tokens and the lengths of the
sequences, and a block table of the given width. -/
structure CommonAttentionMetadata.Lengths (m : CommonAttentionMetadata) (reqs : List SeqLens)
    (width : Nat) : Prop where
  queryStartLoc : m.queryStartLoc = 0 :: cumsum (counts reqs SeqLens.queryLen)
  seqLens : m.seqLens = counts reqs SeqLens.seqLen
  rows : m.blockTable.length = reqs.length
  width : ∀ row ∈ m.blockTable, row.length = width

/-- A piece of a request: the request, with its row in the batch, and the number of the piece. -/
abbrev Piece := (SeqLens × Nat) × Nat

namespace Piece

/-- The start of its chunk. -/
def chunkStart (c : Nat) (v : Piece) : Nat := (v.1.1.context / c + v.2) * c

/-- Its number of query tokens. -/
def queryLen (c : Nat) (v : Piece) : Nat := v.1.1.bound c (v.2 + 1) - v.1.1.bound c v.2

/-- Its number of keys. -/
def seqLen (c : Nat) (v : Piece) : Nat := v.1.1.bound c (v.2 + 1) - v.chunkStart c

/-- Its row of the block table, with `pages` blocks. -/
def blocks (c pages width : Nat) (blockTable : List (List Int)) (v : Piece) : List Int :=
  (List.range pages).map fun t =>
    (blockTable.getD v.1.2 []).getD (min ((v.1.1.context / c + v.2) * pages + t) (width - 1)) 0

end Piece

/-- The pieces of all requests, in order. -/
def piecesOf (c : Nat) (reqs : List SeqLens) : List Piece :=
  cells reqs.zipIdx fun x => x.1.pieces c

variable {m : CommonAttentionMetadata} {reqs : List SeqLens} {width c pages blockSize : Nat}

theorem mem_piecesOf {v : Piece} (hv : v ∈ piecesOf c reqs) :
    v.1.1 ∈ reqs ∧ v.2 < v.1.1.pieces c ∧ reqs[v.1.2]? = some v.1.1 := by
  obtain ⟨hx, hj⟩ := mem_cells.mp hv
  have hat := List.mem_zipIdx_iff_getElem?.mp hx
  exact ⟨List.mem_of_getElem? hat, hj, hat⟩

theorem map_zipIdx {α : Type} (f : SeqLens → α) :
    reqs.map f = reqs.zipIdx.map fun x => f x.1 := by
  conv_lhs => rw [← List.zipIdx_map_fst 0 reqs, map_map]
  rfl

theorem mapM_ok {α β : Type} {f : α → Except PyError β} (g : α → β) {l : List α}
    (h : ∀ a ∈ l, f a = .ok (g a)) : l.mapM f = .ok (l.map g) := by
  induction l with
  | nil => rfl
  | cons a l ih =>
    rw [List.mapM_cons, bind_of_ok (h a List.mem_cons_self),
      bind_of_ok (ih fun a' ha => h a' (List.mem_cons_of_mem _ ha))]
    rfl

theorem zip_flatMap {ι α β : Type} {l : List ι} {f : ι → List α} {g : ι → List β}
    (h : ∀ x ∈ l, (f x).length = (g x).length) :
    (l.flatMap f).zip (l.flatMap g) = l.flatMap fun x => (f x).zip (g x) := by
  induction l with
  | nil => rfl
  | cons x l ih =>
    rw [List.flatMap_cons, List.flatMap_cons, List.flatMap_cons,
      List.zip_append (h x List.mem_cons_self), ih fun y hy => h y (List.mem_cons_of_mem _ hy)]

/-- A value of the row, `n` times for every cell. -/
theorem cells_mul {ι α : Type} (items : List ι) (count : ι → Nat) (n : Nat) (f : ι → α) :
    ((cells items fun x => count x * n).map fun v => f v.1) =
      (cells items count).flatMap fun v => (range n).map fun _ => f v.1 := by
  induction items with
  | nil => rfl
  | cons x items ih =>
    rw [cells_cons, cells_cons, List.map_append, List.flatMap_append, ih, map_map, List.flatMap_map]
    congr 1
    have hleft : (range (count x * n)).map ((fun v : ι × Nat => f v.1) ∘ fun j => (x, j)) =
        replicate (count x * n) (f x) := List.eq_replicate_iff.mpr ⟨by simp, by simp⟩
    have hright : (range (count x)).flatMap (fun j => (range n).map fun _ => f (x, j).1) =
        replicate (count x * n) (f x) :=
      List.eq_replicate_iff.mpr ⟨by simp [length_flatMap], by simp⟩
    rw [hleft, hright]

/-- **The metadata of the virtual batches**: there is one for each piece of a request. -/
theorem makeLocalAttentionVirtualBatches_eq (hm : m.Lengths reqs width) (hne : reqs ≠ [])
    (hvalid : ∀ r ∈ reqs, r.Valid) (hwidth : 0 < width) (hpages : 0 < pages) (hbs : 0 < blockSize)
    (hc : c = pages * blockSize) :
    makeLocalAttentionVirtualBatches c m blockSize = .ok {
      queryStartLoc := 0 :: cumsum (counts (piecesOf c reqs) (Piece.queryLen c))
      seqLens := counts (piecesOf c reqs) (Piece.seqLen c)
      numComputedTokens := (piecesOf c reqs).map fun v => (v.seqLen c : Int) - v.queryLen c
      numReqs := (piecesOf c reqs).length
      numActualTokens := m.numActualTokens
      maxQueryLen := (counts (piecesOf c reqs) (Piece.queryLen c)).foldl max
        ((counts (piecesOf c reqs) (Piece.queryLen c)).headD 0)
      blockTable := (piecesOf c reqs).map (Piece.blocks c pages width m.blockTable)
      slotMapping := m.slotMapping
      causal := true } := by
  have hcpos : 0 < c := hc ▸ Nat.mul_pos hpages hbs
  have hitems : ∀ x ∈ reqs.zipIdx, x.1.Valid ∧ reqs[x.2]? = some x.1 := fun x hx =>
    have hat := List.mem_zipIdx_iff_getElem?.mp hx
    ⟨hvalid _ (List.mem_of_getElem? hat), hat⟩
  have hneItems : reqs.zipIdx ≠ [] := fun hnil => hne (List.zipIdx_eq_nil_iff.mp hnil)
  have hqs : m.queryLens = reqs.zipIdx.map fun x => (x.1.queryLen : Int) := by
    rw [CommonAttentionMetadata.queryLens, hm.queryStartLoc, List.tail_cons, cumsum,
      zipWith_sub_sumsFrom, counts]
    exact map_zipIdx fun r => (r.queryLen : Int)
  have hks : m.seqLens = reqs.zipIdx.map fun x => (x.1.seqLen : Int) := by
    rw [hm.seqLens]
    exact map_zipIdx fun r => (r.seqLen : Int)
  have hsize : m.seqLens.length = reqs.length := by rw [hks, List.length_map, List.length_zipIdx]
  -- the arrays over the requests
  have hfirst : zipWith (fun k q => min ((c : Int) - fmod (k - q) c) q) m.seqLens m.queryLens =
      reqs.zipIdx.map fun x => ((x.1.bound c 1 - x.1.bound c 0 : Nat) : Int) := by
    rw [hqs, hks, zipWith_map_map]
    exact map_congr_left fun x hx => (hitems x hx).1.first hcpos
  have hlast : (m.seqLens.map fun k => (c : Int) + fmod k (-(c : Int))) =
      reqs.zipIdx.map fun x => ((x.1.seqLen - (x.1.seqLen - 1) / c * c : Nat) : Int) := by
    rw [hks, map_map]
    exact map_congr_left fun x hx => (hitems x hx).1.last hcpos
  have hblocks : zipWith (fun q first => 1 + cdiv (q - first) (c : Int)) m.queryLens
      (reqs.zipIdx.map fun x => ((x.1.bound c 1 - x.1.bound c 0 : Nat) : Int)) =
        counts reqs.zipIdx fun x => x.1.pieces c := by
    rw [hqs, zipWith_map_map]
    exact map_congr_left fun x hx => (hitems x hx).1.blocks hcpos
  have hcount : lastOf (cumsum (counts reqs.zipIdx fun x => x.1.pieces c)) =
      .ok (((piecesOf c reqs).length : Nat) : Int) := by
    rw [lastOf, cumsum, getLast?_sumsFrom 0 (by simpa [counts] using hne), zero_add, sum_counts, piecesOf,
      length_cells]
  -- the arrays over the pieces
  have harange : zipWith (· - ·)
      ((List.range' 0 (piecesOf c reqs).length).map fun i : Nat => (i : Int))
      (npRepeat (zipWith (· - ·) (cumsum (counts reqs.zipIdx fun x => x.1.pieces c))
        (counts reqs.zipIdx fun x => x.1.pieces c)) (counts reqs.zipIdx fun x => x.1.pieces c)) =
        (piecesOf c reqs).map fun v => (v.2 : Int) := by
    rw [piecesOf, length_cells]
    exact arange_eq_cells 0
  have hrarange : zipWith (fun n a => n - a - 1)
      (npRepeat (counts reqs.zipIdx fun x => x.1.pieces c) (counts reqs.zipIdx fun x => x.1.pieces c))
      ((piecesOf c reqs).map fun v => (v.2 : Int)) =
        (piecesOf c reqs).map fun v => (v.1.1.pieces c : Int) - v.2 - 1 := by
    have hrep : npRepeat (counts reqs.zipIdx fun x => x.1.pieces c)
        (counts reqs.zipIdx fun x => x.1.pieces c) =
          (piecesOf c reqs).map fun v => ((v.1.1.pieces c : Nat) : Int) :=
      npRepeat_eq_cells fun x : SeqLens × Nat => ((x.1.pieces c : Nat) : Int)
    rw [hrep, zipWith_map_map]
  have hpos : ∀ x ∈ reqs.zipIdx, 0 < x.1.pieces c := fun x _ => Nat.succ_pos _
  have hmem : ∀ v ∈ piecesOf c reqs, v.1.1.Valid ∧ v.2 < v.1.1.pieces c := fun v hv =>
    ⟨hvalid _ (mem_piecesOf hv).1, (mem_piecesOf hv).2.1⟩
  -- the query tokens: the first piece of a request, then the others
  have hhead : maskAssign (npRepeat (zipWith (· - ·) m.queryLens
        (reqs.zipIdx.map fun x => ((x.1.bound c 1 - x.1.bound c 0 : Nat) : Int)))
        (counts reqs.zipIdx fun x => x.1.pieces c))
      (((piecesOf c reqs).map fun v => (v.2 : Int)).map fun a => decide (a = 0))
      (reqs.zipIdx.map fun x => ((x.1.bound c 1 - x.1.bound c 0 : Nat) : Int)) =
        some ((piecesOf c reqs).map fun v =>
          if v.2 = 0 then ((v.1.1.bound c 1 - v.1.1.bound c 0 : Nat) : Int)
          else (v.1.1.queryLen : Int) - ((v.1.1.bound c 1 - v.1.1.bound c 0 : Nat) : Int)) := by
    have hmask : (((piecesOf c reqs).map fun v => (v.2 : Int)).map fun a => decide (a = 0)) =
        (cells reqs.zipIdx fun x => x.1.pieces c).map fun v => decide (v.2 = 0) := by
      rw [map_map]
      exact map_congr_left fun v _ => by simp
    rw [hqs, zipWith_map_map, npRepeat_eq_cells, hmask, maskAssign_head hpos]
    rfl
  have hlater : maskAssign ((piecesOf c reqs).map fun v =>
        if v.2 = 0 then ((v.1.1.bound c 1 - v.1.1.bound c 0 : Nat) : Int)
        else (v.1.1.queryLen : Int) - ((v.1.1.bound c 1 - v.1.1.bound c 0 : Nat) : Int))
      (((piecesOf c reqs).map fun v => (v.2 : Int)).map fun a => decide (0 < a))
      (maskSelect (zipWith (fun q a => min (q - (c : Int) * (a - 1)) c)
        ((piecesOf c reqs).map fun v =>
          if v.2 = 0 then ((v.1.1.bound c 1 - v.1.1.bound c 0 : Nat) : Int)
          else (v.1.1.queryLen : Int) - ((v.1.1.bound c 1 - v.1.1.bound c 0 : Nat) : Int))
        ((piecesOf c reqs).map fun v => (v.2 : Int)))
        (((piecesOf c reqs).map fun v => (v.2 : Int)).map fun a => decide (0 < a))) =
        some (counts (piecesOf c reqs) (Piece.queryLen c)) := by
    rw [zipWith_map_map, map_map, maskAssign_select]
    refine congrArg some (map_congr_left fun v hv => ?_)
    obtain ⟨hval, hj⟩ := hmem v hv
    rcases v with ⟨x, _ | j⟩
    · simp [Piece.queryLen]
    · have hlt : (0 : Int) < ((j + 1 : Nat) : Int) := by omega
      simp only [Function.comp_apply, hlt, decide_true, if_true, Nat.succ_ne_zero, if_false]
      exact hval.later hcpos hj
  -- the keys: full chunks, but for the last piece of a request
  have hkeys : indexAssign (replicate (piecesOf c reqs).length (c : Int))
      ((cumsum (counts reqs.zipIdx fun x => x.1.pieces c)).map fun n => n - 1)
      (reqs.zipIdx.map fun x => ((x.1.seqLen - (x.1.seqLen - 1) / c * c : Nat) : Int)) =
        some (counts (piecesOf c reqs) (Piece.seqLen c)) := by
    have hfull : replicate (piecesOf c reqs).length (c : Int) =
        [] ++ (cells reqs.zipIdx fun x => x.1.pieces c).map fun _ => (c : Int) := by
      rw [List.nil_append, List.map_const']
      rfl
    rw [hfull, cumsum]
    refine (indexAssign_last hpos _ _ []).trans (congrArg some (map_congr_left fun v hv => ?_))
    obtain ⟨hval, hj⟩ := hmem v hv
    rw [Piece.seqLen, Piece.chunkStart]
    split_ifs with hlastPiece
    · rw [hlastPiece, hval.bound_pieces hcpos, hval.chunk_last hcpos hlastPiece]
    · rw [hval.bound_full hcpos (by omega), Nat.add_sub_cancel_left]
  have hstarts : zipWith (· - ·) (npRepeat m.seqLens (counts reqs.zipIdx fun x => x.1.pieces c))
      (zipWith (fun r last => r * (c : Int) + last)
        ((piecesOf c reqs).map fun v => (v.1.1.pieces c : Int) - v.2 - 1)
        (npRepeat (reqs.zipIdx.map fun x => ((x.1.seqLen - (x.1.seqLen - 1) / c * c : Nat) : Int))
          (counts reqs.zipIdx fun x => x.1.pieces c))) =
        (piecesOf c reqs).map fun v => (v.chunkStart c : Int) := by
    rw [hks, npRepeat_eq_cells, npRepeat_eq_cells, ← piecesOf, zipWith_map_map, zipWith_map_map]
    refine map_congr_left fun v hv => ?_
    obtain ⟨hval, hj⟩ := hmem v hv
    exact hval.start hcpos hj
  -- the blocks
  have hmod : fmod (c : Int) blockSize = 0 := by
    rw [hc, Int.fmod_eq_emod_of_nonneg _ (by omega)]
    exact_mod_cast Nat.mul_mod_left pages blockSize
  have hdiv : ∀ n : Nat, fdiv ((n * c : Nat) : Int) blockSize = ((n * pages : Nat) : Int) := by
    intro n
    rw [hc, Int.fdiv_eq_ediv_of_nonneg _ (by omega), ← Nat.mul_assoc]
    exact_mod_cast Nat.mul_div_cancel _ hbs
  have hpagesEq : fdiv (c : Int) blockSize = (pages : Int) := by simpa using hdiv 1
  have hrowWidth : (m.blockTable.headD []).length = width := by
    cases hrows : m.blockTable with
    | nil =>
      have hlength := hm.rows
      rw [hrows] at hlength
      exact absurd (List.length_eq_zero_iff.mp hlength.symm) hne
    | cons row rows => exact hm.width row (hrows ▸ List.mem_cons_self)
  have hindices : ((((piecesOf c reqs).map fun v => (v.chunkStart c : Int)).map
      fun n => fdiv n (blockSize : Int)).flatMap fun start =>
        (range pages).map fun i : Nat => (i : Int) + start).map
          (fun i => min i ((width : Int) - 1)) =
      (piecesOf c reqs).flatMap fun v => (range pages).map fun t =>
        ((min ((v.1.1.context / c + v.2) * pages + t) (width - 1) : Nat) : Int) := by
    rw [map_map, List.flatMap_map, List.map_flatMap]
    refine List.flatMap_congr fun v _ => ?_
    rw [map_map]
    refine map_congr_left fun t _ => ?_
    rw [Function.comp_apply, Function.comp_apply, Piece.chunkStart, hdiv]
    omega
  have hbatch : npRepeat ((range m.seqLens.length).map fun i : Nat => (i : Int))
      ((counts reqs.zipIdx fun x => x.1.pieces c).map fun n => n * (pages : Int)) =
        (piecesOf c reqs).flatMap fun v => (range pages).map fun _ => (v.1.2 : Int) := by
    have hrange : ((range m.seqLens.length).map fun i : Nat => (i : Int)) =
        reqs.zipIdx.map fun x => (x.2 : Int) := by
      rw [hsize, List.range_eq_range', ← List.zipIdx_map_snd 0 reqs, map_map]
      rfl
    have hmul : ((counts reqs.zipIdx fun x => x.1.pieces c).map fun n => n * (pages : Int)) =
        counts reqs.zipIdx fun x => x.1.pieces c * pages := by
      rw [counts, counts, map_map]
      exact map_congr_left fun x _ => by simp
    rw [hrange, hmul, npRepeat_eq_cells]
    exact cells_mul _ (fun x : SeqLens × Nat => x.1.pieces c) pages fun x => (x.2 : Int)
  have hrows : ∀ v ∈ piecesOf c reqs, ∀ t, blockAt m.blockTable v.1.2
      ((min ((v.1.1.context / c + v.2) * pages + t) (width - 1) : Nat) : Int) =
        .ok ((m.blockTable.getD v.1.2 []).getD
          (min ((v.1.1.context / c + v.2) * pages + t) (width - 1)) 0) := by
    intro v hv t
    have hlt : v.1.2 < m.blockTable.length := by
      rw [hm.rows]
      exact (List.getElem?_eq_some_iff.mp (mem_piecesOf hv).2.2).1
    have hw := hm.width _ (List.getElem_mem hlt)
    rw [blockAt, pyGet?_natCast, getElem?_eq_getElem hlt, Option.bind_some, pyGet?_natCast,
      getElem?_eq_getElem (by rw [hw]; omega), List.getD_eq_getElem?_getD,
      List.getD_eq_getElem?_getD, getElem?_eq_getElem hlt, Option.getD_some,
      getElem?_eq_getElem (by rw [hw]; omega)]
    rfl
  have hentries : (((piecesOf c reqs).flatMap fun v => (range pages).map fun _ => (v.1.2 : Int)).zip
      ((piecesOf c reqs).flatMap fun v => (range pages).map fun t =>
        ((min ((v.1.1.context / c + v.2) * pages + t) (width - 1) : Nat) : Int))).mapM
          (fun e => blockAt m.blockTable e.1 e.2) =
      .ok ((piecesOf c reqs).flatMap (Piece.blocks c pages width m.blockTable)) := by
    have hat : ∀ e ∈ (piecesOf c reqs).flatMap fun v => (range pages).map fun t =>
        ((v.1.2 : Int), ((min ((v.1.1.context / c + v.2) * pages + t) (width - 1) : Nat) : Int)),
        blockAt m.blockTable e.1 e.2 =
          .ok ((m.blockTable.getD e.1.toNat []).getD e.2.toNat 0) := by
      intro e he
      obtain ⟨v, hv, he⟩ := List.mem_flatMap.mp he
      obtain ⟨t, -, rfl⟩ := List.mem_map.mp he
      exact hrows v hv t
    rw [zip_flatMap fun v _ => by simp]
    simp only [List.zip_map']
    rw [mapM_ok _ hat, List.map_flatMap]
    refine congrArg Except.ok (List.flatMap_congr fun v _ => ?_)
    rw [map_map]
    rfl
  have hlengths : ((piecesOf c reqs).flatMap fun v => (range pages).map fun _ => (v.1.2 : Int)).length =
      ((piecesOf c reqs).flatMap fun v => (range pages).map fun t =>
        ((min ((v.1.1.context / c + v.2) * pages + t) (width - 1) : Nat) : Int)).length := by
    simp [length_flatMap]
  have hnePieces : piecesOf c reqs ≠ [] := by
    obtain ⟨x, items, hcons⟩ := List.exists_cons_of_ne_nil hneItems
    rw [piecesOf, hcons, cells_cons]
    simp [SeqLens.pieces]
  have htable : chunks (((piecesOf c reqs).flatMap (Piece.blocks c pages width m.blockTable)).length /
      (piecesOf c reqs).length) ((piecesOf c reqs).flatMap (Piece.blocks c pages width m.blockTable)) =
        (piecesOf c reqs).map (Piece.blocks c pages width m.blockTable) := by
    have hlen : ∀ v : Piece, (v.blocks c pages width m.blockTable).length = pages := fun v => by
      simp [Piece.blocks]
    have htotal : ((piecesOf c reqs).flatMap (Piece.blocks c pages width m.blockTable)).length =
        (piecesOf c reqs).length * pages := by
      simp [length_flatMap, hlen]
    rw [htotal, Nat.mul_div_cancel_left _ (List.length_pos_iff.mpr hnePieces)]
    exact chunks_flatMap hpages fun v _ => hlen v
  unfold makeLocalAttentionVirtualBatches
  dsimp only
  rw [hfirst, hlast, hblocks, bind_of_ok hcount]
  simp only [Int.toNat_natCast]
  simp only [harange, hrarange, hhead, hpagesEq, hrowWidth, hstarts, hbatch, Int.toNat_natCast, hindices]
  rw [orValueError, bind_of_ok rfl, hlater, orValueError, bind_of_ok rfl, hkeys, orValueError,
    bind_of_ok rfl, bind_of_ok (require_of hmod), bind_of_ok (require_of hlengths), hentries,
    bind_of_ok rfl, htable, bind_of_ok (require_of (by simpa [counts] using hnePieces))]
  refine congrArg Except.ok (CommonAttentionMetadata.mk.injEq .. |>.mpr
    ⟨rfl, rfl, ?_, ?_, rfl, rfl, rfl, rfl, rfl⟩)
  · exact zipWith_map_map _ _ _ _
  · simp [counts]

/-! ## What the virtual batches read -/

theorem zip_zip_map {ι α β γ δ : Type} (s : List α) (items : List ι) (f : ι → β) (g : ι → γ)
    (h : ι → δ) :
    (s.zip (items.map f)).zip ((items.map g).zip (items.map h)) =
      (s.zip items).map fun e => ((e.1, f e.2), (g e.2, h e.2)) := by
  induction items generalizing s with
  | nil => simp
  | cons x items ih => cases s <;> simp [ih]

/-- Reading, item by item: the running sums number the query tokens. -/
theorem readsWith_eq {ι : Type} {items : List ι} {queryLen seqLen : ι → Nat} {row : ι → List Int}
    (hstart : m.queryStartLoc = 0 :: cumsum (counts items queryLen))
    (hkeys : m.seqLens = counts items seqLen) (hrows : m.blockTable = items.map row)
    (keysOf : Nat → Nat → List Nat) :
    readsWith keysOf blockSize m = numbered 0 (items.flatMap fun x =>
      (range (queryLen x)).map fun t =>
        (keysOf (seqLen x - queryLen x) t).map (slotOf blockSize (row x))) := by
  have hlens : m.queryLens = items.map fun x => (queryLen x : Int) := by
    rw [CommonAttentionMetadata.queryLens, hstart, List.tail_cons]
    exact zipWith_sub_sumsFrom 0 _
  rw [readsWith, CommonAttentionMetadata.batches, hlens, hkeys, hrows, counts, zip_zip_map,
    List.flatMap_map, ← flatMap_sumsFrom, hstart]
  refine List.flatMap_congr fun e _ => ?_
  have hcontext : ((seqLen e.2 : Int) - queryLen e.2).toNat = seqLen e.2 - queryLen e.2 := by omega
  rw [queryReads, hcontext, Int.toNat_natCast]

theorem length_flatMap_reads {ι β : Type} (items : List ι) (queryLen : ι → Nat) (f : ι → Nat → β) :
    (items.flatMap fun x => (range (queryLen x)).map (f x)).length = (items.map queryLen).sum := by
  simp [length_flatMap]

/-- **A piece reads what its part of the request reads.** -/
theorem slots_eq {v : Piece} (hval : v.1.1.Valid) (hj : v.2 < v.1.1.pieces c) (hpages : 0 < pages)
    (hbs : 0 < blockSize) (hc : c = pages * blockSize) {blockTable : List (List Int)}
    (hrow : (blockTable.getD v.1.2 []).length = width) (hwide : v.1.1.seqLen ≤ width * blockSize)
    {t : Nat} (ht : t < v.queryLen c) :
    (range (v.seqLen c - v.queryLen c + t + 1)).map
        (slotOf blockSize (v.blocks c pages width blockTable)) =
      let p := v.1.1.bound c v.2 + t
      (List.range' (p / c * c) (p - p / c * c + 1)).map
        (slotOf blockSize (blockTable.getD v.1.2 [])) := by
  have hcpos : 0 < c := hc ▸ Nat.mul_pos hpages hbs
  obtain ⟨-, hle, hmono, hend, hseq⟩ := hval.bound_lt hcpos hj
  rw [Piece.queryLen] at ht
  -- the chunk of the query token is that of the piece
  have hchunk : (v.1.1.bound c v.2 + t) / c = v.1.1.context / c + v.2 :=
    Nat.div_eq_of_lt_le (by omega) (by rw [Nat.succ_mul]; omega)
  have hcount : v.seqLen c - v.queryLen c + t + 1 =
      v.1.1.bound c v.2 + t - (v.1.1.context / c + v.2) * c + 1 := by
    rw [Piece.seqLen, Piece.queryLen, Piece.chunkStart]
    omega
  dsimp only
  rw [hchunk, hcount, List.range'_eq_map_range, map_map]
  refine map_congr_left fun u hu => ?_
  have hu' := List.mem_range.mp hu
  have hpage : u / blockSize < pages := (Nat.div_lt_iff_lt_mul hbs).mpr (by omega)
  have hstart : (v.1.1.context / c + v.2) * c = blockSize * ((v.1.1.context / c + v.2) * pages) := by
    rw [hc]
    ring
  have hdiv : ((v.1.1.context / c + v.2) * c + u) / blockSize =
      (v.1.1.context / c + v.2) * pages + u / blockSize := by
    rw [hstart, Nat.mul_add_div hbs]
  have hmod : ((v.1.1.context / c + v.2) * c + u) % blockSize = u % blockSize := by
    rw [hstart, Nat.mul_add_mod]
  have hin : (v.1.1.context / c + v.2) * pages + u / blockSize < width := by
    rw [← hdiv]
    exact (Nat.div_lt_iff_lt_mul hbs).mpr (by omega)
  rw [Function.comp_apply, slotOf, slotOf, hdiv, hmod, Piece.blocks, List.getElem?_map,
    List.getElem?_range hpage, Option.map_some, min_eq_left (by omega), List.getD_eq_getElem?_getD,
    getElem?_eq_getElem (by rw [hrow]; exact hin)]
  rfl

theorem CommonAttentionMetadata.Lengths.rows_eq (hm : m.Lengths reqs width) :
    m.blockTable = reqs.zipIdx.map fun x => m.blockTable.getD x.2 [] := by
  have hrange : reqs.zipIdx.map (fun x => m.blockTable.getD x.2 []) =
      (range m.blockTable.length).map fun i => m.blockTable.getD i [] := by
    rw [hm.rows, List.range_eq_range', ← List.zipIdx_map_snd 0 reqs, map_map]
    rfl
  rw [hrange]
  refine List.ext_getElem (by simp) fun i h1 h2 => ?_
  simp [List.getD_eq_getElem?_getD, h1]

/-- **Causal attention on the virtual batches is chunked local attention.** The query tokens of the
virtual batches are those of the batch, each once and in order, and each reads the slots of exactly the
keys from the start of its chunk up to itself. -/
theorem virtual_batches_read_locally (hm : m.Lengths reqs width) (hne : reqs ≠ [])
    (hvalid : ∀ r ∈ reqs, r.Valid) (hbs : 0 < blockSize) (hpages : 0 < pages)
    (hc : c = pages * blockSize) (hwide : ∀ r ∈ reqs, r.seqLen ≤ width * blockSize) :
    ∃ m', makeLocalAttentionVirtualBatches c m blockSize = .ok m' ∧
      causalReads blockSize m' = localReads c blockSize m ∧
      (causalReads blockSize m').map Prod.fst =
        (List.range (reqs.map SeqLens.queryLen).sum).map (fun i : Nat => (i : Int)) ∧
      ∀ e ∈ causalReads blockSize m', none ∉ e.2 := by
  have hcpos : 0 < c := hc ▸ Nat.mul_pos hpages hbs
  have hwidth : 0 < width := by
    obtain ⟨r, hr⟩ := List.exists_mem_of_ne_nil reqs hne
    have hpos := (hvalid r hr).1.trans ((hvalid r hr).2.trans (hwide r hr))
    exact Nat.pos_of_mul_pos_right hpos
  have hrow : ∀ x ∈ reqs.zipIdx, x.1 ∈ reqs ∧ (m.blockTable.getD x.2 []).length = width := by
    intro x hx
    have hat := List.mem_zipIdx_iff_getElem?.mp hx
    have hlt : x.2 < m.blockTable.length := by
      rw [hm.rows]
      exact (List.getElem?_eq_some_iff.mp hat).1
    refine ⟨List.mem_of_getElem? hat, ?_⟩
    rw [List.getD_eq_getElem?_getD, List.getElem?_eq_getElem hlt]
    exact hm.width _ (List.getElem_mem hlt)
  have hstart : m.queryStartLoc = 0 :: cumsum (counts reqs.zipIdx fun x => x.1.queryLen) := by
    rw [hm.queryStartLoc, counts, map_zipIdx]
    rfl
  have hkeys : m.seqLens = counts reqs.zipIdx fun x => x.1.seqLen := by
    rw [hm.seqLens, counts, map_zipIdx]
    rfl
  obtain ⟨m', hok, hstart', hkeys', hrows'⟩ : ∃ m', makeLocalAttentionVirtualBatches c m blockSize = .ok m' ∧
      m'.queryStartLoc = 0 :: cumsum (counts (piecesOf c reqs) (Piece.queryLen c)) ∧
      m'.seqLens = counts (piecesOf c reqs) (Piece.seqLen c) ∧
      m'.blockTable = (piecesOf c reqs).map (Piece.blocks c pages width m.blockTable) :=
    ⟨_, makeLocalAttentionVirtualBatches_eq hm hne hvalid hwidth hpages hbs hc, rfl, rfl, rfl⟩
  -- what the query token at position `p` of a request should read
  let reads : SeqLens × Nat → Nat → List (Option (Int × Nat)) := fun x p =>
    (List.range' (p / c * c) (p - p / c * c + 1)).map (slotOf blockSize (m.blockTable.getD x.2 []))
  have hlocal : localReads c blockSize m = numbered 0 (reqs.zipIdx.flatMap fun x =>
      (List.range x.1.queryLen).map fun t => reads x (x.1.context + t)) :=
    readsWith_eq hstart hkeys hm.rows_eq _
  have hpieces : ((piecesOf c reqs).flatMap fun v => (List.range (v.queryLen c)).map fun t =>
      (List.range (v.seqLen c - v.queryLen c + t + 1)).map
        (slotOf blockSize (v.blocks c pages width m.blockTable))) =
      reqs.zipIdx.flatMap fun x => (List.range x.1.queryLen).map fun t => reads x (x.1.context + t) := by
    rw [piecesOf, cells, List.flatMap_assoc]
    refine List.flatMap_congr fun x hx => ?_
    have hval := hvalid _ (hrow x hx).1
    rw [List.flatMap_map]
    have hranges := (flatMap_ranges (x.1.bound c) (reads x) fun j hj =>
      (hval.bound_lt hcpos hj).2.2.1).2
    have hlen : x.1.bound c (x.1.pieces c) - x.1.bound c 0 = x.1.queryLen := by
      have := hval.chunks hcpos
      rw [hval.bound_pieces hcpos, hval.bound_zero hcpos]
      omega
    rw [hlen, hval.bound_zero hcpos] at hranges
    refine Eq.trans (List.flatMap_congr fun j hj => List.map_congr_left fun t ht => ?_) hranges
    exact slots_eq hval (List.mem_range.mp hj) hpages hbs hc (hrow x hx).2 (hwide _ (hrow x hx).1)
      (List.mem_range.mp ht)
  have hcausal : causalReads blockSize m' = localReads c blockSize m := by
    rw [hlocal, ← hpieces]
    exact readsWith_eq hstart' hkeys' hrows' _
  refine ⟨m', hok, hcausal, ?_, fun e he hnone => ?_⟩
  · rw [hcausal, hlocal, numbered_fst, length_flatMap_reads, ← map_zipIdx SeqLens.queryLen]
  · -- every key is in a block of its request
    have hmem := List.mem_map_of_mem (f := Prod.snd) he
    rw [hcausal, hlocal, numbered_snd] at hmem
    obtain ⟨x, hx, hmem⟩ := List.mem_flatMap.mp hmem
    obtain ⟨t, ht, heq⟩ := List.mem_map.mp hmem
    rw [← heq] at hnone
    obtain ⟨key, hkey, hnone⟩ := List.mem_map.mp hnone
    have hval := hvalid _ (hrow x hx).1
    have hk := hval.chunks hcpos
    have hle := hwide _ (hrow x hx).1
    have hkey' := List.mem_range'_1.mp hkey
    have hsmall : (x.1.context + t) / c * c ≤ x.1.context + t := Nat.div_mul_le_self _ _
    have ht' := List.mem_range.mp ht
    have hin : key / blockSize < width := (Nat.div_lt_iff_lt_mul hbs).mpr (by omega)
    rw [slotOf, List.getElem?_eq_getElem (by rw [(hrow x hx).2]; exact hin)] at hnone
    cases hnone

/-- The example in the comments of the source. -/
theorem virtual_batches_read_locally_three :
    ∃ m m' : CommonAttentionMetadata,
      m.Lengths [⟨4, 6⟩, ⟨10, 17⟩, ⟨5, 9⟩] 10 ∧ makeLocalAttentionVirtualBatches 4 m 2 = .ok m' ∧
      m'.queryStartLoc = [0, 2, 4, 5, 9, 13, 14, 18, 19] ∧ m'.seqLens = [4, 2, 4, 4, 4, 1, 4, 1] ∧
      causalReads 2 m' = localReads 4 2 m := by
  let row (first : Nat) : List Int := (List.range 10).map fun i => ((first + i : Nat) : Int)
  let m : CommonAttentionMetadata :=
    { queryStartLoc := [0, 4, 14, 19]
      seqLens := [6, 17, 9]
      numComputedTokens := [2, 7, 4]
      numReqs := 3
      numActualTokens := 19
      maxQueryLen := 10
      blockTable := [row 0, row 10, row 20]
      slotMapping := [] }
  have hm : m.Lengths [⟨4, 6⟩, ⟨10, 17⟩, ⟨5, 9⟩] 10 := ⟨by decide, by decide, by decide, by decide⟩
  obtain ⟨m', hok, hreads, -, -⟩ := @virtual_batches_read_locally m _ 10 4 2 2 hm (by decide)
    (by simp [SeqLens.Valid]) (by decide) (by decide) rfl (by decide)
  have hrun : (makeLocalAttentionVirtualBatches 4 m 2).toOption.any fun m' =>
      decide (m'.queryStartLoc = [0, 2, 4, 5, 9, 13, 14, 18, 19] ∧
        m'.seqLens = [4, 2, 4, 4, 4, 1, 4, 1]) := by decide +kernel
  have hok' : makeLocalAttentionVirtualBatches 4 m 2 = .ok m' := hok
  rw [toOption_eq_some.mpr hok'] at hrun
  have hend := of_decide_eq_true (Option.any_some.symm.trans hrun)
  exact ⟨m, m', hm, hok', hend.1, hend.2, hreads⟩

end InferenceServer.PersistentBatch
