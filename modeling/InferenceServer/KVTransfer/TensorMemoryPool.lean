import Mathlib.Data.Nat.Size
import InferenceServer.Basic
import InferenceServer.Lib.Dict
import InferenceServer.Lib.Outcome
import InferenceServer.Lib.Run
import InferenceServer.Lib.Tiling
import Mathlib.Order.CompletePartialOrder

/-!
# The buddy allocator of the tensor pool

`TensorMemoryPool` (`tensor_memory_pool.py`) gives out pinned host memory in blocks whose sizes are
powers of two. A block that is too large is split in half until it fits; a block that is freed is merged
with its buddy, the other half of the block of twice the size, as long as that is free.

The free and the allocated blocks tile the pool. A split and a merge replace tiles by others for the same
part (`Tiles.replace`), and a block that is in neither dictionary, while it is split or merged, counts
as allocated. Since no two free blocks are buddies, a smallest free block has an allocated neighbour,
unless it is the whole pool.

## Main results

* `TensorMemoryPool.Tiled.allocate`, `Tiled.free`, `buddy_sound_of_reach`
-/

namespace InferenceServer.KVTransfer

open Outcome

/-- `MemoryBlock`. -/
@[ext] structure MemoryBlock where
  size : Nat
  addr : Int
  deriving DecidableEq, Repr

/-- `free_lists`: the free blocks by their sizes and addresses. -/
abbrev FreeLists := Dict Nat (Dict Int MemoryBlock)

/-- `TensorMemoryPool`. -/
structure TensorMemoryPool where
  maxBlockSize : Nat
  minBlockSize : Nat
  baseAddress : Int
  freeLists : FreeLists
  allocatedBlocks : Dict Int MemoryBlock := ∅

/-- `_round_to_power_of_two`. `Nat.size` is `bit_length`. -/
def roundToPowerOfTwo (size : Nat) : Nat := 1 <<< (size - 1).size

namespace FreeLists

variable (f : FreeLists) (b : MemoryBlock)

/-- `self.free_lists[block.size][block.addr] = block`. -/
def put : Except PyError FreeLists :=
  match f.get? b.size with
  | none => .error .keyError
  | some blocks => .ok (f.set b.size (blocks.set b.addr b))

/-- `del self.free_lists[block.size][block.addr]`. -/
def remove : Except PyError FreeLists :=
  match f.get? b.size with
  | none => .error .keyError
  | some blocks => do
    require (b.addr ∈ blocks) .keyError
    return f.set b.size (blocks.erase b.addr)

end FreeLists

/-- `_split_block`. The size is the fuel: it gets less in every round. -/
def splitBlock (minBlockSize requiredSize : Nat) :
    Nat → MemoryBlock → FreeLists → Except PyError (MemoryBlock × FreeLists)
  | 0, block, f => .ok (block, f)
  | fuel + 1, block, f =>
    if requiredSize < block.size ∧ minBlockSize ≤ block.size / 2 then do
      let buddySize := block.size / 2
      let f ← f.put { size := buddySize, addr := block.addr + buddySize }
      splitBlock minBlockSize requiredSize fuel { block with size := buddySize } f
    else .ok (block, f)

/-- The address of the buddy. -/
def buddyAddr (baseAddress : Int) (block : MemoryBlock) : Int :=
  block.addr + if (block.addr - baseAddress) % (2 * block.size) = 0 then (block.size : Int)
    else -block.size

/-- `_merge_buddies`, with the number of rounds that are left of `MAX_MERGE_DEPTH`. -/
def mergeBuddies (baseAddress : Int) : Nat → MemoryBlock → FreeLists → Except PyError FreeLists
  | 0, block, f => f.put block
  | depth + 1, block, f =>
    match f.get? block.size with
    | none => .error .keyError
    | some blocks =>
      match blocks.get? (buddyAddr baseAddress block) with
      | none => f.put block
      | some buddy => do
        let f ← f.remove buddy
        mergeBuddies baseAddress depth
          { size := block.size * 2, addr := min block.addr buddy.addr } f

/-- `_initialize_free_lists`, with the size as fuel. -/
def initializeFreeLists (minBlockSize : Nat) : Nat → Nat → FreeLists → FreeLists
  | 0, _, f => f
  | fuel + 1, size, f =>
    if minBlockSize ≤ size then initializeFreeLists minBlockSize fuel (size / 2) (f.set size ∅) else f

namespace TensorMemoryPool

/-- `__init__`, for the address of the memory that is got. -/
def init (maxBlockSize minBlockSize : Nat) (baseAddress : Int) : Except PyError TensorMemoryPool := do
  require (¬ (maxBlockSize = 0 ∨ minBlockSize = 0)) .valueError
  require (¬ maxBlockSize < minBlockSize) .valueError
  let maxBlockSize := roundToPowerOfTwo maxBlockSize
  let minBlockSize := roundToPowerOfTwo minBlockSize
  let freeLists ← (initializeFreeLists minBlockSize maxBlockSize maxBlockSize ∅).put
    { size := maxBlockSize, addr := baseAddress }
  return { maxBlockSize, minBlockSize, baseAddress, freeLists }

/-- The loop of `allocate`. The current size is doubled, so that the largest size is enough fuel. -/
def allocateFrom (p : TensorMemoryPool) (requiredSize : Nat) :
    Nat → Nat → Except PyError (Int × TensorMemoryPool)
  | 0, _ => .error .valueError
  | fuel + 1, currentSize =>
    if currentSize ≤ p.maxBlockSize then
      match p.freeLists.get? currentSize with
      | none => .error .keyError
      | some blocks =>
        match blocks.entries.getLast? with
        | none => p.allocateFrom requiredSize fuel (currentSize * 2)
        | some (addr, block) => do
          let f := p.freeLists.set currentSize (blocks.erase addr)
          let (block, freeLists) ← splitBlock p.minBlockSize requiredSize block.size block f
          return (block.addr,
            { p with freeLists, allocatedBlocks := p.allocatedBlocks.set block.addr block })
    else .error .valueError

/-- `allocate`. -/
def allocate (p : TensorMemoryPool) (size : Int) : Except PyError (Int × TensorMemoryPool) := do
  require (0 < size) .valueError
  let requiredSize := roundToPowerOfTwo (max size.toNat p.minBlockSize)
  require (¬ p.maxBlockSize < requiredSize) .valueError
  p.allocateFrom requiredSize p.maxBlockSize requiredSize

/-- `free`. -/
def free (p : TensorMemoryPool) (addr : Int) : Except PyError TensorMemoryPool :=
  match p.allocatedBlocks.get? addr with
  | none => .error .valueError
  | some block => do
    let freeLists ← mergeBuddies p.baseAddress 30 block p.freeLists
    return { p with freeLists, allocatedBlocks := p.allocatedBlocks.erase addr }

end TensorMemoryPool

/-! ## The blocks -/

/-- The addresses of a block. -/
def MemoryBlock.span (b : MemoryBlock) : Set Int := Set.Ico b.addr (b.addr + b.size)

/-- The free blocks. -/
def FreeLists.blocks (f : FreeLists) : Set MemoryBlock :=
  {b | ∃ blocks, f.get? b.size = some blocks ∧ blocks.get? b.addr = some b}

/-- Every block is stored under its own size and address. -/
def FreeLists.Stored (f : FreeLists) : Prop :=
  ∀ size blocks, f.get? size = some blocks → ∀ addr b, blocks.get? addr = some b →
    b.size = size ∧ b.addr = addr

section Blocks

variable {f f' : FreeLists} {b c : MemoryBlock}

/-- The blocks of one size are replaced: another one, or none, is at the size and the address of `b`. -/
theorem FreeLists.set_spec (h : f.Stored) {blocks blocks' : Dict Int MemoryBlock} {o : Option MemoryBlock}
    (hget : f.get? b.size = some blocks) (ho : ∀ c ∈ o, c = b)
    (hset : ∀ addr, blocks'.get? addr = if addr = b.addr then o else blocks.get? addr) :
    FreeLists.Stored (f.set b.size blocks') ∧
      (∀ c, c ∈ FreeLists.blocks (f.set b.size blocks') ↔ if c = b then o = some b else c ∈ f.blocks) ∧
      ∀ size, size ∈ f.set b.size blocks' ↔ size ∈ f := by
  refine ⟨fun size blocks'' hsize addr c hc => ?_, fun c => ?_, fun size => ?_⟩
  · rw [Dict.get?_set] at hsize
    split_ifs at hsize with heq
    · cases hsize
      rw [hset] at hc
      split_ifs at hc with haddr
      · obtain rfl := ho c hc
        exact ⟨heq.symm, haddr.symm⟩
      · exact heq ▸ h _ _ hget addr c hc
    · exact h _ _ hsize addr c hc
  · unfold FreeLists.blocks
    simp only [Set.mem_ofPred_eq, Dict.get?_set]
    by_cases hsize : c.size = b.size
    · rw [if_pos hsize, hsize, hget]
      simp only [Option.some.injEq, exists_eq_left', hset]
      by_cases haddr : c.addr = b.addr
      · obtain rfl := MemoryBlock.ext hsize haddr
        simp
      · rw [if_neg haddr, if_neg fun hc => haddr (congrArg MemoryBlock.addr hc)]
    · rw [if_neg hsize, if_neg fun hc => hsize (congrArg MemoryBlock.size hc)]
  · rw [Dict.mem_set, or_iff_right_of_imp]
    rintro rfl
    exact Dict.mem_of_get? hget

theorem FreeLists.put_spec (h : f.Stored) (hput : f.put b = .ok f') :
    f'.Stored ∧ f'.blocks = insert b f.blocks ∧ ∀ size, size ∈ f' ↔ size ∈ f := by
  unfold FreeLists.put at hput
  cases hget : f.get? b.size with
  | none => simp [hget] at hput
  | some blocks =>
    simp only [hget] at hput
    cases hput
    obtain ⟨hstored, hblocks, hsizes⟩ :=
      FreeLists.set_spec h hget (by simp) (Dict.get?_set blocks b.addr b)
    refine ⟨hstored, Set.ext fun c => ?_, hsizes⟩
    by_cases hc : c = b <;> simp [hblocks, hc]

theorem FreeLists.put_ok (h : b.size ∈ f) : ∃ f', f.put b = .ok f' := by
  obtain ⟨blocks, hget⟩ := Dict.mem_iff_get?.mp h
  exact ⟨_, by rw [FreeLists.put, hget]⟩

/-- The block at a size and an address is erased. -/
theorem FreeLists.erase_spec (h : f.Stored) {blocks : Dict Int MemoryBlock} {size : Nat} {addr : Int}
    (hget : f.get? size = some blocks) (hb : blocks.get? addr = some b) :
    b ∈ f.blocks ∧ FreeLists.Stored (f.set size (blocks.erase addr)) ∧
      FreeLists.blocks (f.set size (blocks.erase addr)) = f.blocks \ {b} ∧
      ∀ size', size' ∈ f.set size (blocks.erase addr) ↔ size' ∈ f := by
  obtain ⟨rfl, rfl⟩ := h _ _ hget _ _ hb
  obtain ⟨hstored, hblocks, hsizes⟩ :=
    FreeLists.set_spec h hget (by simp) (Dict.get?_erase blocks b.addr)
  refine ⟨⟨blocks, hget, hb⟩, hstored, Set.ext fun c => ?_, hsizes⟩
  by_cases hc : c = b <;> simp [hblocks, hc]

end Blocks

/-! ## The blocks by their numbers -/

/-- The buddy. -/
def MemoryBlock.buddy (base : Int) (b : MemoryBlock) : MemoryBlock :=
  { b with addr := buddyAddr base b }

/-- The block number `m` of size `2 ^ k`. -/
def dyadicBlock (base : Int) (k : Nat) (m : Int) : MemoryBlock :=
  { size := 2 ^ k, addr := base + 2 ^ k * m }

/-- The number of the buddy. -/
def otherHalf (m : Int) : Int := if m % 2 = 0 then m + 1 else m - 1

section Dyadic

variable {base x : Int} {k j : Nat} {m n : Int}

theorem mem_span_iff : x ∈ (dyadicBlock base k m).span ↔ (x - base) / 2 ^ k = m := by
  rw [Int.ediv_eq_iff_of_pos (by positivity), MemoryBlock.span, dyadicBlock, Set.mem_Ico]
  push_cast
  constructor <;> intro hx <;> constructor <;> linarith [mul_comm m (2 ^ k)]

theorem addr_mem_span : (dyadicBlock base k m).addr ∈ (dyadicBlock base j n).span ↔
    2 ^ k * m / 2 ^ j = n := by
  rw [mem_span_iff, dyadicBlock, add_sub_cancel_left]

theorem addr_mem_span_self : (dyadicBlock base k m).addr ∈ (dyadicBlock base k m).span :=
  addr_mem_span.mpr (Int.mul_ediv_cancel_left _ (by positivity))

theorem otherHalf_div : otherHalf m / 2 = m / 2 := by
  unfold otherHalf
  split_ifs <;> omega

theorem buddy_dyadicBlock :
    (dyadicBlock base k m).buddy base = dyadicBlock base k (otherHalf m) := by
  refine MemoryBlock.ext rfl ?_
  have hmod : 2 ^ k * m % (2 * (2 ^ k : Nat)) = 2 ^ k * (m % 2) := by
    push_cast
    rw [mul_comm 2, Int.mul_emod_mul_of_pos _ _ (by positivity)]
  simp only [MemoryBlock.buddy, buddyAddr, dyadicBlock, otherHalf, add_sub_cancel_left, hmod,
    mul_eq_zero, (by positivity : (2 : Int) ^ k ≠ 0), false_or]
  push_cast
  split_ifs <;> ring

theorem buddy_ne : (dyadicBlock base k m).buddy base ≠ dyadicBlock base k m := by
  intro heq
  have := congrArg MemoryBlock.addr (buddy_dyadicBlock.symm.trans heq)
  unfold dyadicBlock otherHalf at this
  split_ifs at this <;> simp at this

theorem buddy_buddy :
    ((dyadicBlock base k m).buddy base).buddy base = dyadicBlock base k m := by
  rw [buddy_dyadicBlock, buddy_dyadicBlock]
  unfold otherHalf
  split_ifs <;> first | omega | congr 1; omega

/-- **A larger block** has both of two buddies or neither. -/
theorem buddy_mem_span (hlt : k < j) :
    ((dyadicBlock base k m).buddy base).addr ∈ (dyadicBlock base j n).span ↔
      (dyadicBlock base k m).addr ∈ (dyadicBlock base j n).span := by
  obtain ⟨i, rfl⟩ := Nat.exists_eq_add_of_lt hlt
  rw [buddy_dyadicBlock, addr_mem_span, addr_mem_span, add_assoc, pow_add,
    Int.mul_ediv_mul_of_pos _ _ (by positivity), Int.mul_ediv_mul_of_pos _ _ (by positivity), pow_succ',
    ← Int.ediv_ediv_of_nonneg zero_le_two, ← Int.ediv_ediv_of_nonneg zero_le_two, otherHalf_div]

/-- **Two buddies** fill the block of twice the size. -/
theorem mem_span_succ : x ∈ (dyadicBlock base (k + 1) (m / 2)).span ↔
    x ∈ (dyadicBlock base k m).span ∨ x ∈ ((dyadicBlock base k m).buddy base).span := by
  rw [buddy_dyadicBlock, mem_span_iff, mem_span_iff, mem_span_iff, pow_succ,
    ← Int.ediv_ediv_of_nonneg (by positivity), otherHalf]
  split_ifs <;> omega

end Dyadic

/-! ## The tiling -/

/-- No two of the blocks are buddies. -/
def NoBuddies (base : Int) (F : Set MemoryBlock) : Prop := ∀ b ∈ F, b.buddy base ∉ F

/-- **The free blocks and the others tile the pool.** -/
structure Tiling (base : Int) (K : Nat) (f : FreeLists) (A : Set MemoryBlock) : Prop where
  stored : f.Stored
  sizes : ∀ k, 9 ≤ k → k ≤ K → 2 ^ k ∈ f
  tiles : Tiles MemoryBlock.span (dyadicBlock base K 0).span (f.blocks ∪ A)
  disjoint : Disjoint f.blocks A
  dyadic : ∀ b ∈ f.blocks ∪ A, ∃ k m, 9 ≤ k ∧ k ≤ K ∧ b = dyadicBlock base k m

section Tiling

variable {base : Int} {K k depth : Nat} {m : Int} {f f' : FreeLists} {A B C : Set MemoryBlock}
  {b c : MemoryBlock}

/-- **Replacing** a block and the free blocks of `B` by another block and the free blocks of `C`. -/
theorem Tiling.replace (h : Tiling base K f (insert b A)) (hb : b ∉ A) (hstored : f'.Stored)
    (hsizes : ∀ size, size ∈ f' ↔ size ∈ f) (hB : B ⊆ f.blocks)
    (hblocks : f'.blocks = f.blocks \ B ∪ C) (hc : c ∉ C)
    (hC : Tiles MemoryBlock.span {x | ∃ t ∈ insert b B, x ∈ t.span} (insert c C))
    (hdy : ∀ t ∈ insert c C, ∃ k m, 9 ≤ k ∧ k ≤ K ∧ t = dyadicBlock base k m) :
    Tiling base K f' (insert c A) ∧ c ∉ A := by
  have hdisj := Set.disjoint_left.mp h.disjoint
  -- a new block that was there before is one of those that it replaces
  have hnew : ∀ t ∈ insert c C, t ∈ f.blocks ∪ insert b A → t ∈ insert b B := by
    intro t ht hmem
    obtain ⟨x, hx⟩ := hC.nonempty t ht
    obtain ⟨u, hu, hxu⟩ := (hC.mem_iff x).mpr ⟨t, ht, hx⟩
    refine h.tiles.unique t hmem u ?_ x hx hxu ▸ hu
    exact hu.elim (fun hu => .inr (.inl hu)) fun hu => .inl (hB hu)
  have hset : f'.blocks ∪ insert c A = (f.blocks ∪ insert b A) \ insert b B ∪ insert c C := by
    ext t
    have := @hdisj t
    have := @hB t
    have := hdisj.mt (not_not.mpr (.inl rfl : b ∈ insert b A))
    simp only [hblocks, Set.mem_union, Set.mem_sdiff, Set.mem_insert_iff] at *
    by_cases htb : t = b
    · subst htb
      tauto
    · tauto
  have hold : ∀ t ∈ insert c C, t ∉ A ∧ (t ∈ f.blocks → t ∈ B) := by
    intro t ht
    refine ⟨fun hA => ?_, fun hF => ?_⟩
    · obtain rfl | hB' := hnew t ht (.inr (.inr hA))
      · exact hb hA
      · exact hdisj (hB hB') (.inr hA)
    · exact (hnew t ht (.inl hF)).resolve_left fun heq => hdisj hF (.inl heq)
  refine ⟨⟨hstored, fun k h9 hk => (hsizes _).mpr (h.sizes k h9 hk), hset ▸ h.tiles.replace ?_ hC, ?_,
    fun t ht => ?_⟩, (hold c (.inl rfl)).1⟩
  · rintro t (rfl | ht)
    · exact .inr (.inl rfl)
    · exact .inl (hB ht)
  · rw [hblocks, Set.disjoint_left]
    rintro t (⟨hF, ht⟩ | ht) (rfl | hA)
    · exact ht ((hold t (.inl rfl)).2 hF)
    · exact hdisj hF (.inr hA)
    · exact hc ht
    · exact (hold t (.inr ht)).1 hA
  · rw [hset] at ht
    exact ht.elim (fun ht => h.dyadic t ht.1) (hdy t)

theorem Tiling.le_max (h : Tiling base K f A) (hb : dyadicBlock base k m ∈ f.blocks ∪ A) : k ≤ K := by
  obtain ⟨j, n, -, hj, heq⟩ := h.dyadic _ hb
  rwa [Nat.pow_right_injective le_rfl (congrArg MemoryBlock.size heq)]

/-- A block of the size of the pool is the pool. -/
theorem Tiling.eq_zero (h : Tiling base K f A) (hb : dyadicBlock base K m ∈ f.blocks ∪ A) : m = 0 := by
  have := addr_mem_span.mp ((h.tiles.mem_iff _).mpr ⟨_, hb, addr_mem_span_self⟩)
  rwa [Int.mul_ediv_cancel_left _ (by positivity)] at this

/-- Two buddies are smaller than the pool. -/
theorem Tiling.lt_of_buddy (h : Tiling base K f A) (hb : dyadicBlock base K m ∈ f.blocks ∪ A) :
    (dyadicBlock base K m).buddy base ∉ f.blocks := by
  intro hc
  have hm := h.eq_zero hb
  have hm' := h.eq_zero (.inl (buddy_dyadicBlock ▸ hc))
  subst hm
  simp [otherHalf] at hm'

/-- **If nothing is allocated**, the pool is one free block: the buddy of a smallest free block would
lie within a larger one, which has the smallest one too. -/
theorem Tiling.eq_initial (h : Tiling base K f ∅) (hno : NoBuddies base f.blocks) :
    f.blocks = {dyadicBlock base K 0} := by
  classical
  have htile : ∀ x ∈ (dyadicBlock base K 0).span, ∃ k m, dyadicBlock base k m ∈ f.blocks ∧
      x ∈ (dyadicBlock base k m).span := by
    intro x hx
    obtain ⟨b, hb | hb, hxb⟩ := (h.tiles.mem_iff x).mp hx
    · obtain ⟨k, m, -, -, rfl⟩ := h.dyadic b (.inl hb)
      exact ⟨k, m, hb, hxb⟩
    · exact hb.elim
  have hsome : ∃ k m, dyadicBlock base k m ∈ f.blocks := by
    obtain ⟨k, m, hb, -⟩ := htile _ addr_mem_span_self
    exact ⟨k, m, hb⟩
  obtain ⟨m, hb⟩ := Nat.find_spec hsome
  have hK : Nat.find hsome = K := by
    refine (h.le_max (.inl hb)).antisymm (not_lt.mp fun hlt => ?_)
    have hx := (h.tiles.mem_iff _).mpr ⟨_, .inl hb, addr_mem_span_self⟩
    obtain ⟨j, n, hc, hy⟩ := htile _ ((buddy_mem_span hlt).mpr hx)
    obtain heq | hlt' := (Nat.find_min' hsome ⟨n, hc⟩).eq_or_lt
    · rw [← heq, buddy_dyadicBlock, addr_mem_span, Int.mul_ediv_cancel_left _ (by positivity)] at hy
      exact hno _ hb (by rwa [buddy_dyadicBlock, hy, heq])
    · have hx' := (buddy_mem_span hlt').mp hy
      have := congrArg MemoryBlock.size
        (h.tiles.unique _ (.inl hb) _ (.inl hc) _ addr_mem_span_self hx')
      exact hlt'.ne (Nat.pow_right_injective le_rfl this)
  rw [hK] at hb
  obtain rfl := h.eq_zero (.inl hb)
  refine Set.eq_singleton_iff_unique_mem.mpr ⟨hb, fun c hc => ?_⟩
  obtain ⟨j, n, -, -, rfl⟩ := h.dyadic c (.inl hc)
  have hx := (h.tiles.mem_iff _).mpr ⟨_, .inl hc, addr_mem_span_self⟩
  exact h.tiles.unique _ (.inl hc) _ (.inl hb) _ addr_mem_span_self hx

theorem Tiling.noBuddies_insert (h : Tiling base K f A) (hno : NoBuddies base f.blocks)
    (hb : (dyadicBlock base k m).buddy base ∉ f.blocks) :
    NoBuddies base (insert (dyadicBlock base k m) f.blocks) := by
  rintro t (rfl | ht) (heq | hmem)
  · exact buddy_ne heq
  · exact hb hmem
  · obtain ⟨j, n, -, -, rfl⟩ := h.dyadic t (.inl ht)
    rw [← heq, buddy_buddy] at hb
    exact hb ht
  · exact hno t ht hmem

theorem tiles_halves (k : Nat) (m : Int) :
    Tiles MemoryBlock.span
      {x | ∃ t ∈ insert (dyadicBlock base (k + 1) m) (∅ : Set MemoryBlock), x ∈ t.span}
      {dyadicBlock base k (2 * m), dyadicBlock base k (2 * m + 1)} where
  nonempty := by
    rintro t (rfl | rfl) <;> exact ⟨_, addr_mem_span_self⟩
  mem_iff x := by
    have h := @mem_span_succ base x k (2 * m)
    rw [buddy_dyadicBlock, otherHalf, if_pos (by omega), Int.mul_ediv_cancel_left _ two_ne_zero] at h
    simp [h]
  unique := by
    rintro t (rfl | rfl) u (rfl | rfl) x hx hx' <;> rw [mem_span_iff] at hx hx' <;> first | rfl | omega

/-- The block that is held is put back. -/
theorem Tiling.put (h : Tiling base K f (insert (dyadicBlock base k m) A))
    (hb : dyadicBlock base k m ∉ A) (h9 : 9 ≤ k) :
    ∃ f', f.put (dyadicBlock base k m) = .ok f' ∧ Tiling base K f' A ∧
      ((dyadicBlock base k m).buddy base ∉ f.blocks → NoBuddies base f.blocks →
        NoBuddies base f'.blocks) := by
  obtain ⟨f', hput⟩ := FreeLists.put_ok (b := dyadicBlock base k m)
    (h.sizes k h9 (h.le_max (.inr (.inl rfl))))
  obtain ⟨hstored, hblocks, hsizes⟩ := FreeLists.put_spec h.stored hput
  have hset : f'.blocks ∪ A = f.blocks ∪ insert (dyadicBlock base k m) A := by
    rw [hblocks, Set.insert_union, Set.union_insert]
  refine ⟨f', hput, ⟨hstored, fun j h9 hj => (hsizes _).mpr (h.sizes j h9 hj), hset ▸ h.tiles, ?_,
    hset ▸ h.dyadic⟩, fun hbuddy hno => hblocks ▸ h.noBuddies_insert hno hbuddy⟩
  rw [hblocks, Set.disjoint_insert_left]
  exact ⟨hb, h.disjoint.mono_right (Set.subset_insert _ _)⟩

/-- The loop of `_split_block`. -/
theorem Tiling.splitBlock {r : Nat} (hr : 9 ≤ r) : ∀ (fuel k : Nat) (m : Int) (f : FreeLists),
    r ≤ k → k ≤ fuel + r → Tiling base K f (insert (dyadicBlock base k m) A) →
    dyadicBlock base k m ∉ A → ∃ n f', KVTransfer.splitBlock 512 (2 ^ r) fuel (dyadicBlock base k m) f =
      .ok (dyadicBlock base r n, f') ∧ Tiling base K f' (insert (dyadicBlock base r n) A) ∧
      dyadicBlock base r n ∉ A ∧ (NoBuddies base f.blocks → NoBuddies base f'.blocks)
  | 0, k, m, f, hrk, hk, h, hb => by
    obtain rfl : k = r := by omega
    exact ⟨m, f, rfl, h, hb, id⟩
  | fuel + 1, k, m, f, hrk, hk, h, hb => by
    obtain rfl | hlt := hrk.eq_or_lt
    · exact ⟨m, f, by simp [KVTransfer.splitBlock, dyadicBlock], h, hb, id⟩
    obtain ⟨k, rfl⟩ : ∃ j, k = j + 1 := ⟨k - 1, by omega⟩
    have hle := h.le_max (.inr (.inl rfl))
    obtain ⟨f', hput⟩ := FreeLists.put_ok (b := dyadicBlock base k (2 * m + 1))
      (h.sizes k (by omega) (by omega))
    obtain ⟨hstored, hblocks, hsizes⟩ := FreeLists.put_spec h.stored hput
    have hne : dyadicBlock base k (2 * m) ≠ dyadicBlock base k (2 * m + 1) := fun heq => by
      simpa [dyadicBlock] using congrArg MemoryBlock.addr heq
    obtain ⟨h', hb'⟩ := h.replace (B := ∅) (C := {dyadicBlock base k (2 * m + 1)}) hb hstored hsizes
      (Set.empty_subset _) (by rw [hblocks, Set.sdiff_empty, Set.union_singleton]) hne (tiles_halves k m)
      (by rintro t (rfl | rfl) <;> exact ⟨k, _, by omega, by omega, rfl⟩)
    obtain ⟨n, f'', hsplit, h'', hb'', hno⟩ :=
      Tiling.splitBlock hr fuel k (2 * m) f' (by omega) (by omega) h' hb'
    refine ⟨n, f'', ?_, h'', hb'', fun hf => hno (hblocks ▸ h.noBuddies_insert hf fun hmem => ?_)⟩
    · have hlt' : 2 ^ r < 2 ^ (k + 1) := Nat.pow_lt_pow_right one_lt_two hlt
      have hmin : 512 ≤ 2 ^ k := (by decide : 512 = 2 ^ 9) ▸ Nat.pow_le_pow_right two_pos (by omega)
      have hhalf : 2 ^ (k + 1) / 2 = 2 ^ k := by rw [pow_succ, Nat.mul_div_cancel _ two_pos]
      have hput' : FreeLists.put f ⟨2 ^ k, base + 2 ^ (k + 1) * m + (2 ^ k : Nat)⟩ = .ok f' := by
        rw [← hput, dyadicBlock]
        congr 2
        push_cast
        ring
      have hsplit' : KVTransfer.splitBlock 512 (2 ^ r) fuel ⟨2 ^ k, base + 2 ^ (k + 1) * m⟩ f' =
          .ok (dyadicBlock base r n, f'') := by
        rw [← hsplit, dyadicBlock, pow_succ, mul_assoc]
      simp only [KVTransfer.splitBlock, dyadicBlock, hhalf, hlt', hmin, and_self, if_true]
      exact (bind_of_ok hput').trans hsplit'
    · rw [buddy_dyadicBlock, otherHalf, if_neg (by omega), add_sub_cancel_right] at hmem
      exact Set.disjoint_left.mp h'.disjoint (hblocks ▸ .inr hmem) (.inl rfl)

/-- The loop of `_merge_buddies`. -/
theorem Tiling.mergeBuddies : ∀ (depth k : Nat) (m : Int) (f : FreeLists), 9 ≤ k →
    Tiling base K f (insert (dyadicBlock base k m) A) → dyadicBlock base k m ∉ A →
    ∃ f', KVTransfer.mergeBuddies base depth (dyadicBlock base k m) f = .ok f' ∧
      Tiling base K f' A ∧ (K ≤ k + depth → NoBuddies base f.blocks → NoBuddies base f'.blocks)
  | 0, k, m, f, h9, h, hb => by
    obtain ⟨f', hput, h', hno⟩ := h.put hb h9
    refine ⟨f', hput, h', fun hK => hno ?_⟩
    obtain rfl := hK.antisymm (h.le_max (.inr (.inl rfl)))
    exact h.lt_of_buddy (.inr (.inl rfl))
  | depth + 1, k, m, f, h9, h, hb => by
    have hK := h.le_max (.inr (.inl rfl))
    obtain ⟨blocks, hget⟩ := Dict.mem_iff_get?.mp (h.sizes k h9 hK)
    cases hbuddy : blocks.get? (buddyAddr base (dyadicBlock base k m)) with
    | none =>
      obtain ⟨f', hput, h', hno⟩ := h.put hb h9
      refine ⟨f', ?_, h', fun _ => hno fun hmem => ?_⟩
      · rw [KVTransfer.mergeBuddies, show f.get? (dyadicBlock base k m).size = some blocks from hget]
        simp only [hbuddy, hput]
      · obtain ⟨blocks', hget', hbuddy'⟩ := hmem
        obtain rfl := Option.some.inj (hget.symm.trans hget')
        exact nomatch hbuddy.symm.trans hbuddy'
    | some buddy =>
      obtain ⟨hsize, haddr⟩ := h.stored _ _ hget _ _ hbuddy
      obtain rfl : buddy = (dyadicBlock base k m).buddy base := MemoryBlock.ext hsize haddr
      obtain ⟨hmem, hstored, hblocks, hsizes⟩ := FreeLists.erase_spec h.stored hget hbuddy
      have hlt : k < K := hK.lt_of_ne fun heq => by
        subst heq
        exact h.lt_of_buddy (.inr (.inl rfl)) hmem
      have hC : Tiles MemoryBlock.span
          {x | ∃ t ∈ ({dyadicBlock base k m, (dyadicBlock base k m).buddy base} : Set MemoryBlock),
            x ∈ t.span}
          (insert (dyadicBlock base (k + 1) (m / 2)) ∅) := by
        rw [LawfulSingleton.insert_empty_eq]
        convert Tiles.single ⟨_, addr_mem_span_self⟩ using 1
        ext x
        simp [mem_span_succ]
      obtain ⟨h', hb'⟩ := h.replace hb hstored hsizes (Set.singleton_subset_iff.mpr hmem)
        (by rw [hblocks, Set.union_empty]) (Set.notMem_empty _) hC
        (by rintro t (rfl | ht); exacts [⟨k + 1, _, by omega, hlt, rfl⟩, ht.elim])
      obtain ⟨f', hmerge, hf', hno⟩ := Tiling.mergeBuddies depth (k + 1) (m / 2) _ (by omega) h' hb'
      refine ⟨f', ?_, hf', fun hd hf => hno (by omega) (hblocks ▸ fun t ht ht' => hf t ht.1 ht'.1)⟩
      have hmerged : (⟨2 ^ k * 2, min (base + 2 ^ k * m)
          (buddyAddr base (dyadicBlock base k m))⟩ : MemoryBlock) = dyadicBlock base (k + 1) (m / 2) := by
        have hmin : min m (otherHalf m) = 2 * (m / 2) := by
          unfold otherHalf
          split_ifs <;> omega
        rw [show buddyAddr base (dyadicBlock base k m) = base + 2 ^ k * otherHalf m from
          congrArg MemoryBlock.addr buddy_dyadicBlock, min_add_add_left, dyadicBlock,
          ← mul_min_of_nonneg _ _ (by positivity), hmin, pow_succ, pow_succ, mul_assoc]
      have hremove : f.remove ((dyadicBlock base k m).buddy base) =
          .ok (f.set (dyadicBlock base k m).size (blocks.erase (buddyAddr base (dyadicBlock base k m)))) := by
        rw [FreeLists.remove,
          show f.get? ((dyadicBlock base k m).buddy base).size = some blocks from hget]
        exact bind_of_ok (a := ()) (require_eq_ok.mpr (Dict.mem_of_get? hbuddy))
      rw [KVTransfer.mergeBuddies, show f.get? (dyadicBlock base k m).size = some blocks from hget]
      simp only [hbuddy]
      rw [bind_of_ok hremove]
      exact hmerged ▸ hmerge

end Tiling

/-! ## The pool -/

namespace TensorMemoryPool

/-- The allocated blocks. -/
def allocated (p : TensorMemoryPool) : Set MemoryBlock := {b | p.allocatedBlocks.get? b.addr = some b}

/-- The pool with one more block allocated, and other free lists. -/
def withAllocated (p : TensorMemoryPool) (b : MemoryBlock) (f : FreeLists) : TensorMemoryPool :=
  { p with freeLists := f, allocatedBlocks := p.allocatedBlocks.set b.addr b }

/-- The pool with one block less allocated, and other free lists. -/
def withFreed (p : TensorMemoryPool) (addr : Int) (f : FreeLists) : TensorMemoryPool :=
  { p with freeLists := f, allocatedBlocks := p.allocatedBlocks.erase addr }

/-- **The blocks of the pool tile it**, and up to the merge depth no free blocks are buddies. -/
structure Tiled (p : TensorMemoryPool) (K : Nat) : Prop where
  maxSize : p.maxBlockSize = 2 ^ K
  minSize : p.minBlockSize = 512
  keyed : ∀ addr b, p.allocatedBlocks.get? addr = some b → b.addr = addr
  tiling : Tiling p.baseAddress K p.freeLists p.allocated
  noBuddies : K ≤ 39 → NoBuddies p.baseAddress p.freeLists.blocks

variable {p : TensorMemoryPool} {K : Nat} {b : MemoryBlock} {f : FreeLists}

/-- **The block that is held becomes allocated**, at an address that was free. -/
theorem Tiled.hold (h : p.Tiled K) (hf : Tiling p.baseAddress K f (insert b p.allocated))
    (hb : b ∉ p.allocated) (hno : K ≤ 39 → NoBuddies p.baseAddress f.blocks) :
    b.addr ∉ p.allocatedBlocks ∧ (p.withAllocated b f).Tiled K := by
  have hself : ∀ c ∈ f.blocks ∪ insert b p.allocated, c.addr ∈ c.span := by
    intro c hc
    obtain ⟨k, m, -, -, rfl⟩ := hf.dyadic c hc
    exact addr_mem_span_self
  have hnew : b.addr ∉ p.allocatedBlocks := by
    intro hmem
    obtain ⟨c, hget⟩ := Dict.mem_iff_get?.mp hmem
    have haddr := h.keyed _ _ hget
    have hc : c ∈ p.allocated := by rwa [← haddr] at hget
    have heq := hf.tiles.unique b (.inr (.inl rfl)) c (.inr (.inr hc)) b.addr
      (hself b (.inr (.inl rfl))) (haddr ▸ hself c (.inr (.inr hc)))
    exact hb (heq ▸ hc)
  refine ⟨hnew, h.maxSize, h.minSize, fun addr c hget => ?_, ?_, hno⟩
  · rw [withAllocated, Dict.get?_set] at hget
    split_ifs at hget with heq
    · rw [heq, Option.some.inj hget]
    · exact h.keyed _ _ hget
  · suffices hset : (p.withAllocated b f).allocated = insert b p.allocated from hset ▸ hf
    ext c
    simp only [allocated, withAllocated, Set.mem_ofPred_eq, Set.mem_insert_iff, Dict.get?_set]
    split_ifs with haddr
    · rw [Option.some.injEq, eq_comm, iff_comm, or_iff_left_of_imp]
      exact fun hc => absurd (haddr ▸ Dict.mem_of_get? hc) hnew
    · rw [or_iff_right fun heq => haddr (congrArg MemoryBlock.addr heq)]

/-- The loop of `allocate`. -/
theorem Tiled.allocateFrom {r : Nat} (h : p.Tiled K) (hr : 9 ≤ r) : ∀ (fuel c : Nat), r ≤ c →
    K < fuel + c →
    (p.allocateFrom (2 ^ r) fuel (2 ^ c) = .error .valueError ∧ ∀ b ∈ p.freeLists.blocks, b.size < 2 ^ c) ∨
    ∃ b f, p.allocateFrom (2 ^ r) fuel (2 ^ c) = .ok (b.addr, p.withAllocated b f) ∧ b.size = 2 ^ r ∧
      (∃ c' ∈ p.freeLists.blocks, 2 ^ c ≤ c'.size) ∧ b.addr ∉ p.allocatedBlocks ∧ (p.withAllocated b f).Tiled K := by
  -- no block is larger than the pool
  have hlarge : ∀ c, K < c → ∀ b ∈ p.freeLists.blocks, b.size < 2 ^ c := by
    intro c hc b hb
    obtain ⟨k, m, -, hk, rfl⟩ := h.tiling.dyadic b (.inl hb)
    exact Nat.pow_lt_pow_right one_lt_two (hk.trans_lt hc)
  intro fuel
  induction fuel with
  | zero => exact fun c _ hK => .inl ⟨rfl, hlarge c (by omega)⟩
  | succ fuel ih =>
    intro c hrc hK
    rw [TensorMemoryPool.allocateFrom]
    split_ifs with hle <;> rw [h.maxSize, Nat.pow_le_pow_iff_right one_lt_two] at hle
    · obtain ⟨blocks, hget⟩ := Dict.mem_iff_get?.mp (h.tiling.sizes c (hr.trans hrc) hle)
      simp only [hget]
      cases hlast : blocks.entries.getLast? with
      | none =>
        simp only [← pow_succ]
        obtain ⟨herr, hsize⟩ | ⟨b, f, hok, hsize, ⟨c', hc', hle'⟩, hnew⟩ := ih (c + 1) (by omega) (by omega)
        · refine .inl ⟨herr, fun b hb => ?_⟩
          obtain ⟨k, m, -, -, rfl⟩ := h.tiling.dyadic b (.inl hb)
          have hlt := (Nat.pow_lt_pow_iff_right one_lt_two).mp (hsize _ hb)
          obtain ⟨blocks', hget', hb'⟩ := hb
          refine Nat.pow_lt_pow_right one_lt_two ((Nat.lt_succ_iff.mp hlt).lt_of_ne ?_)
          rintro rfl
          obtain rfl := Option.some.inj (hget.symm.trans hget')
          rw [Dict.get?_eq_some_iff, List.getLast?_eq_none_iff.mp hlast] at hb'
          exact nomatch hb'
        · exact .inr ⟨b, f, hok, hsize, ⟨c', hc', (Nat.pow_le_pow_right two_pos c.le_succ).trans hle'⟩, hnew⟩
      | some entry =>
        obtain ⟨addr, b⟩ := entry
        have hentry := Dict.get?_eq_some_iff.mpr (List.mem_of_getLast? hlast)
        obtain ⟨hmem, hstored, hblocks, hsizes⟩ := FreeLists.erase_spec h.tiling.stored hget hentry
        have hset : FreeLists.blocks (p.freeLists.set (2 ^ c) (blocks.erase addr)) ∪
            insert b p.allocated = p.freeLists.blocks ∪ p.allocated := by
          rw [hblocks, Set.union_insert, ← Set.insert_union, Set.insert_sdiff_singleton,
            Set.insert_eq_of_mem hmem]
        have hb : b ∉ p.allocated := Set.disjoint_left.mp h.tiling.disjoint hmem
        have htake : Tiling p.baseAddress K (p.freeLists.set (2 ^ c) (blocks.erase addr))
            (insert b p.allocated) := by
          refine ⟨hstored, fun k h9 hk => (hsizes _).mpr (h.tiling.sizes k h9 hk),
            hset ▸ h.tiling.tiles, ?_, hset ▸ h.tiling.dyadic⟩
          rw [hblocks, Set.disjoint_insert_right]
          exact ⟨fun hin => hin.2 rfl, h.tiling.disjoint.mono_left Set.sdiff_subset⟩
        obtain ⟨k, m, -, -, rfl⟩ := h.tiling.dyadic b (.inl hmem)
        obtain rfl := Nat.pow_right_injective le_rfl (h.tiling.stored _ _ hget _ _ hentry).1
        obtain ⟨n, f, hsplit, hf, hn, hno⟩ :=
          htake.splitBlock hr (2 ^ k) k m _ hrc (by have := k.lt_two_pow_self; omega) hb
        have hno' : K ≤ 39 → NoBuddies p.baseAddress f.blocks := fun hK =>
          hno (hblocks ▸ fun t ht ht' => h.noBuddies hK t ht.1 ht'.1)
        refine .inr ⟨_, f, ?_, rfl, ⟨_, hmem, le_rfl⟩, h.hold hf hn hno'⟩
        rw [← h.minSize] at hsplit
        dsimp only
        exact bind_of_ok hsplit
    · exact .inl ⟨rfl, hlarge c (not_le.mp hle)⟩

theorem roundToPowerOfTwo_eq {n : Nat} (h : 512 ≤ n) :
    ∃ r, 9 ≤ r ∧ roundToPowerOfTwo n = 2 ^ r ∧ n ≤ 2 ^ r ∧ ∀ m, n ≤ 2 ^ m → r ≤ m := by
  have hlt := (n - 1).lt_size_self
  have hle : n ≤ 2 ^ (n - 1).size := by omega
  exact ⟨_, (Nat.pow_le_pow_iff_right one_lt_two).mp (h.trans hle), Nat.one_shiftLeft _, hle,
    fun m hm => Nat.size_le.mpr (by omega)⟩

/-- **What `allocate` does**: it takes a block of the rounded size, or there is no large enough one. -/
theorem Tiled.allocate (h : p.Tiled K) {size : Int} (hsize : 0 < size) :
    (p.allocate size = .error .valueError ∧
      ∀ b ∈ p.freeLists.blocks, b.size < roundToPowerOfTwo (max size.toNat 512)) ∨
    ∃ b f, p.allocate size = .ok (b.addr, p.withAllocated b f) ∧ size ≤ b.size ∧
      (∃ c ∈ p.freeLists.blocks, roundToPowerOfTwo (max size.toNat 512) ≤ c.size) ∧
      b.addr ∉ p.allocatedBlocks ∧ (p.withAllocated b f).Tiled K := by
  obtain ⟨r, hr, hround, hle, -⟩ := roundToPowerOfTwo_eq (le_max_right size.toNat 512)
  have hstep := h.allocateFrom hr (2 ^ K) r le_rfl (by have := K.lt_two_pow_self; omega)
  have hrun : p.allocate size = (require (¬ p.maxBlockSize < 2 ^ r) .valueError >>= fun _ =>
      p.allocateFrom (2 ^ r) (2 ^ K) (2 ^ r)) := by
    rw [TensorMemoryPool.allocate, bind_of_ok (require_of hsize), h.minSize, hround, h.maxSize]
  have hle' : size ≤ (2 ^ r : Nat) := by omega
  rw [hrun, hround]
  by_cases hmax : p.maxBlockSize < 2 ^ r
  · refine .inl ⟨by simp [require, hmax]; rfl, fun b hb => ?_⟩
    obtain ⟨k, m, -, hk, rfl⟩ := h.tiling.dyadic b (.inl hb)
    exact (Nat.pow_le_pow_right two_pos hk).trans_lt (h.maxSize ▸ hmax)
  · rw [bind_of_ok (require_of hmax)]
    obtain herr | ⟨b, f, hok, hb, hrest⟩ := hstep
    · exact .inl herr
    · exact .inr ⟨b, f, hok, hb ▸ hle', hrest⟩

/-- **What `free` does.** -/
theorem Tiled.free (h : p.Tiled K) (addr : Int) :
    (p.free addr = .error .valueError ∧ addr ∉ p.allocatedBlocks) ∨
    ∃ f, p.free addr = .ok (p.withFreed addr f) ∧ addr ∈ p.allocatedBlocks ∧
      (p.withFreed addr f).Tiled K := by
  rw [TensorMemoryPool.free]
  cases hget : p.allocatedBlocks.get? addr with
  | none => exact .inl ⟨rfl, Dict.get?_eq_none_iff.mp hget⟩
  | some b =>
    obtain rfl := h.keyed _ _ hget
    have hset : insert b (p.allocated \ {b}) = p.allocated := by
      rw [Set.insert_sdiff_singleton, Set.insert_eq_of_mem (show b ∈ p.allocated from hget)]
    obtain ⟨k, m, h9, -, rfl⟩ := h.tiling.dyadic b (.inr hget)
    obtain ⟨f, hmerge, hf, hno⟩ := Tiling.mergeBuddies 30 k m p.freeLists h9 (hset.symm ▸ h.tiling) (·.2 rfl)
    refine .inr ⟨f, bind_of_ok hmerge, Dict.mem_of_get? hget, h.maxSize, h.minSize, fun a c hc => ?_, ?_,
      fun hK => hno (by omega) (h.noBuddies hK)⟩
    · rw [withFreed, Dict.get?_erase] at hc
      split_ifs at hc
      exact h.keyed _ _ hc
    · suffices hset' : (p.withFreed _ f).allocated = p.allocated \ {dyadicBlock p.baseAddress k m} from
        hset' ▸ hf
      ext c
      simp only [allocated, withFreed, Set.mem_ofPred_eq, Set.mem_sdiff, Set.mem_singleton_iff,
        Dict.get?_erase]
      split_ifs with haddr
      · refine iff_of_false (by simp) fun hc => hc.2 ?_
        rw [haddr, hget] at hc
        exact (Option.some.inj hc.1).symm
      · rw [and_iff_left fun heq => haddr (congrArg MemoryBlock.addr heq)]

/-- **Freeing everything**, in any order. -/
theorem Tiled.freeAll : ∀ (addrs : List Int) (p : TensorMemoryPool), p.Tiled K → K ≤ 39 → addrs.Nodup →
    (∀ addr, addr ∈ addrs ↔ addr ∈ p.allocatedBlocks) →
    ∃ p', threadM (fun addr p => p.free addr) addrs p = .ok p' ∧ p'.allocated = ∅ ∧
      p'.freeLists.blocks = {dyadicBlock p.baseAddress K 0}
  | [], p, h, hK, _, hkeys => by
    have hempty : p.allocated = ∅ := Set.eq_empty_of_forall_notMem fun b hb =>
      nomatch (hkeys b.addr).mpr (Dict.mem_of_get? hb)
    exact ⟨p, rfl, hempty, (hempty ▸ h.tiling).eq_initial (h.noBuddies hK)⟩
  | addr :: addrs, p, h, hK, hnodup, hkeys => by
    obtain ⟨hnew, hnodup⟩ := List.nodup_cons.mp hnodup
    obtain ⟨-, hmem⟩ | ⟨f, hfree, -, h'⟩ := h.free addr
    · exact absurd ((hkeys addr).mp (.head _)) hmem
    · obtain ⟨p', hrun, hend⟩ := Tiled.freeAll addrs _ h' hK hnodup fun a => by
        rw [withFreed, Dict.mem_erase, ← hkeys, List.mem_cons]
        exact ⟨fun ha => ⟨fun heq => hnew (heq ▸ ha), .inr ha⟩, fun ha => ha.2.resolve_left ha.1⟩
      exact ⟨p', threadM_cons_ok.mpr ⟨_, hfree, hrun⟩, hend⟩

/-- The free lists of `_initialize_free_lists`. -/
theorem initializeFreeLists_spec : ∀ (fuel k : Nat) (f : FreeLists), k ≤ fuel →
    (∀ size blocks, f.get? size = some blocks → blocks = ∅) →
    (∀ size blocks, (initializeFreeLists 512 fuel (2 ^ k) f).get? size = some blocks → blocks = ∅) ∧
      ∀ j, 9 ≤ j → j ≤ k ∨ 2 ^ j ∈ f → 2 ^ j ∈ initializeFreeLists 512 fuel (2 ^ k) f
  | 0, k, f, hk, hf => ⟨hf, fun j h9 hj => hj.resolve_left (by omega)⟩
  | fuel + 1, k, f, hk, hf => by
    rw [initializeFreeLists]
    split_ifs with hle
    · rw [show 512 = 2 ^ 9 from rfl, Nat.pow_le_pow_iff_right one_lt_two] at hle
      obtain ⟨k, rfl⟩ : ∃ i, k = i + 1 := ⟨k - 1, by omega⟩
      rw [pow_succ, Nat.mul_div_cancel _ two_pos, ← pow_succ]
      obtain ⟨hempty, hkeys⟩ := initializeFreeLists_spec fuel k (f.set (2 ^ (k + 1)) ∅) (by omega) (by
        intro size blocks hget
        rw [Dict.get?_set] at hget
        split_ifs at hget
        · exact (Option.some.inj hget).symm
        · exact hf _ _ hget)
      refine ⟨hempty, fun j h9 hj => hkeys j h9 ?_⟩
      rw [Dict.mem_set, Nat.pow_right_inj one_lt_two]
      obtain hj | hj := hj
      · exact (Nat.le_succ_iff.mp hj).imp_right .inl
      · exact .inr (.inr hj)
    · rw [show 512 = 2 ^ 9 from rfl, Nat.pow_le_pow_iff_right one_lt_two] at hle
      exact ⟨hf, fun j h9 hj => hj.resolve_left (by omega)⟩

/-- **The new pool.** -/
theorem exists_init {maxBlockSize : Nat} (h : 512 ≤ maxBlockSize) (baseAddress : Int) :
    ∃ K p, init maxBlockSize 512 baseAddress = .ok p ∧ p.Tiled K ∧ p.allocatedBlocks = ∅ ∧
      ∀ m, maxBlockSize ≤ 2 ^ m → K ≤ m := by
  obtain ⟨K, h9, hround, -, hle⟩ := roundToPowerOfTwo_eq h
  obtain ⟨hempty, hkeys⟩ := initializeFreeLists_spec (2 ^ K) K ∅ K.lt_two_pow_self.le nofun
  obtain ⟨f, hput⟩ := FreeLists.put_ok (b := dyadicBlock baseAddress K 0) (hkeys K h9 (.inl le_rfl))
  obtain ⟨hstored, hblocks, hsizes⟩ := FreeLists.put_spec
    (fun size blocks hget addr b hb => by rw [hempty _ _ hget] at hb; exact nomatch hb) hput
  have hfree : f.blocks = {dyadicBlock baseAddress K 0} := by
    rw [hblocks, ← Set.union_singleton, Set.union_eq_right]
    rintro b ⟨blocks, hget, hb⟩
    rw [hempty _ _ hget] at hb
    exact nomatch hb
  have hinit : init maxBlockSize 512 baseAddress =
      .ok { maxBlockSize := 2 ^ K, minBlockSize := 512, baseAddress, freeLists := f } := by
    have hput' : (initializeFreeLists 512 (2 ^ K) (2 ^ K) ∅).put ⟨2 ^ K, baseAddress⟩ = .ok f := by
      rw [← hput, dyadicBlock, mul_zero, add_zero]
    rw [init, bind_of_ok (require_of (by omega)), bind_of_ok (require_of (by omega)), hround,
      show roundToPowerOfTwo 512 = 512 by decide +kernel]
    exact bind_of_ok hput'
  have hset : f.blocks ∪ allocated
      { maxBlockSize := 2 ^ K, minBlockSize := 512, baseAddress := baseAddress, freeLists := f } =
      {dyadicBlock baseAddress K 0} := by
    rw [hfree, Set.union_eq_left]
    exact nofun
  refine ⟨K, _, hinit, ⟨rfl, rfl, nofun, ⟨hstored, fun k h9 hk => (hsizes _).mpr (hkeys k h9 (.inl hk)),
    ?_, ?_, ?_⟩, fun _ => ?_⟩, rfl, hle⟩
  · exact hset ▸ Tiles.single ⟨_, addr_mem_span_self⟩
  · exact Set.disjoint_left.mpr fun _ _ => nofun
  · rw [hset]
    rintro b rfl
    exact ⟨K, 0, h9, le_rfl, rfl⟩
  · rw [hfree]
    rintro b rfl
    exact buddy_ne

/-! ## The sequences of calls -/

/-- **What is promised of the pool.** -/
structure Sound (p : TensorMemoryPool) : Prop where
  tiles : Tiles MemoryBlock.span (Set.Ico p.baseAddress (p.baseAddress + p.maxBlockSize))
    (p.freeLists.blocks ∪ p.allocated)
  disjoint : Disjoint p.freeLists.blocks p.allocated
  aligned : ∀ b ∈ p.freeLists.blocks ∪ p.allocated,
    ∃ k, b.size = 2 ^ k ∧ (b.size : Int) ∣ b.addr - p.baseAddress
  stored : p.freeLists.Stored
  keyed : ∀ addr b, p.allocatedBlocks.get? addr = some b → b.addr = addr
  noBuddies : NoBuddies p.baseAddress p.freeLists.blocks
  allocate_error : ∀ size e, p.allocate size = .error e ↔ e = .valueError ∧
    (0 < size → ∀ b ∈ p.freeLists.blocks, b.size < roundToPowerOfTwo (max size.toNat 512))
  allocate_ok : ∀ size addr p', p.allocate size = .ok (addr, p') →
    addr ∉ p.allocatedBlocks ∧ ∃ b ∈ p'.allocated, b.addr = addr ∧ size ≤ b.size
  free_error : ∀ addr e, p.free addr = .error e ↔ e = .valueError ∧ addr ∉ p.allocatedBlocks
  freeAll : ∀ addrs : List Int, addrs.Nodup → (∀ addr, addr ∈ addrs ↔ addr ∈ p.allocatedBlocks) →
    ∃ p', threadM (fun addr p => p.free addr) addrs p = .ok p' ∧ p'.allocated = ∅ ∧
      p'.freeLists.blocks = {{ size := p.maxBlockSize, addr := p.baseAddress }}

theorem Tiled.sound (h : p.Tiled K) (hK : K ≤ 39) : p.Sound := by
  have hwhole : (dyadicBlock p.baseAddress K 0).span =
      Set.Ico p.baseAddress (p.baseAddress + p.maxBlockSize) := by
    simp [MemoryBlock.span, dyadicBlock, h.maxSize]
  refine ⟨hwhole ▸ h.tiling.tiles, h.tiling.disjoint, fun b hb => ?_, h.tiling.stored, h.keyed,
    h.noBuddies hK, fun size e => ?_, fun size addr p' hok => ?_, fun addr e => ?_,
    fun addrs hnodup hkeys => ?_⟩
  · obtain ⟨k, m, -, -, rfl⟩ := h.tiling.dyadic b hb
    exact ⟨k, rfl, m, by simp [dyadicBlock]⟩
  · by_cases hsize : 0 < size
    · obtain ⟨herr, hnone⟩ | ⟨b, f, hok, -, ⟨c, hc, hle⟩, -⟩ := h.allocate hsize
      · rw [herr, Except.error.injEq, and_iff_left fun _ => hnone, eq_comm]
      · rw [hok]
        exact iff_of_false nofun fun hnone => (hnone.2 hsize c hc).not_ge hle
    · have herr : p.allocate size = .error .valueError := by
        simp [TensorMemoryPool.allocate, require, hsize]
        rfl
      rw [herr, Except.error.injEq, and_iff_left fun hpos => absurd hpos hsize, eq_comm]
  · have hsize : 0 < size := by
      obtain ⟨_, hreq, -⟩ := bind_eq_ok.mp hok
      exact require_eq_ok.mp hreq
    obtain ⟨herr, -⟩ | ⟨b, f, hok', hle, -, hnew, -⟩ := h.allocate hsize
    · exact nomatch herr.symm.trans hok
    · obtain ⟨rfl, rfl⟩ := Prod.mk.inj (Except.ok.inj (hok'.symm.trans hok))
      exact ⟨hnew, b, Dict.get?_set_self, rfl, hle⟩
  · obtain ⟨herr, hnot⟩ | ⟨f, hok, hmem, -⟩ := h.free addr
    · rw [herr, Except.error.injEq, and_iff_left hnot, eq_comm]
    · rw [hok]
      exact iff_of_false nofun fun hnot => hnot.2 hmem
  · have hend := Tiled.freeAll addrs p h hK hnodup hkeys
    rwa [dyadicBlock, mul_zero, add_zero, ← h.maxSize] at hend

end TensorMemoryPool

/-- The calls. -/
inductive PoolCall where
  | allocate (size : Int)
  | free (addr : Int)

/-- A call. One that fails leaves the pool as it was. -/
def PoolCall.run (p : TensorMemoryPool) : PoolCall → TensorMemoryPool
  | allocate size =>
    match p.allocate size with
    | .ok (_, p') => p'
    | .error _ => p
  | free addr =>
    match p.free addr with
    | .ok p' => p'
    | .error _ => p

theorem TensorMemoryPool.Tiled.run {p : TensorMemoryPool} {K : Nat} (h : p.Tiled K) (call : PoolCall) :
    (call.run p).Tiled K := by
  cases call with
  | allocate size =>
    simp only [PoolCall.run]
    cases hok : p.allocate size with
    | error e => exact h
    | ok result =>
      obtain ⟨_, hreq, -⟩ := bind_eq_ok.mp hok
      obtain ⟨herr, -⟩ | ⟨b, f, hok', -, -, -, h'⟩ := h.allocate (require_eq_ok.mp hreq)
      · exact nomatch herr.symm.trans hok
      · obtain rfl := Except.ok.inj (hok'.symm.trans hok)
        exact h'
  | free addr =>
    obtain ⟨herr, -⟩ | ⟨f, hok, -, h'⟩ := h.free addr
    · simpa only [PoolCall.run, herr] using h
    · simpa only [PoolCall.run, hok] using h'

/-- **The buddy allocator** never overlaps and always merges, in every sequence of calls. -/
theorem buddy_sound {maxBlockSize : Nat} (hmin : 512 ≤ maxBlockSize) (hmax : maxBlockSize ≤ 2 ^ 30 * 512)
    (baseAddress : Int) :
    ∃ p, TensorMemoryPool.init maxBlockSize 512 baseAddress = .ok p ∧
      ∀ calls : List PoolCall, (calls.foldl PoolCall.run p).Sound := by
  obtain ⟨K, p, hinit, h, -, hK⟩ := TensorMemoryPool.exists_init hmin baseAddress
  refine ⟨p, hinit, fun calls => TensorMemoryPool.Tiled.sound (K := K) ?_ (hK 39 (by omega))⟩
  clear hinit
  induction calls generalizing p with
  | nil => exact h
  | cons call calls ih => exact ih _ (h.run call)

theorem buddy_sound_one_page : ∃ p, TensorMemoryPool.init 4096 512 4096 = .ok p ∧
    ∀ calls : List PoolCall, (calls.foldl PoolCall.run p).Sound :=
  buddy_sound (by decide) (by decide) 4096

end InferenceServer.KVTransfer
