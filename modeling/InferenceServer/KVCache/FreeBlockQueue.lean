import InferenceServer.Basic
import InferenceServer.Lib.DoublyLinked
import InferenceServer.Lib.Outcome

/-!
# The free block queue

`FreeKVCacheBlockQueue` (`vllm/v1/core/kv_cache_utils.py`): the free blocks in eviction order, as
a doubly linked list through the `prev_free_block` and `next_free_block` fields of the blocks,
with a separate counter. The fields are kept here, since only the queue reads and writes them.

## Main results

* `holds_init`, `Holds.popleft`, `Holds.popleftN`, `Holds.remove`, `Holds.appendN`: every operation
  acts on the list of free blocks
* `Holds.getAllFreeBlocks`
-/

namespace InferenceServer

open Outcome DoublyLinked

/-- The links of the free list and the number of blocks in it. -/
structure FreeKVCacheBlockQueue where
  numFreeBlocks : Int
  links : Links BlockId
deriving DecidableEq

namespace FreeKVCacheBlockQueue

/-- The queue of the given blocks, in this order. -/
def init (blocks : List BlockId) : FreeKVCacheBlockQueue :=
  { numFreeBlocks := blocks.length
    links := Links.linkAll (nodes blocks) ⟨∅, ∅⟩ }

/-- Pop the first free block. -/
def popleft (q : FreeKVCacheBlockQueue) : Except PyError (BlockId × FreeKVCacheBlockQueue) :=
  match q.links.next.get? .head with
  | none | some .tail =>
    if q.numFreeBlocks = 0 then .error .valueError else .error (.assertionError .popleft)
  | some .head => .error .sentinel
  | some (.item b) =>
    match q.links.next.get? (.item b) with
    | none => .error .runtimeError
    | some c => .ok (b, { numFreeBlocks := q.numFreeBlocks - 1
                          links := (q.links.link .head c).clear (.item b) })

/-- The loop of `popleft_n`: the popped blocks, the block after them and the links left. -/
def popLoop : Nat → Option (Node BlockId) → Links BlockId →
    Except PyError (List BlockId × Option (Node BlockId) × Links BlockId)
  | 0, curr, L => .ok ([], curr, L)
  | _ + 1, none, _ => .error (.assertionError .popleftN)
  | n + 1, some (.item b), L => do
    let (ret, curr, L') ← popLoop n (L.next.get? (.item b)) (L.clear (.item b))
    return (b :: ret, curr, L')
  | _ + 1, some _, _ => .error .sentinel

/-- Pop the first `n` free blocks. -/
def popleftN (q : FreeKVCacheBlockQueue) (n : Nat) :
    Except PyError (List BlockId × FreeKVCacheBlockQueue) :=
  if n = 0 then .ok ([], q)
  else do
    require ((n : Int) ≤ q.numFreeBlocks) (.assertionError .popleftN)
    let (ret, curr, L) ← popLoop n (q.links.next.get? .head) q.links
    return (ret, { numFreeBlocks := q.numFreeBlocks - n
                   links := match curr with
                     | none => L
                     | some c => L.link .head c })

/-- Take a block out of the free list. -/
def remove (q : FreeKVCacheBlockQueue) (b : BlockId) : Except PyError FreeKVCacheBlockQueue :=
  match q.links.prev.get? (.item b), q.links.next.get? (.item b) with
  | some p, some n => .ok { numFreeBlocks := q.numFreeBlocks - 1
                            links := (q.links.link p n).clear (.item b) }
  | _, _ => .error .runtimeError

/-- Put a list of blocks back into the free list. -/
def appendN (q : FreeKVCacheBlockQueue) (blocks : List BlockId) :
    Except PyError FreeKVCacheBlockQueue :=
  if blocks = [] then .ok q
  else
    match q.links.prev.get? .tail with
    | none => .error (.assertionError .appendN)
    | some last => .ok { numFreeBlocks := q.numFreeBlocks + blocks.length
                         links := q.links.linkAll (last :: blocks.map .item ++ [.tail]) }

/-- All free blocks, read from the fake head until a node without a successor. -/
def getAllFreeBlocks (fuel : Nat) (q : FreeKVCacheBlockQueue) : Option (List (Node BlockId)) :=
  match q.links.next.get? .head with
  | none => none
  | some first => q.links.walk fuel first

/-- **The queue holds the blocks `free`**, in this order, and its counter is their number. -/
structure Holds (q : FreeKVCacheBlockQueue) (free : List BlockId) : Prop where
  represents : Represents q.links free
  numFreeBlocks : q.numFreeBlocks = free.length

variable {q q' : FreeKVCacheBlockQueue} {free : List BlockId} {b : BlockId}

theorem holds_init (blocks : List BlockId) (h : blocks.Nodup) : Holds (init blocks) blocks :=
  ⟨represents_linkAll h, rfl⟩

theorem Holds.nodup (h : Holds q free) : free.Nodup := h.represents.nodup

/-- The front of the list is popped. -/
theorem Holds.popleft (h : Holds q (b :: free)) :
    ∃ q', q.popleft = .ok (b, q') ∧ Holds q' free := by
  have hnext : q.links.next.get? .head = some (.item b) := h.represents.next_head
  have hrep : Represents q.links ([] ++ b :: free) := h.represents
  have haround := hrep.around.2
  refine ⟨_, by simp only [FreeKVCacheBlockQueue.popleft, hnext, haround]; rfl, ?_, ?_⟩
  · exact (show Represents q.links ([] ++ [b] ++ free) from h.represents).cut
  · simp [h.numFreeBlocks]

/-- The loop of `popleft_n`, after the blocks `popped` have been taken off the list. -/
theorem popLoop_ok {n : Nat} {L L' : Links BlockId} {curr : Option (Node BlockId)}
    {popped ret : List BlockId} (h : Represents L (popped ++ free))
    (hp : popLoop n (some (firstNode free)) (L.clearAll (popped.map .item)) =
      .ok (ret, curr, L')) :
    ∃ rest, free = ret ++ rest ∧ ret.length = n ∧ curr = some (firstNode rest) ∧
      L' = L.clearAll ((popped ++ ret).map .item) := by
  induction n generalizing free popped ret with
  | zero =>
    obtain ⟨rfl, rfl, rfl⟩ : [] = ret ∧ some (firstNode free) = curr ∧
        L.clearAll (popped.map .item) = L' := by simpa [popLoop] using hp
    exact ⟨free, rfl, rfl, rfl, by simp⟩
  | succ n ih =>
    cases free with
    | nil => simp [firstNode, popLoop] at hp
    | cons b fs =>
      have hb : b ∉ popped := fun hm =>
        (List.nodup_append.mp h.nodup).2.2 b hm b (by simp) rfl
      have hnext : (L.clearAll (popped.map .item)).next.get? (.item b) = some (firstNode fs) := by
        rw [Links.next_clearAll, if_neg (by simpa using hb)]
        exact h.around.2
      have hclear : (L.clearAll (popped.map .item)).clear (.item b) =
          L.clearAll ((popped ++ [b]).map .item) := by
        simp [Links.clearAll]
      rw [show firstNode (b :: fs) = .item b from rfl, popLoop, hnext, hclear] at hp
      obtain ⟨⟨ret', curr', L''⟩, h₁, h₂⟩ := bind_eq_ok.mp hp
      cases h₂
      obtain ⟨rest, rfl, hlen, hcurr, hL⟩ := ih (by simpa using h) h₁
      exact ⟨rest, rfl, by simp [hlen], hcurr, by rw [hL]; simp⟩

/-- **`popleft_n`** takes the first `n` blocks off the list. -/
theorem Holds.popleftN (h : Holds q free) {n : Nat} {ret : List BlockId}
    (hp : q.popleftN n = .ok (ret, q')) :
    ∃ rest, free = ret ++ rest ∧ ret.length = n ∧ Holds q' rest := by
  unfold FreeKVCacheBlockQueue.popleftN at hp
  split_ifs at hp with hn
  · cases hp
    exact ⟨free, rfl, by simp [hn], h⟩
  · obtain ⟨-, -, hp⟩ := bind_eq_ok.mp hp
    obtain ⟨⟨ret', curr, L⟩, h₁, h₂⟩ := bind_eq_ok.mp hp
    rw [h.represents.next_head] at h₁
    obtain ⟨rest, hfree, hlen, rfl, rfl⟩ :=
      popLoop_ok (show Represents q.links ([] ++ free) from h.represents)
        (by simpa [Links.clearAll] using h₁)
    obtain ⟨rfl, rfl⟩ := Prod.mk.injEq .. ▸ pure_eq_ok.mp h₂
    subst hfree
    refine ⟨rest, rfl, hlen, h.represents.dropFront, ?_⟩
    simp only [h.numFreeBlocks, List.length_append, hlen]
    omega

/-- **`remove`** takes one block out of the list. -/
theorem Holds.remove (h : Holds q free) (hp : q.remove b = .ok q') :
    b ∈ free ∧ Holds q' (free.erase b) := by
  have hb : b ∈ free := by
    by_contra hb
    simp [FreeKVCacheBlockQueue.remove, h.represents.prev_none b hb] at hp
  obtain ⟨as, bs, rfl⟩ := List.append_of_mem hb
  have hnot : b ∉ as := fun hm => (List.nodup_append.mp h.nodup).2.2 b hm b (by simp) rfl
  obtain ⟨hprev, hnext⟩ := h.represents.around
  simp only [FreeKVCacheBlockQueue.remove, hprev, hnext, Except.ok.injEq] at hp
  subst hp
  refine ⟨hb, ?_, ?_⟩
  · rw [List.erase_append_right _ hnot, List.erase_cons_head]
    exact (show Represents q.links (as ++ [b] ++ bs) by simpa using h.represents).cut
  · rw [List.erase_append_right _ hnot, List.erase_cons_head]
    simp only [h.numFreeBlocks, List.length_append, List.length_cons]
    omega

/-- **`append_n`** puts blocks that are not in the list at its end. -/
theorem Holds.appendN (h : Holds q free) {blocks : List BlockId} (hn : blocks.Nodup)
    (hd : ∀ b ∈ blocks, b ∉ free) :
    ∃ q', q.appendN blocks = .ok q' ∧ Holds q' (free ++ blocks) := by
  unfold FreeKVCacheBlockQueue.appendN
  split_ifs with he
  · exact ⟨q, rfl, by simpa [he] using h⟩
  · rw [h.represents.prev_tail]
    refine ⟨_, rfl, h.represents.append hn hd, ?_⟩
    simp [h.numFreeBlocks]

/-- **The list read from the fake head.** -/
theorem Holds.getAllFreeBlocks (h : Holds q free) {fuel : Nat} (hf : free.length < fuel) :
    q.getAllFreeBlocks fuel = some (free.map .item) := by
  unfold FreeKVCacheBlockQueue.getAllFreeBlocks
  rw [h.represents.next_head]
  exact h.represents.walk_eq hf

end FreeKVCacheBlockQueue

end InferenceServer
