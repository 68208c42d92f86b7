import InferenceServer.Lib.Dict
import Mathlib.Data.List.Chain

/-!
# Intrusive doubly linked lists

A doubly linked list between two sentinels whose links are stored with the elements. The links
are partial maps on nodes; an element outside the list has no links. `Represents L xs` says
that the links `L` hold exactly the list `xs`; the pointer operations are shown to act on `xs`
as the list operations they stand for.

## Main results

* `represents_linkAll`, `Represents.append`, `Represents.cut`, `Represents.walk_eq`
-/

namespace DoublyLinked

open List (append_assoc cons_append dropLast_concat isChain_cons_cons isChain_split mem_append mem_cons mem_map nodup_append nodup_cons tail_cons)

/-- An element, or a sentinel. -/
inductive Node (ι : Type) where
  | head
  | tail
  | item (i : ι)
deriving DecidableEq

/-- The link fields of all nodes; a node without an entry has the field unset. -/
structure Links (ι : Type) where
  next : Dict (Node ι) (Node ι)
  prev : Dict (Node ι) (Node ι)
deriving DecidableEq

set_option linter.unusedSectionVars false

variable {ι : Type} [DecidableEq ι]

namespace Links

/-- Make `b` follow `a`. -/
def link (a b : Node ι) (L : Links ι) : Links ι :=
  { next := L.next.set a b, prev := L.prev.set b a }

/-- Make the nodes of a list follow each other. -/
def linkAll : List (Node ι) → Links ι → Links ι
  | a :: b :: l, L => linkAll (b :: l) (L.link a b)
  | _, L => L

/-- Unset the links of a node. -/
def clear (a : Node ι) (L : Links ι) : Links ι :=
  { next := L.next.erase a, prev := L.prev.erase a }

/-- Unset the links of all nodes of a list. -/
def clearAll (l : List (Node ι)) (L : Links ι) : Links ι := l.foldl (fun L a => L.clear a) L

/-- `b` follows `a`, in both directions. -/
def Linked (L : Links ι) (a b : Node ι) : Prop :=
  L.next.get? a = some b ∧ L.prev.get? b = some a

theorem next_linkAll_of_notMem {l : List (Node ι)} {L : Links ι} {a : Node ι}
    (h : a ∉ l.dropLast) : (linkAll l L).next.get? a = L.next.get? a := by
  induction l generalizing L with
  | nil => rfl
  | cons b l ih =>
    cases l with
    | nil => rfl
    | cons c l =>
      simp only [List.dropLast_cons_cons, mem_cons, not_or] at h
      rw [linkAll, ih h.2]
      exact Dict.get?_set_ne h.1

theorem prev_linkAll_of_notMem {l : List (Node ι)} {L : Links ι} {a : Node ι}
    (h : a ∉ l.tail) : (linkAll l L).prev.get? a = L.prev.get? a := by
  induction l generalizing L with
  | nil => rfl
  | cons b l ih =>
    cases l with
    | nil => rfl
    | cons c l =>
      simp only [tail_cons, mem_cons, not_or] at h ih
      rw [linkAll, ih h.2]
      exact Dict.get?_set_ne h.1

/-- Linking the nodes of a duplicate-free list makes them a chain. -/
theorem isChain_linkAll {l : List (Node ι)} (h : l.Nodup) (L : Links ι) :
    List.IsChain (linkAll l L).Linked l := by
  induction l generalizing L with
  | nil => exact .nil
  | cons a l ih =>
    cases l with
    | nil => exact .singleton a
    | cons b l =>
      obtain ⟨ha, hl⟩ := nodup_cons.mp h
      refine .cons_cons ⟨?_, ?_⟩ (ih hl (L.link a b))
      · rw [linkAll, next_linkAll_of_notMem fun hm => ha (List.mem_of_mem_dropLast hm)]
        exact Dict.get?_set_self
      · rw [linkAll, prev_linkAll_of_notMem (by simpa using (nodup_cons.mp hl).1)]
        exact Dict.get?_set_self

theorem next_clearAll (l : List (Node ι)) (L : Links ι) (a : Node ι) :
    (L.clearAll l).next.get? a = if a ∈ l then none else L.next.get? a := by
  induction l generalizing L with
  | nil => simp [clearAll]
  | cons b l ih =>
    change ((L.clear b).clearAll l).next.get? a = _
    rw [ih]
    by_cases hab : a = b
    · simp [clear, hab]
    · by_cases hal : a ∈ l <;> simp [clear, Dict.get?_erase, hab, hal]

theorem prev_clearAll (l : List (Node ι)) (L : Links ι) (a : Node ι) :
    (L.clearAll l).prev.get? a = if a ∈ l then none else L.prev.get? a := by
  induction l generalizing L with
  | nil => simp [clearAll]
  | cons b l ih =>
    change ((L.clear b).clearAll l).prev.get? a = _
    rw [ih]
    by_cases hab : a = b
    · simp [clear, hab]
    · by_cases hal : a ∈ l <;> simp [clear, Dict.get?_erase, hab, hal]

/-- Read elements off the `next` links, from the node `a` on, until a node without a `next`
link; `none` if the fuel ends first. -/
def walk (L : Links ι) : Nat → Node ι → Option (List (Node ι))
  | 0, _ => none
  | fuel + 1, a =>
    match L.next.get? a with
    | none => some []
    | some b => (L.walk fuel b).map (a :: ·)

end Links

/-- The nodes of the list `xs` with its sentinels. -/
def nodes (xs : List ι) : List (Node ι) := .head :: xs.map .item ++ [.tail]

/-- **The links hold the list `xs`**: its nodes are linked in order, and no other node is. -/
structure Represents (L : Links ι) (xs : List ι) : Prop where
  nodup : xs.Nodup
  chain : List.IsChain L.Linked (nodes xs)
  next_none : ∀ i, i ∉ xs → L.next.get? (.item i) = none
  prev_none : ∀ i, i ∉ xs → L.prev.get? (.item i) = none
  next_tail : L.next.get? .tail = none

theorem nodes_nodup {xs : List ι} (h : xs.Nodup) : (nodes xs).Nodup := by
  have hinj : Function.Injective (Node.item : ι → Node ι) := fun _ _ h => by cases h; rfl
  simp only [nodes, cons_append, nodup_cons, mem_append, mem_map]
  refine ⟨by simp, nodup_append.mpr ⟨h.map hinj, by simp, ?_⟩⟩
  intro a ha b hb
  obtain ⟨i, -, rfl⟩ := mem_map.mp ha
  rw [List.mem_singleton.mp hb]
  simp

/-- A chain stays one when the links change only at nodes that do not carry its links. -/
theorem isChain_congr {L L' : Links ι} {l : List (Node ι)} (h : List.IsChain L.Linked l)
    (hn : ∀ a ∈ l.dropLast, L'.next.get? a = L.next.get? a)
    (hp : ∀ b ∈ l.tail, L'.prev.get? b = L.prev.get? b) : List.IsChain L'.Linked l := by
  induction h with
  | nil => exact .nil
  | singleton a => exact .singleton a
  | @cons_cons a b l hab hl ih =>
    refine .cons_cons ⟨?_, ?_⟩ (ih ?_ ?_)
    · rw [hn a (by simp), hab.1]
    · rw [hp b (by simp), hab.2]
    · intro c hc; exact hn c (by simp [hc])
    · intro c hc; exact hp c (by simpa using Or.inr hc)

/-- Only the values of the links count. -/
theorem Represents.congr {L L' : Links ι} {xs : List ι} (h : Represents L xs)
    (hn : ∀ a, L'.next.get? a = L.next.get? a) (hp : ∀ a, L'.prev.get? a = L.prev.get? a) :
    Represents L' xs where
  nodup := h.nodup
  chain := isChain_congr h.chain (fun a _ => hn a) (fun a _ => hp a)
  next_none := fun i hi => (hn _).trans (h.next_none i hi)
  prev_none := fun i hi => (hp _).trans (h.prev_none i hi)
  next_tail := (hn _).trans h.next_tail

/-- Linking a list from scratch. -/
theorem represents_linkAll {xs : List ι} (h : xs.Nodup) :
    Represents (Links.linkAll (nodes xs) ⟨∅, ∅⟩) xs where
  nodup := h
  chain := Links.isChain_linkAll (nodes_nodup h) _
  next_none := by
    intro i hi
    rw [Links.next_linkAll_of_notMem]
    · rfl
    · rw [nodes, dropLast_concat]
      simpa using hi
  prev_none := by
    intro i hi
    rw [Links.prev_linkAll_of_notMem]
    · rfl
    · simpa [nodes] using hi
  next_tail := by
    rw [Links.next_linkAll_of_notMem]
    · rfl
    · rw [nodes, dropLast_concat]
      simp

section Operations

variable {L : Links ι} {xs : List ι}

/-- The last node before the tail sentinel. -/
def lastNode (xs : List ι) : Node ι := (Node.head :: xs.map .item).getLast (by simp)

/-- The nodes before the last one. -/
theorem head_cons_eq (xs : List ι) :
    Node.head :: xs.map .item = (Node.head :: xs.map Node.item).dropLast ++ [lastNode xs] :=
  (List.dropLast_append_getLast (by simp)).symm

theorem lastNode_mem (xs : List ι) : lastNode xs ∈ Node.head :: xs.map .item :=
  List.getLast_mem _

theorem Represents.prev_tail (h : Represents L xs) : L.prev.get? .tail = some (lastNode xs) := by
  have hc := h.chain
  rw [nodes, head_cons_eq, append_assoc] at hc
  exact (List.isChain_append_cons_cons.mp hc).2.1.2

/-- **Appending** the elements `ys` behind the last node. -/
theorem Represents.append (h : Represents L xs) {ys : List ι} (hys : ys.Nodup)
    (hd : ∀ i ∈ ys, i ∉ xs) :
    Represents (Links.linkAll (lastNode xs :: ys.map .item ++ [.tail]) L) (xs ++ ys) := by
  have hnd : (xs ++ ys).Nodup :=
    nodup_append.mpr ⟨h.nodup, hys, fun a ha b hb hab => hd b hb (hab ▸ ha)⟩
  have hnodes : nodes (xs ++ ys) =
      (Node.head :: xs.map Node.item).dropLast ++ lastNode xs :: (ys.map .item ++ [.tail]) := by
    rw [nodes, List.map_append, ← cons_append, head_cons_eq xs]
    simp
  have hnn := nodes_nodup hnd
  rw [hnodes] at hnn
  have hlast : (lastNode xs :: ys.map .item ++ [Node.tail]).dropLast =
      lastNode xs :: ys.map .item := dropLast_concat
  refine ⟨hnd, ?_, ?_, ?_, ?_⟩
  · rw [hnodes, isChain_split]
    refine ⟨?_, Links.isChain_linkAll (nodup_append.mp hnn).2.1 L⟩
    have hold : List.IsChain L.Linked ((Node.head :: xs.map Node.item).dropLast ++ [lastNode xs]) := by
      have hc := h.chain
      rw [nodes, head_cons_eq, append_assoc] at hc
      exact (isChain_split.mp hc).1
    refine isChain_congr hold ?_ ?_
    · intro a ha
      rw [dropLast_concat] at ha
      refine Links.next_linkAll_of_notMem fun hm => ?_
      rw [hlast] at hm
      exact (nodup_append.mp hnn).2.2 a ha a (by simp only [mem_cons] at hm ⊢; aesop) rfl
    · intro b hb
      rw [← head_cons_eq] at hb
      refine Links.prev_linkAll_of_notMem fun hm => ?_
      obtain ⟨i, hi, rfl⟩ := mem_map.mp hb
      simp only [cons_append, tail_cons, mem_append, mem_map,
        Node.item.injEq, exists_eq_right, List.mem_singleton, reduceCtorEq, or_false] at hm
      exact hd i hm hi
  · intro i hi
    simp only [mem_append, not_or] at hi
    rw [Links.next_linkAll_of_notMem, h.next_none i hi.1]
    rw [hlast]
    intro hm
    rcases mem_cons.mp hm with he | hm
    · have := lastNode_mem xs
      rw [← he] at this
      exact hi.1 (by simpa using this)
    · exact hi.2 (by simpa using hm)
  · intro i hi
    simp only [mem_append, not_or] at hi
    rw [Links.prev_linkAll_of_notMem, h.prev_none i hi.1]
    simpa using hi.2
  · rw [Links.next_linkAll_of_notMem, h.next_tail]
    rw [hlast]
    intro hm
    rcases mem_cons.mp hm with he | hm
    · have := lastNode_mem xs
      rw [← he] at this
      simp at this
    · simp at hm

/-- The first node behind an element: the next element or the tail sentinel. -/
def firstNode (xs : List ι) : Node ι := (xs.map Node.item ++ [Node.tail]).head (by simp)

theorem append_tail_eq (xs : List ι) :
    xs.map Node.item ++ [Node.tail] = firstNode xs :: (xs.map Node.item ++ [Node.tail]).tail :=
  (List.cons_head_tail (by simp)).symm

theorem firstNode_mem (xs : List ι) : firstNode xs ∈ xs.map Node.item ++ [Node.tail] :=
  List.head_mem _

theorem nodes_split (as bs : List ι) :
    nodes (as ++ bs) = (Node.head :: as.map Node.item).dropLast ++ lastNode as :: firstNode bs ::
      (bs.map Node.item ++ [Node.tail]).tail := by
  have hl := head_cons_eq as
  have hr := append_tail_eq bs
  generalize (Node.head :: as.map Node.item).dropLast = p at hl ⊢
  generalize (bs.map Node.item ++ [Node.tail]).tail = q at hr ⊢
  rw [nodes, List.map_append, ← cons_append, append_assoc, hl, hr, append_assoc]
  rfl

/-- **Cutting out** the middle of a list: the neighbours are linked and the links of the
elements that leave are unset. -/
theorem Represents.cut {as ms bs : List ι} (h : Represents L (as ++ ms ++ bs)) :
    Represents ((L.link (lastNode as) (firstNode bs)).clearAll (ms.map .item)) (as ++ bs) := by
  have hnd := h.nodup
  rw [append_assoc, nodup_append, nodup_append] at hnd
  obtain ⟨has, ⟨hms, hbs, hmb⟩, ham⟩ := hnd
  have hab : (as ++ bs).Nodup := nodup_append.mpr
    ⟨has, hbs, fun a ha b hb => ham a ha b (List.mem_append_right _ hb)⟩
  have hm_as : ∀ i ∈ ms, i ∉ as := fun i hi ha => ham i ha i (List.mem_append_left _ hi) rfl
  have hm_bs : ∀ i ∈ ms, i ∉ bs := fun i hi hb => hmb i hi i hb rfl
  have hfirst_tail : firstNode bs ∉ (bs.map Node.item ++ [Node.tail]).tail := by
    have hn : (bs.map Node.item ++ [Node.tail]).Nodup :=
      (nodup_cons.mp (nodes_nodup hbs)).2
    rw [append_tail_eq] at hn
    exact (nodup_cons.mp hn).1
  have hlast_drop : lastNode as ∉ (Node.head :: as.map Node.item).dropLast := by
    have hn : (Node.head :: as.map Node.item).Nodup := by
      have := nodes_nodup has
      rw [nodes] at this
      exact (nodup_append.mp this).1
    rw [head_cons_eq] at hn
    exact fun hm => (nodup_append.mp hn).2.2 _ hm _ (by simp) rfl
  -- the links that stay are those before the cut and those behind it
  have hleft : List.IsChain L.Linked ((Node.head :: as.map Node.item).dropLast ++ [lastNode as]) := by
    have hc := h.chain
    rw [append_assoc, nodes_split] at hc
    exact (isChain_split.mp hc).1
  have hright : List.IsChain L.Linked (firstNode bs :: (bs.map Node.item ++ [Node.tail]).tail) := by
    have hc := h.chain
    rw [nodes_split] at hc
    exact (isChain_cons_cons.mp (isChain_split.mp hc).2).2
  have hnext : ∀ a, a ∉ ms.map Node.item → a ≠ lastNode as →
      ((L.link (lastNode as) (firstNode bs)).clearAll (ms.map .item)).next.get? a =
        L.next.get? a := by
    intro a hm ha
    rw [Links.next_clearAll, if_neg hm]
    exact Dict.get?_set_ne ha
  have hprev : ∀ a, a ∉ ms.map Node.item → a ≠ firstNode bs →
      ((L.link (lastNode as) (firstNode bs)).clearAll (ms.map .item)).prev.get? a =
        L.prev.get? a := by
    intro a hm ha
    rw [Links.prev_clearAll, if_neg hm]
    exact Dict.get?_set_ne ha
  have hA : ∀ a ∈ Node.head :: as.map Node.item, a ∉ ms.map Node.item := by
    intro a ha hm
    obtain ⟨i, hi, rfl⟩ := mem_map.mp hm
    exact hm_as i hi (by simpa using ha)
  have hB : ∀ a ∈ bs.map Node.item ++ [Node.tail], a ∉ ms.map Node.item := by
    intro a ha hm
    obtain ⟨i, hi, rfl⟩ := mem_map.mp hm
    exact hm_bs i hi (by simpa using ha)
  have hAB : ∀ a ∈ Node.head :: as.map Node.item, a ∉ bs.map Node.item ++ [Node.tail] := by
    intro a ha hb
    rcases mem_cons.mp ha with rfl | ha
    · simp at hb
    · obtain ⟨i, hi, rfl⟩ := mem_map.mp ha
      exact ham i hi i (List.mem_append_right _ (by simpa using hb)) rfl
  refine ⟨hab, ?_, ?_, ?_, ?_⟩
  · rw [nodes_split, isChain_split]
    refine ⟨isChain_congr hleft ?_ ?_, isChain_cons_cons.mpr ⟨⟨?_, ?_⟩,
      isChain_congr hright ?_ ?_⟩⟩
    · intro a ha
      rw [dropLast_concat] at ha
      exact hnext a (hA a (List.mem_of_mem_dropLast ha)) fun he => hlast_drop (he ▸ ha)
    · intro b hb
      rw [← head_cons_eq] at hb
      have hb' : b ∈ Node.head :: as.map Node.item := List.mem_of_mem_tail hb
      exact hprev b (hA b hb') fun he => hAB b hb' (he ▸ firstNode_mem bs)
    · rw [Links.next_clearAll, if_neg (hA _ (lastNode_mem as))]
      exact Dict.get?_set_self
    · rw [Links.prev_clearAll, if_neg (hB _ (firstNode_mem bs))]
      exact Dict.get?_set_self
    · intro a ha
      have ha' : a ∈ bs.map Node.item ++ [Node.tail] := by
        rw [append_tail_eq]; exact List.mem_of_mem_dropLast ha
      exact hnext a (hB a ha') fun he => hAB _ (lastNode_mem as) (he ▸ ha')
    · intro b hb
      have hb' : b ∈ bs.map Node.item ++ [Node.tail] := by
        rw [append_tail_eq]; exact List.mem_of_mem_tail hb
      exact hprev b (hB b hb') fun he => hfirst_tail (he ▸ hb)
  · intro i hi
    simp only [mem_append, not_or] at hi
    rw [Links.next_clearAll]
    split_ifs with hm
    · rfl
    · have hne : Node.item i ≠ lastNode as := fun he => by
        have := lastNode_mem as
        rw [← he] at this
        exact hi.1 (by simpa using this)
      rw [show (L.link (lastNode as) (firstNode bs)).next.get? (.item i) = L.next.get? (.item i)
        from Dict.get?_set_ne hne]
      exact h.next_none i (by simpa [hi.1, hi.2] using hm)
  · intro i hi
    simp only [mem_append, not_or] at hi
    rw [Links.prev_clearAll]
    split_ifs with hm
    · rfl
    · have hne : Node.item i ≠ firstNode bs := fun he => by
        have := firstNode_mem bs
        rw [← he] at this
        exact hi.2 (by simpa using this)
      rw [show (L.link (lastNode as) (firstNode bs)).prev.get? (.item i) = L.prev.get? (.item i)
        from Dict.get?_set_ne hne]
      exact h.prev_none i (by simpa [hi.1, hi.2] using hm)
  · have ht : Node.tail ∉ Node.head :: as.map (Node.item : ι → Node ι) := by simp
    rw [hnext .tail (by simp) fun he => ht (he ▸ lastNode_mem as)]
    exact h.next_tail

/-- The links around an element of the list. -/
theorem Represents.around {as bs : List ι} {i : ι} (h : Represents L (as ++ i :: bs)) :
    L.prev.get? (.item i) = some (lastNode as) ∧ L.next.get? (.item i) = some (firstNode bs) := by
  have hc := h.chain
  have hsplit : nodes (as ++ i :: bs) = (Node.head :: as.map Node.item).dropLast ++
      lastNode as :: .item i :: firstNode bs :: (bs.map Node.item ++ [Node.tail]).tail := by
    rw [nodes_split, List.map_cons, cons_append, tail_cons, append_tail_eq bs]
    rfl
  rw [hsplit, List.isChain_append_cons_cons] at hc
  exact ⟨hc.2.1.2, (isChain_cons_cons.mp hc.2.2).1.1⟩

/-- Cutting off a front of the list, with the links of its elements unset first. -/
theorem Represents.dropFront {ms bs : List ι} (h : Represents L (ms ++ bs)) :
    Represents ((L.clearAll (ms.map .item)).link .head (firstNode bs)) bs := by
  have hcut : Represents ((L.link .head (firstNode bs)).clearAll (ms.map .item)) bs :=
    show Represents _ ([] ++ bs) from
      (show Represents L ([] ++ ms ++ bs) from h).cut
  have hfirst : firstNode bs ∉ ms.map Node.item := by
    intro hm
    obtain ⟨i, hi, hf⟩ := mem_map.mp hm
    have hb := firstNode_mem bs
    rw [← hf] at hb
    exact (nodup_append.mp h.nodup).2.2 i hi i (by simpa using hb) rfl
  refine hcut.congr (fun a => ?_) (fun a => ?_)
  · rw [Links.next_clearAll]
    by_cases ha : a = .head
    · subst ha; simp [Links.link]
    · simp only [Links.link, Dict.get?_set_ne ha, Links.next_clearAll]
  · rw [Links.prev_clearAll]
    by_cases ha : a = firstNode bs
    · subst ha; simp [Links.link, hfirst]
    · simp only [Links.link, Dict.get?_set_ne ha, Links.prev_clearAll]

/-- The first link of the list. -/
theorem Represents.next_head (h : Represents L xs) : L.next.get? .head = some (firstNode xs) := by
  have hc := h.chain
  rw [nodes, cons_append, append_tail_eq] at hc
  exact (isChain_cons_cons.mp hc).1.1

theorem walk_of_chain {l : List (Node ι)} (hc : List.IsChain L.Linked (l ++ [.tail]))
    (ht : L.next.get? .tail = none) : ∀ fuel, l.length < fuel →
      L.walk fuel ((l ++ [Node.tail]).head (by simp)) = some l := by
  induction l with
  | nil =>
    intro fuel hf
    obtain ⟨f, rfl⟩ : ∃ f, fuel = f + 1 := ⟨fuel - 1, by simp at hf; omega⟩
    simp [Links.walk, ht]
  | cons a l ih =>
    intro fuel hf
    obtain ⟨f, rfl⟩ : ∃ f, fuel = f + 1 := ⟨fuel - 1, by simp at hf; omega⟩
    have hrest : l ++ [Node.tail] = (l ++ [Node.tail]).head (by simp) ::
        (l ++ [Node.tail]).tail := (List.cons_head_tail (by simp)).symm
    rw [cons_append, hrest] at hc
    obtain ⟨hab, htl⟩ := isChain_cons_cons.mp hc
    rw [← hrest] at htl
    have hw := ih htl f (by simp at hf; omega)
    change L.walk (f + 1) a = _
    rw [Links.walk, hab.1]
    simp only [hw, Option.map_some]

/-- **The list read from the head** is the list represented. -/
theorem Represents.walk_eq (h : Represents L xs) {fuel : Nat} (hf : xs.length < fuel) :
    L.walk fuel (firstNode xs) = some (xs.map .item) := by
  have hc := h.chain
  rw [nodes, cons_append] at hc
  have hc' : List.IsChain L.Linked (xs.map Node.item ++ [Node.tail]) := by
    rw [append_tail_eq] at hc ⊢
    exact (isChain_cons_cons.mp hc).2
  exact walk_of_chain hc' h.next_tail fuel (by simpa using hf)

end Operations

end DoublyLinked
