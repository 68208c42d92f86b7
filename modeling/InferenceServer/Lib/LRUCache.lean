import InferenceServer.Lib.Dict

/-!
# Least-recently-used caches

A cache of bounded total size that evicts the entry whose last use is longest ago. A lookup that hits
counts as a use, and so does an assignment. An assignment makes room first, unless the key is there
with a value at least as large; a value larger than the capacity is refused.

## Main results

* `LRUCache.get?_touch`, `LRUCache.get?_setItem`: lookup after an operation
* `LRUCache.setItem_present`, `LRUCache.foldl_touch_steady`, `LRUCache.exists_unpinned`
-/

/-- A least-recently-used cache. -/
structure LRUCache (κ ν : Type) where
  /-- The entries, the least recently used first. -/
  entries : List (κ × ν)
  nodup : (entries.map Prod.fst).Nodup

namespace LRUCache

variable {κ ν : Type} [DecidableEq κ] {c c' : LRUCache κ ν} {k j : κ} {v w : ν}

/-- The empty cache. -/
def empty : LRUCache κ ν := ⟨[], List.nodup_nil⟩

omit [DecidableEq κ] in
@[ext] theorem ext_entries (h : c.entries = c'.entries) : c = c' := by
  cases c; cases c'
  simp_all

instance [DecidableEq ν] : DecidableEq (LRUCache κ ν) := fun _ _ =>
  decidable_of_iff _ ⟨ext_entries, congrArg entries⟩

/-- Lookup; it does not count as a use. -/
def get? (c : LRUCache κ ν) (k : κ) : Option ν := Dict.find c.entries k

/-- The key becomes the last one used. -/
def put (c : LRUCache κ ν) (k : κ) (v : ν) : LRUCache κ ν where
  entries := (c.entries.filter fun e => !decide (e.1 = k)) ++ [(k, v)]
  nodup := by
    rw [List.map_append, List.nodup_append]
    refine ⟨c.nodup.sublist (List.filter_sublist.map _), by simp, ?_⟩
    rintro i hi _ hk rfl
    obtain rfl : i = k := by simpa using hk
    obtain ⟨e, he, rfl⟩ := List.mem_map.mp hi
    simp at he

/-- A use of a key. -/
def touch (c : LRUCache κ ν) (k : κ) : LRUCache κ ν :=
  match c.get? k with
  | none => c
  | some v => c.put k v

/-- The keys, the least recently used first. -/
def keys (c : LRUCache κ ν) : List κ := c.entries.map Prod.fst

/-- The number of entries. -/
def length (c : LRUCache κ ν) : Nat := c.entries.length

/-- Remove a key. -/
def erase (c : LRUCache κ ν) (k : κ) : LRUCache κ ν where
  entries := c.entries.filter fun e => !decide (e.1 = k)
  nodup := c.nodup.sublist (List.filter_sublist.map _)

/-- Change the value of a key; it does not count as a use. -/
def adjust (c : LRUCache κ ν) (k : κ) (f : ν → ν) : LRUCache κ ν where
  entries := c.entries.map fun e => if e.1 = k then (e.1, f e.2) else e
  nodup := by
    have hkeys : ((fun e : κ × ν => e.1) ∘ fun e => if e.1 = k then (e.1, f e.2) else e) =
        fun e => e.1 := by
      funext e
      by_cases he : e.1 = k <;> simp [he]
    rw [List.map_map]
    exact hkeys ▸ c.nodup

variable (size : ν → Nat) (capacity : Nat)

/-- The total size of the entries. -/
def currsize (entries : List (κ × ν)) : Nat := (entries.map fun e => size e.2).sum

/-- Drop the least recently used entries until there is room for a value of size `need`. -/
def evict (need : Nat) : List (κ × ν) → List (κ × ν)
  | [] => []
  | e :: entries =>
    if capacity < currsize size (e :: entries) + need then evict need entries else e :: entries

omit [DecidableEq κ] in
theorem evict_suffix (need : Nat) (entries : List (κ × ν)) :
    evict size capacity need entries <:+ entries := by
  induction entries with
  | nil => exact List.suffix_rfl
  | cons e entries ih =>
    unfold evict
    split_ifs
    · exact ih.trans (List.suffix_cons e entries)
    · exact List.suffix_rfl

/-- The cache after the eviction. -/
def makeRoom (c : LRUCache κ ν) (need : Nat) : LRUCache κ ν where
  entries := evict size capacity need c.entries
  nodup := c.nodup.sublist ((evict_suffix size capacity need c.entries).sublist.map _)

/-- Assignment; `none` if the value is larger than the capacity. -/
def setItem (c : LRUCache κ ν) (k : κ) (v : ν) : Option (LRUCache κ ν) :=
  if capacity < size v then none
  else
    let c := match c.get? k with
      | some w => if size w < size v then c.makeRoom size capacity (size v) else c
      | none => c.makeRoom size capacity (size v)
    some (c.put k v)

/-! ## Lookup -/

variable {size capacity}

theorem get?_eq_some_iff : c.get? k = some v ↔ (k, v) ∈ c.entries := Dict.find_eq_some_iff c.nodup

theorem get?_put : (c.put k v).get? j = if j = k then some v else c.get? j := by
  have hfind : ∀ l : List (κ × ν), Dict.find (l ++ [(k, v)]) j =
      (Dict.find l j).or (if k = j then some v else none) := by
    intro l
    induction l with
    | nil => simp [Dict.find]
    | cons e l ih =>
      obtain ⟨i, w⟩ := e
      by_cases hij : i = j <;> simp [Dict.find, hij, ih]
  rw [get?, put, hfind, Dict.find_filter_ne]
  by_cases hjk : j = k
  · simp [hjk]
  · simp [hjk, Ne.symm hjk, get?]

theorem get?_erase : (c.erase k).get? j = if j = k then none else c.get? j :=
  Dict.find_filter_ne _ _ _

@[simp] theorem get?_touch : (c.touch k).get? j = c.get? j := by
  unfold touch
  cases hk : c.get? k with
  | none => rfl
  | some v =>
    rw [get?_put]
    split_ifs with hjk
    · rw [hjk, hk]
    · rfl

theorem touch_of_get? (h : c.get? k = some v) : c.touch k = c.put k v := by
  simp [touch, h]

/-- What is found after making room was there before. -/
theorem get?_of_makeRoom {need : Nat} (h : (c.makeRoom size capacity need).get? k = some v) :
    c.get? k = some v :=
  get?_eq_some_iff.mpr
    ((evict_suffix size capacity need c.entries).subset (get?_eq_some_iff.mp h))

/-- What is found after an assignment is the value assigned, or was there before. -/
theorem get?_of_setItem (h : c.setItem size capacity k v = some c') (hj : c'.get? j = some w) :
    j = k ∧ w = v ∨ c.get? j = some w := by
  unfold setItem at h
  split_ifs at h
  cases h
  rw [get?_put] at hj
  split_ifs at hj with hjk
  · exact .inl ⟨hjk, (Option.some.inj hj).symm⟩
  · right
    revert hj
    split
    · split_ifs
      · exact get?_of_makeRoom
      · exact id
    · exact get?_of_makeRoom

/-- Assigning the value that a key has is a use of it. -/
theorem setItem_present (h : c.get? k = some v) (hfit : size v ≤ capacity) :
    c.setItem size capacity k v = some (c.touch k) := by
  rw [setItem, if_neg (by omega), touch_of_get? h]
  simp [h]

theorem setItem_isSome (hfit : size v ≤ capacity) : (c.setItem size capacity k v).isSome := by
  simp [setItem, hfit]

theorem setItem_eq_none (hlarge : capacity < size v) : c.setItem size capacity k v = none :=
  if_pos hlarge

/-! ## The keys used last -/

/-- The keys `ks` are the last ones used, in the order of their last places in the list. -/
def Steady (c : LRUCache κ ν) (ks : List κ) : Prop := ks.dedup <:+ c.entries.map Prod.fst

theorem Steady.get? {ks : List κ} (h : c.Steady ks) (hk : k ∈ ks) : ∃ v, c.get? k = some v := by
  have hmem : k ∈ c.entries.map Prod.fst := h.subset (List.mem_dedup.mpr hk)
  obtain ⟨⟨i, v⟩, he, rfl⟩ := List.mem_map.mp hmem
  exact ⟨v, get?_eq_some_iff.mpr he⟩

/-- The entries of some keys. -/
def entriesOf (c : LRUCache κ ν) (ks : List κ) : List (κ × ν) :=
  ks.filterMap fun k => (c.get? k).map fun v => (k, v)

/-- The keys that are used move to the end, each to its last place. -/
theorem entries_foldl_touch {ks : List κ} (h : ∀ k ∈ ks, ∃ v, c.get? k = some v) :
    (ks.foldl touch c).entries =
      (c.entries.filter fun e => decide (e.1 ∉ ks)) ++ c.entriesOf ks.dedup := by
  induction ks generalizing c with
  | nil => simp [entriesOf]
  | cons k ks ih =>
    obtain ⟨v, hv⟩ := h k List.mem_cons_self
    have hks : ∀ j ∈ ks, ∃ w, (c.touch k).get? j = some w := fun j hj => by
      rw [get?_touch]
      exact h j (List.mem_cons_of_mem _ hj)
    have hsame : (c.touch k).entriesOf ks.dedup = c.entriesOf ks.dedup := by
      simp [entriesOf]
    have hfilter : ((c.entries.filter fun e => !decide (e.1 = k)).filter fun e =>
        decide (e.1 ∉ ks)) = c.entries.filter fun e => decide (e.1 ∉ k :: ks) := by
      rw [List.filter_filter]
      refine List.filter_congr fun e _ => ?_
      by_cases hek : e.1 = k <;> by_cases heks : e.1 ∈ ks <;> simp [hek, heks]
    rw [List.foldl_cons, ih hks, hsame, touch_of_get? hv]
    simp only [put, List.filter_append, hfilter, List.append_assoc]
    by_cases hk : k ∈ ks
    · simp [List.dedup_cons_of_mem hk, hk]
    · simp [List.dedup_cons_of_notMem hk, hk, entriesOf, hv]

/-- **Using the last keys again, in the same order, changes nothing.** -/
theorem foldl_touch_steady {ks : List κ} (h : c.Steady ks) : ks.foldl touch c = c := by
  have hpresent : ∀ k ∈ ks, ∃ v, c.get? k = some v := fun _ hk => h.get? hk
  obtain ⟨before, hbefore⟩ := h
  obtain ⟨pre, suf, hentries, hpre, hsuf⟩ := List.map_eq_append_iff.mp hbefore.symm
  have hdisjoint := (List.nodup_append.mp (hbefore ▸ c.nodup)).2.2
  ext1
  rw [entries_foldl_touch hpresent]
  have hold : (c.entries.filter fun e => decide (e.1 ∉ ks)) = pre := by
    rw [hentries, List.filter_append, List.filter_eq_self.mpr, List.filter_eq_nil_iff.mpr,
      List.append_nil]
    · intro e he
      have hmem : e.1 ∈ ks.dedup := hsuf ▸ List.mem_map_of_mem he
      simpa using List.mem_dedup.mp hmem
    · intro e he
      have hmem : e.1 ∈ before := hpre ▸ List.mem_map_of_mem he
      have hnot : e.1 ∉ ks := fun hks => hdisjoint _ hmem _ (List.mem_dedup.mpr hks) rfl
      simpa using hnot
  have hnew : c.entriesOf ks.dedup = suf := by
    have hget : ∀ e ∈ suf, c.get? e.1 = some e.2 := fun e he =>
      get?_eq_some_iff.mpr (hentries ▸ List.mem_append_right _ he)
    rw [entriesOf, ← hsuf, List.filterMap_map]
    refine (List.filterMap_congr (g := some) fun e he => ?_).trans (List.filterMap_some ..)
    simp [hget e he]
  rw [hold, hnew, hentries]

/-! ## The order of the keys -/

section Keys

variable {ks : List κ}

omit [DecidableEq κ] in
theorem nodup_keys (c : LRUCache κ ν) : c.keys.Nodup := c.nodup

omit [DecidableEq κ] in
theorem length_keys (c : LRUCache κ ν) : c.keys.length = c.length := List.length_map ..

theorem mem_keys_iff : k ∈ c.keys ↔ (c.get? k).isSome = true := by
  constructor
  · intro h
    obtain ⟨⟨i, v⟩, he, rfl⟩ := List.mem_map.mp h
    rw [get?_eq_some_iff.mpr he]
    rfl
  · intro h
    obtain ⟨v, hv⟩ := Option.isSome_iff_exists.mp h
    exact List.mem_map.mpr ⟨_, get?_eq_some_iff.mp hv, rfl⟩

theorem keys_erase : (c.erase k).keys = c.keys.filter fun j => !decide (j = k) := by
  unfold keys erase
  rw [List.filter_map]
  rfl

theorem keys_put : (c.put k v).keys = (c.keys.filter fun j => !decide (j = k)) ++ [k] := by
  unfold keys put
  rw [List.map_append, List.filter_map]
  rfl

/-- A use of a key that is there moves it to the end. -/
theorem keys_touch (h : k ∈ c.keys) :
    (c.touch k).keys = (c.keys.filter fun j => !decide (j = k)) ++ [k] := by
  obtain ⟨v, hv⟩ := Option.isSome_iff_exists.mp (mem_keys_iff.mp h)
  rw [touch_of_get? hv, keys_put]

/-- The keys but one. -/
theorem length_filter_ne (h : k ∈ c.keys) :
    (c.keys.filter fun j => !decide (j = k)).length + 1 = c.keys.length := by
  have herase : c.keys.erase k = c.keys.filter fun j => !decide (j = k) :=
    (c.nodup_keys.erase_eq_filter k).trans (List.filter_congr fun j _ => by
      by_cases hj : j = k <;> simp [hj])
  have hpos := List.length_pos_of_mem h
  rw [← herase, List.length_erase_of_mem h]
  omega

theorem length_erase (h : k ∈ c.keys) : (c.erase k).length + 1 = c.length := by
  rw [← length_keys, ← length_keys, keys_erase]
  exact length_filter_ne h

@[simp] theorem length_touch : (c.touch k).length = c.length := by
  by_cases h : k ∈ c.keys
  · rw [← length_keys, ← length_keys, keys_touch h, List.length_append, List.length_singleton]
    exact length_filter_ne h
  · have hnone : c.get? k = none := by
      rw [← Option.not_isSome_iff_eq_none]
      exact mt mem_keys_iff.mpr h
    rw [touch, hnone]

theorem length_put (h : k ∉ c.keys) : (c.put k v).length = c.length + 1 := by
  rw [← length_keys, ← length_keys, keys_put, List.length_append, List.filter_eq_self.mpr]
  · rfl
  · intro j hj
    have hne : j ≠ k := fun hjk => h (hjk ▸ hj)
    simpa using hne

/-- The keys used last stay the keys used last if another one is removed. -/
theorem suffix_filter_ne {l : List κ} (h : ks <:+ l) (hk : k ∉ ks) :
    ks <:+ l.filter fun j => !decide (j = k) := by
  have hself : (ks.filter fun j => !decide (j = k)) = ks := by
    rw [List.filter_eq_self]
    intro j hj
    have hne : j ≠ k := fun hjk => hk (hjk ▸ hj)
    simpa using hne
  obtain ⟨before, rfl⟩ := h
  rw [List.filter_append, hself]
  exact List.suffix_append ..

theorem suffix_keys_erase (h : ks <:+ c.keys) (hk : k ∉ ks) : ks <:+ (c.erase k).keys := by
  rw [keys_erase]
  exact suffix_filter_ne h hk

theorem suffix_keys_put (h : ks <:+ c.keys) (hk : k ∉ ks) : ks ++ [k] <:+ (c.put k v).keys := by
  rw [keys_put]
  exact (List.suffix_append_self_iff ..).mpr (suffix_filter_ne h hk)

theorem suffix_keys_touch (h : ks <:+ c.keys) (hk : k ∉ ks) (hmem : k ∈ c.keys) :
    ks ++ [k] <:+ (c.touch k).keys := by
  rw [keys_touch hmem]
  exact (List.suffix_append_self_iff ..).mpr (suffix_filter_ne h hk)

/-- **Room beside the pins.** While the keys used last and the pinned ones do not fill the cache, the
first key that is not pinned is none of the keys used last. -/
theorem exists_unpinned {pins : Finset κ} (h : ks <:+ c.keys)
    (hcard : (pins ∪ ks.toFinset).card < c.length) :
    ∃ k, c.keys.find? (fun j => decide (j ∉ pins)) = some k ∧ k ∉ ks := by
  have hnodup := c.nodup_keys
  obtain ⟨before, hkeys⟩ := h
  rw [← hkeys] at hnodup ⊢
  obtain ⟨-, -, hdisjoint⟩ := List.nodup_append.mp hnodup
  -- a key that is neither pinned nor one of the last ones lies before these
  obtain ⟨j, hj, hnot⟩ : ∃ j ∈ c.keys.toFinset, j ∉ pins ∪ ks.toFinset := by
    apply Finset.exists_mem_notMem_of_card_lt_card
    rwa [List.toFinset_card_of_nodup c.nodup_keys, length_keys]
  simp only [Finset.mem_union, List.mem_toFinset, not_or] at hj hnot
  have hbefore : j ∈ before := by
    rw [← hkeys, List.mem_append] at hj
    exact hj.resolve_right hnot.2
  have hfound : (before.find? fun j => decide (j ∉ pins)).isSome = true :=
    List.find?_isSome.mpr ⟨j, hbefore, by simpa using hnot.1⟩
  obtain ⟨k, hk⟩ := Option.isSome_iff_exists.mp hfound
  refine ⟨k, by rw [List.find?_append, hk]; rfl, ?_⟩
  exact fun hks => hdisjoint k (List.mem_of_find?_eq_some hk) k hks rfl

/-- If every key is pinned, the pins fill the cache. -/
theorem length_le_pinned {pins : Finset κ} (h : c.keys.find? (fun j => decide (j ∉ pins)) = none)
    (ks : List κ) : c.length ≤ (pins ∪ ks.toFinset).card := by
  have hsub : c.keys.toFinset ⊆ pins ∪ ks.toFinset := by
    intro j hj
    have hpin := List.find?_eq_none.mp h j (List.mem_toFinset.mp hj)
    exact Finset.mem_union_left _ (by simpa using hpin)
  have hcard := Finset.card_le_card hsub
  rwa [List.toFinset_card_of_nodup c.nodup_keys, length_keys] at hcard

/-- A use of the key used last changes nothing. -/
theorem touch_last (h : ks ++ [k] <:+ c.keys) : c.touch k = c := by
  have hlast : c.Steady [k] := (List.suffix_append ks [k]).trans h
  exact foldl_touch_steady hlast

theorem erase_of_notMem (h : k ∉ c.keys) : c.erase k = c := by
  ext1
  refine List.filter_eq_self.mpr fun e he => ?_
  have hne : e.1 ≠ k := fun hek => h (hek ▸ List.mem_map_of_mem he)
  simpa using hne

/-! ## Changed values -/

theorem get?_adjust {f : ν → ν} :
    (c.adjust k f).get? j = if j = k then (c.get? j).map f else c.get? j := by
  have hfind : ∀ l : List (κ × ν),
      Dict.find (l.map fun e => if e.1 = k then (e.1, f e.2) else e) j =
        if j = k then (Dict.find l j).map f else Dict.find l j := by
    intro l
    induction l with
    | nil => simp [Dict.find]
    | cons e l ih =>
      obtain ⟨i, w⟩ := e
      by_cases hik : i = k <;> by_cases hij : i = j <;> by_cases hjk : j = k <;>
        simp_all [Dict.find]
  exact hfind c.entries

theorem length_adjust {f : ν → ν} : (c.adjust k f).length = c.length := List.length_map ..

end Keys

end LRUCache
