import Mathlib.Tactic

/-!
# The window of the prefix cache statistics

`PrefixCachingMetrics` (`vllm/v1/core/kv_cache_utils.py`) is to give the hit rate of the most recent
requests. `observe` appends the counts of a batch of requests to a queue; when there are more than
`max_recent_requests`, the oldest batch leaves. **One batch leaves, however many there are too many**: a
large batch behind several small ones makes a window that is larger than the maximum.
-/

namespace InferenceServer

/-- `PrefixCacheStats`. -/
structure PrefixCacheStats where
  reset : Bool := false
  requests : Nat := 0
  queries : Nat := 0
  hits : Nat := 0

/-- What is entered into the queue. -/
def PrefixCacheStats.counts (s : PrefixCacheStats) : Nat × Nat × Nat := (s.requests, s.queries, s.hits)

/-- `PrefixCachingMetrics`. -/
structure PrefixCachingMetrics where
  maxRecentRequests : Nat := 1000
  aggregatedRequests : Int := 0
  aggregatedQueryTotal : Int := 0
  aggregatedQueryHit : Int := 0
  queryQueue : List (Nat × Nat × Nat) := []

namespace PrefixCachingMetrics

/-- `reset`. -/
def reset (m : PrefixCachingMetrics) : PrefixCachingMetrics :=
  { maxRecentRequests := m.maxRecentRequests }

/-- The metrics are reset if the prefix cache was. -/
def resetIf (m : PrefixCachingMetrics) (stats : PrefixCacheStats) : PrefixCachingMetrics :=
  if stats.reset then m.reset else m

/-- The counts are appended to the queue, and added. -/
def add (m : PrefixCachingMetrics) (stats : PrefixCacheStats) : PrefixCachingMetrics :=
  { m with
    queryQueue := m.queryQueue ++ [stats.counts]
    aggregatedRequests := m.aggregatedRequests + stats.requests
    aggregatedQueryTotal := m.aggregatedQueryTotal + stats.queries
    aggregatedQueryHit := m.aggregatedQueryHit + stats.hits }

/-- The oldest counts leave the queue. -/
def popleft (m : PrefixCachingMetrics) : PrefixCachingMetrics :=
  match m.queryQueue with
  -- not after an `append`
  | [] => m
  | (oldRequests, oldQueries, oldHits) :: rest =>
    { m with
      queryQueue := rest
      aggregatedRequests := m.aggregatedRequests - oldRequests
      aggregatedQueryTotal := m.aggregatedQueryTotal - oldQueries
      aggregatedQueryHit := m.aggregatedQueryHit - oldHits }

/-- `observe`. -/
def observe (m : PrefixCachingMetrics) (stats : PrefixCacheStats) : PrefixCachingMetrics :=
  let m := (m.resetIf stats).add stats
  if m.maxRecentRequests < m.aggregatedRequests then m.popleft else m

/-- The metrics after some calls. -/
def observeAll (maxRecentRequests : Nat) (observed : List PrefixCacheStats) : PrefixCachingMetrics :=
  observed.foldl observe { maxRecentRequests }

/-- What was observed since the last reset. -/
def sinceReset (observed : List PrefixCacheStats) : List PrefixCacheStats :=
  observed.foldl (fun since s => if s.reset then [s] else since ++ [s]) []

/-- The aggregates are the sums over the queue. -/
structure Sums (m : PrefixCachingMetrics) : Prop where
  requests : m.aggregatedRequests = (m.queryQueue.map fun e => (e.1 : Int)).sum
  queries : m.aggregatedQueryTotal = (m.queryQueue.map fun e => (e.2.1 : Int)).sum
  hits : m.aggregatedQueryHit = (m.queryQueue.map fun e => (e.2.2 : Int)).sum

/-- **The window is exact.** -/
structure Exact (m : PrefixCachingMetrics) (observed : List PrefixCacheStats) : Prop
    extends Sums m where
  suffix : m.queryQueue <:+ (sinceReset observed).map PrefixCacheStats.counts
  window : m.aggregatedRequests ≤ m.maxRecentRequests ∨ m.queryQueue.length = 1

/-- One batch is enough: there is room for the new requests, or at most one other batch is there, or
there is room once the oldest batch has left. -/
def Fits (m : PrefixCachingMetrics) (stats : PrefixCacheStats) : Prop :=
  let m := m.resetIf stats
  m.aggregatedRequests + stats.requests ≤ m.maxRecentRequests ∨ m.queryQueue.length ≤ 1 ∨
    ∃ e ∈ m.queryQueue.head?, m.aggregatedRequests + stats.requests - e.1 ≤ m.maxRecentRequests

variable {m : PrefixCachingMetrics} {stats : PrefixCacheStats}

theorem Sums.resetIf (h : m.Sums) : (m.resetIf stats).Sums := by
  unfold PrefixCachingMetrics.resetIf
  split
  · exact ⟨rfl, rfl, rfl⟩
  · exact h

theorem Sums.add (h : m.Sums) : (m.add stats).Sums := by
  constructor
  · simp [PrefixCachingMetrics.add, PrefixCacheStats.counts, h.requests]
  · simp [PrefixCachingMetrics.add, PrefixCacheStats.counts, h.queries]
  · simp [PrefixCachingMetrics.add, PrefixCacheStats.counts, h.hits]

theorem Sums.popleft (h : m.Sums) : m.popleft.Sums := by
  unfold PrefixCachingMetrics.popleft
  split
  next => exact h
  next hq =>
    obtain ⟨hrequests, hqueries, hhits⟩ := h
    simp only [hq, List.map_cons, List.sum_cons] at hrequests hqueries hhits
    refine ⟨?_, ?_, ?_⟩
    · exact sub_eq_of_eq_add' hrequests
    · exact sub_eq_of_eq_add' hqueries
    · exact sub_eq_of_eq_add' hhits

theorem queryQueue_popleft (m : PrefixCachingMetrics) : m.popleft.queryQueue = m.queryQueue.tail := by
  unfold popleft
  split
  next hq => rw [hq, List.tail_nil]
  next hq => rw [hq, List.tail_cons]

/-- A call, by what the queue holds before it. -/
theorem window_observe_iff (h : m.Sums) :
    ((m.observe stats).aggregatedRequests ≤ (m.observe stats).maxRecentRequests ∨
      (m.observe stats).queryQueue.length = 1) ↔ m.Fits stats := by
  have hreset : (m.resetIf stats).Sums := h.resetIf
  unfold observe Fits
  generalize m.resetIf stats = m' at hreset ⊢
  dsimp only [PrefixCachingMetrics.add]
  split
  next hfull =>
    have hempty : m'.queryQueue = [] → m'.aggregatedRequests = 0 := fun hq => by
      rw [hreset.requests, hq]
      rfl
    unfold PrefixCachingMetrics.popleft
    rcases hq : m'.queryQueue with _ | ⟨e, _ | ⟨e', rest⟩⟩
    · simp [PrefixCacheStats.counts, hempty hq]
    · simp
    · simp only [List.cons_append, List.length_cons, List.length_append, List.head?_cons]
      constructor
      · rintro (h | h)
        · exact .inr (.inr ⟨e, rfl, h⟩)
        · omega
      · rintro (h | h | ⟨_, ⟨⟩, h⟩)
        · omega
        · omega
        · exact .inl h
  next hroom => exact iff_of_true (.inl (Int.not_lt.mp hroom)) (.inl (Int.not_lt.mp hroom))

/-- The sums are exact after every call, and the queue has what was observed last. -/
theorem sums_observeAll (maxRecentRequests : Nat) (observed : List PrefixCacheStats) :
    (observeAll maxRecentRequests observed).Sums ∧ (observeAll maxRecentRequests observed).queryQueue <:+
      (sinceReset observed).map PrefixCacheStats.counts := by
  induction observed using List.reverseRecOn with
  | nil => exact ⟨⟨rfl, rfl, rfl⟩, List.nil_suffix⟩
  | append_singleton observed stats ih =>
    obtain ⟨hsums, hsuffix⟩ := ih
    unfold observeAll sinceReset at *
    rw [List.foldl_append, List.foldl_cons, List.foldl_nil, List.foldl_append, List.foldl_cons,
      List.foldl_nil]
    generalize observed.foldl observe { maxRecentRequests } = m at hsums hsuffix ⊢
    have hadded : (m.resetIf stats).queryQueue ++ [stats.counts] <:+ (if stats.reset then [stats]
        else observed.foldl (fun since s => if s.reset then [s] else since ++ [s]) [] ++ [stats]).map
          PrefixCacheStats.counts := by
      unfold PrefixCachingMetrics.resetIf
      split
      · exact List.suffix_rfl
      · rw [List.map_append]
        exact List.suffix_append_inj_of_length_eq rfl |>.mpr ⟨hsuffix, rfl⟩
    unfold observe
    dsimp only
    split
    · refine ⟨hsums.resetIf.add.popleft, ?_⟩
      rw [queryQueue_popleft]
      exact (List.tail_suffix _).trans hadded
    · exact ⟨hsums.resetIf.add, hadded⟩

/-- **The window is exact after a call exactly if one batch is enough**, whatever was observed
before. -/
theorem exact_observe_iff (maxRecentRequests : Nat) (observed : List PrefixCacheStats)
    (stats : PrefixCacheStats) :
    (observeAll maxRecentRequests (observed ++ [stats])).Exact (observed ++ [stats]) ↔
      (observeAll maxRecentRequests observed).Fits stats := by
  obtain ⟨hsums, hsuffix⟩ := sums_observeAll maxRecentRequests (observed ++ [stats])
  rw [← window_observe_iff (sums_observeAll maxRecentRequests observed).1]
  have hnext : observeAll maxRecentRequests (observed ++ [stats]) =
      (observeAll maxRecentRequests observed).observe stats := by
    simp only [observeAll, List.foldl_append, List.foldl_cons, List.foldl_nil]
  rw [← hnext]
  exact ⟨fun h => h.window, fun h => ⟨hsums, hsuffix, h⟩⟩

/-- Two batches of five requests, and one of twenty: the window is to have ten requests, and has
twenty-five, in two batches. -/
theorem not_exact_largeBatch :
    ¬ (observeAll 10 [{ requests := 5 }, { requests := 5 }, { requests := 20 }]).Exact
      [{ requests := 5 }, { requests := 5 }, { requests := 20 }] :=
  fun h => absurd h.window (by decide)

end PrefixCachingMetrics

end InferenceServer
