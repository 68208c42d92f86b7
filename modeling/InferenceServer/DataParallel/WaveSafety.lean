import InferenceServer.DataParallel.Cluster

/-!
# No engine is stranded

An engine that steps waits for all the others. So when one engine runs, every other one has to run as
well, or to be woken by a message in flight. The wake-up that an engine's report causes leaves that
engine out, on the ground that it has a request; it is stranded if the request is aborted before the
engine has stepped.

The argument is about the present wave `W`, which all engines agree on. Once the coordinator has
started wave `W`, or a client is about to tell it, that stays so until the wave is over; and whatever
a message says of wave `W` is justified by this.

## Main results

* `Cluster.Waves.step`, `noneStranded_of_reach`, `not_noneStranded_aborted`
-/

namespace InferenceServer

variable {n m : Nat}

namespace Cluster

/-- The engine is in the running state, or has unfinished requests. -/
def Active (s : Cluster n m) (e : Fin n) : Prop :=
  (s.engines e).enginesRunning = true ∨ (s.engines e).unfinished ≠ []

/-- A `START_DP_WAVE` for the engine's wave or a later one, not excluding it. -/
def Wakes (s : Cluster n m) (e : Fin n) (msg : StartWave n) : Prop :=
  (s.engines e).currentWave ≤ msg.wave ∧ msg.excludes e = false

/-- A notification to the coordinator is in flight on which it sends a `START_DP_WAVE` that wakes the
engine. -/
inductive Notified (s : Cluster n m) (e : Fin n) : Prop where
  | firstReq {c : Fin m} {target : Fin n} {msg : StartWave n} : target ∈ s.firstReqs c →
      (s.coordinator.onFirstReq (.identity target) (s.clients c).currentWave).2 = some msg →
      s.Wakes e msg → Notified s e
  | client {c : Fin m} {p : EngineRef n × Nat} {msg : StartWave n} : p ∈ s.notifications c →
      (s.coordinator.onFirstReq p.1 p.2).2 = some msg → s.Wakes e msg → Notified s e
  | engine {x : Fin n} {out : CoordinatorInput} {msg : StartWave n} : out ∈ s.outputs x →
      (s.coordinator.onOutput x out).2 = some msg → s.Wakes e msg → Notified s e

/-- **No engine is stranded.** When an engine is active, every engine is, or it is woken by a
`START_DP_WAVE` in flight or by one that a notification will cause. -/
def NoneStranded (s : Cluster n m) : Prop :=
  ∀ a, s.Active a → ∀ e, s.Active e ∨ (∃ msg ∈ s.starts e, s.Wakes e msg) ∨ s.Notified e

/-- The wake-up of the engine's present wave leaves it out: it has reported a request of an earlier wave
and the coordinator will start the wave on this report, or has started it and no message that wakes the
engine is in flight. -/
def LeftOut (s : Cluster n m) (e : Fin n) : Prop :=
  (.startWave (s.engines e).currentWave ∈ s.outputs e ∧
    (s.coordinator.onOutput e (.startWave (s.engines e).currentWave)).2 ≠ none) ∨
  (s.coordinator.currentWave = (s.engines e).currentWave ∧ s.coordinator.enginesRunning = true ∧
    ∀ msg ∈ s.starts e, ¬ s.Wakes e msg)

/-- The step does not abort the last unfinished requests of an engine that is not running and that the
wake-up of its wave leaves out. -/
def KeepsLeftOut (s : Cluster n m) : ClusterOp n m → Prop
  | .clientInput c e =>
    match s.inputs (c, e) with
    | .abort requestIds :: _ =>
      (s.engines e).enginesRunning = false → s.LeftOut e → (s.engines e).unfinished ≠ [] →
        ((s.engines e).abortRequests requestIds).unfinished ≠ []
    | _ => True
  | _ => True

/-! ## The invariant -/

/-- The coordinator has started wave `W`. -/
def Started (s : Cluster n m) (W : Nat) : Prop :=
  s.coordinator.currentWave = W ∧ s.coordinator.enginesRunning = true

/-- The coordinator has started wave `W`, or is in wave `W` and will be told by a client. -/
def Announced (s : Cluster n m) (W : Nat) : Prop :=
  s.coordinator.currentWave = W ∧
    (s.coordinator.enginesRunning = true ∨ ∃ c, s.firstReqs c ≠ [] ∨ s.notifications c ≠ [])

/-- A report of engine `x` is in flight on which the coordinator will start wave `W`. -/
def Reports (s : Cluster n m) (W : Nat) (x : Fin n) : Prop :=
  .startWave W ∈ s.outputs x ∧ ¬ s.Started W

/-- The waves the processes and the messages in flight know of, when the engines are in wave `W`. -/
structure Bounded (s : Cluster n m) (W : Nat) : Prop where
  coordinator : s.coordinator.currentWave ≤ W
  clients : ∀ c, (s.clients c).currentWave ≤ s.coordinator.currentWave
  published : ∀ c, ∀ p ∈ s.published c, p.1 ≤ s.coordinator.currentWave
  inputs : ∀ k requestId w, .add requestId w ∈ s.inputs k → w ≤ s.coordinator.currentWave
  starts : ∀ e, ∀ msg ∈ s.starts e, msg.wave ≤ W
  reported : ∀ e w, .startWave w ∈ s.outputs e → w ≤ W
  completed : ∀ e w, .waveComplete w ∈ s.outputs e → w < W
  identities : ∀ c, ∀ p ∈ s.notifications c, ∃ e, p.1 = .identity e

/-- The engines are in wave `W`, `k` forward passes after the last agreement, and what is said of
wave `W` is justified. -/
structure Waves (s : Cluster n m) (W k : Nat) : Prop where
  wave : ∀ e, (s.engines e).currentWave = W
  counter : ∀ e, (s.engines e).counter = k
  stepping : ∀ e, (s.engines e).stepping = true → s.Active e
  bounded : s.Bounded W
  client : ∀ c, (s.clients c).enginesRunning = true → (s.clients c).currentWave = W → s.Announced W
  published : ∀ c, (W, true) ∈ s.published c → s.Started W
  inputs : ∀ k requestId, .add requestId W ∈ s.inputs k → s.Announced W
  active : ∀ e, s.Active e → s.Announced W ∨ (∃ x, s.Reports W x) ∨
    ∀ x, (s.engines x).enginesRunning = true
  starts : ∀ e, ∀ msg ∈ s.starts e, msg.wave = W → s.Started W
  started : s.Started W → ∀ e, s.Active e ∨ ∃ msg ∈ s.starts e, s.Wakes e msg
  reports : ∀ x, s.Reports W x → s.Active x

variable {s t : Cluster n m} {W k : Nat}

theorem Started.announced (h : s.Started W) : s.Announced W := ⟨h.1, .inl h.2⟩

/-- An announcement is not lost while the coordinator stays in its wave. -/
theorem Announced.mono (h : s.Announced W) (hcoord : t.coordinator = s.coordinator)
    (hfirst : ∀ c, s.firstReqs c ≠ [] ∨ s.notifications c ≠ [] →
      t.firstReqs c ≠ [] ∨ t.notifications c ≠ []) : t.Announced W :=
  ⟨hcoord ▸ h.1, h.2.imp (hcoord ▸ ·) fun ⟨c, hc⟩ => ⟨c, hfirst c hc⟩⟩

end Cluster

/-! ## The coordinator -/

namespace DPCoordinator

variable {c : DPCoordinator}

theorem onFirstReq_running {target : EngineRef n} {w : Nat} (h : c.enginesRunning = true) :
    c.onFirstReq target w = (c, none) := by
  simp [onFirstReq, h]

/-- A coordinator that takes the engines to be paused starts its wave. -/
theorem onFirstReq_paused {target : EngineRef n} {w : Nat} (h : c.enginesRunning = false) :
    c.onFirstReq target w = (⟨c.currentWave, true⟩,
      some ⟨c.currentWave, if w < c.currentWave then none else some target⟩) := by
  simp [onFirstReq, h]

end DPCoordinator

namespace Cluster

variable {s t : Cluster n m} {W k : Nat}

/-- A wave the coordinator has not started is a later one, or it takes the engines to be paused. -/
theorem not_started_iff (hle : s.coordinator.currentWave ≤ W) : ¬ s.Started W ↔
    s.coordinator.currentWave < W ∨
      W = s.coordinator.currentWave ∧ s.coordinator.enginesRunning = false := by
  unfold Started
  rcases hle.lt_or_eq with hlt | heq
  · simp [hlt, hlt.ne]
  · simp [heq]

/-- The coordinator starts wave `W` on a report of it, unless it has started it already. -/
theorem onOutput_startWave (hle : s.coordinator.currentWave ≤ W) (h : ¬ s.Started W) (x : Fin n) :
    s.coordinator.onOutput x (.startWave W) = (⟨W, true⟩, some ⟨W, some (.index x)⟩) := by
  simp [DPCoordinator.onOutput, (not_started_iff hle).mp h]

/-- **The invariant rules out stranded engines.** -/
theorem Waves.noneStranded (h : s.Waves W k) : s.NoneStranded := by
  intro a ha e
  by_cases hstarted : s.Started W
  · exact (h.started hstarted e).imp_right .inl
  rcases h.active a ha with ⟨hw, hr | ⟨c, hc⟩⟩ | ⟨x, hx⟩ | hall
  · exact absurd ⟨hw, hr⟩ hstarted
  · -- The coordinator has not started the wave: it will on what the client tells it.
    have hr : s.coordinator.enginesRunning = false := by
      simpa using fun hr => hstarted ⟨hw, hr⟩
    have hwave : (s.engines e).currentWave ≤ s.coordinator.currentWave := by
      rw [h.wave, hw]
    rcases hc with hc | hc
    · obtain ⟨target, htarget⟩ := List.exists_mem_of_ne_nil _ hc
      refine .inr (.inr (.firstReq htarget (by rw [DPCoordinator.onFirstReq_paused hr])
        ⟨hwave, ?_⟩))
      simp [StartWave.excludes]
    · obtain ⟨p, hp⟩ := List.exists_mem_of_ne_nil _ hc
      obtain ⟨target, htarget⟩ := h.bounded.identities c p hp
      refine .inr (.inr (.client hp (by rw [DPCoordinator.onFirstReq_paused hr]) ⟨hwave, ?_⟩))
      simp [StartWave.excludes, htarget]
  · rcases eq_or_ne x e with rfl | hne
    · exact .inl (h.reports x hx)
    · have hstart := onOutput_startWave h.bounded.coordinator hstarted x
      refine .inr (.inr (.engine hx.1 (by rw [hstart]) ⟨(h.wave e).le, ?_⟩))
      simpa [StartWave.excludes] using hne
  · exact .inl (.inl (hall e))

/-! ## What the coordinator does -/

variable {e : Fin n} {c : Fin m} (h : s.Waves W k)

include h

/-- A message of an engine is gone on which the coordinator would not start wave `W`. -/
theorem Waves.popOutput {out : CoordinatorInput}
    {outputs : Channels (Fin n) CoordinatorInput} (hrec : s.outputs.Received e out outputs)
    (hout : out = .startWave W → s.Started W) : { s with outputs }.Waves W k := by
  have hmem : ∀ {x}, s.Reports W x → .startWave W ∈ outputs x := by
    intro x hx
    rcases hrec.kept hx.1 with hx' | ⟨-, hx'⟩
    · exact hx'
    · exact absurd (hout hx'.symm) hx.2
  exact { h with
    bounded := { h.bounded with
      reported := fun x w hx => h.bounded.reported x w (hrec.rest hx)
      completed := fun x w hx => h.bounded.completed x w (hrec.rest hx) }
    active := fun x hx => (h.active x hx).imp_right (.imp_left fun ⟨y, hy⟩ => ⟨y, hmem hy, hy.2⟩)
    reports := fun x hx => h.reports x ⟨hrec.rest hx.1, hx.2⟩ }

/-- A client's notification is gone that the coordinator does not need. -/
theorem Waves.popNotification {p : EngineRef n × Nat}
    {notifications : Channels (Fin m) (EngineRef n × Nat)}
    (hrec : s.notifications.Received c p notifications)
    (hr : s.coordinator.enginesRunning = true) : { s with notifications }.Waves W k := by
  have hann : s.Announced W → { s with notifications }.Announced W := fun ha => ⟨ha.1, .inl hr⟩
  exact { h with
    bounded := { h.bounded with
      identities := fun d q hq => h.bounded.identities d q (hrec.rest hq) }
    client := fun d hd hw => hann (h.client d hd hw)
    inputs := fun d r hd => hann (h.inputs d r hd)
    active := fun x hx => (h.active x hx).imp_left hann }

/-- The coordinator starts a wave. -/
theorem Waves.start {w : Nat} {exclude : Option (EngineRef n)}
    (hle : s.coordinator.currentWave ≤ w) (hw : w ≤ W)
    (hexclude : ∀ x, exclude = some (.index x) → w = W → s.Active x) :
    (s.setCoordinator (⟨w, true⟩, some ⟨w, exclude⟩)).Waves W k := by
  have hstarted : s.coordinator.currentWave = W →
      (s.setCoordinator (⟨w, true⟩, some ⟨w, exclude⟩)).Started W :=
    fun heq => ⟨le_antisymm hw (heq ▸ hle), rfl⟩
  have hann : s.Announced W → (s.setCoordinator (⟨w, true⟩, some ⟨w, exclude⟩)).Announced W :=
    fun ha => (hstarted ha.1).announced
  exact {
    wave := h.wave
    counter := h.counter
    stepping := h.stepping
    bounded := { h.bounded with
      coordinator := hw
      clients := fun c => (h.bounded.clients c).trans hle
      published := fun c p hp => (h.bounded.published c p hp).trans hle
      inputs := fun c r v hv => (h.bounded.inputs c r v hv).trans hle
      starts := by
        intro e msg hmsg
        rcases Channels.mem_broadcast.mp hmsg with hmsg | rfl
        · exact h.bounded.starts e msg hmsg
        · exact hw }
    client := fun c hc hcw => hann (h.client c hc hcw)
    published := fun c hc => hstarted (h.published c hc).1
    inputs := fun c r hr => hann (h.inputs c r hr)
    active := by
      intro e he
      rcases h.active e he with ha | ⟨x, hx⟩ | hall
      · exact .inl (hann ha)
      · by_cases hs : (s.setCoordinator (⟨w, true⟩, some ⟨w, exclude⟩)).Started W
        · exact .inl hs.announced
        · exact .inr (.inl ⟨x, hx.1, hs⟩)
      · exact .inr (.inr hall)
    starts := by
      intro e msg hmsg hwave
      rcases Channels.mem_broadcast.mp hmsg with hmsg | rfl
      · exact hstarted (h.starts e msg hmsg hwave).1
      · exact ⟨hwave, rfl⟩
    started := by
      intro hs e
      have hwW : w = W := hs.1
      by_cases hex : exclude = some (.index e)
      · exact .inl (hexclude e hex hwW)
      · refine .inr ⟨⟨w, exclude⟩, Channels.mem_broadcast.mpr (.inr rfl), ?_, ?_⟩
        · exact ((h.wave e).trans hwW.symm).le
        · simpa [StartWave.excludes] using hex
    reports := fun x hx => h.reports x ⟨hx.1, fun hs => hx.2 (hstarted hs.1)⟩ }

/-- The coordinator takes a wave for completed. -/
theorem Waves.pause {w : Nat} (hle : s.coordinator.currentWave ≤ w) (hw : w < W) :
    (s.setCoordinator (⟨w + 1, false⟩, none)).Waves W k := by
  have hne : s.coordinator.currentWave ≠ W := (hle.trans_lt hw).ne
  exact {
    wave := h.wave
    counter := h.counter
    stepping := h.stepping
    bounded := { h.bounded with
      coordinator := hw
      clients := fun c => (h.bounded.clients c).trans (hle.trans w.le_succ)
      published := fun c p hp => (h.bounded.published c p hp).trans (hle.trans w.le_succ)
      inputs := fun c r v hv => (h.bounded.inputs c r v hv).trans (hle.trans w.le_succ) }
    client := fun c hc hcw => absurd (h.client c hc hcw).1 hne
    published := fun c hc => absurd (h.published c hc).1 hne
    inputs := fun c r hr => absurd (h.inputs c r hr).1 hne
    active := by
      intro e he
      rcases h.active e he with ha | ⟨x, hx⟩ | hall
      · exact absurd ha.1 hne
      · exact .inr (.inl ⟨x, hx.1, fun hs => nomatch hs.2⟩)
      · exact .inr (.inr hall)
    starts := fun e msg hmsg hwave => absurd (h.starts e msg hmsg hwave).1 hne
    started := fun hs => nomatch hs.2
    reports := fun x hx => h.reports x ⟨hx.1, fun hs => hne hs.1⟩ }

theorem Waves.notification {p : EngineRef n × Nat}
    {notifications : Channels (Fin m) (EngineRef n × Nat)}
    (hrec : s.notifications.Received c p notifications) :
    ({ s with notifications }.setCoordinator (s.coordinator.onFirstReq p.1 p.2)).Waves W k := by
  rcases hr : s.coordinator.enginesRunning with _ | _
  · rw [DPCoordinator.onFirstReq_paused hr]
    obtain ⟨target, htarget⟩ := h.bounded.identities c p hrec.head
    -- What a client names is an identity, so nobody is left out.
    refine Waves.popNotification (h.start le_rfl h.bounded.coordinator fun x hx _ => ?_) hrec rfl
    split_ifs at hx
    rw [htarget] at hx
    simp at hx
  · rw [DPCoordinator.onFirstReq_running hr]
    exact h.popNotification hrec hr

theorem Waves.engineOutput {out : CoordinatorInput}
    {outputs : Channels (Fin n) CoordinatorInput} (hrec : s.outputs.Received e out outputs) :
    ({ s with outputs }.setCoordinator (s.coordinator.onOutput e out)).Waves W k := by
  cases out with
  | waveComplete w =>
    have hw := h.bounded.completed e w hrec.head
    unfold DPCoordinator.onOutput
    dsimp only
    split_ifs with hle
    · exact (h.pause hle hw).popOutput hrec (fun h => nomatch h)
    · exact h.popOutput hrec (fun h => nomatch h)
  | startWave w =>
    have hw := h.bounded.reported e w hrec.head
    have hw' := h.bounded.coordinator
    unfold DPCoordinator.onOutput
    dsimp only
    split_ifs with hcond
    · have hle : s.coordinator.currentWave ≤ w := by
        rcases hcond with hlt | ⟨heq, -⟩
        · exact hlt.le
        · exact heq.ge
      refine Waves.popOutput (h.start hle hw ?_) hrec ?_
      · rintro x hx rfl
        obtain rfl : e = x := by simpa using hx
        exact h.reports e ⟨hrec.head, (not_started_iff hw').mpr hcond⟩
      · intro hout
        obtain rfl : w = W := by simpa using hout
        exact ⟨rfl, rfl⟩
    · refine h.popOutput hrec fun hout => ?_
      obtain rfl : w = W := by simpa using hout
      by_contra hs
      exact hcond ((not_started_iff hw').mp hs)

/-! ## What the clients do -/

theorem Waves.addRequestAsync (c : Fin m) (requestId : ReqId) (e : Fin n) :
    (s.addRequestAsync c requestId e).Waves W k := by
  have hann : s.Announced W → (s.addRequestAsync c requestId e).Announced W := by
    refine fun ha => ha.mono rfl fun d hd => hd.imp_left fun hd => ?_
    unfold Cluster.addRequestAsync
    split_ifs
    · obtain ⟨x, hx⟩ := List.exists_mem_of_ne_nil _ hd
      exact List.ne_nil_of_mem (Channels.mem_post.mpr (.inl hx))
    · exact hd
  exact { h with
    bounded := { h.bounded with
      inputs := by
        intro d r w hmem
        rcases Channels.mem_post.mp hmem with hmem | ⟨-, hmem⟩
        · exact h.bounded.inputs d r w hmem
        · obtain ⟨-, rfl⟩ : r = requestId ∧ w = (s.clients c).currentWave := by simpa using hmem
          exact h.bounded.clients c }
    client := fun d hd hw => hann (h.client d hd hw)
    inputs := by
      intro d r hmem
      rcases Channels.mem_post.mp hmem with hmem | ⟨-, hmem⟩
      · exact hann (h.inputs d r hmem)
      · -- The client knows of wave `W`: it takes it to be started, or it tells the coordinator.
        obtain ⟨-, hW⟩ : r = requestId ∧ W = (s.clients c).currentWave := by simpa using hmem
        rcases hr : (s.clients c).enginesRunning with _ | _
        · refine ⟨le_antisymm h.bounded.coordinator (hW ▸ h.bounded.clients c), .inr ⟨c, .inl ?_⟩⟩
          refine List.ne_nil_of_mem (a := e) ?_
          simp [Cluster.addRequestAsync, hr]
        · exact hann (h.client c hr hW.symm)
    active := fun x hx => (h.active x hx).imp_left hann }

theorem Waves.postAbort (j : Fin m × Fin n) (requestIds : List ReqId) :
    { s with inputs := s.inputs.post j [.abort requestIds] }.Waves W k :=
  { h with
    bounded := { h.bounded with
      inputs := fun d r w hmem => h.bounded.inputs d r w (by simpa using hmem) }
    inputs := fun d r hmem => h.inputs d r (by simpa using hmem) }

theorem Waves.firstReq {target : Fin n} {firstReqs : Channels (Fin m) (Fin n)} :
    ({ s with firstReqs }.notifyCoordinator c target).Waves W k := by
  have hann : s.coordinator.currentWave = W →
      ({ s with firstReqs }.notifyCoordinator c target).Announced W := by
    refine fun ha => ⟨ha, .inr ⟨c, .inr ?_⟩⟩
    refine List.ne_nil_of_mem (a := (.identity target, (s.clients c).currentWave)) ?_
    exact Channels.mem_post.mpr (.inr ⟨rfl, List.mem_singleton_self _⟩)
  have hwave : ∀ d, (({ s with firstReqs }.notifyCoordinator c target).clients d).currentWave =
      (s.clients d).currentWave := by
    intro d
    rcases eq_or_ne d c with rfl | hne
    · simp [notifyCoordinator]
    · simp [notifyCoordinator, hne]
  exact { h with
    bounded := { h.bounded with
      clients := fun d => (hwave d).trans_le (h.bounded.clients d)
      identities := by
        intro d p hp
        rcases Channels.mem_post.mp hp with hp | ⟨-, hp⟩
        · exact h.bounded.identities d p hp
        · exact ⟨target, by rw [List.mem_singleton.mp hp]⟩ }
    client := by
      intro d _ hw
      rw [hwave d] at hw
      exact hann (le_antisymm h.bounded.coordinator (hw ▸ h.bounded.clients d))
    inputs := fun d r hr => hann (h.inputs d r hr).1
    active := fun x hx => (h.active x hx).imp_left fun ha => hann ha.1 }

theorem Waves.update {p : Nat × Bool}
    {published : Channels (Fin m) (Nat × Bool)} (hrec : s.published.Received c p published) :
    ({ s with published }.updateClient c p).Waves W k :=
  { h with
    bounded := { h.bounded with
      clients := by
        intro d
        rcases eq_or_ne d c with rfl | hne
        · simpa [updateClient] using h.bounded.published d p hrec.head
        · simpa [updateClient, hne] using h.bounded.clients d
      published := fun d q hq => h.bounded.published d q (hrec.rest hq) }
    client := by
      intro d hd hw
      rcases eq_or_ne d c with rfl | hne
      · -- The coordinator has published this, so it has started the wave.
        simp only [updateClient, Function.update_self] at hd hw
        have hp : p = (W, true) := Prod.ext hw hd
        exact (h.published d (hp ▸ hrec.head)).announced
      · simp only [updateClient, Function.update_of_ne hne] at hd hw
        exact h.client d hd hw
    published := fun d hd => h.published d (hrec.rest hd) }

theorem Waves.publish :
    Waves { s with
      published := s.published.broadcast
        (s.coordinator.currentWave, s.coordinator.enginesRunning) } W k :=
  { h with
    bounded := { h.bounded with
      published := by
        intro d p hp
        rcases Channels.mem_broadcast.mp hp with hp | rfl
        · exact h.bounded.published d p hp
        · exact le_rfl }
    published := by
      intro d hd
      rcases Channels.mem_broadcast.mp hd with hd | hd
      · exact h.published d hd
      · rw [Prod.mk.injEq] at hd
        exact ⟨hd.1.symm, hd.2.symm⟩ }

/-! ## What an engine does -/

/-- A message of a client has been handled. -/
theorem Waves.popInput {j : Fin m × Fin n} {input : ClientInput}
    {inputs : Channels (Fin m × Fin n) ClientInput} (hrec : s.inputs.Received j input inputs) :
    { s with inputs }.Waves W k :=
  { h with
    bounded := { h.bounded with
      inputs := fun d r w hmem => h.bounded.inputs d r w (hrec.rest hmem) }
    inputs := fun d r hmem => h.inputs d r (hrec.rest hmem) }

/-- A `START_DP_WAVE` has been handled by an engine that it was not needed for any more. -/
theorem Waves.popStart {msg : StartWave n}
    {starts : Channels (Fin n) (StartWave n)} (hrec : s.starts.Received e msg starts)
    (hmsg : s.Wakes e msg → s.Active e) : { s with starts }.Waves W k :=
  { h with
    bounded := { h.bounded with
      starts := fun x msg' hx => h.bounded.starts x msg' (hrec.rest hx) }
    starts := fun x msg' hx => h.starts x msg' (hrec.rest hx)
    started := by
      intro hs x
      rcases h.started hs x with hx | ⟨msg', hmem, hwakes⟩
      · exact .inl hx
      · rcases hrec.kept hmem with hmem | ⟨rfl, rfl⟩
        · exact .inr ⟨msg', hmem, hwakes⟩
        · exact .inl (hmsg hwakes) }

/-- **An engine handles a message.** It becomes active only if the wave is announced or it reports, and
it stops being active only if it is not left out. -/
theorem Waves.setEngine {e' : DPEngineCore}
    {outs : List CoordinatorInput} (hwave : e'.currentWave = W) (hcounter : e'.counter = k)
    (hrun : (s.engines e).enginesRunning = true → e'.enginesRunning = true)
    (hstepping : e'.stepping = true → e'.enginesRunning = true ∨ e'.unfinished ≠ [])
    (houts : ∀ o ∈ outs, o = .startWave W ∧ (e'.enginesRunning = true ∨ e'.unfinished ≠ []))
    (hgain : s.Active e ∨ s.Announced W ∨ .startWave W ∈ outs ∨
      ¬ (e'.enginesRunning = true ∨ e'.unfinished ≠ []))
    (hlose : (e'.enginesRunning = true ∨ e'.unfinished ≠ []) ∨
      (s.Started W → ∃ msg ∈ s.starts e, s.Wakes e msg) ∧ ¬ s.Reports W e) :
    (s.setEngine e (e', outs)).Waves W k := by
  have hself : (s.setEngine e (e', outs)).engines e = e' := Function.update_self ..
  have hother : ∀ {x}, x ≠ e → (s.setEngine e (e', outs)).engines x = s.engines x :=
    fun hne => Function.update_of_ne hne ..
  have hactive : ∀ {x}, x ≠ e → ((s.setEngine e (e', outs)).Active x ↔ s.Active x) :=
    fun hne => by rw [Active, Active, hother hne]
  have hwakes : ∀ {x msg}, (s.setEngine e (e', outs)).Wakes x msg ↔ s.Wakes x msg := by
    intro x msg
    unfold Wakes
    rcases eq_or_ne x e with rfl | hne
    · rw [hself, hwave, h.wave]
    · rw [hother hne]
  have hreports : ∀ {x}, s.Reports W x → (s.setEngine e (e', outs)).Reports W x :=
    fun hx => ⟨Channels.mem_post.mpr (.inl hx.1), hx.2⟩
  have hgained : s.Announced W ∨ (∃ x, s.Reports W x) ∨
      (∀ x, (s.engines x).enginesRunning = true) →
      s.Announced W ∨ (∃ x, (s.setEngine e (e', outs)).Reports W x) ∨
        ∀ x, ((s.setEngine e (e', outs)).engines x).enginesRunning = true := by
    rintro (ha | ⟨x, hx⟩ | hall)
    · exact .inl ha
    · exact .inr (.inl ⟨x, hreports hx⟩)
    · refine .inr (.inr fun x => ?_)
      rcases eq_or_ne x e with rfl | hne
      · rw [hself]
        exact hrun (hall x)
      · rw [hother hne]
        exact hall x
  exact { h with
    wave := by
      intro x
      rcases eq_or_ne x e with rfl | hne
      · rw [hself, hwave]
      · rw [hother hne, h.wave]
    counter := by
      intro x
      rcases eq_or_ne x e with rfl | hne
      · rw [hself, hcounter]
      · rw [hother hne, h.counter]
    stepping := by
      intro x hx
      rcases eq_or_ne x e with rfl | hne
      · rw [Active, hself]
        exact hstepping (hself ▸ hx)
      · exact (hactive hne).mpr (h.stepping x (hother hne ▸ hx))
    bounded := { h.bounded with
      reported := by
        intro x w hx
        rcases Channels.mem_post.mp hx with hx | ⟨-, hx⟩
        · exact h.bounded.reported x w hx
        · obtain rfl : w = W := by simpa using (houts _ hx).1
          exact le_rfl
      completed := by
        intro x w hx
        rcases Channels.mem_post.mp hx with hx | ⟨-, hx⟩
        · exact h.bounded.completed x w hx
        · exact nomatch (houts _ hx).1 }
    active := by
      intro x hx
      rcases eq_or_ne x e with rfl | hne
      · rw [Active, hself] at hx
        rcases hgain with ha | ha | hout | hn
        · exact hgained (h.active x ha)
        · exact .inl ha
        · by_cases hs : s.Started W
          · exact .inl hs.announced
          · exact .inr (.inl ⟨x, Channels.mem_post.mpr (.inr ⟨rfl, hout⟩), hs⟩)
        · exact absurd hx hn
      · exact hgained (h.active x ((hactive hne).mp hx))
    started := by
      intro hs x
      simp only [hwakes]
      rcases eq_or_ne x e with rfl | hne
      · rw [Active, hself]
        exact hlose.imp_right fun hl => hl.1 hs
      · rw [hactive hne]
        exact h.started hs x
    reports := by
      intro x hx
      rcases eq_or_ne x e with rfl | hne
      · rw [Active, hself]
        rcases Channels.mem_post.mp hx.1 with hmem | ⟨-, hmem⟩
        · exact hlose.resolve_right fun hl => hl.2 ⟨hmem, hx.2⟩
        · exact (houts _ hmem).2
      · rw [hactive hne]
        rcases Channels.mem_post.mp hx.1 with hmem | ⟨heq, -⟩
        · exact h.reports x ⟨hmem, hx.2⟩
        · exact absurd heq hne }

theorem Waves.startWave {msg : StartWave n}
    {starts : Channels (Fin n) (StartWave n)} (hstep : (s.engines e).stepping = false)
    (hrec : s.starts.Received e msg starts) :
    ({ s with starts }.setEngine e ((s.engines e).startWave e msg, [])).Waves W k := by
  unfold DPEngineCore.startWave
  have hmsg := h.bounded.starts e msg hrec.head
  split_ifs with hcond
  · obtain ⟨-, hle⟩ : msg.excludes e = false ∧ (s.engines e).currentWave ≤ msg.wave := by
      simpa using hcond
    have hwave : msg.wave = W := le_antisymm hmsg (h.wave e ▸ hle)
    have hset : (s.setEngine e
        ({ s.engines e with currentWave := msg.wave, enginesRunning := true }, [])).Waves W k := by
      refine h.setEngine hwave (h.counter e) (fun _ => rfl) (fun _ => .inl rfl) (by simp) ?_
        (.inl (.inl rfl))
      exact .inr (.inl (h.starts e msg hrec.head hwave).announced)
    refine hset.popStart hrec fun _ => ?_
    simp [Active, Cluster.setEngine]
  · have hset : (s.setEngine e (s.engines e, [])).Waves W k := by
      refine h.setEngine (h.wave e) (h.counter e) id (by simp [hstep]) (by simp) ?_ ?_
      · exact (em (s.Active e)).imp_right fun hn => .inr (.inr hn)
      · refine (em (s.Active e)).imp_right fun hn => ⟨fun hs => ?_, fun hr => hn (h.reports e hr)⟩
        exact (h.started hs e).resolve_left hn
    refine hset.popStart hrec fun hwakes => ?_
    refine absurd ?_ hcond
    simpa [Wakes, Cluster.setEngine, and_comm] using hwakes

theorem Waves.addRequest {j : Fin m × Fin n} {requestId : ReqId}
    {w : Nat} (hmem : .add requestId w ∈ s.inputs j) :
    (s.setEngine e ((s.engines e).addRequest requestId w)).Waves W k := by
  have hle : w ≤ W := (h.bounded.inputs j requestId w hmem).trans h.bounded.coordinator
  have hact : ∀ e' : DPEngineCore, e'.unfinished = (s.engines e).unfinished ++ [requestId] →
      e'.enginesRunning = true ∨ e'.unfinished ≠ [] := by
    intro e' he'
    simp [he']
  unfold DPEngineCore.addRequest
  rw [h.wave e]
  split_ifs with hne hlt hr
  · exact absurd hlt hle.not_gt
  · -- A request of an earlier wave, while the engine is paused: it reports.
    refine h.setEngine rfl (h.counter e) id (fun _ => hact _ rfl) ?_ ?_ (.inl (hact _ rfl))
    · intro o ho
      exact ⟨List.mem_singleton.mp ho, hact _ rfl⟩
    · exact .inr (.inr (.inl (List.mem_singleton_self _)))
  · refine h.setEngine rfl (h.counter e) id (fun _ => hact _ rfl) (by simp) ?_
      (.inl (hact _ rfl))
    exact .inl (.inl (by simpa using hr))
  · refine h.setEngine rfl (h.counter e) id (fun _ => hact _ rfl) (by simp) ?_
      (.inl (hact _ rfl))
    obtain rfl : w = W := not_not.mp hne
    exact .inr (.inl (h.inputs j requestId hmem))

/-- An engine that is not left out can stop being active. -/
theorem Waves.not_leftOut (hout : ¬ s.LeftOut e) :
    (s.Started W → ∃ msg ∈ s.starts e, s.Wakes e msg) ∧ ¬ s.Reports W e := by
  rw [LeftOut, h.wave e, not_or] at hout
  refine ⟨fun hs => ?_, fun hr => hout.1 ⟨hr.1, ?_⟩⟩
  · by_contra hn
    push Not at hn
    exact hout.2 ⟨hs.1, hs.2, hn⟩
  · simp [onOutput_startWave h.bounded.coordinator hr.2]

theorem Waves.abortRequests {requestIds : List ReqId} (hstep : (s.engines e).stepping = false)
    (hkeep : (s.engines e).enginesRunning = false → s.LeftOut e → (s.engines e).unfinished ≠ [] →
      ((s.engines e).abortRequests requestIds).unfinished ≠ []) :
    (s.setEngine e ((s.engines e).abortRequests requestIds, [])).Waves W k := by
  refine h.setEngine (h.wave e) (h.counter e) id
    (fun hs => absurd (hs.symm.trans hstep) (by simp)) (by simp) ?_ ?_
  · refine (em (s.Active e)).imp_right fun hn => .inr (.inr ?_)
    obtain ⟨hr, hu⟩ := not_or.mp hn
    simp [DPEngineCore.abortRequests, hr, not_not.mp hu]
  · by_cases hn : s.Active e
    · rcases hn with hr | hu
      · exact .inl (.inl hr)
      · by_cases hout : s.LeftOut e
        · rcases hr : (s.engines e).enginesRunning with _ | _
          · exact .inl (.inr (hkeep hr hout hu))
          · exact .inl (.inl hr)
        · exact .inr (h.not_leftOut hout)
    · exact .inr ⟨fun hs => (h.started hs e).resolve_left hn, fun hr => hn (h.reports e hr)⟩

theorem Waves.beginStep (hactive : s.Active e) :
    (s.setEngine e ({ s.engines e with stepping := true }, [])).Waves W k :=
  h.setEngine (h.wave e) (h.counter e) id (fun _ => hactive) (by simp) (.inl hactive) (.inl hactive)

/-! ## What the engines do together -/

/-- The engines go on. -/
theorem Waves.collective_running {finished : Fin n → List ReqId} {k' : Nat}
    (hg : ∀ e, (s.execute finished e).hasGlobalUnfinishedReqs
      (hasUnfinishedDp (s.execute finished)) = (true, k')) :
    (s.collective finished).Waves W k' := by
  have hend : ∀ e, (s.execute finished e).endStep e (hasUnfinishedDp (s.execute finished)) =
      ({ s.execute finished e with enginesRunning := true, counter := k', stepping := false },
        []) := by
    intro e
    simp [DPEngineCore.endStep, hg e]
  have hengines : ∀ e, (s.collective finished).engines e =
      { s.execute finished e with enginesRunning := true, counter := k', stepping := false } :=
    fun e => congrArg Prod.fst (hend e)
  have houtputs : (s.collective finished).outputs = s.outputs := by
    funext e
    simp [Cluster.collective, hend]
  have hactive : ∀ e, (s.collective finished).Active e := fun e => .inl (by rw [hengines e])
  exact {
    wave := fun e => by
      rw [hengines e]
      exact h.wave e
    counter := fun e => by rw [hengines e]
    stepping := fun e _ => hactive e
    bounded := { h.bounded with
      reported := by rw [houtputs]; exact h.bounded.reported
      completed := by rw [houtputs]; exact h.bounded.completed }
    client := h.client
    published := h.published
    inputs := h.inputs
    active := fun _ _ => .inr (.inr fun x => by rw [hengines x])
    starts := h.starts
    started := fun _ e => .inl (hactive e)
    reports := fun x _ => hactive x }

/-- The engines pause: nothing in flight knows of the new wave. -/
theorem Waves.collective_paused {finished : Fin n → List ReqId}
    (hg : ∀ e, (s.execute finished e).hasGlobalUnfinishedReqs
      (hasUnfinishedDp (s.execute finished)) = (false, 0))
    (hnone : hasUnfinishedDp (s.execute finished) = false) :
    (s.collective finished).Waves (W + 1) 0 := by
  have hend : ∀ e, (s.execute finished e).endStep e (hasUnfinishedDp (s.execute finished)) =
      (⟨W + 1, false, 0, (s.execute finished e).unfinished, false⟩,
        if (e : Nat) = 0 then [.waveComplete W] else []) := by
    intro e
    have hw : (s.execute finished e).currentWave = W := h.wave e
    simp [DPEngineCore.endStep, hg e, hw]
  have hengines : ∀ e, (s.collective finished).engines e =
      ⟨W + 1, false, 0, (s.execute finished e).unfinished, false⟩ :=
    fun e => congrArg Prod.fst (hend e)
  have houtputs : ∀ e, (s.collective finished).outputs e =
      s.outputs e ++ if (e : Nat) = 0 then [.waveComplete W] else [] :=
    fun e => congrArg (s.outputs e ++ Prod.snd ·) (hend e)
  have hinactive : ∀ e, ¬ (s.collective finished).Active e := by
    intro e
    rw [Active, hengines e]
    simpa [hasUnfinishedDp] using List.any_eq_false.mp hnone e (List.mem_finRange e)
  have hcoord : s.coordinator.currentWave < W + 1 := Nat.lt_succ_of_le h.bounded.coordinator
  exact {
    wave := fun e => by rw [hengines e]
    counter := fun e => by rw [hengines e]
    stepping := fun e he => by simp [hengines e] at he
    bounded := { h.bounded with
      coordinator := hcoord.le
      starts := fun e msg hmsg => (h.bounded.starts e msg hmsg).trans W.le_succ
      reported := by
        intro e w hw
        rw [houtputs e, List.mem_append] at hw
        rcases hw with hw | hw
        · exact (h.bounded.reported e w hw).trans W.le_succ
        · split_ifs at hw <;> simp at hw
      completed := by
        intro e w hw
        rw [houtputs e, List.mem_append] at hw
        rcases hw with hw | hw
        · exact (h.bounded.completed e w hw).trans W.lt_succ_self
        · split_ifs at hw
          · obtain rfl : w = W := by simpa using hw
            exact w.lt_succ_self
          · simp at hw }
    client := fun c _ hw => absurd (hw.symm.trans_le (h.bounded.clients c)) hcoord.not_ge
    published := fun c hc => absurd (h.bounded.published c _ hc) hcoord.not_ge
    inputs := fun c r hr => absurd (h.bounded.inputs c r _ hr) hcoord.not_ge
    active := fun e he => absurd he (hinactive e)
    starts := fun e msg hmsg hw => absurd (h.bounded.starts e msg hmsg) (by omega)
    started := fun hs => absurd hs.1 hcoord.ne
    reports := by
      intro x hx
      have hmem := hx.1
      rw [houtputs x, List.mem_append] at hmem
      rcases hmem with hmem | hmem
      · exact absurd (h.bounded.reported x _ hmem) (by omega)
      · split_ifs at hmem <;> simp at hmem }

/-- **A forward pass.** The engines have counted the same passes, so they agree on what comes next. -/
theorem Waves.collective (finished : Fin n → List ReqId) :
    ∃ W' k', (s.collective finished).Waves W' k' := by
  have hcounter : ∀ e, (s.execute finished e).counter = k := h.counter
  by_cases hk : k + 1 ≠ 32
  · refine ⟨W, k + 1, h.collective_running fun e => ?_⟩
    simp [DPEngineCore.hasGlobalUnfinishedReqs, hcounter e, hk]
  rcases hany : hasUnfinishedDp (s.execute finished) with _ | _
  · refine ⟨W + 1, 0, h.collective_paused (fun e => ?_) hany⟩
    simp [DPEngineCore.hasGlobalUnfinishedReqs, hcounter e, not_not.mp hk, hany]
  · refine ⟨W, 0, h.collective_running fun e => ?_⟩
    simp [DPEngineCore.hasGlobalUnfinishedReqs, hcounter e, not_not.mp hk, hany]

/-- **The invariant is kept by every step.** -/
theorem Waves.step {op : ClusterOp n m} (hop : s.KeepsLeftOut op)
    (hstep : s.step op = .ok t) : ∃ W' k', t.Waves W' k' := by
  unfold Cluster.step at hstep
  cases op with
  | addRequest c requestId e =>
    cases hstep
    exact ⟨W, k, h.addRequestAsync c requestId e⟩
  | abortRequests c requestIds e =>
    cases hstep
    exact ⟨W, k, h.postAbort (c, e) requestIds⟩
  | firstReq c =>
    dsimp only at hstep
    split at hstep
    · cases hstep
    · cases hstep
      exact ⟨W, k, h.firstReq⟩
  | update c =>
    dsimp only at hstep
    split at hstep
    · cases hstep
    · rename_i p published hrec
      cases hstep
      exact ⟨W, k, h.update (Channels.receive_some hrec)⟩
  | publish =>
    cases hstep
    exact ⟨W, k, h.publish⟩
  | notification c =>
    dsimp only at hstep
    split at hstep
    · cases hstep
    · rename_i target wave notifications hrec
      cases hstep
      exact ⟨W, k, h.notification (Channels.receive_some hrec)⟩
  | engineOutput e =>
    dsimp only at hstep
    split at hstep
    · cases hstep
    · rename_i out outputs hrec
      cases hstep
      exact ⟨W, k, h.engineOutput (Channels.receive_some hrec)⟩
  | startWave e =>
    dsimp only at hstep
    split_ifs at hstep with hs
    split at hstep
    · cases hstep
    · rename_i msg starts hrec
      cases hstep
      exact ⟨W, k, h.startWave (by simpa using hs) (Channels.receive_some hrec)⟩
  | clientInput c e =>
    dsimp only at hstep
    split_ifs at hstep with hs
    split at hstep
    · cases hstep
    · rename_i input inputs hrec
      cases hstep
      have hrec' := Channels.receive_some hrec
      cases input with
      | add requestId w => exact ⟨W, k, (h.addRequest hrec'.head).popInput hrec'⟩
      | abort requestIds =>
        refine ⟨W, k, Waves.popInput (h.abortRequests (by simpa using hs) ?_) hrec'⟩
        obtain ⟨rest, hhead⟩ := Channels.receive_head hrec
        simpa only [KeepsLeftOut, hhead] using hop
  | beginStep e =>
    dsimp only at hstep
    split_ifs at hstep with hs
    cases hstep
    have hactive : (s.engines e).active = true := by
      simpa using (not_or.mp (mt (Bool.or_eq_true ..).mpr hs)).2
    refine ⟨W, k, h.beginStep ?_⟩
    simpa [DPEngineCore.active, Active] using hactive
  | collective finished =>
    split_ifs at hstep
    cases hstep
    exact h.collective finished

omit h

theorem waves_init : (init n m).Waves 0 0 where
  wave _ := rfl
  counter _ := rfl
  stepping _ h := nomatch h
  bounded := by constructor <;> simp [init]
  client _ h := nomatch h
  published _ h := nomatch h
  inputs _ _ h := nomatch h
  active e h := by simp [Active, init] at h
  starts _ _ h := nomatch h
  started h := nomatch h.2
  reports _ h := nomatch h.1

end Cluster

/-- **No engine is stranded**, in any run in which the engines that the wake-up of their wave leaves
out keep an unfinished request until they step. -/
theorem noneStranded_of_reach {s : Cluster n m}
    (h : (clusterMachine n m).Reach Cluster.KeepsLeftOut s) : s.NoneStranded := by
  have hwaves : ∃ W k, s.Waves W k :=
    h.invariant (I := fun s => ∃ W k, s.Waves W k) ⟨0, 0, Cluster.waves_init⟩
      fun _ _ _ ⟨_, _, hs⟩ hop hstep => hs.step hop hstep
  obtain ⟨W, k, hs⟩ := hwaves
  exact hs.noneStranded

/-! ## Two runs -/

namespace Cluster

instance (s : Cluster n m) (e : Fin n) : Decidable (s.Active e) :=
  inferInstanceAs (Decidable (_ ∨ _))

instance (s : Cluster n m) (e : Fin n) (msg : StartWave n) : Decidable (s.Wakes e msg) :=
  inferInstanceAs (Decidable (_ ∧ _))

instance (s : Cluster n m) (e : Fin n) : Decidable (s.LeftOut e) :=
  inferInstanceAs (Decidable (_ ∨ _))

instance (s : Cluster n m) : (op : ClusterOp n m) → Decidable (s.KeepsLeftOut op)
  | .clientInput c e =>
    match h : s.inputs (c, e) with
    | .abort requestIds :: _ => decidable_of_iff
        ((s.engines e).enginesRunning = false → s.LeftOut e → (s.engines e).unfinished ≠ [] →
          ((s.engines e).abortRequests requestIds).unfinished ≠ []) (by simp only [KeepsLeftOut, h])
    | .add .. :: _ => isTrue (by simp only [KeepsLeftOut, h])
    | [] => isTrue (by simp only [KeepsLeftOut, h])
  | .addRequest .. | .abortRequests .. | .firstReq _ | .update _ | .publish | .notification _
  | .engineOutput _ | .startWave _ | .beginStep _ | .collective _ => isTrue trivial

/-- Both engines of a deployment are in the running state, `k` forward passes after the last
agreement, and no message is in flight. -/
def quiet (k : Nat) : Cluster 2 1 :=
  { init 2 1 with
    engines := fun _ => { enginesRunning := true, counter := k }
    coordinator := ⟨0, true⟩
    clients := fun _ => ⟨0, true⟩ }

/-- Both engines execute a dummy pass. -/
theorem reach_quiet_succ {k : Nat} (hk : k + 1 ≠ 32)
    (h : (clusterMachine 2 1).Reach KeepsLeftOut (quiet k)) :
    (clusterMachine 2 1).Reach KeepsLeftOut (quiet (k + 1)) := by
  let stepping : Cluster 2 1 :=
    { quiet k with engines := fun _ => { enginesRunning := true, counter := k, stepping := true } }
  have hbegin : (clusterMachine 2 1).Reach KeepsLeftOut stepping := by
    have h₁ := h.next (i := (.beginStep 0 : ClusterOp 2 1)) trivial rfl
    have h₂ := h₁.next (i := (.beginStep 1 : ClusterOp 2 1)) trivial rfl
    convert h₂ using 1
    refine Cluster.ext (funext fun e => ?_) rfl rfl rfl rfl rfl (funext fun e => ?_) rfl rfl <;>
      fin_cases e <;> rfl
  refine hbegin.next (i := (.collective fun _ => [] : ClusterOp 2 1)) trivial ?_
  change Except.ok _ = Except.ok _
  have hend : ∀ e : Fin 2, (stepping.execute (fun _ => []) e).endStep e
      (hasUnfinishedDp (stepping.execute fun _ => [])) =
      ({ enginesRunning := true, counter := k + 1 }, []) := by
    intro e
    simp [DPEngineCore.endStep, DPEngineCore.hasGlobalUnfinishedReqs, Cluster.execute,
      DPEngineCore.execute, stepping, hk]
  refine congrArg Except.ok (Cluster.ext (funext fun e => congrArg Prod.fst (hend e)) rfl rfl rfl rfl
    rfl (funext fun e => congrArg Prod.snd (hend e)) rfl rfl)

/-- Client 0 sends request 0 to engine 0; the coordinator wakes both engines, and the first forward pass
finishes the request. -/
def opening : List (ClusterOp 2 1) :=
  [.addRequest 0 0 0, .firstReq 0, .notification 0, .clientInput 0 0, .startWave 0, .startWave 1,
    .beginStep 0, .beginStep 1, .collective fun _ => [0]]

theorem reach_quiet {k : Nat} (h1 : 1 ≤ k) (h31 : k ≤ 31) :
    (clusterMachine 2 1).Reach KeepsLeftOut (quiet k) := by
  induction k, h1 using Nat.le_induction with
  | base =>
    have hexec : (clusterMachine 2 1).execIf KeepsLeftOut opening (init 2 1) = some (quiet 1) := by
      decide +kernel
    exact Machine.reach_execIf .start hexec
  | succ k _ ih => exact reach_quiet_succ (by omega) (ih (by omega))

/-- The wave ends. Engine 1 gets two requests and reports that they belong to an earlier wave; it
handles an abort before the coordinator starts the next wave on its report. -/
def reported (aborted : List ReqId) : List (ClusterOp 2 1) :=
  [.beginStep 0, .beginStep 1, .collective fun _ => [], .addRequest 0 1 1, .addRequest 0 2 1,
    .abortRequests 0 aborted 1, .clientInput 0 1, .clientInput 0 1, .clientInput 0 1,
    .engineOutput 0, .engineOutput 1, .engineOutput 1, .startWave 0]

theorem reach_reported {aborted : List ReqId} {s : Cluster 2 1}
    (h : (clusterMachine 2 1).execIf (fun _ _ => True) (reported aborted) (quiet 31) = some s) :
    (clusterMachine 2 1).Reach (fun _ _ => True) s :=
  Machine.reach_execIf ((reach_quiet (by decide) le_rfl).mono fun _ _ _ => trivial) h

/-- An engine is stranded when no message is in flight but such as do not wake it. -/
theorem not_noneStranded_of_silent {s : Cluster n m} {a e : Fin n} (ha : s.Active a)
    (he : ¬ s.Active e) (hstarts : ∀ msg ∈ s.starts e, ¬ s.Wakes e msg)
    (hclients : ∀ c, s.firstReqs c = [] ∧ s.notifications c = [])
    (hengines : ∀ x, s.outputs x = []) : ¬ s.NoneStranded := by
  intro h
  rcases h a ha e with h | ⟨msg, hmem, hwakes⟩ | h
  · exact he h
  · exact hstarts msg hmem hwakes
  · cases h with
    | @firstReq c _ _ hmem => simp [(hclients c).1] at hmem
    | @client c _ _ hmem => simp [(hclients c).2] at hmem
    | @engine x _ _ hmem => simp [hengines x] at hmem

end Cluster

open Cluster in
/-- Engine 1 reports, keeps one of its two requests, and engine 0 starts the next wave. -/
theorem noneStranded_reported :
    ∃ s, (clusterMachine 2 1).Reach KeepsLeftOut s ∧ s.Active 0 ∧
      (s.engines 1).enginesRunning = false ∧ (s.engines 1).unfinished = [2] ∧
      s.NoneStranded := by
  have hrun : ((clusterMachine 2 1).execIf KeepsLeftOut (reported [1]) (quiet 31)).any (fun s =>
      decide (s.Active 0 ∧ (s.engines 1).enginesRunning = false ∧
        (s.engines 1).unfinished = [2])) = true := by decide +kernel
  obtain ⟨s, hexec, hs⟩ := Option.any_eq_true .. |>.mp hrun
  have hreach := Machine.reach_execIf (reach_quiet (by decide) le_rfl) hexec
  obtain ⟨h0, h1, h2⟩ := of_decide_eq_true hs
  exact ⟨s, hreach, h0, h1, h2, noneStranded_of_reach hreach⟩

open Cluster in
/-- **An engine is stranded**: engine 1 loses its requests to an abort, the wake-up leaves it out, and
engine 0 runs alone. -/
theorem not_noneStranded_aborted :
    ∃ s, (clusterMachine 2 1).Reach (fun _ _ => True) s ∧ ¬ s.NoneStranded := by
  have hrun : ((clusterMachine 2 1).execIf (fun _ _ => True) (reported [1, 2]) (quiet 31)).any
      (fun s => decide (s.Active 0 ∧ ¬ s.Active 1 ∧ (∀ msg ∈ s.starts 1, ¬ s.Wakes 1 msg) ∧
        (∀ c, s.firstReqs c = [] ∧ s.notifications c = []) ∧ ∀ x, s.outputs x = [])) = true := by
    decide +kernel
  obtain ⟨s, hexec, hs⟩ := Option.any_eq_true .. |>.mp hrun
  obtain ⟨h0, h1, hstarts, hclients, hengines⟩ := of_decide_eq_true hs
  exact ⟨s, reach_reported hexec, not_noneStranded_of_silent h0 h1 hstarts hclients hengines⟩

end InferenceServer
