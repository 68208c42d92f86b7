import InferenceServer.Install.Installer

/-!
# Failures, reboots and resumption

Two promises of the installer. The first is that it skips no step: when the state file names a state,
or the flag file is there, the scripts of all earlier states have succeeded. Every save after a step
script keeps it, whatever was killed or failed before. The reboot does not: the invocation that
resumes after it saves `NVIDIA_DONE`, and the script of the state before, `nvidia.sh`, was never run.
Apart from this one save the promise holds of every run, and this save always breaks it.

The second is that each invocation can go on where the last one ended. It is broken from the start:
an invocation creates the state file, empty, before it reads it, so that the default `START` is
never used, and an empty state has no script. On a clean checkout the first invocation that reads the
state aborts, and it leaves behind an empty state for the next one.
-/

namespace InferenceServer

/-! ## No step is skipped -/

/-- The scripts of the positions before that of `st` are among the completed ones. -/
def Covers (completed : List Script) (st : InstallState) : Prop :=
  ∀ k : Nat, stateOrder[k]? = some st → ∀ j < k, ∀ earlier script,
    stateOrder[j]? = some earlier → steps earlier = some script → script ∈ completed

/-- The state file and the flag file claim nothing that has not been done. -/
structure Disk.NeverSkips (d : Disk) : Prop where
  state : ∀ st, d.stateFile = some (some st) → Covers d.completed st
  flag : d.installed = true → Covers d.completed .finish

/-- The command is not the save of `NVIDIA_DONE` by an invocation that resumes after the reboot. -/
def NotAfterReboot (s : Installer) (e : InstallerEvent) : Prop :=
  ¬ (e = .command ∧ s.pc = .write .resumption .nvidiaDone)

instance (s : Installer) (e : InstallerEvent) : Decidable (NotAfterReboot s e) := by
  unfold NotAfterReboot; infer_instance

theorem nodup_stateOrder : stateOrder.Nodup := by decide

theorem covers_start (completed : List Script) : Covers completed .start := by
  intro k hk j hj
  -- `START` is the first position, and there is none before it
  have hfirst : stateOrder[0]? = some .start := rfl
  obtain rfl : 0 = k :=
    (List.getElem?_inj (by decide) nodup_stateOrder).mp (hfirst.trans hk.symm)
  omega

theorem covers_rebootingAfterNvidia (completed : List Script) :
    Covers completed .rebootingAfterNvidia := by
  intro k hk
  have hmem : InstallState.rebootingAfterNvidia ∈ stateOrder := List.mem_of_getElem? hk
  exact absurd hmem (by decide)

theorem Covers.mono {completed completed' : List Script} {st : InstallState}
    (h : Covers completed st) (hsub : completed ⊆ completed') : Covers completed' st :=
  fun k hk j hj earlier script he hs => hsub (h k hk j hj earlier script he hs)

/-- A step script that succeeds leads to the next position. -/
theorem Covers.next {completed : List Script} {st next : InstallState} {script : Script} {i : Nat}
    (h : Covers completed st) (hs : steps st = some script) (hi : stateOrder[i]? = some st)
    (hnext : stateOrder[i + 1]? = some next) : Covers (completed ++ [script]) next := by
  intro k hk j hj earlier script' he hs'
  obtain ⟨hlt, -⟩ := List.getElem?_eq_some_iff.mp hnext
  obtain rfl : i + 1 = k :=
    (List.getElem?_inj hlt nodup_stateOrder).mp (hnext.trans hk.symm)
  rcases Nat.lt_succ_iff_lt_or_eq.mp hj with hj | rfl
  · exact List.mem_append_left _ (h i hi j hj earlier script' he hs')
  · obtain rfl : st = earlier := Option.some.inj (hi.symm.trans he)
    obtain rfl : script = script' := Option.some.inj (hs.symm.trans hs')
    simp

/-- The drivers come before `NVIDIA_DONE`. -/
theorem Covers.nvidia {completed : List Script} (h : Covers completed .nvidiaDone) :
    Script.nvidia ∈ completed :=
  h 3 rfl 2 (by decide) .pythonDone .nvidia rfl rfl

/-- What an invocation relies on at its next command. -/
def PcSound (completed : List Script) : Pc → Prop
  | .loop (some st) => Covers completed st
  | .truncate caller st | .write caller st =>
    (caller = .resumption ∧ st = .nvidiaDone) ∨ Covers completed st
  | .runScript script next => script ≠ .nvidia ∧ Covers (completed ++ [script]) next
  | .removeState | .touchFlag => Covers completed .finish
  | _ => True

/-- **The invariant** of the runs without the save after the reboot. -/
structure Sound (s : Installer) : Prop where
  neverSkips : s.disk.NeverSkips
  noDrivers : Script.nvidia ∉ s.disk.completed
  pc : PcSound s.disk.completed s.pc

namespace Sound

variable {s s' : Installer} {e : InstallerEvent}

/-- An iteration only continues with what the state covers. -/
theorem iterate {completed : List Script} {currentState : Option InstallState}
    (h : PcSound completed (.loop currentState)) : PcSound completed (iterate currentState) := by
  rcases iterate_cases currentState with hit | ⟨rfl, hit⟩ | ⟨rfl, hit⟩ |
    ⟨st, script, next, rfl, hs, hne, ⟨i, hi, hnext⟩, hit⟩
  · rw [hit]; trivial
  · rw [hit]; exact h
  · rw [hit]; exact .inr (covers_rebootingAfterNvidia completed)
  · rw [hit]; exact ⟨hne, Covers.next h hs hi hnext⟩

/-- A command keeps the invariant unless it is the save after the reboot. -/
theorem command (h : Sound s) (hok : NotAfterReboot s .command) : Sound s.command := by
  obtain ⟨⟨stateFile, installed, completed⟩, pc⟩ := s
  obtain ⟨⟨hstate, hflag⟩, hno, hpc⟩ := h
  cases pc with
  | idle => exact ⟨⟨hstate, hflag⟩, hno, trivial⟩
  | touchState | openState =>
    refine ⟨⟨fun st hst => hstate st ?_, hflag⟩, hno, trivial⟩
    cases stateFile with
    | none => simp [Installer.command] at hst
    | some content => simpa [Installer.command] using hst
  | makeLogDir => exact ⟨⟨hstate, hflag⟩, hno, trivial⟩
  | checkFullInstallation =>
    refine ⟨⟨hstate, hflag⟩, hno, ?_⟩
    cases installed <;> trivial
  | getInstallState =>
    refine ⟨⟨hstate, hflag⟩, hno, ?_⟩
    dsimp only [Installer.command]
    split_ifs with hreboot
    · trivial
    · match stateFile with
      | none => exact covers_start completed
      | some none => trivial
      | some (some st) => exact hstate st rfl
  | disableRebootService => exact ⟨⟨hstate, hflag⟩, hno, .inl ⟨rfl, rfl⟩⟩
  | truncate caller st => exact ⟨⟨nofun, hflag⟩, hno, hpc⟩
  | write caller st =>
    have hcovers : Covers completed st := hpc.resolve_left (by
      rintro ⟨rfl, rfl⟩
      exact hok ⟨rfl, rfl⟩)
    refine ⟨⟨?_, hflag⟩, hno, ?_⟩
    · rintro _ ⟨⟩
      exact hcovers
    · cases caller with
      | detour => trivial
      | resumption | step => exact hcovers
  | loop currentState => exact ⟨⟨hstate, hflag⟩, hno, iterate hpc⟩
  | runScript script next =>
    simp only [Installer.command]
    split_ifs
    · have hsub : completed ⊆ completed ++ [script] := List.subset_append_left _ _
      refine ⟨⟨fun st hst => (hstate st hst).mono hsub, fun hf => (hflag hf).mono hsub⟩, ?_, .inr hpc.2⟩
      simpa [hno] using Ne.symm hpc.1
    · exact ⟨⟨hstate, hflag⟩, hno, trivial⟩
  | setupRebootService => exact ⟨⟨hstate, hflag⟩, hno, trivial⟩
  | removeState => exact ⟨⟨nofun, hflag⟩, hno, hpc⟩
  | touchFlag => exact ⟨⟨hstate, fun _ => hpc⟩, hno, trivial⟩

theorem apply (h : Sound s) (hok : NotAfterReboot s e) (hs : s.apply e = .ok s') : Sound s' := by
  rcases Installer.apply_ok hs with ⟨rfl, -, rfl⟩ | ⟨-, hdisk, hpc⟩
  · exact h.command hok
  · refine ⟨hdisk ▸ h.neverSkips, hdisk ▸ h.noDrivers, ?_⟩
    rcases hpc with hpc | hpc <;> rw [hpc] <;> trivial

end Sound

/-- The save after the reboot leaves `NVIDIA_DONE` in the state file. -/
theorem command_afterReboot {s : Installer} (hpc : s.pc = .write .resumption .nvidiaDone) :
    s.command.disk.stateFile = some (some .nvidiaDone) ∧
      s.command.disk.completed = s.disk.completed := by
  unfold Installer.command
  rw [hpc]
  exact ⟨rfl, rfl⟩

/-- **No step is skipped, but for the save after the reboot.** From a disk on which nothing is claimed,
runs without that save keep the promise, and the next step breaks it exactly if it is that save. -/
theorem neverSkips_iff {disk : Disk} (hnew : disk.completed = []) (hdisk : disk.NeverSkips)
    {s : Installer} (h : (installerMachine disk).Reach NotAfterReboot s) :
    s.disk.NeverSkips ∧
      ∀ e s', s.apply e = .ok s' → (s'.disk.NeverSkips ↔ NotAfterReboot s e) := by
  have hsound : Sound s := by
    refine h.invariant ⟨hdisk, ?_, trivial⟩ fun s e s' hs hok hst => hs.apply hok hst
    change Script.nvidia ∉ disk.completed
    simp [hnew]
  refine ⟨hsound.neverSkips, fun e s' hs => ⟨fun hskips hreboot => ?_, fun hok =>
    (hsound.apply hok hs).neverSkips⟩⟩
  obtain ⟨rfl, hpc⟩ := hreboot
  rcases Installer.apply_ok hs with ⟨-, -, rfl⟩ | ⟨hne, -⟩
  · obtain ⟨hfile, hcompleted⟩ := command_afterReboot hpc
    have hdrivers := (hskips.state _ hfile).nvidia
    rw [hcompleted] at hdrivers
    exact hsound.noDrivers hdrivers
  · exact absurd rfl hne

/-- A state file that names the first position: nothing is done and nothing is claimed. -/
def startDisk : Disk := { stateFile := some (some .start) }

theorem neverSkips_startDisk : startDisk.NeverSkips where
  state := by
    rintro _ ⟨⟩
    exact covers_start _
  flag := nofun

/-- The first two steps succeed, the invocation reboots, and the next one resumes. -/
def rebootRun : List InstallerEvent :=
  .invoke :: List.replicate 17 .command ++ .invoke :: List.replicate 8 .command

theorem neverSkips_beforeReboot :
    ∃ s, (installerMachine startDisk).Reach NotAfterReboot s ∧
      s.disk.stateFile = some (some .rebootingAfterNvidia) ∧ s.disk.NeverSkips ∧
      ∀ e s', s.apply e = .ok s' → (s'.disk.NeverSkips ↔ NotAfterReboot s e) := by
  obtain ⟨s, hreach, hfile⟩ := (installerMachine startDisk).exists_reach NotAfterReboot
    (rebootRun.take 18) (fun s => s.disk.stateFile = some (some .rebootingAfterNvidia))
    (by decide +kernel)
  exact ⟨s, hreach, hfile, neverSkips_iff rfl neverSkips_startDisk hreach⟩

/-- **A step is skipped.** After the reboot the state file names `NVIDIA_DONE`, and `nvidia.sh` has
not been run. -/
theorem driversSkipped :
    startDisk.completed = [] ∧ startDisk.NeverSkips ∧
      ∃ s, (installerMachine startDisk).Reach (fun _ _ => True) s ∧
        s.disk.stateFile = some (some .nvidiaDone) ∧
        s.disk.completed = [.commonDeps, .python] ∧ ¬ s.disk.NeverSkips := by
  obtain ⟨s, hreach, hfile, hcompleted⟩ := (installerMachine startDisk).exists_reach
    (fun _ _ => True) rebootRun (fun s => s.disk.stateFile = some (some .nvidiaDone) ∧
      s.disk.completed = [.commonDeps, .python]) (by decide +kernel)
  refine ⟨rfl, neverSkips_startDisk, s, hreach, hfile, hcompleted, ?_⟩
  intro hskips
  have hdrivers := (hskips.state _ hfile).nvidia
  rw [hcompleted] at hdrivers
  exact absurd hdrivers (by decide)

/-! ## Each invocation can continue -/

/-- What an invocation finds lets it continue: the flag, or a state with a script that is there, or
the last state. The state saved before the reboot counts as one, being turned into `NVIDIA_DONE`. -/
def Disk.Continuable (d : Disk) : Prop :=
  d.installed = true ∨ ∃ st, d.stateFile = some (some st) ∧
    (st = .finish ∨ st = .rebootingAfterNvidia ∨
      st ∈ stateOrder ∧ ∃ script, steps st = some script ∧ script.isFile = true)

namespace Installer

/-- Nothing fails and nothing is killed: the invocation goes on, or the next one starts. -/
def undisturbed (s : Installer) : Installer :=
  if s.pc = .idle then { s with pc := .touchState } else s.command

/-- From `s` on, each invocation finds something it can continue with. -/
def Continues (s : Installer) : Prop :=
  ∀ t, ((installerMachine {}).restart s).Reach (fun _ _ => True) t → t.pc = .getInstallState →
    t.disk.Continuable

/-- From `s` on, undisturbed invocations finish the installation. -/
def Finishes (s : Installer) : Prop :=
  ∃ n, (undisturbed^[n] s).disk.installed = true

end Installer

/-- What holds at the next command when no invocation has got past reading the state. -/
def PcStuck (stateFile : Option (Option InstallState)) : Pc → Prop
  | .idle | .touchState | .openState | .loop none => True
  | .makeLogDir | .checkFullInstallation | .getInstallState => stateFile = some none
  | _ => False

/-- **The invariant** of the runs from a clean checkout: no state is named, and nothing is done. -/
structure Stuck (s : Installer) : Prop where
  unnamed : ∀ st, s.disk.stateFile ≠ some (some st)
  notInstalled : s.disk.installed = false
  pc : PcStuck s.disk.stateFile s.pc

namespace Stuck

variable {s s' : Installer} {e : InstallerEvent}

theorem getD_stateFile {stateFile : Option (Option InstallState)}
    (h : ∀ st, stateFile ≠ some (some st)) : stateFile.getD none = none := by
  match stateFile with
  | none => rfl
  | some none => rfl
  | some (some st) => exact absurd rfl (h st)

variable (h : Stuck s)

include h

theorem command : Stuck s.command := by
  obtain ⟨⟨stateFile, installed, completed⟩, pc⟩ := s
  obtain ⟨hunnamed, hinst, hpc⟩ := h
  have hempty := getD_stateFile hunnamed
  cases pc with
  | idle => exact ⟨hunnamed, hinst, trivial⟩
  | touchState =>
    exact ⟨fun st => by simp [Installer.command, hempty], hinst, trivial⟩
  | openState =>
    exact ⟨fun st => by simp [Installer.command, hempty], hinst, by
      simp [Installer.command, PcStuck, hempty]⟩
  | makeLogDir => exact ⟨hunnamed, hinst, hpc⟩
  | checkFullInstallation =>
    obtain rfl := hinst
    exact ⟨hunnamed, rfl, hpc⟩
  | getInstallState =>
    obtain rfl : stateFile = some none := hpc
    exact ⟨hunnamed, hinst, trivial⟩
  | loop currentState =>
    obtain rfl : currentState = none := by
      cases currentState with
      | none => rfl
      | some st => exact hpc.elim
    exact ⟨hunnamed, hinst, trivial⟩
  | disableRebootService | truncate | write | runScript | setupRebootService | removeState
  | touchFlag => exact hpc.elim

theorem apply (hs : s.apply e = .ok s') : Stuck s' := by
  rcases Installer.apply_ok hs with ⟨rfl, -, rfl⟩ | ⟨-, hdisk, hpc⟩
  · exact h.command
  · refine ⟨hdisk ▸ h.unnamed, hdisk ▸ h.notInstalled, ?_⟩
    rcases hpc with hpc | hpc <;> rw [hpc] <;> trivial

theorem undisturbed : Stuck s.undisturbed := by
  unfold Installer.undisturbed
  split_ifs
  · exact ⟨h.unnamed, h.notInstalled, trivial⟩
  · exact h.command

theorem of_reach {t : Installer}
    (ht : ((installerMachine {}).restart s).Reach (fun _ _ => True) t) : Stuck t :=
  ht.invariant h fun _ _ _ hs _ hst => hs.apply hst

theorem not_continuable : ¬ s.disk.Continuable := by
  rintro (hinst | ⟨st, hst, -⟩)
  · rw [h.notInstalled] at hinst
    cases hinst
  · exact h.unnamed st hst

/-- The invocation that reads the state aborts. -/
theorem aborts (hpc : s.pc = .getInstallState) :
    s.command.command = { s with pc := .idle } := by
  obtain ⟨⟨stateFile, installed, completed⟩, pc⟩ := s
  obtain rfl : pc = .getInstallState := hpc
  obtain rfl : stateFile = some none := h.pc
  rfl

/-- From any state an invocation can be started, and it comes to reading the state. -/
theorem exists_getInstallState : ∃ t, ((installerMachine {}).restart s).Reach (fun _ _ => True) t ∧
      t.pc = .getInstallState := by
  -- the current invocation is killed, if there is one
  obtain ⟨t, ht, hidle⟩ : ∃ t, ((installerMachine {}).restart s).Reach (fun _ _ => True) t ∧
      t.pc = .idle := by
    by_cases hpc : s.pc = .idle
    · exact ⟨s, .start, hpc⟩
    · exact ⟨{ s with pc := .idle }, .next (i := .kill) .start trivial (if_neg hpc), rfl⟩
  have hstuck := h.of_reach ht
  obtain ⟨⟨stateFile, installed, completed⟩, pc⟩ := t
  obtain rfl : pc = .idle := hidle
  obtain rfl : installed = false := hstuck.notInstalled
  have hinvoke := ht.next (i := .invoke) trivial rfl
  have htouch := hinvoke.next (i := .command) trivial rfl
  have hopen := htouch.next (i := .command) trivial rfl
  have hmkdir := hopen.next (i := .command) trivial rfl
  have hcheck := hmkdir.next (i := .command) trivial rfl
  exact ⟨_, hcheck, rfl⟩

theorem not_continues : ¬ s.Continues := by
  intro hcontinues
  obtain ⟨t, ht, hpc⟩ := h.exists_getInstallState
  exact (h.of_reach ht).not_continuable (hcontinues t ht hpc)

theorem iterate_undisturbed (n : Nat) : Stuck (Installer.undisturbed^[n] s) := by
  induction n with
  | zero => exact h
  | succ n ih =>
    rw [Function.iterate_succ_apply']
    exact ih.undisturbed

theorem not_finishes : ¬ s.Finishes := by
  rintro ⟨n, hn⟩
  rw [(h.iterate_undisturbed n).notInstalled] at hn
  cases hn

end Stuck

theorem stuck_of_reach {s : Installer}
    (h : (installerMachine {}).Reach (fun _ _ => True) s) : Stuck s :=
  h.invariant ⟨nofun, rfl, trivial⟩ fun _ _ _ hs _ hst => hs.apply hst

/-- **The installer cannot be resumed.** In every run from a clean checkout, an invocation that reads
the state finds nothing to continue with and aborts; from every state of the run there is such an
invocation to come, while undisturbed invocations never finish the installation. -/
theorem not_resumable {s : Installer} (h : (installerMachine {}).Reach (fun _ _ => True) s) :
    (s.pc = .getInstallState →
      ¬ s.disk.Continuable ∧ s.command.command = { s with pc := .idle }) ∧
      ¬ s.Continues ∧ ¬ s.Finishes := by
  have hstuck := stuck_of_reach h
  exact ⟨fun hpc => ⟨hstuck.not_continuable, hstuck.aborts hpc⟩, hstuck.not_continues,
    hstuck.not_finishes⟩

theorem not_resumable_init :
    ¬ (installerMachine {}).init.Continues ∧ ¬ (installerMachine {}).init.Finishes :=
  (not_resumable .start).2

/-- The first invocation on a clean checkout finds an empty state and aborts. -/
theorem firstInvocation_aborts :
    ∃ s, (installerMachine {}).Reach (fun _ _ => True) s ∧ s.pc = .getInstallState ∧
      s.disk.stateFile = some none ∧ ¬ s.disk.Continuable ∧ s.command.command.pc = .idle := by
  obtain ⟨s, hreach, hpc, hfile, hinst, habort⟩ := (installerMachine {}).exists_reach
    (fun _ _ => True) (.invoke :: List.replicate 4 .command) (fun s => s.pc = .getInstallState ∧
      s.disk.stateFile = some none ∧ s.disk.installed = false ∧ s.command.command.pc = .idle)
    (by decide +kernel)
  refine ⟨s, hreach, hpc, hfile, ?_, habort⟩
  rintro (hflag | ⟨st, hst, -⟩)
  · rw [hinst] at hflag
    cases hflag
  · rw [hfile] at hst
    cases hst

end InferenceServer
