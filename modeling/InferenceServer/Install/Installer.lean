import InferenceServer.Lib.Run

/-!
# The installer

How `scripts/install.sh` runs its step scripts. The state file names what has been done so far, the
table `STEPS` gives each state the script to run next, and `STATE_ORDER` the state to save once that
script has succeeded. Before the script that installs the drivers, the installer saves a state of its
own and asks for a reboot; a service is meant to invoke it again afterwards. After the last step the
state file is removed and a flag file takes its place.

An invocation is a sequence of commands, and `Pc` is the command that comes next. It can be killed
before any of them, and a step script can fail; the script runs under `set -e`, so that a failing
command ends the invocation. Invocations come one after the other, all of them in one directory. Their
commands other than the step scripts do what they say unless the invocation is killed before them.
-/

namespace InferenceServer

/-- The names of states. The last three are not in `STATE_ORDER`. -/
inductive InstallState where
  | start
  | commonDepsDone
  | pythonDone
  | nvidiaDone
  | dockerDone
  | vllmDone
  | validationDone
  | finish
  | rebootingAfterNvidia
  | proxyAndFirewall
  | settingAutoScripts
  deriving DecidableEq, Repr

/-- The entries of `STEPS`. Each is run as a file of `scripts/install`, also `FINISH`. -/
inductive Script where
  | commonDeps
  | python
  | nvidia
  | docker
  | validateEnv
  | vllm
  | proxyAndFirewall
  | settingAutoScripts
  | finish
  deriving DecidableEq, Repr

/-- The files that are there. -/
def Script.isFile : Script → Bool
  | .commonDeps | .python | .nvidia | .docker | .validateEnv | .vllm => true
  | .proxyAndFirewall | .settingAutoScripts | .finish => false

/-- `STEPS`. -/
def steps : InstallState → Option Script
  | .start => some .commonDeps
  | .commonDepsDone => some .python
  | .pythonDone => some .nvidia
  | .nvidiaDone => some .docker
  | .dockerDone => some .validateEnv
  | .vllmDone => some .vllm
  | .proxyAndFirewall => some .proxyAndFirewall
  | .settingAutoScripts => some .settingAutoScripts
  | .validationDone => some .finish
  | .finish | .rebootingAfterNvidia => none

/-- `STATE_ORDER`. -/
def stateOrder : List InstallState :=
  [.start, .commonDepsDone, .pythonDone, .nvidiaDone, .dockerDone, .vllmDone, .validationDone, .finish]

/-- What the invocations leave behind. -/
structure Disk where
  /-- The state file, if there is one: the name it holds, `none` if it is empty or holds no name. -/
  stateFile : Option (Option InstallState) := none
  /-- Whether the flag file is there. -/
  installed : Bool := false
  /-- History: the step scripts that have run to successful completion. -/
  completed : List Script := []
  deriving DecidableEq, Repr

/-- The calls of `save_install_state`. -/
inductive Caller where
  /-- After the reboot. -/
  | resumption
  /-- Before the reboot. -/
  | detour
  /-- After a step script. -/
  | step
  deriving DecidableEq, Repr

/-- The command that comes next in an invocation; `idle` between the invocations. -/
inductive Pc where
  | idle
  | touchState
  | openState
  | makeLogDir
  | checkFullInstallation
  | getInstallState
  | disableRebootService
  /-- `save_install_state` opens the state file for writing, which empties it, ... -/
  | truncate (caller : Caller) (newState : InstallState)
  /-- ... and then writes the name. -/
  | write (caller : Caller) (newState : InstallState)
  | loop (currentState : Option InstallState)
  | runScript (scriptToRun : Script) (nextStateToSave : InstallState)
  | setupRebootService
  | removeState
  | touchFlag
  deriving DecidableEq, Repr

/-- The installer between two commands. -/
structure Installer where
  disk : Disk
  pc : Pc := .idle
  deriving DecidableEq, Repr

/-- What happens next. -/
inductive InstallerEvent where
  /-- The installer is invoked. -/
  | invoke
  /-- The next command of the invocation completes, if it is a step script with success. -/
  | command
  /-- The step script fails. -/
  | scriptFails
  /-- The invocation is killed. -/
  | kill
  deriving DecidableEq, Repr

/-- An iteration of the loop of `execute_installation_sequence`, up to its first effect. The lookup
in `STEPS` ends the script under `set -u` for a name without an entry, and for the empty name. -/
def iterate (currentState : Option InstallState) : Pc :=
  match currentState with
  | none => .idle
  | some .finish => .removeState
  | some currentState =>
    match steps currentState with
    | none => .idle
    | some scriptToRun =>
      match stateOrder.findIdx? (· = currentState) with
      | none => .idle
      | some currentStateIndex =>
        match stateOrder[currentStateIndex + 1]?,
            if currentState = .validationDone then some InstallState.finish else none with
        | none, none => .idle
        | none, some nextStateToSave | some nextStateToSave, _ =>
          -- the reboot comes instead of the script, which is not run
          if scriptToRun = .nvidia then .truncate .detour .rebootingAfterNvidia
          else .runScript scriptToRun nextStateToSave

/-- Where `save_install_state` returns to. -/
def Caller.resume (newState : InstallState) : Caller → Pc
  | .detour => .setupRebootService
  | .resumption | .step => .loop (some newState)

namespace Installer

/-- The next command of an invocation completes. -/
def command (s : Installer) : Installer :=
  match s.pc with
  | .idle => s
  | .touchState =>
    { disk := { s.disk with stateFile := some (s.disk.stateFile.getD none) }, pc := .openState }
  | .openState =>
    { disk := { s.disk with stateFile := some (s.disk.stateFile.getD none) }, pc := .makeLogDir }
  | .makeLogDir => { s with pc := .checkFullInstallation }
  | .checkFullInstallation => { s with pc := if s.disk.installed then .idle else .getInstallState }
  | .getInstallState =>
    let currentState := s.disk.stateFile.getD (some .start)
    { s with pc := if currentState = some .rebootingAfterNvidia then .disableRebootService
        else .loop currentState }
  | .disableRebootService => { s with pc := .truncate .resumption .nvidiaDone }
  | .truncate caller newState =>
    { disk := { s.disk with stateFile := some none }, pc := .write caller newState }
  | .write caller newState =>
    { disk := { s.disk with stateFile := some (some newState) }, pc := caller.resume newState }
  | .loop currentState => { s with pc := iterate currentState }
  | .runScript scriptToRun nextStateToSave =>
    -- `bash` fails on a file that is not there
    if scriptToRun.isFile then
      { disk := { s.disk with completed := s.disk.completed ++ [scriptToRun] },
        pc := .truncate .step nextStateToSave }
    else { s with pc := .idle }
  | .setupRebootService => { s with pc := .idle }
  | .removeState => { disk := { s.disk with stateFile := none }, pc := .touchFlag }
  | .touchFlag => { disk := { s.disk with installed := true }, pc := .idle }

/-- The installer is invoked while it is idle, and everything else happens to an invocation. -/
def apply (s : Installer) : InstallerEvent → Except Unit Installer
  | .invoke => if s.pc = .idle then .ok { s with pc := .touchState } else .error ()
  | .command => if s.pc = .idle then .error () else .ok s.command
  | .scriptFails =>
    match s.pc with
    | .runScript _ _ => .ok { s with pc := .idle }
    | _ => .error ()
  | .kill => if s.pc = .idle then .error () else .ok { s with pc := .idle }

end Installer

/-- The runs of the installer over a disk. -/
def installerMachine (disk : Disk) : Machine Installer InstallerEvent Unit where
  init := { disk }
  step := Installer.apply

/-! ## What the commands do -/

namespace Installer

variable {s s' : Installer} {e : InstallerEvent}

/-- Everything but a command leaves the disk alone, and ends the invocation or starts one. -/
theorem apply_ok (h : s.apply e = .ok s') :
    (e = .command ∧ s.pc ≠ .idle ∧ s' = s.command) ∨
      (e ≠ .command ∧ s'.disk = s.disk ∧ (s'.pc = .idle ∨ s'.pc = .touchState)) := by
  cases e with
  | invoke =>
    simp only [apply] at h
    split at h
    · cases h
      exact .inr ⟨nofun, rfl, .inr rfl⟩
    · cases h
  | command =>
    simp only [apply] at h
    split at h
    · cases h
    · rename_i hpc
      exact .inl ⟨rfl, hpc, (Except.ok.inj h).symm⟩
  | scriptFails =>
    simp only [apply] at h
    split at h
    · cases h
      exact .inr ⟨nofun, rfl, .inl rfl⟩
    · cases h
  | kill =>
    simp only [apply] at h
    split at h
    · cases h
    · cases h
      exact .inr ⟨nofun, rfl, .inl rfl⟩

end Installer

/-- **What an iteration leads to.** The script to run is that of the current state, and the state to
save is the next one of the order; the script that installs the drivers is not run. -/
theorem iterate_cases (currentState : Option InstallState) :
    iterate currentState = .idle ∨
    (currentState = some .finish ∧ iterate currentState = .removeState) ∨
    (currentState = some .pythonDone ∧
      iterate currentState = .truncate .detour .rebootingAfterNvidia) ∨
    ∃ st scriptToRun nextStateToSave, currentState = some st ∧
      steps st = some scriptToRun ∧ scriptToRun ≠ .nvidia ∧
      (∃ i : Nat, stateOrder[i]? = some st ∧ stateOrder[i + 1]? = some nextStateToSave) ∧
      iterate currentState = .runScript scriptToRun nextStateToSave := by
  rcases currentState with _ | st
  · exact .inl rfl
  · cases st with
    | start => exact .inr (.inr (.inr ⟨_, _, _, rfl, rfl, by simp, ⟨0, rfl, rfl⟩, rfl⟩))
    | commonDepsDone => exact .inr (.inr (.inr ⟨_, _, _, rfl, rfl, by simp, ⟨1, rfl, rfl⟩, rfl⟩))
    | pythonDone => exact .inr (.inr (.inl ⟨rfl, rfl⟩))
    | nvidiaDone => exact .inr (.inr (.inr ⟨_, _, _, rfl, rfl, by simp, ⟨3, rfl, rfl⟩, rfl⟩))
    | dockerDone => exact .inr (.inr (.inr ⟨_, _, _, rfl, rfl, by simp, ⟨4, rfl, rfl⟩, rfl⟩))
    | vllmDone => exact .inr (.inr (.inr ⟨_, _, _, rfl, rfl, by simp, ⟨5, rfl, rfl⟩, rfl⟩))
    | validationDone => exact .inr (.inr (.inr ⟨_, _, _, rfl, rfl, by simp, ⟨6, rfl, rfl⟩, rfl⟩))
    | finish => exact .inr (.inl ⟨rfl, rfl⟩)
    | rebootingAfterNvidia => exact .inl rfl
    | proxyAndFirewall => exact .inl rfl
    | settingAutoScripts => exact .inl rfl

end InferenceServer
