/-
What the installer does to the host (`installer.rs`, `lock_file.rs`): it moves
its version to the install path, notes what to go back to, switches a link to
the new version, restarts the daemon and asks it for its health. `Installer`
has the decisions only; this is the host they are about.

An installer runs under a lock, a file that must not be there; the installer of
a backup is a process of its own, on the same host.
-/
import Blockvisor.Lib.Effect
import Blockvisor.Lib.Table
import Blockvisor.Bv.Commands
import Blockvisor.Bv.Installer
import Blockvisor.Bv.NodeState

namespace Blockvisor

open Effect Installer

/-- How an installer ends, if not well. -/
inductive InstallError where
  /-- "another BV installer instance is already running" -/
  | locked
  | refused
  | failed (err : String)
  | rolledBack (err : String)
  | rollbackFailed (err : String)
  deriving DecidableEq

/-- The directory of a version: complete, or whether it has the files to link, and an installer. -/
inductive VersionDir where
  | incomplete (links installer : Bool)
  | whole
  deriving DecidableEq

def VersionDir.hasLinks : VersionDir → Bool
  | .incomplete links _ => links
  | .whole => true

def VersionDir.hasInstaller : VersionDir → Bool
  | .incomplete _ installer => installer
  | .whole => true

/-- What the daemon says when it is asked, and whether the time to ask it is over. -/
structure Poll where
  status : Except String ServiceStatus
  expired : Bool

/-- `lock` is the file in the install path, `rootLock` one of its name in the root. `saved` is the config
kept in the directory of a version, `running` the version of the daemon. -/
structure InstallHost where
  lock : Bool
  rootLock : Bool
  dirs : Table String VersionDir
  current : Option String
  backup : Option String
  blacklist : Blacklist
  config : Doc Nat
  saved : Table String (Doc Nat)
  running : Option String
  enabled : Bool
  faults : List (Fault Cut)
  polls : List Poll

/-- What fails with a report. -/
abbrev StepM := Effect String InstallHost

abbrev InstallM := Effect InstallError InstallHost

/-- Where the installer is run from. -/
inductive Exe where
  | bundle
  | installed
  deriving DecidableEq

namespace InstallHost

/-! ## Operations on the host -/

def fault : StepM (Fault Cut) := fun h => (.ok (h.faults.headD .none), { h with faults := h.faults.tail })

/-- An operation of which any part may be done when it fails. -/
def command (msg : String) (f : Cut → InstallHost → InstallHost) : StepM Unit := do
  match ← fault with
  | .none => modify (f .all)
  | .error cut => do modify (f cut); throw msg
  | .killed cut => do modify (f cut); kill

/-- An operation that is not done when it fails. -/
def atomicCommand (msg : String) (f : InstallHost → InstallHost) : StepM Unit := do
  match ← fault with
  | .none => modify f
  | .error _ => throw msg
  | .killed cut => do Effect.when (cut = .all) (modify f); kill

def call (msg : String) : StepM Unit := command msg fun _ h => h

/-- What does not matter if it fails. -/
def ignore (m : StepM Unit) : StepM Unit := do
  let _ ← attempt m

/-- The next reply of the daemon; without one the installer is killed as it waits. -/
def poll : StepM Poll := fun h =>
  match h.polls with
  | [] => (.error .killed, h)
  | p :: ps => (.ok p, { h with polls := ps })

/-- `LockFile::lock`. -/
def takeLock : StepM Unit := do
  let locked ← gets (·.lock)
  if locked then throw "already locked"
  else do
    call "failed to create install path"
    atomicCommand "failed to create lock file" fun h => { h with lock := true }

/-- The lock file is removed when the lock is dropped. -/
def dropLock : StepM Unit := atomicCommand "failed to remove lock file" fun h => { h with lock := false }

def setCurrent (link : Option String) (h : InstallHost) : InstallHost := { h with current := link }

def setBackup (link : Option String) (h : InstallHost) : InstallHost := { h with backup := link }

/-- A link to a version in place of the one that is there, which may fail to be removed. -/
def relink (msg : String) (get : InstallHost → Option String) (set : Option String → InstallHost → InstallHost) (version : String) :
    StepM Unit := do
  let there ← gets get
  Effect.when there.isSome (ignore (atomicCommand "failed to remove link" (set none)))
  let there ← gets get
  if there.isSome then throw msg
  else atomicCommand msg (set (some version))

/-! ## The installation -/

def isBlacklisted (version : String) : StepM Bool := do
  match ← gets (·.blacklist) with
  | none => pure false
  | some text => do
    call "failed to read blacklist"
    pure (hasText text version)

def moveBundleToInstallPath (thisVersion : String) (exe : Exe) : StepM Unit := do
  call "cannot normalise current binary path"
  Effect.when (exe = .bundle) do
    call "failed to create install path"
    command "failed to move files to install path" fun cut h =>
      match cut with
      | .nothing => h
      | .part bits => { h with dirs := h.dirs.insert thisVersion (.incomplete (bits.testBit 0) (bits.testBit 1)) }
      | .all => { h with dirs := h.dirs.insert thisVersion .whole }

/-- The version that `current` links to, if it is there. -/
def getRunningVersion : StepM (Option String) := do
  let h ← gets id
  match h.current with
  | some version =>
    if (h.dirs.lookup version).isSome then do
      call "invalid current version link"
      pure (some version)
    else pure none
  | none => pure none

def backupRunningVersion : StepM BackupStatus := do
  match ← getRunningVersion with
  | some version => do
    let blacklisted ← isBlacklisted version
    if blacklisted then pure .thisIsRollback
    else do
      relink "failed to backup running version for rollback" (·.backup) setBackup version
      pure (.done version)
  | none => pure .nothingToBackup

def preinstall (thisVersion : String) (exe : Exe) : StepM BackupStatus := do
  moveBundleToInstallPath thisVersion exe
  backupRunningVersion

/-- The daemon is asked until it says what is wanted, or the time is over. -/
def askUntil (wanted : ServiceStatus) (msg : String) : Nat → StepM Unit
  | 0 => kill
  | n + 1 => do
    let p ← poll
    match p.status with
    | .ok status =>
      if status = wanted then pure ()
      else if p.expired then throw msg
      else askUntil wanted msg n
    | .error _ => if p.expired then throw msg else askUntil wanted msg n

/-- As often as there are replies. -/
def ask (wanted : ServiceStatus) (msg : String) : StepM Unit := do
  let replies ← gets (·.polls.length)
  askUntil wanted msg (replies + 1)

def isDone : BackupStatus → Bool
  | .done _ => true
  | _ => false

/-- A daemon that is not active need not be prepared. -/
def prepareRunning (status : BackupStatus) : StepM Unit := do
  match ← attempt (call "inactive") with
  | .error _ => pure ()
  | .ok () => Effect.when (isDone status) (ask .updating "prepare running BV for update failed")

def installThisVersion (thisVersion : String) : StepM Unit := do
  relink "failed to switch current version" (·.current) setCurrent thisVersion
  let dir ← gets (·.dirs.lookup thisVersion)
  if dir.any (·.hasLinks) then do
    call "failed to link binaries"
    call "failed to link services"
  else throw "failed to get list of installed files"

def setSaved (version : String) (config : Doc Nat) (h : InstallHost) : InstallHost :=
  { h with saved := h.saved.insert version config }

/-- The config is copied to the directory that `backup` links to. -/
def backupAndMigrateBvData (status : BackupStatus) : StepM Unit := do
  let h ← gets id
  Effect.when (isDone status) do
    match h.backup with
    | some version =>
      if (h.dirs.lookup version).isNone ∨ h.config = .missing then throw "failed to copy bv config"
      else
        command "failed to copy bv config" fun cut h =>
          match cut with
          | .nothing => h
          | .part _ => setSaved version .torn h
          | .all => setSaved version h.config h
    | none => throw "failed to copy bv config"

def stopService (msg : String) : StepM Unit :=
  command msg fun cut h => if cut = .nothing then h else { h with running := none }

/-- systemd starts what `current` links to. -/
def startService : StepM Unit :=
  command "Failed to start blockvisor service with new version" fun cut h =>
    if cut = .nothing then h else { h with running := h.current }

def restartAndReenableBlockvisor (status : BackupStatus) : StepM Unit := do
  ignore (call "Service reload had an issue")
  stopService "Failed to stop blockvisor service"
  backupAndMigrateBvData status
  startService
  atomicCommand "Failed to enable blockvisor service" fun h => { h with enabled := true }

def healthCheck : StepM Unit := ask .ok "installed BV health check failed"

def install (thisVersion : String) (status : BackupStatus) : StepM Unit := do
  prepareRunning status
  installThisVersion thisVersion
  restartAndReenableBlockvisor status
  healthCheck

/-- Everything in the install path is removed but the blacklist, `current` and this version, as far as it
can be; also the file that is the lock. -/
def cleanup (thisVersion : String) : StepM Unit := do
  call "failed to get cleanup list"
  let versions ← gets (·.dirs.keys)
  (versions.filter (· ≠ thisVersion)).forM fun version =>
    ignore <| command "failed to remove version" fun cut h =>
      match cut with
      | .nothing => h
      | .part bits =>
        { h with
          dirs := h.dirs.insert version (.incomplete (bits.testBit 0) (bits.testBit 1))
          saved := if bits.testBit 2 then h.saved else h.saved.erase version }
      | .all => { h with dirs := h.dirs.erase version, saved := h.saved.erase version }
  ignore (atomicCommand "failed to remove backup link" (setBackup none))
  ignore dropLock

/-! ## When it fails -/

def blacklistThisVersion (thisVersion : String) : StepM Unit :=
  atomicCommand "install failed, but can't write version to blacklist" fun h =>
    { h with blacklist := h.blacklist.append thisVersion }

/-- The config that is kept with the backup, if any, takes the place of the config. -/
def rollbackBvData : StepM Unit := do
  let h ← gets id
  match h.backup.bind h.saved.lookup with
  | some config =>
    command "failed to rollback BV data" fun cut h =>
      match cut with
      | .nothing => h
      | .part _ => { h with config := .torn }
      | .all => { h with config }
  | none => pure ()

/-- `installer` runs the installer of a version, and tells whether its exit code is 0. -/
def rollback (installer : String → StepM Bool) : StepM Unit := do
  stopService "failed to stop broken installation - can't continue rollback"
  rollbackBvData
  let locked ← gets (·.rootLock)
  Effect.when locked (ignore (atomicCommand "Failed to remove lock file" fun h => { h with rootLock := false }))
  let h ← gets id
  match h.backup with
  | some version =>
    if (h.dirs.lookup version).any (·.hasInstaller) then do
      call "failed to launch backup installer"
      let succeeded ← installer version
      Effect.when (succeeded = false) (throw "backup installer failed")
    else throw "no backup found"
  | none => throw "no backup found"

def fails {α : Type} (m : StepM α) : InstallM α := mapError .failed m

def handleBrokenInstallation (installer : String → StepM Bool) (thisVersion : String) (status : BackupStatus) (err : String) :
    InstallM Unit := do
  fails (blacklistThisVersion thisVersion)
  match status with
  | .done _ => do
    fails (rollback installer)
    throw (.rolledBack err)
  | .thisIsRollback => throw (.rollbackFailed err)
  | .nothingToBackup => throw (.failed err)

/-! ## The installer -/

def run (installer : String → StepM Bool) (thisVersion : String) (exe : Exe) : InstallM Unit := do
  let blacklisted ← fails (isBlacklisted thisVersion)
  if blacklisted then throw .refused
  else do
    fails (call "Host doesn't meet the requirements")
    let status ← fails (preinstall thisVersion exe)
    match ← fails (attempt (install thisVersion status)) with
    | .error err => handleBrokenInstallation installer thisVersion status err
    | .ok () => fails (ignore (cleanup thisVersion))

/-- A process of its own, and whether it ended with exit code 0. -/
def spawn (m : InstallM Unit) : StepM Bool := fun h => (.ok (isOk (m h).1), (m h).2)

/-- The installer of a version; `depth` is how many more may be started from it. -/
def main : Nat → String → Exe → InstallM Unit
  | 0, _, _ => kill
  | depth + 1, thisVersion, exe => do
    mapError (fun _ => .locked) takeLock
    let res ← attempt do
      fails (call "failed to load config")
      run (fun version => spawn (main depth version .installed)) thisVersion exe
    fails (ignore dropLock)
    ofExcept res

/-! ## What an installation leaves alone -/

/-- An invariant on what an installation does not touch: the locks, the blacklist and the config. -/
structure Untouched (I : InstallHost → Prop) : Prop where
  faults : ∀ h faults, I h → I { h with faults }
  polls : ∀ h p polls, h.polls = p :: polls → I h → I { h with polls }
  current : ∀ h current, I h → I { h with current }
  backup : ∀ h backup, I h → I { h with backup }
  dirs : ∀ h dirs, I h → I { h with dirs }
  saved : ∀ h saved, I h → I { h with saved }
  running : ∀ h running, I h → I { h with running }
  enabled : ∀ h enabled, I h → I { h with enabled }

section

variable {I : InstallHost → Prop}

theorem command_keeps (hfaults : ∀ h faults, I h → I { h with faults }) {msg : String} {f : Cut → InstallHost → InstallHost}
    (hf : ∀ cut h, I h → I (f cut h)) : Keeps I I (command msg f) := by
  have hfault : Keeps I I fault := Keeps.of_run fun h hI => hfaults h _ hI
  refine Keeps.bind hfault fun fault => ?_
  cases fault with
  | none => exact Keeps.modify (hf .all)
  | error cut => exact Keeps.bind (Keeps.modify (hf cut)) fun _ => Keeps.throw
  | killed cut => exact Keeps.bind (Keeps.modify (hf cut)) fun _ => Keeps.kill fun _ h => h

theorem atomicCommand_keeps (hfaults : ∀ h faults, I h → I { h with faults }) {msg : String} {f : InstallHost → InstallHost}
    (hf : ∀ h, I h → I (f h)) : Keeps I I (atomicCommand msg f) := by
  have hfault : Keeps I I fault := Keeps.of_run fun h hI => hfaults h _ hI
  refine Keeps.bind hfault fun fault => ?_
  cases fault with
  | none => exact Keeps.modify hf
  | error cut => exact Keeps.throw
  | killed cut => exact Keeps.bind (Keeps.when (Keeps.modify hf)) fun _ => Keeps.kill fun _ h => h

theorem call_keeps (hfaults : ∀ h faults, I h → I { h with faults }) {msg : String} : Keeps I I (call msg) :=
  command_keeps hfaults fun _ _ h => h

theorem ignore_keeps {m : StepM Unit} (h : Keeps I I m) : Keeps I I (ignore m) := Keeps.bind h.attempt fun _ => Keeps.pure

theorem relink_keeps (hfaults : ∀ h faults, I h → I { h with faults }) {msg version : String}
    {get : InstallHost → Option String} {set : Option String → InstallHost → InstallHost} (hset : ∀ link h, I h → I (set link h)) :
    Keeps I I (relink msg get set version) := by
  refine Keeps.bind Keeps.gets fun _ => Keeps.bind (Keeps.when (ignore_keeps (atomicCommand_keeps hfaults (hset none)))) fun _ => ?_
  exact Keeps.bind Keeps.gets fun _ => Keeps.ite Keeps.throw (atomicCommand_keeps hfaults (hset _))

theorem isBlacklisted_keeps (hfaults : ∀ h faults, I h → I { h with faults }) (version : String) :
    Keeps I I (isBlacklisted version) := by
  refine Keeps.bind Keeps.gets fun blacklist => ?_
  cases blacklist with
  | none => exact Keeps.pure
  | some text => exact Keeps.bind (call_keeps hfaults) fun _ => Keeps.pure

theorem Untouched.moveBundleToInstallPath (hI : Untouched I) (thisVersion : String) (exe : Exe) :
    Keeps I I (moveBundleToInstallPath thisVersion exe) := by
  refine Keeps.bind (call_keeps hI.faults) fun _ => Keeps.when (Keeps.bind (call_keeps hI.faults) fun _ => ?_)
  refine command_keeps hI.faults fun cut h hh => ?_
  cases cut with
  | nothing => exact hh
  | part bits => exact hI.dirs h _ hh
  | all => exact hI.dirs h _ hh

theorem Untouched.getRunningVersion (hI : Untouched I) : Keeps I I getRunningVersion := by
  refine Keeps.bind Keeps.gets fun h => ?_
  cases h.current with
  | none => exact Keeps.pure
  | some version => exact Keeps.ite (Keeps.bind (call_keeps hI.faults) fun _ => Keeps.pure) Keeps.pure

theorem Untouched.preinstall (hI : Untouched I) (thisVersion : String) (exe : Exe) : Keeps I I (preinstall thisVersion exe) := by
  refine Keeps.bind (hI.moveBundleToInstallPath thisVersion exe) fun _ => Keeps.bind hI.getRunningVersion fun version => ?_
  cases version with
  | none => exact Keeps.pure
  | some version =>
    refine Keeps.bind (isBlacklisted_keeps hI.faults version) fun _ => Keeps.ite Keeps.pure ?_
    exact Keeps.bind (relink_keeps hI.faults fun link h hh => hI.backup h link hh) fun _ => Keeps.pure

/-- What is asked for was among the replies. -/
theorem askUntil_triple {S : Poll → Prop} (hpolls : ∀ h p polls, h.polls = p :: polls → I h → S p ∧ I { h with polls })
    (wanted : ServiceStatus) (msg : String) :
    ∀ n, Triple I (askUntil wanted msg n) (fun _ h => I h ∧ ∃ p, S p ∧ p.status = .ok wanted) (atExit I I)
  | 0 => Triple.kill fun _ h => h
  | n + 1 => by
    have hrest := askUntil_triple hpolls wanted msg n
    have hpoll : Triple I poll (fun p h => S p ∧ I h) (atExit I I) := by
      intro h hh
      unfold poll
      cases hp : h.polls with
      | nil => exact hh
      | cons p ps => exact hpolls h p ps hp hh
    refine Triple.bind hpoll fun p => Triple.assume fun hp => ?_
    cases hstatus : p.status with
    | ok status =>
      dsimp only
      split
      · rename_i heq
        exact Triple.pure fun h hh => ⟨hh, p, hp, by rw [hstatus, heq]⟩
      split
      · exact Triple.throw fun _ hh => hh
      · exact hrest
    | error err =>
      dsimp only
      split
      · exact Triple.throw fun _ hh => hh
      · exact hrest

theorem Untouched.ask (hI : Untouched I) (wanted : ServiceStatus) (msg : String) : Keeps I I (ask wanted msg) :=
  Keeps.bind Keeps.gets fun _ =>
    (askUntil_triple (S := fun _ => True) (fun h p polls hp hh => ⟨trivial, hI.polls h p polls hp hh⟩) wanted msg _).post
      fun _ _ h => h.1

theorem stopService_keeps (hfaults : ∀ h faults, I h → I { h with faults }) (hrunning : ∀ h running, I h → I { h with running })
    (msg : String) : Keeps I I (stopService msg) :=
  command_keeps hfaults fun cut h hh => by
    split
    · exact hh
    · exact hrunning h none hh

theorem backupAndMigrateBvData_keeps (hfaults : ∀ h faults, I h → I { h with faults }) (hsaved : ∀ h saved, I h → I { h with saved })
    (status : BackupStatus) : Keeps I I (backupAndMigrateBvData status) := by
  refine Keeps.bind Keeps.gets fun h => Keeps.when ?_
  cases h.backup with
  | none => exact Keeps.throw
  | some version =>
    refine Keeps.ite Keeps.throw (command_keeps hfaults fun cut h hh => ?_)
    cases cut with
    | nothing => exact hh
    | part bits => exact hsaved h _ hh
    | all => exact hsaved h _ hh

theorem Untouched.prepareRunning (hI : Untouched I) (status : BackupStatus) : Keeps I I (prepareRunning status) := by
  refine Keeps.bind (call_keeps hI.faults).attempt fun res => ?_
  cases res with
  | error err => exact Keeps.pure
  | ok a => exact Keeps.when (hI.ask _ _)

theorem Untouched.installThisVersion (hI : Untouched I) (thisVersion : String) : Keeps I I (installThisVersion thisVersion) := by
  refine Keeps.bind (relink_keeps hI.faults fun link h hh => hI.current h link hh) fun _ => Keeps.bind Keeps.gets fun _ => ?_
  exact Keeps.ite (Keeps.bind (call_keeps hI.faults) fun _ => call_keeps hI.faults) Keeps.throw

theorem Untouched.install (hI : Untouched I) (thisVersion : String) (status : BackupStatus) : Keeps I I (install thisVersion status) := by
  refine Keeps.bind (hI.prepareRunning status) fun _ => Keeps.bind (hI.installThisVersion thisVersion) fun _ => ?_
  refine Keeps.bind ?_ fun _ => hI.ask _ _
  refine Keeps.bind (ignore_keeps (call_keeps hI.faults)) fun _ => Keeps.bind (stopService_keeps hI.faults hI.running _) fun _ => ?_
  refine Keeps.bind (backupAndMigrateBvData_keeps hI.faults hI.saved status) fun _ => Keeps.bind (command_keeps hI.faults fun cut h hh => ?_) fun _ => ?_
  · split
    · exact hh
    · exact hI.running h _ hh
  · exact atomicCommand_keeps hI.faults fun h hh => hI.enabled h true hh

end

end InstallHost

end Blockvisor
