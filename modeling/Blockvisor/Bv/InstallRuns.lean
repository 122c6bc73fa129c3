/-
What comes of an installation (`InstallHost`). The installer of a backup is run
while the lock of the first installer is held, so it refuses (`main_locked`): an
installation that fails is never rolled back (`never_rolled_back`). `installed`
is what holds when one goes well, and `run_refines` says that the host decides
as `Installer` does.
-/
import Blockvisor.Bv.InstallHost

namespace Blockvisor

open Effect Installer

namespace InstallHost

/-! ## The lock -/

/-- An installer that finds the lock taken leaves everything as it is. -/
theorem main_locked {h : InstallHost} (hlock : h.lock = true) (depth : Nat) (version : String) (exe : Exe) :
    main (depth + 1) version exe h = (.error (.error .locked), h) := by
  have htake : takeLock h = (.error (.error "already locked"), h) := by
    unfold takeLock
    rw [gets_bind, hlock]
    rfl
  unfold main
  refine bind_of_error ?_
  unfold mapError
  rw [htake]

/-- So does one that is started by an installer that holds the lock: its exit code is not 0. -/
theorem spawn_locked {h : InstallHost} (hlock : h.lock = true) (depth : Nat) (version : String) (exe : Exe) :
    spawn (main depth version exe) h = (.ok false, h) := by
  cases depth with
  | zero => rfl
  | succ depth =>
    unfold spawn
    rw [main_locked hlock]
    rfl

def Locked (h : InstallHost) : Prop := h.lock = true

theorem locked_untouched : Untouched Locked where
  faults := fun _ _ h => h
  polls := fun _ _ _ _ h => h
  current := fun _ _ h => h
  backup := fun _ _ h => h
  dirs := fun _ _ h => h
  saved := fun _ _ h => h
  running := fun _ _ h => h
  enabled := fun _ _ h => h

theorem rollbackBvData_keeps {I : InstallHost → Prop} (hfaults : ∀ h faults, I h → I { h with faults })
    (hconfig : ∀ h config, I h → I { h with config }) : Keeps I I rollbackBvData := by
  refine Keeps.bind Keeps.gets fun h => ?_
  cases h.backup.bind h.saved.lookup with
  | none => exact Keeps.pure
  | some config =>
    refine command_keeps hfaults fun cut h hh => ?_
    cases cut with
    | nothing => exact hh
    | part bits => exact hconfig h .torn hh
    | all => exact hconfig h config hh

/-- A rollback does not come to its end. -/
theorem rollback_never (depth : Nat) :
    Triple Locked (rollback fun version => spawn (main depth version .installed)) (fun _ _ => False) fun _ _ => True := by
  have hI := locked_untouched
  have hexit : ∀ (e : Exit String) h, atExit Locked Locked e h → True := fun _ _ _ => trivial
  unfold rollback
  refine Triple.bind ((stopService_keeps hI.faults hI.running _).exit hexit) fun _ => ?_
  refine Triple.bind ((rollbackBvData_keeps hI.faults fun _ _ h => h).exit hexit) fun _ => ?_
  refine Triple.bind (Keeps.gets.exit hexit) fun locked => ?_
  refine Triple.bind ((Keeps.when (ignore_keeps (atomicCommand_keeps hI.faults (f := fun h => { h with rootLock := false })
    fun _ h => h))).exit hexit) fun _ => ?_
  refine Triple.bind (Keeps.gets.exit hexit) fun h => ?_
  cases h.backup with
  | none => exact Triple.throw fun _ _ => trivial
  | some version =>
    dsimp only
    split
    · refine Triple.bind ((call_keeps hI.faults).exit hexit) fun _ => ?_
      refine Triple.bind (R := fun succeeded _ => succeeded = false) (fun h hlock => ?_) fun succeeded => ?_
      · rw [spawn_locked hlock]
      · exact Triple.when (fun _ => Triple.throw fun _ _ => trivial) fun hnot _ hfalse => hnot hfalse
    · exact Triple.throw fun _ _ => trivial

/-- What the installer says is no rollback. -/
def NotRolledBack : Exit InstallError → Prop
  | .error (.rolledBack _) => False
  | _ => True

theorem fails_notRolledBack {α : Type} {P : InstallHost → Prop} {m : StepM α} {Q : α → InstallHost → Prop}
    {E : Exit String → InstallHost → Prop} (h : Triple P m Q E) : Triple P (fails m) Q fun e _ => NotRolledBack e :=
  Triple.mapError (h.exit fun e _ _ => by cases e <;> trivial)

theorem run_notRolledBack (depth : Nat) (thisVersion : String) (exe : Exe) :
    Triple Locked (run (fun version => spawn (main depth version .installed)) thisVersion exe) (fun _ _ => True)
      fun e _ => NotRolledBack e := by
  have hI := locked_untouched
  unfold run
  refine Triple.bind (fails_notRolledBack (isBlacklisted_keeps hI.faults thisVersion)) fun blacklisted => ?_
  split
  · exact Triple.throw fun _ _ => trivial
  refine Triple.bind (fails_notRolledBack (call_keeps hI.faults)) fun _ => ?_
  refine Triple.bind (fails_notRolledBack (hI.preinstall thisVersion exe)) fun status => ?_
  refine Triple.bind (fails_notRolledBack (hI.install thisVersion status).attempt) fun res => ?_
  cases res with
  | ok a => exact fails_notRolledBack (Triple.any.pre fun _ _ => trivial)
  | error err =>
    unfold handleBrokenInstallation
    refine Triple.bind (fails_notRolledBack (atomicCommand_keeps (I := Locked) hI.faults fun _ h => h)) fun _ => ?_
    cases status with
    | done version => exact Triple.bind (fails_notRolledBack (rollback_never depth)) fun _ => Triple.absurd fun _ h => h
    | thisIsRollback => exact Triple.throw fun _ _ => trivial
    | nothingToBackup => exact Triple.throw fun _ _ => trivial

/-- The lock is held from here on. -/
theorem takeLock_locks : Triple (fun _ => True) takeLock (fun _ => Locked) fun _ _ => True := by
  unfold takeLock
  refine Triple.bind Triple.gets fun locked => ?_
  split
  · exact Triple.throw fun _ _ => trivial
  refine Triple.bind Triple.any fun _ => Triple.bind Triple.any fun fault => ?_
  cases fault with
  | none => exact Triple.modify fun _ _ => rfl
  | error cut => exact Triple.throw fun _ _ => trivial
  | killed cut => exact Triple.bind Triple.any fun _ => Triple.kill fun _ _ => trivial

theorem main_notRolledBack (depth : Nat) (thisVersion : String) (exe : Exe) :
    Triple (fun _ => True) (main depth thisVersion exe) (fun _ _ => True) fun e _ => NotRolledBack e := by
  cases depth with
  | zero => exact Triple.kill fun _ _ => trivial
  | succ depth =>
    unfold main
    refine Triple.bind (R := fun _ => Locked) (Triple.mapError (takeLock_locks.exit fun e _ _ => by cases e <;> trivial)) fun _ => ?_
    refine Triple.bind (R := fun res _ => ∀ e, res = .error e → NotRolledBack (.error e)) (Triple.attempt ?_) fun res => ?_
    · refine Triple.exit (E := fun e _ => NotRolledBack e) (Triple.post (Q := fun _ _ => True) ?_ fun _ _ _ e he => by cases he) ?_
      · exact Triple.bind (fails_notRolledBack (call_keeps locked_untouched.faults)) fun _ => run_notRolledBack depth thisVersion exe
      · intro e _ he
        cases e with
        | error e => exact fun e' heq => by cases heq; exact he
        | killed => trivial
    · refine Triple.bind (R := fun _ _ => ∀ e, res = .error e → NotRolledBack (.error e)) ?_ fun _ => ?_
      · refine fails_notRolledBack (E := fun _ _ => True) ?_
        intro h hres
        cases (ignore dropLock h) with
        | mk r h' => cases r <;> first | exact hres | trivial
      · exact Triple.ofExcept (fun _ _ _ _ => trivial) fun e he _ hres => hres e he

section

variable {h : InstallHost} {msg : String}

theorem command_calm {f : Cut → InstallHost → InstallHost} (hcalm : h.faults = []) : command msg f h = (.ok (), f .all h) := by
  cases h
  cases hcalm
  rfl

theorem atomicCommand_calm {f : InstallHost → InstallHost} (hcalm : h.faults = []) : atomicCommand msg f h = (.ok (), f h) := by
  cases h
  cases hcalm
  rfl

theorem call_calm (hcalm : h.faults = []) : call msg h = (.ok (), h) := command_calm hcalm

theorem ignore_of_ok {m : StepM Unit} {h' : InstallHost} (hm : m h = (.ok (), h')) : ignore m h = (.ok (), h') := by
  have hattempt : attempt m h = (.ok (.ok ()), h') := by
    unfold attempt
    rw [hm]
  exact bind_of_ok hattempt

/-- Where nothing fails but the installer of the backup, which finds the lock taken. -/
theorem rollback_calm {version : String} (depth : Nat) (hcalm : h.faults = []) (hlock : h.lock = true) (hbackup : h.backup = some version)
    (hinstaller : (h.dirs.lookup version).any (·.hasInstaller) = true) :
    rollback (fun version => spawn (main depth version .installed)) h =
      (.error (.error "backup installer failed"),
        { h with running := none, config := (h.saved.lookup version).getD h.config, rootLock := false }) := by
  unfold rollback stopService
  rw [bind_of_ok (command_calm hcalm)]
  have hdata : rollbackBvData { h with running := none } =
      (.ok (), { h with running := none, config := (h.saved.lookup version).getD h.config }) := by
    unfold rollbackBvData
    rw [gets_bind]
    dsimp only [id]
    rw [hbackup]
    dsimp only [Option.bind]
    cases hsaved : h.saved.lookup version with
    | none => rfl
    | some config => exact command_calm hcalm
  rw [if_neg (by decide), bind_of_ok hdata, gets_bind]
  have hremove : Effect.when (h.rootLock = true) (ignore (atomicCommand "Failed to remove lock file" fun h => { h with rootLock := false }))
      { h with running := none, config := (h.saved.lookup version).getD h.config } =
      (.ok (), { h with running := none, config := (h.saved.lookup version).getD h.config, rootLock := false }) := by
    unfold Effect.when
    split
    · exact ignore_of_ok (atomicCommand_calm hcalm)
    · rename_i hroot
      cases h
      cases eq_false_of_ne_true hroot
      rfl
  rw [bind_of_ok hremove, gets_bind]
  dsimp only [id]
  rw [hbackup]
  dsimp only
  rw [if_pos hinstaller]
  refine (bind_of_ok (call_calm ?_)).trans (bind_of_ok (spawn_locked ?_ depth version .installed))
  · exact hcalm
  · exact hlock

end

/-- **A rollback never succeeds.** No installer ends with the previous version back in place, whatever
fails on the host and whatever the daemon replies. Where nothing else fails, what comes of a rollback is
the config of the backup and a daemon that is stopped. -/
theorem never_rolled_back (depth : Nat) (thisVersion : String) :
    (∀ exe h err h', main depth thisVersion exe h ≠ (.error (.error (.rolledBack err)), h')) ∧
      ∀ (h : InstallHost) version err, h.faults = [] → h.lock = true → h.backup = some version →
        (h.dirs.lookup version).any (·.hasInstaller) = true →
        handleBrokenInstallation (fun version => spawn (main depth version .installed)) thisVersion (.done version) err h =
          (.error (.error (.failed "backup installer failed")),
            { h with
              blacklist := h.blacklist.append thisVersion
              running := none
              config := (h.saved.lookup version).getD h.config
              rootLock := false }) := by
  constructor
  · intro exe h err h' heq
    have hmain := main_notRolledBack depth thisVersion exe h trivial
    rw [heq] at hmain
    exact hmain
  · intro h version err hcalm hlock hbackup hinstaller
    unfold handleBrokenInstallation blacklistThisVersion fails
    have hlist : mapError InstallError.failed (atomicCommand "install failed, but can't write version to blacklist" fun h =>
        { h with blacklist := h.blacklist.append thisVersion }) h =
        (.ok (), { h with blacklist := h.blacklist.append thisVersion }) := by
      unfold mapError
      rw [atomicCommand_calm hcalm]
    rw [bind_of_ok hlist]
    have hback := rollback_calm (h := { h with blacklist := h.blacklist.append thisVersion }) depth hcalm hlock hbackup hinstaller
    refine bind_of_error ?_
    unfold mapError
    rw [hback]

/-- A new version that does not get well, with the previous one to go back to. -/
def unwell : InstallHost where
  lock := true
  rootLock := false
  dirs := ((∅ : Table String VersionDir).insert "1.0.0" .whole).insert "1.1.0" .whole
  current := some "1.1.0"
  backup := some "1.0.0"
  blacklist := none
  config := .whole 2
  saved := (∅ : Table String (Doc Nat)).insert "1.0.0" (.whole 1)
  running := some "1.1.0"
  enabled := true
  faults := []
  polls := []

theorem never_rolled_back_unwell :
    handleBrokenInstallation (fun version => spawn (main 1 version .installed)) "1.1.0" (.done "1.0.0") "health check failed" unwell =
      (.error (.error (.failed "backup installer failed")),
        { unwell with blacklist := Blacklist.append none "1.1.0", running := none, config := .whole 1 }) :=
  (never_rolled_back 1 "1.1.0").2 unwell "1.0.0" "health check failed" rfl rfl rfl rfl

/-! ## An installation -/

/-- This version is what `current` links to, and has the files that were linked. -/
structure Current (thisVersion : String) (h : InstallHost) : Prop where
  current : h.current = some thisVersion
  links : (h.dirs.lookup thisVersion).any (·.hasLinks) = true

/-- The daemon of this version runs, and is started with the host. -/
structure Serving (thisVersion : String) (h : InstallHost) : Prop extends Current thisVersion h where
  running : h.running = some thisVersion
  enabled : h.enabled = true

/-- What an installation that went well has left alone since the host was in `h₀`. -/
structure Since (h₀ h : InstallHost) : Prop where
  polls : h.polls <:+ h₀.polls
  blacklist : h.blacklist = h₀.blacklist
  config : h.config = h₀.config

theorem since_untouched (h₀ : InstallHost) : Untouched (Since h₀) where
  faults := fun _ _ h => ⟨h.polls, h.blacklist, h.config⟩
  polls := fun _ p polls hp h => ⟨(List.suffix_cons p polls).trans (hp ▸ h.polls), h.blacklist, h.config⟩
  current := fun _ _ h => ⟨h.polls, h.blacklist, h.config⟩
  backup := fun _ _ h => ⟨h.polls, h.blacklist, h.config⟩
  dirs := fun _ _ h => ⟨h.polls, h.blacklist, h.config⟩
  saved := fun _ _ h => ⟨h.polls, h.blacklist, h.config⟩
  running := fun _ _ h => ⟨h.polls, h.blacklist, h.config⟩
  enabled := fun _ _ h => ⟨h.polls, h.blacklist, h.config⟩

section

variable {P Q : InstallHost → Prop} {msg : String}

/-- A command that returns has been done. -/
theorem command_done (hfaults : ∀ h faults, P h → P { h with faults }) {f : Cut → InstallHost → InstallHost}
    (hf : ∀ h, P h → Q (f .all h)) : Triple P (command msg f) (fun _ => Q) fun _ _ => True := by
  unfold command
  refine Triple.bind (R := fun _ => P) (fun h hh => hfaults h _ hh) fun fault => ?_
  cases fault with
  | none => exact Triple.modify hf
  | error cut => exact Triple.bind Triple.any fun _ => Triple.throw fun _ _ => trivial
  | killed cut => exact Triple.bind Triple.any fun _ => Triple.kill fun _ _ => trivial

/-- One that fails has not been. -/
theorem atomicCommand_triple (hfaults : ∀ h faults, P h → P { h with faults }) {f : InstallHost → InstallHost}
    (hf : ∀ h, P h → Q (f h)) : Triple P (atomicCommand msg f) (fun _ => Q) fun e h => ∀ err, e = .error err → P h := by
  unfold atomicCommand
  refine Triple.bind (R := fun _ => P) (fun h hh => hfaults h _ hh) fun fault => ?_
  cases fault with
  | none => exact Triple.modify hf
  | error cut => exact Triple.throw fun h hh _ _ => hh
  | killed cut =>
    refine Triple.bind (R := fun _ _ => True) ?_ fun _ => Triple.kill fun _ _ err he => by cases he
    exact Triple.when (fun _ => Triple.modify fun _ _ => trivial) fun _ _ _ => trivial

theorem atomicCommand_done (hfaults : ∀ h faults, P h → P { h with faults }) {f : InstallHost → InstallHost}
    (hf : ∀ h, P h → Q (f h)) : Triple P (atomicCommand msg f) (fun _ => Q) fun _ _ => True :=
  (atomicCommand_triple hfaults hf).exit fun _ _ _ => trivial

theorem done_of_keeps {I : InstallHost → Prop} {α : Type} {m : StepM α} (h : Keeps I I m) : Triple I m (fun _ => I) fun _ _ => True :=
  h.exit fun _ _ _ => trivial

end

section

variable {h₀ : InstallHost} {thisVersion : String}

theorem installThisVersion_done :
    Triple (Since h₀) (installThisVersion thisVersion) (fun _ h => Since h₀ h ∧ Current thisVersion h) fun _ _ => True := by
  have hI := since_untouched h₀
  unfold installThisVersion relink
  refine Triple.bind (R := fun _ h => Since h₀ h ∧ h.current = some thisVersion) ?_ fun _ => ?_
  · refine Triple.bind (done_of_keeps Keeps.gets) fun there => ?_
    refine Triple.bind (done_of_keeps (Keeps.when (ignore_keeps (atomicCommand_keeps hI.faults (hI.current · none))))) fun _ => ?_
    refine Triple.bind (done_of_keeps Keeps.gets) fun there => ?_
    split
    · exact Triple.throw fun _ _ => trivial
    · exact atomicCommand_done hI.faults fun h hh => ⟨hI.current h _ hh, rfl⟩
  refine Triple.bind Triple.gets fun dir => Triple.pre (P := fun h => Since h₀ h ∧ (dir.any (·.hasLinks) = true → Current thisVersion h)) ?_
    fun h hh => ⟨hh.2.1, fun hdir => ⟨hh.2.2, hh.1 ▸ hdir⟩⟩
  split
  · rename_i hdir
    have hfaults : ∀ (h : InstallHost) faults, Since h₀ h ∧ Current thisVersion h →
        Since h₀ { h with faults } ∧ Current thisVersion { h with faults } :=
      fun h faults hh => ⟨hI.faults h faults hh.1, hh.2.current, hh.2.links⟩
    refine Triple.pre (P := fun h => Since h₀ h ∧ Current thisVersion h) ?_ fun h hh => ⟨hh.1, hh.2 hdir⟩
    exact Triple.bind (done_of_keeps (call_keeps hfaults)) fun _ => done_of_keeps (call_keeps hfaults)
  · exact Triple.throw fun _ _ => trivial

theorem restartAndReenableBlockvisor_done (status : BackupStatus) :
    Triple (fun h => Since h₀ h ∧ Current thisVersion h) (restartAndReenableBlockvisor status)
      (fun _ h => Since h₀ h ∧ Serving thisVersion h) fun _ _ => True := by
  have hI := since_untouched h₀
  have hfaults : ∀ (h : InstallHost) faults, Since h₀ h ∧ Current thisVersion h →
      Since h₀ { h with faults } ∧ Current thisVersion { h with faults } :=
    fun h faults hh => ⟨hI.faults h faults hh.1, hh.2.current, hh.2.links⟩
  unfold restartAndReenableBlockvisor
  refine Triple.bind (done_of_keeps (ignore_keeps (call_keeps hfaults))) fun _ => ?_
  refine Triple.bind (done_of_keeps (stopService_keeps hfaults (fun h running hh => ⟨hI.running h running hh.1, hh.2.current, hh.2.links⟩) _))
    fun _ => ?_
  refine Triple.bind (done_of_keeps (backupAndMigrateBvData_keeps hfaults
    (fun h saved hh => ⟨hI.saved h saved hh.1, hh.2.current, hh.2.links⟩) status)) fun _ => ?_
  refine Triple.bind (R := fun _ h => (Since h₀ h ∧ Current thisVersion h) ∧ h.running = some thisVersion)
    (command_done hfaults fun h hh => ?_) fun _ => ?_
  · rw [if_neg (by decide)]
    exact ⟨⟨hI.running h _ hh.1, hh.2.current, hh.2.links⟩, hh.2.current⟩
  · refine atomicCommand_done (fun h faults hh => ⟨hfaults h faults hh.1, hh.2⟩) fun h hh => ?_
    exact ⟨hI.enabled h true hh.1.1, ⟨hh.1.2.current, hh.1.2.links⟩, hh.2, rfl⟩

theorem install_done (status : BackupStatus) :
    Triple (Since h₀) (install thisVersion status)
      (fun _ h => (Since h₀ h ∧ Serving thisVersion h) ∧ ∃ p ∈ h₀.polls, p.status = .ok .ok) fun _ _ => True := by
  have hI := since_untouched h₀
  unfold install
  refine Triple.bind (done_of_keeps (hI.prepareRunning status)) fun _ => Triple.bind installThisVersion_done fun _ => ?_
  refine Triple.bind (restartAndReenableBlockvisor_done status) fun _ => ?_
  refine Triple.bind (done_of_keeps Keeps.gets) fun replies => ?_
  refine (askUntil_triple (S := (· ∈ h₀.polls)) (fun h p polls hp hh => ?_) .ok _ _).exit fun _ _ _ => trivial
  refine ⟨hh.1.polls.subset (hp ▸ List.mem_cons_self ..), hI.polls h p polls hp hh.1, ?_⟩
  exact ⟨⟨hh.2.current, hh.2.links⟩, hh.2.running, hh.2.enabled⟩

theorem isBlacklisted_triple {I : InstallHost → Prop} {file : Blacklist} (hfaults : ∀ h faults, I h → I { h with faults })
    (hfile : ∀ h, I h → h.blacklist = file) (version : String) :
    Triple I (isBlacklisted version) (fun listed h => I h ∧ listed = file.isBlacklisted version) (atExit I I) := by
  refine Triple.bind Triple.gets fun blacklist => ?_
  refine Triple.pre (P := fun h => blacklist = file ∧ I h) (Triple.assume fun heq => ?_) fun h hh => ⟨hh.1.trans (hfile h hh.2), hh.2⟩
  subst heq
  cases blacklist with
  | none => exact Triple.pure fun h hh => ⟨hh, rfl⟩
  | some text => exact Triple.bind (call_keeps hfaults) fun _ => Triple.pure fun h hh => ⟨hh, rfl⟩

/-- Of the versions only others are removed. -/
theorem cleanup_keeps {I : InstallHost → Prop} (hfaults : ∀ h faults, I h → I { h with faults })
    (hdirs : ∀ h dirs saved, dirs.lookup thisVersion = h.dirs.lookup thisVersion → I h → I { h with dirs, saved })
    (hbackup : ∀ h backup, I h → I { h with backup }) (hlock : ∀ h lock, I h → I { h with lock }) :
    Keeps I I (cleanup thisVersion) := by
  unfold cleanup
  refine Keeps.bind (call_keeps hfaults) fun _ => Keeps.bind Keeps.gets fun versions => ?_
  refine Keeps.bind (Keeps.forM fun version hversion => ignore_keeps (command_keeps hfaults fun cut h hi => ?_)) fun _ => ?_
  · have hne : thisVersion ≠ version := fun heq => by simp [heq] at hversion
    cases cut with
    | nothing => exact hi
    | part bits => exact hdirs h _ _ (AList.lookup_insert_ne hne) hi
    | all => exact hdirs h _ _ (AList.lookup_erase_ne hne) hi
  · refine Keeps.bind (ignore_keeps (atomicCommand_keeps hfaults fun h hi => hbackup h none hi)) fun _ => ?_
    exact ignore_keeps (atomicCommand_keeps hfaults fun h hi => hlock h false hi)

/-- What holds of the host when an installation ends well. -/
structure Installed (thisVersion : String) (h₀ h : InstallHost) : Prop where
  since : Since h₀ h
  serving : Serving thisVersion h
  healthy : ∃ p ∈ h₀.polls, p.status = .ok .ok
  allowed : h₀.blacklist.isBlacklisted thisVersion = false

/-- It is not about the lock, the backup and the other versions. -/
theorem Installed.rest {h : InstallHost} (hi : Installed thisVersion h₀ h) (lock : Bool) (backup : Option String)
    (saved : Table String (Doc Nat)) (faults : List (Fault Cut)) {dirs : Table String VersionDir}
    (hdirs : dirs.lookup thisVersion = h.dirs.lookup thisVersion) :
    Installed thisVersion h₀ { h with lock, backup, saved, faults, dirs } where
  since := ⟨hi.since.polls, hi.since.blacklist, hi.since.config⟩
  serving := ⟨⟨hi.serving.current, (congrArg (Option.any (·.hasLinks)) hdirs).trans hi.serving.links⟩, hi.serving.running, hi.serving.enabled⟩
  healthy := hi.healthy
  allowed := hi.allowed

theorem Installed.faults (h : InstallHost) (faults : List (Fault Cut)) (hi : Installed thisVersion h₀ h) :
    Installed thisVersion h₀ { h with faults } :=
  hi.rest h.lock h.backup h.saved faults rfl

theorem Installed.lock (h : InstallHost) (lock : Bool) (hi : Installed thisVersion h₀ h) : Installed thisVersion h₀ { h with lock } :=
  hi.rest lock h.backup h.saved h.faults rfl

theorem Installed.cleanup : Keeps (Installed thisVersion h₀) (Installed thisVersion h₀) (cleanup thisVersion) :=
  cleanup_keeps Installed.faults (fun h _ saved hdirs hi => hi.rest h.lock h.backup saved h.faults hdirs)
    (fun h backup hi => hi.rest h.lock backup h.saved h.faults rfl) Installed.lock

theorem fails_done {P : InstallHost → Prop} {α : Type} {m : StepM α} {Q : α → InstallHost → Prop} {E : Exit String → InstallHost → Prop}
    (h : Triple P m Q E) : Triple P (fails m) Q fun _ _ => True :=
  Triple.mapError (h.exit fun e _ _ => by cases e <;> trivial)

/-- Of an attempt that came to nothing, nothing is said. -/
theorem attempt_done {ε : Type} {P : InstallHost → Prop} {α : Type} {m : Effect ε InstallHost α} {Q : α → InstallHost → Prop}
    {E : Exit ε → InstallHost → Prop} (h : Triple P m Q E) :
    Triple P (attempt m) (fun res h => ∀ a, res = .ok a → Q a h) fun _ _ => True := by
  refine Triple.attempt ((h.post fun a h hh b hb => by cases hb; exact hh).exit fun e h _ => ?_)
  cases e with
  | error err => exact fun a ha => by cases ha
  | killed => trivial

theorem run_done (installer : String → StepM Bool) (exe : Exe) :
    Triple (Since h₀) (run installer thisVersion exe) (fun _ => Installed thisVersion h₀) fun _ _ => True := by
  have hI := since_untouched h₀
  unfold run
  refine Triple.bind (fails_done (isBlacklisted_triple hI.faults (fun h hh => hh.blacklist) thisVersion)) fun listed => ?_
  split
  · exact Triple.throw fun _ _ => trivial
  rename_i hlisted
  refine Triple.pre (P := fun h => h₀.blacklist.isBlacklisted thisVersion = false ∧ Since h₀ h) (Triple.assume fun hfile => ?_)
    fun h hh => ⟨hh.2 ▸ eq_false_of_ne_true hlisted, hh.1⟩
  refine Triple.bind (fails_done (call_keeps hI.faults)) fun _ => ?_
  refine Triple.bind (fails_done (hI.preinstall thisVersion exe)) fun status => ?_
  have hinstall : Triple (Since h₀) (install thisVersion status) (fun _ => Installed thisVersion h₀) fun _ _ => True :=
    (install_done status).post fun _ h hh => ⟨hh.1.1, hh.1.2, hh.2, hfile⟩
  refine Triple.bind (fails_done (attempt_done hinstall)) fun res => ?_
  cases res with
  | ok a => exact fails_done (Triple.pre (ignore_keeps Installed.cleanup) fun h hh => hh a rfl)
  | error err =>
    unfold handleBrokenInstallation
    refine Triple.bind (R := fun _ _ => True) (fails_done (Triple.any.pre fun _ _ => trivial)) fun _ => ?_
    cases status with
    | done version => exact Triple.bind (R := fun _ _ => True) (fails_done Triple.any) fun _ => Triple.throw fun _ _ => trivial
    | thisIsRollback => exact Triple.throw fun _ _ => trivial
    | nothingToBackup => exact Triple.throw fun _ _ => trivial

/-- **An installation that ends well.** Its version was not on the blacklist; it is the version that is
linked, running and enabled, and the daemon has said that it is well. The config and the blacklist are
as they were. -/
theorem installed (depth : Nat) (thisVersion : String) (exe : Exe) (h h' : InstallHost)
    (hok : main depth thisVersion exe h = (.ok (), h')) : Installed thisVersion h h' := by
  have hmain : Triple (Since h) (main depth thisVersion exe) (fun _ => Installed thisVersion h) fun _ _ => True := by
    have hI := since_untouched h
    cases depth with
    | zero => exact Triple.kill fun _ _ => trivial
    | succ depth =>
      unfold main
      refine Triple.bind (R := fun _ => Since h) (Triple.mapError ?_) fun _ => ?_
      · refine Triple.exit (E := fun _ _ => True) ?_ fun e _ _ => by cases e <;> trivial
        refine Triple.bind (done_of_keeps Keeps.gets) fun locked => ?_
        split
        · exact Triple.throw fun _ _ => trivial
        · refine Triple.bind (done_of_keeps (call_keeps hI.faults)) fun _ => ?_
          exact atomicCommand_done hI.faults fun h hh => ⟨hh.polls, hh.blacklist, hh.config⟩
      refine Triple.bind (attempt_done (Triple.bind (fails_done (call_keeps hI.faults)) fun _ => run_done _ exe)) fun res => ?_
      cases res with
      | ok a => exact Triple.bind (fails_done (Triple.pre (ignore_keeps (atomicCommand_keeps Installed.faults
        fun h hi => Installed.lock h false hi)) fun h hh => hh a rfl)) fun _ => Triple.pure fun h hh => hh
      | error err => exact Triple.bind (R := fun _ _ => True) (fails_done (Triple.any.pre fun _ _ => trivial)) fun _ => Triple.throw fun _ _ => trivial
  have hrun := hmain h ⟨List.suffix_refl _, rfl, rfl⟩
  rw [hok] at hrun
  exact hrun

end

/-- A host with a version that runs, whose daemon is well again once it is updated. -/
def updatable : InstallHost where
  lock := false
  rootLock := false
  dirs := (∅ : Table String VersionDir).insert "1.0.0" .whole
  current := some "1.0.0"
  backup := none
  blacklist := none
  config := .whole 1
  saved := ∅
  running := some "1.0.0"
  enabled := true
  faults := []
  polls := [⟨.ok .updating, false⟩, ⟨.error "starting", false⟩, ⟨.ok .ok, false⟩]

theorem installed_update : Installed "1.1.0" updatable (main 2 "1.1.0" .bundle updatable).2 :=
  installed 2 "1.1.0" .bundle updatable _ (eq_of_isOk (by decide +kernel))

/-! ## The decisions -/

/-- How an installation ends, as a decision. -/
def ended : InstallError → Option Ended
  | .locked => none
  | .refused => some .refused
  | .failed err => some (.failed err)
  | .rolledBack err => some (.rolledBack err)
  | .rollbackFailed err => some (.rollbackFailed err)

/-- The outcomes of the parts of an installation where none fails, on a host without an installation. -/
def undisturbed : InstallEnv where
  read := .ok ()
  requirements := .ok ()
  moveBundle := .ok ()
  running := .ok none
  readAgain := .ok ()
  backup := .ok ()
  install := .ok ()
  blacklist := .ok ()
  rollback := .ok ()

/-- The lock is held, and this is the blacklist. -/
structure Holding (file : Blacklist) (h : InstallHost) : Prop where
  lock : h.lock = true
  blacklist : h.blacklist = file

section

variable {file : Blacklist} {thisVersion : String}

theorem holding_untouched (file : Blacklist) : Untouched (Holding file) where
  faults := fun _ _ h => ⟨h.lock, h.blacklist⟩
  polls := fun _ _ _ _ h => ⟨h.lock, h.blacklist⟩
  current := fun _ _ h => ⟨h.lock, h.blacklist⟩
  backup := fun _ _ h => ⟨h.lock, h.blacklist⟩
  dirs := fun _ _ h => ⟨h.lock, h.blacklist⟩
  saved := fun _ _ h => ⟨h.lock, h.blacklist⟩
  running := fun _ _ h => ⟨h.lock, h.blacklist⟩
  enabled := fun _ _ h => ⟨h.lock, h.blacklist⟩

theorem of_atExit {ε : Type} {I : InstallHost → Prop} {e : Exit ε} {h : InstallHost} (hh : atExit I I e h) : I h := by
  cases e <;> exact hh

/-- An error that one of the parts can end with. -/
def PreinstallFails (file : Blacklist) (e : Exit String) : Prop :=
  ∀ err, e = .error err → ∃ env, Installer.preinstall file env = .error err

theorem preinstall_decided (exe : Exe) :
    Triple (Holding file) (preinstall thisVersion exe) (fun status h => Holding file h ∧ ∃ env, Installer.preinstall file env = .ok status)
      fun e h => Holding file h ∧ PreinstallFails file e := by
  have hI := holding_untouched file
  unfold preinstall backupRunningVersion
  refine Triple.bind (R := fun _ => Holding file) ?_ fun _ => Triple.bind (R := fun _ => Holding file) ?_ fun version => ?_
  · exact (hI.moveBundleToInstallPath thisVersion exe).exit fun _ _ hh => ⟨of_atExit hh, fun err _ => ⟨{ undisturbed with moveBundle := .error err }, rfl⟩⟩
  · exact hI.getRunningVersion.exit fun _ _ hh => ⟨of_atExit hh, fun err _ => ⟨{ undisturbed with running := .error err }, rfl⟩⟩
  cases version with
  | none => exact Triple.pure fun h hh => ⟨hh, undisturbed, rfl⟩
  | some version =>
    refine Triple.bind ((isBlacklisted_triple hI.faults (fun h hh => hh.blacklist) version).exit fun _ _ hh => ⟨of_atExit hh, fun err _ => ?_⟩) fun listed => ?_
    · exact ⟨{ undisturbed with running := .ok (some version), readAgain := .error err }, rfl⟩
    refine Triple.pre (P := fun h => listed = file.isBlacklisted version ∧ Holding file h) (Triple.assume fun hlisted => ?_)
      fun h hh => ⟨hh.2, hh.1⟩
    have hdecided : ∀ backup : Except String Unit,
        Installer.preinstall file { undisturbed with running := .ok (some version), backup } =
          if listed = true then .ok .thisIsRollback else backup.map fun _ => .done version := by
      intro backup
      rw [hlisted]
      unfold Installer.preinstall Installer.backupRunningVersion undisturbed
      cases backup <;> rfl
    split
    · rename_i heq
      refine Triple.pure fun h hh => ⟨hh, { undisturbed with running := .ok (some version) }, ?_⟩
      rw [hdecided, if_pos heq]
    · rename_i hne
      refine Triple.bind ((relink_keeps hI.faults fun link h hh => hI.backup h link hh).exit fun _ _ hh => ⟨of_atExit hh, fun err _ => ?_⟩)
        fun _ => ?_
      · refine ⟨{ undisturbed with running := .ok (some version), backup := .error err }, ?_⟩
        rw [hdecided, if_neg hne]
        rfl
      · refine Triple.pure fun h hh => ⟨hh, { undisturbed with running := .ok (some version) }, ?_⟩
        rw [hdecided, if_neg hne]
        rfl

/-- An end of the installation is one that is decided on for some outcome of its parts. -/
def Decided (thisVersion : String) (file : Blacklist) (e : Exit InstallError) (h : InstallHost) : Prop :=
  ∀ err, e = .error err → ∃ env outcome, ended err = some outcome ∧ Installer.run thisVersion file env = (outcome, h.blacklist)

theorem fails_decided {P : InstallHost → Prop} {α : Type} {m : StepM α} {Q : α → InstallHost → Prop}
    (h : Triple P m Q fun e h => ∀ err, e = .error err → ∃ env, Installer.run thisVersion file env = (.failed err, h.blacklist)) :
    Triple P (fails m) Q (Decided thisVersion file) := by
  refine Triple.mapError (h.exit fun e h hh => ?_)
  cases e with
  | killed => exact fun err he => by cases he
  | error err =>
    intro err' he
    cases he
    obtain ⟨env, henv⟩ := hh err rfl
    exact ⟨env, .failed err, rfl, henv⟩

section

variable {env : InstallEnv} {status : BackupStatus} (hlisted : file.isBlacklisted thisVersion = false)

include hlisted

theorem run_preinstallFails {err : String} (hpre : Installer.preinstall file env = .error err) :
    Installer.run thisVersion file { env with read := .ok (), requirements := .ok () } = (.failed err, file) := by
  unfold Installer.run
  dsimp only
  rw [hlisted, show Installer.preinstall file { env with read := .ok (), requirements := .ok () } = .error err from hpre]
  rfl

theorem run_installs (hpre : Installer.preinstall file env = .ok status) :
    Installer.run thisVersion file { env with read := .ok (), requirements := .ok (), install := .ok () } = (.installed, file) := by
  unfold Installer.run
  dsimp only
  rw [hlisted, show Installer.preinstall file { env with read := .ok (), requirements := .ok (), install := .ok () } = .ok status from hpre]
  rfl

theorem run_breaks (hpre : Installer.preinstall file env = .ok status) (err : String) (blacklist rollback : Except String Unit) :
    Installer.run thisVersion file { env with read := .ok (), requirements := .ok (), install := .error err, blacklist, rollback } =
      Installer.handleBrokenInstallation thisVersion file status
        { env with read := .ok (), requirements := .ok (), install := .error err, blacklist, rollback } err := by
  unfold Installer.run
  dsimp only
  rw [hlisted, show Installer.preinstall file
    { env with read := .ok (), requirements := .ok (), install := .error err, blacklist, rollback } = .ok status from hpre]
  rfl

end

/-- While the lock is held, a rollback does not touch the blacklist. -/
theorem rollback_holding (depth : Nat) :
    Keeps (Holding file) (Holding file) (rollback fun version => spawn (main depth version .installed)) := by
  have hI := holding_untouched file
  unfold rollback
  refine Keeps.bind (stopService_keeps hI.faults hI.running _) fun _ => ?_
  refine Keeps.bind (rollbackBvData_keeps hI.faults fun _ _ h => ⟨h.lock, h.blacklist⟩) fun _ => Keeps.bind Keeps.gets fun locked => ?_
  refine Keeps.bind (Keeps.when (ignore_keeps (atomicCommand_keeps hI.faults fun _ h => ⟨h.lock, h.blacklist⟩))) fun _ => ?_
  refine Keeps.bind Keeps.gets fun h => ?_
  cases h.backup with
  | none => exact Keeps.throw
  | some version =>
    refine Keeps.ite (Keeps.bind (call_keeps hI.faults) fun _ => Keeps.bind (Keeps.of_run fun h hh => ?_) fun succeeded => ?_) Keeps.throw
    · dsimp only
      rw [spawn_locked hh.lock]
      exact hh
    · exact Keeps.when Keeps.throw

theorem attempt_ends {α : Type} {I : InstallHost → Prop} {m : StepM α} (h : Keeps I I m) :
    Triple I (attempt m) (fun _ => I) fun e _ => e = .killed := by
  refine Triple.attempt (h.exit fun e h hh => ?_)
  cases e with
  | error err => exact hh
  | killed => rfl

/-- **The host decides as the installer does.** While the lock is held, an installation that is not killed ends
as it is decided for some outcome of its parts, with the same blacklist. -/
theorem run_refines (depth : Nat) (exe : Exe) :
    Triple (Holding file) (run (fun version => spawn (main depth version .installed)) thisVersion exe)
      (fun _ h => ∃ env, Installer.run thisVersion file env = (.installed, h.blacklist)) (Decided thisVersion file) := by
  have hI := holding_untouched file
  unfold run
  refine Triple.bind (fails_decided ((isBlacklisted_triple hI.faults (fun h hh => hh.blacklist) thisVersion).exit fun e h hh err he => ?_))
    fun listed => ?_
  · exact ⟨{ undisturbed with read := .error err }, by rw [(of_atExit hh).blacklist]; rfl⟩
  refine Triple.pre (P := fun h => listed = file.isBlacklisted thisVersion ∧ Holding file h) (Triple.assume fun hlisted => ?_)
    fun h hh => ⟨hh.2, hh.1⟩
  split
  · rename_i heq
    refine Triple.throw fun h hh err he => ?_
    cases he
    refine ⟨undisturbed, .refused, rfl, ?_⟩
    rw [hh.blacklist]
    exact if_pos (hlisted ▸ heq)
  rename_i hne
  have hallowed : file.isBlacklisted thisVersion = false := hlisted ▸ eq_false_of_ne_true hne
  refine Triple.bind (fails_decided ((call_keeps hI.faults).exit fun e h hh err he => ?_)) fun _ => ?_
  · refine ⟨{ undisturbed with requirements := .error err }, ?_⟩
    rw [(of_atExit hh).blacklist]
    exact if_neg (hlisted ▸ hne)
  refine Triple.bind (fails_decided ((preinstall_decided exe).exit fun e h hh err he => ?_)) fun status => ?_
  · obtain ⟨env, henv⟩ := hh.2 err he
    exact ⟨_, by rw [hh.1.blacklist]; exact run_preinstallFails hallowed henv⟩
  refine Triple.pre (P := fun h => (∃ env, Installer.preinstall file env = .ok status) ∧ Holding file h) (Triple.assume fun hpre => ?_)
    fun h hh => ⟨hh.2, hh.1⟩
  obtain ⟨env, hpre⟩ := hpre
  refine Triple.bind (fails_decided ((attempt_ends (hI.install thisVersion status)).exit fun e h hh err he => ?_)) fun res => ?_
  · rw [he] at hh
    cases hh
  cases res with
  | ok a =>
    have hcleanup : Keeps (fun h => h.blacklist = file) (fun h => h.blacklist = file) (cleanup thisVersion) :=
      cleanup_keeps (fun _ _ hh => hh) (fun _ _ _ _ hh => hh) (fun _ _ hh => hh) fun _ _ hh => hh
    have hdone := (attempt_ends hcleanup).pre fun h (hh : Holding file h) => hh.blacklist
    refine fails_decided (Triple.bind (hdone.exit fun e h hh err he => ?_) fun _ => Triple.pure fun h hh => ?_)
    · rw [he] at hh
      cases hh
    · exact ⟨_, by rw [hh]; exact run_installs hallowed hpre⟩
  | error err =>
    have hbreaks := run_breaks hallowed hpre err
    unfold handleBrokenInstallation
    refine Triple.bind (R := fun _ => Holding (file.append thisVersion)) (fails_decided ?_) fun _ => ?_
    · refine (atomicCommand_triple hI.faults fun h hh => ⟨hh.lock, ?_⟩).exit fun e h hh err' he => ?_
      · rw [(hh err' he).blacklist]
        exact ⟨_, hbreaks (.error err') (.ok ())⟩
      · rw [hh.blacklist]
    cases status with
    | done version =>
      refine Triple.bind (fails_decided ((rollback_holding depth).exit fun e h hh err' he => ?_)) fun _ => ?_
      · rw [(of_atExit hh).blacklist]
        exact ⟨_, hbreaks (.ok ()) (.error err')⟩
      · refine Triple.throw fun h hh err' he => ?_
        cases he
        rw [hh.blacklist]
        exact ⟨_, _, rfl, hbreaks (.ok ()) (.ok ())⟩
    | thisIsRollback =>
      refine Triple.throw fun h hh err' he => ?_
      cases he
      rw [hh.blacklist]
      exact ⟨_, _, rfl, hbreaks (.ok ()) (.ok ())⟩
    | nothingToBackup =>
      refine Triple.throw fun h hh err' he => ?_
      cases he
      rw [hh.blacklist]
      exact ⟨_, _, rfl, hbreaks (.ok ()) (.ok ())⟩

end

end InstallHost

end Blockvisor
