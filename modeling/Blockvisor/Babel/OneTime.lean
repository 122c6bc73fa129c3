/-
A one-time job (`run_job`, `restore_job`, `backup_job`). Before its body runs
for the first time, the runner makes a directory named after the job with those
of the archive jobs, which outlives the container; a start that finds the
directory takes the job for done.

`OneTimeJob.step` is one step of the runner, whose file operations may fail or
be cut short by the death of the process, or something else that happens: a
start, an upgrade of the node, or that others write to the data. `runs`,
`executions` and the two flags are ghosts: how often the runner has come to the
body and the body was executed, and who has made the directory.
-/
import Blockvisor.Babel.MultiClient
import Blockvisor.Lib.Machine

namespace Blockvisor

open Machine

structure OneTimeJob where
  name : String
  dataMountPoint : PathBuf
  restart : Engine.RestartPolicy
  useProtocolData : Bool

/-- The directory that says that the job was started. -/
def OneTimeJob.jobBackup (job : OneTimeJob) : PathBuf := Path.join (archiveJobsMetaDir job.dataMountPoint) job.name

/-- Where the runner is: in `restore_job`, before, in and after the body. -/
inductive RunnerPhase where
  | checking
  | creating
  | marking
  | restoring (backupExists : Bool)
  | touching
  | looping
  | waiting
  | backingUp
  deriving DecidableEq

/-- What there is in the data, the status files of the backup and of the job, and the runner if there is one. -/
structure OneTimeSt where
  paths : List PathBuf
  backup : Doc JobStatus
  status : Doc JobStatus
  phase : Option RunnerPhase
  runs : Nat
  executions : Nat
  /-- A start of the job has made the directory. -/
  marked : Bool
  /-- Something else has made it, or something in it. -/
  foreign : Bool

def OneTimeSt.init : OneTimeSt := ⟨[], .missing, .missing, none, 0, 0, false, false⟩

/-- `Path::exists`. -/
def OneTimeSt.there (s : OneTimeSt) (path : PathBuf) : Bool := s.paths.any fun p => path.isPrefixOf p

inductive OneTimeAct where
  | start
  | advance (fault : Fault DocCut)
  | unknownUser
  | launch
  | spawnFailed (message : String) (exceeded : Bool) (saved : DocCut)
  | exited (exitCode : Option Int) (message : String) (exceeded : Bool) (saved : DocCut)
  | stopRun
  | kill
  | upgrade
  | other (path : PathBuf)

/-- A copy of a file, cut or not; there may be none to copy. -/
def copyDoc {α : Type} (source target : Doc α) (cut : DocCut) : Doc α :=
  match source, cut with
  | .missing, _ => target
  | _, .untouched => target
  | source, .whole => source
  | _, _ => .torn

/-- `JobBackoff::stopped`: the job is over with a status, or goes on; `exceeded` says whether its retries are used up. -/
def jobStopped (policy : Engine.RestartPolicy) (exitCode : Option Int) (message : String) (exceeded : Bool) : Except JobStatus Unit :=
  let failed := Except.error (.finished exitCode message)
  let retry := fun (config : Engine.RestartConfig) => if config.maxRetries.isSome && exceeded then failed else .ok ()
  match policy with
  | .always config => retry config
  | .onFailure config => if exitCode.getD (-1) ≠ 0 then retry config else .error (.finished exitCode "")
  | .never => if exitCode.getD (-1) ≠ 0 then failed else .error (.finished exitCode "")

namespace OneTimeJob

variable (job : OneTimeJob)

/-- The runner goes on, unless it has failed or is dead. -/
def goOn (s : OneTimeSt) (fault : Fault DocCut) (next : RunnerPhase) : OneTimeSt :=
  { s with phase := if fault = .none then some next else none }

/-- The file operations of the runner. -/
def advance (s : OneTimeSt) (fault : Fault DocCut) : RunnerPhase → Option OneTimeSt
  | .checking => some (goOn s fault (if s.there job.jobBackup then .restoring true else .creating))
  | .creating =>
    let s := if fault.cutOr .whole = .untouched then s else { s with paths := job.jobBackup :: s.paths, marked := true }
    some (goOn s fault .marking)
  | .marking =>
    let started := JobStatus.finished none "one-time job started, but not finished"
    some (goOn { s with backup := s.backup.write started (fault.cutOr .whole) } fault (.restoring false))
  | .restoring backupExists =>
    let s := { s with status := copyDoc s.backup s.status (fault.cutOr .whole) }
    -- the job is over when there was a backup
    some (if backupExists then { s with phase := none } else goOn s fault .touching)
  | .touching =>
    some (if job.useProtocolData ∧ fault ≠ .none then { s with phase := none }
      else { s with phase := some .looping, runs := s.runs + 1 })
  | .looping => none
  | .waiting => none
  | .backingUp => some { s with backup := copyDoc s.status s.backup (fault.cutOr .whole), phase := none }

/-- An execution of the body, or the attempt at one, is over. -/
def stopped (s : OneTimeSt) (exitCode : Option Int) (message : String) (exceeded : Bool) (saved : DocCut) : OneTimeSt :=
  match jobStopped job.restart exitCode message exceeded with
  | .ok () => { s with phase := some .looping }
  | .error status => { s with status := s.status.write status saved, phase := some .backingUp }

def step (s : OneTimeSt) : OneTimeAct → Option OneTimeSt
  | .start => if s.phase = none then some { s with phase := some .checking } else none
  | .advance fault => s.phase.bind (job.advance s fault)
  | .unknownUser =>
    if s.phase = some .looping ∧ s.executions = 0 then
      some { s with status := .whole (.finished none "cant run: user not found"), phase := some .backingUp }
    else none
  | .launch => if s.phase = some .looping then some { s with phase := some .waiting, executions := s.executions + 1 } else none
  | .spawnFailed message exceeded saved =>
    if s.phase = some .looping then some (job.stopped s none message exceeded saved) else none
  | .exited exitCode message exceeded saved =>
    if s.phase = some .waiting then some (job.stopped s exitCode message exceeded saved) else none
  | .stopRun => if s.phase = some .looping ∨ s.phase = some .waiting then some { s with phase := some .backingUp } else none
  | .kill => some { s with phase := none }
  | .upgrade => some { s with phase := none, status := .missing }
  | .other path =>
    some { s with paths := path :: s.paths, foreign := s.foreign || job.jobBackup.isPrefixOf path }

/-- A start up to the body, in which nothing fails. -/
def cleanStart : List OneTimeAct := .start :: (List.replicate 5 (.advance .none) ++ [.launch])

/-! ## What the steps keep -/

/-- How often the body was run where the runner is. -/
def PhaseOk (s : OneTimeSt) : Option RunnerPhase → Prop
  | some .creating => s.runs = 0
  | some .marking => s.runs = 0
  | some (.restoring false) => s.runs = 0
  | some .touching => s.runs = 0
  | some .looping => s.runs ≠ 0
  | some .waiting => s.runs ≠ 0
  | _ => True

structure Inv (s : OneTimeSt) : Prop where
  once : s.runs ≤ 1
  phase : PhaseOk s s.phase
  /-- The directory is there before the body runs. -/
  ran : s.runs ≠ 0 ∨ s.phase = some .marking ∨ s.phase = some (.restoring false) ∨ s.phase = some .touching →
    s.there job.jobBackup = true
  known : s.there job.jobBackup = true → s.marked = true ∨ s.foreign = true
  unexecuted : s.runs = 0 → s.executions = 0
  never : job.restart = .never → s.executions ≤ 1 ∧ (s.phase = some .looping → s.executions = 0)

variable {job}

theorem inv_init : Inv job .init where
  once := Nat.zero_le _
  phase := trivial
  ran := by simp [OneTimeSt.init]
  known := by simp [OneTimeSt.init, OneTimeSt.there]
  unexecuted := fun _ => rfl
  never := fun _ => ⟨Nat.zero_le _, fun _ => rfl⟩

/-- A step that only changes where the runner is. -/
theorem Inv.goTo {s : OneTimeSt} (h : Inv job s) {p : Option RunnerPhase} (hphase : PhaseOk s p)
    (hran : p = some .marking ∨ p = some (.restoring false) ∨ p = some .touching → s.there job.jobBackup = true)
    (hlooping : job.restart = .never → p = some .looping → s.executions = 0) : Inv job { s with phase := p } where
  once := h.once
  phase := hphase
  ran := fun hany => hany.elim (fun hruns => h.ran (.inl hruns)) hran
  known := h.known
  unexecuted := h.unexecuted
  never := fun hnever => ⟨(h.never hnever).1, hlooping hnever⟩

/-- The end of a runner. -/
theorem Inv.over {s : OneTimeSt} (h : Inv job s) : Inv job { s with phase := none } :=
  h.goTo trivial (by simp) (by simp)

/-- The status files are read by no start. -/
theorem Inv.files {s : OneTimeSt} (h : Inv job s) (backup status : Doc JobStatus) : Inv job { s with backup, status } :=
  ⟨h.once, h.phase, h.ran, h.known, h.unexecuted, h.never⟩

theorem Inv.goOn {s : OneTimeSt} (h : Inv job s) {fault : Fault DocCut} {p : RunnerPhase} (hphase : PhaseOk s (some p))
    (hran : p = .marking ∨ p = .restoring false ∨ p = .touching → fault = .none → s.there job.jobBackup = true)
    (hlooping : p ≠ .looping) : Inv job (goOn s fault p) := by
  unfold OneTimeJob.goOn
  by_cases hfault : fault = .none
  · rw [if_pos hfault]
    exact h.goTo hphase (fun hp => hran (by simpa using hp) hfault) fun _ hp => (hlooping (Option.some.inj hp)).elim
  · rw [if_neg hfault]
    exact h.over

/-- The directory is made by the job itself. -/
theorem Inv.mark {s : OneTimeSt} (h : Inv job s) :
    Inv job { s with paths := job.jobBackup :: s.paths, marked := true } where
  once := h.once
  phase := h.phase
  ran := fun _ => by
    show OneTimeSt.there _ _ = true
    unfold OneTimeSt.there
    simp
  known := fun _ => .inl rfl
  unexecuted := h.unexecuted
  never := h.never

theorem Inv.advance {s s' : OneTimeSt} {fault : Fault DocCut} {p : RunnerPhase} (h : Inv job s) (hp : s.phase = some p)
    (hs : job.advance s fault p = some s') : Inv job s' := by
  have hphase := h.phase
  rw [hp] at hphase
  cases p with
  | checking =>
    cases hs
    by_cases hthere : s.there job.jobBackup = true
    · rw [if_pos hthere]
      exact h.goOn trivial (by simp) (by simp)
    · rw [if_neg hthere]
      refine h.goOn ?_ (by simp) (by simp)
      show s.runs = 0
      by_cases hruns : s.runs = 0
      · exact hruns
      · exact (hthere (h.ran (.inl hruns))).elim
  | creating =>
    cases hs
    by_cases hcut : fault.cutOr .whole = .untouched
    · rw [if_pos hcut]
      refine h.goOn hphase (fun _ hfault => ?_) (by simp)
      rw [hfault] at hcut
      cases hcut
    · rw [if_neg hcut]
      exact h.mark.goOn hphase (fun _ _ => by simp [OneTimeSt.there]) (by simp)
  | marking =>
    cases hs
    have hthere := h.ran (.inr (.inl hp))
    exact (h.files _ s.status).goOn hphase (fun _ _ => hthere) (by simp)
  | restoring backupExists =>
    cases hs
    have hfiles := h.files s.backup (copyDoc s.backup s.status (fault.cutOr .whole))
    cases backupExists with
    | true => exact hfiles.over
    | false =>
      have hthere := h.ran (.inr (.inr (.inl hp)))
      exact hfiles.goOn hphase (fun _ _ => hthere) (by simp)
  | touching =>
    have hthere := h.ran (.inr (.inr (.inr hp)))
    have hruns : s.runs = 0 := hphase
    cases hs
    split
    · exact h.over
    · refine ⟨by simp [hruns], Nat.succ_ne_zero _, fun _ => hthere, h.known, fun hr => by simp at hr, fun hnever => ?_⟩
      exact ⟨(h.never hnever).1, fun _ => h.unexecuted hruns⟩
  | looping => cases hs
  | waiting => cases hs
  | backingUp =>
    cases hs
    exact (h.files (copyDoc s.status s.backup (fault.cutOr .whole)) s.status).over

theorem Inv.stopped {s : OneTimeSt} (h : Inv job s) (hruns : s.runs ≠ 0) (exitCode : Option Int) (message : String) (exceeded : Bool) (saved : DocCut) :
    Inv job (job.stopped s exitCode message exceeded saved) := by
  unfold OneTimeJob.stopped
  cases hstopped : jobStopped job.restart exitCode message exceeded with
  | ok u =>
    refine h.goTo hruns (by simp) fun hnever _ => ?_
    rw [hnever] at hstopped
    unfold jobStopped at hstopped
    dsimp only at hstopped
    split at hstopped <;> cases hstopped
  | error status => exact (h.files s.backup (s.status.write status saved)).goTo trivial (by simp) (by simp)

/-- Others write to the data. -/
theorem Inv.other {s : OneTimeSt} (h : Inv job s) (path : PathBuf) :
    Inv job { s with paths := path :: s.paths, foreign := s.foreign || job.jobBackup.isPrefixOf path } := by
  have hthere : OneTimeSt.there { s with paths := path :: s.paths, foreign := s.foreign || job.jobBackup.isPrefixOf path } job.jobBackup =
      (job.jobBackup.isPrefixOf path || s.there job.jobBackup) := List.any_cons
  refine ⟨h.once, h.phase, fun hran => ?_, fun hany => ?_, h.unexecuted, h.never⟩
  · rw [hthere, h.ran hran, Bool.or_true]
  · rw [hthere, Bool.or_eq_true] at hany
    cases hany with
    | inl hpath =>
      right
      show (s.foreign || job.jobBackup.isPrefixOf path) = true
      rw [hpath, Bool.or_true]
    | inr hs =>
      refine (h.known hs).imp_right fun hforeign => ?_
      show (s.foreign || job.jobBackup.isPrefixOf path) = true
      rw [hforeign, Bool.true_or]

theorem Inv.phaseOf {s : OneTimeSt} (h : Inv job s) {p : RunnerPhase} (hp : s.phase = some p) : PhaseOk s (some p) := hp ▸ h.phase

theorem Inv.step {s s' : OneTimeSt} {a : OneTimeAct} (h : Inv job s) (hs : job.step s a = some s') : Inv job s' := by
  cases a with
  | start =>
    obtain ⟨-, heq⟩ := Option.ite_none_right_eq_some.mp hs
    cases heq
    exact h.goTo trivial (by simp) (by simp)
  | advance fault =>
    obtain ⟨p, hp, hadvance⟩ := Option.bind_eq_some_iff.mp hs
    exact h.advance hp hadvance
  | unknownUser =>
    obtain ⟨-, heq⟩ := Option.ite_none_right_eq_some.mp hs
    cases heq
    exact (h.files s.backup (.whole (.finished none "cant run: user not found"))).goTo (p := some .backingUp) trivial (by simp) (by simp)
  | launch =>
    obtain ⟨hlooping, heq⟩ := Option.ite_none_right_eq_some.mp hs
    cases heq
    have hruns : s.runs ≠ 0 := h.phaseOf hlooping
    refine ⟨h.once, hruns, fun _ => h.ran (.inl hruns), h.known, fun hr => (hruns hr).elim, fun hnever => ?_⟩
    rw [(h.never hnever).2 hlooping]
    exact ⟨Nat.le_refl 1, by simp⟩
  | spawnFailed message exceeded saved =>
    obtain ⟨hlooping, heq⟩ := Option.ite_none_right_eq_some.mp hs
    cases heq
    exact h.stopped (h.phaseOf hlooping) _ _ _ _
  | exited exitCode message exceeded saved =>
    obtain ⟨hwaiting, heq⟩ := Option.ite_none_right_eq_some.mp hs
    cases heq
    exact h.stopped (h.phaseOf hwaiting) _ _ _ _
  | stopRun =>
    obtain ⟨-, heq⟩ := Option.ite_none_right_eq_some.mp hs
    cases heq
    exact h.goTo trivial (by simp) (by simp)
  | kill =>
    cases hs
    exact h.over
  | upgrade =>
    cases hs
    exact (h.files s.backup .missing).over
  | other path =>
    cases hs
    exact h.other path

/-! ## Once -/

/-- A start that nothing cuts short comes to the body when there is no directory. -/
theorem cleanStart_executes {s : OneTimeSt} (hphase : s.phase = none) (hthere : s.there job.jobBackup = false) :
    ∃ s', run job.step s cleanStart = some s' ∧ s'.executions = s.executions + 1 := by
  unfold OneTimeSt.there at hthere
  simp [cleanStart, run, OneTimeJob.step, OneTimeJob.advance, goOn, OneTimeSt.there, Fault.cutOr, hphase, hthere]

/-- **A one-time job is run at most once**, and executed more than once only by its retries; a start that nothing cuts short executes it
if no start of it was made before, and nothing was put at the place of its directory. -/
theorem one_time (job : OneTimeJob) {acts : List OneTimeAct} {s : OneTimeSt} (hrun : run job.step .init acts = some s) :
    s.runs ≤ 1 ∧ (s.runs = 0 → s.executions = 0) ∧ (job.restart = .never → s.executions ≤ 1) ∧
      (s.phase = none → s.marked = false → s.foreign = false →
        ∃ s', run job.step s cleanStart = some s' ∧ s'.executions = s.executions + 1) := by
  have h : Inv job s := run_invariant_all job.step (fun _ _ _ h hs => Inv.step h hs) inv_init hrun
  refine ⟨h.once, h.unexecuted, fun hnever => (h.never hnever).1, fun hphase hmarked hforeign => ?_⟩
  have hthere : s.there job.jobBackup = false := by
    cases hthere : s.there job.jobBackup with
    | false => rfl
    | true =>
      cases h.known hthere with
      | inl hm => rw [hm] at hmarked; cases hmarked
      | inr hf => rw [hf] at hforeign; cases hforeign
  exact cleanStart_executes hphase hthere

def initKeys (restart : Engine.RestartPolicy) : OneTimeJob := ⟨"init-keys", ["blockjoy"], restart, false⟩

theorem one_time_upgraded : ∃ s, run (initKeys .never).step .init
    (cleanStart ++ [.exited (some 0) "" false .whole, .advance .none, .upgrade, .start, .advance .none, .advance .none]) = some s ∧
      s.executions = 1 ∧ s.phase = none ∧ s.runs ≤ 1 :=
  ⟨_, rfl, rfl, rfl, (@one_time (initKeys .never)
    (cleanStart ++ [.exited (some 0) "" false .whole, .advance .none, .upgrade, .start, .advance .none, .advance .none]) _ rfl).1⟩

/-- A job that fails is executed again by its retries, and one whose runner dies before the body is not at all. -/
theorem one_time_otherwise :
    (¬ ∀ (job : OneTimeJob) (acts : List OneTimeAct) (s : OneTimeSt), run job.step .init acts = some s → s.executions ≤ 1) ∧
    ¬ ∀ (job : OneTimeJob) (acts : List OneTimeAct) (s : OneTimeSt), run job.step .init acts = some s → s.phase = none →
      s.executions = 0 → ∃ s', run job.step s cleanStart = some s' ∧ s'.executions = 1 := by
  constructor
  · intro h
    have htwice := h (initKeys (.onFailure ⟨600000, 500, none⟩)) (cleanStart ++ [.exited (some 1) "failed" false .whole, .launch]) _ rfl
    revert htwice
    decide
  · intro h
    obtain ⟨s', hrun, -⟩ := h (initKeys .never) [.start, .advance .none, .advance .none, .kill] _ rfl rfl rfl
    cases hrun

end OneTimeJob

end Blockvisor
