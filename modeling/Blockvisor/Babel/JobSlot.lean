/-
A job of the jobs manager (`jobs::Job`, and what `jobs_manager.rs` does to one
job): its entry in the registry, its config and status files, and the runner
processes that live under its name. A process is known by the number of its
start; the process table of the source is searched by name.

Every operation is a computation on the slot of one job. It meets faults in
the order of its file and process operations: any of them may fail, or the
process may be killed there. `byRunner`, `halted`, `asked` and `last` are
ghosts, of which no operation reads any.
-/
import Blockvisor.Babel.Engine
import Blockvisor.Lib.Effect

namespace Blockvisor

/-- When a runner starts its job again; how it backs off is the runner's affair. -/
inductive RestartPolicy where
  | never
  | always
  | onFailure
  deriving DecidableEq

structure JobConfig where
  restart : RestartPolicy
  needs : Option (List String)
  waitFor : Option (List String)
  deriving DecidableEq

def JobConfig.waitingFor (config : JobConfig) : List String := config.needs.getD [] ++ config.waitFor.getD []

inductive JobState where
  | active (pid : Nat)
  | inactive (status : JobStatus)
  deriving DecidableEq

structure Job where
  config : JobConfig
  state : JobState
  deriving DecidableEq

/-- The job is over: its runner finished, or it was stopped. -/
def JobStatus.decided : JobStatus → Bool
  | .finished .. => true
  | .stopped => true
  | _ => false

def JobState.decided : JobState → Bool
  | .active _ => false
  | .inactive status => status.decided

/-- The registry entry, the files and the runners of a job, and the number of its next runner.
Ghosts: whether a runner wrote the status file last; whether the last stop, create or skip that
returned Ok came after every start; whether the last of them all was a start that returned Ok; and
the state the job had when babel last went down. -/
structure JobSlot where
  job : Option Job
  config : Doc JobConfig
  status : Doc JobStatus
  runners : List Nat
  next : Nat
  byRunner : Bool
  halted : Bool
  asked : Bool
  last : Option JobState
  deriving DecidableEq

def JobSlot.init : JobSlot := ⟨none, .missing, .missing, [], 0, false, false, false, none⟩

abbrev SlotM := Effect String JobSlot

/-- A status a runner saves, and where the write is cut. -/
structure RunnerSave where
  exitCode : Option Int
  message : String
  cut : DocCut

/-- What becomes of a runner that is told to end: what it saves before, and whether it ends; the cut
tells whether it has ended when babel is killed. -/
structure TerminateEnv where
  saved : Option RunnerSave
  fault : Fault Bool

/-- What a stop or a skip meets. -/
structure HaltEnv where
  terminate : TerminateEnv
  save : Fault DocCut

structure CreateEnv where
  terminate : TerminateEnv
  mkdir : Fault Unit
  save : Fault DocCut
  saveConfig : Fault DocCut

/-- What the start of a runner meets: the removal of the status file, the spawning of the process,
and the write of the status if that fails. -/
structure RunnerEnv where
  clear : Fault DocCut
  spawn : Fault Bool
  save : Fault DocCut

namespace JobSlot

open Effect

def activePid (s : JobSlot) : Option Nat :=
  match s.job with
  | some job =>
    match job.state with
    | .active pid => some pid
    | .inactive _ => none
  | none => none

def withState (s : JobSlot) (state : JobState) : JobSlot := { s with job := s.job.map fun job => { job with state } }

def setState (state : JobState) : SlotM Unit := modify (·.withState state)

/-! ## The status file -/

def writeStatus (s : JobSlot) (status : JobStatus) (cut : DocCut) (byRunner : Bool) : JobSlot :=
  if cut = .untouched then s else { s with status := s.status.write status cut, byRunner }

def removeStatus (s : JobSlot) (cut : DocCut) : JobSlot :=
  if cut = .untouched then s else { s with status := .missing, byRunner := false }

def saveStatusFile (status : JobStatus) (fault : Fault DocCut) : SlotM Unit := fun s =>
  (fault.result "failed to save job status", s.writeStatus status (fault.cutOr .whole) false)

/-- `clear_status`; the file is there or it is not. -/
def clearStatus (fault : Fault DocCut) : SlotM Unit := fun s =>
  if s.status = .missing then (.ok (), s)
  else (fault.result "failed to remove job status", s.removeStatus (fault.cutOr .whole))

/-- `save_status` of a job in a state. -/
def saveStatus (state : JobState) (fault : Fault DocCut) : SlotM Unit :=
  match state with
  | .active _ => pure ()
  | .inactive .running => clearStatus fault
  | .inactive status => saveStatusFile status fault

def saveConfig (config : JobConfig) (fault : Fault DocCut) : SlotM Unit := fun s =>
  (fault.result "can't save job config to file", { s with config := s.config.write config (fault.cutOr .whole) })

/-! ## Runners -/

def runnerSaves (s : JobSlot) (save : RunnerSave) : JobSlot :=
  s.writeStatus (.finished save.exitCode save.message) save.cut true

def runnerEnds (s : JobSlot) (pid : Nat) : JobSlot := { s with runners := s.runners.filter (· ≠ pid) }

def spawnRunner (s : JobSlot) : JobSlot := { s with runners := s.runners ++ [s.next], next := s.next + 1 }

/-- A runner that is told to end may save a status before it does. -/
def lastWords (env : TerminateEnv) : SlotM Unit :=
  match env.saved with
  | some save => modify (·.runnerSaves save)
  | none => pure ()

/-- `terminate_job_process`: nothing is to be done when the process is gone. -/
def terminateJobProcess (name : String) (pid : Nat) (env : TerminateEnv) : SlotM Unit := do
  let runners ← gets (·.runners)
  if pid ∈ runners then
    lastWords env
    match env.fault with
    | .none => modify (·.runnerEnds pid)
    | .error _ => throw s!"Failed to terminate job_runner for '{name}' job (pid {pid}), timeout expired!"
    | .killed ended => do
      when (ended = true) (modify (·.runnerEnds pid))
      kill
  else pure ()

/-- `kill_all_processes`, on the runners of the job. -/
def killAllProcesses (env : TerminateEnv) : SlotM Unit := do
  lastWords env
  match env.fault with
  | .killed false => kill
  | .killed true => do modify fun s => { s with runners := [] }; kill
  | _ => modify fun s => { s with runners := [] }

/-- `start_job_runner`. -/
def startJobRunner (fault : Fault Bool) : SlotM Nat := do
  let pid ← gets (·.next)
  match fault with
  | .none => do modify spawnRunner; pure pid
  | .error _ => throw "missing job runner binary"
  | .killed spawned => do
    when (spawned = true) (modify spawnRunner)
    kill

/-! ## Client operations -/

/-- The runner of a job that is active is terminated. -/
def terminateActive (name : String) (env : TerminateEnv) : SlotM Unit := do
  match ← gets (·.activePid) with
  | some pid => terminateJobProcess name pid env
  | none => pure ()

/-- The part of `create` about the job itself; there may be no room for another. -/
def create (name : String) (config : JobConfig) (room : Bool) (env : CreateEnv) : SlotM Unit := do
  let job ← gets (·.job)
  when (job = none ∧ room = false) (throw "Exceeded max number of supported jobs: 16")
  terminateActive name env.terminate
  fun s => (env.mkdir.result "failed to create job dir", s)
  saveStatus (.inactive .stopped) env.save
  saveConfig config env.saveConfig
  modify fun s => { s with job := some ⟨config, .inactive .stopped⟩ }

/-- `start`; whether the manager is told. -/
def start (name : String) (save : Fault DocCut) : SlotM Bool := do
  match ← gets (·.job) with
  | none => throw s!"can't start, job '{name}' not found"
  | some job =>
    match job.state with
    | .active _ => pure false
    | .inactive _ => do
      let state := .inactive (.pending job.config.waitingFor)
      setState state
      saveStatus state save
      pure true

/-- A job's runner is terminated, and its status set and saved. -/
def halt (name : String) (status : JobStatus) (env : HaltEnv) : SlotM Unit := do
  let job ← gets (·.job)
  when (job = none) (throw s!"can't stop, job '{name}' not found")
  terminateActive name env.terminate
  setState (.inactive status)
  saveStatus (.inactive status) env.save

def stopJob (name : String) (env : HaltEnv) : SlotM Unit := halt name .stopped env

def skip (name : String) (env : HaltEnv) : SlotM Unit := halt name (.finished (some 0) "Skipped") env

def endRunner (name : String) (pid : Nat) (force : Bool) (env : TerminateEnv) : SlotM Unit :=
  if force then killAllProcesses env else terminateJobProcess name pid env

/-- What `shutdown` does to one job: it is to be started again by the next manager. -/
def shutdown (name : String) (force : Bool) (env : TerminateEnv) : SlotM Unit := do
  match ← gets (·.activePid) with
  | some pid => do
    endRunner name pid force env
    setState (.inactive .running)
  | none => pure ()

/-! ## What the manager does -/

/-- A job fails before it is started: that is its status, saved unless the write fails. -/
def fail (message : String) (save : Fault DocCut) : SlotM Unit := do
  let state := .inactive (.finished none message)
  setState state
  let _ ← attempt (saveStatus state save)

def startJob (name : String) (env : RunnerEnv) : SlotM Unit := do
  match ← attempt (clearStatus env.clear) with
  | .error _ => setState (.inactive .running)
  | .ok () =>
    match ← attempt (startJobRunner env.spawn) with
    | .ok pid => setState (.active pid)
    | .error err => fail s!"failed to start job '{name}': {err}" env.save

/-- The status a stopped job is taken to have: what its file says. -/
def stoppedStatus (name : String) (config : JobConfig) (status : Doc JobStatus) : JobStatus :=
  match status.load, config.restart with
  | some status, _ => status
  | none, .never => .finished none s!"can't load job '{name}' status from file after it stopped, with: Failed to read job status file"
  | none, _ => .running

def handleStoppedJob (name : String) (env : RunnerEnv) : SlotM Unit := do
  let s ← gets id
  match s.job with
  | none => pure ()
  | some job =>
    let status := stoppedStatus name job.config s.status
    if status.decided then setState (.inactive status) else startJob name env

/-- `update_active_jobs`, on one job; `ps` are its runners in the list of processes. -/
def updateActiveJob (name : String) (ps : List Nat) (env : RunnerEnv) : SlotM Unit := do
  match ← gets (·.activePid) with
  | some pid => if pid ∈ ps then pure () else handleStoppedJob name env
  | none => pure ()

def debugExitCode : Option Int → String
  | none => "None"
  | some code => s!"Some({code})"

/-- The jobs a job needs have finished with exit code 0. -/
def needsFinished (name : String) (deps : String → Option Job) : List String → Except String Bool
  | [] => .ok true
  | needed :: rest =>
    match deps needed with
    | none => .error s!"job '{name}' needs '{needed}', but it is not defined"
    | some job =>
      match job.state with
      | .inactive (.finished exitCode message) =>
        if exitCode = some 0 then needsFinished name deps rest
        else
          let code := debugExitCode exitCode
          .error s!"job '{name}' needs '{needed}', but it failed with {code} - {message}"
      | .inactive .stopped => .error s!"job '{name}' needs '{needed}', but it was stopped"
      | _ => .ok false

/-- The jobs a job waits for have finished or were stopped. -/
def waitsFinished (name : String) (deps : String → Option Job) : List String → Except String Bool
  | [] => .ok true
  | waited :: rest =>
    match deps waited with
    | none => .error s!"job '{name}' waits for '{waited}', but it is not defined"
    | some job => if job.state.decided then waitsFinished name deps rest else .ok false

def depsFinished (name : String) (deps : String → Option Job) (config : JobConfig) : Except String Bool :=
  match needsFinished name deps (config.needs.getD []) with
  | .ok true => waitsFinished name deps (config.waitFor.getD [])
  | result => result

/-- `check_inactive_jobs`, on one job. -/
def checkInactiveJob (name : String) (deps : String → Option Job) (env : RunnerEnv) : SlotM Unit := do
  match ← gets (·.job) with
  | none => pure ()
  | some job =>
    match job.state with
    | .inactive (.pending _) =>
      match depsFinished name deps job.config with
      | .ok true => startJob name env
      | .ok false => pure ()
      | .error err => fail err env.save
    | .inactive .running => handleStoppedJob name env
    | _ => pure ()

/-- `load_jobs`, on one job; a config that cannot be read is removed, or that fails. -/
def load (s : JobSlot) (removed : Bool) : JobSlot :=
  match s.config with
  | .missing => s
  | .torn => if removed then { s with config := .missing } else s
  | .whole config =>
    let state :=
      match s.runners.head? with
      | some pid => .active pid
      | none => .inactive (s.status.load.getD (.pending []))
    { s with job := some ⟨config, state⟩ }

end JobSlot

end Blockvisor
