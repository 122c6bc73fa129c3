/-
The jobs manager of babel (`jobs_manager.rs`): a registry of jobs behind a
lock, clients that change it, and a manager that in passes takes care of jobs
whose runner ended and starts those that are due.

`JobsSt.step` takes the system one step further, in any interleaving. A client
operation is one lock section; that of a shutdown comes some time after its
change of the manager's state. The manager checks that state, and lists the
processes, before it waits for the lock; under it a pass has two halves, and
the jobs as they are between the two are its snapshot of statuses. Runners
save, end and outlive babel on their own. Babel is killed at any file or
process operation, or between two steps.

`down`, `passed` and `loads` are ghosts: whether a shutdown returned Ok with no
startup since, what the passes came to, and what was loaded.
-/
import Blockvisor.Babel.JobSlot
import Blockvisor.Lib.Machine

namespace Blockvisor

open Effect Machine

inductive JobsManagerState where
  | notReady
  | ready
  | shutdown
  deriving DecidableEq

/-- Where the manager is: before its loop, about to check its state, on its way to the lock with the
processes it lists on it, under the lock between the halves of a pass, waiting for a client or for
one of the processes watched (or, when they cannot be, for a timer), or gone. -/
inductive ManagerPhase where
  | starting
  | checking
  | committed (ps : Option (String → List Nat))
  | examined
  | idle
  | monitoring (watched : Option (List (String × Nat)))
  | gone

def ManagerPhase.waits : ManagerPhase → Bool
  | .idle => true
  | .monitoring _ => true
  | _ => false

/-- What a half of a pass came to for a job: the job before, the snapshot of the registry, whether a
runner was started, and the state after. -/
structure JobEvent where
  name : String
  job : Job
  deps : String → Option Job
  started : Bool
  after : Option JobState
  down : Bool
  halted : Bool

/-- A job loaded, or lost: the state it had before, and has after; the ghosts are those of its slot. -/
structure LoadEvent where
  name : String
  before : Option JobState
  after : Option JobState
  asked : Bool
  byRunner : Bool

structure JobsSt where
  slots : String → JobSlot
  known : List String
  up : Bool
  names : List String
  nodeEnv : Bool
  managerState : JobsManagerState
  phase : ManagerPhase
  jobStarted : Bool
  stateChanged : Bool
  shutdowns : List Bool
  down : Bool
  passed : List JobEvent
  loads : List LoadEvent

/-- What a load of the jobs meets: the order of the directory's entries, the number of entries after
which it cannot be read on, and the configs whose removal succeeds. -/
structure LoadEnv where
  order : List String
  failsAfter : Option Nat
  removed : String → Bool

/-- What a manager waits for. -/
inductive WakeUp where
  | jobStarted
  | stateChanged
  | ended (name : String) (pid : Nat)
  | timer

inductive JobsAct where
  | boot (ready : Bool) (env : LoadEnv)
  | crash
  | create (name : String) (config : JobConfig) (env : CreateEnv)
  | start (name : String) (save : Fault DocCut)
  | stop (name : String) (env : HaltEnv)
  | stopAll (order : List String) (env : String → HaltEnv)
  | skip (name : String) (env : HaltEnv)
  | cleanup (name : String) (outcome : Except String Unit)
  | startup (env : LoadEnv)
  | beginShutdown (force : Bool)
  | endShutdown (i : Nat) (order : List String) (env : String → TerminateEnv)
  | check (seen : Bool)
  | listProcesses
  | updateActive (order : List String) (env : String → RunnerEnv)
  | checkInactive (order : List String) (env : String → RunnerEnv) (watch : Bool)
  | wake (by_ : WakeUp)
  | runnerSaves (name : String) (pid : Nat) (save : RunnerSave)
  | runnerEnds (name : String) (pid : Nat)

abbrev JobsM := Effect String JobsSt

namespace JobsSt

def init : JobsSt where
  slots := fun _ => .init
  known := []
  up := false
  names := []
  nodeEnv := false
  managerState := .notReady
  phase := .gone
  jobStarted := false
  stateChanged := false
  shutdowns := []
  down := false
  passed := []
  loads := []

/-! ## The registry -/

def setSlot (s : JobsSt) (name : String) (slot : JobSlot) : JobsSt :=
  { s with slots := fun n => if n = name then slot else s.slots n }

def register (names : List String) (name : String) : List String := if name ∈ names then names else names ++ [name]

/-- The jobs of the registry. -/
def deps (s : JobsSt) : String → Option Job := fun name => (s.slots name).job

def onSlot {α : Type} (name : String) (m : SlotM α) : Effect String JobsSt α :=
  zoom (·.slots name) (fun slot s => s.setSlot name slot) m

/-- Babel is gone: of a job are left its files and its runners. -/
def forget (slot : JobSlot) : JobSlot :=
  { slot with job := none, last := (slot.job.map (·.state)).or slot.last }

def crash (s : JobsSt) : JobsSt :=
  { s with
    slots := fun n => forget (s.slots n)
    up := false
    names := []
    nodeEnv := false
    managerState := .notReady
    phase := .gone
    jobStarted := false
    stateChanged := false
    shutdowns := [] }

/-- What an operation comes to. -/
def settle {α : Type} (r : Except (Exit String) α × JobsSt) (ok : α → JobsSt → JobsSt) : JobsSt :=
  match r with
  | (.ok a, s) => ok a s
  | (.error (.error _), s) => s
  | (.error .killed, s) => s.crash

/-! ## Loading -/

/-- A directory entry of `load_jobs`. -/
def loadOne (env : LoadEnv) (s : JobsSt) (name : String) : JobsSt :=
  let before := s.slots name
  let slot := before.load (env.removed name)
  let event : LoadEvent :=
    ⟨name, (before.job.map (·.state)).or before.last, slot.job.map (·.state), slot.asked, slot.byRunner⟩
  { s.setSlot name { slot with last := none } with
    names := if slot.job.isSome then register s.names name else s.names
    loads := s.loads ++ [event] }

def loadJobs (s : JobsSt) (env : LoadEnv) : Except (Exit String) Unit × JobsSt :=
  match env.failsAfter with
  | none => (.ok (), env.order.foldl (loadOne env) s)
  | some n => (.error (.error "failed to read jobs registry entry"), (env.order.take n).foldl (loadOne env) s)

/-! ## Client operations -/

/-- Operations take turns at the lock; during a pass the manager has it. -/
def unlocked (s : JobsSt) : Bool :=
  match s.phase with
  | .examined => false
  | _ => s.up

/-- The registry is full with as many jobs. -/
def maxJobs : Nat := 16

/-- Ghost: a client operation that is no start was called, and later returned Ok. -/
def halting (name : String) (s : JobsSt) : JobsSt := s.setSlot name { s.slots name with asked := false }

def halted (name : String) (s : JobsSt) : JobsSt := s.setSlot name { s.slots name with halted := true }

def create (s : JobsSt) (name : String) (config : JobConfig) (env : CreateEnv) : JobsSt :=
  let s := halting name { s with known := register s.known name }
  settle (onSlot name (JobSlot.create name config (s.names.length < maxJobs) env) s) fun _ s =>
    halted name { s with names := register s.names name }

/-- Ghost: a start that finds the job inactive counts as asked for when it returns Ok. -/
def start (s : JobsSt) (name : String) (save : Fault DocCut) : JobsSt :=
  let active := (s.slots name).activePid.isSome
  let s := s.setSlot name { s.slots name with halted := false, asked := (s.slots name).asked && active }
  settle (onSlot name (JobSlot.start name save) s) fun sent s =>
    { s.setSlot name { s.slots name with asked := (s.slots name).asked || sent } with
      jobStarted := s.jobStarted || sent }

def stop (s : JobsSt) (name : String) (env : HaltEnv) : JobsSt :=
  settle (onSlot name (JobSlot.stopJob name env) (halting name s)) fun _ s => halted name s

def skip (s : JobsSt) (name : String) (env : HaltEnv) : JobsSt :=
  settle (onSlot name (JobSlot.skip name env) (halting name s)) fun _ s => halted name s

/-- `stop_all`: the first job that cannot be stopped ends it. -/
def stopAll (s : JobsSt) (order : List String) (env : String → HaltEnv) : JobsSt :=
  let s := order.foldl (fun s name => halting name s) s
  settle ((order.forM fun name => onSlot name (JobSlot.stopJob name (env name)) : JobsM Unit) s) fun _ s =>
    order.foldl (fun s name => halted name s) s

/-- `cleanup` is about files of an archive job that are not modelled here. -/
def cleanup (name : String) (outcome : Except String Unit) : JobsM Unit := do
  let s ← gets id
  match (s.slots name).job with
  | none => throw s!"can't cleanup, job '{name}' not found"
  | some job =>
    if s.nodeEnv then
      match job.state with
      | .inactive _ => ofExcept outcome
      | .active _ => throw s!"can't cleanup active job '{name}'"
    else throw s!"can't cleanup, job '{name}', missing node_env"

/-- The manager's state is sent to the manager, unless that is gone. -/
def sendState (s : JobsSt) (state : JobsManagerState) : JobsSt :=
  match s.phase with
  | .gone => s
  | _ => { s with managerState := state, stateChanged := true }

/-- `startup`; it fails when there is no manager to tell. -/
def startup (s : JobsSt) (env : LoadEnv) : JobsSt :=
  settle (loadJobs { s with nodeEnv := true } env) fun _ s =>
    match s.phase with
    | .gone => s
    | _ => { s.sendState .ready with down := false }

def beginShutdown (s : JobsSt) (force : Bool) : JobsSt :=
  { s.sendState .shutdown with shutdowns := s.shutdowns ++ [force] }

/-- The lock section of `shutdown`. -/
def endShutdown (s : JobsSt) (i : Nat) (force : Bool) (order : List String) (env : String → TerminateEnv) : JobsSt :=
  let s := { s with shutdowns := s.shutdowns.eraseIdx i }
  settle ((order.forM fun name => onSlot name (JobSlot.shutdown name force (env name)) : JobsM Unit) s) fun _ s =>
    { s with down := true }

/-! ## Passes -/

/-- A half of a pass on one job, with its event. -/
def examine (name : String) (deps : String → Option Job) (m : SlotM Unit) : JobsM Unit := fun s =>
  let (r, s') := onSlot name m s
  let before := s.slots name
  let after := s'.slots name
  match before.job with
  | none => (r, s')
  | some job =>
    let event : JobEvent :=
      ⟨name, job, deps, before.next < after.next, after.job.map (·.state), s.down, before.halted⟩
    (r, { s' with passed := s'.passed ++ [event] })

/-- `update_active_jobs`. -/
def updateActiveJobs (s : JobsSt) (ps : String → List Nat) (order : List String) (env : String → RunnerEnv) : JobsSt :=
  settle ((order.forM fun name => examine name s.deps (JobSlot.updateActiveJob name (ps name) (env name)) : JobsM Unit) s)
    fun _ s => { s with phase := .examined }

/-- The runners of the jobs that are active. -/
def activePids (s : JobsSt) : List (String × Nat) :=
  s.names.filterMap fun name => (s.slots name).activePid.map fun pid => (name, pid)

/-- `check_inactive_jobs`, and what the manager waits for after it. -/
def checkInactiveJobs (s : JobsSt) (order : List String) (env : String → RunnerEnv) (watch : Bool) : JobsSt :=
  settle ((order.forM fun name => examine name s.deps (JobSlot.checkInactiveJob name s.deps (env name)) : JobsM Unit) s)
    fun _ s =>
      { s with phase :=
        if s.activePids.isEmpty then .idle else .monitoring (if watch then some s.activePids else none) }

/-- The manager checks its state; before its loop it may have seen the change it waited for. -/
def check (s : JobsSt) (seen : Bool) : Option JobsSt :=
  match s.phase with
  | .starting =>
    if s.managerState = .notReady then none
    else some { s with phase := .checking, stateChanged := s.stateChanged && !seen }
  | .checking =>
    if s.managerState = .ready then some { s with phase := .committed none } else some { s with phase := .gone }
  | _ => none

/-- A process is watched that has ended. -/
def ended (s : JobsSt) (watched : Option (List (String × Nat))) (name : String) (pid : Nat) : Bool :=
  match watched with
  | some watched => decide ((name, pid) ∈ watched ∧ pid ∉ (s.slots name).runners)
  | none => false

def wake (s : JobsSt) (wakeUp : WakeUp) : Option JobsSt :=
  match s.phase, wakeUp with
  | .idle, .jobStarted => if s.jobStarted then some { s with phase := .checking, jobStarted := false } else none
  | .idle, .stateChanged => if s.stateChanged then some { s with phase := .checking, stateChanged := false } else none
  | .monitoring _, .jobStarted => if s.jobStarted then some { s with phase := .checking, jobStarted := false } else none
  | .monitoring _, .stateChanged =>
    if s.stateChanged then some { s with phase := .checking, stateChanged := false } else none
  | .monitoring watched, .ended name pid => if s.ended watched name pid then some { s with phase := .checking } else none
  | .monitoring none, .timer => some { s with phase := .checking }
  | _, _ => none

/-! ## Steps -/

/-- Babel starts; with its config applied, the manager is ready and the jobs are loaded. -/
def boot (s : JobsSt) (ready : Bool) (env : LoadEnv) : JobsSt :=
  let s := { s with up := true, nodeEnv := ready, phase := .starting, down := false }
  if ready then
    match loadJobs s env with
    | (.ok (), s) => { s with managerState := .ready }
    | (.error _, s) => s.crash
  else s

def step (s : JobsSt) : JobsAct → Option JobsSt
  | .boot ready env => if s.up = false ∧ env.order.Perm s.known then some (s.boot ready env) else none
  | .crash => if s.up then some s.crash else none
  | .create name config env => if s.unlocked then some (s.create name config env) else none
  | .start name save => if s.unlocked then some (s.start name save) else none
  | .stop name env => if s.unlocked then some (s.stop name env) else none
  | .stopAll order env => if s.unlocked ∧ order.Perm s.names then some (s.stopAll order env) else none
  | .skip name env => if s.unlocked then some (s.skip name env) else none
  | .cleanup name outcome => if s.unlocked then some (settle (cleanup name outcome s) fun _ s => s) else none
  | .startup env => if s.unlocked ∧ env.order.Perm s.known then some (s.startup env) else none
  | .beginShutdown force => if s.up then some (s.beginShutdown force) else none
  | .endShutdown i order env =>
    match s.shutdowns[i]? with
    | some force => if s.unlocked ∧ order.Perm s.names then some (s.endShutdown i force order env) else none
    | none => none
  | .check seen => s.check seen
  | .listProcesses =>
    match s.phase with
    | .committed none => some { s with phase := .committed (some fun name => (s.slots name).runners) }
    | _ => none
  | .updateActive order env =>
    match s.phase with
    | .committed (some ps) => if order.Perm s.names then some (s.updateActiveJobs ps order env) else none
    | _ => none
  | .checkInactive order env watch =>
    match s.phase with
    | .examined => if order.Perm s.names then some (s.checkInactiveJobs order env watch) else none
    | _ => none
  | .wake wakeUp => s.wake wakeUp
  | .runnerSaves name pid save =>
    if pid ∈ (s.slots name).runners then some (s.setSlot name ((s.slots name).runnerSaves save)) else none
  | .runnerEnds name pid =>
    if pid ∈ (s.slots name).runners then some (s.setSlot name ((s.slots name).runnerEnds pid)) else none

/-! ## What a step does -/

/-- The guard of a step, and the state it leads to. -/
def Does (s s' : JobsSt) : JobsAct → Prop
  | .boot ready env => s.up = false ∧ env.order.Perm s.known ∧ s' = s.boot ready env
  | .crash => s' = s.crash
  | .create name config env => s.unlocked = true ∧ s' = s.create name config env
  | .start name save => s.unlocked = true ∧ s' = s.start name save
  | .stop name env => s.unlocked = true ∧ s' = s.stop name env
  | .stopAll order env => s.unlocked = true ∧ order.Perm s.names ∧ s' = s.stopAll order env
  | .skip name env => s.unlocked = true ∧ s' = s.skip name env
  | .cleanup .. => s' = s
  | .startup env => s.unlocked = true ∧ env.order.Perm s.known ∧ s' = s.startup env
  | .beginShutdown force => s' = s.beginShutdown force
  | .endShutdown i order env => ∃ force, s.unlocked = true ∧ order.Perm s.names ∧ s' = s.endShutdown i force order env
  | .check seen =>
    (s.phase = .starting ∧ s.managerState ≠ .notReady ∧
        s' = { s with phase := .checking, stateChanged := s.stateChanged && !seen }) ∨
      (s.phase = .checking ∧ s.managerState = .ready ∧ s' = { s with phase := .committed none }) ∨
      (s.phase = .checking ∧ s' = { s with phase := .gone })
  | .listProcesses =>
    s.phase = .committed none ∧ s' = { s with phase := .committed (some fun name => (s.slots name).runners) }
  | .updateActive order env => ∃ ps, s.phase = .committed (some ps) ∧ order.Perm s.names ∧ s' = s.updateActiveJobs ps order env
  | .checkInactive order env watch => s.phase = .examined ∧ order.Perm s.names ∧ s' = s.checkInactiveJobs order env watch
  | .wake _ => s.phase.waits = true ∧ ∃ jobStarted stateChanged, s' = { s with phase := .checking, jobStarted, stateChanged }
  | .runnerSaves name pid save => pid ∈ (s.slots name).runners ∧ s' = s.setSlot name ((s.slots name).runnerSaves save)
  | .runnerEnds name pid => pid ∈ (s.slots name).runners ∧ s' = s.setSlot name ((s.slots name).runnerEnds pid)

/-- A cleanup changes nothing that is modelled. -/
theorem cleanup_run (s : JobsSt) (name : String) (outcome : Except String Unit) :
    settle (cleanup name outcome s) (fun _ s => s) = s := by
  have hsame : Keeps (· = s) (fun _ => False) (cleanup name outcome) := by
    refine Triple.bind (R := fun _ => (· = s)) (Triple.gets.post fun _ _ h => h.2) fun t => ?_
    split
    · exact Keeps.throw
    split
    · split
      · exact Keeps.ofExcept
      · exact Keeps.throw
    · exact Keeps.throw
  have h := hsame s rfl
  unfold settle
  revert h
  cases cleanup name outcome s with
  | mk r t =>
    cases r with
    | ok a => exact id
    | error e =>
      cases e with
      | error e => exact id
      | killed => exact False.elim

theorem step_does {s s' : JobsSt} {act : JobsAct} (hs : s.step act = some s') : Does s s' act := by
  cases act with
  | boot ready env =>
    simp only [step] at hs
    split at hs <;> cases hs
    rename_i hguard
    exact ⟨hguard.1, hguard.2, rfl⟩
  | crash =>
    simp only [step] at hs
    split at hs <;> cases hs
    rfl
  | create name config env =>
    simp only [step] at hs
    split at hs <;> cases hs
    exact ⟨‹_›, rfl⟩
  | start name save =>
    simp only [step] at hs
    split at hs <;> cases hs
    exact ⟨‹_›, rfl⟩
  | stop name env =>
    simp only [step] at hs
    split at hs <;> cases hs
    exact ⟨‹_›, rfl⟩
  | stopAll order env =>
    simp only [step] at hs
    split at hs <;> cases hs
    rename_i hguard
    exact ⟨hguard.1, hguard.2, rfl⟩
  | skip name env =>
    simp only [step] at hs
    split at hs <;> cases hs
    exact ⟨‹_›, rfl⟩
  | cleanup name outcome =>
    simp only [step] at hs
    split at hs <;> cases hs
    exact cleanup_run s name outcome
  | startup env =>
    simp only [step] at hs
    split at hs <;> cases hs
    rename_i hguard
    exact ⟨hguard.1, hguard.2, rfl⟩
  | beginShutdown force =>
    simp only [step] at hs
    split at hs <;> cases hs
    rfl
  | endShutdown i order env =>
    simp only [step] at hs
    split at hs
    · split at hs <;> cases hs
      rename_i hguard
      exact ⟨_, hguard.1, hguard.2, rfl⟩
    · cases hs
  | check seen =>
    simp only [step, check] at hs
    split at hs
    · split at hs <;> cases hs
      exact .inl ⟨‹_›, ‹_›, rfl⟩
    · split at hs <;> cases hs
      · exact .inr (.inl ⟨‹_›, ‹_›, rfl⟩)
      · exact .inr (.inr ⟨‹_›, rfl⟩)
    · cases hs
  | listProcesses =>
    simp only [step] at hs
    split at hs <;> cases hs
    exact ⟨‹_›, rfl⟩
  | updateActive order env =>
    simp only [step] at hs
    split at hs
    · split at hs <;> cases hs
      exact ⟨_, ‹_›, ‹_›, rfl⟩
    · cases hs
  | checkInactive order env watch =>
    simp only [step] at hs
    split at hs
    · split at hs <;> cases hs
      exact ⟨‹_›, ‹_›, rfl⟩
    · cases hs
  | wake wakeUp =>
    simp only [step, wake] at hs
    have hwaits : ∀ {phase : ManagerPhase} {b : Bool}, s.phase = phase → phase.waits = b → s.phase.waits = b := fun h h' =>
      h ▸ h'
    split at hs
    case h_6 => cases hs; exact ⟨hwaits ‹_› rfl, _, _, rfl⟩
    case h_7 => cases hs
    all_goals
      split at hs <;> cases hs
      exact ⟨hwaits ‹_› rfl, _, _, rfl⟩
  | runnerSaves name pid save =>
    simp only [step] at hs
    split at hs <;> cases hs
    exact ⟨‹_›, rfl⟩
  | runnerEnds name pid =>
    simp only [step] at hs
    split at hs <;> cases hs
    exact ⟨‹_›, rfl⟩

end JobsSt

end Blockvisor
