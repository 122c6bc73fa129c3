/-
Whether the jobs manager comes to every job that is due. When a pass ends with
no active job, the manager waits for a client: `Attended` says that such a
pass leaves no job due for a restart and none Pending whose dependencies are
decided, and that a client that decides one afterwards wakes the manager up.

No pass starts over when it decided a job, and stop, skip and create wake
nobody. `no_job_forgotten_iff` says what runs are attended all the same: those
in which what a pass comes to for one job is not what another waits for
(`PassSettles`), and no client decides a job another waits for while the
manager is idle (`DecidesUnseen`). What a pass comes to for a job is
`checkOutcome`, by the job, its files, its dependencies and the faults.
-/
import Blockvisor.Babel.JobStarts

namespace Blockvisor

open Effect Machine

/-! ## What a pass comes to for a job -/

/-- The job is left as it is, started, left due for a restart, over, or the process is killed there. -/
inductive CheckOutcome where
  | kept
  | started
  | due
  | decided
  | killed
  deriving DecidableEq

namespace JobSlot

def decided (slot : JobSlot) : Bool := slot.job.any (·.state.decided)

def undecided (slot : JobSlot) : Bool := slot.job.any (!·.state.decided)

def isDue (slot : JobSlot) : Bool := slot.job.any (·.state = .inactive .running)

/-- What a job that is Pending waits for. -/
def awaits (slot : JobSlot) : Option (List String) :=
  match slot.job with
  | some job =>
    match job.state with
    | .inactive (.pending _) => some job.config.waitingFor
    | _ => none
  | none => none

def failOutcome (save : Fault DocCut) : CheckOutcome :=
  match save with
  | .killed _ => .killed
  | _ => .decided

def spawnOutcome (env : RunnerEnv) : CheckOutcome :=
  match env.spawn with
  | .none => .started
  | .error _ => failOutcome env.save
  | .killed _ => .killed

def startOutcome (slot : JobSlot) (env : RunnerEnv) : CheckOutcome :=
  if slot.status = .missing then spawnOutcome env
  else
    match env.clear with
    | .none => spawnOutcome env
    | .error _ => .due
    | .killed _ => .killed

def checkOutcome (name : String) (deps : String → Option Job) (slot : JobSlot) (env : RunnerEnv) : CheckOutcome :=
  match slot.job with
  | none => .kept
  | some job =>
    match job.state with
    | .inactive (.pending _) =>
      match depsFinished name deps job.config with
      | .ok true => startOutcome slot env
      | .ok false => .kept
      | .error _ => failOutcome env.save
    | .inactive .running => if (stoppedStatus name job.config slot.status).decided then .decided else startOutcome slot env
    | _ => .kept

/-- What an outcome says of the slot the pass leaves, and of whether it goes on. -/
def Comes (slot : JobSlot) (r : Except (Exit String) Unit × JobSlot) : CheckOutcome → Prop
  | .kept => r = (.ok (), slot)
  | .started => r.1 = .ok () ∧ ∃ pid, r.2.job.map (·.state) = some (.active pid)
  | .due => r.1 = .ok () ∧ r.2.job.map (·.state) = some (.inactive .running)
  | .decided => r.1 = .ok () ∧ ∃ status, r.2.job.map (·.state) = some (.inactive status) ∧ status.decided = true
  | .killed => r.1 = .error .killed

theorem Comes.of_error {slot : JobSlot} {r : Except (Exit String) Unit × JobSlot} {outcome : CheckOutcome} {e : Exit String}
    (h : Comes slot r outcome) (hr : r.1 = .error e) : outcome = .killed ∧ e = .killed := by
  cases outcome with
  | kept =>
    have hok : r = (.ok (), slot) := h
    rw [hok] at hr
    cases hr
  | started => cases hr.symm.trans h.1
  | due => cases hr.symm.trans h.1
  | decided => cases hr.symm.trans h.1
  | killed => exact ⟨rfl, Except.error.inj (hr.symm.trans h)⟩

theorem state_withState {slot : JobSlot} {job : Job} (hjob : slot.job = some job) (state : JobState) :
    (slot.withState state).job.map (·.state) = some state := by
  simp [withState, hjob]

theorem job_writeStatus (slot : JobSlot) (status : JobStatus) (cut : DocCut) (byRunner : Bool) :
    (slot.writeStatus status cut byRunner).job = slot.job := by
  unfold writeStatus
  split <;> rfl

theorem job_removeStatus (slot : JobSlot) (cut : DocCut) : (slot.removeStatus cut).job = slot.job := by
  unfold removeStatus
  split <;> rfl

theorem fail_comes {slot s : JobSlot} {job : Job} (hjob : s.job = some job) (message : String) (save : Fault DocCut) :
    Comes slot (fail message save s) (failOutcome save) := by
  have hstate : ∀ state cut, ((s.withState state).writeStatus (.finished none message) cut false).job.map (·.state) =
      some state := by
    intro state cut
    rw [job_writeStatus, state_withState hjob]
  cases save with
  | none => exact ⟨rfl, _, hstate _ .whole, rfl⟩
  | error cut => exact ⟨rfl, _, hstate _ cut, rfl⟩
  | killed cut => rfl

theorem spawn_comes {slot s : JobSlot} {job : Job} (hjob : s.job = some job) (name : String) (env : RunnerEnv) :
    Comes slot ((attempt (startJobRunner env.spawn) >>= fun spawned =>
      match spawned with
      | .ok pid => setState (.active pid)
      | .error err => fail s!"failed to start job '{name}': {err}" env.save) s) (spawnOutcome env) := by
  unfold spawnOutcome
  cases hspawn : env.spawn with
  | none =>
    have hspawned : s.spawnRunner.job = some job := hjob
    exact ⟨rfl, s.next, state_withState hspawned _⟩
  | error _ => exact fail_comes hjob _ env.save
  | killed spawned => cases spawned <;> rfl

theorem startJob_comes {slot : JobSlot} {job : Job} (hjob : slot.job = some job) (name : String) (env : RunnerEnv) :
    Comes slot (startJob name env slot) (startOutcome slot env) := by
  unfold startOutcome startJob
  by_cases hmissing : slot.status = .missing
  · have hclear : attempt (clearStatus env.clear) slot = (.ok (.ok ()), slot) := by
      unfold attempt clearStatus
      rw [if_pos hmissing]
    rw [if_pos hmissing, bind_of_ok hclear]
    exact spawn_comes hjob name env
  · rw [if_neg hmissing]
    cases hfault : env.clear with
    | none =>
      have hclear : attempt (clearStatus .none) slot = (.ok (.ok ()), slot.removeStatus .whole) := by
        unfold attempt clearStatus
        rw [if_neg hmissing]
        rfl
      rw [bind_of_ok hclear]
      exact spawn_comes ((job_removeStatus slot .whole).trans hjob) name env
    | error cut =>
      have hclear : attempt (clearStatus (.error cut)) slot =
          (.ok (.error "failed to remove job status"), slot.removeStatus cut) := by
        unfold attempt clearStatus
        rw [if_neg hmissing]
        rfl
      rw [bind_of_ok hclear]
      exact ⟨rfl, state_withState ((job_removeStatus slot cut).trans hjob) _⟩
    | killed cut =>
      have hclear : attempt (clearStatus (.killed cut)) slot = (.error .killed, slot.removeStatus cut) := by
        unfold attempt clearStatus
        rw [if_neg hmissing]
        rfl
      rw [bind_of_error hclear]
      rfl

theorem checkInactiveJob_comes (name : String) (deps : String → Option Job) (env : RunnerEnv) (slot : JobSlot) :
    Comes slot (checkInactiveJob name deps env slot) (checkOutcome name deps slot env) := by
  unfold checkInactiveJob checkOutcome
  rw [gets_bind]
  cases hjob : slot.job with
  | none => exact rfl
  | some job =>
    dsimp only
    cases hstate : job.state with
    | active pid => exact rfl
    | inactive status =>
      cases status with
      | finished exitCode message => exact rfl
      | stopped => exact rfl
      | pending waitingFor =>
        dsimp only
        cases depsFinished name deps job.config with
        | ok met =>
          cases met with
          | true => exact startJob_comes hjob name env
          | false => exact rfl
        | error err => exact fail_comes hjob err env.save
      | running =>
        dsimp only
        unfold handleStoppedJob
        rw [gets_bind]
        show Comes slot ((match slot.job with
          | none => pure ()
          | some job =>
            let status := stoppedStatus name job.config slot.status
            if status.decided then setState (.inactive status) else startJob name env : SlotM Unit) slot) _
        rw [hjob]
        dsimp only
        by_cases hdecided : (stoppedStatus name job.config slot.status).decided = true
        · rw [if_pos hdecided, if_pos hdecided]
          exact ⟨rfl, _, state_withState hjob _, hdecided⟩
        · rw [if_neg hdecided, if_neg hdecided]
          exact startJob_comes hjob name env

/-- A pass leaves alone no job that is due, and touches none that is over. -/
theorem checkOutcome_touches (name : String) (deps : String → Option Job) (slot : JobSlot) (env : RunnerEnv) :
    (checkOutcome name deps slot env = .kept → slot.isDue = false) ∧
      (checkOutcome name deps slot env ≠ .kept → slot.undecided = true ∧ slot.activePid = none) := by
  have hstart : startOutcome slot env ≠ .kept := by
    unfold startOutcome spawnOutcome failOutcome
    repeat' split
    all_goals simp
  unfold checkOutcome isDue undecided activePid
  cases slot.job with
  | none => simp
  | some job =>
    dsimp only
    cases hstate : job.state with
    | active pid => simp [hstate]
    | inactive status =>
      cases status with
      | running =>
        refine ⟨fun hkept => ?_, fun _ => by simp [hstate, JobState.decided, JobStatus.decided]⟩
        dsimp only at hkept
        split at hkept
        · cases hkept
        · exact absurd hkept hstart
      | finished exitCode message => simp [hstate]
      | pending waitingFor => simp [hstate, JobState.decided, JobStatus.decided]
      | stopped => simp [hstate]

/-- What the state of a job says of its slot. -/
theorem of_state {slot : JobSlot} {state : JobState} (h : slot.job.map (·.state) = some state) :
    (slot.activePid = none ↔ ∀ pid, state ≠ .active pid) ∧ (slot.isDue = true ↔ state = .inactive .running) ∧
      ((∀ waitingFor, state ≠ .inactive (.pending waitingFor)) → slot.awaits = none) ∧
        (slot.undecided = true ↔ state.decided = false) := by
  obtain ⟨job, hjob, rfl⟩ := Option.map_eq_some_iff.mp h
  unfold activePid isDue awaits undecided
  rw [hjob]
  cases hstate : job.state with
  | active pid => simp [hstate]
  | inactive status => cases status <;> simp [hstate]

theorem awaits_decided {slot : JobSlot} (h : slot.decided = true) : slot.awaits = none := by
  unfold decided awaits at *
  cases hjob : slot.job with
  | none => rfl
  | some job =>
    rw [hjob, Option.any_some] at h
    dsimp only
    split
    · rename_i hstate
      rw [hstate] at h
      cases h
    · rfl

/-- A job that a pass leaves not active was not active before, and was not started. -/
theorem Comes.active {slot slot' : JobSlot} {outcome : CheckOutcome} (h : Comes slot (.ok (), slot') outcome)
    (htouches : outcome ≠ .kept → slot.undecided = true ∧ slot.activePid = none) :
    slot'.activePid = none ↔ slot.activePid = none ∧ outcome ≠ .started ∧ outcome ≠ .killed := by
  cases outcome with
  | kept =>
    have hsame : slot' = slot := congrArg Prod.snd h
    simp [hsame]
  | started =>
    obtain ⟨_, pid, hstate⟩ := h
    simp [(of_state hstate).1]
  | due => simp [(of_state h.2).1, htouches]
  | decided =>
    obtain ⟨_, status, hstate, _⟩ := h
    simp [(of_state hstate).1, htouches]
  | killed => cases (h : (Except.ok () : Except (Exit String) Unit) = .error .killed)

theorem Comes.isDue {slot slot' : JobSlot} {outcome : CheckOutcome} (h : Comes slot (.ok (), slot') outcome)
    (hkept : outcome = .kept → slot.isDue = false) : slot'.isDue = true ↔ outcome = .due := by
  cases outcome with
  | kept =>
    have hsame : slot' = slot := congrArg Prod.snd h
    simp [hsame, hkept]
  | started =>
    obtain ⟨_, pid, hstate⟩ := h
    simp [(of_state hstate).2.1]
  | due => simp [(of_state h.2).2.1]
  | decided =>
    obtain ⟨_, status, hstate, hdecided⟩ := h
    have hrunning : status ≠ .running := fun heq => by
      rw [heq] at hdecided
      cases hdecided
    simp [(of_state hstate).2.1, hrunning]
  | killed => cases (h : (Except.ok () : Except (Exit String) Unit) = .error .killed)

/-- Of the jobs that are Pending after a pass it touched none. -/
theorem Comes.awaits {slot slot' : JobSlot} {outcome : CheckOutcome} (h : Comes slot (.ok (), slot') outcome)
    {deps : List String} : deps ∈ slot'.awaits ↔ outcome = .kept ∧ deps ∈ slot.awaits := by
  cases outcome with
  | kept =>
    have hsame : slot' = slot := congrArg Prod.snd h
    simp [hsame]
  | started =>
    obtain ⟨_, pid, hstate⟩ := h
    simp [(of_state hstate).2.2.1]
  | due => simp [(of_state h.2).2.2.1]
  | decided =>
    obtain ⟨_, status, hstate, hdecided⟩ := h
    have hpending : ∀ waitingFor, JobState.inactive status ≠ .inactive (.pending waitingFor) := fun waitingFor heq => by
      rw [JobState.inactive.inj heq] at hdecided
      cases hdecided
    simp [(of_state hstate).2.2.1 hpending]
  | killed => cases (h : (Except.ok () : Except (Exit String) Unit) = .error .killed)

theorem Comes.undecided {slot slot' : JobSlot} {outcome : CheckOutcome} (h : Comes slot (.ok (), slot') outcome)
    (htouches : outcome ≠ .kept → slot.undecided = true ∧ slot.activePid = none) :
    slot'.undecided = true ↔ slot.undecided = true ∧ outcome ≠ .decided := by
  cases outcome with
  | kept =>
    have hsame : slot' = slot := congrArg Prod.snd h
    simp [hsame]
  | started =>
    obtain ⟨_, pid, hstate⟩ := h
    simp [(of_state hstate).2.2.2, htouches, JobState.decided]
  | due => simp [(of_state h.2).2.2.2, htouches, JobState.decided, JobStatus.decided]
  | decided =>
    obtain ⟨_, status, hstate, hdecided⟩ := h
    simp [(of_state hstate).2.2.2, JobState.decided, hdecided]
  | killed => cases (h : (Except.ok () : Except (Exit String) Unit) = .error .killed)

end JobSlot

/-! ## What a pass comes to -/

def ManagerPhase.isIdle : ManagerPhase → Bool
  | .idle => true
  | _ => false

namespace JobsSt

/-- What a pass comes to for a job of the registry. -/
def outcome (s : JobsSt) (env : String → RunnerEnv) (name : String) : CheckOutcome :=
  JobSlot.checkOutcome name s.deps (s.slots name) (env name)

/-- Every job is over, or waits for one that is not. -/
def AllWait (s : JobsSt) : Prop :=
  ∀ n ∈ s.names, (s.slots n).isDue = false ∧
    ∀ deps ∈ (s.slots n).awaits, ∃ d ∈ deps, (s.slots d).undecided = true

/-- The manager leaves no job behind that is due, and is woken up by a client that decides a job
another waits for. -/
def AttendedBy (s : JobsSt) (act : JobsAct) (s' : JobsSt) : Prop :=
  match act with
  | .checkInactive .. => s'.phase.isIdle = true → s'.AllWait
  | .stop name _ | .skip name _ | .create name _ _ =>
    s.phase.isIdle = true → (s.slots name).undecided = true → (s'.slots name).decided = true →
      (∃ n ∈ s'.names, ∃ deps ∈ (s'.slots n).awaits, name ∈ deps) → s'.jobStarted = true ∨ s'.stateChanged = true
  | _ => True

def Attended (s : JobsSt) (act : JobsAct) : Prop := ∀ s' ∈ s.step act, s.AttendedBy act s'

/-- A pass that leaves no job active leaves none due, and decides no more jobs than it has to: each
job it keeps waits for one that is not over after it. -/
def PassSettles (s : JobsSt) (env : String → RunnerEnv) : Prop :=
  (∀ n ∈ s.names, (s.slots n).activePid = none ∧ s.outcome env n ≠ .started ∧ s.outcome env n ≠ .killed) →
    ∀ n ∈ s.names, s.outcome env n ≠ .due ∧
      (s.outcome env n = .kept → ∀ deps ∈ (s.slots n).awaits,
        ∃ d ∈ deps, (s.slots d).undecided = true ∧ s.outcome env d ≠ .decided)

/-! ### Passes -/

theorem activePids_isEmpty {s : JobsSt} : s.activePids.isEmpty = true ↔ ∀ n ∈ s.names, (s.slots n).activePid = none := by
  unfold activePids
  rw [List.isEmpty_iff, List.filterMap_eq_nil_iff]
  simp

/-- What a pass that goes through has made of the jobs. -/
structure Checked (s t : JobsSt) (env : String → RunnerEnv) : Prop where
  comes : ∀ n ∈ s.names, (s.slots n).Comes (.ok (), t.slots n) (s.outcome env n)
  others : ∀ n, n ∉ s.names → (s.slots n).job = none ∧ t.slots n = s.slots n
  names : t.names = s.names

/-- A pass goes through, or ends with the process at one of the jobs. -/
theorem checkInactiveJobs_checked {s : JobsSt} (h : Registered s) {order : List String} (hperm : order.Perm s.names)
    (env : String → RunnerEnv) (watch : Bool) :
    (∃ t, Checked s t env ∧ s.checkInactiveJobs order env watch =
        { t with phase := if t.activePids.isEmpty then .idle else .monitoring (if watch then some t.activePids else none) }) ∨
      (s.checkInactiveJobs order env watch).phase = .gone ∧ ∃ n ∈ s.names, s.outcome env n = .killed := by
  have hcomes : ∀ n, (s.slots n).Comes (JobSlot.checkInactiveJob n s.deps (env n) (s.slots n)) (s.outcome env n) := fun n =>
    JobSlot.checkInactiveJob_comes n s.deps (env n) (s.slots n)
  have ht := forM_touched (onSlots_examine s.deps fun n => JobSlot.checkInactiveJob n s.deps (env n)) s
    (hperm.nodup_iff.mpr h.nodup)
  unfold checkInactiveJobs settle
  revert ht
  cases (order.forM fun n => examine n s.deps (JobSlot.checkInactiveJob n s.deps (env n)) : JobsM Unit) s with
  | mk r t =>
    intro ht
    cases r with
    | ok _ =>
      obtain ⟨slots, passed, heq⟩ := ht.same
      refine .inl ⟨t, ⟨fun n hn => ?_, fun n hn => ⟨?_, ht.others n fun hmem => hn (hperm.mem_iff.mp hmem)⟩, ?_⟩, rfl⟩
      · obtain ⟨hslot, hended⟩ := ht.all rfl n (hperm.mem_iff.mpr hn)
        rw [hslot, ← hended]
        exact hcomes n
      · have hnone := mt (h.jobs n).mpr hn
        simpa using hnone
      · exact congrArg (·.names) heq
    | error e =>
      obtain ⟨n, hn, he⟩ := ht.failed e rfl
      obtain ⟨hkilled, heq⟩ := (hcomes n).of_error he
      subst heq
      exact .inr ⟨rfl, n, hperm.mem_iff.mp hn, hkilled⟩

theorem passSettles_iff {s : JobsSt} (h : Registered s) {order : List String} (hperm : order.Perm s.names)
    (env : String → RunnerEnv) (watch : Bool) :
    ((s.checkInactiveJobs order env watch).phase.isIdle = true → (s.checkInactiveJobs order env watch).AllWait) ↔
      s.PassSettles env := by
  rcases checkInactiveJobs_checked h hperm env watch with ⟨t, ht, heq⟩ | ⟨hgone, n, hn, hkilled⟩
  · have htouches := fun n => JobSlot.checkOutcome_touches n s.deps (s.slots n) (env n)
    have hidle : (s.checkInactiveJobs order env watch).phase.isIdle = true ↔
        ∀ n ∈ s.names, (s.slots n).activePid = none ∧ s.outcome env n ≠ .started ∧ s.outcome env n ≠ .killed := by
      have hempty : t.activePids.isEmpty = true ↔ ∀ n ∈ s.names, (t.slots n).activePid = none := by
        rw [activePids_isEmpty, ht.names]
      have hactive : (∀ n ∈ s.names, (t.slots n).activePid = none) ↔
          ∀ n ∈ s.names, (s.slots n).activePid = none ∧ s.outcome env n ≠ .started ∧ s.outcome env n ≠ .killed :=
        forall₂_congr fun n hn => (ht.comes n hn).active (htouches n).2
      rw [heq, ← hactive, ← hempty]
      cases t.activePids.isEmpty <;> simp [ManagerPhase.isIdle]
    have hundecided : ∀ d, (t.slots d).undecided = true ↔ (s.slots d).undecided = true ∧ s.outcome env d ≠ .decided := by
      intro d
      by_cases hd : d ∈ s.names
      · exact (ht.comes d hd).undecided (htouches d).2
      · obtain ⟨hnone, hsame⟩ := ht.others d hd
        simp [hsame, JobSlot.undecided, hnone]
    have hwait : (s.checkInactiveJobs order env watch).AllWait ↔ ∀ n ∈ s.names, s.outcome env n ≠ .due ∧
        (s.outcome env n = .kept → ∀ deps ∈ (s.slots n).awaits,
          ∃ d ∈ deps, (s.slots d).undecided = true ∧ s.outcome env d ≠ .decided) := by
      rw [heq]
      unfold AllWait
      dsimp only
      rw [ht.names]
      refine forall₂_congr fun n hn => and_congr ?_ ⟨fun hall hkept deps hdeps => ?_, fun hall deps hdeps => ?_⟩
      · rw [← Bool.not_eq_true, (ht.comes n hn).isDue (htouches n).1]
      · obtain ⟨d, hd, hnot⟩ := hall deps ((ht.comes n hn).awaits.mpr ⟨hkept, hdeps⟩)
        exact ⟨d, hd, (hundecided d).mp hnot⟩
      · obtain ⟨hkept, hdeps⟩ := (ht.comes n hn).awaits.mp hdeps
        obtain ⟨d, hd, hnot⟩ := hall hkept deps hdeps
        exact ⟨d, hd, (hundecided d).mpr hnot⟩
    exact imp_congr hidle hwait
  · rw [hgone]
    exact ⟨fun _ hactive => absurd hkilled (hactive n hn).2.2, fun _ hidle => by cases hidle⟩

/-! ### Clients -/

/-- A client decides a job that another waits for, and there is nothing that wakes the manager up. -/
def DecidesUnseen (s : JobsSt) (name : String) (through : Bool) : Prop :=
  (s.phase.isIdle = true ∧ s.jobStarted = false ∧ s.stateChanged = false) ∧
    ((s.slots name).undecided = true ∧ through = true) ∧
      ∃ n ∈ s.names, n ≠ name ∧ ∃ deps ∈ (s.slots n).awaits, name ∈ deps

/-- What a client operation on a job leaves alone, unless babel is killed. -/
structure Only (s s' : JobsSt) (name : String) : Prop where
  others : ∀ n, n ≠ name → (s'.slots n).job = (s.slots n).job
  names : ∀ n, n ≠ name → (n ∈ s'.names ↔ n ∈ s.names)
  jobStarted : s'.jobStarted = s.jobStarted
  stateChanged : s'.stateChanged = s.stateChanged

/-- A client operation on a job that wakes nobody, when it is known whether it gets to the job. -/
theorem decidesUnseen_iff {s s' : JobsSt} {name : String} {through : Bool}
    (hthrough : through = true → (s.slots name).undecided = true → Only s s' name ∧ (s'.slots name).decided = true)
    (hnot : (s.slots name).undecided = true → (s'.slots name).decided = true → through = true) :
    (s.phase.isIdle = true → (s.slots name).undecided = true → (s'.slots name).decided = true →
        (∃ n ∈ s'.names, ∃ deps ∈ (s'.slots n).awaits, name ∈ deps) → s'.jobStarted = true ∨ s'.stateChanged = true) ↔
      ¬ s.DecidesUnseen name through := by
  have hawaits : ∀ {n}, Only s s' name → n ≠ name → (s'.slots n).awaits = (s.slots n).awaits := fun honly hn => by
    unfold JobSlot.awaits
    rw [honly.others _ hn]
  constructor
  · intro hwakes ⟨⟨hidle, hstarted, hchanged⟩, ⟨hundecided, hthis⟩, n, hn, hne, deps, hdeps, hmem⟩
    obtain ⟨honly, hdecided⟩ := hthrough hthis hundecided
    have hlisted := hwakes hidle hundecided hdecided
      ⟨n, (honly.names n hne).mpr hn, deps, (hawaits honly hne).symm ▸ hdeps, hmem⟩
    rw [honly.jobStarted, honly.stateChanged, hstarted, hchanged] at hlisted
    simp at hlisted
  · intro hseen hidle hundecided hdecided ⟨n, hn, deps, hdeps, hmem⟩
    have hthis := hnot hundecided hdecided
    have honly := (hthrough hthis hundecided).1
    by_contra hsilent
    obtain ⟨hstarted, hchanged⟩ := not_or.mp hsilent
    rw [honly.jobStarted, Bool.not_eq_true] at hstarted
    rw [honly.stateChanged, Bool.not_eq_true] at hchanged
    have hne : n ≠ name := by
      rintro rfl
      rw [JobSlot.awaits_decided hdecided] at hdeps
      cases hdeps
    exact hseen ⟨⟨hidle, hstarted, hchanged⟩, ⟨hundecided, hthis⟩, n, (honly.names n hne).mp hn, hne, deps,
      hawaits honly hne ▸ hdeps, hmem⟩

end JobsSt

/-- The runner of a job that is active can be terminated. -/
def TerminateEnv.ends (env : TerminateEnv) (slot : JobSlot) : Bool :=
  match slot.activePid with
  | some pid => decide (pid ∉ slot.runners) || decide (env.fault = .none)
  | none => true

/-- A stop or a skip gets to the state of the job, and babel lives on. -/
def HaltEnv.through (env : HaltEnv) (slot : JobSlot) : Bool :=
  env.terminate.ends slot &&
    match env.save with
    | .killed _ => false
    | _ => true

/-- A create gets to the new job. -/
def CreateEnv.through (env : CreateEnv) (slot : JobSlot) : Bool :=
  env.terminate.ends slot && decide (env.mkdir = .none ∧ env.save = .none ∧ env.saveConfig = .none)

namespace JobSlot

/-- What a runner saves before it ends is not the job. -/
theorem lastWords_job (job : Option Job) (env : TerminateEnv) :
    Keeps (fun s => s.job = job) (fun s => s.job = job) (lastWords env) := by
  unfold lastWords
  split
  · exact Keeps.modify fun s h => (job_writeStatus s _ _ _).trans h
  · exact Keeps.pure

theorem terminate_ends {slot : JobSlot} {name : String} {env : TerminateEnv} :
    Triple (· = slot) (terminateActive name env) (fun _ s => s.job = slot.job ∧ env.ends slot = true)
      fun _ s => s.job = slot.job ∧ env.ends slot = false := by
  refine Triple.bind (R := fun pid s => pid = slot.activePid ∧ s = slot) (Triple.gets.post fun pid s h => ?_) fun pid => ?_
  · exact ⟨h.2 ▸ h.1, h.2⟩
  refine Triple.assume fun hpid => ?_
  subst hpid
  cases hactive : slot.activePid with
  | none => exact Triple.pure fun s h => ⟨by rw [h], by simp [TerminateEnv.ends, hactive]⟩
  | some pid =>
    refine Triple.bind (R := fun runners s => runners = slot.runners ∧ s = slot) (Triple.gets.post fun runners s h => ?_)
      fun runners => ?_
    · exact ⟨h.2 ▸ h.1, h.2⟩
    refine Triple.assume fun hrunners => ?_
    subst hrunners
    split
    · rename_i hmem
      refine Triple.bind (R := fun _ s => s.job = slot.job) ?_ fun _ => ?_
      · intro s hs
        have hkept := lastWords_job slot.job env s (by rw [hs])
        unfold lastWords at hkept ⊢
        revert hkept
        cases env.saved <;> exact id
      cases hfault : env.fault with
      | none => exact Triple.modify fun s h => ⟨h, by simp [TerminateEnv.ends, hactive, hfault]⟩
      | error ended => exact Triple.throw fun s h => ⟨h, by simp [TerminateEnv.ends, hactive, hmem, hfault]⟩
      | killed ended =>
        refine Triple.bind (R := fun _ s => s.job = slot.job) (Triple.when (fun _ => Triple.modify fun _ h => h) fun _ _ h => h)
          fun _ => Triple.kill fun s h => ⟨h, by simp [TerminateEnv.ends, hactive, hmem, hfault]⟩
    · rename_i hmem
      exact Triple.pure fun s h => ⟨by rw [h], by simp [TerminateEnv.ends, hactive, hmem]⟩

/-- The status of a job that is over is saved. -/
theorem saveStatus_decided {status : JobStatus} (h : status.decided = true) (fault : Fault DocCut) :
    saveStatus (.inactive status) fault = saveStatusFile status fault := by
  cases status with
  | finished exitCode message => rfl
  | stopped => rfl
  | pending waitingFor => cases h
  | running => cases h

theorem decided_withState {slot : JobSlot} {job : Job} {status : JobStatus} (hjob : slot.job = some job)
    (hdecided : status.decided = true) : (slot.withState (.inactive status)).decided = true := by
  unfold decided withState
  rw [hjob]
  exact hdecided

/-- A stop or a skip of a job: it is over when the operation gets to it, and as it was when it does not. -/
theorem halt_through {slot : JobSlot} {job : Job} (hjob : slot.job = some job) (name : String) {status : JobStatus}
    (hdecided : status.decided = true) (env : HaltEnv) :
    Triple (· = slot) (halt name status env) (fun _ s => env.through slot = true ∧ s.decided = true) fun e s =>
      match e with
      | .error _ => (env.through slot = true ∧ s.decided = true) ∨ env.through slot = false ∧ s.job = slot.job
      | .killed => env.through slot = false := by
  refine Triple.bind (R := fun found s => found = some job ∧ s = slot) (Triple.gets.post fun found s h => ?_) fun found => ?_
  · exact ⟨by rw [h.1, h.2, hjob], h.2⟩
  refine Triple.assume fun hfound => Triple.bind (R := fun _ => (· = slot)) ?_ fun _ => ?_
  · exact Triple.when (fun hnone => by rw [hfound] at hnone; cases hnone) fun _ _ h => h
  refine Triple.bind (R := fun _ s => s.job = slot.job ∧ env.terminate.ends slot = true) ?_ fun _ => ?_
  · refine terminate_ends.exit fun e s h => ?_
    have hnot : env.through slot = false := by simp [HaltEnv.through, h.2]
    cases e with
    | error e => exact .inr ⟨hnot, h.1⟩
    | killed => exact hnot
  refine Triple.bind (R := fun _ s => s.decided = true ∧ env.terminate.ends slot = true) ?_ fun _ => ?_
  · exact Triple.modify fun s h => ⟨decided_withState (h.1.trans hjob) hdecided, h.2⟩
  rw [saveStatus_decided hdecided]
  intro s ⟨hs, hends⟩
  have hsaved : ∀ cut, (s.writeStatus status cut false).decided = true := fun cut => by
    unfold decided
    rw [job_writeStatus]
    exact hs
  unfold saveStatusFile HaltEnv.through
  cases hsave : env.save with
  | none => exact ⟨by simp [hends], hsaved _⟩
  | error cut => exact .inl ⟨by simp [hends], hsaved _⟩
  | killed cut => simp [Fault.result]

/-- A create, likewise, of a job that there is. -/
theorem create_through {slot : JobSlot} {job : Job} (hjob : slot.job = some job) (name : String) (config : JobConfig)
    (room : Bool) (env : CreateEnv) :
    Triple (· = slot) (create name config room env) (fun _ s => env.through slot = true ∧ s.decided = true) fun _ s =>
      env.through slot = false ∧ s.job = slot.job := by
  refine Triple.bind (R := fun found s => found = some job ∧ s = slot) (Triple.gets.post fun found s h => ?_) fun found => ?_
  · exact ⟨by rw [h.1, h.2, hjob], h.2⟩
  refine Triple.assume fun hfound => Triple.bind (R := fun _ => (· = slot)) ?_ fun _ => ?_
  · exact Triple.when (fun hnone => by rw [hfound] at hnone; cases hnone.1) fun _ _ h => h
  refine Triple.bind (R := fun _ s => s.job = slot.job ∧ env.terminate.ends slot = true) ?_ fun _ => ?_
  · exact terminate_ends.exit fun _ s h => ⟨by simp [CreateEnv.through, h.2], h.1⟩
  refine Triple.bind (R := fun _ s => s.job = slot.job ∧ env.terminate.ends slot = true ∧ env.mkdir = .none) ?_ fun _ => ?_
  · intro s hs
    cases hmkdir : env.mkdir with
    | none => exact ⟨hs.1, hs.2, rfl⟩
    | error cut => exact ⟨by simp [CreateEnv.through, hmkdir], hs.1⟩
    | killed cut => exact ⟨by simp [CreateEnv.through, hmkdir], hs.1⟩
  refine Triple.bind (R := fun _ s => s.job = slot.job ∧ env.terminate.ends slot = true ∧ env.mkdir = .none ∧ env.save = .none)
    ?_ fun _ => ?_
  · intro s ⟨hs, hends, hmkdir⟩
    have hsaved : ∀ cut, (s.writeStatus .stopped cut false).job = slot.job := fun cut => (job_writeStatus s _ cut _).trans hs
    rw [saveStatus_decided rfl]
    unfold saveStatusFile
    cases hsave : env.save with
    | none => exact ⟨hsaved _, hends, hmkdir, rfl⟩
    | error cut => exact ⟨by simp [CreateEnv.through, hsave], hsaved _⟩
    | killed cut => exact ⟨by simp [CreateEnv.through, hsave], hsaved _⟩
  refine Triple.bind (R := fun _ s => s.job = slot.job ∧ env.through slot = true) ?_ fun _ => ?_
  · intro s ⟨hs, hends, hmkdir, hsave⟩
    unfold saveConfig
    cases hconfig : env.saveConfig with
    | none => exact ⟨hs, by simp [CreateEnv.through, hends, hmkdir, hsave, hconfig]⟩
    | error cut => exact ⟨by simp [CreateEnv.through, hconfig], hs⟩
    | killed cut => exact ⟨by simp [CreateEnv.through, hconfig], hs⟩
  · exact Triple.modify fun s h => ⟨h.2, rfl⟩

end JobSlot

namespace JobsSt

theorem only_setSlot {s t : JobsSt} {name : String} (h : Only s t name) (slot : JobSlot) : Only s (t.setSlot name slot) name where
  others n hn := by
    rw [setSlot_other t slot hn]
    exact h.others n hn
  names := h.names
  jobStarted := h.jobStarted
  stateChanged := h.stateChanged

theorem only_refl (s : JobsSt) (name : String) : Only s s name := ⟨fun _ _ => rfl, fun _ _ => Iff.rfl, rfl, rfl⟩

theorem decided_crash (s : JobsSt) (name : String) : (s.crash.slots name).decided = false := rfl

/-- A job that is not over is there. -/
theorem of_undecided {slot : JobSlot} (h : slot.undecided = true) : ∃ job, slot.job = some job ∧ job.state.decided = false := by
  unfold JobSlot.undecided at h
  cases hslot : slot.job with
  | none => simp [hslot] at h
  | some job =>
    rw [hslot, Option.any_some] at h
    exact ⟨job, rfl, by simpa using h⟩

theorem not_decided {slot : JobSlot} {job : Job} (hjob : slot.job = some job) (hnot : job.state.decided = false) :
    slot.decided ≠ true := by
  rw [JobSlot.decided, hjob, Option.any_some, hnot]
  exact Bool.false_ne_true

/-- A stop or a skip decides a job, and wakes nobody, exactly if it gets to it. -/
theorem halt_decides {s s' : JobsSt} {name : String} {status : JobStatus} (hstatus : status.decided = true) (env : HaltEnv)
    (hs : s' = settle (onSlot name (JobSlot.halt name status env) (halting name s)) fun _ s => halted name s)
    (hundecided : (s.slots name).undecided = true) :
    (env.through (s.slots name) = true → Only s s' name ∧ (s'.slots name).decided = true) ∧
      ((s'.slots name).decided = true → env.through (s.slots name) = true) := by
  obtain ⟨job, hjob, hnot⟩ := of_undecided hundecided
  have hslot : (halting name s).slots name = { s.slots name with asked := false } := setSlot_same ..
  have hjob' : ((halting name s).slots name).job = some job := by
    rw [hslot]
    exact hjob
  have hsame : env.through ((halting name s).slots name) = env.through (s.slots name) := by
    rw [hslot]
    rfl
  have honly : ∀ slot, Only s ((halting name s).setSlot name slot) name := fun slot =>
    only_setSlot (only_setSlot (only_refl s name) _) slot
  rw [hs, ← hsame]
  refine settle_onSlot (I := fun s' =>
      (env.through ((halting name s).slots name) = true → Only s s' name ∧ (s'.slots name).decided = true) ∧
        ((s'.slots name).decided = true → env.through ((halting name s).slots name) = true))
    (JobSlot.halt_through hjob' name hstatus env) rfl (fun _ slot h => ?_) (fun e slot h => ?_) fun slot h => ?_
  · refine ⟨fun _ => ⟨only_setSlot (honly slot) _, ?_⟩, fun _ => h.1⟩
    rw [halted, setSlot_same, setSlot_same]
    exact h.2
  · rw [setSlot_same]
    rcases h with ⟨hthrough, hdecided⟩ | ⟨hthrough, hleft⟩
    · exact ⟨fun _ => ⟨honly slot, hdecided⟩, fun _ => hthrough⟩
    · exact ⟨fun h => absurd h (Bool.eq_false_iff.mp hthrough), fun h => absurd h (not_decided (hleft.trans hjob') hnot)⟩
  · exact ⟨fun hthrough => absurd hthrough (Bool.eq_false_iff.mp h), fun hdecided => by cases hdecided⟩

/-- A create of a job that there is, likewise. -/
theorem create_decides {s : JobsSt} {name : String} (config : JobConfig) (env : CreateEnv)
    (hundecided : (s.slots name).undecided = true) :
    (env.through (s.slots name) = true → Only s (s.create name config env) name ∧
        ((s.create name config env).slots name).decided = true) ∧
      (((s.create name config env).slots name).decided = true → env.through (s.slots name) = true) := by
  obtain ⟨job, hjob, hnot⟩ := of_undecided hundecided
  let t : JobsSt := halting name { s with known := register s.known name }
  have hslot : t.slots name = { s.slots name with asked := false } := setSlot_same ..
  have hjob' : (t.slots name).job = some job := by
    rw [hslot]
    exact hjob
  have hsame : env.through (t.slots name) = env.through (s.slots name) := by
    rw [hslot]
    rfl
  have hknown : Only s { s with known := register s.known name } name :=
    ⟨fun _ _ => rfl, fun _ _ => Iff.rfl, rfl, rfl⟩
  have honly : ∀ slot, Only s (t.setSlot name slot) name := fun slot => only_setSlot (only_setSlot hknown _) slot
  rw [← hsame]
  refine settle_onSlot (I := fun s' =>
      (env.through (t.slots name) = true → Only s s' name ∧ (s'.slots name).decided = true) ∧
        ((s'.slots name).decided = true → env.through (t.slots name) = true))
    (JobSlot.create_through hjob' name config _ env) rfl (fun _ slot h => ?_) (fun e slot h => ?_) fun slot h => ?_
  · have hnames : Only s { t.setSlot name slot with names := register s.names name } name :=
      ⟨(honly slot).others, fun n hn => mem_register.trans (or_iff_left hn), rfl, rfl⟩
    refine ⟨fun _ => ⟨only_setSlot hnames _, ?_⟩, fun _ => h.1⟩
    · rw [halted, setSlot_same]
      show ((t.setSlot name slot).slots name).decided = true
      rw [setSlot_same]
      exact h.2
  · rw [setSlot_same]
    exact ⟨fun hthrough => absurd hthrough (Bool.eq_false_iff.mp h.1),
      fun hdecided => absurd hdecided (not_decided (h.2.trans hjob') hnot)⟩
  · exact ⟨fun hthrough => absurd hthrough (Bool.eq_false_iff.mp h.1), fun hdecided => by cases hdecided⟩

/-! ### Runs -/

/-- What a step is to meet: a pass settles, and no client decides a job unseen. -/
def Settles (s : JobsSt) : JobsAct → Prop
  | .checkInactive _ env _ => s.PassSettles env
  | .stop name env => ¬ s.DecidesUnseen name (env.through (s.slots name))
  | .skip name env => ¬ s.DecidesUnseen name (env.through (s.slots name))
  | .create name _ env => ¬ s.DecidesUnseen name (env.through (s.slots name))
  | _ => True

theorem attendedBy_iff {s s' : JobsSt} {act : JobsAct} (h : Registered s) (hs : s.step act = some s') :
    s.AttendedBy act s' ↔ s.Settles act := by
  have hd := step_does hs
  cases act with
  | checkInactive order env watch =>
    obtain ⟨_, hperm, rfl⟩ := hd
    exact passSettles_iff h hperm env watch
  | stop name env =>
    obtain ⟨_, rfl⟩ := hd
    exact decidesUnseen_iff (fun hthrough hundecided => (halt_decides rfl env rfl hundecided).1 hthrough)
      fun hundecided hdecided => (halt_decides rfl env rfl hundecided).2 hdecided
  | skip name env =>
    obtain ⟨_, rfl⟩ := hd
    exact decidesUnseen_iff (fun hthrough hundecided => (halt_decides rfl env rfl hundecided).1 hthrough)
      fun hundecided hdecided => (halt_decides rfl env rfl hundecided).2 hdecided
  | create name config env =>
    obtain ⟨_, rfl⟩ := hd
    exact decidesUnseen_iff (fun hthrough hundecided => (create_decides config env hundecided).1 hthrough)
      fun hundecided hdecided => (create_decides config env hundecided).2 hdecided
  | _ => exact Iff.rfl

end JobsSt

/-- **When no pending job is forgotten.** A run of the jobs manager is attended exactly if each of its
passes settles and no client decides unseen a job that another waits for. -/
theorem no_job_forgotten_iff {acts : List JobsAct} {s : JobsSt} (hrun : run JobsSt.step .init acts = some s) :
    Along JobsSt.step JobsSt.Attended .init acts ↔ Along JobsSt.step JobsSt.Settles .init acts := by
  refine along_congr JobsSt.step (fun s act s' h hs => ?_) (fun s act s' h hs => JobsSt.registered_step h hs)
    JobsSt.registered_init hrun
  have hiff := JobsSt.attendedBy_iff h hs
  unfold JobsSt.Attended
  rw [hs]
  simpa using hiff

namespace JobsSt

instance (s : JobsSt) : Decidable s.AllWait := by unfold AllWait; infer_instance

instance (s : JobsSt) (act : JobsAct) (s' : JobsSt) : Decidable (s.AttendedBy act s') := by
  unfold AttendedBy
  split <;> infer_instance

instance (s : JobsSt) (act : JobsAct) : Decidable (s.Attended act) := by unfold Attended; infer_instance

instance (s : JobsSt) (name : String) (through : Bool) : Decidable (s.DecidesUnseen name through) := by
  unfold DecidesUnseen
  infer_instance

instance (s : JobsSt) (env : String → RunnerEnv) : Decidable (s.PassSettles env) := by unfold PassSettles; infer_instance

instance (s : JobsSt) (act : JobsAct) : Decidable (s.Settles act) := by
  unfold Settles
  split <;> infer_instance

end JobsSt

/-- The job that was started finishes, and the manager finds nothing more to do. -/
def finishedRun : List JobsAct :=
  needyRun ++ [.runnerSaves "b" 0 ⟨some 0, "done", .whole⟩, .runnerEnds "b" 0, .wake (.ended "b" 0)] ++
    calmPass ["a", "b"]

theorem no_job_forgotten_finished : ∃ s, run JobsSt.step .init finishedRun = some s ∧ s.phase.isIdle = true ∧
    Along JobsSt.step JobsSt.Attended .init finishedRun := by
  have hend : (run JobsSt.step .init finishedRun).map (·.phase.isIdle) = some true := by decide +kernel
  obtain ⟨s, hrun, hs⟩ := Option.map_eq_some_iff.mp hend
  exact ⟨s, hrun, hs, (no_job_forgotten_iff hrun).mpr (by decide +kernel)⟩

/-- Two jobs are started, one that needs the other, and the runner of the other cannot be spawned. -/
def brokenRun : List JobsAct :=
  [.boot true ⟨[], none, fun _ => true⟩, .create "a" plainJob calmCreate, .create "b" (needyJob "a") calmCreate,
    .start "a" .none, .start "b" .none, .check true, .check false, .listProcesses,
    .updateActive ["a", "b"] fun _ => calmRunner,
    .checkInactive ["a", "b"] (fun name => if name = "a" then ⟨.none, .error false, .none⟩ else calmRunner) true]

/-- **A pass may leave a job behind**: it decides one that another waits for, and the manager waits for
a client. -/
theorem job_forgotten : ¬ ∀ acts s, run JobsSt.step .init acts = some s → Along JobsSt.step JobsSt.Attended .init acts := by
  intro hall
  have hend : (run JobsSt.step .init brokenRun).isSome = true := by decide +kernel
  obtain ⟨s, hrun⟩ := Option.isSome_iff_exists.mp hend
  exact absurd (hall brokenRun s hrun) (by decide +kernel)

end Blockvisor
