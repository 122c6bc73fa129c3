/-
What becomes of the jobs of the registry, whoever changes it. A pass makes one
move for each job, by the jobs as they were before it (`JobMoves`); a client makes a
job Stopped or Pending, or leaves it as it is (`ClientStep`).

`due` says for which jobs a half of a pass starts a runner, if nothing fails, and
`manager_records` that it does so for no others.
-/
import Blockvisor.Babel.JobStarts
import Blockvisor.Babel.JobWaits

namespace Blockvisor

open Effect Machine

/-! ## Moves -/

/-- A job that has been started is active, due for a restart, or over. -/
def JobState.past : JobState → Bool
  | .active _ => true
  | .inactive .running => true
  | .inactive status => status.decided

/-- What a half of a pass makes of a job; `ends` says whether it ends the job for a dependency. -/
inductive JobMoves (name : String) (deps : String → Option Job) (ends : Bool) (job : Job) : Job → Prop
  | kept : JobMoves name deps ends job job
  | launched {waitingFor : List String} {state : JobState} (hstate : job.state = .inactive (.pending waitingFor))
    (hdeps : JobSlot.depsFinished name deps job.config = .ok true) (hpast : state.past = true) :
    JobMoves name deps ends job { job with state }
  | broken {waitingFor : List String} {err : String} (hstate : job.state = .inactive (.pending waitingFor))
    (hends : ends = true) : JobMoves name deps ends job { job with state := .inactive (.finished none err) }
  | again {state : JobState} (hstate : (∃ pid, job.state = .active pid) ∨ job.state = .inactive .running)
    (hpast : state.past = true) : JobMoves name deps ends job { job with state }

variable {name : String} {deps : String → Option Job} {ends : Bool} {job job' : Job}

theorem JobMoves.config (h : JobMoves name deps ends job job') : job'.config = job.config := by
  cases h <;> rfl

/-- A job that is over is left alone. -/
theorem JobMoves.decided (h : JobMoves name deps ends job job') (hdecided : job.state.decided = true) : job' = job := by
  cases h with
  | kept => rfl
  | launched hstate => rw [hstate] at hdecided; cases hdecided
  | broken hstate => rw [hstate] at hdecided; cases hdecided
  | again hstate =>
    cases hstate with
    | inl hactive =>
      obtain ⟨pid, hactive⟩ := hactive
      rw [hactive] at hdecided
      cases hdecided
    | inr hrunning => rw [hrunning] at hdecided; cases hdecided

namespace JobSlot

/-- What is said of the config of a slot's job. -/
theorem stable_config (config : Option JobConfig) : Stable fun s => s.job.map (·.config) = config where
  status h _ _ := h
  state h state := by
    rw [← h]
    unfold withState
    rw [Option.map_map]
    rfl
  runners h _ _ := h

theorem job_of {slot : JobSlot} {job : Job} {state : JobState} (hconfig : slot.job.map (·.config) = some job.config)
    (hstate : slot.job.map (·.state) = some state) : slot.job = some { job with state } := by
  cases hslot : slot.job with
  | none => rw [hslot] at hstate; cases hstate
  | some job' =>
    rw [hslot] at hconfig hstate
    cases job'
    cases hconfig
    cases hstate
    rfl

theorem past_of_decided {status : JobStatus} (h : status.decided = true) : (JobState.inactive status).past = true := by
  cases status with
  | finished exitCode message => rfl
  | stopped => rfl
  | running => rfl
  | pending waitingFor => cases h

/-- A start that is tried does not leave the job as it was, unless babel is killed. -/
theorem startJob_past {slot : JobSlot} (hjob : slot.job = some job) (name : String) (env : RunnerEnv) :
    (startJob name env slot).1 = .error .killed ∨ (startJob name env slot).1 = .ok () ∧
      ∃ state, state.past = true ∧ (startJob name env slot).2.job = some { job with state } := by
  have hconfig : (startJob name env slot).2.job.map (·.config) = some job.config :=
    ((stable_config _).startJob (fun _ h => h) name env).run (s := slot) (by rw [hjob]; rfl)
  have hcomes := startJob_comes hjob name env
  have hnot : startOutcome slot env ≠ .kept := by
    unfold startOutcome spawnOutcome failOutcome
    repeat' split
    all_goals simp
  cases houtcome : startOutcome slot env with
  | kept => exact absurd houtcome hnot
  | started =>
    rw [houtcome] at hcomes
    obtain ⟨hok, pid, hstate⟩ := hcomes
    exact .inr ⟨hok, _, rfl, job_of hconfig hstate⟩
  | due =>
    rw [houtcome] at hcomes
    exact .inr ⟨hcomes.1, _, rfl, job_of hconfig hcomes.2⟩
  | decided =>
    rw [houtcome] at hcomes
    obtain ⟨hok, status, hstate, hdecided⟩ := hcomes
    exact .inr ⟨hok, _, past_of_decided hdecided, job_of hconfig hstate⟩
  | killed =>
    rw [houtcome] at hcomes
    exact .inl hcomes

theorem handleStoppedJob_past {slot : JobSlot} (hjob : slot.job = some job) (name : String) (env : RunnerEnv) :
    (handleStoppedJob name env slot).1 = .error .killed ∨ (handleStoppedJob name env slot).1 = .ok () ∧
      ∃ state, state.past = true ∧ (handleStoppedJob name env slot).2.job = some { job with state } := by
  have hrun : handleStoppedJob name env slot =
      (if (stoppedStatus name job.config slot.status).decided then setState (.inactive (stoppedStatus name job.config slot.status))
        else startJob name env : SlotM Unit) slot := by
    unfold handleStoppedJob
    rw [gets_bind, id, hjob]
  rw [hrun]
  by_cases hdecided : (stoppedStatus name job.config slot.status).decided = true
  · rw [if_pos hdecided]
    refine .inr ⟨rfl, _, past_of_decided hdecided, ?_⟩
    show (slot.withState _).job = _
    rw [withState, hjob]
    rfl
  · rw [if_neg hdecided]
    exact startJob_past hjob name env

/-- What a computation of a pass on a slot comes to: babel is killed, or its job moves. -/
def Moved (name : String) (deps : String → Option Job) (ends : Bool) (slot : JobSlot) (r : Except (Exit String) Unit × JobSlot) :
    Prop :=
  r.1 = .error .killed ∨ r.1 = .ok () ∧ (slot.job = none → r.2.job = none) ∧
    ∀ job, slot.job = some job → ∃ job', r.2.job = some job' ∧ JobMoves name deps ends job job'

theorem Moved.same (slot : JobSlot) : Moved name deps ends slot (.ok (), slot) :=
  .inr ⟨rfl, id, fun job hjob => ⟨job, hjob, .kept⟩⟩

theorem Moved.of_past {slot : JobSlot} {r : Except (Exit String) Unit × JobSlot} (hjob : slot.job = some job)
    (h : r.1 = .error .killed ∨ r.1 = .ok () ∧ ∃ state, state.past = true ∧ r.2.job = some { job with state })
    (hmoves : ∀ state, state.past = true → JobMoves name deps ends job { job with state }) : Moved name deps ends slot r := by
  cases h with
  | inl hkilled => exact .inl hkilled
  | inr h =>
    obtain ⟨hok, state, hpast, hafter⟩ := h
    refine .inr ⟨hok, fun hnone => ?_, fun job' hjob' => ?_⟩
    · rw [hjob] at hnone
      cases hnone
    · cases hjob.symm.trans hjob'
      exact ⟨_, hafter, hmoves state hpast⟩

theorem updateActiveJob_moved (deps : String → Option Job) (ends : Bool) (slot : JobSlot) (name : String) (ps : List Nat)
    (env : RunnerEnv) : Moved name deps ends slot (updateActiveJob name ps env slot) := by
  cases hpid : slot.activePid with
  | none =>
    rw [updateActiveJob_inactive hpid]
    exact .same slot
  | some pid =>
    have hrun : updateActiveJob name ps env slot = (if pid ∈ ps then pure () else handleStoppedJob name env : SlotM Unit) slot := by
      unfold updateActiveJob
      rw [gets_bind, hpid]
    rw [hrun]
    by_cases hmem : pid ∈ ps
    · rw [if_pos hmem]
      exact .same slot
    · rw [if_neg hmem]
      cases hjob : slot.job with
      | none => rw [activePid, hjob] at hpid; cases hpid
      | some job =>
        have hactive : ∃ pid, job.state = .active pid := by
          rw [activePid, hjob] at hpid
          cases hstate : job.state with
          | active pid => exact ⟨pid, rfl⟩
          | inactive status => simp [hstate] at hpid
        exact .of_past hjob (handleStoppedJob_past hjob name env) fun state hpast => .again (.inl hactive) hpast

/-- The job of a slot is one that the second half of a pass ends for a dependency. -/
def breaks (name : String) (deps : String → Option Job) (slot : JobSlot) : Bool :=
  match slot.job with
  | some job =>
    match job.state with
    | .inactive (.pending _) =>
      match depsFinished name deps job.config with
      | .ok _ => false
      | .error _ => true
    | _ => false
  | none => false

/-- A job that is neither Pending nor due for a restart is left as it is. -/
theorem checkInactiveJob_kept {slot : JobSlot} {env : RunnerEnv} (h : checkOutcome name deps slot env = .kept) :
    Moved name deps (breaks name deps slot) slot (checkInactiveJob name deps env slot) := by
  have hcomes := checkInactiveJob_comes name deps env slot
  rw [h] at hcomes
  have hrun : checkInactiveJob name deps env slot = (.ok (), slot) := hcomes
  rw [hrun]
  exact .same slot

theorem checkInactiveJob_moved (deps : String → Option Job) (slot : JobSlot) (name : String) (env : RunnerEnv) :
    Moved name deps (breaks name deps slot) slot (checkInactiveJob name deps env slot) := by
  cases hjob : slot.job with
  | none => exact checkInactiveJob_kept (by simp [checkOutcome, hjob])
  | some job =>
    cases hstate : job.state with
    | active pid => exact checkInactiveJob_kept (by simp [checkOutcome, hjob, hstate])
    | inactive status =>
      cases status with
      | finished exitCode message => exact checkInactiveJob_kept (by simp [checkOutcome, hjob, hstate])
      | stopped => exact checkInactiveJob_kept (by simp [checkOutcome, hjob, hstate])
      | pending waitingFor =>
        rw [checkInactiveJob_pending hjob hstate]
        cases hdeps : depsFinished name deps job.config with
        | ok met =>
          cases met with
          | true => exact .of_past hjob (startJob_past hjob name env) fun state hpast => .launched hstate hdeps hpast
          | false => exact .same slot
        | error err =>
          have hafter : ∀ cut, ((slot.withState (.inactive (.finished none err))).writeStatus (.finished none err) cut false).job =
              some { job with state := .inactive (.finished none err) } := by
            intro cut
            rw [job_writeStatus, withState, hjob]
            rfl
          have hbreaks : breaks name deps slot = true := by simp [breaks, hjob, hstate, hdeps]
          have hbroken : ∀ cut, Moved name deps (breaks name deps slot) slot
              (.ok (), (slot.withState (.inactive (.finished none err))).writeStatus (.finished none err) cut false) := by
            intro cut
            refine .inr ⟨rfl, fun hnone => ?_, fun job' hjob' => ?_⟩
            · rw [hjob] at hnone
              cases hnone
            · cases hjob.symm.trans hjob'
              exact ⟨_, hafter cut, .broken hstate hbreaks⟩
          dsimp only
          unfold fail
          cases env.save with
          | none => exact hbroken .whole
          | error cut => exact hbroken cut
          | killed cut => exact .inl rfl
      | running =>
        have hrun : checkInactiveJob name deps env slot = handleStoppedJob name env slot := by
          unfold checkInactiveJob
          rw [gets_bind, hjob]
          dsimp only
          rw [hstate]
        rw [hrun]
        exact .of_past hjob (handleStoppedJob_past hjob name env) fun state hpast => .again (.inr hstate) hpast

/-! ## Runners that are started -/

/-- A job that did not run to its end is started again. -/
def interrupted (name : String) (slot : JobSlot) (job : Job) : Bool := !(stoppedStatus name job.config slot.status).decided

theorem handleStoppedJob_next {slot : JobSlot} (hjob : slot.job = some job) {env : RunnerEnv}
    (h : slot.next < (handleStoppedJob name env slot).2.next) : interrupted name slot job = true := by
  unfold interrupted
  by_contra hnot
  have hdecided : (stoppedStatus name job.config slot.status).decided = true := by simpa using hnot
  have hrun : handleStoppedJob name env slot = (.ok (), slot.withState (.inactive (stoppedStatus name job.config slot.status))) := by
    unfold handleStoppedJob
    rw [gets_bind, id, hjob]
    dsimp only
    rw [if_pos hdecided]
    rfl
  rw [hrun] at h
  exact Nat.lt_irrefl _ h

/-- The job of a slot is one for which the first half of a pass starts a runner. -/
def dueActive (name : String) (ps : List Nat) (slot : JobSlot) : Bool :=
  match slot.job with
  | some job =>
    match job.state with
    | .active pid => decide (pid ∉ ps) && interrupted name slot job
    | .inactive _ => false
  | none => false

/-- The job of a slot is one for which the second half of a pass starts a runner. -/
def dueInactive (name : String) (deps : String → Option Job) (slot : JobSlot) : Bool :=
  match slot.job with
  | some job =>
    match job.state with
    | .inactive (.pending _) =>
      match depsFinished name deps job.config with
      | .ok met => met
      | .error _ => false
    | .inactive .running => interrupted name slot job
    | _ => false
  | none => false

theorem updateActiveJob_next {slot : JobSlot} {ps : List Nat} {env : RunnerEnv}
    (h : slot.next < (updateActiveJob name ps env slot).2.next) : dueActive name ps slot = true := by
  cases hpid : slot.activePid with
  | none =>
    rw [updateActiveJob_inactive hpid] at h
    exact absurd h (Nat.lt_irrefl _)
  | some pid =>
    have hrun : updateActiveJob name ps env slot = (if pid ∈ ps then pure () else handleStoppedJob name env : SlotM Unit) slot := by
      unfold updateActiveJob
      rw [gets_bind, hpid]
    rw [hrun] at h
    unfold dueActive
    unfold activePid at hpid
    cases hjob : slot.job with
    | none => rw [hjob] at hpid; cases hpid
    | some job =>
      rw [hjob] at hpid
      cases hstate : job.state with
      | inactive status => simp [hstate] at hpid
      | active pid' =>
        simp only [hstate, Option.some.injEq] at hpid
        by_cases hmem : pid ∈ ps
        · rw [if_pos hmem] at h
          exact absurd h (Nat.lt_irrefl _)
        · rw [if_neg hmem] at h
          simp [hstate, hpid, hmem, handleStoppedJob_next hjob h]

theorem checkInactiveJob_next {slot : JobSlot} {env : RunnerEnv}
    (h : slot.next < (checkInactiveJob name deps env slot).2.next) : dueInactive name deps slot = true := by
  have hkept : checkOutcome name deps slot env = .kept → False := by
    intro houtcome
    have hcomes := checkInactiveJob_comes name deps env slot
    rw [houtcome] at hcomes
    have hrun : checkInactiveJob name deps env slot = (.ok (), slot) := hcomes
    rw [hrun] at h
    exact Nat.lt_irrefl _ h
  unfold dueInactive
  cases hjob : slot.job with
  | none => exact (hkept (by simp [checkOutcome, hjob])).elim
  | some job =>
    cases hstate : job.state with
    | active pid => exact (hkept (by simp [checkOutcome, hjob, hstate])).elim
    | inactive status =>
      cases status with
      | finished exitCode message => exact (hkept (by simp [checkOutcome, hjob, hstate])).elim
      | stopped => exact (hkept (by simp [checkOutcome, hjob, hstate])).elim
      | pending waitingFor =>
        rw [checkInactiveJob_pending hjob hstate] at h
        dsimp only
        rw [hstate]
        dsimp only
        cases hdeps : depsFinished name deps job.config with
        | ok met =>
          cases met with
          | true => rfl
          | false =>
            rw [hdeps] at h
            exact absurd h (Nat.lt_irrefl _)
        | error err =>
          rw [hdeps] at h
          have hnext : NextIn (· = slot.next) (fail err env.save slot).2 := (stable_nextIn.fail err env.save).run rfl
          exact absurd h (Nat.not_lt.mpr (Nat.le_of_eq hnext))
      | running =>
        have hrun : checkInactiveJob name deps env slot = handleStoppedJob name env slot := by
          unfold checkInactiveJob
          rw [gets_bind, hjob]
          dsimp only
          rw [hstate]
        rw [hrun] at h
        simp [hstate, handleStoppedJob_next hjob h]

end JobSlot

/-! ## Passes -/

/-- The manager and the runners do this. -/
def JobsAct.ofManager : JobsAct → Bool
  | .check _ => true
  | .listProcesses => true
  | .updateActive .. => true
  | .checkInactive .. => true
  | .wake _ => true
  | .runnerSaves .. => true
  | .runnerEnds .. => true
  | _ => false

namespace JobsSt

/-- The half of a pass that comes next starts a runner for the job. -/
def due (s : JobsSt) (name : String) : Bool :=
  match s.phase with
  | .committed (some ps) => JobSlot.dueActive name (ps name) (s.slots name)
  | .examined => JobSlot.dueInactive name s.deps (s.slots name)
  | _ => false

theorem due_cases {s : JobsSt} {name : String} (h : s.due name = true) : ∃ job, s.deps name = some job ∧
    ((∃ pid, job.state = .active pid) ∨ job.state = .inactive .running ∨
      (∃ waitingFor, job.state = .inactive (.pending waitingFor)) ∧ JobSlot.depsFinished name s.deps job.config = .ok true) := by
  unfold due at h
  split at h
  · unfold JobSlot.dueActive at h
    split at h
    · rename_i job hjob
      refine ⟨job, hjob, .inl ?_⟩
      split at h
      · exact ⟨_, ‹_›⟩
      · cases h
    · cases h
  · unfold JobSlot.dueInactive at h
    split at h
    · rename_i job hjob
      refine ⟨job, hjob, .inr ?_⟩
      split at h
      · rename_i waitingFor hstate
        cases hdeps : JobSlot.depsFinished name s.deps job.config with
        | ok met =>
          rw [hdeps] at h
          exact .inr ⟨⟨waitingFor, hstate⟩, by rw [show met = true from h]⟩
        | error err => rw [hdeps] at h; cases h
      · exact .inl ‹_›
      · cases h
    · cases h
  · cases h

/-- The half of a pass that comes next ends the job for a dependency. -/
def breaks (s : JobsSt) (name : String) : Bool :=
  match s.phase with
  | .examined => JobSlot.breaks name s.deps (s.slots name)
  | _ => false

/-- Every job moves, and no other is there. -/
def AllMove (s s' : JobsSt) : Prop :=
  ∀ name, (s.deps name = none → s'.deps name = none) ∧
    ∀ job, s.deps name = some job → ∃ job', s'.deps name = some job' ∧ JobMoves name s.deps (s.breaks name) job job'

theorem allMove_of_jobs {s s' : JobsSt} (h : ∀ name, (s'.slots name).job = (s.slots name).job) : AllMove s s' := by
  intro name
  have hsame : s'.deps name = s.deps name := h name
  rw [hsame]
  exact ⟨id, fun job hjob => ⟨job, hjob, .kept⟩⟩

theorem half_moves {s : JobsSt} (h : Registered s) {order : List String} (hperm : order.Perm s.names) {m : String → SlotM Unit}
    (hm : ∀ name, JobSlot.Moved name s.deps (s.breaks name) (s.slots name) (m name (s.slots name))) (f : JobsSt → ManagerPhase) :
    (settle ((order.forM fun name => examine name s.deps (m name) : JobsM Unit) s) fun _ t => { t with phase := f t }).phase = .gone ∨
      AllMove s (settle ((order.forM fun name => examine name s.deps (m name) : JobsM Unit) s) fun _ t => { t with phase := f t }) := by
  have ht := forM_touched (onSlots_examine s.deps m) s (hperm.nodup_iff.mpr h.nodup)
  unfold settle
  revert ht
  cases (order.forM fun name => examine name s.deps (m name) : JobsM Unit) s with
  | mk r t =>
    intro ht
    cases r with
    | ok _ =>
      refine .inr fun name => ?_
      by_cases hmem : name ∈ order
      · obtain ⟨hslot, hended⟩ := ht.all rfl name hmem
        have hjob : t.deps name = (m name (s.slots name)).2.job := congrArg (·.job) hslot
        cases hm name with
        | inl hkilled => rw [hended] at hkilled; cases hkilled
        | inr hmoved =>
          show (s.deps name = none → t.deps name = none) ∧ ∀ job, s.deps name = some job → ∃ job', t.deps name = some job' ∧ _
          rw [hjob]
          exact hmoved.2
      · have hjob : t.deps name = s.deps name := congrArg (·.job) (ht.others name hmem)
        show (s.deps name = none → t.deps name = none) ∧ ∀ job, s.deps name = some job → ∃ job', t.deps name = some job' ∧ _
        rw [hjob]
        exact ⟨id, fun job hjob => ⟨job, hjob, .kept⟩⟩
    | error e =>
      obtain ⟨name, -, he⟩ := ht.failed e rfl
      cases hm name with
      | inl hkilled =>
        rw [he] at hkilled
        cases hkilled
        exact .inl rfl
      | inr hmoved => rw [he] at hmoved; cases hmoved.1

theorem manager_moves {s s' : JobsSt} (h : Registered s) {act : JobsAct} (hact : act.ofManager = true)
    (hs : s.step act = some s') : s'.phase = .gone ∨ AllMove s s' := by
  have hd := step_does hs
  have hset : ∀ name slot, slot.job = (s.slots name).job → AllMove s (s.setSlot name slot) := by
    intro name slot hslot
    refine allMove_of_jobs fun n => ?_
    by_cases hn : n = name
    · rw [hn, setSlot_same, hslot]
    · rw [setSlot_other s slot hn]
  cases act with
  | check seen =>
    obtain ⟨_, _, heq⟩ | ⟨_, _, heq⟩ | ⟨_, heq⟩ := hd <;> rw [heq]
    · exact .inr (allMove_of_jobs fun _ => rfl)
    · exact .inr (allMove_of_jobs fun _ => rfl)
    · exact .inl rfl
  | listProcesses => rw [hd.2]; exact .inr (allMove_of_jobs fun _ => rfl)
  | updateActive order env =>
    obtain ⟨ps, _, hperm, heq⟩ := hd
    rw [heq]
    exact half_moves h hperm (fun name => JobSlot.updateActiveJob_moved s.deps _ (s.slots name) name (ps name) (env name)) fun _ => .examined
  | checkInactive order env watch =>
    obtain ⟨hphase, hperm, heq⟩ := hd
    rw [heq]
    refine half_moves h hperm (fun name => ?_) _
    have hbreaks : s.breaks name = JobSlot.breaks name s.deps (s.slots name) := by
      unfold breaks
      rw [hphase]
    rw [hbreaks]
    exact JobSlot.checkInactiveJob_moved s.deps (s.slots name) name (env name)
  | wake wakeUp =>
    obtain ⟨_, _, _, heq⟩ := hd
    rw [heq]
    exact .inr (allMove_of_jobs fun _ => rfl)
  | runnerSaves name pid save =>
    rw [hd.2]
    exact .inr (hset name _ (JobSlot.job_writeStatus ..))
  | runnerEnds name pid =>
    rw [hd.2]
    exact .inr (hset name _ rfl)
  | _ => cases hact

/-- What a half of a pass on one job adds to the record. -/
theorem examine_records (name : String) (deps : String → Option Job) (m : SlotM Unit) (s : JobsSt) :
    ∃ new, (examine name deps m s).2.passed = s.passed ++ new ∧ (∀ n, n ≠ name → (examine name deps m s).2.slots n = s.slots n) ∧
      ∀ e ∈ new, e.name = name ∧ e.deps = deps ∧ (s.slots name).job = some e.job ∧
        (e.started = true → (s.slots name).next < (m (s.slots name)).2.next) := by
  unfold examine onSlot zoom
  dsimp only
  have hothers : ∀ n, n ≠ name → (s.setSlot name (m (s.slots name)).2).slots n = s.slots n := fun n hn => setSlot_other s _ hn
  cases hjob : (s.slots name).job with
  | none => exact ⟨[], (List.append_nil _).symm, hothers, by simp⟩
  | some job =>
    refine ⟨_, rfl, hothers, fun e he => ?_⟩
    rw [List.mem_singleton.mp he, setSlot_same]
    exact ⟨rfl, rfl, rfl, fun hstarted => of_decide_eq_true hstarted⟩

/-- A half of a pass adds to the record what it makes of each job as that was before it. -/
theorem forM_records (deps : String → Option Job) (m : String → SlotM Unit) :
    ∀ {order : List String} (s : JobsSt), order.Nodup →
      ∃ new, ((order.forM fun name => examine name deps (m name) : JobsM Unit) s).2.passed = s.passed ++ new ∧
        ∀ e ∈ new, e.name ∈ order ∧ e.deps = deps ∧ (s.slots e.name).job = some e.job ∧
          (e.started = true → (s.slots e.name).next < (m e.name (s.slots e.name)).2.next)
  | [], s, _ => ⟨[], (List.append_nil _).symm, by simp⟩
  | name :: order, s, hnodup => by
    obtain ⟨hnot, hnodup⟩ := List.nodup_cons.mp hnodup
    obtain ⟨first, hpassed, hothers, hfirst⟩ := examine_records name deps (m name) s
    have hone : ∀ e ∈ first, e.name ∈ name :: order ∧ e.deps = deps ∧ (s.slots e.name).job = some e.job ∧
        (e.started = true → (s.slots e.name).next < (m e.name (s.slots e.name)).2.next) := by
      intro e he
      obtain ⟨hname, hevent⟩ := hfirst e he
      rw [hname]
      exact ⟨List.mem_cons_self, hevent⟩
    show ∃ new, ((examine name deps (m name) >>= fun _ => order.forM fun name => examine name deps (m name) : JobsM Unit) s).2.passed = _ ∧ _
    cases hr : examine name deps (m name) s with
    | mk r t =>
      rw [hr] at hpassed hothers
      cases r with
      | error e =>
        rw [bind_of_error hr]
        exact ⟨first, hpassed, hone⟩
      | ok _ =>
        rw [bind_of_ok hr]
        obtain ⟨rest, hrest, hevents⟩ := forM_records deps m t hnodup
        refine ⟨first ++ rest, by rw [hrest, hpassed, List.append_assoc], fun e he => ?_⟩
        cases List.mem_append.mp he with
        | inl he => exact hone e he
        | inr he =>
          obtain ⟨hmem, hevent⟩ := hevents e he
          rw [hothers e.name fun heq => hnot (heq ▸ hmem)] at hevent
          exact ⟨List.mem_cons_of_mem _ hmem, hevent⟩

/-- **What a pass adds to the record**: it saw the jobs as they were before it, and a runner that it
started was due. -/
theorem manager_records {s s' : JobsSt} (h : Registered s) {act : JobsAct} (hact : act.ofManager = true)
    (hs : s.step act = some s') : ∃ new, s'.passed = s.passed ++ new ∧
      ∀ e ∈ new, e.deps = s.deps ∧ s.deps e.name = some e.job ∧ (e.started = true → s.due e.name = true) := by
  have hd := step_does hs
  have hnone : ∀ {s' : JobsSt}, s'.passed = s.passed → ∃ new, s'.passed = s.passed ++ new ∧
      ∀ e ∈ new, e.deps = s.deps ∧ s.deps e.name = some e.job ∧ (e.started = true → s.due e.name = true) := fun hsame =>
    ⟨[], by rw [hsame, List.append_nil], by simp⟩
  have hhalf : ∀ {order : List String} {m : String → SlotM Unit} (f : JobsSt → ManagerPhase), order.Perm s.names →
      (∀ name, (s.slots name).next < (m name (s.slots name)).2.next → s.due name = true) →
      ∃ new, (settle ((order.forM fun name => examine name s.deps (m name) : JobsM Unit) s) fun _ t => { t with phase := f t }).passed =
          s.passed ++ new ∧
        ∀ e ∈ new, e.deps = s.deps ∧ s.deps e.name = some e.job ∧ (e.started = true → s.due e.name = true) := by
    intro order m f hperm hdue
    obtain ⟨new, hpassed, hevents⟩ := forM_records s.deps m s (hperm.nodup_iff.mpr h.nodup)
    refine ⟨new, ?_, fun e he => ?_⟩
    · rw [← hpassed]
      unfold settle
      cases (order.forM fun name => examine name s.deps (m name) : JobsM Unit) s with
      | mk r t =>
        cases r with
        | ok _ => rfl
        | error e => cases e <;> rfl
    · obtain ⟨-, hdeps, hjob, hstarted⟩ := hevents e he
      exact ⟨hdeps, hjob, fun hstart => hdue e.name (hstarted hstart)⟩
  cases act with
  | check seen =>
    obtain ⟨_, _, heq⟩ | ⟨_, _, heq⟩ | ⟨_, heq⟩ := hd <;> exact hnone (by rw [heq])
  | listProcesses => exact hnone (by rw [hd.2])
  | updateActive order env =>
    obtain ⟨ps, hphase, hperm, heq⟩ := hd
    rw [heq]
    refine hhalf (m := fun name => JobSlot.updateActiveJob name (ps name) (env name)) (fun _ => .examined) hperm fun name hnext => ?_
    unfold due
    rw [hphase]
    exact JobSlot.updateActiveJob_next hnext
  | checkInactive order env watch =>
    obtain ⟨hphase, hperm, heq⟩ := hd
    rw [heq]
    refine hhalf (m := fun name => JobSlot.checkInactiveJob name s.deps (env name)) _ hperm fun name hnext => ?_
    unfold due
    rw [hphase]
    exact JobSlot.checkInactiveJob_next hnext
  | wake wakeUp =>
    obtain ⟨_, _, _, heq⟩ := hd
    exact hnone (by rw [heq])
  | runnerSaves name pid save => exact hnone (by rw [hd.2]; rfl)
  | runnerEnds name pid => exact hnone (by rw [hd.2]; rfl)
  | _ => cases hact

/-- A manager that is gone does not come back. -/
theorem manager_gone {s s' : JobsSt} (hgone : s.phase = .gone) {act : JobsAct} (hact : act.ofManager = true)
    (hs : s.step act = some s') : s'.phase = .gone := by
  have hd := step_does hs
  cases act with
  | check seen =>
    obtain ⟨hphase, _⟩ | ⟨hphase, _⟩ | ⟨hphase, _⟩ := hd <;> cases hgone.symm.trans hphase
  | listProcesses => cases hgone.symm.trans hd.1
  | updateActive order env =>
    obtain ⟨_, hphase, _⟩ := hd
    cases hgone.symm.trans hphase
  | checkInactive order env watch => cases hgone.symm.trans hd.1
  | wake wakeUp =>
    have hwaits := hd.1
    rw [hgone] at hwaits
    cases hwaits
  | runnerSaves name pid save => rw [hd.2]; exact hgone
  | runnerEnds name pid => rw [hd.2]; exact hgone
  | _ => cases hact

theorem due_gone {s : JobsSt} (h : s.phase = .gone) (name : String) : s.due name = false := by
  unfold due
  rw [h]

end JobsSt

/-! ## Clients -/

namespace JobSlot

theorem saveStatus_job (state : JobState) (fault : Fault DocCut) (before : Option Job) :
    Keeps (fun s => s.job = before) (fun s => s.job = before) (saveStatus state fault) := by
  unfold saveStatus
  split
  · exact Keeps.pure
  · refine Keeps.of_run fun s h => ?_
    unfold clearStatus
    split
    · exact h
    · exact (job_removeStatus ..).trans h
  · exact Keeps.of_run fun s h => (job_writeStatus ..).trans h

theorem terminateActive_job (name : String) (env : TerminateEnv) (before : Option Job) :
    Keeps (fun s => s.job = before) (fun s => s.job = before) (terminateActive name env) := by
  refine Keeps.of_run fun s h => ?_
  have hends := (@terminate_ends s name env).conseq (fun _ h => h) (fun _ _ h => h.1) fun _ _ h => h.1
  exact (hends.run rfl).trans h

/-- A create leaves the new job, or fails and leaves the old one. -/
theorem create_job (name : String) (config : JobConfig) (room : Bool) (env : CreateEnv) (before : Option Job) :
    Triple (fun s => s.job = before) (create name config room env) (fun _ s => s.job = some ⟨config, .inactive .stopped⟩)
      fun _ s => s.job = before := by
  have hexit : ∀ {α : Type} {m : SlotM α}, Keeps (fun s => s.job = before) (fun s => s.job = before) m →
      Triple (fun s : JobSlot => s.job = before) m (fun _ s => s.job = before) fun _ s => s.job = before := fun h =>
    h.exit fun e _ hs => by cases e <;> exact hs
  refine Triple.bind (hexit Keeps.gets) fun job => Triple.bind (hexit (Keeps.when Keeps.throw)) fun _ => ?_
  refine Triple.bind (hexit (terminateActive_job name _ before)) fun _ => ?_
  refine Triple.bind (hexit (Keeps.of_run fun _ h => h)) fun _ => Triple.bind (hexit (saveStatus_job _ _ before)) fun _ => ?_
  exact Triple.bind (hexit (Keeps.of_run fun _ h => h)) fun _ => Triple.modify fun _ _ => rfl

/-- A start makes an inactive job Pending, whether or not its status is saved. -/
theorem start_job (name : String) (save : Fault DocCut) (slot : JobSlot) :
    ((start name save slot).2.job = slot.job ∧ ((start name save slot).1.isOk = true → ∃ pid, slot.job.map (·.state) = some (.active pid))) ∨
      ∃ job status, slot.job = some job ∧ job.state = .inactive status ∧
        (start name save slot).2.job = some { job with state := .inactive (.pending job.config.waitingFor) } := by
  unfold start
  rw [gets_bind]
  cases hjob : slot.job with
  | none => exact .inl ⟨hjob, fun hok => by cases hok⟩
  | some job =>
    dsimp only
    cases hstate : job.state with
    | active pid => exact .inl ⟨hjob, fun _ => ⟨pid, by rw [Option.map_some, hstate]⟩⟩
    | inactive status =>
      refine .inr ⟨job, status, rfl, hstate, ?_⟩
      have hset : (slot.withState (.inactive (.pending job.config.waitingFor))).job =
          some { job with state := .inactive (.pending job.config.waitingFor) } := by
        rw [withState, hjob]
        rfl
      have hsaved := Triple.bind (f := fun _ => (pure true : SlotM Bool)) (saveStatus_job (.inactive (.pending job.config.waitingFor)) save
        (some { job with state := .inactive (.pending job.config.waitingFor) })) fun _ => Keeps.pure
      exact Keeps.run hsaved hset

/-- A stop makes a job Stopped, or fails and leaves it as it is. -/
theorem halt_job (name : String) (status : JobStatus) (env : HaltEnv) (slot : JobSlot) :
    ((halt name status env slot).2.job = slot.job ∧ (halt name status env slot).1.isOk = false) ∨
      ∃ job, slot.job = some job ∧ (halt name status env slot).2.job = some { job with state := .inactive status } := by
  cases hjob : slot.job with
  | none =>
    have hrun : halt name status env slot = (.error (.error s!"can't stop, job '{name}' not found"), slot) := by
      unfold halt
      rw [gets_bind, hjob]
      rfl
    rw [hrun]
    exact .inl ⟨hjob, rfl⟩
  | some job =>
    have hhalt : Triple (fun s => s.job = some job) (halt name status env)
        (fun _ s => s.job = some { job with state := .inactive status })
        fun _ s => s.job = some job ∨ s.job = some { job with state := .inactive status } := by
      have hexit : ∀ {α : Type} {m : SlotM α} {before : Job}, (before = job ∨ before = { job with state := .inactive status }) →
          Keeps (fun s => s.job = some before) (fun s => s.job = some before) m →
          Triple (fun s : JobSlot => s.job = some before) m (fun _ s => s.job = some before)
            fun _ s => s.job = some job ∨ s.job = some { job with state := .inactive status } := by
        intro α m before hbefore h
        refine h.exit fun e s hs => ?_
        have hs : s.job = some before := by cases e <;> exact hs
        rw [hs]
        exact hbefore.imp (congrArg some) (congrArg some)
      refine Triple.bind (hexit (.inl rfl) Keeps.gets) fun found => Triple.bind (hexit (.inl rfl) (Keeps.when Keeps.throw)) fun _ => ?_
      refine Triple.bind (hexit (.inl rfl) (terminateActive_job name _ _)) fun _ => ?_
      refine Triple.bind (R := fun _ s => s.job = some { job with state := .inactive status }) ?_ fun _ => ?_
      · exact Triple.modify fun s h => by rw [withState, h]; rfl
      · exact hexit (.inr rfl) (saveStatus_job _ _ _)
    have hs := hhalt slot hjob
    cases hr : halt name status env slot with
    | mk r s =>
      rw [hr] at hs
      cases r with
      | ok _ => exact .inr ⟨job, rfl, hs⟩
      | error e =>
        cases hs with
        | inl hsame => exact .inl ⟨hsame, rfl⟩
        | inr hstopped => exact .inr ⟨job, rfl, hstopped⟩

end JobSlot

namespace JobsSt

/-- The operations of clients up to what `settle` adds when they return. -/
def createRun (s : JobsSt) (name : String) (config : JobConfig) (env : CreateEnv) : Except (Exit String) Unit × JobsSt :=
  let s := halting name { s with known := register s.known name }
  onSlot name (JobSlot.create name config (s.names.length < maxJobs) env) s

def startRun (s : JobsSt) (name : String) (save : Fault DocCut) : Except (Exit String) Bool × JobsSt :=
  let active := (s.slots name).activePid.isSome
  onSlot name (JobSlot.start name save)
    (s.setSlot name { s.slots name with halted := false, asked := (s.slots name).asked && active })

def stopRun (s : JobsSt) (name : String) (env : HaltEnv) : Except (Exit String) Unit × JobsSt :=
  onSlot name (JobSlot.stopJob name env) (halting name s)

def stopAllRun (s : JobsSt) (order : List String) (env : String → HaltEnv) : Except (Exit String) Unit × JobsSt :=
  (order.forM fun name => onSlot name (JobSlot.stopJob name (env name)) : JobsM Unit) (order.foldl (fun s name => halting name s) s)

/-- A client's operation on a job, unless babel is killed: what has become of the job, the others are as
they were. -/
def ClientStep (s s' : JobsSt) (name : String) (after : Option Job) : Prop :=
  s'.phase = s.phase ∧ (∀ n, n ≠ name → s'.deps n = s.deps n) ∧ s'.deps name = after

theorem deps_setSlot (s : JobsSt) (name : String) (slot : JobSlot) :
    (∀ n, n ≠ name → (s.setSlot name slot).deps n = s.deps n) ∧ (s.setSlot name slot).deps name = slot.job := by
  refine ⟨fun n hn => congrArg (·.job) (setSlot_other s slot hn), congrArg (·.job) (setSlot_same s name slot)⟩

/-- A slot is replaced by one with the same job. -/
theorem deps_setSlot_job {s : JobsSt} {name : String} {slot : JobSlot} (h : slot.job = (s.slots name).job) :
    (s.setSlot name slot).deps = s.deps := by
  funext n
  by_cases hn : n = name
  · rw [hn, (deps_setSlot s name slot).2, h]
    rfl
  · exact (deps_setSlot s name slot).1 n hn

theorem deps_halting (name : String) (s : JobsSt) : (halting name s).deps = s.deps := deps_setSlot_job rfl

theorem deps_halted (name : String) (s : JobsSt) : (halted name s).deps = s.deps := deps_setSlot_job rfl

theorem settle_client {α : Type} {s t : JobsSt} (name : String) (m : SlotM α) (ok : α → JobsSt → JobsSt)
    (hdeps : t.deps = s.deps) (hphase : t.phase = s.phase) (hok : ∀ a t, (ok a t).phase = t.phase ∧ (ok a t).deps = t.deps) :
    ((settle (onSlot name m t) ok).phase = .gone ∧ (m (t.slots name)).1 = .error .killed) ∨
      ClientStep s (settle (onSlot name m t) ok) name (m (t.slots name)).2.job := by
  obtain ⟨hothers, hthis⟩ := deps_setSlot t name (m (t.slots name)).2
  rw [hdeps] at hothers
  unfold settle onSlot zoom
  cases hr : (m (t.slots name)).1 with
  | ok a =>
    obtain ⟨hp, hd⟩ := hok a (t.setSlot name (m (t.slots name)).2)
    refine .inr ⟨hp.trans hphase, fun n hn => ?_, ?_⟩
    · exact (congrFun hd n).trans (hothers n hn)
    · exact (congrFun hd name).trans hthis
  | error e =>
    cases e with
    | error e => exact .inr ⟨hphase, hothers, hthis⟩
    | killed => exact .inl ⟨rfl, rfl⟩

/-- **A create**: a new job that is Stopped, or the old one if it fails. -/
theorem create_client (s : JobsSt) (name : String) (config : JobConfig) (env : CreateEnv) :
    ((s.create name config env).phase = .gone ∧ (s.createRun name config env).1.isOk = false) ∨
      ClientStep s (s.create name config env) name
        (if (s.createRun name config env).1.isOk then some ⟨config, .inactive .stopped⟩ else s.deps name) := by
  let t : JobsSt := halting name { s with known := register s.known name }
  have hdeps : t.deps = s.deps := deps_halting name _
  have hstep := settle_client (s := s) (t := t) name (JobSlot.create name config (t.names.length < maxJobs) env)
    (fun _ s => halted name { s with names := register s.names name }) hdeps rfl fun _ t => ⟨rfl, deps_halted name _⟩
  have hjob := JobSlot.create_job name config (t.names.length < maxJobs) env (s.deps name) (t.slots name) (congrFun hdeps name)
  have hrun : (s.createRun name config env).1 = (JobSlot.create name config (t.names.length < maxJobs) env (t.slots name)).1 := rfl
  have hsame : s.create name config env = settle (onSlot name (JobSlot.create name config (t.names.length < maxJobs) env) t)
    fun _ s => halted name { s with names := register s.names name } := rfl
  rw [hrun, hsame]
  cases hr : JobSlot.create name config (t.names.length < maxJobs) env (t.slots name) with
  | mk r slot =>
    rw [hr] at hstep hjob
    cases hstep with
    | inl hkilled => exact .inl ⟨hkilled.1, by rw [hkilled.2]; rfl⟩
    | inr hstep =>
      cases r with
      | ok _ => exact .inr (hjob ▸ hstep)
      | error e => exact .inr (hjob ▸ hstep)

/-- **A start**: an inactive job is Pending, also when its status is not saved. -/
theorem start_client (s : JobsSt) (name : String) (save : Fault DocCut) :
    ((s.start name save).phase = .gone ∧ (s.startRun name save).1.isOk = false) ∨
      (ClientStep s (s.start name save) name (s.deps name) ∧
        ((s.startRun name save).1.isOk = true → ∃ job pid, s.deps name = some job ∧ job.state = .active pid)) ∨
      ∃ job status, s.deps name = some job ∧ job.state = .inactive status ∧
        ClientStep s (s.start name save) name (some { job with state := .inactive (.pending job.config.waitingFor) }) := by
  let t : JobsSt := s.setSlot name
    { s.slots name with halted := false, asked := (s.slots name).asked && (s.slots name).activePid.isSome }
  have hdeps : t.deps = s.deps := deps_setSlot_job rfl
  have hslot : (t.slots name).job = s.deps name := congrFun hdeps name
  have hstep := settle_client (s := s) (t := t) name (JobSlot.start name save)
    (fun sent s => { s.setSlot name { s.slots name with asked := (s.slots name).asked || sent } with
      jobStarted := s.jobStarted || sent }) hdeps rfl fun sent t => ⟨rfl, @deps_setSlot_job t name _ rfl⟩
  cases hstep with
  | inl hkilled =>
    refine .inl ⟨hkilled.1, ?_⟩
    show (JobSlot.start name save (t.slots name)).1.isOk = false
    rw [hkilled.2]
    rfl
  | inr hstep =>
    cases JobSlot.start_job name save (t.slots name) with
    | inl hsame =>
      rw [hsame.1, hslot] at hstep
      refine .inr (.inl ⟨hstep, fun hok => ?_⟩)
      obtain ⟨pid, hactive⟩ := hsame.2 hok
      rw [hslot] at hactive
      cases hjob : s.deps name with
      | none => rw [hjob] at hactive; cases hactive
      | some job =>
        rw [hjob] at hactive
        exact ⟨job, pid, rfl, Option.some.inj hactive⟩
    | inr hpending =>
      obtain ⟨job, status, hjob, hstate, hafter⟩ := hpending
      rw [hafter] at hstep
      exact .inr (.inr ⟨job, status, hslot ▸ hjob, hstate, hstep⟩)

/-- **A stop**: the job is Stopped, or it fails and the job is as it was. -/
theorem stop_client (s : JobsSt) (name : String) (env : HaltEnv) :
    ((s.stop name env).phase = .gone ∧ (s.stopRun name env).1.isOk = false) ∨
      (ClientStep s (s.stop name env) name (s.deps name) ∧ (s.stopRun name env).1.isOk = false) ∨
      ∃ job, s.deps name = some job ∧ ClientStep s (s.stop name env) name (some { job with state := .inactive .stopped }) := by
  have hdeps : (halting name s).deps = s.deps := deps_halting name s
  have hslot : ((halting name s).slots name).job = s.deps name := congrFun hdeps name
  have hstep := settle_client (s := s) (t := halting name s) name (JobSlot.stopJob name env)
    (fun _ s => halted name s) hdeps rfl fun _ t => ⟨rfl, deps_halted name t⟩
  cases hstep with
  | inl hkilled =>
    refine .inl ⟨hkilled.1, ?_⟩
    show (JobSlot.stopJob name env ((halting name s).slots name)).1.isOk = false
    rw [hkilled.2]
    rfl
  | inr hstep =>
    cases JobSlot.halt_job name .stopped env ((halting name s).slots name) with
    | inl hsame =>
      have hafter : (JobSlot.stopJob name env ((halting name s).slots name)).2.job = s.deps name := hsame.1.trans hslot
      rw [hafter] at hstep
      exact .inr (.inl ⟨hstep, hsame.2⟩)
    | inr hstopped =>
      obtain ⟨job, hjob, hafter⟩ := hstopped
      have hafter : (JobSlot.stopJob name env ((halting name s).slots name)).2.job = some { job with state := .inactive .stopped } := hafter
      rw [hafter] at hstep
      exact .inr (.inr ⟨job, hslot ▸ hjob, hstep⟩)

theorem fold_same {β : Type} (g : JobsSt → β) {f : JobsSt → String → JobsSt} (hf : ∀ s name, g (f s name) = g s) (names : List String)
    (s : JobsSt) : g (names.foldl f s) = g s :=
  fold_keeps (I := fun t => g t = g s) (fun t name _ ht => (hf t name).trans ht) rfl

/-- **A stop of all jobs**: none is made anything but Stopped, and when it returns all are. -/
theorem stopAll_client {s : JobsSt} (h : Registered s) {order : List String} (hperm : order.Perm s.names) (env : String → HaltEnv) :
    ((s.stopAll order env).phase = .gone ∧ (s.stopAllRun order env).1.isOk = false) ∨
      (s.stopAll order env).phase = s.phase ∧
        (∀ name, (s.stopAll order env).deps name = s.deps name ∨
          ∃ job, s.deps name = some job ∧ (s.stopAll order env).deps name = some { job with state := .inactive .stopped }) ∧
        ((s.stopAllRun order env).1.isOk = true → ∀ name job, (s.stopAll order env).deps name = some job →
          job.state = .inactive .stopped) := by
  let t : JobsSt := order.foldl (fun s name => halting name s) s
  have hdeps : t.deps = s.deps := fold_same deps (fun s name => deps_halting name s) order s
  have hphase : t.phase = s.phase := fold_same (·.phase) (f := fun s name => halting name s) (fun _ _ => rfl) order s
  have ht := forM_touched (onSlots_onSlot fun name => JobSlot.stopJob name (env name)) t (hperm.nodup_iff.mpr h.nodup)
  have hstopped : ∀ name, (JobSlot.stopJob name (env name) (t.slots name)).2.job = s.deps name ∧
        (JobSlot.stopJob name (env name) (t.slots name)).1.isOk = false ∨
      ∃ job, s.deps name = some job ∧
        (JobSlot.stopJob name (env name) (t.slots name)).2.job = some { job with state := .inactive .stopped } := by
    intro name
    have hslot : (t.slots name).job = s.deps name := congrFun hdeps name
    cases JobSlot.halt_job name .stopped (env name) (t.slots name) with
    | inl hsame => exact .inl ⟨hsame.1.trans hslot, hsame.2⟩
    | inr hstopped =>
      obtain ⟨job, hjob, hafter⟩ := hstopped
      exact .inr ⟨job, hslot ▸ hjob, hafter⟩
  have hmay : ∀ {u : JobsSt} {r : Except (Exit String) Unit}, Touched t u order (fun name => JobSlot.stopJob name (env name)) r →
      u.phase = s.phase ∧ ∀ name, u.deps name = s.deps name ∨
        ∃ job, s.deps name = some job ∧ u.deps name = some { job with state := .inactive .stopped } := by
    intro u r htouched
    refine ⟨?_, fun name => ?_⟩
    · obtain ⟨slots, passed, heq⟩ := htouched.same
      rw [heq]
      exact hphase
    · cases htouched.slots name with
      | inl hsame => exact .inl ((congrArg (·.job) hsame).trans (congrFun hdeps name))
      | inr htouched =>
        have hjob : u.deps name = (JobSlot.stopJob name (env name) (t.slots name)).2.job := congrArg (·.job) htouched.2.1
        rw [hjob]
        exact (hstopped name).imp_left (·.1)
  have hsame : s.stopAll order env = settle (s.stopAllRun order env) fun _ s => order.foldl (fun s name => halted name s) s := rfl
  have hrun : s.stopAllRun order env = (order.forM fun name => onSlot name (JobSlot.stopJob name (env name)) : JobsM Unit) t := rfl
  rw [← hrun] at ht
  rw [hsame]
  revert ht
  cases s.stopAllRun order env with
  | mk r u =>
    intro ht
    obtain ⟨hp, hall⟩ := hmay ht
    cases r with
    | ok _ =>
      have hfold : (order.foldl (fun s name => halted name s) u).deps = u.deps := fold_same deps (fun s name => deps_halted name s) order u
      have hfold' : (order.foldl (fun s name => halted name s) u).phase = u.phase :=
        fold_same (·.phase) (f := fun s name => halted name s) (fun _ _ => rfl) order u
      refine .inr ⟨hfold'.trans hp, fun name => ?_, fun _ name job hjob => ?_⟩
      · show (order.foldl (fun s name => halted name s) u).deps name = _ ∨ ∃ job, _ ∧ (order.foldl (fun s name => halted name s) u).deps name = _
        rw [hfold]
        exact hall name
      · change (order.foldl (fun s name => halted name s) u).deps name = some job at hjob
        rw [hfold] at hjob
        by_cases hmem : name ∈ order
        · obtain ⟨hslot, hok⟩ := ht.all rfl name hmem
          have hjob' : u.deps name = (JobSlot.stopJob name (env name) (t.slots name)).2.job := congrArg (·.job) hslot
          cases hstopped name with
          | inl hnot =>
            rw [hok] at hnot
            cases hnot.2
          | inr hdone =>
            obtain ⟨before, -, hafter⟩ := hdone
            rw [hjob', hafter] at hjob
            cases hjob
            rfl
        · have hnone : (s.slots name).job = none := by
            have hnot := mt (h.jobs name).mpr fun hname => hmem (hperm.mem_iff.mpr hname)
            simpa using hnot
          have hjob' : u.deps name = none := (congrArg (·.job) (ht.others name hmem)).trans ((congrFun hdeps name).trans hnone)
          rw [hjob'] at hjob
          cases hjob
    | error e =>
      cases e with
      | error e => exact .inr ⟨hp, hall, fun hok => by cases hok⟩
      | killed => exact .inl ⟨rfl, rfl⟩

end JobsSt

end Blockvisor
