/-
A plugin at work on the jobs of its node. Its operations come one after another
(`init`, `reload_plugin_config`, `upload`), each with the configuration it
finds; what they have still to do is a script. A call about jobs is tried until
it returns Ok and is heard, or is given up, so it may have been done several
times, or once and be taken for failed. Between any two attempts the jobs
manager may go on with its passes, and runners may save, and end.

`returned` and `passed` are ghosts: the calls about jobs that returned Ok in
this operation, and what the passes came to, with what was left of the
operation then.
-/
import Blockvisor.BabelApi.InitGraph
import Blockvisor.Babel.JobMoves

namespace Blockvisor

open Machine RhaiPlugin

/-- What the jobs manager makes of the configuration of a job. -/
def managerConfig (config : Engine.JobConfig) : JobConfig where
  restart :=
    match config.restart with
    | .never => .never
    | .always _ => .always
    | .onFailure _ => .onFailure
  needs := config.needs
  waitFor := config.waitFor

def EngineCall.ofJobs : EngineCall → Bool
  | .stopAllJobs => true
  | .createJob .. => true
  | .startJob _ => true
  | .stopJob _ => true
  | .getJobs => true
  | _ => false

inductive PluginOp where
  | init
  | reload
  | upload
  deriving DecidableEq

/-- What an operation does with a configuration. -/
def PluginOp.script (config : PluginConfig) : PluginOp → PluginM Unit
  | .init => RhaiPlugin.init (.ok (some config))
  | .reload => do
    let _ ← reloadPluginConfig (.ok (some config))
    pure ()
  | .upload => defaultUpload (some config)

/-- What the end of a half of a pass on a job was like: the operation, whether it had stopped the
services, and what was left of it. -/
structure PassEvent where
  op : Option (PluginOp × PluginConfig)
  halted : Bool
  rest : PluginM Unit
  event : JobEvent

structure PluginSt where
  jobs : JobsSt
  op : Option (PluginOp × PluginConfig)
  script : PluginM Unit
  returned : List EngineCall
  passed : List PassEvent

/-- What a call about jobs meets in babel. -/
inductive JobCallEnv where
  | create (env : CreateEnv)
  | start (save : Fault DocCut)
  | stop (env : HaltEnv)
  | stopAll (order : List String) (env : String → HaltEnv)
  | none

inductive PluginAct where
  | manager (act : JobsAct)
  | begin (op : PluginOp) (config : PluginConfig)
  | attempt (env : JobCallEnv) (heard : Bool)
  | giveUp (err : String)
  | reply (replies : (c : EngineCall) → c.Reply)

/-- What an operation of the jobs manager answers, if it returns. -/
def answerOf {α : Type} (r : Except (Exit String) α) : Option Unit := if r.isOk then some () else none

/-- An attempt at a call about jobs: its answer, if it returns Ok, and the jobs after it. -/
def attemptCall (s : JobsSt) : (c : EngineCall) → JobCallEnv → Option (Option c.Answer × JobsSt)
  | .createJob name config, .create env =>
    (s.step (.create name (managerConfig config) env)).map fun s' => (answerOf (s.createRun name (managerConfig config) env).1, s')
  | .startJob name, .start save => (s.step (.start name save)).map fun s' => (answerOf (s.startRun name save).1, s')
  | .stopJob name, .stop env => (s.step (.stop name env)).map fun s' => (answerOf (s.stopRun name env).1, s')
  | .stopAllJobs, .stopAll order env =>
    (s.step (.stopAll order env)).map fun s' => (answerOf (s.stopAllRun order env).1, s')
  | .getJobs, .none => if s.unlocked then some (some s.names, s) else none
  | _, _ => none

namespace PluginSt

/-- The services that use the data are stopped, if that is what the operation does first. -/
def halted (s : PluginSt) : Bool :=
  match s.op with
  | some (.init, _) => s.returned.any fun
    | .stopAllJobs => true
    | _ => false
  | some (.upload, config) => (dataServices config).all fun name => s.returned.any fun
    | .stopJob n => n = name
    | _ => false
  | _ => true

/-- No operation yet, on the jobs as they are. -/
def idle (jobs : JobsSt) : PluginSt := ⟨jobs, none, .done (.ok ()), [], []⟩

/-- The jobs after something the manager did. -/
def observe (s : PluginSt) (jobs : JobsSt) : PluginSt :=
  { s with
    jobs
    passed := s.passed ++ (jobs.passed.drop s.jobs.passed.length).map fun event => ⟨s.op, s.halted, s.script, event⟩ }

def step (s : PluginSt) : PluginAct → Option PluginSt
  | .manager act => if act.ofManager then (s.jobs.step act).map s.observe else none
  | .begin op config =>
    match s.script with
    | .done _ =>
      if config.validate = .ok () then some { s with op := some (op, config), script := op.script config, returned := [] }
      else none
    | .call _ _ => none
  | .attempt env heard =>
    match s.script with
    | .done _ => none
    | .call c k =>
      match attemptCall s.jobs c env with
      | none => none
      | some (none, jobs) => some { s with jobs }
      | some (some answer, jobs) =>
        if heard then some { s with jobs, script := k (.ok answer), returned := s.returned ++ [c] } else some { s with jobs }
  | .giveUp err =>
    match s.script with
    | .done _ => none
    | .call _ k => some { s with script := k (.error err) }
  | .reply replies =>
    match s.script with
    | .done _ => none
    | .call c k => if c.ofJobs then none else some { s with script := k (replies c) }

/-! ## What a step does -/

/-- The guard of a step, and the state it leads to. -/
def Does (s s' : PluginSt) : PluginAct → Prop
  | .manager act => act.ofManager = true ∧ ∃ jobs, s.jobs.step act = some jobs ∧ s' = s.observe jobs
  | .begin op config =>
    (∃ r, s.script = .done r) ∧ config.validate = .ok () ∧
      s' = { s with op := some (op, config), script := op.script config, returned := [] }
  | .attempt env _ =>
    ∃ c k answer jobs, s.script = .call c k ∧ attemptCall s.jobs c env = some (answer, jobs) ∧
      (s' = { s with jobs } ∨
        ∃ a, answer = some a ∧ s' = { s with jobs, script := k (.ok a), returned := s.returned ++ [c] })
  | .giveUp err => ∃ c k, s.script = .call c k ∧ s' = { s with script := k (.error err) }
  | .reply replies => ∃ c k, s.script = .call c k ∧ c.ofJobs = false ∧ s' = { s with script := k (replies c) }

theorem step_does {s s' : PluginSt} {act : PluginAct} (hs : s.step act = some s') : Does s s' act := by
  cases act with
  | manager act =>
    simp only [step] at hs
    split at hs
    · obtain ⟨jobs, hjobs, heq⟩ := Option.map_eq_some_iff.mp hs
      exact ⟨‹_›, jobs, hjobs, heq.symm⟩
    · cases hs
  | begin op config =>
    simp only [step] at hs
    split at hs
    · split at hs
      · cases hs
        exact ⟨⟨_, ‹_›⟩, ‹_›, rfl⟩
      · cases hs
    · cases hs
  | attempt env heard =>
    simp only [step] at hs
    split at hs
    · cases hs
    · rename_i c k hscript
      split at hs
      · cases hs
      · rename_i jobs hattempt
        cases hs
        exact ⟨c, k, _, jobs, hscript, hattempt, .inl rfl⟩
      · rename_i answer jobs hattempt
        split at hs
        · cases hs
          exact ⟨c, k, _, jobs, hscript, hattempt, .inr ⟨answer, rfl, rfl⟩⟩
        · cases hs
          exact ⟨c, k, _, jobs, hscript, hattempt, .inl rfl⟩
  | giveUp err =>
    simp only [step] at hs
    split at hs
    · cases hs
    · cases hs
      exact ⟨_, _, ‹_›, rfl⟩
  | reply replies =>
    simp only [step] at hs
    split at hs
    · cases hs
    · split at hs
      · cases hs
      · rename_i c k hscript hnot
        cases hs
        exact ⟨c, k, hscript, by simpa using hnot, rfl⟩

/-- An attempt at a call about jobs is a step of the jobs manager, or asks for its jobs only. -/
theorem attempt_step {s jobs : JobsSt} {c : EngineCall} {env : JobCallEnv} {answer : Option c.Answer}
    (h : attemptCall s c env = some (answer, jobs)) : jobs = s ∨ ∃ act, s.step act = some jobs := by
  unfold attemptCall at h
  split at h
  case h_5 =>
    split at h
    · cases h
      exact .inl rfl
    · cases h
  case h_6 => cases h
  all_goals
    obtain ⟨s', hs', heq⟩ := Option.map_eq_some_iff.mp h
    cases heq
    exact .inr ⟨_, hs'⟩

theorem registered_step {s s' : PluginSt} {act : PluginAct} (h : Registered s.jobs) (hs : s.step act = some s') :
    Registered s'.jobs := by
  have hd := step_does hs
  cases act with
  | manager act =>
    obtain ⟨-, jobs, hjobs, heq⟩ := hd
    rw [heq]
    exact JobsSt.registered_step h hjobs
  | begin op config => rw [hd.2.2]; exact h
  | attempt env heard =>
    obtain ⟨c, k, answer, jobs, -, hattempt, heq⟩ := hd
    have hjobs : Registered jobs := by
      cases attempt_step hattempt with
      | inl hsame => rw [hsame]; exact h
      | inr hstep =>
        obtain ⟨act, hstep⟩ := hstep
        exact JobsSt.registered_step h hstep
    cases heq with
    | inl heq => rw [heq]; exact hjobs
    | inr heq =>
      obtain ⟨a, -, heq⟩ := heq
      rw [heq]
      exact hjobs
  | giveUp err =>
    obtain ⟨c, k, -, heq⟩ := hd
    rw [heq]
    exact h
  | reply replies =>
    obtain ⟨c, k, -, -, heq⟩ := hd
    rw [heq]
    exact h

/-- What the manager adds to the record: it saw the jobs as they were, and a runner it started was due. -/
theorem manager_passed {s s' : PluginSt} (h : Registered s.jobs) {act : JobsAct} (hs : s.step (.manager act) = some s') :
    ∀ e ∈ s'.passed, e ∈ s.passed ∨ e.op = s.op ∧ e.halted = s.halted ∧ e.rest = s.script ∧ e.event.deps = s.jobs.deps ∧
      (e.event.started = true → s.jobs.due e.event.name = true) := by
  obtain ⟨hact, jobs, hjobs, heq⟩ := step_does hs
  obtain ⟨new, hpassed, hevents⟩ := JobsSt.manager_records h hact hjobs
  rw [heq]
  intro e he
  cases List.mem_append.mp he with
  | inl hold => exact .inl hold
  | inr hnew =>
    rw [hpassed, List.drop_left] at hnew
    obtain ⟨event, hevent, heq⟩ := List.mem_map.mp hnew
    cases heq
    obtain ⟨hdeps, -, hdue⟩ := hevents event hevent
    exact .inr ⟨rfl, rfl, rfl, hdeps, hdue⟩

end PluginSt

end Blockvisor
