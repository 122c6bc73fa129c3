/-
Whom the jobs of a node kill. A `RunSh` job kills what is left of its shell when
it starts, and its shell when it is stopped; a forced shutdown kills the runners
of the jobs. Each finds its processes by a command line.

Two jobs with the same body kill each other (`jobs_kill_each_other`). Where the
bodies differ, no process takes the command line of a job it is not part of,
and no shell is replaced by what it runs, each job's kills are the processes of
that job, and all of them that its runner and its shells have below them
(`kills_own`).
-/
import Blockvisor.BvUtils.System
import Blockvisor.Lib.Machine
import Blockvisor.Lib.Text
import Mathlib.Data.List.Nodup
import Mathlib.Logic.Function.Basic

namespace Blockvisor

open Machine

/-- `trim_end_matches("&&")`, of a text turned around. -/
def dropAmpersands : List Char → List Char
  | '&' :: '&' :: rest => dropAmpersands rest
  | text => text

/-- What is left of a body: white space, and at its end backslashes and `&&`, are taken away. -/
def shellBody (body : String) : String :=
  let turned := (Text.trim body).toList.reverse
  let turned := (turned.dropWhile (· = '\\')).dropWhile Text.isWhite
  String.ofList ((dropAmpersands turned).dropWhile Text.isWhite).reverse

/-- `bv_shell`. -/
def bvShell (bvUser : Option String) (body : String) : String × List String :=
  match bvUser with
  | some user => ("su", ["-", user, "-c", shellBody body])
  | none => ("sh", ["-c", shellBody body])

def jobRunnerBinPath : String := "/usr/bin/babel_job_runner"

/-- The `RunSh` jobs of a node, by their names, and the user they run as. -/
structure NodeJobs where
  bvUser : Option String
  jobs : List (String × String)
  distinct : (jobs.map (·.1)).Nodup

/-- What a process is: the runner of a job, the shell that the runner started, a process below that, or none of these. -/
inductive JobRole where
  | runner (job : String)
  | shell (job : String)
  | inside (job : String)
  | other
  deriving DecidableEq

def JobRole.job : JobRole → Option String
  | .runner job => some job
  | .shell job => some job
  | .inside job => some job
  | .other => none

def JobRole.isShell : JobRole → Bool
  | .shell _ => true
  | _ => false

/-- The processes; what each pid is, is a ghost. -/
structure NodeSt where
  procs : List Process
  next : Nat
  role : Nat → JobRole

def NodeSt.init : NodeSt := ⟨[], 0, fun _ => .other⟩

inductive NodeAct where
  | startRunner (job : String)
  | startShell (runner : Nat)
  | fork (pid : Nat)
  | exec (pid : Nat) (cmd : List String)
  | exit (pid : Nat)
  | other (cmd : List String)

namespace NodeSt

def spawn (s : NodeSt) (parent : Option Nat) (cmd : List String) (role : JobRole) : NodeSt where
  procs := s.procs ++ [⟨s.next, parent, cmd⟩]
  next := s.next + 1
  role := Function.update s.role s.next role

/-- The process with a pid. -/
def find (s : NodeSt) (pid : Nat) : Option Process := s.procs.find? (·.pid = pid)

end NodeSt

namespace NodeJobs

variable (node : NodeJobs)

def bodyOf (job : String) : Option String := (node.jobs.find? (·.1 = job)).map (·.2)

def shellCall (body : String) : List String := (bvShell node.bvUser body).1 :: (bvShell node.bvUser body).2

def step (s : NodeSt) : NodeAct → Option NodeSt
  | .startRunner job => (node.bodyOf job).map fun _ => s.spawn none [jobRunnerBinPath, job] (.runner job)
  | .startShell runner =>
    (s.find runner).bind fun p =>
      match s.role runner with
      | .runner job => (node.bodyOf job).map fun body => s.spawn (some p.pid) (node.shellCall body) (.shell job)
      | _ => none
  | .fork pid =>
    (s.find pid).bind fun p =>
      match s.role pid with
      | .runner _ => none
      | .shell job => some (s.spawn (some p.pid) p.cmd (.inside job))
      | .inside job => some (s.spawn (some p.pid) p.cmd (.inside job))
      | .other => some (s.spawn (some p.pid) p.cmd .other)
  | .exec pid cmd =>
    match s.role pid with
    | .runner _ => none
    | _ => some { s with procs := execProcess pid cmd s.procs }
  | .exit pid => some { s with procs := exitProcess pid s.procs }
  | .other cmd => some (s.spawn none cmd .other)

/-- The processes that are signalled for a job: when it starts or is stopped. -/
def killsShell (s : NodeSt) (body : String) : List Nat :=
  killAllProcesses s.procs s.next (bvShell node.bvUser body).1 (bvShell node.bvUser body).2

/-- The processes that are signalled for a job at a forced shutdown. -/
def killsRunner (s : NodeSt) (job : String) : List Nat := killAllProcesses s.procs s.next jobRunnerBinPath [job]

/-- A command line that is none of the calls by which the processes of a job are found. -/
def Foreign (cmd : List String) (job body : String) : Prop :=
  let p : Process := ⟨0, none, cmd⟩
  p.calls (bvShell node.bvUser body).1 (bvShell node.bvUser body).2 = false ∧ p.calls jobRunnerBinPath [job] = false

instance (cmd : List String) (job body : String) : Decidable (node.Foreign cmd job body) := inferInstanceAs (Decidable (_ ∧ _))

/-- A command line that is no call of a job but the given one. -/
def Apart (cmd : List String) (job : Option String) : Prop :=
  ∀ other ∈ node.jobs, job ≠ some other.1 → node.Foreign cmd other.1 other.2

instance (cmd : List String) (job : Option String) : Decidable (node.Apart cmd job) := inferInstanceAs (Decidable (∀ _ ∈ _, _ → _))

/-- No job is started with the shell call of another one; nothing else takes a call of a job it is not part of; and no shell
is replaced by another program. -/
def Distinct (s : NodeSt) : NodeAct → Prop
  | .startShell runner =>
    ∀ job ∈ node.jobs, s.role runner = .runner job.1 →
      ∀ other ∈ node.jobs, other.1 ≠ job.1 → shellBody other.2 ≠ shellBody job.2
  | .exec pid cmd => (s.role pid).isShell = false ∧ node.Apart cmd (s.role pid).job
  | .other cmd => node.Apart cmd none
  | _ => True

instance (s : NodeSt) : (a : NodeAct) → Decidable (node.Distinct s a)
  | .startShell _ => inferInstanceAs (Decidable (∀ _ ∈ _, _ → ∀ _ ∈ _, _ → _))
  | .exec _ _ => inferInstanceAs (Decidable (_ ∧ _))
  | .other _ => inferInstanceAs (Decidable (node.Apart _ _))
  | .startRunner _ | .fork _ | .exit _ => inferInstanceAs (Decidable True)

/-- The kills of each job: its own processes only, and everything below its runner and its shell. -/
structure KillsOwn (s : NodeSt) : Prop where
  own : ∀ job ∈ node.jobs, ∀ pid ∈ node.killsShell s job.2 ++ killsRunner s job.1, (s.role pid).job = some job.1
  shell : ∀ job ∈ node.jobs, ∀ q ∈ s.procs, s.role q.pid = .shell job.1 →
    ∀ p, Descends s.procs q p → p.pid ∈ node.killsShell s job.2
  runner : ∀ job ∈ node.jobs, ∀ q ∈ s.procs, s.role q.pid = .runner job.1 →
    ∀ p, Descends s.procs q p → p.pid ∈ killsRunner s job.1

/-! ## The calls -/

variable {node}

theorem bodyOf_mem {job body : String} (h : node.bodyOf job = some body) : (job, body) ∈ node.jobs := by
  unfold bodyOf at h
  obtain ⟨found, hfound, rfl⟩ := Option.map_eq_some_iff.mp h
  have hname : found.1 = job := by simpa using List.find?_some hfound
  have hmem := List.mem_of_find?_eq_some hfound
  rwa [← hname]

theorem body_unique {job body body' : String} (h : (job, body) ∈ node.jobs) (h' : (job, body') ∈ node.jobs) : body = body' := by
  have hpair := List.inj_on_of_nodup_map node.distinct h h' rfl
  cases hpair
  rfl

theorem shellCall_calls (body : String) (pid : Nat) (parent : Option Nat) :
    (Process.mk pid parent (node.shellCall body)).calls (bvShell node.bvUser body).1 (bvShell node.bvUser body).2 = true := by
  simp [Process.calls, shellCall]

theorem runnerCall_calls (job : String) (pid : Nat) (parent : Option Nat) :
    (Process.mk pid parent [jobRunnerBinPath, job]).calls jobRunnerBinPath [job] = true := by
  simp [Process.calls]

/-- A shell's call is that of a body that is the same after the trimming, and no runner's. -/
theorem shellCall_foreign {body body' : String} (hbody : shellBody body' ≠ shellBody body) (job : String) :
    node.Foreign (node.shellCall body) job body' := by
  unfold Foreign shellCall bvShell
  cases node.bvUser with
  | none => simp [Process.calls, jobRunnerBinPath, hbody]
  | some user => simp [Process.calls, jobRunnerBinPath, hbody]

/-- A runner's call is that of its job, and no shell's. -/
theorem runnerCall_foreign {job other : String} (hjob : other ≠ job) (body : String) :
    node.Foreign [jobRunnerBinPath, job] other body := by
  unfold Foreign bvShell
  cases node.bvUser with
  | none => simp [Process.calls, jobRunnerBinPath, hjob]
  | some user => simp [Process.calls, jobRunnerBinPath, hjob]

/-! ## The processes of the jobs -/

/-- Children are newer than their parents and of the same job; a job's runners and shells have its calls, and no process has
a call of a job it is not part of. -/
structure NodeInv (node : NodeJobs) (s : NodeSt) : Prop where
  ordered : PidOrdered s.procs s.next
  inherit : ∀ p ∈ s.procs, ∀ parent, p.parent = some parent → (s.role p.pid).job = (s.role parent).job
  runner : ∀ p ∈ s.procs, ∀ job, s.role p.pid = .runner job → p.cmd = [jobRunnerBinPath, job]
  shell : ∀ p ∈ s.procs, ∀ job, s.role p.pid = .shell job → ∃ body, (job, body) ∈ node.jobs ∧ p.cmd = node.shellCall body
  apart : ∀ p ∈ s.procs, node.Apart p.cmd (s.role p.pid).job

theorem nodeInv_init : NodeInv node NodeSt.init where
  ordered := ⟨by simp [NodeSt.init], by simp [NodeSt.init]⟩
  inherit := by simp [NodeSt.init]
  runner := by simp [NodeSt.init]
  shell := by simp [NodeSt.init]
  apart := by simp [NodeSt.init]

theorem NodeSt.find_mem {s : NodeSt} {pid : Nat} {p : Process} (h : s.find pid = some p) : p ∈ s.procs ∧ p.pid = pid :=
  ⟨List.mem_of_find?_eq_some h, by simpa using List.find?_some h⟩

/-- A new process: its parent is there and of the same job, and its call is one for what it is. -/
theorem NodeInv.spawn {s : NodeSt} (h : node.NodeInv s) {parent : Option Nat} {cmd : List String} {role : JobRole}
    (hparent : ∀ pid, parent = some pid → pid < s.next ∧ role.job = (s.role pid).job)
    (hrunner : ∀ job, role = .runner job → cmd = [jobRunnerBinPath, job])
    (hshell : ∀ job, role = .shell job → ∃ body, (job, body) ∈ node.jobs ∧ cmd = node.shellCall body)
    (hapart : node.Apart cmd role.job) : node.NodeInv (s.spawn parent cmd role) := by
  -- what an old pid is, stays
  have hold : ∀ pid, pid < s.next → (s.spawn parent cmd role).role pid = s.role pid := fun pid hpid =>
    Function.update_of_ne (Nat.ne_of_lt hpid) ..
  have hnew : (s.spawn parent cmd role).role s.next = role := Function.update_self ..
  have hcases : ∀ p ∈ (s.spawn parent cmd role).procs, (p ∈ s.procs ∧ p.pid < s.next) ∨ p = ⟨s.next, parent, cmd⟩ := by
    intro p hp
    obtain hp | hp := List.mem_append.mp hp
    · exact .inl ⟨hp, h.ordered.bounded p hp⟩
    · exact .inr (List.mem_singleton.mp hp)
  refine ⟨h.ordered.spawn fun pid hpid => (hparent pid hpid).1, ?_, ?_, ?_, ?_⟩
  · intro p hp q hq
    obtain ⟨hp, hlt⟩ | rfl := hcases p hp
    · have hqp := h.ordered.newer p hp q hq
      rw [hold p.pid hlt, hold q (by omega)]
      exact h.inherit p hp q hq
    · rw [hnew, hold q (hparent q hq).1]
      exact (hparent q hq).2
  · intro p hp job hrole
    obtain ⟨hp, hlt⟩ | rfl := hcases p hp
    · exact h.runner p hp job (by rwa [hold p.pid hlt] at hrole)
    · exact hrunner job (by rwa [hnew] at hrole)
  · intro p hp job hrole
    obtain ⟨hp, hlt⟩ | rfl := hcases p hp
    · exact h.shell p hp job (by rwa [hold p.pid hlt] at hrole)
    · exact hshell job (by rwa [hnew] at hrole)
  · intro p hp
    obtain ⟨hp, hlt⟩ | rfl := hcases p hp
    · rw [hold p.pid hlt]
      exact h.apart p hp
    · rw [hnew]
      exact hapart

/-- A fork: it has the call of its parent, and is of the same job. -/
theorem NodeInv.fork {s : NodeSt} (h : node.NodeInv s) {p : Process} (hp : p ∈ s.procs) {role : JobRole}
    (hjob : role.job = (s.role p.pid).job) (hrunner : ∀ job, role ≠ .runner job) (hshell : ∀ job, role ≠ .shell job) :
    node.NodeInv (s.spawn (some p.pid) p.cmd role) := by
  refine h.spawn ?_ (fun job hrole => absurd hrole (hrunner job)) (fun job hrole => absurd hrole (hshell job)) ?_
  · intro pid hpid
    cases hpid
    exact ⟨h.ordered.bounded p hp, hjob⟩
  · rw [hjob]
    exact h.apart p hp

/-- Processes that are left, some with a new call that is none of another job's. -/
theorem NodeInv.stems {s : NodeSt} (h : node.NodeInv s) {procs : List Process} (hstems : Stems procs s.procs)
    (hcmd : ∀ p ∈ procs, (∃ q ∈ s.procs, p.pid = q.pid ∧ p.cmd = q.cmd) ∨
      (∀ job, s.role p.pid ≠ .runner job) ∧ (∀ job, s.role p.pid ≠ .shell job) ∧ node.Apart p.cmd (s.role p.pid).job) :
    node.NodeInv { s with procs } := by
  refine ⟨h.ordered.stems hstems, ?_, ?_, ?_, ?_⟩
  · intro p hp parent hparent
    obtain ⟨q, hq, hpid, hold⟩ := hstems p hp
    rw [hpid]
    exact h.inherit q hq parent (hold parent hparent)
  · intro p hp job hrole
    obtain ⟨q, hq, hpid, heq⟩ | ⟨hrunner, _⟩ := hcmd p hp
    · rw [heq]
      exact h.runner q hq job (by rwa [← hpid])
    · exact absurd hrole (hrunner job)
  · intro p hp job hrole
    obtain ⟨q, hq, hpid, heq⟩ | ⟨_, hshell, _⟩ := hcmd p hp
    · rw [heq]
      exact h.shell q hq job (by rwa [← hpid])
    · exact absurd hrole (hshell job)
  · intro p hp
    show node.Apart p.cmd (s.role p.pid).job
    obtain ⟨q, hq, hpid, heq⟩ | ⟨_, _, hapart⟩ := hcmd p hp
    · rw [heq, hpid]
      exact h.apart q hq
    · exact hapart

theorem NodeInv.exec {s : NodeSt} (h : node.NodeInv s) {pid : Nat} {cmd : List String}
    (hrunner : ∀ job, s.role pid ≠ .runner job) (hshell : ∀ job, s.role pid ≠ .shell job)
    (hapart : node.Apart cmd (s.role pid).job) : node.NodeInv { s with procs := execProcess pid cmd s.procs } := by
  refine h.stems (stems_execProcess s.procs pid cmd) fun p hp => ?_
  obtain ⟨q, hq, hpid, _, heq | ⟨rfl, heq⟩⟩ := mem_execProcess hp
  · exact .inl ⟨q, hq, hpid, heq⟩
  · right
    rw [hpid, heq]
    exact ⟨hrunner, hshell, hapart⟩

theorem NodeInv.exit {s : NodeSt} (h : node.NodeInv s) (pid : Nat) :
    node.NodeInv { s with procs := exitProcess pid s.procs } := by
  refine h.stems (stems_exitProcess s.procs pid) fun p hp => ?_
  obtain ⟨q, hq, _, hpid, heq, _⟩ := mem_exitProcess hp
  exact .inl ⟨q, hq, hpid, heq⟩

theorem nodeInv_step (s : NodeSt) (a : NodeAct) (s' : NodeSt) (h : node.NodeInv s) (hok : node.Distinct s a)
    (hstep : node.step s a = some s') : node.NodeInv s' := by
  cases a with
  | startRunner job =>
    obtain ⟨body, _, rfl⟩ := Option.map_eq_some_iff.mp hstep
    refine h.spawn (fun _ hnone => nomatch hnone) (fun _ hrole => ?_) (fun _ hrole => nomatch hrole) ?_
    · cases hrole
      rfl
    · intro other _ hother
      exact runnerCall_foreign (fun heq => hother (congrArg some heq.symm)) other.2
  | startShell runner =>
    obtain ⟨p, hfind, hstep⟩ := Option.bind_eq_some_iff.mp hstep
    obtain ⟨hp, hpid⟩ := NodeSt.find_mem hfind
    cases hrole : s.role runner with
    | runner job =>
      rw [hrole] at hstep
      obtain ⟨body, hbody, rfl⟩ := Option.map_eq_some_iff.mp hstep
      have hmem := bodyOf_mem hbody
      refine h.spawn ?_ (fun _ hshell => nomatch hshell) (fun _ hshell => ?_) ?_
      · intro parent hparent
        cases hparent
        refine ⟨h.ordered.bounded p hp, ?_⟩
        rw [hpid, hrole]
        rfl
      · cases hshell
        exact ⟨body, hmem, rfl⟩
      · intro other hother hne
        have hname : other.1 ≠ job := fun heq => hne (congrArg some heq.symm)
        exact shellCall_foreign (hok (job, body) hmem hrole other hother hname) other.1
    | shell job => simp [hrole] at hstep
    | inside job => simp [hrole] at hstep
    | other => simp [hrole] at hstep
  | fork pid =>
    obtain ⟨p, hfind, hstep⟩ := Option.bind_eq_some_iff.mp hstep
    obtain ⟨hp, rfl⟩ := NodeSt.find_mem hfind
    cases hrole : s.role p.pid with
    | runner job => simp [hrole] at hstep
    | shell job =>
      rw [hrole] at hstep
      cases hstep
      exact h.fork hp (congrArg JobRole.job hrole).symm (fun _ heq => nomatch heq) (fun _ heq => nomatch heq)
    | inside job =>
      rw [hrole] at hstep
      cases hstep
      exact h.fork hp (congrArg JobRole.job hrole).symm (fun _ heq => nomatch heq) (fun _ heq => nomatch heq)
    | other =>
      rw [hrole] at hstep
      cases hstep
      exact h.fork hp (congrArg JobRole.job hrole).symm (fun _ heq => nomatch heq) (fun _ heq => nomatch heq)
  | exec pid cmd =>
    obtain ⟨hshell, hapart⟩ := hok
    unfold step at hstep
    cases hrole : s.role pid with
    | runner job => simp [hrole] at hstep
    | shell job =>
      rw [hrole] at hshell
      cases hshell
    | inside job =>
      simp only [hrole] at hstep
      cases hstep
      exact h.exec (by simp [hrole]) (by simp [hrole]) hapart
    | other =>
      simp only [hrole] at hstep
      cases hstep
      exact h.exec (by simp [hrole]) (by simp [hrole]) hapart
  | exit pid =>
    cases hstep
    exact h.exit pid
  | other cmd =>
    cases hstep
    exact h.spawn (fun _ hnone => nomatch hnone) (fun _ hrole => nomatch hrole) (fun _ hrole => nomatch hrole) hok

/-! ## Whom they kill -/

theorem NodeInv.descends {s : NodeSt} (h : node.NodeInv s) {p q : Process} (hq : Descends s.procs p q) :
    (s.role q.pid).job = (s.role p.pid).job := by
  induction hq with
  | refl => rfl
  | child _ hmem hparent ih => rw [h.inherit _ hmem _ hparent, ih]

/-- What a job's calls find is of that job. -/
theorem NodeInv.found {s : NodeSt} (h : node.NodeInv s) {job : String × String} (hjob : job ∈ node.jobs) {p : Process}
    (hp : p ∈ s.procs)
    (hcalls : p.calls (bvShell node.bvUser job.2).1 (bvShell node.bvUser job.2).2 = true ∨ p.calls jobRunnerBinPath [job.1] = true) :
    (s.role p.pid).job = some job.1 := by
  by_contra hne
  obtain ⟨hshell, hrunner⟩ := h.apart p hp job hjob hne
  obtain hcalls | hcalls := hcalls
  · exact absurd (hcalls.symm.trans hshell) Bool.noConfusion
  · exact absurd (hcalls.symm.trans hrunner) Bool.noConfusion

theorem NodeInv.killsOwn {s : NodeSt} (h : node.NodeInv s) : node.KillsOwn s := by
  refine ⟨?_, ?_, ?_⟩
  · intro job hjob pid hpid
    obtain hpid | hpid := List.mem_append.mp hpid
    · obtain ⟨p, hp, hcalls, q, hq, rfl⟩ := (mem_killAllProcesses h.ordered).mp hpid
      rw [h.descends hq]
      exact h.found hjob hp (.inl hcalls)
    · obtain ⟨p, hp, hcalls, q, hq, rfl⟩ := (mem_killAllProcesses h.ordered).mp hpid
      rw [h.descends hq]
      exact h.found hjob hp (.inr hcalls)
  · intro job hjob q hq hrole p hp
    obtain ⟨body, hbody, hcmd⟩ := h.shell q hq job.1 hrole
    obtain rfl : body = job.2 := body_unique hbody hjob
    refine (mem_killAllProcesses h.ordered).mpr ⟨q, hq, ?_, p, hp, rfl⟩
    obtain ⟨pid, parent, cmd⟩ := q
    cases hcmd
    exact shellCall_calls ..
  · intro job _ q hq hrole p hp
    have hcmd := h.runner q hq job.1 hrole
    refine (mem_killAllProcesses h.ordered).mpr ⟨q, hq, ?_, p, hp, rfl⟩
    obtain ⟨pid, parent, cmd⟩ := q
    cases hcmd
    exact runnerCall_calls ..

/-- **Jobs kill their own**: where no two jobs have one body, no process has a call of a job it is not part of, and no shell
is replaced, what is signalled for a job are processes of that job, and all below its runner and its shell. -/
theorem kills_own (node : NodeJobs) {acts : List NodeAct} {s : NodeSt} (hdistinct : Along node.step node.Distinct .init acts)
    (hrun : run node.step .init acts = some s) : node.KillsOwn s :=
  (run_invariant node.step nodeInv_step nodeInv_init hdistinct hrun).killsOwn

def twoJobs : NodeJobs where
  bvUser := none
  jobs := [("node", "geth"), ("proxy", "caddy &&")]
  distinct := by decide

/-- Both jobs run, the first one's shell has a process below it. -/
def bothRun : List NodeAct :=
  [.startRunner "node", .startShell 0, .fork 1, .exec 2 ["geth"], .startRunner "proxy", .startShell 3]

theorem kills_own_both : ∃ s, run twoJobs.step .init bothRun = some s ∧ twoJobs.KillsOwn s := by
  have hrun : (run twoJobs.step .init bothRun).isSome = true := by decide
  have hdistinct : Along twoJobs.step twoJobs.Distinct .init bothRun := by decide
  obtain ⟨s, hs⟩ := Option.isSome_iff_exists.mp hrun
  exact ⟨s, hs, kills_own twoJobs hdistinct hs⟩

/-- Two jobs, the body of the second one with a blank behind it. -/
def equalJobs : NodeJobs where
  bvUser := none
  jobs := [("node", "geth"), ("backup", "geth ")]
  distinct := by decide

/-- **Jobs that kill each other**: the second job's start kills the shell of the first. -/
theorem jobs_kill_each_other : ¬ ∀ (node : NodeJobs) (acts : List NodeAct) (s : NodeSt),
    run node.step .init acts = some s → node.KillsOwn s := by
  intro h
  have hown := (h equalJobs [.startRunner "node", .startShell 0, .startRunner "backup"] _ rfl).own
    ("backup", "geth ") (by decide) 1 (by decide)
  revert hown
  decide

end NodeJobs

end Blockvisor
