/-
The stop of a `RunSh` job. The manager asks the job runner to end and kills it
when the shutdown timeout is over; the runner kills its shell and what is below
it, each with the same timeout, which it starts to count later. Both look every
second.

So the runner comes to force a process no earlier than the manager comes to
force the runner (`forced_after_deadline`), and a shell that ignores the signal
may outlive the stop (`shell_left_behind`). A stop that returns well leaves
nothing behind where the manager does not cut the runner's kills short, no
process of the job ends before its children until these kills begin, and no
shell is replaced by what it runs (`stopped_leaves_none`).
-/
import Blockvisor.Babel.JobKills
import Blockvisor.BvUtils.System
import Blockvisor.Lib.Machine
import Mathlib.Logic.Function.Basic

namespace Blockvisor

open Machine

/-- What a stop reads of a `RunSh` job; times are in milliseconds. -/
structure ShJob where
  bvUser : Option String
  shBody : String
  shutdownTimeout : Nat

def ShJob.cmd (job : ShJob) : String := (bvShell job.bvUser job.shBody).1

def ShJob.args (job : ShJob) : List String := (bvShell job.bvUser job.shBody).2

def processCheckInterval : Nat := 1000

/-- `gracefully_terminate_process`: before it, between its looks at the runner, after SIGKILL, and what it returned. -/
inductive Manager where
  | idle
  | waiting (since wake : Nat)
  | killed (wake : Nat)
  | returned (ok : Bool)
  deriving DecidableEq

/-- The runner: no child (it kills remnants, backs off or is about to end), its child runs, it kills, it has killed; SIGKILL
was sent to it; it has ended. Of a kill: when it began, the processes to kill, whether the first one has its signal, and when
to look again. -/
inductive Runner where
  | idle
  | child (shell : Nat)
  | walking (started : Nat) (queue : List Nat) (signalled : Bool) (wake : Nat)
  | done
  | doomed
  | ended
  deriving DecidableEq

def Runner.hasChild : Runner → Bool
  | .child _ => true
  | _ => false

/-- The runner waits for its shell, or kills. -/
def Runner.busy : Runner → Bool
  | .child _ => true
  | .walking _ _ _ _ => true
  | _ => false

/-- Of the job: a shell that the runner started, a process below one. -/
inductive ShRole where
  | shell
  | inside
  | other
  deriving DecidableEq

/-- The roles and the targets of the stop are ghosts. -/
structure StopSt where
  now : Nat
  procs : List Process
  next : Nat
  manager : Manager
  runner : Runner
  role : Nat → ShRole
  targets : List Nat

def StopSt.init : StopSt := ⟨0, [], 0, .idle, .idle, fun _ => .other, []⟩

inductive StopAct where
  | tick (ms : Nat)
  | stop
  | poll
  | spawnShell
  | seeExit
  | seeStop (order : List Process)
  | walk
  | runnerEnds
  | fork (pid : Nat)
  | exec (pid : Nat) (cmd : List String)
  | exit (pid : Nat)
  | other (cmd : List String)

namespace StopSt

def running (s : StopSt) (pid : Nat) : Bool := s.procs.any (·.pid = pid)

def spawn (s : StopSt) (parent : Option Nat) (cmd : List String) (role : ShRole) : StopSt :=
  { s with procs := s.procs ++ [⟨s.next, parent, cmd⟩], next := s.next + 1, role := Function.update s.role s.next role }

/-- The shells of the job and all below them. -/
def belowShells (s : StopSt) : List Nat :=
  (s.procs.filter (s.role ·.pid = .shell)).flatMap (killProcessTree s.procs s.next)

def stop (s : StopSt) : Option StopSt :=
  match s.manager with
  | .idle =>
    let manager := if s.runner = .ended then .returned true else .waiting s.now s.now
    some { s with manager, targets := s.belowShells }
  | _ => none

end StopSt

namespace ShJob

variable (job : ShJob)

def poll (s : StopSt) : Option StopSt :=
  match s.manager with
  | .waiting since wake =>
    if wake ≤ s.now then
      if s.runner = .ended then some { s with manager := .returned true }
      else if s.now - since < job.shutdownTimeout then some { s with manager := .waiting since (s.now + 1000) }
      else some { s with manager := .killed (s.now + 100), runner := .doomed }
    else none
  | .killed wake => if wake ≤ s.now then some { s with manager := .returned (s.runner = .ended) } else none
  | _ => none

/-- One turn of `kill_process_tree`, for the first process of the queue. -/
def walk (s : StopSt) : Option StopSt :=
  match s.runner with
  | .walking _ [] _ _ => some { s with runner := .done }
  | .walking started (pid :: rest) false wake => some { s with runner := .walking started (pid :: rest) true wake }
  | .walking started (pid :: rest) true wake =>
    if wake ≤ s.now then
      if ¬ s.running pid then some { s with runner := .walking started rest false s.now }
      else if job.shutdownTimeout < s.now - started then
        some { s with procs := exitProcess pid s.procs, runner := .walking started rest false s.now }
      else some { s with runner := .walking started (pid :: rest) true (s.now + processCheckInterval) }
    else none
  | _ => none

def step (s : StopSt) : StopAct → Option StopSt
  | .tick ms => some { s with now := s.now + ms }
  | .stop => s.stop
  | .poll => job.poll s
  | .spawnShell =>
    match s.runner with
    | .idle => some { s.spawn none (job.cmd :: job.args) .shell with runner := .child s.next }
    | _ => none
  | .seeExit =>
    match s.runner with
    | .child shell => if s.running shell then none else some { s with runner := .idle }
    | _ => none
  | .seeStop order =>
    -- the snapshot is a hash map, which gives the processes in some order
    match s.runner with
    | .child _ =>
      if s.manager ≠ .idle ∧ order.Perm s.procs then
        some { s with runner := .walking s.now (killAllProcesses order s.next job.cmd job.args) false s.now }
      else none
    | _ => none
  | .walk => job.walk s
  | .runnerEnds => if s.runner ∈ [.idle, .done, .doomed] then some { s with runner := .ended } else none
  | .fork pid =>
    (s.procs.find? (·.pid = pid)).map fun p => s.spawn (some p.pid) p.cmd (if s.role p.pid = .other then .other else .inside)
  | .exec pid cmd => some { s with procs := execProcess pid cmd s.procs }
  | .exit pid => some { s with procs := exitProcess pid s.procs }
  | .other cmd => some (s.spawn none cmd .other)

/-- The manager finds its timeout over. -/
def overdue (s : StopSt) : Bool :=
  match s.manager with
  | .waiting since _ => ¬ s.now - since < job.shutdownTimeout
  | _ => false

/-- The manager does not cut the runner's kills short. As long as the shell runs, no process of the job ends before its
children, and the shell is not replaced. -/
def Calm (s : StopSt) : StopAct → Prop
  | .poll => job.overdue s = true → s.runner.busy = false
  | .exec pid _ => s.runner.hasChild = true → s.role pid ≠ .shell
  | .exit pid => s.runner.hasChild = true → s.role pid ≠ .other → ∀ c ∈ s.procs, c.parent ≠ some pid
  | _ => True

instance (s : StopSt) : (a : StopAct) → Decidable (job.Calm s a)
  | .poll | .exec .. => inferInstanceAs (Decidable (_ → _))
  | .exit _ => inferInstanceAs (Decidable (_ → _ → ∀ _ ∈ _, _))
  | .tick _ | .stop | .spawnShell | .seeExit | .seeStop _ | .walk | .runnerEnds | .fork _ | .other _ =>
    inferInstanceAs (Decidable True)

end ShJob

/-! ## The processes of the job -/

namespace StopSt

/-- No process of the job runs. -/
def NoneRuns (s : StopSt) : Prop := ∀ p ∈ s.procs, s.role p.pid = .other

/-- No process runs that was the shell, or below it, when the stop began. -/
def Gone (s : StopSt) : Prop := ∀ p ∈ s.procs, p.pid ∉ s.targets

/-- Children are newer than their parents and of the job if these are; the targets are processes of the job. -/
structure Core (s : StopSt) : Prop where
  ordered : PidOrdered s.procs s.next
  kin : ∀ p ∈ s.procs, ∀ parent, p.parent = some parent → (s.role p.pid = .other ↔ s.role parent = .other)
  targets : ∀ t ∈ s.targets, t < s.next ∧ s.role t ≠ .other

theorem NoneRuns.gone {s : StopSt} (h : s.NoneRuns) (hcore : s.Core) : s.Gone := fun p hp ht => (hcore.targets _ ht).2 (h p hp)

theorem core_init : Core init where
  ordered := ⟨by simp [init], by simp [init]⟩
  kin := by simp [init]
  targets := by simp [init]

section Spawn

variable {s : StopSt} {parent : Option Nat} {cmd : List String} {role : ShRole}

theorem spawn_old {pid : Nat} (hpid : pid < s.next) : (s.spawn parent cmd role).role pid = s.role pid :=
  Function.update_of_ne (Nat.ne_of_lt hpid) ..

theorem spawn_new : (s.spawn parent cmd role).role s.next = role := Function.update_self ..

theorem mem_spawn (hcore : s.Core) {p : Process} (hp : p ∈ (s.spawn parent cmd role).procs) :
    (p ∈ s.procs ∧ (s.spawn parent cmd role).role p.pid = s.role p.pid) ∨ p = ⟨s.next, parent, cmd⟩ := by
  obtain hp | hp := List.mem_append.mp hp
  · exact .inl ⟨hp, spawn_old (hcore.ordered.bounded p hp)⟩
  · exact .inr (List.mem_singleton.mp hp)

theorem Core.spawn (h : s.Core)
    (hparent : ∀ pid, parent = some pid → pid < s.next ∧ (role = .other ↔ s.role pid = .other)) :
    (s.spawn parent cmd role).Core where
  ordered := h.ordered.spawn fun pid hpid => (hparent pid hpid).1
  kin p hp q hq := by
    obtain ⟨hp, hrole⟩ | rfl := mem_spawn h hp
    · have hlt := h.ordered.newer p hp q hq
      have hbound := h.ordered.bounded p hp
      rw [hrole, spawn_old (by omega)]
      exact h.kin p hp q hq
    · rw [spawn_new, spawn_old (hparent q hq).1]
      exact (hparent q hq).2
  targets t ht := by
    obtain ⟨hlt, hrole⟩ := h.targets t ht
    rw [spawn_old hlt]
    exact ⟨Nat.lt_succ_of_lt hlt, hrole⟩

/-- A new process is none that was there when the stop began. -/
theorem Gone.spawn (h : s.Gone) (hcore : s.Core) : (s.spawn parent cmd role).Gone := by
  intro p hp ht
  obtain ⟨hp, _⟩ | rfl := mem_spawn hcore hp
  · exact h p hp ht
  · exact Nat.lt_irrefl _ (hcore.targets _ ht).1

theorem NoneRuns.spawn (h : s.NoneRuns) (hcore : s.Core) (hrole : role = .other) : (s.spawn parent cmd role).NoneRuns := by
  intro p hp
  obtain ⟨hp, hold⟩ | rfl := mem_spawn hcore hp
  · rw [hold]
    exact h p hp
  · rw [spawn_new, hrole]

end Spawn

section Stems

variable {s : StopSt} {procs : List Process}

theorem Core.stems (h : s.Core) (hstems : Stems procs s.procs) : Core { s with procs } where
  ordered := h.ordered.stems hstems
  kin p hp parent hparent := by
    obtain ⟨q, hq, hpid, hold⟩ := hstems p hp
    rw [hpid]
    exact h.kin q hq parent (hold parent hparent)
  targets := h.targets

theorem Gone.stems (h : s.Gone) (hstems : Stems procs s.procs) : Gone { s with procs } := by
  intro p hp ht
  obtain ⟨q, hq, hpid, _⟩ := hstems p hp
  exact h q hq (hpid ▸ ht)

theorem NoneRuns.stems (h : s.NoneRuns) (hstems : Stems procs s.procs) : NoneRuns { s with procs } := by
  intro p hp
  obtain ⟨q, hq, hpid, _⟩ := hstems p hp
  show s.role p.pid = .other
  rw [hpid]
  exact h q hq

end Stems

theorem Core.descends {s : StopSt} (h : s.Core) {p q : Process} (hq : Descends s.procs p q) :
    s.role q.pid = .other ↔ s.role p.pid = .other := by
  induction hq with
  | refl => exact Iff.rfl
  | child _ hmem hparent ih => exact (h.kin _ hmem _ hparent).trans ih

theorem mem_belowShells {s : StopSt} (h : s.Core) {pid : Nat} :
    pid ∈ s.belowShells ↔ ∃ p ∈ s.procs, s.role p.pid = .shell ∧ ∃ q, Descends s.procs p q ∧ q.pid = pid := by
  unfold belowShells
  rw [List.mem_flatMap]
  constructor
  · intro hmem
    obtain ⟨p, hp, hpid⟩ := hmem
    obtain ⟨hp, hrole⟩ := List.mem_filter.mp hp
    exact ⟨p, hp, by simpa using hrole, (mem_killProcessTree h.ordered (Nat.le_add_right ..) hp).mp hpid⟩
  · intro hmem
    obtain ⟨p, hp, hrole, hpid⟩ := hmem
    refine ⟨p, List.mem_filter.mpr ⟨hp, by simpa using hrole⟩, ?_⟩
    exact (mem_killProcessTree h.ordered (Nat.le_add_right ..) hp).mpr hpid

end StopSt

namespace ShJob

variable {job : ShJob} {s : StopSt}

/-- The runner waits for its shell: it is the only one, with the call by which it is found, and all else of the job is below it. -/
structure Alive (job : ShJob) (s : StopSt) (shell : Nat) : Prop where
  only : ∀ p ∈ s.procs, s.role p.pid = .shell → p.pid = shell
  call : ∀ p ∈ s.procs, s.role p.pid = .shell → p.parent = none ∧ p.cmd = job.cmd :: job.args
  below : ∀ p ∈ s.procs, s.role p.pid ≠ .other → ∃ q ∈ s.procs, s.role q.pid = .shell ∧ Descends s.procs q p

/-- What is left of the job, by what the runner does. -/
def Phase (job : ShJob) (s : StopSt) : Runner → Prop
  | .idle => s.NoneRuns
  | .child shell => job.Alive s shell
  | .walking _ queue _ _ => s.manager ≠ .idle ∧ ∀ p ∈ s.procs, p.pid ∈ s.targets → p.pid ∈ queue
  | .done => s.manager ≠ .idle ∧ s.Gone
  | .doomed => s.manager ≠ .idle ∧ s.Gone
  | .ended => s.Gone ∧ (s.manager = .idle → s.NoneRuns)

structure StopInv (job : ShJob) (s : StopSt) : Prop where
  core : s.Core
  before : s.manager = .idle → s.targets = []
  phase : job.Phase s s.runner
  returned : s.manager = .returned true → s.runner = .ended

theorem stopInv_init : job.StopInv .init where
  core := StopSt.core_init
  before _ := rfl
  phase := by
    intro p hp
    cases hp
  returned h := by cases h

/-- A step of the runner or of the manager alone. -/
theorem StopInv.move (h : job.StopInv s) {now : Nat} {manager : Manager} {runner : Runner}
    (hbefore : manager = .idle → s.manager = .idle) (hphase : job.Phase { s with now, manager, runner } runner)
    (hreturned : manager = .returned true → runner = .ended) : job.StopInv { s with now, manager, runner } where
  core := ⟨h.core.ordered, h.core.kin, h.core.targets⟩
  before hidle := h.before (hbefore hidle)
  phase := hphase
  returned := hreturned

theorem Phase.move {now : Nat} {manager : Manager} {runner runner' : Runner} (h : job.Phase s runner)
    (hmanager : manager = .idle ↔ s.manager = .idle) : job.Phase { s with now, manager, runner := runner' } runner := by
  cases runner with
  | idle => exact h
  | child shell => exact ⟨h.only, h.call, h.below⟩
  | walking started queue signalled wake => exact ⟨fun hidle => h.1 (hmanager.mp hidle), h.2⟩
  | done => exact ⟨fun hidle => h.1 (hmanager.mp hidle), h.2⟩
  | doomed => exact ⟨fun hidle => h.1 (hmanager.mp hidle), h.2⟩
  | ended => exact ⟨h.1, fun hidle => h.2 (hmanager.mp hidle)⟩

/-! ### The processes change -/

theorem Alive.spawn {shell : Nat} (h : job.Alive s shell) (hcore : s.Core) {parent : Option Nat} {cmd : List String} {role : ShRole}
    (hshell : role ≠ .shell) (hparent : role ≠ .other → ∃ p ∈ s.procs, parent = some p.pid ∧ s.role p.pid ≠ .other) :
    job.Alive (s.spawn parent cmd role) shell := by
  have hsub : s.procs ⊆ (s.spawn parent cmd role).procs := List.subset_append_left ..
  -- a process of the job, as it was there before
  have hold : ∀ {p : Process}, p ∈ s.procs → s.role p.pid ≠ .other →
      ∃ q ∈ (s.spawn parent cmd role).procs, (s.spawn parent cmd role).role q.pid = .shell ∧
        Descends (s.spawn parent cmd role).procs q p := by
    intro p hp hrole
    obtain ⟨q, hq, hshell, hdesc⟩ := h.below p hp hrole
    refine ⟨q, hsub hq, ?_, hdesc.mono hsub⟩
    rw [StopSt.spawn_old (hcore.ordered.bounded q hq)]
    exact hshell
  refine ⟨?_, ?_, ?_⟩
  · intro p hp hrole
    obtain ⟨hp, heq⟩ | rfl := StopSt.mem_spawn hcore hp
    · exact h.only p hp (heq ▸ hrole)
    · rw [StopSt.spawn_new] at hrole
      exact absurd hrole hshell
  · intro p hp hrole
    obtain ⟨hp, heq⟩ | rfl := StopSt.mem_spawn hcore hp
    · exact h.call p hp (heq ▸ hrole)
    · rw [StopSt.spawn_new] at hrole
      exact absurd hrole hshell
  · intro p hp hrole
    obtain ⟨hmem, heq⟩ | rfl := StopSt.mem_spawn hcore hp
    · exact hold hmem (heq ▸ hrole)
    · rw [StopSt.spawn_new] at hrole
      obtain ⟨q, hq, hparent, hours⟩ := hparent hrole
      obtain ⟨top, htop, hshell, hdesc⟩ := hold hq hours
      exact ⟨top, htop, hshell, .child hdesc hp hparent⟩

theorem Alive.exec {shell : Nat} (h : job.Alive s shell) {pid : Nat} {cmd : List String} (hpid : s.role pid ≠ .shell) :
    job.Alive { s with procs := execProcess pid cmd s.procs } shell := by
  refine ⟨?_, ?_, ?_⟩
  · intro p hp hrole
    obtain ⟨q, hq, heq, _⟩ := mem_execProcess hp
    rw [heq]
    exact h.only q hq (heq ▸ hrole)
  · intro p hp hrole
    obtain ⟨q, hq, heq, hparent, hcmd | ⟨rfl, _⟩⟩ := mem_execProcess hp
    · rw [hparent, hcmd]
      exact h.call q hq (heq ▸ hrole)
    · exact absurd (heq ▸ hrole) hpid
  · intro p hp hrole
    have hfpid : ∀ p : Process, (if p.pid = pid then { p with cmd } else p).pid = p.pid := fun p => by split <;> rfl
    have hfparent : ∀ p : Process, (if p.pid = pid then { p with cmd } else p).parent = p.parent := fun p => by split <;> rfl
    obtain ⟨q, hq, rfl⟩ := List.mem_map.mp hp
    obtain ⟨top, htop, hshell, hdesc⟩ := h.below q hq (by rwa [hfpid] at hrole)
    refine ⟨_, List.mem_map_of_mem htop, ?_, hdesc.map hfpid hfparent⟩
    show s.role _ = .shell
    rw [hfpid]
    exact hshell

theorem Alive.exit {shell : Nat} (h : job.Alive s shell) (hcore : s.Core) {pid : Nat}
    (hpid : s.role pid ≠ .other → ∀ c ∈ s.procs, c.parent ≠ some pid) :
    job.Alive { s with procs := exitProcess pid s.procs } shell := by
  refine ⟨?_, ?_, ?_⟩
  · intro p hp hrole
    obtain ⟨q, hq, _, heq, _⟩ := mem_exitProcess hp
    rw [heq]
    exact h.only q hq (heq ▸ hrole)
  · intro p hp hrole
    obtain ⟨q, hq, _, heq, hcmd, hparent⟩ := mem_exitProcess hp
    obtain ⟨hnone, hcall⟩ := h.call q hq (heq ▸ hrole)
    refine ⟨?_, hcmd.trans hcall⟩
    cases hp' : p.parent with
    | none => rfl
    | some parent =>
      have hsome := hparent parent hp'
      rw [hnone] at hsome
      cases hsome
  · intro p hp hrole
    -- nothing of the job has the process as its parent
    have hchild : ∀ c ∈ s.procs, s.role c.pid ≠ .other → c.parent ≠ some pid := by
      intro c hc hours hparent
      by_cases hother : s.role pid = .other
      · exact hours ((hcore.kin c hc pid hparent).mpr hother)
      · exact hpid hother c hc hparent
    obtain ⟨q, hq, rfl⟩ := List.mem_map.mp hp
    obtain ⟨hq, hne⟩ := List.mem_filter.mp hq
    have hours : s.role q.pid ≠ .other := by
      split at hrole
      · exact hrole
      · exact hrole
    rw [if_neg (hchild q hq hours)]
    obtain ⟨top, htop, hshell, hdesc⟩ := h.below q hq hours
    have hbelow : ∀ c ∈ s.procs, Descends s.procs top c → c.parent ≠ some pid := by
      intro c hc hdesc
      refine hchild c hc fun hother => ?_
      rw [(hcore.descends hdesc).mp hother] at hshell
      cases hshell
    have htoppid : top.pid ≠ pid := by
      intro htoppid
      obtain rfl | ⟨c, hc, hparent, _⟩ := hdesc.head
      · exact absurd htoppid (by simpa using hne)
      · exact hbelow c hc (.child .refl hc hparent) (htoppid ▸ hparent)
    refine ⟨top, exitProcess_mem htop htoppid ?_, hshell, hdesc.exit hbelow (by simpa using hne)⟩
    rw [(h.call top htop hshell).1]
    exact nofun

theorem StopInv.stems (h : job.StopInv s) {procs : List Process} (hstems : Stems procs s.procs)
    (halive : ∀ shell, s.runner = .child shell → job.Alive { s with procs } shell) : job.StopInv { s with procs } where
  core := h.core.stems hstems
  before := h.before
  returned := h.returned
  phase := by
    have hphase := h.phase
    show job.Phase _ s.runner
    cases hrunner : s.runner with
    | idle =>
      rw [hrunner] at hphase
      exact StopSt.NoneRuns.stems hphase hstems
    | child shell =>
      have hshell := halive shell hrunner
      exact ⟨hshell.only, hshell.call, hshell.below⟩
    | walking started queue signalled wake =>
      rw [hrunner] at hphase
      refine ⟨hphase.1, fun p hp ht => ?_⟩
      obtain ⟨q, hq, hpid, _⟩ := hstems p hp
      rw [hpid] at ht ⊢
      exact hphase.2 q hq ht
    | done =>
      rw [hrunner] at hphase
      exact ⟨hphase.1, hphase.2.stems hstems⟩
    | doomed =>
      rw [hrunner] at hphase
      exact ⟨hphase.1, hphase.2.stems hstems⟩
    | ended =>
      rw [hrunner] at hphase
      exact ⟨hphase.1.stems hstems, fun hidle => (hphase.2 hidle).stems hstems⟩

/-- A new process, below one of the job or of none. -/
theorem StopInv.spawn (h : job.StopInv s) {parent : Option Nat} {cmd : List String} {role : ShRole} (hshell : role ≠ .shell)
    (hparent : ∀ pid, parent = some pid → ∃ p ∈ s.procs, p.pid = pid ∧ (role = .other ↔ s.role pid = .other))
    (hnone : parent = none → role = .other) : job.StopInv (s.spawn parent cmd role) where
  core := h.core.spawn fun pid hpid =>
    have ⟨p, hp, heq, hrole⟩ := hparent pid hpid
    ⟨heq ▸ h.core.ordered.bounded p hp, hrole⟩
  before := h.before
  returned := h.returned
  phase := by
    have hours : role ≠ .other → ∃ p ∈ s.procs, parent = some p.pid ∧ s.role p.pid ≠ .other := by
      intro hrole
      cases hparent' : parent with
      | none => exact absurd (hnone hparent') hrole
      | some pid =>
        obtain ⟨p, hp, rfl, hiff⟩ := hparent pid hparent'
        exact ⟨p, hp, rfl, fun hother => hrole (hiff.mpr hother)⟩
    -- where nothing of the job runs, nothing new of it does
    have hother : s.NoneRuns → (s.spawn parent cmd role).NoneRuns := by
      intro hnoneRuns
      refine hnoneRuns.spawn h.core ?_
      by_contra hrole
      obtain ⟨p, hp, _, hours⟩ := hours hrole
      exact hours (hnoneRuns p hp)
    have hphase := h.phase
    show job.Phase _ s.runner
    cases hrunner : s.runner with
    | idle =>
      rw [hrunner] at hphase
      exact hother hphase
    | child shell =>
      rw [hrunner] at hphase
      exact Alive.spawn hphase h.core hshell hours
    | walking started queue signalled wake =>
      rw [hrunner] at hphase
      refine ⟨hphase.1, fun p hp ht => ?_⟩
      obtain ⟨hp, _⟩ | rfl := StopSt.mem_spawn h.core hp
      · exact hphase.2 p hp ht
      · exact absurd (h.core.targets _ ht).1 (Nat.lt_irrefl _)
    | done =>
      rw [hrunner] at hphase
      exact ⟨hphase.1, hphase.2.spawn h.core⟩
    | doomed =>
      rw [hrunner] at hphase
      exact ⟨hphase.1, hphase.2.spawn h.core⟩
    | ended =>
      rw [hrunner] at hphase
      exact ⟨hphase.1.spawn h.core, fun hidle => hother (hphase.2 hidle)⟩

/-! ### The runner and the manager -/

/-- The runner starts its shell. -/
theorem StopInv.spawnShell (h : job.StopInv s) (hrunner : s.runner = .idle) :
    job.StopInv { s.spawn none (job.cmd :: job.args) .shell with runner := .child s.next } where
  core :=
    have hcore : (s.spawn none (job.cmd :: job.args) .shell).Core := h.core.spawn fun _ hnone => nomatch hnone
    ⟨hcore.ordered, hcore.kin, hcore.targets⟩
  before := h.before
  returned hreturned := by
    have hended := h.returned hreturned
    rw [hrunner] at hended
    cases hended
  phase := by
    have hnone : job.Phase s .idle := hrunner ▸ h.phase
    refine ⟨?_, ?_, ?_⟩
    · intro p hp hrole
      obtain ⟨hmem, heq⟩ | rfl := StopSt.mem_spawn h.core hp
      · exact absurd ((heq.symm.trans hrole).symm.trans (hnone p hmem)) nofun
      · rfl
    · intro p hp hrole
      obtain ⟨hmem, heq⟩ | rfl := StopSt.mem_spawn h.core hp
      · exact absurd ((heq.symm.trans hrole).symm.trans (hnone p hmem)) nofun
      · exact ⟨rfl, rfl⟩
    · intro p hp hrole
      obtain ⟨hmem, heq⟩ | rfl := StopSt.mem_spawn h.core hp
      · exact absurd (heq.trans (hnone p hmem)) hrole
      · exact ⟨_, hp, Function.update_self .., .refl⟩

/-- The kills begin: what is left of the job is in the queue. -/
theorem StopInv.seeStop (h : job.StopInv s) {shell : Nat} (hrunner : s.runner = .child shell) {order : List Process}
    (hmanager : s.manager ≠ .idle) (horder : order.Perm s.procs) :
    job.StopInv { s with runner := .walking s.now (killAllProcesses order s.next job.cmd job.args) false s.now } where
  core := ⟨h.core.ordered, h.core.kin, h.core.targets⟩
  before := h.before
  returned hreturned := by
    have hended := h.returned hreturned
    rw [hrunner] at hended
    cases hended
  phase := by
    have halive : job.Phase s (.child shell) := hrunner ▸ h.phase
    refine ⟨hmanager, fun p hp ht => ?_⟩
    have hordered : PidOrdered order s.next :=
      ⟨fun q hq => h.core.ordered.bounded q (horder.mem_iff.mp hq), fun q hq => h.core.ordered.newer q (horder.mem_iff.mp hq)⟩
    obtain ⟨q, hq, hshell, hdesc⟩ := halive.below p hp (h.core.targets _ ht).2
    refine (mem_killAllProcesses hordered).mpr ⟨q, horder.mem_iff.mpr hq, ?_, p, hdesc.mono horder.symm.subset, rfl⟩
    obtain ⟨_, hcmd⟩ := halive.call q hq hshell
    simp [Process.calls, hcmd]

/-- The first of the queue is killed, or has ended. -/
theorem StopInv.walk {s' : StopSt} (h : job.StopInv s) (hstep : job.walk s = some s') : job.StopInv s' := by
  have hphase := h.phase
  unfold ShJob.walk at hstep
  cases hrunner : s.runner with
  | idle => simp [hrunner] at hstep
  | child shell => simp [hrunner] at hstep
  | done => simp [hrunner] at hstep
  | doomed => simp [hrunner] at hstep
  | ended => simp [hrunner] at hstep
  | walking started queue signalled wake =>
    rw [hrunner] at hphase
    obtain ⟨hmanager, hqueue⟩ := hphase
    have hreturned : s.manager ≠ .returned true := fun heq => by
      have hended := h.returned heq
      rw [hrunner] at hended
      cases hended
    have hcore : ∀ runner : Runner, StopSt.Core { s with runner } := fun _ => ⟨h.core.ordered, h.core.kin, h.core.targets⟩
    cases queue with
    | nil =>
      simp only [hrunner] at hstep
      cases hstep
      exact ⟨hcore .done, h.before, ⟨hmanager, fun p hp ht => nomatch hqueue p hp ht⟩, fun heq => absurd heq hreturned⟩
    | cons pid rest =>
      cases signalled with
      | false =>
        simp only [hrunner] at hstep
        cases hstep
        exact ⟨hcore _, h.before, ⟨hmanager, hqueue⟩, fun heq => absurd heq hreturned⟩
      | true =>
        simp only [hrunner] at hstep
        split at hstep
        · split at hstep
          · next hgone =>
            cases hstep
            refine ⟨hcore _, h.before, ⟨hmanager, fun p hp ht => ?_⟩, fun heq => absurd heq hreturned⟩
            obtain rfl | hrest := List.mem_cons.mp (hqueue p hp ht)
            · exact absurd (List.any_eq_true.mpr ⟨p, hp, decide_eq_true rfl⟩) hgone
            · exact hrest
          · split at hstep
            · cases hstep
              have hstems := stems_exitProcess s.procs pid
              refine ⟨?_, h.before, ⟨hmanager, fun p hp ht => ?_⟩, fun heq => absurd heq hreturned⟩
              · have hcore := h.core.stems hstems
                exact ⟨hcore.ordered, hcore.kin, hcore.targets⟩
              · obtain ⟨q, hq, hne, heq, _⟩ := mem_exitProcess hp
                rw [heq] at ht ⊢
                obtain heq | hrest := List.mem_cons.mp (hqueue q hq ht)
                · exact absurd heq hne
                · exact hrest
            · cases hstep
              exact ⟨hcore _, h.before, ⟨hmanager, hqueue⟩, fun heq => absurd heq hreturned⟩
        · cases hstep

/-- A runner that neither waits for its shell nor kills has left nothing that the stop is to end. -/
theorem StopInv.gone (h : job.StopInv s) (hbusy : s.runner.busy = false) : s.Gone := by
  have hphase := h.phase
  cases hrunner : s.runner with
  | idle =>
    rw [hrunner] at hphase
    exact StopSt.NoneRuns.gone hphase h.core
  | child shell => simp [hrunner, Runner.busy] at hbusy
  | walking started queue signalled wake => simp [hrunner, Runner.busy] at hbusy
  | done =>
    rw [hrunner] at hphase
    exact hphase.2
  | doomed =>
    rw [hrunner] at hphase
    exact hphase.2
  | ended =>
    rw [hrunner] at hphase
    exact hphase.1

/-- The manager looks: it waits on, kills a runner that has left nothing, or returns. -/
theorem StopInv.poll {s' : StopSt} (h : job.StopInv s) (hcalm : job.Calm s .poll) (hstep : job.poll s = some s') :
    job.StopInv s' := by
  unfold ShJob.poll at hstep
  cases hmanager : s.manager with
  | idle => simp [hmanager] at hstep
  | returned ok => simp [hmanager] at hstep
  | killed wake =>
    simp only [hmanager] at hstep
    split at hstep
    · cases hstep
      refine h.move nofun (h.phase.move (by simp [hmanager])) fun hreturned => ?_
      simpa using hreturned
    · cases hstep
  | waiting since wake =>
    simp only [hmanager] at hstep
    split at hstep
    · split at hstep
      · next hended =>
        cases hstep
        exact h.move nofun (h.phase.move (by simp [hmanager])) fun _ => hended
      · split at hstep
        · cases hstep
          exact h.move nofun (h.phase.move (by simp [hmanager])) nofun
        · next hover =>
          cases hstep
          have hbusy := hcalm (by simp [overdue, hmanager, Nat.le_of_not_lt hover])
          exact h.move nofun ⟨nofun, h.gone hbusy⟩ nofun
    · cases hstep

/-- The stop begins: its targets are processes of the job. -/
theorem StopInv.stop {s' : StopSt} (h : job.StopInv s) (hstep : s.stop = some s') : job.StopInv s' := by
  unfold StopSt.stop at hstep
  cases hmanager : s.manager with
  | idle =>
    simp only [hmanager] at hstep
    cases hstep
    have htargets : ∀ t ∈ s.belowShells, t < s.next ∧ s.role t ≠ .other := by
      intro t ht
      obtain ⟨p, hp, hshell, q, hdesc, rfl⟩ := (StopSt.mem_belowShells h.core).mp ht
      refine ⟨h.core.ordered.bounded q (hdesc.mem hp), fun hother => ?_⟩
      rw [(h.core.descends hdesc).mp hother] at hshell
      cases hshell
    have hphase := h.phase
    refine ⟨⟨h.core.ordered, h.core.kin, htargets⟩, ?_, ?_, ?_⟩
    · intro hidle
      split at hidle <;> cases hidle
    · show job.Phase _ s.runner
      cases hrunner : s.runner with
      | idle =>
        rw [hrunner] at hphase
        exact hphase
      | child shell =>
        rw [hrunner] at hphase
        exact ⟨hphase.only, hphase.call, hphase.below⟩
      | walking started queue signalled wake =>
        rw [hrunner] at hphase
        exact absurd hmanager hphase.1
      | done =>
        rw [hrunner] at hphase
        exact absurd hmanager hphase.1
      | doomed =>
        rw [hrunner] at hphase
        exact absurd hmanager hphase.1
      | ended =>
        rw [hrunner] at hphase
        exact ⟨fun p hp ht => (htargets _ ht).2 (hphase.2 hmanager p hp), nofun⟩
    · intro hreturned
      split at hreturned
      · next hended => exact hended
      · cases hreturned
  | _ => simp [hmanager] at hstep

theorem stopInv_step (s : StopSt) (a : StopAct) (s' : StopSt) (h : job.StopInv s) (hcalm : job.Calm s a)
    (hstep : job.step s a = some s') : job.StopInv s' := by
  cases a with
  | tick ms =>
    cases hstep
    exact h.move id (h.phase.move Iff.rfl) h.returned
  | stop => exact h.stop hstep
  | poll => exact h.poll hcalm hstep
  | spawnShell =>
    cases hrunner : s.runner with
    | idle =>
      simp only [step, hrunner] at hstep
      cases hstep
      exact h.spawnShell hrunner
    | _ => simp [step, hrunner] at hstep
  | seeExit =>
    cases hrunner : s.runner with
    | child shell =>
      simp only [step, hrunner] at hstep
      split at hstep
      · cases hstep
      · next hgone =>
        cases hstep
        have halive : job.Phase s (.child shell) := hrunner ▸ h.phase
        refine h.move id (fun p hp => ?_) fun hreturned => ?_
        · -- no shell runs, so nothing below one does
          by_contra hours
          obtain ⟨q, hq, hshell, _⟩ := halive.below p hp hours
          exact hgone (List.any_eq_true.mpr ⟨q, hq, decide_eq_true (halive.only q hq hshell)⟩)
        · have hended := h.returned hreturned
          rw [hrunner] at hended
          cases hended
    | _ => simp [step, hrunner] at hstep
  | seeStop order =>
    cases hrunner : s.runner with
    | child shell =>
      simp only [step, hrunner] at hstep
      split at hstep
      · next hok =>
        cases hstep
        exact h.seeStop hrunner hok.1 hok.2
      · cases hstep
    | _ => simp [step, hrunner] at hstep
  | walk => exact h.walk hstep
  | runnerEnds =>
    simp only [step] at hstep
    split at hstep
    · next hends =>
      cases hstep
      have hbusy : s.runner.busy = false := by
        simp only [List.mem_cons, List.not_mem_nil, or_false] at hends
        obtain heq | heq | heq := hends <;> rw [heq] <;> rfl
      refine h.move id ⟨h.gone hbusy, fun hidle => ?_⟩ fun _ => rfl
      have hphase := h.phase
      simp only [List.mem_cons, List.not_mem_nil, or_false] at hends
      obtain heq | heq | heq := hends
      · rw [heq] at hphase
        exact hphase
      · rw [heq] at hphase
        exact absurd hidle hphase.1
      · rw [heq] at hphase
        exact absurd hidle hphase.1
    · cases hstep
  | fork pid =>
    obtain ⟨p, hfind, rfl⟩ := Option.map_eq_some_iff.mp hstep
    have hp := List.mem_of_find?_eq_some hfind
    refine h.spawn (by split <;> exact nofun) (fun q hq => ?_) nofun
    cases hq
    refine ⟨p, hp, rfl, ?_⟩
    split
    · next hother => exact ⟨fun _ => hother, fun _ => rfl⟩
    · next hother => exact ⟨nofun, fun h => absurd h hother⟩
  | exec pid cmd =>
    cases hstep
    refine h.stems (stems_execProcess s.procs pid cmd) fun shell hrunner => ?_
    have halive : job.Phase s (.child shell) := hrunner ▸ h.phase
    exact Alive.exec halive (hcalm (by rw [hrunner]; rfl))
  | exit pid =>
    cases hstep
    refine h.stems (stems_exitProcess s.procs pid) fun shell hrunner => ?_
    have halive : job.Phase s (.child shell) := hrunner ▸ h.phase
    exact Alive.exit halive h.core (hcalm (by rw [hrunner]; rfl))
  | other cmd =>
    cases hstep
    exact h.spawn nofun nofun fun _ => rfl

/-! ## What a stop leaves behind -/

/-- **A stop leaves nothing behind**: where the manager does not cut the runner's kills short, no process of the job ends before
its children as long as the shell runs, and the shell is not replaced, a stop that returns well has ended the runner, the
shell, and all below it. -/
theorem stopped_leaves_none (job : ShJob) {acts : List StopAct} {s : StopSt} (hcalm : Along job.step job.Calm .init acts)
    (hrun : run job.step .init acts = some s) (hok : s.manager = .returned true) : s.runner = .ended ∧ s.Gone := by
  have h := run_invariant job.step stopInv_step stopInv_init hcalm hrun
  have hended := h.returned hok
  exact ⟨hended, h.gone (by rw [hended]; rfl)⟩

def oneSecond : ShJob := ⟨none, "geth", 1000⟩

/-- The shell and its child end on the signal. -/
def promptStop : List StopAct :=
  [.spawnShell, .fork 0, .exec 1 ["geth"], .stop, .poll, .seeStop [⟨0, none, ["sh", "-c", "geth"]⟩, ⟨1, some 0, ["geth"]⟩],
    .walk, .exit 0, .walk, .walk, .walk, .tick 400, .exit 1, .tick 600, .walk, .walk, .runnerEnds, .poll]

theorem stopped_leaves_none_prompt : ∃ s, run oneSecond.step .init promptStop = some s ∧ s.runner = .ended ∧ s.Gone := by
  have hcalm : Along oneSecond.step oneSecond.Calm .init promptStop := by decide
  have hreturned : (run oneSecond.step .init promptStop).any (·.manager = .returned true) = true := by decide
  obtain ⟨s, hrun, hok⟩ := (Option.any_eq_true _ _).mp hreturned
  exact ⟨s, hrun, stopped_leaves_none oneSecond hcalm hrun (by simpa using hok)⟩

/-- The shell ignores the signal. -/
def deafStop : List StopAct :=
  [.spawnShell, .stop, .poll, .seeStop [⟨0, none, ["sh", "-c", "geth"]⟩], .walk, .walk, .tick 1000, .poll, .runnerEnds, .tick 100, .poll]

/-- **A shell that outlives its stop**: the runner is killed before it kills the shell, and the stop returns well. -/
theorem shell_left_behind : ¬ ∀ (job : ShJob) (acts : List StopAct) (s : StopSt), run job.step .init acts = some s →
    s.manager = .returned true → s.runner = .ended ∧ s.Gone := by
  intro h
  have hleft : (run oneSecond.step .init deafStop).any
      (fun s => s.manager = .returned true ∧ ∃ p ∈ s.procs, p.pid ∈ s.targets) = true := by decide
  obtain ⟨s, hrun, hs⟩ := (Option.any_eq_true _ _).mp hleft
  obtain ⟨hok, p, hp, htarget⟩ : s.manager = .returned true ∧ ∃ p ∈ s.procs, p.pid ∈ s.targets := by simpa using hs
  exact (h oneSecond deafStop s hrun hok).2 p hp htarget

/-! ## Who forces whom first -/

/-- The manager waits as long as the runner is not to end, and its timeout began before that of a kill. -/
structure Timed (s : StopSt) : Prop where
  waits : s.runner = .doomed ∨ s.runner = .ended ∨ s.manager = .idle ∨ ∃ since wake, s.manager = .waiting since wake ∧ since ≤ s.now
  first : ∀ started queue signalled wake, s.runner = .walking started queue signalled wake →
    ∃ since wake, s.manager = .waiting since wake ∧ since ≤ started

variable {s' : StopSt}

/-- Where the runner and the manager stay, time goes on. -/
theorem Timed.keep (h : Timed s) (hrunner : s'.runner = s.runner) (hmanager : s'.manager = s.manager) (hnow : s.now ≤ s'.now) :
    Timed s' where
  waits := by
    rw [hrunner, hmanager]
    obtain hdoomed | hended | hidle | ⟨since, wake, hwaiting, hsince⟩ := h.waits
    · exact .inl hdoomed
    · exact .inr (.inl hended)
    · exact .inr (.inr (.inl hidle))
    · exact .inr (.inr (.inr ⟨since, wake, hwaiting, Nat.le_trans hsince hnow⟩))
  first := by
    rw [hrunner, hmanager]
    exact h.first

/-- The runner goes on to something that is no kill, unless it has ended. -/
theorem Timed.goesOn (h : Timed s) (hlives : s.runner ≠ .doomed ∧ s.runner ≠ .ended) (hmanager : s'.manager = s.manager)
    (hnow : s'.now = s.now) (hwalking : ∀ started queue signalled wake, s'.runner ≠ .walking started queue signalled wake) :
    Timed s' where
  waits := by
    rw [hmanager, hnow]
    obtain hdoomed | hended | hrest := h.waits
    · exact absurd hdoomed hlives.1
    · exact absurd hended hlives.2
    · exact .inr (.inr hrest)
  first started queue signalled wake heq := absurd heq (hwalking started queue signalled wake)

theorem Timed.poll (h : Timed s) (hstep : job.poll s = some s') : Timed s' := by
  unfold ShJob.poll at hstep
  cases hmanager : s.manager with
  | idle => simp [hmanager] at hstep
  | returned ok => simp [hmanager] at hstep
  | killed wake =>
    simp only [hmanager] at hstep
    split at hstep
    · cases hstep
      have hends : s.runner = .doomed ∨ s.runner = .ended := by simpa [hmanager] using h.waits
      refine ⟨hends.imp id .inl, fun started queue signalled wake heq => ?_⟩
      obtain hdoomed | hended := hends
      · exact absurd (hdoomed.symm.trans heq) nofun
      · exact absurd (hended.symm.trans heq) nofun
    · cases hstep
  | waiting since wake =>
    have hwaits := h.waits
    simp only [hmanager] at hstep hwaits
    split at hstep
    · split at hstep
      · next hended =>
        cases hstep
        exact ⟨.inr (.inl hended), fun _ _ _ _ heq => absurd (hended.symm.trans heq) nofun⟩
      · split at hstep
        · cases hstep
          refine ⟨?_, fun started queue signalled wake heq => ?_⟩
          · simpa using hwaits
          · obtain ⟨_, _, hsame, hle⟩ := h.first started queue signalled wake heq
            cases hmanager.symm.trans hsame
            exact ⟨_, _, rfl, hle⟩
        · cases hstep
          exact ⟨.inl rfl, nofun⟩
    · cases hstep

theorem Timed.walk (h : Timed s) (hstep : job.walk s = some s') : Timed s' := by
  unfold ShJob.walk at hstep
  cases hrunner : s.runner with
  | idle => simp [hrunner] at hstep
  | child shell => simp [hrunner] at hstep
  | done => simp [hrunner] at hstep
  | doomed => simp [hrunner] at hstep
  | ended => simp [hrunner] at hstep
  | walking started queue signalled wake =>
    obtain ⟨since, wake', hmanager, hle⟩ := h.first started queue signalled wake hrunner
    have hwaits : ∃ since wake, s.manager = .waiting since wake ∧ since ≤ s.now := by simpa [hrunner, hmanager] using h.waits
    -- as long as it kills, it has the time it began at
    have hkills : ∀ {procs queue signalled wake}, Timed { s with procs, runner := .walking started queue signalled wake } :=
      ⟨.inr (.inr (.inr hwaits)), fun _ _ _ _ heq => by cases heq; exact ⟨since, wake', hmanager, hle⟩⟩
    cases queue with
    | nil =>
      simp only [hrunner] at hstep
      cases hstep
      exact ⟨.inr (.inr (.inr hwaits)), nofun⟩
    | cons pid rest =>
      cases signalled with
      | false =>
        simp only [hrunner] at hstep
        cases hstep
        exact hkills
      | true =>
        simp only [hrunner] at hstep
        split at hstep
        · split at hstep
          · cases hstep
            exact hkills
          · split at hstep
            · cases hstep
              exact hkills
            · cases hstep
              exact hkills
        · cases hstep

theorem timed_step (s : StopSt) (a : StopAct) (s' : StopSt) (h : Timed s) (hstep : job.step s a = some s') : Timed s' := by
  cases a with
  | tick ms =>
    cases hstep
    exact h.keep rfl rfl (Nat.le_add_right ..)
  | stop =>
    unfold step StopSt.stop at hstep
    cases hmanager : s.manager with
    | idle =>
      simp only [hmanager] at hstep
      cases hstep
      refine ⟨?_, fun started queue signalled wake heq => ?_⟩
      · by_cases hended : s.runner = .ended
        · exact .inr (.inl hended)
        · exact .inr (.inr (.inr ⟨s.now, s.now, if_neg hended, Nat.le_refl _⟩))
      · obtain ⟨_, _, hwaiting, _⟩ := h.first started queue signalled wake heq
        cases hmanager.symm.trans hwaiting
    | _ => simp [hmanager] at hstep
  | poll => exact h.poll hstep
  | spawnShell =>
    cases hrunner : s.runner with
    | idle =>
      simp only [step, hrunner] at hstep
      cases hstep
      exact h.goesOn (by simp [hrunner]) rfl rfl nofun
    | _ => simp [step, hrunner] at hstep
  | seeExit =>
    cases hrunner : s.runner with
    | child shell =>
      simp only [step, hrunner] at hstep
      split at hstep
      · cases hstep
      · cases hstep
        exact h.goesOn (by simp [hrunner]) rfl rfl nofun
    | _ => simp [step, hrunner] at hstep
  | seeStop order =>
    cases hrunner : s.runner with
    | child shell =>
      simp only [step, hrunner] at hstep
      split at hstep
      · next hok =>
        cases hstep
        have hwaits : ∃ since wake, s.manager = .waiting since wake ∧ since ≤ s.now := by simpa [hrunner, hok.1] using h.waits
        refine ⟨.inr (.inr (.inr hwaits)), fun started queue signalled wake heq => ?_⟩
        cases heq
        exact hwaits
      · cases hstep
    | _ => simp [step, hrunner] at hstep
  | walk => exact h.walk hstep
  | runnerEnds =>
    simp only [step] at hstep
    split at hstep
    · cases hstep
      exact ⟨.inr (.inl rfl), nofun⟩
    · cases hstep
  | fork pid =>
    obtain ⟨p, _, rfl⟩ := Option.map_eq_some_iff.mp hstep
    exact h.keep rfl rfl (Nat.le_refl _)
  | exec pid cmd =>
    cases hstep
    exact h.keep rfl rfl (Nat.le_refl _)
  | exit pid =>
    cases hstep
    exact h.keep rfl rfl (Nat.le_refl _)
  | other cmd =>
    cases hstep
    exact h.keep rfl rfl (Nat.le_refl _)

/-- **Who is forced first**: when the runner may force a process to end, the manager may force the runner at its next look. -/
theorem forced_after_deadline (job : ShJob) {acts : List StopAct} {s : StopSt} (hrun : run job.step .init acts = some s)
    {started wake : Nat} {queue : List Nat} {signalled : Bool} (hwalking : s.runner = .walking started queue signalled wake)
    (hforce : job.shutdownTimeout < s.now - started) : job.overdue s = true := by
  have hinit : Timed .init := ⟨.inr (.inr (.inl rfl)), nofun⟩
  have h : Timed s := run_invariant_all job.step timed_step hinit hrun
  obtain ⟨since, wake, hmanager, hsince⟩ := h.first started queue signalled wake hwalking
  have hover : ¬ s.now - since < job.shutdownTimeout := by omega
  simp [overdue, hmanager, Nat.le_of_not_lt hover]

end ShJob

end Blockvisor
