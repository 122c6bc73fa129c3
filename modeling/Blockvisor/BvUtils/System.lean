/-
Processes and how they are killed (`system.rs`). A process is found by its
command line, which is the call itself, or the call behind an interpreter; it
is killed with the tree below it, as a snapshot of all processes has it.

`killAllProcesses` gives the processes that are signalled. With children newer
than their parents these are the descendants of those that were found
(`mem_killAllProcesses`).
-/
import Mathlib.Data.List.Basic

namespace Blockvisor

/-- A process, with the call it was started with. -/
structure Process where
  pid : Nat
  parent : Option Nat
  cmd : List String
  deriving DecidableEq

/-- The process is a call of `cmd`, or of a script `cmd` by its interpreter. -/
def Process.calls (cmd : String) (args : List String) (p : Process) : Bool :=
  match p.cmd with
  | [] => false
  | first :: rest =>
    (cmd = first && args = rest) ||
      match rest with
      | [] => false
      | second :: rest => cmd = second && args = rest

def findProcesses (cmd : String) (args : List String) (ps : List Process) : List Process := ps.filter (·.calls cmd args)

/-- The processes that are signalled, the parent first, to a depth that bounds the recursion. -/
def killProcessTree (ps : List Process) : Nat → Process → List Nat
  | 0, _ => []
  | depth + 1, p => p.pid :: (ps.filter (·.parent = some p.pid)).flatMap (killProcessTree ps depth)

def killAllProcesses (ps : List Process) (depth : Nat) (cmd : String) (args : List String) : List Nat :=
  (findProcesses cmd args ps).flatMap (killProcessTree ps depth)

/-! ## What processes do -/

/-- A process ends; its children are none of another process in the tree. -/
def exitProcess (pid : Nat) (ps : List Process) : List Process :=
  (ps.filter (·.pid ≠ pid)).map fun p => if p.parent = some pid then { p with parent := none } else p

def execProcess (pid : Nat) (cmd : List String) (ps : List Process) : List Process :=
  ps.map fun p => if p.pid = pid then { p with cmd } else p

/-- Processes that are left of others, with no other parents. -/
def Stems (ps' ps : List Process) : Prop :=
  ∀ p ∈ ps', ∃ q ∈ ps, p.pid = q.pid ∧ ∀ parent, p.parent = some parent → q.parent = some parent

theorem mem_exitProcess {ps : List Process} {pid : Nat} {p : Process} (h : p ∈ exitProcess pid ps) :
    ∃ q ∈ ps, q.pid ≠ pid ∧ p.pid = q.pid ∧ p.cmd = q.cmd ∧ ∀ parent, p.parent = some parent → q.parent = some parent := by
  obtain ⟨q, hq, rfl⟩ := List.mem_map.mp h
  obtain ⟨hmem, hpid⟩ := List.mem_filter.mp hq
  refine ⟨q, hmem, by simpa using hpid, ?_⟩
  by_cases hparent : q.parent = some pid
  · rw [if_pos hparent]
    exact ⟨rfl, rfl, fun _ hnone => by cases hnone⟩
  · rw [if_neg hparent]
    exact ⟨rfl, rfl, fun _ => id⟩

theorem exitProcess_mem {ps : List Process} {pid : Nat} {p : Process} (h : p ∈ ps) (hpid : p.pid ≠ pid) (hparent : p.parent ≠ some pid) :
    p ∈ exitProcess pid ps :=
  List.mem_map.mpr ⟨p, List.mem_filter.mpr ⟨h, by simpa using hpid⟩, if_neg hparent⟩

theorem mem_execProcess {ps : List Process} {pid : Nat} {cmd : List String} {p : Process} (h : p ∈ execProcess pid cmd ps) :
    ∃ q ∈ ps, p.pid = q.pid ∧ p.parent = q.parent ∧ (p.cmd = q.cmd ∨ q.pid = pid ∧ p.cmd = cmd) := by
  obtain ⟨q, hq, rfl⟩ := List.mem_map.mp h
  refine ⟨q, hq, ?_⟩
  by_cases hpid : q.pid = pid
  · rw [if_pos hpid]
    exact ⟨rfl, rfl, .inr ⟨hpid, rfl⟩⟩
  · rw [if_neg hpid]
    exact ⟨rfl, rfl, .inl rfl⟩

theorem stems_exitProcess (ps : List Process) (pid : Nat) : Stems (exitProcess pid ps) ps := fun _ hp =>
  have ⟨q, hq, _, hpid, _, hparent⟩ := mem_exitProcess hp
  ⟨q, hq, hpid, hparent⟩

theorem stems_execProcess (ps : List Process) (pid : Nat) (cmd : List String) : Stems (execProcess pid cmd ps) ps := fun _ hp =>
  have ⟨q, hq, hpid, hparent, _⟩ := mem_execProcess hp
  ⟨q, hq, hpid, fun _ h => hparent ▸ h⟩

/-! ## Descendants -/

/-- A process below another one, or the same. -/
inductive Descends (ps : List Process) : Process → Process → Prop
  | refl {p : Process} : Descends ps p p
  | child {root p c : Process} : Descends ps root p → c ∈ ps → c.parent = some p.pid → Descends ps root c

variable {ps : List Process} {p q c : Process}

theorem Descends.trans (h : Descends ps p q) (h' : Descends ps q c) : Descends ps p c := by
  induction h' with
  | refl => exact h
  | child _ hmem hparent ih => exact .child ih hmem hparent

/-- The first step down. -/
theorem Descends.head (h : Descends ps p q) : q = p ∨ ∃ c ∈ ps, c.parent = some p.pid ∧ Descends ps c q := by
  induction h with
  | refl => exact .inl rfl
  | child _ hmem hparent ih =>
    right
    obtain rfl | ⟨c, hc, hfirst, hrest⟩ := ih
    · exact ⟨_, hmem, hparent, .refl⟩
    · exact ⟨c, hc, hfirst, .child hrest hmem hparent⟩

theorem Descends.mem (h : Descends ps p q) (hp : p ∈ ps) : q ∈ ps := by
  cases h with
  | refl => exact hp
  | child _ hmem _ => exact hmem

/-- Children are newer than their parents, and all pids below a bound. -/
structure PidOrdered (ps : List Process) (bound : Nat) : Prop where
  bounded : ∀ p ∈ ps, p.pid < bound
  newer : ∀ p ∈ ps, ∀ parent, p.parent = some parent → parent < p.pid

theorem PidOrdered.stems {ps' : List Process} {bound : Nat} (h : PidOrdered ps bound) (hstems : Stems ps' ps) : PidOrdered ps' bound where
  bounded p hp := by
    obtain ⟨q, hq, hpid, _⟩ := hstems p hp
    rw [hpid]
    exact h.bounded q hq
  newer p hp parent hparent := by
    obtain ⟨q, hq, hpid, hold⟩ := hstems p hp
    rw [hpid]
    exact h.newer q hq parent (hold parent hparent)

theorem PidOrdered.spawn {bound : Nat} (h : PidOrdered ps bound) {parent : Option Nat} {cmd : List String}
    (hparent : ∀ pid, parent = some pid → pid < bound) : PidOrdered (ps ++ [⟨bound, parent, cmd⟩]) (bound + 1) where
  bounded p hp := by
    obtain hp | hp := List.mem_append.mp hp
    · have hlt := h.bounded p hp
      omega
    · rw [List.mem_singleton.mp hp]
      exact Nat.lt_succ_self _
  newer p hp q hq := by
    obtain hp | hp := List.mem_append.mp hp
    · exact h.newer p hp q hq
    · obtain rfl := List.mem_singleton.mp hp
      exact hparent q hq

theorem Descends.mono {ps' : List Process} (h : Descends ps p q) (hsub : ps ⊆ ps') : Descends ps' p q := by
  induction h with
  | refl => exact .refl
  | child _ hmem hparent ih => exact .child ih (hsub hmem) hparent

/-- A change that leaves the pids and the parents. -/
theorem Descends.map {f : Process → Process} (hpid : ∀ p, (f p).pid = p.pid) (hparent : ∀ p, (f p).parent = p.parent)
    (h : Descends ps p q) : Descends (ps.map f) (f p) (f q) := by
  induction h with
  | refl => exact .refl
  | child _ hmem hp ih => exact .child ih (List.mem_map_of_mem hmem) (by rw [hpid, hparent, hp])

/-- The end of a process without children in the tree. -/
theorem Descends.exit {pid : Nat} (h : Descends ps p q) (hchild : ∀ c ∈ ps, Descends ps p c → c.parent ≠ some pid)
    (hq : q.pid ≠ pid) : Descends (exitProcess pid ps) p q := by
  induction h with
  | refl => exact .refl
  | @child _ c hdesc hmem hparent ih =>
    have hne := hchild _ hmem (.child hdesc hmem hparent)
    exact .child (ih fun heq => hne (heq ▸ hparent)) (exitProcess_mem hmem hq hne) hparent

theorem mem_killProcessTree {bound depth : Nat} (hordered : PidOrdered ps bound) (hdepth : bound ≤ depth + p.pid)
    (hp : p ∈ ps) {x : Nat} : x ∈ killProcessTree ps depth p ↔ ∃ q, Descends ps p q ∧ q.pid = x := by
  induction depth generalizing p with
  | zero =>
    have hlt := hordered.bounded p hp
    omega
  | succ depth ih =>
    unfold killProcessTree
    rw [List.mem_cons, List.mem_flatMap]
    constructor
    · intro h
      obtain rfl | ⟨c, hc, hx⟩ := h
      · exact ⟨p, .refl, rfl⟩
      · obtain ⟨hmem, hparent⟩ := List.mem_filter.mp hc
        have hchild : c.parent = some p.pid := by simpa using hparent
        have hlt := hordered.newer c hmem p.pid hchild
        obtain ⟨q, hq, hqx⟩ := (ih (by omega) hmem).mp hx
        exact ⟨q, (Descends.child .refl hmem hchild).trans hq, hqx⟩
    · intro h
      obtain ⟨q, hq, hqx⟩ := h
      obtain rfl | ⟨c, hmem, hchild, hrest⟩ := hq.head
      · exact .inl hqx.symm
      · right
        have hlt := hordered.newer c hmem p.pid hchild
        refine ⟨c, List.mem_filter.mpr ⟨hmem, by simpa using hchild⟩, ?_⟩
        exact (ih (by omega) hmem).mpr ⟨q, hrest, hqx⟩

/-- **Who is signalled**: the descendants of those that are found. -/
theorem mem_killAllProcesses {bound : Nat} (hordered : PidOrdered ps bound) {cmd : String} {args : List String} {x : Nat} :
    x ∈ killAllProcesses ps bound cmd args ↔ ∃ p ∈ ps, p.calls cmd args = true ∧ ∃ q, Descends ps p q ∧ q.pid = x := by
  unfold killAllProcesses findProcesses
  rw [List.mem_flatMap]
  constructor
  · intro h
    obtain ⟨p, hp, hx⟩ := h
    obtain ⟨hmem, hcalls⟩ := List.mem_filter.mp hp
    exact ⟨p, hmem, hcalls, (mem_killProcessTree hordered (Nat.le_add_right ..) hmem).mp hx⟩
  · intro h
    obtain ⟨p, hmem, hcalls, hx⟩ := h
    exact ⟨p, List.mem_filter.mpr ⟨hmem, hcalls⟩, (mem_killProcessTree hordered (Nat.le_add_right ..) hmem).mpr hx⟩

end Blockvisor
