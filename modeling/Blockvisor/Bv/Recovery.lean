/-
What recovery does to a node that was told to stop. A restart, or an upgrade
of a running node, marks the node as restarting, and only a start that is
completed takes the mark off. A stop leaves the mark where it is: recovery
takes what it finds of it for a restart that is still to be completed.

`recovery_respects_stop` is about the lives in which no recovery pass meets
such a leftover mark on a node that is up: no pass starts the node after a
stop that returned, and a node that should be stopped is started only for a
restart or an upgrade under way. `recovery_undoes_stop` is a life in which a
pass does start the node again.
-/
import Blockvisor.Bv.NodeFacts

namespace Blockvisor

open Effect Machine

/-- The machine has the container that the daemon knows of. -/
def Site.up (s : Site) : Bool := s.machine.apptainerPid.isSome && s.container.map (·.pid) = s.machine.apptainerPid

/-- Up though it should be stopped, and marked as restarting though nothing is under way. -/
def Node.leftover (n : Node) : Bool :=
  n.state.expectedStatus = .stopped && n.state.restarting && !n.unfinished && n.site.up

/-- Nothing has the node started: it should be stopped, or has been given up. -/
def Node.AtRest (n : Node) : Prop := n.state.expectedStatus = .stopped ∨ n.state.expectedStatus = .failed

/-- A mark is that of something under way. -/
def Node.Marked (n : Node) : Prop := n.state.restarting = true → n.unfinished = true

namespace Watched

/-- A recovery pass does not meet a leftover mark. -/
def Spared (w : Watched) (a : NodeCall × CallEnv) : Prop :=
  match a.1 with
  | .recover => w.node.leftover = false
  | _ => True

/-- No stop leaves a mark. -/
def Unmarked (w : Watched) (a : NodeCall × CallEnv) : Prop :=
  match a.1 with
  | .stop _ => w.node.state.restarting = false
  | _ => True

/-- The machine is told to start in the call. -/
def tells (w : Watched) (a : NodeCall × CallEnv) : Prop := (a.1.run (w.node.inEnv a.2)).2.told ≠ w.node.told

/-- A recovery pass does not start the node when the last command was a stop that returned, and it
starts a node that should be stopped only for a restart or an upgrade under way. -/
def Respects (w : Watched) (a : NodeCall × CallEnv) : Prop :=
  match a.1 with
  | .recover => w.tells a →
    w.lastStopped = false ∧ (w.node.state.expectedStatus = .stopped → w.node.unfinished = true)
  | _ => True

instance (w : Watched) : ∀ a, Decidable (w.Spared a)
  | (.recover, _) => inferInstanceAs (Decidable (w.node.leftover = false))
  | (.start _, _) => .isTrue trivial
  | (.stop _, _) => .isTrue trivial
  | (.restart _, _) => .isTrue trivial
  | (.upgrade .., _) => .isTrue trivial

instance (w : Watched) (a : NodeCall × CallEnv) : Decidable (w.tells a) :=
  inferInstanceAs (Decidable ((a.1.run (w.node.inEnv a.2)).2.told ≠ w.node.told))

instance (w : Watched) : ∀ a, Decidable (w.Respects a)
  | (.recover, env) => inferInstanceAs (Decidable (w.tells (.recover, env) →
      w.lastStopped = false ∧ (w.node.state.expectedStatus = .stopped → w.node.unfinished = true)))
  | (.start _, _) => .isTrue trivial
  | (.stop _, _) => .isTrue trivial
  | (.restart _, _) => .isTrue trivial
  | (.upgrade .., _) => .isTrue trivial

end Watched

/-! ## A pass over a node at rest -/

theorem isContainerRunning_up (s₀ : Site) :
    Triple (· = s₀) ApptainerMachine.isContainerRunning (fun running _ => running = true → s₀.up = true)
      fun _ _ => True := by
  have hup : ∀ s : Site, s.machine = s₀.machine → s.container = s₀.container ∨ s.container = none →
      s.up = true → s₀.up = true := by
    intro s hmachine hcontainer hs
    unfold Site.up at hs ⊢
    rw [hmachine] at hs
    rcases hcontainer with h | h
    · rw [h] at hs
      exact hs
    · rw [h] at hs
      cases hpid : s₀.machine.apptainerPid <;> simp [hpid] at hs
  unfold ApptainerMachine.isContainerRunning
  have hdied : Triple (fun s => s = s₀) Site.answer
      (fun _ s => s.machine = s₀.machine ∧ (s.container = s₀.container ∨ s.container = none)) fun _ _ => True := by
    intro s hs
    subst hs
    exact ⟨rfl, .inl rfl⟩
  refine Triple.bind hdied fun died => Triple.bind (R := fun _ s =>
    s.machine = s₀.machine ∧ (s.container = s₀.container ∨ s.container = none)) (Triple.when ?_ ?_) fun _ => ?_
  · exact fun _ => Triple.modify fun s hs => ⟨hs.1, .inr rfl⟩
  · exact fun _ s hs => hs
  · intro s hs hrunning
    exact hup s hs.1 hs.2 hrunning

/-- A machine that is not shut off was up. -/
theorem state_up (s₀ : Site) :
    Triple (· = s₀) ApptainerMachine.state (fun r _ => r ≠ .shutoff → s₀.up = true) fun _ _ => True := by
  unfold ApptainerMachine.state
  refine Triple.bind (isContainerRunning_up s₀) fun running => ?_
  cases running with
  | false => exact Triple.pure fun s _ h => (h rfl).elim
  | true =>
    refine Triple.bind (R := fun _ _ => s₀.up = true) ?_ fun babel => ?_
    · intro s hs
      cases ApptainerMachine.isBabelRunning s with
      | mk r s' =>
        cases r with
        | ok a => exact hs rfl
        | error e => trivial
    · cases babel with
      | true => exact Triple.pure fun s hs _ => hs
      | false => exact Triple.pure fun s hs _ => hs

namespace Node

/-- A node that should be stopped has failed only while it is up. -/
theorem status_up (n₀ : Node) :
    Triple (· = n₀) status (fun status _ => n₀.state.expectedStatus = .stopped → status = .failed → n₀.site.up = true)
      fun _ _ => True := by
  unfold status
  refine Triple.bind (R := fun machineStatus n => n.state = n₀.state ∧ (machineStatus ≠ .stopped → n₀.site.up = true))
    (Triple.bind ((state_up n₀.site).zoom.exit fun _ _ _ => trivial) fun machine => ?_) fun machineStatus => ?_
  · intro n hn
    obtain ⟨s, rfl, hup⟩ := hn
    cases machine with
    | running => exact ⟨rfl, fun _ => hup nofun⟩
    | shutoff => exact ⟨rfl, fun h => (h rfl).elim⟩
    | invalid => exact ⟨rfl, fun _ => hup nofun⟩
  · refine Triple.bind Triple.gets fun n => ?_
    split
    · split
      · rename_i hrunning
        refine Triple.pure fun _ hn _ _ => hn.2.2 ?_
        rw [hrunning.1]
        decide
      · refine Triple.pure fun _ hn _ hfailed => hn.2.2 ?_
        rw [hfailed]
        decide
    · rename_i hother
      refine Triple.pure fun n' hn hstopped _ => hn.2.2 fun hm => hother ?_
      rw [hm, hn.1, ← hstopped, ← hn.2.1]
      rfl

/-! ## Passes -/

/-- What a pass over a node at rest leaves alone. -/
structure Resting (n₀ n : Node) : Prop where
  told : n.told = n₀.told
  restarting : n.state.restarting = n₀.state.restarting
  unfinished : n.unfinished = n₀.unfinished
  atRest : n.AtRest

theorem Resting.framed (n₀ : Node) : Framed (Resting n₀) where
  site := fun _ _ h => ⟨h.told, h.restarting, h.unfinished, h.atRest⟩
  saved := fun _ _ _ _ h => ⟨h.told, h.restarting, h.unfinished, h.atRest⟩
  stopped := fun _ h => ⟨h.told, h.restarting, h.unfinished, .inl rfl⟩
  failed := fun _ h => ⟨h.told, h.restarting, h.unfinished, .inr rfl⟩

/-- A node that is stopped without a mark is left stopped. -/
theorem recoverStopped_resting {n₀ : Node} (hmark : n₀.state.restarting = false) :
    Keeps (Resting n₀) (Resting n₀) recoverStopped := by
  have hI := Resting.framed n₀
  unfold recoverStopped
  refine Keeps.bind Keeps.gets fun connection => Keeps.bind (stop_keeps hI _).attempt fun res => ?_
  cases res with
  | error e => exact giveUp_keeps hI _
  | ok a =>
    refine Keeps.bind hI.onSite fun _ => Triple.bind Triple.gets fun restarting => ?_
    refine Triple.when (fun hmarked => Triple.absurd fun n h => ?_) fun _ n h => h.2
    rw [h.1, h.2.restarting, hmark] at hmarked
    cases hmarked

theorem recover_resting {n₀ : Node} (hmark : n₀.state.restarting = false) :
    Keeps (Resting n₀) (Resting n₀) Node.recover := by
  have hI := Resting.framed n₀
  unfold recover
  refine Keeps.bind hI.onSite fun backoff => Keeps.ite Keeps.pure ?_
  refine Triple.bind Triple.gets fun expected => ?_
  cases expected with
  | running =>
    refine Triple.absurd fun n h => ?_
    rcases h.2.atRest with hrest | hrest
    · rw [hrest] at h
      cases h.1
    · rw [hrest] at h
      cases h.1
  | stopped => exact (recoverStopped_resting hmark).pre fun _ h => h.2
  | failed => exact Triple.pure fun _ h => h.2
  | busy => exact Triple.throw fun _ h => h.2

theorem leftover_eq_false {n : Node} (hleft : n.leftover = false) (hfinished : n.unfinished = false)
    (hmark : n.state.restarting = true) (hstopped : n.state.expectedStatus = .stopped) : n.site.up = false := by
  simpa [leftover, hfinished, hmark, hstopped] using hleft

/-- A pass over a node at rest without a leftover mark leaves it at rest. -/
theorem pass_resting {n₀ : Node} (hrest : n₀.AtRest) (hleft : n₀.leftover = false) (hfinished : n₀.unfinished = false) :
    Triple (· = n₀) NodesManager.recover (fun _ => Resting n₀) fun _ => Resting n₀ := by
  have hframe : Keeps (fun n => Resting n₀ n ∧ n.state = n₀.state) (fun n => Resting n₀ n ∧ n.state = n₀.state) status :=
    status_keeps
      { site := fun n _ h => ⟨(Resting.framed n₀).site n _ h.1, h.2⟩
        saved := fun n _ _ hf h => ⟨(Resting.framed n₀).saved n _ _ hf h.1, h.2⟩ }
  have hexit : ∀ (e : Exit String) n, atExit (Resting n₀) (Resting n₀) e n → Resting n₀ n := fun e _ h => by cases e <;> exact h
  unfold NodesManager.recover
  refine Triple.bind (R := fun r n => (Resting n₀ n ∧ n.state = n₀.state) ∧
    (n₀.state.expectedStatus = .stopped → r = .failed → n₀.site.up = true)) ?_ fun r => ?_
  · refine ((hframe.and (status_up n₀)).pre ?_).exit fun e n h => ?_
    · rintro n rfl
      exact ⟨⟨⟨rfl, rfl, rfl, hrest⟩, rfl⟩, rfl⟩
    · cases e <;> exact h.1.1
  · refine Triple.bind Triple.gets fun expected => Triple.when ?_ fun _ _ h => h.2.1.1
    rintro ⟨hfailed, hexpected⟩
    cases hmark : n₀.state.restarting with
    | false => exact ((tolerate_keeps (recover_resting hmark)).pre fun _ h => h.2.1.1).exit hexit
    | true =>
      refine Triple.absurd fun n h => ?_
      obtain ⟨hn, ⟨-, hstate⟩, hup⟩ := h
      rcases hrest with hstopped | hgiven
      · have hdown := leftover_eq_false hleft hfinished hmark hstopped
        rw [hup hstopped hfailed] at hdown
        cases hdown
      · rw [hn, hstate, hgiven] at hexpected
        exact hexpected rfl

end Node

/-! ## Lives -/

namespace Watched

/-- A node whose last command was a stop that returned is at rest, and nothing is under way. -/
def Halted (w : Watched) : Prop := w.lastStopped = true → w.node.AtRest ∧ w.node.unfinished = false

open Node

theorem stop_halts (force : Bool) :
    Triple (fun _ => True) (NodesManager.stop force) (fun _ n => n.AtRest ∧ n.unfinished = false) fun _ _ => True := by
  have hI : Framed AtRest :=
    { site := fun _ _ h => h
      saved := fun _ _ _ _ h => h
      stopped := fun _ _ => .inl rfl
      failed := fun _ _ => .inr rfl }
  unfold NodesManager.stop
  refine Triple.bind Triple.gets fun expected => ?_
  refine Triple.bind (R := fun _ => AtRest) (Triple.when (fun _ => ?_) fun hskip n h => ?_) fun _ => ?_
  · refine Triple.mapError ((stop_enters hI (fun _ _ => .inl rfl) force).exit fun e _ _ => ?_)
    cases e <;> trivial
  · refine .inl ?_
    rw [← h.1]
    exact Decidable.not_not.mp fun hne => hskip (.inl hne)
  · exact Triple.modify fun _ h => ⟨h, rfl⟩

theorem pass_rests {w : Watched} (hrest : w.node.AtRest) (hfinished : w.node.unfinished = false)
    (hleft : w.node.leftover = false) (env : CallEnv) :
    Resting (w.node.inEnv env) (NodeCall.recover.run (w.node.inEnv env)).2 := by
  have hpass := (pass_resting (show (w.node.inEnv env).AtRest from hrest) hleft hfinished).run rfl
  rwa [← mapError_snd CommandError.internal] at hpass

theorem halted_next {w w' : Watched} {a : NodeCall × CallEnv} (h : w.Halted) (hspared : w.Spared a)
    (hs : w.step a = some w') : w'.Halted := by
  unfold step at hs
  split at hs
  · cases hs
    obtain ⟨call, env⟩ := a
    cases call with
    | start r => exact nofun
    | restart f => exact nofun
    | upgrade d v r => exact nofun
    | stop force =>
      have hstop := stop_halts force (w.node.inEnv env) trivial
      show Watched.Halted (w.after (.stop force) (NodesManager.stop force (w.node.inEnv env)))
      revert hstop
      cases NodesManager.stop force (w.node.inEnv env) with
      | mk r n =>
        cases r with
        | ok a => exact fun hstop _ => hstop
        | error e => exact fun _ => nofun
    | recover =>
      intro hlast
      obtain ⟨hrest, hfinished⟩ := h hlast
      have hpass := pass_rests hrest hfinished hspared env
      exact ⟨hpass.atRest, hpass.unfinished.trans hfinished⟩
  · cases hs

theorem halted_respects {w : Watched} {a : NodeCall × CallEnv} (h : w.Halted) (hspared : w.Spared a) : w.Respects a := by
  obtain ⟨call, env⟩ := a
  cases call with
  | start r => trivial
  | restart f => trivial
  | upgrade d v r => trivial
  | stop force => trivial
  | recover =>
    intro htells
    refine ⟨?_, fun hstopped => ?_⟩
    · cases hlast : w.lastStopped with
      | false => rfl
      | true =>
        obtain ⟨hrest, hfinished⟩ := h hlast
        exact (htells (pass_rests hrest hfinished hspared env).told).elim
    · cases hfinished : w.node.unfinished with
      | true => rfl
      | false => exact (htells (pass_rests (.inl hstopped) hfinished hspared env).told).elim

/-! ## Marks -/

theorem marked_robust : Robust Node.Marked where
  site := fun _ _ h => h
  saved := fun _ _ _ _ h => h
  registry := fun _ _ h => h
  ready := fun _ _ h => h
  told := fun _ _ h => h
  state := fun _ _ hsame h hmark => h (hsame.restarting.symm.trans hmark)
  marked := fun _ _ _ => rfl
  started := fun _ _ => nofun

/-- A stop of a node without a mark leaves none. -/
theorem stop_unmarked (force : Bool) :
    Keeps (fun n => n.state.restarting = false) (fun n => n.state.restarting = false) (NodesManager.stop force) := by
  have hI : Framed fun n => n.state.restarting = false :=
    { site := fun _ _ h => h
      saved := fun _ _ _ _ h => h
      stopped := fun _ h => h
      failed := fun _ h => h }
  refine Keeps.bind Keeps.gets fun _ => Keeps.bind (Keeps.when (lift_keeps (stop_keeps hI force))) fun _ => ?_
  exact Keeps.modify fun _ h => h

/-- A call that leaves no mark behind keeps the marks truthful. -/
theorem marked_next {w w' : Watched} {a : NodeCall × CallEnv} (h : w.node.Marked) (hun : w.Unmarked a)
    (hs : w.step a = some w') : w'.node.Marked := by
  unfold step at hs
  split at hs
  · cases hs
    obtain ⟨call, env⟩ := a
    have hn : (w.node.inEnv env).Marked := h
    cases call with
    | start reload => exact (managerStart_keeps marked_robust.live.working reload).run hn
    | stop force =>
      intro hmark
      have hclear := (stop_unmarked force).run (s := w.node.inEnv env) hun
      exact absurd (hclear.symm.trans hmark) nofun
    | restart force => exact (lift_keeps (restart_keeps marked_robust.live.working force)).run hn
    | upgrade desired version requirements =>
      exact (managerUpgrade_keeps marked_robust.live desired version requirements).run hn
    | recover => exact (lift_keeps (managerRecover_keeps marked_robust.live.working)).run hn
  · cases hs

theorem spared_of_marked {w : Watched} {a : NodeCall × CallEnv} (h : w.node.Marked) : w.Spared a := by
  obtain ⟨call, env⟩ := a
  cases call with
  | start r => trivial
  | stop f => trivial
  | restart f => trivial
  | upgrade d v r => trivial
  | recover =>
    show w.node.leftover = false
    unfold Node.leftover
    cases hmark : w.node.state.restarting with
    | false => simp
    | true => simp [h hmark]

end Watched

open Watched

/-- **Recovery respects a stop** in every life in which no recovery pass meets a leftover mark on a
node that is up. None is ever met if the marks are truthful at first and no stop finds one. -/
theorem recovery_respects_stop {w : Watched} (hlast : w.lastStopped = false) {calls : List (NodeCall × CallEnv)} :
    (Along step Spared w calls → Along step Respects w calls) ∧
      (w.node.Marked → Along step Unmarked w calls → Along step Spared w calls) := by
  constructor
  · have hhalted : w.Halted := by
      intro h
      rw [hlast] at h
      cases h
    exact Along.of_invariant (I := Halted) step (fun _ _ h hspared => halted_respects h hspared)
      (fun _ _ _ h hspared hs => halted_next h hspared hs) hhalted
  · exact Along.of_invariant (I := fun w => w.node.Marked) step (fun _ _ h _ => spared_of_marked h) fun _ _ _ h hun hs =>
      marked_next h hun hs

/-- A node that runs. -/
def runningNode : Node where
  site :=
    { (default : Site) with
      dir := ⟨true, true, none, .built "image" 1, .absent, some 2, none⟩
      container := some ⟨2, 1⟩
      babels := [3]
      machine.apptainerPid := some 2
      machine.babelPid := some 3
      connection := .babel
      next := 4 }
  state := { (default : NodeState) with expectedStatus := .running, initialized := true }
  file := ⟨.missing, .missing⟩
  registry := []
  saves := []
  told := 0
  unfinished := false
  ready := []

/-- Babel cannot be asked to shut down. -/
def babelGone : CallEnv := ⟨[.error .nothing], [], []⟩

/-- The restart fails at babel and leaves its mark; recovery completes it, and the stop is respected. -/
theorem recovery_respects_running :
    Along step Respects ⟨runningNode, true, false⟩
      [(.restart false, babelGone), (.recover, default), (.stop false, default), (.recover, default)] :=
  (recovery_respects_stop rfl).1 (by decide +kernel)

/-- The stop after a restart that failed returns at once, as the node is expected to be stopped already;
the next pass takes the mark for a restart to complete, and starts the node. -/
theorem recovery_undoes_stop :
    ¬ ∀ (w : Watched) (calls : List (NodeCall × CallEnv)), w.lastStopped = false → w.node.Marked →
      Along step Respects w calls := by
  intro h
  have hlife := h ⟨runningNode, true, false⟩ [(.restart false, babelGone), (.stop false, default), (.recover, default)]
    rfl nofun
  revert hlife
  decide +kernel

end Blockvisor
