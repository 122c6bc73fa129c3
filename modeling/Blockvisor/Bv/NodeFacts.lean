/-
What the operations on a node leave alone. `Framed` is an invariant that the
site, the files and an end of the node do not matter to, `Steady` one that
stands any change of the state but of what its plugin was initialised for.
`Live` is one that also stands these changes, as they are made, and `Robust`
one that survives all an operation can do. Each operation keeps every invariant of its
kind, so what an operation leaves alone is read off from the invariant that
says so.
-/
import Blockvisor.Bv.NodeCalls

namespace Blockvisor

open Effect

namespace Node

/-- The fields of a state by which a node is known, and those only a command for them sets. -/
structure SameNode (st st' : NodeState) : Prop where
  id : st'.id = st.id
  name : st'.name = st.name
  ip : st'.ip = st.ip
  devMode : st'.devMode = st.devMode
  restarting : st'.restarting = st.restarting

/-- Nor does what the plugin was initialised for change, or the state to go back to. -/
structure SameRevision (st st' : NodeState) : Prop extends SameNode st st' where
  initialized : st'.initialized = st.initialized
  revision : st'.revision = st.revision
  stateBackup : st'.upgradeState.stateBackup = st.upgradeState.stateBackup

structure Placed (I : Node → Prop) : Prop where
  site : ∀ n site, I n → I { n with site }
  saved : ∀ n file saves, n.file.After n.state file → I n → I { n with file, saves }

structure Framed (I : Node → Prop) : Prop extends Placed I where
  stopped : ∀ n, I n → I { n with state.expectedStatus := .stopped }
  failed : ∀ n, I n → I { n with state.expectedStatus := .failed }

/-- Starting and stopping do not matter, as far as they go. -/
structure Working (I : Node → Prop) : Prop extends Framed I where
  running : ∀ n, I n → I { n with state.expectedStatus := .running }
  ready : ∀ n ready, n.ready ⊆ ready → I n → I { n with ready }
  told : ∀ n told, I n → I { n with told }
  marked : ∀ n, I n → I { n with state.restarting := true, unfinished := true }
  started : ∀ n, I n → I { n with state.restarting := false, unfinished := false }
  initialized : ∀ n, n.state.revision ∈ n.ready → I n → I { n with state.initialized := true }

/-- Nor do the cores and the steps of an upgrade. -/
structure Upgrading (I : Node → Prop) : Prop extends Working I where
  registry : ∀ n registry, I n → I { n with registry }
  assigned : ∀ n cpus, I n → I { n with state.assignedCpus := cpus }
  upgrade : ∀ n u, u.stateBackup = n.state.upgradeState.stateBackup → I n → I { n with state.upgradeState := u }

/-- Nor does the way back. -/
structure Reverting (I : Node → Prop) : Prop extends Upgrading I where
  restored : ∀ n backup, n.state.upgradeState.stateBackup = some backup → I n → I { n with state := swapBackup backup n.state }

structure Steady (I : Node → Prop) : Prop extends Placed I where
  state : ∀ n state, SameRevision n.state state → I n → I { n with state }

structure Live (I : Node → Prop) : Prop extends Steady I where
  registry : ∀ n registry, I n → I { n with registry }
  ready : ∀ n ready, n.ready ⊆ ready → I n → I { n with ready }
  told : ∀ n told, I n → I { n with told }
  marked : ∀ n, I n → I { n with state.restarting := true, unfinished := true }
  started : ∀ n, I n → I { n with state.restarting := false, unfinished := false }
  initialized : ∀ n, n.state.revision ∈ n.ready → I n → I { n with state.initialized := true }
  cleared : ∀ n, I n → I { n with state.upgradeState := default }
  upgraded : ∀ n desired, I n → I { n with state := swapBackup (.ofState desired) n.state }
  restored : ∀ n backup, n.state.upgradeState.stateBackup = some backup → I n → I { n with state := swapBackup backup n.state }

structure Robust (I : Node → Prop) : Prop extends Placed I where
  registry : ∀ n registry, I n → I { n with registry }
  ready : ∀ n ready, I n → I { n with ready }
  told : ∀ n told, I n → I { n with told }
  state : ∀ n state, SameNode n.state state → I n → I { n with state }
  marked : ∀ n, I n → I { n with state.restarting := true, unfinished := true }
  started : ∀ n, I n → I { n with state.restarting := false, unfinished := false }

theorem Robust.live {I : Node → Prop} (hI : Robust I) : Live I where
  toPlaced := hI.toPlaced
  registry := hI.registry
  ready := fun n ready _ h => hI.ready n ready h
  told := hI.told
  state := fun n state hsame h => hI.state n state hsame.toSameNode h
  marked := hI.marked
  started := hI.started
  initialized := fun n _ h => hI.state n _ ⟨rfl, rfl, rfl, rfl, rfl⟩ h
  cleared := fun n h => hI.state n _ ⟨rfl, rfl, rfl, rfl, rfl⟩ h
  upgraded := fun n _ h => hI.state n _ ⟨rfl, rfl, rfl, rfl, rfl⟩ h
  restored := fun n _ _ h => hI.state n _ ⟨rfl, rfl, rfl, rfl, rfl⟩ h

theorem Steady.framed {I : Node → Prop} (hI : Steady I) : Framed I where
  toPlaced := hI.toPlaced
  stopped := fun n h => hI.state n _ ⟨⟨rfl, rfl, rfl, rfl, rfl⟩, rfl, rfl, rfl⟩ h
  failed := fun n h => hI.state n _ ⟨⟨rfl, rfl, rfl, rfl, rfl⟩, rfl, rfl, rfl⟩ h

theorem Live.upgrading {I : Node → Prop} (hI : Live I) : Upgrading I where
  toFramed := hI.framed
  running := fun n h => hI.state n _ ⟨⟨rfl, rfl, rfl, rfl, rfl⟩, rfl, rfl, rfl⟩ h
  ready := hI.ready
  told := hI.told
  marked := hI.marked
  started := hI.started
  initialized := hI.initialized
  registry := hI.registry
  assigned := fun n _ h => hI.state n _ ⟨⟨rfl, rfl, rfl, rfl, rfl⟩, rfl, rfl, rfl⟩ h
  upgrade := fun n _ hbackup h => hI.state n _ ⟨⟨rfl, rfl, rfl, rfl, rfl⟩, rfl, rfl, hbackup⟩ h

theorem Live.reverting {I : Node → Prop} (hI : Live I) : Reverting I where
  toUpgrading := hI.upgrading
  restored := hI.restored

theorem Live.working {I : Node → Prop} (hI : Live I) : Working I := hI.upgrading.toWorking

section

variable {α : Type} {I : Node → Prop}

/-! ## What the site and the files do not matter to -/

theorem Placed.onSite {m : SiteM α} (hI : Placed I) : Keeps I I (onSite m) :=
  Keeps.zoom (R := fun _ _ => True) (fun _ => trivial) (fun n s _ h => hI.site n s h) fun _ h => h

theorem lift_keeps {m : NodeM α} (h : Keeps I I m) : Keeps I I (lift m) := h.mapError

theorem tolerate_keeps {m : NodeM Unit} (h : Keeps I I m) : Keeps I I (tolerate m) :=
  Keeps.bind h.attempt fun _ => Keeps.pure

theorem Placed.save (hI : Placed I) : Keeps I I saveState := by
  refine Keeps.of_run fun n h => ?_
  unfold saveState
  exact hI.saved n _ _ (SavedFile.carefulSave_after _ _ _ _) h

/-- A save that returns leaves the state on file. -/
theorem Placed.save_writes (hI : Placed I) : Triple I saveState (fun _ n => n.file.file = .whole n.state ∧ I n) (atExit I I) := by
  intro n h
  have hkeeps := hI.save n h
  revert hkeeps
  unfold saveState
  have hsaved := @SavedFile.carefulSave_saved _ n.file n.state n.site.dir.present (n.saves.headD .clean)
  revert hsaved
  cases n.file.carefulSave n.state n.site.dir.present (n.saves.headD .clean) with
  | mk file res =>
    intro hsaved hkeeps
    cases res with
    | ok a => exact ⟨hsaved rfl, hkeeps⟩
    | error e => exact hkeeps

theorem status_keeps (hI : Placed I) : Keeps I I status := by
  unfold status
  refine Keeps.bind (Keeps.bind hI.onSite fun machine => ?_) fun machineStatus => ?_
  · cases machine with
    | running => exact Keeps.pure
    | shutoff => exact Keeps.pure
    | invalid => exact Keeps.pure
  · refine Keeps.bind Keeps.gets fun n => Keeps.ite (Keeps.ite Keeps.pure Keeps.pure) Keeps.pure

theorem haltMachine_keeps (hI : Placed I) : Keeps I I haltMachine := by
  unfold haltMachine
  refine Keeps.bind hI.onSite.attempt fun res => ?_
  cases res with
  | ok a => exact Keeps.pure
  | error e => exact hI.onSite

theorem shutdownMachine_keeps (hI : Placed I) : Keeps I I shutdownMachine := by
  unfold shutdownMachine
  refine Keeps.bind hI.onSite fun _ => Keeps.ite Keeps.pure ?_
  refine Keeps.bind (haltMachine_keeps hI) fun _ => ?_
  exact Keeps.bind hI.onSite fun _ => Keeps.ite Keeps.pure Keeps.throw

theorem quitBabel_keeps (hI : Placed I) (force : Bool) : Keeps I I (quitBabel force) := by
  unfold quitBabel
  refine Keeps.bind hI.onSite.attempt fun res => ?_
  cases res with
  | ok a => exact Keeps.pure
  | error e => exact Keeps.ite Keeps.pure Keeps.throw

theorem command_keeps (hI : Placed I) {msg : String} {f : Cut → Node → Node} (hf : ∀ cut n, I n → I (f cut n)) :
    Keeps I I (command msg f) := by
  unfold command
  refine Keeps.bind hI.onSite fun fault => ?_
  cases fault with
  | none => exact Keeps.modify (hf .all)
  | error cut => exact Keeps.bind (Keeps.modify (hf cut)) fun _ => Keeps.throw
  | killed cut => exact Keeps.bind (Keeps.modify (hf cut)) fun _ => Keeps.kill fun _ h => h

theorem removeDir_keeps (hI : Placed I) (cut : Cut) {n : Node} (h : I n) : I (n.removeDir cut) := by
  cases cut with
  | nothing => exact h
  | part bits =>
    refine hI.saved _ _ n.saves (fun P hf _ => ⟨fun x hx => ?_, fun x hx => ?_⟩) (hI.site n _ h)
    · dsimp only at hx
      split at hx
      · cases hx
      · exact hf.file x hx
    · dsimp only at hx
      split at hx
      · cases hx
      · exact hf.backup x hx
  | all =>
    refine hI.saved _ _ n.saves (fun P _ _ => ⟨fun x hx => ?_, fun x hx => ?_⟩) (hI.site n _ h)
    · cases hx
    · cases hx

theorem removeNodeDir_keeps (hI : Placed I) (msg : String) : Keeps I I (removeNodeDir msg) :=
  Keeps.bind Keeps.gets fun _ => Keeps.when (command_keeps hI fun cut _ h => removeDir_keeps hI cut h)

theorem deleteMachine_keeps (hI : Placed I) : Keeps I I deleteMachine :=
  Keeps.bind (haltMachine_keeps hI) fun _ => removeNodeDir_keeps hI _

theorem applyFirewallConfig_keeps (hI : Placed I) : Keeps I I Node.applyFirewallConfig :=
  Keeps.bind Keeps.gets fun _ => hI.onSite

/-! ## Creating -/

theorem createVm_keeps (hI : Placed I) : Keeps I I createVm := by
  refine Keeps.bind Keeps.gets fun _ => Keeps.bind hI.onSite fun _ => Keeps.bind hI.onSite.attempt fun res => ?_
  cases res with
  | ok a => exact Keeps.pure
  | error e => exact Keeps.bind (deleteMachine_keeps hI) fun _ => Keeps.throw

theorem tryCreate_keeps (hI : Placed I) : Keeps I I tryCreate := by
  have hvm : Keeps I I tryCreateVm := by
    refine Keeps.bind (tolerate_keeps (removeNodeDir_keeps hI _)) fun _ => Keeps.bind (command_keeps hI ?_) fun _ => ?_
    · intro cut n h
      split
      · exact h
      · exact hI.site n _ h
    · exact createVm_keeps hI
  have hnode : Keeps I I tryCreateNode := by
    refine Keeps.bind (Keeps.modify fun n h => hI.site n _ h) fun _ => Keeps.bind (applyFirewallConfig_keeps hI) fun _ => ?_
    refine Keeps.bind hI.save fun _ => Keeps.bind Keeps.gets fun _ => Keeps.bind hI.onSite fun _ => ?_
    exact Keeps.modify fun n h => hI.site n _ h
  refine Keeps.bind hvm.attempt fun res => ?_
  cases res with
  | error e => exact Keeps.pure
  | ok a => exact Keeps.bind hnode.attempt fun _ => Keeps.pure

/-- A node created is the one desired, with cores of its own. -/
theorem create_creates (desired : NodeState) :
    Triple (fun _ => True) (create desired) (fun _ n => ∃ cpus, n.state = { desired with assignedCpus := cpus })
      fun _ _ => True := by
  unfold create
  refine Triple.bind Triple.any fun cpus => ?_
  refine Triple.bind (R := fun _ n => n.state = { desired with assignedCpus := cpus }) (Triple.modify fun _ _ => rfl)
    fun _ => Triple.bind (R := fun _ n => n.state = { desired with assignedCpus := cpus }) ?_ fun res => ?_
  · exact (tryCreate_keeps { site := fun _ _ h => h, saved := fun _ _ _ _ h => h }).exit fun _ _ _ => trivial
  · obtain ⟨machine, res⟩ := res
    cases res with
    | ok a => exact Triple.pure fun _ h => ⟨cpus, h⟩
    | error err => exact Triple.bind Triple.any fun _ => Triple.bind Triple.any fun _ => Triple.throw fun _ _ => trivial

/-! ## Stopping -/

theorem saveExpectedStatus_keeps (hI : Placed I) {status : VmStatus}
    (hexpected : ∀ n, I n → I { n with state.expectedStatus := status }) : Keeps I I (saveExpectedStatus status) :=
  Keeps.bind (Keeps.modify hexpected) fun _ => hI.save

/-- What holds once the node is expected to be stopped holds after a stop. -/
theorem stop_enters {P : Node → Prop} (hI : Framed I) (hset : ∀ n, P n → I { n with state.expectedStatus := .stopped })
    (force : Bool) : Triple P (stop force) (fun _ => I) (atExit I I) := by
  unfold stop saveExpectedStatus
  refine Triple.bind (R := fun _ => I) (Triple.bind (R := fun _ => I) (Triple.modify hset) fun _ => ?_) fun _ => ?_
  · exact hI.save
  · refine Keeps.bind (status_keeps hI.toPlaced) fun status => Keeps.ite Keeps.pure ?_
    refine Keeps.bind (quitBabel_keeps hI.toPlaced force) fun _ => Keeps.bind hI.onSite fun _ => ?_
    refine Keeps.bind hI.save fun _ => Keeps.bind (shutdownMachine_keeps hI.toPlaced) fun _ => ?_
    exact hI.onSite

theorem stop_keeps (hI : Framed I) (force : Bool) : Keeps I I (stop force) := stop_enters hI hI.stopped force

/-! ## What an operation can do at all -/

theorem modifyState_keeps (hI : Steady I) {f : NodeState → NodeState} (hf : ∀ st, SameRevision st (f st)) :
    Keeps I I (modifyState f) :=
  Keeps.modify fun n h => hI.state n _ (hf _) h

theorem modifyUpgrade_keeps (hI : Upgrading I) {f : UpgradeState → UpgradeState}
    (hf : ∀ u, (f u).stateBackup = u.stateBackup) : Keeps I I (modifyUpgrade f) :=
  Keeps.modify fun n h => hI.upgrade n _ (hf _) h

theorem assignedCpus_keeps (hI : Upgrading I) (f : NodeState → List Nat) :
    Keeps I I (modifyState fun st => { st with assignedCpus := f st }) :=
  Keeps.modify fun n h => hI.assigned n _ h

theorem release_keeps (hI : Upgrading I) (cpus : List Nat) : Keeps I I (release cpus) :=
  Keeps.modify fun n h => hI.registry n _ h

theorem acquire_keeps (hI : Upgrading I) (count : Nat) : Keeps I I (acquire count) := by
  refine Keeps.of_run fun n h => ?_
  unfold acquire
  split
  · exact hI.registry n _ h
  · exact h

theorem tellMachine_keeps (hI : Working I) (m : SiteM Unit) : Keeps I I (tellMachine m) :=
  Keeps.bind (Keeps.modify fun n h => hI.told n _ h) fun _ => hI.onSite

theorem initPlugin_keeps (hI : Working I) : Keeps I I initPlugin := by
  refine Keeps.bind hI.onSite fun _ => ?_
  refine Triple.bind (R := fun _ n => n.state.revision ∈ n.ready ∧ I n) (Triple.modify fun n h => ?_) fun _ => ?_
  · exact ⟨List.mem_cons_self .., hI.ready n _ (List.subset_cons_self ..) h⟩
  · exact Triple.modify fun n h => hI.initialized n h.1 h.2

theorem startStopped_keeps (hI : Working I) : Keeps I I startStopped := by
  unfold startStopped
  refine Keeps.bind hI.onSite fun _ => Keeps.bind hI.onSite fun _ => ?_
  refine Keeps.bind (Keeps.when (tellMachine_keeps hI _)) fun _ => Keeps.bind hI.onSite fun _ => ?_
  refine Keeps.bind hI.onSite fun _ => Keeps.bind hI.onSite fun _ => Keeps.bind Keeps.gets fun _ => ?_
  refine Keeps.bind (Keeps.when (initPlugin_keeps hI)) fun _ => ?_
  exact Keeps.bind (Keeps.modify hI.started) fun _ => hI.save

theorem start_keeps (hI : Working I) : Keeps I I start := by
  unfold start
  refine Keeps.bind (status_keeps hI.toPlaced) fun _ => Keeps.bind Keeps.gets fun _ => Keeps.ite Keeps.throw ?_
  exact Keeps.bind (saveExpectedStatus_keeps hI.toPlaced hI.running) fun _ => Keeps.ite Keeps.pure (startStopped_keeps hI)

theorem restart_keeps (hI : Working I) (force : Bool) : Keeps I I (restart force) := by
  refine Keeps.bind (Keeps.modify hI.marked) fun _ => ?_
  exact Keeps.bind (stop_keeps hI.toFramed force) fun _ => start_keeps hI

theorem releaseAssigned_keeps (hI : Upgrading I) : Keeps I I releaseAssigned := by
  refine Keeps.bind Keeps.gets fun _ => Keeps.bind (release_keeps hI _) fun _ => ?_
  exact assignedCpus_keeps hI _

theorem delete_keeps (hI : Upgrading I) : Keeps I I delete := by
  refine Keeps.bind (saveExpectedStatus_keeps hI.toPlaced hI.stopped) fun _ => Keeps.bind hI.onSite fun _ => ?_
  refine Keeps.bind (deleteMachine_keeps hI.toPlaced) fun _ => ?_
  refine Keeps.bind (releaseAssigned_keeps hI) fun _ => Keeps.bind hI.onSite fun _ => ?_
  exact removeNodeDir_keeps hI.toPlaced _

theorem create_keeps (hI : Live I) {desired : NodeState}
    (hnew : ∀ n cpus, I n → I { n with state := { desired with assignedCpus := cpus } }) : Keeps I I (create desired) := by
  unfold create
  refine Keeps.bind (acquire_keeps hI.upgrading _) fun cpus => Keeps.bind (Keeps.modify fun n h => hnew n cpus h) fun _ => ?_
  refine Keeps.bind (tryCreate_keeps hI.toPlaced) fun res => ?_
  obtain ⟨machine, res⟩ := res
  cases res with
  | ok a => exact Keeps.pure
  | error err =>
    refine Keeps.bind (releaseAssigned_keeps hI.upgrading) fun _ => Keeps.bind (tolerate_keeps ?_) fun _ => Keeps.throw
    exact Keeps.bind (Keeps.when (deleteMachine_keeps hI.toPlaced)) fun _ => hI.onSite

theorem connect_keeps (hI : Placed I) : Keeps I I connect := by
  refine Keeps.bind hI.onSite fun _ => Keeps.when (Keeps.bind hI.onSite.attempt fun res => ?_)
  cases res with
  | ok a => exact Keeps.pure
  | error e => exact hI.onSite

theorem attach_keeps (hI : Upgrading I) : Keeps I I attach := by
  unfold attach
  refine Keeps.bind (Keeps.modify fun n h => hI.site n _ h) fun _ => Keeps.bind Keeps.gets fun st => ?_
  refine Keeps.bind (Keeps.modify fun n h => hI.registry n _ h) fun _ => Keeps.bind hI.onSite fun _ => ?_
  refine Keeps.bind hI.onSite fun _ => Keeps.bind (Keeps.modify fun n h => hI.site n _ h) fun _ => ?_
  refine Keeps.bind (connect_keeps hI.toPlaced) fun _ => Keeps.bind Keeps.gets fun _ => Keeps.bind hI.onSite fun _ => ?_
  exact Keeps.when (tolerate_keeps hI.onSite)

/-! ## Updating -/

theorem updateNodeEnv_keeps (hI : Placed I) : Keeps I I Node.updateNodeEnv :=
  Keeps.bind Keeps.gets fun _ => Keeps.bind hI.onSite fun _ => Keeps.modify fun n h => hI.site n _ h

theorem updateEngine_keeps (hI : Placed I) : Keeps I I updateEngine :=
  Keeps.bind Keeps.gets fun _ => Keeps.bind hI.onSite fun _ => hI.onSite

theorem checkBlockingJob_keeps (hI : Placed I) (status : VmStatus) : Keeps I I (checkBlockingJob status) :=
  Keeps.ite (Keeps.bind (lift_keeps hI.onSite) fun _ => Keeps.when Keeps.throw) Keeps.pure

theorem updateFirewall_keeps (hI : Steady I) (config : Firewall.Config) : Keeps I I (updateFirewall config) := by
  refine Keeps.bind (modifyState_keeps hI fun _ => ⟨⟨rfl, rfl, rfl, rfl, rfl⟩, rfl, rfl, rfl⟩) fun _ => ?_
  refine Keeps.bind (applyFirewallConfig_keeps hI.toPlaced).attempt fun res => ?_
  cases res with
  | ok a => exact hI.save
  | error e => exact Keeps.bind (saveExpectedStatus_keeps hI.toPlaced hI.framed.failed) fun _ => Keeps.throw

theorem applyToRunning_keeps (hI : Live I) (before : Nat) : Keeps I I (applyToRunning before) := by
  refine Keeps.bind hI.onSite fun _ => Keeps.bind hI.onSite fun _ => Keeps.modify fun n h => hI.ready n _ ?_ h
  split
  · exact List.subset_cons_self ..
  · exact List.Subset.refl _

theorem updateParams_keeps (hI : Robust I) (status : VmStatus) (before : Nat) : Keeps I I (updateParams status before) := by
  refine Keeps.bind (updateEngine_keeps hI.toPlaced) fun _ => ?_
  refine Keeps.bind (Keeps.when (applyToRunning_keeps hI.live before)) fun _ => ?_
  exact Keeps.bind (Keeps.modify fun n h => hI.state n _ ⟨rfl, rfl, rfl, rfl, rfl⟩ h) fun _ => hI.save

theorem update_keeps (hI : Robust I) (u : ConfigUpdate) : Keeps I I (update u) := by
  unfold update
  refine Keeps.bind (lift_keeps (status_keeps hI.toPlaced)) fun status => Keeps.ite Keeps.throw ?_
  refine Keeps.bind Keeps.gets fun before => Keeps.bind (Keeps.when ?_) fun _ => lift_keeps ?_
  · refine Keeps.bind (checkBlockingJob_keeps hI.toPlaced status) fun _ => Keeps.bind (lift_keeps hI.onSite) fun _ => ?_
    exact lift_keeps (Keeps.modify fun n h => hI.state n _ ⟨rfl, rfl, rfl, rfl, rfl⟩ h)
  · refine Keeps.bind (Keeps.modify fun n h => hI.state n _ ⟨rfl, rfl, rfl, rfl, rfl⟩ h) fun _ => ?_
    have hrest : Keeps I I (do
        Node.updateNodeEnv
        Effect.when (u.newValues.isEmpty = false) (updateParams status before)) :=
      Keeps.bind (updateNodeEnv_keeps hI.toPlaced) fun _ => Keeps.when (updateParams_keeps hI status before)
    cases u.newFirewall with
    | some config => exact Keeps.bind (updateFirewall_keeps hI.live.toSteady config) fun _ => hrest
    | none => exact Keeps.bind hI.save fun _ => hrest

/-! ## Upgrading -/

theorem assignCpus_keeps (hI : Upgrading I) : Keeps I I assignCpus := by
  unfold assignCpus
  refine Keeps.bind Keeps.gets fun st => Keeps.ite Keeps.pure (Keeps.ite ?_ ?_)
  · refine Keeps.bind (modifyUpgrade_keeps hI fun _ => rfl) fun _ => ?_
    exact Keeps.bind (assignedCpus_keeps hI _) fun _ => hI.save
  · refine Keeps.bind (modifyUpgrade_keeps hI fun _ => rfl) fun _ => Keeps.bind (acquire_keeps hI _) fun _ => ?_
    exact Keeps.bind (assignedCpus_keeps hI _) fun _ => hI.save

theorem insertStep_stateBackup (u : UpgradeState) (step : UpgradeStep) : (u.insertStep step).2.stateBackup = u.stateBackup := by
  unfold UpgradeState.insertStep
  split <;> rfl

theorem upgradeStep_keeps (hI : Upgrading I) (step : UpgradeStep) {m : NodeM (Except String Unit)} (hm : Keeps I I m) :
    Keeps I I (upgradeStep step m) := by
  refine Triple.bind Triple.gets fun inserted => ?_
  refine Triple.bind (R := fun _ => I) (Triple.modify fun n h => ?_) fun _ => Keeps.when ?_
  · obtain ⟨rfl, hn⟩ := h
    exact hI.upgrade n _ (insertStep_stateBackup _ step) hn
  · exact Keeps.bind hm fun _ => Keeps.bind hI.save fun _ => Keeps.ofExcept

theorem adoptNodeInfo_keeps (hI : Placed I) : Keeps I I adoptNodeInfo := by
  refine Keeps.bind (Keeps.modify fun n h => hI.site n _ h) fun _ => Keeps.bind Keeps.gets fun _ => hI.onSite

theorem adoptPlugin_keeps (hI : Placed I) : Keeps I I adoptPlugin := Keeps.bind Keeps.gets fun _ => hI.onSite

theorem replaceFirewall_keeps (hI : Placed I) : Keeps I I replaceFirewall := (applyFirewallConfig_keeps hI).mapError

theorem startAgain_keeps (hI : Working I) : Keeps I I startAgain :=
  Keeps.bind Keeps.gets fun _ => Keeps.when (start_keeps hI)

theorem tryUpgrade_keeps (hI : Upgrading I) : Keeps I I tryUpgrade := by
  refine Keeps.bind (assignCpus_keeps hI) fun _ => ?_
  refine Keeps.bind (upgradeStep_keeps hI _ (Keeps.bind Keeps.gets fun _ => hI.onSite.attempt)) fun _ => ?_
  refine Keeps.bind (upgradeStep_keeps hI _ ?_) fun _ => ?_
  · exact Keeps.bind (adoptNodeInfo_keeps hI.toPlaced) fun _ => (adoptPlugin_keeps hI.toPlaced).attempt
  · exact Keeps.bind (upgradeStep_keeps hI _ (replaceFirewall_keeps hI.toPlaced).attempt) fun _ => startAgain_keeps hI.toWorking

theorem rollbackStep_keeps (hI : Upgrading I) (step : UpgradeStep) {m : NodeM Unit} (hm : Keeps I I m) :
    Keeps I I (rollbackStep step m) := by
  refine Keeps.bind Keeps.gets fun _ => Keeps.when (Keeps.bind hm fun _ => ?_)
  exact Keeps.bind (modifyUpgrade_keeps hI fun _ => rfl) fun _ => hI.save

theorem rollbackCpus_keeps (hI : Upgrading I) : Keeps I I rollbackCpus := by
  unfold rollbackCpus
  refine Keeps.bind Keeps.gets fun steps => ?_
  cases steps.find? (·.isCpuAssignment) with
  | none => exact Keeps.pure
  | some step =>
    refine Keeps.bind (modifyUpgrade_keeps hI fun _ => rfl) fun _ => Keeps.bind Keeps.gets fun st => ?_
    split
    · exact Keeps.bind (release_keeps hI _) fun _ => Keeps.bind (assignedCpus_keeps hI _) fun _ => hI.save
    · exact Keeps.bind (assignedCpus_keeps hI _) fun _ => hI.save
    · exact hI.save

theorem tryRollback_keeps (hI : Upgrading I) : Keeps I I tryRollback := by
  refine Keeps.bind (status_keeps hI.toPlaced) fun _ => Keeps.bind (Keeps.when (stop_keeps hI.toFramed true)) fun _ => ?_
  refine Keeps.bind (rollbackCpus_keeps hI) fun _ => Keeps.bind (rollbackStep_keeps hI _ hI.onSite) fun _ => ?_
  refine Keeps.bind (rollbackStep_keeps hI _ ?_) fun _ => ?_
  · exact Keeps.bind (adoptNodeInfo_keeps hI.toPlaced) fun _ => adoptPlugin_keeps hI.toPlaced
  · exact Keeps.bind (rollbackStep_keeps hI _ (replaceFirewall_keeps hI.toPlaced)) fun _ => startAgain_keeps hI.toWorking

theorem rollback_keeps (hI : Upgrading I) (err : String) : Keeps I I (rollback err) := by
  refine Keeps.bind (lift_keeps (tryRollback_keeps hI).attempt) fun res => ?_
  have hinactive : Keeps I I (lift (modifyUpgrade fun u => { u with active := false })) :=
    lift_keeps (modifyUpgrade_keeps hI fun _ => rfl)
  cases res with
  | ok a => exact Keeps.bind hinactive fun _ => Keeps.bind (lift_keeps hI.save) fun _ => Keeps.throw
  | error e => exact Keeps.bind hinactive fun _ => Keeps.bind (lift_keeps (saveExpectedStatus_keeps hI.toPlaced hI.failed)) fun _ => Keeps.throw

/-- What holds once the last upgrade is cleared away, and stands what is taken over from the desired state,
holds when an upgrade begins. -/
theorem beginUpgrade_enters {P : Node → Prop} (hI : Upgrading I) {desired : NodeState}
    (hcleared : ∀ n, P n → I { n with state.upgradeState := default })
    (hupgraded : ∀ n revision, I n → I { n with state := swapBackup (.ofState { desired with revision }) n.state })
    (status : VmStatus) : Triple P (beginUpgrade status desired) (fun _ => I) (atExit I I) := by
  have hupdate : ∀ f : UpgradeState → UpgradeState, (∀ u, (f u).stateBackup = u.stateBackup) → Keeps I I (modifyUpgrade f) :=
    fun f hf => modifyUpgrade_keeps hI hf
  unfold beginUpgrade
  refine Triple.bind (R := fun _ => I) (Triple.mapError (Triple.modify hcleared)) fun _ => ?_
  refine Keeps.bind (checkBlockingJob_keeps hI.toPlaced status) fun _ => lift_keeps ?_
  refine Keeps.bind (Keeps.when ?_) fun _ => ?_
  · refine Keeps.bind (hupdate _ fun _ => rfl) fun _ => Keeps.bind (Keeps.modify hI.marked) fun _ => ?_
    exact stop_keeps hI.toFramed false
  · refine Keeps.bind (hupdate _ fun _ => rfl) fun _ => Keeps.bind hI.onSite fun _ => ?_
    refine Keeps.bind (hupdate _ fun _ => rfl) fun _ => Keeps.bind hI.onSite fun revision => ?_
    exact Keeps.bind (Keeps.modify fun n h => hupgraded n revision h) fun _ => hI.save

/-- The state that is brought back is the one the upgrade state has by then. -/
theorem revertUpgrade_keeps (hI : Reverting I) (err : String) : Keeps I I (revertUpgrade err) := by
  refine Keeps.bind (lift_keeps hI.onSite) fun stamp => Triple.bind Triple.gets fun u => ?_
  split
  · exact Triple.throw fun n h => h.2
  · cases hbackup : u.stateBackup with
    | none => exact Triple.throw fun n h => h.2
    | some backup =>
      have hrest : Keeps I I (do
          modifyUpgrade fun u => { u with needRollback := some err }
          saveState) := Keeps.bind (modifyUpgrade_keeps hI.toUpgrading fun _ => rfl) fun _ => hI.save
      refine Triple.bind (R := fun _ => I) (Triple.mapError ?_) fun _ => rollback_keeps hI.toUpgrading err
      refine Triple.bind (R := fun _ => I) (Triple.modify fun n h => ?_) fun _ => hrest.exit fun e n h => ?_
      · obtain ⟨rfl, hn⟩ := h
        exact hI.restored n backup hbackup hn
      · cases e <;> exact h

theorem finishUpgrade_keeps (hI : Upgrading I) : Keeps I I finishUpgrade := by
  refine Keeps.bind Keeps.gets fun _ => Keeps.bind (release_keeps hI _) fun _ => ?_
  refine Keeps.bind (Keeps.when (tolerate_keeps hI.onSite)) fun _ => ?_
  exact Keeps.bind (modifyUpgrade_keeps hI fun _ => rfl) fun _ => hI.save

/-- What is left of an upgrade once it has begun. -/
theorem resumeUpgrade_keeps (hI : Reverting I) : Keeps I I (do
    match ← gets (·.state.upgradeState.needRollback) with
    | some err => rollback err
    | none =>
      match ← lift (attempt tryUpgrade) with
      | .error err => revertUpgrade err
      | .ok () => lift finishUpgrade) := by
  refine Keeps.bind Keeps.gets fun needRollback => ?_
  cases needRollback with
  | some err => exact rollback_keeps hI.toUpgrading err
  | none =>
    refine Keeps.bind (lift_keeps (tryUpgrade_keeps hI.toUpgrading).attempt) fun res => ?_
    cases res with
    | ok a => exact lift_keeps (finishUpgrade_keeps hI.toUpgrading)
    | error err => exact revertUpgrade_keeps hI err

theorem upgrade_keeps (hI : Live I) (desired : NodeState) : Keeps I I (upgrade desired) := by
  have hbegin : ∀ status, Keeps I I (beginUpgrade status desired) := fun status =>
    beginUpgrade_enters hI.upgrading (fun n h => hI.cleared n h) (fun n _ h => hI.upgraded n _ h) status
  unfold upgrade
  refine Keeps.bind (lift_keeps (status_keeps hI.toPlaced)) fun status => Keeps.ite Keeps.throw ?_
  refine Keeps.bind Keeps.gets fun _ => Keeps.bind (Keeps.when (hbegin status)) fun _ => ?_
  exact resumeUpgrade_keeps hI.reverting

/-! ## Recovering -/

theorem reloadPlugin_keeps (hI : Working I) : Keeps I I reloadPlugin :=
  Keeps.bind (updateEngine_keeps hI.toPlaced) fun _ => hI.onSite

theorem giveUp_keeps (hI : Framed I) (tries : SiteM Bool) : Keeps I I (giveUp tries) :=
  Keeps.bind hI.onSite fun _ => Keeps.when (saveExpectedStatus_keeps hI.toPlaced hI.failed)

/-- A try to recover, and what follows it. -/
theorem tried_keeps (hI : Working I) {m : NodeM Unit} {tries : SiteM Bool} (hm : Keeps I I m) :
    Keeps I I (do
      match ← attempt m with
      | .error _ => giveUp tries
      | .ok () => postRecovery) := by
  refine Keeps.bind hm.attempt fun res => ?_
  cases res with
  | ok a => exact hI.onSite
  | error e => exact giveUp_keeps hI.toFramed tries

theorem startedNodeRecovery_keeps (hI : Working I) : Keeps I I startedNodeRecovery := tried_keeps hI (start_keeps hI)

theorem recoverByRestart_keeps (hI : Working I) : Keeps I I recoverByRestart := tried_keeps hI (restart_keeps hI true)

/-- A try to recover the machine; the node is restarted once these tries are used up. -/
theorem told_keeps (hI : Working I) {m : SiteM Unit} {tries : SiteM Bool} :
    Keeps I I (do
      match ← attempt (tellMachine m) with
      | .ok () => postRecovery
      | .error _ => do
        let exceeded ← onSite tries
        Effect.when exceeded recoverByRestart) := by
  refine Keeps.bind (tellMachine_keeps hI m).attempt fun res => ?_
  cases res with
  | ok a => exact hI.onSite
  | error e => exact Keeps.bind hI.onSite fun _ => Keeps.when (recoverByRestart_keeps hI)

theorem recoverRunning_keeps (hI : Working I) : Keeps I I recoverRunning := by
  refine Keeps.bind hI.onSite fun _ => Keeps.bind Keeps.gets fun _ => Keeps.ite (startedNodeRecovery_keeps hI) ?_
  refine Keeps.ite (told_keeps hI) (Keeps.bind hI.onSite.attempt fun res => ?_)
  cases res with
  | ok a => exact Keeps.bind Keeps.gets fun _ => Keeps.ite (startedNodeRecovery_keeps hI) hI.onSite
  | error e => exact told_keeps hI

theorem recoverStopped_keeps (hI : Working I) : Keeps I I recoverStopped := by
  refine Keeps.bind Keeps.gets fun connection => Keeps.bind (stop_keeps hI.toFramed _).attempt fun res => ?_
  cases res with
  | ok a => exact Keeps.bind hI.onSite fun _ => Keeps.bind Keeps.gets fun _ => Keeps.when (start_keeps hI)
  | error e => exact giveUp_keeps hI.toFramed _

theorem recover_keeps (hI : Working I) : Keeps I I recover := by
  refine Keeps.bind hI.onSite fun _ => Keeps.ite Keeps.pure (Keeps.bind Keeps.gets fun expected => ?_)
  cases expected with
  | running => exact recoverRunning_keeps hI
  | stopped => exact recoverStopped_keeps hI
  | failed => exact Keeps.pure
  | busy => exact Keeps.throw

/-! ## Calls -/

theorem managerStart_keeps (hI : Working I) (reload : Bool) : Keeps I I (NodesManager.start reload) := by
  unfold NodesManager.start
  refine Keeps.bind (Keeps.when (reloadPlugin_keeps hI).mapError) fun _ => Keeps.bind Keeps.gets fun _ => ?_
  exact Keeps.when (Keeps.bind (lift_keeps (start_keeps hI)) fun _ => Keeps.when (lift_keeps hI.onSite))

theorem managerUpgrade_keeps (hI : Live I) (desired : NodeState) (version requirements : Except CommandError Unit) :
    Keeps I I (NodesManager.upgrade desired version requirements) := by
  unfold NodesManager.upgrade
  refine Keeps.bind Keeps.ofExcept fun _ => Keeps.bind Keeps.gets fun node => Keeps.when ?_
  refine Keeps.bind Keeps.ofExcept fun desired => Keeps.bind (Keeps.when Keeps.ofExcept) fun _ => ?_
  exact upgrade_keeps hI desired

theorem managerRecover_keeps (hI : Working I) : Keeps I I NodesManager.recover :=
  Keeps.bind (status_keeps hI.toPlaced) fun _ => Keeps.bind Keeps.gets fun _ =>
    Keeps.when (tolerate_keeps (recover_keeps hI))

end

end Node

end Blockvisor
