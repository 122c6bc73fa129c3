/-
What an upgrade that is rolled back leaves of its node. The upgrade swaps the
state with a backup, and a failed try swaps them again; either swap may be
saved, or lost with the daemon, and the try may be made again any number of
times before the rollback.

`GoesBack` says of a state in the middle of an upgrade how it leads back to the
state before. Every operation keeps it (`leadsBack_step`), on file as well as in
memory; so an upgrade that ends with "rolled back" ends in the state that it
was begun in (`upgrade_rolled_back`).
-/
import Blockvisor.Bv.UpgradeRecord

namespace Blockvisor

open Effect Machine

/-! ## The way back -/

/-- How a state with an upgrade under way leads back to `orig`. -/
inductive NodeState.GoesBack (st orig : NodeState) : Prop where
  /-- The fields of `orig` are in the backup, once there is one. -/
  | forward (needRollback : st.upgradeState.needRollback = none)
      (backup : ∀ b, st.upgradeState.stateBackup = some b → { b with initialized := false } = StateBackup.ofState orig)
      (cores : CoresPending orig.assignedCpus st.vmConfig.vcpuCount st.upgradeState.cpuSteps st.assignedCpus)
  /-- They are in the state again. -/
  | back (needRollback : st.upgradeState.needRollback.isSome = true)
      (fields : StateBackup.ofState st = StateBackup.ofState orig)
      (cores : CoresRecorded orig.assignedCpus st.upgradeState.cpuSteps st.assignedCpus)

/-- If an upgrade is under way, it leads back to `orig`. -/
def NodeState.LeadsBack (st orig : NodeState) : Prop := st.upgradeState.active = true → st.GoesBack orig

theorem NodeState.GoesBack.congr {orig st st' : NodeState} (h : st.GoesBack orig) (hrecord : st'.upgradeState = st.upgradeState)
    (hcpus : st'.assignedCpus = st.assignedCpus) (hfields : StateBackup.ofState st' = StateBackup.ofState st) :
    st'.GoesBack orig := by
  have hvm : st'.vmConfig = st.vmConfig := congrArg StateBackup.vmConfig hfields
  cases h with
  | forward hnone hbackup hcores => exact .forward (hrecord ▸ hnone) (hrecord ▸ hbackup) (hrecord ▸ hvm ▸ hcpus ▸ hcores)
  | back hsome hback hcores => exact .back (hrecord ▸ hsome) (hfields.trans hback) (hrecord ▸ hcpus ▸ hcores)

theorem NodeState.GoesBack.same {orig st st' : NodeState} (h : st.GoesBack orig) (hforward : st.upgradeState.needRollback = none)
    (hsame : Node.SameRecord st st') : st'.GoesBack orig := by
  cases h with
  | forward hnone hbackup hcores =>
    refine .forward ?_ ?_ ?_
    · rw [hsame.upgradeState]
      exact hnone
    · rw [hsame.upgradeState]
      exact hbackup
    · rw [hsame.upgradeState, hsame.vmConfig, hsame.assignedCpus]
      exact hcores
  | back hsome _ _ =>
    rw [hforward] at hsome
    cases hsome

namespace Node

/-- What is on file leads back to `orig`. -/
def OnFile (orig : NodeState) (n : Node) : Prop := n.file.Holds fun st => st.LeadsBack orig

/-- And so does the state in memory. -/
structure LeadsBack (n : Node) (orig : NodeState) : Prop where
  memory : n.state.LeadsBack orig
  file : n.OnFile orig

/-- An upgrade is on its way, and was not found to fail. -/
structure Forward (orig : NodeState) (n : Node) : Prop where
  active : n.state.upgradeState.active = true
  needRollback : n.state.upgradeState.needRollback = none
  goesBack : n.state.GoesBack orig
  file : n.OnFile orig

/-- A condition on what is on record, the cores and the fields that an upgrade replaces. -/
structure Stays (P : UpgradeState → List Nat → StateBackup → Prop) (orig : NodeState) (n : Node) : Prop where
  state : P n.state.upgradeState n.state.assignedCpus (StateBackup.ofState n.state)
  file : n.OnFile orig

/-- Before an upgrade is on record. -/
structure Begins (orig : NodeState) (u : UpgradeState) (cpus : List Nat) (fields : StateBackup) : Prop where
  needRollback : u.needRollback = none
  backup : u.stateBackup = none
  steps : u.cpuSteps = []
  cores : cpus = orig.assignedCpus
  fields : fields = StateBackup.ofState orig

/-- The upgrade counts as under way, and nothing else of it is on record. -/
structure Begun (orig : NodeState) (u : UpgradeState) (cpus : List Nat) (fields : StateBackup) : Prop
    extends Begins orig u cpus fields where
  active : u.active = true

/-- A rollback is under way. -/
structure Returns (orig : NodeState) (u : UpgradeState) (cpus : List Nat) (fields : StateBackup) : Prop where
  needRollback : u.needRollback.isSome = true
  cores : CoresRecorded orig.assignedCpus u.cpuSteps cpus
  fields : fields = StateBackup.ofState orig

/-- The cores are back. -/
structure Returned (orig : NodeState) (u : UpgradeState) (cpus : List Nat) (fields : StateBackup) : Prop
    extends Returns orig u cpus fields where
  same : cpus = orig.assignedCpus

/-- The state is the one before the upgrade, as far as an upgrade changes it. -/
structure Unaltered (orig st : NodeState) : Prop where
  fields : StateBackup.ofState st = StateBackup.ofState orig
  cores : st.assignedCpus = orig.assignedCpus

/-- The upgrade is over; the state meets a condition. -/
structure Over (P : NodeState → Prop) (orig : NodeState) (n : Node) : Prop where
  inactive : n.state.upgradeState.active = false
  state : P n.state
  file : n.OnFile orig

/-- What a rollback leaves: the state before the upgrade, saved, with no upgrade under way. -/
structure RolledBack (n : Node) (orig : NodeState) : Prop extends Unaltered orig n.state where
  inactive : n.state.upgradeState.active = false
  saved : n.file.file = .whole n.state

variable {orig : NodeState}

theorem forward_lasting : Lasting (Forward orig) where
  site := fun _ _ h => ⟨h.active, h.needRollback, h.goesBack, h.file⟩
  saved := fun _ _ _ hafter h => ⟨h.active, h.needRollback, h.goesBack, hafter _ h.file fun _ => h.goesBack⟩
  state := fun n st hsame h =>
    { active := by
        show st.upgradeState.active = true
        rw [hsame.upgradeState]
        exact h.active
      needRollback := by
        show st.upgradeState.needRollback = none
        rw [hsame.upgradeState]
        exact h.needRollback
      goesBack := h.goesBack.same h.needRollback hsame
      file := h.file }
  ready := fun _ _ h => ⟨h.active, h.needRollback, h.goesBack, h.file⟩
  told := fun _ _ h => ⟨h.active, h.needRollback, h.goesBack, h.file⟩
  unfinished := fun _ _ h => ⟨h.active, h.needRollback, h.goesBack, h.file⟩

theorem stays_working {P : UpgradeState → List Nat → StateBackup → Prop}
    (hleads : ∀ st, P st.upgradeState st.assignedCpus (StateBackup.ofState st) → st.LeadsBack orig) : Working (Stays P orig) where
  site := fun _ _ h => ⟨h.state, h.file⟩
  saved := fun n _ _ hafter h => ⟨h.state, hafter _ h.file (hleads n.state h.state)⟩
  stopped := fun _ h => ⟨h.state, h.file⟩
  failed := fun _ h => ⟨h.state, h.file⟩
  running := fun _ h => ⟨h.state, h.file⟩
  ready := fun _ _ _ h => ⟨h.state, h.file⟩
  told := fun _ _ h => ⟨h.state, h.file⟩
  marked := fun _ h => ⟨h.state, h.file⟩
  started := fun _ h => ⟨h.state, h.file⟩
  initialized := fun _ _ h => ⟨h.state, h.file⟩

theorem Begins.leadsBack {st : NodeState} (h : Begins orig st.upgradeState st.assignedCpus (StateBackup.ofState st)) :
    st.LeadsBack orig := by
  intro _
  refine .forward h.needRollback (fun b hb => ?_) ?_
  · rw [h.backup] at hb
    cases hb
  · rw [h.steps, h.cores]
    exact .unchanged

theorem Returns.leadsBack {st : NodeState} (h : Returns orig st.upgradeState st.assignedCpus (StateBackup.ofState st)) :
    st.LeadsBack orig :=
  fun _ => .back h.needRollback h.fields h.cores

theorem begins_working : Working (Stays (Begins orig) orig) := stays_working fun _ h => h.leadsBack

theorem begun_working : Working (Stays (Begun orig) orig) := stays_working fun _ h => h.toBegins.leadsBack

theorem returns_working : Working (Stays (Returns orig) orig) := stays_working fun _ h => h.leadsBack

theorem returned_working : Working (Stays (Returned orig) orig) := stays_working fun _ h => h.toReturns.leadsBack

theorem Forward.leadsBack {n : Node} (h : n.Forward orig) : n.LeadsBack orig := ⟨fun _ => h.goesBack, h.file⟩

theorem Stays.leadsBack {n : Node} {P : UpgradeState → List Nat → StateBackup → Prop} (h : n.Stays P orig)
    (hleads : ∀ st, P st.upgradeState st.assignedCpus (StateBackup.ofState st) → st.LeadsBack orig) : n.LeadsBack orig :=
  ⟨hleads n.state h.state, h.file⟩

/-- What leads back at every exit does so whatever the exit. -/
theorem atExit_leads {I : Node → Prop} (h : ∀ n, I n → n.LeadsBack orig) (e : Exit String) (n : Node) (hn : atExit I I e n) :
    atExit (LeadsBack · orig) (LeadsBack · orig) e n := by
  cases e with
  | error e => exact h n hn
  | killed => exact h n hn

theorem Begins.stays {n : Node} (h : n.Stays (Begins orig) orig) : n.LeadsBack orig := h.leadsBack fun _ hst => hst.leadsBack

theorem Begun.stays {n : Node} (h : n.Stays (Begun orig) orig) : n.LeadsBack orig :=
  h.leadsBack fun _ hst => hst.toBegins.leadsBack

theorem Returns.stays {n : Node} (h : n.Stays (Returns orig) orig) : n.LeadsBack orig := h.leadsBack fun _ hst => hst.leadsBack

/-! ## The upgrade -/

/-- The cores of a forward upgrade. -/
theorem Forward.cores {n : Node} (h : n.Forward orig) :
    CoresPending orig.assignedCpus n.state.vmConfig.vcpuCount n.state.upgradeState.cpuSteps n.state.assignedCpus := by
  have hforward := h.needRollback
  cases h.goesBack with
  | forward _ _ hcores => exact hcores
  | back hsome _ _ =>
    rw [hforward] at hsome
    cases hsome

theorem Forward.backup {n : Node} (h : n.Forward orig) {b : StateBackup} (hb : n.state.upgradeState.stateBackup = some b) :
    { b with initialized := false } = StateBackup.ofState orig := by
  have hforward := h.needRollback
  cases h.goesBack with
  | forward _ hbackup _ => exact hbackup b hb
  | back hsome _ _ =>
    rw [hforward] at hsome
    cases hsome

/-- A forward upgrade with other cores, or another record of them. -/
theorem Forward.change {n : Node} (h : n.Forward orig) {u : UpgradeState} {cpus : List Nat} (registry : CpuRegistry)
    (hactive : u.active = n.state.upgradeState.active) (hneed : u.needRollback = n.state.upgradeState.needRollback)
    (hbackup : u.stateBackup = n.state.upgradeState.stateBackup)
    (hcores : CoresPending orig.assignedCpus n.state.vmConfig.vcpuCount u.cpuSteps cpus) :
    Forward orig { n with registry, state := { n.state with upgradeState := u, assignedCpus := cpus } } where
  active := hactive.trans h.active
  needRollback := hneed.trans h.needRollback
  goesBack := .forward (hneed.trans h.needRollback) (fun _ hb => h.backup (hbackup ▸ hb)) hcores
  file := h.file

/-- The record of released cores, when there was none. -/
theorem Forward.releasing {n : Node} (h : n.Forward orig) (hmore : n.state.vmConfig.vcpuCount < n.state.assignedCpus.length) :
    n.releasing.Forward orig := by
  obtain ⟨hsame, -, hnone | hfew⟩ := h.cores.short (Nat.ne_of_gt hmore)
  · refine h.change n.registry rfl rfl rfl ?_
    have hsteps : UpgradeState.cpuSteps { n.state.upgradeState with steps := n.state.upgradeState.steps ++
        [.cpuAssignment (.releasedCpus (n.state.assignedCpus.drop n.state.vmConfig.vcpuCount))] } =
        [.cpuAssignment (.releasedCpus (n.state.assignedCpus.drop n.state.vmConfig.vcpuCount))] := by
      unfold UpgradeState.cpuSteps at hnone ⊢
      rw [List.filter_append, hnone]
      rfl
    rw [hsteps]
    refine .released ?_ ?_
    · rw [List.take_append_drop, hsame]
    · rw [List.length_take]
      omega
  · rw [hsame] at hmore
    omega

/-- The record of acquired cores: either none is acquired, or as many as are missing. -/
theorem Forward.acquiring {n : Node} (h : n.Forward orig) (hless : n.state.assignedCpus.length < n.state.vmConfig.vcpuCount)
    {more : List Nat} (registry : CpuRegistry)
    (hmore : more = [] ∨ more.length = n.state.vmConfig.vcpuCount - n.state.assignedCpus.length) :
    (n.acquiring more registry).Forward orig := by
  obtain ⟨hsame, hall, -⟩ := h.cores.short (Nat.ne_of_lt hless)
  have hsteps : UpgradeState.cpuSteps { n.state.upgradeState with steps := n.state.upgradeState.steps ++
      [.cpuAssignment (.acquiredCpus n.state.assignedCpus.length)] } =
      n.state.upgradeState.cpuSteps ++ [.cpuAssignment (.acquiredCpus orig.assignedCpus.length)] := by
    unfold UpgradeState.cpuSteps
    rw [List.filter_append, hsame]
    rfl
  rw [hsame] at hless hmore
  refine h.change registry rfl rfl rfl ?_
  rw [hsteps, hsame]
  obtain rfl | hlen := hmore
  · rw [List.append_nil]
    exact .refused hall.append (by simp) hless
  · refine .acquired hall.append (by simp) ?_
    rw [List.length_append]
    omega

theorem assignCpus_forward : Keeps (Forward orig) (Forward orig) assignCpus := by
  have hsave := (@forward_lasting orig).save
  intro n h
  rw [assignCpus_eq]
  by_cases hlen : n.state.assignedCpus.length = n.state.vmConfig.vcpuCount
  · rw [if_pos hlen]
    exact h
  rw [if_neg hlen]
  by_cases hmore : n.state.vmConfig.vcpuCount < n.state.assignedCpus.length
  · rw [if_pos hmore]
    exact hsave _ (h.releasing hmore)
  · rw [if_neg hmore]
    have hless : n.state.assignedCpus.length < n.state.vmConfig.vcpuCount := by omega
    cases hacquire : n.registry.acquire (n.state.vmConfig.vcpuCount - n.state.assignedCpus.length) with
    | error err => exact h.acquiring hless n.registry (.inl rfl)
    | ok r => exact hsave _ (h.acquiring hless r.2 (.inr (CpuRegistry.acquire_ok hacquire).2))

theorem upgradeStep_forward {step : UpgradeStep} (hother : step.isCpuAssignment = false) {m : NodeM (Except String Unit)}
    (hm : Keeps (Forward orig) (Forward orig) m) : Keeps (Forward orig) (Forward orig) (upgradeStep step m) := by
  have hsave := (@forward_lasting orig).save
  refine Triple.bind Triple.gets fun inserted => ?_
  refine Triple.bind (R := fun _ => Forward orig) (Triple.modify fun n h => ?_) fun _ => Keeps.when ?_
  · obtain ⟨rfl, hn⟩ := h
    have hcores := hn.cores
    rw [← UpgradeState.cpuSteps_insert n.state.upgradeState hother] at hcores
    obtain ⟨steps, hsteps⟩ := UpgradeState.insertStep_steps n.state.upgradeState step
    rw [hsteps] at hcores
    simp only [hsteps]
    exact hn.change n.registry rfl rfl rfl hcores
  · exact Keeps.bind hm fun _ => Keeps.bind hsave fun _ => Keeps.ofExcept

theorem tryUpgrade_forward : Keeps (Forward orig) (Forward orig) tryUpgrade := by
  have hI := @forward_lasting orig
  refine Keeps.bind assignCpus_forward fun _ => ?_
  refine Keeps.bind (upgradeStep_forward rfl (Keeps.bind Keeps.gets fun _ => hI.onSite.attempt)) fun _ => ?_
  refine Keeps.bind (upgradeStep_forward rfl ?_) fun _ => ?_
  · exact Keeps.bind (adoptNodeInfo_keeps hI.toPlaced) fun _ => (adoptPlugin_keeps hI.toPlaced).attempt
  · refine Keeps.bind (upgradeStep_forward rfl (replaceFirewall_keeps hI.toPlaced).attempt) fun _ => ?_
    exact startAgain_keeps hI.working

/-! ## The rollback -/

/-- The cores from before are given back to the node. -/
theorem rollbackCpus_returns :
    Triple (Stays (Returns orig) orig) rollbackCpus (fun _ => Stays (Returned orig) orig)
      (atExit (Stays (Returned orig) orig) (Stays (Returned orig) orig)) := by
  have hsave := (@returned_working orig).save
  intro n h
  rw [rollbackCpus_eq]
  obtain ⟨hfind, -, hsame⟩ | ⟨step, hfind, ⟨more, rfl, hassigned, hall⟩ | ⟨cpus, rfl, hassigned, hnone⟩⟩ := h.state.cores.cases
  · rw [hfind]
    exact ⟨⟨h.state, hsame⟩, h.file⟩
  · rw [hfind]
    have htake : n.state.assignedCpus.take orig.assignedCpus.length = orig.assignedCpus := by
      rw [hassigned, List.take_left]
    refine hsave _ ⟨⟨⟨h.state.needRollback, ?_, h.state.fields⟩, htake⟩, h.file⟩
    show CoresRecorded _ _ (n.state.assignedCpus.take orig.assignedCpus.length)
    rw [htake]
    exact .of_allAcquired hall
  · rw [hfind]
    have hsteps : (n.undoCpus (.cpuAssignment (.releasedCpus cpus))).state.upgradeState.cpuSteps = [] := hnone
    refine hsave _ ⟨⟨⟨h.state.needRollback, ?_, h.state.fields⟩, hassigned⟩, h.file⟩
    rw [hsteps]
    show CoresRecorded _ [] (n.state.assignedCpus ++ cpus)
    rw [hassigned]
    exact .unchanged

/-- A step that is about no cores, undone by work on the node that does not change its state. -/
theorem rollbackStep_returned {step : UpgradeStep} (hother : step.isCpuAssignment = false) {m : NodeM Unit}
    (hm : ∀ {I : Node → Prop}, Placed I → Keeps I I m) :
    Keeps (Stays (Returned orig) orig) (Stays (Returned orig) orig) (rollbackStep step m) := by
  have hI := @returned_working orig
  have hsame : ∀ steps, Placed fun n => steps = n.state.upgradeState.steps ∧ n.Stays (Returned orig) orig := fun steps =>
    { site := fun _ site h => ⟨h.1, hI.site _ site h.2⟩
      saved := fun _ file saves hafter h => ⟨h.1, hI.saved _ file saves hafter h.2⟩ }
  refine Triple.bind Triple.gets fun steps => Triple.when (fun hmem => ?_) fun _ _ h => h.2
  refine Triple.bind ((hm (hsame steps)).exit fun e n h => by cases e <;> exact h.2) fun _ => ?_
  refine Triple.bind (R := fun _ => Stays (Returned orig) orig) (Triple.modify fun n h => ?_) fun _ => hI.save
  obtain ⟨rfl, hn⟩ := h
  have hperm := UpgradeState.cpuSteps_other hmem hother
  exact ⟨⟨⟨hn.state.needRollback, hn.state.cores.perm hperm, hn.state.fields⟩, hn.state.same⟩, hn.file⟩

/-- A rollback that comes to its end has brought back the state from before. -/
theorem tryRollback_returns :
    Triple (Stays (Returns orig) orig) tryRollback (fun _ => Stays (Returned orig) orig)
      (atExit (Stays (Returns orig) orig) (Stays (Returns orig) orig)) := by
  have hbegin := @returns_working orig
  have hI := @returned_working orig
  have hexit : ∀ (e : Exit String) n, atExit (Stays (Returned orig) orig) (Stays (Returned orig) orig) e n →
      atExit (Stays (Returns orig) orig) (Stays (Returns orig) orig) e n := by
    intro e n h
    cases e with
    | error e => exact ⟨h.state.toReturns, h.file⟩
    | killed => exact ⟨h.state.toReturns, h.file⟩
  refine Triple.bind (status_keeps hbegin.toPlaced) fun _ => ?_
  refine Triple.bind (Keeps.when (stop_keeps hbegin.toFramed true)) fun _ => ?_
  refine Triple.bind (rollbackCpus_returns.exit hexit) fun _ => Triple.exit ?_ hexit
  refine Keeps.bind (rollbackStep_returned rfl fun hP => hP.onSite) fun _ => ?_
  refine Keeps.bind (rollbackStep_returned rfl fun hP => ?_) fun _ => ?_
  · exact Keeps.bind (adoptNodeInfo_keeps hP) fun _ => adoptPlugin_keeps hP
  · exact Keeps.bind (rollbackStep_returned rfl fun hP => replaceFirewall_keeps hP) fun _ => startAgain_keeps hI

/-- An upgrade that says that it was rolled back was; otherwise the node still leads back. -/
def upgradeExit (orig : NodeState) : Exit CommandError → Node → Prop
  | .error (.nodeUpgradeRollback _), n => n.RolledBack orig ∧ n.OnFile orig
  | _, n => n.LeadsBack orig

theorem lift_leads {α : Type} {P : Node → Prop} {m : NodeM α} {Q : α → Node → Prop}
    (h : Triple P m Q (atExit (LeadsBack · orig) (LeadsBack · orig))) : Triple P (lift m) Q (upgradeExit orig) :=
  Triple.mapError (h.exit fun e _ hn => by cases e <;> exact hn)

theorem Over.leadsBack {P : NodeState → Prop} {n : Node} (h : n.Over P orig) : n.LeadsBack orig :=
  ⟨fun hactive => (Bool.false_ne_true (h.inactive.symm.trans hactive)).elim, h.file⟩

theorem over_placed {P : NodeState → Prop} : Placed (Over P orig) where
  site := fun _ _ h => ⟨h.inactive, h.state, h.file⟩
  saved := fun _ _ _ hafter h => ⟨h.inactive, h.state, hafter _ h.file h.leadsBack.memory⟩

theorem rollback_returns (err : String) :
    Triple (Stays (Returns orig) orig) (rollback err) (fun _ => (LeadsBack · orig)) (upgradeExit orig) := by
  have htry : Triple (Stays (Returns orig) orig) (lift (attempt tryRollback))
      (attempted (fun _ => Stays (Returned orig) orig) (Stays (Returns orig) orig)) (upgradeExit orig) := by
    refine lift_leads (Triple.attempt (tryRollback_returns.exit fun e n h => ?_))
    cases e with
    | error e => exact h
    | killed => exact Returns.stays h
  refine Triple.bind htry fun res => ?_
  cases res with
  | error rollbackErr =>
    have hI := @over_placed orig fun _ => True
    refine Triple.bind (R := fun _ => Over (fun _ => True) orig) (Triple.mapError (Triple.modify fun n h => ⟨rfl, trivial, h.file⟩))
      fun _ => ?_
    refine Triple.bind (lift_leads ((saveExpectedStatus_keeps hI fun _ h => ⟨h.inactive, h.state, h.file⟩).exit (atExit_leads fun _ h => h.leadsBack))) fun _ => ?_
    exact Triple.throw fun n h => h.leadsBack
  | ok a =>
    have hI := @over_placed orig (Unaltered orig)
    refine Triple.bind (R := fun _ => Over (Unaltered orig) orig) (Triple.mapError (Triple.modify fun n h => ?_)) fun _ => ?_
    · exact ⟨rfl, ⟨h.state.fields, h.state.same⟩, h.file⟩
    · refine Triple.bind (lift_leads (hI.save_writes.exit (atExit_leads fun _ h => h.leadsBack))) fun _ => ?_
      exact Triple.throw fun n h => ⟨⟨h.2.state, h.2.inactive, h.1⟩, h.2.file⟩

/-- A failed try: the state is swapped with the backup, or left where it was. -/
theorem revertUpgrade_returns (err : String) :
    Triple (Forward orig) (revertUpgrade err) (fun _ => (LeadsBack · orig)) (upgradeExit orig) := by
  have hI := @forward_lasting orig
  have hsaved := @returns_working orig
  unfold revertUpgrade
  refine Triple.bind (lift_leads (hI.onSite.exit (atExit_leads fun _ h => Forward.leadsBack h))) fun stamp => ?_
  refine Triple.bind Triple.gets fun u => ?_
  split
  · exact Triple.throw fun n h => h.2.leadsBack
  · cases hbackup : u.stateBackup with
    | none => exact Triple.throw fun n h => h.2.leadsBack
    | some backup =>
      refine Triple.bind (R := fun _ => Stays (Returns orig) orig) (lift_leads ?_) fun _ => rollback_returns err
      refine Triple.bind (R := fun _ n => ∃ m : Node, m.Forward orig ∧ m.state.upgradeState.stateBackup = some backup ∧
          n = { m with state := swapBackup backup m.state }) (Triple.modify fun n h => ⟨n, h.2, h.1 ▸ hbackup, rfl⟩) fun _ => ?_
      refine Triple.bind (R := fun _ => Stays (Returns orig) orig) (Triple.modify fun n h => ?_) fun _ => ?_
      · obtain ⟨m, hm, hb, rfl⟩ := h
        exact ⟨⟨rfl, hm.cores.recorded, hm.backup hb⟩, hm.file⟩
      · exact hsaved.save.exit (atExit_leads fun _ h => Returns.stays h)

theorem finishUpgrade_leads : Triple (Forward orig) finishUpgrade (fun _ => (LeadsBack · orig)) (atExit (LeadsBack · orig) (LeadsBack · orig)) := by
  have hI := @forward_lasting orig
  refine Triple.bind Triple.gets fun steps => ?_
  refine Triple.bind (R := fun _ => Forward orig) (Triple.modify fun n h => ?_) fun _ => ?_
  · exact ⟨h.2.active, h.2.needRollback, h.2.goesBack, h.2.file⟩
  refine Triple.bind ((Keeps.when (tolerate_keeps hI.onSite)).exit (atExit_leads fun _ h => Forward.leadsBack h)) fun _ => ?_
  refine Triple.bind (R := fun _ => Over (fun _ => True) orig) (Triple.modify fun n h => ⟨rfl, trivial, h.file⟩) fun _ => ?_
  exact (over_placed.save.exit (atExit_leads fun _ h => h.leadsBack)).post fun _ n h => h.leadsBack

/-! ## The start of an upgrade -/

theorem checkBlockingJob_begins (status : VmStatus) :
    Triple (Stays (Begins orig) orig) (checkBlockingJob status) (fun _ => Stays (Begins orig) orig) (upgradeExit orig) := by
  unfold checkBlockingJob
  split
  · refine Triple.bind (lift_leads (begins_working.onSite.exit (atExit_leads fun _ h => Begins.stays h))) fun blocked => ?_
    exact Triple.when (fun _ => Triple.throw fun n h => Begins.stays h) fun _ _ h => h
  · exact Triple.pure fun _ h => h

theorem Begins.stopping {u : UpgradeState} {cpus : List Nat} {fields : StateBackup} (h : Begins orig u cpus fields) :
    Begins orig { u with steps := u.steps ++ [.stop] } cpus fields where
  needRollback := h.needRollback
  backup := h.backup
  steps := by
    have hsteps := h.steps
    unfold UpgradeState.cpuSteps at hsteps ⊢
    rw [List.filter_append, hsteps]
    rfl
  cores := h.cores
  fields := h.fields

theorem Begins.activated {u : UpgradeState} {cpus : List Nat} {fields : StateBackup} (h : Begins orig u cpus fields) :
    Begun orig { u with active := true } cpus fields where
  needRollback := h.needRollback
  backup := h.backup
  steps := h.steps
  cores := h.cores
  fields := h.fields
  active := rfl

theorem Begun.stamped {u : UpgradeState} {cpus : List Nat} {fields : StateBackup} (h : Begun orig u cpus fields)
    (dataStamp : Option Nat) : Begun orig { u with dataStamp } cpus fields where
  needRollback := h.needRollback
  backup := h.backup
  steps := h.steps
  cores := h.cores
  fields := h.fields
  active := h.active

/-- With the swap the fields of the state are in the backup. -/
theorem Begun.swapped {n : Node} (h : Begun orig n.state.upgradeState n.state.assignedCpus (StateBackup.ofState n.state))
    (desired : NodeState) (hfile : n.OnFile orig) : Forward orig { n with state := swapBackup (.ofState desired) n.state } where
  active := h.active
  needRollback := h.needRollback
  goesBack := by
    refine .forward h.needRollback (fun b hb => ?_) ?_
    · cases hb
      exact h.fields
    · show CoresPending _ _ n.state.upgradeState.cpuSteps n.state.assignedCpus
      rw [h.steps, h.cores]
      exact .unchanged
  file := hfile

/-- The state from before is in the backup when the state has taken over what is desired. -/
theorem beginUpgrade_forward (status : VmStatus) (desired : NodeState) :
    Triple (fun n => Unaltered orig n.state ∧ n.OnFile orig) (beginUpgrade status desired) (fun _ => Forward orig)
      (upgradeExit orig) := by
  have hI := @begins_working orig
  unfold beginUpgrade
  refine Triple.bind (R := fun _ => Stays (Begins orig) orig) (Triple.mapError (Triple.modify fun n h => ?_)) fun _ => ?_
  · exact ⟨⟨rfl, rfl, rfl, h.1.cores, h.1.fields⟩, h.2⟩
  refine Triple.bind (checkBlockingJob_begins status) fun _ => lift_leads ?_
  have hstop : Keeps (Stays (Begins orig) orig) (Stays (Begins orig) orig) (Effect.when (status = .running) do
      modifyUpgrade fun u => { u with steps := u.steps ++ [.stop] }
      markRestarting
      stop false) := by
    refine Keeps.when (Keeps.bind (Keeps.modify fun n h => ⟨h.state.stopping, h.file⟩) fun _ => ?_)
    exact Keeps.bind (Keeps.modify hI.marked) fun _ => stop_keeps hI.toFramed false
  refine Triple.bind (hstop.exit (atExit_leads fun _ h => Begins.stays h)) fun _ => ?_
  refine Triple.bind (R := fun _ => Stays (Begun orig) orig) (Triple.modify fun n h => ⟨h.state.activated, h.file⟩) fun _ => ?_
  refine Triple.bind (begun_working.onSite.exit (atExit_leads fun _ h => Begun.stays h)) fun dataStamp => ?_
  refine Triple.bind (R := fun _ => Stays (Begun orig) orig) (Triple.modify fun n h => ⟨h.state.stamped dataStamp, h.file⟩) fun _ => ?_
  refine Triple.bind (begun_working.onSite.exit (atExit_leads fun _ h => Begun.stays h)) fun revision => ?_
  refine Triple.bind (R := fun _ => Forward orig) (Triple.modify fun n h => ?_) fun _ => ?_
  · exact h.state.swapped { desired with revision } h.file
  · exact forward_lasting.save.exit (atExit_leads fun _ h => Forward.leadsBack h)

/-- A node whose upgrade under way leads back to `orig`, or that has none and is as `orig`. -/
structure Enters (orig : NodeState) (n : Node) : Prop where
  underWay : n.state.LeadsBack orig
  idle : n.state.upgradeState.active = false → Unaltered orig n.state
  file : n.OnFile orig

theorem enters_placed : Placed (Enters orig) where
  site := fun _ _ h => ⟨h.underWay, h.idle, h.file⟩
  saved := fun _ _ _ hafter h => ⟨h.underWay, h.idle, hafter _ h.file h.underWay⟩

theorem Enters.leadsBack {n : Node} (h : n.Enters orig) : n.LeadsBack orig := ⟨h.underWay, h.file⟩

/-- **What an upgrade comes to**: one that ends with "rolled back" has brought back `orig`; after any other
the node still leads back to it, as far as the upgrade is not over. -/
theorem upgrade_returns (desired : NodeState) :
    Triple (Enters orig) (upgrade desired) (fun _ => (LeadsBack · orig)) (upgradeExit orig) := by
  unfold upgrade
  refine Triple.bind (lift_leads ((status_keeps enters_placed).exit (atExit_leads fun _ h => Enters.leadsBack h))) fun status => ?_
  split
  · exact Triple.throw fun n h => h.leadsBack
  refine Triple.bind Triple.gets fun active => ?_
  refine Triple.bind (R := fun _ n => n.state.upgradeState.active = true ∧ n.state.GoesBack orig ∧ n.OnFile orig)
    (Triple.when (fun hactive => ?_) fun hactive n h => ?_) fun _ => ?_
  · subst hactive
    refine ((beginUpgrade_forward status desired).pre fun n h => ?_).post fun _ n h => ⟨h.active, h.goesBack, h.file⟩
    exact ⟨h.2.idle h.1.symm, h.2.file⟩
  · have htrue : n.state.upgradeState.active = true := by
      rw [← h.1]
      simpa using hactive
    exact ⟨htrue, h.2.underWay htrue, h.2.file⟩
  refine Triple.bind Triple.gets fun needRollback => ?_
  cases needRollback with
  | some err =>
    refine (rollback_returns err).pre fun n h => ?_
    obtain ⟨hneed, hactive, hback, hfile⟩ := h
    cases hback with
    | forward hnone _ _ =>
      rw [hnone] at hneed
      cases hneed
    | back hsome hfields hcores => exact ⟨⟨hsome, hcores, hfields⟩, hfile⟩
  | none =>
    have htry : Triple (Forward orig) (lift (attempt tryUpgrade)) (attempted (fun _ => Forward orig) (Forward orig))
        (upgradeExit orig) := by
      refine lift_leads (Triple.attempt (tryUpgrade_forward.exit fun e n h => ?_))
      cases e with
      | error e => exact h
      | killed => exact Forward.leadsBack h
    refine Triple.bind (htry.pre fun n h => ⟨h.2.1, h.1.symm, h.2.2.1, h.2.2.2⟩) fun res => ?_
    cases res with
    | error err => exact revertUpgrade_returns err
    | ok a => exact lift_leads finishUpgrade_leads

/-! ## Everything else -/

theorem leadsBack_working : Working (LeadsBack · orig) where
  site := fun _ _ h => ⟨h.memory, h.file⟩
  saved := fun _ _ _ hafter h => ⟨h.memory, hafter _ h.file h.memory⟩
  stopped := fun _ h => ⟨fun hactive => (h.memory hactive).congr rfl rfl rfl, h.file⟩
  failed := fun _ h => ⟨fun hactive => (h.memory hactive).congr rfl rfl rfl, h.file⟩
  running := fun _ h => ⟨fun hactive => (h.memory hactive).congr rfl rfl rfl, h.file⟩
  ready := fun _ _ _ h => ⟨h.memory, h.file⟩
  told := fun _ _ h => ⟨h.memory, h.file⟩
  marked := fun _ h => ⟨fun hactive => (h.memory hactive).congr rfl rfl rfl, h.file⟩
  started := fun _ h => ⟨fun hactive => (h.memory hactive).congr rfl rfl rfl, h.file⟩
  initialized := fun _ _ h => ⟨fun hactive => (h.memory hactive).congr rfl rfl rfl, h.file⟩

/-- As long as no try has failed, a change of other fields does not matter. -/
theorem leadsBack_lasting : Lasting fun n => n.state.upgradeState.needRollback = none ∧ n.LeadsBack orig where
  site := fun _ _ h => ⟨h.1, h.2.memory, h.2.file⟩
  saved := fun _ _ _ hafter h => ⟨h.1, h.2.memory, hafter _ h.2.file h.2.memory⟩
  state := fun n st hsame h => by
    have hneed : st.upgradeState.needRollback = none := by
      rw [hsame.upgradeState]
      exact h.1
    have hmemory : st.LeadsBack orig := by
      intro hactive
      rw [hsame.upgradeState] at hactive
      exact (h.2.memory hactive).same h.1 hsame
    exact ⟨hneed, hmemory, h.2.file⟩
  ready := fun _ _ h => ⟨h.1, h.2.memory, h.2.file⟩
  told := fun _ _ h => ⟨h.1, h.2.memory, h.2.file⟩
  unfinished := fun _ _ h => ⟨h.1, h.2.memory, h.2.file⟩

theorem managerUpgrade_leads (desired : NodeState) (version requirements : Except CommandError Unit) :
    Triple (Enters orig) (NodesManager.upgrade desired version requirements) (fun _ => (LeadsBack · orig))
      fun _ => (LeadsBack · orig) := by
  have hupgrade : ∀ desired, Triple (Enters orig) (Node.upgrade desired) (fun _ => (LeadsBack · orig)) fun _ => (LeadsBack · orig) := by
    intro desired
    refine (upgrade_returns desired).exit fun e n h => ?_
    cases e with
    | killed => exact h
    | error e =>
      cases e with
      | nodeUpgradeRollback err =>
        exact ⟨fun hactive => (Bool.false_ne_true (h.1.inactive.symm.trans hactive)).elim, h.2⟩
      | _ => exact h
  have hexit : ∀ (e : Exit CommandError) n, atExit (Enters orig) (Enters orig) e n → n.LeadsBack orig := fun e n h => by
    cases e <;> exact Enters.leadsBack h
  unfold NodesManager.upgrade
  refine Triple.bind (Keeps.ofExcept.exit hexit) fun _ => Triple.bind Triple.gets fun node => ?_
  refine Triple.pre (P := Enters orig) (Triple.when (fun _ => ?_) fun _ n h => h.leadsBack) fun _ h => h.2
  refine Triple.bind (Keeps.ofExcept.exit hexit) fun desired => ?_
  exact Triple.bind ((Keeps.when Keeps.ofExcept).exit hexit) fun _ => hupgrade desired

theorem attach_leads : Keeps (LeadsBack · orig) (LeadsBack · orig) attach := by
  have hI := (@leadsBack_working orig).toPlaced
  unfold attach
  refine Keeps.bind (Keeps.modify fun n h => hI.site n _ h) fun _ => Keeps.bind Keeps.gets fun st => ?_
  refine Keeps.bind (Keeps.modify fun n h => ⟨h.memory, h.file⟩) fun _ => Keeps.bind hI.onSite fun _ => ?_
  refine Keeps.bind hI.onSite fun _ => Keeps.bind (Keeps.modify fun n h => hI.site n _ h) fun _ => ?_
  refine Keeps.bind (connect_keeps hI) fun _ => Keeps.bind Keeps.gets fun _ => Keeps.bind hI.onSite fun _ => ?_
  exact Keeps.when (tolerate_keeps hI.onSite)

/-- A new node has no upgrade under way, in memory or on file. -/
theorem createNode_leads (desired : NodeState) : Keeps (LeadsBack · orig) (LeadsBack · orig) (NodeLife.createNode desired) := by
  have hI := (@leadsBack_working orig).toPlaced
  have hnew := @over_placed orig fun _ => True
  refine Keeps.bind hI.onSite fun revision => ?_
  unfold create
  refine Keeps.bind (Keeps.of_run fun n h => ?_) fun cpus => ?_
  · unfold acquire
    split
    · exact ⟨h.memory, h.file⟩
    · exact h
  refine Triple.bind (R := fun _ => Over (fun _ => True) orig) (Triple.modify fun n h => ⟨rfl, trivial, h.file⟩) fun _ => ?_
  refine Triple.bind ((tryCreate_keeps hnew).exit (atExit_leads fun _ h => Over.leadsBack h)) fun res => ?_
  obtain ⟨machine, res⟩ := res
  cases res with
  | ok a => exact Triple.pure fun n h => h.leadsBack
  | error err =>
    refine Triple.bind (R := fun _ => Over (fun _ => True) orig) ?_ fun _ => ?_
    · refine Triple.bind Triple.gets fun cpus => Triple.bind (R := fun _ => Over (fun _ => True) orig)
        (Triple.modify fun n h => ⟨h.2.inactive, trivial, h.2.file⟩) fun _ => ?_
      exact Triple.modify fun n h => ⟨h.inactive, trivial, h.file⟩
    · have hcleanup : Keeps (Over (fun _ => True) orig) (Over (fun _ => True) orig) (tolerate (cleanup machine)) :=
        tolerate_keeps (Keeps.bind (Keeps.when (deleteMachine_keeps hnew)) fun _ => hnew.onSite)
      refine Triple.bind (hcleanup.exit (atExit_leads fun _ h => Over.leadsBack h)) fun _ => ?_
      exact Triple.throw fun n h => Over.leadsBack h

end Node

/-! ## Lives -/

namespace NodeLife

open Node

/-- The daemon has the node only with an upgrade of it under way, and leaves the fields of its state alone
once the upgrade is found to fail. -/
def UnderWay (l : NodeLife) (a : LifeAct × CallEnv) : Prop :=
  (match a.1 with
    | .op (.update _) => l.node.state.upgradeState.needRollback = none
    | .op (.rename ..) => l.node.state.upgradeState.needRollback = none
    | .delete => False
    | _ => True) ∧
  ∀ l' ∈ step l a, l'.attached = true → l'.node.state.upgradeState.active = true

/-- If the daemon has the node, it can go on with the upgrade. -/
structure Resumes (orig : NodeState) (l : NodeLife) : Prop where
  leadsBack : l.node.LeadsBack orig
  idle : l.attached = true → l.node.state.upgradeState.active = false → Unaltered orig l.node.state

theorem leadsBack_step {orig : NodeState} {l l' : NodeLife} {a : LifeAct × CallEnv} (h : l.Resumes orig) (hok : l.UnderWay a)
    (hs : l.step a = some l') : l'.node.LeadsBack orig := by
  obtain ⟨act, env⟩ := a
  have hn : (l.node.inEnv env).LeadsBack orig := ⟨h.leadsBack.memory, h.leadsBack.file⟩
  cases act with
  | create desired =>
    simp only [step] at hs
    split at hs
    · cases hs
    · cases hs
      exact (createNode_leads desired).run hn
  | op op =>
    simp only [step] at hs
    split at hs
    · rename_i hattached
      cases hs
      cases op with
      | call c =>
        by_cases hupgrade : ∃ desired version requirements, c = .upgrade desired version requirements
        · obtain ⟨desired, version, requirements, rfl⟩ := hupgrade
          exact (managerUpgrade_leads desired version requirements).run ⟨hn.memory, h.idle hattached, hn.file⟩
        · have hcall : ∀ desired version requirements, c ≠ .upgrade desired version requirements :=
            fun desired version requirements hc => hupgrade ⟨desired, version, requirements, hc⟩
          exact (call_keeps leadsBack_working (fun _ h => ⟨h.memory, h.file⟩) hcall).run hn
      | update u => exact ((leadsBack_lasting.update u).run (s := l.node.inEnv env) ⟨hok.1, hn⟩).2
      | rename newName newDnsName => exact ((leadsBack_lasting.renameNode newName newDnsName).run (s := l.node.inEnv env) ⟨hok.1, hn⟩).2
    · cases hs
  | delete => exact hok.1.elim
  | crash =>
    simp only [step] at hs
    cases hs
    exact hn
  | attach free =>
    simp only [step] at hs
    split at hs
    · cases hs
    · obtain ⟨st, hst, rfl⟩ := Option.map_eq_some_iff.mp hs
      have hfile := hn.file.file st (Doc.load_eq_some.mp hst)
      exact attach_leads.run (s := { l.node.inEnv env with state := st, registry := free }) ⟨hfile, hn.file⟩

theorem resumes_step {orig : NodeState} {l l' : NodeLife} {a : LifeAct × CallEnv} (h : l.Resumes orig) (hok : l.UnderWay a)
    (hs : l.step a = some l') : l'.Resumes orig where
  leadsBack := leadsBack_step h hok hs
  idle := fun hattached hover => (Bool.false_ne_true (hover.symm.trans (hok.2 l' hs hattached))).elim

end NodeLife

open NodeLife

/-- Another image, and one core for it. -/
def oneCore : NodeState :=
  { (default : NodeState) with
    image := { (default : NodeImage) with id := "new" }
    vmConfig := { (default : NodeState).vmConfig with vcpuCount := 1 } }

def callEnv (faults : List (Fault Cut)) : CallEnv := ⟨faults, [], []⟩

/-- A node without cores, on a host that has one. -/
def createdNode : NodeLife := (run step (new default [0]) [(.create default, default)]).getD (new default [])

/-- The daemon dies as the firewall of the upgraded node is set up, and is started again. -/
def interruptedAtFirewall : List (LifeAct × CallEnv) :=
  [(.op (.call (.upgrade oneCore (.ok ()) (.ok ()))), callEnv (List.replicate 11 .none ++ [.killed .nothing])),
    (.attach [0], default)]

instance (l : NodeLife) : ∀ a, Decidable (l.UnderWay a)
  | (.op (.update _), _) | (.op (.rename ..), _) | (.op (.call _), _) | (.create _, _) | (.delete, _) | (.crash, _) | (.attach _, _) => by
    unfold UnderWay
    infer_instance

end Blockvisor
