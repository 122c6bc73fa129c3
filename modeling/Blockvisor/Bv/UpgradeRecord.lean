/-
What an upgrade keeps on record of the cores of its node. A first try records
that cores were released, or how many there were before some were acquired; a
try that finds no free cores leaves a record too, and the next one adds another
like it. `CoresPending` is what holds while the upgrade goes on, and
`CoresRecorded` what its rollback relies on.

`Lasting` is an invariant that all operations keep but those that have to do
with an upgrade: it looks at the cores, the record and the configuration of
the machine.
-/
import Mathlib.Data.List.Perm.Basic
import Blockvisor.Bv.NodeLife

namespace Blockvisor

open Effect

/-! ## Steps taken off the record -/

theorem swapRemove_eq {α : Type} (xs : List α) (x : α) (i : Nat) :
    swapRemove (xs ++ [x]) i = if i = xs.length then xs else xs.set i x := by
  unfold swapRemove
  rw [List.getLast?_concat]
  by_cases hi : i = xs.length
  · simp [hi]
  · simp only [List.length_append, List.length_cons, List.length_nil, Nat.zero_add, Nat.add_right_cancel_iff, hi, if_false]
    by_cases hlt : i < xs.length
    · rw [List.set_append_left i x hlt, List.dropLast_concat]
    · have hpast : (xs ++ [x]).length ≤ i := by simp; omega
      rw [List.set_eq_of_length_le hpast, List.dropLast_concat, List.set_eq_of_length_le (by omega)]

/-- Taking out an item leaves the others, in some order. -/
theorem swapRemove_perm {α : Type} {xs : List α} {i : Nat} (h : i < xs.length) : (xs[i] :: swapRemove xs i).Perm xs := by
  rcases List.eq_nil_or_concat xs with rfl | ⟨init, last, rfl⟩
  · simp at h
  · simp only [List.concat_eq_append] at h ⊢
    rw [swapRemove_eq]
    by_cases hi : i = init.length
    · subst hi
      rw [if_pos rfl, List.getElem_append_right (Nat.le_refl _)]
      simpa using (List.perm_append_singleton last init).symm
    · have hlt : i < init.length := by
        simp at h
        omega
      rw [if_neg hi, List.getElem_append_left hlt]
      have hset : (init.set i last).Perm (last :: init.eraseIdx i) := List.set_perm_cons_eraseIdx hlt last
      have hback : (init[i] :: last :: init.eraseIdx i).Perm (last :: init) :=
        (List.Perm.swap ..).trans ((List.getElem_cons_eraseIdx_perm hlt).cons last)
      exact (hset.cons _).trans (hback.trans (List.perm_append_singleton last init).symm)

/-! ## The record of the cores -/

/-- The steps of an upgrade that are about cores. -/
def UpgradeState.cpuSteps (u : UpgradeState) : List UpgradeStep := u.steps.filter (·.isCpuAssignment)

/-- The steps say, once or more, that the node had `origLen` cores before some were acquired. -/
def AllAcquired (origLen : Nat) (steps : List UpgradeStep) : Prop :=
  ∀ step ∈ steps, step = .cpuAssignment (.acquiredCpus origLen)

/-- What is on record of a node that had the cores `orig` and has `assigned`. -/
inductive CoresRecorded (orig : List Nat) : List UpgradeStep → List Nat → Prop
  | unchanged : CoresRecorded orig [] orig
  | acquired {steps : List UpgradeStep} {more : List Nat} : AllAcquired orig.length steps → steps ≠ [] →
      CoresRecorded orig steps (orig ++ more)
  | released {kept cpus : List Nat} : kept ++ cpus = orig →
      CoresRecorded orig [.cpuAssignment (.releasedCpus cpus)] kept

/-- While the upgrade goes on the node has its cores from before, as many as it is to have, or had too
few to get more. -/
inductive CoresPending (orig : List Nat) (count : Nat) : List UpgradeStep → List Nat → Prop
  | unchanged : CoresPending orig count [] orig
  | refused {steps : List UpgradeStep} : AllAcquired orig.length steps → steps ≠ [] → orig.length < count →
      CoresPending orig count steps orig
  | acquired {steps : List UpgradeStep} {more : List Nat} : AllAcquired orig.length steps → steps ≠ [] →
      (orig ++ more).length = count → CoresPending orig count steps (orig ++ more)
  | released {kept cpus : List Nat} : kept ++ cpus = orig → kept.length = count →
      CoresPending orig count [.cpuAssignment (.releasedCpus cpus)] kept

theorem AllAcquired.append {origLen : Nat} {steps : List UpgradeStep} (h : AllAcquired origLen steps) :
    AllAcquired origLen (steps ++ [.cpuAssignment (.acquiredCpus origLen)]) := by
  intro step hstep
  rcases List.mem_append.mp hstep with hin | hlast
  · exact h step hin
  · exact List.mem_singleton.mp hlast

theorem allAcquired_nil (origLen : Nat) : AllAcquired origLen [] := fun _ h => by cases h

theorem CoresRecorded.of_allAcquired {orig : List Nat} {steps : List UpgradeStep} (h : AllAcquired orig.length steps) :
    CoresRecorded orig steps orig := by
  by_cases hnil : steps = []
  · rw [hnil]
    exact .unchanged
  · have hrecorded := @CoresRecorded.acquired orig steps [] h hnil
    rw [List.append_nil] at hrecorded
    exact hrecorded

namespace CoresPending

variable {orig assigned : List Nat} {count : Nat} {steps : List UpgradeStep}

theorem recorded (h : CoresPending orig count steps assigned) : CoresRecorded orig steps assigned := by
  cases h with
  | unchanged => exact .unchanged
  | refused hall _ _ => exact .of_allAcquired hall
  | acquired hall hne _ => exact .acquired hall hne
  | released heq _ => exact .released heq

/-- A node with other cores than it is to have has those from before; nothing was released. -/
theorem short (h : CoresPending orig count steps assigned) (hlen : assigned.length ≠ count) :
    assigned = orig ∧ AllAcquired orig.length steps ∧ (steps = [] ∨ orig.length < count) := by
  cases h with
  | unchanged => exact ⟨rfl, allAcquired_nil _, .inl rfl⟩
  | refused hall _ hfew => exact ⟨rfl, hall, .inr hfew⟩
  | acquired _ _ hcount => exact absurd hcount hlen
  | released _ hcount => exact absurd hcount hlen

end CoresPending

/-- Steps on record in another order. -/
theorem CoresRecorded.perm {orig assigned : List Nat} {steps steps' : List UpgradeStep}
    (h : CoresRecorded orig steps assigned) (hperm : steps'.Perm steps) : CoresRecorded orig steps' assigned := by
  cases h with
  | unchanged =>
    rw [hperm.eq_nil]
    exact .unchanged
  | acquired hall hne =>
    refine .acquired (fun step hstep => hall step (hperm.mem_iff.mp hstep)) fun hnil => hne ?_
    rw [hnil] at hperm
    exact hperm.symm.eq_nil
  | released heq =>
    rw [hperm.eq_singleton]
    exact .released heq

namespace UpgradeState

/-- The steps that are left when one is taken off the record. -/
theorem cpuSteps_remove {u : UpgradeState} {i : Nat} (h : i < u.steps.length) :
    ([u.steps[i]].filter (·.isCpuAssignment) ++ cpuSteps { u with steps := swapRemove u.steps i }).Perm u.cpuSteps := by
  have hperm := (swapRemove_perm h).filter (·.isCpuAssignment)
  rw [← List.singleton_append, List.filter_append] at hperm
  exact hperm

/-- Taking off a step that is not about cores changes no others. -/
theorem cpuSteps_other {u : UpgradeState} {step : UpgradeStep} (hmem : step ∈ u.steps) (hother : step.isCpuAssignment = false) :
    (cpuSteps { u with steps := swapRemove u.steps (u.steps.idxOf step) }).Perm u.cpuSteps := by
  have hlt : u.steps.idxOf step < u.steps.length := List.idxOf_lt_length_of_mem hmem
  have hperm := cpuSteps_remove hlt
  rw [List.getElem_idxOf hlt] at hperm
  simpa [hother] using hperm

theorem cpuSteps_insert (u : UpgradeState) {step : UpgradeStep} (hother : step.isCpuAssignment = false) :
    (u.insertStep step).2.cpuSteps = u.cpuSteps := by
  unfold insertStep
  split
  · rfl
  · simp [cpuSteps, hother]

theorem insertStep_steps (u : UpgradeState) (step : UpgradeStep) : ∃ steps, (u.insertStep step).2 = { u with steps } := by
  unfold insertStep
  split
  · exact ⟨u.steps, rfl⟩
  · exact ⟨u.steps ++ [step], rfl⟩

/-- The first step about cores, and the others. -/
theorem find_cpuStep (u : UpgradeState) :
    (u.steps.find? (·.isCpuAssignment) = none ∧ u.cpuSteps = []) ∨
      ∃ step, u.steps.find? (·.isCpuAssignment) = some step ∧
        (step :: cpuSteps { u with steps := swapRemove u.steps (u.steps.findIdx (·.isCpuAssignment)) }).Perm u.cpuSteps := by
  cases hfind : u.steps.find? (·.isCpuAssignment) with
  | none =>
    refine .inl ⟨rfl, ?_⟩
    rw [cpuSteps, List.filter_eq_nil_iff]
    exact List.find?_eq_none.mp hfind
  | some step =>
    have hcpu : step.isCpuAssignment = true := List.find?_some hfind
    have hlt : u.steps.findIdx (·.isCpuAssignment) < u.steps.length :=
      List.findIdx_lt_length_of_exists ⟨step, List.mem_of_find?_eq_some hfind, hcpu⟩
    have hget : u.steps[u.steps.findIdx (·.isCpuAssignment)] = step := by
      have hsome := hfind
      rw [List.find?_eq_getElem?_findIdx, List.getElem?_eq_getElem hlt] at hsome
      exact Option.some.inj hsome
    have hperm := cpuSteps_remove hlt
    rw [hget] at hperm
    refine .inr ⟨step, rfl, ?_⟩
    simpa [hcpu] using hperm

end UpgradeState

/-- What `rollbackCpus` finds: nothing on record; cores acquired, with no record of any released; or
cores released, and nothing else. -/
theorem CoresRecorded.cases {orig assigned : List Nat} {u : UpgradeState} (h : CoresRecorded orig u.cpuSteps assigned) :
    (u.steps.find? (·.isCpuAssignment) = none ∧ u.cpuSteps = [] ∧ assigned = orig) ∨
      ∃ step, u.steps.find? (·.isCpuAssignment) = some step ∧
        ((∃ more, step = .cpuAssignment (.acquiredCpus orig.length) ∧ assigned = orig ++ more ∧
            AllAcquired orig.length (UpgradeState.cpuSteps { u with steps := swapRemove u.steps (u.steps.findIdx (·.isCpuAssignment)) })) ∨
          ∃ cpus, step = .cpuAssignment (.releasedCpus cpus) ∧ assigned ++ cpus = orig ∧
            UpgradeState.cpuSteps { u with steps := swapRemove u.steps (u.steps.findIdx (·.isCpuAssignment)) } = []) := by
  obtain ⟨hfind, hnil⟩ | ⟨step, hfind, hperm⟩ := u.find_cpuStep
  · refine .inl ⟨hfind, hnil, ?_⟩
    rw [hnil] at h
    cases h with
    | unchanged => rfl
    | acquired _ hne => exact absurd rfl hne
  · refine .inr ⟨step, hfind, ?_⟩
    generalize hsteps : u.cpuSteps = steps at h hperm
    cases h with
    | unchanged => cases hperm.eq_nil
    | acquired hall _ =>
      refine .inl ⟨_, hall step (hperm.mem_iff.mp (List.mem_cons_self ..)), rfl, fun other hother => ?_⟩
      exact hall other (hperm.mem_iff.mp (List.mem_cons_of_mem _ hother))
    | released heq =>
      have hone := hperm.eq_singleton
      rw [List.cons.injEq] at hone
      exact .inr ⟨_, hone.1, heq, hone.2⟩

namespace Node

/-! ## The cores of a node in an upgrade -/

/-- Cores that are too many are recorded, and no longer assigned. -/
def releasing (n : Node) : Node :=
  { n with state := { n.state with
      upgradeState.steps := n.state.upgradeState.steps ++
        [.cpuAssignment (.releasedCpus (n.state.assignedCpus.drop n.state.vmConfig.vcpuCount))]
      assignedCpus := n.state.assignedCpus.take n.state.vmConfig.vcpuCount } }

/-- The number of cores is recorded, and the node gets more of them. -/
def acquiring (n : Node) (more : List Nat) (registry : CpuRegistry) : Node :=
  { n with
    registry
    state := { n.state with
      upgradeState.steps := n.state.upgradeState.steps ++ [.cpuAssignment (.acquiredCpus n.state.assignedCpus.length)]
      assignedCpus := n.state.assignedCpus ++ more } }

theorem assignCpus_eq (n : Node) :
    assignCpus n =
      if n.state.assignedCpus.length = n.state.vmConfig.vcpuCount then (.ok (), n)
      else if n.state.vmConfig.vcpuCount < n.state.assignedCpus.length then saveState n.releasing
      else
        match n.registry.acquire (n.state.vmConfig.vcpuCount - n.state.assignedCpus.length) with
        | .ok (more, registry) => saveState (n.acquiring more registry)
        | .error err => (.error (.error err), n.acquiring [] n.registry) := by
  unfold assignCpus
  rw [gets_bind]
  split
  · rfl
  split
  · rfl
  · refine Eq.trans (b := (acquire (n.state.vmConfig.vcpuCount - n.state.assignedCpus.length) >>= fun cpus =>
      modifyState (fun st => { st with assignedCpus := st.assignedCpus ++ cpus }) >>= fun _ => saveState)
        { n with state.upgradeState.steps :=
          n.state.upgradeState.steps ++ [.cpuAssignment (.acquiredCpus n.state.assignedCpus.length)] }) rfl ?_
    cases h : n.registry.acquire (n.state.vmConfig.vcpuCount - n.state.assignedCpus.length) with
    | error err =>
      refine bind_of_error (?_ : _ = (Except.error (Exit.error err), n.acquiring [] n.registry))
      unfold acquire acquiring
      dsimp only
      rw [h, List.append_nil]
    | ok r =>
      obtain ⟨more, registry⟩ := r
      have hacquire : acquire (n.state.vmConfig.vcpuCount - n.state.assignedCpus.length)
          { n with state.upgradeState.steps :=
            n.state.upgradeState.steps ++ [.cpuAssignment (.acquiredCpus n.state.assignedCpus.length)] } =
          (.ok more, { n.acquiring more registry with state.assignedCpus := n.state.assignedCpus }) := by
        unfold acquire acquiring
        dsimp only
        rw [h]
      exact bind_of_ok hacquire

/-- The first step about cores is taken off the record; what it says is undone. -/
def undoCpus (n : Node) (step : UpgradeStep) : Node :=
  let steps := swapRemove n.state.upgradeState.steps (n.state.upgradeState.steps.findIdx (·.isCpuAssignment))
  match step with
  | .cpuAssignment (.acquiredCpus origLen) =>
    { n with
      registry := n.registry.release (n.state.assignedCpus.drop origLen)
      state := { n.state with upgradeState.steps := steps, assignedCpus := n.state.assignedCpus.take origLen } }
  | .cpuAssignment (.releasedCpus cpus) =>
    { n with state := { n.state with upgradeState.steps := steps, assignedCpus := n.state.assignedCpus ++ cpus } }
  | _ => { n with state.upgradeState.steps := steps }

theorem rollbackCpus_eq (n : Node) :
    rollbackCpus n =
      match n.state.upgradeState.steps.find? (·.isCpuAssignment) with
      | none => (.ok (), n)
      | some step => saveState (n.undoCpus step) := by
  unfold rollbackCpus
  rw [gets_bind]
  cases n.state.upgradeState.steps.find? (·.isCpuAssignment) with
  | none => rfl
  | some step =>
    unfold undoCpus
    cases step with
    | cpuAssignment update => cases update <;> rfl
    | _ => rfl

/-! ## What has nothing to do with an upgrade -/

/-- The record of an upgrade, the cores and the configuration of the machine are the same. -/
structure SameRecord (st st' : NodeState) : Prop where
  upgradeState : st'.upgradeState = st.upgradeState
  assignedCpus : st'.assignedCpus = st.assignedCpus
  vmConfig : st'.vmConfig = st.vmConfig

structure Lasting (I : Node → Prop) : Prop extends Placed I where
  state : ∀ n st, SameRecord n.state st → I n → I { n with state := st }
  ready : ∀ n ready, I n → I { n with ready }
  told : ∀ n told, I n → I { n with told }
  unfinished : ∀ n unfinished, I n → I { n with unfinished }

section

variable {I : Node → Prop}

theorem Lasting.working (hI : Lasting I) : Working I where
  toPlaced := hI.toPlaced
  stopped := fun n h => hI.state n _ ⟨rfl, rfl, rfl⟩ h
  failed := fun n h => hI.state n _ ⟨rfl, rfl, rfl⟩ h
  running := fun n h => hI.state n _ ⟨rfl, rfl, rfl⟩ h
  ready := fun n ready _ h => hI.ready n ready h
  told := hI.told
  marked := fun n h => hI.unfinished _ true (hI.state n { n.state with restarting := true } ⟨rfl, rfl, rfl⟩ h)
  started := fun n h => hI.unfinished _ false (hI.state n { n.state with restarting := false } ⟨rfl, rfl, rfl⟩ h)
  initialized := fun n _ h => hI.state n _ ⟨rfl, rfl, rfl⟩ h

theorem Lasting.modifyState (hI : Lasting I) {f : NodeState → NodeState} (hf : ∀ st, SameRecord st (f st)) :
    Keeps I I (modifyState f) :=
  Keeps.modify fun n h => hI.state n _ (hf _) h

theorem Lasting.updateFirewall (hI : Lasting I) (config : Firewall.Config) : Keeps I I (updateFirewall config) := by
  refine Keeps.bind (hI.modifyState fun _ => ⟨rfl, rfl, rfl⟩) fun _ => ?_
  refine Keeps.bind (applyFirewallConfig_keeps hI.toPlaced).attempt fun res => ?_
  cases res with
  | ok a => exact hI.save
  | error e => exact Keeps.bind (saveExpectedStatus_keeps hI.toPlaced hI.working.failed) fun _ => Keeps.throw

theorem Lasting.updateParams (hI : Lasting I) (status : VmStatus) (before : Nat) :
    Keeps I I (updateParams status before) := by
  refine Keeps.bind (updateEngine_keeps hI.toPlaced) fun _ => ?_
  refine Keeps.bind (Keeps.when ?_) fun _ => ?_
  · refine Keeps.bind hI.onSite fun _ => Keeps.bind hI.onSite fun _ => ?_
    exact Keeps.modify fun n h => hI.ready n _ h
  · exact Keeps.bind (hI.modifyState fun _ => ⟨rfl, rfl, rfl⟩) fun _ => hI.save

theorem Lasting.update (hI : Lasting I) (u : ConfigUpdate) : Keeps I I (update u) := by
  unfold Node.update
  refine Keeps.bind (lift_keeps (status_keeps hI.toPlaced)) fun status => Keeps.ite Keeps.throw ?_
  refine Keeps.bind Keeps.gets fun before => Keeps.bind (Keeps.when ?_) fun _ => lift_keeps ?_
  · refine Keeps.bind (checkBlockingJob_keeps hI.toPlaced status) fun _ => Keeps.bind (lift_keeps hI.onSite) fun _ => ?_
    exact lift_keeps (hI.modifyState fun _ => ⟨rfl, rfl, rfl⟩)
  · have hrest : Keeps I I (do
        Node.updateNodeEnv
        Effect.when (u.newValues.isEmpty = false) (Node.updateParams status before)) :=
      Keeps.bind (updateNodeEnv_keeps hI.toPlaced) fun _ => Keeps.when (hI.updateParams status before)
    refine Keeps.bind (hI.modifyState fun _ => ⟨rfl, rfl, rfl⟩) fun _ => ?_
    cases u.newFirewall with
    | some config => exact Keeps.bind (hI.updateFirewall config) fun _ => hrest
    | none => exact Keeps.bind hI.save fun _ => hrest

theorem Lasting.renameNode (hI : Lasting I) (newName newDnsName : String) :
    Keeps I I (NodesManager.renameNode newName newDnsName) :=
  Keeps.bind (lift_keeps (hI.modifyState fun _ => ⟨rfl, rfl, rfl⟩)) fun _ => lift_keeps hI.save

/-! ## Calls -/

/-- A stop by the operator. -/
theorem managerStop_keeps (hI : Working I) (hfinished : ∀ n, I n → I { n with unfinished := false }) (force : Bool) :
    Keeps I I (NodesManager.stop force) := by
  refine Keeps.bind Keeps.gets fun _ => Keeps.bind (Keeps.when (lift_keeps (stop_keeps hI.toFramed force))) fun _ => ?_
  exact Keeps.modify hfinished

/-- A call that is no upgrade. -/
theorem call_keeps (hI : Working I) (hfinished : ∀ n, I n → I { n with unfinished := false }) {call : NodeCall}
    (hcall : ∀ desired version requirements, call ≠ .upgrade desired version requirements) : Keeps I I call.run := by
  cases call with
  | start reload => exact managerStart_keeps hI reload
  | stop force => exact managerStop_keeps hI hfinished force
  | restart force => exact lift_keeps (restart_keeps hI force)
  | upgrade desired version requirements => exact absurd rfl (hcall _ _ _)
  | recover => exact lift_keeps (managerRecover_keeps hI)

end

end Node

end Blockvisor
