/-
What a node does with the cores of its host. A state lays claim to the cores
assigned to it, and to those that an upgrade under way has released and keeps
for its rollback; a daemon that starts marks just these as taken.

`Accounts pool` says that the free cores and those the node lays claim to come
to `pool`, core by core. Every operation keeps it, whatever fails in it
(`upgrade_accounts`, `create_accounts`, `delete_accounts`), but for one exit: a
rollback that fails forgets the cores that the upgrade had released. What is on
file, whenever the daemon dies, lays claim to cores of the pool only.
-/
import Blockvisor.Bv.UpgradeRecord

namespace Blockvisor

open Effect

/-! ## Claims -/

/-- The cores that are the node's, as the daemon finds it. -/
def NodeState.claims (st : NodeState) : List Nat := st.assignedCpus ++ Node.heldCpus st

/-- Steps that say that cores were acquired, and nothing else. -/
def Acquisitions (steps : List UpgradeStep) : Prop := ∀ step ∈ steps, ∃ origLen, step = .cpuAssignment (.acquiredCpus origLen)

/-- The steps about cores: at most one says that some were released, and it is the first. -/
inductive CoresLogged : List UpgradeStep → Prop
  | acquired {steps : List UpgradeStep} : Acquisitions steps → CoresLogged steps
  | released {steps : List UpgradeStep} (cpus : List Nat) : Acquisitions steps →
      CoresLogged (.cpuAssignment (.releasedCpus cpus) :: steps)

/-- What is on record of the cores when an upgrade is under way: until it is found to fail, a node with a
record has no more cores than it is to have. -/
structure NodeState.LogsCores (st : NodeState) : Prop where
  logged : CoresLogged st.upgradeState.cpuSteps
  few : st.upgradeState.needRollback = none → st.upgradeState.cpuSteps ≠ [] → st.assignedCpus.length ≤ st.vmConfig.vcpuCount

def NodeState.Logs (st : NodeState) : Prop := st.upgradeState.active = true → st.LogsCores

theorem acquisitions_nil : Acquisitions [] := fun _ h => by cases h

theorem Acquisitions.concat {steps : List UpgradeStep} (h : Acquisitions steps) (origLen : Nat) :
    Acquisitions (steps ++ [.cpuAssignment (.acquiredCpus origLen)]) := by
  intro step hstep
  rcases List.mem_append.mp hstep with hin | hlast
  · exact h step hin
  · exact ⟨origLen, List.mem_singleton.mp hlast⟩

theorem Acquisitions.perm {steps steps' : List UpgradeStep} (h : Acquisitions steps) (hperm : steps'.Perm steps) :
    Acquisitions steps' :=
  fun step hstep => h step (hperm.mem_iff.mp hstep)

theorem CoresLogged.concat {steps : List UpgradeStep} (h : CoresLogged steps) (origLen : Nat) :
    CoresLogged (steps ++ [.cpuAssignment (.acquiredCpus origLen)]) := by
  cases h with
  | acquired hall => exact .acquired (hall.concat origLen)
  | released cpus hall => exact .released cpus (hall.concat origLen)

def NodeOp.Upgrades : NodeOp → Prop
  | .call (.upgrade ..) => True
  | _ => False

namespace Node

theorem releasedCpus_filter (steps : List UpgradeStep) : releasedCpus (steps.filter (·.isCpuAssignment)) = releasedCpus steps := by
  unfold releasedCpus
  rw [List.find?_filter]
  simp

theorem releasedCpus_acquired {l : List UpgradeStep} (h : Acquisitions (l.filter (·.isCpuAssignment))) :
    releasedCpus l = [] := by
  rw [← releasedCpus_filter]
  unfold releasedCpus
  cases hfind : (l.filter (·.isCpuAssignment)).find? (·.isCpuAssignment) with
  | none => rfl
  | some step =>
    obtain ⟨origLen, rfl⟩ := h step (List.mem_of_find?_eq_some hfind)
    rfl

theorem releasedCpus_released {steps rest : List UpgradeStep} {cpus : List Nat}
    (h : steps.filter (·.isCpuAssignment) = UpgradeStep.cpuAssignment (.releasedCpus cpus) :: rest) : releasedCpus steps = cpus := by
  rw [← releasedCpus_filter, h]
  rfl

/-- A record that is about as many cores as before. -/
theorem releasedCpus_concat {steps : List UpgradeStep} (h : CoresLogged (steps.filter (·.isCpuAssignment))) (origLen : Nat) :
    releasedCpus (steps ++ [.cpuAssignment (.acquiredCpus origLen)]) = releasedCpus steps := by
  have hfilter : (steps ++ [UpgradeStep.cpuAssignment (.acquiredCpus origLen)]).filter (·.isCpuAssignment) =
      steps.filter (·.isCpuAssignment) ++ [.cpuAssignment (.acquiredCpus origLen)] := by
    rw [List.filter_append]
    rfl
  generalize hlogged : steps.filter (·.isCpuAssignment) = cpuSteps at h hfilter
  cases h with
  | acquired hall =>
    have hbefore : releasedCpus steps = [] := releasedCpus_acquired (by rw [hlogged]; exact hall)
    have hafter : releasedCpus (steps ++ [.cpuAssignment (.acquiredCpus origLen)]) = [] :=
      releasedCpus_acquired (by rw [hfilter]; exact hall.concat origLen)
    rw [hbefore, hafter]
  | released cpus hall => rw [releasedCpus_released hlogged, releasedCpus_released hfilter]

/-! ## The account -/

/-- What is on file lays claim to cores of the pool. -/
def Known (pool : Nat → Nat) (n : Node) : Prop := n.file.Holds fun st => st.Logs ∧ ∀ c, st.claims.count c ≤ pool c

/-- The free cores and those of the node come to the pool. -/
structure Accounts (pool : Nat → Nat) (n : Node) : Prop where
  cores : ∀ c, n.registry.count c + n.state.claims.count c = pool c
  logs : n.state.Logs
  known : n.Known pool

/-- Some cores of the pool may be neither free nor the node's. -/
structure Falls (pool : Nat → Nat) (n : Node) : Prop where
  cores : ∀ c, n.registry.count c + n.state.claims.count c ≤ pool c
  logs : n.state.Logs
  known : n.Known pool

/-- With a condition on what is on record, and on the cores. -/
structure Amid (pool : Nat → Nat) (Q : UpgradeState → List Nat → Prop) (n : Node) : Prop extends Accounts pool n where
  amid : Q n.state.upgradeState n.state.assignedCpus

variable {pool : Nat → Nat}

theorem Accounts.fit {n : Node} (h : n.Accounts pool) : n.state.Logs ∧ ∀ c, n.state.claims.count c ≤ pool c :=
  ⟨h.logs, fun c => by have hc := h.cores c; omega⟩

theorem Accounts.falls {n : Node} (h : n.Accounts pool) : n.Falls pool := ⟨fun c => Nat.le_of_eq (h.cores c), h.logs, h.known⟩

theorem Falls.fit {n : Node} (h : n.Falls pool) : n.state.Logs ∧ ∀ c, n.state.claims.count c ≤ pool c :=
  ⟨h.logs, fun c => by have hc := h.cores c; omega⟩

theorem claims_same {st st' : NodeState} (h : SameRecord st st') : st'.claims = st.claims := by
  unfold NodeState.claims heldCpus
  rw [h.upgradeState, h.assignedCpus]

theorem logs_same {st st' : NodeState} (h : SameRecord st st') (hlogs : st.Logs) : st'.Logs := by
  intro hactive
  rw [h.upgradeState] at hactive
  obtain ⟨hlogged, hfew⟩ := hlogs hactive
  rw [← h.upgradeState] at hlogged hfew
  rw [← h.assignedCpus, ← h.vmConfig] at hfew
  exact ⟨hlogged, hfew⟩

theorem amid_lasting {Q : UpgradeState → List Nat → Prop} : Lasting (Amid pool Q) where
  site := fun _ _ h => ⟨⟨h.cores, h.logs, h.known⟩, h.amid⟩
  saved := fun _ _ _ hafter h => ⟨⟨h.cores, h.logs, hafter _ h.known h.fit⟩, h.amid⟩
  state := fun n st hsame h => by
    refine ⟨⟨fun c => ?_, logs_same hsame h.logs, h.known⟩, ?_⟩
    · show n.registry.count c + st.claims.count c = pool c
      rw [claims_same hsame]
      exact h.cores c
    · show Q st.upgradeState st.assignedCpus
      rw [hsame.upgradeState, hsame.assignedCpus]
      exact h.amid
  ready := fun _ _ h => ⟨⟨h.cores, h.logs, h.known⟩, h.amid⟩
  told := fun _ _ h => ⟨⟨h.cores, h.logs, h.known⟩, h.amid⟩
  unfinished := fun _ _ h => ⟨⟨h.cores, h.logs, h.known⟩, h.amid⟩

theorem accounts_lasting : Lasting (Accounts pool) where
  site := fun _ _ h => ⟨h.cores, h.logs, h.known⟩
  saved := fun _ _ _ hafter h => ⟨h.cores, h.logs, hafter _ h.known h.fit⟩
  state := fun n st hsame h => ((@amid_lasting pool fun _ _ => True).state n st hsame ⟨h, trivial⟩).toAccounts
  ready := fun _ _ h => ⟨h.cores, h.logs, h.known⟩
  told := fun _ _ h => ⟨h.cores, h.logs, h.known⟩
  unfinished := fun _ _ h => ⟨h.cores, h.logs, h.known⟩

theorem claims_active {s : NodeState} (h : s.upgradeState.active = true) (c : Nat) :
    s.claims.count c = s.assignedCpus.count c + (releasedCpus s.upgradeState.steps).count c := by
  unfold NodeState.claims heldCpus
  rw [if_pos h, List.count_append]

theorem claims_over {s : NodeState} (h : s.upgradeState.active = false) : s.claims = s.assignedCpus := by
  unfold NodeState.claims heldCpus
  rw [h]
  exact List.append_nil _

/-! ## An upgrade on its way -/

/-- An upgrade is under way, and was not found to fail. -/
structure OnItsWay (u : UpgradeState) (_cpus : List Nat) : Prop where
  active : u.active = true
  needRollback : u.needRollback = none

/-- A node with too many cores has no record of others; those it gives up are kept on record. -/
theorem Amid.releasing {n : Node} (h : n.Amid pool OnItsWay) (hmore : n.state.vmConfig.vcpuCount < n.state.assignedCpus.length) :
    n.releasing.Amid pool OnItsWay := by
  obtain ⟨hlogged, hfew⟩ := h.logs h.amid.active
  have hnone : n.state.upgradeState.cpuSteps = [] := by
    refine Decidable.byContradiction fun hne => ?_
    have hlen := hfew h.amid.needRollback hne
    omega
  have hsteps : n.releasing.state.upgradeState.cpuSteps =
      [.cpuAssignment (.releasedCpus (n.state.assignedCpus.drop n.state.vmConfig.vcpuCount))] := by
    unfold UpgradeState.cpuSteps at hnone ⊢
    unfold Node.releasing
    dsimp only
    rw [List.filter_append, hnone]
    rfl
  refine ⟨⟨fun c => ?_, fun _ => ⟨?_, fun _ _ => ?_⟩, h.known⟩, h.amid.active, h.amid.needRollback⟩
  · have hbefore := h.cores c
    rw [claims_active h.amid.active, releasedCpus_acquired (by rw [← UpgradeState.cpuSteps, hnone]; exact acquisitions_nil)] at hbefore
    rw [claims_active (s := n.releasing.state) h.amid.active, releasedCpus_released hsteps]
    show n.registry.count c + ((n.state.assignedCpus.take n.state.vmConfig.vcpuCount).count c +
      (n.state.assignedCpus.drop n.state.vmConfig.vcpuCount).count c) = pool c
    rw [← List.count_append, List.take_append_drop]
    simpa using hbefore
  · rw [hsteps]
    exact .released _ acquisitions_nil
  · show (n.state.assignedCpus.take n.state.vmConfig.vcpuCount).length ≤ n.state.vmConfig.vcpuCount
    rw [List.length_take]
    omega

/-- A node with too few cores gets as many as are free for it, or none. -/
theorem Amid.acquiring {n : Node} (h : n.Amid pool OnItsWay) {more : List Nat} {registry : CpuRegistry}
    (hregistry : registry ++ more = n.registry)
    (hlen : n.state.assignedCpus.length + more.length ≤ n.state.vmConfig.vcpuCount) :
    (n.acquiring more registry).Amid pool OnItsWay := by
  obtain ⟨hlogged, -⟩ := h.logs h.amid.active
  have hsteps : (n.acquiring more registry).state.upgradeState.cpuSteps =
      n.state.upgradeState.cpuSteps ++ [.cpuAssignment (.acquiredCpus n.state.assignedCpus.length)] := by
    unfold UpgradeState.cpuSteps Node.acquiring
    dsimp only
    rw [List.filter_append]
    rfl
  refine ⟨⟨fun c => ?_, fun _ => ⟨?_, fun _ _ => ?_⟩, h.known⟩, h.amid.active, h.amid.needRollback⟩
  · have hbefore := h.cores c
    rw [claims_active h.amid.active, ← hregistry, List.count_append] at hbefore
    rw [claims_active (s := (n.acquiring more registry).state) h.amid.active]
    show registry.count c + ((n.state.assignedCpus ++ more).count c +
      (releasedCpus (n.state.upgradeState.steps ++ [.cpuAssignment (.acquiredCpus n.state.assignedCpus.length)])).count c) = pool c
    rw [releasedCpus_concat hlogged, List.count_append]
    omega
  · rw [hsteps]
    exact hlogged.concat _
  · show (n.state.assignedCpus ++ more).length ≤ n.state.vmConfig.vcpuCount
    rw [List.length_append]
    exact hlen

theorem assignCpus_amid : Keeps (Amid pool OnItsWay) (Amid pool OnItsWay) assignCpus := by
  have hsave := (@amid_lasting pool OnItsWay).save
  intro n h
  rw [assignCpus_eq]
  by_cases hlen : n.state.assignedCpus.length = n.state.vmConfig.vcpuCount
  · rw [if_pos hlen]
    exact h
  rw [if_neg hlen]
  by_cases hmore : n.state.vmConfig.vcpuCount < n.state.assignedCpus.length
  · rw [if_pos hmore]
    exact hsave _ (h.releasing hmore)
  · rw [if_neg hmore]
    cases hacquire : n.registry.acquire (n.state.vmConfig.vcpuCount - n.state.assignedCpus.length) with
    | error err => exact h.acquiring (List.append_nil _) (by simp; omega)
    | ok r =>
      obtain ⟨hregistry, hcount⟩ := CpuRegistry.acquire_ok hacquire
      exact hsave _ (h.acquiring hregistry (by omega))

/-- Another state with the same record of its cores. A change of what tells whether it has too many matters
only where there is something on record. -/
theorem Accounts.restate {n : Node} (h : n.Accounts pool) {s : NodeState}
    (hactive : s.upgradeState.active = n.state.upgradeState.active)
    (hsteps : s.upgradeState.cpuSteps = n.state.upgradeState.cpuSteps) (hcpus : s.assignedCpus = n.state.assignedCpus)
    (hfew : s.upgradeState.needRollback = none → s.upgradeState.cpuSteps ≠ [] →
      n.state.upgradeState.needRollback = none ∧ s.vmConfig = n.state.vmConfig) :
    Accounts pool { n with state := s } := by
  have hreleased : releasedCpus s.upgradeState.steps = releasedCpus n.state.upgradeState.steps := by
    rw [← releasedCpus_filter s.upgradeState.steps, ← releasedCpus_filter n.state.upgradeState.steps]
    exact congrArg releasedCpus hsteps
  have hclaims : s.claims = n.state.claims := by
    unfold NodeState.claims heldCpus
    rw [hactive, hreleased, hcpus]
  refine ⟨fun c => ?_, fun hnow => ?_, h.known⟩
  · show n.registry.count c + s.claims.count c = pool c
    rw [hclaims]
    exact h.cores c
  · obtain ⟨hlogged, hless⟩ := h.logs (hactive.symm.trans hnow)
    refine ⟨hsteps ▸ hlogged, fun hnone hne => ?_⟩
    obtain ⟨hforward, hvm⟩ := hfew hnone hne
    rw [hsteps] at hne
    show s.assignedCpus.length ≤ s.vmConfig.vcpuCount
    rw [hcpus, hvm]
    exact hless hforward hne

theorem upgradeStep_amid {step : UpgradeStep} (hother : step.isCpuAssignment = false) {m : NodeM (Except String Unit)}
    (hm : Keeps (Amid pool OnItsWay) (Amid pool OnItsWay) m) :
    Keeps (Amid pool OnItsWay) (Amid pool OnItsWay) (upgradeStep step m) := by
  refine Triple.bind Triple.gets fun inserted => ?_
  refine Triple.bind (R := fun _ => Amid pool OnItsWay) (Triple.modify fun n h => ?_) fun _ => Keeps.when ?_
  · obtain ⟨rfl, hn⟩ := h
    have hinsert := UpgradeState.cpuSteps_insert n.state.upgradeState hother
    obtain ⟨steps, hsteps⟩ := UpgradeState.insertStep_steps n.state.upgradeState step
    rw [hsteps] at hinsert
    simp only [hsteps]
    exact ⟨hn.restate (s := { n.state with upgradeState := _ }) rfl hinsert rfl fun hnone _ => ⟨hnone, rfl⟩,
      hn.amid.active, hn.amid.needRollback⟩
  · exact Keeps.bind hm fun _ => Keeps.bind amid_lasting.save fun _ => Keeps.ofExcept

theorem tryUpgrade_amid : Keeps (Amid pool OnItsWay) (Amid pool OnItsWay) tryUpgrade := by
  have hI := @amid_lasting pool OnItsWay
  refine Keeps.bind assignCpus_amid fun _ => ?_
  refine Keeps.bind (upgradeStep_amid rfl (Keeps.bind Keeps.gets fun _ => hI.onSite.attempt)) fun _ => ?_
  refine Keeps.bind (upgradeStep_amid rfl ?_) fun _ => ?_
  · exact Keeps.bind (adoptNodeInfo_keeps hI.toPlaced) fun _ => (adoptPlugin_keeps hI.toPlaced).attempt
  · refine Keeps.bind (upgradeStep_amid rfl (replaceFirewall_keeps hI.toPlaced).attempt) fun _ => ?_
    exact startAgain_keeps hI.working

/-! ## A rollback -/

/-- An upgrade is under way, and was found to fail. -/
structure GoesBack (u : UpgradeState) (_cpus : List Nat) : Prop where
  active : u.active = true
  needRollback : u.needRollback.isSome = true

/-- It keeps no cores any more. -/
structure GaveBack (u : UpgradeState) (cpus : List Nat) : Prop extends GoesBack u cpus where
  acquired : Acquisitions u.cpuSteps

/-- What the first step about cores can be, and what is on record without it. -/
theorem logged_cases {u : UpgradeState} (h : CoresLogged u.cpuSteps) :
    (u.steps.find? (·.isCpuAssignment) = none ∧ Acquisitions u.cpuSteps) ∨
      ∃ step, u.steps.find? (·.isCpuAssignment) = some step ∧
        Acquisitions (UpgradeState.cpuSteps { u with steps := swapRemove u.steps (u.steps.findIdx (·.isCpuAssignment)) }) ∧
          ((∃ origLen, step = .cpuAssignment (.acquiredCpus origLen) ∧ releasedCpus u.steps = []) ∨
            ∃ cpus, step = .cpuAssignment (.releasedCpus cpus) ∧ releasedCpus u.steps = cpus) := by
  obtain ⟨hfind, hnil⟩ | ⟨step, hfind, hperm⟩ := u.find_cpuStep
  · exact .inl ⟨hfind, hnil ▸ acquisitions_nil⟩
  have hhead : u.cpuSteps.head? = some step := by
    rw [UpgradeState.cpuSteps, List.head?_filter]
    exact hfind
  refine .inr ⟨step, hfind, ?_⟩
  generalize hsteps : u.cpuSteps = steps at h hperm hhead
  cases h with
  | acquired hall =>
    obtain ⟨origLen, rfl⟩ := hall step (hperm.mem_iff.mp (List.mem_cons_self ..))
    refine ⟨fun other hother => hall other (hperm.mem_iff.mp (List.mem_cons_of_mem _ hother)), .inl ⟨origLen, rfl, ?_⟩⟩
    exact releasedCpus_acquired (by rw [← UpgradeState.cpuSteps, hsteps]; exact hall)
  | released cpus hall =>
    cases hhead
    exact ⟨hall.perm hperm.cons_inv, .inr ⟨cpus, rfl, releasedCpus_released hsteps⟩⟩

/-- The cores that are undone change hands between the node and the registry, or stay the node's. -/
theorem Amid.undo {n : Node} (h : n.Amid pool GoesBack) {step : UpgradeStep}
    (hsteps : Acquisitions (UpgradeState.cpuSteps
      { n.state.upgradeState with steps := swapRemove n.state.upgradeState.steps (n.state.upgradeState.steps.findIdx (·.isCpuAssignment)) }))
    (hstep : (∃ origLen, step = .cpuAssignment (.acquiredCpus origLen) ∧ releasedCpus n.state.upgradeState.steps = []) ∨
      ∃ cpus, step = .cpuAssignment (.releasedCpus cpus) ∧ releasedCpus n.state.upgradeState.steps = cpus) :
    (n.undoCpus step).Amid pool GaveBack := by
  have hback : ∀ {st : NodeState}, st.upgradeState.needRollback = n.state.upgradeState.needRollback →
      CoresLogged st.upgradeState.cpuSteps → st.Logs := fun hneed hlogged _ =>
    ⟨hlogged, fun hnone => by
      have hsome := h.amid.needRollback
      rw [← hneed, hnone] at hsome
      cases hsome⟩
  have hheld := releasedCpus_acquired hsteps
  dsimp only at hheld
  obtain ⟨origLen, rfl, hnone⟩ | ⟨cpus, rfl, hcpus⟩ := hstep
  · refine ⟨⟨fun c => ?_, hback rfl (.acquired hsteps), h.known⟩, ⟨h.amid.active, h.amid.needRollback⟩, hsteps⟩
    have hbefore := h.cores c
    rw [claims_active h.amid.active, hnone, ← List.take_append_drop origLen n.state.assignedCpus, List.count_append] at hbefore
    rw [claims_active (s := (n.undoCpus (.cpuAssignment (.acquiredCpus origLen))).state) h.amid.active]
    show (n.registry ++ n.state.assignedCpus.drop origLen).count c + ((n.state.assignedCpus.take origLen).count c +
      (releasedCpus (swapRemove n.state.upgradeState.steps (n.state.upgradeState.steps.findIdx (·.isCpuAssignment)))).count c) = pool c
    rw [hheld, List.count_append]
    omega
  · refine ⟨⟨fun c => ?_, hback rfl (.acquired hsteps), h.known⟩, ⟨h.amid.active, h.amid.needRollback⟩, hsteps⟩
    have hbefore := h.cores c
    rw [claims_active h.amid.active, hcpus] at hbefore
    rw [claims_active (s := (n.undoCpus (.cpuAssignment (.releasedCpus cpus))).state) h.amid.active]
    show n.registry.count c + ((n.state.assignedCpus ++ cpus).count c +
      (releasedCpus (swapRemove n.state.upgradeState.steps (n.state.upgradeState.steps.findIdx (·.isCpuAssignment)))).count c) = pool c
    rw [hheld, List.count_append]
    simpa using hbefore

theorem rollbackCpus_amid :
    Triple (Amid pool GoesBack) rollbackCpus (fun _ => Amid pool GaveBack) (atExit (Amid pool GaveBack) (Amid pool GaveBack)) := by
  have hsave := (@amid_lasting pool GaveBack).save
  intro n h
  rw [rollbackCpus_eq]
  obtain ⟨hfind, hnone⟩ | ⟨step, hfind, hsteps, hstep⟩ := logged_cases (h.logs h.amid.active).logged
  · rw [hfind]
    exact ⟨h.toAccounts, h.amid, hnone⟩
  · rw [hfind]
    exact hsave _ (h.undo hsteps hstep)

/-- A step that is not about cores, undone. -/
theorem rollbackStep_amid {step : UpgradeStep} (hother : step.isCpuAssignment = false) {m : NodeM Unit}
    (hm : ∀ {I : Node → Prop}, Placed I → Keeps I I m) :
    Keeps (Amid pool GaveBack) (Amid pool GaveBack) (rollbackStep step m) := by
  have hI := @amid_lasting pool GaveBack
  have hsame : ∀ steps, Placed fun n => steps = n.state.upgradeState.steps ∧ n.Amid pool GaveBack := fun steps =>
    { site := fun _ site h => ⟨h.1, hI.site _ site h.2⟩
      saved := fun _ file saves hafter h => ⟨h.1, hI.saved _ file saves hafter h.2⟩ }
  refine Triple.bind Triple.gets fun steps => Triple.when (fun hmem => ?_) fun _ _ h => h.2
  refine Triple.bind ((hm (hsame steps)).exit fun e n h => by cases e <;> exact h.2) fun _ => ?_
  refine Triple.bind (R := fun _ => Amid pool GaveBack) (Triple.modify fun n h => ?_) fun _ => hI.save
  obtain ⟨rfl, hn⟩ := h
  have hacquired := hn.amid.acquired.perm (UpgradeState.cpuSteps_other hmem hother)
  refine ⟨⟨fun c => ?_, fun _ => ⟨.acquired hacquired, fun hnone => ?_⟩, hn.known⟩, ⟨hn.amid.active, hn.amid.needRollback⟩, hacquired⟩
  · have hbefore := hn.cores c
    rw [claims_active hn.amid.active, releasedCpus_acquired hn.amid.acquired] at hbefore
    have hafter := claims_active (s := { n.state with
      upgradeState.steps := swapRemove n.state.upgradeState.steps (n.state.upgradeState.steps.idxOf step) }) hn.amid.active c
    rw [releasedCpus_acquired hacquired] at hafter
    exact (congrArg (n.registry.count c + ·) hafter).trans hbefore
  · have hsome := hn.amid.needRollback
    rw [hnone] at hsome
    cases hsome

theorem tryRollback_amid :
    Triple (Amid pool GoesBack) tryRollback (fun _ => Amid pool GaveBack)
      (atExit (Amid pool GoesBack) (Amid pool GoesBack)) := by
  have hbegin := @amid_lasting pool GoesBack
  have hI := @amid_lasting pool GaveBack
  have hexit : ∀ (e : Exit String) n, atExit (Amid pool GaveBack) (Amid pool GaveBack) e n →
      atExit (Amid pool GoesBack) (Amid pool GoesBack) e n := by
    intro e n h
    cases e with
    | error e => exact ⟨h.toAccounts, h.amid.toGoesBack⟩
    | killed => exact ⟨h.toAccounts, h.amid.toGoesBack⟩
  refine Triple.bind (status_keeps hbegin.toPlaced) fun _ => ?_
  refine Triple.bind (Keeps.when (stop_keeps hbegin.working.toFramed true)) fun _ => ?_
  refine Triple.bind (rollbackCpus_amid.exit hexit) fun _ => Triple.exit ?_ hexit
  refine Keeps.bind (rollbackStep_amid rfl fun hP => hP.onSite) fun _ => ?_
  refine Keeps.bind (rollbackStep_amid rfl fun hP => ?_) fun _ => ?_
  · exact Keeps.bind (adoptNodeInfo_keeps hP) fun _ => adoptPlugin_keeps hP
  · exact Keeps.bind (rollbackStep_amid rfl fun hP => replaceFirewall_keeps hP) fun _ => startAgain_keeps hI.working

/-! ## What an upgrade comes to -/

/-- The rollback of an upgrade has failed: the node is to be fixed by hand. -/
structure GivenUp (st : NodeState) : Prop where
  active : st.upgradeState.active = false
  failed : st.expectedStatus = .failed

/-- What is left of the pool when an upgrade ends early. -/
def upgradeLeaves (pool : Nat → Nat) : Exit CommandError → Node → Prop
  | .killed, n => n.Known pool
  | .error _, n => n.Accounts pool ∨ (n.Falls pool ∧ GivenUp n.state)

/-- Work that keeps the account, as part of an upgrade. -/
theorem lift_leaves {α : Type} {P : Node → Prop} {m : NodeM α} {Q : α → Node → Prop}
    (h : Triple P m Q (atExit (Accounts pool) (Known pool))) : Triple P (lift m) Q (upgradeLeaves pool) :=
  Triple.mapError (h.exit fun e n hn => by
    cases e with
    | error e => exact .inl hn
    | killed => exact hn)

theorem exit_amid {Q Q' : UpgradeState → List Nat → Prop} (e : Exit String) (n : Node)
    (h : atExit (Amid pool Q) (Amid pool Q') e n) : atExit (Accounts pool) (Known pool) e n := by
  cases e with
  | error e => exact h.toAccounts
  | killed => exact h.known

theorem exit_accounts (e : Exit String) (n : Node) (h : atExit (Accounts pool) (Accounts pool) e n) :
    atExit (Accounts pool) (Known pool) e n := by
  cases e with
  | error e => exact h
  | killed => exact h.known

/-- An upgrade that is over keeps no cores. -/
theorem Amid.closed {n : Node} {Q : UpgradeState → List Nat → Prop} (h : n.Amid pool Q) (hactive : n.state.upgradeState.active = true)
    (hnone : releasedCpus n.state.upgradeState.steps = []) :
    Accounts pool { n with state.upgradeState.active := false } where
  cores := fun c => by
    have hbefore := h.cores c
    rw [claims_active hactive, hnone] at hbefore
    rw [claims_over (s := { n.state with upgradeState.active := false }) rfl]
    exact hbefore
  logs := fun hfalse => by cases hfalse
  known := h.known

theorem Amid.fails {n : Node} {Q : UpgradeState → List Nat → Prop} (h : n.Amid pool Q) (hactive : n.state.upgradeState.active = true) :
    Falls pool { n with state.upgradeState.active := false } where
  cores := fun c => by
    have hbefore := h.cores c
    rw [claims_active hactive] at hbefore
    rw [claims_over (s := { n.state with upgradeState.active := false }) rfl]
    show n.registry.count c + n.state.assignedCpus.count c ≤ pool c
    omega
  logs := fun hfalse => by cases hfalse
  known := h.known

theorem givenUp_placed : Placed fun n => n.Falls pool ∧ GivenUp n.state where
  site := fun _ _ h => ⟨⟨h.1.cores, h.1.logs, h.1.known⟩, h.2⟩
  saved := fun _ _ _ hafter h => ⟨⟨h.1.cores, h.1.logs, hafter _ h.1.known h.1.fit⟩, h.2⟩

theorem rollback_accounts (err : String) :
    Triple (Amid pool GoesBack) (rollback err) (fun _ => Accounts pool) (upgradeLeaves pool) := by
  have htry : Triple (Amid pool GoesBack) (lift (attempt tryRollback))
      (attempted (fun _ => Amid pool GaveBack) (Amid pool GoesBack)) (upgradeLeaves pool) := by
    refine lift_leaves (Triple.attempt (tryRollback_amid.exit fun e n h => ?_))
    cases e with
    | error e => exact h
    | killed => exact h.known
  refine Triple.bind htry fun res => ?_
  cases res with
  | error rollbackErr =>
    have hI := @givenUp_placed pool
    refine Triple.bind (R := fun _ n => n.Falls pool ∧ n.state.upgradeState.active = false)
      (Triple.mapError (Triple.modify fun n h => ⟨h.fails h.amid.active, rfl⟩)) fun _ => ?_
    refine Triple.bind (R := fun _ n => n.Falls pool ∧ GivenUp n.state) ?_ fun _ => Triple.throw fun n h => .inr h
    refine Triple.mapError (Triple.bind (R := fun _ n => n.Falls pool ∧ GivenUp n.state) (Triple.modify fun n h => ?_) fun _ => ?_)
    · exact ⟨⟨h.1.cores, fun hactive => (Bool.false_ne_true (h.2.symm.trans hactive)).elim, h.1.known⟩, h.2, rfl⟩
    · refine hI.save.exit fun e n h => ?_
      cases e with
      | error e => exact .inr h
      | killed => exact h.1.known
  | ok a =>
    refine Triple.bind (R := fun _ => Accounts pool) (Triple.mapError (Triple.modify fun n h => ?_)) fun _ => ?_
    · exact h.closed h.amid.active (releasedCpus_acquired h.amid.acquired)
    · refine Triple.bind (lift_leaves (accounts_lasting.save.exit exit_accounts)) fun _ => ?_
      exact Triple.throw fun n h => .inl h

theorem revertUpgrade_accounts (err : String) :
    Triple (Amid pool OnItsWay) (revertUpgrade err) (fun _ => Accounts pool) (upgradeLeaves pool) := by
  have hI := @amid_lasting pool OnItsWay
  unfold revertUpgrade
  refine Triple.bind (lift_leaves (hI.onSite.exit exit_amid)) fun stamp => Triple.bind Triple.gets fun u => ?_
  split
  · exact Triple.throw fun n h => .inl h.2.toAccounts
  · cases u.stateBackup with
    | none => exact Triple.throw fun n h => .inl h.2.toAccounts
    | some backup =>
      refine Triple.bind (R := fun _ => Amid pool GoesBack) (lift_leaves ?_) fun _ => rollback_accounts err
      refine Triple.bind (R := fun _ n => ∃ m : Node, m.Amid pool OnItsWay ∧ n = { m with state := swapBackup backup m.state })
        (Triple.modify fun n h => ⟨n, h.2, rfl⟩) fun _ => ?_
      refine Triple.bind (R := fun _ => Amid pool GoesBack) (Triple.modify fun n h => ?_) fun _ => ?_
      · obtain ⟨m, hm, rfl⟩ := h
        refine ⟨hm.restate (s := { swapBackup backup m.state with upgradeState := _ }) rfl rfl rfl fun hnone _ => ?_,
          hm.amid.active, rfl⟩
        cases hnone
      · exact amid_lasting.save.exit exit_amid

/-- The cores released by a finished upgrade are free again, and still on its record. -/
structure Finishing (pool : Nat → Nat) (n : Node) : Prop where
  cores : ∀ c, n.registry.count c + n.state.assignedCpus.count c = pool c
  fit : n.state.Logs ∧ ∀ c, n.state.claims.count c ≤ pool c
  known : n.Known pool

theorem finishing_placed : Placed (Finishing pool) where
  site := fun _ _ h => ⟨h.cores, h.fit, h.known⟩
  saved := fun _ _ _ hafter h => ⟨h.cores, h.fit, hafter _ h.known h.fit⟩

theorem finishUpgrade_accounts :
    Triple (Amid pool OnItsWay) finishUpgrade (fun _ => Accounts pool) (atExit (Accounts pool) (Known pool)) := by
  have hI := @finishing_placed pool
  refine Triple.bind Triple.gets fun steps => ?_
  refine Triple.bind (R := fun _ => Finishing pool) (Triple.modify fun n h => ?_) fun _ => ?_
  · obtain ⟨rfl, hn⟩ := h
    refine ⟨fun c => ?_, hn.fit, hn.known⟩
    have hbefore := hn.cores c
    rw [claims_active hn.amid.active] at hbefore
    show (n.registry ++ releasedCpus n.state.upgradeState.steps).count c + n.state.assignedCpus.count c = pool c
    rw [List.count_append]
    omega
  refine Triple.bind (R := fun _ => Finishing pool) (Triple.when (fun _ => ?_) fun _ _ h => h) fun _ => ?_
  · refine Triple.bind (R := fun _ => Finishing pool) (Triple.attempt (hI.onSite.exit fun e n h => ?_)) fun _ => Triple.pure fun _ h => h
    cases e with
    | error e => exact h
    | killed => exact h.known
  refine Triple.bind (R := fun _ => Accounts pool) (Triple.modify fun n h => ?_) fun _ => accounts_lasting.save.exit exit_accounts
  refine ⟨fun c => ?_, fun hfalse => (by cases hfalse), h.known⟩
  rw [claims_over (s := { n.state with upgradeState.active := false }) rfl]
  exact h.cores c

/-! ## The start of an upgrade -/

/-- Nothing is on record, and it is not under way. -/
structure Clear (u : UpgradeState) (_cpus : List Nat) : Prop where
  active : u.active = false
  needRollback : u.needRollback = none
  steps : u.cpuSteps = []

/-- Nothing of the cores is on record yet. -/
structure Opened (u : UpgradeState) (cpus : List Nat) : Prop extends OnItsWay u cpus where
  steps : u.cpuSteps = []

theorem beginUpgrade_amid (status : VmStatus) (desired : NodeState) :
    Triple (fun n => n.Accounts pool ∧ n.state.upgradeState.active = false) (beginUpgrade status desired)
      (fun _ => Amid pool OnItsWay) (upgradeLeaves pool) := by
  have hI := @amid_lasting pool Clear
  have hopen := @amid_lasting pool Opened
  unfold beginUpgrade
  refine Triple.bind (R := fun _ => Amid pool Clear) (Triple.mapError (Triple.modify fun n h => ?_)) fun _ => ?_
  · refine ⟨⟨fun c => ?_, fun hfalse => (by cases hfalse), h.1.known⟩, rfl, rfl, rfl⟩
    have hbefore := h.1.cores c
    rw [claims_over h.2] at hbefore
    rw [claims_over (s := { n.state with upgradeState := default }) rfl]
    exact hbefore
  refine Triple.bind (R := fun _ => Amid pool Clear) ?_ fun _ => lift_leaves ?_
  · refine (checkBlockingJob_keeps hI.toPlaced status).exit fun e n h => ?_
    cases e with
    | error e => exact .inl h.toAccounts
    | killed => exact h.known
  have hstop : Keeps (Amid pool Clear) (Amid pool Clear) (Effect.when (status = .running) do
      modifyUpgrade fun u => { u with steps := u.steps ++ [.stop] }
      markRestarting
      stop false) := by
    refine Keeps.when (Keeps.bind (Keeps.modify fun n h => ?_) fun _ => ?_)
    · have hsteps : UpgradeState.cpuSteps { n.state.upgradeState with steps := n.state.upgradeState.steps ++ [.stop] } = [] := by
        have hnone := h.amid.steps
        unfold UpgradeState.cpuSteps at hnone ⊢
        rw [List.filter_append, hnone]
        rfl
      refine ⟨h.restate (s := { n.state with upgradeState := _ }) rfl (hsteps.trans h.amid.steps.symm) rfl fun hnone _ => ⟨hnone, rfl⟩, ?_⟩
      exact ⟨h.amid.active, h.amid.needRollback, hsteps⟩
    · exact Keeps.bind (Keeps.modify hI.working.marked) fun _ => stop_keeps hI.working.toFramed false
  refine Triple.bind (hstop.exit exit_amid) fun _ => ?_
  refine Triple.bind (R := fun _ => Amid pool Opened) (Triple.modify fun n h => ?_) fun _ => ?_
  · refine ⟨⟨fun c => ?_, fun _ => ⟨?_, fun _ hne => ?_⟩, h.known⟩, ⟨rfl, h.amid.needRollback⟩, h.amid.steps⟩
    · have hbefore := h.cores c
      rw [claims_over h.amid.active] at hbefore
      rw [claims_active (s := { n.state with upgradeState.active := true }) rfl,
        releasedCpus_acquired (l := n.state.upgradeState.steps) (by rw [← UpgradeState.cpuSteps, h.amid.steps]; exact acquisitions_nil)]
      exact hbefore
    · rw [show UpgradeState.cpuSteps { n.state.upgradeState with active := true } = [] from h.amid.steps]
      exact .acquired acquisitions_nil
    · exact absurd h.amid.steps hne
  refine Triple.bind (hopen.onSite.exit exit_amid) fun dataStamp => ?_
  refine Triple.bind (R := fun _ => Amid pool Opened) (Triple.modify fun n h => ?_) fun _ => ?_
  · refine ⟨h.restate (s := { n.state with upgradeState := _ }) rfl rfl rfl fun hnone _ => ⟨hnone, rfl⟩, ?_⟩
    exact ⟨⟨h.amid.active, h.amid.needRollback⟩, h.amid.steps⟩
  refine Triple.bind (hopen.onSite.exit exit_amid) fun revision => ?_
  refine Triple.bind (R := fun _ => Amid pool OnItsWay) (Triple.modify fun n h => ?_) fun _ => amid_lasting.save.exit exit_amid
  refine ⟨h.restate (s := swapBackup (.ofState { desired with revision }) n.state) rfl rfl rfl fun _ hne => ?_, ?_⟩
  · exact absurd h.amid.steps hne
  · exact ⟨h.amid.active, h.amid.needRollback⟩

/-- **An upgrade keeps the account** however it ends, unless its rollback fails. -/
theorem upgrade_accounts (desired : NodeState) :
    Triple (Accounts pool) (upgrade desired) (fun _ => Accounts pool) (upgradeLeaves pool) := by
  have hI := @accounts_lasting pool
  unfold upgrade
  refine Triple.bind (lift_leaves ((status_keeps hI.toPlaced).exit exit_accounts)) fun status => ?_
  split
  · exact Triple.throw fun n h => .inl h
  refine Triple.bind Triple.gets fun active => ?_
  refine Triple.bind (R := fun _ n => n.Accounts pool ∧ n.state.upgradeState.active = true)
    (Triple.when (fun hactive => ?_) fun hactive n h => ?_) fun _ => ?_
  · subst hactive
    exact ((beginUpgrade_amid status desired).pre fun n h => ⟨h.2, h.1.symm⟩).post fun _ n h => ⟨h.toAccounts, h.amid.active⟩
  · refine ⟨h.2, ?_⟩
    rw [← h.1]
    simpa using hactive
  refine Triple.bind Triple.gets fun needRollback => ?_
  cases needRollback with
  | some err =>
    refine (rollback_accounts err).pre fun n h => ⟨h.2.1, h.2.2, ?_⟩
    rw [← h.1]
    rfl
  | none =>
    have htry : Triple (Amid pool OnItsWay) (lift (attempt tryUpgrade))
        (attempted (fun _ => Amid pool OnItsWay) (Amid pool OnItsWay)) (upgradeLeaves pool) := by
      refine lift_leaves (Triple.attempt (tryUpgrade_amid.exit fun e n h => ?_))
      cases e with
      | error e => exact h
      | killed => exact h.known
    refine Triple.bind (htry.pre fun n h => ⟨h.2.1, h.2.2, h.1.symm⟩) fun res => ?_
    cases res with
    | error err => exact revertUpgrade_accounts err
    | ok a => exact lift_leaves finishUpgrade_accounts

/-! ## Calls -/

theorem managerUpgrade_accounts (desired : NodeState) (version requirements : Except CommandError Unit) :
    Triple (Accounts pool) (NodesManager.upgrade desired version requirements) (fun _ => Accounts pool) (upgradeLeaves pool) := by
  have hexit : ∀ (e : Exit CommandError) n, atExit (Accounts pool) (Accounts pool) e n → upgradeLeaves pool e n := by
    intro e n h
    cases e with
    | error e => exact .inl h
    | killed => exact h.known
  unfold NodesManager.upgrade
  refine Triple.bind (Keeps.ofExcept.exit hexit) fun _ => Triple.bind Triple.gets fun node => ?_
  refine Triple.pre (P := Accounts pool) (Triple.when (fun _ => ?_) fun _ _ h => h) fun _ h => h.2
  refine Triple.bind (Keeps.ofExcept.exit hexit) fun desired => ?_
  exact Triple.bind ((Keeps.when Keeps.ofExcept).exit hexit) fun _ => upgrade_accounts desired

/-- What is done with a node keeps the account, but for an upgrade that is given up. -/
def opLeaves (pool : Nat → Nat) (op : NodeOp) : Exit CommandError → Node → Prop
  | .killed, n => n.Known pool
  | .error _, n => n.Accounts pool ∨ (n.Falls pool ∧ op.Upgrades ∧ GivenUp n.state)

theorem op_accounts (op : NodeOp) : Triple (Accounts pool) op.run (fun _ => Accounts pool) (opLeaves pool op) := by
  have hI := @accounts_lasting pool
  have hkeeps : ∀ {m : NodeC Unit}, Keeps (Accounts pool) (Accounts pool) m →
      Triple (Accounts pool) m (fun _ => Accounts pool) (opLeaves pool op) := fun hm => hm.exit fun e n h => by
    cases e with
    | error e => exact .inl h
    | killed => exact h.known
  cases op with
  | call c =>
    by_cases hupgrade : ∃ desired version requirements, c = .upgrade desired version requirements
    · obtain ⟨desired, version, requirements, rfl⟩ := hupgrade
      refine (managerUpgrade_accounts desired version requirements).exit fun e n h => ?_
      cases e with
      | error e => exact h.imp_right fun hn => ⟨hn.1, trivial, hn.2⟩
      | killed => exact h
    · have hcall : ∀ desired version requirements, c ≠ .upgrade desired version requirements :=
        fun desired version requirements hc => hupgrade ⟨desired, version, requirements, hc⟩
      exact hkeeps (call_keeps hI.working (fun n h => hI.unfinished n false h) hcall)
  | update u => exact hkeeps (hI.update u)
  | rename newName newDnsName => exact hkeeps (hI.renameNode newName newDnsName)

/-! ## Creating, deleting and attaching -/

/-- There is no node, and all of the pool is free. -/
structure Vacant (pool : Nat → Nat) (n : Node) : Prop where
  cores : ∀ c, n.registry.count c = pool c
  known : n.Known pool

/-- A state that has no upgrade under way, with cores taken from the registry. -/
theorem Accounts.of_assigned {n : Node} (hactive : n.state.upgradeState.active = false)
    (hcores : ∀ c, n.registry.count c + n.state.assignedCpus.count c = pool c) (hknown : n.Known pool) : n.Accounts pool where
  cores := fun c => by
    rw [claims_over hactive]
    exact hcores c
  logs := fun htrue => (Bool.false_ne_true (hactive.symm.trans htrue)).elim
  known := hknown

/-- No upgrade is under way, and the node has no cores. -/
structure Bare (u : UpgradeState) (cpus : List Nat) : Prop where
  active : u.active = false
  cpus : cpus = []

theorem releaseAssigned_bare :
    Triple (Amid pool fun u _ => u.active = false) releaseAssigned (fun _ => Amid pool Bare)
      (atExit (Amid pool Bare) (Amid pool Bare)) := by
  refine Triple.bind Triple.gets fun cpus => ?_
  refine Triple.bind (R := fun _ n => n.state.upgradeState.active = false ∧ (∀ c, n.registry.count c = pool c) ∧ n.Known pool)
    (Triple.modify fun n h => ?_) fun _ => Triple.modify fun n h => ?_
  · obtain ⟨rfl, hn⟩ := h
    refine ⟨hn.amid, fun c => ?_, hn.known⟩
    have hbefore := hn.cores c
    rw [claims_over hn.amid] at hbefore
    show (n.registry ++ n.state.assignedCpus).count c = pool c
    rw [List.count_append]
    exact hbefore
  · exact ⟨.of_assigned (n := { n with state.assignedCpus := [] }) h.1 (fun c => (Nat.add_zero _).trans (h.2.1 c)) h.2.2, h.1, rfl⟩

theorem Amid.vacant {n : Node} (h : n.Amid pool Bare) : n.Vacant pool where
  cores := fun c => by
    have hcores := h.cores c
    rw [claims_over h.amid.active, h.amid.cpus] at hcores
    exact hcores
  known := h.known

/-- Only the process can keep an attempt from returning. -/
theorem attempt_returns {α : Type} (m : NodeM α) : Triple (fun _ => True) (attempt m) (fun _ _ => True) fun e _ => e = .killed :=
  Triple.attempt (Triple.any.exit fun e _ _ => by
    cases e with
    | error e => trivial
    | killed => rfl)

theorem tryCreate_returns : Triple (fun _ => True) tryCreate (fun _ _ => True) fun e _ => e = .killed := by
  refine Triple.bind (attempt_returns _) fun res => ?_
  cases res with
  | error err => exact Triple.pure fun _ h => h
  | ok a => exact Triple.bind (attempt_returns _) fun _ => Triple.pure fun _ h => h

/-- A node that is not created gives back its cores. -/
theorem create_accounts {desired : NodeState} (hactive : desired.upgradeState.active = false) :
    Triple (Vacant pool) (create desired) (fun _ => Accounts pool) (atExit (Vacant pool) (Known pool)) := by
  have hI := @amid_lasting pool fun u _ => u.active = false
  have hbare := (@amid_lasting pool Bare).toPlaced
  unfold create
  refine Triple.bind (R := fun cpus n => (∀ c, n.registry.count c + cpus.count c = pool c) ∧ n.Known pool) (fun n h => ?_) fun cpus => ?_
  · unfold acquire
    cases hacquire : n.registry.acquire desired.vmConfig.vcpuCount with
    | error err => exact h
    | ok r =>
      obtain ⟨cpus, registry⟩ := r
      refine ⟨fun c => ?_, h.known⟩
      rw [← h.cores c, ← (CpuRegistry.acquire_ok hacquire).1, List.count_append]
  refine Triple.bind (R := fun _ => Amid pool fun u _ => u.active = false) (Triple.modify fun n h => ?_) fun _ => ?_
  · exact ⟨.of_assigned (n := { n with state := { desired with assignedCpus := cpus } }) hactive h.1 h.2, hactive⟩
  refine Triple.bind (R := fun _ => Amid pool fun u _ => u.active = false) ?_ fun res => ?_
  · refine ((tryCreate_keeps hI.toPlaced).and tryCreate_returns).conseq (fun _ h => ⟨h, trivial⟩) (fun _ _ h => h.1) fun e n h => ?_
    obtain ⟨hn, rfl⟩ := h
    exact hn.known
  obtain ⟨machine, res⟩ := res
  cases res with
  | ok a => exact Triple.pure fun n h => h.toAccounts
  | error err =>
    refine Triple.bind (releaseAssigned_bare.exit fun e n h => ?_) fun _ => ?_
    · cases e with
      | error e => exact h.vacant
      | killed => exact h.known
    have hcleanup : Keeps (Amid pool Bare) (Amid pool Bare) (tolerate (cleanup machine)) :=
      tolerate_keeps (Keeps.bind (Keeps.when (deleteMachine_keeps hbare)) fun _ => hbare.onSite)
    refine Triple.bind (hcleanup.exit fun e n h => ?_) fun _ => Triple.throw fun n h => h.vacant
    cases e with
    | error e => exact h.vacant
    | killed => exact h.known

/-- Cores given back by a node under deletion. -/
theorem releaseAssigned_accounts :
    Triple (Accounts pool) releaseAssigned (fun _ => Amid pool fun _ cpus => cpus = []) (atExit (Accounts pool) (Known pool)) := by
  refine Triple.bind Triple.gets fun cpus => ?_
  refine Triple.bind (R := fun _ n => ∃ m : Node, m.Accounts pool ∧ n = { m with registry := m.registry.release m.state.assignedCpus })
    (Triple.modify fun n h => ⟨n, h.2, by rw [h.1]⟩) fun _ => Triple.modify fun n h => ?_
  obtain ⟨m, hm, rfl⟩ := h
  refine ⟨⟨fun c => ?_, fun hactive => ⟨(hm.logs hactive).logged, fun _ _ => Nat.zero_le _⟩, hm.known⟩, rfl⟩
  have hbefore := hm.cores c
  unfold NodeState.claims at hbefore
  rw [List.count_append] at hbefore
  show (m.registry ++ m.state.assignedCpus).count c + ([] ++ heldCpus m.state).count c = pool c
  rw [List.nil_append, List.count_append]
  omega

/-- A node that is deleted gives back the cores assigned to it. -/
theorem delete_accounts : Triple (Accounts pool) delete (fun _ n => n.Accounts pool ∧ n.state.assignedCpus = [])
    (atExit (Accounts pool) (Known pool)) := by
  have hI := @accounts_lasting pool
  have hgone := (@amid_lasting pool fun _ cpus => cpus = []).toPlaced
  unfold delete
  refine Triple.bind ((saveExpectedStatus_keeps hI.toPlaced hI.working.stopped).exit exit_accounts) fun _ => ?_
  refine Triple.bind (hI.onSite.exit exit_accounts) fun _ => ?_
  refine Triple.bind ((deleteMachine_keeps hI.toPlaced).exit exit_accounts) fun _ => ?_
  refine Triple.bind releaseAssigned_accounts fun _ => Triple.bind (hgone.onSite.exit exit_amid) fun _ => ?_
  exact ((removeNodeDir_keeps hgone _).post fun _ n h => ⟨h.toAccounts, h.amid⟩).exit exit_amid

/-- A daemon that comes to a node takes the cores it lays claim to off the registry. -/
structure TakenFrom (n₀ n : Node) : Prop where
  state : n.state = n₀.state
  file : n.file = n₀.file
  registry : n.registry = (n₀.registry.markAcquired n₀.state.assignedCpus).markAcquired (heldCpus n₀.state)

/-- It does so whether or not it can attach to the node, and writes nothing. -/
theorem attach_takes (n : Node) : TakenFrom n (attach n).2 := by
  have hsite : ∀ {α : Type} {m : SiteM α}, Keeps (TakenFrom n) (TakenFrom n) (onSite m) := fun {α m} =>
    Keeps.zoom (R := fun _ _ => True) (fun _ => trivial) (fun n s _ h => ⟨h.state, h.file, h.registry⟩) fun _ h => h
  have hconnect : Keeps (TakenFrom n) (TakenFrom n) connect := by
    refine Keeps.bind hsite fun _ => Keeps.when (Keeps.bind hsite.attempt fun res => ?_)
    cases res with
    | ok a => exact Keeps.pure
    | error e => exact hsite
  have hattach : Triple (· = n) attach (fun _ => TakenFrom n) fun _ => TakenFrom n := by
    unfold attach
    refine Triple.bind (R := fun _ m => m.state = n.state ∧ m.file = n.file ∧ m.registry = n.registry)
      (Triple.modify fun m h => h ▸ ⟨rfl, rfl, rfl⟩) fun _ => ?_
    refine Triple.bind Triple.gets fun st => Triple.bind (R := fun _ => TakenFrom n) (Triple.modify fun m h => ?_) fun _ => ?_
    · obtain ⟨rfl, hstate, hfile, hregistry⟩ := h
      exact ⟨hstate, hfile, by rw [← hstate, ← hregistry]⟩
    · refine Triple.exit (Keeps.bind hsite fun _ => Keeps.bind hsite fun _ => ?_) fun e _ h => by cases e <;> exact h
      refine Keeps.bind (Keeps.modify fun m h => ⟨h.state, h.file, h.registry⟩) fun _ => Keeps.bind hconnect fun _ => ?_
      exact Keeps.bind Keeps.gets fun _ => Keeps.bind hsite fun _ => Keeps.when (tolerate_keeps hsite)
  exact hattach.run rfl

end Node

end Blockvisor
