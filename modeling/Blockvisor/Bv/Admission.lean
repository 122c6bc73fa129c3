/-
Admission control with calls that overlap (`NodesManager::create` and
`NodesManager::upgrade`). What a call is admitted for is looked up in a cache
of the nodes' states, under other locks than those that make the change: what
other calls were admitted for meanwhile, or left behind when they failed, is
not in the cache.

So two calls that fit one at a time are both let in (`admitted_together`). The
nodes fit on the host in every run in which each check finds all nodes in the
cache, and no other call between its check and its end (`admission_holds`).
-/
import Blockvisor.Bv.Resources

namespace Blockvisor

open Effect Machine

/-! ## What nodes take of a host -/

inductive Resource where
  | vcpus
  | memory
  | disk
  deriving DecidableEq

def VmConfig.amount (vm : VmConfig) : Resource → Nat
  | .vcpus => vm.vcpuCount
  | .memory => vm.memSizeMb
  | .disk => vm.diskSizeGb

/-- What there is of each resource for nodes. -/
abbrev HostTotals := Resource → Nat

/-- The host reports what it has: its processors, its memory, and a disk with what is free of it and what
the nodes use. -/
structure HostInfo.Has (host : HostInfo) (totals : HostTotals) (cache : NodesDataCache) : Prop where
  typed : host.Typed
  vcpus : host.cpus = totals .vcpus
  memory : host.totalMemory / 1000000 = totals .memory
  disk : ∀ free, host.freeDisk = some free → free + (cache.map fun e => (host.dataSize e.1).getD 0).sum ≤ totals .disk * 1000000000

instance (host : HostInfo) (totals : HostTotals) (cache : NodesDataCache) : Decidable (host.Has totals cache) :=
  decidable_of_iff
    ((host.cpus < 2 ^ 64 ∧ host.totalMemory < 2 ^ 64 ∧ ∀ free ∈ host.freeDisk, free < 2 ^ 64) ∧ host.cpus = totals .vcpus ∧
      host.totalMemory / 1000000 = totals .memory ∧
      ∀ free ∈ host.freeDisk, free + (cache.map fun e => (host.dataSize e.1).getD 0).sum ≤ totals .disk * 1000000000)
    ⟨fun ⟨⟨hcpus, hmemory, hfree⟩, h⟩ => ⟨⟨hcpus, hmemory, hfree⟩, h.1, h.2.1, h.2.2⟩,
      fun h => ⟨⟨h.typed.cpus, h.typed.totalMemory, h.typed.freeDisk⟩, h.vcpus, h.memory, h.disk⟩⟩

namespace NodesManager

/-- What all the nodes ask for. -/
def demand (m : NodesManager) (r : Resource) : Nat := m.nodes.total fun n => n.state.vmConfig.amount r

def Fits (m : NodesManager) (totals : HostTotals) : Prop := ∀ r, m.demand r ≤ totals r

end NodesManager

namespace HostInfo

variable {host : HostInfo} {cache : NodesDataCache} {tolerance vm : VmConfig} {totals : HostTotals}

/-- What nodes declare is what they use and what they have declared and not used. -/
theorem declared_sum (host : HostInfo) (cache : NodesDataCache) :
    (cache.map fun e => e.2.vmConfig.diskSizeGb).sum * 1000000000 ≤
      (cache.map fun e => (host.dataSize e.1).getD 0).sum + host.unusedSpace cache := by
  unfold unusedSpace
  induction cache with
  | nil => simp
  | cons e cache ih =>
    have hone : declared e ≤ (host.dataSize e.1).getD 0 + host.unused e := by
      unfold unused
      omega
    simp only [List.map_cons, List.sum_cons, Nat.add_mul]
    exact (Nat.add_le_add hone ih).trans_eq (Nat.add_add_add_comm _ _ _ _)

/-- What passes a check fits beside the nodes that are in the cache. -/
theorem Has.fits (hhas : host.Has totals cache) (hwithin : host.Within cache tolerance)
    (hcheck : checkNodeRequirements false host cache vm tolerance = .ok ()) (r : Resource) :
    (cache.map fun e => e.2.vmConfig.amount r).sum + vm.amount r ≤ totals r + tolerance.amount r := by
  cases r with
  | vcpus =>
    have hvcpus := (fits_of_check hwithin hhas.typed hcheck).1
    rw [hhas.vcpus] at hvcpus
    exact hvcpus
  | memory =>
    have hmemory := (fits_of_check hwithin hhas.typed hcheck).2
    rw [hhas.memory] at hmemory
    exact hmemory
  | disk =>
    obtain ⟨-, ⟨free, hfree, hunused, hdisk⟩, -⟩ := check_passed hwithin hhas.typed hcheck
    have hsize := hhas.disk free hfree
    have hsum := declared_sum host cache
    show (cache.map fun e => e.2.vmConfig.diskSizeGb).sum + vm.diskSizeGb ≤ totals .disk + tolerance.diskSizeGb
    omega

end HostInfo

/-! ## What an upgrade leaves a node with -/

namespace Node

/-- The configurations an upgrade can leave a node with: its own, and the one desired or, of an upgrade
that was under way, the one it would go back to. -/
def LeftWith (before : NodeState) (desired vm : VmConfig) : Prop :=
  vm = before.vmConfig ∨
    if before.upgradeState.active then ∃ backup, before.upgradeState.stateBackup = some backup ∧ vm = backup.vmConfig
    else vm = desired

/-- An upgrade that is under way would not go back to more than the node has. -/
def BackupFits (st : NodeState) : Prop :=
  st.upgradeState.active = true → ∀ b, st.upgradeState.stateBackup = some b → ∀ r, b.vmConfig.amount r ≤ st.vmConfig.amount r

/-- What an upgrade leaves takes no more than the node has, or what was asked for. -/
theorem LeftWith.amount_le {before : NodeState} {desired vm : VmConfig} (h : LeftWith before desired vm) (hbackup : BackupFits before)
    (r : Resource) : vm.amount r ≤ before.vmConfig.amount r ∨ vm.amount r ≤ desired.amount r := by
  obtain rfl | hnew := h
  · exact .inl le_rfl
  · split at hnew
    · rename_i hactive
      obtain ⟨backup, hb, rfl⟩ := hnew
      exact .inl (hbackup hactive backup hb r)
    · exact .inr (hnew ▸ le_rfl)

/-- The configuration of a state and of its backup. -/
structure VmAllowed (allowed : VmConfig → Prop) (n : Node) : Prop where
  state : allowed n.state.vmConfig
  backup : ∀ b, n.state.upgradeState.stateBackup = some b → allowed b.vmConfig

theorem vmAllowed_reverting (allowed : VmConfig → Prop) : Reverting (VmAllowed allowed) where
  site := fun _ _ h => ⟨h.state, h.backup⟩
  saved := fun _ _ _ _ h => ⟨h.state, h.backup⟩
  stopped := fun _ h => ⟨h.state, h.backup⟩
  failed := fun _ h => ⟨h.state, h.backup⟩
  running := fun _ h => ⟨h.state, h.backup⟩
  ready := fun _ _ _ h => ⟨h.state, h.backup⟩
  told := fun _ _ h => ⟨h.state, h.backup⟩
  marked := fun _ h => ⟨h.state, h.backup⟩
  started := fun _ h => ⟨h.state, h.backup⟩
  initialized := fun _ _ h => ⟨h.state, h.backup⟩
  registry := fun _ _ h => ⟨h.state, h.backup⟩
  assigned := fun _ _ h => ⟨h.state, h.backup⟩
  upgrade := fun _ _ hbackup h => ⟨h.state, fun b hb => h.backup b (hbackup ▸ hb)⟩
  restored := fun _ backup hbackup h =>
    { state := h.backup backup hbackup
      backup := fun b hb => by
        cases hb
        exact h.state }

/-- **What an upgrade leaves**, however it ends. -/
theorem upgrade_leaves (n₀ : Node) (desired : NodeState) :
    Triple (· = n₀) (upgrade desired) (fun _ n => LeftWith n₀.state desired.vmConfig n.state.vmConfig)
      fun _ n => LeftWith n₀.state desired.vmConfig n.state.vmConfig := by
  have hsame : Placed fun n => n.state = n₀.state :=
    { site := fun _ _ h => h
      saved := fun _ _ _ _ h => h }
  have hallowed := vmAllowed_reverting (LeftWith n₀.state desired.vmConfig)
  have hexit : ∀ (e : Exit CommandError) (n : Node), atExit (fun n => n.state = n₀.state) (fun n => n.state = n₀.state) e n →
      LeftWith n₀.state desired.vmConfig n.state.vmConfig := by
    intro e n h
    cases e with
    | error e => exact .inl (congrArg NodeState.vmConfig h)
    | killed => exact .inl (congrArg NodeState.vmConfig h)
  have hbegun : ∀ active status, Triple (fun n => active = n.state.upgradeState.active ∧ n.state = n₀.state)
      (Effect.when (active = false) (beginUpgrade status desired)) (fun _ => VmAllowed (LeftWith n₀.state desired.vmConfig))
      (atExit (VmAllowed (LeftWith n₀.state desired.vmConfig)) (VmAllowed (LeftWith n₀.state desired.vmConfig))) := by
    intro active status n h
    obtain ⟨hactive, hstate⟩ := h
    rw [hstate] at hactive
    cases active with
    | true =>
      refine ⟨.inl (congrArg NodeState.vmConfig hstate), fun b hb => .inr ?_⟩
      rw [if_pos hactive.symm]
      exact ⟨b, hstate ▸ hb, rfl⟩
    | false =>
      have hdesired : LeftWith n₀.state desired.vmConfig desired.vmConfig := .inr (by rw [if_neg (by simp [← hactive])])
      refine beginUpgrade_enters (P := fun n => n.state = n₀.state) hallowed.toUpgrading (fun n h => ?_) (fun n revision h => ?_) status n hstate
      · exact ⟨.inl (by rw [← h]), nofun⟩
      · exact ⟨hdesired, fun b hb => by cases hb; exact h.state⟩
  unfold upgrade
  refine Triple.bind ((lift_keeps (status_keeps hsame)).conseq (fun n h => by rw [h]) (fun _ _ h => h) hexit) fun status => ?_
  split
  · exact Triple.throw fun n h => .inl (congrArg NodeState.vmConfig h)
  refine Triple.bind Triple.gets fun active => ?_
  have hrest := Triple.bind (hbegun active status) fun _ => resumeUpgrade_keeps hallowed
  refine hrest.conseq (fun _ h => h) (fun _ _ h => h.state) fun e n h => ?_
  cases e with
  | error e => exact h.state
  | killed => exact h.state

end Node

/-! ## Calls that overlap -/

/-- The call is between its check and its end. -/
def Task.admitted : Task → Bool
  | .createAddress _ => true
  | .createNode _ => true
  | .createInsert .. => true
  | .createName .. => true
  | .createCache .. => true
  | .upgradeNode _ => true
  | .refreshCache _ => true
  | _ => false

/-- A create of a node that is not in dev mode, or an upgrade, and what they come to. -/
def Task.isAsked : Task → Bool
  | .create desired => desired.devMode = false
  | .createAdmit _ => true
  | .upgrade _ => true
  | .upgradeAdmit .. => true
  | task => task.admitted

namespace NodesManager

open Node

/-- A node that is to be upgraded is not in dev mode. -/
def inProduction (m : NodesManager) : Task → Bool
  | .upgrade desired => (m.stateOf desired.id).all fun st => !st.devMode
  | _ => true

/-- Creates and upgrades of nodes that are not in dev mode, outside of maintenance mode, on a host of these
totals. -/
def Asks (totals : HostTotals) (m : NodesManager) : Event → Prop
  | .call _ task => task.isAsked
  | .go t env => env.maintenance = false ∧ ∀ task ∈ m.tasks.lookup t, m.inProduction task ∧
      ((tolerance task).isSome → env.host.Has totals m.nodesDataCache)

instance (totals : HostTotals) (m : NodesManager) : DecidablePred (m.Asks totals)
  | .call _ task => inferInstanceAs (Decidable (task.isAsked = true))
  | .go t env => inferInstanceAs (Decidable (env.maintenance = false ∧ ∀ task ∈ m.tasks.lookup t, m.inProduction task ∧
      ((tolerance task).isSome → env.host.Has totals m.nodesDataCache)))

/-- The cache has the configuration of each node. -/
def CacheExact (m : NodesManager) : Prop :=
  ∀ id, (m.nodeStateCache.lookup id).map (·.vmConfig) = (m.stateOf id).map (·.vmConfig)

/-- A check finds the nodes in the cache as they are, no other call is between its check and its end, and
no operation of the check leaves its type. -/
structure CheckAlone (m : NodesManager) (t : Nat) (env : TaskEnv) (task : Task) (tol : VmConfig) : Prop where
  cache : m.CacheExact
  alone : ∀ a, m.others t a → a.admitted = false
  within : env.host.Within m.nodesDataCache tol
  node : ∀ desired st, task = .upgradeAdmit desired tol → m.stateOf desired.id = some st → tol = st.vmConfig ∧ BackupFits st

def Undisturbed (m : NodesManager) : Event → Prop
  | .call .. => True
  | .go t env => ∀ task tol, m.tasks.lookup t = some task → tolerance task = some tol → m.CheckAlone t env task tol

/-! ## The invariant -/

/-- There is room for what a call was admitted for. -/
def RoomFor (m : NodesManager) (totals : HostTotals) : Task → Prop
  | .createAddress desired => ∀ r, m.demand r + desired.vmConfig.amount r ≤ totals r
  | .createNode desired => ∀ r, m.demand r + desired.vmConfig.amount r ≤ totals r
  | .createInsert _ n => ∀ r, m.demand r + n.state.vmConfig.amount r ≤ totals r
  | .upgradeNode desired => ∀ st, m.stateOf desired.id = some st →
      BackupFits st ∧ ∀ r, m.demand r + desired.vmConfig.amount r ≤ totals r + st.vmConfig.amount r
  | _ => True

structure Reserved (totals : HostTotals) (m : NodesManager) : Prop where
  fits : m.Fits totals
  asked : ∀ t a, m.tasks.lookup t = some a → a.isAsked
  single : ∀ t t' a a', m.tasks.lookup t = some a → m.tasks.lookup t' = some a' → a.admitted → a'.admitted → t = t'
  room : ∀ t a, m.tasks.lookup t = some a → m.RoomFor totals a

variable {m m' : NodesManager} {totals : HostTotals} {t : Nat} {a : Task}

theorem roomFor_of_not_admitted (h : a.admitted = false) : m.RoomFor totals a := by
  cases a <;> trivial

theorem roomFor_congr (h : m'.nodes = m.nodes) : m'.RoomFor totals a ↔ m.RoomFor totals a := by
  have hdemand : m'.demand = m.demand := by
    unfold demand
    rw [h]
  have hstate : m'.stateOf = m.stateOf := by
    unfold stateOf
    rw [h]
  cases a <;> simp only [RoomFor, hdemand, hstate]

theorem settle_lookup {outcome : Outcome} {k : Nat} {c : Task} (h : (m.settle t outcome).tasks.lookup k = some c) :
    (k = t ∧ outcome = .next c) ∨ (k ≠ t ∧ m.tasks.lookup k = some c) := by
  cases outcome with
  | done r =>
    change (m.tasks.erase t).lookup k = some c at h
    rw [Table.lookup_erase_ite] at h
    split at h
    · cases h
    · rename_i hk
      exact .inr ⟨hk, h⟩
  | next b =>
    change (m.tasks.insert t b).lookup k = some c at h
    rw [Table.lookup_insert_ite] at h
    split at h
    · rename_i hk
      cases h
      exact .inl ⟨hk, rfl⟩
    · rename_i hk
      exact .inr ⟨hk, h⟩

theorem settle_nodes (outcome : Outcome) : (m.settle t outcome).nodes = m.nodes := by
  cases outcome <;> rfl

/-- A task goes on, or ends. -/
theorem Reserved.settle (h : Reserved totals m) {outcome : Outcome} (htasks : m'.tasks = m.tasks) (hfits : m'.Fits totals)
    (hothers : ∀ b, m.others t b → m'.RoomFor totals b)
    (hnext : ∀ b, outcome = .next b → b.isAsked ∧ m'.RoomFor totals b ∧ (b.admitted → ∀ c, m.others t c → c.admitted = false)) :
    Reserved totals (m'.settle t outcome) where
  fits := by
    intro r
    unfold demand
    rw [settle_nodes]
    exact hfits r
  asked := by
    intro k c hc
    obtain ⟨-, hout⟩ | ⟨-, hc⟩ := settle_lookup hc
    · exact (hnext c hout).1
    · rw [htasks] at hc
      exact h.asked k c hc
  single := by
    intro k k' c c' hc hc' hadm hadm'
    obtain ⟨hk, hout⟩ | ⟨hk, hc⟩ := settle_lookup hc
    · obtain ⟨hk', -⟩ | ⟨hk', hc'⟩ := settle_lookup hc'
      · exact hk.trans hk'.symm
      · rw [htasks] at hc'
        have hnot := (hnext c hout).2.2 hadm c' ⟨k', hk', hc'⟩
        rw [hnot] at hadm'
        cases hadm'
    · rw [htasks] at hc
      obtain ⟨hk', hout⟩ | ⟨hk', hc'⟩ := settle_lookup hc'
      · have hnot := (hnext c' hout).2.2 hadm' c ⟨k, hk, hc⟩
        rw [hnot] at hadm
        cases hadm
      · rw [htasks] at hc'
        exact h.single k k' c c' hc hc' hadm hadm'
  room := by
    intro k c hc
    rw [roomFor_congr (settle_nodes outcome)]
    obtain ⟨-, hout⟩ | ⟨hk, hc⟩ := settle_lookup hc
    · exact (hnext c hout).2.1
    · rw [htasks] at hc
      exact hothers c ⟨k, hk, hc⟩

/-- The others of an admitted task are not. -/
theorem Reserved.others (h : Reserved totals m) (ht : m.tasks.lookup t = some a) (hadm : a.admitted) {b : Task} (hb : m.others t b) :
    b.admitted = false := by
  obtain ⟨k, hk, hb⟩ := hb
  cases hb' : b.admitted with
  | false => rfl
  | true => exact absurd (h.single k t b a hb ht hb' hadm) hk

/-- A step that leaves the nodes alone. -/
theorem Reserved.go (h : Reserved totals m) {outcome : Outcome} (htasks : m'.tasks = m.tasks) (hnodes : m'.nodes = m.nodes)
    (hnext : ∀ b, outcome = .next b → b.isAsked ∧ m.RoomFor totals b ∧ (b.admitted → ∀ c, m.others t c → c.admitted = false)) :
    Reserved totals (m'.settle t outcome) := by
  refine h.settle htasks ?_ (fun b ⟨k, _, hb⟩ => (roomFor_congr hnodes).mpr (h.room k b hb)) fun b hb => ?_
  · intro r
    unfold demand
    rw [hnodes]
    exact h.fits r
  · obtain ⟨hasked, hroom, halone⟩ := hnext b hb
    exact ⟨hasked, (roomFor_congr hnodes).mpr hroom, halone⟩

/-- The step of an admitted task changes a node, and the nodes still fit. -/
theorem Reserved.changes (h : Reserved totals m) (ht : m.tasks.lookup t = some a) (hadm : a.admitted) {outcome : Outcome}
    (htasks : m'.tasks = m.tasks) (hfits : m'.Fits totals)
    (hnext : ∀ b, outcome = .next b → b.isAsked ∧ m'.RoomFor totals b) : Reserved totals (m'.settle t outcome) := by
  refine h.settle htasks hfits (fun b hb => roomFor_of_not_admitted (h.others ht hadm hb)) fun b hb => ?_
  exact ⟨(hnext b hb).1, (hnext b hb).2, fun _ c hc => h.others ht hadm hc⟩

/-! ## Steps -/

theorem demand_setNode_le {id : String} {n : Node} (r : Resource) : (m.setNode id n).demand r ≤ m.demand r + n.state.vmConfig.amount r := by
  unfold demand setNode
  cases hold : m.nodes.lookup id with
  | none =>
    rw [Table.total_insert_new _ hold]
    exact (Nat.add_comm _ _).le
  | some x =>
    have htotal := Table.total_insert (f := fun n : MaybeNode => n.state.vmConfig.amount r) (.node n) hold
    exact (Nat.le_add_right _ _).trans htotal.le

theorem demand_setNode {id : String} {n : Node} (h : m.nodes.lookup id = some (.node n)) (n' : Node) (r : Resource) :
    (m.setNode id n').demand r + n.state.vmConfig.amount r = m.demand r + n'.state.vmConfig.amount r :=
  Table.total_insert (f := fun n : MaybeNode => n.state.vmConfig.amount r) (.node n') h

/-- The nodes in an exact cache ask for what all the nodes do. -/
theorem CacheExact.demand (h : m.CacheExact) (r : Resource) : (m.nodesDataCache.map fun e => e.2.vmConfig.amount r).sum = m.demand r := by
  rw [nodesDataCache_total fun st => st.vmConfig.amount r]
  refine Table.total_congr fun id => ?_
  have hid := congrArg (Option.map fun vm => VmConfig.amount vm r) (h id)
  unfold stateOf at hid
  simpa [Option.map_map, Function.comp_def] using hid

variable {env : TaskEnv}

/-- What an upgrade makes of a node, if the daemon lives through it. -/
theorem runOn_upgrade {desired : NodeState} {n n' : Node} {r : Except CommandError Unit}
    (h : runOn (Node.upgrade desired) n env = some (r, n')) : LeftWith n.state desired.vmConfig n'.state.vmConfig := by
  have hleaves := upgrade_leaves { n.inEnv env.call with registry := env.registry } desired _ rfl
  unfold runOn at h
  split at h
  · rename_i n₁ hrun
    cases h
    rw [hrun] at hleaves
    exact hleaves
  · rename_i err n₁ hrun
    cases h
    rw [hrun] at hleaves
    exact hleaves
  · cases h

/-- A check that passes leaves room for what it was made for. -/
theorem CheckAlone.room {task : Task} {tol vm : VmConfig} (h : m.CheckAlone t env task tol) (hhas : env.host.Has totals m.nodesDataCache)
    (hmaintenance : env.maintenance = false)
    (hcheck : checkNodeRequirements env.maintenance env.host m.nodesDataCache vm tol = .ok ()) (r : Resource) :
    m.demand r + vm.amount r ≤ totals r + tol.amount r := by
  rw [hmaintenance] at hcheck
  rw [← h.cache.demand r]
  exact hhas.fits h.within hcheck r

theorem zero_amount (r : Resource) : VmConfig.zero.amount r = 0 := by
  cases r <;> rfl

theorem lookup_of_found {id what : String} {n : Node} (h : m.found id what = .ok n) : m.nodes.lookup id = some (.node n) := by
  unfold found at h
  split at h
  · cases h
  · cases h
  · rename_i n' hn
    cases h
    exact hn

/-- A create that is not in dev mode goes on to its check. -/
theorem beginCreate_next {desired : NodeState} (hdev : desired.devMode = false) {b : Task} (h : m.beginCreate env desired = .next b) :
    b = .createAdmit desired := by
  unfold beginCreate at h
  rw [hdev] at h
  split at h
  · cases h
  split at h
  · cases h
  split at h
  · cases h
  split at h
  · cases h
  cases h
  rfl

/-- So does an upgrade of a node that is not in dev mode. -/
theorem beginUpgrade_next {desired : NodeState} (hdev : ∀ st, m.stateOf desired.id = some st → st.devMode = false) {b : Task}
    (h : m.beginUpgrade env desired = .next b) : ∃ desired tolerance, b = .upgradeAdmit desired tolerance := by
  unfold beginUpgrade at h
  split at h
  · cases h
  split at h
  · cases h
  · rename_i n hfound
    split at h
    · cases h
    split at h
    · cases h
    rw [if_neg (by simp [hdev _ (stateOf_of_found hfound)])] at h
    cases h
    exact ⟨_, _, rfl⟩

theorem checkAddress_next {desired : NodeState} {b : Task} (h : m.checkAddress desired = .next b) : b = .createNode desired := by
  unfold checkAddress at h
  split at h
  · cases h
  · cases h
    rfl

/-- An upgraded node takes the place of the node before. -/
theorem Reserved.upgraded {desired : NodeState} {n n' : Node} {r : Except CommandError Unit} (h : Reserved totals m)
    (ht : m.tasks.lookup t = some (.upgradeNode desired)) (hn : m.nodes.lookup desired.id = some (.node n))
    (hrun : runOn (Node.upgrade desired) n env = some (r, n')) : (m.setNode desired.id n').Fits totals := by
  intro r
  have hstate : m.stateOf desired.id = some n.state := by
    unfold stateOf
    rw [hn]
    rfl
  obtain ⟨hbackup, hroom⟩ := h.room t _ ht n.state hstate
  have hdemand := demand_setNode hn n' r
  have hfits := h.fits r
  have hr := hroom r
  cases (runOn_upgrade hrun).amount_le hbackup r with
  | inl hold => omega
  | inr hnew => omega

/-- **A step keeps the nodes fitting.** -/
theorem reserved_step {e : Event} (h : Reserved totals m) (hasks : m.Asks totals e) (hundisturbed : m.Undisturbed e)
    (hs : m.step e = some m') : Reserved totals m' := by
  unfold step at hs
  cases e with
  | call t task =>
    obtain ⟨⟨hcall, -⟩, hs⟩ := Option.ite_none_right_eq_some.mp hs
    cases hs
    have hfree : task.admitted = false := by cases task <;> first | rfl | cases hcall
    show Reserved totals (m.settle t (.next task))
    refine h.go rfl rfl fun b hb => ?_
    cases hb
    exact ⟨hasks, roomFor_of_not_admitted hfree, fun hadm => by rw [hfree] at hadm; cases hadm⟩
  | go t env =>
    dsimp only at hs
    split at hs
    · cases hs
    rename_i task ht
    split at hs
    · cases hs
    rename_i outcome m₁ hadvance
    cases hs
    obtain ⟨hmaintenance, hasks⟩ := hasks
    obtain ⟨hdev, hhas⟩ := hasks task ht
    have hasked := h.asked t task ht
    have hroom := h.room t task ht
    -- a task that was admitted goes on with its reservation
    have hkeep : ∀ (m₁ : NodesManager) b, m₁.tasks = m.tasks → m₁.nodes = m.nodes → task.admitted → b.isAsked → m.RoomFor totals b →
        Reserved totals (m₁.settle t (.next b)) := fun m₁ b htasks hnodes hadm hb hbroom =>
      h.go htasks hnodes fun c hc => by cases hc; exact ⟨hb, hbroom, fun _ c hc => h.others ht hadm hc⟩
    have hdone : ∀ (m₁ : NodesManager) r, m₁.tasks = m.tasks → m₁.nodes = m.nodes → Reserved totals (m₁.settle t (.done r)) :=
      fun m₁ r htasks hnodes => h.go htasks hnodes fun b hb => by cases hb
    cases task with
    | create desired =>
      obtain ⟨-, hadvance⟩ := Option.ite_none_right_eq_some.mp hadvance
      cases hadvance
      refine h.go rfl rfl fun b hb => ?_
      cases beginCreate_next (of_decide_eq_true hasked) hb
      exact ⟨rfl, trivial, fun hadm => by cases hadm⟩
    | createAdmit desired =>
      have hcheck := hundisturbed _ .zero ht rfl
      simp only [advance] at hadvance
      split at hadvance
      · cases hadvance
        exact hdone _ _ rfl rfl
      · rename_i hok
        cases hadvance
        refine h.go rfl rfl fun b hb => ?_
        cases hb
        refine ⟨rfl, fun r => ?_, fun _ => hcheck.alone⟩
        have hr := hcheck.room (hhas rfl) hmaintenance hok r
        rw [zero_amount] at hr
        exact hr
    | createAddress desired =>
      cases hadvance
      cases hout : m.checkAddress desired with
      | done r => exact hdone _ _ rfl rfl
      | next b =>
        cases checkAddress_next hout
        exact hkeep _ _ rfl rfl rfl rfl hroom
    | createNode desired =>
      simp only [advance] at hadvance
      split at hadvance
      · cases hadvance
      · cases hadvance
        exact hdone _ _ rfl rfl
      · rename_i n hrun
        cases hadvance
        obtain ⟨cpus, hcreated⟩ := runOn_create hrun
        refine hkeep _ _ rfl rfl rfl rfl fun r => ?_
        rw [hcreated]
        exact hroom r
    | createInsert id n =>
      obtain ⟨-, hadvance⟩ := Option.ite_none_right_eq_some.mp hadvance
      cases hadvance
      refine h.changes ht rfl rfl (fun r => (demand_setNode_le r).trans (hroom r)) fun b hb => ?_
      cases hb
      exact ⟨rfl, trivial⟩
    | createName id st =>
      cases hadvance
      exact hkeep _ _ rfl rfl rfl rfl trivial
    | createCache id st =>
      cases hadvance
      exact hdone _ _ rfl rfl
    | upgrade desired =>
      obtain ⟨-, hadvance⟩ := Option.ite_none_right_eq_some.mp hadvance
      cases hadvance
      refine h.go rfl rfl fun b hb => ?_
      have hplain : ∀ st, m.stateOf desired.id = some st → st.devMode = false := by
        intro st hst
        have hall : (m.stateOf desired.id).all (fun st => !st.devMode) = true := hdev
        rw [hst] at hall
        simpa using hall
      obtain ⟨desired', tolerance, rfl⟩ := beginUpgrade_next hplain hb
      exact ⟨rfl, trivial, fun hadm => by cases hadm⟩
    | upgradeAdmit desired tol =>
      have hcheck := hundisturbed _ tol ht rfl
      simp only [advance] at hadvance
      split at hadvance
      · cases hadvance
        exact hdone _ _ rfl rfl
      · rename_i hok
        cases hadvance
        refine h.go rfl rfl fun b hb => ?_
        cases hb
        refine ⟨rfl, fun st hst => ?_, fun _ => hcheck.alone⟩
        obtain ⟨htol, hbackup⟩ := hcheck.node desired st rfl hst
        refine ⟨hbackup, fun r => ?_⟩
        rw [← htol]
        exact hcheck.room (hhas rfl) hmaintenance hok r
    | upgradeNode desired =>
      obtain ⟨-, hadvance⟩ := Option.ite_none_right_eq_some.mp hadvance
      obtain ⟨err, -, rfl, rfl⟩ | ⟨n, r, n', hfound, hrun, rfl, hout⟩ := callNode_cases hadvance
      · exact hdone _ _ rfl rfl
      · refine h.changes ht rfl rfl (h.upgraded ht (lookup_of_found hfound) hrun) fun b hb => ?_
        cases r with
        | error err =>
          rw [hout] at hb
          cases hb
        | ok a =>
          rw [hout] at hb
          cases hb
          exact ⟨rfl, trivial⟩
    | refreshCache id =>
      simp only [advance] at hadvance
      split at hadvance
      · cases hadvance
        exact hdone _ _ rfl rfl
      · cases hadvance
    | _ => cases hasked

end NodesManager

open NodesManager

/-- **Admission control holds** along every run of creates and upgrades in which each check finds all the
nodes in the cache, and no other call between its check and its end. -/
theorem admission_holds (totals : HostTotals) (m m' : NodesManager) (events : List Event) (hidle : m.tasks = ∅) (hfits : m.Fits totals)
    (hasks : Along step (Asks totals) m events) (hundisturbed : Along step Undisturbed m events) (hrun : run step m events = some m') :
    m'.Fits totals := by
  have hnone : ∀ t, m.tasks.lookup t = none := fun t => by rw [hidle]; rfl
  have hstart : Reserved totals m :=
    { fits := hfits
      asked := fun t a ht => by rw [hnone] at ht; cases ht
      single := fun t t' a a' ht => by rw [hnone] at ht; cases ht
      room := fun t a ht => by rw [hnone] at ht; cases ht }
  have hreserved := run_invariant (I := Reserved totals) step (fun _ _ _ h hok hs => reserved_step h hok.1 hok.2 hs) hstart
    (hasks.and step hundisturbed) hrun
  exact hreserved.fits

/-! ## Calls one at a time, and together -/

/-- A host with 4 processors, 3000 MB of memory and a disk of 100 GB. -/
def smallHost : HostTotals
  | .vcpus => 4
  | .memory => 3000
  | .disk => 100

/-- Nothing fails on it. -/
def TaskEnv.onSmallHost : TaskEnv :=
  { TaskEnv.fine with maintenance := false, host := ⟨3000000000, 4, some 100000000000, fun _ => some 0⟩, registry := [0, 1, 2, 3] }

/-- A node of 1000 MB, or of the memory that is said. -/
def smallNode (name ip image : String) (memSizeMb : Nat) : NodeState :=
  { (default : NodeState) with id := name, name := name, ip := ip, image.id := image, vmConfig := ⟨1, memSizeMb, 10, []⟩ }

def createSmall (t : Nat) (name ip : String) : List Event :=
  .call t (.create (smallNode name ip "old" 1000)) :: List.replicate 7 (.go t .onSmallHost)

/-- The check of a create is that for the first node of a host, and no upgrade is checked. -/
def FirstCheck (m : NodesManager) : Event → Bool
  | .call .. => true
  | .go t _ =>
    match m.tasks.lookup t with
    | some (.createAdmit _) => m.nodes.entries.isEmpty && m.nodeStateCache.entries.isEmpty && m.tasks.keys = [t]
    | some (.upgradeAdmit ..) => false
    | _ => true

/-- Nothing leaves its type as long as there are no nodes. -/
theorem within_empty {host : HostInfo} (htyped : host.Typed) : host.Within [] .zero := by
  have hmemory := htyped.memory
  refine HostInfo.Room.within ⟨fun _ => ⟨Nat.zero_le _, Nat.zero_le _⟩, ?_, fun _ _ _ => Nat.zero_le _, fun _ free hfree => ?_⟩ htyped
  · intro front hfront _
    cases List.prefix_nil.mp hfront
    exact ⟨List.forall_mem_nil _, Nat.two_pow_pos 64⟩
  · have hdisk := htyped.freeDisk free hfree
    have hcpus := htyped.cpus
    simp only [VmConfig.zero]
    omega

theorem undisturbed_first {totals : HostTotals} {m : NodesManager} {e : Event} (hasks : m.Asks totals e) (hfirst : FirstCheck m e = true) :
    m.Undisturbed e := by
  cases e with
  | call t task => trivial
  | go t env =>
    intro task tol ht htol
    unfold FirstCheck at hfirst
    simp only [ht] at hfirst
    have hhas := (hasks.2 task ht).2
    cases task with
    | createAdmit desired =>
      cases htol
      simp only [Bool.and_eq_true, List.isEmpty_iff, decide_eq_true_eq] at hfirst
      obtain ⟨⟨hnodes, hcache⟩, hkeys⟩ := hfirst
      have hnocache : m.nodesDataCache = [] := by
        unfold nodesDataCache
        rw [hcache]
        rfl
      refine ⟨fun id => ?_, fun a ⟨t', ht', ha⟩ => ?_, ?_, fun _ _ h => by cases h⟩
      · unfold stateOf AList.lookup
        rw [hcache, hnodes]
        rfl
      · have hmem : t' ∈ m.tasks := AList.lookup_isSome.mp (by rw [ha]; rfl)
        have hkey := AList.mem_keys.mp hmem
        rw [hkeys] at hkey
        exact absurd (List.mem_singleton.mp hkey) ht'
      · rw [hnocache]
        exact within_empty (hhas rfl).typed
    | upgradeAdmit desired tolerance => cases hfirst
    | _ => simp [tolerance] at htol

/-- The first node of a host is created. -/
theorem admission_holds_first :
    ∃ m, run step .empty (createSmall 0 "a" "10.0.0.1") = some m ∧ m.demand .memory = 1000 ∧ m.Fits smallHost := by
  have hrun : ((run step .empty (createSmall 0 "a" "10.0.0.1")).any fun m => m.demand .memory = 1000) = true := by decide +kernel
  obtain ⟨m, hm, hdemand⟩ := (Option.any_eq_true _ _).mp hrun
  have hasks : Along step (Asks smallHost) .empty (createSmall 0 "a" "10.0.0.1") := by decide +kernel
  have hfirst : Along step (fun m e => FirstCheck m e = true) .empty (createSmall 0 "a" "10.0.0.1") := by decide +kernel
  have hundisturbed := Along.of_invariant (I := fun _ => True) step (fun _ _ _ h => undisturbed_first h.1 h.2) (fun _ _ _ _ _ _ => trivial)
    trivial (hasks.and step hfirst)
  exact ⟨m, hm, of_decide_eq_true hdemand,
    admission_holds smallHost .empty m _ rfl (fun r => Nat.zero_le _) hasks hundisturbed hm⟩

/-- Two nodes of 1000 MB, both to be upgraded to 2000 MB: each upgrade is checked before the other one is done. -/
def upgradedTogether : List Event :=
  createSmall 0 "a" "10.0.0.1" ++ createSmall 1 "b" "10.0.0.2" ++
    [.call 2 (.upgrade (smallNode "a" "10.0.0.1" "new" 2000)), .call 3 (.upgrade (smallNode "b" "10.0.0.2" "new" 2000))] ++
    (List.replicate 4 [.go 2 .onSmallHost, .go 3 .onSmallHost]).flatten

/-- Both are let in. -/
theorem admitted_together :
    ¬ ∀ (totals : HostTotals) (m m' : NodesManager) (events : List Event), m.tasks = ∅ → m.Fits totals →
      Along step (Asks totals) m events → run step m events = some m' → m'.Fits totals := by
  intro h
  have hrun : ((run step .empty upgradedTogether).any fun m => m.demand .memory = 4000) = true := by decide +kernel
  obtain ⟨m, hm, hdemand⟩ := (Option.any_eq_true _ _).mp hrun
  have hasks : Along step (Asks smallHost) .empty upgradedTogether := by decide +kernel
  have hfits := h smallHost .empty m _ rfl (fun r => Nat.zero_le _) hasks hm .memory
  rw [of_decide_eq_true hdemand] at hfits
  exact absurd hfits (by decide)

end Blockvisor
