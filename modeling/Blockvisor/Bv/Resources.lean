/-
The arithmetic of the admission check (`available_resources` in
`linux_platform.rs`, `used_disk_space_correction` in `apptainer_platform.rs`,
`check_node_requirements` in `nodes_manager.rs`). All of it is on 64 bits.

Nodes in dev mode and all nodes in maintenance mode are let in without the
check, so the nodes of a host may have more memory than it has, and what is left
of it wraps around then. `Within` says that no operation of a check leaves its
type, and `Room` when that is so; along a run there is room as long as each node
that enters the cache fits beside the others (`resources_within`).
-/
import Mathlib.Algebra.GroupWithZero.Nat
import Mathlib.Algebra.Order.BigOperators.Group.List
import Mathlib.Algebra.Order.Group.Nat
import Mathlib.Data.List.Induction
import Blockvisor.Bv.Indexes

namespace Blockvisor

open Machine

/-! ## A fold of subtractions -/

section

variable {α : Type} {f : α → Nat} {l : List α} {a : Nat}

theorem sub64_exact {b : Nat} (hb : b ≤ a) (ha : a < 2 ^ 64) : sub64 a b = a - b := by
  unfold sub64
  omega

theorem foldl_sub64 (h : (l.map f).sum ≤ a) (ha : a < 2 ^ 64) : l.foldl (fun left e => sub64 left (f e)) a = a - (l.map f).sum := by
  induction l generalizing a with
  | nil => rfl
  | cons e l ih =>
    rw [List.map_cons, List.sum_cons] at h
    rw [List.foldl_cons, sub64_exact (by omega) ha, ih (by omega) (by omega), List.map_cons, List.sum_cons]
    omega

/-- No subtraction of the fold is of more than is left. -/
def Subtracts (f : α → Nat) (l : List α) (a : Nat) : Prop :=
  ∀ front e, front ++ [e] <+: l → f e ≤ front.foldl (fun left e => sub64 left (f e)) a

/-- The subtractions stay within their type exactly if all of them together do. -/
theorem subtracts_iff (ha : a < 2 ^ 64) : Subtracts f l a ↔ (l.map f).sum ≤ a := by
  induction l using List.reverseRecOn with
  | nil =>
    refine ⟨fun _ => Nat.zero_le _, fun _ front e hfront => ?_⟩
    have hnil := List.prefix_nil.mp hfront
    simp at hnil
  | append_singleton l e ih =>
    have hsum : ((l ++ [e]).map f).sum = (l.map f).sum + f e := by simp
    constructor
    · intro h
      have hl := ih.mp fun front e' hfront => h front e' (hfront.trans (List.prefix_append l [e]))
      have he := h l e List.prefix_rfl
      rw [foldl_sub64 hl ha] at he
      omega
    · intro h front e' hfront
      cases List.prefix_concat_iff.mp hfront with
      | inl heq =>
        obtain ⟨hl, hone⟩ := List.append_inj' heq rfl
        cases hone
        subst hl
        rw [foldl_sub64 (by omega) ha]
        omega
      | inr hearlier => exact ih.mpr (by omega) front e' hearlier

end

/-! ## One check -/

namespace HostInfo

/-- What the host reports is of the types of its fields. -/
structure Typed (host : HostInfo) : Prop where
  cpus : host.cpus < 2 ^ 64
  totalMemory : host.totalMemory < 2 ^ 64
  freeDisk : ∀ free, host.freeDisk = some free → free < 2 ^ 64

theorem Typed.memory {host : HostInfo} (h : host.Typed) : host.totalMemory / 1000000 < 2 ^ 64 := by
  have htotal := h.totalMemory
  omega

/-- The space declared by a node, in bytes. -/
def declared (e : String × NodeState) : Nat := e.2.vmConfig.diskSizeGb * 1000000000

/-- What a node has declared and not used. -/
def unused (host : HostInfo) (e : String × NodeState) : Nat := declared e - (host.dataSize e.1).getD 0

def Readable (host : HostInfo) (cache : NodesDataCache) : Prop := ∀ e ∈ cache, ∃ actual, host.dataSize e.1 = some actual

/-- **No operation of a check leaves its type.** A check that cannot read the size of some data ends
there. -/
structure Within (host : HostInfo) (cache : NodesDataCache) (tolerance : VmConfig) : Prop where
  correction : ∀ front e, front ++ [e] <+: cache → ∀ correction actual, host.usedDiskSpaceCorrection front = .ok correction →
    host.dataSize e.1 = some actual → declared e < 2 ^ 64 ∧ (actual < declared e → correction + (declared e - actual) < 2 ^ 64)
  vcpus : ∀ correction, host.usedDiskSpaceCorrection cache = .ok correction → Subtracts (·.2.vmConfig.vcpuCount) cache host.cpus
  memory : ∀ correction, host.usedDiskSpaceCorrection cache = .ok correction →
    Subtracts (·.2.vmConfig.memSizeMb) cache (host.totalMemory / 1000000)
  disk : ∀ correction free, host.usedDiskSpaceCorrection cache = .ok correction → host.freeDisk = some free → correction ≤ free
  tolerance : ∀ available, host.availableResources cache = .ok available →
    available.diskSizeGb + tolerance.diskSizeGb < 2 ^ 64 ∧ available.memSizeMb + tolerance.memSizeMb < 2 ^ 64 ∧
      available.vcpuCount + tolerance.vcpuCount < 2 ^ 64

def vcpus (cache : NodesDataCache) : Nat := (cache.map (·.2.vmConfig.vcpuCount)).sum

def memory (cache : NodesDataCache) : Nat := (cache.map (·.2.vmConfig.memSizeMb)).sum

def unusedSpace (host : HostInfo) (cache : NodesDataCache) : Nat := (cache.map host.unused).sum

/-- What the nodes have of the processors and the memory. -/
def Capacity (host : HostInfo) (cache : NodesDataCache) : Prop :=
  vcpus cache ≤ host.cpus ∧ memory cache ≤ host.totalMemory / 1000000

/-- The space that nodes have declared and not used is free, and what is left can be added to. -/
structure DiskRoom (host : HostInfo) (cache : NodesDataCache) (tolerance : VmConfig) : Prop where
  declared : ∀ front, front <+: cache → host.Readable front → (∀ e ∈ front, declared e < 2 ^ 64) ∧ host.unusedSpace front < 2 ^ 64
  free : host.Readable cache → ∀ free, host.freeDisk = some free → host.unusedSpace cache ≤ free
  tolerance : host.Readable cache → ∀ free, host.freeDisk = some free →
    (free - host.unusedSpace cache) / 1000000000 + tolerance.diskSizeGb < 2 ^ 64 ∧
      host.totalMemory / 1000000 - memory cache + tolerance.memSizeMb < 2 ^ 64 ∧
      host.cpus - vcpus cache + tolerance.vcpuCount < 2 ^ 64

structure Room (host : HostInfo) (cache : NodesDataCache) (tolerance : VmConfig) : Prop where
  capacity : host.Readable cache → host.Capacity cache
  disk : host.DiskRoom cache tolerance

variable {host : HostInfo} {cache : NodesDataCache} {tolerance : VmConfig}

theorem correction_append (e : String × NodeState) :
    host.usedDiskSpaceCorrection (cache ++ [e]) = host.usedDiskSpaceCorrection cache >>= fun correction =>
      match host.dataSize e.1 with
      | none => .error s!"can't check size of '{e.1}'"
      | some actual =>
        let declared := mul64 e.2.vmConfig.diskSizeGb 1000000000
        .ok (if actual < declared then add64 correction (declared - actual) else correction) := by
  unfold usedDiskSpaceCorrection
  rw [List.foldlM_append]
  refine bind_congr fun correction => ?_
  rw [List.foldlM_cons]
  cases host.dataSize e.1 with
  | none => rfl
  | some actual => rfl

theorem Readable.append {e : String × NodeState} : host.Readable (cache ++ [e]) ↔ host.Readable cache ∧ ∃ actual, host.dataSize e.1 = some actual := by
  simp [Readable, or_imp, forall_and]

/-- A correction is computed exactly if all sizes can be read. -/
theorem readable_iff : host.Readable cache ↔ ∃ correction, host.usedDiskSpaceCorrection cache = .ok correction := by
  induction cache using List.reverseRecOn with
  | nil => exact ⟨fun _ => ⟨0, rfl⟩, fun _ e he => by cases he⟩
  | append_singleton cache e ih =>
    rw [Readable.append, ih, correction_append]
    constructor
    · intro ⟨⟨correction, hcorrection⟩, ⟨actual, hactual⟩⟩
      rw [hcorrection, hactual]
      exact ⟨_, rfl⟩
    · intro ⟨correction, hcorrection⟩
      cases hfront : host.usedDiskSpaceCorrection cache with
      | error err =>
        rw [hfront] at hcorrection
        cases hcorrection
      | ok front =>
        cases hactual : host.dataSize e.1 with
        | none =>
          rw [hfront, hactual] at hcorrection
          cases hcorrection
        | some actual => exact ⟨⟨front, rfl⟩, ⟨actual, rfl⟩⟩

theorem unusedSpace_append {e : String × NodeState} {actual : Nat} (hactual : host.dataSize e.1 = some actual) :
    host.unusedSpace (cache ++ [e]) = host.unusedSpace cache + (declared e - actual) := by
  simp [unusedSpace, unused, hactual]

/-- One more node. -/
theorem correction_exact_append {e : String × NodeState} {actual : Nat} (hfront : host.usedDiskSpaceCorrection cache = .ok (host.unusedSpace cache))
    (hactual : host.dataSize e.1 = some actual) (hdeclared : declared e < 2 ^ 64)
    (hsum : actual < declared e → host.unusedSpace cache + (declared e - actual) < 2 ^ 64) :
    host.usedDiskSpaceCorrection (cache ++ [e]) = .ok (host.unusedSpace (cache ++ [e])) := by
  have hmul : mul64 e.2.vmConfig.diskSizeGb 1000000000 = declared e := Nat.mod_eq_of_lt hdeclared
  rw [correction_append, hfront, hactual, unusedSpace_append hactual]
  show Except.ok (if actual < mul64 e.2.vmConfig.diskSizeGb 1000000000 then _ else _) = _
  rw [hmul]
  by_cases h : actual < declared e
  · rw [if_pos h, add64, Nat.mod_eq_of_lt (hsum h)]
  · rw [if_neg h, Nat.sub_eq_zero_of_le (by omega), Nat.add_zero]

/-- Within their types, the operations of the correction are exact. -/
theorem Within.exact (h : host.Within cache tolerance) {front : NodesDataCache} (hfront : front <+: cache) (hreadable : host.Readable front) :
    host.usedDiskSpaceCorrection front = .ok (host.unusedSpace front) ∧ (∀ e ∈ front, HostInfo.declared e < 2 ^ 64) ∧
      host.unusedSpace front < 2 ^ 64 := by
  induction front using List.reverseRecOn with
  | nil => exact ⟨rfl, List.forall_mem_nil _, Nat.two_pow_pos 64⟩
  | append_singleton front e ih =>
    obtain ⟨hread, actual, hactual⟩ := Readable.append.mp hreadable
    obtain ⟨hexact, hdeclared, hspace⟩ := ih ((List.prefix_append front [e]).trans hfront) hread
    obtain ⟨he, hsum⟩ := h.correction front e hfront _ actual hexact hactual
    refine ⟨correction_exact_append hexact hactual he hsum, fun e' he' => ?_, ?_⟩
    · cases List.mem_append.mp he' with
      | inl hmem => exact hdeclared e' hmem
      | inr hmem => rw [List.mem_singleton.mp hmem]; exact he
    · rw [unusedSpace_append hactual]
      by_cases hless : actual < HostInfo.declared e
      · exact hsum hless
      · omega

/-- Where there is room, so are they. -/
theorem DiskRoom.exact (h : host.DiskRoom cache tolerance) {front : NodesDataCache} (hfront : front <+: cache) (hreadable : host.Readable front) :
    host.usedDiskSpaceCorrection front = .ok (host.unusedSpace front) := by
  induction front using List.reverseRecOn with
  | nil => rfl
  | append_singleton front e ih =>
    obtain ⟨hread, actual, hactual⟩ := Readable.append.mp hreadable
    obtain ⟨hdeclared, hspace⟩ := h.declared _ hfront hreadable
    rw [unusedSpace_append hactual] at hspace
    exact correction_exact_append (ih ((List.prefix_append front [e]).trans hfront) hread) hactual (hdeclared e (by simp)) fun _ => hspace

/-- What is available, where nothing wraps around. -/
theorem availableResources_exact (htyped : host.Typed) (hexact : host.usedDiskSpaceCorrection cache = .ok (host.unusedSpace cache))
    (hcapacity : host.Capacity cache) {free : Nat} (hfree : host.freeDisk = some free) (hdisk : host.unusedSpace cache ≤ free) :
    host.availableResources cache = .ok
      { vcpuCount := host.cpus - vcpus cache
        memSizeMb := host.totalMemory / 1000000 - memory cache
        diskSizeGb := (free - host.unusedSpace cache) / 1000000000 } := by
  have hmemory := htyped.memory
  unfold availableResources
  rw [hexact, hfree]
  show Except.ok _ = Except.ok _
  rw [foldl_sub64 hcapacity.1 htyped.cpus, foldl_sub64 hcapacity.2 hmemory, sub64_exact hdisk (htyped.freeDisk free hfree)]
  rfl

theorem Within.room (h : host.Within cache tolerance) (htyped : host.Typed) : host.Room cache tolerance := by
  have hmemory := htyped.memory
  have hcapacity : host.Readable cache → host.Capacity cache := by
    intro hreadable
    obtain ⟨hexact, -, -⟩ := h.exact List.prefix_rfl hreadable
    exact ⟨(subtracts_iff htyped.cpus).mp (h.vcpus _ hexact), (subtracts_iff hmemory).mp (h.memory _ hexact)⟩
  have hdisk : host.Readable cache → ∀ free, host.freeDisk = some free → host.unusedSpace cache ≤ free := by
    intro hreadable free hfree
    obtain ⟨hexact, -, -⟩ := h.exact List.prefix_rfl hreadable
    exact h.disk _ free hexact hfree
  refine ⟨hcapacity, ?_, hdisk, ?_⟩
  · intro front hfront hreadable
    obtain ⟨-, hdeclared, hspace⟩ := h.exact hfront hreadable
    exact ⟨hdeclared, hspace⟩
  · intro hreadable free hfree
    obtain ⟨hexact, -, -⟩ := h.exact List.prefix_rfl hreadable
    exact h.tolerance _ (availableResources_exact htyped hexact (hcapacity hreadable) hfree (hdisk hreadable free hfree))

theorem Room.within (h : host.Room cache tolerance) (htyped : host.Typed) : host.Within cache tolerance := by
  have hmemory := htyped.memory
  refine ⟨?_, ?_, ?_, ?_, ?_⟩
  · intro front e hfront correction actual hcorrection hactual
    have hread := readable_iff.mpr ⟨correction, hcorrection⟩
    obtain ⟨hdeclared, hspace⟩ := h.disk.declared _ hfront (Readable.append.mpr ⟨hread, actual, hactual⟩)
    have hexact := h.disk.exact ((List.prefix_append front [e]).trans hfront) hread
    rw [hexact] at hcorrection
    cases hcorrection
    rw [unusedSpace_append hactual] at hspace
    exact ⟨hdeclared e (by simp), fun _ => hspace⟩
  · intro correction hcorrection
    exact (subtracts_iff htyped.cpus).mpr (h.capacity (readable_iff.mpr ⟨correction, hcorrection⟩)).1
  · intro correction hcorrection
    exact (subtracts_iff hmemory).mpr (h.capacity (readable_iff.mpr ⟨correction, hcorrection⟩)).2
  · intro correction free hcorrection hfree
    have hread := readable_iff.mpr ⟨correction, hcorrection⟩
    rw [h.disk.exact List.prefix_rfl hread] at hcorrection
    cases hcorrection
    exact h.disk.free hread free hfree
  · intro available havailable
    cases hcorrection : host.usedDiskSpaceCorrection cache with
    | error err =>
      unfold availableResources at havailable
      rw [hcorrection] at havailable
      cases havailable
    | ok correction =>
      have hread := readable_iff.mpr ⟨correction, hcorrection⟩
      cases hfree : host.freeDisk with
      | none =>
        unfold availableResources at havailable
        rw [hcorrection, hfree] at havailable
        cases havailable
      | some free =>
        rw [availableResources_exact htyped (h.disk.exact List.prefix_rfl hread) (h.capacity hread) hfree (h.disk.free hread free hfree)]
          at havailable
        cases havailable
        exact h.disk.tolerance hread free hfree

theorem within_iff (htyped : host.Typed) : host.Within cache tolerance ↔ host.Room cache tolerance :=
  ⟨fun h => h.room htyped, fun h => h.within htyped⟩

/-- What passes a check that stays within its types fits into what is left. -/
theorem check_passed (h : host.Within cache tolerance) (htyped : host.Typed) {vm : VmConfig}
    (hcheck : checkNodeRequirements false host cache vm tolerance = .ok ()) :
    host.Capacity cache ∧
      (∃ free, host.freeDisk = some free ∧ host.unusedSpace cache ≤ free ∧
        vm.diskSizeGb ≤ (free - host.unusedSpace cache) / 1000000000 + tolerance.diskSizeGb) ∧
      vm.memSizeMb ≤ host.totalMemory / 1000000 - memory cache + tolerance.memSizeMb ∧
      vm.vcpuCount ≤ host.cpus - vcpus cache + tolerance.vcpuCount := by
  have hroom := h.room htyped
  unfold checkNodeRequirements at hcheck
  rw [if_neg (by decide)] at hcheck
  cases hcorrection : host.usedDiskSpaceCorrection cache with
  | error err =>
    unfold availableResources at hcheck
    rw [hcorrection] at hcheck
    cases hcheck
  | ok correction =>
    have hread := readable_iff.mpr ⟨correction, hcorrection⟩
    have hcapacity := hroom.capacity hread
    cases hfree : host.freeDisk with
    | none =>
      unfold availableResources at hcheck
      rw [hcorrection, hfree] at hcheck
      cases hcheck
    | some free =>
      have hunused := hroom.disk.free hread free hfree
      rw [availableResources_exact htyped (hroom.disk.exact List.prefix_rfl hread) hcapacity hfree hunused] at hcheck
      obtain ⟨hdisk, hmemory, hvcpus⟩ := hroom.disk.tolerance hread free hfree
      simp only [add64, Nat.mod_eq_of_lt hdisk, Nat.mod_eq_of_lt hmemory, Nat.mod_eq_of_lt hvcpus] at hcheck
      split at hcheck
      · cases hcheck
      split at hcheck
      · cases hcheck
      split at hcheck
      · cases hcheck
      exact ⟨hcapacity, ⟨free, rfl, hunused, by omega⟩, by omega, by omega⟩

/-- It fits beside the other nodes. -/
theorem fits_of_check (h : host.Within cache tolerance) (htyped : host.Typed) {vm : VmConfig}
    (hcheck : checkNodeRequirements false host cache vm tolerance = .ok ()) :
    vcpus cache + vm.vcpuCount ≤ host.cpus + tolerance.vcpuCount ∧
      memory cache + vm.memSizeMb ≤ host.totalMemory / 1000000 + tolerance.memSizeMb := by
  obtain ⟨hcapacity, -, hmemory, hvcpus⟩ := check_passed h htyped hcheck
  unfold Capacity at hcapacity
  omega

end HostInfo

/-! ## Along a run -/

/-- What a host has for its nodes, whatever runs on it. -/
structure HostCapacity where
  cpus : Nat
  memoryMb : Nat

namespace HostCapacity

def Of (capacity : HostCapacity) (host : HostInfo) : Prop :=
  host.Typed ∧ host.cpus = capacity.cpus ∧ host.totalMemory / 1000000 = capacity.memoryMb

/-- All the nodes fit. -/
def Holds (capacity : HostCapacity) (cache : Table String NodeState) : Prop :=
  cache.total (·.vmConfig.vcpuCount) ≤ capacity.cpus ∧ cache.total (·.vmConfig.memSizeMb) ≤ capacity.memoryMb

end HostCapacity

namespace NodesManager

/-- What the check of a task may add to what is available, if its next step is one. -/
def tolerance : Task → Option VmConfig
  | .createAdmit _ => some .zero
  | .upgradeAdmit _ tolerance => some tolerance
  | _ => none

/-- What the next step of a task puts into the cache. -/
def entry (m : NodesManager) : Task → Option (String × NodeState)
  | .createCache id st => some (id, st)
  | .refreshCache id =>
    match m.nodes.lookup id with
    | some (.node n) => some (id, n.state)
    | _ => none
  | _ => none

/-- The check that is made in this step, if one is, leaves no type. -/
def CheckWithin (m : NodesManager) : Event → Prop
  | .call .. => True
  | .go t env => ∀ task tol, m.tasks.lookup t = some task → tolerance task = some tol → env.maintenance = false →
    env.host.Within m.nodesDataCache tol

/-- A node that enters the cache fits beside the others, and when there is a check the host has room on
its disk. -/
def Admits (capacity : HostCapacity) (m : NodesManager) : Event → Prop
  | .call .. => True
  | .go t env => ∀ task, m.tasks.lookup t = some task →
    (∀ id st, m.entry task = some (id, st) → capacity.Holds (m.nodeStateCache.insert id st)) ∧
      ∀ tol, tolerance task = some tol → env.maintenance = false → capacity.Of env.host ∧ env.host.DiskRoom m.nodesDataCache tol

variable {m m' : NodesManager} {env : TaskEnv} {capacity : HostCapacity}

theorem nodesDataCache_total (f : NodeState → Nat) : (m.nodesDataCache.map fun e => f e.2).sum = m.nodeStateCache.total f := by
  unfold nodesDataCache Table.total
  rw [List.map_map]
  rfl

theorem callNode_cache {id what : String} {op : NodeC Unit} {next : Node → Task} {outcome : Outcome}
    (hs : m.callNode env id what op next = some (outcome, m')) : m'.nodeStateCache = m.nodeStateCache := by
  obtain ⟨err, _, _, hm⟩ | ⟨n, r, n', _, _, hm, _⟩ := callNode_cases hs
  · rw [hm]
  · rw [hm]
    rfl

/-- What a step does to the cache. -/
theorem advance_cache {task : Task} {outcome : Outcome} (hs : m.advance env task = some (outcome, m')) :
    m'.nodeStateCache = m.nodeStateCache ∨ (∃ id, m'.nodeStateCache = m.nodeStateCache.erase id) ∨
      ∃ id st, m.entry task = some (id, st) ∧ m'.nodeStateCache = m.nodeStateCache.insert id st := by
  cases task with
  | create desired =>
    obtain ⟨-, hs⟩ := Option.ite_none_right_eq_some.mp hs
    cases hs
    exact .inl rfl
  | createAdmit desired =>
    simp only [advance] at hs
    split at hs <;> cases hs <;> exact .inl rfl
  | createAddress desired =>
    cases hs
    exact .inl rfl
  | createNode desired =>
    simp only [advance] at hs
    split at hs
    · cases hs
    · cases hs
      exact .inl rfl
    · cases hs
      exact .inl rfl
  | createInsert id n =>
    obtain ⟨-, hs⟩ := Option.ite_none_right_eq_some.mp hs
    cases hs
    exact .inl rfl
  | createName id st =>
    cases hs
    exact .inl rfl
  | createCache id st =>
    cases hs
    exact .inr (.inr ⟨id, st, rfl, rfl⟩)
  | upgrade desired =>
    obtain ⟨-, hs⟩ := Option.ite_none_right_eq_some.mp hs
    cases hs
    exact .inl rfl
  | upgradeAdmit desired tolerance =>
    simp only [advance] at hs
    split at hs <;> cases hs <;> exact .inl rfl
  | upgradeNode desired =>
    obtain ⟨-, hs⟩ := Option.ite_none_right_eq_some.mp hs
    exact .inl (callNode_cache hs)
  | delete id =>
    obtain ⟨-, hs⟩ := Option.ite_none_right_eq_some.mp hs
    exact .inl (callNode_cache hs)
  | deleteNode id name =>
    obtain ⟨-, hs⟩ := Option.ite_none_right_eq_some.mp hs
    cases hs
    exact .inl rfl
  | deleteName id name =>
    obtain ⟨-, hs⟩ := Option.ite_none_right_eq_some.mp hs
    cases hs
    exact .inl rfl
  | deleteCache id =>
    cases hs
    exact .inr (.inl ⟨id, rfl⟩)
  | rename id name dnsName =>
    obtain ⟨-, hs⟩ := Option.ite_none_right_eq_some.mp hs
    have hcache := congrArg (fun r => r.2.nodeStateCache) (Option.some.inj hs)
    refine .inl (hcache.symm.trans ?_)
    unfold renameId
    split
    · rfl
    · split <;> rfl
  | renameNode id name dnsName =>
    obtain ⟨-, hs⟩ := Option.ite_none_right_eq_some.mp hs
    exact .inl (callNode_cache hs)
  | update id u =>
    obtain ⟨-, hs⟩ := Option.ite_none_right_eq_some.mp hs
    split at hs
    · cases hs
      exact .inl rfl
    · exact .inl (callNode_cache hs)
  | refreshCache id =>
    simp only [advance] at hs
    split at hs
    · rename_i n hn
      cases hs
      exact .inr (.inr ⟨id, n.state, by simp [entry, hn], rfl⟩)
    · cases hs

theorem settle_cache (t : Nat) (outcome : Outcome) : (m.settle t outcome).nodeStateCache = m.nodeStateCache := by
  cases outcome <;> rfl

theorem total_erase (f : NodeState → Nat) (cache : Table String NodeState) (id : String) :
    Table.total f (cache.erase id) ≤ Table.total f cache := by
  have hsub := (List.kerase_sublist id cache.entries).map fun e => f e.2
  exact hsub.sum_le_sum fun _ _ => Nat.zero_le _

/-- A step that lets in only what fits keeps the nodes fitting. -/
theorem holds_step {e : Event} (h : capacity.Holds m.nodeStateCache) (hadmits : m.Admits capacity e) (hs : m.step e = some m') :
    capacity.Holds m'.nodeStateCache := by
  unfold step at hs
  cases e with
  | call t task =>
    obtain ⟨-, hs⟩ := Option.ite_none_right_eq_some.mp hs
    cases hs
    exact h
  | go t env =>
    dsimp only at hs
    split at hs
    · cases hs
    rename_i task ht
    split at hs
    · cases hs
    rename_i outcome m₁ hadvance
    cases hs
    rw [settle_cache]
    obtain hsame | ⟨id, herase⟩ | ⟨id, st, hentry, hinsert⟩ := advance_cache hadvance
    · rw [hsame]
      exact h
    · rw [herase]
      exact ⟨(total_erase _ _ id).trans h.1, (total_erase _ _ id).trans h.2⟩
    · rw [hinsert]
      exact (hadmits task ht).1 id st hentry

theorem checkWithin_of_admits {e : Event} (h : capacity.Holds m.nodeStateCache) (hadmits : m.Admits capacity e) : m.CheckWithin e := by
  cases e with
  | call t task => trivial
  | go t env =>
    intro task tol ht htol hmaintenance
    obtain ⟨⟨htyped, hcpus, hmemory⟩, hdisk⟩ := (hadmits task ht).2 tol htol hmaintenance
    refine HostInfo.Room.within ⟨fun _ => ?_, hdisk⟩ htyped
    unfold HostInfo.Capacity HostInfo.vcpus HostInfo.memory
    rw [hcpus, hmemory, nodesDataCache_total (·.vmConfig.vcpuCount), nodesDataCache_total (·.vmConfig.memSizeMb)]
    exact h

end NodesManager

open NodesManager

/-- **The resources of a host do not wrap around** exactly if its nodes fit on it; and along a run no check
wraps around as long as each node that enters the cache fits beside the others, as one that passes the
check does. -/
theorem resources_within (host : HostInfo) (cache : NodesDataCache) (vm tolerance : VmConfig) (capacity : HostCapacity)
    (m : NodesManager) (events : List Event) :
    (host.Typed → (host.Within cache tolerance ↔ host.Room cache tolerance)) ∧
    (capacity.Holds m.nodeStateCache → Along step (Admits capacity) m events → Along step CheckWithin m events) ∧
    (host.Typed → host.Within cache tolerance → checkNodeRequirements false host cache vm tolerance = .ok () →
      HostInfo.vcpus cache + vm.vcpuCount ≤ host.cpus + tolerance.vcpuCount ∧
        HostInfo.memory cache + vm.memSizeMb ≤ host.totalMemory / 1000000 + tolerance.memSizeMb) := by
  refine ⟨fun htyped => HostInfo.within_iff htyped, fun hholds hadmits => ?_,
    fun htyped hwithin hcheck => HostInfo.fits_of_check hwithin htyped hcheck⟩
  exact Along.of_invariant (I := fun m => capacity.Holds m.nodeStateCache) step (fun _ _ h hadmits => checkWithin_of_admits h hadmits)
    (fun _ _ _ h hadmits hs => holds_step h hadmits hs) hholds hadmits

/-- A node of 2000 MB is created in dev mode, and then another one is to be created. -/
def createInDevMode : List Event :=
  .call 0 (.create { (default : NodeState) with
      id := "id", name := "node", ip := "10.0.0.1", devMode := true, vmConfig := ⟨4, 2000, 10, []⟩ }) ::
    List.replicate 6 (.go 0 .fine)

/-- It does not fit on a host of 1000 MB, whose memory wraps around at the next check. -/
theorem resources_wrapped :
    ¬ ∀ (m : NodesManager) (host : HostInfo), run step .empty createInDevMode = some m → host.Typed →
      host.Within m.nodesDataCache .zero := by
  intro h
  have hend : (run step .empty createInDevMode).map (fun m => m.nodesDataCache.map fun e => e.2.vmConfig.memSizeMb) = some [2000] := by
    decide +kernel
  cases hrun : run step NodesManager.empty createInDevMode with
  | none => simp [hrun] at hend
  | some m =>
    rw [hrun] at hend
    have htyped : HostInfo.Typed ⟨1000000000, 4, none, fun _ => some 0⟩ := ⟨by decide, by decide, nofun⟩
    have hroom := (h m _ hrun htyped).room htyped
    have hmemory := (hroom.capacity fun e _ => ⟨0, rfl⟩).2
    have hnodes : m.nodesDataCache.map (fun e => e.2.vmConfig.memSizeMb) = [2000] := Option.some.inj hend
    unfold HostInfo.memory at hmemory
    rw [hnodes] at hmemory
    exact absurd hmemory (by decide)

end Blockvisor
