/-
The nodes manager (`nodes_manager.rs`): the index of the nodes by name, the
nodes, the cache of their states, and the calls that work on these at the same
time. A `Task` is a call on its way, by what it does next; it holds a lock from
one step to the next where the source does. What a step finds outside of the
manager is its `TaskEnv`: the registry of cores, which other calls use too, and
what the host has left.

A call on a node is a single step, as it holds the lock of the node. The lock
of the index is held by a create to its end, that of the nodes is held for
reading by an upgrade, an update and a rename once they look at their node.
-/
import Blockvisor.Lib.Table
import Blockvisor.Bv.NodeCalls

namespace Blockvisor

open Effect

/-- A node, or the state of one that could not be attached to. -/
inductive MaybeNode where
  | node (n : Node)
  | broken (st : NodeState)

def MaybeNode.state : MaybeNode → NodeState
  | .node n => n.state
  | .broken st => st

/-! ## Resources -/

structure AvailableResources where
  vcpuCount : Nat
  memSizeMb : Nat
  diskSizeGb : Nat

/-- What the daemon asks its host for: memory and free disk space in bytes, and the size of the data
of a node. -/
structure HostInfo where
  totalMemory : Nat
  cpus : Nat
  freeDisk : Option Nat
  dataSize : String → Option Nat

/-- Arithmetic on 64 bits. -/
def sub64 (a b : Nat) : Nat := (a + 2 ^ 64 - b % 2 ^ 64) % 2 ^ 64

def add64 (a b : Nat) : Nat := (a + b) % 2 ^ 64

def mul64 (a b : Nat) : Nat := a * b % 2 ^ 64

abbrev NodesDataCache := List (String × NodeState)

namespace HostInfo

/-- The space that the nodes have declared and not used yet. -/
def usedDiskSpaceCorrection (host : HostInfo) (cache : NodesDataCache) : Except String Nat :=
  cache.foldlM (fun correction e =>
    match host.dataSize e.1 with
    | none => .error s!"can't check size of '{e.1}'"
    | some actual =>
      let declared := mul64 e.2.vmConfig.diskSizeGb 1000000000
      .ok (if actual < declared then add64 correction (declared - actual) else correction)) 0

def availableResources (host : HostInfo) (cache : NodesDataCache) : Except String AvailableResources := do
  let correction ← host.usedDiskSpaceCorrection cache
  match host.freeDisk with
  | none => .error "Cannot get available disk space"
  | some free => .ok {
      vcpuCount := cache.foldl (fun available e => sub64 available e.2.vmConfig.vcpuCount) host.cpus
      memSizeMb := cache.foldl (fun available e => sub64 available e.2.vmConfig.memSizeMb) (host.totalMemory / 1000000)
      diskSizeGb := sub64 free correction / 1000000000 }

end HostInfo

/-- `check_node_requirements`; an upgrade has what the node uses on top of what is available. -/
def checkNodeRequirements (maintenance : Bool) (host : HostInfo) (cache : NodesDataCache) (vm : VmConfig)
    (tolerance : VmConfig) : Except CommandError Unit :=
  if maintenance then .ok ()
  else
    match host.availableResources cache with
    | .error err => .error (.internal err)
    | .ok available =>
      let disk := add64 available.diskSizeGb tolerance.diskSizeGb
      if disk < vm.diskSizeGb then
        .error (.internal s!"not enough disk space to allocate for the node: required={vm.diskSizeGb}, available={disk}")
      else if add64 available.memSizeMb tolerance.memSizeMb < vm.memSizeMb then
        .error (.internal "not enough memory to allocate for the node")
      else if add64 available.vcpuCount tolerance.vcpuCount < vm.vcpuCount then
        .error (.internal "not enough vcpu to allocate for the node")
      else .ok ()

def VmConfig.zero : VmConfig := ⟨0, 0, 0, []⟩

/-! ## Tasks -/

/-- A call, by what it does next. -/
inductive Task where
  | create (desired : NodeState)
  | createAdmit (desired : NodeState)
  | createAddress (desired : NodeState)
  | createNode (desired : NodeState)
  | createInsert (id : String) (n : Node)
  | createName (id : String) (st : NodeState)
  | createCache (id : String) (st : NodeState)
  | upgrade (desired : NodeState)
  | upgradeAdmit (desired : NodeState) (tolerance : VmConfig)
  | upgradeNode (desired : NodeState)
  | delete (id : String)
  | deleteNode (id name : String)
  | deleteName (id name : String)
  | deleteCache (id : String)
  | rename (id newName newDnsName : String)
  | renameNode (id newName newDnsName : String)
  | update (id : String) (u : ConfigUpdate)
  | refreshCache (id : String)

namespace Task

/-- A call that has not begun. -/
def isCall : Task → Bool
  | .create _ => true
  | .upgrade _ => true
  | .delete _ => true
  | .rename .. => true
  | .update .. => true
  | _ => false

/-- The lock of the index is held. -/
def holdsIds : Task → Bool
  | .createAdmit _ => true
  | .createAddress _ => true
  | .createNode _ => true
  | .createInsert .. => true
  | .createName .. => true
  | .createCache .. => true
  | _ => false

/-- The nodes are held for reading. -/
def readsNodes : Task → Bool
  | .upgradeAdmit .. => true
  | .upgradeNode _ => true
  | .refreshCache _ => true
  | _ => false

/-- The lock of the node is held. -/
def holdsNode (id : String) : Task → Bool
  | .refreshCache id' => id' = id
  | _ => false

end Task

/-- What a step meets: what the checks of the call's arguments say, what the daemon is told about
the host, what fails on the node, and what is on the host for a node to be created. -/
structure TaskEnv where
  version : Except CommandError Unit
  firewall : Except CommandError Unit
  maintenance : Bool
  host : HostInfo
  call : CallEnv
  registry : CpuRegistry
  site : Site

structure NodesManager where
  nodeIds : Table String String
  nodes : Table String MaybeNode
  nodeStateCache : Table String NodeState
  tasks : Table Nat Task

/-- What becomes of a task in a step. -/
inductive Outcome where
  | done (res : Except CommandError Unit)
  | next (task : Task)

namespace NodesManager

def idsFree (m : NodesManager) : Bool := m.tasks.entries.all fun e => !e.2.holdsIds

def nodesFree (m : NodesManager) : Bool := m.tasks.entries.all fun e => !e.2.readsNodes

def nodeFree (m : NodesManager) (id : String) : Bool := m.tasks.entries.all fun e => !e.2.holdsNode id

def nodesDataCache (m : NodesManager) : NodesDataCache := m.nodeStateCache.entries.map fun e => (e.1, e.2)

/-- The node of a call; `what` is what the call does to it. -/
def found (m : NodesManager) (id what : String) : Except CommandError Node :=
  match m.nodes.lookup id with
  | none => .error .nodeNotFound
  | some (.broken _) => .error (.internal s!"cannot {what} broken node `{id}`")
  | some (.node n) => .ok n

def setNode (m : NodesManager) (id : String) (n : Node) : NodesManager := { m with nodes := m.nodes.insert id (.node n) }

/-- An operation on a node, if the daemon lives through it. -/
def runOn (op : NodeC Unit) (n : Node) (env : TaskEnv) : Option (Except CommandError Unit × Node) :=
  match op { n.inEnv env.call with registry := env.registry } with
  | (.ok (), n) => some (.ok (), n)
  | (.error (.error err), n) => some (.error err, n)
  | (.error .killed, _) => none

/-- The call is made on its node, and goes on with the next task when it returns. -/
def callNode (m : NodesManager) (env : TaskEnv) (id what : String) (op : NodeC Unit) (next : Node → Task) :
    Option (Outcome × NodesManager) :=
  match m.found id what with
  | .error err => some (.done (.error err), m)
  | .ok n =>
    match runOn op n env with
    | none => none
    | some (.ok (), n) => some (.next (next n), m.setNode id n)
    | some (.error err, n) => some (.done (.error err), m.setNode id n)

/-! ## Steps -/

/-- Of a create, what is done before the resources are checked. -/
def beginCreate (m : NodesManager) (env : TaskEnv) (desired : NodeState) : Outcome :=
  match env.version with
  | .error err => .done (.error err)
  | .ok () =>
    if (m.nodeStateCache.lookup desired.id).isSome then .done (.ok ())
    else if (m.nodeIds.lookup desired.name).isSome then
      .done (.error (.internal s!"node with name `{desired.name}` exists"))
    else
      match env.firewall with
      | .error err => .done (.error err)
      | .ok () =>
        if desired.devMode then .next (.createAddress { desired with vmConfig.vcpuCount := 0 })
        else .next (.createAdmit desired)

/-- The address must be that of no node. -/
def checkAddress (m : NodesManager) (desired : NodeState) : Outcome :=
  if m.nodes.entries.any fun e => e.2.state.ip = desired.ip then
    .done (.error (.internal s!"node with ip address `{desired.ip}` exists"))
  else .next (.createNode desired)

/-- A node that is not there yet, with what is on the host for it. -/
def newNode (env : TaskEnv) (desired : NodeState) : Node where
  site := env.site
  state := desired
  file := ⟨.missing, .missing⟩
  registry := env.registry
  saves := []
  told := 0
  unfinished := false
  ready := []

/-- Of an upgrade, what is done on the node as it is read. -/
def beginUpgrade (m : NodesManager) (env : TaskEnv) (desired : NodeState) : Outcome :=
  match env.version with
  | .error err => .done (.error err)
  | .ok () =>
    match m.found desired.id "upgrade" with
    | .error err => .done (.error err)
    | .ok n =>
      if desired.image.id = n.state.image.id then .done (.ok ())
      else
        match prepareUpgrade n.state desired with
        | .error err => .done (.error err)
        | .ok desired =>
          if n.state.devMode then .next (.upgradeNode desired) else .next (.upgradeAdmit desired n.state.vmConfig)

/-- The index has the new name in place of the old one. -/
def renameId (m : NodesManager) (id newName newDnsName : String) : Outcome × NodesManager :=
  match m.nodeIds.entries.find? fun e => e.2 = id with
  | none => (.done (.error (.internal s!"node `{id}` not found in name index")), m)
  | some e =>
    if newName ≠ e.1 ∧ (m.nodeIds.lookup newName).isSome then
      (.done (.error (.internal s!"node with name `{newName}` exists")), m)
    else (.next (.renameNode id newName newDnsName), { m with nodeIds := (m.nodeIds.erase e.1).insert newName id })

/-- What a rename does to the node. -/
def renameNode (newName newDnsName : String) : NodeC Unit := do
  Node.lift (Node.modifyState fun st => { st with name := newName, dnsName := newDnsName })
  Node.lift Node.saveState

/-- The check of new firewall rules, if there are any. -/
def checkFirewall (env : TaskEnv) (u : ConfigUpdate) : Except CommandError Unit :=
  if u.newFirewall.isSome then env.firewall else .ok ()

/-- A step of a task, unless it has to wait. -/
def advance (m : NodesManager) (env : TaskEnv) : Task → Option (Outcome × NodesManager)
  | .create desired => if m.idsFree then some (m.beginCreate env desired, m) else none
  | .createAdmit desired =>
    match checkNodeRequirements env.maintenance env.host m.nodesDataCache desired.vmConfig .zero with
    | .error err => some (.done (.error err), m)
    | .ok () => some (.next (.createAddress desired), m)
  | .createAddress desired => some (m.checkAddress desired, m)
  | .createNode desired =>
    match runOn (Node.lift (Node.create desired)) (newNode env desired) env with
    | none => none
    | some (.error err, _) => some (.done (.error err), m)
    | some (.ok (), n) => some (.next (.createInsert desired.id n), m)
  | .createInsert id n => if m.nodesFree then some (.next (.createName id n.state), m.setNode id n) else none
  | .createName id st =>
    some (.next (.createCache id st), { m with nodeIds := m.nodeIds.insert st.name id })
  | .createCache id st => some (.done (.ok ()), { m with nodeStateCache := m.nodeStateCache.insert id st })
  | .upgrade desired => if m.nodeFree desired.id then some (m.beginUpgrade env desired, m) else none
  | .upgradeAdmit desired tolerance =>
    match checkNodeRequirements env.maintenance env.host m.nodesDataCache desired.vmConfig tolerance with
    | .error err => some (.done (.error err), m)
    | .ok () => some (.next (.upgradeNode desired), m)
  | .upgradeNode desired =>
    if m.nodeFree desired.id then
      m.callNode env desired.id "upgrade" (Node.upgrade desired) fun _ => .refreshCache desired.id
    else none
  | .delete id =>
    if m.nodeFree id then m.callNode env id "delete" (Node.lift Node.delete) fun n => .deleteNode id n.state.name
    else none
  | .deleteNode id name =>
    if m.nodesFree then some (.next (.deleteName id name), { m with nodes := m.nodes.erase id }) else none
  | .deleteName id name =>
    if m.idsFree then some (.next (.deleteCache id), { m with nodeIds := m.nodeIds.erase name }) else none
  | .deleteCache id => some (.done (.ok ()), { m with nodeStateCache := m.nodeStateCache.erase id })
  | .rename id newName newDnsName => if m.idsFree then some (m.renameId id newName newDnsName) else none
  | .renameNode id newName newDnsName =>
    if m.nodeFree id then m.callNode env id "rename" (renameNode newName newDnsName) fun _ => .refreshCache id
    else none
  | .update id u =>
    if m.nodeFree id then
      match checkFirewall env u with
      | .error err => some (.done (.error err), m)
      | .ok () => m.callNode env id "update" (Node.update u) fun _ => .refreshCache id
    else none
  | .refreshCache id =>
    match m.nodes.lookup id with
    | some (.node n) => some (.done (.ok ()), { m with nodeStateCache := m.nodeStateCache.insert id n.state })
    | _ => none

/-- What happens: a call is made, or a task goes on. -/
inductive Event where
  | call (t : Nat) (task : Task)
  | go (t : Nat) (env : TaskEnv)

def settle (m : NodesManager) (t : Nat) : Outcome → NodesManager
  | .done _ => { m with tasks := m.tasks.erase t }
  | .next task => { m with tasks := m.tasks.insert t task }

def step (m : NodesManager) : Event → Option NodesManager
  | .call t task =>
    if task.isCall ∧ m.tasks.lookup t = none then some { m with tasks := m.tasks.insert t task } else none
  | .go t env =>
    match m.tasks.lookup t with
    | none => none
    | some task =>
      match m.advance env task with
      | none => none
      | some (outcome, m') => some (m'.settle t outcome)

end NodesManager

end Blockvisor
