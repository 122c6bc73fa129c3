/-
What the host and the daemon hold for one node besides its state: the node's
directory, its container and babel processes, the firewall rules, and the
objects through which the daemon works on them. `SiteM` is a computation on
these that may fail.

What the environment does is read from two lists. `faults` has one entry for
each operation that can fail: that it is done, fails or dies with the daemon,
and how much of it was done (`Cut`). `answers` has one for each question whose
answer depends on more than is modelled. An empty list means that nothing
fails and every answer is no.
-/
import Blockvisor.Lib.Effect
import Blockvisor.Bv.NodeState

namespace Blockvisor

/-! ## The node's directory and processes -/

/-- A directory meant for an image: whether `apptainer inspect` takes what is there for a built image,
or the image it was built from and a number no other build has. -/
inductive Rootfs where
  | absent
  | broken (looksBuilt : Bool)
  | built (uri : String) (gen : Nat)
  deriving DecidableEq

structure Cgroups where
  memoryLimit : Option Nat
  cpus : Option (List Nat)
  deriving DecidableEq

/-- The node's directory, but for its state file. -/
structure NodeDir where
  present : Bool
  dataDir : Bool
  dataStamp : Option Nat
  rootfs : Rootfs
  rootfsBackup : Rootfs
  pidFile : Option Nat
  cgroups : Option Cgroups
  deriving DecidableEq

def NodeDir.removed : NodeDir := ⟨false, false, none, .absent, .absent, none, none⟩

instance : Inhabited NodeDir := ⟨.removed⟩

/-- A container, and the build of the root filesystem it was started from. -/
structure Container where
  pid : Nat
  rootfs : Nat
  deriving DecidableEq

structure NodeFirewallConfig where
  id : String
  ip : String
  bridge : Option String
  config : Firewall.Config
  deriving DecidableEq

/-- The node's firewall rules: none, all those of a configuration, or what an interrupted change left. -/
inductive HostFirewall where
  | none
  | mixed
  | applied (config : NodeFirewallConfig)
  deriving DecidableEq

/-! ## The daemon's objects -/

structure BvContext where
  id : String
  name : String
  url : String
  bridge : Option String
  deriving DecidableEq, Inhabited

structure ApptainerConfig where
  cpuLimit : Bool
  memoryLimit : Bool
  deriving DecidableEq, Inhabited

structure NodeEnv where
  nodeId : String
  nodeName : String
  nodeOrgId : String
  nodeVersion : String
  nodeProtocol : String
  nodeVariant : String
  nodeIp : String
  nodeGateway : String
  devMode : Bool
  bvHostId : String
  bvHostName : String
  bvApiUrl : String
  dataMountPoint : String
  protocolDataPath : String
  properties : NodeProperties
  deriving DecidableEq, Inhabited

namespace NodeEnv

/-- `node_env::new`. -/
def new (context : BvContext) (st : NodeState) (dataMountPoint protocolDataPath : String) : NodeEnv where
  nodeId := st.id
  nodeName := st.name
  nodeOrgId := st.orgId
  nodeVersion := st.image.version
  nodeProtocol := st.imageKey.protocolKey
  nodeVariant := st.imageKey.variantKey
  nodeIp := st.ip
  nodeGateway := st.gateway
  devMode := st.devMode
  bvHostId := context.id
  bvHostName := context.name
  bvApiUrl := context.url
  dataMountPoint := dataMountPoint
  protocolDataPath := protocolDataPath
  properties := st.properties

/-- `node_env::update_state`: the properties stay as they are. -/
def updateState (env : NodeEnv) (st : NodeState) : NodeEnv :=
  { env with
    nodeId := st.id
    nodeName := st.name
    nodeOrgId := st.orgId
    nodeVersion := st.image.version
    nodeProtocol := st.imageKey.protocolKey
    nodeVariant := st.imageKey.variantKey
    nodeIp := st.ip
    nodeGateway := st.gateway
    devMode := st.devMode }

end NodeEnv

/-- `apptainer_machine::Config`. -/
structure MachineConfig where
  imageUri : String
  vm : VmConfig
  cpus : List Nat
  nodeEnv : NodeEnv
  deriving DecidableEq, Inhabited

def MachineConfig.ofState (context : BvContext) (st : NodeState) : MachineConfig where
  imageUri := st.image.uri
  vm := st.vmConfig
  cpus := st.assignedCpus
  nodeEnv := NodeEnv.new context st "/blockjoy" "/blockjoy/protocol_data"

structure ApptainerMachine where
  apptainerPid : Option Nat
  babelPid : Option Nat
  config : MachineConfig
  configBackup : Option MachineConfig
  deriving DecidableEq, Inhabited

inductive VmState where
  | running
  | shutoff
  | invalid
  deriving DecidableEq

/-- A loaded plugin: the image it was read from, and what it was given. -/
structure Plugin where
  image : String
  params : NodeProperties
  nodeEnv : NodeEnv
  deriving DecidableEq, Inhabited

structure NodeInfo where
  image : NodeImage
  properties : NodeProperties
  deriving DecidableEq, Inhabited

structure BabelEngine where
  nodeInfo : NodeInfo
  plugin : Plugin
  server : Option NodeInfo
  deriving DecidableEq, Inhabited

inductive NodeConnection where
  | closed
  | babel
  | broken
  deriving DecidableEq, Inhabited

structure RecoveryBackoff where
  reconnect : Nat
  stop : Nat
  start : Nat
  vm : Nat
  deriving DecidableEq

instance : Inhabited RecoveryBackoff := ⟨⟨0, 0, 0, 0⟩⟩

/-! ## The site -/

structure Site where
  context : BvContext
  apptainerConfig : ApptainerConfig
  dir : NodeDir
  container : Option Container
  babels : List Nat
  firewall : HostFirewall
  machine : ApptainerMachine
  engine : BabelEngine
  connection : NodeConnection
  nodeEnv : NodeEnv
  backoff : RecoveryBackoff
  next : Nat
  faults : List (Fault Cut)
  answers : List Bool
  deriving DecidableEq

instance : Inhabited Site :=
  ⟨⟨default, default, default, none, [], .none, default, default, default, default, default, 0, [], []⟩⟩

abbrev SiteM := Effect String Site

namespace Site

open Effect

/-- The fate of the next operation. -/
def fault : SiteM (Fault Cut) := fun s => (.ok (s.faults.headD .none), { s with faults := s.faults.tail })

/-- The answer to the next question. -/
def answer : SiteM Bool := fun s => (.ok (s.answers.headD false), { s with answers := s.answers.tail })

/-- A number never given before: of a process, a build or a time stamp. -/
def fresh : SiteM Nat := fun s => (.ok s.next, { s with next := s.next + 1 })

/-- An operation of which any part may be done when it fails. -/
def command (msg : String) (f : Cut → Site → Site) : SiteM Unit := do
  match ← fault with
  | .none => modify (f .all)
  | .error cut => do modify (f cut); throw msg
  | .killed cut => do modify (f cut); kill

/-- An operation that is not done when it fails. -/
def atomicCommand (msg : String) (f : Site → Site) : SiteM Unit := do
  match ← fault with
  | .none => modify f
  | .error _ => throw msg
  | .killed cut => do when (cut = .all) (modify f); kill

/-- An operation that changes nothing modelled. -/
def call (msg : String) : SiteM Unit := command msg fun _ s => s

/-- An operation whose failure is only logged. -/
def tolerate (m : SiteM Unit) : SiteM Unit := do
  let _ ← attempt m

end Site

end Blockvisor
