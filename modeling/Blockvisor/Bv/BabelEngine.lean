/-
How the daemon talks to a node (`babel_engine.rs`, `apptainer_platform.rs`):
the connection to babel, the plugin with the engine it runs on, and the calls
that `node.rs` makes to babel itself. What the plugin does is not modelled,
but for what it can do to the node: its jobs may touch the protocol data, and
its requests may find the connection broken.
-/
import Blockvisor.Bv.ApptainerMachine

namespace Blockvisor

open Effect Site

namespace NodeConnection

def attach : SiteM Unit := modify fun s => { s with connection := .babel }

def setup : SiteM Unit := attach

def close : SiteM Unit := modify fun s => { s with connection := .closed }

def markBroken : SiteM Unit := modify fun s => { s with connection := .broken }

def test : SiteM Unit := do
  call "babel is not responsive"
  modify fun s => { s with connection := .babel }

def babelClient : SiteM Unit := do
  match ← gets (·.connection) with
  | .closed => throw "node connection is closed"
  | .babel => pure ()
  | .broken => attach

/-- A request to babel. -/
def request (msg : String) : SiteM Unit := do
  babelClient
  call msg

end NodeConnection

/-- `protocol_data_stamp`: the jobs of a running container may have touched the data. -/
def protocolDataStamp : SiteM (Option Nat) := do
  call "failed to check protocol data timestamp"
  let touched ← answer
  let running ← gets (·.container.isSome)
  Effect.when (touched && running) do
    let now ← fresh
    modify fun s => { s with dir.dataStamp := some now }
  gets (·.dir.dataStamp)

namespace BabelEngine

/-- `RhaiPlugin::from_file`, on the script in the root filesystem. -/
def loadPlugin (params : NodeProperties) (env : NodeEnv) : SiteM Plugin := do
  call "failed to load plugin"
  match ← gets (·.dir.rootfs) with
  | .built uri _ => pure ⟨uri, params, env⟩
  | _ => throw "failed to load plugin"

/-- A function of the plugin, run with the requests it makes. -/
def onPlugin (msg : String) : SiteM Unit := do
  let broken ← answer
  Effect.when broken NodeConnection.markBroken
  call msg

def new (info : NodeInfo) (env : NodeEnv) : SiteM Unit := do
  let plugin ← loadPlugin info.properties env
  modify fun s => { s with engine := ⟨info, plugin, none⟩ }
  onPlugin "failed to get plugin capabilities"

def start : SiteM Unit := do
  let server ← gets (·.engine.server)
  Effect.when (server = none) do
    call "failed to start engine server"
    modify fun s => { s with engine.server := some s.engine.nodeInfo }

def stop : SiteM Unit := do
  let server ← gets (·.engine.server)
  Effect.when server.isSome do
    modify fun s => { s with engine.server := none }
    call "failed to stop engine server"

def updatePlugin (env : NodeEnv) : SiteM Unit := do
  let params ← gets (·.engine.nodeInfo.properties)
  let plugin ← loadPlugin params env
  modify fun s => { s with engine.plugin := plugin }
  onPlugin "failed to get plugin capabilities"

def reloadPluginConfig : SiteM Unit := onPlugin "failed to reload plugin config"

/-- The engine server is restarted with the new node info. -/
def updateNodeInfo (image : NodeImage) (properties : NodeProperties) : SiteM Unit := do
  modify fun s => { s with engine.nodeInfo := ⟨image, properties⟩ }
  let server ← gets (·.engine.server)
  Effect.when server.isSome do
    stop
    start

def init : SiteM Unit := onPlugin "plugin init failed"

/-- `get_jobs`: whether a running job blocks upgrades. -/
def hasBlockingJob : SiteM Bool := do
  NodeConnection.request "failed to get jobs"
  answer

end BabelEngine

/-- `check_job_runner` of `node.rs`. -/
def checkJobRunner : SiteM Unit := do
  call "failed to load job runner"
  NodeConnection.request "failed to check job runner"
  let current ← answer
  Effect.when (current = false) (call "failed to upload job runner")

def setupBabel : SiteM Unit := NodeConnection.request "failed to setup babel"

def shutdownBabel (_force : Bool) : SiteM Unit := do
  NodeConnection.request "failed to get babel shutdown timeout"
  call "Failed to gracefully shutdown babel and background jobs"

namespace RecoveryBackoff

/-- The time to wait after the last failure is not over yet. -/
def backoff : SiteM Bool := answer

def reset : SiteM Unit := modify fun s => { s with backoff := default }

/-- Whether the tries to start are used up; so for the others. -/
def startFailed : SiteM Bool := do
  modify fun s => { s with backoff.start := s.backoff.start + 1 }
  gets (3 ≤ ·.backoff.start)

def stopFailed : SiteM Bool := do
  modify fun s => { s with backoff.stop := s.backoff.stop + 1 }
  gets (3 ≤ ·.backoff.stop)

def reconnectFailed : SiteM Bool := do
  modify fun s => { s with backoff.reconnect := s.backoff.reconnect + 1 }
  gets (3 ≤ ·.backoff.reconnect)

def vmRecoveryFailed : SiteM Bool := do
  modify fun s => { s with backoff.vm := s.backoff.vm + 1 }
  gets (3 ≤ ·.backoff.vm)

end RecoveryBackoff

/-- The firewall rules of the node are replaced, one after the other. -/
def applyFirewallConfig (config : NodeFirewallConfig) : SiteM Unit :=
  command "failed to apply firewall config" fun cut s =>
    match cut with
    | .nothing => s
    | .part _ => { s with firewall := .mixed }
    | .all => { s with firewall := .applied config }

def cleanupFirewallConfig : SiteM Unit :=
  command "failed to cleanup firewall config" fun cut s =>
    match cut with
    | .nothing => s
    | .part _ => { s with firewall := .mixed }
    | .all => { s with firewall := .none }

end Blockvisor
