/-
A node (`node.rs`): its state in memory and on file, and what the daemon does
to it. Each operation is a `NodeM`, which fails with a report, or a `NodeC`,
which fails with the error of a command. What is done before an operation
fails stays done.

Three fields are ghosts. `told` counts how often the machine was told to start
or to recover. `unfinished` says that a restart, or an upgrade that has to
start the node again, is under way. `ready` lists the revisions of the state
the plugin was initialised for, or that were given to a running node after the
plugin was initialised for the revision before.
-/
import Blockvisor.Bv.BabelEngine
import Blockvisor.Bv.CpuRegistry
import Blockvisor.Bv.Commands

namespace Blockvisor

open Effect

def SaveEnv.clean : SaveEnv := ⟨.none, .none, .none, .none, .none, .none⟩

structure Node where
  site : Site
  state : NodeState
  file : SavedFile NodeState
  registry : CpuRegistry
  saves : List SaveEnv
  told : Nat
  unfinished : Bool
  ready : List Nat

abbrev NodeM := Effect String Node

abbrev NodeC := Effect CommandError Node

namespace Node

/-! ## The parts of a node -/

def onSite {α : Type} (m : SiteM α) : NodeM α := zoom (·.site) (fun s n => { n with site := s }) m

def lift {α : Type} (m : NodeM α) : NodeC α := mapError .internal m

def modifyState (f : NodeState → NodeState) : NodeM Unit := modify fun n => { n with state := f n.state }

def modifyUpgrade (f : UpgradeState → UpgradeState) : NodeM Unit :=
  modifyState fun st => { st with upgradeState := f st.upgradeState }

/-- A failure is only logged. -/
def tolerate (m : NodeM Unit) : NodeM Unit := do
  let _ ← attempt m

/-- An operation on the node's files of which any part may be done when it fails. -/
def command (msg : String) (f : Cut → Node → Node) : NodeM Unit := do
  match ← onSite Site.fault with
  | .none => modify (f .all)
  | .error cut => do modify (f cut); throw msg
  | .killed cut => do modify (f cut); kill

/-- `NodeState::save`: the node's directory must be there. -/
def saveState : NodeM Unit := fun n =>
  let (file, res) := n.file.carefulSave n.state n.site.dir.present (n.saves.headD .clean)
  (res, { n with file, saves := n.saves.tail })

def saveExpectedStatus (status : VmStatus) : NodeM Unit := do
  modifyState fun st => { st with expectedStatus := status }
  saveState

def release (cpus : List Nat) : NodeM Unit := modify fun n => { n with registry := n.registry.release cpus }

def acquire (count : Nat) : NodeM (List Nat) := fun n =>
  match n.registry.acquire count with
  | .ok (cpus, registry) => (.ok cpus, { n with registry })
  | .error e => (.error (.error e), n)

/-- What is left of a root filesystem in a directory that was being removed. -/
def partOf (fs : Rootfs) (gone broken looksBuilt : Bool) : Rootfs :=
  if fs = .absent ∨ gone then .absent else if broken then .broken looksBuilt else fs

/-- The node's directory removed, with the state file in it. -/
def removeDir (n : Node) : Cut → Node
  | .nothing => n
  | .part bits =>
    { n with
      site.dir :=
        { n.site.dir with
          dataDir := n.site.dir.dataDir && !bits.testBit 0
          dataStamp := if bits.testBit 1 then none else n.site.dir.dataStamp
          rootfs := partOf n.site.dir.rootfs (bits.testBit 2) (bits.testBit 3) (bits.testBit 4)
          rootfsBackup := partOf n.site.dir.rootfsBackup (bits.testBit 5) (bits.testBit 6) (bits.testBit 7)
          pidFile := if bits.testBit 8 then none else n.site.dir.pidFile
          cgroups := if bits.testBit 9 then none else n.site.dir.cgroups }
      file :=
        { file := if bits.testBit 10 then .missing else n.file.file
          backup := if bits.testBit 11 then .missing else n.file.backup } }
  | .all => { n with site.dir := .removed, file := ⟨.missing, .missing⟩ }

/-- `fs::remove_dir_all` on a directory that is there. -/
def removeNodeDir (msg : String) : NodeM Unit := do
  let present ← gets (·.site.dir.present)
  Effect.when present (command msg fun cut n => n.removeDir cut)

/-- The machine shut down, by force if not otherwise. -/
def haltMachine : NodeM Unit := do
  match ← attempt (onSite ApptainerMachine.shutdown) with
  | .ok () => pure ()
  | .error _ => onSite ApptainerMachine.forceShutdown

/-- `ApptainerMachine::delete`. -/
def deleteMachine : NodeM Unit := do
  haltMachine
  removeNodeDir "failed to remove node dir"

def firewallConfig (n : Node) : NodeFirewallConfig :=
  ⟨n.state.id, n.state.ip, n.site.context.bridge, n.state.firewall⟩

def applyFirewallConfig : NodeM Unit := do
  let config ← gets firewallConfig
  onSite (Blockvisor.applyFirewallConfig config)

/-! ## Status -/

def status : NodeM VmStatus := do
  let machineStatus ← (do
    match ← onSite ApptainerMachine.state with
    | .running => pure VmStatus.running
    | .shutoff => pure .stopped
    | .invalid => pure .failed)
  let n ← gets id
  if machineStatus = n.state.expectedStatus then
    if machineStatus = .running ∧ (n.site.connection ≠ .babel ∨ n.state.initialized = false) then pure .failed
    else pure machineStatus
  else pure .failed

/-! ## Starting and stopping -/

/-- The machine is told to start, or to recover. -/
def tellMachine (m : SiteM Unit) : NodeM Unit := do
  modify fun n => { n with told := n.told + 1 }
  onSite m

/-- The plugin's `init`, for the state as it is. -/
def initPlugin : NodeM Unit := do
  onSite BabelEngine.init
  modify fun n => { n with ready := n.state.revision :: n.ready }
  modifyState fun st => { st with initialized := true }

/-- What `start` does to a node that is not running. -/
def startStopped : NodeM Unit := do
  onSite BabelEngine.start
  let machine ← onSite ApptainerMachine.state
  Effect.when (machine = .shutoff) (tellMachine ApptainerMachine.start)
  onSite NodeConnection.setup
  onSite checkJobRunner
  onSite setupBabel
  let initialized ← gets (·.state.initialized)
  Effect.when (initialized = false) initPlugin
  modify fun n => { n with state.restarting := false, unfinished := false }
  saveState

def start : NodeM Unit := do
  let status ← status
  let expected ← gets (·.state.expectedStatus)
  if status = .failed ∧ expected = .stopped then throw "can't start node which is not stopped properly"
  else do
    saveExpectedStatus .running
    if status = .running then pure () else startStopped

/-- The daemon waits a while for the machine to be shut off. -/
def shutdownMachine : NodeM Unit := do
  let machine ← onSite ApptainerMachine.state
  if machine = .shutoff then pure ()
  else do
    haltMachine
    let machine ← onSite ApptainerMachine.state
    if machine = .shutoff then pure () else throw "VM shutdown timeout"

/-- Babel shut down; by force it does not matter whether it can be. -/
def quitBabel (force : Bool) : NodeM Unit := do
  match ← attempt (onSite (shutdownBabel force)) with
  | .ok () => pure ()
  | .error err => if force then pure () else throw err

def stop (force : Bool) : NodeM Unit := do
  saveExpectedStatus .stopped
  let status ← status
  if status = .stopped then pure ()
  else do
    quitBabel force
    onSite NodeConnection.close
    saveState
    shutdownMachine
    onSite BabelEngine.stop

/-- The state is marked as restarting. -/
def markRestarting : NodeM Unit := modify fun n => { n with state.restarting := true, unfinished := true }

def restart (force : Bool) : NodeM Unit := do
  markRestarting
  stop force
  start

/-! ## Creating, attaching and deleting -/

/-- A new machine, built. -/
def createVm : NodeM Unit := do
  let st ← gets (·.state)
  onSite (ApptainerMachine.new st)
  match ← attempt (onSite ApptainerMachine.build) with
  | .ok () => pure ()
  | .error err => do
    deleteMachine
    throw err

/-- The first part of `MaybeNode::try_create`: until there is a machine. -/
def tryCreateVm : NodeM Unit := do
  tolerate (removeNodeDir "failed to remove node dir")
  command "failed to create node dir" fun cut n =>
    if cut = .nothing then n else { n with site.dir.present := true }
  createVm

/-- The rest of `MaybeNode::try_create`. -/
def tryCreateNode : NodeM Unit := do
  modify fun n => { n with site.nodeEnv := n.site.machine.config.nodeEnv }
  applyFirewallConfig
  saveState
  let n ← gets id
  onSite (BabelEngine.new ⟨n.state.image, n.state.properties⟩ n.site.nodeEnv)
  modify fun n => { n with site.connection := .closed, site.backoff := default }

/-- `MaybeNode::try_create`, and whether there is a machine then. -/
def tryCreate : NodeM (Bool × Except String Unit) := do
  match ← attempt tryCreateVm with
  | .error err => pure (false, .error err)
  | .ok () => do
    let res ← attempt tryCreateNode
    pure (true, res)

/-- `MaybeNode::cleanup`. -/
def cleanup (machine : Bool) : NodeM Unit := do
  Effect.when machine deleteMachine
  onSite cleanupFirewallConfig

/-- The cores of the state go back to the registry. -/
def releaseAssigned : NodeM Unit := do
  let cpus ← gets (·.state.assignedCpus)
  release cpus
  modifyState fun st => { st with assignedCpus := [] }

def create (desired : NodeState) : NodeM Unit := do
  let cpus ← acquire desired.vmConfig.vcpuCount
  modifyState fun _ => { desired with assignedCpus := cpus }
  match ← tryCreate with
  | (_, .ok ()) => pure ()
  | (machine, .error err) => do
    releaseAssigned
    tolerate (cleanup machine)
    throw err

/-- The cores an upgrade has released, by its steps. -/
def releasedCpus (steps : List UpgradeStep) : List Nat :=
  match steps.find? (·.isCpuAssignment) with
  | some (.cpuAssignment (.releasedCpus cpus)) => cpus
  | _ => []

/-- The cores that an upgrade under way keeps from the registry. -/
def heldCpus (st : NodeState) : List Nat := if st.upgradeState.active then releasedCpus st.upgradeState.steps else []

/-- The connection to a babel that is running. -/
def connect : NodeM Unit := do
  let machine ← onSite ApptainerMachine.state
  Effect.when (machine = .running) do
    match ← attempt (onSite (do NodeConnection.attach; checkJobRunner)) with
    | .ok () => pure ()
    | .error _ => onSite NodeConnection.close

/-- Attaching to the node whose state was loaded. -/
def attach : NodeM Unit := do
  modify fun n => { n with site.connection := .closed, site.backoff := default }
  let st ← gets (·.state)
  modify fun n => { n with registry := (n.registry.markAcquired st.assignedCpus).markAcquired (heldCpus st) }
  onSite (ApptainerMachine.new st)
  onSite ApptainerMachine.attach
  modify fun n => { n with site.nodeEnv := n.site.machine.config.nodeEnv }
  connect
  let env ← gets (·.site.nodeEnv)
  onSite (BabelEngine.new ⟨st.image, st.properties⟩ env)
  Effect.when (st.expectedStatus = .running) (tolerate (onSite BabelEngine.start))

def delete : NodeM Unit := do
  saveExpectedStatus .stopped
  onSite BabelEngine.stop
  deleteMachine
  releaseAssigned
  onSite cleanupFirewallConfig
  removeNodeDir "failed to delete node dir"

/-! ## Updating -/

/-- The node's environment is made anew for the machine and taken over from it. -/
def updateNodeEnv : NodeM Unit := do
  let st ← gets (·.state)
  onSite (ApptainerMachine.updateNodeEnv st)
  modify fun n => { n with site.nodeEnv := n.site.machine.config.nodeEnv }

/-- The engine gets the node's image and properties, and a plugin for them. -/
def updateEngine : NodeM Unit := do
  let n ← gets id
  onSite (BabelEngine.updateNodeInfo n.state.image n.state.properties)
  onSite (BabelEngine.updatePlugin n.site.nodeEnv)

/-- A running job that blocks upgrades, on a node that runs. -/
def checkBlockingJob (status : VmStatus) : NodeC Unit := do
  if status = .running then do
    let blocked ← lift (onSite BabelEngine.hasBlockingJob)
    Effect.when blocked (throw (.blockingJobRunning 3600))
  else pure ()

/-- The fields of the state that an update sets. -/
def applyUpdate (u : ConfigUpdate) (st : NodeState) : NodeState :=
  { st with
    image.configId := u.configId
    displayName := u.newDisplayName.getD st.displayName
    orgId := u.newOrgId.getD st.orgId
    orgName := u.newOrgName.getD st.orgName
    properties := u.newValues.foldl (fun properties (k, v) => properties.insert k v) st.properties }

/-- A new firewall configuration is applied before it is saved. -/
def updateFirewall (config : Firewall.Config) : NodeM Unit := do
  modifyState fun st => { st with firewall := config }
  let res ← attempt applyFirewallConfig
  match res with
  | .ok () => saveState
  | .error err => do
    saveExpectedStatus .failed
    throw err

/-- The new properties are given to a node that runs; `before` is the revision it ran with. -/
def applyToRunning (before : Nat) : NodeM Unit := do
  onSite setupBabel
  onSite BabelEngine.reloadPluginConfig
  modify fun n => { n with ready := if before ∈ n.ready then n.state.revision :: n.ready else n.ready }

def updateParams (status : VmStatus) (before : Nat) : NodeM Unit := do
  updateEngine
  Effect.when (status = .running) (applyToRunning before)
  modifyState fun st => { st with initialized := true }
  saveState

/-- The plugin is to be initialised again. New properties make another revision of the state. -/
def clearInitialized (u : ConfigUpdate) (revision : Nat) (st : NodeState) : NodeState :=
  { st with
    initialized := false
    revision := if (applyUpdate u st).properties = st.properties then st.revision else revision }

def update (u : ConfigUpdate) : NodeC Unit := do
  let status ← lift status
  if status = .failed then throw (.internal "can't update node in Failed state")
  else do
    let before ← gets (·.state.revision)
    Effect.when (u.newValues.isEmpty = false) do
      checkBlockingJob status
      let revision ← lift (onSite Site.fresh)
      lift (modifyState (clearInitialized u revision))
    lift do
      modifyState (applyUpdate u)
      match u.newFirewall with
      | some config => updateFirewall config
      | none => saveState
      updateNodeEnv
      Effect.when (u.newValues.isEmpty = false) (updateParams status before)

/-! ## Upgrading -/

/-- The number of cores is brought to what the configuration asks for. -/
def assignCpus : NodeM Unit := do
  let st ← gets (·.state)
  if st.assignedCpus.length = st.vmConfig.vcpuCount then pure ()
  else if st.vmConfig.vcpuCount < st.assignedCpus.length then do
    modifyUpgrade fun u =>
      { u with steps := u.steps ++ [.cpuAssignment (.releasedCpus (st.assignedCpus.drop st.vmConfig.vcpuCount))] }
    modifyState fun st => { st with assignedCpus := st.assignedCpus.take st.vmConfig.vcpuCount }
    saveState
  else do
    modifyUpgrade fun u => { u with steps := u.steps ++ [.cpuAssignment (.acquiredCpus st.assignedCpus.length)] }
    let cpus ← acquire (st.vmConfig.vcpuCount - st.assignedCpus.length)
    modifyState fun st => { st with assignedCpus := st.assignedCpus ++ cpus }
    saveState

/-- A step that is not on record yet is recorded, done, and the state saved however it ended. -/
def upgradeStep (step : UpgradeStep) (m : NodeM (Except String Unit)) : NodeM Unit := do
  let (inserted, u) ← gets fun n => n.state.upgradeState.insertStep step
  modifyUpgrade fun _ => u
  Effect.when inserted do
    let res ← m
    saveState
    ofExcept res

def upgradeVm : NodeM (Except String Unit) := do
  let st ← gets (·.state)
  attempt (onSite (ApptainerMachine.upgrade st))

/-- The plugin for the image and the properties of the state, in the environment of the machine. -/
def adoptNodeInfo : NodeM Unit := do
  modify fun n => { n with site.nodeEnv := n.site.machine.config.nodeEnv }
  let n ← gets id
  onSite (BabelEngine.updateNodeInfo n.state.image n.state.properties)

def adoptPlugin : NodeM Unit := do
  let env ← gets (·.site.nodeEnv)
  onSite (BabelEngine.updatePlugin env)

def upgradePlugin : NodeM (Except String Unit) := do
  adoptNodeInfo
  attempt adoptPlugin

/-- The rules of the state, applied; the report of a failure is that of a command. -/
def replaceFirewall : NodeM Unit := mapError (fun err => (CommandError.internal err).text) applyFirewallConfig

/-- A node that was stopped for the upgrade is started again. -/
def startAgain : NodeM Unit := do
  let stopped ← gets fun n => decide (.stop ∈ n.state.upgradeState.steps)
  Effect.when stopped start

def tryUpgrade : NodeM Unit := do
  assignCpus
  upgradeStep .vm upgradeVm
  upgradeStep .plugin upgradePlugin
  upgradeStep .firewall (attempt replaceFirewall)
  startAgain

/-- Undoing a step that is on record; it is taken off the record when it is undone. -/
def rollbackStep (step : UpgradeStep) (m : NodeM Unit) : NodeM Unit := do
  let steps ← gets (·.state.upgradeState.steps)
  Effect.when (step ∈ steps) do
    m
    modifyUpgrade fun u => { u with steps := swapRemove u.steps (u.steps.idxOf step) }
    saveState

/-- The cores acquired are given back, those released are taken back. -/
def rollbackCpus : NodeM Unit := do
  let steps ← gets (·.state.upgradeState.steps)
  match steps.find? (·.isCpuAssignment) with
  | none => pure ()
  | some step => do
    modifyUpgrade fun u => { u with steps := swapRemove u.steps (u.steps.findIdx (·.isCpuAssignment)) }
    let st ← gets (·.state)
    match step with
    | .cpuAssignment (.acquiredCpus origLen) => do
      release (st.assignedCpus.drop origLen)
      modifyState fun st => { st with assignedCpus := st.assignedCpus.take origLen }
    | .cpuAssignment (.releasedCpus cpus) =>
      modifyState fun st => { st with assignedCpus := st.assignedCpus ++ cpus }
    | _ => pure ()
    saveState

def tryRollback : NodeM Unit := do
  let status ← status
  Effect.when (status = .running) (stop true)
  rollbackCpus
  rollbackStep .vm (onSite ApptainerMachine.rollback)
  rollbackStep .plugin (do adoptNodeInfo; adoptPlugin)
  rollbackStep .firewall replaceFirewall
  startAgain

def rollback (err : String) : NodeC Unit := do
  match ← lift (attempt tryRollback) with
  | .error rollbackErr => do
    lift (modifyUpgrade fun u => { u with active := false })
    lift (saveExpectedStatus .failed)
    throw (.nodeUpgradeFailure err rollbackErr)
  | .ok () => do
    lift (modifyUpgrade fun u => { u with active := false })
    lift saveState
    throw (.nodeUpgradeRollback err)

/-- The state swapped with a backup, which is kept for the way back. -/
def swapBackup (backup : StateBackup) (st : NodeState) : NodeState :=
  { (backup.swapState st).2 with
    upgradeState := { st.upgradeState with stateBackup := some (backup.swapState st).1 } }

/-- What is done once for an upgrade, however often it is resumed: the node is stopped, and its state
takes over what is desired. -/
def beginUpgrade (status : VmStatus) (desired : NodeState) : NodeC Unit := do
  lift (modifyUpgrade fun _ => default)
  checkBlockingJob status
  lift do
    Effect.when (status = .running) do
      modifyUpgrade fun u => { u with steps := u.steps ++ [.stop] }
      markRestarting
      stop false
    modifyUpgrade fun u => { u with active := true }
    let dataStamp ← onSite protocolDataStamp
    modifyUpgrade fun u => { u with dataStamp }
    let revision ← onSite Site.fresh
    modifyState (swapBackup (.ofState { desired with revision }))
    saveState

/-- After a failed try: back to the state before the upgrade, unless the protocol data was touched. -/
def revertUpgrade (err : String) : NodeC Unit := do
  let dataStamp ← lift (onSite protocolDataStamp)
  let u ← gets (·.state.upgradeState)
  if u.dataStamp ≠ dataStamp then
    throw (.nodeUpgradeFailure err "can't rollback node upgrade if 'init' was already started - protocol data could be changed")
  else
    match u.stateBackup with
    | some backup => do
      lift do
        modifyState (swapBackup backup)
        modifyUpgrade fun u => { u with needRollback := some err }
        saveState
      rollback err
    | none => throw (.nodeUpgradeFailure err "can't rollback node upgrade - backup not found")

def finishUpgrade : NodeM Unit := do
  let steps ← gets (·.state.upgradeState.steps)
  release (releasedCpus steps)
  Effect.when (.vm ∈ steps) (tolerate (onSite ApptainerMachine.dropBackup))
  modifyUpgrade fun u => { u with active := false }
  saveState

def upgrade (desired : NodeState) : NodeC Unit := do
  let status ← lift status
  if status = .failed then throw (.internal "can't upgrade node in Failed state")
  else do
    let active ← gets (·.state.upgradeState.active)
    Effect.when (active = false) (beginUpgrade status desired)
    match ← gets (·.state.upgradeState.needRollback) with
    | some err => rollback err
    | none =>
      match ← lift (attempt tryUpgrade) with
      | .error err => revertUpgrade err
      | .ok () => lift finishUpgrade

/-! ## Recovering -/

def reloadPlugin : NodeM Unit := do
  updateEngine
  onSite BabelEngine.reloadPluginConfig

def postRecovery : NodeM Unit := onSite RecoveryBackoff.reset

/-- What follows a failed try to recover: the node is marked as failed once the tries are used up. -/
def giveUp (tries : SiteM Bool) : NodeM Unit := do
  let exceeded ← onSite tries
  Effect.when exceeded (saveExpectedStatus .failed)

def startedNodeRecovery : NodeM Unit := do
  match ← attempt start with
  | .error _ => giveUp RecoveryBackoff.startFailed
  | .ok () => postRecovery

def recoverByRestart : NodeM Unit := do
  match ← attempt (restart true) with
  | .error _ => giveUp RecoveryBackoff.stopFailed
  | .ok () => postRecovery

/-- The connection does not work; babel is tried to be restarted before the node is. -/
def reconnect : NodeM Unit := do
  match ← attempt (tellMachine (do ApptainerMachine.recover; NodeConnection.test)) with
  | .ok () => postRecovery
  | .error _ => do
    let exceeded ← onSite RecoveryBackoff.reconnectFailed
    Effect.when exceeded recoverByRestart

def nodeConnectionRecovery : NodeM Unit := do
  match ← attempt (onSite NodeConnection.test) with
  | .error _ => reconnect
  | .ok () => do
    let connection ← gets (·.site.connection)
    if connection = .closed then startedNodeRecovery else postRecovery

def vmRecovery : NodeM Unit := do
  match ← attempt (tellMachine ApptainerMachine.recover) with
  | .ok () => postRecovery
  | .error _ => do
    let exceeded ← onSite RecoveryBackoff.vmRecoveryFailed
    Effect.when exceeded recoverByRestart

def recoverRunning : NodeM Unit := do
  let machine ← onSite ApptainerMachine.state
  let initialized ← gets (·.state.initialized)
  if machine = .shutoff ∨ initialized = false then startedNodeRecovery
  else if machine = .invalid then vmRecovery
  else nodeConnectionRecovery

def recoverStopped : NodeM Unit := do
  let connection ← gets (·.site.connection)
  match ← attempt (stop (connection ≠ .babel)) with
  | .error _ => giveUp RecoveryBackoff.stopFailed
  | .ok () => do
    postRecovery
    let restarting ← gets (·.state.restarting)
    Effect.when restarting start

def recover : NodeM Unit := do
  let backoff ← onSite RecoveryBackoff.backoff
  if backoff then pure ()
  else
    match ← gets (·.state.expectedStatus) with
    | .running => recoverRunning
    | .stopped => recoverStopped
    | .failed => pure ()
    | .busy => throw "unreachable"

end Node

end Blockvisor
