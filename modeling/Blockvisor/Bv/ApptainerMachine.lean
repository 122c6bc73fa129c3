/-
The machine of a node (`apptainer_machine.rs`): building its root filesystem,
starting and stopping its container and the babel in it, and exchanging the
root filesystem for an upgrade. Deleting a machine takes the node's state file
with it and is defined with the node.
-/
import Blockvisor.Bv.Site

namespace Blockvisor

namespace ApptainerMachine

open Effect Site

/-! ## Processes -/

/-- A container may have died since the daemon last looked. -/
def isContainerRunning : SiteM Bool := do
  let died ← answer
  Effect.when died (modify fun s => { s with container := none })
  gets fun s => s.machine.apptainerPid.isSome && s.container.map (·.pid) = s.machine.apptainerPid

def isBabelRunning : SiteM Bool := do
  let died ← answer
  Effect.when died (modify fun s => { s with babels := s.babels.filter fun pid => s.machine.babelPid ≠ some pid })
  gets fun s => s.babels.any fun pid => s.machine.babelPid = some pid

def state : SiteM VmState := do
  let running ← isContainerRunning
  if running then
    let babel ← isBabelRunning
    if babel then pure .running else pure .invalid
  else pure .shutoff

def loadApptainerPid : SiteM Unit := do
  match ← gets (·.dir.pidFile) with
  | some pid => do
    call "failed to read container pid"
    modify fun s => { s with machine.apptainerPid := some pid }
  | none => do
    call "apptainer instance list failed"
    match ← gets (·.container) with
    | some c => do
      modify fun s => { s with machine.apptainerPid := some c.pid }
      tolerate (atomicCommand "failed to save container pid to file" fun s => { s with dir.pidFile := some c.pid })
    | none => pure ()

/-- `apptainer instance stop`; its failure does not matter once the instance is gone. -/
def stopInstance : SiteM Unit := do
  match ← attempt (command "apptainer instance stop failed" fun cut s =>
    if cut = .nothing then s else { s with container := none }) with
  | .ok () => pure ()
  | .error err => do
    call "apptainer instance list failed"
    let listed ← gets (·.container.isSome)
    Effect.when listed (throw err)

def stopContainer : SiteM Unit := do
  let running ← isContainerRunning
  Effect.when running stopInstance
  modify fun s => { s with machine.apptainerPid := none }
  let pidFile ← gets (·.dir.pidFile)
  Effect.when pidFile.isSome (atomicCommand "failed to remove pid file" fun s => { s with dir.pidFile := none })

/-- `apptainer instance run`: there must be an image to run, and no instance of the node yet. -/
def runInstance : SiteM Unit := do
  let pid ← fresh
  match ← gets fun s => (s.container, s.dir.rootfs) with
  | (none, .built _ gen) =>
    command "apptainer instance run failed" fun cut s =>
      match cut with
      | .nothing => s
      | .part _ => { s with container := some ⟨pid, gen⟩ }
      | .all => { s with container := some ⟨pid, gen⟩, dir.pidFile := some pid }
  | _ => throw "apptainer instance run failed"

def startContainer : SiteM Unit := do
  let running ← isContainerRunning
  Effect.when (running = false) do
    runInstance
    loadApptainerPid
    tolerate (call "ARP table update failed")

/-- Whether there was a babel to stop; `force` tells how it is stopped. -/
def stopBabel (_force : Bool) : SiteM Bool := do
  modify fun s => { s with machine.babelPid := none }
  match ← gets (·.babels) with
  | [] => pure false
  | [_] => do
    atomicCommand "failed to stop babel" fun s => { s with babels := [] }
    pure true
  | _ => throw "internal error, more than one babel process associated with one vm"

def startBabel : SiteM Unit := do
  call "babel binary not found"
  let pid ← fresh
  atomicCommand "failed to start babel" fun s =>
    { s with babels := s.babels ++ [pid], machine.babelPid := some pid }

def shutdown : SiteM Unit := do
  let _ ← stopBabel false
  stopContainer

def forceShutdown : SiteM Unit := do
  let _ ← stopBabel true
  stopContainer

def start : SiteM Unit := do
  startContainer
  startBabel

/-- Babel may be there but not respond; then it is restarted. -/
def recover : SiteM Unit := do
  let running ← isContainerRunning
  if running then
    match ← gets (·.babels) with
    | [] => startBabel
    | [_] => do
      let _ ← stopBabel false
      startBabel
    | _ => do
      let killed ← answer
      Effect.when killed (modify fun s => { s with babels := [] })
      startBabel
  else start

/-! ## Root filesystems -/

/-- What is left in a directory that was being removed. -/
def removed (fs : Rootfs) : Cut → Rootfs
  | .nothing => fs
  | .part bits => .broken (bits.testBit 0)
  | .all => .absent

def isBuilt : SiteM Bool := do
  match ← gets (·.dir.rootfs) with
  | .absent => pure false
  | .broken looksBuilt => do
    call "can't check if vm is already built"
    pure looksBuilt
  | .built _ _ => do
    call "can't check if vm is already built"
    pure true

/-- `apptainer build`: what it did not finish is not taken for built. -/
def buildImage : SiteM Unit := do
  let gen ← fresh
  let uri ← gets (·.machine.config.imageUri)
  command s!"failed to build from {uri}" fun cut s =>
    match cut with
    | .nothing => s
    | .part _ => { s with dir := { s.dir with present := true, rootfs := .broken false } }
    | .all => { s with dir := { s.dir with present := true, rootfs := .built uri gen } }

def cgroupsContent (limits : ApptainerConfig) (config : MachineConfig) : Cgroups where
  memoryLimit := if limits.memoryLimit then some (config.vm.memSizeMb * 1000000) else none
  cpus := if limits.cpuLimit && !config.cpus.isEmpty then some config.cpus else none

def build : SiteM Unit := do
  let built ← isBuilt
  Effect.when (built = false) do
    buildImage
    call "failed to create data mount point"
    call "failed to create journal dir"
    call "failed to create babel var dir"
  let limits ← gets (·.apptainerConfig)
  Effect.when (limits.cpuLimit || limits.memoryLimit) <|
    command "failed to write cgroups" fun cut s =>
      match cut with
      | .nothing => s
      | .part _ => { s with dir.cgroups := none }
      | .all => { s with dir.cgroups := some (cgroupsContent limits s.machine.config) }
  tolerate (call "failed to write node_env file")

/-- The protocol data of an initialised node must not look like it was never touched. -/
def touchProtocolData (st : NodeState) : SiteM Unit := do
  let stamp ← gets (·.dir.dataStamp)
  Effect.when (st.initialized = true ∧ stamp = none) do
    let now ← fresh
    atomicCommand "failed to touch protocol data" fun s => { s with dir.dataStamp := some now }

def new (st : NodeState) : SiteM Unit := do
  let dataDir ← gets (·.dir.dataDir)
  Effect.when (dataDir = false) <|
    atomicCommand "failed to create data dir" fun s => { s with dir := { s.dir with present := true, dataDir := true } }
  touchProtocolData st
  modify fun s => { s with machine := ⟨none, none, .ofState s.context st, none⟩ }

/-- The running babel was not started by this daemon. -/
def restartBabel : SiteM Unit := do
  let _ ← stopBabel false
  startBabel

def attach : SiteM Unit := do
  build
  loadApptainerPid
  let running ← isContainerRunning
  Effect.when running restartBabel

def updateNodeEnv (st : NodeState) : SiteM Unit :=
  modify fun s => { s with machine.config.nodeEnv := s.machine.config.nodeEnv.updateState st }

/-- The root filesystem becomes the backup: there must be one, and nothing in its place. -/
def moveRootfs : SiteM Unit := do
  let possible ← gets fun s => decide (s.dir.rootfs ≠ .absent ∧ s.dir.rootfsBackup = .absent)
  if possible then
    atomicCommand "failed to backup rootfs" fun s =>
      { s with dir := { s.dir with rootfs := .absent, rootfsBackup := s.dir.rootfs } }
  else throw "failed to backup rootfs"

def upgrade (st : NodeState) : SiteM Unit := do
  let running ← isContainerRunning
  Effect.when running (throw "can't upgrade running vm")
  modify fun s => { s with machine.configBackup := some s.machine.config }
  modify fun s =>
    { s with machine.config := { s.machine.config with imageUri := st.image.uri, vm := st.vmConfig, cpus := st.assignedCpus } }
  updateNodeEnv st
  moveRootfs
  atomicCommand "failed to create rootfs" fun s => { s with dir.rootfs := .broken false }
  build

def dropBackup : SiteM Unit := do
  let backup ← gets (·.dir.rootfsBackup)
  Effect.when (backup ≠ .absent) <|
    command "failed to remove rootfs backup" fun cut s => { s with dir.rootfsBackup := removed s.dir.rootfsBackup cut }
  modify fun s => { s with machine.configBackup := none }

/-- The backup becomes the root filesystem, in place of what is there. -/
def restoreRootfs : SiteM Unit := do
  let rootfs ← gets (·.dir.rootfs)
  Effect.when (rootfs = .absent) (throw "failed to remove rootfs")
  command "failed to remove rootfs" fun cut s => { s with dir.rootfs := removed s.dir.rootfs cut }
  atomicCommand "failed to restore rootfs" fun s =>
    { s with dir := { s.dir with rootfs := s.dir.rootfsBackup, rootfsBackup := .absent } }

def rollback : SiteM Unit := do
  let backup ← gets (·.dir.rootfsBackup)
  Effect.when (backup ≠ .absent) restoreRootfs
  modify fun s =>
    match s.machine.configBackup with
    | some backup => { s with machine.config := backup, machine.configBackup := some s.machine.config }
    | none => s
  build

end ApptainerMachine

end Blockvisor
