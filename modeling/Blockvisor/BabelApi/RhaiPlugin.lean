/-
What a plugin does by default to initialise a node, to reload its configuration
and to upload the node's data (`rhai_plugin.rs`): which calls it makes of the
engine, for whatever the engine replies. The functions of the plugin's own
script are no part of it; `script` is what its `plugin_config` returns.
-/
import Blockvisor.BabelApi.PluginConfig
import Blockvisor.Lib.Script

namespace Blockvisor

open PluginConfig (Actions AuxService ConfigFile Service)

structure ShResponse where
  exitCode : Int
  stdout : String
  stderr : String
  deriving Repr

/-- A call of the engine. -/
inductive EngineCall where
  | stopAllJobs
  | createJob (name : String) (config : Engine.JobConfig)
  | startJob (name : String)
  | stopJob (name : String)
  | getJobs
  | runSh (body : String)
  | renderTemplate (template destination params : String)
  | protocolDataStamp
  | saveConfig (config : PluginConfig)
  | addTask (name schedule function param : String)

/-- What a call returns when it does not fail: the names of the jobs, for `getJobs`. -/
def EngineCall.Answer : EngineCall → Type
  | .getJobs => List String
  | .runSh _ => ShResponse
  | .protocolDataStamp => Option Nat
  | _ => Unit

abbrev EngineCall.Reply (c : EngineCall) : Type := Except String c.Answer

abbrev PluginM := Script EngineCall.Reply String

namespace RhaiPlugin

open PluginConfig Script

def engine (c : EngineCall) : PluginM c.Answer := .call c .done

def createAndStartJob (name : String) (config : Engine.JobConfig) : PluginM Unit := do
  engine (.createJob name config)
  engine (.startJob name)

/-- What a job of an action needs goes before what all of them need. -/
def addNeeds (needs : List String) (job : PluginConfig.Job) : PluginConfig.Job :=
  { job with
    needs :=
      match job.needs with
      | some jobNeeds => some (jobNeeds ++ needs)
      | none => some needs }

/-- The jobs that were started, or those needed before if there are none. -/
def runJobs (jobs : Option (List PluginConfig.Job)) (needs : List String) : PluginM (List String) := do
  match jobs with
  | none => pure needs
  | some jobs => do
    jobs.forM fun job => createAndStartJob job.name (buildJobConfig (addNeeds needs job))
    let startedJobs := jobs.map (·.name)
    pure (if startedJobs.isEmpty then needs else startedJobs)

def runCommand (command : String) : PluginM Unit := do
  let resp : ShResponse ← engine (.runSh command)
  if resp.exitCode ≠ 0 then throw s!"init command '{command}' failed with exit_code: {repr resp}" else pure ()

def runActions (actions : Option Actions) (needs : List String) : PluginM (List String) := do
  match actions with
  | none => pure needs
  | some actions => do
    actions.commands.forM runCommand
    runJobs (some actions.jobs) needs

def renderConfigFile (configFile : ConfigFile) : PluginM Unit := do
  match configFile.params with
  | .error err => throw err
  | .ok params => engine (.renderTemplate configFile.template configFile.destination params)

def renderConfigFiles (configFiles : Option (List ConfigFile)) : PluginM Unit := (configFiles.getD []).forM renderConfigFile

/-- An auxiliary service as a service. -/
def ofAuxService (service : AuxService) : Service where
  name := service.name
  runSh := service.runSh
  restartConfig := service.restartConfig
  shutdownTimeoutSecs := service.shutdownTimeoutSecs
  shutdownSignal := service.shutdownSignal
  runAs := service.runAs
  useProtocolData := false
  logBufferCapacityMb := service.logBufferCapacityMb
  logTimestamp := service.logTimestamp
  dataDir := none
  storeKey := none
  archive := false

def startService (needs waitFor : List String) (service : Service) : PluginM Unit :=
  createAndStartJob service.name (buildServiceJobConfig service needs waitFor)

def startAuxServices (services : Option (List AuxService)) : PluginM Unit :=
  (services.getD []).forM fun service => startService [] [] (ofAuxService service)

def startServices (services : List Service) (needs waitFor : List String) : PluginM Unit :=
  services.forM (startService needs waitFor)

/-- Some service has a data set of its own. -/
def hasMultiClientServices (services : List Service) : Bool :=
  services.any fun service => service.archive && service.storeKey.isSome

def hasArchivableServices (services : List Service) : Bool :=
  services.any fun service => service.archive && service.useProtocolData && service.storeKey.isSome

/-- The part of `default_init` for a node without data, and without data sets of its services: an
alternative download, or a cold init if there is none. -/
def getFirstData (config : PluginConfig) (servicesNeeds : List String) : PluginM (List String) :=
  match config.alternativeDownload, config.coldInit with
  | some alternativeDownload, _ => do
    createAndStartJob downloadJobName (buildAlternativeDownloadJobConfig alternativeDownload servicesNeeds)
    runJobs config.postDownload [downloadJobName]
  | none, some coldInit => do
    createAndStartJob coldInitJobName (buildColdInitJobConfig coldInit servicesNeeds)
    pure [coldInitJobName]
  | none, none => pure servicesNeeds

/-- The part of `default_init` that gets the node's data: what the services need then. -/
def getProtocolData (config : PluginConfig) (servicesNeeds : List String) : PluginM (List String) := do
  if hasMultiClientServices config.services then do
    createAndStartJob downloadJobName (buildMultiClientDownloadJobConfig config.download servicesNeeds)
    runJobs config.postDownload [downloadJobName]
  else do
    let stamp : Option Nat ← engine .protocolDataStamp
    if stamp.isNone then getFirstData config servicesNeeds else pure servicesNeeds

def addTask (task : PluginConfig.Task) : PluginM Unit :=
  engine (.addTask task.name task.schedule task.function (task.param.getD ""))

def defaultInit (pluginConfig : Option PluginConfig) : PluginM Unit := do
  match pluginConfig with
  | none => throw "Missing plugin_config function"
  | some config => do
    engine .stopAllJobs
    renderConfigFiles config.configFiles
    startAuxServices config.auxServices
    let servicesNeeds ← runActions config.init []
    let servicesNeeds ← getProtocolData config servicesNeeds
    startServices config.services servicesNeeds []
    (config.scheduled.getD []).forM addTask

/-- The part of `default_upload` that uploads the node's data: what the jobs after it need then. -/
def putProtocolData (config : PluginConfig) (servicesNeeds : List String) : PluginM (List String) := do
  if hasArchivableServices config.services then do
    if hasMultiClientServices config.services then
      createAndStartJob uploadJobName (buildMultiClientUploadJobConfig config.upload servicesNeeds)
    else createAndStartJob uploadJobName (buildUploadJobConfig config.upload servicesNeeds)
    pure [uploadJobName]
  else pure servicesNeeds

/-- The configuration with the services that use protocol data only. -/
def retainProtocolData (config : PluginConfig) : PluginConfig :=
  { config with services := config.services.filter (·.useProtocolData) }

/-- `default_upload`, on what it retains of the configuration. -/
def uploadRetained (config : PluginConfig) : PluginM Unit := do
  config.services.forM fun service => engine (.stopJob service.name)
  let preUploadJobs ← runActions config.preUpload []
  let servicesNeeds ← putProtocolData config preUploadJobs
  let postUploadJobs ← runJobs config.postUpload servicesNeeds
  startServices config.services [] postUploadJobs

def defaultUpload (pluginConfig : Option PluginConfig) : PluginM Unit :=
  match pluginConfig with
  | none => throw "Missing plugin_config function"
  | some config => uploadRetained (retainProtocolData config)

/-- A failure is only logged. -/
def stopServiceJob (currentJobs : List String) (service : Service) : PluginM Unit := do
  if service.name ∈ currentJobs then do
    let _ ← attempt (engine (.stopJob service.name))
  else pure ()

def recreateServices (pluginConfig : Option PluginConfig) : PluginM Unit := do
  match pluginConfig with
  | none => pure ()
  | some config => do
    let currentJobs : List String ← engine .getJobs
    config.services.forM (stopServiceJob currentJobs)
    startServices config.services [] []

/-- The configuration is the plugin's even if it does not pass its check. -/
def reloadPluginConfig (script : Except String (Option PluginConfig)) : PluginM (Option PluginConfig) := do
  match script with
  | .error err => throw err
  | .ok pluginConfig => do
    match pluginConfig with
    | none => pure ()
    | some config => do
      Script.done config.validate
      engine (.saveConfig config)
    recreateServices pluginConfig
    pure pluginConfig

def init (script : Except String (Option PluginConfig)) : PluginM Unit := do
  let pluginConfig ← reloadPluginConfig script
  defaultInit pluginConfig

end RhaiPlugin

end Blockvisor
