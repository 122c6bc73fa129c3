/-
The configuration of a plugin (`babel_api::plugin_config`): its services and
jobs as the plugin's author writes them, the check they have to pass, and the
configurations of the jobs babel makes of them (`babel_api::engine`). Sizes
and counters are natural numbers.
-/
import Blockvisor.Babel.Engine
import Blockvisor.Lib.Path
import Blockvisor.Lib.Persist

namespace Blockvisor

/-! ## Jobs of the engine -/

namespace Engine

inductive PosixSignal where
  | sigabrt | sigalrm | sigbus | sigchld | sigcld | sigcont | sigemt | sigfpe | sighup | sigill | siginfo | sigint
  | sigio | sigiot | sigkill | sigpipe | sigpoll | sigprof | sigpwr | sigquit | sigsegv | sigstop | sigtstp | sigsys
  | sigterm | sigtrap | sigttin | sigttou | sigunused | sigurg | sigusr1 | sigusr2 | sigvtalrm | sigxcpu | sigxfsz
  | sigwinch
  deriving DecidableEq

structure RestartConfig where
  backoffTimeoutMs : Nat
  backoffBaseMs : Nat
  maxRetries : Option Nat
  deriving DecidableEq

inductive RestartPolicy where
  | never
  | always (config : RestartConfig)
  | onFailure (config : RestartConfig)
  deriving DecidableEq

inductive JobType where
  | runSh (body : String)
  | download (maxConnections maxRunners : Option Nat)
  | upload (exclude : Option (List String)) (compression : Option Compression)
      (maxConnections maxRunners numberOfChunks urlExpiresSecs dataVersion : Option Nat)
  | multiClientUpload (maxConnections maxRunners urlExpiresSecs dataVersion : Option Nat)
  | multiClientDownload (maxConnections maxRunners : Option Nat)
  deriving DecidableEq

structure JobConfig where
  jobType : JobType
  restart : RestartPolicy
  shutdownTimeoutSecs : Option Nat
  shutdownSignal : Option PosixSignal
  needs : Option (List String)
  waitFor : Option (List String)
  runAs : Option String
  logBufferCapacityMb : Option Nat
  logTimestamp : Option Bool
  useProtocolData : Option Bool
  oneTime : Option Bool
  deriving DecidableEq

end Engine

/-! ## The configuration -/

namespace PluginConfig

open Engine (PosixSignal RestartConfig)

/-- A template with the place it is rendered to, and its parameters as JSON, if they can be written so. -/
structure ConfigFile where
  template : String
  destination : String
  params : Except String String

/-- A service that needs no init steps and does not use protocol data. -/
structure AuxService where
  name : String
  runSh : String
  restartConfig : Option RestartConfig
  shutdownTimeoutSecs : Option Nat
  shutdownSignal : Option PosixSignal
  runAs : Option String
  logBufferCapacityMb : Option Nat
  logTimestamp : Option Bool
  deriving DecidableEq

/-- A call of a function of the plugin, to be made on a schedule. -/
structure Task where
  name : String
  schedule : String
  function : String
  param : Option String
  deriving DecidableEq

inductive RestartPolicy where
  | never
  | onFailure (config : RestartConfig)
  deriving DecidableEq

structure Job where
  name : String
  runSh : String
  restart : Option RestartPolicy
  shutdownTimeoutSecs : Option Nat
  shutdownSignal : Option PosixSignal
  needs : Option (List String)
  runAs : Option String
  logBufferCapacityMb : Option Nat
  logTimestamp : Option Bool
  useProtocolData : Option Bool
  oneTime : Option Bool
  deriving DecidableEq

/-- Commands to be run first, and jobs to be finished before the services start. -/
structure Actions where
  commands : List String
  jobs : List Job
  deriving DecidableEq

structure Service where
  name : String
  runSh : String
  restartConfig : Option RestartConfig
  shutdownTimeoutSecs : Option Nat
  shutdownSignal : Option PosixSignal
  runAs : Option String
  useProtocolData : Bool := true
  logBufferCapacityMb : Option Nat
  logTimestamp : Option Bool
  dataDir : Option String
  storeKey : Option String
  archive : Bool := true
  deriving DecidableEq

structure Download where
  restartConfig : Option RestartConfig
  maxConnections : Option Nat
  maxRunners : Option Nat
  deriving DecidableEq

structure AlternativeDownload where
  runSh : String
  restartConfig : Option RestartConfig
  runAs : Option String
  logBufferCapacityMb : Option Nat
  logTimestamp : Option Bool
  deriving DecidableEq

structure ColdInit where
  runSh : String
  restartConfig : Option RestartConfig
  runAs : Option String
  logBufferCapacityMb : Option Nat
  logTimestamp : Option Bool
  oneTime : Option Bool
  deriving DecidableEq

inductive Compression where
  | none
  | zstd (level : Int)
  deriving DecidableEq

structure Upload where
  restartConfig : Option RestartConfig
  exclude : Option (List String)
  compression : Option Compression
  maxConnections : Option Nat
  maxRunners : Option Nat
  numberOfChunks : Option Nat
  urlExpiresSecs : Option Nat
  dataVersion : Option Nat
  deriving DecidableEq

end PluginConfig

open PluginConfig in
structure PluginConfig where
  configFiles : Option (List ConfigFile)
  auxServices : Option (List AuxService)
  init : Option Actions
  download : Option Download
  alternativeDownload : Option AlternativeDownload
  postDownload : Option (List PluginConfig.Job)
  coldInit : Option ColdInit
  services : List Service
  preUpload : Option Actions
  upload : Option PluginConfig.Upload
  postUpload : Option (List PluginConfig.Job)
  scheduled : Option (List PluginConfig.Task)

namespace PluginConfig

open Engine (RestartConfig)

def coldInitJobName : String := "download"

def downloadJobName : String := "download"

def uploadJobName : String := "upload"

/-! ## The check -/

/-- The names added to a set one by one, unless one is there already. -/
def insertAll (unique : List String) : List String → Option (List String)
  | [] => some unique
  | name :: names => if name ∈ unique then none else insertAll (name :: unique) names

def ensureUnique (what : String) (unique names : List String) : Except String (List String) :=
  match insertAll unique names with
  | some unique => .ok unique
  | none => .error s!"{what} names are not unique"

/-- A path relative to the directory it is joined to, that does not climb. -/
def isRelative (dataDir : String) : Bool :=
  dataDir ≠ "" && dataDir.toList.head? ≠ some '/' && !decide ("..".toList <:+: dataDir.toList)

def isKey (storeKey : String) : Bool :=
  storeKey ≠ "" && storeKey.toList.all fun c => c.isAlphanum || c = '-' || c = '_'

def ensure (b : Bool) (msg : String) : Except String Unit := if b then .ok () else .error msg

/-- What `validate` asks of one service. -/
def validateService (service : Service) : Except String Unit := do
  ensure (!(service.archive && service.storeKey.isNone))
    s!"Service '{service.name}' has archive=true but no store_key specified"
  let dataDir := service.dataDir.getD ""
  ensure (service.dataDir.all isRelative)
    s!"Service '{service.name}' data_dir '{dataDir}' must be a relative path without '..' components"
  let storeKey := service.storeKey.getD ""
  ensure (service.storeKey.all isKey)
    s!"Service '{service.name}' store_key '{storeKey}' must contain only alphanumeric characters, hyphens, and underscores"

def jobNames (jobs : Option (List Job)) : List String := (jobs.getD []).map (·.name)

def actionNames (actions : Option Actions) : List String := jobNames (actions.map (·.jobs))

def validate (config : PluginConfig) : Except String Unit := do
  let _ ← ensureUnique "Scheduled tasks" [] ((config.scheduled.getD []).map (·.name))
  let unique ← ensureUnique "Auxiliary services" [downloadJobName, uploadJobName] ((config.auxServices.getD []).map (·.name))
  let unique ← ensureUnique "Init jobs" unique (actionNames config.init)
  let unique ← ensureUnique "Post-download jobs" unique (jobNames config.postDownload)
  let unique ← ensureUnique "Services" unique (config.services.map (·.name))
  config.services.forM validateService
  let unique ← ensureUnique "Pre-upload jobs" unique (actionNames config.preUpload)
  let _ ← ensureUnique "Post-upload jobs" unique (jobNames config.postUpload)

/-! ## What the check says -/

theorem insertAll_some {unique names unique' : List String} (h : insertAll unique names = some unique') (hnodup : unique.Nodup) :
    unique'.Nodup ∧ unique'.Perm (unique ++ names) := by
  induction names generalizing unique with
  | nil =>
    cases h
    exact ⟨hnodup, by rw [List.append_nil]⟩
  | cons name names ih =>
    unfold insertAll at h
    split at h
    · cases h
    · rename_i hnew
      obtain ⟨hnodup', hperm⟩ := ih h (List.nodup_cons.mpr ⟨hnew, hnodup⟩)
      exact ⟨hnodup', hperm.trans List.perm_middle.symm⟩

theorem ensureUnique_ok {what : String} {unique names unique' : List String} (h : ensureUnique what unique names = .ok unique') :
    insertAll unique names = some unique' := by
  unfold ensureUnique at h
  split at h
  · rename_i hsome
    cases h
    exact hsome
  · cases h

/-- The names of all the jobs there may be. -/
def allNames (config : PluginConfig) : List String :=
  [downloadJobName, uploadJobName] ++ (config.auxServices.getD []).map (·.name) ++ actionNames config.init ++
    jobNames config.postDownload ++ config.services.map (·.name) ++ actionNames config.preUpload ++ jobNames config.postUpload

structure Valid (config : PluginConfig) : Prop where
  names : config.allNames.Nodup
  services : ∀ service ∈ config.services, validateService service = .ok ()

theorem Valid.services_nodup {config : PluginConfig} (h : config.Valid) : (config.services.map (·.name)).Nodup := by
  have hnames := h.names
  unfold allNames at hnames
  simp only [List.nodup_append] at hnames
  exact hnames.1.1.2.1

theorem valid_of_validate {config : PluginConfig} (h : config.validate = .ok ()) : config.Valid := by
  have hadd : ∀ {what : String} {names unique unique' all : List String}, unique.Nodup ∧ unique.Perm all →
      ensureUnique what unique names = .ok unique' → unique'.Nodup ∧ unique'.Perm (all ++ names) := by
    intro what names unique unique' all hall hadded
    obtain ⟨hnodup, hperm⟩ := insertAll_some (ensureUnique_ok hadded) hall.1
    exact ⟨hnodup, hperm.trans (hall.2.append_right names)⟩
  obtain ⟨-, -, h⟩ := Except.of_bind_ok h
  obtain ⟨u₁, h₁, h⟩ := Except.of_bind_ok h
  obtain ⟨u₂, h₂, h⟩ := Except.of_bind_ok h
  obtain ⟨u₃, h₃, h⟩ := Except.of_bind_ok h
  obtain ⟨u₄, h₄, h⟩ := Except.of_bind_ok h
  obtain ⟨_, hservices, h⟩ := Except.of_bind_ok h
  obtain ⟨u₅, h₅, h⟩ := Except.of_bind_ok h
  obtain ⟨u₆, h₆, -⟩ := Except.of_bind_ok h
  have hall := hadd (hadd (hadd (hadd (hadd (hadd ⟨by decide, List.Perm.refl _⟩ h₁) h₂) h₃) h₄) h₅) h₆
  exact ⟨hall.2.nodup_iff.mp hall.1, Except.forall_of_forM hservices⟩

/-- What a service that passes has: an archived one a key, a directory that does not climb, and a key
that is a name. -/
theorem validateService_ok {service : Service} (h : validateService service = .ok ()) :
    (service.archive = true → service.storeKey.isSome = true) ∧ (∀ dataDir, service.dataDir = some dataDir → isRelative dataDir = true) ∧
      ∀ storeKey, service.storeKey = some storeKey → isKey storeKey = true := by
  have hensure : ∀ {b : Bool} {msg : String}, ensure b msg = .ok () → b = true := by
    intro b msg hb
    unfold ensure at hb
    split at hb
    · assumption
    · cases hb
  obtain ⟨_, harchive, h⟩ := Except.of_bind_ok h
  obtain ⟨_, hdir, hkey⟩ := Except.of_bind_ok h
  have harchive := hensure harchive
  have hdir := hensure hdir
  have hkey := hensure hkey
  refine ⟨fun ha => ?_, fun dataDir hd => ?_, fun storeKey hk => ?_⟩
  · rw [ha] at harchive
    simpa using harchive
  · rw [hd] at hdir
    exact hdir
  · rw [hk] at hkey
    exact hkey

/-! ## The jobs of a configuration -/

def defaultRestartConfig : RestartConfig := ⟨600000, 500, some 10⟩

/-- A job of a type with its needs, and nothing else set. -/
def bareJob (jobType : Engine.JobType) (restart : Engine.RestartPolicy) (needs : List String) : Engine.JobConfig where
  jobType
  restart
  shutdownTimeoutSecs := none
  shutdownSignal := none
  needs := some needs
  waitFor := none
  runAs := none
  logBufferCapacityMb := none
  logTimestamp := none
  useProtocolData := none
  oneTime := none

def buildJobConfig (job : Job) : Engine.JobConfig where
  jobType := .runSh job.runSh
  restart :=
    match job.restart with
    | some (.onFailure config) => .onFailure config
    | _ => .never
  shutdownTimeoutSecs := job.shutdownTimeoutSecs
  shutdownSignal := job.shutdownSignal
  needs := job.needs
  waitFor := none
  runAs := job.runAs
  logBufferCapacityMb := job.logBufferCapacityMb
  logTimestamp := job.logTimestamp
  useProtocolData := job.useProtocolData
  oneTime := job.oneTime

def buildAlternativeDownloadJobConfig (alternative : AlternativeDownload) (initJobs : List String) : Engine.JobConfig :=
  { bareJob (.runSh alternative.runSh) ((alternative.restartConfig.map .onFailure).getD .never) initJobs with
    runAs := alternative.runAs
    logBufferCapacityMb := alternative.logBufferCapacityMb
    logTimestamp := alternative.logTimestamp }

def buildColdInitJobConfig (coldInit : ColdInit) (initJobs : List String) : Engine.JobConfig :=
  { bareJob (.runSh coldInit.runSh) ((coldInit.restartConfig.map .onFailure).getD .never) initJobs with
    runAs := coldInit.runAs
    logBufferCapacityMb := coldInit.logBufferCapacityMb
    logTimestamp := coldInit.logTimestamp
    oneTime := coldInit.oneTime }

/-- Only a service that uses protocol data needs jobs and waits for some. -/
def buildServiceJobConfig (service : Service) (needs waitFor : List String) : Engine.JobConfig where
  jobType := .runSh service.runSh
  restart := .always (service.restartConfig.getD ⟨60000, 1000, none⟩)
  shutdownTimeoutSecs := service.shutdownTimeoutSecs
  shutdownSignal := service.shutdownSignal
  needs := if service.useProtocolData then some needs else none
  waitFor := if service.useProtocolData then some waitFor else none
  runAs := service.runAs
  logBufferCapacityMb := service.logBufferCapacityMb
  logTimestamp := service.logTimestamp
  useProtocolData := some service.useProtocolData
  oneTime := none

/-- The restart of an upload or a download, of which there may be no configuration. -/
def restartOnFailure (config : Option RestartConfig) : Engine.RestartPolicy := .onFailure (config.getD defaultRestartConfig)

def buildUploadJobConfig (value : Option Upload) (preUploadJobs : List String) : Engine.JobConfig :=
  match value with
  | some upload =>
    let compression :=
      match upload.compression with
      | Option.none => some (Blockvisor.Compression.zstd 3)
      | some (.zstd level) => some (.zstd level)
      | some .none => Option.none
    bareJob (.upload upload.exclude compression upload.maxConnections upload.maxRunners upload.numberOfChunks
      upload.urlExpiresSecs upload.dataVersion) (restartOnFailure upload.restartConfig) preUploadJobs
  | none => bareJob (.upload none (some (.zstd 3)) none none none none none) (restartOnFailure none) preUploadJobs

def buildMultiClientUploadJobConfig (value : Option Upload) (preUploadJobs : List String) : Engine.JobConfig :=
  match value with
  | some upload =>
    bareJob (.multiClientUpload upload.maxConnections upload.maxRunners upload.urlExpiresSecs upload.dataVersion)
      (restartOnFailure upload.restartConfig) preUploadJobs
  | none => bareJob (.multiClientUpload none none none none) (restartOnFailure none) preUploadJobs

def buildMultiClientDownloadJobConfig (value : Option Download) (initJobs : List String) : Engine.JobConfig :=
  match value with
  | some download =>
    bareJob (.multiClientDownload download.maxConnections download.maxRunners) (restartOnFailure download.restartConfig)
      initJobs
  | none => bareJob (.multiClientDownload none none) (restartOnFailure none) initJobs

end PluginConfig

end Blockvisor
