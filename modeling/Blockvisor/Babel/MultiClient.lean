/-
The clients of a plugin: which services have a data set of their own, to be
downloaded and to be archived, and where on disk it and what is kept about it
are (`multi_client_integration.rs`, and what `upload_job.rs` and
`download_job.rs` say of the same).

Four places pick the services that are clients, each with its own conditions;
`clients_agree` says for which configurations they pick the same. Directories
are named after three fields of a service; `clients_isolated` says for which
configurations none of these collide.
-/
import Blockvisor.Babel.MultiUpload
import Blockvisor.BabelApi.PluginJobs

namespace Blockvisor

open PluginConfig (Service)

/-- A client to download. -/
structure ClientDownloadConfig where
  clientName : String
  dataDirectory : PathBuf
  storeKey : String
  deriving DecidableEq

/-- The directory of a service's data, as the configuration names it. -/
def dataDirName (service : Service) : String := service.dataDir.getD service.name

/-- The client of a service with a store key. -/
def archiveConfig (protocolDataPath : PathBuf) (service : Service) : ClientArchiveConfig where
  clientName := service.name
  storeKey := service.storeKey.getD ""
  dataDirectory := Path.join protocolDataPath (dataDirName service)

def downloadConfig (protocolDataPath : PathBuf) (service : Service) : ClientDownloadConfig where
  clientName := service.name
  dataDirectory := Path.join protocolDataPath (dataDirName service)
  storeKey := service.storeKey.getD ""

/-- `get_archivable_clients`; `parse` makes patterns of the texts of what is excluded. -/
def getArchivableClients {π : Type} (parse : String → Except String π) (config : PluginConfig) (protocolDataPath : PathBuf)
    (excludePatterns : List String) : Except String (List (ClientArchiveConfig × List π)) :=
  match excludePatterns.mapM parse with
  | .error err => .error s!"Failed to parse exclude patterns: {err}"
  | .ok exclude =>
    .ok ((((config.services.filter (·.archive)).filter (·.useProtocolData)).filter (·.storeKey.isSome)).map fun service =>
      (archiveConfig protocolDataPath service, exclude))

def getDownloadableClients (config : PluginConfig) (protocolDataPath : PathBuf) : List ClientDownloadConfig :=
  ((config.services.filter (·.useProtocolData)).filter (·.storeKey.isSome)).map (downloadConfig protocolDataPath)

/-- `Uploader::get_archivable_clients`. -/
def uploaderArchivableClients {π : Type} (config : PluginConfig) (dataMountPoint : PathBuf) (exclude : List π) :
    List (ClientArchiveConfig × List π) :=
  ((config.services.filter (·.archive)).filter (·.storeKey.isSome)).map fun service =>
    (archiveConfig dataMountPoint service, exclude)

/-- A service with a data set of its own. -/
def isClient (service : Service) : Bool := service.archive && service.useProtocolData && service.storeKey.isSome

/-- The services that are clients. -/
def clients (config : PluginConfig) : List Service := config.services.filter isClient

/-! ## The jobs of the clients -/

def isMultiClientDownload (job : String × Engine.JobConfig) : Bool :=
  match job.2.jobType with
  | .multiClientDownload .. => true
  | _ => false

def isMultiClientUpload (job : String × Engine.JobConfig) : Bool :=
  match job.2.jobType with
  | .multiClientUpload .. => true
  | _ => false

section

open RhaiPlugin PluginConfig Script

/-- A job that runs a script. -/
def isRunSh (job : String × Engine.JobConfig) : Bool :=
  match job.2.jobType with
  | .runSh _ => true
  | _ => false

theorem jobsPlan_runSh (jobs : Option (List PluginConfig.Job)) (needs : List String) : ∀ job ∈ jobsPlan jobs needs, isRunSh job = true := by
  intro job hjob
  obtain ⟨j, -, hj⟩ := List.mem_map.mp hjob
  rw [← hj]
  rfl

theorem servicesPlan_runSh (services : List Service) (needs waitFor : List String) :
    ∀ job ∈ services.map (servicePlan needs waitFor), isRunSh job = true := by
  intro job hjob
  obtain ⟨service, -, hservice⟩ := List.mem_map.mp hjob
  rw [← hservice]
  rfl

theorem auxPlan_runSh (services : Option (List AuxService)) : ∀ job ∈ auxPlan services, isRunSh job = true := by
  intro job hjob
  obtain ⟨service, -, hservice⟩ := List.mem_map.mp hjob
  rw [← hservice]
  rfl

theorem runSh_download {job : String × Engine.JobConfig} (h : isRunSh job = true) : isMultiClientDownload job = false := by
  unfold isRunSh at h
  unfold isMultiClientDownload
  split at h
  · rename_i hjob
    rw [hjob]
  · cases h

theorem runSh_upload {job : String × Engine.JobConfig} (h : isRunSh job = true) : isMultiClientUpload job = false := by
  unfold isRunSh at h
  unfold isMultiClientUpload
  split at h
  · rename_i hjob
    rw [hjob]
  · cases h

/-- `default_init` plans a download of clients when some service is archived. -/
theorem initPlan_multi (config : PluginConfig) (stamped : Bool) :
    (initPlan config stamped).any isMultiClientDownload = hasMultiClientServices config.services := by
  have hscripts : ∀ {jobs : JobPlan}, (∀ job ∈ jobs, isRunSh job = true) → jobs.any isMultiClientDownload = false :=
    fun h => List.any_eq_false.mpr fun job hjob => by rw [runSh_download (h job hjob)]; exact Bool.false_ne_true
  have hdata : ∀ needs, (dataPlan config stamped needs).1.any isMultiClientDownload = hasMultiClientServices config.services := by
    intro needs
    unfold dataPlan
    split
    · rename_i hmulti
      rw [hmulti]
      show (isMultiClientDownload (downloadJobName, buildMultiClientDownloadJobConfig config.download needs) || _) = true
      cases config.download <;> rfl
    · rename_i hmulti
      rw [Bool.eq_false_iff.mpr hmulti]
      split
      · rfl
      · unfold firstDataPlan
        split
        · exact hscripts fun job hjob => by
            cases List.mem_cons.mp hjob with
            | inl hjob => rw [hjob]; rfl
            | inr hjob => exact jobsPlan_runSh _ _ job hjob
        · rfl
        · rfl
  unfold initPlan
  simp only [List.any_append, hdata, hscripts (auxPlan_runSh _), hscripts (jobsPlan_runSh _ _),
    hscripts (servicesPlan_runSh _ _ _), Bool.false_or, Bool.or_false]

/-- `default_upload` plans an upload of clients when there are some. -/
theorem uploadPlan_multi (config : PluginConfig) : (uploadPlan config).any isMultiClientUpload = config.services.any isClient := by
  have hscripts : ∀ {jobs : JobPlan}, (∀ job ∈ jobs, isRunSh job = true) → jobs.any isMultiClientUpload = false :=
    fun h => List.any_eq_false.mpr fun job hjob => by rw [runSh_upload (h job hjob)]; exact Bool.false_ne_true
  have harchivable : hasArchivableServices (retainProtocolData config).services = config.services.any isClient := by
    show (config.services.filter (·.useProtocolData)).any _ = _
    rw [List.any_filter]
    congr 1
    funext service
    unfold isClient
    cases service.useProtocolData <;> simp
  have hdata : ∀ needs, (putDataPlan (retainProtocolData config) needs).1.any isMultiClientUpload = config.services.any isClient := by
    intro needs
    rw [← harchivable]
    unfold putDataPlan
    by_cases hsome : hasArchivableServices (retainProtocolData config).services = true
    · have hmulti : hasMultiClientServices (retainProtocolData config).services = true := by
        obtain ⟨service, hmem, hservice⟩ := List.any_eq_true.mp hsome
        refine List.any_eq_true.mpr ⟨service, hmem, ?_⟩
        simp only [Bool.and_eq_true] at hservice ⊢
        exact ⟨hservice.1.1, hservice.2⟩
      rw [if_pos hsome, if_pos hmulti, hsome]
      show (isMultiClientUpload (uploadJobName, buildMultiClientUploadJobConfig config.upload needs) || false) = true
      cases config.upload <;> rfl
    · rw [if_neg hsome, Bool.eq_false_iff.mpr hsome]
      rfl
  unfold uploadPlan retainedPlan
  simp only [List.any_append, hdata, hscripts (jobsPlan_runSh _ _), hscripts (servicesPlan_runSh _ _ _), Bool.false_or, Bool.or_false]

/-! ## Who the clients are -/

/-- Everything that picks clients picks these, and there is a job for them when there are some. -/
structure ClientsAgree (config : PluginConfig) : Prop where
  downloadable : ∀ path, getDownloadableClients config path = (clients config).map (downloadConfig path)
  archivable : ∀ (π : Type) (parse : String → Except String π) path patterns picked,
    getArchivableClients parse config path patterns = .ok picked → picked.map (·.1) = (clients config).map (archiveConfig path)
  uploader : ∀ (π : Type) path (exclude : List π),
    (uploaderArchivableClients config path exclude).map (·.1) = (clients config).map (archiveConfig path)
  download : ∀ log, Runs (defaultInit (some config)) log (.ok ()) →
    ((∃ job ∈ created log, isMultiClientDownload job = true) ↔ clients config ≠ [])
  noDownload : ∀ log r, Runs (defaultInit (some config)) log r → ∀ job ∈ created log, isMultiClientDownload job = true →
    clients config ≠ []
  upload : ∀ log, Runs (defaultUpload (some config)) log (.ok ()) →
    ((∃ job ∈ created log, isMultiClientUpload job = true) ↔ clients config ≠ [])
  noUpload : ∀ log r, Runs (defaultUpload (some config)) log r → ∀ job ∈ created log, isMultiClientUpload job = true →
    clients config ≠ []

theorem clients_ne_nil {config : PluginConfig} : clients config ≠ [] ↔ config.services.any isClient = true := by
  unfold clients
  rw [Ne, List.filter_eq_nil_iff, List.any_eq_true]
  simp

/-- What is created in a run that returns is the plan, and of any run it is the first part. -/
theorem created_any {p : PluginM Unit} {plans : JobPlan → Prop} {f : String × Engine.JobConfig → Bool} {b : Bool}
    (h : Creates p fun _ plan => plans plan) (hplans : ∀ plan, plans plan → plan.any f = b) {log : Log EngineCall.Reply}
    {r : Except String Unit} (hrun : Runs p log r) :
    (r = .ok () → ((∃ job ∈ created log, f job = true) ↔ b = true)) ∧ ∀ job ∈ created log, f job = true → b = true := by
  have hplan : ∃ plan, plans plan ∧ created log <+: plan ∧ (r = .ok () → created log = plan) := by
    cases r with
    | ok u => exact ⟨_, h.ok log u hrun, List.prefix_rfl, fun _ => rfl⟩
    | error e =>
      obtain ⟨u, plan, hplan, hbegins⟩ := h.error log e hrun
      exact ⟨plan, hplan, hbegins, nofun⟩
  obtain ⟨plan, hplan, hbegins, hall⟩ := hplan
  refine ⟨fun hr => ?_, fun job hjob hf => ?_⟩
  · rw [hall hr, ← hplans plan hplan, List.any_eq_true]
  · rw [← hplans plan hplan]
    exact List.any_eq_true.mpr ⟨job, hbegins.subset hjob, hf⟩

theorem filter_clients {config : PluginConfig} {p : Service → Bool} (h : ∀ service ∈ config.services, p service = isClient service) :
    config.services.filter p = clients config := List.filter_congr h

theorem getArchivableClients_ok {π : Type} {parse : String → Except String π} {config : PluginConfig} {path : PathBuf}
    {patterns : List String} {picked : List (ClientArchiveConfig × List π)}
    (h : getArchivableClients parse config path patterns = .ok picked) :
    picked.map (·.1) = (clients config).map (archiveConfig path) := by
  unfold getArchivableClients at h
  split at h
  · cases h
  · cases h
    rw [List.map_map, List.filter_filter, List.filter_filter, filter_clients]
    · rfl
    · intro service hmem
      unfold isClient
      cases service.archive <;> cases service.useProtocolData <;> cases service.storeKey.isSome <;> rfl

/-- A service whose name a client has is that client. -/
theorem isClient_of_name {config : PluginConfig} (h : config.Valid) {service : Service} (hmem : service ∈ config.services)
    (hname : service.name ∈ (clients config).map (·.name)) : isClient service = true := by
  obtain ⟨client, hclient, hsame⟩ := List.mem_map.mp hname
  obtain ⟨hclient, his⟩ := List.mem_filter.mp hclient
  rw [← List.inj_on_of_nodup_map h.services_nodup hclient hmem hsame]
  exact his

/-- **The clients are the same everywhere** just when each service with a store key is archived if and
only if it uses protocol data. -/
theorem clients_agree {config : PluginConfig} (h : config.validate = .ok ()) :
    ClientsAgree config ↔ ∀ service ∈ config.services, service.storeKey.isSome = true → service.archive = service.useProtocolData := by
  have hvalid := valid_of_validate h
  have hkey : ∀ service ∈ config.services, service.archive = true → service.storeKey.isSome = true :=
    fun service hmem => (validateService_ok (hvalid.services service hmem)).1
  constructor
  · intro hagree service hmem hsome
    cases harchive : service.archive <;> cases huse : service.useProtocolData
    · rfl
    · -- downloaded, and never archived
      have hpicked : service.name ∈ (getDownloadableClients config []).map (·.clientName) := by
        refine List.mem_map.mpr ⟨downloadConfig [] service, List.mem_map.mpr ⟨service, ?_, rfl⟩, rfl⟩
        exact List.mem_filter.mpr ⟨List.mem_filter.mpr ⟨hmem, huse⟩, hsome⟩
      rw [hagree.downloadable, List.map_map] at hpicked
      have hclient := isClient_of_name hvalid hmem hpicked
      rw [isClient, harchive] at hclient
      cases hclient
    · -- archived by the uploader's own account only
      have hpicked : service.name ∈ ((uploaderArchivableClients config [] ([] : List Unit)).map (·.1)).map (·.clientName) := by
        refine List.mem_map.mpr ⟨archiveConfig [] service, List.mem_map.mpr ⟨(archiveConfig [] service, []), ?_, rfl⟩, rfl⟩
        exact List.mem_map.mpr ⟨service, List.mem_filter.mpr ⟨List.mem_filter.mpr ⟨hmem, harchive⟩, hsome⟩, rfl⟩
      rw [hagree.uploader, List.map_map] at hpicked
      have hclient := isClient_of_name hvalid hmem hpicked
      rw [isClient, huse] at hclient
      simp at hclient
    · rfl
  · intro hsame
    have hclient : ∀ service ∈ config.services, isClient service = (service.archive && service.storeKey.isSome) ∧
        isClient service = (service.useProtocolData && service.storeKey.isSome) := by
      intro service hmem
      have hs := hsame service hmem
      unfold isClient
      cases hsome : service.storeKey.isSome <;> simp_all
    have hmulti : hasMultiClientServices config.services = config.services.any isClient := by
      rw [Bool.eq_iff_iff, hasMultiClientServices, List.any_eq_true, List.any_eq_true]
      constructor
      · intro hsome
        obtain ⟨service, hmem, hservice⟩ := hsome
        exact ⟨service, hmem, (hclient service hmem).1.trans hservice⟩
      · intro hsome
        obtain ⟨service, hmem, hservice⟩ := hsome
        exact ⟨service, hmem, (hclient service hmem).1.symm.trans hservice⟩
    have hdownload : ∀ {log r}, Runs (defaultInit (some config)) log r →
        (r = .ok () → ((∃ job ∈ created log, isMultiClientDownload job = true) ↔ config.services.any isClient = true)) ∧
          ∀ job ∈ created log, isMultiClientDownload job = true → config.services.any isClient = true :=
      created_any (defaultInit_creates config) fun plan hplan => by
        obtain ⟨stamped, hplan⟩ := hplan
        rw [hplan, initPlan_multi, hmulti]
    have hupload : ∀ {log r}, Runs (defaultUpload (some config)) log r →
        (r = .ok () → ((∃ job ∈ created log, isMultiClientUpload job = true) ↔ config.services.any isClient = true)) ∧
          ∀ job ∈ created log, isMultiClientUpload job = true → config.services.any isClient = true :=
      created_any ((defaultUpload_makes config).conseq fun _ _ hplan => hplan.2) fun plan hplan => by
        rw [hplan, uploadPlan_multi]
    have hsome : ∀ service ∈ config.services, (service.storeKey.isSome && service.archive) = isClient service :=
      fun service hmem => by rw [(hclient service hmem).1, Bool.and_comm]
    constructor
    case downloadable =>
      intro path
      unfold getDownloadableClients
      rw [List.filter_filter, filter_clients fun service hmem => by rw [(hclient service hmem).2, Bool.and_comm]]
    case archivable =>
      intro π parse path patterns picked hpicked
      exact getArchivableClients_ok hpicked
    case uploader =>
      intro π path exclude
      unfold uploaderArchivableClients
      rw [List.map_map, List.filter_filter, filter_clients hsome]
      rfl
    case download => exact fun log hrun => by rw [clients_ne_nil]; exact (hdownload hrun).1 rfl
    case noDownload => exact fun log r hrun job hjob his => clients_ne_nil.mpr ((hdownload hrun).2 job hjob his)
    case upload => exact fun log hrun => by rw [clients_ne_nil]; exact (hupload hrun).1 rfl
    case noUpload => exact fun log r hrun job hjob his => clients_ne_nil.mpr ((hupload hrun).2 job hjob his)

/-- A configuration of services only. -/
def ofServices (services : List Service) : PluginConfig :=
  ⟨none, none, none, none, none, none, none, services, none, none, none, none⟩

/-- A service with nothing set but these. -/
def serviceNamed (name : String) (archive : Bool) (storeKey dataDir : Option String) : Service :=
  { name, runSh := "run", restartConfig := none, shutdownTimeoutSecs := none, shutdownSignal := none, runAs := none,
    logBufferCapacityMb := none, logTimestamp := none, dataDir, storeKey, archive }

theorem clients_agree_two :
    ClientsAgree (ofServices [serviceNamed "reth" true (some "reth-v1") none, serviceNamed "helper" false none none]) :=
  (clients_agree (by decide)).mpr (by decide)

/-- A service that is not archived is downloaded, if it has a store key. -/
theorem clients_disagree : ¬ ∀ config : PluginConfig, config.validate = .ok () → ClientsAgree config := by
  intro h
  have hagree := h (ofServices [serviceNamed "monitoring" false (some "monitoring-v1") none]) (by decide)
  have hnone := hagree.downloadable []
  revert hnone
  decide

/-! ## Where the clients are -/

/-- The directory in which archive jobs keep what they know, below that of their data. -/
def archiveJobsMetaDir (dataMountPoint : PathBuf) : PathBuf := Path.join dataMountPoint ".babel_jobs"

/-- `ClientUploader::run`: the directory is named after the store key. -/
def uploadMetaDir (metaDir : PathBuf) (client : ClientArchiveConfig) : PathBuf := Path.join metaDir client.storeKey

/-- `ClientDownloader::new`: the directory is named after the client. -/
def downloadMetaDir (metaDir : PathBuf) (clientName : String) : PathBuf := Path.join metaDir ("download_" ++ clientName)

/-- The directories of two clients; an upload has its own below the protocol data. -/
structure ClientsApart (dataMountPoint protocolDataPath : PathBuf) (c c' : ClientArchiveConfig) : Prop where
  upload : Path.Apart (uploadMetaDir (archiveJobsMetaDir protocolDataPath) c) (uploadMetaDir (archiveJobsMetaDir protocolDataPath) c')
  download : Path.Apart (downloadMetaDir (archiveJobsMetaDir dataMountPoint) c.clientName)
    (downloadMetaDir (archiveJobsMetaDir dataMountPoint) c'.clientName)
  data : Path.Apart c.dataDirectory c'.dataDirectory

structure ClientsIsolated (dataMountPoint protocolDataPath : PathBuf) (clients : List ClientArchiveConfig) : Prop where
  inside : ∀ c ∈ clients, protocolDataPath <+: c.dataDirectory
  apart : clients.Pairwise (ClientsApart dataMountPoint protocolDataPath)

/-- The way from the protocol data to a service's own. -/
def dirWay (protocolDataPath : PathBuf) (service : Service) : PathBuf :=
  (Path.join protocolDataPath (dataDirName service)).drop protocolDataPath.length

/-- What two services must not share. -/
structure ServicesApart (dataMountPoint protocolDataPath : PathBuf) (s s' : Service) : Prop where
  storeKey : s.storeKey ≠ s'.storeKey
  name : '/' ∈ s.name.toList ∨ '/' ∈ s'.name.toList → Path.Apart
    (downloadMetaDir (archiveJobsMetaDir dataMountPoint) s.name) (downloadMetaDir (archiveJobsMetaDir dataMountPoint) s'.name)
  dir : Path.Apart (dirWay protocolDataPath s) (dirWay protocolDataPath s')

instance (dataMountPoint protocolDataPath : PathBuf) (s s' : Service) :
    Decidable (ServicesApart dataMountPoint protocolDataPath s s') :=
  decidable_of_iff (s.storeKey ≠ s'.storeKey ∧
      ('/' ∈ s.name.toList ∨ '/' ∈ s'.name.toList → Path.Apart (downloadMetaDir (archiveJobsMetaDir dataMountPoint) s.name)
        (downloadMetaDir (archiveJobsMetaDir dataMountPoint) s'.name)) ∧
      Path.Apart (dirWay protocolDataPath s) (dirWay protocolDataPath s'))
    ⟨fun h => ⟨h.1, h.2.1, h.2.2⟩, fun h => ⟨h.storeKey, h.name, h.dir⟩⟩

theorem uploadMetaDir_key {metaDir : PathBuf} {client : ClientArchiveConfig} (h : isKey client.storeKey = true) :
    uploadMetaDir metaDir client = metaDir ++ [client.storeKey] := by
  unfold isKey at h
  rw [Bool.and_eq_true, decide_eq_true_eq, List.all_eq_true] at h
  have hnot : ∀ c ∈ client.storeKey.toList, c ≠ '/' ∧ c ≠ '.' := by
    intro c hc
    have hchar := h.2 c hc
    constructor
    · intro heq
      rw [heq] at hchar
      exact absurd hchar (by decide)
    · intro heq
      rw [heq] at hchar
      exact absurd hchar (by decide)
  refine Path.join_single (fun hslash => (hnot _ hslash).1 rfl) h.1 (fun hdot => ?_) fun hdots => ?_
  · rw [hdot] at hnot
    exact (hnot '.' (by decide)).2 rfl
  · rw [hdots] at hnot
    exact (hnot '.' (by decide)).2 rfl

theorem downloadMetaDir_plain {metaDir : PathBuf} {name : String} (h : '/' ∉ name.toList) :
    downloadMetaDir metaDir name = metaDir ++ ["download_" ++ name] := by
  have hne : ∀ s : String, s.toList.length < 9 → "download_" ++ name ≠ s := by
    intro s hs heq
    rw [← heq, String.toList_append, List.length_append] at hs
    have hlen : "download_".toList.length = 9 := rfl
    omega
  refine Path.join_single ?_ (hne _ (by decide)) (hne _ (by decide)) (hne _ (by decide))
  rw [String.toList_append, List.mem_append]
  intro hslash
  cases hslash with
  | inl hslash => exact absurd hslash (by decide)
  | inr hslash => exact h hslash

/-- A directory that is given does not climb. -/
theorem dataDir_inside {protocolDataPath : PathBuf} {dataDir : String} (h : isRelative dataDir = true) :
    protocolDataPath <+: Path.join protocolDataPath dataDir := by
  unfold isRelative at h
  simp only [Bool.and_eq_true, Bool.not_eq_true', decide_eq_false_iff_not, decide_eq_true_eq] at h
  rw [Path.join_plain (decide_eq_false h.1.2) (Path.dots_notMem_parts h.2)]
  exact List.prefix_append _ _

theorem clients_nodup {config : PluginConfig} (h : config.Valid) : (clients config).Pairwise fun s s' => s.name ≠ s'.name := by
  have hnodup : ((clients config).map (·.name)).Nodup := h.services_nodup.sublist (List.filter_sublist.map _)
  exact List.pairwise_map.mp hnodup

theorem join_dirWay {protocolDataPath : PathBuf} {service : Service}
    (h : protocolDataPath <+: Path.join protocolDataPath (dataDirName service)) :
    Path.join protocolDataPath (dataDirName service) = protocolDataPath ++ dirWay protocolDataPath service :=
  (List.prefix_iff_eq_append.mp h).symm

theorem clientsApart_iff {dataMountPoint protocolDataPath : PathBuf} {s s' : Service} (hname : s.name ≠ s'.name)
    (hkey : s.storeKey.isSome = true ∧ s.storeKey.all isKey = true) (hkey' : s'.storeKey.isSome = true ∧ s'.storeKey.all isKey = true)
    (hin : protocolDataPath <+: Path.join protocolDataPath (dataDirName s))
    (hin' : protocolDataPath <+: Path.join protocolDataPath (dataDirName s')) :
    ClientsApart dataMountPoint protocolDataPath (archiveConfig protocolDataPath s) (archiveConfig protocolDataPath s') ↔
      ServicesApart dataMountPoint protocolDataPath s s' := by
  have hupload : Path.Apart (uploadMetaDir (archiveJobsMetaDir protocolDataPath) (archiveConfig protocolDataPath s))
      (uploadMetaDir (archiveJobsMetaDir protocolDataPath) (archiveConfig protocolDataPath s')) ↔ s.storeKey ≠ s'.storeKey := by
    obtain ⟨key, hsome⟩ := Option.isSome_iff_exists.mp hkey.1
    obtain ⟨key', hsome'⟩ := Option.isSome_iff_exists.mp hkey'.1
    rw [hsome] at hkey
    rw [hsome'] at hkey'
    have hdir : (archiveConfig protocolDataPath s).storeKey = key := by unfold archiveConfig; rw [hsome]; rfl
    have hdir' : (archiveConfig protocolDataPath s').storeKey = key' := by unfold archiveConfig; rw [hsome']; rfl
    rw [uploadMetaDir_key (by rw [hdir]; exact hkey.2), uploadMetaDir_key (by rw [hdir']; exact hkey'.2), Path.apart_append,
      Path.apart_single, hdir, hdir', hsome, hsome']
    simp
  have hdownload : '/' ∉ s.name.toList → '/' ∉ s'.name.toList → Path.Apart
      (downloadMetaDir (archiveJobsMetaDir dataMountPoint) s.name) (downloadMetaDir (archiveJobsMetaDir dataMountPoint) s'.name) := by
    intro hplain hplain'
    rw [downloadMetaDir_plain hplain, downloadMetaDir_plain hplain', Path.apart_append, Path.apart_single]
    intro hsame
    refine hname (String.toList_inj.mp ?_)
    have hlists := congrArg String.toList hsame
    rw [String.toList_append, String.toList_append] at hlists
    exact List.append_cancel_left hlists
  have hdata : Path.Apart (archiveConfig protocolDataPath s).dataDirectory (archiveConfig protocolDataPath s').dataDirectory ↔
      Path.Apart (dirWay protocolDataPath s) (dirWay protocolDataPath s') := by
    show Path.Apart (Path.join protocolDataPath (dataDirName s)) (Path.join protocolDataPath (dataDirName s')) ↔ _
    rw [join_dirWay hin, join_dirWay hin', Path.apart_append]
  constructor
  · intro h
    exact ⟨hupload.mp h.upload, fun _ => h.download, hdata.mp h.data⟩
  · intro h
    refine ⟨hupload.mpr h.storeKey, ?_, hdata.mpr h.dir⟩
    by_cases hslash : '/' ∈ s.name.toList ∨ '/' ∈ s'.name.toList
    · exact h.name hslash
    · exact hdownload (fun hs => hslash (.inl hs)) fun hs => hslash (.inr hs)

/-- **When the clients are isolated**: their services share no store key, no directory and no part of
one, and no service without a directory has a name that leads out of the protocol data. -/
theorem clients_isolated {π : Type} {parse : String → Except String π} {config : PluginConfig} {dataMountPoint protocolDataPath : PathBuf}
    {patterns : List String} {picked : List (ClientArchiveConfig × List π)} (h : config.validate = .ok ())
    (hpicked : getArchivableClients parse config protocolDataPath patterns = .ok picked) :
    ClientsIsolated dataMountPoint protocolDataPath (picked.map (·.1)) ↔
      (∀ s ∈ clients config, s.dataDir = none → protocolDataPath <+: Path.join protocolDataPath s.name) ∧
        (clients config).Pairwise (ServicesApart dataMountPoint protocolDataPath) := by
  have hvalid := valid_of_validate h
  have hservice : ∀ s ∈ clients config, s.storeKey.isSome = true ∧ s.storeKey.all isKey = true := by
    intro s hs
    obtain ⟨hmem, hclient⟩ := List.mem_filter.mp hs
    obtain ⟨-, -, hkeys⟩ := validateService_ok (hvalid.services s hmem)
    rw [isClient, Bool.and_eq_true] at hclient
    refine ⟨hclient.2, ?_⟩
    cases hkey : s.storeKey with
    | none => rfl
    | some key => exact hkeys key hkey
  have hinside : ∀ s ∈ clients config, (s.dataDir = none → protocolDataPath <+: Path.join protocolDataPath s.name) →
      protocolDataPath <+: Path.join protocolDataPath (dataDirName s) := by
    intro s hs hname
    obtain ⟨-, hdirs, -⟩ := validateService_ok (hvalid.services s (List.mem_filter.mp hs).1)
    unfold dataDirName
    cases hdir : s.dataDir with
    | none => exact hname hdir
    | some dataDir => exact dataDir_inside (hdirs dataDir hdir)
  have hpairs : (∀ s ∈ clients config, protocolDataPath <+: Path.join protocolDataPath (dataDirName s)) →
      ((clients config).Pairwise (fun s s' => ClientsApart dataMountPoint protocolDataPath (archiveConfig protocolDataPath s)
          (archiveConfig protocolDataPath s')) ↔
        (clients config).Pairwise (ServicesApart dataMountPoint protocolDataPath)) := by
    intro hall
    have hnames := clients_nodup hvalid
    constructor
    · intro hapart
      refine (hapart.and hnames).imp_of_mem fun hs hs' hboth => ?_
      exact (clientsApart_iff hboth.2 (hservice _ hs) (hservice _ hs') (hall _ hs) (hall _ hs')).mp hboth.1
    · intro hapart
      refine (hapart.and hnames).imp_of_mem fun hs hs' hboth => ?_
      exact (clientsApart_iff hboth.2 (hservice _ hs) (hservice _ hs') (hall _ hs) (hall _ hs')).mpr hboth.1
  rw [getArchivableClients_ok hpicked]
  constructor
  · intro hisolated
    have hall : ∀ s ∈ clients config, protocolDataPath <+: Path.join protocolDataPath (dataDirName s) :=
      fun s hs => hisolated.inside _ (List.mem_map_of_mem hs)
    refine ⟨fun s hs hdir => ?_, (hpairs hall).mp (List.pairwise_map.mp hisolated.apart)⟩
    have hin := hall s hs
    unfold dataDirName at hin
    rw [hdir] at hin
    exact hin
  · intro hseparate
    have hall : ∀ s ∈ clients config, protocolDataPath <+: Path.join protocolDataPath (dataDirName s) :=
      fun s hs => hinside s hs (hseparate.1 s hs)
    refine ⟨fun c hc => ?_, List.pairwise_map.mpr ((hpairs hall).mpr hseparate.2)⟩
    obtain ⟨s, hs, heq⟩ := List.mem_map.mp hc
    rw [← heq]
    exact hall s hs

def twoClients : PluginConfig :=
  ofServices [serviceNamed "reth" true (some "reth-v1") none, serviceNamed "lighthouse" true (some "lighthouse-v1") (some "beacon")]

theorem clients_isolated_two :
    ClientsIsolated ["blockjoy"] ["blockjoy", "protocol_data"] ((twoClients.services.map fun s =>
      (archiveConfig ["blockjoy", "protocol_data"] s, ([] : List Unit))).map (·.1)) :=
  (@clients_isolated _ (fun _ => .ok ()) twoClients _ _ [] _ (by decide) (by decide)).mpr (by decide)

/-- Two services with one store key. -/
theorem clients_collide :
    ¬ ∀ (config : PluginConfig) (dataMountPoint protocolDataPath : PathBuf) (picked : List (ClientArchiveConfig × List Unit)),
      config.validate = .ok () → getArchivableClients (fun _ => .ok ()) config protocolDataPath [] = .ok picked →
      ClientsIsolated dataMountPoint protocolDataPath (picked.map (·.1)) := by
  intro h
  have hisolated := h (ofServices [serviceNamed "reth" true (some "ethereum-v1") none, serviceNamed "geth" true (some "ethereum-v1") none])
    ["blockjoy"] ["blockjoy", "protocol_data"] _ (by decide) rfl
  have hapart := (List.pairwise_cons.mp hisolated.apart).1 _ (List.mem_cons_self ..)
  exact hapart.upload.1 (by decide)

end

end Blockvisor
