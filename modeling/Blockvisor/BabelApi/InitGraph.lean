/-
What the jobs of `default_init` need of each other. They run in stages: the
init jobs, the one that gets the data, those after it, and the services that use
the data. A job of a later stage needs all those of the earlier ones, through
others if not itself (`later_needs`); the needs that the plugin's author gives
are not checked, so whether all are of jobs that exist, and in no circle, is up
to these (`init_graph`).
-/
import Blockvisor.BabelApi.PluginJobs
import Blockvisor.Lib.Acyclic

namespace Blockvisor

namespace RhaiPlugin

open PluginConfig Relation

def names (plan : JobPlan) : List String := plan.map (·.1)

/-- What a job needs, and what it waits for. -/
def dependencies (config : Engine.JobConfig) : List String := config.needs.getD [] ++ config.waitFor.getD []

def DependsOn (plan : JobPlan) (name dep : String) : Prop := ∃ config, (name, config) ∈ plan ∧ dep ∈ dependencies config

def Needs (plan : JobPlan) (name dep : String) : Prop := ∃ config, (name, config) ∈ plan ∧ dep ∈ config.needs.getD []

/-- Every name in a `needs` or `wait_for` is that of a job. -/
def Closed (plan : JobPlan) : Prop := ∀ name dep, DependsOn plan name dep → dep ∈ names plan

/-- The init and post-download jobs. -/
def initJobs (config : PluginConfig) : List PluginConfig.Job :=
  (config.init.map (·.jobs)).getD [] ++ config.postDownload.getD []

/-- What the author of the plugin says that a created job needs. -/
def UserNeeds (config : PluginConfig) (plan : JobPlan) (name dep : String) : Prop :=
  name ∈ names plan ∧ ∃ job ∈ initJobs config, job.name = name ∧ dep ∈ job.needs.getD []

def dataServices (config : PluginConfig) : List String := (config.services.filter (·.useProtocolData)).map (·.name)

/-- Where a job stands in the order in which they are to run; the services that do not use the data
have no place in it, like jobs that were not created. -/
def stage (config : PluginConfig) (plan : JobPlan) (name : String) : Nat :=
  if name ∉ names plan then 0
  else if name ∈ dataServices config then 4
  else if name ∈ jobNames config.postDownload then 3
  else if name = downloadJobName then 2
  else if name ∈ actionNames config.init then 1
  else 0

/-! ## The plan -/

theorem names_append (plan plan' : JobPlan) : names (plan ++ plan') = names plan ++ names plan' := List.map_append

theorem names_jobsPlan (jobs : Option (List PluginConfig.Job)) (needs : List String) : names (jobsPlan jobs needs) = jobNames jobs := by
  unfold names jobsPlan jobNames
  rw [List.map_map]
  rfl

theorem names_services (services : List Service) (needs : List String) :
    names (services.map (servicePlan needs [])) = services.map (·.name) := by
  unfold names
  rw [List.map_map]
  rfl

theorem names_aux (services : Option (List AuxService)) : names (auxPlan services) = (services.getD []).map (·.name) := by
  unfold names auxPlan
  rw [List.map_map]
  rfl

theorem nextNeeds_nil (jobs : Option (List PluginConfig.Job)) : nextNeeds jobs [] = jobNames jobs := by
  unfold nextNeeds
  split
  · rename_i hempty
    exact (List.isEmpty_iff.mp hempty).symm
  · rfl

/-- The job that gets the data, if there is one, and those after it. -/
structure DataJobs where
  download : Option Engine.JobConfig
  post : Option (List PluginConfig.Job)

/-- What the services need. -/
def DataJobs.servicesNeeds (config : PluginConfig) (jobs : DataJobs) : List String :=
  nextNeeds jobs.post (if jobs.download.isSome then [downloadJobName] else actionNames config.init)

def DataJobs.plan (config : PluginConfig) (jobs : DataJobs) : JobPlan :=
  auxPlan config.auxServices ++ (jobsPlan (config.init.map (·.jobs)) [] ++
    (jobs.download.toList.map (fun jobConfig => (downloadJobName, jobConfig)) ++ (jobsPlan jobs.post [downloadJobName] ++
      config.services.map (servicePlan (jobs.servicesNeeds config) []))))

/-- The data of a node are downloaded, if it has none and they are not initialised otherwise. -/
def Downloads (config : PluginConfig) : Prop :=
  hasMultiClientServices config.services = true ∨ config.alternativeDownload.isSome = true

/-- The job that gets the data needs the init jobs, and the others come after it if it is a download. -/
structure DataJobs.Ok (config : PluginConfig) (jobs : DataJobs) : Prop where
  needs : ∀ jobConfig, jobs.download = some jobConfig → jobConfig.needs = some (actionNames config.init) ∧ jobConfig.waitFor = none
  post : jobs.post = config.postDownload ∨ (jobs.post = none ∧ (jobs.download.isSome = true → ¬ Downloads config))
  first : jobs.download = none → jobs.post = none

/-- Nothing to get, or a job for it that needs what is said and those after it. -/
def DataShape (config : PluginConfig) (needs : List String) (data : JobPlan × List String) : Prop :=
  data = ([], needs) ∨ ∃ jobConfig post, jobConfig.needs = some needs ∧ jobConfig.waitFor = none ∧
    (post = config.postDownload ∨ (post = none ∧ ¬ Downloads config)) ∧
    data = ((downloadJobName, jobConfig) :: jobsPlan post [downloadJobName], nextNeeds post [downloadJobName])

theorem firstDataPlan_shape (config : PluginConfig) (needs : List String) (h : hasMultiClientServices config.services ≠ true) :
    DataShape config needs (firstDataPlan config needs) := by
  unfold firstDataPlan
  cases halternative : config.alternativeDownload with
  | some alternativeDownload => exact .inr ⟨_, config.postDownload, rfl, rfl, .inl rfl, rfl⟩
  | none =>
    have hno : ¬ Downloads config := by
      unfold Downloads
      rw [halternative]
      simpa using h
    cases config.coldInit with
    | some coldInit => exact .inr ⟨_, none, rfl, rfl, .inr ⟨rfl, hno⟩, rfl⟩
    | none => exact .inl rfl

theorem dataPlan_shape (config : PluginConfig) (stamped : Bool) (needs : List String) :
    DataShape config needs (dataPlan config stamped needs) := by
  unfold dataPlan
  split
  · refine .inr ⟨_, config.postDownload, ?_, ?_, .inl rfl, rfl⟩
    · unfold buildMultiClientDownloadJobConfig
      split <;> rfl
    · unfold buildMultiClientDownloadJobConfig
      split <;> rfl
  · rename_i hno
    split
    · exact .inl rfl
    · exact firstDataPlan_shape config needs hno

theorem initPlan_eq (config : PluginConfig) (stamped : Bool) : ∃ jobs : DataJobs, jobs.Ok config ∧ initPlan config stamped = jobs.plan config := by
  have hneeds : nextNeeds (config.init.map (·.jobs)) [] = actionNames config.init := nextNeeds_nil _
  cases dataPlan_shape config stamped (actionNames config.init) with
  | inl hnone =>
    refine ⟨⟨none, none⟩, ⟨by simp, .inr ⟨rfl, by simp⟩, fun _ => rfl⟩, ?_⟩
    unfold initPlan
    simp only [hneeds, hnone]
    rfl
  | inr hsome =>
    obtain ⟨jobConfig, post, hjob, hwait, hpost, hplan⟩ := hsome
    refine ⟨⟨some jobConfig, post⟩, ⟨fun jobConfig' heq => ?_, ?_, fun hnone => ?_⟩, ?_⟩
    · cases heq
      exact ⟨hjob, hwait⟩
    · exact hpost.imp_right fun hnone => ⟨hnone.1, fun _ => hnone.2⟩
    · cases hnone
    · unfold initPlan
      simp only [hneeds, hplan]
      rfl

/-! ## Who needs whom -/

section

variable {config : PluginConfig} {jobs : DataJobs} {name dep : String}

theorem addNeeds_needs (needs : List String) (job : PluginConfig.Job) :
    (addNeeds needs job).needs.getD [] = job.needs.getD [] ++ needs := by
  unfold addNeeds
  cases job.needs with
  | some jobNeeds => rfl
  | none => rfl

/-- Nothing waits for another in `default_init`. -/
theorem waitFor_nil (hok : jobs.Ok config) {jobConfig : Engine.JobConfig} (h : (name, jobConfig) ∈ jobs.plan config) :
    jobConfig.waitFor.getD [] = [] := by
  have hservice : ∀ (needs : List String) (service : Service), (buildServiceJobConfig service needs []).waitFor.getD [] = [] := by
    intro needs service
    unfold buildServiceJobConfig
    cases service.useProtocolData <;> rfl
  simp only [DataJobs.plan, List.mem_append] at h
  rcases h with haux | hinit | hdownload | hpost | hservices
  · obtain ⟨service, -, heq⟩ := List.mem_map.mp haux
    cases heq
    rfl
  · obtain ⟨job, -, heq⟩ := List.mem_map.mp hinit
    cases heq
    rfl
  · obtain ⟨jobConfig', hmem, heq⟩ := List.mem_map.mp hdownload
    cases heq
    rw [(hok.needs _ (Option.mem_toList.mp hmem)).2]
    rfl
  · obtain ⟨job, -, heq⟩ := List.mem_map.mp hpost
    cases heq
    rfl
  · obtain ⟨service, -, heq⟩ := List.mem_map.mp hservices
    cases heq
    exact hservice _ service

theorem dependsOn_iff (hok : jobs.Ok config) : DependsOn (jobs.plan config) name dep ↔ Needs (jobs.plan config) name dep := by
  unfold DependsOn Needs dependencies
  constructor
  · intro h
    obtain ⟨jobConfig, hmem, hdep⟩ := h
    rw [waitFor_nil hok hmem, List.append_nil] at hdep
    exact ⟨jobConfig, hmem, hdep⟩
  · intro h
    obtain ⟨jobConfig, hmem, hdep⟩ := h
    exact ⟨jobConfig, hmem, List.mem_append_left _ hdep⟩

theorem needs_cases (hok : jobs.Ok config) (h : Needs (jobs.plan config) name dep) :
    (∃ job ∈ (config.init.map (·.jobs)).getD [], job.name = name ∧ dep ∈ job.needs.getD []) ∨
      (jobs.download.isSome = true ∧ name = downloadJobName ∧ dep ∈ actionNames config.init) ∨
      (∃ job ∈ jobs.post.getD [], job.name = name ∧ (dep ∈ job.needs.getD [] ∨ dep = downloadJobName)) ∨
      (name ∈ dataServices config ∧ dep ∈ jobs.servicesNeeds config) := by
  obtain ⟨jobConfig, hmem, hdep⟩ := h
  simp only [DataJobs.plan, List.mem_append] at hmem
  rcases hmem with haux | hinit | hdownload | hpost | hservices
  · obtain ⟨service, -, heq⟩ := List.mem_map.mp haux
    cases heq
    cases hdep
  · obtain ⟨job, hjob, heq⟩ := List.mem_map.mp hinit
    cases heq
    refine .inl ⟨job, hjob, rfl, ?_⟩
    rw [show (buildJobConfig (addNeeds [] job)).needs = (addNeeds [] job).needs from rfl, addNeeds_needs, List.append_nil] at hdep
    exact hdep
  · obtain ⟨jobConfig', hsome, heq⟩ := List.mem_map.mp hdownload
    cases heq
    have hsome := Option.mem_toList.mp hsome
    rw [(hok.needs _ hsome).1] at hdep
    exact .inr (.inl ⟨Option.isSome_of_mem hsome, rfl, hdep⟩)
  · obtain ⟨job, hjob, heq⟩ := List.mem_map.mp hpost
    cases heq
    refine .inr (.inr (.inl ⟨job, hjob, rfl, ?_⟩))
    rw [show (buildJobConfig (addNeeds [downloadJobName] job)).needs = (addNeeds [downloadJobName] job).needs from rfl,
      addNeeds_needs, List.mem_append, List.mem_singleton] at hdep
    exact hdep
  · obtain ⟨service, hservice, heq⟩ := List.mem_map.mp hservices
    cases heq
    simp only [buildServiceJobConfig] at hdep
    cases hdata : service.useProtocolData with
    | true =>
      rw [hdata] at hdep
      exact .inr (.inr (.inr ⟨List.mem_map_of_mem (List.mem_filter.mpr ⟨hservice, hdata⟩), hdep⟩))
    | false =>
      rw [hdata] at hdep
      cases hdep

theorem init_needs {job : PluginConfig.Job} (hjob : job ∈ (config.init.map (·.jobs)).getD []) (hdep : dep ∈ job.needs.getD []) :
    Needs (jobs.plan config) job.name dep := by
  refine ⟨buildJobConfig (addNeeds [] job), ?_, ?_⟩
  · simp only [DataJobs.plan, List.mem_append]
    exact .inr (.inl (List.mem_map_of_mem (f := jobPlan []) hjob))
  · show dep ∈ (addNeeds [] job).needs.getD []
    rw [addNeeds_needs]
    exact List.mem_append_left _ hdep

theorem download_needs (hok : jobs.Ok config) (hsome : jobs.download.isSome = true) (hdep : dep ∈ actionNames config.init) :
    Needs (jobs.plan config) downloadJobName dep := by
  obtain ⟨jobConfig, hdownload⟩ := Option.isSome_iff_exists.mp hsome
  refine ⟨jobConfig, ?_, ?_⟩
  · simp only [DataJobs.plan, List.mem_append]
    exact .inr (.inr (.inl (List.mem_map_of_mem (f := fun jobConfig => (downloadJobName, jobConfig)) (Option.mem_toList.mpr hdownload))))
  · rw [(hok.needs _ hdownload).1]
    exact hdep

theorem post_needs {job : PluginConfig.Job} (hjob : job ∈ jobs.post.getD []) (hdep : dep ∈ job.needs.getD [] ∨ dep = downloadJobName) :
    Needs (jobs.plan config) job.name dep := by
  refine ⟨buildJobConfig (addNeeds [downloadJobName] job), ?_, ?_⟩
  · simp only [DataJobs.plan, List.mem_append]
    exact .inr (.inr (.inr (.inl (List.mem_map_of_mem (f := jobPlan [downloadJobName]) hjob))))
  · show dep ∈ (addNeeds [downloadJobName] job).needs.getD []
    rw [addNeeds_needs, List.mem_append, List.mem_singleton]
    exact hdep

theorem service_needs (hname : name ∈ dataServices config) (hdep : dep ∈ jobs.servicesNeeds config) :
    Needs (jobs.plan config) name dep := by
  obtain ⟨service, hservice, heq⟩ := List.mem_map.mp hname
  obtain ⟨hservice, hdata⟩ := List.mem_filter.mp hservice
  cases heq
  refine ⟨buildServiceJobConfig service (jobs.servicesNeeds config) [], ?_, ?_⟩
  · simp only [DataJobs.plan, List.mem_append]
    exact .inr (.inr (.inr (.inr (List.mem_map_of_mem (f := servicePlan (jobs.servicesNeeds config) []) hservice))))
  · simp only [buildServiceJobConfig, hdata, if_true]
    exact hdep

theorem mem_names : name ∈ names (jobs.plan config) ↔ name ∈ (config.auxServices.getD []).map (·.name) ∨ name ∈ actionNames config.init ∨
    (jobs.download.isSome = true ∧ name = downloadJobName) ∨ name ∈ jobNames jobs.post ∨ name ∈ config.services.map (·.name) := by
  have hdownload : name ∈ names (jobs.download.toList.map fun jobConfig => (downloadJobName, jobConfig)) ↔
      jobs.download.isSome = true ∧ name = downloadJobName := by
    cases jobs.download with
    | none => simp [names]
    | some jobConfig => simp [names]
  unfold DataJobs.plan
  simp only [names_append, List.mem_append, names_aux, names_jobsPlan, names_services, hdownload]
  rfl

/-! ## The stages -/

/-- A name stands in one of the lists of a configuration only. -/
theorem Valid.apart (h : config.Valid) :
    (∀ name ∈ (config.auxServices.getD []).map (·.name), name ≠ downloadJobName ∧ name ∉ actionNames config.init ∧
      name ∉ jobNames config.postDownload ∧ name ∉ config.services.map (·.name)) ∧
    (∀ name ∈ actionNames config.init, name ≠ downloadJobName ∧ name ∉ jobNames config.postDownload ∧
      name ∉ config.services.map (·.name)) ∧
    (∀ name ∈ jobNames config.postDownload, name ≠ downloadJobName ∧ name ∉ config.services.map (·.name)) ∧
    ∀ name ∈ config.services.map (·.name), name ≠ downloadJobName := by
  have hnames := h.names
  unfold PluginConfig.allNames at hnames
  have hfirst := (List.nodup_append.mp (List.nodup_append.mp hnames).1).1
  obtain ⟨hfirst, -, hservices⟩ := List.nodup_append.mp hfirst
  obtain ⟨hfirst, -, hpost⟩ := List.nodup_append.mp hfirst
  obtain ⟨hfirst, -, hinit⟩ := List.nodup_append.mp hfirst
  obtain ⟨-, -, haux⟩ := List.nodup_append.mp hfirst
  simp only [List.mem_append] at hservices hpost hinit haux
  have hdownload : downloadJobName ∈ [downloadJobName, uploadJobName] := List.mem_cons_self
  refine ⟨fun name hname => ⟨?_, ?_, ?_, ?_⟩, fun name hname => ⟨?_, ?_, ?_⟩, fun name hname => ⟨?_, ?_⟩, fun name hname => ?_⟩
  · exact fun heq => haux _ hdownload _ hname heq.symm
  · exact fun hmem => hinit _ (.inr hname) _ hmem rfl
  · exact fun hmem => hpost _ (.inl (.inr hname)) _ hmem rfl
  · exact fun hmem => hservices _ (.inl (.inl (.inr hname))) _ hmem rfl
  · exact fun heq => hinit _ (.inl hdownload) _ hname heq.symm
  · exact fun hmem => hpost _ (.inr hname) _ hmem rfl
  · exact fun hmem => hservices _ (.inl (.inr hname)) _ hmem rfl
  · exact fun heq => hpost _ (.inl (.inl hdownload)) _ hname heq.symm
  · exact fun hmem => hservices _ (.inr hname) _ hmem rfl
  · exact fun heq => hservices _ (.inl (.inl (.inl hdownload))) _ hname heq.symm

theorem dataServices_mem (h : name ∈ dataServices config) : name ∈ config.services.map (·.name) := by
  obtain ⟨service, hservice, heq⟩ := List.mem_map.mp h
  exact List.mem_map.mpr ⟨service, (List.mem_filter.mp hservice).1, heq⟩

theorem post_mem (hok : jobs.Ok config) (h : name ∈ jobNames jobs.post) : name ∈ jobNames config.postDownload := by
  cases hok.post with
  | inl heq => rw [← heq]; exact h
  | inr heq => rw [heq.1] at h; cases h

theorem stage_service (h : name ∈ dataServices config) : stage config (jobs.plan config) name = 4 := by
  have hmem : name ∈ names (jobs.plan config) := mem_names.mpr (.inr (.inr (.inr (.inr (dataServices_mem h)))))
  unfold stage
  rw [if_neg (not_not_intro hmem), if_pos h]

theorem stage_post (hvalid : config.Valid) (hok : jobs.Ok config) (h : name ∈ jobNames jobs.post) :
    stage config (jobs.plan config) name = 3 := by
  have hmem : name ∈ names (jobs.plan config) := mem_names.mpr (.inr (.inr (.inr (.inl h))))
  have hpost := post_mem hok h
  have hservice := (Valid.apart hvalid).2.2.1 _ hpost
  unfold stage
  rw [if_neg (not_not_intro hmem), if_neg fun hdata => hservice.2 (dataServices_mem hdata), if_pos hpost]

theorem stage_download (hvalid : config.Valid) (h : jobs.download.isSome = true) :
    stage config (jobs.plan config) downloadJobName = 2 := by
  have hmem : downloadJobName ∈ names (jobs.plan config) := mem_names.mpr (.inr (.inr (.inl ⟨h, rfl⟩)))
  obtain ⟨-, -, hpost, hservice⟩ := Valid.apart hvalid
  unfold stage
  rw [if_neg (not_not_intro hmem), if_neg fun hdata => hservice _ (dataServices_mem hdata) rfl,
    if_neg fun h => (hpost _ h).1 rfl, if_pos rfl]

theorem stage_init (hvalid : config.Valid) (h : name ∈ actionNames config.init) : stage config (jobs.plan config) name = 1 := by
  have hmem : name ∈ names (jobs.plan config) := mem_names.mpr (.inr (.inl h))
  obtain ⟨hname, hpost, hservice⟩ := (Valid.apart hvalid).2.1 _ h
  unfold stage
  rw [if_neg (not_not_intro hmem), if_neg fun hdata => hservice (dataServices_mem hdata), if_neg hpost, if_neg hname, if_pos h]

/-- A job that has a place in the order is one of these. -/
theorem stage_cases (hvalid : config.Valid) (hok : jobs.Ok config) (h : stage config (jobs.plan config) name ≠ 0) :
    (name ∈ dataServices config ∧ stage config (jobs.plan config) name = 4) ∨
      (name ∈ jobNames jobs.post ∧ stage config (jobs.plan config) name = 3) ∨
      (jobs.download.isSome = true ∧ name = downloadJobName ∧ stage config (jobs.plan config) name = 2) ∨
      (name ∈ actionNames config.init ∧ stage config (jobs.plan config) name = 1) := by
  obtain ⟨haux, hinit, hpost, hservice⟩ := Valid.apart hvalid
  unfold stage at h ⊢
  by_cases hmem : name ∈ names (jobs.plan config)
  · rw [if_neg (not_not_intro hmem)] at h ⊢
    by_cases hdata : name ∈ dataServices config
    · exact .inl ⟨hdata, by rw [if_pos hdata]⟩
    rw [if_neg hdata] at h ⊢
    have hcreated := mem_names.mp hmem
    by_cases hp : name ∈ jobNames config.postDownload
    · refine .inr (.inl ⟨?_, by rw [if_pos hp]⟩)
      rcases hcreated with h₀ | h₁ | h₂ | h₃ | h₄
      · exact ((haux _ h₀).2.2.1 hp).elim
      · exact ((hinit _ h₁).2.1 hp).elim
      · exact ((hpost _ hp).1 h₂.2).elim
      · exact h₃
      · exact ((hpost _ hp).2 h₄).elim
    rw [if_neg hp] at h ⊢
    by_cases hd : name = downloadJobName
    · refine .inr (.inr (.inl ⟨?_, hd, by rw [if_pos hd]⟩))
      rcases hcreated with h₀ | h₁ | h₂ | h₃ | h₄
      · exact ((haux _ h₀).1 hd).elim
      · exact ((hinit _ h₁).1 hd).elim
      · exact h₂.1
      · exact (hp (post_mem hok h₃)).elim
      · exact ((hservice _ h₄) hd).elim
    rw [if_neg hd] at h ⊢
    by_cases hi : name ∈ actionNames config.init
    · exact .inr (.inr (.inr ⟨hi, by rw [if_pos hi]⟩))
    · exact (h (if_neg hi)).elim
  · exact (h (if_pos hmem)).elim

/-! ## The order of the jobs -/

theorem download_of_post (hok : jobs.Ok config) (h : name ∈ jobNames jobs.post) : jobs.download.isSome = true := by
  cases hdownload : jobs.download with
  | some _ => rfl
  | none =>
    rw [hok.first hdownload] at h
    cases h

theorem post_download (h : name ∈ jobNames jobs.post) : Needs (jobs.plan config) name downloadJobName := by
  obtain ⟨job, hjob, heq⟩ := List.mem_map.mp h
  cases heq
  exact post_needs hjob (.inr rfl)

/-- The services need the jobs after the download, the one that gets the data if there are none, and
the init jobs if there is no such job. -/
theorem servicesNeeds_cases (config : PluginConfig) (jobs : DataJobs) :
    (jobs.servicesNeeds config = jobNames jobs.post ∧ jobs.servicesNeeds config ≠ []) ∨
      (jobNames jobs.post = [] ∧ jobs.download.isSome = true ∧ jobs.servicesNeeds config = [downloadJobName]) ∨
      (jobNames jobs.post = [] ∧ jobs.download.isSome = false ∧ jobs.servicesNeeds config = actionNames config.init) := by
  unfold DataJobs.servicesNeeds nextNeeds
  cases hpost : jobNames jobs.post with
  | cons name rest => exact .inl ⟨by simp, by simp⟩
  | nil =>
    cases hdownload : jobs.download.isSome with
    | true => exact .inr (.inl ⟨rfl, rfl, by simp⟩)
    | false => exact .inr (.inr ⟨rfl, rfl, by simp⟩)

theorem service_download (hname : name ∈ dataServices config) (h : jobs.download.isSome = true) :
    TransGen (Needs (jobs.plan config)) name downloadJobName := by
  rcases servicesNeeds_cases config jobs with hpost | hdownload | hnone
  · obtain ⟨post, hmem⟩ := List.exists_mem_of_ne_nil _ hpost.2
    exact (TransGen.single (service_needs hname hmem)).tail (post_download (hpost.1 ▸ hmem))
  · exact .single (service_needs hname (by rw [hdownload.2.2]; exact List.mem_cons_self))
  · rw [hnone.2.1] at h
    cases h

/-- A job of a later stage needs every job of an earlier one, if only through others. -/
theorem later_needs (hvalid : config.Valid) (hok : jobs.Ok config) (hdep : stage config (jobs.plan config) dep ≠ 0)
    (h : stage config (jobs.plan config) dep < stage config (jobs.plan config) name) :
    TransGen (Needs (jobs.plan config)) name dep := by
  have hneeds : ∀ {n}, jobs.download.isSome = true → n ∈ actionNames config.init → Needs (jobs.plan config) downloadJobName n :=
    fun hsome hn => download_needs hok hsome hn
  have hstage : stage config (jobs.plan config) name ≠ 0 := by omega
  rcases stage_cases hvalid hok hstage with hservice | hpost | hdownload | hinit
  · rcases stage_cases hvalid hok hdep with hservice' | hpost' | hdownload' | hinit'
    · omega
    · rcases servicesNeeds_cases config jobs with hall | hnil | hnil
      · exact .single (service_needs hservice.1 (hall.1 ▸ hpost'.1))
      · rw [hnil.1] at hpost'
        cases hpost'.1
      · rw [hnil.1] at hpost'
        cases hpost'.1
    · rw [hdownload'.2.1]
      exact service_download hservice.1 hdownload'.1
    · cases hsome : jobs.download.isSome with
      | true => exact (service_download hservice.1 hsome).tail (hneeds hsome hinit'.1)
      | false =>
        have hpost : jobs.servicesNeeds config = actionNames config.init := by
          rcases servicesNeeds_cases config jobs with hall | hone | hnone
          · obtain ⟨post, hmem⟩ := List.exists_mem_of_ne_nil _ hall.2
            rw [download_of_post hok (hall.1 ▸ hmem)] at hsome
            cases hsome
          · rw [hone.2.1] at hsome
            cases hsome
          · exact hnone.2.2
        exact .single (service_needs hservice.1 (hpost ▸ hinit'.1))
  · rcases stage_cases hvalid hok hdep with hservice' | hpost' | hdownload' | hinit'
    · omega
    · omega
    · rw [hdownload'.2.1]
      exact .single (post_download hpost.1)
    · exact (TransGen.single (post_download hpost.1)).tail (hneeds (download_of_post hok hpost.1) hinit'.1)
  · rcases stage_cases hvalid hok hdep with hservice' | hpost' | hdownload' | hinit'
    · omega
    · omega
    · omega
    · rw [hdownload.2.1]
      exact .single (hneeds hdownload.1 hinit'.1)
  · rcases stage_cases hvalid hok hdep with hservice' | hpost' | hdownload' | hinit' <;> omega

/-- What a job needs by the author's word it needs. -/
theorem user_needs (hvalid : config.Valid) (hok : jobs.Ok config) (h : UserNeeds config (jobs.plan config) name dep) :
    Needs (jobs.plan config) name dep := by
  obtain ⟨hname, job, hjob, heq, hdep⟩ := h
  cases heq
  unfold initJobs at hjob
  cases List.mem_append.mp hjob with
  | inl hinit => exact init_needs hinit hdep
  | inr hpost =>
    have hmem : job.name ∈ jobNames config.postDownload := List.mem_map_of_mem hpost
    obtain ⟨haux, hinit, hposts, -⟩ := Valid.apart hvalid
    have hcreated : job.name ∈ jobNames jobs.post := by
      rcases mem_names.mp hname with h₀ | h₁ | h₂ | h₃ | h₄
      · exact ((haux _ h₀).2.2.1 hmem).elim
      · exact ((hinit _ h₁).2.1 hmem).elim
      · exact ((hposts _ hmem).1 h₂.2).elim
      · exact h₃
      · exact ((hposts _ hmem).2 h₄).elim
    cases hok.post with
    | inl hsame => exact post_needs (by rw [hsame]; exact hpost) (.inl hdep)
    | inr hnone =>
      rw [hnone.1] at hcreated
      cases hcreated

/-- The rest of what a job needs is created, in an earlier stage. -/
theorem needs_user (hvalid : config.Valid) (hok : jobs.Ok config) (h : Needs (jobs.plan config) name dep) :
    UserNeeds config (jobs.plan config) name dep ∨
      (dep ∈ names (jobs.plan config) ∧ stage config (jobs.plan config) dep < stage config (jobs.plan config) name) := by
  rcases needs_cases hok h with hinit | hdownload | hpost | hservice
  · obtain ⟨job, hjob, heq, hdep⟩ := hinit
    have hmem : job.name ∈ actionNames config.init := List.mem_map_of_mem hjob
    exact .inl ⟨mem_names.mpr (.inr (.inl (heq ▸ hmem))), job, List.mem_append_left _ hjob, heq, hdep⟩
  · obtain ⟨hsome, heq, hdep⟩ := hdownload
    refine .inr ⟨mem_names.mpr (.inr (.inl hdep)), ?_⟩
    rw [heq, stage_init hvalid hdep, stage_download hvalid hsome]
    omega
  · obtain ⟨job, hjob, heq, hdep⟩ := hpost
    have hmem : job.name ∈ jobNames jobs.post := List.mem_map_of_mem hjob
    cases hdep with
    | inl huser =>
      refine .inl ⟨mem_names.mpr (.inr (.inr (.inr (.inl (heq ▸ hmem))))), job, List.mem_append_right _ ?_, heq, huser⟩
      cases hok.post with
      | inl hsame => exact hsame ▸ hjob
      | inr hnone =>
        rw [hnone.1] at hjob
        cases hjob
    | inr hd =>
      have hsome := download_of_post hok hmem
      refine .inr ⟨mem_names.mpr (.inr (.inr (.inl ⟨hsome, hd⟩))), ?_⟩
      rw [hd, ← heq, stage_download hvalid hsome, stage_post hvalid hok hmem]
      omega
  · obtain ⟨hname, hdep⟩ := hservice
    right
    rw [stage_service hname]
    rcases servicesNeeds_cases config jobs with hall | hone | hnone
    · rw [hall.1] at hdep
      refine ⟨mem_names.mpr (.inr (.inr (.inr (.inl hdep)))), ?_⟩
      rw [stage_post hvalid hok hdep]
      omega
    · rw [hone.2.2, List.mem_singleton] at hdep
      refine ⟨mem_names.mpr (.inr (.inr (.inl ⟨hone.2.1, hdep⟩))), ?_⟩
      rw [hdep, stage_download hvalid hone.2.1]
      omega
    · rw [hnone.2.2] at hdep
      refine ⟨mem_names.mpr (.inr (.inl hdep)), ?_⟩
      rw [stage_init hvalid hdep]
      omega

theorem user_stage (hvalid : config.Valid) (h : UserNeeds config (jobs.plan config) name dep) :
    stage config (jobs.plan config) name ≠ 0 := by
  obtain ⟨hname, job, hjob, heq, -⟩ := h
  cases heq
  cases List.mem_append.mp hjob with
  | inl hinit =>
    have hmem : job.name ∈ actionNames config.init := List.mem_map_of_mem hinit
    rw [stage_init hvalid hmem]
    decide
  | inr hpost =>
    have hmem : job.name ∈ jobNames config.postDownload := List.mem_map_of_mem hpost
    have hservice := ((Valid.apart hvalid).2.2.1 _ hmem).2
    unfold stage
    rw [if_neg (not_not_intro hname), if_neg fun hdata => hservice (dataServices_mem hdata), if_pos hmem]
    decide

/-- There is no circle if none is made of the author's needs, and none of these is of a later stage. -/
theorem acyclic_iff (hvalid : config.Valid) (hok : jobs.Ok config) : Acyclic (Needs (jobs.plan config)) ↔
    Acyclic (UserNeeds config (jobs.plan config)) ∧ ∀ name dep, UserNeeds config (jobs.plan config) name dep →
      stage config (jobs.plan config) dep ≤ stage config (jobs.plan config) name := by
  constructor
  · intro h
    refine ⟨h.mono fun a b => user_needs hvalid hok, fun name dep huser => Nat.le_of_not_lt fun hlater => ?_⟩
    have hback := later_needs hvalid hok (user_stage hvalid huser) hlater
    exact h name ((TransGen.single (user_needs hvalid hok huser)).trans hback)
  · intro h
    have hdown : ∀ a b, Needs (jobs.plan config) a b → stage config (jobs.plan config) b ≤ stage config (jobs.plan config) a := by
      intro a b hab
      cases needs_user hvalid hok hab with
      | inl huser => exact h.2 a b huser
      | inr hlower => omega
    refine acyclic_of_levels hdown (h.1.mono fun a b hab => ?_)
    cases needs_user hvalid hok hab.1 with
    | inl huser => exact huser
    | inr hlower => omega

/-- All names are those of jobs if those are that the author gives. -/
theorem closed_iff (hvalid : config.Valid) (hok : jobs.Ok config) : Closed (jobs.plan config) ↔
    ∀ name dep, UserNeeds config (jobs.plan config) name dep → dep ∈ names (jobs.plan config) := by
  constructor
  · intro h name dep huser
    exact h name dep ((dependsOn_iff hok).mpr (user_needs hvalid hok huser))
  · intro h name dep hdepends
    cases needs_user hvalid hok ((dependsOn_iff hok).mp hdepends) with
    | inl huser => exact h name dep huser
    | inr hlower => exact hlower.1

end

/-! ## The graph of the jobs -/

/-- The graph of the jobs of `default_init`: what holds of it for every configuration, and how the
needs that the plugin's author gives decide the rest. -/
structure InitGraph (config : PluginConfig) (plan : JobPlan) : Prop where
  /-- A service that uses the data needs every job that is no service, if only through others. -/
  services : ∀ service ∈ dataServices config, ∀ name ∈ names plan, name ∉ (config.auxServices.getD []).map (·.name) →
    name ∉ config.services.map (·.name) → TransGen (Needs plan) service name
  init : ∀ name ∈ actionNames config.init, name ∈ names plan
  post : Downloads config → downloadJobName ∈ names plan → ∀ name ∈ jobNames config.postDownload, name ∈ names plan
  closed : Closed plan ↔ ∀ name dep, UserNeeds config plan name dep → dep ∈ names plan
  acyclic : Acyclic (DependsOn plan) ↔ Acyclic (UserNeeds config plan) ∧
    ∀ name dep, UserNeeds config plan name dep → stage config plan dep ≤ stage config plan name

/-- **The job graph of `default_init`.** -/
theorem init_graph {config : PluginConfig} {log : Script.Log EngineCall.Reply} (h : config.validate = .ok ())
    (hrun : Script.Runs (defaultInit (some config)) log (.ok ())) : InitGraph config (created log) := by
  have hvalid := valid_of_validate h
  obtain ⟨stamped, hplan⟩ := (defaultInit_creates config).ok log () hrun
  obtain ⟨jobs, hok, heq⟩ := initPlan_eq config stamped
  obtain ⟨haux, hinit, hposts, hservice⟩ := Valid.apart hvalid
  rw [hplan, heq]
  refine ⟨fun service hservice name hname haux hnot => ?_, fun name hname => mem_names.mpr (.inr (.inl hname)),
    fun hdownloads hdownload name hname => ?_, closed_iff hvalid hok, ?_⟩
  · have hlevel : stage config (jobs.plan config) name ≠ 0 ∧ stage config (jobs.plan config) name < 4 := by
      rcases mem_names.mp hname with h₀ | h₁ | h₂ | h₃ | h₄
      · exact (haux h₀).elim
      · rw [stage_init hvalid h₁]
        decide
      · rw [h₂.2, stage_download hvalid h₂.1]
        decide
      · rw [stage_post hvalid hok h₃]
        decide
      · exact (hnot h₄).elim
    exact later_needs hvalid hok hlevel.1 (by rw [stage_service hservice]; exact hlevel.2)
  · have hsome : jobs.download.isSome = true := by
      rcases mem_names.mp hdownload with h₀ | h₁ | h₂ | h₃ | h₄
      · exact ((haux _ h₀).1 rfl).elim
      · exact ((hinit _ h₁).1 rfl).elim
      · exact h₂.1
      · exact ((hposts _ (post_mem hok h₃)).1 rfl).elim
      · exact (hservice _ h₄ rfl).elim
    cases hok.post with
    | inl hsame => exact mem_names.mpr (.inr (.inr (.inr (.inl (by rw [hsame]; exact hname)))))
    | inr hnone => exact (hnone.2 hsome hdownloads).elim
  · have hsame : DependsOn (jobs.plan config) = Needs (jobs.plan config) := by
      funext name dep
      exact propext (dependsOn_iff hok)
    rw [hsame]
    exact acyclic_iff hvalid hok

/-- The replies of an engine that never fails, on a node without data and without jobs. -/
def allOk : (c : EngineCall) → EngineCall.Reply c
  | .stopAllJobs | .createJob _ _ | .startJob _ | .stopJob _ | .renderTemplate _ _ _ | .saveConfig _ | .addTask _ _ _ _ => .ok ()
  | .getJobs => .ok []
  | .runSh _ => .ok ⟨0, "", ""⟩
  | .protocolDataStamp => .ok none

/-- A job with nothing set but what it needs. -/
def jobNeeding (name : String) (needs : List String) : PluginConfig.Job :=
  ⟨name, "run", none, none, none, some needs, none, none, none, none, none⟩

def serviceUsing (name : String) : Service :=
  { name, runSh := "run", restartConfig := none, shutdownTimeoutSecs := none, shutdownSignal := none, runAs := none,
    logBufferCapacityMb := none, logTimestamp := none, dataDir := none, storeKey := none, archive := false }

/-- A configuration with init jobs, jobs after a download, if there is one, and a service. -/
def staged (download : Option AlternativeDownload) (init post : List PluginConfig.Job) : PluginConfig :=
  ⟨none, none, some ⟨[], init⟩, none, download, some post, none, [serviceUsing "node"], none, none, none, none⟩

def initLog (config : PluginConfig) : Script.Log EngineCall.Reply := (Script.replay allOk (defaultInit (some config))).1

theorem init_graph_three : InitGraph (staged (some ⟨"fetch", none, none, none, none⟩) [jobNeeding "keys" []] [jobNeeding "index" ["keys"]])
    (created (initLog (staged (some ⟨"fetch", none, none, none, none⟩) [jobNeeding "keys" []] [jobNeeding "index" ["keys"]]))) :=
  init_graph (by decide) (Script.runs_replay allOk _)

/-- The needs of one job may name no job, and the job itself; and without a download its jobs are not
created. -/
theorem init_unsound :
    (¬ ∀ (config : PluginConfig) (log : Script.Log EngineCall.Reply), config.validate = .ok () →
      Script.Runs (defaultInit (some config)) log (.ok ()) → Closed (created log)) ∧
    (¬ ∀ (config : PluginConfig) (log : Script.Log EngineCall.Reply), config.validate = .ok () →
      Script.Runs (defaultInit (some config)) log (.ok ()) → Acyclic (DependsOn (created log))) ∧
    ¬ ∀ (config : PluginConfig) (log : Script.Log EngineCall.Reply), config.validate = .ok () →
      Script.Runs (defaultInit (some config)) log (.ok ()) → ∀ service ∈ dataServices config,
        ∀ name ∈ jobNames config.postDownload, TransGen (Needs (created log)) service name := by
  have hvalid : (staged none [jobNeeding "keys" ["keys", "nowhere"]] [jobNeeding "index" []]).validate = .ok () := by decide
  have hrun := Script.runs_replay allOk (defaultInit (some (staged none [jobNeeding "keys" ["keys", "nowhere"]] [jobNeeding "index" []])))
  have hkeys : DependsOn (created (initLog (staged none [jobNeeding "keys" ["keys", "nowhere"]] [jobNeeding "index" []]))) "keys" "nowhere" ∧
      DependsOn (created (initLog (staged none [jobNeeding "keys" ["keys", "nowhere"]] [jobNeeding "index" []]))) "keys" "keys" :=
    ⟨⟨_, List.mem_cons_self, by decide⟩, ⟨_, List.mem_cons_self, by decide⟩⟩
  refine ⟨fun h => ?_, fun h => ?_, fun h => ?_⟩
  · have hclosed := h _ _ hvalid hrun _ _ hkeys.1
    revert hclosed
    decide
  · exact h _ _ hvalid hrun "keys" (.single hkeys.2)
  · have hway := h _ _ hvalid hrun "node" (by decide) "index" (by decide)
    obtain ⟨_, -, hlast⟩ := (TransGen.tail'_iff (r := Needs _)).mp hway
    obtain ⟨jobConfig, hmem, hdep⟩ := hlast
    have hnone : ∀ job ∈ created (initLog (staged none [jobNeeding "keys" ["keys", "nowhere"]] [jobNeeding "index" []])),
        "index" ∉ job.2.needs.getD [] := by decide
    exact hnone _ hmem hdep

end RhaiPlugin

end Blockvisor
