/-
The jobs that a plugin creates. `initPlan` and `uploadPlan` list, in order and
with their configurations, the jobs of `default_init` and `default_upload`; a
run that returns has created just these, and one that fails has created the
first of them (`defaultInit_creates`, `defaultUpload_makes`).
-/
import Blockvisor.BabelApi.RhaiPlugin

namespace Blockvisor

namespace RhaiPlugin

open PluginConfig Script

abbrev JobPlan := List (String × Engine.JobConfig)

/-- The jobs created in a run, by the calls that returned Ok. -/
def created (log : Log EngineCall.Reply) : JobPlan :=
  log.filterMap fun
    | ⟨.createJob name config, .ok _⟩ => some (name, config)
    | _ => none

theorem created_append (log log' : Log EngineCall.Reply) : created (log ++ log') = created log ++ created log' :=
  List.filterMap_append

/-- Where `p` returns, its jobs are those of one of the plans for what it returns; where it fails, they
are the first of a plan. -/
structure Creates {α : Type} (p : PluginM α) (plans : α → JobPlan → Prop) : Prop where
  ok : ∀ log a, Runs p log (.ok a) → plans a (created log)
  error : ∀ log e, Runs p log (.error e) → ∃ a plan, plans a plan ∧ created log <+: plan

section

variable {α β : Type} {p : PluginM α} {plans plans' : α → JobPlan → Prop}

theorem Creates.conseq (h : Creates p plans) (hplans : ∀ a plan, plans a plan → plans' a plan) : Creates p plans' where
  ok := fun log a hrun => hplans a _ (h.ok log a hrun)
  error := fun log e hrun => by
    obtain ⟨a, plan, hplan, hbegins⟩ := h.error log e hrun
    exact ⟨a, plan, hplans a plan hplan, hbegins⟩

theorem Creates.bind {f : α → PluginM β} {rest : α → β → JobPlan → Prop} (h : Creates p plans)
    (hf : ∀ a, Creates (f a) (rest a)) (hrest : ∀ a, ∃ b plan, rest a b plan) :
    Creates (p >>= f) fun b plan => ∃ a first last, plans a first ∧ rest a b last ∧ plan = first ++ last where
  ok := fun log b hrun => by
    obtain ⟨a, log₁, log₂, hlog, hp, hfa⟩ := hrun.bind_ok
    exact ⟨a, _, _, h.ok log₁ a hp, (hf a).ok log₂ b hfa, by rw [hlog, created_append]⟩
  error := fun log e hrun => by
    cases hrun.bind with
    | inl hfails =>
      obtain ⟨e', hp, -⟩ := hfails
      obtain ⟨a, plan, hplan, hbegins⟩ := h.error log e' hp
      obtain ⟨b, last, hlast⟩ := hrest a
      exact ⟨b, _, ⟨a, plan, last, hplan, hlast, rfl⟩, hbegins.trans (List.prefix_append _ _)⟩
    | inr hreturns =>
      obtain ⟨a, log₁, log₂, hlog, hp, hfa⟩ := hreturns
      obtain ⟨b, last, hlast, hbegins⟩ := (hf a).error log₂ e hfa
      refine ⟨b, _, ⟨a, _, last, h.ok log₁ a hp, hlast, rfl⟩, ?_⟩
      rw [hlog, created_append]
      exact (List.prefix_append_right_inj _).mpr hbegins

/-- A program that returns one value only, with one plan. -/
abbrev Makes (p : PluginM α) (a : α) (plan : JobPlan) : Prop := Creates p fun a' plan' => a' = a ∧ plan' = plan

theorem Makes.then {f : α → PluginM β} {a : α} {first : JobPlan} {rest : β → JobPlan → Prop} (h : Makes p a first)
    (hf : Creates (f a) rest) (hrest : ∃ b plan, rest b plan) :
    Creates (p >>= f) fun b plan => ∃ last, rest b last ∧ plan = first ++ last where
  ok := fun log b hrun => by
    obtain ⟨a', log₁, log₂, hlog, hp, hfa⟩ := hrun.bind_ok
    obtain ⟨ha, hfirst⟩ := h.ok log₁ a' hp
    subst ha
    exact ⟨_, hf.ok log₂ b hfa, by rw [hlog, created_append, hfirst]⟩
  error := fun log e hrun => by
    cases hrun.bind with
    | inl hfails =>
      obtain ⟨e', hp, -⟩ := hfails
      obtain ⟨a', plan, hplan, hbegins⟩ := h.error log e' hp
      obtain ⟨b, last, hlast⟩ := hrest
      exact ⟨b, _, ⟨last, hlast, rfl⟩, (hplan.2 ▸ hbegins).trans (List.prefix_append _ _)⟩
    | inr hreturns =>
      obtain ⟨a', log₁, log₂, hlog, hp, hfa⟩ := hreturns
      obtain ⟨ha, hfirst⟩ := h.ok log₁ a' hp
      subst ha
      obtain ⟨b, last, hlast, hbegins⟩ := hf.error log₂ e hfa
      refine ⟨b, _, ⟨last, hlast, rfl⟩, ?_⟩
      rw [hlog, created_append, hfirst]
      exact (List.prefix_append_right_inj _).mpr hbegins

theorem Makes.bind {f : α → PluginM β} {a : α} {b : β} {first last : JobPlan} (h : Makes p a first)
    (hf : Makes (f a) b last) : Makes (p >>= f) b (first ++ last) := by
  refine (h.then hf ⟨b, last, rfl, rfl⟩).conseq fun b' plan hplan => ?_
  obtain ⟨last', hlast, hplan⟩ := hplan
  exact ⟨hlast.1, by rw [hplan, hlast.2]⟩

/-- The jobs of a statement go before those of the rest, of which there are several plans. -/
theorem Makes.prepend {κ : Type} {f : α → PluginM Unit} {a : α} {first : JobPlan} {plan : κ → JobPlan} (k : κ)
    (h : Makes p a first) (hf : Creates (f a) fun _ plan' => ∃ k, plan' = plan k) :
    Creates (p >>= f) fun _ plan' => ∃ k, plan' = first ++ plan k := by
  refine (h.then hf ⟨(), _, k, rfl⟩).conseq fun u plan' hplan => ?_
  obtain ⟨last, hlast, hplan⟩ := hplan
  obtain ⟨k, hlast⟩ := hlast
  exact ⟨k, by rw [hplan, hlast]⟩

theorem Makes.pure {a : α} : Makes (pure a) a [] where
  ok := fun log a' hrun => by
    obtain ⟨hlog, ha⟩ := hrun.pure
    cases ha
    exact ⟨rfl, by rw [hlog]; rfl⟩
  error := fun log e hrun => by cases hrun.pure.2

theorem Makes.throw {e : String} (a : α) : Makes (throw e) a [] where
  ok := fun log a hrun => by cases hrun.throw.2
  error := fun log e' hrun => ⟨a, [], ⟨rfl, rfl⟩, by rw [hrun.throw.1]; exact List.prefix_rfl⟩

/-- A loop creates what its rounds do. -/
theorem Makes.forM {f : β → PluginM Unit} {plan : β → JobPlan} (h : ∀ b, Makes (f b) () (plan b)) (bs : List β) :
    Makes (bs.forM f) () (bs.flatMap plan) := by
  induction bs with
  | nil => exact Makes.pure
  | cons b bs ih => exact (h b).bind (f := fun _ => bs.forM f) ih

end

/-! ## The parts of a plan -/

/-- A call that is no `create_job` creates nothing. -/
theorem engine_creates {c : EngineCall} (a : c.Answer) (h : ∀ reply, created [⟨c, reply⟩] = []) :
    Creates (engine c) fun _ plan => plan = [] where
  ok := fun log a' hrun => by
    cases hrun with
    | call reply hrest =>
      cases hrest
      exact h _
  error := fun log e hrun => by
    cases hrun with
    | call reply hrest =>
      cases hrest
      exact ⟨a, [], rfl, by rw [h]⟩

theorem createAndStartJob_makes (name : String) (config : Engine.JobConfig) :
    Makes (createAndStartJob name config) () [(name, config)] := by
  have hcreate : Makes (engine (.createJob name config)) () [(name, config)] :=
    { ok := fun log a hrun => by
        cases hrun with
        | call reply hrest =>
          cases hrest
          exact ⟨rfl, rfl⟩
      error := fun log e hrun => by
        cases hrun with
        | call reply hrest =>
          cases hrest
          exact ⟨(), _, ⟨rfl, rfl⟩, List.nil_prefix⟩ }
  have hstart : Makes (engine (.startJob name)) () [] :=
    (engine_creates (c := .startJob name) () fun _ => rfl).conseq fun _ _ hplan => ⟨rfl, hplan⟩
  exact hcreate.bind (f := fun _ => engine (.startJob name)) hstart

def jobPlan (needs : List String) (job : PluginConfig.Job) : String × Engine.JobConfig :=
  (job.name, buildJobConfig (addNeeds needs job))

def jobsPlan (jobs : Option (List PluginConfig.Job)) (needs : List String) : JobPlan := (jobs.getD []).map (jobPlan needs)

def servicePlan (needs waitFor : List String) (service : Service) : String × Engine.JobConfig :=
  (service.name, buildServiceJobConfig service needs waitFor)

/-- What goes on after jobs needs these, or what they need if there are none. -/
def nextNeeds (jobs : Option (List PluginConfig.Job)) (needs : List String) : List String :=
  if (jobNames jobs).isEmpty then needs else jobNames jobs

theorem flatMap_single {β γ : Type} (f : β → γ) (bs : List β) : bs.flatMap (fun b => [f b]) = bs.map f := by
  induction bs with
  | nil => rfl
  | cons b bs ih => rw [List.flatMap_cons, ih, List.map_cons, List.singleton_append]

theorem runJobs_makes (jobs : Option (List PluginConfig.Job)) (needs : List String) :
    Makes (runJobs jobs needs) (nextNeeds jobs needs) (jobsPlan jobs needs) := by
  cases jobs with
  | none => exact Makes.pure
  | some jobs =>
    have hloop := Makes.forM (fun job => createAndStartJob_makes job.name (buildJobConfig (addNeeds needs job))) jobs
    rw [flatMap_single] at hloop
    have hall := hloop.bind (f := fun _ => pure (nextNeeds (some jobs) needs)) Makes.pure
    rw [List.append_nil] at hall
    exact hall

theorem runCommand_makes (command : String) : Makes (runCommand command) () [] := by
  have hcall : Creates (engine (.runSh command)) fun _ plan => plan = [] := engine_creates (c := .runSh command) ⟨0, "", ""⟩ fun _ => rfl
  have hcheck : ∀ resp : ShResponse, Makes (if resp.exitCode ≠ 0 then Script.throw s!"init command '{command}' failed with exit_code: {repr resp}"
      else pure () : PluginM Unit) () [] := by
    intro resp
    split
    · exact Makes.throw ()
    · exact Makes.pure
  refine (hcall.bind hcheck fun _ => ⟨(), [], rfl, rfl⟩).conseq fun u plan hplan => ?_
  obtain ⟨resp, first, last, hfirst, hlast, hplan⟩ := hplan
  exact ⟨rfl, by rw [hplan, hfirst, hlast.2]; rfl⟩

theorem runActions_makes (actions : Option Actions) (needs : List String) :
    Makes (runActions actions needs) (nextNeeds (actions.map (·.jobs)) needs) (jobsPlan (actions.map (·.jobs)) needs) := by
  cases actions with
  | none => exact Makes.pure
  | some actions =>
    have hloop := Makes.forM (fun command => runCommand_makes command) actions.commands
    have hall := hloop.bind (f := fun _ => runJobs (some actions.jobs) needs) (runJobs_makes (some actions.jobs) needs)
    rw [List.flatMap_eq_nil_iff.mpr fun _ _ => rfl, List.nil_append] at hall
    exact hall

theorem renderConfigFiles_makes (configFiles : Option (List ConfigFile)) : Makes (renderConfigFiles configFiles) () [] := by
  have hrender : ∀ configFile, Makes (renderConfigFile configFile) () [] := by
    intro configFile
    unfold renderConfigFile
    cases configFile.params with
    | error err => exact Makes.throw ()
    | ok params =>
      exact (engine_creates (c := .renderTemplate configFile.template configFile.destination params) () fun _ => rfl).conseq
        fun _ _ hplan => ⟨rfl, hplan⟩
  have hloop := Makes.forM hrender (configFiles.getD [])
  rw [List.flatMap_eq_nil_iff.mpr fun _ _ => rfl] at hloop
  exact hloop

theorem startServices_makes (services : List Service) (needs waitFor : List String) :
    Makes (startServices services needs waitFor) () (services.map (servicePlan needs waitFor)) := by
  have hloop := Makes.forM
    (fun service : Service => createAndStartJob_makes service.name (buildServiceJobConfig service needs waitFor)) services
  rw [flatMap_single] at hloop
  exact hloop

/-- The jobs of the auxiliary services. -/
def auxPlan (services : Option (List AuxService)) : JobPlan := (services.getD []).map fun service => servicePlan [] [] (ofAuxService service)

theorem startAuxServices_makes (services : Option (List AuxService)) :
    Makes (startAuxServices services) () (auxPlan services) := by
  have hloop := Makes.forM (fun service : AuxService =>
    createAndStartJob_makes service.name (buildServiceJobConfig (ofAuxService service) [] [])) (services.getD [])
  rw [flatMap_single] at hloop
  exact hloop

/-! ## The plans -/

/-- A download, and the jobs after it. -/
def downloadPlan (config : PluginConfig) (jobConfig : Engine.JobConfig) : JobPlan × List String :=
  ((downloadJobName, jobConfig) :: jobsPlan config.postDownload [downloadJobName], nextNeeds config.postDownload [downloadJobName])

/-- The jobs that get the data of a node that has none. -/
def firstDataPlan (config : PluginConfig) (needs : List String) : JobPlan × List String :=
  match config.alternativeDownload, config.coldInit with
  | some alternativeDownload, _ => downloadPlan config (buildAlternativeDownloadJobConfig alternativeDownload needs)
  | none, some coldInit => ([(coldInitJobName, buildColdInitJobConfig coldInit needs)], [coldInitJobName])
  | none, none => ([], needs)

/-- The jobs that get the node's data, with what the services need then; `stamped` tells whether there
are data already. -/
def dataPlan (config : PluginConfig) (stamped : Bool) (needs : List String) : JobPlan × List String :=
  if hasMultiClientServices config.services then
    downloadPlan config (buildMultiClientDownloadJobConfig config.download needs)
  else if stamped then ([], needs)
  else firstDataPlan config needs

theorem download_makes (config : PluginConfig) (jobConfig : Engine.JobConfig) :
    Makes (do
      createAndStartJob downloadJobName jobConfig
      runJobs config.postDownload [downloadJobName]) (downloadPlan config jobConfig).2 (downloadPlan config jobConfig).1 :=
  (createAndStartJob_makes downloadJobName jobConfig).bind (runJobs_makes config.postDownload [downloadJobName])

theorem getFirstData_makes (config : PluginConfig) (needs : List String) :
    Makes (getFirstData config needs) (firstDataPlan config needs).2 (firstDataPlan config needs).1 := by
  unfold getFirstData firstDataPlan
  cases config.alternativeDownload with
  | some alternativeDownload => exact download_makes config _
  | none =>
    cases config.coldInit with
    | some coldInit => exact (createAndStartJob_makes coldInitJobName _).bind (f := fun _ => pure [coldInitJobName]) Makes.pure
    | none => exact Makes.pure

theorem getProtocolData_creates (config : PluginConfig) (needs : List String) :
    Creates (getProtocolData config needs) fun needs' plan => ∃ stamped, dataPlan config stamped needs = (plan, needs') := by
  unfold getProtocolData dataPlan
  split
  · refine (download_makes config _).conseq fun needs' plan hplan => ⟨true, ?_⟩
    rw [hplan.1, hplan.2]
  · have hstamp : Creates (engine .protocolDataStamp) fun _ plan => plan = [] :=
      engine_creates (c := .protocolDataStamp) (none : Option Nat) fun _ => rfl
    have hdata : ∀ stamp : Option Nat,
        Creates (if stamp.isNone then getFirstData config needs else pure needs : PluginM (List String)) fun needs' plan =>
          (if stamp.isSome then ([], needs) else firstDataPlan config needs) = (plan, needs') := by
      intro stamp
      cases stamp with
      | some _ => exact Makes.pure.conseq fun needs' plan hplan => by rw [hplan.1, hplan.2]; rfl
      | none => exact (getFirstData_makes config needs).conseq fun needs' plan hplan => by rw [hplan.1, hplan.2]; rfl
    refine (hstamp.bind hdata fun stamp => ⟨_, _, rfl⟩).conseq fun needs' plan hplan => ?_
    obtain ⟨stamp, first, last, hfirst, hlast, hplan⟩ := hplan
    refine ⟨Option.isSome (α := Nat) stamp, ?_⟩
    rw [hplan, hfirst]
    exact hlast

/-- The jobs of `default_init`. -/
def initPlan (config : PluginConfig) (stamped : Bool) : JobPlan :=
  let initJobs := config.init.map (·.jobs)
  let data := dataPlan config stamped (nextNeeds initJobs [])
  auxPlan config.auxServices ++ (jobsPlan initJobs [] ++ (data.1 ++ config.services.map (servicePlan data.2 [])))

theorem addTask_makes (task : PluginConfig.Task) : Makes (addTask task) () [] :=
  (engine_creates (c := .addTask task.name task.schedule task.function (task.param.getD "")) () fun _ => rfl).conseq
    fun _ _ hplan => ⟨rfl, hplan⟩

/-- What `default_init` does once all jobs are stopped. -/
def initStopped (config : PluginConfig) : PluginM Unit := do
  renderConfigFiles config.configFiles
  startAuxServices config.auxServices
  let servicesNeeds ← runActions config.init []
  let servicesNeeds ← getProtocolData config servicesNeeds
  startServices config.services servicesNeeds []
  (config.scheduled.getD []).forM addTask

theorem initStopped_creates (config : PluginConfig) :
    Creates (initStopped config) fun _ plan => ∃ stamped, plan = initPlan config stamped := by
  have htasks : Makes ((config.scheduled.getD []).forM addTask) () [] := by
    have hloop := Makes.forM addTask_makes (config.scheduled.getD [])
    rw [List.flatMap_eq_nil_iff.mpr fun _ _ => rfl] at hloop
    exact hloop
  have hservices : ∀ needs, Makes (do
      startServices config.services needs []
      (config.scheduled.getD []).forM addTask) () (config.services.map (servicePlan needs [])) := by
    intro needs
    have hall := (startServices_makes config.services needs []).bind (f := fun _ => (config.scheduled.getD []).forM addTask) htasks
    rw [List.append_nil] at hall
    exact hall
  let initJobs := config.init.map (·.jobs)
  let data := fun stamped => dataPlan config stamped (nextNeeds initJobs [])
  let fromData := fun needs => do
    let needs ← getProtocolData config needs
    startServices config.services needs []
    (config.scheduled.getD []).forM addTask
  have hdata : Creates (fromData (nextNeeds initJobs [])) fun _ plan =>
      ∃ stamped, plan = (data stamped).1 ++ config.services.map (servicePlan (data stamped).2 []) := by
    refine ((getProtocolData_creates config _).bind hservices fun _ => ⟨(), _, rfl, rfl⟩).conseq fun u plan hplan => ?_
    obtain ⟨needs, first, last, hfirst, hlast, hplan⟩ := hplan
    obtain ⟨stamped, hfirst⟩ := hfirst
    refine ⟨stamped, ?_⟩
    show plan = (dataPlan config stamped (nextNeeds initJobs [])).1 ++
      config.services.map (servicePlan (dataPlan config stamped (nextNeeds initJobs [])).2 [])
    rw [hplan, hlast.2, hfirst]
  have hactions := (runActions_makes config.init []).prepend true (f := fromData) hdata
  have haux := (startAuxServices_makes config.auxServices).prepend true (f := fun _ => runActions config.init [] >>= fromData) hactions
  have hrender := (renderConfigFiles_makes config.configFiles).prepend true
    (f := fun _ => startAuxServices config.auxServices >>= fun _ => runActions config.init [] >>= fromData) haux
  exact hrender

/-- **The jobs that `default_init` creates**, and the first of them when it fails. -/
theorem defaultInit_creates (config : PluginConfig) :
    Creates (defaultInit (some config)) fun _ plan => ∃ stamped, plan = initPlan config stamped := by
  have hstop : Makes (engine .stopAllJobs) () [] :=
    (engine_creates (c := .stopAllJobs) () fun _ => rfl).conseq fun _ _ hplan => ⟨rfl, hplan⟩
  have hall := hstop.prepend true (f := fun _ => initStopped config) (initStopped_creates config)
  exact hall

/-- The job that uploads the node's data, with what the jobs after it need then. -/
def putDataPlan (config : PluginConfig) (needs : List String) : JobPlan × List String :=
  if hasArchivableServices config.services then
    if hasMultiClientServices config.services then
      ([(uploadJobName, buildMultiClientUploadJobConfig config.upload needs)], [uploadJobName])
    else ([(uploadJobName, buildUploadJobConfig config.upload needs)], [uploadJobName])
  else ([], needs)

theorem putProtocolData_makes (config : PluginConfig) (needs : List String) :
    Makes (putProtocolData config needs) (putDataPlan config needs).2 (putDataPlan config needs).1 := by
  have hupload : ∀ jobConfig, Makes (do
      createAndStartJob uploadJobName jobConfig
      pure [uploadJobName]) [uploadJobName] [(uploadJobName, jobConfig)] := fun jobConfig =>
    (createAndStartJob_makes uploadJobName jobConfig).bind (f := fun _ => pure [uploadJobName]) Makes.pure
  unfold putProtocolData putDataPlan
  by_cases harchivable : hasArchivableServices config.services = true
  · simp only [harchivable, if_true]
    by_cases hmulti : hasMultiClientServices config.services = true
    · simp only [hmulti, if_true]
      exact hupload _
    · simp only [Bool.eq_false_iff.mpr hmulti, Bool.false_eq_true, if_false]
      exact hupload _
  · simp only [Bool.eq_false_iff.mpr harchivable, Bool.false_eq_true, if_false]
    exact Makes.pure

/-- The jobs of `default_upload`, for the configuration with the services that use protocol data. -/
def retainedPlan (config : PluginConfig) : JobPlan :=
  let preUploadJobs := config.preUpload.map (·.jobs)
  let data := putDataPlan config (nextNeeds preUploadJobs [])
  jobsPlan preUploadJobs [] ++ (data.1 ++ (jobsPlan config.postUpload data.2 ++
    config.services.map (servicePlan [] (nextNeeds config.postUpload data.2))))

def uploadPlan (config : PluginConfig) : JobPlan := retainedPlan (retainProtocolData config)

/-- What `default_upload` does once the services are stopped. -/
def uploadStopped (config : PluginConfig) : PluginM Unit := do
  let preUploadJobs ← runActions config.preUpload []
  let servicesNeeds ← putProtocolData config preUploadJobs
  let postUploadJobs ← runJobs config.postUpload servicesNeeds
  startServices config.services [] postUploadJobs

theorem uploadStopped_makes (config : PluginConfig) : Makes (uploadStopped config) () (retainedPlan config) := by
  let fromPost := fun needs => do
    let postUploadJobs ← runJobs config.postUpload needs
    startServices config.services [] postUploadJobs
  let fromPut := fun needs => do
    let servicesNeeds ← putProtocolData config needs
    fromPost servicesNeeds
  have hpost : ∀ needs, Makes (fromPost needs) () (jobsPlan config.postUpload needs ++
      config.services.map (servicePlan [] (nextNeeds config.postUpload needs))) := fun needs =>
    (runJobs_makes config.postUpload needs).bind (startServices_makes config.services [] _)
  have hput : ∀ needs, Makes (fromPut needs) () ((putDataPlan config needs).1 ++ (jobsPlan config.postUpload (putDataPlan config needs).2 ++
      config.services.map (servicePlan [] (nextNeeds config.postUpload (putDataPlan config needs).2)))) := fun needs =>
    (putProtocolData_makes config needs).bind (f := fromPost) (hpost _)
  exact (runActions_makes config.preUpload []).bind (f := fromPut) (hput _)

theorem uploadRetained_makes (config : PluginConfig) : Makes (uploadRetained config) () (retainedPlan config) := by
  have hstop : Makes (config.services.forM fun service => engine (.stopJob service.name)) () [] := by
    have hloop := Makes.forM (f := fun service : Service => engine (.stopJob service.name)) (fun service =>
      (engine_creates (c := .stopJob service.name) () fun _ => rfl).conseq fun _ _ hplan => ⟨rfl, hplan⟩) config.services
    rw [List.flatMap_eq_nil_iff.mpr fun _ _ => rfl] at hloop
    exact hloop
  exact hstop.bind (f := fun _ => uploadStopped config) (uploadStopped_makes config)

/-- **The jobs that `default_upload` creates**, and the first of them when it fails. -/
theorem defaultUpload_makes (config : PluginConfig) : Makes (defaultUpload (some config)) () (uploadPlan config) :=
  uploadRetained_makes (retainProtocolData config)

end RhaiPlugin

end Blockvisor
