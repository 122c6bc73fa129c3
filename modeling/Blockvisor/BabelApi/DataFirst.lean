/-
Services that use the node's data, and the jobs that get it. `default_init`
creates these jobs in layers, each of which needs those before it, and the
services need the last; so no pass starts a service before its data is there
(`init_inLayers`).

But `init` first reloads the configuration, which creates and starts the
services with nothing to wait for, and only then stops all jobs. A pass that
comes between these starts the services without their data (`started_first`).
A reload alone does the same at any time. `data_first` is about the runs in
which no pass comes in that window and finds a service due, and a reload finds
the data ready.
-/
import Blockvisor.BabelApi.UploadAlone
import Mathlib.Data.List.Nodup

namespace Blockvisor

open Machine RhaiPlugin Script PluginConfig

/-! ## The jobs of an init -/

/-- The init jobs, the job that gets the data by whatever means, and those after it. -/
def dataJobs (config : PluginConfig) : List String :=
  actionNames config.init ++ downloadJobName :: jobNames config.postDownload

/-- What is to be over before a job runs. -/
def beforeInit (config : PluginConfig) (name : String) : List String :=
  if name ∈ dataServices config then dataJobs config
  else if name ∈ jobNames config.postDownload then actionNames config.init ++ [downloadJobName]
  else if name = downloadJobName then actionNames config.init
  else []

section

variable {config : PluginConfig} {name : String}

theorem beforeInit_service (h : name ∈ dataServices config) : beforeInit config name = dataJobs config := if_pos h

theorem beforeInit_post (hvalid : config.Valid) (h : name ∈ jobNames config.postDownload) :
    beforeInit config name = actionNames config.init ++ [downloadJobName] := by
  have hnot : name ∉ dataServices config := fun hmem => ((Valid.apart hvalid).2.2.1 name h).2 (dataServices_mem hmem)
  rw [beforeInit, if_neg hnot, if_pos h]

theorem beforeInit_download (hvalid : config.Valid) : beforeInit config downloadJobName = actionNames config.init := by
  obtain ⟨-, -, hpost, hservice⟩ := Valid.apart hvalid
  have hnot : downloadJobName ∉ dataServices config := fun hmem => hservice _ (dataServices_mem hmem) rfl
  have hnot' : downloadJobName ∉ jobNames config.postDownload := fun hmem => (hpost _ hmem).1 rfl
  rw [beforeInit, if_neg hnot, if_neg hnot', if_pos rfl]

/-- Before the auxiliary services and the init jobs there is nothing to be done. -/
theorem beforeInit_first (hvalid : config.Valid)
    (h : name ∈ (config.auxServices.getD []).map (·.name) ∨ name ∈ actionNames config.init) : beforeInit config name = [] := by
  obtain ⟨haux, hinit, -, -⟩ := Valid.apart hvalid
  have hapart : name ≠ downloadJobName ∧ name ∉ jobNames config.postDownload ∧ name ∉ config.services.map (·.name) := by
    cases h with
    | inl h =>
      obtain ⟨hdownload, -, hpost, hservice⟩ := haux name h
      exact ⟨hdownload, hpost, hservice⟩
    | inr h => exact hinit name h
  rw [beforeInit, if_neg fun hmem => hapart.2.2 (dataServices_mem hmem), if_neg hapart.2.1, if_neg hapart.1]

/-- Only services have another job than an init job or the download before them. -/
theorem beforeInit_other (h : name ∉ config.services.map (·.name)) {d : String} (hd : d ∈ beforeInit config name) :
    d ∈ actionNames config.init ++ [downloadJobName] := by
  unfold beforeInit at hd
  rw [if_neg fun hmem => h (dataServices_mem hmem)] at hd
  split at hd
  · exact hd
  · split at hd
    · exact List.mem_append_left _ hd
    · cases hd

theorem dataJobs_not_services (hvalid : config.Valid) (h : name ∈ dataJobs config) : name ∉ config.services.map (·.name) := by
  obtain ⟨-, hinit, hpost, hservice⟩ := Valid.apart hvalid
  cases List.mem_append.mp h with
  | inl h => exact (hinit name h).2.2
  | inr h =>
    cases List.mem_cons.mp h with
    | inl h => exact fun hmem => hservice name hmem h
    | inr h => exact (hpost name h).2

theorem dataJobs_not_aux (hvalid : config.Valid) (h : name ∈ dataJobs config) :
    name ∉ (config.auxServices.getD []).map (·.name) := by
  intro hmem
  obtain ⟨hdownload, hinit, hpost, -⟩ := (Valid.apart hvalid).1 name hmem
  cases List.mem_append.mp h with
  | inl h => exact hinit h
  | inr h => exact (List.mem_cons.mp h).elim hdownload hpost

/-- A service that has something before it uses the data. -/
theorem service_uses (hvalid : config.Valid) {service : PluginConfig.Service} (h : service ∈ config.services) {d : String}
    (hd : d ∈ beforeInit config service.name) : service.useProtocolData = true := by
  have hname : service.name ∈ config.services.map (·.name) := List.mem_map_of_mem h
  by_cases hdata : service.name ∈ dataServices config
  · obtain ⟨service', hservice', heq⟩ := List.mem_map.mp hdata
    obtain ⟨hmem, huses⟩ := List.mem_filter.mp hservice'
    rw [List.inj_on_of_nodup_map (Valid.services_nodup hvalid) hmem h heq] at huses
    exact huses
  · obtain ⟨-, -, hpost, hservice⟩ := Valid.apart hvalid
    unfold beforeInit at hd
    rw [if_neg hdata, if_neg fun hmem => (hpost _ hmem).2 hname, if_neg (hservice _ hname)] at hd
    cases hd

/-- **The jobs of an init are in layers**: the init jobs before the one that gets the data, both before
the jobs after it, and all before the services that use the data. -/
theorem init_layers (hvalid : config.Valid) {jobs : DataJobs} (hok : jobs.Ok config) :
    Layers false (beforeInit config) (jobs.plan config) := by
  obtain ⟨haux, hinit, hpost, hservice⟩ := Valid.apart hvalid
  let first := auxPlan config.auxServices ++ jobsPlan (config.init.map (·.jobs)) []
  let download := jobs.download.toList.map fun jobConfig => (downloadJobName, jobConfig)
  let post := jobsPlan jobs.post [downloadJobName]
  let services := config.services.map (servicePlan (jobs.servicesNeeds config) [])
  have hplan : jobs.plan config = ((first ++ download) ++ post) ++ services := by
    show auxPlan _ ++ (jobsPlan _ [] ++ (download ++ (post ++ services))) = _
    rw [List.append_assoc, List.append_assoc, List.append_assoc]
  have hfirstNames : ∀ n, n ∈ names first ↔ n ∈ (config.auxServices.getD []).map (·.name) ∨ n ∈ actionNames config.init := by
    intro n
    rw [names_append, names_aux, names_jobsPlan, List.mem_append]
    rfl
  have hdownloadNames : ∀ n, n ∈ names download ↔ jobs.download.isSome = true ∧ n = downloadJobName := by
    intro n
    cases hdownload : jobs.download with
    | none => simp [download, names, hdownload]
    | some jobConfig => simp [download, names, hdownload]
  have hpostNames : names post = jobNames jobs.post := names_jobsPlan _ _
  have hserviceNames : names services = config.services.map (·.name) := names_services _ _
  have hsecond : Layers false (beforeInit config) (first ++ download) := by
    refine (Layers.of_none fun n hn => beforeInit_first hvalid ((hfirstNames n).mp hn)).append (fun n hn d hd => ?_)
      fun n jobConfig hmem d hd _ => ?_
    · rw [beforeInit_first hvalid ((hfirstNames n).mp hn)] at hd
      cases hd
    · obtain ⟨jobConfig', hsome, heq⟩ := List.mem_map.mp hmem
      cases heq
      rw [beforeInit_download hvalid] at hd
      have hmem := (hfirstNames d).mpr (.inr hd)
      exact ⟨hmem, d, hmem, .inl (by rw [(hok.needs _ (Option.mem_toList.mp hsome)).1]; exact hd), .inl rfl⟩
  have hthird : Layers false (beforeInit config) ((first ++ download) ++ post) := by
    refine hsecond.append (fun n hn d hd hmem => ?_) fun n jobConfig hmem d hd _ => ?_
    · rw [hpostNames] at hmem
      have hnot : n ∉ config.services.map (·.name) := by
        rw [names_append, List.mem_append, hfirstNames, hdownloadNames] at hn
        rcases hn with (hn | hn) | hn
        · exact (haux n hn).2.2.2
        · exact (hinit n hn).2.2
        · exact fun hmem => hservice n hmem hn.2
      cases List.mem_append.mp (beforeInit_other hnot hd) with
      | inl hfirst => exact (hinit d hfirst).2.1 (post_mem hok hmem)
      | inr hlast => exact (hpost d (post_mem hok hmem)).1 (List.mem_singleton.mp hlast)
    · obtain ⟨job, hjob, heq⟩ := List.mem_map.mp hmem
      cases heq
      have hname : job.name ∈ jobNames jobs.post := List.mem_map_of_mem hjob
      have hdownload : downloadJobName ∈ names (first ++ download) := by
        rw [names_append, List.mem_append]
        exact .inr ((hdownloadNames _).mpr ⟨download_of_post hok hname, rfl⟩)
      rw [beforeInit_post hvalid (post_mem hok hname)] at hd
      refine ⟨?_, downloadJobName, hdownload, .inl ?_, ?_⟩
      · cases List.mem_append.mp hd with
        | inl hfirst =>
          rw [names_append, List.mem_append]
          exact .inl ((hfirstNames d).mpr (.inr hfirst))
        | inr hlast => exact List.mem_singleton.mp hlast ▸ hdownload
      · show downloadJobName ∈ (addNeeds [downloadJobName] job).needs.getD []
        rw [addNeeds_needs]
        exact List.mem_append_right _ (List.mem_singleton_self _)
      · rw [beforeInit_download hvalid]
        cases List.mem_append.mp hd with
        | inl hfirst => exact .inr hfirst
        | inr hlast => exact .inl (List.mem_singleton.mp hlast).symm
  rw [hplan]
  refine hthird.append (fun n hn d hd hmem => ?_) fun n jobConfig hmem d hd hdmem => ?_
  · rw [hserviceNames] at hmem
    have hnot : n ∉ config.services.map (·.name) := by
      rw [names_append, names_append, List.mem_append, List.mem_append, hfirstNames, hdownloadNames, hpostNames] at hn
      rcases hn with ((hn | hn) | hn) | hn
      · exact (haux n hn).2.2.2
      · exact (hinit n hn).2.2
      · exact fun hmem => hservice n hmem hn.2
      · exact (hpost n (post_mem hok hn)).2
    cases List.mem_append.mp (beforeInit_other hnot hd) with
    | inl hfirst => exact (hinit d hfirst).2.2 hmem
    | inr hlast => exact hservice d hmem (List.mem_singleton.mp hlast)
  · obtain ⟨service, hservice', heq⟩ := List.mem_map.mp hmem
    cases heq
    have huses := service_uses hvalid hservice' hd
    have hdata : service.name ∈ dataServices config := List.mem_map_of_mem (List.mem_filter.mpr ⟨hservice', huses⟩)
    have hneeds : (buildServiceJobConfig service (jobs.servicesNeeds config) []).needs.getD [] = jobs.servicesNeeds config := by
      simp [buildServiceJobConfig, huses]
    rw [beforeInit_service hdata] at hd
    have hfront : d ∈ names ((first ++ download) ++ post) := by
      rw [names_append, List.mem_append] at hdmem
      refine hdmem.resolve_right fun hmem => dataJobs_not_services hvalid hd ?_
      rw [← hserviceNames]
      exact hmem
    refine ⟨hfront, ?_⟩
    rw [hneeds]
    rw [names_append, names_append, List.mem_append, List.mem_append, hfirstNames, hdownloadNames, hpostNames] at hfront
    simp only [names_append, List.mem_append, hfirstNames, hdownloadNames, hpostNames]
    -- what the service needs, and by which way all else comes before it
    rcases servicesNeeds_cases config jobs with hall | hone | hnone
    · obtain ⟨last, hlast⟩ := List.exists_mem_of_ne_nil _ hall.2
      have hlastPost : last ∈ jobNames jobs.post := hall.1 ▸ hlast
      by_cases hdpost : d ∈ jobNames jobs.post
      · exact ⟨d, .inr hdpost, .inl (hall.1 ▸ hdpost), .inl rfl⟩
      · refine ⟨last, .inr hlastPost, .inl hlast, .inr ?_⟩
        rw [beforeInit_post hvalid (post_mem hok hlastPost)]
        rcases hfront with ((hfront | hfront) | hfront) | hfront
        · exact absurd hfront fun hmem => dataJobs_not_aux hvalid hd hmem
        · exact List.mem_append_left _ hfront
        · exact List.mem_append_right _ (List.mem_singleton.mpr hfront.2)
        · exact absurd hfront hdpost
    · refine ⟨downloadJobName, .inl (.inr ⟨hone.2.1, rfl⟩), .inl (by rw [hone.2.2]; exact List.mem_singleton_self _), ?_⟩
      rw [beforeInit_download hvalid]
      rcases hfront with ((hfront | hfront) | hfront) | hfront
      · exact absurd hfront fun hmem => dataJobs_not_aux hvalid hd hmem
      · exact .inr hfront
      · exact .inl hfront.2.symm
      · rw [hone.1] at hfront
        cases hfront
    · have hdinit : d ∈ actionNames config.init := by
        rcases hfront with ((hfront | hfront) | hfront) | hfront
        · exact absurd hfront fun hmem => dataJobs_not_aux hvalid hd hmem
        · exact hfront
        · rw [hnone.2.1] at hfront
          cases hfront.1
        · rw [hnone.1] at hfront
          cases hfront
      exact ⟨d, .inl (.inl (.inr hdinit)), .inl (hnone.2.2 ▸ hdinit), .inl rfl⟩

theorem plan_nodup (hvalid : config.Valid) {jobs : DataJobs} (hok : jobs.Ok config) : (names (jobs.plan config)).Nodup := by
  have hnames := hvalid.names
  unfold PluginConfig.allNames at hnames
  have hfirst := (List.nodup_append.mp (List.nodup_append.mp hnames).1).1
  simp only [List.append_assoc] at hfirst
  have hpost : (jobNames jobs.post).Sublist (jobNames config.postDownload) := by
    cases hok.post with
    | inl hsame => rw [hsame]
    | inr hnone =>
      rw [hnone.1]
      exact List.nil_sublist _
  let download := names (jobs.download.toList.map fun jobConfig => (downloadJobName, jobConfig))
  have hdownload : download.Sublist [downloadJobName, uploadJobName] := by
    cases hjob : jobs.download with
    | none => simp [download, names, hjob]
    | some jobConfig => simp [download, names, hjob]
  have hall : names (jobs.plan config) = (config.auxServices.getD []).map (·.name) ++ (actionNames config.init ++
      (download ++ (jobNames jobs.post ++ config.services.map (·.name)))) := by
    unfold DataJobs.plan
    rw [names_append, names_append, names_append, names_append, names_aux, names_jobsPlan, names_jobsPlan, names_services]
    rfl
  have hperm : (names (jobs.plan config)).Perm (download ++ ((config.auxServices.getD []).map (·.name) ++ (actionNames config.init ++
      (jobNames jobs.post ++ config.services.map (·.name))))) := by
    rw [hall, ← List.append_assoc, ← List.append_assoc ((config.auxServices.getD []).map (·.name))]
    exact List.perm_append_comm_assoc _ _ _
  rw [hperm.nodup_iff]
  exact hfirst.sublist (hdownload.append ((List.Sublist.refl _).append ((List.Sublist.refl _).append (hpost.append (List.Sublist.refl _)))))

theorem getProtocolData_tidy (config : PluginConfig) (needs : List String) : Tidy (getProtocolData config needs) := by
  have hdownload : ∀ jobConfig, Tidy (do
      createAndStartJob downloadJobName jobConfig
      runJobs config.postDownload [downloadJobName]) := fun jobConfig =>
    (createAndStartJob_tidy _ _).bind fun _ => runJobs_tidy _ _
  have hfirst : Tidy (getFirstData config needs) := by
    unfold getFirstData
    cases config.alternativeDownload with
    | some alternativeDownload => exact hdownload _
    | none =>
      cases config.coldInit with
      | some coldInit => exact (createAndStartJob_tidy _ _).bind (f := fun _ => pure [coldInitJobName]) fun _ => .pure _
      | none => exact .pure _
  unfold getProtocolData
  split
  · exact hdownload _
  · refine (Tidy.engine (c := .protocolDataStamp) rfl).bind (f := fun stamp : Option Nat => if stamp.isNone then _ else _) fun stamp => ?_
    split
    · exact hfirst
    · exact .pure _

/-- What `default_init` does once all jobs are stopped is to create jobs in layers. -/
theorem init_inLayers (hvalid : config.Valid) : InLayers false (beforeInit config) [] (initStopped config) where
  tidy := by
    have hrender : ∀ configFile, Tidy (renderConfigFile configFile) := by
      intro configFile
      unfold renderConfigFile
      cases configFile.params with
      | error err => exact .done _
      | ok params => exact Tidy.engine rfl
    refine (Tidy.forM hrender _).bind fun _ => (Tidy.forM (fun _ => createAndStartJob_tidy _ _) _).bind fun _ => ?_
    refine (runActions_tidy _ _).bind fun needs => (getProtocolData_tidy config needs).bind fun needs => ?_
    exact (startServices_tidy _ _ _).bind fun _ => Tidy.forM (fun _ => Tidy.engine rfl) _
  plans := by
    have hgood : ∀ stamped, (names (initPlan config stamped)).Nodup ∧ Layers false (beforeInit config) (initPlan config stamped) := by
      intro stamped
      obtain ⟨jobs, hok, heq⟩ := initPlan_eq config stamped
      rw [heq]
      exact ⟨plan_nodup hvalid hok, init_layers hvalid hok⟩
    intro log r hrun
    have hcreates := initStopped_creates config
    cases r with
    | ok u =>
      obtain ⟨stamped, hplan⟩ := hcreates.ok log u hrun
      exact ⟨initPlan config stamped, (hgood stamped).1, (hgood stamped).2, hplan ▸ List.prefix_rfl, fun _ hd => absurd hd List.not_mem_nil⟩
    | error err =>
      obtain ⟨u, plan, hplan, hbegins⟩ := hcreates.error log err hrun
      obtain ⟨stamped, hplan⟩ := hplan
      rw [hplan] at hbegins
      exact ⟨initPlan config stamped, (hgood stamped).1, (hgood stamped).2, hbegins, fun _ hd => absurd hd List.not_mem_nil⟩

/-! ## The jobs of a reload -/

theorem stopServiceJob_makes (currentJobs : List String) (service : PluginConfig.Service) :
    Makes (stopServiceJob currentJobs service) () [] := by
  have hstop : Creates (engine (.stopJob service.name)) fun _ plan => plan = [] :=
    engine_creates (c := .stopJob service.name) () fun _ => rfl
  have hattempt : Creates (attempt (engine (.stopJob service.name))) fun _ plan => plan = [] :=
    { ok := fun log r hrun => by
        obtain ⟨result, -, hstopped⟩ := hrun.attempt
        cases result with
        | ok u => exact hstop.ok log u hstopped
        | error err =>
          obtain ⟨u, plan, hplan, hbegins⟩ := hstop.error log err hstopped
          rw [hplan] at hbegins
          exact List.prefix_nil.mp hbegins
      error := fun log err hrun => by
        obtain ⟨result, heq, -⟩ := hrun.attempt
        cases heq }
  unfold stopServiceJob
  split
  · refine (hattempt.bind (f := fun _ => pure ()) (fun _ => Makes.pure) fun _ => ⟨(), [], rfl, rfl⟩).conseq fun u plan hplan => ?_
    obtain ⟨r, first, last, hfirst, hlast, hplan⟩ := hplan
    exact ⟨rfl, by rw [hplan, hfirst, hlast.2]; rfl⟩
  · exact Makes.pure

theorem recreateServices_makes (config : PluginConfig) :
    Makes (recreateServices (some config)) () (config.services.map (servicePlan [] [])) := by
  have hjobs : Creates (engine .getJobs) fun _ plan => plan = [] := engine_creates (c := .getJobs) ([] : List String) fun _ => rfl
  have hservices : ∀ currentJobs : List String, Makes (do
      config.services.forM (stopServiceJob currentJobs)
      startServices config.services [] []) () (config.services.map (servicePlan [] [])) := by
    intro currentJobs
    have hloop := Makes.forM (fun service => stopServiceJob_makes currentJobs service) config.services
    rw [List.flatMap_eq_nil_iff.mpr fun _ _ => rfl] at hloop
    exact hloop.bind (f := fun _ => startServices config.services [] []) (startServices_makes config.services [] [])
  refine (hjobs.bind hservices fun _ => ⟨(), _, rfl, rfl⟩).conseq fun u plan hplan => ?_
  obtain ⟨currentJobs, first, last, hfirst, hlast, hplan⟩ := hplan
  exact ⟨rfl, by rw [hplan, hfirst, hlast.2]; rfl⟩

/-- **The jobs that a reload creates** are the services, and these need nothing. -/
theorem reloadPluginConfig_makes (config : PluginConfig) :
    Makes (reloadPluginConfig (.ok (some config))) (some config) (config.services.map (servicePlan [] [])) := by
  have hsave : Makes (engine (.saveConfig config)) () [] :=
    (engine_creates (c := .saveConfig config) () fun _ => rfl).conseq fun _ _ hplan => ⟨rfl, hplan⟩
  have hcheck : Makes (Script.done config.validate : PluginM Unit) () [] := by
    cases hvalidate : config.validate with
    | ok u => exact Makes.pure
    | error err => exact Makes.throw ()
  have hlast := (recreateServices_makes config).bind (f := fun _ => pure (some config)) Makes.pure
  rw [List.append_nil] at hlast
  have hsaved := hsave.bind (f := fun _ => do
    recreateServices (some config)
    pure (some config)) hlast
  exact hcheck.bind (f := fun _ => do
    engine (.saveConfig config)
    recreateServices (some config)
    pure (some config)) hsaved

end

/-- The job that a call is about. -/
def EngineCall.job : EngineCall → Option String
  | .createJob name _ => some name
  | .startJob name => some name
  | .stopJob name => some name
  | _ => none

/-- The call is about no job but a service of the configuration. -/
def EngineCall.ForServices (config : PluginConfig) (c : EngineCall) : Prop :=
  c ≠ .stopAllJobs ∧ ∀ name, c.job = some name → name ∈ config.services.map (·.name)

section

variable {config : PluginConfig} {s s' : PluginSt}

theorem engine_always {C : EngineCall → Prop} {c : EngineCall} (h : C c) : Always C (fun _ => True) (engine c) := by
  refine ⟨h, fun reply => ?_⟩
  cases reply with
  | ok a => trivial
  | error err => trivial

/-- A reload is about the services only. -/
theorem reload_forServices (config : PluginConfig) :
    Always (EngineCall.ForServices config) (· = some config) (reloadPluginConfig (.ok (some config))) := by
  have hother : ∀ {c : EngineCall}, c.ofJobs = false ∨ c = .getJobs → EngineCall.ForServices config c := by
    intro c hc
    refine ⟨fun heq => ?_, fun name hname => ?_⟩
    · rw [heq] at hc
      cases hc with
      | inl hc => cases hc
      | inr hc => cases hc
    · cases hc with
      | inl hc =>
        cases c with
        | createJob name config => cases hc
        | startJob name => cases hc
        | stopJob name => cases hc
        | _ => cases hname
      | inr hc =>
        rw [hc] at hname
        cases hname
  have hservice : ∀ service ∈ config.services, ∀ c : EngineCall, c ≠ .stopAllJobs → c.job = some service.name →
      EngineCall.ForServices config c := by
    intro service hmem c hc hjob
    refine ⟨hc, fun name hname => ?_⟩
    rw [hjob] at hname
    cases hname
    exact List.mem_map_of_mem hmem
  have hstop : ∀ currentJobs : List String,
      Always (EngineCall.ForServices config) (fun _ => True) (config.services.forM (stopServiceJob currentJobs)) := by
    refine fun currentJobs => Always.forM fun service hmem => ?_
    unfold stopServiceJob
    split
    · exact Always.bind (f := fun _ => pure ()) (Always.attempt (R := fun _ => True)
        (engine_always (hservice service hmem _ (fun heq => by cases heq) rfl)) fun _ => trivial) fun _ _ => trivial
    · trivial
  have hstart : Always (EngineCall.ForServices config) (fun _ => True) (startServices config.services [] []) := by
    refine Always.forM fun service hmem => ?_
    exact Always.bind (f := fun _ => engine (.startJob service.name))
      (engine_always (hservice service hmem _ (fun heq => by cases heq) rfl))
      fun _ _ => engine_always (hservice service hmem _ (fun heq => by cases heq) rfl)
  have hrecreate : Always (EngineCall.ForServices config) (fun _ => True) (recreateServices (some config)) :=
    Always.bind (f := fun currentJobs : List String => do
        config.services.forM (stopServiceJob currentJobs)
        startServices config.services [] [])
      (engine_always (c := .getJobs) (hother (.inr rfl))) fun currentJobs _ =>
      Always.bind (f := fun _ => startServices config.services [] []) (hstop currentJobs) fun _ _ => hstart
  have hcheck : Always (EngineCall.ForServices config) (fun _ => True) (Script.done config.validate : PluginM Unit) := by
    cases config.validate with
    | ok u => trivial
    | error err => trivial
  refine Always.bind (f := fun _ => do
    engine (.saveConfig config)
    recreateServices (some config)
    pure (some config)) hcheck fun _ _ => ?_
  refine Always.bind (f := fun _ => do
    recreateServices (some config)
    pure (some config)) (engine_always (c := .saveConfig config) (hother (.inl rfl))) fun _ _ => ?_
  exact Always.bind (f := fun _ => pure (some config)) hrecreate fun _ _ => rfl

/-- An attempt at a call leaves the other jobs as they are, unless it is about all. -/
theorem attempt_others {s jobs : JobsSt} {c : EngineCall} {env : JobCallEnv} {answer : Option c.Answer}
    (h : attemptCall s c env = some (answer, jobs)) (hall : c ≠ .stopAllJobs) :
    jobs.phase = .gone ∨ ∀ name, c.job ≠ some name → jobs.deps name = s.deps name := by
  have hclient : ∀ {name : String} {after : Option Job}, c.job = some name → JobsSt.ClientStep s jobs name after →
      ∀ n, c.job ≠ some n → jobs.deps n = s.deps n := fun hjob hstep n hn =>
    hstep.2.1 n fun heq => hn (heq ▸ hjob)
  cases c with
  | createJob name config =>
    obtain ⟨env, heq, -⟩ := attempt_create h
    rw [heq] at hclient ⊢
    cases JobsSt.create_client s name (managerConfig config) env with
    | inl hkilled => exact .inl hkilled.1
    | inr hstep => exact .inr (hclient rfl hstep)
  | startJob name =>
    obtain ⟨save, heq, -⟩ := attempt_start h
    rw [heq] at hclient ⊢
    rcases JobsSt.start_client s name save with hkilled | hsame | hpending
    · exact .inl hkilled.1
    · exact .inr (hclient rfl hsame.1)
    · obtain ⟨job, status, -, -, hstep⟩ := hpending
      exact .inr (hclient rfl hstep)
  | stopJob name =>
    obtain ⟨env, heq, -⟩ := attempt_stop h
    rw [heq] at hclient ⊢
    rcases JobsSt.stop_client s name env with hkilled | hsame | hstopped
    · exact .inl hkilled.1
    · exact .inr (hclient rfl hsame.1)
    · obtain ⟨job, -, hstep⟩ := hstopped
      exact .inr (hclient rfl hstep)
  | stopAllJobs => exact absurd rfl hall
  | getJobs =>
    cases env with
    | none =>
      simp only [attemptCall] at h
      split at h
      · cases h
        exact .inr fun _ _ => rfl
      · cases h
    | _ => cases h
  | _ => cases env <;> cases h

end

/-! ## The services of an init, or a reload -/

/-- The job is neither to come nor failed: it succeeded, or was stopped. -/
def JobState.ready : JobState → Bool
  | .inactive (.finished exitCode _) => exitCode = some 0
  | .inactive .stopped => true
  | _ => false

theorem JobState.ready_decided {state : JobState} (h : state.ready = true) : state.decided = true := by
  cases state with
  | active pid => cases h
  | inactive status =>
    cases status with
    | finished exitCode message => rfl
    | stopped => rfl
    | running => cases h
    | pending waitingFor => cases h

theorem JobState.done_ready {state : JobState} (h : state.done false = true) : state.ready = true := by
  cases state with
  | active pid => cases h
  | inactive status =>
    cases status with
    | finished exitCode message => simpa [JobState.done, JobState.ready] using h
    | stopped => rfl
    | running => cases h
    | pending waitingFor => cases h

/-- No such job, or one that is neither to come nor failed. -/
def JobsSt.ready (s : JobsSt) (name : String) : Bool := (s.deps name).all (·.state.ready)

theorem JobsSt.ready_iff {s : JobsSt} {name : String} : s.ready name = true ↔ ∀ job, s.deps name = some job → job.state.ready = true := by
  unfold ready
  cases s.deps name with
  | none => simp
  | some job => simp

/-- A service that uses the data starts only when no job that gets them is to be created yet, to come or failed. -/
def PassEvent.First (e : PassEvent) : Prop :=
  ∀ op config, e.op = some (op, config) → op ≠ .upload → e.event.name ∈ dataServices config → e.event.started = true →
    ∀ d ∈ dataJobs config, ¬ MayCreate e.rest d ∧ ∀ job, e.event.deps d = some job → job.state.ready = true

namespace PluginSt

/-- What is left of `default_init` may create the job. -/
def creates (s : PluginSt) (config : PluginConfig) (name : String) : Bool :=
  match s.script with
  | .done _ => false
  | .call _ _ => decide (name ∈ names (initPlan config true)) || decide (name ∈ names (initPlan config false))

end PluginSt

/-- A reload leaves an init in order if it begins when the data are ready, or no service uses them; and a
step of the manager does, if before an init has stopped all jobs it starts no service whose data are not. -/
def dataCalm (s : PluginSt) : PluginAct → Bool
  | .begin .reload config => (dataServices config).isEmpty || (dataJobs config).all s.jobs.ready
  | .manager _ =>
    match s.op with
    | some (.init, config) =>
      s.halted || (dataServices config).all fun name => !s.jobs.due name ||
        (dataJobs config).all fun d => s.jobs.ready d && !s.creates config d
    | _ => true
  | _ => true

namespace PluginSt

/-- `init` has not stopped all jobs: it is still in its reload, or right after it. -/
def Reloading (config : PluginConfig) (s : PluginSt) : Prop :=
  s.halted = false ∧ ∃ p : PluginM (Option PluginConfig), s.script = (p >>= defaultInit) ∧
    Always (EngineCall.ForServices config) (· = some config) p

/-- All jobs were stopped, and those of `default_init` are created in order. -/
def Creating (config : PluginConfig) (s : PluginSt) : Prop :=
  s.halted = true ∧ Following false (beforeInit config) (fun _ => False) (initStopped config) s.script s.jobs.deps

/-- The data are ready, and what is left of the reload is about the services only. -/
def Settled (config : PluginConfig) (s : PluginSt) : Prop :=
  (dataServices config ≠ [] → ∀ d ∈ dataJobs config, s.jobs.ready d = true) ∧
    Always (EngineCall.ForServices config) (fun _ => True) s.script

/-- An operation is in order. -/
def InOrder (config : PluginConfig) (s : PluginSt) : PluginOp → Prop
  | .init => Reloading config s ∨ Creating config s
  | .reload => Settled config s
  | .upload => True

section

variable {config : PluginConfig} {s s' : PluginSt} {op : PluginOp} {d : String}

/-- What is left of a program creates only jobs of its plans. -/
theorem mayCreate_plan {base script : PluginM Unit} {plans : Unit → JobPlan → Prop} (h : Creates base plans)
    {log : Log EngineCall.Reply} (hresumes : Resumes base log script) (hmay : MayCreate script d) :
    ∃ plan, plans () plan ∧ d ∈ names plan := by
  obtain ⟨log', r, hrun, hmem⟩ := hmay
  have hall : d ∈ names (created (log ++ log')) := by
    rw [created_append, names_append]
    exact List.mem_append_right _ hmem
  have hbase := hresumes log' r hrun
  cases r with
  | ok u => exact ⟨_, h.ok _ u hbase, hall⟩
  | error err =>
    obtain ⟨u, plan, hplan, hbegins⟩ := h.error _ err hbase
    exact ⟨plan, hplan, (hbegins.sublist.map Prod.fst).subset hall⟩

theorem init_mayCreate (hvalid : config.Valid) {log : Log EngineCall.Reply}
    (hresumes : Resumes (PluginOp.script config .init) log s.script) (hd : d ∈ dataJobs config)
    (h : s.creates config d = false) : ¬ MayCreate s.script d := by
  intro hmay
  have hplans := (reloadPluginConfig_makes config).then (f := defaultInit) (defaultInit_creates config) ⟨(), _, true, rfl⟩
  obtain ⟨plan, hplan, hmem⟩ := mayCreate_plan hplans hresumes hmay
  obtain ⟨last, hlast, heq⟩ := hplan
  obtain ⟨stamped, hlast⟩ := hlast
  rw [heq, names_append, List.mem_append, names_services] at hmem
  have hmem := hmem.resolve_left (dataJobs_not_services hvalid hd)
  rw [hlast] at hmem
  unfold creates at h
  split at h
  · rename_i r hscript
    rw [hscript] at hmay
    obtain ⟨log', r', hrun, hmem'⟩ := hmay
    cases hrun
    cases hmem'
  · cases stamped with
    | true => simp [hmem] at h
    | false => simp [hmem] at h

theorem reload_mayCreate (hvalid : config.Valid) {log : Log EngineCall.Reply}
    (hresumes : Resumes (PluginOp.script config .reload) log s.script) (hd : d ∈ dataJobs config) : ¬ MayCreate s.script d := by
  intro hmay
  have hplans := (reloadPluginConfig_makes config).bind (f := fun _ => pure ()) Makes.pure
  obtain ⟨plan, hplan, hmem⟩ := mayCreate_plan hplans hresumes hmay
  rw [hplan.2, List.append_nil, names_services] at hmem
  exact dataJobs_not_services hvalid hd hmem

/-- Where an init is before it has stopped all jobs: at the call that does, or at one about services. -/
theorem Reloading.call (h : Reloading config s) {c : EngineCall} {k : c.Reply → PluginM Unit} (hscript : s.script = .call c k) :
    s.script = defaultInit (some config) ∨ (c.ForServices config ∧
      ∀ reply, ∃ p : PluginM (Option PluginConfig), k reply = (p >>= defaultInit) ∧
        Always (EngineCall.ForServices config) (· = some config) p) := by
  obtain ⟨-, p, hp, halways⟩ := h
  cases p with
  | done r =>
    cases r with
    | ok a =>
      have ha : a = some config := halways
      subst ha
      exact .inl hp
    | error err => cases hscript.symm.trans hp
  | call c' k' =>
    cases hscript.symm.trans hp
    exact .inr ⟨halways.1, fun reply => ⟨k' reply, rfl, halways.2 reply⟩⟩

theorem defaultInit_call (config : PluginConfig) :
    ∃ k, defaultInit (some config) = .call .stopAllJobs k ∧ k (.ok ()) = initStopped config ∧ Ends k :=
  ⟨_, rfl, rfl, fun err => ⟨err, rfl⟩⟩

/-- **A step of the manager** leaves the operation in order. -/
theorem inOrder_observe (hvalid : config.Valid) {jobs : JobsSt} (hmoves : JobsSt.AllMove s.jobs jobs) (h : InOrder config s op) :
    InOrder config (s.observe jobs) op := by
  cases op with
  | init =>
    refine Or.imp id (fun hcreating => ⟨hcreating.1, ?_⟩) h
    exact hcreating.2.pass (init_inLayers hvalid) hmoves fun hlax => by cases hlax
  | reload =>
    refine ⟨fun huses d hd => JobsSt.ready_iff.mpr fun job hjob => ?_, h.2⟩
    cases hbefore : s.jobs.deps d with
    | none =>
      have hnone := (hmoves d).1 hbefore
      rw [show (s.observe jobs).jobs.deps d = jobs.deps d from rfl, hnone] at hjob
      cases hjob
    | some before =>
      have hready := JobsSt.ready_iff.mp (h.1 huses d hd) before hbefore
      obtain ⟨after, hafter, hmove⟩ := (hmoves d).2 before hbefore
      rw [show (s.observe jobs).jobs.deps d = jobs.deps d from rfl, hafter] at hjob
      cases hjob
      rw [hmove.decided (JobState.ready_decided hready)]
      exact hready
  | upload => trivial

theorem halted_stopAll (hop : s.op = some (.init, config)) (jobs : JobsSt) (script : PluginM Unit) :
    { s with jobs, script, returned := s.returned ++ [EngineCall.stopAllJobs] }.halted = true := by
  unfold halted
  rw [hop]
  simp

theorem halted_other (hop : s.op = some (.init, config)) {c : EngineCall} (hc : c ≠ .stopAllJobs) (jobs : JobsSt)
    (script : PluginM Unit) : { s with jobs, script, returned := s.returned ++ [c] }.halted = s.halted := by
  unfold halted
  rw [hop]
  cases c with
  | stopAllJobs => exact absurd rfl hc
  | _ => simp

/-- **An attempt at a call** leaves the operation in order, and so does its answer. -/
theorem inOrder_attempt (hvalid : config.Valid) (hregistered : Registered s.jobs) (hop : s.op = some (op, config)) {c : EngineCall}
    {k : c.Reply → PluginM Unit} (hscript : s.script = .call c k) {env : JobCallEnv} {answer : Option c.Answer} {jobs : JobsSt}
    (hattempt : attemptCall s.jobs c env = some (answer, jobs)) (h : InOrder config s op) :
    jobs.phase = .gone ∨ (InOrder config { s with jobs } op ∧
      ∀ a, answer = some a → InOrder config { s with jobs, script := k (.ok a), returned := s.returned ++ [c] } op) := by
  cases op with
  | init =>
    cases h with
    | inl hreloading =>
      rcases hreloading.call hscript with hinit | hservices
      · -- the call stops all jobs
        obtain ⟨k', hcall, hok, -⟩ := defaultInit_call config
        cases hscript.symm.trans (hinit.trans hcall)
        obtain ⟨order, env, hperm, hjobs, hanswer⟩ := attempt_stopAll hattempt
        refine (JobsSt.stopAll_client hregistered hperm env).imp (fun hkilled => hjobs ▸ hkilled.1) fun hclient => ?_
        obtain ⟨-, -, hstopped⟩ := hclient
        rw [← hjobs] at hstopped
        refine ⟨.inl hreloading, fun a ha => .inr ⟨?_, ?_⟩⟩
        · exact halted_stopAll hop _ _
        · show Following _ _ _ _ (k' (.ok a)) jobs.deps
          rw [show k' (.ok a) = initStopped config from hok]
          rw [hanswer] at ha
          refine (init_inLayers hvalid).begin fun name _ job hjob => hstopped ?_ name job hjob
          unfold answerOf at ha
          split at ha
          · assumption
          · cases ha
      · obtain ⟨hc, hrest⟩ := hservices
        refine .inr ⟨.inl hreloading, fun a _ => .inl ⟨?_, hrest (.ok a)⟩⟩
        exact (halted_other hop hc.1 _ _).trans hreloading.1
    | inr hcreating =>
      obtain ⟨hhalted, hfollowing⟩ := hcreating
      rw [hscript] at hfollowing
      refine (hfollowing.attempt (init_inLayers hvalid) hattempt).imp_right fun hgoes => ?_
      refine ⟨.inr ⟨hhalted, ?_⟩, fun a ha => .inr ⟨?_, hgoes.2 a ha⟩⟩
      · show Following _ _ _ _ s.script jobs.deps
        rw [hscript]
        exact hgoes.1
      · exact halted_mono (s := s) rfl (fun c hc => List.mem_append_left _ hc) hhalted
  | reload =>
    obtain ⟨hready, halways⟩ := h
    have halways' := halways
    rw [hscript] at halways'
    refine (attempt_others hattempt halways'.1.1).imp_right fun hothers => ?_
    have hready' : dataServices config ≠ [] → ∀ d ∈ dataJobs config, jobs.ready d = true := by
      intro huses d hd
      have hsame := hothers d fun hjob => dataJobs_not_services hvalid hd (halways'.1.2 d hjob)
      have hbefore := hready huses d hd
      unfold JobsSt.ready at hbefore ⊢
      rw [hsame]
      exact hbefore
    exact ⟨⟨hready', halways⟩, fun a _ => ⟨hready', halways'.2 (.ok a)⟩⟩
  | upload => exact .inr ⟨trivial, fun _ _ => trivial⟩

/-- A call that is given up, or that is not about jobs, likewise. -/
theorem inOrder_reply (hop : s.op = some (op, config)) {c : EngineCall} {k : c.Reply → PluginM Unit} (hscript : s.script = .call c k)
    {reply : c.Reply} (hreply : c.ofJobs = false ∨ ∃ err, reply = .error err) (h : InOrder config s op) :
    InOrder config { s with script := k reply } op := by
  cases op with
  | init =>
    cases h with
    | inl hreloading =>
      refine .inl ⟨hreloading.1, ?_⟩
      rcases hreloading.call hscript with hinit | hservices
      · obtain ⟨k', hcall, -, hends⟩ := defaultInit_call config
        cases hscript.symm.trans (hinit.trans hcall)
        cases hreply with
        | inl hc => cases hc
        | inr hreply =>
          obtain ⟨err, heq⟩ := hreply
          obtain ⟨err', hdone⟩ := hends err
          exact ⟨.done (.error err'), by rw [heq]; exact hdone, trivial⟩
      · exact hservices.2 reply
    | inr hcreating =>
      obtain ⟨hhalted, hfollowing⟩ := hcreating
      rw [hscript] at hfollowing
      refine .inr ⟨hhalted, ?_⟩
      cases hreply with
      | inl hc => exact hfollowing.reply hc reply
      | inr hreply =>
        obtain ⟨err, heq⟩ := hreply
        rw [heq]
        exact hfollowing.giveUp err
  | reload =>
    obtain ⟨hready, halways⟩ := h
    rw [hscript] at halways
    exact ⟨hready, halways.2 reply⟩
  | upload => trivial

/-- An operation begins. -/
theorem inOrder_begin (hcalm : dataCalm s (.begin op config) = true) :
    InOrder config { s with op := some (op, config), script := op.script config, returned := [] } op := by
  cases op with
  | init => exact .inl ⟨rfl, reloadPluginConfig (.ok (some config)), rfl, reload_forServices config⟩
  | reload =>
    refine ⟨fun huses d hd => ?_, ?_⟩
    · have hcalm : ((dataServices config).isEmpty || (dataJobs config).all s.jobs.ready) = true := hcalm
      rw [Bool.or_eq_true] at hcalm
      cases hcalm with
      | inl hempty => exact absurd (List.isEmpty_iff.mp hempty) huses
      | inr hready => exact List.all_eq_true.mp hready d hd
    · exact Always.bind (f := fun _ => pure ()) (reload_forServices config) fun _ _ => trivial
  | upload => trivial

/-! ## Runs -/

/-- What holds in every run whose steps are calm. -/
structure DataOrder (s : PluginSt) : Prop where
  registered : Registered s.jobs
  goes : s.jobs.phase = .gone ∨ ∀ op config, s.op = some (op, config) →
    config.Valid ∧ (∃ log, Resumes (op.script config) log s.script) ∧ InOrder config s op
  first : ∀ e ∈ s.passed, e.First

/-- What the manager adds to the record is in order. -/
theorem data_records (h : DataOrder s) {act : JobsAct} (hcalm : dataCalm s (.manager act) = true)
    (hs : s.step (.manager act) = some s') : ∀ e ∈ s'.passed, e.First := by
  intro e he
  cases manager_passed h.registered hs e he with
  | inl hold => exact h.first e hold
  | inr hnew =>
    obtain ⟨heop, -, hrest, hdeps, hdue⟩ := hnew
    intro op config hop hnot hname hstarted d hd
    have hdue := hdue hstarted
    rw [heop] at hop
    rw [hdeps, hrest]
    cases h.goes with
    | inl hgone =>
      rw [JobsSt.due_gone hgone] at hdue
      cases hdue
    | inr hgoes =>
      obtain ⟨hvalid, hresumes, hgoes⟩ := hgoes op config hop
      obtain ⟨log, hresumes⟩ := hresumes
      cases op with
      | init =>
        cases hgoes with
        | inl hreloading =>
          have hall : (s.halted || (dataServices config).all fun name => !s.jobs.due name ||
              (dataJobs config).all fun d => s.jobs.ready d && !s.creates config d) = true := by
            have hcalm := hcalm
            simp only [dataCalm, hop] at hcalm
            exact hcalm
          rw [hreloading.1, Bool.false_or] at hall
          have hready := List.all_eq_true.mp hall _ hname
          rw [hdue, Bool.not_true, Bool.false_or] at hready
          have hready := List.all_eq_true.mp hready d hd
          rw [Bool.and_eq_true] at hready
          exact ⟨init_mayCreate hvalid hresumes hd (by simpa using hready.2), JobsSt.ready_iff.mp hready.1⟩
        | inr hcreating =>
          obtain ⟨hmay, -, hdone⟩ := hcreating.2.due (init_inLayers hvalid) not_false hdue
            ((beforeInit_service hname).symm ▸ hd : d ∈ beforeInit config e.event.name)
          refine ⟨hmay, fun job hjob => ?_⟩
          cases hdone not_false job hjob with
          | inl hdone => exact JobState.done_ready hdone
          | inr hstopped => rw [hstopped]; rfl
      | reload =>
        exact ⟨reload_mayCreate hvalid hresumes hd, JobsSt.ready_iff.mp (hgoes.1 (List.ne_nil_of_mem hname) d hd)⟩
      | upload => exact absurd rfl hnot

theorem dataOrder_step {act : PluginAct} (h : DataOrder s) (hcalm : dataCalm s act = true) (hs : s.step act = some s') :
    DataOrder s' := by
  have hregistered := registered_step h.registered hs
  have hd := step_does hs
  cases act with
  | manager act =>
    refine ⟨hregistered, ?_, data_records h hcalm hs⟩
    obtain ⟨hact, jobs, hjobs, heq⟩ := hd
    rw [heq]
    cases h.goes with
    | inl hgone => exact .inl (JobsSt.manager_gone hgone hact hjobs)
    | inr hgoes =>
      refine (JobsSt.manager_moves h.registered hact hjobs).imp_right fun hmoves op config hop => ?_
      obtain ⟨hvalid, hresumes, hgoes⟩ := hgoes op config hop
      exact ⟨hvalid, hresumes, inOrder_observe hvalid hmoves hgoes⟩
  | begin op config =>
    obtain ⟨-, hconfig, heq⟩ := hd
    rw [heq]
    refine ⟨h.registered, .inr fun op' config' hop => ?_, h.first⟩
    cases hop
    exact ⟨PluginConfig.valid_of_validate hconfig, ⟨[], Resumes.refl _⟩, inOrder_begin hcalm⟩
  | attempt env heard =>
    obtain ⟨c, k, answer, jobs, hscript, hattempt, heq⟩ := hd
    have hgone : s.jobs.phase = .gone ∨ jobs.phase = .gone → jobs.phase = .gone := fun hgone =>
      hgone.elim (attempt_gone h.registered hattempt) id
    have hgoes : jobs.phase = .gone ∨ ∀ op config, s.op = some (op, config) →
        config.Valid ∧ (∃ log, Resumes (op.script config) log s.script) ∧ InOrder config s op := by
      cases h.goes with
      | inl hphase => exact .inl (hgone (.inl hphase))
      | inr hgoes => exact .inr hgoes
    cases heq with
    | inl heq =>
      rw [heq]
      refine ⟨heq ▸ hregistered, ?_, h.first⟩
      by_cases hphase : jobs.phase = .gone
      · exact .inl hphase
      · refine .inr fun op config hop => ?_
        obtain ⟨hvalid, hresumes, hgoes⟩ := hgoes.resolve_left hphase op config hop
        exact ⟨hvalid, hresumes, ((inOrder_attempt hvalid h.registered hop hscript hattempt hgoes).resolve_left hphase).1⟩
    | inr heq =>
      obtain ⟨a, ha, heq⟩ := heq
      rw [heq]
      refine ⟨heq ▸ hregistered, ?_, h.first⟩
      by_cases hphase : jobs.phase = .gone
      · exact .inl hphase
      · refine .inr fun op config hop => ?_
        obtain ⟨hvalid, hresumes, hgoes⟩ := hgoes.resolve_left hphase op config hop
        obtain ⟨log, hresumes⟩ := hresumes
        rw [hscript] at hresumes
        exact ⟨hvalid, ⟨_, hresumes.call (.ok a)⟩,
          ((inOrder_attempt hvalid h.registered hop hscript hattempt hgoes).resolve_left hphase).2 a ha⟩
  | giveUp err =>
    obtain ⟨c, k, hscript, heq⟩ := hd
    rw [heq]
    refine ⟨h.registered, h.goes.imp_right fun hgoes op config hop => ?_, h.first⟩
    have hop : s.op = some (op, config) := hop
    obtain ⟨hvalid, hresumes, hgoes⟩ := hgoes op config hop
    obtain ⟨log, hresumes⟩ := hresumes
    rw [hscript] at hresumes
    exact ⟨hvalid, ⟨_, hresumes.call (.error err)⟩, inOrder_reply hop hscript (.inr ⟨err, rfl⟩) hgoes⟩
  | reply replies =>
    obtain ⟨c, k, hscript, hc, heq⟩ := hd
    rw [heq]
    refine ⟨h.registered, h.goes.imp_right fun hgoes op config hop => ?_, h.first⟩
    have hop : s.op = some (op, config) := hop
    obtain ⟨hvalid, hresumes, hgoes⟩ := hgoes op config hop
    obtain ⟨log, hresumes⟩ := hresumes
    rw [hscript] at hresumes
    exact ⟨hvalid, ⟨_, hresumes.call (replies c)⟩, inOrder_reply hop hscript (.inl hc) hgoes⟩

end

end PluginSt

/-! ## Inits and reloads -/

/-- **A service that uses the data starts when they are ready**, in any run in which no pass finds a service
due before an init has stopped all jobs, and a reload finds the data ready. -/
theorem data_first {history : List JobsAct} {acts : List PluginAct} {jobs : JobsSt} {s : PluginSt}
    (hjobs : run JobsSt.step .init history = some jobs) (hrun : run PluginSt.step (.idle jobs) acts = some s)
    (hcalm : Along PluginSt.step (fun s act => dataCalm s act = true) (.idle jobs) acts) : ∀ e ∈ s.passed, e.First := by
  have hregistered : Registered jobs := run_invariant_all _ (fun _ _ _ h hs => JobsSt.registered_step h hs) JobsSt.registered_init hjobs
  have hidle : PluginSt.DataOrder (.idle jobs) :=
    ⟨hregistered, .inr fun op config hop => (by cases hop), fun e he => (by cases he)⟩
  exact (run_invariant PluginSt.step (fun _ _ _ h hok hs => PluginSt.dataOrder_step h hok hs) hidle hcalm hrun).first

/-- Babel starts on a node without jobs. -/
def freshNode : List JobsAct := [.boot true ⟨[], none, fun _ => true⟩]

/-- A service, and a download. -/
def fetching : PluginConfig := staged (some ⟨"fetch", none, none, none, none⟩) [] []

/-- The first calls of `init`, all answered at once: the service is created and started. -/
def reloaded : List PluginAct := [.begin .init fetching, .reply allOk, .attempt .none true] ++ calmJob

/-- The download runs, and the service when it is over. -/
def fetchedRun : List PluginAct :=
  reloaded ++ [.attempt (.stopAll ["node"] fun _ => calmHalt) true, .reply allOk] ++ calmJob ++ calmJob ++ [.manager (.check true)] ++
    (calmPass ["node", "download"]).map .manager ++ [.manager (.runnerSaves "download" 0 ⟨some 0, "done", .whole⟩),
      .manager (.runnerEnds "download" 0), .manager (.wake .jobStarted)] ++ (calmPass ["node", "download"]).map .manager

theorem data_first_fetched : ∃ jobs s, run JobsSt.step .init freshNode = some jobs ∧
    run PluginSt.step (.idle jobs) fetchedRun = some s ∧ (∃ e ∈ s.passed, e.event.name = "node" ∧ e.event.started = true) ∧
    ∀ e ∈ s.passed, e.First := by
  have hfresh : (run JobsSt.step .init freshNode).isSome = true := by decide +kernel
  obtain ⟨jobs, hjobs⟩ := Option.isSome_iff_exists.mp hfresh
  have hstarted : (run JobsSt.step .init freshNode).bind (fun jobs => (run PluginSt.step (.idle jobs) fetchedRun).map fun s =>
      s.passed.any fun e => e.event.name = "node" && e.event.started) = some true := by
    decide +kernel
  rw [hjobs, Option.bind_some] at hstarted
  obtain ⟨s, hrun, hany⟩ := Option.map_eq_some_iff.mp hstarted
  have hcalm : ∀ jobs ∈ run JobsSt.step .init freshNode,
      Along PluginSt.step (fun s act => dataCalm s act = true) (.idle jobs) fetchedRun := by
    decide +kernel
  obtain ⟨e, he, hnode⟩ := List.any_eq_true.mp hany
  exact ⟨jobs, s, hjobs, hrun, ⟨e, he, by simpa using hnode⟩, data_first hjobs hrun (hcalm jobs hjobs)⟩

/-- A pass comes before all jobs are stopped. -/
def earlyRun : List PluginAct := reloaded ++ [.manager (.check true)] ++ (calmPass ["node"]).map .manager

/-- A service was started, and a job that gets its data is still created if nothing fails. -/
def PassEvent.early (e : PassEvent) : Bool :=
  match e.op with
  | some (op, config) =>
    decide (op ≠ .upload) && e.event.started && decide (e.event.name ∈ dataServices config) &&
      (dataJobs config).any fun d => decide (d ∈ names (created (replay allOk e.rest).1))
  | none => false

theorem PassEvent.early_not_first {e : PassEvent} (h : e.early = true) : ¬ e.First := by
  intro hfirst
  unfold early at h
  split at h
  · rename_i op config hop
    simp only [Bool.and_eq_true, decide_eq_true_eq] at h
    obtain ⟨⟨⟨hnot, hstarted⟩, hname⟩, hany⟩ := h
    obtain ⟨d, hd, hmem⟩ := List.any_eq_true.mp hany
    exact (hfirst op config hop hnot hname hstarted d hd).1 ⟨_, _, runs_replay allOk e.rest, by simpa using hmem⟩
  · cases h

/-- `init` starts the service before it creates the download that the service is to wait for. -/
theorem started_first : ¬ ∀ history acts jobs s, run JobsSt.step .init history = some jobs →
    run PluginSt.step (.idle jobs) acts = some s → ∀ e ∈ s.passed, e.First := by
  intro hall
  have hfresh : (run JobsSt.step .init freshNode).isSome = true := by decide +kernel
  obtain ⟨jobs, hjobs⟩ := Option.isSome_iff_exists.mp hfresh
  have hearly : (run JobsSt.step .init freshNode).bind (fun jobs => (run PluginSt.step (.idle jobs) earlyRun).map fun s =>
      s.passed.any (·.early)) = some true := by
    decide +kernel
  rw [hjobs, Option.bind_some] at hearly
  obtain ⟨s, hrun, hany⟩ := Option.map_eq_some_iff.mp hearly
  obtain ⟨e, he, hevent⟩ := List.any_eq_true.mp hany
  exact PassEvent.early_not_first hevent (hall _ _ jobs s hjobs hrun e he)

end Blockvisor
