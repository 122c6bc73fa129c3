/-
Services that use the node's data, while these are uploaded. `default_upload`
stops them first, and creates them again after the jobs of the upload, to wait
for the last of these. In layers, nothing would start a service before the data
are uploaded: a service waits for the jobs after the upload, each of which needs
the upload, which needs the jobs before it (`upload_inLayers`).

But a job whose dependency is broken is over at once, and over is all the
services wait for. `upload_alone` is about the runs in which this happens only
when the jobs before it are over anyway, and in which no service is due before
all are stopped; `uploaded_beside` is a run in which it does not.
-/
import Blockvisor.BabelApi.JobOrder
import Blockvisor.Babel.JobStarts

namespace Blockvisor

open Machine RhaiPlugin Script PluginConfig

/-! ## The jobs of an upload -/

/-- The jobs before the upload, and the upload itself if there is something to upload. -/
def uploadJobs (config : PluginConfig) : List String :=
  actionNames config.preUpload ++ if hasArchivableServices (retainProtocolData config).services then [uploadJobName] else []

/-- What is to be over before a job runs. -/
def beforeUpload (config : PluginConfig) (name : String) : List String :=
  if name ∈ dataServices config ∨ name ∈ jobNames config.postUpload then uploadJobs config
  else if name = uploadJobName then actionNames config.preUpload
  else []

section

variable {config : PluginConfig} {name : String}

theorem Valid.upload_apart (h : config.Valid) :
    (∀ name ∈ actionNames config.preUpload, name ≠ uploadJobName ∧ name ∉ jobNames config.postUpload ∧ name ∉ dataServices config) ∧
      (∀ name ∈ jobNames config.postUpload, name ≠ uploadJobName ∧ name ∉ dataServices config) ∧
      (∀ name ∈ dataServices config, name ≠ uploadJobName) := by
  have hnames := h.names
  unfold PluginConfig.allNames at hnames
  obtain ⟨hfirst, -, hpost⟩ := List.nodup_append.mp hnames
  obtain ⟨hfirst, -, hpre⟩ := List.nodup_append.mp hfirst
  obtain ⟨hfirst, -, hservices⟩ := List.nodup_append.mp hfirst
  simp only [List.mem_append] at hpost hpre hservices
  have hupload : uploadJobName ∈ [downloadJobName, uploadJobName] := by decide
  refine ⟨fun name hname => ⟨fun heq => ?_, fun hmem => ?_, fun hmem => ?_⟩, fun name hname => ⟨fun heq => ?_, fun hmem => ?_⟩,
    fun name hname heq => ?_⟩
  · exact hpre _ (.inl (.inl (.inl (.inl hupload)))) _ hname heq.symm
  · exact hpost _ (.inr hname) _ hmem rfl
  · exact hpre _ (.inr (dataServices_mem hmem)) _ hname rfl
  · exact hpost _ (.inl (.inl (.inl (.inl (.inl hupload))))) _ hname heq.symm
  · exact hpost _ (.inl (.inr (dataServices_mem hmem))) _ hname rfl
  · exact hservices _ (.inl (.inl (.inl hupload))) _ (dataServices_mem hname) heq.symm

theorem before_pre (h : config.Valid) (hname : name ∈ actionNames config.preUpload) : beforeUpload config name = [] := by
  obtain ⟨hupload, hpost, hservice⟩ := (Valid.upload_apart h).1 name hname
  unfold beforeUpload
  rw [if_neg (not_or.mpr ⟨hservice, hpost⟩), if_neg hupload]

theorem before_upload (h : config.Valid) : beforeUpload config uploadJobName = actionNames config.preUpload := by
  obtain ⟨-, hpost, hservice⟩ := Valid.upload_apart h
  unfold beforeUpload
  rw [if_neg (not_or.mpr ⟨fun hmem => hservice _ hmem rfl, fun hmem => (hpost _ hmem).1 rfl⟩), if_pos rfl]

theorem before_post (hname : name ∈ jobNames config.postUpload) : beforeUpload config name = uploadJobs config :=
  if_pos (.inr hname)

theorem before_service (hname : name ∈ dataServices config) : beforeUpload config name = uploadJobs config :=
  if_pos (.inl hname)

theorem putDataPlan_cases (config : PluginConfig) (needs : List String) :
    (hasArchivableServices config.services = true ∧ ∃ jobConfig, jobConfig.needs = some needs ∧
        putDataPlan config needs = ([(uploadJobName, jobConfig)], [uploadJobName])) ∨
      hasArchivableServices config.services = false ∧ putDataPlan config needs = ([], needs) := by
  have hbare : ∀ value, (buildUploadJobConfig value needs).needs = some needs ∧ (buildMultiClientUploadJobConfig value needs).needs = some needs := by
    intro value
    unfold buildUploadJobConfig buildMultiClientUploadJobConfig
    cases value <;> exact ⟨rfl, rfl⟩
  unfold putDataPlan
  cases harchivable : hasArchivableServices config.services with
  | false => exact .inr ⟨rfl, by simp⟩
  | true =>
    refine .inl ⟨rfl, ?_⟩
    cases hmulti : hasMultiClientServices config.services with
    | true => exact ⟨buildMultiClientUploadJobConfig config.upload needs, (hbare _).2, by simp⟩
    | false => exact ⟨buildUploadJobConfig config.upload needs, (hbare _).1, by simp⟩

/-- **The jobs of an upload are in layers**: nothing is to be done before those before it, these before the
upload, and both before the jobs after it and the services. -/
theorem upload_layers (h : config.Valid) : Layers true (beforeUpload config) (uploadPlan config) ∧
    names (uploadPlan config) = uploadJobs config ++ (jobNames config.postUpload ++ dataServices config) := by
  obtain ⟨hpre, hpost, hservice⟩ := Valid.upload_apart h
  have hpreNeeds : nextNeeds (config.preUpload.map (·.jobs)) [] = actionNames config.preUpload := nextNeeds_nil _
  let data := putDataPlan (retainProtocolData config) (actionNames config.preUpload)
  let pre := jobsPlan (config.preUpload.map (·.jobs)) []
  let post := jobsPlan config.postUpload data.2
  let services := (retainProtocolData config).services.map (servicePlan [] (nextNeeds config.postUpload data.2))
  have hplan : uploadPlan config = ((pre ++ data.1) ++ post) ++ services := by
    have hall : uploadPlan config = pre ++ (data.1 ++ (post ++ services)) := by
      show retainedPlan (retainProtocolData config) = _
      unfold retainedPlan
      have hretained : nextNeeds ((retainProtocolData config).preUpload.map (·.jobs)) [] = actionNames config.preUpload := hpreNeeds
      simp only [hretained]
      rfl
    rw [hall, List.append_assoc, List.append_assoc]
  have hpreNames : names pre = actionNames config.preUpload := names_jobsPlan _ _
  have hpostNames : names post = jobNames config.postUpload := names_jobsPlan _ _
  have hserviceNames : names services = dataServices config := by
    show ((retainProtocolData config).services.map _).map _ = _
    rw [List.map_map]
    rfl
  -- the upload, and what the jobs after it need
  have hdata : names (pre ++ data.1) = uploadJobs config ∧
      (∀ name jobConfig, (name, jobConfig) ∈ data.1 → name = uploadJobName ∧ jobConfig.needs = some (actionNames config.preUpload)) ∧
      ∀ d ∈ uploadJobs config, ∃ d' ∈ data.2, d' ∈ uploadJobs config ∧ (d' = d ∨ d ∈ beforeUpload config d') := by
    rw [names_append, hpreNames]
    rcases putDataPlan_cases (retainProtocolData config) (actionNames config.preUpload) with
      ⟨harchivable, jobConfig, hneeds, heq⟩ | ⟨harchivable, heq⟩
    · have hjobs : uploadJobs config = actionNames config.preUpload ++ [uploadJobName] := by simp [uploadJobs, harchivable]
      have hdata : data = ([(uploadJobName, jobConfig)], [uploadJobName]) := heq
      rw [hdata, hjobs]
      refine ⟨rfl, fun name jobConfig' hmem => ?_, fun d hd => ⟨uploadJobName, List.mem_singleton_self _, by simp, ?_⟩⟩
      · cases List.mem_singleton.mp hmem
        exact ⟨rfl, hneeds⟩
      · rw [before_upload h]
        cases List.mem_append.mp hd with
        | inl hbefore => exact .inr hbefore
        | inr hupload => exact .inl (List.mem_singleton.mp hupload).symm
    · have hjobs : uploadJobs config = actionNames config.preUpload := by simp [uploadJobs, harchivable]
      have hdata : data = ([], actionNames config.preUpload) := heq
      rw [hdata, hjobs]
      exact ⟨List.append_nil _, by simp, fun d hd => ⟨d, hd, hd, .inl rfl⟩⟩
  obtain ⟨hfrontNames, hupload, hneeds⟩ := hdata
  have hnotUpload : ∀ d ∈ uploadJobs config, d ∉ jobNames config.postUpload ∧ d ∉ dataServices config := by
    intro d hd
    unfold uploadJobs at hd
    cases List.mem_append.mp hd with
    | inl hbefore => exact (hpre d hbefore).2
    | inr hlast =>
      have heq : d = uploadJobName := by
        split at hlast
        · exact List.mem_singleton.mp hlast
        · cases hlast
      exact ⟨fun hmem => (hpost d hmem).1 heq, fun hmem => hservice d hmem heq⟩
  have hbefore : ∀ name ∈ uploadJobs config, ∀ d ∈ beforeUpload config name, d ∈ actionNames config.preUpload := by
    intro name hname d hd
    obtain ⟨hpostName, hserviceName⟩ := hnotUpload name hname
    unfold beforeUpload at hd
    rw [if_neg (not_or.mpr ⟨hserviceName, hpostName⟩)] at hd
    split at hd
    · exact hd
    · cases hd
  have hpreUpload : ∀ d ∈ actionNames config.preUpload, d ∈ uploadJobs config := fun d hd => List.mem_append_left _ hd
  have hfirst : Layers true (beforeUpload config) pre := Layers.of_none fun name hname => before_pre h (hpreNames ▸ hname)
  have hsecond : Layers true (beforeUpload config) (pre ++ data.1) := by
    refine hfirst.append (fun name hname d hd => ?_) fun name jobConfig hmem d hd _ => ?_
    · rw [before_pre h (hpreNames ▸ hname)] at hd
      cases hd
    · obtain ⟨heq, hjob⟩ := hupload name jobConfig hmem
      rw [heq, before_upload h] at hd
      rw [hpreNames, hjob]
      exact ⟨hd, d, hd, .inl hd, .inl rfl⟩
  have hthird : Layers true (beforeUpload config) ((pre ++ data.1) ++ post) := by
    refine hsecond.append (fun name hname d hd => ?_) fun name jobConfig hmem d hd _ => ?_
    · rw [hpostNames]
      exact (hnotUpload d (hpreUpload d (hbefore name (hfrontNames ▸ hname) d hd))).1
    · obtain ⟨job, hjob, heq⟩ := List.mem_map.mp hmem
      cases heq
      rw [before_post (List.mem_map_of_mem hjob)] at hd
      obtain ⟨d', hd', hjobs, hway⟩ := hneeds d hd
      rw [hfrontNames]
      refine ⟨hd, d', hjobs, .inl ?_, hway⟩
      show d' ∈ (addNeeds data.2 job).needs.getD []
      rw [addNeeds_needs]
      exact List.mem_append_right _ hd'
  refine ⟨?_, by rw [hplan, names_append, names_append, hfrontNames, hpostNames, hserviceNames, List.append_assoc]⟩
  rw [hplan]
  refine hthird.append (fun name hname d hd => ?_) fun name jobConfig hmem d hd _ => ?_
  · rw [hserviceNames]
    have hjobs : d ∈ uploadJobs config := by
      rw [names_append, hfrontNames, hpostNames] at hname
      cases List.mem_append.mp hname with
      | inl hfront => exact hpreUpload d (hbefore name hfront d hd)
      | inr hpostName => exact before_post hpostName ▸ hd
    exact (hnotUpload d hjobs).2
  · obtain ⟨service, hservice', heq⟩ := List.mem_map.mp hmem
    cases heq
    have huses : service.useProtocolData = true := (List.mem_filter.mp hservice').2
    rw [before_service (List.mem_map_of_mem hservice')] at hd
    have hwait : (buildServiceJobConfig service [] (nextNeeds config.postUpload data.2)).waitFor.getD [] =
        nextNeeds config.postUpload data.2 := by
      simp [buildServiceJobConfig, huses]
    rw [names_append, hfrontNames, hpostNames]
    refine ⟨List.mem_append_left _ hd, ?_⟩
    rw [hwait]
    unfold nextNeeds
    cases hpost : jobNames config.postUpload with
    | nil =>
      obtain ⟨d', hd', hjobs, hway⟩ := hneeds d hd
      exact ⟨d', List.mem_append_left _ hjobs, .inr ⟨rfl, by simpa using hd'⟩, hway⟩
    | cons name rest =>
      refine ⟨name, List.mem_append_right _ List.mem_cons_self, .inr ⟨rfl, by simp⟩, .inr ?_⟩
      rw [before_post (by rw [hpost]; exact List.mem_cons_self)]
      exact hd

theorem Valid.upload_nodup (h : config.Valid) : (names (uploadPlan config)).Nodup := by
  obtain ⟨hpre, hpost, hservice⟩ := Valid.upload_apart h
  have hnames := h.names
  unfold PluginConfig.allNames at hnames
  obtain ⟨hfirst, hpostNodup, -⟩ := List.nodup_append.mp hnames
  obtain ⟨hfirst, hpreNodup, -⟩ := List.nodup_append.mp hfirst
  obtain ⟨-, hservices, -⟩ := List.nodup_append.mp hfirst
  have hservicesNodup : (dataServices config).Nodup := hservices.sublist (List.filter_sublist.map _)
  rw [(upload_layers h).2]
  have hjobs : ∀ d ∈ uploadJobs config, d ∈ actionNames config.preUpload ∨ d = uploadJobName := by
    intro d hd
    unfold uploadJobs at hd
    refine (List.mem_append.mp hd).imp_right fun hlast => ?_
    split at hlast
    · exact List.mem_singleton.mp hlast
    · cases hlast
  refine List.nodup_append.mpr ⟨?_, List.nodup_append.mpr ⟨hpostNodup, hservicesNodup, ?_⟩, ?_⟩
  · unfold uploadJobs
    refine List.nodup_append.mpr ⟨hpreNodup, by split <;> simp, fun d hd d' hd' heq => ?_⟩
    split at hd'
    · exact (hpre d hd).1 (heq.trans (List.mem_singleton.mp hd'))
    · cases hd'
  · exact fun d hd d' hd' heq => (hpost d hd).2 (heq ▸ hd')
  · intro d hd d' hd' heq
    subst heq
    cases hjobs d hd with
    | inl hbefore => exact (List.mem_append.mp hd').elim (hpre d hbefore).2.1 (hpre d hbefore).2.2
    | inr hupload => exact (List.mem_append.mp hd').elim (fun hmem => (hpost d hmem).1 hupload) fun hmem => hservice d hmem hupload

theorem putProtocolData_tidy (config : PluginConfig) (needs : List String) : Tidy (putProtocolData config needs) := by
  unfold putProtocolData
  split
  · split
    · exact (createAndStartJob_tidy _ _).bind fun _ => .pure _
    · exact (createAndStartJob_tidy _ _).bind fun _ => .pure _
  · exact .pure _

/-- What `default_upload` does once the services are stopped is to create jobs in layers. -/
theorem upload_inLayers (h : config.Valid) :
    InLayers true (beforeUpload config) (uploadJobs config) (uploadStopped (retainProtocolData config)) where
  tidy := (runActions_tidy _ _).bind fun _ => (putProtocolData_tidy _ _).bind fun _ => (runJobs_tidy _ _).bind fun _ =>
    startServices_tidy _ _ _
  plans := by
    intro log r hrun
    have hmakes := uploadStopped_makes (retainProtocolData config)
    refine ⟨uploadPlan config, Valid.upload_nodup h, (upload_layers h).1, ?_, fun d hd => ?_⟩
    · cases r with
      | ok u => rw [(hmakes.ok log u hrun).2]; exact List.prefix_rfl
      | error err =>
        obtain ⟨u, plan, hplan, hbegins⟩ := hmakes.error log err hrun
        rw [hplan.2] at hbegins
        exact hbegins
    · rw [(upload_layers h).2]
      exact List.mem_append_left _ hd

end

/-! ## The services of an upload -/

/-- No such job, or one that is over. -/
def JobsSt.isOver (s : JobsSt) (name : String) : Bool := (s.deps name).all (·.state.decided)

/-- A service that uses the data starts only when the jobs before the upload and the upload are over; once the
services are stopped, these are jobs that were created. -/
def PassEvent.Alone (e : PassEvent) : Prop :=
  ∀ config, e.op = some (.upload, config) → e.event.name ∈ dataServices config → e.event.started = true →
    ∀ d ∈ uploadJobs config, (∀ job, e.event.deps d = some job → job.state.decided = true) ∧
      (e.halted = true → (e.event.deps d).isSome = true)

/-- A step of the manager leaves an upload in order if it starts none of its services before all are
stopped, and then ends none of its jobs for a dependency while something before it is not over. -/
def uploadCalm (s : PluginSt) : PluginAct → Bool
  | .manager _ =>
    match s.op with
    | some (.upload, config) =>
      if s.halted then s.jobs.names.all fun name => !s.jobs.breaks name || (beforeUpload config name).all s.jobs.isOver
      else (dataServices config).all fun name => !s.jobs.due name || (uploadJobs config).all s.jobs.isOver
    | _ => true
  | _ => true

namespace PluginSt

/-- What is left of `default_upload` when it has still to stop these services. -/
def stopScript (config : PluginConfig) (services : List PluginConfig.Service) : PluginM Unit :=
  services.forM (fun service => engine (.stopJob service.name)) >>= fun _ => uploadStopped (retainProtocolData config)

/-- Some services of the upload have been stopped, others are to be stopped yet, or never will. -/
def Stopping (config : PluginConfig) (s : PluginSt) : Prop :=
  ∃ stopped service rest, (retainProtocolData config).services = stopped ++ service :: rest ∧
    s.returned = stopped.map (fun service => .stopJob service.name) ∧
    (∀ name ∈ stopped.map (·.name), ∀ job, s.jobs.deps name = some job → job.state = .inactive .stopped) ∧
    (s.script = stopScript config (service :: rest) ∨ ∃ r, s.script = .done r)

/-- The services are stopped, and the jobs of the upload are created in order. -/
def Restarting (config : PluginConfig) (s : PluginSt) : Prop :=
  s.halted = true ∧ Following true (beforeUpload config) (· ∉ dataServices config) (uploadStopped (retainProtocolData config)) s.script s.jobs.deps

section

variable {config : PluginConfig} {s s' : PluginSt}

theorem halted_upload (hop : s.op = some (.upload, config)) {stopped : List PluginConfig.Service}
    (hreturned : s.returned = stopped.map (fun service => .stopJob service.name)) :
    s.halted = true ↔ ∀ name ∈ dataServices config, name ∈ stopped.map (·.name) := by
  unfold halted
  rw [hop, hreturned]
  simp [List.any_map, Function.comp_def]

/-- What has returned stays so in an operation. -/
theorem halted_mono (hop : s'.op = s.op) (hreturned : ∀ c ∈ s.returned, c ∈ s'.returned) (h : s.halted = true) : s'.halted = true := by
  have hany : ∀ {p : EngineCall → Bool}, s.returned.any p = true → s'.returned.any p = true := by
    intro p hp
    obtain ⟨c, hc, hcall⟩ := List.any_eq_true.mp hp
    exact List.any_eq_true.mpr ⟨c, hreturned c hc, hcall⟩
  unfold halted at h ⊢
  rw [hop]
  revert h
  split
  · exact hany
  · intro h
    exact List.all_eq_true.mpr fun name hname => hany (List.all_eq_true.mp h name hname)
  · exact fun _ => rfl

theorem Stopping.not_halted (h : Stopping config s) (hvalid : config.Valid) (hop : s.op = some (.upload, config)) : s.halted = false := by
  obtain ⟨stopped, service, rest, hservices, hreturned, -, -⟩ := h
  have hnodup : (dataServices config).Nodup := by
    have hall := Valid.upload_nodup hvalid
    rw [(upload_layers hvalid).2] at hall
    exact (List.nodup_append.mp (List.nodup_append.mp hall).2.1).2.1
  have hnames : dataServices config = stopped.map (·.name) ++ service.name :: rest.map (·.name) := by
    show (retainProtocolData config).services.map (·.name) = _
    rw [hservices, List.map_append, List.map_cons]
  rw [hnames] at hnodup
  cases hhalted : s.halted with
  | false => rfl
  | true =>
    have hmem := (halted_upload hop hreturned).mp hhalted service.name (by rw [hnames]; simp)
    exact absurd rfl ((List.nodup_append.mp hnodup).2.2 _ hmem _ List.mem_cons_self)

/-- So many services are stopped: the next is to be stopped, or all are. -/
theorem stopped_next (hvalid : config.Valid) (hop : s.op = some (.upload, config)) {stopped rest : List PluginConfig.Service}
    (hservices : (retainProtocolData config).services = stopped ++ rest)
    (hreturned : s.returned = stopped.map (fun service => .stopJob service.name))
    (hstopped : ∀ name ∈ stopped.map (·.name), ∀ job, s.jobs.deps name = some job → job.state = .inactive .stopped)
    (hscript : s.script = stopScript config rest) : Stopping config s ∨ Restarting config s := by
  cases rest with
  | cons service rest => exact .inl ⟨stopped, service, rest, hservices, hreturned, hstopped, .inl hscript⟩
  | nil =>
    have hnames : dataServices config = stopped.map (·.name) := by
      show (retainProtocolData config).services.map (·.name) = _
      rw [hservices, List.append_nil]
    refine .inr ⟨(halted_upload hop hreturned).mpr fun name hname => hnames ▸ hname, ?_⟩
    rw [hscript]
    refine (upload_inLayers hvalid).begin fun name hfree => ?_
    have hname : name ∈ dataServices config := by simpa using hfree
    rw [hnames] at hname
    exact hstopped name hname

/-- **A step of the manager** leaves the upload in order. -/
theorem upload_observe (hvalid : config.Valid) (hop : s.op = some (.upload, config)) (hregistered : Registered s.jobs)
    {act : JobsAct} (hcalm : uploadCalm s (.manager act) = true) {jobs : JobsSt} (hmoves : JobsSt.AllMove s.jobs jobs)
    (h : Stopping config s ∨ Restarting config s) : Stopping config (s.observe jobs) ∨ Restarting config (s.observe jobs) := by
  cases h with
  | inl hstopping =>
    obtain ⟨stopped, service, rest, hservices, hreturned, hstopped, hscript⟩ := hstopping
    refine .inl ⟨stopped, service, rest, hservices, hreturned, fun name hname job hjob => ?_, hscript⟩
    cases hbefore : s.jobs.deps name with
    | none =>
      have hnone : jobs.deps name = none := (hmoves name).1 hbefore
      rw [show (s.observe jobs).jobs.deps name = jobs.deps name from rfl, hnone] at hjob
      cases hjob
    | some before =>
      have hstate := hstopped name hname before hbefore
      obtain ⟨after, hafter, hmove⟩ := (hmoves name).2 before hbefore
      rw [show (s.observe jobs).jobs.deps name = jobs.deps name from rfl, hafter] at hjob
      cases hjob
      rw [hmove.decided (by rw [hstate]; rfl), hstate]
  | inr hrestarting =>
    obtain ⟨hhalted, hfollowing⟩ := hrestarting
    refine .inr ⟨hhalted, hfollowing.pass (upload_inLayers hvalid) hmoves fun _ name hbreaks d hd job hjob => ?_⟩
    have hname : name ∈ s.jobs.names := by
      rw [hregistered.jobs]
      by_contra hnot
      have hnone : (s.jobs.slots name).job = none := by simpa using hnot
      have hno : s.jobs.breaks name = false := by
        unfold JobsSt.breaks JobSlot.breaks
        split
        · rw [hnone]
        · rfl
      rw [hno] at hbreaks
      cases hbreaks
    have hall : s.jobs.names.all (fun name => !s.jobs.breaks name || (beforeUpload config name).all s.jobs.isOver) = true := by
      have hcalm := hcalm
      simp only [uploadCalm, hop, hhalted, if_true] at hcalm
      exact hcalm
    have hover := List.all_eq_true.mp hall name hname
    rw [hbreaks, Bool.not_true, Bool.false_or] at hover
    have hover := List.all_eq_true.mp hover d hd
    unfold JobsSt.isOver at hover
    rw [hjob] at hover
    exact hover

theorem stopScript_cons (config : PluginConfig) (service : PluginConfig.Service) (rest : List PluginConfig.Service) :
    ∃ k, stopScript config (service :: rest) = .call (.stopJob service.name) k ∧ k (.ok ()) = stopScript config rest ∧ Ends k :=
  ⟨_, rfl, rfl, fun err => ⟨err, rfl⟩⟩

/-- **An attempt at a call** leaves the upload in order, and so does its answer. -/
theorem upload_attempt (hvalid : config.Valid) (hop : s.op = some (.upload, config)) {c : EngineCall} {k : c.Reply → PluginM Unit}
    (hscript : s.script = .call c k) {env : JobCallEnv} {answer : Option c.Answer} {jobs : JobsSt}
    (hattempt : attemptCall s.jobs c env = some (answer, jobs)) (h : Stopping config s ∨ Restarting config s) :
    jobs.phase = .gone ∨ ((Stopping config { s with jobs } ∨ Restarting config { s with jobs }) ∧
      ∀ a, answer = some a →
        Stopping config { s with jobs, script := k (.ok a), returned := s.returned ++ [c] } ∨
          Restarting config { s with jobs, script := k (.ok a), returned := s.returned ++ [c] }) := by
  cases h with
  | inl hstopping =>
    obtain ⟨stopped, service, rest, hservices, hreturned, hstopped, hleft⟩ := hstopping
    obtain ⟨k', hcons, hok, -⟩ := stopScript_cons config service rest
    have hcall : s.script = .call (.stopJob service.name) k' := by
      cases hleft with
      | inl hleft => exact hleft.trans hcons
      | inr hdone =>
        obtain ⟨r, hdone⟩ := hdone
        rw [hdone] at hscript
        cases hscript
    rw [hcall] at hscript
    cases hscript
    obtain ⟨env, hjobs, hanswer⟩ := attempt_stop hattempt
    -- the services that are stopped stay so
    have hkeeps : ∀ {after : Option Job}, JobsSt.ClientStep s.jobs jobs service.name after →
        (∀ job, after = some job → s.jobs.deps service.name = some job ∨ job.state = .inactive .stopped) →
        ∀ name ∈ stopped.map (·.name), ∀ job, jobs.deps name = some job → job.state = .inactive .stopped := by
      intro after hclient hafter name hname job hjob
      obtain ⟨-, hothers, hthis⟩ := hclient
      by_cases heq : name = service.name
      · subst heq
        rw [hthis] at hjob
        exact (hafter job hjob).elim (hstopped _ hname job) id
      · rw [hothers name heq] at hjob
        exact hstopped name hname job hjob
    rw [hanswer]
    rw [hjobs] at hkeeps ⊢
    rcases JobsSt.stop_client s.jobs service.name env with hkilled | hfails | hdone
    · exact .inl hkilled.1
    · obtain ⟨hclient, hno⟩ := hfails
      refine .inr ⟨.inl ⟨stopped, service, rest, hservices, hreturned, hkeeps hclient fun job => .inl, hleft⟩, fun a ha => ?_⟩
      rw [answerOf, hno] at ha
      cases ha
    · obtain ⟨job, hjob, hclient⟩ := hdone
      have hafter : ∀ name ∈ stopped.map (·.name), ∀ job, (s.jobs.stop service.name env).deps name = some job →
          job.state = .inactive .stopped := hkeeps hclient fun _ hafter => by
        cases hafter
        exact .inr rfl
      refine .inr ⟨.inl ⟨stopped, service, rest, hservices, hreturned, hafter, hleft⟩, fun a _ => ?_⟩
      have hmore : (retainProtocolData config).services = (stopped ++ [service]) ++ rest := by rw [hservices]; simp
      refine stopped_next hvalid hop hmore (by rw [hreturned]; simp) (fun name hname job' hjob' => ?_) hok
      rw [List.map_append, List.mem_append] at hname
      cases hname with
      | inl hname => exact hafter name hname job' hjob'
      | inr hname =>
        rw [show name = service.name by simpa using hname] at hjob'
        rw [show (s.jobs.stop service.name env).deps service.name = _ from hclient.2.2] at hjob'
        cases hjob'
        rfl
  | inr hrestarting =>
    obtain ⟨hhalted, hfollowing⟩ := hrestarting
    rw [hscript] at hfollowing
    refine (hfollowing.attempt (upload_inLayers hvalid) hattempt).imp_right fun hgoes => ?_
    refine ⟨.inr ⟨hhalted, ?_⟩, fun a ha => .inr ⟨?_, hgoes.2 a ha⟩⟩
    · show Following _ _ _ _ s.script jobs.deps
      rw [hscript]
      exact hgoes.1
    · exact halted_mono (s := s) rfl (fun c hc => List.mem_append_left _ hc) hhalted

theorem upload_giveUp {c : EngineCall} {k : c.Reply → PluginM Unit} (hscript : s.script = .call c k) (err : String)
    (h : Stopping config s ∨ Restarting config s) :
    Stopping config { s with script := k (.error err) } ∨ Restarting config { s with script := k (.error err) } := by
  cases h with
  | inl hstopping =>
    obtain ⟨stopped, service, rest, hservices, hreturned, hstopped, hleft⟩ := hstopping
    obtain ⟨k', hcons, -, hends⟩ := stopScript_cons config service rest
    refine .inl ⟨stopped, service, rest, hservices, hreturned, hstopped, .inr ?_⟩
    cases hleft with
    | inl hleft =>
      have hcall := hscript.symm.trans (hleft.trans hcons)
      cases hcall
      obtain ⟨err', heq⟩ := hends err
      exact ⟨_, heq⟩
    | inr hdone =>
      obtain ⟨r, hdone⟩ := hdone
      rw [hdone] at hscript
      cases hscript
  | inr hrestarting =>
    obtain ⟨hhalted, hfollowing⟩ := hrestarting
    rw [hscript] at hfollowing
    exact .inr ⟨hhalted, hfollowing.giveUp err⟩

theorem upload_reply {c : EngineCall} {k : c.Reply → PluginM Unit} (hscript : s.script = .call c k) (hc : c.ofJobs = false)
    (reply : c.Reply) (h : Stopping config s ∨ Restarting config s) :
    Stopping config { s with script := k reply } ∨ Restarting config { s with script := k reply } := by
  cases h with
  | inl hstopping =>
    obtain ⟨stopped, service, rest, hservices, hreturned, hstopped, hleft⟩ := hstopping
    obtain ⟨k', hcons, -, -⟩ := stopScript_cons config service rest
    cases hleft with
    | inl hleft =>
      have hcall := hscript.symm.trans (hleft.trans hcons)
      cases hcall
      cases hc
    | inr hdone =>
      obtain ⟨r, hdone⟩ := hdone
      rw [hdone] at hscript
      cases hscript
  | inr hrestarting =>
    obtain ⟨hhalted, hfollowing⟩ := hrestarting
    rw [hscript] at hfollowing
    exact .inr ⟨hhalted, hfollowing.reply hc reply⟩

theorem upload_begin (hvalid : config.Valid) (s : PluginSt) :
    Stopping config { s with op := some (.upload, config), script := PluginOp.script config .upload, returned := [] } ∨
      Restarting config { s with op := some (.upload, config), script := PluginOp.script config .upload, returned := [] } :=
  have hnone : (retainProtocolData config).services = [] ++ (retainProtocolData config).services := rfl
  stopped_next hvalid rfl hnone rfl (fun _ hname => absurd hname List.not_mem_nil) rfl

/-! ## Runs -/

/-- What holds in every run whose steps are calm. -/
structure UploadOrder (s : PluginSt) : Prop where
  registered : Registered s.jobs
  goes : s.jobs.phase = .gone ∨ ∀ config, s.op = some (.upload, config) → config.Valid ∧ (Stopping config s ∨ Restarting config s)
  alone : ∀ e ∈ s.passed, e.Alone

/-- What the manager adds to the record is in order. -/
theorem upload_records (h : UploadOrder s) {act : JobsAct} (hcalm : uploadCalm s (.manager act) = true)
    (hs : s.step (.manager act) = some s') : ∀ e ∈ s'.passed, e.Alone := by
  intro e he
  cases manager_passed h.registered hs e he with
  | inl hold => exact h.alone e hold
  | inr hnew =>
    obtain ⟨hop, hhalted, -, hdeps, hdue⟩ := hnew
    intro config hupload hname hstarted d hd
    have hdue := hdue hstarted
    rw [hop] at hupload
    rw [hdeps, hhalted]
    cases h.goes with
    | inl hgone =>
      rw [JobsSt.due_gone hgone] at hdue
      cases hdue
    | inr hgoes =>
      obtain ⟨hvalid, hgoes⟩ := hgoes config hupload
      cases hgoes with
      | inl hstopping =>
        have hnot := hstopping.not_halted hvalid hupload
        have hall : (dataServices config).all (fun name => !s.jobs.due name || (uploadJobs config).all s.jobs.isOver) = true := by
          have hcalm := hcalm
          simp only [uploadCalm, hupload, hnot, Bool.false_eq_true, if_false] at hcalm
          exact hcalm
        have hover := List.all_eq_true.mp hall _ hname
        rw [hdue, Bool.not_true, Bool.false_or] at hover
        have hover := List.all_eq_true.mp hover d hd
        refine ⟨fun job hjob => ?_, fun hhalted => ?_⟩
        · unfold JobsSt.isOver at hover
          rw [hjob] at hover
          exact hover
        · rw [hnot] at hhalted
          cases hhalted
      | inr hrestarting =>
        obtain ⟨-, hsure, -⟩ := hrestarting.2.due (upload_inLayers hvalid) (not_not.mpr hname) hdue
          ((before_service hname).symm ▸ hd : d ∈ beforeUpload config e.event.name)
        obtain ⟨job, hjob, hdone⟩ := hsure hd
        refine ⟨fun job' hjob' => ?_, fun _ => by rw [hjob]; rfl⟩
        rw [hjob] at hjob'
        cases hjob'
        exact JobState.done_decided hdone

theorem uploadOrder_step {act : PluginAct} (h : UploadOrder s) (hcalm : uploadCalm s act = true) (hs : s.step act = some s') :
    UploadOrder s' := by
  have hregistered := registered_step h.registered hs
  have hd := step_does hs
  cases act with
  | manager act =>
    refine ⟨hregistered, ?_, upload_records h hcalm hs⟩
    obtain ⟨hact, jobs, hjobs, heq⟩ := hd
    rw [heq]
    cases h.goes with
    | inl hgone => exact .inl (JobsSt.manager_gone hgone hact hjobs)
    | inr hgoes =>
      refine (JobsSt.manager_moves h.registered hact hjobs).imp_right fun hmoves config hop => ?_
      have hop : s.op = some (.upload, config) := hop
      obtain ⟨hvalid, hgoes⟩ := hgoes config hop
      exact ⟨hvalid, upload_observe hvalid hop h.registered hcalm hmoves hgoes⟩
  | begin op config =>
    obtain ⟨-, hconfig, heq⟩ := hd
    rw [heq]
    refine ⟨h.registered, .inr fun config' hop => ?_, h.alone⟩
    cases hop
    have hvalid := PluginConfig.valid_of_validate hconfig
    exact ⟨hvalid, upload_begin hvalid s⟩
  | attempt env heard =>
    obtain ⟨c, k, answer, jobs, hscript, hattempt, heq⟩ := hd
    have hphase : s'.jobs.phase = .gone ∨ ∀ config, s'.op = some (.upload, config) →
        config.Valid ∧ (Stopping config s' ∨ Restarting config s') := by
      cases h.goes with
      | inl hgone =>
        have hjobs := attempt_gone h.registered hattempt hgone
        cases heq with
        | inl heq => rw [heq]; exact .inl hjobs
        | inr heq =>
          obtain ⟨a, -, heq⟩ := heq
          rw [heq]
          exact .inl hjobs
      | inr hgoes =>
        by_cases hgone : jobs.phase = .gone
        · cases heq with
          | inl heq => rw [heq]; exact .inl hgone
          | inr heq =>
            obtain ⟨a, -, heq⟩ := heq
            rw [heq]
            exact .inl hgone
        · refine .inr fun config hop => ?_
          cases heq with
          | inl heq =>
            rw [heq] at hop ⊢
            have hop : s.op = some (.upload, config) := hop
            obtain ⟨hvalid, hgoes⟩ := hgoes config hop
            exact ⟨hvalid, ((upload_attempt hvalid hop hscript hattempt hgoes).resolve_left hgone).1⟩
          | inr heq =>
            obtain ⟨a, ha, heq⟩ := heq
            rw [heq] at hop ⊢
            have hop : s.op = some (.upload, config) := hop
            obtain ⟨hvalid, hgoes⟩ := hgoes config hop
            exact ⟨hvalid, ((upload_attempt hvalid hop hscript hattempt hgoes).resolve_left hgone).2 a ha⟩
    refine ⟨hregistered, hphase, ?_⟩
    cases heq with
    | inl heq => rw [heq]; exact h.alone
    | inr heq =>
      obtain ⟨a, -, heq⟩ := heq
      rw [heq]
      exact h.alone
  | giveUp err =>
    obtain ⟨c, k, hscript, heq⟩ := hd
    rw [heq]
    refine ⟨h.registered, h.goes.imp_right fun hgoes config hop => ?_, h.alone⟩
    obtain ⟨hvalid, hgoes⟩ := hgoes config hop
    exact ⟨hvalid, upload_giveUp hscript err hgoes⟩
  | reply replies =>
    obtain ⟨c, k, hscript, hc, heq⟩ := hd
    rw [heq]
    refine ⟨h.registered, h.goes.imp_right fun hgoes config hop => ?_, h.alone⟩
    obtain ⟨hvalid, hgoes⟩ := hgoes config hop
    exact ⟨hvalid, upload_reply hscript hc _ hgoes⟩

end

end PluginSt

/-! ## Uploads -/

/-- **Services that use the data do not start beside an upload**, in any run in which the manager starts
none of them before all are stopped, and ends no job for a dependency while one before it is not over. -/
theorem upload_alone {history : List JobsAct} {acts : List PluginAct} {jobs : JobsSt} {s : PluginSt}
    (hjobs : run JobsSt.step .init history = some jobs) (hrun : run PluginSt.step (.idle jobs) acts = some s)
    (hcalm : Along PluginSt.step (fun s act => uploadCalm s act = true) (.idle jobs) acts) : ∀ e ∈ s.passed, e.Alone := by
  have hregistered : Registered jobs := run_invariant_all _ (fun _ _ _ h hs => JobsSt.registered_step h hs) JobsSt.registered_init hjobs
  have hidle : PluginSt.UploadOrder (.idle jobs) :=
    ⟨hregistered, .inr fun config hop => (by cases hop), fun e he => (by cases he)⟩
  exact (run_invariant PluginSt.step (fun _ _ _ h hok hs => PluginSt.uploadOrder_step h hok hs) hidle hcalm hrun).alone

/-- A node with a service that does not run. -/
def idleNode : List JobsAct := [.boot true ⟨[], none, fun _ => true⟩, .create "node" plainJob calmCreate]

def archivedUsing (name : String) : PluginConfig.Service := { serviceUsing name with storeKey := some name, archive := true }

/-- A configuration with a service, and jobs before and after an upload. -/
def uploading (service : PluginConfig.Service) (pre post : List PluginConfig.Job) : PluginConfig :=
  ⟨none, none, none, none, none, none, none, [service], some ⟨[], pre⟩, none, some post, none⟩

/-- The calls that create and start a job, which babel answers at once. -/
def calmJob : List PluginAct := [.attempt (.create calmCreate) true, .attempt (.start .none) true]

/-- A job before the upload runs, and the service when it is over. -/
def preparedRun : List PluginAct :=
  [.begin .upload (uploading (serviceUsing "node") [jobNeeding "prepare" []] []), .attempt (.stop calmHalt) true] ++
    calmJob ++ calmJob ++ [.manager (.check true)] ++ (calmPass ["node", "prepare"]).map .manager ++
    [.manager (.runnerSaves "prepare" 0 ⟨some 0, "done", .whole⟩), .manager (.runnerEnds "prepare" 0),
      .manager (.wake .jobStarted)] ++ (calmPass ["node", "prepare"]).map .manager

theorem upload_alone_prepared : ∃ jobs s, run JobsSt.step .init idleNode = some jobs ∧
    run PluginSt.step (.idle jobs) preparedRun = some s ∧ (∃ e ∈ s.passed, e.event.name = "node" ∧ e.event.started = true) ∧
    ∀ e ∈ s.passed, e.Alone := by
  have hidle : (run JobsSt.step .init idleNode).isSome = true := by decide +kernel
  obtain ⟨jobs, hjobs⟩ := Option.isSome_iff_exists.mp hidle
  have hstarted : (run JobsSt.step .init idleNode).bind (fun jobs => (run PluginSt.step (.idle jobs) preparedRun).map fun s =>
      s.passed.any fun e => e.event.name = "node" && e.event.started) = some true := by
    decide +kernel
  rw [hjobs, Option.bind_some] at hstarted
  obtain ⟨s, hrun, hany⟩ := Option.map_eq_some_iff.mp hstarted
  have hcalm : ∀ jobs ∈ run JobsSt.step .init idleNode,
      Along PluginSt.step (fun s act => uploadCalm s act = true) (.idle jobs) preparedRun := by
    decide +kernel
  obtain ⟨e, he, hnode⟩ := List.any_eq_true.mp hany
  refine ⟨jobs, s, hjobs, hrun, ⟨e, he, by simpa using hnode⟩, upload_alone hjobs hrun (hcalm jobs hjobs)⟩

/-- A job after the upload needs a job that does not exist. -/
def besideRun : List PluginAct :=
  [.begin .upload (uploading (archivedUsing "node") [] [jobNeeding "notify" ["nowhere"]]), .attempt (.stop calmHalt) true] ++
    calmJob ++ calmJob ++ calmJob ++ [.manager (.check true)] ++ (calmPass ["node", "upload", "notify"]).map .manager ++
    [.manager (.wake .jobStarted)] ++ (calmPass ["node", "upload", "notify"]).map .manager

def PassEvent.beside (e : PassEvent) : Bool :=
  match e.op with
  | some (.upload, config) =>
    e.event.started && decide (e.event.name ∈ dataServices config) &&
      (uploadJobs config).any fun d => (e.event.deps d).any fun job => !job.state.decided
  | _ => false

theorem PassEvent.beside_not_alone {e : PassEvent} (h : e.beside = true) : ¬ e.Alone := by
  intro halone
  unfold beside at h
  split at h
  · rename_i config hop
    simp only [Bool.and_eq_true, decide_eq_true_eq] at h
    obtain ⟨⟨hstarted, hname⟩, hany⟩ := h
    obtain ⟨d, hd, hjob⟩ := List.any_eq_true.mp hany
    cases hdeps : e.event.deps d with
    | none => rw [hdeps] at hjob; cases hjob
    | some job =>
      have hdecided := (halone config hop hname hstarted d hd).1 job hdeps
      rw [hdeps, Option.any_some, hdecided] at hjob
      cases hjob
  · cases h

/-- The job that cannot run is over at once, and the service that waits for it starts beside the upload. -/
theorem uploaded_beside : ¬ ∀ history acts jobs s, run JobsSt.step .init history = some jobs →
    run PluginSt.step (.idle jobs) acts = some s → ∀ e ∈ s.passed, e.Alone := by
  intro hall
  have hidle : (run JobsSt.step .init idleNode).isSome = true := by decide +kernel
  obtain ⟨jobs, hjobs⟩ := Option.isSome_iff_exists.mp hidle
  have hbeside : (run JobsSt.step .init idleNode).bind (fun jobs => (run PluginSt.step (.idle jobs) besideRun).map fun s =>
      s.passed.any (·.beside)) = some true := by
    decide +kernel
  rw [hjobs, Option.bind_some] at hbeside
  obtain ⟨s, hrun, hany⟩ := Option.map_eq_some_iff.mp hbeside
  obtain ⟨e, he, hevent⟩ := List.any_eq_true.mp hany
  exact PassEvent.beside_not_alone hevent (hall _ _ jobs s hjobs hrun e he)

end Blockvisor
