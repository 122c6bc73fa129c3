/-
The upload of several clients (`MultiClientUploader::upload_all_clients`, run
by `run_job`). Every client has an uploader of its own (`ClientUploader`) that
goes through the steps of the upload job but for its end: found stopped, it
returns Ok. The first client that fails ends the job; when every client has
returned Ok the job is saved as finished with exit code 0.

`MultiUploadJob.step` takes one client, or the loop that waits for them, one
step further. `published` is a ghost: the clients whose manifest was put with
success, in this run or an earlier one. `multiUpload_published` is about the
histories in which a client that is found stopped was published before; in
`multiUpload_stopped` a stop is all it takes to finish with exit code 0.
-/
import Blockvisor.Babel.UploadJob

namespace Blockvisor

open Machine

/-- A client to archive; what it excludes is in the walks of its directory. -/
structure ClientArchiveConfig where
  clientName : String
  storeKey : String
  dataDirectory : PathBuf
  deriving DecidableEq

/-- Where a client's uploader is: made, running, returned, or its result taken by the loop. -/
inductive ClientPhase where
  | made
  | running (r : UploadRun)
  | returned (result : Except String Unit)
  | taken

/-- A client with its uploader, which has walked the data directory. -/
structure ClientUploader where
  client : ClientArchiveConfig
  sourcesList : SourcesList
  phase : ClientPhase

structure MultiUploadRun where
  run : Bool
  totalChunks : Nat
  clients : List ClientUploader

/-- The files of the clients by their store keys, the progress and the status of the job, and its
run. `finished` is a ghost too: the clients of the runs that finished with exit code 0. -/
structure MultiUploadSt where
  files : String → UploadFiles
  progress : Doc JobProgress
  status : Doc JobStatus
  current : Option MultiUploadRun
  published : List ClientArchiveConfig
  finished : List (List ClientArchiveConfig)

def MultiUploadSt.init : MultiUploadSt := ⟨fun _ => .none, .missing, .missing, none, [], []⟩

inductive MultiUploadAct where
  | begin (clients : List (ClientArchiveConfig × Except String SourcesList)) (saveProgress saveStatus : Fault DocCut)
  | stop
  | kill
  | noMetaDir (i : Nat) (err : String)
  | client (i : Nat) (act : UploadAct)
  | take (i : Nat) (saveStatus : Fault DocCut)
  | updateProgress (dirs : List String) (fault : Fault DocCut)
  | finish (saveProgress saveStatus : Fault DocCut)

/-- What a multi-client upload job runs with. -/
structure MultiUploadJob where
  config : TransferConfig
  hashes : Hashes
  codecs : Codecs

namespace MultiUploadJob

variable (job : MultiUploadJob)

def uploadJob (client : ClientArchiveConfig) : UploadJob where
  sourceDir := client.dataDirectory
  numberOfChunks := none
  config := job.config
  hashes := job.hashes
  codecs := job.codecs

/-- `ClientUploader::new`, with the number of its slots. -/
def newUploader (client : ClientArchiveConfig × Except String SourcesList) : Except String (Nat × ClientUploader) := do
  let sources ← client.2
  let slots ← totalSlots none sources
  .ok (slots, ⟨client.1, sources, .made⟩)

/-- The status of the job is saved, or that fails; its run is over. -/
def saveStatus (s : MultiUploadSt) (status : JobStatus) (fault : Fault DocCut) : MultiUploadSt :=
  { s with status := (saveJobData s.status status fault).1, current := none }

def succeed (s : MultiUploadSt) (clients : List ClientArchiveConfig) (message : String) (fault : Fault DocCut) :
    MultiUploadSt :=
  saveStatus { s with finished := s.finished ++ [clients] } (.finished (some 0) message) fault

def failed (s : MultiUploadSt) (err : String) (fault : Fault DocCut) : MultiUploadSt :=
  saveStatus s (.finished (some (-1)) s!"Multi-client upload failed: {err}") fault

/-- The overall progress is saved; what comes then when it is, and the end of the job when not. -/
def saveProgress (s : MultiUploadSt) (progress : JobProgress) (fault statusFault : Fault DocCut)
    (next : MultiUploadSt → MultiUploadSt) : MultiUploadSt :=
  let (file, saved) := saveJobData s.progress progress fault
  let s := { s with progress := file }
  match saved with
  | .ok () => next s
  | .error (.error e) => failed s e statusFault
  | .error .killed => { s with current := none }

/-- The start of the job, up to the loop of `upload_all_clients`. -/
def begin (s : MultiUploadSt) (clients : List (ClientArchiveConfig × Except String SourcesList))
    (progressFault statusFault : Fault DocCut) : MultiUploadSt :=
  if clients.isEmpty then succeed s [] "No archivable clients found with store_key configured" statusFault
  else
    match clients.mapM newUploader with
    | .error e => failed s e statusFault
    | .ok uploaders =>
      let totalChunks := (uploaders.map (·.1)).sum % u32Size
      saveProgress s ⟨totalChunks, 0, "multi-client upload"⟩ progressFault statusFault fun s =>
        { s with current := some ⟨true, totalChunks, uploaders.map (·.2)⟩ }

/-- The stop of a job stops the uploader of each client, though not the chunk uploaders of that. -/
def stopClient (c : ClientUploader) : ClientUploader :=
  match c.phase with
  | .running r => { c with phase := .running { r with run := false } }
  | _ => c

def setPhase (s : MultiUploadSt) (m : MultiUploadRun) (i : Nat) (c : ClientUploader) (phase : ClientPhase) :
    MultiUploadSt :=
  { s with current := some { m with clients := m.clients.set i { c with phase } } }

/-- A client's uploader alone, as the run of an upload job. -/
def upload (s : MultiUploadSt) (c : ClientUploader) (current : Option UploadRun) : UploadSt :=
  ⟨s.files c.client.storeKey, [], [], current, none⟩

/-- What a step of a client's uploader comes to. -/
def ofUpload (s : MultiUploadSt) (m : MultiUploadRun) (i : Nat) (c : ClientUploader) (u : UploadSt) (put : Bool) :
    MultiUploadSt :=
  let s := { s with
    files := fun key => if key = c.client.storeKey then u.files else s.files key
    published := if put then s.published ++ [c.client] else s.published }
  match u.current, u.lastResult with
  | some r, _ => setPhase s m i c (.running r)
  | none, some result => setPhase s m i c (.returned result)
  | none, none => { s with current := none }

/-- `ClientUploader::run` up to its loop; the sources are those its constructor listed. -/
def startClient (s : MultiUploadSt) (m : MultiUploadRun) (i : Nat) (c : ClientUploader) (env : UploadStartEnv) :
    MultiUploadSt :=
  let u := (job.uploadJob c.client).start (upload s c none)
    { env with listed := .ok c.sourcesList, sources := .ok c.sourcesList }
  ofUpload s m i c { u with current := u.current.map fun r => { r with run := m.run } } false

/-- The end of `ClientUploader::run`: where the upload job fails as interrupted, Ok is returned. -/
def finishClient (s : MultiUploadSt) (m : MultiUploadRun) (i : Nat) (c : ClientUploader) (r : UploadRun)
    (env : UploadFinishEnv) : MultiUploadSt :=
  if r.runners.result.isNone && !r.run then setPhase s m i c (.returned (.ok ()))
  else
    let u := (job.uploadJob c.client).finish (upload s c (some r)) r env
    ofUpload s m i c u (!u.puts.isEmpty && decide (env.put = .none))

/-- One step of a client's uploader. -/
def stepClient (s : MultiUploadSt) (m : MultiUploadRun) (i : Nat) (c : ClientUploader) : UploadAct → Option MultiUploadSt
  | .start env =>
    match c.phase with
    | .made => some (job.startClient s m i c env)
    | _ => none
  | .finish env =>
    match c.phase with
    | .running r => if r.phase = .finishing then some (job.finishClient s m i c r env) else none
    | _ => none
  | .shutdown => none
  | .kill => none
  | .cleanup _ => none
  | act =>
    match c.phase with
    | .running r =>
      ((job.uploadJob c.client).stepRun (upload s c (some r)) r act).map fun u => ofUpload s m i c u false
    | _ => none

/-- The loop gets the result of a client. -/
def take (s : MultiUploadSt) (m : MultiUploadRun) (i : Nat) (c : ClientUploader) (fault : Fault DocCut) :
    Option MultiUploadSt :=
  match c.phase with
  | .returned (.ok ()) => some (setPhase s m i c .taken)
  | .returned (.error e) => some (failed s s!"Client '{c.client.clientName}' upload failed: {e}" fault)
  | _ => none

/-- `update_overall_progress`, over the clients' directories; a failure is only logged. -/
def updateOverallProgress (s : MultiUploadSt) (dirs : List String) (fault : Fault DocCut) : MultiUploadSt :=
  let progress := dirs.filterMap fun key => (s.files key).progress.load
  let total := (progress.map (·.total)).sum % u32Size
  let completed := (progress.map (·.current)).sum % u32Size
  let state := if completed = total then "completed" else "in progress"
  if total = 0 then s
  else { s with progress := (saveJobData s.progress ⟨total, completed, s!"multi-client upload ({state} clients)"⟩ fault).1 }

def isTaken (c : ClientUploader) : Bool :=
  match c.phase with
  | .taken => true
  | _ => false

/-- The end of `upload_all_clients`, with every result taken. -/
def finish (s : MultiUploadSt) (m : MultiUploadRun) (progressFault statusFault : Fault DocCut) : Option MultiUploadSt :=
  if m.clients.all isTaken then
    some (saveProgress s ⟨m.totalChunks, m.totalChunks, "multi-client upload completed"⟩ progressFault statusFault fun s =>
      succeed s (m.clients.map (·.client)) "Multi-client upload completed successfully" statusFault)
  else none

/-- One step of a run. -/
def stepRun (s : MultiUploadSt) (m : MultiUploadRun) : MultiUploadAct → Option MultiUploadSt
  | .begin .. => none
  | .stop => some { s with current := some { m with run := false, clients := m.clients.map stopClient } }
  | .kill => some { s with current := none }
  | .noMetaDir i err =>
    match m.clients[i]? with
    | some c =>
      match c.phase with
      | .made => some (setPhase s m i c (.returned (.error err)))
      | _ => none
    | none => none
  | .client i act =>
    match m.clients[i]? with
    | some c => job.stepClient s m i c act
    | none => none
  | .take i fault =>
    match m.clients[i]? with
    | some c => take s m i c fault
    | none => none
  | .updateProgress dirs fault => some (updateOverallProgress s dirs fault)
  | .finish progressFault statusFault => finish s m progressFault statusFault

def step (s : MultiUploadSt) (a : MultiUploadAct) : Option MultiUploadSt :=
  match s.current, a with
  | none, .begin clients progressFault statusFault => some (begin s clients progressFault statusFault)
  | none, _ => none
  | some m, a => job.stepRun s m a

end MultiUploadJob

/-! ## What a client's uploader returns

A step that is not the end of the run leaves no Ok that was not there. -/

theorem fail_lastResult {s : UploadSt} {e : Exit String} (h : (UploadJob.fail s e).lastResult = some (.ok ())) :
    s.lastResult = some (.ok ()) := by
  cases e with
  | error e => cases h
  | killed => exact h

theorem beginRun_lastResult {job : UploadJob} {s : UploadSt} {slots : Nat} {blueprint : UploadBlueprint}
    {uploaded : List Chunk} (h : (job.beginRun s slots blueprint uploaded).lastResult = some (.ok ())) :
    s.lastResult = some (.ok ()) := by
  unfold UploadJob.beginRun at h
  split at h
  · exact fail_lastResult h
  · exact h

theorem start_lastResult {job : UploadJob} {s : UploadSt} {env : UploadStartEnv}
    (h : (job.start s env).lastResult = some (.ok ())) : s.lastResult = some (.ok ()) := by
  unfold UploadJob.start at h
  split at h
  · exact fail_lastResult h
  split at h
  · split at h
    · exact fail_lastResult h
    · exact beginRun_lastResult h
  split at h
  · exact fail_lastResult h
  dsimp only at h
  split at h
  · exact (fail_lastResult h :)
  · exact (beginRun_lastResult h :)

theorem saveUploaded_lastResult (s : UploadSt) (r : UploadRun) (chunk : Chunk) (env : SaveUploadedEnv) :
    (UploadJob.saveUploaded s r chunk env).1.1.lastResult = s.lastResult := by
  unfold UploadJob.saveUploaded
  dsimp only
  split
  · rfl
  split <;> rfl

theorem stepRun_lastResult {job : UploadJob} {s u : UploadSt} {r : UploadRun} {a : UploadAct}
    (ha : ∀ env, a ≠ .finish env) (hu : job.stepRun s r a = some u) : u.lastResult = s.lastResult := by
  cases a with
  | start => cases hu
  | shutdown => cases hu; rfl
  | kill => cases hu; rfl
  | launch slots =>
    dsimp only [UploadJob.stepRun, UploadJob.launch] at hu
    split at hu
    · cases hu
    split at hu
    · cases hu; rfl
    split at hu
    · split at hu <;> cases hu <;> rfl
    · cases hu; rfl
  | complete i attempts env =>
    dsimp only [UploadJob.stepRun, UploadJob.complete] at hu
    split at hu
    · cases hu
    split at hu
    · cases hu
    split at hu
    · cases hu; rfl
    · split at hu <;> rename_i heq <;> cases hu <;>
        exact (congrArg (fun p => p.1.1.lastResult) heq).symm.trans (saveUploaded_lastResult ..)
  | abort i =>
    dsimp only [UploadJob.stepRun, UploadJob.abort] at hu
    split at hu
    · cases hu
    split at hu
    · cases hu
    · cases hu; rfl
  | noFutures =>
    dsimp only [UploadJob.stepRun] at hu
    split at hu <;> cases hu
    rfl
  | stopped =>
    dsimp only [UploadJob.stepRun] at hu
    split at hu <;> cases hu
    rfl
  | finish env => exact absurd rfl (ha env)
  | cleanup => cases hu

theorem cleanup_lastResult {s : UploadSt} {env : CleanupEnv} {e : Exit String}
    (h : (UploadJob.cleanup s env (.error e)).lastResult = some (.ok ())) : s.lastResult = some (.ok ()) := by
  unfold UploadJob.cleanup at h
  dsimp only at h
  split at h <;> exact (fail_lastResult h :)

theorem cleanup_puts (s : UploadSt) (env : CleanupEnv) (result : Except (Exit String) Unit) :
    (UploadJob.cleanup s env result).puts = s.puts := by
  have hfail : ∀ (s : UploadSt) e, (UploadJob.fail s e).puts = s.puts := fun s e => by cases e <;> rfl
  unfold UploadJob.cleanup
  dsimp only
  split
  · exact hfail _ _
  split
  · rfl
  · exact hfail _ _

/-- An uploader that ends with Ok has put its manifest. -/
theorem finish_lastResult {job : UploadJob} {s : UploadSt} {r : UploadRun} {env : UploadFinishEnv}
    (hs : s.lastResult = none) (h : (job.finish s r env).lastResult = some (.ok ())) :
    (job.finish s r env).puts.isEmpty = false ∧ env.put = .none := by
  have hnot : s.lastResult ≠ some (.ok ()) := by simp [hs]
  unfold UploadJob.finish at h ⊢
  split at h
  · exact absurd (cleanup_lastResult h) hnot
  · exact absurd (fail_lastResult h) hnot
  split at h
  · exact absurd (fail_lastResult h) hnot
  rename_i hrun
  rw [if_neg hrun]
  unfold UploadJob.putManifest at h ⊢
  split at h
  · exact absurd (fail_lastResult h) hnot
  dsimp only at h
  split at h
  · rename_i hput
    refine ⟨?_, Fault.result_ok.mp hput⟩
    rw [cleanup_puts]
    simp
  · exact absurd (fail_lastResult h) hnot

/-! ## Runs of the job -/

/-- A client whose uploader has returned Ok. -/
def ClientUploader.Done (c : ClientUploader) : Prop := c.phase = .taken ∨ c.phase = .returned (.ok ())

/-- Every client that is done was published, and so was every client of a run that finished with
exit code 0; such a run is on record when the status says so. -/
structure PublishedOk (s : MultiUploadSt) : Prop where
  done : ∀ m, s.current = some m → ∀ c ∈ m.clients, c.Done → c.client ∈ s.published
  finished : ∀ clients ∈ s.finished, ∀ client ∈ clients, client ∈ s.published
  status : ∀ message, s.status = .whole (.finished (some 0) message) → s.finished ≠ []

/-- The client whose uploader a step takes to its end. -/
def MultiUploadAct.ends : MultiUploadAct → List ClientUploader → Option ClientUploader
  | .client i (.finish _), clients => clients[i]?
  | _, _ => none

/-- Its main loop is over without an error, but with the run flag stopped. -/
def ClientUploader.stopped (c : ClientUploader) : Bool :=
  match c.phase with
  | .running r => r.runners.result.isNone && !r.run
  | _ => false

/-- A client's uploader that ends stopped was published in an earlier run. -/
def MultiUploadJob.StoppedPublished (s : MultiUploadSt) (a : MultiUploadAct) : Prop :=
  ∀ m ∈ s.current, ∀ c ∈ a.ends m.clients, c.stopped = true → c.client ∈ s.published

instance (s : MultiUploadSt) (a : MultiUploadAct) : Decidable (MultiUploadJob.StoppedPublished s a) :=
  inferInstanceAs (Decidable (∀ m ∈ s.current, ∀ c ∈ a.ends m.clients, c.stopped = true → c.client ∈ s.published))

theorem PublishedOk.idle {s : MultiUploadSt} (h : PublishedOk s) : PublishedOk { s with current := none } where
  done := by
    intro m hm
    cases hm
  finished := h.finished
  status := h.status

theorem PublishedOk.saveStatus {s : MultiUploadSt} (h : PublishedOk s) {status : JobStatus} (fault : Fault DocCut)
    (hstatus : ∀ message, status = .finished (some 0) message → s.finished ≠ []) :
    PublishedOk (MultiUploadJob.saveStatus s status fault) where
  done := by
    intro m hm
    cases hm
  finished := h.finished
  status := by
    intro message hm
    rcases Doc.write_whole hm with hm | hm
    · exact h.status message hm
    · exact hstatus message hm

theorem PublishedOk.failed {s : MultiUploadSt} (h : PublishedOk s) (err : String) (fault : Fault DocCut) :
    PublishedOk (MultiUploadJob.failed s err fault) :=
  h.saveStatus fault fun message hm => by cases hm

/-- A run finishes with exit code 0 when all its clients were published. -/
theorem PublishedOk.succeed {s : MultiUploadSt} (h : PublishedOk s) {clients : List ClientArchiveConfig}
    (hclients : ∀ client ∈ clients, client ∈ s.published) (message : String) (fault : Fault DocCut) :
    PublishedOk (MultiUploadJob.succeed s clients message fault) := by
  have hfinished : PublishedOk { s with finished := s.finished ++ [clients] } := {
    done := h.done
    finished := by
      intro cs hcs
      rcases List.mem_append.mp hcs with hcs | hcs
      · exact h.finished cs hcs
      · rw [List.mem_singleton.mp hcs]
        exact hclients
    status := fun _ _ => by simp }
  exact hfinished.saveStatus fault fun _ _ => by simp

theorem PublishedOk.saveProgress {s : MultiUploadSt} (h : PublishedOk s) {progress : JobProgress}
    {fault statusFault : Fault DocCut} {next : MultiUploadSt → MultiUploadSt}
    (hnext : ∀ file, PublishedOk (next { s with progress := file })) :
    PublishedOk (MultiUploadJob.saveProgress s progress fault statusFault next) := by
  have hfile : ∀ file, PublishedOk { s with progress := file } := fun file => ⟨h.done, h.finished, h.status⟩
  unfold MultiUploadJob.saveProgress
  dsimp only
  split
  · exact hnext _
  · exact (hfile _).failed _ _
  · exact (hfile (saveJobData s.progress progress fault).1).idle

/-- A client moves on; if that makes it done, it was published. -/
theorem PublishedOk.setPhase {s : MultiUploadSt} {m : MultiUploadRun} {c : ClientUploader} (h : PublishedOk s)
    (hm : s.current = some m) (i : Nat) {phase : ClientPhase}
    (hc : ClientUploader.Done { c with phase } → c.client ∈ s.published) :
    PublishedOk (MultiUploadJob.setPhase s m i c phase) where
  done := by
    intro m' hm' d hd hdone
    cases hm'
    rcases List.mem_or_eq_of_mem_set hd with hd | rfl
    · exact h.done m hm d hd hdone
    · exact hc hdone
  finished := h.finished
  status := h.status

/-- A client's uploader takes a step. -/
theorem PublishedOk.ofUpload {s : MultiUploadSt} {m : MultiUploadRun} {c : ClientUploader} {u : UploadSt} {put : Bool}
    (h : PublishedOk s) (hm : s.current = some m) (i : Nat) (hput : u.lastResult = some (.ok ()) → put = true) :
    PublishedOk (MultiUploadJob.ofUpload s m i c u put) := by
  have hmem : ∀ client, client ∈ s.published → client ∈ (if put then s.published ++ [c.client] else s.published) := by
    intro client hclient
    split
    · exact List.mem_append_left _ hclient
    · exact hclient
  have hgrow : ∀ files, PublishedOk
      { s with files, published := if put then s.published ++ [c.client] else s.published } := fun files =>
    ⟨fun m hm d hd hdone => hmem _ (h.done m hm d hd hdone), fun cs hcs d hd => hmem _ (h.finished cs hcs d hd),
      h.status⟩
  unfold MultiUploadJob.ofUpload
  dsimp only
  split
  · refine (hgrow _).setPhase hm i fun hdone => ?_
    rcases hdone with hdone | hdone <;> cases hdone
  · rename_i result _ hresult
    refine (hgrow _).setPhase hm i fun hdone => ?_
    rcases hdone with hdone | hdone
    · cases hdone
    · cases hdone
      rw [if_pos (hput hresult)]
      exact List.mem_append_right _ (List.mem_singleton_self _)
  · exact (hgrow _).idle

theorem newUploader_phase (client : ClientArchiveConfig × Except String SourcesList) (p : Nat × ClientUploader)
    (h : MultiUploadJob.newUploader client = .ok p) : p.2.phase = .made := by
  obtain ⟨sources, _, h⟩ := Except.of_bind_ok h
  obtain ⟨slots, _, h⟩ := Except.of_bind_ok h
  cases h
  rfl

theorem publishedOk_begin {s : MultiUploadSt} (h : PublishedOk s)
    (clients : List (ClientArchiveConfig × Except String SourcesList)) (progressFault statusFault : Fault DocCut) :
    PublishedOk (MultiUploadJob.begin s clients progressFault statusFault) := by
  unfold MultiUploadJob.begin
  split
  · exact h.succeed (by simp) _ _
  split
  · exact h.failed _ _
  · rename_i uploaders hnew
    refine h.saveProgress fun file => ⟨fun m hm c hc hdone => ?_, h.finished, h.status⟩
    cases hm
    obtain ⟨p, hp, rfl⟩ := List.mem_map.mp hc
    have hmade : p.2.phase = .made := Except.forall_of_mapM (P := fun p => p.2.phase = .made) newUploader_phase hnew p hp
    rcases hdone with hdone | hdone <;> rw [hmade] at hdone <;> cases hdone

theorem publishedOk_stepClient {job : MultiUploadJob} {s s' : MultiUploadSt} {m : MultiUploadRun} {i : Nat}
    {c : ClientUploader} {a : UploadAct} (h : PublishedOk s) (hm : s.current = some m) (hc : m.clients[i]? = some c)
    (hok : MultiUploadJob.StoppedPublished s (.client i a)) (hs : job.stepClient s m i c a = some s') :
    PublishedOk s' := by
  unfold MultiUploadJob.stepClient at hs
  split at hs
  · -- it starts
    split at hs <;> cases hs
    refine h.ofUpload hm i fun hresult => ?_
    cases start_lastResult hresult
  · -- its run ends
    split at hs
    · rename_i r hphase
      split at hs <;> cases hs
      unfold MultiUploadJob.finishClient
      split
      · rename_i hstop
        have hstopped : c.stopped = true := by
          rw [ClientUploader.stopped, hphase]
          exact hstop
        exact h.setPhase hm i fun _ => hok m hm c hc hstopped
      · refine h.ofUpload hm i fun hresult => ?_
        obtain ⟨hputs, hput⟩ := finish_lastResult rfl hresult
        simp [hputs, hput]
    · cases hs
  · cases hs
  · cases hs
  · cases hs
  · rename_i hstart hfinish _ _ _
    split at hs
    · rename_i r _
      obtain ⟨u, hu, rfl⟩ := Option.map_eq_some_iff.mp hs
      refine h.ofUpload hm i fun hresult => ?_
      rw [stepRun_lastResult hfinish hu] at hresult
      cases hresult
    · cases hs

theorem stopClient_client (c : ClientUploader) : (MultiUploadJob.stopClient c).client = c.client := by
  unfold MultiUploadJob.stopClient
  split <;> rfl

theorem done_of_stopClient {c : ClientUploader} (h : (MultiUploadJob.stopClient c).Done) : c.Done := by
  unfold MultiUploadJob.stopClient at h
  split at h
  · rcases h with h | h <;> cases h
  · exact h

theorem PublishedOk.stop {s : MultiUploadSt} {m : MultiUploadRun} (h : PublishedOk s) (hm : s.current = some m) :
    PublishedOk { s with current := some { m with run := false, clients := m.clients.map MultiUploadJob.stopClient } } where
  done := by
    intro m' hm' c hc hdone
    cases hm'
    obtain ⟨d, hd, rfl⟩ := List.mem_map.mp hc
    rw [stopClient_client]
    exact h.done m hm d hd (done_of_stopClient hdone)
  finished := h.finished
  status := h.status

theorem publishedOk_take {s s' : MultiUploadSt} {m : MultiUploadRun} {i : Nat} {c : ClientUploader}
    {fault : Fault DocCut} (h : PublishedOk s) (hm : s.current = some m) (hc : m.clients[i]? = some c)
    (hs : MultiUploadJob.take s m i c fault = some s') : PublishedOk s' := by
  unfold MultiUploadJob.take at hs
  split at hs
  · rename_i hphase
    cases hs
    exact h.setPhase hm i fun _ => h.done m hm c (List.mem_of_getElem? hc) (.inr hphase)
  · cases hs
    exact h.failed _ _
  · cases hs

theorem PublishedOk.updateOverallProgress {s : MultiUploadSt} (h : PublishedOk s) (dirs : List String)
    (fault : Fault DocCut) : PublishedOk (MultiUploadJob.updateOverallProgress s dirs fault) := by
  unfold MultiUploadJob.updateOverallProgress
  dsimp only
  split
  · exact h
  · exact ⟨h.done, h.finished, h.status⟩

theorem publishedOk_finish {s s' : MultiUploadSt} {m : MultiUploadRun} {progressFault statusFault : Fault DocCut}
    (h : PublishedOk s) (hm : s.current = some m)
    (hs : MultiUploadJob.finish s m progressFault statusFault = some s') : PublishedOk s' := by
  unfold MultiUploadJob.finish at hs
  split at hs
  · rename_i htaken
    cases hs
    refine h.saveProgress fun file => ?_
    have hfile : PublishedOk { s with progress := file } := ⟨h.done, h.finished, h.status⟩
    refine hfile.succeed (fun client hclient => ?_) _ _
    obtain ⟨c, hc, rfl⟩ := List.mem_map.mp hclient
    have hphase := List.all_eq_true.mp htaken c hc
    unfold MultiUploadJob.isTaken at hphase
    split at hphase
    · rename_i htaken
      exact h.done m hm c hc (.inl htaken)
    · cases hphase
  · cases hs

theorem publishedOk_step {job : MultiUploadJob} {s : MultiUploadSt} {act : MultiUploadAct} {s' : MultiUploadSt}
    (h : PublishedOk s) (hok : MultiUploadJob.StoppedPublished s act) (hs : job.step s act = some s') : PublishedOk s' := by
  cases hm : s.current with
  | none =>
    simp only [MultiUploadJob.step, hm] at hs
    cases act with
    | begin => cases hs; exact publishedOk_begin h _ _ _
    | _ => cases hs
  | some m =>
  simp only [MultiUploadJob.step, hm] at hs
  cases act with
  | begin => cases hs
  | stop => cases hs; exact h.stop hm
  | kill => cases hs; exact h.idle
  | noMetaDir i err =>
    dsimp only [MultiUploadJob.stepRun] at hs
    split at hs
    · split at hs <;> cases hs
      refine h.setPhase hm i fun hdone => ?_
      rcases hdone with hdone | hdone <;> cases hdone
    · cases hs
  | client i a =>
    dsimp only [MultiUploadJob.stepRun] at hs
    split at hs
    · rename_i c hc
      exact publishedOk_stepClient h hm hc hok hs
    · cases hs
  | take i fault =>
    dsimp only [MultiUploadJob.stepRun] at hs
    split at hs
    · rename_i c hc
      exact publishedOk_take h hm hc hs
    · cases hs
  | updateProgress dirs fault => cases hs; exact h.updateOverallProgress dirs fault
  | finish progressFault statusFault => exact publishedOk_finish h hm hs

/-! ## Success means published -/

/-- **An upload of several clients that finishes with exit code 0 has published them all**, in that
run or an earlier one, in every history of runs in which a client found stopped was published
before. -/
theorem multiUpload_published {job : MultiUploadJob} {acts : List MultiUploadAct} {s : MultiUploadSt}
    (hrun : run job.step .init acts = some s) (hok : Along job.step MultiUploadJob.StoppedPublished .init acts) :
    (∀ clients ∈ s.finished, ∀ client ∈ clients, client ∈ s.published) ∧
      ∀ message, s.status = .whole (.finished (some 0) message) → s.finished ≠ [] := by
  have hinit : PublishedOk .init := {
    done := by
      intro m hm
      cases hm
    finished := by simp [MultiUploadSt.init]
    status := by
      intro message hm
      cases hm }
  have h := run_invariant job.step (fun _ _ _ hI hok hs => publishedOk_step hI hok hs) hinit hok hrun
  exact ⟨h.finished, h.status⟩

/-- A job with one client, whose directory is empty. -/
def multiUploadSample : MultiUploadJob := ⟨buildTransferConfig none 8, zeroHashes, plainCodecs⟩

def sampleClient : ClientArchiveConfig := ⟨"reth", "reth-mainnet", ["data", "reth"]⟩

def sampleBegin : List MultiUploadAct :=
  [.begin [(sampleClient, .ok (sourcesList [] fun _ => false))] .none .none]

/-- The client's uploader runs through a main loop, its result is taken, and the job is over. -/
def sampleRest (loop : List UploadAct) : List MultiUploadAct :=
  let sources := sourcesList [] fun _ => false
  (.start ⟨.ok sources, .ok none, .ok sources, .ok ⟨[], 1⟩, .ok none, .none⟩ ::
    (loop ++ [.finish ⟨.none, ⟨.none, .none⟩⟩])).map (.client 0) ++ [.take 0 .none, .finish .none .none]

/-- The client's uploader finds nothing to upload, and puts the manifest. -/
def sampleActs : List MultiUploadAct := sampleBegin ++ sampleRest [.launch (.ok ⟨[], 1⟩), .noFutures]

theorem multiUpload_published_one : ∃ s, run multiUploadSample.step .init sampleActs = some s ∧
    (∀ clients ∈ s.finished, ∀ client ∈ clients, client ∈ s.published) ∧ s.finished = [[sampleClient]] := by
  have hfinished : (run multiUploadSample.step .init sampleActs).map (·.finished) = some [[sampleClient]] := by
    decide +kernel
  obtain ⟨s, hrun, hs⟩ := Option.map_eq_some_iff.mp hfinished
  exact ⟨s, hrun, (multiUpload_published hrun (by decide +kernel)).1, hs⟩

/-- The job is stopped before the client's uploader runs. -/
def stoppedActs : List MultiUploadAct := sampleBegin ++ .stop :: sampleRest [.launch (.ok ⟨[], 1⟩)]

/-- **A stop is all it takes to finish with exit code 0**: the status is saved, and the client was not
published. -/
theorem multiUpload_stopped : ∃ s, run multiUploadSample.step .init stoppedActs = some s ∧
    s.status = .whole (.finished (some 0) "Multi-client upload completed successfully") ∧
    ¬ ∀ clients ∈ s.finished, ∀ client ∈ clients, client ∈ s.published := by
  have hend : (run multiUploadSample.step .init stoppedActs).map (fun s => (s.status, s.finished, s.published)) =
      some (.whole (.finished (some 0) "Multi-client upload completed successfully"), [[sampleClient]], []) := by
    decide +kernel
  obtain ⟨s, hrun, hs⟩ := Option.map_eq_some_iff.mp hend
  obtain ⟨hstatus, hfinished, hpublished⟩ : _ ∧ _ ∧ _ := by simpa only [Prod.mk.injEq] using hs
  refine ⟨s, hrun, hstatus, fun hall => ?_⟩
  rw [hfinished, hpublished] at hall
  exact absurd (hall _ (List.mem_singleton_self _) sampleClient (List.mem_singleton_self _)) (by simp)

end Blockvisor
