/-
The cleanup of an archive job (`Job::cleanup`): what it removes of the files
that its runs keep in their directories, and what the next run finds there. The
job itself is told in `DownloadJob` and `UploadJob`; `JobDisk` is the part of
the disk that all of them write what they know to.

`cleanup_firstRun` says when the next run starts as a first one does. The jobs
of several clients keep files of other names, or in other directories, than
their cleanup removes.
-/
import Blockvisor.Babel.MultiClient
import Blockvisor.Babel.TargetDir
import Blockvisor.Babel.UploadJob

namespace Blockvisor

/-! ## The files -/

/-- The files that archive jobs keep in a directory: `download.metadata`, `download.chunks`, `download.parts`,
`download.progress`, `manifest-header.json`, `manifest-data.json`, and those of an upload, `progress.json` among them. -/
structure MetaDir where
  downloadMetadata : Doc DownloadMetadata
  downloadChunks : LogFile Chunk
  downloadParts : LogFile Chunk
  downloadProgress : Doc JobProgress
  manifestHeader : Doc DownloadMetadata
  manifestData : LogFile Chunk
  upload : UploadFiles

namespace MetaDir

def none : MetaDir := ⟨.missing, .empty, .empty, .missing, .missing, .empty, .none⟩

/-- The files of a `Downloader`, whose progress is kept elsewhere. -/
def downloader (d : MetaDir) (progress : Doc JobProgress) : DownloadFiles :=
  ⟨d.downloadMetadata, d.downloadChunks, d.downloadParts, progress⟩

/-- The files of a `ClientDownloader`. -/
def client (d : MetaDir) : DownloadFiles := ⟨d.manifestHeader, d.manifestData, .empty, d.downloadProgress⟩

def uploader (d : MetaDir) (progress : Doc JobProgress) : UploadFiles := { d.upload with progress }

end MetaDir

/-- The directories of the archive jobs, the data, and the progress file of the job. -/
structure JobDisk where
  dirs : List (PathBuf × MetaDir)
  data : Store PathBuf
  progress : Doc JobProgress

/-- A directory that is not there has no files. -/
def JobDisk.dir (disk : JobDisk) (path : PathBuf) : MetaDir := (disk.dirs.lookup path).getD .none

/-! ## The cleanup -/

/-- What becomes of the removals of a cleanup; `remnants` tells how many files of the data are gone when
one cannot be removed. -/
structure DownloadCleanupEnv where
  chunks : Fault Bool
  remnants : Option Nat
  parts : Fault Bool
  metadata : Fault Bool

/-- `cleanup_job` of a download, in a directory of its own. -/
def Downloader.cleanupJob (destinationDir : PathBuf) (env : DownloadCleanupEnv) (d : MetaDir) (data : Store PathBuf) :
    (MetaDir × Store PathBuf) × Except (Exit String) Unit :=
  let d := if env.chunks.cutOr true then { d with downloadChunks := .empty } else d
  match env.chunks.result "failed to cleanup download chunks file" with
  | .error e => ((d, data), .error e)
  | .ok () =>
    match loadChunks d.downloadParts, env.remnants with
    | .error e, _ => ((d, data), .error e)
    | .ok chunks, some n =>
      let removed := (chunks.flatMap (·.destinations)).take n
      ((d, removed.foldl (fun s l => s.set (destinationDir ++ l.path) none) data), .error (.error "failed to remove remnant file"))
    | .ok chunks, none =>
      let data := removeRemnants chunks destinationDir data
      let d := if env.parts.cutOr true then { d with downloadParts := .empty } else d
      match env.parts.result "failed to cleanup download parts file" with
      | .error e => ((d, data), .error e)
      | .ok () =>
        let d := if env.metadata.cutOr true then { d with downloadMetadata := .missing } else d
        ((d, data), env.metadata.result "failed to cleanup download metadata file")

/-- `cleanup_job` of an upload, in a directory of its own. -/
def MetaDir.cleanupUpload (env : CleanupEnv) (d : MetaDir) (data : Store PathBuf) :
    (MetaDir × Store PathBuf) × Except (Exit String) Unit :=
  let (upload, r) := Uploader.cleanupJob d.upload env
  (({ d with upload }, data), r)

/-- Cleans the directories up, one after another, of which `inside` says that they are meant. -/
def cleanupDirs (inside : PathBuf → Bool)
    (clean : PathBuf → MetaDir → Store PathBuf → (MetaDir × Store PathBuf) × Except (Exit String) Unit) :
    List (PathBuf × MetaDir) → Store PathBuf → (List (PathBuf × MetaDir) × Store PathBuf) × Except (Exit String) Unit
  | [], data => (([], data), .ok ())
  | (path, d) :: dirs, data =>
    if inside path then
      match clean path d data with
      | ((d, data), .error e) => (((path, d) :: dirs, data), .error e)
      | ((d, data), .ok ()) =>
        let ((dirs, data), r) := cleanupDirs inside clean dirs data
        (((path, d) :: dirs, data), r)
    else
      let ((dirs, data), r) := cleanupDirs inside clean dirs data
      (((path, d) :: dirs, data), r)

/-- What the cleanup meets: whether the directories can be listed, and what becomes of the removals in each. -/
structure JobCleanupEnv where
  readDir : Except (Exit String) Unit
  download : PathBuf → DownloadCleanupEnv
  upload : PathBuf → CleanupEnv

/-- A directory right below another. -/
def isChild (base path : PathBuf) : Bool := path ≠ [] && path.dropLast = base

namespace JobDisk

def cleanDirs (disk : JobDisk) (inside : PathBuf → Bool)
    (clean : PathBuf → MetaDir → Store PathBuf → (MetaDir × Store PathBuf) × Except (Exit String) Unit) :
    JobDisk × Except (Exit String) Unit :=
  let ((dirs, data), r) := cleanupDirs inside clean disk.dirs disk.data
  ({ disk with dirs, data }, r)

/-- `Job::cleanup`. The directories are all below that of the data, those of an upload of several
clients too. -/
def cleanup (disk : JobDisk) (dataMountPoint protocolDataPath : PathBuf) (env : JobCleanupEnv) (jobType : Engine.JobType) :
    JobDisk × Except (Exit String) Unit :=
  let archiveJobsDir := archiveJobsMetaDir dataMountPoint
  let cleanDownload := fun path => Downloader.cleanupJob protocolDataPath (env.download path)
  let cleanUpload := fun path => MetaDir.cleanupUpload (env.upload path)
  match jobType with
  | .runSh _ => (disk, .ok ())
  | .download .. => disk.cleanDirs (· = archiveJobsDir) cleanDownload
  | .upload .. => disk.cleanDirs (· = archiveJobsDir) cleanUpload
  | .multiClientUpload .. =>
    match env.readDir with
    | .error e => (disk, .error e)
    | .ok () => disk.cleanDirs (isChild archiveJobsDir) cleanUpload
  | .multiClientDownload .. =>
    match env.readDir with
    | .error e => (disk, .error e)
    | .ok () => disk.cleanDirs (isChild archiveJobsDir) cleanDownload

end JobDisk

/-! ## What a cleanup leaves -/

/-- The directory without what the cleanup of a download removes. -/
def MetaDir.noDownload (d : MetaDir) : MetaDir :=
  { d with downloadMetadata := .missing, downloadChunks := .empty, downloadParts := .empty }

/-- The directory without what the cleanup of an upload removes. -/
def MetaDir.noUpload (d : MetaDir) : MetaDir := { d with upload := { UploadFiles.none with progress := d.upload.progress } }

theorem Downloader.cleanupJob_ok {destinationDir : PathBuf} {env : DownloadCleanupEnv} {d d' : MetaDir} {data data' : Store PathBuf}
    (h : Downloader.cleanupJob destinationDir env d data = ((d', data'), .ok ())) : d' = d.noDownload := by
  unfold Downloader.cleanupJob at h
  cases hchunks : env.chunks with
  | error cut => simp [hchunks, Fault.result] at h
  | killed cut => simp [hchunks, Fault.result] at h
  | none =>
    simp only [hchunks, Fault.result, Fault.cutOr, if_true] at h
    cases hload : loadChunks d.downloadParts with
    | error e => simp [hload] at h
    | ok chunks =>
      cases hremnants : env.remnants with
      | some n => simp [hload, hremnants] at h
      | none =>
        simp only [hload, hremnants] at h
        cases hparts : env.parts with
        | error cut => simp [hparts] at h
        | killed cut => simp [hparts] at h
        | none =>
          simp only [hparts, if_true] at h
          cases hmetadata : env.metadata with
          | error cut => simp [hmetadata] at h
          | killed cut => simp [hmetadata] at h
          | none =>
            simp only [hmetadata, if_true, Prod.mk.injEq] at h
            exact h.1.1.symm

theorem MetaDir.cleanupUpload_ok {env : CleanupEnv} {d d' : MetaDir} {data data' : Store PathBuf}
    (h : d.cleanupUpload env data = ((d', data'), .ok ())) : d' = d.noUpload := by
  unfold MetaDir.cleanupUpload Uploader.cleanupJob at h
  cases hblueprint : env.blueprint with
  | error cut => simp [hblueprint, Fault.result] at h
  | killed cut => simp [hblueprint, Fault.result] at h
  | none =>
    simp only [hblueprint, Fault.result, Fault.cutOr, if_true] at h
    cases hchunks : env.chunks with
    | error cut => simp [hchunks] at h
    | killed cut => simp [hchunks] at h
    | none =>
      simp only [hchunks, if_true, Prod.mk.injEq] at h
      exact h.1.1.symm

section

variable {inside : PathBuf → Bool}
  {clean : PathBuf → MetaDir → Store PathBuf → (MetaDir × Store PathBuf) × Except (Exit String) Unit} {f : MetaDir → MetaDir}

/-- A loop that comes to its end has cleaned up every directory that is meant. -/
theorem cleanupDirs_ok (hclean : ∀ path d data d' data', clean path d data = ((d', data'), .ok ()) → d' = f d)
    {dirs dirs' : List (PathBuf × MetaDir)} {data data' : Store PathBuf}
    (h : cleanupDirs inside clean dirs data = ((dirs', data'), .ok ())) :
    dirs' = dirs.map fun x => (x.1, if inside x.1 then f x.2 else x.2) := by
  induction dirs generalizing dirs' data data' with
  | nil =>
    cases h
    rfl
  | cons x dirs ih =>
    obtain ⟨path, d⟩ := x
    unfold cleanupDirs at h
    by_cases hinside : inside path = true
    · rw [if_pos hinside] at h
      obtain ⟨⟨d₁, data₁⟩, r, hone⟩ : ∃ y r, clean path d data = (y, r) := ⟨_, _, rfl⟩
      cases r with
      | error e => simp [hone] at h
      | ok u =>
        simp only [hone, Prod.mk.injEq] at h
        rw [List.map_cons, if_pos hinside, ← hclean path d data d₁ data₁ hone, ← h.1.1]
        congr 1
        exact ih (Prod.ext (rfl : _ = ((cleanupDirs inside clean dirs data₁).1.1, (cleanupDirs inside clean dirs data₁).1.2)) h.2)
    · rw [if_neg hinside] at h
      simp only [Prod.mk.injEq] at h
      rw [List.map_cons, if_neg hinside, ← h.1.1]
      congr 1
      exact ih (Prod.ext (rfl : _ = ((cleanupDirs inside clean dirs data).1.1, (cleanupDirs inside clean dirs data).1.2)) h.2)

/-- A directory after the loop. -/
theorem dir_map (hnone : f .none = .none) (dirs : List (PathBuf × MetaDir)) (path : PathBuf) :
    ((dirs.map fun x => (x.1, if inside x.1 then f x.2 else x.2)).lookup path).getD .none =
      if inside path then f ((dirs.lookup path).getD .none) else (dirs.lookup path).getD .none := by
  induction dirs with
  | nil => simp [hnone]
  | cons x dirs ih =>
    rw [List.map_cons, List.lookup_cons, List.lookup_cons]
    by_cases hpath : path = x.1
    · simp only [hpath, beq_self_eq_true, Option.getD_some]
    · simp only [beq_eq_false_iff_ne.mpr hpath]
      exact ih

theorem JobDisk.cleanDirs_ok {disk disk' : JobDisk} (hclean : ∀ path d data d' data', clean path d data = ((d', data'), .ok ()) → d' = f d)
    (hnone : f .none = .none) (h : disk.cleanDirs inside clean = (disk', .ok ())) :
    disk'.dirs = (disk.dirs.map fun x => (x.1, if inside x.1 then f x.2 else x.2)) ∧ disk'.progress = disk.progress ∧
      ∀ path, disk'.dir path = if inside path then f (disk.dir path) else disk.dir path := by
  unfold JobDisk.cleanDirs at h
  simp only [Prod.mk.injEq] at h
  have hdirs := cleanupDirs_ok hclean (Prod.ext rfl h.2)
  have heq : disk'.dirs = disk.dirs.map fun x => (x.1, if inside x.1 then f x.2 else x.2) := by rw [← h.1]; exact hdirs
  refine ⟨heq, by rw [← h.1], fun path => ?_⟩
  unfold JobDisk.dir
  rw [heq]
  exact dir_map hnone disk.dirs path

end

/-! ## The next run -/

/-- A directory of a client's download, by its name. -/
def isDownloadDir (base path : PathBuf) : Bool :=
  isChild base path && (path.getLast?).any fun name => "download_".toList.isPrefixOf name.toList

/-- The next run starts with the files with which a first one does; one of several clients, for each of
them. What clients report is put together of all the directories there are. -/
def FirstRun (dataMountPoint protocolDataPath : PathBuf) (uploads : List ClientArchiveConfig) (downloads : List ClientDownloadConfig)
    (disk : JobDisk) : Engine.JobType → Prop
  | .runSh _ => True
  | .download .. =>
    (disk.dir (archiveJobsMetaDir dataMountPoint)).downloader disk.progress = { DownloadFiles.none with progress := disk.progress }
  | .upload .. =>
    (disk.dir (archiveJobsMetaDir dataMountPoint)).uploader disk.progress = { UploadFiles.none with progress := disk.progress }
  | .multiClientUpload .. =>
    (∀ x ∈ disk.dirs, isChild (archiveJobsMetaDir protocolDataPath) x.1 = true → x.2.upload.progress = .missing) ∧
      ∀ c ∈ uploads, (disk.dir (uploadMetaDir (archiveJobsMetaDir protocolDataPath) c)).upload = .none
  | .multiClientDownload .. =>
    (∀ x ∈ disk.dirs, isDownloadDir (archiveJobsMetaDir dataMountPoint) x.1 = true → x.2.downloadProgress = .missing) ∧
      ∀ c ∈ downloads, (disk.dir (downloadMetaDir (archiveJobsMetaDir dataMountPoint) c.clientName)).client = .none

/-- No run reads the progress of an earlier one. -/
theorem DownloadJob.start_progress (job : DownloadJob) (s : DownloadSt) (env : StartEnv) (progress : Doc JobProgress) :
    (job.start { s with files := { s.files with progress } } env).current = (job.start s env).current := by
  have hread : (job.getMetadata { s.files with progress } env).2 = (job.getMetadata s.files env).2 := by
    unfold DownloadJob.getMetadata Downloader.getMetadata ClientDownloader.getMetadata
    cases job.kind with
    | downloader =>
      dsimp only
      split
      · rfl
      · cases orError env.metadata with
        | error e => rfl
        | ok metadata =>
          cases orError env.chunks with
          | error e => rfl
          | ok chunks =>
            unfold saveJobData Doc.save
            cases env.saveMetadata <;> rfl
    | clientDownloader =>
      dsimp only
      split
      · rfl
      · cases orError env.cleanup with
        | error e => rfl
        | ok u =>
          cases orError env.metadata with
          | error e => rfl
          | ok metadata => rfl
  unfold DownloadJob.start
  dsimp only
  rw [hread]
  cases (job.getMetadata s.files env).2 with
  | error e => cases e <;> rfl
  | ok r =>
    obtain ⟨metadata, chunks⟩ := r
    dsimp only
    cases checkDiskSpace env.availableSpace metadata chunks with
    | error e => rfl
    | ok u =>
      dsimp only
      split <;> rfl

theorem UploadJob.start_progress (job : UploadJob) (s : UploadSt) (env : UploadStartEnv) (progress : Doc JobProgress) :
    (job.start { s with files := { s.files with progress } } env).current = (job.start s env).current := by
  have hbegin : ∀ (s' : UploadSt) (files : UploadFiles) (slots : Nat) (blueprint : UploadBlueprint) (uploaded : List Chunk),
      (job.beginRun { s' with files } slots blueprint uploaded).current = (job.beginRun s' slots blueprint uploaded).current := by
    intro s' files slots blueprint uploaded
    unfold UploadJob.beginRun
    cases uploaded.foldlM markUploaded blueprint.manifest.chunks <;> rfl
  have hfail : ∀ (s' : UploadSt) (files : UploadFiles) (e : Exit String),
      (UploadJob.fail { s' with files } e).current = (UploadJob.fail s' e).current := by
    intro s' files e
    cases e <;> rfl
  unfold UploadJob.start
  cases job.newTotalSlots env with
  | error e => exact hfail s _ _
  | ok slots =>
    have hload : UploadJob.loadBlueprint { s.files with progress } env = UploadJob.loadBlueprint s.files env := rfl
    dsimp only
    rw [hload]
    cases UploadJob.loadBlueprint s.files env with
    | ok blueprint =>
      dsimp only
      cases loadChunks s.files.chunks with
      | error e => exact hfail s _ _
      | ok uploaded => exact hbegin s _ _ _ _
    | error e =>
      dsimp only
      cases job.newBlueprint slots env with
      | error e => exact hfail s _ _
      | ok r =>
        obtain ⟨blueprint, uploadSlots⟩ := r
        unfold saveJobData Doc.save
        dsimp only
        cases env.saveBlueprint.result "failed to save job data" with
        | error e => cases e <;> rfl
        | ok u =>
          unfold UploadJob.beginRun
          dsimp only [List.foldlM_nil]
          rfl

/-- A run after a cleanup goes on as a first one does. -/
theorem FirstRun.download_start {dataMountPoint protocolDataPath : PathBuf} {uploads : List ClientArchiveConfig}
    {downloads : List ClientDownloadConfig} {disk : JobDisk} {maxConnections maxRunners : Option Nat}
    (h : FirstRun dataMountPoint protocolDataPath uploads downloads disk (.download maxConnections maxRunners)) (job : DownloadJob)
    (s : DownloadSt) (env : StartEnv) :
    (job.start { s with files := (disk.dir (archiveJobsMetaDir dataMountPoint)).downloader disk.progress } env).current =
      (job.start { s with files := .none } env).current := by
  have hfiles : (disk.dir (archiveJobsMetaDir dataMountPoint)).downloader disk.progress = { DownloadFiles.none with progress := disk.progress } := h
  rw [hfiles]
  exact job.start_progress { s with files := .none } env disk.progress

theorem FirstRun.upload_start {dataMountPoint protocolDataPath : PathBuf} {uploads : List ClientArchiveConfig}
    {downloads : List ClientDownloadConfig} {disk : JobDisk} {exclude : Option (List String)} {compression : Option Compression}
    {maxConnections maxRunners numberOfChunks urlExpiresSecs dataVersion : Option Nat}
    (h : FirstRun dataMountPoint protocolDataPath uploads downloads disk
      (.upload exclude compression maxConnections maxRunners numberOfChunks urlExpiresSecs dataVersion)) (job : UploadJob)
    (s : UploadSt) (env : UploadStartEnv) :
    (job.start { s with files := (disk.dir (archiveJobsMetaDir dataMountPoint)).uploader disk.progress } env).current =
      (job.start { s with files := .none } env).current := by
  have hfiles : (disk.dir (archiveJobsMetaDir dataMountPoint)).uploader disk.progress = { UploadFiles.none with progress := disk.progress } := h
  rw [hfiles]
  exact job.start_progress { s with files := .none } env disk.progress

/-- What a cleanup does not see to: of the jobs of several clients nothing but the blueprint and the
chunks of an upload whose directories are those that it looks through. -/
def NothingLeft (dataMountPoint protocolDataPath : PathBuf) (uploads : List ClientArchiveConfig) (downloads : List ClientDownloadConfig)
    (disk : JobDisk) : Engine.JobType → Prop
  | .multiClientUpload .. =>
    (∀ x ∈ disk.dirs, isChild (archiveJobsMetaDir protocolDataPath) x.1 = true → x.2.upload.progress = .missing) ∧
      ∀ c ∈ uploads,
        let path := uploadMetaDir (archiveJobsMetaDir protocolDataPath) c
        (disk.dir path).upload.progress = .missing ∧
          (isChild (archiveJobsMetaDir dataMountPoint) path = true ∨
            ((disk.dir path).upload.blueprint = .missing ∧ (disk.dir path).upload.chunks = .empty))
  | .multiClientDownload .. =>
    (∀ x ∈ disk.dirs, isDownloadDir (archiveJobsMetaDir dataMountPoint) x.1 = true → x.2.downloadProgress = .missing) ∧
      ∀ c ∈ downloads, (disk.dir (downloadMetaDir (archiveJobsMetaDir dataMountPoint) c.clientName)).client = .none
  | _ => True

theorem all_map {g : MetaDir → Prop} {f : MetaDir → MetaDir} (hf : ∀ d, g (f d) ↔ g d) (inside p : PathBuf → Bool)
    (dirs : List (PathBuf × MetaDir)) :
    (∀ x ∈ dirs.map fun x => (x.1, if inside x.1 then f x.2 else x.2), p x.1 = true → g x.2) ↔ ∀ x ∈ dirs, p x.1 = true → g x.2 := by
  rw [List.forall_mem_map]
  refine forall₂_congr fun x _ => imp_congr_right fun _ => ?_
  dsimp only
  split
  · exact hf x.2
  · rfl

/-- **When the run after a cleanup is like a first one.** -/
theorem cleanup_firstRun {dataMountPoint protocolDataPath : PathBuf} {env : JobCleanupEnv} {disk disk' : JobDisk}
    {jobType : Engine.JobType} (uploads : List ClientArchiveConfig) (downloads : List ClientDownloadConfig)
    (h : disk.cleanup dataMountPoint protocolDataPath env jobType = (disk', .ok ())) :
    FirstRun dataMountPoint protocolDataPath uploads downloads disk' jobType ↔
      NothingLeft dataMountPoint protocolDataPath uploads downloads disk jobType := by
  have hdownload : ∀ path d data d' data', Downloader.cleanupJob protocolDataPath (env.download path) d data = ((d', data'), .ok ()) →
      d' = d.noDownload := fun _ _ _ _ _ => Downloader.cleanupJob_ok
  have hupload : ∀ path d data d' data', MetaDir.cleanupUpload (env.upload path) d data = ((d', data'), .ok ()) →
      d' = d.noUpload := fun _ _ _ _ _ => MetaDir.cleanupUpload_ok
  unfold JobDisk.cleanup at h
  cases jobType with
  | runSh body => exact Iff.rfl
  | download maxConnections maxRunners =>
    obtain ⟨-, hprogress, hdir⟩ := JobDisk.cleanDirs_ok hdownload rfl h
    simp only [FirstRun, NothingLeft, iff_true]
    rw [hdir, if_pos (decide_eq_true rfl)]
    rfl
  | upload =>
    obtain ⟨-, hprogress, hdir⟩ := JobDisk.cleanDirs_ok hupload rfl h
    simp only [FirstRun, NothingLeft, iff_true]
    rw [hdir, if_pos (decide_eq_true rfl)]
    rfl
  | multiClientUpload =>
    cases hread : env.readDir with
    | error e => simp [hread] at h
    | ok u =>
      rw [hread] at h
      obtain ⟨hdirs, -, hdir⟩ := JobDisk.cleanDirs_ok hupload rfl h
      simp only [FirstRun, NothingLeft, hdirs]
      refine and_congr (all_map (f := MetaDir.noUpload) (g := fun d => d.upload.progress = .missing)
        (fun _ => Iff.rfl) _ _ disk.dirs)
        (forall₂_congr fun c _ => ?_)
      rw [hdir]
      split
      · rename_i hchild
        simp [MetaDir.noUpload, UploadFiles.none, hchild]
      · rename_i hchild
        simp only [hchild, Bool.false_eq_true, false_or]
        generalize (disk.dir (uploadMetaDir (archiveJobsMetaDir protocolDataPath) c)).upload = files
        obtain ⟨blueprint, chunks, progress⟩ := files
        simp only [UploadFiles.none, UploadFiles.mk.injEq]
        tauto
  | multiClientDownload =>
    cases hread : env.readDir with
    | error e => simp [hread] at h
    | ok u =>
      rw [hread] at h
      obtain ⟨hdirs, -, hdir⟩ := JobDisk.cleanDirs_ok hdownload rfl h
      simp only [FirstRun, NothingLeft, hdirs]
      refine and_congr (all_map (f := MetaDir.noDownload) (g := fun d => d.downloadProgress = .missing)
        (fun _ => Iff.rfl) _ _ disk.dirs)
        (forall₂_congr fun c _ => ?_)
      rw [hdir]
      split <;> rfl

/-- A cleanup in which nothing fails. -/
def JobCleanupEnv.clean : JobCleanupEnv := ⟨.ok (), fun _ => ⟨.none, none, .none, .none⟩, fun _ => ⟨.none, .none⟩⟩

/-- A disk with one directory of archive jobs, below that of the data. -/
def JobDisk.one (path : PathBuf) (d : MetaDir) : JobDisk := ⟨[("blockjoy" :: path, d)], fun _ => none, .missing⟩

theorem cleanup_firstRun_download : FirstRun ["blockjoy"] ["blockjoy", "protocol_data"] [] []
    ((JobDisk.one [".babel_jobs"] { MetaDir.none with downloadMetadata := .whole ⟨100, none, 2, 1⟩ }).cleanup
      ["blockjoy"] ["blockjoy", "protocol_data"] .clean (.download none none)).1 (.download none none) :=
  (cleanup_firstRun [] [] (Prod.ext rfl rfl)).mpr trivial

/-- The manifest that a client's download has on record is there after the cleanup, and so is the
blueprint of an upload. -/
theorem cleanup_leaves :
    (¬ ∀ (uploads : List ClientArchiveConfig) (downloads : List ClientDownloadConfig) (env : JobCleanupEnv) (disk disk' : JobDisk),
      disk.cleanup ["blockjoy"] ["blockjoy", "protocol_data"] env (.multiClientDownload none none) = (disk', .ok ()) →
      FirstRun ["blockjoy"] ["blockjoy", "protocol_data"] uploads downloads disk' (.multiClientDownload none none)) ∧
    ¬ ∀ (uploads : List ClientArchiveConfig) (downloads : List ClientDownloadConfig) (env : JobCleanupEnv) (disk disk' : JobDisk),
      disk.cleanup ["blockjoy"] ["blockjoy", "protocol_data"] env (.multiClientUpload none none none none) = (disk', .ok ()) →
      FirstRun ["blockjoy"] ["blockjoy", "protocol_data"] uploads downloads disk' (.multiClientUpload none none none none) := by
  constructor
  · intro h
    have hfirst := (h [] [⟨"reth", ["blockjoy", "protocol_data", "reth"], "reth-v1"⟩] .clean
      (.one [".babel_jobs", "download_reth"] { MetaDir.none with manifestHeader := .whole ⟨100, none, 2, 1⟩ }) _
      (Prod.ext rfl rfl)).2 _ (List.mem_cons_self ..)
    revert hfirst
    decide
  · intro h
    have hfirst := (h [⟨"reth", "reth-v1", ["blockjoy", "protocol_data", "reth"]⟩] [] .clean
      (.one ["protocol_data", ".babel_jobs", "reth-v1"]
        { MetaDir.none with upload := { UploadFiles.none with blueprint := .whole ⟨⟨100, none, []⟩, 1, none⟩ } }) _
      (Prod.ext rfl rfl)).2 _ (List.mem_cons_self ..)
    revert hfirst
    decide

end Blockvisor
