/-
The upload job (`Uploader::run`). A run opens the persisted blueprint, or
makes one and saves it; its main loop launches chunk uploaders and puts what
they report on record; with every chunk uploaded it puts the manifest.

`UploadJob.step` takes a run one step further, in any order of its uploaders
and with any failure or kill on the way. What is on disk (`UploadFiles`)
outlives the run. `uploads` and `puts` are ghosts: the uploads reported since
the blueprint on disk was saved, and the manifests put.
-/
import Blockvisor.Babel.Blueprint
import Blockvisor.Babel.ChunkReader
import Blockvisor.Babel.Jobs
import Blockvisor.Lib.Machine

namespace Blockvisor

/-! ## What is on disk -/

/-- The time the protocol data was last changed, when it is stamped. -/
abbrev DataStamp := Option Nat

structure UploadBlueprint where
  manifest : DownloadManifest
  dataVersion : Nat
  dataStamp : DataStamp
  deriving DecidableEq

/-- The files `upload.blueprint`, `upload.chunks` and the progress file. -/
structure UploadFiles where
  blueprint : Doc UploadBlueprint
  chunks : LogFile Chunk
  progress : Doc JobProgress
  deriving DecidableEq

def UploadFiles.none : UploadFiles := ⟨.missing, .empty, .missing⟩

/-- What becomes of the two removals of a cleanup; the cut tells whether the file is gone. -/
structure CleanupEnv where
  blueprint : Fault Bool
  chunks : Fault Bool

/-- `cleanup_job`: the blueprint goes first. -/
def Uploader.cleanupJob (files : UploadFiles) (env : CleanupEnv) : UploadFiles × Except (Exit String) Unit :=
  let files := if env.blueprint.cutOr true then { files with blueprint := .missing } else files
  match env.blueprint.result "failed to cleanup upload blueprint file" with
  | .error e => (files, .error e)
  | .ok () =>
    let files := if env.chunks.cutOr true then { files with chunks := .empty } else files
    (files, env.chunks.result "failed to cleanup upload chunks file")

/-! ## Chunks and slots -/

def assignSlot (slot : Slot) : List Chunk → List Chunk
  | [] => []
  | chunk :: chunks =>
    if chunk.index = slot.index then { chunk with key := slot.key, url := some slot.url } :: chunks
    else chunk :: assignSlot slot chunks

def assignSlots (chunks : List Chunk) (slots : List Slot) : List Chunk :=
  slots.foldl (fun chunks slot => assignSlot slot chunks) chunks

/-- An uploaded chunk takes the place of the first one with its index. -/
def markUploaded : List Chunk → Chunk → Option (List Chunk)
  | [], _ => none
  | item :: items, chunk =>
    if item.index = chunk.index then some (chunk :: items)
    else (markUploaded items chunk).map (item :: ·)

/-! ## The chunk uploaders -/

/-- The launcher of chunk uploaders: the chunks not launched yet, the last one first, and the
chunks being uploaded. -/
structure ParallelChunkUploaders where
  maxRunners : Nat
  chunks : List Chunk
  futures : List Chunk
  dataVersion : Nat

namespace ParallelChunkUploaders

/-- The chunks that are still to be uploaded are those without a size. -/
def new (chunks : List Chunk) (config : TransferConfig) (dataVersion : Nat) : ParallelChunkUploaders where
  maxRunners := min config.maxRunners config.maxOpenedFiles
  chunks := chunks.filter (·.size = 0)
  futures := []
  dataVersion

/-- When the next chunk has no slot, slots are fetched. -/
def updateSlots (u : ParallelChunkUploaders) (slots : Except String UploadSlots) :
    Except String ParallelChunkUploaders :=
  match u.chunks.getLast? with
  | some chunk =>
    if chunk.url = none then slots.map fun slots => { u with chunks := assignSlots u.chunks slots.slots } else .ok u
  | none => .ok u

/-- The launching loop, with `free` runners left. -/
def launch : Nat → ParallelChunkUploaders → ParallelChunkUploaders
  | 0, u => u
  | free + 1, u =>
    match u.chunks.getLast? with
    | none => u
    | some chunk => launch free { u with chunks := u.chunks.dropLast, futures := u.futures ++ [chunk] }

def launchMore (u : ParallelChunkUploaders) : ParallelChunkUploaders := launch (u.maxRunners - u.futures.length) u

end ParallelChunkUploaders

/-- One attempt at a chunk: interrupted, or made with the source files as they are then and the
answer to the request. -/
inductive UploadAttempt where
  | interrupted
  | made (files : Store PathBuf) (spare : Nat) (put : Except String Unit)

/-- A report of an uploaded chunk: the source files it was read from and the data version of its
slot. -/
structure Upload where
  chunk : Chunk
  files : Store PathBuf
  spare : Nat
  dataVersion : Nat

/-! ## A run -/

/-- What a run meets when it starts: the walks of the source directory, by the uploader's
constructor and by the run, the stamps of the data, the slots, and the fate of what is saved. -/
structure UploadStartEnv where
  listed : Except String SourcesList
  stamp : Except String DataStamp
  sources : Except String SourcesList
  slots : Except String UploadSlots
  newStamp : Except String DataStamp
  saveBlueprint : Fault DocCut

/-- What an upload job runs with. -/
structure UploadJob where
  sourceDir : PathBuf
  numberOfChunks : Option Nat
  config : TransferConfig
  hashes : Hashes
  codecs : Codecs

/-- Where the main loop is: about to launch, waiting for an uploader, or past the loop. -/
inductive UploadPhase where
  | launching
  | waiting
  | finishing
  deriving DecidableEq

structure UploadRun where
  blueprint : UploadBlueprint
  totalSlots : Nat
  uploadedChunks : Nat
  run : Bool
  runners : RunnersState UploadError
  uploaders : ParallelChunkUploaders
  phase : UploadPhase

/-- A manifest put, with what was on disk and reported then. -/
structure Put where
  manifest : DownloadManifest
  dataVersion : Nat
  blueprint : Doc UploadBlueprint
  uploads : List Upload

structure UploadSt where
  files : UploadFiles
  uploads : List Upload
  puts : List Put
  current : Option UploadRun
  lastResult : Option (Except String Unit)

def UploadSt.init : UploadSt := ⟨.none, [], [], none, none⟩

/-- What becomes of a report: the record of the chunk and then the progress are saved, or cut. -/
structure SaveUploadedEnv where
  saveChunk : Fault LogCut
  saveProgress : Fault DocCut

/-- What becomes of the end of a run: the answer to the put, and the cleanup. -/
structure UploadFinishEnv where
  put : Fault Unit
  cleanup : CleanupEnv

inductive UploadAct where
  | start (env : UploadStartEnv)
  | shutdown
  | kill
  | launch (slots : Except String UploadSlots)
  | complete (task : Nat) (attempts : Nat → UploadAttempt) (env : SaveUploadedEnv)
  | abort (task : Nat)
  | noFutures
  | stopped
  | finish (env : UploadFinishEnv)
  | cleanup (env : CleanupEnv)

namespace UploadJob

variable (job : UploadJob)

/-- The number of slots of the uploader (`Uploader::new`). -/
def newTotalSlots (env : UploadStartEnv) : Except String Nat :=
  match job.numberOfChunks, env.listed with
  | none, .error e => .error e
  | none, .ok sources => totalSlots none sources
  | some n, _ => totalSlots (some n) ⟨0, [], rfl⟩

/-- The persisted blueprint, when it is of the data as it is. -/
def loadBlueprint (files : UploadFiles) (env : UploadStartEnv) : Except (Exit String) UploadBlueprint :=
  match loadJobData files.blueprint with
  | .error e => .error e
  | .ok blueprint =>
    match env.stamp with
    | .error e => .error (.error e)
    | .ok stamp =>
      if blueprint.dataStamp = stamp then .ok blueprint
      else .error (.error "protocol_data stamp doesn't match, need to start upload from scratch")

/-- A blueprint made from scratch, as it is saved, and the slots fetched for it. -/
def newBlueprint (slots : Nat) (env : UploadStartEnv) : Except String (UploadBlueprint × List Slot) := do
  let sources ← env.sources
  if slots = 0 then .error "attempt to divide by zero"
  else
    let manifest := prepareManifestBlueprint sources slots job.config.compression
    let uploadSlots ← env.slots
    let dataStamp ← env.newStamp
    .ok ({ manifest, dataVersion := uploadSlots.dataVersion, dataStamp }, uploadSlots.slots)

/-- A run ends early. -/
def fail (s : UploadSt) : Exit String → UploadSt
  | .error e => { s with lastResult := some (.error e) }
  | .killed => s

/-- The run proper begins, with the chunks on record marked. -/
def beginRun (s : UploadSt) (slots : Nat) (blueprint : UploadBlueprint) (uploaded : List Chunk) : UploadSt :=
  match uploaded.foldlM markUploaded blueprint.manifest.chunks with
  | none => fail s (.error "internal error - finished upload of chunk that doesn't exists in manifest")
  | some chunks =>
    { s with
      current := some
        { blueprint := { blueprint with manifest := { blueprint.manifest with chunks } }
          totalSlots := slots
          uploadedChunks := uploaded.length % u32Size
          run := true
          runners := ⟨none, true⟩
          uploaders := .new chunks job.config blueprint.dataVersion
          phase := .launching } }

/-- The start of `run`, up to its loop. -/
def start (s : UploadSt) (env : UploadStartEnv) : UploadSt :=
  match job.newTotalSlots env with
  | .error e => fail s (.error e)
  | .ok slots =>
    match loadBlueprint s.files env with
    | .ok blueprint =>
      match loadChunks s.files.chunks with
      | .error e => fail s e
      | .ok uploaded => job.beginRun s slots blueprint uploaded
    | .error _ =>
      match job.newBlueprint slots env with
      | .error e => fail s (.error e)
      | .ok (blueprint, uploadSlots) =>
        let (blueprintFile, saved) := saveJobData s.files.blueprint blueprint env.saveBlueprint
        -- ghost: nothing is uploaded yet for a blueprint that is now on disk
        let uploads := if env.saveBlueprint.cutOr .whole = .whole then [] else s.uploads
        let s := { s with files := { s.files with blueprint := blueprintFile }, uploads }
        match saved with
        | .error e => fail s e
        | .ok () =>
          job.beginRun s slots
            { blueprint with manifest :=
                { blueprint.manifest with chunks := assignSlots blueprint.manifest.chunks uploadSlots } } []

/-- The top of the loop. -/
def launch (s : UploadSt) (r : UploadRun) (slots : Except String UploadSlots) : Option UploadSt :=
  if r.phase ≠ .launching then none
  else if r.run = false then some { s with current := some { r with phase := .finishing } }
  else
    let r := { r with phase := .waiting }
    if r.runners.run then
      match r.uploaders.updateSlots slots with
      | .error e => some { s with current := some { r with runners := r.runners.handleError (.other e) } }
      | .ok uploaders => some { s with current := some { r with uploaders := uploaders.launchMore } }
    else some { s with current := some r }

/-- `ChunkUploader::run`: a failed attempt is made again, `retries` times. -/
def uploadWithRetry (chunk : Chunk) (attempts : Nat → UploadAttempt) :
    (retries attempt : Nat) → Except UploadError (Chunk × Store PathBuf × Nat)
  | 0, attempt => once (attempts attempt)
  | retries + 1, attempt =>
    match once (attempts attempt) with
    | .ok res => .ok res
    | .error _ => uploadWithRetry chunk attempts retries (attempt + 1)
where
  once : UploadAttempt → Except UploadError (Chunk × Store PathBuf × Nat)
    | .interrupted => .error (.other "upload interrupted")
    | .made files spare put =>
      (uploadChunk files job.hashes job.codecs job.config spare put chunk).map fun r => (r.2, files, spare)

/-- A reported chunk is put on record and marked, and the progress saved (`save_uploaded`). -/
def saveUploaded (s : UploadSt) (r : UploadRun) (chunk : Chunk) (env : SaveUploadedEnv) :
    (UploadSt × UploadRun) × Except (Exit String) Unit :=
  let (chunks, saved) := saveChunk s.files.chunks chunk env.saveChunk
  let s := { s with files := { s.files with chunks } }
  match saved with
  | .error e => ((s, r), .error e)
  | .ok () =>
    match markUploaded r.blueprint.manifest.chunks chunk with
    | none =>
      ((s, r), .error (.error "internal error - finished upload of chunk that doesn't exists in manifest"))
    | some chunks =>
      let r := { r with
        blueprint := { r.blueprint with manifest := { r.blueprint.manifest with chunks } }
        uploadedChunks := (r.uploadedChunks + 1) % u32Size }
      let (progress, saved) := saveJobData s.files.progress ⟨r.totalSlots, r.uploadedChunks, "chunks"⟩ env.saveProgress
      (({ s with files := { s.files with progress } }, r), saved)

/-- A task of the main loop is over. -/
def takeTask (r : UploadRun) (i : Nat) : UploadRun :=
  { r with uploaders := { r.uploaders with futures := r.uploaders.futures.eraseIdx i }, phase := .launching }

/-- The main loop gets the result of a chunk uploader. -/
def complete (s : UploadSt) (r : UploadRun) (i : Nat) (attempts : Nat → UploadAttempt) (env : SaveUploadedEnv) :
    Option UploadSt :=
  if r.phase ≠ .waiting then none
  else
    match r.uploaders.futures[i]? with
    | none => none
    | some chunk =>
      let r := takeTask r i
      match job.uploadWithRetry chunk attempts job.config.maxRetries 0 with
      | .error e => some { s with current := some { r with runners := r.runners.handleError e } }
      | .ok (chunk, files, spare) =>
        let s := { s with uploads := s.uploads ++ [⟨chunk, files, spare, r.uploaders.dataVersion⟩] }
        match saveUploaded s r chunk env with
        | ((s, r), .ok ()) => some { s with current := some r }
        | ((s, r), .error (.error e)) =>
          some { s with current := some { r with runners := r.runners.handleError (.other e) } }
        | ((s, _), .error .killed) => some { s with current := none }

/-- The main loop gets the death of a chunk uploader. -/
def abort (s : UploadSt) (r : UploadRun) (i : Nat) : Option UploadSt :=
  if r.phase ≠ .waiting then none
  else
    match r.uploaders.futures[i]? with
    | none => none
    | some _ =>
      let r := takeTask r i
      some { s with current := some { r with runners := r.runners.handleError (.other "task panicked") } }

/-- The run is over, after its cleanup or without one. -/
def cleanup (s : UploadSt) (env : CleanupEnv) (result : Except (Exit String) Unit) : UploadSt :=
  let (files, cleaned) := Uploader.cleanupJob s.files env
  let s := { s with files, current := none }
  match cleaned with
  | .error e => fail s e
  | .ok () =>
    match result with
    | .ok () => { s with lastResult := some (.ok ()) }
    | .error e => fail s e

/-- The end of a run without errors: the manifest is put, its destinations relative to the source
directory. -/
def putManifest (s : UploadSt) (r : UploadRun) (env : UploadFinishEnv) : UploadSt :=
  match r.blueprint.manifest.chunks.mapM (Chunk.relativeTo job.sourceDir) with
  | none => fail { s with current := none } (.error "prefix not found")
  | some chunks =>
    let manifest := { r.blueprint.manifest with chunks }
    let s := { s with puts := s.puts ++ [⟨manifest, r.blueprint.dataVersion, s.files.blueprint, s.uploads⟩] }
    match env.put.result "failed to send DownloadManifest blueprint back to API" with
    | .ok () => cleanup s env.cleanup (.ok ())
    | .error e => fail { s with current := none } e

/-- The end of a run. -/
def finish (s : UploadSt) (r : UploadRun) (env : UploadFinishEnv) : UploadSt :=
  match r.runners.result with
  | some (.nonRecoverable _) => cleanup s env.cleanup (.error (.error "upload failed"))
  | some (.other e) => fail { s with current := none } (.error e)
  | none =>
    if r.run = false then fail { s with current := none } (.error "upload interrupted")
    else job.putManifest s r env

/-- One step of a run. -/
def stepRun (s : UploadSt) (r : UploadRun) : UploadAct → Option UploadSt
  | .start _ => none
  | .shutdown => some { s with current := some { r with run := false, runners := { r.runners with run := false } } }
  | .kill => some { s with current := none }
  | .launch slots => launch s r slots
  | .complete i attempts env => job.complete s r i attempts env
  | .abort i => abort s r i
  | .noFutures =>
    if r.phase = .waiting ∧ r.uploaders.futures.isEmpty then
      some { s with current := some { r with phase := .finishing } }
    else none
  | .stopped =>
    if r.phase = .waiting ∧ r.run = false then some { s with current := some { r with phase := .finishing } }
    else none
  | .finish env => if r.phase = .finishing then some (job.finish s r env) else none
  | .cleanup _ => none

def step (s : UploadSt) (a : UploadAct) : Option UploadSt :=
  match s.current, a with
  | none, .start env => some (job.start s env)
  | none, .cleanup env => some (cleanup s env (.ok ()))
  | none, _ => none
  | some r, a => job.stepRun s r a

end UploadJob

end Blockvisor
