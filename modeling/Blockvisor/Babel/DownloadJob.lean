/-
The download job: `Downloader` and `ClientDownloader` as one machine over
their shared parts, each with its own `get_metadata` and `launch_more`.

A run is three kinds of tasks: the main loop, which launches chunk downloaders
and waits for them; the chunk downloaders, each of which sends what
`downloadChunk` sends against some server; and the writer at the other end of
the channel. `DownloadJob.step` takes one of them one step, in any order, with
any failure or kill on the way. What is on disk (`DownloadFiles`) outlives the
run. `recorded` is a ghost: the indexes of the chunks whose `EndOfChunk` the
writer has put on record.
-/
import Blockvisor.Babel.Jobs
import Blockvisor.Babel.ChunkWriter
import Blockvisor.Lib.Machine

namespace Blockvisor

/-! ## The metadata of a run -/

/-- The files of a download job: for `Downloader` `download.metadata`, `download.chunks` and
`download.parts`, for `ClientDownloader` `manifest-header.json` and `manifest-data.json`. -/
structure DownloadFiles where
  metadata : Doc DownloadMetadata
  chunks : LogFile Chunk
  parts : LogFile Chunk
  progress : Doc JobProgress
  deriving DecidableEq

def DownloadFiles.none : DownloadFiles := ⟨.missing, .empty, .empty, .missing⟩

/-- What a run meets when it starts: the answers of the API, the fate of what it saves, and the
space on the disk. -/
structure StartEnv where
  metadata : Except String DownloadMetadata
  chunks : Except String (List Chunk)
  cleanup : Except String Unit
  saveMetadata : Fault DocCut
  saveChunks : Fault DocCut
  availableSpace : Except String Nat

def orError {α : Type} (r : Except String α) : Except (Exit String) α := r.mapError .error

/-- The metadata of the download and the chunks taken as downloaded already. -/
def Downloader.getMetadata (files : DownloadFiles) (env : StartEnv) :
    DownloadFiles × Except (Exit String) (DownloadMetadata × List Chunk) :=
  if files.metadata ≠ .missing then
    (files, do
      let metadata ← loadJobData files.metadata
      let chunks ← loadChunks files.chunks
      .ok (metadata, chunks))
  else
    match orError env.metadata, orError env.chunks with
    | .error e, _ => (files, .error e)
    | _, .error e => (files, .error e)
    | .ok metadata, .ok chunks =>
      let (metadataFile, saved) := saveJobData files.metadata metadata env.saveMetadata
      let files := { files with metadata := metadataFile }
      match saved with
      | .error e => (files, .error e)
      | .ok () =>
        -- the chunks are saved as one document, in the file that is read as a log
        let files := { files with chunks := files.chunks.overwrite (env.saveChunks.cutOr .whole) }
        (files, (env.saveChunks.result "failed to save job data").map fun _ => (metadata, chunks))

/-- The same for a client: without a header the leftovers of a `Downloader` are removed first
(`cleanup_job`, over files this job never writes), and no chunk is taken as downloaded. -/
def ClientDownloader.getMetadata (files : DownloadFiles) (env : StartEnv) :
    DownloadFiles × Except (Exit String) (DownloadMetadata × List Chunk) :=
  if files.metadata ≠ .missing then
    (files, do
      let metadata ← loadJobData files.metadata
      let chunks ← loadChunks files.chunks
      .ok (metadata, chunks))
  else
    match orError env.cleanup, orError env.metadata with
    | .error e, _ => (files, .error e)
    | _, .error e => (files, .error e)
    | .ok (), .ok metadata =>
      let (metadataFile, saved) := saveJobData files.metadata metadata env.saveMetadata
      ({ files with metadata := metadataFile }, saved.map fun _ => (metadata, []))

def requiredDiskSpace (metadata : DownloadMetadata) (downloadedChunks : List Chunk) : Except String Nat :=
  let downloadedBytes := (downloadedChunks.map (·.dataSize)).sum
  if downloadedBytes ≤ metadata.totalSize then .ok (metadata.totalSize - downloadedBytes)
  else .error "invalid download manifest - total_size is smaller than already downloaded data"

def checkDiskSpace (available : Except String Nat) (metadata : DownloadMetadata) (downloadedChunks : List Chunk) :
    Except String Unit := do
  let availableSpace ← available
  let requiredSpace ← requiredDiskSpace metadata downloadedChunks
  if availableSpace < requiredSpace then
    .error s!"Can't download {requiredSpace} bytes of data while only {availableSpace} available"

/-! ## The chunk downloaders -/

/-- A chunk downloader at work: what it has still to send, and how it ends. -/
structure ChunkTask where
  chunk : Chunk
  messages : List ChunkData
  result : Except String Unit

/-- The launcher of chunk downloaders (`ParallelChunkDownloaders`, `ClientChunkDownloaders`). The
indexes are a hash set, the chunks fetched and not launched yet a stack with its top first.
`launched` is a ghost: the indexes handed to a downloader. -/
structure ParallelChunkDownloaders where
  maxRunners : Nat
  chunkIndexes : List Nat
  chunks : List Chunk
  futures : List ChunkTask
  launched : List Nat

/-- What a launch meets: the order the hash set is iterated in, the answer to the request for
chunks, the fate of each record of a part, and the server of each chunk downloader. -/
structure LaunchEnv where
  requested : List Nat
  reply : Except String (List Chunk)
  saveParts : Nat → Fault LogCut
  server : Nat → Server

inductive DownloaderKind where
  | downloader
  | clientDownloader
  deriving DecidableEq

/-- A download job: which downloader it is, and what it runs with. -/
structure DownloadJob where
  kind : DownloaderKind
  config : TransferConfig
  hashes : Hashes
  codecs : Codecs

namespace ParallelChunkDownloaders

def new (maxRunners totalChunksCount : Nat) (downloadedIndexes : List Nat) : ParallelChunkDownloaders where
  maxRunners
  chunkIndexes := (List.range totalChunksCount).filter (· ∉ downloadedIndexes)
  chunks := []
  futures := []
  launched := []

/-- The first `max_runners` indexes the hash set is iterated in are some of its indexes. -/
def Requests (d : ParallelChunkDownloaders) (requested : List Nat) : Prop :=
  requested.Nodup ∧ (∀ i ∈ requested, i ∈ d.chunkIndexes) ∧
    requested.length = min d.maxRunners d.chunkIndexes.length

instance (d : ParallelChunkDownloaders) (requested : List Nat) : Decidable (d.Requests requested) :=
  inferInstanceAs (Decidable (_ ∧ _ ∧ _))

/-- Whether a launch asks for more chunks. -/
def Fetches (d : ParallelChunkDownloaders) : Prop := d.chunkIndexes ≠ [] ∧ d.chunks = []

instance (d : ParallelChunkDownloaders) : Decidable d.Fetches := inferInstanceAs (Decidable (_ ∧ _))

def remove (d : ParallelChunkDownloaders) (index : Nat) : ParallelChunkDownloaders :=
  { d with chunkIndexes := d.chunkIndexes.filter (· ≠ index) }

def spawn (d : ParallelChunkDownloaders) (job : DownloadJob) (config : TransferConfig) (env : LaunchEnv)
    (chunk : Chunk) : ParallelChunkDownloaders :=
  let task := downloadChunk job.hashes job.codecs config (env.server chunk.index) chunk
  { d with
    futures := d.futures ++ [⟨chunk, task.1, task.2⟩]
    launched := d.launched ++ [chunk.index] }

/-- The launching loop of `Downloader`: the stack of chunks is popped while there are runners. -/
def launchChunks (job : DownloadJob) (config : TransferConfig) (env : LaunchEnv) :
    List Chunk → ParallelChunkDownloaders → LogFile Chunk →
      (ParallelChunkDownloaders × LogFile Chunk) × Except (Exit String) Unit
  | [], d, parts => (({ d with chunks := [] }, parts), .ok ())
  | chunk :: rest, d, parts =>
    if d.futures.length < d.maxRunners then
      if chunk.index ∈ d.chunkIndexes then
        let (parts, saved) := saveChunk parts chunk (env.saveParts chunk.index)
        match saved with
        | .error e => (({ d.remove chunk.index with chunks := rest }, parts), .error e)
        | .ok () => launchChunks job config env rest ((d.remove chunk.index).spawn job config env chunk) parts
      else
        -- skip already downloaded chunks
        launchChunks job config env rest d parts
    else (({ d with chunks := chunk :: rest }, parts), .ok ())

/-- The launching loop of `ClientDownloader`: whether the index was still there is not asked, and
no part is recorded. -/
def launchClientChunks (job : DownloadJob) (config : TransferConfig) (env : LaunchEnv) :
    List Chunk → ParallelChunkDownloaders → ParallelChunkDownloaders
  | [], d => { d with chunks := [] }
  | chunk :: rest, d =>
    if d.futures.length < d.maxRunners then
      launchClientChunks job config env rest ((d.remove chunk.index).spawn job config env chunk)
    else { d with chunks := chunk :: rest }

/-- Chunks are fetched when there are none left to launch. -/
def fetch (d : ParallelChunkDownloaders) (env : LaunchEnv) : Except String (List Chunk) :=
  if d.chunks = [] then env.reply.map List.reverse else .ok d.chunks

def launchMore (job : DownloadJob) (config : TransferConfig) (env : LaunchEnv) (d : ParallelChunkDownloaders)
    (parts : LogFile Chunk) : (ParallelChunkDownloaders × LogFile Chunk) × Except (Exit String) Unit :=
  if d.chunkIndexes ≠ [] then
    match d.fetch env with
    | .error e => ((d, parts), .error (.error e))
    | .ok chunks =>
      match job.kind with
      | .downloader => launchChunks job config env chunks d parts
      | .clientDownloader => ((launchClientChunks job config env chunks d, parts), .ok ())
  else ((d, parts), .ok ())

end ParallelChunkDownloaders

/-! ## A run -/

/-- The writer's task: about to look at its flag, waiting for a message, or done. -/
inductive WriterTask where
  | checking (downloadedChunks : List Chunk)
  | awaiting (downloadedChunks : List Chunk)
  | done (result : Except String (List Chunk))

/-- Where the main loop is: about to launch, waiting for a downloader, or waiting for the writer. -/
inductive MainPhase where
  | launching
  | waiting
  | joining
  deriving DecidableEq

structure DownloadRun where
  metadata : DownloadMetadata
  downloadedIndexes : List Nat
  run : Bool
  runners : RunnersState String
  downloaders : ParallelChunkDownloaders
  phase : MainPhase
  channel : List ChunkData
  writer : WriterTask

structure DownloadSt where
  files : DownloadFiles
  recorded : List Nat
  current : Option DownloadRun
  lastResult : Option (Except String Unit)

def DownloadSt.init : DownloadSt := ⟨.none, [], none, none⟩

/-- The fate of one message at the writer: a file part fails to be written or not; the record of a
chunk and then the progress are saved, or cut. -/
structure WriteEnv where
  filePart : Fault Unit
  saveChunk : Fault LogCut
  saveProgress : Fault DocCut

inductive DownloadAct where
  | start (env : StartEnv)
  | shutdown
  | kill
  | launch (env : LaunchEnv)
  | send (task : Nat)
  | abort (task : Nat)
  | complete (task : Nat)
  | noFutures
  | poll
  | receive (env : WriteEnv)
  | disconnected
  | finish

/-- The writer handles a message: the files, the record, and its result. -/
def writeChunkData (env : WriteEnv) (totalChunksCount : Nat) (downloadedChunks : List Chunk) (s : DownloadSt) :
    ChunkData → DownloadSt × Except (Exit String) (List Chunk)
  | .filePart _ _ _ => (s, (env.filePart.result "failed to write file").map fun _ => downloadedChunks)
  | .endOfChunk chunk =>
    let (chunks, saved) := Blockvisor.saveChunk s.files.chunks chunk env.saveChunk
    let recorded := if (env.saveChunk.cutOr .complete).recorded then s.recorded ++ [chunk.index] else s.recorded
    let s := { s with files := { s.files with chunks }, recorded }
    match saved with
    | .error e => (s, .error e)
    | .ok () =>
      let downloadedChunks := downloadedChunks ++ [chunk]
      let (progress, saved) := saveJobData s.files.progress
        ⟨totalChunksCount, downloadedChunks.length % u32Size, "chunks"⟩ env.saveProgress
      ({ s with files := { s.files with progress } }, saved.map fun _ => downloadedChunks)

namespace DownloadJob

variable (job : DownloadJob)

def getMetadata (files : DownloadFiles) (env : StartEnv) :
    DownloadFiles × Except (Exit String) (DownloadMetadata × List Chunk) :=
  match job.kind with
  | .downloader => Downloader.getMetadata files env
  | .clientDownloader => ClientDownloader.getMetadata files env

/-- The number of chunk downloaders at a time; a client's is bounded by the files it may open. -/
def maxRunners : Nat :=
  match job.kind with
  | .downloader => job.config.maxRunners
  | .clientDownloader => min job.config.maxRunners job.config.maxOpenedFiles

/-- The start of `run`, up to its loop. -/
def start (s : DownloadSt) (env : StartEnv) : DownloadSt :=
  let (files, r) := job.getMetadata s.files env
  let s := { s with files }
  match r with
  | .error .killed => s
  | .error (.error e) => { s with lastResult := some (.error e) }
  | .ok (metadata, downloadedChunks) =>
    match checkDiskSpace env.availableSpace metadata downloadedChunks with
    | .error e => { s with lastResult := some (.error e) }
    | .ok () =>
      let downloadedIndexes := downloadedChunks.map (·.index)
      if job.config.maxRunners = 0 then
        -- a channel without a buffer panics
        { s with lastResult := some (.error "mpsc bounded channel requires buffer > 0") }
      else
        { s with
          current := some
            { metadata
              downloadedIndexes
              run := true
              runners := ⟨none, true⟩
              downloaders := .new job.maxRunners metadata.chunks downloadedIndexes
              phase := .launching
              channel := []
              writer := .checking downloadedChunks } }

/-- The result of a run whose writer is done (`unify_file_times` only warns). -/
def runResult (r : DownloadRun) (writer : Except String (List Chunk)) : Except String Unit :=
  match writer, r.runners.result with
  | .error e, _ => .error e
  | .ok _, some e => .error e
  | .ok _, none => if r.run then .ok () else .error "download interrupted"

/-- The main loop launches, unless its runners are stopped. -/
def launch (s : DownloadSt) (r : DownloadRun) (env : LaunchEnv) : Option DownloadSt :=
  if r.phase ≠ .launching then none
  else if r.runners.run = false then some { s with current := some { r with phase := .waiting } }
  else if r.downloaders.Fetches ∧ ¬ r.downloaders.Requests env.requested then none
  else
    let config := { job.config with compression := r.metadata.compression }
    let ((downloaders, parts), result) := r.downloaders.launchMore job config env s.files.parts
    let s := { s with files := { s.files with parts } }
    let r := { r with downloaders, phase := .waiting }
    match result with
    | .ok () => some { s with current := some r }
    | .error (.error e) => some { s with current := some { r with runners := r.runners.handleError e } }
    | .error .killed => some { s with current := none }

def setTask (r : DownloadRun) (i : Nat) (t : ChunkTask) : DownloadRun :=
  { r with downloaders := { r.downloaders with futures := r.downloaders.futures.set i t } }

/-- A chunk downloader sends its next message; with the writer gone that is an error. -/
def send (s : DownloadSt) (r : DownloadRun) (i : Nat) : Option DownloadSt :=
  match r.downloaders.futures[i]? with
  | none => none
  | some t =>
    match t.messages, r.writer with
    | [], _ => none
    | _ :: _, .done _ =>
      some { s with current := some (setTask r i { t with messages := [], result := .error "channel closed" }) }
    | m :: messages, _ =>
      if r.channel.length < job.config.maxRunners then
        some { s with current := some { setTask r i { t with messages } with channel := r.channel ++ [m] } }
      else none

/-- A chunk downloader's task dies. -/
def abort (s : DownloadSt) (r : DownloadRun) (i : Nat) : Option DownloadSt :=
  match r.downloaders.futures[i]? with
  | none => none
  | some t =>
    some { s with current := some (setTask r i { t with messages := [], result := .error "task panicked" }) }

/-- The main loop gets the result of a chunk downloader that has sent everything. -/
def complete (s : DownloadSt) (r : DownloadRun) (i : Nat) : Option DownloadSt :=
  if r.phase ≠ .waiting then none
  else
    match r.downloaders.futures[i]? with
    | none => none
    | some t =>
      if t.messages ≠ [] then none
      else
        let r := { r with
          downloaders := { r.downloaders with futures := r.downloaders.futures.eraseIdx i }
          phase := .launching }
        match t.result with
        | .ok () => some { s with current := some r }
        | .error e => some { s with current := some { r with runners := r.runners.handleError e } }

/-- The writer takes a message it waited for. -/
def receive (s : DownloadSt) (r : DownloadRun) (env : WriteEnv) : Option DownloadSt :=
  match r.writer, r.channel with
  | .awaiting downloadedChunks, m :: channel =>
    let (s, result) := writeChunkData env r.metadata.chunks downloadedChunks s m
    match result with
    | .ok downloadedChunks => some { s with current := some { r with channel, writer := .checking downloadedChunks } }
    | .error (.error e) =>
      -- the writer stops the runners and ends
      some { s with
        current := some { r with channel, writer := .done (.error e), runners := { r.runners with run := false } } }
    | .error .killed => some { s with current := none }
  | _, _ => none

/-- One step of one of the tasks of a run. -/
def stepRun (s : DownloadSt) (r : DownloadRun) : DownloadAct → Option DownloadSt
  | .start _ => none
  | .shutdown =>
    some { s with current := some { r with run := false, runners := { r.runners with run := false } } }
  | .kill => some { s with current := none }
  | .launch env => job.launch s r env
  | .send i => job.send s r i
  | .abort i => abort s r i
  | .complete i => complete s r i
  | .noFutures =>
    if r.phase = .waiting ∧ r.downloaders.futures.isEmpty then some { s with current := some { r with phase := .joining } }
    else none
  | .poll =>
    match r.writer with
    | .checking downloadedChunks =>
      let writer := if r.runners.run then .awaiting downloadedChunks else .done (.ok downloadedChunks)
      some { s with current := some { r with writer } }
    | _ => none
  | .receive env => receive s r env
  | .disconnected =>
    match r.writer with
    | .awaiting downloadedChunks =>
      if r.channel.isEmpty ∧ r.phase = .joining then
        some { s with current := some { r with writer := .done (.ok downloadedChunks) } }
      else none
    | _ => none
  | .finish =>
    match r.writer with
    | .done writer =>
      if r.phase = .joining then some { s with current := none, lastResult := some (runResult r writer) } else none
    | _ => none

def step (s : DownloadSt) (a : DownloadAct) : Option DownloadSt :=
  match s.current, a with
  | none, .start env => some (job.start s env)
  | none, _ => none
  | some r, a => job.stepRun s r a

end DownloadJob

end Blockvisor
