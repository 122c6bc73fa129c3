/-
A download job together with the directory it writes to.

`Target.step` is `DownloadJob.step` with the writer's file parts written to
the directory, whole or in part (`Writer.writeToFile`: files are created, and
never truncated), and with what a client does there before its first run
(`cleanup_job`, `remove_remnants`). `Archive` is a manifest with the files it
stands for; `Faithful` says of each step of a run that what the server sends
belongs to the archive. Bodies may come in any pieces, short, cut off or
spoilt, as long as nothing that is sent has a chunk's checksum without being
its body.
-/
import Blockvisor.Babel.DownloadComplete
import Blockvisor.Lib.WriteLog

namespace Blockvisor

open Extent Store

/-! ## The directory -/

/-- Removes the files of the chunks' destinations (`remove_remnants`). -/
def removeRemnants (chunks : List Chunk) (destinationDir : PathBuf) (store : Store PathBuf) : Store PathBuf :=
  (chunks.flatMap (·.destinations)).foldl (fun s d => s.set (destinationDir ++ d.path) none) store

/-- Removes the remnants that `download.parts` names, if there is such a file, and the file
(`cleanup_job`; the other two files it removes are none of a client's). -/
def cleanupJob (parts : Option (LogFile Chunk)) (destinationDir : PathBuf) (store : Store PathBuf) :
    (Option (LogFile Chunk) × Store PathBuf) × Except String Unit :=
  match parts with
  | none => ((none, store), .ok ())
  | some log =>
    match log.load with
    | none => ((some log, store), .error "failed to parse chunk")
    | some chunks => ((none, removeRemnants chunks destinationDir store), .ok ())

/-- A download job and its target: `parts` is the `download.parts` that a client may find in its
meta directory, where its own runs never write one. -/
structure Target where
  job : DownloadSt
  writer : Writer
  parts : Option (LogFile Chunk)

/-- A step of the job, with how much of a file part is written if the write fails: nothing, not even
the file opened, or some of its bytes. -/
structure TargetAct where
  act : DownloadAct
  written : Option Nat

/-- The files of the destination directory, by their paths in it. -/
def Writer.view (w : Writer) : Store PathBuf := fun p => w.store (w.destinationDir ++ p)

namespace Target

/-- The directory as a run finds it once it has cleaned up. -/
def cleaned (job : DownloadJob) (t : Target) : (Option (LogFile Chunk) × Store PathBuf) × Except String Unit :=
  if job.kind = .clientDownloader ∧ t.job.files.metadata = .missing then
    cleanupJob t.parts t.writer.destinationDir t.writer.store
  else ((t.parts, t.writer.store), .ok ())

/-- The files that a run finds, by their paths in the directory. -/
def found (job : DownloadJob) (t : Target) : Store PathBuf := fun p => (t.cleaned job).1.2 (t.writer.destinationDir ++ p)

/-- The writer once it has done, or failed to do, what the next message asks for. -/
def handled (t : Target) (r : DownloadRun) (env : WriteEnv) (written : Option Nat) : Writer :=
  match r.channel with
  | .filePart path pos data :: _ =>
    match env.filePart, written with
    | .none, _ => t.writer.writeToFile path pos data
    | _, some n => t.writer.writeToFile path pos (data.take n)
    | _, none => t.writer
  | _ => t.writer

/-- One step. A run starts with no file open, and a client's first one with a cleanup. -/
def step (job : DownloadJob) (t : Target) (a : TargetAct) : Option Target :=
  match t.job.current, a.act with
  | none, .start env =>
    let ((parts, store), cleanup) := t.cleaned job
    some
      { job := job.start t.job { env with cleanup }
        writer := { t.writer with openedFiles := [], store }
        parts }
  | some r, .receive env =>
    (job.step t.job a.act).map fun s => { t with job := s, writer := t.handled r env a.written }
  | _, act => (job.step t.job act).map fun s => { t with job := s }

end Target

/-! ## The archive -/

/-- The destinations of the manifest's chunk `i`. -/
def DownloadManifest.destinations (manifest : DownloadManifest) (i : Nat) : List FileLocation :=
  ((manifest.chunks[i]?).map (·.destinations)).getD []

/-- A manifest and the files it stands for: each byte of a file has its place in one chunk, and a
chunk's body decodes to the bytes at its destinations. -/
structure Archive (codecs : Codecs) where
  manifest : DownloadManifest
  files : Store PathBuf
  body : Nat → Bytes
  data : Nat → Bytes
  named : ∀ p, (files p).isSome ↔ ∃ i, ∃ d ∈ manifest.destinations i, d.path = p
  covered : ∀ p k, (files.byteAt p k).isSome ↔ ∃ i, (p, k) ∈ allCells (manifest.destinations i)
  disjoint : ∀ i j c, c ∈ allCells (manifest.destinations i) → c ∈ allCells (manifest.destinations j) → i = j
  content : ∀ i, (data i).map some = files.bytesAt (allCells (manifest.destinations i))
  decodes : ∀ i < manifest.chunks.length, ∀ pieces : List Bytes, (∀ p ∈ pieces, p ≠ []) → pieces.flatten = body i →
    Decodes (codecs.decoder manifest.compression) pieces (data i)

namespace Archive

variable {codecs : Codecs} (archive : Archive codecs)

/-- The metadata of the archive's manifest. -/
def Describes (metadata : DownloadMetadata) : Prop :=
  metadata.chunks = archive.manifest.chunks.length ∧ metadata.compression = archive.manifest.compression

/-- A chunk as the manifest has it; its key and its URL may be new. -/
def Genuine (chunk : Chunk) : Prop :=
  ∃ m, archive.manifest.chunks[chunk.index]? = some m ∧ chunk.destinations = m.destinations ∧
    chunk.checksum = m.checksum ∧ chunk.size = m.size

/-- Whatever a server sends for chunk `i`: no bytes but the body have the checksum. -/
def Unforged (hashes : Hashes) (cfg : TransferConfig) (server : Server) (i : Nat) : Prop :=
  ∀ m, archive.manifest.chunks[i]? = some m → ∀ bytes, server.Sends cfg.maxBufferSize m.size 0 bytes →
    m.checksum.verifies hashes bytes = true → bytes = archive.body i

/-- A run is told of this archive, and it is not a `Downloader`'s first one; each chunk sent for a request is one of
the archive that is still to be launched. -/
def Faithful (job : DownloadJob) (t : Target) (a : TargetAct) : Prop :=
  match a.act with
  | .start env => (job.kind = .clientDownloader ∨ t.job.files.metadata ≠ .missing) ∧
      ∀ metadata, env.metadata = .ok metadata → archive.Describes metadata
  | .launch env => CleanReplies t.job (.launch env) ∧
      (∀ r, t.job.current = some r → r.downloaders.Fetches → r.downloaders.Requests env.requested →
        ∀ reply, env.reply = .ok reply → ∀ chunk ∈ reply, archive.Genuine chunk) ∧
      ∀ i, archive.Unforged job.hashes job.config (env.server i) i
  | _ => True

/-- The target has the files of the archive. -/
def Complete (t : Target) : Prop := ∀ p, (archive.files p).isSome → t.writer.view p = archive.files p

/-- No file of the archive is there with more bytes than it has in the archive. -/
def NoneLonger (job : DownloadJob) (t : Target) : Prop :=
  ∀ p content old, archive.files p = some content → t.found job p = some old → old.length ≤ content.length

end Archive

end Blockvisor
