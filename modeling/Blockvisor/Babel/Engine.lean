/-
The records the babel jobs exchange and keep: chunks, slots, manifests and
progress (`babel_api::engine`), and the configuration of the archive jobs
(`job_runner::TransferConfig`). Counters and sizes are natural numbers; the
widths of the source's integers are stated where a result depends on them.
-/
import Blockvisor.Lib.Extent

namespace Blockvisor

/-- A path by its components; paths are ordered component by component, as `Path` orders them. -/
abbrev PathBuf := List String

/-- A run of bytes of a file: `path`, `pos` and `size`. -/
abbrev FileLocation := Extent PathBuf

abbrev Url := String

/-- A digest under the algorithm that made it. -/
inductive Checksum where
  | sha1 (bytes : Vector UInt8 20)
  | sha256 (bytes : Vector UInt8 32)
  | blake3 (bytes : Vector UInt8 32)
  deriving DecidableEq

instance : Inhabited Checksum := ⟨.sha1 (Vector.replicate 20 0)⟩

/-- Data is stored in the cloud in chunks; the bytes of a chunk, after decompression, belong at
its destinations, in order. -/
structure Chunk where
  index : Nat
  key : String
  url : Option Url
  checksum : Checksum
  size : Nat
  destinations : List FileLocation
  deriving DecidableEq, Inhabited

inductive Compression where
  | zstd (level : Int)
  deriving DecidableEq

structure DownloadManifest where
  totalSize : Nat
  compression : Option Compression
  chunks : List Chunk
  deriving DecidableEq

structure DownloadMetadata where
  totalSize : Nat
  compression : Option Compression
  chunks : Nat
  dataVersion : Nat
  deriving DecidableEq

structure Slot where
  index : Nat
  key : String
  url : Url
  deriving DecidableEq

structure UploadSlots where
  slots : List Slot
  dataVersion : Nat
  deriving DecidableEq

structure JobProgress where
  total : Nat
  current : Nat
  message : String
  deriving DecidableEq

/-- A job's process was asked for but not launched, was launched, is not launched any more, or was
stopped on request. -/
inductive JobStatus where
  | pending (waitingFor : List String)
  | running
  | finished (exitCode : Option Int) (message : String)
  | stopped
  deriving DecidableEq

/-- The bytes of data a chunk holds, before compression. -/
def Chunk.dataSize (c : Chunk) : Nat := Extent.total c.destinations

/-- A path relative to a directory, when it lies in it (`Path::strip_prefix`). -/
def stripPrefix (dir path : PathBuf) : Option PathBuf :=
  if path.take dir.length = dir then some (path.drop dir.length) else none

/-- A chunk with its destinations relative to the source directory, as a manifest names them. -/
def Chunk.relativeTo (dir : PathBuf) (c : Chunk) : Option Chunk :=
  (c.destinations.mapM fun d => (stripPrefix dir d.path).map fun p => { d with path := p }).map
    fun destinations => { c with destinations }

theorem stripPrefix_some {dir path rest : PathBuf} : stripPrefix dir path = some rest ↔ path = dir ++ rest := by
  unfold stripPrefix
  constructor
  · intro h
    split at h
    · rename_i hdir
      cases h
      exact (List.take_append_drop dir.length path).symm.trans (by rw [hdir])
    · cases h
  · rintro rfl
    simp

/-- `u32` arithmetic wraps at this. -/
def u32Size : Nat := 2 ^ 32

/-- `u64` arithmetic wraps at this. -/
def u64Size : Nat := 2 ^ 64

/-- The limits of a transfer; a job without a buffer or an open file could not move a byte, so it
has both. -/
structure TransferConfig where
  maxOpenedFiles : Nat
  maxRunners : Nat
  maxBufferSize : Nat
  maxRetries : Nat
  compression : Option Compression
  maxOpenedFiles_pos : 0 < maxOpenedFiles
  maxBufferSize_pos : 0 < maxBufferSize

/-- The configuration jobs are run with. -/
def buildTransferConfig (compression : Option Compression) (maxRunners : Nat) : TransferConfig where
  maxOpenedFiles := 1024
  maxRunners
  maxBufferSize := 128 * 1024 * 1024
  maxRetries := 5
  compression
  maxOpenedFiles_pos := by decide
  maxBufferSize_pos := by decide

end Blockvisor
