/-
The chunks of a manifest as the archive service keeps them (`pb::ArchiveChunk`)
and how the jobs' chunks become these and come from them
(`services::archive`). A manifest that is put and a chunk that is fetched go
through both.

`tryIntoChunk_toArchive`: a chunk comes back as it was put, under its place in
the manifest.
-/
import Blockvisor.Babel.Engine

namespace Blockvisor

/-- A checksum as bytes of any length. -/
inductive PbChecksum where
  | sha1 (bytes : Bytes)
  | sha256 (bytes : Bytes)
  | blake3 (bytes : Bytes)
  deriving DecidableEq

structure ChunkTarget where
  path : String
  positionBytes : Nat
  sizeBytes : Nat
  deriving DecidableEq

/-- The checksum is a message with an optional field, and optional itself. -/
structure ArchiveChunk where
  index : Nat
  key : String
  url : Option Url
  checksum : Option (Option PbChecksum)
  size : Nat
  destinations : List ChunkTarget

/-- The components of a path (`Path::components`). -/
def parsePath (path : String) : PathBuf :=
  ((path.toList.splitOn '/').map String.ofList).filter fun c => c ≠ "" ∧ c ≠ "."

/-- A path as text (`to_string_lossy`). -/
def pathText (path : PathBuf) : String := String.ofList ((path.map String.toList).intersperse ['/']).flatten

def tryIntoArray (n : Nat) (bytes : Bytes) : Except String (Vector UInt8 n) :=
  if h : bytes.length = n then .ok ⟨bytes.toArray, by simpa using h⟩
  else .error s!"expected {n} bytes checksum, but {bytes.length} bytes found"

def PbChecksum.tryIntoChecksum : PbChecksum → Except String Checksum
  | .sha1 bytes => (tryIntoArray 20 bytes).map .sha1
  | .sha256 bytes => (tryIntoArray 32 bytes).map .sha256
  | .blake3 bytes => (tryIntoArray 32 bytes).map .blake3

def Checksum.toPb : Checksum → PbChecksum
  | .sha1 bytes => .sha1 bytes.toList
  | .sha256 bytes => .sha256 bytes.toList
  | .blake3 bytes => .blake3 bytes.toList

def ChunkTarget.location (target : ChunkTarget) : FileLocation :=
  ⟨parsePath target.path, target.positionBytes, target.sizeBytes⟩

/-- A chunk of a reply (`TryFrom<pb::ArchiveChunk>`). -/
def ArchiveChunk.tryIntoChunk (chunk : ArchiveChunk) : Except String Chunk :=
  match chunk.checksum with
  | some (some checksum) => checksum.tryIntoChecksum.map fun checksum =>
    { index := chunk.index, key := chunk.key, url := chunk.url, checksum, size := chunk.size,
      destinations := chunk.destinations.map ChunkTarget.location }
  | _ => .error "Missing checksum"

/-- A chunk of a manifest that is put, under its place in it. -/
def Chunk.toArchive (index : Nat) (chunk : Chunk) : ArchiveChunk :=
  { index, key := chunk.key, url := chunk.url, checksum := some (some chunk.checksum.toPb), size := chunk.size,
    destinations := chunk.destinations.map fun d => ⟨pathText d.path, d.pos, d.size⟩ }

theorem tryIntoArray_toList {n : Nat} (v : Vector UInt8 n) : tryIntoArray n v.toList = .ok v := by
  unfold tryIntoArray
  rw [dif_pos (by simp)]
  congr 1

theorem tryIntoChecksum_toPb (checksum : Checksum) : checksum.toPb.tryIntoChecksum = .ok checksum := by
  cases checksum <;> simp [Checksum.toPb, PbChecksum.tryIntoChecksum, tryIntoArray_toList, Except.map]

/-- A chunk comes back as it was put, its paths read from their texts. -/
theorem tryIntoChunk_toArchive (index : Nat) (chunk : Chunk) : (chunk.toArchive index).tryIntoChunk = .ok { chunk with
    index
    destinations := chunk.destinations.map (Extent.mapPath fun path => parsePath (pathText path)) } := by
  simp [Chunk.toArchive, ArchiveChunk.tryIntoChunk, tryIntoChecksum_toPb, Except.map, ChunkTarget.location,
    Extent.mapPath, Function.comp_def]

theorem tryIntoChunk_ok {archive : ArchiveChunk} {chunk : Chunk} (h : archive.tryIntoChunk = .ok chunk) :
    chunk.url = archive.url ∧ chunk.size = archive.size ∧
      chunk.destinations = archive.destinations.map ChunkTarget.location := by
  unfold ArchiveChunk.tryIntoChunk at h
  split at h
  · rename_i checksum _
    cases hsum : checksum.tryIntoChecksum with
    | error err =>
      rw [hsum] at h
      cases h
    | ok _ =>
      rw [hsum] at h
      cases h
      exact ⟨rfl, rfl, rfl⟩
  · cases h

end Blockvisor
