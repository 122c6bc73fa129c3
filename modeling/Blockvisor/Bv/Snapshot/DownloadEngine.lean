/-
The download of one chunk in the snapshot tool (`bin/snapshot/download_engine`).
Unlike babel's download, which hands a chunk on as it arrives, it takes the
whole chunk, decompresses it, validates the destinations against the result
(`DestinationValidator`), verifies its checksum (`ChecksumVerifier`) and
writes the slices.

`writeChunkData_ok` says what is written of a chunk that fills its
destinations: the slices in order, and nothing for a destination without bytes.
-/
import Blockvisor.Babel.ChunkWriter
import Blockvisor.Bv.Archive
import Mathlib.Data.List.Infix

namespace Blockvisor

open Extent

namespace DownloadEngine

inductive ValidationError where
  | sizeMismatch (expected actual : Nat)
  | destinationOverlap (chunkIdx dest1 dest2 : Nat)
  | checksumMismatch (chunkIdx : Nat) (expected actual : PbChecksum)
  | invalidDestinationPath (path reason : String)
  | unreasonableFileSize (path : String) (size : Nat)
  | directoryTraversalAttempt (path : String)
  deriving DecidableEq

/-! ## The checksum -/

/-- The digest of the data under the algorithm of the expected one. -/
def calculatedChecksum (hashes : Hashes) (data : Bytes) : PbChecksum → PbChecksum
  | .sha1 _ => .sha1 (hashes.sha1 data).toList
  | .sha256 _ => .sha256 (hashes.sha256 data).toList
  | .blake3 _ => .blake3 (hashes.blake3 data).toList

/-- The digests are compared as texts, which show the algorithm and the bytes in hex. -/
def verifyChunkIntegrity (hashes : Hashes) (chunkIdx : Nat) (decompressedData : Bytes)
    (expectedChecksum : Option (Option PbChecksum)) : Except ValidationError Unit :=
  match expectedChecksum with
  | some (some expected) =>
    let calculated := calculatedChecksum hashes decompressedData expected
    if calculated ≠ expected then .error (.checksumMismatch chunkIdx expected calculated) else .ok ()
  | _ => .ok ()

/-- `decodeAll` is the decompressor of the library (`zstd::stream::decode_all`). -/
def decompress (decodeAll : Bytes → Except String Bytes) (compression : Option Compression) (chunkData : Bytes) :
    Except String Bytes :=
  match compression with
  | some (.zstd _) => decodeAll chunkData
  | none => .ok chunkData

/-! ## The destinations -/

/-- 10 GB. -/
def maxReasonableFileSize : Nat := 10 * 1024 * 1024 * 1024

def validateDestinationSizes (destinations : List ChunkTarget) (decompressedSize : Nat) : Except ValidationError Unit :=
  let totalSize := (destinations.map (·.sizeBytes)).sum % u64Size
  if totalSize ≠ decompressedSize then .error (.sizeMismatch decompressedSize totalSize) else .ok ()

def validateDestinationPath (path : String) : Except ValidationError Unit :=
  if ['.', '.'] <:+: path.toList then .error (.directoryTraversalAttempt path)
  else if path.toList.head? = some '/' then .error (.invalidDestinationPath path "Path must be relative")
  else if path = "" then .error (.invalidDestinationPath path "Path cannot be empty")
  else if '\x00' ∈ path.toList then .error (.invalidDestinationPath path "Path contains null bytes")
  else .ok ()

def validateDestinationSize (path : String) (sizeBytes : Nat) : Except ValidationError Unit :=
  if maxReasonableFileSize < sizeBytes then .error (.unreasonableFileSize path sizeBytes) else .ok ()

/-- The first two neighbours of a group, sorted by position, that overlap. -/
def findOverlap : List (Nat × ChunkTarget) → Option (Nat × Nat)
  | (idx1, dest1) :: (idx2, dest2) :: rest =>
    if dest2.positionBytes < (dest1.positionBytes + dest1.sizeBytes) % u64Size then some (idx1, idx2)
    else findOverlap ((idx2, dest2) :: rest)
  | _ => none

/-- The destinations are grouped by path. The source visits the groups in the order of a hash map. -/
def validateNoOverlaps (chunkIdx : Nat) (destinations : List ChunkTarget) : Except ValidationError Unit :=
  let indexed := destinations.zipIdx.map Prod.swap
  let groups := (destinations.map (·.path)).dedup.map fun path =>
    (indexed.filter (·.2.path = path)).mergeSort fun a b => a.2.positionBytes ≤ b.2.positionBytes
  match groups.findSome? findOverlap with
  | some (dest1, dest2) => .error (.destinationOverlap chunkIdx dest1 dest2)
  | none => .ok ()

def validateDestinationsComprehensive (chunkIdx : Nat) (destinations : List ChunkTarget) (decompressedSize : Nat) :
    Except ValidationError Unit := do
  validateDestinationSizes destinations decompressedSize
  destinations.forM fun dest => do
    validateDestinationPath dest.path
    validateDestinationSize dest.path dest.sizeBytes
  validateNoOverlaps chunkIdx destinations

/-- What the validation has checked of the sizes. -/
theorem size_of_valid {chunkIdx : Nat} {destinations : List ChunkTarget} {decompressedSize : Nat}
    (h : validateDestinationsComprehensive chunkIdx destinations decompressedSize = .ok ()) :
    total (destinations.map ChunkTarget.location) % u64Size = decompressedSize := by
  unfold validateDestinationsComprehensive at h
  cases hsizes : validateDestinationSizes destinations decompressedSize with
  | error err =>
    rw [hsizes] at h
    cases h
  | ok _ =>
    unfold validateDestinationSizes at hsizes
    dsimp only at hsizes
    split at hsizes
    · cases hsizes
    · rename_i heq
      simpa [total, ChunkTarget.location, Function.comp_def] using heq

/-! ## Writing the slices -/

inductive DownloadError where
  | validation (err : ValidationError)
  | other (text : String)
  deriving DecidableEq

/-- The writes of a chunk's data from `offset` on, and where they end. A file is opened, and created,
before the bounds of its slice are checked. -/
def writeDestinations (chunkIdx : Nat) (data : Bytes) :
    List ChunkTarget → Nat → List (FileLocation × Bytes) × Except DownloadError Nat
  | [], offset => ([], .ok offset)
  | destination :: rest, offset =>
    if destination.sizeBytes = 0 then writeDestinations chunkIdx data rest offset
    else if data.length < offset + destination.sizeBytes then
      ([({ destination.location with size := 0 }, [])],
        .error (.other s!"Chunk {chunkIdx} destination '{destination.path}' bounds check failed: requesting bytes {offset}..{offset + destination.sizeBytes} but decompressed data only has {data.length} bytes. This indicates malformed chunk metadata or corruption."))
    else
      let (writes, result) := writeDestinations chunkIdx data rest (offset + destination.sizeBytes)
      ((destination.location, (data.drop offset).take destination.sizeBytes) :: writes, result)

/-- What is written of a chunk's data and how the writing ends (the last part of the chunk's task). -/
def writeChunkData (chunkIdx : Nat) (chunk : ArchiveChunk) (data : Bytes) :
    List (FileLocation × Bytes) × Except DownloadError Unit :=
  match writeDestinations chunkIdx data chunk.destinations 0 with
  | (writes, .error err) => (writes, .error err)
  | (writes, .ok offset) =>
    if offset ≠ data.length then
      (writes, .error (.other s!"Chunk {chunkIdx} incomplete consumption: {data.length - offset} bytes remaining"))
    else
      -- the log of the writes is added up once more
      let totalWritten := (writes.map (·.1.size)).sum % u64Size
      if totalWritten ≠ data.length then (writes, .error (.validation (.sizeMismatch data.length totalWritten)))
      else (writes, .ok ())

/-- The task of a chunk, from its decompressed data on. -/
def processChunk (hashes : Hashes) (chunkIdx : Nat) (chunk : ArchiveChunk) (data : Bytes) :
    List (FileLocation × Bytes) × Except DownloadError Unit :=
  match validateDestinationsComprehensive chunkIdx chunk.destinations data.length with
  | .error err => ([], .error (.validation err))
  | .ok () =>
    match verifyChunkIntegrity hashes chunkIdx data chunk.checksum with
    | .error err => ([], .error (.validation err))
    | .ok () => writeChunkData chunkIdx chunk data

/-- Data that the destinations can hold is written in order, but for destinations without bytes. -/
theorem writeDestinations_ok (chunkIdx : Nat) (data : Bytes) (destinations : List ChunkTarget) : ∀ offset : Nat,
    offset + total (destinations.map ChunkTarget.location) ≤ data.length →
      ∃ writes, writeDestinations chunkIdx data destinations offset =
          (writes, .ok (offset + total (destinations.map ChunkTarget.location))) ∧
        writes.map (·.1) = (destinations.map ChunkTarget.location).filter (0 < ·.size) ∧
        (∀ w ∈ writes, w.2.length = w.1.size) ∧
        writes.flatMap (·.2) = (data.drop offset).take (total (destinations.map ChunkTarget.location)) := by
  induction destinations with
  | nil => intro offset h; exact ⟨[], by simp [writeDestinations], rfl, by simp, by simp⟩
  | cons d ds ih =>
    intro offset h
    rw [List.map_cons, total_cons] at h ⊢
    have hsize : d.location.size = d.sizeBytes := rfl
    by_cases h0 : d.sizeBytes = 0
    · obtain ⟨writes, hrun, hfst, hlen, hdata⟩ := ih offset (by omega)
      refine ⟨writes, ?_, ?_, hlen, ?_⟩
      · rw [writeDestinations, if_pos h0, hrun, hsize, h0, Nat.zero_add]
      · rw [hfst, List.filter_cons_of_neg (by simp [hsize, h0])]
      · rw [hdata, hsize, h0, Nat.zero_add]
    · obtain ⟨writes, hrun, hfst, hlen, hdata⟩ := ih (offset + d.sizeBytes) (by omega)
      refine ⟨(d.location, (data.drop offset).take d.sizeBytes) :: writes, ?_, ?_, ?_, ?_⟩
      · rw [writeDestinations, if_neg h0, if_neg (by omega), hrun, hsize, Nat.add_assoc]
      · rw [List.map_cons, hfst, List.filter_cons_of_pos (by simp [hsize]; omega)]
      · intro w hw
        rcases List.mem_cons.mp hw with rfl | hw
        · simp only [List.length_take, List.length_drop, hsize]
          omega
        · exact hlen w hw
      · rw [List.flatMap_cons, hdata, hsize, List.take_add, List.drop_drop]

/-- The writing stops with an error where the data ends too early. -/
theorem writeDestinations_short (chunkIdx : Nat) (data : Bytes) (destinations : List ChunkTarget) : ∀ offset : Nat,
    offset ≤ data.length → data.length < offset + total (destinations.map ChunkTarget.location) →
      ∃ writes err, writeDestinations chunkIdx data destinations offset = (writes, .error err) := by
  induction destinations with
  | nil => intro offset hle h; simp at h; omega
  | cons d ds ih =>
    intro offset hle h
    rw [List.map_cons, total_cons] at h
    have hsize : d.location.size = d.sizeBytes := rfl
    rw [writeDestinations]
    split
    · exact ih offset hle (by omega)
    · split
      · exact ⟨_, _, rfl⟩
      · obtain ⟨writes, err, hrun⟩ := ih (offset + d.sizeBytes) (by omega) (by omega)
        rw [hrun]
        exact ⟨_, _, rfl⟩

/-- **Data that fills the destinations is written**, a slice for each that has bytes. -/
theorem writeChunkData_ok (chunkIdx : Nat) {chunk : ArchiveChunk} {data : Bytes}
    (htotal : total (chunk.destinations.map ChunkTarget.location) = data.length) (hfits : data.length < u64Size) :
    ∃ writes, writeChunkData chunkIdx chunk data = (writes, .ok ()) ∧
      writes.map (·.1) = (chunk.destinations.map ChunkTarget.location).filter (0 < ·.size) ∧
      (∀ w ∈ writes, w.2.length = w.1.size) ∧ writes.flatMap (·.2) = data := by
  obtain ⟨writes, hrun, hfst, hlen, hdata⟩ := writeDestinations_ok chunkIdx data chunk.destinations 0 (by omega)
  rw [List.drop_zero, htotal, List.take_length] at hdata
  have hsum : (writes.map (·.1.size)).sum = data.length := by
    rw [← hdata, List.length_flatMap]
    congr 1
    exact List.map_congr_left fun w hw => (hlen w hw).symm
  refine ⟨writes, ?_, hfst, hlen, hdata⟩
  unfold writeChunkData
  rw [hrun]
  simp [htotal, hsum, Nat.mod_eq_of_lt hfits]

/-- Nothing is written well where the sizes of the destinations exceed the data. -/
theorem writeChunkData_short (chunkIdx : Nat) {chunk : ArchiveChunk} {data : Bytes}
    (h : data.length < total (chunk.destinations.map ChunkTarget.location)) :
    (writeChunkData chunkIdx chunk data).2 ≠ .ok () := by
  obtain ⟨writes, err, hrun⟩ := writeDestinations_short chunkIdx data chunk.destinations 0 (Nat.zero_le _) (by omega)
  unfold writeChunkData
  rw [hrun]
  simp

end DownloadEngine

end Blockvisor
