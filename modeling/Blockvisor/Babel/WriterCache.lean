/-
The writer's cache of open files (`Writer::write_to_file` in
`download_job.rs`). The writer gets the parts of all chunks in whatever order
the downloads send them, and closes the file used least recently when it has to
open one more than it may.

Which files are open, and when they were used, has no effect on what is
written: chunks that share no byte leave the same files, however their parts are
interleaved and however many files may be open (`writer_transparent`).
-/
import Blockvisor.Lib.WriteLog
import Blockvisor.Babel.ChunkWriter

namespace Blockvisor

open Extent Store

namespace Writer

/-- A message to the writer: the chunk it is about, and what the clock says when it is handled. -/
structure Arrival where
  chunk : Nat
  time : Nat
  message : ChunkData

def handle (w : Writer) (arrival : Arrival) : Writer := { w with now := arrival.time }.handleChunkData arrival.message

/-- The messages of each chunk arrive in their order. -/
def Arrives (parts : Nat → List ChunkData) (arrivals : List Arrival) : Prop :=
  Interleaves parts (arrivals.map fun arrival => (arrival.chunk, arrival.message))

/-- The parts are written within the destinations of the chunk. -/
def Sends (chunk : Chunk) (messages : List ChunkData) : Prop :=
  ∀ w ∈ messages.filterMap fileWrite, ∀ c ∈ w.1.cells, c ∈ allCells chunk.destinations

/-- Chunks that share no byte of a file. -/
def Apart (chunks : Nat → Chunk) : Prop :=
  ∀ j k, j ≠ k → ∀ c ∈ allCells (chunks j).destinations, c ∉ allCells (chunks k).destinations

variable {w w' : Writer} {messages : List ChunkData} {arrivals arrivals' : List Arrival}

/-- What a download sends of a chunk is within its destinations. -/
theorem Sends.of_splits {chunk : Chunk} {data : Bytes} {ws : List (FileLocation × Bytes)} {rest : List FileLocation}
    (h : Splits chunk.destinations data ws rest) : Sends chunk (ws.map filePartOf) := by
  intro v hv c hc
  rw [filterMap_filePartOf h.sizes] at hv
  rw [← h.cells, List.mem_append]
  exact .inl (mem_allCells.mpr ⟨v.1, List.mem_map_of_mem hv, hc⟩)

/-- One message, whenever it arrives. -/
theorem handle_ok (h : w.Ok) (arrival : Arrival) :
    (w.handle arrival).Ok ∧ (w.handle arrival).destinationDir = w.destinationDir ∧
      (w.handle arrival).maxOpenedFiles = w.maxOpenedFiles ∧
      (w.handle arrival).store = w.store.writes ((fileWrite arrival.message).toList.map (under w.destinationDir)) := by
  have hclock : ({ w with now := arrival.time } : Writer).Ok := ⟨h.exists_opened, h.opened⟩
  exact handleChunkData_ok hclock arrival.message

/-- All messages. -/
theorem foldl_handle (arrivals : List Arrival) : ∀ {w : Writer}, w.Ok →
    (arrivals.foldl handle w).Ok ∧ (arrivals.foldl handle w).maxOpenedFiles = w.maxOpenedFiles ∧
      (arrivals.foldl handle w).store =
        w.store.writes (((arrivals.map (·.message)).filterMap fileWrite).map (under w.destinationDir)) := by
  induction arrivals with
  | nil => exact fun h => ⟨h, rfl, rfl⟩
  | cons arrival arrivals ih =>
    intro w h
    obtain ⟨hok, hdir, hmax, hstore⟩ := handle_ok h arrival
    obtain ⟨hok', hmax', hstore'⟩ := ih hok
    rw [List.foldl_cons]
    refine ⟨hok', hmax'.trans hmax, ?_⟩
    rw [hstore', hstore, hdir, ← writes_append, ← List.map_append]
    cases hwrite : fileWrite arrival.message <;> simp [hwrite]

/-- The writes of the messages as those of the chunks. -/
theorem Arrives.writes {parts : Nat → List ChunkData} (h : Arrives parts arrivals) (dir : PathBuf) :
    Interleaves (fun k => ((parts k).filterMap fileWrite).map (under dir))
      ((arrivals.filterMap fun arrival => (fileWrite arrival.message).map (arrival.chunk, ·)).map fun a => (a.1, under dir a.2)) := by
  have hmap := (Interleaves.filterMap h fileWrite).map (under dir)
  rwa [List.filterMap_map] at hmap

/-- Where the parts of a chunk are last written is in its destinations. -/
theorem Sends.last {chunk : Chunk} (h : Sends chunk messages) {dir : PathBuf} {c : PathBuf × Nat} {b : UInt8}
    (hlast : lastAt (log ((messages.filterMap fileWrite).map (under dir))) c = some b) :
    ∃ p, c.1 = dir ++ p ∧ (p, c.2) ∈ allCells chunk.destinations := by
  by_contra hnone
  rw [log_eq_zip fileWrite_sizes, lastAt_zip_of_notMem] at hlast
  · cases hlast
  · intro hmem
    obtain ⟨e, he, hc⟩ := mem_allCells.mp hmem
    obtain ⟨v, hv, heq⟩ := List.mem_map.mp he
    obtain ⟨u, hu, hv⟩ := List.mem_map.mp hv
    subst heq hv
    obtain ⟨hpath, hlow, hhigh⟩ := mem_cells.mp hc
    exact hnone ⟨u.1.path, hpath, h u hu _ (mem_cells.mpr ⟨rfl, hlow, hhigh⟩)⟩

/-- **The writer is transparent to its cache**: it never has more files open than it may, and what it leaves is
the same whatever that number is, and in whatever order the parts of the chunks arrive. -/
theorem writer_transparent {chunks : Nat → Chunk} {parts : Nat → List ChunkData} (hparts : ∀ k, Sends (chunks k) (parts k))
    (hapart : Apart chunks) (hw : w.openedFiles = []) (hw' : w'.openedFiles = []) (hmax : 1 ≤ w.maxOpenedFiles)
    (hdir : w'.destinationDir = w.destinationDir) (hstore : w'.store = w.store) (h : Arrives parts arrivals)
    (h' : Arrives parts arrivals') :
    (∀ done, done <+: arrivals → (done.foldl handle w).openedFiles.length ≤ w.maxOpenedFiles) ∧
      (arrivals.foldl handle w).store = (arrivals'.foldl handle w').store := by
  have hok : w.Ok := ⟨by rw [hw]; exact List.forall_mem_nil _, by rw [hw]; exact Nat.zero_le _⟩
  have hok' : w'.Ok := ⟨by rw [hw']; exact List.forall_mem_nil _, by rw [hw']; exact Nat.zero_le _⟩
  constructor
  · intro done _
    obtain ⟨hdone, hkept, -⟩ := foldl_handle done hok
    have hopened := hdone.opened
    rw [hkept] at hopened
    omega
  · rw [(foldl_handle arrivals hok).2.2, (foldl_handle arrivals' hok').2.2, hdir, hstore]
    have hwrites := h.writes w.destinationDir
    have hwrites' := h'.writes w.destinationDir
    have hconsistent : Consistent fun k => ((parts k).filterMap fileWrite).map (under w.destinationDir) := by
      intro j k c a b ha hb hjk
      obtain ⟨p, hp, hj⟩ := (hparts j).last ha
      obtain ⟨q, hq, hk⟩ := (hparts k).last hb
      have hpq : p = q := List.append_cancel_left (hp.symm.trans hq)
      subst hpq
      exact absurd hk (hapart j k hjk _ hj)
    have hsourced := sourced_writes Arrival.chunk Arrival.message w.destinationDir
    refine writes_eq fileWrite_sizes fileWrite_sizes (fun c => ?_) w.store fun p => .inr ?_
    · rw [← hsourced, ← hsourced]
      exact lastAt_interleaves (fun _ _ => rfl) hconsistent hwrites hwrites' c
    · have hfiles : ∀ v, v ∈ ((arrivals.map (·.message)).filterMap fileWrite).map (under w.destinationDir) ↔
          v ∈ ((arrivals'.map (·.message)).filterMap fileWrite).map (under w.destinationDir) := by
        intro v
        rw [← hsourced, ← hsourced, hwrites.mem, hwrites'.mem]
      simp only [hfiles]

/-- A chunk of one byte in each of two files. -/
def twoChunks : Nat → Chunk
  | 0 => { (default : Chunk) with destinations := [⟨["a"], 0, 1⟩] }
  | 1 => { (default : Chunk) with destinations := [⟨["b"], 0, 1⟩] }
  | _ => default

def twoParts : Nat → List ChunkData
  | 0 => [.filePart ["a"] 0 [1], .endOfChunk (twoChunks 0)]
  | 1 => [.filePart ["b"] 0 [2], .endOfChunk (twoChunks 1)]
  | _ => []

/-- One file may be open, or two; and the second chunk comes in between, or first. -/
theorem writer_transparent_two :
    let arrivals : List Arrival := [⟨0, 5, .filePart ["a"] 0 [1]⟩, ⟨1, 5, .filePart ["b"] 0 [2]⟩, ⟨0, 6, .endOfChunk (twoChunks 0)⟩,
      ⟨1, 6, .endOfChunk (twoChunks 1)⟩]
    let arrivals' : List Arrival := [⟨1, 7, .filePart ["b"] 0 [2]⟩, ⟨1, 7, .endOfChunk (twoChunks 1)⟩, ⟨0, 8, .filePart ["a"] 0 [1]⟩,
      ⟨0, 8, .endOfChunk (twoChunks 0)⟩]
    (∀ done, done <+: arrivals → (done.foldl handle ⟨[], 0, [], 1, 2, fun _ => none, [], none, []⟩).openedFiles.length ≤ 1) ∧
      (arrivals.foldl handle ⟨[], 0, [], 1, 2, fun _ => none, [], none, []⟩).store =
        (arrivals'.foldl handle ⟨[], 0, [], 2, 2, fun _ => none, [], none, []⟩).store := by
  have hparts : ∀ k, Sends (twoChunks k) (twoParts k) := by
    intro k
    unfold Sends
    match k with
    | 0 => decide +kernel
    | 1 => decide +kernel
    | _ + 2 => exact List.forall_mem_nil _
  have hapart : Apart twoChunks := by
    intro j k hjk
    match j, k with
    | 0, 0 => exact absurd rfl hjk
    | 0, 1 => decide +kernel
    | 1, 0 => decide +kernel
    | 1, 1 => exact absurd rfl hjk
    | _ + 2, _ => exact List.forall_mem_nil _
    | _, _ + 2 => exact fun _ _ => List.not_mem_nil
  refine writer_transparent hparts hapart rfl rfl (Nat.le_refl 1) rfl rfl (fun k => ?_) fun k => ?_
  · match k with
    | 0 => rfl
    | 1 => rfl
    | _ + 2 => rfl
  · match k with
    | 0 => rfl
    | 1 => rfl
    | _ + 2 => rfl

end Writer

end Blockvisor
