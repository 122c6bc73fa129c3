/-
The chunk files byte by byte. An upload or download that was interrupted reads
back which chunks are done (`load_chunks`), from lines that were appended one
by one (`save_chunk`).

A job whose process dies in the middle of a line does not start again: the
line is no chunk, and one such line makes the whole file unreadable. It starts
if nothing of the line got there, or all of it but the line feed
(`chunk_log_survives_iff`).
-/
import Blockvisor.Babel.ChunkJson
import Blockvisor.Babel.DownloadComplete
import Blockvisor.Babel.UploadFacts

namespace Blockvisor

/-- The chunk file after `save_chunk` of these, and of a last one that was cut after so many bytes. -/
def chunkFile (codec : LineCodec Chunk) (saved : List Chunk) (last : Chunk) (count : Nat) : List UInt8 :=
  LineLog.records codec saved ++ (LineLog.record codec last).take count

/-- Every chunk whose append was complete is done, and none that was not saved. -/
def CountedDone (codec : LineCodec Chunk) (saved : List Chunk) (last : Chunk) (count : Nat) (done : List Chunk) : Prop :=
  done = saved ++ [last] ∨ (done = saved ∧ count < (LineLog.record codec last).length)

/-- The append was not cut, or before its first byte, or before its line feed. -/
def Spared (codec : LineCodec Chunk) (last : Chunk) (count : Nat) : Prop :=
  count = 0 ∨ (codec.encode last).length ≤ count

/-- An upload that is started again: its blueprint is there, of the same data, and has these chunks. -/
structure UploadResume (file : LogFile Chunk) (chunks : List Chunk) where
  job : UploadJob
  state : UploadSt
  env : UploadStartEnv
  slots : Nat
  blueprint : UploadBlueprint
  chunksFile : state.files.chunks = file
  idle : state.current = none
  totalSlots : job.newTotalSlots env = .ok slots
  matching : UploadJob.loadBlueprint state.files env = .ok blueprint
  known : ∀ c ∈ chunks, c.index ∈ blueprint.manifest.chunks.map (·.index)

/-- It goes on with what is done marked in its blueprint. -/
def UploadResume.Proceeds {file : LogFile Chunk} {chunks : List Chunk} (u : UploadResume file chunks)
    (counted : List Chunk → Prop) : Prop :=
  ∃ done r, counted done ∧ done.foldlM markUploaded u.blueprint.manifest.chunks = some r.blueprint.manifest.chunks ∧
    (u.job.start u.state u.env).current = some r

/-- A download that is started again: its metadata is there. -/
structure DownloadResume (file : LogFile Chunk) where
  job : DownloadJob
  files : DownloadFiles
  env : StartEnv
  metadata : DownloadMetadata
  chunksFile : files.chunks = file
  metadataFile : files.metadata = .whole metadata

/-- It goes on without what is done. -/
def DownloadResume.Proceeds {file : LogFile Chunk} (d : DownloadResume file) (counted : List Chunk → Prop) : Prop :=
  ∃ done, counted done ∧ (d.job.getMetadata d.files d.env).2 = .ok (d.metadata, done)

/-! ## What is loaded -/

section

variable (codec : LineCodec Chunk) (saved : List Chunk) (last : Chunk) (count : Nat)

theorem loadChunks_records : loadChunks (LineLog.read codec (LineLog.records codec saved)) = .ok saved :=
  loadChunks_ok.mpr (LineLog.load_records codec saved)

theorem record_length : (LineLog.record codec last).length = (codec.encode last).length + 1 := List.length_append

/-- **All or nothing**: what was saved is loaded unless the last line is cut inside. -/
theorem loadChunks_chunkFile :
    (Spared codec last count →
      ∃ done, CountedDone codec saved last count done ∧
        loadChunks (LineLog.read codec (chunkFile codec saved last count)) = .ok done) ∧
      (¬ Spared codec last count →
        loadChunks (LineLog.read codec (chunkFile codec saved last count)) = .error (.error "failed to parse chunk")) := by
  have hload := LineLog.load_cut codec saved last count
  have hlength := record_length codec last
  unfold Spared chunkFile
  unfold LineLog.cutAt at hload
  by_cases hzero : count = 0
  · rw [if_pos hzero] at hload
    exact ⟨fun _ => ⟨saved, .inr ⟨rfl, by omega⟩, loadChunks_ok.mpr hload⟩, fun h => absurd (.inl hzero) h⟩
  rw [if_neg hzero] at hload
  by_cases hless : count < (codec.encode last).length
  · rw [if_pos hless] at hload
    refine ⟨fun h => ?_, fun _ => ?_⟩
    · exact absurd (h.resolve_left hzero) (Nat.not_le.mpr hless)
    · unfold loadChunks
      rw [hload]
  · rw [if_neg hless] at hload
    have hall : (LineLog.read codec (LineLog.records codec saved ++ (LineLog.record codec last).take count)).load =
        some (saved ++ [last]) := by
      by_cases hline : count = (codec.encode last).length
      · rw [if_pos hline] at hload
        exact hload
      · rw [if_neg hline] at hload
        exact hload
    exact ⟨fun _ => ⟨saved ++ [last], .inl rfl, loadChunks_ok.mpr hall⟩, fun h => absurd (.inr (Nat.not_lt.mp hless)) h⟩

/-! ## What goes on -/

/-- The indexes of the blueprint are what they were. -/
theorem markUploaded_indexes {items : List Chunk} {chunk : Chunk} (h : chunk.index ∈ items.map (·.index)) :
    ∃ items', markUploaded items chunk = some items' ∧ items'.map (·.index) = items.map (·.index) := by
  induction items with
  | nil => cases h
  | cons item items ih =>
    unfold markUploaded
    by_cases hindex : item.index = chunk.index
    · rw [if_pos hindex]
      exact ⟨chunk :: items, rfl, by rw [List.map_cons, List.map_cons, hindex]⟩
    · rw [if_neg hindex]
      have hrest : chunk.index ∈ items.map (·.index) := by
        rw [List.map_cons] at h
        exact (List.mem_cons.mp h).resolve_left (Ne.symm hindex)
      obtain ⟨marked, hmarked, hsame⟩ := ih hrest
      exact ⟨item :: marked, by rw [hmarked]; rfl, by rw [List.map_cons, List.map_cons, hsame]⟩

theorem foldlM_markUploaded_known {chunks : List Chunk} : ∀ {items : List Chunk},
    (∀ c ∈ chunks, c.index ∈ items.map (·.index)) → ∃ items', chunks.foldlM markUploaded items = some items' := by
  induction chunks with
  | nil => exact fun _ => ⟨_, rfl⟩
  | cons chunk chunks ih =>
    intro items h
    obtain ⟨marked, hmarked, hsame⟩ := markUploaded_indexes (h chunk (List.mem_cons_self ..))
    have hrest : ∀ c ∈ chunks, c.index ∈ marked.map (·.index) := by
      intro c hc
      rw [hsame]
      exact h c (List.mem_cons_of_mem _ hc)
    obtain ⟨items', hitems⟩ := ih hrest
    exact ⟨items', by rw [List.foldlM_cons, hmarked]; exact hitems⟩

theorem CountedDone.subset {done : List Chunk} (h : CountedDone codec saved last count done) : ∀ c ∈ done, c ∈ saved ++ [last] := by
  intro c hc
  obtain rfl | ⟨rfl, -⟩ := h
  · exact hc
  · exact List.mem_append_left _ hc

theorem UploadResume.proceeds_iff (u : UploadResume (LineLog.read codec (chunkFile codec saved last count)) (saved ++ [last])) :
    u.Proceeds (CountedDone codec saved last count) ↔ Spared codec last count := by
  obtain ⟨hspared, hcut⟩ := loadChunks_chunkFile codec saved last count
  constructor
  · intro h
    obtain ⟨done, r, -, -, hcurrent⟩ := h
    by_cases hs : Spared codec last count
    · exact hs
    · simp only [UploadJob.start, u.totalSlots, u.matching, u.chunksFile, hcut hs, UploadJob.fail, u.idle] at hcurrent
      cases hcurrent
  · intro hs
    obtain ⟨done, hdone, hload⟩ := hspared hs
    obtain ⟨items, hitems⟩ := foldlM_markUploaded_known fun c hc => u.known c (hdone.subset codec saved last count c hc)
    obtain ⟨r, hr, hmarked⟩ : ∃ r, (u.job.start u.state u.env).current = some r ∧ r.blueprint.manifest.chunks = items := by
      simp only [UploadJob.start, u.totalSlots, u.matching, u.chunksFile, hload, UploadJob.beginRun, hitems]
      exact ⟨_, rfl, rfl⟩
    exact ⟨done, r, hdone, by rw [hmarked, hitems], hr⟩

theorem DownloadResume.proceeds_iff (d : DownloadResume (LineLog.read codec (chunkFile codec saved last count))) :
    d.Proceeds (CountedDone codec saved last count) ↔ Spared codec last count := by
  obtain ⟨hspared, hcut⟩ := loadChunks_chunkFile codec saved last count
  have hget : (d.job.getMetadata d.files d.env).2 =
      (loadChunks (LineLog.read codec (chunkFile codec saved last count))).map fun chunks => (d.metadata, chunks) := by
    have hthere : d.files.metadata ≠ .missing := by
      rw [d.metadataFile]
      exact fun h => (by cases h)
    have hmetadata : loadJobData d.files.metadata = .ok d.metadata := loadJobData_ok.mpr d.metadataFile
    unfold DownloadJob.getMetadata
    cases d.job.kind with
    | downloader =>
      simp only [Downloader.getMetadata, if_pos hthere, hmetadata, d.chunksFile]
      rfl
    | clientDownloader =>
      simp only [ClientDownloader.getMetadata, if_pos hthere, hmetadata, d.chunksFile]
      rfl
  constructor
  · intro h
    obtain ⟨done, -, hdone⟩ := h
    by_cases hs : Spared codec last count
    · exact hs
    · rw [hget, hcut hs] at hdone
      cases hdone
  · intro hs
    obtain ⟨done, hdone, hload⟩ := hspared hs
    refine ⟨done, hdone, ?_⟩
    rw [hget, hload]
    rfl

/-- **What a crash leaves of the progress**: chunks saved one by one are loaded
in their order; and after an append that was cut a resumed upload or download
goes on, with what was saved done and nothing else, exactly if the append was
not cut inside its line. -/
theorem chunk_log_survives_iff (codec : LineCodec Chunk) (saved : List Chunk) (last : Chunk) (count : Nat) :
    loadChunks (LineLog.read codec (LineLog.records codec saved)) = .ok saved ∧
      (∀ u : UploadResume (LineLog.read codec (chunkFile codec saved last count)) (saved ++ [last]),
        u.Proceeds (CountedDone codec saved last count) ↔ Spared codec last count) ∧
      ∀ d : DownloadResume (LineLog.read codec (chunkFile codec saved last count)),
        d.Proceeds (CountedDone codec saved last count) ↔ Spared codec last count :=
  ⟨loadChunks_records codec saved, UploadResume.proceeds_iff codec saved last count,
    DownloadResume.proceeds_iff codec saved last count⟩

end

/-! ## A line that was cut -/

/-- A chunk of no data. -/
def emptyChunk : Chunk := ⟨0, "chunk-0", none, default, 0, []⟩

/-- A download whose first chunk was on its way to the file when the process died. -/
noncomputable def cutDownload : DownloadResume (LineLog.read jsonCodec (chunkFile jsonCodec [] emptyChunk 1)) where
  job := sampleJob .clientDownloader
  files := ⟨.whole ⟨0, none, 1, 0⟩, _, .empty, .missing⟩
  env := sampleStart []
  metadata := ⟨0, none, 1, 0⟩
  chunksFile := rfl
  metadataFile := rfl

theorem emptyChunk_cut : ¬ Spared jsonCodec emptyChunk 1 := by
  have hlength : 1 < (jsonCodec.encode emptyChunk).length := Json.chunkLine_length emptyChunk
  intro h
  obtain h | h := h
  · cases h
  · omega

theorem chunk_log_not_resumed :
    ¬ ∀ (codec : LineCodec Chunk) (saved : List Chunk) (last : Chunk) (count : Nat)
      (d : DownloadResume (LineLog.read codec (chunkFile codec saved last count))),
      d.Proceeds (CountedDone codec saved last count) := by
  intro h
  have hproceeds := h jsonCodec [] emptyChunk 1 cutDownload
  exact emptyChunk_cut ((DownloadResume.proceeds_iff jsonCodec [] emptyChunk 1 cutDownload).mp hproceeds)

end Blockvisor
