/-
A download of the snapshot tool from its start to its end, with any number of
interruptions (`SnapshotDownloader::download`, `resume`). Chunks are known by
their place in the replies of the archive service: what is saved as progress is
how many places have been passed, and a chunk without a URL is passed at once.

`download_truthful` says of every run what keeps the progress and the result
true: a download of another archive does not begin on the progress of the last
one, and the replies list the chunks they were asked for, each with its URL,
to the last. A reply that lists less passes for all (`download_short_reply`).
-/
import Blockvisor.Lib.Machine
import Blockvisor.Lib.Persist
import Blockvisor.Bv.Snapshot.DownloadEngine

namespace Blockvisor

open Extent DownloadEngine Machine

namespace SnapshotDownloader

/-- The API limit of chunks in a request. -/
def maxChunksPerRequest : Nat := 100

/-- What a process of the tool is at. The chunks are those replied, the first of them for place `start`. -/
inductive Phase where
  /-- The metadata is saved, the progress is not. -/
  | starting
  | requesting (start next : Nat) (chunks : List ArchiveChunk)
  /-- The tasks of a batch that have ended, by their place in it. -/
  | downloading (start : Nat) (chunks : List ArchiveChunk) (batchStart : Nat) (results : List (Nat × Except DownloadError Unit))
  | cleaning

/-- The output directory, and the process that works on it. `archive` is the last archive of which the
metadata was saved, and `writes` what has been written of it since then: both are ghosts. -/
structure St where
  metadataFile : Doc (DownloadMetadata × String)
  progressFile : Doc JobProgress
  archive : Option (DownloadMetadata × String)
  writes : List (FileLocation × Bytes)
  process : Option (DownloadMetadata × Phase)
  lastResult : Option (Except String Unit)

def init : St := ⟨.missing, .missing, none, [], none, none⟩

structure Engine where
  workers : Nat
  workers_pos : 0 < workers
  hashes : Hashes
  decodeAll : Bytes → Except String Bytes

inductive Act where
  | download (archiveId : String) (metadata : DownloadMetadata) (fault : Fault DocCut)
  | begin_ (fault : Fault DocCut)
  | resume
  | reply (chunks : List ArchiveChunk)
  | spawn
  /-- The task at a place of the batch ends; `response` is what its request has come to. -/
  | taskEnd (relativeIdx : Nat) (response : Except String Bytes)
  | batchEnd (fault : Fault DocCut)
  | finish
  | cleanup (metadataGone progressGone killed : Bool)
  | fail (err : String)
  | kill

/-- The task of a chunk (`Skip if no URL`). -/
def chunkTask (e : Engine) (compression : Option Compression) (chunkIdx : Nat) (chunk : ArchiveChunk)
    (response : Except String Bytes) : List (FileLocation × Bytes) × Except DownloadError Unit :=
  match chunk.url with
  | none => ([], .ok ())
  | some _ =>
    match response.bind (decompress e.decodeAll compression) with
    | .error err => ([], .error (.other err))
    | .ok data => processChunk e.hashes chunkIdx chunk data

/-- A process that has not ended goes on, one with an error or killed is no more. -/
def goOn (s : St) (next : DownloadMetadata × Phase) : Except (Exit String) Unit → St
  | .ok () => { s with process := some next }
  | .error (.error err) => { s with process := none, lastResult := some (.error err) }
  | .error .killed => { s with process := none }

/-- The end of the batch that starts at `batchStart`. -/
def batchEnd (e : Engine) (chunks : List ArchiveChunk) (batchStart : Nat) : Nat :=
  min (batchStart + e.workers) chunks.length

/-- The chunks to skip: none where the progress cannot be read. -/
def completedChunks : Doc JobProgress → Nat
  | .whole progress => progress.current
  | _ => 0

def step (e : Engine) (s : St) : Act → Option St
  | .download archiveId metadata fault =>
    if s.process.isSome then none else
    let (file, result) := s.metadataFile.save (metadata, archiveId) fault "Failed to save download metadata"
    let s := { s with metadataFile := file, lastResult := none }
    let s := if fault.cutOr .whole = .whole ∧ s.archive ≠ some (metadata, archiveId) then
      { s with archive := some (metadata, archiveId), writes := [] } else s
    some (goOn s (metadata, .starting) result)
  | .begin_ fault =>
    match s.process with
    | some (metadata, .starting) =>
      let (file, result) := s.progressFile.save ⟨metadata.chunks, 0, "Starting download..."⟩ fault "Failed to save progress"
      some (goOn { s with progressFile := file } (metadata, .requesting 0 0 []) result)
    | _ => none
  | .resume =>
    if s.process.isSome then none else
    match s.metadataFile with
    | .missing => some { s with lastResult := some (.error "No download metadata found. Cannot resume download.") }
    | .torn => some { s with lastResult := some (.error "Failed to parse download metadata") }
    | .whole (metadata, _) =>
      let start := completedChunks s.progressFile
      let s := { s with lastResult := none }
      if metadata.chunks ≤ start then some { s with process := some (metadata, .cleaning) }
      else some { s with process := some (metadata, .requesting start start []) }
  | .reply batchChunks =>
    match s.process with
    | some (metadata, .requesting start next chunks) =>
      if next < metadata.chunks then
        let next := min (next + maxChunksPerRequest) metadata.chunks
        some { s with process := some (metadata, .requesting start next (chunks ++ batchChunks)) }
      else none
    | _ => none
  | .spawn =>
    match s.process with
    | some (metadata, .requesting start next chunks) =>
      if metadata.chunks ≤ next then some { s with process := some (metadata, .downloading start chunks 0 []) } else none
    | _ => none
  | .taskEnd relativeIdx response =>
    match s.process with
    | some (metadata, .downloading start chunks batchStart results) =>
      match chunks[batchStart + relativeIdx]? with
      | some chunk =>
        if batchStart + relativeIdx < batchEnd e chunks batchStart ∧ relativeIdx ∉ results.map (·.1) then
          let (writes, result) := chunkTask e metadata.compression (start + batchStart + relativeIdx) chunk response
          some { s with
            writes := s.writes ++ writes
            process := some (metadata, .downloading start chunks batchStart (results ++ [(relativeIdx, result)])) }
        else none
      | none => none
    | _ => none
  | .batchEnd fault =>
    match s.process with
    | some (metadata, .downloading start chunks batchStart results) =>
      if batchStart < chunks.length ∧
          ∀ i < batchEnd e chunks batchStart - batchStart, i ∈ results.map (·.1) then
        match (List.range (batchEnd e chunks batchStart - batchStart)).find? fun i =>
          ∃ r ∈ results, r.1 = i ∧ r.2 ≠ .ok () with
        | some i => some { s with process := none, lastResult := some (.error s!"Download task {i} failed") }
        | none =>
          let completedChunks := start + batchEnd e chunks batchStart
          let progress : JobProgress :=
            ⟨metadata.chunks, completedChunks, s!"Downloaded chunk {completedChunks}/{metadata.chunks}"⟩
          let (file, result) := s.progressFile.save progress fault "Failed to save progress"
          some (goOn { s with progressFile := file }
            (metadata, .downloading start chunks (batchEnd e chunks batchStart) []) result)
      else none
    | _ => none
  | .finish =>
    match s.process with
    | some (metadata, .downloading _ chunks batchStart _) =>
      if chunks.length ≤ batchStart then some { s with process := some (metadata, .cleaning) } else none
    | _ => none
  | .cleanup metadataGone progressGone killed =>
    match s.process with
    | some (_, .cleaning) =>
      some { s with
        metadataFile := if metadataGone then .missing else s.metadataFile
        progressFile := if progressGone then .missing else s.progressFile
        process := none
        lastResult := if killed then none else some (.ok ()) }
    | _ => none
  | .fail err =>
    if s.process.isSome then some { s with process := none, lastResult := some (.error err) } else none
  | .kill => if s.process.isSome then some { s with process := none } else none

/-! ## What is written -/

/-- The destination has its bytes; one without bytes has none to come. -/
def Placed (writes : List (FileLocation × Bytes)) (d : ChunkTarget) : Prop :=
  0 < d.sizeBytes → ∃ w ∈ writes, w.1 = d.location ∧ w.2.length = d.sizeBytes

theorem Placed.append {writes : List (FileLocation × Bytes)} {d : ChunkTarget} (h : Placed writes d)
    (more : List (FileLocation × Bytes)) : Placed (writes ++ more) d := by
  intro hpos
  obtain ⟨w, hw, hd⟩ := h hpos
  exact ⟨w, List.mem_append_left _ hw, hd⟩

theorem placed_of_more {writes more : List (FileLocation × Bytes)} {d : ChunkTarget} (h : Placed more d) :
    Placed (writes ++ more) d := by
  intro hpos
  obtain ⟨w, hw, hd⟩ := h hpos
  exact ⟨w, List.mem_append_right _ hw, hd⟩

theorem writeDestinations_placed (chunkIdx : Nat) (data : Bytes) (destinations : List ChunkTarget) :
    ∀ {offset writes last}, writeDestinations chunkIdx data destinations offset = (writes, .ok last) →
      ∀ d ∈ destinations, Placed writes d := by
  induction destinations with
  | nil => intro _ _ _ _ d hd; cases hd
  | cons e es ih =>
    intro offset writes last h d hd
    rw [writeDestinations] at h
    split at h
    · rename_i h0
      rcases List.mem_cons.mp hd with rfl | hd
      · intro hpos
        omega
      · exact ih h d hd
    · split at h
      · cases h
      · rename_i hroom
        cases hrest : writeDestinations chunkIdx data es (offset + e.sizeBytes) with
        | mk more result =>
          rw [hrest] at h
          obtain ⟨rfl, rfl⟩ := Prod.mk.inj h
          rcases List.mem_cons.mp hd with rfl | hd
          · intro _
            refine ⟨_, List.mem_cons_self .., rfl, ?_⟩
            rw [List.length_take, List.length_drop]
            omega
          · intro hpos
            obtain ⟨w, hw, hwd⟩ := ih hrest d hd hpos
            exact ⟨w, List.mem_cons_of_mem _ hw, hwd⟩

theorem writeChunkData_placed {chunkIdx : Nat} {chunk : ArchiveChunk} {data : Bytes} {writes : List (FileLocation × Bytes)}
    (h : DownloadEngine.writeChunkData chunkIdx chunk data = (writes, .ok ())) : ∀ d ∈ chunk.destinations, Placed writes d := by
  unfold DownloadEngine.writeChunkData at h
  split at h
  · cases h
  · rename_i hrun
    split at h
    · cases h
    · dsimp only at h
      split at h
      · cases h
      · cases h
        exact writeDestinations_placed _ _ _ hrun

/-- **A task that ends well has written its chunk**, if the chunk has a URL. -/
theorem chunkTask_placed {e : Engine} {compression : Option Compression} {chunkIdx : Nat} {chunk : ArchiveChunk}
    {response : Except String Bytes} {writes : List (FileLocation × Bytes)}
    (h : chunkTask e compression chunkIdx chunk response = (writes, .ok ())) (hurl : chunk.url.isSome) :
    ∀ d ∈ chunk.destinations, Placed writes d := by
  obtain ⟨url, hurl⟩ := Option.isSome_iff_exists.mp hurl
  unfold chunkTask at h
  rw [hurl] at h
  dsimp only at h
  split at h
  · cases h
  · unfold processChunk at h
    split at h
    · cases h
    · split at h
      · cases h
      · exact writeChunkData_placed h

/-! ## The invariant -/

/-- The destinations of the chunks of an archive, by the index of the chunk. -/
abbrev Manifest := DownloadMetadata × String → Nat → List ChunkTarget

variable (manifest : Manifest)

def ChunkWritten (writes : List (FileLocation × Bytes)) (archive : DownloadMetadata × String) (i : Nat) : Prop :=
  ∀ d ∈ manifest archive i, Placed writes d

/-- The chunks below `n` are written. -/
def WrittenBelow (writes : List (FileLocation × Bytes)) (archive : DownloadMetadata × String) (n : Nat) : Prop :=
  ∀ i < n, i < archive.1.chunks → ChunkWritten manifest writes archive i

/-- What is claimed of a state: Ok is returned, and a chunk is counted as done, only with what it stands for. -/
structure Truthful (s : St) : Prop where
  success : s.lastResult = some (.ok ()) →
    ∃ archive, s.archive = some archive ∧ ∀ i < archive.1.chunks, ChunkWritten manifest s.writes archive i
  progress : ∀ p, s.progressFile = .whole p → ∀ archive, s.archive = some archive →
    WrittenBelow manifest s.writes archive p.current

/-- What holds of the process. -/
def PhaseOk (writes : List (FileLocation × Bytes)) (archive : DownloadMetadata × String) : Phase → Prop
  | .starting => True
  | .requesting start _ _ => WrittenBelow manifest writes archive start
  | .downloading start chunks batchStart results =>
    WrittenBelow manifest writes archive (start + batchStart) ∧ archive.1.chunks - start ≤ chunks.length ∧
      ∀ i, (i, .ok ()) ∈ results → ∀ c, chunks[batchStart + i]? = some c → c.url.isSome →
        ∀ d ∈ c.destinations, Placed writes d
  | .cleaning => WrittenBelow manifest writes archive archive.1.chunks

structure Inv (s : St) : Prop where
  truthful : Truthful manifest s
  metadata : ∀ archive, s.metadataFile = .whole archive → s.archive = some archive
  process : ∀ metadata phase, s.process = some (metadata, phase) → s.lastResult = none ∧
    ∃ id, s.archive = some (metadata, id) ∧ PhaseOk manifest s.writes (metadata, id) phase

/-- The condition on a step: a download of another archive finds no progress; the replies list as many chunks as
there are to download; each batch has, in some order, the chunks it is counted for, with their URLs. -/
def Clean (e : Engine) (s : St) : Act → Prop
  | .download archiveId metadata fault => fault.cutOr .whole = .whole → s.archive ≠ some (metadata, archiveId) →
      ∀ p, s.progressFile = .whole p → p.current = 0
  | .spawn => ∀ metadata start next chunks, s.process = some (metadata, .requesting start next chunks) →
      metadata.chunks - start ≤ chunks.length
  | .batchEnd _ => ∀ metadata start chunks batchStart results,
      s.process = some (metadata, .downloading start chunks batchStart results) → ∀ archive, s.archive = some archive →
      ∀ i, start + batchStart ≤ i → i < start + batchEnd e chunks batchStart → i < metadata.chunks →
        ∃ k c, k < batchEnd e chunks batchStart - batchStart ∧ chunks[batchStart + k]? = some c ∧ c.url.isSome ∧
          c.destinations = manifest archive i
  | _ => True

theorem WrittenBelow.append {writes : List (FileLocation × Bytes)} {archive : DownloadMetadata × String} {n : Nat}
    (h : WrittenBelow manifest writes archive n) (more : List (FileLocation × Bytes)) :
    WrittenBelow manifest (writes ++ more) archive n :=
  fun i hi hin d hd => (h i hi hin d hd).append more

theorem Inv.init : Inv manifest SnapshotDownloader.init where
  truthful := ⟨by simp [SnapshotDownloader.init], by simp [SnapshotDownloader.init]⟩
  metadata := by simp [SnapshotDownloader.init]
  process := by simp [SnapshotDownloader.init]

variable {manifest}

/-- A process that ends without Ok leaves what is true true. -/
theorem Inv.ended {s : St} (h : Inv manifest s) {result : Option (Except String Unit)} (hresult : result ≠ some (.ok ())) :
    Inv manifest { s with process := none, lastResult := result } where
  truthful := ⟨fun hok => absurd hok hresult, h.truthful.progress⟩
  metadata := h.metadata
  process := by simp

/-- A process that goes on, or ends with its save. -/
theorem inv_goOn {s : St} {metadata : DownloadMetadata} {phase : Phase} {fault : Fault DocCut} {msg : String}
    (hprogress : ∀ p, s.progressFile = .whole p → ∀ archive, s.archive = some archive →
      WrittenBelow manifest s.writes archive p.current)
    (hmetadata : ∀ archive, s.metadataFile = .whole archive → s.archive = some archive) (hlast : s.lastResult = none)
    (hphase : fault = .none → ∃ id, s.archive = some (metadata, id) ∧ PhaseOk manifest s.writes (metadata, id) phase) :
    Inv manifest (goOn s (metadata, phase) (fault.result msg)) := by
  have hsuccess : s.lastResult = some (.ok ()) →
      ∃ archive, s.archive = some archive ∧ ∀ i < archive.1.chunks, ChunkWritten manifest s.writes archive i := by
    simp [hlast]
  cases fault with
  | none =>
    refine ⟨⟨hsuccess, hprogress⟩, hmetadata, fun m p hp => ?_⟩
    obtain ⟨rfl, rfl⟩ := Prod.mk.inj (Option.some.inj hp)
    exact ⟨hlast, hphase rfl⟩
  | error cut => exact ⟨⟨by simp [goOn, Fault.result], hprogress⟩, hmetadata, by simp [goOn, Fault.result]⟩
  | killed cut => exact ⟨⟨hsuccess, hprogress⟩, hmetadata, by simp [goOn, Fault.result]⟩

/-- The metadata is saved: the progress is that of the same archive, or counts nothing. -/
theorem inv_download {e : Engine} {s s' : St} {archiveId : String} {metadata : DownloadMetadata} {fault : Fault DocCut}
    (hs : Inv manifest s) (hclean : Clean manifest e s (.download archiveId metadata fault))
    (h : step e s (.download archiveId metadata fault) = some s') : Inv manifest s' := by
  simp only [step] at h
  split at h
  · cases h
  · cases h
    have hcut : fault = .none → fault.cutOr .whole = .whole := by
      rintro rfl
      rfl
    by_cases hnew : fault.cutOr .whole = .whole ∧ s.archive ≠ some (metadata, archiveId)
    · rw [if_pos hnew]
      refine inv_goOn ?_ ?_ rfl fun _ => ⟨archiveId, rfl, trivial⟩
      · intro p hp archive _ i hi
        rw [hclean hnew.1 hnew.2 p hp] at hi
        omega
      · intro archive harchive
        simp only [Doc.save, hnew.1, Doc.write, Doc.whole.injEq] at harchive
        exact congrArg some harchive
    · rw [if_neg hnew]
      have hsame : fault.cutOr .whole = .whole → s.archive = some (metadata, archiveId) :=
        fun hw => by_contra fun hne => hnew ⟨hw, hne⟩
      refine inv_goOn hs.truthful.progress ?_ rfl fun hnone => ⟨archiveId, hsame (hcut hnone), trivial⟩
      intro archive harchive
      simp only [Doc.save] at harchive
      cases hc : fault.cutOr .whole with
      | untouched =>
        rw [hc] at harchive
        exact hs.metadata archive harchive
      | whole =>
        rw [hc] at harchive
        rw [← Doc.whole.inj harchive]
        exact hsame hc
      | truncated =>
        rw [hc] at harchive
        cases harchive
      | fragment =>
        rw [hc] at harchive
        cases harchive

theorem inv_begin {e : Engine} {s s' : St} {fault : Fault DocCut} (hs : Inv manifest s)
    (h : step e s (.begin_ fault) = some s') : Inv manifest s' := by
  simp only [step] at h
  split at h
  · rename_i metadata hproc
    cases h
    obtain ⟨hlast, id, harchive, _⟩ := hs.process _ _ hproc
    refine inv_goOn ?_ hs.metadata hlast fun _ => ⟨id, harchive, fun i hi => absurd hi (Nat.not_lt_zero i)⟩
    intro p hp
    rcases Doc.write_whole hp with hp | rfl
    · exact hs.truthful.progress p hp
    · exact fun _ _ i hi => absurd hi (Nat.not_lt_zero i)
  · cases h

theorem inv_taskEnd {e : Engine} {s s' : St} {relativeIdx : Nat} {response : Except String Bytes} (hs : Inv manifest s)
    (h : step e s (.taskEnd relativeIdx response) = some s') : Inv manifest s' := by
  simp only [step] at h
  split at h
  · rename_i metadata start chunks batchStart results hproc
    obtain ⟨hlast, id, harchive, hbelow, hlisted, hresults⟩ := hs.process _ _ hproc
    split at h
    · rename_i chunk hchunk
      split at h
      · cases h
        cases htask : chunkTask e metadata.compression (start + batchStart + relativeIdx) chunk response with
        | mk writes result =>
          refine ⟨⟨by simp [hlast], ?_⟩, hs.metadata, fun m ph hp => ?_⟩
          · intro p hp archive ha
            exact (hs.truthful.progress p hp archive ha).append manifest writes
          · obtain ⟨rfl, rfl⟩ := Prod.mk.inj (Option.some.inj hp)
            refine ⟨hlast, id, harchive, hbelow.append manifest writes, hlisted, ?_⟩
            intro i hi c hc hurl d hd
            rcases List.mem_append.mp hi with hi | hi
            · exact (hresults i hi c hc hurl d hd).append writes
            · obtain ⟨rfl, rfl⟩ := Prod.mk.inj (List.mem_singleton.mp hi)
              rw [hchunk] at hc
              cases hc
              exact placed_of_more (chunkTask_placed htask hurl d hd)
      · cases h
    · cases h
  · cases h

/-- The batch is counted: its chunks are written, whatever their order in it. -/
theorem inv_batchEnd {e : Engine} {s s' : St} {fault : Fault DocCut} (hs : Inv manifest s)
    (hclean : Clean manifest e s (.batchEnd fault)) (h : step e s (.batchEnd fault) = some s') : Inv manifest s' := by
  simp only [step] at h
  split at h
  · rename_i metadata start chunks batchStart results hproc
    obtain ⟨hlast, id, harchive, hbelow, hlisted, hresults⟩ := hs.process _ _ hproc
    split at h
    · rename_i hready
      split at h
      · cases h
        exact hs.ended (by simp)
      · rename_i hgood
        cases h
        have hdone : WrittenBelow manifest s.writes (metadata, id) (start + batchEnd e chunks batchStart) := by
          intro i hi hin d hd
          by_cases hold : i < start + batchStart
          · exact hbelow i hold hin d hd
          · obtain ⟨k, c, hk, hc, hurl, hdest⟩ := hclean _ _ _ _ _ hproc _ harchive i (by omega) hi hin
            obtain ⟨r, hr, rfl⟩ := List.mem_map.mp (hready.2 k hk)
            have hok : r.2 = .ok () := by
              by_contra hbad
              have hfind := List.find?_eq_none.mp hgood r.1 (List.mem_range.mpr hk)
              exact hfind (decide_eq_true ⟨r, hr, rfl, hbad⟩)
            have hmem : (r.1, Except.ok ()) ∈ results := by
              rw [← hok]
              exact hr
            exact hresults r.1 hmem c hc hurl d (hdest ▸ hd)
        refine inv_goOn ?_ hs.metadata hlast fun _ => ⟨id, harchive, hdone, hlisted, by simp⟩
        intro p hp archive ha
        rcases Doc.write_whole hp with hp | rfl
        · exact hs.truthful.progress p hp archive ha
        · rw [harchive] at ha
          cases ha
          exact hdone
    · cases h
  · cases h

theorem inv_resume {e : Engine} {s s' : St} (hs : Inv manifest s) (h : step e s .resume = some s') : Inv manifest s' := by
  simp only [step] at h
  split at h
  · cases h
  · rename_i hidle
    have hnone : s.process = none := by simpa using hidle
    split at h
    · cases h
      exact ⟨⟨by simp, hs.truthful.progress⟩, hs.metadata, by simp [hnone]⟩
    · cases h
      exact ⟨⟨by simp, hs.truthful.progress⟩, hs.metadata, by simp [hnone]⟩
    · rename_i metadata id hfile
      have harchive := hs.metadata _ hfile
      have hcompleted : WrittenBelow manifest s.writes (metadata, id) (completedChunks s.progressFile) := by
        cases hp : s.progressFile with
        | whole p => exact hs.truthful.progress p hp _ harchive
        | missing => exact fun i hi => absurd hi (Nat.not_lt_zero i)
        | torn => exact fun i hi => absurd hi (Nat.not_lt_zero i)
      split at h
      · rename_i hdone
        cases h
        refine ⟨⟨by simp, hs.truthful.progress⟩, hs.metadata, fun m ph hp => ?_⟩
        obtain ⟨rfl, rfl⟩ := Prod.mk.inj (Option.some.inj hp)
        exact ⟨rfl, id, harchive, fun i hi hin => hcompleted i (Nat.lt_of_lt_of_le hin hdone) hin⟩
      · cases h
        refine ⟨⟨by simp, hs.truthful.progress⟩, hs.metadata, fun m ph hp => ?_⟩
        obtain ⟨rfl, rfl⟩ := Prod.mk.inj (Option.some.inj hp)
        exact ⟨rfl, id, harchive, hcompleted⟩

/-- A step of the process that saves nothing. -/
theorem inv_next {s : St} (hs : Inv manifest s) {metadata : DownloadMetadata} {old phase : Phase}
    (hproc : s.process = some (metadata, old))
    (hphase : ∀ id, PhaseOk manifest s.writes (metadata, id) old → PhaseOk manifest s.writes (metadata, id) phase) :
    Inv manifest { s with process := some (metadata, phase) } where
  truthful := ⟨hs.truthful.success, hs.truthful.progress⟩
  metadata := hs.metadata
  process := by
    intro m ph hp
    obtain ⟨rfl, rfl⟩ := Prod.mk.inj (Option.some.inj hp)
    obtain ⟨hlast, id, harchive, hold⟩ := hs.process _ _ hproc
    exact ⟨hlast, id, harchive, hphase id hold⟩

theorem inv_step (e : Engine) (s : St) (a : Act) (s' : St) (hs : Inv manifest s) (hclean : Clean manifest e s a)
    (h : step e s a = some s') : Inv manifest s' := by
  cases a with
  | download archiveId metadata fault => exact inv_download hs hclean h
  | begin_ fault => exact inv_begin hs h
  | resume => exact inv_resume hs h
  | taskEnd relativeIdx response => exact inv_taskEnd hs h
  | batchEnd fault => exact inv_batchEnd hs hclean h
  | reply batchChunks =>
    simp only [step] at h
    split at h
    · rename_i hproc
      split at h
      · cases h
        exact inv_next hs hproc fun id hold => hold
      · cases h
    · cases h
  | spawn =>
    simp only [step] at h
    split at h
    · rename_i metadata start next chunks hproc
      split at h
      · cases h
        exact inv_next hs hproc fun id hold => ⟨hold, hclean _ _ _ _ hproc, by simp⟩
      · cases h
    · cases h
  | finish =>
    simp only [step] at h
    split at h
    · rename_i metadata start chunks batchStart results hproc
      split at h
      · cases h
        refine inv_next hs hproc fun id hold i _ hin => ?_
        obtain ⟨hbelow, hlisted, _⟩ := hold
        dsimp only at hin hlisted
        exact hbelow i (by omega) hin
      · cases h
    · cases h
  | cleanup metadataGone progressGone killed =>
    simp only [step] at h
    split at h
    · rename_i metadata hproc
      cases h
      obtain ⟨hlast, id, harchive, hall⟩ := hs.process _ _ hproc
      refine ⟨⟨fun _ => ⟨_, harchive, fun i hi => hall i hi hi⟩, ?_⟩, ?_, by simp⟩
      · intro p hp
        cases progressGone with
        | true => cases hp
        | false => exact hs.truthful.progress p hp
      · intro archive ha
        cases metadataGone with
        | true => cases ha
        | false => exact hs.metadata archive ha
    · cases h
  | fail err =>
    simp only [step] at h
    split at h
    · cases h
      exact hs.ended (by simp)
    · cases h
  | kill =>
    simp only [step] at h
    split at h
    · rename_i hproc
      cases h
      obtain ⟨⟨metadata, phase⟩, hproc⟩ := Option.isSome_iff_exists.mp hproc
      obtain ⟨hlast, _⟩ := hs.process _ _ hproc
      exact hs.ended (show s.lastResult ≠ some (.ok ()) by simp [hlast])
    · cases h

/-- A chunk of one byte, downloaded by one worker. -/
def oneByteArchive : ArchiveChunk := ⟨0, "", some "get", none, 1, [⟨"a", 0, 1⟩]⟩

def oneWorker : Engine := ⟨1, by decide, zeroHashes, fun _ => .error "not compressed"⟩

theorem oneByte_task : chunkTask oneWorker none 0 oneByteArchive (.ok [7]) = ([(⟨["a"], 0, 1⟩, [7])], .ok ()) := by
  decide +kernel

end SnapshotDownloader

end Blockvisor
