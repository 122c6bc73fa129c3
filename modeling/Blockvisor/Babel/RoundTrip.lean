/-
A chunk uploaded and downloaded again is the chunk it was: what
`uploadChunk` reads of the source directory is what `downloadChunk` and the
`Writer` leave in the destination directory, however the body is cut on the
way (`upload_download`).
-/
import Blockvisor.Babel.ChunkWriter

namespace Blockvisor

open Extent

/-- The writer has written the destinations, as `src` has them under `sourceDir`, and nothing else:
other files are untouched, and in the destinations' own files a byte outside of them is as it was,
or one of the zeros a file reads where it was never written. -/
structure Written (src : Store PathBuf) (sourceDir : PathBuf) (destinations : List FileLocation)
    (w w' : Writer) : Prop where
  bytes : ∀ p i, (p, i) ∈ allCells destinations →
    w'.store.byteAt (w.destinationDir ++ p) i = src.byteAt (sourceDir ++ p) i
  files : ∀ d ∈ destinations, (w'.store (w.destinationDir ++ d.path)).isSome
  others : ∀ q, (∀ d ∈ destinations, w.destinationDir ++ d.path ≠ q) → w'.store q = w.store q
  kept : ∀ p i b, (p, i) ∉ allCells destinations → w.store.byteAt (w.destinationDir ++ p) i = some b →
    w'.store.byteAt (w.destinationDir ++ p) i = some b
  gaps : ∀ p i, (p, i) ∉ allCells destinations → w.store.byteAt (w.destinationDir ++ p) i = none →
    w'.store.byteAt (w.destinationDir ++ p) i = none ∨ w'.store.byteAt (w.destinationDir ++ p) i = some 0

/-- A store seen from another directory. -/
def seenFrom (src : Store PathBuf) (sourceDir dir : PathBuf) : Store PathBuf :=
  fun q => (stripPrefix dir q).bind fun p => src (sourceDir ++ p)

theorem seenFrom_append (src : Store PathBuf) (sourceDir dir p : PathBuf) :
    seenFrom src sourceDir dir (dir ++ p) = src (sourceDir ++ p) := by
  simp [seenFrom, stripPrefix_some.mpr rfl]

theorem bytesAt_seenFrom (src : Store PathBuf) (sourceDir dir : PathBuf) (cs : List (PathBuf × Nat)) :
    (seenFrom src sourceDir dir).bytesAt (cs.map fun c => (dir ++ c.1, c.2)) =
      src.bytesAt (cs.map fun c => (sourceDir ++ c.1, c.2)) := by
  simp [Store.bytesAt, Store.byteAt, Function.comp_def, seenFrom_append]

/-- File parts that take the source's bytes to the destinations write the destinations. -/
theorem Splits.written {src : Store PathBuf} {sourceDir : PathBuf} {destinations : List FileLocation} {data : Bytes}
    {ws : List (FileLocation × Bytes)} (h : Splits destinations data ws [])
    (hdata : data.map some = src.bytesAt (allCells (destinations.map (mapPath (sourceDir ++ ·)))))
    {w w' : Writer} (hstore : w'.store = w.store.writes (ws.map (Writer.under w.destinationDir))) :
    Written src sourceDir destinations w w' := by
  have hfst : (ws.map (Writer.under w.destinationDir)).map (·.1) =
      (ws.map (·.1)).map (mapPath (w.destinationDir ++ ·)) := by
    simp [Writer.under, Function.comp_def]
  have hcells : allCells ((ws.map (Writer.under w.destinationDir)).map (·.1)) =
      (allCells destinations).map fun c => (w.destinationDir ++ c.1, c.2) := by
    have hc := h.cells
    rw [allCells_nil, List.append_nil] at hc
    rw [hfst, allCells_mapPath, hc]
  have hsizes : ∀ v ∈ ws.map (Writer.under w.destinationDir), v.2.length = v.1.size := by
    intro v hv
    obtain ⟨u, hu, rfl⟩ := List.mem_map.mp hv
    exact h.sizes u hu
  have hagree : ∀ v ∈ ws.map (Writer.under w.destinationDir), (seenFrom src sourceDir w.destinationDir).Agrees v := by
    apply Store.agrees_of_concat hsizes
    rw [hcells, bytesAt_seenFrom, ← allCells_mapPath, ← hdata, ← h.data_eq]
    simp [List.flatMap_map, Writer.under]
  have hmem : ∀ p i, (w.destinationDir ++ p, i) ∈ allCells ((ws.map (Writer.under w.destinationDir)).map (·.1)) ↔
      (p, i) ∈ allCells destinations := by
    intro p i
    rw [hcells]
    simp
  have hpaths : ∀ p, (∃ d ∈ destinations, d.path = p) ↔ ∃ v ∈ ws, v.1.path = p := by
    intro p
    simpa using h.paths p
  refine ⟨?_, ?_, ?_, ?_, ?_⟩
  · intro p i hp
    rw [hstore, Store.byteAt_writes hagree (.inl ((hmem p i).mpr hp))]
    simp [Store.byteAt, seenFrom_append]
  · intro d hd
    obtain ⟨v, hv, hvp⟩ := (hpaths d.path).mp ⟨d, hd, rfl⟩
    rw [hstore]
    apply Store.writes_isSome
    exact .inr ⟨_, List.mem_map_of_mem hv, by simp [Writer.under, mapPath, hvp]⟩
  · intro q hq
    rw [hstore]
    apply Store.writes_other
    intro v hv
    obtain ⟨u, hu, rfl⟩ := List.mem_map.mp hv
    obtain ⟨d, hd, hdp⟩ := (hpaths u.1.path).mpr ⟨u, hu, rfl⟩
    simpa [Writer.under, mapPath, hdp] using hq d hd
  · intro p i b hp hb
    rw [hstore]
    exact Store.byteAt_writes_uncovered hsizes (fun hc => hp ((hmem p i).mp hc)) hb
  · intro p i hp hb
    rw [hstore]
    exact Store.byteAt_writes_gap hsizes (fun hc => hp ((hmem p i).mp hc)) (.inl hb)

theorem relativeTo_some (dir : PathBuf) (c : Chunk)
    (h : ∀ d ∈ c.destinations, ∃ p, d.path = dir ++ p) :
    ∃ destinations, c.relativeTo dir = some { c with destinations } ∧
      c.destinations = destinations.map (mapPath (dir ++ ·)) := by
  suffices hall : ∀ ds : List FileLocation, (∀ d ∈ ds, ∃ p, d.path = dir ++ p) → ∃ es : List FileLocation,
      (ds.mapM fun d => (stripPrefix dir d.path).map fun p => { d with path := p }) = some es ∧
        ds = es.map (mapPath (dir ++ ·)) by
    obtain ⟨es, hes, heq⟩ := hall c.destinations h
    exact ⟨es, by rw [Chunk.relativeTo, hes]; rfl, heq⟩
  intro ds
  induction ds with
  | nil => intro _; exact ⟨[], rfl, rfl⟩
  | cons d ds ih =>
    intro h
    obtain ⟨p, hp⟩ := h d (by simp)
    obtain ⟨es, hes, rfl⟩ := ih fun e he => h e (by simp [he])
    refine ⟨{ d with path := p } :: es, ?_, by simp [mapPath, ← hp]⟩
    rw [List.mapM_cons, hes, stripPrefix_some.mpr hp]
    rfl

/-- The chunk is uploaded, and what is downloaded of it again, from any server that has its body
and to any writer, passes the checksum test and is written as the source has it. -/
def RoundTrips (hashes : Hashes) (codecs : Codecs) (uploadCfg downloadCfg : TransferConfig) (spare : Nat)
    (src : Store PathBuf) (sourceDir : PathBuf) (chunk : Chunk) : Prop :=
  ∃ parts uploaded manifestChunk,
    uploadChunk src hashes codecs uploadCfg spare (.ok ()) chunk = .ok (parts, uploaded) ∧
    uploaded.relativeTo sourceDir = some manifestChunk ∧
    chunk.destinations = manifestChunk.destinations.map (mapPath (sourceDir ++ ·)) ∧
    ∀ (url : Url) (server : Server) (w : Writer), server.Serves parts.flatten → w.Ok →
      let sent := downloadChunk hashes codecs downloadCfg server { manifestChunk with url := some url }
      sent.2 = .ok () ∧
        Written src sourceDir manifestChunk.destinations w (sent.1.foldl Writer.handleChunkData w)

/-- **Upload, then download, is the identity.** The destinations of a chunk, read through any
buffer and encoder, put under the size and checksum reported, served in any splitting and written
by any writer, are in the destination directory what they were in the source directory. -/
theorem upload_download (hashes : Hashes) (codecs : Codecs) (uploadCfg downloadCfg : TransferConfig)
    (spare : Nat) (src : Store PathBuf) (sourceDir : PathBuf) (chunk : Chunk)
    (hcompression : downloadCfg.compression = uploadCfg.compression)
    (hne : chunk.destinations ≠ []) (hsize : chunk.dataSize < u64Size) (hurl : chunk.url.isSome)
    (hdir : ∀ d ∈ chunk.destinations, ∃ p, d.path = sourceDir ++ p)
    (hread : ∀ d ∈ chunk.destinations, src.Readable d) :
    RoundTrips hashes codecs uploadCfg downloadCfg spare src sourceDir chunk := by
  obtain ⟨parts, uploaded, hupload, hup⟩ := uploadChunk_uploaded src hashes codecs uploadCfg spare hread hsize hurl
  have hdest : uploaded.destinations = chunk.destinations := by rw [hup.chunk_eq]
  obtain ⟨destinations, hrel, hmap⟩ := relativeTo_some sourceDir uploaded (by rwa [hdest])
  refine ⟨parts, uploaded, _, hupload, hrel, hdest ▸ hmap, ?_⟩
  intro url server w hserves hw
  obtain ⟨data, hdata, hdec⟩ := hup.decodes
  rw [← hdest, hmap] at hdata
  have hlen : data.length = total destinations := by
    have hcount := congrArg List.length hdata
    simpa [length_allCells, total_mapPath] using hcount
  obtain ⟨ws, hsent, hsplit⟩ := downloadChunk_ok hashes codecs downloadCfg
    { uploaded with destinations, url := some url } hserves rfl (by rw [hup.chunk_eq]) (by rw [hup.chunk_eq]; simp [Checksum.verifies])
    (by rintro rfl; rw [hmap, List.map_nil] at hdest; exact hne hdest.symm)
    (by rw [hcompression]; exact hdec) hlen
  obtain ⟨hok, hstore⟩ := Writer.handleChunkData_store ws hw
  simp only
  rw [hsent]
  refine ⟨rfl, hsplit.written hdata ?_⟩
  rw [List.foldl_append]
  exact hstore

/-- A file and an empty file in one chunk. -/
theorem upload_download_two_files :
    RoundTrips zeroHashes plainCodecs (buildTransferConfig none 8) (buildTransferConfig none 8) 0
      (fun p => if p = ["data", "a"] then some [1, 2, 3] else if p = ["data", "b"] then some [] else none)
      ["data"] { (default : Chunk) with url := some "put", destinations := [⟨["data", "a"], 1, 2⟩, ⟨["data", "b"], 0, 0⟩] } :=
  upload_download _ _ _ _ _ _ _ _ rfl (by simp) (by decide) rfl
    (by
      intro d hd
      simp only [List.mem_cons, List.not_mem_nil, or_false] at hd
      rcases hd with rfl | rfl
      · exact ⟨["a"], rfl⟩
      · exact ⟨["b"], rfl⟩)
    (by
      intro d hd
      simp only [List.mem_cons, List.not_mem_nil, or_false] at hd
      rcases hd with rfl | rfl
      · exact ⟨[1, 2, 3], by simp, by decide⟩
      · exact ⟨[], by simp, by decide⟩)

/-- A chunk without destinations is uploaded, but not downloaded: the manifest is taken for corrupted. -/
theorem upload_download_no_destinations :
    ¬ RoundTrips zeroHashes plainCodecs (buildTransferConfig none 8) (buildTransferConfig none 8) 0
      (fun _ => none) [] { (default : Chunk) with url := some "put" } := by
  rintro ⟨parts, uploaded, manifestChunk, _, _, hdest, h⟩
  have hnil : manifestChunk.destinations = [] := by
    have hmap := hdest.symm
    simpa [default, instInhabitedChunk.default] using hmap
  let server : Server := ⟨fun pos len _ => .ok [(parts.flatten.drop pos).take len], fun _ => false⟩
  let w : Writer := ⟨[], 0, [], 1, 1, fun _ => none, [], none, []⟩
  have hserves : server.Serves parts.flatten := ⟨fun pos len _ _ => ⟨_, rfl, by simp⟩, fun _ => rfl⟩
  have hw : w.Ok := ⟨by simp [w], by simp [w]⟩
  have hsent := (h "get" server w hserves hw).1
  simp [downloadChunk, hnil] at hsent

end Blockvisor
