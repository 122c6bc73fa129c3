/-
Two downloads of one manifest into an empty directory: the snapshot tool
writes a chunk's data in slices, babel streams it through its `Writer`. The
chunks of either come in any interleaving.

`same_tree_iff` says when the trees are the same: every chunk has
destinations, a file that is named by a destination without bytes has bytes
elsewhere, and chunks write the same byte where they write to one address.
The snapshot tool skips destinations without bytes, so that an empty file is
missing (`same_tree_empty_file`).
-/
import Blockvisor.Lib.WriteLog
import Blockvisor.Bv.Snapshot.DownloadEngine

namespace Blockvisor

open Extent Store DownloadEngine

variable {hashes : Hashes} {codecs : Codecs} {cfg : TransferConfig}

/-- A chunk of the manifest with its content: what is served of it decodes to the data, and the snapshot
tool's validation accepts the destinations for that data. -/
structure ChunkContent (hashes : Hashes) (codecs : Codecs) (cfg : TransferConfig) where
  archive : ArchiveChunk
  chunkIdx : Nat
  data : Bytes
  valid : validateDestinationsComprehensive chunkIdx archive.destinations data.length = .ok ()
  chunk : Chunk
  converted : archive.tryIntoChunk = .ok chunk
  url : archive.url.isSome
  body : Bytes
  size : archive.size = body.length
  checksum : chunk.checksum.verifies hashes body
  decodes : ∀ pieces : List Bytes, (∀ p ∈ pieces, p ≠ []) → pieces.flatten = body →
    Decodes (codecs.decoder cfg.compression) pieces data
  server : Server
  serves : server.Serves body

namespace ChunkContent

/-- The bytes of the chunk at their addresses in a directory, in order. -/
def bytes (dir : PathBuf) (c : ChunkContent hashes codecs cfg) : List ((PathBuf × Nat) × UInt8) :=
  (allCells (c.chunk.destinations.map (mapPath (dir ++ ·)))).zip c.data

/-- What the snapshot tool writes. -/
def snapperWrites (c : ChunkContent hashes codecs cfg) : List (FileLocation × Bytes) :=
  (DownloadEngine.writeChunkData c.chunkIdx c.archive c.data).1

/-- What babel's download sends to the writer. -/
def babelMessages (c : ChunkContent hashes codecs cfg) : List ChunkData :=
  (downloadChunk hashes codecs cfg c.server c.chunk).1

end ChunkContent

/-- The lists of the chunks, by their place in the manifest. -/
def partsOf {α β : Type} (chunks : List α) (f : α → List β) (k : Nat) : List β := ((chunks[k]?).map f).getD []

theorem partsOf_some {α β : Type} {chunks : List α} (f : α → List β) {k : Nat} {c : α} (h : chunks[k]? = some c) :
    partsOf chunks f k = f c := by simp [partsOf, h]

theorem mem_partsOf {α β : Type} {chunks : List α} {f : α → List β} {b : β} :
    (∃ k, b ∈ partsOf chunks f k) ↔ ∃ c ∈ chunks, b ∈ f c := by
  constructor
  · rintro ⟨k, h⟩
    cases hc : chunks[k]? with
    | none => simp [partsOf, hc] at h
    | some c =>
      rw [partsOf_some f hc] at h
      exact ⟨c, List.mem_of_getElem? hc, h⟩
  · rintro ⟨c, hc, h⟩
    obtain ⟨k, hk⟩ := List.getElem?_of_mem hc
    exact ⟨k, by rwa [partsOf_some f hk]⟩

/-- The manifest's chunks one after the other, `k` of them last. -/
theorem inTurn_chunks {α β : Type} (chunks : List α) (f : α → List β) (k : Nat) :
    Interleaves (partsOf chunks f)
      (inTurn (partsOf chunks f) ((List.range chunks.length).filter (· ≠ k) ++ [k])) := by
  apply inTurn_interleaves
  · have hrest := List.nodup_range.sublist (List.filter_sublist (p := (· ≠ k)) (l := List.range chunks.length))
    simpa [List.nodup_append] using hrest
  · intro j hj
    have hlt : j < chunks.length := by
      by_contra hge
      exact hj (by simp [partsOf, List.getElem?_eq_none (by omega : chunks.length ≤ j)])
    by_cases hjk : j = k
    · simp [hjk]
    · simp [hjk, hlt]

/-! ## What each engine writes -/

/-- The writer does the writes it is asked for, whatever the messages between them. -/
theorem foldl_handleChunkData (messages : List ChunkData) : ∀ {w : Writer}, w.Ok →
    (messages.foldl Writer.handleChunkData w).store =
      w.store.writes ((messages.filterMap fileWrite).map (Writer.under w.destinationDir)) := by
  induction messages with
  | nil => intro w _; rfl
  | cons m messages ih =>
    intro w hw
    obtain ⟨hok, hdir, _, hstore⟩ := Writer.handleChunkData_ok hw m
    rw [List.foldl_cons, ih hok, hdir, hstore]
    cases hm : fileWrite m with
    | none => simp [hm, Store.writes]
    | some v => simp [hm, Store.writes]

/-- What is logged of writes in a directory that take the data to the destinations. -/
theorem log_under {ws : List (FileLocation × Bytes)} (hsize : ∀ w ∈ ws, w.2.length = w.1.size) (dir : PathBuf)
    {destinations : List FileLocation} {data : Bytes} (hcells : allCells (ws.map (·.1)) = allCells destinations)
    (hdata : ws.flatMap (·.2) = data) :
    log (ws.map (Writer.under dir)) = (allCells (destinations.map (mapPath (dir ++ ·)))).zip data := by
  rw [log_eq_zip]
  · have hfst : (ws.map (Writer.under dir)).map (·.1) = (ws.map (·.1)).map (mapPath (dir ++ ·)) := by
      simp [Writer.under, Function.comp_def]
    rw [hfst, allCells_mapPath, hcells, ← allCells_mapPath]
    congr 1
    simp [List.flatMap_map, Writer.under, hdata]
  · intro w hw
    obtain ⟨v, hv, rfl⟩ := List.mem_map.mp hw
    exact hsize v hv

namespace ChunkContent

variable (c : ChunkContent hashes codecs cfg)

theorem destinations_eq : c.chunk.destinations = c.archive.destinations.map ChunkTarget.location :=
  (tryIntoChunk_ok c.converted).2.2

/-- Where the sizes do not wrap, the data fills the destinations. -/
theorem total_eq (hfits : total c.chunk.destinations < u64Size) : total c.chunk.destinations = c.data.length := by
  have hvalid := size_of_valid c.valid
  rwa [← c.destinations_eq, Nat.mod_eq_of_lt hfits] at hvalid

/-- The snapshot tool writes the data to the destinations that have bytes. -/
theorem snapper_ok (hfits : total c.chunk.destinations < u64Size) :
    (DownloadEngine.writeChunkData c.chunkIdx c.archive c.data).2 = .ok () ∧
      c.snapperWrites.map (·.1) = c.chunk.destinations.filter (0 < ·.size) ∧
      (∀ w ∈ c.snapperWrites, w.2.length = w.1.size) ∧ c.snapperWrites.flatMap (·.2) = c.data := by
  have htotal := c.total_eq hfits
  have hfills : total (c.archive.destinations.map ChunkTarget.location) = c.data.length := by
    rw [← c.destinations_eq]
    exact htotal
  obtain ⟨writes, hrun, hfst, hlen, hdata⟩ := writeChunkData_ok c.chunkIdx hfills (by omega)
  rw [← c.destinations_eq] at hfst
  unfold snapperWrites
  rw [hrun]
  exact ⟨rfl, hfst, hlen, hdata⟩

/-- Babel's messages write the data to the destinations, in some pieces, and open every file. -/
theorem babel_ok (hfits : total c.chunk.destinations < u64Size) (hne : c.chunk.destinations ≠ []) :
    (downloadChunk hashes codecs cfg c.server c.chunk).2 = .ok () ∧ ∃ ws,
      c.babelMessages.filterMap fileWrite = ws ∧ Splits c.chunk.destinations c.data ws [] := by
  obtain ⟨hurl, hsize, _⟩ := tryIntoChunk_ok c.converted
  obtain ⟨ws, hsent, hsplits⟩ := downloadChunk_ok hashes codecs cfg c.chunk c.serves (by rw [hurl]; exact c.url)
    (hsize.trans c.size) c.checksum hne c.decodes (c.total_eq hfits).symm
  refine ⟨by rw [hsent], ws, ?_, hsplits⟩
  unfold babelMessages
  rw [hsent, List.filterMap_append, filterMap_filePartOf hsplits.sizes]
  simp [fileWrite]

end ChunkContent

/-! ## The trees -/

/-- What is claimed: both downloads end well, and leave the same files whatever the order of their steps. -/
structure SameTree (chunks : List (ChunkContent hashes codecs cfg)) (w : Writer) : Prop where
  snapper : ∀ c ∈ chunks, (DownloadEngine.writeChunkData c.chunkIdx c.archive c.data).2 = .ok ()
  babel : ∀ c ∈ chunks, (downloadChunk hashes codecs cfg c.server c.chunk).2 = .ok ()
  trees : ∀ writes messages, Interleaves (partsOf chunks ChunkContent.snapperWrites) writes →
    Interleaves (partsOf chunks ChunkContent.babelMessages) messages →
      w.store.writes ((writes.map (·.2)).map (Writer.under w.destinationDir)) =
        ((messages.map (·.2)).foldl Writer.handleChunkData w).store

/-- When the trees are the same. -/
structure Reproducible (chunks : List (ChunkContent hashes codecs cfg)) (dir : PathBuf) : Prop where
  destinations : ∀ c ∈ chunks, c.chunk.destinations ≠ []
  fits : ∀ c ∈ chunks, total c.chunk.destinations < u64Size
  empties : ∀ c ∈ chunks, ∀ d ∈ c.chunk.destinations, d.size = 0 →
    ∃ c' ∈ chunks, ∃ d' ∈ c'.chunk.destinations, d'.path = d.path ∧ 0 < d'.size
  overlaps : ∀ (j k : Nat) (cj ck : ChunkContent hashes codecs cfg) x a b, chunks[j]? = some cj → chunks[k]? = some ck →
    j ≠ k → lastAt (cj.bytes dir) x = some a → lastAt (ck.bytes dir) x = some b → a = b

theorem allCells_filter_pos (es : List FileLocation) : allCells (es.filter (0 < ·.size)) = allCells es := by
  induction es with
  | nil => rfl
  | cons e es ih =>
    by_cases h : 0 < e.size
    · rw [List.filter_cons_of_pos (by simpa using h), allCells_cons, allCells_cons, ih]
    · rw [List.filter_cons_of_neg (by simpa using h), ih, allCells_cons, cells_of_size_zero (by omega), List.nil_append]

section

variable {chunks : List (ChunkContent hashes codecs cfg)} {dir : PathBuf}

/-- What is logged of a party's writes is what its chunk has at the addresses. -/
theorem log_snapper {c : ChunkContent hashes codecs cfg} (hfits : total c.chunk.destinations < u64Size) :
    log (c.snapperWrites.map (Writer.under dir)) = c.bytes dir := by
  obtain ⟨_, hfst, hsize, hdata⟩ := c.snapper_ok hfits
  exact log_under hsize dir (by rw [hfst, allCells_filter_pos]) hdata

theorem log_babel {c : ChunkContent hashes codecs cfg} (hfits : total c.chunk.destinations < u64Size)
    (hne : c.chunk.destinations ≠ []) : log ((c.babelMessages.filterMap fileWrite).map (Writer.under dir)) = c.bytes dir := by
  obtain ⟨_, ws, rfl, hsplits⟩ := c.babel_ok hfits hne
  have hcells := hsplits.cells
  rw [allCells_nil, List.append_nil] at hcells
  exact log_under hsplits.sizes dir hcells hsplits.data_eq

/-- The writes of the snapshot tool as those of parties. -/
theorem snapper_order {writes : List (Nat × (FileLocation × Bytes))}
    (h : Interleaves (partsOf chunks ChunkContent.snapperWrites) writes) :
    Interleaves (partsOf chunks fun c => c.snapperWrites.map (Writer.under dir))
      (writes.map fun a => (a.1, Writer.under dir a.2)) := by
  have hmap := h.map (Writer.under dir)
  have hparts : (fun k => (partsOf chunks ChunkContent.snapperWrites k).map (Writer.under dir)) =
      partsOf chunks fun c => c.snapperWrites.map (Writer.under dir) := by
    funext k
    unfold partsOf
    cases chunks[k]? <;> rfl
  rwa [hparts] at hmap

theorem babel_order {messages : List (Nat × ChunkData)}
    (h : Interleaves (partsOf chunks ChunkContent.babelMessages) messages) :
    Interleaves (partsOf chunks fun c => (c.babelMessages.filterMap fileWrite).map (Writer.under dir))
      ((messages.filterMap fun a => (fileWrite a.2).map (a.1, ·)).map fun a => (a.1, Writer.under dir a.2)) := by
  have hmap := (h.filterMap fileWrite).map (Writer.under dir)
  have hparts : (fun k => ((partsOf chunks ChunkContent.babelMessages k).filterMap fileWrite).map (Writer.under dir)) =
      partsOf chunks fun c => (c.babelMessages.filterMap fileWrite).map (Writer.under dir) := by
    funext k
    unfold partsOf
    cases chunks[k]? <;> rfl
  rwa [hparts] at hmap

theorem log_parts (f : ChunkContent hashes codecs cfg → List (FileLocation × Bytes))
    (hlog : ∀ c ∈ chunks, log (f c) = c.bytes dir) (k : Nat) :
    log (partsOf chunks f k) = ((chunks[k]?).map (·.bytes dir)).getD [] := by
  cases hc : chunks[k]? with
  | none => simp [partsOf, hc, log]
  | some c => rw [partsOf_some f hc, hlog c (List.mem_of_getElem? hc)]; rfl

/-- The parties are consistent where the chunks are. -/
theorem Reproducible.consistent (h : Reproducible chunks dir) {f : ChunkContent hashes codecs cfg → List (FileLocation × Bytes)}
    (hlog : ∀ c ∈ chunks, log (f c) = c.bytes dir) : Consistent (partsOf chunks f) := by
  intro j k x a b ha hb hjk
  rw [log_parts f hlog] at ha hb
  cases hj : chunks[j]? with
  | none => simp [hj, lastAt] at ha
  | some cj =>
    cases hk : chunks[k]? with
    | none => simp [hk, lastAt] at hb
    | some ck => exact h.overlaps j k cj ck x a b hj hk hjk (by simpa [hj] using ha) (by simpa [hk] using hb)

/-- The files the snapshot tool opens are those of destinations that have bytes. -/
theorem snapper_paths (hfits : ∀ c ∈ chunks, total c.chunk.destinations < u64Size) {writes : List (Nat × (FileLocation × Bytes))}
    (h : Interleaves (partsOf chunks ChunkContent.snapperWrites) writes) (q : PathBuf) :
    (∃ v ∈ (writes.map (·.2)).map (Writer.under dir), v.1.path = q) ↔
      ∃ c ∈ chunks, ∃ d ∈ c.chunk.destinations, 0 < d.size ∧ dir ++ d.path = q := by
  constructor
  · rintro ⟨v, hv, rfl⟩
    obtain ⟨u, hu, rfl⟩ := List.mem_map.mp hv
    obtain ⟨c, hc, huc⟩ := mem_partsOf.mp ((h.mem u).mp hu)
    obtain ⟨_, hfst, _, _⟩ := c.snapper_ok (hfits c hc)
    have hd : u.1 ∈ c.chunk.destinations.filter (0 < ·.size) := hfst ▸ List.mem_map_of_mem huc
    obtain ⟨hd, hpos⟩ := List.mem_filter.mp hd
    exact ⟨c, hc, u.1, hd, by simpa using hpos, rfl⟩
  · rintro ⟨c, hc, d, hd, hpos, rfl⟩
    obtain ⟨_, hfst, _, _⟩ := c.snapper_ok (hfits c hc)
    have hmem : d ∈ c.snapperWrites.map (·.1) := hfst ▸ List.mem_filter.mpr ⟨hd, by simpa using hpos⟩
    obtain ⟨u, hu, rfl⟩ := List.mem_map.mp hmem
    exact ⟨_, List.mem_map_of_mem ((h.mem u).mpr (mem_partsOf.mpr ⟨c, hc, hu⟩)), rfl⟩

/-- The files babel's writer opens are those of all destinations. -/
theorem babel_paths (hfits : ∀ c ∈ chunks, total c.chunk.destinations < u64Size)
    (hne : ∀ c ∈ chunks, c.chunk.destinations ≠ []) {messages : List (Nat × ChunkData)}
    (h : Interleaves (partsOf chunks ChunkContent.babelMessages) messages) (q : PathBuf) :
    (∃ v ∈ ((messages.map (·.2)).filterMap fileWrite).map (Writer.under dir), v.1.path = q) ↔
      ∃ c ∈ chunks, ∃ d ∈ c.chunk.destinations, dir ++ d.path = q := by
  have hpaths : ∀ c ∈ chunks, ∀ p, (∃ d ∈ c.chunk.destinations, d.path = p) ↔
      ∃ v ∈ c.babelMessages.filterMap fileWrite, v.1.path = p := by
    intro c hc p
    obtain ⟨_, ws, rfl, hsplits⟩ := c.babel_ok (hfits c hc) (hne c hc)
    simpa using hsplits.paths p
  constructor
  · rintro ⟨v, hv, rfl⟩
    obtain ⟨u, hu, rfl⟩ := List.mem_map.mp hv
    obtain ⟨m, hm, hmu⟩ := List.mem_filterMap.mp hu
    obtain ⟨c, hc, hmc⟩ := mem_partsOf.mp ((h.mem m).mp hm)
    obtain ⟨d, hd, hdp⟩ := (hpaths c hc u.1.path).mpr ⟨u, List.mem_filterMap.mpr ⟨m, hmc, hmu⟩, rfl⟩
    exact ⟨c, hc, d, hd, congrArg (dir ++ ·) hdp⟩
  · rintro ⟨c, hc, d, hd, rfl⟩
    obtain ⟨u, hu, hup⟩ := (hpaths c hc d.path).mp ⟨d, hd, rfl⟩
    obtain ⟨m, hmc, hmu⟩ := List.mem_filterMap.mp hu
    have hm := (h.mem m).mpr (mem_partsOf.mpr ⟨c, hc, hmc⟩)
    exact ⟨_, List.mem_map_of_mem (List.mem_filterMap.mpr ⟨m, hm, hmu⟩), congrArg (dir ++ ·) hup⟩

end

variable {chunks : List (ChunkContent hashes codecs cfg)} {w : Writer}

/-- Consistent chunks leave the same bytes, in any order and by either engine. -/
theorem Reproducible.lastAt_eq {dir : PathBuf} (h : Reproducible chunks dir) {writes : List (Nat × (FileLocation × Bytes))}
    {messages : List (Nat × ChunkData)} (hwrites : Interleaves (partsOf chunks ChunkContent.snapperWrites) writes)
    (hmessages : Interleaves (partsOf chunks ChunkContent.babelMessages) messages) (c : PathBuf × Nat) :
    lastAt (log ((writes.map (·.2)).map (Writer.under dir))) c =
      lastAt (log (((messages.map (·.2)).filterMap fileWrite).map (Writer.under dir))) c := by
  have hsnapper : ∀ c ∈ chunks, log (c.snapperWrites.map (Writer.under dir)) = c.bytes dir :=
    fun c hc => log_snapper (h.fits c hc)
  have hbabel : ∀ c ∈ chunks, log ((c.babelMessages.filterMap fileWrite).map (Writer.under dir)) = c.bytes dir :=
    fun c hc => log_babel (h.fits c hc) (h.destinations c hc)
  have hsame : ∀ k c, lastAt (log (partsOf chunks (fun c => c.snapperWrites.map (Writer.under dir)) k)) c =
      lastAt (log (partsOf chunks (fun c => (c.babelMessages.filterMap fileWrite).map (Writer.under dir)) k)) c := by
    intro k c
    rw [log_parts _ hsnapper, log_parts _ hbabel]
  have hlast := lastAt_interleaves hsame (h.consistent hsnapper) (snapper_order hwrites) (babel_order hmessages) c
  rw [Writer.sourced_writes Prod.fst Prod.snd] at hlast
  simpa [Function.comp_def] using hlast

theorem Reproducible.sameTree (hw : w.Ok) (h : Reproducible chunks w.destinationDir) : SameTree chunks w where
  snapper c hc := (c.snapper_ok (h.fits c hc)).1
  babel c hc := (c.babel_ok (h.fits c hc) (h.destinations c hc)).1
  trees writes messages hwrites hmessages := by
    rw [foldl_handleChunkData _ hw]
    refine writes_eq ?_ Writer.fileWrite_sizes (h.lastAt_eq hwrites hmessages) _ fun q => .inr ?_
    · intro v hv
      obtain ⟨u, hu, rfl⟩ := List.mem_map.mp hv
      obtain ⟨c, hc, huc⟩ := mem_partsOf.mp ((hwrites.mem u).mp hu)
      exact (c.snapper_ok (h.fits c hc)).2.2.1 u huc
    · rw [snapper_paths h.fits hwrites, babel_paths h.fits h.destinations hmessages]
      constructor
      · rintro ⟨c, hc, d, hd, _, hq⟩
        exact ⟨c, hc, d, hd, hq⟩
      · rintro ⟨c, hc, d, hd, hq⟩
        by_cases hpos : 0 < d.size
        · exact ⟨c, hc, d, hd, hpos, hq⟩
        · obtain ⟨c', hc', d', hd', hpath, hpos'⟩ := h.empties c hc d hd (by omega)
          exact ⟨c', hc', d', hd', hpos', by rw [hpath, hq]⟩

theorem SameTree.reproducible (hw : w.Ok) (hempty : ∀ p, w.store (w.destinationDir ++ p) = none)
    (h : SameTree chunks w) : Reproducible chunks w.destinationDir := by
  have hfits : ∀ c ∈ chunks, total c.chunk.destinations < u64Size := by
    intro c hc
    by_contra hge
    have hvalid := size_of_valid c.valid
    rw [← c.destinations_eq] at hvalid
    have hlt := Nat.mod_lt (total c.chunk.destinations) (show 0 < u64Size by decide)
    exact writeChunkData_short c.chunkIdx (by rw [← c.destinations_eq]; omega) (h.snapper c hc)
  have hne : ∀ c ∈ chunks, c.chunk.destinations ≠ [] := by
    intro c hc hnil
    have hok := h.babel c hc
    simp [downloadChunk, hnil] at hok
  have hturns := fun k => h.trees _ _ (inTurn_chunks chunks ChunkContent.snapperWrites 0)
    (inTurn_chunks chunks ChunkContent.babelMessages k)
  refine ⟨hne, hfits, ?_, ?_⟩
  · -- babel has created the file, so the snapshot tool has
    intro c hc d hd _
    have htree := hturns 0
    rw [foldl_handleChunkData _ hw] at htree
    have hbabel := (babel_paths hfits hne (inTurn_chunks chunks _ 0)
      (w.destinationDir ++ d.path)).mpr ⟨c, hc, d, hd, (rfl : w.destinationDir ++ d.path = _)⟩
    have hfile := (writes_isSome_iff w.store _ _).mpr (.inr hbabel)
    rw [← htree, writes_isSome_iff, hempty] at hfile
    obtain ⟨c', hc', d', hd', hpos, hpath⟩ := (snapper_paths hfits (inTurn_chunks chunks _ 0) _).mp
      (hfile.resolve_left (by simp))
    exact ⟨c', hc', d', hd', List.append_cancel_left hpath, hpos⟩
  · -- either chunk may be the last to write
    have hleft : ∀ (k : Nat) (ck : ChunkContent hashes codecs cfg) x b, chunks[k]? = some ck → lastAt (ck.bytes w.destinationDir) x = some b →
        (w.store.writes (((inTurn (partsOf chunks ChunkContent.snapperWrites)
          ((List.range chunks.length).filter (· ≠ 0) ++ [0])).map (·.2)).map
            (Writer.under w.destinationDir))).byteAt x.1 x.2 = some b := by
      intro k ck x b hk hb
      have hck := List.mem_of_getElem? hk
      rw [hturns k, foldl_handleChunkData _ hw, byteAt_writes_log Writer.fileWrite_sizes, map_inTurn_last, partsOf_some _ hk,
        List.filterMap_append, List.map_append, log_append, lastAt_append, log_babel (hfits ck hck) (hne ck hck), hb]
      rfl
    intro j k cj ck x a b hj hk _ ha hb
    have hboth := (hleft j cj x a hj ha).symm.trans (hleft k ck x b hk hb)
    exact Option.some.inj hboth

/-- **The trees are the same** just when the manifest is reproducible. -/
theorem same_tree_iff (hw : w.Ok) (hempty : ∀ p, w.store (w.destinationDir ++ p) = none) :
    SameTree chunks w ↔ Reproducible chunks w.destinationDir :=
  ⟨SameTree.reproducible hw hempty, Reproducible.sameTree hw⟩

/-- A chunk of one file, not compressed. -/
def fileContent (data : Bytes)
    (valid : validateDestinationsComprehensive 0 [⟨"a", 0, data.length⟩] data.length = .ok ()) :
    ChunkContent zeroHashes plainCodecs (buildTransferConfig none 8) where
  archive := ⟨0, "", some "get", some (some (Checksum.sha1 (Vector.replicate 20 0)).toPb), data.length, [⟨"a", 0, data.length⟩]⟩
  chunkIdx := 0
  data
  valid := valid
  chunk := ⟨0, "", some "get", .sha1 (Vector.replicate 20 0), data.length, [⟨["a"], 0, data.length⟩]⟩
  converted := by
    have hpath : parsePath "a" = ["a"] := by decide +kernel
    simp [ArchiveChunk.tryIntoChunk, tryIntoChecksum_toPb, Except.map, ChunkTarget.location, hpath]
  url := rfl
  body := data
  size := rfl
  checksum := by simp [Checksum.verifies, zeroHashes]
  decodes pieces _ hp := ⟨pieces, noCoder.new, [], noCoder_feedAll pieces, rfl, by simpa using hp⟩
  server := ⟨fun pos len _ => .ok [(data.drop pos).take len], fun _ => false⟩
  serves := ⟨fun _ _ _ _ => ⟨_, rfl, by simp⟩, fun _ => rfl⟩

/-- A writer for an empty directory. -/
def emptyDirWriter : Writer := ⟨[], 0, ["data"], 1, 1, fun _ => none, [], none, []⟩

theorem emptyDirWriter_ok : emptyDirWriter.Ok := ⟨by simp [emptyDirWriter], by simp [emptyDirWriter]⟩

/-- A file of one byte. -/
theorem same_tree_iff_file : SameTree [fileContent [7] (by decide +kernel)] emptyDirWriter := by
  refine (same_tree_iff emptyDirWriter_ok fun _ => rfl).mpr ⟨?_, ?_, ?_, ?_⟩
  · simp [fileContent]
  · intro c hc
    obtain rfl := List.mem_singleton.mp hc
    decide
  · intro c hc d hd h0
    obtain rfl := List.mem_singleton.mp hc
    obtain rfl := List.mem_singleton.mp hd
    cases h0
  · intro j k cj ck x a b hj hk hjk
    have hj' := (List.getElem?_eq_some_iff.mp hj).1
    have hk' := (List.getElem?_eq_some_iff.mp hk).1
    simp only [List.length_singleton] at hj' hk'
    omega

/-- An empty file: babel creates it, the snapshot tool does not. -/
theorem same_tree_empty_file : ¬ ∀ (hashes : Hashes) (codecs : Codecs) (cfg : TransferConfig)
    (chunks : List (ChunkContent hashes codecs cfg)) (w : Writer), w.Ok →
    (∀ p, w.store (w.destinationDir ++ p) = none) → SameTree chunks w := by
  intro hall
  have htree := hall _ _ _ [fileContent [] (by decide +kernel)] emptyDirWriter emptyDirWriter_ok fun _ => rfl
  obtain ⟨c', hc', d', hd', _, hpos⟩ := (htree.reproducible emptyDirWriter_ok fun _ => rfl).empties _
    (List.mem_singleton_self _) _ (List.mem_singleton_self _) rfl
  obtain rfl := List.mem_singleton.mp hc'
  obtain rfl := List.mem_singleton.mp hd'
  exact absurd hpos (by decide)

end Blockvisor
