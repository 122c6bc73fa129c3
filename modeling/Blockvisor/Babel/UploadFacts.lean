/-
What an upload run does with the blueprint it works on.

It keeps the blueprint's places (`Chunk.place`), and every chunk of its
manifest is either pending or as it was reported uploaded since the blueprint
was saved (`Tracks`). Marking the records of a log puts the last record of
each index in its place (`foldlM_markUploaded`); `tracks_launch` and
`tracks_mark` say what launching and a report keep.
-/
import Blockvisor.Babel.UploadJob

namespace Blockvisor

open Machine

/-! ## Chunks and their places -/

/-- What a blueprint says of a chunk: its index and its destinations. -/
def Chunk.place (c : Chunk) : Nat × List FileLocation := (c.index, c.destinations)

/-- With indexes distinct, the index of a place tells the place. -/
theorem place_unique {chunks : List Chunk} (hnodup : (chunks.map (·.index)).Nodup) {p q : Nat × List FileLocation}
    (hp : p ∈ chunks.map Chunk.place) (hq : q ∈ chunks.map Chunk.place) (h : p.1 = q.1) : p = q := by
  obtain ⟨c, hc, rfl⟩ := List.mem_map.mp hp
  obtain ⟨d, hd, rfl⟩ := List.mem_map.mp hq
  rw [List.inj_on_of_nodup_map hnodup hc hd h]

theorem indexes_of_places {xs ys : List Chunk} (h : xs.map Chunk.place = ys.map Chunk.place) :
    xs.map (·.index) = ys.map (·.index) := by
  have hfst := congrArg (List.map Prod.fst) h
  simpa [Chunk.place, Function.comp_def] using hfst

/-- A slot gives a chunk its key and its url, and nothing else. -/
theorem assignSlots_map {β : Type} (f : Chunk → β) (hf : ∀ c key url, f { c with key, url } = f c) (slots : List Slot) :
    ∀ chunks : List Chunk, (assignSlots chunks slots).map f = chunks.map f := by
  have hone : ∀ slot chunks, (assignSlot slot chunks).map f = chunks.map f := by
    intro slot chunks
    induction chunks with
    | nil => rfl
    | cons chunk chunks ih =>
      simp only [assignSlot]
      split
      · simp [hf]
      · simp [ih]
  induction slots with
  | nil => exact fun chunks => rfl
  | cons slot slots ih => exact fun chunks => (ih (assignSlot slot chunks)).trans (hone slot chunks)

theorem assignSlots_places (slots : List Slot) (chunks : List Chunk) :
    (assignSlots chunks slots).map Chunk.place = chunks.map Chunk.place :=
  assignSlots_map Chunk.place (fun _ _ _ => rfl) slots chunks

theorem assignSlots_forall {β : Type} (f : Chunk → β) (hf : ∀ c key url, f { c with key, url } = f c) {v : β}
    {chunks : List Chunk} (h : ∀ c ∈ chunks, f c = v) (slots : List Slot) : ∀ c ∈ assignSlots chunks slots, f c = v := by
  intro c hc
  have hmem : f c ∈ chunks.map f := assignSlots_map f hf slots chunks ▸ List.mem_map_of_mem hc
  obtain ⟨d, hd, hdc⟩ := List.mem_map.mp hmem
  exact hdc.symm.trans (h d hd)

/-! ## Marking -/

/-- The list with a chunk in the place of those with its index. -/
def replaceIndex (chunk : Chunk) (item : Chunk) : Chunk := if item.index = chunk.index then chunk else item

theorem replaceIndex_index (chunk item : Chunk) : (replaceIndex chunk item).index = item.index := by
  unfold replaceIndex
  split
  · rename_i h
    exact h.symm
  · rfl

/-- The first chunk with the index is the one that is replaced. -/
theorem markUploaded_split {items items' : List Chunk} {chunk : Chunk} (h : markUploaded items chunk = some items') :
    ∃ front item back, items = front ++ item :: back ∧ items' = front ++ chunk :: back ∧ item.index = chunk.index ∧
      ∀ c ∈ front, c.index ≠ chunk.index := by
  induction items generalizing items' with
  | nil => cases h
  | cons item items ih =>
    simp only [markUploaded] at h
    split at h
    · rename_i hindex
      cases h
      exact ⟨[], item, items, rfl, rfl, hindex, by simp⟩
    · rename_i hindex
      obtain ⟨marked, hmarked, rfl⟩ := Option.map_eq_some_iff.mp h
      obtain ⟨front, found, back, rfl, rfl, hfound, hfront⟩ := ih hmarked
      exact ⟨item :: front, found, back, rfl, rfl, hfound, by simpa [hindex] using hfront⟩

theorem markUploaded_map {items items' : List Chunk} {chunk : Chunk} (hnodup : (items.map (·.index)).Nodup)
    (h : markUploaded items chunk = some items') : items' = items.map (replaceIndex chunk) := by
  obtain ⟨front, item, back, rfl, rfl, hindex, hfront⟩ := markUploaded_split h
  rw [List.map_append, List.map_cons] at hnodup
  have hback : ∀ c ∈ back, c.index ≠ chunk.index := fun c hc heq =>
    (List.nodup_cons.mp (List.nodup_append.mp hnodup).2.1).1 (hindex ▸ heq ▸ List.mem_map_of_mem hc)
  have hsame : ∀ cs : List Chunk, (∀ c ∈ cs, c.index ≠ chunk.index) → cs.map (replaceIndex chunk) = cs := fun cs hcs =>
    (List.map_congr_left fun c hc => if_neg (hcs c hc)).trans (List.map_id _)
  rw [List.map_append, List.map_cons, hsame front hfront, hsame back hback]
  simp [replaceIndex, hindex]

theorem markUploaded_known {items items' : List Chunk} {chunk : Chunk} (h : markUploaded items chunk = some items') :
    chunk.index ∈ items.map (·.index) := by
  obtain ⟨front, item, back, rfl, -, hindex, -⟩ := markUploaded_split h
  simp [← hindex]

/-- The last record of an index. -/
def lastRecord (index : Nat) (records : List Chunk) : Option Chunk := (records.filter (·.index = index)).getLast?

theorem lastRecord_cons (index : Nat) (c : Chunk) (records : List Chunk) :
    lastRecord index (c :: records) = (lastRecord index records).or (if c.index = index then some c else none) := by
  unfold lastRecord
  by_cases h : c.index = index
  · simp only [h, decide_true, List.filter_cons_of_pos, List.getLast?_cons, if_true]
    cases (records.filter (·.index = index)).getLast? <;> rfl
  · simp [h]

theorem lastRecord_index {index : Nat} {records : List Chunk} {c : Chunk} (h : lastRecord index records = some c) :
    c.index = index := by
  have hmem := List.mem_of_getLast? h
  simpa using (List.mem_filter.mp hmem).2

/-- The chunks marked one after the other are in the end the last records of their indexes. -/
theorem foldlM_markUploaded {records : List Chunk} : ∀ {items items' : List Chunk}, (items.map (·.index)).Nodup →
    records.foldlM markUploaded items = some items' →
      items' = items.map (fun item => (lastRecord item.index records).getD item) ∧
        ∀ c ∈ records, c.index ∈ items.map (·.index) := by
  induction records with
  | nil =>
    intro items items' _ h
    cases h
    simp [lastRecord]
  | cons record records ih =>
    intro items items' hnodup h
    rw [List.foldlM_cons] at h
    obtain ⟨marked, hmarked, h⟩ := Option.bind_eq_some_iff.mp h
    have hmap := markUploaded_map hnodup hmarked
    have hindexes : marked.map (·.index) = items.map (·.index) := by
      rw [hmap, List.map_map]
      exact List.map_congr_left fun item _ => replaceIndex_index record item
    obtain ⟨hitems, hknown⟩ := ih (hindexes ▸ hnodup) h
    rw [hindexes] at hknown
    refine ⟨?_, ?_⟩
    · rw [hitems, hmap, List.map_map]
      refine List.map_congr_left fun item _ => ?_
      rw [Function.comp_apply, replaceIndex_index, lastRecord_cons]
      cases lastRecord item.index records with
      | some c => rfl
      | none =>
        unfold replaceIndex
        by_cases hindex : item.index = record.index
        · simp [hindex]
        · simp [hindex, Ne.symm hindex]
    · intro c hc
      rcases List.mem_cons.mp hc with rfl | hc
      · exact markUploaded_known hmarked
      · exact hknown c hc

theorem foldlM_markUploaded_indexes {records items items' : List Chunk} (hnodup : (items.map (·.index)).Nodup)
    (h : records.foldlM markUploaded items = some items') : items'.map (·.index) = items.map (·.index) := by
  obtain ⟨rfl, _⟩ := foldlM_markUploaded hnodup h
  rw [List.map_map]
  refine List.map_congr_left fun item _ => ?_
  rw [Function.comp_apply]
  cases hlast : lastRecord item.index records with
  | none => rfl
  | some c => exact lastRecord_index hlast

/-! ## The uploads -/

/-- The chunk is what `uploadChunk` reports for its place and the source files of the time. -/
def Upload.Genuine (job : UploadJob) (u : Upload) : Prop :=
  ∃ chunk put parts, chunk.place = u.chunk.place ∧
    uploadChunk u.files job.hashes job.codecs job.config u.spare put chunk = .ok (parts, u.chunk)

/-- A chunk is reported with its size and checksum, and without its url. -/
theorem uploadChunk_reports {job : UploadJob} {files : Store PathBuf} {spare : Nat} {put : Except String Unit}
    {chunk chunk' : Chunk} {parts : List Bytes}
    (h : uploadChunk files job.hashes job.codecs job.config spare put chunk = .ok (parts, chunk')) :
    ∃ size checksum, chunk' = { chunk with size, checksum, url := none } := by
  unfold uploadChunk at h
  dsimp only at h
  split at h
  · obtain ⟨reader, _, h⟩ := Except.of_bind_ok h
    split at h
    · obtain ⟨_, _, h⟩ := Except.of_bind_ok h
      obtain ⟨⟨_, _⟩, _, h⟩ := Except.of_bind_ok h
      obtain ⟨_, _, h⟩ := Except.of_bind_ok h
      cases h
      exact ⟨_, _, rfl⟩
    · obtain ⟨⟨_, _, _⟩, _, h⟩ := Except.of_bind_ok h
      obtain ⟨_, _, h⟩ := Except.of_bind_ok h
      obtain ⟨_, _, h⟩ := Except.of_bind_ok h
      cases h
      exact ⟨_, _, rfl⟩
  · cases h
    exact ⟨_, _, rfl⟩

/-- What is reported of a chunk keeps its place. -/
theorem uploadChunk_place {job : UploadJob} {files : Store PathBuf} {spare : Nat} {put : Except String Unit}
    {chunk chunk' : Chunk} {parts : List Bytes}
    (h : uploadChunk files job.hashes job.codecs job.config spare put chunk = .ok (parts, chunk')) :
    chunk'.place = chunk.place := by
  obtain ⟨size, checksum, rfl⟩ := uploadChunk_reports h
  rfl

theorem uploadWithRetry_ok {job : UploadJob} {chunk chunk' : Chunk} {attempts : Nat → UploadAttempt}
    {files : Store PathBuf} {spare : Nat} {retries : Nat} : ∀ {attempt : Nat},
    job.uploadWithRetry chunk attempts retries attempt = .ok (chunk', files, spare) →
      ∃ put parts, uploadChunk files job.hashes job.codecs job.config spare put chunk = .ok (parts, chunk') := by
  have honce : ∀ a, UploadJob.uploadWithRetry.once job chunk a = .ok (chunk', files, spare) →
      ∃ put parts, uploadChunk files job.hashes job.codecs job.config spare put chunk = .ok (parts, chunk') := by
    intro a h
    cases a with
    | interrupted => cases h
    | made files' spare' put =>
      simp only [UploadJob.uploadWithRetry.once] at h
      cases hup : uploadChunk files' job.hashes job.codecs job.config spare' put chunk with
      | error e => simp [hup, Except.map] at h
      | ok r =>
        obtain ⟨parts, c⟩ := r
        simp only [hup, Except.map, Except.ok.injEq, Prod.mk.injEq] at h
        obtain ⟨rfl, rfl, rfl⟩ := h
        exact ⟨put, parts, hup⟩
  induction retries with
  | zero =>
    intro attempt h
    exact honce _ h
  | succ retries ih =>
    intro attempt h
    simp only [UploadJob.uploadWithRetry] at h
    split at h
    · rename_i hres
      cases h
      exact honce _ hres
    · exact ih h

/-- The upload was made for the blueprint: under its data version, of one of its places. -/
structure Upload.For (job : UploadJob) (b : UploadBlueprint) (u : Upload) : Prop where
  dataVersion : u.dataVersion = b.dataVersion
  genuine : u.Genuine job
  place : u.chunk.place ∈ b.manifest.chunks.map Chunk.place

/-! ## What is on disk -/

structure UploadBlueprint.WellFormed (b : UploadBlueprint) : Prop where
  distinct : (b.manifest.chunks.map (·.index)).Nodup
  unsized : ∀ c ∈ b.manifest.chunks, c.size = 0

/-- The blueprint on disk is well formed, and the uploads since it was saved are for it. -/
def DiskOk (job : UploadJob) (s : UploadSt) : Prop :=
  ∀ b, s.files.blueprint = .whole b → b.WellFormed ∧ ∀ u ∈ s.uploads, u.For job b

theorem newBlueprint_wellFormed {job : UploadJob} {slots : Nat} {env : UploadStartEnv} {b : UploadBlueprint}
    {uploadSlots : List Slot} (h : job.newBlueprint slots env = .ok (b, uploadSlots)) : b.WellFormed := by
  unfold UploadJob.newBlueprint at h
  obtain ⟨sources, _, h⟩ := Except.of_bind_ok h
  split at h
  · cases h
  · obtain ⟨_, _, h⟩ := Except.of_bind_ok h
    obtain ⟨_, _, h⟩ := Except.of_bind_ok h
    cases h
    refine ⟨?_, fun c hc => (fillSlots_unknown _ _ _ _ _ _ c hc).1⟩
    simp only [prepareManifestBlueprint, fillSlots_indexes]
    exact List.nodup_range'

/-! ## A run -/

/-- The run cannot end well any more. -/
def UploadRun.Doomed (r : UploadRun) : Prop := r.runners.result ≠ none ∨ r.run = false

/-- The chunks of a run that are not uploaded yet. -/
def UploadRun.pending (r : UploadRun) : List Chunk := r.uploaders.chunks ++ r.uploaders.futures

/-- A run on the blueprint `b`, with the uploads since `b` was saved. -/
structure Tracks (b : UploadBlueprint) (uploads : List Upload) (r : UploadRun) : Prop where
  dataVersion : r.blueprint.dataVersion = b.dataVersion
  slotVersion : r.uploaders.dataVersion = b.dataVersion
  totalSize : r.blueprint.manifest.totalSize = b.manifest.totalSize
  compression : r.blueprint.manifest.compression = b.manifest.compression
  places : r.blueprint.manifest.chunks.map Chunk.place = b.manifest.chunks.map Chunk.place
  pending : ∀ p ∈ r.pending, p.place ∈ b.manifest.chunks.map Chunk.place
  accounted : r.Doomed ∨ ∀ m ∈ r.blueprint.manifest.chunks,
    m.index ∈ r.pending.map (·.index) ∨ ∃ u ∈ uploads, u.chunk = m
  stopped : r.runners.run = false → r.Doomed
  launched : r.Doomed ∨ r.phase = .launching ∨ r.phase = .waiting ∧ (r.uploaders.futures = [] → r.pending = []) ∨
    r.pending = []

/-- A run works on the blueprint on disk. -/
def UploadRunOk (s : UploadSt) : Prop :=
  ∀ r, s.current = some r → ∃ b, s.files.blueprint = .whole b ∧ Tracks b s.uploads r

theorem uploadRunOk_none {s : UploadSt} (h : s.current = none) : UploadRunOk s := by
  intro r hr
  rw [h] at hr
  cases hr

/-- A run that cannot end well any more only has to keep its places. -/
theorem Tracks.doomed {b : UploadBlueprint} {uploads uploads' : List Upload} {r r' : UploadRun}
    (h : Tracks b uploads r) (hdoomed : r'.Doomed) (hblueprint : r'.blueprint = r.blueprint)
    (hversion : r'.uploaders.dataVersion = r.uploaders.dataVersion) (hpending : ∀ p ∈ r'.pending, p ∈ r.pending) :
    Tracks b uploads' r' where
  dataVersion := hblueprint ▸ h.dataVersion
  slotVersion := hversion.trans h.slotVersion
  totalSize := hblueprint ▸ h.totalSize
  compression := hblueprint ▸ h.compression
  places := hblueprint ▸ h.places
  pending p hp := h.pending p (hpending p hp)
  accounted := .inl hdoomed
  stopped _ := hdoomed
  launched := .inl hdoomed

theorem doomed_handleError {r : UploadRun} (err : UploadError) :
    UploadRun.Doomed { r with runners := r.runners.handleError err } :=
  .inl (RunnersState.handleError_result _ _)

/-! ## Launching -/

theorem launch_spec (free : Nat) : ∀ u : ParallelChunkUploaders,
    (ParallelChunkUploaders.launch free u).dataVersion = u.dataVersion ∧
      ((ParallelChunkUploaders.launch free u).chunks ++ (ParallelChunkUploaders.launch free u).futures).Perm
        (u.chunks ++ u.futures) ∧
      ((ParallelChunkUploaders.launch free u).futures = [] → u.futures = [] ∧ (free = 0 ∨ u.chunks = [])) := by
  induction free with
  | zero =>
    intro u
    exact ⟨rfl, .refl _, fun h => ⟨h, .inl rfl⟩⟩
  | succ free ih =>
    intro u
    simp only [ParallelChunkUploaders.launch]
    cases hlast : u.chunks.getLast? with
    | none =>
      exact ⟨rfl, .refl _, fun h => ⟨h, .inr (List.getLast?_eq_none_iff.mp hlast)⟩⟩
    | some chunk =>
      obtain ⟨hversion, hperm, hnone⟩ := ih { u with chunks := u.chunks.dropLast, futures := u.futures ++ [chunk] }
      refine ⟨hversion, hperm.trans ?_, fun h => ?_⟩
      · have hsplit : u.chunks = u.chunks.dropLast ++ [chunk] := by
          rw [List.dropLast_append_getLast? chunk hlast]
        rw [hsplit, List.dropLast_concat, List.append_assoc]
        exact List.Perm.append_left _ (List.perm_append_comm)
      · have hfutures := (hnone h).1
        simp at hfutures

theorem updateSlots_ok {u u' : ParallelChunkUploaders} {slots : Except String UploadSlots}
    (h : u.updateSlots slots = .ok u') :
    u'.dataVersion = u.dataVersion ∧ u'.maxRunners = u.maxRunners ∧ u'.futures = u.futures ∧
      u'.chunks.map Chunk.place = u.chunks.map Chunk.place := by
  unfold ParallelChunkUploaders.updateSlots at h
  split at h
  · split at h
    · cases slots with
      | error e => cases h
      | ok slots =>
        cases h
        exact ⟨rfl, rfl, rfl, assignSlots_places _ _⟩
    · cases h
      exact ⟨rfl, rfl, rfl, rfl⟩
  · cases h
    exact ⟨rfl, rfl, rfl, rfl⟩

theorem pending_indexes (chunks : List Chunk) : chunks.map (·.index) = (chunks.map Chunk.place).map Prod.fst := by
  simp [Chunk.place, Function.comp_def]

/-- The places of the pending chunks stay when some are launched. -/
theorem launchMore_pending {u u' : ParallelChunkUploaders} {slots : Except String UploadSlots}
    (hslots : u.updateSlots slots = .ok u') :
    ((u'.launchMore.chunks ++ u'.launchMore.futures).map Chunk.place).Perm ((u.chunks ++ u.futures).map Chunk.place) := by
  obtain ⟨_, _, hfutures, hplaces⟩ := updateSlots_ok hslots
  obtain ⟨_, hperm, _⟩ := launch_spec (u'.maxRunners - u'.futures.length) u'
  refine (hperm.map _).trans ?_
  rw [List.map_append, hplaces, hfutures, ← List.map_append]

/-- Launching moves chunks to the uploaders: with a runner, some are in flight or none is left. -/
theorem tracks_launch {b : UploadBlueprint} {uploads : List Upload} {r : UploadRun} {u : ParallelChunkUploaders}
    {slots : Except String UploadSlots} (h : Tracks b uploads r) (hslots : r.uploaders.updateSlots slots = .ok u)
    (hrunners : r.uploaders.chunks ≠ [] → 0 < r.uploaders.maxRunners) :
    Tracks b uploads { r with uploaders := u.launchMore, phase := .waiting } := by
  obtain ⟨hversion, hmax, hfutures, hplaces⟩ := updateSlots_ok hslots
  obtain ⟨hversion', hperm, hnone⟩ := launch_spec (u.maxRunners - u.futures.length) u
  have hpending : ((u.launchMore.chunks ++ u.launchMore.futures).map Chunk.place).Perm (r.pending.map Chunk.place) :=
    launchMore_pending hslots
  refine ⟨h.dataVersion, (hversion'.trans hversion).trans h.slotVersion, h.totalSize, h.compression, h.places, ?_, ?_,
    h.stopped, ?_⟩
  · intro p hp
    obtain ⟨q, hq, hqp⟩ := List.mem_map.mp (hpending.mem_iff.mp (List.mem_map_of_mem hp))
    rw [← hqp]
    exact h.pending q hq
  · refine h.accounted.imp id fun hall m hm => (hall m hm).imp (fun hin => ?_) id
    rw [pending_indexes] at hin ⊢
    exact (hpending.map Prod.fst).mem_iff.mpr hin
  · refine .inr (.inr (.inl ⟨rfl, fun hidle => ?_⟩))
    obtain ⟨hidle', hfree⟩ := hnone hidle
    have hchunks : u.chunks = [] := by
      rcases hfree with hfree | hchunks
      · -- no free runner and none at work: there is no runner at all
        by_contra hne
        have hne' : r.uploaders.chunks ≠ [] := by
          intro hnil
          rw [hnil] at hplaces
          exact hne (List.map_eq_nil_iff.mp hplaces)
        have hpos := hrunners hne'
        rw [hidle', List.length_nil, hmax] at hfree
        omega
      · exact hchunks
    have hnil : u.chunks ++ u.futures = [] := by
      rw [hchunks, hidle']
      rfl
    exact (hperm.trans (.of_eq hnil)).eq_nil

/-! ## Reports -/

/-- A chunk uploader is done with its chunk. -/
theorem takeTask_pending {r : UploadRun} {i : Nat} {chunk : Chunk} (h : r.uploaders.futures[i]? = some chunk) :
    r.pending.Perm (chunk :: (UploadJob.takeTask r i).pending) := by
  obtain ⟨hi, rfl⟩ := List.getElem?_eq_some_iff.mp h
  have herase := (List.getElem_cons_eraseIdx_perm hi).symm
  exact (List.Perm.append_left _ herase).trans List.perm_middle

/-- What saving a report does: it fails, or the chunk is marked. -/
theorem saveUploaded_spec (s : UploadSt) (r : UploadRun) (chunk : Chunk) (env : SaveUploadedEnv) :
    ∃ s' r' res, UploadJob.saveUploaded s r chunk env = ((s', r'), res) ∧
      s'.files.blueprint = s.files.blueprint ∧ s'.uploads = s.uploads ∧ s'.puts = s.puts ∧
      (r' = r ∧ res ≠ .ok () ∨ ∃ chunks, markUploaded r.blueprint.manifest.chunks chunk = some chunks ∧
        r' = { r with
          blueprint := { r.blueprint with manifest := { r.blueprint.manifest with chunks } }
          uploadedChunks := (r.uploadedChunks + 1) % u32Size }) := by
  unfold UploadJob.saveUploaded
  dsimp only
  split
  · exact ⟨_, _, _, rfl, rfl, rfl, rfl, .inl ⟨rfl, by simp⟩⟩
  · split
    · exact ⟨_, _, _, rfl, rfl, rfl, rfl, .inl ⟨rfl, by simp⟩⟩
    · rename_i chunks hmark
      exact ⟨_, _, _, rfl, rfl, rfl, rfl, .inr ⟨chunks, hmark, rfl⟩⟩

/-- A reported chunk that is marked is accounted for by its report. -/
theorem tracks_mark {b : UploadBlueprint} {uploads : List Upload} {r : UploadRun} {i : Nat} {chunk : Chunk}
    {chunks : List Chunk} (u : Upload) (hb : b.WellFormed) (h : Tracks b uploads r) (htask : r.uploaders.futures[i]? = some chunk)
    (hplace : u.chunk.place = chunk.place)
    (hmark : markUploaded r.blueprint.manifest.chunks u.chunk = some chunks) (n : Nat) :
    Tracks b (uploads ++ [u]) { UploadJob.takeTask r i with
      blueprint := { r.blueprint with manifest := { r.blueprint.manifest with chunks } }, uploadedChunks := n } := by
  have hperm := takeTask_pending htask
  have hdistinct : (r.blueprint.manifest.chunks.map (·.index)).Nodup := by
    rw [indexes_of_places h.places]
    exact hb.distinct
  have hmap := markUploaded_map hdistinct hmark
  have hin : u.chunk.place ∈ b.manifest.chunks.map Chunk.place := by
    rw [hplace]
    exact h.pending chunk (hperm.mem_iff.mpr (by simp))
  have hplaces : chunks.map Chunk.place = b.manifest.chunks.map Chunk.place := by
    rw [← h.places, hmap, List.map_map]
    refine List.map_congr_left fun m hm => ?_
    simp only [Function.comp_apply, replaceIndex]
    split
    · rename_i hindex
      refine place_unique hb.distinct hin ?_ hindex.symm
      rw [← h.places]
      exact List.mem_map_of_mem hm
    · rfl
  refine ⟨h.dataVersion, h.slotVersion, h.totalSize, h.compression, hplaces, ?_, ?_, h.stopped, .inr (.inl rfl)⟩
  · intro p hp
    exact h.pending p (hperm.mem_iff.mpr (List.mem_cons_of_mem _ hp))
  · refine h.accounted.imp id fun hall m hm => ?_
    rw [hmap] at hm
    obtain ⟨item, hitem, rfl⟩ := List.mem_map.mp hm
    unfold replaceIndex
    split
    · exact .inr ⟨u, by simp, rfl⟩
    · rename_i hindex
      refine (hall item hitem).imp (fun hpend => ?_) fun ⟨v, hv, hvm⟩ => ⟨v, by simp [hv], hvm⟩
      obtain ⟨p, hp, hpm⟩ := List.mem_map.mp hpend
      rcases List.mem_cons.mp (hperm.mem_iff.mp hp) with rfl | hp
      · exact absurd (hpm.symm.trans (congrArg Prod.fst hplace).symm) hindex
      · exact List.mem_map.mpr ⟨p, hp, hpm⟩

end Blockvisor
