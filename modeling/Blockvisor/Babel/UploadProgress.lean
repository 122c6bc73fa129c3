/-
The progress of an upload. Its total is the number of slots, its count the
number of chunks put on record, those on record when the run began among them
(`UploadJob.writes`).

`UploadTally` ties the count of a run to its blueprint: it counts every uploaded
chunk once, and none of those still pending. It is kept by every step whose
start deals the sources to as many chunks as there are slots, or resumes with
records of distinct chunks, none of size zero (`UploadJob.Tallies`), which
gives `progress_sound`. Nothing else in the source sees to it: `progress_over`
is a run that counts a chunk of empty files twice.
-/
import Blockvisor.Babel.UploadSteps

namespace Blockvisor

open Machine Extent

/-! ## Chunks and slots -/

/-- The sources are dealt to as many chunks as there are slots, or to none: with fewer bytes than
slots, empty files on top of the stack would fill the first slot and leave the second one empty. -/
def DealtOut (sources : SourcesList) (slots : Nat) : Prop :=
  slots ≤ 1 ∨ slots ≤ sources.totalSize ∨ slots = 2 ∧ sources.totalSize = 1 ∨
    ∀ f ∈ (sourceStack sources.sources).head?, 0 < f.size

/-- Slots that all have room take something each, as long as there is enough of it. -/
theorem fillSlots_full (totalSlots c l : Nat) (hc : 0 < c) (hl : 0 < l) :
    ∀ (n index : Nat) (stack : List FileLocation), index + (n + 1) = totalSlots → n * c + l ≤ total stack →
      (fillSlots totalSlots c l (n + 1) index stack).length = n + 1 := by
  intro n
  induction n with
  | zero =>
    intro index stack hindex hsize
    have hroom : slotSize totalSlots c l index = l := by
      unfold slotSize
      rw [if_neg (by omega)]
    have hd := buildDestinations_spec (slotSize totalSlots c l index) stack
    have htakes := hd.takes (by omega) (by omega)
    simp [fillSlots, htakes]
  | succ n ih =>
    intro index stack hindex hsize
    have hroom : slotSize totalSlots c l index = c := by
      unfold slotSize
      rw [if_pos (by omega)]
    have hd := buildDestinations_spec (slotSize totalSlots c l index) stack
    have htakes := hd.takes (by omega) (by omega)
    have htaken := hd.size
    have hleft := hd.total
    have hmul : (n + 1) * c = n * c + c := Nat.succ_mul n c
    rw [fillSlots]
    dsimp only
    rw [if_neg htakes, List.length_cons, ih (index + 1) _ (by omega) (by omega)]

/-- One slot takes all there is. -/
theorem fillSlots_one {l : Nat} {f : FileLocation} {fs : List FileLocation} (h : f.size = 0 ∨ 0 < l) :
    (fillSlots 1 0 l 1 0 (f :: fs)).length = 1 := by
  have hd := buildDestinations_spec (slotSize 1 0 l 0) (f :: fs)
  have htakes : (buildDestinations (slotSize 1 0 l 0) (f :: fs)).1 ≠ [] := by
    cases h with
    | inl hempty => exact hd.progress_empty f fs rfl hempty
    | inr hl => exact hd.progress hl (by simp)
  simp [fillSlots, htakes]

/-- A first slot without room takes nothing of a file that is not empty. -/
theorem fillSlots_blocked (m l : Nat) {f : FileLocation} {fs : List FileLocation} (h : 0 < f.size) :
    fillSlots (m + 2) 0 l (m + 2) 0 (f :: fs) = [] := by
  have hd := buildDestinations_spec (slotSize (m + 2) 0 l 0) (f :: fs)
  have hroom : slotSize (m + 2) 0 l 0 = 0 := by simp [slotSize]
  simp [fillSlots, hd.stuck hroom f fs rfl h]

/-- A first slot without room takes the empty files on top and leaves every byte; only the second
of two slots can take the one byte there is then. -/
theorem fillSlots_empties (m : Nat) (f : FileLocation) (fs : List FileLocation) (hempty : f.size = 0)
    (hfew : total (f :: fs) < m + 2) :
    (fillSlots (m + 2) 0 (total (f :: fs)) (m + 2) 0 (f :: fs)).length = if m = 0 ∧ total (f :: fs) = 1 then 2 else 1 := by
  have hroom : slotSize (m + 2) 0 (total (f :: fs)) 0 = 0 := by simp [slotSize]
  have hd := buildDestinations_spec 0 (f :: fs)
  have htakes := hd.progress_empty f fs rfl hempty
  have hleft := hd.total
  have hnone := hd.size
  rw [fillSlots, hroom]
  dsimp only
  rw [if_neg htakes, fillSlots, List.length_cons]
  dsimp only
  have hd' := buildDestinations_spec (slotSize (m + 2) 0 (total (f :: fs)) 1) (buildDestinations 0 (f :: fs)).2
  by_cases htwo : m = 0 ∧ total (f :: fs) = 1
  · obtain ⟨rfl, hbyte⟩ := htwo
    have hroom' : 0 < slotSize (0 + 2) 0 (total (f :: fs)) 1 := by simp [slotSize, hbyte]
    have hne : (buildDestinations 0 (f :: fs)).2 ≠ [] := by
      intro hnil
      rw [hnil, total_nil] at hleft
      omega
    rw [if_neg (hd'.progress hroom' hne), if_pos ⟨rfl, hbyte⟩]
    simp [fillSlots]
  · have hstuck : (buildDestinations (slotSize (m + 2) 0 (total (f :: fs)) 1) (buildDestinations 0 (f :: fs)).2).1 = [] := by
      cases hl : (buildDestinations 0 (f :: fs)).2 with
      | nil => simp [buildDestinations, buildDestinationsFrom]
      | cons g gs =>
        -- there is a byte, so there are more slots than two, and the second one has no room either
        have hpos := hd.head g gs hl
        rw [hl, total_cons] at hleft
        have hroom' : slotSize (m + 2) 0 (total (f :: fs)) 1 = 0 := by
          unfold slotSize
          rw [if_pos (by omega)]
        rw [hl] at hd'
        exact hd'.stuck hroom' g gs rfl hpos
    rw [if_pos hstuck, if_neg htwo, List.length_nil]

/-- **`DealtOut` is exact.** -/
theorem dealtOut_iff (sources : SourcesList) {slots : Nat} (compression : Option Compression) (hslots : 0 < slots) :
    DealtOut sources slots ↔ (prepareManifestBlueprint sources slots compression).chunks = [] ∨
      (prepareManifestBlueprint sources slots compression).chunks.length = slots := by
  have hstack : total (sourceStack sources.sources) = sources.totalSize := by
    rw [total_perm (sourceStack_perm sources.sources), sources.totalSize_eq]
  obtain ⟨n, rfl⟩ : ∃ n, slots = n + 1 := ⟨slots - 1, by omega⟩
  by_cases hmany : n + 1 ≤ sources.totalSize
  · -- every slot has room for a byte at least
    refine ⟨fun _ => .inr ?_, fun _ => .inr (.inl hmany)⟩
    have hc : 0 < sources.totalSize / (n + 1) := Nat.div_pos hmany hslots
    have hmod := Nat.div_add_mod sources.totalSize (n + 1)
    rw [Nat.succ_mul] at hmod
    exact fillSlots_full (n + 1) _ _ hc (by omega) n 0 _ (by omega) (by omega)
  have hdiv : sources.totalSize / (n + 1) = 0 := Nat.div_eq_of_lt (by omega)
  have hrest : sources.totalSize % (n + 1) = sources.totalSize := Nat.mod_eq_of_lt (by omega)
  simp only [prepareManifestBlueprint, hdiv, hrest, Nat.zero_add, DealtOut]
  cases hsources : sourceStack sources.sources with
  | nil => simp [fillSlots, buildDestinations, buildDestinationsFrom]
  | cons f fs =>
    rw [hsources] at hstack
    cases n with
    | zero =>
      refine ⟨fun _ => .inr (fillSlots_one ?_), fun _ => .inl (Nat.le_refl 1)⟩
      rw [total_cons] at hstack
      omega
    | succ m =>
      by_cases hfirst : 0 < f.size
      · refine ⟨fun _ => .inl (fillSlots_blocked m _ hfirst), fun _ => .inr (.inr (.inr ?_))⟩
        intro g hg
        rw [List.head?_cons, Option.mem_some_iff] at hg
        exact hg ▸ hfirst
      · have hlength := fillSlots_empties m f fs (by omega) (by omega)
        rw [hstack] at hlength
        have hne : fillSlots (m + 2) 0 sources.totalSize (m + 2) 0 (f :: fs) ≠ [] := by
          intro hnil
          rw [hnil, List.length_nil] at hlength
          split at hlength <;> omega
        have hhead : ¬ ∀ g ∈ (f :: fs).head?, 0 < g.size := fun hall => hfirst (hall f rfl)
        simp only [hne, hlength, hhead, hmany, false_or, or_false]
        split <;> omega

/-! ## Uploaded chunks -/

/-- An uploaded chunk has the checksum that uploaders make; that of a blueprint's is unknown. -/
def Chunk.isUploaded (c : Chunk) : Bool :=
  match c.checksum with
  | .blake3 _ => true
  | _ => false

section Checksums

variable {src : Store PathBuf} {enc : Coder} {hashes : Hashes} {cfg : TransferConfig} {spare : Nat}

theorem tryNext_checksum (r : DestinationsReader enc) : (∃ digest, r.checksum = .blake3 digest) →
    ∀ {part r'}, r.tryNext src hashes cfg spare = .ok (part, r') → ∃ digest, r'.checksum = .blake3 digest := by
  fun_induction DestinationsReader.tryNext src hashes cfg spare r with
  | case1 r hi =>
    intro hr part r' h
    cases h
    exact hr
  | case2 => intro _ _ _ h; cases h
  | case3 => intro _ _ _ h; cases h
  | case4 =>
    intro _ part r' h
    cases h
    exact ⟨_, rfl⟩
  | case5 => intro _ _ _ h; cases h
  | case6 =>
    intro hr part r' h
    cases h
    exact hr
  | case7 =>
    rename_i ih
    exact fun hr => ih hr

theorem parts_checksum (r : DestinationsReader enc) : (∃ digest, r.checksum = .blake3 digest) →
    ∀ {ps}, r.parts src hashes cfg spare = .ok ps → ∃ digest, ps.2 = .blake3 digest := by
  fun_induction DestinationsReader.parts src hashes cfg spare r with
  | case1 => intro _ _ h; cases h
  | case2 r r' hnext =>
    intro hr ps h
    cases h
    exact tryNext_checksum r hr hnext
  | case3 r part r' hnext ih =>
    intro hr ps h
    obtain ⟨rest, hrest, rfl⟩ := Except.of_map_ok h
    have hchecksum := ih (tryNext_checksum r hr hnext) hrest
    exact hchecksum

theorem new_checksum {destinations : List FileLocation} {r : DestinationsReader enc}
    (h : DestinationsReader.new src hashes destinations = .ok r) : ∃ digest, r.checksum = .blake3 digest := by
  cases destinations with
  | nil => cases h
  | cons first iter =>
    obtain ⟨current, _, rfl⟩ := Except.of_map_ok h
    exact ⟨_, rfl⟩

theorem nonRecoverable_ok {α : Type} {x : Except NonRecoverableError α} {a : α} (h : nonRecoverable x = .ok a) : x = .ok a := by
  cases x with
  | error e => cases h
  | ok b =>
    cases h
    rfl

/-- What is reported is uploaded. -/
theorem uploadChunk_isUploaded {codecs : Codecs} {put : Except String Unit} {chunk chunk' : Chunk} {parts : List Bytes}
    (h : uploadChunk src hashes codecs cfg spare put chunk = .ok (parts, chunk')) : chunk'.isUploaded = true := by
  have hof : ∀ {c : Chunk}, (∃ digest, c.checksum = .blake3 digest) → c.isUploaded = true := by
    intro c hc
    obtain ⟨digest, hc⟩ := hc
    simp [Chunk.isUploaded, hc]
  unfold uploadChunk at h
  dsimp only at h
  split at h
  · obtain ⟨reader, hnew, h⟩ := Except.of_bind_ok h
    have hreader := new_checksum (nonRecoverable_ok hnew)
    split at h
    · obtain ⟨_, _, h⟩ := Except.of_bind_ok h
      obtain ⟨⟨_, _⟩, hparts, h⟩ := Except.of_bind_ok h
      obtain ⟨_, _, h⟩ := Except.of_bind_ok h
      cases h
      exact hof (parts_checksum reader hreader (nonRecoverable_ok hparts))
    · obtain ⟨⟨_, _, _⟩, hconsumed, h⟩ := Except.of_bind_ok h
      obtain ⟨_, _, h⟩ := Except.of_bind_ok h
      obtain ⟨_, _, h⟩ := Except.of_bind_ok h
      cases h
      obtain ⟨ps, hparts, hps⟩ := Except.of_map_ok (nonRecoverable_ok hconsumed)
      cases hps
      exact hof (parts_checksum reader hreader hparts)
  · cases h
    rfl

end Checksums

/-! ## Marking and counting -/

/-- The chunks of a list that are uploaded. -/
def uploadedCount (chunks : List Chunk) : Nat := chunks.countP Chunk.isUploaded

/-- None of the chunks with this index is uploaded. -/
def NoneUploaded (chunks : List Chunk) (index : Nat) : Prop := ∀ c ∈ chunks, c.index = index → c.isUploaded = false

theorem markUploaded_mem {items items' : List Chunk} {chunk : Chunk} (h : markUploaded items chunk = some items') :
    ∀ c ∈ items', c = chunk ∨ c ∈ items := by
  obtain ⟨front, item, back, rfl, rfl, -, -⟩ := markUploaded_split h
  intro c hc
  simp only [List.mem_append, List.mem_cons] at hc ⊢
  rcases hc with hc | hc | hc
  · exact .inr (.inl hc)
  · exact .inl hc
  · exact .inr (.inr (.inr hc))

/-- A chunk that is marked for the first time counts once. -/
theorem markUploaded_count {items items' : List Chunk} {chunk : Chunk} (huploaded : chunk.isUploaded = true)
    (hopen : NoneUploaded items chunk.index) (h : markUploaded items chunk = some items') :
    uploadedCount items' = uploadedCount items + 1 := by
  obtain ⟨front, item, back, rfl, rfl, hindex, -⟩ := markUploaded_split h
  have hitem : item.isUploaded = false := hopen item (by simp) hindex
  simp only [uploadedCount, List.countP_append, List.countP_cons, huploaded, hitem]
  simp [Nat.add_assoc]

theorem markUploaded_open {items items' : List Chunk} {chunk : Chunk} {index : Nat} (hopen : NoneUploaded items index)
    (hne : chunk.index ≠ index) (h : markUploaded items chunk = some items') : NoneUploaded items' index := by
  intro c hc hindex
  cases markUploaded_mem h c hc with
  | inl hsame => exact absurd (hsame ▸ hindex) hne
  | inr hc => exact hopen c hc hindex

/-- The records of distinct chunks count once each. -/
theorem foldlM_markUploaded_count {records : List Chunk} : ∀ {items items' : List Chunk},
    (records.map (·.index)).Nodup → (∀ c ∈ records, c.isUploaded = true) → (∀ c ∈ records, NoneUploaded items c.index) →
      records.foldlM markUploaded items = some items' →
        uploadedCount items' = uploadedCount items + records.length ∧ ∀ c ∈ items', c ∈ records ∨ c ∈ items := by
  induction records with
  | nil =>
    intro items items' _ _ _ h
    cases h
    exact ⟨rfl, fun c hc => .inr hc⟩
  | cons record records ih =>
    intro items items' hnodup huploaded hopen h
    rw [List.foldlM_cons] at h
    obtain ⟨marked, hmarked, h⟩ := Option.bind_eq_some_iff.mp h
    rw [List.map_cons, List.nodup_cons] at hnodup
    have hself := hopen record (List.mem_cons_self ..)
    have hcount := markUploaded_count (huploaded record (List.mem_cons_self ..)) hself hmarked
    have hrest : ∀ c ∈ records, NoneUploaded marked c.index := by
      intro c hc
      refine markUploaded_open (hopen c (List.mem_cons_of_mem _ hc)) (fun hsame => hnodup.1 ?_) hmarked
      exact hsame ▸ List.mem_map_of_mem hc
    obtain ⟨hcount', hmem⟩ := ih hnodup.2 (fun c hc => huploaded c (List.mem_cons_of_mem _ hc)) hrest h
    refine ⟨?_, fun c hc => ?_⟩
    · rw [hcount', hcount, List.length_cons]
      omega
    · cases hmem c hc with
      | inl hc => exact .inl (List.mem_cons_of_mem _ hc)
      | inr hc =>
        cases markUploaded_mem hmarked c hc with
        | inl hsame => exact .inl (hsame ▸ List.mem_cons_self ..)
        | inr hc => exact .inr hc

/-! ## The count of a run -/

/-- A run counts every uploaded chunk of its blueprint once, and none that is pending; its
blueprint has as many chunks as there are slots, or none. -/
structure UploadTally (r : UploadRun) : Prop where
  distinct : (r.blueprint.manifest.chunks.map (·.index)).Nodup
  slots : r.blueprint.manifest.chunks = [] ∨ r.blueprint.manifest.chunks.length = r.totalSlots
  fits : r.totalSlots < u32Size
  counted : r.uploadedChunks = uploadedCount r.blueprint.manifest.chunks
  pending : (r.pending.map (·.index)).Nodup
  pendingOpen : ∀ p ∈ r.pending, NoneUploaded r.blueprint.manifest.chunks p.index

/-- A blueprint on disk has no uploaded chunk. -/
structure UploadBlueprint.Untouched (b : UploadBlueprint) : Prop where
  wellFormed : b.WellFormed
  untouched : ∀ c ∈ b.manifest.chunks, c.isUploaded = false

/-- The count of a run does not wrap. -/
theorem UploadTally.count_lt {r : UploadRun} (h : UploadTally r) {chunks : List Chunk}
    (hlength : chunks.length = r.blueprint.manifest.chunks.length) : uploadedCount chunks < u32Size := by
  have hle : uploadedCount chunks ≤ chunks.length := List.countP_le_length
  have hfits := h.fits
  have hpos : 0 < u32Size := by decide
  cases h.slots with
  | inl hnil =>
    rw [hnil, List.length_nil] at hlength
    omega
  | inr hslots => omega

theorem markUploaded_length {items items' : List Chunk} {chunk : Chunk} (h : markUploaded items chunk = some items') :
    items'.length = items.length := by
  obtain ⟨front, item, back, rfl, rfl, -, -⟩ := markUploaded_split h
  simp

section Tallies

variable {job : UploadJob} {r r' : UploadRun}

theorem newTotalSlots_lt {env : UploadStartEnv} {slots : Nat} (htyped : ∀ n, job.numberOfChunks = some n → n < u32Size)
    (h : job.newTotalSlots env = .ok slots) : slots < u32Size := by
  have hpos : 0 < u32Size := by decide
  unfold UploadJob.newTotalSlots at h
  cases hnumber : job.numberOfChunks with
  | none =>
    rw [hnumber] at h
    cases hlisted : env.listed with
    | error e =>
      rw [hlisted] at h
      cases h
    | ok sources =>
      rw [hlisted] at h
      cases h
      exact Nat.mod_lt _ hpos
  | some n =>
    rw [hnumber] at h
    cases n with
    | zero => cases h
    | succ n =>
      cases h
      exact htyped _ hnumber

theorem UploadTally.congr (h : UploadTally r) (hblueprint : r'.blueprint = r.blueprint) (hslots : r'.totalSlots = r.totalSlots)
    (hcount : r'.uploadedChunks = r.uploadedChunks) (hpending : (r'.pending.map (·.index)).Perm (r.pending.map (·.index))) :
    UploadTally r' where
  distinct := hblueprint ▸ h.distinct
  slots := by
    rw [hblueprint, hslots]
    exact h.slots
  fits := hslots ▸ h.fits
  counted := by
    rw [hcount, hblueprint]
    exact h.counted
  pending := hpending.nodup_iff.mpr h.pending
  pendingOpen p hp := by
    obtain ⟨q, hq, hqp⟩ := List.mem_map.mp (hpending.mem_iff.mp (List.mem_map_of_mem hp))
    rw [hblueprint, ← hqp]
    exact h.pendingOpen q hq

/-- A task that is over leaves the pending chunks. -/
theorem UploadTally.takeTask {i : Nat} {chunk : Chunk} (h : UploadTally r) (htask : r.uploaders.futures[i]? = some chunk) :
    UploadTally (UploadJob.takeTask r i) ∧ chunk.index ∉ (UploadJob.takeTask r i).pending.map (·.index) := by
  have hperm := takeTask_pending htask
  have hnodup := (hperm.map (·.index)).nodup_iff.mp h.pending
  rw [List.map_cons, List.nodup_cons] at hnodup
  refine ⟨⟨h.distinct, h.slots, h.fits, h.counted, hnodup.2, fun p hp => ?_⟩, hnodup.1⟩
  exact h.pendingOpen p (hperm.mem_iff.mpr (List.mem_cons_of_mem _ hp))

/-- What a report adds to the count: its own chunk. -/
theorem UploadTally.count_marked {i : Nat} {chunk chunk' : Chunk} {attempts : Nat → UploadAttempt} {files : Store PathBuf}
    {spare : Nat} {chunks : List Chunk} (h : UploadTally r) (htask : r.uploaders.futures[i]? = some chunk)
    (hup : job.uploadWithRetry chunk attempts job.config.maxRetries 0 = .ok (chunk', files, spare))
    (hmark : markUploaded r.blueprint.manifest.chunks chunk' = some chunks) :
    uploadedCount chunks = r.uploadedChunks + 1 ∧ (r.uploadedChunks + 1) % u32Size = r.uploadedChunks + 1 := by
  obtain ⟨put, parts, hchunk⟩ := uploadWithRetry_ok hup
  have hindex : chunk'.index = chunk.index := congrArg Prod.fst (uploadChunk_place hchunk)
  have hopen : NoneUploaded r.blueprint.manifest.chunks chunk'.index := by
    rw [hindex]
    exact h.pendingOpen chunk ((takeTask_pending htask).mem_iff.mpr (List.mem_cons_self ..))
  have hcount := markUploaded_count (uploadChunk_isUploaded hchunk) hopen hmark
  have hlt := h.count_lt (markUploaded_length hmark)
  rw [← h.counted] at hcount
  exact ⟨hcount, Nat.mod_eq_of_lt (hcount ▸ hlt)⟩

theorem UploadTally.marked {i : Nat} {chunk chunk' : Chunk} {attempts : Nat → UploadAttempt} {files : Store PathBuf}
    {spare : Nat} {chunks : List Chunk} (h : UploadTally r) (htask : r.uploaders.futures[i]? = some chunk)
    (hup : job.uploadWithRetry chunk attempts job.config.maxRetries 0 = .ok (chunk', files, spare))
    (hmark : markUploaded r.blueprint.manifest.chunks chunk' = some chunks) :
    UploadTally ((UploadJob.takeTask r i).marked chunks) := by
  obtain ⟨hcount, hfits⟩ := h.count_marked htask hup hmark
  obtain ⟨htaken, hgone⟩ := h.takeTask htask
  obtain ⟨put, parts, hchunk⟩ := uploadWithRetry_ok hup
  have hindex : chunk'.index = chunk.index := congrArg Prod.fst (uploadChunk_place hchunk)
  have hlength := markUploaded_length hmark
  refine ⟨?_, ?_, h.fits, hfits.trans hcount.symm, htaken.pending, fun p hp => ?_⟩
  · have hsame : chunks.map (·.index) = r.blueprint.manifest.chunks.map (·.index) := by
      rw [markUploaded_map h.distinct hmark, List.map_map]
      exact List.map_congr_left fun item _ => replaceIndex_index chunk' item
    exact hsame ▸ h.distinct
  · refine h.slots.imp (fun hnil => ?_) fun hslots => hlength.trans hslots
    rw [hnil] at hlength
    exact List.eq_nil_of_length_eq_zero hlength
  · refine markUploaded_open (htaken.pendingOpen p hp) (fun hsame => hgone ?_) hmark
    rw [← hindex, hsame]
    exact List.mem_map_of_mem hp

/-! ## Every run -/

/-- A start counts right: it deals its sources to its slots, or it resumes a blueprint with as many
chunks as there are slots and records of distinct chunks, none of size zero. -/
def UploadJob.Tallies (job : UploadJob) (s : UploadSt) : UploadAct → Prop
  | .start env => ∀ slots, job.newTotalSlots env = .ok slots →
    ((∀ b, UploadJob.loadBlueprint s.files env ≠ .ok b) → ∀ sources, env.sources = .ok sources → DealtOut sources slots) ∧
      ∀ b records, UploadJob.loadBlueprint s.files env = .ok b → s.files.chunks.load = some records →
        (b.manifest.chunks = [] ∨ b.manifest.chunks.length = slots) ∧ (records.map (·.index)).Nodup ∧
          ∀ c ∈ records, c.size ≠ 0
  | _ => True

theorem fillSlots_untouched (totalSlots c l : Nat) : ∀ (n index : Nat) (stack : List FileLocation),
    ∀ chunk ∈ fillSlots totalSlots c l n index stack, chunk.isUploaded = false := by
  intro n
  induction n with
  | zero =>
    intro index stack chunk h
    cases h
  | succ n ih =>
    intro index stack chunk h
    simp only [fillSlots] at h
    split at h
    · cases h
    · cases List.mem_cons.mp h with
      | inl h =>
        subst h
        rfl
      | inr h => exact ih _ _ chunk h

theorem newBlueprint_untouched {slots : Nat} {env : UploadStartEnv} {b : UploadBlueprint} {uploadSlots : List Slot}
    (h : job.newBlueprint slots env = .ok (b, uploadSlots)) : b.Untouched := by
  obtain ⟨sources, _, _, _, _, _, hmanifest⟩ := newBlueprint_ok h
  refine ⟨newBlueprint_wellFormed h, ?_⟩
  rw [hmanifest]
  exact fillSlots_untouched _ _ _ _ _ _

theorem uploadedCount_zero {chunks : List Chunk} (h : ∀ c ∈ chunks, c.isUploaded = false) : uploadedCount chunks = 0 := by
  refine List.countP_eq_zero.mpr fun c hc => ?_
  rw [h c hc]
  decide

theorem tally_begun {slots : Nat} {b : UploadBlueprint} {chunks : List Chunk} {n : Nat}
    (hdistinct : (chunks.map (·.index)).Nodup) (hslots : chunks = [] ∨ chunks.length = slots) (hfits : slots < u32Size)
    (hcount : uploadedCount chunks = n) (hopen : ∀ c ∈ chunks, c.size = 0 → c.isUploaded = false) :
    UploadTally (job.begun slots b chunks n) := by
  have hle : uploadedCount chunks ≤ chunks.length := List.countP_le_length
  have hlength : chunks.length ≤ slots := by
    cases hslots with
    | inl hnil =>
      rw [hnil]
      exact Nat.zero_le _
    | inr hslots => exact hslots.le
  have hn : n % u32Size = n := Nat.mod_eq_of_lt (by omega)
  refine ⟨hdistinct, hslots, hfits, hn.trans hcount.symm, ?_, fun p hp c hc hindex => ?_⟩
  · simp only [UploadRun.pending, UploadJob.begun, ParallelChunkUploaders.new, List.append_nil]
    exact (List.filter_sublist.map _).nodup hdistinct
  · simp only [UploadRun.pending, UploadJob.begun, ParallelChunkUploaders.new, List.append_nil] at hp
    obtain ⟨hp, hsize⟩ := List.mem_filter.mp hp
    rw [List.inj_on_of_nodup_map hdistinct hc hp hindex]
    exact hopen p hp (by simpa using hsize)

/-- Every run counts right. -/
theorem tally_invariant (htyped : ∀ n, job.numberOfChunks = some n → n < u32Size) :
    UploadInvariant job job.Tallies UploadBlueprint.Untouched (·.isUploaded = true) UploadTally where
  new hnew := newBlueprint_untouched hnew
  reports hup := by
    obtain ⟨put, parts, hchunk⟩ := uploadWithRetry_ok hup
    exact uploadChunk_isUploaded hchunk
  begins hok hslots hfresh hnew := by
    rename_i b _
    obtain ⟨sources, res, hsources, _, rfl, hpos, hmanifest⟩ := newBlueprint_ok hnew
    obtain ⟨hwf, huntouched⟩ := newBlueprint_untouched hnew
    have hdealt := (dealtOut_iff sources job.config.compression hpos).mp ((hok _ hslots).1 hfresh sources hsources)
    rw [← hmanifest] at hdealt
    have hplaces := assignSlots_places res.slots b.manifest.chunks
    have hopen := assignSlots_forall Chunk.isUploaded (fun _ _ _ => rfl) huntouched res.slots
    refine tally_begun ?_ ?_ (newTotalSlots_lt htyped hslots) (uploadedCount_zero hopen) fun c hc _ => hopen c hc
    · rw [indexes_of_places hplaces]
      exact hwf.distinct
    · have hlength := congrArg List.length hplaces
      simp only [List.length_map] at hlength
      refine hdealt.imp (fun hnil => ?_) fun hfull => hlength.trans hfull
      rw [hnil, List.length_nil] at hlength
      exact List.eq_nil_of_length_eq_zero (hnil ▸ hlength)
  resumes hok hslots hload hrecords hb huploaded hmark := by
    obtain ⟨hlength, hnodup, hsized⟩ := (hok _ hslots).2 _ _ hload hrecords
    have hindexes := foldlM_markUploaded_indexes hb.wellFormed.distinct hmark
    obtain ⟨hcount, hmem⟩ := foldlM_markUploaded_count hnodup huploaded (fun _ _ c hc _ => hb.untouched c hc) hmark
    rw [uploadedCount_zero hb.untouched, Nat.zero_add] at hcount
    have hsame := congrArg List.length hindexes
    simp only [List.length_map] at hsame
    refine tally_begun (hindexes ▸ hb.wellFormed.distinct) ?_ (newTotalSlots_lt htyped hslots) hcount fun c hc hsize => ?_
    · refine hlength.imp (fun hnil => ?_) fun hfull => hsame.trans hfull
      rw [hnil, List.length_nil] at hsame
      exact List.eq_nil_of_length_eq_zero hsame
    · cases hmem c hc with
      | inl hrecord => exact absurd hsize (hsized c hrecord)
      | inr hchunk => exact hb.untouched c hchunk
  turns hr hturn := by
    refine hr.congr hturn.blueprint hturn.totalSlots hturn.uploadedChunks ?_
    rw [UploadRun.pending, UploadRun.pending, hturn.uploaders]
  launches _ _ hr _ _ hslots := by
    refine hr.congr rfl rfl rfl ?_
    rw [pending_indexes, pending_indexes]
    exact (launchMore_pending hslots).map Prod.fst
  tasks hr _ htask := (hr.takeTask htask).1
  marks hr _ htask hup hmark := hr.marked htask hup hmark
  errors err hr := hr.congr rfl rfl rfl (.refl _)

/-! ## What is written -/

end Tallies

/-- The progress a run writes, and the chunks of its blueprint then. -/
structure ProgressWrite where
  chunks : List Chunk
  progress : JobProgress

/-- The progress is of the chunks: it counts every uploaded one once, stays within its total, and
comes to it when all of them are uploaded. -/
structure ProgressWrite.Sound (w : ProgressWrite) : Prop where
  bounded : w.progress.current ≤ w.progress.total
  once : w.progress.current = uploadedCount w.chunks
  complete : (∀ c ∈ w.chunks, c.isUploaded = true) → w.progress.current = w.progress.total

namespace UploadJob

variable (job : UploadJob)

/-- What a step writes to the progress file, however the write is cut: a chunk that is uploaded,
put on record and marked is counted. -/
def writes (s : UploadSt) : UploadAct → Option ProgressWrite
  | .complete i attempts env => do
    let r ← s.current
    let chunk ← r.uploaders.futures[i]?
    let (chunk, _) ← (job.uploadWithRetry chunk attempts job.config.maxRetries 0).toOption
    if env.saveChunk = .none then
      (markUploaded r.blueprint.manifest.chunks chunk).map fun chunks => ⟨chunks, (r.marked chunks).progress⟩
    else none
  | _ => none

/-- What a run of the machine writes, one after the other. -/
def history : UploadSt → List UploadAct → List ProgressWrite
  | _, [] => []
  | s, a :: as =>
    match job.step s a with
    | none => []
    | some s' => (job.writes s a).toList ++ history s' as

end UploadJob

section History

variable {job : UploadJob}

theorem writes_none {s : UploadSt} {a : UploadAct} (h : ¬ a.Completes) : job.writes s a = none := by
  cases a with
  | complete i attempts env => exact absurd trivial h
  | _ => rfl

/-- A chunk that is uploaded is counted when it is put on record and marked. -/
theorem writes_uploaded {s : UploadSt} {r : UploadRun} {i : Nat} {attempts : Nat → UploadAttempt} {env : SaveUploadedEnv}
    {chunk chunk' : Chunk} {files : Store PathBuf} {spare : Nat} (hr : s.current = some r)
    (htask : r.uploaders.futures[i]? = some chunk)
    (hup : job.uploadWithRetry chunk attempts job.config.maxRetries 0 = .ok (chunk', files, spare)) :
    job.writes s (.complete i attempts env) =
      if env.saveChunk = .none then
        (markUploaded r.blueprint.manifest.chunks chunk').map fun chunks => ⟨chunks, (r.marked chunks).progress⟩
      else none := by
  simp [UploadJob.writes, hr, htask, hup, Except.toOption]

/-- A step writes nothing and keeps the count of its run, or it counts a chunk. -/
inductive StepWrites (job : UploadJob) (s : UploadSt) (a : UploadAct) (s' : UploadSt) : Prop
  | quiet (hwrites : job.writes s a = none) (hfiles : s'.files.progress = s.files.progress)
      (hcount : (∃ env, a = .start env) ∨
        ∀ r', s'.current = some r' → ∃ r, s.current = some r ∧ r'.uploadedChunks = r.uploadedChunks)
  | counts {r : UploadRun} {i : Nat} {attempts : Nat → UploadAttempt} {chunk chunk' : Chunk} {files : Store PathBuf}
      {spare : Nat} {chunks : List Chunk} {cut : DocCut} (hr : s.current = some r)
      (htask : r.uploaders.futures[i]? = some chunk)
      (hup : job.uploadWithRetry chunk attempts job.config.maxRetries 0 = .ok (chunk', files, spare))
      (hmark : markUploaded r.blueprint.manifest.chunks chunk' = some chunks)
      (hwrites : job.writes s a = some ⟨chunks, (r.marked chunks).progress⟩)
      (hfiles : s'.files.progress = s.files.progress.write (r.marked chunks).progress cut)
      (hcount : ∀ r', s'.current = some r' → r'.uploadedChunks = (r.marked chunks).progress.current)

theorem goesOn_count {r r' : UploadRun} (h : r.GoesOn r') : r'.uploadedChunks = r.uploadedChunks := by
  rcases h with rfl | ⟨err, rfl⟩ <;> rfl

theorem step_writes {s s' : UploadSt} {a : UploadAct} (hs : job.step s a = some s') : StepWrites job s a s' := by
  have hover : s'.current = none → ∀ r', s'.current = some r' → ∃ r, s.current = some r ∧ r'.uploadedChunks = r.uploadedChunks := by
    intro hnone r' hr'
    rw [hnone] at hr'
    cases hr'
  cases step_move hs with
  | ends hact hcurrent hfiles => exact .quiet (writes_none hact) hfiles.progress (.inr (hover hcurrent))
  | unsaved hnew hcurrent hfiles => exact .quiet rfl (by rw [hfiles]) (.inl ⟨_, rfl⟩)
  | begins _ _ _ hcurrent hfiles => exact .quiet rfl (by rw [hfiles]) (.inl ⟨_, rfl⟩)
  | resumes _ _ _ _ hcurrent hfiles => exact .quiet rfl (by rw [hfiles]) (.inl ⟨_, rfl⟩)
  | turns hact hr hcurrent hturn hfiles =>
    refine .quiet (writes_none hact) (by rw [hfiles]) (.inr fun r' hr' => ⟨_, hr, ?_⟩)
    rw [hcurrent] at hr'
    cases hr'
    exact hturn.uploadedChunks
  | launches hr hphase hrun hslots hcurrent hfiles =>
    refine .quiet rfl (by rw [hfiles]) (.inr fun r' hr' => ⟨_, hr, ?_⟩)
    rw [hcurrent] at hr'
    cases hr'
    rfl
  | fails hr hphase htask hact hcurrent hfiles =>
    refine .quiet ?_ (by rw [hfiles]) (.inr fun r' hr' => ⟨_, hr, ?_⟩)
    · rcases hact with rfl | ⟨attempts, env, rfl, herr⟩
      · rfl
      · simp [UploadJob.writes, hr, htask, herr, Except.toOption]
    · rw [hcurrent] at hr'
      cases hr'
      rfl
  | unrecorded hr hphase htask hup hsave hcurrent hfiles =>
    refine .quiet ?_ (by rw [hfiles]) (.inr ?_)
    · rw [writes_uploaded hr htask hup]
      cases hsave with
      | inl hfault => exact if_neg hfault
      | inr hmark => simp [hmark]
    · rcases hcurrent with hnone | ⟨r', hr', hgoes⟩
      · exact hover hnone
      · intro q hq
        rw [hr'] at hq
        cases hq
        have hsame := goesOn_count hgoes
        exact ⟨_, hr, hsame⟩
  | records hr hphase htask hup hsave hmark hcurrent hfiles =>
    refine .counts hr htask hup hmark ?_ (by rw [hfiles]; rfl) fun q hq => ?_
    · rw [writes_uploaded hr htask hup, if_pos hsave, hmark]
      rfl
    · rcases hcurrent with hnone | ⟨r', hr', hgoes⟩
      · rw [hnone] at hq
        cases hq
      · rw [hr'] at hq
        cases hq
        have hsame := goesOn_count hgoes
        exact hsame

/-- What is written for a chunk that is counted is sound. -/
theorem UploadTally.sound {r : UploadRun} {i : Nat} {chunk chunk' : Chunk} {attempts : Nat → UploadAttempt}
    {files : Store PathBuf} {spare : Nat} {chunks : List Chunk} (h : UploadTally r)
    (htask : r.uploaders.futures[i]? = some chunk)
    (hup : job.uploadWithRetry chunk attempts job.config.maxRetries 0 = .ok (chunk', files, spare))
    (hmark : markUploaded r.blueprint.manifest.chunks chunk' = some chunks) :
    ProgressWrite.Sound ⟨chunks, (r.marked chunks).progress⟩ := by
  obtain ⟨hcount, hfits⟩ := h.count_marked htask hup hmark
  have honce : (r.marked chunks).progress.current = uploadedCount chunks := hfits.trans hcount.symm
  have hle : uploadedCount chunks ≤ chunks.length := List.countP_le_length
  have htotal : chunks.length = (r.marked chunks).progress.total := by
    cases h.slots with
    | inl hnil =>
      rw [hnil] at hmark
      cases hmark
    | inr hslots => exact (markUploaded_length hmark).trans hslots
  refine ⟨?_, honce, fun hall => ?_⟩
  · show (r.marked chunks).progress.current ≤ (r.marked chunks).progress.total
    omega
  · have hfull : uploadedCount chunks = chunks.length := List.countP_eq_length.mpr hall
    show (r.marked chunks).progress.current = (r.marked chunks).progress.total
    omega

/-- Everything written is sound, when every run counts right. -/
theorem history_sound {ok : UploadSt → UploadAct → Prop} {B : UploadBlueprint → Prop} {R : Chunk → Prop}
    (htally : UploadInvariant job ok B R UploadTally) {acts : List UploadAct} : ∀ {s : UploadSt}, s.Hold B R UploadTally →
      Along job.step ok s acts → ∀ w ∈ job.history s acts, w.Sound := by
  induction acts with
  | nil => exact fun _ _ w hw => by cases hw
  | cons a acts ih =>
    intro s hs hok w hw
    have hrest := hok.2
    simp only [UploadJob.history] at hw
    cases hstep : job.step s a with
    | none =>
      rw [hstep] at hw
      cases hw
    | some s' =>
      rw [hstep] at hw hrest
      cases List.mem_append.mp hw with
      | inr hw => exact ih (htally.step s a s' hs hok.1 hstep) hrest w hw
      | inl hw =>
        cases step_writes hstep with
        | quiet hwrites _ _ =>
          rw [hwrites] at hw
          cases hw
        | counts hr htask hup hmark hwrites _ _ =>
          rw [hwrites, Option.toList_some, List.mem_singleton] at hw
          rw [hw]
          exact (hs.run _ hr).sound htask hup hmark

/-- What one run writes only grows, from its count on. -/
theorem history_grows {ok : UploadSt → UploadAct → Prop} {B : UploadBlueprint → Prop} {R : Chunk → Prop}
    (htally : UploadInvariant job ok B R UploadTally) {acts : List UploadAct} (hone : ∀ env, .start env ∉ acts) :
    ∀ {s : UploadSt}, s.Hold B R UploadTally → Along job.step ok s acts →
      (∀ w ∈ job.history s acts, ∃ r, s.current = some r ∧ r.uploadedChunks ≤ w.progress.current) ∧
        (job.history s acts).Pairwise fun w w' => w.progress.current ≤ w'.progress.current := by
  induction acts with
  | nil => exact fun _ _ => ⟨fun w hw => (by cases hw), .nil⟩
  | cons a acts ih =>
    intro s hs hok
    have hrest := hok.2
    simp only [UploadJob.history]
    cases hstep : job.step s a with
    | none => exact ⟨fun w hw => (by cases hw), .nil⟩
    | some s' =>
      rw [hstep] at hrest
      obtain ⟨hfloor, hpairs⟩ := ih (fun env h => hone env (List.mem_cons_of_mem _ h)) (htally.step s a s' hs hok.1 hstep) hrest
      cases step_writes hstep with
      | quiet hwrites _ hcount =>
        rw [hwrites]
        refine ⟨fun w hw => ?_, hpairs⟩
        obtain ⟨r', hr', hle⟩ := hfloor w hw
        rcases hcount with ⟨env, rfl⟩ | hcount
        · exact absurd (List.mem_cons_self ..) (hone env)
        · obtain ⟨r, hr, hsame⟩ := hcount r' hr'
          exact ⟨r, hr, hsame ▸ hle⟩
      | counts hr htask hup hmark hwrites _ hcount =>
        obtain ⟨_, hfits⟩ := (hs.run _ hr).count_marked htask hup hmark
        rw [hwrites, Option.toList_some]
        have hlater : ∀ w ∈ job.history s' acts, _ ≤ w.progress.current := fun w hw => by
          obtain ⟨r', hr', hle⟩ := hfloor w hw
          exact hcount r' hr' ▸ hle
        refine ⟨fun w hw => ⟨_, hr, ?_⟩, List.pairwise_cons.mpr ⟨hlater, hpairs⟩⟩
        have hmore := Nat.le_succ _ |>.trans hfits.ge
        cases List.mem_cons.mp hw with
        | inl hw =>
          rw [hw]
          exact hmore
        | inr hw => exact hmore.trans (hlater w hw)

/-- The progress on disk is one that was written. -/
theorem progress_written {acts : List UploadAct} : ∀ {s s' : UploadSt}, run job.step s acts = some s' →
    s'.files.progress = s.files.progress ∨ s'.files.progress = .torn ∨
      ∃ w ∈ job.history s acts, s'.files.progress = .whole w.progress := by
  induction acts with
  | nil =>
    intro s s' hrun
    cases hrun
    exact .inl rfl
  | cons a acts ih =>
    intro s s' hrun
    simp only [run] at hrun
    simp only [UploadJob.history]
    cases hstep : job.step s a with
    | none => simp [hstep] at hrun
    | some t =>
      simp only [hstep] at hrun
      rcases ih hrun with hsame | htorn | ⟨w, hw, hwhole⟩
      · rw [hsame]
        cases step_writes hstep with
        | quiet _ hfiles _ => exact .inl hfiles
        | counts hr htask hup hmark hwrites hfiles hcount =>
          rename_i cut
          rw [hfiles, hwrites]
          cases cut with
          | untouched => exact .inl rfl
          | truncated => exact .inr (.inl rfl)
          | fragment => exact .inr (.inl rfl)
          | whole => exact .inr (.inr ⟨_, List.mem_append_left _ (List.mem_singleton_self _), rfl⟩)
      · exact .inr (.inl htorn)
      · exact .inr (.inr ⟨w, List.mem_append_right _ hw, hwhole⟩)

end History

/-- **The progress of an upload is sound.** In a history of runs whose starts count right, all that
is written counts every uploaded chunk of the blueprint once, stays within its total and comes to
it when all chunks are uploaded; what one run writes never falls; and the progress on disk is one
of those written. -/
theorem progress_sound {job : UploadJob} (htyped : ∀ n, job.numberOfChunks = some n → n < u32Size)
    {before during : List UploadAct} {s s' : UploadSt} (hbefore : run job.step .init before = some s)
    (hduring : run job.step s during = some s') (hone : ∀ env, .start env ∉ during)
    (htallies : Along job.step job.Tallies .init (before ++ during)) :
    (∀ w ∈ job.history .init (before ++ during), w.Sound) ∧
      ((job.history s during).Pairwise fun w w' => w.progress.current ≤ w'.progress.current) ∧
      ∀ p, s'.files.progress = .whole p → ∃ w ∈ job.history .init (before ++ during), w.progress = p := by
  have htally := tally_invariant htyped
  obtain ⟨hfirst, hthen⟩ := (along_append job.step hbefore).mp htallies
  have hs := htally.holds hbefore hfirst
  refine ⟨history_sound htally .init htallies, (history_grows htally hone hs hthen).2, fun p hp => ?_⟩
  have hrun : run job.step .init (before ++ during) = some s' := by
    rw [run_append, hbefore]
    exact hduring
  rcases progress_written hrun with hinit | htorn | ⟨w, hw, hwhole⟩
  · rw [hp] at hinit
    cases hinit
  · rw [hp] at htorn
    cases htorn
  · rw [hp] at hwhole
    exact ⟨w, hw, (Doc.whole.inj hwhole).symm⟩

/-- One chunk of one empty file, from its start to its report. -/
theorem progress_sound_one : ∃ s s', run uploadSample.step .init [.start (emptyFileStart "a" 1)] = some s ∧
    run uploadSample.step s (uploadOne 1) = some s' ∧ s'.files.progress = .whole ⟨1, 1, "chunks"⟩ ∧
      ∀ w ∈ uploadSample.history .init (.start (emptyFileStart "a" 1) :: uploadOne 1), w.Sound := by
  have hstart : run uploadSample.step .init [.start (emptyFileStart "a" 1)] = some (begunOn (emptyFileManifest "a") 1) := by
    rw [← start_emptyFile]
    rfl
  have hrest : ∃ s', run uploadSample.step (begunOn (emptyFileManifest "a") 1) (uploadOne 1) = some s' ∧
      s'.files.progress = .whole ⟨1, 1, "chunks"⟩ := ⟨_, rfl, rfl⟩
  obtain ⟨s', hrest, hprogress⟩ := hrest
  have htallies : Along uploadSample.step uploadSample.Tallies .init ([.start (emptyFileStart "a" 1)] ++ uploadOne 1) := by
    refine (along_append uploadSample.step hstart).mpr ⟨⟨fun slots hslots => ?_, ?_⟩, trivial, trivial, trivial⟩
    · cases hslots
      exact ⟨fun _ _ _ => .inl (Nat.le_refl 1), fun b _ hload => by cases hload⟩
    · split <;> trivial
  refine ⟨_, s', hstart, hrest, hprogress, (progress_sound (fun n hn => ?_) hstart hrest (fun env h => ?_) htallies).1⟩
  · cases hn
    decide
  · simp [uploadOne] at h

/-- A chunk of one empty file is uploaded, and again by the run that resumes. -/
def twiceActs : List UploadAct :=
  .start (emptyFileStart "a" 1) :: (uploadOne 1 ++ .kill :: .start (emptyFileStart "a" 1) :: uploadOne 1)

/-- **A chunk of size zero counts again**: two chunks of one are uploaded. -/
theorem progress_over : ∃ s p, run uploadSample.step .init twiceActs = some s ∧ s.files.progress = .whole p ∧
    ¬ p.current ≤ p.total := by
  have hrest : ∃ s, run uploadSample.step (begunOn (emptyFileManifest "a") 1) twiceActs.tail = some s ∧
      s.files.progress = .whole ⟨1, 2, "chunks"⟩ := ⟨_, rfl, rfl⟩
  obtain ⟨s, hrest, hprogress⟩ := hrest
  refine ⟨s, _, ?_, hprogress, by decide⟩
  rw [← hrest, ← start_emptyFile]
  rfl

end Blockvisor
