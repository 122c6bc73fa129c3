/-
Manifests put, over whole histories of upload runs.

`UploadOk` holds between the steps: the disk and the run are in order
(`DiskOk`, `UploadRunOk`) and every manifest put is faithful. It is kept by
every step that resumes a blueprint with its own records and launches with a
runner (`UploadJob.Unmixed`), which gives `upload_faithful`; nothing else in
the source sees to it, and `upload_mixed` is a history in which a manifest
names a file that is no longer there.
-/
import Blockvisor.Babel.UploadFacts

namespace Blockvisor

open Machine

/-! ## Puts -/

/-- The manifest put holds the chunks of the blueprint on disk, each as it was reported uploaded
since the blueprint was saved, under the data version of the blueprint. -/
structure Put.Faithful (job : UploadJob) (p : Put) : Prop where
  current : ∃ b, p.blueprint = .whole b ∧ (b.manifest.chunks.map (·.index)).Nodup ∧
    p.dataVersion = b.dataVersion ∧ p.manifest.totalSize = b.manifest.totalSize ∧
    p.manifest.compression = b.manifest.compression ∧
    ∃ chunks : List Chunk, chunks.mapM (Chunk.relativeTo job.sourceDir) = some p.manifest.chunks ∧
      chunks.map Chunk.place = b.manifest.chunks.map Chunk.place ∧
      ∀ c ∈ chunks, ∃ u ∈ p.uploads, u.chunk = c ∧ u.dataVersion = b.dataVersion ∧ u.Genuine job

/-- What holds between the steps of a history of runs. -/
structure UploadOk (job : UploadJob) (s : UploadSt) : Prop where
  disk : DiskOk job s
  run : UploadRunOk s
  puts : ∀ p ∈ s.puts, p.Faithful job

/-- What a step needs that leaves the disk and the uploads alone. -/
theorem UploadOk.congr {job : UploadJob} {s s' : UploadSt} (h : UploadOk job s)
    (hfiles : s'.files.blueprint = s.files.blueprint) (huploads : s'.uploads = s.uploads) (hputs : s'.puts = s.puts)
    (hrun : UploadRunOk s') : UploadOk job s' where
  disk b hb := huploads ▸ h.disk b (hfiles ▸ hb)
  run := hrun
  puts p hp := h.puts p (hputs ▸ hp)

theorem cleanupJob_blueprint (files : UploadFiles) (env : CleanupEnv) :
    (Uploader.cleanupJob files env).1.blueprint = files.blueprint ∨
      (Uploader.cleanupJob files env).1.blueprint = .missing := by
  unfold Uploader.cleanupJob
  dsimp only
  cases env.blueprint.cutOr true <;> cases env.blueprint.result _ <;> cases env.chunks.cutOr true <;> simp

theorem uploadOk_fail {job : UploadJob} {s : UploadSt} (h : UploadOk job s) (e : Exit String) : UploadOk job (UploadJob.fail s e) := by
  cases e with
  | error e => exact ⟨h.disk, h.run, h.puts⟩
  | killed => exact h

/-- A cleanup leaves the blueprint, or none. -/
theorem uploadOk_cleanup {job : UploadJob} {s : UploadSt} {env : CleanupEnv} {result : Except (Exit String) Unit}
    (hdisk : DiskOk job s) (hputs : ∀ p ∈ s.puts, p.Faithful job) : UploadOk job (UploadJob.cleanup s env result) := by
  have hclean : UploadOk job { s with files := (Uploader.cleanupJob s.files env).1, current := none } := by
    refine ⟨fun b hb => ?_, uploadRunOk_none rfl, hputs⟩
    rcases cleanupJob_blueprint s.files env with hsame | hmissing
    · exact hdisk b (hsame ▸ hb)
    · rw [show _ = Doc.missing from hmissing] at hb
      cases hb
  unfold UploadJob.cleanup
  dsimp only
  split
  · exact uploadOk_fail hclean _
  · split
    · exact ⟨hclean.disk, hclean.run, hclean.puts⟩
    · exact uploadOk_fail hclean _

/-- A run at its end without errors has everything uploaded. -/
theorem uploadOk_putManifest {job : UploadJob} {s : UploadSt} {r : UploadRun} {env : UploadFinishEnv}
    (h : UploadOk job s) (hr : s.current = some r) (hphase : r.phase = .finishing) (hresult : r.runners.result = none)
    (hrun : r.run = true) : UploadOk job (job.putManifest s r env) := by
  obtain ⟨b, hb, htracks⟩ := h.run r hr
  obtain ⟨hwf, hfor⟩ := h.disk b hb
  unfold UploadJob.putManifest
  split
  · exact ⟨h.disk, uploadRunOk_none rfl, h.puts⟩
  · rename_i chunks hchunks
    have hdoomed : ¬ r.Doomed := by simp [UploadRun.Doomed, hresult, hrun]
    have hpending : r.pending = [] := by
      rcases htracks.launched with hd | hp | ⟨hp, _⟩ | hnil
      · exact absurd hd hdoomed
      · rw [hphase] at hp
        cases hp
      · rw [hphase] at hp
        cases hp
      · exact hnil
    let put : Put := ⟨{ r.blueprint.manifest with chunks }, r.blueprint.dataVersion, s.files.blueprint, s.uploads⟩
    have hput : put.Faithful job := by
      refine ⟨b, hb, hwf.distinct, htracks.dataVersion, htracks.totalSize, htracks.compression, _, hchunks, htracks.places,
        fun c hc => ?_⟩
      rcases htracks.accounted.resolve_left hdoomed c hc with hp | ⟨u, hu, huc⟩
      · rw [hpending] at hp
        cases hp
      · exact ⟨u, hu, huc, (hfor u hu).dataVersion, (hfor u hu).genuine⟩
    have hputs : ∀ p ∈ s.puts ++ [put], p.Faithful job := by
      intro p hp
      rcases List.mem_append.mp hp with hp | hp
      · exact h.puts p hp
      · rw [List.mem_singleton.mp hp]
        exact hput
    have hok : UploadOk job { s with puts := s.puts ++ [put], current := none } :=
      ⟨h.disk, uploadRunOk_none rfl, hputs⟩
    dsimp only
    split
    · exact uploadOk_cleanup h.disk hputs
    · exact uploadOk_fail hok _

/-! ## The steps of a history -/

/-- The records a resumed run works with are uploads made for the blueprint on disk: for each
index, the last record was reported since the blueprint was saved. With a record of an index that
the blueprint does not have, the run is refused. -/
def CurrentRecords (b : UploadBlueprint) (s : UploadSt) : Prop :=
  ∀ records, s.files.chunks.load = some records →
    (∀ c ∈ records, c.index ∈ b.manifest.chunks.map (·.index)) →
      ∀ index c, lastRecord index records = some c → ∃ u ∈ s.uploads, u.chunk = c

/-- What a step must meet: a blueprint is resumed with its own records, and chunks are launched
with a runner. -/
def UploadJob.Unmixed (s : UploadSt) : UploadAct → Prop
  | .start env => ∀ b, UploadJob.loadBlueprint s.files env = .ok b → CurrentRecords b s
  | .launch _ => ∀ r, s.current = some r → r.uploaders.chunks ≠ [] → 0 < r.uploaders.maxRunners
  | _ => True

/-- The chunks of a blueprint as they were saved, but for their slots. -/
def AsSaved (chunks : List Chunk) (b : UploadBlueprint) : Prop :=
  chunks.map Chunk.place = b.manifest.chunks.map Chunk.place ∧ ∀ c ∈ chunks, c.size = 0

theorem asSaved_assignSlots {b : UploadBlueprint} (hb : b.WellFormed) (slots : List Slot) :
    AsSaved (assignSlots b.manifest.chunks slots) b :=
  ⟨assignSlots_places slots _, assignSlots_forall (·.size) (fun _ _ _ => rfl) hb.unsized slots⟩

/-- A run that begins is on its blueprint. -/
theorem tracks_begin {job : UploadJob} {s : UploadSt} {slots : Nat} {b : UploadBlueprint} {chunks uploaded : List Chunk}
    {r : UploadRun} (hb : b.WellFormed) (hfor : ∀ u ∈ s.uploads, u.For job b) (hchunks : AsSaved chunks b)
    (hrecords : (∀ c ∈ uploaded, c.index ∈ b.manifest.chunks.map (·.index)) →
      ∀ index c, lastRecord index uploaded = some c → ∃ u ∈ s.uploads, u.chunk = c)
    (hidle : s.current = none)
    (hr : (job.beginRun s slots { b with manifest := { b.manifest with chunks } } uploaded).current = some r) :
    Tracks b s.uploads r := by
  obtain ⟨hplaces, hunsized⟩ := hchunks
  unfold UploadJob.beginRun at hr
  split at hr
  · simp [UploadJob.fail, hidle] at hr
  · rename_i marked hfold
    dsimp only at hfold
    cases hr
    have hdistinct : (chunks.map (·.index)).Nodup := by
      rw [indexes_of_places hplaces]
      exact hb.distinct
    obtain ⟨rfl, hknown⟩ := foldlM_markUploaded hdistinct hfold
    rw [indexes_of_places hplaces] at hknown
    have hlast := hrecords hknown
    have hsame : (chunks.map fun item => (lastRecord item.index uploaded).getD item).map Chunk.place =
        b.manifest.chunks.map Chunk.place := by
      rw [← hplaces, List.map_map]
      refine List.map_congr_left fun item hitem => ?_
      rw [Function.comp_apply]
      cases hl : lastRecord item.index uploaded with
      | none => rfl
      | some c =>
        obtain ⟨u, hu, rfl⟩ := hlast _ _ hl
        refine place_unique hb.distinct (hfor u hu).place ?_ (lastRecord_index hl)
        rw [← hplaces]
        exact List.mem_map_of_mem hitem
    refine ⟨rfl, rfl, rfl, rfl, hsame, ?_, .inr ?_, (fun h => by cases h), .inr (.inl rfl)⟩
    · intro p hp
      simp only [UploadRun.pending, ParallelChunkUploaders.new, List.append_nil] at hp
      rw [← hsame]
      exact List.mem_map_of_mem (List.mem_filter.mp hp).1
    · intro m hm
      obtain ⟨item, hitem, rfl⟩ := List.mem_map.mp hm
      cases hl : lastRecord item.index uploaded with
      | none =>
        left
        simp only [UploadRun.pending, ParallelChunkUploaders.new, List.append_nil, Option.getD_none]
        refine List.mem_map_of_mem (List.mem_filter.mpr ⟨?_, by simpa using hunsized item hitem⟩)
        exact List.mem_map.mpr ⟨item, hitem, by simp [hl]⟩
      | some c => exact .inr (hlast _ _ hl)

theorem uploadOk_begin {job : UploadJob} {s : UploadSt} {slots : Nat} {b : UploadBlueprint} {chunks uploaded : List Chunk}
    (h : UploadOk job s) (hidle : s.current = none) (hb : s.files.blueprint = .whole b) (hchunks : AsSaved chunks b)
    (hrecords : (∀ c ∈ uploaded, c.index ∈ b.manifest.chunks.map (·.index)) →
      ∀ index c, lastRecord index uploaded = some c → ∃ u ∈ s.uploads, u.chunk = c) :
    UploadOk job (job.beginRun s slots { b with manifest := { b.manifest with chunks } } uploaded) := by
  obtain ⟨hwf, hfor⟩ := h.disk b hb
  have htracks : ∀ r, (job.beginRun s slots { b with manifest := { b.manifest with chunks } } uploaded).current = some r →
      Tracks b s.uploads r := fun r => tracks_begin hwf hfor hchunks hrecords hidle
  unfold UploadJob.beginRun at htracks ⊢
  split
  · exact uploadOk_fail h _
  · rename_i marked hfold
    simp only [hfold] at htracks
    exact ⟨h.disk, fun r hr => ⟨b, hb, htracks r hr⟩, h.puts⟩

/-- A blueprint that is saved, however the write is cut. -/
theorem uploadOk_saveBlueprint {job : UploadJob} {s : UploadSt} {b : UploadBlueprint} (h : UploadOk job s)
    (hidle : s.current = none) (hb : b.WellFormed) (fault : Fault DocCut) :
    UploadOk job { s with
      files := { s.files with blueprint := (saveJobData s.files.blueprint b fault).1 }
      uploads := if fault.cutOr .whole = .whole then [] else s.uploads } := by
  refine ⟨fun b' hb' => ?_, uploadRunOk_none hidle, h.puts⟩
  simp only [saveJobData, Doc.save, Doc.write] at hb' ⊢
  cases hcut : fault.cutOr .whole with
  | untouched =>
    rw [hcut] at hb'
    exact h.disk b' hb'
  | truncated =>
    rw [hcut] at hb'
    cases hb'
  | fragment =>
    rw [hcut] at hb'
    cases hb'
  | whole =>
    rw [hcut] at hb'
    cases hb'
    exact ⟨hb, by simp⟩

theorem uploadOk_start {job : UploadJob} {s : UploadSt} {env : UploadStartEnv} (h : UploadOk job s)
    (hidle : s.current = none) (hmix : UploadJob.Unmixed s (.start env)) : UploadOk job (job.start s env) := by
  unfold UploadJob.start
  split
  · exact uploadOk_fail h _
  rename_i slots _
  split
  · -- the blueprint on disk is resumed
    rename_i b hload
    have hb : s.files.blueprint = .whole b := by
      unfold UploadJob.loadBlueprint at hload
      split at hload
      · cases hload
      · rename_i b' hdata
        split at hload
        · cases hload
        · split at hload <;> cases hload
          exact loadJobData_ok.mp hdata
    split
    · exact uploadOk_fail h _
    · rename_i uploaded hchunks
      have hrecords := hmix b hload uploaded (loadChunks_ok.mp hchunks)
      exact uploadOk_begin h hidle hb ⟨rfl, (h.disk b hb).1.unsized⟩ hrecords
  · -- a blueprint is made and saved
    split
    · exact uploadOk_fail h _
    · rename_i b uploadSlots hnew
      have hwf := newBlueprint_wellFormed hnew
      have hsave := uploadOk_saveBlueprint h hidle hwf env.saveBlueprint
      dsimp only
      split
      · exact uploadOk_fail hsave _
      · rename_i hok
        have hnone : env.saveBlueprint = .none := by simpa [saveJobData, Doc.save] using hok
        refine uploadOk_begin hsave hidle ?_ (asSaved_assignSlots hwf _) fun _ index c hc => ?_
        · simp [hnone, saveJobData, Doc.save, Doc.write, Fault.cutOr]
        · cases hc

theorem uploadOk_complete {job : UploadJob} {s s' : UploadSt} {r : UploadRun} {i : Nat} {attempts : Nat → UploadAttempt}
    {env : SaveUploadedEnv} (h : UploadOk job s) (hr : s.current = some r)
    (hs : job.complete s r i attempts env = some s') : UploadOk job s' := by
  obtain ⟨b, hb, htracks⟩ := h.run r hr
  obtain ⟨hwf, hfor⟩ := h.disk b hb
  unfold UploadJob.complete at hs
  split at hs
  · cases hs
  split at hs
  · cases hs
  rename_i chunk htask
  have hperm := takeTask_pending htask
  have hless : ∀ p ∈ (UploadJob.takeTask r i).pending, p ∈ r.pending := fun p hp =>
    hperm.mem_iff.mpr (List.mem_cons_of_mem _ hp)
  dsimp only at hs
  split at hs
  · rename_i err _
    cases hs
    refine h.congr rfl rfl rfl fun r' hr' => ?_
    cases hr'
    exact ⟨b, hb, htracks.doomed (doomed_handleError err) rfl rfl hless⟩
  · rename_i chunk' files spare hup
    obtain ⟨put, parts, hchunk⟩ := uploadWithRetry_ok hup
    have hplace := uploadChunk_place hchunk
    let u : Upload := ⟨chunk', files, spare, (UploadJob.takeTask r i).uploaders.dataVersion⟩
    have hu : u.For job b := by
      refine ⟨htracks.slotVersion, ⟨chunk, put, parts, hplace.symm, hchunk⟩, ?_⟩
      rw [show u.chunk.place = chunk.place from hplace]
      exact htracks.pending chunk (hperm.mem_iff.mpr (by simp))
    obtain ⟨s₁, r₁, res, hsave, hblueprint, huploads, hputs, hmark⟩ :=
      saveUploaded_spec { s with uploads := s.uploads ++ [u] } (UploadJob.takeTask r i) chunk' env
    rw [show (⟨chunk', files, spare, (UploadJob.takeTask r i).uploaders.dataVersion⟩ : Upload) = u from rfl, hsave] at hs
    have hdisk : DiskOk job s₁ := by
      intro b' hb'
      rw [hblueprint, hb] at hb'
      cases hb'
      refine ⟨hwf, fun v hv => ?_⟩
      rw [huploads] at hv
      rcases List.mem_append.mp hv with hv | hv
      · exact hfor v hv
      · rw [List.mem_singleton.mp hv]
        exact hu
    have hputs' : ∀ p ∈ s₁.puts, p.Faithful job := by
      rw [hputs]
      exact h.puts
    have hb₁ : s₁.files.blueprint = .whole b := hblueprint.trans hb
    -- a report that is not saved dooms the run, but for its places
    have hdoomed : ∀ err, Tracks b s₁.uploads { r₁ with runners := r₁.runners.handleError err } := by
      intro err
      rcases hmark with ⟨rfl, _⟩ | ⟨chunks, hmark, rfl⟩
      · exact htracks.doomed (doomed_handleError err) rfl rfl hless
      · exact (tracks_mark u hwf htracks htask hplace hmark 0).doomed (doomed_handleError err) rfl rfl fun _ hp => hp
    cases res with
    | ok _ =>
      cases hs
      refine ⟨hdisk, fun r' hr' => ?_, hputs'⟩
      cases hr'
      rcases hmark with ⟨_, hne⟩ | ⟨chunks, hmark, rfl⟩
      · exact absurd rfl hne
      · refine ⟨b, hb₁, ?_⟩
        rw [huploads]
        exact tracks_mark u hwf htracks htask hplace hmark _
    | error e =>
      cases e with
      | error e =>
        cases hs
        refine ⟨hdisk, fun r' hr' => ?_, hputs'⟩
        cases hr'
        exact ⟨b, hb₁, hdoomed _⟩
      | killed =>
        cases hs
        exact ⟨hdisk, uploadRunOk_none rfl, hputs'⟩

theorem uploadOk_stepRun {job : UploadJob} {s s' : UploadSt} {r : UploadRun} {a : UploadAct} (h : UploadOk job s)
    (hr : s.current = some r) (hmix : UploadJob.Unmixed s a) (hs : job.stepRun s r a = some s') : UploadOk job s' := by
  obtain ⟨b, hb, htracks⟩ := h.run r hr
  cases a with
  | start env => cases hs
  | cleanup env => cases hs
  | shutdown =>
    cases hs
    refine h.congr rfl rfl rfl fun r' hr' => ?_
    cases hr'
    exact ⟨b, hb, htracks.doomed (.inr rfl) rfl rfl fun _ hp => hp⟩
  | kill =>
    cases hs
    exact h.congr rfl rfl rfl (uploadRunOk_none rfl)
  | launch slots =>
    simp only [UploadJob.stepRun, UploadJob.launch] at hs
    split at hs
    · cases hs
    split at hs
    · rename_i hstop
      cases hs
      refine h.congr rfl rfl rfl fun r' hr' => ?_
      cases hr'
      exact ⟨b, hb, htracks.doomed (.inr hstop) rfl rfl fun _ hp => hp⟩
    split at hs
    · split at hs
      · rename_i e _
        cases hs
        refine h.congr rfl rfl rfl fun r' hr' => ?_
        cases hr'
        exact ⟨b, hb, htracks.doomed (doomed_handleError (.other e)) rfl rfl fun _ hp => hp⟩
      · rename_i u hslots
        cases hs
        refine h.congr rfl rfl rfl fun r' hr' => ?_
        cases hr'
        exact ⟨b, hb, tracks_launch htracks hslots (hmix r hr)⟩
    · rename_i hstop
      cases hs
      refine h.congr rfl rfl rfl fun r' hr' => ?_
      cases hr'
      exact ⟨b, hb, htracks.doomed (htracks.stopped (by simpa using hstop)) rfl rfl fun _ hp => hp⟩
  | complete i attempts env => exact uploadOk_complete h hr hs
  | abort i =>
    simp only [UploadJob.stepRun, UploadJob.abort] at hs
    split at hs
    · cases hs
    split at hs
    · cases hs
    · rename_i chunk htask
      cases hs
      refine h.congr rfl rfl rfl fun r' hr' => ?_
      cases hr'
      exact ⟨b, hb, htracks.doomed (doomed_handleError (.other "task panicked")) rfl rfl fun p hp =>
        (takeTask_pending htask).mem_iff.mpr (List.mem_cons_of_mem _ hp)⟩
  | noFutures =>
    simp only [UploadJob.stepRun] at hs
    split at hs
    · rename_i hidle
      cases hs
      refine h.congr rfl rfl rfl fun r' hr' => ?_
      cases hr'
      refine ⟨b, hb, { htracks with launched := ?_ }⟩
      rcases htracks.launched with hd | hp | ⟨_, hall⟩ | hnil
      · exact .inl hd
      · rw [hidle.1] at hp
        cases hp
      · exact .inr (.inr (.inr (hall (List.isEmpty_iff.mp hidle.2))))
      · exact .inr (.inr (.inr hnil))
    · cases hs
  | stopped =>
    simp only [UploadJob.stepRun] at hs
    split at hs
    · rename_i hstop
      cases hs
      refine h.congr rfl rfl rfl fun r' hr' => ?_
      cases hr'
      exact ⟨b, hb, htracks.doomed (.inr hstop.2) rfl rfl fun _ hp => hp⟩
    · cases hs
  | finish env =>
    simp only [UploadJob.stepRun] at hs
    split at hs
    · rename_i hphase
      cases hs
      have hover : UploadOk job { s with current := none } := h.congr rfl rfl rfl (uploadRunOk_none rfl)
      unfold UploadJob.finish
      split
      · exact uploadOk_cleanup h.disk h.puts
      · exact uploadOk_fail hover _
      · rename_i hresult
        split
        · exact uploadOk_fail hover _
        · rename_i hrun
          exact uploadOk_putManifest h hr hphase hresult (by simpa using hrun)
    · cases hs

theorem uploadOk_step (job : UploadJob) (s : UploadSt) (a : UploadAct) (s' : UploadSt) (h : UploadOk job s)
    (hmix : UploadJob.Unmixed s a) (hs : job.step s a = some s') : UploadOk job s' := by
  unfold UploadJob.step at hs
  split at hs
  · rename_i env hidle
    cases hs
    exact uploadOk_start h hidle hmix
  · cases hs
    exact uploadOk_cleanup h.disk h.puts
  · cases hs
  · rename_i r hr
    exact uploadOk_stepRun h hr hmix hs

/-- **Uploads are faithful.** In a history of runs whose steps resume a blueprint only with its own
records and launch chunks only with a runner, every manifest put is the blueprint on disk, with
every chunk uploaded for it. -/
theorem upload_faithful {job : UploadJob} {acts : List UploadAct} {s : UploadSt} (hrun : run job.step .init acts = some s)
    (hmix : Along job.step UploadJob.Unmixed .init acts) : ∀ p ∈ s.puts, p.Faithful job := by
  have hinit : UploadOk job .init := ⟨fun b hb => (by cases hb), uploadRunOk_none rfl, by simp [UploadSt.init]⟩
  exact (run_invariant job.step (uploadOk_step job) hinit hmix hrun).puts

/-- An upload of `data` in one chunk. -/
def uploadSample : UploadJob := ⟨["data"], some 1, buildTransferConfig none 8, zeroHashes, plainCodecs⟩

def sampleSlots (version : Nat) : UploadSlots := ⟨[⟨0, "key", "url"⟩], version⟩

/-- A start on data that is one empty file, stamped with the data version it gets. -/
def emptyFileStart (file : String) (version : Nat) : UploadStartEnv where
  listed := .error "not listed"
  stamp := .ok (some version)
  sources := .ok (sourcesList [(["data", file], 0)] fun _ => false)
  slots := .ok (sampleSlots version)
  newStamp := .ok (some version)
  saveBlueprint := .none

def uploadOne (version : Nat) : List UploadAct :=
  [.launch (.ok (sampleSlots version)), .complete 0 (fun _ => .made (fun _ => some []) 0 (.ok ())) ⟨.none, .none⟩]

def uploadEnd (version : Nat) : List UploadAct :=
  [.launch (.ok (sampleSlots version)), .noFutures, .finish ⟨.none, ⟨.none, .none⟩⟩]

/-- The data changes after its chunk was uploaded; the run on the new data is resumed. -/
def mixedActs : List UploadAct :=
  .start (emptyFileStart "a" 1) :: uploadOne 1 ++ [.kill, .start (emptyFileStart "b" 2), .kill, .start (emptyFileStart "b" 2)] ++
    uploadOne 2 ++ uploadEnd 2

/-- The places of the uploads and of the blueprint at a put. -/
def Put.places (p : Put) : List (Nat × List FileLocation) × List (Nat × List FileLocation) :=
  (p.uploads.map (·.chunk.place), (p.blueprint.load.map fun b => b.manifest.chunks.map Chunk.place).getD [])

set_option synthInstance.maxSize 400 in
/-- **A resumed run mixes blueprints**: the manifest put names the file of the data as it was before. -/
theorem upload_mixed : ∃ s, run uploadSample.step .init mixedActs = some s ∧ ∃ p ∈ s.puts, ¬ p.Faithful uploadSample := by
  have hplaces : ((run uploadSample.step .init mixedActs).map fun s => s.puts.map Put.places).getD [] =
      [([(0, [⟨["data", "a"], 0, 0⟩])], [(0, [⟨["data", "b"], 0, 0⟩])])] := by decide +kernel
  cases hrun : run uploadSample.step .init mixedActs with
  | none =>
    rw [hrun] at hplaces
    cases hplaces
  | some s =>
    rw [hrun, Option.map_some, Option.getD_some] at hplaces
    obtain ⟨p, hp, hpp⟩ := List.mem_map.mp (hplaces ▸ List.mem_singleton_self _)
    refine ⟨s, rfl, p, hp, fun ⟨b, hb, _, _, _, _, chunks, _, hchunks, hall⟩ => ?_⟩
    simp only [Put.places, Prod.mk.injEq] at hpp
    obtain ⟨huploads, hblueprint⟩ := hpp
    rw [hb, Doc.load, Option.map_some, Option.getD_some, ← hchunks] at hblueprint
    obtain ⟨c, hc, hcp⟩ := List.mem_map.mp (hblueprint ▸ List.mem_singleton_self _)
    obtain ⟨u, hu, rfl, _⟩ := hall c hc
    have hin := List.mem_map_of_mem (f := fun u : Upload => u.chunk.place) hu
    rw [huploads, hcp] at hin
    exact absurd hin (by decide)

/-- The manifest blueprint of one empty file. -/
def emptyFileManifest (file : String) : DownloadManifest :=
  ⟨0, none, [⟨0, "", none, .sha1 (Vector.replicate 20 0), 0, [⟨["data", file], 0, 0⟩]⟩]⟩

theorem emptyFileManifest_eq (file : String) :
    prepareManifestBlueprint (sourcesList [(["data", file], 0)] fun _ => false) 1 none = emptyFileManifest file := by
  simp [prepareManifestBlueprint, sourcesList, sourceStack, fillSlots, buildDestinations, buildDestinationsFrom,
    slotSize, emptyFileManifest]

/-- A run that has begun on a manifest blueprint. -/
def begunOn (manifest : DownloadManifest) (version : Nat) : UploadSt :=
  uploadSample.beginRun ⟨⟨.whole ⟨manifest, version, some version⟩, .empty, .missing⟩, [], [], none, none⟩ 1
    ⟨{ manifest with chunks := assignSlots manifest.chunks (sampleSlots version).slots }, version, some version⟩ []

theorem start_emptyFile (file : String) (version : Nat) :
    uploadSample.start .init (emptyFileStart file version) = begunOn (emptyFileManifest file) version := by
  rw [← emptyFileManifest_eq]
  rfl

/-- A run from its start to its put. -/
theorem upload_faithful_one : ∃ s p,
    run uploadSample.step .init (.start (emptyFileStart "a" 1) :: (uploadOne 1 ++ uploadEnd 1)) = some s ∧
      s.puts = [p] ∧ p.Faithful uploadSample := by
  have hrun : ∃ s p, run uploadSample.step (begunOn (emptyFileManifest "a") 1) (uploadOne 1 ++ uploadEnd 1) = some s ∧
      s.puts = [p] := ⟨_, _, rfl, rfl⟩
  have hrunners : Along uploadSample.step UploadJob.Unmixed (begunOn (emptyFileManifest "a") 1)
      (uploadOne 1 ++ uploadEnd 1) := by
    refine ⟨?_, trivial, ?_, trivial, trivial, trivial⟩
    · intro r hr _
      cases hr
      decide
    · intro r hr _
      cases hr
      decide
  obtain ⟨s, p, hrun, hp⟩ := hrun
  have hstart : run uploadSample.step .init (.start (emptyFileStart "a" 1) :: (uploadOne 1 ++ uploadEnd 1)) = some s := by
    rw [← hrun, ← start_emptyFile]
    rfl
  have hmix : Along uploadSample.step UploadJob.Unmixed .init
      (.start (emptyFileStart "a" 1) :: (uploadOne 1 ++ uploadEnd 1)) := by
    refine ⟨fun b hload => (by cases hload), ?_⟩
    rw [← start_emptyFile] at hrunners
    exact hrunners
  exact ⟨s, p, hstart, hp, upload_faithful hstart hmix p (hp ▸ List.mem_singleton_self p)⟩

end Blockvisor
