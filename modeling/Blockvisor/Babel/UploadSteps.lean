/-
What one step of an upload run can do (`UploadMove`), said once for the
invariants of its runs: `step_move` takes every step of `UploadJob.step`
apart, with what it leaves on disk and the run it leaves.
-/
import Blockvisor.Babel.UploadFaithful

namespace Blockvisor

/-! ## What a step leaves -/

/-- The files after a cleanup, however far it came. -/
structure UploadFiles.Cleaned (files files' : UploadFiles) : Prop where
  blueprint : files'.blueprint = files.blueprint ∨ files'.blueprint = .missing
  chunks : files'.chunks = files.chunks ∨ files'.chunks = .empty
  progress : files'.progress = files.progress

theorem UploadFiles.Cleaned.refl (files : UploadFiles) : files.Cleaned files := ⟨.inl rfl, .inl rfl, rfl⟩

theorem cleanupJob_cleaned (files : UploadFiles) (env : CleanupEnv) : files.Cleaned (Uploader.cleanupJob files env).1 := by
  unfold Uploader.cleanupJob
  dsimp only
  cases env.blueprint.cutOr true <;> cases env.blueprint.result _ <;> cases env.chunks.cutOr true <;>
    constructor <;> simp

/-- The run that begins on a blueprint, with `chunks` for its chunks and `uploaded` of them on record. -/
def UploadJob.begun (job : UploadJob) (slots : Nat) (blueprint : UploadBlueprint) (chunks : List Chunk) (uploaded : Nat) :
    UploadRun where
  blueprint := { blueprint with manifest := { blueprint.manifest with chunks } }
  totalSlots := slots
  uploadedChunks := uploaded % u32Size
  run := true
  runners := ⟨none, true⟩
  uploaders := .new chunks job.config blueprint.dataVersion
  phase := .launching

/-- A run after a chunk of it is put on record. -/
def UploadRun.marked (r : UploadRun) (chunks : List Chunk) : UploadRun :=
  { r with
    blueprint := { r.blueprint with manifest := { r.blueprint.manifest with chunks } }
    uploadedChunks := (r.uploadedChunks + 1) % u32Size }

/-- The progress of a run, as it is saved. -/
def UploadRun.progress (r : UploadRun) : JobProgress := ⟨r.totalSlots, r.uploadedChunks, "chunks"⟩

/-- A run that goes on as it is, or with an error handled. -/
def UploadRun.GoesOn (r r' : UploadRun) : Prop := r' = r ∨ ∃ err, r' = { r with runners := r.runners.handleError err }

/-- A run whose loop turns without launching: its chunks and its counts are the same. -/
structure UploadRun.Turned (r r' : UploadRun) : Prop where
  blueprint : r'.blueprint = r.blueprint
  totalSlots : r'.totalSlots = r.totalSlots
  uploadedChunks : r'.uploadedChunks = r.uploadedChunks
  uploaders : r'.uploaders = r.uploaders
  runners : r'.runners = r.runners ∨ r'.runners = { r.runners with run := false } ∨
    ∃ err, r'.runners = r.runners.handleError err
  launching : r'.phase = .launching → r.phase = .launching
  waiting : r'.phase = .waiting → r.phase = .waiting ∨ r'.runners.run = false ∨
    ∃ err, r'.runners = r.runners.handleError err

/-- The main loop gets the result of a chunk uploader. -/
def UploadAct.Completes : UploadAct → Prop
  | .complete _ _ _ => True
  | _ => False

/-- What a step of an upload can do to what is on disk and to the run. -/
inductive UploadMove (job : UploadJob) (s : UploadSt) : UploadAct → UploadSt → Prop
  /-- There is no run, at most a cleanup. -/
  | ends {a : UploadAct} {s' : UploadSt} (hact : ¬ a.Completes) (hcurrent : s'.current = none)
      (hfiles : s.files.Cleaned s'.files) : UploadMove job s a s'
  /-- A blueprint is made, and a run fails for its saving. -/
  | unsaved {env : UploadStartEnv} {s' : UploadSt} {slots : Nat} {b : UploadBlueprint} {uploadSlots : List Slot}
      {cut : DocCut} (hnew : job.newBlueprint slots env = .ok (b, uploadSlots)) (hcurrent : s'.current = none)
      (hfiles : s'.files = { s.files with blueprint := s.files.blueprint.write b cut }) :
      UploadMove job s (.start env) s'
  /-- A run begins on a blueprint it made. -/
  | begins {env : UploadStartEnv} {s' : UploadSt} {slots : Nat} {b : UploadBlueprint} {uploadSlots : List Slot}
      (hslots : job.newTotalSlots env = .ok slots) (hfresh : ∀ b', UploadJob.loadBlueprint s.files env ≠ .ok b')
      (hnew : job.newBlueprint slots env = .ok (b, uploadSlots))
      (hcurrent : s'.current = some (job.begun slots b (assignSlots b.manifest.chunks uploadSlots) 0))
      (hfiles : s'.files = { s.files with blueprint := .whole b }) : UploadMove job s (.start env) s'
  /-- A run begins on the blueprint on disk, with the records on disk. -/
  | resumes {env : UploadStartEnv} {s' : UploadSt} {slots : Nat} {b : UploadBlueprint} {records chunks : List Chunk}
      (hslots : job.newTotalSlots env = .ok slots) (hload : UploadJob.loadBlueprint s.files env = .ok b)
      (hrecords : s.files.chunks.load = some records) (hmark : records.foldlM markUploaded b.manifest.chunks = some chunks)
      (hcurrent : s'.current = some (job.begun slots b chunks records.length)) (hfiles : s'.files = s.files) :
      UploadMove job s (.start env) s'
  /-- The loop turns without launching. -/
  | turns {a : UploadAct} {s' : UploadSt} {r r' : UploadRun} (hact : ¬ a.Completes) (hr : s.current = some r)
      (hcurrent : s'.current = some r') (hturn : r.Turned r') (hfiles : s'.files = s.files) : UploadMove job s a s'
  /-- Chunks are launched. -/
  | launches {s' : UploadSt} {r : UploadRun} {slots : Except String UploadSlots} {u : ParallelChunkUploaders}
      (hr : s.current = some r) (hphase : r.phase = .launching) (hrun : r.runners.run = true)
      (hslots : r.uploaders.updateSlots slots = .ok u)
      (hcurrent : s'.current = some { r with uploaders := u.launchMore, phase := .waiting })
      (hfiles : s'.files = s.files) : UploadMove job s (.launch slots) s'
  /-- A chunk uploader dies, or fails. -/
  | fails {a : UploadAct} {s' : UploadSt} {r : UploadRun} {i : Nat} {chunk : Chunk} {err : UploadError}
      (hr : s.current = some r) (hphase : r.phase = .waiting) (htask : r.uploaders.futures[i]? = some chunk)
      (hact : a = .abort i ∨ ∃ attempts env, a = .complete i attempts env ∧
        job.uploadWithRetry chunk attempts job.config.maxRetries 0 = .error err)
      (hcurrent : s'.current = some { UploadJob.takeTask r i with
        runners := (UploadJob.takeTask r i).runners.handleError err }) (hfiles : s'.files = s.files) :
      UploadMove job s a s'
  /-- A chunk is uploaded, and its record is not saved or not its own. -/
  | unrecorded {s' : UploadSt} {r : UploadRun} {i : Nat} {attempts : Nat → UploadAttempt} {env : SaveUploadedEnv}
      {chunk chunk' : Chunk} {files : Store PathBuf} {spare : Nat} (hr : s.current = some r) (hphase : r.phase = .waiting)
      (htask : r.uploaders.futures[i]? = some chunk)
      (hup : job.uploadWithRetry chunk attempts job.config.maxRetries 0 = .ok (chunk', files, spare))
      (hsave : env.saveChunk ≠ .none ∨ markUploaded r.blueprint.manifest.chunks chunk' = none)
      (hcurrent : s'.current = none ∨ ∃ r', s'.current = some r' ∧ (UploadJob.takeTask r i).GoesOn r')
      (hfiles : s'.files = { s.files with chunks := (saveChunk s.files.chunks chunk' env.saveChunk).1 }) :
      UploadMove job s (.complete i attempts env) s'
  /-- A chunk is uploaded and put on record, and the progress saved, perhaps not whole. -/
  | records {s' : UploadSt} {r : UploadRun} {i : Nat} {attempts : Nat → UploadAttempt} {env : SaveUploadedEnv}
      {chunk chunk' : Chunk} {files : Store PathBuf} {spare : Nat} {chunks : List Chunk} (hr : s.current = some r)
      (hphase : r.phase = .waiting) (htask : r.uploaders.futures[i]? = some chunk)
      (hup : job.uploadWithRetry chunk attempts job.config.maxRetries 0 = .ok (chunk', files, spare))
      (hsave : env.saveChunk = .none) (hmark : markUploaded r.blueprint.manifest.chunks chunk' = some chunks)
      (hcurrent : s'.current = none ∨ ∃ r', s'.current = some r' ∧ ((UploadJob.takeTask r i).marked chunks).GoesOn r')
      (hfiles : s'.files = { s.files with
        chunks := (saveChunk s.files.chunks chunk' env.saveChunk).1
        progress := s.files.progress.write ((UploadJob.takeTask r i).marked chunks).progress (env.saveProgress.cutOr .whole) }) :
      UploadMove job s (.complete i attempts env) s'

/-! ## Every step is one of these -/

variable {job : UploadJob}

theorem loadBlueprint_ok {files : UploadFiles} {env : UploadStartEnv} {b : UploadBlueprint}
    (h : UploadJob.loadBlueprint files env = .ok b) : files.blueprint = .whole b := by
  unfold UploadJob.loadBlueprint at h
  split at h
  · cases h
  · rename_i b' hdata
    split at h
    · cases h
    · split at h <;> cases h
      exact loadJobData_ok.mp hdata

theorem newBlueprint_ok {slots : Nat} {env : UploadStartEnv} {b : UploadBlueprint} {uploadSlots : List Slot}
    (h : job.newBlueprint slots env = .ok (b, uploadSlots)) :
    ∃ sources res, env.sources = .ok sources ∧ env.slots = .ok res ∧ uploadSlots = res.slots ∧ 0 < slots ∧
      b.manifest = prepareManifestBlueprint sources slots job.config.compression := by
  unfold UploadJob.newBlueprint at h
  obtain ⟨sources, hsources, h⟩ := Except.of_bind_ok h
  split at h
  · cases h
  · rename_i hpos
    obtain ⟨res, hres, h⟩ := Except.of_bind_ok h
    obtain ⟨_, _, h⟩ := Except.of_bind_ok h
    cases h
    exact ⟨sources, res, hsources, hres, rfl, Nat.pos_of_ne_zero hpos, rfl⟩

theorem fail_current (s : UploadSt) (e : Exit String) : (UploadJob.fail s e).current = s.current := by
  cases e <;> rfl

theorem fail_files (s : UploadSt) (e : Exit String) : (UploadJob.fail s e).files = s.files := by
  cases e <;> rfl

/-- A run that fails is over, with what it leaves on disk. -/
theorem fail_move {s t : UploadSt} {a : UploadAct} {e : Exit String} (hact : ¬ a.Completes) (hcurrent : t.current = none)
    (hfiles : s.files.Cleaned t.files) : UploadMove job s a (UploadJob.fail t e) :=
  .ends hact ((fail_current t e).trans hcurrent) (by rw [fail_files]; exact hfiles)

theorem cleanup_move {s t : UploadSt} {a : UploadAct} {env : CleanupEnv} {result : Except (Exit String) Unit}
    (hact : ¬ a.Completes) (hfiles : t.files = s.files) : UploadMove job s a (UploadJob.cleanup t env result) := by
  have hcleaned := cleanupJob_cleaned s.files env
  unfold UploadJob.cleanup
  rw [hfiles]
  dsimp only
  split
  · exact fail_move hact rfl hcleaned
  · split
    · exact .ends hact rfl hcleaned
    · exact fail_move hact rfl hcleaned

theorem start_move {s : UploadSt} {env : UploadStartEnv} (hidle : s.current = none) :
    UploadMove job s (.start env) (job.start s env) := by
  have hrefl := UploadFiles.Cleaned.refl s.files
  unfold UploadJob.start
  split
  · exact fail_move id hidle hrefl
  rename_i slots hslots
  split
  · -- the blueprint on disk is resumed
    rename_i b hload
    split
    · exact fail_move id hidle hrefl
    · rename_i records hrecords
      unfold UploadJob.beginRun
      split
      · exact fail_move id hidle hrefl
      · rename_i chunks hmark
        exact .resumes hslots hload (loadChunks_ok.mp hrecords) hmark rfl rfl
  · -- a blueprint is made and saved
    rename_i e hload
    split
    · exact fail_move id hidle hrefl
    · rename_i b uploadSlots hnew
      dsimp only
      split
      · exact .unsaved hnew ((fail_current _ _).trans hidle) (fail_files _ _)
      · rename_i hok
        have hnone : env.saveBlueprint = .none := by simpa [saveJobData, Doc.save] using hok
        refine .begins hslots (fun b' hb' => ?_) hnew rfl ?_
        · rw [hload] at hb'
          cases hb'
        · simp [UploadJob.beginRun, hnone, saveJobData, Doc.save, Doc.write, Fault.cutOr]

theorem complete_move {s s' : UploadSt} {r : UploadRun} {i : Nat} {attempts : Nat → UploadAttempt} {env : SaveUploadedEnv}
    (hr : s.current = some r) (hs : job.complete s r i attempts env = some s') :
    UploadMove job s (.complete i attempts env) s' := by
  unfold UploadJob.complete at hs
  split at hs
  · cases hs
  rename_i hphase
  have hphase : r.phase = .waiting := by simpa using hphase
  split at hs
  · cases hs
  rename_i chunk htask
  dsimp only at hs
  split at hs
  · rename_i err hup
    cases hs
    exact .fails hr hphase htask (.inr ⟨attempts, env, rfl, hup⟩) rfl rfl
  rename_i chunk' files spare hup
  unfold UploadJob.saveUploaded at hs
  dsimp only at hs
  have hgoes : ∀ (q : UploadRun) (err : UploadError), q.GoesOn { q with runners := q.runners.handleError err } :=
    fun _ err => .inr ⟨err, rfl⟩
  cases hsave : (saveChunk s.files.chunks chunk' env.saveChunk).2 with
  | error e =>
    have hne : env.saveChunk ≠ .none := fun hnone => by simp [saveChunk, LogFile.save, hnone, Fault.result] at hsave
    rw [hsave] at hs
    cases e with
    | error e =>
      cases hs
      exact .unrecorded hr hphase htask hup (.inl hne) (.inr ⟨_, rfl, hgoes _ _⟩) rfl
    | killed =>
      cases hs
      exact .unrecorded hr hphase htask hup (.inl hne) (.inl rfl) rfl
  | ok u =>
    have hnone : env.saveChunk = .none := Fault.result_ok.mp hsave
    rw [hsave] at hs
    have hmanifest : (UploadJob.takeTask r i).blueprint.manifest.chunks = r.blueprint.manifest.chunks := rfl
    rw [hmanifest] at hs
    cases hmark : markUploaded r.blueprint.manifest.chunks chunk' with
    | none =>
      rw [hmark] at hs
      cases hs
      exact .unrecorded hr hphase htask hup (.inr hmark) (.inr ⟨_, rfl, hgoes _ _⟩) rfl
    | some chunks =>
      rw [hmark] at hs
      dsimp only at hs
      split at hs
      · rename_i hout
        cases hs
        simp only [Prod.mk.injEq] at hout
        obtain ⟨⟨rfl, rfl⟩, _⟩ := hout
        exact .records hr hphase htask hup hnone hmark (.inr ⟨_, rfl, .inl rfl⟩) rfl
      · rename_i hout
        cases hs
        simp only [Prod.mk.injEq] at hout
        obtain ⟨⟨rfl, rfl⟩, _⟩ := hout
        exact .records hr hphase htask hup hnone hmark (.inr ⟨_, rfl, hgoes _ _⟩) rfl
      · rename_i hout
        cases hs
        simp only [Prod.mk.injEq] at hout
        obtain ⟨⟨rfl, rfl⟩, _⟩ := hout
        exact .records hr hphase htask hup hnone hmark (.inl rfl) rfl

theorem stepRun_move {s s' : UploadSt} {r : UploadRun} {a : UploadAct} (hr : s.current = some r)
    (hs : job.stepRun s r a = some s') : UploadMove job s a s' := by
  have hrefl := UploadFiles.Cleaned.refl s.files
  cases a with
  | start env => cases hs
  | cleanup env => cases hs
  | shutdown =>
    cases hs
    exact .turns id hr rfl ⟨rfl, rfl, rfl, rfl, .inr (.inl rfl), fun h => h, .inl⟩ rfl
  | kill =>
    cases hs
    exact .ends id rfl hrefl
  | launch slots =>
    simp only [UploadJob.stepRun, UploadJob.launch] at hs
    split at hs
    · cases hs
    rename_i hphase
    have hphase : r.phase = .launching := by simpa using hphase
    split at hs
    · cases hs
      exact .turns id hr rfl ⟨rfl, rfl, rfl, rfl, .inl rfl, (fun h => by cases h), (fun h => by cases h)⟩ rfl
    split at hs
    · rename_i hrun
      split at hs
      · cases hs
        exact .turns id hr rfl ⟨rfl, rfl, rfl, rfl, .inr (.inr ⟨_, rfl⟩), (fun h => by cases h), fun _ => .inr (.inr ⟨_, rfl⟩)⟩ rfl
      · rename_i u hslots
        cases hs
        exact .launches hr hphase hrun hslots rfl rfl
    · rename_i hstop
      cases hs
      exact .turns id hr rfl ⟨rfl, rfl, rfl, rfl, .inl rfl, (fun h => by cases h), fun _ => .inr (.inl (by simpa using hstop))⟩ rfl
  | complete i attempts env => exact complete_move hr hs
  | abort i =>
    simp only [UploadJob.stepRun, UploadJob.abort] at hs
    split at hs
    · cases hs
    rename_i hphase
    split at hs
    · cases hs
    · rename_i htask
      cases hs
      exact .fails hr (by simpa using hphase) htask (.inl rfl) rfl rfl
  | noFutures =>
    simp only [UploadJob.stepRun] at hs
    split at hs
    · cases hs
      exact .turns id hr rfl ⟨rfl, rfl, rfl, rfl, .inl rfl, (fun h => by cases h), (fun h => by cases h)⟩ rfl
    · cases hs
  | stopped =>
    simp only [UploadJob.stepRun] at hs
    split at hs
    · cases hs
      exact .turns id hr rfl ⟨rfl, rfl, rfl, rfl, .inl rfl, (fun h => by cases h), (fun h => by cases h)⟩ rfl
    · cases hs
  | finish env =>
    simp only [UploadJob.stepRun] at hs
    split at hs
    · cases hs
      unfold UploadJob.finish
      split
      · exact cleanup_move id rfl
      · exact fail_move id rfl hrefl
      · split
        · exact fail_move id rfl hrefl
        · unfold UploadJob.putManifest
          split
          · exact fail_move id rfl hrefl
          · dsimp only
            split
            · exact cleanup_move id rfl
            · exact fail_move id rfl hrefl
    · cases hs

/-- **What a step can do.** -/
theorem step_move {s s' : UploadSt} {a : UploadAct} (hs : job.step s a = some s') : UploadMove job s a s' := by
  unfold UploadJob.step at hs
  split at hs
  · rename_i hidle
    cases hs
    exact start_move hidle
  · cases hs
    exact cleanup_move id rfl
  · cases hs
  · rename_i r hr
    exact stepRun_move hr hs

/-! ## Invariants of the runs -/

/-- The blueprint on disk is `B` and the records on disk are `R`. -/
structure UploadFiles.Hold (B : UploadBlueprint → Prop) (R : Chunk → Prop) (files : UploadFiles) : Prop where
  blueprint : ∀ b, files.blueprint = .whole b → B b
  records : ∀ records, files.chunks.load = some records → ∀ c ∈ records, R c

/-- What is on disk is `B` and `R`, and the run is `I`. -/
structure UploadSt.Hold (B : UploadBlueprint → Prop) (R : Chunk → Prop) (I : UploadRun → Prop) (s : UploadSt) : Prop where
  disk : s.files.Hold B R
  run : ∀ r, s.current = some r → I r

section Invariant

variable {B : UploadBlueprint → Prop} {R : Chunk → Prop} {I : UploadRun → Prop} {ok : UploadSt → UploadAct → Prop}

theorem UploadFiles.Hold.cleaned {files files' : UploadFiles} (h : files.Hold B R) (hclean : files.Cleaned files') :
    files'.Hold B R := by
  refine ⟨fun b hb => ?_, fun records hrecords => ?_⟩
  · cases hclean.blueprint with
    | inl hsame => exact h.blueprint b (hsame ▸ hb)
    | inr hmissing =>
      rw [hmissing] at hb
      cases hb
  · cases hclean.chunks with
    | inl hsame => exact h.records records (hsame ▸ hrecords)
    | inr hempty =>
      rw [hempty, LogFile.load_empty] at hrecords
      cases hrecords
      simp

theorem UploadFiles.Hold.saveBlueprint {files : UploadFiles} {b : UploadBlueprint} (h : files.Hold B R) (cut : DocCut) (hb : B b) :
    UploadFiles.Hold B R { files with blueprint := files.blueprint.write b cut } := by
  refine ⟨fun b' hb' => ?_, h.records⟩
  cases Doc.write_whole hb' with
  | inl hb' => exact h.blueprint b' hb'
  | inr hb' => exact hb' ▸ hb

theorem UploadFiles.Hold.saveRecord {files : UploadFiles} {chunk : Chunk} {fault : Fault LogCut} {progress : Doc JobProgress}
    (h : files.Hold B R) (hchunk : R chunk) :
    UploadFiles.Hold B R { files with chunks := (saveChunk files.chunks chunk fault).1, progress } := by
  refine ⟨h.blueprint, fun records hrecords c hc => ?_⟩
  obtain ⟨before, hbefore, hload⟩ := LogFile.load_append hrecords
  rcases hload with rfl | ⟨rfl, _⟩
  · exact h.records _ hbefore c hc
  · cases List.mem_append.mp hc with
    | inl hc => exact h.records _ hbefore c hc
    | inr hc =>
      rw [List.mem_singleton.mp hc]
      exact hchunk

/-- What makes a property of the runs one of every run whose steps meet `ok`: that the runs begin
with it, from what is on disk, and that each change of a run keeps it. -/
structure UploadInvariant (job : UploadJob) (ok : UploadSt → UploadAct → Prop) (B : UploadBlueprint → Prop)
    (R : Chunk → Prop) (I : UploadRun → Prop) : Prop where
  new : ∀ {slots env b uploadSlots}, job.newBlueprint slots env = .ok (b, uploadSlots) → B b
  reports : ∀ {chunk attempts chunk' files spare},
    job.uploadWithRetry chunk attempts job.config.maxRetries 0 = .ok (chunk', files, spare) → R chunk'
  begins : ∀ {s env slots b uploadSlots}, ok s (.start env) → job.newTotalSlots env = .ok slots →
    (∀ b', UploadJob.loadBlueprint s.files env ≠ .ok b') → job.newBlueprint slots env = .ok (b, uploadSlots) →
      I (job.begun slots b (assignSlots b.manifest.chunks uploadSlots) 0)
  resumes : ∀ {s env slots b records chunks}, ok s (.start env) → job.newTotalSlots env = .ok slots →
    UploadJob.loadBlueprint s.files env = .ok b → s.files.chunks.load = some records → B b → (∀ c ∈ records, R c) →
      records.foldlM markUploaded b.manifest.chunks = some chunks → I (job.begun slots b chunks records.length)
  turns : ∀ {r r'}, I r → r.Turned r' → I r'
  launches : ∀ {s r slots u}, ok s (.launch slots) → s.current = some r → I r → r.phase = .launching →
    r.runners.run = true → r.uploaders.updateSlots slots = .ok u →
      I { r with uploaders := u.launchMore, phase := .waiting }
  tasks : ∀ {r i chunk}, I r → r.phase = .waiting → r.uploaders.futures[i]? = some chunk → I (UploadJob.takeTask r i)
  marks : ∀ {r i chunk attempts chunk' files spare chunks}, I r → r.phase = .waiting →
    r.uploaders.futures[i]? = some chunk →
      job.uploadWithRetry chunk attempts job.config.maxRetries 0 = .ok (chunk', files, spare) →
        markUploaded r.blueprint.manifest.chunks chunk' = some chunks → I ((UploadJob.takeTask r i).marked chunks)
  errors : ∀ {r} err, I r → I { r with runners := r.runners.handleError err }

/-- Every step keeps it. -/
theorem UploadInvariant.step (h : UploadInvariant job ok B R I) (s : UploadSt) (a : UploadAct) (s' : UploadSt)
    (hs : s.Hold B R I) (hok : ok s a) (hstep : job.step s a = some s') : s'.Hold B R I := by
  have hidle : s'.current = none → ∀ r, s'.current = some r → I r := by
    intro hnone r hr
    rw [hnone] at hr
    cases hr
  have honly : ∀ {r : UploadRun}, s'.current = some r → I r → ∀ r', s'.current = some r' → I r' := by
    intro r hr hI r' hr'
    rw [hr] at hr'
    cases hr'
    exact hI
  have hgoes : ∀ {q : UploadRun}, I q → (s'.current = none ∨ ∃ r', s'.current = some r' ∧ q.GoesOn r') →
      ∀ r, s'.current = some r → I r := by
    intro q hI hcurrent
    rcases hcurrent with hnone | ⟨r', hr', rfl | ⟨err, rfl⟩⟩
    · exact hidle hnone
    · exact honly hr' hI
    · exact honly hr' (h.errors err hI)
  cases step_move hstep with
  | ends _ hcurrent hfiles => exact ⟨hs.disk.cleaned hfiles, hidle hcurrent⟩
  | unsaved hnew hcurrent hfiles => exact ⟨hfiles ▸ hs.disk.saveBlueprint _ (h.new hnew), hidle hcurrent⟩
  | begins hslots hfresh hnew hcurrent hfiles =>
    exact ⟨hfiles ▸ hs.disk.saveBlueprint .whole (h.new hnew), honly hcurrent (h.begins hok hslots hfresh hnew)⟩
  | resumes hslots hload hrecords hmark hcurrent hfiles =>
    have hb := hs.disk.blueprint _ (loadBlueprint_ok hload)
    exact ⟨hfiles ▸ hs.disk,
      honly hcurrent (h.resumes hok hslots hload hrecords hb (hs.disk.records _ hrecords) hmark)⟩
  | turns _ hr hcurrent hturn hfiles => exact ⟨hfiles ▸ hs.disk, honly hcurrent (h.turns (hs.run _ hr) hturn)⟩
  | launches hr hphase hrun hslots hcurrent hfiles =>
    exact ⟨hfiles ▸ hs.disk, honly hcurrent (h.launches hok hr (hs.run _ hr) hphase hrun hslots)⟩
  | fails hr hphase htask _ hcurrent hfiles =>
    exact ⟨hfiles ▸ hs.disk, honly hcurrent (h.errors _ (h.tasks (hs.run _ hr) hphase htask))⟩
  | unrecorded hr hphase htask hup _ hcurrent hfiles =>
    exact ⟨hfiles ▸ hs.disk.saveRecord (h.reports hup), hgoes (h.tasks (hs.run _ hr) hphase htask) hcurrent⟩
  | records hr hphase htask hup _ hmark hcurrent hfiles =>
    exact ⟨hfiles ▸ hs.disk.saveRecord (h.reports hup), hgoes (h.marks (hs.run _ hr) hphase htask hup hmark) hcurrent⟩

theorem UploadSt.Hold.init : UploadSt.init.Hold B R I := by
  refine ⟨⟨fun b hb => (by cases hb), fun records hrecords => ?_⟩, fun r hr => by cases hr⟩
  cases hrecords
  simp

/-- **The invariant rule of upload runs.** -/
theorem UploadInvariant.holds (h : UploadInvariant job ok B R I) {acts : List UploadAct} {s : UploadSt}
    (hrun : Machine.run job.step .init acts = some s) (hok : Machine.Along job.step ok .init acts) : s.Hold B R I :=
  Machine.run_invariant job.step h.step .init hok hrun

end Invariant

end Blockvisor
