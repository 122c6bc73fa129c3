/-
The files of the target directory after a download that reports success, over
whole histories of runs.

`Sound` is kept by every step that is faithful to the archive
(`sound_step`): runs that fail, are stopped or are killed with file parts
written halfway, and runs that take up what they left. It gives
`complete_iff`: the files are those of the archive just when none of them was
there with more bytes when the first run started, for files are opened without
truncation. `stale_tail` is such a file.
-/
import Blockvisor.Babel.TargetFacts

namespace Blockvisor

open Extent Store Machine ParallelChunkDownloaders

/-! ## The directory -/

theorem Writer.view_writeToFile {w : Writer} (h : w.Ok) (path : PathBuf) (pos : Nat) (data : Bytes) :
    (w.writeToFile path pos data).view = w.view.write path pos data := by
  obtain ⟨_, hstore, hdir⟩ := Writer.writeToFile_ok h path pos data
  funext p
  unfold Writer.view
  rw [hstore, hdir]
  by_cases hp : p = path
  · subst hp
    rw [write_same, write_same]
  · rw [write_other _ _ _ hp, write_other]
    exact fun heq => hp (List.append_cancel_left heq)

/-- A cleanup has nothing to do after a cleanup. -/
theorem cleanupJob_again (parts : Option (LogFile Chunk)) (dir : PathBuf) (store : Store PathBuf) :
    (cleanupJob (cleanupJob parts dir store).1.1 dir (cleanupJob parts dir store).1.2).1.2 =
      (cleanupJob parts dir store).1.2 := by
  cases parts with
  | none => rfl
  | some log =>
    cases hload : log.load with
    | none => simp [cleanupJob, hload]
    | some chunks => simp [cleanupJob, hload]

namespace Target

variable {job : DownloadJob}

theorem cleaned_of_metadata {t : Target} (h : t.job.files.metadata ≠ .missing) :
    t.cleaned job = ((t.parts, t.writer.store), .ok ()) := by
  unfold cleaned
  rw [if_neg fun hc => h hc.2]

theorem found_of_metadata {t : Target} (h : t.job.files.metadata ≠ .missing) : t.found job = t.writer.view := by
  funext p
  rw [found, cleaned_of_metadata h]
  rfl

/-- What the writer does with the next message: nothing, or it writes a part of it, and the whole unless it fails. -/
theorem handled_cases {t : Target} (h : t.writer.Ok) (r : DownloadRun) (env : WriteEnv) (written : Option Nat) :
    (t.handled r env written).Ok ∧ (t.handled r env written).destinationDir = t.writer.destinationDir ∧
      (((t.handled r env written).view = t.writer.view ∧
          ∀ path pos data rest, r.channel = .filePart path pos data :: rest → env.filePart ≠ .none) ∨
        ∃ path pos data rest n, r.channel = .filePart path pos data :: rest ∧
          (t.handled r env written).view = t.writer.view.write path pos (data.take n) ∧
          (env.filePart = .none → data.take n = data)) := by
  unfold handled
  split
  · rename_i path pos data rest hch
    split
    · rename_i hnone
      obtain ⟨hok, _, hdir⟩ := Writer.writeToFile_ok h path pos data
      refine ⟨hok, hdir, .inr ⟨path, pos, data, rest, data.length, hch, ?_, fun _ => List.take_length⟩⟩
      rw [List.take_length]
      exact Writer.view_writeToFile h path pos data
    · rename_i n hfault
      obtain ⟨hok, _, hdir⟩ := Writer.writeToFile_ok h path pos (data.take n)
      exact ⟨hok, hdir, .inr ⟨path, pos, data, rest, n, hch, Writer.view_writeToFile h path pos (data.take n),
        fun hnone => absurd hnone hfault⟩⟩
    · rename_i hfault
      exact ⟨h, rfl, .inl ⟨rfl, fun _ _ _ _ _ => hfault⟩⟩
  · rename_i hch
    exact ⟨h, rfl, .inl ⟨rfl, fun path pos data rest heq => absurd heq (hch path pos data rest)⟩⟩

/-- A step starts a run, is the writer's, or leaves the directory alone. -/
theorem step_cases {t t' : Target} {a : TargetAct} (hs : step job t a = some t') :
    (∃ env, t.job.current = none ∧ a.act = .start env ∧ t' =
        { job := job.start t.job { env with cleanup := (t.cleaned job).2 }
          writer := { t.writer with openedFiles := [], store := (t.cleaned job).1.2 }
          parts := (t.cleaned job).1.1 }) ∨
      (∃ r env, t.job.current = some r ∧ a.act = .receive env ∧ DownloadJob.receive t.job r env = some t'.job ∧
        t'.writer = t.handled r env a.written) ∨
      ∃ r, t.job.current = some r ∧ (∀ env, a.act ≠ .receive env) ∧ job.stepRun t.job r a.act = some t'.job ∧
        t'.writer = t.writer := by
  unfold step at hs
  split at hs
  · rename_i env hcur hact
    cases hs
    exact .inl ⟨env, hcur, hact, rfl⟩
  · rename_i r env hcur hact
    obtain ⟨s, hjob, rfl⟩ := Option.map_eq_some_iff.mp hs
    simp only [DownloadJob.step, hcur, hact] at hjob
    exact .inr (.inl ⟨r, env, hcur, hact, hjob, rfl⟩)
  · rename_i hstart hreceive
    obtain ⟨s, hjob, rfl⟩ := Option.map_eq_some_iff.mp hs
    cases hcur : t.job.current with
    | none =>
      cases hact : a.act with
      | start env => exact absurd hact (hstart env hcur)
      | _ => simp [DownloadJob.step, hcur, hact] at hjob
    | some r =>
      refine .inr (.inr ⟨r, rfl, fun env hact => hreceive r env hcur hact, ?_, rfl⟩)
      simp only [DownloadJob.step, hcur] at hjob
      exact hjob

end Target

/-! ## What every faithful step keeps -/

/-- The invariant of a job, its directory and the archive; `old` is what the first run found. -/
structure Sound (job : DownloadJob) (archive : Archive job.codecs) (old : Store PathBuf) (t : Target) : Prop where
  opened : t.writer.Ok
  history : HistoryOk t.job
  synced : ∀ chunks, t.job.files.chunks.load = some chunks → ∀ i ∈ t.job.recorded, i ∈ chunks.map (·.index)
  placed : ∀ i ∈ t.job.recorded, archive.Awaits t.writer.view i []
  beyond : ∀ p content, archive.files p = some content → ∀ k, content.length ≤ k →
    (t.found job).byteAt p k = old.byteAt p k
  metadata : ∀ m, t.job.files.metadata = .whole m → archive.Describes m
  run : RunOk t.job
  described : ∀ r, t.job.current = some r → archive.Describes r.metadata
  fed : ∀ r, t.job.current = some r → (∀ result, r.writer ≠ .done result) →
    ∃ labelled : List (Nat × ChunkData), labelled.map (·.2) = r.channel ∧
      archive.Fed t.writer.view t.job.recorded labelled r.downloaders

variable {job : DownloadJob} {archive : Archive job.codecs} {old : Store PathBuf} {t t' : Target}

/-- What the next run would find stays the same when a run starts. -/
theorem found_start (t : Target) (env : StartEnv) :
    Target.found job
      { job := job.start t.job env
        writer := { t.writer with openedFiles := [], store := (t.cleaned job).1.2 }
        parts := (t.cleaned job).1.1 } = t.found job := by
  have hfiles := (start_files job t.job env).1
  have hkept := (getMetadata_spec job t.job.files env).metadata
  funext p
  unfold Target.found
  by_cases hclean : job.kind = .clientDownloader ∧ t.job.files.metadata = .missing
  · have hcleaned : t.cleaned job = cleanupJob t.parts t.writer.destinationDir t.writer.store := if_pos hclean
    rw [hcleaned]
    unfold Target.cleaned
    dsimp only
    split
    · exact congrFun (cleanupJob_again _ _ _) _
    · rfl
  · have hcleaned : t.cleaned job = ((t.parts, t.writer.store), .ok ()) := if_neg hclean
    rw [hcleaned]
    unfold Target.cleaned
    dsimp only
    rw [if_neg fun hc => hclean ⟨hc.1, hkept (hfiles ▸ hc.2)⟩]

theorem sound_start {env : StartEnv} (h : Sound job archive old t) (hidle : t.job.current = none)
    (hkind : job.kind = .clientDownloader ∨ t.job.files.metadata ≠ .missing)
    (hmetadata : ∀ metadata, env.metadata = .ok metadata → archive.Describes metadata) :
    Sound job archive old
      { job := job.start t.job env
        writer := { t.writer with openedFiles := [], store := (t.cleaned job).1.2 }
        parts := (t.cleaned job).1.1 } := by
  obtain ⟨hfiles, hrec⟩ := start_files job t.job env
  obtain ⟨hsaved, hchunks⟩ := getMetadata_kept job t.job.files env
  have hstarted : ∀ r, (job.start t.job env).current = some r → archive.Describes r.metadata ∧ r.channel = [] ∧
      archive.Fed (fun p => (t.cleaned job).1.2 (t.writer.destinationDir ++ p)) t.job.recorded [] r.downloaders := by
    intro r hr
    obtain ⟨metadata, chunks, hmeta, _, rfl⟩ := start_current hidle hr
    have hget : job.getMetadata t.job.files env = ((job.getMetadata t.job.files env).1, .ok (metadata, chunks)) :=
      Prod.ext rfl hmeta
    -- the chunks taken as downloaded are those on record
    have htaken : archive.Describes metadata ∧ ∀ i ∈ t.job.recorded, i ∈ chunks.map (·.index) := by
      rcases getMetadata_resumed hget hkind.symm with ⟨hwhole, hload⟩ | ⟨hmissing, henv, rfl⟩
      · exact ⟨h.metadata metadata hwhole, h.synced chunks hload⟩
      · refine ⟨hmetadata metadata henv, fun i hi => ?_⟩
        rw [(h.history.fresh hmissing).1] at hi
        cases hi
    refine ⟨htaken.1, rfl, by simp [new], ?_, by simp [new], by simp [new], by simp, fun i => .inl rfl⟩
    intro i hi hin
    have hnot := (List.mem_filter.mp hi).2
    simp only [decide_not, Bool.not_eq_true', decide_eq_false_iff_not] at hnot
    exact hnot (htaken.2 i hin)
  refine ⟨⟨by simp, by simp⟩, historyOk_start job hidle h.history, ?_, ?_, ?_, ?_, ?_, ?_, ?_⟩
  · intro chunks hload i hi
    rw [hfiles, hchunks hkind.symm] at hload
    rw [hrec] at hi
    exact h.synced chunks hload i hi
  · intro i hi
    rw [hrec] at hi
    have hm : t.job.files.metadata ≠ .missing := by
      intro hmissing
      rw [(h.history.fresh hmissing).1] at hi
      cases hi
    have hplaced := h.placed i hi
    rw [Target.cleaned_of_metadata hm]
    exact hplaced
  · intro p content hp k hk
    rw [found_start]
    exact h.beyond p content hp k hk
  · intro m hm
    rw [hfiles] at hm
    rcases hsaved m hm with hwhole | henv
    · exact h.metadata m hwhole
    · exact hmetadata m henv
  · exact runOk_start hidle h.history.record hkind.symm
  · exact fun r hr => (hstarted r hr).1
  · intro r hr _
    obtain ⟨_, hch, hfed⟩ := hstarted r hr
    rw [hrec]
    exact ⟨[], by rw [hch]; rfl, hfed⟩

theorem faithful_clean {a : TargetAct} (h : archive.Faithful job t a) : CleanReplies t.job a.act := by
  unfold Archive.Faithful at h
  cases hact : a.act with
  | launch env =>
    rw [hact] at h
    exact h.1
  | _ => trivial

/-- A step of a run keeps the invariant if it does so for what is in place. -/
theorem sound_of_run {r : DownloadRun} {a : TargetAct} (h : Sound job archive old t) (hr : t.job.current = some r)
    (hfaithful : archive.Faithful job t a) (hjob : job.stepRun t.job r a.act = some t'.job) (opened : t'.writer.Ok)
    (synced : ∀ chunks, t'.job.files.chunks.load = some chunks → ∀ i ∈ t'.job.recorded, i ∈ chunks.map (·.index))
    (placed : ∀ i ∈ t'.job.recorded, archive.Awaits t'.writer.view i [])
    (beyond : ∀ p content, archive.files p = some content → ∀ k, content.length ≤ k →
      t'.writer.view.byteAt p k = t.writer.view.byteAt p k)
    (described : ∀ r', t'.job.current = some r' → r'.metadata = r.metadata)
    (fed : ∀ r', t'.job.current = some r' → (∀ result, r'.writer ≠ .done result) →
      ∃ labelled : List (Nat × ChunkData), labelled.map (·.2) = r'.channel ∧
        archive.Fed t'.writer.view t'.job.recorded labelled r'.downloaders) :
    Sound job archive old t' := by
  have hstep : job.step t.job a.act = some t'.job := by
    simp only [DownloadJob.step, hr]
    exact hjob
  have hm : t.job.files.metadata ≠ .missing := by
    intro hmissing
    rw [(h.history.fresh hmissing).2] at hr
    cases hr
  have hm' := (stepRun_files hjob).1
  refine ⟨opened, historyOk_step job _ _ _ h.history hstep, synced, placed, ?_, ?_,
    runOk_stepRun hr h.run (faithful_clean hfaithful) hjob, ?_, fed⟩
  · intro p content hp k hk
    have hbefore := h.beyond p content hp k hk
    rw [Target.found_of_metadata hm] at hbefore
    rw [Target.found_of_metadata (hm' ▸ hm), beyond p content hp k hk, hbefore]
  · rw [hm']
    exact h.metadata
  · intro r' hr'
    rw [described r' hr']
    exact h.described r hr

/-- A step that is not the writer's leaves the directory alone. -/
theorem sound_moves {r : DownloadRun} {a : TargetAct} (h : Sound job archive old t) (hr : t.job.current = some r)
    (hfaithful : archive.Faithful job t a) (hact : ∀ env, a.act ≠ .receive env)
    (hjob : job.stepRun t.job r a.act = some t'.job) (hwriter : t'.writer = t.writer) : Sound job archive old t' := by
  rcases stepRun_cases hjob with ⟨env, heq, _⟩ | hmove
  · exact absurd heq (hact env)
  have hlaunch : ∀ env, a.act = .launch env →
      (r.downloaders.Fetches → r.downloaders.Requests env.requested → ∀ reply, env.reply = .ok reply →
        Launchable r.downloaders reply ∧ ∀ c ∈ reply, archive.Genuine c) ∧
      ∀ i, archive.Unforged job.hashes job.config (env.server i) i := by
    intro env heq
    unfold Archive.Faithful at hfaithful
    rw [heq] at hfaithful
    obtain ⟨hclean, hgenuine, hserver⟩ := hfaithful
    exact ⟨fun hf hreq reply hreply => ⟨(hclean r hr hf hreq reply hreply).1, hgenuine r hr hf hreq reply hreply⟩, hserver⟩
  apply sound_of_run h hr hfaithful hjob
  · rw [hwriter]
    exact h.opened
  · rw [hmove.chunks, hmove.recorded]
    exact h.synced
  · rw [hwriter, hmove.recorded]
    exact h.placed
  · intro p content hp k hk
    rw [hwriter]
  · exact fun r' hr' => (hmove.run r' hr').1
  · intro r' hr' hdone
    obtain ⟨_, hwriter', hmoves⟩ := hmove.run r' hr'
    obtain ⟨labelled, hchannel, hfed⟩ := h.fed r hr fun result hres => hdone result (hwriter' result hres)
    rw [hwriter, hmove.recorded]
    exact hfed.moves hchannel (h.run r hr).1 (h.described r hr) hlaunch hmoves

/-- The writer handles a file part, or fails to. -/
theorem sound_filePart {r : DownloadRun} {a : TargetAct} {env : WriteEnv} {path : PathBuf} {pos : Nat} {data : Bytes}
    {channel : List ChunkData} {labelled : List (Nat × ChunkData)} {i : Nat} (h : Sound job archive old t)
    (hr : t.job.current = some r) (hfaithful : archive.Faithful job t a)
    (hjob : job.stepRun t.job r a.act = some t'.job) (hwriter : t'.writer = t.handled r env a.written)
    (hch : r.channel = .filePart path pos data :: channel) (hchannel : labelled.map (·.2) = channel)
    (hfed : archive.Fed t.writer.view t.job.recorded ((i, .filePart path pos data) :: labelled) r.downloaders)
    (hfiles : t'.job.files = t.job.files) (hrec : t'.job.recorded = t.job.recorded)
    (hnext : (env.filePart = .none ∧ ∃ chunks, t'.job.current = some { r with channel, writer := .checking chunks }) ∨
      ∀ r', t'.job.current = some r' → r'.metadata = r.metadata ∧ ∃ result, r'.writer = .done result) :
    Sound job archive old t' := by
  have hpending := hfed.pending i
  rw [sentBy_cons, if_pos rfl, List.cons_append] at hpending
  obtain ⟨hi, hown, hrest⟩ := hpending.write
  obtain ⟨hok, _, hview⟩ := Target.handled_cases h.opened r env a.written
  rw [← hwriter] at hok hview
  -- what is written is within the chunk, however much it is
  have hwritten : ∀ j ≠ i, archive.Awaits t.writer.view j [] → archive.Awaits t'.writer.view j [] := by
    intro j hj hplaced
    rcases hview with ⟨hsame, _⟩ | ⟨path', pos', data', rest, n, hch', hsome, _⟩
    · rwa [hsame]
    · rw [hch] at hch'
      cases hch'
      rw [hsome]
      exact (hown.take n).elsewhere (Ne.symm hj) hplaced
  apply sound_of_run h hr hfaithful hjob hok
  · rw [hfiles, hrec]
    exact h.synced
  · rw [hrec]
    exact fun j hj => hwritten j (fun heq => hi (heq ▸ hj)) (h.placed j hj)
  · intro p content hp k hk
    rcases hview with ⟨hsame, _⟩ | ⟨path', pos', data', rest, n, hch', hsome, _⟩
    · rw [hsame]
    · rw [hch] at hch'
      cases hch'
      rw [hsome]
      exact (hown.take n).beyond _ hp hk
  · intro r' hr'
    rcases hnext with ⟨_, chunks, hcur⟩ | hdone
    · rw [hcur] at hr'
      cases hr'
      rfl
    · exact (hdone r' hr').1
  · intro r' hr' hdone
    rcases hnext with ⟨hnone, chunks, hcur⟩ | hdone'
    · rw [hcur] at hr'
      cases hr'
      refine ⟨labelled, hchannel, ?_⟩
      -- the whole part is written
      have hwhole : t'.writer.view = t.writer.view.write path pos data := by
        rcases hview with ⟨_, hfault⟩ | ⟨path', pos', data', rest, n, hch', hsome, hall⟩
        · exact absurd hnone (hfault path pos data channel hch)
        · rw [hch] at hch'
          cases hch'
          rw [hsome, hall hnone]
      rw [hrec, hwhole]
      refine ⟨hfed.stack, hfed.fresh, hfed.once, hfed.sending, fun m hm => hfed.sent m (List.mem_cons_of_mem _ hm),
        fun j => ?_⟩
      by_cases hj : i = j
      · subst hj
        exact hrest
      · have hother := hfed.pending j
        rw [sentBy_cons, if_neg hj] at hother
        exact hother.elsewhere hown hj
    · obtain ⟨result, hres⟩ := (hdone' r' hr').2
      exact absurd hres (hdone result)

/-- The writer is told that a chunk is done: it is in place, whether or not it comes on record. -/
theorem sound_endOfChunk {r : DownloadRun} {a : TargetAct} {env : WriteEnv} {chunk : Chunk} {channel : List ChunkData}
    {labelled : List (Nat × ChunkData)} {i : Nat} (h : Sound job archive old t) (hr : t.job.current = some r)
    (hfaithful : archive.Faithful job t a) (hjob : job.stepRun t.job r a.act = some t'.job)
    (hwriter : t'.writer = t.handled r env a.written) (hch : r.channel = .endOfChunk chunk :: channel)
    (hchannel : labelled.map (·.2) = channel)
    (hfed : archive.Fed t.writer.view t.job.recorded ((i, .endOfChunk chunk) :: labelled) r.downloaders)
    (hchunks : t'.job.files.chunks = t.job.files.chunks.append chunk (env.saveChunk.cutOr .complete))
    (hrec : t'.job.recorded =
      if (env.saveChunk.cutOr .complete).recorded then t.job.recorded ++ [chunk.index] else t.job.recorded)
    (hnext : (∃ chunks, t'.job.current = some { r with channel, writer := .checking chunks }) ∨
      ∀ r', t'.job.current = some r' → r'.metadata = r.metadata ∧ ∃ result, r'.writer = .done result) :
    Sound job archive old t' := by
  have hpending := hfed.pending i
  rw [sentBy_cons, if_pos rfl, List.cons_append] at hpending
  obtain ⟨hnil, rfl, hplaced⟩ := hpending.endOfChunk
  have hsame : t'.writer = t.writer := by
    rw [hwriter]
    unfold Target.handled
    rw [hch]
  have hmem : ∀ j ∈ t'.job.recorded, j ∈ t.job.recorded ∨ j = chunk.index := by
    intro j hj
    rw [hrec] at hj
    split at hj
    · simpa using hj
    · exact .inl hj
  apply sound_of_run h hr hfaithful hjob
  · rw [hsame]
    exact h.opened
  · intro chunks hload j hj
    rw [hchunks] at hload
    obtain ⟨before, hbefore, rfl⟩ := LogFile.load_append_eq hload
    have hsynced := h.synced before hbefore
    rw [hrec] at hj
    split
    · rename_i hcut
      rw [if_pos hcut] at hj
      rw [List.map_append]
      rcases List.mem_append.mp hj with hj | hj
      · exact List.mem_append_left _ (hsynced j hj)
      · exact List.mem_append_right _ (by simpa using hj)
    · rename_i hcut
      rw [if_neg hcut] at hj
      exact hsynced j hj
  · intro j hj
    rw [hsame]
    rcases hmem j hj with hj | rfl
    · exact h.placed j hj
    · exact hplaced
  · intro p content hp k hk
    rw [hsame]
  · intro r' hr'
    rcases hnext with ⟨chunks, hcur⟩ | hdone
    · rw [hcur] at hr'
      cases hr'
      rfl
    · exact (hdone r' hr').1
  · intro r' hr' hdone
    rcases hnext with ⟨chunks, hcur⟩ | hdone'
    · rw [hcur] at hr'
      cases hr'
      refine ⟨labelled, hchannel, ?_⟩
      rw [hsame]
      refine ⟨hfed.stack, ?_, hfed.once, hfed.sending, fun m hm => hfed.sent m (List.mem_cons_of_mem _ hm), fun j => ?_⟩
      · intro j hj hin
        rcases hmem j hin with hin | rfl
        · exact hfed.fresh j hj hin
        · exact hfed.sent _ (List.mem_cons_self ..) hj
      · by_cases hj : chunk.index = j
        · -- nothing of the chunk comes after this
          subst hj
          exact .inl hnil
        · have hother := hfed.pending j
          rw [sentBy_cons, if_neg hj] at hother
          exact hother.record fun hin => (hmem j hin).resolve_right (Ne.symm hj)
    · obtain ⟨result, hres⟩ := (hdone' r' hr').2
      exact absurd hres (hdone result)

/-- The writer's step. -/
theorem sound_receive {r : DownloadRun} {a : TargetAct} {env : WriteEnv} (h : Sound job archive old t)
    (hr : t.job.current = some r) (hfaithful : archive.Faithful job t a)
    (hjob : job.stepRun t.job r a.act = some t'.job) (hreceive : DownloadJob.receive t.job r env = some t'.job)
    (hwriter : t'.writer = t.handled r env a.written) : Sound job archive old t' := by
  obtain ⟨downloaded, m, channel, written, hw, hch, hwritten, hfiles, hrec, hnext⟩ := receive_cases hreceive
  obtain ⟨labelled, hchannel, hfed⟩ := h.fed r hr fun result hres => by
    rw [hw] at hres
    cases hres
  rw [hch] at hchannel
  cases labelled with
  | nil => cases hchannel
  | cons first labelled =>
    obtain ⟨i, m'⟩ := first
    rw [List.map_cons, List.cons.injEq] at hchannel
    obtain ⟨rfl, hchannel⟩ := hchannel
    cases m' with
    | filePart path pos data =>
      subst hwritten
      refine sound_filePart h hr hfaithful hjob hwriter hch hchannel hfed hfiles hrec ?_
      refine hnext.imp ?_ id
      intro hgoes
      obtain ⟨chunks, hok, hcur⟩ := hgoes
      refine ⟨?_, chunks, hcur⟩
      simp only [writeChunkData] at hok
      cases hfault : env.filePart with
      | none => rfl
      | error cut | killed cut => simp [hfault, Fault.result, Except.map] at hok
    | endOfChunk chunk =>
      subst hwritten
      have hend := writeChunkData_endOfChunk env r.metadata.chunks downloaded t.job chunk
      rw [← hfiles, ← hrec] at hend
      refine sound_endOfChunk h hr hfaithful hjob hwriter hch hchannel hfed hend.2 hend.1 ?_
      refine hnext.imp ?_ id
      intro hgoes
      obtain ⟨chunks, _, hcur⟩ := hgoes
      exact ⟨chunks, hcur⟩

/-- **Every faithful step keeps the invariant.** -/
theorem sound_step (t : Target) (a : TargetAct) (t' : Target) (h : Sound job archive old t)
    (hfaithful : archive.Faithful job t a) (hs : Target.step job t a = some t') : Sound job archive old t' := by
  rcases Target.step_cases hs with ⟨env, hidle, hact, rfl⟩ | ⟨r, env, hr, hact, hreceive, hwriter⟩ |
    ⟨r, hr, hact, hjob, hwriter⟩
  · unfold Archive.Faithful at hfaithful
    rw [hact] at hfaithful
    exact sound_start h hidle hfaithful.1 hfaithful.2
  · have hjob : job.stepRun t.job r a.act = some t'.job := by
      rw [hact]
      exact hreceive
    exact sound_receive h hr hfaithful hjob hreceive hwriter
  · exact sound_moves h hr hfaithful hact hjob hwriter

/-! ## After a download that reports success -/

/-- Before any run of this process: no file is open, what is on record is in place, and the metadata on disk, if it can
be read, is the archive's. -/
structure Ready (job : DownloadJob) (archive : Archive job.codecs) (t : Target) : Prop where
  idle : t.job.current = none
  closed : t.writer.openedFiles = []
  history : HistoryOk t.job
  synced : ∀ chunks, t.job.files.chunks.load = some chunks → ∀ i ∈ t.job.recorded, i ∈ chunks.map (·.index)
  placed : ∀ i ∈ t.job.recorded, archive.Awaits t.writer.view i []
  metadata : ∀ m, t.job.files.metadata = .whole m → archive.Describes m

theorem Ready.sound (h : Ready job archive t) : Sound job archive (t.found job) t where
  opened := ⟨by simp [h.closed], by simp [h.closed]⟩
  history := h.history
  synced := h.synced
  placed := h.placed
  beyond _ _ _ _ _ := rfl
  metadata := h.metadata
  run := runOk_none h.idle
  described r hr := by
    rw [h.idle] at hr
    cases hr
  fed r hr := by
    rw [h.idle] at hr
    cases hr

/-- A run that ends well leaves every file of the archive with its bytes, and beyond them what was there. -/
theorem sound_finish {written : Option Nat} (h : Sound job archive old t)
    (hs : Target.step job t ⟨.finish, written⟩ = some t') (hok : t'.job.lastResult = some (.ok ())) :
    ∀ p content, archive.files p = some content → (t'.writer.view p).isSome ∧
      (∀ k < content.length, t'.writer.view.byteAt p k = archive.files.byteAt p k) ∧
      ∀ k, content.length ≤ k → t'.writer.view.byteAt p k = old.byteAt p k := by
  rcases Target.step_cases hs with ⟨env, _, hact, _⟩ | ⟨r, env, _, hact, _⟩ | ⟨r, hr, _, hjob, hwriter⟩
  · cases hact
  · cases hact
  have hstep : job.step t.job .finish = some t'.job := by
    simp only [DownloadJob.step, hr]
    exact hjob
  have hall := (finish_complete hr h.run hstep hok).2
  rw [(h.described r hr).1] at hall
  have hm : t.job.files.metadata ≠ .missing := by
    intro hmissing
    rw [(h.history.fresh hmissing).2] at hr
    cases hr
  have hplaced : ∀ i, archive.Awaits t.writer.view i [] := by
    intro i
    by_cases hi : i < archive.manifest.chunks.length
    · exact h.placed i (hall i hi)
    · -- there is no such chunk
      have hnil : archive.manifest.destinations i = [] := by
        rw [DownloadManifest.destinations, List.getElem?_eq_none (by omega)]
        rfl
      unfold Archive.Awaits
      rw [hnil]
      exact ⟨by simp, by simp⟩
  intro p content hp
  rw [hwriter]
  refine ⟨?_, ?_, ?_⟩
  · obtain ⟨i, d, hd, rfl⟩ := (archive.named p).mp (by rw [hp]; rfl)
    exact ((hplaced i).files d hd).resolve_right (by simp)
  · intro k hk
    obtain ⟨i, hi⟩ := (archive.covered p k).mp ((byteAt_of_lt hp).mpr hk)
    have hbyte := (hplaced i).bytes (p, k) hi
    simpa [log, lastAt] using hbyte
  · intro k hk
    rw [← h.beyond p content hp k hk, Target.found_of_metadata hm]

/-- **When a download that reports success has left the archive's files**: after any faithful history of runs, every
file of the archive is as the archive has it if and only if none was there with more bytes before. -/
theorem complete_iff {t₀ t₁ t₂ : Target} {acts : List TargetAct} {written : Option Nat} (hready : Ready job archive t₀)
    (hrun : run (Target.step job) t₀ acts = some t₁)
    (hfaithful : Along (Target.step job) (archive.Faithful job) t₀ acts)
    (hfinish : Target.step job t₁ ⟨.finish, written⟩ = some t₂) (hok : t₂.job.lastResult = some (.ok ())) :
    archive.Complete t₂ ↔ archive.NoneLonger job t₀ := by
  have hsound : Sound job archive (t₀.found job) t₁ := run_invariant _ sound_step hready.sound hfaithful hrun
  have hfiles := sound_finish hsound hfinish hok
  constructor
  · intro hcomplete p content old hp hold
    by_contra hlonger
    obtain ⟨_, _, hbeyond⟩ := hfiles p content hp
    have hbyte := hbeyond content.length (Nat.le_refl _)
    have hnone : archive.files.byteAt p content.length = none := by
      rw [← Option.not_isSome_iff_eq_none, byteAt_of_lt hp]
      omega
    have hsame : t₂.writer.view.byteAt p content.length = archive.files.byteAt p content.length := by
      unfold byteAt
      rw [hcomplete p (by rw [hp]; rfl)]
    have hsome : ((t₀.found job).byteAt p content.length).isSome := (byteAt_of_lt hold).mpr (by omega)
    rw [← hbyte, hsame, hnone] at hsome
    cases hsome
  · intro hshort p hp
    obtain ⟨content, hp⟩ := Option.isSome_iff_exists.mp hp
    obtain ⟨hexists, hbytes, hbeyond⟩ := hfiles p content hp
    apply file_ext
    · rw [hp, hexists]
      rfl
    · intro k
      by_cases hk : k < content.length
      · exact hbytes k hk
      · have hnone : archive.files.byteAt p k = none := by
          rw [← Option.not_isSome_iff_eq_none, byteAt_of_lt hp]
          exact hk
        rw [hbeyond k (by omega), hnone, ← Option.not_isSome_iff_eq_none]
        intro hsome
        cases hold : t₀.found job p with
        | none => simp [byteAt, hold] at hsome
        | some old =>
          have hlen := hshort p content old hp hold
          have := (byteAt_of_lt hold).mp hsome
          omega

/-! ## A file of one byte -/

/-- SHA-1 at the byte 7. -/
def sevenHashes : Hashes :=
  { zeroHashes with
    sha1 := fun bytes =>
      if bytes = [7] then
        #v[93, 27, 231, 233, 221, 161, 238, 136, 150, 190, 91, 126, 52, 168, 94, 225, 100, 82, 167, 180]
      else Vector.replicate 20 0 }

def sevenJob : DownloadJob := ⟨.clientDownloader, buildTransferConfig none 8, sevenHashes, plainCodecs⟩

def sevenChunk : Chunk := ⟨0, "seven", some "get", .sha1 (sevenHashes.sha1 [7]), 1, [⟨["a"], 0, 1⟩]⟩

/-- An archive of one file. -/
def sevenArchive : Archive sevenJob.codecs where
  manifest := ⟨1, none, [sevenChunk]⟩
  files p := if p = ["a"] then some [7] else none
  body _ := [7]
  data i := if i = 0 then [7] else []
  named p := by
    constructor
    · intro h
      split at h
      · rename_i hp
        exact ⟨0, ⟨["a"], 0, 1⟩, by simp [DownloadManifest.destinations, sevenChunk], hp.symm⟩
      · cases h
    · intro ⟨i, d, hd, hp⟩
      cases i with
      | zero =>
        simp only [DownloadManifest.destinations, List.getElem?_cons_zero, Option.map_some, Option.getD_some, sevenChunk,
          List.mem_singleton] at hd
        subst hd
        subst hp
        rfl
      | succ i => simp [DownloadManifest.destinations] at hd
  covered p k := by
    constructor
    · intro h
      by_cases hp : p = ["a"]
      · subst hp
        cases k with
        | zero => exact ⟨0, by decide⟩
        | succ k => simp [byteAt] at h
      · simp [byteAt, hp] at h
    · intro ⟨i, hi⟩
      cases i with
      | zero =>
        have heq : (p, k) = (["a"], 0) := by simpa [DownloadManifest.destinations, sevenChunk, cells] using hi
        cases heq
        rfl
      | succ i => simp [DownloadManifest.destinations] at hi
  disjoint i j c hi hj := by
    cases i with
    | zero =>
      cases j with
      | zero => rfl
      | succ j => simp [DownloadManifest.destinations] at hj
    | succ i => simp [DownloadManifest.destinations] at hi
  content i := by
    cases i with
    | zero => rfl
    | succ i => simp [DownloadManifest.destinations, bytesAt]
  decodes i hi pieces _ hpieces := by
    obtain rfl : i = 0 := by simpa using hi
    exact ⟨pieces, noCoder.new, [], noCoder_feedAll pieces, rfl, by simpa using hpieces⟩

def sevenServer : Server := ⟨fun pos len _ => .ok [(([7] : Bytes).drop pos).take len], fun _ => false⟩

/-- The first run of a client, from its first launch to its end. The last launch finds nothing left to launch. -/
def sevenActs : List TargetAct :=
  let receive : DownloadAct := .receive ⟨.none, .none, .none⟩
  [.send 0, .send 0, .poll, receive, .poll, receive, .complete 0,
    .launch ⟨[], .error "not asked", fun _ => .none, fun _ => sevenServer⟩, .noFutures, .poll, .disconnected].map (⟨·, none⟩)

def sevenStart : TargetAct :=
  ⟨.start { sampleStart [] with metadata := .ok ⟨1, none, 1, 0⟩, availableSpace := .ok 1 }, none⟩

def sevenLaunch : TargetAct := ⟨.launch ⟨[0], .ok [sevenChunk], fun _ => .none, fun _ => sevenServer⟩, none⟩

/-- The directory with a file `a` in it, or without. -/
def sevenTarget (old : Option Bytes) : Target where
  job := .init
  writer := ⟨[], 0, ["data"], 1, 1, fun p => if p = ["data", "a"] then old else none, [], none, []⟩
  parts := none

theorem seven_ready (old : Option Bytes) : Ready sevenJob sevenArchive (sevenTarget old) where
  idle := rfl
  closed := rfl
  history := ⟨fun _ hload => by cases hload; simp, fun _ => ⟨rfl, rfl⟩⟩
  synced := by simp [sevenTarget, DownloadSt.init]
  placed := by simp [sevenTarget, DownloadSt.init]
  metadata := by simp [sevenTarget, DownloadSt.init, DownloadFiles.none]

theorem seven_unforged (i : Nat) : sevenArchive.Unforged sevenJob.hashes sevenJob.config sevenServer i := by
  intro m hm bytes hsends _
  have hi : i = 0 := by
    have hlt := (List.getElem?_eq_some_iff.mp hm).1
    simpa [sevenArchive] using hlt
  subst hi
  obtain rfl : sevenChunk = m := by simpa [sevenArchive] using hm
  cases hsends with
  | done hle => cases hle
  | part _ hanswer _ hrest =>
    cases hanswer
    cases hrest with
    | done => rfl
    | part hlt => exact absurd hlt (by decide)

theorem seven_faithful (old : Option Bytes) : Along (Target.step sevenJob) (sevenArchive.Faithful sevenJob)
    (sevenTarget old) (sevenStart :: sevenLaunch :: sevenActs) := by
  refine ⟨⟨.inl rfl, fun metadata hm => ?_⟩, ⟨?_, ?_, seven_unforged⟩, ?_⟩
  · cases hm
    exact ⟨rfl, rfl⟩
  · intro r hr _ _ reply hreply
    cases hr
    cases hreply
    exact ⟨⟨by decide, by decide⟩, by simp⟩
  · intro r _ _ _ reply hreply chunk hchunk
    cases hreply
    rw [List.mem_singleton.mp hchunk]
    exact ⟨sevenChunk, rfl, rfl, rfl, rfl⟩
  · split
    · trivial
    · apply along_of_forall
      intro a ha s
      simp only [sevenActs, List.mem_map, List.mem_cons, List.not_mem_nil, or_false] at ha
      obtain ⟨act, hact, rfl⟩ := ha
      -- but for the last launch, which is sent nothing, no step depends on the server
      rcases hact with rfl | rfl | rfl | rfl | rfl | rfl | rfl | rfl | rfl | rfl | rfl <;> try trivial
      refine ⟨fun r _ _ _ reply hreply => ?_, fun r _ _ _ reply hreply => ?_, seven_unforged⟩
      · cases hreply
      · cases hreply

/-- The target once the chunk is launched. -/
def sevenLaunched (old : Option Bytes) (task : List ChunkData × Except String Unit) : Target where
  job :=
    { files := { DownloadFiles.none with metadata := .whole ⟨1, none, 1, 0⟩ }
      recorded := []
      current := some
        { metadata := ⟨1, none, 1, 0⟩
          downloadedIndexes := []
          run := true
          runners := ⟨none, true⟩
          downloaders := ⟨8, [], [], [⟨sevenChunk, task.1, task.2⟩], [0]⟩
          phase := .waiting
          channel := []
          writer := .checking [] }
      lastResult := none }
  writer := (sevenTarget old).writer
  parts := none

theorem seven_launched (old : Option Bytes) :
    run (Target.step sevenJob) (sevenTarget old) [sevenStart, sevenLaunch] =
      some (sevenLaunched old (downloadChunk sevenHashes plainCodecs sevenJob.config sevenServer sevenChunk)) := rfl

theorem seven_split : splitBuffer [⟨["a"], 0, 1⟩] [7] = ([.filePart ["a"] 0 [7]], [], []) := by
  rw [splitBuffer]
  simp [nextDestination, splitBuffer]

/-- What is sent of the chunk. -/
theorem seven_download : downloadChunk sevenHashes plainCodecs sevenJob.config sevenServer sevenChunk =
    ([.filePart ["a"] 0 [7], .endOfChunk sevenChunk], .ok ()) := by
  have hparts : downloadParts sevenJob.config (plainCodecs.decoder sevenJob.config.compression) sevenServer sevenChunk 0 []
      (plainCodecs.decoder sevenJob.config.compression).new sevenChunk.destinations =
        ([.filePart ["a"] 0 [7]], .ok ([7], noCoder.new, [])) := by
    show downloadParts sevenJob.config noCoder sevenServer sevenChunk 0 [] noCoder.new [⟨["a"], 0, 1⟩] = _
    rw [downloadParts, dif_pos (by decide), if_neg (by decide)]
    dsimp only
    split
    · rename_i hpart
      cases hpart
    · rename_i buffer hpart
      have hbuffer : buffer = [7] := (Except.ok.inj hpart).symm
      subst hbuffer
      simp only [noCoder, Except.bind, Option.getD_some]
      rw [seven_split, downloadParts, dif_neg (by decide)]
      rfl
  have hfinalize : (plainCodecs.decoder sevenJob.config.compression).finalize noCoder.new = .ok [] := rfl
  unfold downloadChunk
  rw [if_neg (by decide)]
  dsimp only
  rw [hparts]
  simp [Checksum.verifies, hfinalize, splitBuffer, nextDestination, sevenChunk]
/-- What the run ends with: the file `a`, and the result. -/
theorem seven_end (old : Option Bytes) (content : Bytes)
    (h : (((run (Target.step sevenJob) (sevenLaunched old ([.filePart ["a"] 0 [7], .endOfChunk sevenChunk], .ok ()))
      sevenActs).bind fun t => Target.step sevenJob t ⟨.finish, none⟩).map fun t => (t.writer.view ["a"], t.job.lastResult)) =
        some (some content, some (.ok ()))) :
    ∃ t₁ t₂, run (Target.step sevenJob) (sevenTarget old) (sevenStart :: sevenLaunch :: sevenActs) = some t₁ ∧
      Target.step sevenJob t₁ ⟨.finish, none⟩ = some t₂ ∧ t₂.job.lastResult = some (.ok ()) ∧
      t₂.writer.view ["a"] = some content := by
  obtain ⟨t₂, hend, hobs⟩ := Option.map_eq_some_iff.mp h
  obtain ⟨t₁, hrun, hfinish⟩ := Option.bind_eq_some_iff.mp hend
  rw [Prod.mk.injEq] at hobs
  refine ⟨t₁, t₂, ?_, hfinish, hobs.2, hobs.1⟩
  show run (Target.step sevenJob) (sevenTarget old) ([sevenStart, sevenLaunch] ++ sevenActs) = some t₁
  rw [run_append, seven_launched, seven_download]
  exact hrun

/-- In an empty directory no file is longer, and the file is complete. -/
theorem complete_iff_empty : ∃ t₁ t₂,
    run (Target.step sevenJob) (sevenTarget none) (sevenStart :: sevenLaunch :: sevenActs) = some t₁ ∧
    Target.step sevenJob t₁ ⟨.finish, none⟩ = some t₂ ∧
    (sevenArchive.Complete t₂ ↔ sevenArchive.NoneLonger sevenJob (sevenTarget none)) := by
  obtain ⟨t₁, t₂, hrun, hfinish, hok, _⟩ := seven_end none [7] (by decide +kernel)
  exact ⟨t₁, t₂, hrun, hfinish, complete_iff (seven_ready none) hrun (seven_faithful none) hfinish hok⟩

/-- **A stale tail**: where `a` was two bytes long, the run reports success and leaves the second of them. -/
theorem stale_tail : ∃ t₁ t₂, Ready sevenJob sevenArchive (sevenTarget (some [1, 2])) ∧
    run (Target.step sevenJob) (sevenTarget (some [1, 2])) (sevenStart :: sevenLaunch :: sevenActs) = some t₁ ∧
    Along (Target.step sevenJob) (sevenArchive.Faithful sevenJob) (sevenTarget (some [1, 2]))
      (sevenStart :: sevenLaunch :: sevenActs) ∧
    Target.step sevenJob t₁ ⟨.finish, none⟩ = some t₂ ∧ t₂.job.lastResult = some (.ok ()) ∧
    t₂.writer.view ["a"] = some [7, 2] ∧ ¬ sevenArchive.Complete t₂ := by
  obtain ⟨t₁, t₂, hrun, hfinish, hok, hview⟩ := seven_end (some [1, 2]) [7, 2] (by decide +kernel)
  refine ⟨t₁, t₂, seven_ready _, hrun, seven_faithful _, hfinish, hok, hview, fun hcomplete => ?_⟩
  have hfile := hcomplete ["a"] rfl
  rw [hview] at hfile
  cases hfile

end Blockvisor
