/-
When downloads are complete, over whole histories of runs.

Whatever ran before, and however it ended, the chunks file holds only chunks
the writer put on record, and nothing is on record before the metadata is
saved (`HistoryOk`). A run that takes only these as downloaded is complete
when it returns `Ok`. A `Downloader` without a metadata file takes every chunk
it fetched as downloaded and launches nothing (`Idle`), which makes
`download_complete_iff` exact. A `ClientDownloader` launches whatever it is
sent; `clientDownload_complete` states what it needs of the replies.
-/
import Blockvisor.Babel.DownloadFacts

namespace Blockvisor

open Machine ParallelChunkDownloaders

/-! ## The start of a run, and what earlier runs leave -/

/-- What `get_metadata` does to the files: a metadata file stays, and the chunks file is kept or
overwritten with what loads as nothing. -/
structure MetadataSpec (files files' : DownloadFiles) : Prop where
  chunks : ∀ chunks, files'.chunks.load = some chunks → files.chunks.load = some chunks ∨ chunks = []
  metadata : files'.metadata = .missing → files.metadata = .missing

theorem getMetadata_spec (job : DownloadJob) (files : DownloadFiles) (env : StartEnv) :
    MetadataSpec files (job.getMetadata files env).1 := by
  unfold DownloadJob.getMetadata
  split
  · unfold Downloader.getMetadata
    split
    · exact ⟨fun _ h => .inl h, id⟩
    · split
      · exact ⟨fun _ h => .inl h, id⟩
      · exact ⟨fun _ h => .inl h, id⟩
      · dsimp only
        split
        · exact ⟨fun _ h => .inl h, Doc.write_missing⟩
        · exact ⟨fun _ h => LogFile.load_overwrite h, Doc.write_missing⟩
  · unfold ClientDownloader.getMetadata
    split
    · exact ⟨fun _ h => .inl h, id⟩
    · split
      · exact ⟨fun _ h => .inl h, id⟩
      · exact ⟨fun _ h => .inl h, id⟩
      · exact ⟨fun _ h => .inl h, Doc.write_missing⟩

/-- The metadata saved is what the API sent, and what is on record is kept, but by a `Downloader`'s first run. -/
theorem getMetadata_kept (job : DownloadJob) (files : DownloadFiles) (env : StartEnv) :
    (∀ m, (job.getMetadata files env).1.metadata = .whole m → files.metadata = .whole m ∨ env.metadata = .ok m) ∧
      (files.metadata ≠ .missing ∨ job.kind = .clientDownloader →
        (job.getMetadata files env).1.chunks = files.chunks) := by
  have hmeta : ∀ m, orError env.metadata = .ok m → env.metadata = .ok m := by
    intro m hm
    cases he : env.metadata <;> simp_all [orError, Except.mapError]
  have hsaved : ∀ m n, orError env.metadata = .ok m →
      (saveJobData files.metadata m env.saveMetadata).1 = .whole n → files.metadata = .whole n ∨ env.metadata = .ok n := by
    intro m n hm hn
    rcases Doc.write_whole hn with h | rfl
    · exact .inl h
    · exact .inr (hmeta m hm)
  unfold DownloadJob.getMetadata
  split
  · rename_i hkind
    unfold Downloader.getMetadata
    split
    · exact ⟨fun m h => .inl h, fun _ => rfl⟩
    · rename_i hm
      have hnot : ¬ (files.metadata ≠ .missing ∨ job.kind = .clientDownloader) := by simp [hkind, not_not.mp hm]
      split
      · exact ⟨fun m h => .inl h, fun _ => rfl⟩
      · exact ⟨fun m h => .inl h, fun _ => rfl⟩
      · rename_i m cs hmm _
        dsimp only
        split
        · exact ⟨fun n hn => hsaved m n hmm hn, fun h => absurd h hnot⟩
        · exact ⟨fun n hn => hsaved m n hmm hn, fun h => absurd h hnot⟩
  · unfold ClientDownloader.getMetadata
    split
    · exact ⟨fun m h => .inl h, fun _ => rfl⟩
    · split
      · exact ⟨fun m h => .inl h, fun _ => rfl⟩
      · exact ⟨fun m h => .inl h, fun _ => rfl⟩
      · rename_i m _ hmm
        exact ⟨fun n hn => hsaved m n hmm hn, fun _ => rfl⟩

/-- A run that found its metadata takes the chunks of the chunks file as downloaded; a client's first run takes none,
and its metadata from the API. -/
theorem getMetadata_resumed {job : DownloadJob} {files files' : DownloadFiles} {env : StartEnv}
    {metadata : DownloadMetadata} {chunks : List Chunk}
    (h : job.getMetadata files env = (files', .ok (metadata, chunks)))
    (hres : files.metadata ≠ .missing ∨ job.kind = .clientDownloader) :
    (files.metadata = .whole metadata ∧ files.chunks.load = some chunks) ∨
      (files.metadata = .missing ∧ env.metadata = .ok metadata ∧ chunks = []) := by
  have hload : ∀ r : Except (Exit String) (DownloadMetadata × List Chunk), (do
      let metadata ← loadJobData files.metadata
      let chunks ← loadChunks files.chunks
      Except.ok (metadata, chunks)) = r → r = .ok (metadata, chunks) →
        files.metadata = .whole metadata ∧ files.chunks.load = some chunks := by
    rintro r hr rfl
    obtain ⟨m, hm, hr⟩ := Except.of_bind_ok hr
    obtain ⟨cs, hc, hr⟩ := Except.of_bind_ok hr
    cases hr
    exact ⟨loadJobData_ok.mp hm, loadChunks_ok.mp hc⟩
  unfold DownloadJob.getMetadata at h
  split at h
  · rename_i hkind
    have hm : files.metadata ≠ .missing := hres.resolve_right (by simp [hkind])
    unfold Downloader.getMetadata at h
    rw [if_pos hm, Prod.mk.injEq] at h
    exact .inl (hload _ rfl h.2)
  · unfold ClientDownloader.getMetadata at h
    split at h
    · rw [Prod.mk.injEq] at h
      exact .inl (hload _ rfl h.2)
    · rename_i hm
      split at h
      · cases h
      · cases h
      · rename_i m _ hmeta
        dsimp only at h
        rw [Prod.mk.injEq] at h
        right
        cases hs : (saveJobData files.metadata m env.saveMetadata).2 with
        | error e => simp [hs, Except.map] at h
        | ok u =>
          simp only [hs, Except.map, Except.ok.injEq, Prod.mk.injEq] at h
          obtain ⟨-, rfl, rfl⟩ := h
          refine ⟨not_not.mp hm, ?_, rfl⟩
          cases he : env.metadata <;> simp_all [orError, Except.mapError]

/-- A `Downloader` without a metadata file takes all the chunks it fetched as downloaded. -/
theorem getMetadata_fresh {files files' : DownloadFiles} {env : StartEnv} {metadata : DownloadMetadata}
    {chunks : List Chunk} (h : Downloader.getMetadata files env = (files', .ok (metadata, chunks)))
    (hm : files.metadata = .missing) : env.metadata = .ok metadata ∧ env.chunks = .ok chunks := by
  unfold Downloader.getMetadata at h
  rw [if_neg (by simp [hm])] at h
  split at h
  · cases h
  · cases h
  · rename_i m cs hmeta hchunks
    have hm' : env.metadata = .ok m := by
      cases he : env.metadata <;> simp_all [orError, Except.mapError]
    have hc' : env.chunks = .ok cs := by
      cases he : env.chunks <;> simp_all [orError, Except.mapError]
    dsimp only at h
    split at h
    · cases h
    · rw [Prod.mk.injEq] at h
      cases hs : env.saveChunks.result "failed to save job data" with
      | error e => simp [hs, Except.map] at h
      | ok u =>
        simp only [hs, Except.map, Except.ok.injEq, Prod.mk.injEq] at h
        obtain ⟨_, rfl, rfl⟩ := h
        exact ⟨hm', hc'⟩

/-- The state a started run begins in. -/
theorem start_current {job : DownloadJob} {s : DownloadSt} {env : StartEnv} {r : DownloadRun}
    (hidle : s.current = none) (h : (job.start s env).current = some r) :
    ∃ metadata chunks, (job.getMetadata s.files env).2 = .ok (metadata, chunks) ∧ 0 < job.config.maxRunners ∧
      r = { metadata, downloadedIndexes := chunks.map (·.index), run := true, runners := ⟨none, true⟩,
            downloaders := .new job.maxRunners metadata.chunks (chunks.map (·.index)), phase := .launching,
            channel := [], writer := .checking chunks } := by
  unfold DownloadJob.start at h
  dsimp only at h
  split at h
  · simp [hidle] at h
  · simp [hidle] at h
  · rename_i metadata chunks hmeta
    split at h
    · simp [hidle] at h
    · split at h
      · simp [hidle] at h
      · rename_i hmax
        exact ⟨metadata, chunks, hmeta, by omega, (Option.some.inj h).symm⟩

theorem start_files (job : DownloadJob) (s : DownloadSt) (env : StartEnv) :
    (job.start s env).files = (job.getMetadata s.files env).1 ∧ (job.start s env).recorded = s.recorded := by
  unfold DownloadJob.start
  dsimp only
  split
  · exact ⟨rfl, rfl⟩
  · exact ⟨rfl, rfl⟩
  · split
    · exact ⟨rfl, rfl⟩
    · split <;> exact ⟨rfl, rfl⟩

/-- A run that takes only recorded chunks as downloaded begins with its invariant. -/
theorem runOk_start {job : DownloadJob} {s : DownloadSt} {env : StartEnv} (hidle : s.current = none)
    (hrec : RecordOk s) (hres : s.files.metadata ≠ .missing ∨ job.kind = .clientDownloader) :
    RunOk (job.start s env) := by
  intro r hr
  obtain ⟨metadata, chunks, hmeta, hmax, rfl⟩ := start_current hidle hr
  have hdown : ∀ c ∈ chunks, c.index ∈ s.recorded := by
    intro c hc
    have hget : job.getMetadata s.files env = ((job.getMetadata s.files env).1, .ok (metadata, chunks)) :=
      Prod.ext rfl hmeta
    rcases getMetadata_resumed hget hres with ⟨_, hload⟩ | ⟨_, _, rfl⟩
    · exact hrec _ hload c hc
    · cases hc
  rw [(start_files job s env).2]
  refine ⟨⟨?_, ⟨by simp [new], by simp [new]⟩, ?_, by simp [new], by simp [new]⟩, .inr ⟨rfl, ?_, by simp, by simp, by simp⟩⟩
  · have hfiles := job.config.maxOpenedFiles_pos
    simp only [new, DownloadJob.maxRunners]
    split <;> omega
  · intro i hi
    simpa using (List.mem_filter.mp hi).2
  · intro i hi
    by_cases hin : i ∈ chunks.map (·.index)
    · obtain ⟨c, hc, rfl⟩ := List.mem_map.mp hin
      exact .inl (hdown c hc)
    · exact .inr (.inl (List.mem_filter.mpr ⟨List.mem_range.mpr hi, by simpa using hin⟩))

/-- What holds whatever ran before: the chunks file is on record, and before the metadata is saved
nothing is. -/
structure HistoryOk (s : DownloadSt) : Prop where
  record : RecordOk s
  fresh : s.files.metadata = .missing → s.recorded = [] ∧ s.current = none

/-- What a step of a run other than the writer's does to the launcher and the channel. -/
inductive Moves (job : DownloadJob) (r : DownloadRun) : DownloadAct → ParallelChunkDownloaders → List ChunkData → Prop where
  | stays {a : DownloadAct} : Moves job r a r.downloaders r.channel
  | launches {env : LaunchEnv} (parts : LogFile Chunk) :
      (r.downloaders.Fetches → r.downloaders.Requests env.requested) →
      Moves job r (.launch env) (r.downloaders.launchMore job { job.config with compression := r.metadata.compression }
        env parts).1.1 r.channel
  | sends {k : Nat} {t : ChunkTask} {m : ChunkData} {messages : List ChunkData} :
      r.downloaders.futures[k]? = some t → t.messages = m :: messages →
      Moves job r (.send k) { r.downloaders with futures := r.downloaders.futures.set k { t with messages } }
        (r.channel ++ [m])
  | clears {a : DownloadAct} {k : Nat} {t : ChunkTask} (result : Except String Unit) :
      r.downloaders.futures[k]? = some t →
      Moves job r a { r.downloaders with futures := r.downloaders.futures.set k { t with messages := [], result } } r.channel
  | completes {k : Nat} {t : ChunkTask} : r.downloaders.futures[k]? = some t → t.messages = [] →
      Moves job r (.complete k) { r.downloaders with futures := r.downloaders.futures.eraseIdx k } r.channel

/-- A step that is not the writer's: the record stays, and a run that goes on moves as it may. -/
structure MoveSpec (job : DownloadJob) (s s' : DownloadSt) (r : DownloadRun) (a : DownloadAct) : Prop where
  metadata : s'.files.metadata = s.files.metadata
  chunks : s'.files.chunks = s.files.chunks
  recorded : s'.recorded = s.recorded
  run : ∀ r', s'.current = some r' → r'.metadata = r.metadata ∧
    (∀ result, r.writer = .done result → r'.writer = .done result) ∧ Moves job r a r'.downloaders r'.channel

/-- **A step of a run is the writer's, or moves no more than the launcher and the channel.** -/
theorem stepRun_cases {job : DownloadJob} {s s' : DownloadSt} {r : DownloadRun} {a : DownloadAct}
    (hs : job.stepRun s r a = some s') :
    (∃ env, a = .receive env ∧ DownloadJob.receive s r env = some s') ∨ MoveSpec job s s' r a := by
  have hsame : ∀ r' : DownloadRun, r'.metadata = r.metadata → (∀ result, r.writer = .done result → r'.writer = .done result) →
      Moves job r a r'.downloaders r'.channel → MoveSpec job s { s with current := some r' } r a := by
    intro r' hm hw hmove
    refine ⟨rfl, rfl, rfl, fun r'' hr'' => ?_⟩
    cases hr''
    exact ⟨hm, hw, hmove⟩
  cases a with
  | start env => cases hs
  | shutdown =>
    cases hs
    exact .inr (hsame _ rfl (fun _ h => h) .stays)
  | kill =>
    cases hs
    exact .inr ⟨rfl, rfl, rfl, fun _ hr' => by cases hr'⟩
  | launch env =>
    right
    simp only [DownloadJob.stepRun, DownloadJob.launch] at hs
    split at hs
    · cases hs
    split at hs
    · cases hs
      exact hsame _ rfl (fun _ h => h) .stays
    split at hs
    · cases hs
    rename_i hreq
    have hmove : Moves job r (.launch env) _ _ := .launches s.files.parts fun hf => by_contra fun hn => hreq ⟨hf, hn⟩
    split at hs
    · cases hs
      refine ⟨rfl, rfl, rfl, fun r' hr' => ?_⟩
      cases hr'
      exact ⟨rfl, fun _ h => h, hmove⟩
    · cases hs
      refine ⟨rfl, rfl, rfl, fun r' hr' => ?_⟩
      cases hr'
      exact ⟨rfl, fun _ h => h, hmove⟩
    · cases hs
      exact ⟨rfl, rfl, rfl, fun _ hr' => by cases hr'⟩
  | send k =>
    right
    simp only [DownloadJob.stepRun, DownloadJob.send] at hs
    cases hk : r.downloaders.futures[k]? with
    | none => simp [hk] at hs
    | some t =>
      simp only [hk] at hs
      split at hs
      · cases hs
      · cases hs
        exact hsame _ rfl (fun _ h => h) (.clears _ hk)
      · rename_i m messages hm _
        split at hs
        · cases hs
          exact hsame _ rfl (fun _ h => h) (.sends hk hm)
        · cases hs
  | abort k =>
    right
    simp only [DownloadJob.stepRun, DownloadJob.abort] at hs
    cases hk : r.downloaders.futures[k]? with
    | none => simp [hk] at hs
    | some t =>
      simp only [hk] at hs
      cases hs
      exact hsame _ rfl (fun _ h => h) (.clears _ hk)
  | complete k =>
    right
    simp only [DownloadJob.stepRun, DownloadJob.complete] at hs
    split at hs
    · cases hs
    cases hk : r.downloaders.futures[k]? with
    | none => simp [hk] at hs
    | some t =>
      simp only [hk] at hs
      split at hs
      · cases hs
      rename_i hm
      have hmove : Moves job r (.complete k) _ _ := .completes hk (not_not.mp hm)
      split at hs
      · cases hs
        exact hsame _ rfl (fun _ h => h) hmove
      · cases hs
        exact hsame _ rfl (fun _ h => h) hmove
  | noFutures =>
    simp only [DownloadJob.stepRun] at hs
    split at hs
    · cases hs
      exact .inr (hsame _ rfl (fun _ h => h) .stays)
    · cases hs
  | poll =>
    simp only [DownloadJob.stepRun] at hs
    split at hs
    · rename_i hw
      cases hs
      exact .inr (hsame _ rfl (fun _ h => by rw [hw] at h; cases h) .stays)
    · cases hs
  | receive env => exact .inl ⟨env, rfl, hs⟩
  | disconnected =>
    simp only [DownloadJob.stepRun] at hs
    split at hs
    · rename_i hw
      split at hs
      · cases hs
        exact .inr (hsame _ rfl (fun _ h => by rw [hw] at h; cases h) .stays)
      · cases hs
    · cases hs
  | finish =>
    simp only [DownloadJob.stepRun] at hs
    split at hs
    · split at hs
      · cases hs
        exact .inr ⟨rfl, rfl, rfl, fun _ hr' => by cases hr'⟩
      · cases hs
    · cases hs

/-- **What the writer's step does**: it handles the message it waited for, and goes on or is done. -/
theorem receive_cases {s s' : DownloadSt} {r : DownloadRun} {env : WriteEnv} (hs : DownloadJob.receive s r env = some s') :
    ∃ downloaded m channel written, r.writer = .awaiting downloaded ∧ r.channel = m :: channel ∧
      writeChunkData env r.metadata.chunks downloaded s m = written ∧
      s'.files = written.1.files ∧ s'.recorded = written.1.recorded ∧
      ((∃ chunks, written.2 = .ok chunks ∧ s'.current = some { r with channel, writer := .checking chunks }) ∨
        ∀ r', s'.current = some r' → r'.metadata = r.metadata ∧ ∃ result, r'.writer = .done result) := by
  unfold DownloadJob.receive at hs
  split at hs
  · rename_i downloaded m channel hw hch
    refine ⟨downloaded, m, channel, _, hw, hch, rfl, ?_⟩
    generalize writeChunkData env r.metadata.chunks downloaded s m = written at hs
    obtain ⟨t, result⟩ := written
    dsimp only at hs
    split at hs
    · rename_i chunks
      cases hs
      exact ⟨rfl, rfl, .inl ⟨chunks, rfl, rfl⟩⟩
    · cases hs
      refine ⟨rfl, rfl, .inr fun r' hr' => ?_⟩
      cases hr'
      exact ⟨rfl, _, rfl⟩
    · cases hs
      exact ⟨rfl, rfl, .inr fun r' hr' => by cases hr'⟩
  · cases hs

/-- What a step of a run leaves of the files. -/
theorem stepRun_files {job : DownloadJob} {s s' : DownloadSt} {r : DownloadRun} {a : DownloadAct}
    (hs : job.stepRun s r a = some s') :
    s'.files.metadata = s.files.metadata ∧ (RecordOk s → RecordOk s') ∧
      (r.channel = [] → s'.recorded = s.recorded) := by
  rcases stepRun_cases hs with ⟨env, rfl, hreceive⟩ | hmove
  · obtain ⟨downloaded, m, channel, written, _, hch, rfl, hfiles, hrec, _⟩ := receive_cases hreceive
    have hspec := writeChunkData_spec env r.metadata.chunks downloaded s m
    refine ⟨by rw [hfiles]; exact hspec.metadata, fun h => ?_, fun hnil => by rw [hch] at hnil; cases hnil⟩
    have hok := hspec.recordOk h
    unfold RecordOk at hok ⊢
    rwa [hfiles, hrec]
  · refine ⟨hmove.metadata, fun h => ?_, fun _ => hmove.recorded⟩
    unfold RecordOk at h ⊢
    rwa [hmove.chunks, hmove.recorded]

/-- The run of a fresh `Downloader`: nothing is launched, and nothing comes on record. -/
structure Idle (s : DownloadSt) : Prop where
  recorded : s.recorded = []
  current : ∀ r, s.current = some r →
    r.downloaders.chunkIndexes = [] ∧ r.downloaders.futures = [] ∧ r.channel = []

theorem historyOk_start (job : DownloadJob) {s : DownloadSt} {env : StartEnv} (hidle : s.current = none)
    (h : HistoryOk s) : HistoryOk (job.start s env) := by
  obtain ⟨hfiles, hrec⟩ := start_files job s env
  have hspec := getMetadata_spec job s.files env
  refine ⟨fun chunks hload c hc => ?_, fun hmissing => ?_⟩
  · rw [hfiles] at hload
    rw [hrec]
    rcases hspec.chunks chunks hload with hload | rfl
    · exact h.record chunks hload c hc
    · cases hc
  · rw [hfiles] at hmissing
    refine ⟨hrec.trans (h.fresh (hspec.metadata hmissing)).1, ?_⟩
    -- without a metadata file saved, the run did not begin
    cases hcur : (job.start s env).current with
    | none => rfl
    | some r =>
      exfalso
      obtain ⟨metadata, chunks, hmeta, _, _⟩ := start_current hidle hcur
      have hm := hspec.metadata hmissing
      unfold DownloadJob.getMetadata at hmeta hmissing
      split at hmeta
      · unfold Downloader.getMetadata at hmeta hmissing
        rw [if_neg (by simp [hm])] at hmeta hmissing
        split at hmeta
        · cases hmeta
        · cases hmeta
        · cases hf : env.saveMetadata <;>
            simp_all [saveJobData, Doc.save, Doc.write, Fault.cutOr, Fault.result]
      · unfold ClientDownloader.getMetadata at hmeta hmissing
        rw [if_neg (by simp [hm])] at hmeta hmissing
        split at hmeta
        · cases hmeta
        · cases hmeta
        · cases hf : env.saveMetadata <;>
            simp_all [saveJobData, Doc.save, Doc.write, Fault.cutOr, Fault.result, Except.map]

/-- A step starts a run or is a step of the run. -/
theorem step_cases {job : DownloadJob} {s s' : DownloadSt} {a : DownloadAct} (hs : job.step s a = some s') :
    (s.current = none ∧ ∃ env, a = .start env ∧ s' = job.start s env) ∨
      ∃ r, s.current = some r ∧ job.stepRun s r a = some s' := by
  unfold DownloadJob.step at hs
  split at hs
  · rename_i env hidle
    cases hs
    exact .inl ⟨hidle, env, rfl, rfl⟩
  · cases hs
  · rename_i r hr
    exact .inr ⟨r, hr, hs⟩

theorem historyOk_step (job : DownloadJob) (s : DownloadSt) (a : DownloadAct) (s' : DownloadSt) (h : HistoryOk s)
    (hs : job.step s a = some s') : HistoryOk s' := by
  rcases step_cases hs with ⟨hidle, env, rfl, rfl⟩ | ⟨r, hr, hs⟩
  · exact historyOk_start job hidle h
  · obtain ⟨hm, hrec, _⟩ := stepRun_files hs
    refine ⟨hrec h.record, fun hmissing => ?_⟩
    have := (h.fresh (hm ▸ hmissing)).2
    rw [hr] at this
    cases this

/-- Every history of runs leaves the files in order. -/
theorem historyOk_reachable {job : DownloadJob} {s : DownloadSt}
    (h : Reachable job.step (· = DownloadSt.init) s) : HistoryOk s :=
  h.invariant job.step (fun s hs => hs ▸ ⟨fun _ hload => by cases hload; simp, fun _ => ⟨rfl, rfl⟩⟩)
    (historyOk_step job)

/-! ## Completeness -/

/-- What a step within one run keeps. -/
theorem runOk_step {job : DownloadJob} {s s' : DownloadSt} {a : DownloadAct} (h : RunOk s) (hclean : CleanReplies s a)
    (hone : ∀ env, a ≠ .start env) (hs : job.step s a = some s') : RunOk s' := by
  rcases step_cases hs with ⟨_, env, rfl, _⟩ | ⟨r, hr, hs⟩
  · exact absurd rfl (hone env)
  · exact runOk_stepRun hr h hclean hs

theorem idle_start {job : DownloadJob} {s : DownloadSt} {env : StartEnv} (hkind : job.kind = .downloader)
    (h : HistoryOk s) (hm : s.files.metadata = .missing) (hhonest : HonestReplies s (.start env)) :
    Idle (job.start s env) := by
  obtain ⟨hrec, hidle⟩ := h.fresh hm
  refine ⟨(start_files job s env).2.trans hrec, fun r hr => ?_⟩
  obtain ⟨metadata, chunks, hmeta, _, rfl⟩ := start_current hidle hr
  have hget : Downloader.getMetadata s.files env = ((Downloader.getMetadata s.files env).1, .ok (metadata, chunks)) := by
    simp only [DownloadJob.getMetadata, hkind] at hmeta
    exact Prod.ext rfl hmeta
  obtain ⟨hm', hc'⟩ := getMetadata_fresh hget hm
  refine ⟨?_, rfl, rfl⟩
  -- the chunks fetched are all there are
  have hperm := hhonest metadata chunks hm' hc'
  simp only [new, List.filter_eq_nil_iff, decide_not, Bool.not_eq_true', decide_eq_false_iff_not, not_not]
  intro i hi
  exact hperm.mem_iff.mpr hi

theorem idle_step {job : DownloadJob} {s s' : DownloadSt} {a : DownloadAct} (h : Idle s)
    (hone : ∀ env, a ≠ .start env) (hs : job.step s a = some s') : Idle s' := by
  rcases step_cases hs with ⟨_, env, rfl, _⟩ | ⟨r, hr, hs⟩
  · exact absurd rfl (hone env)
  obtain ⟨hidx, hfut, hch⟩ := h.current r hr
  refine ⟨((stepRun_files hs).2.2 hch).trans h.recorded, ?_⟩
  intro r' hr'
  cases a with
  | start env => cases hs
  | shutdown =>
    cases hs
    cases hr'
    exact ⟨hidx, hfut, hch⟩
  | kill =>
    cases hs
    cases hr'
  | launch env =>
    simp only [DownloadJob.stepRun, DownloadJob.launch] at hs
    split at hs
    · cases hs
    split at hs
    · cases hs
      cases hr'
      exact ⟨hidx, hfut, hch⟩
    split at hs
    · cases hs
    have hmore : ∀ config parts, r.downloaders.launchMore job config env parts = ((r.downloaders, parts), .ok ()) := by
      intro config parts
      unfold launchMore
      rw [if_neg (by simp [hidx])]
    rw [hmore] at hs
    cases hs
    cases hr'
    exact ⟨hidx, hfut, hch⟩
  | send k => simp [DownloadJob.stepRun, DownloadJob.send, hfut] at hs
  | abort k => simp [DownloadJob.stepRun, DownloadJob.abort, hfut] at hs
  | complete k => simp [DownloadJob.stepRun, DownloadJob.complete, hfut] at hs
  | noFutures =>
    simp only [DownloadJob.stepRun] at hs
    split at hs <;> cases hs
    cases hr'
    exact ⟨hidx, hfut, hch⟩
  | poll =>
    simp only [DownloadJob.stepRun] at hs
    split at hs <;> cases hs
    cases hr'
    exact ⟨hidx, hfut, hch⟩
  | receive env => simp [DownloadJob.stepRun, DownloadJob.receive, hch] at hs
  | disconnected =>
    simp only [DownloadJob.stepRun] at hs
    split at hs
    · split at hs <;> cases hs
      cases hr'
      exact ⟨hidx, hfut, hch⟩
    · cases hs
  | finish =>
    simp only [DownloadJob.stepRun] at hs
    split at hs
    · split at hs <;> cases hs
      cases hr'
    · cases hs

/-- Within one run, under a condition on its steps, a step keeps what it keeps under the condition. -/
theorem run_invariant_one {job : DownloadJob} {I : DownloadSt → Prop} (ok : DownloadSt → DownloadAct → Prop)
    (hstep : ∀ s a s', I s → ok s a → (∀ env, a ≠ .start env) → job.step s a = some s' → I s') :
    ∀ {acts : List DownloadAct} {s s' : DownloadSt}, I s → Along job.step ok s acts →
      (∀ a ∈ acts, ∀ env, a ≠ .start env) → run job.step s acts = some s' → I s' := by
  intro acts
  induction acts with
  | nil =>
    intro s s' hI _ _ hrun
    cases hrun
    exact hI
  | cons a acts ih =>
    intro s s' hI hok hone hrun
    simp only [run] at hrun
    have hrest := hok.2
    cases hs : job.step s a with
    | none => simp [hs] at hrun
    | some t =>
      simp only [hs] at hrun hrest
      exact ih (hstep s a t hI hok.1 (hone a (by simp)) hs) hrest (fun b hb => hone b (by simp [hb])) hrun

/-- A job with eight runners. -/
def sampleJob (kind : DownloaderKind) : DownloadJob := ⟨kind, buildTransferConfig none 8, zeroHashes, plainCodecs⟩

/-- A start at which everything works, with a manifest of as many chunks as are sent. -/
def sampleStart (chunks : List Chunk) : StartEnv where
  metadata := .ok ⟨0, none, chunks.length, 0⟩
  chunks := .ok chunks
  cleanup := .ok ()
  saveMetadata := .none
  saveChunks := .none
  availableSpace := .ok 0

/-- A launch that is sent the given chunks, and at which nothing fails. -/
def sampleLaunch (requested : List Nat) (reply : List Chunk) : LaunchEnv :=
  ⟨requested, .ok reply, fun _ => .none, fun _ => ⟨fun _ _ _ => .ok [], fun _ => false⟩⟩

/-- The legacy downloader's runs with an honest server. -/
structure HonestRun (job : DownloadJob) (s₀ s₁ s₂ : DownloadSt) (env : StartEnv) (acts : List DownloadAct) : Prop where
  start : job.step s₀ (.start env) = some s₁
  run : run job.step s₁ acts = some s₂
  honest : Along job.step HonestReplies s₀ (.start env :: acts)
  one : ∀ a ∈ acts, ∀ env, a ≠ .start env

theorem HonestRun.along {job : DownloadJob} {s₀ s₁ s₂ : DownloadSt} {env : StartEnv} {acts : List DownloadAct}
    (h : HonestRun job s₀ s₁ s₂ env acts) : Along job.step HonestReplies s₁ acts := by
  have hrest := h.honest.2
  rwa [h.start] at hrest

/-- **When a download is complete.** After any history of runs, a run of `Downloader` with an
honest server that returns `Ok` has every chunk of its manifest on record if and only if there was
no chunk to download or the metadata file was there when it started. -/
theorem download_complete_iff {job : DownloadJob} (hkind : job.kind = .downloader) {s₀ s₁ s₂ s₃ : DownloadSt}
    {env : StartEnv} {acts : List DownloadAct} {r : DownloadRun}
    (hhistory : Reachable job.step (· = DownloadSt.init) s₀) (hrun : HonestRun job s₀ s₁ s₂ env acts)
    (hr : s₂.current = some r) (hfinish : job.step s₂ .finish = some s₃) (hok : s₃.lastResult = some (.ok ())) :
    (∀ i < r.metadata.chunks, i ∈ s₃.recorded) ↔ r.metadata.chunks = 0 ∨ s₀.files.metadata ≠ .missing := by
  have hhist := historyOk_reachable hhistory
  obtain ⟨hidle, rfl⟩ : s₀.current = none ∧ s₁ = job.start s₀ env := by
    rcases step_cases hrun.start with ⟨hidle, _, heq, rfl⟩ | ⟨_, _, hs⟩
    · cases heq
      exact ⟨hidle, rfl⟩
    · cases hs
  constructor
  · intro hall
    by_contra hn
    obtain ⟨hpos, hm⟩ := not_or.mp hn
    have hstart := idle_start hkind hhist (not_not.mp hm) hrun.honest.1
    have hend : Idle s₂ := run_invariant_one _ (fun _ _ _ hI _ hone hs => idle_step hI hone hs) hstart
      hrun.along hrun.one hrun.run
    have hfin := idle_step hend (by simp) hfinish
    have h0 := hall 0 (Nat.pos_of_ne_zero hpos)
    rw [hfin.recorded] at h0
    cases h0
  · rintro (h0 | hm)
    · intro i hi
      omega
    · have hend : RunOk s₂ := run_invariant_one HonestReplies (fun s a s' hI hok hone hs =>
        runOk_step hI (hok.clean fun r hr => (hI r hr).1) hone hs) (runOk_start hidle hhist.record (.inl hm))
        hrun.along hrun.one hrun.run
      obtain ⟨hrec, hall⟩ := finish_complete hr hend hfinish hok
      rw [hrec]
      exact hall

/-- A first run with one chunk, up to its end. -/
def freshActs : List DownloadAct := [.launch (sampleLaunch [] []), .noFutures, .poll, .disconnected]

theorem freshActs_honest : ∃ s₁ s₂, HonestRun (sampleJob .downloader) .init s₁ s₂ (sampleStart [default]) freshActs ∧
    ∃ r s₃, s₂.current = some r ∧ r.metadata.chunks = 1 ∧ (sampleJob .downloader).step s₂ .finish = some s₃ ∧
      s₃.lastResult = some (.ok ()) ∧ s₃.recorded = [] := by
  refine ⟨_, _, ⟨rfl, rfl, ?_, ?_⟩, _, _, rfl, rfl, rfl, rfl, rfl⟩
  · refine ⟨?_, ?_, trivial, trivial, trivial, trivial⟩
    · intro metadata chunks hm hc
      cases hm
      cases hc
      decide
    · intro r hr hfetches
      cases hr
      exact absurd rfl hfetches.1
  · intro a ha env
    simp only [freshActs, List.mem_cons, List.not_mem_nil, or_false] at ha
    rcases ha with rfl | rfl | rfl | rfl <;> simp

/-- **A first run skips what it fetched**: it returns `Ok`, and its one chunk is not on record. -/
theorem download_incomplete : ∃ s₁ s₂, HonestRun (sampleJob .downloader) .init s₁ s₂ (sampleStart [default]) freshActs ∧
    ∃ r s₃, s₂.current = some r ∧ (sampleJob .downloader).step s₂ .finish = some s₃ ∧
      s₃.lastResult = some (.ok ()) ∧ ¬ ∀ i < r.metadata.chunks, i ∈ s₃.recorded := by
  obtain ⟨s₁, s₂, hrun, r, s₃, hr, hone, hfinish, hok, hrec⟩ := freshActs_honest
  refine ⟨s₁, s₂, hrun, r, s₃, hr, hfinish, hok, fun hall => ?_⟩
  have h0 := hall 0 (by omega)
  rw [hrec] at h0
  cases h0

/-- At that run the equivalence holds, with both sides false. -/
theorem download_complete_iff_fresh : ∃ (s₁ s₂ : DownloadSt) (r : DownloadRun) (s₃ : DownloadSt), HonestRun (sampleJob .downloader) .init s₁ s₂
      (sampleStart [default]) freshActs ∧
    ((∀ i < r.metadata.chunks, i ∈ s₃.recorded) ↔ r.metadata.chunks = 0 ∨ DownloadSt.init.files.metadata ≠ .missing) := by
  obtain ⟨s₁, s₂, hrun, r, s₃, hr, _, hfinish, hok, _⟩ := freshActs_honest
  exact ⟨s₁, s₂, r, s₃, hrun, download_complete_iff rfl ⟨.init, [], rfl, rfl⟩ hrun hr hfinish hok⟩

/-- A run of `ClientDownloader` whose fetched replies are clean keeps its invariant to the end. -/
theorem clientRun_ok {job : DownloadJob} (hkind : job.kind = .clientDownloader) {s₀ s₁ s₂ : DownloadSt} {env : StartEnv}
    {acts : List DownloadAct} (hrecord : RecordOk s₀) (hstart : job.step s₀ (.start env) = some s₁)
    (hrun : run job.step s₁ acts = some s₂) (hclean : Along job.step CleanReplies s₁ acts)
    (hone : ∀ a ∈ acts, ∀ env, a ≠ .start env) : RunOk s₂ := by
  obtain ⟨hidle, rfl⟩ : s₀.current = none ∧ s₁ = job.start s₀ env := by
    rcases step_cases hstart with ⟨hidle, _, heq, rfl⟩ | ⟨_, _, hs⟩
    · cases heq
      exact ⟨hidle, rfl⟩
    · cases hs
  exact run_invariant_one CleanReplies (fun _ _ _ hI hok hone hs => runOk_step hI hok hone hs)
    (runOk_start hidle hrecord (.inr hkind)) hclean hone hrun

/-- **When client downloads are complete and launched once.** In a run of `ClientDownloader`, from
any chunks on record, whose fetched replies are clean, no chunk is launched twice, none that
counts as downloaded is launched, and if the run returns `Ok` every chunk is on record. -/
theorem clientDownload_complete {job : DownloadJob} (hkind : job.kind = .clientDownloader) {s₀ s₁ s₂ : DownloadSt}
    {env : StartEnv} {acts : List DownloadAct} {r : DownloadRun} (hrecord : RecordOk s₀)
    (hstart : job.step s₀ (.start env) = some s₁) (hrun : run job.step s₁ acts = some s₂)
    (hclean : Along job.step CleanReplies s₁ acts) (hone : ∀ a ∈ acts, ∀ env, a ≠ .start env)
    (hr : s₂.current = some r) :
    r.downloaders.launched.Nodup ∧ (∀ i ∈ r.downloaders.launched, i ∉ r.downloadedIndexes) ∧
      ∀ s₃, job.step s₂ .finish = some s₃ → s₃.lastResult = some (.ok ()) →
        ∀ i < r.metadata.chunks, i ∈ s₃.recorded := by
  have hend : RunOk s₂ := clientRun_ok hkind hrecord hstart hrun hclean hone
  obtain ⟨hl, _⟩ := hend r hr
  refine ⟨hl.once, fun i hi => (hl.new i hi).2, fun s₃ hfinish hok => ?_⟩
  obtain ⟨hrec, hall⟩ := finish_complete hr hend hfinish hok
  rw [hrec]
  exact hall

/-- The first run of a client, with a manifest of one chunk. -/
def clientStart : StartEnv := { sampleStart [] with metadata := .ok ⟨0, none, 1, 0⟩ }

/-- **A reply that repeats an index** has its chunk launched twice. -/
theorem clientDownload_repeated : ∃ s₁ s₂ r, (sampleJob .clientDownloader).step .init (.start clientStart) = some s₁ ∧
    run (sampleJob .clientDownloader).step s₁ [.launch (sampleLaunch [0] [default, default])] = some s₂ ∧
    s₂.current = some r ∧ ¬ r.downloaders.launched.Nodup := by
  refine ⟨_, _, _, rfl, rfl, rfl, ?_⟩
  show ¬ [0, 0].Nodup
  decide

/-- A reply with the one chunk asked for. -/
theorem clientDownload_complete_one : ∃ s₁ s₂ r, (sampleJob .clientDownloader).step .init (.start clientStart) = some s₁ ∧
    run (sampleJob .clientDownloader).step s₁ [.launch (sampleLaunch [0] [default])] = some s₂ ∧
    s₂.current = some r ∧ r.downloaders.launched = [0] ∧ r.downloaders.launched.Nodup := by
  refine ⟨_, _, _, rfl, rfl, rfl, rfl, ?_⟩
  have hrecord : RecordOk .init := by
    intro chunks hload
    cases hload
    simp
  have hclean : Along (sampleJob .clientDownloader).step CleanReplies
      ((sampleJob .clientDownloader).start .init clientStart) [.launch (sampleLaunch [0] [default])] := by
    refine ⟨?_, trivial⟩
    intro r hr _ _ reply hreply
    cases hr
    cases hreply
    exact ⟨⟨by decide, by decide⟩, by simp⟩
  have hone : ∀ a ∈ [DownloadAct.launch (sampleLaunch [0] [default])], ∀ env, a ≠ .start env := by simp
  exact (clientDownload_complete rfl hrecord rfl rfl hclean hone rfl).1

end Blockvisor
