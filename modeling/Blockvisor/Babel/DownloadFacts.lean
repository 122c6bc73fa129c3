/-
What one run of a download job keeps, step by step.

A run that is not doomed (`Doomed`: an error is kept, a shutdown was asked
for, or the writer failed) accounts for every chunk of its manifest: the chunk
is on record, still to be launched, with a downloader that will say
`EndOfChunk` or fail, or on its way to the writer (`Accounted`).
`launchMore_spec` says what the launcher does, `runOk_stepRun` that each step
keeps the invariant, and `finish_complete` that a run with the invariant that
ends well has every chunk on record.
-/
import Blockvisor.Babel.DownloadJob

namespace Blockvisor

open Machine

/-! ## The launcher -/

/-- The downloader will say that chunk `i` is done, or fail. -/
def Covers (t : ChunkTask) (i : Nat) : Prop :=
  t.chunk.index = i ∧ ((∃ e, t.result = .error e) ∨ ChunkData.endOfChunk t.chunk ∈ t.messages)

theorem covers_downloadChunk (job : DownloadJob) (config : TransferConfig) (server : Server) (chunk : Chunk) :
    Covers ⟨chunk, (downloadChunk job.hashes job.codecs config server chunk).1,
      (downloadChunk job.hashes job.codecs config server chunk).2⟩ chunk.index := by
  obtain ⟨parts, _, hok | ⟨err, herr⟩⟩ := downloadChunk_endOfChunk job.hashes job.codecs config server chunk
  · exact ⟨rfl, .inr (by rw [hok]; simp)⟩
  · exact ⟨rfl, .inl ⟨err, by rw [herr]⟩⟩

/-- The chunks on the stack are each still to be launched, once. -/
def Launchable (d : ParallelChunkDownloaders) (chunks : List Chunk) : Prop :=
  (chunks.map (·.index)).Nodup ∧ ∀ c ∈ chunks, c.index ∈ d.chunkIndexes

/-- What launching from the stack `chunks` does to the launcher. -/
structure LaunchSpec (d d' : ParallelChunkDownloaders) (chunks : List Chunk) (ok : Prop) : Prop where
  maxRunners : d'.maxRunners = d.maxRunners
  indexes : ∀ i ∈ d'.chunkIndexes, i ∈ d.chunkIndexes
  futures : ∀ t ∈ d.futures, t ∈ d'.futures
  accounted : ok → ∀ i ∈ d.chunkIndexes, i ∈ d'.chunkIndexes ∨ ∃ t ∈ d'.futures, Covers t i
  launched : ∃ new : List Nat, d'.launched = d.launched ++ new ∧ new.Nodup ∧
    ∀ i ∈ new, i ∈ d.chunkIndexes ∧ i ∉ d'.chunkIndexes
  launchable : Launchable d' d'.chunks
  busy : ok → chunks ≠ [] → d.futures.length < d.maxRunners → d'.futures ≠ []

open ParallelChunkDownloaders

/-- A chunk of the stack is launched, and then the rest of the stack. -/
theorem LaunchSpec.spawn {job : DownloadJob} {config : TransferConfig} {env : LaunchEnv} {chunk : Chunk}
    {rest : List Chunk} {d d' : ParallelChunkDownloaders} {ok : Prop} (hindex : chunk.index ∈ d.chunkIndexes)
    (h : LaunchSpec ((d.remove chunk.index).spawn job config env chunk) d' rest ok) :
    LaunchSpec d d' (chunk :: rest) ok where
  maxRunners := h.maxRunners
  indexes i hi := (List.mem_filter.mp (h.indexes i hi)).1
  futures t ht := h.futures t (List.mem_append_left _ ht)
  accounted hok i hi := by
    by_cases heq : i = chunk.index
    · subst heq
      exact .inr ⟨_, h.futures _ (List.mem_append_right _ (List.mem_singleton.mpr rfl)),
        covers_downloadChunk job config (env.server chunk.index) chunk⟩
    · exact h.accounted hok i (List.mem_filter.mpr ⟨hi, by simpa using heq⟩)
  launched := by
    obtain ⟨new, hnew, hnodup, hmem⟩ := h.launched
    have hgone : chunk.index ∉ d'.chunkIndexes := by
      intro hin
      have := (List.mem_filter.mp (h.indexes _ hin)).2
      simp at this
    refine ⟨chunk.index :: new, by rw [hnew]; simp [ParallelChunkDownloaders.spawn, remove], ?_, ?_⟩
    · refine List.nodup_cons.mpr ⟨fun hin => ?_, hnodup⟩
      have := (List.mem_filter.mp (hmem _ hin).1).2
      simp at this
    · intro i hi
      rcases List.mem_cons.mp hi with rfl | hi
      · exact ⟨hindex, hgone⟩
      · exact ⟨(List.mem_filter.mp (hmem i hi).1).1, (hmem i hi).2⟩
  launchable := h.launchable
  busy _ _ _ := by
    have hin := h.futures _ (List.mem_append_right _ (List.mem_singleton.mpr rfl))
    exact List.ne_nil_of_mem hin

theorem launchable_tail {d : ParallelChunkDownloaders} {chunk : Chunk} {rest : List Chunk}
    (h : Launchable d (chunk :: rest)) : Launchable (d.remove chunk.index) rest := by
  obtain ⟨hnodup, hmem⟩ := h
  rw [List.map_cons, List.nodup_cons] at hnodup
  refine ⟨hnodup.2, fun c hc => List.mem_filter.mpr ⟨hmem c (List.mem_cons_of_mem _ hc), ?_⟩⟩
  have hne : c.index ≠ chunk.index := fun heq => hnodup.1 (heq ▸ List.mem_map_of_mem hc)
  simpa using hne

theorem launchChunks_spec (job : DownloadJob) (config : TransferConfig) (env : LaunchEnv) (chunks : List Chunk) :
    ∀ (d : ParallelChunkDownloaders) (parts : LogFile Chunk), Launchable d chunks →
      LaunchSpec d (launchChunks job config env chunks d parts).1.1 chunks
        ((launchChunks job config env chunks d parts).2 = .ok ()) := by
  induction chunks with
  | nil =>
    intro d parts h
    exact ⟨rfl, fun _ hi => hi, fun _ ht => ht, fun _ i hi => .inl hi, ⟨[], by simp [launchChunks], by simp, by simp⟩,
      ⟨by simp [launchChunks], by simp [launchChunks]⟩, fun _ hne => absurd rfl hne⟩
  | cons chunk rest ih =>
    intro d parts h
    have hindex : chunk.index ∈ d.chunkIndexes := h.2 chunk (List.mem_cons_self ..)
    simp only [launchChunks]
    split
    · cases hsave : env.saveParts chunk.index with
      | none =>
        simp only [saveChunk, LogFile.save, Fault.result]
        exact LaunchSpec.spawn hindex (ih _ _ (launchable_tail h))
      | error cut | killed cut =>
        simp only [saveChunk, LogFile.save, Fault.result]
        refine ⟨rfl, fun i hi => (List.mem_filter.mp hi).1, fun t ht => ht, by simp, ⟨[], by simp [remove], by simp, by simp⟩,
          launchable_tail h, by simp⟩
    · rename_i hfull
      exact ⟨rfl, fun _ hi => hi, fun _ ht => ht, fun _ i hi => .inl hi, ⟨[], by simp, by simp, by simp⟩, h,
        fun _ _ hlt => absurd hlt hfull⟩

/-- From a stack of chunks still to be launched, a client launches what a `Downloader` does. -/
theorem launchClientChunks_eq (job : DownloadJob) (config : TransferConfig) (env : LaunchEnv) (chunks : List Chunk) :
    ∀ (d : ParallelChunkDownloaders) (parts : LogFile Chunk), Launchable d chunks →
      (launchChunks job config { env with saveParts := fun _ => .none } chunks d parts).2 = .ok () ∧
        (launchChunks job config { env with saveParts := fun _ => .none } chunks d parts).1.1 =
          launchClientChunks job config env chunks d := by
  induction chunks with
  | nil => intro d parts _; exact ⟨rfl, rfl⟩
  | cons chunk rest ih =>
    intro d parts h
    simp only [launchChunks, launchClientChunks]
    split
    · rw [if_pos (h.2 chunk (List.mem_cons_self ..))]
      exact ih _ _ (launchable_tail h)
    · exact ⟨rfl, rfl⟩

/-! ## The chunks of a run -/

/-- Every fetched reply names chunks that are still to be launched, each once, and it is not empty
unless there are downloaders to wait for. -/
def CleanReplies (s : DownloadSt) : DownloadAct → Prop
  | .launch env => ∀ r, s.current = some r → r.downloaders.Fetches → r.downloaders.Requests env.requested →
      ∀ reply, env.reply = .ok reply →
        Launchable r.downloaders reply ∧ (reply = [] → r.downloaders.futures ≠ [])
  | _ => True

/-- The server answers each request for chunks with the chunks asked for. -/
def HonestReplies (s : DownloadSt) : DownloadAct → Prop
  | .start env => ∀ metadata chunks, env.metadata = .ok metadata → env.chunks = .ok chunks →
      (chunks.map (·.index)).Perm (List.range metadata.chunks)
  | .launch env => ∀ r, s.current = some r → r.downloaders.Fetches → r.downloaders.Requests env.requested →
      ∀ reply, env.reply = .ok reply → (reply.map (·.index)).Perm env.requested
  | _ => True

/-- What the launcher of a run keeps: it launches each chunk once, and none that counts as
downloaded. -/
structure Launches (r : DownloadRun) : Prop where
  maxRunners : 0 < r.downloaders.maxRunners
  launchable : Launchable r.downloaders r.downloaders.chunks
  missing : ∀ i ∈ r.downloaders.chunkIndexes, i ∉ r.downloadedIndexes
  once : r.downloaders.launched.Nodup
  new : ∀ i ∈ r.downloaders.launched, i ∉ r.downloaders.chunkIndexes ∧ i ∉ r.downloadedIndexes

/-- A run that cannot end well any more. -/
def Doomed (r : DownloadRun) : Prop :=
  r.runners.result ≠ none ∨ r.run = false ∨ ∃ e, r.writer = .done (.error e)

/-- A writer that has not failed leaves a doomed run doomed. -/
theorem Doomed.writing {r : DownloadRun} {channel : List ChunkData} {writer : WriterTask} (h : Doomed r)
    (hw : ∀ e, r.writer ≠ .done (.error e)) : Doomed { r with channel, writer } :=
  h.imp id (.imp id fun hfailed => hfailed.elim fun e he => absurd he (hw e))

/-- Every chunk of the manifest is on record or on its way there. -/
structure Accounted (recorded : List Nat) (r : DownloadRun) : Prop where
  running : r.runners.run = true
  covered : ∀ i < r.metadata.chunks, i ∈ recorded ∨ i ∈ r.downloaders.chunkIndexes ∨
    (∃ t ∈ r.downloaders.futures, Covers t i) ∨ ∃ c, ChunkData.endOfChunk c ∈ r.channel ∧ c.index = i
  waiting : r.phase = .waiting → r.downloaders.futures = [] → r.downloaders.chunkIndexes = []
  joining : r.phase = .joining → r.downloaders.futures = [] ∧ r.downloaders.chunkIndexes = []
  writer_done : ∀ chunks, r.writer = .done (.ok chunks) → r.phase = .joining ∧ r.channel = []

theorem fetch_launchable {d : ParallelChunkDownloaders} {env : LaunchEnv} {chunks : List Chunk}
    (hd : Launchable d d.chunks) (hreply : d.chunks = [] → ∀ reply, env.reply = .ok reply → Launchable d reply)
    (h : d.fetch env = .ok chunks) : Launchable d chunks := by
  unfold fetch at h
  split at h
  · rename_i hnil
    cases hr : env.reply with
    | error e => simp [hr, Except.map] at h
    | ok reply =>
      simp only [hr, Except.map, Except.ok.injEq] at h
      subst h
      obtain ⟨hnodup, hmem⟩ := hreply hnil reply hr
      exact ⟨by rw [List.map_reverse]; exact (List.reverse_perm _).nodup_iff.mpr hnodup,
        fun c hc => hmem c (List.mem_reverse.mp hc)⟩
  · cases h
    exact hd

/-- **What a launch does**, whichever downloader it is. -/
theorem launchMore_spec (job : DownloadJob) (config : TransferConfig) (env : LaunchEnv)
    {d : ParallelChunkDownloaders} (parts : LogFile Chunk) (hd : Launchable d d.chunks)
    (hreply : d.Fetches → ∀ reply, env.reply = .ok reply →
      Launchable d reply ∧ (reply = [] → d.futures ≠ [])) :
    ∃ chunks, LaunchSpec d (d.launchMore job config env parts).1.1 chunks
        ((d.launchMore job config env parts).2 = .ok ()) ∧
      ((d.launchMore job config env parts).2 = .ok () → d.chunkIndexes ≠ [] → chunks = [] → d.futures ≠ []) := by
  have hstay : ∀ ok : Prop, LaunchSpec d d [] ok := fun ok =>
    ⟨rfl, fun _ hi => hi, fun _ ht => ht, fun _ i hi => .inl hi, ⟨[], by simp, by simp, by simp⟩, hd,
      fun _ hne => absurd rfl hne⟩
  unfold launchMore
  split
  · rename_i hidx
    cases hf : d.fetch env with
    | error e => exact ⟨[], hstay _, by simp⟩
    | ok chunks =>
      have hl : Launchable d chunks :=
        fetch_launchable hd (fun hnil reply hr => (hreply ⟨hidx, hnil⟩ reply hr).1) hf
      have hempty : chunks = [] → d.futures ≠ [] := by
        rintro rfl
        unfold fetch at hf
        split at hf
        · rename_i hnil
          cases hr : env.reply with
          | error e => simp [hr, Except.map] at hf
          | ok reply =>
            simp only [hr, Except.map, Except.ok.injEq, List.reverse_eq_nil_iff] at hf
            exact (hreply ⟨hidx, hnil⟩ reply hr).2 hf
        · rename_i hne
          exact absurd (Except.ok.inj hf) hne
      refine ⟨chunks, ?_, fun _ _ => hempty⟩
      cases job.kind with
      | downloader => exact launchChunks_spec job config env chunks d parts hl
      | clientDownloader =>
        obtain ⟨hok, heq⟩ := launchClientChunks_eq job config env chunks d parts hl
        have hspec := launchChunks_spec job config { env with saveParts := fun _ => .none } chunks d parts hl
        rw [heq, hok] at hspec
        exact hspec
  · rename_i hidx
    exact ⟨[], hstay _, fun _ hne => absurd hne hidx⟩

theorem HonestReplies.clean {s : DownloadSt} {a : DownloadAct} (hrunners : ∀ r, s.current = some r → Launches r)
    (h : HonestReplies s a) : CleanReplies s a := by
  cases a <;> try trivial
  rename_i env
  intro r hr hf hreq reply hrep
  have hperm := h r hr hf hreq reply hrep
  obtain ⟨hnodup, hsub, hlen⟩ := hreq
  refine ⟨⟨hperm.nodup_iff.mpr hnodup, fun c hc => hsub _ (hperm.mem_iff.mp (List.mem_map_of_mem hc))⟩, ?_⟩
  rintro rfl
  have hpos := (hrunners r hr).maxRunners
  have hidx := List.length_pos_iff.mpr hf.1
  have := hperm.length_eq
  simp only [List.map_nil, List.length_nil] at this
  omega

/-! ## One step -/

/-- The invariant of a run: the launcher is in order, and the run is doomed or accounts for every chunk. -/
def RunOk (s : DownloadSt) : Prop := ∀ r, s.current = some r → Launches r ∧ (Doomed r ∨ Accounted s.recorded r)

theorem runOk_none {s : DownloadSt} (h : s.current = none) : RunOk s := by
  intro r hr
  simp [h] at hr

/-- The launcher's part of the invariant only depends on the launcher and the chunks taken as downloaded. -/
theorem Launches.congr {r r' : DownloadRun} (h : Launches r)
    (hd : { r'.downloaders with futures := [] } = { r.downloaders with futures := [] })
    (hi : r'.downloadedIndexes = r.downloadedIndexes) : Launches r' := by
  simp only [ParallelChunkDownloaders.mk.injEq, true_and] at hd
  obtain ⟨h₁, h₂, h₃, h₄⟩ := hd
  refine ⟨h₁ ▸ h.maxRunners, ?_, ?_, h₄ ▸ h.once, ?_⟩
  · have hl := h.launchable
    unfold Launchable at hl ⊢
    rwa [h₂, h₃]
  · rw [h₂, hi]; exact h.missing
  · rw [h₂, h₄, hi]; exact h.new

theorem Launches.launch {r r' : DownloadRun} {d : ParallelChunkDownloaders} {chunks : List Chunk} {ok : Prop}
    (h : Launches r) (hspec : LaunchSpec r.downloaders d chunks ok) (hd : r'.downloaders = d)
    (hi : r'.downloadedIndexes = r.downloadedIndexes) : Launches r' := by
  obtain ⟨new, hnew, hnodup, hmem⟩ := hspec.launched
  refine ⟨?_, hd ▸ hspec.launchable, ?_, ?_, ?_⟩
  · rw [hd, hspec.maxRunners]; exact h.maxRunners
  · intro i hidx
    rw [hd] at hidx
    rw [hi]
    exact h.missing i (hspec.indexes i hidx)
  · rw [hd, hnew]
    refine List.nodup_append.mpr ⟨h.once, hnodup, fun i hi j hj hij => ?_⟩
    subst hij
    exact (h.new i hi).1 (hmem i hj).1
  · intro i hl
    rw [hd, hnew] at hl
    rw [hd, hi]
    rcases List.mem_append.mp hl with hl | hl
    · exact ⟨fun hin => (h.new i hl).1 (hspec.indexes i hin), (h.new i hl).2⟩
    · exact ⟨(hmem i hl).2, h.missing i (hmem i hl).1⟩

theorem runOk_launch {job : DownloadJob} {s s' : DownloadSt} {r : DownloadRun} {env : LaunchEnv}
    (hr : s.current = some r) (h : RunOk s) (hclean : CleanReplies s (.launch env))
    (hs : job.launch s r env = some s') : RunOk s' := by
  obtain ⟨hl, hacc⟩ := h r hr
  unfold DownloadJob.launch at hs
  split at hs
  · cases hs
  rename_i hphase
  have hphase : r.phase = .launching := by simpa using hphase
  split at hs
  · -- a stopped main loop only waits
    rename_i hstop
    cases hs
    intro r' hr'
    cases hr'
    refine ⟨hl.congr rfl rfl, ?_⟩
    rcases hacc with hd | hacc
    · exact .inl hd
    · rw [hacc.running] at hstop
      cases hstop
  split at hs
  · cases hs
  rename_i hreq
  obtain ⟨chunks, hspec, hbusy⟩ := launchMore_spec job { job.config with compression := r.metadata.compression }
    env s.files.parts hl.launchable (fun hf reply hrep =>
      hclean r hr hf (by_contra fun hn => hreq ⟨hf, hn⟩) reply hrep)
  dsimp only at hs
  generalize r.downloaders.launchMore job { job.config with compression := r.metadata.compression } env
    s.files.parts = launched at hs hspec hbusy
  obtain ⟨⟨d, parts⟩, ok⟩ := launched
  dsimp only at hs hspec hbusy
  split at hs
  · cases hs
    intro r' hr'
    cases hr'
    refine ⟨hl.launch hspec rfl rfl, ?_⟩
    rcases hacc with hd | hacc
    · exact .inl hd
    right
    refine ⟨hacc.running, ?_, ?_, by simp, ?_⟩
    · intro i hi
      rcases hacc.covered i hi with hrec | hidx | ⟨t, ht, hc⟩ | hch
      · exact .inl hrec
      · exact .inr ((hspec.accounted rfl i hidx).elim .inl fun ht => .inr (.inl ht))
      · exact .inr (.inr (.inl ⟨t, hspec.futures t ht, hc⟩))
      · exact .inr (.inr (.inr hch))
    · intro _ hnil
      by_contra hne
      have hfut : r.downloaders.futures = [] := by
        rw [List.eq_nil_iff_forall_not_mem]
        intro t ht
        have := hspec.futures t ht
        dsimp only at hnil
        rw [hnil] at this
        cases this
      have hidx : r.downloaders.chunkIndexes ≠ [] := by
        obtain ⟨i, hi⟩ := List.exists_mem_of_ne_nil _ hne
        exact List.ne_nil_of_mem (hspec.indexes i hi)
      by_cases hch : chunks = []
      · exact hbusy rfl hidx hch hfut
      · exact hspec.busy rfl hch (by rw [hfut]; exact hl.maxRunners) hnil
    · intro cs hw
      have := (hacc.writer_done cs hw).1
      rw [hphase] at this
      cases this
  · cases hs
    intro r' hr'
    cases hr'
    exact ⟨hl.launch hspec rfl rfl,
      .inl (.inl (RunnersState.handleError_result _ _))⟩
  · cases hs
    exact runOk_none rfl

/-- A chunk covered by some downloader is still covered when one of them is replaced, unless it was that one. -/
theorem covers_set {ts : List ChunkTask} {k j : Nat} {t : ChunkTask} (t' : ChunkTask) (hk : ts[k]? = some t)
    (h : ∃ u ∈ ts, Covers u j) : (∃ u ∈ ts.set k t', Covers u j) ∨ Covers t j := by
  obtain ⟨u, hu, hc⟩ := h
  obtain ⟨m, hm⟩ := List.mem_iff_getElem?.mp hu
  by_cases hkm : k = m
  · subst hkm
    rw [hk] at hm
    cases hm
    exact .inr hc
  · exact .inl ⟨u, List.mem_iff_getElem?.mpr ⟨m, by rw [List.getElem?_set_ne hkm]; exact hm⟩, hc⟩

theorem mem_set_self {ts : List ChunkTask} {k : Nat} {t : ChunkTask} (t' : ChunkTask) (hk : ts[k]? = some t) :
    t' ∈ ts.set k t' :=
  List.mem_set (List.getElem?_eq_some_iff.mp hk).1 t'

/-- A step of one downloader that keeps what it covers, or moves it to the channel. -/
theorem Accounted.setTask {recorded : List Nat} {r : DownloadRun} {k : Nat} {t : ChunkTask} (t' : ChunkTask)
    (more : List ChunkData) (h : Accounted recorded r) (hk : r.downloaders.futures[k]? = some t)
    (hcov : ∀ j, Covers t j → Covers t' j ∨ ∃ c, ChunkData.endOfChunk c ∈ more ∧ c.index = j)
    (hdone : ∀ chunks, r.writer = .done (.ok chunks) → more = []) :
    Accounted recorded { DownloadJob.setTask r k t' with channel := r.channel ++ more } := by
  refine ⟨h.running, ?_, ?_, ?_, ?_⟩
  · intro i hi
    rcases h.covered i hi with hrec | hidx | ht | ⟨c, hc, hci⟩
    · exact .inl hrec
    · exact .inr (.inl hidx)
    · rcases covers_set t' hk ht with ht | ht
      · exact .inr (.inr (.inl ht))
      · rcases hcov i ht with ht | ⟨c, hc, hci⟩
        · exact .inr (.inr (.inl ⟨t', mem_set_self t' hk, ht⟩))
        · exact .inr (.inr (.inr ⟨c, List.mem_append_right _ hc, hci⟩))
    · exact .inr (.inr (.inr ⟨c, List.mem_append_left _ hc, hci⟩))
  · intro hw hnil
    exact h.waiting hw (by simpa [DownloadJob.setTask] using hnil)
  · intro hj
    obtain ⟨hfut, hidx⟩ := h.joining hj
    exact ⟨by simp [DownloadJob.setTask, hfut], hidx⟩
  · intro chunks hw
    obtain ⟨hp, hch⟩ := h.writer_done chunks hw
    exact ⟨hp, by simp [hch, hdone chunks hw]⟩

theorem Launches.setTask {r : DownloadRun} {k : Nat} {t : ChunkTask} {channel : List ChunkData} (h : Launches r) :
    Launches { DownloadJob.setTask r k t with channel } := h.congr rfl rfl

theorem runOk_send {job : DownloadJob} {s s' : DownloadSt} {r : DownloadRun} {k : Nat}
    (hr : s.current = some r) (h : RunOk s) (hs : job.send s r k = some s') : RunOk s' := by
  obtain ⟨hl, hacc⟩ := h r hr
  unfold DownloadJob.send at hs
  cases hk : r.downloaders.futures[k]? with
  | none => simp [hk] at hs
  | some t =>
    simp only [hk] at hs
    split at hs
    · cases hs
    · -- the writer is gone
      cases hs
      intro r' hr'
      cases hr'
      refine ⟨hl.congr rfl rfl, hacc.imp id fun hacc => ?_⟩
      have hset := hacc.setTask { t with messages := [], result := .error "channel closed" } [] hk
        (fun j hj => .inl ⟨hj.1, .inl ⟨_, rfl⟩⟩) (fun _ _ => rfl)
      rw [List.append_nil] at hset
      exact hset
    · rename_i m messages hmsg hwriter
      split at hs
      · cases hs
        intro r' hr'
        cases hr'
        refine ⟨hl.setTask, hacc.imp id fun hacc => ?_⟩
        refine hacc.setTask { t with messages } [m] hk ?_ ?_
        · rintro j ⟨rfl, he | hm⟩
          · exact .inl ⟨rfl, .inl he⟩
          · rw [hmsg] at hm
            rcases List.mem_cons.mp hm with rfl | hm
            · exact .inr ⟨t.chunk, List.mem_singleton.mpr rfl, rfl⟩
            · exact .inl ⟨rfl, .inr hm⟩
        · intro chunks hw
          exact absurd hw (hwriter _ )
      · cases hs

theorem runOk_abort {s s' : DownloadSt} {r : DownloadRun} {k : Nat} (hr : s.current = some r) (h : RunOk s)
    (hs : DownloadJob.abort s r k = some s') : RunOk s' := by
  obtain ⟨hl, hacc⟩ := h r hr
  unfold DownloadJob.abort at hs
  cases hk : r.downloaders.futures[k]? with
  | none => simp [hk] at hs
  | some t =>
    simp only [hk] at hs
    cases hs
    intro r' hr'
    cases hr'
    refine ⟨hl.congr rfl rfl, hacc.imp id fun hacc => ?_⟩
    have hset := hacc.setTask { t with messages := [], result := .error "task panicked" } [] hk
      (fun j hj => .inl ⟨hj.1, .inl ⟨_, rfl⟩⟩) (fun _ _ => rfl)
    rw [List.append_nil] at hset
    exact hset

theorem runOk_complete {s s' : DownloadSt} {r : DownloadRun} {k : Nat} (hr : s.current = some r) (h : RunOk s)
    (hs : DownloadJob.complete s r k = some s') : RunOk s' := by
  obtain ⟨hl, hacc⟩ := h r hr
  unfold DownloadJob.complete at hs
  split at hs
  · cases hs
  rename_i hphase
  have hphase : r.phase = .waiting := by simpa using hphase
  cases hk : r.downloaders.futures[k]? with
  | none => simp [hk] at hs
  | some t =>
    simp only [hk] at hs
    split at hs
    · cases hs
    rename_i hmsg
    have hmsg : t.messages = [] := by simpa using hmsg
    split at hs
    · rename_i hok
      cases hs
      intro r' hr'
      cases hr'
      refine ⟨hl.congr rfl rfl, hacc.imp id fun hacc => ?_⟩
      refine ⟨hacc.running, ?_, by simp, by simp, ?_⟩
      · intro i hi
        rcases hacc.covered i hi with hrec | hidx | ⟨u, hu, hc⟩ | hch
        · exact .inl hrec
        · exact .inr (.inl hidx)
        · -- the downloader that is done has nothing left to cover
          obtain ⟨m, hm⟩ := List.mem_iff_getElem?.mp hu
          by_cases hkm : m = k
          · subst hkm
            rw [hk] at hm
            cases hm
            rcases hc.2 with ⟨e, he⟩ | hm
            · rw [hok] at he; cases he
            · rw [hmsg] at hm; cases hm
          · exact .inr (.inr (.inl ⟨u, List.mem_eraseIdx_iff_getElem?.mpr ⟨m, hkm, hm⟩, hc⟩))
        · exact .inr (.inr (.inr hch))
      · intro chunks hw
        have := (hacc.writer_done chunks hw).1
        rw [hphase] at this
        cases this
    · cases hs
      intro r' hr'
      cases hr'
      exact ⟨hl.congr rfl rfl, .inl (.inl (RunnersState.handleError_result _ _))⟩

/-- The records of the chunks file are on record. -/
def RecordOk (s : DownloadSt) : Prop := ∀ chunks, s.files.chunks.load = some chunks → ∀ c ∈ chunks, c.index ∈ s.recorded

/-- What the writer does with a message: it records a chunk before it counts as downloaded. -/
structure WriteSpec (s s' : DownloadSt) (m : ChunkData) (ok : Prop) : Prop where
  current : s'.current = s.current
  metadata : s'.files.metadata = s.files.metadata
  recorded : ∀ i ∈ s.recorded, i ∈ s'.recorded
  done : ok → ∀ c, m = .endOfChunk c → c.index ∈ s'.recorded
  recordOk : RecordOk s → RecordOk s'

theorem writeChunkData_endOfChunk (env : WriteEnv) (n : Nat) (downloaded : List Chunk) (s : DownloadSt) (chunk : Chunk) :
    (writeChunkData env n downloaded s (.endOfChunk chunk)).1.recorded =
        (if (env.saveChunk.cutOr .complete).recorded then s.recorded ++ [chunk.index] else s.recorded) ∧
      (writeChunkData env n downloaded s (.endOfChunk chunk)).1.files.chunks =
        s.files.chunks.append chunk (env.saveChunk.cutOr .complete) := by
  unfold writeChunkData
  simp only [saveChunk, LogFile.save]
  cases env.saveChunk <;> exact ⟨rfl, rfl⟩

theorem writeChunkData_spec (env : WriteEnv) (n : Nat) (downloaded : List Chunk) (s : DownloadSt) (m : ChunkData) :
    WriteSpec s (writeChunkData env n downloaded s m).1 m
      (∃ chunks, (writeChunkData env n downloaded s m).2 = .ok chunks) := by
  cases m with
  | filePart path pos data => exact ⟨rfl, rfl, fun _ h => h, by simp, id⟩
  | endOfChunk chunk =>
    have hok : RecordOk s → ∀ chunks, (s.files.chunks.append chunk (env.saveChunk.cutOr .complete)).load = some chunks →
        ∀ c ∈ chunks, c.index ∈ (if (env.saveChunk.cutOr .complete).recorded then s.recorded ++ [chunk.index]
          else s.recorded) := by
      intro h chunks hload c hc
      obtain ⟨as, has, rfl | ⟨rfl, hcut⟩⟩ := LogFile.load_append hload
      · have := h _ has c hc
        split
        · exact List.mem_append_left _ this
        · exact this
      · rw [if_pos hcut]
        rcases List.mem_append.mp hc with hc | hc
        · exact List.mem_append_left _ (h _ has c hc)
        · rw [List.mem_singleton.mp hc]
          exact List.mem_append_right _ (List.mem_singleton.mpr rfl)
    have hsub : ∀ i ∈ s.recorded, i ∈ (if (env.saveChunk.cutOr .complete).recorded then s.recorded ++ [chunk.index]
        else s.recorded) := by
      intro i hi
      split
      · exact List.mem_append_left _ hi
      · exact hi
    unfold writeChunkData
    simp only [saveChunk, LogFile.save]
    cases hf : env.saveChunk with
    | none =>
      rw [hf] at hok hsub
      exact ⟨rfl, rfl, hsub, fun _ c hc => by cases hc; simp [Fault.cutOr, LogCut.recorded, Fault.result], hok⟩
    | error cut | killed cut =>
      rw [hf] at hok hsub
      refine ⟨rfl, rfl, hsub, ?_, hok⟩
      rintro ⟨chunks, h⟩
      simp [Fault.result] at h

theorem runOk_receive {s s' : DownloadSt} {r : DownloadRun} {env : WriteEnv} (hr : s.current = some r) (h : RunOk s)
    (hs : DownloadJob.receive s r env = some s') : RunOk s' := by
  obtain ⟨hl, hacc⟩ := h r hr
  unfold DownloadJob.receive at hs
  split at hs
  · rename_i downloaded m channel hw hch
    have hspec := writeChunkData_spec env r.metadata.chunks downloaded s m
    generalize writeChunkData env r.metadata.chunks downloaded s m = written at hs hspec
    obtain ⟨s₁, result⟩ := written
    dsimp only at hs hspec
    split at hs
    · cases hs
      intro r' hr'
      cases hr'
      refine ⟨hl.congr rfl rfl, ?_⟩
      rcases hacc with hd | hacc
      · exact .inl (hd.writing (by simp [hw]))
      right
      refine ⟨hacc.running, ?_, hacc.waiting, hacc.joining, by simp⟩
      intro i hi
      rcases hacc.covered i hi with hrec | hidx | ht | ⟨c, hc, hci⟩
      · exact .inl (hspec.recorded i hrec)
      · exact .inr (.inl hidx)
      · exact .inr (.inr (.inl ht))
      · rw [hch] at hc
        rcases List.mem_cons.mp hc with rfl | hc
        · exact .inl (hci ▸ hspec.done ⟨_, rfl⟩ c rfl)
        · exact .inr (.inr (.inr ⟨c, hc, hci⟩))
    · cases hs
      intro r' hr'
      cases hr'
      exact ⟨hl.congr rfl rfl, .inl (.inr (.inr ⟨_, rfl⟩))⟩
    · cases hs
      exact runOk_none rfl
  · cases hs

/-- **One step of a run** whose replies are clean keeps its invariant. -/
theorem runOk_stepRun {job : DownloadJob} {s s' : DownloadSt} {r : DownloadRun} {a : DownloadAct}
    (hr : s.current = some r) (h : RunOk s) (hclean : CleanReplies s a) (hs : job.stepRun s r a = some s') :
    RunOk s' := by
  obtain ⟨hl, hacc⟩ := h r hr
  cases a with
  | start env => cases hs
  | shutdown =>
    cases hs
    intro r' hr'
    cases hr'
    exact ⟨hl.congr rfl rfl, .inl (.inr (.inl rfl))⟩
  | kill => cases hs; exact runOk_none rfl
  | launch env => exact runOk_launch hr h hclean hs
  | send k => exact runOk_send hr h hs
  | abort k => exact runOk_abort hr h hs
  | complete k => exact runOk_complete hr h hs
  | noFutures =>
    simp only [DownloadJob.stepRun] at hs
    split at hs
    · rename_i hw
      have hnil : r.downloaders.futures = [] := by simpa using hw.2
      cases hs
      intro r' hr'
      cases hr'
      refine ⟨hl.congr rfl rfl, hacc.imp id fun hacc => ?_⟩
      refine ⟨hacc.running, hacc.covered, by simp, fun _ => ⟨hnil, hacc.waiting hw.1 hnil⟩, ?_⟩
      intro chunks hwr
      exact ⟨rfl, (hacc.writer_done chunks hwr).2⟩
    · cases hs
  | poll =>
    simp only [DownloadJob.stepRun] at hs
    split at hs
    · rename_i downloaded hw
      cases hs
      intro r' hr'
      cases hr'
      refine ⟨hl.congr rfl rfl, ?_⟩
      rcases hacc with hd | hacc
      · exact .inl (hd.writing (by simp [hw]))
      · right
        refine ⟨hacc.running, hacc.covered, hacc.waiting, hacc.joining, ?_⟩
        intro chunks hwr
        simp [hacc.running] at hwr
    · cases hs
  | receive env => exact runOk_receive hr h hs
  | disconnected =>
    simp only [DownloadJob.stepRun] at hs
    split at hs
    · rename_i downloaded hw
      split at hs
      · rename_i hend
        cases hs
        intro r' hr'
        cases hr'
        refine ⟨hl.congr rfl rfl, ?_⟩
        rcases hacc with hd | hacc
        · exact .inl (hd.writing (by simp [hw]))
        · exact .inr ⟨hacc.running, hacc.covered, hacc.waiting, hacc.joining,
            fun _ _ => ⟨hend.2, by simpa using hend.1⟩⟩
      · cases hs
    · cases hs
  | finish =>
    simp only [DownloadJob.stepRun] at hs
    split at hs
    · split at hs
      · cases hs; exact runOk_none rfl
      · cases hs
    · cases hs

/-- A run that ends well has every chunk on record. -/
theorem finish_complete {job : DownloadJob} {s s' : DownloadSt} {r : DownloadRun} (hr : s.current = some r)
    (h : RunOk s) (hs : job.step s .finish = some s') (hok : s'.lastResult = some (.ok ())) :
    s'.recorded = s.recorded ∧ ∀ i < r.metadata.chunks, i ∈ s.recorded := by
  obtain ⟨_, hacc⟩ := h r hr
  simp only [DownloadJob.step, hr, DownloadJob.stepRun] at hs
  split at hs
  · rename_i w hw
    split at hs
    · rename_i hphase
      cases hs
      refine ⟨rfl, fun i hi => ?_⟩
      have hres : DownloadJob.runResult r w = .ok () := by simpa using hok
      unfold DownloadJob.runResult at hres
      split at hres
      · cases hres
      · cases hres
      · rename_i downloaded hnone
        split at hres
        · rename_i hrun
          rcases hacc with (hd | hd | ⟨e, he⟩) | hacc
          · exact absurd hnone hd
          · rw [hd] at hrun; cases hrun
          · rw [hw] at he; cases he
          · obtain ⟨hfut, hidx⟩ := hacc.joining hphase
            rcases hacc.covered i hi with hrec | hin | ⟨t, ht, _⟩ | ⟨c, hc, _⟩
            · exact hrec
            · rw [hidx] at hin; cases hin
            · rw [hfut] at ht; cases ht
            · rw [(hacc.writer_done _ hw).2] at hc; cases hc
        · cases hres
    · cases hs
  · cases hs

end Blockvisor
