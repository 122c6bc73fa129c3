/-
What downloads leave in the target directory.

The messages of one chunk are its own: they write within its destinations
(`Archive.Own`), which no other chunk's do, so each chunk's part of what is
under way can be followed alone (`Archive.Pending`), in whatever order the
messages of all chunks come. `Fed` says so of a run's channel and downloaders,
`Sound` adds what is on disk: chunks on record have their bytes in place, and
what a file has beyond its end in the archive is what was there before the
first run (`complete_iff`).
-/
import Blockvisor.Babel.TargetDir

namespace Blockvisor

open Extent Store Machine ParallelChunkDownloaders

/-! ## The messages of a chunk -/

/-- The messages on their way that chunk `i` sent, each labelled with its chunk. -/
def sentBy (i : Nat) (labelled : List (Nat × ChunkData)) : List ChunkData :=
  (labelled.filter (·.1 = i)).map (·.2)

/-- The messages that chunk `i`'s downloader has still to send. -/
def toSend (i : Nat) (futures : List ChunkTask) : List ChunkData :=
  (futures.filter (·.chunk.index = i)).flatMap (·.messages)

theorem sentBy_cons (i : Nat) (m : Nat × ChunkData) (labelled : List (Nat × ChunkData)) :
    sentBy i (m :: labelled) = if m.1 = i then m.2 :: sentBy i labelled else sentBy i labelled := by
  by_cases h : m.1 = i <;> simp [sentBy, h]

theorem sentBy_append (i : Nat) (l₁ l₂ : List (Nat × ChunkData)) : sentBy i (l₁ ++ l₂) = sentBy i l₁ ++ sentBy i l₂ := by
  simp [sentBy]

theorem sentBy_eq_nil {i : Nat} {labelled : List (Nat × ChunkData)} (h : ∀ m ∈ labelled, m.1 ≠ i) :
    sentBy i labelled = [] := by
  rw [sentBy, List.filter_eq_nil_iff.mpr fun m hm => by simpa using h m hm]
  rfl

theorem toSend_cons (i : Nat) (t : ChunkTask) (futures : List ChunkTask) :
    toSend i (t :: futures) = (if t.chunk.index = i then t.messages else []) ++ toSend i futures := by
  by_cases h : t.chunk.index = i <;> simp [toSend, h]

@[simp] theorem toSend_nil (i : Nat) : toSend i [] = [] := rfl

theorem toSend_append (i : Nat) (ts us : List ChunkTask) : toSend i (ts ++ us) = toSend i ts ++ toSend i us := by
  simp [toSend]

theorem toSend_eq_nil {i : Nat} {futures : List ChunkTask} (h : ∀ t ∈ futures, t.chunk.index ≠ i) :
    toSend i futures = [] := by
  rw [toSend, List.filter_eq_nil_iff.mpr fun t ht => by simpa using h t ht]
  rfl

/-- With one downloader a chunk, what is still to be sent of the chunk is what its downloader has. -/
theorem toSend_self {futures : List ChunkTask} (hnodup : (futures.map (·.chunk.index)).Nodup) : ∀ {k : Nat} {t : ChunkTask},
    futures[k]? = some t → toSend t.chunk.index futures = t.messages := by
  induction futures with
  | nil => intro k t h; simp at h
  | cons u futures ih =>
    intro k t h
    rw [List.map_cons, List.nodup_cons] at hnodup
    rw [toSend_cons]
    cases k with
    | zero =>
      obtain rfl : u = t := by simpa using h
      rw [if_pos rfl, toSend_eq_nil, List.append_nil]
      intro t ht heq
      exact hnodup.1 (heq ▸ List.mem_map_of_mem ht)
    | succ k =>
      have hk : futures[k]? = some t := by simpa using h
      have hne : u.chunk.index ≠ t.chunk.index := by
        intro heq
        exact hnodup.1 (heq ▸ List.mem_map_of_mem (List.mem_of_getElem? hk))
      rw [if_neg hne, ih hnodup.2 hk, List.nil_append]

theorem map_index_set {futures : List ChunkTask} : ∀ {k : Nat} {t t' : ChunkTask}, futures[k]? = some t →
    t'.chunk = t.chunk → (futures.set k t').map (·.chunk.index) = futures.map (·.chunk.index) := by
  induction futures with
  | nil => intro k t t' _ _; rfl
  | cons u futures ih =>
    intro k t t' h hc
    cases k with
    | zero =>
      obtain rfl : u = t := by simpa using h
      simp [hc]
    | succ k => simp [ih (by simpa using h) hc]

theorem toSend_set_other {i : Nat} {futures : List ChunkTask} : ∀ {k : Nat} {t t' : ChunkTask}, futures[k]? = some t →
    t'.chunk = t.chunk → t.chunk.index ≠ i → toSend i (futures.set k t') = toSend i futures := by
  induction futures with
  | nil => intro k t t' _ _ _; rfl
  | cons u futures ih =>
    intro k t t' h hc hi
    cases k with
    | zero =>
      obtain rfl : u = t := by simpa using h
      simp [toSend_cons, hc, hi]
    | succ k => simp [toSend_cons, ih (by simpa using h) hc hi]

theorem toSend_eraseIdx (i : Nat) {futures : List ChunkTask} : ∀ {k : Nat} {t : ChunkTask}, futures[k]? = some t →
    t.messages = [] → toSend i (futures.eraseIdx k) = toSend i futures := by
  induction futures with
  | nil => intro k t _ _; rfl
  | cons u futures ih =>
    intro k t h hm
    cases k with
    | zero =>
      obtain rfl : u = t := by simpa using h
      simp [toSend_cons, hm]
    | succ k => simp [toSend_cons, ih (by simpa using h) hm]

namespace Archive

section

variable {codecs : Codecs} (archive : Archive codecs)

/-- The write is within the destinations of chunk `i`. -/
def Own (i : Nat) (w : FileLocation × Bytes) : Prop :=
  w.2.length = w.1.size ∧ ∀ c ∈ w.1.cells, c ∈ allCells (archive.manifest.destinations i)

/-- Once `ws` are written, chunk `i` is in place. -/
def Awaits (v : Store PathBuf) (i : Nat) (ws : List (FileLocation × Bytes)) : Prop :=
  Settles archive.files v (archive.manifest.destinations i) ws

variable {archive}

theorem bytes_isSome (i : Nat) : ∀ c ∈ allCells (archive.manifest.destinations i),
    (archive.files.byteAt c.1 c.2).isSome :=
  fun c hc => (archive.covered c.1 c.2).mpr ⟨i, hc⟩

/-- A chunk's write does not touch what another chunk has, or awaits. -/
theorem Own.elsewhere {i j : Nat} {w : FileLocation × Bytes} {v : Store PathBuf} {ws : List (FileLocation × Bytes)}
    (hw : archive.Own i w) (hij : i ≠ j) (h : archive.Awaits v j ws) :
    archive.Awaits (v.write w.1.path w.1.pos w.2) j ws := by
  have hcells : ∀ c ∈ w.1.cells, c ∉ allCells (archive.manifest.destinations j) :=
    fun c hc hin => hij (archive.disjoint i j c (hw.2 c hc) hin)
  exact (Settles.cons h w hcells hw.1).write hw.1 (bytes_isSome j)

/-- Nor what a file has beyond its end in the archive. -/
theorem Own.beyond {i : Nat} {w : FileLocation × Bytes} (hw : archive.Own i w) (v : Store PathBuf) {p : PathBuf}
    {content : Bytes} (hp : archive.files p = some content) {k : Nat} (hk : content.length ≤ k) :
    (v.write w.1.path w.1.pos w.2).byteAt p k = v.byteAt p k := by
  apply byteAt_write_beyond v hw.1 _ hk
  intro c hc hcp
  subst hcp
  exact (byteAt_of_lt hp).mp (bytes_isSome i c (hw.2 c hc))

/-- A write that stops halfway. -/
theorem Own.take {i : Nat} {path : PathBuf} {pos : Nat} {data : Bytes}
    (hw : archive.Own i (⟨path, pos, data.length⟩, data)) (n : Nat) :
    archive.Own i (⟨path, pos, (data.take n).length⟩, data.take n) := by
  refine ⟨rfl, fun c hc => hw.2 c ?_⟩
  obtain ⟨h₁, h₂, h₃⟩ := mem_cells.mp hc
  refine mem_cells.mpr ⟨h₁, h₂, ?_⟩
  have hlen : (data.take n).length ≤ data.length := by simp
  dsimp only at h₃ ⊢
  omega

variable (archive) in
/-- The messages of chunk `i` still to be handled: none, or writes of its own, after which, if the chunk is then said
to be done, it is in place. A chunk on record has no more to come. -/
def Pending (v : Store PathBuf) (recorded : List Nat) (i : Nat) (messages : List ChunkData) : Prop :=
  messages = [] ∨ i ∉ recorded ∧ ∃ ws, (∀ w ∈ ws, archive.Own i w) ∧ (messages = ws.map filePartOf ∨
    ∃ chunk, chunk.index = i ∧ messages = ws.map filePartOf ++ [.endOfChunk chunk] ∧ archive.Awaits v i ws)

variable {v : Store PathBuf} {recorded : List Nat} {i j : Nat} {messages : List ChunkData}

/-- What is left when a downloader is stopped. -/
theorem Pending.stop {sent rest : List ChunkData} (h : archive.Pending v recorded i (sent ++ rest)) :
    archive.Pending v recorded i sent := by
  rcases h with hnil | ⟨hi, ws, hown, hmessages | ⟨chunk, hc, hmessages, hawaits⟩⟩
  · exact .inl (List.append_eq_nil_iff.mp hnil).1
  · obtain ⟨ws₁, ws₂, rfl, rfl, _⟩ := List.map_eq_append_iff.mp hmessages.symm
    exact .inr ⟨hi, ws₁, fun w hw => hown w (List.mem_append_left _ hw), .inl rfl⟩
  · cases hrest : rest.reverse with
    | nil =>
      obtain rfl : rest = [] := List.reverse_eq_nil_iff.mp hrest
      rw [List.append_nil] at hmessages
      exact .inr ⟨hi, ws, hown, .inr ⟨chunk, hc, hmessages, hawaits⟩⟩
    | cons m ms =>
      -- the last message is not among those sent
      obtain rfl : rest = ms.reverse ++ [m] := by rw [← List.reverse_cons, ← hrest, List.reverse_reverse]
      rw [← List.append_assoc] at hmessages
      have hsent : sent ++ ms.reverse = ws.map filePartOf := (List.append_inj' hmessages rfl).1
      obtain ⟨ws₁, ws₂, rfl, rfl, _⟩ := List.map_eq_append_iff.mp hsent.symm
      exact .inr ⟨hi, ws₁, fun w hw => hown w (List.mem_append_left _ hw), .inl rfl⟩

/-- The chunk's own next write. -/
theorem Pending.write {path : PathBuf} {pos : Nat} {data : Bytes}
    (h : archive.Pending v recorded i (.filePart path pos data :: messages)) :
    i ∉ recorded ∧ archive.Own i (⟨path, pos, data.length⟩, data) ∧
      archive.Pending (v.write path pos data) recorded i messages := by
  have hback : ∀ {w : FileLocation × Bytes}, archive.Own i w → filePartOf w = .filePart path pos data →
      w = (⟨path, pos, data.length⟩, data) := by
    intro w hw heq
    obtain ⟨⟨path', pos', size⟩, data'⟩ := w
    cases heq
    obtain rfl : data'.length = size := hw.1
    rfl
  rcases h with hnil | ⟨hi, ws, hown, hmessages | ⟨chunk, hc, hmessages, hawaits⟩⟩
  · cases hnil
  · cases ws with
    | nil => cases hmessages
    | cons w ws =>
      rw [List.map_cons, List.cons.injEq] at hmessages
      have hw := hown w (List.mem_cons_self ..)
      obtain rfl := hback hw hmessages.1.symm
      exact ⟨hi, hw, .inr ⟨hi, ws, fun u hu => hown u (List.mem_cons_of_mem _ hu), .inl hmessages.2⟩⟩
  · cases ws with
    | nil => cases hmessages
    | cons w ws =>
      rw [List.map_cons, List.cons_append, List.cons.injEq] at hmessages
      have hw := hown w (List.mem_cons_self ..)
      obtain rfl := hback hw hmessages.1.symm
      have hrest : archive.Awaits (v.write path pos data) i ws := Settles.write hawaits rfl (bytes_isSome i)
      exact ⟨hi, hw, .inr ⟨hi, ws, fun u hu => hown u (List.mem_cons_of_mem _ hu), .inr ⟨chunk, hc, hmessages.2, hrest⟩⟩⟩

/-- The chunk is said to be done: it is in place, and nothing more comes. -/
theorem Pending.endOfChunk {chunk : Chunk} (h : archive.Pending v recorded i (.endOfChunk chunk :: messages)) :
    messages = [] ∧ chunk.index = i ∧ archive.Awaits v i [] := by
  rcases h with hnil | ⟨_, ws, _, hmessages | ⟨chunk', hc, hmessages, hawaits⟩⟩
  · cases hnil
  · cases ws with
    | nil => cases hmessages
    | cons w ws => cases hmessages
  · cases ws with
    | nil =>
      rw [List.map_nil, List.nil_append, List.cons.injEq] at hmessages
      obtain ⟨heq, rfl⟩ := hmessages
      cases heq
      exact ⟨rfl, hc, hawaits⟩
    | cons w ws => cases hmessages

/-- Another chunk's write. -/
theorem Pending.elsewhere {w : FileLocation × Bytes} (h : archive.Pending v recorded j messages) (hw : archive.Own i w)
    (hij : i ≠ j) : archive.Pending (v.write w.1.path w.1.pos w.2) recorded j messages := by
  rcases h with hnil | ⟨hj, ws, hown, hmessages | ⟨chunk, hc, hmessages, hawaits⟩⟩
  · exact .inl hnil
  · exact .inr ⟨hj, ws, hown, .inl hmessages⟩
  · exact .inr ⟨hj, ws, hown, .inr ⟨chunk, hc, hmessages, hw.elsewhere hij hawaits⟩⟩

/-- Other chunks come on record. -/
theorem Pending.record {recorded' : List Nat} (h : archive.Pending v recorded j messages)
    (hrec : j ∈ recorded' → j ∈ recorded) : archive.Pending v recorded' j messages := by
  rcases h with hnil | ⟨hj, rest⟩
  · exact .inl hnil
  · exact .inr ⟨fun hin => hj (hrec hin), rest⟩

theorem Pending.of_recorded (h : archive.Pending v recorded i messages) (hi : i ∈ recorded) : messages = [] :=
  h.resolve_right fun hr => hr.1 hi

/-- **What a downloader sends of a chunk of the archive.** -/
theorem pending_downloadChunk {hashes : Hashes} {cfg : TransferConfig} {server : Server} {chunk : Chunk}
    (hgenuine : archive.Genuine chunk) (hserver : archive.Unforged hashes cfg server chunk.index)
    (hcompression : cfg.compression = archive.manifest.compression) (v : Store PathBuf) (hi : chunk.index ∉ recorded) :
    archive.Pending v recorded chunk.index (downloadChunk hashes codecs cfg server chunk).1 := by
  obtain ⟨m, hm, hdestinations, hchecksum, hsize⟩ := hgenuine
  have hdest : chunk.destinations = archive.manifest.destinations chunk.index := by
    rw [hdestinations, DownloadManifest.destinations, hm]
    rfl
  obtain ⟨ws, ⟨data, rest, hsplits⟩, hsent⟩ := downloadChunk_splits hashes codecs cfg server chunk
  have hown : ∀ w ∈ ws, archive.Own chunk.index w := by
    intro w hw
    refine ⟨hsplits.sizes w hw, fun c hc => ?_⟩
    rw [← hdest, ← hsplits.cells]
    exact List.mem_append_left _ (List.mem_flatMap.mpr ⟨w.1, List.mem_map_of_mem hw, hc⟩)
  right
  refine ⟨hi, ws, hown, ?_⟩
  rcases hsent with ⟨err, hsent⟩ | ⟨hsent, pieces, outs, s, last, rest, hpieces, hsends, hverifies, hfeed, hfin, hall, hdone⟩
  · left
    rw [hsent]
  · right
    refine ⟨chunk, rfl, by rw [hsent], ?_⟩
    -- what is digested is the body, and what is decoded its data
    rw [hsize] at hsends
    rw [hchecksum] at hverifies
    have hbody := hserver m hm _ hsends hverifies
    have hlt := (List.getElem?_eq_some_iff.mp hm).1
    have hdecodes := archive.decodes chunk.index hlt pieces hpieces hbody
    rw [← hcompression] at hdecodes
    obtain ⟨outs', s', last', hfeed', hfin', hdata⟩ := hdecodes
    rw [hfeed] at hfeed'
    cases hfeed'
    rw [hfin] at hfin'
    cases hfin'
    have hcontent := archive.content chunk.index
    rw [← hdest, ← hdata] at hcontent
    have hlen := congrArg List.length hcontent
    rw [List.length_map, length_bytesAt, length_allCells] at hlen
    have htotal := hall.total
    obtain rfl := hdone (by omega)
    have hcells := hall.cells
    rw [allCells_nil, List.append_nil] at hcells
    unfold Awaits
    rw [← hdest]
    refine settles_of_concat v hall.sizes hcells (by rw [hall.data_eq]; exact hcontent) fun e he => ?_
    exact ((hall.paths e.path).mp ⟨e, he, rfl⟩).resolve_right (by simp)

end

/-! ## The launcher and the channel -/

/-- The downloaders and the messages on their way to the writer: each chunk is still to be launched, or on record, or
what it has sent and has still to send is pending. -/
structure Fed {codecs : Codecs} (archive : Archive codecs) (v : Store PathBuf) (recorded : List Nat)
    (labelled : List (Nat × ChunkData)) (d : ParallelChunkDownloaders) : Prop where
  stack : ∀ c ∈ d.chunks, archive.Genuine c
  fresh : ∀ i ∈ d.chunkIndexes, i ∉ recorded
  once : (d.futures.map (·.chunk.index)).Nodup
  sending : ∀ t ∈ d.futures, t.chunk.index ∉ d.chunkIndexes
  sent : ∀ m ∈ labelled, m.1 ∉ d.chunkIndexes
  pending : ∀ i, archive.Pending v recorded i (sentBy i labelled ++ toSend i d.futures)

section

variable {job : DownloadJob} {archive : Archive job.codecs} {v : Store PathBuf} {recorded : List Nat}
  {labelled : List (Nat × ChunkData)} {d : ParallelChunkDownloaders}

theorem Fed.stacked (h : Fed archive v recorded labelled d) {chunks : List Chunk} (hc : ∀ c ∈ chunks, archive.Genuine c) :
    Fed archive v recorded labelled { d with chunks } :=
  ⟨hc, h.fresh, h.once, h.sending, h.sent, h.pending⟩

theorem Fed.remove (h : Fed archive v recorded labelled d) (i : Nat) : Fed archive v recorded labelled (d.remove i) where
  stack := h.stack
  fresh j hj := h.fresh j (List.mem_filter.mp hj).1
  once := h.once
  sending t ht hin := h.sending t ht (List.mem_filter.mp hin).1
  sent m hm hin := h.sent m hm (List.mem_filter.mp hin).1
  pending := h.pending

/-- A chunk still to be launched is launched. -/
theorem Fed.spawn {config : TransferConfig} {env : LaunchEnv} {chunk : Chunk} (h : Fed archive v recorded labelled d)
    (hindex : chunk.index ∈ d.chunkIndexes) (hgenuine : archive.Genuine chunk)
    (hserver : ∀ i, archive.Unforged job.hashes config (env.server i) i)
    (hcompression : config.compression = archive.manifest.compression) :
    Fed archive v recorded labelled ((d.remove chunk.index).spawn job config env chunk) where
  stack := h.stack
  fresh := (h.remove chunk.index).fresh
  once := by
    simp only [ParallelChunkDownloaders.spawn, ParallelChunkDownloaders.remove, List.map_append, List.map_cons, List.map_nil]
    refine List.nodup_append.mpr ⟨h.once, by simp, ?_⟩
    intro i hi j hj hij
    obtain ⟨t, ht, rfl⟩ := List.mem_map.mp hi
    rw [List.mem_singleton.mp hj] at hij
    exact h.sending t ht (hij ▸ hindex)
  sending t ht := by
    rcases List.mem_append.mp ht with ht | ht
    · exact (h.remove chunk.index).sending t ht
    · rw [List.mem_singleton.mp ht]
      simp [ParallelChunkDownloaders.spawn, ParallelChunkDownloaders.remove]
  sent := (h.remove chunk.index).sent
  pending i := by
    simp only [ParallelChunkDownloaders.spawn, ParallelChunkDownloaders.remove, toSend_append]
    by_cases hi : chunk.index = i
    · -- nothing was sent of the chunk before
      subst hi
      have hsent : sentBy chunk.index labelled = [] := sentBy_eq_nil fun m hm heq => h.sent m hm (heq ▸ hindex)
      have hfutures : toSend chunk.index d.futures = [] := toSend_eq_nil fun t ht heq => h.sending t ht (heq ▸ hindex)
      rw [hsent, hfutures, toSend_cons, if_pos rfl, toSend_nil, List.append_nil]
      exact pending_downloadChunk hgenuine (hserver chunk.index) hcompression v (h.fresh _ hindex)
    · rw [toSend_cons, if_neg hi, toSend_nil, List.append_nil, List.append_nil]
      exact h.pending i

theorem Fed.launchChunks {config : TransferConfig} (env : LaunchEnv)
    (hserver : ∀ i, archive.Unforged job.hashes config (env.server i) i)
    (hcompression : config.compression = archive.manifest.compression) (chunks : List Chunk) :
    ∀ {d : ParallelChunkDownloaders} (parts : LogFile Chunk), (∀ c ∈ chunks, archive.Genuine c) →
      Fed archive v recorded labelled d →
        Fed archive v recorded labelled (launchChunks job config env chunks d parts).1.1 := by
  induction chunks with
  | nil => intro d parts _ h; exact h.stacked (by simp)
  | cons chunk rest ih =>
    intro d parts hc h
    have hrest : ∀ c ∈ rest, archive.Genuine c := fun c hin => hc c (List.mem_cons_of_mem _ hin)
    simp only [ParallelChunkDownloaders.launchChunks]
    split
    · split
      · rename_i hindex
        split
        · exact (h.remove chunk.index).stacked hrest
        · exact ih _ hrest (h.spawn hindex (hc chunk (List.mem_cons_self ..)) hserver hcompression)
      · exact ih _ hrest h
    · exact h.stacked hc

/-- **Launching keeps the chunks apart.** -/
theorem Fed.launchMore {config : TransferConfig} {env : LaunchEnv} (h : Fed archive v recorded labelled d)
    (hlaunchable : Launchable d d.chunks)
    (hreply : d.Fetches → ∀ reply, env.reply = .ok reply → Launchable d reply ∧ ∀ c ∈ reply, archive.Genuine c)
    (hserver : ∀ i, archive.Unforged job.hashes config (env.server i) i)
    (hcompression : config.compression = archive.manifest.compression) (parts : LogFile Chunk) :
    Fed archive v recorded labelled (d.launchMore job config env parts).1.1 := by
  unfold ParallelChunkDownloaders.launchMore
  split
  · rename_i hidx
    cases hf : d.fetch env with
    | error e => exact h
    | ok chunks =>
      have hl : Launchable d chunks :=
        fetch_launchable hlaunchable (fun hnil reply hr => (hreply ⟨hidx, hnil⟩ reply hr).1) hf
      have hc : ∀ c ∈ chunks, archive.Genuine c := by
        unfold fetch at hf
        split at hf
        · rename_i hnil
          cases hr : env.reply with
          | error e => simp [hr, Except.map] at hf
          | ok reply =>
            simp only [hr, Except.map, Except.ok.injEq] at hf
            subst hf
            exact fun c hin => (hreply ⟨hidx, hnil⟩ reply hr).2 c (List.mem_reverse.mp hin)
        · cases hf
          exact h.stack
      dsimp only
      split
      · exact Fed.launchChunks env hserver hcompression chunks parts hc h
      · have heq := (launchClientChunks_eq job config env chunks d parts hl).2
        have hfed : Fed archive v recorded labelled
            (ParallelChunkDownloaders.launchChunks job config { env with saveParts := fun _ => .none } chunks d parts).1.1 :=
          Fed.launchChunks { env with saveParts := fun _ => .none } hserver hcompression chunks parts hc h
        rwa [heq] at hfed
  · exact h

/-- A step of the downloader `k` that moves its messages to the channel, or drops them. -/
theorem Fed.setTask {k : Nat} {t t' : ChunkTask} {more : List (Nat × ChunkData)} (h : Fed archive v recorded labelled d)
    (hk : d.futures[k]? = some t) (hchunk : t'.chunk = t.chunk) (hmore : ∀ m ∈ more, m.1 = t.chunk.index)
    (hmessages : ∃ dropped, t.messages = more.map (·.2) ++ t'.messages ++ dropped) :
    Fed archive v recorded (labelled ++ more) { d with futures := d.futures.set k t' } where
  stack := h.stack
  fresh := h.fresh
  once := by
    rw [map_index_set hk hchunk]
    exact h.once
  sending u hu := by
    rcases List.mem_or_eq_of_mem_set hu with hu | rfl
    · exact h.sending u hu
    · rw [hchunk]
      exact h.sending t (List.mem_of_getElem? hk)
  sent m hm := by
    rcases List.mem_append.mp hm with hm | hm
    · exact h.sent m hm
    · rw [hmore m hm]
      exact h.sending t (List.mem_of_getElem? hk)
  pending i := by
    have hpending := h.pending i
    rw [sentBy_append]
    by_cases hi : t.chunk.index = i
    · subst hi
      have hset : (d.futures.set k t')[k]? = some t' := by
        rw [List.getElem?_set_self (List.getElem?_eq_some_iff.mp hk).1]
      have hself := toSend_self (by rw [map_index_set hk hchunk]; exact h.once) hset
      rw [hchunk] at hself
      have hall : sentBy t.chunk.index more = more.map (·.2) := by
        rw [sentBy, List.filter_eq_self.mpr fun m hm => by simpa using hmore m hm]
      obtain ⟨dropped, hdropped⟩ := hmessages
      rw [toSend_self h.once hk, hdropped, ← List.append_assoc, ← List.append_assoc] at hpending
      rw [hself, hall]
      exact hpending.stop
    · rw [sentBy_eq_nil fun m hm heq => hi ((hmore m hm).symm.trans heq), List.append_nil, toSend_set_other hk hchunk hi]
      exact hpending

/-- **A step that is not the writer's keeps the chunks apart.** -/
theorem Fed.moves {r : DownloadRun} {a : DownloadAct} {d' : ParallelChunkDownloaders} {channel : List ChunkData}
    (h : Fed archive v recorded labelled r.downloaders) (hchannel : labelled.map (·.2) = r.channel)
    (hlaunches : Launches r) (hmetadata : archive.Describes r.metadata)
    (hlaunch : ∀ env, a = .launch env →
      (r.downloaders.Fetches → r.downloaders.Requests env.requested → ∀ reply, env.reply = .ok reply →
        Launchable r.downloaders reply ∧ ∀ c ∈ reply, archive.Genuine c) ∧
      ∀ i, archive.Unforged job.hashes job.config (env.server i) i)
    (hmoves : Moves job r a d' channel) :
    ∃ labelled', labelled'.map (·.2) = channel ∧ Fed archive v recorded labelled' d' := by
  cases hmoves with
  | stays => exact ⟨labelled, hchannel, h⟩
  | @launches env parts hrequests =>
    obtain ⟨hreply, hserver⟩ := hlaunch env rfl
    have hserver' : ∀ i, archive.Unforged job.hashes { job.config with compression := r.metadata.compression }
        (env.server i) i := hserver
    exact ⟨labelled, hchannel, h.launchMore hlaunches.launchable (fun hf => hreply hf (hrequests hf)) hserver'
      hmetadata.2 parts⟩
  | @sends k t m messages hk hm =>
    refine ⟨labelled ++ [(t.chunk.index, m)], by simp [hchannel], h.setTask hk rfl (by simp) ⟨[], ?_⟩⟩
    simp [hm]
  | @clears _ k t result hk =>
    have hset : Fed archive v recorded (labelled ++ [])
        { r.downloaders with futures := r.downloaders.futures.set k { t with messages := [], result } } :=
      h.setTask hk rfl (by simp) ⟨t.messages, by simp⟩
    rw [List.append_nil] at hset
    exact ⟨labelled, hchannel, hset⟩
  | @completes k t hk hm =>
    refine ⟨labelled, hchannel, h.stack, h.fresh, ?_, ?_, h.sent, fun i => ?_⟩
    · exact h.once.sublist ((List.eraseIdx_sublist _ _).map _)
    · exact fun u hu => h.sending u (List.mem_of_mem_eraseIdx hu)
    · rw [toSend_eraseIdx i hk hm]
      exact h.pending i

end

end Archive

end Blockvisor
