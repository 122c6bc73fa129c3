/-
The slots of an upload run. They are asked for in batches (`fetch_slots`),
ahead of the chunks that need them: for the last chunks of the list, from
which the uploaders are launched.

A run that launches keeps as many chunks with a slot at the end of its list as
it has runners free (`Ready`): a list just assigned has, and one that was
launched from before has at most one runner free. So every chunk launched has
the url of a slot of its own index (`launched_have_slots`), for every server
that answers with the slots it is asked for (`Answers`).
-/
import Blockvisor.Babel.UploadSteps

namespace Blockvisor

open Machine

/-- The indexes of the chunks that slots are asked for, the last `count` of the list. -/
def fetchSlots (chunks : List Chunk) (count : Nat) : List Nat := (chunks.reverse.take count).map (·.index)

/-- The answer holds a slot for each index asked for, each of them a slot that is `given` out. -/
structure Answers (given : Slot → Prop) (indexes : List Nat) (slots : List Slot) : Prop where
  asked : (slots.map (·.index)).Perm indexes
  given : ∀ slot ∈ slots, given slot

/-- The chunk carries the key and the url of a slot of its own index. -/
def Chunk.Holds (given : Slot → Prop) (c : Chunk) (url : Url) : Prop := c.url = some url ∧ given ⟨c.index, c.key, url⟩

/-! ## Assigning slots -/

section Assign

variable {given : Slot → Prop}

theorem assignSlot_mem {slot : Slot} {chunks : List Chunk} {c : Chunk} (h : c ∈ assignSlot slot chunks) :
    c ∈ chunks ∨ c.index = slot.index ∧ c.key = slot.key ∧ c.url = some slot.url := by
  induction chunks with
  | nil => cases h
  | cons chunk chunks ih =>
    simp only [assignSlot] at h
    split at h
    · rename_i hindex
      cases List.mem_cons.mp h with
      | inl h =>
        subst h
        exact .inr ⟨hindex, rfl, rfl⟩
      | inr h => exact .inl (List.mem_cons_of_mem _ h)
    · cases List.mem_cons.mp h with
      | inl h => exact .inl (h ▸ List.mem_cons_self ..)
      | inr h => exact (ih h).imp (List.mem_cons_of_mem _) id

/-- With indexes distinct, the chunk of a slot's index gets its url. -/
theorem assignSlot_url {slot : Slot} {chunks : List Chunk} (hnodup : (chunks.map (·.index)).Nodup) {c : Chunk}
    (h : c ∈ assignSlot slot chunks) (hindex : c.index = slot.index) : c.url = some slot.url := by
  induction chunks with
  | nil => cases h
  | cons chunk chunks ih =>
    rw [List.map_cons, List.nodup_cons] at hnodup
    simp only [assignSlot] at h
    split at h
    · rename_i hchunk
      cases List.mem_cons.mp h with
      | inl h =>
        subst h
        rfl
      | inr h =>
        have hmem : c.index ∈ chunks.map (·.index) := List.mem_map_of_mem h
        exact absurd (hchunk.trans hindex.symm ▸ hmem) hnodup.1
    · rename_i hchunk
      cases List.mem_cons.mp h with
      | inl h => exact absurd (h ▸ hindex) hchunk
      | inr h => exact ih hnodup.2 h

theorem assignSlots_mem {slots : List Slot} : ∀ {chunks : List Chunk} {c : Chunk}, c ∈ assignSlots chunks slots →
    c ∈ chunks ∨ ∃ slot ∈ slots, c.index = slot.index ∧ c.key = slot.key ∧ c.url = some slot.url := by
  induction slots with
  | nil => exact fun h => .inl h
  | cons slot slots ih =>
    intro chunks c h
    have hrest : c ∈ assignSlots (assignSlot slot chunks) slots := h
    cases ih hrest with
    | inl h =>
      cases assignSlot_mem h with
      | inl h => exact .inl h
      | inr h => exact .inr ⟨slot, List.mem_cons_self .., h⟩
    | inr h =>
      obtain ⟨slot', hmem, h⟩ := h
      exact .inr ⟨slot', List.mem_cons_of_mem _ hmem, h⟩

theorem assignSlots_indexes (chunks : List Chunk) (slots : List Slot) :
    (assignSlots chunks slots).map (·.index) = chunks.map (·.index) := indexes_of_places (assignSlots_places slots chunks)

/-- Every chunk that there is a slot for has a url. -/
theorem assignSlots_url {slots : List Slot} : ∀ {chunks : List Chunk}, (chunks.map (·.index)).Nodup →
    ∀ c ∈ assignSlots chunks slots, c.index ∈ slots.map (·.index) → c.url ≠ none := by
  induction slots with
  | nil => exact fun _ _ _ h => by cases h
  | cons slot slots ih =>
    intro chunks hnodup c hc hindex
    have hsame : (assignSlot slot chunks).map (·.index) = chunks.map (·.index) := assignSlots_indexes chunks [slot]
    by_cases hrest : c.index ∈ slots.map (·.index)
    · exact ih (hsame ▸ hnodup) c hc hrest
    · -- the slot of this chunk is the first one: no slot after it takes its place
      have hfirst : c.index = slot.index := by
        cases List.mem_cons.mp hindex with
        | inl h => exact h
        | inr h => exact absurd h hrest
      have hrest' : c ∈ assignSlots (assignSlot slot chunks) slots := hc
      cases assignSlots_mem hrest' with
      | inl h =>
        rw [assignSlot_url hnodup h hfirst]
        exact Option.some_ne_none _
      | inr h =>
        obtain ⟨slot', _, _, _, hurl⟩ := h
        rw [hurl]
        exact Option.some_ne_none _

/-- What was given out is what the chunks carry. -/
theorem assignSlots_given {chunks : List Chunk} {slots : List Slot} (hslots : ∀ slot ∈ slots, given slot)
    (hchunks : ∀ c ∈ chunks, ∀ url, c.url = some url → c.Holds given url) :
    ∀ c ∈ assignSlots chunks slots, ∀ url, c.url = some url → c.Holds given url := by
  intro c hc url hurl
  cases assignSlots_mem hc with
  | inl hc => exact hchunks c hc url hurl
  | inr h =>
    obtain ⟨slot, hslot, hindex, hkey, hslotUrl⟩ := h
    have hsame : slot.url = url := Option.some.inj (hslotUrl.symm.trans hurl)
    refine ⟨hurl, ?_⟩
    rw [hindex, hkey, ← hsame]
    exact hslots slot hslot

/-- The chunks that slots were asked for have one. -/
theorem assignSlots_asked {chunks : List Chunk} {slots : List Slot} {count : Nat} (hnodup : (chunks.map (·.index)).Nodup)
    (hslots : Answers given (fetchSlots chunks count) slots) :
    ∀ c ∈ (assignSlots chunks slots).reverse.take count, c.url ≠ none := by
  intro c hc
  have hmem : c ∈ assignSlots chunks slots := List.mem_reverse.mp (List.mem_of_mem_take hc)
  refine assignSlots_url hnodup c hmem (hslots.asked.mem_iff.mpr ?_)
  have hindex : c.index ∈ ((assignSlots chunks slots).reverse.take count).map (·.index) := List.mem_map_of_mem hc
  rw [List.map_take, List.map_reverse, assignSlots_indexes] at hindex
  rw [fetchSlots, List.map_take, List.map_reverse]
  exact hindex

end Assign

/-! ## Launching -/

namespace ParallelChunkUploaders

/-- The next chunk has no slot yet. -/
def Wants (u : ParallelChunkUploaders) : Prop := ∃ chunk, u.chunks.getLast? = some chunk ∧ chunk.url = none

/-- When the next chunk has a slot, so has every chunk that would be launched with it. -/
def Ready (u : ParallelChunkUploaders) : Prop :=
  ¬ u.Wants → ∀ c ∈ u.chunks.reverse.take (u.maxRunners - u.futures.length), c.url ≠ none

/-- The launching loop takes its chunks from the end of the list. -/
theorem launch_eq (free : Nat) : ∀ u : ParallelChunkUploaders, launch free u =
    { u with chunks := (u.chunks.reverse.drop free).reverse, futures := u.futures ++ u.chunks.reverse.take free } := by
  induction free with
  | zero => intro u; simp [launch]
  | succ free ih =>
    intro u
    simp only [launch]
    cases hlast : u.chunks.getLast? with
    | none =>
      have hnil : u.chunks = [] := List.getLast?_eq_none_iff.mp hlast
      cases u
      simp_all
    | some chunk =>
      have hsplit : u.chunks = u.chunks.dropLast ++ [chunk] := by rw [List.dropLast_append_getLast? chunk hlast]
      have hreverse : u.chunks.reverse = chunk :: u.chunks.dropLast.reverse := by
        rw [hsplit, List.reverse_append, List.dropLast_concat]
        rfl
      dsimp only
      rw [ih, hreverse]
      simp

theorem launchMore_eq (u : ParallelChunkUploaders) : u.launchMore =
    { u with
      chunks := (u.chunks.reverse.drop (u.maxRunners - u.futures.length)).reverse
      futures := u.futures ++ u.chunks.reverse.take (u.maxRunners - u.futures.length) } := launch_eq _ u

/-- After launching, every runner is at work or no chunk is left. -/
theorem launchMore_full (u : ParallelChunkUploaders) :
    u.launchMore.chunks = [] ∨ u.launchMore.maxRunners ≤ u.launchMore.futures.length := by
  rw [launchMore_eq]
  by_cases hfew : u.chunks.length ≤ u.maxRunners - u.futures.length
  · left
    simp [hfew]
  · right
    simp only [List.length_append, List.length_take, List.length_reverse]
    omega

/-- With at most one runner free, it is the next chunk that would be launched. -/
theorem ready_of_one {u : ParallelChunkUploaders} (h : u.chunks = [] ∨ u.maxRunners ≤ u.futures.length + 1) : u.Ready := by
  intro hwants c hc
  cases h with
  | inl hnil =>
    rw [hnil] at hc
    simp at hc
  | inr hone =>
    have hlast : c ∈ u.chunks.getLast? := by
      have hle : u.maxRunners - u.futures.length ≤ 1 := by omega
      have hmem := (List.take_sublist_take_left hle).mem hc
      rw [List.take_one, List.head?_reverse] at hmem
      simpa using hmem
    exact fun hnone => hwants ⟨c, hlast, hnone⟩

end ParallelChunkUploaders

/-! ## The slots of a run -/

/-- No url is kept in a blueprint. -/
structure UploadBlueprint.NoUrls (b : UploadBlueprint) : Prop where
  wellFormed : b.WellFormed
  urls : ∀ c ∈ b.manifest.chunks, c.url = none

/-- The slots of a run: those its chunks carry are their own, those launched carry one, and the
next ones to be launched are ready. -/
structure SlotsOk (given : Slot → Prop) (r : UploadRun) : Prop where
  distinct : (r.uploaders.chunks.map (·.index)).Nodup
  own : ∀ c ∈ r.uploaders.chunks, ∀ url, c.url = some url → c.Holds given url
  launched : ∀ c ∈ r.uploaders.futures, ∃ url, c.Holds given url
  ready : r.phase = .launching → r.runners.run = true → r.uploaders.Ready
  full : r.phase = .waiting → r.runners.run = true →
    r.uploaders.chunks = [] ∨ r.uploaders.maxRunners ≤ r.uploaders.futures.length
  stops : r.runners.result ≠ none → r.runners.run = false

theorem handleError_run {ε : Type} {runners : RunnersState ε} (err : ε) (h : runners.result ≠ none → runners.run = false) :
    (runners.handleError err).run = false := by
  unfold RunnersState.handleError
  cases hresult : runners.result with
  | none => rfl
  | some e => exact h (by simp [hresult])

section Runs

variable {job : UploadJob} {given : Slot → Prop} {r r' : UploadRun}

theorem SlotsOk.marked (h : SlotsOk given r) (chunks : List Chunk) : SlotsOk given (r.marked chunks) where
  distinct := h.distinct
  own := h.own
  launched := h.launched
  ready := h.ready
  full := h.full
  stops := h.stops

/-- A run whose uploaders are stopped only has to keep its chunks. -/
theorem SlotsOk.stopped (h : SlotsOk given r) (huploaders : r'.uploaders = r.uploaders) (hrun : r'.runners.run = false) :
    SlotsOk given r' where
  distinct := huploaders ▸ h.distinct
  own := huploaders ▸ h.own
  launched := huploaders ▸ h.launched
  ready _ h := by
    rw [hrun] at h
    cases h
  full _ h := by
    rw [hrun] at h
    cases h
  stops _ := hrun

theorem SlotsOk.handled (h : SlotsOk given r) (err : UploadError) :
    SlotsOk given { r with runners := r.runners.handleError err } := h.stopped rfl (handleError_run err h.stops)

theorem SlotsOk.turned (h : SlotsOk given r) (hturn : r.Turned r') : SlotsOk given r' := by
  by_cases hrun : r'.runners.run = false
  · exact h.stopped hturn.uploaders hrun
  · -- the runners go on, so nothing of theirs has changed
    have hsame : r'.runners = r.runners := by
      rcases hturn.runners with hsame | hstop | ⟨err, herr⟩
      · exact hsame
      · exact absurd (by rw [hstop]) hrun
      · exact absurd (herr ▸ handleError_run err h.stops) hrun
    refine ⟨hturn.uploaders ▸ h.distinct, hturn.uploaders ▸ h.own, hturn.uploaders ▸ h.launched, ?_, ?_, hsame ▸ h.stops⟩
    · intro hphase hon
      rw [hturn.uploaders]
      exact h.ready (hturn.launching hphase) (hsame ▸ hon)
    · intro hphase hon
      rw [hturn.uploaders]
      rcases hturn.waiting hphase with hwait | hstop | ⟨err, herr⟩
      · exact h.full hwait (hsame ▸ hon)
      · exact absurd hstop hrun
      · exact absurd (herr ▸ handleError_run err h.stops) hrun

/-- A task that is over frees one runner. -/
theorem SlotsOk.takeTask (h : SlotsOk given r) (hphase : r.phase = .waiting) (i : Nat) :
    SlotsOk given (UploadJob.takeTask r i) where
  distinct := h.distinct
  own := h.own
  launched c hc := h.launched c (List.mem_of_mem_eraseIdx hc)
  ready _ hrun := by
    refine ParallelChunkUploaders.ready_of_one ((h.full hphase hrun).imp id fun hfull => ?_)
    have hlen : r.uploaders.futures.length ≤ (r.uploaders.futures.eraseIdx i).length + 1 := by
      rw [List.length_eraseIdx]
      split <;> omega
    exact hfull.trans hlen
  full hwaiting := by cases hwaiting
  stops := h.stops

/-- The slots that are asked for make the next chunks ready. -/
theorem updateSlots_ready {u u' : ParallelChunkUploaders} {slots : Except String UploadSlots}
    (hdistinct : (u.chunks.map (·.index)).Nodup) (hown : ∀ c ∈ u.chunks, ∀ url, c.url = some url → c.Holds given url)
    (hready : u.Ready)
    (hserved : ∀ res, slots = .ok res → u.Wants → Answers given (fetchSlots u.chunks u.maxRunners) res.slots)
    (h : u.updateSlots slots = .ok u') :
    (∀ c ∈ u'.chunks, ∀ url, c.url = some url → c.Holds given url) ∧
      ∀ c ∈ u'.chunks.reverse.take (u'.maxRunners - u'.futures.length), c.url ≠ none := by
  unfold ParallelChunkUploaders.updateSlots at h
  split at h
  · rename_i chunk hlast
    split at h
    · rename_i hnone
      cases slots with
      | error e => cases h
      | ok res =>
        cases h
        have hanswers := hserved res rfl ⟨chunk, hlast, hnone⟩
        refine ⟨assignSlots_given hanswers.given hown, fun c hc => ?_⟩
        exact assignSlots_asked hdistinct hanswers c ((List.take_sublist_take_left (Nat.sub_le _ _)).mem hc)
    · rename_i hsome
      cases h
      refine ⟨hown, hready fun ⟨c, hc, hcu⟩ => hsome ?_⟩
      rw [hlast] at hc
      cases hc
      exact hcu
  · rename_i hempty
    cases h
    refine ⟨hown, hready fun ⟨c, hc, _⟩ => ?_⟩
    rw [hempty] at hc
    cases hc

/-- Launching launches chunks with a slot, as many as there are runners. -/
theorem SlotsOk.launches {slots : Except String UploadSlots} {u : ParallelChunkUploaders} (h : SlotsOk given r)
    (hphase : r.phase = .launching) (hrun : r.runners.run = true)
    (hserved : ∀ res, slots = .ok res → r.uploaders.Wants →
      Answers given (fetchSlots r.uploaders.chunks r.uploaders.maxRunners) res.slots)
    (hslots : r.uploaders.updateSlots slots = .ok u) :
    SlotsOk given { r with uploaders := u.launchMore, phase := .waiting } := by
  obtain ⟨_, _, hfutures, hplaces⟩ := updateSlots_ok hslots
  obtain ⟨hown, hurls⟩ := updateSlots_ready h.distinct h.own (h.ready hphase hrun) hserved hslots
  have hdistinct : (u.chunks.map (·.index)).Nodup := by
    rw [indexes_of_places hplaces]
    exact h.distinct
  have hfull := u.launchMore_full
  rw [ParallelChunkUploaders.launchMore_eq] at hfull ⊢
  refine ⟨?_, fun c hc => ?_, fun c hc => ?_, (fun hp => by cases hp), fun _ _ => hfull, h.stops⟩
  · have hsub := ((List.drop_sublist (u.maxRunners - u.futures.length) u.chunks.reverse).reverse).map (·.index)
    rw [List.reverse_reverse] at hsub
    exact hsub.nodup hdistinct
  · exact hown c (List.mem_reverse.mp (List.mem_of_mem_drop (List.mem_reverse.mp hc)))
  · cases List.mem_append.mp hc with
    | inl hc => exact h.launched c (hfutures ▸ hc)
    | inr hc =>
      obtain ⟨url, hurl⟩ := Option.ne_none_iff_exists'.mp (hurls c hc)
      exact ⟨url, hown c (List.mem_reverse.mp (List.mem_of_mem_take hc)) url hurl⟩

end Runs

/-! ## Beginning a run -/

section Begin

variable {job : UploadJob} {given : Slot → Prop}

theorem newBlueprint_urls {slots : Nat} {env : UploadStartEnv} {b : UploadBlueprint} {uploadSlots : List Slot}
    (h : job.newBlueprint slots env = .ok (b, uploadSlots)) : ∀ c ∈ b.manifest.chunks, c.url = none := by
  obtain ⟨sources, _, _, _, _, _, hmanifest⟩ := newBlueprint_ok h
  rw [hmanifest]
  exact fun c hc => (fillSlots_unknown _ _ _ _ _ _ c hc).2.2.1

/-- A run that begins has its own slots, if any, and has them ready. -/
theorem slotsOk_begun {slots : Nat} {b : UploadBlueprint} {chunks : List Chunk} {n : Nat}
    (hdistinct : (chunks.map (·.index)).Nodup) (hown : ∀ c ∈ chunks, ∀ url, c.url = some url → c.Holds given url)
    (hready : (ParallelChunkUploaders.new chunks job.config b.dataVersion).Ready) :
    SlotsOk given (job.begun slots b chunks n) where
  distinct := (List.filter_sublist.map _).nodup hdistinct
  own c hc := hown c (List.mem_filter.mp hc).1
  launched c hc := by cases hc
  ready _ _ := hready
  full hp := by cases hp
  stops hne := absurd rfl hne

/-- Chunks without urls, on a run that is resumed. -/
theorem slotsOk_resumed {slots : Nat} {b : UploadBlueprint} {chunks : List Chunk} {n : Nat}
    (hdistinct : (chunks.map (·.index)).Nodup) (hurls : ∀ c ∈ chunks, c.url = none) :
    SlotsOk given (job.begun slots b chunks n) := by
  refine slotsOk_begun hdistinct (fun c hc url hurl => ?_) fun hwants c hc => ?_
  · rw [hurls c hc] at hurl
    cases hurl
  · -- a chunk without a slot is next, so slots are asked for first
    have hmem : c ∈ chunks.filter (·.size = 0) := List.mem_reverse.mp (List.mem_of_mem_take hc)
    have hne : chunks.filter (·.size = 0) ≠ [] := List.ne_nil_of_mem hmem
    refine absurd ⟨_, List.getLast?_eq_some_getLast hne, ?_⟩ hwants
    exact hurls _ (List.mem_filter.mp (List.getLast_mem hne)).1

/-- A run on a new blueprint has the slots asked for it. -/
theorem slotsOk_new {slots : Nat} {b : UploadBlueprint} {uploadSlots : List Slot} {n : Nat}
    (hdistinct : (b.manifest.chunks.map (·.index)).Nodup) (hunsized : ∀ c ∈ b.manifest.chunks, c.size = 0)
    (hurls : ∀ c ∈ b.manifest.chunks, c.url = none)
    (hanswers : Answers given (fetchSlots b.manifest.chunks job.config.maxRunners) uploadSlots) :
    SlotsOk given (job.begun slots b (assignSlots b.manifest.chunks uploadSlots) n) := by
  refine slotsOk_begun ?_ ?_ fun _ c hc => ?_
  · rw [assignSlots_indexes]
    exact hdistinct
  · refine assignSlots_given hanswers.given fun c hc url hurl => ?_
    rw [hurls c hc] at hurl
    cases hurl
  · -- a new blueprint has no chunk of a size yet, so the uploaders have them all
    have hall : (assignSlots b.manifest.chunks uploadSlots).filter (·.size = 0) = assignSlots b.manifest.chunks uploadSlots := by
      refine List.filter_eq_self.mpr fun c hc => ?_
      simp [assignSlots_forall (·.size) (fun _ _ _ => rfl) hunsized uploadSlots c hc]
    simp only [ParallelChunkUploaders.new, hall, List.length_nil, Nat.sub_zero] at hc
    exact assignSlots_asked hdistinct hanswers c ((List.take_sublist_take_left (Nat.min_le_left _ _)).mem hc)

theorem foldlM_markUploaded_urls {records items items' : List Chunk} (hdistinct : (items.map (·.index)).Nodup)
    (hitems : ∀ c ∈ items, c.url = none) (hrecords : ∀ c ∈ records, c.url = none)
    (h : records.foldlM markUploaded items = some items') :
    (items'.map (·.index)).Nodup ∧ ∀ c ∈ items', c.url = none := by
  refine ⟨foldlM_markUploaded_indexes hdistinct h ▸ hdistinct, fun c hc => ?_⟩
  obtain ⟨rfl, _⟩ := foldlM_markUploaded hdistinct h
  obtain ⟨item, hitem, rfl⟩ := List.mem_map.mp hc
  cases hlast : lastRecord item.index records with
  | none => exact hitems item hitem
  | some c => exact hrecords c (List.mem_filter.mp (List.mem_of_getLast? hlast)).1

end Begin

/-! ## Every run -/

section Every

variable {job : UploadJob} {given : Slot → Prop}

/-- The slots server answers what it is asked: a start that makes its blueprint asks for the last
chunks of that, a launch for the last of the run's when the next one has no slot. -/
def UploadJob.Served (job : UploadJob) (given : Slot → Prop) (s : UploadSt) : UploadAct → Prop
  | .start env => (∀ b, UploadJob.loadBlueprint s.files env ≠ .ok b) → ∀ total sources res,
    job.newTotalSlots env = .ok total → env.sources = .ok sources → env.slots = .ok res →
      Answers given
        (fetchSlots (prepareManifestBlueprint sources total job.config.compression).chunks job.config.maxRunners) res.slots
  | .launch slots => ∀ r res, s.current = some r → slots = .ok res → r.uploaders.Wants →
    Answers given (fetchSlots r.uploaders.chunks r.uploaders.maxRunners) res.slots
  | _ => True

/-- Every run keeps its slots, with no url on disk. -/
theorem slots_invariant : UploadInvariant job (job.Served given) UploadBlueprint.NoUrls (·.url = none) (SlotsOk given) where
  new hnew := ⟨newBlueprint_wellFormed hnew, newBlueprint_urls hnew⟩
  reports hup := by
    obtain ⟨put, parts, hchunk⟩ := uploadWithRetry_ok hup
    obtain ⟨size, checksum, rfl⟩ := uploadChunk_reports hchunk
    rfl
  begins hserved hslots hfresh hnew := by
    have hwf := newBlueprint_wellFormed hnew
    have hurls := newBlueprint_urls hnew
    obtain ⟨sources, res, hsources, hres, rfl, _, hmanifest⟩ := newBlueprint_ok hnew
    have hanswers := hserved hfresh _ _ _ hslots hsources hres
    rw [← hmanifest] at hanswers
    exact slotsOk_new hwf.distinct hwf.unsized hurls hanswers
  resumes _ _ _ _ hb hrecords hmark := by
    obtain ⟨hdistinct, hurls⟩ := foldlM_markUploaded_urls hb.wellFormed.distinct hb.urls hrecords hmark
    exact slotsOk_resumed hdistinct hurls
  turns hr hturn := hr.turned hturn
  launches hserved hr hI hphase hrun hslots := hI.launches hphase hrun (fun res => hserved _ res hr) hslots
  tasks hr hphase _ := hr.takeTask hphase _
  marks hr hphase _ _ _ := (hr.takeTask hphase _).marked _
  errors err hr := hr.handled err

end Every

/-! ## The missing url -/

section MissingUrl

variable {src : Store PathBuf} {enc : Coder} {hashes : Hashes} {key : String}

theorem openFile_error {next : FileLocation} : openFile src next ≠ .error (.missingUrl key) := by
  unfold openFile
  split <;> simp

theorem nextFile_error {iter : List FileLocation} {current : FileDescriptor} :
    nextFile src iter current ≠ .error (.missingUrl key) := by
  unfold nextFile
  split
  · split
    · simp
    · rename_i next iter
      cases hopen : openFile src next with
      | ok fd => simp [Except.map]
      | error e =>
        have hne : openFile src next ≠ .error (.missingUrl key) := openFile_error
        rw [hopen] at hne
        simpa [Except.map] using hne
  · simp

theorem readData_error {maxBufferSize spare : Nat} {iter : List FileLocation} {current : FileDescriptor} {buffer : Bytes} :
    readData src maxBufferSize spare iter current buffer ≠ .error (.missingUrl key) := by
  fun_induction readData src maxBufferSize spare iter current buffer with
  | case1 iter current buffer _ err hnext => exact fun h => nextFile_error (hnext.trans (by cases h; rfl))
  | case2 => simp
  | case3 => simp
  | case4 => assumption
  | case5 => simp

theorem tryNext_error {cfg : TransferConfig} {spare : Nat} {r : DestinationsReader enc} :
    r.tryNext src hashes cfg spare ≠ .error (.missingUrl key) := by
  fun_induction DestinationsReader.tryNext src hashes cfg spare r with
  | case1 => simp
  | case2 r e d hi err hread => exact fun h => readData_error (hread.trans (by cases h; rfl))
  | case3 => simp
  | case4 => simp
  | case5 => simp
  | case6 => simp
  | case7 => assumption

theorem parts_error {cfg : TransferConfig} {spare : Nat} {r : DestinationsReader enc} :
    r.parts src hashes cfg spare ≠ .error (.missingUrl key) := by
  fun_induction DestinationsReader.parts src hashes cfg spare r with
  | case1 r err hnext => exact fun h => tryNext_error (hnext.trans (by cases h; rfl))
  | case2 => simp
  | case3 r part r' hnext ih =>
    cases hrest : r'.parts src hashes cfg spare with
    | ok ps => simp [Except.map]
    | error e =>
      rw [hrest] at ih
      simpa [Except.map] using ih

theorem nonRecoverable_error {α : Type} {x : Except NonRecoverableError α} (h : x ≠ .error (.missingUrl key)) :
    nonRecoverable x ≠ .error (.nonRecoverable (.missingUrl key)) := by
  cases x with
  | ok a => simp [nonRecoverable, Except.mapError]
  | error e => simpa [nonRecoverable, Except.mapError] using h

theorem bind_error {ε α β : Type} {x : Except ε α} {f : α → Except ε β} {e : ε} (hx : x ≠ .error e)
    (hf : ∀ a, f a ≠ .error e) : x >>= f ≠ .error e := by
  cases x with
  | ok a => exact hf a
  | error e' => exact fun h => hx (by cases h; rfl)

/-- The upload of a chunk with a url does not miss it. -/
theorem uploadChunk_error {codecs : Codecs} {cfg : TransferConfig} {spare : Nat} {put : Except String Unit} {chunk : Chunk}
    {url : Url} (hurl : chunk.url = some url) :
    uploadChunk src hashes codecs cfg spare put chunk ≠ .error (.nonRecoverable (.missingUrl key)) := by
  have hrequire : requireUrl chunk ≠ .error (.nonRecoverable (.missingUrl key)) := by simp [requireUrl, hurl]
  have hput : put.mapError UploadError.other ≠ .error (.nonRecoverable (.missingUrl key)) := by
    cases put <;> simp [Except.mapError]
  have hnew : (DestinationsReader.new src hashes chunk.destinations :
      Except NonRecoverableError (DestinationsReader (codecs.encoder cfg.compression))) ≠ .error (.missingUrl key) := by
    cases chunk.destinations with
    | nil => simp [DestinationsReader.new]
    | cons first iter =>
      simp only [DestinationsReader.new]
      cases hopen : openFile src first with
      | ok fd => simp [Except.map]
      | error e =>
        have hne : openFile src first ≠ .error (.missingUrl key) := openFile_error
        rw [hopen] at hne
        simpa [Except.map] using hne
  unfold uploadChunk
  dsimp only
  split
  · refine bind_error (nonRecoverable_error hnew) fun reader => ?_
    split
    · refine bind_error hrequire fun _ => bind_error (nonRecoverable_error parts_error) fun ps => ?_
      exact bind_error hput fun _ => by simp
    · refine bind_error (nonRecoverable_error ?_) fun ps => bind_error hrequire fun _ => bind_error hput fun _ => by simp
      cases hparts : reader.parts src hashes cfg spare with
      | ok ps => simp [consumeReader, hparts, Except.map]
      | error e =>
        have hne : reader.parts src hashes cfg spare ≠ .error (.missingUrl key) := parts_error
        rw [hparts] at hne
        simpa [consumeReader, hparts, Except.map] using hne
  · simp

theorem uploadWithRetry_error {job : UploadJob} {chunk : Chunk} {url : Url} {attempts : Nat → UploadAttempt}
    (hurl : chunk.url = some url) (retries : Nat) : ∀ attempt,
      job.uploadWithRetry chunk attempts retries attempt ≠ .error (.nonRecoverable (.missingUrl key)) := by
  have honce : ∀ a, UploadJob.uploadWithRetry.once job chunk a ≠ .error (.nonRecoverable (.missingUrl key)) := by
    intro a
    cases a with
    | interrupted => simp [UploadJob.uploadWithRetry.once]
    | made files spare put =>
      simp only [UploadJob.uploadWithRetry.once]
      cases hup : uploadChunk files job.hashes job.codecs job.config spare put chunk with
      | ok res => simp [Except.map]
      | error e =>
        have hne : uploadChunk files job.hashes job.codecs job.config spare put chunk ≠
          .error (.nonRecoverable (.missingUrl key)) := uploadChunk_error hurl
        rw [hup] at hne
        simpa [Except.map] using hne
  induction retries with
  | zero => exact fun attempt => honce _
  | succ retries ih =>
    intro attempt
    simp only [UploadJob.uploadWithRetry]
    split
    · simp
    · exact ih _

end MissingUrl

/-- **Every launched chunk has its slot.** Whatever an upload is resumed from and in whatever order
its chunks complete, with a server that answers with the slots it is asked for: a chunk that is
being uploaded carries the url of a slot of its own index, no attempt at it misses the url, and no
chunk that waits carries the url of another one's slot. -/
theorem launched_have_slots {job : UploadJob} {given : Slot → Prop} {acts : List UploadAct} {s : UploadSt} {r : UploadRun}
    (hrun : run job.step .init acts = some s) (hserved : Along job.step (job.Served given) .init acts)
    (hr : s.current = some r) :
    (∀ c ∈ r.uploaders.futures, (∃ url, c.url = some url ∧ given ⟨c.index, c.key, url⟩) ∧
      ∀ attempts key, job.uploadWithRetry c attempts job.config.maxRetries 0 ≠
        .error (.nonRecoverable (.missingUrl key))) ∧
      ∀ c ∈ r.uploaders.chunks, ∀ url, c.url = some url → given ⟨c.index, c.key, url⟩ := by
  have hslots := (slots_invariant.holds hrun hserved).run r hr
  refine ⟨fun c hc => ?_, fun c hc url hurl => (hslots.own c hc url hurl).2⟩
  obtain ⟨url, hurl, hgiven⟩ := hslots.launched c hc
  exact ⟨⟨url, hurl, hgiven⟩, fun attempts key => uploadWithRetry_error hurl _ _⟩

/-- A run that is killed before it launches anything, and the run that resumes it. -/
def resumedActs : List UploadAct :=
  [.start (emptyFileStart "a" 1), .kill, .start (emptyFileStart "a" 1), .launch (.ok (sampleSlots 1))]

theorem resumedActs_served :
    Along uploadSample.step (uploadSample.Served fun slot => slot = ⟨0, "key", "url"⟩) .init resumedActs := by
  have hanswers : ∀ chunk : Chunk, chunk.index = 0 → ∀ n, 0 < n →
      Answers (fun slot => slot = ⟨0, "key", "url"⟩) (fetchSlots [chunk] n) (sampleSlots 1).slots := by
    intro chunk hindex n hn
    obtain ⟨m, rfl⟩ : ∃ m, n = m + 1 := ⟨n - 1, by omega⟩
    exact ⟨by simp [fetchSlots, sampleSlots, hindex], by simp [sampleSlots]⟩
  refine ⟨fun _ total sources res htotal hsources hres => ?_, ?_⟩
  · cases htotal
    cases hsources
    cases hres
    rw [show uploadSample.config.compression = none from rfl, emptyFileManifest_eq]
    exact hanswers _ rfl _ (by decide)
  · have hstart : uploadSample.step .init (.start (emptyFileStart "a" 1)) = some (begunOn (emptyFileManifest "a") 1) :=
      congrArg some (start_emptyFile "a" 1)
    rw [hstart]
    refine ⟨trivial, fun hfresh => absurd rfl (hfresh ⟨emptyFileManifest "a", 1, some 1⟩), fun r res hr hres _ => ?_, trivial⟩
    cases hr
    cases hres
    exact hanswers _ rfl _ (by decide)

/-- The chunk of the resumed run is launched with its slot. -/
theorem launched_have_slots_resumed : ∃ s r c, run uploadSample.step .init resumedActs = some s ∧ s.current = some r ∧
    c ∈ r.uploaders.futures ∧ ∃ url, c.url = some url ∧ (⟨c.index, c.key, url⟩ : Slot) = ⟨0, "key", "url"⟩ := by
  have hrest : ∃ s r c, run uploadSample.step (begunOn (emptyFileManifest "a") 1) resumedActs.tail = some s ∧
      s.current = some r ∧ r.uploaders.futures = [c] := ⟨_, _, _, rfl, rfl, rfl⟩
  obtain ⟨s, r, c, hrun, hr, hc⟩ := hrest
  have hrun : run uploadSample.step .init resumedActs = some s := by
    rw [← hrun, ← start_emptyFile]
    rfl
  have hmem : c ∈ r.uploaders.futures := hc ▸ List.mem_singleton_self c
  exact ⟨s, r, c, hrun, hr, hmem, ((launched_have_slots hrun resumedActs_served hr).1 c hmem).1⟩

end Blockvisor
