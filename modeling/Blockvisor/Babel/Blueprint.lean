/-
The manifest blueprint of an upload (`Uploader::prepare_manifest_blueprint`
and `build_destinations`): the source files, sorted by path, are consumed
from the last one and dealt out to the slots.

`buildDestinations_spec` says what one slot takes and leaves, and
`prepareManifestBlueprint_partition` what the chunks of a blueprint hold:
consecutive indexes, one per slot at most, nothing twice and nothing that is
not in the sources, and, when `Covered` holds, all of them. `covers_iff` says
that `Covered` is exactly when they hold everything: with fewer bytes than
slots the size of a slot rounds to zero, a slot with nothing to take ends the
loop, and the slots after it, the last one with the remainder among them, are
never built.
-/
import Blockvisor.Babel.Engine
import Mathlib.Data.List.Sort
import Mathlib.Data.String.Basic

namespace Blockvisor

open Extent

/-! ## The sources -/

/-- The source files and the number of their bytes (`utils::SourcesList`). -/
structure SourcesList where
  totalSize : Nat
  sources : List FileLocation
  totalSize_eq : totalSize = total sources

/-- The files a walk of the source directory yields, with their lengths, less the excluded ones. -/
def sourcesList (files : List (PathBuf × Nat)) (exclude : PathBuf → Bool) : SourcesList where
  totalSize := (files.filter fun f => !exclude f.1).foldl (fun acc f => acc + f.2) 0
  sources := (files.filter fun f => !exclude f.1).map fun f => ⟨f.1, 0, f.2⟩
  totalSize_eq := by
    have hfold : ∀ (fs : List (PathBuf × Nat)) (acc : Nat),
        fs.foldl (fun acc f => acc + f.2) acc = acc + total (fs.map fun f => (⟨f.1, 0, f.2⟩ : FileLocation)) := by
      intro fs
      induction fs with
      | nil => intro acc; simp
      | cons f fs ih => intro acc; simp [ih, Nat.add_assoc]
    simpa using hfold _ 0

/-- The number of slots an uploader deals its sources out to (`Uploader::new`): the configured
number, or one for each started 500MB, cut to 32 bits. -/
def totalSlots (numberOfChunks : Option Nat) (sources : SourcesList) : Except String Nat :=
  match numberOfChunks with
  | some 0 => .error "invalid number of chunks - need at leas one"
  | some n => .ok n
  | none => .ok ((1 + sources.totalSize / 500000000) % u32Size)

/-- An uploader has a slot, unless the sources are so large that their number wraps to zero. -/
theorem totalSlots_pos {numberOfChunks : Option Nat} {sources : SourcesList} {slots : Nat}
    (h : totalSlots numberOfChunks sources = .ok slots)
    (hsize : sources.totalSize < 500000000 * (u32Size - 1)) : 0 < slots := by
  unfold totalSlots at h
  split at h
  · cases h
  · rename_i n hn
    cases h
    exact Nat.pos_of_ne_zero fun h0 => hn (by rw [h0])
  · cases h
    have hlt : sources.totalSize / 500000000 < u32Size - 1 := Nat.div_lt_of_lt_mul hsize
    rw [Nat.mod_eq_of_lt (by omega)]
    omega

/-! ## One slot -/

/-- Consumes sources and puts them into a list of destinations until the slot is full. The
sources are a stack, its top first; `bytesInSlot` is what the slot already holds. -/
def buildDestinationsFrom (chunkSize : Nat) : Nat → List FileLocation → List FileLocation × List FileLocation
  | _, [] => ([], [])
  | bytesInSlot, file :: rest =>
    if bytesInSlot ≤ chunkSize ∧ ¬ (chunkSize ≤ bytesInSlot ∧ 0 < file.size) then
      let destSize := min file.size (chunkSize - bytesInSlot)
      let destination : FileLocation := ⟨file.path, file.pos, destSize⟩
      let file : FileLocation := { file with size := file.size - destSize, pos := file.pos + destSize }
      if file.size = 0 then
        let (destinations, left) := buildDestinationsFrom chunkSize (bytesInSlot + destSize) rest
        (destination :: destinations, left)
      else
        -- what is left of the file says that the slot is full: the next pass breaks
        ([destination], file :: rest)
    else
      -- when the slot is full, only empty files can still be added
      ([], file :: rest)

def buildDestinations (chunkSize : Nat) (sources : List FileLocation) : List FileLocation × List FileLocation :=
  buildDestinationsFrom chunkSize 0 sources

/-- What a slot with room for `room` bytes does to the sources `stack`. -/
structure Dealt (room : Nat) (stack destinations left : List FileLocation) : Prop where
  cells : allCells destinations ++ allCells left = allCells stack
  empties : empties destinations ++ empties left = empties stack
  size : total destinations = min room (total stack)
  exhausted : total stack ≤ room → left = []
  head : ∀ f fs, left = f :: fs → 0 < f.size
  progress : 0 < room → stack ≠ [] → destinations ≠ []
  progress_empty : ∀ f fs, stack = f :: fs → f.size = 0 → destinations ≠ []
  stuck : room = 0 → ∀ f fs, stack = f :: fs → 0 < f.size → destinations = []

theorem Dealt.total {room : Nat} {stack destinations left : List FileLocation}
    (h : Dealt room stack destinations left) : total destinations + total left = total stack := by
  rw [← length_allCells, ← length_allCells, ← length_allCells, ← h.cells, List.length_append]

theorem Dealt.takes {room : Nat} {stack destinations left : List FileLocation} (h : Dealt room stack destinations left)
    (hroom : 0 < room) (hstack : 0 < Extent.total stack) : destinations ≠ [] := by
  refine h.progress hroom fun hnil => ?_
  rw [hnil, total_nil] at hstack
  exact Nat.lt_irrefl 0 hstack

theorem buildDestinationsFrom_spec (chunkSize : Nat) (stack : List FileLocation) :
    ∀ bytesInSlot, bytesInSlot ≤ chunkSize →
      Dealt (chunkSize - bytesInSlot) stack (buildDestinationsFrom chunkSize bytesInSlot stack).1
        (buildDestinationsFrom chunkSize bytesInSlot stack).2 := by
  induction stack with
  | nil =>
    intro bytes hb
    constructor <;> simp [buildDestinationsFrom]
  | cons file rest ih =>
    intro bytes hb
    simp only [buildDestinationsFrom]
    by_cases hfull : chunkSize ≤ bytes ∧ 0 < file.size
    · rw [if_neg (by simp [hfull])]
      obtain ⟨hc, hs⟩ := hfull
      have hroom : chunkSize - bytes = 0 := by omega
      rw [hroom]
      constructor <;> simp [total_cons]
      all_goals omega
    rw [if_pos ⟨hb, hfull⟩]
    by_cases hfit : file.size ≤ chunkSize - bytes
    · have hmin : min file.size (chunkSize - bytes) = file.size := by omega
      have hsub : chunkSize - (bytes + file.size) = chunkSize - bytes - file.size := by omega
      have hrec := ih (bytes + file.size) (by omega)
      simp only [hmin, Nat.sub_self, if_true]
      generalize buildDestinationsFrom chunkSize (bytes + file.size) rest = r at hrec
      obtain ⟨ds, left⟩ := r
      rw [hsub] at hrec
      constructor
      · simp [← hrec.cells]
      · simp only [empties_cons, ← hrec.empties]
        split <;> simp
      · simp only [total_cons, hrec.size]; omega
      · intro h
        rw [total_cons] at h
        exact hrec.exhausted (by omega)
      · exact hrec.head
      · simp
      · simp
      · intro h0 f fs hf hpos
        simp only [List.cons.injEq] at hf
        obtain ⟨rfl, rfl⟩ := hf
        omega
    · have hmin : min file.size (chunkSize - bytes) = chunkSize - bytes := by omega
      have hne : ¬ file.size - (chunkSize - bytes) = 0 := by omega
      have hroom : 0 < chunkSize - bytes := by
        rcases Nat.eq_zero_or_pos (chunkSize - bytes) with h | h
        · exact absurd ⟨by omega, by omega⟩ hfull
        · exact h
      simp only [hmin, hne, if_false]
      constructor
      · have hsplit := cells_split file.path file.pos (chunkSize - bytes) (file.size - (chunkSize - bytes))
        rw [Nat.add_sub_cancel' (by omega)] at hsplit
        simp only [allCells_cons, allCells_nil, List.append_nil, ← List.append_assoc, ← hsplit]
      · simp only [empties_cons, empties_nil]
        rw [if_neg (by omega), if_neg hne, if_neg (by omega)]
        simp
      · simp only [total_cons, total_nil]; omega
      · intro h; simp only [total_cons] at h; omega
      · intro f fs hf
        simp only [List.cons.injEq] at hf
        rw [← hf.1]
        exact Nat.pos_of_ne_zero hne
      · simp
      · simp
      · omega

theorem buildDestinations_spec (chunkSize : Nat) (stack : List FileLocation) :
    Dealt chunkSize stack (buildDestinations chunkSize stack).1 (buildDestinations chunkSize stack).2 :=
  buildDestinationsFrom_spec chunkSize stack 0 (Nat.zero_le _)

/-! ## The slots of a blueprint -/

/-- The room in slot `index`: the last slot takes the remainder too. -/
def slotSize (totalSlots chunkSize lastChunkSize index : Nat) : Nat :=
  if index < totalSlots - 1 then chunkSize else lastChunkSize

/-- The loop over the slots, `slotsLeft` of them from slot `index` on. -/
def fillSlots (totalSlots chunkSize lastChunkSize : Nat) : Nat → Nat → List FileLocation → List Chunk
  | 0, _, _ => []
  | slotsLeft + 1, index, sources =>
    let (destinations, left) :=
      buildDestinations (slotSize totalSlots chunkSize lastChunkSize index) sources
    if destinations = [] then
      -- no more files: the rest of the slots is skipped
      []
    else
      { index
        key := ""
        url := none
        checksum := .sha1 (Vector.replicate 20 0) -- unknown yet
        size := 0 -- unknown yet
        destinations } :: fillSlots totalSlots chunkSize lastChunkSize slotsLeft (index + 1) left

/-- The sources as the slots take them: sorted by path and taken from the last one. -/
def sourceStack (sources : List FileLocation) : List FileLocation :=
  (sources.mergeSort fun a b => decide (a.path ≤ b.path)).reverse

/-- The manifest blueprint: the mapping of the source files to chunks. -/
def prepareManifestBlueprint (sources : SourcesList) (totalSlots : Nat) (compression : Option Compression) :
    DownloadManifest :=
  let chunkSize := sources.totalSize / totalSlots
  let lastChunkSize := chunkSize + sources.totalSize % totalSlots
  { totalSize := sources.totalSize
    compression
    chunks := fillSlots totalSlots chunkSize lastChunkSize totalSlots 0 (sourceStack sources.sources) }

/-- The destinations of all chunks of a list. -/
def allDestinations (chunks : List Chunk) : List FileLocation := chunks.flatMap (·.destinations)

theorem sourceStack_perm (sources : List FileLocation) : (sourceStack sources).Perm sources :=
  (List.reverse_perm _).trans (List.mergeSort_perm _ _)

theorem fillSlots_indexes (totalSlots c l : Nat) :
    ∀ (n index : Nat) (stack : List FileLocation),
      (fillSlots totalSlots c l n index stack).map (·.index) =
        List.range' index (fillSlots totalSlots c l n index stack).length := by
  intro n
  induction n with
  | zero => intro index stack; rfl
  | succ n ih =>
    intro index stack
    simp only [fillSlots]
    split
    · rfl
    · simp only [List.map_cons, ih, List.length_cons, List.range'_succ]

theorem fillSlots_length (totalSlots c l : Nat) :
    ∀ (n index : Nat) (stack : List FileLocation), (fillSlots totalSlots c l n index stack).length ≤ n := by
  intro n
  induction n with
  | zero => intro index stack; simp [fillSlots]
  | succ n ih =>
    intro index stack
    simp only [fillSlots]
    split
    · simp
    · simpa using ih _ _

/-- A chunk of a blueprint names its destinations and nothing else yet. -/
theorem fillSlots_unknown (totalSlots c l : Nat) :
    ∀ (n index : Nat) (stack : List FileLocation), ∀ chunk ∈ fillSlots totalSlots c l n index stack,
      chunk.size = 0 ∧ chunk.key = "" ∧ chunk.url = none ∧ chunk.destinations ≠ [] := by
  intro n
  induction n with
  | zero => intro index stack chunk h; simp [fillSlots] at h
  | succ n ih =>
    intro index stack chunk h
    simp only [fillSlots] at h
    split at h
    · simp at h
    · rename_i hne
      rcases List.mem_cons.mp h with rfl | h
      · exact ⟨rfl, rfl, rfl, hne⟩
      · exact ih _ _ chunk h

/-- Whatever the slots take comes off the sources, once. -/
theorem fillSlots_takes (totalSlots c l : Nat) :
    ∀ (n index : Nat) (stack : List FileLocation), ∃ left,
      allCells (allDestinations (fillSlots totalSlots c l n index stack)) ++ allCells left = allCells stack ∧
      empties (allDestinations (fillSlots totalSlots c l n index stack)) ++ empties left = empties stack := by
  intro n
  induction n with
  | zero => intro index stack; exact ⟨stack, rfl, rfl⟩
  | succ n ih =>
    intro index stack
    simp only [fillSlots]
    have hd := buildDestinations_spec (slotSize totalSlots c l index) stack
    split
    · exact ⟨stack, rfl, rfl⟩
    · obtain ⟨left, hcells, hempties⟩ := ih (index + 1)
        (buildDestinations (slotSize totalSlots c l index) stack).2
      refine ⟨left, ?_, ?_⟩
      · simp only [allDestinations, List.flatMap_cons, allCells_append, List.append_assoc] at hcells ⊢
        rw [hcells, hd.cells]
      · simp only [allDestinations, List.flatMap_cons, empties_append, List.append_assoc] at hempties ⊢
        rw [hempties, hd.empties]

/-- The slots from `index` on take everything on the stack. -/
def TakesAll (totalSlots c l n index : Nat) (stack : List FileLocation) : Prop :=
  allCells (allDestinations (fillSlots totalSlots c l n index stack)) = allCells stack ∧
    empties (allDestinations (fillSlots totalSlots c l n index stack)) = empties stack

theorem takesAll_nil (totalSlots c l n index : Nat) : TakesAll totalSlots c l n index [] := by
  have hd := buildDestinations_spec (slotSize totalSlots c l index) []
  cases n with
  | zero => exact ⟨rfl, rfl⟩
  | succ n => simp [TakesAll, fillSlots, buildDestinations, buildDestinationsFrom, allDestinations]

/-- A slot that takes something leaves the rest to the slots after it. -/
theorem takesAll_step {totalSlots c l n index : Nat} {stack : List FileLocation}
    (hne : (buildDestinations (slotSize totalSlots c l index) stack).1 ≠ [])
    (hrest : TakesAll totalSlots c l n (index + 1) (buildDestinations (slotSize totalSlots c l index) stack).2) :
    TakesAll totalSlots c l (n + 1) index stack := by
  have hd := buildDestinations_spec (slotSize totalSlots c l index) stack
  obtain ⟨hcells, hempties⟩ := hrest
  simp only [TakesAll, fillSlots]
  rw [if_neg hne]
  refine ⟨?_, ?_⟩
  · simp only [allDestinations, List.flatMap_cons, allCells_append] at hcells ⊢
    rw [hcells, hd.cells]
  · simp only [allDestinations, List.flatMap_cons, empties_append] at hempties ⊢
    rw [hempties, hd.empties]

/-- Slots that can hold the sources, each of them with room, take them all. -/
theorem fillSlots_takesAll (totalSlots c l : Nat) :
    ∀ (n index : Nat) (stack : List FileLocation), index + n = totalSlots → 0 < n →
      total stack ≤ (n - 1) * c + l → (n = 1 ∨ 0 < c ∨ total stack = 0) → (0 < l ∨ total stack = 0) →
      TakesAll totalSlots c l n index stack := by
  intro n
  induction n with
  | zero => intro index stack _ h; omega
  | succ n ih =>
    intro index stack hidx _ hsize hc hl
    cases stack with
    | nil => exact takesAll_nil ..
    | cons f fs =>
    have hd := buildDestinations_spec (slotSize totalSlots c l index) (f :: fs)
    have hroom : 0 < slotSize totalSlots c l index ∨ total (f :: fs) = 0 := by
      unfold slotSize
      split
      · omega
      · exact hl
    have hne : (buildDestinations (slotSize totalSlots c l index) (f :: fs)).1 ≠ [] := by
      rcases hroom with hroom | h0
      · exact hd.progress hroom (by simp)
      · exact hd.progress_empty f fs rfl (by simp at h0; exact h0.1)
    apply takesAll_step hne
    rcases Nat.eq_zero_or_pos n with rfl | hn
    · -- the last slot holds what is left
      have hlast : slotSize totalSlots c l index = l := if_neg (by omega)
      rw [hd.exhausted (by rw [hlast]; simpa using hsize)]
      exact takesAll_nil ..
    · have hsz : slotSize totalSlots c l index = c := if_pos (by omega)
      have htotal := hd.total
      have hmin := hd.size
      rw [hsz] at htotal hmin ⊢
      have hleft : total (buildDestinations c (f :: fs)).2 ≤ (n - 1) * c + l := by
        obtain ⟨m, rfl⟩ : ∃ m, n = m + 1 := ⟨n - 1, by omega⟩
        simp only [Nat.add_sub_cancel, Nat.add_mul, Nat.one_mul] at hsize ⊢
        omega
      exact ih (index + 1) _ (by omega) hn hleft (by omega) (by omega)

/-! ## What a blueprint covers -/

/-- When the slots of a blueprint hold all the sources: there is nothing to hold, or a byte for
each slot, or one byte for the second of two slots, behind an empty file for the first. -/
def Covered (sources : SourcesList) (totalSlots : Nat) : Prop :=
  sources.totalSize = 0 ∨ totalSlots ≤ sources.totalSize ∨
    (totalSlots = 2 ∧ sources.totalSize = 1 ∧ ∃ f ∈ (sourceStack sources.sources).head?, f.size = 0)

instance (sources : SourcesList) (totalSlots : Nat) : Decidable (Covered sources totalSlots) :=
  inferInstanceAs (Decidable (_ ∨ _ ∨ _))

theorem fillSlots_room_zero {totalSlots c l n index : Nat} {f : FileLocation} {fs : List FileLocation}
    (hroom : slotSize totalSlots c l index = 0) (hf : 0 < f.size) :
    fillSlots totalSlots c l n index (f :: fs) = [] := by
  cases n with
  | zero => rfl
  | succ n =>
    have hd := buildDestinations_spec (slotSize totalSlots c l index) (f :: fs)
    simp only [fillSlots]
    rw [if_pos (hd.stuck hroom f fs rfl hf)]

/-- Fewer bytes than slots: a blueprint that is not `Covered` holds no byte at all. -/
theorem total_of_not_covered {sources : SourcesList} {totalSlots : Nat} (compression : Option Compression)
    (h : ¬ Covered sources totalSlots) :
    total (allDestinations (prepareManifestBlueprint sources totalSlots compression).chunks) = 0 := by
  obtain ⟨hpos, hlt, hcorner⟩ : 0 < sources.totalSize ∧ sources.totalSize < totalSlots ∧
      (totalSlots = 2 → ∀ f fs, sourceStack sources.sources = f :: fs → 0 < f.size) := by
    simp only [Covered, not_or, not_and, not_exists] at h
    refine ⟨by omega, by omega, fun h2 f fs hf => Nat.pos_of_ne_zero ?_⟩
    exact h.2.2 h2 (by omega) f (by simp [hf])
  have hc : sources.totalSize / totalSlots = 0 := Nat.div_eq_of_lt hlt
  have hstack : total (sourceStack sources.sources) = sources.totalSize := by
    rw [total_perm (sourceStack_perm _), sources.totalSize_eq]
  simp only [prepareManifestBlueprint, hc, Nat.zero_add, Nat.mod_eq_of_lt hlt]
  obtain ⟨n, rfl⟩ : ∃ n, totalSlots = n + 2 := ⟨totalSlots - 2, by omega⟩
  have hroom : slotSize (n + 2) 0 sources.totalSize 0 = 0 := if_pos (by omega)
  simp only [fillSlots, hroom]
  have hd := buildDestinations_spec 0 (sourceStack sources.sources)
  split
  · rfl
  · rename_i hne
    -- the first slot took empty files only, and a file with bytes is next
    obtain ⟨g, gs, hleft⟩ : ∃ g gs, (buildDestinations 0 (sourceStack sources.sources)).2 = g :: gs := by
      rcases hl : (buildDestinations 0 (sourceStack sources.sources)).2 with _ | ⟨g, gs⟩
      · have := hd.total
        have hsize := hd.size
        rw [hl, total_nil, hstack] at this
        omega
      · exact ⟨g, gs, rfl⟩
    rcases Nat.eq_zero_or_pos n with rfl | hn
    · -- of two slots, the first one took something only if the first source is empty
      cases hs : sourceStack sources.sources with
      | nil => simp [hs] at hstack; omega
      | cons f fs => exact absurd (hd.stuck rfl f fs hs (hcorner rfl f fs hs)) hne
    · have hroom' : slotSize (n + 2) 0 sources.totalSize 1 = 0 := if_pos (by omega)
      have hrest : fillSlots (n + 2) 0 sources.totalSize (n + 1) 1
          (buildDestinations 0 (sourceStack sources.sources)).2 = [] := by
        rw [hleft]
        exact fillSlots_room_zero hroom' (hd.head g gs hleft)
      have hsize := hd.size
      simp only [fillSlots] at hrest
      simp [hrest, allDestinations, hsize]

theorem takes_all_of_covered {sources : SourcesList} {totalSlots : Nat} (compression : Option Compression)
    (hslots : 0 < totalSlots) (h : Covered sources totalSlots) :
    (allCells (allDestinations (prepareManifestBlueprint sources totalSlots compression).chunks)).Perm
        (allCells sources.sources) ∧
      (empties (allDestinations (prepareManifestBlueprint sources totalSlots compression).chunks)).Perm
        (empties sources.sources) := by
  have hperm := sourceStack_perm sources.sources
  have hstack : total (sourceStack sources.sources) = sources.totalSize := by
    rw [total_perm hperm, sources.totalSize_eq]
  have hdiv : totalSlots * (sources.totalSize / totalSlots) + sources.totalSize % totalSlots =
      sources.totalSize := Nat.div_add_mod _ _
  have hroom : sources.totalSize = (totalSlots - 1) * (sources.totalSize / totalSlots) +
      (sources.totalSize / totalSlots + sources.totalSize % totalSlots) := by
    obtain ⟨m, rfl⟩ : ∃ m, totalSlots = m + 1 := ⟨totalSlots - 1, by omega⟩
    rw [Nat.add_mul, Nat.one_mul] at hdiv
    simp only [Nat.add_sub_cancel]
    omega
  suffices hall : allCells (allDestinations (prepareManifestBlueprint sources totalSlots compression).chunks) =
        allCells (sourceStack sources.sources) ∧
      empties (allDestinations (prepareManifestBlueprint sources totalSlots compression).chunks) =
        empties (sourceStack sources.sources) by
    rw [hall.1, hall.2]
    exact ⟨allCells_perm hperm, empties_perm hperm⟩
  change TakesAll totalSlots _ _ totalSlots 0 (sourceStack sources.sources)
  rcases h with h | h | ⟨rfl, h1, f, hf, hf0⟩
  · exact fillSlots_takesAll _ _ _ _ 0 _ (by omega) hslots (by omega) (.inr (.inr (by omega))) (.inr (by omega))
  · have hc : 0 < sources.totalSize / totalSlots := Nat.div_pos h hslots
    exact fillSlots_takesAll _ _ _ _ 0 _ (by omega) hslots (by omega) (.inr (.inl hc)) (.inl (by omega))
  · -- the first of the two slots takes the empty files on top, the second one the byte
    obtain ⟨fs, hs⟩ : ∃ fs, sourceStack sources.sources = f :: fs := by
      cases hs : sourceStack sources.sources with
      | nil => simp [hs] at hf
      | cons g gs =>
        simp only [hs, List.head?_cons, Option.mem_def, Option.some.injEq] at hf
        exact ⟨gs, by rw [hf]⟩
    have hd := buildDestinations_spec (slotSize 2 (sources.totalSize / 2)
      (sources.totalSize / 2 + sources.totalSize % 2) 0) (sourceStack sources.sources)
    have htotal := hd.total
    apply takesAll_step (hd.progress_empty f fs hs hf0)
    exact fillSlots_takesAll 2 _ _ 1 1 _ rfl (by omega) (by omega) (.inl rfl)
      (.inl (by omega))

/-- **`Covered` is exact.** A blueprint holds every byte of every source and every empty source
just when `Covered` holds of its sources and slots. -/
theorem prepareManifestBlueprint_covers_iff (sources : SourcesList) {totalSlots : Nat}
    (compression : Option Compression) (hslots : 0 < totalSlots) :
    (allCells (allDestinations (prepareManifestBlueprint sources totalSlots compression).chunks)).Perm
        (allCells sources.sources) ↔ Covered sources totalSlots := by
  refine ⟨fun h => ?_, fun h => (takes_all_of_covered compression hslots h).1⟩
  by_contra hn
  have h0 := total_of_not_covered compression hn
  have hlen := h.length_eq
  rw [length_allCells, length_allCells, h0, ← sources.totalSize_eq] at hlen
  exact hn (.inl hlen.symm)

/-! ## The blueprint -/

/-- A manifest whose chunks partition the sources, each of the size of its data. -/
structure Partitions (sources : SourcesList) (totalSlots : Nat) (m : DownloadManifest) : Prop where
  cells : (allCells (allDestinations m.chunks)).Perm (allCells sources.sources)
  emptyFiles : (empties (allDestinations m.chunks)).Perm (empties sources.sources)
  indexes : m.chunks.map (·.index) = List.range m.chunks.length
  slots : m.chunks.length ≤ totalSlots
  sizes : ∀ c ∈ m.chunks, c.size = c.dataSize
  total : (m.chunks.map (·.size)).sum = sources.totalSize

/-- A manifest blueprint: the chunks deal out the sources, and name no size yet. -/
structure Deals (sources : SourcesList) (totalSlots : Nat) (m : DownloadManifest) : Prop where
  indexes : m.chunks.map (·.index) = List.range m.chunks.length
  slots : m.chunks.length ≤ totalSlots
  unsized : ∀ c ∈ m.chunks, c.size = 0
  cells : Covered sources totalSlots → (allCells (allDestinations m.chunks)).Perm (allCells sources.sources)
  emptyFiles : Covered sources totalSlots →
    (empties (allDestinations m.chunks)).Perm (empties sources.sources)
  total : Covered sources totalSlots → (m.chunks.map (·.dataSize)).sum = sources.totalSize
  once : (allCells (allDestinations m.chunks)).Subperm (allCells sources.sources)
  emptyFiles_once : (empties (allDestinations m.chunks)).Subperm (empties sources.sources)

theorem sum_dataSize (chunks : List Chunk) :
    (chunks.map (·.dataSize)).sum = total (allDestinations chunks) := by
  induction chunks with
  | nil => rfl
  | cons c chunks ih =>
    rw [List.map_cons, List.sum_cons, ih]
    simp [allDestinations, Chunk.dataSize]

/-- **A manifest blueprint partitions the sources** that its slots can hold (`Covered`): every
byte of every source and every empty source is in one chunk, once. -/
theorem prepareManifestBlueprint_deals (sources : SourcesList) (totalSlots : Nat)
    (compression : Option Compression) (hslots : 0 < totalSlots) :
    Deals sources totalSlots (prepareManifestBlueprint sources totalSlots compression) := by
  have hperm := sourceStack_perm sources.sources
  obtain ⟨left, hcells, hempties⟩ := fillSlots_takes totalSlots (sources.totalSize / totalSlots)
    (sources.totalSize / totalSlots + sources.totalSize % totalSlots) totalSlots 0
    (sourceStack sources.sources)
  refine ⟨?indexes, ?slots, ?unsized, ?cells, ?emptyFiles, ?total, ?once, ?emptyFiles_once⟩
  case indexes => rw [List.range_eq_range']; exact fillSlots_indexes ..
  case slots => exact fillSlots_length ..
  case unsized => exact fun c hc => (fillSlots_unknown _ _ _ _ _ _ c hc).1
  case cells => exact fun h => (takes_all_of_covered compression hslots h).1
  case emptyFiles => exact fun h => (takes_all_of_covered compression hslots h).2
  case total =>
    intro h
    have hall := (takes_all_of_covered compression hslots h).1.length_eq
    rw [length_allCells, length_allCells, ← sources.totalSize_eq] at hall
    rw [sum_dataSize, hall]
  case once =>
    refine List.Subperm.trans ?_ (allCells_perm hperm).subperm
    rw [← hcells]
    exact (List.sublist_append_left _ _).subperm
  case emptyFiles_once =>
    refine List.Subperm.trans ?_ (empties_perm hperm).subperm
    rw [← hempties]
    exact (List.sublist_append_left _ _).subperm

/-- Three files, one of them empty, in two slots. -/
theorem prepareManifestBlueprint_deals_three :
    let sources := sourcesList [(["a"], 2), (["b"], 0), (["c"], 3)] fun _ => false
    0 < 2 ∧ Covered sources 2 ∧ Deals sources 2 (prepareManifestBlueprint sources 2 none) :=
  ⟨by decide, .inr (.inl (by decide)), prepareManifestBlueprint_deals _ 2 none (by decide)⟩

/-- A chunk of a blueprint does not state the size of its data: ten bytes in one slot. -/
theorem prepareManifestBlueprint_unsized :
    ¬ Partitions (sourcesList [(["a"], 10)] fun _ => false) 1
      (prepareManifestBlueprint (sourcesList [(["a"], 10)] fun _ => false) 1 none) := by
  intro h
  have hsum := h.total
  have hzero : ((prepareManifestBlueprint (sourcesList [(["a"], 10)] fun _ => false) 1 none).chunks.map
      (·.size)).sum = 0 := List.sum_eq_zero_iff_forall_eq_nat.mpr (by
    intro n hn
    obtain ⟨c, hc, rfl⟩ := List.mem_map.mp hn
    exact (fillSlots_unknown _ _ _ _ _ _ c hc).1)
  rw [hzero] at hsum
  exact absurd hsum (by decide)

end Blockvisor
