/-
`build_destinations`, the loop itself: it looks at the last source, takes
what fits into the slot, and pops the source when nothing is left of it.

`slotPass` is one pass of the loop; `loop_ends` says that the loop ends, after
at most as many passes as there are sources, with what the recursive
`buildDestinations` gives. On that rests the result of one call
(`Dealt`: nothing lost, nothing moved, the slot filled as far as the sources
reach), and `repeatSlots`, calls one after the other on the same sources.

A slot of no bytes is full before it holds anything, so a call takes the
empty sources on top and no more: calls with a chunk size of zero never get
to the end of sources that hold a byte, and all others do
(`buildDestinations_splits`).
-/
import Blockvisor.Babel.Blueprint
import Blockvisor.Lib.Loop

namespace Blockvisor

open Extent

/-! ## The loop -/

/-- The variables of the loop. The sources are a stack, its top first. -/
structure SlotSt where
  bytesInSlot : Nat
  destinations : List FileLocation
  sources : List FileLocation
  deriving DecidableEq, Repr

/-- One pass of the loop of `build_destinations`; `none` where it ends. -/
def slotPass (chunkSize : Nat) (s : SlotSt) : Option SlotSt :=
  if s.bytesInSlot ≤ chunkSize then
    match s.sources with
    | [] => none -- no more files
    | file :: rest =>
      -- when the slot is full, only empty files can still be added
      if chunkSize ≤ s.bytesInSlot ∧ 0 < file.size then none
      else
        let destSize := min file.size (chunkSize - s.bytesInSlot)
        let left : FileLocation := { file with size := file.size - destSize, pos := file.pos + destSize }
        some
          { bytesInSlot := s.bytesInSlot + destSize
            destinations := s.destinations ++ [⟨file.path, file.pos, destSize⟩]
            sources := if left.size = 0 then rest else left :: rest }
  else none

/-- The variables before the first pass. -/
def slotStart (sources : List FileLocation) : SlotSt := ⟨0, [], sources⟩

/-- The loop ends where `buildDestinationsFrom` says. -/
theorem loop_ends_from (chunkSize : Nat) (stack : List FileLocation) :
    ∀ (bytes : Nat) (before : List FileLocation), bytes ≤ chunkSize →
      ∃ n ≤ stack.length, Loop.Ends (slotPass chunkSize) n ⟨bytes, before, stack⟩
        ⟨bytes + total (buildDestinationsFrom chunkSize bytes stack).1,
          before ++ (buildDestinationsFrom chunkSize bytes stack).1,
          (buildDestinationsFrom chunkSize bytes stack).2⟩ := by
  induction stack with
  | nil =>
    intro bytes before hb
    refine ⟨0, Nat.le_refl _, ?_⟩
    simp only [buildDestinationsFrom, total_nil, Nat.add_zero, List.append_nil]
    apply Loop.Ends.stop
    simp [slotPass]
  | cons file rest ih =>
    intro bytes before hb
    simp only [buildDestinationsFrom]
    by_cases hfull : chunkSize ≤ bytes ∧ 0 < file.size
    · -- the slot is full and the file is not empty
      rw [if_neg (by simp [hfull])]
      refine ⟨0, Nat.zero_le _, ?_⟩
      simp only [total_nil, Nat.add_zero, List.append_nil]
      apply Loop.Ends.stop
      simp [slotPass, hfull]
    rw [if_pos ⟨hb, hfull⟩]
    by_cases hfit : file.size ≤ chunkSize - bytes
    · -- the whole file goes into the slot
      have hmin : min file.size (chunkSize - bytes) = file.size := by omega
      have hpass : slotPass chunkSize ⟨bytes, before, file :: rest⟩ =
          some ⟨bytes + file.size, before ++ [⟨file.path, file.pos, file.size⟩], rest⟩ := by
        simp only [slotPass, hb, hfull, hmin, Nat.sub_self, if_true, if_false]
      obtain ⟨n, hn, hends⟩ := ih (bytes + file.size) (before ++ [⟨file.path, file.pos, file.size⟩]) (by omega)
      refine ⟨n + 1, by simp only [List.length_cons]; omega, ?_⟩
      simp only [hmin, Nat.sub_self, if_true]
      have hrun := Loop.Ends.pass hpass hends
      simpa [Nat.add_assoc] using hrun
    · -- the file fills the slot, and what is left of it ends the loop
      have hmin : min file.size (chunkSize - bytes) = chunkSize - bytes := by omega
      have hne : ¬ file.size - (chunkSize - bytes) = 0 := by omega
      have hsum : bytes + (chunkSize - bytes) = chunkSize := by omega
      have hpass : slotPass chunkSize ⟨bytes, before, file :: rest⟩ =
          some ⟨chunkSize, before ++ [⟨file.path, file.pos, chunkSize - bytes⟩],
            ⟨file.path, file.pos + (chunkSize - bytes), file.size - (chunkSize - bytes)⟩ :: rest⟩ := by
        simp only [slotPass, hb, hfull, hmin, hne, hsum, if_true, if_false]
      refine ⟨1, by simp, ?_⟩
      simp only [hmin, hne, if_false, total_cons, total_nil, Nat.add_zero, hsum]
      apply Loop.Ends.pass hpass
      apply Loop.Ends.stop
      simp only [slotPass, Nat.le_refl, if_true, true_and]
      rw [if_pos (by omega)]

theorem loop_ends (chunkSize : Nat) (sources : List FileLocation) :
    ∃ n ≤ sources.length, Loop.Ends (slotPass chunkSize) n (slotStart sources)
      ⟨total (buildDestinations chunkSize sources).1, (buildDestinations chunkSize sources).1,
        (buildDestinations chunkSize sources).2⟩ := by
  have h := loop_ends_from chunkSize sources 0 [] (Nat.zero_le _)
  simpa [buildDestinations, slotStart] using h

/-! ## The numbers of the loop -/

/-- Every number of the loop is one of 64 bits: the slot holds no more than the chunk size, and a
source ends before the last position. -/
structure SlotSt.Fits (chunkSize : Nat) (s : SlotSt) : Prop where
  slot : s.bytesInSlot ≤ chunkSize
  sources : ∀ f ∈ s.sources, f.pos + f.size < u64Size

/-- No pass runs over: a position moves towards the end of its file, which stays where it is. -/
theorem slotPass_fits {chunkSize : Nat} {s s' : SlotSt} (h : s.Fits chunkSize)
    (hs : slotPass chunkSize s = some s') : s'.Fits chunkSize := by
  obtain ⟨hslot, hsources⟩ := h
  obtain ⟨bytes, before, stack⟩ := s
  simp only [slotPass] at hs hslot hsources
  rw [if_pos hslot] at hs
  cases stack with
  | nil => cases hs
  | cons file rest =>
    simp only at hs
    split at hs
    · cases hs
    · cases hs
      have hfile := hsources file (by simp)
      constructor
      · show bytes + min file.size (chunkSize - bytes) ≤ chunkSize
        omega
      · intro f hf
        simp only at hf
        split at hf
        · exact hsources f (by simp [hf])
        · rcases List.mem_cons.mp hf with rfl | hf
          · show file.pos + min file.size (chunkSize - bytes) + (file.size - min file.size (chunkSize - bytes)) < u64Size
            omega
          · exact hsources f (by simp [hf])

/-- Sources that lie within their files stay so in every pass. -/
theorem passes_fit {chunkSize n : Nat} {sources : List FileLocation} {s : SlotSt}
    (hsources : ∀ f ∈ sources, f.pos + f.size < u64Size)
    (h : Loop.passes (slotPass chunkSize) n (slotStart sources) = some s) : s.Fits chunkSize :=
  Loop.passes_invariant (fun _ _ hs hpass => slotPass_fits hs hpass) ⟨Nat.zero_le _, hsources⟩ h

/-! ## Call after call -/

/-- `n` calls one after the other on the same sources: the destinations of each call, and the
sources left. -/
def repeatSlots (chunkSize : Nat) : Nat → List FileLocation → List (List FileLocation) × List FileLocation
  | 0, sources => ([], sources)
  | n + 1, sources =>
    let (destinations, left) := buildDestinations chunkSize sources
    let (slots, left) := repeatSlots chunkSize n left
    (destinations :: slots, left)

theorem repeatSlots_cells (chunkSize n : Nat) (sources : List FileLocation) :
    allCells (repeatSlots chunkSize n sources).1.flatten ++ allCells (repeatSlots chunkSize n sources).2 =
      allCells sources := by
  induction n generalizing sources with
  | zero => rfl
  | succ n ih =>
    have hd := buildDestinations_spec chunkSize sources
    simp only [repeatSlots, List.flatten_cons, allCells_append, List.append_assoc]
    rw [ih, hd.cells]

theorem repeatSlots_empties (chunkSize n : Nat) (sources : List FileLocation) :
    empties (repeatSlots chunkSize n sources).1.flatten ++ empties (repeatSlots chunkSize n sources).2 =
      empties sources := by
  induction n generalizing sources with
  | zero => rfl
  | succ n ih =>
    have hd := buildDestinations_spec chunkSize sources
    simp only [repeatSlots, List.flatten_cons, empties_append, List.append_assoc]
    rw [ih, hd.empties]

/-- Each call takes a chunk off what is left. -/
theorem repeatSlots_total (chunkSize n : Nat) (sources : List FileLocation) :
    total (repeatSlots chunkSize n sources).2 = total sources - n * chunkSize := by
  induction n generalizing sources with
  | zero => simp [repeatSlots]
  | succ n ih =>
    have hd := buildDestinations_spec chunkSize sources
    have htotal := hd.total
    have hsize := hd.size
    simp only [repeatSlots]
    rw [ih, Nat.add_mul, Nat.one_mul]
    omega

/-- Calls with room for everything leave nothing, not even an empty source. -/
theorem repeatSlots_empty {chunkSize : Nat} (n : Nat) {sources : List FileLocation}
    (h : total sources ≤ (n + 1) * chunkSize) : (repeatSlots chunkSize (n + 1) sources).2 = [] := by
  induction n generalizing sources with
  | zero =>
    rw [Nat.zero_add, Nat.one_mul] at h
    exact (buildDestinations_spec chunkSize sources).exhausted h
  | succ n ih =>
    have hd := buildDestinations_spec chunkSize sources
    have htotal := hd.total
    have hsize := hd.size
    rw [repeatSlots]
    apply ih
    rw [Nat.add_mul, Nat.one_mul] at h
    omega

/-- Calls come to the end of the sources just when a slot has room or there is nothing to take. -/
theorem repeatSlots_ends_iff (chunkSize : Nat) (sources : List FileLocation) :
    (∃ n, (repeatSlots chunkSize n sources).2 = []) ↔ 0 < chunkSize ∨ total sources = 0 := by
  constructor
  · rintro ⟨n, hn⟩
    have htotal := repeatSlots_total chunkSize n sources
    rw [hn, total_nil] at htotal
    by_cases h0 : chunkSize = 0
    · subst h0
      exact .inr (by omega)
    · exact .inl (Nat.pos_of_ne_zero h0)
  · intro h
    refine ⟨total sources + 1, repeatSlots_empty _ ?_⟩
    rcases h with hpos | h0
    · calc total sources ≤ total sources + 1 := Nat.le_succ _
        _ ≤ (total sources + 1) * chunkSize := Nat.le_mul_of_pos_right _ hpos
    · omega

/-! ## The split -/

/-- **`build_destinations` splits the sources exactly.** For every chunk size and every stack of
sources the loop ends, the destinations followed by what is left are the bytes and the empty files
of the sources in order, and the slot holds as much as it has room for; no number runs over 64 bits
when no source does. Calls one after the other reach the end of the sources just when the chunk size
is not zero or the sources hold no byte, and then they have dealt out everything. -/
theorem buildDestinations_splits (chunkSize : Nat) (sources : List FileLocation) :
    (∃ n ≤ sources.length, ∃ s : SlotSt, Loop.Ends (slotPass chunkSize) n (slotStart sources) s ∧
      (s.destinations, s.sources) = buildDestinations chunkSize sources ∧
      allCells s.destinations ++ allCells s.sources = allCells sources ∧
      empties s.destinations ++ empties s.sources = empties sources ∧
      total s.destinations = min chunkSize (total sources)) ∧
    ((∀ f ∈ sources, f.pos + f.size < u64Size) →
      ∀ n s, Loop.passes (slotPass chunkSize) n (slotStart sources) = some s → s.Fits chunkSize) ∧
    ((∃ n, (repeatSlots chunkSize n sources).2 = []) ↔ 0 < chunkSize ∨ total sources = 0) ∧
    (∀ n, (repeatSlots chunkSize n sources).2 = [] →
      allCells (repeatSlots chunkSize n sources).1.flatten = allCells sources ∧
      empties (repeatSlots chunkSize n sources).1.flatten = empties sources) := by
  have hd := buildDestinations_spec chunkSize sources
  refine ⟨?call, fun hsources n s => passes_fit hsources, repeatSlots_ends_iff chunkSize sources, ?repeated⟩
  case call =>
    obtain ⟨n, hn, hends⟩ := loop_ends chunkSize sources
    exact ⟨n, hn, _, hends, rfl, hd.cells, hd.empties, hd.size⟩
  case repeated =>
    intro n hn
    have hcells := repeatSlots_cells chunkSize n sources
    have hempties := repeatSlots_empties chunkSize n sources
    rw [hn] at hcells hempties
    simp only [allCells_nil, empties_nil, List.append_nil] at hcells hempties
    exact ⟨hcells, hempties⟩

/-- A slot of no bytes takes nothing of a file of one byte, however often it is tried. -/
theorem no_room_never_ends : ¬ ∃ n, (repeatSlots 0 n [⟨["a"], 0, 1⟩]).2 = [] := by
  intro h
  have hcond := (repeatSlots_ends_iff 0 [⟨["a"], 0, 1⟩]).mp h
  exact absurd hcond (by decide)

end Blockvisor
