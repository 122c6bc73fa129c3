/-
What the validation of a chunk promises the write (`DestinationValidator` and
`write_chunk_data` in `bin/snapshot/download_engine.rs`). The sizes must add up
to the data, the paths must be relative and without `..`, and of the
destinations of one path, sorted by position, each must end before the next
begins.

All of it is on 64 bits, where a sum may wrap around, and destinations are
grouped by the text of their path, of which one file has many. The writes are
as safe as claimed exactly where neither happens (`validated_safe`).
-/
import Mathlib.Data.List.Dedup
import Mathlib.Data.List.Pairwise
import Blockvisor.Lib.Path
import Blockvisor.Lib.Persist
import Blockvisor.Bv.Snapshot.DownloadEngine

namespace Blockvisor

open Extent

/-! ## A stable sort -/

section

variable {α : Type}

/-- A list without repetition has two elements in one order only. -/
theorem not_sublist_swap {l : List α} {a b : α} (hnodup : l.Nodup) (hab : List.Sublist [a, b] l) : ¬ List.Sublist [b, a] l := by
  induction l with
  | nil => cases hab
  | cons x l ih =>
    intro hba
    obtain ⟨hx, hl⟩ := List.nodup_cons.mp hnodup
    cases hab with
    | cons _ hab =>
      cases hba with
      | cons _ hba => exact ih hl hab hba
      | cons_cons _ hba => exact hx (hab.subset (by simp))
    | cons_cons _ hb =>
      cases hba with
      | cons _ hba => exact hx (hba.subset (by simp))
      | cons_cons _ ha => exact hx (ha.subset (by simp))

/-- It has them in one of the two. -/
theorem sublist_pair {l : List α} {a b : α} (ha : a ∈ l) (hb : b ∈ l) (hne : a ≠ b) : List.Sublist [a, b] l ∨ List.Sublist [b, a] l := by
  obtain ⟨front, back, heq⟩ := List.append_of_mem ha
  subst heq
  cases List.mem_append.mp hb with
  | inl hfront => exact .inr ((List.singleton_sublist.mpr hfront).append ((List.nil_sublist back).cons_cons a))
  | inr hback =>
    have hback : b ∈ back := (List.mem_cons.mp hback).resolve_left (Ne.symm hne)
    exact .inl (((List.singleton_sublist.mpr hback).cons_cons a).trans (List.sublist_append_right _ _))

/-- A stable sort by a key keeps the order of elements whose keys are equal. -/
theorem pairwise_mergeSort_lex {key index : α → Nat} {l : List α} (hl : l.Pairwise fun a b => index a < index b) :
    (l.mergeSort fun a b => key a ≤ key b).Pairwise fun a b => key a < key b ∨ (key a = key b ∧ index a < index b) := by
  have htrans : ∀ a b c : α, decide (key a ≤ key b) = true → decide (key b ≤ key c) = true → decide (key a ≤ key c) = true := by
    intro a b c hab hbc
    simp only [decide_eq_true_eq] at hab hbc ⊢
    omega
  have htotal : ∀ a b : α, (decide (key a ≤ key b) || decide (key b ≤ key a)) = true := by
    intro a b
    simp only [Bool.or_eq_true, decide_eq_true_eq]
    omega
  have hsorted := List.pairwise_mergeSort htrans htotal l
  have hnodup : l.Nodup := hl.imp fun h heq => by
    rw [heq] at h
    omega
  have hnodup' := (List.mergeSort_perm l fun a b => key a ≤ key b).nodup_iff.mpr hnodup
  refine List.pairwise_iff_forall_sublist.mpr fun {a b} hab => ?_
  have hle : key a ≤ key b := by simpa using List.pairwise_iff_forall_sublist.mp hsorted hab
  by_cases hkey : key a = key b
  · refine .inr ⟨hkey, ?_⟩
    have hmem : ∀ c ∈ [a, b], c ∈ l := fun c hc => (List.mergeSort_perm l _).mem_iff.mp (hab.subset hc)
    have hne : a ≠ b := by
      have htwo := hnodup'.sublist hab
      simpa using htwo
    cases sublist_pair (hmem a (by simp)) (hmem b (by simp)) hne with
    | inl hin => exact List.pairwise_iff_forall_sublist.mp hl hin
    | inr hin =>
      have hswap : List.Sublist [b, a] (l.mergeSort fun a b => key a ≤ key b) :=
        List.pair_sublist_mergeSort htrans htotal (decide_eq_true (by omega)) hin
      exact absurd hswap (not_sublist_swap hnodup' hab)
  · omega

end

namespace DownloadEngine

/-! ## What the validation has checked -/

/-- The destinations of one path, sorted by position, each with its index. -/
def group (destinations : List ChunkTarget) (path : String) : List (Nat × ChunkTarget) :=
  ((destinations.zipIdx.map Prod.swap).filter (·.2.path = path)).mergeSort fun a b => a.2.positionBytes ≤ b.2.positionBytes

/-- One destination comes before another in the order of positions. -/
def Precedes (a b : Nat × ChunkTarget) : Prop :=
  a.2.positionBytes < b.2.positionBytes ∨ (a.2.positionBytes = b.2.positionBytes ∧ a.1 < b.1)

variable {destinations : List ChunkTarget} {a b : Nat × ChunkTarget}

theorem mem_group {path : String} : a ∈ group destinations path ↔ destinations[a.1]? = some a.2 ∧ a.2.path = path := by
  obtain ⟨i, d⟩ := a
  unfold group
  rw [List.mem_mergeSort, List.mem_filter, List.mem_map]
  constructor
  · intro ⟨⟨⟨d', i'⟩, hmem, heq⟩, hpath⟩
    cases heq
    exact ⟨List.mem_zipIdx_iff_getElem?.mp hmem, of_decide_eq_true hpath⟩
  · intro ⟨hget, hpath⟩
    exact ⟨⟨(d, i), List.mem_zipIdx_iff_getElem?.mpr hget, rfl⟩, decide_eq_true hpath⟩

theorem group_sorted (destinations : List ChunkTarget) (path : String) : (group destinations path).Pairwise Precedes := by
  refine pairwise_mergeSort_lex (List.Pairwise.filter _ ?_)
  rw [List.pairwise_map]
  have hindex := List.pairwise_map.mp (by rw [List.zipIdx_map_snd]; exact List.pairwise_lt_range' : (destinations.zipIdx.map Prod.snd).Pairwise (· < ·))
  exact hindex

/-- Neighbours of a group do not overlap, by what their ends are on 64 bits. -/
theorem findOverlap_none {entries : List (Nat × ChunkTarget)} (h : findOverlap entries = none) :
    ∀ front a b back, entries = front ++ a :: b :: back → (a.2.positionBytes + a.2.sizeBytes) % u64Size ≤ b.2.positionBytes := by
  fun_induction findOverlap entries with
  | case1 idx1 dest1 idx2 dest2 rest hlt => cases h
  | case2 idx1 dest1 idx2 dest2 rest hge ih =>
    intro front a b back heq
    cases front with
    | nil =>
      cases heq
      exact Nat.not_lt.mp hge
    | cons x front =>
      rw [List.cons_append, List.cons.injEq] at heq
      exact ih h front a b back heq.2
  | case3 entries hshort =>
    intro front a b back heq
    subst heq
    cases front with
    | nil => exact absurd rfl (hshort _ _ _ _ _)
    | cons x front =>
      cases front with
      | nil => exact absurd rfl (hshort _ _ _ _ _)
      | cons y front => exact absurd rfl (hshort _ _ _ _ _)

/-- The checks of an accepted chunk, one by one. -/
theorem valid_checks {chunkIdx decompressedSize : Nat} (h : validateDestinationsComprehensive chunkIdx destinations decompressedSize = .ok ()) :
    (∀ d ∈ destinations, validateDestinationPath d.path = .ok ()) ∧ validateNoOverlaps chunkIdx destinations = .ok () := by
  unfold validateDestinationsComprehensive at h
  obtain ⟨u, _, h⟩ := Except.of_bind_ok h
  obtain ⟨v, hpaths, hoverlaps⟩ := Except.of_bind_ok h
  refine ⟨fun d hd => ?_, hoverlaps⟩
  have hchecks := Except.forall_of_forM hpaths d hd
  obtain ⟨w, hpath, _⟩ := Except.of_bind_ok hchecks
  exact hpath

theorem parsePath_eq (path : String) : parsePath path = Path.parts path := by
  unfold parsePath Path.parts
  rw [List.filter_map]
  congr 1
  refine List.filter_congr fun p _ => ?_
  have hempty : String.ofList p = "" ↔ p = [] := by rw [← String.toList_inj, String.toList_ofList]; rfl
  have hdot : String.ofList p = "." ↔ p = ['.'] := by rw [← String.toList_inj, String.toList_ofList]; rfl
  simp [hempty, hdot]

/-- A path that is accepted stays in the directory it is joined to. -/
theorem join_of_valid {path : String} (h : validateDestinationPath path = .ok ()) (outputDir : PathBuf) :
    Path.join outputDir path = outputDir ++ parsePath path := by
  unfold validateDestinationPath at h
  split at h
  · cases h
  rename_i hdots
  split at h
  · cases h
  rename_i habsolute
  rw [parsePath_eq]
  exact Path.join_plain (by unfold Path.isAbsolute; exact decide_eq_false habsolute) (Path.dots_notMem_parts hdots)

theorem noOverlaps_group {chunkIdx : Nat} (h : validateNoOverlaps chunkIdx destinations = .ok ()) {path : String}
    (hpath : path ∈ destinations.map (·.path)) : findOverlap (group destinations path) = none := by
  unfold validateNoOverlaps at h
  dsimp only at h
  split at h
  · cases h
  · rename_i hnone
    refine List.findSome?_eq_none_iff.mp hnone (group destinations path) ?_
    exact List.mem_map.mpr ⟨path, List.mem_dedup.mpr hpath, rfl⟩

/-! ## Whether the writes are safe -/

/-- The destination has the byte at this position of its file. -/
def covers (d : ChunkTarget) (pos : Nat) : Prop := d.positionBytes ≤ pos ∧ pos < d.positionBytes + d.sizeBytes

/-- **What is expected of a chunk that was accepted**, and of the write of its data. -/
structure ChunkSafe (outputDir : PathBuf) (chunkIdx : Nat) (chunk : ArchiveChunk) (data : Bytes) : Prop where
  /-- neither out of bounds nor incomplete -/
  consumed : (writeChunkData chunkIdx chunk data).2 = .ok ()
  inside : ∀ w ∈ (writeChunkData chunkIdx chunk data).1, ∃ d ∈ chunk.destinations,
    w.1.path = parsePath d.path ∧ Path.join outputDir d.path = outputDir ++ w.1.path
  sizes : (chunk.destinations.map (·.sizeBytes)).sum < u64Size
  /-- an end is computed for all but the last destination of a path -/
  ends : ∀ path front a b back, group chunk.destinations path = front ++ a :: b :: back →
    a.2.positionBytes + a.2.sizeBytes < u64Size
  apart : ∀ (i j : Nat) (a b : ChunkTarget), i ≠ j → chunk.destinations[i]? = some a → chunk.destinations[j]? = some b →
    Path.join outputDir a.path = Path.join outputDir b.path → ∀ pos, ¬ (covers a pos ∧ covers b pos)

/-- Nothing wraps around, and no file that has two names is written twice at a byte. -/
structure Plain (outputDir : PathBuf) (destinations : List ChunkTarget) : Prop where
  sizes : (destinations.map (·.sizeBytes)).sum < u64Size
  ends : ∀ (i j : Nat) (a b : ChunkTarget), destinations[i]? = some a → destinations[j]? = some b → a.path = b.path →
    Precedes (i, a) (j, b) → a.positionBytes + a.sizeBytes < u64Size
  aliases : ∀ (i j : Nat) (a b : ChunkTarget), destinations[i]? = some a → destinations[j]? = some b → a.path ≠ b.path →
    Path.join outputDir a.path = Path.join outputDir b.path → ∀ pos, ¬ (covers a pos ∧ covers b pos)

variable {outputDir : PathBuf} {chunkIdx : Nat} {chunk : ArchiveChunk} {data : Bytes}

/-- The ends that are computed are those of destinations that another one of the path follows. -/
theorem ends_iff :
    (∀ path front a b back, group destinations path = front ++ a :: b :: back → a.2.positionBytes + a.2.sizeBytes < u64Size) ↔
      ∀ (i j : Nat) (a b : ChunkTarget), destinations[i]? = some a → destinations[j]? = some b → a.path = b.path →
        Precedes (i, a) (j, b) → a.positionBytes + a.sizeBytes < u64Size := by
  constructor
  · intro h i j a b ha hb hpath hprecedes
    have hmem : (i, a) ∈ group destinations a.path := mem_group.mpr ⟨ha, rfl⟩
    have hmem' : (j, b) ∈ group destinations a.path := mem_group.mpr ⟨hb, hpath.symm⟩
    obtain ⟨front, back, heq⟩ := List.append_of_mem hmem
    have hsorted := group_sorted destinations a.path
    rw [heq, List.pairwise_append] at hsorted
    cases back with
    | cons c back => exact h a.path front (i, a) c back heq
    | nil =>
      -- the other one would have to come before
      rw [heq, List.mem_append] at hmem'
      unfold Precedes at hprecedes
      cases hmem' with
      | inl hfront =>
        have hbefore := hsorted.2.2 _ hfront (i, a) (by simp)
        unfold Precedes at hbefore
        dsimp only at hprecedes hbefore
        omega
      | inr hself =>
        cases List.mem_singleton.mp hself
        omega
  · intro h path front a b back heq
    have hsorted := group_sorted destinations path
    have hmem : ∀ c ∈ [a, b], c ∈ group destinations path := by
      intro c hc
      rw [heq]
      exact List.mem_append_right _ ((List.prefix_append [a, b] back).subset hc)
    obtain ⟨ha, hapath⟩ := mem_group.mp (hmem a (by simp))
    obtain ⟨hb, hbpath⟩ := mem_group.mp (hmem b (by simp))
    rw [heq, List.pairwise_append] at hsorted
    exact h a.1 b.1 a.2 b.2 ha hb (hapath.trans hbpath.symm) (List.rel_of_pairwise_cons hsorted.2.1 List.mem_cons_self)

/-- Destinations of one path do not overlap, where no end wraps around. -/
theorem group_apart {path : String} (hnone : findOverlap (group destinations path) = none)
    (hends : ∀ front a b back, group destinations path = front ++ a :: b :: back → a.2.positionBytes + a.2.sizeBytes < u64Size) :
    (group destinations path).Pairwise fun a b => a.2.positionBytes + a.2.sizeBytes ≤ b.2.positionBytes := by
  have hnext : ∀ front a b back, group destinations path = front ++ a :: b :: back →
      a.2.positionBytes + a.2.sizeBytes ≤ b.2.positionBytes := by
    intro front a b back heq
    have hle := findOverlap_none hnone front a b back heq
    rwa [Nat.mod_eq_of_lt (hends front a b back heq)] at hle
  generalize group destinations path = entries at hnext
  induction entries with
  | nil => exact .nil
  | cons a entries ih =>
    have hrest := ih fun front b c back heq => hnext (a :: front) b c back (by rw [heq]; rfl)
    refine List.pairwise_cons.mpr ⟨fun c hc => ?_, hrest⟩
    cases entries with
    | nil => cases hc
    | cons b entries =>
      have hab := hnext [] a b entries rfl
      cases List.mem_cons.mp hc with
      | inl heq => rw [heq]; exact hab
      | inr hmem =>
        have hbc := List.rel_of_pairwise_cons hrest hmem
        omega

theorem Plain.safe (hvalid : validateDestinationsComprehensive chunkIdx chunk.destinations data.length = .ok ())
    (h : Plain outputDir chunk.destinations) : ChunkSafe outputDir chunkIdx chunk data := by
  obtain ⟨hpaths, hoverlaps⟩ := valid_checks hvalid
  have hsum : total (chunk.destinations.map ChunkTarget.location) = (chunk.destinations.map (·.sizeBytes)).sum := by
    unfold total
    rw [List.map_map]
    rfl
  have htotal : total (chunk.destinations.map ChunkTarget.location) = data.length := by
    rw [← size_of_valid hvalid, Nat.mod_eq_of_lt]
    rw [hsum]
    exact h.sizes
  obtain ⟨writes, hrun, hfst, _, _⟩ := writeChunkData_ok chunkIdx htotal (by rw [← htotal, hsum]; exact h.sizes)
  refine ⟨by rw [hrun], fun w hw => ?_, h.sizes, ends_iff.mpr h.ends, fun i j a b hij ha hb hfile pos hcovers => ?_⟩
  · rw [hrun] at hw
    have hlocation : w.1 ∈ writes.map (·.1) := List.mem_map_of_mem hw
    rw [hfst] at hlocation
    obtain ⟨d, hd, heq⟩ := List.mem_map.mp (List.mem_filter.mp hlocation).1
    have hpath : w.1.path = parsePath d.path := by rw [← heq]; rfl
    refine ⟨d, hd, hpath, ?_⟩
    rw [hpath]
    exact join_of_valid (hpaths d hd) outputDir
  · by_cases hpath : a.path = b.path
    · have hlisted : a.path ∈ chunk.destinations.map (·.path) := List.mem_map_of_mem (List.mem_of_getElem? ha)
      have hnone := noOverlaps_group hoverlaps hlisted
      have hpairs := group_apart hnone fun front a' b' back heq => ends_iff.mpr h.ends a.path front a' b' back heq
      have hmem : (i, a) ∈ group chunk.destinations a.path := mem_group.mpr ⟨ha, rfl⟩
      have hmem' : (j, b) ∈ group chunk.destinations a.path := mem_group.mpr ⟨hb, hpath.symm⟩
      unfold covers at hcovers
      cases sublist_pair hmem hmem' (fun heq => hij (Prod.mk.inj heq).1) with
      | inl hsub =>
        have hle := List.pairwise_iff_forall_sublist.mp hpairs hsub
        dsimp only at hle
        omega
      | inr hsub =>
        have hle := List.pairwise_iff_forall_sublist.mp hpairs hsub
        dsimp only at hle
        omega
    · exact h.aliases i j a b ha hb hpath hfile pos hcovers

theorem ChunkSafe.plain (h : ChunkSafe outputDir chunkIdx chunk data) : Plain outputDir chunk.destinations := by
  refine ⟨h.sizes, ends_iff.mp h.ends, fun i j a b ha hb hpath hfile => ?_⟩
  have hij : i ≠ j := by
    intro hij
    subst hij
    rw [ha] at hb
    exact hpath (by rw [Option.some.inj hb])
  exact h.apart i j a b hij ha hb hfile

/-- **A chunk that was accepted is safe to write** exactly if nothing wraps around and no two names of a file
overlap. -/
theorem validated_safe (hvalid : validateDestinationsComprehensive chunkIdx chunk.destinations data.length = .ok ())
    (outputDir : PathBuf) : ChunkSafe outputDir chunkIdx chunk data ↔ Plain outputDir chunk.destinations :=
  ⟨ChunkSafe.plain, Plain.safe hvalid⟩

/-- A chunk with two destinations of ten bytes each. -/
def twoTargets (a b : ChunkTarget) : ArchiveChunk := ⟨0, "chunk", none, none, 20, [a, b]⟩

theorem validated_safe_two : ChunkSafe ["out"] 0 (twoTargets ⟨"a/b", 0, 10⟩ ⟨"c", 5, 10⟩) (List.replicate 20 7) := by
  have hvalid : validateDestinationsComprehensive 0 (twoTargets ⟨"a/b", 0, 10⟩ ⟨"c", 5, 10⟩).destinations
      (List.replicate 20 (7 : UInt8)).length = .ok () := by
    decide +kernel
  have hends : ∀ d ∈ (twoTargets ⟨"a/b", 0, 10⟩ ⟨"c", 5, 10⟩).destinations, d.positionBytes + d.sizeBytes < u64Size := by
    decide +kernel
  have hfiles : ∀ a ∈ (twoTargets ⟨"a/b", 0, 10⟩ ⟨"c", 5, 10⟩).destinations,
      ∀ b ∈ (twoTargets ⟨"a/b", 0, 10⟩ ⟨"c", 5, 10⟩).destinations, a.path ≠ b.path →
        Path.join ["out"] a.path ≠ Path.join ["out"] b.path := by
    decide +kernel
  refine (validated_safe hvalid ["out"]).mpr ⟨by decide +kernel, fun i j a b ha _ _ _ => ?_, fun i j a b ha hb hpath hfile => ?_⟩
  · exact hends a (List.mem_of_getElem? ha)
  · exact absurd hfile (hfiles a (List.mem_of_getElem? ha) b (List.mem_of_getElem? hb) hpath)

/-- One file under two names, of which both have the byte at 5. -/
theorem validated_twice :
    validateDestinationsComprehensive 0 (twoTargets ⟨"a/b", 0, 10⟩ ⟨"a//b", 5, 10⟩).destinations 20 = .ok () ∧
      ¬ ChunkSafe ["out"] 0 (twoTargets ⟨"a/b", 0, 10⟩ ⟨"a//b", 5, 10⟩) (List.replicate 20 7) := by
  constructor
  · decide +kernel
  · intro h
    have hfile : Path.join ["out"] "a/b" = Path.join ["out"] "a//b" := by decide +kernel
    exact h.apart 0 1 ⟨"a/b", 0, 10⟩ ⟨"a//b", 5, 10⟩ (by decide) rfl rfl hfile 5 ⟨⟨by decide, by decide⟩, ⟨by decide, by decide⟩⟩

end DownloadEngine

end Blockvisor
