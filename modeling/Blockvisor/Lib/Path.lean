/-
Paths by their components, as text names them. A text is taken apart at its
slashes, with nothing between two of them and `.` left out; `..` is resolved
when a path is joined to a directory, as it is for directories that are no
links. An absolute path replaces what it is joined to.

`join_plain` and `apart_append` say when joined paths stay in the directory,
and when none of two contains the other.
-/
import Mathlib.Data.List.Infix

namespace Path

/-- The components of a path, `..` among them. -/
def parts (s : String) : List String := ((s.toList.splitOn '/').filter fun p => p ≠ [] ∧ p ≠ ['.']).map String.ofList

def isAbsolute (s : String) : Bool := s.toList.head? = some '/'

/-- Walks from a directory by components. -/
def walk (base : List String) : List String → List String
  | [] => base
  | part :: rest => walk (if part = ".." then base.dropLast else base ++ [part]) rest

def join (base : List String) (s : String) : List String := walk (if isAbsolute s then [] else base) (parts s)

/-- Neither of two directories contains the other. -/
def Apart (p q : List String) : Prop := ¬ p <+: q ∧ ¬ q <+: p

instance (p q : List String) : Decidable (Apart p q) := inferInstanceAs (Decidable (_ ∧ _))

theorem Apart.symm {p q : List String} (h : Apart p q) : Apart q p := ⟨h.2, h.1⟩

theorem apart_append {base p q : List String} : Apart (base ++ p) (base ++ q) ↔ Apart p q := by
  unfold Apart
  rw [List.prefix_append_right_inj, List.prefix_append_right_inj]

theorem apart_single {a b : String} : Apart [a] [b] ↔ a ≠ b := by
  constructor
  · intro h hab
    exact h.1 (by rw [hab])
  · intro h
    refine ⟨fun hp => h ?_, fun hp => h ?_⟩
    · exact (List.cons.inj (hp.eq_of_length rfl)).1
    · exact (List.cons.inj (hp.eq_of_length rfl)).1.symm

theorem walk_plain {base ps : List String} (h : ".." ∉ ps) : walk base ps = base ++ ps := by
  induction ps generalizing base with
  | nil => exact (List.append_nil base).symm
  | cons p ps ih =>
    have hp : p ≠ ".." := fun hp => h (by rw [hp]; exact List.mem_cons_self ..)
    unfold walk
    rw [if_neg hp, ih fun hps => h (List.mem_cons_of_mem _ hps), List.append_assoc, List.singleton_append]

/-- What is between two separators is a part of the text. -/
theorem infix_of_mem_splitOn {l seg : List Char} {c : Char} (h : seg ∈ l.splitOn c) : seg <:+: l := by
  have hsplit : [c].intercalate (l.splitOn c) = l := List.intercalate_splitOn c
  rw [← hsplit]
  generalize l.splitOn c = segs at h
  induction segs with
  | nil => cases h
  | cons s segs ih =>
    cases segs with
    | nil =>
      rw [List.intercalate_singleton, List.mem_singleton.mp h]
    | cons s' segs =>
      rw [List.intercalate_cons_cons]
      cases List.mem_cons.mp h with
      | inl h =>
        rw [h, List.append_assoc]
        exact (List.prefix_append _ _).isInfix
      | inr h => exact (ih h).trans (List.suffix_append _ _).isInfix

theorem dots_notMem_parts {s : String} (h : ¬ "..".toList <:+: s.toList) : ".." ∉ parts s := by
  intro hmem
  unfold parts at hmem
  obtain ⟨seg, hseg, heq⟩ := List.mem_map.mp hmem
  have hdots : seg = "..".toList := by rw [← heq]; simp
  exact h (hdots ▸ infix_of_mem_splitOn (List.mem_filter.mp hseg).1)

/-- A text without a slash is one component. -/
theorem parts_single {s : String} (hslash : '/' ∉ s.toList) (hempty : s ≠ "") (hdot : s ≠ ".") : parts s = [s] := by
  have hkept : s.toList ≠ [] ∧ s.toList ≠ ['.'] := by
    constructor
    · intro h
      exact hempty (String.toList_inj.mp h)
    · intro h
      exact hdot (String.toList_inj.mp h)
  unfold parts
  rw [List.splitOn_eq_singleton hslash]
  simp [hkept.1, hkept.2]

/-- What is joined to a directory stays in it when it does not climb. -/
theorem join_plain {base : List String} {s : String} (habsolute : isAbsolute s = false) (hdots : ".." ∉ parts s) :
    join base s = base ++ parts s := by
  unfold join
  rw [habsolute]
  exact walk_plain hdots

theorem join_single {base : List String} {s : String} (hslash : '/' ∉ s.toList) (hempty : s ≠ "") (hdot : s ≠ ".")
    (hdots : s ≠ "..") : join base s = base ++ [s] := by
  have hparts := parts_single hslash hempty hdot
  have habsolute : isAbsolute s = false := by
    refine decide_eq_false fun h => hslash ?_
    exact List.mem_of_mem_head? h
  rw [join_plain habsolute (by rw [hparts]; simpa using Ne.symm hdots), hparts]

end Path
