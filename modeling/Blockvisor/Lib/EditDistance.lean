/-
The edit distance of two lists: the least number of insertions, deletions and
substitutions that lead from one to the other (`distance_isLeast`). It is
computed from the heads on; from the ends it is the same (`distance_reverse`).
-/
import Mathlib.Data.List.Basic
import Mathlib.Order.Bounds.Basic

namespace EditDistance

variable {α : Type}

/-- One thing is inserted, deleted, or replaced by another. -/
inductive Edit : List α → List α → Prop
  | insertion (front back : List α) (c : α) : Edit (front ++ back) (front ++ c :: back)
  | deletion (front back : List α) (c : α) : Edit (front ++ c :: back) (front ++ back)
  | substitution (front back : List α) (c d : α) : Edit (front ++ c :: back) (front ++ d :: back)

/-- So many edits lead from one list to the other. -/
inductive Edits : Nat → List α → List α → Prop
  | refl (a : List α) : Edits 0 a a
  | step {n : Nat} {a b c : List α} (h : Edit a b) (hrest : Edits n b c) : Edits (n + 1) a c

theorem Edit.cons {a b : List α} (x : α) (h : Edit a b) : Edit (x :: a) (x :: b) := by
  cases h with
  | insertion front back c => exact .insertion (x :: front) back c
  | deletion front back c => exact .deletion (x :: front) back c
  | substitution front back c d => exact .substitution (x :: front) back c d

theorem Edits.cons {n : Nat} {a b : List α} (x : α) (h : Edits n a b) : Edits n (x :: a) (x :: b) := by
  induction h with
  | refl a => exact .refl _
  | step h _ ih => exact .step (h.cons x) ih

theorem Edit.reverse {a b : List α} (h : Edit a b) : Edit a.reverse b.reverse := by
  cases h with
  | insertion front back c => simpa using Edit.insertion back.reverse front.reverse c
  | deletion front back c => simpa using Edit.deletion back.reverse front.reverse c
  | substitution front back c d => simpa using Edit.substitution back.reverse front.reverse c d

theorem Edits.reverse {n : Nat} {a b : List α} (h : Edits n a b) : Edits n a.reverse b.reverse := by
  induction h with
  | refl a => exact .refl _
  | step h _ ih => exact .step h.reverse ih

theorem edits_insert (b : List α) : Edits b.length [] b := by
  induction b with
  | nil => exact .refl _
  | cons y b ih => exact .step (.insertion [] [] y) (ih.cons y)

theorem edits_delete (a : List α) : Edits a.length a [] := by
  induction a with
  | nil => exact .refl _
  | cons x a ih => exact .step (.deletion [] a x) ih

variable [DecidableEq α]

def distance : List α → List α → Nat
  | [], b => b.length
  | x :: a, [] => (x :: a).length
  | x :: a, y :: b =>
    min (min (distance a (y :: b) + 1) (distance (x :: a) b + 1)) (distance a b + if x = y then 0 else 1)
termination_by a b => a.length + b.length

variable {a b : List α}

@[simp] theorem distance_nil_left (b : List α) : distance [] b = b.length := by rw [distance]

@[simp] theorem distance_nil_right (a : List α) : distance a [] = a.length := by
  cases a with
  | nil => rw [distance]
  | cons x a => rw [distance]

theorem distance_cons_cons (x y : α) (a b : List α) : distance (x :: a) (y :: b) =
    min (min (distance a (y :: b) + 1) (distance (x :: a) b + 1)) (distance a b + if x = y then 0 else 1) := by
  rw [distance]

theorem distance_self (a : List α) : distance a a = 0 := by
  induction a with
  | nil => rw [distance_nil_left, List.length_nil]
  | cons x a ih =>
    rw [distance_cons_cons, ih, if_pos rfl]
    omega

/-! ## So many edits are enough -/

theorem edits_distance (a b : List α) : Edits (distance a b) a b := by
  fun_induction distance a b with
  | case1 b => exact edits_insert b
  | case2 x a => exact edits_delete (x :: a)
  | case3 x a y b ihdelete ihinsert ihkeep =>
    have hdelete := Edits.step (.deletion [] a x) ihdelete
    have hinsert := Edits.step (.insertion [] (x :: a) y) (ihinsert.cons y)
    have hkeep : Edits (distance a b + if x = y then 0 else 1) (x :: a) (y :: b) := by
      by_cases hxy : x = y
      · rw [if_pos hxy, hxy]
        exact ihkeep.cons y
      · rw [if_neg hxy]
        exact .step (.substitution [] a x y) (ihkeep.cons y)
    -- the least of the three
    have hleast : ∀ p q : Nat, min p q = p ∨ min p q = q := fun p q => by omega
    obtain hmin | hmin := hleast (min (distance a (y :: b) + 1) (distance (x :: a) b + 1)) (distance a b + if x = y then 0 else 1)
    · rw [hmin]
      obtain hmin | hmin := hleast (distance a (y :: b) + 1) (distance (x :: a) b + 1)
      · rwa [hmin]
      · rwa [hmin]
    · rwa [hmin]

/-! ## Fewer are not -/

theorem distance_cons_left_le (x : α) (a b : List α) : distance (x :: a) b ≤ distance a b + 1 := by
  cases b with
  | nil => simp
  | cons y b =>
    rw [distance_cons_cons]
    omega

theorem distance_cons_right_le (a : List α) (y : α) (b : List α) : distance a (y :: b) ≤ distance a b + 1 := by
  cases a with
  | nil => simp
  | cons x a =>
    rw [distance_cons_cons]
    omega

theorem distance_le_cons_left (x : α) (a b : List α) : distance a b ≤ distance (x :: a) b + 1 := by
  induction b with
  | nil =>
    simp only [distance_nil_right, List.length_cons]
    omega
  | cons y b ih =>
    have hright := distance_cons_right_le a y b
    rw [distance_cons_cons]
    omega

theorem distance_substitute (x y : α) (a b : List α) : distance (x :: a) b ≤ distance (y :: a) b + 1 := by
  induction b with
  | nil => simp
  | cons z b ih =>
    rw [distance_cons_cons x, distance_cons_cons y]
    split <;> split <;> omega

/-- What a change costs at most, it costs behind a common head. -/
theorem distance_cons_mono (x : α) (h : ∀ c, distance a c ≤ distance b c + 1) (c : List α) :
    distance (x :: a) c ≤ distance (x :: b) c + 1 := by
  induction c with
  | nil =>
    have hlength := h []
    simp only [distance_nil_right, List.length_cons] at hlength ⊢
    omega
  | cons z c ih =>
    have hdelete := h (z :: c)
    have hkeep := h c
    rw [distance_cons_cons x z a, distance_cons_cons x z b]
    omega

/-- One edit brings a list nearer by one at most. -/
theorem distance_edit (h : Edit a b) (c : List α) : distance a c ≤ distance b c + 1 := by
  have hfront : ∀ {a b : List α}, (∀ c, distance a c ≤ distance b c + 1) → ∀ (front : List α) c,
      distance (front ++ a) c ≤ distance (front ++ b) c + 1 := by
    intro a b h front
    induction front with
    | nil => exact h
    | cons x front ih => exact distance_cons_mono x ih
  cases h with
  | insertion front back d => exact hfront (distance_le_cons_left d back) front c
  | deletion front back d => exact hfront (distance_cons_left_le d back) front c
  | substitution front back d e => exact hfront (distance_substitute d e back) front c

theorem distance_le_of_edits {n : Nat} (h : Edits n a b) : distance a b ≤ n := by
  induction h with
  | refl a => rw [distance_self]
  | step h _ ih => exact (distance_edit h _).trans (Nat.succ_le_succ ih)

/-- **The distance is the least number of edits.** -/
theorem distance_isLeast (a b : List α) : IsLeast {n | Edits n a b} (distance a b) :=
  ⟨edits_distance a b, fun _ h => distance_le_of_edits h⟩

theorem distance_reverse (a b : List α) : distance a.reverse b.reverse = distance a b := by
  have hle : ∀ a b : List α, distance a.reverse b.reverse ≤ distance a b := fun a b =>
    distance_le_of_edits (edits_distance a b).reverse
  have hback := hle a.reverse b.reverse
  rw [List.reverse_reverse, List.reverse_reverse] at hback
  exact Nat.le_antisymm (hle a b) hback

end EditDistance
