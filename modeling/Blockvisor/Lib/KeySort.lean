/-
Sorting by a key. The sort is stable: what has one key stays in its order
(`filter_sortByKey`). So a list comes out the same in every order that it may
come in exactly if it has no two different things of one key
(`sortByKey_canonical_iff`).
-/
import Mathlib.Data.List.Perm.Basic
import Mathlib.Order.Defs.LinearOrder
import Mathlib.Order.Lattice

namespace KeySort

variable {α κ : Type} [LinearOrder κ] {key : α → κ} {l l' : List α}

def sortByKey (key : α → κ) (l : List α) : List α := l.mergeSort fun a b => key a ≤ key b

theorem sortByKey_perm (key : α → κ) (l : List α) : (sortByKey key l).Perm l := List.mergeSort_perm _ _

theorem leKey_trans (key : α → κ) (a b c : α) (hab : decide (key a ≤ key b) = true) (hbc : decide (key b ≤ key c) = true) :
    decide (key a ≤ key c) = true :=
  decide_eq_true (le_trans (of_decide_eq_true hab) (of_decide_eq_true hbc))

theorem leKey_total (key : α → κ) (a b : α) : (decide (key a ≤ key b) || decide (key b ≤ key a)) = true := by
  simpa using le_total (key a) (key b)

theorem pairwise_sortByKey (key : α → κ) (l : List α) : (sortByKey key l).Pairwise fun a b => key a ≤ key b := by
  have hsorted := List.pairwise_mergeSort (leKey_trans key) (leKey_total key) l
  exact hsorted.imp fun h => of_decide_eq_true h

theorem sortByKey_idem (key : α → κ) (l : List α) : sortByKey key (sortByKey key l) = sortByKey key l := by
  refine List.mergeSort_of_pairwise ?_
  exact (pairwise_sortByKey key l).imp fun h => decide_eq_true h

theorem perm_of_sortByKey_eq (h : sortByKey key l = sortByKey key l') : l.Perm l' :=
  (sortByKey_perm key l).symm.trans (h ▸ sortByKey_perm key l')

theorem sortByKey_eq_of_perm (h : l.Perm l') (hkeys : ∀ a ∈ l, ∀ b ∈ l, key a = key b → a = b) :
    sortByKey key l = sortByKey key l' := by
  refine List.Perm.eq_of_pairwise (fun a b ha hb hab hba => ?_) (pairwise_sortByKey key l) (pairwise_sortByKey key l')
    (((sortByKey_perm key l).trans h).trans (sortByKey_perm key l').symm)
  have hmem : b ∈ l := h.mem_iff.mpr ((sortByKey_perm key l').mem_iff.mp hb)
  exact hkeys a ((sortByKey_perm key l).mem_iff.mp ha) b hmem (le_antisymm hab hba)

/-- What has one key stays in its order. -/
theorem filter_sortByKey (key : α → κ) (l : List α) (k : κ) :
    (sortByKey key l).filter (fun a => key a = k) = l.filter fun a => key a = k := by
  have hsame : (l.filter fun a => key a = k).Pairwise fun a b => decide (key a ≤ key b) = true := by
    refine List.pairwise_of_forall_mem_list fun a ha b hb => ?_
    have hka : key a = k := by simpa using (List.mem_filter.mp ha).2
    have hkb : key b = k := by simpa using (List.mem_filter.mp hb).2
    exact decide_eq_true (le_of_eq (hka.trans hkb.symm))
  have hsub := List.sublist_mergeSort (leKey_trans key) (leKey_total key) hsame List.filter_sublist
  have hfilter := hsub.filter fun a => decide (key a = k)
  rw [List.filter_filter, List.filter_congr (q := fun a => decide (key a = k)) (fun a _ => by simp)] at hfilter
  exact (hfilter.eq_of_length ((sortByKey_perm key l).filter _).length_eq.symm).symm

/-- A list is sorted to the same in every order exactly if it has no two different things of one key. -/
theorem sortByKey_canonical_iff :
    (∀ l', l.Perm l' → sortByKey key l = sortByKey key l') ↔ ∀ a ∈ l, ∀ b ∈ l, key a = key b → a = b := by
  refine ⟨fun hsort => ?_, fun hkeys l' h => sortByKey_eq_of_perm h hkeys⟩
  -- of two things of one key, with the second in the place of the first
  have hordered : ∀ front mid back : List α, ∀ a b, l = front ++ a :: (mid ++ b :: back) → key a = key b → a = b := by
    intro front mid back a b hl hkey
    have hswap : l.Perm (front ++ b :: (mid ++ a :: back)) := by
      rw [hl]
      refine List.Perm.append_left front ?_
      have hmove : ∀ x y : α, (x :: (mid ++ y :: back)).Perm (x :: y :: (mid ++ back)) := fun x y =>
        List.Perm.cons x List.perm_middle
      exact ((hmove a b).trans (List.Perm.swap b a _)).trans (hmove b a).symm
    have hfilter := congrArg (List.filter fun x => key x = key a) (hsort _ hswap)
    rw [filter_sortByKey, filter_sortByKey, hl] at hfilter
    simp only [List.filter_append, List.filter_cons, hkey, decide_true, if_true] at hfilter
    exact (List.cons.inj (List.append_cancel_left hfilter)).1
  intro a ha b hb hkey
  obtain ⟨front, back, hl⟩ := List.append_of_mem ha
  rw [hl] at hb
  cases List.mem_append.mp hb with
  | inl hfront =>
    obtain ⟨front, mid, rfl⟩ := List.append_of_mem hfront
    exact (hordered front mid back b a (by rw [hl, List.append_assoc, List.cons_append]) hkey.symm).symm
  | inr hrest =>
    cases List.mem_cons.mp hrest with
    | inl heq => exact heq.symm
    | inr hback =>
      obtain ⟨mid, back, rfl⟩ := List.append_of_mem hback
      exact hordered front mid back a b hl hkey

end KeySort
