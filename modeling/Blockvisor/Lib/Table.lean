/-
Finite maps with one type of values, and sums over their values.
`Table.total_congr` says that such a sum depends on the lookups only.
-/
import Mathlib.Algebra.GroupWithZero.Nat
import Mathlib.Data.List.AList
import Mathlib.Algebra.BigOperators.Group.List.Basic

abbrev Table (κ α : Type) := AList fun _ : κ => α

namespace Table

variable {κ α β : Type} [DecidableEq κ]

theorem lookup_insert_ite (k k' : κ) (a : α) (t : Table κ α) :
    (t.insert k a).lookup k' = if k' = k then some a else t.lookup k' := by
  split
  · rename_i h
    rw [h, AList.lookup_insert]
  · rename_i h
    exact AList.lookup_insert_ne h

theorem lookup_erase_ite (k k' : κ) (t : Table κ α) : (t.erase k).lookup k' = if k' = k then none else t.lookup k' := by
  split
  · rename_i h
    rw [h, AList.lookup_erase]
  · rename_i h
    exact AList.lookup_erase_ne h

/-- The sum over the values. -/
def total (f : α → Nat) (t : Table κ α) : Nat := (t.entries.map fun e => f e.2).sum

/-- Sums agree when all the lookups do. -/
theorem total_congr {f : α → Nat} {g : β → Nat} {t : Table κ α} {u : Table κ β}
    (h : ∀ k, (t.lookup k).map f = (u.lookup k).map g) : total f t = total g u := by
  have hkeys : ∀ {γ : Type} (f : γ → Nat) (l : List (Sigma fun _ : κ => γ)), l.NodupKeys →
      (l.map fun e => (⟨e.1, f e.2⟩ : Sigma fun _ : κ => Nat)).NodupKeys := by
    intro γ f l hl
    rw [List.NodupKeys, List.keys, List.map_map]
    exact hl
  have hperm : (t.entries.map fun e => (⟨e.1, f e.2⟩ : Sigma fun _ : κ => Nat)).Perm
      (u.entries.map fun e => ⟨e.1, g e.2⟩) := by
    refine List.lookup_ext (hkeys f _ t.nodupKeys) (hkeys g _ u.nodupKeys) fun k n => ?_
    have hlookup : ∀ {γ : Type} (f : γ → Nat) (l : List (Sigma fun _ : κ => γ)),
        (l.map fun e => (⟨e.1, f e.2⟩ : Sigma fun _ : κ => Nat)).dlookup k = (l.dlookup k).map f :=
      fun f l => List.dlookup_map₂ (f := fun _ => f) k
    rw [hlookup, hlookup]
    exact iff_of_eq (congrArg (n ∈ ·) (h k))
  have hsum := (hperm.map fun e => e.2).sum_eq
  rw [List.map_map, List.map_map] at hsum
  exact hsum

theorem total_insert_new {f : α → Nat} {t : Table κ α} {k : κ} (a : α) (h : t.lookup k = none) :
    total f (t.insert k a) = f a + total f t := by
  unfold total
  rw [AList.entries_insert_of_notMem (AList.lookup_eq_none.mp h), List.map_cons, List.sum_cons]

/-- A value exchanged for another one changes the sum by just these. -/
theorem total_insert {f : α → Nat} {t : Table κ α} {k : κ} {b : α} (a : α) (h : t.lookup k = some b) :
    total f (t.insert k a) + f b = total f t + f a := by
  have hold : total f t = f b + total f (t.erase k) := by
    rw [← total_insert_new b (AList.lookup_erase k t)]
    refine total_congr fun k' => ?_
    rw [lookup_insert_ite, lookup_erase_ite]
    by_cases hk : k' = k
    · rw [if_pos hk, hk, h]
    · rw [if_neg hk, if_neg hk]
  have hnew : total f (t.insert k a) = f a + total f (t.erase k) := by
    rw [← total_insert_new a (AList.lookup_erase k t)]
    refine total_congr fun k' => ?_
    rw [lookup_insert_ite, lookup_insert_ite, lookup_erase_ite]
    by_cases hk : k' = k
    · rw [if_pos hk, if_pos hk]
    · rw [if_neg hk, if_neg hk, if_neg hk]
  omega

end Table
