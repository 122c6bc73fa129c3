/-
Relations without a cycle. When no step of a relation climbs to a higher level,
a cycle stays on one level: the relation has none if its levels have none
(`acyclic_of_levels`).
-/
import Mathlib.Logic.Relation

open Relation

variable {α : Type} {r s : α → α → Prop}

/-- No way leads back to where it began. -/
def Acyclic (r : α → α → Prop) : Prop := ∀ a, ¬ TransGen r a a

theorem Acyclic.mono (h : Acyclic s) (hrs : ∀ a b, r a b → s a b) : Acyclic r :=
  fun a hcycle => h a (TransGen.mono hrs a a hcycle)

/-- A way that ends on the level it began on has not left it. -/
theorem transGen_level {rank : α → Nat} (h : ∀ a b, r a b → rank b ≤ rank a) {a b : α} (hway : TransGen r a b) :
    rank b ≤ rank a ∧ (rank b = rank a → TransGen (fun a b => r a b ∧ rank b = rank a) a b) := by
  induction hway with
  | single hab => exact ⟨h _ _ hab, fun hlevel => .single ⟨hab, hlevel⟩⟩
  | @tail b c _ hbc ih =>
    have hstep := h b c hbc
    refine ⟨Nat.le_trans hstep ih.1, fun hlevel => ?_⟩
    have hsame : rank b = rank a := by
      have hdown := ih.1
      omega
    exact (ih.2 hsame).tail ⟨hbc, by omega⟩

theorem acyclic_of_levels {rank : α → Nat} (h : ∀ a b, r a b → rank b ≤ rank a)
    (hlevels : Acyclic fun a b => r a b ∧ rank b = rank a) : Acyclic r :=
  fun a hcycle => hlevels a ((transGen_level h hcycle).2 rfl)
