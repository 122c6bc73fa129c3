/-
Things sorted into groups by a key: `entry` is the entry of a map for a key,
made when there is none. Nothing is lost by it (`flatMap_entry`): what is in
the groups afterwards is what was there and what is added.
-/
import Mathlib.Data.List.Perm.Basic

namespace Groups

variable {κ β γ : Type} [DecidableEq κ]

/-- The entry of a key is changed, or made of the default. -/
def entry (key : κ) (default : β) (f : β → β) : List (κ × β) → List (κ × β)
  | [] => [(key, f default)]
  | (k, b) :: rest => if k = key then (k, f b) :: rest else (k, b) :: entry key default f rest

variable {key : κ} {default : β} {f : β → β}

theorem flatMap_entry {g : β → List γ} {added : List γ} (hf : ∀ b, (g (f b)).Perm (g b ++ added)) (hdefault : g default = []) :
    ∀ m : List (κ × β), ((entry key default f m).flatMap fun e => g e.2).Perm ((m.flatMap fun e => g e.2) ++ added)
  | [] => by simpa [entry, hdefault] using hf default
  | (k, b) :: rest => by
    unfold entry
    split
    · rw [List.flatMap_cons, List.flatMap_cons]
      have hswap : ((g b ++ added) ++ rest.flatMap fun e => g e.2).Perm ((g b ++ rest.flatMap fun e => g e.2) ++ added) := by
        rw [List.append_assoc, List.append_assoc]
        exact List.perm_append_comm.append_left _
      exact ((hf b).append_right _).trans hswap
    · rw [List.flatMap_cons, List.flatMap_cons, List.append_assoc]
      exact (flatMap_entry hf hdefault rest).append_left _

end Groups
