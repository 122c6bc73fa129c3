/-
Loops without an input. The body of a loop is a function of its state that
says `none` where the loop breaks, and `passes` runs it a number of times. A
loop that ends does so after one number of passes and in one state
(`Ends.unique`), and what every pass keeps holds in each state the loop goes
through (`passes_invariant`).
-/
import Mathlib.Tactic.Common

namespace Loop

variable {σ : Type} (body : σ → Option σ)

/-- The state after `n` passes, none of which breaks. -/
def passes : Nat → σ → Option σ
  | 0, s => some s
  | n + 1, s =>
    match body s with
    | none => none
    | some s' => passes n s'

/-- The loop makes `n` passes and breaks in the state `t`. -/
def Ends (n : Nat) (s t : σ) : Prop := passes body n s = some t ∧ body t = none

variable {body}

theorem Ends.stop {s : σ} (h : body s = none) : Ends body 0 s s := ⟨rfl, h⟩

theorem Ends.pass {s s' t : σ} {n : Nat} (hs : body s = some s') (h : Ends body n s' t) :
    Ends body (n + 1) s t := by
  refine ⟨?_, h.2⟩
  simp only [passes, hs]
  exact h.1

/-- A loop ends in one way. -/
theorem Ends.unique {s t t' : σ} {n m : Nat} (h : Ends body n s t) (h' : Ends body m s t') :
    n = m ∧ t = t' := by
  obtain ⟨hp, hb⟩ := h
  obtain ⟨hp', hb'⟩ := h'
  induction n generalizing s m with
  | zero =>
    cases hp
    cases m with
    | zero => cases hp'; exact ⟨rfl, rfl⟩
    | succ m => simp [passes, hb] at hp'
  | succ n ih =>
    cases hs : body s with
    | none => simp [passes, hs] at hp
    | some u =>
      simp only [passes, hs] at hp
      cases m with
      | zero =>
        cases hp'
        rw [hb'] at hs
        cases hs
      | succ m =>
        simp only [passes, hs] at hp'
        have hrest := ih hp hp'
        exact ⟨by omega, hrest.2⟩

/-- What each pass keeps holds in every state the loop goes through. -/
theorem passes_invariant {Inv : σ → Prop} (hbody : ∀ s s', Inv s → body s = some s' → Inv s') :
    ∀ {n : Nat} {s t : σ}, Inv s → passes body n s = some t → Inv t
  | 0, _, _, hs, h => by
    cases h
    exact hs
  | n + 1, s, t, hs, h => by
    cases hb : body s with
    | none => simp [passes, hb] at h
    | some s' =>
      simp only [passes, hb] at h
      exact passes_invariant hbody (hbody s s' hs hb) h

end Loop
