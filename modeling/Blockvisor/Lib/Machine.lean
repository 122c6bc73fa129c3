/-
Machines given by a step function, and their runs. `run` folds the step over
a list of actions; `Along ok s as` says that every step the run takes meets
`ok`, which may look at the state the step is taken in. `run_invariant` is
the rule every safety result of this development goes through: what each step
that meets `ok` preserves holds after a run along which `ok` is met.
-/

namespace Machine

variable {σ α : Type} (step : σ → α → Option σ)

/-- The state after a list of actions, when each is enabled in turn. -/
def run : σ → List α → Option σ
  | s, [] => some s
  | s, a :: as =>
    match step s a with
    | none => none
    | some s' => run s' as

/-- Every action of the list meets `ok` in the state it is taken in. -/
def Along (ok : σ → α → Prop) : σ → List α → Prop
  | _, [] => True
  | s, a :: as => ok s a ∧
    match step s a with
    | none => True
    | some s' => Along ok s' as

instance Along.decidable {ok : σ → α → Prop} [∀ s a, Decidable (ok s a)] : ∀ s as, Decidable (Along step ok s as)
  | _, [] => .isTrue trivial
  | s, a :: as => @instDecidableAnd _ _ _ <|
    match step s a with
    | none => .isTrue trivial
    | some s' => Along.decidable s' as

theorem run_append (s : σ) (as bs : List α) :
    run step s (as ++ bs) = (run step s as).bind fun s' => run step s' bs := by
  induction as generalizing s with
  | nil => rfl
  | cons a as ih =>
    simp only [List.cons_append, run]
    cases step s a with
    | none => rfl
    | some s' => exact ih s'

theorem along_append {ok : σ → α → Prop} {s s' : σ} {as bs : List α} (hrun : run step s as = some s') :
    Along step ok s (as ++ bs) ↔ Along step ok s as ∧ Along step ok s' bs := by
  induction as generalizing s with
  | nil =>
    cases hrun
    simp [Along]
  | cons a as ih =>
    simp only [run] at hrun
    simp only [List.cons_append, Along]
    cases hs : step s a with
    | none => simp [hs] at hrun
    | some t =>
      simp only [hs] at hrun ⊢
      rw [ih hrun, and_assoc]

theorem along_true (s : σ) (as : List α) : Along step (fun _ _ => True) s as := by
  induction as generalizing s with
  | nil => trivial
  | cons a as ih =>
    refine ⟨trivial, ?_⟩
    split
    · trivial
    · exact ih _

theorem along_of_forall {ok : σ → α → Prop} {as : List α} (h : ∀ a ∈ as, ∀ s, ok s a) {s : σ} : Along step ok s as := by
  induction as generalizing s with
  | nil => trivial
  | cons a as ih =>
    refine ⟨h a (List.mem_cons_self ..) s, ?_⟩
    split
    · trivial
    · exact ih fun b hb => h b (List.mem_cons_of_mem _ hb)

theorem Along.and {ok ok' : σ → α → Prop} :
    ∀ {as : List α} {s : σ}, Along step ok s as → Along step ok' s as → Along step (fun s a => ok s a ∧ ok' s a) s as := by
  intro as
  induction as with
  | nil => intro s _ _; trivial
  | cons a as ih =>
    intro s h h'
    refine ⟨⟨h.1, h'.1⟩, ?_⟩
    have hrest := h.2
    have hrest' := h'.2
    cases hs : step s a with
    | none => trivial
    | some t =>
      rw [hs] at hrest hrest'
      exact ih hrest hrest'

/-- A condition met along a run entails another one that it entails in every state of the invariant. -/
theorem Along.of_invariant {I : σ → Prop} {ok ok' : σ → α → Prop} (h : ∀ s a, I s → ok s a → ok' s a)
    (hstep : ∀ s a s', I s → ok s a → step s a = some s' → I s') :
    ∀ {as : List α} {s : σ}, I s → Along step ok s as → Along step ok' s as := by
  intro as
  induction as with
  | nil => intro s _ _; trivial
  | cons a as ih =>
    intro s hI hs
    refine ⟨h s a hI hs.1, ?_⟩
    have hrest := hs.2
    cases hs' : step s a with
    | none => trivial
    | some s' =>
      rw [hs'] at hrest
      exact ih (hstep s a s' hI hs.1 hs') hrest

/-- **The invariant rule.** -/
theorem run_invariant {I : σ → Prop} {ok : σ → α → Prop}
    (hstep : ∀ s a s', I s → ok s a → step s a = some s' → I s') :
    ∀ {as : List α} {s s' : σ}, I s → Along step ok s as → run step s as = some s' → I s' := by
  intro as
  induction as with
  | nil =>
    intro s s' hI _ hrun
    cases hrun
    exact hI
  | cons a as ih =>
    intro s s' hI hok hrun
    simp only [run] at hrun
    have hrest := hok.2
    cases hs : step s a with
    | none => simp [hs] at hrun
    | some t =>
      simp only [hs] at hrun hrest
      exact ih (hstep s a t hI hok.1 hs) hrest hrun

/-- The invariant rule for steps that all preserve the invariant. -/
theorem run_invariant_all {I : σ → Prop} (hstep : ∀ s a s', I s → step s a = some s' → I s')
    {as : List α} {s s' : σ} (hI : I s) (hrun : run step s as = some s') : I s' :=
  run_invariant step (fun s a s' h _ hs => hstep s a s' h hs) hI (along_true step s as) hrun

/-- Conditions that agree on the steps that meet `ok₀` from states in the invariant agree along a run that meets it. -/
theorem along_congr_along {I : σ → Prop} {ok₀ ok ok' : σ → α → Prop}
    (hok : ∀ s a s', I s → ok₀ s a → step s a = some s' → (ok s a ↔ ok' s a))
    (hstep : ∀ s a s', I s → ok₀ s a → step s a = some s' → I s') :
    ∀ {as : List α} {s s' : σ}, I s → Along step ok₀ s as → run step s as = some s' →
      (Along step ok s as ↔ Along step ok' s as) := by
  intro as
  induction as with
  | nil => exact fun _ _ _ => Iff.rfl
  | cons a as ih =>
    intro s s' hI hok₀ hrun
    simp only [run] at hrun
    have hrest := hok₀.2
    cases hs : step s a with
    | none => simp [hs] at hrun
    | some t =>
      simp only [hs] at hrun hrest
      simp only [Along, hs]
      exact and_congr (hok s a t hI hok₀.1 hs) (ih (hstep s a t hI hok₀.1 hs) hrest hrun)

/-- Conditions that agree on the steps from states in the invariant agree along a run. -/
theorem along_congr {I : σ → Prop} {ok ok' : σ → α → Prop} (hok : ∀ s a s', I s → step s a = some s' → (ok s a ↔ ok' s a))
    (hstep : ∀ s a s', I s → step s a = some s' → I s') {as : List α} {s s' : σ} (hI : I s) (hrun : run step s as = some s') :
    Along step ok s as ↔ Along step ok' s as :=
  along_congr_along step (fun s a s' h _ => hok s a s' h) (fun s a s' h _ => hstep s a s' h) hI (along_true step s as) hrun

/-- The states a machine can come to from its initial ones. -/
def Reachable (init : σ → Prop) (s : σ) : Prop := ∃ s₀ as, init s₀ ∧ run step s₀ as = some s

theorem Reachable.invariant {init I : σ → Prop} (hinit : ∀ s, init s → I s)
    (hstep : ∀ s a s', I s → step s a = some s' → I s') {s : σ} (h : Reachable step init s) : I s := by
  obtain ⟨s₀, as, h₀, hrun⟩ := h
  exact run_invariant_all step hstep (hinit s₀ h₀) hrun

end Machine
