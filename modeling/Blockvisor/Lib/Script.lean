/-
Programs that ask their environment and go on with what it replies. A `Script`
is such a program as the tree of its calls: every reply leads on to the rest
of the program. `Runs p log r` says that `p`, when it gets the replies of the
log, makes the calls of the log and ends in `r`.

The rules follow the text of a program: `Runs.bind` splits a run of two
statements in the runs of each, and `Runs.forM` a run of a loop in those of
its rounds. `Always C R p` says that every call of `p` meets `C` and every
value it returns meets `R`, and `Resumes p log q` that `q` is what is left of
`p` after a log.
-/

/-- A program that is over, with a value or an error, or at a call. -/
inductive Script {ι : Type} (ρ : ι → Type) (ε α : Type) where
  | done (r : Except ε α)
  | call (c : ι) (k : ρ c → Script ρ ε α)

namespace Script

variable {ι : Type} {ρ : ι → Type} {ε α β : Type}

def bind (f : α → Script ρ ε β) : Script ρ ε α → Script ρ ε β
  | .done (.ok a) => f a
  | .done (.error e) => .done (.error e)
  | .call c k => .call c fun reply => bind f (k reply)

instance : Monad (Script ρ ε) where
  pure a := .done (.ok a)
  bind p f := bind f p

def throw (e : ε) : Script ρ ε α := .done (.error e)

/-- The result of a program, which does not fail then. -/
def attempt : Script ρ ε α → Script ρ ε (Except ε α)
  | .done r => .done (.ok r)
  | .call c k => .call c fun reply => attempt (k reply)

/-- Calls with the replies to them. -/
abbrev Log (ρ : ι → Type) := List (Sigma ρ)

inductive Runs : Script ρ ε α → Log ρ → Except ε α → Prop
  | done (r : Except ε α) : Runs (.done r) [] r
  | call {c : ι} {k : ρ c → Script ρ ε α} {log : Log ρ} {r : Except ε α} (reply : ρ c) (h : Runs (k reply) log r) :
    Runs (.call c k) (⟨c, reply⟩ :: log) r

/-- The run in which every call gets the reply that is said for it. -/
def replay (reply : (c : ι) → ρ c) : Script ρ ε α → Log ρ × Except ε α
  | .done r => ([], r)
  | .call c k =>
    let (log, r) := replay reply (k (reply c))
    (⟨c, reply c⟩ :: log, r)

theorem runs_replay (reply : (c : ι) → ρ c) (p : Script ρ ε α) : Runs p (replay reply p).1 (replay reply p).2 := by
  induction p with
  | done r => exact .done r
  | call c k ih => exact .call (reply c) (ih (reply c))

/-- A replayed run has the replies that are said for it. -/
theorem mem_replay {reply : (c : ι) → ρ c} {p : Script ρ ε α} {c : ι} {r : ρ c} (h : ⟨c, r⟩ ∈ (replay reply p).1) :
    r = reply c := by
  induction p with
  | done r => cases h
  | call c' k ih =>
    cases List.mem_cons.mp h with
    | inl heq =>
      cases heq
      rfl
    | inr hmem => exact ih (reply c') hmem

/-! ## Rules -/

theorem Runs.pure {a : α} {log : Log ρ} {r : Except ε α} (h : Runs (pure a : Script ρ ε α) log r) : log = [] ∧ r = .ok a := by
  cases h
  exact ⟨rfl, rfl⟩

theorem Runs.throw {e : ε} {log : Log ρ} {r : Except ε α} (h : Runs (throw e : Script ρ ε α) log r) :
    log = [] ∧ r = .error e := by
  cases h
  exact ⟨rfl, rfl⟩

/-- A run of two statements is one of the first that fails, or one of both. -/
theorem Runs.bind {p : Script ρ ε α} {f : α → Script ρ ε β} {log : Log ρ} {r : Except ε β} (h : Runs (p >>= f) log r) :
    (∃ e, Runs p log (.error e) ∧ r = .error e) ∨
      ∃ a log₁ log₂, log = log₁ ++ log₂ ∧ Runs p log₁ (.ok a) ∧ Runs (f a) log₂ r := by
  change Runs (Script.bind f p) log r at h
  induction p generalizing log with
  | done result =>
    cases result with
    | ok a => exact .inr ⟨a, [], log, rfl, .done _, h⟩
    | error e =>
      cases h
      exact .inl ⟨e, .done _, rfl⟩
  | call c k ih =>
    unfold Script.bind at h
    cases h with
    | call reply h =>
      obtain ⟨e, hp, hr⟩ | ⟨a, log₁, log₂, hlog, hp, hf⟩ := ih reply h
      · exact .inl ⟨e, .call reply hp, hr⟩
      · exact .inr ⟨a, ⟨c, reply⟩ :: log₁, log₂, by rw [hlog, List.cons_append], .call reply hp, hf⟩

theorem Runs.bind_ok {p : Script ρ ε α} {f : α → Script ρ ε β} {log : Log ρ} {b : β} (h : Runs (p >>= f) log (.ok b)) :
    ∃ a log₁ log₂, log = log₁ ++ log₂ ∧ Runs p log₁ (.ok a) ∧ Runs (f a) log₂ (.ok b) := by
  obtain ⟨e, -, hr⟩ | h := h.bind
  · cases hr
  · exact h

theorem Runs.attempt {p : Script ρ ε α} {log : Log ρ} {r : Except ε (Except ε α)} (h : Runs (attempt p) log r) :
    ∃ result, r = .ok result ∧ Runs p log result := by
  induction p generalizing log with
  | done result =>
    cases h
    exact ⟨result, rfl, .done _⟩
  | call c k ih =>
    unfold Script.attempt at h
    cases h with
    | call reply h =>
      obtain ⟨result, hr, hp⟩ := ih reply h
      exact ⟨result, hr, .call reply hp⟩

/-- **The rule of a loop** that comes to its end: its rounds all return, and what is said of each log
holds of the log of all, when it goes together. -/
theorem Runs.forM {f : α → Script ρ ε Unit} {P : List α → Log ρ → Prop} (hnil : P [] [])
    (hcons : ∀ a as log log', Runs (f a) log (.ok ()) → P as log' → P (a :: as) (log ++ log')) :
    ∀ {as : List α} {log : Log ρ}, Runs (as.forM f) log (.ok ()) → P as log := by
  intro as
  induction as with
  | nil =>
    intro log h
    rw [h.pure.1]
    exact hnil
  | cons a as ih =>
    intro log h
    obtain ⟨u, log₁, log₂, hlog, ha, has⟩ := Runs.bind_ok (p := f a) (f := fun _ => as.forM f) h
    rw [hlog]
    exact hcons a as log₁ log₂ ha (ih has)

/-! ## What is left of a program -/

/-- Whatever `q` does may go on from the log as a run of `p`. -/
def Resumes (p : Script ρ ε α) (log : Log ρ) (q : Script ρ ε α) : Prop :=
  ∀ log' r, Runs q log' r → Runs p (log ++ log') r

theorem Resumes.refl (p : Script ρ ε α) : Resumes p [] p := fun _ _ h => h

theorem Resumes.call {p : Script ρ ε α} {log : Log ρ} {c : ι} {k : ρ c → Script ρ ε α} (h : Resumes p log (.call c k))
    (reply : ρ c) : Resumes p (log ++ [⟨c, reply⟩]) (k reply) := by
  intro log' r hrun
  have hlog := h _ r (.call reply hrun)
  rw [List.append_assoc, List.singleton_append]
  exact hlog

/-! ## What holds of every call -/

def Always (C : ι → Prop) (R : α → Prop) : Script ρ ε α → Prop
  | .done (.ok a) => R a
  | .done (.error _) => True
  | .call c k => C c ∧ ∀ reply, Always C R (k reply)

section

variable {C : ι → Prop} {R : α → Prop} {Q : β → Prop}

theorem Always.bind {p : Script ρ ε α} {f : α → Script ρ ε β} (h : Always C R p) (hf : ∀ a, R a → Always C Q (f a)) :
    Always C Q (p >>= f) := by
  show Always C Q (Script.bind f p)
  induction p with
  | done r =>
    cases r with
    | ok a => exact hf a h
    | error e => trivial
  | call c k ih => exact ⟨h.1, fun reply => ih reply (h.2 reply)⟩

theorem Always.attempt {R : Except ε α → Prop} {p : Script ρ ε α} (h : Always C (fun _ => True) p) (hR : ∀ r, R r) :
    Always C R (attempt p) := by
  induction p with
  | done r => exact hR r
  | call c k ih => exact ⟨h.1, fun reply => ih reply (h.2 reply)⟩

theorem Always.forM {f : α → Script ρ ε Unit} {as : List α} (h : ∀ a ∈ as, Always C (fun _ => True) (f a)) :
    Always C (fun _ => True) (as.forM f) := by
  induction as with
  | nil => trivial
  | cons a as ih =>
    refine Always.bind (f := fun _ => as.forM f) (h a List.mem_cons_self) fun _ _ => ?_
    exact ih fun b hb => h b (List.mem_cons_of_mem _ hb)

theorem Always.runs {p : Script ρ ε α} {log : Log ρ} {r : Except ε α} (h : Always C R p) (hrun : Runs p log r) :
    ∀ call ∈ log, C call.1 := by
  induction hrun with
  | done r => simp
  | call reply hrun ih =>
    intro call hmem
    cases List.mem_cons.mp hmem with
    | inl heq => rw [heq]; exact h.1
    | inr hmem => exact ih (h.2 reply) call hmem

theorem Always.value {p : Script ρ ε α} {log : Log ρ} {a : α} (h : Always C R p) (hrun : Runs p log (.ok a)) : R a := by
  generalize hr : (.ok a : Except ε α) = r at hrun
  induction hrun with
  | done r =>
    subst hr
    exact h
  | call reply hrun ih => exact ih (h.2 reply) hr

end

end Script
