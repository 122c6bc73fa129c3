/-
Computations on a state that can end early, with an error or with the process
(`Exit`), and the rules of their pre- and postconditions. The state is kept
however a computation ends: an error leaves behind what was done before it.

`Triple P m Q E` says that from a state in `P` the computation ends in `Q`
when it returns and in `E` when it does not. `Keeps I K m` is the triple of an
invariant: `I` holds whenever the process lives on, and `K` is what holds if
it dies. The rules follow the text of a computation, `Triple.bind` from
statement to statement; `Keeps.zoom` is the frame rule, for a computation on a
part of the state.
-/
import Blockvisor.Lib.Persist

def Effect (ε σ α : Type) : Type := σ → Except (Exit ε) α × σ

namespace Effect

variable {ε ε' σ τ α β : Type}

instance : Monad (Effect ε σ) where
  pure a := fun s => (.ok a, s)
  bind m f := fun s =>
    match m s with
    | (.ok a, s') => f a s'
    | (.error e, s') => (.error e, s')

/-- A function of the state. -/
def gets (f : σ → α) : Effect ε σ α := fun s => (.ok (f s), s)

def modify (f : σ → σ) : Effect ε σ Unit := fun s => (.ok (), f s)

def throw (e : ε) : Effect ε σ α := fun s => (.error (.error e), s)

/-- The process dies. -/
def kill : Effect ε σ α := fun s => (.error .killed, s)

/-- The result of a computation that does not end with the process. -/
def attempt (m : Effect ε σ α) : Effect ε σ (Except ε α) := fun s =>
  match m s with
  | (.ok a, s') => (.ok (.ok a), s')
  | (.error (.error e), s') => (.ok (.error e), s')
  | (.error .killed, s') => (.error .killed, s')

def ofExcept : Except ε α → Effect ε σ α
  | .ok a => pure a
  | .error e => throw e

def when (c : Prop) [Decidable c] (m : Effect ε σ Unit) : Effect ε σ Unit := if c then m else pure ()

/-- The errors of a computation, as another kind of error. -/
def mapError (f : ε → ε') (m : Effect ε σ α) : Effect ε' σ α := fun s =>
  match m s with
  | (.ok a, s') => (.ok a, s')
  | (.error (.error e), s') => (.error (.error (f e)), s')
  | (.error .killed, s') => (.error .killed, s')

/-- A computation on a part of the state. -/
def zoom (get : τ → σ) (put : σ → τ → τ) (m : Effect ε σ α) : Effect ε τ α := fun t =>
  ((m (get t)).1, put (m (get t)).2 t)

/-- Whether it returned. -/
def isOk : Except ε α → Bool
  | .ok _ => true
  | .error _ => false

theorem eq_of_isOk {r : Except ε Unit × σ} (h : isOk r.1 = true) : r = (.ok (), r.2) := by
  obtain ⟨res, s⟩ := r
  cases res with
  | ok a => rfl
  | error e => cases h

@[simp] theorem gets_bind (f : σ → α) (k : α → Effect ε σ β) (s : σ) : (gets f >>= k) s = k (f s) s := rfl

@[simp] theorem pure_run (a : α) (s : σ) : (pure a : Effect ε σ α) s = (.ok a, s) := rfl

theorem bind_of_ok {m : Effect ε σ α} {f : α → Effect ε σ β} {s s' : σ} {a : α} (h : m s = (.ok a, s')) :
    (m >>= f) s = f a s' := by
  show (match m s with
    | (.ok a, s') => f a s'
    | (.error e, s') => (.error e, s')) = f a s'
  rw [h]

theorem bind_of_error {m : Effect ε σ α} {f : α → Effect ε σ β} {s s' : σ} {e : Exit ε} (h : m s = (.error e, s')) :
    (m >>= f) s = (.error e, s') := by
  show (match m s with
    | (.ok a, s') => f a s'
    | (.error e, s') => (.error e, s')) = (.error e, s')
  rw [h]

/-- A computation that returns did what comes before its last part. -/
theorem of_bind_ok {m : Effect ε σ α} {f : α → Effect ε σ β} {s s' : σ} {b : β} (h : (m >>= f) s = (.ok b, s')) :
    ∃ a t, m s = (.ok a, t) ∧ f a t = (.ok b, s') := by
  cases hm : m s with
  | mk r t =>
    cases r with
    | ok a => exact ⟨a, t, rfl, by rw [bind_of_ok hm] at h; exact h⟩
    | error e =>
      rw [bind_of_error hm] at h
      cases h

/-- What is checked holds if nothing was thrown. -/
theorem when_throw_ok {c : Prop} [Decidable c] {e : ε} {u : Unit} {s s' : σ} (h : when c (throw e) s = (.ok u, s')) :
    ¬ c ∧ s' = s := by
  unfold when at h
  split at h
  · cases h
  · rename_i hc
    cases h
    exact ⟨hc, rfl⟩

theorem attempt_ok {m : Effect ε σ α} {s s' : σ} {a : α} (h : m s = (.ok a, s')) : attempt m s = (.ok (.ok a), s') := by
  unfold attempt
  rw [h]

theorem attempt_error {m : Effect ε σ α} {s s' : σ} {e : ε} (h : m s = (.error (.error e), s')) :
    attempt m s = (.ok (.error e), s') := by
  unfold attempt
  rw [h]

/-- Another kind of error is no other run. -/
theorem mapError_snd (f : ε → ε') (m : Effect ε σ α) (s : σ) : (mapError f m s).2 = (m s).2 := by
  unfold mapError
  cases m s with
  | mk r s' =>
    cases r with
    | ok a => rfl
    | error e => cases e <;> rfl

/-! ## Triples -/

def Triple (P : σ → Prop) (m : Effect ε σ α) (Q : α → σ → Prop) (E : Exit ε → σ → Prop) : Prop :=
  ∀ s, P s →
    match m s with
    | (.ok a, s') => Q a s'
    | (.error e, s') => E e s'

/-- What holds after an attempt: `A` of the value it came to, `B` after an error. -/
def attempted (A : α → σ → Prop) (B : σ → Prop) : Except ε α → σ → Prop
  | .ok a => A a
  | .error _ => B

/-- What holds at an exit: `I` after an error, `K` when the process died. -/
def atExit (I K : σ → Prop) : Exit ε → σ → Prop
  | .error _ => I
  | .killed => K

/-- The invariant `I` holds when the computation returns or fails, and `K` when the process dies. -/
def Keeps (I K : σ → Prop) (m : Effect ε σ α) : Prop := Triple I m (fun _ => I) (atExit I K)

section

variable {P P' : σ → Prop} {Q Q' : α → σ → Prop} {E E' : Exit ε → σ → Prop} {I K : σ → Prop}

theorem Triple.conseq {m : Effect ε σ α} (h : Triple P m Q E) (hP : ∀ s, P' s → P s) (hQ : ∀ a s, Q a s → Q' a s)
    (hE : ∀ e s, E e s → E' e s) : Triple P' m Q' E' := by
  intro s hs
  have hm := h s (hP s hs)
  cases hr : m s with
  | mk r s' =>
    rw [hr] at hm
    cases r with
    | ok a => exact hQ a s' hm
    | error e => exact hE e s' hm

theorem Triple.pre {m : Effect ε σ α} (h : Triple P m Q E) (hP : ∀ s, P' s → P s) : Triple P' m Q E :=
  h.conseq hP (fun _ _ h => h) fun _ _ h => h

theorem Triple.post {m : Effect ε σ α} (h : Triple P m Q E) (hQ : ∀ a s, Q a s → Q' a s) : Triple P m Q' E :=
  h.conseq (fun _ h => h) hQ fun _ _ h => h

theorem Triple.exit {m : Effect ε σ α} (h : Triple P m Q E) (hE : ∀ e s, E e s → E' e s) : Triple P m Q E' :=
  h.conseq (fun _ h => h) (fun _ _ h => h) hE

theorem Triple.and {m : Effect ε σ α} (h : Triple P m Q E) (h' : Triple P' m Q' E') :
    Triple (fun s => P s ∧ P' s) m (fun a s => Q a s ∧ Q' a s) (fun e s => E e s ∧ E' e s) := by
  intro s hs
  have hm := h s hs.1
  have hm' := h' s hs.2
  cases hr : m s with
  | mk r s' =>
    rw [hr] at hm hm'
    cases r with
    | ok a => exact ⟨hm, hm'⟩
    | error e => exact ⟨hm, hm'⟩

/-- Nothing is said. -/
theorem Triple.any {m : Effect ε σ α} : Triple P m (fun _ _ => True) fun _ _ => True := by
  intro s _
  cases m s with
  | mk r s' => cases r <;> trivial

/-- A computation from a state that cannot be. -/
theorem Triple.absurd {m : Effect ε σ α} (h : ∀ s, ¬ P s) : Triple P m Q E := fun s hs => (h s hs).elim

/-- A fact that does not look at the state may be taken out of the precondition. -/
theorem Triple.assume {p : Prop} {m : Effect ε σ α} (h : p → Triple P m Q E) : Triple (fun s => p ∧ P s) m Q E :=
  fun s hs => h hs.1 s hs.2

theorem Triple.bind {m : Effect ε σ α} {f : α → Effect ε σ β} {R : α → σ → Prop} {Q : β → σ → Prop}
    (h : Triple P m R E) (hf : ∀ a, Triple (R a) (f a) Q E) : Triple P (m >>= f) Q E := by
  intro s hs
  have hm := h s hs
  change match (match m s with
    | (.ok a, s') => f a s'
    | (.error e, s') => (.error e, s')) with
    | (.ok a, s') => Q a s'
    | (.error e, s') => E e s'
  cases hr : m s with
  | mk r s' =>
    rw [hr] at hm
    cases r with
    | ok a => exact hf a s' hm
    | error e => exact hm

theorem Triple.pure {a : α} (h : ∀ s, P s → Q a s) : Triple P (pure a : Effect ε σ α) Q E := h

theorem Triple.gets {f : σ → α} : Triple P (gets f : Effect ε σ α) (fun a s => a = f s ∧ P s) E := fun _ hs => ⟨rfl, hs⟩

theorem Triple.modify {f : σ → σ} {Q : Unit → σ → Prop} (h : ∀ s, P s → Q () (f s)) :
    Triple P (modify f : Effect ε σ Unit) Q E := h

theorem Triple.throw {e : ε} (h : ∀ s, P s → E (.error e) s) : Triple P (throw e : Effect ε σ α) Q E := h

theorem Triple.kill (h : ∀ s, P s → E .killed s) : Triple P (kill : Effect ε σ α) Q E := h

theorem Triple.attempt {m : Effect ε σ α} {Q : Except ε α → σ → Prop}
    (h : Triple P m (fun a => Q (.ok a)) fun e s =>
      match e with
      | .error e => Q (.error e) s
      | .killed => E .killed s) :
    Triple P (attempt m) Q E := by
  intro s hs
  have hm := h s hs
  unfold Effect.attempt
  cases hr : m s with
  | mk r s' =>
    rw [hr] at hm
    cases r with
    | ok a => exact hm
    | error e =>
      cases e with
      | error e => exact hm
      | killed => exact hm

theorem Triple.ofExcept {x : Except ε α} (hok : ∀ a, x = .ok a → ∀ s, P s → Q a s)
    (herror : ∀ e, x = .error e → ∀ s, P s → E (.error e) s) : Triple P (ofExcept x : Effect ε σ α) Q E := by
  intro s hs
  cases x with
  | ok a => exact hok a rfl s hs
  | error e => exact herror e rfl s hs

theorem Triple.when {c : Prop} [Decidable c] {m : Effect ε σ Unit} {Q : Unit → σ → Prop}
    (h : c → Triple P m Q E) (hskip : ¬ c → ∀ s, P s → Q () s) : Triple P (when c m) Q E := by
  unfold Effect.when
  split
  · rename_i hc
    exact h hc
  · rename_i hc
    exact hskip hc

theorem Triple.mapError {f : ε → ε'} {m : Effect ε σ α} {E : Exit ε' → σ → Prop}
    (h : Triple P m Q fun e s =>
      match e with
      | .error e => E (.error (f e)) s
      | .killed => E .killed s) :
    Triple P (mapError f m) Q E := by
  intro s hs
  have hm := h s hs
  unfold Effect.mapError
  cases hr : m s with
  | mk r s' =>
    rw [hr] at hm
    cases r with
    | ok a => exact hm
    | error e =>
      cases e with
      | error e => exact hm
      | killed => exact hm

/-- What a computation returns is what it does return. -/
theorem Triple.result {m : Effect ε σ α} {s₀ : σ} :
    Triple (· = s₀) m (fun a _ => (m s₀).1 = .ok a) fun e _ => (m s₀).1 = .error e := by
  intro s hs
  subst hs
  cases hr : m s with
  | mk r s' =>
    cases r with
    | ok a => rfl
    | error e => rfl

/-- A computation on a part of the state leaves the rest as it was. -/
theorem Triple.zoom {get : τ → σ} {put : σ → τ → τ} {m : Effect ε σ α} {t₀ : τ} (h : Triple (· = get t₀) m Q E) :
    Triple (· = t₀) (zoom get put m) (fun a t => ∃ s, t = put s t₀ ∧ Q a s) fun e t => ∃ s, t = put s t₀ ∧ E e s := by
  intro t ht
  subst ht
  have hm := h (get t) rfl
  unfold Effect.zoom
  cases hr : m (get t) with
  | mk r s =>
    rw [hr] at hm
    cases r with
    | ok a => exact ⟨s, rfl, hm⟩
    | error e => exact ⟨s, rfl, hm⟩

/-! ## Invariants -/

theorem Keeps.bind {m : Effect ε σ α} {f : α → Effect ε σ β} (h : Keeps I K m) (hf : ∀ a, Keeps I K (f a)) :
    Keeps I K (m >>= f) :=
  Triple.bind h hf

theorem Keeps.pure {a : α} : Keeps I K (pure a : Effect ε σ α) := Triple.pure fun _ hs => hs

theorem Keeps.gets {f : σ → α} : Keeps I K (gets f : Effect ε σ α) := Triple.gets.post fun _ _ hs => hs.2

theorem Keeps.modify {f : σ → σ} (h : ∀ s, I s → I (f s)) : Keeps I K (modify f : Effect ε σ Unit) := Triple.modify h

theorem Keeps.throw {e : ε} : Keeps I K (throw e : Effect ε σ α) := Triple.throw fun _ hs => hs

theorem Keeps.kill (h : ∀ s, I s → K s) : Keeps I K (kill : Effect ε σ α) := Triple.kill h

theorem Keeps.attempt {m : Effect ε σ α} (h : Keeps I K m) : Keeps I K (attempt m) :=
  Triple.attempt (h.exit fun e _ hs => by cases e <;> exact hs)

theorem Keeps.ofExcept {x : Except ε α} : Keeps I K (ofExcept x : Effect ε σ α) :=
  Triple.ofExcept (fun _ _ _ hs => hs) fun _ _ _ hs => hs

theorem Keeps.when {c : Prop} [Decidable c] {m : Effect ε σ Unit} (h : Keeps I K m) : Keeps I K (when c m) :=
  Triple.when (fun _ => h) fun _ _ hs => hs

theorem Keeps.ite {c : Prop} [Decidable c] {m m' : Effect ε σ α} (h : Keeps I K m) (h' : Keeps I K m') :
    Keeps I K (if c then m else m') := by
  split
  · exact h
  · exact h'

theorem Keeps.mapError {f : ε → ε'} {m : Effect ε σ α} (h : Keeps I K m) : Keeps I K (mapError f m) :=
  Triple.mapError (h.exit fun e _ hs => by cases e <;> exact hs)

theorem Keeps.forM {f : α → Effect ε σ Unit} : ∀ {l : List α}, (∀ a ∈ l, Keeps I K (f a)) → Keeps I K (l.forM f)
  | [], _ => Keeps.pure
  | a :: _, h => Keeps.bind (h a (List.mem_cons_self ..)) fun _ => Keeps.forM fun b hb => h b (List.mem_cons_of_mem _ hb)

/-- **The frame rule.** A computation on a part of the state that takes it only to states related to
the first keeps what these states do not change. -/
theorem Keeps.zoom {get : τ → σ} {put : σ → τ → τ} {R : σ → σ → Prop} {I K : τ → Prop} {m : Effect ε σ α}
    (hm : ∀ s, R s (m s).2) (hI : ∀ t s, R (get t) s → I t → I (put s t)) (hK : ∀ t, I t → K t) :
    Keeps I K (zoom get put m) := by
  intro t ht
  have hput := hI t _ (hm (get t)) ht
  unfold Effect.zoom
  cases hr : (m (get t)).1 with
  | ok a => exact hput
  | error e =>
    cases e with
    | error e => exact hput
    | killed => exact hK _ hput

/-- What a triple says of every exit holds after a run of the computation. -/
theorem Triple.run {m : Effect ε σ α} {R : σ → Prop} (h : Triple P m (fun _ => R) fun _ => R) {s : σ} (hs : P s) :
    R (m s).2 := by
  have hm := h s hs
  cases hr : m s with
  | mk r s' =>
    rw [hr] at hm
    cases r with
    | ok a => exact hm
    | error e => exact hm

theorem Keeps.run {m : Effect ε σ α} (h : Keeps I I m) {s : σ} (hs : I s) : I (m s).2 :=
  (h.exit fun e _ hs => by cases e <;> exact hs).run hs

theorem Keeps.of_run {m : Effect ε σ α} (h : ∀ s, I s → I (m s).2) : Keeps I I m := by
  intro s hs
  have hm := h s hs
  cases hr : m s with
  | mk r s' =>
    rw [hr] at hm
    cases r with
    | ok a => exact hm
    | error e => cases e <;> exact hm

end

end Effect
