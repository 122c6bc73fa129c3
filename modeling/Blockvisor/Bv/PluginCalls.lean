/-
Calls of the plugin (`on_plugin` of `babel_engine.rs`). A function of the plugin
runs on a thread of its own, on a copy of the plugin. What it asks of the engine
it sends on a channel and waits for the response; meanwhile the call handles the
requests of the channel, one at a time, until the function is over, and then
takes the copy for the plugin.

A call may be given up at any time, as one that takes too long is
(`node_metrics.rs`). Its thread goes on: what it asks next is handled by the
calls after it. `plugin_calls` says what holds nevertheless, and that the
requests are handled call by call when no call is given up before its function
is over.
-/
import Blockvisor.BabelApi.RhaiPlugin
import Blockvisor.Lib.Machine

namespace Blockvisor

open Machine Script

variable {P τ : Type}

/-- A function of the plugin, with the plugin as it leaves it; its own errors are panics. -/
abbrev PluginFn (P τ : Type) := P → PluginM (P × Except String τ)

/-- The function goes on, or waits for the response to a request, or is over. -/
inductive ThreadPhase (P τ : Type) where
  | running (p : PluginM (P × Except String τ))
  | asking (c : EngineCall) (k : c.Reply → PluginM (P × Except String τ))
  | finished (r : Except String (P × Except String τ))

/-- What it was to do, and the replies it got, are ghosts. -/
structure PluginThread (P τ : Type) where
  origin : PluginM (P × Except String τ)
  log : Log EngineCall.Reply
  phase : ThreadPhase P τ

/-- The call that is waited for, with the thread whose request it handles. -/
structure PluginHandler (P τ : Type) where
  thread : Nat
  fn : PluginFn P τ
  asked : Option Nat

/-- The queue is the channel: the threads whose requests are on it. The requests handled, and the calls
that returned, are ghosts. -/
structure PluginCalls (P τ : Type) where
  plugin : P
  threads : List (PluginThread P τ)
  queue : List Nat
  handler : Option (PluginHandler P τ)
  handled : List (Nat × Sigma EngineCall.Reply)
  returned : List (PluginFn P τ × Log EngineCall.Reply × Except String (P × Except String τ))

inductive PluginCallAct (P τ : Type) where
  | begin (f : PluginFn P τ)
  | send (i : Nat)
  | onHost (i : Nat) (replies : (c : EngineCall) → c.Reply)
  | finish (i : Nat)
  | take
  | answer (replies : (c : EngineCall) → c.Reply)
  | join
  | giveUp

/-- What `Engine` does without a request. -/
def EngineCall.isOnHost : EngineCall → Bool
  | .saveConfig _ => true
  | _ => false

def asks (entry : Sigma EngineCall.Reply) : Bool := !entry.1.isOnHost

namespace PluginThread

def start (p : PluginM (P × Except String τ)) : PluginThread P τ := ⟨p, [], .running p⟩

/-- The thread goes on with a reply to a call. -/
def resume (t : PluginThread P τ) (c : EngineCall) (k : c.Reply → PluginM (P × Except String τ)) (reply : c.Reply) : PluginThread P τ :=
  { t with log := t.log ++ [⟨c, reply⟩], phase := .running (k reply) }

/-- What the thread has still to do goes on from the replies it got. -/
def Follows (t : PluginThread P τ) : Prop :=
  match t.phase with
  | .running p => Resumes t.origin t.log p
  | .asking c k => c.isOnHost = false ∧ Resumes t.origin t.log (.call c k)
  | .finished r => Runs t.origin t.log r

theorem Follows.running {t : PluginThread P τ} {p : PluginM (P × Except String τ)} (h : t.Follows) (hphase : t.phase = .running p) :
    Resumes t.origin t.log p := by
  unfold Follows at h
  rw [hphase] at h
  exact h

theorem Follows.asking {t : PluginThread P τ} {c : EngineCall} {k : c.Reply → PluginM (P × Except String τ)} (h : t.Follows)
    (hphase : t.phase = .asking c k) : c.isOnHost = false ∧ Resumes t.origin t.log (.call c k) := by
  unfold Follows at h
  rw [hphase] at h
  exact h

theorem Follows.finished {t : PluginThread P τ} {r : Except String (P × Except String τ)} (h : t.Follows) (hphase : t.phase = .finished r) :
    Runs t.origin t.log r := by
  unfold Follows at h
  rw [hphase] at h
  exact h

end PluginThread

/-- The plugin after a call, which stays what it was if the function panics. -/
def afterCall (plugin : P) : Except String (P × Except String τ) → P
  | .ok (plugin, _) => plugin
  | .error _ => plugin

namespace PluginCalls

def init (plugin : P) : PluginCalls P τ := ⟨plugin, [], [], none, [], []⟩

/-- The threads whose requests are on the channel, or handled. -/
def waiting (s : PluginCalls P τ) : List Nat := s.queue ++ (s.handler.bind (·.asked)).toList

def setThread (s : PluginCalls P τ) (i : Nat) (t : PluginThread P τ) : PluginCalls P τ := { s with threads := s.threads.set i t }

def begin (s : PluginCalls P τ) (f : PluginFn P τ) : Option (PluginCalls P τ) :=
  match s.handler with
  | none =>
    some { s with
      threads := s.threads ++ [.start (f s.plugin)]
      handler := some ⟨s.threads.length, f, none⟩ }
  | some _ => none

/-- `blocking_send`, when there is room on the channel. -/
def send (s : PluginCalls P τ) (i : Nat) : Option (PluginCalls P τ) :=
  match s.threads[i]? with
  | some t =>
    match t.phase with
    | .running (.call c k) =>
      if c.isOnHost = false ∧ s.queue.length < 64 then
        some { s.setThread i { t with phase := .asking c k } with queue := s.queue ++ [i] }
      else none
    | _ => none
  | none => none

def onHost (s : PluginCalls P τ) (i : Nat) (replies : (c : EngineCall) → c.Reply) : Option (PluginCalls P τ) :=
  match s.threads[i]? with
  | some t =>
    match t.phase with
    | .running (.call c k) => if c.isOnHost then some (s.setThread i (t.resume c k (replies c))) else none
    | _ => none
  | none => none

def finish (s : PluginCalls P τ) (i : Nat) : Option (PluginCalls P τ) :=
  match s.threads[i]? with
  | some t =>
    match t.phase with
    | .running (.done r) => some (s.setThread i { t with phase := .finished r })
    | _ => none
  | none => none

def take (s : PluginCalls P τ) : Option (PluginCalls P τ) :=
  match s.handler, s.queue with
  | some h, j :: queue =>
    match h.asked with
    | none => some { s with handler := some { h with asked := some j }, queue }
    | some _ => none
  | _, _ => none

/-- The thread that waits for a response gets one. -/
def reply (s : PluginCalls P τ) (j : Nat) (replies : (c : EngineCall) → c.Reply) (handled : Bool) : Option (PluginCalls P τ) :=
  match s.threads[j]? with
  | some t =>
    match t.phase with
    | .asking c k =>
      some { s.setThread j (t.resume c k (replies c)) with
        handled := if handled then s.handled ++ [(j, ⟨c, replies c⟩)] else s.handled }
    | _ => none
  | none => none

def answer (s : PluginCalls P τ) (replies : (c : EngineCall) → c.Reply) : Option (PluginCalls P τ) :=
  match s.handler with
  | some h =>
    match h.asked with
    | some j => reply { s with handler := some { h with asked := none } } j replies true
    | none => none
  | none => none

def join (s : PluginCalls P τ) : Option (PluginCalls P τ) :=
  match s.handler with
  | some h =>
    match h.asked, s.threads[h.thread]? with
    | none, some t =>
      match t.phase with
      | .finished r =>
        some { s with
          handler := none
          plugin := afterCall s.plugin r
          returned := s.returned ++ [(h.fn, t.log, r)] }
      | _ => none
    | _, _ => none
  | none => none

/-- The sender of a response that is not sent is dropped, which the receiver takes for an error. -/
def giveUp (s : PluginCalls P τ) : Option (PluginCalls P τ) :=
  match s.handler with
  | some h =>
    match h.asked with
    | some j => reply { s with handler := none } j (fun _ => .error "channel closed") false
    | none => some { s with handler := none }
  | none => none

def step (s : PluginCalls P τ) : PluginCallAct P τ → Option (PluginCalls P τ)
  | .begin f => s.begin f
  | .send i => s.send i
  | .onHost i replies => s.onHost i replies
  | .finish i => s.finish i
  | .take => s.take
  | .answer replies => s.answer replies
  | .join => s.join
  | .giveUp => s.giveUp

/-! ## What a step does -/

inductive Moves : PluginCalls P τ → PluginCallAct P τ → PluginCalls P τ → Prop
  | begin {s : PluginCalls P τ} {f : PluginFn P τ} (hnone : s.handler = none) :
    Moves s (.begin f) { s with
      threads := s.threads ++ [.start (f s.plugin)]
      handler := some ⟨s.threads.length, f, none⟩ }
  | send {s : PluginCalls P τ} {i : Nat} {t : PluginThread P τ} {c : EngineCall} {k : c.Reply → PluginM (P × Except String τ)}
    (ht : s.threads[i]? = some t) (hphase : t.phase = .running (.call c k)) (hasks : c.isOnHost = false) :
    Moves s (.send i) { s.setThread i { t with phase := .asking c k } with queue := s.queue ++ [i] }
  | onHost {s : PluginCalls P τ} {i : Nat} {replies : (c : EngineCall) → c.Reply} {t : PluginThread P τ} {c : EngineCall}
    {k : c.Reply → PluginM (P × Except String τ)} (ht : s.threads[i]? = some t) (hphase : t.phase = .running (.call c k))
    (hhost : c.isOnHost = true) : Moves s (.onHost i replies) (s.setThread i (t.resume c k (replies c)))
  | finish {s : PluginCalls P τ} {i : Nat} {t : PluginThread P τ} {r : Except String (P × Except String τ)}
    (ht : s.threads[i]? = some t) (hphase : t.phase = .running (.done r)) : Moves s (.finish i) (s.setThread i { t with phase := .finished r })
  | take {s : PluginCalls P τ} {h : PluginHandler P τ} {j : Nat} {queue : List Nat} (hh : s.handler = some h)
    (hqueue : s.queue = j :: queue) (hasked : h.asked = none) :
    Moves s .take { s with handler := some { h with asked := some j }, queue }
  | answer {s : PluginCalls P τ} {replies : (c : EngineCall) → c.Reply} {h : PluginHandler P τ} {j : Nat} {t : PluginThread P τ}
    {c : EngineCall} {k : c.Reply → PluginM (P × Except String τ)} (hh : s.handler = some h) (hasked : h.asked = some j)
    (ht : s.threads[j]? = some t) (hphase : t.phase = .asking c k) :
    Moves s (.answer replies) { s.setThread j (t.resume c k (replies c)) with
      handler := some { h with asked := none }
      handled := s.handled ++ [(j, ⟨c, replies c⟩)] }
  | join {s : PluginCalls P τ} {h : PluginHandler P τ} {t : PluginThread P τ} {r : Except String (P × Except String τ)}
    (hh : s.handler = some h) (hasked : h.asked = none) (ht : s.threads[h.thread]? = some t) (hphase : t.phase = .finished r) :
    Moves s .join { s with
      handler := none
      plugin := afterCall s.plugin r
      returned := s.returned ++ [(h.fn, t.log, r)] }
  | giveUp {s : PluginCalls P τ} {h : PluginHandler P τ} (hh : s.handler = some h) (hasked : h.asked = none) :
    Moves s .giveUp { s with handler := none }
  | giveUpAsked {s : PluginCalls P τ} {h : PluginHandler P τ} {j : Nat} {t : PluginThread P τ} {c : EngineCall}
    {k : c.Reply → PluginM (P × Except String τ)} (hh : s.handler = some h) (hasked : h.asked = some j)
    (ht : s.threads[j]? = some t) (hphase : t.phase = .asking c k) :
    Moves s .giveUp { s.setThread j (t.resume c k (.error "channel closed")) with handler := none }

theorem reply_some {s s' : PluginCalls P τ} {j : Nat} {replies : (c : EngineCall) → c.Reply} {handled : Bool}
    (hs : s.reply j replies handled = some s') : ∃ t c k, s.threads[j]? = some t ∧ t.phase = .asking c k ∧
      s' = { s.setThread j (t.resume c k (replies c)) with
        handled := if handled then s.handled ++ [(j, ⟨c, replies c⟩)] else s.handled } := by
  unfold reply at hs
  cases ht : s.threads[j]? with
  | none => simp [ht] at hs
  | some t =>
    cases hphase : t.phase with
    | asking c k =>
      simp only [ht, hphase, Option.some.injEq] at hs
      exact ⟨t, c, k, rfl, hphase, hs.symm⟩
    | running p => simp [ht, hphase] at hs
    | finished r => simp [ht, hphase] at hs

theorem step_moves {s s' : PluginCalls P τ} {a : PluginCallAct P τ} (hs : s.step a = some s') : Moves s a s' := by
  cases a with
  | begin f =>
    unfold step begin at hs
    cases hnone : s.handler with
    | none =>
      rw [hnone] at hs
      cases hs
      exact .begin hnone
    | some h =>
      rw [hnone] at hs
      cases hs
  | send i =>
    unfold step send at hs
    cases ht : s.threads[i]? with
    | none => simp [ht] at hs
    | some t =>
      cases hphase : t.phase with
      | running p =>
        cases p with
        | done r => simp [ht, hphase] at hs
        | call c k =>
          simp only [ht, hphase] at hs
          obtain ⟨hroom, hs⟩ := Option.ite_none_right_eq_some.mp hs
          cases hs
          exact .send ht hphase hroom.1
      | asking c k => simp [ht, hphase] at hs
      | finished r => simp [ht, hphase] at hs
  | onHost i replies =>
    unfold step onHost at hs
    cases ht : s.threads[i]? with
    | none => simp [ht] at hs
    | some t =>
      cases hphase : t.phase with
      | running p =>
        cases p with
        | done r => simp [ht, hphase] at hs
        | call c k =>
          simp only [ht, hphase] at hs
          obtain ⟨hhost, hs⟩ := Option.ite_none_right_eq_some.mp hs
          cases hs
          exact .onHost ht hphase hhost
      | asking c k => simp [ht, hphase] at hs
      | finished r => simp [ht, hphase] at hs
  | finish i =>
    unfold step finish at hs
    cases ht : s.threads[i]? with
    | none => simp [ht] at hs
    | some t =>
      cases hphase : t.phase with
      | running p =>
        cases p with
        | done r =>
          simp only [ht, hphase, Option.some.injEq] at hs
          cases hs
          exact .finish ht hphase
        | call c k => simp [ht, hphase] at hs
      | asking c k => simp [ht, hphase] at hs
      | finished r => simp [ht, hphase] at hs
  | take =>
    unfold step take at hs
    cases hh : s.handler with
    | none => simp [hh] at hs
    | some h =>
      cases hqueue : s.queue with
      | nil => simp [hh, hqueue] at hs
      | cons j queue =>
        cases hasked : h.asked with
        | none =>
          simp only [hh, hqueue, hasked, Option.some.injEq] at hs
          cases hs
          exact .take hh hqueue hasked
        | some i => simp [hh, hqueue, hasked] at hs
  | answer replies =>
    unfold step answer at hs
    cases hh : s.handler with
    | none => simp [hh] at hs
    | some h =>
      cases hasked : h.asked with
      | none => simp [hh, hasked] at hs
      | some j =>
        simp only [hh, hasked] at hs
        obtain ⟨t, c, k, ht, hphase, rfl⟩ := reply_some hs
        exact .answer hh hasked ht hphase
  | join =>
    unfold step join at hs
    cases hh : s.handler with
    | none => simp [hh] at hs
    | some h =>
      cases hasked : h.asked with
      | some j => simp [hh, hasked] at hs
      | none =>
        cases ht : s.threads[h.thread]? with
        | none => simp [hh, hasked, ht] at hs
        | some t =>
          cases hphase : t.phase with
          | finished r =>
            simp only [hh, hasked, ht, hphase, Option.some.injEq] at hs
            cases hs
            exact .join hh hasked ht hphase
          | running p => simp [hh, hasked, ht, hphase] at hs
          | asking c k => simp [hh, hasked, ht, hphase] at hs
  | giveUp =>
    unfold step giveUp at hs
    cases hh : s.handler with
    | none => simp [hh] at hs
    | some h =>
      cases hasked : h.asked with
      | none =>
        simp only [hh, hasked, Option.some.injEq] at hs
        cases hs
        exact .giveUp hh hasked
      | some j =>
        simp only [hh, hasked] at hs
        obtain ⟨t, c, k, ht, hphase, rfl⟩ := reply_some hs
        exact .giveUpAsked hh hasked ht hphase

/-! ## The invariant -/

/-- The calls, each on the plugin that the one before left. -/
inductive OneByOne (plugin : P) :
    List (PluginFn P τ × Log EngineCall.Reply × Except String (P × Except String τ)) → P → Prop
  | none : OneByOne plugin [] plugin
  | call {calls : List (PluginFn P τ × Log EngineCall.Reply × Except String (P × Except String τ))} {current : P} {f : PluginFn P τ}
    {log : Log EngineCall.Reply} {r : Except String (P × Except String τ)} (h : OneByOne plugin calls current)
    (hruns : Runs (f current) log r) : OneByOne plugin (calls ++ [(f, log, r)]) (afterCall current r)

/-- The requests of a thread that were handled, with the responses. -/
def handledOf (handled : List (Nat × Sigma EngineCall.Reply)) (i : Nat) : Log EngineCall.Reply :=
  (handled.filter (·.1 = i)).map (·.2)

/-- The thread waits for a response. -/
def Asking (threads : List (PluginThread P τ)) (j : Nat) : Prop := ∃ t c k, threads[j]? = some t ∧ t.phase = .asking c k

structure Sound (plugin : P) (s : PluginCalls P τ) : Prop where
  follows : ∀ (i : Nat) (t : PluginThread P τ), s.threads[i]? = some t → t.Follows
  nodup : s.waiting.Nodup
  asking : ∀ j ∈ s.waiting, Asking s.threads j
  current : ∀ h, s.handler = some h → ∃ t, s.threads[h.thread]? = some t ∧ t.origin = h.fn s.plugin
  oneByOne : OneByOne plugin s.returned s.plugin
  heard : ∀ i t, s.threads[i]? = some t → (handledOf s.handled i).Sublist t.log
  known : ∀ entry ∈ s.handled, entry.1 < s.threads.length

theorem get_set {threads : List (PluginThread P τ)} {i : Nat} {t : PluginThread P τ} (t' : PluginThread P τ)
    (ht : threads[i]? = some t) (j : Nat) : (threads.set i t')[j]? = if j = i then some t' else threads[j]? := by
  rw [List.getElem?_set]
  by_cases hj : i = j
  · rw [if_pos hj, if_pos hj.symm, if_pos (List.getElem?_eq_some_iff.mp ht).1]
  · rw [if_neg hj, if_neg fun h => hj h.symm]

theorem get_append {threads : List (PluginThread P τ)} {t u : PluginThread P τ} {i : Nat} (h : (threads ++ [u])[i]? = some t) :
    threads[i]? = some t ∨ (i = threads.length ∧ t = u) := by
  rw [List.getElem?_append] at h
  split at h
  · exact .inl h
  · rw [List.getElem?_singleton] at h
    split at h
    · exact .inr ⟨by omega, (Option.some.inj h).symm⟩
    · cases h

section

variable {plugin : P} {s s' : PluginCalls P τ} {a : PluginCallAct P τ}

/-- A thread that is set, and all the others. -/
theorem forall_set {G : Nat → PluginThread P τ → Prop} {threads : List (PluginThread P τ)} {i : Nat} {t t' : PluginThread P τ}
    (ht : threads[i]? = some t) (h : ∀ j u, j ≠ i → threads[j]? = some u → G j u) (h' : G i t') :
    ∀ j u, (threads.set i t')[j]? = some u → G j u := by
  intro j u hu
  rw [get_set t' ht] at hu
  split at hu
  · rename_i hj
    cases hu
    exact hj ▸ h'
  · rename_i hj
    exact h j u hj hu

theorem follows_step (hs : s.Sound plugin) (hmoves : Moves s a s') :
    ∀ (i : Nat) (t : PluginThread P τ), s'.threads[i]? = some t → t.Follows := by
  have hothers : ∀ (i j : Nat) (u : PluginThread P τ), j ≠ i → s.threads[j]? = some u → u.Follows := fun _ j u _ hu => hs.follows j u hu
  cases hmoves with
  | begin hnone =>
    intro i t ht
    rcases get_append ht with ht | ⟨-, rfl⟩
    · exact hs.follows i t ht
    · exact Resumes.refl _
  | send ht hphase hasks =>
    refine forall_set ht (hothers _) ?_
    exact ⟨hasks, (hs.follows _ _ ht).running hphase⟩
  | onHost ht hphase hhost => exact forall_set ht (hothers _) (((hs.follows _ _ ht).running hphase).call _)
  | finish ht hphase =>
    refine forall_set ht (hothers _) ?_
    have hrun := (hs.follows _ _ ht).running hphase [] _ (.done _)
    rw [List.append_nil] at hrun
    exact hrun
  | take hh hqueue hasked => exact hs.follows
  | answer hh hasked ht hphase => exact forall_set ht (hothers _) (((hs.follows _ _ ht).asking hphase).2.call _)
  | join hh hasked ht hphase => exact hs.follows
  | giveUp hh hasked => exact hs.follows
  | giveUpAsked hh hasked ht hphase => exact forall_set ht (hothers _) (((hs.follows _ _ ht).asking hphase).2.call _)

/-! ### The requests on the channel -/

theorem asking_set {threads : List (PluginThread P τ)} {i j : Nat} {t t' : PluginThread P τ} (ht : threads[i]? = some t)
    (hj : Asking threads j) (hne : j ≠ i) : Asking (threads.set i t') j := by
  obtain ⟨u, c, k, hu, hphase⟩ := hj
  refine ⟨u, c, k, ?_, hphase⟩
  rw [get_set t' ht, if_neg hne]
  exact hu

theorem waiting_asked {h : PluginHandler P τ} {j : Nat} (hh : s.handler = some h) (hasked : h.asked = some j) :
    s.waiting = s.queue ++ [j] := by
  unfold waiting
  rw [hh, Option.bind_some, hasked]
  rfl

theorem waiting_idle {h : PluginHandler P τ} (hh : s.handler = some h) (hasked : h.asked = none) : s.waiting = s.queue := by
  unfold waiting
  rw [hh, Option.bind_some, hasked]
  exact List.append_nil _

theorem waiting_none (hnone : s.handler = none) : s.waiting = s.queue := by
  unfold waiting
  rw [hnone]
  exact List.append_nil _

theorem waiting_step (hnodup : s.waiting.Nodup) (hasking : ∀ j ∈ s.waiting, Asking s.threads j) (hmoves : Moves s a s') :
    s'.waiting.Nodup ∧ ∀ j ∈ s'.waiting, Asking s'.threads j := by
  have hrunning : ∀ {i t p}, s.threads[i]? = some t → t.phase = .running p → ∀ j ∈ s.waiting, j ≠ i := by
    intro i t p ht hphase j hj heq
    obtain ⟨u, c, k, hu, hasks⟩ := hasking j hj
    rw [heq, ht] at hu
    cases hu
    rw [hphase] at hasks
    cases hasks
  cases hmoves with
  | begin hnone =>
    have hsame : s.waiting = s.queue := waiting_none hnone
    rw [waiting_idle rfl rfl]
    dsimp only
    rw [← hsame]
    refine ⟨hnodup, fun j hj => ?_⟩
    obtain ⟨t, c, k, ht, hphase⟩ := hasking j hj
    exact ⟨t, c, k, by rw [List.getElem?_append_left (List.getElem?_eq_some_iff.mp ht).1]; exact ht, hphase⟩
  | @send i t c k ht hphase hasks =>
    have hnot : i ∉ s.waiting := fun hi => hrunning ht hphase i hi rfl
    have hperm : List.Perm (waiting { s.setThread i { t with phase := .asking c k } with queue := s.queue ++ [i] }) (i :: s.waiting) := by
      unfold waiting
      dsimp only [setThread]
      rw [List.append_assoc]
      exact List.perm_middle
    refine ⟨hperm.nodup_iff.mpr (List.nodup_cons.mpr ⟨hnot, hnodup⟩), fun j hj => ?_⟩
    rcases List.mem_cons.mp (hperm.mem_iff.mp hj) with rfl | hj
    · exact ⟨{ t with phase := .asking c k }, c, k, by dsimp only [setThread]; rw [get_set _ ht, if_pos rfl], rfl⟩
    · exact asking_set ht (hasking j hj) fun heq => hnot (heq ▸ hj)
  | onHost ht hphase hhost => exact ⟨hnodup, fun j hj => asking_set ht (hasking j hj) (hrunning ht hphase j hj)⟩
  | finish ht hphase => exact ⟨hnodup, fun j hj => asking_set ht (hasking j hj) (hrunning ht hphase j hj)⟩
  | @take h j queue hh hqueue hasked =>
    rw [waiting_idle hh hasked, hqueue] at hnodup hasking
    have hperm : (queue ++ [j]).Perm (j :: queue) := List.perm_append_singleton j queue
    rw [waiting_asked rfl rfl]
    exact ⟨hperm.nodup_iff.mpr hnodup, fun i hi => hasking i (hperm.mem_iff.mp hi)⟩
  | @answer replies h j t c k hh hasked ht hphase =>
    rw [waiting_asked hh hasked] at hnodup hasking
    rw [waiting_idle rfl rfl]
    have hsplit := List.nodup_append.mp hnodup
    refine ⟨hsplit.1, fun i hi => asking_set ht (hasking i (List.mem_append_left _ hi)) ?_⟩
    exact hsplit.2.2 i hi j (List.mem_singleton_self j)
  | join hh hasked ht hphase =>
    rw [waiting_idle hh hasked] at hnodup hasking
    rw [waiting_none rfl]
    exact ⟨hnodup, hasking⟩
  | giveUp hh hasked =>
    rw [waiting_idle hh hasked] at hnodup hasking
    rw [waiting_none rfl]
    exact ⟨hnodup, hasking⟩
  | @giveUpAsked h j t c k hh hasked ht hphase =>
    rw [waiting_asked hh hasked] at hnodup hasking
    rw [waiting_none rfl]
    have hsplit := List.nodup_append.mp hnodup
    refine ⟨hsplit.1, fun i hi => asking_set ht (hasking i (List.mem_append_left _ hi)) ?_⟩
    exact hsplit.2.2 i hi j (List.mem_singleton_self j)

/-! ### The replies and the plugin -/

theorem handledOf_append (handled : List (Nat × Sigma EngineCall.Reply)) (entry : Nat × Sigma EngineCall.Reply) (i : Nat) :
    handledOf (handled ++ [entry]) i = handledOf handled i ++ if entry.1 = i then [entry.2] else [] := by
  unfold handledOf
  rw [List.filter_append, List.map_append]
  congr 1
  by_cases h : entry.1 = i <;> simp [h]

theorem heard_step (hs : s.Sound plugin) (hmoves : Moves s a s') :
    ∀ (i : Nat) (t : PluginThread P τ), s'.threads[i]? = some t → (handledOf s'.handled i).Sublist t.log := by
  have hothers : ∀ (i j : Nat) (u : PluginThread P τ), j ≠ i → s.threads[j]? = some u → (handledOf s.handled j).Sublist u.log :=
    fun _ j u _ hu => hs.heard j u hu
  cases hmoves with
  | begin hnone =>
    intro i t ht
    rcases get_append ht with ht | ⟨rfl, rfl⟩
    · exact hs.heard i t ht
    · have hnew : handledOf s.handled s.threads.length = [] := by
        unfold handledOf
        rw [List.map_eq_nil_iff, List.filter_eq_nil_iff]
        intro entry hentry heq
        have hlt := hs.known entry hentry
        rw [of_decide_eq_true heq] at hlt
        omega
      exact (List.sublist_nil.mpr hnew)
  | send ht hphase hasks =>
    have hheard := hs.heard _ _ ht
    exact forall_set ht (hothers _) hheard
  | onHost ht hphase hhost => exact forall_set ht (hothers _) ((hs.heard _ _ ht).trans (List.sublist_append_left ..))
  | finish ht hphase =>
    have hheard := hs.heard _ _ ht
    exact forall_set ht (hothers _) hheard
  | take hh hqueue hasked => exact hs.heard
  | @answer replies h j t c k hh hasked ht hphase =>
    refine forall_set ht (fun i u hi hu => ?_) ?_
    · rw [handledOf_append, if_neg fun heq => hi heq.symm, List.append_nil]
      exact hs.heard i u hu
    · rw [handledOf_append, if_pos rfl]
      exact (hs.heard j t ht).append (List.Sublist.refl _)
  | join hh hasked ht hphase => exact hs.heard
  | giveUp hh hasked => exact hs.heard
  | giveUpAsked hh hasked ht hphase => exact forall_set ht (hothers _) ((hs.heard _ _ ht).trans (List.sublist_append_left ..))

theorem known_step (hs : s.Sound plugin) (hmoves : Moves s a s') : ∀ entry ∈ s'.handled, entry.1 < s'.threads.length := by
  have hset : ∀ (i : Nat) (t : PluginThread P τ), ∀ entry ∈ s.handled, entry.1 < (s.threads.set i t).length := by
    intro i t entry hentry
    rw [List.length_set]
    exact hs.known entry hentry
  cases hmoves with
  | begin hnone =>
    intro entry hentry
    have hlt := hs.known entry hentry
    rw [List.length_append]
    omega
  | send ht hphase hasks => exact hset _ _
  | onHost ht hphase hhost => exact hset _ _
  | finish ht hphase => exact hset _ _
  | take hh hqueue hasked => exact hs.known
  | answer hh hasked ht hphase =>
    intro entry hentry
    rcases List.mem_append.mp hentry with hentry | hentry
    · exact hset _ _ entry hentry
    · rw [List.mem_singleton.mp hentry]
      dsimp only [setThread]
      rw [List.length_set]
      exact (List.getElem?_eq_some_iff.mp ht).1
  | join hh hasked ht hphase => exact hs.known
  | giveUp hh hasked => exact hs.known
  | giveUpAsked hh hasked ht hphase => exact hset _ _

theorem current_step (hs : s.Sound plugin) (hmoves : Moves s a s') :
    ∀ h, s'.handler = some h → ∃ t, s'.threads[h.thread]? = some t ∧ t.origin = h.fn s'.plugin := by
  have hset : ∀ {i t t'}, s.threads[i]? = some t → t'.origin = t.origin → ∀ h, s.handler = some h →
      ∃ u, (s.threads.set i t')[h.thread]? = some u ∧ u.origin = h.fn s.plugin := by
    intro i t t' ht horigin h hh
    obtain ⟨u, hu, hfn⟩ := hs.current h hh
    rw [get_set t' ht]
    split
    · rename_i heq
      rw [heq, ht] at hu
      cases hu
      exact ⟨t', rfl, horigin.trans hfn⟩
    · exact ⟨u, hu, hfn⟩
  cases hmoves with
  | begin hnone =>
    intro h hh
    cases hh
    exact ⟨_, List.getElem?_concat_length, rfl⟩
  | send ht hphase hasks => exact hset ht rfl
  | onHost ht hphase hhost => exact hset ht rfl
  | finish ht hphase => exact hset ht rfl
  | take hh hqueue hasked =>
    intro h' hh'
    cases hh'
    have hcurrent := hs.current _ hh
    exact hcurrent
  | @answer replies h j t c k hh hasked ht hphase =>
    intro h' hh'
    cases hh'
    have hcurrent := @hset j t (t.resume c k (replies c)) ht rfl _ hh
    exact hcurrent
  | join hh hasked ht hphase => exact fun _ hh' => by cases hh'
  | giveUp hh hasked => exact fun _ hh' => by cases hh'
  | giveUpAsked hh hasked ht hphase => exact fun _ hh' => by cases hh'

theorem sound_step (hs : s.Sound plugin) (hstep : s.step a = some s') : s'.Sound plugin := by
  have hmoves := step_moves hstep
  obtain ⟨hnodup, hasking⟩ := waiting_step hs.nodup hs.asking hmoves
  refine ⟨follows_step hs hmoves, hnodup, hasking, current_step hs hmoves, ?_, heard_step hs hmoves, known_step hs hmoves⟩
  cases hmoves with
  | @join h t r hh hasked ht hphase =>
    obtain ⟨u, hu, hfn⟩ := hs.current h hh
    rw [ht] at hu
    cases hu
    exact hs.oneByOne.call (hfn ▸ (hs.follows _ t ht).finished hphase)
  | begin | send | onHost | finish | take | answer | giveUp | giveUpAsked => exact hs.oneByOne

theorem sound_init (plugin : P) : (init plugin : PluginCalls P τ).Sound plugin where
  follows := fun _ _ h => by cases h
  nodup := List.nodup_nil
  asking := fun _ h => by cases h
  current := fun _ h => by cases h
  oneByOne := .none
  heard := fun _ _ h => by cases h
  known := fun _ h => by cases h

/-! ## Calls that are waited for -/

def IsOver (threads : List (PluginThread P τ)) (j : Nat) : Prop := ∃ t r, threads[j]? = some t ∧ t.phase = .finished r

/-- A call is given up only when its function is over. -/
def Patient (s : PluginCalls P τ) : PluginCallAct P τ → Prop
  | .giveUp => ∀ h, s.handler = some h → IsOver s.threads h.thread
  | _ => True

/-- The last thread is the one that is waited for, if any; the others are over. -/
structure InTurn (s : PluginCalls P τ) : Prop where
  quiet : ∀ j, j < s.threads.length → (∀ h, s.handler = some h → h.thread ≠ j) → IsOver s.threads j
  last : ∀ h, s.handler = some h → h.thread + 1 = s.threads.length
  order : s.handled.map (·.2) = (s.threads.flatMap (·.log)).filter asks

theorem split_last {threads : List (PluginThread P τ)} {i : Nat} {t : PluginThread P τ} (ht : threads[i]? = some t)
    (hi : i + 1 = threads.length) : ∃ l, threads = l ++ [t] ∧ l.length = i := by
  rcases List.eq_nil_or_concat' threads with rfl | ⟨l, u, rfl⟩
  · cases ht
  · have hlength : l.length = i := by
      rw [List.length_append, List.length_singleton] at hi
      omega
    subst hlength
    rw [List.getElem?_concat_length] at ht
    cases ht
    exact ⟨l, rfl, rfl⟩

theorem not_over {threads : List (PluginThread P τ)} {i : Nat} {t : PluginThread P τ} (ht : threads[i]? = some t)
    (hphase : ∀ r, t.phase ≠ .finished r) : ¬ IsOver threads i := by
  rintro ⟨u, r, hu, hover⟩
  rw [ht] at hu
  cases hu
  exact hphase r hover

/-- A thread that is not over is waited for. -/
theorem InTurn.own (h : s.InTurn) {i : Nat} {t : PluginThread P τ} (ht : s.threads[i]? = some t) (hphase : ∀ r, t.phase ≠ .finished r) :
    ∃ h, s.handler = some h ∧ h.thread = i := by
  by_contra hno
  refine not_over ht hphase (h.quiet i (List.getElem?_eq_some_iff.mp ht).1 fun h' hh' heq => hno ⟨h', hh', heq⟩)

theorem isOver_set {threads : List (PluginThread P τ)} {i j : Nat} {t t' : PluginThread P τ} (ht : threads[i]? = some t)
    (hj : IsOver threads j) (hphase : ∀ r, t.phase ≠ .finished r) : IsOver (threads.set i t') j := by
  obtain ⟨u, r, hu, hover⟩ := hj
  refine ⟨u, r, ?_, hover⟩
  rw [get_set t' ht, if_neg]
  · exact hu
  · rintro rfl
    exact not_over ht hphase ⟨u, r, hu, hover⟩

/-- What the thread that is waited for does to its log goes to the end of the order. -/
theorem InTurn.set (h : s.InTurn) (log : Log EngineCall.Reply) {i : Nat} {t t' : PluginThread P τ} {handler : Option (PluginHandler P τ)} {queue : List Nat}
    {handled : List (Nat × Sigma EngineCall.Reply)} (ht : s.threads[i]? = some t)
    (hphase : ∀ r, t.phase ≠ .finished r) (hhandler : handler.map (·.thread) = s.handler.map (·.thread)) (hlog : t'.log = t.log ++ log)
    (hhandled : handled.map (·.2) = s.handled.map (·.2) ++ log.filter asks) :
    InTurn { s.setThread i t' with handler, queue, handled } where
  quiet := fun j hj hno => by
    have hno' : ∀ h, s.handler = some h → h.thread ≠ j := by
      intro h hh heq
      rw [hh] at hhandler
      obtain ⟨h', hh', hthread⟩ := Option.map_eq_some_iff.mp hhandler
      exact hno h' hh' (hthread.trans heq)
    refine isOver_set ht (h.quiet j ?_ hno') hphase
    dsimp only [setThread] at hj
    rw [List.length_set] at hj
    exact hj
  last := fun h' hh' => by
    dsimp only [setThread] at hh' ⊢
    rw [List.length_set]
    rw [hh'] at hhandler
    obtain ⟨h₀, hh₀, hthread⟩ := Option.map_eq_some_iff.mp hhandler.symm
    have hlast := h.last h₀ hh₀
    rw [hthread] at hlast
    exact hlast
  order := by
    obtain ⟨h₀, hh₀, hthread⟩ := h.own ht hphase
    obtain ⟨l, hl, hlength⟩ := split_last ht (hthread ▸ h.last h₀ hh₀)
    have hset : s.threads.set i t' = l ++ [t'] := by
      rw [hl, ← hlength]
      simp
    dsimp only [setThread]
    rw [hhandled, h.order, hset, hl]
    simp [hlog]

theorem inTurn_step (hs : s.Sound plugin) (h : s.InTurn) (hpatient : s.Patient a) (hmoves : Moves s a s') : s'.InTurn := by
  cases hmoves with
  | @begin f hnone =>
    refine ⟨fun j hj hno => ?_, fun h' hh' => ?_, ?_⟩
    · dsimp only at hj
      rw [List.length_append, List.length_singleton] at hj
      have hne := hno _ rfl
      dsimp only at hne
      obtain ⟨t, r, ht, hover⟩ := h.quiet j (by omega) fun h' hh' => by
        rw [hnone] at hh'
        cases hh'
      exact ⟨t, r, by rw [List.getElem?_append_left (by omega)]; exact ht, hover⟩
    · cases hh'
      dsimp only
      rw [List.length_append, List.length_singleton]
    · dsimp only
      rw [h.order]
      simp [PluginThread.start]
  | send ht hphase hasks => exact h.set [] ht (by simp [hphase]) rfl (List.append_nil _).symm (List.append_nil _).symm
  | onHost ht hphase hhost => exact h.set [_] ht (by simp [hphase]) rfl rfl (by simp [asks, hhost])
  | finish ht hphase => exact h.set [] ht (by simp [hphase]) rfl (List.append_nil _).symm (List.append_nil _).symm
  | take hh hqueue hasked =>
    refine ⟨fun j hj hno => h.quiet j hj fun h' hh' => ?_, fun h' hh' => ?_, h.order⟩
    · rw [hh] at hh'
      cases hh'
      have hne := hno _ rfl
      exact hne
    · cases hh'
      have hlast := h.last _ hh
      exact hlast
  | answer hh hasked ht hphase =>
    have hasks := ((hs.follows _ _ ht).asking hphase).1
    exact h.set [_] ht (by simp [hphase]) (by rw [hh]; rfl) rfl (by simp [asks, hasks])
  | @join h₀ t r hh hasked ht hphase =>
    refine ⟨fun j hj _ => ?_, fun h' hh' => (by cases hh'), h.order⟩
    by_cases heq : h₀.thread = j
    · exact heq ▸ ⟨t, r, ht, hphase⟩
    · refine h.quiet j hj fun h' hh' => ?_
      rw [hh] at hh'
      cases hh'
      exact heq
  | @giveUp h₀ hh hasked =>
    refine ⟨fun j hj _ => ?_, fun h' hh' => (by cases hh'), h.order⟩
    by_cases heq : h₀.thread = j
    · exact heq ▸ hpatient h₀ hh
    · refine h.quiet j hj fun h' hh' => ?_
      rw [hh] at hh'
      cases hh'
      exact heq
  | @giveUpAsked h₀ j t c k hh hasked ht hphase =>
    -- the call is of the thread that asks, so it is not over
    obtain ⟨h', hh', heq⟩ := h.own ht (by simp [hphase])
    rw [hh] at hh'
    cases hh'
    exact (not_over ht (by simp [hphase]) (heq ▸ hpatient h₀ hh)).elim

theorem inTurn_init (plugin : P) : (init plugin : PluginCalls P τ).InTurn where
  quiet := fun j hj _ => by cases hj
  last := fun _ h => by cases h
  order := rfl

end

end PluginCalls

open PluginCalls

/-- **Calls of the plugin are one by one.** Whatever the interleaving of the threads and the calls, and
whenever calls are given up: a call that returns ran its function on the plugin that the last one to
return left; a thread gets the replies to its own requests, in order, and its requests are handled at
most once. When calls are given up only after their functions are over, the requests are handled call by
call. -/
theorem plugin_calls {plugin : P} {acts : List (PluginCallAct P τ)} {s : PluginCalls P τ}
    (hrun : run PluginCalls.step (init plugin) acts = some s) :
    OneByOne plugin s.returned s.plugin ∧
      (∀ (i : Nat) (t : PluginThread P τ), s.threads[i]? = some t →
        (handledOf s.handled i).Sublist t.log ∧ ∀ r, t.phase = .finished r → Runs t.origin t.log r) ∧
      (Along PluginCalls.step Patient (init plugin) acts → s.handled.map (·.2) = (s.threads.flatMap (·.log)).filter asks) := by
  have hs : s.Sound plugin := run_invariant_all PluginCalls.step (fun _ _ _ h hstep => sound_step h hstep) (sound_init plugin) hrun
  refine ⟨hs.oneByOne, fun i t ht => ⟨hs.heard i t ht, fun r hphase => (hs.follows i t ht).finished hphase⟩, fun hpatient => ?_⟩
  have hturn : s.Sound plugin ∧ s.InTurn := by
    refine run_invariant PluginCalls.step (I := fun s => s.Sound plugin ∧ s.InTurn) (fun s a s' h hpatient hstep => ?_)
      ⟨sound_init plugin, inTurn_init plugin⟩ hpatient hrun
    exact ⟨sound_step h.1 hstep, inTurn_step h.1 h.2 hpatient (step_moves hstep)⟩
  exact hturn.2.order

/-- A function that runs a command, on a plugin that counts its calls. -/
def countedSh (body : String) : PluginFn Nat String := fun n =>
  .call (.runSh body) fun
    | .ok resp => .done (.ok (n + 1, .ok resp.stdout))
    | .error err => .done (.ok (n + 1, .error err))

def shReplies : (c : EngineCall) → c.Reply
  | .runSh body => .ok ⟨0, body, ""⟩
  | .stopAllJobs | .createJob .. | .startJob _ | .stopJob _ | .renderTemplate .. | .saveConfig _ | .addTask .. => .ok ()
  | .getJobs => .ok []
  | .protocolDataStamp => .ok none

/-- Two calls, one after the other. -/
def twoCalls : List (PluginCallAct Nat String) :=
  [.begin (countedSh "a"), .send 0, .take, .answer shReplies, .finish 0, .join,
    .begin (countedSh "b"), .send 1, .take, .answer shReplies, .finish 1, .join]

theorem plugin_calls_two : ∃ s, run PluginCalls.step (init 0) twoCalls = some s ∧ s.plugin = 2 ∧
    s.handled.map (·.2) = (s.threads.flatMap (·.log)).filter asks := by
  have hpatient : Along PluginCalls.step Patient (init 0) twoCalls := by
    refine ⟨trivial, trivial, trivial, trivial, trivial, trivial, trivial, trivial, trivial, trivial, trivial, trivial, trivial⟩
  obtain ⟨s, hrun, hplugin⟩ : ∃ s, run PluginCalls.step (init 0) twoCalls = some s ∧ s.plugin = 2 := ⟨_, rfl, rfl⟩
  exact ⟨s, hrun, hplugin, (plugin_calls hrun).2.2 hpatient⟩

/-- The request of a call that is given up is handled in the next one, before those of that call. -/
theorem request_left_behind : ∃ s, run PluginCalls.step (init 0)
      [.begin (countedSh "a"), .giveUp, .begin (countedSh "b"), .send 0, .send 1, .take, .answer shReplies] = some s ∧
    s.handler.map (·.thread) = some 1 ∧ s.handled.map (·.1) = [0] :=
  ⟨_, rfl, rfl, rfl⟩

end Blockvisor
