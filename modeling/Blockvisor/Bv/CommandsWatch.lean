/-
How commands reach the daemon (`blockvisord.rs`, `services/mqtt.rs`). A listener
keeps a session with the broker of messages and sends a notification, on a watch
channel, for each message, on each connect, and after each pause between two
sessions. A worker waits for a notification and makes a pass (`Commands`), of
which more may come while it does: they are one. The daemon may be restarted at
any time but while a command is executed.

A connect only asks for the subscription. Of a command that is issued after the
pass of that connect, and before the subscription is in effect, no message
comes; nor does a pass fetch anything while there are commands in the cache, or
the API cannot be reached. `Heard` says of each step that no command is missed
in one of these ways. `Covered` is what then keeps: a command that is not
fetched has a notification, a message or a new session ahead of it.
-/
import Blockvisor.Bv.Commands

namespace Blockvisor

open Machine

/-- The subscription of a session is asked for, or in effect; or the connection is lost. -/
inductive MqttSession where
  | opened
  | subscribed
  | lost
  deriving DecidableEq

/-- `create_commands_listener`. -/
inductive CommandsListener where
  | connecting
  | listening (session : MqttSession)
  | sleeping
  deriving DecidableEq

/-- `create_external_api_listener`, with what its pass has found to work on. -/
inductive CommandsWorker (κ : Type) where
  | waiting
  | begun
  | working (commands : List (Command κ)) (env : PassEnv κ)

def CommandsWorker.isBegun {κ : Type} : CommandsWorker κ → Bool
  | .begun => true
  | _ => false

/-- `issued` are the commands of the API, `inbox` the messages on their way, and `unseen` tells that the
watch channel has been sent to since it was last looked at. -/
structure CommandsWatch (κ : Type) where
  issued : List (Command κ)
  commands : CommandsSt κ
  worker : CommandsWorker κ
  unseen : Bool
  listener : CommandsListener
  inbox : Nat

inductive WatchAct (κ : Type) where
  | issue (c : Command κ)
  /-- a message again -/
  | publish
  | subscribe
  | lose
  | connect (ok : Bool)
  | deliver
  | error
  | wake
  | begin
  | fetch (env : PassEnv κ)
  | work
  | restart

namespace CommandsWatch

variable {κ : Type}

def init : CommandsWatch κ := ⟨[], .init, .waiting, false, .connecting, 0⟩

/-- The first part of a pass: what is in the cache, or else what is pending. -/
def fetch (s : CommandsWatch κ) (env : PassEnv κ) : CommandsWatch κ :=
  match s.commands.loadCache env with
  | none => { s with worker := .waiting }
  | some commands =>
    { s with
      worker := .working (s.commands.getPendingCommands env commands).1 env
      commands := (s.commands.getPendingCommands env commands).2 }

/-- The rest of a pass. -/
def work (s : CommandsWatch κ) : Option (CommandsWatch κ) :=
  match s.worker with
  | .working commands env =>
    some { s with worker := .waiting, commands := CommandsSt.processFrom env.command 0 commands.reverse s.commands }
  | _ => none

def step (s : CommandsWatch κ) : WatchAct κ → Option (CommandsWatch κ)
  | .issue c =>
    some { s with
      issued := s.issued ++ [c]
      inbox := if s.listener = .listening .subscribed then s.inbox + 1 else s.inbox }
  | .publish => if s.listener = .listening .subscribed then some { s with inbox := s.inbox + 1 } else none
  | .subscribe => if s.listener = .listening .opened then some { s with listener := .listening .subscribed } else none
  | .lose =>
    match s.listener with
    | .listening _ => some { s with listener := .listening .lost }
    | _ => none
  | .connect ok =>
    if s.listener = .connecting then
      some (if ok then { s with listener := .listening .opened, inbox := 0, unseen := true } else { s with listener := .sleeping })
    else none
  | .deliver =>
    match s.listener, s.inbox with
    | .listening _, n + 1 => some { s with inbox := n, unseen := true }
    | _, _ => none
  | .error =>
    match s.listener with
    | .listening _ => some { s with listener := .sleeping, inbox := 0 }
    | _ => none
  | .wake => if s.listener = .sleeping then some { s with listener := .connecting, unseen := true } else none
  | .begin =>
    match s.worker with
    | .waiting => if s.unseen then some { s with worker := .begun, unseen := false } else none
    | _ => none
  | .fetch env => if s.worker.isBegun then some (s.fetch env) else none
  | .work => s.work
  | .restart => some { s with worker := .waiting, unseen := false, listener := .connecting, inbox := 0 }

/-- The two parts are the pass. -/
theorem fetch_work (s : CommandsWatch κ) (env : PassEnv κ) :
    ((s.fetch env).work.getD (s.fetch env)).commands = s.commands.pass env := by
  unfold fetch CommandsSt.pass
  cases s.commands.loadCache env with
  | none => rfl
  | some commands => rfl

/-! ## What may be missed -/

/-- The commands that no pass has fetched. -/
def missing (s : CommandsWatch κ) : List (Command κ) := s.issued.drop s.commands.fetched.length

/-- A notification waits, or a message is on its way, or a new session is ahead. -/
def Alert (s : CommandsWatch κ) : Prop := s.unseen = true ∨ 0 < s.inbox ∨ s.listener ≠ .listening .subscribed

/-- No command is missed: there is none, or a pass is about to fetch it, or one will be made. -/
def Covered (s : CommandsWatch κ) : Prop := s.missing = [] ∨ s.worker.isBegun = true ∨ s.Alert

/-- A pass gets what is pending. -/
structure Fetches (s : CommandsWatch κ) (env : PassEnv κ) : Prop where
  empty : s.commands.cache.queue = some []
  load : env.load = true
  connect : env.connect = true
  pending : ∃ l, env.pending = .ok l

/-- What the API has pending is what was not fetched. No command is issued between the last pass and the
subscription; and a pass that does not get what is pending is not the last one. -/
def Heard (s : CommandsWatch κ) : WatchAct κ → Prop
  | .subscribe => s.missing = [] ∨ s.worker.isBegun = true ∨ s.unseen = true
  | .fetch env =>
    env.Spared ∧ (∀ l, env.pending = .ok l → l = s.missing) ∧ (s.Fetches env ∨ s.missing = [] ∨ s.Alert)
  | _ => True

/-- Nothing is left to do until a command is issued. -/
structure AtRest (s : CommandsWatch κ) : Prop where
  worker : s.worker = .waiting
  unseen : s.unseen = false
  listener : s.listener = .listening .subscribed
  inbox : s.inbox = 0

/-! ## The invariant -/

/-- What is in the cache and what a pass is to work on. -/
structure Sound (s : CommandsWatch κ) : Prop where
  ordered : s.commands.Ordered
  fetched : s.commands.fetched <+: s.issued
  working : ∀ commands env, s.worker = .working commands env → env.Spared ∧ s.commands.cache.queue = some commands.reverse
  covered : s.Covered

theorem not_alert_of_atRest {s : CommandsWatch κ} (h : s.AtRest) : ¬ s.Alert := by
  rintro (hunseen | hinbox | hlistener)
  · rw [h.unseen] at hunseen
    cases hunseen
  · rw [h.inbox] at hinbox
    omega
  · exact hlistener h.listener

theorem sound_init : (init : CommandsWatch κ).Sound where
  ordered := ⟨[], rfl, rfl, by simp, by simp [init, CommandsSt.init], by simp [init, CommandsSt.init]⟩
  fetched := List.nil_prefix
  working := fun _ _ h => by cases h
  covered := .inl rfl

theorem missing_eq_nil_iff {s : CommandsWatch κ} (h : s.commands.fetched <+: s.issued) :
    s.missing = [] ↔ s.commands.fetched = s.issued := by
  have hparts : s.commands.fetched ++ s.missing = s.issued := List.prefix_iff_eq_append.mp h
  constructor
  · intro hnone
    rw [hnone, List.append_nil] at hparts
    exact hparts
  · intro heq
    unfold missing
    rw [heq, List.drop_length]

/-- Working through the commands fetches none. -/
theorem processFrom_fetched {env : Nat → CommandEnv} :
    ∀ {queue : List (Command κ)} {i : Nat} {s : CommandsSt κ}, (CommandsSt.processFrom env i queue s).fetched = s.fetched := by
  have hresult : ∀ {s s' : CommandsSt κ} {env : CommandEnv} {id : String} {result : Except CommandError Unit} {left : List (Command κ)},
      s.handleCommandResult env id result left = some s' → s'.fetched = s.fetched := by
    intro s s' env id result left hs
    unfold CommandsSt.handleCommandResult at hs
    split at hs
    · cases hs
      unfold CommandsSt.saveCache
      cases env.save <;> cases env.update <;> rfl
    · cases hs
  intro queue
  induction queue with
  | nil => exact rfl
  | cons c rest ih =>
    intro i s
    unfold CommandsSt.processFrom
    split
    · cases c.command with
      | none => rfl
      | some k =>
        dsimp only
        split
        · rfl
        · rename_i s' hs'
          rw [ih, hresult hs']
    · split
      · rfl
      · rename_i s' hs'
        have hfetched := hresult hs'
        exact hfetched

/-- A pass gets all that is missing, or nothing. -/
theorem fetch_fetched {s : CommandsWatch κ} {env : PassEnv κ} (hpending : ∀ l, env.pending = .ok l → l = s.missing) :
    (s.fetch env).commands.fetched = s.commands.fetched ∨
      (s.fetch env).commands.fetched = s.commands.fetched ++ s.missing := by
  unfold fetch CommandsSt.getPendingCommands
  cases s.commands.loadCache env with
  | none => exact .inl rfl
  | some commands =>
    dsimp only
    split
    · cases hl : env.pending with
      | error err => exact .inl rfl
      | ok l =>
        refine .inr ?_
        rw [← hpending l hl]
        unfold CommandsSt.saveCache
        cases env.saveFetched <;> rfl
    · exact .inl rfl

theorem fetch_missing {s : CommandsWatch κ} {env : PassEnv κ} (hpending : ∀ l, env.pending = .ok l → l = s.missing)
    (hfetches : s.Fetches env) : (s.fetch env).commands.fetched = s.commands.fetched ++ s.missing := by
  have hload : s.commands.loadCache env = some [] := by
    have hempty := hfetches.empty
    unfold CommandsFile.queue at hempty
    unfold CommandsSt.loadCache
    cases hcache : s.commands.cache with
    | missing => rfl
    | unreadable =>
      rw [hcache] at hempty
      cases hempty
    | holds commands =>
      rw [hcache] at hempty
      rw [hfetches.load, List.reverse_eq_nil_iff.mp (Option.some.inj hempty)]
      rfl
  obtain ⟨l, hl⟩ := hfetches.pending
  unfold fetch CommandsSt.getPendingCommands
  rw [hload, hfetches.connect, hl, ← hpending l hl]
  dsimp only [List.isEmpty_nil, Bool.and_self, if_true]
  unfold CommandsSt.saveCache
  cases env.saveFetched <;> rfl

theorem fetch_same (s : CommandsWatch κ) (env : PassEnv κ) :
    (s.fetch env).issued = s.issued ∧ (s.fetch env).unseen = s.unseen ∧ (s.fetch env).listener = s.listener ∧
      (s.fetch env).inbox = s.inbox := by
  unfold fetch
  cases s.commands.loadCache env <;> exact ⟨rfl, rfl, rfl, rfl⟩

theorem sound_fetch {s : CommandsWatch κ} {env : PassEnv κ} (hs : s.Sound) (hspared : env.Spared)
    (hpending : ∀ l, env.pending = .ok l → l = s.missing) (hheard : s.Fetches env ∨ s.missing = [] ∨ s.Alert) :
    (s.fetch env).Sound := by
  have hparts : s.commands.fetched ++ s.missing = s.issued := List.prefix_iff_eq_append.mp hs.fetched
  obtain ⟨hissued, hunseen, hlistener, hinbox⟩ := fetch_same s env
  have hfetched : (s.fetch env).commands.fetched <+: (s.fetch env).issued := by
    rw [hissued]
    rcases fetch_fetched hpending with h | h
    · rw [h]
      exact hs.fetched
    · exact ⟨[], (List.append_nil _).trans (h.trans hparts)⟩
  refine ⟨?_, hfetched, ?_, ?_⟩
  · unfold fetch
    cases hload : s.commands.loadCache env with
    | none => exact hs.ordered
    | some commands =>
      obtain ⟨hqueue, hin⟩ := ordered_getPending hspared hload hs.ordered
      exact ⟨_, hqueue, hin⟩
  · intro commands env' hworker
    unfold fetch at hworker ⊢
    cases hload : s.commands.loadCache env with
    | none =>
      rw [hload] at hworker
      cases hworker
    | some found =>
      rw [hload] at hworker
      cases hworker
      exact ⟨hspared, (ordered_getPending hspared hload hs.ordered).1⟩
  · have hall : s.missing = [] → (s.fetch env).missing = [] := by
      intro hnone
      rw [missing_eq_nil_iff hfetched, hissued, ← hparts]
      rcases fetch_fetched hpending with h | h
      · rw [h, hnone, List.append_nil]
      · exact h
    rcases hheard with hfetches | hnone | halert
    · refine .inl ((missing_eq_nil_iff hfetched).mpr ?_)
      rw [hissued, fetch_missing hpending hfetches, hparts]
    · exact .inl (hall hnone)
    · refine .inr (.inr ?_)
      unfold Alert
      rw [hunseen, hlistener, hinbox]
      exact halert

theorem sound_work {s s' : CommandsWatch κ} (hs : s.Sound) (hstep : s.work = some s') : s'.Sound := by
  unfold work at hstep
  cases hworker : s.worker with
  | waiting =>
    rw [hworker] at hstep
    cases hstep
  | begun =>
    rw [hworker] at hstep
    cases hstep
  | working commands env =>
    rw [hworker] at hstep
    cases hstep
    obtain ⟨hspared, hqueue⟩ := hs.working commands env hworker
    obtain ⟨queue, hq, hin⟩ := hs.ordered
    rw [hqueue] at hq
    cases hq
    have hfetched : (CommandsSt.processFrom env.command 0 commands.reverse s.commands).fetched = s.commands.fetched :=
      processFrom_fetched
    refine ⟨ordered_processFrom hspared.save hspared.connect hqueue hin, ?_, fun _ _ h => (by cases h), ?_⟩
    · dsimp only
      rw [hfetched]
      exact hs.fetched
    · refine hs.covered.imp (fun hnone => ?_) (Or.imp_left fun hbegun => ?_)
      · unfold missing at hnone ⊢
        dsimp only
        rw [hfetched]
        exact hnone
      · rw [hworker] at hbegun
        cases hbegun

/-- What has been fetched stays so, whatever is issued. -/
theorem Sound.of_same {s s' : CommandsWatch κ} (hs : s.Sound) (hcommands : s'.commands = s.commands) (hworker : s'.worker = s.worker)
    (hissued : s.issued <+: s'.issued) (hcovered : s'.Covered) : s'.Sound where
  ordered := hcommands ▸ hs.ordered
  fetched := by
    rw [hcommands]
    exact hs.fetched.trans hissued
  working := fun commands env h => by
    rw [hcommands]
    exact hs.working commands env (hworker ▸ h)
  covered := hcovered

theorem alert_of_unseen {s : CommandsWatch κ} (h : s.unseen = true) : s.Covered := .inr (.inr (.inl h))

theorem alert_of_listener {s : CommandsWatch κ} (h : s.listener ≠ .listening .subscribed) : s.Covered := .inr (.inr (.inr (.inr h)))

theorem sound_step {s s' : CommandsWatch κ} {a : WatchAct κ} (hs : s.Sound) (hheard : s.Heard a) (hstep : s.step a = some s') :
    s'.Sound := by
  cases a with
  | issue c =>
    cases hstep
    refine hs.of_same rfl rfl (List.prefix_append ..) ?_
    by_cases hlistener : s.listener = .listening .subscribed
    · refine .inr (.inr (.inr (.inl ?_)))
      dsimp only
      rw [if_pos hlistener]
      omega
    · exact alert_of_listener hlistener
  | publish =>
    obtain ⟨-, hstep⟩ := Option.ite_none_right_eq_some.mp hstep
    cases hstep
    exact hs.of_same rfl rfl List.prefix_rfl (.inr (.inr (.inr (.inl (Nat.succ_pos _)))))
  | subscribe =>
    obtain ⟨-, hstep⟩ := Option.ite_none_right_eq_some.mp hstep
    cases hstep
    refine hs.of_same rfl rfl List.prefix_rfl ?_
    exact hheard.imp_right (Or.imp_right Or.inl)
  | lose =>
    dsimp only [step] at hstep
    split at hstep
    · cases hstep
      exact hs.of_same rfl rfl List.prefix_rfl (alert_of_listener (by simp))
    · cases hstep
  | connect ok =>
    obtain ⟨-, hstep⟩ := Option.ite_none_right_eq_some.mp hstep
    cases ok with
    | true =>
      cases hstep
      exact hs.of_same rfl rfl List.prefix_rfl (alert_of_unseen rfl)
    | false =>
      cases hstep
      exact hs.of_same rfl rfl List.prefix_rfl (alert_of_listener (by simp))
  | deliver =>
    dsimp only [step] at hstep
    split at hstep
    · cases hstep
      exact hs.of_same rfl rfl List.prefix_rfl (alert_of_unseen rfl)
    · cases hstep
  | error =>
    dsimp only [step] at hstep
    split at hstep
    · cases hstep
      exact hs.of_same rfl rfl List.prefix_rfl (alert_of_listener (by simp))
    · cases hstep
  | wake =>
    obtain ⟨-, hstep⟩ := Option.ite_none_right_eq_some.mp hstep
    cases hstep
    exact hs.of_same rfl rfl List.prefix_rfl (alert_of_unseen rfl)
  | begin =>
    dsimp only [step] at hstep
    split at hstep
    · obtain ⟨-, hstep⟩ := Option.ite_none_right_eq_some.mp hstep
      cases hstep
      exact ⟨hs.ordered, hs.fetched, fun _ _ h => (by cases h), .inr (.inl rfl)⟩
    · cases hstep
  | fetch env =>
    obtain ⟨-, hstep⟩ := Option.ite_none_right_eq_some.mp hstep
    cases hstep
    exact sound_fetch hs hheard.1 hheard.2.1 hheard.2.2
  | work => exact sound_work hs hstep
  | restart =>
    cases hstep
    exact ⟨hs.ordered, hs.fetched, fun _ _ h => (by cases h), alert_of_listener (by simp)⟩

end CommandsWatch

open CommandsWatch

variable {κ : Type}

/-- A pass that meets nothing amiss, with what is pending. -/
def allWell (pending : List (Command Unit)) : PassEnv Unit where
  load := true
  connect := true
  pending := .ok pending
  saveFetched := .all
  ack := fun _ => true
  command := fun _ => ⟨.ok, .ok (), true, true, .all⟩

theorem allWell_spared {pending : List (Command Unit)} (h : ∀ c ∈ pending, c.command.isSome) : (allWell pending).Spared where
  typed := by
    intro l hl
    cases hl
    exact h
  saveFetched := rfl
  save := fun _ => rfl
  connect := fun _ _ => rfl

def firstCommand : Command Unit := ⟨"c1", some ()⟩

/-- A command is issued once the subscription is in effect. -/
def heardActs : List (WatchAct Unit) :=
  [.connect true, .begin, .fetch (allWell []), .work, .subscribe, .issue firstCommand, .deliver, .begin,
    .fetch (allWell [firstCommand]), .work]

/-- A command that is issued while the subscription is only asked for is missed. -/
theorem command_unheard : ∃ s : CommandsWatch Unit,
    run CommandsWatch.step .init [.connect true, .begin, .fetch (allWell []), .work, .issue firstCommand, .subscribe] = some s ∧
      s.AtRest ∧ s.missing = [firstCommand] :=
  ⟨_, rfl, ⟨rfl, rfl, rfl, rfl⟩, rfl⟩

/-- So is one that is issued while a pass leaves commands in the cache, of which the next pass makes an end. -/
theorem command_behind_cache : ∃ s : CommandsWatch Unit,
    run CommandsWatch.step .init [.connect true, .begin, .fetch (allWell []), .work, .subscribe, .issue firstCommand, .deliver, .begin,
      .fetch (allWell [firstCommand]), .restart, .issue ⟨"c2", some ()⟩, .connect true, .begin, .fetch (allWell []), .work,
      .subscribe] = some s ∧ s.AtRest ∧ s.missing = [⟨"c2", some ()⟩] :=
  ⟨_, rfl, ⟨rfl, rfl, rfl, rfl⟩, rfl⟩

end Blockvisor
