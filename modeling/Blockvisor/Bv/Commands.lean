/-
Commands of the API (`commands.rs`, `services/api.rs`). A pass takes the
commands left in the cache file, or fetches new ones when there are none, and
works through them. The list is kept in the order its end is popped in.

`CommandsSt.pass` is a pass under any answers of the API and any outcome of
what it writes. What was fetched, acknowledged and answered is on record as a
ghost. `commands_in_order` is about histories of passes in which every command
has a type, every write of the cache is whole, and the API can be connected to
after a command was executed: the commands are answered in the order they were
fetched, each once, and refused only while the service is not Ok.
-/
import Blockvisor.Lib.Machine

namespace Blockvisor

open Machine

/-! ## Errors and their reports -/

/-- `commands::Error`; a retry hint is in seconds. -/
inductive CommandError where
  | internal (msg : String)
  | serviceNotReady
  | serviceBroken
  | notSupported
  | nodeNotFound
  | blockingJobRunning (retryHint : Nat)
  | nodeUpgradeRollback (err : String)
  | nodeUpgradeFailure (err rollbackErr : String)
  deriving DecidableEq

def CommandError.text : CommandError → String
  | .internal msg => s!"BV internal error: '{msg}'"
  | .serviceNotReady => "BV service not ready, try again later"
  | .serviceBroken => "BV service is broken, call support"
  | .notSupported => "command is not supported"
  | .nodeNotFound => "node not found"
  | .blockingJobRunning retryHint =>
    s!"can't proceed while 'upgrade_blocking' job is running. Try again after {retryHint} seconds."
  | .nodeUpgradeRollback err => s!"node upgrade failed with: '{err}'; but then successfully rolled back"
  | .nodeUpgradeFailure err rollbackErr =>
    s!"node upgrade failed with: '{err}'; and then rollback failed with: '{rollbackErr}'; node ended in failed state"

inductive CommandExitCode where
  | ok
  | internalError
  | serviceNotReady
  | serviceBroken
  | notSupported
  | nodeNotFound
  | blockingJobRunning
  | nodeUpgradeRollback
  | nodeUpgradeFailure
  deriving DecidableEq

structure CommandUpdateRequest where
  commandId : String
  exitCode : CommandExitCode
  exitMessage : Option String
  retryHintSeconds : Option Nat
  deriving DecidableEq

def CommandError.exitCode : CommandError → CommandExitCode
  | .internal _ => .internalError
  | .serviceNotReady => .serviceNotReady
  | .serviceBroken => .serviceBroken
  | .notSupported => .notSupported
  | .nodeNotFound => .nodeNotFound
  | .blockingJobRunning _ => .blockingJobRunning
  | .nodeUpgradeRollback _ => .nodeUpgradeRollback
  | .nodeUpgradeFailure _ _ => .nodeUpgradeFailure

def CommandError.retryHintSeconds : CommandError → Option Nat
  | .blockingJobRunning retryHint => some retryHint
  | _ => none

/-- The request of `handle_command_result`. -/
def updateRequest (commandId : String) : Except CommandError Unit → CommandUpdateRequest
  | .ok () => ⟨commandId, .ok, none, none⟩
  | .error err => ⟨commandId, err.exitCode, some err.text, err.retryHintSeconds⟩

/-! ## Passes -/

/-- A command of the API; one whose type is not known to the daemon has none. -/
structure Command (κ : Type) where
  commandId : String
  command : Option κ
  deriving DecidableEq

inductive ServiceStatus where
  | undefined
  | ok
  | updating
  | broken
  deriving DecidableEq

/-- The commands cache. -/
inductive CommandsFile (κ : Type) where
  | missing
  | unreadable
  | holds (commands : List (Command κ))
  deriving DecidableEq

/-- What a write of the cache leaves: the file as it was, the commands at the beginning of the list,
what cannot be decoded, or the whole list. -/
inductive CacheCut where
  | nothing
  | first (n : Nat)
  | garbled
  | all
  deriving DecidableEq

/-- What became of a command: it was executed, or refused for the status of the service. -/
inductive Answer where
  | executed (result : Except CommandError Unit)
  | refused (status : ServiceStatus)

structure CommandsSt (κ : Type) where
  cache : CommandsFile κ
  updates : List CommandUpdateRequest
  fetched : List (Command κ)
  acked : List (Command κ)
  answered : List (Command κ × Answer)

/-- What a command meets: the status of the service, the result of executing it, whether the API can
be connected to and takes the update, and what becomes of the cache. -/
structure CommandEnv where
  status : ServiceStatus
  result : Except CommandError Unit
  connect : Bool
  update : Bool
  save : CacheCut

/-- What a pass meets: whether the cache can be read and the API connected to, the commands pending,
what becomes of the cache they are written to, which of them are acknowledged, and what each of
those it works on meets. -/
structure PassEnv (κ : Type) where
  load : Bool
  connect : Bool
  pending : Except String (List (Command κ))
  saveFetched : CacheCut
  ack : Nat → Bool
  command : Nat → CommandEnv

namespace CommandsSt

variable {κ : Type}

def init : CommandsSt κ := ⟨.missing, [], [], [], []⟩

/-- `save_cache`: a failure is only logged. -/
def saveCache (s : CommandsSt κ) (commands : List (Command κ)) : CacheCut → CommandsSt κ
  | .nothing => s
  | .first n => { s with cache := .holds (commands.take n) }
  | .garbled => { s with cache := .unreadable }
  | .all => { s with cache := .holds commands }

/-- `load`; a missing cache is an empty one. -/
def loadCache (s : CommandsSt κ) (env : PassEnv κ) : Option (List (Command κ)) :=
  match s.cache with
  | .missing => some []
  | .unreadable => none
  | .holds commands => if env.load then some commands else none

/-- The commands acknowledged, by the numbers of those the API takes. -/
def ackedOf (commands : List (Command κ)) (ack : Nat → Bool) : List (Command κ) :=
  (commands.zipIdx.filter fun p => ack p.2).map (·.1)

/-- `get_pending_commands`: the commands to work on, and the state with what was fetched. -/
def getPendingCommands (s : CommandsSt κ) (env : PassEnv κ) (commands : List (Command κ)) :
    List (Command κ) × CommandsSt κ :=
  if commands.isEmpty && env.connect then
    match env.pending with
    | .error _ => (commands, s)
    | .ok pending =>
      let commands := pending.reverse
      let s := { s with fetched := s.fetched ++ pending }.saveCache commands env.saveFetched
      (commands, { s with acked := s.acked ++ ackedOf commands env.ack })
  else (commands, s)

/-- `handle_command_result`, with the commands that are left; the state after it when it returns. -/
def handleCommandResult (s : CommandsSt κ) (env : CommandEnv) (commandId : String) (result : Except CommandError Unit)
    (left : List (Command κ)) : Option (CommandsSt κ) :=
  if env.connect then
    let s := if env.update then { s with updates := s.updates ++ [updateRequest commandId result] } else s
    some (s.saveCache left env.save)
  else none

/-- The answer of `send_service_status_update`. -/
def refusal : ServiceStatus → CommandError
  | .broken => .serviceBroken
  | _ => .serviceNotReady

/-- `process_commands`, on the commands in the order they are popped; the first is the `i`-th of the
pass. -/
def processFrom (env : Nat → CommandEnv) : Nat → List (Command κ) → CommandsSt κ → CommandsSt κ
  | _, [], s => s
  | i, c :: rest, s =>
    if (env i).status = .ok then
      match c.command with
      | none => s
      | some _ =>
        let s := { s with answered := s.answered ++ [(c, .executed (env i).result)] }
        match s.handleCommandResult (env i) c.commandId (env i).result rest.reverse with
        | none => s
        | some s => processFrom env (i + 1) rest s
    else
      match s.handleCommandResult (env i) c.commandId (.error (refusal (env i).status)) rest.reverse with
      | none => s
      | some s => { s with answered := s.answered ++ [(c, .refused (env i).status)] }

/-- `get_and_process_pending_commands`. -/
def pass (s : CommandsSt κ) (env : PassEnv κ) : CommandsSt κ :=
  match s.loadCache env with
  | none => s
  | some commands =>
    let (commands, s) := s.getPendingCommands env commands
    processFrom env.command 0 commands.reverse s

/-- A crash between two passes loses nothing that is modelled: a pass starts from the cache. -/
def step (s : CommandsSt κ) (env : PassEnv κ) : Option (CommandsSt κ) := some (s.pass env)

end CommandsSt

/-! ## Answering in order -/

section

variable {κ : Type}

/-- Every command has a type, every write is whole, and a command that was executed can be reported. -/
structure PassEnv.Spared (env : PassEnv κ) : Prop where
  typed : ∀ pending, env.pending = .ok pending → ∀ c ∈ pending, c.command.isSome
  saveFetched : env.saveFetched = .all
  save : ∀ i, (env.command i).save = .all
  connect : ∀ i, (env.command i).status = .ok → (env.command i).connect = true

/-- The API can be reached, the service is Ok and the cache can be read. -/
structure PassEnv.Served (env : PassEnv κ) : Prop where
  load : env.load = true
  connect : env.connect = true
  pending : ∃ pending, env.pending = .ok pending
  status : ∀ i, (env.command i).status = .ok

/-- The commands in the cache, the next one to work on first. -/
def CommandsFile.queue : CommandsFile κ → Option (List (Command κ))
  | .missing => some []
  | .unreadable => none
  | .holds commands => some commands.reverse

/-- The commands are answered, or in the queue, in the order they were fetched. -/
structure CommandsSt.InOrder (s : CommandsSt κ) (queue : List (Command κ)) : Prop where
  fetched : s.answered.map (·.1) ++ queue = s.fetched
  typed : ∀ c ∈ queue, c.command.isSome
  acked : ∀ c ∈ s.acked, c ∈ s.fetched
  refused : ∀ c status, (c, Answer.refused status) ∈ s.answered → status ≠ .ok

/-- What the state holds between passes. -/
def CommandsSt.Ordered (s : CommandsSt κ) : Prop := ∃ queue, s.cache.queue = some queue ∧ s.InOrder queue

theorem CommandsSt.InOrder.congr {s s' : CommandsSt κ} {queue : List (Command κ)} (h : s.InOrder queue)
    (hanswered : s'.answered = s.answered) (hfetched : s'.fetched = s.fetched) (hacked : s'.acked = s.acked) :
    s'.InOrder queue where
  fetched := by
    rw [hanswered, hfetched]
    exact h.fetched
  typed := h.typed
  acked := by
    rw [hacked, hfetched]
    exact h.acked
  refused := by
    rw [hanswered]
    exact h.refused

/-- The command at the head of the queue is answered. -/
theorem CommandsSt.InOrder.answer {s : CommandsSt κ} {c : Command κ} {rest : List (Command κ)} (h : s.InOrder (c :: rest))
    (answer : Answer) (hanswer : ∀ status, answer = .refused status → status ≠ .ok) :
    CommandsSt.InOrder { s with answered := s.answered ++ [(c, answer)] } rest where
  fetched := by
    rw [← h.fetched]
    simp
  typed := fun d hd => h.typed d (List.mem_cons_of_mem _ hd)
  acked := h.acked
  refused := by
    intro d status hd
    rcases List.mem_append.mp hd with hd | hd
    · exact h.refused d status hd
    · exact hanswer status (Prod.mk.inj (List.mem_singleton.mp hd)).2.symm

/-- A report that is made and saved leaves the rest of the commands in the cache. -/
theorem handleCommandResult_some {s s' : CommandsSt κ} {env : CommandEnv} {commandId : String}
    {result : Except CommandError Unit} {left : List (Command κ)}
    (hs : s.handleCommandResult env commandId result left = some s') (hsave : env.save = .all) :
    s'.cache = .holds left ∧ s'.answered = s.answered ∧ s'.fetched = s.fetched ∧ s'.acked = s.acked := by
  unfold CommandsSt.handleCommandResult at hs
  split at hs
  · cases hs
    rw [hsave]
    split <;> exact ⟨rfl, rfl, rfl, rfl⟩
  · cases hs

theorem handleCommandResult_isSome (s : CommandsSt κ) {env : CommandEnv} (commandId : String)
    (result : Except CommandError Unit) (left : List (Command κ)) (hconnect : env.connect = true) :
    ∃ s', s.handleCommandResult env commandId result left = some s' := by
  unfold CommandsSt.handleCommandResult
  rw [if_pos hconnect]
  exact ⟨_, rfl⟩

/-- Working through the queue keeps the order. -/
theorem ordered_processFrom {env : Nat → CommandEnv} (hsave : ∀ i, (env i).save = .all)
    (hconnect : ∀ i, (env i).status = .ok → (env i).connect = true) :
    ∀ {queue : List (Command κ)} {i : Nat} {s : CommandsSt κ}, s.cache.queue = some queue → s.InOrder queue →
      (CommandsSt.processFrom env i queue s).Ordered := by
  intro queue
  induction queue with
  | nil => intro i s hq h; exact ⟨[], hq, h⟩
  | cons c rest ih =>
    intro i s hq h
    unfold CommandsSt.processFrom
    split
    · rename_i hok
      obtain ⟨k, hk⟩ := Option.isSome_iff_exists.mp (h.typed c (List.mem_cons_self ..))
      rw [hk]
      dsimp only
      obtain ⟨s', hs'⟩ := handleCommandResult_isSome
        { s with answered := s.answered ++ [(c, .executed (env i).result)] } c.commandId (env i).result rest.reverse
        (hconnect i hok)
      rw [hs']
      obtain ⟨hcache, hanswered, hfetched, hacked⟩ := handleCommandResult_some hs' (hsave i)
      refine ih ?_ ((h.answer _ fun _ he => by cases he).congr hanswered hfetched hacked)
      rw [hcache, CommandsFile.queue, List.reverse_reverse]
    · rename_i hnot
      split
      · exact ⟨c :: rest, hq, h⟩
      · rename_i s' hs'
        obtain ⟨hcache, hanswered, hfetched, hacked⟩ := handleCommandResult_some hs' (hsave i)
        refine ⟨rest, ?_, ?_⟩
        · rw [hcache, CommandsFile.queue, List.reverse_reverse]
        · have hanswer := h.answer (.refused (env i).status) fun status he => by
            cases he
            exact hnot
          exact hanswer.congr (by simp [hanswered]) hfetched hacked

/-- What a pass finds to work on is in the cache, fetched before or now. -/
theorem ordered_getPending {s : CommandsSt κ} {env : PassEnv κ} {commands : List (Command κ)} (henv : env.Spared)
    (hload : s.loadCache env = some commands) (h : s.Ordered) :
    (s.getPendingCommands env commands).2.cache.queue = some (s.getPendingCommands env commands).1.reverse ∧
      (s.getPendingCommands env commands).2.InOrder (s.getPendingCommands env commands).1.reverse := by
  obtain ⟨queue, hq, hin⟩ := h
  have hqueue : queue = commands.reverse := by
    unfold CommandsSt.loadCache at hload
    unfold CommandsFile.queue at hq
    split at hload
    · rename_i hc
      rw [hc] at hq
      cases hload
      cases hq
      rfl
    · cases hload
    · rename_i hc
      rw [hc] at hq
      split at hload
      · cases hload
        exact (Option.some.inj hq).symm
      · cases hload
  subst hqueue
  unfold CommandsSt.getPendingCommands
  split
  · rename_i hempty
    split
    · exact ⟨hq, hin⟩
    · rename_i pending hpending
      have hnil : commands = [] := List.isEmpty_iff.mp ((Bool.and_eq_true _ _).mp hempty).1
      subst hnil
      rw [henv.saveFetched]
      refine ⟨rfl, ?_, ?_, ?_, hin.refused⟩
      · dsimp only [CommandsSt.saveCache]
        rw [List.reverse_reverse, ← hin.fetched]
        simp
      · intro c hc
        rw [List.reverse_reverse] at hc
        exact henv.typed pending hpending c hc
      · intro c hc
        dsimp only [CommandsSt.saveCache] at hc ⊢
        rcases List.mem_append.mp hc with hc | hc
        · exact List.mem_append_left _ (hin.acked c hc)
        · obtain ⟨p, hp, rfl⟩ := List.mem_map.mp hc
          have hmem := List.fst_mem_of_mem_zipIdx (List.mem_filter.mp hp).1
          exact List.mem_append_right _ (List.mem_reverse.mp hmem)
  · exact ⟨hq, hin⟩

theorem ordered_pass {s : CommandsSt κ} {env : PassEnv κ} (henv : env.Spared) (h : s.Ordered) : (s.pass env).Ordered := by
  unfold CommandsSt.pass
  split
  · exact h
  · rename_i commands hload
    obtain ⟨hq, hin⟩ := ordered_getPending henv hload h
    exact ordered_processFrom henv.save henv.connect hq hin

/-- So does a history of passes. -/
theorem ordered_run {passes : List (PassEnv κ)} {s₀ s : CommandsSt κ} (h : s₀.Ordered) (henv : ∀ env ∈ passes, env.Spared)
    (hrun : run CommandsSt.step s₀ passes = some s) : s.Ordered := by
  have hok : Along CommandsSt.step (fun _ env => env.Spared) s₀ passes :=
    along_of_forall _ fun env henv' _ => henv env henv'
  refine run_invariant CommandsSt.step (fun s env s' h hspared hs => ?_) h hok hrun
  cases hs
  exact ordered_pass hspared h

/-! ## Working through everything -/

/-- While the service is Ok every command of the queue is executed. -/
theorem processFrom_ok {env : Nat → CommandEnv} (hsave : ∀ i, (env i).save = .all)
    (hstatus : ∀ i, (env i).status = .ok) (hconnect : ∀ i, (env i).connect = true) :
    ∀ {queue : List (Command κ)} {i : Nat} {s : CommandsSt κ}, (∀ c ∈ queue, c.command.isSome) → s.cache.queue = some queue →
      (CommandsSt.processFrom env i queue s).cache.queue = some [] ∧
        ∃ results, (CommandsSt.processFrom env i queue s).answered = s.answered ++ results ∧
          results.map (·.1) = queue ∧ ∀ r ∈ results, ∃ res, r.2 = .executed res := by
  intro queue
  induction queue with
  | nil => intro i s _ hq; exact ⟨hq, [], by simp [CommandsSt.processFrom], rfl, by simp⟩
  | cons c rest ih =>
    intro i s htyped hq
    unfold CommandsSt.processFrom
    rw [if_pos (hstatus i)]
    obtain ⟨k, hk⟩ := Option.isSome_iff_exists.mp (htyped c (List.mem_cons_self ..))
    rw [hk]
    dsimp only
    obtain ⟨s', hs'⟩ := handleCommandResult_isSome
      { s with answered := s.answered ++ [(c, .executed (env i).result)] } c.commandId (env i).result rest.reverse
      (hconnect i)
    rw [hs']
    obtain ⟨hcache, hanswered, _, _⟩ := handleCommandResult_some hs' (hsave i)
    obtain ⟨hempty, results, hres, hmap, hall⟩ := ih (i := i + 1) (s := s')
      (fun d hd => htyped d (List.mem_cons_of_mem _ hd)) (by rw [hcache, CommandsFile.queue, List.reverse_reverse])
    refine ⟨hempty, (c, .executed (env i).result) :: results, ?_, by simp [hmap], ?_⟩
    · rw [hres, hanswered]
      simp
    · intro r hr
      rcases List.mem_cons.mp hr with rfl | hr
      · exact ⟨_, rfl⟩
      · exact hall r hr

/-- **A pass works through the cache**: with the API reachable and the service Ok, every command that
was left or is fetched is executed, and none is left. -/
theorem pass_drains {s : CommandsSt κ} {env : PassEnv κ} (henv : env.Spared) (hserved : env.Served) (h : s.Ordered) :
    (s.pass env).cache.queue = some [] ∧ ∃ results, (s.pass env).answered = s.answered ++ results ∧
      ∀ r ∈ results, ∃ res, r.2 = .executed res := by
  unfold CommandsSt.pass
  split
  · rename_i hload
    obtain ⟨queue, hq, _⟩ := h
    unfold CommandsSt.loadCache at hload
    split at hload
    · cases hload
    · rename_i hc
      rw [hc] at hq
      cases hq
    · rw [if_pos hserved.load] at hload
      cases hload
  · rename_i commands hload
    obtain ⟨hq, hin⟩ := ordered_getPending henv hload h
    obtain ⟨hempty, results, hres, _, hall⟩ := processFrom_ok henv.save hserved.status
      (fun i => henv.connect i (hserved.status i)) (i := 0) hin.typed hq
    refine ⟨hempty, results, ?_, hall⟩
    rw [hres]
    congr 1
    unfold CommandsSt.getPendingCommands
    split
    · split
      · rfl
      · rw [henv.saveFetched]
        rfl
    · rfl

/-- **Commands are answered in the order they were fetched**, each once: executed, or refused while
the service was not Ok; the others are still in the cache, and a pass with the API reachable and the
service Ok executes them all. -/
theorem commands_in_order (passes : List (PassEnv κ)) {s : CommandsSt κ}
    (hrun : run CommandsSt.step .init passes = some s) (henv : ∀ env ∈ passes, env.Spared) :
    (∃ queue, s.cache.queue = some queue ∧ s.answered.map (·.1) ++ queue = s.fetched) ∧
      (∀ c ∈ s.acked, c ∈ s.fetched) ∧
      (∀ c status, (c, Answer.refused status) ∈ s.answered → status ≠ .ok) ∧
      ∀ env : PassEnv κ, env.Spared → env.Served → (s.pass env).cache.queue = some [] ∧
        (s.pass env).answered.map (·.1) = (s.pass env).fetched ∧
        ∃ results, (s.pass env).answered = s.answered ++ results ∧ ∀ r ∈ results, ∃ res, r.2 = .executed res := by
  have hordered : s.Ordered :=
    ordered_run ⟨[], rfl, rfl, by simp, by simp [CommandsSt.init], by simp [CommandsSt.init]⟩ henv hrun
  refine ⟨?_, ?_, ?_, fun env hspared hserved => ?_⟩
  · obtain ⟨queue, hq, hin⟩ := hordered
    exact ⟨queue, hq, hin.fetched⟩
  · obtain ⟨_, _, hin⟩ := hordered
    exact hin.acked
  · obtain ⟨_, _, hin⟩ := hordered
    exact hin.refused
  · obtain ⟨hempty, hresults⟩ := pass_drains hspared hserved hordered
    obtain ⟨queue, hq, hin⟩ := ordered_pass hspared hordered
    rw [hempty] at hq
    cases hq
    refine ⟨hempty, ?_, hresults⟩
    rw [← hin.fetched, List.append_nil]

/-- A pass that fetches one command and acknowledges it, under a status of the service. -/
def onePass (status : ServiceStatus) : PassEnv Unit where
  load := true
  connect := true
  pending := .ok [⟨"c1", some ()⟩]
  saveFetched := .all
  ack := fun _ => true
  command := fun _ => ⟨status, .ok (), true, true, .all⟩

theorem onePass_spared (status : ServiceStatus) : (onePass status).Spared where
  typed := by
    intro pending hp c hc
    cases hp
    rw [List.mem_singleton.mp hc]
    rfl
  saveFetched := rfl
  save := fun _ => rfl
  connect := fun _ _ => rfl

theorem commands_in_order_one : ∃ s : CommandsSt Unit, run CommandsSt.step .init [onePass .ok] = some s ∧
    s.answered.map (·.1) = s.fetched := by
  refine ⟨_, rfl, ?_⟩
  obtain ⟨⟨queue, hq, hfetched⟩, _⟩ := commands_in_order [onePass .ok] rfl fun env henv => by
    rw [List.mem_singleton.mp henv]
    exact onePass_spared .ok
  cases hq
  exact (List.append_nil _).symm.trans hfetched

/-- **A command is refused while the service is updating**: it was acknowledged, is no longer in the
cache, and was not executed. -/
theorem command_refused : ∃ s : CommandsSt Unit, run CommandsSt.step .init [onePass .updating] = some s ∧
    s.cache.queue = some [] ∧ ∃ c ∈ s.acked, ∀ res, (c, Answer.executed res) ∉ s.answered := by
  refine ⟨_, rfl, rfl, ⟨"c1", some ()⟩, by decide, fun res hres => ?_⟩
  cases List.mem_singleton.mp hres

end

end Blockvisor
