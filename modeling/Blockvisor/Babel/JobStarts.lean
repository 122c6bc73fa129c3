/-
What the passes of the jobs manager start. Every runner is started in a pass
and is on record (`started_on_record`). `job_starts_safe`: out of Pending a
job is started only when, in the snapshot of the pass, all it needs finished
with exit code 0 and all it waits for is over; and it is turned into a failure
without that only for a dependency that cannot come to it any more.
`no_start_after_shutdown`: no job is started after a shutdown returned Ok, in
every run in which the lock section of a shutdown comes while the manager's
state is still Shutdown and the manager is not on its way to a pass. In
`start_after_shutdown` it is.
-/
import Blockvisor.Babel.JobFacts

namespace Blockvisor

open Effect Machine

/-! ## Runners are started by passes -/

namespace JobSlot

variable {p : Nat → Prop}

/-- What is said of the number of runners started. -/
def NextIn (p : Nat → Prop) (s : JobSlot) : Prop := p s.next

theorem stable_nextIn : Stable (NextIn p) := ⟨fun h _ _ => h, fun h _ => h, fun h _ _ => h⟩

theorem nextIn_create (name : String) (config : JobConfig) (room : Bool) (env : CreateEnv) :
    Keeps (NextIn p) (NextIn p) (create name config room env) :=
  stable_nextIn.create name config room env (fun _ _ h => h) fun _ h => h

theorem runnerSaves_next (s : JobSlot) (save : RunnerSave) : (s.runnerSaves save).next = s.next :=
  stable_nextIn.runnerSaves (I := NextIn (· = s.next)) rfl save

theorem load_next (s : JobSlot) (removed : Bool) : (s.load removed).next = s.next := by
  unfold load
  split
  · rfl
  · split <;> rfl
  · rfl

/-! ## What a pass starts -/

theorem nextIn_startJobRunner (n : Nat) (fault : Fault Bool) :
    Triple (NextIn (· = n)) (startJobRunner fault) (fun _ => NextIn (· = n + 1)) fun e =>
      match e with
      | .error _ => NextIn (· = n)
      | .killed => NextIn fun k => k = n ∨ k = n + 1 := by
  have hspawn : ∀ s, NextIn (· = n) s → NextIn (· = n + 1) s.spawnRunner := fun s h => congrArg (· + 1) h
  refine Triple.bind (Keeps.gets.exit fun e s h => by cases e <;> exact h) fun pid => ?_
  split
  · exact Triple.bind (Triple.modify hspawn) fun _ => Triple.pure fun _ h => h
  · exact Triple.throw fun _ h => h
  · refine Triple.bind (R := fun _ => NextIn fun k => k = n ∨ k = n + 1) ?_ fun _ => Triple.kill fun _ h => h
    exact Triple.when (fun _ => Triple.modify fun s h => .inr (hspawn s h)) fun _ _ h => .inl h

/-- At most one more runner was started. -/
theorem nextIn_startJob (n : Nat) (name : String) (env : RunnerEnv) :
    Triple (NextIn (· = n)) (startJob name env) (fun _ => NextIn fun k => k = n ∨ k = n + 1) fun _ =>
      NextIn fun k => k = n ∨ k = n + 1 := by
  have hsame : ∀ s, NextIn (· = n) s → NextIn (fun k => k = n ∨ k = n + 1) s := fun _ h => .inl h
  have hmore : ∀ s, NextIn (· = n + 1) s → NextIn (fun k => k = n ∨ k = n + 1) s := fun _ h => .inr h
  have hkeep : ∀ {α : Type} {m : SlotM α} {k : Nat}, (∀ s, NextIn (· = k) s → NextIn (fun k => k = n ∨ k = n + 1) s) →
      Keeps (NextIn (· = k)) (NextIn (· = k)) m →
      Triple (NextIn (· = k)) m (fun _ => NextIn fun k => k = n ∨ k = n + 1) fun _ => NextIn fun k => k = n ∨ k = n + 1 :=
    fun himp hm => hm.conseq (fun _ h => h) (fun _ => himp) fun e s h => by cases e <;> exact himp s h
  refine Triple.bind (R := fun _ => NextIn (· = n)) ?_ fun cleared => ?_
  · exact Triple.attempt ((stable_nextIn.clearStatus env.clear).exit fun e s h => by cases e with
      | error _ => exact h
      | killed => exact .inl h)
  cases cleared with
  | error _ => exact hkeep hsame (stable_nextIn.setState _)
  | ok _ =>
    refine Triple.bind (R := attempted (fun _ => NextIn (· = n + 1)) (NextIn (· = n))) ?_ fun spawned => ?_
    · exact Triple.attempt ((nextIn_startJobRunner n env.spawn).exit fun e s h => by cases e <;> exact h)
    cases spawned with
    | ok pid => exact hkeep hmore (stable_nextIn.setState _)
    | error err => exact hkeep hsame (stable_nextIn.fail _ env.save)

theorem nextIn_handleStoppedJob (n : Nat) (name : String) (env : RunnerEnv) :
    Triple (NextIn (· = n)) (handleStoppedJob name env) (fun _ => NextIn fun k => k = n ∨ k = n + 1) fun _ =>
      NextIn fun k => k = n ∨ k = n + 1 := by
  have hsame : ∀ s, NextIn (· = n) s → NextIn (fun k => k = n ∨ k = n + 1) s := fun _ h => .inl h
  refine Triple.bind (R := fun _ => NextIn (· = n)) (Triple.gets.post fun _ _ h => h.2) fun slot => ?_
  split
  · exact Triple.pure hsame
  dsimp only
  split
  · exact (stable_nextIn.setState _).conseq (fun _ h => h) (fun _ => hsame) fun e s h => by cases e <;> exact hsame s h
  · exact nextIn_startJob n name env

/-! ## Dependencies -/

/-- A needed job that is over as it should be, and one that is there but cannot come to it. -/
def Succeeded (job : Job) : Prop := ∃ message, job.state = .inactive (.finished (some 0) message)

def Failed (job : Job) : Prop :=
  job.state = .inactive .stopped ∨
    ∃ exitCode message, job.state = .inactive (.finished exitCode message) ∧ exitCode ≠ some 0

/-- All that a job needs finished with exit code 0, and all it waits for finished or was stopped. -/
structure DepsMet (deps : String → Option Job) (config : JobConfig) : Prop where
  needs : ∀ name ∈ config.needs.getD [], ∃ job, deps name = some job ∧ Succeeded job
  waitFor : ∀ name ∈ config.waitFor.getD [], ∃ job, deps name = some job ∧ job.state.decided = true

/-- Something a job needs failed, was stopped or does not exist, or something it waits for does not
exist. -/
def DepsBroken (deps : String → Option Job) (config : JobConfig) : Prop :=
  (∃ name ∈ config.needs.getD [], ∀ job, deps name = some job → Failed job) ∨
    ∃ name ∈ config.waitFor.getD [], deps name = none

/-- What an answer about dependencies says: all are met, one is not decided yet, or one is broken. -/
def Answers (deps : String → Option Job) (met : Job → Prop) (broken : Option Job → Prop) (names : List String) :
    Except String Bool → Prop
  | .ok true => ∀ n ∈ names, ∃ job, deps n = some job ∧ met job
  | .ok false => ∃ n ∈ names, ∃ job, deps n = some job ∧ job.state.decided = false
  | .error _ => ∃ n ∈ names, broken (deps n)

theorem Answers.cons {deps : String → Option Job} {met : Job → Prop} {broken : Option Job → Prop} {name : String}
    {names : List String} {job : Job} (hdep : deps name = some job) (hmet : met job) {answer : Except String Bool}
    (h : Answers deps met broken names answer) : Answers deps met broken (name :: names) answer := by
  match answer with
  | .ok true =>
    intro n hn
    rcases List.mem_cons.mp hn with rfl | hn
    · exact ⟨job, hdep, hmet⟩
    · exact h n hn
  | .ok false =>
    obtain ⟨n, hn, h⟩ := h
    exact ⟨n, List.mem_cons_of_mem _ hn, h⟩
  | .error _ =>
    obtain ⟨n, hn, h⟩ := h
    exact ⟨n, List.mem_cons_of_mem _ hn, h⟩

theorem needsFinished_answers (name : String) (deps : String → Option Job) (needs : List String) :
    Answers deps Succeeded (fun dep => ∀ job, dep = some job → Failed job) needs (needsFinished name deps needs) := by
  induction needs with
  | nil => simp [needsFinished, Answers]
  | cons needed rest ih =>
    unfold needsFinished
    have hmem : needed ∈ needed :: rest := List.mem_cons_self ..
    split
    · rename_i hdep
      exact ⟨needed, hmem, by simp [hdep]⟩
    rename_i job hdep
    have hfailed : Failed job → ∀ j, deps needed = some j → Failed j := fun h j hj =>
      Option.some.inj (hdep.symm.trans hj) ▸ h
    split
    · rename_i exitCode message hstate
      split
      · rename_i hzero
        exact ih.cons hdep ⟨message, hzero ▸ hstate⟩
      · rename_i hzero
        exact ⟨needed, hmem, hfailed (.inr ⟨exitCode, message, hstate, hzero⟩)⟩
    · rename_i hstate
      exact ⟨needed, hmem, hfailed (.inl hstate)⟩
    · rename_i hfinished hstopped
      refine ⟨needed, hmem, job, hdep, ?_⟩
      cases hstate : job.state with
      | active pid => rfl
      | inactive status =>
        cases status with
        | finished exitCode message => exact absurd hstate (hfinished exitCode message)
        | stopped => exact absurd hstate hstopped
        | pending => rfl
        | running => rfl

theorem waitsFinished_answers (name : String) (deps : String → Option Job) (waitFor : List String) :
    Answers deps (·.state.decided = true) (· = none) waitFor (waitsFinished name deps waitFor) := by
  induction waitFor with
  | nil => simp [waitsFinished, Answers]
  | cons waited rest ih =>
    unfold waitsFinished
    have hmem : waited ∈ waited :: rest := List.mem_cons_self ..
    split
    · rename_i hdep
      exact ⟨waited, hmem, hdep⟩
    rename_i job hdep
    split
    · rename_i hdecided
      exact ih.cons hdep hdecided
    · rename_i hdecided
      exact ⟨waited, hmem, job, hdep, Bool.eq_false_iff.mpr hdecided⟩

theorem depsFinished_ok {name : String} {deps : String → Option Job} {config : JobConfig}
    (h : depsFinished name deps config = .ok true) : DepsMet deps config := by
  have hneeds := needsFinished_answers name deps (config.needs.getD [])
  have hwaits := waitsFinished_answers name deps (config.waitFor.getD [])
  unfold depsFinished at h
  split at h
  · rename_i hok
    rw [hok] at hneeds
    rw [h] at hwaits
    exact ⟨hneeds, hwaits⟩
  · rename_i hnot
    exact absurd h hnot

theorem depsFinished_waits {name : String} {deps : String → Option Job} {config : JobConfig}
    (h : depsFinished name deps config = .ok false) :
    ∃ n ∈ config.waitingFor, ∃ job, deps n = some job ∧ job.state.decided = false := by
  have hneeds := needsFinished_answers name deps (config.needs.getD [])
  have hwaits := waitsFinished_answers name deps (config.waitFor.getD [])
  unfold depsFinished at h
  split at h
  · rw [h] at hwaits
    obtain ⟨n, hn, hdep⟩ := hwaits
    exact ⟨n, List.mem_append_right _ hn, hdep⟩
  · rw [h] at hneeds
    obtain ⟨n, hn, hdep⟩ := hneeds
    exact ⟨n, List.mem_append_left _ hn, hdep⟩

theorem depsFinished_error {name : String} {deps : String → Option Job} {config : JobConfig} {err : String}
    (h : depsFinished name deps config = .error err) : DepsBroken deps config := by
  have hneeds := needsFinished_answers name deps (config.needs.getD [])
  have hwaits := waitsFinished_answers name deps (config.waitFor.getD [])
  unfold depsFinished at h
  split at h
  · rw [h] at hwaits
    exact .inr hwaits
  · rw [h] at hneeds
    exact .inl hneeds

/-- The check of a job that is Pending. -/
theorem checkInactiveJob_pending {name : String} {deps : String → Option Job} {env : RunnerEnv} {s : JobSlot} {job : Job}
    {waitingFor : List String} (hjob : s.job = some job) (hstate : job.state = .inactive (.pending waitingFor)) :
    checkInactiveJob name deps env s =
      (match depsFinished name deps job.config with
      | .ok true => startJob name env
      | .ok false => pure ()
      | .error err => fail err env.save) s := by
  unfold checkInactiveJob
  rw [gets_bind, hjob]
  cases job with
  | mk config state =>
    cases hstate
    rfl

theorem updateActiveJob_inactive {name : String} {ps : List Nat} {env : RunnerEnv} {s : JobSlot}
    (h : s.activePid = none) : updateActiveJob name ps env s = (.ok (), s) := by
  unfold updateActiveJob
  rw [gets_bind, h]
  rfl

theorem nextIn_updateActiveJob (n : Nat) (name : String) (ps : List Nat) (env : RunnerEnv) :
    Triple (NextIn (· = n)) (updateActiveJob name ps env) (fun _ => NextIn fun k => k = n ∨ k = n + 1) fun _ =>
      NextIn fun k => k = n ∨ k = n + 1 := by
  refine Triple.bind (R := fun _ => NextIn (· = n)) (Triple.gets.post fun _ _ h => h.2) fun pid => ?_
  split
  · split
    · exact Triple.pure fun _ h => .inl h
    · exact nextIn_handleStoppedJob n name env
  · exact Triple.pure fun _ h => .inl h

theorem nextIn_checkInactiveJob (n : Nat) (name : String) (deps : String → Option Job) (env : RunnerEnv) :
    Triple (NextIn (· = n)) (checkInactiveJob name deps env) (fun _ => NextIn fun k => k = n ∨ k = n + 1) fun _ =>
      NextIn fun k => k = n ∨ k = n + 1 := by
  have hsame : ∀ s, NextIn (· = n) s → NextIn (fun k => k = n ∨ k = n + 1) s := fun _ h => .inl h
  refine Triple.bind (R := fun _ => NextIn (· = n)) (Triple.gets.post fun _ _ h => h.2) fun job => ?_
  split
  · exact Triple.pure hsame
  split
  · split
    · exact nextIn_startJob n name env
    · exact Triple.pure hsame
    · exact (stable_nextIn.fail _ env.save).conseq (fun _ h => h) (fun _ => hsame) fun e s h => by cases e <;> exact hsame s h
  · exact nextIn_handleStoppedJob n name env
  · exact Triple.pure hsame

end JobSlot

/-! ## The record of the passes -/

/-- Out of Pending, a job is started with its dependencies met, and fails without that for a broken
one. -/
def JobEvent.Safe (e : JobEvent) : Prop :=
  ∀ waitingFor, e.job.state = .inactive (.pending waitingFor) →
    (e.started = true → JobSlot.DepsMet e.deps e.job.config) ∧
      ∀ exitCode message, e.after = some (.inactive (.finished exitCode message)) →
        JobSlot.DepsMet e.deps e.job.config ∨ JobSlot.DepsBroken e.deps e.job.config

/-- The number of runners a record says were started for a job. -/
def startsOf (name : String) (passed : List JobEvent) : Nat := (passed.filter fun e => e.name = name ∧ e.started).length

/-- Every runner is on record, and the record is safe. -/
structure StartsOk (s : JobsSt) : Prop where
  counted : ∀ name, (s.slots name).next = startsOf name s.passed
  safe : ∀ e ∈ s.passed, e.Safe

theorem StartsOk.congr {s s' : JobsSt} (h : StartsOk s) (hnext : ∀ name, (s'.slots name).next = (s.slots name).next)
    (hpassed : s'.passed = s.passed) : StartsOk s' where
  counted := by
    intro name
    rw [hnext, hpassed]
    exact h.counted name
  safe := by
    rw [hpassed]
    exact h.safe

namespace JobsSt

/-- A slot is replaced by one of which as many runners were started. -/
theorem next_setSlot {s : JobsSt} {name : String} {slot : JobSlot} (h : slot.next = (s.slots name).next) (n : String) :
    ((s.setSlot name slot).slots n).next = (s.slots n).next := by
  by_cases hn : n = name
  · rw [hn, setSlot_same, h]
  · rw [setSlot_other s slot hn]

theorem startsOk_crash {s : JobsSt} (h : StartsOk s) : StartsOk s.crash := h.congr (fun _ => rfl) rfl

theorem startsOk_onSlot {α : Type} (name : String) {m : SlotM α}
    (hm : ∀ p, Keeps (JobSlot.NextIn p) (JobSlot.NextIn p) m) : Keeps StartsOk StartsOk (onSlot name m) := by
  have hnext : ∀ slot, (m slot).2.next = slot.next := fun slot => (hm (· = slot.next)).run rfl
  exact Keeps.zoom (R := fun a b => b.next = a.next) hnext (fun s slot hslot h => h.congr (next_setSlot hslot) rfl) fun _ h => h

theorem startsOf_append (name : String) (passed : List JobEvent) (e : JobEvent) :
    startsOf name (passed ++ [e]) = startsOf name passed + if e.name = name ∧ e.started = true then 1 else 0 := by
  unfold startsOf
  rw [List.filter_append, List.length_append]
  by_cases h : e.name = name ∧ e.started = true
  · rw [if_pos h, List.filter_singleton, decide_eq_true h]
    rfl
  · rw [if_neg h, List.filter_singleton, decide_eq_false h]
    rfl

/-- A half of a pass on one job keeps a record that is safe, when it starts at most one runner, and
none without an event, and its event is safe. -/
theorem startsOk_examine {name : String} {deps : String → Option Job} {m : SlotM Unit}
    (hm : ∀ slot, (m slot).2.next = slot.next ∨ (m slot).2.next = slot.next + 1)
    (hnone : ∀ slot, slot.job = none → (m slot).2.next = slot.next)
    (hsafe : ∀ slot job down, slot.job = some job → JobEvent.Safe
      ⟨name, job, deps, slot.next < (m slot).2.next, (m slot).2.job.map (·.state), down, slot.halted⟩) :
    Keeps StartsOk StartsOk (examine name deps m) := by
  refine Keeps.of_run fun s h => ?_
  have hrun : (onSlot name m s).2 = s.setSlot name (m (s.slots name)).2 := rfl
  unfold examine
  dsimp only
  rw [hrun]
  split
  · rename_i hjob
    exact h.congr (next_setSlot (hnone _ hjob)) rfl
  · rename_i job hjob
    constructor
    · intro n
      rw [startsOf_append, setSlot_same]
      have hpassed : startsOf n (s.setSlot name (m (s.slots name)).2).passed = (s.slots n).next := (h.counted n).symm
      rw [hpassed]
      by_cases hn : n = name
      · subst hn
        rw [setSlot_same]
        rcases hm (s.slots n) with hnext | hnext
        · rw [if_neg (by simp [hnext]), hnext, Nat.add_zero]
        · rw [if_pos ⟨rfl, by simp [hnext]⟩, hnext]
      · rw [setSlot_other _ _ hn, if_neg fun hname => hn hname.1.symm, Nat.add_zero]
    · intro e he
      rcases List.mem_append.mp he with he | he
      · exact h.safe e he
      · rw [List.mem_singleton.mp he, setSlot_same]
        exact hsafe _ job _ hjob

theorem activePid_none {slot : JobSlot} {job : Job} {status : JobStatus} (hjob : slot.job = some job)
    (hstate : job.state = .inactive status) : slot.activePid = none := by
  unfold JobSlot.activePid
  rw [hjob]
  dsimp only
  rw [hstate]

theorem startsOk_updateActiveJob (name : String) (deps : String → Option Job) (ps : List Nat) (env : RunnerEnv) :
    Keeps StartsOk StartsOk (examine name deps (JobSlot.updateActiveJob name ps env)) := by
  refine startsOk_examine (fun slot => (JobSlot.nextIn_updateActiveJob slot.next name ps env).run rfl)
    (fun slot hjob => ?_) fun slot job down hjob => ?_
  · rw [JobSlot.updateActiveJob_inactive (by rw [JobSlot.activePid, hjob])]
  · intro waitingFor hstate
    dsimp only at hstate ⊢
    rw [JobSlot.updateActiveJob_inactive (activePid_none hjob hstate), hjob, Option.map_some, hstate]
    refine ⟨fun hstarted => absurd hstarted (by simp), fun exitCode message hafter => ?_⟩
    cases hafter

theorem startsOk_checkInactiveJob (name : String) (deps : String → Option Job) (env : RunnerEnv) :
    Keeps StartsOk StartsOk (examine name deps (JobSlot.checkInactiveJob name deps env)) := by
  refine startsOk_examine (fun slot => (JobSlot.nextIn_checkInactiveJob slot.next name deps env).run rfl)
    (fun slot hjob => ?_) fun slot job down hjob => ?_
  · unfold JobSlot.checkInactiveJob
    rw [gets_bind, hjob]
    rfl
  · intro waitingFor hstate
    dsimp only at hstate ⊢
    rw [JobSlot.checkInactiveJob_pending hjob hstate]
    cases hdeps : JobSlot.depsFinished name deps job.config with
    | ok met =>
      cases met with
      | true => exact ⟨fun _ => JobSlot.depsFinished_ok hdeps, fun _ _ _ => .inl (JobSlot.depsFinished_ok hdeps)⟩
      | false =>
        refine ⟨fun hstarted => absurd (of_decide_eq_true hstarted) (Nat.lt_irrefl _), fun exitCode message hafter => ?_⟩
        have hafter : slot.job.map (·.state) = some (.inactive (.finished exitCode message)) := hafter
        rw [hjob, Option.map_some, hstate] at hafter
        cases hafter
    | error err =>
      refine ⟨fun hstarted => ?_, fun _ _ _ => .inr (JobSlot.depsFinished_error hdeps)⟩
      have hnext : JobSlot.NextIn (· = slot.next) (JobSlot.fail err env.save slot).2 :=
        (JobSlot.stable_nextIn.fail err env.save).run rfl
      exact absurd (of_decide_eq_true hstarted) (Nat.not_lt.mpr (Nat.le_of_eq hnext))

/-! ## Steps -/

theorem startsOk_loadOne (env : LoadEnv) (s : JobsSt) (name : String) (h : StartsOk s) : StartsOk (loadOne env s name) :=
  h.congr (next_setSlot (JobSlot.load_next _ _)) rfl

theorem startsOk_halting {s : JobsSt} (name : String) (h : StartsOk s) : StartsOk (halting name s) :=
  h.congr (next_setSlot rfl) rfl

theorem startsOk_halted {s : JobsSt} (name : String) (h : StartsOk s) : StartsOk (halted name s) :=
  h.congr (next_setSlot rfl) rfl

theorem startsOk_sendState {s : JobsSt} (state : JobsManagerState) (h : StartsOk s) : StartsOk (s.sendState state) := by
  unfold sendState
  split
  · exact h
  · exact ⟨h.counted, h.safe⟩

theorem startsOk_step {s s' : JobsSt} {act : JobsAct} (h : StartsOk s) (hs : s.step act = some s') : StartsOk s' := by
  have hcrash : ∀ s, StartsOk s → StartsOk s.crash := fun _ h => startsOk_crash h
  have hd := step_does hs
  cases act with
  | boot ready env =>
    obtain ⟨_, _, rfl⟩ := hd
    exact boot_keeps ⟨h.counted, h.safe⟩ (fun s name _ h => startsOk_loadOne env s name h) hcrash fun s h => ⟨h.counted, h.safe⟩
  | crash =>
    obtain rfl := hd
    exact startsOk_crash h
  | create name config env =>
    obtain ⟨_, rfl⟩ := hd
    exact settle_keeps (startsOk_onSlot name fun p => JobSlot.nextIn_create name config _ env) hcrash
      (fun _ s h => startsOk_halted name ⟨h.counted, h.safe⟩) (startsOk_halting name ⟨h.counted, h.safe⟩)
  | start name save =>
    obtain ⟨_, rfl⟩ := hd
    exact settle_keeps (startsOk_onSlot name fun p => JobSlot.stable_nextIn.start name save) hcrash
      (fun _ s h => h.congr (next_setSlot rfl) rfl) (h.congr (next_setSlot rfl) rfl)
  | stop name env =>
    obtain ⟨_, rfl⟩ := hd
    exact settle_keeps (startsOk_onSlot name fun p => JobSlot.stable_nextIn.halt name _ env) hcrash
      (fun _ s h => startsOk_halted name h) (startsOk_halting name h)
  | stopAll order env =>
    obtain ⟨_, _, rfl⟩ := hd
    refine settle_keeps (Keeps.forM fun name _ => startsOk_onSlot name fun p => JobSlot.stable_nextIn.halt name _ (env name)) hcrash
      (fun _ s h => fold_keeps (fun s name _ h => startsOk_halted name h) h) ?_
    exact fold_keeps (fun s name _ h => startsOk_halting name h) h
  | skip name env =>
    obtain ⟨_, rfl⟩ := hd
    exact settle_keeps (startsOk_onSlot name fun p => JobSlot.stable_nextIn.halt name _ env) hcrash
      (fun _ s h => startsOk_halted name h) (startsOk_halting name h)
  | cleanup name outcome =>
    obtain rfl := hd
    exact h
  | startup env =>
    obtain ⟨_, _, rfl⟩ := hd
    refine settle_keeps (loadJobs_keeps fun s name _ h => startsOk_loadOne env s name h) hcrash (fun _ s h => ?_) ⟨h.counted, h.safe⟩
    split
    · exact h
    · have hsend := startsOk_sendState .ready h
      exact ⟨hsend.counted, hsend.safe⟩
  | beginShutdown force =>
    obtain rfl := hd
    have hsend := startsOk_sendState .shutdown h
    exact ⟨hsend.counted, hsend.safe⟩
  | endShutdown i order env =>
    obtain ⟨force, _, _, rfl⟩ := hd
    exact settle_keeps (Keeps.forM fun name _ => startsOk_onSlot name fun p => JobSlot.stable_nextIn.shutdown name _ (env name))
      hcrash (fun _ s h => ⟨h.counted, h.safe⟩) ⟨h.counted, h.safe⟩
  | check seen => obtain ⟨_, _, rfl⟩ | ⟨_, _, rfl⟩ | ⟨_, rfl⟩ := hd <;> exact ⟨h.counted, h.safe⟩
  | listProcesses =>
    obtain ⟨_, rfl⟩ := hd
    exact ⟨h.counted, h.safe⟩
  | updateActive order env =>
    obtain ⟨ps, _, _, rfl⟩ := hd
    exact settle_keeps (Keeps.forM fun name _ => startsOk_updateActiveJob name _ _ (env name)) hcrash
      (fun _ s h => ⟨h.counted, h.safe⟩) h
  | checkInactive order env watch =>
    obtain ⟨_, _, rfl⟩ := hd
    exact settle_keeps (Keeps.forM fun name _ => startsOk_checkInactiveJob name _ (env name)) hcrash
      (fun _ s h => ⟨h.counted, h.safe⟩) h
  | wake wakeUp =>
    obtain ⟨_, _, _, rfl⟩ := hd
    exact ⟨h.counted, h.safe⟩
  | runnerSaves name pid save =>
    obtain ⟨_, rfl⟩ := hd
    exact h.congr (next_setSlot (JobSlot.runnerSaves_next _ save)) rfl
  | runnerEnds name pid =>
    obtain ⟨_, rfl⟩ := hd
    exact h.congr (next_setSlot rfl) rfl

end JobsSt

/-! ## Dependency safety -/

/-- A job without dependencies, and one that needs another. -/
def plainJob : JobConfig := ⟨.always, none, none⟩

def needyJob (needed : String) : JobConfig := ⟨.never, some [needed], none⟩

def calmHalt : HaltEnv := ⟨⟨none, .none⟩, .none⟩

def calmCreate : CreateEnv := ⟨⟨none, .none⟩, .none, .none, .none⟩

def calmRunner : RunnerEnv := ⟨.none, .none, .none⟩

/-- The manager comes to a pass and goes through it. -/
def calmPass (order : List String) : List JobsAct :=
  [.check false, .listProcesses, .updateActive order fun _ => calmRunner, .checkInactive order (fun _ => calmRunner) true]

/-- A job is skipped and another that needs it is started. -/
def needyRun : List JobsAct :=
  [.boot true ⟨[], none, fun _ => true⟩, .create "a" plainJob calmCreate, .create "b" (needyJob "a") calmCreate,
    .skip "a" calmHalt, .start "b" .none, .check true] ++ calmPass ["a", "b"]

/-- The manager is on its way to a pass, or in one. -/
def ManagerPhase.passing : ManagerPhase → Bool
  | .committed _ => true
  | .examined => true
  | _ => false

/-- After a shutdown the manager is in no pass and comes to none, and nothing was started then. -/
structure DownOk (s : JobsSt) : Prop where
  quiet : s.down = true → s.phase.passing = false ∧ (s.managerState = .shutdown ∨ s.phase = .gone)
  passed : ∀ e ∈ s.passed, e.down = false

/-- The lock section of a shutdown comes while the manager's state is still Shutdown and the manager
is not on its way to a pass. -/
def JobsSt.ShutdownSeen (s : JobsSt) : JobsAct → Prop
  | .endShutdown .. => s.managerState = .shutdown ∧ s.phase.passing = false
  | _ => True

theorem DownOk.congr {s s' : JobsSt} (h : DownOk s) (hdown : s'.down = s.down) (hstate : s'.managerState = s.managerState)
    (hphase : s'.phase = s.phase) (hpassed : s'.passed = s.passed) : DownOk s' where
  quiet := by
    rw [hdown, hphase, hstate]
    exact h.quiet
  passed := by
    rw [hpassed]
    exact h.passed

/-- No shutdown has returned. -/
structure UpOk (s : JobsSt) : Prop where
  up : s.down = false
  passed : ∀ e ∈ s.passed, e.down = false

theorem UpOk.downOk {s : JobsSt} (h : UpOk s) : DownOk s where
  quiet := by simp [h.up]
  passed := h.passed

/-- A manager on its way to a pass, or in one, has not been shut down. -/
theorem DownOk.upOk {s : JobsSt} (h : DownOk s) (hphase : s.phase.passing = true) : UpOk s where
  up := by
    by_contra hdown
    have hquiet := (h.quiet (Bool.eq_true_of_not_eq_false hdown)).1
    rw [hphase] at hquiet
    cases hquiet
  passed := h.passed

namespace JobsSt

theorem downOk_crash {s : JobsSt} (h : DownOk s) : DownOk s.crash where
  quiet := fun _ => ⟨rfl, .inr rfl⟩
  passed := h.passed

theorem downOk_onSlot {α : Type} (name : String) (m : SlotM α) : Keeps DownOk DownOk (onSlot name m) :=
  Keeps.zoom (R := fun _ _ => True) (fun _ => trivial) (fun _ _ _ h => h.congr rfl rfl rfl rfl) fun _ h => h

/-- Before a shutdown returns, what a pass comes to is on record as it is. -/
theorem upOk_examine (name : String) (deps : String → Option Job) (m : SlotM Unit) :
    Keeps UpOk UpOk (examine name deps m) := by
  refine Keeps.of_run fun s h => ?_
  unfold examine
  dsimp only
  split
  · exact ⟨h.up, h.passed⟩
  · refine ⟨h.up, fun e he => ?_⟩
    rcases List.mem_append.mp he with he | he
    · exact h.passed e he
    · rw [List.mem_singleton.mp he]
      exact h.up

theorem phase_sendState (s : JobsSt) (state : JobsManagerState) : (s.sendState state).phase = s.phase := by
  unfold sendState
  split <;> rfl

theorem downOk_beginShutdown {s : JobsSt} (force : Bool) (h : DownOk s) : DownOk (s.beginShutdown force) := by
  unfold beginShutdown sendState
  split
  · exact ⟨h.quiet, h.passed⟩
  · exact ⟨fun hdown => ⟨(h.quiet hdown).1, .inl rfl⟩, h.passed⟩

/-- A half of a pass leaves what it finds: nothing was shut down. -/
theorem downOk_half {m : JobsM Unit} {s : JobsSt} {f : JobsSt → ManagerPhase} (hm : Keeps UpOk UpOk m) (h : DownOk s)
    (hphase : s.phase.passing = true) : DownOk (settle (m s) fun _ s => { s with phase := f s }) := by
  have hup : UpOk (settle (m s) fun _ s => { s with phase := f s }) :=
    settle_keeps hm (fun _ h => ⟨h.up, h.passed⟩) (fun _ _ h => ⟨h.up, h.passed⟩) (h.upOk hphase)
  exact hup.downOk

theorem downOk_step {s s' : JobsSt} {act : JobsAct} (h : DownOk s) (hok : s.ShutdownSeen act) (hs : s.step act = some s') :
    DownOk s' := by
  have hcrash : ∀ s, DownOk s → DownOk s.crash := fun _ h => downOk_crash h
  have hd := step_does hs
  cases act with
  | boot ready env =>
    obtain ⟨_, _, rfl⟩ := hd
    have hup : UpOk (s.boot ready env) := boot_keeps ⟨rfl, h.passed⟩ (fun _ _ _ h => ⟨h.up, h.passed⟩)
      (fun _ h => ⟨h.up, h.passed⟩) fun _ h => ⟨h.up, h.passed⟩
    exact hup.downOk
  | crash =>
    obtain rfl := hd
    exact downOk_crash h
  | create name config env =>
    obtain ⟨_, rfl⟩ := hd
    exact settle_keeps (downOk_onSlot name _) hcrash (fun _ s h => h.congr rfl rfl rfl rfl) (h.congr rfl rfl rfl rfl)
  | start name save =>
    obtain ⟨_, rfl⟩ := hd
    exact settle_keeps (downOk_onSlot name _) hcrash (fun _ s h => h.congr rfl rfl rfl rfl) (h.congr rfl rfl rfl rfl)
  | stop name env =>
    obtain ⟨_, rfl⟩ := hd
    exact settle_keeps (downOk_onSlot name _) hcrash (fun _ s h => h.congr rfl rfl rfl rfl) (h.congr rfl rfl rfl rfl)
  | stopAll order env =>
    obtain ⟨_, _, rfl⟩ := hd
    refine settle_keeps (Keeps.forM fun name _ => downOk_onSlot name _) hcrash
      (fun _ s h => fold_keeps (fun s name _ h => h.congr rfl rfl rfl rfl) h) ?_
    exact fold_keeps (fun s name _ h => h.congr rfl rfl rfl rfl) h
  | skip name env =>
    obtain ⟨_, rfl⟩ := hd
    exact settle_keeps (downOk_onSlot name _) hcrash (fun _ s h => h.congr rfl rfl rfl rfl) (h.congr rfl rfl rfl rfl)
  | cleanup name outcome =>
    obtain rfl := hd
    exact h
  | startup env =>
    obtain ⟨_, _, rfl⟩ := hd
    refine settle_keeps (loadJobs_keeps fun s name _ h => h.congr rfl rfl rfl rfl) hcrash (fun _ s h => ?_)
      (h.congr rfl rfl rfl rfl)
    split
    · exact h
    · have hup : UpOk { s.sendState .ready with down := false } := ⟨rfl, by
        unfold sendState
        split <;> exact h.passed⟩
      exact hup.downOk
  | beginShutdown force =>
    obtain rfl := hd
    exact downOk_beginShutdown force h
  | endShutdown i order env =>
    obtain ⟨force, _, _, rfl⟩ := hd
    obtain ⟨hstate, hphase⟩ := hok
    -- what the condition says is not touched by the lock section
    have hquiet : Keeps (fun s => DownOk s ∧ s.managerState = .shutdown ∧ s.phase.passing = false) DownOk
        (order.forM fun name => onSlot name (JobSlot.shutdown name force (env name)) : JobsM Unit) :=
      Keeps.forM fun name _ => Keeps.zoom (R := fun _ _ => True) (fun _ => trivial)
        (fun _ _ _ h => ⟨h.1.congr rfl rfl rfl rfl, h.2⟩) fun _ h => h.1
    have hset : DownOk { s with shutdowns := s.shutdowns.eraseIdx i } := h.congr rfl rfl rfl rfl
    have hend := hquiet { s with shutdowns := s.shutdowns.eraseIdx i } ⟨hset, hstate, hphase⟩
    unfold endShutdown settle
    dsimp only
    revert hend
    cases (order.forM fun name => onSlot name (JobSlot.shutdown name force (env name)) : JobsM Unit)
      { s with shutdowns := s.shutdowns.eraseIdx i } with
    | mk r t =>
      cases r with
      | ok _ => exact fun hend => ⟨fun _ => ⟨hend.2.2, .inl hend.2.1⟩, hend.1.passed⟩
      | error e =>
        cases e with
        | error e => exact fun hend => hend.1
        | killed => exact fun hend => downOk_crash hend
  | check seen =>
    obtain ⟨hphase, _, rfl⟩ | ⟨hphase, hready, rfl⟩ | ⟨hphase, rfl⟩ := hd
    · refine ⟨fun hdown => ⟨rfl, ?_⟩, h.passed⟩
      rcases (h.quiet hdown).2 with hstate | hgone
      · exact .inl hstate
      · rw [hphase] at hgone
        cases hgone
    · have hup : UpOk { s with phase := ManagerPhase.committed none } := ⟨?_, h.passed⟩
      · exact hup.downOk
      by_contra hdown
      rcases (h.quiet (Bool.eq_true_of_not_eq_false hdown)).2 with hstate | hgone
      · rw [hready] at hstate
        cases hstate
      · rw [hphase] at hgone
        cases hgone
    · exact ⟨fun _ => ⟨rfl, .inr rfl⟩, h.passed⟩
  | listProcesses =>
    obtain ⟨hphase, rfl⟩ := hd
    have hup := h.upOk (by rw [hphase]; rfl)
    exact UpOk.downOk ⟨hup.up, hup.passed⟩
  | updateActive order env =>
    obtain ⟨ps, hphase, _, rfl⟩ := hd
    exact downOk_half (Keeps.forM fun name _ => upOk_examine name _ _) h (by rw [hphase]; rfl)
  | checkInactive order env watch =>
    obtain ⟨hphase, _, rfl⟩ := hd
    exact downOk_half (Keeps.forM fun name _ => upOk_examine name _ _) h (by rw [hphase]; rfl)
  | wake wakeUp =>
    obtain ⟨hwaits, _, _, rfl⟩ := hd
    refine ⟨fun hdown => ⟨rfl, ?_⟩, h.passed⟩
    rcases (h.quiet hdown).2 with hstate | hgone
    · exact .inl hstate
    · rw [hgone] at hwaits
      cases hwaits
  | runnerSaves name pid save =>
    obtain ⟨_, rfl⟩ := hd
    exact h.congr rfl rfl rfl rfl
  | runnerEnds name pid =>
    obtain ⟨_, rfl⟩ := hd
    exact h.congr rfl rfl rfl rfl

instance (s : JobsSt) (act : JobsAct) : Decidable (s.ShutdownSeen act) := by
  unfold ShutdownSeen
  split <;> infer_instance

end JobsSt

/-- **No job is started after a shutdown**, in every run in which the lock section of each shutdown
comes while the manager's state is still Shutdown and the manager is not on its way to a pass: all
runners were started by passes on record, and none of these after a shutdown returned Ok and before
the next startup. -/
theorem no_start_after_shutdown {acts : List JobsAct} {s : JobsSt} (hrun : run JobsSt.step .init acts = some s)
    (hok : Along JobsSt.step JobsSt.ShutdownSeen .init acts) :
    (∀ name, (s.slots name).next = startsOf name s.passed) ∧ ∀ e ∈ s.passed, e.started = true → e.down = false := by
  have hcounted : StartsOk s :=
    run_invariant_all JobsSt.step (fun _ _ _ h hs => JobsSt.startsOk_step h hs) ⟨fun _ => rfl, by simp [JobsSt.init]⟩ hrun
  have hdown : DownOk s :=
    run_invariant JobsSt.step (fun _ _ _ h hok hs => JobsSt.downOk_step h hok hs) ⟨by simp [JobsSt.init], by simp [JobsSt.init]⟩
      hok hrun
  exact ⟨hcounted.counted, fun e he _ => hdown.passed e he⟩

/-- A job is started, and a client asks for a shutdown. -/
def shutdownRun : List JobsAct :=
  [.boot true ⟨[], none, fun _ => true⟩, .create "a" plainJob calmCreate, .start "a" .none, .check true] ++
    calmPass ["a"] ++ [.beginShutdown false, .wake .stateChanged]

def calmShutdown : JobsAct := .endShutdown 0 ["a"] fun _ => ⟨none, .none⟩

/-- The manager sees that it is shut down, and the job is terminated. -/
theorem no_start_after_shutdown_seen : ∃ s, run JobsSt.step .init (shutdownRun ++ [.check false, calmShutdown]) = some s ∧
    s.down = true ∧ ∀ e ∈ s.passed, e.started = true → e.down = false := by
  have hend : (run JobsSt.step .init (shutdownRun ++ [.check false, calmShutdown])).map (·.down) = some true := by
    decide +kernel
  obtain ⟨s, hrun, hs⟩ := Option.map_eq_some_iff.mp hend
  exact ⟨s, hrun, hs, (no_start_after_shutdown hrun (by decide +kernel)).2⟩

/-- The manager found itself Ready, and waits for the lock while the client has it. -/
def lateRun : List JobsAct :=
  [.boot true ⟨[], none, fun _ => true⟩, .create "a" plainJob calmCreate, .start "a" .none, .check true] ++
    calmPass ["a"] ++ [.runnerEnds "a" 0, .wake (.ended "a" 0), .check false, .listProcesses, .beginShutdown false,
      calmShutdown, .updateActive ["a"] (fun _ => calmRunner), .checkInactive ["a"] (fun _ => calmRunner) true]

/-- **A pass may come after the shutdown**, and starts the jobs again that the shutdown left to be
started by the next manager. -/
theorem start_after_shutdown : ¬ ∀ acts s, run JobsSt.step .init acts = some s →
    ∀ e ∈ s.passed, e.started = true → e.down = false := by
  intro hall
  have hlate : (run JobsSt.step .init lateRun).map (fun s => s.passed.map fun e => (e.started, e.down)) =
      some [(false, false), (true, false), (false, true), (true, true)] := by
    decide +kernel
  obtain ⟨s, hrun, hs⟩ := Option.map_eq_some_iff.mp hlate
  have hmem : (true, true) ∈ s.passed.map fun e => (e.started, e.down) := by
    rw [hs]
    simp
  obtain ⟨e, he, heq⟩ := List.mem_map.mp hmem
  obtain ⟨hstarted, hdown⟩ : _ ∧ _ := by simpa only [Prod.mk.injEq] using heq
  rw [hall lateRun s hrun e he hstarted] at hdown
  cases hdown

end Blockvisor
