/-
The restarts of a job (`Backoff`, and `JobBackoff` over it). The runner notes
the time, lets the job run, and when it has ended asks whether to start it
again: at once if it has run for longer than the backoff timeout, after a delay
that doubles each time otherwise, and not at all once the retries are used up.

The time is read after the end was reported to babel, and a report takes its
time. So a run counts as longer than it was (`retries_not_counted`). Where no
report takes a run past the timeout, the retries are counted as they should be,
and no delay overflows if the last one allowed fits (`retries_counted_iff`).

Times are in nanoseconds. With a limit the counter stays below it; without one
the delay overflows long before the counter would.
-/
import Blockvisor.Babel.OneTime
import Mathlib.Data.List.DropRight

namespace Blockvisor

/-- `exp_backoff_timeout`, in milliseconds. There is none if a multiplication
overflows: a debug build panics then, and a release build waits for less. -/
def expBackoffTimeout (backoffBaseMs retryCount : Nat) : Option Nat :=
  if 2 ^ retryCount < 2 ^ 64 ∧ backoffBaseMs * 2 ^ retryCount < 2 ^ 64 then some (backoffBaseMs * 2 ^ retryCount)
  else none

/-- `Duration::from_millis`. -/
def fromMillis (ms : Nat) : Nat := ms * 1000000

inductive TimeoutStatus where
  | expired
  | shouldWait
  deriving DecidableEq

inductive LimitStatus where
  | ok
  | exceeded
  deriving DecidableEq

structure Backoff where
  counter : Nat
  timestamp : Nat
  backoffBaseMs : Nat
  resetTimeout : Nat

namespace Backoff

def new (now backoffBaseMs resetTimeout : Nat) : Backoff := ⟨0, now, backoffBaseMs, resetTimeout⟩

def start (b : Backoff) (now : Nat) : Backoff := { b with timestamp := now }

def checkTimeout (b : Backoff) (now : Nat) : Backoff × TimeoutStatus :=
  if b.resetTimeout < now - b.timestamp then ({ b with counter := 0 }, .expired) else (b, .shouldWait)

/-- Waits for a delay. -/
def backoff (b : Backoff) : Backoff × Option Nat :=
  ({ b with counter := b.counter + 1 }, expBackoffTimeout b.backoffBaseMs b.counter)

/-- With the delays waited for. -/
def wait (b : Backoff) (now : Nat) : Backoff × List (Option Nat) :=
  match b.checkTimeout now with
  | (b, .expired) => (b, [])
  | (b, .shouldWait) => (b.backoff.1, [b.backoff.2])

def waitWithLimit (b : Backoff) (now maxRetries : Nat) : Backoff × LimitStatus × List (Option Nat) :=
  match b.checkTimeout now with
  | (b, .expired) => (b, .ok, [])
  | (b, .shouldWait) =>
    if maxRetries ≤ b.counter then (b, .exceeded, [])
    else (b.backoff.1, .ok, [b.backoff.2])

end Backoff

structure JobBackoff where
  jobName : String
  backoff : Option Backoff
  maxRetries : Option Nat
  restartAlways : Bool

/-- What comes of the end of a run: a status if the job is over, and the delays waited for. -/
structure JobEnd where
  job : JobBackoff
  result : Except JobStatus Unit
  delays : List (Option Nat)

namespace JobBackoff

def new (jobName : String) (now : Nat) (policy : Engine.RestartPolicy) : JobBackoff :=
  let buildBackoff := fun (cfg : Engine.RestartConfig) =>
    some (Backoff.new now cfg.backoffBaseMs (fromMillis cfg.backoffTimeoutMs))
  match policy with
  | .never => ⟨jobName, none, none, false⟩
  | .always cfg => ⟨jobName, buildBackoff cfg, cfg.maxRetries, true⟩
  | .onFailure cfg => ⟨jobName, buildBackoff cfg, cfg.maxRetries, false⟩

def start (j : JobBackoff) (now : Nat) : JobBackoff := { j with backoff := j.backoff.map (·.start now) }

/-- The time is read when the end has been reported. -/
def stopped (j : JobBackoff) (now : Nat) (exitCode : Option Int) (message : String) : JobEnd :=
  if j.restartAlways ∨ exitCode.getD (-1) ≠ 0 then
    let jobFailed := JobStatus.finished exitCode message
    match j.backoff, j.maxRetries with
    | some backoff, some maxRetries =>
      match backoff.waitWithLimit now maxRetries with
      | (backoff, .exceeded, delays) => ⟨{ j with backoff := some backoff }, .error jobFailed, delays⟩
      | (backoff, .ok, delays) => ⟨{ j with backoff := some backoff }, .ok (), delays⟩
    | some backoff, none =>
      let (backoff, delays) := backoff.wait now
      ⟨{ j with backoff := some backoff }, .ok (), delays⟩
    | none, _ => ⟨j, .error jobFailed, []⟩
  else ⟨j, .error (.finished exitCode ""), []⟩

end JobBackoff

/-- A run of a job: when it began, how long it was, how long the report of its end took. -/
structure JobRun where
  began : Nat
  ran : Nat
  reported : Nat
  exitCode : Option Int
  message : String
  deriving DecidableEq

/-- A run, from its start to what comes of its end. -/
def JobBackoff.attempt (j : JobBackoff) (r : JobRun) : JobEnd :=
  (j.start r.began).stopped (r.began + r.ran + r.reported) r.exitCode r.message

/-- The job is started again after each of these runs. -/
def JobBackoff.replay (j : JobBackoff) : List JobRun → Option JobBackoff
  | [] => some j
  | r :: runs =>
    match (j.attempt r).result with
    | .ok () => (j.attempt r).job.replay runs
    | .error _ => none

/-- The policies with retries. -/
def restarting (always : Bool) (cfg : Engine.RestartConfig) : Engine.RestartPolicy :=
  if always then .always cfg else .onFailure cfg

/-- A job that is always restarted is not supposed to end. -/
def JobRun.Failing (always : Bool) (r : JobRun) : Prop := always = true ∨ r.exitCode.getD (-1) ≠ 0

instance (always : Bool) (r : JobRun) : Decidable (r.Failing always) := inferInstanceAs (Decidable (_ ∨ _))

def JobRun.Outlives (cfg : Engine.RestartConfig) (r : JobRun) : Prop := fromMillis cfg.backoffTimeoutMs < r.ran

instance (cfg : Engine.RestartConfig) (r : JobRun) : Decidable (r.Outlives cfg) := inferInstanceAs (Decidable (_ < _))

/-- The report does not take the run past the timeout. -/
def JobRun.Prompt (cfg : Engine.RestartConfig) (r : JobRun) : Prop :=
  r.Outlives cfg ∨ r.ran + r.reported ≤ fromMillis cfg.backoffTimeoutMs

instance (cfg : Engine.RestartConfig) (r : JobRun) : Decidable (r.Prompt cfg) := inferInstanceAs (Decidable (_ ∨ _))

/-- What is measured: the report is part of it. -/
def JobRun.Late (cfg : Engine.RestartConfig) (r : JobRun) : Prop := fromMillis cfg.backoffTimeoutMs < r.ran + r.reported

instance (cfg : Engine.RestartConfig) (r : JobRun) : Decidable (r.Late cfg) := inferInstanceAs (Decidable (_ < _))

/-- How many runs have failed in a row, none of them longer than the timeout. -/
def streak (always : Bool) (cfg : Engine.RestartConfig) (runs : List JobRun) : Nat :=
  (runs.rtakeWhile fun r => r.Failing always ∧ ¬ r.Outlives cfg).length

/-- The runs after which the job was started again, and one more: the job is
given up as failed when as many runs as retries are allowed and one more were
short, and the delay it is started again after does not overflow. -/
def Counted (always : Bool) (cfg : Engine.RestartConfig) (runs : List JobRun) (r : JobRun) : Prop :=
  ∀ name now j, (JobBackoff.new name now (restarting always cfg)).replay runs = some j →
    (r.Failing always ∧ (∃ status, (j.attempt r).result = .error status) ↔
      ∃ m, cfg.maxRetries = some m ∧ streak always cfg (runs ++ [r]) = m + 1) ∧
    ∀ delay ∈ (j.attempt r).delays, delay ≠ none

variable {always : Bool} {cfg : Engine.RestartConfig} {j : JobBackoff} {runs : List JobRun} {r : JobRun} {n : Nat}

theorem streak_concat (runs : List JobRun) (r : JobRun) :
    streak always cfg (runs ++ [r]) = if r.Failing always ∧ ¬ r.Outlives cfg then streak always cfg runs + 1 else 0 := by
  unfold streak
  by_cases h : r.Failing always ∧ ¬ r.Outlives cfg
  · rw [if_pos h, List.rtakeWhile_concat_pos _ _ _ (by simpa using h), List.length_append]
    rfl
  · rw [if_neg h, List.rtakeWhile_concat_neg _ _ _ (by simpa using h)]
    rfl

theorem JobRun.Prompt.late_iff (h : r.Prompt cfg) : r.Late cfg ↔ r.Outlives cfg := by
  unfold JobRun.Late JobRun.Outlives
  obtain hlong | hsum := h
  · have hran : fromMillis cfg.backoffTimeoutMs < r.ran := hlong
    omega
  · omega

/-! ## One run -/

/-- The counter, and what the policy says. -/
def JobBackoff.Counts (always : Bool) (cfg : Engine.RestartConfig) (n : Nat) (j : JobBackoff) : Prop :=
  ∃ name timestamp,
    j = ⟨name, some ⟨n, timestamp, cfg.backoffBaseMs, fromMillis cfg.backoffTimeoutMs⟩, cfg.maxRetries, always⟩

theorem JobBackoff.new_counts (name : String) (now : Nat) :
    (JobBackoff.new name now (restarting always cfg)).Counts always cfg 0 := by
  cases always with
  | true => exact ⟨name, now, rfl⟩
  | false => exact ⟨name, now, rfl⟩

namespace JobBackoff

/-- Whether the timeout is over when the end of a run has been reported. -/
theorem checkTimeout_attempt (cfg : Engine.RestartConfig) (r : JobRun) (n timestamp : Nat) :
    (Backoff.start ⟨n, timestamp, cfg.backoffBaseMs, fromMillis cfg.backoffTimeoutMs⟩ r.began).checkTimeout
        (r.began + r.ran + r.reported) =
      if r.Late cfg then (⟨0, r.began, cfg.backoffBaseMs, fromMillis cfg.backoffTimeoutMs⟩, .expired)
      else (⟨n, r.began, cfg.backoffBaseMs, fromMillis cfg.backoffTimeoutMs⟩, .shouldWait) := by
  have hspan : r.began + r.ran + r.reported - r.began = r.ran + r.reported := by omega
  unfold Backoff.checkTimeout Backoff.start
  simp only [hspan]
  by_cases h : r.Late cfg
  · have hlate : fromMillis cfg.backoffTimeoutMs < r.ran + r.reported := h
    rw [if_pos hlate, if_pos h]
  · have hearly : ¬ fromMillis cfg.backoffTimeoutMs < r.ran + r.reported := h
    rw [if_neg hearly, if_neg h]

theorem attempt_success (hj : j.Counts always cfg n) (h : ¬ r.Failing always) :
    j.attempt r = ⟨j.start r.began, .error (.finished r.exitCode ""), []⟩ := by
  obtain ⟨name, timestamp, rfl⟩ := hj
  exact if_neg h

section Attempt

variable {name : String} {b b' : Backoff} {maxRetries : Option Nat}

/-- The timeout is over. -/
theorem attempt_expired (hfailing : r.Failing always)
    (hcheck : (b.start r.began).checkTimeout (r.began + r.ran + r.reported) = (b', .expired)) :
    attempt ⟨name, some b, maxRetries, always⟩ r = ⟨⟨name, some b', maxRetries, always⟩, .ok (), []⟩ := by
  have hrestart : always = true ∨ r.exitCode.getD (-1) ≠ 0 := hfailing
  cases maxRetries with
  | none => simp only [attempt, start, stopped, Option.map_some, if_pos hrestart, Backoff.wait, hcheck]
  | some m => simp only [attempt, start, stopped, Option.map_some, if_pos hrestart, Backoff.waitWithLimit, hcheck]

/-- The retries are used up. -/
theorem attempt_limit (hfailing : r.Failing always)
    (hcheck : (b.start r.began).checkTimeout (r.began + r.ran + r.reported) = (b', .shouldWait)) {m : Nat} (hm : m ≤ b'.counter) :
    attempt ⟨name, some b, some m, always⟩ r = ⟨⟨name, some b', some m, always⟩, .error (.finished r.exitCode r.message), []⟩ := by
  have hrestart : always = true ∨ r.exitCode.getD (-1) ≠ 0 := hfailing
  simp only [attempt, start, stopped, Option.map_some, if_pos hrestart, Backoff.waitWithLimit, hcheck, if_pos hm]

/-- There is a retry, after a delay. -/
theorem attempt_waits (hfailing : r.Failing always)
    (hcheck : (b.start r.began).checkTimeout (r.began + r.ran + r.reported) = (b', .shouldWait))
    (hmax : ∀ m, maxRetries = some m → b'.counter < m) :
    attempt ⟨name, some b, maxRetries, always⟩ r =
      ⟨⟨name, some b'.backoff.1, maxRetries, always⟩, .ok (), [b'.backoff.2]⟩ := by
  have hrestart : always = true ∨ r.exitCode.getD (-1) ≠ 0 := hfailing
  cases maxRetries with
  | none => simp only [attempt, start, stopped, Option.map_some, if_pos hrestart, Backoff.wait, hcheck]
  | some m =>
    have hm : ¬ m ≤ b'.counter := Nat.not_le.mpr (hmax m rfl)
    simp only [attempt, start, stopped, Option.map_some, if_pos hrestart, Backoff.waitWithLimit, hcheck, if_neg hm]

end Attempt

/-- A run that comes out longer than the timeout starts the count anew. -/
theorem attempt_late (hj : j.Counts always cfg n) (hfailing : r.Failing always) (h : r.Late cfg) :
    (j.attempt r).job.Counts always cfg 0 ∧ (j.attempt r).result = .ok () ∧ (j.attempt r).delays = [] := by
  obtain ⟨name, timestamp, rfl⟩ := hj
  have hcheck := checkTimeout_attempt cfg r n timestamp
  rw [if_pos h] at hcheck
  rw [attempt_expired hfailing hcheck]
  exact ⟨⟨name, r.began, rfl⟩, rfl, rfl⟩

theorem attempt_exceeded (hj : j.Counts always cfg n) (hfailing : r.Failing always) (h : ¬ r.Late cfg) {m : Nat}
    (hmax : cfg.maxRetries = some m) (hm : m ≤ n) :
    (∃ status, (j.attempt r).result = .error status) ∧ (j.attempt r).delays = [] := by
  obtain ⟨name, timestamp, rfl⟩ := hj
  have hcheck := checkTimeout_attempt cfg r n timestamp
  rw [if_neg h] at hcheck
  rw [hmax, attempt_limit hfailing hcheck hm]
  exact ⟨⟨_, rfl⟩, rfl⟩

/-- A short run is counted, and the next one is waited for. -/
theorem attempt_retry (hj : j.Counts always cfg n) (hfailing : r.Failing always) (h : ¬ r.Late cfg)
    (hmax : ∀ m, cfg.maxRetries = some m → n < m) :
    (j.attempt r).job.Counts always cfg (n + 1) ∧ (j.attempt r).result = .ok () ∧
      (j.attempt r).delays = [expBackoffTimeout cfg.backoffBaseMs n] := by
  obtain ⟨name, timestamp, rfl⟩ := hj
  have hcheck := checkTimeout_attempt cfg r n timestamp
  rw [if_neg h] at hcheck
  rw [attempt_waits hfailing hcheck hmax]
  exact ⟨⟨name, r.began, rfl⟩, rfl, rfl⟩

/-- What a one-time job makes of the end of a run. -/
theorem jobStopped_restarting (exitCode : Option Int) (message : String) (exceeded : Bool) :
    jobStopped (restarting always cfg) exitCode message exceeded =
      if always = true ∨ exitCode.getD (-1) ≠ 0 then
        if cfg.maxRetries.isSome && exceeded then .error (.finished exitCode message) else .ok ()
      else .error (.finished exitCode "") := by
  cases always with
  | true => rfl
  | false =>
    by_cases h : exitCode.getD (-1) ≠ 0
    · rw [if_pos (.inr h)]
      exact if_pos h
    · rw [if_neg (not_or.mpr ⟨nofun, h⟩)]
      exact if_neg h

/-- The end of a run is what a one-time job takes it for, with its retries used up or not. -/
theorem stopped_result (name : String) (backoff : Backoff) (now : Nat) (exitCode : Option Int) (message : String) :
    ∃ exceeded, (stopped ⟨name, some backoff, cfg.maxRetries, always⟩ now exitCode message).result =
      jobStopped (restarting always cfg) exitCode message exceeded := by
  by_cases hrestart : always = true ∨ exitCode.getD (-1) ≠ 0
  · cases hmax : cfg.maxRetries with
    | none =>
      refine ⟨false, ?_⟩
      rw [jobStopped_restarting, if_pos hrestart, hmax]
      simp only [stopped, if_pos hrestart]
      rfl
    | some m =>
      refine ⟨(backoff.waitWithLimit now m).2.1 = .exceeded, ?_⟩
      rw [jobStopped_restarting, if_pos hrestart, hmax]
      simp only [stopped, if_pos hrestart]
      cases hlimit : backoff.waitWithLimit now m with
      | mk after rest =>
        obtain ⟨status, delays⟩ := rest
        cases status with
        | ok => rfl
        | exceeded => rfl
  · refine ⟨false, ?_⟩
    rw [jobStopped_restarting, if_neg hrestart]
    simp only [stopped, if_neg hrestart]

theorem stopped_jobStopped (hj : j.Counts always cfg n) (now : Nat) (exitCode : Option Int) (message : String) :
    ∃ exceeded, (j.stopped now exitCode message).result = jobStopped (restarting always cfg) exitCode message exceeded := by
  obtain ⟨name, timestamp, rfl⟩ := hj
  exact stopped_result name _ now exitCode message

/-! ## All runs -/

theorem replay_concat (runs : List JobRun) (r : JobRun) (j : JobBackoff) :
    j.replay (runs ++ [r]) = (j.replay runs).bind fun j => j.replay [r] := by
  induction runs generalizing j with
  | nil => rfl
  | cons first runs ih =>
    simp only [List.cons_append, replay]
    cases hresult : (j.attempt first).result with
    | ok u => exact ih _
    | error status => rfl

/-- The job is started again exactly if the run failed and no limit was met. -/
theorem replay_single {j' : JobBackoff} (h : j.replay [r] = some j') : (j.attempt r).result = .ok () ∧ (j.attempt r).job = j' := by
  unfold replay at h
  cases hresult : (j.attempt r).result with
  | ok u =>
    rw [hresult] at h
    exact ⟨rfl, Option.some.inj h⟩
  | error status =>
    rw [hresult] at h
    cases h

/-- **The counter is the streak**, where every report is prompt, and is within the limit. -/
theorem replay_counts (hstart : j.Counts always cfg 0) (hprompt : ∀ x ∈ runs, x.Prompt cfg) {j' : JobBackoff}
    (h : j.replay runs = some j') :
    j'.Counts always cfg (streak always cfg runs) ∧ ∀ m, cfg.maxRetries = some m → streak always cfg runs ≤ m := by
  induction runs using List.reverseRecOn generalizing j' with
  | nil =>
    cases h
    exact ⟨hstart, fun m _ => Nat.zero_le m⟩
  | append_singleton runs r ih =>
    rw [replay_concat] at h
    obtain ⟨k, hk, hlast⟩ := Option.bind_eq_some_iff.mp h
    obtain ⟨hcounts, -⟩ := ih (fun x hx => hprompt x (List.mem_append_left _ hx)) hk
    have hr : r.Prompt cfg := hprompt r (List.mem_append_right _ (List.mem_singleton_self r))
    obtain ⟨hresult, rfl⟩ := replay_single hlast
    rw [streak_concat]
    by_cases hfailing : r.Failing always
    · by_cases hlong : r.Outlives cfg
      · rw [if_neg fun hboth => hboth.2 hlong]
        exact ⟨(attempt_late hcounts hfailing (hr.late_iff.mpr hlong)).1, fun m _ => Nat.zero_le m⟩
      · have hbelow : ∀ m, cfg.maxRetries = some m → streak always cfg runs < m := by
          intro m hm
          by_cases hlt : streak always cfg runs < m
          · exact hlt
          · obtain ⟨⟨status, hstatus⟩, -⟩ := attempt_exceeded hcounts hfailing (mt hr.late_iff.mp hlong) hm (Nat.not_lt.mp hlt)
            rw [hresult] at hstatus
            cases hstatus
        rw [if_pos ⟨hfailing, hlong⟩]
        exact ⟨(attempt_retry hcounts hfailing (mt hr.late_iff.mp hlong) hbelow).1, hbelow⟩
    · rw [attempt_success hcounts hfailing] at hresult
      cases hresult

/-- The delays after the runs so far and one more. -/
theorem attempt_delays (hj : j.Counts always cfg n) (hprompt : r.Prompt cfg) :
    (j.attempt r).delays = [] ∨
      ((∀ m, cfg.maxRetries = some m → n < m) ∧ (j.attempt r).delays = [expBackoffTimeout cfg.backoffBaseMs n]) := by
  by_cases hfailing : r.Failing always
  · by_cases hlong : r.Outlives cfg
    · exact .inl (attempt_late hj hfailing (hprompt.late_iff.mpr hlong)).2.2
    · by_cases hmax : ∀ m, cfg.maxRetries = some m → n < m
      · exact .inr ⟨hmax, (attempt_retry hj hfailing (mt hprompt.late_iff.mp hlong) hmax).2.2⟩
      · obtain ⟨m, hm⟩ := not_forall.mp hmax
        obtain ⟨hlimit, hn⟩ := Classical.not_imp.mp hm
        exact .inl (attempt_exceeded hj hfailing (mt hprompt.late_iff.mp hlong) hlimit (Nat.not_lt.mp hn)).2
  · left
    rw [attempt_success hj hfailing]

/-- A failed run is the last one exactly if the streak with it is longer than the retries are many. -/
theorem attempt_gives_up (hj : j.Counts always cfg (streak always cfg runs)) (hprompt : r.Prompt cfg) :
    r.Failing always ∧ (∃ status, (j.attempt r).result = .error status) ↔
      ∃ m, cfg.maxRetries = some m ∧ m + 1 ≤ streak always cfg (runs ++ [r]) := by
  rw [streak_concat]
  by_cases hfailing : r.Failing always
  · by_cases hlong : r.Outlives cfg
    · rw [if_neg fun hboth => hboth.2 hlong, (attempt_late hj hfailing (hprompt.late_iff.mpr hlong)).2.1]
      constructor
      · intro h
        obtain ⟨-, status, hstatus⟩ := h
        cases hstatus
      · intro h
        obtain ⟨m, -, hm⟩ := h
        omega
    · rw [if_pos ⟨hfailing, hlong⟩]
      by_cases hmax : ∀ m, cfg.maxRetries = some m → streak always cfg runs < m
      · rw [(attempt_retry hj hfailing (mt hprompt.late_iff.mp hlong) hmax).2.1]
        constructor
        · intro h
          obtain ⟨-, status, hstatus⟩ := h
          cases hstatus
        · intro h
          obtain ⟨m, hm, hlast⟩ := h
          have hlt := hmax m hm
          omega
      · obtain ⟨m, hm⟩ := not_forall.mp hmax
        obtain ⟨hlimit, hn⟩ := Classical.not_imp.mp hm
        have hdone := (attempt_exceeded hj hfailing (mt hprompt.late_iff.mp hlong) hlimit (Nat.not_lt.mp hn)).1
        exact ⟨fun _ => ⟨m, hlimit, by omega⟩, fun _ => ⟨hfailing, hdone⟩⟩
  · rw [if_neg fun hboth => hfailing hboth.1]
    constructor
    · intro h
      exact absurd h.1 hfailing
    · intro h
      obtain ⟨m, -, hm⟩ := h
      omega

/-! ## Delays that overflow -/

/-- A run that fails at once. -/
def crash : JobRun := ⟨0, 0, 0, some 1, ""⟩

theorem crash_failing : crash.Failing always := .inr (by decide)

theorem crash_short : ¬ crash.Outlives cfg := Nat.not_lt_zero _

theorem crash_not_late : ¬ crash.Late cfg := Nat.not_lt_zero _

theorem crash_prompt : crash.Prompt cfg := .inr (Nat.zero_le _)

theorem streak_crashes (n : Nat) : streak always cfg (List.replicate n crash) = n := by
  induction n with
  | zero => rfl
  | succ n ih =>
    rw [List.replicate_succ', streak_concat, if_pos ⟨crash_failing, crash_short⟩, ih]

/-- The job is started again after as many crashes as there are retries. -/
theorem replay_crashes (hstart : j.Counts always cfg 0) (hmax : ∀ m, cfg.maxRetries = some m → n ≤ m) :
    ∃ j', j.replay (List.replicate n crash) = some j' ∧ j'.Counts always cfg n := by
  induction n with
  | zero => exact ⟨j, rfl, hstart⟩
  | succ n ih =>
    obtain ⟨k, hk, hcounts⟩ := ih fun m hm => Nat.le_of_succ_le (hmax m hm)
    obtain ⟨hnext, hresult, -⟩ := attempt_retry hcounts crash_failing crash_not_late hmax
    refine ⟨(k.attempt crash).job, ?_, hnext⟩
    rw [List.replicate_succ', replay_concat, hk]
    show k.replay [crash] = _
    unfold replay
    rw [hresult]
    rfl

end JobBackoff

theorem expBackoffTimeout_isSome {base n : Nat} :
    expBackoffTimeout base n ≠ none ↔ n < 64 ∧ base * 2 ^ n < 2 ^ 64 := by
  have hpow : 2 ^ n < 2 ^ 64 ↔ n < 64 := Nat.pow_lt_pow_iff_right (by decide)
  rw [← hpow]
  unfold expBackoffTimeout
  split
  · rename_i h
    exact ⟨fun _ => h, fun _ => nofun⟩
  · rename_i h
    exact ⟨fun hno => absurd rfl hno, fun hyes => absurd hyes h⟩

/-- The delays before the last one are shorter. -/
theorem expBackoffTimeout_of_le {base m n : Nat} (hn : n ≤ m) (h : expBackoffTimeout base m ≠ none) :
    expBackoffTimeout base n ≠ none := by
  obtain ⟨hm, hdelay⟩ := expBackoffTimeout_isSome.mp h
  have hpow : 2 ^ n ≤ 2 ^ m := Nat.pow_le_pow_right (by decide) hn
  exact expBackoffTimeout_isSome.mpr ⟨by omega, Nat.lt_of_le_of_lt (Nat.mul_le_mul_left base hpow) hdelay⟩

/-- There is a limit, and the last delay it allows fits in 64 bits. -/
def DelaysFit (cfg : Engine.RestartConfig) : Prop :=
  ∃ m, cfg.maxRetries = some m ∧ (m = 0 ∨ (m ≤ 64 ∧ cfg.backoffBaseMs * 2 ^ (m - 1) < 2 ^ 64))

theorem DelaysFit.delay (h : DelaysFit cfg) (hn : ∀ m, cfg.maxRetries = some m → n < m) :
    expBackoffTimeout cfg.backoffBaseMs n ≠ none := by
  obtain ⟨m, hmax, hfit⟩ := h
  have hlt := hn m hmax
  obtain hzero | ⟨hm, hlast⟩ := hfit
  · omega
  · have hfits : expBackoffTimeout cfg.backoffBaseMs (m - 1) ≠ none := expBackoffTimeout_isSome.mpr ⟨by omega, hlast⟩
    exact expBackoffTimeout_of_le (by omega) hfits

/-- Without a limit, or with one that is too large, there is a delay that does not fit. -/
theorem delay_overflows (h : ¬ DelaysFit cfg) :
    ∃ n, (∀ m, cfg.maxRetries = some m → n < m) ∧ expBackoffTimeout cfg.backoffBaseMs n = none := by
  have hlarge : expBackoffTimeout cfg.backoffBaseMs 64 = none := by
    by_cases hnone : expBackoffTimeout cfg.backoffBaseMs 64 = none
    · exact hnone
    · have hlt := (expBackoffTimeout_isSome.mp hnone).1
      omega
  cases hmax : cfg.maxRetries with
  | none => exact ⟨64, fun m hm => (by cases hm), hlarge⟩
  | some m =>
    by_cases hm : 64 < m
    · exact ⟨64, fun m' hm' => (by cases hm'; exact hm), hlarge⟩
    · have hpos : m ≠ 0 := fun hzero => h ⟨m, hmax, .inl hzero⟩
      have hlast : ¬ cfg.backoffBaseMs * 2 ^ (m - 1) < 2 ^ 64 := fun hfit => h ⟨m, hmax, .inr ⟨by omega, hfit⟩⟩
      refine ⟨m - 1, fun m' hm' => (by cases hm'; omega), ?_⟩
      by_cases hnone : expBackoffTimeout cfg.backoffBaseMs (m - 1) = none
      · exact hnone
      · exact absurd (expBackoffTimeout_isSome.mp hnone).2 hlast

/-- **The retries are counted**: where no report takes a run past the timeout,
a failed run is the last exactly if it is one more in a row than the retries
allowed, and no delay overflows. This is so of all runs exactly if the delays
fit. -/
theorem retries_counted_iff (always : Bool) (cfg : Engine.RestartConfig) :
    (∀ runs r, (∀ x ∈ runs ++ [r], x.Prompt cfg) → Counted always cfg runs r) ↔ DelaysFit cfg := by
  constructor
  · intro hall
    by_cases hfit : DelaysFit cfg
    · exact hfit
    · obtain ⟨n, hn, hnone⟩ := delay_overflows hfit
      have hprompt : ∀ x ∈ List.replicate n JobBackoff.crash ++ [JobBackoff.crash], x.Prompt cfg := by
        intro x hx
        obtain hx | hx := List.mem_append.mp hx
        · rw [List.eq_of_mem_replicate hx]
          exact JobBackoff.crash_prompt
        · rw [List.mem_singleton.mp hx]
          exact JobBackoff.crash_prompt
      have hnew : (JobBackoff.new "" 0 (restarting always cfg)).Counts always cfg 0 := JobBackoff.new_counts "" 0
      obtain ⟨j, hreplay, hcounts⟩ :=
        JobBackoff.replay_crashes hnew fun m hm => (hn m hm).le
      have hdelays := (JobBackoff.attempt_retry hcounts JobBackoff.crash_failing JobBackoff.crash_not_late hn).2.2
      have hfits := (hall _ _ hprompt "" 0 j hreplay).2
      rw [hdelays, hnone] at hfits
      exact absurd rfl (hfits none (List.mem_singleton_self none))
  · intro hfit runs r hprompt name now j hreplay
    have hruns : ∀ x ∈ runs, x.Prompt cfg := fun x hx => hprompt x (List.mem_append_left _ hx)
    have hr : r.Prompt cfg := hprompt r (List.mem_append_right _ (List.mem_singleton_self r))
    obtain ⟨hcounts, hwithin⟩ := JobBackoff.replay_counts (JobBackoff.new_counts name now) hruns hreplay
    constructor
    · rw [JobBackoff.attempt_gives_up hcounts hr]
      refine exists_congr fun m => and_congr_right fun hm => ?_
      have hle := hwithin m hm
      have hstep : streak always cfg (runs ++ [r]) ≤ streak always cfg runs + 1 := by
        rw [streak_concat]
        split <;> omega
      omega
    · intro delay hdelay
      obtain hdelays | ⟨hn, hdelays⟩ := JobBackoff.attempt_delays hcounts hr
      · rw [hdelays] at hdelay
        cases hdelay
      · rw [hdelays] at hdelay
        rw [List.mem_singleton.mp hdelay]
        exact hfit.delay hn

/-- A timeout of a second, and no retries. -/
def once : Engine.RestartConfig := ⟨1000, 100, some 0⟩

/-- A run that fails after nine tenths of a second, and is reported to a babel that does not answer. -/
def unanswered : JobRun := ⟨0, fromMillis 900, fromMillis 2100, some 1, "failed"⟩

theorem unanswered_streak : streak false once ([] ++ [unanswered]) = 0 + 1 := by
  have hshort : ¬ unanswered.Outlives once := Nat.not_lt.mpr (Nat.mul_le_mul_right 1000000 (by decide))
  rw [streak_concat, if_pos ⟨.inr (by decide), hshort⟩]
  rfl

theorem unanswered_late : unanswered.Late once := by
  show 1000 * 1000000 < 900 * 1000000 + 2100 * 1000000
  rw [← Nat.add_mul]
  exact Nat.mul_lt_mul_of_pos_right (by decide) (by decide)

/-- There are no retries, but the job is started again. -/
theorem retries_not_counted : ¬ ∀ always cfg runs r, Counted always cfg runs r := by
  intro h
  obtain ⟨hgives, -⟩ := h false once [] unanswered "job" 0 _ rfl
  obtain ⟨-, status, hstatus⟩ := hgives.mpr ⟨0, rfl, unanswered_streak⟩
  have hcounts : (JobBackoff.new "job" 0 (restarting false once)).Counts false once 0 := JobBackoff.new_counts "job" 0
  rw [(JobBackoff.attempt_late hcounts (.inr (by decide)) unanswered_late).2.1] at hstatus
  cases hstatus

end Blockvisor
