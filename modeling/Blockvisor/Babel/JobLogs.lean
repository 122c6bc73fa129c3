/-
The log of a job (`Job::push_log`, `Job::update` in `jobs.rs`), with its
restart stamps, which are updated with it. An entry is dropped after a day, and
when there are 1024 of them the log is split before the next one.

The log holds the last 1024 entries that are not old exactly as long as it
never has that many: a full log is split behind its oldest 1023 entries, and
these are dropped, not the oldest one (`logs_recent`). Nor is a message ever
cut, as it is a copy of it that `truncate` shortens.
-/
import Mathlib.Data.Finset.Filter
import Mathlib.Data.Finset.Insert
import Mathlib.Data.List.DropRight

namespace Blockvisor

/-- A moment of `Local::now()`, in nanoseconds. -/
abbrev DateTime := Int

/-- `TimeDelta::num_days`: whole seconds and then whole days, each rounded toward zero. -/
def numDays (nanos : Int) : Int := (nanos.tdiv 1000000000).tdiv 86400

def logExpireDays : Int := 1
def maxJobLogs : Nat := 1024
def maxLogEntryLen : Nat := 1024

structure JobRecords where
  logs : List (DateTime × String) := []
  restartStamps : Finset DateTime := ∅

namespace JobRecords

def notOld (time timestamp : DateTime) : Bool := decide (numDays (time - timestamp) < logExpireDays)

def update (job : JobRecords) (time : DateTime) : JobRecords :=
  let logs := job.logs.filter fun entry => notOld time entry.1
  { logs := if maxJobLogs ≤ logs.length then logs.drop (maxJobLogs - 1) else logs
    restartStamps := job.restartStamps.filter fun stamp => notOld time stamp }

def registerRestart (job : JobRecords) (time : DateTime) : JobRecords :=
  let job := job.update time
  { job with restartStamps := insert time job.restartStamps }

/-- `display` is how a moment is written. A copy of a message that is too long is cut, and dropped then. -/
def pushLog (display : DateTime → String) (job : JobRecords) (time : DateTime) (message : String) : JobRecords :=
  let job := job.update time
  { job with logs := job.logs ++ [(time, display time ++ "| " ++ message)] }

/-- The logs in a `JobInfo`, the newest first. -/
def infoLogs (job : JobRecords) : List String := job.logs.reverse.map (·.2)

/-- What is done with the records of a job: `info` updates them too. -/
inductive Op where
  | pushLog (time : DateTime) (message : String)
  | registerRestart (time : DateTime)
  | info (time : DateTime)

def step (display : DateTime → String) (job : JobRecords) : Op → JobRecords
  | .pushLog time message => job.pushLog display time message
  | .registerRestart time => job.registerRestart time
  | .info time => job.update time

/-- The records of a new job after these operations. -/
def run (display : DateTime → String) (ops : List Op) : JobRecords := ops.foldl (step display) {}

/-! ## What the log is for -/

def Op.time : Op → DateTime
  | .pushLog time _ | .registerRestart time | .info time => time

def Op.pushed : Op → List (DateTime × String)
  | .pushLog time message => [(time, message)]
  | _ => []

/-- What is not old at this operation. -/
def Op.kept (op : Op) (messages : List (DateTime × String)) : List (DateTime × String) :=
  messages.filter fun message => notOld op.time message.1

/-- What was pushed, and has not been old at a later operation. -/
def unexpired (ops : List Op) : List (DateTime × String) := ops.foldl (fun messages op => op.kept messages ++ op.pushed) []

def cut (message : String) : String := String.ofList (message.toList.take maxLogEntryLen)

/-- The messages as they are entered. -/
def entries (display : DateTime → String) (messages : List (DateTime × String)) : List (DateTime × String) :=
  messages.map fun message => (message.1, display message.1 ++ "| " ++ message.2)

/-- The log has the last 1024 messages that are not old, each cut to 1024 characters. -/
def KeepsRecent (display : DateTime → String) (ops : List Op) : Prop :=
  (run display ops).logs = entries display (((unexpired ops).rtake maxJobLogs).map fun message => (message.1, cut message.2))

/-- There is room for one more entry, and the message pushed is not too long. -/
def OpFits (earlier : List Op) (op : Op) : Prop :=
  (op.kept (unexpired earlier)).length < maxJobLogs ∧ ∀ message ∈ op.pushed, message.2.length ≤ maxLogEntryLen

def Fits (ops : List Op) : Prop := ∀ earlier op, earlier ++ [op] <+: ops → OpFits earlier op

variable {display : DateTime → String} {ops : List Op} {op : Op}

theorem unexpired_append : unexpired (ops ++ [op]) = op.kept (unexpired ops) ++ op.pushed := by
  unfold unexpired
  rw [List.foldl_append]
  rfl

/-- Within a day nothing expires. -/
theorem unexpired_within (h : ∀ a ∈ ops, ∀ b ∈ ops, notOld a.time b.time = true) : unexpired ops = ops.flatMap Op.pushed := by
  induction ops using List.reverseRecOn with
  | nil => rfl
  | append_singleton ops op ih =>
    have ih := ih fun a ha b hb => h a (by simp [ha]) b (by simp [hb])
    have hkept : op.kept (unexpired ops) = unexpired ops := by
      refine List.filter_eq_self.mpr fun message hmessage => ?_
      rw [ih, List.mem_flatMap] at hmessage
      obtain ⟨b, hb, hpushed⟩ := hmessage
      have hold := h op (by simp) b (by simp [hb])
      cases b with
      | pushLog time text =>
        rw [List.mem_singleton.mp hpushed]
        exact hold
      | registerRestart time => cases hpushed
      | info time => cases hpushed
    rw [unexpired_append, hkept, ih, List.flatMap_append]
    simp

/-- What one operation does to the log. -/
theorem run_append : (run display (ops ++ [op])).logs = ((run display ops).update op.time).logs ++ entries display op.pushed := by
  unfold run
  rw [List.foldl_append]
  cases op with
  | pushLog time message => rfl
  | registerRestart time => exact (List.append_nil _).symm
  | info time => exact (List.append_nil _).symm

theorem entries_length (messages : List (DateTime × String)) : (entries display messages).length = messages.length :=
  List.length_map _

/-- Where the log has been what was pushed, an update keeps what is not old, and splits it if it is full. -/
theorem update_logs (hlogs : (run display ops).logs = entries display (unexpired ops)) :
    ((run display ops).update op.time).logs =
      entries display (if maxJobLogs ≤ (op.kept (unexpired ops)).length then (op.kept (unexpired ops)).drop (maxJobLogs - 1)
        else op.kept (unexpired ops)) := by
  have hkept : (run display ops).logs.filter (fun entry => notOld op.time entry.1) = entries display (op.kept (unexpired ops)) := by
    rw [hlogs, entries, List.filter_map]
    rfl
  unfold update
  simp only [hkept, entries_length]
  by_cases hfull : maxJobLogs ≤ (op.kept (unexpired ops)).length
  · rw [if_pos hfull, if_pos hfull]
    exact List.map_drop.symm
  · rw [if_neg hfull, if_neg hfull]

theorem cut_eq {message : String} (h : message.length ≤ maxLogEntryLen) : cut message = message := by
  rw [cut, List.take_of_length_le (by rwa [String.length_toList]), String.ofList_toList]

theorem Fits.earlier (h : Fits (ops ++ [op])) : Fits ops :=
  fun earlier op' hfits => h earlier op' (hfits.trans (List.prefix_append ops [op]))

variable (display) in
/-- As long as all fits, the log is what was pushed and is not old, and is not longer than it may be. -/
theorem Fits.logs (h : Fits ops) :
    (run display ops).logs = entries display (unexpired ops) ∧ (unexpired ops).length ≤ maxJobLogs ∧
      ∀ message ∈ unexpired ops, message.2.length ≤ maxLogEntryLen := by
  induction ops using List.reverseRecOn with
  | nil => exact ⟨rfl, Nat.zero_le _, fun message hmem => by cases hmem⟩
  | append_singleton ops op ih =>
    obtain ⟨hlogs, -, hshort⟩ := ih h.earlier
    obtain ⟨hroom, hpushed⟩ := h ops op List.prefix_rfl
    refine ⟨?_, ?_, fun message hmem => ?_⟩
    · rw [run_append, update_logs hlogs, if_neg (by omega), unexpired_append]
      exact List.map_append.symm
    · have hone : op.pushed.length ≤ 1 := by cases op <;> simp [Op.pushed]
      rw [unexpired_append, List.length_append]
      omega
    · rw [unexpired_append, List.mem_append] at hmem
      cases hmem with
      | inl hkept => exact hshort message (List.mem_filter.mp hkept).1
      | inr hnew => exact hpushed message hnew

theorem Fits.keepsRecent (h : Fits ops) : KeepsRecent display ops := by
  obtain ⟨hlogs, hlength, hshort⟩ := h.logs display
  have hall : (unexpired ops).rtake maxJobLogs = unexpired ops := by
    unfold List.rtake
    rw [Nat.sub_eq_zero_of_le hlength, List.drop_zero]
  have hcut : (unexpired ops).map (fun message => (message.1, cut message.2)) = unexpired ops := by
    calc (unexpired ops).map (fun message => (message.1, cut message.2))
        = (unexpired ops).map id := List.map_congr_left fun message hmem => by rw [cut_eq (hshort message hmem)]; rfl
      _ = unexpired ops := List.map_id _
  unfold KeepsRecent
  rw [hall, hcut, hlogs]

theorem pushed_length (op : Op) : op.pushed.length ≤ 1 := by
  cases op <;> simp [Op.pushed]

theorem kept_length (op : Op) (messages : List (DateTime × String)) : (op.kept messages).length ≤ messages.length :=
  List.length_filter_le _ _

/-- A log that was full has two entries at most after the next operation. -/
theorem room_of_keepsRecent (h : Fits ops) (hkeeps : KeepsRecent display (ops ++ [op])) :
    (op.kept (unexpired ops)).length < maxJobLogs := by
  obtain ⟨hlogs, hlength, -⟩ := h.logs display
  by_contra hfull
  have hfull : maxJobLogs ≤ (op.kept (unexpired ops)).length := by omega
  have hlengths := congrArg List.length hkeeps
  rw [run_append, update_logs hlogs, if_pos hfull, unexpired_append] at hlengths
  simp only [List.length_append, entries_length, List.length_drop, List.length_map, List.rtake] at hlengths
  have hone := pushed_length op
  have hkept := kept_length op (unexpired ops)
  simp only [maxJobLogs] at hlengths hfull hlength
  omega

/-- A message that is too long is entered as a whole. -/
theorem short_of_keepsRecent (h : Fits ops) (hkeeps : KeepsRecent display (ops ++ [op])) :
    ∀ message ∈ op.pushed, message.2.length ≤ maxLogEntryLen := by
  have hroom := room_of_keepsRecent h hkeeps
  obtain ⟨hlogs, -, -⟩ := h.logs display
  intro message hmem
  have hpushed : op.pushed = [message] := by
    cases op with
    | pushLog time text => rw [List.mem_singleton.mp hmem]; rfl
    | registerRestart time => cases hmem
    | info time => cases hmem
  unfold KeepsRecent at hkeeps
  rw [run_append, update_logs hlogs, if_neg (by omega), unexpired_append, hpushed, List.rtake,
    Nat.sub_eq_zero_of_le (by rw [List.length_append, List.length_singleton]; omega), List.drop_zero] at hkeeps
  simp only [entries, List.map_append, List.map_cons, List.map_nil] at hkeeps
  have hlast := List.append_inj_right' hkeeps rfl
  simp only [List.cons.injEq, Prod.mk.injEq, true_and, and_true] at hlast
  have hcut : cut message.2 = message.2 := by
    have htexts := congrArg String.toList hlast
    simp only [String.toList_append, List.append_cancel_left_eq] at htexts
    exact (String.toList_inj.mp htexts).symm
  rw [← hcut, cut, String.length_ofList, List.length_take]
  exact Nat.min_le_left _ _

theorem fits_of_keepsRecent (h : ∀ earlier, earlier <+: ops → KeepsRecent display earlier) : Fits ops := by
  induction ops using List.reverseRecOn with
  | nil =>
    intro earlier op hfits
    have hnil := List.prefix_nil.mp hfits
    simp at hnil
  | append_singleton ops op ih =>
    have hfits := ih fun earlier hearlier => h earlier (hearlier.trans (List.prefix_append ops [op]))
    have hkeeps := h _ List.prefix_rfl
    intro earlier op' hearlier
    cases List.prefix_concat_iff.mp hearlier with
    | inl heq =>
      obtain ⟨hops, hop⟩ := List.append_inj' heq rfl
      cases hop
      subst hops
      exact ⟨room_of_keepsRecent hfits hkeeps, short_of_keepsRecent hfits hkeeps⟩
    | inr hearlier => exact hfits earlier op' hearlier

/-- **The log keeps the most recent messages** all along exactly if there is room for each operation, and no
message is too long. -/
theorem logs_recent (display : DateTime → String) (ops : List Op) :
    (∀ earlier, earlier <+: ops → KeepsRecent display earlier) ↔ Fits ops := by
  constructor
  · exact fits_of_keepsRecent
  · intro h earlier hearlier
    have hfits : Fits earlier := fun earlier' op hleads => h earlier' op (hleads.trans hearlier)
    exact hfits.keepsRecent

theorem unexpired_replicate (n : Nat) (time : DateTime) (message : String) :
    unexpired (List.replicate n (.pushLog time message)) = List.replicate n (time, message) := by
  have hsame : notOld time time = true := by
    unfold notOld
    rw [Int.sub_self]
    decide
  rw [unexpired_within]
  · induction n with
    | zero => rfl
    | succ n ih =>
      rw [List.replicate_succ, List.flatMap_cons, ih]
      rfl
  · intro a ha b hb
    rw [List.eq_of_mem_replicate ha, List.eq_of_mem_replicate hb]
    exact hsame

/-- The 1025th message leaves two in the log; and a message of 1025 characters is entered with all of them. -/
theorem logs_lost :
    (¬ ∀ earlier, earlier <+: List.replicate 1025 (.pushLog 0 "ok") → KeepsRecent (fun _ => "") earlier) ∧
      ¬ ∀ earlier, earlier <+: [.pushLog 0 (String.ofList (List.replicate 1025 'a'))] → KeepsRecent (fun _ => "") earlier := by
  constructor
  · intro h
    have hlast : List.replicate 1024 (.pushLog 0 "ok") ++ [.pushLog 0 "ok"] <+: List.replicate 1025 (Op.pushLog 0 "ok") := by
      rw [← List.replicate_succ']
    have hroom := (fits_of_keepsRecent h _ _ hlast).1
    have hkept : (Op.pushLog 0 "ok").kept (List.replicate 1024 (0, "ok")) = List.replicate 1024 (0, "ok") :=
      List.filter_eq_self.mpr fun message hmem => by rw [List.eq_of_mem_replicate hmem]; rfl
    rw [unexpired_replicate, hkept, List.length_replicate] at hroom
    exact absurd hroom (by decide)
  · intro h
    have hshort := (fits_of_keepsRecent h [] (.pushLog 0 (String.ofList (List.replicate 1025 'a'))) List.prefix_rfl).2
    have hlong := hshort _ (List.mem_singleton.mpr rfl)
    rw [String.length_ofList, List.length_replicate] at hlong
    exact absurd hlong (by decide)

end JobRecords

end Blockvisor
