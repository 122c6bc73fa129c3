/-
What a load of the jobs makes of what babel left behind. Every write of a file
is taken to come out whole or not at all (`JobsAct.clean`); babel may be
killed at any file or process operation, and jobs may be loaded at any time.

`reload_safe`: a job whose last stop, create or skip that returned Ok came
after every start is not started; a job whose last client operation was a
start that returned Ok, and that was not over when babel went down or when it
was loaded, is active or Pending after the load, or has the final status its
runner saved; and there are never two runners of one job. An operation that
was cut off by the kill may have taken effect all the same: `reload_cut`.

`SlotOk` is what holds of a job at all times. That runners are those of active
jobs (`Synced`) holds from a load on, so that a pass, which comes after one,
starts no second runner.
-/
import Blockvisor.Babel.JobWaits

namespace Blockvisor

open Effect Machine

/-! ## Writes that are whole or not at all -/

def TerminateEnv.clean (env : TerminateEnv) : Bool := env.saved.all (·.cut.clean)

def HaltEnv.clean (env : HaltEnv) : Bool := env.terminate.clean && env.save.clean

def CreateEnv.clean (env : CreateEnv) : Bool := env.terminate.clean && env.save.clean && env.saveConfig.clean

def JobsAct.clean : JobsAct → Bool
  | .create _ _ env => env.clean
  | .start _ save => save.clean
  | .stop _ env => env.clean
  | .skip _ env => env.clean
  | .stopAll order env => order.all fun name => (env name).clean
  | .endShutdown _ order env => order.all fun name => (env name).clean
  | .updateActive order env => order.all fun name => (env name).save.clean
  | .checkInactive order env _ => order.all fun name => (env name).save.clean
  | .runnerSaves _ _ save => save.cut.clean
  | _ => true

namespace JobSlot

theorem writeStatus_clean {cut : DocCut} (h : cut.clean = true) (s : JobSlot) (status : JobStatus) (byRunner : Bool) :
    s.writeStatus status cut byRunner = s ∨
      cut = .whole ∧ s.writeStatus status cut byRunner = { s with status := .whole status, byRunner } := by
  rcases DocCut.of_clean h with rfl | rfl
  · exact .inl rfl
  · exact .inr ⟨rfl, rfl⟩

theorem removeStatus_either (s : JobSlot) (cut : DocCut) :
    s.removeStatus cut = s ∨ s.removeStatus cut = { s with status := .missing, byRunner := false } := by
  unfold removeStatus
  split
  · exact .inl rfl
  · exact .inr rfl

/-! ## What holds of a job -/

/-- What the status file says: that the job is over, or that it is not. -/
def fileDecided (s : JobSlot) : Bool :=
  match s.status with
  | .whole status => status.decided
  | _ => false

def fileOpen (s : JobSlot) : Bool :=
  match s.status with
  | .missing => true
  | .whole (.pending _) => true
  | _ => false

/-- The state of the job, or the one it had when babel went down. -/
def lastState (s : JobSlot) : Option JobState := (s.job.map (·.state)).or s.last

def isOpen (s : JobSlot) : Bool := s.lastState.any (!·.decided)

/-- The files of a job agree with what was asked for and with what became of it. -/
structure SlotOk (s : JobSlot) : Prop where
  readable : s.fileOpen = true ∨ s.fileDecided = true
  saved : s.byRunner = true → s.fileDecided = true
  halted : s.halted = true → s.fileDecided = true ∧ s.awaits = none
  asked : s.asked = true → s.runners ≠ [] ∨ s.isOpen = true → s.fileOpen = true ∨ s.byRunner = true
  config : s.job.isSome = true ∨ s.runners ≠ [] ∨ s.asked = true → ∃ config, s.config = .whole config
  single : s.runners.length ≤ 1

/-- The runners of a job are those the registry knows. -/
def Synced (s : JobSlot) : Prop := ∀ pid ∈ s.runners, s.activePid = some pid

theorem fileOpen_decided {s : JobSlot} (h : s.fileOpen = true) : s.fileDecided = false := by
  unfold fileOpen fileDecided at *
  split at h
  · rename_i hstatus
    rw [hstatus]
  · rename_i hstatus
    rw [hstatus]
    rfl
  · cases h

namespace SlotOk

variable {s : JobSlot}

/-- A status file that says that the job is over. -/
theorem file (h : SlotOk s) {status : JobStatus} (hstatus : status.decided = true) (byRunner : Bool)
    (hasked : s.asked = true → s.runners ≠ [] ∨ s.isOpen = true → byRunner = true) :
    SlotOk { s with status := .whole status, byRunner } where
  readable := .inr hstatus
  saved := fun _ => hstatus
  halted := fun hhalted => ⟨hstatus, (h.halted hhalted).2⟩
  asked := fun hask hleft => .inr (hasked hask hleft)
  config := h.config
  single := h.single

/-- One that says that it is Pending, or none. -/
theorem pendingFile (h : SlotOk s) (hhalted : s.halted = false) (waitingFor : List String) :
    SlotOk { s with status := .whole (.pending waitingFor), byRunner := false } where
  readable := .inl rfl
  saved := fun hsaved => by cases hsaved
  halted := fun hhalt => absurd hhalt (Bool.eq_false_iff.mp hhalted)
  asked := fun _ _ => .inl rfl
  config := h.config
  single := h.single

theorem noFile (h : SlotOk s) (hhalted : s.halted = false) : SlotOk { s with status := .missing, byRunner := false } where
  readable := .inl rfl
  saved := fun hsaved => by cases hsaved
  halted := fun hhalt => absurd hhalt (Bool.eq_false_iff.mp hhalted)
  asked := fun _ _ => .inl rfl
  config := h.config
  single := h.single

theorem withRunners (h : SlotOk s) {runners : List Nat} (hsub : runners.length ≤ s.runners.length) :
    SlotOk { s with runners } := by
  have hnonempty : runners ≠ [] → s.runners ≠ [] := by
    intro hne hnil
    rw [hnil] at hsub
    exact hne (List.eq_nil_of_length_eq_zero (Nat.le_zero.mp hsub))
  exact {
    readable := h.readable
    saved := h.saved
    halted := h.halted
    asked := fun hasked hleft => h.asked hasked (hleft.imp_left hnonempty)
    config := fun hleft => h.config (hleft.imp_right fun hleft => hleft.imp_left hnonempty)
    single := Nat.le_trans hsub h.single }

theorem runnerSaves (h : SlotOk s) {save : RunnerSave} (hclean : save.cut.clean = true) : SlotOk (s.runnerSaves save) := by
  unfold JobSlot.runnerSaves
  rcases writeStatus_clean hclean s (.finished save.exitCode save.message) true with heq | ⟨_, heq⟩
  · rw [heq]
    exact h
  · rw [heq]
    exact h.file rfl true fun _ _ => rfl

theorem runnerEnds (h : SlotOk s) (pid : Nat) : SlotOk (s.runnerEnds pid) := h.withRunners (List.length_filter_le ..)

/-- Another state of the job. -/
theorem withState (h : SlotOk s) {state : JobState}
    (hhalted : s.halted = true → ∀ waitingFor, state ≠ .inactive (.pending waitingFor))
    (hasked : s.asked = true → state.decided = false → s.fileOpen = true ∨ s.byRunner = true) :
    SlotOk (s.withState state) where
  readable := h.readable
  saved := h.saved
  halted := by
    intro hhalt
    refine ⟨(h.halted hhalt).1, ?_⟩
    unfold JobSlot.withState awaits
    cases s.job with
    | none => rfl
    | some job =>
      cases state with
      | active pid => rfl
      | inactive status =>
        cases status with
        | pending waitingFor => exact absurd rfl (hhalted hhalt waitingFor)
        | _ => rfl
  asked := by
    intro hask hleft
    by_cases hrunners : s.runners = []
    · have hopen : (s.withState state).isOpen = true := hleft.resolve_left fun hne => hne hrunners
      cases hjob : s.job with
      | none =>
        have hsame : (s.withState state).isOpen = s.isOpen := by simp [isOpen, lastState, JobSlot.withState, hjob]
        exact h.asked hask (.inr (hsame ▸ hopen))
      | some job =>
        refine hasked hask ?_
        simpa [isOpen, lastState, JobSlot.withState, hjob] using hopen
    · exact h.asked hask (.inl hrunners)
  config := by
    intro hleft
    refine h.config (hleft.imp_left fun hsome => ?_)
    simpa [JobSlot.withState] using hsome
  single := h.single

end SlotOk

/-! ## Client operations -/

/-- A job in the middle of an operation: what it was and was asked for, and, where the registry knows
of the runners (`p`), that it does. -/
def Held (p : Prop) (job : Option Job) (asked : Bool) (s : JobSlot) : Prop :=
  SlotOk s ∧ (p → Synced s) ∧ s.job = job ∧ s.asked = asked

/-- One that has no runner any more. -/
def Freed (p : Prop) (job : Option Job) (asked : Bool) (s : JobSlot) : Prop :=
  SlotOk s ∧ (p → s.runners = []) ∧ s.job = job ∧ s.asked = asked

def Good (p : Prop) (s : JobSlot) : Prop := SlotOk s ∧ (p → Synced s)

theorem synced_of_nil {s : JobSlot} (h : s.runners = []) : Synced s := by
  intro pid hpid
  rw [h] at hpid
  cases hpid

theorem Synced.nil {s : JobSlot} (h : Synced s) (hidle : s.activePid = none) : s.runners = [] := by
  refine List.eq_nil_iff_forall_not_mem.mpr fun pid hmem => ?_
  cases hidle.symm.trans (h pid hmem)

theorem Freed.held {p : Prop} {job : Option Job} {asked : Bool} {s : JobSlot} (h : Freed p job asked s) : Held p job asked s :=
  ⟨h.1, fun hp => synced_of_nil (h.2.1 hp), h.2.2⟩

theorem Held.good {p : Prop} {job : Option Job} {asked : Bool} {s : JobSlot} (h : Held p job asked s) : Good p s := ⟨h.1, h.2.1⟩

theorem activePid_congr {s t : JobSlot} (h : s.job = t.job) : s.activePid = t.activePid := by
  unfold activePid
  rw [h]

theorem undecided_of_active {s : JobSlot} {pid : Nat} (h : s.activePid = some pid) : s.undecided = true := by
  unfold activePid undecided at *
  cases hjob : s.job with
  | none => simp [hjob] at h
  | some job =>
    rw [hjob] at h
    dsimp only at h
    split at h
    · rename_i hstate
      simp [hstate, JobState.decided]
    · cases h

theorem isOpen_of_undecided {s : JobSlot} (h : s.undecided = true) : s.isOpen = true := by
  obtain ⟨job, hjob, hnot⟩ := JobsSt.of_undecided h
  simp [isOpen, lastState, hjob, hnot]

section

variable {p : Prop} {job : Option Job} {asked : Bool}

theorem lastWords_held {env : TerminateEnv} (hclean : env.clean = true) :
    Keeps (Held p job asked) (Held p job asked) (lastWords env) := by
  unfold lastWords
  cases hsaved : env.saved with
  | none => exact Keeps.pure
  | some save =>
    have hcut : save.cut.clean = true := by simpa [TerminateEnv.clean, hsaved] using hclean
    refine Keeps.modify fun s h => ⟨h.1.runnerSaves hcut, fun hp pid hpid => ?_, ?_, ?_⟩
    · have hjob : (s.runnerSaves save).job = s.job := job_writeStatus ..
      rw [activePid_congr hjob]
      refine h.2.1 hp pid ?_
      unfold runnerSaves writeStatus at hpid
      split at hpid <;> exact hpid
    · exact (job_writeStatus ..).trans h.2.2.1
    · refine Eq.trans ?_ h.2.2.2
      unfold runnerSaves writeStatus
      split <;> rfl

theorem runnerEnds_freed {s : JobSlot} {pid : Nat} (h : Held p job asked s) (hpid : s.activePid = some pid) :
    Freed p job asked (s.runnerEnds pid) := by
  refine ⟨h.1.runnerEnds pid, fun hp => ?_, h.2.2⟩
  refine List.filter_eq_nil_iff.mpr fun pid' hmem => ?_
  have heq := Option.some.inj ((h.2.1 hp pid' hmem).symm.trans hpid)
  simp [heq]

theorem terminateJobProcess_good (name : String) {pid : Nat} {env : TerminateEnv} (hclean : env.clean = true)
    (hpid : ∀ s : JobSlot, s.job = job → s.activePid = some pid) :
    Triple (Held p job asked) (terminateJobProcess name pid env) (fun _ => Freed p job asked) (atExit (Held p job asked) SlotOk) := by
  refine Triple.bind (R := fun runners s => runners = s.runners ∧ Held p job asked s) Triple.gets fun runners => ?_
  split
  · rename_i hmem
    refine Triple.bind (R := fun _ => Held p job asked) ?_ fun _ => ?_
    · refine (lastWords_held hclean).conseq (fun s h => h.2) (fun _ _ h => h) fun e s h => ?_
      cases e with
      | error e => exact h
      | killed => exact h.1
    split
    · exact Triple.modify fun s h => runnerEnds_freed h (hpid s h.2.2.1)
    · exact Triple.throw fun s h => h
    · refine Triple.bind (R := fun _ => SlotOk) ?_ fun _ => Triple.kill fun s h => h
      exact Triple.when (fun _ => Triple.modify fun s h => h.1.runnerEnds _) fun _ s h => h.1
  · rename_i hmem
    refine Triple.pure fun s h => ⟨h.2.1, fun hp => ?_, h.2.2.2⟩
    -- the only runner there could be is gone
    refine List.eq_nil_iff_forall_not_mem.mpr fun pid' hpid' => hmem ?_
    have heq := Option.some.inj ((h.2.2.1 hp pid' hpid').symm.trans (hpid s h.2.2.2.1))
    rw [h.1, ← heq]
    exact hpid'

theorem terminateActive_good (name : String) {env : TerminateEnv} (hclean : env.clean = true) :
    Triple (Held p job asked) (terminateActive name env) (fun _ => Freed p job asked) (atExit (Held p job asked) SlotOk) := by
  refine Triple.bind (R := fun pid s => pid = s.activePid ∧ Held p job asked s) Triple.gets fun pid => ?_
  cases pid with
  | some pid =>
    intro s ⟨hpid, h⟩
    refine terminateJobProcess_good name hclean (fun t ht => ?_) s h
    rw [activePid_congr (ht.trans h.2.2.1.symm), ← hpid]
  | none =>
    exact Triple.pure fun s h => ⟨h.2.1, fun hp => (h.2.2.1 hp).nil h.1.symm, h.2.2.2⟩

/-- The status of a job that is over is saved, or the file is left as it was. -/
theorem saveStatusFile_good {status : JobStatus} (hstatus : status.decided = true) {save : Fault DocCut}
    (hclean : save.clean = true) {P : JobSlot → Prop}
    (hP : ∀ s, P s → s.asked = true → s.runners = [] ∧ s.isOpen = false)
    (hfile : ∀ s, P s → P { s with status := .whole status, byRunner := false }) :
    Triple (fun s => SlotOk s ∧ P s) (saveStatusFile status save) (fun _ s => SlotOk s ∧ P s ∧ s.fileDecided = true)
      fun _ s => SlotOk s ∧ P s := by
  intro s ⟨hok, hs⟩
  have hwritten : SlotOk { s with status := .whole status, byRunner := false } :=
    hok.file hstatus false fun hasked hleft => by
      obtain ⟨hrunners, hopen⟩ := hP s hs hasked
      rw [hrunners, hopen] at hleft
      simp at hleft
  have hcut : ∀ {cut : DocCut}, cut.clean = true →
      SlotOk (s.writeStatus status cut false) ∧ P (s.writeStatus status cut false) := fun hcut => by
    rcases writeStatus_clean hcut s status false with heq | ⟨_, heq⟩
    · rw [heq]
      exact ⟨hok, hs⟩
    · rw [heq]
      exact ⟨hwritten, hfile s hs⟩
  unfold saveStatusFile
  cases save with
  | none => exact ⟨hwritten, hfile s hs, hstatus⟩
  | error cut => exact hcut hclean
  | killed cut => exact hcut hclean

/-- Calls that first look up the job, may refuse it, and end its runner go on with a job without one. -/
theorem freed_first (name : String) {env : TerminateEnv} (hclean : env.clean = true) {refused : Option Job → Prop}
    [∀ job, Decidable (refused job)] {err : String} {rest : SlotM Unit} {Q : Unit → JobSlot → Prop}
    (hrest : ∀ job, Triple (Freed p job false) rest Q (atExit (Good p) SlotOk)) :
    Triple (fun s => Good p s ∧ s.asked = false)
      (do
        let job ← gets (·.job)
        Effect.when (refused job) (throw err)
        terminateActive name env
        rest)
      Q (atExit (Good p) SlotOk) := by
  refine Triple.bind (R := fun job s => Held p job false s) ?_ fun job => ?_
  · exact Triple.gets.post fun job s h => ⟨h.2.1.1, h.2.1.2, h.1.symm, h.2.2⟩
  refine Triple.bind (R := fun _ => Held p job false) ?_ fun _ => ?_
  · exact Triple.when (fun _ => Triple.throw fun s h => h.good) fun _ s h => h
  refine Triple.bind (R := fun _ => Freed p job false) ?_ fun _ => hrest job
  refine (terminateActive_good name hclean).exit fun e s h => ?_
  cases e with
  | error e => exact h.good
  | killed => exact h

theorem halt_good (name : String) {status : JobStatus} (hstatus : status.decided = true) {env : HaltEnv}
    (hclean : env.clean = true) :
    Triple (fun s => Good p s ∧ s.asked = false) (halt name status env)
      (fun _ s => (Good p s ∧ s.asked = false) ∧ s.fileDecided = true ∧ s.awaits = none) (atExit (Good p) SlotOk) := by
  obtain ⟨hterminate, hsave⟩ : env.terminate.clean = true ∧ env.save.clean = true := by simpa [HaltEnv.clean] using hclean
  refine freed_first name hterminate fun job => ?_
  refine Triple.bind (R := fun _ s => SlotOk s ∧ (p → s.runners = []) ∧ s.asked = false ∧ s.awaits = none) ?_ fun _ => ?_
  · refine Triple.modify fun s h => ⟨h.1.withState (fun _ waitingFor heq => ?_) fun hasked => ?_, h.2.1, h.2.2.2, ?_⟩
    · rw [JobState.inactive.inj heq] at hstatus
      cases hstatus
    · rw [h.2.2.2] at hasked
      cases hasked
    · cases hjob : s.job with
      | none => simp [awaits, withState, hjob]
      | some job => exact awaits_decided (decided_withState hjob hstatus)
  rw [saveStatus_decided hstatus]
  refine (saveStatusFile_good hstatus hsave (P := fun s => (p → s.runners = []) ∧ s.asked = false ∧ s.awaits = none)
    (fun s h hasked => ?_) fun s h => h).conseq (fun s h => h) (fun _ s h => ?_) fun e s h => ?_
  · rw [h.2.1] at hasked
    cases hasked
  · exact ⟨⟨⟨h.1, fun hp => synced_of_nil (h.2.1.1 hp)⟩, h.2.1.2.1⟩, h.2.2, h.2.1.2.2⟩
  · cases e with
    | error e => exact ⟨h.1, fun hp => synced_of_nil (h.2.1 hp)⟩
    | killed => exact h.1

theorem saveConfig_whole {config : JobConfig} {save : Fault DocCut} (hclean : save.clean = true) {s : JobSlot} (h : SlotOk s) :
    SlotOk (saveConfig config save s).2 := by
  have hwhole : ∀ config, SlotOk { s with config := .whole config } := fun config =>
    ⟨h.readable, h.saved, h.halted, h.asked, fun _ => ⟨config, rfl⟩, h.single⟩
  have hcut : ∀ {cut}, DocCut.clean cut = true → SlotOk { s with config := s.config.write config cut } := fun hcut => by
    rcases DocCut.of_clean hcut with rfl | rfl
    · exact h
    · exact hwhole config
  unfold saveConfig
  cases save with
  | none => exact hwhole config
  | error cut => exact hcut hclean
  | killed cut => exact hcut hclean

theorem create_good (name : String) (config : JobConfig) (room : Bool) {env : CreateEnv} (hclean : env.clean = true) :
    Triple (fun s => Good p s ∧ s.asked = false) (create name config room env)
      (fun _ s => (Good p s ∧ s.asked = false) ∧ s.fileDecided = true ∧ s.awaits = none) (atExit (Good p) SlotOk) := by
  obtain ⟨⟨hterminate, hsave⟩, hconfig⟩ : (env.terminate.clean = true ∧ env.save.clean = true) ∧ env.saveConfig.clean = true := by
    simpa [CreateEnv.clean] using hclean
  refine freed_first name hterminate fun job => ?_
  have hexit : ∀ (e : Exit String) s, (SlotOk s ∧ (p → s.runners = []) ∧ s.asked = false) → atExit (Good p) SlotOk e s := fun e s h => by
    cases e with
    | error e => exact ⟨h.1, fun hp => synced_of_nil (h.2.1 hp)⟩
    | killed => exact h.1
  refine Triple.bind (R := fun _ s => SlotOk s ∧ (p → s.runners = []) ∧ s.asked = false) ?_ fun _ => ?_
  · intro s h
    cases env.mkdir with
    | none => exact ⟨h.1, h.2.1, h.2.2.2⟩
    | error cut => exact hexit _ s ⟨h.1, h.2.1, h.2.2.2⟩
    | killed cut => exact h.1
  refine Triple.bind (R := fun _ s => SlotOk s ∧ ((p → s.runners = []) ∧ s.asked = false) ∧ s.fileDecided = true) ?_ fun _ => ?_
  · rw [saveStatus_decided rfl]
    refine (saveStatusFile_good rfl hsave (P := fun s => (p → s.runners = []) ∧ s.asked = false) (fun s h hasked => ?_)
      fun s h => h).exit hexit
    rw [h.2] at hasked
    cases hasked
  refine Triple.bind (R := fun _ s => SlotOk s ∧ ((p → s.runners = []) ∧ s.asked = false) ∧ s.fileDecided = true ∧
    ∃ config, s.config = .whole config) ?_ fun _ => ?_
  · intro s ⟨hok, hs, hfile⟩
    have hsaved : SlotOk (saveConfig config env.saveConfig s).2 := saveConfig_whole hconfig hok
    unfold saveConfig at hsaved ⊢
    revert hsaved
    cases env.saveConfig with
    | none => exact fun hsaved => ⟨hsaved, hs, hfile, config, rfl⟩
    | error cut => exact fun hsaved => hexit _ _ ⟨hsaved, hs⟩
    | killed cut => exact id
  · refine Triple.modify fun s ⟨hok, ⟨hrunners, hasked⟩, hfile, hwhole⟩ => ⟨⟨⟨?_, ?_⟩, hasked⟩, hfile, rfl⟩
    · refine ⟨hok.readable, hok.saved, fun hhalted => ⟨hfile, rfl⟩, fun hask => ?_, fun _ => hwhole, hok.single⟩
      rw [hasked] at hask
      cases hask
    · exact fun hp => synced_of_nil (hrunners hp)

/-- A start that was sent has saved the job as Pending. -/
theorem start_good (name : String) {save : Fault DocCut} (hclean : save.clean = true) :
    Triple (fun s => Good p s ∧ s.halted = false ∧ (s.asked = true → s.activePid ≠ none)) (start name save)
      (fun sent s => Good p s ∧ (sent = true → s.fileOpen = true ∧ s.job.isSome = true)) (atExit (Good p) SlotOk) := by
  refine Triple.bind (R := fun job s => job = s.job ∧ Good p s ∧ s.halted = false ∧ (s.asked = true → s.activePid ≠ none))
    Triple.gets fun job => ?_
  cases job with
  | none => exact Triple.throw fun s h => h.2.1
  | some job =>
    dsimp only
    cases hstate : job.state with
    | active pid => exact Triple.pure fun s h => ⟨h.2.1, fun hsent => by cases hsent⟩
    | inactive status =>
      have hidle : ∀ {s : JobSlot}, some job = s.job → s.activePid = none := fun hjob =>
        JobsSt.activePid_none hjob.symm hstate
      refine Triple.bind (R := fun _ s => (SlotOk s ∧ (p → s.runners = []) ∧ s.asked = false) ∧ s.halted = false ∧
        s.job.isSome = true) ?_ fun _ => ?_
      · refine Triple.modify fun s hs => ?_
        obtain ⟨hjob, hgood, hhalted, hasked⟩ := hs
        refine ⟨⟨?_, fun hp => ?_, ?_⟩, hhalted, ?_⟩
        · have hask : s.asked = false := Bool.eq_false_iff.mpr fun h => hasked h (hidle hjob)
          exact hgood.1.withState (fun h => absurd h (Bool.eq_false_iff.mp hhalted)) fun h => absurd h (Bool.eq_false_iff.mp hask)
        · exact (hgood.2 hp).nil (hidle hjob)
        · exact Bool.eq_false_iff.mpr fun h => hasked h (hidle hjob)
        · simp [withState, ← hjob]
      refine Triple.bind (R := fun _ s => Good p s ∧ s.fileOpen = true ∧ s.job.isSome = true) ?_ fun _ =>
        Triple.pure fun s h => ⟨h.1, fun _ => h.2⟩
      intro s hs
      obtain ⟨⟨hok, hrunners, -⟩, hhalted, hjob⟩ := hs
      have hsynced : p → Synced s := fun hp => synced_of_nil (hrunners hp)
      have hcut : ∀ {cut : DocCut}, cut.clean = true →
          Good p (s.writeStatus (.pending job.config.waitingFor) cut false) := fun hcut => by
        rcases writeStatus_clean hcut s (.pending job.config.waitingFor) false with heq | ⟨_, heq⟩
        · rw [heq]
          exact ⟨hok, hsynced⟩
        · rw [heq]
          exact ⟨hok.pendingFile hhalted _, hsynced⟩
      unfold saveStatus saveStatusFile
      cases save with
      | none => exact ⟨⟨hok.pendingFile hhalted _, hsynced⟩, rfl, hjob⟩
      | error cut => exact hcut hclean
      | killed cut => exact (hcut hclean).1

/-- The runner of a job that is shut down is gone, and the job is to be started again. -/
theorem shutdown_good (name : String) (force : Bool) {env : TerminateEnv} (hclean : env.clean = true) :
    Triple (Good p) (shutdown name force env) (fun _ => Good p) (atExit (Good p) SlotOk) := by
  refine Triple.bind (R := fun pid s => pid = s.activePid ∧ Good p s) Triple.gets fun pid => ?_
  cases pid with
  | none => exact Triple.pure fun s h => h.2
  | some pid =>
    -- what the job was does not change until its runner is gone
    intro s ⟨hpid, hgood⟩
    have hheld : Held p s.job s.asked s := ⟨hgood.1, hgood.2, rfl, rfl⟩
    have hactive : ∀ t : JobSlot, t.job = s.job → t.activePid = some pid := fun t ht => (activePid_congr ht).trans hpid.symm
    have hend : Triple (Held p s.job s.asked) (endRunner name pid force env) (fun _ => Freed p s.job s.asked)
        (atExit (Held p s.job s.asked) SlotOk) := by
      unfold endRunner
      split
      · refine Triple.bind (R := fun _ => Held p s.job s.asked) ?_ fun _ => ?_
        · refine (lastWords_held hclean).exit fun e s h => ?_
          cases e with
          | error e => exact h
          | killed => exact h.1
        have hnone : ∀ t, Held p s.job s.asked t → Freed p s.job s.asked { t with runners := [] } := fun t ht =>
          ⟨ht.1.withRunners (Nat.zero_le _), fun _ => rfl, ht.2.2⟩
        split
        · exact Triple.kill fun t ht => ht.1
        · exact Triple.bind (R := fun _ => Freed p s.job s.asked) (Triple.modify hnone) fun _ => Triple.kill fun t ht => ht.1
        · exact Triple.modify hnone
      · exact terminateJobProcess_good name hclean hactive
    refine Triple.bind (P := Held p s.job s.asked) (hend.exit fun e t ht => ?_) (fun _ => ?_) s hheld
    · cases e with
      | error e => exact ht.good
      | killed => exact ht
    · refine Triple.modify fun t ht => ⟨ht.1.withState (fun _ _ heq => by cases heq) fun hasked _ => ?_, fun hp => ?_⟩
      · refine ht.1.asked hasked (.inr ?_)
        exact isOpen_of_undecided (undecided_of_active (hactive t ht.2.2.1))
      · exact synced_of_nil (ht.2.1 hp)

end

/-! ## Passes -/

/-- A job that has no runner and is not over. -/
def Startable (s : JobSlot) : Prop := SlotOk s ∧ s.runners = [] ∧ s.undecided = true

theorem Startable.good {s : JobSlot} (h : Startable s) : Good True s := ⟨h.1, fun _ => synced_of_nil h.2.1⟩

theorem some_of_undecided {s : JobSlot} (h : s.undecided = true) : s.job.isSome = true := by
  obtain ⟨job, hjob, _⟩ := JobsSt.of_undecided h
  rw [hjob]
  rfl

/-- A job that has no runner comes to a state in which it is over. -/
theorem setDecided {s : JobSlot} (h : Startable s) {status : JobStatus} (hstatus : status.decided = true) :
    SlotOk (s.withState (.inactive status)) := by
  refine h.1.withState (fun _ waitingFor heq => ?_) fun _ hnot => ?_
  · rw [JobState.inactive.inj heq] at hstatus
    cases hstatus
  · exact absurd hnot (by simp [JobState.decided, hstatus])

theorem fail_good (message : String) {save : Fault DocCut} (hclean : save.clean = true) :
    Triple Startable (fail message save) (fun _ => Good True) (atExit (fun _ => False) SlotOk) := by
  refine Triple.bind (R := fun _ s => SlotOk s ∧ s.runners = [] ∧ s.isOpen = false) ?_ fun _ => ?_
  · refine Triple.modify fun s h => ⟨setDecided h rfl, h.2.1, ?_⟩
    obtain ⟨job, hjob, _⟩ := JobsSt.of_undecided h.2.2
    simp [isOpen, lastState, withState, hjob, JobState.decided, JobStatus.decided]
  refine Triple.bind (R := fun _ s => SlotOk s ∧ s.runners = []) (Triple.attempt ?_) fun _ => ?_
  · refine (saveStatusFile_good rfl hclean (P := fun s => s.runners = [] ∧ s.isOpen = false) (fun s h _ => h)
      fun s h => h).conseq (fun s h => h) (fun _ s h => ⟨h.1, h.2.1.1⟩) fun e s h => ?_
    cases e with
    | error e => exact ⟨h.1, h.2.1⟩
    | killed => exact h.1
  · exact Triple.pure fun s h => ⟨h.1, fun _ => synced_of_nil h.2⟩

theorem spawn_ok {s : JobSlot} (h : Startable s) (hfile : s.fileOpen = true) : SlotOk s.spawnRunner where
  readable := h.1.readable
  saved := h.1.saved
  halted := h.1.halted
  asked := fun _ _ => .inl hfile
  config := fun _ => h.1.config (.inl (some_of_undecided h.2.2))
  single := by simp [spawnRunner, h.2.1]

theorem startJob_good (name : String) {env : RunnerEnv} (hclean : env.save.clean = true) :
    Triple (fun s => Startable s ∧ s.halted = false) (startJob name env) (fun _ => Good True) (atExit (fun _ => False) SlotOk) := by
  refine Triple.bind (R := fun cleared s => Startable s ∧ (cleared = .ok () → s.fileOpen = true)) ?_ fun cleared => ?_
  · refine Triple.attempt fun s hs => ?_
    obtain ⟨h, hhalted⟩ := hs
    have hmissing : Startable { s with status := .missing, byRunner := false } := ⟨h.1.noFile hhalted, h.2⟩
    have hremoved : ∀ cut, Startable (s.removeStatus cut) := fun cut => by
      rcases removeStatus_either s cut with heq | heq
      · exact heq.symm ▸ h
      · exact heq.symm ▸ hmissing
    unfold clearStatus
    by_cases hstatus : s.status = .missing
    · rw [if_pos hstatus]
      exact ⟨h, fun _ => by simp [fileOpen, hstatus]⟩
    · rw [if_neg hstatus]
      cases env.clear with
      | none => exact ⟨hmissing, fun _ => rfl⟩
      | error cut => exact ⟨hremoved cut, fun herror => by cases herror⟩
      | killed cut => exact (hremoved cut).1
  cases cleared with
  | error err =>
    refine Triple.modify fun s hs => ?_
    have h : Startable s := hs.1
    refine ⟨h.1.withState (fun _ _ heq => by cases heq) fun hasked _ => ?_, fun _ => ?_⟩
    · exact h.1.asked hasked (.inr (isOpen_of_undecided h.2.2))
    · exact synced_of_nil h.2.1
  | ok _ =>
    refine Triple.bind
      (R := attempted (fun pid s => SlotOk s ∧ s.runners = [pid] ∧ s.fileOpen = true ∧ s.job.isSome = true) Startable)
      (Triple.attempt ?_) fun spawned => ?_
    · refine Triple.bind (R := fun pid s => pid = s.next ∧ Startable s ∧ s.fileOpen = true)
        (Triple.gets.post fun pid s h => ⟨h.1, h.2.1, h.2.2 rfl⟩) fun pid => ?_
      split
      · refine Triple.bind (R := fun _ s => SlotOk s ∧ s.runners = [pid] ∧ s.fileOpen = true ∧ s.job.isSome = true) ?_
          fun _ => Triple.pure fun s h => h
        refine Triple.modify fun s hs => ?_
        obtain ⟨hpid, h, hfile⟩ := hs
        refine ⟨spawn_ok h hfile, ?_, hfile, some_of_undecided h.2.2⟩
        simp [spawnRunner, h.2.1, hpid]
      · exact Triple.throw fun s h => h.2.1
      · refine Triple.bind (R := fun _ => SlotOk) ?_ fun _ => Triple.kill fun s h => h
        exact Triple.when (fun _ => Triple.modify fun s h => spawn_ok h.2.1 h.2.2) fun _ s h => h.2.1.1
    cases spawned with
    | ok pid =>
      refine Triple.modify fun s hs => ?_
      obtain ⟨hok, hrunners, hfile, hjob⟩ := hs
      refine ⟨hok.withState (fun _ _ heq => by cases heq) fun _ _ => .inl hfile, fun _ pid' hpid' => ?_⟩
      obtain ⟨job, hjob⟩ := Option.isSome_iff_exists.mp hjob
      have heq : pid' = pid := by simpa [withState, hrunners] using hpid'
      simp [activePid, withState, hjob, heq]
    | error err => exact fail_good _ hclean

/-- A status file that says that the job is over is what the job comes to. -/
theorem stoppedStatus_decided {s : JobSlot} (h : s.fileDecided = true) (name : String) (config : JobConfig) :
    (stoppedStatus name config s.status).decided = true := by
  unfold fileDecided at h
  split at h
  · rename_i status hstatus
    simpa [stoppedStatus, hstatus, Doc.load] using h
  · cases h

theorem handleStoppedJob_good (name : String) {env : RunnerEnv} (hclean : env.save.clean = true) :
    Triple Startable (handleStoppedJob name env) (fun _ => Good True) (atExit (fun _ => False) SlotOk) := by
  refine Triple.bind (R := fun slot s => slot = s ∧ Startable s) Triple.gets fun slot => ?_
  split
  · exact Triple.pure fun s h => h.2.good
  rename_i job hjob
  dsimp only
  split
  · rename_i hstatus
    exact Triple.modify fun s h => ⟨setDecided h.2 hstatus, fun _ => synced_of_nil h.2.2.1⟩
  · rename_i hstatus
    refine (startJob_good name hclean).pre fun s h => ⟨h.2, Bool.eq_false_iff.mpr fun hhalted => hstatus ?_⟩
    rw [h.1]
    exact stoppedStatus_decided (h.2.1.halted hhalted).1 name job.config

theorem updateActiveJob_good (name : String) (ps : List Nat) {env : RunnerEnv} (hclean : env.save.clean = true) :
    Triple (fun s => Good True s ∧ ∀ pid ∈ s.runners, pid ∈ ps) (updateActiveJob name ps env) (fun _ => Good True)
      (atExit (fun _ => False) SlotOk) := by
  refine Triple.bind (R := fun pid s => pid = s.activePid ∧ Good True s ∧ ∀ pid ∈ s.runners, pid ∈ ps) Triple.gets fun pid => ?_
  cases pid with
  | none => exact Triple.pure fun s h => h.2.1
  | some pid =>
    dsimp only
    split
    · exact Triple.pure fun s h => h.2.1
    · rename_i hmem
      refine (handleStoppedJob_good name hclean).pre fun s ⟨hpid, hgood, hlisted⟩ =>
        ⟨hgood.1, List.eq_nil_iff_forall_not_mem.mpr fun pid' hpid' => hmem ?_, undecided_of_active hpid.symm⟩
      have heq := Option.some.inj (hpid.trans (hgood.2 trivial pid' hpid'))
      exact heq.symm ▸ hlisted pid' hpid'

theorem checkInactiveJob_good (name : String) (deps : String → Option Job) {env : RunnerEnv} (hclean : env.save.clean = true) :
    Triple (Good True) (checkInactiveJob name deps env) (fun _ => Good True) (atExit (fun _ => False) SlotOk) := by
  refine Triple.bind (R := fun job s => job = s.job ∧ Good True s) Triple.gets fun job => ?_
  cases job with
  | none => exact Triple.pure fun s h => h.2
  | some job =>
    dsimp only
    have hstartable : ∀ {status : JobStatus}, job.state = .inactive status → status.decided = false →
        ∀ s : JobSlot, some job = s.job ∧ Good True s → Startable s := fun hstate hnot s ⟨hjob, hgood⟩ =>
      ⟨hgood.1, (hgood.2 trivial).nil (JobsSt.activePid_none hjob.symm hstate), by simp [undecided, ← hjob, hstate, JobState.decided, hnot]⟩
    cases hstate : job.state with
    | active pid => exact Triple.pure fun s h => h.2
    | inactive status =>
      cases status with
      | pending waitingFor =>
        dsimp only
        split
        · refine (startJob_good name hclean).pre fun s h => ⟨hstartable hstate rfl s h, ?_⟩
          refine Bool.eq_false_iff.mpr fun hhalted => ?_
          have hnone := (h.2.1.halted hhalted).2
          simp [awaits, ← h.1, hstate] at hnone
        · exact Triple.pure fun s h => h.2
        · exact (fail_good _ hclean).pre (hstartable hstate rfl)
      | running => exact (handleStoppedJob_good name hclean).pre (hstartable hstate rfl)
      | finished exitCode message => exact Triple.pure fun s h => h.2
      | stopped => exact Triple.pure fun s h => h.2

/-- A pass starts no runner of a job that is not to be started. -/
theorem handleStoppedJob_halted {s : JobSlot} (h : SlotOk s) (hhalted : s.halted = true) (name : String) (env : RunnerEnv) :
    (handleStoppedJob name env s).2.next = s.next := by
  have hfile := (h.halted hhalted).1
  unfold handleStoppedJob
  rw [gets_bind]
  dsimp only [id]
  cases s.job with
  | none => rfl
  | some job =>
    dsimp only
    rw [if_pos (stoppedStatus_decided hfile name job.config)]
    rfl

theorem updateActiveJob_halted {s : JobSlot} (h : SlotOk s) (hhalted : s.halted = true) (name : String) (ps : List Nat)
    (env : RunnerEnv) : (updateActiveJob name ps env s).2.next = s.next := by
  unfold updateActiveJob
  rw [gets_bind]
  cases s.activePid with
  | none => rfl
  | some pid =>
    dsimp only
    split
    · rfl
    · exact handleStoppedJob_halted h hhalted name env

theorem checkInactiveJob_halted {s : JobSlot} (h : SlotOk s) (hhalted : s.halted = true) (name : String)
    (deps : String → Option Job) (env : RunnerEnv) : (checkInactiveJob name deps env s).2.next = s.next := by
  have hawaits := (h.halted hhalted).2
  unfold checkInactiveJob
  rw [gets_bind]
  cases hjob : s.job with
  | none => rfl
  | some job =>
    dsimp only
    cases hstate : job.state with
    | active pid => rfl
    | inactive status =>
      cases status with
      | pending waitingFor => simp [awaits, hjob, hstate] at hawaits
      | running => exact handleStoppedJob_halted h hhalted name env
      | finished exitCode message => rfl
      | stopped => rfl

/-! ## Loading -/

/-- A job whose config cannot be read was never started. -/
theorem SlotOk.unknown {s : JobSlot} (h : SlotOk s) (hconfig : ∀ config, s.config ≠ .whole config) :
    s.job = none ∧ s.runners = [] ∧ s.asked = false := by
  have hno : ¬ (s.job.isSome = true ∨ s.runners ≠ [] ∨ s.asked = true) := fun hleft => by
    obtain ⟨config, heq⟩ := h.config hleft
    exact hconfig config heq
  refine ⟨?_, ?_, ?_⟩
  · by_contra hjob
    exact hno (.inl (Option.isSome_iff_ne_none.mpr hjob))
  · by_contra hrunners
    exact hno (.inr (.inl hrunners))
  · exact Bool.eq_false_iff.mpr fun hasked => hno (.inr (.inr hasked))

/-- What the files of a job say of its state. -/
def loadedState (s : JobSlot) : JobState :=
  match s.runners.head? with
  | some pid => .active pid
  | none => .inactive (s.status.load.getD (.pending []))

theorem load_whole {s : JobSlot} {config : JobConfig} (h : s.config = .whole config) (removed : Bool) :
    s.load removed = { s with job := some ⟨config, s.loadedState⟩ } := by
  unfold load
  rw [h]
  rfl

theorem load_unknown {s : JobSlot} (h : ∀ config, s.config ≠ .whole config) (removed : Bool) :
    ∃ config, s.load removed = { s with config } := by
  unfold load
  split
  · exact ⟨s.config, rfl⟩
  · split
    · exact ⟨.missing, rfl⟩
    · exact ⟨s.config, rfl⟩
  · rename_i config hconfig
    exact absurd hconfig (h config)

/-- A job that is loaded as one that is over has a status file that says so. -/
theorem loadedState_decided {s : JobSlot} (hrunners : s.runners = []) :
    s.loadedState.decided = s.fileDecided := by
  unfold loadedState fileDecided
  rw [hrunners]
  cases s.status with
  | missing => rfl
  | torn => rfl
  | whole status => rfl

theorem loadedState_open {s : JobSlot} (h : SlotOk s) (hrunners : s.runners = []) (hopen : s.loadedState.decided = false) :
    s.fileOpen = true := by
  rw [loadedState_decided hrunners] at hopen
  exact h.readable.resolve_right (Bool.eq_false_iff.mp hopen)

theorem loadedState_active {s : JobSlot} (h : SlotOk s) {pid : Nat} (hpid : pid ∈ s.runners) :
    s.loadedState = .active pid := by
  unfold loadedState
  cases hrunners : s.runners with
  | nil =>
    rw [hrunners] at hpid
    cases hpid
  | cons first rest =>
    have hsingle := h.single
    rw [hrunners, List.length_cons] at hsingle
    have hrest : rest = [] := List.eq_nil_of_length_eq_zero (by omega)
    rw [hrunners, hrest, List.mem_singleton] at hpid
    rw [hpid, List.head?_cons]

theorem load_ok {s : JobSlot} (h : SlotOk s) (removed : Bool) :
    SlotOk { s.load removed with last := none } ∧ Synced (s.load removed) := by
  by_cases hconfig : ∃ config, s.config = .whole config
  · obtain ⟨config, hconfig⟩ := hconfig
    rw [load_whole hconfig]
    refine ⟨?_, fun pid hpid => ?_⟩
    · refine {
        readable := h.readable
        saved := h.saved
        halted := fun hhalted => ⟨(h.halted hhalted).1, ?_⟩
        asked := fun hasked hleft => ?_
        config := fun _ => ⟨config, hconfig⟩
        single := h.single }
      · unfold awaits
        dsimp only
        split
        · rename_i waitingFor hstate
          have hrunners : s.runners = [] := List.eq_nil_iff_forall_not_mem.mpr fun pid hpid => by
            cases (loadedState_active h hpid).symm.trans hstate
          have hopen := loadedState_open h hrunners (by rw [hstate]; rfl)
          cases (fileOpen_decided hopen).symm.trans (h.halted hhalted).1
        · rfl
      · by_cases hrunners : s.runners = []
        · have hopen : s.loadedState.decided = false := by
            simpa [isOpen, lastState, hrunners] using hleft
          have hfile := loadedState_open h hrunners hopen
          exact .inl hfile
        · exact h.asked hasked (.inl hrunners)
    · have hactive := loadedState_active h hpid
      simp [activePid, hactive]
  · have hunknown : ∀ config, s.config ≠ .whole config := fun config heq => hconfig ⟨config, heq⟩
    obtain ⟨hjob, hrunners, hasked⟩ := h.unknown hunknown
    obtain ⟨config, hload⟩ := load_unknown hunknown removed
    rw [hload]
    refine ⟨?_, synced_of_nil hrunners⟩
    refine {
      readable := h.readable
      saved := h.saved
      halted := h.halted
      asked := fun hask => ?_
      config := fun hleft => ?_
      single := h.single }
    · rw [hasked] at hask
      cases hask
    · rw [hjob, hrunners, hasked] at hleft
      simp at hleft

end JobSlot

/-- A job that was asked for and not over is not lost: it is active or Pending, or its runner saved
that it is over. -/
def LoadEvent.Kept (e : LoadEvent) : Prop :=
  e.asked = true → ∀ state, e.before = some state → state.decided = false →
    (∃ pid, e.after = some (.active pid)) ∨ (∃ waitingFor, e.after = some (.inactive (.pending waitingFor))) ∨
      ∃ status, e.after = some (.inactive status) ∧ status.decided = true ∧ e.byRunner = true

namespace JobSlot

/-- What is recorded of a load. -/
theorem load_kept {s : JobSlot} (h : SlotOk s) (name : String) (removed : Bool) :
    LoadEvent.Kept ⟨name, s.lastState, (s.load removed).job.map (·.state), (s.load removed).asked, (s.load removed).byRunner⟩ := by
  intro hasked state hbefore hopen
  by_cases hconfig : ∃ config, s.config = .whole config
  · obtain ⟨config, hconfig⟩ := hconfig
    rw [load_whole hconfig] at hasked ⊢
    have hisOpen : s.isOpen = true := by
      have hbefore : s.lastState = some state := hbefore
      simp [isOpen, hbefore, hopen]
    cases hrunners : s.runners with
    | cons pid rest =>
      have hactive := loadedState_active h (hrunners ▸ List.mem_cons_self .. : pid ∈ s.runners)
      exact .inl ⟨pid, congrArg some hactive⟩
    | nil =>
      have hinactive : s.loadedState = .inactive (s.status.load.getD (.pending [])) := by
        unfold loadedState
        rw [hrunners]
        rfl
      rcases h.asked hasked (.inr hisOpen) with hfile | hsaved
      · refine .inr (.inl ?_)
        unfold fileOpen at hfile
        split at hfile
        · rename_i hstatus
          exact ⟨[], congrArg some (hinactive.trans (by rw [hstatus]; rfl))⟩
        · rename_i waitingFor hstatus
          exact ⟨waitingFor, congrArg some (hinactive.trans (by rw [hstatus]; rfl))⟩
        · cases hfile
      · refine .inr (.inr ⟨_, congrArg some hinactive, ?_, hsaved⟩)
        have hdecided := (loadedState_decided hrunners).trans (h.saved hsaved)
        rw [hinactive] at hdecided
        exact hdecided
  · have hunknown : ∀ config, s.config ≠ .whole config := fun config heq => hconfig ⟨config, heq⟩
    obtain ⟨config, hload⟩ := load_unknown hunknown removed
    rw [hload] at hasked
    cases (h.unknown hunknown).2.2.symm.trans hasked

/-! ## Ghosts and crashes -/

theorem SlotOk.forget {s : JobSlot} (h : SlotOk s) : SlotOk (JobsSt.forget s) where
  readable := h.readable
  saved := h.saved
  halted := fun hhalted => ⟨(h.halted hhalted).1, rfl⟩
  asked := fun hasked hleft => by
    have hsame : (JobsSt.forget s).isOpen = s.isOpen := by simp [isOpen, lastState, JobsSt.forget]
    exact h.asked hasked (hleft.imp_right fun hopen => hsame ▸ hopen)
  config := fun hleft => h.config (hleft.imp_left fun hjob => by cases hjob)
  single := h.single

/-- The ghosts that a client operation sets. -/
theorem SlotOk.ghosts {s : JobSlot} (h : SlotOk s) {halted asked : Bool}
    (hhalted : halted = true → s.halted = true ∨ s.fileDecided = true ∧ s.awaits = none)
    (hasked : asked = true → s.asked = true ∨ s.fileOpen = true ∧ s.job.isSome = true) :
    SlotOk { s with halted, asked } where
  readable := h.readable
  saved := h.saved
  halted := fun hhalt => (hhalted hhalt).elim h.halted id
  asked := fun hask hleft => (hasked hask).elim (fun hask => h.asked hask hleft) fun hfile => .inl hfile.1
  config := fun hleft => by
    rcases hleft with hjob | hrunners | hask
    · exact h.config (.inl hjob)
    · exact h.config (.inr (.inl hrunners))
    · exact h.config ((hasked hask).elim (fun hask => .inr (.inr hask)) fun hfile => .inl hfile.2)
  single := h.single

end JobSlot

/-! ## The whole -/

namespace JobsSt

/-- The manager may come to a pass, so the jobs have been loaded. -/
def Ready (s : JobsSt) : Prop := s.managerState = .ready ∨ s.phase.passing = true

structure ReloadOk (s : JobsSt) : Prop where
  slots : ∀ n, (s.slots n).Good s.Ready
  listed : ∀ ps, s.phase = .committed (some ps) → ∀ n, ∀ pid ∈ (s.slots n).runners, pid ∈ ps n
  started : ∀ e ∈ s.passed, e.started = true → e.halted = false
  kept : ∀ e ∈ s.loads, e.Kept
  off : s.up = false → s.phase = .gone ∧ s.managerState = .notReady

namespace ReloadOk

variable {s s' : JobsSt}

theorem congr (h : ReloadOk s) (hslots : s'.slots = s.slots) (hphase : s'.phase = s.phase)
    (hstate : s'.managerState = s.managerState) (hpassed : s'.passed = s.passed) (hloads : s'.loads = s.loads)
    (hup : s'.up = s.up) : ReloadOk s' where
  slots := by
    rw [hslots, Ready, hphase, hstate]
    exact h.slots
  listed := by
    rw [hslots, hphase]
    exact h.listed
  started := by
    rw [hpassed]
    exact h.started
  kept := by
    rw [hloads]
    exact h.kept
  off := by
    rw [hup, hphase, hstate]
    exact h.off

theorem setSlot (h : ReloadOk s) {name : String} {slot : JobSlot} (hgood : slot.Good s.Ready)
    (hsub : ∀ pid ∈ slot.runners, pid ∈ (s.slots name).runners) : ReloadOk (s.setSlot name slot) where
  slots := fun n => by
    by_cases hn : n = name
    · rw [hn, setSlot_same]
      exact hgood
    · rw [setSlot_other s slot hn]
      exact h.slots n
  listed := fun ps hphase n pid hpid => by
    by_cases hn : n = name
    · rw [hn, setSlot_same] at hpid
      exact hn ▸ h.listed ps hphase name pid (hsub pid hpid)
    · rw [setSlot_other s slot hn] at hpid
      exact h.listed ps hphase n pid hpid
  started := h.started
  kept := h.kept
  off := h.off

theorem setGhosts (h : ReloadOk s) (name : String) (halted asked : Bool)
    (hhalted : halted = true → (s.slots name).halted = true ∨ (s.slots name).fileDecided = true ∧ (s.slots name).awaits = none)
    (hasked : asked = true → (s.slots name).asked = true ∨ (s.slots name).fileOpen = true ∧ (s.slots name).job.isSome = true) :
    ReloadOk (s.setSlot name { s.slots name with halted, asked }) :=
  h.setSlot ⟨(h.slots name).1.ghosts hhalted hasked, (h.slots name).2⟩ fun _ hpid => hpid

theorem ready_crash : ¬ s.crash.Ready := by
  intro h
  rcases h with h | h <;> cases h

theorem crash (hslots : ∀ n, (s.slots n).SlotOk) (hstarted : ∀ e ∈ s.passed, e.started = true → e.halted = false)
    (hkept : ∀ e ∈ s.loads, e.Kept) : ReloadOk s.crash where
  slots := fun n => ⟨(hslots n).forget, fun hready => absurd hready ready_crash⟩
  listed := fun _ hphase => by cases hphase
  started := hstarted
  kept := hkept
  off := fun _ => ⟨rfl, rfl⟩

theorem halting (h : ReloadOk s) (name : String) : ReloadOk (halting name s) :=
  h.setGhosts name _ false (fun hhalted => .inl hhalted) nofun

theorem halted (h : ReloadOk s) {name : String} (hfile : (s.slots name).fileDecided = true)
    (hawaits : (s.slots name).awaits = none) : ReloadOk (halted name s) :=
  h.setGhosts name true _ (fun _ => .inr ⟨hfile, hawaits⟩) fun hasked => .inl hasked

end ReloadOk

/-- No client operation starts a runner. -/
theorem stable_runners (runners : List Nat) : Stable fun slot => ∀ pid ∈ slot.runners, pid ∈ runners where
  status h _ _ := h
  state h _ := h
  runners h _ hsub := fun pid hpid => h pid (hsub pid hpid)

/-- A client operation on a job. -/
theorem reload_onSlot {α : Type} {s : JobsSt} (h : ReloadOk s) {name : String} {m : SlotM α} {ok : α → JobsSt → JobsSt}
    {P : JobSlot → Prop} {Q : α → JobSlot → Prop}
    (hm : Triple (fun slot => slot.Good s.Ready ∧ P slot) m (fun a slot => slot.Good s.Ready ∧ Q a slot)
      (atExit (JobSlot.Good s.Ready) JobSlot.SlotOk))
    (hruns : ∀ runners : List Nat, Keeps (fun slot : JobSlot => ∀ pid ∈ slot.runners, pid ∈ runners)
      (fun slot => ∀ pid ∈ slot.runners, pid ∈ runners) m)
    (hP : P (s.slots name)) (hok : ∀ a slot, Q a slot → ReloadOk (s.setSlot name slot) → ReloadOk (ok a (s.setSlot name slot))) :
    ReloadOk (settle (onSlot name m s) ok) := by
  refine settle_onSlot (hm.and (hruns (s.slots name).runners)) ⟨⟨h.slots name, hP⟩, fun _ hpid => hpid⟩ (fun a slot hslot => ?_)
    (fun e slot hslot => ?_) fun slot hslot => ?_
  · exact hok a slot hslot.1.2 (h.setSlot hslot.1.1 hslot.2)
  · exact h.setSlot hslot.1 hslot.2
  · refine ReloadOk.crash (fun n => ?_) h.started h.kept
    by_cases hn : n = name
    · rw [hn, setSlot_same]
      exact hslot.1
    · rw [setSlot_other _ _ hn]
      exact (h.slots n).1

theorem reloadOk_init : ReloadOk .init := by
  have hslot : JobSlot.SlotOk .init := by
    refine ⟨.inl rfl, ?_, ?_, ?_, ?_, Nat.zero_le _⟩ <;> simp [JobSlot.init]
  exact {
    slots := fun n => ⟨hslot, fun _ => JobSlot.synced_of_nil rfl⟩
    listed := by simp [init]
    started := by simp [init]
    kept := by simp [init]
    off := fun _ => ⟨rfl, rfl⟩ }

/-- What is left of the jobs by computations on some of them, by the triple of each. -/
theorem touched_good {s s' : JobsSt} {order : List String} {m : String → SlotM Unit} {r : Except (Exit String) Unit}
    {A : String → JobSlot → Prop} {B D : JobSlot → Prop} (ht : Touched s s' order m r)
    (hm : ∀ n ∈ order, Triple (A n) (m n) (fun _ => B) (atExit D JobSlot.SlotOk)) (hA : ∀ n ∈ order, A n (s.slots n))
    (hBD : ∀ slot, B slot → D slot) (hD : ∀ n, D (s.slots n)) (hok : ∀ slot, D slot → slot.SlotOk) :
    (r = .ok () → ∀ n ∈ order, B (s'.slots n)) ∧ (r ≠ .error .killed → ∀ n, D (s'.slots n)) ∧ ∀ n, (s'.slots n).SlotOk := by
  have hrun : ∀ n ∈ order, ((m n (s.slots n)).1 = .ok () → B (m n (s.slots n)).2) ∧
      ((m n (s.slots n)).1 ≠ .error .killed → D (m n (s.slots n)).2) ∧ (m n (s.slots n)).2.SlotOk := by
    intro n hn
    have h := hm n hn (s.slots n) (hA n hn)
    revert h
    cases m n (s.slots n) with
    | mk r slot =>
      cases r with
      | ok _ => exact fun h => ⟨fun _ => h, fun _ => hBD slot h, hok slot (hBD slot h)⟩
      | error e =>
        cases e with
        | error e => exact fun h => ⟨(nomatch ·), fun _ => h, hok slot h⟩
        | killed => exact fun h => ⟨(nomatch ·), fun hne => absurd rfl hne, h⟩
  refine ⟨fun hr n hn => ?_, fun hr n => ?_, fun n => ?_⟩
  · obtain ⟨heq, hended⟩ := ht.all hr n hn
    exact heq ▸ (hrun n hn).1 hended
  · rcases ht.slots n with heq | ⟨hn, heq, hended⟩
    · exact heq ▸ hD n
    · refine heq ▸ (hrun n hn).2.1 fun hkilled => ?_
      rcases hended with hended | hended
      · cases hended.symm.trans hkilled
      · exact hr (hended.symm.trans hkilled)
  · rcases ht.slots n with heq | ⟨hn, heq, _⟩
    · exact heq ▸ hok _ (hD n)
    · exact heq ▸ (hrun n hn).2.2

/-- What computations on some jobs leave in the end, when they have not ended with the process: the
slots, and the record of what was started. -/
structure Left (s s' : JobsSt) (D : JobSlot → Prop) : Prop where
  slots : ∀ n, D (s'.slots n)
  started : ∀ e ∈ s'.passed, e.started = true → e.halted = false
  same : ∃ slots passed, s' = { s with slots, passed }

theorem reload_forM {s : JobsSt} (h : ReloadOk s) {order : List String} (hnodup : order.Nodup) {f : String → JobsM Unit}
    {m : String → SlotM Unit} (hf : OnSlots f m) {ok : Unit → JobsSt → JobsSt} {A : String → JobSlot → Prop}
    {B D : JobSlot → Prop} (hm : ∀ n ∈ order, Triple (A n) (m n) (fun _ => B) (atExit D JobSlot.SlotOk))
    (hA : ∀ n ∈ order, A n (s.slots n)) (hBD : ∀ slot, B slot → D slot) (hD : ∀ n, D (s.slots n))
    (hslot : ∀ slot, D slot → slot.SlotOk)
    (hhalted : ∀ n slot, JobSlot.SlotOk slot → slot.halted = true → (m n slot).2.next = slot.next)
    (hok : ∀ s', Left s s' D → Touched s s' order m (.ok ()) → (∀ n ∈ order, B (s'.slots n)) → ReloadOk (ok () s'))
    (herror : ∀ s' e, Left s s' D → Touched s s' order m (.error (.error e)) → ReloadOk s') :
    ReloadOk (settle ((order.forM f : JobsM Unit) s) ok) := by
  have ht := forM_touched hf s hnodup
  unfold settle
  revert ht
  cases (order.forM f : JobsM Unit) s with
  | mk r s' =>
    intro ht
    have hgood := touched_good ht hm hA hBD hD hslot
    have hstarted : ∀ e ∈ s'.passed, e.started = true → e.halted = false := by
      intro e he hstart
      rcases ht.record e he with he | ⟨n, _, heq, hsame⟩
      · exact h.started e he hstart
      · rw [heq] at hstart
        refine hsame.trans (Bool.eq_false_iff.mpr fun hhalt => ?_)
        have hnext := of_decide_eq_true hstart
        rw [hhalted n _ (h.slots n).1 hhalt] at hnext
        exact absurd hnext (Nat.lt_irrefl _)
    cases r with
    | ok _ => exact hok s' ⟨hgood.2.1 nofun, hstarted, ht.same⟩ ht (hgood.1 rfl)
    | error e =>
      cases e with
      | error e => exact herror s' e ⟨hgood.2.1 nofun, hstarted, ht.same⟩ ht
      | killed =>
        refine ReloadOk.crash hgood.2.2 hstarted ?_
        obtain ⟨slots, passed, heq⟩ := ht.same
        have hloads : s'.loads = s.loads := congrArg (·.loads) heq
        exact hloads ▸ h.kept

/-- A client operation on several jobs. -/
theorem reload_clients {s : JobsSt} (h : ReloadOk s) {order : List String} (hnodup : order.Nodup) {m : String → SlotM Unit}
    {ok : Unit → JobsSt → JobsSt} {P Q : JobSlot → Prop}
    (hm : ∀ n ∈ order, Triple (fun slot => slot.Good s.Ready ∧ P slot) (m n) (fun _ slot => slot.Good s.Ready ∧ Q slot)
      (atExit (JobSlot.Good s.Ready) JobSlot.SlotOk))
    (hruns : ∀ n, ∀ runners : List Nat, Keeps (fun slot : JobSlot => ∀ pid ∈ slot.runners, pid ∈ runners)
      (fun slot => ∀ pid ∈ slot.runners, pid ∈ runners) (m n))
    (hnext : ∀ n slot, (m n slot).2.next = slot.next) (hP : ∀ n ∈ order, P (s.slots n))
    (hok : ∀ s', ReloadOk s' → (∀ n ∈ order, Q (s'.slots n)) → ReloadOk (ok () s')) :
    ReloadOk (settle ((order.forM fun name => onSlot name (m name) : JobsM Unit) s) ok) := by
  have hleft : ∀ {s' r}, Left s s' (JobSlot.Good s.Ready) → Touched s s' order m r → ReloadOk s' := by
    intro s' r hleft ht
    obtain ⟨slots, passed, heq⟩ := hleft.same
    have hphase : s'.phase = s.phase := congrArg (·.phase) heq
    have hstate : s'.managerState = s.managerState := congrArg (·.managerState) heq
    have hloads : s'.loads = s.loads := congrArg (·.loads) heq
    have hup : s'.up = s.up := congrArg (·.up) heq
    refine ⟨?_, fun ps hps n pid hpid => ?_, hleft.started, hloads ▸ h.kept, ?_⟩
    · rw [Ready, hphase, hstate]
      exact hleft.slots
    · refine h.listed ps (hphase ▸ hps) n pid ?_
      rcases ht.slots n with hsame | ⟨_, hslot, _⟩
      · exact hsame ▸ hpid
      · rw [hslot] at hpid
        exact (hruns n (s.slots n).runners).run (fun _ h => h) pid hpid
    · rw [hphase, hstate, hup]
      exact h.off
  refine reload_forM h hnodup (onSlots_onSlot m) hm (fun n hn => ⟨h.slots n, hP n hn⟩) (fun _ hslot => hslot.1) h.slots
    (fun _ hslot => hslot.1) (fun n slot _ _ => hnext n slot) (fun s' hs' ht hB => ?_) fun s' e hs' ht => hleft hs' ht
  exact hok s' (hleft hs' ht) fun n hn => (hB n hn).2

/-- A half of a pass, which comes to no error. -/
theorem reload_half {s : JobsSt} (h : ReloadOk s) (hready : s.Ready) {order : List String} (hnodup : order.Nodup)
    {deps : String → Option Job} {m : String → SlotM Unit} {f : JobsSt → ManagerPhase} {A : String → JobSlot → Prop}
    (hm : ∀ n ∈ order, Triple (A n) (m n) (fun _ => JobSlot.Good True) (atExit (fun _ => False) JobSlot.SlotOk))
    (hA : ∀ n ∈ order, A n (s.slots n))
    (hhalted : ∀ n slot, JobSlot.SlotOk slot → slot.halted = true → (m n slot).2.next = slot.next)
    (hf : ∀ s ps, f s ≠ .committed (some ps)) (hup : s.up = true) :
    ReloadOk (settle ((order.forM fun name => examine name deps (m name) : JobsM Unit) s) fun _ s => { s with phase := f s }) := by
  refine reload_forM h hnodup (onSlots_examine deps m) (fun n hn => (hm n hn).exit fun e slot he => ?_) hA (fun _ h => h)
    (fun n => ⟨(h.slots n).1, fun _ => (h.slots n).2 hready⟩) (fun _ h => h.1) hhalted (fun s' hleft _ _ => ?_)
    fun s' e hleft ht => ?_
  · cases e with
    | error e => exact he.elim
    | killed => exact he
  · obtain ⟨slots, passed, heq⟩ := hleft.same
    have hloads : s'.loads = s.loads := congrArg (·.loads) heq
    have hup' : s'.up = s.up := congrArg (·.up) heq
    refine ⟨fun n => ⟨(hleft.slots n).1, fun _ => (hleft.slots n).2 trivial⟩, fun ps hps => absurd hps (hf s' ps), hleft.started,
      fun e he => h.kept e (hloads ▸ he), fun hoff => ?_⟩
    have hoff : s'.up = false := hoff
    rw [hup', hup] at hoff
    cases hoff
  · obtain ⟨n, hn, he⟩ := ht.failed _ rfl
    have hnot := hm n hn (s.slots n) (hA n hn)
    cases hr : m n (s.slots n) with
    | mk r slot =>
      rw [hr] at hnot he
      cases he
      exact hnot.elim

/-! ### Loads -/

theorem load_runners (slot : JobSlot) (removed : Bool) : (slot.load removed).runners = slot.runners := by
  unfold JobSlot.load
  split
  · rfl
  · split <;> rfl
  · rfl

theorem reload_loadOne {s : JobsSt} (h : ReloadOk s) (env : LoadEnv) (name : String) :
    ReloadOk (loadOne env s name) ∧ ((loadOne env s name).slots name).Synced := by
  obtain ⟨hok, hsynced⟩ := JobSlot.load_ok (h.slots name).1 (env.removed name)
  have hkept := JobSlot.load_kept (h.slots name).1 name (env.removed name)
  have hset : ReloadOk (s.setSlot name { (s.slots name).load (env.removed name) with last := none }) :=
    h.setSlot ⟨hok, fun _ => hsynced⟩ fun pid hpid => (load_runners (s.slots name) (env.removed name)) ▸ hpid
  refine ⟨⟨hset.slots, hset.listed, hset.started, fun e he => ?_, hset.off⟩, ?_⟩
  · rcases List.mem_append.mp he with he | he
    · exact h.kept e he
    · rw [List.mem_singleton.mp he]
      exact hkept
  · show ((s.setSlot name _).slots name).Synced
    rw [setSlot_same]
    exact hsynced

theorem reload_loads (env : LoadEnv) : ∀ (names : List String) {s : JobsSt}, ReloadOk s →
    (∀ n, n ∈ names ∨ (s.slots n).Synced) →
    ReloadOk (names.foldl (loadOne env) s) ∧ ∀ n, ((names.foldl (loadOne env) s).slots n).Synced
  | [], s, h, hsynced => ⟨h, fun n => (hsynced n).resolve_left (by simp)⟩
  | name :: names, s, h, hsynced => by
    obtain ⟨hone, hthis⟩ := reload_loadOne h env name
    refine reload_loads env names hone fun n => ?_
    by_cases hn : n = name
    · exact .inr (hn ▸ hthis)
    · have hother : (loadOne env s name).slots n = s.slots n := setSlot_other s _ hn
      rw [hother]
      exact (hsynced n).imp_left fun hmem => (List.mem_cons.mp hmem).resolve_left hn

/-- What is not known was never started. -/
theorem synced_unknown {s : JobsSt} (hreg : Registered s) (h : ReloadOk s) {n : String} (hn : n ∉ s.known) :
    (s.slots n).Synced := by
  have hmissing : (s.slots n).config = .missing := by
    by_contra hconfig
    exact hn (hreg.configs n hconfig)
  have hunknown := (h.slots n).1.unknown fun config heq => by cases hmissing.symm.trans heq
  exact JobSlot.synced_of_nil hunknown.2.1

/-- A load of all jobs knows of all runners; one that is cut off does no harm. -/
theorem reload_loadJobs {s : JobsSt} (hreg : Registered s) (h : ReloadOk s) {env : LoadEnv} (hperm : env.order.Perm s.known) :
    ReloadOk (loadJobs s env).2 ∧ ((loadJobs s env).1 = .ok () → ∀ n, ((loadJobs s env).2.slots n).Synced) := by
  have hknown : ∀ n, n ∈ env.order ∨ (s.slots n).Synced := fun n => by
    by_cases hn : n ∈ s.known
    · exact .inl (hperm.mem_iff.mpr hn)
    · exact .inr (synced_unknown hreg h hn)
  unfold loadJobs
  cases env.failsAfter with
  | none =>
    obtain ⟨hok, hsynced⟩ := reload_loads env env.order h hknown
    exact ⟨hok, fun _ => hsynced⟩
  | some k =>
    have hpart : ReloadOk ((env.order.take k).foldl (loadOne env) s) :=
      fold_keeps (I := ReloadOk) (f := loadOne env) (fun s name _ h => (reload_loadOne h env name).1) h
    exact ⟨hpart, nofun⟩

theorem loadJobs_up (env : LoadEnv) (s : JobsSt) : (loadJobs s env).2.up = s.up := by
  have hloads : ∀ names : List String, (names.foldl (loadOne env) s).up = s.up := fun names =>
    fold_keeps (I := fun t => t.up = s.up) (f := loadOne env) (fun _ _ _ h => h) rfl
  unfold loadJobs
  split
  · exact hloads _
  · exact hloads _

theorem reload_phase {s : JobsSt} (h : ReloadOk s) {phase : ManagerPhase} (hphase : ∀ ps, phase ≠ .committed (some ps))
    (hready : phase.passing = true → s.Ready) (hup : s.up = true) : ReloadOk { s with phase } where
  slots := fun n => ⟨(h.slots n).1, fun hp => (h.slots n).2 (hp.elim .inl hready)⟩
  listed := fun ps hps => absurd hps (hphase ps)
  started := h.started
  kept := h.kept
  off := fun hoff => by
    have hoff : s.up = false := hoff
    rw [hup] at hoff
    cases hoff

theorem up_of_phase {s : JobsSt} (h : ReloadOk s) (hphase : s.phase ≠ .gone) : s.up = true := by
  by_contra hup
  exact hphase (h.off (Bool.eq_false_iff.mpr hup)).1

theorem reload_sendState {s : JobsSt} (h : ReloadOk s) {state : JobsManagerState}
    (hsynced : state = .ready → ∀ n, (s.slots n).Synced) : ReloadOk (s.sendState state) := by
  unfold sendState
  split
  · exact h
  · rename_i hgone
    refine ⟨fun n => ⟨(h.slots n).1, fun hp => ?_⟩, h.listed, h.started, h.kept, fun hoff => ?_⟩
    · rcases hp with hstate | hpassing
      · exact hsynced hstate n
      · exact (h.slots n).2 (.inr hpassing)
    · exact absurd (h.off hoff).1 hgone

theorem reload_startup {s : JobsSt} (hreg : Registered s) (h : ReloadOk s) {env : LoadEnv} (hperm : env.order.Perm s.known) :
    ReloadOk (s.startup env) := by
  have hnode : ReloadOk { s with nodeEnv := true } := h.congr rfl rfl rfl rfl rfl rfl
  have hregnode : Registered { s with nodeEnv := true } := hreg.congr (fun _ => rfl) rfl rfl
  have hload := reload_loadJobs hregnode hnode hperm
  unfold startup settle
  revert hload
  cases loadJobs { s with nodeEnv := true } env with
  | mk r t =>
    rintro ⟨hok, hsynced⟩
    cases r with
    | ok _ =>
      dsimp only
      split
      · exact hok
      · exact (reload_sendState hok fun _ => hsynced rfl).congr rfl rfl rfl rfl rfl rfl
    | error e =>
      cases e with
      | error e => exact hok
      | killed => exact ReloadOk.crash (fun n => (hok.slots n).1) hok.started hok.kept

theorem reload_boot {s : JobsSt} (hreg : Registered s) (h : ReloadOk s) (hup : s.up = false) {ready : Bool} {env : LoadEnv}
    (hperm : env.order.Perm s.known) : ReloadOk (s.boot ready env) := by
  let t : JobsSt := { s with up := true, nodeEnv := ready, phase := .starting, down := false }
  have hoff := h.off hup
  have hset : ReloadOk t := by
    refine ⟨fun n => ⟨(h.slots n).1, fun hp => ?_⟩, fun _ hps => (by cases hps), h.started, h.kept, fun hoff => (by cases hoff)⟩
    rcases hp with hstate | hpassing
    · cases hoff.2.symm.trans hstate
    · cases hpassing
  have hregset : Registered t := hreg.congr (fun _ => rfl) rfl rfl
  have hload := reload_loadJobs hregset hset hperm
  have hlive : (loadJobs t env).2.up = true := loadJobs_up env t
  unfold boot
  dsimp only
  split
  · revert hload hlive
    cases loadJobs t env with
    | mk r t' =>
      rintro ⟨hok, hsynced⟩ hlive
      cases r with
      | ok _ =>
        refine ⟨fun n => ⟨(hok.slots n).1, fun _ => hsynced rfl n⟩, hok.listed, hok.started, hok.kept, fun hoff => ?_⟩
        cases hlive.symm.trans hoff
      | error e => exact ReloadOk.crash (fun n => (hok.slots n).1) hok.started hok.kept
  · exact hset

/-! ### Steps -/

theorem halt_next (name : String) (status : JobStatus) (env : HaltEnv) (slot : JobSlot) :
    (JobSlot.halt name status env slot).2.next = slot.next :=
  (JobSlot.stable_nextIn (p := (· = slot.next)).halt name status env).run rfl

theorem shutdown_next (name : String) (force : Bool) (env : TerminateEnv) (slot : JobSlot) :
    (JobSlot.shutdown name force env slot).2.next = slot.next :=
  (JobSlot.stable_nextIn (p := (· = slot.next)).shutdown name force env).run rfl

/-- A stop or a skip. -/
theorem reload_halt {s : JobsSt} (h : ReloadOk s) (name : String) {status : JobStatus} (hstatus : status.decided = true)
    {env : HaltEnv} (hclean : env.clean = true) :
    ReloadOk (settle (onSlot name (JobSlot.halt name status env) (halting name s)) fun _ s => halted name s) := by
  have hm : Triple (fun slot => slot.Good (halting name s).Ready ∧ slot.asked = false) (JobSlot.halt name status env)
      (fun _ slot => slot.Good (halting name s).Ready ∧ slot.fileDecided = true ∧ slot.awaits = none)
      (atExit (JobSlot.Good (halting name s).Ready) JobSlot.SlotOk) :=
    (JobSlot.halt_good name hstatus hclean).post fun _ _ h => ⟨h.1.1, h.2⟩
  refine reload_onSlot (h.halting name) hm (fun runners => (stable_runners runners).halt name status env) ?_ fun _ slot hQ hset => ?_
  · rw [halting, setSlot_same]
  · refine hset.halted ?_ ?_
    · rw [setSlot_same]
      exact hQ.1
    · rw [setSlot_same]
      exact hQ.2

theorem reload_create {s : JobsSt} (h : ReloadOk s) (name : String) (config : JobConfig) {env : CreateEnv}
    (hclean : env.clean = true) : ReloadOk (s.create name config env) := by
  let t : JobsSt := halting name { s with known := register s.known name }
  have hknown : ReloadOk { s with known := register s.known name } := h.congr rfl rfl rfl rfl rfl rfl
  have ht : ReloadOk t := hknown.halting name
  refine reload_onSlot ht (Q := fun _ slot => slot.fileDecided = true ∧ slot.awaits = none) (P := fun slot => slot.asked = false)
    ((JobSlot.create_good name config _ hclean).post fun _ _ h => ⟨h.1.1, h.2⟩)
    (fun runners => (stable_runners runners).create name config _ env (fun _ _ h => h) fun _ h => h) ?_ fun _ slot hQ hset => ?_
  · show (t.slots name).asked = false
    exact congrArg (·.asked) (setSlot_same ..)
  · have hnames : ReloadOk { t.setSlot name slot with names := register t.names name } := hset.congr rfl rfl rfl rfl rfl rfl
    have hslot : (t.setSlot name slot).slots name = slot := setSlot_same ..
    refine hnames.halted ?_ ?_
    · show ((t.setSlot name slot).slots name).fileDecided = true
      rw [hslot]
      exact hQ.1
    · show ((t.setSlot name slot).slots name).awaits = none
      rw [hslot]
      exact hQ.2

theorem reload_start {s : JobsSt} (h : ReloadOk s) (name : String) {save : Fault DocCut} (hclean : save.clean = true) :
    ReloadOk (s.start name save) := by
  let t : JobsSt := s.setSlot name { s.slots name with
    halted := false, asked := (s.slots name).asked && (s.slots name).activePid.isSome }
  have ht : ReloadOk t := h.setGhosts name false _ nofun fun hasked => by
    rw [Bool.and_eq_true] at hasked
    exact .inl hasked.1
  have hslot : t.slots name = { s.slots name with
    halted := false, asked := (s.slots name).asked && (s.slots name).activePid.isSome } := setSlot_same ..
  refine reload_onSlot ht (P := fun slot => slot.halted = false ∧ (slot.asked = true → slot.activePid ≠ none))
    (Q := fun sent slot => sent = true → slot.fileOpen = true ∧ slot.job.isSome = true) (JobSlot.start_good name hclean)
    (fun runners => (stable_runners runners).start name save) ?_ fun sent slot hQ hset => ?_
  · rw [hslot]
    refine ⟨rfl, fun hasked => ?_⟩
    rw [Bool.and_eq_true] at hasked
    exact Option.isSome_iff_ne_none.mp hasked.2
  · have hsame : (t.setSlot name slot).slots name = slot := setSlot_same ..
    have hghosts := hset.setGhosts name ((t.setSlot name slot).slots name).halted
      (((t.setSlot name slot).slots name).asked || sent) (fun hhalted => .inl hhalted) fun hasked => ?_
    · exact hghosts.congr rfl rfl rfl rfl rfl rfl
    · rw [hsame] at hasked ⊢
      cases sent with
      | true => exact .inr (hQ rfl)
      | false => exact .inl (by simpa using hasked)

theorem asked_halting : ∀ (order : List String) (s : JobsSt) {n : String}, n ∈ order ∨ (s.slots n).asked = false →
    ((order.foldl (fun s name => halting name s) s).slots n).asked = false
  | [], _, _, h => h.resolve_left (by simp)
  | name :: order, s, n, h => by
    refine asked_halting order (halting name s) ?_
    by_cases hn : n = name
    · rw [hn, halting, setSlot_same]
      exact .inr rfl
    · rw [halting, setSlot_other _ _ hn]
      exact h.imp_left fun hmem => (List.mem_cons.mp hmem).resolve_left hn

theorem reload_stopAll {s : JobsSt} (h : ReloadOk s) {order : List String} (hnodup : order.Nodup) {env : String → HaltEnv}
    (hclean : ∀ n ∈ order, (env n).clean = true) : ReloadOk (s.stopAll order env) := by
  have hbegin : ReloadOk (order.foldl (fun s name => halting name s) s) := fold_keeps (fun s name _ h => h.halting name) h
  refine reload_clients hbegin hnodup (P := fun slot => slot.asked = false)
    (Q := fun slot => slot.fileDecided = true ∧ slot.awaits = none) (fun n hn => ?_)
    (fun n runners => (stable_runners runners).halt n .stopped (env n)) (fun n slot => halt_next n .stopped (env n) slot)
    (fun n hn => asked_halting order s (.inl hn)) fun t ht hstopped => ?_
  · exact (JobSlot.halt_good n rfl (hclean n hn)).post fun _ _ h => ⟨h.1.1, h.2⟩
  · have hall : ReloadOk (order.foldl (fun s name => halted name s) t) ∧
        ∀ n ∈ order, ((order.foldl (fun s name => halted name s) t).slots n).fileDecided = true ∧
          ((order.foldl (fun s name => halted name s) t).slots n).awaits = none :=
      fold_keeps (I := fun t => ReloadOk t ∧ ∀ n ∈ order, (t.slots n).fileDecided = true ∧ (t.slots n).awaits = none)
        (f := fun s name => halted name s) (fun t name hname ht => ⟨ht.1.halted (ht.2 name hname).1 (ht.2 name hname).2, fun n hn => ?_⟩)
        ⟨ht, hstopped⟩
    · exact hall.1
    · by_cases heq : n = name
      · rw [heq, halted, setSlot_same]
        exact ht.2 name hname
      · rw [halted, setSlot_other _ _ heq]
        exact ht.2 n hn

theorem reload_step {s s' : JobsSt} {act : JobsAct} (hreg : Registered s) (h : ReloadOk s) (hclean : act.clean = true)
    (hs : s.step act = some s') : ReloadOk s' := by
  have hd := step_does hs
  cases act with
  | boot ready env =>
    obtain ⟨hup, hperm, rfl⟩ := hd
    exact reload_boot hreg h hup hperm
  | crash =>
    obtain rfl := hd
    exact ReloadOk.crash (fun n => (h.slots n).1) h.started h.kept
  | create name config env =>
    obtain ⟨_, rfl⟩ := hd
    exact reload_create h name config hclean
  | start name save =>
    obtain ⟨_, rfl⟩ := hd
    exact reload_start h name hclean
  | stop name env =>
    obtain ⟨_, rfl⟩ := hd
    exact reload_halt h name rfl hclean
  | stopAll order env =>
    obtain ⟨_, hperm, rfl⟩ := hd
    exact reload_stopAll h (hperm.nodup_iff.mpr hreg.nodup) (List.all_eq_true.mp hclean)
  | skip name env =>
    obtain ⟨_, rfl⟩ := hd
    exact reload_halt h name rfl hclean
  | cleanup name outcome =>
    obtain rfl := hd
    exact h
  | startup env =>
    obtain ⟨_, hperm, rfl⟩ := hd
    exact reload_startup hreg h hperm
  | beginShutdown force =>
    obtain rfl := hd
    have hsend : ReloadOk (s.sendState .shutdown) := reload_sendState h fun hstate => by cases hstate
    exact hsend.congr rfl rfl rfl rfl rfl rfl
  | endShutdown i order env =>
    obtain ⟨force, _, hperm, rfl⟩ := hd
    have hterminate : ∀ n ∈ order, (env n).clean = true := List.all_eq_true.mp hclean
    have hset : ReloadOk { s with shutdowns := s.shutdowns.eraseIdx i } := h.congr rfl rfl rfl rfl rfl rfl
    refine reload_clients hset (hperm.nodup_iff.mpr hreg.nodup) (P := fun _ => True) (Q := fun _ => True) (fun n hn => ?_)
      (fun n runners => (stable_runners runners).shutdown n force (env n)) (fun n slot => shutdown_next n force (env n) slot)
      (fun _ _ => trivial) fun t ht _ => ht.congr rfl rfl rfl rfl rfl rfl
    exact (JobSlot.shutdown_good n force (hterminate n hn)).conseq (fun _ h => h.1) (fun _ _ h => ⟨h, trivial⟩) fun _ _ h => h
  | check seen =>
    obtain ⟨hphase, _, rfl⟩ | ⟨hphase, hready, rfl⟩ | ⟨hphase, rfl⟩ := hd
    · have hup := up_of_phase h (by rw [hphase]; nofun)
      have hset : ReloadOk { s with phase := ManagerPhase.checking } := reload_phase h nofun nofun hup
      exact hset.congr rfl rfl rfl rfl rfl rfl
    · have hup := up_of_phase h (by rw [hphase]; nofun)
      exact reload_phase h nofun (fun _ => .inl hready) hup
    · have hup := up_of_phase h (by rw [hphase]; nofun)
      exact reload_phase h nofun nofun hup
  | listProcesses =>
    obtain ⟨hphase, rfl⟩ := hd
    have hready : s.Ready := .inr (by rw [hphase]; rfl)
    refine ⟨fun n => ⟨(h.slots n).1, fun _ => (h.slots n).2 hready⟩, fun ps hps n pid hpid => ?_, h.started, h.kept, fun hoff => ?_⟩
    · obtain rfl : (fun name => (s.slots name).runners) = ps := by simpa using hps
      exact hpid
    · cases hphase.symm.trans (h.off hoff).1
  | updateActive order env =>
    obtain ⟨ps, hphase, hperm, rfl⟩ := hd
    have hready : s.Ready := .inr (by rw [hphase]; rfl)
    have hsave : ∀ n ∈ order, (env n).save.clean = true := List.all_eq_true.mp hclean
    exact reload_half h hready (hperm.nodup_iff.mpr hreg.nodup)
      (A := fun n slot => slot.Good True ∧ ∀ pid ∈ slot.runners, pid ∈ ps n)
      (fun n hn => JobSlot.updateActiveJob_good n (ps n) (hsave n hn))
      (fun n _ => ⟨⟨(h.slots n).1, fun _ => (h.slots n).2 hready⟩, h.listed ps hphase n⟩)
      (fun n slot hslot hhalted => JobSlot.updateActiveJob_halted hslot hhalted n (ps n) (env n)) (fun _ _ => nofun)
      (up_of_phase h (by rw [hphase]; nofun))
  | checkInactive order env watch =>
    obtain ⟨hphase, hperm, rfl⟩ := hd
    have hready : s.Ready := .inr (by rw [hphase]; rfl)
    have hsave : ∀ n ∈ order, (env n).save.clean = true := List.all_eq_true.mp hclean
    refine reload_half h hready (hperm.nodup_iff.mpr hreg.nodup) (A := fun _ => JobSlot.Good True)
      (fun n hn => JobSlot.checkInactiveJob_good n s.deps (hsave n hn))
      (fun n _ => ⟨(h.slots n).1, fun _ => (h.slots n).2 hready⟩)
      (fun n slot hslot hhalted => JobSlot.checkInactiveJob_halted hslot hhalted n s.deps (env n)) (fun t ps => ?_)
      (up_of_phase h (by rw [hphase]; nofun))
    split <;> nofun
  | wake wakeUp =>
    obtain ⟨hwaits, _, _, rfl⟩ := hd
    have hup := up_of_phase h fun hgone => by
      rw [hgone] at hwaits
      cases hwaits
    have hset : ReloadOk { s with phase := ManagerPhase.checking } := reload_phase h nofun nofun hup
    exact hset.congr rfl rfl rfl rfl rfl rfl
  | runnerSaves name pid save =>
    obtain ⟨_, rfl⟩ := hd
    have hrunners : ((s.slots name).runnerSaves save).runners = (s.slots name).runners := by
      unfold JobSlot.runnerSaves JobSlot.writeStatus
      split <;> rfl
    have hjob : ((s.slots name).runnerSaves save).job = (s.slots name).job := JobSlot.job_writeStatus ..
    refine h.setSlot ⟨(h.slots name).1.runnerSaves hclean, fun hp runner hrunner => ?_⟩ fun runner hrunner => hrunners ▸ hrunner
    rw [JobSlot.activePid_congr hjob]
    exact (h.slots name).2 hp runner (hrunners ▸ hrunner)
  | runnerEnds name pid =>
    obtain ⟨_, rfl⟩ := hd
    have hsub : ∀ runner ∈ ((s.slots name).runnerEnds pid).runners, runner ∈ (s.slots name).runners := fun _ hrunner =>
      (List.mem_filter.mp hrunner).1
    exact h.setSlot ⟨(h.slots name).1.runnerEnds pid, fun hp runner hrunner => (h.slots name).2 hp runner (hsub runner hrunner)⟩ hsub

end JobsSt

/-- **A load neither loses nor resurrects jobs**, when every write of a file comes out whole or not at
all. In every run of clients, passes, kills and loads: no job is started whose last stop, create or
skip that returned Ok came after every start; a job whose last client operation was a start that
returned Ok, and that was Pending, active or due for a restart, is active or Pending after a load or
has the final status its runner saved; and no job has two runners. -/
theorem reload_safe {acts : List JobsAct} {s : JobsSt} (hrun : run JobsSt.step .init acts = some s)
    (hclean : ∀ act ∈ acts, act.clean = true) :
    (∀ e ∈ s.passed, e.started = true → e.halted = false) ∧ (∀ e ∈ s.loads, e.Kept) ∧
      ∀ name, (s.slots name).runners.length ≤ 1 := by
  have halong : Along JobsSt.step (fun _ act => act.clean = true) .init acts :=
    along_of_forall JobsSt.step fun act hact _ => hclean act hact
  have h : Registered s ∧ JobsSt.ReloadOk s :=
    run_invariant JobsSt.step (I := fun t => Registered t ∧ JobsSt.ReloadOk t)
      (fun _ _ _ h hok hs => ⟨JobsSt.registered_step h.1 hs, JobsSt.reload_step h.1 h.2 hok hs⟩)
      ⟨JobsSt.registered_init, JobsSt.reloadOk_init⟩ halong hrun
  exact ⟨h.2.started, h.2.kept, fun name => (h.2.slots name).1.single⟩

def calmLoad (order : List String) : LoadEnv := ⟨order, none, fun _ => true⟩

/-- Babel is killed while a job runs, and starts again. -/
def crashedRun : List JobsAct :=
  [.boot true (calmLoad []), .create "a" plainJob calmCreate, .start "a" .none, .check true] ++ calmPass ["a"] ++
    [.crash, .boot true (calmLoad ["a"])]

theorem reload_safe_crashed : ∃ s, run JobsSt.step .init crashedRun = some s ∧
    (∃ e ∈ s.loads, e.Kept ∧ e.asked = true ∧ e.before = some (.active 0) ∧ e.after = some (.active 0)) ∧
      (s.slots "a").runners.length ≤ 1 := by
  have hload : (run JobsSt.step .init crashedRun).map (fun s => s.loads.map fun e => (e.asked, e.before, e.after)) =
      some [(true, some (.active 0), some (.active 0))] := by
    decide +kernel
  obtain ⟨s, hrun, hs⟩ := Option.map_eq_some_iff.mp hload
  have hmem : (true, some (.active 0), some (.active 0)) ∈ s.loads.map fun e => (e.asked, e.before, e.after) := by
    rw [hs]
    simp
  obtain ⟨e, he, heq⟩ := List.mem_map.mp hmem
  obtain ⟨hasked, hbefore, hafter⟩ : _ ∧ _ ∧ _ := by simpa only [Prod.mk.injEq] using heq
  have hsafe := reload_safe hrun (by decide +kernel)
  exact ⟨s, hrun, ⟨e, he, hsafe.2.1 e he, hasked, hbefore, hafter⟩, hsafe.2.2 "a"⟩

/-- A job that is Pending is created again, and babel is killed when the status is saved and the config
is not. -/
def cutRun : List JobsAct :=
  [.boot true (calmLoad []), .create "a" plainJob calmCreate, .start "a" .none,
    .create "a" plainJob { calmCreate with saveConfig := .killed .untouched }, .boot true (calmLoad ["a"])]

/-- **An operation that is cut off may have taken effect**: the job was Pending, and is loaded as one
that was stopped. -/
theorem reload_cut : ¬ ∀ acts s, run JobsSt.step .init acts = some s → (∀ act ∈ acts, act.clean = true) →
    ∀ e ∈ s.loads, ∀ state, e.before = some state → state.decided = false →
      (∃ pid, e.after = some (.active pid)) ∨ (∃ waitingFor, e.after = some (.inactive (.pending waitingFor))) ∨
        ∃ status, e.after = some (.inactive status) ∧ status.decided = true ∧ e.byRunner = true := by
  intro hall
  have hcut : (run JobsSt.step .init cutRun).map (fun s => s.loads.map fun e => (e.before, e.after, e.byRunner)) =
      some [(some (.inactive (.pending [])), some (.inactive .stopped), false)] := by
    decide +kernel
  obtain ⟨s, hrun, hs⟩ := Option.map_eq_some_iff.mp hcut
  have hmem : (some (.inactive (.pending [])), some (.inactive .stopped), false) ∈
      s.loads.map fun e => (e.before, e.after, e.byRunner) := by
    rw [hs]
    simp
  obtain ⟨e, he, heq⟩ := List.mem_map.mp hmem
  obtain ⟨hbefore, hafter, hsaved⟩ : _ ∧ _ ∧ _ := by simpa only [Prod.mk.injEq] using heq
  rcases hall cutRun s hrun (by decide +kernel) e he _ hbefore rfl with ⟨pid, heq⟩ | ⟨waitingFor, heq⟩ | ⟨_, _, _, heq⟩
  · cases hafter.symm.trans heq
  · cases hafter.symm.trans heq
  · cases hsaved.symm.trans heq

end Blockvisor
