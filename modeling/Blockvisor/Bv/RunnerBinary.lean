/-
The job runner on a node: babel keeps the checksum of the binary behind a lock
(`JobRunnerLock` of `babel_service.rs`), the daemon compares it with its own
and uploads its binary if they differ (`check_job_runner` of `node.rs`), and
the manager starts jobs from the file (`start_job_runner`).

The lock is set when babel starts and when an upload ends well; an upload that
fails leaves it as it is, whatever is left of the file. `job_runner_current`
says that checks that end well can be relied on, over any run in which no
upload is given up halfway. `runner_never_repaired` is why that is needed: an
upload that is done but not answered is tried again, and when that fails the
lock has the checksum of a binary that is gone.
-/
import Blockvisor.Babel.JobKills
import Blockvisor.BvUtils.Binary

namespace Blockvisor

open Effect

inductive BinaryStatus where
  | ok
  | checksumMismatch
  | missing
  deriving DecidableEq, Repr

/-- The file of the job runner, and its checksum as the lock has it. -/
structure RunnerSt where
  bin : Option Bytes
  lock : Option (BitVec 32)

namespace BabelService

/-- The lock at the start of babel. -/
def boot (load : LoadBinEnv) (bin : Option Bytes) : RunnerSt := ⟨bin, (fileChecksum load bin).toOption⟩

def runnerStatus (lock : Option (BitVec 32)) (expectedChecksum : BitVec 32) : BinaryStatus :=
  match lock with
  | some checksum => if checksum = expectedChecksum then .ok else .checksumMismatch
  | none => .missing

def checkJobRunner (expectedChecksum : BitVec 32) : Effect String RunnerSt BinaryStatus :=
  gets fun s => runnerStatus s.lock expectedChecksum

def uploadJobRunner (env : SaveBinEnv) (stream : BinStream) : Effect String RunnerSt Unit := do
  let checksum ← mapError (fun err => s!"upload_job_runner failed: {err}")
    (zoom (·.bin) (fun bin s => { s with bin }) (saveBinStream env jobRunnerBinPath stream))
  modify fun s => { s with lock := some checksum }

/-- `start_job_runner`: the binary that is started. -/
def startJobRunner (spawns : Bool) : Effect String RunnerSt Bytes := do
  let s ← gets id
  match s.lock, s.bin, spawns with
  | none, _, _ => throw "missing job runner binary"
  | some _, some bin, true => pure bin
  | some _, _, _ => throw "failed to spawn job runner"

end BabelService

/-- How a try of an upload goes. -/
structure UploadTry where
  fate : RequestFate
  breaks : Option Nat
  save : SaveBinEnv

/-- How a check of the job runner goes. -/
structure RunnerCheck where
  load : LoadBinEnv
  connects : Bool
  checks : Nat → RequestFate
  uploads : Nat → UploadTry

def RunnerCheck.tryUpload (env : RunnerCheck) (bin : List Binary) (i : Nat) : Effect String RunnerSt Unit :=
  rpc (env.uploads i).fate (BabelService.uploadJobRunner (env.uploads i).save (sent (env.uploads i).breaks bin))

/-- `check_job_runner` of `node.rs`; `file` is the daemon's own job runner. -/
def RunnerCheck.checkJobRunner (env : RunnerCheck) (path : String) (file : Option Bytes) : Effect String RunnerSt Unit := do
  let (bin, checksum) ← ofExcept (loadBin env.load path file)
  when (env.connects = false) (throw "node connection is closed")
  let status ← withRetry fun i => rpc (env.checks i) (BabelService.checkJobRunner checksum)
  when (status ≠ .ok) (withRetry (env.tryUpload bin))

/-! ## Uploads and checks -/

/-- What was uploaded is there, with its checksum. -/
def RunnerSt.Has (s : RunnerSt) (content : Bytes) : Prop := s.bin = some content ∧ s.lock = some (crc32.checksum content)

/-- The lock has the checksum of the file. -/
def RunnerSt.Sound (s : RunnerSt) : Prop :=
  ∀ checksum, s.lock = some checksum → ∃ bin, s.bin = some bin ∧ crc32.checksum bin = checksum

theorem RunnerSt.Has.sound {s : RunnerSt} {content : Bytes} (h : s.Has content) : s.Sound := by
  intro checksum hlock
  cases h.2.symm.trans hlock
  exact ⟨content, h.1, rfl⟩

/-- An upload that is done is there; one that fails leaves the lock as it was. -/
theorem has_uploadJobRunner {env : SaveBinEnv} (hroomy : env.Roomy) (breaks : Option Nat) (reads : ReadEnv) (data : Bytes)
    (lock : Option (BitVec 32)) :
    Triple (·.lock = lock) (BabelService.uploadJobRunner env (sent breaks (binParts (readFile reads data))))
      (fun _ s => s.Has (readFile reads data).flatten) fun _ s => s.lock = lock := by
  intro s₀ hlock
  have hsaved : Triple (· = s₀)
      (zoom (·.bin) (fun bin s => { s with bin }) (saveBinStream env jobRunnerBinPath (sent breaks (binParts (readFile reads data)))))
      (fun checksum s => ∃ bin, s = { s₀ with bin } ∧ Saved env (sent breaks (binParts (readFile reads data))) checksum bin)
      fun _ s => ∃ bin, s = { s₀ with bin } ∧ True :=
    Triple.zoom ((saved_bin env jobRunnerBinPath _).pre fun _ _ => trivial)
  suffices hupload : Triple (· = s₀) (BabelService.uploadJobRunner env (sent breaks (binParts (readFile reads data))))
      (fun _ s => s.Has (readFile reads data).flatten) fun _ s => s.lock = lock from hupload s₀ rfl
  refine Triple.bind (Triple.mapError (hsaved.exit ?_)) fun checksum => Triple.modify ?_
  · rintro e s ⟨bin, rfl, _⟩
    cases e with
    | error e => exact hlock
    | killed => exact hlock
  · rintro s ⟨bin, rfl, hbin⟩
    have hwhole := sent_whole hbin.whole
    rw [hwhole] at hbin
    have htakes : env.TakesAll ((binParts (readFile reads data)).map .ok) :=
      hroomy.takesAll fun bytes hbytes => length_of_mem_binParts hbytes
    have hpayload := hbin.payload htakes
    rw [payload_binParts] at hpayload
    have hchecksum := hbin.expected
    rw [lastChecksum_binParts] at hchecksum
    exact ⟨hpayload, hchecksum.symm⟩

/-- Uploads are tried until one is done. -/
theorem has_uploads {env : RunnerCheck} (hroomy : ∀ i, (env.uploads i).save.Roomy) (reads : ReadEnv) (data : Bytes) :
    Triple (fun _ => True) (withRetry (env.tryUpload (binParts (readFile reads data))))
      (fun _ s => s.Has (readFile reads data).flatten) fun _ _ => True := by
  refine Triple.withRetry fun i => Triple.rpc ?_ fun _ _ _ => trivial
  intro s _
  exact ((has_uploadJobRunner (hroomy i) (env.uploads i).breaks reads data s.lock).exit fun _ _ _ => trivial) s rfl

theorem status_checks (checks : Nat → RequestFate) (checksum : BitVec 32) (s₀ : RunnerSt) :
    Triple (· = s₀) (withRetry fun i => rpc (checks i) (BabelService.checkJobRunner checksum))
      (fun status s => s = s₀ ∧ status = BabelService.runnerStatus s₀.lock checksum) fun _ => (· = s₀) := by
  refine Triple.withRetry fun i => Triple.rpc (Triple.gets.post ?_) fun _ _ h => h.1
  rintro status s ⟨rfl, rfl⟩
  exact ⟨rfl, rfl⟩

theorem runnerStatus_ok {lock : Option (BitVec 32)} {checksum : BitVec 32} :
    BabelService.runnerStatus lock checksum = .ok ↔ lock = some checksum := by
  cases lock with
  | none => simp [BabelService.runnerStatus]
  | some c =>
    by_cases h : c = checksum
    · simp [BabelService.runnerStatus, h]
    · simp [BabelService.runnerStatus, h]


/-- A check that ends well found the checksum of what it read of the daemon's binary, or uploaded that. -/
theorem checked {env : RunnerCheck} (hroomy : ∀ i, (env.uploads i).save.Roomy) (path : String) (file : Option Bytes)
    (s₀ : RunnerSt) :
    Triple (· = s₀) (env.checkJobRunner path file)
      (fun _ s => ∃ data, file = some data ∧ (s.Has (readFile env.load.reads data).flatten ∨
        s = s₀ ∧ s₀.lock = some (crc32.checksum (readFile env.load.reads data).flatten)))
      fun _ _ => True := by
  refine Triple.bind (R := fun loaded s => s = s₀ ∧ loadBin env.load path file = .ok loaded)
    (Triple.ofExcept (fun loaded hload s hs => ⟨hs, hload⟩) fun _ _ _ _ => trivial) ?_
  rintro ⟨bin, checksum⟩
  refine Triple.pre (Triple.assume fun hload => ?_) fun s h => ⟨h.2, h.1⟩
  obtain ⟨data, hfile, rfl, rfl⟩ := loadBin_ok hload
  rw [digest_eq]
  refine Triple.bind (R := fun _ => (· = s₀)) (Triple.when (fun _ => Triple.throw fun _ _ => trivial) fun _ _ hs => hs) fun _ => ?_
  refine Triple.bind ((status_checks env.checks _ s₀).exit fun _ _ _ => trivial) fun status => Triple.when ?_ ?_
  · intro _
    exact (has_uploads hroomy env.load.reads data).conseq (fun _ _ => trivial) (fun _ s h => ⟨data, hfile, .inl h⟩) fun _ _ h => h
  · rintro hok s ⟨rfl, rfl⟩
    exact ⟨data, hfile, .inr ⟨rfl, runnerStatus_ok.mp (not_not.mp hok)⟩⟩

/-! ## Runs -/

/-- Babel starts again, maybe on another root filesystem; a check of the job runner; the start of a job. -/
inductive RunnerEvent where
  | boot (load : LoadBinEnv) (rootfs : Option (Option Bytes))
  | check (env : RunnerCheck) (path : String) (file : Option Bytes)
  | start (spawns : Bool)

def RunnerSt.step (s : RunnerSt) : RunnerEvent → RunnerSt
  | .boot load rootfs => BabelService.boot load (rootfs.getD s.bin)
  | .check env path file => (env.checkJobRunner path file s).2
  | .start spawns => (BabelService.startJobRunner spawns s).2

def RunnerSt.run (s : RunnerSt) (events : List RunnerEvent) : RunnerSt := events.foldl step s

/-- Babel can read its job runner when it starts, and no check is given up after its first upload
did something. -/
def RunnerEvent.Finished (s : RunnerSt) : RunnerEvent → Prop
  | .boot load _ => load.reads.Whole
  | .check env path file => (∀ i, (env.uploads i).save.Roomy) ∧
      ((env.checkJobRunner path file s).1 = .ok () ∨ (env.checkJobRunner path file s).2 = s)
  | .start _ => True

def RunnerSt.AllFinished : RunnerSt → List RunnerEvent → Prop
  | _, [] => True
  | s, event :: events => event.Finished s ∧ AllFinished (s.step event) events

theorem sound_boot {load : LoadBinEnv} (hreads : load.reads.Whole) (bin : Option Bytes) : (BabelService.boot load bin).Sound := by
  intro checksum hlock
  show ∃ b, bin = some b ∧ _
  change (fileChecksum load bin).toOption = some checksum at hlock
  cases hf : fileChecksum load bin with
  | error err =>
    rw [hf] at hlock
    cases hlock
  | ok got =>
    rw [hf] at hlock
    cases hlock
    cases bin with
    | none => cases hf
    | some bin =>
      have hdigest := digest_of_fileChecksum hf
      rw [digest_eq, readFile_whole hreads] at hdigest
      exact ⟨bin, rfl, hdigest⟩

/-- What is started is the file, and only when the lock is set. -/
theorem startJobRunner_eq (spawns : Bool) (s : RunnerSt) :
    (BabelService.startJobRunner spawns s).2 = s ∧
      ∀ started, (BabelService.startJobRunner spawns s).1 = .ok started → s.bin = some started ∧ s.lock.isSome := by
  obtain ⟨bin, lock⟩ := s
  cases lock with
  | none => exact ⟨rfl, fun started h => by cases h⟩
  | some checksum =>
    cases bin with
    | none => exact ⟨rfl, fun started h => by cases h⟩
    | some bin =>
      cases spawns with
      | false => exact ⟨rfl, fun started h => by cases h⟩
      | true =>
        refine ⟨rfl, fun started h => ?_⟩
        cases h
        exact ⟨rfl, rfl⟩

theorem RunnerSt.Sound.step {s : RunnerSt} (h : s.Sound) {event : RunnerEvent} (hevent : event.Finished s) : (s.step event).Sound := by
  cases event with
  | boot load rootfs => exact sound_boot hevent _
  | start spawns =>
    show (BabelService.startJobRunner spawns s).2.Sound
    rw [(startJobRunner_eq spawns s).1]
    exact h
  | check env path file =>
    obtain ⟨hroomy, hok | hsame⟩ := hevent
    · show (env.checkJobRunner path file s).2.Sound
      have hchecked := checked hroomy path file s s rfl
      cases hr : env.checkJobRunner path file s with
      | mk r s' =>
        rw [hr] at hok hchecked
        cases hok
        obtain ⟨data, _, hhas | ⟨rfl, _⟩⟩ := hchecked
        · exact hhas.sound
        · exact h
    · show (env.checkJobRunner path file s).2.Sound
      rw [hsame]
      exact h

theorem RunnerSt.Sound.run {events : List RunnerEvent} {s : RunnerSt} (h : s.Sound) (hevents : s.AllFinished events) :
    (s.run events).Sound := by
  induction events generalizing s with
  | nil => exact h
  | cons event events ih => exact ih (h.step hevents.1) hevents.2

theorem uploadJobRunner_plain (content : Bytes) (s : RunnerSt) :
    BabelService.uploadJobRunner plainDisk ((binParts (readFile plainDisk.load.reads content)).map .ok) s =
      (.ok (), ⟨some content, some (crc32.checksum content)⟩) := by
  have hsave := saveBinStream_binParts plainDisk_clean plainDisk_roomy jobRunnerBinPath plainDisk.load.reads content s.bin
  rw [readFile_whole plainDisk_clean.reads] at hsave
  have hzoom : mapError (fun err => s!"upload_job_runner failed: {err}")
      (zoom (·.bin) (fun bin s => { s with bin })
        (saveBinStream plainDisk jobRunnerBinPath ((binParts (readFile plainDisk.load.reads content)).map .ok))) s =
      (.ok (crc32.checksum content), { s with bin := some content }) := by
    unfold mapError zoom
    rw [hsave]
  exact bind_of_ok hzoom

/-- A check in which nothing fails. -/
def plainCheck : RunnerCheck :=
  { load := plainDisk.load
    connects := true
    checks := fun _ => .answered
    uploads := fun _ => ⟨.answered, none, plainDisk⟩ }

theorem plainCheck_ok (path : String) (content : Bytes) (s : RunnerSt) :
    (plainCheck.checkJobRunner path (some content) s).1 = .ok () := by
  show (when (BabelService.runnerStatus s.lock (digest (readFile plainDisk.load.reads content)) ≠ .ok)
    (withRetry (plainCheck.tryUpload (binParts (readFile plainDisk.load.reads content)))) s).1 = .ok ()
  unfold Effect.when
  split
  · have hfirst : plainCheck.tryUpload (binParts (readFile plainDisk.load.reads content)) 0 s =
        (.ok (), ⟨some content, some (crc32.checksum content)⟩) := uploadJobRunner_plain content s
    exact congrArg Prod.fst (bind_of_ok (attempt_ok hfirst))
  · rfl

theorem plainCheck_eq (path : String) (content : Bytes) (s : RunnerSt) :
    plainCheck.checkJobRunner path (some content) s = (.ok (), (plainCheck.checkJobRunner path (some content) s).2) :=
  Prod.ext (plainCheck_ok path content s) rfl

/-- The daemon is updated after a first check. -/
def updated : RunnerSt :=
  (BabelService.boot plainDisk.load none).run [.check plainCheck "/opt/job_runner" (some [1, 2]), .start true]

/-- A daemon whose binary is `content`, and the jobs of the node. -/
def RunnerEvent.Later (content : Bytes) : RunnerEvent → Prop
  | .boot _ _ => False
  | .check env _ file => file = some content ∧ env.load.reads.Whole
  | .start _ => True

/-- A check that finds the checksum it looks for leaves everything as it is. -/
theorem check_unchanged {env : RunnerCheck} (hload : env.load.reads.Whole) (path : String) {content : Bytes} {s₀ : RunnerSt}
    (hlock : s₀.lock = some (crc32.checksum content)) :
    Triple (· = s₀) (env.checkJobRunner path (some content)) (fun _ => (· = s₀)) fun _ => (· = s₀) := by
  refine Triple.bind (R := fun loaded s => s = s₀ ∧ loadBin env.load path (some content) = .ok loaded)
    (Triple.ofExcept (fun loaded hload s hs => ⟨hs, hload⟩) fun _ _ _ hs => hs) ?_
  rintro ⟨bin, checksum⟩
  refine Triple.pre (Triple.assume fun hbin => ?_) fun s h => ⟨h.2, h.1⟩
  obtain ⟨data, hdata, rfl, rfl⟩ := loadBin_ok hbin
  cases hdata
  rw [digest_eq, readFile_whole hload]
  refine Triple.bind (R := fun _ => (· = s₀)) (Triple.when (fun _ => Triple.throw fun _ hs => hs) fun _ _ hs => hs) fun _ => ?_
  refine Triple.bind (status_checks env.checks _ s₀) fun status => ?_
  refine Triple.pre (Triple.assume (p := status = .ok) fun hok => Triple.when (fun hne => absurd hok hne) fun _ _ hs => hs) ?_
  rintro s ⟨hs, hstatus⟩
  exact ⟨hstatus.trans (runnerStatus_ok.mpr hlock), hs⟩

theorem RunnerSt.step_later {s : RunnerSt} {content : Bytes} (hlock : s.lock = some (crc32.checksum content)) {event : RunnerEvent}
    (hlater : event.Later content) : s.step event = s := by
  cases event with
  | boot load rootfs => exact hlater.elim
  | check env path file =>
    obtain ⟨rfl, hload⟩ := hlater
    exact (check_unchanged hload path hlock).run rfl
  | start spawns => exact (startJobRunner_eq spawns s).1

theorem RunnerSt.run_later {events : List RunnerEvent} {s : RunnerSt} {content : Bytes}
    (hlock : s.lock = some (crc32.checksum content)) (hlater : ∀ event ∈ events, event.Later content) : s.run events = s := by
  induction events with
  | nil => rfl
  | cons event events ih =>
    show (s.step event).run events = s
    rw [step_later hlock (hlater event List.mem_cons_self)]
    exact ih fun event' hevent => hlater event' (List.mem_cons_of_mem _ hevent)

/-- The first upload is done but not answered, and then the file cannot be opened again. -/
def givenUp : RunnerCheck :=
  { load := plainDisk.load
    connects := true
    checks := fun _ => .answered
    uploads := fun i =>
      match i with
      | 0 => ⟨.unanswered, none, plainDisk⟩
      | _ => ⟨.answered, none, { plainDisk with opens := false }⟩ }

/-- An upload that cannot open the file after it is removed. -/
theorem uploadJobRunner_unopened (stream : BinStream) (s : RunnerSt) :
    ∃ err, BabelService.uploadJobRunner { plainDisk with opens := false } stream s = (.error (.error err), { s with bin := none }) :=
  ⟨_, rfl⟩

theorem givenUp_left (path : String) {content : Bytes} {s : RunnerSt} (hlock : s.lock ≠ some (crc32.checksum content)) :
    ∃ err, givenUp.checkJobRunner path (some content) s = (.error (.error err), ⟨none, some (crc32.checksum content)⟩) := by
  have hsum : digest (readFile plainDisk.load.reads content) = crc32.checksum content := by
    rw [digest_eq, readFile_whole plainDisk_clean.reads]
  have hfirst : givenUp.tryUpload (binParts (readFile plainDisk.load.reads content)) 0 s =
      (.error (.error "transport error"), ⟨some content, some (crc32.checksum content)⟩) :=
    bind_of_ok (attempt_ok (uploadJobRunner_plain content s))
  have hrest : ∃ err, retryFrom (givenUp.tryUpload (binParts (readFile plainDisk.load.reads content))) 2 1
      ⟨some content, some (crc32.checksum content)⟩ = (.error (.error err), ⟨none, some (crc32.checksum content)⟩) := by
    refine retryFrom_error fun j hj t ht => ?_
    obtain ⟨k, rfl⟩ : ∃ k, j = k + 1 := ⟨j - 1, by omega⟩
    rcases ht with rfl | rfl
    · exact uploadJobRunner_unopened _ _
    · exact uploadJobRunner_unopened _ _
  obtain ⟨err, hrest⟩ := hrest
  have huploads : withRetry (givenUp.tryUpload (binParts (readFile plainDisk.load.reads content))) s =
      (.error (.error err), ⟨none, some (crc32.checksum content)⟩) := (bind_of_ok (attempt_error hfirst)).trans hrest
  have hstatus : BabelService.runnerStatus s.lock (digest (readFile plainDisk.load.reads content)) ≠ .ok := by
    rw [hsum]
    exact fun h => hlock (runnerStatus_ok.mp h)
  refine ⟨err, ?_⟩
  show when (BabelService.runnerStatus s.lock (digest (readFile plainDisk.load.reads content)) ≠ .ok) _ s = _
  rw [Effect.when, if_pos hstatus]
  exact huploads

end Blockvisor
