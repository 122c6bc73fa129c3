/-
The output of a job on its way to the log file (the `RunSh` branch of
`run_job`). Each stream of each process of the job has a reader, which puts
lines in a buffer (`LogBuffer::attach`); the handler of the log takes them out
and hands them to the file (`run_log_handler`), until the run flag is stopped.

The end of a job is not ordered with these: a job that is not restarted does
not wait for its readers, and its end stops the flag and with it the handler,
whatever is in the buffer (`output_lost`). All output is logged where a job
ends only when its readers are through and the buffer is empty
(`output_logged`).
-/
import Blockvisor.Babel.OneTime

namespace Blockvisor

open Machine

/-- What a process writes: a line, or text that is not UTF-8, at which a reader gives up. -/
inductive Emitted where
  | line (text : String)
  | invalid
  deriving DecidableEq

/-- One of the two streams of a process, with what was written to it, and its reader. It is closed
when no process is left that may write to it. -/
structure LogStream where
  written : List Emitted
  closed : Bool
  read : Nat
  done : Bool
  deriving DecidableEq

def LogStream.new : LogStream := ⟨[], false, 0, false⟩

/-- A line in the buffer: its stream and its place there are ghosts. -/
structure LogEntry where
  stream : Nat
  pos : Nat
  text : String
  deriving DecidableEq

/-- Where the job is: about to start a process, waiting for its end, waiting for the backoff, with a
process or without, or waiting for the readers. It is over with a status, or because it was stopped. -/
inductive JobLoop where
  | starting
  | running
  | deciding (attached : Bool) (exitCode : Option Int) (message : String)
  | draining
  | finished (status : JobStatus)
  | stopped
  deriving DecidableEq

/-- The job is over. -/
def JobLoop.over : JobLoop → Bool
  | .finished _ => true
  | .stopped => true
  | _ => false

inductive LogHandler where
  | checking
  | waiting
  | ended
  deriving DecidableEq

/-- `lagged` tells the handler that lines were overwritten. The lines sent and overwritten are ghosts. -/
structure LogSt where
  streams : List LogStream
  loop : JobLoop
  run : Bool
  buffer : List LogEntry
  lagged : Bool
  handler : LogHandler
  file : List LogEntry
  returned : Bool
  sent : List LogEntry
  overwritten : List LogEntry
  deriving DecidableEq

def LogSt.init : LogSt := ⟨[], .starting, true, [], false, .checking, [], false, [], []⟩

inductive LogAct where
  | spawn
  | spawnFailed (message : String)
  | write (stream : Nat) (output : Emitted)
  | close (stream : Nat)
  | read (stream : Nat) (now : String)
  | exited (exitCode : Option Int) (message : String)
  | stopped (exceeded : Bool)
  | drained
  | stopRun
  | kill
  | leave
  | check
  | receive
  | interrupt
  | join
  deriving DecidableEq

structure LoggedJob where
  restart : Engine.RestartPolicy
  logTimestamp : Bool

/-- The size of the buffer. -/
def logBufferSize : Nat := 1024

namespace LogSt

def setStream (s : LogSt) (i : Nat) (stream : LogStream) : LogSt := { s with streams := s.streams.set i stream }

/-- `tx.send`: a full buffer loses its oldest line. -/
def send (s : LogSt) (e : LogEntry) : LogSt :=
  if s.buffer.length < logBufferSize then { s with buffer := s.buffer ++ [e], sent := s.sent ++ [e] }
  else
    { s with
      buffer := s.buffer.tail ++ [e]
      lagged := true
      sent := s.sent ++ [e]
      overwritten := s.overwritten ++ s.buffer.head?.toList }

/-- The readers of the last process are through. -/
def Drained (s : LogSt) : Prop := ∀ stream ∈ s.streams.drop (s.streams.length - 2), stream.done = true

instance (s : LogSt) : Decidable s.Drained := inferInstanceAs (Decidable (∀ _ ∈ _, _))

end LogSt

namespace LoggedJob

variable (job : LoggedJob)

/-- A reader takes the next line of its stream, or comes to its end. -/
def readLine (s : LogSt) (i : Nat) (stream : LogStream) (now : String) : Option LogSt :=
  if stream.done then none
  else match stream.written[stream.read]? with
    | some (.line text) =>
      let text := if job.logTimestamp then now ++ "|" ++ text else text
      some ((s.setStream i { stream with read := stream.read + 1 }).send ⟨i, stream.read, text⟩)
    | some .invalid => some (s.setStream i { stream with done := true })
    | none => if stream.closed then some (s.setStream i { stream with done := true }) else none

def step (s : LogSt) : LogAct → Option LogSt
  | .spawn =>
    if s.loop = .starting ∧ s.run = true then
      some { s with streams := s.streams ++ [.new, .new], loop := .running }
    else none
  | .spawnFailed message =>
    if s.loop = .starting ∧ s.run = true then some { s with loop := .deciding false none message } else none
  | .write i output =>
    s.streams[i]?.bind fun stream =>
      if stream.closed = false ∧ s.returned = false then
        some (s.setStream i { stream with written := stream.written ++ [output] })
      else none
  | .close i => s.streams[i]?.map fun stream => s.setStream i { stream with closed := true }
  | .read i now => s.streams[i]?.bind fun stream => if s.returned then none else job.readLine s i stream now
  | .exited exitCode message => if s.loop = .running then some { s with loop := .deciding true exitCode message } else none
  | .stopped exceeded =>
    match s.loop with
    | .deciding attached exitCode message =>
      match jobStopped job.restart exitCode message exceeded with
      | .ok () => some { s with loop := if attached then .draining else .starting }
      -- the status is saved, and the flag stopped
      | .error status => some { s with loop := .finished status, run := false }
    | _ => none
  | .drained => if s.loop = .draining ∧ s.Drained then some { s with loop := .starting } else none
  | .stopRun => some { s with run := false }
  | .kill => if s.loop = .running ∧ s.run = false then some { s with loop := .draining } else none
  | .leave => if s.loop = .starting ∧ s.run = false then some { s with loop := .stopped } else none
  | .check =>
    if s.handler = .checking then some { s with handler := if s.run then .waiting else .ended } else none
  | .receive =>
    if s.handler = .waiting then
      -- what was overwritten is reported first
      if s.lagged then some { s with lagged := false, handler := .checking }
      else match s.buffer with
        | e :: rest => some { s with buffer := rest, file := s.file ++ [e], handler := .checking }
        | [] => none
    else none
  | .interrupt => if s.handler = .waiting ∧ s.run = false then some { s with handler := .checking } else none
  | .join =>
    if s.handler = .ended ∧ s.loop.over then some { s with returned := true } else none

/-- The backoff gives the job up, or its end needs no restart. -/
def ends (loop : JobLoop) (exceeded : Bool) : Bool :=
  match loop with
  | .deciding _ exitCode message => !(jobStopped job.restart exitCode message exceeded).isOk
  | _ => false

/-- No process writes what is not UTF-8; and where the job is over for good, the readers of its
last process are through and the handler has taken every line out of the buffer. -/
def Quiet (s : LogSt) : LogAct → Prop
  | .write _ output => output ≠ .invalid
  | .stopped exceeded => job.ends s.loop exceeded = true → s.buffer = [] ∧ s.Drained
  | _ => True

instance (s : LogSt) : (a : LogAct) → Decidable (job.Quiet s a)
  | .write _ _ => inferInstanceAs (Decidable (_ ≠ _))
  | .stopped _ => inferInstanceAs (Decidable (_ → _))
  | .spawn | .spawnFailed _ | .close _ | .read _ _ | .exited _ _ | .drained | .stopRun | .kill | .leave | .check
  | .receive | .interrupt | .join => inferInstanceAs (Decidable True)

end LoggedJob

/-- Every line written is in the file, or was overwritten; those in the file are what was written,
in the order of their streams. -/
structure LogSt.Delivered (s : LogSt) : Prop where
  all : ∀ i stream, s.streams[i]? = some stream → ∀ k < stream.written.length,
    ∃ e ∈ s.file ++ s.overwritten, e.stream = i ∧ e.pos = k
  ordered : ∀ i, ((s.file.filter (·.stream = i)).map (·.pos)).Pairwise (· < ·)
  faithful : ∀ e ∈ s.file, ∃ stream text, s.streams[e.stream]? = some stream ∧
    stream.written[e.pos]? = some (.line text) ∧ (e.text = text ∨ ∃ now, e.text = now ++ "|" ++ text)

/-! ## What the steps keep -/

/-- A stream of which everything read was sent, and everything is read by its reader's end. -/
structure StreamOk (s : LogSt) (i : Nat) (stream : LogStream) : Prop where
  sent : (s.sent.filter (·.stream = i)).map (·.pos) = List.range stream.read
  read : stream.read ≤ stream.written.length
  lines : ∀ output ∈ stream.written, output ≠ .invalid
  done : stream.done = true → stream.closed = true ∧ stream.read = stream.written.length

/-- The readers of the first streams are through. -/
def DoneBelow (s : LogSt) (k : Nat) : Prop := ∀ j < k, ∀ stream, s.streams[j]? = some stream → stream.done = true

/-- Which readers are through where the job is. -/
def Settled (s : LogSt) : JobLoop → Prop
  | .starting => DoneBelow s s.streams.length
  | .running => DoneBelow s (s.streams.length - 2)
  | .deciding false _ _ => DoneBelow s s.streams.length
  | .deciding true _ _ => DoneBelow s (s.streams.length - 2)
  | .draining => DoneBelow s (s.streams.length - 2)
  | .finished _ => DoneBelow s s.streams.length ∧ s.buffer = []
  | .stopped => True

/-- What was sent is the line it was read from. -/
def LogSt.Genuine (s : LogSt) (e : LogEntry) : Prop :=
  ∃ stream text, s.streams[e.stream]? = some stream ∧ stream.written[e.pos]? = some (.line text) ∧
    (e.text = text ∨ ∃ now, e.text = now ++ "|" ++ text)

structure LogInv (s : LogSt) : Prop where
  streams : ∀ i stream, s.streams[i]? = some stream → StreamOk s i stream
  genuine : ∀ e ∈ s.sent, s.Genuine e
  order : (s.file ++ s.buffer).Sublist s.sent
  kept : ∀ e ∈ s.sent, e ∈ s.file ∨ e ∈ s.overwritten ∨ e ∈ s.buffer
  settled : Settled s s.loop

theorem logInv_init : LogInv .init where
  streams := fun i stream h => by simp [LogSt.init] at h
  genuine := fun e he => (by cases he)
  order := List.Sublist.refl _
  kept := fun e he => (by cases he)
  settled := fun j hj => (by cases hj)

section

variable {s t : LogSt} {i j : Nat} {old new : LogStream} {e : LogEntry}

theorem Settled.mono {loop : JobLoop} (h : Settled s loop) (hlength : t.streams.length = s.streams.length)
    (hdone : ∀ k, DoneBelow s k → DoneBelow t k) (hbuffer : ∀ status, loop = .finished status → t.buffer = []) :
    Settled t loop := by
  have hall : DoneBelow s s.streams.length → DoneBelow t t.streams.length := by
    rw [hlength]
    exact hdone _
  have hrest : DoneBelow s (s.streams.length - 2) → DoneBelow t (t.streams.length - 2) := by
    rw [hlength]
    exact hdone _
  cases loop with
  | starting => exact hall h
  | running => exact hrest h
  | deciding attached exitCode message =>
    cases attached with
    | false => exact hall h
    | true => exact hrest h
  | draining => exact hrest h
  | finished status => exact ⟨hall h.1, hbuffer status rfl⟩
  | stopped => trivial

theorem getElem?_setStream (hi : s.streams[i]? = some old) (j : Nat) :
    (s.setStream i new).streams[j]? = if i = j then some new else s.streams[j]? := by
  obtain ⟨hlt, -⟩ := List.getElem?_eq_some_iff.mp hi
  show (s.streams.set i new)[j]? = _
  rw [List.getElem?_set, if_pos hlt]

theorem doneBelow_setStream (hi : s.streams[i]? = some old) (hdone : old.done = true → new.done = true) {k : Nat}
    (h : DoneBelow s k) : DoneBelow (s.setStream i new) k := by
  intro j hj stream hstream
  rw [getElem?_setStream hi] at hstream
  by_cases hij : i = j
  · rw [if_pos hij] at hstream
    cases hstream
    exact hdone (h j hj old (hij ▸ hi))
  · rw [if_neg hij] at hstream
    exact h j hj stream hstream

theorem genuine_setStream (hi : s.streams[i]? = some old) (hwritten : old.written <+: new.written) (h : s.Genuine e) :
    (s.setStream i new).Genuine e := by
  obtain ⟨stream, text, hstream, hline, htext⟩ := h
  unfold LogSt.Genuine
  rw [getElem?_setStream hi]
  by_cases hij : i = e.stream
  · rw [if_pos hij]
    rw [← hij, hi] at hstream
    cases hstream
    obtain ⟨more, hmore⟩ := hwritten
    refine ⟨new, text, rfl, ?_, htext⟩
    obtain ⟨hlt, -⟩ := List.getElem?_eq_some_iff.mp hline
    rw [← hmore, List.getElem?_append_left hlt, hline]
  · rw [if_neg hij]
    exact ⟨stream, text, hstream, hline, htext⟩

/-- A step that only changes one stream, of which nothing is taken back. -/
theorem LogInv.setStream (h : LogInv s) (hi : s.streams[i]? = some old) (hok : StreamOk s i new)
    (hwritten : old.written <+: new.written) (hdone : old.done = true → new.done = true) : LogInv (s.setStream i new) where
  streams := by
    intro j stream hstream
    rw [getElem?_setStream hi] at hstream
    by_cases hij : i = j
    · rw [if_pos hij] at hstream
      cases hstream
      subst hij
      exact ⟨hok.sent, hok.read, hok.lines, hok.done⟩
    · rw [if_neg hij] at hstream
      have hold := h.streams j stream hstream
      exact ⟨hold.sent, hold.read, hold.lines, hold.done⟩
  genuine := fun e he => genuine_setStream hi hwritten (h.genuine e he)
  order := h.order
  kept := h.kept
  settled := h.settled.mono (List.length_set ..) (fun k => doneBelow_setStream hi hdone)
    fun status hloop => by
      have hsettled := h.settled
      rw [hloop] at hsettled
      exact hsettled.2

/-- A step of the job, or of the handler, that leaves the lines alone. -/
theorem LogInv.goTo (h : LogInv s) {l : JobLoop} {run : Bool} {handler : LogHandler} {returned : Bool}
    (hsettled : Settled s l) : LogInv { s with loop := l, run, handler, returned } where
  streams := fun i stream hi => ⟨(h.streams i stream hi).sent, (h.streams i stream hi).read, (h.streams i stream hi).lines,
    (h.streams i stream hi).done⟩
  genuine := h.genuine
  order := h.order
  kept := h.kept
  settled := hsettled.mono rfl (fun _ hk => hk) fun status hloop => by
    rw [hloop] at hsettled
    exact hsettled.2

theorem LogInv.open (h : LogInv s) (hi : s.streams[i]? = some old) (hopen : old.done = false) :
    ∀ status, s.loop ≠ .finished status := by
  intro status hloop
  have hsettled := h.settled
  rw [hloop] at hsettled
  have hdone := hsettled.1 i (List.getElem?_eq_some_iff.mp hi).1 old hi
  rw [hopen] at hdone
  cases hdone

theorem LogInv.write (h : LogInv s) (hi : s.streams[i]? = some old) (hopen : old.closed = false) {output : Emitted}
    (hline : output ≠ .invalid) : LogInv (s.setStream i { old with written := old.written ++ [output] }) := by
  have hold := h.streams i old hi
  refine h.setStream hi ⟨hold.sent, ?_, ?_, fun hdone => ?_⟩ (List.prefix_append ..) fun hdone => hdone
  · have hread := hold.read
    simp only [List.length_append, List.length_singleton]
    omega
  · intro out hout
    obtain hout | hout := List.mem_append.mp hout
    · exact hold.lines out hout
    · rw [List.mem_singleton.mp hout]
      exact hline
  · have hclosed := (hold.done hdone).1
    rw [hopen] at hclosed
    cases hclosed

theorem LogInv.close (h : LogInv s) (hi : s.streams[i]? = some old) : LogInv (s.setStream i { old with closed := true }) := by
  have hold := h.streams i old hi
  exact h.setStream hi ⟨hold.sent, hold.read, hold.lines, fun hdone => ⟨rfl, (hold.done hdone).2⟩⟩ List.prefix_rfl
    fun hdone => hdone

/-- A reader comes to the end of its stream. -/
theorem LogInv.readEnd (h : LogInv s) (hi : s.streams[i]? = some old) (hclosed : old.closed = true)
    (hend : old.written[old.read]? = none) : LogInv (s.setStream i { old with done := true }) := by
  have hold := h.streams i old hi
  have hread := hold.read
  have hlength := List.getElem?_eq_none_iff.mp hend
  exact h.setStream hi ⟨hold.sent, hread, hold.lines, fun _ => ⟨hclosed, Nat.le_antisymm hread hlength⟩⟩ List.prefix_rfl
    fun _ => rfl

/-- What a send makes of the buffer. -/
theorem send_spec (s : LogSt) (e : LogEntry) :
    ∃ front rest, s.buffer = front ++ rest ∧ (s.send e).buffer = rest ++ [e] ∧
      (s.send e).overwritten = s.overwritten ++ front ∧ (s.send e).sent = s.sent ++ [e] ∧
      (s.send e).streams = s.streams ∧ (s.send e).loop = s.loop ∧ (s.send e).file = s.file := by
  unfold LogSt.send
  by_cases hroom : s.buffer.length < logBufferSize
  · rw [if_pos hroom]
    exact ⟨[], s.buffer, rfl, rfl, (List.append_nil _).symm, rfl, rfl, rfl, rfl⟩
  · rw [if_neg hroom]
    refine ⟨s.buffer.head?.toList, s.buffer.tail, ?_, rfl, rfl, rfl, rfl, rfl, rfl⟩
    cases s.buffer with
    | nil => rfl
    | cons first rest => rfl

/-- A reader puts a line in the buffer. -/
theorem LogInv.readLine (h : LogInv s) (hi : s.streams[i]? = some old) (hopen : old.done = false) {text sent : String}
    (hline : old.written[old.read]? = some (.line text)) (hsent : sent = text ∨ ∃ now, sent = now ++ "|" ++ text) :
    LogInv ((s.setStream i { old with read := old.read + 1 }).send ⟨i, old.read, sent⟩) := by
  have hold := h.streams i old hi
  have hnotfinished := h.open hi hopen
  obtain ⟨hlt, -⟩ := List.getElem?_eq_some_iff.mp hline
  obtain ⟨front, rest, hbuffer, hbuffer', hover, hsent', hstreams, hloop, hfile⟩ :=
    send_spec (s.setStream i { old with read := old.read + 1 }) ⟨i, old.read, sent⟩
  generalize (s.setStream i { old with read := old.read + 1 }).send ⟨i, old.read, sent⟩ = t at *
  change s.buffer = _ at hbuffer
  change t.overwritten = s.overwritten ++ front at hover
  change t.sent = s.sent ++ _ at hsent'
  change t.loop = s.loop at hloop
  change t.file = s.file at hfile
  have hget : ∀ j, t.streams[j]? = if i = j then some { old with read := old.read + 1 } else s.streams[j]? := by
    intro j
    rw [hstreams]
    exact getElem?_setStream hi j
  have hgenuine : ∀ e, s.Genuine e → t.Genuine e := by
    intro e he
    have hset : (s.setStream i { old with read := old.read + 1 }).Genuine e := genuine_setStream hi List.prefix_rfl he
    unfold LogSt.Genuine at hset ⊢
    rw [hstreams]
    exact hset
  constructor
  · intro j stream hstream
    rw [hget] at hstream
    by_cases hij : i = j
    · rw [if_pos hij] at hstream
      cases hstream
      subst hij
      refine ⟨?_, hlt, hold.lines, fun hdone => ?_⟩
      · rw [hsent', List.filter_append, List.map_append, hold.sent, List.range_succ]
        simp
      · rw [hopen] at hdone
        cases hdone
    · rw [if_neg hij] at hstream
      have hother := h.streams j stream hstream
      refine ⟨?_, hother.read, hother.lines, hother.done⟩
      rw [hsent', List.filter_append, List.map_append, hother.sent]
      simp [hij]
  · intro e he
    rw [hsent'] at he
    obtain he | he := List.mem_append.mp he
    · exact hgenuine e (h.genuine e he)
    · rw [List.mem_singleton.mp he]
      refine ⟨{ old with read := old.read + 1 }, text, ?_, hline, hsent⟩
      show t.streams[i]? = _
      rw [hget, if_pos rfl]
  · rw [hfile, hbuffer', hsent', ← List.append_assoc]
    refine List.Sublist.append ?_ (List.Sublist.refl _)
    refine List.Sublist.trans ?_ h.order
    rw [hbuffer]
    exact List.Sublist.append (List.Sublist.refl _) (List.sublist_append_right ..)
  · intro e he
    rw [hsent'] at he
    rw [hfile, hover, hbuffer']
    obtain he | he := List.mem_append.mp he
    · obtain hkept | hkept | hkept := h.kept e he
      · exact .inl hkept
      · exact .inr (.inl (List.mem_append_left _ hkept))
      · rw [hbuffer] at hkept
        obtain hkept | hkept := List.mem_append.mp hkept
        · exact .inr (.inl (List.mem_append_right _ hkept))
        · exact .inr (.inr (List.mem_append_left _ hkept))
    · exact .inr (.inr (List.mem_append_right _ he))
  · rw [hloop]
    refine h.settled.mono (by rw [hstreams]; exact List.length_set ..) (fun k hk j hj stream hstream => ?_)
      fun status hfinished => absurd hfinished (hnotfinished status)
    rw [hstreams] at hstream
    have hbelow : DoneBelow (s.setStream i { old with read := old.read + 1 }) k := by
      refine doneBelow_setStream hi ?_ hk
      exact fun hdone => hdone
    exact hbelow j hj stream hstream

/-- A process starts, with two streams that nothing was sent of. -/
theorem LogInv.spawn (h : LogInv s) (hall : DoneBelow s s.streams.length) :
    LogInv { s with streams := s.streams ++ [.new, .new], loop := .running } := by
  have hget : ∀ j stream, (s.streams ++ [.new, .new])[j]? = some stream →
      s.streams[j]? = some stream ∨ (s.streams.length ≤ j ∧ stream = .new) := by
    intro j stream hstream
    rw [List.getElem?_append] at hstream
    by_cases hj : j < s.streams.length
    · rw [if_pos hj] at hstream
      exact .inl hstream
    · rw [if_neg hj] at hstream
      right
      refine ⟨Nat.not_lt.mp hj, ?_⟩
      have hmem := List.mem_of_getElem? hstream
      simpa using hmem
  constructor
  · intro j stream hstream
    obtain hold | ⟨hj, rfl⟩ := hget j stream hstream
    · have hok := h.streams j stream hold
      exact ⟨hok.sent, hok.read, hok.lines, hok.done⟩
    · refine ⟨?_, Nat.le_refl 0, fun out hout => (by cases hout), fun hdone => (by cases hdone)⟩
      have hnone : s.sent.filter (·.stream = j) = [] := by
        refine List.filter_eq_nil_iff.mpr fun e he => ?_
        obtain ⟨stream, text, hstream, -⟩ := h.genuine e he
        have hlt := (List.getElem?_eq_some_iff.mp hstream).1
        simp
        omega
      show (s.sent.filter (·.stream = j)).map (·.pos) = []
      rw [hnone]
      rfl
  · intro e he
    obtain ⟨stream, text, hstream, hline, htext⟩ := h.genuine e he
    refine ⟨stream, text, ?_, hline, htext⟩
    show (s.streams ++ _)[e.stream]? = _
    rw [List.getElem?_append_left (List.getElem?_eq_some_iff.mp hstream).1, hstream]
  · exact h.order
  · exact h.kept
  · intro j hj stream hstream
    have hlength : (s.streams ++ [LogStream.new, LogStream.new]).length = s.streams.length + 2 := List.length_append
    change j < (s.streams ++ [LogStream.new, LogStream.new]).length - 2 at hj
    obtain hold | ⟨hle, -⟩ := hget j stream hstream
    · exact hall j (by omega) stream hold
    · omega

/-- The handler takes a line out. -/
theorem LogInv.receive (h : LogInv s) {rest : List LogEntry} (hbuffer : s.buffer = e :: rest) :
    LogInv { s with buffer := rest, file := s.file ++ [e], handler := .checking } where
  streams := fun i stream hi => ⟨(h.streams i stream hi).sent, (h.streams i stream hi).read, (h.streams i stream hi).lines,
    (h.streams i stream hi).done⟩
  genuine := h.genuine
  order := by
    have horder := h.order
    rw [hbuffer] at horder
    show (s.file ++ [e] ++ rest).Sublist s.sent
    rw [List.append_assoc]
    exact horder
  kept := by
    intro x hx
    obtain hkept | hkept | hkept := h.kept x hx
    · exact .inl (List.mem_append_left _ hkept)
    · exact .inr (.inl hkept)
    · rw [hbuffer] at hkept
      obtain rfl | hkept := List.mem_cons.mp hkept
      · exact .inl (List.mem_append_right _ (List.mem_singleton_self x))
      · exact .inr (.inr hkept)
  settled := h.settled.mono rfl (fun _ hk => hk) fun status hloop => by
    have hsettled := h.settled
    rw [hloop] at hsettled
    rw [hsettled.2] at hbuffer
    cases hbuffer

theorem LogInv.lagged (h : LogInv s) : LogInv { s with lagged := false, handler := .checking } where
  streams := fun i stream hi => ⟨(h.streams i stream hi).sent, (h.streams i stream hi).read, (h.streams i stream hi).lines,
    (h.streams i stream hi).done⟩
  genuine := h.genuine
  order := h.order
  kept := h.kept
  settled := h.settled.mono rfl (fun _ hk => hk) fun status hloop => by
    have hsettled := h.settled
    rw [hloop] at hsettled
    exact hsettled.2

/-- With the readers of the last process all are through. -/
theorem DoneBelow.drained (h : DoneBelow s (s.streams.length - 2)) (hdrained : s.Drained) : DoneBelow s s.streams.length := by
  intro j hj stream hstream
  by_cases hbefore : j < s.streams.length - 2
  · exact h j hbefore stream hstream
  · refine hdrained stream (List.mem_of_getElem? (i := j - (s.streams.length - 2)) ?_)
    rw [List.getElem?_drop, Nat.add_sub_of_le (Nat.not_lt.mp hbefore)]
    exact hstream

variable {job : LoggedJob} {a : LogAct}

/-- The job is over, or goes on. -/
theorem LogInv.stopped (h : LogInv s) {exceeded : Bool} (hquiet : job.Quiet s (.stopped exceeded))
    (hs : job.step s (.stopped exceeded) = some t) : LogInv t := by
  simp only [LoggedJob.step] at hs
  cases hloop : s.loop with
  | deciding attached exitCode message =>
    have hsettled := h.settled
    rw [hloop] at hs hsettled
    cases hjob : jobStopped job.restart exitCode message exceeded with
    | ok u =>
      simp only [hjob, Option.some.injEq] at hs
      subst hs
      cases attached with
      | false => exact h.goTo hsettled
      | true => exact h.goTo hsettled
    | error status =>
      simp only [hjob, Option.some.injEq] at hs
      subst hs
      have hends : job.ends s.loop exceeded = true := by
        rw [hloop]
        simp [LoggedJob.ends, hjob, Except.isOk, Except.toBool]
      obtain ⟨hbuffer, hdrained⟩ := hquiet hends
      cases attached with
      | false => exact h.goTo (l := .finished status) ⟨hsettled, hbuffer⟩
      | true => exact h.goTo (l := .finished status) ⟨DoneBelow.drained hsettled hdrained, hbuffer⟩
  | starting => rw [hloop] at hs; cases hs
  | running => rw [hloop] at hs; cases hs
  | draining => rw [hloop] at hs; cases hs
  | finished status => rw [hloop] at hs; cases hs
  | stopped => rw [hloop] at hs; cases hs

theorem LogInv.read (h : LogInv s) {now : String} (hs : job.step s (.read i now) = some t) : LogInv t := by
  obtain ⟨old, hi, hread⟩ := Option.bind_eq_some_iff.mp hs
  by_cases hreturned : s.returned = true
  · rw [if_pos hreturned] at hread
    cases hread
  rw [if_neg hreturned] at hread
  unfold LoggedJob.readLine at hread
  by_cases hdone : old.done = true
  · rw [if_pos hdone] at hread
    cases hread
  rw [if_neg hdone] at hread
  have hopen : old.done = false := by simpa using hdone
  cases hnext : old.written[old.read]? with
  | none =>
    rw [hnext] at hread
    obtain ⟨hclosed, heq⟩ := Option.ite_none_right_eq_some.mp hread
    cases heq
    exact h.readEnd hi hclosed hnext
  | some output =>
    rw [hnext] at hread
    cases output with
    | line text =>
      cases hread
      refine h.readLine hi hopen hnext ?_
      split
      · exact .inr ⟨now, rfl⟩
      · exact .inl rfl
    | invalid => exact absurd rfl ((h.streams i old hi).lines _ (List.mem_of_getElem? hnext))

theorem LogInv.step (h : LogInv s) (hquiet : job.Quiet s a) (hs : job.step s a = some t) : LogInv t := by
  cases a with
  | spawn =>
    obtain ⟨⟨hloop, -⟩, heq⟩ := Option.ite_none_right_eq_some.mp hs
    cases heq
    have hsettled := h.settled
    rw [hloop] at hsettled
    exact h.spawn hsettled
  | spawnFailed message =>
    obtain ⟨⟨hloop, -⟩, heq⟩ := Option.ite_none_right_eq_some.mp hs
    cases heq
    have hsettled := h.settled
    rw [hloop] at hsettled
    exact h.goTo (l := .deciding false none message) hsettled
  | write i output =>
    obtain ⟨old, hi, hwrite⟩ := Option.bind_eq_some_iff.mp hs
    obtain ⟨⟨hopen, -⟩, heq⟩ := Option.ite_none_right_eq_some.mp hwrite
    cases heq
    exact h.write hi hopen hquiet
  | close i =>
    obtain ⟨old, hi, heq⟩ := Option.map_eq_some_iff.mp hs
    cases heq
    exact h.close hi
  | read i now => exact h.read hs
  | exited exitCode message =>
    obtain ⟨hloop, heq⟩ := Option.ite_none_right_eq_some.mp hs
    cases heq
    have hsettled := h.settled
    rw [hloop] at hsettled
    exact h.goTo (l := .deciding true exitCode message) hsettled
  | stopped exceeded => exact h.stopped hquiet hs
  | drained =>
    obtain ⟨⟨hloop, hdrained⟩, heq⟩ := Option.ite_none_right_eq_some.mp hs
    cases heq
    have hsettled := h.settled
    rw [hloop] at hsettled
    exact h.goTo (l := .starting) (DoneBelow.drained hsettled hdrained)
  | stopRun =>
    cases hs
    exact h.goTo h.settled
  | kill =>
    obtain ⟨⟨hloop, -⟩, heq⟩ := Option.ite_none_right_eq_some.mp hs
    cases heq
    have hsettled := h.settled
    rw [hloop] at hsettled
    exact h.goTo (l := .draining) hsettled
  | leave =>
    obtain ⟨-, heq⟩ := Option.ite_none_right_eq_some.mp hs
    cases heq
    exact h.goTo (l := .stopped) trivial
  | check =>
    obtain ⟨-, heq⟩ := Option.ite_none_right_eq_some.mp hs
    cases heq
    exact h.goTo h.settled
  | receive =>
    obtain ⟨-, hreceive⟩ := Option.ite_none_right_eq_some.mp hs
    by_cases hlagged : s.lagged = true
    · rw [if_pos hlagged] at hreceive
      cases hreceive
      exact h.lagged
    rw [if_neg hlagged] at hreceive
    cases hbuffer : s.buffer with
    | nil =>
      rw [hbuffer] at hreceive
      cases hreceive
    | cons e rest =>
      rw [hbuffer] at hreceive
      cases hreceive
      exact h.receive hbuffer
  | interrupt =>
    obtain ⟨-, heq⟩ := Option.ite_none_right_eq_some.mp hs
    cases heq
    exact h.goTo h.settled
  | join =>
    obtain ⟨-, heq⟩ := Option.ite_none_right_eq_some.mp hs
    cases heq
    exact h.goTo h.settled

/-- With all readers through and nothing in the buffer, everything is in the file or overwritten. -/
theorem LogInv.delivered (h : LogInv s) (hall : DoneBelow s s.streams.length) (hbuffer : s.buffer = []) : s.Delivered where
  all := by
    intro i stream hi k hk
    have hok := h.streams i stream hi
    have hdone := (hok.done (hall i (List.getElem?_eq_some_iff.mp hi).1 stream hi)).2
    have hmem : k ∈ (s.sent.filter (·.stream = i)).map (·.pos) := by
      rw [hok.sent, hdone]
      exact List.mem_range.mpr hk
    obtain ⟨e, he, hpos⟩ := List.mem_map.mp hmem
    obtain ⟨hsent, hstream⟩ := List.mem_filter.mp he
    refine ⟨e, ?_, by simpa using hstream, hpos⟩
    obtain hkept | hkept | hkept := h.kept e hsent
    · exact List.mem_append_left _ hkept
    · exact List.mem_append_right _ hkept
    · rw [hbuffer] at hkept
      cases hkept
  ordered := by
    intro i
    have hsub : s.file.Sublist s.sent := (List.sublist_append_left ..).trans h.order
    have hpos := (hsub.filter (·.stream = i)).map (·.pos)
    by_cases hi : i < s.streams.length
    · have hget := List.getElem?_eq_getElem hi
      rw [(h.streams i _ hget).sent] at hpos
      exact List.pairwise_lt_range.sublist hpos
    · have hnone : s.sent.filter (·.stream = i) = [] := by
        refine List.filter_eq_nil_iff.mpr fun e he => ?_
        obtain ⟨stream, text, hstream, -⟩ := h.genuine e he
        have hlt := (List.getElem?_eq_some_iff.mp hstream).1
        simp
        omega
      rw [hnone] at hpos
      rw [List.sublist_nil.mp hpos]
      exact List.Pairwise.nil
  faithful := by
    intro e he
    have hsub : s.file.Sublist s.sent := (List.sublist_append_left ..).trans h.order
    exact h.genuine e (hsub.subset he)

end

/-! ## The end of a job -/

/-- **All output is logged**: where no process writes what is not UTF-8, and the job ends for good
only with its readers through and the buffer empty, a job that has finished by itself has every
line it wrote in its log file, but those that were overwritten. -/
theorem output_logged {job : LoggedJob} {acts : List LogAct} {s : LogSt} (hrun : run job.step .init acts = some s)
    (hquiet : Along job.step job.Quiet .init acts) {status : JobStatus} (hfinished : s.loop = .finished status) : s.Delivered := by
  have hinv := run_invariant job.step (fun s a t h hok hs => LogInv.step h hok hs) logInv_init hquiet hrun
  have hsettled := hinv.settled
  rw [hfinished] at hsettled
  exact hinv.delivered hsettled.1 hsettled.2

/-- A job that is not restarted. -/
def oneRun : LoggedJob := ⟨.never, false⟩

/-- A process writes a line and fails, and its readers and the handler are in time. -/
def promptLog : List LogAct :=
  [.check, .spawn, .write 1 (.line "panic"), .read 1 "", .receive, .close 0, .close 1, .read 0 "", .read 1 "", .exited (some 1) "failed",
    .stopped false, .check, .join]

theorem output_logged_prompt : ∃ s, run oneRun.step .init promptLog = some s ∧ s.returned = true ∧ s.Delivered :=
  ⟨_, rfl, rfl, output_logged (show run oneRun.step .init promptLog = some _ from rfl) (by decide) rfl⟩

/-- A process writes a line and fails, and the job is over before its reader is scheduled. -/
def hastyEnd : List LogAct :=
  [.check, .spawn, .write 1 (.line "panic"), .close 0, .close 1, .exited (some 1) "failed", .stopped false, .interrupt, .check, .join]

/-- The line that says why it failed is not in the file. -/
theorem output_lost : ¬ ∀ (job : LoggedJob) (acts : List LogAct) (s : LogSt) (status : JobStatus),
    run job.step .init acts = some s → s.loop = .finished status → s.returned = true → s.Delivered := by
  intro h
  have hdelivered := h oneRun hastyEnd _ (.finished (some 1) "failed") rfl rfl rfl
  obtain ⟨e, he, -⟩ := hdelivered.all 1 _ rfl 0 (by decide)
  cases he

end Blockvisor
