/-
The scheduler of plugin functions (`scheduler.rs`): a worker that holds tasks,
takes actions on them from a channel, and wakes up when the next occurrence of
one of them is due. `pass` is what it does each time it wakes up, `handleAction`
what it does with an action. A task is known by its name, whatever node it is
of: an action of one node can take away a task of another one.

Each entry has the number of the action that has added it, and `handled` keeps
the occurrences handed to the handler by that number. Both are ghosts.
-/
import Mathlib.Data.List.Nodup
import Mathlib.Order.Basic
import Blockvisor.Lib.Machine

namespace Blockvisor

/-- A cron schedule: its occurrences, and the first one strictly after a time. -/
structure Schedule where
  occurs : Nat → Bool
  next : Nat → Option Nat
  next_some : ∀ t u, next t = some u → t < u ∧ occurs u ∧ ∀ v, t < v → v < u → occurs v = false
  next_none : ∀ t, next t = none → ∀ v, t < v → occurs v = false

namespace Scheduler

structure Task where
  name : String
  param : String

structure Scheduled where
  nodeId : String
  name : String
  schedule : Schedule
  task : Task

inductive Action where
  | add (task : Scheduled)
  | delete (name : String)
  | deleteNode (id : String)

structure Entry where
  timestamp : Nat
  task : Scheduled
  number : Nat

/-- An occurrence of a task that was handed to the handler, and when. -/
structure Fired where
  number : Nat
  task : Scheduled
  occurrence : Nat
  at_ : Nat

structure Worker where
  tasks : List Entry
  taken : Nat
  handled : List Fired

namespace Worker

/-- The occurrences after the timestamp that are due, and how long it is to the next one. -/
def due (s : Schedule) (now : Nat) : Nat → Nat → List Nat × Option Nat
  | 0, _ => ([], none)
  | fuel + 1, timestamp =>
    match s.next timestamp with
    | none => ([], none)
    | some next =>
      if now < next then ([], some (next - now))
      else
        let (rest, ttn) := due s now fuel next
        (next :: rest, ttn)

def dueOf (e : Entry) (now : Nat) : List Nat × Option Nat := due e.task.schedule now (now - e.timestamp + 1) e.timestamp

/-- A pass over the tasks: those with an occurrence to come remain, seen up to now. -/
def pass (w : Worker) (now : Nat) : Worker :=
  { w with
    tasks := w.tasks.filterMap fun e => (dueOf e now).2.map fun _ => { e with timestamp := now }
    handled := w.handled ++ w.tasks.flatMap fun e => (dueOf e now).1.map fun o => ⟨e.number, e.task, o, now⟩ }

/-- `handle_action`, at the time the action is taken from the channel. -/
def handleAction (w : Worker) (at_ : Nat) : Action → Worker
  | .add task =>
    { w with
      tasks := w.tasks.filter (·.task.name ≠ task.name) ++ [⟨at_, task, w.taken⟩]
      taken := w.taken + 1 }
  | .delete name => { w with tasks := w.tasks.filter (·.task.name ≠ name), taken := w.taken + 1 }
  | .deleteNode id => { w with tasks := w.tasks.filter (·.task.nodeId ≠ id), taken := w.taken + 1 }

end Worker

/-- The worker wakes up, or takes an action. -/
inductive Event where
  | pass (now : Nat)
  | take (at_ : Nat) (action : Action)

def Event.time : Event → Nat
  | .pass now => now
  | .take at_ _ => at_

def step (w : Worker) : Event → Worker
  | .pass now => w.pass now
  | .take at_ action => w.handleAction at_ action

def run (w : Worker) (events : List Event) : Worker := events.foldl step w

/-- `Scheduler::start`. -/
def start (now : Nat) (tasks : List Scheduled) : Worker :=
  ⟨tasks.zipIdx.map fun (task, i) => ⟨now, task, i⟩, tasks.length, []⟩

/-! ## A pass -/

theorem due_mem {s : Schedule} {now : Nat} : ∀ {fuel timestamp : Nat}, now - timestamp < fuel → ∀ o,
    o ∈ (Worker.due s now fuel timestamp).1 ↔ timestamp < o ∧ o ≤ now ∧ s.occurs o := by
  intro fuel
  induction fuel with
  | zero =>
    intro timestamp hfuel
    omega
  | succ fuel ih =>
    intro timestamp hfuel o
    unfold Worker.due
    cases hnext : s.next timestamp with
    | none =>
      have hnone := s.next_none timestamp hnext o
      simp only [List.not_mem_nil, false_iff]
      rintro ⟨hlt, -, ho⟩
      simp [hnone hlt] at ho
    | some next =>
      obtain ⟨hlater, hoccurs, hgap⟩ := s.next_some timestamp next hnext
      dsimp only
      split
      · rename_i hnow
        simp only [List.not_mem_nil, false_iff]
        rintro ⟨hlt, hle, ho⟩
        simp [hgap o hlt (by omega)] at ho
      · rename_i hnow
        simp only [List.mem_cons, @ih next (by omega) o]
        constructor
        · rintro (rfl | ⟨hlt, hle, ho⟩)
          · exact ⟨hlater, by omega, hoccurs⟩
          · exact ⟨by omega, hle, ho⟩
        · rintro ⟨hlt, hle, ho⟩
          by_cases hsame : o = next
          · exact .inl hsame
          · refine .inr ⟨?_, hle, ho⟩
            by_contra hbefore
            simp [hgap o hlt (by omega)] at ho

/-- Nothing to wait for: there is no occurrence left. -/
theorem due_none {s : Schedule} {now : Nat} : ∀ {fuel timestamp : Nat}, now - timestamp < fuel → timestamp ≤ now →
    (Worker.due s now fuel timestamp).2 = none → ∀ o, now < o → s.occurs o = false := by
  intro fuel
  induction fuel with
  | zero =>
    intro timestamp hfuel
    omega
  | succ fuel ih =>
    intro timestamp hfuel hle hnone o ho
    unfold Worker.due at hnone
    cases hnext : s.next timestamp with
    | none => exact s.next_none timestamp hnext o (by omega)
    | some next =>
      obtain ⟨hlater, -, -⟩ := s.next_some timestamp next hnext
      rw [hnext] at hnone
      dsimp only at hnone
      split at hnone
      · cases hnone
      · exact @ih next (by omega) (by omega) hnone o ho

theorem due_nodup {s : Schedule} {now : Nat} : ∀ {fuel timestamp : Nat}, now - timestamp < fuel →
    (Worker.due s now fuel timestamp).1.Nodup := by
  intro fuel
  induction fuel with
  | zero =>
    intro timestamp hfuel
    omega
  | succ fuel ih =>
    intro timestamp hfuel
    unfold Worker.due
    cases hnext : s.next timestamp with
    | none => exact List.nodup_nil
    | some next =>
      obtain ⟨hlater, -, -⟩ := s.next_some timestamp next hnext
      dsimp only
      split
      · exact List.nodup_nil
      · refine List.nodup_cons.mpr ⟨fun hmem => ?_, @ih next (by omega)⟩
        have hafter := ((@due_mem s now fuel next (by omega) next).mp hmem).1
        omega

/-- The occurrences that a pass hands to the handler for an entry. -/
theorem dueOf_mem {e : Entry} {now o : Nat} :
    o ∈ (Worker.dueOf e now).1 ↔ e.timestamp < o ∧ o ≤ now ∧ e.task.schedule.occurs o :=
  due_mem (Nat.lt_succ_self _) o

theorem mem_pass_handled {w : Worker} {now : Nat} {f : Fired} : f ∈ (w.pass now).handled ↔ f ∈ w.handled ∨
    ∃ e ∈ w.tasks, f = ⟨e.number, e.task, f.occurrence, now⟩ ∧
      e.timestamp < f.occurrence ∧ f.occurrence ≤ now ∧ e.task.schedule.occurs f.occurrence := by
  unfold Worker.pass
  simp only [List.mem_append, List.mem_flatMap, List.mem_map]
  refine or_congr_right (exists_congr fun e => and_congr_right fun _ => ⟨?_, ?_⟩)
  · rintro ⟨o, ho, rfl⟩
    exact ⟨rfl, dueOf_mem.mp ho⟩
  · rintro ⟨hf, ho⟩
    exact ⟨f.occurrence, dueOf_mem.mpr ho, hf.symm⟩

theorem mem_pass_tasks {w : Worker} {now : Nat} {e : Entry} : e ∈ (w.pass now).tasks ↔
    ∃ e' ∈ w.tasks, (Worker.dueOf e' now).2 ≠ none ∧ e = { e' with timestamp := now } := by
  unfold Worker.pass
  simp only [List.mem_filterMap, Option.map_eq_some_iff]
  refine exists_congr fun e' => and_congr_right fun _ => ⟨?_, ?_⟩
  · rintro ⟨ttn, httn, rfl⟩
    exact ⟨by simp [httn], rfl⟩
  · rintro ⟨httn, rfl⟩
    obtain ⟨ttn, httn⟩ := Option.ne_none_iff_exists'.mp httn
    exact ⟨ttn, httn, rfl⟩

/-! ## What holds in every run -/

structure Sound (w : Worker) (clock : Nat) : Prop where
  entries : ∀ e ∈ w.tasks, e.number < w.taken ∧ e.timestamp ≤ clock
  numbers : (w.tasks.map (·.number)).Nodup
  fired : ∀ f ∈ w.handled, f.number < w.taken ∧ ∀ e ∈ w.tasks, e.number = f.number → f.occurrence ≤ e.timestamp
  once : w.handled.Pairwise fun f g => f.number = g.number → f.occurrence ≠ g.occurrence

theorem Sound.entry_eq {w : Worker} {clock : Nat} (h : Sound w clock) {e e' : Entry} (he : e ∈ w.tasks) (he' : e' ∈ w.tasks)
    (hnumber : e.number = e'.number) : e = e' :=
  List.inj_on_of_nodup_map h.numbers he he' hnumber

theorem sound_start (now : Nat) (tasks : List Scheduled) : Sound (start now tasks) now where
  entries := by
    intro e he
    obtain ⟨⟨task, i⟩, hi, rfl⟩ := List.mem_map.mp he
    have hlt := (List.mem_zipIdx hi).2.1
    exact ⟨by simpa [start] using hlt, Nat.le_refl _⟩
  numbers := by
    unfold start
    rw [List.map_map]
    have hrange : (tasks.zipIdx.map ((·.number) ∘ fun (task, i) => (⟨now, task, i⟩ : Entry))) = List.range' 0 tasks.length := by
      rw [← List.zipIdx_map_snd 0 tasks]
      rfl
    rw [hrange]
    exact List.nodup_range'
  fired := nofun
  once := .nil

theorem Sound.pass {w : Worker} {clock now : Nat} (h : Sound w clock) (hnow : clock ≤ now) : Sound (w.pass now) now where
  entries := by
    intro e he
    obtain ⟨e', he', -, rfl⟩ := mem_pass_tasks.mp he
    exact ⟨(h.entries e' he').1, Nat.le_refl _⟩
  numbers := by
    refine h.numbers.sublist ?_
    unfold Worker.pass
    dsimp only
    induction w.tasks with
    | nil => exact .slnil
    | cons e es ih =>
      rw [List.filterMap_cons]
      cases (Worker.dueOf e now).2 with
      | none => exact ih.cons _
      | some ttn => exact ih.cons_cons _
  fired := by
    intro f hf
    obtain hf | ⟨e, he, hfe, -, hle, -⟩ := mem_pass_handled.mp hf
    · refine ⟨(h.fired f hf).1, fun e he hnumber => ?_⟩
      obtain ⟨e', he', -, rfl⟩ := mem_pass_tasks.mp he
      have hseen := (h.fired f hf).2 e' he' hnumber
      have hclock := (h.entries e' he').2
      show f.occurrence ≤ now
      omega
    · rw [hfe]
      refine ⟨(h.entries e he).1, fun e₁ he₁ _ => ?_⟩
      obtain ⟨e', -, -, rfl⟩ := mem_pass_tasks.mp he₁
      exact hle
  once := by
    refine List.pairwise_append.mpr ⟨h.once, List.pairwise_flatMap.mpr ⟨fun e _ => ?_, ?_⟩, fun f hf g hg => ?_⟩
    · rw [List.pairwise_map]
      have hdue : (Worker.dueOf e now).1.Nodup := due_nodup (Nat.lt_succ_self _)
      refine List.Pairwise.imp ?_ hdue
      intro o o' hne _
      exact hne
    · refine (List.pairwise_map.mp h.numbers).imp fun {e e'} hne f hf g hg hnumber => ?_
      obtain ⟨o, -, rfl⟩ := List.mem_map.mp hf
      obtain ⟨o', -, rfl⟩ := List.mem_map.mp hg
      exact (hne hnumber).elim
    · intro hnumber
      obtain ⟨e, he, hg⟩ := List.mem_flatMap.mp hg
      obtain ⟨o, ho, rfl⟩ := List.mem_map.mp hg
      have hseen := (h.fired f hf).2 e he hnumber.symm
      have hlater := (dueOf_mem.mp ho).1
      show f.occurrence ≠ o
      omega

/-- An action takes entries out, and adds one at most. -/
theorem Sound.keep {w : Worker} {clock at_ : Nat} (h : Sound w clock) (hat : clock ≤ at_) (p : Entry → Bool) (new : List Entry)
    (hnew : new = [] ∨ ∃ task, new = [⟨at_, task, w.taken⟩]) :
    Sound { w with tasks := w.tasks.filter p ++ new, taken := w.taken + 1 } at_ where
  entries := by
    intro e he
    obtain he | he := List.mem_append.mp he
    · obtain ⟨hnumber, htime⟩ := h.entries e (List.mem_of_mem_filter he)
      exact ⟨Nat.lt_succ_of_lt hnumber, Nat.le_trans htime hat⟩
    · obtain rfl | ⟨task, rfl⟩ := hnew
      · cases he
      · rw [List.mem_singleton.mp he]
        exact ⟨Nat.lt_succ_self _, Nat.le_refl _⟩
  numbers := by
    rw [List.map_append]
    refine List.nodup_append.mpr ⟨h.numbers.sublist (List.filter_sublist.map _), ?_, fun n hn n' hn' => ?_⟩
    · obtain rfl | ⟨task, rfl⟩ := hnew
      · exact List.nodup_nil
      · exact List.nodup_singleton _
    · obtain rfl | ⟨task, rfl⟩ := hnew
      · cases hn'
      · obtain ⟨e, he, rfl⟩ := List.mem_map.mp hn
        rw [List.mem_singleton.mp hn']
        exact Nat.ne_of_lt (h.entries e (List.mem_of_mem_filter he)).1
  fired := by
    intro f hf
    refine ⟨Nat.lt_succ_of_lt (h.fired f hf).1, fun e he hnumber => ?_⟩
    obtain he | he := List.mem_append.mp he
    · exact (h.fired f hf).2 e (List.mem_of_mem_filter he) hnumber
    · obtain rfl | ⟨task, rfl⟩ := hnew
      · cases he
      · rw [List.mem_singleton.mp he] at hnumber
        exact absurd hnumber.symm (Nat.ne_of_lt (h.fired f hf).1)
  once := h.once

theorem Sound.step {w : Worker} {clock : Nat} {e : Event} (h : Sound w clock) (hclock : clock ≤ e.time) :
    Sound (step w e) e.time := by
  cases e with
  | pass now => exact h.pass hclock
  | take at_ action =>
    cases action with
    | add task => exact h.keep hclock _ _ (.inr ⟨task, rfl⟩)
    | delete name =>
      have hkept := h.keep hclock (·.task.name ≠ name) [] (.inl rfl)
      rwa [List.append_nil] at hkept
    | deleteNode id =>
      have hkept := h.keep hclock (·.task.nodeId ≠ id) [] (.inl rfl)
      rwa [List.append_nil] at hkept

theorem sound_run : ∀ {events : List Event} {w : Worker} {clock : Nat}, Sound w clock →
    (clock :: events.map (·.time)).Pairwise (· ≤ ·) →
    ∃ clock' ∈ clock :: events.map (·.time), Sound (run w events) clock' := by
  intro events
  induction events with
  | nil => exact fun h _ => ⟨_, List.mem_cons_self .., h⟩
  | cons e events ih =>
    intro w clock h htimes
    obtain ⟨hclock, htimes⟩ := List.pairwise_cons.mp htimes
    obtain ⟨clock', hmem, hsound⟩ := ih (h.step (hclock _ (List.mem_cons_self ..))) htimes
    exact ⟨clock', List.mem_cons_of_mem _ hmem, hsound⟩

/-! ## An entry through its life -/

/-- The entry of that number has been handed over up to `seen`, and is there if it has occurrences left. -/
structure Follows (w : Worker) (number : Nat) (task : Scheduled) (added seen : Nat) : Prop where
  fired : ∀ o, (∃ f ∈ w.handled, f.number = number ∧ f.occurrence = o) ↔ added < o ∧ o ≤ seen ∧ task.schedule.occurs o
  entry : ⟨seen, task, number⟩ ∈ w.tasks ∨
    (∀ e ∈ w.tasks, e.number ≠ number) ∧ ∀ o, seen < o → task.schedule.occurs o = false
  since : added ≤ seen

/-- The action takes the task out: it deletes the task or its node, or adds another task of its name. -/
def Removes (task : Scheduled) : Event → Prop
  | .pass _ => False
  | .take _ (.add other) => other.name = task.name
  | .take _ (.delete name) => task.name = name
  | .take _ (.deleteNode id) => task.nodeId = id

theorem Follows.pass {w : Worker} {clock now number added seen : Nat} {task : Scheduled} (hw : Sound w clock)
    (h : Follows w number task added seen) (hseen : seen ≤ now) : Follows (w.pass now) number task added now := by
  obtain ⟨hfired, hentry, hsince⟩ := h
  obtain hentry | ⟨hgone, hover⟩ := hentry
  · refine ⟨fun o => ⟨?_, ?_⟩, ?_, Nat.le_trans hsince hseen⟩
    · rintro ⟨f, hf, hnumber, rfl⟩
      obtain hf | ⟨e, he, hfe, hlt, hle, ho⟩ := mem_pass_handled.mp hf
      · obtain ⟨hadded, hle, ho⟩ := (hfired f.occurrence).mp ⟨f, hf, hnumber, rfl⟩
        exact ⟨hadded, Nat.le_trans hle hseen, ho⟩
      · rw [hfe] at hnumber
        obtain rfl := hw.entry_eq he hentry hnumber
        exact ⟨Nat.lt_of_le_of_lt hsince hlt, hle, ho⟩
    · rintro ⟨hadded, hle, ho⟩
      by_cases hbefore : o ≤ seen
      · obtain ⟨f, hf, hnumber, hocc⟩ := (hfired o).mpr ⟨hadded, hbefore, ho⟩
        exact ⟨f, mem_pass_handled.mpr (.inl hf), hnumber, hocc⟩
      · refine ⟨⟨number, task, o, now⟩, mem_pass_handled.mpr (.inr ⟨_, hentry, rfl, ?_, hle, ho⟩), rfl, rfl⟩
        exact Nat.lt_of_not_le hbefore
    · by_cases hleft : (Worker.dueOf ⟨seen, task, number⟩ now).2 = none
      · refine .inr ⟨fun e he hnumber => ?_, due_none (Nat.lt_succ_self _) hseen hleft⟩
        obtain ⟨e', he', httn, rfl⟩ := mem_pass_tasks.mp he
        obtain rfl := hw.entry_eq he' hentry hnumber
        exact httn hleft
      · exact .inl (mem_pass_tasks.mpr ⟨_, hentry, hleft, rfl⟩)
  · refine ⟨fun o => ⟨?_, ?_⟩, .inr ⟨fun e he => ?_, fun o ho => hover o (by omega)⟩, Nat.le_trans hsince hseen⟩
    · rintro ⟨f, hf, hnumber, rfl⟩
      obtain hf | ⟨e, he, hfe, -⟩ := mem_pass_handled.mp hf
      · obtain ⟨hadded, hle, ho⟩ := (hfired f.occurrence).mp ⟨f, hf, hnumber, rfl⟩
        exact ⟨hadded, Nat.le_trans hle hseen, ho⟩
      · rw [hfe] at hnumber
        exact (hgone e he hnumber).elim
    · rintro ⟨hadded, hle, ho⟩
      have hbefore : o ≤ seen := by
        by_contra hafter
        simp [hover o (by omega)] at ho
      obtain ⟨f, hf, hnumber, hocc⟩ := (hfired o).mpr ⟨hadded, hbefore, ho⟩
      exact ⟨f, mem_pass_handled.mpr (.inl hf), hnumber, hocc⟩
    · obtain ⟨e', he', -, rfl⟩ := mem_pass_tasks.mp he
      exact hgone e' he'

/-- An action that does not take the task out leaves its entry alone. -/
theorem Follows.take {w : Worker} {at_ number added seen : Nat} {task : Scheduled} {action : Action} (hnumber : number < w.taken)
    (h : Follows w number task added seen) (hkept : ¬ Removes task (.take at_ action)) :
    Follows (w.handleAction at_ action) number task added seen := by
  obtain ⟨hfired, hentry, hsince⟩ := h
  refine ⟨?_, hentry.imp (fun hentry => ?_) (And.imp_left fun hgone e he => ?_), hsince⟩
  · cases action <;> exact hfired
  · cases action with
    | add other => exact List.mem_append_left _ (List.mem_filter.mpr ⟨hentry, decide_eq_true fun hname => hkept hname.symm⟩)
    | delete name => exact List.mem_filter.mpr ⟨hentry, decide_eq_true hkept⟩
    | deleteNode id => exact List.mem_filter.mpr ⟨hentry, decide_eq_true hkept⟩
  · cases action with
    | add other =>
      obtain he | he := List.mem_append.mp he
      · exact hgone e (List.mem_of_mem_filter he)
      · rw [List.mem_singleton.mp he]
        exact (Nat.ne_of_lt hnumber).symm
    | delete name => exact hgone e (List.mem_of_mem_filter he)
    | deleteNode id => exact hgone e (List.mem_of_mem_filter he)

theorem handleAction_taken (w : Worker) (at_ : Nat) (action : Action) : (w.handleAction at_ action).taken = w.taken + 1 := by
  cases action <;> rfl

theorem follows_run {number added : Nat} {task : Scheduled} : ∀ {events : List Event} {w : Worker} {clock seen : Nat},
    Sound w clock → number < w.taken → Follows w number task added seen → seen ≤ clock →
    (clock :: events.map (·.time)).Pairwise (· ≤ ·) → (∀ e ∈ events, ¬ Removes task e) →
    ∃ seen', ∃ clock' ∈ clock :: events.map (·.time), Sound (run w events) clock' ∧
      Follows (run w events) number task added seen' ∧ seen' ≤ clock' := by
  intro events
  induction events with
  | nil => exact fun hw _ h hseen _ _ => ⟨_, _, List.mem_cons_self .., hw, h, hseen⟩
  | cons e events ih =>
    intro w clock seen hw hnumber h hseen htimes hkept
    obtain ⟨hclock, htimes⟩ := List.pairwise_cons.mp htimes
    have he := hclock _ (List.mem_cons_self ..)
    have hnext : ∃ seen', seen' ≤ e.time ∧ Follows (step w e) number task added seen' := by
      cases e with
      | pass now => exact ⟨now, Nat.le_refl _, h.pass hw (Nat.le_trans hseen he)⟩
      | take at_ action => exact ⟨seen, Nat.le_trans hseen he, h.take hnumber (hkept _ (List.mem_cons_self ..))⟩
    have htaken : number < (step w e).taken := by
      cases e with
      | pass now => exact hnumber
      | take at_ action =>
        rw [step, handleAction_taken]
        omega
    obtain ⟨seen₁, hseen₁, h₁⟩ := hnext
    obtain ⟨seen', clock', hmem, hlife⟩ :=
      ih (hw.step he) htaken h₁ hseen₁ htimes fun e' he' => hkept e' (List.mem_cons_of_mem _ he')
    exact ⟨seen', clock', List.mem_cons_of_mem _ hmem, hlife⟩

/-- A task just added. -/
theorem follows_add {w : Worker} {clock at_ : Nat} (hw : Sound w clock) (task : Scheduled) :
    Follows (w.handleAction at_ (.add task)) w.taken task at_ at_ where
  fired := by
    intro o
    constructor
    · rintro ⟨f, hf, hnumber, -⟩
      exact absurd hnumber (Nat.ne_of_lt (hw.fired f hf).1)
    · rintro ⟨hlt, hle, -⟩
      omega
  entry := .inl (List.mem_append_right _ (List.mem_singleton_self _))
  since := Nat.le_refl _

/-! ## Exactly once -/

/-- The occurrences handed over for an entry. -/
def handledOf (w : Worker) (number : Nat) : List Nat := (w.handled.filter (·.number = number)).map (·.occurrence)

theorem mem_handledOf (w : Worker) (number o : Nat) :
    o ∈ handledOf w number ↔ ∃ f ∈ w.handled, f.number = number ∧ f.occurrence = o := by
  unfold handledOf
  rw [List.mem_map]
  refine exists_congr fun f => ?_
  rw [List.mem_filter, decide_eq_true_iff, and_assoc]

theorem Sound.handledOf_nodup {w : Worker} {clock : Nat} (h : Sound w clock) (number : Nat) : (handledOf w number).Nodup := by
  refine List.pairwise_map.mpr (List.pairwise_filter.mpr (h.once.imp fun {f g} hne hf hg => ?_))
  exact hne ((of_decide_eq_true hf).trans (of_decide_eq_true hg).symm)

/-- The times of the events do not go back, from the start of the worker on. -/
def InOrder (start : Nat) (events : List Event) : Prop := (start :: events.map (·.time)).Pairwise (· ≤ ·)

/-- **Exactly once.** Of a task that has been added and not taken out since, a pass leaves each occurrence
handed over once that lies after the add and not after the pass, and no other one. -/
theorem handled_exactly_once {t₀ at_ now : Nat} {initial : List Scheduled} {task : Scheduled} {before since : List Event}
    (htimes : InOrder t₀ (before ++ .take at_ (.add task) :: since ++ [.pass now]))
    (hkept : ∀ e ∈ since, ¬ Removes task e) (o : Nat) :
    (handledOf (run (start t₀ initial) (before ++ .take at_ (.add task) :: since ++ [.pass now]))
        (run (start t₀ initial) before).taken).count o =
      if at_ < o ∧ o ≤ now ∧ task.schedule.occurs o then 1 else 0 := by
  have hsplit : before ++ .take at_ (.add task) :: since ++ [.pass now] =
      before ++ (.take at_ (.add task) :: (since ++ [.pass now])) := by simp
  rw [hsplit] at htimes ⊢
  unfold InOrder at htimes
  rw [List.map_append, ← List.cons_append] at htimes
  obtain ⟨hbefore, hafter, hcross⟩ := List.pairwise_append.mp htimes
  obtain ⟨clock, hclock, hw⟩ := sound_run (sound_start t₀ initial) hbefore
  have hadd : clock ≤ at_ := hcross _ hclock _ (List.mem_cons_self ..)
  rw [List.map_cons, List.map_append] at hafter
  obtain ⟨hsince, -, hlast⟩ := List.pairwise_append.mp (show (_ :: _ ++ _ : List Nat).Pairwise (· ≤ ·) from hafter)
  unfold run
  rw [List.foldl_append, List.foldl_cons, List.foldl_append]
  obtain ⟨seen, clock', hmem, hw', h, hseen⟩ := follows_run (hw.step (e := .take at_ (.add task)) hadd)
    (Nat.lt_succ_self _) (follows_add hw task) (Nat.le_refl _) hsince hkept
  have hnow : clock' ≤ now := hlast _ hmem _ (List.mem_singleton_self _)
  have hend := h.pass hw' (Nat.le_trans hseen hnow)
  have hcount := ((hw'.pass hnow).handledOf_nodup (run (start t₀ initial) before).taken).count (a := o)
  exact hcount.trans (if_congr ((mem_handledOf ..).trans (hend.fired o)) rfl rfl)

/-- The action deletes the task, or its node. -/
def Deletes (task : Scheduled) : Event → Bool
  | .take _ (.delete name) => task.name = name
  | .take _ (.deleteNode id) => task.nodeId = id
  | _ => false

/-- An occurrence at each multiple of the period. -/
def every (period : Nat) (hpos : 0 < period) : Schedule where
  occurs t := t % period = 0
  next t := some ((t / period + 1) * period)
  next_some := by
    intro t u hu
    cases hu
    have hdiv := Nat.div_add_mod t period
    have hmod := Nat.mod_lt t hpos
    rw [Nat.mul_comm] at hdiv
    refine ⟨by rw [Nat.succ_mul]; omega, by simp, fun v hlt hv => decide_eq_false fun hzero => ?_⟩
    have hlow : t / period < v / period := by
      by_contra hle
      have hvdiv := Nat.div_add_mod v period
      have hmul := Nat.mul_le_mul_left period (Nat.le_of_not_lt hle)
      rw [Nat.mul_comm period (t / period)] at hmul
      omega
    have hhigh : v / period < t / period + 1 := (Nat.div_lt_iff_lt_mul hpos).mpr hv
    omega
  next_none := nofun

/-- A task of the node, called each ten. -/
def tick (nodeId name : String) : Scheduled := ⟨nodeId, name, every 10 (by decide), ⟨"tick", ""⟩⟩

/-- The pass at 25 finds the occurrences at 10 and 20, and the one at 30 is left to the next. -/
theorem handled_exactly_once_tick :
    (handledOf (run (start 0 []) ([.pass 1] ++ .take 5 (.add (tick "a" "t")) :: [.pass 12, .take 13 (.delete "u")] ++ [.pass 25]))
        (run (start 0 []) [.pass 1]).taken).count 20 = if 5 < 20 ∧ 20 ≤ 25 ∧ (tick "a" "t").schedule.occurs 20 then 1 else 0 :=
  handled_exactly_once (by simp [InOrder, Event.time]) (by simp [Removes, tick]) 20

/-- A task that is added again does not run on its old schedule, although it was not deleted. -/
theorem replaced_not_handled :
    ¬ ∀ (t₀ at_ now : Nat) (initial : List Scheduled) (task : Scheduled) (before since : List Event),
      InOrder t₀ (before ++ .take at_ (.add task) :: since ++ [.pass now]) → (∀ e ∈ since, Deletes task e = false) → ∀ o,
      (handledOf (run (start t₀ initial) (before ++ .take at_ (.add task) :: since ++ [.pass now]))
          (run (start t₀ initial) before).taken).count o =
        if at_ < o ∧ o ≤ now ∧ task.schedule.occurs o then 1 else 0 := by
  intro h
  have hlost := h 0 5 12 [] (tick "a" "t") [] [.take 8 (.add (tick "a" "t"))] (by simp [InOrder, Event.time])
    (by simp [Deletes]) 10
  revert hlost
  decide

/-! ## Tasks of different nodes -/

/-- What a plugin asks the scheduler for. -/
inductive PluginCall where
  | addTask (name : String) (schedule : Schedule) (functionName functionParam : String)
  | deleteTask (name : String)

def PluginCall.name : PluginCall → String
  | .addTask name .. => name
  | .deleteTask name => name

/-- The action that the engine of the node makes of the call. -/
def PluginCall.request (nodeId : String) : PluginCall → Action
  | .addTask name schedule functionName functionParam => .add ⟨nodeId, name, schedule, ⟨functionName, functionParam⟩⟩
  | .deleteTask name => .delete name

/-- The worker wakes up, or takes what the plugin of a node has asked for. -/
inductive Traffic where
  | pass (now : Nat)
  | call (at_ : Nat) (nodeId : String) (request : PluginCall)

def Traffic.event : Traffic → Event
  | .pass now => .pass now
  | .call at_ nodeId request => .take at_ (request.request nodeId)

def Traffic.isOf (nodeId : String) : Traffic → Bool
  | .pass _ => true
  | .call _ other _ => other = nodeId

def next (w : Worker) (x : Traffic) : Option Worker := some (step w x.event)

/-- The tasks held for a node. -/
def held (w : Worker) (nodeId : String) : List (Nat × Scheduled) :=
  (w.tasks.filter (·.task.nodeId = nodeId)).map fun e => (e.timestamp, e.task)

/-- What was handed over for a node: the task, which occurrence, and when. -/
def firedFor (w : Worker) (nodeId : String) : List (Scheduled × Nat × Nat) :=
  (w.handled.filter (·.task.nodeId = nodeId)).map fun f => (f.task, f.occurrence, f.at_)

/-- The call of another node names no task of this one. -/
def Clear (nodeId : String) (w : Worker) : Traffic → Prop
  | .pass _ => True
  | .call _ other call => other = nodeId ∨ ∀ e ∈ w.tasks, e.task.nodeId = nodeId → e.task.name ≠ call.name

/-- The call of another node leaves the tasks of this one as they are. -/
def Undisturbed (nodeId : String) (w : Worker) : Traffic → Prop
  | .pass _ => True
  | .call at_ other call => other = nodeId ∨ held (step w (.take at_ (call.request other))) nodeId = held w nodeId

theorem held_pass (w : Worker) (now : Nat) (nodeId : String) : held (w.pass now) nodeId =
    (held w nodeId).filterMap fun (timestamp, task) => (Worker.dueOf ⟨timestamp, task, 0⟩ now).2.map fun _ => (now, task) := by
  unfold held Worker.pass
  dsimp only
  induction w.tasks with
  | nil => rfl
  | cons e es ih =>
    have hsame : Worker.dueOf ⟨e.timestamp, e.task, 0⟩ now = Worker.dueOf e now := rfl
    rw [List.filterMap_cons, List.filter_cons]
    by_cases hnode : e.task.nodeId = nodeId
    · rw [if_pos (decide_eq_true hnode), List.map_cons, List.filterMap_cons]
      cases hdue : (Worker.dueOf e now).2 with
      | none => simpa [hsame, hdue] using ih
      | some ttn => simpa [hsame, hdue, hnode] using ih
    · rw [if_neg (by simpa using hnode)]
      cases hdue : (Worker.dueOf e now).2 with
      | none => exact ih
      | some ttn => simpa [hnode] using ih

theorem firedFor_pass (w : Worker) (now : Nat) (nodeId : String) : firedFor (w.pass now) nodeId =
    firedFor w nodeId ++ (held w nodeId).flatMap fun (timestamp, task) =>
      (Worker.dueOf ⟨timestamp, task, 0⟩ now).1.map fun o => (task, o, now) := by
  unfold firedFor held Worker.pass
  dsimp only
  rw [List.filter_append, List.map_append]
  congr 1
  induction w.tasks with
  | nil => rfl
  | cons e es ih =>
    have hsame : Worker.dueOf ⟨e.timestamp, e.task, 0⟩ now = Worker.dueOf e now := rfl
    rw [List.flatMap_cons, List.filter_append, List.map_append, ih, List.filter_cons]
    by_cases hnode : e.task.nodeId = nodeId
    · rw [if_pos (decide_eq_true hnode), List.map_cons, List.flatMap_cons, hsame]
      congr 1
      rw [List.filter_eq_self.mpr fun f hf => ?_, List.map_map]
      · rfl
      · obtain ⟨o, -, rfl⟩ := List.mem_map.mp hf
        exact decide_eq_true hnode
    · rw [if_neg (by simpa using hnode), List.filter_eq_nil_iff.mpr fun f hf => ?_]
      · rfl
      · obtain ⟨o, -, rfl⟩ := List.mem_map.mp hf
        simpa using hnode

/-- A call takes out the task of its name, and adds one for the node that has made it. -/
theorem held_call (w : Worker) (at_ : Nat) (nodeId other : String) (call : PluginCall) :
    held (step w (.take at_ (call.request other))) nodeId = (held w nodeId).filter (·.2.name ≠ call.name) ++
      match call.request other with
      | .add task => if other = nodeId then [(at_, task)] else []
      | _ => [] := by
  have hold : ∀ es : List Entry, ((es.filter (·.task.name ≠ call.name)).filter (·.task.nodeId = nodeId)).map
      (fun e => (e.timestamp, e.task)) =
        ((es.filter (·.task.nodeId = nodeId)).map fun e => (e.timestamp, e.task)).filter (·.2.name ≠ call.name) := by
    intro es
    rw [List.filter_map, List.filter_filter, List.filter_filter]
    congr 1
    refine List.filter_congr fun e _ => ?_
    exact Bool.and_comm ..
  cases call with
  | addTask name schedule functionName functionParam =>
    show ((_ ++ _ : List Entry).filter _).map _ = _
    rw [List.filter_append, List.map_append]
    refine congrArg₂ _ (hold w.tasks) ?_
    dsimp only [PluginCall.request]
    by_cases hnode : other = nodeId
    · simp [hnode]
    · simp [hnode]
  | deleteTask name => exact (hold w.tasks).trans (List.append_nil _).symm

theorem firedFor_call (w : Worker) (at_ : Nat) (nodeId : String) (action : Action) :
    firedFor (step w (.take at_ action)) nodeId = firedFor w nodeId := by
  cases action <;> rfl

theorem held_other {w : Worker} {at_ : Nat} {nodeId other : String} {call : PluginCall} (hother : other ≠ nodeId) :
    held (step w (.take at_ (call.request other))) nodeId = (held w nodeId).filter (·.2.name ≠ call.name) := by
  rw [held_call]
  cases call with
  | addTask name schedule functionName functionParam => simp [PluginCall.request, hother]
  | deleteTask name => simp [PluginCall.request]

theorem clear_iff (nodeId : String) (w : Worker) (x : Traffic) : Clear nodeId w x ↔ Undisturbed nodeId w x := by
  cases x with
  | pass now => exact Iff.rfl
  | call at_ other call =>
    unfold Clear Undisturbed
    by_cases hother : other = nodeId
    · simp [hother]
    · simp only [hother, false_or]
      rw [held_other hother, List.filter_eq_self]
      unfold held
      simp only [List.mem_map, List.mem_filter]
      constructor
      · rintro h _ ⟨e, ⟨he, hnode⟩, rfl⟩
        exact decide_eq_true (h e he (of_decide_eq_true hnode))
      · intro h e he hnode
        exact of_decide_eq_true (h _ ⟨e, ⟨he, decide_eq_true hnode⟩, rfl⟩)

/-- What the workers have for a node is the same. -/
structure SameFor (nodeId : String) (w w' : Worker) : Prop where
  held : held w nodeId = held w' nodeId
  fired : firedFor w nodeId = firedFor w' nodeId

theorem SameFor.own {nodeId : String} {w w' : Worker} (h : SameFor nodeId w w') {x : Traffic} (hown : x.isOf nodeId) :
    SameFor nodeId (step w x.event) (step w' x.event) := by
  cases x with
  | pass now =>
    refine ⟨?_, ?_⟩
    · show Scheduler.held (w.pass now) nodeId = Scheduler.held (w'.pass now) nodeId
      rw [held_pass, held_pass, h.held]
    · show firedFor (w.pass now) nodeId = firedFor (w'.pass now) nodeId
      rw [firedFor_pass, firedFor_pass, h.held, h.fired]
  | call at_ other call =>
    refine ⟨?_, ?_⟩
    · show Scheduler.held (step w (.take at_ (call.request other))) nodeId = _
      rw [held_call, h.held, ← held_call]
      rfl
    · exact (firedFor_call ..).trans (h.fired.trans (firedFor_call ..).symm)

theorem SameFor.other {nodeId : String} {w w' : Worker} (h : SameFor nodeId w w') {x : Traffic} (hother : x.isOf nodeId = false)
    (hclear : Clear nodeId w x) : SameFor nodeId (step w x.event) w' := by
  cases x with
  | pass now => cases hother
  | call at_ other call =>
    have hsame := (clear_iff nodeId w (.call at_ other call)).mp hclear
    refine ⟨?_, (firedFor_call ..).trans h.fired⟩
    obtain hown | hsame := hsame
    · simp [Traffic.isOf, hown] at hother
    · exact hsame.trans h.held

theorem sameFor_run {nodeId : String} : ∀ {traffic : List Traffic} {w w' : Worker}, SameFor nodeId w w' →
    Machine.Along next (Clear nodeId) w traffic →
    SameFor nodeId (run w (traffic.map Traffic.event)) (run w' ((traffic.filter (·.isOf nodeId)).map Traffic.event)) := by
  intro traffic
  induction traffic with
  | nil => exact fun h _ => h
  | cons x traffic ih =>
    rintro w w' h ⟨hclear, hrest⟩
    rw [List.filter_cons]
    by_cases hown : x.isOf nodeId
    · rw [if_pos hown]
      exact ih (h.own hown) hrest
    · rw [if_neg hown]
      exact ih (h.other (by simpa using hown) hclear) hrest

/-- **The tasks of a node are its own** just when no other node ever adds or deletes a task by a name that
a task of the node has. -/
theorem tasks_apart (t₀ : Nat) (initial : List Scheduled) (traffic : List Traffic) (nodeId : String) :
    (Machine.Along next (Undisturbed nodeId) (start t₀ initial) traffic ∧
      held (run (start t₀ initial) (traffic.map Traffic.event)) nodeId =
        held (run (start t₀ initial) ((traffic.filter (·.isOf nodeId)).map Traffic.event)) nodeId ∧
      firedFor (run (start t₀ initial) (traffic.map Traffic.event)) nodeId =
        firedFor (run (start t₀ initial) ((traffic.filter (·.isOf nodeId)).map Traffic.event)) nodeId) ↔
    Machine.Along next (Clear nodeId) (start t₀ initial) traffic := by
  constructor
  · rintro ⟨h, -⟩
    exact Machine.Along.of_invariant (I := fun _ => True) next (fun w x _ h => (clear_iff nodeId w x).mpr h)
      (fun _ _ _ _ _ _ => trivial) trivial h
  · intro h
    have hsame := sameFor_run (w := start t₀ initial) ⟨rfl, rfl⟩ h
    exact ⟨Machine.Along.of_invariant (I := fun _ => True) next (fun w x _ h => (clear_iff nodeId w x).mp h)
      (fun _ _ _ _ _ _ => trivial) trivial h, hsame.held, hsame.fired⟩

/-- The plugin of one node deletes the task of another one that has the same name. -/
theorem tasks_collide :
    ¬ ∀ (t₀ : Nat) (initial : List Scheduled) (traffic : List Traffic) (nodeId : String),
      held (run (start t₀ initial) (traffic.map Traffic.event)) nodeId =
        held (run (start t₀ initial) ((traffic.filter (·.isOf nodeId)).map Traffic.event)) nodeId := by
  intro h
  have hgone := congrArg List.length (h 0 []
    [.call 1 "a" (.addTask "t" (every 10 (by decide)) "tick" ""), .call 2 "b" (.deleteTask "t")] "a")
  revert hgone
  decide

end Scheduler

end Blockvisor
