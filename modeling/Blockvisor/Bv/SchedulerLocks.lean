/-
Who waits for whom around the scheduler (`scheduler.rs`, `babel_engine.rs`,
`nodes_manager.rs`). The worker runs the tasks that are due and, when none is
left, takes an action from a channel of sixteen places. A plugin function, run
by the worker or by `call_method`, runs under the lock of its node and a read
lock on the nodes map, and the engine loop that serves it sends its `add_task`
and `delete_task` to that channel before it goes on.

What a party has still to do is a script, read off the source: which locks it
takes and gives back and where it can leave early, which drops all its guards.
The worker is the only one to empty the channel, so a plugin function that has
to wait for a place keeps its locks until the worker is free again.
-/
import Mathlib.Logic.Function.Basic
import Blockvisor.Bv.Scheduler
import Blockvisor.Lib.FairLock

namespace Blockvisor

namespace SchedulerLocks

open FairLock (Mode Queue queued ahead admits request release)
open Scheduler (Action Scheduled Worker)

/-- The worker of the scheduler, and the tasks that serve calls of the nodes manager. -/
inductive Party where
  | worker
  | caller (i : Nat)
deriving DecidableEq

inductive Lock where
  | nodeIds
  | nodes
  | node (id : String)
  | cache
deriving DecidableEq

/-- The order in which every party takes its locks. -/
def Lock.rank : Lock → Nat
  | .nodeIds => 0
  | .nodes => 1
  | .node _ => 2
  | .cache => 3

inductive Instr where
  | acquire (l : Lock) (m : Mode)
  /-- The lock was asked for, and the future is polled. -/
  | await (l : Lock) (m : Mode)
  | release (l : Lock)
  /-- A look into the nodes map that fails when the node is not there, or broken. -/
  | get (id : String)
  /-- A read lock on each of the nodes in turn. -/
  | eachNode
  /-- A check or an operation that may fail. -/
  | check
  | insert (id : String)
  | remove (id : String)
  | plugin
  | send (a : Action)

namespace Instr

def isPlugin : Instr → Bool
  | .plugin => true
  | _ => false

end Instr

/-- A plugin function is run, or is to be. -/
def running (script : List Instr) : Bool := script.any Instr.isPlugin

/-- `nodes.read()`, `get`, `node.write()`, and the guards dropped afterwards. -/
def onNode (id : String) (body : List Instr) : List Instr :=
  [.acquire .nodes .read, .get id, .acquire (.node id) .write] ++ body ++ [.release (.node id), .release .nodes]

/-- `NodeTaskHandler::handle`: the check is on the status of the VM. -/
def handle (task : Scheduled) : List Instr := onNode task.nodeId [.check, .plugin]

/-- `NodesManager::call_method`: the check is on the reloading of the plugin, and its capability. -/
def callMethod (id : String) : List Instr := onNode id [.check, .plugin]

/-- `NodesManager::create`; the requirements are not checked in dev mode or in maintenance mode. -/
def create (id : String) (requirements : Bool) : List Instr :=
  [.check, .acquire .nodeIds .write, .acquire .cache .read, .check, .release .cache, .check] ++
  (if requirements then [.acquire .cache .read, .release .cache, .check] else []) ++
  [.acquire .nodes .read, .eachNode, .release .nodes, .check,
   .acquire .nodes .write, .insert id, .release .nodes,
   .acquire .cache .write, .release .cache, .release .nodeIds]

/-- `NodesManager::delete`. -/
def delete (id : String) : List Instr :=
  onNode id [.check] ++
  [.acquire .nodes .write, .remove id, .release .nodes,
   .acquire .nodeIds .write, .release .nodeIds,
   .acquire .cache .write, .release .cache,
   .send (.deleteNode id)]

inductive Request where
  | callMethod (id : String)
  | create (id : String) (requirements : Bool)
  | delete (id : String)

def Request.script : Request → List Instr
  | .callMethod id => SchedulerLocks.callMethod id
  | .create id requirements => SchedulerLocks.create id requirements
  | .delete id => SchedulerLocks.delete id

/-- The places of the channel that `Scheduler::start` makes. -/
def capacity : Nat := 16

structure State where
  /-- The nodes of the map that are not broken. -/
  nodes : List String
  queue : Lock → Queue Party
  channel : List Action
  /-- Who waits for a place in the channel, with what. -/
  senders : List (Party × Action)
  worker : Worker
  /-- The occurrences that were due in the worker's last pass and are not handled yet. -/
  pending : List Scheduled
  script : Party → List Instr

namespace State

def goOn (s : State) (p : Party) (script : List Instr) : State :=
  { s with script := Function.update s.script p script }

def setQueue (s : State) (l : Lock) (q : Queue Party) : State :=
  { s with queue := Function.update s.queue l q }

/-- An early exit: the guards of the party are dropped. -/
def leave (s : State) (p : Party) : State :=
  { s with script := Function.update s.script p [], queue := fun l => release (s.queue l) p }

def idle (s : State) : Bool := (s.script .worker).isEmpty && s.pending.isEmpty

end State

/-- The read lock on a node whose address is compared in `create`. -/
def readIp (id : String) : List Instr := [.acquire (.node id) .read, .release (.node id), .check]

/-- A party takes its next step, unless it has to wait. -/
def exec (s : State) (p : Party) : Option State :=
  match s.script p with
  | [] =>
    match p, s.pending with
    | .worker, task :: pending => some ({ s with pending }.goOn .worker (handle task))
    | _, _ => none
  | .acquire l m :: rest => some ((s.setQueue l (request (s.queue l) p m)).goOn p (.await l m :: rest))
  | .await l m :: rest => if admits (s.queue l) p m then some (s.goOn p rest) else none
  | .release l :: rest => some ((s.setQueue l (release (s.queue l) p)).goOn p rest)
  | .get id :: rest => if id ∈ s.nodes then some (s.goOn p rest) else some (s.leave p)
  | .eachNode :: rest => some (s.goOn p (s.nodes.flatMap readIp ++ rest))
  | .check :: rest => some (s.goOn p rest)
  | .insert id :: rest => some ({ s with nodes := id :: s.nodes.filter (· ≠ id) }.goOn p rest)
  | .remove id :: rest => some ({ s with nodes := s.nodes.filter (· ≠ id) }.goOn p rest)
  | .plugin :: _ => none
  | .send a :: rest =>
    if s.senders.any (·.1 = p) then none
    else if s.channel.length < capacity then some ({ s with channel := s.channel ++ [a] }.goOn p rest)
    else some { s with senders := s.senders ++ [(p, a)] }

/-- The worker takes an action from the channel, and the place goes to the first who waits for one. -/
def take (s : State) (at_ : Nat) : Option State :=
  if s.idle then
    match s.channel with
    | [] => none
    | a :: channel =>
      match s.senders with
      | [] => some { s with channel, worker := s.worker.handleAction at_ a }
      | (p, b) :: senders =>
        some ({ s with channel := channel ++ [b], senders, worker := s.worker.handleAction at_ a }.goOn p (s.script p).tail)
  else none

/-- The worker hands out what is due. -/
def pass (s : State) (now : Nat) : Option State :=
  if s.idle then
    some { s with
      worker := s.worker.pass now
      pending := ((s.worker.pass now).handled.drop s.worker.handled.length).map (·.task) }
  else none

inductive Event where
  | call (i : Nat) (request : Request)
  | pass (now : Nat)
  | take (at_ : Nat)
  | exec (p : Party)
  /-- The plugin function that a party runs calls `add_task` or `delete_task`. -/
  | issue (p : Party) (a : Action)
  /-- The plugin function returns. -/
  | ret (p : Party)
  /-- A check fails. -/
  | bail (p : Party)

def step (s : State) : Event → Option State
  | .call i request =>
    match s.script (.caller i) with
    | [] => some (s.goOn (.caller i) request.script)
    | _ :: _ => none
  | .pass now => pass s now
  | .take at_ => take s at_
  | .exec p => exec s p
  | .issue p a =>
    match s.script p with
    | .plugin :: rest => some (s.goOn p (.send a :: .plugin :: rest))
    | _ => none
  | .ret p =>
    match s.script p with
    | .plugin :: rest => some (s.goOn p rest)
    | _ => none
  | .bail p =>
    match s.script p with
    | .check :: _ => some (s.leave p)
    | _ => none

/-- The nodes manager has loaded its nodes and the scheduled tasks. -/
def start (t₀ : Nat) (nodes : List String) (tasks : List Scheduled) : State where
  nodes := nodes
  queue := fun _ => []
  channel := []
  senders := []
  worker := Scheduler.start t₀ tasks
  pending := []
  script := fun _ => []

namespace State

/-- The lock that a party waits for, if it waits for one. -/
def wants (s : State) (p : Party) : Option (Lock × Mode) :=
  match s.script p with
  | .await l m :: _ => some (l, m)
  | _ => none

/-- A party waits for those ahead of it for a lock, or for the worker to empty the channel. -/
def Waits (s : State) (p r : Party) : Prop :=
  FairLock.Waits s.queue s.wants p r ∨ ((∃ a, (p, a) ∈ s.senders) ∧ r = .worker)

/-- The worker waits for a lock. -/
def workerWaits (s : State) : Bool :=
  match s.script .worker with
  | .await l m :: _ => !admits (s.queue l) .worker m
  | _ => false

end State

/-- A plugin function never has to wait for a place in the channel while the worker runs it, or waits for a lock. -/
def Roomy (s : State) : Event → Prop
  | .exec p =>
    match s.script p with
    | .send _ :: rest => s.channel.length < capacity ∨ (p ≠ .worker ∧ (running rest = true → s.workerWaits = false))
    | .acquire l m :: _ =>
      p = .worker → (s.queue l).all (fun r => m.shares r.2) = true ∨ ∀ x ∈ s.senders, running (s.script x.1) = false
    | _ => True
  | _ => True

instance (s : State) : ∀ e, Decidable (Roomy s e)
  | .exec p => by unfold Roomy; dsimp only; split <;> infer_instance
  | .call .. | .pass _ | .take _ | .issue .. | .ret _ | .bail _ => .isTrue trivial

/-! ## Scripts -/

/-- A script that takes its locks in the order of their ranks, from those held on, gives all of them back,
and sends with none of them held unless in a plugin function. -/
def Fits : (Lock → Prop) → List Instr → Prop
  | held, [] => ∀ l, ¬ held l
  | held, .acquire l _ :: rest => (∀ h, held h → h.rank < l.rank) ∧ Fits (fun h => held h ∨ h = l) rest
  | _, .await _ _ :: _ => False
  | held, .release l :: rest => Fits (fun h => held h ∧ h ≠ l) rest
  | held, .get _ :: rest => Fits held rest
  | held, .eachNode :: rest => (∀ h, held h → h.rank < 2) ∧ Fits held rest
  | held, .check :: rest => Fits held rest
  | held, .insert _ :: rest => Fits held rest
  | held, .remove _ :: rest => Fits held rest
  | held, .plugin :: rest => Fits held rest
  | held, .send _ :: rest => (running rest = false → ∀ l, ¬ held l) ∧ Fits held rest

/-- A script that fits, or is at a lock that was asked for. -/
def Placed (held : Lock → Prop) : List Instr → Prop
  | .await l _ :: rest => held l ∧ (∀ h, held h → h ≠ l → h.rank < l.rank) ∧ Fits held rest
  | script => Fits held script

theorem Fits.placed {held : Lock → Prop} {script : List Instr} (h : Fits held script) : Placed held script := by
  unfold Placed
  split
  · exact h.elim
  · exact h

theorem Fits.not_await {held : Lock → Prop} {script : List Instr} (h : Fits held script) (l : Lock) (m : Mode)
    (rest : List Instr) : script ≠ .await l m :: rest := by
  intro heq
  subst heq
  exact h

theorem onNode_fits (id : String) : Fits (fun _ => False) (onNode id [.check, .plugin]) := by
  simp only [onNode, Fits, List.cons_append, List.nil_append]
  and_intros <;> intro h <;> cases h <;> simp [Lock.rank]

theorem create_fits (id : String) (requirements : Bool) : Fits (fun _ => False) (create id requirements) := by
  cases requirements
  · simp only [create, Fits, List.cons_append, List.nil_append]
    and_intros <;> intro h <;> cases h <;> simp [Lock.rank]
  · simp only [create, Fits, List.cons_append, List.nil_append]
    and_intros <;> intro h <;> cases h <;> simp [Lock.rank]

theorem delete_fits (id : String) : Fits (fun _ => False) (delete id) := by
  simp only [delete, onNode, Fits, List.cons_append, List.nil_append]
  and_intros <;> intro h <;> cases h <;> simp [Lock.rank]
  intro l
  cases l <;> simp

theorem Request.fits (r : Request) : Fits (fun _ => False) r.script := by
  cases r with
  | callMethod id => exact onNode_fits id
  | create id requirements => exact create_fits id requirements
  | delete id => exact delete_fits id

theorem eachNode_fits {held : Lock → Prop} {rest : List Instr} (hlow : ∀ h, held h → h.rank < 2) (hrest : Fits held rest)
    (ids : List String) : Fits held (ids.flatMap readIp ++ rest) := by
  induction ids with
  | nil => exact hrest
  | cons id ids ih =>
    have hback : (fun h => (held h ∨ h = .node id) ∧ h ≠ .node id) = held := by
      funext h
      refine propext ⟨fun ⟨hor, hne⟩ => hor.resolve_right hne, fun hh => ⟨.inl hh, fun heq => ?_⟩⟩
      subst heq
      exact absurd (hlow _ hh) (by simp [Lock.rank])
    simp only [List.flatMap_cons, readIp, List.cons_append, List.nil_append, Fits]
    exact ⟨hlow, hback.symm ▸ ih⟩

/-! ## The invariant -/

/-- The locks that a party has, or has asked for. -/
def State.locked (s : State) (p : Party) (l : Lock) : Prop := queued (s.queue l) p = true

structure Inv (s : State) : Prop where
  placed : ∀ p, Placed (s.locked p) (s.script p)
  sending : ∀ x ∈ s.senders, ∃ rest, s.script x.1 = .send x.2 :: rest
  distinct : (s.senders.map Prod.fst).Nodup
  roomy : ∀ x ∈ s.senders, x.1 ≠ .worker ∧ (running (s.script x.1) = true → s.workerWaits = false)

theorem inv_start (t₀ : Nat) (nodes : List String) (tasks : List Scheduled) : Inv (start t₀ nodes tasks) where
  placed p l := by simp [start, State.locked]
  sending := by simp [start]
  distinct := by simp [start]
  roomy := by simp [start]

/-- What a step of one party leaves as it is: the scripts of the others, and their places in the queues. -/
structure Turn (s s' : State) (p : Party) : Prop where
  script : ∀ r, r ≠ p → s'.script r = s.script r
  locked : ∀ r, r ≠ p → s'.locked r = s.locked r
  ahead : ∀ r l, r ≠ p → s.locked r l → ∀ x ∈ ahead (s'.queue l) r, x ∈ ahead (s.queue l) r

/-- A step that asks for no lock and gives none back. -/
theorem Turn.of_queue {s s' : State} {p : Party} (hscript : ∀ r, r ≠ p → s'.script r = s.script r) (hqueue : s'.queue = s.queue) :
    Turn s s' p where
  script := hscript
  locked r _ := by
    funext l
    simp only [State.locked, hqueue]
  ahead r l _ _ x hx := by rwa [hqueue] at hx

theorem Turn.goOn {s s' : State} {p : Party} {script : List Instr} (h : s' = s.goOn p script) : Turn s s' p := by
  subst h
  exact .of_queue (fun r hr => Function.update_of_ne hr ..) rfl

theorem locked_request (s : State) (p r : Party) (l h : Lock) (m : Mode) (script : List Instr) :
    ((s.setQueue l (request (s.queue l) p m)).goOn p script).locked r h ↔ s.locked r h ∨ p = r ∧ h = l := by
  simp only [State.locked, State.goOn, State.setQueue]
  by_cases hl : h = l
  · subst hl
    simp
  · simp [hl]

theorem locked_release (s : State) (p r : Party) (l h : Lock) (script : List Instr) :
    ((s.setQueue l (release (s.queue l) p)).goOn p script).locked r h ↔ s.locked r h ∧ (h = l → r ≠ p) := by
  simp only [State.locked, State.goOn, State.setQueue]
  by_cases hl : h = l
  · subst hl
    simp
  · simp [hl]

theorem Turn.request (s : State) (p : Party) (l : Lock) (m : Mode) (script : List Instr) :
    Turn s ((s.setQueue l (request (s.queue l) p m)).goOn p script) p where
  script r hr := Function.update_of_ne hr ..
  locked r hr := by
    funext h
    simp [locked_request, Ne.symm hr]
  ahead r h hr hheld x hx := by
    simp only [State.goOn, State.setQueue] at hx
    by_cases hl : h = l
    · subst hl
      rwa [Function.update_self, FairLock.ahead_request hheld] at hx
    · rwa [Function.update_of_ne hl] at hx

theorem ahead_of_release {q : Queue Party} {p r : Party} (hr : r ≠ p) {x : Party × Mode} (h : x ∈ ahead (release q p) r) :
    x ∈ ahead q r := by
  rw [FairLock.ahead_release hr] at h
  exact List.mem_of_mem_filter h

theorem Turn.release (s : State) (p : Party) (l : Lock) (script : List Instr) :
    Turn s ((s.setQueue l (release (s.queue l) p)).goOn p script) p where
  script r hr := Function.update_of_ne hr ..
  locked r hr := by
    funext h
    simp [locked_release, hr]
  ahead r h hr _ x hx := by
    simp only [State.goOn, State.setQueue] at hx
    by_cases hl : h = l
    · subst hl
      rw [Function.update_self] at hx
      exact ahead_of_release hr hx
    · rwa [Function.update_of_ne hl] at hx

theorem Turn.leave (s : State) (p : Party) : Turn s (s.leave p) p where
  script r hr := Function.update_of_ne hr ..
  locked r hr := by
    funext h
    simp [State.locked, State.leave, hr]
  ahead r h hr _ x hx := ahead_of_release hr hx

theorem workerWaits_of_fits {s : State} {held : Lock → Prop} (h : Fits held (s.script .worker)) : s.workerWaits = false := by
  unfold State.workerWaits
  split
  · rename_i hawait
    exact (h.not_await _ _ _ hawait).elim
  · rfl

/-- The worker comes to wait by no step of another party. -/
theorem Turn.workerWaits {s s' : State} {p : Party} (t : Turn s s' p) (hp : p ≠ .worker)
    (hplaced : Placed (s.locked .worker) (s.script .worker)) (h : s.workerWaits = false) : s'.workerWaits = false := by
  unfold State.workerWaits at h ⊢
  rw [t.script _ (Ne.symm hp)]
  split
  · rename_i l m rest hawait
    rw [hawait] at h hplaced
    have hadmits : admits (s.queue l) .worker m = true := by simpa using h
    simp only [Bool.not_eq_false', admits, List.all_eq_true] at hadmits ⊢
    exact fun x hx => hadmits x (t.ahead _ l (Ne.symm hp) hplaced.1 x hx)
  · rfl

/-- **A party's step to a script that fits keeps the invariant.** -/
theorem Inv.move {s s' : State} {p : Party} (h : Inv s) (t : Turn s s' p) (hfits : Fits (s'.locked p) (s'.script p))
    (hs : s'.senders = s.senders) (hfree : ∀ x ∈ s.senders, x.1 ≠ p) : Inv s' where
  placed r := by
    by_cases hr : r = p
    · subst hr
      exact hfits.placed
    · rw [t.script r hr, t.locked r hr]
      exact h.placed r
  sending x hx := by
    rw [hs] at hx
    rw [t.script _ (hfree x hx)]
    exact h.sending x hx
  distinct := hs ▸ h.distinct
  roomy x hx := by
    rw [hs] at hx
    rw [t.script _ (hfree x hx)]
    obtain ⟨hne, hwaits⟩ := h.roomy x hx
    refine ⟨hne, fun hrun => ?_⟩
    by_cases hp : p = .worker
    · subst hp
      exact workerWaits_of_fits hfits
    · exact t.workerWaits hp (h.placed _) (hwaits hrun)

/-- Whose script is not at a send waits for no place. -/
theorem Inv.free {s : State} (h : Inv s) {p : Party} (hscript : ∀ a rest, s.script p ≠ .send a :: rest) :
    ∀ x ∈ s.senders, x.1 ≠ p := by
  intro x hx heq
  obtain ⟨rest, hrest⟩ := h.sending x hx
  exact hscript _ rest (heq ▸ hrest)

theorem Inv.fits {s : State} (h : Inv s) {p : Party} (hscript : ∀ l m rest, s.script p ≠ .await l m :: rest) :
    Fits (s.locked p) (s.script p) := by
  have hplaced := h.placed p
  unfold Placed at hplaced
  split at hplaced
  · exact (hscript _ _ _ ‹_›).elim
  · exact hplaced

/-- A step that only moves on in the script. -/
theorem Inv.goOn {s s' : State} {p : Party} {script : List Instr} (h : Inv s) (hs : s'.senders = s.senders)
    (hqueue : s'.queue = s.queue) (hto : s'.script = Function.update s.script p script) (hfits : Fits (s.locked p) script)
    (hfree : ∀ x ∈ s.senders, x.1 ≠ p) : Inv s' := by
  refine h.move (p := p) (.of_queue (fun r hr => by rw [hto, Function.update_of_ne hr]) hqueue) ?_ hs hfree
  have hlocked : s'.locked p = s.locked p := by
    funext l
    simp only [State.locked, hqueue]
  rw [hto, Function.update_self, hlocked]
  exact hfits

theorem Inv.leave {s : State} {p : Party} (h : Inv s) (hfree : ∀ x ∈ s.senders, x.1 ≠ p) : Inv (s.leave p) := by
  refine h.move (.leave s p) ?_ rfl hfree
  show Fits _ (Function.update s.script p [] p)
  rw [Function.update_self]
  intro l
  simp [State.locked, State.leave]

/-- A lock is asked for; the worker has it at once when a plugin function waits for a place. -/
theorem Inv.ask {s : State} {p : Party} {l : Lock} {m : Mode} {rest : List Instr} (h : Inv s)
    (hscript : s.script p = .acquire l m :: rest)
    (hroom : p = .worker → (s.queue l).all (fun r => m.shares r.2) = true ∨ ∀ x ∈ s.senders, running (s.script x.1) = false) :
    Inv ((s.setQueue l (request (s.queue l) p m)).goOn p (.await l m :: rest)) := by
  have hfits := h.fits (p := p) (by simp [hscript])
  have hfree := h.free (p := p) (by simp [hscript])
  have t := Turn.request s p l m (.await l m :: rest)
  rw [hscript] at hfits
  obtain ⟨hlow, hrest⟩ := hfits
  have hnew : ¬ s.locked p l := fun hl => Nat.lt_irrefl _ (hlow l hl)
  have hlocked : ((s.setQueue l (request (s.queue l) p m)).goOn p (.await l m :: rest)).locked p =
      fun h => s.locked p h ∨ h = l := by
    funext h
    simp [locked_request]
  refine ⟨fun r => ?_, fun x hx => ?_, h.distinct, fun x hx => ?_⟩
  · by_cases hr : r = p
    · subst hr
      rw [hlocked]
      show Placed _ (Function.update s.script r _ r)
      rw [Function.update_self]
      exact ⟨.inr rfl, fun h hh hne => hlow h (hh.resolve_right hne), hrest⟩
    · rw [t.script r hr, t.locked r hr]
      exact h.placed r
  · rw [t.script _ (hfree x hx)]
    exact h.sending x hx
  · rw [t.script _ (hfree x hx)]
    obtain ⟨hne, hwaits⟩ := h.roomy x hx
    refine ⟨hne, fun hrun => ?_⟩
    by_cases hp : p = .worker
    · subst hp
      obtain hshares | hnone := hroom rfl
      · have hq : queued (s.queue l) .worker = false := by simpa [State.locked] using hnew
        simpa [State.workerWaits, State.goOn, State.setQueue, admits, FairLock.ahead_request_self hq] using hshares
      · simp [hnone x hx] at hrun
    · exact t.workerWaits hp (h.placed _) (hwaits hrun)

/-- A party comes to wait for a place; one that runs a plugin function only while the worker waits for no lock. -/
theorem Inv.block {s : State} {p : Party} {a : Action} {rest : List Instr} (h : Inv s) (hscript : s.script p = .send a :: rest)
    (hnew : ∀ x ∈ s.senders, x.1 ≠ p) (hroom : p ≠ .worker ∧ (running rest = true → s.workerWaits = false)) :
    Inv { s with senders := s.senders ++ [(p, a)] } where
  placed := h.placed
  sending x hx := by
    obtain hold | hsame := List.mem_append.mp hx
    · exact h.sending x hold
    · rw [List.mem_singleton.mp hsame]
      exact ⟨rest, hscript⟩
  distinct := by
    have hp : p ∉ s.senders.map Prod.fst := by
      intro hmem
      obtain ⟨x, hx, heq⟩ := List.mem_map.mp hmem
      exact hnew x hx heq
    simp only [List.map_append, List.map_cons, List.map_nil]
    exact List.nodup_append.mpr ⟨h.distinct, List.nodup_singleton _, fun b hb c hc heq =>
      hp (List.mem_singleton.mp hc ▸ heq ▸ hb)⟩
  roomy x hx := by
    obtain hold | hsame := List.mem_append.mp hx
    · exact h.roomy x hold
    · rw [List.mem_singleton.mp hsame]
      refine ⟨hroom.1, fun hrun => hroom.2 ?_⟩
      simpa [hscript, running, Instr.isPlugin] using hrun

/-- A party at an instruction that is done at once. -/
theorem Inv.at_ {s : State} {p : Party} {i : Instr} {rest : List Instr} (h : Inv s) (hscript : s.script p = i :: rest)
    (hawait : ∀ l m, i ≠ .await l m) (hsend : ∀ a, i ≠ .send a) :
    Fits (s.locked p) (i :: rest) ∧ ∀ x ∈ s.senders, x.1 ≠ p := by
  refine ⟨hscript ▸ h.fits fun l m rest' heq => ?_, h.free fun a rest' heq => ?_⟩
  · rw [hscript] at heq
    exact hawait l m (List.cons.inj heq).1
  · rw [hscript] at heq
    exact hsend a (List.cons.inj heq).1

theorem Inv.exec {s s' : State} {p : Party} (h : Inv s) (hroom : Roomy s (.exec p)) (hstep : exec s p = some s') : Inv s' := by
  unfold SchedulerLocks.exec at hstep
  split at hstep
  · rename_i hscript
    split at hstep
    · rename_i task pending hpending
      cases hstep
      have hfree := h.free (p := .worker) (by simp [hscript])
      have hnone := h.fits (p := .worker) (by simp [hscript])
      rw [hscript] at hnone
      have hlocked : s.locked .worker = fun _ => False := by
        funext l
        exact eq_false (hnone l)
      exact h.goOn rfl rfl rfl (hlocked ▸ onNode_fits task.nodeId) hfree
    · cases hstep
  · rename_i l m rest hscript
    cases hstep
    simp only [Roomy, hscript] at hroom
    exact h.ask hscript hroom
  · rename_i l m rest hscript
    split at hstep
    · cases hstep
      have hplaced := h.placed p
      rw [hscript] at hplaced
      exact h.goOn rfl rfl rfl hplaced.2.2 (h.free (by simp [hscript]))
    · cases hstep
  · rename_i l rest hscript
    cases hstep
    obtain ⟨hfits, hfree⟩ := h.at_ hscript (by simp) (by simp)
    refine h.move (.release s p l rest) ?_ rfl hfree
    have hlocked : ((s.setQueue l (release (s.queue l) p)).goOn p rest).locked p = fun h => s.locked p h ∧ h ≠ l := by
      funext h
      simp [locked_release]
    rw [hlocked]
    show Fits _ (Function.update s.script p rest p)
    rw [Function.update_self]
    exact hfits
  · rename_i id rest hscript
    obtain ⟨hfits, hfree⟩ := h.at_ hscript (by simp) (by simp)
    split at hstep
    · cases hstep
      exact h.goOn rfl rfl rfl hfits hfree
    · cases hstep
      exact h.leave hfree
  · rename_i rest hscript
    cases hstep
    obtain ⟨hfits, hfree⟩ := h.at_ hscript (by simp) (by simp)
    exact h.goOn rfl rfl rfl (eachNode_fits hfits.1 hfits.2 s.nodes) hfree
  · rename_i rest hscript
    cases hstep
    obtain ⟨hfits, hfree⟩ := h.at_ hscript (by simp) (by simp)
    exact h.goOn rfl rfl rfl hfits hfree
  · rename_i id rest hscript
    cases hstep
    obtain ⟨hfits, hfree⟩ := h.at_ hscript (by simp) (by simp)
    exact h.goOn rfl rfl rfl hfits hfree
  · rename_i id rest hscript
    cases hstep
    obtain ⟨hfits, hfree⟩ := h.at_ hscript (by simp) (by simp)
    exact h.goOn rfl rfl rfl hfits hfree
  · cases hstep
  · rename_i a rest hscript
    split at hstep
    · cases hstep
    · rename_i hnone
      have hnew : ∀ x ∈ s.senders, x.1 ≠ p := fun x hx heq => hnone (List.any_eq_true.mpr ⟨x, hx, by simpa using heq⟩)
      have hfits := h.fits (p := p) (by simp [hscript])
      rw [hscript] at hfits
      simp only [Roomy, hscript] at hroom
      split at hstep
      · cases hstep
        exact h.goOn rfl rfl rfl hfits.2 hnew
      · rename_i hfull
        cases hstep
        exact h.block hscript hnew (hroom.resolve_left hfull)

/-- The first who waits for a place gets it, and goes on. -/
theorem Inv.take {s s' : State} {at_ : Nat} (h : Inv s) (hstep : take s at_ = some s') : Inv s' := by
  unfold SchedulerLocks.take at hstep
  split at hstep
  · split at hstep
    · cases hstep
    · rename_i a channel hchannel
      split at hstep
      · cases hstep
        exact ⟨h.placed, h.sending, h.distinct, h.roomy⟩
      · rename_i p b senders hsenders
        cases hstep
        obtain ⟨rest, hscript⟩ := h.sending (p, b) (by simp [hsenders])
        have hfits := h.fits (p := p) (by simp [hscript])
        have hdistinct := h.distinct
        simp only [hscript, Fits, hsenders, List.map_cons, List.nodup_cons] at hfits hdistinct
        obtain ⟨hnew, hdistinct⟩ := hdistinct
        have hsub : ∀ x ∈ senders, x ∈ s.senders := fun x hx => hsenders ▸ List.mem_cons_of_mem _ hx
        -- who waits behind it is of the state without it
        have hbehind : Inv { s with senders } :=
          ⟨h.placed, fun x hx => h.sending x (hsub x hx), hdistinct, fun x hx => h.roomy x (hsub x hx)⟩
        rw [hscript]
        exact hbehind.goOn rfl rfl rfl hfits.2 fun x hx heq => hnew (heq ▸ List.mem_map_of_mem hx)
  · cases hstep

/-- **Every step that leaves room keeps the invariant.** -/
theorem Inv.step {s s' : State} {e : Event} (h : Inv s) (hroom : Roomy s e) (hstep : step s e = some s') : Inv s' := by
  cases e with
  | call i request =>
    simp only [SchedulerLocks.step] at hstep
    split at hstep
    · rename_i hscript
      cases hstep
      have hnone := h.fits (p := .caller i) (by simp [hscript])
      rw [hscript] at hnone
      have hlocked : s.locked (.caller i) = fun _ => False := by
        funext l
        exact eq_false (hnone l)
      exact h.goOn rfl rfl rfl (hlocked ▸ request.fits) (h.free (by simp [hscript]))
    · cases hstep
  | pass now =>
    simp only [SchedulerLocks.step, pass] at hstep
    split at hstep
    · cases hstep
      exact ⟨h.placed, h.sending, h.distinct, h.roomy⟩
    · cases hstep
  | take at_ => exact h.take hstep
  | exec p => exact h.exec hroom hstep
  | issue p a =>
    simp only [SchedulerLocks.step] at hstep
    split at hstep
    · rename_i rest hscript
      cases hstep
      obtain ⟨hfits, hfree⟩ := h.at_ hscript nofun nofun
      exact h.goOn rfl rfl rfl ⟨by simp [running, Instr.isPlugin], hfits⟩ hfree
    · cases hstep
  | ret p =>
    simp only [SchedulerLocks.step] at hstep
    split at hstep
    · rename_i rest hscript
      cases hstep
      obtain ⟨hfits, hfree⟩ := h.at_ hscript nofun nofun
      exact h.goOn rfl rfl rfl hfits hfree
    · cases hstep
  | bail p =>
    simp only [SchedulerLocks.step] at hstep
    split at hstep
    · rename_i rest hscript
      cases hstep
      exact h.leave (h.at_ hscript nofun nofun).2
    · cases hstep

/-! ## Waits -/

theorem Inv.no_cycle {s : State} (h : Inv s) : ¬ ∃ p, Relation.TransGen s.Waits p p := by
  refine @FairLock.no_cycle Lock Party _ s.queue s.wants Lock.rank (fun p r => (∃ a, (p, a) ∈ s.senders) ∧ r = .worker) ?_ ?_
  · intro p l m l' hwants hlocked hne
    have hplaced := h.placed p
    unfold State.wants at hwants
    split at hwants
    · rename_i hscript
      cases hwants
      rw [hscript] at hplaced
      exact hplaced.2.1 l' hlocked hne
    · cases hwants
  · intro p r ⟨⟨a, hmem⟩, hr⟩
    subst hr
    obtain ⟨rest, hscript⟩ := h.sending _ hmem
    refine ⟨by simp [State.wants, hscript], fun x ⟨⟨b, hb⟩, _⟩ => (h.roomy _ hb).1 rfl, fun ⟨l, hl⟩ x => ?_⟩
    have hfits := h.fits (p := p) (by simp [hscript])
    rw [hscript] at hfits
    have hrun : running (s.script p) = true := by
      rw [hscript]
      cases hrun : running rest with
      | true => simpa [running, Instr.isPlugin] using hrun
      | false => exact absurd hl (hfits.1 hrun l)
    have hwaits := (h.roomy _ hmem).2 hrun
    intro hx
    cases hscript' : s.wants .worker with
    | none => exact hx.wants_ne hscript'
    | some w =>
      unfold State.wants at hscript'
      split at hscript'
      · rename_i l' m' rest' hawait
        refine FairLock.not_waits_of_admits (l := l') (m := m') (by simp [State.wants, hawait]) ?_ hx
        simpa [State.workerWaits, hawait] using hwaits
      · cases hscript'

/-- **Nobody waits for himself** around the scheduler in a run in which a plugin function never waits for a place
in the channel while the worker runs it, or waits for a lock. -/
theorem scheduler_deadlock_free {t₀ : Nat} {nodes : List String} {tasks : List Scheduled} {events : List Event} {s : State}
    (hroom : Machine.Along step Roomy (start t₀ nodes tasks) events)
    (hrun : Machine.run step (start t₀ nodes tasks) events = some s) : ¬ ∃ p, Relation.TransGen s.Waits p p :=
  (Machine.run_invariant step (fun _ _ _ h hroom hs => Inv.step h hroom hs) (inv_start t₀ nodes tasks) hroom hrun).no_cycle

/-- Node a is called and adds a task while the worker has nothing to do. -/
def calls : List Event :=
  .call 0 (.callMethod "a") :: List.replicate 6 (.exec (.caller 0)) ++
    [.issue (.caller 0) (.add (Scheduler.tick "a" "u")), .exec (.caller 0), .take 5, .ret (.caller 0)]

theorem scheduler_deadlock_free_calls :
    ∃ s, Machine.run step (start 0 ["a"] []) calls = some s ∧ ¬ ∃ p, Relation.TransGen s.Waits p p := by
  have hruns : (Machine.run step (start 0 ["a"] []) calls).isSome = true := by decide
  obtain ⟨s, hrun⟩ := Option.isSome_iff_exists.mp hruns
  exact ⟨s, hrun, scheduler_deadlock_free (by decide) hrun⟩

/-- A function of node a, which the worker runs, adds seventeen tasks. -/
def floods : List Event :=
  .pass 10 :: List.replicate 7 (.exec .worker) ++
    (List.replicate 17 [.issue .worker (.add (Scheduler.tick "a" "u")), .exec .worker]).flatten

/-- The worker waits for itself. -/
theorem scheduler_deadlocks :
    ¬ ∀ (t₀ : Nat) (nodes : List String) (tasks : List Scheduled) (events : List Event) (s : State),
      Machine.run step (start t₀ nodes tasks) events = some s → ¬ ∃ p, Relation.TransGen s.Waits p p := by
  intro h
  have hstuck : (Machine.run step (start 0 ["a"] [Scheduler.tick "a" "t"]) floods).any
      (fun s => s.senders.any (·.1 = .worker)) = true := by decide
  obtain ⟨s, hrun, hs⟩ := (Option.any_eq_true ..).mp hstuck
  obtain ⟨⟨p, a⟩, hmem, hp⟩ := List.any_eq_true.mp hs
  have hworker : p = .worker := by simpa using hp
  subst hworker
  exact h _ _ _ _ s hrun ⟨.worker, .single (.inr ⟨⟨a, hmem⟩, rfl⟩)⟩

end SchedulerLocks

end Blockvisor
