/-
What the operations of the jobs manager leave alone. `Stable` is an invariant
of a job's slot that no write of a file or of a state breaks, and no end of a
runner: every client operation keeps it, and so do passes when a runner's
start does. `settle_keeps` and its like lift what an operation keeps to the
step that performs it. `registered_step` is the first invariant of the whole:
the registry has the jobs that are loaded, each once.
-/
import Blockvisor.Babel.JobsManager

namespace Blockvisor

open Effect Machine

/-! ## Slots -/

/-- An invariant that nothing breaks but a new job, a new config or a new runner. -/
structure Stable (I : JobSlot → Prop) : Prop where
  status : ∀ {s}, I s → ∀ status byRunner, I { s with status, byRunner }
  state : ∀ {s}, I s → ∀ state, I (s.withState state)
  runners : ∀ {s}, I s → ∀ runners, (∀ pid ∈ runners, pid ∈ s.runners) → I { s with runners }

namespace Stable

variable {I : JobSlot → Prop} (hI : Stable I)

include hI

theorem writeStatus {s : JobSlot} (h : I s) (status : JobStatus) (cut : DocCut) (byRunner : Bool) :
    I (s.writeStatus status cut byRunner) := by
  unfold JobSlot.writeStatus
  split
  · exact h
  · exact hI.status h _ _

theorem removeStatus {s : JobSlot} (h : I s) (cut : DocCut) : I (s.removeStatus cut) := by
  unfold JobSlot.removeStatus
  split
  · exact h
  · exact hI.status h _ _

theorem setState (state : JobState) : Keeps I I (JobSlot.setState state) := Keeps.modify fun _ h => hI.state h state

theorem clearStatus (fault : Fault DocCut) : Keeps I I (JobSlot.clearStatus fault) := by
  refine Keeps.of_run fun s h => ?_
  unfold JobSlot.clearStatus
  split
  · exact h
  · exact hI.removeStatus h _

theorem saveStatus (state : JobState) (fault : Fault DocCut) : Keeps I I (JobSlot.saveStatus state fault) := by
  unfold JobSlot.saveStatus
  split
  · exact Keeps.pure
  · exact hI.clearStatus fault
  · exact Keeps.of_run fun s h => hI.writeStatus h _ _ _

theorem lastWords (env : TerminateEnv) : Keeps I I (JobSlot.lastWords env) := by
  unfold JobSlot.lastWords
  split
  · exact Keeps.modify fun s h => hI.writeStatus h _ _ _
  · exact Keeps.pure

theorem terminateJobProcess (name : String) (pid : Nat) (env : TerminateEnv) :
    Keeps I I (JobSlot.terminateJobProcess name pid env) := by
  have hend : ∀ s, I s → I (s.runnerEnds pid) := fun s h => hI.runners h _ fun _ hpid => (List.mem_filter.mp hpid).1
  refine Keeps.bind Keeps.gets fun runners => Keeps.ite (Keeps.bind (hI.lastWords env) fun _ => ?_) Keeps.pure
  split
  · exact Keeps.modify hend
  · exact Keeps.throw
  · exact Keeps.bind (Keeps.when (Keeps.modify hend)) fun _ => Keeps.kill fun _ h => h

theorem killAllProcesses (env : TerminateEnv) : Keeps I I (JobSlot.killAllProcesses env) := by
  have hend : ∀ s, I s → I { s with runners := [] } := fun s h => hI.runners h _ (by simp)
  refine Keeps.bind (hI.lastWords env) fun _ => ?_
  split
  · exact Keeps.kill fun _ h => h
  · exact Keeps.bind (Keeps.modify hend) fun _ => Keeps.kill fun _ h => h
  · exact Keeps.modify hend

theorem terminateActive (name : String) (env : TerminateEnv) : Keeps I I (JobSlot.terminateActive name env) := by
  refine Keeps.bind Keeps.gets fun pid => ?_
  split
  · exact hI.terminateJobProcess name _ env
  · exact Keeps.pure

/-- A create, up to the new job. -/
theorem create {J : JobSlot → Prop} (name : String) (config : JobConfig) (room : Bool) (env : CreateEnv)
    (hconfig : ∀ s config, I s → I { s with config })
    (hjob : ∀ s, I s → J { s with job := some ⟨config, .inactive .stopped⟩ }) :
    Triple I (JobSlot.create name config room env) (fun _ => J) (atExit I I) := by
  refine Triple.bind Keeps.gets fun job => Triple.bind (Keeps.when Keeps.throw) fun _ => ?_
  refine Triple.bind (hI.terminateActive name _) fun _ => Triple.bind (Keeps.of_run fun _ h => h) fun _ => ?_
  refine Triple.bind (hI.saveStatus _ _) fun _ => Triple.bind (Keeps.of_run fun _ h => hconfig _ _ h) fun _ => ?_
  exact Triple.modify hjob

theorem start (name : String) (save : Fault DocCut) : Keeps I I (JobSlot.start name save) := by
  refine Keeps.bind Keeps.gets fun job => ?_
  split
  · exact Keeps.throw
  split
  · exact Keeps.pure
  · exact Keeps.bind (hI.setState _) fun _ => Keeps.bind (hI.saveStatus _ _) fun _ => Keeps.pure

theorem halt (name : String) (status : JobStatus) (env : HaltEnv) : Keeps I I (JobSlot.halt name status env) := by
  refine Keeps.bind Keeps.gets fun job => Keeps.bind (Keeps.when Keeps.throw) fun _ => ?_
  refine Keeps.bind (hI.terminateActive name _) fun _ => ?_
  exact Keeps.bind (hI.setState _) fun _ => hI.saveStatus _ _

theorem shutdown (name : String) (force : Bool) (env : TerminateEnv) : Keeps I I (JobSlot.shutdown name force env) := by
  refine Keeps.bind Keeps.gets fun pid => ?_
  split
  · refine Keeps.bind ?_ fun _ => hI.setState _
    exact Keeps.ite (hI.killAllProcesses env) (hI.terminateJobProcess name _ env)
  · exact Keeps.pure

theorem fail (message : String) (save : Fault DocCut) : Keeps I I (JobSlot.fail message save) :=
  Keeps.bind (hI.setState _) fun _ => Keeps.bind (Keeps.attempt (hI.saveStatus _ save)) fun _ => Keeps.pure

theorem runnerSaves {s : JobSlot} (h : I s) (save : RunnerSave) : I (s.runnerSaves save) := hI.writeStatus h _ _ _

/-! What follows may start a runner. -/

variable (hspawn : ∀ s, I s → I s.spawnRunner)

include hspawn

theorem startJob (name : String) (env : RunnerEnv) : Keeps I I (JobSlot.startJob name env) := by
  refine Keeps.bind (Keeps.attempt (hI.clearStatus _)) fun cleared => ?_
  split
  · exact hI.setState _
  refine Keeps.bind (Keeps.attempt (Keeps.bind Keeps.gets fun pid => ?_)) fun spawned => ?_
  · split
    · exact Keeps.bind (Keeps.modify hspawn) fun _ => Keeps.pure
    · exact Keeps.throw
    · exact Keeps.bind (Keeps.when (Keeps.modify hspawn)) fun _ => Keeps.kill fun _ h => h
  · split
    · exact hI.setState _
    · exact hI.fail _ _

theorem handleStoppedJob (name : String) (env : RunnerEnv) : Keeps I I (JobSlot.handleStoppedJob name env) := by
  refine Keeps.bind Keeps.gets fun slot => ?_
  split
  · exact Keeps.pure
  · exact Keeps.ite (hI.setState _) (hI.startJob hspawn name env)

theorem updateActiveJob (name : String) (ps : List Nat) (env : RunnerEnv) :
    Keeps I I (JobSlot.updateActiveJob name ps env) := by
  refine Keeps.bind Keeps.gets fun pid => ?_
  split
  · exact Keeps.ite Keeps.pure (hI.handleStoppedJob hspawn name env)
  · exact Keeps.pure

theorem checkInactiveJob (name : String) (deps : String → Option Job) (env : RunnerEnv) :
    Keeps I I (JobSlot.checkInactiveJob name deps env) := by
  refine Keeps.bind Keeps.gets fun job => ?_
  split
  · exact Keeps.pure
  split
  · split
    · exact hI.startJob hspawn name env
    · exact Keeps.pure
    · exact hI.fail _ _
  · exact hI.handleStoppedJob hspawn name env
  · exact Keeps.pure

end Stable

/-! ## Steps -/

namespace JobsSt

theorem setSlot_same (s : JobsSt) (name : String) (slot : JobSlot) : (s.setSlot name slot).slots name = slot := if_pos rfl

theorem setSlot_other (s : JobsSt) {name n : String} (slot : JobSlot) (h : n ≠ name) :
    (s.setSlot name slot).slots n = s.slots n := if_neg h

/-- What an operation comes to, by the triple of the operation. -/
theorem settle_triple {α : Type} {I P : JobsSt → Prop} {Q : α → JobsSt → Prop} {E : Exit String → JobsSt → Prop}
    {m : Effect String JobsSt α} {ok : α → JobsSt → JobsSt} {s : JobsSt} (hm : Triple P m Q E) (hs : P s)
    (hok : ∀ a s, Q a s → I (ok a s)) (herror : ∀ e s, E (.error e) s → I s) (hcrash : ∀ s, E .killed s → I s.crash) :
    I (settle (m s) ok) := by
  have h := hm s hs
  unfold settle
  cases hr : m s with
  | mk r s' =>
    rw [hr] at h
    cases r with
    | ok a => exact hok a s' h
    | error e =>
      cases e with
      | error e => exact herror e s' h
      | killed => exact hcrash s' h

theorem settle_keeps {α : Type} {I K : JobsSt → Prop} {m : Effect String JobsSt α} {ok : α → JobsSt → JobsSt} {s : JobsSt}
    (hm : Keeps I K m) (hcrash : ∀ s, K s → I s.crash) (hok : ∀ a s, I s → I (ok a s)) (hs : I s) : I (settle (m s) ok) :=
  settle_triple hm hs hok (fun _ _ h => h) hcrash

/-- What an operation on a slot comes to. -/
theorem settle_onSlot {α : Type} {I : JobsSt → Prop} {P : JobSlot → Prop} {Q : α → JobSlot → Prop}
    {E : Exit String → JobSlot → Prop} {name : String} {m : SlotM α} {ok : α → JobsSt → JobsSt} {s : JobsSt}
    (hm : Triple P m Q E) (hs : P (s.slots name)) (hok : ∀ a slot, Q a slot → I (ok a (s.setSlot name slot)))
    (herror : ∀ e slot, E (.error e) slot → I (s.setSlot name slot))
    (hcrash : ∀ slot, E .killed slot → I (s.setSlot name slot).crash) : I (settle (onSlot name m s) ok) := by
  have h := hm (s.slots name) hs
  unfold settle onSlot zoom
  cases hr : m (s.slots name) with
  | mk r slot =>
    rw [hr] at h
    cases r with
    | ok a => exact hok a slot h
    | error e =>
      cases e with
      | error e => exact herror e slot h
      | killed => exact hcrash slot h

theorem fold_keeps {I : JobsSt → Prop} {f : JobsSt → String → JobsSt} {names : List String}
    (hf : ∀ s, ∀ name ∈ names, I s → I (f s name)) {s : JobsSt} (h : I s) : I (names.foldl f s) := by
  induction names generalizing s with
  | nil => exact h
  | cons name names ih =>
    exact ih (fun s n hn => hf s n (List.mem_cons_of_mem _ hn)) (hf s name (List.mem_cons_self ..) h)

theorem loadJobs_keeps {I : JobsSt → Prop} {env : LoadEnv}
    (hone : ∀ s, ∀ name ∈ env.order, I s → I (loadOne env s name)) : Keeps I I (fun s => loadJobs s env) := by
  refine Keeps.of_run fun s h => ?_
  unfold loadJobs
  split
  · exact fold_keeps hone h
  · exact fold_keeps (fun s name hname => hone s name (List.mem_of_mem_take hname)) h

/-- What a boot leads to, once what it sets first is set. -/
theorem boot_keeps {I : JobsSt → Prop} {s : JobsSt} {ready : Bool} {env : LoadEnv}
    (hset : I { s with up := true, nodeEnv := ready, phase := .starting, down := false })
    (hone : ∀ s, ∀ name ∈ env.order, I s → I (loadOne env s name)) (hcrash : ∀ s, I s → I s.crash)
    (hready : ∀ s, I s → I { s with managerState := .ready }) : I (s.boot ready env) := by
  unfold boot
  dsimp only
  split
  · have hload := (loadJobs_keeps hone).run hset
    split
    · rename_i heq
      rw [heq] at hload
      exact hready _ hload
    · rename_i heq
      rw [heq] at hload
      exact hcrash _ hload
  · exact hset

/-- What an operation on a slot keeps, if that is all there is to keep. -/
theorem onSlot_keeps {α : Type} {I : JobsSt → Prop} {J : JobSlot → Prop} {name : String} {m : SlotM α} (hm : Keeps J J m)
    (hJ : ∀ s, I s → J (s.slots name)) (hI : ∀ s slot, I s → J slot → I (s.setSlot name slot)) :
    Keeps I I (onSlot name m) :=
  Keeps.of_run fun s h => hI s _ h (hm.run (hJ s h))

/-- A half of a pass on one job adds to the record. -/
theorem examine_keeps {I K : JobsSt → Prop} {name : String} {deps : String → Option Job} {m : SlotM Unit}
    (hm : Keeps I K (onSlot name m)) (hI : ∀ s passed, I s → I { s with passed })
    (hK : ∀ s passed, K s → K { s with passed }) : Keeps I K (examine name deps m) := by
  intro s h
  have hrun := hm s h
  unfold examine
  revert hrun
  cases onSlot name m s with
  | mk r s' =>
    dsimp only
    cases (s.slots name).job with
    | none => exact id
    | some job =>
      cases r with
      | ok a => exact hI _ _
      | error e =>
        cases e with
        | error e => exact hI _ _
        | killed => exact hK _ _

/-- The event of what became of a slot. -/
def EventOf (e : JobEvent) (before after : JobSlot) : Prop :=
  e.started = decide (before.next < after.next) ∧ e.halted = before.halted

/-- Each of the computations is one on the slot of a job, that may add its event to the record. -/
def OnSlots (f : String → JobsM Unit) (m : String → SlotM Unit) : Prop :=
  ∀ name s, ∃ passed, f name s = ((m name (s.slots name)).1, { s.setSlot name (m name (s.slots name)).2 with passed }) ∧
    ∀ e ∈ passed, e ∈ s.passed ∨ EventOf e (s.slots name) (m name (s.slots name)).2

theorem onSlots_onSlot (m : String → SlotM Unit) : OnSlots (fun name => onSlot name (m name)) m := fun _ s =>
  ⟨s.passed, rfl, fun _ he => .inl he⟩

theorem onSlots_examine (deps : String → Option Job) (m : String → SlotM Unit) :
    OnSlots (fun name => examine name deps (m name)) m := by
  intro name s
  dsimp only
  unfold examine onSlot zoom
  dsimp only
  cases (s.slots name).job with
  | none => exact ⟨s.passed, rfl, fun _ he => .inl he⟩
  | some job =>
    refine ⟨_, rfl, fun e he => ?_⟩
    rcases List.mem_append.mp he with he | he
    · exact .inl he
    · rw [List.mem_singleton.mp he, setSlot_same]
      exact .inr ⟨rfl, rfl⟩

/-- What computations on the slots of some jobs, one after another, have made of them until they
ended in `r`: each is as it was, or what its computation leaves. -/
structure Touched (s s' : JobsSt) (order : List String) (m : String → SlotM Unit) (r : Except (Exit String) Unit) : Prop where
  slots : ∀ n, s'.slots n = s.slots n ∨
    n ∈ order ∧ s'.slots n = (m n (s.slots n)).2 ∧ ((m n (s.slots n)).1 = .ok () ∨ (m n (s.slots n)).1 = r)
  others : ∀ n, n ∉ order → s'.slots n = s.slots n
  all : r = .ok () → ∀ n ∈ order, s'.slots n = (m n (s.slots n)).2 ∧ (m n (s.slots n)).1 = .ok ()
  failed : ∀ e, r = .error e → ∃ n ∈ order, (m n (s.slots n)).1 = .error e
  same : ∃ slots passed, s' = { s with slots, passed }
  record : ∀ e ∈ s'.passed, e ∈ s.passed ∨ ∃ n ∈ order, EventOf e (s.slots n) (m n (s.slots n)).2

/-- No job is touched twice, and none is seen as another one's computation left it. -/
theorem forM_touched {f : String → JobsM Unit} {m : String → SlotM Unit} (hf : OnSlots f m) :
    ∀ {order : List String} (s : JobsSt), order.Nodup →
      Touched s ((order.forM f : JobsM Unit) s).2 order m ((order.forM f : JobsM Unit) s).1
  | [], s, _ =>
    { slots := fun _ => .inl rfl
      others := fun _ _ => rfl
      all := by simp
      failed := by
        intro e he
        cases he
      same := ⟨s.slots, s.passed, rfl⟩
      record := fun _ he => .inl he }
  | name :: order, s, hnodup => by
    obtain ⟨passed, hone, hevents⟩ := hf name s
    obtain ⟨hnot, hnodup⟩ := List.nodup_cons.mp hnodup
    let t : JobsSt := { s.setSlot name (m name (s.slots name)).2 with passed }
    have ht : ∀ n, n ≠ name → t.slots n = s.slots n := fun n hn => setSlot_other s _ hn
    have hthis : t.slots name = (m name (s.slots name)).2 := setSlot_same ..
    have htail : ∀ n ∈ order, t.slots n = s.slots n := fun n hn => ht n fun heq => hnot (heq ▸ hn)
    show Touched s ((f name >>= fun _ => order.forM f : JobsM Unit) s).2 _ m ((f name >>= fun _ => order.forM f : JobsM Unit) s).1
    cases hr : (m name (s.slots name)).1 with
    | error e =>
      have hstop : (f name >>= fun _ => order.forM f : JobsM Unit) s = (.error e, t) := bind_of_error (hone.trans (by rw [hr]))
      rw [hstop]
      refine ⟨fun n => ?_, fun n hn => ht n fun heq => hn (heq ▸ List.mem_cons_self ..), fun hok => ?_, fun e' he => ?_,
        ⟨_, _, rfl⟩, fun e' he => ?_⟩
      · by_cases hn : n = name
        · subst hn
          exact .inr ⟨List.mem_cons_self .., hthis, .inr hr⟩
        · exact .inl (ht n hn)
      · cases hok
      · cases he
        exact ⟨name, List.mem_cons_self .., hr⟩
      · exact (hevents e' he).imp_right fun he => ⟨name, List.mem_cons_self .., he⟩
    | ok _ =>
      have hnext : (f name >>= fun _ => order.forM f : JobsM Unit) s = (order.forM f : JobsM Unit) t :=
        bind_of_ok (hone.trans (by rw [hr]))
      rw [hnext]
      have hrest := forM_touched hf t hnodup
      refine ⟨fun n => ?_, fun n hn => ?_, fun hok n hn => ?_, fun e he => ?_, ?_, fun e he => ?_⟩
      · by_cases hn : n = name
        · subst hn
          exact .inr ⟨List.mem_cons_self .., (hrest.others n hnot).trans hthis, .inl hr⟩
        · rcases hrest.slots n with heq | ⟨hmem, heq, hres⟩
          · exact .inl (heq.trans (ht n hn))
          · rw [ht n hn] at heq hres
            exact .inr ⟨List.mem_cons_of_mem _ hmem, heq, hres⟩
      · rw [hrest.others n fun h => hn (List.mem_cons_of_mem _ h)]
        exact ht n fun heq => hn (heq ▸ List.mem_cons_self ..)
      · rcases List.mem_cons.mp hn with rfl | hn
        · exact ⟨(hrest.others n hnot).trans hthis, hr⟩
        · exact htail n hn ▸ hrest.all hok n hn
      · obtain ⟨n, hn, he⟩ := hrest.failed e he
        exact ⟨n, List.mem_cons_of_mem _ hn, htail n hn ▸ he⟩
      · obtain ⟨slots, passed', heq⟩ := hrest.same
        exact ⟨slots, passed', heq⟩
      · rcases hrest.record e he with he | ⟨n, hn, he⟩
        · exact (hevents e he).imp_right fun he => ⟨name, List.mem_cons_self .., he⟩
        · rw [htail n hn] at he
          exact .inr ⟨n, List.mem_cons_of_mem _ hn, he⟩

end JobsSt

/-! ## The registry -/

/-- The registry has the jobs that are loaded, each once; the names of jobs and of config files are known. -/
structure Registered (s : JobsSt) : Prop where
  nodup : s.names.Nodup
  jobs : ∀ n, n ∈ s.names ↔ (s.slots n).job.isSome = true
  known : ∀ n ∈ s.names, n ∈ s.known
  configs : ∀ n, (s.slots n).config ≠ .missing → n ∈ s.known

theorem JobsSt.nodup_register {names : List String} (h : names.Nodup) (name : String) : (JobsSt.register names name).Nodup := by
  unfold JobsSt.register
  split
  · exact h
  · rename_i hnot
    refine List.nodup_append.mpr ⟨h, by simp, fun n hn m hm => ?_⟩
    rw [List.mem_singleton.mp hm]
    exact fun heq => hnot (heq ▸ hn)

theorem JobsSt.mem_register {names : List String} {name n : String} :
    n ∈ JobsSt.register names name ↔ n ∈ names ∨ n = name := by
  unfold JobsSt.register
  split
  · rename_i hmem
    refine ⟨.inl, fun h => h.elim id fun h => h ▸ hmem⟩
  · simp

namespace Registered

/-- What of a slot matters here. -/
def entry (slot : JobSlot) : Bool × Doc JobConfig := (slot.job.isSome, slot.config)

theorem congr {s s' : JobsSt} (h : Registered s) (hslots : ∀ n, entry (s'.slots n) = entry (s.slots n))
    (hnames : s'.names = s.names) (hknown : s'.known = s.known) : Registered s' where
  nodup := by
    rw [hnames]
    exact h.nodup
  jobs := by
    intro n
    have hjob : (s'.slots n).job.isSome = (s.slots n).job.isSome := congrArg Prod.fst (hslots n)
    rw [hnames, hjob]
    exact h.jobs n
  known := by
    rw [hnames, hknown]
    exact h.known
  configs := by
    intro n
    have hconfig : (s'.slots n).config = (s.slots n).config := congrArg Prod.snd (hslots n)
    rw [hknown, hconfig]
    exact h.configs n

theorem setSlot {s : JobsSt} (h : Registered s) {name : String} {slot : JobSlot}
    (hjob : slot.job.isSome = (s.slots name).job.isSome) (hconfig : slot.config ≠ .missing → name ∈ s.known) :
    Registered (s.setSlot name slot) where
  nodup := h.nodup
  jobs := by
    intro n
    by_cases hn : n = name
    · rw [hn, JobsSt.setSlot_same, hjob]
      exact h.jobs name
    · rw [JobsSt.setSlot_other s slot hn]
      exact h.jobs n
  known := h.known
  configs := by
    intro n
    by_cases hn : n = name
    · rw [hn, JobsSt.setSlot_same]
      exact hconfig
    · rw [JobsSt.setSlot_other s slot hn]
      exact h.configs n

theorem setEntry {s : JobsSt} (h : Registered s) {name : String} {slot : JobSlot} (hslot : entry slot = entry (s.slots name)) :
    Registered (s.setSlot name slot) := by
  refine h.setSlot (congrArg Prod.fst hslot) fun hconfig => h.configs name ?_
  have hsame : slot.config = (s.slots name).config := congrArg Prod.snd hslot
  exact hsame ▸ hconfig

end Registered

/-- Whether there is a job does not change with what it is, nor does its config. -/
theorem stable_entry (b : Bool × Doc JobConfig) : Stable fun s => Registered.entry s = b where
  status h _ _ := h
  state h _ := by simpa [JobSlot.withState, Registered.entry] using h
  runners h _ _ := h

namespace JobsSt

theorem registered_init : Registered .init :=
  ⟨List.nodup_nil, by simp [init, JobSlot.init], by simp [init], by simp [init, JobSlot.init]⟩

theorem registered_onSlot {α : Type} {name : String} {m : SlotM α}
    (hm : ∀ b, Keeps (fun slot => Registered.entry slot = b) (fun slot => Registered.entry slot = b) m) :
    Keeps Registered Registered (onSlot name m) := by
  refine Keeps.of_run fun s h => ?_
  exact h.setEntry ((hm (Registered.entry (s.slots name))).run rfl)

theorem registered_crash {s : JobsSt} (h : Registered s) : Registered s.crash where
  nodup := List.nodup_nil
  jobs := by simp [crash, forget]
  known := by simp [crash]
  configs := h.configs

theorem load_job (slot : JobSlot) (removed : Bool) : slot.job.isSome = true → (slot.load removed).job.isSome = true := by
  intro h
  unfold JobSlot.load
  split
  · exact h
  · split <;> exact h
  · rfl

/-- A load adds no config. -/
theorem load_config (slot : JobSlot) (removed : Bool) : (slot.load removed).config ≠ .missing → slot.config ≠ .missing := by
  unfold JobSlot.load
  split
  · exact id
  · rename_i hconfig
    exact fun _ => by simp [hconfig]
  · exact id

theorem registered_loadOne {env : LoadEnv} {s : JobsSt} {name : String} (h : Registered s) (hname : name ∈ s.known) :
    Registered (loadOne env s name) := by
  have hload := load_job (s.slots name) (env.removed name)
  have hconfigs : ∀ slot n, ((s.setSlot name slot).slots n).config ≠ .missing → n ∈ s.known := fun slot n hn => by
    by_cases heq : n = name
    · exact heq ▸ hname
    · rw [setSlot_other s slot heq] at hn
      exact h.configs n hn
  unfold loadOne
  dsimp only
  by_cases hjob : ((s.slots name).load (env.removed name)).job.isSome = true
  · rw [if_pos hjob]
    refine ⟨nodup_register h.nodup name, fun n => ?_, fun n hn => ?_, hconfigs _⟩
    · show n ∈ register s.names name ↔ _
      by_cases hn : n = name
      · subst hn
        rw [mem_register]
        show _ ↔ ((s.setSlot n _).slots n).job.isSome = true
        rw [setSlot_same]
        simp [hjob]
      · rw [mem_register]
        show _ ↔ ((s.setSlot name _).slots n).job.isSome = true
        rw [setSlot_other _ _ hn, ← h.jobs n]
        simp [hn]
    · rcases mem_register.mp hn with hn | rfl
      · exact h.known n hn
      · exact hname
  · rw [if_neg hjob]
    refine ⟨h.nodup, fun n => ?_, h.known, hconfigs _⟩
    show _ ↔ ((s.setSlot name _).slots n).job.isSome = true
    by_cases hn : n = name
    · subst hn
      rw [setSlot_same, h.jobs n]
      exact ⟨hload, fun hsome => absurd hsome hjob⟩
    · rw [setSlot_other _ _ hn]
      exact h.jobs n

theorem registered_sendState {s : JobsSt} (state : JobsManagerState) (h : Registered s) : Registered (s.sendState state) := by
  unfold sendState
  split
  · exact h
  · exact h.congr (fun _ => rfl) rfl rfl

theorem registered_halting {s : JobsSt} (name : String) (h : Registered s) : Registered (halting name s) := h.setEntry rfl

theorem registered_halted {s : JobsSt} (name : String) (h : Registered s) : Registered (halted name s) := h.setEntry rfl

theorem stable_job (b : Bool) : Stable fun s => s.job.isSome = b where
  status h _ _ := h
  state h _ := by simpa [JobSlot.withState] using h
  runners h _ _ := h

theorem registered_create {s : JobsSt} (name : String) (config : JobConfig) (env : CreateEnv) (h : Registered s) :
    Registered (s.create name config env) := by
  have hname : name ∈ register s.known name := mem_register.mpr (.inr rfl)
  have hknown : Registered { s with known := register s.known name } :=
    ⟨h.nodup, h.jobs, fun n hn => mem_register.mpr (.inl (h.known n hn)), fun n hn => mem_register.mpr (.inl (h.configs n hn))⟩
  have hstart := registered_halting name hknown
  have hm := (stable_job (s.slots name).job.isSome).create (J := fun slot => slot.job.isSome = true) name config
    (s.names.length < maxJobs) env (fun _ _ h => h) fun _ _ => rfl
  have hjob : ((halting name { s with known := register s.known name }).slots name).job.isSome = (s.slots name).job.isSome := by
    rw [halting, setSlot_same]
  have hleft : ∀ slot, slot.job.isSome = (s.slots name).job.isSome →
      Registered ((halting name { s with known := register s.known name }).setSlot name slot) := fun slot hslot =>
    hstart.setSlot (hslot.trans hjob.symm) fun _ => hname
  refine settle_onSlot hm hjob (fun _ slot hslot => ?_) (fun e slot hslot => hleft slot hslot)
    fun slot hslot => registered_crash (hleft slot hslot)
  refine registered_halted name ⟨nodup_register hstart.nodup name, fun n => ?_, fun n hn => ?_, fun n hn => ?_⟩
  · rw [mem_register]
    by_cases hn : n = name
    · show _ ↔ (((halting name _).setSlot name slot).slots n).job.isSome = true
      rw [hn, setSlot_same, hslot]
      simp
    · show _ ↔ (((halting name _).setSlot name slot).slots n).job.isSome = true
      rw [setSlot_other _ _ hn, ← hstart.jobs n]
      exact or_iff_left hn
  · exact mem_register.mpr ((mem_register.mp hn).imp_left (h.known n))
  · by_cases heq : n = name
    · exact heq ▸ hname
    · have hn : ((halting name { s with known := register s.known name }).setSlot name slot |>.slots n).config ≠ .missing := hn
      rw [setSlot_other _ _ heq] at hn
      exact hstart.configs n hn

theorem registered_examine {name : String} {deps : String → Option Job} {m : SlotM Unit}
    (hm : ∀ b, Keeps (fun slot => Registered.entry slot = b) (fun slot => Registered.entry slot = b) m) :
    Keeps Registered Registered (examine name deps m) :=
  examine_keeps (registered_onSlot hm) (fun _ _ h => ⟨h.nodup, h.jobs, h.known, h.configs⟩)
    fun _ _ h => ⟨h.nodup, h.jobs, h.known, h.configs⟩

theorem registered_step {s s' : JobsSt} {act : JobsAct} (h : Registered s) (hs : s.step act = some s') : Registered s' := by
  have hcrash : ∀ s, Registered s → Registered s.crash := fun _ => registered_crash
  have hspawn : ∀ b (slot : JobSlot), Registered.entry slot = b → Registered.entry slot.spawnRunner = b := fun _ _ h => h
  -- what is loaded has a name that is known
  have hload : ∀ {env : LoadEnv}, env.order.Perm s.known → ∀ t, ∀ name ∈ env.order, Registered t ∧ t.known = s.known →
      Registered (loadOne env t name) ∧ (loadOne env t name).known = s.known := fun hperm t name hname ht =>
    ⟨registered_loadOne ht.1 (ht.2 ▸ hperm.mem_iff.mp hname), ht.2⟩
  have hd := step_does hs
  cases act with
  | boot ready env =>
    obtain ⟨_, hperm, rfl⟩ := hd
    have hboot : Registered (s.boot ready env) ∧ (s.boot ready env).known = s.known :=
      boot_keeps (I := fun t => Registered t ∧ t.known = s.known) ⟨h.congr (fun _ => rfl) rfl rfl, rfl⟩ (hload hperm)
        (fun t ht => ⟨registered_crash ht.1, ht.2⟩) fun t ht => ⟨ht.1.congr (fun _ => rfl) rfl rfl, ht.2⟩
    exact hboot.1
  | crash =>
    obtain rfl := hd
    exact registered_crash h
  | create name config env =>
    obtain ⟨_, rfl⟩ := hd
    exact registered_create name config env h
  | start name save =>
    obtain ⟨_, rfl⟩ := hd
    refine settle_keeps (registered_onSlot fun b => (stable_entry b).start name save) hcrash (fun sent s h => ?_)
      (h.setEntry rfl)
    have hset : Registered (s.setSlot name { s.slots name with asked := (s.slots name).asked || sent }) := h.setEntry rfl
    exact hset.congr (fun _ => rfl) rfl rfl
  | stop name env =>
    obtain ⟨_, rfl⟩ := hd
    exact settle_keeps (registered_onSlot fun b => (stable_entry b).halt name _ env) hcrash
      (fun _ s h => registered_halted name h) (registered_halting name h)
  | stopAll order env =>
    obtain ⟨_, _, rfl⟩ := hd
    refine settle_keeps (Keeps.forM fun name _ => registered_onSlot fun b => (stable_entry b).halt name _ (env name))
      hcrash (fun _ s h => fold_keeps (fun s name _ h => registered_halted name h) h) ?_
    exact fold_keeps (fun s name _ h => registered_halting name h) h
  | skip name env =>
    obtain ⟨_, rfl⟩ := hd
    exact settle_keeps (registered_onSlot fun b => (stable_entry b).halt name _ env) hcrash
      (fun _ s h => registered_halted name h) (registered_halting name h)
  | cleanup name outcome =>
    obtain rfl := hd
    exact h
  | startup env =>
    obtain ⟨_, hperm, rfl⟩ := hd
    refine settle_triple (I := Registered) (P := fun t => Registered t ∧ t.known = s.known) (Q := fun _ => Registered)
      (E := fun _ => Registered) (m := fun s => loadJobs s env) ?_ ⟨h.congr (fun _ => rfl) rfl rfl, rfl⟩ (fun _ t ht => ?_) (fun _ _ ht => ht)
      fun _ ht => registered_crash ht
    · refine (loadJobs_keeps (hload hperm)).conseq (fun _ ht => ht) (fun _ _ ht => ht.1) fun e _ ht => ?_
      cases e with
      | error e => exact ht.1
      | killed => exact ht.1
    · split
      · exact ht
      · exact (registered_sendState .ready ht).congr (fun _ => rfl) rfl rfl
  | beginShutdown force =>
    obtain rfl := hd
    exact (registered_sendState .shutdown h).congr (fun _ => rfl) rfl rfl
  | endShutdown i order env =>
    obtain ⟨force, _, _, rfl⟩ := hd
    exact settle_keeps (Keeps.forM fun name _ => registered_onSlot fun b => (stable_entry b).shutdown name _ (env name))
      hcrash (fun _ s h => h.congr (fun _ => rfl) rfl rfl) (h.congr (fun _ => rfl) rfl rfl)
  | check seen =>
    obtain ⟨_, _, rfl⟩ | ⟨_, _, rfl⟩ | ⟨_, rfl⟩ := hd <;> exact h.congr (fun _ => rfl) rfl rfl
  | listProcesses =>
    obtain ⟨_, rfl⟩ := hd
    exact h.congr (fun _ => rfl) rfl rfl
  | updateActive order env =>
    obtain ⟨ps, _, _, rfl⟩ := hd
    exact settle_keeps (Keeps.forM fun name _ => registered_examine fun b =>
      (stable_entry b).updateActiveJob (hspawn b) name _ (env name)) hcrash (fun _ s h => h.congr (fun _ => rfl) rfl rfl) h
  | checkInactive order env watch =>
    obtain ⟨_, _, rfl⟩ := hd
    exact settle_keeps (Keeps.forM fun name _ => registered_examine fun b =>
      (stable_entry b).checkInactiveJob (hspawn b) name _ (env name)) hcrash (fun _ s h => h.congr (fun _ => rfl) rfl rfl) h
  | wake wakeUp =>
    obtain ⟨_, _, _, rfl⟩ := hd
    exact h.congr (fun _ => rfl) rfl rfl
  | runnerSaves name pid save =>
    obtain ⟨_, rfl⟩ := hd
    exact h.setEntry ((stable_entry _).runnerSaves rfl save)
  | runnerEnds name pid =>
    obtain ⟨_, rfl⟩ := hd
    exact h.setEntry rfl

end JobsSt

end Blockvisor
