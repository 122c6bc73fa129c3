/-
Whether a node that says it is initialised is. `Truthful` is what the
operations keep: a state that says so, in memory, on file or kept to go back
to, is of a revision that the plugin was initialised for, or that was loaded
into a running node after the plugin was initialised for the one before.

`initialized_truthful` is about the lives in which no update brings new
properties to a node that is stopped. Such an update takes the node for
initialised though the plugin was never told of the new properties
(`initialized_lies`): the next start does not initialise it either.
-/
import Blockvisor.Bv.NodeLife

namespace Blockvisor

open Effect Machine

/-- What a state says of the plugin is so, of itself and of the state to go back to. -/
structure NodeState.Truthful (ready : List Nat) (st : NodeState) : Prop where
  state : st.initialized = true → st.revision ∈ ready
  backup : ∀ b, st.upgradeState.stateBackup = some b → b.initialized = true → b.revision ∈ ready

structure Node.Truthful (n : Node) : Prop where
  state : n.state.Truthful n.ready
  file : n.file.Holds (NodeState.Truthful n.ready)

theorem NodeState.Truthful.mono {ready ready' : List Nat} {st : NodeState} (h : st.Truthful ready) (hsub : ready ⊆ ready') :
    st.Truthful ready' :=
  ⟨fun hi => hsub (h.state hi), fun b hb hi => hsub (h.backup b hb hi)⟩

namespace Node

/-- A state that says no more than another one. -/
theorem Truthful.change {n : Node} (h : n.Truthful) {st : NodeState} (hst : st.Truthful n.ready) :
    Truthful { n with state := st } :=
  ⟨hst, h.file⟩

theorem truthful_live : Live Truthful where
  site := fun _ _ h => ⟨h.state, h.file⟩
  saved := fun _ _ _ hafter h => ⟨h.state, hafter _ h.file h.state⟩
  state := fun n st hsame h => h.change
    { state := fun hi => by
        rw [hsame.revision]
        exact h.state.state (hsame.initialized ▸ hi)
      backup := fun b hb => h.state.backup b (hsame.stateBackup ▸ hb) }
  registry := fun _ _ h => ⟨h.state, h.file⟩
  ready := fun _ _ hsub h =>
    ⟨h.state.mono hsub, fun x hx => (h.file.file x hx).mono hsub, fun x hx => (h.file.backup x hx).mono hsub⟩
  told := fun _ _ h => ⟨h.state, h.file⟩
  marked := fun _ h => ⟨⟨h.state.state, h.state.backup⟩, h.file⟩
  started := fun _ h => ⟨⟨h.state.state, h.state.backup⟩, h.file⟩
  initialized := fun _ hready h => h.change ⟨fun _ => hready, h.state.backup⟩
  cleared := fun _ h => h.change ⟨h.state.state, nofun⟩
  upgraded := fun n desired h => h.change
    { state := nofun
      backup := fun b hb hi => by
        cases hb
        exact h.state.state hi }
  restored := fun n backup hbackup h => h.change
    { state := fun hi => h.state.backup backup hbackup hi
      backup := fun b hb hi => by
        cases hb
        exact h.state.state hi }

/-! ## Updates -/

/-- What the status of a node tells of its state. -/
theorem status_tells (n₀ : Node) :
    Triple (· = n₀) status (fun r _ => r ≠ .busy ∧ (r = .running → n₀.state.initialized = true)) fun _ _ => True := by
  unfold status
  refine Triple.bind (R := fun r n => r ≠ .busy ∧ n.state = n₀.state) (Triple.bind (R := fun _ n => n.state = n₀.state)
    ?_ fun machine => ?_) fun machineStatus => ?_
  · intro n hn
    subst hn
    cases h : onSite ApptainerMachine.state n with
    | mk r n' =>
      have hstate : n'.state = n.state := by
        have := congrArg (fun p => p.2.state) h
        exact this.symm
      cases r with
      | ok a => exact hstate
      | error e => trivial
  · cases machine with
    | running => exact Triple.pure fun _ h => ⟨nofun, h⟩
    | shutoff => exact Triple.pure fun _ h => ⟨nofun, h⟩
    | invalid => exact Triple.pure fun _ h => ⟨nofun, h⟩
  · refine Triple.bind Triple.gets fun n => ?_
    split
    · split
      · exact Triple.pure fun _ _ => ⟨nofun, nofun⟩
      · rename_i hfine
        refine Triple.pure fun n' h => ⟨h.2.1, fun hrunning => ?_⟩
        obtain ⟨rfl, -, hstate⟩ := h
        rw [← hstate]
        by_cases hi : n.state.initialized = true
        · exact hi
        · exact absurd ⟨hrunning, .inr (by simpa using hi)⟩ hfine
    · exact Triple.pure fun _ _ => ⟨nofun, nofun⟩

/-- What an update with new properties rests on in the end: the plugin is ready for the revision the
node runs with or, as the node does not run, for that of the state. -/
structure Updatable (u : ConfigUpdate) (status : VmStatus) (before : Nat) (n : Node) : Prop where
  truthful : n.Truthful
  ready : u.newValues.isEmpty = false → (if status = .running then before else n.state.revision) ∈ n.ready

section

variable {u : ConfigUpdate} {status : VmStatus} {before : Nat}

theorem updatable_steady : Steady (Updatable u status before) where
  site := fun n site h => ⟨truthful_live.site n site h.truthful, h.ready⟩
  saved := fun n file saves hafter h => ⟨truthful_live.saved n file saves hafter h.truthful, h.ready⟩
  state := fun n st hsame h =>
    { truthful := truthful_live.state n st hsame h.truthful
      ready := fun hnew => by
        have hready := h.ready hnew
        rw [← hsame.revision] at hready
        exact hready }

theorem Updatable.exit (e : Exit String) (n : Node) (h : atExit (Updatable u status before) (Updatable u status before) e n) :
    atExit Truthful Truthful e n := by
  cases e with
  | error e => exact h.truthful
  | killed => exact h.truthful

theorem updateParams_truthful (hnew : u.newValues.isEmpty = false) :
    Triple (Updatable u status before) (updateParams status before) (fun _ => Truthful) (atExit Truthful Truthful) := by
  have hI := (@updatable_steady u status before).toPlaced
  unfold updateParams
  refine Triple.bind ((updateEngine_keeps hI).exit Updatable.exit) fun _ => ?_
  refine Triple.bind (R := fun _ n => n.state.revision ∈ n.ready ∧ n.Truthful) (Triple.when (fun hrunning => ?_) ?_) fun _ => ?_
  · unfold applyToRunning
    refine Triple.bind (hI.onSite.exit Updatable.exit) fun _ => ?_
    refine Triple.bind (hI.onSite.exit Updatable.exit) fun _ => Triple.modify fun n h => ?_
    have hbefore : before ∈ n.ready := by simpa [hrunning] using h.ready hnew
    rw [if_pos hbefore]
    exact ⟨List.mem_cons_self .., truthful_live.ready n _ (List.subset_cons_self ..) h.truthful⟩
  · intro hnot n h
    exact ⟨by simpa [hnot] using h.ready hnew, h.truthful⟩
  · refine Triple.bind (R := fun _ => Truthful) (Triple.modify fun n h => truthful_live.initialized n h.1 h.2) fun _ => ?_
    exact truthful_live.save

/-- What an update does once the flag is cleared. -/
theorem applyUpdate_truthful :
    Triple (Updatable u status before)
      (do
        modifyState (applyUpdate u)
        match u.newFirewall with
        | some config => updateFirewall config
        | none => saveState
        Node.updateNodeEnv
        Effect.when (u.newValues.isEmpty = false) (updateParams status before))
      (fun _ => Truthful) (atExit Truthful Truthful) := by
  have hI := @updatable_steady u status before
  have hrest : Triple (Updatable u status before)
      (do
        Node.updateNodeEnv
        Effect.when (u.newValues.isEmpty = false) (updateParams status before))
      (fun _ => Truthful) (atExit Truthful Truthful) := by
    refine Triple.bind ((updateNodeEnv_keeps hI.toPlaced).exit Updatable.exit) fun _ => Triple.when updateParams_truthful ?_
    exact fun _ _ h => h.truthful
  refine Triple.bind (R := fun _ => Updatable u status before) (Triple.modify fun n h => ?_) fun _ => ?_
  · exact hI.state n _ ⟨⟨rfl, rfl, rfl, rfl, rfl⟩, rfl, rfl, rfl⟩ h
  · cases u.newFirewall with
    | some config => exact Triple.bind ((updateFirewall_keeps hI config).exit Updatable.exit) fun _ => hrest
    | none => exact Triple.bind (hI.save.exit Updatable.exit) fun _ => hrest

end

/-- An update that brings new properties to the node if it is stopped, though the plugin is not
initialised with these. -/
def Unheard (n : Node) (u : ConfigUpdate) : Prop :=
  u.newValues.isEmpty = false ∧ (status n).1 = .ok .stopped ∧
    ¬ ((applyUpdate u n.state).properties = n.state.properties ∧ n.state.initialized = true)

/-- The part of a node that the start of an update leaves as it was. -/
structure Unchanged (n₀ n : Node) : Prop where
  truthful : n.Truthful
  state : n.state = n₀.state
  ready : n.ready = n₀.ready

theorem unchanged_placed (n₀ : Node) : Placed (Unchanged n₀) where
  site := fun n site h => ⟨truthful_live.site n site h.truthful, h.state, h.ready⟩
  saved := fun n file saves hafter h => ⟨truthful_live.saved n file saves hafter h.truthful, h.state, h.ready⟩

/-- What is known once an operation has the status of its node. -/
theorem status_unchanged {n₀ : Node} (h₀ : n₀.Truthful) :
    Triple (· = n₀) status
      (fun r n => ((r ≠ .busy ∧ (r = .running → n₀.state.initialized = true)) ∧ (status n₀).1 = .ok r) ∧ Unchanged n₀ n)
      (atExit Truthful Truthful) := by
  refine ((((status_tells n₀).and Triple.result).and (status_keeps (unchanged_placed n₀))).pre ?_).exit ?_
  · intro n hn
    subst hn
    exact ⟨⟨rfl, rfl⟩, h₀, rfl, rfl⟩
  · intro e n h
    cases e with
    | error e => exact h.2.truthful
    | killed => exact h.2.truthful

/-- The flag is cleared for new properties. -/
theorem clear_updatable {n₀ : Node} {u : ConfigUpdate} {status : VmStatus} (hheard : ¬ n₀.Unheard u)
    (hstatus : (Node.status n₀).1 = .ok status) (hrunning : status = .running → n₀.state.initialized = true)
    (hbusy : status ≠ .busy) (hfailed : status ≠ .failed) (revision : Nat) {n : Node} (h : Unchanged n₀ n) :
    Updatable u status n₀.state.revision { n with state := clearInitialized u revision n.state } where
  truthful := h.truthful.change ⟨nofun, h.truthful.state.backup⟩
  ready := fun hnew => by
    have hready := h.truthful.state.state
    rw [h.state] at hready
    split
    · rename_i hrun
      exact hready (hrunning hrun)
    · rename_i hrun
      have hstopped : status = .stopped := by
        cases status with
        | stopped => rfl
        | running => exact absurd rfl hrun
        | busy => exact absurd rfl hbusy
        | failed => exact absurd rfl hfailed
      have hsame : (applyUpdate u n₀.state).properties = n₀.state.properties ∧ n₀.state.initialized = true :=
        Decidable.not_not.mp fun hnot => hheard ⟨hnew, hstopped ▸ hstatus, hnot⟩
      show (if (applyUpdate u n.state).properties = n.state.properties then n.state.revision else revision) ∈ n.ready
      rw [h.state, if_pos hsame.1]
      exact hready hsame.2

/-- An update leaves a node whose flag is truthful, unless it brings properties that the plugin does
not hear of. -/
theorem update_truthful {n₀ : Node} (h₀ : n₀.Truthful) {u : ConfigUpdate} (hheard : ¬ n₀.Unheard u) :
    Triple (· = n₀) (update u) (fun _ => Truthful) (atExit Truthful Truthful) := by
  have hI := unchanged_placed n₀
  have hexit : ∀ (e : Exit CommandError) n, atExit (Unchanged n₀) (Unchanged n₀) e n → atExit Truthful Truthful e n := by
    intro e n h
    cases e with
    | error e => exact h.truthful
    | killed => exact h.truthful
  unfold update
  refine Triple.bind (Triple.mapError ((status_unchanged h₀).exit fun e n h => ?_)) fun status => ?_
  · cases e with
    | error e => exact h
    | killed => exact h
  refine Triple.assume fun hstatus => ?_
  obtain ⟨⟨hbusy, hrunning⟩, hresult⟩ := hstatus
  split
  · exact Triple.throw fun n h => h.truthful
  · rename_i hfailed
    refine Triple.bind Triple.gets fun before => ?_
    refine Triple.bind (R := fun _ => Updatable u status before) (Triple.when (fun _ => ?_) ?_) fun _ => ?_
    · refine Triple.pre (P := fun n => before = n₀.state.revision ∧ Unchanged n₀ n) (Triple.assume fun hbefore => ?_)
        fun n h => ⟨h.1.trans (congrArg NodeState.revision h.2.state), h.2⟩
      subst hbefore
      refine Triple.bind ((checkBlockingJob_keeps hI status).exit hexit) fun _ => ?_
      refine Triple.bind ((lift_keeps hI.onSite).exit hexit) fun revision => Triple.mapError (Triple.modify fun n h => ?_)
      exact clear_updatable hheard hresult hrunning hbusy hfailed revision h
    · exact fun hnot n h => ⟨h.2.truthful, fun hnew => absurd hnew hnot⟩
    · refine Triple.mapError (applyUpdate_truthful.exit fun e n h => ?_)
      cases e with
      | error e => exact h
      | killed => exact h

/-! ## Starts -/

/-- The plugin is ready for the revision of the state. -/
def IsReady (n : Node) : Prop := n.state.revision ∈ n.ready

theorem isReady_steady : Steady IsReady where
  site := fun _ _ h => h
  saved := fun _ _ _ _ h => h
  state := fun n st hsame h => by
    show st.revision ∈ n.ready
    rw [hsame.revision]
    exact h

/-- The plugin is initialised in a start, or says truthfully that it is. -/
theorem startStopped_ready : Triple Truthful startStopped (fun _ => IsReady) fun _ _ => True := by
  have hI := truthful_live
  have hexit : ∀ (e : Exit String) n, atExit Truthful Truthful e n → True := fun _ _ _ => trivial
  unfold startStopped
  refine Triple.bind (hI.onSite.exit hexit) fun _ => Triple.bind (hI.onSite.exit hexit) fun _ => ?_
  refine Triple.bind ((Keeps.when (tellMachine_keeps hI.working _)).exit hexit) fun _ => Triple.bind (hI.onSite.exit hexit) fun _ => ?_
  refine Triple.bind (hI.onSite.exit hexit) fun _ => Triple.bind (hI.onSite.exit hexit) fun _ => ?_
  refine Triple.bind Triple.gets fun initialized => Triple.bind (R := fun _ => IsReady) (Triple.when ?_ ?_) fun _ => ?_
  · intro _
    unfold initPlugin
    refine Triple.bind ((hI.onSite.pre fun n h => h.2).exit hexit) fun _ => ?_
    refine Triple.bind (R := fun _ => IsReady) (Triple.modify fun n _ => List.mem_cons_self ..) fun _ => ?_
    exact Triple.modify fun n h => h
  · intro hnot n h
    refine h.2.state.state ?_
    rw [← h.1]
    simpa using hnot
  · refine Triple.bind (R := fun _ => IsReady) (Triple.modify fun n h => h) fun _ => ?_
    exact (isReady_steady.save).exit fun _ _ _ => trivial

/-- A start never skips the plugin's initialisation. -/
theorem start_ready {n₀ : Node} (h₀ : n₀.Truthful) : Triple (· = n₀) start (fun _ => IsReady) fun _ _ => True := by
  unfold start
  refine Triple.bind ((status_unchanged h₀).exit fun _ _ _ => trivial) fun status => Triple.assume fun hstatus => ?_
  refine Triple.bind Triple.gets fun expected => ?_
  split
  · exact Triple.throw fun _ _ => trivial
  · have hbegin : Triple (fun n => expected = n.state.expectedStatus ∧ Unchanged n₀ n) (saveExpectedStatus .running)
        (fun _ n => n.Truthful ∧ (status = .running → n.IsReady)) fun _ _ => True := by
      have hkeeps : Keeps (fun n : Node => n.Truthful ∧ (status = .running → n.IsReady)) _ (saveExpectedStatus .running) :=
        saveExpectedStatus_keeps
          { site := fun n site h => ⟨truthful_live.site n site h.1, h.2⟩
            saved := fun n file saves hafter h => ⟨truthful_live.saved n file saves hafter h.1, h.2⟩ }
          fun n h => ⟨truthful_live.working.running n h.1, fun hrun => h.2 hrun⟩
      refine (hkeeps.pre fun n h => ⟨h.2.truthful, fun hrun => h.2.truthful.state.state ?_⟩).exit fun _ _ _ => trivial
      rw [h.2.state]
      exact hstatus.1.2 hrun
    refine Triple.bind hbegin fun _ => ?_
    split
    · rename_i hrun
      exact Triple.pure fun n h => h.2 hrun
    · exact startStopped_ready.pre fun n h => h.1

end Node

/-! ## Lives -/

namespace NodeLife

open Node

/-- No update brings properties that the plugin does not hear of. -/
def Heard (l : NodeLife) (a : LifeAct × CallEnv) : Prop :=
  match a.1 with
  | .op (.update u) => ¬ (l.node.inEnv a.2).Unheard u
  | _ => True

theorem createNode_truthful (desired : NodeState) : Keeps Node.Truthful Node.Truthful (createNode desired) := by
  refine Keeps.bind truthful_live.onSite fun revision => create_keeps truthful_live fun n cpus h => h.change ?_
  exact ⟨nofun, nofun⟩

theorem renameNode_truthful (newName newDnsName : String) :
    Keeps Node.Truthful Node.Truthful (NodesManager.renameNode newName newDnsName) := by
  refine Keeps.bind (lift_keeps (Keeps.modify fun n h => h.change ?_)) fun _ => lift_keeps truthful_live.save
  exact ⟨h.state.state, h.state.backup⟩

theorem call_truthful (call : NodeCall) : Keeps Node.Truthful Node.Truthful call.run := by
  cases call with
  | start reload => exact managerStart_keeps truthful_live.working reload
  | stop force =>
    refine Keeps.bind Keeps.gets fun _ => Keeps.bind (Keeps.when (lift_keeps (stop_keeps truthful_live.framed force))) fun _ => ?_
    exact Keeps.modify fun n h => ⟨h.state, h.file⟩
  | restart force => exact lift_keeps (restart_keeps truthful_live.working force)
  | upgrade desired version requirements => exact managerUpgrade_keeps truthful_live desired version requirements
  | recover => exact lift_keeps (managerRecover_keeps truthful_live.working)

/-- Every step keeps the flags truthful. -/
theorem truthful_step {l l' : NodeLife} {a : LifeAct × CallEnv} (h : l.node.Truthful) (hheard : l.Heard a)
    (hs : l.step a = some l') : l'.node.Truthful := by
  obtain ⟨act, env⟩ := a
  have hn : (l.node.inEnv env).Truthful := ⟨h.state, h.file⟩
  cases act with
  | create desired =>
    simp only [step] at hs
    split at hs
    · cases hs
    · cases hs
      exact (createNode_truthful desired).run hn
  | op op =>
    simp only [step] at hs
    split at hs
    · cases hs
      cases op with
      | call c => exact (call_truthful c).run hn
      | update u =>
        refine ((update_truthful hn hheard).exit fun e n h => ?_).run rfl
        cases e with
        | error e => exact h
        | killed => exact h
      | rename newName newDnsName => exact (renameNode_truthful newName newDnsName).run hn
    · cases hs
  | delete =>
    simp only [step] at hs
    split at hs
    · cases hs
      exact (delete_keeps truthful_live.upgrading).run hn
    · cases hs
  | crash =>
    simp only [step] at hs
    cases hs
    exact hn
  | attach free =>
    simp only [step] at hs
    split at hs
    · cases hs
    · obtain ⟨st, hst, rfl⟩ := Option.map_eq_some_iff.mp hs
      have hfile := hn.file.file st (Doc.load_eq_some.mp hst)
      refine (attach_keeps truthful_live.upgrading).run (s := { l.node.inEnv env with state := st, registry := free }) ?_
      exact ⟨hfile, hn.file⟩

theorem new_truthful (site : Site) (registry : CpuRegistry) : (new site registry).node.Truthful where
  state := ⟨nofun, nofun⟩
  file :=
    { file := fun x hx => by cases hx
      backup := fun x hx => by cases hx }

/-- What the node says of its plugin is so, in memory and on file, and a start that returns leaves the
plugin initialised. -/
structure TellsTruth (l : NodeLife) : Prop where
  memory : l.node.state.initialized = true → l.node.IsReady
  file : ∀ st, l.node.file.file = .whole st → st.initialized = true → st.revision ∈ l.node.ready
  start : ∀ env n, Node.start (l.node.inEnv env) = (.ok (), n) → n.IsReady

theorem tellsTruth_of_truthful {l : NodeLife} (h : l.node.Truthful) : l.TellsTruth where
  memory := h.state.state
  file := fun st hst => (h.file.file st hst).state
  start := fun env n hstart => by
    have hn : (l.node.inEnv env).Truthful := ⟨h.state, h.file⟩
    have hready := start_ready hn _ rfl
    rw [hstart] at hready
    exact hready

instance (n : Node) (u : ConfigUpdate) : Decidable (n.Unheard u) := by
  unfold Node.Unheard
  infer_instance

instance (l : NodeLife) : ∀ a, Decidable (l.Heard a)
  | (.op (.update u), env) => inferInstanceAs (Decidable (¬ (l.node.inEnv env).Unheard u))
  | (.op (.call _), _) => .isTrue trivial
  | (.op (.rename ..), _) => .isTrue trivial
  | (.create _, _) => .isTrue trivial
  | (.delete, _) => .isTrue trivial
  | (.crash, _) => .isTrue trivial
  | (.attach _, _) => .isTrue trivial

end NodeLife

open NodeLife

/-- **A node that says it is initialised is**, in every life in which no update brings a stopped node
properties that the plugin does not hear of. -/
theorem initialized_truthful {site : Site} {registry : CpuRegistry} {acts : List (LifeAct × CallEnv)} {l : NodeLife}
    (hheard : Along step Heard (new site registry) acts) (hrun : run step (new site registry) acts = some l) :
    l.TellsTruth := by
  have htruthful : l.node.Truthful :=
    run_invariant (I := fun l => l.node.Truthful) step (fun _ _ _ h hok hs => truthful_step h hok hs)
      (new_truthful site registry) hheard hrun
  exact tellsTruth_of_truthful htruthful

/-- New properties, and nothing else. -/
def newProperty : ConfigUpdate := ⟨"config", none, none, none, [("key", "value")], none⟩

/-- A node that is created, started and given new properties as it runs, and to which a new daemon attaches. -/
def heardLife : List (LifeAct × CallEnv) :=
  [(.create default, default), (.op (.call (.start false)), default), (.op (.update newProperty), default),
    (.crash, default), (.attach [], default)]

theorem initialized_truthful_attached :
    ∃ l, run step (new default []) heardLife = some l ∧ l.node.state.initialized = true ∧ l.TellsTruth := by
  have hrun : ((run step (new default []) heardLife).any fun l => l.node.state.initialized) = true := by decide +kernel
  obtain ⟨l, hl, hinitialized⟩ := Option.any_eq_true _ _ |>.mp hrun
  exact ⟨l, hl, hinitialized, initialized_truthful (by decide +kernel) hl⟩

/-- New properties for a node that was never started: it takes itself for initialised. -/
theorem initialized_lies :
    ¬ ∀ (site : Site) (registry : CpuRegistry) (acts : List (LifeAct × CallEnv)) (l : NodeLife),
      run step (new site registry) acts = some l → l.TellsTruth := by
  intro h
  have hrun : ((run step (new default []) [(.create default, default), (.op (.update newProperty), default)]).any fun l =>
      l.node.state.initialized && !l.node.ready.contains l.node.state.revision) = true := by decide +kernel
  obtain ⟨l, hl, hlies⟩ := Option.any_eq_true _ _ |>.mp hrun
  have htold := (h _ _ _ l hl).memory
  simp only [Bool.and_eq_true, Bool.not_eq_true', List.contains_eq_mem, decide_eq_false_iff_not] at hlies
  exact hlies.2 (htold hlies.1)

end Blockvisor
