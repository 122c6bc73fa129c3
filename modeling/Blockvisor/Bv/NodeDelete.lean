/-
Deleting a node that could not be deleted before. A delete begins with a save
of the node's state, and the machine takes the node's directory, with the
state in it, away. What fails after that leaves a node whose state cannot be
saved any more: `delete_retriable` says which nodes a delete that meets no
failure removes, whatever failed before.
-/
import Blockvisor.Bv.Indexes

namespace Blockvisor

open Effect Machine

/-! ## Operations that meet no failure -/

namespace Site

variable {s : Site} {msg : String}

theorem command_calm {f : Cut → Site → Site} (h : s.faults = []) : command msg f s = (.ok (), f .all s) := by
  obtain ⟨_, _, _, _, _, _, _, _, _, _, _, _, faults, _⟩ := s
  cases h
  rfl

theorem atomicCommand_calm {f : Site → Site} (h : s.faults = []) : atomicCommand msg f s = (.ok (), f s) := by
  obtain ⟨_, _, _, _, _, _, _, _, _, _, _, _, faults, _⟩ := s
  cases h
  rfl

theorem call_calm (h : s.faults = []) : call msg s = (.ok (), s) := command_calm h

/-- Nothing fails from here on, and what else a delete depends on is the same. -/
structure CalmAs (s₀ s : Site) : Prop where
  calm : s.faults = []
  present : s.dir.present = s₀.dir.present

end Site

namespace BabelEngine

open Site

theorem stop_calm {s : Site} (h : s.faults = []) : ∃ s', stop s = (.ok (), s') ∧ s'.babels = s.babels ∧ CalmAs s s' := by
  unfold stop
  rw [gets_bind]
  unfold Effect.when
  split
  · refine ⟨{ s with engine.server := none }, ?_, rfl, h, rfl⟩
    exact call_calm (s := { s with engine.server := none }) h
  · exact ⟨s, rfl, rfl, h, rfl⟩

end BabelEngine

namespace ApptainerMachine

open Site

theorem stopBabel_calm {s : Site} (force : Bool) (h : s.faults = []) (hbabels : s.babels.length ≤ 1) :
    ∃ b s', stopBabel force s = (.ok b, s') ∧ CalmAs s s' := by
  obtain ⟨context, cfg, dir, container, babels, firewall, machine, engine, connection, env, backoff, next, faults, answers⟩ := s
  cases h
  match babels, hbabels with
  | [], _ => exact ⟨false, _, rfl, rfl, rfl⟩
  | [pid], _ => exact ⟨true, _, rfl, rfl, rfl⟩

/-- Two babels in one container cannot be stopped. -/
theorem stopBabel_crowded {s : Site} (force : Bool) (hbabels : 1 < s.babels.length) :
    ∃ err s', stopBabel force s = (.error (.error err), s') ∧ s'.babels = s.babels := by
  obtain ⟨context, cfg, dir, container, babels, firewall, machine, engine, connection, env, backoff, next, faults, answers⟩ := s
  match babels, hbabels with
  | pid :: pid' :: pids, _ => exact ⟨_, _, rfl, rfl⟩

theorem isContainerRunning_calm {s : Site} (h : s.faults = []) :
    ∃ b s', isContainerRunning s = (.ok b, s') ∧ CalmAs s s' := by
  obtain ⟨context, cfg, dir, container, babels, firewall, machine, engine, connection, env, backoff, next, faults, answers⟩ := s
  match answers with
  | [] => exact ⟨_, _, rfl, h, rfl⟩
  | true :: answers => exact ⟨_, _, rfl, h, rfl⟩
  | false :: answers => exact ⟨_, _, rfl, h, rfl⟩

theorem stopInstance_calm {s : Site} (h : s.faults = []) : stopInstance s = (.ok (), { s with container := none }) := by
  obtain ⟨context, cfg, dir, container, babels, firewall, machine, engine, connection, env, backoff, next, faults, answers⟩ := s
  cases h
  rfl

theorem stopContainer_calm {s : Site} (h : s.faults = []) : ∃ s', stopContainer s = (.ok (), s') ∧ CalmAs s s' := by
  obtain ⟨b, s₁, hrunning, hs₁⟩ := isContainerRunning_calm h
  have hstopped : ∃ s₂, Effect.when b stopInstance s₁ = (.ok (), s₂) ∧ CalmAs s s₂ := by
    cases b with
    | true => exact ⟨_, stopInstance_calm hs₁.calm, hs₁.calm, hs₁.present⟩
    | false => exact ⟨s₁, rfl, hs₁⟩
  obtain ⟨s₂, hstopped, hs₂⟩ := hstopped
  unfold stopContainer
  rw [bind_of_ok hrunning, bind_of_ok hstopped]
  cases hpid : s₂.dir.pidFile with
  | none =>
    refine ⟨{ s₂ with machine.apptainerPid := none }, ?_, hs₂.calm, hs₂.present⟩
    show Effect.when (s₂.dir.pidFile.isSome = true) _ _ = _
    rw [hpid]
    rfl
  | some pid =>
    refine ⟨{ s₂ with machine.apptainerPid := none, dir.pidFile := none }, ?_, hs₂.calm, hs₂.present⟩
    show Effect.when (s₂.dir.pidFile.isSome = true) _ _ = _
    rw [hpid]
    exact atomicCommand_calm (s := { s₂ with machine.apptainerPid := none }) hs₂.calm

theorem shutdown_calm {s : Site} (h : s.faults = []) (hbabels : s.babels.length ≤ 1) :
    ∃ s', shutdown s = (.ok (), s') ∧ CalmAs s s' := by
  obtain ⟨b, s₁, hbabel, hs₁⟩ := stopBabel_calm false h hbabels
  obtain ⟨s₂, hcontainer, hs₂⟩ := stopContainer_calm hs₁.calm
  refine ⟨s₂, ?_, hs₂.calm, hs₂.present.trans hs₁.present⟩
  unfold shutdown
  rw [bind_of_ok hbabel, hcontainer]

end ApptainerMachine

namespace Node

variable {n : Node}

theorem onSite_run {α : Type} {m : SiteM α} {r : Except (Exit String) α} {s : Site} (h : m n.site = (r, s)) :
    onSite m n = (r, { n with site := s }) := by
  show ((m n.site).1, ({ n with site := (m n.site).2 } : Node)) = _
  rw [h]

theorem haltMachine_calm (h : n.site.faults = []) (hbabels : n.site.babels.length ≤ 1) :
    ∃ s, haltMachine n = (.ok (), { n with site := s }) ∧ Site.CalmAs n.site s := by
  obtain ⟨s, hs, hcalm⟩ := ApptainerMachine.shutdown_calm h hbabels
  refine ⟨s, ?_, hcalm⟩
  have hattempt : attempt (onSite ApptainerMachine.shutdown) n = (.ok (.ok ()), { n with site := s }) := by
    unfold attempt
    rw [onSite_run hs]
  unfold haltMachine
  rw [bind_of_ok hattempt]
  rfl

theorem haltMachine_crowded (hbabels : 1 < n.site.babels.length) : ∃ err n', haltMachine n = (.error (.error err), n') := by
  obtain ⟨err, s, hs, hsame⟩ := ApptainerMachine.stopBabel_crowded false hbabels
  obtain ⟨err', s', hs', -⟩ := ApptainerMachine.stopBabel_crowded (s := s) true (by rw [hsame]; exact hbabels)
  have hshutdown : ApptainerMachine.shutdown n.site = (.error (.error err), s) := bind_of_error hs
  have hforced : ApptainerMachine.forceShutdown s = (.error (.error err'), s') := bind_of_error hs'
  have hattempt : attempt (onSite ApptainerMachine.shutdown) n = (.ok (.error err), { n with site := s }) := by
    unfold attempt
    rw [onSite_run hshutdown]
  refine ⟨err', { n with site := s' }, ?_⟩
  unfold haltMachine
  rw [bind_of_ok hattempt]
  exact onSite_run hforced

/-! ## Saving and removing -/

theorem saveState_calm (hsaves : n.saves = []) (hpresent : n.site.dir.present = true) :
    saveState n = (.ok (), { n with file := ⟨.whole n.state, .missing⟩, saves := [] }) := by
  have hsaved : n.file.carefulSave n.state true .clean = (⟨.whole n.state, .missing⟩, .ok ()) := by
    obtain ⟨file, backup⟩ := n.file
    cases file <;> cases backup <;> rfl
  simp only [saveState, hpresent, hsaves, List.headD_nil, List.tail_nil, hsaved]

/-- Without its directory the state cannot be saved. -/
theorem saveState_gone (hsaves : n.saves = []) (hpresent : n.site.dir.present = false) :
    ∃ err n', saveState n = (.error (.error err), n') := by
  have hsaved : ∃ f, n.file.carefulSave n.state false .clean = (f, .error (.error "no such directory")) := by
    obtain ⟨file, backup⟩ := n.file
    cases file <;> cases backup <;> exact ⟨_, rfl⟩
  obtain ⟨f, hsaved⟩ := hsaved
  simp only [saveState, hpresent, hsaves, List.headD_nil, hsaved]
  exact ⟨_, _, rfl⟩

theorem command_calm {msg : String} {f : Cut → Node → Node} (h : n.site.faults = []) : command msg f n = (.ok (), f .all n) := by
  obtain ⟨site, state, file, registry, saves, told, unfinished, ready⟩ := n
  obtain ⟨_, _, _, _, _, _, _, _, _, _, _, _, faults, _⟩ := site
  cases h
  rfl

theorem removeNodeDir_calm {msg : String} (h : n.site.faults = []) (hpresent : n.site.dir.present = true) :
    removeNodeDir msg n = (.ok (), n.removeDir .all) := by
  show Effect.when (n.site.dir.present = true) _ n = _
  unfold Effect.when
  rw [if_pos hpresent]
  exact command_calm h

theorem removeNodeDir_gone {msg : String} (hpresent : n.site.dir.present = false) : removeNodeDir msg n = (.ok (), n) := by
  show Effect.when (n.site.dir.present = true) _ n = _
  unfold Effect.when
  rw [if_neg (by rw [hpresent]; decide)]
  rfl

/-- The node once it is expected to be stopped, and saved. -/
def expectStopped (n : Node) : Node :=
  let st := { n.state with expectedStatus := .stopped }
  { n with state := st, file := ⟨.whole st, .missing⟩, saves := [] }

theorem saveExpectedStatus_calm (hsaves : n.saves = []) (hpresent : n.site.dir.present = true) :
    saveExpectedStatus .stopped n = (.ok (), n.expectStopped) :=
  saveState_calm (n := { n with state := { n.state with expectedStatus := .stopped } }) hsaves hpresent

/-- The node after a delete that met no failure. -/
structure Erased (n n' : Node) : Prop where
  dir : n'.site.dir = .removed
  file : n'.file = ⟨.missing, .missing⟩
  registry : n'.registry = n.registry.release n.state.assignedCpus
  cpus : n'.state.assignedCpus = []
  name : n'.state.name = n.state.name

theorem delete_calm (h : n.site.faults = []) (hsaves : n.saves = []) (hpresent : n.site.dir.present = true)
    (hbabels : n.site.babels.length ≤ 1) : ∃ n', delete n = (.ok (), n') ∧ Erased n n' := by
  let n₁ := n.expectStopped
  have hsave : saveExpectedStatus .stopped n = (.ok (), n₁) := saveExpectedStatus_calm hsaves hpresent
  obtain ⟨s₂, hstop, hsame, hs₂⟩ := BabelEngine.stop_calm (s := n₁.site) h
  obtain ⟨s₃, hhalt, hs₃⟩ := haltMachine_calm (n := { n₁ with site := s₂ }) hs₂.calm (by rw [hsame]; exact hbabels)
  have hthere : s₃.dir.present = true := (hs₃.present.trans hs₂.present).trans hpresent
  let n₄ : Node := ({ n₁ with site := s₃ } : Node).removeDir .all
  have hmachine : deleteMachine { n₁ with site := s₂ } = (.ok (), n₄) := by
    unfold deleteMachine
    rw [bind_of_ok hhalt]
    exact removeNodeDir_calm (n := { n₁ with site := s₃ }) hs₃.calm hthere
  let n₅ : Node := { n₄ with registry := n.registry.release n.state.assignedCpus, state.assignedCpus := [] }
  have hrelease : releaseAssigned n₄ = (.ok (), n₅) := rfl
  have hfirewall : onSite cleanupFirewallConfig n₅ = (.ok (), { n₅ with site.firewall := .none }) :=
    onSite_run (Site.command_calm (s := n₅.site) hs₃.calm)
  refine ⟨{ n₅ with site.firewall := .none }, ?_, rfl, rfl, rfl, rfl, rfl⟩
  unfold delete
  rw [bind_of_ok hsave, bind_of_ok (onSite_run hstop), bind_of_ok hmachine, bind_of_ok hrelease, bind_of_ok hfirewall]
  exact removeNodeDir_gone rfl

/-- A node whose directory is gone, or that has two babels, is not deleted. -/
theorem delete_stuck (h : n.site.faults = []) (hsaves : n.saves = [])
    (hstuck : n.site.dir.present = false ∨ 1 < n.site.babels.length) : ∃ err n', delete n = (.error (.error err), n') := by
  by_cases hpresent : n.site.dir.present = true
  · have hbabels : 1 < n.site.babels.length := hstuck.resolve_left (by rw [hpresent]; decide)
    obtain ⟨s₂, hstop, hsame, -⟩ := BabelEngine.stop_calm (s := n.expectStopped.site) h
    obtain ⟨err, n', hhalt⟩ := haltMachine_crowded (n := { n.expectStopped with site := s₂ }) (by rw [hsame]; exact hbabels)
    refine ⟨err, n', ?_⟩
    unfold delete
    rw [bind_of_ok (saveExpectedStatus_calm hsaves hpresent), bind_of_ok (onSite_run hstop)]
    exact bind_of_error (bind_of_error hhalt)
  · obtain ⟨err, n', hsave⟩ := saveState_gone (n := { n with state.expectedStatus := .stopped }) hsaves
      (Bool.eq_false_iff.mpr hpresent)
    exact ⟨err, n', bind_of_error hsave⟩

/-! ## What a delete does to the cores -/

/-- The cores of `n₀` that are not in the registry yet are those of the node. -/
def Gives (n₀ n : Node) : Prop :=
  ∃ given, n.registry = n₀.registry.release given ∧ given ++ n.state.assignedCpus = n₀.state.assignedCpus

theorem Gives.placed {n₀ : Node} : Placed (Gives n₀) where
  site := fun _ _ h => h
  saved := fun _ _ _ _ h => h

theorem delete_gives (n₀ : Node) : Keeps (Gives n₀) (Gives n₀) delete := by
  have hrelease : Keeps (Gives n₀) (Gives n₀) releaseAssigned := by
    intro n hn
    obtain ⟨given, hregistry, hgiven⟩ := hn
    refine ⟨given ++ n.state.assignedCpus, ?_, ?_⟩
    · show n.registry ++ n.state.assignedCpus = n₀.registry ++ (given ++ n.state.assignedCpus)
      rw [hregistry, ← List.append_assoc]
      rfl
    · show given ++ n.state.assignedCpus ++ [] = _
      rw [List.append_nil, hgiven]
  unfold delete
  refine Keeps.bind (saveExpectedStatus_keeps Gives.placed fun _ h => h) fun _ => Keeps.bind Gives.placed.onSite fun _ => ?_
  refine Keeps.bind (deleteMachine_keeps Gives.placed) fun _ => Keeps.bind hrelease fun _ => ?_
  exact Keeps.bind Gives.placed.onSite fun _ => removeNodeDir_keeps Gives.placed _

end Node

/-! ## Deleting again -/

namespace NodesManager

open Node

/-- `NodesManager::delete` of a node, with nothing else going on: what it returns, the node after it
and the manager. -/
def deleteCall (m : NodesManager) (id : String) (n : Node) (env : TaskEnv) :
    Option (Except CommandError Unit × Node × NodesManager) :=
  match runOn (Node.lift Node.delete) n env with
  | none => none
  | some (.error err, n') => some (.error err, n', m.setNode id n')
  | some (.ok (), n') => some (.ok (), n', {
      nodeIds := m.nodeIds.erase n'.state.name
      nodes := (m.setNode id n').nodes.erase id
      nodeStateCache := m.nodeStateCache.erase id
      tasks := m.tasks })

/-- A delete that fails; the cores that deletes have given back are counted. -/
def failedDelete (id : String) (s : NodesManager × List Nat) (env : TaskEnv) : Option (NodesManager × List Nat) :=
  match s.1.found id "delete" with
  | .error _ => none
  | .ok n =>
    match s.1.deleteCall id n env with
    | some (.error _, n', m) => some (m, s.2 ++ n'.registry.drop env.registry.length)
    | _ => none

/-- The events of a call that are left when it has begun. -/
def goes (t : Nat) (env : TaskEnv) : Except CommandError Unit → List Event
  | .error _ => [.go t env]
  | .ok () => [.go t env, .go t env, .go t env, .go t env]

/-- The manager with a single task. -/
def withTask (m : NodesManager) (t : Nat) (a : Task) : NodesManager := { m with tasks := (∅ : Table Nat Task).insert t a }

theorem withTask_next (m : NodesManager) (t : Nat) (a b : Task) : (m.withTask t a).settle t (.next b) = m.withTask t b := by
  unfold withTask settle
  simp only [AList.insert_insert]

theorem withTask_done {m : NodesManager} (hidle : m.tasks = ∅) (t : Nat) (a : Task) (res : Except CommandError Unit) :
    (m.withTask t a).settle t (.done res) = m := by
  have herase : ((∅ : Table Nat Task).insert t a).erase t = ∅ := by
    apply AList.ext
    show List.kerase t [(⟨t, a⟩ : Sigma fun _ : Nat => Task)] = []
    simp
  show ({ m with tasks := ((∅ : Table Nat Task).insert t a).erase t } : NodesManager) = m
  rw [herase, ← hidle]

theorem withTask_go {m m' : NodesManager} {t : Nat} {env : TaskEnv} {a : Task} {outcome : Outcome}
    (h : (m.withTask t a).advance env a = some (outcome, m')) : step (m.withTask t a) (.go t env) = some (m'.settle t outcome) := by
  have hlookup : (m.withTask t a).tasks.lookup t = some a := AList.lookup_insert _
  unfold step
  simp only [hlookup, h]

/-- Nothing holds a lock but the task. -/
theorem withTask_free (m : NodesManager) (t : Nat) (a : Task) :
    (m.withTask t a).idsFree = !a.holdsIds ∧ (m.withTask t a).nodesFree = !a.readsNodes ∧
      ∀ id, (m.withTask t a).nodeFree id = !a.holdsNode id := by
  have hentries : (m.withTask t a).tasks.entries = [⟨t, a⟩] := rfl
  refine ⟨?_, ?_, fun id => ?_⟩
  · unfold idsFree
    rw [hentries]
    simp
  · unfold nodesFree
    rw [hentries]
    simp
  · unfold nodeFree
    rw [hentries]
    simp

/-- The call is what the steps of its task come to when there are no others. -/
theorem deleteCall_run {m m' : NodesManager} {id : String} {n n' : Node} {env : TaskEnv} {res : Except CommandError Unit}
    (hidle : m.tasks = ∅) (hfound : m.found id "delete" = .ok n) (h : m.deleteCall id n env = some (res, n', m')) (t : Nat) :
    run step m (.call t (.delete id) :: goes t env res) = some m' := by
  have hcall : step m (.call t (.delete id)) = some (m.withTask t (.delete id)) := by
    unfold step withTask
    simp [hidle, Task.isCall]
  have hadvance : (m.withTask t (.delete id)).advance env (.delete id) =
      (m.withTask t (.delete id)).callNode env id "delete" (Node.lift Node.delete) fun n => .deleteNode id n.state.name := by
    have hfree := (withTask_free m t (.delete id)).2.2 id
    simp only [advance, hfree, Task.holdsNode, Bool.not_false, if_true]
  have hfound' : (m.withTask t (.delete id)).found id "delete" = .ok n := hfound
  unfold deleteCall at h
  split at h
  · cases h
  · rename_i err n₁ hrun
    cases h
    have hgo : step (m.withTask t (.delete id)) (.go t env) = some ((m.setNode id n').withTask t (.delete id) |>.settle t (.done (.error err))) := by
      refine withTask_go ?_
      rw [hadvance]
      unfold callNode
      simp only [hfound', hrun]
      rfl
    rw [withTask_done (by exact hidle)] at hgo
    simp only [goes, run, hcall, hgo]
  · rename_i n₁ hrun
    cases h
    have hgo : step (m.withTask t (.delete id)) (.go t env) =
        some ((m.setNode id n').withTask t (.delete id) |>.settle t (.next (.deleteNode id n'.state.name))) := by
      refine withTask_go ?_
      rw [hadvance]
      unfold callNode
      simp only [hfound', hrun]
      rfl
    rw [withTask_next] at hgo
    let m₁ : NodesManager := { m.setNode id n' with nodes := (m.setNode id n').nodes.erase id }
    have hnode : step ((m.setNode id n').withTask t (.deleteNode id n'.state.name)) (.go t env) =
        some (m₁.withTask t (.deleteName id n'.state.name)) := by
      rw [← withTask_next m₁ t (.deleteNode id n'.state.name)]
      refine withTask_go ?_
      have hfree := (withTask_free (m.setNode id n') t (.deleteNode id n'.state.name)).2.1
      simp only [advance, hfree, Task.readsNodes, Bool.not_false, if_true]
      rfl
    let m₂ : NodesManager := { m₁ with nodeIds := m.nodeIds.erase n'.state.name }
    have hname : step (m₁.withTask t (.deleteName id n'.state.name)) (.go t env) = some (m₂.withTask t (.deleteCache id)) := by
      rw [← withTask_next m₂ t (.deleteName id n'.state.name)]
      refine withTask_go ?_
      have hfree := (withTask_free m₁ t (.deleteName id n'.state.name)).1
      simp only [advance, hfree, Task.holdsIds, Bool.not_false, if_true]
      rfl
    let m₃ : NodesManager := { m₂ with nodeStateCache := m.nodeStateCache.erase id }
    have hcache : step (m₂.withTask t (.deleteCache id)) (.go t env) = some m₃ := by
      rw [← withTask_done (m := m₃) hidle t (.deleteCache id) (.ok ())]
      exact withTask_go rfl
    simp only [goes, run, hcall, hgo, hnode, hname, hcache]
    rfl

/-- The node is in no map of the manager. -/
structure Gone (m : NodesManager) (id : String) : Prop where
  nodes : m.nodes.lookup id = none
  nodeIds : ∀ name, m.nodeIds.lookup name ≠ some id
  nodeStateCache : m.nodeStateCache.lookup id = none

/-- The node is known by no other name than its own. -/
def OnlyName (m : NodesManager) (id : String) (n : Node) : Prop :=
  ∀ name, m.nodeIds.lookup name = some id → name = n.state.name

theorem found_setNode (m : NodesManager) (id what : String) (n : Node) : (m.setNode id n).found id what = .ok n := by
  unfold found setNode
  rw [AList.lookup_insert]

/-- What a delete gives back the node does not have any more. -/
theorem deleteCall_gives {m m' : NodesManager} {id : String} {n n' : Node} {env : TaskEnv} {res : Except CommandError Unit}
    (h : m.deleteCall id n env = some (res, n', m')) :
    ∃ given, n'.registry = env.registry.release given ∧ given ++ n'.state.assignedCpus = n.state.assignedCpus := by
  let n₁ : Node := { n.inEnv env.call with registry := env.registry }
  have hgives := (Node.lift_keeps (Node.delete_gives n₁)).run (s := n₁) ⟨[], (List.append_nil _).symm, rfl⟩
  unfold deleteCall runOn at h
  split at h
  · cases h
  · rename_i err n₂ hrun
    cases h
    split at hrun
    · cases hrun
    · rename_i hdelete
      cases hrun
      rw [hdelete] at hgives
      exact hgives
    · cases hrun
  · rename_i n₂ hrun
    cases h
    split at hrun
    · rename_i hdelete
      cases hrun
      rw [hdelete] at hgives
      exact hgives
    · cases hrun
    · cases hrun

/-- After deletes that failed the node is there, with the cores that were not given back. -/
theorem failedDelete_run {m m' : NodesManager} {id : String} {n₀ : Node} {envs : List TaskEnv} {given : List Nat}
    (h₀ : m.found id "delete" = .ok n₀) (hrun : run (failedDelete id) (m, []) envs = some (m', given)) :
    ∃ n, m'.found id "delete" = .ok n ∧ given ++ n.state.assignedCpus = n₀.state.assignedCpus := by
  refine run_invariant_all (failedDelete id)
    (I := fun s => ∃ n, s.1.found id "delete" = .ok n ∧ s.2 ++ n.state.assignedCpus = n₀.state.assignedCpus) ?_
    ⟨n₀, h₀, rfl⟩ hrun
  intro s env s' hs hstep
  obtain ⟨n, hfound, hgiven⟩ := hs
  unfold failedDelete at hstep
  rw [hfound] at hstep
  dsimp only at hstep
  split at hstep
  · rename_i err n' m₁ hcall
    cases hstep
    obtain ⟨last, hregistry, hlast⟩ := deleteCall_gives hcall
    have hm₁ : m₁ = s.1.setNode id n' := by
      unfold deleteCall at hcall
      split at hcall
      · cases hcall
      · cases hcall
        rfl
      · cases hcall
    refine ⟨n', ?_, ?_⟩
    · rw [hm₁]
      exact found_setNode ..
    · show s.2 ++ n'.registry.drop env.registry.length ++ n'.state.assignedCpus = _
      rw [hregistry, CpuRegistry.release, List.drop_left, List.append_assoc, hlast, hgiven]
  · cases hstep

/-- Without its own name the index has no name for the node, when it has no other. -/
theorem erase_onlyName {m : NodesManager} {id : String} {n : Node} :
    (∀ name, (m.nodeIds.erase n.state.name).lookup name ≠ some id) ↔ m.OnlyName id n := by
  constructor
  · intro h name hname
    by_contra hne
    exact h name ((AList.lookup_erase_ne hne).trans hname)
  · intro h name hname
    rw [Table.lookup_erase_ite] at hname
    split at hname
    · cases hname
    · rename_i hne
      exact hne (h name hname)

/-- **A delete that meets no failure**, after any number of deletes that failed: the node is removed, and its
cores were given back once, if the node still has its directory, is not crowded and has one name. -/
theorem delete_retriable {m m' : NodesManager} {id : String} {n₀ : Node} {envs : List TaskEnv} {given : List Nat}
    (h₀ : m.found id "delete" = .ok n₀) (hrun : run (failedDelete id) (m, []) envs = some (m', given)) :
    ∃ n, m'.found id "delete" = .ok n ∧ given ++ n.state.assignedCpus = n₀.state.assignedCpus ∧
      ∀ env : TaskEnv, env.call.faults = [] → env.call.saves = [] →
        ∃ res n' m'', m'.deleteCall id n env = some (res, n', m'') ∧
          (res = .ok () ∧ m''.Gone id ∧ n'.site.dir = .removed ∧ n'.file = ⟨.missing, .missing⟩ ∧
              (∃ last, n'.registry = env.registry.release last ∧ given ++ last = n₀.state.assignedCpus) ↔
            n.site.dir.present = true ∧ n.site.babels.length ≤ 1 ∧ m'.OnlyName id n) := by
  obtain ⟨n, hfound, hgiven⟩ := failedDelete_run h₀ hrun
  refine ⟨n, hfound, hgiven, fun env hfaults hsaves => ?_⟩
  let n₁ : Node := { n.inEnv env.call with registry := env.registry }
  by_cases hfit : n.site.dir.present = true ∧ n.site.babels.length ≤ 1
  · obtain ⟨n', hdelete, herased⟩ := Node.delete_calm (n := n₁) hfaults hsaves hfit.1 hfit.2
    have hcall : runOn (Node.lift Node.delete) n env = some (.ok (), n') := by
      have hlift : Node.lift Node.delete n₁ = (.ok (), n') := by
        unfold Node.lift mapError
        rw [hdelete]
      unfold runOn
      rw [hlift]
    have hname : n'.state.name = n.state.name := herased.name
    refine ⟨.ok (), n', _, by unfold deleteCall; rw [hcall], ?_⟩
    constructor
    · intro h
      refine ⟨hfit.1, hfit.2, erase_onlyName.mp ?_⟩
      rw [← hname]
      exact h.2.1.nodeIds
    · intro h
      refine ⟨rfl, ⟨AList.lookup_erase _ _, ?_, AList.lookup_erase _ _⟩, herased.dir, herased.file, ?_⟩
      · rw [hname]
        exact erase_onlyName.mpr h.2.2
      · exact ⟨n.state.assignedCpus, herased.registry, hgiven⟩
  · have hstuck : n₁.site.dir.present = false ∨ 1 < n₁.site.babels.length := by
      by_cases hpresent : n.site.dir.present = true
      · exact .inr (Nat.lt_of_not_le fun hbabels => hfit ⟨hpresent, hbabels⟩)
      · exact .inl (Bool.eq_false_iff.mpr hpresent)
    obtain ⟨err, n', hdelete⟩ := Node.delete_stuck (n := n₁) hfaults hsaves hstuck
    have hcall : runOn (Node.lift Node.delete) n env = some (.error (.internal err), n') := by
      have hlift : Node.lift Node.delete n₁ = (.error (.error (.internal err)), n') := by
        unfold Node.lift mapError
        rw [hdelete]
      unfold runOn
      rw [hlift]
    refine ⟨.error (.internal err), n', _, by unfold deleteCall; rw [hcall], ?_⟩
    constructor
    · intro h
      cases h.1
    · intro h
      exact absurd ⟨h.1, h.2.1⟩ hfit

/-- A node with two cores, and nothing in its directory. -/
def idle : Node :=
  { newNode .fine { (default : NodeState) with id := "id", name := "name", assignedCpus := [1, 2] } with site.dir.present := true }

def oneNode : NodesManager where
  nodeIds := (∅ : Table String String).insert "name" "id"
  nodes := (∅ : Table String MaybeNode).insert "id" (.node idle)
  nodeStateCache := (∅ : Table String NodeState).insert "id" idle.state
  tasks := ∅

/-- The directory is removed, and the firewall configuration is not. -/
def firewallFails : TaskEnv := { TaskEnv.fine with call.faults := [.none, .error .nothing] }

/-- The file cannot be written at first: the next delete removes the node. -/
theorem delete_retriable_full :
    ∃ m' n, run (failedDelete "id") (oneNode, []) [.full] = some (m', []) ∧ m'.found "id" "delete" = .ok n ∧
      ∃ n' m'', m'.deleteCall "id" n .fine = some (.ok (), n', m'') ∧ m''.Gone "id" ∧
        ∃ last, n'.registry = last ∧ last = [1, 2] := by
  obtain ⟨m', n₁, hrun, hids, hfound₁, hpresent, hbabels, hname⟩ :
      ∃ m' n, run (failedDelete "id") (oneNode, []) [.full] = some (m', []) ∧ m'.nodeIds = oneNode.nodeIds ∧
        m'.found "id" "delete" = .ok n ∧ n.site.dir.present = true ∧ n.site.babels.length ≤ 1 ∧ n.state.name = "name" :=
    ⟨_, _, rfl, rfl, rfl, rfl, Nat.zero_le _, rfl⟩
  obtain ⟨n, hfound, -, hretry⟩ := @delete_retriable _ _ _ idle _ _ rfl hrun
  cases Except.ok.inj (hfound₁.symm.trans hfound)
  obtain ⟨res, n', m'', hcall, hiff⟩ := hretry .fine rfl rfl
  have honly : m'.OnlyName "id" n₁ := by
    intro name hlookup
    rw [hids] at hlookup
    change (AList.insert "name" "id" (∅ : Table String String)).lookup name = some "id" at hlookup
    rw [Table.lookup_insert_ite] at hlookup
    split at hlookup
    · rw [hname]
      assumption
    · cases hlookup
  obtain ⟨hres, hgone, -, -, last, hregistry, hlast⟩ := hiff.mpr ⟨hpresent, hbabels, honly⟩
  subst hres
  exact ⟨m', n₁, hrun, hfound₁, n', m'', hcall, hgone, last, hregistry, hlast⟩

/-- The firewall cannot be cleaned up once, and the node is never removed. -/
theorem delete_sticks :
    ¬ ∀ (m m' : NodesManager) (id : String) (n₀ : Node) (envs : List TaskEnv) (given : List Nat),
      m.found id "delete" = .ok n₀ → run (failedDelete id) (m, []) envs = some (m', given) →
      ∃ n, m'.found id "delete" = .ok n ∧
        ∀ env : TaskEnv, env.call.faults = [] → env.call.saves = [] →
          ∃ n' m'', m'.deleteCall id n env = some (.ok (), n', m'') ∧ m''.Gone id := by
  intro h
  have hrun : run (failedDelete "id") (oneNode, []) [firewallFails] = some (_, [1, 2]) := rfl
  obtain ⟨n, hfound, hretry⟩ := h oneNode _ "id" idle _ _ rfl hrun
  obtain ⟨n', m'', hcall, -⟩ := hretry .fine rfl rfl
  cases hfound
  cases hcall

end NodesManager

end Blockvisor
