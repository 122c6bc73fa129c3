/-
The indexes of the nodes manager stay consistent, as far as they do. The maps
are torn by a call that fails with its node changed, by a rename that fails
after the index has the new name, by one that is overtaken by another change
of the index, and by a create that puts a stale state into the cache.
`indexes_consistent` is about the runs without such steps, `indexes_torn` has
a rename that cannot save the state of its node.
-/
import Blockvisor.Lib.Machine
import Blockvisor.Bv.NodeFacts
import Blockvisor.Bv.Indexed

namespace Blockvisor

open Effect Machine

/-! ## The manager's maps -/

namespace NodesManager

def stateOf (m : NodesManager) (id : String) : Option NodeState := (m.nodes.lookup id).map MaybeNode.state

/-- What is claimed of the maps of a manager with nothing under way. -/
structure Consistent (m : NodesManager) : Prop where
  ids : ∀ id, (∃ name, m.nodeIds.lookup name = some id) ↔ m.stateOf id ≠ none
  index : ∀ name id, m.nodeIds.lookup name = some id ↔ ∃ st, m.stateOf id = some st ∧ st.name = name
  cache : ∀ id, m.nodeStateCache.lookup id = m.stateOf id
  names : ∀ id id' st st', m.stateOf id = some st → m.stateOf id' = some st' → st.name = st'.name → id = id'
  ips : ∀ id id' st st', m.stateOf id = some st → m.stateOf id' = some st' → st.ip = st'.ip → id = id'

def on (m : NodesManager) (a : Task) : Prop := ∃ t, m.tasks.lookup t = some a

def others (m : NodesManager) (t : Nat) (a : Task) : Prop := ∃ t', t' ≠ t ∧ m.tasks.lookup t' = some a

def anyOther (m : NodesManager) (t : Nat) (p : Task → Bool) : Bool := m.tasks.entries.any fun e => e.1 ≠ t ∧ p e.2

/-! ## Careful steps -/

/-- A call on a node that fails leaves the node's state as it was, unless the node is about to go. -/
def failsClean (m : NodesManager) (t : Nat) (env : TaskEnv) (id what : String) (op : NodeC Unit) : Bool :=
  match m.found id what with
  | .error _ => true
  | .ok n =>
    match runOn op n env with
    | some (.error _, n') => n'.state = n.state ∨ m.anyOther t (Task.removes id)
    | _ => true

/-- The rename of the node does not fail. -/
def renames (m : NodesManager) (env : TaskEnv) (id name dnsName : String) : Bool :=
  match m.found id "rename" with
  | .error _ => false
  | .ok n =>
    match runOn (renameNode name dnsName) n env with
    | some (.error _, _) => false
    | _ => true

/-- The index has the name for the node, or one that another rename is about to give to it. -/
def expects (m : NodesManager) (t : Nat) (id name : String) : Bool :=
  m.nodeIds.entries.any fun e => e.2 = id ∧ (e.1 = name ∨ m.anyOther t (Task.renames id e.1))

/-- The step of a task is none of those that break the maps. -/
def spares (m : NodesManager) (t : Nat) (env : TaskEnv) : Task → Bool
  -- two deletes of the node were under way, and one of them has emptied the cache
  | .create desired =>
    (m.nodeStateCache.lookup desired.id).isSome ∨ (m.nodeIds.lookup desired.name).isSome ∨
      m.anyOther t (Task.deletes desired.id) = false
  -- a call has changed the node since it was put in, and its state is in the cache already
  | .createCache id st =>
    m.stateOf id = none ∨ m.stateOf id = some st ∨ m.anyOther t (Task.refreshes id) ∨ m.anyOther t (Task.removes id)
  | .upgradeNode desired => m.failsClean t env desired.id "upgrade" (Node.upgrade desired)
  | .delete id => m.failsClean t env id "delete" (Node.lift Node.delete)
  -- the name the node had is not the one that the index has for it
  | .deleteName id name => m.nodeIds.entries.all fun e => e.1 = name ↔ e.2 = id
  | .renameNode id name dnsName => m.renames env id name dnsName ∧ m.expects t id name
  | .update id u => m.failsClean t env id "update" (Node.update u)
  | _ => true

def careful (m : NodesManager) : Event → Bool
  | .call .. => true
  | .go t env =>
    match m.tasks.lookup t with
    | none => true
    | some task => m.spares t env task

/-- A rename that fails does so before it has changed anything. -/
def RenameClean (m : NodesManager) : Event → Prop
  | .call .. => True
  | .go t env =>
    match m.tasks.lookup t with
    | some (.rename id name dnsName) => ∀ err m', m.advance env (.rename id name dnsName) = some (.done (.error err), m') → m' = m
    | some (.renameNode id name dnsName) => ∀ err m', m.advance env (.renameNode id name dnsName) ≠ some (.done (.error err), m')
    | _ => True

/-! ## Lookups -/

theorem lookup_of_mem {κ α : Type} [DecidableEq κ] {t : Table κ α} {e : Sigma fun _ : κ => α} (h : e ∈ t.entries) :
    t.lookup e.1 = some e.2 :=
  AList.mem_lookup_iff.mpr h

theorem mem_of_lookup {κ α : Type} [DecidableEq κ] {t : Table κ α} {k : κ} {a : α} (h : t.lookup k = some a) :
    ⟨k, a⟩ ∈ t.entries :=
  AList.mem_lookup_iff.mp h

theorem anyOther_iff {m : NodesManager} {t : Nat} {p : Task → Bool} : m.anyOther t p ↔ Has (m.others t) p := by
  unfold anyOther Has others
  rw [List.any_eq_true]
  constructor
  · rintro ⟨e, he, hp⟩
    have hp := of_decide_eq_true hp
    exact ⟨e.2, ⟨e.1, hp.1, lookup_of_mem he⟩, hp.2⟩
  · rintro ⟨a, ⟨t', ht', ha⟩, hp⟩
    exact ⟨⟨t', a⟩, mem_of_lookup ha, decide_eq_true ⟨ht', hp⟩⟩

theorem on_eq {m : NodesManager} {t : Nat} {a : Task} (h : m.tasks.lookup t = some a) : m.on = Plus a (m.others t) := by
  funext b
  refine propext ⟨fun ⟨t', hb⟩ => ?_, fun hb => ?_⟩
  · by_cases ht : t' = t
    · rw [ht, h] at hb
      exact .inl (Option.some.inj hb).symm
    · exact .inr ⟨t', ht, hb⟩
  · obtain rfl | ⟨t', -, hb⟩ := hb
    · exact ⟨t, h⟩
    · exact ⟨t', hb⟩

theorem stateOf_setNode (m : NodesManager) (id : String) (n : Node) :
    (m.setNode id n).stateOf = fun k => if k = id then some n.state else m.stateOf k := by
  funext k
  unfold stateOf setNode
  rw [Table.lookup_insert_ite]
  split <;> rfl

theorem stateOf_of_found {m : NodesManager} {id what : String} {n : Node} (h : m.found id what = .ok n) :
    m.stateOf id = some n.state := by
  unfold found at h
  unfold stateOf
  split at h
  · cases h
  · cases h
  · rename_i n' hn
    cases h
    rw [hn]
    rfl

/-! ## The invariant -/

/-- The maps are as the tasks under way have left them, and only one create goes on. -/
structure Orderly (m : NodesManager) : Prop where
  indexed : Indexed m.stateOf m.nodeStateCache.lookup m.nodeIds.lookup m.on
  single : ∀ t t' a a', m.tasks.lookup t = some a → m.tasks.lookup t' = some a' → a.holdsIds → a'.holdsIds → t = t'

/-- The others of a create that goes on create nothing. -/
theorem Orderly.noCreate {m : NodesManager} {t : Nat} {a : Task} (h : m.Orderly) (ht : m.tasks.lookup t = some a)
    (ha : a.holdsIds) : NoCreate (m.others t) := by
  rintro b ⟨t', ht', hb⟩
  cases hids : b.holdsIds with
  | false => rfl
  | true => exact (ht' (h.single t' t b a hb ht hids ha)).elim

theorem noCreate_of_free {m : NodesManager} {t : Nat} (h : m.idsFree) : NoCreate (m.others t) := by
  rintro a ⟨t', _, ha⟩
  simpa using List.all_eq_true.mp h _ (mem_of_lookup ha)

theorem Orderly.plus {m : NodesManager} {t : Nat} {a : Task} (h : m.Orderly) (ht : m.tasks.lookup t = some a) :
    Indexed m.stateOf m.nodeStateCache.lookup m.nodeIds.lookup (Plus a (m.others t)) := by
  rw [← on_eq ht]
  exact h.indexed

theorem others_settle {m m' : NodesManager} {t : Nat} {outcome : Outcome} (htasks : m'.tasks = m.tasks) :
    (m'.settle t outcome).others t = m.others t := by
  funext a
  refine propext (exists_congr fun t' => and_congr_right fun ht => ?_)
  cases outcome with
  | done r => exact iff_of_eq (congrArg (· = some a) ((AList.lookup_erase_ne ht).trans (by rw [htasks])))
  | next b => exact iff_of_eq (congrArg (· = some a) ((AList.lookup_insert_ne ht).trans (by rw [htasks])))

/-- A task that is done leaves the maps to the others. -/
theorem Orderly.done {m m' : NodesManager} {t : Nat} {r : Except CommandError Unit} (h : m.Orderly) (htasks : m'.tasks = m.tasks)
    (hmaps : Indexed m'.stateOf m'.nodeStateCache.lookup m'.nodeIds.lookup (m.others t)) : (m'.settle t (.done r)).Orderly where
  indexed := by
    have hon : (m'.settle t (.done r)).on = m.others t := by
      rw [← @others_settle m m' t (.done r) htasks]
      funext a
      refine propext ⟨fun ⟨t', ha⟩ => ⟨t', ?_, ha⟩, fun ⟨t', _, ha⟩ => ⟨t', ha⟩⟩
      rintro rfl
      rw [show (m'.settle t' (.done r)).tasks = m'.tasks.erase t' from rfl, AList.lookup_erase] at ha
      cases ha
    rw [hon]
    exact hmaps
  single := by
    intro t₁ t₂ a₁ a₂ h₁ h₂
    have hlook : ∀ k b, (m'.settle t (.done r)).tasks.lookup k = some b → m.tasks.lookup k = some b := by
      intro k b hk
      rw [show (m'.settle t (.done r)).tasks = m'.tasks.erase t from rfl, Table.lookup_erase_ite, htasks] at hk
      split at hk
      · cases hk
      · exact hk
    exact h.single t₁ t₂ a₁ a₂ (hlook _ _ h₁) (hlook _ _ h₂)

/-- A task goes on with another one, which holds the index only if no other create goes on. -/
theorem Orderly.next {m m' : NodesManager} {t : Nat} {b : Task} (h : m.Orderly) (htasks : m'.tasks = m.tasks)
    (hids : b.holdsIds → NoCreate (m.others t))
    (hmaps : Indexed m'.stateOf m'.nodeStateCache.lookup m'.nodeIds.lookup (Plus b (m.others t))) :
    (m'.settle t (.next b)).Orderly where
  indexed := by
    have hb : (m'.settle t (.next b)).tasks.lookup t = some b := AList.lookup_insert _
    rw [on_eq hb, others_settle htasks]
    exact hmaps
  single := by
    intro t₁ t₂ a₁ a₂ h₁ h₂ hids₁ hids₂
    have hlook : ∀ k a, (m'.settle t (.next b)).tasks.lookup k = some a → k = t ∧ a = b ∨ k ≠ t ∧ m.tasks.lookup k = some a := by
      intro k a hk
      rw [show (m'.settle t (.next b)).tasks = m'.tasks.insert t b from rfl, Table.lookup_insert_ite, htasks] at hk
      split at hk
      · rename_i hkt
        exact .inl ⟨hkt, (Option.some.inj hk).symm⟩
      · rename_i hkt
        exact .inr ⟨hkt, hk⟩
    have hone : ∀ k a, k ≠ t → m.tasks.lookup k = some a → a.holdsIds → ¬ b.holdsIds := by
      intro k a hk ha hheld hb
      exact absurd hheld (by simp [hids hb a ⟨k, hk, ha⟩])
    obtain ⟨ht₁, hb₁⟩ | ⟨hne₁, h₁⟩ := hlook _ _ h₁ <;> obtain ⟨ht₂, hb₂⟩ | ⟨hne₂, h₂⟩ := hlook _ _ h₂
    · rw [ht₁, ht₂]
    · exact (hone _ _ hne₂ h₂ hids₂ (hb₁ ▸ hids₁)).elim
    · exact (hone _ _ hne₁ h₁ hids₁ (hb₂ ▸ hids₂)).elim
    · exact h.single t₁ t₂ a₁ a₂ h₁ h₂ hids₁ hids₂

/-! ## Calls on a node -/

/-- An operation on a node leaves it its name and its address. -/
theorem runOn_same {op : NodeC Unit} (hop : ∀ I, Node.Robust I → Keeps I I op) {n n' : Node} {env : TaskEnv}
    {r : Except CommandError Unit} (h : runOn op n env = some (r, n')) :
    n'.state.name = n.state.name ∧ n'.state.ip = n.state.ip := by
  have hI : Node.Robust fun x => x.state.name = n.state.name ∧ x.state.ip = n.state.ip :=
    { site := fun _ _ h => h
      saved := fun _ _ _ _ h => h
      registry := fun _ _ h => h
      ready := fun _ _ h => h
      told := fun _ _ h => h
      state := fun _ _ hsame h => ⟨hsame.name.trans h.1, hsame.ip.trans h.2⟩
      marked := fun _ h => h
      started := fun _ h => h }
  have hkept := (hop _ hI).run (s := { n.inEnv env.call with registry := env.registry }) ⟨rfl, rfl⟩
  unfold runOn at h
  split at h
  · rename_i n₁ hrun
    cases h
    rw [hrun] at hkept
    exact hkept
  · rename_i err n₁ hrun
    cases h
    rw [hrun] at hkept
    exact hkept
  · cases h

theorem runOn_create {desired : NodeState} {n n' : Node} {env : TaskEnv}
    (h : runOn (Node.lift (Node.create desired)) n env = some (.ok (), n')) :
    ∃ cpus, n'.state = { desired with assignedCpus := cpus } := by
  have hlift : Triple (fun _ => True) (Node.lift (Node.create desired))
      (fun _ x => ∃ cpus, x.state = { desired with assignedCpus := cpus }) fun _ _ => True :=
    Triple.mapError ((Node.create_creates desired).exit fun e _ _ => by cases e <;> trivial)
  have hcreated := hlift { n.inEnv env.call with registry := env.registry } trivial
  unfold runOn at h
  split at h
  · rename_i n₁ hrun
    cases h
    rw [hrun] at hcreated
    exact hcreated
  · cases h
  · cases h

/-- A rename that returns has set the two names. -/
theorem runOn_rename {name dnsName : String} {n n' : Node} {env : TaskEnv}
    (h : runOn (renameNode name dnsName) n env = some (.ok (), n')) : n'.state = { n.state with name, dnsName } := by
  have hset : Triple (· = { n.inEnv env.call with registry := env.registry }) (renameNode name dnsName)
      (fun _ x => x.state = { n.state with name, dnsName }) fun _ _ => True := by
    unfold renameNode
    refine Triple.bind (R := fun _ x => x.state = { n.state with name, dnsName }) ?_ fun _ => ?_
    · rintro s rfl
      rfl
    · have hsave : Keeps (fun x : Node => x.state = { n.state with name, dnsName }) (fun x => x.state = { n.state with name, dnsName })
          Node.saveState := Node.Placed.save { site := fun _ _ h => h, saved := fun _ _ _ _ h => h }
      exact (Node.lift_keeps hsave).exit fun _ _ _ => trivial
  have hrun' := hset _ rfl
  unfold runOn at h
  split at h
  · rename_i n₁ hrun
    cases h
    rw [hrun] at hrun'
    exact hrun'
  · cases h
  · cases h

theorem callNode_cases {m m' : NodesManager} {env : TaskEnv} {id what : String} {op : NodeC Unit} {next : Node → Task}
    {outcome : Outcome} (hs : m.callNode env id what op next = some (outcome, m')) :
    (∃ err, m.found id what = .error err ∧ outcome = .done (.error err) ∧ m' = m) ∨
    ∃ n r n', m.found id what = .ok n ∧ runOn op n env = some (r, n') ∧ m' = m.setNode id n' ∧
      match r with
      | .ok () => outcome = .next (next n')
      | .error err => outcome = .done (.error err) := by
  unfold callNode at hs
  split at hs
  · rename_i err hfound
    cases hs
    exact .inl ⟨err, hfound, rfl, rfl⟩
  · rename_i n hfound
    split at hs
    · cases hs
    · rename_i n' hrun
      cases hs
      exact .inr ⟨n, .ok (), n', hfound, hrun, rfl, rfl⟩
    · rename_i err n' hrun
      cases hs
      exact .inr ⟨n, .error err, n', hfound, hrun, rfl, rfl⟩

/-! ## What a step preserves -/

variable {m m' : NodesManager} {t : Nat} {env : TaskEnv}

/-- A call that puts the state of its node into the cache when it returns. -/
theorem Orderly.call {id what : String} {op : NodeC Unit} {task : Task} {next : Node → Task} {outcome : Outcome} (h : m.Orderly)
    (ht : m.tasks.lookup t = some task) (hidle : task.Idle) (hop : ∀ I, Node.Robust I → Keeps I I op)
    (hnext : ∀ n, next n = .refreshCache id ∨ ∃ name, next n = .deleteNode id name)
    (hclean : m.failsClean t env id what op) (hs : m.callNode env id what op next = some (outcome, m')) :
    (m'.settle t outcome).Orderly := by
  have hmaps := (h.plus ht).forgo hidle
  obtain ⟨err, -, rfl, rfl⟩ | ⟨n, r, n', hfound, hrun, rfl, hr⟩ := callNode_cases hs
  · exact h.done rfl hmaps
  have hN := stateOf_of_found hfound
  obtain ⟨hname, hip⟩ := runOn_same hop hrun
  cases r with
  | error err =>
    cases hr
    refine h.done rfl ?_
    rw [stateOf_setNode]
    refine hmaps.change hN hname hip ?_
    unfold failsClean at hclean
    rw [hfound] at hclean
    dsimp only at hclean
    rw [hrun] at hclean
    exact (of_decide_eq_true hclean).imp (fun hsame => hsame) fun hrem => .inr (anyOther_iff.mp hrem)
  | ok a =>
    cases hr
    obtain hnext | ⟨name, hnext⟩ := hnext n' <;> rw [hnext]
    · refine h.next rfl nofun ?_
      rw [stateOf_setNode]
      exact hmaps.refreshing.change hN hname hip (.inr (.inl (has_plus.mpr (.inl (by simp)))))
    · refine h.next rfl nofun ?_
      rw [stateOf_setNode]
      exact (hmaps.deleting hN).change hN hname hip (.inr (.inr (has_plus.mpr (.inl (by simp)))))

/-- A create goes on to its next check. -/
theorem Orderly.check {a b : Task} (h : m.Orderly) (ht : m.tasks.lookup t = some a) (ha : a.Idle) (hb : b.Idle)
    (hids : a.holdsIds) (hearly : ∀ id name, b.early id name → a.early id name)
    (hclaims : ∀ ip, b.claims ip → ∀ k st, m.stateOf k = some st → st.ip ≠ ip) : (m.settle t (.next b)).Orderly := by
  refine h.next rfl (fun _ => h.noCreate ht hids) (((h.plus ht).forgo ha).undertake hb (fun id name hnew => ?_) hclaims)
  obtain ⟨hN, hC, hI, hfree, hdel⟩ := (h.plus ht).early id name (has_plus.mpr (.inl (hearly id name hnew)))
  exact ⟨hN, hC, hI, hfree, fun hother => hdel (has_plus.mpr (.inr hother))⟩

theorem Orderly.create {desired : NodeState} (h : m.Orderly) (ht : m.tasks.lookup t = some (.create desired))
    (hfree : m.idsFree) (hcareful : m.spares t env (.create desired)) : (m.settle t (m.beginCreate env desired)).Orderly := by
  have hmaps := (h.plus ht).forgo (.of rfl)
  have hnone := noCreate_of_free (t := t) hfree
  unfold beginCreate
  split
  · exact h.done rfl hmaps
  split
  · exact h.done rfl hmaps
  rename_i hcache
  split
  · exact h.done rfl hmaps
  rename_i hname
  have hC : m.nodeStateCache.lookup desired.id = none := Option.not_isSome_iff_eq_none.mp hcache
  have hI : m.nodeIds.lookup desired.name = none := Option.not_isSome_iff_eq_none.mp hname
  have hdel : ¬ Has (m.others t) (Task.deletes desired.id) := by
    have hspared := of_decide_eq_true hcareful
    rw [hC, hI] at hspared
    obtain hspared | hspared | hspared := hspared
    · cases hspared
    · cases hspared
    · exact fun hhas => absurd (anyOther_iff.mpr hhas) (by simp [hspared])
  have hN : m.stateOf desired.id = none := by
    by_contra hN
    obtain hhas | hhas := hmaps.cacheHas desired.id hN
    · exact hhas hC
    · exact hnone.none.2.2.2 _ hhas
  have hentry : ∀ name, m.nodeIds.lookup name ≠ some desired.id := fun name hentry => by
    obtain hhas | hhas := hmaps.owner desired.id name hentry
    · exact hhas hN
    · exact hdel (has_deletes.mpr (.inr (.inl hhas)))
  split
  · exact h.done rfl hmaps
  split
  · refine h.next rfl (fun _ => hnone) (hmaps.undertake (.of rfl) ?_ nofun)
    intro id name hearly
    obtain ⟨rfl, rfl⟩ := of_decide_eq_true hearly
    exact ⟨hN, hC, hI, hentry, hdel⟩
  · refine h.next rfl (fun _ => hnone) (hmaps.undertake (.of rfl) ?_ nofun)
    intro id name hearly
    obtain ⟨rfl, rfl⟩ := of_decide_eq_true hearly
    exact ⟨hN, hC, hI, hentry, hdel⟩


theorem Orderly.createAddress {desired : NodeState} (h : m.Orderly) (ht : m.tasks.lookup t = some (.createAddress desired)) :
    (m.settle t (m.checkAddress desired)).Orderly := by
  unfold checkAddress
  split
  · exact h.done rfl ((h.plus ht).forgo (.of rfl))
  · rename_i hfree
    refine h.check ht (.of rfl) (.of rfl) rfl
      (fun _ _ hearly => hearly) fun ip hip k st hst hsame => hfree ?_
    unfold stateOf at hst
    obtain ⟨n, hn, rfl⟩ := Option.map_eq_some_iff.mp hst
    have hip := of_decide_eq_true hip
    exact List.any_eq_true.mpr ⟨⟨k, n⟩, mem_of_lookup hn, decide_eq_true (hsame.trans hip.symm)⟩

theorem Orderly.createNode {desired : NodeState} {n : Node} (h : m.Orderly)
    (ht : m.tasks.lookup t = some (.createNode desired))
    (hrun : runOn (Node.lift (Node.create desired)) (newNode env desired) env = some (.ok (), n)) :
    (m.settle t (.next (.createInsert desired.id n))).Orderly := by
  obtain ⟨cpus, hcreated⟩ := runOn_create hrun
  have hname : n.state.name = desired.name := by rw [hcreated]
  have hip : n.state.ip = desired.ip := by rw [hcreated]
  refine h.check ht (.of rfl) (.of rfl) rfl
    (fun id name hearly => ?_) fun ip hclaims => ?_
  · obtain ⟨hid, hnamed⟩ := of_decide_eq_true hearly
    exact decide_eq_true ⟨hid, hname.symm.trans hnamed⟩
  · refine (h.plus ht).address ip (has_plus.mpr (.inl (decide_eq_true ?_)))
    exact hip.symm.trans (of_decide_eq_true hclaims)

theorem Orderly.rename {id name dnsName : String} (h : m.Orderly) (ht : m.tasks.lookup t = some (.rename id name dnsName))
    (hfree : m.idsFree) : ((m.renameId id name dnsName).2.settle t (m.renameId id name dnsName).1).Orderly := by
  have hmaps := (h.plus ht).forgo (.of rfl)
  unfold renameId
  split
  · exact h.done rfl hmaps
  rename_i e he
  have hid : e.2 = id := by simpa using List.find?_some he
  have hold : m.nodeIds.lookup e.1 = some id := by rw [lookup_of_mem (List.mem_of_find?_eq_some he), hid]
  split
  · exact h.done rfl hmaps
  rename_i hnew
  have hname : name = e.1 ∨ m.nodeIds.lookup name = none := by
    by_cases hsame : name = e.1
    · exact .inl hsame
    · exact .inr (Option.not_isSome_iff_eq_none.mp fun hsome => hnew ⟨hsame, hsome⟩)
  refine h.next rfl nofun ?_
  have hrenaming := hmaps.renaming dnsName (noCreate_of_free hfree) hold hname
  have hindex : ((m.nodeIds.erase e.1).insert name id).lookup =
      fun name' => if name' = name then some id else if name' = e.1 then none else m.nodeIds.lookup name' := by
    funext name'
    rw [Table.lookup_insert_ite, Table.lookup_erase_ite]
  rw [show ({ m with nodeIds := (m.nodeIds.erase e.1).insert name id } : NodesManager).nodeIds.lookup = _ from hindex]
  exact hrenaming

theorem Orderly.renameNode {id name dnsName : String} {outcome : Outcome} (h : m.Orderly)
    (ht : m.tasks.lookup t = some (.renameNode id name dnsName)) (hcareful : m.spares t env (.renameNode id name dnsName))
    (hs : m.callNode env id "rename" (NodesManager.renameNode name dnsName) (fun _ => .refreshCache id) = some (outcome, m')) :
    (∃ task, outcome = .next task) ∧ (m'.settle t outcome).Orderly := by
  obtain ⟨hrenames, hexpects⟩ := of_decide_eq_true hcareful
  unfold renames at hrenames
  obtain ⟨err, hfound, -, -⟩ | ⟨n, r, n', hfound, hrun, rfl, hr⟩ := callNode_cases hs
  · rw [hfound] at hrenames
    cases hrenames
  rw [hfound] at hrenames
  dsimp only at hrenames
  rw [hrun] at hrenames
  cases r with
  | error err => cases hrenames
  | ok a =>
    cases hr
    refine ⟨⟨_, rfl⟩, h.next rfl nofun ?_⟩
    rw [stateOf_setNode, runOn_rename hrun]
    refine (h.plus ht).renameNode (stateOf_of_found hfound) ?_
    obtain ⟨e, he, hcover⟩ := List.any_eq_true.mp hexpects
    obtain ⟨hid, hcover⟩ := of_decide_eq_true hcover
    have hentry : m.nodeIds.lookup e.1 = some id := by rw [lookup_of_mem he, hid]
    obtain rfl | hother := hcover
    · exact .inl hentry
    · exact .inr ⟨e.1, anyOther_iff.mp hother, hentry⟩

/-- **The step.** -/
theorem orderly_advance {task : Task} {outcome : Outcome} (h : m.Orderly) (ht : m.tasks.lookup t = some task)
    (hcareful : m.spares t env task) (hs : m.advance env task = some (outcome, m')) : (m'.settle t outcome).Orderly := by
  have hplus := h.plus ht
  cases task with
  | create desired =>
    obtain ⟨hfree, hs⟩ := Option.ite_none_right_eq_some.mp hs
    cases hs
    exact h.create ht hfree hcareful
  | createAdmit desired =>
    simp only [advance] at hs
    split at hs
    · cases hs
      exact h.done rfl (hplus.forgo (.of rfl))
    · cases hs
      exact h.check ht (.of rfl) (.of rfl) rfl
        (fun _ _ hearly => hearly) nofun
  | createAddress desired =>
    cases hs
    exact h.createAddress ht
  | createNode desired =>
    simp only [advance] at hs
    split at hs
    · cases hs
    · cases hs
      exact h.done rfl (hplus.forgo (.of rfl))
    · rename_i n hrun
      cases hs
      exact h.createNode ht hrun
  | createInsert id n =>
    obtain ⟨-, hs⟩ := Option.ite_none_right_eq_some.mp hs
    cases hs
    refine h.next rfl (fun _ => h.noCreate ht rfl) ?_
    rw [stateOf_setNode]
    exact hplus.createInsert (h.noCreate ht rfl)
  | createName id st =>
    cases hs
    refine h.next rfl (fun _ => h.noCreate ht rfl) ?_
    have hindex : (m.nodeIds.insert st.name id).lookup = fun name => if name = st.name then some id else m.nodeIds.lookup name :=
      funext fun name => Table.lookup_insert_ite ..
    rw [show ({ m with nodeIds := m.nodeIds.insert st.name id } : NodesManager).nodeIds.lookup = _ from hindex]
    exact hplus.createName (h.noCreate ht rfl)
  | createCache id st =>
    cases hs
    refine h.done rfl ?_
    have hcache : (m.nodeStateCache.insert id st).lookup = fun k => if k = id then some st else m.nodeStateCache.lookup k :=
      funext fun k => Table.lookup_insert_ite ..
    rw [show ({ m with nodeStateCache := m.nodeStateCache.insert id st } : NodesManager).nodeStateCache.lookup = _ from hcache]
    refine hplus.createCache (h.noCreate ht rfl) fun st' hst' => ?_
    obtain hnone | hsame | hrefresh | hremove := of_decide_eq_true hcareful
    · rw [hst'] at hnone
      cases hnone
    · exact .inl (Option.some.inj (hst'.symm.trans hsame))
    · exact .inr (.inl (anyOther_iff.mp hrefresh))
    · exact .inr (.inr (anyOther_iff.mp hremove))
  | upgrade desired =>
    obtain ⟨-, hs⟩ := Option.ite_none_right_eq_some.mp hs
    cases hs
    have hmaps := hplus.forgo (.of rfl)
    unfold beginUpgrade
    split
    · exact h.done rfl hmaps
    split
    · exact h.done rfl hmaps
    split
    · exact h.done rfl hmaps
    split
    · exact h.done rfl hmaps
    split <;> exact h.next rfl nofun (hmaps.undertake (.of rfl) nofun nofun)
  | upgradeAdmit desired tolerance =>
    have hmaps := hplus.forgo (.of rfl)
    simp only [advance] at hs
    split at hs
    · cases hs
      exact h.done rfl hmaps
    · cases hs
      exact h.next rfl nofun (hmaps.undertake (.of rfl) nofun nofun)
  | upgradeNode desired =>
    obtain ⟨-, hs⟩ := Option.ite_none_right_eq_some.mp hs
    exact h.call ht (.of rfl) (fun I hI => Node.upgrade_keeps hI.live desired)
      (fun _ => .inl rfl) hcareful hs
  | delete id =>
    obtain ⟨-, hs⟩ := Option.ite_none_right_eq_some.mp hs
    exact h.call ht (.of rfl) (fun I hI => Node.lift_keeps (Node.delete_keeps hI.live.upgrading))
      (fun n => .inr ⟨n.state.name, rfl⟩) hcareful hs
  | deleteNode id name =>
    obtain ⟨-, hs⟩ := Option.ite_none_right_eq_some.mp hs
    cases hs
    refine h.next rfl nofun ?_
    have hnodes : ({ m with nodes := m.nodes.erase id } : NodesManager).stateOf = fun k => if k = id then none else m.stateOf k := by
      funext k
      unfold stateOf
      rw [Table.lookup_erase_ite]
      split <;> rfl
    rw [hnodes]
    exact hplus.deleteNode
  | deleteName id name =>
    obtain ⟨hfree, hs⟩ := Option.ite_none_right_eq_some.mp hs
    cases hs
    refine h.next rfl nofun ?_
    have hindex : (m.nodeIds.erase name).lookup = fun name' => if name' = name then none else m.nodeIds.lookup name' :=
      funext fun name' => Table.lookup_erase_ite ..
    rw [show ({ m with nodeIds := m.nodeIds.erase name } : NodesManager).nodeIds.lookup = _ from hindex]
    have hentry : ∀ name' id', m.nodeIds.lookup name' = some id' → (name' = name ↔ id' = id) := fun name' id' hentry =>
      of_decide_eq_true (List.all_eq_true.mp hcareful _ (mem_of_lookup hentry))
    refine hplus.deleteName (noCreate_of_free hfree) ?_ fun name' hname' => (hentry name' id hname').mpr rfl
    cases hname : m.nodeIds.lookup name with
    | none => exact .inl rfl
    | some id' => exact .inr (congrArg some ((hentry name id' hname).mp rfl))
  | deleteCache id =>
    cases hs
    refine h.done rfl ?_
    have hcache : (m.nodeStateCache.erase id).lookup = fun k => if k = id then none else m.nodeStateCache.lookup k :=
      funext fun k => Table.lookup_erase_ite ..
    rw [show ({ m with nodeStateCache := m.nodeStateCache.erase id } : NodesManager).nodeStateCache.lookup = _ from hcache]
    exact hplus.deleteCache
  | rename id name dnsName =>
    obtain ⟨hfree, hs⟩ := Option.ite_none_right_eq_some.mp hs
    have hrename := h.rename ht hfree
    rw [Option.some.inj hs] at hrename
    exact hrename
  | renameNode id name dnsName =>
    obtain ⟨-, hs⟩ := Option.ite_none_right_eq_some.mp hs
    exact (h.renameNode ht hcareful hs).2
  | update id u =>
    obtain ⟨-, hs⟩ := Option.ite_none_right_eq_some.mp hs
    split at hs
    · cases hs
      exact h.done rfl (hplus.forgo (.of rfl))
    · exact h.call ht (.of rfl) (fun I hI => Node.update_keeps hI u)
        (fun _ => .inl rfl) hcareful hs
  | refreshCache id =>
    simp only [advance] at hs
    split at hs
    · rename_i n hn
      cases hs
      refine h.done rfl ?_
      have hcache : (m.nodeStateCache.insert id n.state).lookup =
          fun k => if k = id then some n.state else m.nodeStateCache.lookup k :=
        funext fun k => Table.lookup_insert_ite ..
      rw [show ({ m with nodeStateCache := m.nodeStateCache.insert id n.state } : NodesManager).nodeStateCache.lookup = _ from hcache]
      refine hplus.refreshCache ?_
      show (m.nodes.lookup id).map MaybeNode.state = some n.state
      rw [hn]
      rfl
    · cases hs

theorem orderly_step {e : Event} (h : m.Orderly) (hcareful : m.careful e) (hs : m.step e = some m') : m'.Orderly := by
  unfold step at hs
  cases e with
  | call t task =>
    obtain ⟨⟨hcall, hfree⟩, hs⟩ := Option.ite_none_right_eq_some.mp hs
    cases hs
    have hids : task.holdsIds = false := by cases task <;> first | rfl | cases hcall
    have hon : m.on = m.others t := by
      funext a
      refine propext ⟨fun ⟨t', ha⟩ => ⟨t', ?_, ha⟩, fun ⟨t', _, ha⟩ => ⟨t', ha⟩⟩
      rintro rfl
      rw [hfree] at ha
      cases ha
    obtain ⟨hearly, hclaims⟩ := Task.early_of_isCall hcall
    refine h.next (b := task) rfl (fun hheld => absurd (hids.symm.trans hheld) nofun) ?_
    refine Indexed.undertake (hon ▸ h.indexed) (Task.idle_of_isCall hcall) (fun id name hnew => ?_) fun ip hnew => ?_
    · exact (hearly id name hnew).elim
    · exact (hclaims ip hnew).elim
  | go t env =>
    unfold careful at hcareful
    dsimp only at hs hcareful
    split at hs
    · cases hs
    rename_i task ht
    rw [ht] at hcareful
    split at hs
    · cases hs
    rename_i outcome m₁ hadvance
    cases hs
    exact orderly_advance h ht hcareful hadvance

/-- With nothing under way the maps are what is claimed of them. -/
theorem Orderly.consistent (h : m.Orderly) (hidle : m.tasks = ∅) : m.Consistent := by
  have hnone : ∀ p, ¬ Has m.on p := by
    rintro p ⟨a, ⟨t, ha⟩, -⟩
    rw [hidle] at ha
    cases ha
  obtain ⟨-, -, -, -, -, -, hsingle, howner, hnamed, hstate, hhas, hnode, hips⟩ := h.indexed
  simp only [hnone, or_false, false_and, exists_false, false_or] at *
  have hentry : ∀ id st, m.stateOf id = some st → m.nodeIds.lookup st.name = some id := hnamed
  refine ⟨fun id => ⟨fun ⟨name, hname⟩ => howner id name hname, fun hid => ?_⟩, fun name id => ⟨fun hname => ?_, ?_⟩, fun id => ?_,
    fun id id' st st' hst hst' hsame => ?_, hips⟩
  · obtain ⟨st, hst⟩ := Option.ne_none_iff_exists'.mp hid
    exact ⟨st.name, hentry id st hst⟩
  · obtain ⟨st, hst⟩ := Option.ne_none_iff_exists'.mp (howner id name hname)
    exact ⟨st, hst, hsingle id _ _ (hentry id st hst) hname⟩
  · rintro ⟨st, hst, rfl⟩
    exact hentry id st hst
  · cases hid : m.stateOf id with
    | some st => exact hstate id st hid
    | none =>
      by_contra hC
      exact hnode id hC hid
  · have hname := hentry id st hst
    rw [hsame, hentry id' st' hst'] at hname
    exact (Option.some.inj hname).symm

theorem Consistent.orderly (h : m.Consistent) (hidle : m.tasks = ∅) : m.Orderly where
  indexed := by
    have hnone : ∀ p, ¬ Has m.on p := by
      rintro p ⟨a, ⟨t, ha⟩, -⟩
      rw [hidle] at ha
      cases ha
    have hindex := h.index
    have hcache := h.cache
    constructor
    case ips => exact h.ips
    all_goals grind
  single := by
    intro t t' a a' ha
    rw [hidle] at ha
    cases ha

theorem renameClean_of_careful {e : Event} (h : m.Orderly) (hcareful : m.careful e) : m.RenameClean e := by
  cases e with
  | call t task => trivial
  | go t env =>
    unfold careful at hcareful
    unfold RenameClean
    dsimp only at hcareful ⊢
    split
    · rename_i id name dnsName ht
      intro err m' hs
      obtain ⟨-, hs⟩ := Option.ite_none_right_eq_some.mp hs
      unfold renameId at hs
      split at hs
      · cases hs
        rfl
      split at hs
      · cases hs
        rfl
      · cases hs
    · rename_i id name dnsName ht
      rw [ht] at hcareful
      intro err m' hs
      obtain ⟨-, hs⟩ := Option.ite_none_right_eq_some.mp hs
      obtain ⟨⟨task, htask⟩, -⟩ := h.renameNode ht hcareful hs
      cases htask
    · trivial

end NodesManager

open NodesManager

/-- **The indexes stay consistent** in every run of careful steps, and a rename that fails in one changes
nothing. -/
theorem indexes_consistent {m : NodesManager} (hidle : m.tasks = ∅) (h : m.Consistent) {events : List Event}
    (hcareful : Along step (fun m e => m.careful e) m events) :
    (∀ m', run step m events = some m' → m'.tasks = ∅ → m'.Consistent) ∧ Along step RenameClean m events := by
  have hstep : ∀ m e m', Orderly m → m.careful e → step m e = some m' → Orderly m' := fun _ _ _ h hcareful hs =>
    orderly_step h hcareful hs
  constructor
  · intro m' hrun hidle'
    exact (run_invariant step hstep (h.orderly hidle) hcareful hrun).consistent hidle'
  · exact Along.of_invariant (I := Orderly) step (fun _ _ h hcareful => renameClean_of_careful h hcareful) hstep
      (h.orderly hidle) hcareful

def NodesManager.empty : NodesManager := ⟨∅, ∅, ∅, ∅⟩

theorem NodesManager.empty_consistent : empty.Consistent := by
  constructor
  case cache => exact fun _ => rfl
  all_goals simp [empty, stateOf]

/-- Nothing fails, and no resources are checked. -/
def TaskEnv.fine : TaskEnv := ⟨.ok (), .ok (), true, ⟨0, 0, none, fun _ => none⟩, default, [], default⟩

/-- The file cannot be written. -/
def TaskEnv.full : TaskEnv := { TaskEnv.fine with call.saves := [{ SaveEnv.clean with write := .error .nothing }] }

/-- A node is created, and then renamed. -/
def createAndRename (env : TaskEnv) : List Event :=
  .call 0 (.create { (default : NodeState) with id := "id", name := "old", ip := "10.0.0.1" }) :: List.replicate 7 (.go 0 .fine) ++
    [.call 1 (.rename "id" "new" "dns"), .go 1 .fine, .go 1 env]

theorem indexes_consistent_rename :
    (∀ m', run step NodesManager.empty (createAndRename .fine ++ [.go 1 .fine]) = some m' → m'.tasks = ∅ → m'.Consistent) ∧
      Along step RenameClean NodesManager.empty (createAndRename .fine ++ [.go 1 .fine]) :=
  indexes_consistent rfl empty_consistent (by decide +kernel)

/-- The state of the node cannot be saved, and its rename fails: the cache has the old name, and the other two
maps the new one. -/
theorem indexes_torn :
    ¬ ∀ (m : NodesManager) (events : List Event), m.tasks = ∅ → m.Consistent →
      (∀ m', run step m events = some m' → m'.tasks = ∅ → m'.Consistent) ∧ Along step RenameClean m events := by
  intro h
  have hconsistent := (h .empty (createAndRename .full) rfl empty_consistent).1
  have hend : (run step NodesManager.empty (createAndRename .full)).map
      (fun m => (m.tasks.entries.isEmpty, decide (m.nodeStateCache.lookup "id" = m.stateOf "id"))) = some (true, false) := by
    decide +kernel
  cases hrun : run step NodesManager.empty (createAndRename .full) with
  | none => simp [hrun] at hend
  | some m =>
    rw [hrun] at hend
    obtain ⟨htasks, hcache⟩ := Prod.mk.inj (Option.some.inj hend)
    exact of_decide_eq_false hcache ((hconsistent m hrun (AList.ext (List.isEmpty_iff.mp htasks))).cache "id")

end Blockvisor
