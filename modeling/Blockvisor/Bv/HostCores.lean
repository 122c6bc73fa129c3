/-
The nodes of a host and the registry of its cores, over daemons that come and
go. A daemon that starts has all cores free, goes through the nodes on disk,
and takes off the registry what the state on file of each lays claim to; from
then on the registry and the nodes change hands of cores, an operation at a
time.

What is on file of a node must not lag behind: a core that a node gave back
may be another's by the time a daemon reads the file (`FilesFit`). As long as
no file does, no core is free or a node's twice (`cores_exclusive`), and none is
lost, unless a rollback fails or a node is deleted in the middle of an upgrade.
-/
import Blockvisor.Bv.Cores

namespace Blockvisor

open Effect Machine Node

/-! ## Counting -/

section

variable {α : Type}

theorem count_flatMap_set (f : α → List Nat) (c : Nat) :
    ∀ {xs : List α} {i : Nat} {x : α} (y : α), xs[i]? = some x →
      ((xs.set i y).flatMap f).count c + (f x).count c = (xs.flatMap f).count c + (f y).count c
  | [], i, x, y, h => by simp at h
  | a :: xs, 0, x, y, h => by
    cases h
    simp only [List.set_cons_zero, List.flatMap_cons, List.count_append]
    omega
  | a :: xs, i + 1, x, y, h => by
    have hrest : ((xs.set i y).flatMap f).count c + (f x).count c = (xs.flatMap f).count c + (f y).count c :=
      count_flatMap_set f c y h
    simp only [List.set_cons_succ, List.flatMap_cons, List.count_append]
    omega

theorem count_flatMap_le {f g : α → List Nat} {c : Nat} :
    ∀ {xs : List α}, (∀ x ∈ xs, (f x).count c ≤ (g x).count c) → (xs.flatMap f).count c ≤ (xs.flatMap g).count c
  | [], _ => Nat.le_refl _
  | x :: xs, h => by
    have hhead := h x (List.mem_cons_self ..)
    have hrest := count_flatMap_le fun y hy => h y (List.mem_cons_of_mem _ hy)
    simp only [List.flatMap_cons, List.count_append]
    omega

/-- One item is replaced, and of the others less is counted. -/
theorem count_flatMap_set_le {f g : α → List Nat} {c : Nat} {xs : List α} {i : Nat} {x : α} (y : α) (hi : xs[i]? = some x)
    (h : ∀ x ∈ xs, (f x).count c ≤ (g x).count c) :
    ((xs.set i y).flatMap f).count c + (g x).count c ≤ (xs.flatMap g).count c + (f y).count c := by
  induction xs generalizing i with
  | nil => simp at hi
  | cons a xs ih =>
    have hhead := h a (List.mem_cons_self ..)
    have hrest : ∀ x ∈ xs, (f x).count c ≤ (g x).count c := fun z hz => h z (List.mem_cons_of_mem _ hz)
    cases i with
    | zero =>
      cases hi
      have hle := count_flatMap_le hrest
      simp only [List.set_cons_zero, List.flatMap_cons, List.count_append]
      omega
    | succ i =>
      have hle := ih (i := i) hi hrest
      simp only [List.set_cons_succ, List.flatMap_cons, List.count_append]
      omega

end

/-! ## The host -/

/-- `MaybeNode`, if the daemon has the node at all. -/
inductive HostEntry where
  | absent
  | node
  | broken
  deriving DecidableEq

/-- A node on the disk of the host, and what the daemon has of it. -/
structure HostNode where
  entry : HostEntry
  node : Node

structure Host where
  availableCpus : Nat
  running : Bool
  registry : CpuRegistry
  nodes : List HostNode

/-- What is done with the node of an index, or with the daemon. -/
inductive HostAct where
  | create (i : Nat) (desired : NodeState) (env : CallEnv)
  | op (i : Nat) (op : NodeOp) (env : CallEnv)
  | delete (i : Nat) (env : CallEnv)
  | crash
  | load (envs : List CallEnv)

def isKilled {ε α : Type} : Except (Exit ε) α → Bool
  | .error .killed => true
  | _ => false

namespace HostNode

/-- The cores that are the node's, for the daemon. -/
def claims (x : HostNode) : List Nat := if x.entry = .absent then [] else x.node.state.claims

/-- Those that would be the node's for a daemon that starts. -/
def filed (x : HostNode) : List Nat :=
  match x.node.file.file.load with
  | some st => st.claims
  | none => []

/-- The states that can be loaded of the node's file and of its backup. -/
def loadable (x : HostNode) : List NodeState := x.node.file.file.load.toList ++ x.node.file.backup.load.toList

/-- What is on file of the node lays claim to no core that is not the node's. -/
def Fits (x : HostNode) : Prop :=
  if x.entry = .absent then x.filed = [] else ∀ st ∈ x.loadable, st.claims.Subperm x.node.state.claims

end HostNode

namespace Host

/-- A host on which no daemon ran yet. -/
def new (availableCpus : Nat) (sites : List Site) : Host where
  availableCpus := availableCpus
  running := false
  registry := []
  nodes := sites.map fun site => ⟨.absent, (NodeLife.new site []).node⟩

def claims (h : Host) : List Nat := h.nodes.flatMap (·.claims)

def filed (h : Host) : List Nat := h.nodes.flatMap (·.filed)

/-- The daemon is gone, and what it had in memory with it. -/
def stopped (h : Host) : Host := { h with running := false, nodes := h.nodes.map fun x => { x with entry := .absent } }

/-- The node as an operation finds it: with the registry that the nodes share. -/
def enter (h : Host) (x : HostNode) (env : CallEnv) : Node := { x.node.inEnv env with registry := h.registry }

/-- The node as an operation leaves it. -/
def leave (h : Host) (i : Nat) (n : Node) (entry : HostEntry) (killed : Bool) : Host :=
  let h := { h with registry := n.registry, nodes := h.nodes.set i ⟨entry, n⟩ }
  if killed then h.stopped else h

/-- Whether the daemon still runs, the registry, and the nodes. -/
abbrev Loaded := Bool × CpuRegistry × List HostNode

def Loaded.before (x : HostNode) (r : Loaded) : Loaded := (r.1, r.2.1, x :: r.2.2)

/-- `NodesManager::load_nodes`: a node that cannot be attached to is broken. The rest is left when the
daemon dies. -/
def loadNodes (registry : CpuRegistry) : List HostNode → List CallEnv → Loaded
  | [], _ => (true, registry, [])
  | x :: xs, envs =>
    match x.node.file.file.load with
    | none => (loadNodes registry xs envs).before { x with entry := .absent }
    | some st =>
      let r := NodeLife.attachNode st registry (x.node.inEnv (envs.headD default))
      if isKilled r.1 then (false, r.2.registry, ⟨.absent, r.2⟩ :: xs)
      else (loadNodes r.2.registry xs envs.tail).before ⟨if isOk r.1 then .node else .broken, r.2⟩

def load (h : Host) (envs : List CallEnv) : Host :=
  let r := loadNodes (CpuRegistry.new h.availableCpus) h.nodes envs
  let h := { h with running := r.1, registry := r.2.1, nodes := r.2.2 }
  if r.1 then h else h.stopped

def step (h : Host) : HostAct → Option Host
  | .create i desired env =>
    match h.running, h.nodes[i]? with
    | true, some x =>
      if x.entry = .absent then
        let (res, n) := NodeLife.createNode desired (h.enter x env)
        some (h.leave i n (if isOk res then .node else .absent) (isKilled res))
      else none
    | _, _ => none
  | .op i op env =>
    match h.running, h.nodes[i]? with
    | true, some x =>
      if x.entry = .node then
        let (res, n) := op.run (h.enter x env)
        some (h.leave i n .node (isKilled res))
      else none
    | _, _ => none
  | .delete i env =>
    match h.running, h.nodes[i]? with
    | true, some x =>
      if x.entry = .node then
        let (res, n) := Node.delete (h.enter x env)
        some (h.leave i n (if isOk res then .absent else .node) (isKilled res))
      else none
    | _, _ => none
  | .crash => some h.stopped
  | .load envs => if h.running then none else some (h.load envs)

/-! ## What can go wrong -/

/-- No file lays claim to a core that its node has not, or gave back. -/
def FilesFit (h : Host) : Prop := h.running = true → ∀ x ∈ h.nodes, x.Fits

/-- A node is created where nothing is on file, and no operation leaves a file that does not fit. -/
def Fitting (h : Host) (a : HostAct) : Prop :=
  (match a with
    | .create i _ _ => ∀ x ∈ h.nodes[i]?, ∀ st ∈ x.loadable, st.claims = []
    | _ => True) ∧
  ∀ h' ∈ h.step a, h'.FilesFit

/-- No upgrade is given up, and no node deleted whose upgrade keeps cores. -/
def KeepsTrack (h : Host) : HostAct → Prop
  | .op i op env => ∀ x ∈ h.nodes[i]?, op.Upgrades → ¬ GivenUp (op.run (h.enter x env)).2.state
  | .delete i env => ∀ x ∈ h.nodes[i]?, isOk (Node.delete (h.enter x env)).1 = true →
      heldCpus (Node.delete (h.enter x env)).2.state = []
  | _ => True

/-! ## The invariant -/

/-- Nothing is free or a node's twice; if `exact`, nothing is lost. Without a daemon this is about the files. -/
structure Sound (exact : Prop) (h : Host) : Prop where
  logged : ∀ x ∈ h.nodes, x.node.file.Holds NodeState.Logs
  known : ∀ x ∈ h.nodes, x.entry ≠ .absent → x.node.state.Logs
  fit : h.FilesFit
  cores : h.running = true → ∀ c, (h.registry ++ h.claims).count c ≤ (CpuRegistry.new h.availableCpus).count c
  all : exact → h.running = true → ∀ c, (h.registry ++ h.claims).count c = (CpuRegistry.new h.availableCpus).count c
  stopped : h.running = false → ∀ c, h.filed.count c ≤ (CpuRegistry.new h.availableCpus).count c

end Host

namespace HostNode

theorem mem_loadable {x : HostNode} {st : NodeState} :
    st ∈ x.loadable ↔ x.node.file.file = .whole st ∨ x.node.file.backup = .whole st := by
  unfold loadable
  rw [List.mem_append, Option.mem_toList, Option.mem_toList, Doc.load_eq_some, Doc.load_eq_some]

theorem filed_of_whole {x : HostNode} {st : NodeState} (h : x.node.file.file = .whole st) : x.filed = st.claims := by
  unfold filed
  rw [Doc.load_eq_some.mpr h]

/-- What is on file of a node that fits. -/
theorem Fits.filed_le {x : HostNode} (h : x.Fits) (c : Nat) : x.filed.count c ≤ x.claims.count c := by
  unfold Fits at h
  unfold claims
  split at h
  · rename_i habsent
    rw [h, if_pos habsent]
  · rename_i hentry
    rw [if_neg hentry]
    unfold filed
    cases hload : x.node.file.file.load with
    | none => exact Nat.zero_le _
    | some st => exact (h st (mem_loadable.mpr (.inl (Doc.load_eq_some.mp hload)))).count_le c

/-- The file of a node may lay claim to cores of the pool only. -/
theorem filed_le {x : HostNode} {pool : Nat → Nat} (h : x.node.Known pool) (c : Nat) : x.filed.count c ≤ pool c := by
  unfold filed
  cases hload : x.node.file.file.load with
  | none => exact Nat.zero_le _
  | some st => exact (h.file st (Doc.load_eq_some.mp hload)).2 c

theorem known {x : HostNode} {pool : Nat → Nat} (hlogged : x.node.file.Holds NodeState.Logs)
    (hpool : ∀ st ∈ x.loadable, ∀ c, st.claims.count c ≤ pool c) : x.node.Known pool where
  file := fun st hst => ⟨hlogged.file st hst, hpool st (mem_loadable.mpr (.inl hst))⟩
  backup := fun st hst => ⟨hlogged.backup st hst, hpool st (mem_loadable.mpr (.inr hst))⟩

end HostNode

namespace Host

variable {exact : Prop} {h : Host}

theorem count_claims (h : Host) (c : Nat) : (h.registry ++ h.claims).count c = h.registry.count c + h.claims.count c :=
  List.count_append

/-- When the daemon goes, the files are what is left. -/
theorem stopped_sound (hlogged : ∀ x ∈ h.nodes, x.node.file.Holds NodeState.Logs)
    (hfiled : ∀ c, h.filed.count c ≤ (CpuRegistry.new h.availableCpus).count c) : h.stopped.Sound exact where
  logged := fun x hx => by
    obtain ⟨y, hy, rfl⟩ := List.mem_map.mp hx
    exact hlogged y hy
  known := fun x hx hentry => by
    obtain ⟨y, -, rfl⟩ := List.mem_map.mp hx
    exact absurd rfl hentry
  fit := fun hrunning => by cases hrunning
  cores := fun hrunning => by cases hrunning
  all := fun _ hrunning => by cases hrunning
  stopped := fun _ c => by
    have hsame : h.stopped.filed = h.filed := by
      unfold Host.filed Host.stopped
      rw [List.flatMap_map]
      rfl
    rw [hsame]
    exact hfiled c

theorem Sound.filed (hs : h.Sound exact) (c : Nat) : h.filed.count c ≤ (CpuRegistry.new h.availableCpus).count c := by
  cases hrunning : h.running with
  | false => exact hs.stopped hrunning c
  | true =>
    have hle : h.filed.count c ≤ h.claims.count c := count_flatMap_le fun x hx => (hs.fit hrunning x hx).filed_le c
    have hcores := hs.cores hrunning c
    rw [count_claims] at hcores
    exact hle.trans ((Nat.le_add_left ..).trans hcores)

/-- The cores that an operation on the node has to do with. -/
def pool (h : Host) (x : HostNode) (c : Nat) : Nat := h.registry.count c + x.claims.count c

theorem enter_accounts (hs : h.Sound exact) (hrunning : h.running = true) {x : HostNode} (hx : x ∈ h.nodes)
    (hentry : x.entry = .node) (env : CallEnv) : (h.enter x env).Accounts (h.pool x) := by
  have hne : x.entry ≠ .absent := by
    rw [hentry]
    exact nofun
  have hclaims : x.claims = x.node.state.claims := if_neg hne
  have hfits := hs.fit hrunning x hx
  unfold HostNode.Fits at hfits
  rw [if_neg hne] at hfits
  have hknown : x.node.Known (h.pool x) := HostNode.known (hs.logged x hx) fun st hst c => by
    have hle := (hfits st hst).count_le c
    unfold pool
    rw [hclaims]
    omega
  exact ⟨fun c => by unfold pool; rw [hclaims]; rfl, hs.known x hx hne, hknown⟩

theorem enter_vacant (hs : h.Sound exact) {x : HostNode} (hx : x ∈ h.nodes) (hunused : ∀ st ∈ x.loadable, st.claims = [])
    (hentry : x.entry = .absent) (env : CallEnv) : (h.enter x env).Vacant (h.pool x) := by
  have hclaims : x.claims = [] := if_pos hentry
  have hknown : x.node.Known (h.pool x) := HostNode.known (hs.logged x hx) fun st hst c => by
    rw [hunused st hst]
    exact Nat.zero_le _
  exact ⟨fun c => by unfold pool; rw [hclaims]; rfl, hknown⟩

theorem known_logged {n : Node} {pool : Nat → Nat} (hn : n.Known pool) : n.file.Holds NodeState.Logs :=
  ⟨fun st hst => (hn.file st hst).1, fun st hst => (hn.backup st hst).1⟩

/-- The daemon died in an operation on the node. -/
theorem Sound.leave_killed (hs : h.Sound exact) (hrunning : h.running = true) {i : Nat} {x : HostNode} (hi : h.nodes[i]? = some x)
    {n : Node} (hn : n.Known (h.pool x)) (entry : HostEntry) : (h.leave i n entry true).Sound exact := by
  refine stopped_sound (h := { h with registry := n.registry, nodes := h.nodes.set i ⟨entry, n⟩ }) (fun y hy => ?_) fun c => ?_
  · rcases List.mem_or_eq_of_mem_set hy with hold | rfl
    · exact hs.logged y hold
    · exact known_logged hn
  · have hset : ((h.nodes.set i ⟨entry, n⟩).flatMap (·.filed)).count c + x.claims.count c ≤
        h.claims.count c + (HostNode.filed ⟨entry, n⟩).count c :=
      count_flatMap_set_le _ hi fun y hy => (hs.fit hrunning y hy).filed_le c
    have hcores := hs.cores hrunning c
    have hnew := HostNode.filed_le (x := ⟨entry, n⟩) hn c
    rw [count_claims] at hcores
    unfold pool at hnew
    show ((h.nodes.set i ⟨entry, n⟩).flatMap (·.filed)).count c ≤ (CpuRegistry.new h.availableCpus).count c
    omega

/-- An operation on the node has ended, and left the pool as it was, or less of it. -/
theorem Sound.leave (hs : h.Sound exact) (hrunning : h.running = true) {i : Nat} {x : HostNode} (hi : h.nodes[i]? = some x)
    {n : Node} {entry : HostEntry} (hlogged : n.file.Holds NodeState.Logs) (hlogs : entry ≠ .absent → n.state.Logs)
    (hcores : ∀ c, n.registry.count c + (HostNode.claims ⟨entry, n⟩).count c ≤ h.pool x c)
    (hall : exact → ∀ c, n.registry.count c + (HostNode.claims ⟨entry, n⟩).count c = h.pool x c)
    (hfit : (h.leave i n entry false).FilesFit) : (h.leave i n entry false).Sound exact where
  logged := fun y hy => by
    rcases List.mem_or_eq_of_mem_set hy with hold | rfl
    · exact hs.logged y hold
    · exact hlogged
  known := fun y hy hentry => by
    rcases List.mem_or_eq_of_mem_set hy with hold | rfl
    · exact hs.known y hold hentry
    · exact hlogs hentry
  fit := hfit
  cores := fun _ c => by
    have hset := count_flatMap_set (·.claims) c ⟨entry, n⟩ hi
    have hbefore := hs.cores hrunning c
    have hnode := hcores c
    rw [count_claims] at hbefore ⊢
    unfold pool at hnode
    unfold Host.claims at hbefore
    show n.registry.count c + ((h.nodes.set i ⟨entry, n⟩).flatMap (·.claims)).count c ≤ (CpuRegistry.new h.availableCpus).count c
    omega
  all := fun hexact _ c => by
    have hset := count_flatMap_set (·.claims) c ⟨entry, n⟩ hi
    have hbefore := hs.all hexact hrunning c
    have hnode := hall hexact c
    rw [count_claims] at hbefore ⊢
    unfold pool at hnode
    unfold Host.claims at hbefore
    show n.registry.count c + ((h.nodes.set i ⟨entry, n⟩).flatMap (·.claims)).count c = (CpuRegistry.new h.availableCpus).count c
    omega
  stopped := fun hrun => by
    rw [show (h.leave i n entry false).running = h.running from rfl, hrunning] at hrun
    cases hrun

/-! ## Starting -/

/-- Cores that are there once, and are taken off the registry. -/
theorem markAcquired_count {registry : CpuRegistry} (hnodup : registry.Nodup) {st : NodeState} {c : Nat}
    (hle : st.claims.count c ≤ registry.count c) :
    ((registry.markAcquired st.assignedCpus).markAcquired (heldCpus st)).count c + st.claims.count c = registry.count c := by
  have hone := List.nodup_iff_count_le_one.mp hnodup c
  by_cases hmem : c ∈ st.claims
  · have hpos := List.count_pos_iff.mpr hmem
    have hgone : c ∉ (registry.markAcquired st.assignedCpus).markAcquired (heldCpus st) := by
      unfold NodeState.claims at hmem
      rw [List.mem_append] at hmem
      simp only [CpuRegistry.markAcquired, List.mem_filter, decide_not, Bool.not_eq_true', decide_eq_false_iff_not]
      tauto
    rw [List.count_eq_zero_of_not_mem hgone]
    omega
  · have hnot := hmem
    unfold NodeState.claims at hnot
    rw [List.mem_append, not_or] at hnot
    unfold CpuRegistry.markAcquired
    rw [List.count_eq_zero_of_not_mem hmem, List.count_filter (by simpa using hnot.2), List.count_filter (by simpa using hnot.1)]
    rfl

/-- What a daemon that starts finds in its way through the nodes. -/
structure LoadedFrom (nodes : List HostNode) (registry : CpuRegistry) (r : Loaded) : Prop where
  files : r.2.2.map (·.node.file) = nodes.map (·.node.file)
  cores : r.1 = true → ∀ c, r.2.1.count c + (r.2.2.flatMap (·.claims)).count c = registry.count c
  known : ∀ x ∈ r.2.2, r.1 = true → x.entry ≠ .absent → x.node.state.Logs

/-- A node is attached to with the cores on file taken off the registry. -/
theorem attachNode_takes (st : NodeState) (registry : CpuRegistry) (n : Node) :
    (NodeLife.attachNode st registry n).2.state = st ∧ (NodeLife.attachNode st registry n).2.file = n.file ∧
      (NodeLife.attachNode st registry n).2.registry = (registry.markAcquired st.assignedCpus).markAcquired (heldCpus st) := by
  have htaken := attach_takes { n with state := st, registry }
  exact ⟨htaken.state, htaken.file, htaken.registry⟩

/-- A node before others, with the cores `claims` taken off the registry. -/
theorem LoadedFrom.before {x y : HostNode} {xs : List HostNode} {registry free : CpuRegistry} {r : Loaded} (h : LoadedFrom xs free r)
    (hfile : y.node.file = x.node.file) (hcores : ∀ c, free.count c + y.claims.count c = registry.count c)
    (hlogs : y.entry ≠ .absent → y.node.state.Logs) : LoadedFrom (x :: xs) registry (r.before y) where
  files := congrArg₂ List.cons hfile h.files
  cores := fun hrunning c => by
    have hothers := h.cores hrunning c
    have hnode := hcores c
    show r.2.1.count c + ((y :: r.2.2).flatMap (·.claims)).count c = registry.count c
    rw [List.flatMap_cons, List.count_append]
    omega
  known := fun z hz hrunning hentry => by
    rcases List.mem_cons.mp hz with rfl | hz
    · exact hlogs hentry
    · exact h.known z hz hrunning hentry

theorem loadNodes_spec :
    ∀ {nodes : List HostNode} {registry : CpuRegistry} (envs : List CallEnv), registry.Nodup →
      (∀ c, (nodes.flatMap (·.filed)).count c ≤ registry.count c) → (∀ x ∈ nodes, x.node.file.Holds NodeState.Logs) →
      LoadedFrom nodes registry (loadNodes registry nodes envs)
  | [], registry, envs, _, _, _ => ⟨rfl, fun _ _ => Nat.add_zero _, fun x hx => by cases hx⟩
  | x :: xs, registry, envs, hnodup, hfiled, hlogged => by
    have hlogs : ∀ y ∈ xs, y.node.file.Holds NodeState.Logs := fun y hy => hlogged y (List.mem_cons_of_mem _ hy)
    have hall : ∀ c, x.filed.count c + (xs.flatMap (·.filed)).count c ≤ registry.count c := fun c => by
      have hcons := hfiled c
      rw [List.flatMap_cons, List.count_append] at hcons
      exact hcons
    unfold loadNodes
    cases hload : x.node.file.file.load with
    | none =>
      have hrest := loadNodes_spec envs hnodup (fun c => (Nat.le_add_left ..).trans (hall c)) hlogs
      refine hrest.before rfl (fun c => ?_) fun hentry => absurd rfl hentry
      rw [show HostNode.claims { x with entry := .absent } = [] from if_pos rfl]
      rfl
    | some st =>
      have hst : x.filed = st.claims := HostNode.filed_of_whole (Doc.load_eq_some.mp hload)
      obtain ⟨hstate, hfile, hregistry⟩ := attachNode_takes st registry (x.node.inEnv (envs.headD default))
      dsimp only
      generalize NodeLife.attachNode st registry (x.node.inEnv (envs.headD default)) = r at hstate hfile hregistry ⊢
      have hcount : ∀ c, r.2.registry.count c + st.claims.count c = registry.count c := fun c => by
        have hcons := hall c
        rw [hst] at hcons
        rw [hregistry]
        exact markAcquired_count hnodup (by omega)
      split
      · have hfiles : (HostNode.mk .absent r.2 :: xs).map (·.node.file) = (x :: xs).map (·.node.file) := by
          rw [List.map_cons, List.map_cons, hfile]
          rfl
        exact ⟨hfiles, fun hfalse => (by cases hfalse), fun _ _ hfalse => (by cases hfalse)⟩
      · have hfree : r.2.registry.Nodup := by
          rw [hregistry]
          exact (hnodup.filter _).filter _
        have hrest := loadNodes_spec envs.tail hfree (fun c => by
          have hcons := hall c
          have hnode := hcount c
          rw [hst] at hcons
          omega) hlogs
        have hclaims : HostNode.claims ⟨if isOk r.1 then .node else .broken, r.2⟩ = st.claims := by
          rw [← hstate]
          exact if_neg (by cases isOk r.1 <;> simp)
        refine hrest.before hfile (fun c => ?_) fun _ => ?_
        · rw [hclaims]
          exact hcount c
        · show r.2.state.Logs
          rw [hstate]
          exact (hlogged x (List.mem_cons_self ..)).file st (Doc.load_eq_some.mp hload)

/-- Nodes with the same files lay claim to the same cores when a daemon starts. -/
theorem filed_congr {xs ys : List HostNode} (h : xs.map (·.node.file) = ys.map (·.node.file)) :
    xs.flatMap (·.filed) = ys.flatMap (·.filed) := by
  have hmap : ∀ xs : List HostNode, xs.flatMap (·.filed) = (xs.map (·.node.file)).flatMap fun file =>
      match file.file.load with
      | some st => st.claims
      | none => [] := fun xs => by
    rw [List.flatMap_map]
    rfl
  rw [hmap, hmap, h]

/-- Nodes with the same files have the same on file. -/
theorem logged_congr {xs ys : List HostNode} (h : xs.map (·.node.file) = ys.map (·.node.file))
    (hlogged : ∀ y ∈ ys, y.node.file.Holds NodeState.Logs) : ∀ x ∈ xs, x.node.file.Holds NodeState.Logs := by
  intro x hx
  have hmem := List.mem_map_of_mem (f := fun y : HostNode => y.node.file) hx
  rw [h] at hmem
  obtain ⟨y, hy, hfile⟩ := List.mem_map.mp hmem
  rw [← hfile]
  exact hlogged y hy

theorem Sound.load (hs : h.Sound exact) (hrunning : h.running = false) (envs : List CallEnv) (hfit : (h.load envs).FilesFit) :
    (h.load envs).Sound exact := by
  have hspec := loadNodes_spec envs (List.nodup_range (n := h.availableCpus)) (hs.stopped hrunning) hs.logged
  have hlogged := logged_congr hspec.files hs.logged
  have hfiled := filed_congr hspec.files
  unfold Host.load at hfit ⊢
  dsimp only at hfit ⊢
  unfold CpuRegistry.new at hfit ⊢
  generalize loadNodes (List.range h.availableCpus) h.nodes envs = r at hspec hlogged hfiled hfit ⊢
  split at hfit
  · rename_i hrun
    rw [if_pos hrun]
    refine ⟨hlogged, fun x hx hentry => hspec.known x hx hrun hentry, hfit, fun _ c => ?_, fun _ _ c => ?_, fun hfalse => ?_⟩
    · rw [count_claims]
      exact Nat.le_of_eq (hspec.cores hrun c)
    · rw [count_claims]
      exact hspec.cores hrun c
    · rw [show r.1 = false from hfalse] at hrun
      cases hrun
  · rename_i hrun
    rw [if_neg hrun]
    refine stopped_sound (h := { h with running := r.1, registry := r.2.1, nodes := r.2.2 }) hlogged fun c => ?_
    show (r.2.2.flatMap (·.filed)).count c ≤ (List.range h.availableCpus).count c
    rw [hfiled]
    exact hs.stopped hrunning c

/-! ## Steps -/

/-- An operation on a node that the daemon has. -/
theorem sound_op (hs : h.Sound exact) (hrunning : h.running = true) {i : Nat} {x : HostNode} (hi : h.nodes[i]? = some x)
    (hentry : x.entry = .node) (op : NodeOp) (env : CallEnv) (htrack : exact → h.KeepsTrack (.op i op env))
    (hfit : (h.leave i (op.run (h.enter x env)).2 .node (isKilled (op.run (h.enter x env)).1)).FilesFit) :
    (h.leave i (op.run (h.enter x env)).2 .node (isKilled (op.run (h.enter x env)).1)).Sound exact := by
  have hrun := op_accounts op (h.enter x env) (enter_accounts hs hrunning (List.mem_of_getElem? hi) hentry env)
  have hgiven : exact → op.Upgrades → ¬ GivenUp (op.run (h.enter x env)).2.state := fun he => htrack he x hi
  generalize op.run (h.enter x env) = r at hrun hgiven hfit ⊢
  obtain ⟨res, n⟩ := r
  have hends : ∀ {n : Node}, n.Accounts (h.pool x) → (h.leave i n .node false).FilesFit → (h.leave i n .node false).Sound exact :=
    fun hn hfit => hs.leave hrunning hi (known_logged hn.known)
      (fun _ => hn.logs) (fun c => Nat.le_of_eq (hn.cores c)) (fun _ => hn.cores) hfit
  match res with
  | .ok _ => exact hends hrun hfit
  | .error .killed => exact hs.leave_killed hrunning hi hrun .node
  | .error (.error e) =>
    rcases hrun with hn | ⟨hn, hupgrades, hup⟩
    · exact hends hn hfit
    · exact hs.leave hrunning hi (known_logged hn.known)
        (fun _ => hn.logs) hn.cores (fun he => (hgiven he hupgrades hup).elim) hfit

/-- A node created where nothing is on file. -/
theorem sound_create (hs : h.Sound exact) (hrunning : h.running = true) {i : Nat} {x : HostNode} (hi : h.nodes[i]? = some x)
    (hentry : x.entry = .absent) (hunused : ∀ st ∈ x.loadable, st.claims = []) (desired : NodeState) (env : CallEnv) {h' : Host}
    (hleave : h' = h.leave i (NodeLife.createNode desired (h.enter x env)).2
      (if isOk (NodeLife.createNode desired (h.enter x env)).1 then .node else .absent)
      (isKilled (NodeLife.createNode desired (h.enter x env)).1)) (hfit : h'.FilesFit) : h'.Sound exact := by
  have hrun : Triple (Vacant (h.pool x)) (NodeLife.createNode desired) (fun _ => Accounts (h.pool x))
      (atExit (Vacant (h.pool x)) (Known (h.pool x))) := by
    refine Triple.bind (R := fun _ => Vacant (h.pool x)) ?_ fun revision => create_accounts rfl
    exact Keeps.zoom (R := fun _ _ => True) (fun _ => trivial) (fun n s _ hn => ⟨hn.cores, hn.known⟩) fun _ hn => hn.known
  have hend := hrun (h.enter x env) (enter_vacant hs (List.mem_of_getElem? hi) hunused hentry env)
  generalize NodeLife.createNode desired (h.enter x env) = r at hend hleave
  obtain ⟨res, n⟩ := r
  subst hleave
  match res with
  | .ok _ =>
    exact hs.leave hrunning hi (known_logged hend.known) (fun _ => hend.logs) (fun c => Nat.le_of_eq (hend.cores c))
      (fun _ => hend.cores) hfit
  | .error .killed => exact hs.leave_killed hrunning hi hend .absent
  | .error (.error e) =>
    exact hs.leave hrunning hi (known_logged hend.known) (fun hne => absurd rfl hne) (fun c => Nat.le_of_eq (hend.cores c))
      (fun _ => hend.cores) hfit

/-- A node that is deleted, as far as the deletion gets. -/
theorem sound_delete (hs : h.Sound exact) (hrunning : h.running = true) {i : Nat} {x : HostNode} (hi : h.nodes[i]? = some x)
    (hentry : x.entry = .node) (env : CallEnv) (htrack : exact → h.KeepsTrack (.delete i env)) {h' : Host}
    (hleave : h' = h.leave i (Node.delete (h.enter x env)).2 (if isOk (Node.delete (h.enter x env)).1 then .absent else .node)
      (isKilled (Node.delete (h.enter x env)).1)) (hfit : h'.FilesFit) : h'.Sound exact := by
  have hend := delete_accounts (h.enter x env) (enter_accounts hs hrunning (List.mem_of_getElem? hi) hentry env)
  have hheld : exact → isOk (Node.delete (h.enter x env)).1 = true → heldCpus (Node.delete (h.enter x env)).2.state = [] :=
    fun he => htrack he x hi
  generalize Node.delete (h.enter x env) = r at hend hheld hleave
  obtain ⟨res, n⟩ := r
  subst hleave
  match res with
  | .ok _ =>
    refine hs.leave hrunning hi (known_logged hend.1.known) (fun hne => absurd rfl hne) (fun c => ?_) (fun he c => ?_) hfit
    · have hcores := hend.1.cores c
      show n.registry.count c + 0 ≤ h.pool x c
      omega
    · have hcores := hend.1.cores c
      unfold NodeState.claims at hcores
      rw [hend.2, hheld he rfl] at hcores
      exact hcores
  | .error .killed => exact hs.leave_killed hrunning hi hend .node
  | .error (.error e) =>
    exact hs.leave hrunning hi (known_logged hend.known) (fun _ => hend.logs) (fun c => Nat.le_of_eq (hend.cores c))
      (fun _ => hend.cores) hfit

theorem sound_step {h' : Host} {a : HostAct} (hs : h.Sound exact) (hfitting : h.Fitting a) (htrack : exact → h.KeepsTrack a)
    (hstep : h.step a = some h') : h'.Sound exact := by
  have hfit : h'.FilesFit := hfitting.2 h' hstep
  cases a with
  | create i desired env =>
    simp only [Host.step] at hstep
    split at hstep
    · rename_i x hrunning hi
      split at hstep
      · rename_i hentry
        exact sound_create hs hrunning hi hentry (hfitting.1 x hi) desired env (Option.some.inj hstep).symm hfit
      · cases hstep
    · cases hstep
  | op i op env =>
    simp only [Host.step] at hstep
    split at hstep
    · rename_i x hrunning hi
      split at hstep
      · rename_i hentry
        cases hstep
        exact sound_op hs hrunning hi hentry op env htrack hfit
      · cases hstep
    · cases hstep
  | delete i env =>
    simp only [Host.step] at hstep
    split at hstep
    · rename_i x hrunning hi
      split at hstep
      · rename_i hentry
        exact sound_delete hs hrunning hi hentry env htrack (Option.some.inj hstep).symm hfit
      · cases hstep
    · cases hstep
  | crash =>
    cases hstep
    exact stopped_sound hs.logged hs.filed
  | load envs =>
    simp only [Host.step] at hstep
    split at hstep
    · cases hstep
    · rename_i hrunning
      cases hstep
      exact hs.load (by simpa using hrunning) envs hfit

theorem new_sound (availableCpus : Nat) (sites : List Site) (exact : Prop) : (new availableCpus sites).Sound exact := by
  have hnew : ∀ x ∈ (new availableCpus sites).nodes, x.entry = .absent ∧ x.node.file = ⟨.missing, .missing⟩ := by
    intro x hx
    obtain ⟨site, -, rfl⟩ := List.mem_map.mp hx
    exact ⟨rfl, rfl⟩
  refine ⟨fun x hx => ?_, fun x hx hentry => absurd (hnew x hx).1 hentry, fun hfalse => ?_, fun hfalse => ?_, fun _ hfalse => ?_, fun _ c => ?_⟩
  · rw [(hnew x hx).2]
    exact ⟨fun st hst => (by cases hst), fun st hst => (by cases hst)⟩
  · cases hfalse
  · cases hfalse
  · cases hfalse
  · have hfiled : (new availableCpus sites).filed = [] := by
      refine List.flatMap_eq_nil_iff.mpr fun x hx => ?_
      unfold HostNode.filed
      rw [(hnew x hx).2]
      rfl
    rw [hfiled]
    exact Nat.zero_le _

end Host

open Host

def withCores (id : String) (vcpuCount : Nat) : NodeState :=
  { (default : NodeState) with
    image := { (default : NodeImage) with id }
    vmConfig := { (default : NodeState).vmConfig with vcpuCount } }

def upgradeTo (i : Nat) (desired : NodeState) (faults : List (Fault Cut)) : HostAct :=
  .op i (.call (.upgrade desired (.ok ()) (.ok ()))) ⟨faults, [], []⟩

/-- The daemon dies in an upgrade that gives up a core, and the next one finishes it. The core goes to a third node. -/
def sharedHost : List HostAct :=
  [.load [], .create 0 (withCores "old" 2) default, .create 1 (withCores "old" 1) default,
    upgradeTo 0 (withCores "new" 1) (List.replicate 10 .none ++ [.killed .nothing]), .load [],
    upgradeTo 0 (withCores "newer" 1) [], .create 2 (withCores "old" 1) default]

instance (x : HostNode) : Decidable x.Fits := by
  unfold HostNode.Fits
  infer_instance

instance (h : Host) : Decidable h.FilesFit := by
  unfold FilesFit
  infer_instance

instance (h : Host) : ∀ a, Decidable (h.Fitting a)
  | .create .. | .op .. | .delete .. | .crash | .load _ => by
    unfold Fitting
    infer_instance

instance : ∀ op : NodeOp, Decidable op.Upgrades
  | .call (.upgrade ..) => .isTrue trivial
  | .call (.start _) | .call (.stop _) | .call (.restart _) | .call .recover | .update _ | .rename .. => .isFalse id

instance (st : NodeState) : Decidable (GivenUp st) :=
  decidable_of_iff (st.upgradeState.active = false ∧ st.expectedStatus = .failed)
    ⟨fun h => ⟨h.1, h.2⟩, fun h => ⟨h.active, h.failed⟩⟩

instance (h : Host) : ∀ a, Decidable (h.KeepsTrack a)
  | .create .. | .op .. | .delete .. | .crash | .load _ => by
    unfold KeepsTrack
    infer_instance

end Blockvisor
