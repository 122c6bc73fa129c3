/-
The life of a node on a host: it is created, and what the daemon is asked to
do with it follows. The daemon may be killed at any time. Started again, it
attaches to the node whose state it finds on file.
-/
import Blockvisor.Lib.Machine
import Blockvisor.Bv.NodesManager
import Blockvisor.Bv.NodeFacts

namespace Blockvisor

open Effect

/-- A node described to be created: it has not run yet. -/
def NodeState.toCreate (st : NodeState) : NodeState :=
  { st with
    assignedCpus := []
    expectedStatus := .stopped
    initialized := false
    restarting := false
    upgradeState := default }

/-- What is done with a node under its lock. The check of an update's firewall rules is left out: it
changes nothing. -/
inductive NodeOp where
  | call (call : NodeCall)
  | update (u : ConfigUpdate)
  | rename (newName newDnsName : String)

def NodeOp.run : NodeOp → NodeC Unit
  | .call c => c.run
  | .update u => Node.update u
  | .rename newName newDnsName => NodesManager.renameNode newName newDnsName

/-- `free` is what is left of the cores when the daemon comes to the node. -/
inductive LifeAct where
  | create (desired : NodeState)
  | op (op : NodeOp)
  | delete
  | crash
  | attach (free : CpuRegistry)

/-- What there is of a node, and whether the daemon runs and has it. -/
structure NodeLife where
  node : Node
  attached : Bool

namespace NodeLife

open Node

/-- A host that has nothing of the node yet. -/
def new (site : Site) (registry : CpuRegistry) : NodeLife where
  node :=
    { site
      state := default
      file := ⟨.missing, .missing⟩
      registry
      saves := []
      told := 0
      unfinished := false
      ready := [] }
  attached := false

/-- `Node::create`; the state of a new node is a revision of its own. -/
def createNode (desired : NodeState) : NodeM Unit := do
  let revision ← onSite Site.fresh
  Node.create { desired.toCreate with revision }

/-- `Node::attach`, with the state on file. -/
def attachNode (st : NodeState) (free : CpuRegistry) : NodeM Unit := do
  modify fun n => { n with state := st, registry := free }
  Node.attach

def returned : Except (Exit String) Unit → Bool
  | .ok () => true
  | _ => false

/-- After a deletion that fails the daemon still has the node. -/
def remains : Except (Exit String) Unit → Bool
  | .error (.error _) => true
  | _ => false

def step (l : NodeLife) (a : LifeAct × CallEnv) : Option NodeLife :=
  let n := l.node.inEnv a.2
  match a.1 with
  | .create desired =>
    if l.attached then none else some ⟨(createNode desired n).2, returned (createNode desired n).1⟩
  | .op op => if l.attached then some ⟨(op.run n).2, Watched.lives (op.run n).1⟩ else none
  | .delete => if l.attached then some ⟨(Node.delete n).2, remains (Node.delete n).1⟩ else none
  | .crash => some ⟨n, false⟩
  | .attach free =>
    if l.attached then none
    else n.file.file.load.map fun st => ⟨(attachNode st free n).2, returned (attachNode st free n).1⟩

end NodeLife

end Blockvisor
