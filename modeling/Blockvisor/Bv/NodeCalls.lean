/-
What the daemon does with a node while it holds the node's lock
(`nodes_manager.rs`), and the life of a node under such calls.

A call is made in an environment, which says what fails in it, and how. When
the daemon dies in a call there is no call after it. `Watched` keeps, beside
the node, whether the last command was a stop that returned Ok.
-/
import Blockvisor.Bv.Node

namespace Blockvisor

open Effect Machine

namespace NodesManager

open Node

/-- `NodesManager::start`. -/
def start (reloadPlugin : Bool) : NodeC Unit := do
  Effect.when reloadPlugin (mapError (fun err => .internal s!"BV internal error: {err}") Node.reloadPlugin)
  let st ← gets (·.state)
  Effect.when (st.expectedStatus ≠ .running) do
    lift Node.start
    Effect.when (reloadPlugin && st.initialized) (lift (onSite BabelEngine.reloadPluginConfig))

/-- `NodesManager::stop`. A stop that returns leaves nothing under way. -/
def stop (force : Bool) : NodeC Unit := do
  let expected ← gets (·.state.expectedStatus)
  Effect.when (expected ≠ .stopped ∨ force) (lift (Node.stop force))
  modify fun n => { n with unfinished := false }

/-- `NodesManager::restart`. -/
def restart (force : Bool) : NodeC Unit := lift (Node.restart force)

/-- The state that a node is upgraded to, for the one desired and the node as it was read. -/
def prepareUpgrade (node desired : NodeState) : Except CommandError NodeState :=
  let storeKey := if desired.image.storeKey.isEmpty then node.image.storeKey else desired.image.storeKey
  if storeKey ≠ node.image.storeKey then
    .error (.internal s!"cannot upgrade node to version that uses different data set (current=`{node.image.storeKey}`, desired=`{storeKey}`)")
  else
    let desired := { desired with image.storeKey := storeKey }
    .ok (if node.devMode then { desired with vmConfig.vcpuCount := 0 } else desired)

/-- `NodesManager::upgrade`, given what `check_babel_version` and `check_node_requirements` say. -/
def upgrade (desired : NodeState) (version requirements : Except CommandError Unit) : NodeC Unit := do
  ofExcept version
  let node ← gets (·.state)
  Effect.when (desired.image.id ≠ node.image.id) do
    let desired ← ofExcept (prepareUpgrade node desired)
    Effect.when (node.devMode = false) (ofExcept requirements)
    Node.upgrade desired

/-- What `NodesManager::recover` does with the node: its failure is only logged. -/
def recover : NodeM Unit := do
  let status ← status
  let expected ← gets (·.state.expectedStatus)
  Effect.when (status = .failed ∧ expected ≠ .failed) (tolerate Node.recover)

end NodesManager

/-! ## A node under calls -/

/-- A command of the operator, or a recovery pass. -/
inductive NodeCall where
  | start (reloadPlugin : Bool)
  | stop (force : Bool)
  | restart (force : Bool)
  | upgrade (desired : NodeState) (version requirements : Except CommandError Unit)
  | recover

/-- What fails in a call, and what its questions are answered. -/
structure CallEnv where
  faults : List (Fault Cut)
  answers : List Bool
  saves : List SaveEnv

instance : Inhabited CallEnv := ⟨⟨[], [], []⟩⟩

def NodeCall.run : NodeCall → NodeC Unit
  | .start reloadPlugin => NodesManager.start reloadPlugin
  | .stop force => NodesManager.stop force
  | .restart force => NodesManager.restart force
  | .upgrade desired version requirements => NodesManager.upgrade desired version requirements
  | .recover => Node.lift NodesManager.recover

def Node.inEnv (n : Node) (env : CallEnv) : Node :=
  { n with site.faults := env.faults, site.answers := env.answers, saves := env.saves }

/-- A node, whether the daemon lives, and whether the last command was a stop that returned Ok. -/
structure Watched where
  node : Node
  alive : Bool
  lastStopped : Bool

namespace Watched

/-- Whether the last command is, after this call, a stop that returned Ok. -/
def stopped (w : Watched) (call : NodeCall) (res : Except (Exit CommandError) Unit) : Bool :=
  match call, res with
  | .recover, _ => w.lastStopped
  | .stop _, .ok () => true
  | _, _ => false

def lives : Except (Exit CommandError) Unit → Bool
  | .error .killed => false
  | _ => true

def after (w : Watched) (call : NodeCall) (r : Except (Exit CommandError) Unit × Node) : Watched :=
  ⟨r.2, lives r.1, w.stopped call r.1⟩

def step (w : Watched) (a : NodeCall × CallEnv) : Option Watched :=
  if w.alive then some (w.after a.1 (a.1.run (w.node.inEnv a.2))) else none

end Watched

end Blockvisor
