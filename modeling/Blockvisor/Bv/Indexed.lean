/-
The three maps of the nodes manager while calls are under way. `Indexed` says
how far they may be apart: of a node, its entry in the index of names and its
state in the cache, what is missing or stale is what a task under way is about
to put right. The maps are functions here, and the tasks under way a predicate;
there is one lemma for each change that a step makes.
-/
import Blockvisor.Bv.NodesManager

namespace Blockvisor

/-! ## Tasks by what they are about -/

namespace Task

/-- A create that has not put in the node of that id and name. -/
def early (id name : String) : Task → Bool
  | .createAdmit desired => desired.id = id ∧ desired.name = name
  | .createAddress desired => desired.id = id ∧ desired.name = name
  | .createNode desired => desired.id = id ∧ desired.name = name
  | .createInsert id' n => id' = id ∧ n.state.name = name
  | _ => false

/-- A create whose address has been found to be free. -/
def claims (ip : String) : Task → Bool
  | .createNode desired => desired.ip = ip
  | .createInsert _ n => n.state.ip = ip
  | _ => false

/-- A create that will name the node. -/
def names (id name : String) : Task → Bool
  | .createName id' st => id' = id ∧ st.name = name
  | _ => false

/-- A create that has put in the node. -/
def finishes (id : String) : Task → Bool
  | .createName id' _ => id' = id
  | .createCache id' _ => id' = id
  | _ => false

/-- A rename that has changed the index, and not the node. -/
def renames (id name : String) : Task → Bool
  | .renameNode id' name' _ => id' = id ∧ name' = name
  | _ => false

/-- A delete that will take the node out. -/
def removes (id : String) : Task → Bool
  | .deleteNode id' _ => id' = id
  | _ => false

/-- A delete that will take the name out. -/
def drops (id : String) : Task → Bool
  | .deleteName id' _ => id' = id
  | _ => false

/-- A delete that will take the state out of the cache. -/
def forgets (id : String) : Task → Bool
  | .deleteCache id' => id' = id
  | _ => false

def deletes (id : String) (a : Task) : Bool := a.removes id || a.drops id || a.forgets id

/-- A call that will put the state of the node into the cache. -/
def refreshes (id : String) : Task → Bool
  | .refreshCache id' => id' = id
  | _ => false

attribute [simp, grind] early claims names finishes renames removes drops forgets deletes refreshes

end Task

/-- One of the tasks is of the kind. -/
def Has (On : Task → Prop) (p : Task → Bool) : Prop := ∃ a, On a ∧ p a

/-- The task, and others. -/
def Plus (b : Task) (O : Task → Prop) (a : Task) : Prop := a = b ∨ O a

@[simp, grind =] theorem has_plus {O : Task → Prop} {p : Task → Bool} {b : Task} : Has (Plus b O) p ↔ p b ∨ Has O p := by
  unfold Has Plus
  constructor
  · rintro ⟨a, rfl | ha, hp⟩
    · exact .inl hp
    · exact .inr ⟨a, ha, hp⟩
  · rintro (hp | ⟨a, ha, hp⟩)
    · exact ⟨b, .inl rfl, hp⟩
    · exact ⟨a, .inr ha, hp⟩

theorem Has.mono {On : Task → Prop} {p q : Task → Bool} (h : Has On p) (hpq : ∀ a, p a → q a) : Has On q := by
  obtain ⟨a, ha, hp⟩ := h
  exact ⟨a, ha, hpq a hp⟩

@[grind →] theorem Has.finishes_of_names {On : Task → Prop} {id name : String} (h : Has On (Task.names id name)) :
    Has On (Task.finishes id) :=
  h.mono fun a ha => by cases a <;> simp_all

@[simp, grind =] theorem has_deletes {On : Task → Prop} {id : String} :
    Has On (Task.deletes id) ↔ Has On (Task.removes id) ∨ Has On (Task.drops id) ∨ Has On (Task.forgets id) := by
  simp only [Has, Task.deletes, Bool.or_eq_true]
  grind

/-- `N` has the states of the nodes, `C` those in the cache, and `I` is the index. -/
structure Indexed (N C : String → Option NodeState) (I : String → Option String) (On : Task → Prop) : Prop where
  early : ∀ id name, Has On (Task.early id name) →
    N id = none ∧ C id = none ∧ I name = none ∧ (∀ name', I name' ≠ some id) ∧ ¬ Has On (Task.deletes id)
  address : ∀ ip, Has On (Task.claims ip) → ∀ id st, N id = some st → st.ip ≠ ip
  naming : ∀ id name, Has On (Task.names id name) →
    I name = none ∧ (∀ name', I name' ≠ some id) ∧ ∀ st, N id = some st → st.name = name
  finish : ∀ id, Has On (Task.finishes id) → N id ≠ none ∨ Has On (Task.drops id)
  drop : ∀ id, Has On (Task.drops id) → N id = none
  forget : ∀ id, Has On (Task.forgets id) → N id = none ∧ ¬ Has On (Task.finishes id) ∧ ∀ name, I name ≠ some id
  single : ∀ id name name', I name = some id → I name' = some id → name = name'
  owner : ∀ id name, I name = some id → N id ≠ none ∨ Has On (Task.drops id)
  named : ∀ id st, N id = some st → (∃ name, Has On (Task.names id name)) ∨ I st.name = some id ∨
    ∃ name, Has On (Task.renames id name) ∧ I name = some id
  cacheState : ∀ id st, N id = some st →
    C id = some st ∨ Has On (Task.finishes id) ∨ Has On (Task.refreshes id) ∨ Has On (Task.removes id)
  cacheHas : ∀ id, N id ≠ none → C id ≠ none ∨ Has On (Task.finishes id)
  cacheNode : ∀ id, C id ≠ none → N id ≠ none ∨ Has On (Task.deletes id)
  ips : ∀ id id' st st', N id = some st → N id' = some st' → st.ip = st'.ip → id = id'

/-! ## The steps -/

variable {N C : String → Option NodeState} {I : String → Option String} {O : Task → Prop}

/-- A task that is on the way to do nothing to the maps, but for what a create has found. -/
structure Task.Idle (b : Task) : Prop where
  names : ∀ id name, ¬ b.names id name
  finishes : ∀ id, ¬ b.finishes id
  renames : ∀ id name, ¬ b.renames id name
  removes : ∀ id, ¬ b.removes id
  drops : ∀ id, ¬ b.drops id
  forgets : ∀ id, ¬ b.forgets id
  refreshes : ∀ id, ¬ b.refreshes id

/-- None of the tasks is a create that goes on. -/
def NoCreate (O : Task → Prop) : Prop := ∀ a, O a → a.holdsIds = false

theorem NoCreate.none (hO : NoCreate O) : (∀ id name, ¬ Has O (Task.early id name)) ∧ (∀ ip, ¬ Has O (Task.claims ip)) ∧
    (∀ id name, ¬ Has O (Task.names id name)) ∧ ∀ id, ¬ Has O (Task.finishes id) := by
  have hnone : ∀ p : Task → Bool, (∀ a, p a → a.holdsIds) → ¬ Has O p := by
    rintro p hp ⟨a, ha, hpa⟩
    exact absurd (hp a hpa) (by simp [hO a ha])
  refine ⟨fun id name => hnone _ fun a ha => ?_, fun ip => hnone _ fun a ha => ?_, fun id name => hnone _ fun a ha => ?_,
    fun id => hnone _ fun a ha => ?_⟩
  all_goals cases a <;> first | rfl | cases ha

/-- The task is on its way to none of the changes to the maps. -/
def Task.isIdle : Task → Bool
  | .createName .. => false
  | .createCache .. => false
  | .deleteNode .. => false
  | .deleteName .. => false
  | .deleteCache .. => false
  | .renameNode .. => false
  | .refreshCache .. => false
  | _ => true

theorem Task.Idle.of {a : Task} (h : a.isIdle) : a.Idle := by
  constructor <;> intros <;> cases a <;> simp_all [Task.isIdle]

theorem Task.idle_of_isCall {a : Task} (h : a.isCall) : a.Idle := by
  refine Task.Idle.of ?_
  cases a <;> first | rfl | cases h

theorem Task.early_of_isCall {a : Task} (h : a.isCall) : (∀ id name, ¬ a.early id name) ∧ ∀ ip, ¬ a.claims ip := by
  constructor <;> intros <;> cases a <;> simp_all [Task.isCall]

theorem Indexed.forgo {b : Task} (h : Indexed N C I (Plus b O)) (hb : b.Idle) : Indexed N C I O := by
  obtain ⟨hearly, haddress, hnaming, hfinish, hdrop, hforget, hsingle, howner, hnamed, hstate, hhas, hnode, hips⟩ := h
  simp only [has_plus, has_deletes, hb.names, hb.finishes, hb.renames, hb.removes, hb.drops, hb.forgets, hb.refreshes] at *
  constructor
  all_goals grind

theorem Indexed.undertake {b : Task} (h : Indexed N C I O) (hb : b.Idle)
    (hearly : ∀ id name, b.early id name →
      N id = none ∧ C id = none ∧ I name = none ∧ (∀ name', I name' ≠ some id) ∧ ¬ Has O (Task.deletes id))
    (hclaims : ∀ ip, b.claims ip → ∀ k st, N k = some st → st.ip ≠ ip) : Indexed N C I (Plus b O) := by
  obtain ⟨hearly', haddress, hnaming, hfinish, hdrop, hforget, hsingle, howner, hnamed, hstate, hhas, hnode, hips⟩ := h
  constructor
  all_goals
    simp only [has_plus, has_deletes, hb.names, hb.finishes, hb.renames, hb.removes, hb.drops, hb.forgets, hb.refreshes] at *
  all_goals grind

theorem Indexed.createInsert {id : String} {n : Node} (h : Indexed N C I (Plus (.createInsert id n) O)) (hO : NoCreate O) :
    Indexed (fun k => if k = id then some n.state else N k) C I (Plus (.createName id n.state) O) := by
  obtain ⟨hearly, hclaims, hnames, hfinishes⟩ := hO.none
  obtain ⟨hearly', haddress, hnaming, hfinish, hdrop, hforget, hsingle, howner, hnamed, hstate, hhas, hnode, hips⟩ := h
  simp at *
  have hnew := hearly' id n.state.name (.inl ⟨rfl, rfl⟩)
  constructor
  case named =>
    intro k st hk
    by_cases hid : k = id
    · exact .inl ⟨n.state.name, has_plus.mpr (.inl (by simp [hid]))⟩
    · grind
  all_goals grind

theorem Indexed.createName {id : String} {st : NodeState} (h : Indexed N C I (Plus (.createName id st) O)) (hO : NoCreate O) :
    Indexed N C (fun name => if name = st.name then some id else I name) (Plus (.createCache id st) O) := by
  obtain ⟨hearly, hclaims, hnames, hfinishes⟩ := hO.none
  obtain ⟨hearly', haddress, hnaming, hfinish, hdrop, hforget, hsingle, howner, hnamed, hstate, hhas, hnode, hips⟩ := h
  simp at *
  have hnew := hnaming id st.name (.inl ⟨rfl, rfl⟩)
  constructor
  all_goals grind

theorem Indexed.createCache {id : String} {st : NodeState} (h : Indexed N C I (Plus (.createCache id st) O)) (hO : NoCreate O)
    (hstate : ∀ st', N id = some st' → st' = st ∨ Has O (Task.refreshes id) ∨ Has O (Task.removes id)) :
    Indexed N (fun k => if k = id then some st else C k) I O := by
  obtain ⟨hearly, hclaims, hnames, hfinishes⟩ := hO.none
  obtain ⟨hearly', haddress, hnaming, hfinish, hdrop, hforget, hsingle, howner, hnamed, hstate', hhas, hnode, hips⟩ := h
  simp at *
  constructor
  all_goals grind

theorem Indexed.change {id : String} {st st' : NodeState} (h : Indexed N C I O) (hN : N id = some st)
    (hname : st'.name = st.name) (hip : st'.ip = st.ip)
    (hcover : st' = st ∨ Has O (Task.refreshes id) ∨ Has O (Task.removes id)) :
    Indexed (fun k => if k = id then some st' else N k) C I O := by
  obtain ⟨hearly, haddress, hnaming, hfinish, hdrop, hforget, hsingle, howner, hnamed, hstate, hhas, hnode, hips⟩ := h
  constructor
  all_goals grind

theorem Indexed.refreshing {id : String} (h : Indexed N C I O) : Indexed N C I (Plus (.refreshCache id) O) := by
  obtain ⟨hearly, haddress, hnaming, hfinish, hdrop, hforget, hsingle, howner, hnamed, hstate, hhas, hnode, hips⟩ := h
  constructor
  all_goals grind

theorem Indexed.refreshCache {id : String} {st : NodeState} (h : Indexed N C I (Plus (.refreshCache id) O))
    (hN : N id = some st) : Indexed N (fun k => if k = id then some st else C k) I O := by
  obtain ⟨hearly, haddress, hnaming, hfinish, hdrop, hforget, hsingle, howner, hnamed, hstate, hhas, hnode, hips⟩ := h
  simp at *
  constructor
  all_goals grind

theorem Indexed.deleting {id name : String} {st : NodeState} (h : Indexed N C I O) (hN : N id = some st) :
    Indexed N C I (Plus (.deleteNode id name) O) := by
  obtain ⟨hearly, haddress, hnaming, hfinish, hdrop, hforget, hsingle, howner, hnamed, hstate, hhas, hnode, hips⟩ := h
  constructor
  all_goals grind

theorem Indexed.deleteNode {id name : String} (h : Indexed N C I (Plus (.deleteNode id name) O)) :
    Indexed (fun k => if k = id then none else N k) C I (Plus (.deleteName id name) O) := by
  obtain ⟨hearly, haddress, hnaming, hfinish, hdrop, hforget, hsingle, howner, hnamed, hstate, hhas, hnode, hips⟩ := h
  simp at *
  constructor
  all_goals grind

theorem Indexed.deleteName {id name : String} (h : Indexed N C I (Plus (.deleteName id name) O)) (hO : NoCreate O)
    (hname : I name = none ∨ I name = some id) (honly : ∀ name', I name' = some id → name' = name) :
    Indexed N C (fun name' => if name' = name then none else I name') (Plus (.deleteCache id) O) := by
  obtain ⟨hearly, hclaims, hnames, hfinishes⟩ := hO.none
  obtain ⟨hearly', haddress, hnaming, hfinish, hdrop, hforget, hsingle, howner, hnamed, hstate, hhas, hnode, hips⟩ := h
  simp at *
  constructor
  all_goals grind

theorem Indexed.deleteCache {id : String} (h : Indexed N C I (Plus (.deleteCache id) O)) :
    Indexed N (fun k => if k = id then none else C k) I O := by
  obtain ⟨hearly', haddress, hnaming, hfinish, hdrop, hforget, hsingle, howner, hnamed, hstate, hhas, hnode, hips⟩ := h
  simp at *
  constructor
  all_goals grind

theorem Indexed.renaming {id old new : String} (dns : String) (h : Indexed N C I O) (hO : NoCreate O) (hold : I old = some id)
    (hfree : new = old ∨ I new = none) :
    Indexed N C (fun name => if name = new then some id else if name = old then none else I name) (Plus (.renameNode id new dns) O) := by
  obtain ⟨hearly, hclaims, hnames, hfinishes⟩ := hO.none
  obtain ⟨hearly', haddress, hnaming, hfinish, hdrop, hforget, hsingle, howner, hnamed, hstate, hhas, hnode, hips⟩ := h
  constructor
  all_goals grind

theorem Indexed.renameNode {id name dns : String} {st : NodeState} (h : Indexed N C I (Plus (.renameNode id name dns) O))
    (hN : N id = some st) (hname : I name = some id ∨ ∃ name', Has O (Task.renames id name') ∧ I name' = some id) :
    Indexed (fun k => if k = id then some { st with name := name, dnsName := dns } else N k) C I (Plus (.refreshCache id) O) := by
  obtain ⟨hearly', haddress, hnaming, hfinish, hdrop, hforget, hsingle, howner, hnamed, hstate, hhas, hnode, hips⟩ := h
  simp at *
  constructor
  all_goals grind

end Blockvisor
