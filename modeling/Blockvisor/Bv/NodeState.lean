/-
The state of a node as it is kept in its state file (`node_state.rs`), and how
that file is saved (`utils::careful_save`): the file there is moved aside, the
new one is written, and the old one is put back if that fails.

The revision of a state is a ghost: a state whose image or properties change
gets a new one, and a restored state its old one back. The id of an image's
configuration is the API's own and does not count.
-/
import Blockvisor.Lib.Persist

namespace Blockvisor

/-! ## The state -/

inductive VmStatus where
  | running
  | stopped
  | busy
  | failed
  deriving DecidableEq, Repr

/-- A map from strings to strings, by its entries. -/
abbrev NodeProperties := List (String × String)

def NodeProperties.insert (properties : NodeProperties) (k v : String) : NodeProperties :=
  if properties.any (·.1 = k) then properties.map fun p => if p.1 = k then (k, v) else p
  else properties ++ [(k, v)]

namespace Firewall

inductive Action where
  | allow
  | deny
  | reject
  deriving DecidableEq

inductive Direction where
  | out
  | in_
  deriving DecidableEq

inductive Protocol where
  | tcp
  | udp
  | both
  deriving DecidableEq

structure Rule where
  name : String
  action : Action
  direction : Direction
  protocol : Option Protocol
  ips : List String
  ports : List Nat
  deriving DecidableEq

structure Config where
  defaultIn : Action
  defaultOut : Action
  rules : List Rule
  deriving DecidableEq

instance : Inhabited Config := ⟨⟨.reject, .allow, []⟩⟩

end Firewall

structure NodeImage where
  id : String
  version : String
  configId : String
  archiveId : String
  storeKey : String
  uri : String
  minBabelVersion : String
  deriving DecidableEq, Inhabited

structure ProtocolImageKey where
  protocolKey : String
  variantKey : String
  deriving DecidableEq, Inhabited

structure RamdiskConfiguration where
  ramDiskMountPoint : String
  ramDiskSizeMb : Nat
  deriving DecidableEq

structure VmConfig where
  vcpuCount : Nat
  memSizeMb : Nat
  diskSizeGb : Nat
  ramdisks : List RamdiskConfiguration
  deriving DecidableEq, Inhabited

inductive CpuAssignmentUpdate where
  | none
  | acquiredCpus (origLen : Nat)
  | releasedCpus (cpus : List Nat)
  deriving DecidableEq

inductive UpgradeStep where
  | stop
  | cpuAssignment (update : CpuAssignmentUpdate)
  | vm
  | plugin
  | firewall
  | restart
  deriving DecidableEq

/-- What an upgrade replaces, and its rollback brings back. -/
structure StateBackup where
  properties : NodeProperties
  firewall : Firewall.Config
  displayName : String
  orgId : String
  orgName : String
  protocolName : String
  dnsName : String
  tags : List String
  vmConfig : VmConfig
  image : NodeImage
  initialized : Bool
  revision : Nat
  deriving DecidableEq

structure UpgradeState where
  active : Bool
  stateBackup : Option StateBackup
  needRollback : Option String
  steps : List UpgradeStep
  dataStamp : Option Nat
  deriving DecidableEq

instance : Inhabited UpgradeState := ⟨⟨false, none, none, [], none⟩⟩

/-- Node state data that is stored in the state file. -/
structure NodeState where
  id : String
  name : String
  imageKey : ProtocolImageKey
  devMode : Bool
  ip : String
  gateway : String
  properties : NodeProperties
  firewall : Firewall.Config
  displayName : String
  orgId : String
  orgName : String
  protocolName : String
  dnsName : String
  tags : List String
  vmConfig : VmConfig
  image : NodeImage
  assignedCpus : List Nat
  expectedStatus : VmStatus
  initialized : Bool
  restarting : Bool
  upgradeState : UpgradeState
  revision : Nat
  deriving DecidableEq

instance : Inhabited VmStatus := ⟨.stopped⟩

instance : Inhabited NodeState :=
  ⟨⟨"", "", default, false, "", "", [], default, "", "", "", "", "", [], default, default, [], .stopped, false, false,
    default, 0⟩⟩

structure ConfigUpdate where
  configId : String
  newOrgId : Option String
  newOrgName : Option String
  newDisplayName : Option String
  newValues : NodeProperties
  newFirewall : Option Firewall.Config

/-- `From<NodeState>`: a backup of a state that has never run. -/
def StateBackup.ofState (value : NodeState) : StateBackup where
  properties := value.properties
  firewall := value.firewall
  displayName := value.displayName
  orgId := value.orgId
  orgName := value.orgName
  protocolName := value.protocolName
  dnsName := value.dnsName
  tags := value.tags
  vmConfig := value.vmConfig
  image := value.image
  initialized := false
  revision := value.revision

/-- The backup and the state with their common fields swapped. -/
def StateBackup.swapState (b : StateBackup) (st : NodeState) : StateBackup × NodeState :=
  ({ image := st.image
     vmConfig := st.vmConfig
     properties := st.properties
     firewall := st.firewall
     protocolName := st.protocolName
     orgName := st.orgName
     orgId := st.orgId
     displayName := st.displayName
     tags := st.tags
     dnsName := st.dnsName
     initialized := st.initialized
     revision := st.revision },
   { st with
     image := b.image
     vmConfig := b.vmConfig
     properties := b.properties
     firewall := b.firewall
     protocolName := b.protocolName
     orgName := b.orgName
     orgId := b.orgId
     displayName := b.displayName
     tags := b.tags
     dnsName := b.dnsName
     initialized := b.initialized
     revision := b.revision })

/-- Whether the step was not there yet, and the steps with it. -/
def UpgradeState.insertStep (u : UpgradeState) (step : UpgradeStep) : Bool × UpgradeState :=
  if step ∈ u.steps then (false, u) else (true, { u with steps := u.steps ++ [step] })

def UpgradeStep.isCpuAssignment : UpgradeStep → Bool
  | .cpuAssignment _ => true
  | _ => false

/-- `Vec::swap_remove`: the last item takes the place of the one removed. -/
def swapRemove {α : Type} (xs : List α) (i : Nat) : List α :=
  match xs.getLast? with
  | none => xs
  | some last => if i + 1 = xs.length then xs.dropLast else (xs.set i last).dropLast

/-! ## Saving -/

/-- How far a file operation got: nothing of it was done, some (`bits` tells what), or all. -/
inductive Cut where
  | nothing
  | part (bits : Nat)
  | all
  deriving DecidableEq

/-- A file and the backup a save keeps of it. -/
structure SavedFile (α : Type) where
  file : Doc α
  backup : Doc α
  deriving DecidableEq

/-- The fate of each file operation of a save. -/
structure SaveEnv where
  removeBackup : Fault Cut
  moveAway : Fault Cut
  write : Fault Cut
  removeFile : Fault Cut
  restore : Fault Cut
  dropBackup : Fault Cut

namespace SavedFile

variable {α : Type}

def isMissing : Doc α → Bool
  | .missing => true
  | _ => false

/-- An operation that is done or not: it is done if it returns, and not if it fails. -/
def atomic (fault : Fault Cut) : Bool × Except (Exit String) Unit :=
  match fault with
  | .none => (true, .ok ())
  | .error _ => (false, .error (.error "file operation failed"))
  | .killed cut => (cut = .all, .error .killed)

/-- The file there becomes the backup. -/
def moveAway (f : SavedFile α) (env : SaveEnv) : SavedFile α × Except (Exit String) Unit :=
  if isMissing f.file then (f, .ok ())
  else
    let (removed, res) := if isMissing f.backup then (false, .ok ()) else atomic env.removeBackup
    let f := if removed then { f with backup := .missing } else f
    match res with
    | .error e => (f, .error e)
    | .ok () =>
      let (moved, res) := atomic env.moveAway
      (if moved then ⟨.missing, f.file⟩ else f, res)

/-- What a write of the whole file leaves. -/
def written (d : Doc α) (content : α) : Cut → Doc α
  | .nothing => d
  | .part _ => .torn
  | .all => .whole content

/-- The file is written, if there is a directory to write it in. -/
def write (f : SavedFile α) (content : α) (writable : Bool) (env : SaveEnv) : SavedFile α × Except (Exit String) Unit :=
  if writable then
    match env.write with
    | .none => ({ f with file := .whole content }, .ok ())
    | .error cut => ({ f with file := if cut = .nothing then f.file else .torn }, .error (.error "failed to write file"))
    | .killed cut => ({ f with file := written f.file content cut }, .error .killed)
  else (f, .error (.error "no such directory"))

/-- Without a backup there is nothing to clean up. After a failed write the backup is put back;
otherwise it is removed. Failures only warn. -/
def settle (f : SavedFile α) (env : SaveEnv) (res : Except (Exit String) Unit) : SavedFile α × Except (Exit String) Unit :=
  if isMissing f.backup then (f, res)
  else
    match res with
    | .ok () =>
      let (removed, dropped) := atomic env.dropBackup
      let f := if removed then { f with backup := .missing } else f
      match dropped with
      | .error .killed => (f, .error .killed)
      | _ => (f, .ok ())
    | .error e =>
      let (removed, gone) := if isMissing f.file then (false, .ok ()) else atomic env.removeFile
      let f := if removed then { f with file := .missing } else f
      match gone with
      | .error .killed => (f, .error .killed)
      | _ =>
        let (restored, back) := atomic env.restore
        let f := if restored then ⟨f.backup, .missing⟩ else f
        match back with
        | .error .killed => (f, .error .killed)
        | _ => (f, .error e)

/-- `utils::careful_save`. -/
def carefulSave (f : SavedFile α) (content : α) (writable : Bool) (env : SaveEnv) :
    SavedFile α × Except (Exit String) Unit :=
  match f.moveAway env with
  | (f, .error e) => (f, .error e)
  | (f, .ok ()) =>
    match f.write content writable env with
    | (f, .error .killed) => (f, .error .killed)
    | (f, res) => f.settle env res

/-! ## What a save leaves -/

/-- What can be loaded of the file and of its backup meets `P`. -/
structure Holds (P : α → Prop) (f : SavedFile α) : Prop where
  file : ∀ x, f.file = .whole x → P x
  backup : ∀ x, f.backup = .whole x → P x

/-- A file that has the content, or what was in the file or its backup before. -/
def After (f : SavedFile α) (content : α) (f' : SavedFile α) : Prop := ∀ P : α → Prop, f.Holds P → P content → f'.Holds P

variable {P : α → Prop} {f : SavedFile α}

theorem Holds.noBackup (h : f.Holds P) : Holds P { f with backup := .missing } := ⟨h.file, nofun⟩

theorem Holds.noFile (h : f.Holds P) : Holds P { f with file := .missing } := ⟨nofun, h.backup⟩

theorem Holds.restored (h : f.Holds P) : Holds P ⟨f.backup, .missing⟩ := ⟨h.backup, nofun⟩

theorem Holds.aside (h : f.Holds P) : Holds P ⟨.missing, f.file⟩ := ⟨nofun, h.file⟩

theorem Holds.ite {c : Prop} [Decidable c] {f' : SavedFile α} (h : f.Holds P) (h' : f'.Holds P) :
    (if c then f else f').Holds P := by
  split
  · exact h
  · exact h'

theorem Holds.moveAway (h : f.Holds P) (env : SaveEnv) : (f.moveAway env).1.Holds P := by
  unfold SavedFile.moveAway
  split
  · exact h
  · dsimp only
    split
    · exact .ite h.noBackup h
    · exact .ite (aside (.ite h.noBackup h)) (.ite h.noBackup h)

theorem Holds.write (h : f.Holds P) {content : α} (hc : P content) (writable : Bool) (env : SaveEnv) :
    (f.write content writable env).1.Holds P := by
  have hfile : ∀ d : Doc α, (∀ x, d = .whole x → P x) → Holds P { f with file := d } := fun d hd => ⟨hd, h.backup⟩
  unfold SavedFile.write
  split
  · cases env.write with
    | none => exact hfile _ fun x hx => by cases hx; exact hc
    | error cut =>
      refine hfile _ fun x hx => ?_
      split at hx
      · exact h.file x hx
      · cases hx
    | killed cut =>
      refine hfile _ fun x hx => ?_
      cases cut with
      | nothing => exact h.file x hx
      | part bits => cases hx
      | all => cases hx; exact hc
  · exact h

theorem Holds.settle (h : f.Holds P) (env : SaveEnv) (res : Except (Exit String) Unit) : (f.settle env res).1.Holds P := by
  unfold SavedFile.settle
  split
  · exact h
  · cases res with
    | ok a =>
      dsimp only
      split
      · exact .ite h.noBackup h
      · exact .ite h.noBackup h
    | error e =>
      have hgone : ∀ b : Bool, (if b then { f with file := .missing } else f).Holds P := fun b => .ite h.noFile h
      dsimp only
      split
      · exact hgone _
      · split
        · exact .ite (hgone _).restored (hgone _)
        · exact .ite (hgone _).restored (hgone _)

/-- **What a save leaves**, however it ends. -/
theorem carefulSave_after (f : SavedFile α) (content : α) (writable : Bool) (env : SaveEnv) :
    f.After content (f.carefulSave content writable env).1 := by
  intro P h hc
  have haway := h.moveAway env
  unfold carefulSave
  revert haway
  cases f.moveAway env with
  | mk f₁ res =>
    intro h₁
    cases res with
    | error e => exact h₁
    | ok a =>
      have hwrite := h₁.write hc writable env
      dsimp only
      revert hwrite
      cases f₁.write content writable env with
      | mk f₂ res =>
        intro h₂
        split
        · rename_i heq
          cases heq
          exact h₂
        · rename_i heq
          cases heq
          exact h₂.settle env _

theorem write_saved {content : α} {writable : Bool} {env : SaveEnv} (h : (f.write content writable env).2 = .ok ()) :
    (f.write content writable env).1.file = .whole content := by
  unfold write at h ⊢
  split
  · rename_i hw
    rw [if_pos hw] at h
    split at h
    · rfl
    · cases h
    · cases h
  · rename_i hw
    rw [if_neg hw] at h
    cases h

/-- A cleanup after a failed write does not return. -/
theorem settle_saved {env : SaveEnv} {res : Except (Exit String) Unit} (h : (f.settle env res).2 = .ok ()) :
    res = .ok () ∧ (f.settle env res).1.file = f.file := by
  unfold settle at h ⊢
  split
  · rename_i hb
    rw [if_pos hb] at h
    exact ⟨h, rfl⟩
  · rename_i hb
    rw [if_neg hb] at h
    cases res with
    | ok a =>
      refine ⟨rfl, ?_⟩
      dsimp only
      split <;> split <;> rfl
    | error e =>
      dsimp only at h
      split at h
      · cases h
      · split at h <;> cases h

/-- A save that returns has written the file. -/
theorem carefulSave_saved {content : α} {writable : Bool} {env : SaveEnv} (h : (f.carefulSave content writable env).2 = .ok ()) :
    (f.carefulSave content writable env).1.file = .whole content := by
  unfold carefulSave at h ⊢
  cases hm : f.moveAway env with
  | mk f₁ res =>
    rw [hm] at h
    cases res with
    | error e => cases h
    | ok a =>
      have hwrite := @write_saved α f₁ content writable env
      dsimp only at h ⊢
      revert h hwrite
      cases f₁.write content writable env with
      | mk f₂ res =>
        intro h hwrite
        split at h
        · cases h
        · rename_i f₃ res' hres heq
          cases heq
          obtain ⟨hok, hfile⟩ := settle_saved h
          cases hok
          exact hfile.trans (hwrite rfl)

end SavedFile

end Blockvisor
