/-
What an upgrade that returns has done (`NodesManager::upgrade`). An upgrade
that was interrupted is taken up by the next one, which does not look at what
it is asked for; and where the image has the id that is asked for, nothing is
done at all, be an upgrade under way or not.

`upgrade_reaches_iff` says when the state on file has the image that was
desired, and no upgrade under way, after an upgrade that returns Ok.
-/
import Blockvisor.Bv.NodeLife

namespace Blockvisor

open Effect Machine

/-- The state on file has the image, and no upgrade is under way. -/
def Node.HasOnFile (n : Node) (image : NodeImage) : Prop :=
  ∃ st ∈ n.file.file.load, st.image = image ∧ st.upgradeState.active = false

instance (n : Node) (image : NodeImage) : Decidable (n.HasOnFile image) :=
  inferInstanceAs (Decidable (∃ st ∈ n.file.file.load, st.image = image ∧ st.upgradeState.active = false))

namespace Node

/-! ## Upgrades that return -/

theorem image_upgrading (image : NodeImage) : Upgrading (fun n => n.state.image = image) where
  site := fun _ _ h => h
  saved := fun _ _ _ _ h => h
  stopped := fun _ h => h
  failed := fun _ h => h
  running := fun _ h => h
  ready := fun _ _ _ h => h
  told := fun _ _ h => h
  marked := fun _ h => h
  started := fun _ h => h
  initialized := fun _ _ h => h
  registry := fun _ _ h => h
  assigned := fun _ _ h => h
  upgrade := fun _ _ _ h => h

theorem lift_returns {α : Type} {P : Node → Prop} {m : NodeM α} {Q : α → Node → Prop} (h : Triple P m Q fun _ _ => True) :
    Triple P (lift m) Q fun _ _ => True :=
  Triple.mapError (h.exit fun e _ _ => by cases e <;> trivial)

/-- A rollback never returns Ok, nor does what leads to one. -/
theorem rollback_fails {P : Node → Prop} (err : String) : Triple P (rollback err) (fun _ _ => False) fun _ _ => True := by
  refine Triple.bind Triple.any fun res => ?_
  cases res with
  | ok a => exact Triple.bind Triple.any fun _ => Triple.bind Triple.any fun _ => Triple.throw fun _ _ => trivial
  | error e => exact Triple.bind Triple.any fun _ => Triple.bind Triple.any fun _ => Triple.throw fun _ _ => trivial

theorem revertUpgrade_fails {P : Node → Prop} (err : String) :
    Triple P (revertUpgrade err) (fun _ _ => False) fun _ _ => True := by
  refine Triple.bind Triple.any fun stamp => Triple.bind Triple.any fun u => ?_
  split
  · exact Triple.throw fun _ _ => trivial
  · cases u.stateBackup with
    | none => exact Triple.throw fun _ _ => trivial
    | some backup => exact Triple.bind Triple.any fun _ => rollback_fails err

/-- The state takes over the image that is desired. -/
theorem beginUpgrade_takes (status : VmStatus) (desired : NodeState) :
    Triple (fun _ => True) (beginUpgrade status desired) (fun _ n => n.state.image = desired.image) fun _ _ => True := by
  refine Triple.bind Triple.any fun _ => Triple.bind Triple.any fun _ => lift_returns ?_
  refine Triple.bind Triple.any fun _ => Triple.bind Triple.any fun _ => Triple.bind Triple.any fun _ => ?_
  refine Triple.bind Triple.any fun _ => Triple.bind Triple.any fun revision => ?_
  refine Triple.bind (R := fun _ n => n.state.image = desired.image) (Triple.modify fun n _ => rfl) fun _ => ?_
  exact (image_upgrading desired.image).save.exit fun _ _ _ => trivial

theorem finishUpgrade_saves (image : NodeImage) :
    Triple (fun n => n.state.image = image) finishUpgrade (fun _ n => n.HasOnFile image) fun _ _ => True := by
  have hI := image_upgrading image
  have hactive : Placed fun n => n.state.image = image ∧ n.state.upgradeState.active = false :=
    { site := fun _ _ h => h
      saved := fun _ _ _ _ h => h }
  refine Triple.bind Triple.gets fun steps => ?_
  refine Triple.bind (R := fun _ n => n.state.image = image) (Triple.modify fun n h => h.2) fun _ => ?_
  refine Triple.bind ((Keeps.when (tolerate_keeps hI.onSite)).exit fun _ _ _ => trivial) fun _ => ?_
  refine Triple.bind (R := fun _ n => n.state.image = image ∧ n.state.upgradeState.active = false)
    (Triple.modify fun n h => ⟨h, rfl⟩) fun _ => ?_
  exact hactive.save_writes.conseq (fun _ h => h) (fun _ n h => ⟨n.state, Doc.load_eq_some.mpr h.1, h.2⟩) fun _ _ _ => trivial

/-- **An upgrade that returns** leaves the image that it found, if it was under way already, and otherwise
the one that is desired. -/
theorem upgrade_finishes (n₀ : Node) (desired : NodeState) :
    Triple (· = n₀) (upgrade desired)
      (fun _ n => n.HasOnFile (if n₀.state.upgradeState.active then n₀.state.image else desired.image)) fun _ _ => True := by
  have hsame : Placed fun n => n.state = n₀.state :=
    { site := fun _ _ h => h
      saved := fun _ _ _ _ h => h }
  have hI := image_upgrading (if n₀.state.upgradeState.active then n₀.state.image else desired.image)
  have hbegun : ∀ active status, Triple (fun n => active = n.state.upgradeState.active ∧ n.state = n₀.state)
      (Effect.when (active = false) (beginUpgrade status desired))
      (fun _ n => n.state.image = if n₀.state.upgradeState.active then n₀.state.image else desired.image) fun _ _ => True := by
    intro active status n h
    obtain ⟨hactive, hstate⟩ := h
    rw [← hstate, ← hactive]
    cases active with
    | true => exact rfl
    | false => exact beginUpgrade_takes status desired n trivial
  unfold upgrade
  refine Triple.bind ((lift_returns ((status_keeps hsame).exit fun _ _ _ => trivial)).pre fun n h => by rw [h]) fun status => ?_
  split
  · exact Triple.throw fun _ _ => trivial
  refine Triple.bind Triple.gets fun active => Triple.bind (hbegun active status) fun _ => ?_
  refine Triple.bind Triple.gets fun needRollback => ?_
  cases needRollback with
  | some err => exact (rollback_fails err).post fun _ _ h => h.elim
  | none =>
    refine Triple.bind ((lift_returns ((tryUpgrade_keeps hI).attempt.exit fun _ _ _ => trivial)).pre fun n h => h.2) fun res => ?_
    cases res with
    | error err => exact (revertUpgrade_fails err).post fun _ _ h => h.elim
    | ok a => exact lift_returns (finishUpgrade_saves _)

/-- The state on file has one image. -/
theorem HasOnFile.unique {n : Node} {image image' : NodeImage} (h : n.HasOnFile image) (h' : n.HasOnFile image') : image = image' := by
  obtain ⟨st, hst, himage, -⟩ := h
  obtain ⟨st', hst', himage', -⟩ := h'
  cases hst.symm.trans hst'
  exact himage.symm.trans himage'

/-- The image that is desired is the one the node will have: it has it already, or no other upgrade is
under way and the data set is not left to the node. -/
def Reaches (n : Node) (desired : NodeState) : Prop :=
  if desired.image.id = n.state.image.id then n.HasOnFile desired.image
  else n.state.upgradeState.active = false ∧ (desired.image.storeKey.isEmpty → desired.image.storeKey = n.state.image.storeKey)

instance (n : Node) (desired : NodeState) : Decidable (n.Reaches desired) := by
  unfold Reaches
  infer_instance

/-- What is prepared for an upgrade has the image that is desired, but for the data set. -/
theorem prepareUpgrade_prepares {read desired prepared : NodeState} (h : NodesManager.prepareUpgrade read desired = .ok prepared) :
    prepared.image = { desired.image with
      storeKey := if desired.image.storeKey.isEmpty then read.image.storeKey else desired.image.storeKey } := by
  unfold NodesManager.prepareUpgrade at h
  by_cases hkey : (if desired.image.storeKey.isEmpty then read.image.storeKey else desired.image.storeKey) ≠ read.image.storeKey
  · rw [if_pos hkey] at h
    cases h
  · rw [if_neg hkey] at h
    have hprepared := Except.ok.inj h
    rw [← hprepared]
    split <;> rfl

theorem prepareUpgrade_image {read desired prepared : NodeState} (h : NodesManager.prepareUpgrade read desired = .ok prepared) :
    prepared.image = desired.image ↔ (desired.image.storeKey.isEmpty → desired.image.storeKey = read.image.storeKey) := by
  rw [prepareUpgrade_prepares h]
  by_cases hempty : desired.image.storeKey.isEmpty = true
  · rw [if_pos hempty]
    constructor
    · intro himage _
      exact (congrArg NodeImage.storeKey himage).symm
    · intro hkey
      rw [← hkey hempty]
  · rw [if_neg hempty]
    exact iff_of_true rfl fun h => absurd h hempty

/-- What an upgrade that returns has done, if the node is left alone meanwhile. -/
theorem managerUpgrade_ok {n n' : Node} {desired : NodeState} {version requirements : Except CommandError Unit}
    (hok : NodesManager.upgrade desired version requirements n = (.ok (), n')) :
    (desired.image.id = n.state.image.id ∧ n' = n) ∨
      desired.image.id ≠ n.state.image.id ∧
        ∃ prepared, NodesManager.prepareUpgrade n.state desired = .ok prepared ∧ Node.upgrade prepared n = (.ok (), n') := by
  unfold NodesManager.upgrade at hok
  cases version with
  | error err => cases hok
  | ok a =>
    change (Effect.when (desired.image.id ≠ n.state.image.id) _) n = _ at hok
    by_cases hid : desired.image.id = n.state.image.id
    · rw [Effect.when, if_neg (not_not.mpr hid)] at hok
      cases hok
      exact .inl ⟨hid, rfl⟩
    · rw [Effect.when, if_pos hid] at hok
      refine .inr ⟨hid, ?_⟩
      cases hprepared : NodesManager.prepareUpgrade n.state desired with
      | error err =>
        rw [hprepared] at hok
        cases hok
      | ok prepared =>
        rw [hprepared] at hok
        change (Effect.when (n.state.devMode = false) (ofExcept requirements) >>= fun _ => Node.upgrade prepared) n = _ at hok
        refine ⟨prepared, rfl, ?_⟩
        by_cases hdev : n.state.devMode = false
        · rw [Effect.when, if_pos hdev] at hok
          cases requirements with
          | error err => cases hok
          | ok a => exact hok
        · rw [Effect.when, if_neg hdev] at hok
          exact hok

/-- An upgrade of a node that was read as `read` when the image was compared. -/
theorem upgraded_iff {n n' : Node} {read desired prepared : NodeState} (hprepared : NodesManager.prepareUpgrade read desired = .ok prepared)
    (hok : upgrade prepared n = (.ok (), n')) :
    n'.HasOnFile desired.image ↔
      if n.state.upgradeState.active then n.state.image = desired.image
      else desired.image.storeKey.isEmpty → desired.image.storeKey = read.image.storeKey := by
  have hfinishes := upgrade_finishes n prepared n rfl
  rw [hok] at hfinishes
  have hiff : n'.HasOnFile desired.image ↔
      (if n.state.upgradeState.active then n.state.image else prepared.image) = desired.image :=
    ⟨fun h => hfinishes.unique h, fun h => h ▸ hfinishes⟩
  rw [hiff, ← prepareUpgrade_image hprepared]
  split <;> exact Iff.rfl

end Node

open Node

/-- **An upgrade that returns Ok has reached the desired image** exactly if the node had it already, or no
other upgrade was under way and the data set was not left to the node. The second part is about a node
that other calls have changed since it was read. -/
theorem upgrade_reaches_iff (n : Node) (desired : NodeState) :
    (∀ version requirements n', NodesManager.upgrade desired version requirements n = (.ok (), n') →
      (n'.HasOnFile desired.image ↔ n.Reaches desired)) ∧
    ∀ read prepared n', NodesManager.prepareUpgrade read desired = .ok prepared → Node.upgrade prepared n = (.ok (), n') →
      (n'.HasOnFile desired.image ↔
        if n.state.upgradeState.active then n.state.image = desired.image
        else desired.image.storeKey.isEmpty → desired.image.storeKey = read.image.storeKey) := by
  refine ⟨fun version requirements n' hok => ?_, fun read prepared n' hprepared hok => upgraded_iff hprepared hok⟩
  unfold Reaches
  obtain ⟨hid, hn⟩ | ⟨hid, prepared, hprepared, hupgrade⟩ := managerUpgrade_ok hok
  · rw [if_pos hid, hn]
  · rw [if_neg hid, upgraded_iff hprepared hupgrade]
    have himage : n.state.image ≠ desired.image := fun heq => hid (congrArg NodeImage.id heq.symm)
    cases n.state.upgradeState.active with
    | true => simp [himage]
    | false => simp

/-- A node of another image is desired. -/
def newImage : NodeState := { (default : NodeState) with image := { (default : NodeImage) with id := "new" } }

/-- A node that is created and left alone is upgraded. -/
theorem upgrade_reaches_created :
    ∃ l n', run NodeLife.step (NodeLife.new default []) [(.create default, default)] = some l ∧
      NodesManager.upgrade newImage (.ok ()) (.ok ()) l.node = (.ok (), n') ∧ n'.HasOnFile newImage.image := by
  have hrun : ((run NodeLife.step (NodeLife.new default []) [(.create default, default)]).any fun l =>
      (NodesManager.upgrade newImage (.ok ()) (.ok ()) l.node).1 = .ok () ∧ l.node.Reaches newImage) = true := by decide +kernel
  obtain ⟨l, hl, hupgrade⟩ := (Option.any_eq_true _ _).mp hrun
  obtain ⟨hok, hreaches⟩ := of_decide_eq_true hupgrade
  have hend : NodesManager.upgrade newImage (.ok ()) (.ok ()) l.node = (.ok (), _) := Prod.ext hok rfl
  exact ⟨l, _, hl, hend, ((upgrade_reaches_iff l.node newImage).1 _ _ _ hend).mpr hreaches⟩

/-- The daemon dies when it saves that the machine was upgraded, and is started again. -/
def interruptedUpgrade : List (LifeAct × CallEnv) :=
  [(.create default, default),
    (.op (.call (.upgrade newImage (.ok ()) (.ok ()))), ⟨[], [], [.clean, { SaveEnv.clean with moveAway := .killed .nothing }]⟩),
    (.attach [], default)]

/-- The same upgrade returns Ok then, and the interrupted one is still under way. -/
theorem upgrade_not_resumed :
    ¬ ∀ (site : Site) (registry : CpuRegistry) (acts : List (LifeAct × CallEnv)) (l : NodeLife) (env : CallEnv) (desired : NodeState)
      (version requirements : Except CommandError Unit), run NodeLife.step (NodeLife.new site registry) acts = some l → l.attached = true →
        (NodesManager.upgrade desired version requirements (l.node.inEnv env)).1 = .ok () →
        (NodesManager.upgrade desired version requirements (l.node.inEnv env)).2.HasOnFile desired.image := by
  intro h
  have hrun : ((run NodeLife.step (NodeLife.new default []) interruptedUpgrade).any fun l =>
      l.attached = true ∧ (NodesManager.upgrade newImage (.ok ()) (.ok ()) (l.node.inEnv default)).1 = .ok () ∧
        ¬ (NodesManager.upgrade newImage (.ok ()) (.ok ()) (l.node.inEnv default)).2.HasOnFile newImage.image) = true := by
    decide +kernel
  obtain ⟨l, hl, hend⟩ := (Option.any_eq_true _ _).mp hrun
  obtain ⟨hattached, hok, hnot⟩ := of_decide_eq_true hend
  exact hnot (h _ _ _ l default newImage _ _ hl hattached hok)

end Blockvisor
