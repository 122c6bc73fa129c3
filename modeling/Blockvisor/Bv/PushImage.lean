/-
Pushing an image (`ProtocolService::push_image`). What would be sent is compared
with the latest build of the version: if nothing has changed but the visibility
the build is updated, else a new one is added.

The comparison leaves out the archive pointers, the minimal version of babel and
the DNS scheme, so that a change of these alone is not pushed
(`stale_image_kept`); and it sorts properties and rules by their keys, which
settles their order if no two of them have one key. `push_image_iff` says both.
-/
import Blockvisor.Bv.ImageProperties
import Blockvisor.Lib.KeySort
import Mathlib.Data.String.Basic

namespace Blockvisor

open KeySort

/-! ## Messages -/

namespace Pb

inductive Visibility where
  | unspecified
  | priv
  | development
  | pub
  deriving DecidableEq

/-- The actions, and any number that is none of them. -/
inductive FirewallAction where
  | allow
  | drop
  | reject
  | other (number : Int)
  deriving DecidableEq

inductive FirewallProtocol where
  | tcp
  | udp
  | both
  | other (number : Int)
  deriving DecidableEq

inductive FirewallDirection where
  | inbound
  | outbound
  | other (number : Int)
  deriving DecidableEq

structure FirewallRule where
  key : String
  action : FirewallAction
  direction : FirewallDirection
  protocol : FirewallProtocol
  ips : List Nib.IpName
  ports : List Nib.PortName
  description : Option String
  deriving DecidableEq

structure FirewallConfig where
  defaultIn : FirewallAction
  defaultOut : FirewallAction
  rules : List FirewallRule
  deriving DecidableEq

structure RamdiskConfig where
  mount : String
  sizeBytes : Nat
  deriving DecidableEq

structure ArchivePointer where
  newArchiveKeys : List String
  pointer : Option Nib.StorePointer
  deriving DecidableEq

/-- The fields that an image has in common with the request that adds it. The properties of an image have an identity besides,
which nothing reads. -/
structure ImageFields where
  orgId : Option String
  description : Option String
  properties : List AddImageProperty
  firewall : Option FirewallConfig
  minCpuCores : Nat
  minMemoryBytes : Nat
  minDiskBytes : Nat
  imageUri : String
  ramdisks : List RamdiskConfig
  archivePointers : List ArchivePointer
  minBabelVersion : String
  dnsScheme : Option String
  deriving DecidableEq

structure ImageServiceAddImageRequest where
  protocolVersionId : String
  fields : ImageFields
  deriving DecidableEq

structure Image where
  imageId : String
  fields : ImageFields
  visibility : Visibility
  deriving DecidableEq

structure ImageServiceUpdateImageRequest where
  imageId : String
  visibility : Option Visibility
  deriving DecidableEq

end Pb

namespace Nib

def Visibility.toPb : Visibility → Pb.Visibility
  | .priv => .priv
  | .development => .development
  | .pub => .pub

def Action.toPb : Action → Pb.FirewallAction
  | .allow => .allow
  | .deny => .drop
  | .reject => .reject

def NetProtocol.toPb : NetProtocol → Pb.FirewallProtocol
  | .tcp => .tcp
  | .udp => .udp
  | .both => .both

def Direction.toPb : Direction → Pb.FirewallDirection
  | .into => .inbound
  | .out => .outbound

def FirewallRule.toPb (rule : FirewallRule) : Pb.FirewallRule :=
  ⟨rule.key, rule.action.toPb, rule.direction.toPb, rule.protocol.toPb, rule.ips, rule.ports, rule.description⟩

def FirewallConfig.toPb (config : FirewallConfig) : Pb.FirewallConfig :=
  ⟨config.defaultIn.toPb, config.defaultOut.toPb, config.rules.map (·.toPb)⟩

/-- A product of numbers of 64 bits, which wraps around. -/
def wrappingBytes (amount unit : Nat) : Nat := amount * unit % 2 ^ 64

def RamdiskConfig.toPb (ramdisk : RamdiskConfig) : Pb.RamdiskConfig := ⟨ramdisk.mount, wrappingBytes ramdisk.sizeMb 1000000⟩

def ArchivePointer.toPb (archivePointer : ArchivePointer) : Pb.ArchivePointer :=
  ⟨archivePointer.newArchiveProperties, some archivePointer.pointer⟩

end Nib

def Pb.FirewallConfig.sorted (config : Pb.FirewallConfig) : Pb.FirewallConfig :=
  { config with rules := sortByKey Pb.FirewallRule.key config.rules }

namespace Push

open Nib (ImageVariant)

/-- What is sent for a new build. -/
def addImageFields (image : ImageVariant) (minBabelVersion : String) : Pb.ImageFields where
  orgId := image.orgId
  description := image.description
  properties := Nib.addProperties image.properties
  firewall := some image.firewallConfig.toPb.sorted
  minCpuCores := image.minCpu
  minMemoryBytes := Nib.wrappingBytes image.minMemoryMb 1000000
  minDiskBytes := Nib.wrappingBytes image.minDiskGb 1000000000
  imageUri := image.containerUri
  ramdisks := image.ramdisks.map (·.toPb)
  archivePointers := image.archivePointers.map (·.toPb)
  minBabelVersion := minBabelVersion
  dnsScheme := image.dnsScheme

/-- The comparison of what would be sent with the latest build. -/
def unchanged (req remote : Pb.ImageFields) : Bool :=
  req.orgId = remote.orgId && req.description = remote.description &&
    sortByKey (·.key) req.properties = sortByKey (·.key) remote.properties && req.firewall = remote.firewall.map (·.sorted) &&
    req.minCpuCores = remote.minCpuCores && req.minMemoryBytes = remote.minMemoryBytes &&
    req.minDiskBytes = remote.minDiskBytes && req.imageUri = remote.imageUri && req.ramdisks = remote.ramdisks

/-! ## The push -/

inductive PushResult where
  | added (image : Pb.Image)
  | updated (image : Pb.Image)
  | noChanges
  deriving DecidableEq

/-- A refused call: the image is not there, or something else. -/
inductive Refusal where
  | notFound
  | other (msg : String)
  deriving DecidableEq

structure ProtocolImageKey where
  protocolKey : String
  variantKey : String
  deriving DecidableEq

def imageKey (image : ImageVariant) : ProtocolImageKey := ⟨image.protocolKey, image.variantKey⟩

/-- The image service; a call stands for all attempts that are made at it. -/
structure ImageService (σ : Type) where
  connect : σ → Except String Unit
  getImage : σ → ProtocolImageKey → String → Except Refusal (Option Pb.Image)
  addImage : σ → Pb.ImageServiceAddImageRequest → Except String (Option Pb.Image) × σ
  updateImage : σ → Pb.ImageServiceUpdateImageRequest → Except String (Option Pb.Image) × σ

section

variable {σ : Type} (service : ImageService σ)

/-- `get_image`, of the latest build of the version. -/
def getImage (s : σ) (key : ProtocolImageKey) (version : String) : Except String (Option Pb.Image) :=
  match service.connect s with
  | .error msg => .error msg
  | .ok () =>
    match service.getImage s key version with
    | .ok image => .ok image
    | .error .notFound => .ok none
    | .error (.other msg) => .error msg

def addImage (s : σ) (req : Pb.ImageServiceAddImageRequest) (visibility : Pb.Visibility) : Except String PushResult × σ :=
  match service.addImage s req with
  | (.error msg, s) => (.error msg, s)
  | (.ok none, s) => (.error "missing image in response", s)
  | (.ok (some resp), s) =>
    match service.updateImage s ⟨resp.imageId, some visibility⟩ with
    | (.error msg, s) => (.error msg, s)
    | (.ok _, s) => (.ok (.added resp), s)

def updateImage (s : σ) (imageId : String) (visibility : Pb.Visibility) : Except String PushResult × σ :=
  match service.updateImage s ⟨imageId, some visibility⟩ with
  | (.error msg, s) => (.error msg, s)
  | (.ok none, s) => (.error "missing image in response", s)
  | (.ok (some image), s) => (.ok (.updated image), s)

def pushImage (s : σ) (protocolVersionId : String) (image : ImageVariant) (minBabelVersion : String) :
    Except String PushResult × σ :=
  match service.connect s with
  | .error msg => (.error msg, s)
  | .ok () =>
    let req := addImageFields image minBabelVersion
    let visibility := image.visibility.toPb
    match getImage service s (imageKey image) image.version with
    | .error msg => (.error msg, s)
    | .ok none => addImage service s ⟨protocolVersionId, req⟩ visibility
    | .ok (some remote) =>
      -- only the visibility may differ
      if unchanged req remote.fields then
        if visibility ≠ remote.visibility then updateImage service s remote.imageId visibility else (.ok .noChanges, s)
      else addImage service s ⟨protocolVersionId, req⟩ visibility

end

/-! ## What is compared -/

/-- The firewalls are the same, up to the order of their rules. -/
structure SameFirewall (config other : Pb.FirewallConfig) : Prop where
  defaultIn : config.defaultIn = other.defaultIn
  defaultOut : config.defaultOut = other.defaultOut
  rules : config.rules.Perm other.rules

/-- The fields that are compared are the same, up to the order of properties and rules. -/
structure SameCompared (req remote : Pb.ImageFields) : Prop where
  orgId : req.orgId = remote.orgId
  description : req.description = remote.description
  properties : req.properties.Perm remote.properties
  firewall : Option.Rel SameFirewall req.firewall remote.firewall
  minCpuCores : req.minCpuCores = remote.minCpuCores
  minMemoryBytes : req.minMemoryBytes = remote.minMemoryBytes
  minDiskBytes : req.minDiskBytes = remote.minDiskBytes
  imageUri : req.imageUri = remote.imageUri
  ramdisks : req.ramdisks = remote.ramdisks

/-- The fields that are not compared are the same. -/
structure SameRest (req remote : Pb.ImageFields) : Prop where
  archivePointers : req.archivePointers = remote.archivePointers
  minBabelVersion : req.minBabelVersion = remote.minBabelVersion
  dnsScheme : req.dnsScheme = remote.dnsScheme

/-- All fields are the same, up to the order of properties and rules. -/
def SameFields (req remote : Pb.ImageFields) : Prop := SameCompared req remote ∧ SameRest req remote

/-- No two different properties, and no two different rules, have one key. -/
def Unambiguous (fields : Pb.ImageFields) : Prop :=
  (∀ a ∈ fields.properties, ∀ b ∈ fields.properties, a.key = b.key → a = b) ∧
    ∀ config ∈ fields.firewall, ∀ a ∈ config.rules, ∀ b ∈ config.rules, a.key = b.key → a = b

variable {req remote other : Pb.ImageFields}

theorem unchanged_iff : unchanged req remote = true ↔
    req.orgId = remote.orgId ∧ req.description = remote.description ∧
      sortByKey (·.key) req.properties = sortByKey (·.key) remote.properties ∧ req.firewall = remote.firewall.map (·.sorted) ∧
      req.minCpuCores = remote.minCpuCores ∧ req.minMemoryBytes = remote.minMemoryBytes ∧
      req.minDiskBytes = remote.minDiskBytes ∧ req.imageUri = remote.imageUri ∧ req.ramdisks = remote.ramdisks := by
  simp only [unchanged, Bool.and_eq_true, decide_eq_true_eq, and_assoc]

theorem SameFirewall.refl (config : Pb.FirewallConfig) : SameFirewall config config := ⟨rfl, rfl, .refl _⟩

theorem SameFirewall.of_sorted (config : Pb.FirewallConfig) : SameFirewall config.sorted config :=
  ⟨rfl, rfl, sortByKey_perm _ _⟩

/-- What compares equal is the same where it is compared. -/
theorem SameCompared.of_unchanged (h : unchanged req remote = true) : SameCompared req remote := by
  obtain ⟨horg, hdescription, hproperties, hfirewall, hcpu, hmemory, hdisk, huri, hramdisks⟩ := unchanged_iff.mp h
  refine ⟨horg, hdescription, perm_of_sortByKey_eq hproperties, ?_, hcpu, hmemory, hdisk, huri, hramdisks⟩
  rw [hfirewall]
  cases remote.firewall with
  | none => exact .none
  | some config => exact .some (.of_sorted config)

theorem sorted_eq {config config' : Pb.FirewallConfig} (h : SameFirewall config config')
    (hkeys : ∀ a ∈ config.rules, ∀ b ∈ config.rules, a.key = b.key → a = b) : config.sorted = config'.sorted := by
  unfold Pb.FirewallConfig.sorted
  rw [sortByKey_eq_of_perm h.rules hkeys]
  obtain ⟨hin, hout, -⟩ := h
  cases config
  cases config'
  simp only at hin hout
  rw [hin, hout]

/-- What is the same compares equal, if the keys settle the order. -/
theorem unchanged_of_same (h : SameCompared req remote) (hkeys : Unambiguous req)
    (hsorted : req.firewall = req.firewall.map (·.sorted)) : unchanged req remote = true := by
  refine unchanged_iff.mpr ⟨h.orgId, h.description, sortByKey_eq_of_perm h.properties hkeys.1, ?_, h.minCpuCores, h.minMemoryBytes,
    h.minDiskBytes, h.imageUri, h.ramdisks⟩
  have hfirewall := h.firewall
  rw [hsorted]
  cases hreq : req.firewall with
  | none =>
    rw [hreq] at hfirewall
    cases hremote : remote.firewall with
    | none => rfl
    | some config => rw [hremote] at hfirewall; cases hfirewall
  | some config =>
    rw [hreq] at hfirewall
    cases hremote : remote.firewall with
    | none => rw [hremote] at hfirewall; cases hfirewall
    | some config' =>
      rw [hremote] at hfirewall
      cases hfirewall with
      | some hsame => exact congrArg some (sorted_eq hsame (hkeys.2 config hreq))

theorem addImageFields_sorted (image : ImageVariant) (minBabelVersion : String) :
    (addImageFields image minBabelVersion).firewall =
      (addImageFields image minBabelVersion).firewall.map (·.sorted) := by
  show some _ = some _
  congr 1
  unfold Pb.FirewallConfig.sorted
  simp only [sortByKey_idem]

/-! ## A change is seen -/

section Seen

variable {σ : Type} {service : ImageService σ} {s : σ} {protocolVersionId minBabelVersion : String} {image : ImageVariant}
variable {build : Pb.Image}

/-- The push adds no build. -/
def Settles (result : Except String PushResult) : Prop := result = .ok .noChanges ∨ ∃ updated, result = .ok (.updated updated)

/-- The visibility is right, or an update of it is answered. -/
def Answered (service : ImageService σ) (s : σ) (build : Pb.Image) (visibility : Pb.Visibility) : Prop :=
  visibility = build.visibility ∨ ∃ updated, (service.updateImage s ⟨build.imageId, some visibility⟩).1 = .ok (some updated)

theorem not_settles_addImage (req : Pb.ImageServiceAddImageRequest) (visibility : Pb.Visibility) :
    ¬ Settles (addImage service s req visibility).1 := by
  intro h
  unfold addImage at h
  split at h
  · obtain h | ⟨_, h⟩ := h <;> cases h
  · obtain h | ⟨_, h⟩ := h <;> cases h
  · split at h
    · obtain h | ⟨_, h⟩ := h <;> cases h
    · obtain h | ⟨_, h⟩ := h <;> cases h

theorem settles_updateImage_iff (imageId : String) (visibility : Pb.Visibility) :
    Settles (updateImage service s imageId visibility).1 ↔
      ∃ updated, (service.updateImage s ⟨imageId, some visibility⟩).1 = .ok (some updated) := by
  unfold updateImage Settles
  rcases service.updateImage s ⟨imageId, some visibility⟩ with ⟨answer, s'⟩
  cases answer with
  | error msg => simp
  | ok updated =>
    cases updated with
    | none => simp
    | some updated => simp

theorem getImage_some (hconnect : service.connect s = .ok ())
    (hbuild : service.getImage s (imageKey image) image.version = .ok (some build)) :
    getImage service s (imageKey image) image.version = .ok (some build) := by
  unfold getImage
  rw [hconnect]
  simp only [hbuild]

/-- A push that finds a build. -/
theorem pushImage_build (hconnect : service.connect s = .ok ())
    (hbuild : service.getImage s (imageKey image) image.version = .ok (some build)) :
    pushImage service s protocolVersionId image minBabelVersion =
      if unchanged (addImageFields image minBabelVersion) build.fields then
        if image.visibility.toPb ≠ build.visibility then updateImage service s build.imageId image.visibility.toPb
        else (.ok .noChanges, s)
      else addImage service s ⟨protocolVersionId, addImageFields image minBabelVersion⟩ image.visibility.toPb := by
  unfold pushImage
  rw [hconnect]
  simp only [getImage_some hconnect hbuild]

theorem settles_iff (hconnect : service.connect s = .ok ())
    (hbuild : service.getImage s (imageKey image) image.version = .ok (some build)) :
    Settles (pushImage service s protocolVersionId image minBabelVersion).1 ↔
      unchanged (addImageFields image minBabelVersion) build.fields = true ∧ Answered service s build image.visibility.toPb := by
  rw [pushImage_build hconnect hbuild]
  unfold Answered
  by_cases hunchanged : unchanged (addImageFields image minBabelVersion) build.fields = true
  · rw [if_pos hunchanged]
    by_cases hvisibility : image.visibility.toPb = build.visibility
    · rw [if_neg (not_not.mpr hvisibility)]
      exact iff_of_true (.inl rfl) ⟨hunchanged, .inl hvisibility⟩
    · rw [if_pos hvisibility, settles_updateImage_iff]
      exact ⟨fun h => ⟨hunchanged, .inr h⟩, fun h => h.2.resolve_left hvisibility⟩
  · rw [if_neg hunchanged]
    exact iff_of_false (not_settles_addImage _ _) fun h => hunchanged h.1

/-- Without a new build nothing has changed, exactly if nothing has in the fields that are not compared. -/
theorem seen_iff (protocolVersionId minBabelVersion : String) (hconnect : service.connect s = .ok ())
    (hbuild : service.getImage s (imageKey image) image.version = .ok (some build)) :
    (Settles (pushImage service s protocolVersionId image minBabelVersion).1 →
        SameFields (addImageFields image minBabelVersion) build.fields) ↔
      (unchanged (addImageFields image minBabelVersion) build.fields = true → Answered service s build image.visibility.toPb →
        SameRest (addImageFields image minBabelVersion) build.fields) := by
  rw [settles_iff hconnect hbuild]
  constructor
  · intro h hunchanged hanswered
    exact (h ⟨hunchanged, hanswered⟩).2
  · intro h hsettles
    exact ⟨.of_unchanged hsettles.1, h hsettles.1 hsettles.2⟩

end Seen

/-! ## A push again -/

section Again

variable {protocolVersionId minBabelVersion : String} {image : ImageVariant} {a b c : Pb.ImageFields}

/-- The service keeps what it is sent, with the properties and the rules in any order. -/
structure Keeps {σ : Type} (service : ImageService σ) (protocolVersionId : String) (key : ProtocolImageKey)
    (version : String) : Prop where
  added : ∀ {s fields visibility created s' updated s''},
    service.addImage s ⟨protocolVersionId, fields⟩ = (.ok (some created), s') →
    service.updateImage s' ⟨created.imageId, some visibility⟩ = (.ok updated, s'') →
    service.connect s'' = .ok () ∧ ∃ build, service.getImage s'' key version = .ok (some build) ∧
      SameFields fields build.fields ∧ build.visibility = visibility
  updated : ∀ {s build visibility updated s'}, service.getImage s key version = .ok (some build) →
    service.updateImage s ⟨build.imageId, some visibility⟩ = (.ok updated, s') →
    service.connect s' = .ok () ∧ ∃ kept, service.getImage s' key version = .ok (some kept) ∧
      SameFields build.fields kept.fields ∧ kept.visibility = visibility

theorem SameFirewall.trans {config config' config'' : Pb.FirewallConfig} (h : SameFirewall config config')
    (h' : SameFirewall config' config'') : SameFirewall config config'' :=
  ⟨h.defaultIn.trans h'.defaultIn, h.defaultOut.trans h'.defaultOut, h.rules.trans h'.rules⟩

theorem SameCompared.trans (h : SameCompared a b) (h' : SameCompared b c) : SameCompared a c where
  orgId := h.orgId.trans h'.orgId
  description := h.description.trans h'.description
  properties := h.properties.trans h'.properties
  firewall := by
    obtain ⟨-, -, -, hab, -⟩ := h
    obtain ⟨-, -, -, hbc, -⟩ := h'
    generalize a.firewall = x, b.firewall = y, c.firewall = z at hab hbc
    cases hab with
    | none => cases hbc; exact .none
    | some hab =>
      cases hbc with
      | some hbc => exact .some (hab.trans hbc)
  minCpuCores := h.minCpuCores.trans h'.minCpuCores
  minMemoryBytes := h.minMemoryBytes.trans h'.minMemoryBytes
  minDiskBytes := h.minDiskBytes.trans h'.minDiskBytes
  imageUri := h.imageUri.trans h'.imageUri
  ramdisks := h.ramdisks.trans h'.ramdisks

variable {σ : Type} {service : ImageService σ} {s s' : σ}

theorem noChanges_of_same {build : Pb.Image} (hconnect : service.connect s = .ok ())
    (hbuild : service.getImage s (imageKey image) image.version = .ok (some build))
    (hkeys : Unambiguous (addImageFields image minBabelVersion))
    (hsame : SameCompared (addImageFields image minBabelVersion) build.fields) (hvisibility : build.visibility = image.visibility.toPb) :
    (pushImage service s protocolVersionId image minBabelVersion).1 = .ok .noChanges := by
  rw [pushImage_build hconnect hbuild, if_pos (unchanged_of_same hsame hkeys (addImageFields_sorted image minBabelVersion)),
    if_neg (not_not.mpr hvisibility.symm)]

theorem again_of_added (hkeeps : Keeps service protocolVersionId (imageKey image) image.version)
    (hkeys : Unambiguous (addImageFields image minBabelVersion)) {result : PushResult}
    (h : addImage service s ⟨protocolVersionId, addImageFields image minBabelVersion⟩ image.visibility.toPb = (.ok result, s')) :
    (pushImage service s' protocolVersionId image minBabelVersion).1 = .ok .noChanges := by
  unfold addImage at h
  split at h
  · cases h
  · cases h
  · rename_i hadded
    split at h
    · cases h
    · rename_i hupdated
      cases h
      obtain ⟨hconnect, build, hbuild, hsame, hvisibility⟩ := hkeeps.added hadded hupdated
      exact noChanges_of_same hconnect hbuild hkeys hsame.1 hvisibility

/-- **Pushing again** what was pushed changes nothing. -/
theorem again_of_keeps (hkeeps : Keeps service protocolVersionId (imageKey image) image.version)
    (hkeys : Unambiguous (addImageFields image minBabelVersion)) {result : PushResult}
    (h : pushImage service s protocolVersionId image minBabelVersion = (.ok result, s')) :
    (pushImage service s' protocolVersionId image minBabelVersion).1 = .ok .noChanges := by
  unfold pushImage at h
  split at h
  · cases h
  · rename_i hconnect
    simp only at h
    split at h
    · cases h
    · exact again_of_added hkeeps hkeys h
    · rename_i build hget
      have hbuild : service.getImage s (imageKey image) image.version = .ok (some build) := by
        unfold getImage at hget
        rw [hconnect] at hget
        simp only at hget
        split at hget
        · rename_i hanswer
          cases hget
          exact hanswer
        · cases hget
        · cases hget
      split at h
      · rename_i hunchanged
        have hsame := SameCompared.of_unchanged hunchanged
        split at h
        · unfold updateImage at h
          split at h
          · cases h
          · cases h
          · rename_i hupdated
            cases h
            obtain ⟨hconnect, kept, hkept, hfields, hvisibility⟩ := hkeeps.updated hbuild hupdated
            exact noChanges_of_same hconnect hkept hkeys (hsame.trans hfields.1) hvisibility
        · rename_i hvisibility
          cases h
          exact noChanges_of_same hconnect hbuild hkeys hsame (not_not.mp hvisibility).symm
      · exact again_of_added hkeeps hkeys h

theorem SameFields.refl (fields : Pb.ImageFields) : SameFields fields fields := by
  refine ⟨⟨rfl, rfl, .refl _, ?_, rfl, rfl, rfl, rfl, rfl⟩, ⟨rfl, rfl, rfl⟩⟩
  cases fields.firewall with
  | none => exact .none
  | some config => exact .some (.refl config)

/-- A service of one version, which keeps the fields as the function gives them. -/
def keeping (kept : Pb.ImageFields → Pb.ImageFields) : ImageService (Option Pb.Image) where
  connect _ := .ok ()
  getImage build _ _ := .ok build
  addImage _ req :=
    let build : Pb.Image := ⟨"image", kept req.fields, .development⟩
    (.ok (some build), some build)
  updateImage
    | none, _ => (.error "not found", none)
    | some build, req =>
      let build := { build with visibility := req.visibility.getD build.visibility }
      (.ok (some build), some build)

theorem keeping_keeps {kept : Pb.ImageFields → Pb.ImageFields} (hkept : ∀ fields, SameFields fields (kept fields))
    (protocolVersionId : String) (key : ProtocolImageKey) (version : String) :
    Keeps (keeping kept) protocolVersionId key version where
  added h h' := by
    cases h
    cases h'
    exact ⟨rfl, _, rfl, hkept _, rfl⟩
  updated {s build visibility updated s'} h h' := by
    cases h
    cases h'
    exact ⟨rfl, _, rfl, .refl _, rfl⟩

/-- In another order the fields compare unequal. -/
theorem reordered_of_ambiguous (h : ¬ Unambiguous (addImageFields image minBabelVersion)) :
    ∃ fields, SameFields (addImageFields image minBabelVersion) fields ∧
      unchanged (addImageFields image minBabelVersion) fields = false := by
  have hsame := SameFields.refl (addImageFields image minBabelVersion)
  unfold Unambiguous at h
  rw [← sortByKey_canonical_iff] at h
  by_cases hproperties : ∀ l', (addImageFields image minBabelVersion).properties.Perm l' →
      sortByKey (·.key) (addImageFields image minBabelVersion).properties = sortByKey (·.key) l'
  · have hrules : ¬ ∀ config ∈ (addImageFields image minBabelVersion).firewall, ∀ a ∈ config.rules, ∀ b ∈ config.rules,
        a.key = b.key → a = b := fun hrules => h ⟨hproperties, hrules⟩
    push Not at hrules
    obtain ⟨config, hconfig, hambiguous⟩ := hrules
    have hcanonical : ¬ ∀ l', config.rules.Perm l' → sortByKey (·.key) config.rules = sortByKey (·.key) l' := by
      rw [sortByKey_canonical_iff]
      push Not
      exact hambiguous
    push Not at hcanonical
    obtain ⟨rules, hperm, hne⟩ := hcanonical
    have hfirewall : Option.Rel SameFirewall (addImageFields image minBabelVersion).firewall (some { config with rules := rules }) := by
      rw [hconfig]
      exact .some ⟨rfl, rfl, hperm⟩
    refine ⟨{ addImageFields image minBabelVersion with firewall := some { config with rules := rules } },
      ⟨{ hsame.1 with firewall := hfirewall }, { hsame.2 with }⟩, ?_⟩
    rw [Bool.eq_false_iff]
    intro hunchanged
    obtain ⟨-, -, -, hequal, -⟩ := unchanged_iff.mp hunchanged
    rw [addImageFields_sorted image minBabelVersion, hconfig] at hequal
    exact hne (congrArg Pb.FirewallConfig.rules (Option.some.inj hequal))
  · push Not at hproperties
    obtain ⟨properties, hperm, hne⟩ := hproperties
    refine ⟨{ addImageFields image minBabelVersion with properties := properties },
      ⟨{ hsame.1 with properties := hperm }, { hsame.2 with }⟩, ?_⟩
    rw [Bool.eq_false_iff]
    intro hunchanged
    exact hne (unchanged_iff.mp hunchanged).2.2.1

theorem again_iff : Unambiguous (addImageFields image minBabelVersion) ↔
    ∀ (σ : Type) (service : ImageService σ), Keeps service protocolVersionId (imageKey image) image.version →
      ∀ s result s', pushImage service s protocolVersionId image minBabelVersion = (.ok result, s') →
        (pushImage service s' protocolVersionId image minBabelVersion).1 = .ok .noChanges := by
  constructor
  · intro hkeys σ service hkeeps s result s' h
    exact again_of_keeps hkeeps hkeys h
  · intro hagain
    by_contra hambiguous
    obtain ⟨fields, hfields, hchanged⟩ := reordered_of_ambiguous hambiguous
    have hkept : ∀ sent, SameFields sent (if sent = addImageFields image minBabelVersion then fields else sent) := by
      intro sent
      split
      · rename_i heq
        exact heq ▸ hfields
      · exact .refl _
    have hfirst : pushImage (keeping fun sent => if sent = addImageFields image minBabelVersion then fields else sent) none
        protocolVersionId image minBabelVersion =
          (.ok (.added ⟨"image", fields, .development⟩), some ⟨"image", fields, image.visibility.toPb⟩) := by
      simp only [pushImage, getImage, addImage, keeping, if_true, Option.getD_some]
    have hsecond := hagain _ _ (keeping_keeps hkept protocolVersionId (imageKey image) image.version) none _ _ hfirst
    rw [pushImage_build rfl rfl, hchanged, if_neg Bool.false_ne_true] at hsecond
    exact not_settles_addImage _ _ (.inl hsecond)

end Again

/-! ## The two together -/

section Both

theorem getImage_iff {σ : Type} {service : ImageService σ} {s : σ} {key : ProtocolImageKey} {version : String} {build : Pb.Image} :
    getImage service s key version = .ok (some build) ↔
      service.connect s = .ok () ∧ service.getImage s key version = .ok (some build) := by
  unfold getImage
  cases hconnect : service.connect s with
  | error msg => simp
  | ok answer =>
    simp only [true_and]
    split
    · rename_i hanswer
      simp [hanswer]
    · rename_i hanswer
      simp [hanswer]
    · rename_i hanswer
      simp [hanswer]

/-- A push without a build to compare with adds one, or fails. -/
theorem not_settles_pushImage {σ : Type} {service : ImageService σ} {s : σ} {image : ImageVariant}
    (hnone : ∀ build, getImage service s (imageKey image) image.version ≠ .ok (some build)) (protocolVersionId minBabelVersion : String) :
    ¬ Settles (pushImage service s protocolVersionId image minBabelVersion).1 := by
  unfold pushImage
  split
  · intro h
    obtain h | ⟨_, h⟩ := h <;> cases h
  · simp only
    split
    · intro h
      obtain h | ⟨_, h⟩ := h <;> cases h
    · exact not_settles_addImage _ _
    · rename_i build hbuild
      exact absurd hbuild (hnone build)

/-- **Every change is seen** exactly if there is none in the fields that are not compared, and **a second push changes nothing**
exactly if no two different properties or rules have one key. -/
theorem push_image_iff (protocolVersionId : String) (image : ImageVariant) (minBabelVersion : String) :
    (∀ (σ : Type) (service : ImageService σ) (s : σ),
      (Settles (pushImage service s protocolVersionId image minBabelVersion).1 →
        ∃ build, getImage service s (imageKey image) image.version = .ok (some build) ∧
          SameFields (addImageFields image minBabelVersion) build.fields) ↔
      ∀ build, getImage service s (imageKey image) image.version = .ok (some build) →
        unchanged (addImageFields image minBabelVersion) build.fields = true → Answered service s build image.visibility.toPb →
          SameRest (addImageFields image minBabelVersion) build.fields) ∧
    ((∀ (σ : Type) (service : ImageService σ), Keeps service protocolVersionId (imageKey image) image.version →
      ∀ s result s', pushImage service s protocolVersionId image minBabelVersion = (.ok result, s') →
        (pushImage service s' protocolVersionId image minBabelVersion).1 = .ok .noChanges) ↔
      Unambiguous (addImageFields image minBabelVersion)) := by
  refine ⟨fun σ service s => ?_, again_iff.symm⟩
  by_cases hsome : ∃ build, getImage service s (imageKey image) image.version = .ok (some build)
  · obtain ⟨build, hbuild⟩ := hsome
    obtain ⟨hconnect, hremote⟩ := getImage_iff.mp hbuild
    have hseen := seen_iff protocolVersionId minBabelVersion hconnect hremote
    constructor
    · intro h build' hbuild'
      cases hbuild.symm.trans hbuild'
      refine hseen.mp fun hsettles => ?_
      obtain ⟨found, hfound, hsame⟩ := h hsettles
      cases hbuild.symm.trans hfound
      exact hsame
    · intro h hsettles
      exact ⟨build, hbuild, hseen.mpr (h build hbuild) hsettles⟩
  · have hnone : ∀ build, getImage service s (imageKey image) image.version ≠ .ok (some build) := fun build h => hsome ⟨build, h⟩
    exact iff_of_true (fun h => absurd h (not_settles_pushImage hnone _ _)) fun build hbuild => absurd hbuild (hnone build)

def plainFields : Pb.ImageFields := addImageFields (Nib.imageWith []) "1.0.0"

theorem plainFields_unambiguous : Unambiguous plainFields := by
  refine ⟨fun a ha => absurd ha List.not_mem_nil, fun config hconfig a ha => ?_⟩
  cases hconfig
  exact absurd ((sortByKey_perm _ _).mem_iff.mp ha) List.not_mem_nil

/-- A build of an older version of babel, with another DNS scheme and archives. -/
def staleBuild : Pb.Image :=
  ⟨"image", { plainFields with archivePointers := [⟨[], some (.storeKey "eth-geth-mainnet-full-v1")⟩], minBabelVersion := "0.1.0", dnsScheme := some "old" },
    .pub⟩

theorem push_twice : (pushImage (keeping id) (some ⟨"image", plainFields, .pub⟩) "version" (Nib.imageWith []) "1.0.0").1 = .ok .noChanges :=
  (push_image_iff "version" (Nib.imageWith []) "1.0.0").2.mpr plainFields_unambiguous _ (keeping id)
    (keeping_keeps SameFields.refl _ _ _) none (.added ⟨"image", plainFields, .development⟩) _ (by
      simp only [pushImage, getImage, addImage, keeping, Option.getD_some]
      rfl)

/-- The stale build is kept: nothing is found to have changed. -/
theorem stale_image_kept :
    (pushImage (keeping id) (some staleBuild) "version" (Nib.imageWith []) "1.0.0").1 = .ok .noChanges ∧
      getImage (keeping id) (some staleBuild) (imageKey (Nib.imageWith [])) "1.0.0" = .ok (some staleBuild) ∧
      ¬ SameFields (addImageFields (Nib.imageWith []) "1.0.0") staleBuild.fields := by
  refine ⟨noChanges_of_same rfl rfl plainFields_unambiguous { (SameFields.refl plainFields).1 with } rfl, rfl, fun h => ?_⟩
  have hbabel : ("1.0.0" : String) = "0.1.0" := h.2.minBabelVersion
  exact absurd hbabel (by decide)

end Both

end Push

end Blockvisor
