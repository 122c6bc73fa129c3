/-
A variant of an image as its author describes it (`nib_meta.rs`,
`nib::ImageVariant`), and the check it has to pass before it is pushed. Keys and
values are in lower kebab case; they are looked at one by one, never in pairs.
-/
import Mathlib.Init

namespace Blockvisor

namespace Nib

inductive Visibility where
  | priv
  | pub
  | development
  deriving DecidableEq

inductive Action where
  | allow
  | deny
  | reject
  deriving DecidableEq

inductive NetProtocol where
  | tcp
  | udp
  | both
  deriving DecidableEq

inductive Direction where
  | out
  | into
  deriving DecidableEq

structure IpName where
  ip : String
  name : Option String
  deriving DecidableEq

structure PortName where
  port : Nat
  name : Option String
  deriving DecidableEq

structure FirewallRule where
  key : String
  description : Option String
  protocol : NetProtocol
  direction : Direction
  action : Action
  ips : List IpName
  ports : List PortName
  deriving DecidableEq

structure FirewallConfig where
  defaultIn : Action
  defaultOut : Action
  rules : List FirewallRule
  deriving DecidableEq

structure RamdiskConfig where
  mount : String
  sizeMb : Nat
  deriving DecidableEq

inductive StorePointer where
  | combinationDisallowed
  | storeKey (key : String)
  deriving DecidableEq

structure ArchivePointer where
  pointer : StorePointer
  newArchiveProperties : List String
  deriving DecidableEq

/-- What a property adds to the resources of a node; the numbers are signed. -/
structure ImageImpact where
  newArchive : Bool
  addCpu : Option Int
  addMemoryMb : Option Int
  addDiskGb : Option Int
  deriving DecidableEq

structure EnumVariant where
  value : String
  name : String
  impact : Option ImageImpact
  deriving DecidableEq

inductive UiType where
  | switch (on off : Option ImageImpact)
  | text (impact : Option ImageImpact)
  | password (impact : Option ImageImpact)
  | enum (variants : List EnumVariant)
  deriving DecidableEq

structure ImageProperty where
  key : String
  name : String
  description : Option String
  dynamicValue : Bool
  defaultValue : String
  uiType : UiType
  /-- The variants that the property is shown for, or all of them. -/
  variants : Option (List String)
  deriving DecidableEq

/-- An image variant; the identity of the organisation is its text, the metadata are their keys. -/
structure ImageVariant where
  version : String
  containerUri : String
  protocolKey : String
  orgId : Option String
  description : Option String
  visibility : Visibility
  properties : List ImageProperty
  firewallConfig : FirewallConfig
  variantKey : String
  skuCode : String
  archivePointers : List ArchivePointer
  minCpu : Nat
  minMemoryMb : Nat
  minDiskGb : Nat
  ramdisks : List RamdiskConfig
  metadata : List String
  dnsScheme : Option String
  deriving DecidableEq

/-! ## The check -/

/-- What the libraries take for a semantic version, a URI, and an address with or without a mask. -/
structure Parsers where
  version : String → Bool
  uri : String → Bool
  ipCidr : String → Bool

def lowerKebabCase : List Char := "abcdefghijklmnopqrstuvwxyz1234567890-".toList

def isKebabCase (text : String) : Bool := text.toList.all (· ∈ lowerKebabCase)

namespace ImageVariant

/-- The texts that are to be in kebab case, each with its name, as they are looked at. -/
def keyTexts (image : ImageVariant) : List (String × String) :=
  [("variant_key", image.variantKey), ("protocol_key", image.protocolKey)] ++
    image.metadata.map (("metadata.key", ·)) ++
    image.properties.flatMap (fun item =>
      [("properties.key", item.key)] ++
        (match item.uiType with
          | .enum variants => variants.map fun variant => (s!"in property '{item.key}', value", variant.value)
          | _ => []) ++
        (item.variants.getD []).map ((s!"in property '{item.key}', variant", ·))) ++
    image.archivePointers.filterMap (fun archivePointer =>
      match archivePointer.pointer with
      | .storeKey storeKey => some ("archive_pointer.store_key", storeKey)
      | .combinationDisallowed => none) ++
    image.firewallConfig.rules.map fun item => ("firewall.rule.key", item.key)

def validateKeys (image : ImageVariant) : Except String Unit :=
  match image.keyTexts.find? fun text => !isKebabCase text.2 with
  | some (name, value) => .error s!"'{name}: {value}' isn't lower-kebab-case"
  | none => .ok ()

def validateIps (parsers : Parsers) (image : ImageVariant) : Except String Unit :=
  let ips := image.firewallConfig.rules.flatMap fun rule => rule.ips.map fun ip => (ip.ip, rule.key)
  match ips.find? fun ip => !parsers.ipCidr ip.1 with
  | some (ip, key) => .error s!"invalid ip ({ip}) in rule '{key}'"
  | none => .ok ()

def validateVariantSku (image : ImageVariant) : Except String Unit :=
  let sku := image.skuCode.toList
  if (sku.all fun c => c = '-' || c.isDigit || c.isUpper) ∧ sku.count '-' = 2 then .ok ()
  else .error (s!"Invalid SKU format for variant '{image.variantKey}': '{image.skuCode}' (Should be formatted as 3 sections of " ++
    "uppercased ascii alphanumeric characters split by `-`, e.g.: `ETH-ERG-SF`)")

/-- A rule without ports opens them all; it is warned of, and accepted. -/
def validate (parsers : Parsers) (image : ImageVariant) : Except String Unit := do
  image.validateVariantSku
  if ¬ parsers.version image.version then throw "version must be semantic"
  if ¬ parsers.uri image.containerUri then throw "invalid container_uri"
  image.validateKeys
  image.validateIps parsers

end ImageVariant

end Nib

end Blockvisor
