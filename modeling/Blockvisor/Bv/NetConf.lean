/-
The network configuration of a host and its pool of addresses for nodes
(`bv_config.rs`, and `bvup.rs` where it is made). It is detected from the
routes; then the gateway, the host and the pool may each be given on the
command line, and again when `bvup` asks for them.

The pool leaves the host and the gateway out as they are when it is computed,
and a host given afterwards is still in it (`host_in_pool`); items of a list
that overlap give their addresses twice. `pool_sound_iff` says when neither
happens.
-/
import Blockvisor.Lib.Persist
import Blockvisor.Lib.Subnet
import Blockvisor.Lib.Text

namespace Blockvisor

namespace Net

open Subnet

inductive IpAddr where
  | v4 (addr : BitVec 32)
  | v6 (addr : BitVec 128)
  deriving DecidableEq

inductive IpCidr where
  | v4 (cidr : Cidr 32)
  | v6 (cidr : Cidr 128)

def IpAddr.isUnspecified : IpAddr → Bool
  | .v4 addr => addr = 0
  | .v6 addr => addr = 0

def IpCidr.iter : IpCidr → List IpAddr
  | .v4 cidr => cidr.iter.map .v4
  | .v6 cidr => cidr.iter.map .v6

def getBits : IpCidr → Nat
  | .v4 cidr => cidr.bits
  | .v6 cidr => cidr.bits

/-- How addresses and subnets are read and shown: `IpAddr` and `IpCidr`. -/
structure IpText where
  parse : String → Option IpAddr
  parseCidr : String → Option IpCidr
  display : IpAddr → String

structure NetConf where
  gatewayIp : IpAddr
  hostIp : IpAddr
  prefixBits : Nat
  availableIps : List IpAddr
  deriving DecidableEq

def NetConf.default : NetConf := ⟨.v4 0, .v4 0, 32, []⟩

/-! ## Detection -/

structure IpRoute where
  dst : Option String
  gateway : Option String
  dev : Option String
  prefsrc : Option String
  protocol : Option String
  deriving DecidableEq

/-- A route that an error tells of is there as it is. -/
inductive NetworkDetectionError where
  | defaultRouteNotFound (availableRoutes : List String)
  | defaultRouteGatewayMissing (defaultRoute : IpRoute)
  | invalidGatewayIp (gateway : String)
  | interfaceConfigNotFound (interface : String) (availableInterfaces : List String) (searchedRoutes : List IpRoute)
  | interfacePrefSrcMissing (interface : String) (route : IpRoute)
  | invalidHostIp (hostIp : String)
  | invalidCidr (cidr : String)
  | jsonParseError (msg : String)
  | ipRange (msg : String)

structure HostNetwork where
  hostIp : IpAddr
  cidr : IpCidr
  prefixBits : Nat

section

variable (t : IpText)

def ipsFromRange : IpAddr → IpAddr → Except String (List IpAddr)
  | .v4 ipFrom, .v4 ipTo => .ok ((range ipFrom ipTo).map .v4)
  | .v6 ipFrom, .v6 ipTo => .ok ((range ipFrom ipTo).map .v6)
  | ipFrom, ipTo => .error s!"invalid ip range: ({t.display ipFrom}, {t.display ipTo}"

def extractGateway (routes : List IpRoute) : Except NetworkDetectionError IpAddr :=
  match routes.find? (·.dst = some "default") with
  | none => .error (.defaultRouteNotFound (routes.filterMap (·.dst)))
  | some route =>
    match route.gateway with
    | none => .error (.defaultRouteGatewayMissing route)
    | some gateway =>
      match t.parse gateway with
      | none => .error (.invalidGatewayIp gateway)
      | some ip => .ok ip

def isDevIp (route : IpRoute) (dev : String) : Bool :=
  route.dev = some dev && route.dst.any (fun v => v ≠ "default" && (t.parseCidr v).isSome) && route.prefsrc.isSome &&
    route.protocol = some "kernel"

/-- `extract_host_network`, with the routes it has passed over. -/
def extractHostNetworkFrom (ifaName : String) (passed : List IpRoute) : List IpRoute → Except NetworkDetectionError HostNetwork
  | [] =>
    .error (.interfaceConfigNotFound ifaName (passed.filterMap (·.dev)).eraseDups (passed.filter (·.dev = some ifaName)))
  | route :: rest =>
    if isDevIp t route ifaName then
      match route.dst with
      | none => extractHostNetworkFrom ifaName (passed ++ [route]) rest
      | some dst =>
        match t.parseCidr dst with
        | none => .error (.invalidCidr dst)
        | some cidr =>
          match route.prefsrc with
          | none => .error (.interfacePrefSrcMissing ifaName route)
          | some prefsrc =>
            match t.parse prefsrc with
            | none => .error (.invalidHostIp prefsrc)
            | some hostIp => .ok ⟨hostIp, cidr, getBits cidr⟩
    else extractHostNetworkFrom ifaName (passed ++ [route]) rest

def extractHostNetwork (routes : List IpRoute) (ifaName : String) : Except NetworkDetectionError HostNetwork :=
  extractHostNetworkFrom t ifaName [] routes

/-- The addresses of a subnet, but for the base and the broadcast address. -/
def usableIps (cidr : IpCidr) : List IpAddr := if getBits cidr ≤ 30 then cidr.iter.tail.dropLast else cidr.iter

def calculateAvailableIps (hostNetwork : HostNetwork) (gateway : IpAddr) : Except String (List IpAddr) :=
  let ips := if hostNetwork.prefixBits ≤ 30 then hostNetwork.cidr.iter.tail.dropLast else hostNetwork.cidr.iter
  match ips.head?, ips.tail.getLast? with
  | some ipFrom, some ipTo =>
    (ipsFromRange t ipFrom ipTo).map fun availableIps => availableIps.filter fun ip => ip ≠ hostNetwork.hostIp && ip ≠ gateway
  | _, _ => .ok []

/-- `NetConf::from_json`, of the routes that the text holds. -/
def NetConf.fromRoutes (routes : Except String (List IpRoute)) (ifaName : String) : Except NetworkDetectionError NetConf :=
  match routes with
  | .error msg => .error (.jsonParseError msg)
  | .ok routes => do
    let gateway ← extractGateway t routes
    let hostNetwork ← extractHostNetwork t routes ifaName
    let availableIps ← (calculateAvailableIps t hostNetwork gateway).mapError .ipRange
    return ⟨gateway, hostNetwork.hostIp, hostNetwork.prefixBits, availableIps⟩

/-! ## Overrides -/

def overrideHostIp (conf : NetConf) (value : String) : Except String NetConf :=
  match t.parse value with
  | some ip => .ok { conf with hostIp := ip }
  | none => .error s!"invalid host ip '{value}'"

def overrideGatewayIp (conf : NetConf) (value : String) : Except String NetConf :=
  match t.parse value with
  | some ip => .ok { conf with gatewayIp := ip }
  | none => .error s!"invalid gateway ip '{value}'"

/-- A text without what is between the separators. -/
def splitOn (value : String) (separator : Char) : List String := (value.toList.splitOn separator).map String.ofList

/-- The addresses of one item of a list. -/
def overrideItem (item : String) : Except String (List IpAddr) :=
  if '/' ∈ item.toList then
    match t.parseCidr item with
    | some cidr => .ok (usableIps cidr)
    | none => .error s!"cannot parse '{item}' as cidr"
  else if '-' ∈ item.toList then
    match splitOn item '-' with
    | [ipFrom, ipTo] =>
      match t.parse ipFrom, t.parse ipTo with
      | some ipFrom, some ipTo => ipsFromRange t ipFrom ipTo
      | _, _ => .error s!"invalid ip range '{item}'"
    | _ => .error s!"invalid ip range '{item}'"
  else
    match t.parse item with
    | some ip => .ok [ip]
    | none => .error s!"invalid ip provided '{item}'"

def overrideIps (conf : NetConf) (value : String) : Except String NetConf := do
  let ips ← (splitOn value ',').mapM (overrideItem t)
  return { conf with availableIps := ips.flatten.filter fun ip => ip ≠ conf.hostIp && ip ≠ conf.gatewayIp }

/-! ## `bvup` -/

/-- What the command line gives. -/
structure CmdArgs where
  gatewayIp : Option String
  hostIp : Option String
  availableIps : Option String
  useHostNetwork : Bool

/-- What is answered when `bvup` asks; nothing with `--yes`, or where the value shown is kept. -/
structure Answers where
  gatewayIp : Option String
  hostIp : Option String
  subnetPrefix : Option String
  availableIps : Option String

/-- A value that is given overrides. -/
def overrideWith (override : NetConf → String → Except String NetConf) (value : Option String) (conf : NetConf) :
    Except String NetConf :=
  match value with
  | some value => override conf value
  | none => .ok conf

def overridePrefix (conf : NetConf) (value : String) : Except String NetConf :=
  match (Text.parseUsize value).filter (· < 256) with
  | some bits => .ok { conf with prefixBits := bits }
  | none => .error s!"invalid subnet prefix '{value}'"

/-- `NetConf::new(..).unwrap_or_default()`, from the routes that `ip route` shows. -/
def detected (routes : Except String (List IpRoute)) (ifaName : String) : NetConf :=
  match NetConf.fromRoutes t routes ifaName with
  | .ok conf => conf
  | .error _ => .default

/-- The gateway, the host and the prefix. -/
def overrideHost (conf : NetConf) (args : CmdArgs) (answers : Answers) : Except String NetConf := do
  let conf ← overrideWith (overrideGatewayIp t) args.gatewayIp conf
  let conf ← overrideWith (overrideHostIp t) args.hostIp conf
  let conf ← overrideWith (overrideGatewayIp t) answers.gatewayIp conf
  if conf.gatewayIp.isUnspecified then throw "gateway ip can't be unspecified"
  let conf ← overrideWith (overrideHostIp t) answers.hostIp conf
  if conf.hostIp.isUnspecified then throw "host ip can't be unspecified"
  overrideWith overridePrefix answers.subnetPrefix conf

/-- The list of the command line; without one and without a pool, the host has its own address for nodes. -/
def argPool (conf : NetConf) (args : CmdArgs) : Except String NetConf :=
  match args.availableIps with
  | some value => overrideIps t conf value
  | none => .ok (if conf.availableIps = [] ∨ args.useHostNetwork then { conf with availableIps := [conf.hostIp] } else conf)

/-- The pool, after the host and the gateway. -/
def overridePool (conf : NetConf) (args : CmdArgs) (answers : Answers) : Except String NetConf := do
  let conf ← argPool t conf args
  overrideWith (overrideIps t) answers.availableIps conf

def bvup (routes : Except String (List IpRoute)) (args : CmdArgs) (answers : Answers) (ifaName : String) : Except String NetConf := do
  let conf ← overrideHost t (detected t routes ifaName) args answers
  overridePool t conf args answers

end

/-! ## The addresses of an item -/

/-- An item of a list, or the subnet of the host. -/
inductive Item where
  | cidr (cidr : IpCidr)
  | range (ipFrom ipTo : IpAddr)
  | ip (ip : IpAddr)

/-- In a subnet, and neither its base nor its broadcast address if it has these. -/
def InCidr {w : Nat} (cidr : Cidr w) (addr : BitVec w) : Prop :=
  cidr.first.toNat ≤ addr.toNat ∧ addr.toNat ≤ cidr.last.toNat ∧ (cidr.bits ≤ 30 → addr ≠ cidr.first ∧ addr ≠ cidr.last)

/-- The addresses that an item gives to nodes. -/
def Item.Usable : Item → IpAddr → Prop
  | .cidr (.v4 c), .v4 addr => InCidr c addr
  | .cidr (.v6 c), .v6 addr => InCidr c addr
  | .range (.v4 ipFrom) (.v4 ipTo), .v4 addr => ipFrom.toNat ≤ addr.toNat ∧ addr.toNat ≤ ipTo.toNat
  | .range (.v6 ipFrom) (.v6 ipTo), .v6 addr => ipFrom.toNat ≤ addr.toNat ∧ addr.toNat ≤ ipTo.toNat
  | .ip single, addr => addr = single
  | _, _ => False

section

variable (t : IpText)

/-- What an item stands for, if it can be read. -/
def readItem (item : String) : Option Item :=
  if '/' ∈ item.toList then (t.parseCidr item).map .cidr
  else if '-' ∈ item.toList then
    match splitOn item '-' with
    | [ipFrom, ipTo] => (t.parse ipFrom).bind fun ipFrom => (t.parse ipTo).map (.range ipFrom)
    | _ => none
  else (t.parse item).map .ip

/-- The items of a list that can be read. -/
def readItems (value : String) : List Item := (splitOn value ',').filterMap (readItem t)

end

variable {t : IpText}

theorem v4_injective : Function.Injective IpAddr.v4 := fun _ _ h => by cases h; rfl

theorem v6_injective : Function.Injective IpAddr.v6 := fun _ _ h => by cases h; rfl

section Subnets

variable {w : Nat} {c : Cidr w} {addr : BitVec w}

/-- A subnet of which base and broadcast are taken off has others. -/
theorem inner_eq (hw : 32 ≤ w) (h : c.bits ≤ 30) : c.iter.tail.dropLast = range (c.first + 1#w) (c.last - 1#w) := by
  have hlast := c.first_lt_last (k := 2) (by omega)
  exact range_inner (by omega)

/-- `usableIps`, for the addresses of one kind. -/
def usableAddrs (c : Cidr w) : List (BitVec w) := if c.bits ≤ 30 then c.iter.tail.dropLast else c.iter

/-- The usable addresses are a range, of two or more unless the subnet is a single address. -/
theorem usableAddrs_range (hw : 32 ≤ w) (h : c.bits < w) : ∃ a b : BitVec w, a.toNat < b.toNat ∧ usableAddrs c = range a b := by
  unfold usableAddrs
  by_cases hbits : c.bits ≤ 30
  · have hlast := c.first_lt_last (k := 2) (by omega)
    have hlt := c.last.isLt
    rw [if_pos hbits, inner_eq hw hbits]
    refine ⟨_, _, ?_, rfl⟩
    rw [toNat_add_one (by omega), toNat_sub_one (by omega)]
    omega
  · have hlast := c.first_lt_last (k := 1) (by omega)
    rw [if_neg hbits]
    exact ⟨c.first, c.last, by omega, rfl⟩

theorem nodup_usableAddrs (c : Cidr w) : (usableAddrs c).Nodup := by
  have hiter : c.iter.Nodup := nodup_range ..
  unfold usableAddrs
  split
  · exact (hiter.sublist (List.tail_sublist _)).sublist (List.dropLast_sublist _)
  · exact hiter

theorem mem_usableAddrs (hw : 32 ≤ w) : addr ∈ usableAddrs c ↔ InCidr c addr := by
  unfold usableAddrs InCidr
  by_cases hbits : c.bits ≤ 30
  · have hlast := c.first_lt_last (k := 2) (by omega)
    have hlt := c.last.isLt
    rw [if_pos hbits, inner_eq hw hbits, mem_range, toNat_add_one (by omega), toNat_sub_one (by omega)]
    constructor
    · intro hmem
      refine ⟨by omega, by omega, fun _ => ⟨fun heq => ?_, fun heq => ?_⟩⟩
      · rw [heq] at hmem
        omega
      · rw [heq] at hmem
        omega
    · intro hin
      obtain ⟨hfirst, hlast', hne⟩ := hin
      obtain ⟨hbase, hbroadcast⟩ := hne hbits
      have hbase' : addr.toNat ≠ c.first.toNat := fun heq => hbase (BitVec.eq_of_toNat_eq heq)
      have hbroadcast' : addr.toNat ≠ c.last.toNat := fun heq => hbroadcast (BitVec.eq_of_toNat_eq heq)
      omega
  · rw [if_neg hbits, c.mem_iter]
    constructor
    · intro hmem
      exact ⟨hmem.1, hmem.2, fun hle => absurd hle hbits⟩
    · intro hin
      exact ⟨hin.1, hin.2.1⟩

end Subnets

theorem usableIps_v4 (c : Cidr 32) : usableIps (.v4 c) = (usableAddrs c).map .v4 := by
  show (if c.bits ≤ 30 then (c.iter.map IpAddr.v4).tail.dropLast else c.iter.map IpAddr.v4) = _
  unfold usableAddrs
  split
  · rw [← List.map_tail, ← List.map_dropLast]
  · rfl

theorem usableIps_v6 (c : Cidr 128) : usableIps (.v6 c) = (usableAddrs c).map .v6 := by
  show (if c.bits ≤ 30 then (c.iter.map IpAddr.v6).tail.dropLast else c.iter.map IpAddr.v6) = _
  unfold usableAddrs
  split
  · rw [← List.map_tail, ← List.map_dropLast]
  · rfl

/-- An item's addresses, each once. -/
structure Lists (ips : List IpAddr) (item : Item) : Prop where
  nodup : ips.Nodup
  mem : ∀ ip, ip ∈ ips ↔ item.Usable ip

theorem lists_usableIps (cidr : IpCidr) : Lists (usableIps cidr) (.cidr cidr) := by
  cases cidr with
  | v4 c =>
    rw [usableIps_v4]
    refine ⟨(nodup_usableAddrs c).map v4_injective, fun ip => ?_⟩
    cases ip with
    | v4 addr => rw [List.mem_map_of_injective v4_injective, mem_usableAddrs (Nat.le_refl _)]; rfl
    | v6 addr => simp [Item.Usable]
  | v6 c =>
    rw [usableIps_v6]
    refine ⟨(nodup_usableAddrs c).map v6_injective, fun ip => ?_⟩
    cases ip with
    | v4 addr => simp [Item.Usable]
    | v6 addr => rw [List.mem_map_of_injective v6_injective, mem_usableAddrs (by omega)]; rfl

theorem lists_ipsFromRange {ipFrom ipTo : IpAddr} {ips : List IpAddr} (h : ipsFromRange t ipFrom ipTo = .ok ips) :
    Lists ips (.range ipFrom ipTo) := by
  unfold ipsFromRange at h
  split at h
  · cases h
    refine ⟨(nodup_range ..).map v4_injective, fun ip => ?_⟩
    cases ip with
    | v4 addr => rw [List.mem_map_of_injective v4_injective, mem_range]; rfl
    | v6 addr => simp [Item.Usable]
  · cases h
    refine ⟨(nodup_range ..).map v6_injective, fun ip => ?_⟩
    cases ip with
    | v4 addr => simp [Item.Usable]
    | v6 addr => rw [List.mem_map_of_injective v6_injective, mem_range]; rfl
  · cases h

/-- **An item of a list**: it is read, and its addresses are listed. -/
theorem overrideItem_ok {item : String} {ips : List IpAddr} (h : overrideItem t item = .ok ips) :
    ∃ it, readItem t item = some it ∧ Lists ips it := by
  unfold overrideItem at h
  unfold readItem
  split at h
  · next hslash =>
    rw [if_pos hslash]
    split at h
    · next cidr hcidr =>
      cases h
      exact ⟨.cidr cidr, by rw [hcidr]; rfl, lists_usableIps cidr⟩
    · cases h
  · next hslash =>
    rw [if_neg hslash]
    split at h
    · next hdash =>
      rw [if_pos hdash]
      split at h
      · next ipFrom ipTo hsplit =>
        split at h
        · next first last hfirst hlast =>
          exact ⟨.range first last, by rw [hfirst, hlast]; rfl, lists_ipsFromRange h⟩
        · cases h
      · cases h
    · next hdash =>
      rw [if_neg hdash]
      split at h
      · next ip hip =>
        cases h
        exact ⟨.ip ip, by rw [hip]; rfl, List.nodup_singleton _, fun other => List.mem_singleton⟩
      · cases h

theorem mapM_forall₂ {α β ε : Type} {f : α → Except ε β} {as : List α} {bs : List β} (h : as.mapM f = .ok bs) :
    List.Forall₂ (fun a b => f a = .ok b) as bs := by
  induction as generalizing bs with
  | nil =>
    cases h
    exact .nil
  | cons a as ih =>
    rw [List.mapM_cons] at h
    cases ha : f a with
    | error e => simp [ha, bind, Except.bind] at h
    | ok b =>
      cases has : as.mapM f with
      | error e => simp [ha, has, bind, Except.bind] at h
      | ok rest =>
        simp only [ha, has, bind, Except.bind, pure, Except.pure, Except.ok.injEq] at h
        rw [← h]
        exact .cons ha (ih has)

theorem lists_readItems {items : List String} {ips : List (List IpAddr)}
    (h : List.Forall₂ (fun item ips => overrideItem t item = .ok ips) items ips) :
    List.Forall₂ Lists ips (items.filterMap (readItem t)) := by
  induction h with
  | nil => exact .nil
  | cons hitem _ ih =>
    obtain ⟨it, hread, hlists⟩ := overrideItem_ok hitem
    rw [List.filterMap_cons, hread]
    exact .cons hlists ih

/-- **The items of a list**: all are read, and their addresses are listed one item after the other. -/
theorem overrideIps_ok {conf conf' : NetConf} {value : String} (h : overrideIps t conf value = .ok conf') :
    ∃ ips : List (List IpAddr), List.Forall₂ Lists ips (readItems t value) ∧
      conf' = { conf with availableIps := ips.flatten.filter fun ip => ip ≠ conf.hostIp && ip ≠ conf.gatewayIp } := by
  unfold overrideIps at h
  cases hips : (splitOn value ',').mapM (overrideItem t) with
  | error e => simp [hips, bind, Except.bind] at h
  | ok ips =>
    simp only [hips, bind, Except.bind, pure, Except.pure, Except.ok.injEq] at h
    exact ⟨ips, lists_readItems (mapM_forall₂ hips), h.symm⟩

theorem mem_flatten {ips : List (List IpAddr)} {items : List Item} (h : List.Forall₂ Lists ips items) {ip : IpAddr} :
    ip ∈ ips.flatten ↔ ∃ item ∈ items, item.Usable ip := by
  induction h with
  | nil => simp
  | cons hlists _ ih => simp [ih, hlists.mem]

/-- What is kept of the lists is there once if no two items have it. -/
theorem nodup_flatten_filter {ips : List (List IpAddr)} {items : List Item} (h : List.Forall₂ Lists ips items) (keep : IpAddr → Bool) :
    (ips.flatten.filter keep).Nodup ↔ items.Pairwise fun a b => ∀ ip, a.Usable ip → b.Usable ip → keep ip = false := by
  induction h with
  | nil => simp
  | @cons l item ips items hlists hrest ih =>
    rw [List.flatten_cons, List.filter_append, List.nodup_append, List.pairwise_cons, ih]
    constructor
    · intro hnodup
      obtain ⟨_, hothers, hdisjoint⟩ := hnodup
      refine ⟨fun other hother ip hip hip' => ?_, hothers⟩
      by_contra hkeep
      have hkept : keep ip = true := by simpa using hkeep
      have hmem := List.mem_filter.mpr ⟨(hlists.mem ip).mpr hip, hkept⟩
      have hmem' := List.mem_filter.mpr ⟨(mem_flatten hrest).mpr ⟨other, hother, hip'⟩, hkept⟩
      exact hdisjoint ip hmem ip hmem' rfl
    · intro hpairs
      obtain ⟨hdisjoint, hothers⟩ := hpairs
      refine ⟨hlists.nodup.filter _, hothers, fun ip hmem ip' hmem' heq => ?_⟩
      subst heq
      obtain ⟨hip, hkept⟩ := List.mem_filter.mp hmem
      obtain ⟨other, hother, hip'⟩ := (mem_flatten hrest).mp (List.mem_filter.mp hmem').1
      rw [hdisjoint other hother ip ((hlists.mem ip).mp hip) hip'] at hkept
      cases hkept

/-! ## The detected pool -/

section

variable {w : Nat} {c : Cidr w} {mk : BitVec w → IpAddr} {cidr : IpCidr} {hostIp gateway : IpAddr}

/-- A subnet of more than one address gives what a list of it gives. -/
theorem calculateAvailableIps_of_lt (hw : 32 ≤ w) (husable : usableIps cidr = (usableAddrs c).map mk)
    (hrange : ∀ a b, ipsFromRange t (mk a) (mk b) = .ok ((range a b).map mk)) (hbits : c.bits < w) :
    calculateAvailableIps t ⟨hostIp, cidr, getBits cidr⟩ gateway =
      .ok ((usableIps cidr).filter fun ip => ip ≠ hostIp && ip ≠ gateway) := by
  obtain ⟨a, b, hlt, heq⟩ := usableAddrs_range hw hbits
  obtain ⟨hhead, hlast⟩ := range_ends hlt
  have hips : (if getBits cidr ≤ 30 then cidr.iter.tail.dropLast else cidr.iter) = (range a b).map mk := by
    rw [← heq]
    exact husable
  unfold calculateAvailableIps
  simp only [hips]
  rw [List.head?_map, ← List.map_tail, List.getLast?_map, hhead, hlast, husable, heq]
  simp only [Option.map_some, hrange]
  rfl

/-- A single address gives an empty pool. -/
theorem calculateAvailableIps_of_eq (hw : 32 ≤ w) (husable : usableIps cidr = (usableAddrs c).map mk) (hbits : c.bits = w) :
    calculateAvailableIps t ⟨hostIp, cidr, getBits cidr⟩ gateway = .ok [] := by
  have hips : (if getBits cidr ≤ 30 then cidr.iter.tail.dropLast else cidr.iter) = [mk c.first] := by
    have hsingle : usableAddrs c = [c.first] := by
      unfold usableAddrs
      rw [if_neg (by omega)]
      unfold Cidr.iter
      rw [c.last_eq_first hbits, range_self]
    show usableIps cidr = _
    rw [husable, hsingle]
    rfl
  unfold calculateAvailableIps
  simp only [hips]
  rfl

end

theorem calculateAvailableIps_eq (t : IpText) (hostIp : IpAddr) (cidr : IpCidr) (gateway : IpAddr) :
    calculateAvailableIps t ⟨hostIp, cidr, getBits cidr⟩ gateway = .ok [] ∨
      calculateAvailableIps t ⟨hostIp, cidr, getBits cidr⟩ gateway =
        .ok ((usableIps cidr).filter fun ip => ip ≠ hostIp && ip ≠ gateway) := by
  cases cidr with
  | v4 c =>
    obtain heq | hlt := Nat.eq_or_lt_of_le c.bits_le
    · exact .inl (calculateAvailableIps_of_eq (Nat.le_refl _) (usableIps_v4 c) heq)
    · exact .inr (calculateAvailableIps_of_lt (Nat.le_refl _) (usableIps_v4 c) (fun _ _ => rfl) hlt)
  | v6 c =>
    obtain heq | hlt := Nat.eq_or_lt_of_le c.bits_le
    · exact .inl (calculateAvailableIps_of_eq (by omega) (usableIps_v6 c) heq)
    · exact .inr (calculateAvailableIps_of_lt (by omega) (usableIps_v6 c) (fun _ _ => rfl) hlt)

/-- **The two computations agree**: a list of one subnet gives what is detected from it. -/
theorem overrideIps_cidr {item : String} {c : Cidr 32} (hbits : c.bits ≤ 31) (hcidr : t.parseCidr item = some (.v4 c))
    (hslash : '/' ∈ item.toList) (hcomma : ',' ∉ item.toList) (conf : NetConf) :
    overrideIps t conf item =
      (calculateAvailableIps t ⟨conf.hostIp, .v4 c, c.bits⟩ conf.gatewayIp).map fun ips => { conf with availableIps := ips } := by
  have hsplit : splitOn item ',' = [item] := by
    unfold splitOn
    rw [List.splitOn_eq_splitOnP, List.splitOnP_eq_singleton fun x hx => ?_]
    · exact congrArg (fun text => [text]) String.ofList_toList
    · exact beq_false_of_ne fun heq => hcomma (heq ▸ hx)
  have hitem : overrideItem t item = .ok (usableIps (.v4 c)) := by
    unfold overrideItem
    rw [if_pos hslash, hcidr]
  have hcalc : calculateAvailableIps t ⟨conf.hostIp, .v4 c, c.bits⟩ conf.gatewayIp = _ :=
    calculateAvailableIps_of_lt (Nat.le_refl _) (usableIps_v4 c) (fun _ _ => rfl) (by omega)
  unfold overrideIps
  rw [hsplit, hcalc]
  simp only [List.mapM_cons, hitem, List.mapM_nil, bind, Except.bind, pure, Except.pure, Except.map]
  simp

/-! ## The pool of a host -/

/-- The last of the values that are given, or the one that is there. -/
def lastIp (t : IpText) (ip : IpAddr) (values : List (Option String)) : IpAddr :=
  ((values.filterMap id).filterMap t.parse).getLastD ip

section Bvup

variable (t : IpText) (routes : Except String (List IpRoute)) (ifaName : String) (args : CmdArgs) (answers : Answers)

def finalGatewayIp : IpAddr := lastIp t (detected t routes ifaName).gatewayIp [args.gatewayIp, answers.gatewayIp]

def finalHostIp : IpAddr := lastIp t (detected t routes ifaName).hostIp [args.hostIp, answers.hostIp]

/-- The list that the pool is made of, if one is given. -/
def givenIps : Option String := answers.availableIps <|> args.availableIps

/-- The items that the pool is made of: those of the list, or the subnet of the host. -/
def configuredItems : List Item :=
  match givenIps args answers with
  | some value => readItems t value
  | none =>
    match routes with
    | .ok routes =>
      match extractHostNetwork t routes ifaName with
      | .ok hostNetwork => [.cidr hostNetwork.cidr]
      | .error _ => []
    | .error _ => []

/-- There is no list, and `bvup` takes the address of the host. -/
def FallsBack : Prop := givenIps args answers = none ∧ ((detected t routes ifaName).availableIps = [] ∨ args.useHostNetwork = true)

/-- The pool: each address once, and just the usable ones of the items but for the host and the gateway. -/
structure PoolSound (conf : NetConf) : Prop where
  nodup : conf.availableIps.Nodup
  exact : ∀ ip, ip ∈ conf.availableIps ↔
    (∃ item ∈ configuredItems t routes ifaName args answers, item.Usable ip) ∧ ip ≠ conf.hostIp ∧ ip ≠ conf.gatewayIp

/-- Of a list, no two items have an address but the host's and the gateway's. Without a list, the usable addresses of the
subnet that are the host or the gateway in the end are those that were detected so. -/
def PoolClear : Prop :=
  match givenIps args answers with
  | some value =>
    (readItems t value).Pairwise fun a b => ∀ ip, a.Usable ip → b.Usable ip →
      ip = finalHostIp t routes ifaName args answers ∨ ip = finalGatewayIp t routes ifaName args answers
  | none =>
    ∀ item ∈ configuredItems t routes ifaName args answers, ∀ ip, item.Usable ip →
      (ip = (detected t routes ifaName).hostIp ∨ ip = (detected t routes ifaName).gatewayIp ↔
        ip = finalHostIp t routes ifaName args answers ∨ ip = finalGatewayIp t routes ifaName args answers)

/-- A list of one subnet gives what is detected from it. -/
def SameAsDetected : Prop :=
  ∀ (c : Cidr 32) (item : String) (conf : NetConf), c.bits ≤ 31 → t.parseCidr item = some (.v4 c) → '/' ∈ item.toList →
    ',' ∉ item.toList → overrideIps t conf item =
      (calculateAvailableIps t ⟨conf.hostIp, .v4 c, c.bits⟩ conf.gatewayIp).map fun ips => { conf with availableIps := ips }

end Bvup

section

variable {routes : Except String (List IpRoute)} {ifaName : String} {args : CmdArgs} {answers : Answers} {conf conf' : NetConf}

theorem lastIp_lastIp (t : IpText) (ip : IpAddr) (first second : Option String) :
    lastIp t (lastIp t ip [first]) [second] = lastIp t ip [first, second] := by
  unfold lastIp
  cases first with
  | none => rfl
  | some first =>
    cases second with
    | none => rfl
    | some second =>
      cases hfirst : t.parse first <;> cases hsecond : t.parse second <;> simp [hfirst, hsecond]

theorem overrideGateway_ok {value : Option String} (h : overrideWith (overrideGatewayIp t) value conf = .ok conf') :
    conf' = { conf with gatewayIp := lastIp t conf.gatewayIp [value] } := by
  unfold overrideWith overrideGatewayIp at h
  split at h
  · split at h
    · next hparse =>
      cases h
      simp [lastIp, hparse]
    · cases h
  · cases h
    rfl

theorem overrideHostIp_ok {value : Option String} (h : overrideWith (overrideHostIp t) value conf = .ok conf') :
    conf' = { conf with hostIp := lastIp t conf.hostIp [value] } := by
  unfold overrideWith overrideHostIp at h
  split at h
  · split at h
    · next hparse =>
      cases h
      simp [lastIp, hparse]
    · cases h
  · cases h
    rfl

theorem overridePrefix_ok {value : Option String} (h : overrideWith overridePrefix value conf = .ok conf') :
    ∃ bits, conf' = { conf with prefixBits := bits } := by
  unfold overrideWith overridePrefix at h
  split at h
  · split at h
    · next bits _ =>
      cases h
      exact ⟨bits, rfl⟩
    · cases h
  · cases h
    exact ⟨conf.prefixBits, rfl⟩

/-- What is overridden before the pool. -/
theorem overrideHost_ok (h : overrideHost t conf args answers = .ok conf') :
    conf'.hostIp = lastIp t conf.hostIp [args.hostIp, answers.hostIp] ∧
      conf'.gatewayIp = lastIp t conf.gatewayIp [args.gatewayIp, answers.gatewayIp] ∧ conf'.availableIps = conf.availableIps := by
  unfold overrideHost at h
  obtain ⟨conf₁, h₁, h⟩ := Except.of_bind_ok h
  obtain ⟨conf₂, h₂, h⟩ := Except.of_bind_ok h
  obtain ⟨conf₃, h₃, h⟩ := Except.of_bind_ok h
  split at h
  · cases h
  obtain ⟨conf₄, h₄, h⟩ := Except.of_bind_ok h
  split at h
  · cases h
  rw [overrideGateway_ok h₁] at h₂
  rw [overrideHostIp_ok h₂] at h₃
  rw [overrideGateway_ok h₃] at h₄
  rw [overrideHostIp_ok h₄] at h
  obtain ⟨bits, hconf⟩ := overridePrefix_ok h
  rw [hconf]
  exact ⟨lastIp_lastIp .., lastIp_lastIp .., rfl⟩

/-- The command line changes the pool alone. -/
theorem argPool_ok (h : argPool t conf args = .ok conf') : ∃ ips, conf' = { conf with availableIps := ips } := by
  unfold argPool at h
  split at h
  · obtain ⟨_, _, rfl⟩ := overrideIps_ok h
    exact ⟨_, rfl⟩
  · cases h
    split
    · exact ⟨_, rfl⟩
    · exact ⟨conf.availableIps, rfl⟩

/-- A pool of a list. -/
theorem overridePool_given {value : String} (h : overridePool t conf args answers = .ok conf')
    (hgiven : givenIps args answers = some value) :
    ∃ ips : List (List IpAddr), List.Forall₂ Lists ips (readItems t value) ∧
      conf' = { conf with availableIps := ips.flatten.filter fun ip => ip ≠ conf.hostIp && ip ≠ conf.gatewayIp } := by
  unfold overridePool at h
  obtain ⟨conf₁, h₁, h₂⟩ := Except.of_bind_ok h
  unfold givenIps at hgiven
  cases hanswer : answers.availableIps with
  | none =>
    rw [hanswer] at hgiven h₂
    have harg : args.availableIps = some value := hgiven
    unfold argPool at h₁
    rw [harg] at h₁
    cases h₂
    exact overrideIps_ok h₁
  | some answer =>
    rw [hanswer] at hgiven h₂
    cases hgiven
    obtain ⟨_, rfl⟩ := argPool_ok h₁
    exact overrideIps_ok h₂

/-- The detected pool is kept. -/
theorem overridePool_kept (h : overridePool t conf args answers = .ok conf') (hgiven : givenIps args answers = none)
    (hpool : conf.availableIps ≠ []) (hnetwork : args.useHostNetwork = false) : conf' = conf := by
  unfold overridePool at h
  obtain ⟨conf₁, h₁, h₂⟩ := Except.of_bind_ok h
  unfold givenIps at hgiven
  cases hanswer : answers.availableIps with
  | some answer =>
    rw [hanswer] at hgiven
    cases hgiven
  | none =>
    rw [hanswer] at hgiven h₂
    have harg : args.availableIps = none := hgiven
    unfold argPool at h₁
    rw [harg, hnetwork] at h₁
    simp only [hpool, Bool.false_eq_true, or_self, if_false] at h₁
    cases h₁
    cases h₂
    rfl

theorem extractHostNetworkFrom_prefix {table : List IpRoute} {passed : List IpRoute} {hostNetwork : HostNetwork}
    (h : extractHostNetworkFrom t ifaName passed table = .ok hostNetwork) : hostNetwork.prefixBits = getBits hostNetwork.cidr := by
  induction table generalizing passed with
  | nil => cases h
  | cons route rest ih =>
    unfold extractHostNetworkFrom at h
    split at h
    · split at h
      · exact ih h
      · split at h
        · cases h
        · split at h
          · cases h
          · split at h
            · cases h
            · cases h
              rfl
    · exact ih h

/-- A pool that was detected is that of the subnet. -/
theorem detected_pool (h : (detected t routes ifaName).availableIps ≠ []) : ∃ (table : List IpRoute) (hostNetwork : HostNetwork),
    routes = .ok table ∧ extractHostNetwork t table ifaName = .ok hostNetwork ∧
      (detected t routes ifaName).availableIps = (usableIps hostNetwork.cidr).filter fun ip =>
        ip ≠ (detected t routes ifaName).hostIp && ip ≠ (detected t routes ifaName).gatewayIp := by
  unfold detected at h ⊢
  cases hconf : NetConf.fromRoutes t routes ifaName with
  | error e =>
    rw [hconf] at h
    exact absurd rfl h
  | ok conf =>
    rw [hconf] at h
    cases routes with
    | error msg => cases hconf
    | ok table =>
      obtain ⟨gateway, _, hconf⟩ := Except.of_bind_ok hconf
      obtain ⟨hostNetwork, hhost, hconf⟩ := Except.of_bind_ok hconf
      obtain ⟨ips, hips, hconf⟩ := Except.of_bind_ok hconf
      cases hconf
      refine ⟨table, hostNetwork, rfl, hhost, ?_⟩
      have hprefix := extractHostNetworkFrom_prefix hhost
      obtain ⟨hostIp, cidr, bits⟩ := hostNetwork
      obtain rfl : bits = getBits cidr := hprefix
      obtain heq | heq := calculateAvailableIps_eq t hostIp cidr gateway
      · rw [heq] at hips
        cases hips
        exact absurd rfl h
      · rw [heq] at hips
        cases hips
        rfl

/-- A pool of a list is sound if no two items have an address, but the host's and the gateway's. -/
theorem poolSound_given {value : String} (hgiven : givenIps args answers = some value) {ips : List (List IpAddr)}
    (hlists : List.Forall₂ Lists ips (readItems t value)) (hhost : conf.hostIp = finalHostIp t routes ifaName args answers)
    (hgateway : conf.gatewayIp = finalGatewayIp t routes ifaName args answers)
    (hpool : conf.availableIps = ips.flatten.filter fun ip => ip ≠ conf.hostIp && ip ≠ conf.gatewayIp) :
    PoolSound t routes ifaName args answers conf ↔ PoolClear t routes ifaName args answers := by
  have hclear : PoolClear t routes ifaName args answers ↔ conf.availableIps.Nodup := by
    unfold PoolClear
    rw [hgiven, hpool, nodup_flatten_filter hlists]
    simp only [Bool.and_eq_false_iff, decide_eq_false_iff_not, not_not, ne_eq, hhost, hgateway]
  rw [hclear]
  constructor
  · exact PoolSound.nodup
  · intro hnodup
    refine ⟨hnodup, fun ip => ?_⟩
    unfold configuredItems
    rw [hgiven, hpool, List.mem_filter, mem_flatten hlists]
    simp

/-- The detected pool is sound if the host and the gateway have stayed, as far as they are usable. -/
theorem poolSound_detected (hgiven : givenIps args answers = none) {table : List IpRoute} {hostNetwork : HostNetwork}
    (hroutes : routes = .ok table) (hnetwork : extractHostNetwork t table ifaName = .ok hostNetwork)
    (hhost : conf.hostIp = finalHostIp t routes ifaName args answers)
    (hgateway : conf.gatewayIp = finalGatewayIp t routes ifaName args answers)
    (hpool : conf.availableIps = (usableIps hostNetwork.cidr).filter fun ip =>
      ip ≠ (detected t routes ifaName).hostIp && ip ≠ (detected t routes ifaName).gatewayIp) :
    PoolSound t routes ifaName args answers conf ↔ PoolClear t routes ifaName args answers := by
  have hitems : configuredItems t routes ifaName args answers = [.cidr hostNetwork.cidr] := by
    unfold configuredItems
    rw [hgiven, hroutes]
    simp only [hnetwork]
  have hlists := lists_usableIps hostNetwork.cidr
  have hclear : PoolClear t routes ifaName args answers ↔ ∀ ip, (Item.cidr hostNetwork.cidr).Usable ip →
      (ip = (detected t routes ifaName).hostIp ∨ ip = (detected t routes ifaName).gatewayIp ↔
        ip = conf.hostIp ∨ ip = conf.gatewayIp) := by
    unfold PoolClear
    rw [hgiven, hitems, hhost, hgateway]
    simp
  rw [hclear]
  constructor
  · intro hsound ip husable
    have hexact := hsound.exact ip
    rw [hitems, hpool, List.mem_filter, hlists.mem] at hexact
    simp only [List.mem_singleton, exists_eq_left, husable, true_and, Bool.and_eq_true, decide_eq_true_eq] at hexact
    rw [← not_iff_not, not_or, not_or]
    exact hexact
  · intro hsame
    refine ⟨?_, fun ip => ?_⟩
    · rw [hpool]
      exact hlists.nodup.filter _
    · rw [hitems, hpool, List.mem_filter, hlists.mem]
      simp only [List.mem_singleton, exists_eq_left, Bool.and_eq_true, decide_eq_true_eq]
      refine and_congr_right fun husable => ?_
      have hiff := hsame ip husable
      rw [← not_iff_not, not_or, not_or] at hiff
      exact hiff

end

/-- **The pool is sound** exactly where no two items of a list have an address but the host's and the gateway's, or, without a
list, the host and the gateway are in the end those that were detected, as far as they are usable addresses of the subnet. A
list of one subnet gives what is detected from it. -/
theorem pool_sound_iff (t : IpText) {routes : Except String (List IpRoute)} {ifaName : String} {args : CmdArgs} {answers : Answers}
    {conf : NetConf} (h : bvup t routes args answers ifaName = .ok conf) (hfallback : ¬ FallsBack t routes ifaName args answers) :
    PoolSound t routes ifaName args answers conf ∧ SameAsDetected t ↔ PoolClear t routes ifaName args answers := by
  have hsame : SameAsDetected t := fun c item conf hbits hcidr hslash hcomma => overrideIps_cidr hbits hcidr hslash hcomma conf
  rw [and_iff_left hsame]
  unfold bvup at h
  obtain ⟨conf₁, h₁, h₂⟩ := Except.of_bind_ok h
  obtain ⟨hhost, hgateway, hpool⟩ := overrideHost_ok h₁
  cases hgiven : givenIps args answers with
  | some value =>
    obtain ⟨ips, hlists, rfl⟩ := overridePool_given h₂ hgiven
    exact poolSound_given hgiven hlists hhost hgateway rfl
  | none =>
    have hdetected : (detected t routes ifaName).availableIps ≠ [] := fun hempty => hfallback ⟨hgiven, .inl hempty⟩
    have hnetwork : args.useHostNetwork = false := by
      by_contra hnetwork
      exact hfallback ⟨hgiven, .inr (by simpa using hnetwork)⟩
    obtain rfl := overridePool_kept h₂ hgiven (hpool ▸ hdetected) hnetwork
    obtain ⟨table, hostNetwork, hroutes, hextract, hips⟩ := detected_pool hdetected
    exact poolSound_detected hgiven hroutes hextract hhost hgateway (hpool.trans hips)

/-! ## A host -/

/-- 10.0.0.0/29, as it is read and shown. -/
def hostCidr : Cidr 32 := ⟨0x0a000000, 29, by decide, by decide⟩

/-- The texts of the host. -/
def hostText : IpText where
  parse
    | "10.0.0.1" => some (.v4 0x0a000001)
    | "10.0.0.2" => some (.v4 0x0a000002)
    | "10.0.0.3" => some (.v4 0x0a000003)
    | _ => none
  parseCidr
    | "10.0.0.0/29" => some (.v4 hostCidr)
    | _ => none
  display _ := ""

def hostRoutes : List IpRoute :=
  [⟨some "default", some "10.0.0.1", some "br0", none, some "static"⟩,
    ⟨some "10.0.0.0/29", none, some "br0", some "10.0.0.2", some "kernel"⟩]

def noArgs : CmdArgs := ⟨none, none, none, false⟩

/-- Whatever is asked, the value shown is kept. -/
def kept : Answers := ⟨none, none, none, none⟩

def hostPool : List IpAddr := [.v4 0x0a000003, .v4 0x0a000004, .v4 0x0a000005, .v4 0x0a000006]

theorem pool_sound_host : ∃ conf, bvup hostText (.ok hostRoutes) noArgs kept "br0" = .ok conf ∧ conf.availableIps = hostPool ∧
    PoolSound hostText (.ok hostRoutes) "br0" noArgs kept conf := by
  have hbvup : bvup hostText (.ok hostRoutes) noArgs kept "br0" =
      .ok ⟨.v4 0x0a000001, .v4 0x0a000002, 29, hostPool⟩ := by decide
  have hfallback : ¬ FallsBack hostText (.ok hostRoutes) "br0" noArgs kept := by
    unfold FallsBack
    decide
  have hclear : PoolClear hostText (.ok hostRoutes) "br0" noArgs kept := fun _ _ _ _ => Iff.rfl
  exact ⟨_, hbvup, rfl, ((pool_sound_iff hostText hbvup hfallback).mpr hclear).1⟩

/-- **The host in its own pool**: it is given another address when it is asked for. -/
theorem host_in_pool : ¬ ∀ (t : IpText) (routes : Except String (List IpRoute)) (ifaName : String) (args : CmdArgs)
    (answers : Answers) (conf : NetConf), bvup t routes args answers ifaName = .ok conf →
    ¬ FallsBack t routes ifaName args answers → PoolSound t routes ifaName args answers conf ∧ SameAsDetected t := by
  intro h
  have hbvup : bvup hostText (.ok hostRoutes) noArgs { kept with hostIp := some "10.0.0.3" } "br0" =
      .ok ⟨.v4 0x0a000001, .v4 0x0a000003, 29, hostPool⟩ := by decide
  have hfallback : ¬ FallsBack hostText (.ok hostRoutes) "br0" noArgs { kept with hostIp := some "10.0.0.3" } := by
    unfold FallsBack
    decide
  have hsound := (h _ _ _ _ _ _ hbvup hfallback).1
  exact ((hsound.exact (.v4 0x0a000003)).mp (by decide)).2.1 rfl

end Net

end Blockvisor
