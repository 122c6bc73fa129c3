/-
The firewall rules of a node as arguments of `ufw` (`ufw_wrapper.rs`), and what
they do to a packet. The rules of a configuration are given to `ufw` from the
last to the first, each one for all its addresses and ports, and the two
defaults come after them.

`Ufw` is what `ufw` does with its arguments: it reads a rule from them, adds it
after those it has, and goes by the first rule that matches a packet. What an
address matches is left to `covers`.
-/
import Mathlib
import Blockvisor.Bv.Site

namespace Blockvisor

open Firewall

/-! ## The arguments -/

def Firewall.Action.variantToString : Action → String
  | .allow => "allow"
  | .deny => "deny"
  | .reject => "reject"

def Firewall.Direction.variantToString : Direction → String
  | .out => "out"
  | .in_ => "in"

def Firewall.Protocol.variantToString : Protocol → String
  | .tcp => "tcp"
  | .udp => "udp"
  | .both => "both"

structure RuleArgs where
  policy : String
  direction : Direction
  protocol : Option String
  ipFrom : String
  ipTo : String
  port : Option String
  name : String

namespace RuleArgs

def fromRule (config : NodeFirewallConfig) (rule : Rule) (proto : Option String) (ip : String) : List RuleArgs :=
  let name := s!"{config.id} {rule.name}"
  let (ipFrom, ipTo) :=
    match rule.direction with
    | .out => (config.ip, ip)
    | .in_ => (ip, config.ip)
  if rule.ports.isEmpty then [⟨rule.action.variantToString, rule.direction, proto, ipFrom, ipTo, none, name⟩]
  else
    rule.ports.map fun port =>
      ⟨rule.action.variantToString, rule.direction, proto, ipFrom, ipTo, some (toString port), name⟩

/-- No protocol is given for both of them. -/
def proto (rule : Rule) : Option String :=
  rule.protocol.bind fun proto => if proto ≠ .both then some proto.variantToString else none

def fromRules (config : NodeFirewallConfig) : List RuleArgs :=
  (config.config.rules.reverse.flatMap fun rule =>
    if rule.ips.isEmpty then fromRule config rule (proto rule) "any"
    else rule.ips.flatMap fun ip => fromRule config rule (proto rule) ip) ++
  [⟨config.config.defaultIn.variantToString, .in_, none, "any", config.ip, none, s!"{config.id} default in"⟩,
    ⟨config.config.defaultOut.variantToString, .out, none, config.ip, "any", none, s!"{config.id} default out"⟩]

/-- An argument with its value, if there is one. -/
def pushed (arg : String) : Option String → List String
  | some value => [arg, value]
  | none => []

def asVec (args : RuleArgs) (iface : Option String) : List String :=
  (match iface with
    | some iface =>
      ["route", args.policy, args.direction.variantToString, "on", iface, "from", args.ipFrom, "to", args.ipTo]
    | none => [args.policy, args.direction.variantToString, "from", args.ipFrom, "to", args.ipTo]) ++
  pushed "port" args.port ++ pushed "proto" args.protocol ++ ["comment", args.name]

end RuleArgs

/-- The commands that `apply_firewall_config` adds the rules of a node with. -/
def NodeFirewallConfig.commands (config : NodeFirewallConfig) : List (List String) :=
  (RuleArgs.fromRules config).map (·.asVec config.bridge)

/-! ## What ufw does with them -/

/-- The protocol of a packet, and the port it goes to. -/
inductive Transport where
  | tcp (port : Nat)
  | udp (port : Nat)
  | other

/-- A packet, as it is seen on an interface; `routed` if it is not of the host itself. -/
structure Packet (Addr : Type) where
  routed : Bool
  direction : Direction
  iface : String
  src : Addr
  dst : Addr
  transport : Transport

def Transport.port : Transport → Option Nat
  | .tcp port => some port
  | .udp port => some port
  | .other => none

/-- The protocol is the one given. `Both` is the same as none given, which is no restriction. -/
def Transport.isOf : Transport → Option Protocol → Bool
  | .tcp _, some .udp => false
  | .udp _, some .tcp => false
  | .other, some .tcp => false
  | .other, some .udp => false
  | _, _ => true

namespace Ufw

structure UfwRule where
  action : Action
  route : Bool
  direction : Direction
  iface : Option String
  ipFrom : String
  ipTo : String
  port : Option Nat
  protocol : Option Protocol

def parsePolicy : String → Option Action
  | "allow" => some .allow
  | "deny" => some .deny
  | "reject" => some .reject
  | _ => none

def parseDirection : String → Option Direction
  | "out" => some .out
  | "in" => some .in_
  | _ => none

def parseProtocol : String → Option Protocol
  | "tcp" => some .tcp
  | "udp" => some .udp
  | _ => none

/-- The port and the protocol, and the rest of the arguments. -/
def parsePort : List String → Option (Option Nat × List String)
  | "port" :: port :: rest => port.toNat?.map fun port => (some port, rest)
  | rest => some (none, rest)

def parseProto : List String → Option (Option Protocol × List String)
  | "proto" :: protocol :: rest => (parseProtocol protocol).map fun protocol => (some protocol, rest)
  | rest => some (none, rest)

def parseEnds (route : Bool) (policy direction : String) (iface : Option String) : List String → Option UfwRule
  | "from" :: ipFrom :: "to" :: ipTo :: rest => do
    let (port, rest) ← parsePort rest
    let (protocol, rest) ← parseProto rest
    match rest with
    | ["comment", _] => pure ⟨← parsePolicy policy, route, ← parseDirection direction, iface, ipFrom, ipTo, port, protocol⟩
    | _ => none
  | _ => none

def parse : List String → Option UfwRule
  | "route" :: policy :: direction :: "on" :: iface :: rest => parseEnds true policy direction (some iface) rest
  | policy :: direction :: rest => parseEnds false policy direction none rest
  | _ => none

/-- The rules that are there after the commands, unless one of them is refused. -/
def add : List (List String) → Option (List UfwRule)
  | [] => some []
  | args :: rest => do
    let rule ← parse args
    let rules ← add rest
    pure (rule :: rules)

variable {Addr : Type} (covers : String → Addr → Bool)

def UfwRule.admits (rule : UfwRule) (p : Packet Addr) : Bool :=
  rule.route = p.routed ∧ rule.direction = p.direction ∧ (∀ iface, rule.iface = some iface → iface = p.iface) ∧
    covers rule.ipFrom p.src ∧ covers rule.ipTo p.dst ∧ p.transport.isOf rule.protocol ∧
    (rule.port = none ∨ p.transport.port = rule.port)

/-- The first rule that matches decides. -/
def decide (rules : List UfwRule) (p : Packet Addr) : Option Action := (rules.find? (·.admits covers p)).map (·.action)

end Ufw

/-! ## What the configuration says -/

section

variable {Addr : Type} (covers : String → Addr → Bool)

/-- The other end of a packet of the node. -/
def Packet.remote (p : Packet Addr) : Addr :=
  match p.direction with
  | .out => p.dst
  | .in_ => p.src

/-- No addresses, ports or protocol are no restriction. -/
def Firewall.Rule.admits (rule : Rule) (p : Packet Addr) : Bool :=
  rule.direction = p.direction ∧ (rule.ips = [] ∨ ∃ ip ∈ rule.ips, covers ip p.remote) ∧
    p.transport.isOf rule.protocol ∧ (rule.ports = [] ∨ ∃ port ∈ rule.ports, p.transport.port = some port)

/-- The last rule that matches decides, and the default of the direction if there is none. -/
def Firewall.Config.decide (config : Config) (p : Packet Addr) : Action :=
  match (config.rules.filter (·.admits covers p)).getLast? with
  | some rule => rule.action
  | none =>
    match p.direction with
    | .out => config.defaultOut
    | .in_ => config.defaultIn

/-- The packet goes from or to the node, through its bridge if it has one. -/
structure NodeFirewallConfig.Concerns (config : NodeFirewallConfig) (p : Packet Addr) : Prop where
  routed : p.routed = config.bridge.isSome
  iface : ∀ iface, config.bridge = some iface → iface = p.iface
  own : covers config.ip (match p.direction with
    | .out => p.src
    | .in_ => p.dst)

end

/-! ## The arguments read back -/

namespace Ufw

theorem parsePolicy_variant (action : Action) : parsePolicy action.variantToString = some action := by cases action <;> rfl

theorem parseDirection_variant (direction : Direction) : parseDirection direction.variantToString = some direction := by
  cases direction <;> rfl

/-- The protocol as it is given to `ufw`. -/
def given : Option Protocol → Option Protocol
  | some .tcp => some .tcp
  | some .udp => some .udp
  | _ => none

theorem isOf_given (t : Transport) (proto : Option Protocol) : t.isOf (given proto) = t.isOf proto := by
  cases t <;> rcases proto with _ | _ | _ | _ <;> rfl

theorem parsePort_toString (port : Option Nat) (rest : List String) (hrest : rest.head? ≠ some "port") :
    parsePort (RuleArgs.pushed "port" (port.map toString) ++ rest) = some (port, rest) := by
  cases port with
  | some port =>
    show (port.repr.toNat?.map fun port => (some port, rest)) = _
    rw [Nat.toNat?_repr]
    rfl
  | none =>
    show parsePort rest = _
    unfold parsePort
    split
    · exact absurd rfl hrest
    · rfl

theorem parseProto_given (rule : Rule) (rest : List String) (hrest : rest.head? ≠ some "proto") :
    parseProto (RuleArgs.pushed "proto" (RuleArgs.proto rule) ++ rest) = some (given rule.protocol, rest) := by
  have hnone : parseProto rest = some (none, rest) := by
    unfold parseProto
    split
    · exact absurd rfl hrest
    · rfl
  unfold RuleArgs.proto
  rcases rule.protocol with _ | _ | _ | _
  · exact hnone
  · rfl
  · rfl
  · exact hnone

theorem parseEnds_rule (action : Action) (direction : Direction) (rule : Rule) (ipFrom ipTo name : String) (port : Option Nat)
    (route : Bool) (iface : Option String) :
    parseEnds route action.variantToString direction.variantToString iface ("from" :: ipFrom :: "to" :: ipTo ::
      (RuleArgs.pushed "port" (port.map toString) ++
        (RuleArgs.pushed "proto" (RuleArgs.proto rule) ++ ["comment", name]))) =
      some ⟨action, route, direction, iface, ipFrom, ipTo, port, given rule.protocol⟩ := by
  have hproto : (RuleArgs.pushed "proto" (RuleArgs.proto rule) ++ ["comment", name]).head? ≠ some "port" := by
    cases RuleArgs.proto rule <;> simp [RuleArgs.pushed]
  rw [parseEnds]
  simp only [parsePort_toString _ _ hproto, parseProto_given rule ["comment", name] (by simp), parsePolicy_variant,
    parseDirection_variant, Option.bind_eq_bind, Option.bind_some]
  rfl

/-- A rule of the node is read back as it was meant. -/
theorem parse_asVec (action : Action) (direction : Direction) (rule : Rule) (ipFrom ipTo name : String) (port : Option Nat)
    (iface : Option String) :
    parse (RuleArgs.asVec ⟨action.variantToString, direction, RuleArgs.proto rule, ipFrom, ipTo, port.map toString, name⟩ iface) =
      some ⟨action, iface.isSome, direction, iface, ipFrom, ipTo, port, given rule.protocol⟩ := by
  unfold RuleArgs.asVec
  rw [List.append_assoc, List.append_assoc]
  cases iface with
  | some iface => exact parseEnds_rule ..
  | none =>
    have hends := parseEnds_rule action direction rule ipFrom ipTo name port false none
    cases action <;> exact hends

/-- What a rule of `ufw` admits, made of a rule of the node for one address and one port. -/
def ruleFor (config : NodeFirewallConfig) (rule : Rule) (ip : String) (port : Option Nat) : UfwRule :=
  match rule.direction with
  | .out => ⟨rule.action, config.bridge.isSome, .out, config.bridge, config.ip, ip, port, given rule.protocol⟩
  | .in_ => ⟨rule.action, config.bridge.isSome, .in_, config.bridge, ip, config.ip, port, given rule.protocol⟩

def portsOf (rule : Rule) : List (Option Nat) := if rule.ports = [] then [none] else rule.ports.map some

def ipsOf (rule : Rule) : List String := if rule.ips = [] then ["any"] else rule.ips

/-- The rules that `ufw` has for one rule of the node. -/
def rulesFor (config : NodeFirewallConfig) (rule : Rule) : List UfwRule :=
  (ipsOf rule).flatMap fun ip => (portsOf rule).map (ruleFor config rule ip)

def defaults (config : NodeFirewallConfig) : List UfwRule :=
  [⟨config.config.defaultIn, config.bridge.isSome, .in_, config.bridge, "any", config.ip, none, none⟩,
    ⟨config.config.defaultOut, config.bridge.isSome, .out, config.bridge, config.ip, "any", none, none⟩]

theorem add_cons {args : List String} {rest : List (List String)} {rule : UfwRule} {rules : List UfwRule}
    (hrule : parse args = some rule) (hrest : add rest = some rules) : add (args :: rest) = some (rule :: rules) := by
  rw [add, hrule, hrest]
  rfl

theorem add_append {xs ys : List (List String)} {rules rules' : List UfwRule} (hx : add xs = some rules)
    (hy : add ys = some rules') : add (xs ++ ys) = some (rules ++ rules') := by
  induction xs generalizing rules with
  | nil =>
    cases hx
    exact hy
  | cons x xs ih =>
    rw [add] at hx
    obtain ⟨rule, hrule, hx⟩ := Option.bind_eq_some_iff.mp hx
    obtain ⟨rest, hrest, hx⟩ := Option.bind_eq_some_iff.mp hx
    cases hx
    exact add_cons hrule (ih hrest)

theorem add_flatMap {α : Type} {f : α → List (List String)} {g : α → List UfwRule} :
    ∀ {l : List α}, (∀ a ∈ l, add (f a) = some (g a)) → add (l.flatMap f) = some (l.flatMap g)
  | [], _ => rfl
  | a :: l, h => by
    rw [List.flatMap_cons, List.flatMap_cons]
    exact add_append (h a (List.mem_cons_self ..)) (add_flatMap fun b hb => h b (List.mem_cons_of_mem _ hb))

theorem add_fromRule (config : NodeFirewallConfig) (rule : Rule) (ip : String) :
    add ((RuleArgs.fromRule config rule (RuleArgs.proto rule) ip).map (·.asVec config.bridge)) =
      some ((portsOf rule).map (ruleFor config rule ip)) := by
  have hparse : ∀ (port : Option Nat) (ipFrom ipTo name : String), (ipFrom, ipTo) = (match rule.direction with
        | .out => (config.ip, ip)
        | .in_ => (ip, config.ip)) →
      parse (RuleArgs.asVec ⟨rule.action.variantToString, rule.direction, RuleArgs.proto rule, ipFrom, ipTo,
        port.map toString, name⟩ config.bridge) = some (ruleFor config rule ip port) := by
    intro port ipFrom ipTo name hends
    rw [parse_asVec]
    unfold ruleFor
    cases hdir : rule.direction <;> rw [hdir] at hends <;> cases hends <;> rfl
  have hports : ∀ (ports : List Nat) (ipFrom ipTo name : String), (ipFrom, ipTo) = (match rule.direction with
        | .out => (config.ip, ip)
        | .in_ => (ip, config.ip)) →
      add (ports.map fun port => RuleArgs.asVec ⟨rule.action.variantToString, rule.direction, RuleArgs.proto rule, ipFrom, ipTo,
        some (toString port), name⟩ config.bridge) = some (ports.map fun port => ruleFor config rule ip (some port)) := by
    intro ports ipFrom ipTo name hends
    induction ports with
    | nil => rfl
    | cons port ports ih => exact add_cons (hparse (some port) _ _ _ hends) ih
  unfold RuleArgs.fromRule portsOf
  cases hends : (match rule.direction with
      | .out => (config.ip, ip)
      | .in_ => (ip, config.ip)) with
  | mk ipFrom ipTo =>
    dsimp only
    by_cases hnone : rule.ports = []
    · rw [if_pos (by simp [hnone]), if_pos hnone]
      exact add_cons (hparse none _ _ _ hends.symm) rfl
    · rw [if_neg (by simp [hnone]), if_neg hnone, List.map_map, List.map_map]
      exact hports _ _ _ _ hends.symm

/-- What `ufw` has of the node after the commands. -/
theorem add_commands (config : NodeFirewallConfig) :
    add config.commands = some (config.config.rules.reverse.flatMap (rulesFor config) ++ defaults config) := by
  unfold NodeFirewallConfig.commands RuleArgs.fromRules
  rw [List.map_append, List.map_flatMap]
  refine add_append (add_flatMap fun rule _ => ?_) ?_
  · unfold rulesFor ipsOf
    by_cases hnone : rule.ips = []
    · rw [if_pos (by simp [hnone]), if_pos hnone, List.flatMap_cons, List.flatMap_nil, List.append_nil]
      exact add_fromRule config rule "any"
    · rw [if_neg (by simp [hnone]), if_neg hnone, List.map_flatMap]
      exact add_flatMap fun ip _ => add_fromRule config rule ip
  · have hin := parse_asVec config.config.defaultIn .in_ ⟨"", .allow, .in_, none, [], []⟩ "any" config.ip
      s!"{config.id} default in" none config.bridge
    have hout := parse_asVec config.config.defaultOut .out ⟨"", .allow, .in_, none, [], []⟩ config.ip "any"
      s!"{config.id} default out" none config.bridge
    exact add_cons hin (add_cons hout rfl)

/-! ## The first rule and the last one -/

section

variable {Addr : Type} {covers : String → Addr → Bool} {p : Packet Addr} {config : NodeFirewallConfig}

theorem decide_append (rules rules' : List UfwRule) :
    decide covers (rules ++ rules') p = (decide covers rules p).or (decide covers rules' p) := by
  unfold decide
  rw [List.find?_append]
  cases rules.find? (·.admits covers p) <;> rfl

/-- A rule for one address and one port admits a packet of the node that has them. -/
theorem ruleFor_admits (hp : config.Concerns covers p) (rule : Rule) (ip : String) (port : Option Nat) :
    (ruleFor config rule ip port).admits covers p ↔ rule.direction = p.direction ∧ covers ip p.remote ∧
      p.transport.isOf rule.protocol ∧ (port = none ∨ p.transport.port = port) := by
  have hown := hp.own
  have hrouted := hp.routed
  have hiface := hp.iface
  unfold ruleFor UfwRule.admits Packet.remote
  cases hrule : rule.direction <;> cases hdir : p.direction <;> simp_all [isOf_given]

theorem rulesFor_admits (hany : ∀ a, covers "any" a) (hp : config.Concerns covers p) (rule : Rule) :
    (∃ r ∈ rulesFor config rule, r.admits covers p) ↔ rule.admits covers p := by
  have hips : (∃ ip ∈ ipsOf rule, covers ip p.remote) ↔ rule.ips = [] ∨ ∃ ip ∈ rule.ips, covers ip p.remote := by
    unfold ipsOf
    by_cases hnone : rule.ips = []
    · simp [hnone, hany]
    · simp [hnone]
  have hports : (∃ port ∈ portsOf rule, port = none ∨ p.transport.port = port) ↔
      rule.ports = [] ∨ ∃ port ∈ rule.ports, p.transport.port = some port := by
    unfold portsOf
    by_cases hnone : rule.ports = []
    · simp [hnone]
    · simp [hnone]
  have hrule : rule.admits covers p ↔ rule.direction = p.direction ∧ (rule.ips = [] ∨ ∃ ip ∈ rule.ips, covers ip p.remote) ∧
      p.transport.isOf rule.protocol ∧ (rule.ports = [] ∨ ∃ port ∈ rule.ports, p.transport.port = some port) := by
    simp [Rule.admits]
  rw [hrule, ← hips, ← hports]
  unfold rulesFor
  constructor
  · rintro ⟨r, hr, hadmits⟩
    obtain ⟨ip, hip, hr⟩ := List.mem_flatMap.mp hr
    obtain ⟨port, hport, rfl⟩ := List.mem_map.mp hr
    obtain ⟨hdir, hcovers, hproto, hmatch⟩ := (ruleFor_admits hp rule ip port).mp hadmits
    exact ⟨hdir, ⟨ip, hip, hcovers⟩, hproto, ⟨port, hport, hmatch⟩⟩
  · rintro ⟨hdir, ⟨ip, hip, hcovers⟩, hproto, ⟨port, hport, hmatch⟩⟩
    refine ⟨ruleFor config rule ip port, List.mem_flatMap.mpr ⟨ip, hip, List.mem_map.mpr ⟨port, hport, rfl⟩⟩, ?_⟩
    exact (ruleFor_admits hp rule ip port).mpr ⟨hdir, hcovers, hproto, hmatch⟩

/-- All the rules for a rule of the node decide as it does. -/
theorem decide_rulesFor (hany : ∀ a, covers "any" a) (hp : config.Concerns covers p) (rule : Rule) :
    decide covers (rulesFor config rule) p = if rule.admits covers p then some rule.action else none := by
  have haction : ∀ r ∈ rulesFor config rule, r.action = rule.action := by
    intro r hr
    obtain ⟨ip, -, hr⟩ := List.mem_flatMap.mp hr
    obtain ⟨port, -, rfl⟩ := List.mem_map.mp hr
    unfold ruleFor
    split <;> rfl
  unfold decide
  cases hfind : (rulesFor config rule).find? (·.admits covers p) with
  | some r =>
    have hr := List.mem_of_find?_eq_some hfind
    rw [if_pos ((rulesFor_admits hany hp rule).mp ⟨r, hr, List.find?_some (p := fun r => UfwRule.admits covers r p) hfind⟩), ← haction r hr]
    rfl
  | none =>
    rw [if_neg fun hadmits => ?_]
    · rfl
    · obtain ⟨r, hr, hadmits⟩ := (rulesFor_admits hany hp rule).mpr hadmits
      exact List.find?_eq_none.mp hfind r hr hadmits

theorem decide_flatMap (hany : ∀ a, covers "any" a) (hp : config.Concerns covers p) (rules : List Rule) :
    decide covers (rules.flatMap (rulesFor config)) p = (rules.find? (·.admits covers p)).map (·.action) := by
  induction rules with
  | nil => rfl
  | cons rule rules ih =>
    rw [List.flatMap_cons, decide_append, decide_rulesFor hany hp, ih, List.find?_cons]
    cases rule.admits covers p <;> rfl

theorem decide_defaults (hany : ∀ a, covers "any" a) (hp : config.Concerns covers p) :
    decide covers (defaults config) p = some (match p.direction with
      | .out => config.config.defaultOut
      | .in_ => config.config.defaultIn) := by
  have hown := hp.own
  have hrouted := hp.routed
  have hiface := hp.iface
  have hproto : p.transport.isOf none := by cases p.transport <;> rfl
  unfold decide defaults
  cases hdir : p.direction <;> simp_all [UfwRule.admits]

end

end Ufw

/-- **The rules of the node are what `ufw` goes by**, for each of its packets. -/
theorem firewall_compiled {Addr : Type} {covers : String → Addr → Bool} (hany : ∀ a, covers "any" a)
    {config : NodeFirewallConfig} {p : Packet Addr} (hp : config.Concerns covers p) :
    ∃ rules, Ufw.add config.commands = some rules ∧ Ufw.decide covers rules p = some (config.config.decide covers p) := by
  refine ⟨_, Ufw.add_commands config, ?_⟩
  rw [Ufw.decide_append, Ufw.decide_flatMap hany hp, Ufw.decide_defaults hany hp]
  have hlast : (config.config.rules.filter (·.admits covers p)).getLast? = config.config.rules.reverse.find? (·.admits covers p) := by
    rw [← List.head?_filter, List.filter_reverse, List.head?_reverse]
  unfold Config.decide
  rw [hlast]
  cases config.config.rules.reverse.find? (·.admits covers p) <;> rfl

/-- A node on a bridge, with a rule that closes a port which an earlier one has opened. -/
theorem firewall_compiled_closed :
    ∃ rules, Ufw.add (NodeFirewallConfig.commands ⟨"id", "10.0.0.2", some "br0",
        ⟨.deny, .allow, [⟨"all", .allow, .in_, none, [], []⟩, ⟨"rpc", .reject, .in_, some .tcp, ["10.0.0.9"], [80, 443]⟩]⟩⟩) = some rules ∧
      Ufw.decide (fun ip a => ip = "any" ∨ ip = a) rules ⟨true, .in_, "br0", "10.0.0.9", "10.0.0.2", .tcp 443⟩ =
        some (Config.decide (fun ip a => ip = "any" ∨ ip = a)
          ⟨.deny, .allow, [⟨"all", .allow, .in_, none, [], []⟩, ⟨"rpc", .reject, .in_, some .tcp, ["10.0.0.9"], [80, 443]⟩]⟩
          ⟨true, .in_, "br0", "10.0.0.9", "10.0.0.2", .tcp 443⟩) :=
  firewall_compiled (by simp) ⟨rfl, by simp, by simp⟩

end Blockvisor
