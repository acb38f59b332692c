import RecurseX.CidrText
import RecurseX.Forward.Spellings
import RecurseX.PatternText
import RecurseX.Resolver.Response

/-!
# Routes to the upstreams

The configuration names groups of upstreams: the default servers, the fallback servers, and
the servers of each `nameserver-policy` entry. A query goes to one of them, and an answer that
looks poisoned is asked for again at the fallback servers.
-/

namespace RecurseX.Forward

open Library

/-! ## The configuration -/

/-- A forwarding upstream, as an object. -/
structure ForwarderJson where
  ip : List Char
  /-- 0 means the default of the protocol. -/
  port : UInt16
  proto : List Char
  /-- TLS server name. -/
  host : Option String

def protoOfJson (proto : List Char) : Option Proto :=
  if proto = ['u', 'd', 'p'] then some .udp
  else if proto = ['t', 'c', 'p'] then some .tcp
  else if proto = ['d', 'o', 't'] then some .tls
  else if proto = ['d', 'o', 'h'] then some .doH
  else if proto = ['d', 'o', 'h', '3'] then some .doH3
  else if proto = ['d', 'o', 'q'] then some .doQ
  else none

namespace ForwarderJson

/-- Convert to an endpoint. -/
def endpoint (self : ForwarderJson) : Result Endpoint := do
  let ip ← okOr (parseIp self.ip) (.config ("bad upstream ip " ++ String.ofList self.ip))
  let proto ← okOr (protoOfJson self.proto)
    (.config ("unknown upstream proto " ++ String.ofList self.proto))
  let port :=
    if self.port = 0 then
      match proto with
      | .tls | .doQ | .doH3 => 853
      | .doH => 443
      | .udp | .tcp => 53
    else self.port
  .ok ⟨ip, port, proto⟩

/-- Convert to a forwarder. An encrypted transport without a `host` is rejected. -/
def forwarder (self : ForwarderJson) : Result Forwarder := do
  let endpoint ← self.endpoint
  if isEncrypted endpoint.proto = false then .ok (.plain endpoint)
  else do
    let host ← okOr self.host (.config ("forwarder " ++ String.ofList self.ip ++ ":" ++
      toString self.port.toNat ++ " (" ++ String.ofList self.proto ++
      ") requires \"host\" for TLS verification"))
    .ok (.encrypted endpoint host)

end ForwarderJson

/-- Answer-quality gate, as it is configured. -/
structure FallbackFilterJson where
  geoip : Bool
  geoipCode : List (List Char)
  /-- Address blocks that mark an answer as poisoned. -/
  ipcidr : Option (List (List Char))
  /-- Names that always use the fallback servers. -/
  domain : List (List Char)

/-- What the `dns` section says of upstreams. -/
structure DnsJson where
  nameservers : List (List Char)
  fallback : List (List Char)
  /-- Per-suffix upstreams, in the order of the patterns. -/
  nameserverPolicy : List (List Char × List (List Char))
  fallbackFilter : Option FallbackFilterJson

/-! ## The gate -/

/-- Answer-quality gate. -/
structure FallbackFilter where
  /-- Names that skip the primary group entirely. -/
  domain : List DomainPattern
  /-- Blocks that mark an answer as poisoned. -/
  ipcidr : List IpCidr

/-- Address blocks that no public answer may carry. -/
def defaultBogusCidrs : List (List Char) :=
  ["0.0.0.0/8".toList, "127.0.0.0/8".toList, "240.0.0.0/4".toList, "::/128".toList,
    "::1/128".toList, "100::/64".toList]

section Build

-- How a text is quoted in an error.
variable (debug : List Char → String)

/-- Parse a list of patterns, reporting the first bad entry by position. -/
def parseAll (items : List (List Char)) : Result (List DomainPattern) :=
  items.zipIdx.mapM fun (s, i) => (DomainPattern.parse debug s).mapError fun e =>
    .config ("pattern #" ++ toString i ++ " (" ++ debug s ++ "): " ++ e.msg)

/-- Parse a list of blocks, reporting the first bad entry by position; the default ones where there
is no list. -/
def parseBlocks : Option (List (List Char)) → Result (List IpCidr)
  | none => .ok (defaultBogusCidrs.filterMap IpCidr.parse)
  | some list => list.zipIdx.mapM fun (s, i) => okOr (IpCidr.parse s)
      (.config ("fallback-filter.ipcidr #" ++ toString i ++ ": " ++ debug s ++ " is not a CIDR"))

namespace FallbackFilter

def default : FallbackFilter := ⟨[], defaultBogusCidrs.filterMap IpCidr.parse⟩

/-- Build a filter from configuration. -/
def new (domain : List (List Char)) (ipcidr : Option (List (List Char))) (geoip : Bool) :
    Result FallbackFilter := do
  failIf (geoip = true) (.config ("fallback-filter.geoip requires a country-to-CIDR database, " ++
    "which this build does not embed; set `geoip` to false and use `ipcidr` (the ranges that " ++
    "count as pollution) and `domain` (names that always use the fallback servers) instead"))
  let domain ← parseAll debug domain
  let blocks ← parseBlocks debug ipcidr
  .ok ⟨domain, blocks⟩

/-- Whether `name` must use the fallback group outright. -/
def forcesFallback (self : FallbackFilter) (name : Name) : Bool :=
  self.domain.any fun pattern => pattern.matches name

/-- The first of the addresses that looks poisoned. -/
def looksPoisoned (self : FallbackFilter) (addrs : List IpAddr) : Option IpAddr :=
  addrs.find? fun addr => self.ipcidr.any fun block => block.contains addr

end FallbackFilter

/-! ## Groups -/

/-- The upstream groups. The default servers have the id 0, the fallback servers 1. -/
structure UpstreamGroups where
  default : List Forwarder
  fallback : List Forwarder
  /-- Groups of `nameserver-policy`, from id 2. -/
  extra : List (List Forwarder)

namespace UpstreamGroups

/-- The servers of a group. -/
def get (self : UpstreamGroups) : GroupId → Option (List Forwarder)
  | 0 => some self.default
  | 1 => some self.fallback
  | id + 2 => self.extra[id]?

def hasFallback (self : UpstreamGroups) : Bool := !self.fallback.isEmpty

/-- Every server across every group. -/
def all (self : UpstreamGroups) : List Forwarder :=
  self.default ++ self.fallback ++ self.extra.flatten

end UpstreamGroups

/-- What chooses the upstreams of a query. -/
structure UpstreamPolicy where
  policy : NameserverPolicy
  fallback : FallbackFilter
  upstreams : UpstreamGroups

/-- One rule, from its text. -/
def parseRule (rule : List Char × GroupId) : Result PolicyRule := do
  let pattern ← (DomainPattern.parse debug rule.1).mapError fun e =>
    .config ("nameserver-policy entry " ++ debug rule.1 ++ ": " ++ e.msg)
  failIf (pattern = .any) (.config ("nameserver-policy entry \"*\" would shadow every other rule; " ++
    "set the default `nameservers` instead"))
  .ok (pattern, rule.2)

/-- The policy of rules that are given as texts. -/
def policyOfTexts (rules : List (List Char × GroupId)) : Result NameserverPolicy := do
  let parsed ← rules.mapM (parseRule debug)
  .ok ⟨sortDescending (fun rule => specificity rule.1) parsed⟩

/-- The rules and the groups of the entries of `nameserver-policy`, behind those there are. -/
def policyGroups : (entries : List (List Char × List (List Char))) →
    (rules : List (List Char × GroupId)) → (extra : List (List Forwarder)) →
    Result (List (List Char × GroupId) × List (List Forwarder))
  | [], rules, extra => .ok (rules, extra)
  | (pattern, servers) :: entries, rules, extra => do
      failIf (servers = [])
        (.config ("dns.nameserver-policy entry " ++ debug pattern ++ " lists no servers"))
      let group ← servers.mapM (parseUpstream debug)
      policyGroups entries (rules ++ [(pattern, 2 + extra.length)]) (extra ++ [group])

/-- The gate of the configuration. -/
def buildFallback : Option FallbackFilterJson → Result FallbackFilter
  | some f => do
      failIf (f.geoipCode ≠ []) (.config ("dns.fallback-filter.geoipCode has no effect: this " ++
        "build embeds no country database; use `ipcidr` to list the ranges that count as pollution"))
      FallbackFilter.new debug f.domain f.ipcidr f.geoip
  | none => .ok FallbackFilter.default

/-- The default servers. The legacy spelling is already fully specified. -/
def defaultServers (dns : DnsJson) (forwarders : List ForwarderJson) : Result (List Forwarder) :=
  if dns.nameservers = [] then forwarders.mapM ForwarderJson.forwarder
  else dns.nameservers.mapM (parseUpstream debug)

/-- Build what chooses the upstreams from the `dns` section and the legacy forwarders. -/
def buildDnsPolicy (dns : DnsJson) (forwarders : List ForwarderJson) : Result UpstreamPolicy := do
  failIf (dns.nameservers ≠ [] ∧ forwarders.isEmpty = false) (.config ("set either " ++
    "`dns.nameservers` or `engine.forwarders`, not both: they are the same setting in two " ++
    "spellings, and one would be ignored"))
  let filter ← buildFallback debug dns.fallbackFilter
  let default ← defaultServers debug dns forwarders
  let fallback ← dns.fallback.mapM (parseUpstream debug)
  let (rules, extra) ← policyGroups debug dns.nameserverPolicy [] []
  let policy ← policyOfTexts debug rules
  .ok ⟨policy, filter, ⟨default, fallback, extra⟩⟩

end Build

/-! ## Routes -/

namespace UpstreamPolicy

/-- Whether the name goes to the fallback servers outright. -/
def forced (self : UpstreamPolicy) (name : Name) : Bool :=
  self.fallback.forcesFallback name && self.upstreams.hasFallback

/-- The group responsible for a name, or `none` where it is resolved iteratively. -/
def forwardRoute (self : UpstreamPolicy) (name : Name) : Option (List Forwarder) :=
  if self.forced name = true then some self.upstreams.fallback
  else
    let ruled := match self.policy.route name with
      | .group id => self.upstreams.get id
      | .default => none
    match ruled with
    | some (server :: group) => some (server :: group)
    | _ => if self.upstreams.default = [] then none else some self.upstreams.default

/-- What the outside contributes to the resolution of a key: what a group answers when it is asked
first, and what it answers when it is asked again. -/
def forwarding (self : UpstreamPolicy) (key : QueryKey) (first again : List Forwarder → Result Message)
    (primaryValidation fallbackValidation : Validation) : Forwarding where
  forced := self.forced key.name
  hasFallback := self.upstreams.hasFallback
  looksPoisoned := fun addrs => (self.fallback.looksPoisoned addrs).isSome
  primary := do
    let group ← okOr (self.forwardRoute key.name)
      ⟨.noUpstream, "no upstream group is responsible for " ++
        String.ofList (key.name.toAscii.map fun octet => Char.ofNat octet.toNat)⟩
    first group
  primaryValidation := primaryValidation
  fallback := again self.upstreams.fallback
  fallbackValidation := fallbackValidation

end UpstreamPolicy

/-! ## What is built -/

variable {debug : List Char → String} {dns : DnsJson} {forwarders : List ForwarderJson}
  {policy : UpstreamPolicy}

/-- An entry of `nameserver-policy`, and its pattern and servers. -/
structure ReadsEntry (debug : List Char → String) (json : List Char × List (List Char))
    (entry : DomainPattern × List Forwarder) : Prop where
  pattern : DomainPattern.parse debug json.1 = .ok entry.1
  narrow : entry.1 ≠ .any
  servers : json.2.mapM (parseUpstream debug) = .ok entry.2
  some : entry.2 ≠ []

/-- What the texts of a configuration stand for. -/
structure Configures (debug : List Char → String) (dns : DnsJson) (forwarders : List ForwarderJson)
    (default fallback : List Forwarder) (entries : List (DomainPattern × List Forwarder)) : Prop where
  default : dns.nameservers.mapM (parseUpstream debug) = .ok default ∧ forwarders = [] ∨
    dns.nameservers = [] ∧ forwarders.mapM ForwarderJson.forwarder = .ok default
  fallback : dns.fallback.mapM (parseUpstream debug) = .ok fallback
  entries : List.Forall₂ (ReadsEntry debug) dns.nameserverPolicy entries

/-- The rule of an entry and its position. -/
def ruleOf (entry : (DomainPattern × List Forwarder) × Nat) : PolicyRule := (entry.1.1, 2 + entry.2)

/-- Each entry gets a group of its own, and its rule the group's id. -/
theorem policyGroups_eq_ok {entries : List (List Char × List (List Char))}
    {rules rules' : List (List Char × GroupId)} {extra extra' : List (List Forwarder)}
    (built : policyGroups debug entries rules extra = .ok (rules', extra')) :
    ∃ groups, List.Forall₂ (fun entry group => entry.2 ≠ [] ∧
        entry.2.mapM (parseUpstream debug) = .ok group) entries groups ∧
      extra' = extra ++ groups ∧
      rules' = rules ++ (entries.zipIdx extra.length).map fun (entry, i) => (entry.1, 2 + i) := by
  induction entries generalizing rules extra with
  | nil =>
      obtain ⟨rfl, rfl⟩ := Prod.mk.inj (Except.ok.inj built)
      exact ⟨[], .nil, (List.append_nil _).symm, (List.append_nil _).symm⟩
  | cons entry entries inductionHypothesis =>
      obtain ⟨pattern, servers⟩ := entry
      obtain ⟨_, some, built⟩ := bind_eq_ok.mp built
      obtain ⟨group, read, built⟩ := bind_eq_ok.mp built
      obtain ⟨groups, each, rfl, rfl⟩ := inductionHypothesis built
      refine ⟨group :: groups, .cons ⟨failIf_eq_ok.mp some, read⟩ each, ?_, ?_⟩
      · rw [List.append_assoc]
        rfl
      · rw [List.zipIdx_cons, List.map_cons, List.append_assoc, List.length_append]
        rfl

theorem parseRule_eq_ok {rule : List Char × GroupId} {parsed : PolicyRule}
    (read : parseRule debug rule = .ok parsed) :
    DomainPattern.parse debug rule.1 = .ok parsed.1 ∧ parsed.1 ≠ .any ∧ parsed.2 = rule.2 := by
  obtain ⟨pattern, spelled, read⟩ := bind_eq_ok.mp read
  obtain ⟨_, narrow, read⟩ := bind_eq_ok.mp read
  obtain rfl := Except.ok.inj read
  exact ⟨mapError_eq_ok.mp spelled, failIf_eq_ok.mp narrow, rfl⟩

/-- The servers of entries that are read are not none. -/
theorem mapM_ne_nil {α : Type} {read : List Char → Result α} {items : List (List Char)}
    {values : List α} (each : items.mapM read = .ok values) (some : items ≠ []) : values ≠ [] := by
  have lengths := (mapM_eq_ok.mp each).length_eq
  intro none
  rw [none, List.length_nil, List.length_eq_zero_iff] at lengths
  exact some lengths

/-- The entries with their patterns and servers. -/
theorem entries_of_rules {json : List (List Char × List (List Char))}
    {groups : List (List Forwarder)} {parsed : List PolicyRule} {position : Nat}
    (each : List.Forall₂ (fun entry group => entry.2 ≠ [] ∧
      entry.2.mapM (parseUpstream debug) = .ok group) json groups)
    (rules : ((json.zipIdx position).map fun (entry, i) => (entry.1, 2 + i)).mapM (parseRule debug) =
      .ok parsed) :
    ∃ entries, List.Forall₂ (ReadsEntry debug) json entries ∧ groups = entries.map Prod.snd ∧
      parsed = (entries.zipIdx position).map ruleOf := by
  induction each generalizing parsed position with
  | nil =>
      obtain rfl : parsed = [] := (Except.ok.inj rules).symm
      exact ⟨[], .nil, rfl, rfl⟩
  | @cons entry group json groups first later inductionHypothesis =>
      rw [List.zipIdx_cons, List.map_cons, List.mapM_cons] at rules
      obtain ⟨rule, read, rules⟩ := bind_eq_ok.mp rules
      obtain ⟨others, rest, rules⟩ := bind_eq_ok.mp rules
      obtain rfl := Except.ok.inj rules
      obtain ⟨entries, reads, rfl, rfl⟩ := inductionHypothesis rest
      obtain ⟨pattern, narrow, id⟩ := parseRule_eq_ok read
      refine ⟨(rule.1, group) :: entries, .cons ⟨pattern, narrow, first.2, ?_⟩ reads, rfl, ?_⟩
      · exact mapM_ne_nil first.2 first.1
      · rw [List.zipIdx_cons, List.map_cons]
        exact congrArg (· :: _) (Prod.ext rfl id)

/-- A policy that is built has the groups of the configuration, and a rule for each entry. -/
theorem build_spec (built : buildDnsPolicy debug dns forwarders = .ok policy) :
    ∃ default fallback entries, Configures debug dns forwarders default fallback entries ∧
      buildFallback debug dns.fallbackFilter = .ok policy.fallback ∧
      policy.upstreams = ⟨default, fallback, entries.map Prod.snd⟩ ∧
      NameserverPolicy.new (entries.zipIdx.map ruleOf) = .ok policy.policy := by
  obtain ⟨_, single, built⟩ := bind_eq_ok.mp built
  obtain ⟨filter, gate, built⟩ := bind_eq_ok.mp built
  obtain ⟨default, servers, built⟩ := bind_eq_ok.mp built
  obtain ⟨fallback, again, built⟩ := bind_eq_ok.mp built
  obtain ⟨⟨rules, extra⟩, grouped, built⟩ := bind_eq_ok.mp built
  obtain ⟨chosen, ruled, built⟩ := bind_eq_ok.mp built
  obtain rfl := Except.ok.inj built
  obtain ⟨parsed, read, ruled⟩ := bind_eq_ok.mp ruled
  obtain rfl := Except.ok.inj ruled
  obtain ⟨groups, each, rfl, rfl⟩ := policyGroups_eq_ok grouped
  obtain ⟨entries, reads, rfl, rfl⟩ := entries_of_rules each read
  refine ⟨default, fallback, entries, ⟨?_, again, reads⟩, gate, rfl, ?_⟩
  · have single := failIf_eq_ok.mp single
    unfold defaultServers at servers
    split_ifs at servers with legacy
    · exact .inr ⟨legacy, servers⟩
    · refine .inl ⟨servers, ?_⟩
      simpa [legacy] using single
  · have narrow : (entries.zipIdx.map ruleOf).any (fun rule => rule.1 = .any) = false := by
      rw [List.any_eq_false]
      intro rule member
      obtain ⟨⟨entry, i⟩, listed, rfl⟩ := List.mem_map.mp member
      obtain ⟨text, -, spelled⟩ := exists_of_mem_right reads (List.fst_mem_of_mem_zipIdx listed)
      exact fun all => spelled.narrow (of_decide_eq_true all)
    exact if_neg (by rw [narrow]; exact Bool.false_ne_true)

/-! ## Where a name is sent -/

section Routed

variable {default fallback : List Forwarder} {entries : List (DomainPattern × List Forwarder)}
  {name : Name}

/-- The servers of the most specific entry that matches a name, the first of several. -/
def chosenServers (entries : List (DomainPattern × List Forwarder)) (name : Name) :
    Option (List Forwarder) :=
  (firstBest (fun entry => specificity entry.1) (fun entry => entry.1.matches name) entries).map
    Prod.snd

/-- Where a name is sent: the forced ones to the fallback servers, others to the chosen servers, and
to the default ones where no entry matches. -/
def configuredRoute (forced : Bool) (default fallback : List Forwarder)
    (entries : List (DomainPattern × List Forwarder)) (name : Name) : Option (List Forwarder) :=
  if forced = true ∧ fallback ≠ [] then some fallback
  else (chosenServers entries name).orElse fun _ => if default = [] then none else some default

/-- The group of the rule that decides is the group of the chosen entry. -/
theorem get_route {rules : NameserverPolicy}
    (ruled : NameserverPolicy.new (entries.zipIdx.map ruleOf) = .ok rules) :
    (match rules.route name with
      | .group id => (⟨default, fallback, entries.map Prod.snd⟩ : UpstreamGroups).get id
      | .default => none) = chosenServers entries name := by
  have positions : entries = entries.zipIdx.map Prod.fst := (List.zipIdx_map_fst _ _).symm
  unfold chosenServers
  rw [NameserverPolicy.route_eq ruled, firstBest_map]
  conv_rhs => rw [positions, firstBest_map]
  cases chosen : firstBest (fun item => specificity (ruleOf item).1)
      (fun item => (ruleOf item).1.matches name) entries.zipIdx with
  | none =>
      rw [show firstBest (fun item => specificity item.1.1) (fun item => item.1.1.matches name)
        entries.zipIdx = none from chosen]
      rfl
  | some best =>
      rw [show firstBest (fun item => specificity item.1.1) (fun item => item.1.1.matches name)
        entries.zipIdx = some best from chosen]
      obtain ⟨entry, i⟩ := best
      have located := List.mk_mem_zipIdx_iff_getElem?.mp (best_of_firstBest chosen).1
      change (⟨default, fallback, entries.map Prod.snd⟩ : UpstreamGroups).get (2 + i) = some entry.2
      rw [Nat.add_comm]
      change (entries.map Prod.snd)[i]? = some entry.2
      rw [List.getElem?_map, located]
      rfl

theorem chosenServers_ne_nil {json : List (List Char × List (List Char))} {servers : List Forwarder}
    (reads : List.Forall₂ (ReadsEntry debug) json entries)
    (chosen : chosenServers entries name = some servers) :
    servers ≠ [] ∧ ∃ text ∈ json, text.2.mapM (parseUpstream debug) = .ok servers := by
  obtain ⟨entry, best, rfl⟩ := Option.map_eq_some_iff.mp chosen
  obtain ⟨text, listed, spelled⟩ := exists_of_mem_right reads (best_of_firstBest best).1
  exact ⟨spelled.some, text, listed, spelled.servers⟩

theorem forwardRoute_of_build {json : List (List Char × List (List Char))}
    (reads : List.Forall₂ (ReadsEntry debug) json entries)
    (groups : policy.upstreams = ⟨default, fallback, entries.map Prod.snd⟩)
    (ruled : NameserverPolicy.new (entries.zipIdx.map ruleOf) = .ok policy.policy) :
    policy.forwardRoute name = configuredRoute (policy.fallback.forcesFallback name) default fallback
      entries name := by
  have outright : policy.forced name = true ↔
      policy.fallback.forcesFallback name = true ∧ fallback ≠ [] := by
    unfold UpstreamPolicy.forced UpstreamGroups.hasFallback
    rw [groups, Bool.and_eq_true, Bool.not_eq_true', List.isEmpty_eq_false_iff]
  unfold UpstreamPolicy.forwardRoute configuredRoute
  by_cases forced : policy.forced name = true
  · rw [if_pos forced, if_pos (outright.mp forced), groups]
  · rw [if_neg forced, if_neg fun both => forced (outright.mpr both), groups, get_route ruled]
    cases chosen : chosenServers entries name with
    | none => rfl
    | some servers =>
        obtain ⟨server, others, rfl⟩ := List.exists_cons_of_ne_nil (chosenServers_ne_nil reads chosen).1
        rfl

end Routed

/-! ## What the gate is built from -/

theorem parseAll_eq_ok {items : List (List Char)} {patterns : List DomainPattern}
    (read : parseAll debug items = .ok patterns) :
    List.Forall₂ (fun s pattern => DomainPattern.parse debug s = .ok pattern) items patterns := by
  have each := mapM_eq_ok.mp read
  have texts : items = items.zipIdx.map Prod.fst := (List.zipIdx_map_fst _ _).symm
  rw [texts, List.forall₂_map_left_iff]
  exact each.imp fun _ _ parsed => mapError_eq_ok.mp parsed

/-- The blocks that are read are those of the texts. -/
theorem mem_parseBlocks {ipcidr : Option (List (List Char))} {blocks : List IpCidr}
    (read : parseBlocks debug ipcidr = .ok blocks) {block : IpCidr} :
    block ∈ blocks ↔ ∃ s ∈ ipcidr.getD defaultBogusCidrs, IpCidr.parse s = some block := by
  cases ipcidr with
  | none =>
      obtain rfl := Except.ok.inj read
      exact List.mem_filterMap
  | some list =>
      have each := mapM_eq_ok.mp read
      have texts : list = list.zipIdx.map Prod.fst := (List.zipIdx_map_fst _ _).symm
      have spelled : List.Forall₂ (fun s block => IpCidr.parse s = some block) list blocks := by
        rw [texts, List.forall₂_map_left_iff]
        exact each.imp fun _ _ parsed => okOr_eq_ok.mp parsed
      rw [Option.getD_some]
      constructor
      · exact exists_of_mem_right spelled
      · rintro ⟨text, listed, parsed⟩
        obtain ⟨other, member, again⟩ := exists_of_mem_right spelled.flip listed
        obtain rfl := Option.some.inj (again.symm.trans parsed)
        exact member

/-- A text of a configured domain that always uses the fallback servers matches the name. -/
def Forces (debug : List Char → String) (dns : DnsJson) (name : Name) : Prop :=
  ∃ filter ∈ dns.fallbackFilter, ∃ text ∈ filter.domain, ∃ pattern,
    DomainPattern.parse debug text = .ok pattern ∧ pattern.matches name = true

/-- The texts of the blocks that mark an answer as poisoned. -/
def blockTexts (dns : DnsJson) : List (List Char) :=
  (dns.fallbackFilter.bind FallbackFilterJson.ipcidr).getD defaultBogusCidrs

/-- The gate has the domains and the blocks of the configuration. -/
theorem buildFallback_spec {filter : FallbackFilter}
    (built : buildFallback debug dns.fallbackFilter = .ok filter) :
    (∀ name, filter.forcesFallback name = true ↔ Forces debug dns name) ∧
      ∀ block, block ∈ filter.ipcidr ↔ ∃ s ∈ blockTexts dns, IpCidr.parse s = some block := by
  unfold Forces blockTexts
  cases configured : dns.fallbackFilter with
  | none =>
      rw [configured] at built
      obtain rfl := Except.ok.inj built
      refine ⟨fun name => iff_of_false Bool.false_ne_true ?_, fun block => List.mem_filterMap⟩
      rintro ⟨filter, none, -⟩
      cases none
  | some json =>
      rw [configured] at built
      obtain ⟨_, -, built⟩ := bind_eq_ok.mp built
      obtain ⟨_, -, built⟩ := bind_eq_ok.mp built
      obtain ⟨domain, patterns, built⟩ := bind_eq_ok.mp built
      obtain ⟨blocks, ranges, built⟩ := bind_eq_ok.mp built
      obtain rfl := Except.ok.inj built
      have each := parseAll_eq_ok patterns
      refine ⟨fun name => ?_, fun block => mem_parseBlocks ranges⟩
      change (domain.any fun pattern => pattern.matches name) = true ↔ _
      rw [List.any_eq_true]
      constructor
      · rintro ⟨pattern, member, matched⟩
        obtain ⟨text, listed, parsed⟩ := exists_of_mem_right each member
        exact ⟨json, rfl, text, listed, pattern, parsed, matched⟩
      · rintro ⟨filter, same, text, listed, pattern, parsed, matched⟩
        obtain rfl := Option.some.inj same
        obtain ⟨other, member, again⟩ := exists_of_mem_right each.flip listed
        obtain rfl := Except.ok.inj (again.symm.trans parsed)
        exact ⟨other, member, matched⟩

/-- **Routes.** Every policy that is built sends each name where the configuration says: the forced
names to the fallback servers if there are any, the others to the servers of the most specific
`nameserver-policy` entry that matches, and to the default servers where none does. -/
theorem routes_as_configured (built : buildDnsPolicy debug dns forwarders = .ok policy) :
    ∃ default fallback entries, Configures debug dns forwarders default fallback entries ∧
      ∀ name, ∃ forced : Bool, (forced = true ↔ Forces debug dns name) ∧
        policy.forwardRoute name = configuredRoute forced default fallback entries name := by
  obtain ⟨default, fallback, entries, configures, gate, groups, ruled⟩ := build_spec built
  refine ⟨default, fallback, entries, configures, fun name => ⟨_, (buildFallback_spec gate).1 name, ?_⟩⟩
  exact forwardRoute_of_build configures.entries groups ruled

/-- Two servers, and one more for the names below `lan`. -/
def lanDns : DnsJson where
  nameservers := ["1.1.1.1".toList]
  fallback := ["9.9.9.9".toList]
  nameserverPolicy := [("+.lan".toList, ["10.0.0.1".toList])]
  fallbackFilter := none

def lanPolicy : UpstreamPolicy where
  policy := ⟨[(.subtree ⟨[3, 108, 97, 110, 0]⟩, 2)]⟩
  fallback := .default
  upstreams := ⟨[.plain ⟨.v4 (ipv4 1 1 1 1), 53, .udp⟩], [.plain ⟨.v4 (ipv4 9 9 9 9), 53, .udp⟩],
    [[.plain ⟨.v4 (ipv4 10 0 0 1), 53, .udp⟩]]⟩

theorem parse_lan : DomainPattern.parse (fun _ => "") "+.lan".toList =
    .ok (.subtree ⟨[3, 108, 97, 110, 0]⟩) := by
  have trimmed : trim "+.lan".toList = "+.lan".toList := rfl
  have suffix : trimEndDots (stripMarker "+.lan".toList).1 = "lan".toList := rfl
  have parts : "lan".toList.splitOn '.' = ["lan".toList] := rfl
  have octets : utf8 "lan".toList = [108, 97, 110] := rfl
  have name : Name.fromAscii [108, 97, 110] = .ok ⟨[3, 108, 97, 110, 0]⟩ := rfl
  unfold DomainPattern.parse
  dsimp only
  rw [trimmed, suffix, parts, octets, name]
  rfl

theorem buildDnsPolicy_lanDns : buildDnsPolicy (fun _ => "") lanDns [] = .ok lanPolicy := by
  have groups : policyGroups (fun _ => "") lanDns.nameserverPolicy [] [] =
      .ok ([("+.lan".toList, 2)], lanPolicy.upstreams.extra) := rfl
  have rule : parseRule (fun _ => "") ("+.lan".toList, 2) =
      .ok (.subtree ⟨[3, 108, 97, 110, 0]⟩, 2) := by
    unfold parseRule
    rw [parse_lan]
    rfl
  have rules : policyOfTexts (fun _ => "") [("+.lan".toList, 2)] = .ok lanPolicy.policy := by
    unfold policyOfTexts
    rw [List.mapM_cons, rule]
    rfl
  simp only [buildDnsPolicy, bind_eq_ok]
  exact ⟨(), rfl, .default, rfl, lanPolicy.upstreams.default, rfl, lanPolicy.upstreams.fallback, rfl,
    _, groups, _, rules, rfl⟩

theorem routes_as_configured_lan : ∃ policy, buildDnsPolicy (fun _ => "") lanDns [] = .ok policy ∧
    ∃ default fallback entries, Configures (fun _ => "") lanDns [] default fallback entries ∧
      ∀ name, ∃ forced : Bool, (forced = true ↔ Forces (fun _ => "") lanDns name) ∧
        policy.forwardRoute name = configuredRoute forced default fallback entries name := by
  exact ⟨lanPolicy, buildDnsPolicy_lanDns, routes_as_configured buildDnsPolicy_lanDns⟩

/-! ## The servers of a route -/

/-- A server that can be asked: it has a port, and a name to verify exactly when it is encrypted. -/
structure Askable (server : Forwarder) : Prop where
  port : server.endpoint.port ≠ 0
  verified : isEncrypted server.endpoint.proto = server.host.isSome

theorem Forwarder.Configurable.askable {server : Forwarder} (configurable : server.Configurable) :
    Askable server := by
  refine ⟨configurable.port, ?_⟩
  cases encrypted : isEncrypted server.endpoint.proto with
  | false => rw [(configurable.plain encrypted).1]; rfl
  | true =>
      obtain ⟨name, host, -⟩ := configurable.named encrypted
      rw [host]
      rfl

theorem ForwarderJson.askable {json : ForwarderJson} {server : Forwarder}
    (read : json.forwarder = .ok server) : Askable server := by
  obtain ⟨endpoint, located, read⟩ := bind_eq_ok.mp read
  have port : endpoint.port ≠ 0 := by
    obtain ⟨ip, -, located⟩ := bind_eq_ok.mp located
    obtain ⟨proto, -, located⟩ := bind_eq_ok.mp located
    obtain rfl := Except.ok.inj located
    dsimp only
    split_ifs with missing
    · cases proto <;> decide
    · exact missing
  split_ifs at read with plain
  · obtain rfl := Except.ok.inj read
    exact ⟨port, plain⟩
  · obtain ⟨host, -, read⟩ := bind_eq_ok.mp read
    obtain rfl := Except.ok.inj read
    have encrypted : isEncrypted endpoint.proto = true := by simpa using plain
    exact ⟨port, encrypted⟩

theorem askable_of_texts {texts : List (List Char)} {servers : List Forwarder}
    (read : texts.mapM (parseUpstream debug) = .ok servers) : ∀ server ∈ servers, Askable server := by
  intro server member
  obtain ⟨text, -, parsed⟩ := exists_of_mem_right (mapM_eq_ok.mp read) member
  exact (configurable_of_parse parsed).askable

/-- Every server of a policy can be asked, and every route has servers, which are all of them servers
of the policy. -/
theorem routed_servers_askable (built : buildDnsPolicy debug dns forwarders = .ok policy) :
    (∀ server ∈ policy.upstreams.all, Askable server) ∧
      ∀ name group, policy.forwardRoute name = some group →
        group ≠ [] ∧ ∀ server ∈ group, server ∈ policy.upstreams.all := by
  obtain ⟨default, fallback, entries, configures, -, groups, ruled⟩ := build_spec built
  rw [groups]
  unfold UpstreamGroups.all
  constructor
  · intro server member
    rcases List.mem_append.mp member with common | extra
    · rcases List.mem_append.mp common with first | again
      · rcases configures.default with ⟨texts, -⟩ | ⟨-, legacy⟩
        · exact askable_of_texts texts server first
        · obtain ⟨json, -, read⟩ := exists_of_mem_right (mapM_eq_ok.mp legacy) first
          exact ForwarderJson.askable read
      · exact askable_of_texts configures.fallback server again
    · obtain ⟨group, listed, inside⟩ := List.mem_flatten.mp extra
      obtain ⟨entry, entered, rfl⟩ := List.mem_map.mp listed
      obtain ⟨text, -, spelled⟩ := exists_of_mem_right configures.entries entered
      exact askable_of_texts spelled.servers server inside
  · intro name group routed
    rw [forwardRoute_of_build configures.entries groups ruled] at routed
    unfold configuredRoute at routed
    by_cases forced : policy.fallback.forcesFallback name = true ∧ fallback ≠ []
    · rw [if_pos forced] at routed
      obtain rfl := Option.some.inj routed
      exact ⟨forced.2, fun server member => List.mem_append_left _ (List.mem_append_right _ member)⟩
    · rw [if_neg forced] at routed
      cases chosen : chosenServers entries name with
      | none =>
          rw [chosen] at routed
          change (if default = [] then none else some default) = some group at routed
          split_ifs at routed with none
          obtain rfl := Option.some.inj routed
          exact ⟨none, fun server member => List.mem_append_left _ (List.mem_append_left _ member)⟩
      | some servers =>
          rw [chosen] at routed
          obtain rfl := Option.some.inj routed
          refine ⟨(chosenServers_ne_nil configures.entries chosen).1, fun server member => ?_⟩
          obtain ⟨entry, best, rfl⟩ := Option.map_eq_some_iff.mp chosen
          refine List.mem_append_right _ (List.mem_flatten.mpr ⟨entry.2, ?_, member⟩)
          exact List.mem_map_of_mem (best_of_firstBest best).1

theorem routed_servers_askable_lan : ∃ policy, buildDnsPolicy (fun _ => "") lanDns [] = .ok policy ∧
    ∀ server ∈ policy.upstreams.all, Askable server := by
  exact ⟨lanPolicy, buildDnsPolicy_lanDns, (routed_servers_askable buildDnsPolicy_lanDns).1⟩

/-! ## Poisoned answers -/

/-- One of the addresses is in a configured block. -/
def Poisoned (dns : DnsJson) (addrs : List IpAddr) : Prop :=
  ∃ ip ∈ addrs, ∃ s ∈ blockTexts dns, InCidr s ip

theorem looksPoisoned_iff {filter : FallbackFilter}
    (built : buildFallback debug dns.fallbackFilter = .ok filter) (addrs : List IpAddr) :
    (filter.looksPoisoned addrs).isSome = true ↔ Poisoned dns addrs := by
  have blocks := (buildFallback_spec built).2
  unfold FallbackFilter.looksPoisoned Poisoned
  rw [List.find?_isSome]
  refine exists_congr fun ip => and_congr_right fun _ => ?_
  rw [List.any_eq_true]
  constructor
  · rintro ⟨block, member, inside⟩
    obtain ⟨text, listed, parsed⟩ := (blocks block).mp member
    exact ⟨text, listed, (contains_parse_iff parsed ip).mp inside⟩
  · rintro ⟨text, listed, inside⟩
    obtain ⟨addr, bits, spelled, shares⟩ := inside
    obtain ⟨block, parsed, contained⟩ := parse_of_cidrText spelled
    exact ⟨block, (blocks block).mpr ⟨text, listed, parsed⟩, (contained ip).mpr shares⟩

section Gate

variable {crypto : Crypto} {engine : EngineConfig} {dnssecAnchored : Bool} {key : QueryKey}
  {res : Resolution}

/-- The addresses of a response. -/
def responseAddresses (key : QueryKey) (resp : Message) : List IpAddr :=
  answerAddresses (responseToResolution key resp)

theorem forwardOnce_eq_ok {validation : Validation} {exchanged : Except Error Message}
    (once : forwardOnce crypto engine dnssecAnchored key validation exchanged = .ok res) :
    ∃ resp, exchanged = .ok resp ∧ answerAddresses res = responseAddresses key resp := by
  cases exchanged with
  | error error => cases once
  | ok resp =>
      refine ⟨resp, rfl, ?_⟩
      obtain rfl := Except.ok.inj once
      unfold responseAddresses
      dsimp only
      split_ifs <;> rfl

/-- Whether an answer is asked for again. -/
def askedAgain (forwarding : Forwarding) (addrs : List IpAddr) : Bool :=
  !forwarding.forced && forwarding.hasFallback && forwarding.looksPoisoned addrs

/-- The answer is the first one, or the one to the second question where that is asked and answered. -/
theorem forwardResolve_eq_ok {forwarding : Forwarding}
    (resolved : forwardResolve crypto engine dnssecAnchored key forwarding = .ok res) :
    ∃ resp, forwarding.primary = .ok resp ∧
      (askedAgain forwarding (responseAddresses key resp) = true ∧
          (∃ other, forwarding.fallback = .ok other ∧
            answerAddresses res = responseAddresses key other) ∨
        (askedAgain forwarding (responseAddresses key resp) = false ∨
            ∀ other, forwarding.fallback ≠ .ok other) ∧
          answerAddresses res = responseAddresses key resp) := by
  unfold forwardResolve at resolved
  dsimp only at resolved
  cases once : forwardOnce crypto engine dnssecAnchored key forwarding.primaryValidation
      forwarding.primary with
  | error error =>
      rw [once] at resolved
      cases resolved
  | ok primary =>
      obtain ⟨resp, answered, addresses⟩ := forwardOnce_eq_ok once
      rw [once] at resolved
      dsimp only at resolved
      rw [addresses] at resolved
      refine ⟨resp, answered, ?_⟩
      unfold askedAgain
      split_ifs at resolved with asked
      · cases twice : forwardOnce crypto engine dnssecAnchored key forwarding.fallbackValidation
            forwarding.fallback with
        | ok fallback =>
            obtain ⟨other, replied, again⟩ := forwardOnce_eq_ok twice
            rw [twice] at resolved
            obtain rfl := Except.ok.inj resolved
            exact .inl ⟨asked, other, replied, again⟩
        | error error =>
            rw [twice] at resolved
            obtain rfl := Except.ok.inj resolved
            refine .inr ⟨.inr fun other replied => ?_, addresses⟩
            rw [replied] at twice
            cases twice
      · obtain rfl := Except.ok.inj resolved
        exact .inr ⟨.inl (Bool.eq_false_iff.mpr asked), addresses⟩

/-- **The gate.** A poisoned answer is returned exactly when the servers of the route gave one and it
was not asked for again, or only for an answer that is poisoned too: the name always goes to the
fallback servers, there are none, or they do not answer. -/
theorem poisoned_answer_iff {first again : List Forwarder → Result Message}
    {primaryValidation fallbackValidation : Validation}
    (built : buildDnsPolicy debug dns forwarders = .ok policy)
    (resolved : forwardResolve crypto engine dnssecAnchored key
      (policy.forwarding key first again primaryValidation fallbackValidation) = .ok res) :
    Poisoned dns (answerAddresses res) ↔ ∃ group resp, policy.forwardRoute key.name = some group ∧
      first group = .ok resp ∧ Poisoned dns (responseAddresses key resp) ∧
        (Forces debug dns key.name ∨ policy.upstreams.fallback = [] ∨
          ∀ other, again policy.upstreams.fallback = .ok other →
            Poisoned dns (responseAddresses key other)) := by
  obtain ⟨_, _, _, -, gate, -, -⟩ := build_spec built
  have asked (addrs : List IpAddr) : askedAgain
      (policy.forwarding key first again primaryValidation fallbackValidation) addrs = true ↔
        ¬ Forces debug dns key.name ∧ policy.upstreams.fallback ≠ [] ∧ Poisoned dns addrs := by
    change (!policy.forced key.name && policy.upstreams.hasFallback &&
      (policy.fallback.looksPoisoned addrs).isSome) = true ↔ _
    rw [Bool.and_eq_true, looksPoisoned_iff gate, ← (buildFallback_spec gate).1 key.name]
    unfold UpstreamPolicy.forced UpstreamGroups.hasFallback
    cases policy.fallback.forcesFallback key.name <;> cases policy.upstreams.fallback <;> simp
  obtain ⟨resp, answered, outcome⟩ := forwardResolve_eq_ok resolved
  obtain ⟨group, routed, answered⟩ := bind_eq_ok.mp answered
  have routed := okOr_eq_ok.mp routed
  -- The servers of the route gave this response and no other.
  have only : ∀ servers other, policy.forwardRoute key.name = some servers →
      first servers = .ok other → other = resp := by
    intro servers other located given
    obtain rfl := Option.some.inj (located.symm.trans routed)
    exact Except.ok.inj (given.symm.trans answered)
  rcases outcome with ⟨again, other, replied, addresses⟩ | ⟨stays, addresses⟩
  · obtain ⟨free, some, poisoned⟩ := (asked _).mp again
    rw [addresses]
    constructor
    · intro still
      refine ⟨group, resp, routed, answered, poisoned, .inr (.inr fun another given => ?_)⟩
      obtain rfl := Except.ok.inj (given.symm.trans replied)
      exact still
    · rintro ⟨servers, given, located, reply, -, forced | none | worse⟩
      · exact absurd forced free
      · exact absurd none some
      · exact worse other replied
  · rw [addresses]
    constructor
    · intro poisoned
      refine ⟨group, resp, routed, answered, poisoned, ?_⟩
      rcases stays with kept | silent
      · by_contra reasons
        rw [not_or, not_or] at reasons
        obtain ⟨free, some, -⟩ := reasons
        exact absurd ((asked _).mpr ⟨free, some, poisoned⟩) (Bool.eq_false_iff.mp kept)
      · exact .inr (.inr fun another given => absurd given (silent another))
    · rintro ⟨servers, given, located, reply, poisoned, -⟩
      rwa [only servers given located reply] at poisoned

end Gate

/-- The first servers answer with the loopback address. -/
def loopbackReply : Message :=
  wwwReply [⟨(wwwQuery none).name, .A, .IN, 60, .a (ipv4 127 0 0 1)⟩] [] [] none

theorem poisoned_answer_iff_loopback : ∃ policy res,
    buildDnsPolicy (fun _ => "") lanDns [] = .ok policy ∧
      forwardResolve plainCrypto { validatingEngine with dnssec := false } false (wwwQuery none)
        (policy.forwarding (wwwQuery none) (fun _ => .ok loopbackReply)
          (fun _ => .error ⟨.timeout, "no reply"⟩) keyedValidation keyedValidation) = .ok res ∧
      Poisoned lanDns (answerAddresses res) := by
  have routed : lanPolicy.forwardRoute (wwwQuery none).name =
      some [.plain ⟨.v4 (ipv4 1 1 1 1), 53, .udp⟩] := rfl
  obtain ⟨res, resolved⟩ : ∃ res,
      forwardResolve plainCrypto { validatingEngine with dnssec := false } false (wwwQuery none)
        (lanPolicy.forwarding (wwwQuery none) (fun _ => .ok loopbackReply)
          (fun _ => .error ⟨.timeout, "no reply"⟩) keyedValidation keyedValidation) = .ok res :=
    ⟨_, rfl⟩
  have spelled : CidrText "127.0.0.0/8".toList (.v4 (ipv4 127 0 0 0)) 8 :=
    @CidrText.slashed "127.0.0.0".toList ['8'] _ _ (by decide) (by decide) (by decide) (by decide)
  have shares : networkPart (ipv4 127 0 0 0) 8 = networkPart (ipv4 127 0 0 1) 8 := by decide
  have poisoned : Poisoned lanDns (responseAddresses (wwwQuery none) loopbackReply) :=
    ⟨.v4 (ipv4 127 0 0 1), by decide, _, List.mem_cons_of_mem _ List.mem_cons_self, _, _, spelled,
      shares⟩
  refine ⟨lanPolicy, res, buildDnsPolicy_lanDns, resolved,
    (poisoned_answer_iff buildDnsPolicy_lanDns resolved).mpr ?_⟩
  refine ⟨_, _, routed, rfl, poisoned, .inr (.inr fun other replied => ?_)⟩
  cases replied

end RecurseX.Forward
