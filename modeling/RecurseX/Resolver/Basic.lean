import RecurseX.Budget
import RecurseX.Cache.Operations
import RecurseX.Engine
import RecurseX.Library.Grouping
import RecurseX.Message.RoundTrip

/-!
# Queries, resolutions and what a resolution learned from where

Records carry the exchange they came from and the part they play. Nothing the
resolver decides depends on either; they are there to say what a resolution did
with the responses it consumed.
-/

namespace RecurseX

open Library

/-- What a client asked. -/
structure QueryKey where
  name : Name
  rrType : RrType
  rrClass : RrClass
  ecs : Option EcsKey
  wantDnssec : Bool
  cd : Bool
  /-- Names exist only as the parser makes them. -/
  named : name.Canonical

/-- The cache key for this query. -/
def QueryKey.cacheKey (self : QueryKey) : CacheKey := ⟨self.name, self.rrType, self.rrClass, self.ecs⟩

/-- An IP address. -/
inductive IpAddr where
  | v4 (ip : Octets 4)
  | v6 (ip : Octets 16)
deriving DecidableEq, Repr

/-- The transports of an endpoint. -/
inductive Proto where
  | udp | tcp | tls | doH | doH3 | doQ
deriving DecidableEq, Repr

/-- How to reach a server. -/
structure Endpoint where
  ip : IpAddr
  port : UInt16
  proto : Proto
deriving DecidableEq, Repr

/-- The engine settings of the iterative walk. -/
structure EngineConfig where
  /-- The root servers. -/
  rootEndpoints : List Endpoint
  authPort : UInt16
  qnameMinimization : Bool
  maxCnameDepth : Nat
  maxReferrals : Nat
  queryBudgetMs : Nat
  /-- Whether to request and validate DNSSEC. -/
  dnssec : Bool
  /-- The cap of the cache's configuration. -/
  maxTtlCap : UInt32

/-- Why an iterative resolution failed. -/
inductive ResolveError where
  /-- `query budget of … ms exhausted during resolution` -/
  | timeout (queryBudgetMs : Nat)
  /-- `CNAME/DNAME loop during resolution` -/
  | cnameLoop
  /-- `referral loop during resolution` -/
  | referralLoop
  /-- No server gave a usable response. -/
  | upstream (error : Error)
  /-- `answer out of bailiwick` -/
  | outOfBailiwick
  /-- `classify said CNAME but it is not` -/
  | notCname
  /-- `classify said DNAME but it is not` -/
  | notDname
  /-- `bad DNAME synthesis` -/
  | badSynthesis
  /-- `referral to … not below …` -/
  | referralNotBelow (newZone zone : Name)
  /-- The NS records do not form a set. -/
  | badNsSet (msg : String)
  /-- `refused an unusable delegation for …` -/
  | refusedDelegation (newZone : Name)
  /-- `resolution budget exhausted (delegation depth)` -/
  | delegationBudget
  /-- `no usable servers for zone …` -/
  | noServers (zone : Name)
  /-- `empty response from upstream` -/
  | emptyResponse
deriving DecidableEq

/-! ## Exchanges and filings -/

/-- A response that came off the wire. -/
structure Received where
  message : Message
  parsed : ∃ buf, Message.parse buf = .ok message
deriving DecidableEq

/-- One response an iterative resolution consumed: the zone whose servers were
asked, the name being resolved, the name asked for, and the response. -/
structure Exchange where
  zone : Name
  currentName : Name
  queryName : Name
  received : Received
deriving DecidableEq

/-- The ECS scope the response declared. -/
def Exchange.scope (exchange : Exchange) : Option UInt8 :=
  (exchange.received.message.edns.bind Edns.ecs).map Ecs.scopePrefix

/-- The part a record plays in a resolution. -/
inductive Role where
  | answer
  | cname
  /-- A CNAME made from a DNAME. -/
  | synthesized
  | rrsig
  | soa
  | ns
  | glue
deriving DecidableEq, Repr

/-- A record, the part it plays, and the exchange it came from; `none` is the
cache. -/
structure Sourced where
  record : Record
  role : Role
  source : Option Nat

/-- Something a resolution states. -/
inductive Fact where
  | holds (record : Record) (role : Role)
  /-- The name does not exist. -/
  | nxdomain (name : Name)
  /-- The name has no data of the type asked. -/
  | nodata (name : Name)

/-- Where a fact is put. -/
inductive Place where
  /-- The resolution that is returned. -/
  | resolution
  /-- The cache, under a key. -/
  | cache (key : CacheKey)
  /-- The store of names that do not exist. -/
  | nx (name : Name)
deriving DecidableEq

/-- A fact, the exchange it came from and where it was put. -/
structure Filing where
  fact : Fact
  source : Option Nat
  place : Place

/-- The filing of a record. -/
def Sourced.filed (sourced : Sourced) (place : Place) : Filing :=
  ⟨.holds sourced.record sourced.role, sourced.source, place⟩

/-- The outcome of a resolution. -/
structure Resolution where
  name : Name
  rrType : RrType
  rrClass : RrClass
  rcode : Rcode
  answers : List Sourced
  authorities : List Sourced
  rrsigs : List Sourced
  validated : Bool
  ttl : UInt32
  fromCache : Bool
  stale : Bool
  ecsScope : Option UInt8
  servedAt : Ts

/-! ## Names to ask for -/

/-- The last `keep` labels of a name; the name itself when they do not form one. -/
def lastLabels (qname : Name) (keep : Nat) : Name :=
  match Name.fromWire (pushLabels (qname.labels.drop (qname.labelCount - keep)) ++ [0]) 0 with
  | .ok (name, _) => name
  | .error _ => qname

/-- The minimal name to query for `qname` given the current zone. -/
def minimizedName (qname zone : Name) : Name :=
  if qname.labelCount ≤ zone.labelCount then qname else lastLabels qname (zone.labelCount + 1)

/-- The next minimized query: one label deeper than the current one. -/
def deepenMinimized (qname current : Name) : Name :=
  if qname.labelCount ≤ current.labelCount then qname
  else lastLabels qname (current.labelCount + 1)

/-- The negative TTL is the minimum of the SOA's TTL and its MINIMUM field. -/
def negativeTtl (soa : Record) : UInt32 :=
  let minimum := match soa.rdata with
    | .soa _ _ _ _ _ _ minimum => minimum
    | _ => 0
  min soa.ttl minimum

end RecurseX
