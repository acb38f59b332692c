import RecurseX.Resolver.Basic

/-!
# The iterative resolution loop

One turn of the loop consumes at most one upstream response. What the network,
the clock, the other threads and the nested lookups contribute is in `Turn`; a
run is a list of turns. Everything that reaches the resolution or the cache goes
through `append` and the `cache` functions below, which file it.
-/

namespace RecurseX

open Library Std

/-- What the outside contributes to one turn of the loop. -/
structure Turn (Score Stability Inputs : Type) where
  /-- What others did to the shared cache since the last turn. -/
  others : List (CacheOp Score Stability Inputs)
  /-- What was spent of the budget since the last turn, this exchange included. -/
  spent : FetchBudget → FetchBudget
  /-- Whether the deadline has expired. -/
  expired : Bool
  /-- The estimator's signals for a name. -/
  scoreInputs : Name → Inputs
  /-- What querying the servers gives. -/
  response : Except Error Received
  /-- The addresses the nested lookups find for name servers without glue. -/
  nsAddresses : List Name → List Endpoint

/-- The state of the loop. The exchanges and filings are history. -/
structure WalkState (Score Stability : Type) where
  currentName : Name
  answers : List Sourced
  rrsigs : List Sourced
  authorities : List Sourced
  rcode : Rcode
  ttl : UInt32
  zone : Name
  servers : List Endpoint
  depth : Nat
  referrals : Nat
  cachedRrsigs : List Sourced
  minimized : Option Name
  /-- The ECS scope the most recent response declared. -/
  ecsScope : Option UInt8
  cache : SemanticCache Score Stability
  budget : FetchBudget
  exchanges : List Exchange
  filings : List Filing

/-- How far a resolution is. -/
inductive Progress (Score Stability : Type) where
  | running (state : WalkState Score Stability)
  | finished (state : WalkState Score Stability)
  | failed (error : ResolveError) (state : WalkState Score Stability)

variable {Score Stability Inputs : Type}

/-- The state a resolution is in, however far it got. -/
def Progress.state : Progress Score Stability → WalkState Score Stability
  | .running state => state
  | .finished state => state
  | .failed _ state => state

namespace WalkState

/-- The exchange a fact of the current turn comes from. -/
def source (state : WalkState Score Stability) : Option Nat := some (state.exchanges.length - 1)

/-- File facts. -/
def file (state : WalkState Score Stability) (filings : List Filing) :
    WalkState Score Stability :=
  { state with filings := state.filings ++ filings }

/-- Records of the current exchange, in a role. -/
def sourced (state : WalkState Score Stability) (role : Role) (records : List Record) :
    List Sourced :=
  records.map fun record => ⟨record, role, state.source⟩

/-- The exchange a response completes. -/
def exchange (state : WalkState Score Stability) (queryName : Name) (received : Received) :
    Exchange :=
  ⟨state.zone, state.currentName, queryName, received⟩

/-- The state that acts on an exchange. -/
def receiving (state : WalkState Score Stability) (exchange : Exchange) :
    WalkState Score Stability :=
  { state with ecsScope := exchange.scope, exchanges := state.exchanges ++ [exchange] }

/-- Report at most this TTL. -/
def capTtl (state : WalkState Score Stability) (ttl : UInt32) : WalkState Score Stability :=
  { state with ttl := min state.ttl ttl }

/-- Append answer records to the resolution. -/
def appendAnswers (state : WalkState Score Stability) (records : List Sourced) :
    WalkState Score Stability :=
  file { state with answers := state.answers ++ records }
    (records.map fun record => record.filed .resolution)

/-- Append RRSIG records to the resolution. -/
def appendRrsigs (state : WalkState Score Stability) (records : List Sourced) :
    WalkState Score Stability :=
  file { state with rrsigs := state.rrsigs ++ records }
    (records.map fun record => record.filed .resolution)

/-- Append authority records to the resolution. -/
def appendAuthorities (state : WalkState Score Stability) (records : List Sourced) :
    WalkState Score Stability :=
  file { state with authorities := state.authorities ++ records }
    (records.map fun record => record.filed .resolution)

variable [LinearOrder Score] (scoring : Scoring Score Stability Inputs) (now : Ts)

/-- Cache an RRset; `content` is its records. -/
def cachePositive (state : WalkState Score Stability) (key : CacheKey) (rrset : RrSet)
    (content : List Sourced) (inputs : Inputs) (validated : Bool) : WalkState Score Stability :=
  file { state with cache := state.cache.insertPositive scoring key rrset now inputs validated }
    (content.map fun record => record.filed (.cache key))

/-- Cache a negative answer under a key. -/
def cacheNegative (state : WalkState Score Stability) (key : CacheKey) (rcode : Rcode)
    (soa : Option Sourced) (soaTtl : UInt32) (inputs : Inputs) (fact : Fact)
    (source : Option Nat) : WalkState Score Stability :=
  file
    { state with cache :=
      state.cache.insertNegative scoring key rcode (soa.map Sourced.record) soaTtl now inputs }
    (⟨fact, source, .cache key⟩ :: soa.toList.map fun record => record.filed (.cache key))

/-- Put a name into the NXDOMAIN store. -/
def cacheNxdomain (state : WalkState Score Stability) (name : Name) (rcode : Rcode)
    (soa : Option Sourced) (soaTtl : UInt32) (source : Option Nat) :
    WalkState Score Stability :=
  file
    { state with cache :=
      state.cache.insertNxdomain name rcode (soa.map Sourced.record) soaTtl now }
    (⟨.nxdomain name, source, .nx name⟩ :: soa.toList.map fun record => record.filed (.nx name))

/-- The state at the start of a resolution. -/
def start (engine : EngineConfig) (key : QueryKey) (cache : SemanticCache Score Stability)
    (budget : FetchBudget) : WalkState Score Stability where
  currentName := key.name
  answers := []
  rrsigs := []
  authorities := []
  rcode := .NOERROR
  ttl := 0xffffffff
  zone := .root
  servers := engine.rootEndpoints
  depth := 0
  referrals := 0
  cachedRrsigs := []
  minimized := none
  ecsScope := none
  cache := cache
  budget := budget
  exchanges := []
  filings := []

/-- Continue with another name: from the root, unless it is in the zone at hand. -/
def follow (state : WalkState Score Stability) (engine : EngineConfig) (target : Name) :
    WalkState Score Stability :=
  let state :=
    if target.isSubdomainOf state.zone = false ∨ state.zone = .root then
      { state with zone := .root, servers := engine.rootEndpoints }
    else state
  { state with minimized := none, currentName := target, depth := state.depth + 1 }

end WalkState

/-! ## The arms of a turn -/

namespace Turn

variable [LinearOrder Score] (scoring : Scoring Score Stability Inputs) (engine : EngineConfig)
  (key : QueryKey) (now : Ts)

/-- An answer ends the walk; records outside the zone are left out. -/
def answerArm (records rrsigs : List Record) (state : WalkState Score Stability) :
    Progress Score Stability :=
  let keep := records.filter fun record => inBailiwick record.name state.zone
  if keep = [] then .failed .outOfBailiwick state
  else
    let found := state.sourced .answer keep
    let sigs := state.sourced .rrsig rrsigs
    let state := keep.foldl (fun state record => state.capTtl record.ttl) state
    .finished ((state.appendAnswers found).appendRrsigs sigs)

/-- A CNAME is cached under its own response's scope and followed. -/
def cnameArm (turn : Turn Score Stability Inputs) (record : Record) (rrsigs : List Record)
    (state : WalkState Score Stability) : Progress Score Stability :=
  match record.rdata with
  | .cname target =>
      let found := state.sourced .cname [record]
      let sigs := state.sourced .rrsig rrsigs
      let set := (RrSet.new record.name .CNAME key.rrClass record.ttl).addRecord record
      let cacheKey : CacheKey :=
        ⟨state.currentName, .CNAME, key.rrClass, answerPartition key.ecs state.ecsScope⟩
      let inputs := turn.scoreInputs state.currentName
      let state := ((state.capTtl record.ttl).appendAnswers found).appendRrsigs sigs
      .running ((state.cachePositive scoring now cacheKey set found inputs false).follow engine
        target)
  | _ => .failed .notCname state

/-- A DNAME contributes the CNAME it implies. -/
def dnameArm (record : Record) (state : WalkState Score Stability) : Progress Score Stability :=
  match record.rdata with
  | .dname target =>
      match synthesizeDnameCname state.currentName record.name target with
      | none => .failed .badSynthesis state
      | some synthesized =>
          let cname := makeCnameRecord state.currentName synthesized record.ttl
          let made := state.sourced .synthesized [cname]
          .running (((state.capTtl record.ttl).appendAnswers made).follow engine synthesized)
  | _ => .failed .notDname state

/-- Cache that `queryName` does not exist: a scope-0 answer goes into the shared
store, any other under its partition. -/
def cacheMissing (turn : Turn Score Stability Inputs) (rcode : Rcode) (soa : Option Sourced)
    (queryName : Name) (state : WalkState Score Stability) : WalkState Score Stability :=
  let soaTtl := (soa.map fun soa => negativeTtl soa.record).getD 0
  match answerPartition key.ecs state.ecsScope with
  | none => state.cacheNxdomain now queryName rcode soa soaTtl state.source
  | some ecs =>
      state.cacheNegative scoring now ⟨queryName, key.rrType, key.rrClass, some ecs⟩ rcode soa
        soaTtl (turn.scoreInputs queryName) (.nxdomain queryName) state.source

/-- End the walk on a negative answer. -/
def concludeNegative (rcode : Rcode) (soa : Option Sourced) (state : WalkState Score Stability) :
    WalkState Score Stability :=
  let state := { state with rcode := rcode }
  match soa with
  | some soa => (state.appendAuthorities [soa]).capTtl (negativeTtl soa.record)
  | none => state

/-- A negative answer: NXDOMAIN ends the walk, NODATA for a prefix deepens it. -/
def negativeArm (turn : Turn Score Stability Inputs) (rcode : Rcode) (soa : Option Record)
    (queryName : Name) (state : WalkState Score Stability) : Progress Score Stability :=
  let soa := soa.map fun record => Sourced.mk record .soa state.source
  if rcode.isNxdomain then
    .finished (turn.cacheMissing scoring key now rcode soa queryName
      (concludeNegative rcode soa state))
  else
    let soaTtl := (soa.map fun soa => negativeTtl soa.record).getD 0
    let state := state.cacheNegative scoring now
      ⟨queryName, key.rrType, key.rrClass, answerPartition key.ecs state.ecsScope⟩ rcode soa
      soaTtl (turn.scoreInputs queryName) (.nodata queryName) state.source
    if queryName ≠ state.currentName then
      .running { state with minimized := some (deepenMinimized state.currentName queryName) }
    else .finished (concludeNegative rcode soa state)

/-- The name servers an NS set names. -/
def nsNames (ns : List Record) : List Name :=
  ns.filterMap fun record =>
    match record.rdata with
    | .ns name => some name
    | _ => none

/-- Cache one glue record, if it lies inside the new zone. -/
def cacheGlue (newZone : Name) (inputs : Inputs) (state : WalkState Score Stability)
    (glue : Record) : WalkState Score Stability :=
  if inBailiwick glue.name newZone then
    match RrSet.fromRecords [glue] engine.maxTtlCap with
    | .ok set =>
        state.cachePositive scoring now (.plain glue.name glue.rrType key.rrClass) set
          (state.sourced .glue [glue]) inputs false
    | .error _ => state
  else state

/-- The addresses a referral's glue gives. -/
def glueEndpoints (nsNames : List Name) (zone : Name) (glue : List Record) : List Endpoint :=
  glue.filterMap fun record =>
    if nsNames.contains record.name = false ∧ inBailiwick record.name zone = false then none
    else match record.rdata with
      | .a ip => some ⟨.v4 ip, engine.authPort, .udp⟩
      | .aaaa ip => some ⟨.v6 ip, engine.authPort, .udp⟩
      | _ => none

/-- Descend into an admitted delegation. -/
def descend (turn : Turn Score Stability Inputs) (newZone : Name) (nsNames : List Name)
    (glue : List Record) (state : WalkState Score Stability) : Progress Score Stability :=
  let state := { state with zone := newZone, minimized := none }
  let endpoints := glueEndpoints engine nsNames newZone glue
  let endpoints := (if endpoints = [] then turn.nsAddresses nsNames else endpoints).eraseDups
  if endpoints = [] then .failed (.noServers newZone) state
  else .running { state with servers := endpoints }

/-- A referral: cache the NS set and the glue inside it, pass the gate, descend. -/
def referralArm (turn : Turn Score Stability Inputs) (newZone : Name) (ns glue : List Record)
    (state : WalkState Score Stability) : Progress Score Stability :=
  let state := { state with referrals := state.referrals + 1 }
  if newZone.isStrictSubdomainOf state.zone = false then
    .failed (.referralNotBelow newZone state.zone) state
  else match RrSet.fromRecords ns engine.maxTtlCap with
    | .error error => .failed (.badNsSet error.msg) state
    | .ok set =>
        let inputs := turn.scoreInputs newZone
        let found := state.sourced .ns ns
        let state := state.cachePositive scoring now (.plain newZone .NS key.rrClass) set found
          inputs false
        let state := glue.foldl (cacheGlue scoring engine key now newZone inputs) state
        let names := nsNames ns
        let withGlue := names.countP fun name => glue.any fun record => record.name == name
        match state.budget.admitReferral names.length glue.length withGlue with
        | (.reject _, budget) => .failed (.refusedDelegation newZone) { state with budget }
        | (.accept .., budget) =>
            match budget.spendDelegation with
            | none => .failed .delegationBudget { state with budget }
            | some budget => turn.descend engine newZone names glue { state with budget }

/-- Nothing usable: a prefix is deepened, the full name is an error. -/
def emptyArm (queryName : Name) (state : WalkState Score Stability) : Progress Score Stability :=
  if queryName ≠ state.currentName then
    .running { state with minimized := some (deepenMinimized state.currentName queryName) }
  else .failed .emptyResponse state

/-- Act on a response. -/
def receive (turn : Turn Score Stability Inputs) (queryName : Name) (received : Received)
    (state : WalkState Score Stability) : Progress Score Stability :=
  let state := state.receiving (state.exchange queryName received)
  match classifyResponse received.message state.currentName key.rrType state.zone with
  | .answer records rrsigs => answerArm records rrsigs state
  | .cname record rrsigs => turn.cnameArm scoring engine key now record rrsigs state
  | .dname record => dnameArm engine record state
  | .negative rcode soa => turn.negativeArm scoring key now rcode soa queryName state
  | .referral newZone ns glue => turn.referralArm scoring engine key now newZone ns glue state
  | .empty => emptyArm queryName state

/-- While an alias chain is followed, the cache may already have its end. -/
def cachedEnd (state : WalkState Score Stability) :
    Option RrSet × WalkState Score Stability :=
  if state.depth = 0 then (none, state)
  else
    let probed := state.cache.lookup scoring
      ⟨state.currentName, key.rrType, key.rrClass, answerPartition key.ecs state.ecsScope⟩ now
    let state := { state with cache := probed.2 }
    match probed.1 with
    | .fresh entry =>
        match entry.kind with
        | .positive rrset => (some rrset, state)
        | .negative .. => (none, state)
    | _ => (none, state)

/-- End the walk on a set of the cache. -/
def endOnCached (rrset : RrSet) (state : WalkState Score Stability) :
    WalkState Score Stability :=
  let cached (role : Role) (records : List Record) : List Sourced :=
    records.map fun record => ⟨record, role, none⟩
  let state := { state with cachedRrsigs := state.cachedRrsigs ++ cached .rrsig rrset.rrsigs }
  (state.capTtl rrset.ttl).appendAnswers (cached .answer rrset.records)

/-- The name to ask for. -/
def queryName (state : WalkState Score Stability) : Name :=
  match state.minimized with
  | some name => name
  | none =>
      if engine.qnameMinimization then minimizedName state.currentName state.zone
      else state.currentName

/-- One turn of the loop. -/
def take (turn : Turn Score Stability Inputs) (state : WalkState Score Stability) :
    Progress Score Stability :=
  let state := { state with cache := turn.others.foldl (CacheOp.apply scoring) state.cache }
  if turn.expired then .failed (.timeout engine.queryBudgetMs) state
  else if engine.maxCnameDepth < state.depth then .failed .cnameLoop state
  else if engine.maxReferrals < state.referrals then .failed .referralLoop state
  else match cachedEnd scoring key now state with
    | (some rrset, state) => .finished (endOnCached rrset state)
    | (none, state) =>
        let name := queryName engine state
        let state := { state with minimized := none, budget := turn.spent state.budget }
        match turn.response with
        | .error error => .failed (.upstream error) state
        | .ok received => turn.receive scoring engine key now name received state

end Turn

/-! ## Whole resolutions -/

namespace WalkState

/-- The resolution a finished walk returns. -/
def resolution (key : QueryKey) (now : Ts) (state : WalkState Score Stability) : Resolution where
  name := key.name
  rrType := key.rrType
  rrClass := key.rrClass
  rcode := state.rcode
  answers := state.answers
  authorities := state.authorities
  rrsigs := state.rrsigs ++ state.cachedRrsigs
  validated := false
  ttl := if state.ttl = 0xffffffff then 0 else state.ttl
  fromCache := false
  stale := false
  ecsScope := state.ecsScope
  servedAt := now

end WalkState

/-- Group answer records by name and type. -/
def groupAnswers (answers : List Sourced) :
    TreeMap (Name × RrType) (List Sourced) rankOrder :=
  groupBy rankOrder (fun answer => (answer.record.name, answer.record.rrType)) answers

/-- What the outside contributes to the end of a resolution. -/
structure Closing (Score Stability Inputs : Type) where
  /-- What others, and the lookups of the validation, did to the shared cache. -/
  others : List (CacheOp Score Stability Inputs)
  /-- Whether validation found the signatures in order. -/
  verdict : Bool
  scoreInputs : Name → Inputs

section Resolve

variable [LinearOrder Score] (scoring : Scoring Score Stability Inputs) (engine : EngineConfig)
  (key : QueryKey)

/-- Cache one group of answer records with the RRSIGs of its type. -/
def cacheGroup (res : Resolution) (inputs : Inputs) (now : Ts)
    (state : WalkState Score Stability) (group : (Name × RrType) × List Sourced) :
    WalkState Score Stability :=
  if group.1.2 = .RRSIG then state
  else match RrSet.fromRecords (group.2.map Sourced.record) engine.maxTtlCap with
    | .error _ => state
    | .ok set =>
        let sigs := res.rrsigs.filter fun sig => coversType sig.record group.1.2
        let set := sigs.foldl (fun set sig => set.addRrsig sig.record)
          { set with validated := res.validated }
        state.cachePositive scoring now
          ⟨group.1.1, group.1.2, key.rrClass, answerPartition key.ecs res.ecsScope⟩ set
          (group.2 ++ sigs) inputs res.validated

/-- The SOA of a resolution. -/
def Resolution.soa (res : Resolution) : Option Sourced :=
  res.authorities.find? fun authority => authority.record.rrType == .SOA

/-- Cache the negative outcome of a resolution, under the name that was asked. -/
def cacheOutcome (res : Resolution) (inputs : Inputs) (now : Ts)
    (state : WalkState Score Stability) : WalkState Score Stability :=
  let partition := answerPartition key.ecs res.ecsScope
  let soaTtl := (res.soa.map fun soa => negativeTtl soa.record).getD 0
  if res.rcode.isNxdomain then
    match partition with
    | none => state.cacheNxdomain now res.name res.rcode res.soa soaTtl state.source
    | some ecs =>
        state.cacheNegative scoring now ⟨res.name, res.rrType, res.rrClass, some ecs⟩ res.rcode
          res.soa soaTtl inputs (.nxdomain res.name) state.source
  else if res.answers.isEmpty then
    state.cacheNegative scoring now ⟨res.name, res.rrType, res.rrClass, partition⟩ res.rcode
      res.soa soaTtl inputs (.nodata res.name) state.source
  else state

/-- Populate the cache from a wire resolution. -/
def cacheResolution (res : Resolution) (inputs : Inputs) (now : Ts)
    (state : WalkState Score Stability) : WalkState Score Stability :=
  cacheOutcome scoring key res inputs now
    ((groupAnswers res.answers).toList.foldl (cacheGroup scoring engine key res inputs now) state)

/-- The loop, over the turns there are. -/
def walk (now : Ts) : List (Turn Score Stability Inputs) → WalkState Score Stability →
    Progress Score Stability
  | [], state => .running state
  | turn :: turns, state =>
      match turn.take scoring engine key now state with
      | .running state => walk now turns state
      | .finished state => .finished state
      | .failed error state => .failed error state

/-- A resolution that the cache could not answer: the loop, the validation, and
what is cached at the end. `servedAt` is when it began, `now` when the loop did. -/
def resolveUncached (servedAt now : Ts) (turns : List (Turn Score Stability Inputs))
    (closing : Closing Score Stability Inputs) (cache : SemanticCache Score Stability)
    (budget : FetchBudget) : Progress Score Stability :=
  match walk scoring engine key now turns (.start engine key cache budget) with
  | .finished state =>
      let res := state.resolution key now
      let validated := engine.dnssec && !key.cd && !res.answers.isEmpty && closing.verdict
      let res := { res with servedAt := servedAt, validated := validated }
      let state := { state with cache := closing.others.foldl (CacheOp.apply scoring) state.cache }
      .finished (cacheResolution scoring engine key res (closing.scoreInputs res.name) servedAt
        state)
  | progress => progress

end Resolve

end RecurseX
