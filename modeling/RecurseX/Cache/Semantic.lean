import Mathlib.Order.Defs.LinearOrder
import RecurseX.Bounded
import RecurseX.Cache.Key
import RecurseX.Library.RankedMap
import RecurseX.RrSet

/-!
# The semantic multi-tier cache

Three capacity-bounded tiers, an NXDOMAIN store, and the operations that move
entries between them. Scores and stability models compute in floating point in
the source; here they are parameters (`Scoring`), scores with a linear order.
-/

namespace RecurseX

open Library Std

/-- The score and stability functions the cache calls. -/
structure Scoring (Score Stability Inputs : Type) where
  /-- The score of an entry before it is scored. -/
  zero : Score
  score : (ttlSecs : UInt32) → (now lastServed : Ts) → Stability → Inputs → (bytes : Nat) → Score
  /-- The rank a tier orders its index by. -/
  rankOf : Score → UInt64
  defaultInputs : Inputs
  withConfig : (ttl : UInt32) → (now : Ts) → Stability
  observeWeighted : Stability → (ttl : UInt32) → (changed : Bool) → (now : Ts) →
    (validated : Bool) → Stability
  observe : Stability → (ttl : UInt32) → (changed : Bool) → (now : Ts) → Stability
  recordFailure : Stability → (now : Ts) → Stability

/-- Which tier an entry lives in. -/
inductive Tier where
  | hot
  | warm
  | cold
deriving DecidableEq, Repr

/-- What a cached entry holds. -/
inductive EntryKind where
  | positive (rrset : RrSet)
  | negative (rcode : Rcode) (soa : Option Record) (ttlSecs : UInt32)
deriving DecidableEq, Repr

/-- A cache entry. -/
structure CacheEntry (Score Stability : Type) where
  key : CacheKey
  kind : EntryKind
  inserted : Ts
  expires : Ts
  served : Nat
  lastServed : Ts
  stability : Stability
  validated : Bool
  score : Score
  tier : Tier
  refreshing : Bool

section Entry

variable {Score Stability Inputs : Type}

namespace CacheEntry

variable (self : CacheEntry Score Stability)

/-- The entry's TTL in seconds. -/
def ttlSecs : UInt32 :=
  match self.kind with
  | .positive rrset => rrset.ttl
  | .negative _ _ ttlSecs => ttlSecs

/-- Whether the entry is live at `now`. -/
def isFresh (now : Ts) : Bool := decide (now < self.expires)

/-- Whether the entry is expired but still within the stale window. -/
def isStaleServable (now : Ts) (staleWindowSecs : UInt32) : Bool :=
  decide (self.expires ≤ now ∧ now < saturatingAdd self.expires (secondsToTs staleWindowSecs))

/-- Estimated footprint in bytes. -/
def estimatedBytes : Nat :=
  match self.kind with
  | .positive rrset => rrset.estimatedBytes
  | .negative _ soa _ =>
      self.key.name.wireLen + 64 + (soa.map fun record => record.rdata.wire.length + 40).getD 0

/-- The target of a cached alias. -/
def cnameTarget : Option Name :=
  match self.kind with
  | .positive rrset => rrset.cnameTarget
  | .negative .. => none

end CacheEntry

/-- A tier finds an entry by its key and orders it by the rank of its score. -/
def Scoring.ranking (scoring : Scoring Score Stability Inputs) :
    Ranking CacheKey UInt64 (CacheEntry Score Stability) :=
  ⟨CacheEntry.key, fun entry => scoring.rankOf entry.score⟩

/-- One capacity-bounded tier of the cache. -/
abbrev TierMap (Score Stability : Type) := RankedMap CacheKey UInt64 (CacheEntry Score Stability)

end Entry

/-- A per-name NXDOMAIN entry. -/
structure NegativeEntry where
  expires : Ts
  rcode : Rcode
  soa : Option Record
  inserted : Ts
  served : Nat
deriving DecidableEq, Repr

/-- The outcome of a cache lookup. -/
inductive LookupOutcome (Score Stability : Type) where
  | fresh (entry : CacheEntry Score Stability)
  | stale (entry : CacheEntry Score Stability)
  | cname (target : Name) (ttlSecs : UInt32) (expires : Ts) (validated : Bool)
  | nxDomain (expires : Ts) (soa : Option Record)
  | miss

/-- Cache configuration. -/
structure CacheConfig (Score : Type) where
  hotCapacity : Nat
  warmCapacity : Nat
  coldCapacity : Nat
  nxCapacity : Nat
  staleWindowSecs : UInt32
  negativeTtlCap : UInt32
  maxTtlCap : UInt32
  hotAdmitScore : Score
  warmAdmitScore : Score
  minAdmitScore : Score

/-- Runtime cache counters. -/
structure CacheStats where
  hits : Nat
  misses : Nat
  staleServed : Nat
  inserts : Nat
  evictions : Nat
deriving DecidableEq, Repr

/-- The semantic multi-tier cache. -/
structure SemanticCache (Score Stability : Type) where
  config : CacheConfig Score
  hot : TierMap Score Stability
  warm : TierMap Score Stability
  cold : TierMap Score Stability
  nx : TreeMap Name NegativeEntry
  stats : CacheStats

/-- How many entries a full NXDOMAIN store gives up at a time. -/
def evictStride : Nat := 8

namespace SemanticCache

variable {Score Stability Inputs α : Type} [LinearOrder Score]

/-- A cache with the given configuration. -/
def new (config : CacheConfig Score) : SemanticCache Score Stability where
  config := config
  hot := .new config.hotCapacity
  warm := .new config.warmCapacity
  cold := .new config.coldCapacity
  nx := ∅
  stats := ⟨0, 0, 0, 0, 0⟩

/-- The storage behind a tier label. -/
def tierMap (self : SemanticCache Score Stability) : Tier → TierMap Score Stability
  | .hot => self.hot
  | .warm => self.warm
  | .cold => self.cold

/-- Replace the storage behind a tier label. -/
def setTier (self : SemanticCache Score Stability) (tier : Tier) (map : TierMap Score Stability) :
    SemanticCache Score Stability :=
  match tier with
  | .hot => { self with hot := map }
  | .warm => { self with warm := map }
  | .cold => { self with cold := map }

/-- Count one event. -/
def count (self : SemanticCache Score Stability) (event : CacheStats → CacheStats) :
    SemanticCache Score Stability :=
  { self with stats := event self.stats }

/-- The tier below, if any. -/
def lowerTier : Tier → Option Tier
  | .hot => some .warm
  | .warm => some .cold
  | .cold => none

/-- The tier a score earns, or `none` when the entry is not worth caching. A
tier configured with capacity 0 is disabled. -/
def tierFor (self : SemanticCache Score Stability) (score : Score) : Option Tier :=
  let earned :=
    if self.config.hotAdmitScore ≤ score then some Tier.hot
    else if self.config.warmAdmitScore ≤ score then some Tier.warm
    else if self.config.minAdmitScore ≤ score then some Tier.cold
    else none
  match earned with
  | none => none
  | some tier =>
      if (self.tierMap tier).capacity = 0 then
        (lowerTier tier).filter fun lower => decide (0 < (self.tierMap lower).capacity)
      else some tier

variable (scoring : Scoring Score Stability Inputs)

/-- One demotion step for an entry evicted from `source`. -/
def spill (self : SemanticCache Score Stability) (victim : CacheEntry Score Stability)
    (source : Tier) : SemanticCache Score Stability :=
  let self := self.count fun stats => { stats with evictions := stats.evictions + 1 }
  match lowerTier source with
  | none => self
  | some next =>
      if (self.tierMap next).capacity = 0 then self
      else
        -- The lower tier's own victim is dropped rather than pushed further down.
        self.setTier next
          ((self.tierMap next).insert scoring.ranking { victim with tier := next }).2

/-- Store an entry in the tier its score earns. -/
def place (self : SemanticCache Score Stability) (entry : CacheEntry Score Stability) :
    SemanticCache Score Stability :=
  match self.tierFor entry.score with
  | none => self
  | some tier =>
      let inserted := (self.tierMap tier).insert scoring.ranking { entry with tier }
      let self := self.setTier tier inserted.2
      match inserted.1 with
      | some victim => self.spill scoring victim tier
      | none => self

/-- Park an expired entry in the cold tier. -/
def park (self : SemanticCache Score Stability) (entry : CacheEntry Score Stability) :
    SemanticCache Score Stability :=
  { self with cold := (self.cold.insert scoring.ranking { entry with tier := .cold }).2 }

/-- The score of an entry as it stands. -/
def scoreEntry (entry : CacheEntry Score Stability) (now : Ts) (inputs : Inputs) : Score :=
  scoring.score entry.ttlSecs now entry.lastServed entry.stability inputs entry.estimatedBytes

/-! ## Lookup -/

/-- Look a key up tier by tier, from the tiers that are left. -/
def lookupExactIn (key : CacheKey) (now : Ts) : List Tier → SemanticCache Score Stability →
    Option (LookupOutcome Score Stability) × SemanticCache Score Stability
  | [], self => (none, self)
  | tier :: tiers, self =>
      match (self.tierMap tier).remove scoring.ranking key with
      | (none, _) => lookupExactIn key now tiers self
      | (some entry, map) =>
          let self := self.setTier tier map
          let entry := { entry with lastServed := now, served := entry.served + 1 }
          if entry.isFresh now then
            let self := self.count fun stats => { stats with hits := stats.hits + 1 }
            let entry := { entry with score := scoreEntry scoring entry now scoring.defaultInputs }
            (some (.fresh entry), self.place scoring entry)
          else if entry.isStaleServable now self.config.staleWindowSecs then
            let self := self.count fun stats =>
              { stats with hits := stats.hits + 1, staleServed := stats.staleServed + 1 }
            (some (.stale entry), self.park scoring { entry with tier := .cold })
          else
            -- Fully dead: drop it and keep looking.
            lookupExactIn key now tiers
              (self.count fun stats => { stats with misses := stats.misses + 1 })

/-- Look up the exact key. -/
def lookupExact (self : SemanticCache Score Stability) (key : CacheKey) (now : Ts) :
    Option (LookupOutcome Score Stability) × SemanticCache Score Stability :=
  lookupExactIn scoring key now [.hot, .warm, .cold] self

/-- Look an alias up tier by tier, from the tiers that are left. -/
def lookupCnameIn (key : CacheKey) (now : Ts) : List Tier → SemanticCache Score Stability →
    Option (LookupOutcome Score Stability) × SemanticCache Score Stability
  | [], self => (none, self)
  | tier :: tiers, self =>
      match (self.tierMap tier).remove scoring.ranking key with
      | (none, _) => lookupCnameIn key now tiers self
      | (some entry, map) =>
          let self := self.setTier tier map
          match entry.cnameTarget with
          | none => lookupCnameIn key now tiers (self.place scoring entry)
          | some target =>
              if entry.isFresh now then
                let self := self.count fun stats => { stats with hits := stats.hits + 1 }
                let entry := { entry with lastServed := now, served := entry.served + 1 }
                let entry :=
                  { entry with score := scoreEntry scoring entry now scoring.defaultInputs }
                (some (.cname target entry.ttlSecs entry.expires entry.validated),
                  self.place scoring entry)
              else if entry.isStaleServable now self.config.staleWindowSecs then
                lookupCnameIn key now tiers (self.park scoring { entry with tier := .cold })
              else lookupCnameIn key now tiers self

/-- Look up an alias under the exact key. -/
def lookupCname (self : SemanticCache Score Stability) (key : CacheKey) (now : Ts) :
    Option (LookupOutcome Score Stability) × SemanticCache Score Stability :=
  lookupCnameIn scoring key now [.hot, .warm, .cold] self

/-- Try ever broader scopes below `scope` bits, down to one bit. -/
def walkScopes (key : CacheKey) (ecs : EcsKey)
    (probe : SemanticCache Score Stability → CacheKey → Option α × SemanticCache Score Stability) :
    (scope : Nat) → SemanticCache Score Stability → Option α × SemanticCache Score Stability
  | 0, self => (none, self)
  | scope + 1, self =>
      if scope = 0 then (none, self)
      else match ecs.withScope (UInt8.ofNat scope) with
        | none => (none, self)
        | some broader =>
            match probe self (key.withEcs (some broader)) with
            | (some hit, self) => (some hit, self)
            | (none, self) => walkScopes key ecs probe scope self

/-- Try the requester's own partition, then every broader ECS scope, then the
global partition. -/
def walkPartitions (key : CacheKey)
    (probe : SemanticCache Score Stability → CacheKey → Option α × SemanticCache Score Stability)
    (self : SemanticCache Score Stability) : Option α × SemanticCache Score Stability :=
  match probe self key with
  | (some hit, self) => (some hit, self)
  | (none, self) =>
      match key.ecs with
      | none => (none, self)
      | some ecs =>
          match walkScopes key ecs probe ecs.bits.toNat self with
          | (some hit, self) => (some hit, self)
          | (none, self) => probe self (key.withEcs none)

/-- The end of a lookup: NXDOMAIN for the name, else a miss. -/
def lookupNx (self : SemanticCache Score Stability) (key : CacheKey) (now : Ts) :
    LookupOutcome Score Stability × SemanticCache Score Stability :=
  let missed := self.count fun stats => { stats with misses := stats.misses + 1 }
  match self.nx[key.name]? with
  | some negative =>
      if now < negative.expires then
        (.nxDomain negative.expires negative.soa,
          self.count fun stats => { stats with hits := stats.hits + 1 })
      else (.miss, missed)
  | none => (.miss, missed)

/-- Look up a key. -/
def lookup (self : SemanticCache Score Stability) (key : CacheKey) (now : Ts) :
    LookupOutcome Score Stability × SemanticCache Score Stability :=
  match walkPartitions key (fun self key => self.lookupExact scoring key now) self with
  | (some outcome, self) => (outcome, self)
  | (none, self) =>
      if key.rrType ≠ .CNAME ∧ key.rrType ≠ .ANY then
        match walkPartitions (key.withType .CNAME)
            (fun self key => self.lookupCname scoring key now) self with
        | (some outcome, self) => (outcome, self)
        | (none, self) => self.lookupNx key now
      else self.lookupNx key now

/-! ## Insertion -/

/-- Take the entry of a key out of the first tier that holds it. -/
def takeEntryAny (self : SemanticCache Score Stability) (key : CacheKey) :
    Option (CacheEntry Score Stability) × SemanticCache Score Stability :=
  match self.hot.remove scoring.ranking key with
  | (some entry, map) => (some entry, { self with hot := map })
  | (none, _) =>
      match self.warm.remove scoring.ranking key with
      | (some entry, map) => (some entry, { self with warm := map })
      | (none, _) =>
          match self.cold.remove scoring.ranking key with
          | (some entry, map) => (some entry, { self with cold := map })
          | (none, _) => (none, self)

/-- Insert a positive RRset under `key`. -/
def insertPositive (self : SemanticCache Score Stability) (key : CacheKey) (rrset : RrSet)
    (now : Ts) (inputs : Inputs) (validated : Bool) : SemanticCache Score Stability :=
  let rrset := { rrset with ttl := min rrset.ttl self.config.maxTtlCap }
  let expires := saturatingAdd now (secondsToTs rrset.ttl)
  match self.takeEntryAny scoring key with
  | (some entry, self) =>
      let changed := match entry.kind with
        | .positive old => !old.sameData rrset
        | .negative .. => true
      let entry := { entry with
        stability := scoring.observeWeighted entry.stability rrset.ttl changed now validated
        inserted := now
        expires := expires
        -- Unvalidated data does not erase the validation of identical data.
        validated := validated || (!changed && entry.validated)
        refreshing := false
        kind := .positive rrset }
      self.place scoring { entry with score := scoreEntry scoring entry now inputs }
  | (none, self) =>
      let entry : CacheEntry Score Stability :=
        { key := key
          kind := .positive rrset
          inserted := now
          expires := expires
          served := 0
          lastServed := now
          stability := scoring.observeWeighted (scoring.withConfig rrset.ttl now) rrset.ttl false
            now validated
          validated := validated
          score := scoring.zero
          tier := .warm
          refreshing := false }
      let entry := { entry with score := scoreEntry scoring entry now inputs }
      (self.count fun stats => { stats with inserts := stats.inserts + 1 }).place scoring entry

/-- Insert a negative (NODATA) answer for `key`. -/
def insertNegative (self : SemanticCache Score Stability) (key : CacheKey) (rcode : Rcode)
    (soa : Option Record) (authoritativeTtl : UInt32) (now : Ts) (inputs : Inputs) :
    SemanticCache Score Stability :=
  let ttl := min authoritativeTtl self.config.negativeTtlCap
  let expires := saturatingAdd now (secondsToTs ttl)
  match self.takeEntryAny scoring key with
  | (some entry, self) =>
      let entry := { entry with
        inserted := now
        expires := expires
        -- Replacing data counts as a change.
        stability := scoring.observe entry.stability ttl true now
        kind := .negative rcode soa ttl
        refreshing := false }
      self.place scoring { entry with score := scoreEntry scoring entry now inputs }
  | (none, self) =>
      let entry : CacheEntry Score Stability :=
        { key := key
          kind := .negative rcode soa ttl
          inserted := now
          expires := expires
          served := 0
          lastServed := now
          stability := scoring.withConfig ttl now
          validated := false
          score := scoring.zero
          tier := .warm
          refreshing := false }
      let entry := { entry with score := scoreEntry scoring entry now inputs }
      (self.count fun stats => { stats with inserts := stats.inserts + 1 }).place scoring entry

/-- Insert an entry restored from the persistent tier. -/
def restoreEntry (self : SemanticCache Score Stability) (entry : CacheEntry Score Stability)
    (now : Ts) : SemanticCache Score Stability :=
  if entry.expires ≤ now then self.park scoring entry else self.place scoring entry

/-- Insert an NXDOMAIN answer for `name`. -/
def insertNxdomain (self : SemanticCache Score Stability) (name : Name) (rcode : Rcode)
    (soa : Option Record) (authoritativeTtl : UInt32) (now : Ts) :
    SemanticCache Score Stability :=
  let ttl := min authoritativeTtl self.config.negativeTtlCap
  let expires := saturatingAdd now (secondsToTs ttl)
  match self.nx[name]? with
  | some entry =>
      { self with nx := self.nx.insert name { entry with
          expires := max entry.expires expires
          inserted := now
          soa := soa.or entry.soa } }
  | none =>
      let nx :=
        if self.config.nxCapacity ≤ self.nx.size then
          (evictForCapacity self.nx now evictStride NegativeEntry.expires).1
        else self.nx
      { self with nx := nx.insert name ⟨expires, rcode, soa, now, 0⟩ }

/-! ## Maintenance -/

/-- Re-score an entry with externally provided signals. -/
def rescore (self : SemanticCache Score Stability) (key : CacheKey) (inputs : Inputs) (now : Ts) :
    SemanticCache Score Stability :=
  match self.takeEntryAny scoring key with
  | (none, self) => self
  | (some entry, self) =>
      self.place scoring { entry with score := scoreEntry scoring entry now inputs }

/-- Remove every entry that is past its stale window. -/
def sweep (self : SemanticCache Score Stability) (now : Ts) : SemanticCache Score Stability :=
  let keep : CacheKey → CacheEntry Score Stability → Bool := fun _ entry =>
    decide (now ≤ saturatingAdd entry.expires (secondsToTs self.config.staleWindowSecs))
  { self with
    hot := self.hot.retain scoring.ranking keep
    warm := self.warm.retain scoring.ranking keep
    cold := self.cold.retain scoring.ranking keep
    nx := retainEntries self.nx fun _ entry => decide (now < entry.expires) }

/-- The first tier that holds a key. -/
def findTier (self : SemanticCache Score Stability) (key : CacheKey) :
    Option (Tier × CacheEntry Score Stability) :=
  match self.hot.get? key with
  | some entry => some (.hot, entry)
  | none =>
      match self.warm.get? key with
      | some entry => some (.warm, entry)
      | none => (self.cold.get? key).map fun entry => (.cold, entry)

/-- Change the entry of a key in the first tier that holds it. -/
def modifyEntry (self : SemanticCache Score Stability) (key : CacheKey)
    (change : CacheEntry Score Stability → CacheEntry Score Stability) :
    SemanticCache Score Stability :=
  match self.findTier key with
  | some (tier, _) => self.setTier tier ((self.tierMap tier).modify key change)
  | none => self

/-- Record a refresh failure for a key and end the refresh. -/
def recordRefreshFailure (self : SemanticCache Score Stability) (key : CacheKey) (now : Ts) :
    SemanticCache Score Stability :=
  self.modifyEntry key fun entry =>
    { entry with stability := scoring.recordFailure entry.stability now, refreshing := false }

/-- Clear the in-flight mark of a key. -/
def clearRefreshing (self : SemanticCache Score Stability) (key : CacheKey) :
    SemanticCache Score Stability :=
  self.modifyEntry key fun entry => { entry with refreshing := false }

/-- Mark a key as refreshing. Returns false if a refresh is already in flight. -/
def markRefreshing (self : SemanticCache Score Stability) (key : CacheKey) :
    Bool × SemanticCache Score Stability :=
  match self.findTier key with
  | some (_, entry) =>
      if entry.refreshing then (false, self)
      else (true, self.modifyEntry key fun entry => { entry with refreshing := true })
  | none => (false, self)

end SemanticCache

end RecurseX
