import RecurseX.Cache.RepeatedHit
import RecurseX.Cache.Validation
import RecurseX.Resolver.Carried
import RecurseX.Resolver.Nonexistence
import RecurseX.Server

/-!
# The class of a query

The class a client asks for goes into the keys of the cache, but not into the questions
that are sent: these are always of the Internet class, and the class of the records that
come back is not looked at. `class_kept` says in which runs a resolution nevertheless
stays within the class of its query.
-/

namespace RecurseX

open Library

/-! ## Outgoing queries -/

/-- Whether an octet is an ASCII letter. -/
def isAsciiAlphabetic (octet : UInt8) : Bool :=
  (0x41 ≤ octet && octet ≤ 0x5a) || (0x61 ≤ octet && octet ≤ 0x7a)

/-- The upper-case form of an ASCII letter. -/
def asciiUpper (octet : UInt8) : UInt8 :=
  if 0x61 ≤ octet ∧ octet ≤ 0x7a then octet - 0x20 else octet

namespace Name

/-- The same labels with randomly chosen letter case; `upper` is the coin for an octet. -/
def randomizedCase (name : Name) (upper : Nat → Bool) : Name :=
  ⟨name.bytes.mapIdx fun index octet =>
    if isAsciiAlphabetic octet then
      if upper index then asciiUpper octet else octet
    else octet⟩

/-- Whether the name is eligible for case randomization. -/
def is0x20Eligible (name : Name) : Bool := name.bytes.any isAsciiAlphabetic

end Name

/-- What to put in the outgoing query's EDNS record. -/
structure EdnsSpec where
  udpSize : UInt16
  dnssecOk : Bool
  ecs : Option Ecs
  clientCookie : Option (Octets 8)

/-- The EDNS record for an outgoing query. -/
def EdnsSpec.toEdns (self : EdnsSpec) : Edns :=
  { Edns.new (max self.udpSize 512) with
    dnssecOk := self.dnssecOk
    options := (self.ecs.map EdnsOption.ecs).toList ++
      (self.clientCookie.map fun client => EdnsOption.cookie client []).toList }

/-- The ECS option of a query key's partition. -/
def ecsOption (key : QueryKey) : Option Ecs :=
  key.ecs.map fun ecs => ⟨ecs.family, ecs.bits, 0, ecs.addr⟩

/-- A fully-built outgoing query. -/
structure OutQuery where
  bytes : Bytes
  /-- The name in the case that is used on the wire. -/
  qname : Name
  id : UInt16

/-- The name an outgoing query spells. -/
def wireName (qname : Name) (use0x20 : Bool) (upper : Nat → Bool) : Name :=
  if use0x20 && qname.is0x20Eligible then qname.randomizedCase upper else qname

/-- The message of an outgoing query. -/
def queryMessage (id : UInt16) (qname : Name) (qtype : RrType) (rd : Bool) (edns : Option EdnsSpec)
    (use0x20 : Bool) (upper : Nat → Bool) : Message :=
  { Message.new id with
    flags := { HeaderFlags.default with rd := rd }
    questions := [⟨wireName qname use0x20 upper, qtype, .IN⟩]
    edns := edns.map EdnsSpec.toEdns }

/-- Build an outgoing query. -/
def buildQuery (id : UInt16) (qname : Name) (qtype : RrType) (rd : Bool) (edns : Option EdnsSpec)
    (use0x20 : Bool) (upper : Nat → Bool) : OutQuery where
  bytes := (queryMessage id qname qtype rd edns use0x20 upper).toBytes.toOption.getD []
  qname := wireName qname use0x20 upper
  id := id

/-- The engine settings of outgoing queries. -/
structure AskConfig where
  ednsUdpSize : UInt16
  use0x20 : Bool

/-- The message a resolution of the key sends to the servers it asks for a name. -/
def askMessage (engine : EngineConfig) (config : AskConfig) (key : QueryKey) (qname : Name)
    (id : UInt16) (upper : Nat → Bool) : Message :=
  queryMessage id qname key.rrType false
    (some ⟨config.ednsUdpSize, engine.dnssec || key.wantDnssec, ecsOption key, none⟩)
    config.use0x20 upper

/-! ## Data of one class -/

/-- Every record of the set is of the class. -/
def RrSet.OfClass (rrClass : RrClass) (set : RrSet) : Prop :=
  (∀ record ∈ set.records, record.rrClass = rrClass) ∧
    ∀ sig ∈ set.rrsigs, sig.rrClass = rrClass

/-- Every record of a cached item is of the class. -/
def EntryKind.OfClass (rrClass : RrClass) : EntryKind → Prop
  | .positive rrset => rrset.OfClass rrClass
  | .negative _ soa _ => ∀ record, soa = some record → record.rrClass = rrClass

/-- A record that is stated is of the class. -/
def Fact.OfClass (rrClass : RrClass) : Fact → Prop
  | .holds record _ => record.rrClass = rrClass
  | _ => True

variable {Score Stability Inputs : Type}

/-- What the operation puts under a key of the class is of the class. -/
def CacheOp.OfClass (rrClass : RrClass) : CacheOp Score Stability Inputs → Prop
  | .insertPositive key rrset _ _ _ => key.rrClass = rrClass → rrset.OfClass rrClass
  | .insertNegative key _ soa _ _ _ => key.rrClass = rrClass →
      ∀ record, soa = some record → record.rrClass = rrClass
  | .restoreEntry entry _ => entry.key.rrClass = rrClass → entry.kind.OfClass rrClass
  | _ => True

/-- The tiers agree with their indices, and what is held under a key of the class is of
the class. -/
structure SemanticCache.Classed (scoring : Scoring Score Stability Inputs) (rrClass : RrClass)
    (cache : SemanticCache Score Stability) : Prop where
  indexed : cache.AllIndexed scoring
  held : ∀ tier key entry, (cache.tierMap tier).get? key = some entry → key.rrClass = rrClass →
    entry.kind.OfClass rrClass

/-- A run stays within the class: what its cache holds, what it has collected, and what
it has filed. -/
structure WalkState.Classed (scoring : Scoring Score Stability Inputs) (rrClass : RrClass)
    (state : WalkState Score Stability) : Prop where
  cache : state.cache.Classed scoring rrClass
  answers : ∀ answer ∈ state.answers, answer.record.rrClass = rrClass
  rrsigs : ∀ sig ∈ state.rrsigs, sig.record.rrClass = rrClass
  authorities : ∀ authority ∈ state.authorities, authority.record.rrClass = rrClass
  cachedRrsigs : ∀ sig ∈ state.cachedRrsigs, sig.record.rrClass = rrClass
  filings : ∀ filing ∈ state.filings, filing.fact.OfClass rrClass

/-- What a turn takes over from the response of an exchange is of the class that was
asked for. Out-of-zone answers and glue are not taken over, and of a DNAME only what it
implies. -/
def Exchange.OfClass (key : QueryKey) (exchange : Exchange) : Prop :=
  match exchange.kind key with
  | .answer records rrsigs => inBailiwick exchange.currentName exchange.zone = true →
      (∀ record ∈ records, record.rrClass = key.rrClass) ∧
        ∀ sig ∈ rrsigs, sig.rrClass = key.rrClass
  | .cname record rrsigs => record.rrClass = key.rrClass ∧
      ∀ sig ∈ rrsigs, sig.rrClass = key.rrClass
  | .dname _ => True
  | .negative _ soa => ∀ record, soa = some record → record.rrClass = key.rrClass
  | .referral newZone ns glue => (∀ record ∈ ns, record.rrClass = key.rrClass) ∧
      ∀ record ∈ glue, inBailiwick record.name newZone = true → record.rrClass = key.rrClass
  | .empty => True

/-! ## The cache -/

theorem RrSet.mem_of_fromRecords {records : List Record} {maxTtlCap : UInt32} {set : RrSet}
    (built : fromRecords records maxTtlCap = .ok set) :
    (∀ record ∈ set.records, record ∈ records) ∧ ∀ sig ∈ set.rrsigs, sig ∈ records := by
  unfold fromRecords at built
  split at built
  · cases built
  · obtain ⟨_, _, built⟩ := bind_eq_ok.mp built
    obtain rfl := Except.ok.inj built
    exact ⟨fun record member => (List.mem_filter.mp member).1,
      fun record member => (List.mem_filter.mp member).1⟩

theorem RrSet.ofClass_of_fromRecords {rrClass : RrClass} {records : List Record}
    {maxTtlCap : UInt32} {set : RrSet} (built : fromRecords records maxTtlCap = .ok set)
    (classed : ∀ record ∈ records, record.rrClass = rrClass) : set.OfClass rrClass := by
  obtain ⟨data, sigs⟩ := mem_of_fromRecords built
  exact ⟨fun record member => classed record (data record member),
    fun sig member => classed sig (sigs sig member)⟩

/-- The classes on a ladder are the class of its key. -/
theorem CacheKey.rrClass_of_mem_ladder {key rung : CacheKey} (member : rung ∈ key.ladder) :
    rung.rrClass = key.rrClass := by
  obtain ⟨ecs, rfl⟩ := eq_withEcs_of_mem_ladder member
  rfl

namespace SemanticCache

variable {scoring : Scoring Score Stability Inputs} {rrClass : RrClass}
  {cache : SemanticCache Score Stability}

theorem Classed.new (config : CacheConfig Score) :
    (new config : SemanticCache Score Stability).Classed scoring rrClass := by
  refine ⟨new_allIndexed config, fun tier key entry stored => ?_⟩
  cases tier <;> simp [SemanticCache.new, SemanticCache.tierMap] at stored

/-- What an operation of the class puts into the cache is of the class. -/
theorem puts_ofClass {op : CacheOp Score Stability Inputs} (classed : op.OfClass rrClass)
    {key : CacheKey} {kind : EntryKind} {flag : Bool} (own : key.rrClass = rrClass)
    (puts : op.Puts scoring cache key kind flag) : kind.OfClass rrClass := by
  cases op with
  | insertPositive other rrset now inputs validated =>
      obtain ⟨rfl, ⟨ttl, rfl⟩, -⟩ := puts
      exact classed own
  | insertNegative other rcode soa authoritativeTtl now inputs =>
      obtain ⟨rfl, ⟨ttl, rfl⟩, -⟩ := puts
      exact classed own
  | restoreEntry entry now =>
      obtain ⟨rfl, rfl, -⟩ := puts
      exact classed own
  | _ => exact absurd puts id

variable [LinearOrder Score]

theorem Classed.apply (within : cache.Classed scoring rrClass)
    {op : CacheOp Score Stability Inputs} (classed : op.OfClass rrClass) :
    (op.apply scoring cache).Classed scoring rrClass := by
  refine ⟨AllIndexed.apply within.indexed op, fun tier key entry stored own => ?_⟩
  rcases AllIndexed.apply_stored within.indexed op stored with puts | flagged
  · exact puts_ofClass classed own puts
  · obtain ⟨source, old, before, kind, -⟩ := flagged.descends (cleared_descends scoring cache op)
    exact kind ▸ within.held source key old before own

theorem Classed.foldl {ops : List (CacheOp Score Stability Inputs)}
    (within : cache.Classed scoring rrClass) (classed : ∀ op ∈ ops, op.OfClass rrClass) :
    (ops.foldl (CacheOp.apply scoring) cache).Classed scoring rrClass := by
  induction ops generalizing cache with
  | nil => exact within
  | cons op ops inductionHypothesis =>
      exact inductionHypothesis (within.apply (classed op List.mem_cons_self))
        fun other member => classed other (List.mem_cons_of_mem _ member)

/-- What a lookup of a key of the class serves is of the class. -/
theorem Classed.lookup_ofClass (within : cache.Classed scoring rrClass) {key : CacheKey} {now : Ts}
    {hit : CacheEntry Score Stability} (own : key.rrClass = rrClass)
    (served : (cache.lookup scoring key now).1.Served hit) : hit.kind.OfClass rrClass := by
  obtain ⟨rung, member, tier, entry, stored, kind⟩ :=
    AllIndexed.lookup_stored within.indexed served
  rw [← kind]
  exact within.held tier rung entry stored ((CacheKey.rrClass_of_mem_ladder member).trans own)

end SemanticCache

/-! ## One turn -/

open WalkState (Adds)
open WalkState.Adds (Allowed)

theorem WalkState.Adds.mono {Filed Allowed : Filing → Prop} {state after : WalkState Score Stability}
    (added : Adds Filed state after) (allowed : ∀ filing, Filed filing → Allowed filing) :
    Adds Allowed state after :=
  { added with
    filings := fun filing member => (added.filings filing member).imp_right (allowed _)
    answers := fun record member => (added.answers record member).imp_right (allowed _)
    rrsigs := fun record member => (added.rrsigs record member).imp_right (allowed _)
    authorities := fun record member => (added.authorities record member).imp_right (allowed _) }

/-- The filing states no record of another class. -/
abbrev Filing.OfClass (rrClass : RrClass) (filing : Filing) : Prop := filing.fact.OfClass rrClass

/-- Except for what a DNAME implies, the turn of an exchange files what it takes over. -/
theorem FiledBy.ofClass {key : QueryKey} {exchange : Exchange} {fact : Fact} {place : Place}
    (classed : exchange.OfClass key) (diverts : ∀ record, exchange.kind key ≠ .dname record)
    (filed : FiledBy key exchange (exchange.kind key) fact place) : fact.OfClass key.rrClass := by
  have taken := exchange.kind_taken key
  unfold Exchange.OfClass at classed
  generalize exchange.kind key = kind at taken classed diverts filed
  cases filed with
  | answer member inside =>
      rw [(taken.1 _ member).2.1] at inside
      exact (classed inside).1 _ member
  | answerRrsig member kept =>
      obtain ⟨record, found, inside⟩ := kept
      rw [(taken.1 record found).2.1] at inside
      exact (classed inside).2 _ member
  | cname => exact classed.1
  | cnameRrsig member => exact classed.2 _ member
  | cnameCached => exact classed.1
  | synthesized => exact absurd rfl (diverts _)
  | soa => exact classed _ rfl
  | soaCached => exact classed _ rfl
  | nxdomain => trivial
  | nodata => trivial
  | ns member => exact classed.1 _ member
  | glue member inside => exact classed.2 _ member inside

section Turns

variable {scoring : Scoring Score Stability Inputs} {engine : EngineConfig} {key : QueryKey}
  {now : Ts} {turn : Turn Score Stability Inputs} {rrClass : RrClass}
  {state after : WalkState Score Stability}

theorem WalkState.Classed.adds (within : state.Classed scoring rrClass)
    (added : Adds (Filing.OfClass rrClass) state after)
    (cache : after.cache.Classed scoring rrClass) : after.Classed scoring rrClass where
  cache := cache
  answers answer member := (added.answers answer member).elim (within.answers answer) id
  rrsigs sig member := (added.rrsigs sig member).elim (within.rrsigs sig) id
  authorities record member := (added.authorities record member).elim (within.authorities record) id
  cachedRrsigs := added.cachedRrsigs ▸ within.cachedRrsigs
  filings filing member := (added.filings filing member).elim (within.filings filing) id

/-- The CNAME that a DNAME implies is of the Internet class. -/
theorem Turn.dnameArm_ofClass {record : Record} :
    Adds (Filing.OfClass .IN) state (dnameArm engine record state).state := by
  rcases dnameArm_cases engine record state with
    ⟨error, refused⟩ | ⟨target, synthesized, -, -, followed⟩
  · rw [refused]
    exact .refl state
  · rw [followed]
    refine capTtl_adds.trans (.trans (.appendAnswers fun made only => ?_) follow_adds)
    rw [List.mem_singleton.mp only]
    rfl

theorem Turn.endOnCached_classed {rrset : RrSet} (within : state.Classed scoring rrClass)
    (classed : rrset.OfClass rrClass) : (endOnCached rrset state).Classed scoring rrClass := by
  have signed : WalkState.Classed scoring rrClass { state with
      cachedRrsigs := state.cachedRrsigs ++ rrset.rrsigs.map fun record => ⟨record, .rrsig, none⟩ } :=
    { within with
      cachedRrsigs := fun sig member => by
        rcases List.mem_append.mp member with before | cached
        · exact within.cachedRrsigs sig before
        · obtain ⟨record, held, rfl⟩ := List.mem_map.mp cached
          exact classed.2 record held }
  refine signed.adds (capTtl_adds.trans (.appendAnswers fun answer member => ?_)) within.cache
  obtain ⟨record, held, rfl⟩ := List.mem_map.mp member
  exact classed.1 record held

theorem WalkState.Classed.start (engine : EngineConfig) (key : QueryKey)
    {cache : SemanticCache Score Stability} (within : cache.Classed scoring rrClass)
    (budget : FetchBudget) :
    (WalkState.start engine key cache budget).Classed scoring rrClass where
  cache := within
  answers _ member := absurd member List.not_mem_nil
  rrsigs _ member := absurd member List.not_mem_nil
  authorities _ member := absurd member List.not_mem_nil
  cachedRrsigs _ member := absurd member List.not_mem_nil
  filings _ member := absurd member List.not_mem_nil

variable [LinearOrder Score]

namespace Turn

theorem cachePositive_classed {cacheKey : CacheKey} {rrset : RrSet} {content : List Sourced}
    {inputs : Inputs} {validated : Bool} (within : state.cache.Classed scoring rrClass)
    (classed : rrset.OfClass rrClass) :
    (state.cachePositive scoring now cacheKey rrset content inputs validated).cache.Classed scoring
      rrClass := by
  change ((CacheOp.insertPositive cacheKey rrset now inputs validated).apply scoring
    state.cache).Classed scoring rrClass
  exact within.apply fun _ => classed

theorem cacheNegative_classed {cacheKey : CacheKey} {rcode : Rcode} {soa : Option Sourced}
    {soaTtl : UInt32} {inputs : Inputs} {fact : Fact} {source : Option Nat}
    (within : state.cache.Classed scoring rrClass)
    (classed : ∀ record ∈ soa, record.record.rrClass = rrClass) :
    (state.cacheNegative scoring now cacheKey rcode soa soaTtl inputs fact source).cache.Classed
      scoring rrClass := by
  change ((CacheOp.insertNegative cacheKey rcode (soa.map Sourced.record) soaTtl now inputs).apply
    scoring state.cache).Classed scoring rrClass
  refine within.apply fun _ record found => ?_
  obtain ⟨sourced, present, rfl⟩ := Option.map_eq_some_iff.mp found
  exact classed sourced present

theorem cacheNxdomain_classed {name : Name} {rcode : Rcode} {soa : Option Sourced}
    {soaTtl : UInt32} {source : Option Nat} (within : state.cache.Classed scoring rrClass) :
    (state.cacheNxdomain now name rcode soa soaTtl source).cache.Classed scoring rrClass := by
  change ((CacheOp.insertNxdomain name rcode (soa.map Sourced.record) soaTtl now).apply scoring
    state.cache).Classed scoring rrClass
  exact within.apply trivial

theorem cnameArm_classed {record : Record} {rrsigs : List Record}
    (within : state.cache.Classed scoring rrClass) (classed : record.rrClass = rrClass) :
    (turn.cnameArm scoring engine key now record rrsigs state).state.cache.Classed scoring
      rrClass := by
  rcases cnameArm_cases scoring engine key now turn record rrsigs state with
    ⟨error, refused⟩ | ⟨target, -, followed⟩
  · rw [refused]
    exact within
  · rw [followed, Progress.state, follow_cache]
    refine cachePositive_classed within ⟨fun other only => ?_, fun _ absent => ?_⟩
    · rw [List.mem_singleton.mp only]
      exact classed
    · exact absurd absent List.not_mem_nil

theorem cacheMissing_classed {rcode : Rcode} {soa : Option Sourced} {queryName : Name}
    (within : state.cache.Classed scoring rrClass)
    (classed : ∀ record ∈ soa, record.record.rrClass = rrClass) :
    (turn.cacheMissing scoring key now rcode soa queryName state).cache.Classed scoring
      rrClass := by
  unfold cacheMissing
  dsimp only
  split
  · exact cacheNxdomain_classed within
  · exact cacheNegative_classed within classed

theorem negativeArm_classed {rcode : Rcode} {soa : Option Record} {queryName : Name}
    (within : state.cache.Classed scoring rrClass)
    (classed : ∀ record, soa = some record → record.rrClass = rrClass) :
    (turn.negativeArm scoring key now rcode soa queryName state).state.cache.Classed scoring
      rrClass := by
  have sourced : ∀ record ∈ soa.map fun record => Sourced.mk record .soa state.source,
      record.record.rrClass = rrClass := by
    intro record found
    obtain ⟨own, present, rfl⟩ := Option.map_eq_some_iff.mp found
    exact classed own present
  have cached : (cachedNodata scoring key now turn rcode soa queryName state).cache.Classed scoring
      rrClass := cacheNegative_classed within sourced
  rcases negativeArm_cases scoring key now turn rcode soa queryName state with
    ⟨-, denied⟩ | ⟨-, ⟨-, deepened⟩ | ⟨-, concluded⟩⟩
  · rw [denied]
    refine cacheMissing_classed ?_ sourced
    rw [concludeNegative_cache]
    exact within
  · rw [deepened]
    exact cached
  · rw [concluded, Progress.state, concludeNegative_cache]
    exact cached

theorem cacheGlue_classed {newZone : Name} {inputs : Inputs} {record : Record}
    (within : state.cache.Classed scoring rrClass)
    (classed : inBailiwick record.name newZone = true → record.rrClass = rrClass) :
    (cacheGlue scoring engine key now newZone inputs state record).cache.Classed scoring
      rrClass := by
  unfold cacheGlue
  split_ifs with inside
  · split
    · rename_i set built
      refine cachePositive_classed within (RrSet.ofClass_of_fromRecords built fun other only => ?_)
      rw [List.mem_singleton.mp only]
      exact classed inside
    · exact within
  · exact within

theorem foldl_cacheGlue_classed {newZone : Name} {inputs : Inputs} {glue : List Record}
    (within : state.cache.Classed scoring rrClass)
    (classed : ∀ record ∈ glue, inBailiwick record.name newZone = true →
      record.rrClass = rrClass) :
    (glue.foldl (cacheGlue scoring engine key now newZone inputs) state).cache.Classed scoring
      rrClass := by
  induction glue generalizing state with
  | nil => exact within
  | cons record glue inductionHypothesis =>
      exact inductionHypothesis (cacheGlue_classed within (classed record List.mem_cons_self))
        fun other member => classed other (List.mem_cons_of_mem _ member)

theorem referralArm_classed {newZone : Name} {ns glue : List Record}
    (within : state.cache.Classed scoring rrClass)
    (servers : ∀ record ∈ ns, record.rrClass = rrClass)
    (addresses : ∀ record ∈ glue, inBailiwick record.name newZone = true →
      record.rrClass = rrClass) :
    (turn.referralArm scoring engine key now newZone ns glue state).state.cache.Classed scoring
      rrClass := by
  have cached {set : RrSet} (built : RrSet.fromRecords ns engine.maxTtlCap = .ok set) :
      (cachedReferral scoring engine key now turn newZone ns glue state set).cache.Classed scoring
        rrClass :=
    foldl_cacheGlue_classed (cachePositive_classed within
      (RrSet.ofClass_of_fromRecords built servers)) addresses
  rcases referralArm_cases scoring engine key now turn newZone ns glue state with
    ⟨error, refused⟩ | ⟨set, budget, -, built, ⟨error, refused⟩ | admitted⟩
  · rw [refused]
    exact within
  · rw [refused]
    exact cached built
  · rw [admitted, descend_cache]
    exact cached built

/-- A turn that receives a response of the class stays within the class. -/
theorem receive_classed {queryName : Name} {received : Received} (asked : key.rrClass = .IN)
    (within : state.Classed scoring key.rrClass)
    (classed : (state.exchange queryName received).OfClass key) :
    (turn.receive scoring engine key now queryName received state).state.Classed scoring
      key.rrClass := by
  have acting : (state.receiving (state.exchange queryName received)).Classed scoring
      key.rrClass := { within with }
  have added := @receive_adds _ _ _ state key engine now _ scoring turn queryName received
  have filed (diverts : ∀ record, (state.exchange queryName received).kind key ≠ .dname record) :=
    added.mono fun filing filed => FiledBy.ofClass classed diverts filed.2
  have sent := classed
  unfold Exchange.OfClass at sent
  rw [receive_eq] at filed ⊢
  cases kind : (state.exchange queryName received).kind key with
  | answer records rrsigs =>
      rw [kind] at filed
      refine acting.adds (filed nofun) ?_
      rw [answerArm_cache]
      exact acting.cache
  | cname record rrsigs =>
      rw [kind] at filed sent
      exact acting.adds (filed nofun) (cnameArm_classed acting.cache sent.1)
  | dname record =>
      refine acting.adds ?_ ?_
      · rw [asked]
        exact dnameArm_ofClass
      · dsimp only
        rw [dnameArm_cache]
        exact acting.cache
  | negative rcode soa =>
      rw [kind] at filed sent
      exact acting.adds (filed nofun) (negativeArm_classed acting.cache sent)
  | referral newZone ns glue =>
      rw [kind] at filed sent
      exact acting.adds (filed nofun) (referralArm_classed acting.cache sent.1 sent.2)
  | empty =>
      rw [kind] at filed
      refine acting.adds (filed nofun) ?_
      rw [emptyArm_cache]
      exact acting.cache

/-- The cache may end the walk, on data of the class. -/
theorem cachedEnd_classed (within : state.cache.Classed scoring key.rrClass) :
    ∃ cache, (cachedEnd scoring key now state).2 = { state with cache } ∧
      cache.Classed scoring key.rrClass ∧
      ∀ rrset, (cachedEnd scoring key now state).1 = some rrset → rrset.OfClass key.rrClass := by
  unfold cachedEnd
  split_ifs
  · exact ⟨state.cache, rfl, within, nofun⟩
  · have probed : (state.cache.lookup scoring ⟨state.currentName, key.rrType, key.rrClass,
        answerPartition key.ecs state.ecsScope⟩ now).2.Classed scoring key.rrClass := by
      change ((CacheOp.lookup ⟨state.currentName, key.rrType, key.rrClass,
        answerPartition key.ecs state.ecsScope⟩ now).apply scoring state.cache).Classed scoring
          key.rrClass
      exact within.apply trivial
    dsimp only
    split
    · rename_i entry fresh
      split
      · rename_i rrset content
        refine ⟨_, rfl, probed, ?_⟩
        rintro _ ⟨⟩
        have served := within.lookup_ofClass rfl (.inl fresh)
        rw [content] at served
        exact served
      · exact ⟨_, rfl, probed, nofun⟩
    · exact ⟨_, rfl, probed, nofun⟩

/-- What one turn can do, on a cache of the class. -/
theorem take_cases_classed (scoring : Scoring Score Stability Inputs) (engine : EngineConfig)
    (now : Ts) (turn : Turn Score Stability Inputs)
    (within : state.cache.Classed scoring key.rrClass)
    (others : ∀ op ∈ turn.others, op.OfClass key.rrClass) :
    ∃ cache minimized budget, cache.Classed scoring key.rrClass ∧
      ((∃ error, turn.take scoring engine key now state =
        .failed error { state with cache, minimized, budget }) ∨
      (∃ rrset, rrset.OfClass key.rrClass ∧ turn.take scoring engine key now state =
        .finished (endOnCached rrset { state with cache, minimized, budget })) ∨
      ∃ name received, turn.take scoring engine key now state =
        turn.receive scoring engine key now name received
          { state with cache, minimized, budget }) := by
  have acting := within.foldl others
  unfold take
  dsimp only
  split_ifs
  · exact ⟨_, _, _, acting, .inl ⟨_, rfl⟩⟩
  · exact ⟨_, _, _, acting, .inl ⟨_, rfl⟩⟩
  · exact ⟨_, _, _, acting, .inl ⟨_, rfl⟩⟩
  · obtain ⟨cache, unchanged, kept, found⟩ := @cachedEnd_classed _ _ _ scoring key now
      { state with cache := turn.others.foldl (CacheOp.apply scoring) state.cache } _ acting
    split
    · rename_i rrset middle probed
      rw [probed] at unchanged found
      subst unchanged
      exact ⟨cache, state.minimized, state.budget, kept, .inr (.inl ⟨rrset, found rrset rfl, rfl⟩)⟩
    · rename_i middle probed
      rw [probed] at unchanged
      subst unchanged
      split
      · exact ⟨_, _, _, kept, .inl ⟨_, rfl⟩⟩
      · exact ⟨_, _, _, kept, .inr (.inr ⟨_, _, rfl⟩)⟩

/-- One turn stays within the class, if the response it receives does. -/
theorem take_classed (scoring : Scoring Score Stability Inputs) (engine : EngineConfig)
    (now : Ts) (turn : Turn Score Stability Inputs) (asked : key.rrClass = .IN)
    (within : state.Classed scoring key.rrClass)
    (others : ∀ op ∈ turn.others, op.OfClass key.rrClass)
    (received : ∀ exchange ∈ (turn.take scoring engine key now state).state.exchanges,
      exchange.OfClass key) :
    (turn.take scoring engine key now state).state.Classed scoring key.rrClass := by
  obtain ⟨cache, minimized, budget, kept, ⟨error, failed⟩ | ⟨rrset, classed, ended⟩ |
    ⟨name, response, acted⟩⟩ := take_cases_classed scoring engine now turn within.cache others
  · rw [failed]
    exact { within with cache := kept }
  · rw [ended]
    exact endOnCached_classed { within with cache := kept } classed
  · rw [acted] at received ⊢
    refine receive_classed asked { within with cache := kept } (received _ ?_)
    rw [receive_adds.exchanges]
    exact List.mem_append_right _ List.mem_cons_self

end Turn

/-- Every walk stays within the class, if the responses it receives do. -/
theorem walk_classed (scoring : Scoring Score Stability Inputs) (engine : EngineConfig)
    (now : Ts) {turns : List (Turn Score Stability Inputs)} (asked : key.rrClass = .IN)
    (within : state.Classed scoring key.rrClass)
    (others : ∀ turn ∈ turns, ∀ op ∈ turn.others, op.OfClass key.rrClass)
    (received : ∀ exchange ∈ (walk scoring engine key now turns state).state.exchanges,
      exchange.OfClass key) :
    (walk scoring engine key now turns state).state.Classed scoring key.rrClass := by
  induction turns generalizing state with
  | nil => exact within
  | cons turn turns inductionHypothesis =>
      have kept := turn.take_classed scoring engine now asked within
        (others turn List.mem_cons_self)
      rw [walk] at received ⊢
      cases taken : turn.take scoring engine key now state with
      | running next =>
          rw [taken] at received kept
          refine inductionHypothesis (kept fun exchange member => received exchange ?_)
            (fun other member => others other (List.mem_cons_of_mem _ member)) received
          exact (walk_exchanges scoring engine key now turns next).subset member
      | finished next =>
          rw [taken] at received kept
          exact kept received
      | failed error next =>
          rw [taken] at received kept
          exact kept received

end Turns

/-! ## The end of a resolution -/

/-- Every record of a resolution is of the class. -/
structure Resolution.OfClass (rrClass : RrClass) (res : Resolution) : Prop where
  answers : ∀ answer ∈ res.answers, answer.record.rrClass = rrClass
  rrsigs : ∀ sig ∈ res.rrsigs, sig.record.rrClass = rrClass
  authorities : ∀ authority ∈ res.authorities, authority.record.rrClass = rrClass

theorem RrSet.OfClass.addRrsigs {rrClass : RrClass} {sigs : List Sourced} {set : RrSet}
    (classed : set.OfClass rrClass) (signed : ∀ sig ∈ sigs, sig.record.rrClass = rrClass) :
    (sigs.foldl (fun set sig => set.addRrsig sig.record) set).OfClass rrClass := by
  induction sigs generalizing set with
  | nil => exact classed
  | cons sig sigs inductionHypothesis =>
      refine inductionHypothesis ⟨classed.1, fun other member => ?_⟩
        fun other member => signed other (List.mem_cons_of_mem _ member)
      rcases List.mem_append.mp member with before | latest
      · exact classed.2 other before
      · rw [List.mem_singleton.mp latest]
        exact signed sig List.mem_cons_self

section Resolve

variable {scoring : Scoring Score Stability Inputs} {engine : EngineConfig} {key : QueryKey}
  {now : Ts} {inputs : Inputs} {res : Resolution} {rrClass : RrClass}
  {state : WalkState Score Stability}

theorem WalkState.Classed.resolution (within : state.Classed scoring rrClass) :
    (state.resolution key now).OfClass rrClass where
  answers := within.answers
  rrsigs sig member :=
    (List.mem_append.mp member).elim (within.rrsigs sig) (within.cachedRrsigs sig)
  authorities := within.authorities

theorem Resolution.OfClass.soa (classed : res.OfClass rrClass) :
    ∀ record ∈ res.soa, record.record.rrClass = rrClass :=
  fun record found => classed.authorities record (List.mem_of_find?_eq_some found)

variable [LinearOrder Score]

theorem cacheGroup_classed (classed : res.OfClass rrClass) (within : state.Classed scoring rrClass)
    {group : (Name × RrType) × List Sourced}
    (grouped : group ∈ (groupAnswers res.answers).toList) :
    (cacheGroup scoring engine key res inputs now state group).Classed scoring rrClass := by
  have data : ∀ record ∈ group.2, record.record.rrClass = rrClass :=
    fun record member => classed.answers record (mem_of_mem_group grouped member).1
  have sigs : ∀ sig ∈ res.rrsigs.filter fun sig => coversType sig.record group.1.2,
      sig.record.rrClass = rrClass :=
    fun sig member => classed.rrsigs sig (List.mem_filter.mp member).1
  unfold cacheGroup
  split_ifs
  · exact within
  · split
    · exact within
    · rename_i set built
      have content : set.OfClass rrClass := RrSet.ofClass_of_fromRecords built fun record member => by
        obtain ⟨sourced, held, rfl⟩ := List.mem_map.mp member
        exact data sourced held
      refine within.adds (.cachePositive fun record member => ?_)
        (Turn.cachePositive_classed within.cache (RrSet.OfClass.addRrsigs content sigs))
      exact (List.mem_append.mp member).elim (data record) (sigs record)

theorem foldl_cacheGroup_classed (classed : res.OfClass rrClass)
    (within : state.Classed scoring rrClass) {groups : List ((Name × RrType) × List Sourced)}
    (grouped : ∀ group ∈ groups, group ∈ (groupAnswers res.answers).toList) :
    (groups.foldl (cacheGroup scoring engine key res inputs now) state).Classed scoring
      rrClass := by
  induction groups generalizing state with
  | nil => exact within
  | cons group groups inductionHypothesis =>
      exact inductionHypothesis (cacheGroup_classed classed within (grouped group List.mem_cons_self))
        fun other member => grouped other (List.mem_cons_of_mem _ member)

theorem cacheOutcome_classed (classed : res.OfClass rrClass)
    (within : state.Classed scoring rrClass) :
    (cacheOutcome scoring key res inputs now state).Classed scoring rrClass := by
  have soa {place : Place} : Allowed (Filing.OfClass rrClass) res.soa.toList place :=
    fun record member => classed.soa record (Option.mem_toList.mp member)
  unfold cacheOutcome
  dsimp only
  split_ifs
  · split
    · exact within.adds (.cacheNxdomain trivial soa) (Turn.cacheNxdomain_classed within.cache)
    · exact within.adds (.cacheNegative trivial soa)
        (Turn.cacheNegative_classed within.cache classed.soa)
  · exact within.adds (.cacheNegative trivial soa)
      (Turn.cacheNegative_classed within.cache classed.soa)
  · exact within

theorem cacheResolution_classed (classed : res.OfClass rrClass)
    (within : state.Classed scoring rrClass) :
    (cacheResolution scoring engine key res inputs now state).Classed scoring rrClass :=
  cacheOutcome_classed classed (foldl_cacheGroup_classed classed within fun _ member => member)

/-- The exchanges of a resolution are those of its loop. -/
theorem resolveUncached_exchanges (scoring : Scoring Score Stability Inputs)
    (engine : EngineConfig) (key : QueryKey) (servedAt now : Ts)
    (turns : List (Turn Score Stability Inputs)) (closing : Closing Score Stability Inputs)
    (cache : SemanticCache Score Stability) (budget : FetchBudget) :
    (resolveUncached scoring engine key servedAt now turns closing cache budget).state.exchanges =
      (walk scoring engine key now turns (.start engine key cache budget)).state.exchanges := by
  have walked : (walk scoring engine key now turns (.start engine key cache budget)).Sound key :=
    walk_sound scoring engine now turns (.start engine cache budget) (.start cache budget)
  unfold resolveUncached
  split
  · rename_i state finished
    rw [finished] at walked
    have traced : (state.resolution key now).From key state.exchanges :=
      WalkState.Closed.resolution_from walked.settled walked.provenance
    rw [finished]
    exact cacheResolution_exchanges { traced with } rfl
  · rfl

end Resolve

/-- In every run for a query of the Internet class, the questions are of that class; and if
the records taken over from its responses are, and what is in the cache under keys of that
class, then so is every record that is returned or cached. -/
theorem class_kept [LinearOrder Score] (scoring : Scoring Score Stability Inputs)
    (engine : EngineConfig) (config : AskConfig) (key : QueryKey) (servedAt now : Ts)
    (turns : List (Turn Score Stability Inputs)) (closing : Closing Score Stability Inputs)
    (cacheConfig : CacheConfig Score) (earlier : List (CacheOp Score Stability Inputs))
    (budget : FetchBudget) (asked : key.rrClass = .IN)
    (held : ∀ op ∈ earlier, op.OfClass key.rrClass)
    (others : ∀ turn ∈ turns, ∀ op ∈ turn.others, op.OfClass key.rrClass)
    (closed : ∀ op ∈ closing.others, op.OfClass key.rrClass)
    (received : ∀ exchange ∈ (resolveUncached scoring engine key servedAt now turns closing
      (CacheOp.run scoring cacheConfig earlier) budget).state.exchanges, exchange.OfClass key) :
    (∀ name id upper, ∀ question ∈ (askMessage engine config key name id upper).questions,
      question.qclass = key.rrClass) ∧
    (resolveUncached scoring engine key servedAt now turns closing
      (CacheOp.run scoring cacheConfig earlier) budget).state.Classed scoring key.rrClass := by
  constructor
  · intro name id upper question member
    rw [List.mem_singleton.mp member, asked]
  · rw [resolveUncached_exchanges] at received
    have started : (WalkState.start engine key (CacheOp.run scoring cacheConfig earlier)
        budget).Classed scoring key.rrClass :=
      .start engine key ((SemanticCache.Classed.new cacheConfig).foldl held) budget
    have walked := walk_classed scoring engine now asked started others received
    unfold resolveUncached
    split
    · rename_i state finished
      rw [finished] at walked
      have returned : (state.resolution key now).OfClass key.rrClass :=
        WalkState.Classed.resolution walked
      exact cacheResolution_classed { returned with }
        { walked with cache := walked.cache.foldl closed }
    · exact walked

/-- A query of the CHAOS class. -/
def chaosQuery : QueryKey := { wwwQuery none with rrClass := ⟨3⟩ }

/-- The address of `www.com`, in the CHAOS class. -/
def chaosAddress : Received where
  message := wwwReply
    [⟨⟨[3, 119, 119, 119, 3, 99, 111, 109, 0]⟩, .A, ⟨3⟩, 3600, .a (ipv4 192 0 2 80)⟩] [] [] none
  parsed := ⟨[0, 1, 128, 0, 0, 1, 0, 1, 0, 0, 0, 0, 3, 119, 119, 119, 3, 99, 111, 109, 0, 0, 1, 0, 1,
    192, 12, 0, 1, 0, 3, 0, 0, 14, 16, 0, 4, 192, 0, 2, 80], by decide⟩

/-- The settings of the resolutions of `www.com`. -/
def wwwEngine : EngineConfig where
  rootEndpoints := [⟨.v4 (ipv4 198 41 0 4), 53, .udp⟩]
  authPort := 53
  qnameMinimization := false
  maxCnameDepth := 8
  maxReferrals := 16
  queryBudgetMs := 5000
  dnssec := false
  maxTtlCap := 86400

theorem runOn_answered {key : QueryKey} {responses : List Received} (rrClass : RrClass)
    (answered : (runOn key responses).state.answers.map (fun answer => answer.record.rrClass) =
      [rrClass]) :
    ∃ answer ∈ (runOn key responses).state.answers, answer.record.rrClass = rrClass := by
  refine List.mem_map.mp ?_
  rw [answered]
  exact List.mem_singleton_self rrClass

/-- An address of the Internet class, asked for and returned. -/
theorem internet_address_keeps_class :
    (∃ answer ∈ (runOn (wwwQuery none) [comReferral, wwwAddress]).state.answers,
      answer.record.rrClass = .IN) ∧
    (runOn (wwwQuery none) [comReferral, wwwAddress]).state.Classed ttlScoring .IN := by
  have exchanged : (runOn (wwwQuery none) [comReferral, wwwAddress]).state.exchanges =
      [⟨.root, (wwwQuery none).name, (wwwQuery none).name, comReferral⟩,
        ⟨⟨[3, 99, 111, 109, 0]⟩, (wwwQuery none).name, (wwwQuery none).name, wwwAddress⟩] := by
    decide
  refine ⟨runOn_answered .IN (by decide), ?_⟩
  refine (class_kept ttlScoring _ ⟨1232, true⟩ (wwwQuery none) 0 0 _ _ (smallConfig 1) [] _ rfl
    (fun _ member => absurd member List.not_mem_nil) ?_
    (fun _ member => absurd member List.not_mem_nil) ?_).2
  · intro turn member op
    obtain ⟨received, -, rfl⟩ := List.mem_map.mp member
    exact fun member => absurd member List.not_mem_nil
  · intro exchange member
    have there : exchange ∈ (runOn (wwwQuery none) [comReferral, wwwAddress]).state.exchanges :=
      member
    rw [exchanged] at there
    rcases List.mem_pair.mp there with rfl | rfl
    · exact ⟨by decide, by decide⟩
    · exact fun _ => ⟨by decide, by decide⟩

/-- A query of the CHAOS class is sent as one of the Internet class, answered with a record
of the Internet class, and the record is cached under the CHAOS class. A query of the
Internet class is answered with a record of the CHAOS class. -/
theorem class_lost :
    (∃ question ∈ (askMessage wwwEngine ⟨1232, true⟩ chaosQuery chaosQuery.name 1
      fun _ => false).questions, question.qclass ≠ chaosQuery.rrClass) ∧
    (∃ answer ∈ (runOn chaosQuery [comReferral, wwwAddress]).state.answers,
      answer.record.rrClass ≠ chaosQuery.rrClass) ∧
    ¬ (runOn chaosQuery [comReferral, wwwAddress]).state.cache.Classed ttlScoring
      chaosQuery.rrClass ∧
    ∃ answer ∈ (runOn (wwwQuery none) [comReferral, chaosAddress]).state.answers,
      answer.record.rrClass ≠ (wwwQuery none).rrClass := by
  refine ⟨by decide, ?_, fun within => ?_, ?_⟩
  · obtain ⟨answer, member, classed⟩ := @runOn_answered chaosQuery [comReferral, wwwAddress] .IN
      (by decide)
    exact ⟨answer, member, classed ▸ by decide⟩
  · have cached : (((runOn chaosQuery [comReferral, wwwAddress]).state.cache.tierMap .hot).get?
        chaosQuery.cacheKey).map (fun entry => entry.kind) = some (.positive
          ((RrSet.new chaosQuery.name .A .IN 3600).addRecord
            ⟨chaosQuery.name, .A, .IN, 3600, .a (ipv4 192 0 2 80)⟩)) := by
      decide
    obtain ⟨entry, stored, kind⟩ := Option.map_eq_some_iff.mp cached
    have classed := within.held .hot _ entry stored rfl
    rw [kind] at classed
    exact absurd (classed.1 _ (List.mem_singleton_self _)) (by decide)
  · obtain ⟨answer, member, classed⟩ := @runOn_answered (wwwQuery none) [comReferral, chaosAddress]
      ⟨3⟩ (by decide)
    exact ⟨answer, member, classed ▸ by decide⟩

end RecurseX
