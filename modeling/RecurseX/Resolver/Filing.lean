import RecurseX.Resolver.Iterative

/-!
# What a resolution files

`FiledBy` says, for each kind of response, what the turn that consumed it may
file and where; `receive_adds` that the turn files nothing else.
-/

namespace RecurseX

open Library Std

variable {Score Stability Inputs : Type}

/-- How the response of an exchange drove the loop. -/
def Exchange.kind (exchange : Exchange) (key : QueryKey) : ResponseKind :=
  classifyResponse exchange.received.message exchange.currentName key.rrType exchange.zone

theorem Exchange.kind_taken (exchange : Exchange) (key : QueryKey) :
    (exchange.kind key).TakenFrom exchange.received.message exchange.currentName key.rrType
      exchange.zone :=
  classifyResponse_taken _ _ _ _

/-- Whether a DNAME record gives the name a new one. -/
def Record.redirects (record : Record) (name : Name) : Bool :=
  match record.rdata with
  | .dname target => (synthesizeDnameCname name record.name target).isSome
  | _ => false

/-- Where the turn of an exchange caches a negative fact: a scope-0 NXDOMAIN in
the shared store, everything else under its partition. -/
inductive NegativePlace (key : QueryKey) (exchange : Exchange) : Place → Prop where
  | nx (shared : answerPartition key.ecs exchange.scope = none) :
      NegativePlace key exchange (.nx exchange.queryName)
  | cache :
      NegativePlace key exchange (.cache ⟨exchange.queryName, key.rrType, key.rrClass,
        answerPartition key.ecs exchange.scope⟩)

/-- What the turn of an exchange files, by the kind of its response. -/
inductive FiledBy (key : QueryKey) (exchange : Exchange) :
    ResponseKind → Fact → Place → Prop where
  | answer {records rrsigs : List Record} {record : Record} (member : record ∈ records)
      (inside : inBailiwick record.name exchange.zone = true) :
      FiledBy key exchange (.answer records rrsigs) (.holds record .answer) .resolution
  | answerRrsig {records rrsigs : List Record} {sig : Record} (member : sig ∈ rrsigs)
      (kept : ∃ record ∈ records, inBailiwick record.name exchange.zone = true) :
      FiledBy key exchange (.answer records rrsigs) (.holds sig .rrsig) .resolution
  | cname {record : Record} {rrsigs : List Record} :
      FiledBy key exchange (.cname record rrsigs) (.holds record .cname) .resolution
  | cnameRrsig {record : Record} {rrsigs : List Record} {sig : Record} (member : sig ∈ rrsigs) :
      FiledBy key exchange (.cname record rrsigs) (.holds sig .rrsig) .resolution
  | cnameCached {record : Record} {rrsigs : List Record} :
      FiledBy key exchange (.cname record rrsigs) (.holds record .cname)
        (.cache ⟨exchange.currentName, .CNAME, key.rrClass,
          answerPartition key.ecs exchange.scope⟩)
  | synthesized {record cname : Record} (redirects : record.redirects exchange.currentName = true)
      (owned : cname.name = exchange.currentName) :
      FiledBy key exchange (.dname record) (.holds cname .synthesized) .resolution
  | soa {rcode : Rcode} {soa : Record} :
      FiledBy key exchange (.negative rcode (some soa)) (.holds soa .soa) .resolution
  | soaCached {rcode : Rcode} {soa : Record} {place : Place}
      (placed : NegativePlace key exchange place) :
      FiledBy key exchange (.negative rcode (some soa)) (.holds soa .soa) place
  | nxdomain {rcode : Rcode} {soa : Option Record} {place : Place}
      (missing : rcode.isNxdomain = true) (placed : NegativePlace key exchange place) :
      FiledBy key exchange (.negative rcode soa) (.nxdomain exchange.queryName) place
  | nodata {rcode : Rcode} {soa : Option Record} {place : Place}
      (present : rcode.isNxdomain = false) (placed : NegativePlace key exchange place) :
      FiledBy key exchange (.negative rcode soa) (.nodata exchange.queryName) place
  | ns {newZone : Name} {ns glue : List Record} {record : Record} (member : record ∈ ns)
      (below : newZone.isStrictSubdomainOf exchange.zone = true) :
      FiledBy key exchange (.referral newZone ns glue) (.holds record .ns)
        (.cache (.plain newZone .NS key.rrClass))
  | glue {newZone : Name} {ns glue : List Record} {record : Record} (member : record ∈ glue)
      (inside : inBailiwick record.name newZone = true)
      (below : newZone.isStrictSubdomainOf exchange.zone = true) :
      FiledBy key exchange (.referral newZone ns glue) (.holds record .glue)
        (.cache (.plain record.name record.rrType key.rrClass))

/-- The filing is one of the exchange, which `source` points to. -/
def FiledFrom (key : QueryKey) (exchange : Exchange) (kind : ResponseKind) (source : Option Nat)
    (filing : Filing) : Prop :=
  filing.source = source ∧ FiledBy key exchange kind filing.fact filing.place

/-- One part of a run: what it adds to the resolution and to the filings
satisfies `Filed`. -/
structure WalkState.Adds (Filed : Filing → Prop) (state after : WalkState Score Stability) :
    Prop where
  exchanges : after.exchanges = state.exchanges
  ecsScope : after.ecsScope = state.ecsScope
  cachedRrsigs : after.cachedRrsigs = state.cachedRrsigs
  filings : ∀ filing ∈ after.filings, filing ∈ state.filings ∨ Filed filing
  answers : ∀ record ∈ after.answers, record ∈ state.answers ∨ Filed (record.filed .resolution)
  rrsigs : ∀ record ∈ after.rrsigs, record ∈ state.rrsigs ∨ Filed (record.filed .resolution)
  authorities : ∀ record ∈ after.authorities,
    record ∈ state.authorities ∨ Filed (record.filed .resolution)

namespace WalkState.Adds

variable {Filed : Filing → Prop} {state middle after : WalkState Score Stability}

theorem refl (state : WalkState Score Stability) : Adds Filed state state :=
  ⟨rfl, rfl, rfl, fun _ => .inl, fun _ => .inl, fun _ => .inl, fun _ => .inl⟩

theorem trans (first : Adds Filed state middle) (second : Adds Filed middle after) :
    Adds Filed state after where
  exchanges := second.exchanges.trans first.exchanges
  ecsScope := second.ecsScope.trans first.ecsScope
  cachedRrsigs := second.cachedRrsigs.trans first.cachedRrsigs
  filings filing member := (second.filings filing member).elim (first.filings filing) .inr
  answers record member := (second.answers record member).elim (first.answers record) .inr
  rrsigs record member := (second.rrsigs record member).elim (first.rrsigs record) .inr
  authorities record member :=
    (second.authorities record member).elim (first.authorities record) .inr

/-- Changes to the parts of the state that hold no facts. -/
theorem of_eq (exchanges : after.exchanges = state.exchanges)
    (ecsScope : after.ecsScope = state.ecsScope)
    (cachedRrsigs : after.cachedRrsigs = state.cachedRrsigs)
    (filings : after.filings = state.filings) (answers : after.answers = state.answers)
    (rrsigs : after.rrsigs = state.rrsigs) (authorities : after.authorities = state.authorities) :
    Adds Filed state after :=
  ⟨exchanges, ecsScope, cachedRrsigs, fun _ member => .inl (filings ▸ member),
    fun _ member => .inl (answers ▸ member), fun _ member => .inl (rrsigs ▸ member),
    fun _ member => .inl (authorities ▸ member)⟩

/-- Filing facts of the source, whatever happens to the cache. -/
theorem file {filings : List Filing} {cache : SemanticCache Score Stability}
    (filed : ∀ filing ∈ filings, Filed filing) :
    Adds Filed state (WalkState.file { state with cache := cache } filings) :=
  ⟨rfl, rfl, rfl, fun filing member => (List.mem_append.mp member).imp_right (filed filing),
    fun _ => .inl, fun _ => .inl, fun _ => .inl⟩

/-- Records that may be put into a place. -/
def Allowed (Filed : Filing → Prop) (records : List Sourced) (place : Place) : Prop :=
  ∀ record ∈ records, Filed (record.filed place)

theorem Allowed.filed {records : List Sourced} {place : Place}
    (allowed : Allowed Filed records place) :
    ∀ filing ∈ records.map fun record => record.filed place, Filed filing := by
  intro filing member
  obtain ⟨record, found, rfl⟩ := List.mem_map.mp member
  exact allowed record found

theorem appendAnswers {records : List Sourced} (allowed : Allowed Filed records .resolution) :
    Adds Filed state (state.appendAnswers records) := by
  have grown : Adds Filed state { state with answers := state.answers ++ records } :=
    ⟨rfl, rfl, rfl, fun _ => .inl,
      fun record member => (List.mem_append.mp member).imp_right (allowed record),
      fun _ => .inl, fun _ => .inl⟩
  exact grown.trans (file allowed.filed)

theorem appendRrsigs {records : List Sourced} (allowed : Allowed Filed records .resolution) :
    Adds Filed state (state.appendRrsigs records) := by
  have grown : Adds Filed state { state with rrsigs := state.rrsigs ++ records } :=
    ⟨rfl, rfl, rfl, fun _ => .inl, fun _ => .inl,
      fun record member => (List.mem_append.mp member).imp_right (allowed record), fun _ => .inl⟩
  exact grown.trans (file allowed.filed)

theorem appendAuthorities {records : List Sourced}
    (allowed : Allowed Filed records .resolution) :
    Adds Filed state (state.appendAuthorities records) := by
  have grown : Adds Filed state { state with authorities := state.authorities ++ records } :=
    ⟨rfl, rfl, rfl, fun _ => .inl, fun _ => .inl, fun _ => .inl,
      fun record member => (List.mem_append.mp member).imp_right (allowed record)⟩
  exact grown.trans (file allowed.filed)

theorem cacheNxdomain {now : Ts} {name : Name} {rcode : Rcode} {soa : Option Sourced}
    {soaTtl : UInt32} {source : Option Nat} (filed : Filed ⟨.nxdomain name, source, .nx name⟩)
    (allowed : Allowed Filed soa.toList (.nx name)) :
    Adds Filed state (state.cacheNxdomain now name rcode soa soaTtl source) := by
  refine file fun filing member => ?_
  rcases List.mem_cons.mp member with rfl | member
  · exact filed
  · exact allowed.filed filing member

variable [LinearOrder Score] {scoring : Scoring Score Stability Inputs} {now : Ts} {key : CacheKey}

theorem cachePositive {rrset : RrSet} {content : List Sourced} {inputs : Inputs} {validated : Bool}
    (allowed : Allowed Filed content (.cache key)) :
    Adds Filed state
      (state.cachePositive scoring now key rrset content inputs validated) :=
  file allowed.filed

theorem cacheNegative {rcode : Rcode} {soa : Option Sourced} {soaTtl : UInt32} {inputs : Inputs}
    {fact : Fact} {source : Option Nat} (filed : Filed ⟨fact, source, .cache key⟩)
    (allowed : Allowed Filed soa.toList (.cache key)) :
    Adds Filed state
      (state.cacheNegative scoring now key rcode soa soaTtl inputs fact source) := by
  refine file fun filing member => ?_
  rcases List.mem_cons.mp member with rfl | member
  · exact filed
  · exact allowed.filed filing member

end WalkState.Adds

/-! ## The arms -/

/-- The state acts on the exchange. -/
structure WalkState.At (state : WalkState Score Stability) (exchange : Exchange) : Prop where
  zone : state.zone = exchange.zone
  currentName : state.currentName = exchange.currentName
  ecsScope : state.ecsScope = exchange.scope

namespace Turn

open WalkState (At Adds)
open WalkState.Adds (Allowed)

variable {state : WalkState Score Stability} {key : QueryKey} {exchange : Exchange}
  {engine : EngineConfig} {now : Ts} {records rrsigs ns glue : List Record} {record : Record}
  {rcode : Rcode} {newZone : Name}

theorem allowed_sourced {kind : ResponseKind} {role : Role} {place : Place}
    (filed : ∀ record ∈ records, FiledBy key exchange kind (.holds record role) place) :
    Allowed (FiledFrom key exchange kind state.source) (state.sourced role records) place := by
  intro sourced member
  obtain ⟨record, found, rfl⟩ := List.mem_map.mp member
  exact ⟨rfl, filed record found⟩

theorem follow_adds {Filed : Filing → Prop} {target : Name} :
    Adds Filed state (state.follow engine target) := by
  unfold WalkState.follow
  dsimp only
  split_ifs <;> exact .of_eq rfl rfl rfl rfl rfl rfl rfl

theorem capTtl_adds {Filed : Filing → Prop} {ttl : UInt32} :
    Adds Filed state (state.capTtl ttl) :=
  .of_eq rfl rfl rfl rfl rfl rfl rfl

/-- The records of an answer change nothing but the TTL. -/
theorem foldl_capTtl_eq (records : List Record) (state : WalkState Score Stability) :
    ∃ ttl, records.foldl (fun state record => state.capTtl record.ttl) state =
      { state with ttl := ttl } := by
  induction records generalizing state with
  | nil => exact ⟨state.ttl, rfl⟩
  | cons record records inductionHypothesis => exact inductionHypothesis (state.capTtl record.ttl)

/-- An answer without a record of the zone is refused; any other ends the walk
with what lies in the zone. -/
theorem answerArm_cases (records rrsigs : List Record) (state : WalkState Score Stability) :
    (∃ error, answerArm records rrsigs state = .failed error state) ∨
    ∃ keep ttl, keep = (records.filter fun record => inBailiwick record.name state.zone) ∧
      keep ≠ [] ∧ answerArm records rrsigs state = .finished
        ((WalkState.appendAnswers { state with ttl := ttl } (state.sourced .answer keep)).appendRrsigs
          (state.sourced .rrsig rrsigs)) := by
  unfold answerArm
  dsimp only
  split_ifs with nothing
  · exact .inl ⟨_, rfl⟩
  · obtain ⟨ttl, capped⟩ := foldl_capTtl_eq
      (records.filter fun record => inBailiwick record.name state.zone) state
    rw [capped]
    exact .inr ⟨_, ttl, rfl, nothing, rfl⟩

/-- A DNAME record that gives no name ends the walk; any other contributes the
CNAME it implies, and the walk goes on with its target. -/
theorem dnameArm_cases (engine : EngineConfig) (record : Record)
    (state : WalkState Score Stability) :
    (∃ error, dnameArm engine record state = .failed error state) ∨
    ∃ target synthesized, record.rdata = .dname target ∧
      synthesizeDnameCname state.currentName record.name target = some synthesized ∧
      dnameArm engine record state = .running (((state.capTtl record.ttl).appendAnswers
        (state.sourced .synthesized
          [makeCnameRecord state.currentName synthesized record.ttl])).follow engine synthesized) := by
  unfold dnameArm
  split
  · rename_i target pointed
    split
    · exact .inl ⟨_, rfl⟩
    · rename_i synthesized made
      exact .inr ⟨target, synthesized, pointed, made, rfl⟩
  · exact .inl ⟨_, rfl⟩

theorem answerArm_adds (acts : state.At exchange) :
    Adds (FiledFrom key exchange (.answer records rrsigs) state.source) state
      (answerArm records rrsigs state).state := by
  rcases answerArm_cases records rrsigs state with
    ⟨error, refused⟩ | ⟨keep, ttl, kept, nonempty, taken⟩
  · rw [refused]
    exact .refl state
  · have capped : Adds (FiledFrom key exchange (.answer records rrsigs) state.source) state
        { state with ttl := ttl } := .of_eq rfl rfl rfl rfl rfl rfl rfl
    have inside : ∀ record ∈ keep,
        record ∈ records ∧ inBailiwick record.name exchange.zone = true := by
      intro record member
      rw [kept] at member
      exact acts.zone ▸ List.mem_filter.mp member
    rw [taken]
    refine capped.trans (.trans (.appendAnswers ?_) (.appendRrsigs ?_))
    · exact allowed_sourced fun record member => .answer (inside record member).1
        (inside record member).2
    · obtain ⟨record, member⟩ := List.exists_mem_of_ne_nil keep nonempty
      exact allowed_sourced fun sig signs => .answerRrsig signs ⟨record, inside record member⟩

theorem dnameArm_adds (acts : state.At exchange) :
    Adds (FiledFrom key exchange (.dname record) state.source) state
      (dnameArm engine record state).state := by
  rcases dnameArm_cases engine record state with
    ⟨error, refused⟩ | ⟨target, synthesized, pointed, made, followed⟩
  · rw [refused]
    exact .refl state
  · have redirects : record.redirects exchange.currentName = true := by
      simp [Record.redirects, pointed, ← acts.currentName, made]
    rw [followed]
    refine capTtl_adds.trans (.trans (.appendAnswers ?_) follow_adds)
    refine allowed_sourced fun cname member => ?_
    rw [List.mem_singleton.mp member]
    exact .synthesized redirects acts.currentName

theorem emptyArm_adds {queryName : Name} {Filed : Filing → Prop} :
    Adds Filed state (emptyArm queryName state).state := by
  unfold emptyArm
  split_ifs
  · exact .of_eq rfl rfl rfl rfl rfl rfl rfl
  · exact .refl state

/-- The SOA of a negative answer, as the arm handles it. -/
theorem allowed_soa {soa : Option Record} {place : Place} {source : Option Nat}
    (filed : ∀ record, soa = some record →
      FiledBy key exchange (.negative rcode soa) (.holds record .soa) place) :
    Allowed (FiledFrom key exchange (.negative rcode soa) source)
      (soa.map fun record => Sourced.mk record .soa source).toList place := by
  intro sourced member
  cases soa with
  | none => cases member
  | some record =>
      rw [Option.map_some, Option.toList_some, List.mem_singleton] at member
      subst member
      exact ⟨rfl, filed record rfl⟩

/-- To conclude a negative answer files its SOA and nothing else. -/
theorem concludeNegative_allowed {Filed : Filing → Prop} {soa : Option Sourced}
    (allowed : Allowed Filed soa.toList .resolution) :
    Adds Filed state (concludeNegative rcode soa state) := by
  have concluded : Adds Filed state { state with rcode := rcode } :=
    .of_eq rfl rfl rfl rfl rfl rfl rfl
  unfold concludeNegative
  cases soa with
  | none => exact concluded
  | some soa => exact concluded.trans (Adds.trans (.appendAuthorities allowed) capTtl_adds)

theorem concludeNegative_adds {soa : Option Record} {source : Option Nat} :
    Adds (FiledFrom key exchange (.negative rcode soa) source) state
      (concludeNegative rcode (soa.map fun record => Sourced.mk record .soa source) state) := by
  refine concludeNegative_allowed (allowed_soa ?_)
  rintro record rfl
  exact .soa

theorem descend_adds {turn : Turn Score Stability Inputs} {nsNames : List Name}
    {budget : FetchBudget} {Filed : Filing → Prop} :
    Adds Filed state
      (turn.descend engine newZone nsNames glue { state with budget := budget }).state := by
  unfold descend
  dsimp only
  split_ifs <;> exact .of_eq rfl rfl rfl rfl rfl rfl rfl

section Caching

variable [LinearOrder Score] {scoring : Scoring Score Stability Inputs}
  {turn : Turn Score Stability Inputs}

/-- The state after an alias was taken over and cached. -/
def cachedAlias (scoring : Scoring Score Stability Inputs) (key : QueryKey) (now : Ts)
    (turn : Turn Score Stability Inputs) (record : Record) (rrsigs : List Record)
    (state : WalkState Score Stability) : WalkState Score Stability :=
  WalkState.cachePositive scoring now
    (((state.capTtl record.ttl).appendAnswers (state.sourced .cname [record])).appendRrsigs
      (state.sourced .rrsig rrsigs))
    ⟨state.currentName, .CNAME, key.rrClass, answerPartition key.ecs state.ecsScope⟩
    ((RrSet.new record.name .CNAME key.rrClass record.ttl).addRecord record)
    (state.sourced .cname [record]) (turn.scoreInputs state.currentName) false

/-- A record that is no alias ends the walk; an alias is cached and followed. -/
theorem cnameArm_cases (scoring : Scoring Score Stability Inputs) (engine : EngineConfig)
    (key : QueryKey) (now : Ts) (turn : Turn Score Stability Inputs) (record : Record)
    (rrsigs : List Record) (state : WalkState Score Stability) :
    (∃ error, turn.cnameArm scoring engine key now record rrsigs state = .failed error state) ∨
    ∃ target, record.rdata = .cname target ∧
      turn.cnameArm scoring engine key now record rrsigs state =
        .running ((cachedAlias scoring key now turn record rrsigs state).follow engine target) := by
  unfold cnameArm
  split
  · rename_i target pointed
    exact .inr ⟨target, pointed, rfl⟩
  · exact .inl ⟨_, rfl⟩

theorem cnameArm_adds (acts : state.At exchange) :
    Adds (FiledFrom key exchange (.cname record rrsigs) state.source) state
      (turn.cnameArm scoring engine key now record rrsigs state).state := by
  rcases cnameArm_cases scoring engine key now turn record rrsigs state with
    ⟨error, refused⟩ | ⟨target, -, followed⟩
  · rw [refused]
    exact .refl state
  · rw [followed]
    refine capTtl_adds.trans (.trans (.appendAnswers ?_) (.trans (.appendRrsigs ?_)
      (.trans (.cachePositive ?_) follow_adds)))
    · refine allowed_sourced fun cname member => ?_
      rw [List.mem_singleton.mp member]
      exact .cname
    · exact allowed_sourced fun sig member => .cnameRrsig member
    · refine allowed_sourced fun cname member => ?_
      rw [List.mem_singleton.mp member, acts.currentName, acts.ecsScope]
      exact .cnameCached

theorem cacheMissing_adds {soa : Option Record} {queryName : Name} {conclusion : Rcode}
    (acts : state.At exchange) (asked : exchange.queryName = queryName)
    (missing : rcode.isNxdomain = true) {source : Option Nat} (same : source = state.source) :
    Adds (FiledFrom key exchange (.negative rcode soa) source) state
      (turn.cacheMissing scoring key now conclusion
        (soa.map fun record => Sourced.mk record .soa source) queryName state) := by
  subst same asked
  unfold cacheMissing
  dsimp only
  have soaFiled : ∀ {place : Place}, NegativePlace key exchange place →
      ∀ record, soa = some record →
        FiledBy key exchange (.negative rcode soa) (.holds record .soa) place := by
    rintro place placed record rfl
    exact .soaCached placed
  split
  · rename_i shared
    have placed : NegativePlace key exchange (.nx exchange.queryName) :=
      .nx (acts.ecsScope ▸ shared)
    exact .cacheNxdomain ⟨rfl, .nxdomain missing placed⟩ (allowed_soa (soaFiled placed))
  · rename_i ecs narrowed
    have placed : NegativePlace key exchange (.cache ⟨exchange.queryName, key.rrType,
        key.rrClass, some ecs⟩) := by
      rw [← narrowed, acts.ecsScope]
      exact .cache
    exact .cacheNegative ⟨rfl, .nxdomain missing placed⟩ (allowed_soa (soaFiled placed))

/-- The state after an answer of no data was cached. -/
def cachedNodata (scoring : Scoring Score Stability Inputs) (key : QueryKey) (now : Ts)
    (turn : Turn Score Stability Inputs) (rcode : Rcode) (soa : Option Record) (queryName : Name)
    (state : WalkState Score Stability) : WalkState Score Stability :=
  state.cacheNegative scoring now
    ⟨queryName, key.rrType, key.rrClass, answerPartition key.ecs state.ecsScope⟩ rcode
    (soa.map fun record => Sourced.mk record .soa state.source)
    (((soa.map fun record => Sourced.mk record .soa state.source).map
      fun soa => negativeTtl soa.record).getD 0)
    (turn.scoreInputs queryName) (.nodata queryName) state.source

/-- A missing name ends the walk. No data ends it too when it is about the whole
name, and asks for more of the name otherwise. -/
theorem negativeArm_cases (scoring : Scoring Score Stability Inputs) (key : QueryKey) (now : Ts)
    (turn : Turn Score Stability Inputs) (rcode : Rcode) (soa : Option Record) (queryName : Name)
    (state : WalkState Score Stability) :
    (rcode.isNxdomain = true ∧
      turn.negativeArm scoring key now rcode soa queryName state =
        .finished (turn.cacheMissing scoring key now rcode
          (soa.map fun record => Sourced.mk record .soa state.source) queryName
          (concludeNegative rcode (soa.map fun record => Sourced.mk record .soa state.source)
            state))) ∨
    rcode.isNxdomain = false ∧
      (queryName ≠ state.currentName ∧
        turn.negativeArm scoring key now rcode soa queryName state =
          .running { cachedNodata scoring key now turn rcode soa queryName state with
            minimized := some (deepenMinimized state.currentName queryName) } ∨
      queryName = state.currentName ∧
        turn.negativeArm scoring key now rcode soa queryName state =
          .finished (concludeNegative rcode
            (soa.map fun record => Sourced.mk record .soa state.source)
            (cachedNodata scoring key now turn rcode soa queryName state))) := by
  unfold negativeArm
  cases missing : rcode.isNxdomain with
  | true => exact .inl ⟨rfl, if_pos rfl⟩
  | false =>
      right
      refine ⟨rfl, ?_⟩
      by_cases whole : queryName = state.currentName
      · exact .inr ⟨whole, (if_neg Bool.false_ne_true).trans (if_neg (not_not.mpr whole))⟩
      · exact .inl ⟨whole, (if_neg Bool.false_ne_true).trans (if_pos whole)⟩

theorem cachedNodata_adds {soa : Option Record} {queryName : Name} (acts : state.At exchange)
    (asked : exchange.queryName = queryName) (present : rcode.isNxdomain = false) :
    Adds (FiledFrom key exchange (.negative rcode soa) state.source) state
      (cachedNodata scoring key now turn rcode soa queryName state) := by
  subst asked
  have placed : NegativePlace key exchange (.cache ⟨exchange.queryName, key.rrType, key.rrClass,
      answerPartition key.ecs state.ecsScope⟩) := by
    rw [acts.ecsScope]
    exact .cache
  refine .cacheNegative ⟨rfl, .nodata present placed⟩ (allowed_soa ?_)
  rintro record rfl
  exact .soaCached placed

theorem negativeArm_adds {soa : Option Record} {queryName : Name} (acts : state.At exchange)
    (asked : exchange.queryName = queryName) :
    Adds (FiledFrom key exchange (.negative rcode soa) state.source) state
      (turn.negativeArm scoring key now rcode soa queryName state).state := by
  rcases negativeArm_cases scoring key now turn rcode soa queryName state with
    ⟨missing, denied⟩ | ⟨present, ⟨-, deepened⟩ | ⟨-, concluded⟩⟩
  · have concluded : Adds (FiledFrom key exchange (.negative rcode soa) state.source) state
        (concludeNegative rcode (soa.map fun record => Sourced.mk record .soa state.source) state) :=
      concludeNegative_adds
    rw [denied]
    refine concluded.trans (cacheMissing_adds ⟨?_, ?_, ?_⟩ asked missing ?_)
    · cases soa <;> exact acts.zone
    · cases soa <;> exact acts.currentName
    · rw [concluded.ecsScope, acts.ecsScope]
    · exact congrArg (fun exchanges => some (exchanges.length - 1)) concluded.exchanges.symm
  · rw [deepened]
    exact (cachedNodata_adds acts asked present).trans (.of_eq rfl rfl rfl rfl rfl rfl rfl)
  · rw [concluded]
    exact (cachedNodata_adds acts asked present).trans concludeNegative_adds

theorem cacheGlue_adds {inputs : Inputs} {source : Option Nat} (current : source = state.source)
    (member : record ∈ glue) (below : newZone.isStrictSubdomainOf exchange.zone = true) :
    Adds (FiledFrom key exchange (.referral newZone ns glue) source) state
      (cacheGlue scoring engine key now newZone inputs state record) := by
  subst current
  unfold cacheGlue
  split_ifs with inside
  · split
    · refine .cachePositive (allowed_sourced fun found only => ?_)
      rw [List.mem_singleton.mp only]
      exact .glue member inside below
    · exact .refl state
  · exact .refl state

theorem foldl_cacheGlue_adds {inputs : Inputs} {source : Option Nat} {cached : List Record}
    (subset : ∀ record ∈ cached, record ∈ glue) (current : source = state.source)
    (below : newZone.isStrictSubdomainOf exchange.zone = true) :
    Adds (FiledFrom key exchange (.referral newZone ns glue) source) state
      (cached.foldl (cacheGlue scoring engine key now newZone inputs) state) := by
  induction cached generalizing state with
  | nil => exact .refl state
  | cons record cached inductionHypothesis =>
      have first : Adds (FiledFrom key exchange (.referral newZone ns glue) source) state
          (cacheGlue scoring engine key now newZone inputs state record) :=
        cacheGlue_adds current (subset record List.mem_cons_self) below
      refine first.trans (inductionHypothesis
        (fun other member => subset other (List.mem_cons_of_mem _ member)) ?_)
      rw [current, WalkState.source, WalkState.source, first.exchanges]

/-- The state after the NS set and the glue of a referral were cached. -/
def cachedReferral (scoring : Scoring Score Stability Inputs) (engine : EngineConfig)
    (key : QueryKey) (now : Ts) (turn : Turn Score Stability Inputs) (newZone : Name)
    (ns glue : List Record) (state : WalkState Score Stability) (set : RrSet) :
    WalkState Score Stability :=
  glue.foldl (cacheGlue scoring engine key now newZone (turn.scoreInputs newZone))
    (WalkState.cachePositive scoring now { state with referrals := state.referrals + 1 }
      (.plain newZone .NS key.rrClass) set (state.sourced .ns ns) (turn.scoreInputs newZone) false)

/-- A referral is not one, or it is cached; then it is refused or descended into. -/
theorem referralArm_cases (scoring : Scoring Score Stability Inputs) (engine : EngineConfig)
    (key : QueryKey) (now : Ts) (turn : Turn Score Stability Inputs) (newZone : Name)
    (ns glue : List Record) (state : WalkState Score Stability) :
    (∃ error, turn.referralArm scoring engine key now newZone ns glue state =
      .failed error { state with referrals := state.referrals + 1 }) ∨
    ∃ set budget, newZone.isStrictSubdomainOf state.zone = true ∧
      RrSet.fromRecords ns engine.maxTtlCap = .ok set ∧
      ((∃ error, turn.referralArm scoring engine key now newZone ns glue state = .failed error
          { cachedReferral scoring engine key now turn newZone ns glue state set with
            budget := budget }) ∨
        turn.referralArm scoring engine key now newZone ns glue state =
          turn.descend engine newZone (nsNames ns) glue
            { cachedReferral scoring engine key now turn newZone ns glue state set with
              budget := budget }) := by
  unfold referralArm
  dsimp only
  split_ifs with outside
  · exact .inl ⟨_, rfl⟩
  · cases built : RrSet.fromRecords ns engine.maxTtlCap with
    | error error => exact .inl ⟨_, rfl⟩
    | ok set =>
        refine .inr ?_
        dsimp only
        split
        · exact ⟨set, _, Bool.eq_true_of_not_eq_false outside, rfl, .inl ⟨_, rfl⟩⟩
        · split
          · exact ⟨set, _, Bool.eq_true_of_not_eq_false outside, rfl, .inl ⟨_, rfl⟩⟩
          · exact ⟨set, _, Bool.eq_true_of_not_eq_false outside, rfl, .inr rfl⟩

theorem cachedReferral_adds (set : RrSet)
    (below : newZone.isStrictSubdomainOf exchange.zone = true) :
    Adds (FiledFrom key exchange (.referral newZone ns glue) state.source) state
      (cachedReferral scoring engine key now turn newZone ns glue state set) := by
  have counted : Adds (FiledFrom key exchange (.referral newZone ns glue) state.source) state
      { state with referrals := state.referrals + 1 } := .of_eq rfl rfl rfl rfl rfl rfl rfl
  have allowed : Allowed (FiledFrom key exchange (.referral newZone ns glue) state.source)
      (state.sourced .ns ns) (.cache (.plain newZone .NS key.rrClass)) :=
    allowed_sourced fun record member => .ns member below
  exact (counted.trans (.cachePositive allowed)).trans
    (foldl_cacheGlue_adds (fun _ member => member) rfl below)

theorem referralArm_adds (acts : state.At exchange) :
    Adds (FiledFrom key exchange (.referral newZone ns glue) state.source) state
      (turn.referralArm scoring engine key now newZone ns glue state).state := by
  rcases referralArm_cases scoring engine key now turn newZone ns glue state with
    ⟨error, refused⟩ | ⟨set, budget, below, _, ⟨error, refused⟩ | admitted⟩
  · rw [refused]
    exact .of_eq rfl rfl rfl rfl rfl rfl rfl
  · rw [acts.zone] at below
    rw [refused]
    exact (cachedReferral_adds set below).trans (.of_eq rfl rfl rfl rfl rfl rfl rfl)
  · rw [acts.zone] at below
    rw [admitted]
    exact (cachedReferral_adds set below).trans descend_adds

/-- A turn that receives a response acts on it by its kind. -/
theorem receive_eq (queryName : Name) (received : Received) :
    turn.receive scoring engine key now queryName received state =
      match (state.exchange queryName received).kind key with
      | .answer records rrsigs =>
          answerArm records rrsigs (state.receiving (state.exchange queryName received))
      | .cname record rrsigs => turn.cnameArm scoring engine key now record rrsigs
          (state.receiving (state.exchange queryName received))
      | .dname record =>
          dnameArm engine record (state.receiving (state.exchange queryName received))
      | .negative rcode soa => turn.negativeArm scoring key now rcode soa queryName
          (state.receiving (state.exchange queryName received))
      | .referral newZone ns glue => turn.referralArm scoring engine key now newZone ns glue
          (state.receiving (state.exchange queryName received))
      | .empty => emptyArm queryName (state.receiving (state.exchange queryName received)) :=
  rfl

/-- It files what the kind of the response allows, with that response as the
source. -/
theorem receive_adds {queryName : Name} {received : Received} :
    Adds (FiledFrom key (state.exchange queryName received)
        ((state.exchange queryName received).kind key)
        (state.receiving (state.exchange queryName received)).source)
      (state.receiving (state.exchange queryName received))
      (turn.receive scoring engine key now queryName received state).state := by
  have acts : (state.receiving (state.exchange queryName received)).At
      (state.exchange queryName received) := ⟨rfl, rfl, rfl⟩
  rw [receive_eq]
  cases (state.exchange queryName received).kind key with
  | answer records rrsigs => exact answerArm_adds acts
  | cname record rrsigs => exact cnameArm_adds acts
  | dname record => exact dnameArm_adds acts
  | negative rcode soa => exact negativeArm_adds acts rfl
  | referral newZone ns glue => exact referralArm_adds acts
  | empty => exact emptyArm_adds

end Caching

end Turn

end RecurseX
