import RecurseX.Resolver.RefreshMarks
import RecurseX.Resolver.SharedCache

/-!
# What a refresh records

A set that is filed under a key is one observation of how often the key's data changes.
A resolution files sets on its way and at its end, and a background refresh files what
it has resolved once more. `Resolving.writes` lists what a step of a resolution files,
so that the observations of a key can be counted along a run.
-/

namespace RecurseX

open Library Std

variable {Score Stability Inputs : Type}

/-- The operation files a set under the key. -/
def CacheOp.observes (key : CacheKey) : CacheOp Score Stability Inputs → Bool
  | .insertPositive other _ _ _ _ => decide (other = key)
  | _ => false

namespace SemanticCache

variable [LinearOrder Score] {scoring : Scoring Score Stability Inputs}
  {cache : SemanticCache Score Stability}

/-- The history of a key: that of its entry, or a new one. -/
def history (scoring : Scoring Score Stability Inputs) (cache : SemanticCache Score Stability)
    (key : CacheKey) (ttl : UInt32) (now : Ts) : Stability :=
  ((cache.takeEntryAny scoring key).1.map CacheEntry.stability).getD (scoring.withConfig ttl now)

/-- Filing a set is one observation on the history of its key. -/
theorem insertPositive_observes (consistent : cache.Consistent scoring) (key : CacheKey)
    (rrset : RrSet) (now : Ts) (inputs : Inputs) (validated : Bool)
    {entry : CacheEntry Score Stability}
    (stored : (cache.insertPositive scoring key rrset now inputs validated).Stores key entry) :
    ∃ changed, entry.stability = scoring.observeWeighted
      (cache.history scoring key (min rrset.ttl cache.config.maxTtlCap) now)
      (min rrset.ttl cache.config.maxTtlCap) changed now validated := by
  obtain ⟨keyed, -⟩ := (allIndexed_kept scoring).takeEntryAny key consistent.indexed
  have observed : ∃ event placed changed, cache.insertPositive scoring key rrset now inputs validated =
        ((cache.takeEntryAny scoring key).2.count event).place scoring placed ∧ placed.key = key ∧
      placed.stability = scoring.observeWeighted
        (cache.history scoring key (min rrset.ttl cache.config.maxTtlCap) now)
        (min rrset.ttl cache.config.maxTtlCap) changed now validated := by
    unfold insertPositive history
    dsimp only
    split
    · rename_i old after found
      rw [found] at keyed ⊢
      exact ⟨id, _, _, rfl, keyed old rfl, rfl⟩
    · rename_i after found
      rw [found]
      exact ⟨_, _, _, rfl, rfl, rfl⟩
  obtain ⟨event, placed, changed, inserted, own, stability⟩ := observed
  refine ⟨changed, ?_⟩
  obtain ⟨-, outside⟩ := (consistent_kept scoring).takeEntryAny key consistent
  obtain ⟨taken, absent⟩ := (consistent_kept scoring).outCounted event outside
  obtain ⟨tier, stored⟩ := stored
  rw [inserted] at stored
  rcases place_stored taken.indexed stored with ⟨-, same⟩ | ⟨origin, old, before, -⟩
  · rw [← same.stability, stability]
  · rw [absent origin] at before
    cases before

end SemanticCache

/-! ## On the way -/

namespace Turn

section Writes

variable (engine : EngineConfig) (key : QueryKey) (now : Ts)

/-- What a glue record inside the new zone is cached as. -/
def glueWrite (newZone : Name) (inputs : Inputs) (glue : Record) :
    Option (CacheOp Score Stability Inputs) :=
  if inBailiwick glue.name newZone then
    match RrSet.fromRecords [glue] engine.maxTtlCap with
    | .ok set => some (.insertPositive (.plain glue.name glue.rrType key.rrClass) set now inputs false)
    | .error _ => none
  else none

/-- What a negative answer is cached as. -/
def negativeWrite (turn : Turn Score Stability Inputs) (rcode : Rcode) (soa : Option Record)
    (queryName : Name) (scope : Option UInt8) : CacheOp Score Stability Inputs :=
  let soaTtl := (soa.map negativeTtl).getD 0
  let partition := answerPartition key.ecs scope
  let negative : CacheOp Score Stability Inputs :=
    .insertNegative ⟨queryName, key.rrType, key.rrClass, partition⟩ rcode soa soaTtl now
      (turn.scoreInputs queryName)
  if rcode.isNxdomain ∧ partition = none then .insertNxdomain queryName rcode soa soaTtl now
  else negative

/-- What an alias is cached as. -/
def aliasWrites (turn : Turn Score Stability Inputs) (record : Record) (currentName : Name)
    (scope : Option UInt8) : List (CacheOp Score Stability Inputs) :=
  match record.rdata with
  | .cname _ => [.insertPositive
      ⟨currentName, .CNAME, key.rrClass, answerPartition key.ecs scope⟩
      ((RrSet.new record.name .CNAME key.rrClass record.ttl).addRecord record) now
      (turn.scoreInputs currentName) false]
  | _ => []

/-- What a referral to a zone below is cached as. -/
def referralWrites (turn : Turn Score Stability Inputs) (newZone : Name) (ns glue : List Record)
    (zone : Name) : List (CacheOp Score Stability Inputs) :=
  if newZone.isStrictSubdomainOf zone = false then []
  else match RrSet.fromRecords ns engine.maxTtlCap with
    | .error _ => []
    | .ok set =>
        .insertPositive (.plain newZone .NS key.rrClass) set now (turn.scoreInputs newZone) false ::
          glue.filterMap (glueWrite engine key now newZone (turn.scoreInputs newZone))

/-- What a response of this kind makes the loop cache. -/
def kindWrites (turn : Turn Score Stability Inputs) (exchange : Exchange) :
    ResponseKind → List (CacheOp Score Stability Inputs)
  | .cname record _ => turn.aliasWrites key now record exchange.currentName exchange.scope
  | .negative rcode soa => [turn.negativeWrite key now rcode soa exchange.queryName exchange.scope]
  | .referral newZone ns glue => turn.referralWrites engine key now newZone ns glue exchange.zone
  | .answer .. | .dname _ | .empty => []

/-- What a turn caches once the servers were asked. -/
def writes (turn : Turn Score Stability Inputs) (queryName : Name)
    (state : WalkState Score Stability) : List (CacheOp Score Stability Inputs) :=
  match turn.response with
  | .error _ => []
  | .ok received =>
      let exchange := state.exchange queryName received
      turn.kindWrites engine key now exchange (exchange.kind key)

end Writes

variable [LinearOrder Score] {scoring : Scoring Score Stability Inputs} {engine : EngineConfig}
  {key : QueryKey} {now : Ts} {turn : Turn Score Stability Inputs}
  {state : WalkState Score Stability}

theorem foldl_cacheGlue_cache (newZone : Name) (inputs : Inputs) (glue : List Record) :
    (glue.foldl (cacheGlue scoring engine key now newZone inputs) state).cache =
      (glue.filterMap (glueWrite engine key now newZone inputs)).foldl (CacheOp.apply scoring)
        state.cache := by
  induction glue generalizing state with
  | nil => rfl
  | cons record glue inductionHypothesis =>
      rw [List.foldl_cons, inductionHypothesis, cacheGlue, List.filterMap_cons, glueWrite]
      split_ifs
      · cases RrSet.fromRecords [record] engine.maxTtlCap with
        | error error => rfl
        | ok set => rfl
      · rfl

theorem cacheMissing_cache {rcode : Rcode} (missing : rcode.isNxdomain = true)
    (soa : Option Record) (queryName : Name) (source : Option Nat) :
    (turn.cacheMissing scoring key now rcode (soa.map fun record => ⟨record, .soa, source⟩) queryName
        state).cache =
      (turn.negativeWrite key now rcode soa queryName state.ecsScope).apply scoring
        state.cache := by
  unfold cacheMissing negativeWrite
  dsimp only
  cases answerPartition key.ecs state.ecsScope with
  | none =>
      rw [if_pos ⟨missing, rfl⟩]
      cases soa <;> rfl
  | some ecs =>
      rw [if_neg (by simp)]
      cases soa <;> rfl

theorem negativeArm_cache (rcode : Rcode) (soa : Option Record) (queryName : Name) :
    (turn.negativeArm scoring key now rcode soa queryName state).state.cache =
      (turn.negativeWrite key now rcode soa queryName state.ecsScope).apply scoring
        state.cache := by
  have nodata (present : rcode.isNxdomain = false) :
      (cachedNodata scoring key now turn rcode soa queryName state).cache =
        (turn.negativeWrite key now rcode soa queryName state.ecsScope).apply scoring
          state.cache := by
    unfold negativeWrite
    rw [if_neg (by simp [present])]
    cases soa <;> rfl
  rcases negativeArm_cases scoring key now turn rcode soa queryName state with
    ⟨missing, denied⟩ | ⟨present, ⟨-, deepened⟩ | ⟨-, concluded⟩⟩
  · have scope : (concludeNegative rcode (soa.map fun record => Sourced.mk record .soa state.source)
        state).ecsScope = state.ecsScope := by
      cases soa <;> rfl
    rw [denied, Progress.state, cacheMissing_cache missing, scope, concludeNegative_cache]
  · rw [deepened]
    exact nodata present
  · rw [concluded, Progress.state, concludeNegative_cache, nodata present]

theorem cnameArm_cache (record : Record) (rrsigs : List Record) :
    (turn.cnameArm scoring engine key now record rrsigs state).state.cache =
      (turn.aliasWrites key now record state.currentName state.ecsScope).foldl
        (CacheOp.apply scoring) state.cache := by
  cases pointed : record.rdata with
  | cname target =>
      simp only [cnameArm, aliasWrites, pointed]
      exact follow_cache
  | _ =>
      simp only [cnameArm, aliasWrites, pointed]
      rfl

theorem referralArm_cache (newZone : Name) (ns glue : List Record) :
    (turn.referralArm scoring engine key now newZone ns glue state).state.cache =
      (turn.referralWrites engine key now newZone ns glue state.zone).foldl
        (CacheOp.apply scoring) state.cache := by
  unfold referralArm referralWrites
  dsimp only
  split_ifs with outside
  · rfl
  cases RrSet.fromRecords ns engine.maxTtlCap with
  | error error => rfl
  | ok set =>
      have cached : (cachedReferral scoring engine key now turn newZone ns glue state set).cache =
          (glue.filterMap (glueWrite engine key now newZone (turn.scoreInputs newZone))).foldl
            (CacheOp.apply scoring) (state.cache.insertPositive scoring
              (.plain newZone .NS key.rrClass) set now (turn.scoreInputs newZone) false) :=
        foldl_cacheGlue_cache newZone _ glue
      dsimp only
      split
      · exact cached
      · split
        · exact cached
        · exact descend_cache.trans cached

theorem receive_cache (queryName : Name) (received : Received) :
    (turn.receive scoring engine key now queryName received state).state.cache =
      (turn.kindWrites engine key now (state.exchange queryName received)
        ((state.exchange queryName received).kind key)).foldl (CacheOp.apply scoring)
        state.cache := by
  rw [receive_eq]
  cases (state.exchange queryName received).kind key with
  | answer records rrsigs => exact answerArm_cache
  | cname record rrsigs => exact cnameArm_cache record rrsigs
  | dname record => exact dnameArm_cache
  | negative rcode soa => exact negativeArm_cache rcode soa queryName
  | referral newZone ns glue => exact referralArm_cache newZone ns glue
  | empty => exact emptyArm_cache

/-- A turn caches its writes. -/
theorem respond_cache (queryName : Name) :
    (turn.respond scoring engine key now queryName state).state.cache =
      (turn.writes engine key now queryName state).foldl (CacheOp.apply scoring) state.cache := by
  unfold respond writes
  cases turn.response with
  | error error => rfl
  | ok received => exact receive_cache queryName received

end Turn

/-! ## At the end -/

namespace Resolution

section Writes

variable (engine : EngineConfig) (key : QueryKey) (res : Resolution) (inputs : Inputs) (now : Ts)

/-- What one group of answer records is cached as. -/
def groupWrite (group : (Name × RrType) × List Sourced) :
    Option (CacheOp Score Stability Inputs) :=
  if group.1.2 = .RRSIG then none
  else match RrSet.fromRecords (group.2.map Sourced.record) engine.maxTtlCap with
    | .error _ => none
    | .ok set =>
        let sigs := res.rrsigs.filter fun sig => coversType sig.record group.1.2
        let set := sigs.foldl (fun set sig => set.addRrsig sig.record)
          { set with validated := res.validated }
        some (.insertPositive (groupKey key res group) set now inputs res.validated)

/-- What the negative outcome is cached as. -/
def outcomeWrite : Option (CacheOp Score Stability Inputs) :=
  let partition := answerPartition key.ecs res.ecsScope
  let soa := res.soa.map Sourced.record
  let soaTtl := (res.soa.map fun soa => negativeTtl soa.record).getD 0
  let negative : CacheOp Score Stability Inputs :=
    .insertNegative ⟨res.name, res.rrType, res.rrClass, partition⟩ res.rcode soa soaTtl now inputs
  if res.rcode.isNxdomain then
    if partition = none then some (.insertNxdomain res.name res.rcode soa soaTtl now)
    else some negative
  else if res.answers.isEmpty then some negative
  else none

/-- What a resolution is cached as. -/
def writes : List (CacheOp Score Stability Inputs) :=
  (groupAnswers res.answers).toList.filterMap (groupWrite engine key res inputs now) ++
    (outcomeWrite key res inputs now).toList

end Writes

/-- The resolution has a set that is filed under the key. -/
def FilesSet (engine : EngineConfig) (query : QueryKey) (res : Resolution) (key : CacheKey) : Prop :=
  ∃ group ∈ (groupAnswers res.answers).toList, GroupFiled engine group ∧
    key = groupKey query res group

variable {engine : EngineConfig} {query : QueryKey} {res : Resolution} {inputs : Inputs} {now : Ts}
  {key : CacheKey}

theorem groupWrite_observes {group : (Name × RrType) × List Sourced} :
    (((groupWrite engine query res inputs now group :
        Option (CacheOp Score Stability Inputs)).map (CacheOp.observes key)).getD false) = true ↔
      GroupFiled engine group ∧ key = groupKey query res group := by
  unfold groupWrite GroupFiled
  split_ifs with signatures
  · simp [signatures]
  · cases RrSet.fromRecords (group.2.map Sourced.record) engine.maxTtlCap with
    | error error => simp
    | ok set => simp [signatures, CacheOp.observes, eq_comm]

theorem outcomeWrite_observes {op : CacheOp Score Stability Inputs}
    (written : op ∈ outcomeWrite query res inputs now) : op.observes key = false := by
  unfold outcomeWrite at written
  dsimp only at written
  split_ifs at written
  · obtain rfl := Option.mem_some.mp written
    rfl
  · obtain rfl := Option.mem_some.mp written
    rfl
  · obtain rfl := Option.mem_some.mp written
    rfl
  · cases written

theorem countP_writes :
    (writes engine query res inputs now : List (CacheOp Score Stability Inputs)).countP
        (CacheOp.observes key) =
      (groupAnswers res.answers).toList.countP fun group =>
        ((groupWrite engine query res inputs now group :
          Option (CacheOp Score Stability Inputs)).map (CacheOp.observes key)).getD false := by
  have nothing : (outcomeWrite query res inputs now :
      Option (CacheOp Score Stability Inputs)).toList.countP (CacheOp.observes key) = 0 := by
    refine List.countP_eq_zero.mpr fun op written => ?_
    rw [outcomeWrite_observes (Option.mem_toList.mp written)]
    exact Bool.false_ne_true
  rw [writes, List.countP_append, List.countP_filterMap, nothing, Nat.add_zero]

/-- A resolution that has a set for the key observes it once. -/
theorem observes_once (files : res.FilesSet engine query key) :
    (writes engine query res inputs now : List (CacheOp Score Stability Inputs)).countP
      (CacheOp.observes key) = 1 := by
  obtain ⟨group, listed, filed⟩ := files
  rw [countP_writes]
  refine Nat.le_antisymm (countP_toList_le_one (key.name, key.rrType) ?_) ?_
  · intro other accepted
    obtain ⟨-, same⟩ := groupWrite_observes.mp accepted
    rw [same]
    rfl
  · exact List.countP_pos_iff.mpr ⟨group, listed, groupWrite_observes.mpr filed⟩

/-- A resolution that has no set for the key does not observe it. -/
theorem observes_nothing (misses : ¬ res.FilesSet engine query key) :
    (writes engine query res inputs now : List (CacheOp Score Stability Inputs)).countP
      (CacheOp.observes key) = 0 := by
  rw [countP_writes]
  refine List.countP_eq_zero.mpr fun group listed accepted => ?_
  exact misses ⟨group, listed, groupWrite_observes.mp accepted⟩

variable [LinearOrder Score] {scoring : Scoring Score Stability Inputs}
  {state : WalkState Score Stability}

theorem cacheOutcome_cache :
    (cacheOutcome scoring query res inputs now state).cache =
      (outcomeWrite query res inputs now).toList.foldl (CacheOp.apply scoring) state.cache := by
  unfold cacheOutcome outcomeWrite
  dsimp only
  cases answerPartition query.ecs res.ecsScope with
  | none =>
      rw [if_pos rfl]
      split_ifs <;> rfl
  | some ecs =>
      rw [if_neg (Option.some_ne_none ecs)]
      split_ifs <;> rfl

theorem foldl_cacheGroup_cache (groups : List ((Name × RrType) × List Sourced)) :
    (groups.foldl (cacheGroup scoring engine query res inputs now) state).cache =
      (groups.filterMap (groupWrite engine query res inputs now)).foldl (CacheOp.apply scoring)
        state.cache := by
  induction groups generalizing state with
  | nil => rfl
  | cons group groups inductionHypothesis =>
      rw [List.foldl_cons, inductionHypothesis, cacheGroup, List.filterMap_cons, groupWrite]
      split_ifs
      · rfl
      · cases RrSet.fromRecords (group.2.map Sourced.record) engine.maxTtlCap with
        | error error => rfl
        | ok set => rfl

/-- Caching a resolution is its writes. -/
theorem cacheResolution_cache :
    (cacheResolution scoring engine query res inputs now state).cache =
      (writes engine query res inputs now).foldl (CacheOp.apply scoring) state.cache := by
  rw [cacheResolution, cacheOutcome_cache, foldl_cacheGroup_cache, writes, List.foldl_append]

end Resolution

/-! ## Steps of a resolution -/

/-- The step files an answer that was resolved. -/
def Resolving.Action.concludes : Resolving.Action Score Stability Inputs → Bool
  | .close .. | .recache .. => true
  | .consult _ | .probe _ | .respond _ | .forward _ => false

/-- Nothing that was resolved has been filed yet. -/
def Stage.early : Stage → Bool
  | .arriving | .walking | .asking _ | .resolved _ => true
  | .cached _ | .done => false

namespace Resolving

section Writes

variable (crypto : Crypto) (engine : EngineConfig) (dnssecAnchored : Bool)

/-- What a step of a resolution files. -/
def writes (self : Resolving Score Stability) :
    Action Score Stability Inputs → List (CacheOp Score Stability Inputs)
  | .respond turn =>
      match self.stage with
      | .asking name => turn.writes engine self.key self.now name self.walk
      | _ => []
  | .close validation inputs =>
      match self.stage with
      | .resolved res =>
          (validateFresh crypto engine dnssecAnchored self.key validation self.servedAt res).writes
            engine self.key inputs self.servedAt
      | _ => []
  | .recache now inputs =>
      match self.stage with
      | .cached res => res.writes engine self.key inputs now
      | _ => []
  | .consult _ | .probe _ | .forward _ => []

end Writes

/-- The loop leaves a resolution that is not filed, or none. -/
theorem after_stage (self : Resolving Score Stability) (progress : Progress Score Stability) :
    ¬ ∃ res, (self.after progress).2.stage = .cached res := by
  rintro ⟨res, cached⟩
  cases progress <;> cases cached

variable [LinearOrder Score] {scoring : Scoring Score Stability Inputs} {config : ServeConfig}
  {crypto : Crypto} {engine : EngineConfig} {dnssecAnchored : Bool}
  {cache after : SemanticCache Score Stability} {self next : Resolving Score Stability}
  {action : Action Score Stability Inputs}

/-- A step that does not only read leaves the cache with its writes. -/
theorem step_cache (reads : action.reads = false)
    (taken : self.step scoring config crypto engine dnssecAnchored cache action =
      some (after, next)) :
    after = (self.writes crypto engine dnssecAnchored action).foldl (CacheOp.apply scoring)
      cache := by
  cases action with
  | consult serving => cases reads
  | probe expired => cases reads
  | respond turn =>
      obtain ⟨name, stage, moved⟩ := respond_cases taken
      simp only [writes, stage]
      obtain ⟨rfl, -⟩ := Prod.mk.inj moved
      exact Turn.respond_cache name
  | forward forwarding =>
      obtain ⟨-, -, rfl, -⟩ := forward_cases taken
      rfl
  | close validation inputs =>
      obtain ⟨found, res, stage, rfl, stored⟩ := close_cases taken
      simp only [writes, stage]
      obtain ⟨rfl, -⟩ := Prod.mk.inj stored
      exact Resolution.cacheResolution_cache
  | recache now inputs =>
      obtain ⟨res, stage, -, stored⟩ := recache_cases taken
      simp only [writes, stage]
      obtain ⟨rfl, -⟩ := Prod.mk.inj stored
      exact Resolution.cacheResolution_cache

/-- Before its answer is filed a resolution has filed no answer. -/
theorem step_early (before : action.concludes = false)
    (taken : self.step scoring config crypto engine dnssecAnchored cache action =
      some (after, next)) :
    self.stage.early = true ∧ next.key = self.key ∧ ¬ ∃ res, next.stage = .cached res := by
  cases action with
  | consult serving =>
      obtain ⟨stage, ⟨-, -, rfl⟩ | ⟨answer, -, -, rfl⟩⟩ := consult_cases taken
      · exact ⟨by rw [stage]; rfl, rfl, by simp⟩
      · refine ⟨by rw [stage]; rfl, rfl, ?_⟩
        cases answer <;> simp
  | probe expired =>
      obtain ⟨stage, -, ⟨progress, -, moved⟩ | ⟨name, walk, -, -, rfl⟩⟩ := probe_cases taken
      · obtain ⟨-, rfl⟩ := Prod.mk.inj moved
        exact ⟨by rw [stage]; rfl, rfl, after_stage self progress⟩
      · exact ⟨by rw [stage]; rfl, rfl, by simp⟩
  | respond turn =>
      obtain ⟨name, stage, moved⟩ := respond_cases taken
      obtain ⟨-, rfl⟩ := Prod.mk.inj moved
      exact ⟨by rw [stage]; rfl, rfl, after_stage self _⟩
  | forward forwarding =>
      obtain ⟨stage, -, -, _, rfl, ⟨res, -, rfl⟩ | ⟨error, -, rfl⟩⟩ := forward_cases taken
      · exact ⟨by rw [stage]; rfl, rfl, by simp⟩
      · exact ⟨by rw [stage]; rfl, rfl, by simp⟩
  | close validation inputs => cases before
  | recache now inputs => cases before

/-- A resolution files its answer. -/
theorem close_stage {validation : Validation} {inputs : Inputs}
    (taken : self.step scoring config crypto engine dnssecAnchored cache
      (.close validation inputs) = some (after, next)) :
    self.stage.early = true ∧ next.key = self.key ∧ ∃ res, next.stage = .cached res ∧
      (self.writes crypto engine dnssecAnchored (.close validation inputs) :
          List (CacheOp Score Stability Inputs)) =
        res.writes engine self.key inputs self.servedAt := by
  obtain ⟨found, res, stage, rfl, stored⟩ := close_cases taken
  obtain ⟨-, rfl⟩ := Prod.mk.inj stored
  exact ⟨by rw [stage]; rfl, rfl, _, rfl, by simp only [writes, stage]⟩

/-- A refresh files the answer it has filed. -/
theorem recache_stage {now : Ts} {inputs : Inputs}
    (taken : self.step scoring config crypto engine dnssecAnchored cache (.recache now inputs) =
      some (after, next)) :
    next.stage = .done ∧ ∃ res, self.stage = .cached res ∧
      (self.writes crypto engine dnssecAnchored (.recache now inputs) :
        List (CacheOp Score Stability Inputs)) = res.writes engine self.key inputs now := by
  obtain ⟨res, stage, -, stored⟩ := recache_cases taken
  obtain ⟨-, rfl⟩ := Prod.mk.inj stored
  exact ⟨rfl, res, stage, by simp only [writes, stage]⟩

end Resolving

/-! ## Runs -/

def SharedAction.concludes : SharedAction Score Stability Inputs → Bool
  | .act _ action => action.concludes
  | .begin .. | .upkeep _ => false

/-- How often a step observes the key for the resolution at `index`. -/
def SharedCache.observations (crypto : Crypto) (engine : EngineConfig) (dnssecAnchored : Bool)
    (index : Nat) (key : CacheKey) (shared : SharedCache Score Stability) :
    SharedAction Score Stability Inputs → Nat
  | .act actor action =>
      if actor = index then
        match shared.resolving[actor]? with
        | some resolving =>
            (resolving.writes crypto engine dnssecAnchored action).countP (CacheOp.observes key)
        | none => 0
      else 0
  | .begin .. | .upkeep _ => 0

/-- The shared cache, and how often one of the resolutions has observed one key. -/
structure Observing (Score Stability : Type) where
  shared : SharedCache Score Stability
  /-- By what it cached before it had an answer. -/
  onTheWay : Nat
  /-- By filing its answer. -/
  filed : Nat

namespace Observing

/-- All observations of the key by the resolution. -/
def total (self : Observing Score Stability) : Nat := self.onTheWay + self.filed

section Step

variable [LinearOrder Score] (scoring : Scoring Score Stability Inputs) (config : ServeConfig)
  (crypto : Crypto) (engine : EngineConfig) (dnssecAnchored : Bool) (index : Nat) (key : CacheKey)

/-- One step of the system, with what it observes. -/
def step (self : Observing Score Stability) (action : SharedAction Score Stability Inputs) :
    Option (Observing Score Stability) :=
  (self.shared.step scoring config crypto engine dnssecAnchored action).map fun shared =>
    let made := self.shared.observations crypto engine dnssecAnchored index key action
    if action.concludes then ⟨shared, self.onTheWay, self.filed + made⟩
    else ⟨shared, self.onTheWay + made, self.filed⟩

end Step

/-- As often as the key was observed by filing the answer that has been cached. -/
def FiledOnce (engine : EngineConfig) (query : QueryKey) (key : CacheKey) (res : Resolution)
    (filed : Nat) : Prop :=
  (res.FilesSet engine query key → filed = 1) ∧ (¬ res.FilesSet engine query key → filed = 0)

/-- Until the answer is filed there is no observation by it, and then one if it has a set. -/
structure Counted (engine : EngineConfig) (index : Nat) (key : CacheKey)
    (observing : Observing Score Stability) : Prop where
  early : (∀ resolving ∈ observing.shared.resolving[index]?, resolving.stage.early = true) →
    observing.filed = 0
  cached : ∀ resolving ∈ observing.shared.resolving[index]?, ∀ res,
    resolving.stage = .cached res → FiledOnce engine resolving.key key res observing.filed

theorem Counted.initial (engine : EngineConfig) (index : Nat) (key : CacheKey)
    (cache : SemanticCache Score Stability) : Counted engine index key ⟨⟨cache, []⟩, 0, 0⟩ where
  early _ := rfl
  cached _ located := by cases located

variable [LinearOrder Score] {scoring : Scoring Score Stability Inputs} {config : ServeConfig}
  {crypto : Crypto} {engine : EngineConfig} {dnssecAnchored : Bool} {index : Nat} {key : CacheKey}
  {observing next : Observing Score Stability} {action : SharedAction Score Stability Inputs}

/-- A step of the resolution that is counted. -/
theorem Counted.act (counted : observing.Counted engine index key)
    {resolving acted : Resolving Score Stability} {cache : SemanticCache Score Stability}
    {action : Resolving.Action Score Stability Inputs}
    (located : observing.shared.resolving[index]? = some resolving)
    (moved : resolving.step scoring config crypto engine dnssecAnchored observing.shared.cache action =
      some (cache, acted)) {filed : Nat}
    (grown : filed = if action.concludes then observing.filed +
        (resolving.writes crypto engine dnssecAnchored action).countP (CacheOp.observes key)
      else observing.filed) :
    (acted.stage.early = true → filed = 0) ∧
      ∀ res, acted.stage = .cached res → FiledOnce engine acted.key key res filed := by
  have before (early : resolving.stage.early = true) : observing.filed = 0 := by
    refine counted.early fun other same => ?_
    obtain rfl := Option.some.inj (located.symm.trans same)
    exact early
  by_cases concludes : action.concludes = true
  swap
  · obtain ⟨early, -, unfiled⟩ := Resolving.step_early (Bool.eq_false_iff.mpr concludes) moved
    rw [if_neg concludes, before early] at grown
    exact ⟨fun _ => grown, fun res cached => absurd ⟨res, cached⟩ unfiled⟩
  rw [if_pos concludes] at grown
  cases action with
  | close validation inputs =>
      obtain ⟨early, query, res, stage, writes⟩ := Resolving.close_stage moved
      rw [before early, Nat.zero_add, writes, ← query] at grown
      rw [stage]
      refine ⟨fun again => absurd again Bool.false_ne_true, fun other cached => ?_⟩
      obtain rfl := Stage.cached.inj cached
      exact ⟨fun files => grown.trans (Resolution.observes_once files),
        fun misses => grown.trans (Resolution.observes_nothing misses)⟩
  | recache now inputs =>
      obtain ⟨stage, -⟩ := Resolving.recache_stage moved
      rw [stage]
      refine ⟨fun again => absurd again Bool.false_ne_true, fun other cached => ?_⟩
      cases cached
  | consult serving | probe expired | respond turn | forward forwarding => cases concludes

/-- What every step keeps. -/
theorem Counted.step (counted : observing.Counted engine index key)
    (taken : observing.step scoring config crypto engine dnssecAnchored index key action =
      some next) : next.Counted engine index key := by
  obtain ⟨shared, moved, rfl⟩ := Option.map_eq_some_iff.mp taken
  have others (filed : Nat) (same : shared.resolving[index]? = observing.shared.resolving[index]?)
      (unchanged : filed = observing.filed) (onTheWay : Nat) :
      Counted engine index key ⟨shared, onTheWay, filed⟩ := by
    subst unchanged
    exact ⟨same ▸ counted.early, same ▸ counted.cached⟩
  cases action with
  | begin query policy forwards servedAt now budget =>
      obtain rfl := Option.some.inj moved
      by_cases inside : index < observing.shared.resolving.length
      · exact others _ (List.getElem?_append_left inside) rfl _
      · have absent : observing.shared.resolving[index]? = none :=
          List.getElem?_eq_none (Nat.not_lt.mp inside)
        have filed : observing.filed = 0 :=
          counted.early fun other located => by rw [absent] at located; cases located
        refine ⟨fun _ => filed, fun other located res cached => ?_⟩
        have located : (observing.shared.resolving ++ [_])[index]? = some other := located
        rw [List.getElem?_append_right (Nat.not_lt.mp inside)] at located
        rw [List.mem_singleton.mp (List.mem_of_getElem? located)] at cached
        cases cached
  | upkeep op =>
      obtain ⟨-, rfl⟩ := SharedCache.upkeep_cases moved
      exact others _ rfl rfl _
  | act actor action =>
      obtain ⟨resolving, cache, acted, located, acts, rfl⟩ := SharedCache.act_cases moved
      by_cases same : actor = index
      swap
      · have made : observing.shared.observations crypto engine dnssecAnchored index key
            (.act actor action) = 0 := if_neg same
        dsimp only
        rw [made]
        split_ifs
        · exact others _ (List.getElem?_set_ne same) (Nat.add_zero _) _
        · exact others _ (List.getElem?_set_ne same) rfl _
      subst same
      have here : (observing.shared.resolving.set actor acted)[actor]? = some acted :=
        List.getElem?_set_self (List.getElem?_eq_some_iff.mp located).1
      have made : observing.shared.observations crypto engine dnssecAnchored actor key
          (.act actor action) =
            (resolving.writes crypto engine dnssecAnchored action).countP
              (CacheOp.observes key) := by
        rw [SharedCache.observations, if_pos rfl, located]
      have counts (filed onTheWay : Nat) (grown : filed = if action.concludes then
          observing.filed + (resolving.writes crypto engine dnssecAnchored action).countP
            (CacheOp.observes key) else observing.filed) :
          Counted engine actor key
            ⟨⟨cache, observing.shared.resolving.set actor acted⟩, onTheWay, filed⟩ := by
        obtain ⟨early, cached⟩ := counted.act located acts grown
        refine ⟨fun all => early (all acted here), fun other found => ?_⟩
        obtain rfl := Option.some.inj (here.symm.trans found)
        exact cached
      dsimp only
      rw [made]
      split_ifs with concludes
      · exact counts _ _ (if_pos concludes).symm
      · exact counts _ _ (if_neg concludes).symm

theorem counted_of_runs {cache : SemanticCache Score Stability}
    {actions : List (SharedAction Score Stability Inputs)}
    (runs : Runs (Observing.step scoring config crypto engine dnssecAnchored index key)
      (fun _ _ => True) ⟨⟨cache, []⟩, 0, 0⟩ actions observing) :
    observing.Counted engine index key :=
  runs.invariant (fun counted _ taken => counted.step taken) (.initial engine index key cache)

end Observing

/-! ## Refreshes -/

/-- The resolution has records of the key's name and type that are filed under it. -/
def Resolution.HasSet (res : Resolution) (key : CacheKey) : Prop :=
  answerPartition key.ecs res.ecsScope = key.ecs ∧ key.rrType ≠ .RRSIG ∧
    res.own key.name key.rrType ≠ [] ∧
      ((key.rrType = .CNAME ∨ key.rrType = .DNAME) → (res.own key.name key.rrType).length ≤ 1)

theorem filesSet_iff (engine : EngineConfig) (res : Resolution) {query : QueryKey} {key : CacheKey}
    (asked : query.cacheKey = key) : res.FilesSet engine query key ↔ res.HasSet key := by
  subst asked
  rw [Resolution.HasSet, ← @groupFiled_iff engine]
  constructor
  · rintro ⟨group, listed, filed, same⟩
    obtain ⟨name, rrType, _, partition⟩ := CacheKey.mk.inj same
    exact ⟨partition.symm, group, listed, Prod.ext name.symm rrType.symm, filed⟩
  · rintro ⟨partition, group, listed, same, filed⟩
    refine ⟨group, listed, filed, ?_⟩
    rw [groupKey, same]
    exact congrArg (CacheKey.mk _ _ _) partition.symm

/-- **A refresh is two observations.** In every run of resolutions over the cache, a refresh
that ends with a set for its key has observed the key once more than a resolution does. It has
observed it once in all exactly when its answer has no set for the key, and what it cached on
its way has one. -/
theorem refresh_observations_iff [LinearOrder Score] (scoring : Scoring Score Stability Inputs)
    (config : ServeConfig) (crypto : Crypto) (engine : EngineConfig) (dnssecAnchored : Bool)
    {cache : SemanticCache Score Stability} {key : CacheKey}
    {actions : List (SharedAction Score Stability Inputs)}
    {resolved refreshed : Observing Score Stability} {index : Nat}
    {resolving : Resolving Score Stability} {now : Ts} {inputs : Inputs}
    (runs : Runs (Observing.step scoring config crypto engine dnssecAnchored index key)
      (fun _ _ => True) ⟨⟨cache, []⟩, 0, 0⟩ actions resolved)
    (located : resolved.shared.resolving[index]? = some resolving)
    (refreshes : resolving.key.cacheKey = key)
    (taken : resolved.step scoring config crypto engine dnssecAnchored index key
      (.act index (.recache now inputs)) = some refreshed) :
    ∃ res, resolving.stage = .cached res ∧
      (refreshed.total = 1 ↔ ¬ res.HasSet key ∧ resolved.onTheWay = 1) ∧
      (refreshed.total = resolved.total ↔ ¬ res.HasSet key) := by
  obtain ⟨shared, moved, rfl⟩ := Option.map_eq_some_iff.mp taken
  obtain ⟨found, after, acted, here, acts, -⟩ := SharedCache.act_cases moved
  obtain rfl := Option.some.inj (located.symm.trans here)
  obtain ⟨-, res, stage, writes⟩ := Resolving.recache_stage acts
  obtain ⟨once, never⟩ := (Observing.counted_of_runs runs).cached resolving located res stage
  have made : resolved.shared.observations crypto engine dnssecAnchored index key
      (.act index (.recache now inputs)) =
        (res.writes engine resolving.key inputs now :
          List (CacheOp Score Stability Inputs)).countP (CacheOp.observes key) := by
    rw [SharedCache.observations, if_pos rfl, located, ← writes]
  have concludes : (SharedAction.act index (.recache now inputs) :
      SharedAction Score Stability Inputs).concludes = true := rfl
  refine ⟨res, stage, ?_⟩
  dsimp only
  rw [made, if_pos concludes, ← filesSet_iff engine res refreshes]
  simp only [Observing.total]
  by_cases files : res.FilesSet engine resolving.key key
  · rw [Resolution.observes_once files, once files]
    simp [files]
  · rw [Resolution.observes_nothing files, never files]
    simp [files]

/-! ## Refreshing the address of `www.com` -/

/-- Counts the observations of a history. -/
def countingScoring : Scoring Nat Nat Unit where
  zero := 0
  score ttlSecs _ _ _ _ _ := ttlSecs.toNat
  rankOf := UInt64.ofNat
  defaultInputs := ()
  withConfig _ _ := 0
  observeWeighted observations _ _ _ _ := observations + 1
  observe observations _ _ _ := observations + 1
  recordFailure observations _ := observations

/-- The key of the address. -/
def wwwKey : CacheKey := .plain (wwwQuery none).name .A .IN

/-- A cache that has the address since second 0. -/
def countedCache : SemanticCache Nat Nat :=
  CacheOp.run countingScoring roomyConfig [.insertPositive wwwKey
    ((RrSet.new wwwKey.name .A .IN 3600).addRecord (addressRecord wwwKey.name)) 0 () false]

/-- One step of resolutions that are watched for the address. -/
def watchedStep : Observing Nat Nat → SharedAction Nat Nat Unit → Option (Observing Nat Nat) :=
  Observing.step countingScoring ⟨8, 30, 4⟩ plainCrypto refreshEngine false 0 wwwKey

/-- A refresh after half an hour, up to the end of its resolution. -/
def resolveAgain : List (SharedAction Nat Nat Unit) :=
  [.begin (refreshQuery refreshEngine wwwKey (wwwQuery none).named) .bypass false
      (secondsToTs 1800) (secondsToTs 1800) (.new refreshLimits),
    .act 0 (.consult ⟨fun _ _ => true, fun _ => true, fun _ => []⟩), .act 0 (.probe false),
    .act 0 (.respond ⟨[], id, false, fun _ => (), .ok wwwAddress, fun _ => []⟩),
    .act 0 (.close keyedValidation ())]

/-- Its last step. -/
def recacheAgain : SharedAction Nat Nat Unit := .act 0 (.recache (secondsToTs 1801) ())

/-- How often the history of the address was observed, by its entry. -/
def recorded (observing : Observing Nat Nat) : Option Nat :=
  (observing.shared.cache.findTier wwwKey).map fun found => found.2.stability

/-- What the refresh leaves: its key, and the history before and after its last step. -/
theorem watched_refresh :
    ((runActions watchedStep (fun _ _ => True) ⟨⟨countedCache, []⟩, 0, 0⟩ resolveAgain).bind
      fun resolved => (watchedStep resolved recacheAgain).bind fun refreshed =>
        (resolved.shared.resolving[0]?).map fun resolving : Resolving Nat Nat =>
          (resolving.key.cacheKey, recorded resolved, recorded refreshed, refreshed.total)) =
      some (wwwKey, some 2, some 3, 2) := by
  decide

theorem exists_watched_refresh :
    ∃ resolved refreshed resolving,
      Runs watchedStep (fun _ _ => True) ⟨⟨countedCache, []⟩, 0, 0⟩ resolveAgain resolved ∧
      watchedStep resolved recacheAgain = some refreshed ∧
      resolved.shared.resolving[0]? = some resolving ∧
      resolving.key.cacheKey = wwwKey ∧ recorded resolved = some 2 ∧
      recorded refreshed = some 3 ∧ refreshed.total = 2 := by
  obtain ⟨resolved, run, computed⟩ := Option.bind_eq_some_iff.mp watched_refresh
  obtain ⟨refreshed, taken, computed⟩ := Option.bind_eq_some_iff.mp computed
  obtain ⟨resolving, located, same⟩ := Option.map_eq_some_iff.mp computed
  simp only [Prod.mk.injEq] at same
  exact ⟨resolved, refreshed, resolving, runs_of_runActions run, taken, located, same⟩

/-- The refresh has a set for its key. -/
theorem refresh_observations_iff_address :
    ∃ resolved refreshed res,
      Runs watchedStep (fun _ _ => True) ⟨⟨countedCache, []⟩, 0, 0⟩ resolveAgain resolved ∧
      watchedStep resolved recacheAgain = some refreshed ∧ refreshed.total ≠ 1 ∧
      (refreshed.total = 1 ↔ ¬ Resolution.HasSet res wwwKey ∧ resolved.onTheWay = 1) := by
  obtain ⟨resolved, refreshed, resolving, runs, taken, located, key, -, -, twice⟩ :=
    exists_watched_refresh
  obtain ⟨res, -, once, -⟩ := refresh_observations_iff countingScoring ⟨8, 30, 4⟩ plainCrypto
    refreshEngine false runs located key taken
  exact ⟨resolved, refreshed, res, runs, taken, by omega, once⟩

/-- The history of the address has one observation when its refresh begins, a second one when the
refresh has resolved it, as any resolution, and a third when the refresh has ended. -/
theorem address_recorded_twice :
    recorded ⟨⟨countedCache, []⟩, 0, 0⟩ = some 1 ∧ ∃ resolved refreshed,
      Runs watchedStep (fun _ _ => True) ⟨⟨countedCache, []⟩, 0, 0⟩ resolveAgain resolved ∧
      watchedStep resolved recacheAgain = some refreshed ∧
      recorded resolved = some 2 ∧ recorded refreshed = some 3 := by
  obtain ⟨resolved, refreshed, _, runs, taken, -, -, once, twice, -⟩ := exists_watched_refresh
  exact ⟨by decide, resolved, refreshed, runs, taken, once, twice⟩

end RecurseX
