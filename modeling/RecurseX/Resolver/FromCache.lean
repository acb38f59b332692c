import RecurseX.Resolver.Basic

/-!
# Answers from the cache

`resolveFromCache` walks an alias chain through the cache and gathers an answer
on the way. `cacheChain` is the chain alone, what the lookups find and nothing
else; `fromCache_eq` says that the answer is gathered from the chain, link by
link, so that what the answer is worth can be read off what the cache holds.
-/

namespace RecurseX

open Library

/-- Whether a resolution may use the cache. -/
inductive ResolutionCachePolicy where
  | reuse
  | freshOnly
  | bypass
deriving DecidableEq, Repr

/-- The settings of answers from the cache. -/
structure ServeConfig where
  maxCnameDepth : Nat
  staleServeTtl : UInt32
  maxChainRefresh : Nat

section

variable {Score Stability Inputs : Type}

/-- Remaining TTL in seconds at `now` (floor, never negative). -/
def CacheEntry.remainingTtl (self : CacheEntry Score Stability) (now : Ts) : UInt32 :=
  if self.expires ≤ now then 0
  else UInt32.ofNat (min ((self.expires - now).tdiv 1000000000).toNat 0xffffffff)

/-- What has been gathered from the cache. -/
structure CachedAnswer (Score Stability : Type) where
  answers : List Sourced
  rrsigs : List Sourced
  authorities : List Sourced
  rcode : Rcode
  validated : Bool
  ttl : UInt32
  stale : Bool
  refreshKeys : List CacheKey
  staleEntries : List (CacheEntry Score Stability)

namespace CachedAnswer

/-- Nothing has been gathered. -/
def start : CachedAnswer Score Stability := ⟨[], [], [], .NOERROR, true, 0xffffffff, false, [], []⟩

/-- Records of the cache, in a role. -/
def cached (role : Role) (records : List Record) : List Sourced :=
  records.map fun record => ⟨record, role, none⟩

/-- Append answer records. -/
def addAnswers (self : CachedAnswer Score Stability) (role : Role) (records : List Record) :
    CachedAnswer Score Stability :=
  { self with answers := self.answers ++ cached role records }

/-- Append RRSIG records. -/
def addRrsigs (self : CachedAnswer Score Stability) (records : List Record) :
    CachedAnswer Score Stability :=
  { self with rrsigs := self.rrsigs ++ cached .rrsig records }

/-- Conclude with a negative answer. -/
def deny (self : CachedAnswer Score Stability) (rcode : Rcode) (soa : Option Record) :
    CachedAnswer Score Stability :=
  { self with rcode := rcode, authorities := self.authorities ++ cached .soa soa.toList }

/-- Authentic only if this source is. -/
def meetValidated (self : CachedAnswer Score Stability) (validated : Bool) :
    CachedAnswer Score Stability :=
  { self with validated := self.validated && validated }

/-- Report at most this TTL. -/
def capTtl (self : CachedAnswer Score Stability) (ttl : UInt32) : CachedAnswer Score Stability :=
  { self with ttl := min self.ttl ttl }

/-- Account for a stale entry. -/
def useStale (self : CachedAnswer Score Stability) (entry : CacheEntry Score Stability) :
    CachedAnswer Score Stability :=
  { self with
    stale := true
    staleEntries := self.staleEntries ++ [entry]
    refreshKeys := self.refreshKeys ++ [entry.key] }

end CachedAnswer

/-- What one turn of the loop over the cache leads to. -/
inductive CacheTurn (Score Stability : Type) where
  /-- The chain cannot be completed from the cache. -/
  | giveUp
  /-- An alias to another name. -/
  | alias_ (target : Name) (answer : CachedAnswer Score Stability)
  /-- The end of the chain. -/
  | done (answer : CachedAnswer Score Stability)

/-- Act on a fresh entry. -/
def freshArm (rrType : RrType) (now : Ts) (entry : CacheEntry Score Stability)
    (answer : CachedAnswer Score Stability) : CacheTurn Score Stability :=
  let answer := (answer.meetValidated entry.validated).capTtl (max (entry.remainingTtl now) 1)
  match entry.kind with
  | .positive rrset =>
      if rrset.rrType = .CNAME ∧ rrType ≠ .CNAME then
        match rrset.cnameTarget, rrset.records.head? with
        | some target, some record =>
            .alias_ target ((answer.addAnswers .cname [record]).addRrsigs rrset.rrsigs)
        | _, _ => .giveUp
      else .done ((answer.addAnswers .answer rrset.records).addRrsigs rrset.rrsigs)
  | .negative rcode soa _ => .done (answer.deny rcode soa)

/-- Act on a stale entry. The signatures of a stale alias are left behind. -/
def staleArm (config : ServeConfig) (policy : ResolutionCachePolicy) (rrType : RrType)
    (entry : CacheEntry Score Stability) (answer : CachedAnswer Score Stability) :
    CacheTurn Score Stability :=
  if policy ≠ .reuse then .giveUp
  else
    let answer := ((answer.useStale entry).capTtl (max config.staleServeTtl 1)).meetValidated
      entry.validated
    match entry.kind with
    | .positive rrset =>
        if rrset.rrType = .CNAME ∧ rrType ≠ .CNAME then
          match rrset.cnameTarget, rrset.records.head? with
          | some target, some record => .alias_ target (answer.addAnswers .cname [record])
          | _, _ => .giveUp
        else .done ((answer.addAnswers .answer rrset.records).addRrsigs rrset.rrsigs)
    | .negative rcode soa _ => .done (answer.deny rcode soa)

/-- Act on an alias: its record comes from a second lookup, under the plain key. -/
def cnameOutcomeArm (target : Name) (ttlSecs : UInt32) (outcome : LookupOutcome Score Stability)
    (answer : CachedAnswer Score Stability) : CacheTurn Score Stability :=
  match outcome with
  | .fresh entry =>
      let answer := answer.meetValidated entry.validated
      let answer := match entry.kind with
        | .positive rrset =>
            match rrset.records.head? with
            | some record => (answer.addAnswers .cname [record]).addRrsigs rrset.rrsigs
            | none => answer
        | .negative .. => answer
      .alias_ target (answer.capTtl (max ttlSecs 1))
  | _ => .giveUp

section Lookups

variable [LinearOrder Score] (scoring : Scoring Score Stability Inputs) (config : ServeConfig)
  (policy : ResolutionCachePolicy) (key : QueryKey) (now : Ts)

/-- One turn of the loop. -/
def cacheTurn (current : Name) (answer : CachedAnswer Score Stability)
    (cache : SemanticCache Score Stability) :
    CacheTurn Score Stability × SemanticCache Score Stability :=
  match cache.lookup scoring ⟨current, key.rrType, key.rrClass, key.ecs⟩ now with
  | (.fresh entry, cache) => (freshArm key.rrType now entry answer, cache)
  | (.stale entry, cache) => (staleArm config policy key.rrType entry answer, cache)
  | (.cname target ttlSecs _ _, cache) =>
      let again := cache.lookup scoring (.plain current .CNAME key.rrClass) now
      (cnameOutcomeArm target ttlSecs again.1 answer, again.2)
  | (.nxDomain _ soa, cache) => (.done (answer.deny .NXDOMAIN soa), cache)
  | (.miss, cache) => (.giveUp, cache)

/-- The loop; `left` counts the aliases that may still be followed, plus one. -/
def fromCache : (left : Nat) → Name → CachedAnswer Score Stability →
    SemanticCache Score Stability →
    Option (CachedAnswer Score Stability) × SemanticCache Score Stability
  | 0, _, _, cache => (none, cache)
  | left + 1, current, answer, cache =>
      match cacheTurn scoring config policy key now current answer cache with
      | (.giveUp, cache) => (none, cache)
      | (.alias_ target answer, cache) => fromCache left target answer cache
      | (.done answer, cache) => (some answer, cache)

/-- What the outside contributes to serving a stale answer. -/
structure Serving (Score Stability : Type) where
  /-- The risk planner's decision. -/
  servesStale : List (CacheEntry Score Stability) → (validated : Bool) → Bool
  /-- Whether a refresh gets a slot and a share of the refresh budget. -/
  granted : CacheKey → Bool
  /-- The alias entries that a key keeps servable. -/
  dependents : CacheKey → List CacheKey

/-- Queue a background refresh, and say whether it was queued. -/
def queueBackgroundRefresh (serving : Serving Score Stability)
    (cache : SemanticCache Score Stability) (key : CacheKey) :
    Bool × SemanticCache Score Stability :=
  match cache.markRefreshing key with
  | (false, cache) => (false, cache)
  | (true, cache) =>
      if serving.granted key then (true, cache) else (false, cache.clearRefreshing key)

/-- Refresh a key and the alias entries it keeps servable. -/
def refreshWithDependents (serving : Serving Score Stability) (maxDependents : Nat)
    (cache : SemanticCache Score Stability) (key : CacheKey) : SemanticCache Score Stability :=
  let queue (state : Nat × SemanticCache Score Stability) (dependent : CacheKey) :=
    if maxDependents ≤ state.1 then state
    else
      let queued := queueBackgroundRefresh serving state.2 dependent
      (if queued.1 then state.1 + 1 else state.1, queued.2)
  ((serving.dependents key).foldl queue (0, (queueBackgroundRefresh serving cache key).2)).2

/-- The resolution an answer is returned as. -/
def CachedAnswer.resolution (answer : CachedAnswer Score Stability) : Resolution where
  name := key.name
  rrType := key.rrType
  rrClass := key.rrClass
  rcode := answer.rcode
  answers := answer.answers
  authorities := answer.authorities
  rrsigs := answer.rrsigs
  validated := answer.validated
  ttl := if answer.ttl = 0xffffffff then 0 else answer.ttl
  fromCache := true
  stale := answer.stale
  ecsScope := none
  servedAt := now

/-- Attempt to satisfy a query purely from the cache, walking CNAME chains. -/
def resolveFromCache (serving : Serving Score Stability) (cache : SemanticCache Score Stability) :
    Option Resolution × SemanticCache Score Stability :=
  match fromCache scoring config policy key now (config.maxCnameDepth + 1) key.name .start
      cache with
  | (none, cache) => (none, cache)
  | (some answer, cache) =>
      if answer.stale then
        if serving.servesStale answer.staleEntries answer.validated then
          (some (answer.resolution key now),
            answer.refreshKeys.foldl (refreshWithDependents serving config.maxChainRefresh) cache)
        else (none, cache)
      else (some (answer.resolution key now), cache)

/-! ## The chain of lookups -/

/-- What the cache has for one name of a chain. -/
inductive Link (Score Stability : Type) where
  /-- An entry under the key that was asked for, fresh or stale. -/
  | direct (fresh : Bool) (entry : CacheEntry Score Stability)
  /-- An alias that was followed, and the entry whose record stands for it. -/
  | through (target : Name) (ttlSecs : UInt32) (expires : Ts) (validated : Bool)
      (emitted : CacheEntry Score Stability)
  /-- The name is in the NXDOMAIN store. -/
  | missing (expires : Ts) (soa : Option Record)

/-- The entry holds an alias, and the question was not about the alias itself. -/
def EntryKind.redirects (rrType : RrType) : EntryKind → Bool
  | .positive rrset => rrset.rrType == .CNAME && rrType != .CNAME
  | .negative .. => false

namespace Link

/-- The name that is looked up next. -/
def next (rrType : RrType) : Link Score Stability → Option Name
  | .direct _ entry => if entry.kind.redirects rrType then entry.cnameTarget else none
  | .through target .. => some target
  | .missing .. => none

/-- The link is not an alias entry without a target. -/
def whole (rrType : RrType) : Link Score Stability → Bool
  | .direct _ entry => !entry.kind.redirects rrType || entry.cnameTarget.isSome
  | _ => true

/-- The answer records the link contributes. -/
def emits (rrType : RrType) : Link Score Stability → List Record
  | .direct _ entry =>
      match entry.kind with
      | .positive rrset =>
          if entry.kind.redirects rrType then rrset.records.head?.toList else rrset.records
      | .negative .. => []
  | .through _ _ _ _ emitted =>
      match emitted.kind with
      | .positive rrset => rrset.records.head?.toList
      | .negative .. => []
  | .missing .. => []

/-- The flag that is asked whether the link is authentic. -/
def consulted : Link Score Stability → Bool
  | .direct _ entry => entry.validated
  | .through _ _ _ _ emitted => emitted.validated
  | .missing .. => true

/-- The TTL the answer is capped with. -/
def stamp (staleServeTtl : UInt32) (now : Ts) : Link Score Stability → Option UInt32
  | .direct fresh entry =>
      some (if fresh then max (entry.remainingTtl now) 1 else max staleServeTtl 1)
  | .through _ ttlSecs _ _ _ => some (max ttlSecs 1)
  | .missing .. => none

/-- The answer with what the link contributes to it. -/
structure Adds (config : ServeConfig) (rrType : RrType) (now : Ts)
    (answer : CachedAnswer Score Stability) (link : Link Score Stability)
    (result : CachedAnswer Score Stability) : Prop where
  answers : result.answers.map Sourced.record =
    answer.answers.map Sourced.record ++ link.emits rrType
  validated : result.validated = (answer.validated && link.consulted)
  ttl : result.ttl = min answer.ttl ((link.stamp config.staleServeTtl now).getD 0xffffffff)

end Link

/-- What the cache has for a name; `none` when the chain breaks here. -/
def cacheLink (current : Name) (cache : SemanticCache Score Stability) :
    Option (Link Score Stability) × SemanticCache Score Stability :=
  let unbroken (link : Link Score Stability) := if link.whole key.rrType then some link else none
  match cache.lookup scoring ⟨current, key.rrType, key.rrClass, key.ecs⟩ now with
  | (.fresh entry, cache) => (unbroken (.direct true entry), cache)
  | (.stale entry, cache) =>
      (if policy = .reuse then unbroken (.direct false entry) else none, cache)
  | (.cname target ttlSecs expires validated, cache) =>
      match cache.lookup scoring (.plain current .CNAME key.rrClass) now with
      | (.fresh emitted, cache) => (some (.through target ttlSecs expires validated emitted), cache)
      | (_, cache) => (none, cache)
  | (.nxDomain expires soa, cache) => (some (.missing expires soa), cache)
  | (.miss, cache) => (none, cache)

/-- The names a query leads through and what the cache has for each of them. -/
def cacheChain : (left : Nat) → Name → SemanticCache Score Stability →
    Option (List (Name × Link Score Stability)) × SemanticCache Score Stability
  | 0, _, cache => (none, cache)
  | left + 1, current, cache =>
      match cacheLink scoring policy key now current cache with
      | (none, cache) => (none, cache)
      | (some link, cache) =>
          match link.next key.rrType with
          | none => (some [(current, link)], cache)
          | some target =>
              match cacheChain left target cache with
              | (none, cache) => (none, cache)
              | (some links, cache) => (some ((current, link) :: links), cache)

end Lookups

/-! ## The answer is gathered from the chain -/

variable {scoring : Scoring Score Stability Inputs} {config : ServeConfig}
  {policy : ResolutionCachePolicy} {key : QueryKey} {now : Ts}

theorem map_record_cached (role : Role) (records : List Record) :
    (CachedAnswer.cached role records).map Sourced.record = records := by
  rw [CachedAnswer.cached, List.map_map]
  exact List.map_id' records

theorem min_maxTtl (ttl : UInt32) : min ttl 0xffffffff = ttl := by
  have small : ttl ≤ 0xffffffff := UInt32.le_iff_toNat_le.mpr (Nat.le_of_lt_succ ttl.toNat_lt)
  exact if_pos small

/-- What a turn that uses a link leads to. -/
def CacheTurn.Uses (config : ServeConfig) (rrType : RrType) (now : Ts)
    (answer : CachedAnswer Score Stability) (link : Link Score Stability) :
    CacheTurn Score Stability → Prop
  | .giveUp => True
  | .alias_ target result => link.next rrType = some target ∧ link.whole rrType = true ∧
      link.Adds config rrType now answer result
  | .done result => link.next rrType = none ∧ link.whole rrType = true ∧
      link.Adds config rrType now answer result

section Direct

variable {rrType : RrType} {fresh : Bool} {entry : CacheEntry Score Stability} {rrset : RrSet}

theorem Link.direct_alias {target : Name} {record : Record} (held : entry.kind = .positive rrset)
    (redirects : rrset.rrType = .CNAME ∧ rrType ≠ .CNAME) (found : rrset.cnameTarget = some target)
    (first : rrset.records.head? = some record) :
    (Link.direct fresh entry).next rrType = some target ∧
      (Link.direct fresh entry).whole rrType = true ∧
      (Link.direct fresh entry).emits rrType = [record] := by
  have redirected : entry.kind.redirects rrType = true := by
    simp [held, EntryKind.redirects, redirects.1, redirects.2]
  have aliased : entry.cnameTarget = some target := by
    rw [CacheEntry.cnameTarget, held]
    exact found
  refine ⟨by simp [Link.next, redirected, aliased], by simp [Link.whole, aliased], ?_⟩
  simp only [Link.emits, redirected]
  simp [held, first]

theorem Link.direct_answer (held : entry.kind = .positive rrset)
    (answers : ¬ (rrset.rrType = .CNAME ∧ rrType ≠ .CNAME)) :
    (Link.direct fresh entry).next rrType = none ∧
      (Link.direct fresh entry).whole rrType = true ∧
      (Link.direct fresh entry).emits rrType = rrset.records := by
  have direct : entry.kind.redirects rrType = false := by
    simpa [held, EntryKind.redirects] using answers
  refine ⟨by simp [Link.next, direct], by simp [Link.whole, direct], ?_⟩
  simp only [Link.emits, direct]
  simp [held]

theorem Link.direct_denial {rcode : Rcode} {soa : Option Record} {ttlSecs : UInt32}
    (held : entry.kind = .negative rcode soa ttlSecs) :
    (Link.direct fresh entry).next rrType = none ∧
      (Link.direct fresh entry).whole rrType = true ∧
      (Link.direct fresh entry).emits rrType = [] := by
  have direct : entry.kind.redirects rrType = false := by
    rw [held]
    rfl
  exact ⟨by simp [Link.next, direct], by simp [Link.whole, direct], by simp [Link.emits, held]⟩

theorem freshArm_uses (entry : CacheEntry Score Stability)
    (answer : CachedAnswer Score Stability) :
    (freshArm rrType now entry answer).Uses config rrType now answer (.direct true entry) := by
  unfold freshArm
  dsimp only
  split
  · rename_i rrset held
    split_ifs with redirects
    · split
      · rename_i target record found first
        obtain ⟨follows, whole, emits⟩ := Link.direct_alias held redirects found first
        refine ⟨follows, whole, ?_, rfl, rfl⟩
        rw [emits, CachedAnswer.addRrsigs, CachedAnswer.addAnswers, List.map_append,
          map_record_cached]
        rfl
      · trivial
    · obtain ⟨ends, whole, emits⟩ := Link.direct_answer held redirects
      refine ⟨ends, whole, ?_, rfl, rfl⟩
      rw [emits, CachedAnswer.addRrsigs, CachedAnswer.addAnswers, List.map_append,
        map_record_cached]
      rfl
  · rename_i rcode soa ttlSecs held
    obtain ⟨ends, whole, emits⟩ := Link.direct_denial held
    refine ⟨ends, whole, ?_, rfl, rfl⟩
    rw [emits, List.append_nil]
    rfl

theorem staleArm_uses (entry : CacheEntry Score Stability)
    (answer : CachedAnswer Score Stability) :
    (staleArm config policy rrType entry answer).Uses config rrType now answer
      (.direct false entry) := by
  unfold staleArm
  dsimp only
  split_ifs
  · trivial
  split
  · rename_i rrset held
    split_ifs with redirects
    · split
      · rename_i target record found first
        obtain ⟨follows, whole, emits⟩ := Link.direct_alias held redirects found first
        refine ⟨follows, whole, ?_, rfl, rfl⟩
        rw [emits, CachedAnswer.addAnswers, List.map_append, map_record_cached]
        rfl
      · trivial
    · obtain ⟨ends, whole, emits⟩ := Link.direct_answer held redirects
      refine ⟨ends, whole, ?_, rfl, rfl⟩
      rw [emits, CachedAnswer.addRrsigs, CachedAnswer.addAnswers, List.map_append,
        map_record_cached]
      rfl
  · rename_i rcode soa ttlSecs held
    obtain ⟨ends, whole, emits⟩ := Link.direct_denial held
    refine ⟨ends, whole, ?_, rfl, rfl⟩
    rw [emits, List.append_nil]
    rfl

end Direct

theorem cnameOutcomeArm_uses {rrType : RrType} (target : Name) (ttlSecs : UInt32) (expires : Ts)
    (validated : Bool) (emitted : CacheEntry Score Stability)
    (answer : CachedAnswer Score Stability) :
    (cnameOutcomeArm target ttlSecs (.fresh emitted) answer).Uses config rrType now answer
      (.through target ttlSecs expires validated emitted) := by
  unfold cnameOutcomeArm
  dsimp only
  split
  · rename_i rrset held
    split
    · rename_i record first
      refine ⟨rfl, rfl, ?_, rfl, rfl⟩
      simp [Link.emits, held, first, map_record_cached, CachedAnswer.addRrsigs,
        CachedAnswer.addAnswers, CachedAnswer.capTtl, CachedAnswer.meetValidated]
    · rename_i empty
      refine ⟨rfl, rfl, ?_, rfl, rfl⟩
      simp [Link.emits, held, empty, CachedAnswer.capTtl, CachedAnswer.meetValidated]
  · rename_i rcode soa ttlSecs held
    refine ⟨rfl, rfl, ?_, rfl, rfl⟩
    simp [Link.emits, held, CachedAnswer.capTtl, CachedAnswer.meetValidated]

theorem CacheTurn.Uses.whole {rrType : RrType} {answer : CachedAnswer Score Stability}
    {link : Link Score Stability} {turn : CacheTurn Score Stability}
    (uses : turn.Uses config rrType now answer link) (goes : turn ≠ .giveUp) :
    link.whole rrType = true := by
  cases turn with
  | giveUp => exact absurd rfl goes
  | alias_ target result => exact uses.2.1
  | done result => exact uses.2.1

/-- The answer with what a chain contributes to it. -/
structure Gathered (config : ServeConfig) (rrType : RrType) (now : Ts)
    (answer : CachedAnswer Score Stability) (chain : List (Name × Link Score Stability))
    (result : CachedAnswer Score Stability) : Prop where
  answers : result.answers.map Sourced.record =
    answer.answers.map Sourced.record ++ chain.flatMap fun hop => hop.2.emits rrType
  validated : result.validated = (answer.validated && chain.all fun hop => hop.2.consulted)
  ttl : result.ttl = chain.foldl
    (fun ttl hop => min ttl ((hop.2.stamp config.staleServeTtl now).getD 0xffffffff)) answer.ttl

theorem Gathered.single {answer result : CachedAnswer Score Stability}
    {link : Link Score Stability} {rrType : RrType}
    (adds : link.Adds config rrType now answer result) (current : Name) :
    Gathered config rrType now answer [(current, link)] result := by
  refine ⟨?_, ?_, adds.ttl⟩
  · rw [adds.answers, List.flatMap_singleton]
  · rw [adds.validated, List.all_cons, List.all_nil, Bool.and_true]

theorem Gathered.cons {answer middle result : CachedAnswer Score Stability}
    {link : Link Score Stability} {rrType : RrType} {chain : List (Name × Link Score Stability)}
    (adds : link.Adds config rrType now answer middle)
    (gathered : Gathered config rrType now middle chain result) (current : Name) :
    Gathered config rrType now answer ((current, link) :: chain) result := by
  refine ⟨?_, ?_, ?_⟩
  · rw [gathered.answers, adds.answers, List.flatMap_cons, List.append_assoc]
  · rw [gathered.validated, adds.validated, List.all_cons, Bool.and_assoc]
  · rw [gathered.ttl, adds.ttl, List.foldl_cons]

variable [LinearOrder Score]

variable (scoring config policy key now) in
/-- One turn gives up, or uses the link that the cache has for the name. -/
theorem cacheTurn_uses (current : Name) (answer : CachedAnswer Score Stability)
    (cache : SemanticCache Score Stability) :
    (cacheTurn scoring config policy key now current answer cache).1 = .giveUp ∨
      ∃ link, cacheLink scoring policy key now current cache =
          (some link, (cacheTurn scoring config policy key now current answer cache).2) ∧
        (cacheTurn scoring config policy key now current answer cache).1.Uses config key.rrType
          now answer link := by
  by_cases goes : (cacheTurn scoring config policy key now current answer cache).1 = .giveUp
  · exact .inl goes
  refine .inr ?_
  unfold cacheTurn at goes ⊢
  unfold cacheLink
  dsimp only at goes ⊢
  split at goes
  · rename_i entry after looked
    have uses : (freshArm key.rrType now entry answer).Uses config key.rrType now answer
        (.direct true entry) := freshArm_uses entry answer
    exact ⟨_, by rw [if_pos (uses.whole goes)], uses⟩
  · rename_i entry after looked
    have reused : policy = .reuse := by
      by_contra other
      exact goes (if_pos other)
    have uses : (staleArm config policy key.rrType entry answer).Uses config key.rrType now answer
        (.direct false entry) := staleArm_uses entry answer
    exact ⟨_, by rw [if_pos reused, if_pos (uses.whole goes)], uses⟩
  · rename_i target ttlSecs expires validated after looked
    dsimp only at goes ⊢
    generalize after.lookup scoring (.plain current .CNAME key.rrClass) now = again at goes ⊢
    obtain ⟨outcome, last⟩ := again
    cases outcome with
    | fresh emitted =>
        exact ⟨_, rfl, cnameOutcomeArm_uses target ttlSecs expires validated emitted answer⟩
    | _ => exact absurd rfl goes
  · rename_i expires soa after looked
    refine ⟨_, rfl, rfl, rfl, ?_, ?_, ?_⟩
    · simp [Link.emits, CachedAnswer.deny]
    · exact (Bool.and_true _).symm
    · exact (min_maxTtl _).symm
  · exact absurd rfl goes

/-- What the loop returns is gathered from the chain of the name it starts at. -/
theorem fromCache_gathered {left : Nat} {current : Name}
    {answer result : CachedAnswer Score Stability} {cache after : SemanticCache Score Stability}
    (returned : fromCache scoring config policy key now left current answer cache =
      (some result, after)) :
    ∃ chain, cacheChain scoring policy key now left current cache = (some chain, after) ∧
      Gathered config key.rrType now answer chain result := by
  induction left generalizing current answer cache with
  | zero => cases returned
  | succ left inductionHypothesis =>
      simp only [fromCache] at returned
      simp only [cacheChain]
      have turned := cacheTurn_uses scoring config policy key now current answer cache
      generalize cacheTurn scoring config policy key now current answer cache = turn
        at returned turned
      obtain ⟨outcome, middle⟩ := turn
      obtain gaveUp | ⟨link, linked, uses⟩ := turned
      · obtain rfl : outcome = .giveUp := gaveUp
        cases returned
      · rw [linked]
        cases outcome with
        | giveUp => cases returned
        | alias_ target extended =>
            obtain ⟨chain, chained, gathered⟩ := inductionHypothesis returned
            refine ⟨(current, link) :: chain, ?_, gathered.cons uses.2.2 current⟩
            dsimp only
            rw [uses.1]
            dsimp only
            rw [chained]
        | done final =>
            cases returned
            refine ⟨[(current, link)], ?_, .single uses.2.2 current⟩
            dsimp only
            rw [uses.1]

/-- The chain that a query starts. -/
def queryChain (scoring : Scoring Score Stability Inputs) (config : ServeConfig)
    (policy : ResolutionCachePolicy) (key : QueryKey) (now : Ts)
    (cache : SemanticCache Score Stability) : Option (List (Name × Link Score Stability)) :=
  (cacheChain scoring policy key now (config.maxCnameDepth + 1) key.name cache).1

/-- An answer from the cache is gathered from the chain of its query. -/
theorem resolveFromCache_gathered {serving : Serving Score Stability} {res : Resolution}
    {cache after : SemanticCache Score Stability}
    (served : resolveFromCache scoring config policy key now serving cache = (some res, after)) :
    ∃ chain answer, queryChain scoring config policy key now cache = some chain ∧
      Gathered config key.rrType now .start chain answer ∧ res = answer.resolution key now := by
  unfold resolveFromCache at served
  split at served
  · cases served
  · rename_i answer last returned
    obtain ⟨chain, chained, gathered⟩ := fromCache_gathered returned
    refine ⟨chain, answer, by rw [queryChain, chained], gathered, ?_⟩
    split_ifs at served
    · exact (Option.some.inj (Prod.mk.inj served).1).symm
    · cases (Prod.mk.inj served).1
    · exact (Option.some.inj (Prod.mk.inj served).1).symm

/-- A chain starts at its name, and every link but the last leads to the next. -/
theorem cacheChain_linked {left : Nat} {current : Name} {cache after : SemanticCache Score Stability}
    {chain : List (Name × Link Score Stability)}
    (chained : cacheChain scoring policy key now left current cache = (some chain, after)) :
    (∃ link rest, chain = (current, link) :: rest) ∧
      chain.IsChain (fun hop following => hop.2.next key.rrType = some following.1) ∧
      ∀ hop ∈ chain.getLast?, hop.2.next key.rrType = none := by
  induction left generalizing current cache chain with
  | zero => cases chained
  | succ left inductionHypothesis =>
      simp only [cacheChain] at chained
      split at chained
      · cases chained
      · rename_i link middle linked
        split at chained
        · rename_i ends
          cases chained
          refine ⟨⟨link, [], rfl⟩, .singleton _, ?_⟩
          rintro hop ⟨⟩
          exact ends
        · rename_i target follows
          split at chained
          · cases chained
          · rename_i rest last further
            cases chained
            obtain ⟨⟨following, others, rfl⟩, linkedOn, ends⟩ := inductionHypothesis further
            refine ⟨⟨link, _, rfl⟩, .cons_cons follows linkedOn, ?_⟩
            rw [List.getLast?_cons_cons]
            exact ends

end

end RecurseX
