import RecurseX.Library.Runs
import RecurseX.Resolver.CachedAnswers
import RecurseX.Resolver.Carried

/-!
# Resolutions over one cache

Any number of resolutions share the cache. Each takes one step at a time under
the lock of the cache: it asks the cache, probes it for the end of an alias
chain, acts on a response, and at its end caches what it gathered. What a walk
gathered from the cache is cached again with a full TTL. In every run in which no
walk finds the end of its alias chain in the cache, an entry expires later only
because of a response that carries it.
-/

namespace RecurseX

open Library Std

variable {Score Stability Inputs : Type}

/-! ## One turn in two steps -/

namespace Turn

variable [LinearOrder Score] (scoring : Scoring Score Stability Inputs) (engine : EngineConfig)
  (key : QueryKey) (now : Ts)

/-- The part of a turn before the servers are asked: the loop ends here, or the
name to ask for is settled. -/
def probe (expired : Bool) (state : WalkState Score Stability) :
    Progress Score Stability ⊕ Name × WalkState Score Stability :=
  if expired then .inl (.failed (.timeout engine.queryBudgetMs) state)
  else if engine.maxCnameDepth < state.depth then .inl (.failed .cnameLoop state)
  else if engine.maxReferrals < state.referrals then .inl (.failed .referralLoop state)
  else match cachedEnd scoring key now state with
    | (some rrset, state) => .inl (.finished (endOnCached rrset state))
    | (none, state) => .inr (queryName engine state, state)

/-- The part of a turn after the servers were asked. -/
def respond (turn : Turn Score Stability Inputs) (name : Name) (state : WalkState Score Stability) :
    Progress Score Stability :=
  let state := { state with minimized := none, budget := turn.spent state.budget }
  match turn.response with
  | .error error => .failed (.upstream error) state
  | .ok received => turn.receive scoring engine key now name received state

/-- A turn is its two parts. -/
theorem take_eq (turn : Turn Score Stability Inputs) (state : WalkState Score Stability) :
    turn.take scoring engine key now state =
      match probe scoring engine key now turn.expired
          { state with cache := turn.others.foldl (CacheOp.apply scoring) state.cache } with
      | .inl progress => progress
      | .inr (name, state) => turn.respond scoring engine key now name state := by
  unfold take probe respond
  dsimp only
  split_ifs
  · rfl
  · rfl
  · rfl
  · generalize cachedEnd scoring key now
      { state with cache := turn.others.foldl (CacheOp.apply scoring) state.cache } = probed
    obtain ⟨found, probed⟩ := probed
    cases found with
    | some rrset => rfl
    | none =>
        cases turn.response with
        | error error => rfl
        | ok received => rfl

end Turn

/-! ## The system -/

/-- How far a call of `resolve_inner` is. -/
inductive Stage where
  /-- The cache has not been asked yet. -/
  | arriving
  /-- At the top of the loop, or about to forward. -/
  | walking
  /-- The servers are being asked. -/
  | asking (queryName : Name)
  /-- There is a resolution that has not been cached. -/
  | resolved (res : Resolution)
  /-- The resolution has been cached. -/
  | cached (res : Resolution)
  | done

/-- One call of `resolve_inner`. -/
structure Resolving (Score Stability : Type) where
  key : QueryKey
  policy : ResolutionCachePolicy
  /-- An upstream group is responsible for the key. -/
  forwards : Bool
  /-- When the call began. -/
  servedAt : Ts
  /-- When its loop began. -/
  now : Ts
  walk : WalkState Score Stability
  /-- The responses of forwarders. -/
  forwarded : List Message
  stage : Stage

/-- One step of a resolution. -/
inductive Resolving.Action (Score Stability Inputs : Type) where
  | consult (serving : Serving Score Stability)
  | probe (expired : Bool)
  | respond (turn : Turn Score Stability Inputs)
  | forward (forwarding : Forwarding)
  | close (validation : Validation) (inputs : Inputs)
  /-- A background refresh caches its resolution once more. -/
  | recache (now : Ts) (inputs : Inputs)

namespace Resolving

/-- The responses the resolution has received. -/
def responses (self : Resolving Score Stability) : List Message :=
  self.walk.responses ++ self.forwarded

/-- The resolution as the loop leaves it. -/
def after (self : Resolving Score Stability) (progress : Progress Score Stability) :
    SemanticCache Score Stability × Resolving Score Stability :=
  (progress.state.cache,
    { self with
      walk := progress.state
      stage := match progress with
        | .running _ => .walking
        | .finished state => .resolved (state.resolution self.key self.now)
        | .failed .. => .done })

variable [LinearOrder Score] (scoring : Scoring Score Stability Inputs) (config : ServeConfig)
  (crypto : Crypto) (engine : EngineConfig) (dnssecAnchored : Bool)

/-- Cache a resolution. -/
def store (self : Resolving Score Stability) (cache : SemanticCache Score Stability)
    (res : Resolution) (inputs : Inputs) (now : Ts) (stage : Stage) :
    SemanticCache Score Stability × Resolving Score Stability :=
  let walk := cacheResolution scoring engine self.key res inputs now
    { self.walk with cache := cache }
  (walk.cache, { self with stage := stage })

/-- One step of a resolution and what it does to the cache. -/
def step (cache : SemanticCache Score Stability) (self : Resolving Score Stability) :
    Action Score Stability Inputs →
      Option (SemanticCache Score Stability × Resolving Score Stability)
  | .consult serving =>
      match self.stage with
      | .arriving =>
          if self.policy = .bypass then some (cache, { self with stage := .walking })
          else match resolveFromCache scoring config self.policy self.key self.servedAt serving
              cache with
            | (some _, cache) => some (cache, { self with stage := .done })
            | (none, cache) => some (cache, { self with stage := .walking })
      | _ => none
  | .probe expired =>
      match self.stage, self.forwards with
      | .walking, false =>
          match Turn.probe scoring engine self.key self.now expired
              { self.walk with cache := cache } with
          | .inl progress => some (self.after progress)
          | .inr (name, walk) => some (walk.cache, { self with walk := walk, stage := .asking name })
      | _, _ => none
  | .respond turn =>
      match self.stage with
      | .asking name => some (self.after (turn.respond scoring engine self.key self.now name
          { self.walk with cache := cache }))
      | _ => none
  | .forward forwarding =>
      match self.stage, self.forwards with
      | .walking, true =>
          let received := forwarding.received crypto engine dnssecAnchored self.key
          match forwardResolve crypto engine dnssecAnchored self.key forwarding with
          | .ok res => some (cache, { self with forwarded := received, stage := .resolved res })
          | .error _ => some (cache, { self with forwarded := received, stage := .done })
      | _, _ => none
  | .close validation inputs =>
      match self.stage with
      | .resolved res =>
          let res := validateFresh crypto engine dnssecAnchored self.key validation self.servedAt res
          some (self.store scoring engine cache res inputs self.servedAt (.cached res))
      | _ => none
  | .recache now inputs =>
      match self.stage, self.policy with
      | .cached res, .bypass => some (self.store scoring engine cache res inputs now .done)
      | _, _ => none

/-- The walk is after an alias, and the cache has a fresh set for its end. -/
def findsEnd (cache : SemanticCache Score Stability) (self : Resolving Score Stability) : Bool :=
  self.walk.depth != 0 &&
    match (cache.lookup scoring ⟨self.walk.currentName, self.key.rrType, self.key.rrClass,
        answerPartition self.key.ecs self.walk.ecsScope⟩ self.now).1 with
    | .fresh entry =>
        match entry.kind with
        | .positive _ => true
        | .negative .. => false
    | _ => false

end Resolving

/-- The cache and the resolutions that share it. -/
structure SharedCache (Score Stability : Type) where
  cache : SemanticCache Score Stability
  resolving : List (Resolving Score Stability)

/-- What can happen to the cache. -/
inductive SharedAction (Score Stability Inputs : Type) where
  | begin (key : QueryKey) (policy : ResolutionCachePolicy) (forwards : Bool) (servedAt now : Ts)
      (budget : FetchBudget)
  | act (index : Nat) (action : Resolving.Action Score Stability Inputs)
  /-- A lookup of an answer from the cache, or maintenance. -/
  | upkeep (op : CacheOp Score Stability Inputs)

/-- The step asks the cache and does nothing else. -/
def Resolving.Action.reads : Resolving.Action Score Stability Inputs → Bool
  | .consult _ | .probe _ => true
  | .respond _ | .forward _ | .close .. | .recache .. => false

/-- The step answers from the cache, or is not a resolution's. -/
def SharedAction.reads : SharedAction Score Stability Inputs → Bool
  | .act _ action => action.reads
  | .begin .. | .upkeep _ => true

/-- The resolution that acts. -/
def SharedAction.actor : SharedAction Score Stability Inputs → Option Nat
  | .act index _ => some index
  | _ => none

namespace SharedCache

variable [LinearOrder Score] (scoring : Scoring Score Stability Inputs) (config : ServeConfig)
  (crypto : Crypto) (engine : EngineConfig) (dnssecAnchored : Bool)

/-- One step of the system. -/
def step (shared : SharedCache Score Stability) :
    SharedAction Score Stability Inputs → Option (SharedCache Score Stability)
  | .begin key policy forwards servedAt now budget =>
      some { shared with
        resolving := shared.resolving ++ [⟨key, policy, forwards, servedAt, now,
          .start engine key shared.cache budget, [], .arriving⟩] }
  | .act index action =>
      match shared.resolving[index]? with
      | some resolving =>
          (resolving.step scoring config crypto engine dnssecAnchored shared.cache action).map
            fun after => ⟨after.1, shared.resolving.set index after.2⟩
      | none => none
  | .upkeep op =>
      if op.isUpkeep then some { shared with cache := op.apply scoring shared.cache } else none

/-- No walk finds the end of its alias chain in the cache. -/
def Unaided (shared : SharedCache Score Stability) : SharedAction Score Stability Inputs → Prop
  | .act index (.probe _) =>
      ∀ resolving ∈ shared.resolving[index]?, resolving.findsEnd scoring shared.cache = false
  | _ => True

instance (shared : SharedCache Score Stability) (action : SharedAction Score Stability Inputs) :
    Decidable (shared.Unaided scoring action) :=
  match action with
  | .act index (.probe _) => inferInstanceAs (Decidable (∀ resolving ∈ shared.resolving[index]?,
      resolving.findsEnd scoring shared.cache = false))
  | .act _ (.consult _) | .act _ (.respond _) | .act _ (.forward _) | .act _ (.close ..)
  | .act _ (.recache ..) | .begin .. | .upkeep _ => inferInstanceAs (Decidable True)

end SharedCache

/-! ## What each step does -/

namespace Resolving

variable [LinearOrder Score] {scoring : Scoring Score Stability Inputs} {config : ServeConfig}
  {crypto : Crypto} {engine : EngineConfig} {dnssecAnchored : Bool}
  {cache after : SemanticCache Score Stability} {self next : Resolving Score Stability}

theorem consult_cases {serving : Serving Score Stability}
    (taken : self.step scoring config crypto engine dnssecAnchored cache (.consult serving) =
      some (after, next)) :
    self.stage = .arriving ∧
      ((self.policy = .bypass ∧ after = cache ∧ next = { self with stage := .walking }) ∨
        ∃ answer, self.policy ≠ .bypass ∧
          resolveFromCache scoring config self.policy self.key self.servedAt serving cache =
            (answer, after) ∧
          next = { self with stage := if answer.isSome then .done else .walking }) := by
  simp only [step] at taken
  cases stage : self.stage with
  | arriving =>
      refine ⟨rfl, ?_⟩
      rw [stage] at taken
      dsimp only at taken
      split_ifs at taken with bypasses
      · obtain ⟨rfl, rfl⟩ := Prod.mk.inj (Option.some.inj taken)
        exact .inl ⟨bypasses, rfl, rfl⟩
      · generalize resolveFromCache scoring config self.policy self.key self.servedAt serving cache =
          found at taken
        obtain ⟨answer, read⟩ := found
        cases answer with
        | some answer =>
            obtain ⟨rfl, rfl⟩ := Prod.mk.inj (Option.some.inj taken)
            exact .inr ⟨some answer, bypasses, rfl, rfl⟩
        | none =>
            obtain ⟨rfl, rfl⟩ := Prod.mk.inj (Option.some.inj taken)
            exact .inr ⟨none, bypasses, rfl, rfl⟩
  | walking | asking _ | resolved _ | cached _ | done => rw [stage] at taken; cases taken

theorem probe_cases {expired : Bool}
    (taken : self.step scoring config crypto engine dnssecAnchored cache
      (.probe expired : Action Score Stability Inputs) = some (after, next)) :
    self.stage = .walking ∧ self.forwards = false ∧
      ((∃ progress, Turn.probe scoring engine self.key self.now expired
            { self.walk with cache := cache } = .inl progress ∧
          (after, next) = self.after progress) ∨
        ∃ name walk, Turn.probe scoring engine self.key self.now expired
            { self.walk with cache := cache } = .inr (name, walk) ∧
          after = walk.cache ∧ next = { self with walk := walk, stage := .asking name }) := by
  simp only [step] at taken
  cases stage : self.stage with
  | walking =>
      rw [stage] at taken
      cases forwards : self.forwards with
      | true => rw [forwards] at taken; cases taken
      | false =>
          refine ⟨rfl, rfl, ?_⟩
          rw [forwards] at taken
          dsimp only at taken
          generalize Turn.probe scoring engine self.key self.now expired
            { self.walk with cache := cache } = probed at taken
          cases probed with
          | inl progress => exact .inl ⟨progress, rfl, (Option.some.inj taken).symm⟩
          | inr asked =>
              obtain ⟨rfl, rfl⟩ := Prod.mk.inj (Option.some.inj taken)
              exact .inr ⟨asked.1, asked.2, rfl, rfl, rfl⟩
  | arriving | asking _ | resolved _ | cached _ | done => rw [stage] at taken; cases taken

theorem respond_cases {turn : Turn Score Stability Inputs}
    (taken : self.step scoring config crypto engine dnssecAnchored cache (.respond turn) =
      some (after, next)) :
    ∃ name, self.stage = .asking name ∧
      (after, next) = self.after (turn.respond scoring engine self.key self.now name
        { self.walk with cache := cache }) := by
  simp only [step] at taken
  cases stage : self.stage with
  | asking name =>
      rw [stage] at taken
      exact ⟨name, rfl, (Option.some.inj taken).symm⟩
  | arriving | walking | resolved _ | cached _ | done => rw [stage] at taken; cases taken

theorem forward_cases {forwarding : Forwarding}
    (taken : self.step scoring config crypto engine dnssecAnchored cache
      (.forward forwarding : Action Score Stability Inputs) = some (after, next)) :
    self.stage = .walking ∧ self.forwards = true ∧ after = cache ∧
      ∃ stage, next = { self with
          forwarded := forwarding.received crypto engine dnssecAnchored self.key
          stage := stage } ∧
        ((∃ res, forwardResolve crypto engine dnssecAnchored self.key forwarding = .ok res ∧
            stage = .resolved res) ∨
          ∃ error, forwardResolve crypto engine dnssecAnchored self.key forwarding = .error error ∧
            stage = .done) := by
  simp only [step] at taken
  cases stage : self.stage with
  | walking =>
      rw [stage] at taken
      cases forwards : self.forwards with
      | false => rw [forwards] at taken; cases taken
      | true =>
          rw [forwards] at taken
          dsimp only at taken
          cases resolved : forwardResolve crypto engine dnssecAnchored self.key forwarding with
          | ok res =>
              rw [resolved] at taken
              obtain ⟨rfl, rfl⟩ := Prod.mk.inj (Option.some.inj taken)
              exact ⟨rfl, rfl, rfl, _, rfl, .inl ⟨res, rfl, rfl⟩⟩
          | error error =>
              rw [resolved] at taken
              obtain ⟨rfl, rfl⟩ := Prod.mk.inj (Option.some.inj taken)
              exact ⟨rfl, rfl, rfl, _, rfl, .inr ⟨error, rfl, rfl⟩⟩
  | arriving | asking _ | resolved _ | cached _ | done => rw [stage] at taken; cases taken

theorem close_cases {validation : Validation} {inputs : Inputs}
    (taken : self.step scoring config crypto engine dnssecAnchored cache
      (.close validation inputs) = some (after, next)) :
    ∃ found res, self.stage = .resolved found ∧
      res = validateFresh crypto engine dnssecAnchored self.key validation self.servedAt found ∧
      (after, next) =
        self.store scoring engine cache res inputs self.servedAt (.cached res) := by
  simp only [step] at taken
  cases stage : self.stage with
  | resolved found =>
      rw [stage] at taken
      exact ⟨found, _, rfl, rfl, (Option.some.inj taken).symm⟩
  | arriving | walking | asking _ | cached _ | done => rw [stage] at taken; cases taken

theorem recache_cases {now : Ts} {inputs : Inputs}
    (taken : self.step scoring config crypto engine dnssecAnchored cache (.recache now inputs) =
      some (after, next)) :
    ∃ res, self.stage = .cached res ∧ self.policy = .bypass ∧
      (after, next) = self.store scoring engine cache res inputs now .done := by
  simp only [step] at taken
  cases stage : self.stage with
  | cached res =>
      rw [stage] at taken
      cases policy : self.policy with
      | bypass =>
          rw [policy] at taken
          exact ⟨res, rfl, rfl, (Option.some.inj taken).symm⟩
      | _ => rw [policy] at taken; cases taken
  | arriving | walking | asking _ | resolved _ | done => rw [stage] at taken; cases taken

end Resolving

namespace SharedCache

variable [LinearOrder Score] {scoring : Scoring Score Stability Inputs} {config : ServeConfig}
  {crypto : Crypto} {engine : EngineConfig} {dnssecAnchored : Bool}
  {shared next : SharedCache Score Stability}

theorem act_cases {index : Nat} {action : Resolving.Action Score Stability Inputs}
    (taken : shared.step scoring config crypto engine dnssecAnchored (.act index action) =
      some next) :
    ∃ resolving cache acted, shared.resolving[index]? = some resolving ∧
      resolving.step scoring config crypto engine dnssecAnchored shared.cache action =
        some (cache, acted) ∧
      next = ⟨cache, shared.resolving.set index acted⟩ := by
  simp only [step] at taken
  cases located : shared.resolving[index]? with
  | none => rw [located] at taken; cases taken
  | some resolving =>
      rw [located] at taken
      obtain ⟨⟨cache, acted⟩, moved, rfl⟩ := Option.map_eq_some_iff.mp taken
      exact ⟨resolving, cache, acted, rfl, moved, rfl⟩

theorem upkeep_cases {op : CacheOp Score Stability Inputs}
    (taken : shared.step scoring config crypto engine dnssecAnchored (.upkeep op) = some next) :
    op.isUpkeep = true ∧ next = { shared with cache := op.apply scoring shared.cache } := by
  simp only [step] at taken
  split_ifs at taken with upkeep
  exact ⟨upkeep, (Option.some.inj taken).symm⟩

end SharedCache

/-! ## What each step writes -/

open SemanticCache (Writes WritesFrom)

section Reading

variable [LinearOrder Score] {scoring : Scoring Score Stability Inputs}
  {Written : CacheKey → EntryKind → Prop} {Denied : Name → Prop}

theorem queueBackgroundRefresh_writes (serving : Serving Score Stability)
    (cache : SemanticCache Score Stability) (key : CacheKey) :
    Writes scoring Written Denied cache (queueBackgroundRefresh serving cache key).2 := by
  have marked : Writes scoring Written Denied cache (cache.markRefreshing key).2 :=
    CacheOp.upkeep_writes scoring (.markRefreshing key) rfl cache
  unfold queueBackgroundRefresh
  split
  · rename_i found
    rw [found] at marked
    exact marked
  · rename_i after found
    rw [found] at marked
    split_ifs
    · exact marked
    · exact marked.trans (CacheOp.upkeep_writes scoring (.clearRefreshing key) rfl after)

theorem refreshWithDependents_writes (serving : Serving Score Stability) (maxDependents : Nat)
    (cache : SemanticCache Score Stability) (key : CacheKey) :
    Writes scoring Written Denied cache
      (refreshWithDependents serving maxDependents cache key) := by
  unfold refreshWithDependents
  dsimp only
  refine (queueBackgroundRefresh_writes serving cache key).trans ?_
  generalize (queueBackgroundRefresh serving cache key).2 = queued
  generalize (0 : Nat) = count
  induction serving.dependents key generalizing count queued with
  | nil => exact .refl scoring queued
  | cons dependent dependents inductionHypothesis =>
      rw [List.foldl_cons]
      split
      · exact inductionHypothesis queued count
      · exact (queueBackgroundRefresh_writes serving queued dependent).trans
          (inductionHypothesis (queueBackgroundRefresh serving queued dependent).2 _)

theorem foldl_refreshWithDependents_writes (serving : Serving Score Stability) (maxDependents : Nat)
    (keys : List CacheKey) (cache : SemanticCache Score Stability) :
    Writes scoring Written Denied cache
      (keys.foldl (refreshWithDependents serving maxDependents) cache) := by
  induction keys generalizing cache with
  | nil => exact .refl scoring cache
  | cons key keys inductionHypothesis =>
      exact (refreshWithDependents_writes serving maxDependents cache key).trans
        (inductionHypothesis _)

variable {config : ServeConfig} {policy : ResolutionCachePolicy} {key : QueryKey} {now : Ts}

theorem cacheTurn_writes (current : Name) (answer : CachedAnswer Score Stability)
    (cache : SemanticCache Score Stability) :
    Writes scoring Written Denied cache
      (cacheTurn scoring config policy key now current answer cache).2 := by
  have looked : Writes scoring Written Denied cache
      (cache.lookup scoring ⟨current, key.rrType, key.rrClass, key.ecs⟩ now).2 :=
    .lookup cache _ now
  unfold cacheTurn
  split
  · rename_i found
    rw [found] at looked
    exact looked
  · rename_i found
    rw [found] at looked
    exact looked
  · rename_i after found
    rw [found] at looked
    exact looked.trans (.lookup after _ now)
  · rename_i found
    rw [found] at looked
    exact looked
  · rename_i found
    rw [found] at looked
    exact looked

theorem fromCache_writes (left : Nat) (current : Name) (answer : CachedAnswer Score Stability)
    (cache : SemanticCache Score Stability) :
    Writes scoring Written Denied cache
      (fromCache scoring config policy key now left current answer cache).2 := by
  induction left generalizing current answer cache with
  | zero => exact .refl scoring cache
  | succ left inductionHypothesis =>
      have turned : Writes scoring Written Denied cache
          (cacheTurn scoring config policy key now current answer cache).2 :=
        cacheTurn_writes current answer cache
      simp only [fromCache]
      split
      · rename_i found
        rw [found] at turned
        exact turned
      · rename_i found
        rw [found] at turned
        exact turned.trans (inductionHypothesis _ _ _)
      · rename_i found
        rw [found] at turned
        exact turned

/-- An answer from the cache writes nothing. -/
theorem resolveFromCache_writes (serving : Serving Score Stability)
    (cache : SemanticCache Score Stability) :
    Writes scoring Written Denied cache
      (resolveFromCache scoring config policy key now serving cache).2 := by
  have walked : Writes scoring Written Denied cache (fromCache scoring config policy key now
      (config.maxCnameDepth + 1) key.name .start cache).2 :=
    fromCache_writes _ _ _ cache
  unfold resolveFromCache
  split
  · rename_i found
    rw [found] at walked
    exact walked
  · rename_i answer after found
    rw [found] at walked
    split_ifs
    · exact walked.trans (foldl_refreshWithDependents_writes serving config.maxChainRefresh
        answer.refreshKeys after)
    · exact walked
    · exact walked

theorem cachedEnd_writes (state : WalkState Score Stability) :
    Writes scoring Written Denied state.cache (Turn.cachedEnd scoring key now state).2.cache := by
  unfold Turn.cachedEnd
  split_ifs
  · exact .refl scoring state.cache
  · dsimp only
    split
    · split <;> exact .lookup state.cache _ now
    · exact .lookup state.cache _ now

end Reading

theorem SemanticCache.WritesFrom.mono {scoring : Scoring Score Stability Inputs}
    {responses more : List Message} {cache after : SemanticCache Score Stability}
    (writes : WritesFrom scoring responses cache after)
    (subset : ∀ resp ∈ responses, resp ∈ more) : WritesFrom scoring more cache after :=
  Writes.mono writes (fun carried => carried.mono subset)
    fun ⟨resp, member, denies⟩ => ⟨resp, subset resp member, denies⟩

/-! ## What a resolution has gathered -/

/-- A walk at work has gathered aliases only, and its responses carry them. -/
structure WalkState.Gathering (key : QueryKey) (state : WalkState Score Stability) : Prop where
  provenance : state.Provenance key
  running : state.Open key
  aliases : ∀ answer ∈ state.answers, answer.record.rrType = .CNAME
  carried : ∀ answer ∈ state.answers, ∃ resp ∈ state.responses, resp.Carries answer.record

/-- What a part of the loop leaves is supported by the responses. -/
def Progress.Supported (key : QueryKey) (now : Ts) : Progress Score Stability → Prop
  | .running state => state.Gathering key
  | .finished state => (state.resolution key now).BackedBy state.responses
  | .failed .. => True

/-- What holds of a resolution, by how far it is. -/
def Resolving.Sound (self : Resolving Score Stability) : Prop :=
  match self.stage with
  | .arriving | .walking | .asking _ => self.walk.Gathering self.key
  | .resolved res | .cached res => res.BackedBy self.responses
  | .done => True

section Gathering

variable {scoring : Scoring Score Stability Inputs} {config : ServeConfig}
  {crypto : Crypto} {engine : EngineConfig} {dnssecAnchored : Bool} {key : QueryKey} {now : Ts}
  {state : WalkState Score Stability} {turn : Turn Score Stability Inputs}

theorem WalkState.Gathering.start (cache : SemanticCache Score Stability) (budget : FetchBudget) :
    (WalkState.start engine key cache budget).Gathering key where
  provenance := .start engine cache budget
  running := .start cache budget
  aliases _ member := absurd member List.not_mem_nil
  carried _ member := absurd member List.not_mem_nil

/-- What the loop relies on is not about the cache, nor about what is spent. -/
theorem WalkState.Gathering.of_eq {cache : SemanticCache Score Stability}
    {minimized : Option Name} {budget : FetchBudget} (gathering : state.Gathering key) :
    WalkState.Gathering key { state with cache, minimized, budget } where
  provenance := { gathering.provenance with }
  running := { gathering.running with }
  aliases := gathering.aliases
  carried := gathering.carried

/-- The part of the loop leaves a sound resolution. -/
theorem Resolving.after_sound {self : Resolving Score Stability} {progress : Progress Score Stability}
    (supported : progress.Supported self.key self.now) : (self.after progress).2.Sound := by
  cases progress with
  | running state => exact supported
  | finished state => exact Resolution.BackedBy.mono supported fun _ => List.mem_append_left _
  | failed error state => trivial

variable [LinearOrder Score]

theorem receive_responses (queryName : Name) (received : Received) :
    (turn.receive scoring engine key now queryName received state).state.responses =
      state.responses ++ [received.message] := by
  have added : WalkState.Adds _ _
      (turn.receive scoring engine key now queryName received state).state := Turn.receive_adds
  rw [WalkState.responses, added.exchanges, WalkState.receiving, List.map_append]
  rfl

/-- A response leaves the walk supported, and what is written is carried. -/
theorem WalkState.Gathering.receive (gathering : state.Gathering key) (queryName : Name)
    (received : Received) :
    (turn.receive scoring engine key now queryName received state).Supported key now ∧
      WritesFrom scoring
        (turn.receive scoring engine key now queryName received state).state.responses state.cache
        (turn.receive scoring engine key now queryName received state).state.cache := by
  have sound : (turn.receive scoring engine key now queryName received state).Sound key :=
    Turn.receive_sound gathering.provenance gathering.running
  have writes := turn.receive_writes scoring engine key now queryName received state
  have gains := turn.receive_gains scoring engine key now queryName received state
  have responses : (turn.receive scoring engine key now queryName received state).state.responses =
      state.responses ++ [received.message] := receive_responses queryName received
  generalize turn.receive scoring engine key now queryName received state = progress at *
  obtain ⟨gained, grown, carries, aliases⟩ := gains
  have latest : received.message ∈ progress.state.responses := by
    rw [responses]
    exact List.mem_append_right _ (List.mem_singleton_self _)
  have carried : ∀ answer ∈ progress.state.answers,
      ∃ resp ∈ progress.state.responses, resp.Carries answer.record := by
    intro answer member
    rw [grown] at member
    rcases List.mem_append.mp member with earlier | new
    · obtain ⟨resp, received, carries⟩ := gathering.carried answer earlier
      exact ⟨resp, responses ▸ List.mem_append_left _ received, carries⟩
    · exact ⟨received.message, latest, carries answer new⟩
  refine ⟨?_, writes.mono fun resp only => List.mem_singleton.mp only ▸ latest⟩
  cases progress with
  | failed error ended => trivial
  | running walking =>
      refine ⟨sound.provenance, sound.settled, fun answer member => ?_, carried⟩
      rcases List.mem_append.mp (grown ▸ member) with earlier | new
      · exact gathering.aliases answer earlier
      · exact aliases ⟨walking, rfl⟩ answer new
  | finished ended =>
      refine WalkState.Closed.resolution_backed sound.settled ⟨carried, .inr ?_⟩ now
      refine ⟨received.message, latest, fun answer member other => ?_⟩
      rcases List.mem_append.mp (grown ▸ member) with earlier | new
      · exact absurd (gathering.aliases answer earlier) other
      · exact carries answer new

variable (scoring engine now turn) in
theorem WalkState.Gathering.respond (gathering : state.Gathering key) (queryName : Name) :
    (turn.respond scoring engine key now queryName state).Supported key now ∧
      WritesFrom scoring
        (turn.respond scoring engine key now queryName state).state.responses state.cache
        (turn.respond scoring engine key now queryName state).state.cache := by
  unfold Turn.respond
  dsimp only
  split
  · exact ⟨trivial, .refl scoring state.cache⟩
  · rename_i received _
    exact (WalkState.Gathering.of_eq gathering).receive queryName received

namespace Resolving

variable {self next : Resolving Score Stability} {cache after : SemanticCache Score Stability}

/-- A walk that is not aided by the cache goes on to ask. -/
theorem cachedEnd_of_unaided (unaided : self.findsEnd scoring cache = false) :
    (Turn.cachedEnd scoring self.key self.now { self.walk with cache := cache }).1 = none := by
  unfold Turn.cachedEnd
  split_ifs with unaliased
  · rfl
  · have found : (self.walk.depth != 0) = true := bne_iff_ne.mpr unaliased
    rw [findsEnd, found, Bool.true_and] at unaided
    dsimp only
    split
    · rename_i entry outcome
      rw [outcome] at unaided
      dsimp only at unaided
      split
      · rename_i held
        rw [held] at unaided
        cases unaided
      · rfl
    · rfl

variable (engine) in
/-- The walk before the servers are asked. -/
theorem Sound.probe (gathering : self.walk.Gathering self.key)
    (unaided : self.findsEnd scoring cache = false) (expired : Bool) :
    match Turn.probe scoring engine self.key self.now expired { self.walk with cache := cache } with
    | .inl progress => progress.Supported self.key self.now
    | .inr (_, walk) => walk.Gathering self.key := by
  have missed := cachedEnd_of_unaided unaided
  obtain ⟨probed, unchanged, -⟩ := Turn.cachedEnd_cases scoring self.key self.now
    { self.walk with cache := cache }
  unfold Turn.probe
  split_ifs
  · trivial
  · trivial
  · trivial
  · generalize Turn.cachedEnd scoring self.key self.now { self.walk with cache := cache } = result
      at missed unchanged
    obtain ⟨found, walk⟩ := result
    obtain rfl : found = none := missed
    obtain rfl : walk = _ := unchanged
    have kept : WalkState.Gathering self.key { self.walk with cache := probed } := gathering.of_eq
    exact kept

variable (scoring engine key now state) in
/-- Probing writes nothing. -/
theorem probe_writes (Written : CacheKey → EntryKind → Prop) (Denied : Name → Prop)
    (expired : Bool) :
    match Turn.probe scoring engine key now expired state with
    | .inl progress => Writes scoring Written Denied state.cache progress.state.cache
    | .inr (_, walk) => Writes scoring Written Denied state.cache walk.cache := by
  have looked : Writes scoring Written Denied state.cache
      (Turn.cachedEnd scoring key now state).2.cache := cachedEnd_writes state
  unfold Turn.probe
  split_ifs
  · exact .refl scoring state.cache
  · exact .refl scoring state.cache
  · exact .refl scoring state.cache
  · generalize Turn.cachedEnd scoring key now state = result at looked
    obtain ⟨found, walk⟩ := result
    cases found with
    | none => exact looked
    | some rrset => exact looked

theorem validateFresh_backed {validation : Validation} {servedAt : Ts} {res : Resolution}
    {responses : List Message} (backed : res.BackedBy responses) :
    (validateFresh crypto engine dnssecAnchored key validation servedAt res).BackedBy
      responses := by
  unfold validateFresh
  dsimp only
  split_ifs
  · exact ⟨backed.answers, backed.denied⟩
  · exact ⟨backed.answers, backed.denied⟩

/-- A step that reads the cache writes nothing. -/
theorem reads_writes {action : Action Score Stability Inputs} (reads : action.reads = true)
    (taken : self.step scoring config crypto engine dnssecAnchored cache action =
      some (after, next)) (Written : CacheKey → EntryKind → Prop) (Denied : Name → Prop) :
    Writes scoring Written Denied cache after := by
  cases action with
  | consult serving =>
      obtain ⟨-, ⟨-, rfl, -⟩ | ⟨answer, -, found, -⟩⟩ := consult_cases taken
      · exact .refl scoring _
      · have answered : Writes scoring Written Denied cache (resolveFromCache scoring config
            self.policy self.key self.servedAt serving cache).2 :=
          resolveFromCache_writes serving cache
        rw [found] at answered
        exact answered
  | probe expired =>
      have probed := probe_writes scoring engine self.key self.now
        { self.walk with cache := cache } Written Denied expired
      obtain ⟨-, -, ⟨progress, found, moved⟩ | ⟨name, walk, found, rfl, -⟩⟩ := probe_cases taken
      · rw [found] at probed
        obtain ⟨rfl, -⟩ := Prod.mk.inj moved
        exact probed
      · rw [found] at probed
        exact probed
  | respond turn => cases reads
  | forward forwarding => cases reads
  | close validation inputs => cases reads
  | recache now inputs => cases reads

/-- Caching a resolution writes what its responses carry. -/
theorem store_writes {res : Resolution} (backed : res.BackedBy self.responses) (inputs : Inputs)
    (now : Ts) (stage : Stage) :
    WritesFrom scoring self.responses cache
      (self.store scoring engine cache res inputs now stage).1 :=
  cacheResolution_writes { self.walk with cache := cache } backed

/-- One step keeps a resolution sound, and writes what its responses carry. -/
theorem Sound.step (sound : self.Sound) {action : Action Score Stability Inputs}
    (unaided : ∀ expired, action = .probe expired → self.findsEnd scoring cache = false)
    (taken : self.step scoring config crypto engine dnssecAnchored cache action =
      some (after, next)) :
    next.Sound ∧ WritesFrom scoring next.responses cache after := by
  unfold Sound at sound
  cases action with
  | consult serving =>
      refine ⟨?_, reads_writes rfl taken _ _⟩
      obtain ⟨stage, ⟨-, -, rfl⟩ | ⟨answer, -, -, rfl⟩⟩ := consult_cases taken
      · rw [stage] at sound
        exact sound
      · rw [stage] at sound
        cases answer with
        | some answer => trivial
        | none => exact sound
  | probe expired =>
      refine ⟨?_, reads_writes rfl taken _ _⟩
      obtain ⟨stage, -, ended⟩ := probe_cases taken
      rw [stage] at sound
      have probed := Sound.probe engine sound (unaided expired rfl) expired
      obtain ⟨progress, found, moved⟩ | ⟨name, walk, found, -, rfl⟩ := ended
      · rw [found] at probed
        obtain ⟨-, rfl⟩ := Prod.mk.inj moved
        exact after_sound probed
      · rw [found] at probed
        exact probed
  | respond turn =>
      obtain ⟨name, stage, moved⟩ := respond_cases taken
      rw [stage] at sound
      have gathering : WalkState.Gathering self.key { self.walk with cache := cache } :=
        sound.of_eq
      obtain ⟨supported, writes⟩ := gathering.respond scoring engine self.now turn name
      obtain ⟨rfl, rfl⟩ := Prod.mk.inj moved
      exact ⟨after_sound supported, writes.mono fun _ => List.mem_append_left _⟩
  | forward forwarding =>
      obtain ⟨-, -, rfl, _, rfl, ⟨res, forwarded, rfl⟩ | ⟨error, -, rfl⟩⟩ := forward_cases taken
      · exact ⟨(forwardResolve_backed forwarded).mono fun _ => List.mem_append_right _,
          .refl scoring _⟩
      · exact ⟨trivial, .refl scoring _⟩
  | close validation inputs =>
      obtain ⟨found, res, stage, rfl, stored⟩ := close_cases taken
      rw [stage] at sound
      have backed : (validateFresh crypto engine dnssecAnchored self.key validation self.servedAt
          found).BackedBy self.responses := validateFresh_backed sound
      obtain ⟨rfl, rfl⟩ := Prod.mk.inj stored
      exact ⟨backed, store_writes backed inputs self.servedAt .done⟩
  | recache now inputs =>
      obtain ⟨res, stage, -, stored⟩ := recache_cases taken
      rw [stage] at sound
      obtain ⟨rfl, rfl⟩ := Prod.mk.inj stored
      exact ⟨trivial, store_writes sound inputs now .done⟩

end Resolving

end Gathering

/-! ## Runs -/

namespace SharedCache

/-- The resolution that acted has received such responses. -/
def Received (next : SharedCache Score Stability) (action : SharedAction Score Stability Inputs)
    (Such : List Message → Prop) : Prop :=
  ∃ index resolving, action.actor = some index ∧ next.resolving[index]? = some resolving ∧
    Such resolving.responses

/-- The cache is consistent and every resolution is sound. -/
structure Sound (scoring : Scoring Score Stability Inputs) (shared : SharedCache Score Stability) :
    Prop where
  consistent : shared.cache.Consistent scoring
  resolving : ∀ resolving ∈ shared.resolving, resolving.Sound

variable [LinearOrder Score] {scoring : Scoring Score Stability Inputs} {config : ServeConfig}
  {crypto : Crypto} {engine : EngineConfig} {dnssecAnchored : Bool}
  {shared next : SharedCache Score Stability} {action : SharedAction Score Stability Inputs}

/-- An unaided step keeps the system sound, and writes what the one that acts has
received. -/
theorem Sound.step (sound : shared.Sound scoring) (unaided : shared.Unaided scoring action)
    (taken : shared.step scoring config crypto engine dnssecAnchored action = some next) :
    next.Sound scoring ∧ shared.cache.Rewrites
      (fun _ kind => next.Received action fun responses => kind.CarriedBy responses)
      (fun _ => next.Received action fun responses => ∃ resp ∈ responses, resp.Denies)
      next.cache := by
  cases action with
  | begin key policy forwards servedAt now budget =>
      obtain rfl := Option.some.inj taken
      refine ⟨⟨sound.consistent, fun resolving member => ?_⟩, .refl shared.cache⟩
      rcases List.mem_append.mp member with earlier | new
      · exact sound.resolving resolving earlier
      · obtain rfl := List.mem_singleton.mp new
        exact WalkState.Gathering.start shared.cache budget
  | act index action =>
      obtain ⟨resolving, cache, acted, located, moved, rfl⟩ := act_cases taken
      have member : resolving ∈ shared.resolving := List.mem_of_getElem? located
      have alone : ∀ expired, action = .probe expired →
          resolving.findsEnd scoring shared.cache = false := by
        rintro expired rfl
        exact unaided resolving located
      obtain ⟨acts, writes⟩ := (sound.resolving resolving member).step alone moved
      obtain ⟨consistent, rewrites⟩ := writes sound.consistent
      have found : (shared.resolving.set index acted)[index]? = some acted :=
        List.getElem?_set_self (List.getElem?_eq_some_iff.mp located).1
      refine ⟨⟨consistent, fun other held => ?_⟩, rewrites.mono ?_ ?_⟩
      · rcases List.mem_or_eq_of_mem_set held with old | rfl
        · exact sound.resolving other old
        · exact acts
      · intro _ _ carried
        exact ⟨index, acted, rfl, found, carried⟩
      · intro _ denied
        exact ⟨index, acted, rfl, found, denied⟩
  | upkeep op =>
      obtain ⟨upkeep, rfl⟩ := upkeep_cases taken
      obtain ⟨consistent, rewrites⟩ :=
        CacheOp.upkeep_writes scoring _ upkeep shared.cache sound.consistent
      exact ⟨⟨consistent, sound.resolving⟩, rewrites⟩

/-- A step that only reads the cache writes nothing. -/
theorem Sound.reads (sound : shared.Sound scoring) (reads : action.reads = true)
    (taken : shared.step scoring config crypto engine dnssecAnchored action = some next) :
    shared.cache.Rewrites (fun _ _ => False) (fun _ => False) next.cache := by
  cases action with
  | begin key policy forwards servedAt now budget =>
      obtain rfl := Option.some.inj taken
      exact .refl shared.cache
  | act index action =>
      obtain ⟨resolving, cache, acted, -, moved, rfl⟩ := act_cases taken
      exact (Resolving.reads_writes reads moved _ _ sound.consistent).2
  | upkeep op =>
      obtain ⟨upkeep, rfl⟩ := upkeep_cases taken
      exact (CacheOp.upkeep_writes scoring _ upkeep shared.cache sound.consistent).2

/-- In every run in which no walk finds the end of its alias chain in the cache, an
entry expires later only by a step of a resolution that has received a response
carrying it; a step that answers from the cache makes nothing expire later. -/
theorem expiry_moves_with_response (scoring : Scoring Score Stability Inputs)
    (config : ServeConfig) (crypto : Crypto) (engine : EngineConfig) (dnssecAnchored : Bool)
    {cacheConfig : CacheConfig Score} {cache : SemanticCache Score Stability}
    (reached : CacheOp.Reachable scoring cacheConfig cache)
    {actions : List (SharedAction Score Stability Inputs)}
    {action : SharedAction Score Stability Inputs} {shared next : SharedCache Score Stability}
    (runs : Runs (step scoring config crypto engine dnssecAnchored) (Unaided scoring) ⟨cache, []⟩
      actions shared)
    (unaided : shared.Unaided scoring action)
    (taken : shared.step scoring config crypto engine dnssecAnchored action = some next) :
    (∀ key old entry, shared.cache.Stores key old → next.cache.Stores key entry →
      old.expires < entry.expires →
        action.reads = false ∧
          next.Received action fun responses => entry.kind.CarriedBy responses) ∧
    (∀ (name : Name) (old negative : NegativeEntry), shared.cache.nx[name]? = some old →
      next.cache.nx[name]? = some negative → old.expires < negative.expires →
        action.reads = false ∧
          next.Received action fun responses => ∃ resp ∈ responses, resp.Denies) := by
  have sound : shared.Sound scoring := by
    refine runs.invariant (fun sound unaided taken => (sound.step unaided taken).1) ?_
    exact ⟨reached.consistent, fun _ member => absurd member List.not_mem_nil⟩
  obtain ⟨-, rewrites⟩ := sound.step unaided taken
  refine ⟨?_, ?_⟩
  · intro key old entry before stored later
    refine ⟨Bool.not_eq_true _ ▸ fun reads => ?_,
      rewrites.entry_later sound.consistent before stored later⟩
    exact (sound.reads reads taken).entry_later sound.consistent before stored later
  · intro name old negative before stored later
    refine ⟨Bool.not_eq_true _ ▸ fun reads => ?_, rewrites.name_later before stored later⟩
    exact (sound.reads reads taken).name_later before stored later

end SharedCache

/-- One step of resolutions of `www.com`. -/
def wwwStep : SharedCache Nat Unit → SharedAction Nat Unit Unit → Option (SharedCache Nat Unit) :=
  SharedCache.step ttlScoring ⟨8, 30, 4⟩ plainCrypto validatingEngine true

/-- A cache that has the address of a name since second 0. -/
def addressCache (name : Name) : SemanticCache Nat Unit :=
  CacheOp.run ttlScoring roomyConfig [cacheRecord (addressRecord name) none 0 false]

/-- A resolution of `www.com` that receives these responses. -/
def resolveWww (policy : ResolutionCachePolicy) (now : Ts) (responses : List Received) :
    List (SharedAction Nat Unit Unit) :=
  .begin (wwwQuery none) policy false now now
      (.new ⟨16, 64, 64, 8, 96, 1048576, 4, fun _ _ => false⟩) ::
    .act 0 (.consult ⟨fun _ _ => true, fun _ => true, fun _ => []⟩) ::
    responses.flatMap fun received => [.act 0 (.probe false),
      .act 0 (.respond ⟨[], id, false, fun _ => (), .ok received, fun _ => []⟩)]

/-- Its end. -/
def closeWww : SharedAction Nat Unit Unit := .act 0 (.close keyedValidation ())

/-- The entries of an address before and after a step. -/
def addressEntries (name : Name) (shared next : SharedCache Nat Unit) :
    Option (CacheEntry Nat Unit × CacheEntry Nat Unit) :=
  (shared.cache.findTier (.plain name .A .IN)).bind fun old =>
    (next.cache.findTier (.plain name .A .IN)).map fun new => (old.2, new.2)

theorem addressEntries_stored {name : Name} {shared next : SharedCache Nat Unit}
    {old new : CacheEntry Nat Unit} (found : addressEntries name shared next = some (old, new)) :
    shared.cache.Stores (.plain name .A .IN) old ∧ next.cache.Stores (.plain name .A .IN) new := by
  obtain ⟨⟨_, before⟩, earlier, found⟩ := Option.bind_eq_some_iff.mp found
  obtain ⟨⟨_, after⟩, later, same⟩ := Option.map_eq_some_iff.mp found
  obtain ⟨rfl, rfl⟩ := Prod.mk.inj same
  exact ⟨SemanticCache.stores_of_findTier earlier, SemanticCache.stores_of_findTier later⟩

/-- A refresh of an address that is ten minutes old moves its expiry, by the response
it received. -/
theorem refreshed_address_is_carried :
    ∃ shared next old entry, Runs wwwStep (SharedCache.Unaided ttlScoring)
        ⟨addressCache (wwwQuery none).name, []⟩
        (resolveWww .bypass (secondsToTs 600) [signedAddress]) shared ∧
      wwwStep shared closeWww = some next ∧
      shared.cache.Stores (.plain (wwwQuery none).name .A .IN) old ∧
      next.cache.Stores (.plain (wwwQuery none).name .A .IN) entry ∧
      old.expires < entry.expires ∧
      next.Received closeWww fun responses => entry.kind.CarriedBy responses := by
  have computed : ((runActions wwwStep (SharedCache.Unaided ttlScoring)
      ⟨addressCache (wwwQuery none).name, []⟩
      (resolveWww .bypass (secondsToTs 600) [signedAddress])).bind fun shared =>
        (wwwStep shared closeWww).bind fun next =>
          (addressEntries (wwwQuery none).name shared next).map fun entries =>
            decide (entries.1.expires < entries.2.expires)) = some true := by
    decide
  obtain ⟨shared, run, computed⟩ := Option.bind_eq_some_iff.mp computed
  obtain ⟨next, closed, computed⟩ := Option.bind_eq_some_iff.mp computed
  obtain ⟨⟨old, entry⟩, found, later⟩ := Option.map_eq_some_iff.mp computed
  obtain ⟨before, stored⟩ := addressEntries_stored found
  have runs := runs_of_runActions run
  have reached : CacheOp.Reachable ttlScoring roomyConfig (addressCache (wwwQuery none).name) :=
    .step (cacheRecord (addressRecord (wwwQuery none).name) none 0 false) .new trivial
  have unaided : shared.Unaided ttlScoring closeWww := trivial
  refine ⟨shared, next, old, entry, runs, closed, before, stored, of_decide_eq_true later, ?_⟩
  exact ((SharedCache.expiry_moves_with_response ttlScoring ⟨8, 30, 4⟩ plainCrypto validatingEngine
    true reached runs unaided closed).1 _ old entry before stored (of_decide_eq_true later)).2

/-- The address of `x.com` has ten minutes left when an alias of `www.com` leads to it;
it is cached again for an hour, although no response carries it. -/
theorem cached_target_is_inflated :
    ∃ shared next, Runs wwwStep (fun _ _ => True) ⟨addressCache ⟨[1, 120, 3, 99, 111, 109, 0]⟩, []⟩
        (resolveWww .reuse (secondsToTs 3000) [signedAlias] ++ [.act 0 (.probe false)]) shared ∧
      wwwStep shared closeWww = some next ∧
      ¬ ∀ key old entry, shared.cache.Stores key old → next.cache.Stores key entry →
        old.expires < entry.expires → closeWww.reads = false ∧
          next.Received closeWww fun responses => entry.kind.CarriedBy responses := by
  have computed : ((runActions wwwStep (fun _ _ => True)
      ⟨addressCache ⟨[1, 120, 3, 99, 111, 109, 0]⟩, []⟩
      (resolveWww .reuse (secondsToTs 3000) [signedAlias] ++ [.act 0 (.probe false)])).bind
      fun shared => (wwwStep shared closeWww).bind fun next =>
        (addressEntries ⟨[1, 120, 3, 99, 111, 109, 0]⟩ shared next).map fun entries =>
          decide (entries.1.expires < entries.2.expires ∧ ∀ resolving ∈ next.resolving[0]?,
            ¬ entries.2.kind.CarriedBy resolving.responses)) = some true := by
    decide
  obtain ⟨shared, run, computed⟩ := Option.bind_eq_some_iff.mp computed
  obtain ⟨next, closed, computed⟩ := Option.bind_eq_some_iff.mp computed
  obtain ⟨⟨old, entry⟩, found, observed⟩ := Option.map_eq_some_iff.mp computed
  obtain ⟨before, stored⟩ := addressEntries_stored found
  obtain ⟨later, uncarried⟩ := of_decide_eq_true observed
  refine ⟨shared, next, runs_of_runActions run, closed, fun claimed => ?_⟩
  obtain ⟨-, index, resolving, acts, located, carried⟩ := claimed _ old entry before stored later
  obtain rfl : 0 = index := Option.some.inj acts
  exact uncarried resolving located carried

end RecurseX
