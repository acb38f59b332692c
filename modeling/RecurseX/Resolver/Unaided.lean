import RecurseX.Cache.RepeatedHit
import RecurseX.Resolver.SharedCache
import RecurseX.Resolver.Turns

/-!
# Walks that the cache does not help

The loop looks into the cache when it has followed an alias. What a run has stored
answers there only if a referral came with the data: `Blind` is the invariant of the runs
in which none does.
-/

namespace RecurseX

open Library

variable {Score Stability Inputs : Type}

/-- An entry that does not answer for the names. -/
def EntryKind.Spares (rrType : RrType) (names : Name → Prop) (key : CacheKey) (kind : EntryKind) :
    Prop :=
  key.rrType = rrType → names key.name → ∀ rrset, kind ≠ .positive rrset

/-- The walk follows aliases to the names only, and its cache does not answer for these. -/
structure WalkState.Blind (scoring : Scoring Score Stability Inputs) (rrType : RrType)
    (names : Name → Prop) (state : WalkState Score Stability) : Prop where
  consistent : state.cache.Consistent scoring
  spares : ∀ {key : CacheKey} {entry : CacheEntry Score Stability}, state.cache.Stores key entry →
    entry.kind.Spares rrType names key
  aimed : state.depth ≠ 0 → names state.currentName

theorem AnswerScan.cname_of_asked {qname : Name} {records : List Record} {scan : AnswerScan} :
    (records.foldl (AnswerScan.step qname .CNAME) scan).cname = scan.cname := by
  induction records generalizing scan with
  | nil => rfl
  | cons record records inductionHypothesis =>
      rw [List.foldl_cons, inductionHypothesis]
      unfold AnswerScan.step AnswerScan.stepOwned
      dsimp only
      split_ifs <;> first | rfl | simp_all

theorem Exchange.cname_unasked {exchange : Exchange} {key : QueryKey} {record : Record}
    {rrsigs : List Record} (kind : exchange.kind key = .cname record rrsigs) :
    key.rrType ≠ .CNAME := by
  intro asked
  unfold Exchange.kind classifyResponse at kind
  rw [asked] at kind
  dsimp only at kind
  split_ifs at kind
  split at kind
  · rename_i first found
    rw [AnswerScan.cname_of_asked] at found
    cases found
  · cases kind
  · split at kind
    · cases kind
    · split at kind <;> cases kind

open SemanticCache (Writes)

section Blind

variable {scoring : Scoring Score Stability Inputs} {engine : EngineConfig}
  {key : QueryKey} {now : Ts} {names : Name → Prop} {turn : Turn Score Stability Inputs}
  {state next : WalkState Score Stability}

/-- The walk stays blind, whatever it writes for other names. -/
theorem WalkState.Blind.writes {Denied : Name → Prop}
    (blind : state.Blind scoring key.rrType names)
    (writes : Writes scoring (fun cacheKey kind => kind.Spares key.rrType names cacheKey) Denied
      state.cache next.cache)
    (aimed : next.depth ≠ 0 → names next.currentName) :
    next.Blind scoring key.rrType names := by
  obtain ⟨consistent, rewrites⟩ := writes blind.consistent
  refine ⟨consistent, fun stored => ?_, aimed⟩
  rcases rewrites.entries stored with ⟨old, held, same⟩ | written
  · rw [← same.kind]
    exact blind.spares held
  · exact written

variable [LinearOrder Score]

/-- The walk goes on to ask. -/
theorem WalkState.Blind.cachedEnd (blind : state.Blind scoring key.rrType names) :
    (Turn.cachedEnd scoring key now state).1 = none := by
  unfold Turn.cachedEnd
  split_ifs with unaliased
  · rfl
  · dsimp only
    split
    · rename_i entry fresh
      obtain ⟨rung, member, tier, stored, held, kind⟩ :=
        SemanticCache.AllIndexed.lookup_stored blind.consistent.indexed (.inl fresh)
      obtain ⟨ecs, rfl⟩ := CacheKey.eq_withEcs_of_mem_ladder member
      have spared := blind.spares ⟨tier, held⟩ rfl (blind.aimed unaliased)
      rw [kind] at spared
      split
      · rename_i rrset positive
        exact absurd positive (spared rrset)
      · rfl
    · rfl

namespace Turn

theorem cacheGlue_spares {newZone : Name} {inputs : Inputs} {record : Record} {Denied : Name → Prop}
    (spares : record.rrType = key.rrType → ¬ names record.name) :
    Writes scoring (fun cacheKey kind => kind.Spares key.rrType names cacheKey) Denied state.cache
      (cacheGlue scoring engine key now newZone inputs state record).cache := by
  unfold cacheGlue
  split_ifs
  · split
    · exact .insertPositive fun ttl asked named => absurd named (spares asked)
    · exact .refl scoring _
  · exact .refl scoring _

theorem foldl_cacheGlue_spares {newZone : Name} {inputs : Inputs} {glue : List Record}
    {Denied : Name → Prop}
    (spares : ∀ record ∈ glue, record.rrType = key.rrType → ¬ names record.name) :
    Writes scoring (fun cacheKey kind => kind.Spares key.rrType names cacheKey) Denied state.cache
      (glue.foldl (cacheGlue scoring engine key now newZone inputs) state).cache := by
  induction glue generalizing state with
  | nil => exact .refl scoring _
  | cons record glue inductionHypothesis =>
      exact (cacheGlue_spares (spares record List.mem_cons_self)).trans
        (inductionHypothesis fun other member => spares other (List.mem_cons_of_mem _ member))

theorem referralArm_spares {newZone : Name} {ns glue : List Record} {Denied : Name → Prop}
    (servers : RrType.NS = key.rrType → ¬ names newZone)
    (addresses : ∀ record ∈ glue, record.rrType = key.rrType → ¬ names record.name) :
    Writes scoring (fun cacheKey kind => kind.Spares key.rrType names cacheKey) Denied state.cache
      (turn.referralArm scoring engine key now newZone ns glue state).state.cache := by
  have cached (set : RrSet) :
      Writes scoring (fun cacheKey kind => kind.Spares key.rrType names cacheKey) Denied state.cache
        (cachedReferral scoring engine key now turn newZone ns glue state set).cache := by
    have listed : Writes scoring (fun cacheKey kind => kind.Spares key.rrType names cacheKey) Denied
        state.cache (WalkState.cachePositive scoring now
          { state with referrals := state.referrals + 1 } (.plain newZone .NS key.rrClass) set
          (state.sourced .ns ns) (turn.scoreInputs newZone) false).cache :=
      .insertPositive fun ttl asked named => absurd named (servers asked)
    exact listed.trans (foldl_cacheGlue_spares addresses)
  rcases referralArm_cases scoring engine key now turn newZone ns glue state with
    ⟨error, refused⟩ | ⟨set, budget, -, -, ⟨error, refused⟩ | admitted⟩
  · rw [refused]
    exact .refl scoring _
  · rw [refused]
    exact cached set
  · rw [admitted, descend_cache]
    exact cached set

theorem negativeArm_spares {rcode : Rcode} {soa : Option Record} {name : Name} :
    Writes scoring (fun cacheKey kind => kind.Spares key.rrType names cacheKey) (fun _ => True)
      state.cache (turn.negativeArm scoring key now rcode soa name state).state.cache := by
  have cached : Writes scoring (fun cacheKey kind => kind.Spares key.rrType names cacheKey)
      (fun _ => True) state.cache
      (cachedNodata scoring key now turn rcode soa name state).cache :=
    .insertNegative fun ttl _ _ => nofun
  rcases negativeArm_cases scoring key now turn rcode soa name state with
    ⟨-, denied⟩ | ⟨-, ⟨-, deepened⟩ | ⟨-, concluded⟩⟩
  · rw [denied]
    dsimp only [Progress.state]
    unfold cacheMissing
    dsimp only
    split
    · refine .trans (.of_eq concludeNegative_cache) (.insertNxdomain trivial)
    · refine .trans (.of_eq concludeNegative_cache) (.insertNegative fun ttl _ _ => nofun)
  · rw [deepened]
    exact cached
  · rw [concluded]
    dsimp only [Progress.state]
    rw [concludeNegative_cache]
    exact cached

/-- What a response brings for none of the names leaves the walk blind. -/
theorem receive_spares {name : Name} {received : Received}
    (unaided : ∀ target, names target →
      ((state.exchange name received).kind key).brings key.rrType target = false) :
    Writes scoring (fun cacheKey kind => kind.Spares key.rrType names cacheKey) (fun _ => True)
      state.cache (turn.receive scoring engine key now name received state).state.cache := by
  rw [receive_eq]
  change Writes scoring _ _ (state.receiving (state.exchange name received)).cache _
  cases kind : (state.exchange name received).kind key with
  | answer records rrsigs => exact .of_eq answerArm_cache
  | cname record rrsigs =>
      dsimp only
      rcases cnameArm_cases scoring engine key now turn record rrsigs
        (state.receiving (state.exchange name received)) with
        ⟨error, refused⟩ | ⟨target, -, followed⟩
      · rw [refused]
        exact .refl scoring _
      · rw [followed, Progress.state, follow_cache]
        exact .insertPositive fun ttl asked => absurd asked.symm (Exchange.cname_unasked kind)
  | dname record => exact .of_eq dnameArm_cache
  | negative rcode soa => exact negativeArm_spares
  | referral newZone ns glue =>
      rw [kind] at unaided
      refine referralArm_spares (fun asked named => ?_) fun record member asked named => ?_
      · have brought := unaided newZone named
        simp [ResponseKind.brings, ← asked] at brought
      · have brought := unaided record.name named
        simp only [ResponseKind.brings, Bool.or_eq_false_iff, List.any_eq_false] at brought
        exact brought.2 record member (by simp [asked])
  | empty => exact .of_eq emptyArm_cache

/-- A walk that goes on stays blind, if the response brings nothing for the names. -/
theorem receive_blind {name : Name} {received : Received}
    (running : turn.receive scoring engine key now name received state = .running next)
    (blind : state.Blind scoring key.rrType names)
    (unaided : ∀ target, names target →
      ((state.exchange name received).kind key).brings key.rrType target = false)
    (aimed : next.depth ≠ 0 → names next.currentName) : next.Blind scoring key.rrType names := by
  have writes : Writes scoring (fun cacheKey kind => kind.Spares key.rrType names cacheKey)
      (fun _ => True) state.cache
      (turn.receive scoring engine key now name received state).state.cache :=
    receive_spares unaided
  rw [running] at writes
  exact blind.writes writes aimed

/-- The walk goes on with the name at hand, or with the one that an alias points to. -/
theorem receive_target {name : Name} {received : Received}
    (running : turn.receive scoring engine key now name received state = .running next) :
    next.depth = state.depth ∧ next.currentName = state.currentName ∨
      ((state.exchange name received).kind key).target? state.currentName =
        some next.currentName := by
  cases receive_running running with
  | redirected target => exact .inr target
  | descended current depth => exact .inl ⟨depth, current⟩
  | lengthened _ current depth => exact .inl ⟨depth, current⟩

end Turn
end Blind

end RecurseX
