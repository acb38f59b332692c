import RecurseX.Resolver.Minimization

/-!
# How a turn goes on

A turn after which the loop runs on has followed an alias, descended into a delegation or
lengthened the name it asks for (`receive_running`), and it was within the limits
(`take_running`).
-/

namespace RecurseX

open Library

variable {Score Stability Inputs : Type}

/-- What a turn that asked for `name` has done when the loop runs on: followed an alias,
descended into a delegation, or found that one label more has to be asked for. -/
inductive WalkState.Advances (key : QueryKey) (state : WalkState Score Stability) (name : Name)
    (received : Received) (next : WalkState Score Stability) : Prop where
  | redirected
      (target : ((state.exchange name received).kind key).target? state.currentName =
        some next.currentName)
      (depth : next.depth = state.depth + 1) (referrals : next.referrals = state.referrals)
      (fresh : next.minimized = none)
  | descended (current : next.currentName = state.currentName) (depth : next.depth = state.depth)
      (referrals : next.referrals = state.referrals + 1) (fresh : next.minimized = none)
  | lengthened (partly : name ≠ state.currentName) (current : next.currentName = state.currentName)
      (depth : next.depth = state.depth) (referrals : next.referrals = state.referrals)
      (longer : next.minimized = some (deepenMinimized state.currentName name))

theorem WalkState.follow_eq (engine : EngineConfig) (target : Name)
    (state : WalkState Score Stability) : ∃ zone servers, state.follow engine target =
      { state with
        zone := zone
        servers := servers
        minimized := none
        currentName := target
        depth := state.depth + 1 } := by
  unfold WalkState.follow
  dsimp only
  split_ifs
  · exact ⟨_, _, rfl⟩
  · exact ⟨_, _, rfl⟩

namespace Turn

variable {engine : EngineConfig} {key : QueryKey} {state next : WalkState Score Stability}
  {name : Name} {received : Received}

theorem emptyArm_running (running : emptyArm name state = .running next) :
    name ≠ state.currentName ∧
      next = { state with minimized := some (deepenMinimized state.currentName name) } := by
  unfold emptyArm at running
  split_ifs at running with partly
  cases running
  exact ⟨partly, rfl⟩

variable [LinearOrder Score] {scoring : Scoring Score Stability Inputs} {now : Ts}
  {turn : Turn Score Stability Inputs}

/-- A referral that is admitted is counted, and keeps the name. -/
theorem referralArm_running {newZone : Name} {ns glue : List Record}
    (running : turn.referralArm scoring engine key now newZone ns glue state = .running next) :
    next.currentName = state.currentName ∧ next.depth = state.depth ∧
      next.referrals = state.referrals + 1 ∧ next.minimized = none := by
  rcases referralArm_cases scoring engine key now turn newZone ns glue state with
    ⟨error, refused⟩ | ⟨set, budget, -, -, ⟨error, refused⟩ | admitted⟩
  · rw [refused] at running
    cases running
  · rw [refused] at running
    cases running
  · obtain ⟨cache, filings, cached⟩ : ∃ cache filings,
        cachedReferral scoring engine key now turn newZone ns glue state set =
          { state with referrals := state.referrals + 1, cache := cache, filings := filings } :=
      cachedReferral_eq set
    rw [admitted, cached] at running
    unfold descend at running
    dsimp only at running
    split_ifs at running <;> cases running <;> exact ⟨rfl, rfl, rfl, rfl⟩

/-- What acting on a response has done when the loop runs on. -/
theorem receive_running
    (running : turn.receive scoring engine key now name received state = .running next) :
    state.Advances key name received next := by
  rw [receive_eq] at running
  cases kind : (state.exchange name received).kind key with
  | answer records rrsigs =>
      rw [kind] at running
      dsimp only at running
      rcases answerArm_cases records rrsigs (state.receiving (state.exchange name received)) with
        ⟨error, refused⟩ | ⟨keep, ttl, -, -, taken⟩
      · rw [refused] at running
        cases running
      · rw [taken] at running
        cases running
  | cname record rrsigs =>
      rw [kind] at running
      dsimp only at running
      rcases cnameArm_cases scoring engine key now turn record rrsigs
        (state.receiving (state.exchange name received)) with
        ⟨error, refused⟩ | ⟨target, pointed, followed⟩
      · rw [refused] at running
        cases running
      · obtain ⟨zone, servers, same⟩ := WalkState.follow_eq engine target (cachedAlias scoring key
          now turn record rrsigs (state.receiving (state.exchange name received)))
        rw [followed, same] at running
        cases running
        refine .redirected ?_ rfl rfl rfl
        rw [kind, ResponseKind.target?, pointed]
  | dname record =>
      rw [kind] at running
      dsimp only at running
      rcases dnameArm_cases engine record (state.receiving (state.exchange name received)) with
        ⟨error, refused⟩ | ⟨target, synthesized, pointed, made, followed⟩
      · rw [refused] at running
        cases running
      · obtain ⟨zone, servers, same⟩ := WalkState.follow_eq engine synthesized
          (((state.receiving (state.exchange name received)).capTtl record.ttl).appendAnswers
            ((state.receiving (state.exchange name received)).sourced .synthesized
              [makeCnameRecord state.currentName synthesized record.ttl]))
        rw [followed] at running
        cases same.symm.trans (Progress.running.inj running)
        refine .redirected ?_ rfl rfl rfl
        rw [kind, ResponseKind.target?, pointed]
        exact made
  | negative rcode soa =>
      rw [kind] at running
      dsimp only at running
      rcases negativeArm_cases scoring key now turn rcode soa name
          (state.receiving (state.exchange name received)) with
        ⟨-, denied⟩ | ⟨-, ⟨partly, deepened⟩ | ⟨-, concluded⟩⟩
      · rw [denied] at running
        cases running
      · rw [deepened] at running
        cases running
        exact .lengthened partly rfl rfl rfl rfl
      · rw [concluded] at running
        cases running
  | referral newZone ns glue =>
      rw [kind] at running
      obtain ⟨current, depth, referrals, fresh⟩ := referralArm_running running
      exact .descended current depth referrals fresh
  | empty =>
      rw [kind] at running
      obtain ⟨partly, rfl⟩ := emptyArm_running running
      exact .lengthened partly rfl rfl rfl rfl

/-- A turn after which the loop runs on was within the limits, and asked for the next name. -/
theorem take_running (running : turn.take scoring engine key now state = .running next) :
    state.depth ≤ engine.maxCnameDepth ∧ state.referrals ≤ engine.maxReferrals ∧
      ∃ received, state.Advances key (queryName engine state) received next := by
  unfold take at running
  dsimp only at running
  split_ifs at running with expired aliased referred
  refine ⟨Nat.le_of_not_lt aliased, Nat.le_of_not_lt referred, ?_⟩
  obtain ⟨cache, unchanged, -⟩ := cachedEnd_cases scoring key now
    { state with cache := turn.others.foldl (CacheOp.apply scoring) state.cache }
  split at running
  · cases running
  · rename_i middle found
    rw [found] at unchanged
    subst unchanged
    split at running
    · cases running
    · rename_i received answered
      refine ⟨received, ?_⟩
      cases receive_running running with
      | redirected target depth referrals fresh => exact .redirected target depth referrals fresh
      | descended current depth referrals fresh => exact .descended current depth referrals fresh
      | lengthened partly current depth referrals longer =>
          exact .lengthened partly current depth referrals longer

end Turn

end RecurseX
