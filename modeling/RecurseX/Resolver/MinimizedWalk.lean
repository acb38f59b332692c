import RecurseX.Resolver.Bailiwick
import RecurseX.Resolver.Unaided

/-!
# Runs with QNAME minimisation

Every turn of a run without minimisation is matched by the questions that the run with it
asks about the same name in the same zone. `simulate` follows both to their end, or to the
question that no longer fits the budget; `minimization_preserves_iff` is what it says of
whole resolutions.
-/

namespace RecurseX

open Library

variable {Score Stability Inputs : Type}

/-! ## What the questions cost -/

/-- The budgets differ by what the questions cost. -/
structure Upstreams.Spent (upstreams : Upstreams Inputs) (budget after : FetchBudget)
    (questions : List (Name × Name)) : Prop where
  limits : after.limits = budget.limits
  subqueries : after.work.subqueries = budget.work.subqueries + questions.length
  bytes : after.work.bytes = budget.work.bytes +
    (questions.map fun question => upstreams.octets question.1 question.2).sum

theorem FetchBudget.pay_cases (budget : FetchBudget) (octets : Nat) :
    (∃ paid, budget.pay octets = (.ok (), paid) ∧
      budget.work.subqueries + 1 ≤ budget.limits.maxSubqueries ∧
      budget.work.bytes + octets ≤ budget.limits.maxBytes ∧ paid.limits = budget.limits ∧
      paid.work.delegations = budget.work.delegations ∧
      paid.work.subqueries = budget.work.subqueries + 1 ∧
      paid.work.bytes = budget.work.bytes + octets) ∨
    (∃ error rest, budget.pay octets = (.error error, rest) ∧
      ¬ (budget.work.subqueries + 1 ≤ budget.limits.maxSubqueries ∧
        budget.work.bytes + octets ≤ budget.limits.maxBytes)) := by
  unfold FetchBudget.pay FetchBudget.spendSubquery
  split_ifs with full
  · exact .inr ⟨_, _, rfl, fun room => absurd room.1 (by omega)⟩
  · dsimp only [FetchBudget.spendBytes]
    split_ifs with large
    · exact .inr ⟨_, _, rfl, fun room => absurd room.2 (by omega)⟩
    · exact .inl ⟨_, rfl, Nat.not_le.mp full, Nat.not_lt.mp large, rfl, rfl, rfl, rfl⟩

namespace Upstreams

variable {upstreams : Upstreams Inputs} {budget paid after : FetchBudget}
  {question : Name × Name} {first second : List (Name × Name)}

theorem Spent.fits_append (spent : upstreams.Spent budget paid first) :
    upstreams.Fits budget (first ++ second) ↔ upstreams.Fits paid second := by
  unfold Fits
  rw [spent.limits, spent.subqueries, spent.bytes, List.length_append, List.map_append,
    List.sum_append]
  omega

theorem Spent.trans (spent : upstreams.Spent budget paid first)
    (more : upstreams.Spent paid after second) : upstreams.Spent budget after (first ++ second) where
  limits := more.limits.trans spent.limits
  subqueries := by
    rw [more.subqueries, spent.subqueries, List.length_append, Nat.add_assoc]
  bytes := by
    rw [more.bytes, spent.bytes, List.map_append, List.sum_append, Nat.add_assoc]

theorem Spent.traffic (spent : upstreams.Spent budget paid first) (same : paid.SameTraffic after) :
    upstreams.Spent budget after first where
  limits := same.limits.trans spent.limits
  subqueries := same.subqueries.trans spent.subqueries
  bytes := same.bytes.trans spent.bytes

theorem Fits.of_append (fits : upstreams.Fits budget (first ++ second)) :
    upstreams.Fits budget first := by
  unfold Fits at fits ⊢
  rw [List.length_append, List.map_append, List.sum_append] at fits
  omega

/-- One question is paid for exactly when it fits. -/
theorem pay_question (upstreams : Upstreams Inputs) (budget : FetchBudget) (zone name : Name) :
    (∃ paid, budget.pay (upstreams.octets zone name) = (.ok (), paid) ∧
      upstreams.Fits budget [(zone, name)] ∧ upstreams.Spent budget paid [(zone, name)] ∧
      paid.work.delegations = budget.work.delegations) ∨
    (∃ error rest, budget.pay (upstreams.octets zone name) = (.error error, rest) ∧
      ¬ upstreams.Fits budget [(zone, name)]) := by
  rcases budget.pay_cases (upstreams.octets zone name) with
    ⟨paid, result, counted, room, limits, delegations, subqueries, bytes⟩ |
    ⟨error, rest, result, full⟩
  · exact .inl ⟨paid, result, ⟨counted, by simpa using room⟩, ⟨limits, subqueries, by simpa using bytes⟩,
      delegations⟩
  · exact .inr ⟨error, rest, result, fun fits => full ⟨fits.1, by simpa using fits.2⟩⟩

end Upstreams

namespace Turn

variable [LinearOrder Score] {key : QueryKey} {state : WalkState Score Stability} {name : Name}
  {received : Received}

/-- A response that tells nothing about less than the name. -/
theorem receive_deepens (scoring : Scoring Score Stability Inputs) (engine : EngineConfig)
    (now : Ts) (turn : Turn Score Stability Inputs) (apart : name ≠ state.currentName)
    (deepens : ((state.exchange name received).kind key).deepens = true) :
    ∃ next, turn.receive scoring engine key now name received state = .running next ∧
      state.Alike next ∧ next.minimized = some (deepenMinimized state.currentName name) ∧
      next.budget = state.budget := by
  rw [receive_eq]
  cases kind : (state.exchange name received).kind key with
  | negative rcode soa =>
      rw [kind] at deepens
      have present : rcode.isNxdomain = false := by simpa [ResponseKind.deepens] using deepens
      rcases negativeArm_cases scoring key now turn rcode soa name
        (state.receiving (state.exchange name received)) with
        ⟨missing, -⟩ | ⟨-, ⟨-, deepened⟩ | ⟨whole, -⟩⟩
      · rw [missing] at present
        cases present
      · exact ⟨_, deepened, ⟨rfl, rfl, rfl, rfl, rfl, rfl, rfl, rfl⟩, rfl, rfl⟩
      · exact absurd whole apart
  | empty =>
      refine ⟨_, if_pos apart, ⟨rfl, rfl, rfl, rfl, rfl, rfl, rfl, rfl⟩, rfl, rfl⟩
  | _ =>
      rw [kind] at deepens
      cases deepens

end Turn

/-! ## Runs -/

section Runs

variable [LinearOrder Score] (upstreams : Upstreams Inputs)
  (scoring : Scoring Score Stability Inputs) (engine : EngineConfig) (key : QueryKey) (now : Ts)

/-- One turn with servers that answer. -/
theorem Upstreams.take_eq (state : WalkState Score Stability) :
    (upstreams.turn engine state).take scoring engine key now state =
      if engine.maxCnameDepth < state.depth then .failed .cnameLoop state
      else if engine.maxReferrals < state.referrals then .failed .referralLoop state
      else match Turn.cachedEnd scoring key now state with
        | (some rrset, probed) => .finished (Turn.endOnCached rrset probed)
        | (none, probed) =>
            match state.budget.pay (upstreams.octets state.zone (Turn.queryName engine state)) with
            | (.error error, budget) =>
                .failed (.upstream error) { probed with minimized := none, budget }
            | (.ok (), budget) => (upstreams.turn engine state).receive scoring engine key now
                (Turn.queryName engine state)
                (upstreams.serve state.zone (Turn.queryName engine state))
                { probed with minimized := none, budget } := by
  obtain ⟨cache, unchanged, -⟩ := Turn.cachedEnd_cases scoring key now state
  have asks : Turn.queryName engine (Turn.cachedEnd scoring key now state).2 =
      Turn.queryName engine state := by
    rw [unchanged]
    rfl
  unfold Turn.take
  change (if engine.maxCnameDepth < state.depth then _ else _) = _
  split_ifs
  · rfl
  · rfl
  · have others : (upstreams.turn engine state).others = [] := rfl
    have response : (upstreams.turn engine state).response = (state.budget.pay
        (upstreams.octets state.zone (Turn.queryName engine state))).1.map
          fun _ => upstreams.serve state.zone (Turn.queryName engine state) := rfl
    have spent : ∀ budget, (upstreams.turn engine state).spent budget = (state.budget.pay
        (upstreams.octets state.zone (Turn.queryName engine state))).2 := fun _ => rfl
    rcases found : Turn.cachedEnd scoring key now state with ⟨_ | rrset, probed⟩
    · simp only [others, List.foldl_nil, found]
      rw [found] at asks
      dsimp only at asks
      rw [asks, response, spent]
      rcases state.budget.pay (upstreams.octets state.zone (Turn.queryName engine state)) with
        ⟨_ | _, budget⟩
      · rfl
      · rfl
    · rw [others, List.foldl_nil, found]

/-- What a turn with servers that answer can do, when the cache does not end the walk. -/
theorem Upstreams.take_cases {state : WalkState Score Stability} {names : Name → Prop}
    (shallow : ¬ engine.maxCnameDepth < state.depth)
    (referred : ¬ engine.maxReferrals < state.referrals)
    (blind : state.Blind scoring key.rrType names) :
    (∃ asking, upstreams.Fits state.budget [(state.zone, Turn.queryName engine state)] ∧
      upstreams.Spent state.budget asking.budget [(state.zone, Turn.queryName engine state)] ∧
      state.Alike asking ∧ asking.exchanges = state.exchanges ∧
      asking.Blind scoring key.rrType names ∧
      (upstreams.turn engine state).take scoring engine key now state =
        (upstreams.turn engine state).receive scoring engine key now (Turn.queryName engine state)
          (upstreams.serve state.zone (Turn.queryName engine state)) asking) ∨
    (∃ error failed, ¬ upstreams.Fits state.budget [(state.zone, Turn.queryName engine state)] ∧
      (upstreams.turn engine state).take scoring engine key now state = .failed error failed) := by
  obtain ⟨cache, unchanged, -⟩ := Turn.cachedEnd_cases scoring key now state
  have probed : Turn.cachedEnd scoring key now state = (none, { state with cache := cache }) :=
    Prod.ext blind.cachedEnd unchanged
  rw [upstreams.take_eq, if_neg shallow, if_neg referred, probed]
  dsimp only
  rcases upstreams.pay_question state.budget state.zone (Turn.queryName engine state) with
    ⟨paid, result, fits, spent, delegations⟩ | ⟨error, rest, result, full⟩
  · rw [result]
    refine .inl ⟨{ state with cache := cache, minimized := none, budget := paid }, fits, spent,
      ⟨rfl, rfl, rfl, rfl, rfl, rfl, spent.limits, delegations⟩, rfl, ?_, rfl⟩
    have looked : SemanticCache.Writes scoring (fun cacheKey kind => kind.Spares key.rrType names
        cacheKey) (fun _ => True) state.cache (Turn.cachedEnd scoring key now state).2.cache :=
      cachedEnd_writes state
    rw [unchanged] at looked
    exact blind.writes looked blind.aimed
  · rw [result]
    exact .inr ⟨_, _, full, rfl⟩

theorem Upstreams.resolve_one (state : WalkState Score Stability) :
    upstreams.resolve scoring engine key now 1 state =
      (upstreams.turn engine state).take scoring engine key now state := by
  rw [Upstreams.resolve]
  cases (upstreams.turn engine state).take scoring engine key now state <;> rfl

/-- A run goes on from the state it reached. -/
theorem Upstreams.resolve_add {turns : Nat} {state next : WalkState Score Stability}
    (reached : upstreams.resolve scoring engine key now turns state = .running next) (more : Nat) :
    upstreams.resolve scoring engine key now (turns + more) state =
      upstreams.resolve scoring engine key now more next := by
  induction turns generalizing state with
  | zero =>
      cases reached
      rw [Nat.zero_add]
  | succ turns inductionHypothesis =>
      rw [Nat.add_right_comm, Upstreams.resolve]
      rw [Upstreams.resolve] at reached
      cases taken : (upstreams.turn engine state).take scoring engine key now state with
      | running middle =>
          rw [taken] at reached
          exact inductionHypothesis reached
      | finished final =>
          rw [taken] at reached
          cases reached
      | failed error final =>
          rw [taken] at reached
          cases reached

/-- A run that failed does not finish. -/
theorem Upstreams.resolve_of_failed {turns : Nat} {state failed final : WalkState Score Stability}
    {error : ResolveError}
    (fails : upstreams.resolve scoring engine key now turns state = .failed error failed)
    (more : Nat) : upstreams.resolve scoring engine key now more state ≠ .finished final := by
  induction turns generalizing state more with
  | zero => cases fails
  | succ turns inductionHypothesis =>
      intro finishes
      cases more with
      | zero => cases finishes
      | succ more =>
          rw [Upstreams.resolve] at fails finishes
          cases taken : (upstreams.turn engine state).take scoring engine key now state with
          | running middle =>
              rw [taken] at fails finishes
              exact inductionHypothesis fails more finishes
          | finished final =>
              rw [taken] at fails
              cases fails
          | failed error final =>
              rw [taken] at finishes
              cases finishes

/-- After the questions for these names, all paid for, the run receives a response that tells. -/
structure Upstreams.Told (names : Name → Prop) (state : WalkState Score Stability)
    (suffixes : List Name) (last : Name) (asking : WalkState Score Stability)
    (turn : Turn Score Stability Inputs) : Prop where
  fits : upstreams.Fits state.budget (suffixes.map (state.zone, ·))
  ends : suffixes.getLast? = some last
  tells : last = state.currentName ∨
    (upstreams.kind key state.zone state.currentName last).deepens = false
  alike : state.Alike asking
  blind : asking.Blind scoring key.rrType names
  spent : upstreams.Spent state.budget asking.budget (suffixes.map (state.zone, ·))
  servers : turn.nsAddresses = fun _ => []
  received : upstreams.resolve scoring engine key now suffixes.length state =
    turn.receive scoring engine key now last (upstreams.serve state.zone last) asking

variable {upstreams scoring engine key now} in
/-- One question more before the others. -/
theorem Upstreams.Told.deeper {names : Name → Prop} {state next asking : WalkState Score Stability}
    {suffixes : List Name} {name last : Name} {turn : Turn Score Stability Inputs}
    (told : upstreams.Told scoring engine key now names next suffixes last asking turn)
    (reached : upstreams.resolve scoring engine key now 1 state = .running next)
    (alike : state.Alike next)
    (spent : upstreams.Spent state.budget next.budget [(state.zone, name)]) :
    upstreams.Told scoring engine key now names state (name :: suffixes) last asking turn where
  fits := by
    have fits := told.fits
    rw [alike.zone] at fits
    exact spent.fits_append.mpr fits
  ends := by
    have found := told.ends
    cases suffixes with
    | nil => cases found
    | cons first rest => exact found
  tells := by
    have tells := told.tells
    rw [alike.zone, alike.currentName] at tells
    exact tells
  alike := alike.trans told.alike
  blind := told.blind
  spent := by
    have rest := told.spent
    rw [alike.zone] at rest
    exact spent.trans rest
  servers := told.servers
  received := by
    rw [List.length_cons, Nat.add_comm, upstreams.resolve_add scoring engine key now reached,
      told.received, alike.zone]

/-- The last question leads to the response that tells, or to no end at all. -/
theorem Upstreams.hop_ends {names : Name → Prop} {state : WalkState Score Stability}
    (shallow : ¬ engine.maxCnameDepth < state.depth)
    (referred : ¬ engine.maxReferrals < state.referrals)
    (blind : state.Blind scoring key.rrType names)
    (tells : Turn.queryName engine state = state.currentName ∨
      (upstreams.kind key state.zone state.currentName
        (Turn.queryName engine state)).deepens = false) :
    (∃ last asking turn, upstreams.Told scoring engine key now names state
      [Turn.queryName engine state] last asking turn) ∨
    (¬ upstreams.Fits state.budget ([Turn.queryName engine state].map (state.zone, ·)) ∧
      ∀ turns final, upstreams.resolve scoring engine key now turns state ≠ .finished final) := by
  rcases upstreams.take_cases scoring engine key now shallow referred blind with
    ⟨asking, fits, spent, alike, -, unaided, taken⟩ | ⟨error, failed, full, taken⟩
  · exact .inl ⟨_, asking, upstreams.turn engine state, fits, rfl, tells, alike, unaided, spent, rfl,
      (upstreams.resolve_one scoring engine key now state).trans taken⟩
  · exact .inr ⟨full, fun turns final => upstreams.resolve_of_failed scoring engine key now
      ((upstreams.resolve_one scoring engine key now state).trans taken) turns⟩

/-- A question for less than the name that tells nothing leads to the next one. -/
theorem Upstreams.take_deepens {names : Name → Prop} {state : WalkState Score Stability}
    (shallow : ¬ engine.maxCnameDepth < state.depth)
    (referred : ¬ engine.maxReferrals < state.referrals)
    (blind : state.Blind scoring key.rrType names)
    (apart : Turn.queryName engine state ≠ state.currentName)
    (deepens : (upstreams.kind key state.zone state.currentName
      (Turn.queryName engine state)).deepens = true) :
    (∃ next, upstreams.Spent state.budget next.budget [(state.zone, Turn.queryName engine state)] ∧
      state.Alike next ∧ next.Blind scoring key.rrType names ∧
      Turn.queryName engine next =
        deepenMinimized state.currentName (Turn.queryName engine state) ∧
      upstreams.resolve scoring engine key now 1 state = .running next) ∨
    (¬ upstreams.Fits state.budget [(state.zone, Turn.queryName engine state)] ∧
      ∀ turns final, upstreams.resolve scoring engine key now turns state ≠ .finished final) := by
  rcases upstreams.take_cases scoring engine key now shallow referred blind with
    ⟨asking, -, spent, alike, -, unaided, taken⟩ | ⟨error, failed, full, taken⟩
  · generalize Turn.queryName engine state = name at apart deepens spent taken ⊢
    have telling : ((asking.exchange name (upstreams.serve state.zone name)).kind key).deepens =
        true := by
      unfold Exchange.kind WalkState.exchange
      rw [alike.currentName, alike.zone]
      exact deepens
    rw [← alike.currentName] at apart
    obtain ⟨next, received, onward, asks, budget⟩ :=
      Turn.receive_deepens scoring engine now (upstreams.turn engine state) apart telling
    refine .inl ⟨next, budget ▸ spent, alike.trans onward, ?_, ?_, ?_⟩
    · refine Turn.receive_blind received unaided
        (fun _ _ => ResponseKind.brings_of_deepens telling) fun followed => ?_
      rw [onward.currentName]
      exact unaided.aimed (onward.depth ▸ followed)
    · rw [Turn.queryName, asks, alike.currentName]
    · rw [upstreams.resolve_one, taken, received]
  · exact .inr ⟨full, fun turns final => upstreams.resolve_of_failed scoring engine key now
      ((upstreams.resolve_one scoring engine key now state).trans taken) turns⟩

/-- Where the questions for a name lead: to the response that tells, if they all fit the
budget, and otherwise to no end at all. -/
theorem Upstreams.hop {names : Name → Prop} {state : WalkState Score Stability} (more : Nat)
    (named : state.currentName.Canonical)
    (short : Turn.queryName engine state = state.currentName ∨
      (Turn.queryName engine state).labelCount < state.currentName.labelCount ∧
        state.currentName.labelCount ≤ (Turn.queryName engine state).labelCount + more)
    (shallow : ¬ engine.maxCnameDepth < state.depth)
    (referred : ¬ engine.maxReferrals < state.referrals)
    (blind : state.Blind scoring key.rrType names)
    {suffixes : List Name} (asks : suffixes = upstreams.asked key state.zone state.currentName more
      (Turn.queryName engine state)) :
    (∃ last asking turn,
      upstreams.Told scoring engine key now names state suffixes last asking turn) ∨
    (¬ upstreams.Fits state.budget (suffixes.map (state.zone, ·)) ∧
      ∀ turns final, upstreams.resolve scoring engine key now turns state ≠ .finished final) := by
  subst asks
  induction more generalizing state with
  | zero =>
      have whole : Turn.queryName engine state = state.currentName :=
        short.resolve_right fun fewer => by omega
      exact upstreams.hop_ends scoring engine key now shallow referred blind (.inl whole)
  | succ more inductionHypothesis =>
      rw [Upstreams.asked]
      split_ifs with deepens
      · obtain ⟨apart, telling⟩ := deepens
        obtain ⟨fewer, reach⟩ := short.resolve_left apart
        rcases upstreams.take_deepens scoring engine key now shallow referred blind apart
          telling with ⟨next, spent, alike, unaided, asks, reached⟩ | ⟨full, endless⟩
        · have onward := inductionHypothesis (alike.currentName ▸ named) ?_
            (alike.depth ▸ shallow) (alike.referrals ▸ referred) unaided
          · rw [asks, alike.zone, alike.currentName] at onward
            rcases onward with ⟨last, asking, turn, told⟩ | ⟨full, endless⟩
            · exact .inl ⟨last, asking, turn, told.deeper reached alike spent⟩
            · refine .inr ⟨fun fits => full (spent.fits_append.mp fits), fun turns final => ?_⟩
              cases turns with
              | zero => nofun
              | succ turns =>
                  rw [Nat.add_comm, upstreams.resolve_add scoring engine key now reached]
                  exact endless turns final
          · rw [asks, alike.currentName]
            rcases deepenMinimized_next named fewer with whole | ⟨longer, shorter⟩
            · exact .inl whole
            · exact .inr ⟨shorter, by omega⟩
        · exact .inr ⟨fun fits => full (Upstreams.Fits.of_append fits), endless⟩
      · refine upstreams.hop_ends scoring engine key now shallow referred blind ?_
        by_cases whole : Turn.queryName engine state = state.currentName
        · exact .inl whole
        · exact .inr (Bool.eq_false_of_not_eq_true fun telling => deepens ⟨whole, telling⟩)

variable {upstreams scoring engine key now}

/-- A run that finishes does so after every state that it reaches. -/
theorem Upstreams.finishes_after {turns more : Nat} {state next final : WalkState Score Stability}
    (reached : upstreams.resolve scoring engine key now turns state = .running next)
    (finishes : upstreams.resolve scoring engine key now more state = .finished final) :
    ∃ rest, upstreams.resolve scoring engine key now rest next = .finished final := by
  induction turns generalizing state more with
  | zero =>
      cases reached
      exact ⟨more, finishes⟩
  | succ turns inductionHypothesis =>
      cases more with
      | zero => cases finishes
      | succ more =>
          rw [Upstreams.resolve] at reached finishes
          cases taken : (upstreams.turn engine state).take scoring engine key now state with
          | running middle =>
              rw [taken] at reached finishes
              exact inductionHypothesis reached finishes
          | finished other =>
              rw [taken] at reached
              cases reached
          | failed error other =>
              rw [taken] at reached
              cases reached

theorem Upstreams.resolve_exchanges (upstreams : Upstreams Inputs)
    (scoring : Scoring Score Stability Inputs) (engine : EngineConfig) (key : QueryKey) (now : Ts)
    (turns : Nat) (state : WalkState Score Stability) :
    state.exchanges <+: (upstreams.resolve scoring engine key now turns state).state.exchanges := by
  induction turns generalizing state with
  | zero => exact List.prefix_refl _
  | succ turns inductionHypothesis =>
      have grown := (upstreams.turn engine state).take_exchanges scoring engine key now state
      rw [Upstreams.resolve]
      cases taken : (upstreams.turn engine state).take scoring engine key now state with
      | running next =>
          rw [taken] at grown
          exact grown.trans (inductionHypothesis next)
      | finished next =>
          rw [taken] at grown
          exact grown
      | failed error next =>
          rw [taken] at grown
          exact grown

/-- The first turn of a run that finishes. -/
theorem Upstreams.finishes_cases {turns : Nat} {state final : WalkState Score Stability}
    (finishes : upstreams.resolve scoring engine key now (turns + 1) state = .finished final) :
    (upstreams.turn engine state).take scoring engine key now state = .finished final ∨
    ∃ next, (upstreams.turn engine state).take scoring engine key now state = .running next ∧
      upstreams.resolve scoring engine key now turns next = .finished final := by
  rw [Upstreams.resolve] at finishes
  cases taken : (upstreams.turn engine state).take scoring engine key now state with
  | running next =>
      rw [taken] at finishes
      exact .inr ⟨next, rfl, finishes⟩
  | finished other =>
      rw [taken] at finishes
      exact .inl finishes
  | failed error other =>
      rw [taken] at finishes
      cases finishes

/-- What an exchange of a run without minimisation tells: what the suffixes tell first, and
nothing that a walk to one of the names would find in the cache. -/
structure Upstreams.Leads (upstreams : Upstreams Inputs) (key : QueryKey) (names : Name → Prop)
    (exchange : Exchange) : Prop where
  steers : upstreams.Steers key exchange.zone exchange.currentName
  unaided : ∀ name, names name → (exchange.kind key).brings key.rrType name = false
  aims : ∀ name, (exchange.kind key).target? exchange.currentName = some name → names name

/-- Two runs at the same point, with a new name or zone before them. -/
structure Paired (scoring : Scoring Score Stability Inputs) (key : QueryKey) (names : Name → Prop)
    (left right : WalkState Score Stability) : Prop where
  alike : left.Alike right
  fresh : left.minimized = none
  freshToo : right.minimized = none
  provenance : left.Provenance key
  running : left.Open key
  blind : left.Blind scoring key.rrType names
  blindToo : right.Blind scoring key.rrType names

/-- What becomes of a run with minimisation: it ends where the other one did if its
questions fit the budget, and does not end otherwise. -/
structure Upstreams.Preserved (upstreams : Upstreams Inputs)
    (scoring : Scoring Score Stability Inputs) (engine : EngineConfig) (key : QueryKey) (now : Ts)
    (right final : WalkState Score Stability) (questions : List (Name × Name)) : Prop where
  ends : upstreams.Fits right.budget questions → ∃ more finalToo,
    upstreams.resolve scoring (engine.minimizing true) key now more right = .finished finalToo ∧
      final.Alike finalToo
  endless : ¬ upstreams.Fits right.budget questions → ∀ more finalToo,
    upstreams.resolve scoring (engine.minimizing true) key now more right ≠ .finished finalToo

/-- The exchange in which the servers of a zone are asked for a whole name. -/
def Upstreams.whole (upstreams : Upstreams Inputs) (zone name : Name) : Exchange :=
  ⟨zone, name, name, upstreams.serve zone name⟩

/-- The first exchange of a run without minimisation that finishes. -/
theorem Upstreams.finishes_whole {names : Name → Prop} {turns : Nat}
    {state final : WalkState Score Stability} {exchanges : List Exchange}
    (fresh : state.minimized = none) (blind : state.Blind scoring key.rrType names)
    (finishes : upstreams.resolve scoring (engine.minimizing false) key now (turns + 1) state =
      .finished final)
    (asked : final.exchanges = state.exchanges ++ exchanges) :
    ¬ engine.maxCnameDepth < state.depth ∧ ¬ engine.maxReferrals < state.referrals ∧
    ∃ asking rest, state.Alike asking ∧ asking.Blind scoring key.rrType names ∧
      exchanges = upstreams.whole state.zone state.currentName :: rest ∧
      (upstreams.turn (engine.minimizing false) state).take scoring (engine.minimizing false) key now
          state =
        (upstreams.turn (engine.minimizing false) state).receive scoring (engine.minimizing false) key
          now state.currentName (upstreams.serve state.zone state.currentName) asking ∧
      ((upstreams.turn (engine.minimizing false) state).take scoring (engine.minimizing false) key now
          state = .finished final ∧ rest = [] ∨
        ∃ next, (upstreams.turn (engine.minimizing false) state).take scoring
            (engine.minimizing false) key now state = .running next ∧
          upstreams.resolve scoring (engine.minimizing false) key now turns next =
            .finished final ∧ final.exchanges = next.exchanges ++ rest) := by
  have shallow : ¬ (engine.minimizing false).maxCnameDepth < state.depth := by
    intro deep
    rw [Upstreams.resolve, upstreams.take_eq, if_pos deep] at finishes
    cases finishes
  have referred : ¬ (engine.minimizing false).maxReferrals < state.referrals := by
    intro many
    rw [Upstreams.resolve, upstreams.take_eq, if_neg shallow, if_pos many] at finishes
    cases finishes
  have whole : Turn.queryName (engine.minimizing false) state = state.currentName := by
    rw [Turn.queryName, fresh]
    rfl
  refine ⟨shallow, referred, ?_⟩
  rcases upstreams.take_cases scoring (engine.minimizing false) key now shallow referred blind with
    ⟨asking, -, -, alike, kept, unaided, taken⟩ | ⟨error, failed, -, taken⟩
  · rw [whole] at taken
    have acted : ((upstreams.turn (engine.minimizing false) state).take scoring
        (engine.minimizing false) key now state).state.exchanges =
          state.exchanges ++ [upstreams.whole state.zone state.currentName] := by
      rw [taken, Turn.receive_adds.exchanges, WalkState.receiving, kept, WalkState.exchange,
        alike.zone, alike.currentName]
      rfl
    rcases Upstreams.finishes_cases finishes with ended | ⟨next, onward, later⟩
    · refine ⟨asking, [], alike, unaided, ?_, taken, .inl ⟨ended, rfl⟩⟩
      rw [ended] at acted
      exact List.append_cancel_left (asked.symm.trans acted)
    · rw [onward] at acted
      have grown := upstreams.resolve_exchanges scoring (engine.minimizing false) key now turns next
      rw [later] at grown
      obtain ⟨rest, total⟩ := grown
      refine ⟨asking, rest, alike, unaided, ?_, taken, .inr ⟨next, onward, later, total.symm⟩⟩
      rw [show next.exchanges = _ from acted, List.append_assoc] at total
      exact List.append_cancel_left (asked.symm.trans total.symm)
  · rw [Upstreams.resolve, taken] at finishes
    cases finishes

section Step

variable {names : Name → Prop} {left right next nextToo asking askingToo : WalkState Score Stability}
  {last : Name} {turn : Turn Score Stability Inputs}

variable (upstreams engine now) in
/-- The suffixes of the name lead to a response that tells, or to no end. -/
theorem Paired.hop (paired : Paired scoring key names left right)
    (shallow : ¬ engine.maxCnameDepth < left.depth)
    (referred : ¬ engine.maxReferrals < left.referrals) :
    (∃ last asking turn, upstreams.Told scoring (engine.minimizing true) key now names right
      (upstreams.suffixes key right.zone right.currentName) last asking turn) ∨
    (¬ upstreams.Fits right.budget
        ((upstreams.suffixes key right.zone right.currentName).map (right.zone, ·)) ∧
      ∀ turns final,
        upstreams.resolve scoring (engine.minimizing true) key now turns right ≠ .finished final) := by
  have shortened : Turn.queryName (engine.minimizing true) right =
      minimizedName right.currentName right.zone := by
    rw [Turn.queryName, paired.freshToo]
    rfl
  have named : right.currentName.Canonical := paired.alike.currentName ▸ paired.running.named
  refine upstreams.hop scoring (engine.minimizing true) key now right.currentName.labelCount named
    ?_ (paired.alike.depth ▸ shallow) (paired.alike.referrals ▸ referred) paired.blindToo ?_
  · rw [shortened]
    exact (minimizedName_shorter named).imp_right fun fewer => ⟨fewer, Nat.le_add_left _ _⟩
  · rw [shortened]
    rfl

/-- The response that tells is read as the response to the whole name is. -/
theorem Upstreams.Told.agrees
    (told : upstreams.Told scoring engine key now names right
      (upstreams.suffixes key right.zone right.currentName) last askingToo turn)
    (alike : left.Alike right) (onto : left.Alike asking)
    (steers : upstreams.Steers key left.zone left.currentName) :
    ((asking.exchange left.currentName (upstreams.serve left.zone left.currentName)).kind
        key).Agrees ((askingToo.exchange last (upstreams.serve right.zone last)).kind key) ∧
      (last = askingToo.currentName ∨
        ((askingToo.exchange last (upstreams.serve right.zone last)).kind key).deepens = false) := by
  have ends := told.ends
  have tells := told.tells
  rw [alike.zone, alike.currentName] at ends tells
  unfold WalkState.exchange
  rw [told.alike.zone, told.alike.currentName, onto.zone, onto.currentName, alike.zone,
    alike.currentName]
  exact ⟨steers last ends, tells⟩

/-- Both runs come to the same point. -/
theorem Upstreams.Told.progress
    (told : upstreams.Told scoring (engine.minimizing true) key now names right
      (upstreams.suffixes key right.zone right.currentName) last askingToo turn)
    (alike : left.Alike right) (onto : left.Alike asking)
    (steers : upstreams.Steers key left.zone left.currentName) :
    ((upstreams.turn (engine.minimizing false) left).receive scoring (engine.minimizing false) key now
        left.currentName (upstreams.serve left.zone left.currentName) asking).Alike
      (upstreams.resolve scoring (engine.minimizing true) key now
        (upstreams.suffixes key right.zone right.currentName).length right) := by
  obtain ⟨agrees, tells⟩ := told.agrees alike onto steers
  have same : asking.Alike askingToo := onto.symm.trans (alike.trans told.alike)
  have sameServers : turn.nsAddresses =
      (upstreams.turn (engine.minimizing false) left).nsAddresses := told.servers
  rw [told.received]
  rw [← onto.currentName] at agrees ⊢
  exact Turn.receive_alike same sameServers agrees tells

/-- Runs that go on from the same point are paired again. -/
theorem Upstreams.Told.paired
    (told : upstreams.Told scoring (engine.minimizing true) key now names right
      (upstreams.suffixes key right.zone right.currentName) last askingToo turn)
    (paired : Paired scoring key names left right) (onto : left.Alike asking)
    (unaided : asking.Blind scoring key.rrType names)
    (leads : upstreams.Leads key names (upstreams.whole left.zone left.currentName))
    (taken : (upstreams.turn (engine.minimizing false) left).take scoring (engine.minimizing false)
      key now left = .running next)
    (received : (upstreams.turn (engine.minimizing false) left).receive scoring
      (engine.minimizing false) key now left.currentName
      (upstreams.serve left.zone left.currentName) asking = .running next)
    (receivedToo : turn.receive scoring (engine.minimizing true) key now last
      (upstreams.serve right.zone last) askingToo = .running nextToo)
    (going : next.Alike nextToo) (fresh : next.minimized = none ∧ nextToo.minimized = none) :
    Paired scoring key names next nextToo := by
  have sound := Turn.take_sound scoring (engine.minimizing false) now
    (upstreams.turn (engine.minimizing false) left) paired.provenance paired.running
  rw [taken] at sound
  have exchanged : asking.exchange left.currentName
      (upstreams.serve left.zone left.currentName) = upstreams.whole left.zone left.currentName := by
    unfold WalkState.exchange
    rw [onto.zone, onto.currentName]
    rfl
  have agrees := (told.agrees paired.alike onto leads.steers).1
  rw [exchanged] at agrees
  have aimed : next.depth ≠ 0 → names next.currentName := by
    intro followed
    rcases Turn.receive_target received with ⟨depth, name⟩ | target
    · rw [name]
      exact unaided.aimed (depth ▸ followed)
    · rw [exchanged, onto.currentName] at target
      exact leads.aims _ target
  exact
    { alike := going
      fresh := fresh.1
      freshToo := fresh.2
      provenance := sound.provenance
      running := sound.settled
      blind := Turn.receive_blind received unaided (exchanged ▸ leads.unaided) aimed
      blindToo := Turn.receive_blind receivedToo told.blind
        (fun name target => (agrees.brings _ _).trans (leads.unaided name target))
        fun followed => going.currentName ▸ aimed (going.depth ▸ followed) }

end Step

theorem Upstreams.Preserved.after {right next final : WalkState Score Stability}
    {first second : List (Name × Name)} {turns : Nat}
    (preserved : upstreams.Preserved scoring engine key now next final second)
    (reached : upstreams.resolve scoring (engine.minimizing true) key now turns right =
      .running next)
    (spent : upstreams.Spent right.budget next.budget first) :
    upstreams.Preserved scoring engine key now right final (first ++ second) where
  ends fits := by
    obtain ⟨more, finalToo, ended, alike⟩ := preserved.ends (spent.fits_append.mp fits)
    exact ⟨turns + more, finalToo, (upstreams.resolve_add scoring _ key now reached more).trans ended,
      alike⟩
  endless full more finalToo finishes := by
    obtain ⟨rest, ended⟩ := Upstreams.finishes_after reached finishes
    exact preserved.endless (fun fits => full (spent.fits_append.mpr fits)) rest finalToo ended

/-- A run without minimisation that finishes, and one with it from the same point. -/
theorem Upstreams.simulate {names : Name → Prop} {turns : Nat}
    {left right final : WalkState Score Stability} {exchanges : List Exchange}
    (paired : Paired scoring key names left right)
    (finishes : upstreams.resolve scoring (engine.minimizing false) key now turns left =
      .finished final)
    (asked : final.exchanges = left.exchanges ++ exchanges)
    (leads : ∀ exchange ∈ exchanges, upstreams.Leads key names exchange) :
    upstreams.Preserved scoring engine key now right final
      (upstreams.questions key exchanges) := by
  induction turns generalizing left right exchanges with
  | zero => cases finishes
  | succ turns inductionHypothesis =>
      obtain ⟨shallow, referred, asking, rest, onto, unaided, rfl, taken, ended⟩ :=
        Upstreams.finishes_whole paired.fresh paired.blind finishes asked
      have leading := leads _ List.mem_cons_self
      have questions : upstreams.questions key
          (upstreams.whole left.zone left.currentName :: rest) =
            (upstreams.suffixes key right.zone right.currentName).map (right.zone, ·) ++
              upstreams.questions key rest := by
        rw [paired.alike.zone, paired.alike.currentName]
        exact List.flatMap_cons
      rw [questions]
      rcases paired.hop upstreams engine now shallow referred with
        ⟨last, askingToo, turn, told⟩ | ⟨full, endless⟩
      · have progress := told.progress paired.alike onto leading.steers
        rcases ended with ⟨finished, rfl⟩ | ⟨next, onward, later, total⟩
        · rw [← taken, finished] at progress
          obtain ⟨finalToo, reached, alike⟩ := progress.of_finished
          refine ⟨fun _ => ⟨_, finalToo, reached, alike⟩, fun full => absurd ?_ full⟩
          rw [show upstreams.questions key [] = [] from rfl, List.append_nil]
          exact told.fits
        · rw [← taken, onward] at progress
          obtain ⟨nextToo, reached, going, fresh⟩ := progress.of_running
          have receivedToo := told.received.symm.trans reached
          have again : Paired scoring key names next nextToo := told.paired paired onto unaided
            leading onward (taken.symm.trans onward) receivedToo going fresh
          have traffic := @Turn.receive_traffic _ _ _ scoring (engine.minimizing true) key now _
            turn last (upstreams.serve right.zone last) askingToo
          rw [receivedToo] at traffic
          exact (inductionHypothesis again later total fun exchange member =>
            leads exchange (List.mem_cons_of_mem _ member)).after reached
              (told.spent.traffic traffic)
      · exact ⟨fun fits => absurd fits.of_append full, fun _ => endless⟩

/-- A run is a walk of the loop. -/
theorem Upstreams.resolve_eq_walk (turns : Nat) (state : WalkState Score Stability) :
    ∃ taken : List (Turn Score Stability Inputs), taken.length ≤ turns ∧
      upstreams.resolve scoring engine key now turns state =
        walk scoring engine key now taken state := by
  induction turns generalizing state with
  | zero => exact ⟨[], Nat.le_refl _, rfl⟩
  | succ turns inductionHypothesis =>
      rw [Upstreams.resolve]
      cases taken : (upstreams.turn engine state).take scoring engine key now state with
      | running next =>
          obtain ⟨later, short, walked⟩ := inductionHypothesis next
          refine ⟨upstreams.turn engine state :: later, Nat.succ_le_succ short, ?_⟩
          rw [walk, taken]
          exact walked
      | finished final =>
          refine ⟨[upstreams.turn engine state], Nat.succ_le_succ (Nat.zero_le _), ?_⟩
          rw [walk, taken]
      | failed error final =>
          refine ⟨[upstreams.turn engine state], Nat.succ_le_succ (Nat.zero_le _), ?_⟩
          rw [walk, taken]

end Runs

theorem WalkState.Blind.start {scoring : Scoring Score Stability Inputs} (engine : EngineConfig)
    (key : QueryKey) (config : CacheConfig Score) (budget : FetchBudget) (names : Name → Prop) :
    (WalkState.start engine key (.new config) budget : WalkState Score Stability).Blind scoring
      key.rrType names where
  consistent := SemanticCache.new_consistent config
  spares := by
    rintro other entry ⟨tier, stored⟩
    cases tier <;> simp [WalkState.start, SemanticCache.tierMap, SemanticCache.new, RankedMap.get?,
      RankedMap.new] at stored
  aimed followed := absurd rfl followed

/-- A resolution that starts with an empty cache and a fresh budget, with minimisation on or
off. -/
def Upstreams.run [LinearOrder Score] (upstreams : Upstreams Inputs)
    (scoring : Scoring Score Stability Inputs) (engine : EngineConfig) (key : QueryKey) (now : Ts)
    (config : CacheConfig Score) (limits : FetchLimits) (minimizing : Bool) (turns : Nat) :
    Progress Score Stability :=
  upstreams.resolve scoring (engine.minimizing minimizing) key now turns
    (.start (engine.minimizing minimizing) key (.new config) (.new limits))

/-- Whether a resolution succeeded. -/
def Progress.isFinished : Progress Score Stability → Bool
  | .finished _ => true
  | _ => false

theorem Progress.eq_finished {progress : Progress Score Stability}
    (finished : progress.isFinished = true) : progress = .finished progress.state := by
  cases progress with
  | finished state => rfl
  | _ => cases finished

/-- A response of the root servers about `com`. -/
def comReply (rcode : Rcode) (answers : List Record) : Message :=
  ⟨1, ⟨true, .QUERY, false, false, false, false, false, false, rcode⟩,
    [⟨⟨[3, 99, 111, 109, 0]⟩, .A, .IN⟩], answers,
    [⟨.root, .SOA, .IN, 3600, .soa .root .root 1 2 3 4 5⟩], [], none⟩

/-- The root zone has names below `com`, and no data there. -/
def comNodata : Received where
  message := comReply .NOERROR []
  parsed := ⟨[0, 1, 128, 0, 0, 1, 0, 0, 0, 1, 0, 0, 3, 99, 111, 109, 0, 0, 1, 0, 1,
    0, 0, 6, 0, 1, 0, 0, 14, 16, 0, 22, 0, 0,
    0, 0, 0, 1, 0, 0, 0, 2, 0, 0, 0, 3, 0, 0, 0, 4, 0, 0, 0, 5], by decide⟩

/-- `com` is an alias of `org`, which does not exist. -/
def comAlias : Received where
  message := comReply .NXDOMAIN
    [⟨⟨[3, 99, 111, 109, 0]⟩, .CNAME, .IN, 3600, .cname ⟨[3, 111, 114, 103, 0]⟩⟩]
  parsed := ⟨[0, 1, 128, 3, 0, 1, 0, 1, 0, 1, 0, 0, 3, 99, 111, 109, 0, 0, 1, 0, 1,
    192, 12, 0, 5, 0, 1, 0, 0, 14, 16, 0, 5, 3, 111, 114, 103, 0,
    0, 0, 6, 0, 1, 0, 0, 14, 16, 0, 22, 0, 0,
    0, 0, 0, 1, 0, 0, 0, 2, 0, 0, 0, 3, 0, 0, 0, 4, 0, 0, 0, 5], by decide⟩

/-- The servers of a root zone with `www.com`, which answer this when they are asked for `com`. -/
def rootServers (com : Received) (usable : com.message.usable = true) : Upstreams Unit where
  serve _ name := if name = (wwwQuery none).name then wwwAddress else com
  usable _ name := by
    split_ifs
    · decide
    · exact usable
  octets _ _ := 100
  scoreInputs _ := ()

/-- The resolution of `www.com` with these servers. -/
def rootRun (com : Received) (usable : com.message.usable = true) (minimizing : Bool)
    (turns : Nat) : Progress Nat Unit :=
  (rootServers com usable).run ttlScoring
    { rootEndpoints := [⟨.v4 (ipv4 198 41 0 4), 53, .udp⟩], authPort := 53
      qnameMinimization := true, maxCnameDepth := 8, maxReferrals := 16, queryBudgetMs := 5000
      dnssec := false, maxTtlCap := 86400 }
    (wwwQuery none) 0 (smallConfig 1) .default minimizing turns

end RecurseX
