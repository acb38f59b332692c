import Mathlib.Data.Prod.Lex
import RecurseX.Resolver.Turns

/-!
# The loop comes to an end

Whatever the servers answer, each turn of the loop lowers what is left of the aliases, the
referrals and the labels to ask for, in this order of weight (`measure_take`). Aliases and
referrals are limited, and a name has 127 labels at most, so the loop stops after so many turns
(`walk_stops`), also when the clock and the budget never stop it.
-/

namespace RecurseX

open Library

variable {Score Stability Inputs : Type}

/-- The most labels a name can have. -/
theorem Name.Built.labelCount_le {name : Name} (built : name.Built) : name.labelCount ≤ 127 := by
  have octets : name.bytes.length = (PrefixedList.body name.labels).length + 1 := by
    rw [show name.bytes = PrefixedList.code name.labels from congrArg Name.bytes built.stored,
      PrefixedList.code, List.length_append]
    rfl
  have labels := two_mul_length_le_body built.sized
  have short := built.short
  have limit : maxNameLen = 255 := rfl
  unfold Name.labelCount
  omega

namespace WalkState

/-- The aliases the loop may still follow, and the one that ends it. -/
def aliasesLeft (engine : EngineConfig) (state : WalkState Score Stability) : Nat :=
  engine.maxCnameDepth + 1 - state.depth

/-- The referrals the loop may still follow, and the one that ends it. -/
def referralsLeft (engine : EngineConfig) (state : WalkState Score Stability) : Nat :=
  engine.maxReferrals + 1 - state.referrals

/-- The labels of the name that are not asked for next. -/
def labelsLeft (engine : EngineConfig) (state : WalkState Score Stability) : Nat :=
  state.currentName.labelCount - (Turn.queryName engine state).labelCount

/-- What is left for the loop to do: the first counts most. -/
def measure (engine : EngineConfig) (state : WalkState Score Stability) : Nat ×ₗ Nat ×ₗ Nat :=
  toLex (state.aliasesLeft engine, toLex (state.referralsLeft engine, state.labelsLeft engine))

/-- What is asked for next is the end of a name that can be. -/
structure Asks (engine : EngineConfig) (state : WalkState Score Stability) : Prop where
  built : state.currentName.Built
  ending : ∃ keep ≤ state.currentName.labelCount,
    Turn.queryName engine state = lastLabels state.currentName keep

end WalkState

section Names

variable {engine : EngineConfig} {key : QueryKey} {state next : WalkState Score Stability}
  {name : Name} {received : Received}

/-- An alias off the wire sends the loop to a name that can be. -/
theorem Exchange.built_of_target {exchange : Exchange} {target : Name}
    (sends : (exchange.kind key).target? exchange.currentName = some target) : target.Built := by
  have taken := exchange.kind_taken key
  cases kind : exchange.kind key with
  | cname record rrsigs =>
      rw [kind] at sends taken
      have wellFormed := exchange.received.wellFormed.answers record taken.1.1
      unfold ResponseKind.target? at sends
      dsimp only at sends
      split at sends
      · rename_i other pointed
        obtain rfl := Option.some.inj sends
        have named : other.Canonical :=
          wellFormed.rdata.names other true (by simp [pointed, RData.pieces])
        exact named.built
      · cases sends
  | dname record =>
      rw [kind] at sends
      unfold ResponseKind.target? at sends
      dsimp only at sends
      split at sends
      · exact (synthesizeDnameCname_canonical sends).built
      · cases sends
  | _ =>
      rw [kind] at sends
      cases sends

/-- With nothing set aside, the name is asked for as a whole or from the zone on. -/
theorem WalkState.Asks.of_fresh (built : state.currentName.Built) (fresh : state.minimized = none) :
    state.Asks engine := by
  refine ⟨built, ?_⟩
  unfold Turn.queryName
  rw [fresh]
  dsimp only
  split_ifs
  · exact ⟨_, Nat.min_le_right _ _, built.minimizedName_eq _⟩
  · exact ⟨_, Nat.le_refl _, built.lastLabels_labelCount.symm⟩

theorem WalkState.Asks.start (engine : EngineConfig) (cache : SemanticCache Score Stability)
    (budget : FetchBudget) : (WalkState.start engine key cache budget).Asks engine :=
  .of_fresh key.named.built rfl

/-- The loop keeps asking for ends of names. -/
theorem WalkState.Asks.advance (asks : state.Asks engine)
    (advances : state.Advances key (Turn.queryName engine state) received next) :
    next.Asks engine := by
  cases advances with
  | redirected target depth referrals fresh =>
      exact .of_fresh (Exchange.built_of_target target) fresh
  | descended current depth referrals fresh => exact .of_fresh (current ▸ asks.built) fresh
  | lengthened partly current depth referrals longer =>
      obtain ⟨keep, inside, asked⟩ := asks.ending
      refine ⟨current ▸ asks.built, min (keep + 1) state.currentName.labelCount, ?_, ?_⟩
      · rw [current]
        exact Nat.min_le_right _ _
      · rw [asked, asks.built.deepenMinimized_lastLabels inside] at longer
        rw [Turn.queryName, longer, current]

/-- One label more is asked for. -/
theorem WalkState.Asks.labelsLeft_lt (asks : state.Asks engine)
    (partly : Turn.queryName engine state ≠ state.currentName)
    (current : next.currentName = state.currentName)
    (longer : next.minimized =
      some (deepenMinimized state.currentName (Turn.queryName engine state))) :
    next.labelsLeft engine < state.labelsLeft engine := by
  obtain ⟨keep, inside, asked⟩ := asks.ending
  have fewer : keep < state.currentName.labelCount := by
    refine Nat.lt_of_le_of_ne inside fun whole => partly ?_
    rw [asked, whole, asks.built.lastLabels_labelCount]
  have later : Turn.queryName engine next = lastLabels state.currentName (keep + 1) := by
    rw [asked, asks.built.deepenMinimized_lastLabels inside, Nat.min_eq_left fewer] at longer
    rw [Turn.queryName, longer]
  unfold WalkState.labelsLeft
  rw [later, asked, current, asks.built.labelCount_lastLabels fewer,
    asks.built.labelCount_lastLabels inside]
  omega

/-- Where a name is begun, one of its labels is asked for already. -/
theorem WalkState.labelsLeft_le (built : state.currentName.Built) (fresh : state.minimized = none) :
    state.labelsLeft engine ≤ 126 := by
  have labels := built.labelCount_le
  unfold WalkState.labelsLeft Turn.queryName
  rw [fresh]
  dsimp only
  split_ifs
  · rw [built.minimizedName_eq, built.labelCount_lastLabels (Nat.min_le_right _ _)]
    omega
  · omega

end Names

/-! ## One turn -/

section Turns

variable [LinearOrder Score] {scoring : Scoring Score Stability Inputs} {engine : EngineConfig}
  {key : QueryKey} {now : Ts} {turn : Turn Score Stability Inputs}
  {state next : WalkState Score Stability}

/-- A turn after which the loop runs on lowers the measure. -/
theorem measure_take (asks : state.Asks engine)
    (running : turn.take scoring engine key now state = .running next) :
    next.measure engine < state.measure engine := by
  obtain ⟨shallow, few, received, advances⟩ := Turn.take_running running
  unfold WalkState.measure
  rw [Prod.Lex.toLex_lt_toLex, Prod.Lex.toLex_lt_toLex]
  unfold WalkState.aliasesLeft WalkState.referralsLeft
  cases advances with
  | redirected target depth referrals fresh =>
      left
      dsimp only
      omega
  | descended current depth referrals fresh =>
      refine .inr ⟨?_, .inl ?_⟩
      · dsimp only
        rw [depth]
      · dsimp only
        omega
  | lengthened partly current depth referrals longer =>
      refine .inr ⟨?_, .inr ⟨?_, asks.labelsLeft_lt partly current longer⟩⟩
      · dsimp only
        rw [depth]
      · dsimp only
        rw [referrals]

/-- The measure as one number: a name has fewer than 127 labels to go. -/
def WalkState.potential (engine : EngineConfig) (state : WalkState Score Stability) : Nat :=
  (state.aliasesLeft engine + state.referralsLeft engine) * 127 + state.labelsLeft engine

theorem potential_take (asks : state.Asks engine)
    (running : turn.take scoring engine key now state = .running next) :
    next.Asks engine ∧ next.potential engine < state.potential engine := by
  obtain ⟨shallow, few, received, advances⟩ := Turn.take_running running
  have later := asks.advance advances
  refine ⟨later, ?_⟩
  unfold WalkState.potential WalkState.aliasesLeft WalkState.referralsLeft
  cases advances with
  | redirected target depth referrals fresh =>
      have labels : next.labelsLeft engine ≤ 126 := WalkState.labelsLeft_le later.built fresh
      omega
  | descended current depth referrals fresh =>
      have labels : next.labelsLeft engine ≤ 126 := WalkState.labelsLeft_le later.built fresh
      omega
  | lengthened partly current depth referrals longer =>
      have labels := asks.labelsLeft_lt partly current longer
      rw [depth, referrals]
      omega

end Turns

/-! ## A whole run -/

section Runs

variable {engine : EngineConfig} {key : QueryKey}

/-- What the loop may do from the start. -/
theorem potential_start (cache : SemanticCache Score Stability) (budget : FetchBudget) :
    (WalkState.start engine key cache budget).potential engine <
      (engine.maxCnameDepth + engine.maxReferrals + 3) * 127 := by
  have labels : (WalkState.start engine key cache budget).labelsLeft engine ≤ 126 :=
    WalkState.labelsLeft_le key.named.built rfl
  unfold WalkState.potential WalkState.aliasesLeft WalkState.referralsLeft
  dsimp only [WalkState.start] at labels ⊢
  omega

/-- The loop is at an end. -/
def Progress.Stopped (progress : Progress Score Stability) : Prop :=
  (∃ state, progress = .finished state) ∨ ∃ error state, progress = .failed error state

theorem Progress.stopped_of_not_running {progress : Progress Score Stability}
    (never : ∀ state, progress ≠ .running state) : progress.Stopped := by
  cases progress with
  | running state => exact absurd rfl (never state)
  | finished state => exact .inl ⟨state, rfl⟩
  | failed error state => exact .inr ⟨error, state, rfl⟩

variable [LinearOrder Score] {scoring : Scoring Score Stability Inputs} {now : Ts}
  {state final : WalkState Score Stability}

/-- A run that is not at an end has paid for each of its turns. -/
theorem walk_pays {turns : List (Turn Score Stability Inputs)} (asks : state.Asks engine)
    (running : walk scoring engine key now turns state = .running final) :
    final.Asks engine ∧ final.potential engine + turns.length ≤ state.potential engine := by
  induction turns generalizing state with
  | nil =>
      cases running
      exact ⟨asks, Nat.le_refl _⟩
  | cons turn turns inductionHypothesis =>
      rw [walk] at running
      cases taken : turn.take scoring engine key now state with
      | running next =>
          rw [taken] at running
          obtain ⟨later, paid⟩ := potential_take asks taken
          obtain ⟨last, rest⟩ := inductionHypothesis later running
          refine ⟨last, ?_⟩
          rw [List.length_cons]
          omega
      | finished other =>
          rw [taken] at running
          cases running
      | failed error other =>
          rw [taken] at running
          cases running

/-- **Termination.** Whatever an endless sequence of turns brings, every turn after which the loop
runs on lowers the lexicographic measure, and the loop stops after no more turns than the limits on
aliases and referrals and the 127 labels of a name allow. -/
theorem iterative_resolve_stops (scoring : Scoring Score Stability Inputs) (engine : EngineConfig)
    (key : QueryKey) (now : Ts) (cache : SemanticCache Score Stability) (budget : FetchBudget)
    (turns : Nat → Turn Score Stability Inputs) :
    (∀ taken state next, walk scoring engine key now ((List.range taken).map turns)
        (.start engine key cache budget) = .running state →
      (turns taken).take scoring engine key now state = .running next →
        next.measure engine < state.measure engine) ∧
    ∃ taken ≤ (engine.maxCnameDepth + engine.maxReferrals + 3) * 127,
      (walk scoring engine key now ((List.range taken).map turns)
        (.start engine key cache budget)).Stopped := by
  have asks : (WalkState.start engine key cache budget).Asks engine := .start engine cache budget
  refine ⟨fun taken state next reached running => measure_take (walk_pays asks reached).1 running,
    _, Nat.le_refl _, ?_⟩
  refine Progress.stopped_of_not_running fun state running => ?_
  have paid := (walk_pays asks running).2
  have start := @potential_start _ _ engine key cache budget
  rw [List.length_map, List.length_range] at paid
  omega

end Runs

/-- A response that makes `com` an alias of itself. -/
def comLoop : Received where
  message := ⟨1, ⟨true, .QUERY, false, false, false, false, false, false, .NOERROR⟩,
    [⟨⟨[3, 99, 111, 109, 0]⟩, .A, .IN⟩],
    [⟨⟨[3, 99, 111, 109, 0]⟩, .CNAME, .IN, 3600, .cname ⟨[3, 99, 111, 109, 0]⟩⟩], [], [], none⟩
  parsed := ⟨[0, 1, 128, 0, 0, 1, 0, 1, 0, 0, 0, 0, 3, 99, 111, 109, 0, 0, 1, 0, 1,
    192, 12, 0, 5, 0, 1, 0, 0, 14, 16, 0, 2, 192, 12], by decide⟩

/-- A turn that brings it. -/
def comLoopTurn : Turn Nat Unit Unit where
  others := []
  spent := id
  expired := false
  scoreInputs _ := ()
  response := .ok comLoop
  nsAddresses _ := []

theorem com_canonical : Name.Canonical ⟨[3, 99, 111, 109, 0]⟩ :=
  Name.canonical_of_fromWire _ (by decide)

/-- The query for the address of `com`. -/
def loopQuery : QueryKey :=
  ⟨⟨[3, 99, 111, 109, 0]⟩, .A, .IN, none, false, false, com_canonical⟩

/-- An engine with the limits of the default configuration. -/
def loopEngine : EngineConfig := ⟨[], 53, true, 8, 32, 5000, false, 86400⟩

/-- The loop does not follow the alias for ever. -/
theorem com_loop_stops : ∃ taken ≤ (8 + 32 + 3) * 127,
    (walk ttlScoring loopEngine loopQuery 0 ((List.range taken).map fun _ => comLoopTurn)
      (.start loopEngine loopQuery (.new (smallConfig 1)) (.new .default))).Stopped :=
  (iterative_resolve_stops ttlScoring loopEngine loopQuery 0 _ _ fun _ => comLoopTurn).2

end RecurseX
