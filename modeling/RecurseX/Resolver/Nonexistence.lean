import RecurseX.Resolver.Turns

/-!
# Names that do not exist

Two places put names into the store of missing names. The turn that receives an
NXDOMAIN puts the name it asked for; the end of the resolution puts the name of
the query, whichever name was asked for. `missing_known_iff` says exactly when
the second one is right.
-/

namespace RecurseX

open Library

variable {Score Stability Inputs : Type}

/-- The response says that the name asked for does not exist. -/
def Exchange.denies (exchange : Exchange) : Bool := exchange.received.message.rcode == 3

/-- The response has an alias of the name being resolved, which the loop follows. -/
def Exchange.aliases (key : QueryKey) (exchange : Exchange) : Bool :=
  match exchange.kind key with
  | .cname record _ =>
      match record.rdata with
      | .cname _ => true
      | _ => false
  | .dname record => record.redirects exchange.currentName
  | _ => false

/-- An alias that sends the loop to a name is one that it follows. -/
theorem Exchange.aliases_of_target {exchange : Exchange} {key : QueryKey} {target : Name}
    (sends : (exchange.kind key).target? exchange.currentName = some target) :
    exchange.aliases key = true := by
  unfold Exchange.aliases
  cases kind : exchange.kind key with
  | cname record rrsigs =>
      rw [kind] at sends
      unfold ResponseKind.target? at sends
      dsimp only at sends ⊢
      cases data : record.rdata with
      | cname other => rfl
      | _ =>
          rw [data] at sends
          cases sends
  | dname record =>
      rw [kind] at sends
      unfold ResponseKind.target? at sends
      dsimp only [Record.redirects] at sends ⊢
      cases data : record.rdata with
      | dname other =>
          rw [data] at sends
          exact Option.isSome_of_eq_some sends
      | _ =>
          rw [data] at sends
          cases sends
  | _ =>
      rw [kind] at sends
      cases sends

theorem Exchange.kind_of_denies {exchange : Exchange} (key : QueryKey)
    (denies : exchange.denies = true) :
    exchange.kind key = .negative .NXDOMAIN exchange.received.message.authoritySoa := by
  have missing : exchange.received.message.rcode = 3 := beq_iff_eq.mp denies
  rw [Exchange.kind, classifyResponse, if_pos missing]

/-- Only a denial is taken as NXDOMAIN. -/
theorem Exchange.denies_of_kind {exchange : Exchange} {key : QueryKey} {rcode : Rcode}
    {soa : Option Record} (classified : exchange.kind key = .negative rcode soa)
    (missing : rcode.isNxdomain = true) : exchange.denies = true := by
  unfold Exchange.kind classifyResponse at classified
  by_cases denied : exchange.received.message.rcode = 3
  · exact beq_iff_eq.mpr denied
  · rw [if_neg denied] at classified
    dsimp only at classified
    split at classified
    · cases classified
    · split at classified
      · cases classified
      · cases classified
      · split at classified
        · cases classified
          cases missing
        · split at classified <;> cases classified

/-- The resolution put the name into the store of missing names. -/
def WalkState.FilesMissing (state : WalkState Score Stability) (name : Name) : Prop :=
  ∃ filing ∈ state.filings, filing.place = .nx name

theorem WalkState.filesMissing_file {state : WalkState Score Stability} {filings : List Filing}
    {cache : SemanticCache Score Stability} {name : Name} :
    (WalkState.file { state with cache := cache } filings).FilesMissing name ↔
      state.FilesMissing name ∨ ∃ filing ∈ filings, filing.place = .nx name := by
  constructor
  · rintro ⟨filing, member, placed⟩
    rcases List.mem_append.mp member with earlier | latest
    · exact .inl ⟨filing, earlier, placed⟩
    · exact .inr ⟨filing, latest, placed⟩
  · rintro (⟨filing, member, placed⟩ | ⟨filing, member, placed⟩)
    · exact ⟨filing, List.mem_append_left _ member, placed⟩
    · exact ⟨filing, List.mem_append_right _ member, placed⟩

theorem WalkState.filesMissing_cacheNxdomain {state : WalkState Score Stability} {now : Ts}
    {stored : Name} {rcode : Rcode} {soa : Option Sourced} {soaTtl : UInt32} {source : Option Nat}
    {name : Name} :
    (state.cacheNxdomain now stored rcode soa soaTtl source).FilesMissing name ↔
      state.FilesMissing name ∨ name = stored := by
  rw [WalkState.cacheNxdomain, filesMissing_file]
  refine or_congr_right ⟨?_, ?_⟩
  · rintro ⟨filing, member, placed⟩
    rcases List.mem_cons.mp member with rfl | member
    · exact (Place.nx.inj placed).symm
    · obtain ⟨record, -, rfl⟩ := List.mem_map.mp member
      exact (Place.nx.inj placed).symm
  · rintro rfl
    exact ⟨_, List.mem_cons_self, rfl⟩

/-- The turn of an exchange puts no name but the one asked for into the store,
and that only when the answer holds for everyone. -/
theorem FiledBy.missing {key : QueryKey} {exchange : Exchange} {kind : ResponseKind} {fact : Fact}
    {name : Name} (filed : FiledBy key exchange kind fact (.nx name)) :
    (∃ rcode soa, kind = .negative rcode soa) ∧ name = exchange.queryName ∧
      answerPartition key.ecs exchange.scope = none := by
  cases filed with
  | soaCached placed =>
      cases placed with
      | nx shared => exact ⟨⟨_, _, rfl⟩, rfl, shared⟩
  | nxdomain _ placed =>
      cases placed with
      | nx shared => exact ⟨⟨_, _, rfl⟩, rfl, shared⟩
  | nodata _ placed =>
      cases placed with
      | nx shared => exact ⟨⟨_, _, rfl⟩, rfl, shared⟩

/-! ## One turn -/

/-- No response was a denial yet, and no name was put into the store. -/
structure WalkState.Undenied (state : WalkState Score Stability) : Prop where
  exchanges : ∀ exchange ∈ state.exchanges, exchange.denies = false
  filings : ∀ name, ¬ state.FilesMissing name

/-- The latest response is the only denial: it decided the outcome, and no other
name than the one it is about was put into the store. -/
structure WalkState.DeniedBy (key : QueryKey) (state : WalkState Score Stability)
    (last : Exchange) : Prop where
  denies : last.denies = true
  latest : state.exchanges.getLast? = some last
  only : ∀ exchange ∈ state.exchanges, exchange.denies = true → exchange = last
  rcode : state.rcode.isNxdomain = true
  filings : ∀ name, state.FilesMissing name →
    name = last.queryName ∧ answerPartition key.ecs last.scope = none

/-- Where an alias was followed, one was followed for the name of the query. -/
def AliasedFirst (key : QueryKey) (exchanges : List Exchange) : Prop :=
  ∀ exchange ∈ exchanges, exchange.aliases key = true →
    ∃ first ∈ exchanges, first.aliases key = true ∧ first.currentName = key.name

/-- A walk that goes on is about the name of the query until an alias is
followed. -/
structure WalkState.Chasing (key : QueryKey) (state : WalkState Score Stability) : Prop where
  undenied : state.Undenied
  aliased : AliasedFirst key state.exchanges
  unaliased : (∀ exchange ∈ state.exchanges, exchange.aliases key = false) →
    state.currentName = key.name

/-- A walk that ended, without a denial or on one. -/
structure WalkState.Chased (key : QueryKey) (state : WalkState Score Stability) : Prop where
  aliased : AliasedFirst key state.exchanges
  settled : state.Undenied ∨ ∃ last, state.DeniedBy key last

/-- What a walk has to do with denials and aliases, by how far it got. -/
def Progress.Chased (key : QueryKey) : Progress Score Stability → Prop
  | .running state => state.Chasing key
  | .finished state => state.Chased key
  | .failed _ state => AliasedFirst key state.exchanges ∧ state.Undenied

theorem WalkState.Chasing.start (engine : EngineConfig) (key : QueryKey)
    (cache : SemanticCache Score Stability) (budget : FetchBudget) :
    (WalkState.start engine key cache budget).Chasing key where
  undenied := ⟨by simp [WalkState.start], by simp [WalkState.start, WalkState.FilesMissing]⟩
  aliased := by simp [AliasedFirst, WalkState.start]
  unaliased _ := rfl

/-- The first alias is that of the name of the query. -/
theorem WalkState.Chasing.aliased_concat {key : QueryKey} {state : WalkState Score Stability}
    {exchange : Exchange} (chasing : state.Chasing key)
    (about : exchange.currentName = state.currentName) :
    AliasedFirst key (state.exchanges ++ [exchange]) := by
  intro other member aliases
  by_cases earlier : ∃ found ∈ state.exchanges, found.aliases key = true
  · obtain ⟨found, exchanged, followed⟩ := earlier
    obtain ⟨first, among, firstAliases, named⟩ := chasing.aliased found exchanged followed
    exact ⟨first, List.mem_append_left _ among, firstAliases, named⟩
  · have none : ∀ found ∈ state.exchanges, found.aliases key = false := by
      intro found exchanged
      by_contra followed
      exact earlier ⟨found, exchanged, Bool.not_eq_false _ ▸ followed⟩
    rcases List.mem_append.mp member with exchanged | latest
    · rw [none other exchanged] at aliases
      cases aliases
    · rw [List.mem_singleton.mp latest] at aliases
      exact ⟨exchange, List.mem_append_right _ (List.mem_singleton_self _), aliases,
        about.trans (chasing.unaliased none)⟩

namespace Turn

open WalkState (Adds)

variable {state : WalkState Score Stability} {key : QueryKey} {engine : EngineConfig} {now : Ts}

section Caching

variable [LinearOrder Score] {scoring : Scoring Score Stability Inputs}
  {turn : Turn Score Stability Inputs}

/-- A denial ends the walk. -/
theorem receive_denied {queryName : Name} {received : Received}
    (denies : (state.exchange queryName received).denies = true) :
    ∃ after, turn.receive scoring engine key now queryName received state = .finished after ∧
      after.rcode.isNxdomain = true := by
  rw [receive_eq, Exchange.kind_of_denies key denies]
  refine ⟨_, rfl, ?_⟩
  rw [cacheMissing_eq.1, (concludeNegative_eq _ _ _).1]
  rfl

/-- An answer of no data leaves the store of missing names alone. -/
theorem negativeArm_nodata {rcode : Rcode} {soa : Option Record} {queryName : Name}
    (present : rcode.isNxdomain = false) :
    Adds (fun filing => ∀ name, filing.place ≠ .nx name) state
      (turn.negativeArm scoring key now rcode soa queryName state).state := by
  have cached : Adds (fun filing => ∀ name, filing.place ≠ .nx name) state
      (cachedNodata scoring key now turn rcode soa queryName state) := by
    refine .cacheNegative ?_ ?_
    · intro name elsewhere
      cases elsewhere
    · intro record _ name elsewhere
      cases elsewhere
  rcases negativeArm_cases scoring key now turn rcode soa queryName state with
    ⟨missing, -⟩ | ⟨-, ⟨-, deepened⟩ | ⟨-, ended⟩⟩
  · cases present.symm.trans missing
  · rw [deepened]
    exact cached.trans (.of_eq rfl rfl rfl rfl rfl rfl rfl)
  · rw [ended]
    refine cached.trans (concludeNegative_allowed ?_)
    intro record _ name elsewhere
    cases elsewhere

/-- Only the turn of a denial puts a name into the store of missing names, and
only the name that was asked for. -/
theorem receive_filesMissing {queryName name : Name} {received : Received}
    (filed : (turn.receive scoring engine key now queryName received state).state.FilesMissing
      name) :
    state.FilesMissing name ∨
      (state.exchange queryName received).denies = true ∧ name = queryName ∧
        answerPartition key.ecs (state.exchange queryName received).scope = none := by
  obtain ⟨filing, member, placed⟩ := filed
  rcases receive_adds.filings filing member with earlier | ⟨-, arm⟩
  · exact .inl ⟨filing, earlier, placed⟩
  · rw [placed] at arm
    obtain ⟨⟨rcode, soa, classified⟩, asked, shared⟩ := arm.missing
    cases missing : rcode.isNxdomain with
    | true => exact .inr ⟨Exchange.denies_of_kind classified missing, asked, shared⟩
    | false =>
        rw [receive_eq, classified] at member
        rcases (negativeArm_nodata missing).filings filing member with earlier | elsewhere
        · exact .inl ⟨filing, earlier, placed⟩
        · exact absurd placed (elsewhere name)

/-- A turn goes on with another name only where it follows an alias. -/
theorem receive_currentName {queryName : Name} {received : Received}
    {next : WalkState Score Stability}
    (running : turn.receive scoring engine key now queryName received state = .running next) :
    next.currentName = state.currentName ∨
      (state.exchange queryName received).aliases key = true := by
  cases receive_running running with
  | redirected target => exact .inr (Exchange.aliases_of_target target)
  | descended current => exact .inl current
  | lengthened _ current => exact .inl current

/-- What acting on a response does to a walk that goes on. -/
theorem receive_chased {queryName : Name} {received : Received} (chasing : state.Chasing key) :
    (turn.receive scoring engine key now queryName received state).Chased key := by
  have exchanges : (turn.receive scoring engine key now queryName received state).state.exchanges =
      state.exchanges ++ [state.exchange queryName received] := receive_adds.exchanges
  have aliased : AliasedFirst key (state.exchanges ++ [state.exchange queryName received]) :=
    chasing.aliased_concat rfl
  have filed : ∀ name, (turn.receive scoring engine key now queryName received
      state).state.FilesMissing name → (state.exchange queryName received).denies = true ∧
        name = queryName ∧
        answerPartition key.ecs (state.exchange queryName received).scope = none :=
    fun name found => (receive_filesMissing found).resolve_left (chasing.undenied.filings name)
  cases denied : (state.exchange queryName received).denies with
  | true =>
      obtain ⟨after, finished, missing⟩ := receive_denied denied
      rw [finished] at exchanges filed ⊢
      change after.exchanges = _ at exchanges
      refine ⟨exchanges ▸ aliased, .inr ⟨state.exchange queryName received, denied, ?_, ?_, missing,
        fun name found => (filed name found).2⟩⟩
      · rw [exchanges, List.getLast?_concat]
      · intro exchange member denies
        rw [exchanges] at member
        rcases List.mem_append.mp member with earlier | latest
        · rw [chasing.undenied.exchanges exchange earlier] at denies
          cases denies
        · exact List.mem_singleton.mp latest
  | false =>
      have undenied : (turn.receive scoring engine key now queryName received
          state).state.Undenied := by
        refine ⟨fun exchange member => ?_, fun name found => ?_⟩
        · rw [exchanges] at member
          rcases List.mem_append.mp member with earlier | latest
          · exact chasing.undenied.exchanges exchange earlier
          · rw [List.mem_singleton.mp latest, denied]
        · have denies := (filed name found).1
          rw [denied] at denies
          cases denies
      cases received : turn.receive scoring engine key now queryName received state with
      | running next =>
          rw [received] at exchanges undenied
          change next.exchanges = _ at exchanges
          refine ⟨undenied, exchanges ▸ aliased, fun unaliased => ?_⟩
          rw [exchanges] at unaliased
          rcases receive_currentName received with same | followed
          · rw [same]
            exact chasing.unaliased fun exchange member =>
              unaliased exchange (List.mem_append_left _ member)
          · rw [unaliased _ (List.mem_append_right _ (List.mem_singleton_self _))] at followed
            cases followed
      | finished next =>
          rw [received] at exchanges undenied
          change next.exchanges = _ at exchanges
          exact ⟨exchanges ▸ aliased, .inl undenied⟩
      | failed error next =>
          rw [received] at exchanges undenied
          change next.exchanges = _ at exchanges
          exact ⟨exchanges ▸ aliased, undenied⟩

theorem take_chased (scoring : Scoring Score Stability Inputs) (engine : EngineConfig) (now : Ts)
    (turn : Turn Score Stability Inputs) (chasing : state.Chasing key) :
    (turn.take scoring engine key now state).Chased key := by
  obtain ⟨cache, minimized, budget, ⟨error, failed⟩ | ⟨followed, rrset, ended⟩ |
    ⟨name, received, acted⟩⟩ := take_cases scoring engine key now turn state
  · rw [failed]
    exact ⟨chasing.aliased, { chasing.undenied with }⟩
  · rw [ended]
    refine ⟨chasing.aliased, .inl ⟨chasing.undenied.exchanges, ?_⟩⟩
    rintro name ⟨filing, member, placed⟩
    rcases List.mem_append.mp member with earlier | cached
    · exact chasing.undenied.filings name ⟨filing, earlier, placed⟩
    · obtain ⟨record, -, rfl⟩ := List.mem_map.mp cached
      cases placed
  · rw [acted]
    exact receive_chased { chasing with undenied := { chasing.undenied with } }

end Caching

end Turn

/-- What a whole resolution has to do with denials: there is at most one, and with
one that holds for everyone the name of the query is put into the store. -/
structure WalkState.Denials (key : QueryKey) (state : WalkState Score Stability) : Prop where
  aliased : AliasedFirst key state.exchanges
  single : ∀ exchange ∈ state.exchanges, exchange.denies = true →
    ∀ other ∈ state.exchanges, other.denies = true → other = exchange
  filed : ∀ name, state.FilesMissing name → ∃ exchange ∈ state.exchanges,
    exchange.denies = true ∧ answerPartition key.ecs exchange.scope = none ∧
      (name = exchange.queryName ∨ name = key.name)
  recorded : ∀ exchange ∈ state.exchanges, exchange.denies = true →
    answerPartition key.ecs exchange.scope = none → state.FilesMissing key.name

theorem WalkState.Undenied.denials {key : QueryKey} {state : WalkState Score Stability}
    (undenied : state.Undenied) (aliased : AliasedFirst key state.exchanges) : state.Denials key where
  aliased := aliased
  single exchange member denies := by
    rw [undenied.exchanges exchange member] at denies
    cases denies
  filed name found := absurd found (undenied.filings name)
  recorded exchange member denies := by
    rw [undenied.exchanges exchange member] at denies
    cases denies

/-- The end of a walk adds the name of the query when the outcome is that it does
not exist, for everyone. -/
theorem WalkState.Chased.denials {key : QueryKey} {state after : WalkState Score Stability}
    (chased : state.Chased key) (closed : state.Closed key)
    (exchanges : after.exchanges = state.exchanges)
    (filed : ∀ name, after.FilesMissing name ↔ state.FilesMissing name ∨
      state.rcode.isNxdomain = true ∧
        answerPartition key.ecs (state.exchanges.getLast?.bind Exchange.scope) = none ∧
        name = key.name) :
    after.Denials key := by
  rcases chased.settled with undenied | ⟨last, denied⟩
  · have unfiled : ∀ name, ¬ after.FilesMissing name := by
      intro name found
      rcases (filed name).mp found with earlier | ⟨missing, -⟩
      · exact undenied.filings name earlier
      · obtain ⟨last, rcode, soa, latest, classified, nxdomain, -⟩ := closed.nxdomain missing
        have denies := Exchange.denies_of_kind classified nxdomain
        rw [undenied.exchanges last (List.mem_of_getLast? latest)] at denies
        cases denies
    have still : after.Undenied := ⟨exchanges ▸ undenied.exchanges, unfiled⟩
    exact still.denials (exchanges ▸ chased.aliased)
  · have member : last ∈ state.exchanges := List.mem_of_getLast? denied.latest
    have scope : state.exchanges.getLast?.bind Exchange.scope = last.scope := by
      rw [denied.latest]
      rfl
    refine ⟨exchanges ▸ chased.aliased, ?_, fun name found => ?_, ?_⟩
    · rw [exchanges]
      intro exchange exchanged denies other among otherDenies
      rw [denied.only exchange exchanged denies, denied.only other among otherDenies]
    · rw [exchanges]
      rcases (filed name).mp found with earlier | ⟨-, shared, queried⟩
      · obtain ⟨asked, shared⟩ := denied.filings name earlier
        exact ⟨last, member, denied.denies, shared, .inl asked⟩
      · exact ⟨last, member, denied.denies, scope ▸ shared, .inr queried⟩
    · rw [exchanges]
      intro exchange exchanged denies shared
      rw [denied.only exchange exchanged denies] at shared
      exact (filed key.name).mpr (.inr ⟨denied.rcode, scope.symm ▸ shared, rfl⟩)

section Resolve

variable [LinearOrder Score]

/-- Every walk ends on its first denial. -/
theorem walk_chased (scoring : Scoring Score Stability Inputs) (engine : EngineConfig)
    {key : QueryKey} (now : Ts) (turns : List (Turn Score Stability Inputs))
    {state : WalkState Score Stability} (chasing : state.Chasing key) :
    (walk scoring engine key now turns state).Chased key := by
  induction turns generalizing state with
  | nil => exact chasing
  | cons turn turns inductionHypothesis =>
      have kept := Turn.take_chased scoring engine now turn chasing
      rw [walk]
      cases taken : turn.take scoring engine key now state with
      | running next =>
          rw [taken] at kept
          exact inductionHypothesis kept
      | finished next =>
          rw [taken] at kept
          exact kept
      | failed error next =>
          rw [taken] at kept
          exact kept

/-! ## The end of a resolution -/

variable {scoring : Scoring Score Stability Inputs} {engine : EngineConfig} {key : QueryKey}
  {res : Resolution} {inputs : Inputs} {now : Ts} {state : WalkState Score Stability}

theorem WalkState.filesMissing_cachePositive {cacheKey : CacheKey} {rrset : RrSet}
    {content : List Sourced} {validated : Bool} {name : Name} :
    (state.cachePositive scoring now cacheKey rrset content inputs validated).FilesMissing name ↔
      state.FilesMissing name := by
  rw [WalkState.cachePositive, filesMissing_file, or_iff_left]
  rintro ⟨filing, member, placed⟩
  obtain ⟨record, -, rfl⟩ := List.mem_map.mp member
  cases placed

theorem WalkState.filesMissing_cacheNegative {cacheKey : CacheKey} {rcode : Rcode}
    {soa : Option Sourced} {soaTtl : UInt32} {fact : Fact} {source : Option Nat} {name : Name} :
    (state.cacheNegative scoring now cacheKey rcode soa soaTtl inputs fact source).FilesMissing
      name ↔ state.FilesMissing name := by
  rw [WalkState.cacheNegative, filesMissing_file, or_iff_left]
  rintro ⟨filing, member, placed⟩
  rcases List.mem_cons.mp member with rfl | member
  · cases placed
  · obtain ⟨record, -, rfl⟩ := List.mem_map.mp member
    cases placed

theorem foldl_cacheGroup_filesMissing {groups : List ((Name × RrType) × List Sourced)}
    {name : Name} :
    (groups.foldl (cacheGroup scoring engine key res inputs now) state).FilesMissing name ↔
      state.FilesMissing name := by
  induction groups generalizing state with
  | nil => rfl
  | cons group groups inductionHypothesis =>
      refine inductionHypothesis.trans ?_
      unfold cacheGroup
      split_ifs
      · rfl
      · cases RrSet.fromRecords (group.2.map Sourced.record) engine.maxTtlCap with
        | error error => rfl
        | ok set => exact WalkState.filesMissing_cachePositive

/-- The end of a resolution puts at most the name of the resolution into the
store: when it does not exist, for everyone. -/
theorem cacheResolution_filesMissing {name : Name} :
    (cacheResolution scoring engine key res inputs now state).FilesMissing name ↔
      state.FilesMissing name ∨ res.rcode.isNxdomain = true ∧
        answerPartition key.ecs res.ecsScope = none ∧ name = res.name := by
  unfold cacheResolution cacheOutcome
  dsimp only
  cases missing : res.rcode.isNxdomain with
  | true =>
      rw [if_pos rfl]
      cases partition : answerPartition key.ecs res.ecsScope with
      | none =>
          dsimp only
          rw [WalkState.filesMissing_cacheNxdomain, foldl_cacheGroup_filesMissing]
          simp
      | some ecs =>
          dsimp only
          rw [WalkState.filesMissing_cacheNegative, foldl_cacheGroup_filesMissing]
          simp
  | false =>
      rw [if_neg Bool.false_ne_true]
      split_ifs
      · rw [WalkState.filesMissing_cacheNegative, foldl_cacheGroup_filesMissing]
        simp
      · rw [foldl_cacheGroup_filesMissing]
        simp

theorem cacheResolution_exchanges {exchanges : List Exchange} (traced : res.From key exchanges)
    (same : state.exchanges = exchanges) :
    (cacheResolution scoring engine key res inputs now state).exchanges = exchanges :=
  (cacheResolution_adds traced same).exchanges.trans same

theorem resolveUncached_denials (scoring : Scoring Score Stability Inputs)
    (engine : EngineConfig) (key : QueryKey) (servedAt now : Ts)
    (turns : List (Turn Score Stability Inputs)) (closing : Closing Score Stability Inputs)
    (cache : SemanticCache Score Stability) (budget : FetchBudget) :
    (resolveUncached scoring engine key servedAt now turns closing cache budget).state.Denials
      key := by
  have walked : (walk scoring engine key now turns (.start engine key cache budget)).Sound key :=
    walk_sound scoring engine now turns (.start engine cache budget) (.start cache budget)
  have chased := walk_chased scoring engine now turns
    (WalkState.Chasing.start engine key cache budget)
  unfold resolveUncached
  cases ended : walk scoring engine key now turns (.start engine key cache budget) with
  | running state =>
      rw [ended] at chased
      exact chased.undenied.denials chased.aliased
  | failed error state =>
      rw [ended] at chased
      exact chased.2.denials chased.1
  | finished state =>
      rw [ended] at chased walked
      have traced : (state.resolution key now).From key state.exchanges :=
        WalkState.Closed.resolution_from walked.settled walked.provenance
      have scope : state.ecsScope = state.exchanges.getLast?.bind Exchange.scope :=
        walked.provenance.ecsScope
      refine WalkState.Chased.denials chased walked.settled
        (cacheResolution_exchanges { traced with } rfl) fun name => ?_
      rw [← scope]
      exact cacheResolution_filesMissing

/-- Whoever is in the store belongs there: the names the resolution puts into it
were asked for and denied, and the loop followed no alias of them. -/
structure WalkState.MissingKnown (key : QueryKey) (state : WalkState Score Stability) : Prop where
  denied : ∀ name, state.FilesMissing name →
    ∃ exchange ∈ state.exchanges, exchange.denies = true ∧ exchange.queryName = name
  unaliased : ∀ name, state.FilesMissing name →
    ∀ exchange ∈ state.exchanges, exchange.aliases key = true → exchange.currentName ≠ name

/-- The names a resolution puts into the store of missing names were denied
themselves and have no alias, exactly when any denial that holds for everyone
was about the name of the query and no alias was followed. -/
theorem missing_known_iff (scoring : Scoring Score Stability Inputs)
    (engine : EngineConfig) (key : QueryKey) (servedAt now : Ts)
    (turns : List (Turn Score Stability Inputs)) (closing : Closing Score Stability Inputs)
    (cache : SemanticCache Score Stability) (budget : FetchBudget) :
    (resolveUncached scoring engine key servedAt now turns closing cache
        budget).state.MissingKnown key ↔
      ∀ exchange ∈ (resolveUncached scoring engine key servedAt now turns closing cache
          budget).state.exchanges,
        exchange.denies = true → answerPartition key.ecs exchange.scope = none →
        exchange.queryName = key.name ∧
        ∀ other ∈ (resolveUncached scoring engine key servedAt now turns closing cache
          budget).state.exchanges, other.aliases key = false := by
  have denials := resolveUncached_denials scoring engine key servedAt now turns closing cache
    budget
  generalize (resolveUncached scoring engine key servedAt now turns closing cache
    budget).state = state at denials ⊢
  constructor
  · intro known exchange member denies shared
    have recorded : state.FilesMissing key.name :=
      denials.recorded exchange member denies shared
    refine ⟨?_, fun other among => ?_⟩
    · obtain ⟨asked, exchanged, otherDenies, queried⟩ := known.denied key.name recorded
      rw [← denials.single exchange member denies asked exchanged otherDenies]
      exact queried
    · by_contra followed
      obtain ⟨first, firstMember, aliases, named⟩ :=
        denials.aliased other among (Bool.not_eq_false _ ▸ followed)
      exact known.unaliased key.name recorded first firstMember aliases named
  · intro own
    refine ⟨fun name found => ?_, fun name found other among aliases => ?_⟩
    · obtain ⟨exchange, member, denies, shared, rfl | rfl⟩ := denials.filed name found
      · exact ⟨exchange, member, denies, rfl⟩
      · exact ⟨exchange, member, denies, (own exchange member denies shared).1⟩
    · obtain ⟨exchange, member, denies, shared, -⟩ := denials.filed name found
      rw [(own exchange member denies shared).2 other among] at aliases
      cases aliases

/-- A forwarder is asked for the name of the query itself: what its response puts
into the store is that name, and the response denied it. -/
theorem forwarded_missing_denied {resp : Message} {name : Name}
    (filed : (cacheResolution scoring engine key (responseToResolution key resp) inputs now
      state).FilesMissing name) :
    state.FilesMissing name ∨ resp.rcode = 3 ∧ name = key.name := by
  rcases cacheResolution_filesMissing.mp filed with earlier | ⟨missing, -, named⟩
  · exact .inl earlier
  · refine .inr ⟨?_, named⟩
    change Rcode.isNxdomain (if resp.rcode.toNat < 256 then ⟨resp.rcode.toUInt8⟩ else .SERVFAIL) =
      true at missing
    split_ifs at missing with small
    · have octet : resp.rcode.toUInt8 = 3 := beq_iff_eq.mp missing
      have low : resp.rcode.toNat % 256 = 3 := by
        rw [← UInt16.toNat_toUInt8, octet]
        rfl
      rw [Nat.mod_eq_of_lt small] at low
      exact UInt16.toNat_inj.mp low
    · cases missing

end Resolve

/-! ## An alias to nowhere -/

/-- `www.com` is an alias of `ftp.com`. -/
def wwwAlias : Received where
  message := wwwReply [⟨⟨[3, 119, 119, 119, 3, 99, 111, 109, 0]⟩, .CNAME, .IN, 3600,
    .cname ⟨[3, 102, 116, 112, 3, 99, 111, 109, 0]⟩⟩] [] [] none
  parsed := ⟨[0, 1, 128, 0, 0, 1, 0, 1, 0, 0, 0, 0, 3, 119, 119, 119, 3, 99, 111, 109, 0, 0, 1, 0, 1,
    192, 12, 0, 5, 0, 1, 0, 0, 14, 16, 0, 6, 3, 102, 116, 112, 192, 16], by decide⟩

/-- `ftp.com` does not exist. -/
def ftpDenied : Received where
  message := ⟨1, ⟨true, .QUERY, false, false, false, false, false, false, .NXDOMAIN⟩,
    [⟨⟨[3, 102, 116, 112, 3, 99, 111, 109, 0]⟩, .A, .IN⟩], [],
    [⟨⟨[3, 99, 111, 109, 0]⟩, .SOA, .IN, 3600, .soa .root .root 1 2 3 4 5⟩], [], none⟩
  parsed := ⟨[0, 1, 128, 3, 0, 1, 0, 0, 0, 1, 0, 0, 3, 102, 116, 112, 3, 99, 111, 109, 0, 0, 1, 0, 1,
    192, 16, 0, 6, 0, 1, 0, 0, 14, 16, 0, 22, 0, 0,
    0, 0, 0, 1, 0, 0, 0, 2, 0, 0, 0, 3, 0, 0, 0, 4, 0, 0, 0, 5], by decide⟩

instance (state : WalkState Score Stability) (name : Name) : Decidable (state.FilesMissing name) :=
  inferInstanceAs (Decidable (∃ filing ∈ state.filings, filing.place = .nx name))

/-- `www.com`, whose alias was followed, ends up among the missing names. -/
theorem aliased_name_filed_missing :
    ¬ (runOn (wwwQuery none) [comReferral, wwwAlias, ftpDenied]).state.MissingKnown
      (wwwQuery none) := by
  intro known
  have filed : (runOn (wwwQuery none) [comReferral, wwwAlias, ftpDenied]).state.FilesMissing
      (wwwQuery none).name := by
    decide
  have followed : ∃ exchange ∈ (runOn (wwwQuery none)
      [comReferral, wwwAlias, ftpDenied]).state.exchanges,
      exchange.aliases (wwwQuery none) = true ∧ exchange.currentName = (wwwQuery none).name := by
    decide
  obtain ⟨exchange, member, aliases, named⟩ := followed
  exact known.unaliased _ filed exchange member aliases named

end RecurseX
