import RecurseX.Resolver.Filing

/-!
# Where the facts of a resolution come from

`Provenance` is the invariant of the loop: every fact filed goes back to an
exchange, and the arm of that exchange filed it. `Progress.Sound` adds what the
caching at the end relies on; one turn keeps it, so every walk does.
-/

namespace RecurseX

open Library Std

variable {Score Stability Inputs : Type}

/-- A filing that names an exchange was made by the arm of that exchange. -/
def Filing.Known (key : QueryKey) (exchanges : List Exchange) (filing : Filing) : Prop :=
  ∀ index, filing.source = some index → ∃ exchange, exchanges[index]? = some exchange ∧
    FiledBy key exchange (exchange.kind key) filing.fact filing.place

section Known

variable {key : QueryKey} {exchanges : List Exchange} {exchange : Exchange} {filing : Filing}

theorem Filing.Known.later (known : filing.Known key exchanges) :
    filing.Known key (exchanges ++ [exchange]) := by
  intro index sourced
  obtain ⟨found, located, filed⟩ := known index sourced
  have inside : index < exchanges.length := (List.getElem?_eq_some_iff.mp located).1
  exact ⟨found, (List.getElem?_append_left inside).trans located, filed⟩

theorem Filing.known_of_source_none (cached : filing.source = none) :
    filing.Known key exchanges := by
  intro index sourced
  rw [cached] at sourced
  cases sourced

/-- What the turn of the latest exchange files. -/
theorem FiledFrom.known (filed : FiledFrom key exchange (exchange.kind key)
    (some exchanges.length) filing) : filing.Known key (exchanges ++ [exchange]) := by
  intro index sourced
  rw [filed.1] at sourced
  obtain rfl := Option.some.inj sourced
  exact ⟨exchange, List.getElem?_concat_length, filed.2⟩

end Known

/-- Everything in the state goes back to an exchange or to the cache, and the
scope is the one the latest exchange declared. -/
structure WalkState.Provenance (key : QueryKey) (state : WalkState Score Stability) : Prop where
  filings : ∀ filing ∈ state.filings, filing.Known key state.exchanges
  answers : ∀ record ∈ state.answers, (record.filed .resolution).Known key state.exchanges
  rrsigs : ∀ record ∈ state.rrsigs, (record.filed .resolution).Known key state.exchanges
  authorities : ∀ record ∈ state.authorities, (record.filed .resolution).Known key state.exchanges
  cachedRrsigs : ∀ record ∈ state.cachedRrsigs, record.source = none
  ecsScope : state.ecsScope = state.exchanges.getLast?.bind Exchange.scope
  named : ∀ exchange ∈ state.exchanges, exchange.currentName.Canonical ∧ exchange.zone.Canonical

namespace WalkState.Provenance

variable {key : QueryKey} {state after : WalkState Score Stability} {exchange : Exchange}

theorem start (engine : EngineConfig) (cache : SemanticCache Score Stability)
    (budget : FetchBudget) : (WalkState.start engine key cache budget).Provenance key := by
  constructor <;> simp [WalkState.start]

theorem adds {Filed : Filing → Prop} (provenance : state.Provenance key)
    (added : Adds Filed state after)
    (known : ∀ filing, Filed filing → filing.Known key state.exchanges) :
    after.Provenance key where
  filings filing member := added.exchanges ▸
    (added.filings filing member).elim (provenance.filings filing) (known filing)
  answers record member := added.exchanges ▸
    (added.answers record member).elim (provenance.answers record) (known _)
  rrsigs record member := added.exchanges ▸
    (added.rrsigs record member).elim (provenance.rrsigs record) (known _)
  authorities record member := added.exchanges ▸
    (added.authorities record member).elim (provenance.authorities record) (known _)
  cachedRrsigs record member := provenance.cachedRrsigs record (added.cachedRrsigs ▸ member)
  ecsScope := by rw [added.ecsScope, added.exchanges, provenance.ecsScope]
  named := added.exchanges ▸ provenance.named

theorem receiving (provenance : state.Provenance key)
    (named : exchange.currentName.Canonical ∧ exchange.zone.Canonical) :
    (state.receiving exchange).Provenance key where
  filings filing member := (provenance.filings filing member).later
  answers record member := (provenance.answers record member).later
  rrsigs record member := (provenance.rrsigs record member).later
  authorities record member := (provenance.authorities record member).later
  cachedRrsigs := provenance.cachedRrsigs
  ecsScope := by simp [WalkState.receiving]
  named other member := by
    rcases List.mem_append.mp member with earlier | latest
    · exact provenance.named other earlier
    · rw [List.mem_singleton.mp latest]
      exact named

theorem endOnCached {rrset : RrSet} (provenance : state.Provenance key) :
    (Turn.endOnCached rrset state).Provenance key := by
  have fromCache : ∀ filing : Filing, filing.source = none → filing.Known key state.exchanges :=
    fun _ => Filing.known_of_source_none
  have signed : WalkState.Provenance key { state with cachedRrsigs :=
      state.cachedRrsigs ++ (rrset.rrsigs.map fun record => ⟨record, .rrsig, none⟩) } := by
    refine { provenance with cachedRrsigs := fun record member => ?_ }
    rcases List.mem_append.mp member with earlier | latest
    · exact provenance.cachedRrsigs record earlier
    · obtain ⟨_, _, rfl⟩ := List.mem_map.mp latest
      rfl
  refine signed.adds (Turn.capTtl_adds.trans (.appendAnswers ?_)) fromCache
  intro record member
  obtain ⟨_, _, rfl⟩ := List.mem_map.mp member
  rfl

end WalkState.Provenance

/-! ## What the end of a walk relies on -/

/-- A walk that goes on: no error yet, and it is still about the name of the
query unless an alias has been followed. -/
structure WalkState.Open (key : QueryKey) (state : WalkState Score Stability) : Prop where
  named : state.currentName.Canonical
  zoneNamed : state.zone.Canonical
  noError : state.rcode.isNxdomain = false
  unaliased : state.depth = 0 → state.currentName = key.name
  aliased : state.depth ≠ 0 → state.answers ≠ []

/-- The latest exchange was a negative answer. -/
def EndsNegative (key : QueryKey) (exchanges : List Exchange) (missing : Bool)
    (Asked : Exchange → Prop) : Prop :=
  ∃ last rcode soa, exchanges.getLast? = some last ∧
    last.kind key = .negative rcode soa ∧ rcode.isNxdomain = missing ∧ Asked last

/-- A walk that ended. An NXDOMAIN is the latest exchange's; a walk that ended
without answers ended on a NODATA answer for the name of the query. -/
structure WalkState.Closed (key : QueryKey) (state : WalkState Score Stability) : Prop where
  nxdomain : state.rcode.isNxdomain = true → EndsNegative key state.exchanges true fun _ => True
  nodata : state.rcode.isNxdomain = false → state.answers = [] →
    EndsNegative key state.exchanges false fun last => last.queryName = key.name

/-- What the course of a walk amounts to, by how far it got. -/
def Progress.Settled (key : QueryKey) : Progress Score Stability → Prop
  | .running state => state.Open key
  | .finished state => state.Closed key
  | .failed .. => True

/-- The invariant of a resolution. -/
structure Progress.Sound (key : QueryKey) (progress : Progress Score Stability) : Prop where
  provenance : progress.state.Provenance key
  settled : progress.Settled key

theorem Received.wellFormed (received : Received) : received.message.WellFormed := by
  obtain ⟨_, parsed⟩ := received.parsed
  exact Message.parse_wellFormed parsed

theorem synthesizeDnameCname_canonical {qname owner target synthesized : Name}
    (made : synthesizeDnameCname qname owner target = some synthesized) :
    synthesized.Canonical := by
  unfold synthesizeDnameCname at made
  dsimp only at made
  split_ifs at made
  split at made
  · rename_i decoded
    obtain rfl := Option.some.inj made
    exact fromWire_domainName decoded
  · cases made

/-- The zone of a referral is an owner name of the response. -/
theorem referral_canonical {key : QueryKey} {exchange : Exchange} {newZone : Name}
    {ns glue : List Record} (classified : exchange.kind key = .referral newZone ns glue) :
    newZone.Canonical := by
  have taken := exchange.kind_taken key
  rw [classified] at taken
  obtain ⟨_, nonempty, owned, _⟩ := taken
  obtain ⟨record, member⟩ := List.exists_mem_of_ne_nil ns nonempty
  obtain ⟨found, _, named⟩ := owned record member
  exact named ▸ (exchange.received.wellFormed.authorities record found).name

theorem WalkState.Closed.of_answers {key : QueryKey} {state : WalkState Score Stability}
    (noError : state.rcode.isNxdomain = false) (answered : state.answers ≠ []) :
    state.Closed key :=
  ⟨fun missing => absurd missing (noError ▸ Bool.false_ne_true),
    fun _ empty => absurd empty answered⟩

namespace Turn

open WalkState (Adds)

variable {state : WalkState Score Stability} {key : QueryKey} {exchange : Exchange}
  {engine : EngineConfig} {now : Ts} {records rrsigs ns glue : List Record} {record : Record}
  {rcode : Rcode} {newZone : Name}

theorem follow_open {target : Name} (noError : state.rcode.isNxdomain = false)
    (zoneNamed : state.zone.Canonical) (answered : state.answers ≠ [])
    (named : target.Canonical) : (state.follow engine target).Open key := by
  unfold WalkState.follow
  dsimp only
  split_ifs
  · exact ⟨named, ⟨.root, rfl⟩, noError, nofun, fun _ => answered⟩
  · exact ⟨named, zoneNamed, noError, nofun, fun _ => answered⟩

theorem answerArm_settled (running : state.Open key) :
    (answerArm records rrsigs state).Settled key := by
  rcases answerArm_cases records rrsigs state with
    ⟨error, refused⟩ | ⟨keep, ttl, -, nonempty, taken⟩
  · rw [refused]
    trivial
  · rw [taken]
    refine .of_answers running.noError ?_
    simp [WalkState.appendAnswers, WalkState.appendRrsigs, WalkState.file, WalkState.sourced,
      nonempty]

theorem appendAnswers_single_ne_nil (state : WalkState Score Stability) (answer : Sourced) :
    (state.appendAnswers [answer]).answers ≠ [] :=
  List.append_ne_nil_of_right_ne_nil _ (List.cons_ne_nil _ _)

theorem dnameArm_settled (running : state.Open key) :
    (dnameArm engine record state).Settled key := by
  rcases dnameArm_cases engine record state with
    ⟨error, refused⟩ | ⟨target, synthesized, -, made, followed⟩
  · rw [refused]
    trivial
  · rw [followed]
    exact follow_open running.noError running.zoneNamed (appendAnswers_single_ne_nil _ _)
      (synthesizeDnameCname_canonical made)

theorem emptyArm_settled {queryName : Name} (running : state.Open key) :
    (emptyArm queryName state).Settled key := by
  unfold emptyArm
  split_ifs
  · exact { running with }
  · trivial

theorem concludeNegative_eq (rcode : Rcode) (state : WalkState Score Stability)
    (soa : Option Sourced) :
    (concludeNegative rcode soa state).rcode = rcode ∧
      (concludeNegative rcode soa state).answers = state.answers ∧
      (concludeNegative rcode soa state).exchanges = state.exchanges := by
  unfold concludeNegative
  cases soa <;> exact ⟨rfl, rfl, rfl⟩

section Caching

variable [LinearOrder Score] {scoring : Scoring Score Stability Inputs}
  {turn : Turn Score Stability Inputs}

theorem cnameArm_settled (running : state.Open key) (wellFormed : record.WellFormed) :
    (turn.cnameArm scoring engine key now record rrsigs state).Settled key := by
  rcases cnameArm_cases scoring engine key now turn record rrsigs state with
    ⟨error, refused⟩ | ⟨target, pointed, followed⟩
  · rw [refused]
    trivial
  · have named : target.Canonical :=
      wellFormed.rdata.names target true (by simp [pointed, RData.pieces])
    rw [followed]
    exact follow_open running.noError running.zoneNamed (appendAnswers_single_ne_nil _ _) named

theorem cacheMissing_eq {conclusion : Rcode} {soa : Option Sourced} {queryName : Name} :
    (turn.cacheMissing scoring key now conclusion soa queryName state).rcode = state.rcode ∧
      (turn.cacheMissing scoring key now conclusion soa queryName state).exchanges =
        state.exchanges := by
  unfold cacheMissing
  dsimp only
  split <;> exact ⟨rfl, rfl⟩

theorem negativeArm_settled {soa : Option Record} {queryName : Name} (running : state.Open key)
    (latest : state.exchanges.getLast? = some exchange)
    (classified : exchange.kind key = .negative rcode soa)
    (asked : exchange.queryName = queryName) :
    (turn.negativeArm scoring key now rcode soa queryName state).Settled key := by
  rcases negativeArm_cases scoring key now turn rcode soa queryName state with
    ⟨missing, denied⟩ | ⟨present, ⟨-, deepened⟩ | ⟨whole, concluded⟩⟩
  · obtain ⟨concluded, -, exchanges⟩ := concludeNegative_eq rcode state
      (soa.map fun record => Sourced.mk record .soa state.source)
    rw [denied]
    refine ⟨fun _ => ⟨exchange, rcode, soa, ?_, classified, missing, trivial⟩, fun noError => ?_⟩
    · rw [cacheMissing_eq.2, exchanges, latest]
    · rw [cacheMissing_eq.1, concluded, missing] at noError
      cases noError
  · rw [deepened]
    exact { running with }
  · rw [concluded]
    refine ⟨fun found => ?_, fun _ empty => ⟨exchange, rcode, soa, ?_, classified, present, ?_⟩⟩
    · rw [(concludeNegative_eq rcode _ _).1, present] at found
      cases found
    · rw [(concludeNegative_eq rcode _ _).2.2]
      exact latest
    · -- Without answers no alias was followed, so the name asked is the query's.
      rw [(concludeNegative_eq rcode _ _).2.1] at empty
      have unaliased : state.depth = 0 := by
        by_contra followed
        exact running.aliased followed empty
      show exchange.queryName = key.name
      rw [asked, whole]
      exact running.unaliased unaliased

theorem cacheGlue_eq {inputs : Inputs} : ∃ cache filings,
    cacheGlue scoring engine key now newZone inputs state record =
      { state with cache := cache, filings := filings } := by
  unfold cacheGlue
  split_ifs
  · split
    · exact ⟨_, _, rfl⟩
    · exact ⟨_, _, rfl⟩
  · exact ⟨_, _, rfl⟩

theorem foldl_cacheGlue_eq (inputs : Inputs) (state : WalkState Score Stability) :
    ∃ cache filings, glue.foldl (cacheGlue scoring engine key now newZone inputs) state =
      { state with cache := cache, filings := filings } := by
  induction glue generalizing state with
  | nil => exact ⟨_, _, rfl⟩
  | cons record glue inductionHypothesis =>
      obtain ⟨cache, filings, first⟩ : ∃ cache filings,
          cacheGlue scoring engine key now newZone inputs state record =
            { state with cache := cache, filings := filings } := cacheGlue_eq
      rw [List.foldl_cons, first]
      exact inductionHypothesis _

/-- Caching a referral changes the cache and the history, and counts it. -/
theorem cachedReferral_eq (set : RrSet) : ∃ cache filings,
    cachedReferral scoring engine key now turn newZone ns glue state set =
      { state with
        referrals := state.referrals + 1
        cache := cache
        filings := filings } :=
  foldl_cacheGlue_eq _ _

theorem referralArm_settled (running : state.Open key) (named : newZone.Canonical) :
    (turn.referralArm scoring engine key now newZone ns glue state).Settled key := by
  rcases referralArm_cases scoring engine key now turn newZone ns glue state with
    ⟨error, refused⟩ | ⟨set, budget, _, _, ⟨error, refused⟩ | admitted⟩
  · rw [refused]
    trivial
  · rw [refused]
    trivial
  · obtain ⟨cache, filings, cached⟩ : ∃ cache filings,
        cachedReferral scoring engine key now turn newZone ns glue state set =
          { state with
            referrals := state.referrals + 1
            cache := cache
            filings := filings } := cachedReferral_eq set
    rw [admitted, cached]
    unfold descend
    dsimp only
    split_ifs
    · trivial
    · exact { running with zoneNamed := named }
    · trivial
    · exact { running with zoneNamed := named }

/-- A turn that receives a response keeps the invariant. -/
theorem receive_sound {queryName : Name} {received : Received} (provenance : state.Provenance key)
    (running : state.Open key) :
    (turn.receive scoring engine key now queryName received state).Sound key := by
  have acting : (state.receiving (state.exchange queryName received)).Open key := { running with }
  have latest : (state.receiving (state.exchange queryName received)).exchanges.getLast? =
      some (state.exchange queryName received) := List.getLast?_concat
  refine ⟨?_, ?_⟩
  · refine (provenance.receiving ⟨running.named, running.zoneNamed⟩).adds receive_adds
      fun filing filed => FiledFrom.known ⟨filed.1.trans ?_, filed.2⟩
    simp [WalkState.source, WalkState.receiving]
  · have taken := (state.exchange queryName received).kind_taken key
    rw [receive_eq]
    cases classified : (state.exchange queryName received).kind key with
    | answer records rrsigs => exact answerArm_settled acting
    | cname record rrsigs =>
        rw [classified] at taken
        exact cnameArm_settled acting (received.wellFormed.answers record taken.1.1)
    | dname record => exact dnameArm_settled acting
    | negative rcode soa => exact negativeArm_settled acting latest classified rfl
    | referral newZone ns glue =>
        exact referralArm_settled acting (referral_canonical classified)
    | empty => exact emptyArm_settled acting

theorem cachedEnd_cases (scoring : Scoring Score Stability Inputs) (key : QueryKey) (now : Ts)
    (state : WalkState Score Stability) : ∃ cache, (cachedEnd scoring key now state).2 = { state with cache } ∧
    ((cachedEnd scoring key now state).1 ≠ none → state.depth ≠ 0) := by
  unfold cachedEnd
  split_ifs with unaliased
  · exact ⟨state.cache, rfl, fun found => absurd rfl found⟩
  · dsimp only
    split
    · split <;> exact ⟨_, rfl, fun _ => unaliased⟩
    · exact ⟨_, rfl, fun _ => unaliased⟩

/-- What one turn can do: give up, end on a set of the cache, or act on a
response. Before that it changes nothing that is filed. -/
theorem take_cases (scoring : Scoring Score Stability Inputs) (engine : EngineConfig)
    (key : QueryKey) (now : Ts) (turn : Turn Score Stability Inputs)
    (state : WalkState Score Stability) : ∃ cache minimized budget,
    (∃ error, turn.take scoring engine key now state =
      .failed error { state with cache, minimized, budget }) ∨
    (state.depth ≠ 0 ∧ ∃ rrset, turn.take scoring engine key now state =
      .finished (endOnCached rrset { state with cache, minimized, budget })) ∨
    ∃ name received, turn.take scoring engine key now state =
      turn.receive scoring engine key now name received
        { state with cache, minimized, budget } := by
  unfold take
  dsimp only
  split_ifs
  · exact ⟨_, _, _, .inl ⟨_, rfl⟩⟩
  · exact ⟨_, _, _, .inl ⟨_, rfl⟩⟩
  · exact ⟨_, _, _, .inl ⟨_, rfl⟩⟩
  · obtain ⟨cache, unchanged, followed⟩ := cachedEnd_cases scoring key now
      { state with cache := turn.others.foldl (CacheOp.apply scoring) state.cache }
    split
    · rename_i rrset middle found
      rw [found] at unchanged followed
      subst unchanged
      exact ⟨cache, state.minimized, state.budget, .inr (.inl ⟨followed nofun, rrset, rfl⟩)⟩
    · rename_i middle found
      rw [found] at unchanged
      subst unchanged
      split
      · exact ⟨_, _, _, .inl ⟨_, rfl⟩⟩
      · exact ⟨_, _, _, .inr (.inr ⟨_, _, rfl⟩)⟩

theorem take_sound (scoring : Scoring Score Stability Inputs) (engine : EngineConfig) (now : Ts)
    (turn : Turn Score Stability Inputs) (provenance : state.Provenance key)
    (running : state.Open key) :
    (turn.take scoring engine key now state).Sound key := by
  obtain ⟨cache, minimized, budget, ⟨error, failed⟩ | ⟨followed, rrset, ended⟩ |
    ⟨name, received, acted⟩⟩ := take_cases scoring engine key now turn state
  · rw [failed]
    exact ⟨{ provenance with }, trivial⟩
  · rw [ended]
    refine ⟨.endOnCached { provenance with }, .of_answers running.noError ?_⟩
    exact List.append_ne_nil_of_left_ne_nil (running.aliased followed) _
  · rw [acted]
    exact receive_sound { provenance with } { running with }

theorem take_exchanges (scoring : Scoring Score Stability Inputs) (engine : EngineConfig)
    (key : QueryKey) (now : Ts) (turn : Turn Score Stability Inputs)
    (state : WalkState Score Stability) :
    state.exchanges <+: (turn.take scoring engine key now state).state.exchanges := by
  obtain ⟨cache, minimized, budget, ⟨error, failed⟩ | ⟨-, rrset, ended⟩ | ⟨name, response, acted⟩⟩ :=
    take_cases scoring engine key now turn state
  · rw [failed]
    exact List.prefix_refl _
  · rw [ended]
    exact List.prefix_refl _
  · rw [acted, receive_adds.exchanges]
    exact List.prefix_append _ _

end Caching

end Turn

/-- Every walk keeps the invariant. -/
theorem walk_sound [LinearOrder Score] (scoring : Scoring Score Stability Inputs)
    (engine : EngineConfig) {key : QueryKey} (now : Ts)
    (turns : List (Turn Score Stability Inputs)) {state : WalkState Score Stability}
    (provenance : state.Provenance key) (running : state.Open key) :
    (walk scoring engine key now turns state).Sound key := by
  induction turns generalizing state with
  | nil => exact ⟨provenance, running⟩
  | cons turn turns inductionHypothesis =>
      have kept := Turn.take_sound scoring engine now turn provenance running
      rw [walk]
      split
      · rename_i next taken
        rw [taken] at kept
        exact inductionHypothesis kept.provenance kept.settled
      · rename_i next taken
        exact taken ▸ kept
      · rename_i error next taken
        exact taken ▸ kept

theorem walk_exchanges [LinearOrder Score] (scoring : Scoring Score Stability Inputs)
    (engine : EngineConfig) (key : QueryKey) (now : Ts) (turns : List (Turn Score Stability Inputs))
    (state : WalkState Score Stability) :
    state.exchanges <+: (walk scoring engine key now turns state).state.exchanges := by
  induction turns generalizing state with
  | nil => exact List.prefix_refl _
  | cons turn turns inductionHypothesis =>
      have grown := turn.take_exchanges scoring engine key now state
      rw [walk]
      cases taken : turn.take scoring engine key now state with
      | running next =>
          rw [taken] at grown
          exact grown.trans (inductionHypothesis next)
      | finished next =>
          rw [taken] at grown
          exact grown
      | failed error next =>
          rw [taken] at grown
          exact grown

end RecurseX
