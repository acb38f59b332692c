import RecurseX.Resolver.Provenance

/-!
# Whole resolutions

After the loop the collected records are cached once more, under the scope of
the latest exchange, and so is a negative outcome. `FiledIn` says what a
resolution can file because of an exchange, during the loop and after it, and
`resolveUncached_accounted` that every resolution keeps to it.
-/

namespace RecurseX

open Library Std

variable {Score Stability Inputs : Type}

/-- Where the end of a resolution caches. -/
inductive EndPlace (key : QueryKey) (exchanges : List Exchange) : Place → Prop where
  | nx {name : Name}
      (shared : answerPartition key.ecs (exchanges.getLast?.bind Exchange.scope) = none) :
      EndPlace key exchanges (.nx name)
  | cache {name : Name} {rrType : RrType} {rrClass : RrClass} :
      EndPlace key exchanges (.cache ⟨name, rrType, rrClass,
        answerPartition key.ecs (exchanges.getLast?.bind Exchange.scope)⟩)

/-- What a resolution files because of one of its exchanges. -/
inductive FiledIn (key : QueryKey) (exchanges : List Exchange) (exchange : Exchange) :
    Fact → Place → Prop where
  | turn {fact : Fact} {place : Place}
      (filed : FiledBy key exchange (exchange.kind key) fact place) :
      FiledIn key exchanges exchange fact place
  | copy {fact : Fact} {place : Place}
      (filed : FiledBy key exchange (exchange.kind key) fact .resolution)
      (placed : EndPlace key exchanges place) : FiledIn key exchanges exchange fact place
  | nxdomain {rcode : Rcode} {soa : Option Record} {place : Place}
      (classified : exchange.kind key = .negative rcode soa) (missing : rcode.isNxdomain = true)
      (placed : EndPlace key exchanges place) :
      FiledIn key exchanges exchange (.nxdomain key.name) place
  | nodata {rcode : Rcode} {soa : Option Record} {place : Place}
      (classified : exchange.kind key = .negative rcode soa)
      (asked : exchange.queryName = key.name) (placed : EndPlace key exchanges place) :
      FiledIn key exchanges exchange (.nodata key.name) place

/-- A filing that names an exchange was made because of that exchange. -/
def Filing.Accounted (key : QueryKey) (exchanges : List Exchange) (filing : Filing) : Prop :=
  ∀ index, filing.source = some index → ∃ exchange, exchanges[index]? = some exchange ∧
    FiledIn key exchanges exchange filing.fact filing.place

section Accounted

variable {key : QueryKey} {exchanges : List Exchange} {filing : Filing} {place : Place}

theorem Filing.Known.accounted (known : filing.Known key exchanges) :
    filing.Accounted key exchanges := by
  intro index sourced
  obtain ⟨exchange, located, filed⟩ := known index sourced
  exact ⟨exchange, located, .turn filed⟩

/-- A record of the resolution, cached at its end. -/
theorem Filing.Known.copied {record : Sourced}
    (known : (record.filed .resolution).Known key exchanges)
    (placed : EndPlace key exchanges place) : (record.filed place).Accounted key exchanges := by
  intro index sourced
  obtain ⟨exchange, located, filed⟩ := known index sourced
  exact ⟨exchange, located, .copy filed placed⟩

/-- A negative outcome goes back to the latest exchange. -/
theorem Filing.accounted_of_last {last : Exchange} {fact : Fact}
    (latest : exchanges.getLast? = some last) (filed : FiledIn key exchanges last fact place) :
    Filing.Accounted key exchanges ⟨fact, some (exchanges.length - 1), place⟩ := by
  rintro index ⟨⟩
  exact ⟨last, List.getLast?_eq_getElem? ▸ latest, filed⟩

end Accounted

/-! ## What is cached after the loop -/

section Resolve

variable {scoring : Scoring Score Stability Inputs} {engine : EngineConfig}
  {key : QueryKey} {res : Resolution} {inputs : Inputs} {now : Ts} {exchanges : List Exchange}
  {state : WalkState Score Stability}

/-- What the resolution holds goes back to the exchanges, and so do its scope and
its outcome. -/
structure Resolution.From (key : QueryKey) (exchanges : List Exchange) (res : Resolution) :
    Prop where
  answers : ∀ record ∈ res.answers, (record.filed .resolution).Known key exchanges
  rrsigs : ∀ record ∈ res.rrsigs, (record.filed .resolution).Known key exchanges
  authorities : ∀ record ∈ res.authorities, (record.filed .resolution).Known key exchanges
  ecsScope : res.ecsScope = exchanges.getLast?.bind Exchange.scope
  asked : res.name = key.name
  nxdomain : res.rcode.isNxdomain = true → EndsNegative key exchanges true fun _ => True
  nodata : res.rcode.isNxdomain = false → res.answers = [] →
    EndsNegative key exchanges false fun last => last.queryName = key.name

open WalkState (Adds)

theorem Resolution.From.soa (traced : res.From key exchanges) {place : Place}
    (placed : EndPlace key exchanges place) :
    Adds.Allowed (Filing.Accounted key exchanges) res.soa.toList place := by
  intro record member
  have found : res.soa = some record := by simpa using member
  exact (traced.authorities record (List.mem_of_find?_eq_some found)).copied placed

theorem WalkState.Closed.resolution_from (closed : state.Closed key)
    (provenance : state.Provenance key) : (state.resolution key now).From key state.exchanges where
  answers := provenance.answers
  rrsigs record member := by
    rcases List.mem_append.mp member with received | cached
    · exact provenance.rrsigs record received
    · exact Filing.known_of_source_none (provenance.cachedRrsigs record cached)
  authorities := provenance.authorities
  ecsScope := provenance.ecsScope
  asked := rfl
  nxdomain := closed.nxdomain
  nodata := closed.nodata

theorem WalkState.Open.start (cache : SemanticCache Score Stability) (budget : FetchBudget) :
    (WalkState.start engine key cache budget).Open key :=
  ⟨key.named, ⟨.root, rfl⟩, rfl, fun _ => rfl, fun followed => absurd rfl followed⟩

/-- A run of a resolution: its filings go back to its exchanges. -/
structure WalkState.Accounted (key : QueryKey) (state : WalkState Score Stability) : Prop where
  filings : ∀ filing ∈ state.filings, filing.Accounted key state.exchanges
  named : ∀ exchange ∈ state.exchanges, exchange.currentName.Canonical ∧ exchange.zone.Canonical

theorem WalkState.Provenance.accounted (provenance : state.Provenance key) :
    state.Accounted key :=
  ⟨fun filing member => (provenance.filings filing member).accounted, provenance.named⟩

theorem WalkState.Accounted.adds {after : WalkState Score Stability}
    (accounted : state.Accounted key)
    (added : Adds (Filing.Accounted key state.exchanges) state after) : after.Accounted key where
  filings filing member := added.exchanges ▸
    (added.filings filing member).elim (accounted.filings filing) id
  named := added.exchanges ▸ accounted.named

variable [LinearOrder Score]

theorem cacheGroup_adds (traced : res.From key exchanges) {group : (Name × RrType) × List Sourced}
    (grouped : group ∈ (groupAnswers res.answers).toList) :
    Adds (Filing.Accounted key exchanges) state
      (cacheGroup scoring engine key res inputs now state group) := by
  unfold cacheGroup
  split_ifs
  · exact .refl state
  · split
    · exact .refl state
    · refine .cachePositive fun record member => ?_
      rw [traced.ecsScope]
      rcases List.mem_append.mp member with answer | signature
      · exact (traced.answers record (mem_of_mem_group grouped answer).1).copied .cache
      · exact (traced.rrsigs record (List.mem_filter.mp signature).1).copied .cache

theorem foldl_cacheGroup_adds (traced : res.From key exchanges)
    {groups : List ((Name × RrType) × List Sourced)}
    (grouped : ∀ group ∈ groups, group ∈ (groupAnswers res.answers).toList) :
    Adds (Filing.Accounted key exchanges) state
      (groups.foldl (cacheGroup scoring engine key res inputs now) state) := by
  induction groups generalizing state with
  | nil => exact .refl state
  | cons group groups inductionHypothesis =>
      exact (cacheGroup_adds traced (grouped group List.mem_cons_self)).trans
        (inductionHypothesis fun other member => grouped other (List.mem_cons_of_mem _ member))

theorem cacheOutcome_adds (traced : res.From key exchanges) (same : state.exchanges = exchanges) :
    Adds (Filing.Accounted key exchanges) state
      (cacheOutcome scoring key res inputs now state) := by
  have source : state.source = some (exchanges.length - 1) := by rw [WalkState.source, same]
  unfold cacheOutcome
  dsimp only
  rw [source]
  split_ifs with missing unanswered
  · obtain ⟨last, rcode, soa, latest, classified, denied, -⟩ := traced.nxdomain missing
    have outcome : ∀ {place : Place}, EndPlace key exchanges place →
        Filing.Accounted key exchanges
          ⟨.nxdomain res.name, some (exchanges.length - 1), place⟩ := by
      intro place placed
      rw [traced.asked]
      exact Filing.accounted_of_last latest (.nxdomain classified denied placed)
    split
    · rename_i shared
      rw [traced.ecsScope] at shared
      exact .cacheNxdomain (outcome (.nx shared)) (traced.soa (.nx shared))
    · rename_i ecs narrowed
      rw [traced.ecsScope] at narrowed
      have placed : EndPlace key exchanges
          (.cache ⟨res.name, res.rrType, res.rrClass, some ecs⟩) := narrowed ▸ .cache
      exact .cacheNegative (outcome placed) (traced.soa placed)
  · obtain ⟨last, rcode, soa, latest, classified, -, asked⟩ :=
      traced.nodata (Bool.not_eq_true _ ▸ missing) (List.isEmpty_iff.mp unanswered)
    rw [traced.ecsScope]
    refine .cacheNegative ?_ (traced.soa .cache)
    rw [traced.asked]
    exact Filing.accounted_of_last latest (.nodata classified asked .cache)
  · exact .refl state

theorem cacheResolution_adds (traced : res.From key exchanges)
    (same : state.exchanges = exchanges) :
    Adds (Filing.Accounted key exchanges) state
      (cacheResolution scoring engine key res inputs now state) := by
  have grouped : Adds (Filing.Accounted key exchanges) state ((groupAnswers res.answers).toList.foldl
      (cacheGroup scoring engine key res inputs now) state) :=
    foldl_cacheGroup_adds traced fun _ member => member
  exact grouped.trans (cacheOutcome_adds traced (grouped.exchanges.trans same))

/-- Everything a resolution files goes back to the exchange it names. -/
theorem resolveUncached_accounted (scoring : Scoring Score Stability Inputs)
    (engine : EngineConfig) (key : QueryKey) (servedAt now : Ts)
    (turns : List (Turn Score Stability Inputs)) (closing : Closing Score Stability Inputs)
    (cache : SemanticCache Score Stability) (budget : FetchBudget) :
    (resolveUncached scoring engine key servedAt now turns closing cache
      budget).state.Accounted key := by
  have walked : (walk scoring engine key now turns (.start engine key cache budget)).Sound key :=
    walk_sound scoring engine now turns (.start engine cache budget) (.start cache budget)
  unfold resolveUncached
  split
  · rename_i state finished
    rw [finished] at walked
    have traced : (state.resolution key now).From key state.exchanges :=
      WalkState.Closed.resolution_from walked.settled walked.provenance
    have accounted : WalkState.Accounted key
        { state with cache := closing.others.foldl (CacheOp.apply scoring) state.cache } :=
      { walked.provenance.accounted with }
    exact accounted.adds (cacheResolution_adds { traced with } rfl)
  · exact walked.provenance.accounted

end Resolve

end RecurseX
