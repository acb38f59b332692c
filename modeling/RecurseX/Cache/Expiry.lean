import RecurseX.Cache.Lookup

/-!
# What an operation writes

An operation of the cache moves entries about, drops some, and may write one.
`Rewrites` names what is written: every other entry was there before with the
same content and the same expiry. Lookups and maintenance write nothing.
-/

namespace RecurseX

open Library Std

variable {Score Stability Inputs : Type}

/-- The entries have the same content until the same instant. -/
structure CacheEntry.SameTerm (left right : CacheEntry Score Stability) : Prop where
  kind : left.kind = right.kind
  expires : left.expires = right.expires

theorem CacheEntry.SameData.sameTerm {left right : CacheEntry Score Stability}
    (same : left.SameData right) : left.SameTerm right :=
  ⟨same.kind, same.expires⟩

theorem CacheEntry.SameTerm.trans {first second third : CacheEntry Score Stability}
    (left : first.SameTerm second) (right : second.SameTerm third) : first.SameTerm third :=
  ⟨left.kind.trans right.kind, left.expires.trans right.expires⟩

namespace SemanticCache

/-- Some tier holds the entry under the key. -/
def Stores (cache : SemanticCache Score Stability) (key : CacheKey)
    (entry : CacheEntry Score Stability) : Prop :=
  ∃ tier, (cache.tierMap tier).get? key = some entry

/-- A key has one entry. -/
theorem Consistent.unique {scoring : Scoring Score Stability Inputs}
    {cache : SemanticCache Score Stability} (consistent : cache.Consistent scoring)
    {key : CacheKey} {left right : CacheEntry Score Stability} (first : cache.Stores key left)
    (second : cache.Stores key right) : left = right := by
  obtain ⟨tier, stored⟩ := first
  obtain ⟨other, held⟩ := second
  obtain rfl := consistent.single stored held
  exact Option.some.inj (stored.symm.trans held)

theorem stores_of_findTier {cache : SemanticCache Score Stability} {key : CacheKey} {tier : Tier}
    {entry : CacheEntry Score Stability} (found : cache.findTier key = some (tier, entry)) :
    cache.Stores key entry := by
  rcases cache.findTier_cases key with ⟨source, held, stored, first⟩ | ⟨_, nowhere⟩
  · obtain ⟨-, rfl⟩ := Prod.mk.inj (Option.some.inj (first.symm.trans found))
    exact ⟨source, stored⟩
  · rw [nowhere] at found
    cases found

/-- Everything held after was held before, or is written. -/
structure Rewrites (Written : CacheKey → EntryKind → Prop) (Denied : Name → Prop)
    (cache after : SemanticCache Score Stability) : Prop where
  entries : ∀ {key : CacheKey} {entry : CacheEntry Score Stability}, after.Stores key entry →
    (∃ old, cache.Stores key old ∧ old.SameTerm entry) ∨ Written key entry.kind
  names : ∀ {name : Name} {negative : NegativeEntry}, after.nx[name]? = some negative →
    (∃ old, cache.nx[name]? = some old ∧ negative.expires = old.expires) ∨ Denied name

namespace Rewrites

variable {Written Wider : CacheKey → EntryKind → Prop} {Denied Broader : Name → Prop}
  {cache middle after : SemanticCache Score Stability}

theorem refl (cache : SemanticCache Score Stability) : Rewrites Written Denied cache cache :=
  ⟨fun {_ entry} stored => .inl ⟨entry, stored, rfl, rfl⟩,
    fun {_ negative} stored => .inl ⟨negative, stored, rfl⟩⟩

theorem trans (first : Rewrites Written Denied cache middle)
    (second : Rewrites Written Denied middle after) : Rewrites Written Denied cache after := by
  refine ⟨?_, ?_⟩
  · intro key entry stored
    rcases second.entries stored with ⟨between, held, same⟩ | written
    · rcases first.entries held with ⟨old, before, older⟩ | written
      · exact .inl ⟨old, before, older.trans same⟩
      · exact .inr (same.kind ▸ written)
    · exact .inr written
  · intro name negative stored
    rcases second.names stored with ⟨between, held, same⟩ | denied
    · rcases first.names held with ⟨old, before, older⟩ | denied
      · exact .inl ⟨old, before, same.trans older⟩
      · exact .inr denied
    · exact .inr denied

theorem mono (rewrites : Rewrites Written Denied cache after)
    (wider : ∀ {key kind}, Written key kind → Wider key kind)
    (broader : ∀ {name}, Denied name → Broader name) : Rewrites Wider Broader cache after :=
  ⟨fun stored => (rewrites.entries stored).imp_right wider,
    fun stored => (rewrites.names stored).imp_right broader⟩

/-- An entry that expires later is written. -/
theorem entry_later {scoring : Scoring Score Stability Inputs}
    (rewrites : Rewrites Written Denied cache after) (consistent : cache.Consistent scoring)
    {key : CacheKey} {old entry : CacheEntry Score Stability} (before : cache.Stores key old)
    (stored : after.Stores key entry) (later : old.expires < entry.expires) :
    Written key entry.kind := by
  refine (rewrites.entries stored).resolve_left ?_
  rintro ⟨held, earlier, same⟩
  obtain rfl := consistent.unique before earlier
  exact Int.ne_of_lt later same.expires

/-- A name that is denied for longer is written. -/
theorem name_later (rewrites : Rewrites Written Denied cache after) {name : Name}
    {old negative : NegativeEntry} (before : cache.nx[name]? = some old)
    (stored : after.nx[name]? = some negative) (later : old.expires < negative.expires) :
    Denied name := by
  refine (rewrites.names stored).resolve_left ?_
  rintro ⟨held, earlier, same⟩
  obtain rfl := Option.some.inj (before.symm.trans earlier)
  exact Int.ne_of_lt later same.symm

end Rewrites

variable {scoring : Scoring Score Stability Inputs} {Written : CacheKey → EntryKind → Prop}
  {Denied : Name → Prop} {cache after : SemanticCache Score Stability}

/-- Entries that keep their data, with the NXDOMAIN store as it was. -/
theorem Descends.rewrites (descends : Descends after cache) (nx : after.nx = cache.nx) :
    Rewrites Written Denied cache after := by
  refine ⟨?_, ?_⟩
  · rintro key entry ⟨tier, stored⟩
    obtain ⟨origin, old, before, same⟩ := descends tier key entry stored
    exact .inl ⟨old, ⟨origin, before⟩, same.sameTerm⟩
  · intro name negative stored
    exact .inl ⟨negative, nx ▸ stored, rfl⟩

/-- Counting an event writes nothing. -/
theorem count_rewrites (cache : SemanticCache Score Stability) (event : CacheStats → CacheStats) :
    Rewrites Written Denied cache (cache.count event) := by
  refine ⟨?_, fun {_ negative} stored => .inl ⟨negative, stored, rfl⟩⟩
  rintro other held ⟨tier, stored⟩
  rw [tierMap_count] at stored
  exact .inl ⟨held, ⟨tier, stored⟩, rfl, rfl⟩

theorem modifyEntry_nx (cache : SemanticCache Score Stability) (key : CacheKey)
    (change : CacheEntry Score Stability → CacheEntry Score Stability) :
    (cache.modifyEntry key change).nx = cache.nx := by
  rcases cache.modifyEntry_cases key change with result | ⟨tier, result⟩ <;> rw [result]
  exact setTier_nx

theorem takeEntryAny_nx (scoring : Scoring Score Stability Inputs)
    (cache : SemanticCache Score Stability) (key : CacheKey) :
    (cache.takeEntryAny scoring key).2.nx = cache.nx := by
  rcases cache.takeEntryAny_cases scoring key with ⟨tier, entry, _, result⟩ | ⟨_, result⟩ <;>
    rw [result]
  exact setTier_nx

/-- A change to one entry that leaves its content and its expiry alone. -/
theorem modifyEntry_rewrites (cache : SemanticCache Score Stability) (key : CacheKey)
    {change : CacheEntry Score Stability → CacheEntry Score Stability}
    (same : ∀ entry : CacheEntry Score Stability, entry.SameTerm (change entry)) :
    Rewrites Written Denied cache (cache.modifyEntry key change) := by
  refine ⟨?_, fun stored => .inl ⟨_, by rwa [modifyEntry_nx] at stored, rfl⟩⟩
  rintro other entry ⟨source, stored⟩
  rcases stored_of_modifyEntry stored with ⟨old, before, rfl⟩ | before
  · exact .inl ⟨old, ⟨source, before⟩, same old⟩
  · exact .inl ⟨entry, ⟨source, before⟩, rfl, rfl⟩

theorem clearRefreshing_rewrites (cache : SemanticCache Score Stability) (key : CacheKey) :
    Rewrites Written Denied cache (cache.clearRefreshing key) :=
  modifyEntry_rewrites cache key fun _ => ⟨rfl, rfl⟩

theorem markRefreshing_rewrites (cache : SemanticCache Score Stability) (key : CacheKey) :
    Rewrites Written Denied cache (cache.markRefreshing key).2 := by
  unfold markRefreshing
  split
  · split_ifs
    · exact .refl cache
    · exact modifyEntry_rewrites cache key fun _ => ⟨rfl, rfl⟩
  · exact .refl cache

theorem recordRefreshFailure_rewrites (cache : SemanticCache Score Stability) (key : CacheKey)
    (now : Ts) : Rewrites Written Denied cache (cache.recordRefreshFailure scoring key now) :=
  modifyEntry_rewrites cache key fun _ => ⟨rfl, rfl⟩

/-- A sweep only drops entries. -/
theorem sweep_kept (indexed : cache.AllIndexed scoring) {now : Ts} {tier : Tier} {key : CacheKey}
    {entry : CacheEntry Score Stability}
    (stored : ((cache.sweep scoring now).tierMap tier).get? key = some entry) :
    (cache.tierMap tier).get? key = some entry := by
  have swept : (cache.sweep scoring now).tierMap tier =
      (cache.tierMap tier).retain scoring.ranking fun _ entry =>
        decide (now ≤ saturatingAdd entry.expires
          (secondsToTs cache.config.staleWindowSecs)) := by
    cases tier <;> rfl
  rw [swept] at stored
  obtain ⟨_, _, _, kept⟩ := RankedMap.retain_spec (indexed tier) fun _ entry =>
    decide (now ≤ saturatingAdd entry.expires (secondsToTs cache.config.staleWindowSecs))
  exact kept key entry stored

theorem sweep_rewrites (consistent : cache.Consistent scoring) (now : Ts) :
    Rewrites Written Denied cache (cache.sweep scoring now) := by
  refine ⟨?_, ?_⟩
  · rintro key entry ⟨tier, stored⟩
    exact .inl ⟨entry, ⟨tier, sweep_kept consistent.indexed stored⟩, rfl, rfl⟩
  · intro name negative stored
    change (cache.nx.filter _)[name]? = some negative at stored
    rw [TreeMap.getElem?_filter] at stored
    exact .inl ⟨negative, (Option.pfilter_eq_some_iff.mp stored).1, rfl⟩

/-- The tiers have no part in the NXDOMAIN store. -/
theorem insertNxdomain_tierMap {name : Name} {rcode : Rcode} {soa : Option Record}
    {authoritativeTtl : UInt32} {now : Ts} {tier : Tier} :
    (cache.insertNxdomain name rcode soa authoritativeTtl now).tierMap tier =
      cache.tierMap tier := by
  unfold insertNxdomain
  dsimp only
  split
  · exact tierMap_withNx
  · exact tierMap_withNx

/-- The name is all that is written into the NXDOMAIN store. -/
theorem insertNxdomain_rewrites (cache : SemanticCache Score Stability) (name : Name)
    (rcode : Rcode) (soa : Option Record) (authoritativeTtl : UInt32) (now : Ts) :
    Rewrites Written (fun denied => denied = name) cache
      (cache.insertNxdomain name rcode soa authoritativeTtl now) := by
  have kept {nx : TreeMap Name NegativeEntry} (entry : NegativeEntry)
      (older : ∀ {other : Name} {negative : NegativeEntry}, nx[other]? = some negative →
        cache.nx[other]? = some negative) :
      Rewrites Written (fun denied => denied = name) cache
        { cache with nx := nx.insert name entry } := by
    refine ⟨?_, ?_⟩
    · rintro key held ⟨tier, stored⟩
      rw [tierMap_withNx] at stored
      exact .inl ⟨held, ⟨tier, stored⟩, rfl, rfl⟩
    · intro other negative stored
      change (nx.insert name entry)[other]? = some negative at stored
      rw [TreeMap.getElem?_insert] at stored
      split_ifs at stored with same
      · exact .inr (Std.LawfulEqCmp.eq_of_compare same).symm
      · exact .inl ⟨negative, older stored, rfl⟩
  unfold insertNxdomain
  dsimp only
  split
  · exact kept _ id
  · refine kept _ ?_
    split_ifs
    · exact getElem?_evictForCapacity
    · exact id

theorem spill_nx {victim : CacheEntry Score Stability} {origin : Tier} :
    (cache.spill scoring victim origin).nx = cache.nx := by
  unfold spill
  dsimp only
  split
  · rfl
  · split_ifs
    · rfl
    · rw [setTier_nx]
      rfl

/-- Taking the entry of a key out leaves the others. -/
theorem takeEntryAny_rewrites (scoring : Scoring Score Stability Inputs)
    (cache : SemanticCache Score Stability) (key : CacheKey) :
    Rewrites Written Denied cache (cache.takeEntryAny scoring key).2 := by
  rcases cache.takeEntryAny_cases scoring key with ⟨tier, entry, _, result⟩ | ⟨_, result⟩
  · rw [result]
    exact (missed_drop scoring cache tier key id).descends.rewrites setTier_nx
  · rw [result]
    exact .refl cache

/-- What no probe changes, the walk over the partitions does not change. -/
theorem walkPartitions_descends {α : Type}
    (probe : SemanticCache Score Stability → CacheKey → Option α × SemanticCache Score Stability)
    (kept : ∀ {cache} key, cache.AllIndexed scoring → (probe cache key).2.AllIndexed scoring)
    (descends : ∀ {cache} key, cache.AllIndexed scoring → Descends (probe cache key).2 cache)
    (indexed : cache.AllIndexed scoring) (key : CacheKey) :
    Descends (walkPartitions key probe cache).2 cache ∧
      (walkPartitions key probe cache).2.AllIndexed scoring := by
  have keeps (after : SemanticCache Score Stability) (probed : CacheKey)
      (inv : Descends after cache ∧ after.AllIndexed scoring) :
      Descends (probe after probed).2 cache ∧ (probe after probed).2.AllIndexed scoring :=
    ⟨(descends probed inv.2).trans inv.1, kept probed inv.2⟩
  exact walkPartitions_keeps probe keeps key cache ⟨.refl cache, indexed⟩

theorem count_descends (cache : SemanticCache Score Stability) (event : CacheStats → CacheStats) :
    Descends (cache.count event) cache := by
  intro source key held stored
  rw [tierMap_count] at stored
  exact ⟨source, held, stored, .refl held⟩

/-- The end of a lookup counts, and does nothing else. -/
theorem lookupNx_cases (cache : SemanticCache Score Stability) (key : CacheKey) (now : Ts) :
    ∃ event, (cache.lookupNx key now).2 = cache.count event := by
  unfold lookupNx
  dsimp only
  split
  · split_ifs
    · exact ⟨fun stats => { stats with hits := stats.hits + 1 }, rfl⟩
    · exact ⟨fun stats => { stats with misses := stats.misses + 1 }, rfl⟩
  · exact ⟨fun stats => { stats with misses := stats.misses + 1 }, rfl⟩

section Storing

variable [LinearOrder Score]

theorem place_nx {entry : CacheEntry Score Stability} :
    (cache.place scoring entry).nx = cache.nx := by
  unfold place
  split
  · rfl
  · dsimp only
    split
    · rw [spill_nx, setTier_nx]
    · rw [setTier_nx]

/-- The entry that is placed is all that is written. -/
theorem place_rewrites {entry : CacheEntry Score Stability} (indexed : cache.AllIndexed scoring) :
    Rewrites (fun key kind => key = entry.key ∧ kind = entry.kind) Denied cache
      (cache.place scoring entry) := by
  refine ⟨?_, fun {_ negative} stored => .inl ⟨negative, by rwa [place_nx] at stored, rfl⟩⟩
  rintro key held ⟨tier, stored⟩
  rcases place_stored indexed stored with ⟨same, moved⟩ | ⟨origin, old, before, same⟩
  · exact .inr ⟨same, moved.kind.symm⟩
  · exact .inl ⟨old, ⟨origin, before⟩, same.sameTerm⟩

/-- An entry is taken out, changed and placed again, or a new one is placed. -/
theorem replace_rewrites (indexed : cache.AllIndexed scoring) {key : CacheKey}
    {placed : CacheEntry Score Stability} {Content : EntryKind → Prop} (keyed : placed.key = key)
    (content : Content placed.kind) (event : CacheStats → CacheStats) :
    Rewrites (fun other kind => other = key ∧ Content kind) Denied cache
      (((cache.takeEntryAny scoring key).2.count event).place scoring placed) := by
  have taken := (indexed.takeEntryAny key).count event
  refine (takeEntryAny_rewrites scoring cache key).trans ((count_rewrites _ event).trans ?_)
  refine (place_rewrites taken).mono ?_ id
  rintro other kind ⟨rfl, rfl⟩
  exact ⟨keyed, content⟩

/-- The entry holds data that a change detector takes for the set's. -/
def hasData (entry : CacheEntry Score Stability) (rrset : RrSet) : Bool :=
  match entry.kind with
  | .positive old => old.sameData rrset
  | .negative .. => false

/-- An insertion takes out the entry of the key, if there is one, and places one
with the new content, its term and no mark. Identical data passes on its validation. -/
theorem AllIndexed.insertPositive_cases (indexed : cache.AllIndexed scoring) (key : CacheKey)
    (rrset : RrSet) (now : Ts) (inputs : Inputs) (validated : Bool) :
    ∃ event placed, cache.insertPositive scoring key rrset now inputs validated =
        ((cache.takeEntryAny scoring key).2.count event).place scoring placed ∧
      placed.key = key ∧ placed.refreshing = false ∧
      (∃ ttl, placed.kind = .positive { rrset with ttl := ttl }) ∧
      placed.validated = (validated || (cache.takeEntryAny scoring key).1.any fun old =>
        hasData old rrset && old.validated) ∧
      placed.inserted = now ∧
      placed.expires = saturatingAdd now (secondsToTs (min rrset.ttl cache.config.maxTtlCap)) := by
  obtain ⟨keyed, _⟩ := (allIndexed_kept scoring).takeEntryAny key indexed
  unfold insertPositive
  dsimp only
  split
  · rename_i entry after found
    rw [found] at keyed ⊢
    refine ⟨id, _, rfl, keyed entry rfl, rfl, ⟨_, rfl⟩, ?_, rfl, rfl⟩
    dsimp only [Option.any, hasData]
    cases entry.kind with
    | positive old => rw [Bool.not_not]; rfl
    | negative => rfl
  · rename_i after found
    rw [found]
    exact ⟨_, _, rfl, rfl, rfl, ⟨_, rfl⟩, (Bool.or_false validated).symm, rfl, rfl⟩

theorem AllIndexed.insertNegative_cases (indexed : cache.AllIndexed scoring) (key : CacheKey)
    (rcode : Rcode) (soa : Option Record) (authoritativeTtl : UInt32) (now : Ts) (inputs : Inputs) :
    ∃ event placed, cache.insertNegative scoring key rcode soa authoritativeTtl now inputs =
        ((cache.takeEntryAny scoring key).2.count event).place scoring placed ∧
      placed.key = key ∧ placed.refreshing = false ∧
      (∃ ttl, placed.kind = .negative rcode soa ttl) ∧
      placed.validated = ((cache.takeEntryAny scoring key).1.any fun old => old.validated) ∧
      placed.inserted = now ∧ placed.expires =
        saturatingAdd now (secondsToTs (min authoritativeTtl cache.config.negativeTtlCap)) := by
  obtain ⟨keyed, _⟩ := (allIndexed_kept scoring).takeEntryAny key indexed
  unfold insertNegative
  dsimp only
  split
  · rename_i entry after found
    rw [found] at keyed ⊢
    exact ⟨id, _, rfl, keyed entry rfl, rfl, ⟨_, rfl⟩, rfl, rfl, rfl⟩
  · rename_i after found
    rw [found]
    exact ⟨_, _, rfl, rfl, rfl, ⟨_, rfl⟩, rfl, rfl, rfl⟩

theorem insertPositive_rewrites (consistent : cache.Consistent scoring) (key : CacheKey)
    (rrset : RrSet) (now : Ts) (inputs : Inputs) (validated : Bool) :
    Rewrites (fun other kind => other = key ∧ ∃ ttl, kind = .positive { rrset with ttl := ttl })
      Denied cache (cache.insertPositive scoring key rrset now inputs validated) := by
  obtain ⟨event, placed, inserted, keyed, -, ⟨ttl, content⟩, -⟩ :=
    AllIndexed.insertPositive_cases consistent.indexed key rrset now inputs validated
  rw [inserted]
  exact replace_rewrites consistent.indexed keyed ⟨ttl, content⟩ event

theorem insertNegative_rewrites (consistent : cache.Consistent scoring) (key : CacheKey)
    (rcode : Rcode) (soa : Option Record) (authoritativeTtl : UInt32) (now : Ts) (inputs : Inputs) :
    Rewrites (fun other kind => other = key ∧ ∃ ttl, kind = .negative rcode soa ttl) Denied cache
      (cache.insertNegative scoring key rcode soa authoritativeTtl now inputs) := by
  obtain ⟨event, placed, inserted, keyed, -, ⟨ttl, content⟩, -⟩ :=
    AllIndexed.insertNegative_cases consistent.indexed key rcode soa authoritativeTtl now inputs
  rw [inserted]
  exact replace_rewrites consistent.indexed keyed ⟨ttl, content⟩ event

/-- Scoring an entry anew writes nothing. -/
theorem rescore_rewrites (consistent : cache.Consistent scoring) (key : CacheKey) (inputs : Inputs)
    (now : Ts) : Rewrites Written Denied cache (cache.rescore scoring key inputs now) := by
  refine (AllIndexed.rescore_descends consistent.indexed key inputs now).rewrites ?_
  unfold rescore
  rcases cache.takeEntryAny_cases scoring key with ⟨tier, entry, found, result⟩ | ⟨_, result⟩
  · rw [result]
    dsimp only
    rw [place_nx, setTier_nx]
  · rw [result]

/-! ## Lookups write nothing -/

theorem lookupExactIn_descends (indexed : cache.AllIndexed scoring) (key : CacheKey) (now : Ts)
    (tiers : List Tier) : Descends (lookupExactIn scoring key now tiers cache).2 cache := by
  induction tiers generalizing cache with
  | nil => exact .refl cache
  | cons tier tiers inductionHypothesis =>
      unfold lookupExactIn
      split
      · exact inductionHypothesis indexed
      · rename_i entry map removed
        obtain ⟨stored, rfl⟩ := get?_of_remove removed
        have taken := indexed.setTier ((indexed tier).remove key) tier
        dsimp only
        split_ifs
        · have same : entry.SameData { entry.serve now with
              score := scoreEntry scoring (entry.serve now) now scoring.defaultInputs } :=
            ⟨rfl, rfl, rfl, rfl, rfl, rfl, rfl⟩
          exact indexed.place_descends stored (fun stats =>
            { stats with hits := stats.hits + 1 }) same
        · have same : entry.SameData { entry.serve now with tier := .cold } :=
            ⟨rfl, rfl, rfl, rfl, rfl, rfl, rfl⟩
          exact indexed.park_descends stored (fun stats =>
            { stats with hits := stats.hits + 1, staleServed := stats.staleServed + 1 }) same
        · have dropped := missed_drop scoring cache tier key fun stats =>
            { stats with misses := stats.misses + 1 }
          exact (inductionHypothesis (taken.count _)).trans
            dropped.descends

theorem lookupExactIn_nx (key : CacheKey) (now : Ts) (tiers : List Tier)
    (cache : SemanticCache Score Stability) :
    (lookupExactIn scoring key now tiers cache).2.nx = cache.nx := by
  induction tiers generalizing cache with
  | nil => rfl
  | cons tier tiers inductionHypothesis =>
      unfold lookupExactIn
      split
      · exact inductionHypothesis cache
      · dsimp only
        split_ifs
        · rw [place_nx]
          exact setTier_nx
        · exact setTier_nx
        · rw [inductionHypothesis]
          exact setTier_nx

theorem lookupCnameIn_nx (key : CacheKey) (now : Ts) (tiers : List Tier)
    (cache : SemanticCache Score Stability) :
    (lookupCnameIn scoring key now tiers cache).2.nx = cache.nx := by
  induction tiers generalizing cache with
  | nil => rfl
  | cons tier tiers inductionHypothesis =>
      unfold lookupCnameIn
      split
      · exact inductionHypothesis cache
      · dsimp only
        split
        · rw [inductionHypothesis, place_nx, setTier_nx]
        · split_ifs
          · rw [place_nx]
            exact setTier_nx
          · rw [inductionHypothesis]
            exact setTier_nx
          · rw [inductionHypothesis, setTier_nx]

/-- A lookup moves entries about, and their data stays. -/
theorem lookup_descends (indexed : cache.AllIndexed scoring) (key : CacheKey) (now : Ts) :
    Descends (cache.lookup scoring key now).2 cache := by
  have kept := allIndexed_kept scoring
  obtain ⟨walked, stays⟩ := walkPartitions_descends
    (fun cache key => cache.lookupExact scoring key now)
    (fun key indexed => kept.lookupExactIn key now _ _ indexed)
    (fun key indexed => lookupExactIn_descends indexed key now _) indexed key
  unfold lookup
  split
  · rename_i outcome after found
    rwa [found] at walked
  · rename_i after found
    rw [found] at walked stays
    split_ifs
    · obtain ⟨aliased, _⟩ := walkPartitions_descends
        (fun cache key => cache.lookupCname scoring key now)
        (fun key indexed => kept.lookupCnameIn key now _ _ indexed)
        (fun key indexed => (lookupCnameIn_spec key _ now indexed).1) stays
        (key.withType .CNAME)
      split
      · rename_i outcome last found
        rw [found] at aliased
        exact aliased.trans walked
      · rename_i last found
        rw [found] at aliased
        obtain ⟨event, ended⟩ := lookupNx_cases last key now
        rw [ended]
        exact (count_descends last event).trans (aliased.trans walked)
    · obtain ⟨event, ended⟩ := lookupNx_cases after key now
      rw [ended]
      exact (count_descends after event).trans walked

theorem lookup_nx (cache : SemanticCache Score Stability) (key : CacheKey) (now : Ts) :
    (cache.lookup scoring key now).2.nx = cache.nx := by
  have walked := @walkPartitions_keeps _ _ _ (fun after => after.nx = cache.nx)
    (fun cache key => cache.lookupExact scoring key now)
    (fun after key same => (lookupExactIn_nx key now _ after).trans same) key cache rfl
  have ended (last : SemanticCache Score Stability) (same : last.nx = cache.nx) :
      (last.lookupNx key now).2.nx = cache.nx := by
    obtain ⟨event, ended⟩ := lookupNx_cases last key now
    rw [ended]
    exact same
  unfold lookup
  split
  · rename_i outcome after found
    rwa [found] at walked
  · rename_i after found
    rw [found] at walked
    split_ifs
    · have aliased := @walkPartitions_keeps _ _ _ (fun last => last.nx = cache.nx)
        (fun cache key => cache.lookupCname scoring key now)
        (fun after key same => (lookupCnameIn_nx key now _ after).trans same)
        (key.withType .CNAME) after walked
      split
      · rename_i outcome last found
        rwa [found] at aliased
      · rename_i last found
        rw [found] at aliased
        exact ended last aliased
    · exact ended after walked

/-- A lookup writes nothing. -/
theorem lookup_rewrites (consistent : cache.Consistent scoring) (key : CacheKey) (now : Ts) :
    Rewrites Written Denied cache (cache.lookup scoring key now).2 :=
  (lookup_descends consistent.indexed key now).rewrites (lookup_nx cache key now)

end Storing

/-! ## Chains of operations -/

/-- From a consistent cache to a consistent one, writing what is named. -/
def Writes (scoring : Scoring Score Stability Inputs) (Written : CacheKey → EntryKind → Prop)
    (Denied : Name → Prop) (cache after : SemanticCache Score Stability) : Prop :=
  cache.Consistent scoring → after.Consistent scoring ∧ Rewrites Written Denied cache after

namespace Writes

variable {middle : SemanticCache Score Stability} {Wider : CacheKey → EntryKind → Prop}
  {Broader : Name → Prop}

theorem refl (scoring : Scoring Score Stability Inputs) (cache : SemanticCache Score Stability) :
    Writes scoring Written Denied cache cache :=
  fun consistent => ⟨consistent, .refl cache⟩

theorem of_eq (same : after = cache) : Writes scoring Written Denied cache after :=
  same ▸ refl scoring after

theorem trans (first : Writes scoring Written Denied cache middle)
    (second : Writes scoring Written Denied middle after) :
    Writes scoring Written Denied cache after := by
  intro consistent
  obtain ⟨between, earlier⟩ := first consistent
  obtain ⟨stays, later⟩ := second between
  exact ⟨stays, earlier.trans later⟩

theorem mono (writes : Writes scoring Written Denied cache after)
    (wider : ∀ {key kind}, Written key kind → Wider key kind)
    (broader : ∀ {name}, Denied name → Broader name) : Writes scoring Wider Broader cache after :=
  fun consistent => ⟨(writes consistent).1, (writes consistent).2.mono wider broader⟩

variable [LinearOrder Score]

theorem insertPositive {key : CacheKey} {rrset : RrSet} {now : Ts} {inputs : Inputs}
    {validated : Bool} (written : ∀ ttl, Written key (.positive { rrset with ttl := ttl })) :
    Writes scoring Written Denied cache
      (cache.insertPositive scoring key rrset now inputs validated) := by
  intro consistent
  refine ⟨(consistent_kept scoring).insertPositive key rrset now inputs validated consistent, ?_⟩
  refine (insertPositive_rewrites consistent key rrset now inputs validated).mono ?_ id
  rintro _ _ ⟨rfl, ttl, rfl⟩
  exact written ttl

theorem insertNegative {key : CacheKey} {rcode : Rcode} {soa : Option Record}
    {authoritativeTtl : UInt32} {now : Ts} {inputs : Inputs}
    (written : ∀ ttl, Written key (.negative rcode soa ttl)) :
    Writes scoring Written Denied cache
      (cache.insertNegative scoring key rcode soa authoritativeTtl now inputs) := by
  intro consistent
  refine ⟨(consistent_kept scoring).insertNegative key rcode soa authoritativeTtl now inputs
    consistent, ?_⟩
  refine (insertNegative_rewrites consistent key rcode soa authoritativeTtl now inputs).mono ?_ id
  rintro _ _ ⟨rfl, ttl, rfl⟩
  exact written ttl

theorem insertNxdomain {name : Name} {rcode : Rcode} {soa : Option Record}
    {authoritativeTtl : UInt32} {now : Ts} (denied : Denied name) :
    Writes scoring Written Denied cache
      (cache.insertNxdomain name rcode soa authoritativeTtl now) := by
  intro consistent
  refine ⟨(consistent_kept scoring).insertNxdomain name rcode soa authoritativeTtl now consistent,
    (insertNxdomain_rewrites cache name rcode soa authoritativeTtl now).mono id ?_⟩
  rintro _ rfl
  exact denied

theorem lookup (cache : SemanticCache Score Stability) (key : CacheKey) (now : Ts) :
    Writes scoring Written Denied cache (cache.lookup scoring key now).2 :=
  fun consistent => ⟨(consistent_kept scoring).lookup key now consistent,
    lookup_rewrites consistent key now⟩

end Writes

end SemanticCache

/-- The operations of maintenance and of lookups. -/
def CacheOp.isUpkeep : CacheOp Score Stability Inputs → Bool
  | .lookup .. | .rescore .. | .sweep _ | .markRefreshing _ | .clearRefreshing _
  | .recordRefreshFailure .. => true
  | .insertPositive .. | .insertNegative .. | .insertNxdomain .. | .restoreEntry .. => false

/-- Upkeep writes nothing. -/
theorem CacheOp.upkeep_writes [LinearOrder Score] (scoring : Scoring Score Stability Inputs)
    {Written : CacheKey → EntryKind → Prop} {Denied : Name → Prop}
    (op : CacheOp Score Stability Inputs) (upkeep : op.isUpkeep = true)
    (cache : SemanticCache Score Stability) :
    cache.Writes scoring Written Denied (op.apply scoring cache) := by
  intro consistent
  have meets : op.Meets (fun key cache => cache.Consistent scoring ∧ cache.Absent key) cache := by
    cases op with
    | restoreEntry entry now => cases upkeep
    | _ => trivial
  refine ⟨(SemanticCache.consistent_kept scoring).apply meets consistent, ?_⟩
  cases op with
  | lookup key now => exact SemanticCache.lookup_rewrites consistent key now
  | rescore key inputs now => exact SemanticCache.rescore_rewrites consistent key inputs now
  | sweep now => exact SemanticCache.sweep_rewrites consistent now
  | markRefreshing key => exact SemanticCache.markRefreshing_rewrites cache key
  | clearRefreshing key => exact SemanticCache.clearRefreshing_rewrites cache key
  | recordRefreshFailure key now => exact SemanticCache.recordRefreshFailure_rewrites cache key now
  | insertPositive => cases upkeep
  | insertNegative => cases upkeep
  | insertNxdomain => cases upkeep
  | restoreEntry => cases upkeep

end RecurseX
