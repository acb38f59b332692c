import RecurseX.Cache.Indexed
import RecurseX.Cache.Invariant

/-!
# What a lookup returns and leaves behind

A lookup probes keys in an order and returns the first hit. The lemmas here say
where a returned entry was stored, that a probe which misses removes nothing but
dead entries of its own key, and that entries which a probe moves between the
tiers keep their data.
-/

namespace RecurseX

open Library

variable {Score Stability Inputs : Type}

/-- The entries differ at most in their score, their tier and when they were
served. -/
structure CacheEntry.SameData (left right : CacheEntry Score Stability) : Prop where
  key : left.key = right.key
  kind : left.kind = right.kind
  inserted : left.inserted = right.inserted
  expires : left.expires = right.expires
  stability : left.stability = right.stability
  validated : left.validated = right.validated
  refreshing : left.refreshing = right.refreshing

@[refl] theorem CacheEntry.SameData.refl (entry : CacheEntry Score Stability) :
    entry.SameData entry :=
  ⟨rfl, rfl, rfl, rfl, rfl, rfl, rfl⟩

theorem CacheEntry.SameData.trans {first second third : CacheEntry Score Stability}
    (left : first.SameData second) (right : second.SameData third) : first.SameData third :=
  ⟨left.key.trans right.key, left.kind.trans right.kind, left.inserted.trans right.inserted,
    left.expires.trans right.expires, left.stability.trans right.stability,
    left.validated.trans right.validated, left.refreshing.trans right.refreshing⟩

/-- The entry as a lookup returns it. -/
def CacheEntry.serve (entry : CacheEntry Score Stability) (now : Ts) :
    CacheEntry Score Stability :=
  { entry with lastServed := now, served := entry.served + 1 }

/-- The entry answers a lookup, fresh or stale. -/
def CacheEntry.Servable (entry : CacheEntry Score Stability) (now : Ts)
    (staleWindowSecs : UInt32) : Prop :=
  entry.isFresh now = true ∨ entry.isStaleServable now staleWindowSecs = true

namespace SemanticCache

variable {scoring : Scoring Score Stability Inputs} {cache : SemanticCache Score Stability}
  {key other : CacheKey} {entry held : CacheEntry Score Stability} {tier source : Tier}

/-- Some tier holds a servable entry under the key. -/
def Servable (cache : SemanticCache Score Stability) (key : CacheKey) (now : Ts) : Prop :=
  ∃ tier entry, (cache.tierMap tier).get? key = some entry ∧
    entry.Servable now cache.config.staleWindowSecs

/-! ## Probing the exact key -/

/-- What a miss leaves: entries of the probed key may be gone, all others stand. -/
structure Missed (cache after : SemanticCache Score Stability) (key : CacheKey) : Prop where
  config : after.config = cache.config
  others : ∀ tier other, other ≠ key →
    (after.tierMap tier).get? other = (cache.tierMap tier).get? other
  own : ∀ tier entry, (after.tierMap tier).get? key = some entry →
    (cache.tierMap tier).get? key = some entry

theorem Missed.refl (cache : SemanticCache Score Stability) (key : CacheKey) :
    Missed cache cache key :=
  ⟨rfl, fun _ _ _ => rfl, fun _ _ stored => stored⟩

theorem Missed.stored {after : SemanticCache Score Stability} (missed : Missed cache after key)
    (stored : (after.tierMap tier).get? other = some entry) :
    (cache.tierMap tier).get? other = some entry := by
  by_cases same : other = key
  · subst same
    exact missed.own tier entry stored
  · rwa [← missed.others tier other same]

theorem Missed.trans {middle after : SemanticCache Score Stability}
    (first : Missed cache middle key) (second : Missed middle after key) :
    Missed cache after key :=
  ⟨second.config.trans first.config,
    fun tier other different =>
      (second.others tier other different).trans (first.others tier other different),
    fun _ _ stored => first.stored (second.stored stored)⟩

/-- Dropping the entry of a key from one tier. -/
theorem missed_drop (scoring : Scoring Score Stability Inputs)
    (cache : SemanticCache Score Stability) (tier : Tier) (key : CacheKey)
    (event : CacheStats → CacheStats) :
    Missed cache ((cache.setTier tier
      ((cache.tierMap tier).remove scoring.ranking key).2).count event) key := by
  refine ⟨by simp, fun source other different => ?_, fun source entry stored => ?_⟩
  · rw [tierMap_count]
    by_cases same : source = tier
    · subst same
      rw [tierMap_setTier_self, RankedMap.get?_remove_of_ne different]
    · rw [tierMap_setTier_of_ne same]
  · rw [tierMap_count] at stored
    by_cases same : source = tier
    · subst same
      rw [tierMap_setTier_self, RankedMap.get?_remove_self] at stored
      cases stored
    · rwa [tierMap_setTier_of_ne same] at stored

/-- What a removal returns is what the tier held. -/
theorem get?_of_remove {map : TierMap Score Stability} {result : Option (CacheEntry Score Stability)}
    (removed : (cache.tierMap tier).remove scoring.ranking key = (result, map)) :
    (cache.tierMap tier).get? key = result ∧
      map = ((cache.tierMap tier).remove scoring.ranking key).2 := by
  rw [removed, ← RankedMap.remove_fst scoring.ranking, removed]
  exact ⟨rfl, rfl⟩

/-- The outcome of a hit on an entry: it is fresh, or it is stale but servable. -/
inductive HitOn (scoring : Scoring Score Stability Inputs) (now : Ts) (staleWindowSecs : UInt32)
    (entry : CacheEntry Score Stability) : LookupOutcome Score Stability → Prop where
  | fresh (live : entry.isFresh now = true) :
      HitOn scoring now staleWindowSecs entry (.fresh { entry.serve now with
        score := scoreEntry scoring (entry.serve now) now scoring.defaultInputs })
  | stale (expired : entry.isFresh now = false)
      (servable : entry.isStaleServable now staleWindowSecs = true) :
      HitOn scoring now staleWindowSecs entry (.stale (entry.serve now))

/-- The entry a hit is on determines the outcome. -/
theorem HitOn.unique {now : Ts} {staleWindowSecs : UInt32}
    {first second : LookupOutcome Score Stability}
    (left : HitOn scoring now staleWindowSecs entry first)
    (right : HitOn scoring now staleWindowSecs entry second) : first = second := by
  cases left with
  | fresh live =>
      cases right with
      | fresh => rfl
      | stale expired => rw [live] at expired; cases expired
  | stale expired =>
      cases right with
      | fresh live => rw [live] at expired; cases expired
      | stale => rfl

theorem HitOn.servable {now : Ts} {staleWindowSecs : UInt32}
    {outcome : LookupOutcome Score Stability}
    (hit : HitOn scoring now staleWindowSecs entry outcome) :
    entry.Servable now staleWindowSecs := by
  cases hit with
  | fresh live => exact .inl live
  | stale _ servable => exact .inr servable

section Probing

variable [LinearOrder Score]

theorem lookupExactIn_some {tiers : List Tier} {now : Ts}
    {outcome : LookupOutcome Score Stability}
    (found : (lookupExactIn scoring key now tiers cache).1 = some outcome) :
    ∃ tier entry, (cache.tierMap tier).get? key = some entry ∧
      HitOn scoring now cache.config.staleWindowSecs entry outcome := by
  induction tiers generalizing cache with
  | nil => cases found
  | cons tier tiers inductionHypothesis =>
      unfold lookupExactIn at found
      split at found
      · exact inductionHypothesis found
      · rename_i entry map removed
        obtain ⟨stored, rfl⟩ := get?_of_remove removed
        dsimp only at found
        split_ifs at found with live servable
        · obtain rfl := Option.some.inj found
          exact ⟨tier, entry, stored, .fresh live⟩
        · obtain rfl := Option.some.inj found
          rw [setTier_config] at servable
          exact ⟨tier, entry, stored, .stale (Bool.not_eq_true _ ▸ live) servable⟩
        · have missed := missed_drop scoring cache tier key fun stats =>
            { stats with misses := stats.misses + 1 }
          obtain ⟨tier, entry, stored, hit⟩ := inductionHypothesis found
          rw [missed.config] at hit
          exact ⟨tier, entry, missed.stored stored, hit⟩

theorem lookupExactIn_none {tiers : List Tier} {now : Ts}
    (missing : (lookupExactIn scoring key now tiers cache).1 = none) :
    Missed cache (lookupExactIn scoring key now tiers cache).2 key ∧
    ∀ tier ∈ tiers, ∀ entry, (cache.tierMap tier).get? key = some entry →
      ¬ entry.Servable now cache.config.staleWindowSecs := by
  induction tiers generalizing cache with
  | nil => exact ⟨.refl cache key, by simp⟩
  | cons tier tiers inductionHypothesis =>
      unfold lookupExactIn at missing ⊢
      split at missing
      · rename_i map removed
        obtain ⟨absent, _⟩ := get?_of_remove removed
        obtain ⟨missed, others⟩ := inductionHypothesis missing
        refine ⟨by simpa only [removed] using missed, fun source member entry stored => ?_⟩
        rcases List.mem_cons.mp member with rfl | later
        · rw [absent] at stored
          cases stored
        · exact others source later entry stored
      · rename_i entry map removed
        obtain ⟨stored, rest⟩ := get?_of_remove removed
        dsimp only at missing
        split_ifs at missing with live servable
        have dropped := missed_drop scoring cache tier key fun stats =>
          { stats with misses := stats.misses + 1 }
        rw [← rest] at dropped
        obtain ⟨missed, others⟩ := inductionHypothesis missing
        dsimp only
        rw [if_neg live, if_neg servable]
        refine ⟨dropped.trans missed, fun source member held found => ?_⟩
        by_cases same : source = tier
        · subst same
          obtain rfl : entry = held := Option.some.inj (stored.symm.trans found)
          rw [setTier_config] at servable
          exact fun either => either.elim live servable
        · rw [dropped.config] at others
          refine others source (List.mem_of_ne_of_mem same member) held ?_
          rwa [tierMap_count, tierMap_setTier_of_ne same]

/-- A servable entry of a consistent cache is found. -/
theorem Consistent.lookupExact_eq {now : Ts} {outcome : LookupOutcome Score Stability}
    (consistent : cache.Consistent scoring)
    (stored : (cache.tierMap tier).get? key = some entry)
    (hit : HitOn scoring now cache.config.staleWindowSecs entry outcome) :
    (cache.lookupExact scoring key now).1 = some outcome := by
  unfold lookupExact
  cases found : (lookupExactIn scoring key now [.hot, .warm, .cold] cache).1 with
  | none =>
      refine absurd hit.servable ((lookupExactIn_none found).2 tier ?_ entry stored)
      cases tier <;> decide
  | some other =>
      obtain ⟨source, held, first, hitHeld⟩ := lookupExactIn_some found
      obtain rfl := consistent.single stored first
      obtain rfl : entry = held := Option.some.inj (stored.symm.trans first)
      rw [hitHeld.unique hit]

/-! ## Probing keys in order -/

/-- Probe the keys in order until one hits. -/
def probeAll {α : Type}
    (probe : SemanticCache Score Stability → CacheKey → Option α × SemanticCache Score Stability) :
    List CacheKey → SemanticCache Score Stability → Option α × SemanticCache Score Stability
  | [], cache => (none, cache)
  | key :: keys, cache =>
      match probe cache key with
      | (some hit, cache) => (some hit, cache)
      | (none, cache) => probeAll probe keys cache

/-- The first hit is on an entry of its key, and no key before it was servable. -/
theorem probeAll_exact_some {keys : List CacheKey} {now : Ts}
    {outcome : LookupOutcome Score Stability}
    (found : (probeAll (fun cache key => cache.lookupExact scoring key now) keys cache).1 =
      some outcome) :
    ∃ before key after tier entry, keys = before ++ key :: after ∧
      (∀ earlier ∈ before, ¬ cache.Servable earlier now) ∧
      (cache.tierMap tier).get? key = some entry ∧
      HitOn scoring now cache.config.staleWindowSecs entry outcome := by
  induction keys generalizing cache with
  | nil => cases found
  | cons key keys inductionHypothesis =>
      unfold probeAll at found
      split at found
      · rename_i hit after probed
        obtain rfl := Option.some.inj found
        obtain ⟨tier, entry, stored, hitOn⟩ :=
          lookupExactIn_some (congrArg Prod.fst probed)
        exact ⟨[], key, keys, tier, entry, rfl, by simp, stored, hitOn⟩
      · rename_i after probed
        obtain ⟨missed, unservable⟩ := lookupExactIn_none (congrArg Prod.fst probed)
        obtain rfl : (cache.lookupExact scoring key now).2 = after := congrArg Prod.snd probed
        obtain ⟨before, hitKey, rest, tier, entry, split, none, stored, hitOn⟩ :=
          inductionHypothesis found
        have config : (cache.lookupExact scoring key now).2.config = cache.config := missed.config
        rw [config] at hitOn
        refine ⟨key :: before, hitKey, rest, tier, entry, by rw [split]; rfl, ?_,
          missed.stored stored, hitOn⟩
        intro earlier member servable
        obtain ⟨source, held, present, live⟩ := servable
        by_cases same : earlier = key
        · subst same
          refine unservable source ?_ held present live
          cases source <;> decide
        · refine none earlier (List.mem_of_ne_of_mem same member) ⟨source, held, ?_, ?_⟩
          · exact (missed.others source earlier same).trans present
          · rwa [config]

/-- Past keys that are not servable, a servable entry is found. -/
theorem Consistent.probeAll_exact_eq {before : List CacheKey} {now : Ts}
    {outcome : LookupOutcome Score Stability} (consistent : cache.Consistent scoring)
    (after : List CacheKey)
    (none : ∀ earlier ∈ before, ¬ cache.Servable earlier now)
    (stored : (cache.tierMap tier).get? key = some entry)
    (hit : HitOn scoring now cache.config.staleWindowSecs entry outcome) :
    (probeAll (fun cache key => cache.lookupExact scoring key now) (before ++ key :: after)
      cache).1 = some outcome := by
  induction before generalizing cache with
  | nil =>
      have found := consistent.lookupExact_eq stored hit
      rw [List.nil_append]
      unfold probeAll
      split
      · rename_i other rest probed
        rw [probed] at found
        exact found
      · rename_i rest probed
        rw [probed] at found
        cases found
  | cons first before inductionHypothesis =>
      rw [List.cons_append]
      unfold probeAll
      split
      · rename_i other rest probed
        obtain ⟨source, held, found, hitHeld⟩ := lookupExactIn_some (congrArg Prod.fst probed)
        exact absurd ⟨source, held, found, hitHeld.servable⟩ (none first List.mem_cons_self)
      · rename_i rest probed
        obtain ⟨missed, _⟩ := lookupExactIn_none (congrArg Prod.fst probed)
        obtain rfl : (cache.lookupExact scoring first now).2 = rest := congrArg Prod.snd probed
        have config : (cache.lookupExact scoring first now).2.config = cache.config :=
          missed.config
        have different : key ≠ first := by
          rintro rfl
          exact none key List.mem_cons_self ⟨tier, entry, stored, hit.servable⟩
        refine inductionHypothesis ((consistent_kept scoring).lookupExactIn first now _ cache
          consistent) ?_ ((missed.others tier key different).trans stored) (config ▸ hit)
        rintro earlier member ⟨source, held, found, live⟩
        refine none earlier (List.mem_cons_of_mem _ member) ⟨source, held, missed.stored found, ?_⟩
        rwa [config] at live

end Probing

/-! ## Entries keep their data when they move -/

/-- The cache holds an entry of the key with the same data. -/
def Holds (cache : SemanticCache Score Stability) (key : CacheKey)
    (entry : CacheEntry Score Stability) : Prop :=
  ∃ tier old, (cache.tierMap tier).get? key = some old ∧ old.SameData entry

theorem park_stored (indexed : cache.AllIndexed scoring)
    (stored : ((cache.park scoring entry).tierMap source).get? key = some held) :
    (key = entry.key ∧ entry.SameData held) ∨ cache.Holds key held := by
  rcases indexed.stored_of_store .cold stored with ⟨-, same, rfl⟩ | before
  · exact .inl ⟨same, rfl, rfl, rfl, rfl, rfl, rfl, rfl⟩
  · exact .inr ⟨source, held, before, .refl held⟩

/-- Every entry held after is an entry held before, with the same data. -/
def Descends (after cache : SemanticCache Score Stability) : Prop :=
  ∀ source key held, (after.tierMap source).get? key = some held → cache.Holds key held

theorem Descends.refl (cache : SemanticCache Score Stability) : Descends cache cache :=
  fun source _ held stored => ⟨source, held, stored, .refl held⟩

theorem Descends.trans {after middle : SemanticCache Score Stability}
    (second : Descends after middle) (first : Descends middle cache) : Descends after cache := by
  intro source key held stored
  obtain ⟨tier, old, between, same⟩ := second source key held stored
  obtain ⟨origin, oldest, before, older⟩ := first tier key old between
  exact ⟨origin, oldest, before, older.trans same⟩

theorem Missed.descends {after : SemanticCache Score Stability} (missed : Missed cache after key) :
    Descends after cache :=
  fun source _ held stored => ⟨source, held, missed.stored stored, .refl held⟩

/-- Taking an entry out brings nothing in. -/
theorem takeEntryAny_descends (scoring : Scoring Score Stability Inputs)
    (cache : SemanticCache Score Stability) (key : CacheKey) :
    Descends (cache.takeEntryAny scoring key).2 cache := by
  rcases cache.takeEntryAny_cases scoring key with ⟨tier, entry, -, result⟩ | ⟨-, result⟩
  · rw [result]
    exact (missed_drop scoring cache tier key id).descends
  · rw [result]
    exact .refl cache

/-- An entry that is taken out and parked, with the same data. -/
theorem AllIndexed.park_descends (indexed : cache.AllIndexed scoring)
    (stored : (cache.tierMap tier).get? key = some entry) (event : CacheStats → CacheStats)
    {moved : CacheEntry Score Stability} (same : entry.SameData moved) :
    Descends (((cache.setTier tier ((cache.tierMap tier).remove scoring.ranking key).2).count
      event).park scoring moved) cache := by
  have keyed : moved.key = key := same.key.symm.trans ((indexed tier).keyed stored)
  have taken := (indexed.setTier ((indexed tier).remove key) tier).count event
  have missed := missed_drop scoring cache tier key event
  intro source other held found
  rcases park_stored taken found with ⟨rfl, moving⟩ | ⟨origin, old, before, kept⟩
  · exact ⟨tier, entry, keyed ▸ stored, same.trans moving⟩
  · exact ⟨origin, old, missed.stored before, kept⟩

/-- The outcome of a hit on a fresh alias. -/
def AliasOn (now : Ts) (entry : CacheEntry Score Stability)
    (outcome : LookupOutcome Score Stability) : Prop :=
  ∃ target, entry.cnameTarget = some target ∧ entry.isFresh now = true ∧
    outcome = .cname target entry.ttlSecs entry.expires entry.validated

theorem AliasOn.of_sameData {now : Ts} {outcome : LookupOutcome Score Stability}
    (same : entry.SameData held) (aliased : AliasOn now held outcome) :
    AliasOn now entry outcome := by
  simpa only [AliasOn, CacheEntry.cnameTarget, CacheEntry.isFresh, CacheEntry.ttlSecs, same.kind,
    same.expires, same.validated] using aliased

variable [LinearOrder Score]

theorem place_stored (indexed : cache.AllIndexed scoring)
    (stored : ((cache.place scoring entry).tierMap source).get? key = some held) :
    (key = entry.key ∧ entry.SameData held) ∨ cache.Holds key held := by
  unfold place at stored
  split at stored
  · exact .inr ⟨source, held, stored, .refl held⟩
  · rename_i tier _
    dsimp only at stored
    have inserted : ∀ {source : Tier} {key : CacheKey} {held : CacheEntry Score Stability},
        ((cache.setTier tier ((cache.tierMap tier).insert scoring.ranking
          { entry with tier }).2).tierMap source).get? key = some held →
        (key = entry.key ∧ entry.SameData held) ∨ cache.Holds key held := by
      intro source key held stored
      rcases indexed.stored_of_store tier stored with ⟨-, same, rfl⟩ | before
      · exact .inl ⟨same, rfl, rfl, rfl, rfl, rfl, rfl, rfl⟩
      · exact .inr ⟨source, held, before, .refl held⟩
    split at stored
    · rename_i victim evicted
      rcases (indexed.store tier _).stored_of_spill stored with ⟨-, rfl, rfl⟩ | before
      · have old := (RankedMap.get?_insert_victim (indexed tier) evicted).1
        exact .inr ⟨tier, victim, old, rfl, rfl, rfl, rfl, rfl, rfl, rfl⟩
      · exact inserted before
    · exact inserted stored

/-- An entry that is taken out and placed again, with the same data. -/
theorem AllIndexed.place_descends (indexed : cache.AllIndexed scoring)
    (stored : (cache.tierMap tier).get? key = some entry) (event : CacheStats → CacheStats)
    {moved : CacheEntry Score Stability} (same : entry.SameData moved) :
    Descends (((cache.setTier tier ((cache.tierMap tier).remove scoring.ranking key).2).count
      event).place scoring moved) cache := by
  have keyed : moved.key = key := same.key.symm.trans ((indexed tier).keyed stored)
  have taken := (indexed.setTier ((indexed tier).remove key) tier).count event
  have missed := missed_drop scoring cache tier key event
  intro source other held found
  rcases place_stored taken found with ⟨rfl, moving⟩ | ⟨origin, old, before, kept⟩
  · exact ⟨tier, entry, keyed ▸ stored, same.trans moving⟩
  · exact ⟨origin, old, missed.stored before, kept⟩

/-- Scoring an entry anew keeps its data. -/
theorem AllIndexed.rescore_descends (indexed : cache.AllIndexed scoring) (key : CacheKey)
    (inputs : Inputs) (now : Ts) : Descends (cache.rescore scoring key inputs now) cache := by
  unfold SemanticCache.rescore
  rcases cache.takeEntryAny_cases scoring key with ⟨tier, entry, found, result⟩ | ⟨_, result⟩
  · have same : entry.SameData { entry with score := scoreEntry scoring entry now inputs } :=
      ⟨rfl, rfl, rfl, rfl, rfl, rfl, rfl⟩
    rw [result]
    exact indexed.place_descends found id same
  · rw [result]
    exact .refl cache

/-- Looking for an alias keeps the data of every entry, and what it returns is a
fresh alias under the key. -/
theorem lookupCnameIn_spec (key : CacheKey) (tiers : List Tier) (now : Ts)
    (indexed : cache.AllIndexed scoring) :
    Descends (lookupCnameIn scoring key now tiers cache).2 cache ∧
    ∀ outcome, (lookupCnameIn scoring key now tiers cache).1 = some outcome →
      ∃ tier entry, (cache.tierMap tier).get? key = some entry ∧ AliasOn now entry outcome := by
  induction tiers generalizing cache with
  | nil => exact ⟨.refl cache, fun _ impossible => (nomatch impossible)⟩
  | cons tier tiers inductionHypothesis =>
      -- Whatever becomes of a tier that does not answer, the rest of the walk
      -- sees entries of the cache the walk started from.
      have proceed : ∀ {middle : SemanticCache Score Stability}, middle.AllIndexed scoring →
          Descends middle cache →
          Descends (lookupCnameIn scoring key now tiers middle).2 cache ∧
          ∀ outcome, (lookupCnameIn scoring key now tiers middle).1 = some outcome →
            ∃ tier entry, (cache.tierMap tier).get? key = some entry ∧
              AliasOn now entry outcome := by
        intro middle indexed descends
        obtain ⟨rest, found⟩ := inductionHypothesis indexed
        refine ⟨rest.trans descends, fun outcome hit => ?_⟩
        obtain ⟨source, held, stored, aliased⟩ := found outcome hit
        obtain ⟨origin, old, before, same⟩ := descends source key held stored
        exact ⟨origin, old, before, aliased.of_sameData same⟩
      unfold lookupCnameIn
      split
      · exact proceed indexed (.refl cache)
      · rename_i entry map removed
        obtain ⟨stored, rfl⟩ := get?_of_remove removed
        have taken := indexed.setTier ((indexed tier).remove key) tier
        dsimp only
        split
        · exact proceed (taken.place _) (indexed.place_descends stored id (.refl entry))
        · rename_i target aliased
          split_ifs with live servable
          · refine ⟨indexed.place_descends stored (fun stats =>
              { stats with hits := stats.hits + 1 }) ⟨rfl, rfl, rfl, rfl, rfl, rfl, rfl⟩,
              fun outcome hit => ?_⟩
            obtain rfl := Option.some.inj hit
            exact ⟨tier, entry, stored, target, aliased, live, rfl⟩
          · exact proceed (taken.store .cold _) (indexed.park_descends stored id
              ⟨rfl, rfl, rfl, rfl, rfl, rfl, rfl⟩)
          · exact proceed taken (missed_drop scoring cache tier key id).descends

theorem probeAll_exact_none {keys : List CacheKey} {now : Ts}
    (missing : (probeAll (fun cache key => cache.lookupExact scoring key now) keys cache).1 =
      none) :
    Descends (probeAll (fun cache key => cache.lookupExact scoring key now) keys cache).2
      cache := by
  induction keys generalizing cache with
  | nil => exact .refl cache
  | cons key keys inductionHypothesis =>
      unfold probeAll at missing ⊢
      split at missing
      · cases missing
      · rename_i after probed
        obtain ⟨missed, _⟩ := lookupExactIn_none (congrArg Prod.fst probed)
        obtain rfl : (cache.lookupExact scoring key now).2 = after := congrArg Prod.snd probed
        exact (inductionHypothesis missing).trans missed.descends

theorem probeAll_cname_some {keys : List CacheKey} {now : Ts}
    {outcome : LookupOutcome Score Stability} (indexed : cache.AllIndexed scoring)
    (found : (probeAll (fun cache key => cache.lookupCname scoring key now) keys cache).1 =
      some outcome) :
    ∃ key ∈ keys, ∃ tier entry, (cache.tierMap tier).get? key = some entry ∧
      AliasOn now entry outcome := by
  induction keys generalizing cache with
  | nil => cases found
  | cons key keys inductionHypothesis =>
      obtain ⟨descends, hits⟩ :=
        lookupCnameIn_spec key [.hot, .warm, .cold] now indexed
      have kept := (allIndexed_kept scoring).lookupCnameIn key now [.hot, .warm, .cold] cache
        indexed
      unfold probeAll at found
      split at found
      · rename_i hit after probed
        obtain rfl := Option.some.inj found
        obtain ⟨tier, entry, stored, aliased⟩ := hits hit (congrArg Prod.fst probed)
        exact ⟨key, List.mem_cons_self, tier, entry, stored, aliased⟩
      · rename_i after probed
        obtain rfl : (cache.lookupCname scoring key now).2 = after := congrArg Prod.snd probed
        obtain ⟨other, member, tier, entry, stored, aliased⟩ := inductionHypothesis kept found
        obtain ⟨origin, old, before, same⟩ := descends tier other entry stored
        exact ⟨other, List.mem_cons_of_mem _ member, origin, old, before,
          aliased.of_sameData same⟩

end SemanticCache

/-! ## The order of the partitions -/

namespace CacheKey

/-- The key in every scope below `scope` bits, narrowest first. -/
def broader (key : CacheKey) (ecs : EcsKey) : (scope : Nat) → List CacheKey
  | 0 => []
  | scope + 1 =>
      if scope = 0 then []
      else
        key.withEcs (some ⟨ecs.family, UInt8.ofNat scope,
          truncateTo ecs.addr (UInt8.ofNat scope)⟩) :: broader key ecs scope

/-- The keys a lookup probes: the requester's own partition, every broader
scope, the global partition. -/
def ladder (key : CacheKey) : List CacheKey :=
  match key.ecs with
  | none => [key]
  | some ecs => key :: (key.broader ecs ecs.bits.toNat ++ [key.withEcs none])

end CacheKey

namespace SemanticCache

variable {α : Type}
  {probe : SemanticCache Score Stability → CacheKey → Option α × SemanticCache Score Stability}

theorem probeAll_cons_some {cache after : SemanticCache Score Stability} {key : CacheKey}
    {keys : List CacheKey} {hit : α} (probed : probe cache key = (some hit, after)) :
    probeAll probe (key :: keys) cache = (some hit, after) := by
  simp only [probeAll, probed]

theorem probeAll_cons_none {cache after : SemanticCache Score Stability} {key : CacheKey}
    {keys : List CacheKey} (probed : probe cache key = (none, after)) :
    probeAll probe (key :: keys) cache = probeAll probe keys after := by
  simp only [probeAll, probed]

/-- Probing on past a first list of keys. -/
theorem probeAll_append (first second : List CacheKey) (cache : SemanticCache Score Stability) :
    probeAll probe (first ++ second) cache =
      match probeAll probe first cache with
      | (some hit, after) => (some hit, after)
      | (none, after) => probeAll probe second after := by
  induction first generalizing cache with
  | nil => rfl
  | cons key keys inductionHypothesis =>
      rw [List.cons_append]
      rcases probed : probe cache key with ⟨_ | hit, after⟩
      · rw [probeAll_cons_none probed, probeAll_cons_none probed, inductionHypothesis]
      · rw [probeAll_cons_some probed, probeAll_cons_some probed]

theorem walkScopes_eq_probeAll (key : CacheKey) (ecs : EcsKey) {scope : Nat}
    (within : scope ≤ ecs.bits.toNat) (cache : SemanticCache Score Stability) :
    walkScopes key ecs probe scope cache = probeAll probe (key.broader ecs scope) cache := by
  induction scope generalizing cache with
  | zero => rfl
  | succ scope inductionHypothesis =>
      unfold walkScopes CacheKey.broader
      split_ifs with last
      · rfl
      · have small : (UInt8.ofNat scope).toNat = scope := by
          have := ecs.bits.toNat_lt
          rw [UInt8.toNat_ofNat']
          omega
        have narrower : min (UInt8.ofNat scope) ecs.bits = UInt8.ofNat scope := by
          refine if_pos ?_
          rw [UInt8.le_iff_toNat_le, small]
          omega
        have positive : UInt8.ofNat scope ≠ 0 := by
          intro zero
          rw [zero] at small
          exact last small.symm
        have broader : ecs.withScope (UInt8.ofNat scope) = some ⟨ecs.family, UInt8.ofNat scope,
            truncateTo ecs.addr (UInt8.ofNat scope)⟩ := by
          simp only [EcsKey.withScope, narrower, if_neg positive]
        simp only [broader]
        split
        · rename_i probed
          rw [probeAll_cons_some probed]
        · rename_i probed
          rw [probeAll_cons_none probed, inductionHypothesis (by omega)]

/-- The walk over the partitions probes the ladder. -/
theorem walkPartitions_eq_probeAll (key : CacheKey) (cache : SemanticCache Score Stability) :
    walkPartitions key probe cache = probeAll probe key.ladder cache := by
  unfold walkPartitions CacheKey.ladder
  cases key.ecs with
  | none =>
      rcases probed : probe cache key with ⟨_ | hit, after⟩
      · rw [probeAll_cons_none probed, probeAll]
      · rw [probeAll_cons_some probed]
  | some ecs =>
      dsimp only
      rcases probed : probe cache key with ⟨_ | hit, after⟩
      · rw [probeAll_cons_none probed, probeAll_append]
        dsimp only
        rw [walkScopes_eq_probeAll key ecs (Nat.le_refl _)]
        rcases walked : probeAll probe (key.broader ecs ecs.bits.toNat) after with ⟨_ | hit, last⟩
        · dsimp only
          rcases probed : probe last (key.withEcs none) with ⟨_ | hit, final⟩
          · rw [probeAll_cons_none probed, probeAll]
          · rw [probeAll_cons_some probed]
        · rfl
      · rw [probeAll_cons_some probed]

variable [LinearOrder Score] {scoring : Scoring Score Stability Inputs}
  {cache : SemanticCache Score Stability}

/-- Where the outcome of a lookup comes from. -/
theorem Consistent.lookup_cases (consistent : cache.Consistent scoring) (key : CacheKey)
    (now : Ts) :
    ((probeAll (fun cache key => cache.lookupExact scoring key now) key.ladder cache).1 =
      some (cache.lookup scoring key now).1) ∨
    (∃ other ∈ (key.withType .CNAME).ladder, ∃ tier entry,
      (cache.tierMap tier).get? other = some entry ∧
        AliasOn now entry (cache.lookup scoring key now).1) ∨
    (∃ expires soa, (cache.lookup scoring key now).1 = .nxDomain expires soa) ∨
    (cache.lookup scoring key now).1 = .miss := by
  have negative : ∀ after : SemanticCache Score Stability,
      (∃ expires soa, (after.lookupNx key now).1 = .nxDomain expires soa) ∨
        (after.lookupNx key now).1 = .miss := by
    intro after
    unfold lookupNx
    dsimp only
    split
    · split_ifs
      · exact .inl ⟨_, _, rfl⟩
      · exact .inr rfl
    · exact .inr rfl
  unfold lookup
  rw [walkPartitions_eq_probeAll]
  have kept : (probeAll (fun cache key => cache.lookupExact scoring key now) key.ladder
      cache).2.Consistent scoring := by
    rw [← walkPartitions_eq_probeAll]
    exact walkPartitions_keeps _ (fun cache key => (consistent_kept scoring).lookupExactIn key now _
      cache) key cache consistent
  split
  · rename_i outcome after found
    exact .inl (by rw [found])
  · rename_i after found
    have descends := probeAll_exact_none (congrArg Prod.fst found)
    rw [found] at descends kept
    right
    split_ifs
    · rw [walkPartitions_eq_probeAll]
      split
      · rename_i outcome last aliasFound
        obtain ⟨other, member, tier, entry, stored, aliased⟩ :=
          probeAll_cname_some kept.indexed (congrArg Prod.fst aliasFound)
        obtain ⟨origin, old, before, same⟩ := descends tier other entry stored
        exact .inl ⟨other, member, origin, old, before, aliased.of_sameData same⟩
      · exact .inr (negative _)
    · exact .inr (negative _)

end SemanticCache

end RecurseX
