import RecurseX.Cache.Eviction
import RecurseX.Cache.Existence
import RecurseX.Cache.Partition

/-!
# Asking again after a hit

A hit takes the entry out, ranks it anew and admits it again, so a read can lose what
it read. `hit_again_iff` says, for every reachable cache, exactly when the next lookup
of the key returns the same data: the new score must still earn a tier, and on the way
from hot to cold the entry must not pass another copy of its key in the warm tier.
-/

namespace RecurseX

open Library

variable {Score Stability Inputs : Type}

namespace SemanticCache

variable {scoring : Scoring Score Stability Inputs} {cache after : SemanticCache Score Stability}
  {tier source target : Tier} {key other rung : CacheKey} {entry held : CacheEntry Score Stability}
  {now : Ts}

/-! ## The entry a lookup finds -/

/-- The entry of one slot, if a lookup may serve it. -/
def servableAt (cache : SemanticCache Score Stability) (now : Ts) (key : CacheKey) (tier : Tier) :
    Option (CacheEntry Score Stability) :=
  ((cache.tierMap tier).get? key).filter fun entry =>
    entry.isFresh now || entry.isStaleServable now cache.config.staleWindowSecs

/-- The first of the tiers that can serve the key. -/
def servedIn (cache : SemanticCache Score Stability) (now : Ts) (tiers : List Tier)
    (key : CacheKey) : Option (Tier × CacheEntry Score Stability) :=
  tiers.findSome? fun tier => (cache.servableAt now key tier).map (tier, ·)

/-- The first rung of the ladder that can be served, and from where. -/
def servedOn (cache : SemanticCache Score Stability) (now : Ts) (ladder : List CacheKey) :
    Option (CacheKey × Tier × CacheEntry Score Stability) :=
  ladder.findSome? fun rung => (cache.servedIn now [.hot, .warm, .cold] rung).map (rung, ·)

/-- The entry as a fresh hit ranks it anew. -/
def reranked (scoring : Scoring Score Stability Inputs) (now : Ts)
    (entry : CacheEntry Score Stability) : CacheEntry Score Stability :=
  { entry.serve now with
    score := scoreEntry scoring (entry.serve now) now scoring.defaultInputs }

/-- What a lookup says about the entry it serves. -/
def outcomeOn (scoring : Scoring Score Stability Inputs) (now : Ts)
    (entry : CacheEntry Score Stability) : LookupOutcome Score Stability :=
  if entry.isFresh now then .fresh (reranked scoring now entry) else .stale (entry.serve now)

/-- The cache without the entry of one slot. -/
def takeAt (scoring : Scoring Score Stability Inputs) (cache : SemanticCache Score Stability)
    (key : CacheKey) (tier : Tier) : SemanticCache Score Stability :=
  cache.setTier tier ((cache.tierMap tier).remove scoring.ranking key).2

theorem servableAt_eq_some_iff : cache.servableAt now key tier = some entry ↔
    (cache.tierMap tier).get? key = some entry ∧
      entry.Servable now cache.config.staleWindowSecs := by
  rw [servableAt, Option.filter_eq_some_iff, Bool.or_eq_true]
  rfl

theorem servableAt_eq_none_iff : cache.servableAt now key tier = none ↔
    ∀ entry, (cache.tierMap tier).get? key = some entry →
      ¬ entry.Servable now cache.config.staleWindowSecs := by
  rw [Option.eq_none_iff_forall_ne_some]
  refine forall_congr' fun entry => ?_
  rw [ne_eq, servableAt_eq_some_iff, not_and]

/-- The caches serve the same entries from the same slots, with the same configuration. -/
structure Serves (now : Ts) (cache after : SemanticCache Score Stability) : Prop where
  config : after.config = cache.config
  capacity : ∀ tier, (after.tierMap tier).capacity = (cache.tierMap tier).capacity
  slots : ∀ key tier, after.servableAt now key tier = cache.servableAt now key tier

theorem Serves.refl (cache : SemanticCache Score Stability) : Serves now cache cache :=
  ⟨rfl, fun _ => rfl, fun _ _ => rfl⟩

theorem Serves.trans {final : SemanticCache Score Stability} (first : Serves now cache after)
    (second : Serves now after final) : Serves now cache final :=
  ⟨second.config.trans first.config, fun tier => (second.capacity tier).trans (first.capacity tier),
    fun key tier => (second.slots key tier).trans (first.slots key tier)⟩

theorem Serves.count (event : CacheStats → CacheStats) : Serves now cache (cache.count event) :=
  ⟨rfl, fun _ => by rw [tierMap_count], fun _ _ => by rw [servableAt, tierMap_count]; rfl⟩

theorem Serves.servedIn (serves : Serves now cache after) (tiers : List Tier) :
    after.servedIn now tiers = cache.servedIn now tiers := by
  funext key
  simp only [SemanticCache.servedIn, serves.slots]

theorem Serves.servedOn (serves : Serves now cache after) (ladder : List CacheKey) :
    after.servedOn now ladder = cache.servedOn now ladder := by
  simp only [SemanticCache.servedOn, serves.servedIn]

/-! ## Taking one entry out -/

@[simp] theorem takeAt_config : (cache.takeAt scoring key tier).config = cache.config :=
  setTier_config

@[simp] theorem takeAt_capacity :
    ((cache.takeAt scoring key tier).tierMap source).capacity =
      (cache.tierMap source).capacity := by
  unfold takeAt
  by_cases same : source = tier
  · subst same
    rw [tierMap_setTier_self, RankedMap.remove_capacity]
  · rw [tierMap_setTier_of_ne same]

@[simp] theorem servableAt_takeAt_self :
    (cache.takeAt scoring key tier).servableAt now key tier = none := by
  rw [servableAt, takeAt, tierMap_setTier_self, RankedMap.get?_remove_self]
  rfl

theorem servableAt_takeAt_of_ne (different : (other, source) ≠ (key, tier)) :
    (cache.takeAt scoring key tier).servableAt now other source =
      cache.servableAt now other source := by
  unfold servableAt takeAt
  rw [setTier_config]
  by_cases same : source = tier
  · subst same
    have apart : other ≠ key := fun equal => different (by rw [equal])
    rw [tierMap_setTier_self, RankedMap.get?_remove_of_ne apart]
  · rw [tierMap_setTier_of_ne same]

theorem Serves.takeAt (serves : Serves now cache after) (key : CacheKey) (tier : Tier) :
    Serves now (cache.takeAt scoring key tier) (after.takeAt scoring key tier) := by
  refine ⟨by simp [serves.config], fun tier => by simp [serves.capacity], fun other source => ?_⟩
  by_cases same : (other, source) = (key, tier)
  · obtain ⟨rfl, rfl⟩ := Prod.mk.inj same
    rw [servableAt_takeAt_self, servableAt_takeAt_self]
  · rw [servableAt_takeAt_of_ne same, servableAt_takeAt_of_ne same, serves.slots]

/-- Nothing is lost with an entry that cannot be served. -/
theorem serves_takeAt_of_dead (dead : cache.servableAt now key tier = none) :
    Serves now cache (cache.takeAt scoring key tier) := by
  refine ⟨takeAt_config, fun _ => takeAt_capacity, fun other source => ?_⟩
  by_cases same : (other, source) = (key, tier)
  · obtain ⟨rfl, rfl⟩ := Prod.mk.inj same
    rw [servableAt_takeAt_self, dead]
  · exact servableAt_takeAt_of_ne same

theorem AllIndexed.takeAt (indexed : cache.AllIndexed scoring) (key : CacheKey) (tier : Tier) :
    (cache.takeAt scoring key tier).AllIndexed scoring :=
  indexed.setTier ((indexed tier).remove key) tier

/-! ## What a hit does -/

theorem outcomeOn_served {hit : CacheEntry Score Stability}
    (served : (outcomeOn scoring now entry).Served hit) :
    hit.kind = entry.kind ∧ hit.validated = entry.validated := by
  unfold outcomeOn at served
  split_ifs at served <;> rcases served with same | same <;> cases same <;> exact ⟨rfl, rfl⟩

theorem lookupNx_not_served (hit : CacheEntry Score Stability) :
    ¬ (cache.lookupNx key now).1.Served hit := by
  unfold lookupNx
  dsimp only
  split
  · split_ifs <;> rintro (impossible | impossible) <;> cases impossible
  · rintro (impossible | impossible) <;> cases impossible

section Hits

variable [LinearOrder Score]

/-- The result of serving one slot: its entry is returned, and when it is fresh it was taken
out and placed with its new score. -/
structure HitAt (scoring : Scoring Score Stability Inputs) (now : Ts)
    (cache : SemanticCache Score Stability) (key : CacheKey) (tier : Tier)
    (entry : CacheEntry Score Stability)
    (result : Option (LookupOutcome Score Stability) × SemanticCache Score Stability) : Prop where
  outcome : result.1 = some (outcomeOn scoring now entry)
  readmits : entry.isFresh now = true → ∃ middle event, Serves now cache middle ∧
    middle.AllIndexed scoring ∧ result.2 =
      ((middle.takeAt scoring key tier).count event).place scoring (reranked scoring now entry)

theorem HitAt.serves {result : Option (LookupOutcome Score Stability) × SemanticCache Score Stability}
    (hit : HitAt scoring now after key tier entry result) (serves : Serves now cache after) :
    HitAt scoring now cache key tier entry result := by
  refine ⟨hit.outcome, fun live => ?_⟩
  obtain ⟨middle, event, same, indexed, placed⟩ := hit.readmits live
  exact ⟨middle, event, serves.trans same, indexed, placed⟩

/-- The result of a probe, by the slot it finds. -/
def Probed (scoring : Scoring Score Stability Inputs) (now : Ts)
    (cache : SemanticCache Score Stability)
    (result : Option (LookupOutcome Score Stability) × SemanticCache Score Stability) :
    Option (CacheKey × Tier × CacheEntry Score Stability) → Prop
  | none => result.1 = none ∧ Serves now cache result.2 ∧ result.2.AllIndexed scoring
  | some (key, tier, entry) => HitAt scoring now cache key tier entry result

theorem Probed.serves {result : Option (LookupOutcome Score Stability) × SemanticCache Score Stability}
    {found : Option (CacheKey × Tier × CacheEntry Score Stability)}
    (probed : Probed scoring now after result found) (serves : Serves now cache after) :
    Probed scoring now cache result found := by
  cases found with
  | none => exact ⟨probed.1, serves.trans probed.2.1, probed.2.2⟩
  | some slot => exact HitAt.serves probed serves

theorem AllIndexed.lookupExactIn_probed (indexed : cache.AllIndexed scoring) (key : CacheKey)
    (now : Ts) (tiers : List Tier) :
    Probed scoring now cache (lookupExactIn scoring key now tiers cache)
      ((cache.servedIn now tiers key).map (key, ·)) := by
  induction tiers generalizing cache with
  | nil => exact ⟨rfl, .refl cache, indexed⟩
  | cons tier tiers inductionHypothesis =>
      rw [servedIn, List.findSome?_cons]
      unfold lookupExactIn
      split
      · rename_i map removed
        obtain ⟨absent, -⟩ := get?_of_remove removed
        have empty : cache.servableAt now key tier = none :=
          servableAt_eq_none_iff.mpr fun entry stored => by
            rw [absent] at stored
            cases stored
        rw [empty]
        exact inductionHypothesis indexed
      · rename_i entry map removed
        obtain ⟨stored, rfl⟩ := get?_of_remove removed
        dsimp only
        split_ifs with live servable
        · rw [servableAt_eq_some_iff.mpr ⟨stored, .inl live⟩]
          exact ⟨by rw [outcomeOn, if_pos (show entry.isFresh now = true from live)]; rfl,
            fun _ => ⟨cache, _, .refl cache, indexed, rfl⟩⟩
        · rw [setTier_config] at servable
          rw [servableAt_eq_some_iff.mpr ⟨stored, .inr servable⟩]
          exact ⟨by rw [outcomeOn, if_neg (show ¬ entry.isFresh now = true from live)]; rfl,
            fun fresh => absurd fresh live⟩
        · -- A dead entry is dropped on the way.
          rw [setTier_config] at servable
          have dead : cache.servableAt now key tier = none :=
            servableAt_eq_none_iff.mpr fun held there => by
              obtain rfl : entry = held := Option.some.inj (stored.symm.trans there)
              exact fun either => either.elim live servable
          rw [dead]
          have dropped : Serves now cache ((cache.takeAt scoring key tier).count fun stats =>
              { stats with misses := stats.misses + 1 }) :=
            (serves_takeAt_of_dead dead).trans (.count _)
          have rest := inductionHypothesis ((indexed.takeAt key tier).count fun stats =>
            { stats with misses := stats.misses + 1 })
          rw [dropped.servedIn] at rest
          exact rest.serves dropped

theorem AllIndexed.probeAll_probed (indexed : cache.AllIndexed scoring) (now : Ts)
    (ladder : List CacheKey) :
    Probed scoring now cache
      (probeAll (fun cache key => cache.lookupExact scoring key now) ladder cache)
      (cache.servedOn now ladder) := by
  induction ladder generalizing cache with
  | nil => exact ⟨rfl, .refl cache, indexed⟩
  | cons rung ladder inductionHypothesis =>
      have probed := indexed.lookupExactIn_probed rung now [.hot, .warm, .cold]
      rw [servedOn, List.findSome?_cons]
      cases found : cache.servedIn now [.hot, .warm, .cold] rung with
      | none =>
          rw [found] at probed
          obtain ⟨missed, serves, kept⟩ := probed
          rw [probeAll_cons_none (Prod.ext missed rfl)]
          have rest := inductionHypothesis kept
          rw [serves.servedOn] at rest
          exact rest.serves serves
      | some slot =>
          obtain ⟨tier, entry⟩ := slot
          rw [found] at probed
          have hit : HitAt scoring now cache rung tier entry
              (cache.lookupExact scoring rung now) := probed
          rw [probeAll_cons_some (Prod.ext hit.outcome rfl)]
          exact ⟨rfl, hit.readmits⟩

/-! ## The end of a lookup serves no entry -/

theorem lookupCnameIn_not_served {tiers : List Tier} {outcome : LookupOutcome Score Stability}
    (found : (lookupCnameIn scoring key now tiers cache).1 = some outcome)
    (hit : CacheEntry Score Stability) : ¬ outcome.Served hit := by
  induction tiers generalizing cache with
  | nil => cases found
  | cons tier tiers inductionHypothesis =>
      unfold lookupCnameIn at found
      split at found
      · exact inductionHypothesis found
      · dsimp only at found
        split at found
        · exact inductionHypothesis found
        · split_ifs at found
          · obtain rfl := Option.some.inj found
            rintro (impossible | impossible) <;> cases impossible
          · exact inductionHypothesis found
          · exact inductionHypothesis found

theorem probeAll_cname_not_served {keys : List CacheKey} {outcome : LookupOutcome Score Stability}
    (found : (probeAll (fun cache key => cache.lookupCname scoring key now) keys cache).1 =
      some outcome) (hit : CacheEntry Score Stability) : ¬ outcome.Served hit := by
  induction keys generalizing cache with
  | nil => cases found
  | cons key keys inductionHypothesis =>
      unfold probeAll at found
      split at found
      · rename_i probed
        obtain rfl := Option.some.inj found
        exact lookupCnameIn_not_served (congrArg Prod.fst probed) hit
      · exact inductionHypothesis found

/-- A lookup that no slot can serve returns no entry. -/
theorem AllIndexed.lookup_unserved (indexed : cache.AllIndexed scoring)
    (none : cache.servedOn now key.ladder = none) (hit : CacheEntry Score Stability) :
    ¬ (cache.lookup scoring key now).1.Served hit := by
  have probed := indexed.probeAll_probed now key.ladder
  rw [none] at probed
  unfold lookup
  rw [walkPartitions_eq_probeAll]
  split
  · rename_i found
    rw [found] at probed
    cases probed.1
  · split_ifs
    · rw [walkPartitions_eq_probeAll]
      split
      · rename_i found
        exact probeAll_cname_not_served (congrArg Prod.fst found) hit
      · exact lookupNx_not_served hit
    · exact lookupNx_not_served hit

/-- A lookup serves the first slot that can be served. -/
theorem AllIndexed.lookup_served (indexed : cache.AllIndexed scoring)
    (found : cache.servedOn now key.ladder = some (rung, tier, entry)) :
    HitAt scoring now cache rung tier entry
      (some (cache.lookup scoring key now).1, (cache.lookup scoring key now).2) := by
  have probed := indexed.probeAll_probed now key.ladder
  rw [found] at probed
  unfold lookup
  rw [walkPartitions_eq_probeAll]
  split
  · rename_i outcome after result
    rw [result] at probed
    exact probed
  · rename_i result
    rw [result] at probed
    cases HitAt.outcome probed

/-- A lookup returns the records and validity of the entry it serves, or no entry. -/
theorem AllIndexed.lookup_returns_iff (indexed : cache.AllIndexed scoring) (kind : EntryKind)
    (validated : Bool) :
    (∃ hit, (cache.lookup scoring key now).1.Served hit ∧ hit.kind = kind ∧
      hit.validated = validated) ↔
    ∃ slot, cache.servedOn now key.ladder = some slot ∧ slot.2.2.kind = kind ∧
      slot.2.2.validated = validated := by
  cases found : cache.servedOn now key.ladder with
  | none =>
      constructor
      · rintro ⟨hit, served, -⟩
        exact absurd served (indexed.lookup_unserved found hit)
      · rintro ⟨slot, impossible, -⟩
        cases impossible
  | some slot =>
      obtain ⟨rung, tier, entry⟩ := slot
      have outcome : (cache.lookup scoring key now).1 = outcomeOn scoring now entry :=
        Option.some.inj (indexed.lookup_served found).outcome
      constructor
      · rintro ⟨hit, served, rfl, rfl⟩
        rw [outcome] at served
        obtain ⟨kind, validated⟩ := outcomeOn_served served
        exact ⟨_, rfl, kind.symm, validated.symm⟩
      · rintro ⟨_, ⟨⟩, same⟩
        rw [outcome, outcomeOn]
        split_ifs
        · exact ⟨_, .inl rfl, same⟩
        · exact ⟨_, .inr rfl, same⟩

end Hits

/-! ## Where the entry goes -/

/-- A demotion leaves the tier it comes from alone. -/
theorem tierMap_spill_source {victim : CacheEntry Score Stability} :
    (cache.spill scoring victim source).tierMap source = cache.tierMap source := by
  unfold spill
  dsimp only
  split
  · exact tierMap_count
  · rename_i next below
    split_ifs
    · exact tierMap_count
    · rw [tierMap_setTier_of_ne (lowerTier_ne below), tierMap_count]

/-- There is no tier below the cold one. -/
theorem tierMap_spill_cold {victim : CacheEntry Score Stability} :
    (cache.spill scoring victim .cold).tierMap tier = cache.tierMap tier :=
  tierMap_count

section Placed

variable [LinearOrder Score]

theorem tierFor_congr (config : after.config = cache.config)
    (capacity : ∀ tier, (after.tierMap tier).capacity = (cache.tierMap tier).capacity)
    (score : Score) : after.tierFor score = cache.tierFor score := by
  simp only [tierFor, config, capacity]

/-- A placed entry stands in the tier it earns. -/
theorem AllIndexed.get?_place_self (indexed : cache.AllIndexed scoring)
    (earned : cache.tierFor entry.score = some target) :
    ((cache.place scoring entry).tierMap target).get? entry.key =
      some { entry with tier := target } := by
  have inserted := RankedMap.get?_insert_self (indexed target) { entry with tier := target }
  unfold SemanticCache.place
  rw [earned]
  dsimp only
  split
  · rw [tierMap_spill_source, tierMap_setTier_self]
    exact inserted
  · rw [tierMap_setTier_self]
    exact inserted

/-- Placing an entry brings no second copy of its key. -/
theorem AllIndexed.stored_of_place_own (indexed : cache.AllIndexed scoring)
    (earned : cache.tierFor entry.score = some target) (different : tier ≠ target)
    (stored : ((cache.place scoring entry).tierMap tier).get? entry.key = some held) :
    (cache.tierMap tier).get? entry.key = some held := by
  unfold SemanticCache.place at stored
  rw [earned] at stored
  dsimp only at stored
  have before : ((cache.setTier target ((cache.tierMap target).insert scoring.ranking
      { entry with tier := target }).2).tierMap tier).get? entry.key = some held := by
    split at stored
    · rename_i victim evicted
      rcases (indexed.store _ _).stored_of_spill stored with ⟨-, same, -⟩ | before
      · -- An insert evicts another key than its own.
        obtain ⟨-, gone⟩ := RankedMap.get?_insert_victim (indexed target) evicted
        have present := RankedMap.get?_insert_self (indexed target) { entry with tier := target }
        rw [show scoring.ranking.key victim = entry.key from same.symm] at gone
        cases gone.symm.trans present
      · exact before
    · exact stored
  rcases indexed.stored_of_store _ before with ⟨same, -⟩ | kept
  · exact absurd same different
  · exact kept

/-- An entry that goes to the cold tier leaves the others alone. -/
theorem tierMap_place_cold (earned : cache.tierFor entry.score = some .cold)
    (different : tier ≠ .cold) :
    (cache.place scoring entry).tierMap tier = cache.tierMap tier := by
  unfold SemanticCache.place
  rw [earned]
  dsimp only
  split
  · rw [tierMap_spill_cold, tierMap_setTier_of_ne different]
  · rw [tierMap_setTier_of_ne different]

theorem place_of_unearned (unearned : cache.tierFor entry.score = none) :
    cache.place scoring entry = cache := by
  rw [place, unearned]

end Placed

/-! ## Asking again -/

theorem servedIn_tiers : cache.servedIn now [.hot, .warm, .cold] key =
    ((cache.servableAt now key .hot).map (Tier.hot, ·)).or
      (((cache.servableAt now key .warm).map (Tier.warm, ·)).or
        ((cache.servableAt now key .cold).map (Tier.cold, ·))) := by
  simp only [servedIn, List.findSome?_cons, List.findSome?_nil]
  cases cache.servableAt now key .hot <;> cases cache.servableAt now key .warm <;>
    cases cache.servableAt now key .cold <;> rfl

theorem servableAt_of_servedIn_none (none : cache.servedIn now [.hot, .warm, .cold] key = none)
    (tier : Tier) : cache.servableAt now key tier = Option.none := by
  have each := List.findSome?_eq_none_iff.mp none tier (by cases tier <;> decide)
  exact Option.map_eq_none_iff.mp each

theorem servedIn_none_of_servableAt (none : ∀ tier, cache.servableAt now key tier = none) :
    cache.servedIn now [.hot, .warm, .cold] key = Option.none := by
  rw [servedIn_tiers, none, none, none]
  rfl

/-- The tier that serves a key holds the entry, and no hotter tier can serve it. -/
theorem servedIn_first (found : cache.servedIn now [.hot, .warm, .cold] key = some (tier, entry)) :
    cache.servableAt now key tier = some entry ∧
      (tier ≠ .hot → cache.servableAt now key .hot = none) ∧
      (tier = .cold → cache.servableAt now key .warm = none) := by
  rw [servedIn_tiers] at found
  cases hot : cache.servableAt now key .hot with
  | some first =>
      rw [hot] at found
      cases found
      exact ⟨hot, fun apart => absurd rfl apart, fun impossible => by cases impossible⟩
  | none =>
      rw [hot] at found
      cases warm : cache.servableAt now key .warm with
      | some second =>
          rw [warm] at found
          cases found
          exact ⟨warm, fun _ => rfl, fun impossible => by cases impossible⟩
      | none =>
          rw [warm] at found
          cases cold : cache.servableAt now key .cold with
          | some third =>
              rw [cold] at found
              cases found
              exact ⟨cold, fun _ => rfl, fun _ => rfl⟩
          | none =>
              rw [cold] at found
              cases found

theorem servedOn_eq_some_iff {ladder : List CacheKey} :
    cache.servedOn now ladder = some (rung, tier, entry) ↔
      ∃ before rest, ladder = before ++ rung :: rest ∧
        cache.servedIn now [.hot, .warm, .cold] rung = some (tier, entry) ∧
        ∀ earlier ∈ before, cache.servedIn now [.hot, .warm, .cold] earlier = none := by
  rw [servedOn, List.findSome?_eq_some_iff]
  constructor
  · rintro ⟨before, first, rest, split, found, none⟩
    obtain ⟨slot, served, same⟩ := Option.map_eq_some_iff.mp found
    cases same
    exact ⟨before, rest, split, served, fun earlier member =>
      Option.map_eq_none_iff.mp (none earlier member)⟩
  · rintro ⟨before, rest, split, served, none⟩
    exact ⟨before, rung, rest, split, by rw [served]; rfl, fun earlier member =>
      Option.map_eq_none_iff.mpr (none earlier member)⟩

/-- What a lookup serves is held under a key it looks for. -/
theorem AllIndexed.lookup_stored [LinearOrder Score] (indexed : cache.AllIndexed scoring)
    {hit : CacheEntry Score Stability} (served : (cache.lookup scoring key now).1.Served hit) :
    ∃ rung ∈ key.ladder, ∃ tier entry, (cache.tierMap tier).get? rung = some entry ∧
      entry.kind = hit.kind := by
  obtain ⟨⟨rung, tier, entry⟩, found, kind, -⟩ :=
    (indexed.lookup_returns_iff hit.kind hit.validated).mp ⟨hit, served, rfl, rfl⟩
  obtain ⟨before, rest, ladder, there, -⟩ := servedOn_eq_some_iff.mp found
  refine ⟨rung, ?_, tier, entry, (servableAt_eq_some_iff.mp (servedIn_first there).1).1, kind⟩
  rw [ladder]
  exact List.mem_append_right _ List.mem_cons_self

section Again

variable [LinearOrder Score]

/-- The cache after a fresh hit: without the entry, which is then placed with its new score. -/
structure Readmitted (scoring : Scoring Score Stability Inputs) (now : Ts)
    (cache : SemanticCache Score Stability) (rung : CacheKey) (tier : Tier)
    (entry : CacheEntry Score Stability) (taken after : SemanticCache Score Stability) : Prop where
  indexed : taken.AllIndexed scoring
  serves : Serves now (cache.takeAt scoring rung tier) taken
  keyed : entry.key = rung
  placed : after = taken.place scoring (reranked scoring now entry)

variable {taken : SemanticCache Score Stability}

theorem AllIndexed.readmitted (indexed : cache.AllIndexed scoring)
    (found : cache.servedOn now key.ladder = some (rung, tier, entry))
    (live : entry.isFresh now = true) :
    ∃ taken, Readmitted scoring now cache rung tier entry taken
      (cache.lookup scoring key now).2 := by
  obtain ⟨middle, event, serves, kept, placed⟩ := (indexed.lookup_served found).readmits live
  refine ⟨(middle.takeAt scoring rung tier).count event, (kept.takeAt rung tier).count event,
    (serves.takeAt rung tier).trans (.count event), ?_, placed⟩
  obtain ⟨_, _, -, served, -⟩ := servedOn_eq_some_iff.mp found
  have stored := (servedIn_first served).1
  rw [← serves.slots] at stored
  exact (kept tier).keyed (servableAt_eq_some_iff.mp stored).1

namespace Readmitted

variable (readmitted : Readmitted scoring now cache rung tier entry taken after)

include readmitted

theorem config : after.config = cache.config := by
  rw [readmitted.placed, place_config, readmitted.serves.config, takeAt_config]

theorem tierFor (score : Score) : taken.tierFor score = cache.tierFor score :=
  tierFor_congr (readmitted.serves.config.trans takeAt_config)
    (fun tier => (readmitted.serves.capacity tier).trans takeAt_capacity) score

/-- What is served after an entry was taken out was served before it. -/
theorem servable_of_taken (stored : (taken.tierMap source).get? other = some held)
    (servable : held.Servable now cache.config.staleWindowSecs) :
    (other, source) ≠ (rung, tier) ∧ cache.servableAt now other source = some held := by
  have served : taken.servableAt now other source = some held := by
    refine servableAt_eq_some_iff.mpr ⟨stored, ?_⟩
    rwa [readmitted.serves.config, takeAt_config]
  rw [readmitted.serves.slots] at served
  by_cases same : (other, source) = (rung, tier)
  · obtain ⟨rfl, rfl⟩ := Prod.mk.inj same
    rw [servableAt_takeAt_self] at served
    cases served
  · rw [servableAt_takeAt_of_ne same] at served
    exact ⟨same, served⟩

/-- A rung that could not be served still cannot. -/
theorem servedIn_other (different : other ≠ rung)
    (none : cache.servedIn now [.hot, .warm, .cold] other = none) :
    after.servedIn now [.hot, .warm, .cold] other = Option.none := by
  refine servedIn_none_of_servableAt fun source => servableAt_eq_none_iff.mpr fun held stored => ?_
  intro servable
  rw [readmitted.config] at servable
  rw [readmitted.placed] at stored
  have apart : other ≠ (reranked scoring now entry).key := fun same =>
    different (same.trans readmitted.keyed)
  obtain ⟨origin, old, before, same⟩ :=
    (place_stored readmitted.indexed stored).resolve_left fun own => apart own.1
  have oldServable : old.Servable now cache.config.staleWindowSecs := by
    simpa only [CacheEntry.Servable, CacheEntry.isFresh, CacheEntry.isStaleServable, same.expires]
      using servable
  have served := (readmitted.servable_of_taken before oldServable).2
  rw [servableAt_of_servedIn_none none] at served
  cases served

variable (earned : cache.tierFor (reranked scoring now entry).score = some target)

include earned

theorem servableAt_target (live : entry.isFresh now = true) :
    after.servableAt now rung target =
      some { reranked scoring now entry with tier := target } := by
  refine servableAt_eq_some_iff.mpr ⟨?_, .inl live⟩
  rw [readmitted.placed]
  rw [← show (reranked scoring now entry).key = rung from readmitted.keyed]
  exact readmitted.indexed.get?_place_self ((readmitted.tierFor _).trans earned)

/-- Another copy of the key was there before. -/
theorem servableAt_own (different : source ≠ target)
    (served : after.servableAt now rung source = some held) :
    source ≠ tier ∧ cache.servableAt now rung source = some held := by
  obtain ⟨stored, servable⟩ := servableAt_eq_some_iff.mp served
  rw [readmitted.config] at servable
  rw [readmitted.placed] at stored
  have own : (reranked scoring now entry).key = rung := readmitted.keyed
  rw [← own] at stored
  have before := readmitted.indexed.stored_of_place_own ((readmitted.tierFor _).trans earned)
    different stored
  rw [own] at before
  obtain ⟨apart, there⟩ := readmitted.servable_of_taken before servable
  exact ⟨fun same => apart (by rw [same]), there⟩

/-- A tier that could not serve the key, or served the entry, does not serve another copy. -/
theorem servableAt_own_none (different : source ≠ target)
    (first : source = tier ∨ cache.servableAt now rung source = none) :
    after.servableAt now rung source = none := by
  by_contra present
  obtain ⟨held, served⟩ := Option.ne_none_iff_exists'.mp present
  obtain ⟨apart, there⟩ := readmitted.servableAt_own earned different served
  rcases first with same | none
  · exact apart same
  · rw [none] at there
    cases there

omit earned in
theorem servableAt_cold (earned : cache.tierFor (reranked scoring now entry).score = some .cold)
    (different : source ≠ .cold) (apart : source ≠ tier) :
    after.servableAt now rung source = cache.servableAt now rung source := by
  have same : after.servableAt now rung source = taken.servableAt now rung source := by
    rw [servableAt, servableAt, readmitted.placed, place_config,
      tierMap_place_cold ((readmitted.tierFor _).trans earned) different]
  rw [same, readmitted.serves.slots]
  exact servableAt_takeAt_of_ne fun equal => apart (Prod.mk.inj equal).2

/-- From where the next lookup serves the key of an entry that was admitted again. -/
theorem servedIn_own (live : entry.isFresh now = true)
    (served : cache.servedIn now [.hot, .warm, .cold] rung = some (tier, entry)) :
    after.servedIn now [.hot, .warm, .cold] rung =
      if tier = .hot ∧ target = .cold then
        ((cache.servableAt now rung .warm).map (Tier.warm, ·)).or
          (some (target, { reranked scoring now entry with tier := target }))
      else some (target, { reranked scoring now entry with tier := target }) := by
  obtain ⟨-, notHot, notWarm⟩ := servedIn_first served
  have stands := readmitted.servableAt_target earned live
  rw [servedIn_tiers]
  cases target with
  | hot =>
      rw [stands, if_neg fun both => by cases both.2]
      rfl
  | warm =>
      have hot : after.servableAt now rung .hot = none := by
        refine readmitted.servableAt_own_none earned (by decide) ?_
        by_cases same : tier = .hot
        · exact .inl same.symm
        · exact .inr (notHot same)
      rw [hot, stands, if_neg fun both => by cases both.2]
      rfl
  | cold =>
      have hot : after.servableAt now rung .hot = none := by
        refine readmitted.servableAt_own_none earned (by decide) ?_
        by_cases same : tier = .hot
        · exact .inl same.symm
        · exact .inr (notHot same)
      rw [hot, stands]
      by_cases demoted : tier = .hot
      · rw [if_pos ⟨demoted, rfl⟩,
          readmitted.servableAt_cold earned (by decide) (by rw [demoted]; decide)]
        rfl
      · have warm : after.servableAt now rung .warm = none := by
          refine readmitted.servableAt_own_none earned (by decide) ?_
          cases tier with
          | hot => exact absurd rfl demoted
          | warm => exact .inl rfl
          | cold => exact .inr (notWarm rfl)
        rw [warm, if_neg fun both => demoted both.1]
        rfl

end Readmitted

/-- Without the entry it served, the cache still serves the same data for the key. -/
def StandsIn (scoring : Scoring Score Stability Inputs) (cache : SemanticCache Score Stability)
    (key : CacheKey) (now : Ts) (rung : CacheKey) (tier : Tier)
    (entry : CacheEntry Score Stability) : Prop :=
  ∃ slot, (cache.takeAt scoring rung tier).servedOn now key.ladder = some slot ∧
    slot.2.2.kind = entry.kind ∧ slot.2.2.validated = entry.validated

/-- What a hit must find for the next lookup to return the same data: the new score earns a
tier, and on the way from hot to cold there is no other copy with other data in between; or
something else that is served in its place has the same data. -/
def RereadsSame (scoring : Scoring Score Stability Inputs) (cache : SemanticCache Score Stability)
    (key : CacheKey) (now : Ts) : Prop :=
  ∀ {rung tier entry}, cache.servedOn now key.ladder = some (rung, tier, entry) →
    match cache.tierFor (reranked scoring now entry).score with
    | none => cache.StandsIn scoring key now rung tier entry
    | some target => tier = .hot → target = .cold → ∀ copy,
        cache.servableAt now rung .warm = some copy →
          copy.kind = entry.kind ∧ copy.validated = entry.validated

/-- From where the next lookup serves the ladder once the entry was admitted again. -/
theorem Readmitted.servedOn (readmitted : Readmitted scoring now cache rung tier entry taken after)
    {ladder : List CacheKey} (found : cache.servedOn now ladder = some (rung, tier, entry))
    {slot : Tier × CacheEntry Score Stability}
    (own : after.servedIn now [.hot, .warm, .cold] rung = some slot) :
    after.servedOn now ladder = some (rung, slot) := by
  obtain ⟨before, rest, split, served, none⟩ := servedOn_eq_some_iff.mp found
  refine servedOn_eq_some_iff.mpr ⟨before, rest, split, own, fun earlier member => ?_⟩
  refine readmitted.servedIn_other ?_ (none earlier member)
  rintro rfl
  rw [none earlier member] at served
  cases served

theorem AllIndexed.rereads_iff (indexed : cache.AllIndexed scoring)
    {hit : CacheEntry Score Stability} (fresh : (cache.lookup scoring key now).1 = .fresh hit) :
    (∃ again, ((cache.lookup scoring key now).2.lookup scoring key now).1.Served again ∧
      again.kind = hit.kind ∧ again.validated = hit.validated) ↔
    cache.RereadsSame scoring key now := by
  cases found : cache.servedOn now key.ladder with
  | none => exact absurd (.inl fresh) (indexed.lookup_unserved found hit)
  | some slot =>
    obtain ⟨rung, tier, entry⟩ := slot
    have outcome : (cache.lookup scoring key now).1 = outcomeOn scoring now entry :=
      Option.some.inj (indexed.lookup_served found).outcome
    rw [fresh, outcomeOn] at outcome
    split_ifs at outcome with live
    cases outcome
    obtain ⟨taken, readmitted⟩ := indexed.readmitted found live
    have condition : cache.RereadsSame scoring key now ↔
        match cache.tierFor (reranked scoring now entry).score with
        | none => cache.StandsIn scoring key now rung tier entry
        | some target => tier = .hot → target = .cold → ∀ copy,
            cache.servableAt now rung .warm = some copy →
              copy.kind = entry.kind ∧ copy.validated = entry.validated := by
      refine ⟨fun rereads => rereads found, fun given rung tier entry other => ?_⟩
      cases found.symm.trans other
      exact given
    rw [((allIndexed_kept scoring).lookup key now indexed).lookup_returns_iff, condition]
    cases earned : cache.tierFor (reranked scoring now entry).score with
    | none =>
        dsimp only
        rw [readmitted.placed, place_of_unearned ((readmitted.tierFor _).trans earned),
          readmitted.serves.servedOn]
        rfl
    | some target =>
        dsimp only
        have served := (servedOn_eq_some_iff.mp found).choose_spec.choose_spec.2.1
        have own := readmitted.servedIn_own earned live served
        by_cases demoted : tier = .hot ∧ target = .cold
        · rw [if_pos demoted] at own
          cases between : cache.servableAt now rung .warm with
          | none =>
              rw [between] at own
              refine iff_of_true ⟨_, readmitted.servedOn found own, rfl, rfl⟩ ?_
              intro _ _ copy impossible
              cases impossible
          | some copy =>
              rw [between] at own
              rw [readmitted.servedOn found own]
              constructor
              · rintro ⟨_, ⟨⟩, same⟩ _ _ _ ⟨⟩
                exact same
              · intro same
                exact ⟨_, rfl, same demoted.1 demoted.2 copy rfl⟩
        · rw [if_neg demoted] at own
          refine iff_of_true ⟨_, readmitted.servedOn found own, rfl, rfl⟩ ?_
          intro hot cold
          exact absurd ⟨hot, cold⟩ demoted

end Again

end SemanticCache

variable [LinearOrder Score]

/-- The entry a lookup returned, fresh or stale. -/
def LookupOutcome.served? : LookupOutcome Score Stability → Option (CacheEntry Score Stability)
  | .fresh hit => some hit
  | .stale hit => some hit
  | _ => none

omit [LinearOrder Score] in
theorem LookupOutcome.served?_eq_some_iff {outcome : LookupOutcome Score Stability}
    {hit : CacheEntry Score Stability} : outcome.served? = some hit ↔ outcome.Served hit := by
  cases outcome <;> simp [LookupOutcome.served?, LookupOutcome.Served, eq_comm]

/-- Scores by popularity alone; a serve assumes a popularity of 50. -/
def popularityScoring : Scoring Nat Unit Nat where
  zero := 0
  score _ _ _ _ popularity _ := popularity
  rankOf := UInt64.ofNat
  defaultInputs := 50
  withConfig _ _ := ()
  observeWeighted _ _ _ _ _ := ()
  observe _ _ _ _ := ()
  recordFailure _ _ := ()

/-- The address of `a.`, of a popularity that earns the hot tier. -/
def popularAddress : CacheOp Nat Unit Nat :=
  .insertPositive (.plain oneLabel .A .IN) addressSet 0 200 true

/-- The records and the validity a lookup returns. -/
def LookupOutcome.data? (outcome : LookupOutcome Score Stability) : Option (EntryKind × Bool) :=
  outcome.served?.map fun hit => (hit.kind, hit.validated)

omit [LinearOrder Score] in
theorem LookupOutcome.data?_eq_some_iff {outcome : LookupOutcome Score Stability}
    {kind : EntryKind} {validated : Bool} : outcome.data? = some (kind, validated) ↔
      ∃ hit, outcome.Served hit ∧ hit.kind = kind ∧ hit.validated = validated := by
  simp only [LookupOutcome.data?, Option.map_eq_some_iff, Prod.mk.injEq,
    LookupOutcome.served?_eq_some_iff]

/-- The entry of a fresh outcome. -/
def LookupOutcome.fresh? : LookupOutcome Score Stability → Option (CacheEntry Score Stability)
  | .fresh hit => some hit
  | _ => none

omit [LinearOrder Score] in
theorem LookupOutcome.fresh?_eq_some_iff {outcome : LookupOutcome Score Stability}
    {hit : CacheEntry Score Stability} : outcome.fresh? = some hit ↔ outcome = .fresh hit := by
  cases outcome <;> simp [LookupOutcome.fresh?]

/-- A second entry of the address, restored beside the first. -/
def restoredCopy : CacheOp Nat Unit Nat :=
  .restoreEntry { CacheEntry.nodata popularityScoring (.plain oneLabel .A .IN) with score := 150 } 0

end RecurseX
