import RecurseX.Cache.Operations

/-!
# Consistency and capacity of the tiers

`Consistent` says that a key lives in one tier only, that the entry knows which,
and that every tier's rank index agrees with its map. `Bounded` says that no tier
outgrows its configured capacity.
-/

namespace RecurseX

open Library

variable {Score Stability Inputs : Type}

namespace SemanticCache

/-- The tiers agree with their indices, with the labels of their entries and
with each other. -/
structure Consistent (scoring : Scoring Score Stability Inputs)
    (cache : SemanticCache Score Stability) : Prop where
  indexed : ∀ tier, (cache.tierMap tier).Indexed scoring.ranking
  labelled : ∀ {tier key entry}, (cache.tierMap tier).get? key = some entry → entry.tier = tier
  single : ∀ {tier other key entry held}, (cache.tierMap tier).get? key = some entry →
    (cache.tierMap other).get? key = some held → tier = other

variable {scoring : Scoring Score Stability Inputs} {cache : SemanticCache Score Stability}
  {tier : Tier} {key : CacheKey} {entry : CacheEntry Score Stability}

theorem new_consistent (config : CacheConfig Score) :
    Consistent scoring (new config : SemanticCache Score Stability) where
  indexed tier := by cases tier <;> exact RankedMap.new_indexed _
  labelled {tier _ _} stored := by
    cases tier <;> simp only [tierMap, new, RankedMap.get?_new, reduceCtorEq] at stored
  single {tier _ _ _ _} stored _ := by
    cases tier <;> simp only [tierMap, new, RankedMap.get?_new, reduceCtorEq] at stored

/-- The tiers that are all a consistency proof looks at. -/
theorem Consistent.of_tierMap {after : SemanticCache Score Stability}
    (consistent : cache.Consistent scoring)
    (same : ∀ tier, after.tierMap tier = cache.tierMap tier) : after.Consistent scoring where
  indexed tier := by
    rw [same]
    exact consistent.indexed tier
  labelled stored := by
    rw [same] at stored
    exact consistent.labelled stored
  single stored held := by
    rw [same] at stored held
    exact consistent.single stored held

/-- One tier may be replaced by an indexed map whose entries carry its label and
whose keys no other tier holds. -/
theorem Consistent.setTier {map : TierMap Score Stability} (consistent : cache.Consistent scoring)
    (indexed : map.Indexed scoring.ranking)
    (own : ∀ key entry, map.get? key = some entry → entry.tier = tier ∧
      ∀ other, other ≠ tier → (cache.tierMap other).get? key = none) :
    (cache.setTier tier map).Consistent scoring where
  indexed other := by
    by_cases same : other = tier
    · subst same
      rwa [tierMap_setTier_self]
    · rw [tierMap_setTier_of_ne same]
      exact consistent.indexed other
  labelled {other _ _} stored := by
    by_cases same : other = tier
    · subst same
      rw [tierMap_setTier_self] at stored
      exact (own _ _ stored).1
    · rw [tierMap_setTier_of_ne same] at stored
      exact consistent.labelled stored
  single {first second _ _ _} stored held := by
    by_cases same : first = tier
    · subst same
      rw [tierMap_setTier_self] at stored
      by_contra apart
      have different : second ≠ first := fun same => apart same.symm
      rw [tierMap_setTier_of_ne different, (own _ _ stored).2 second different] at held
      cases held
    · rw [tierMap_setTier_of_ne same] at stored
      by_cases other : second = tier
      · subst other
        rw [tierMap_setTier_self] at held
        rw [(own _ _ held).2 first same] at stored
        cases stored
      · rw [tierMap_setTier_of_ne other] at held
        exact consistent.single stored held

/-- A key in one tier is in no other. -/
theorem Consistent.elsewhere (consistent : cache.Consistent scoring)
    (stored : (cache.tierMap tier).get? key = some entry) {other : Tier} (different : other ≠ tier) :
    (cache.tierMap other).get? key = none := by
  cases held : (cache.tierMap other).get? key with
  | none => rfl
  | some _ => exact absurd (consistent.single held stored) different

/-- Entries of a tier that keeps some of what it had are still its own. -/
theorem Consistent.shrink {map : TierMap Score Stability} (consistent : cache.Consistent scoring)
    (indexed : map.Indexed scoring.ranking)
    (kept : ∀ key entry, map.get? key = some entry → (cache.tierMap tier).get? key = some entry) :
    (cache.setTier tier map).Consistent scoring :=
  consistent.setTier indexed fun key entry stored =>
    ⟨consistent.labelled (kept key entry stored),
      fun _ different => consistent.elsewhere (kept key entry stored) different⟩

/-- An entry that is taken out is in no tier any more. -/
theorem Consistent.take (consistent : cache.Consistent scoring)
    (stored : (cache.tierMap tier).get? key = some entry) :
    (cache.setTier tier ((cache.tierMap tier).remove scoring.ranking key).2).Consistent scoring ∧
    (cache.setTier tier ((cache.tierMap tier).remove scoring.ranking key).2).Absent key := by
  constructor
  · refine consistent.shrink ((consistent.indexed tier).remove key) fun other held kept => ?_
    by_cases same : other = key
    · subst same
      rw [RankedMap.get?_remove_self] at kept
      cases kept
    · rwa [RankedMap.get?_remove_of_ne same] at kept
  · intro other
    by_cases same : other = tier
    · subst same
      rw [tierMap_setTier_self]
      exact RankedMap.get?_remove_self
    · rw [tierMap_setTier_of_ne same]
      exact consistent.elsewhere stored same

/-- Storing an entry that no tier holds keeps the tiers consistent, and what it
evicts is then in no tier. -/
theorem Consistent.store (consistent : cache.Consistent scoring) (tier : Tier)
    (entry : CacheEntry Score Stability) (absent : cache.Absent entry.key)
    (labelled : entry.tier = tier) :
    (cache.setTier tier ((cache.tierMap tier).insert scoring.ranking entry).2).Consistent scoring ∧
    ∀ victim, ((cache.tierMap tier).insert scoring.ranking entry).1 = some victim →
      (cache.setTier tier ((cache.tierMap tier).insert scoring.ranking entry).2).Absent
        victim.key := by
  have indexed := consistent.indexed tier
  constructor
  · refine consistent.setTier (indexed.insert entry) fun other held stored => ?_
    by_cases same : other = entry.key
    · subst same
      have inserted : entry = held :=
        Option.some.inj ((RankedMap.get?_insert_self indexed entry).symm.trans stored)
      subst inserted
      exact ⟨labelled, fun other _ => absent other⟩
    · have before := ((RankedMap.get?_insert_of_ne indexed same).mp stored).1
      exact ⟨consistent.labelled before, fun _ => consistent.elsewhere before⟩
  · intro victim evicted other
    obtain ⟨stored, gone⟩ := RankedMap.get?_insert_victim indexed evicted
    by_cases same : other = tier
    · subst same
      rw [tierMap_setTier_self]
      exact gone
    · rw [tierMap_setTier_of_ne same]
      exact consistent.elsewhere stored same

theorem Consistent.spill {victim : CacheEntry Score Stability}
    (consistent : cache.Consistent scoring) (absent : cache.Absent victim.key) (source : Tier) :
    (cache.spill scoring victim source).Consistent scoring := by
  have counted : (cache.count fun stats =>
      { stats with evictions := stats.evictions + 1 }).Consistent scoring :=
    consistent.of_tierMap fun _ => tierMap_count
  unfold SemanticCache.spill
  dsimp only
  split
  · exact counted
  · rename_i next _
    split_ifs
    · exact counted
    · refine (counted.store next { victim with tier := next } ?_ rfl).1
      intro tier
      rw [tierMap_count]
      exact absent tier

theorem Consistent.park (consistent : cache.Consistent scoring)
    (absent : cache.Absent entry.key) : (cache.park scoring entry).Consistent scoring :=
  (consistent.store .cold { entry with tier := .cold } absent rfl).1

/-- A change that leaves key, score and label alone. -/
theorem Consistent.modify (consistent : cache.Consistent scoring) (tier : Tier) (key : CacheKey)
    {change : CacheEntry Score Stability → CacheEntry Score Stability}
    (same : ∀ entry, (change entry).key = entry.key ∧ (change entry).score = entry.score ∧
      (change entry).tier = entry.tier) :
    (cache.setTier tier ((cache.tierMap tier).modify key change)).Consistent scoring := by
  have indexed : ((cache.tierMap tier).modify key change).Indexed scoring.ranking :=
    (consistent.indexed tier).modify (fun entry => (same entry).1)
      fun entry => congrArg scoring.rankOf (same entry).2.1
  refine consistent.setTier indexed fun other held stored => ?_
  rcases RankedMap.get?_of_modify stored with ⟨rfl, old, before, rfl⟩ | ⟨_, before⟩
  · rw [(same old).2.2]
    exact ⟨consistent.labelled before, fun _ => consistent.elsewhere before⟩
  · exact ⟨consistent.labelled before, fun _ => consistent.elsewhere before⟩

variable [LinearOrder Score]

theorem Consistent.place (consistent : cache.Consistent scoring)
    (absent : cache.Absent entry.key) : (cache.place scoring entry).Consistent scoring := by
  unfold SemanticCache.place
  split
  · exact consistent
  · rename_i tier _
    obtain ⟨stored, evicted⟩ :=
      consistent.store tier { entry with tier } absent rfl
    dsimp only
    split
    · rename_i victim found
      exact stored.spill (evicted victim found) tier
    · exact stored

/-- The moves of the operations keep the tiers consistent. -/
theorem consistent_kept (scoring : Scoring Score Stability Inputs) :
    Kept scoring (Consistent scoring) fun key cache => cache.Consistent scoring ∧ cache.Absent key
    where
  keyed consistent stored := (consistent.indexed _).keyed stored
  counted _ consistent := consistent.of_tierMap fun _ => tierMap_count
  outCounted _ outside :=
    ⟨outside.1.of_tierMap fun _ => tierMap_count, fun tier => by
      rw [tierMap_count]
      exact outside.2 tier⟩
  withNx _ consistent := consistent.of_tierMap fun _ => tierMap_withNx
  taken consistent stored := consistent.take stored
  missing consistent absent := ⟨consistent, absent⟩
  dropped outside := outside.1
  placed _ outside := outside.1.place outside.2
  parked _ outside := outside.1.park outside.2
  modified tier key _ same consistent := consistent.modify tier key same
  retained tier keep consistent := by
    obtain ⟨indexed, _, _, kept⟩ := RankedMap.retain_spec (consistent.indexed tier) keep
    exact consistent.shrink indexed kept

end SemanticCache

/-- A NODATA answer with a TTL of five minutes, cached at time 0. -/
def CacheEntry.nodata (scoring : Scoring Score Stability Inputs) (key : CacheKey) :
    CacheEntry Score Stability where
  key := key
  kind := .negative .NOERROR none 300
  inserted := 0
  expires := secondsToTs 300
  served := 0
  lastServed := 0
  stability := scoring.withConfig 300 0
  validated := false
  score := scoring.zero
  tier := .cold
  refreshing := false

/-- Scores by TTL alone, with no history and no other inputs. -/
def ttlScoring : Scoring Nat Unit Unit where
  zero := 0
  score ttlSecs _ _ _ _ _ := ttlSecs.toNat
  rankOf := UInt64.ofNat
  defaultInputs := ()
  withConfig _ _ := ()
  observeWeighted _ _ _ _ _ := ()
  observe _ _ _ _ := ()
  recordFailure _ _ := ()

/-- A cache of one entry in each of the tiers that are not disabled. -/
def smallConfig (coldCapacity : Nat) : CacheConfig Nat where
  hotCapacity := 1
  warmCapacity := 1
  coldCapacity := coldCapacity
  nxCapacity := 1
  staleWindowSecs := 3600
  negativeTtlCap := 900
  maxTtlCap := 86400
  hotAdmitScore := 200
  warmAdmitScore := 100
  minAdmitScore := 0

section Runs

variable [LinearOrder Score]

/-- The caches that operations reach from a new cache, where an entry is
restored only under a key that is not cached yet, as at start-up. -/
inductive CacheOp.Reachable (scoring : Scoring Score Stability Inputs)
    (config : CacheConfig Score) : SemanticCache Score Stability → Prop where
  | new : Reachable scoring config (.new config)
  | step {cache : SemanticCache Score Stability} (op : CacheOp Score Stability Inputs)
      (reached : Reachable scoring config cache)
      (admissible : op.Meets (fun key cache => cache.Absent key) cache) :
      Reachable scoring config (op.apply scoring cache)

theorem CacheOp.Reachable.consistent {scoring : Scoring Score Stability Inputs}
    {config : CacheConfig Score} {cache : SemanticCache Score Stability}
    (reached : CacheOp.Reachable scoring config cache) : cache.Consistent scoring := by
  induction reached with
  | new => exact SemanticCache.new_consistent config
  | step op _ admissible inductionHypothesis =>
      refine (SemanticCache.consistent_kept scoring).apply ?_ inductionHypothesis
      cases op with
      | restoreEntry entry now => exact ⟨inductionHypothesis, admissible⟩
      | _ => trivial

/-- In every reachable cache a key is in at most one tier, an entry is labelled
with the tier that holds it, and each rank index is exactly the ranks and keys
of the entries in its map. -/
theorem reachable_tiers_consistent (scoring : Scoring Score Stability Inputs)
    (config : CacheConfig Score) {cache : SemanticCache Score Stability}
    (reached : CacheOp.Reachable scoring config cache) :
    (∀ key tier other entry held, (cache.tierMap tier).get? key = some entry →
      (cache.tierMap other).get? key = some held → tier = other) ∧
    (∀ tier key entry, (cache.tierMap tier).get? key = some entry →
      entry.key = key ∧ entry.tier = tier) ∧
    ∀ tier rank key, (rank, key) ∈ (cache.tierMap tier).rank ↔
      ∃ entry, (cache.tierMap tier).get? key = some entry ∧
        scoring.rankOf entry.score = rank := by
  have consistent := reached.consistent
  refine ⟨fun _ _ _ _ _ stored held => consistent.single stored held,
    fun tier _ _ stored => ⟨(consistent.indexed tier).keyed stored, consistent.labelled stored⟩,
    fun tier _ _ => (consistent.indexed tier).index⟩

end Runs

/-- The second entry demotes the first, and the restored one has expired. -/
def demotingOps : List (CacheOp Nat Unit Unit) :=
  [.insertNegative (.plain .root .A .IN) .NOERROR none 300 0 (),
    .insertNegative (.plain .root .AAAA .IN) .NOERROR none 400 0 (),
    .restoreEntry (.nodata ttlScoring (.plain .root .MX .IN)) (secondsToTs 301)]

/-- After a demotion and a restore all three tiers hold an entry. -/
theorem reachable_tiers_consistent_demotion :
    (∀ tier, ((CacheOp.run ttlScoring (smallConfig 1) demotingOps).tierMap tier).len = 1) ∧
    ∀ tier rank key,
      (rank, key) ∈ ((CacheOp.run ttlScoring (smallConfig 1) demotingOps).tierMap tier).rank ↔
      ∃ entry, ((CacheOp.run ttlScoring (smallConfig 1) demotingOps).tierMap tier).get? key =
        some entry ∧ ttlScoring.rankOf entry.score = rank := by
  refine ⟨fun tier => by cases tier <;> decide, ?_⟩
  have fresh : CacheOp.Reachable ttlScoring (smallConfig 1) (.new (smallConfig 1)) := .new
  have first := CacheOp.Reachable.step
    (.insertNegative (.plain .root .A .IN) .NOERROR none 300 0 ()) fresh trivial
  have second := CacheOp.Reachable.step
    (.insertNegative (.plain .root .AAAA .IN) .NOERROR none 400 0 ()) first trivial
  have third := CacheOp.Reachable.step
    (.restoreEntry (.nodata ttlScoring (.plain .root .MX .IN)) (secondsToTs 301)) second
    fun tier => by cases tier <;> decide
  exact (reachable_tiers_consistent ttlScoring (smallConfig 1) third).2.2

/-! ## Capacity -/

/-- The configured capacity of a tier. -/
def CacheConfig.capacity (config : CacheConfig Score) : Tier → Nat
  | .hot => config.hotCapacity
  | .warm => config.warmCapacity
  | .cold => config.coldCapacity

namespace SemanticCache

/-- Every tier has its configured capacity and stays within it. -/
structure Bounded (scoring : Scoring Score Stability Inputs) (config : CacheConfig Score)
    (cache : SemanticCache Score Stability) : Prop where
  indexed : ∀ tier, (cache.tierMap tier).Indexed scoring.ranking
  sized : ∀ tier, (cache.tierMap tier).capacity = config.capacity tier
  within : ∀ tier, (cache.tierMap tier).len ≤ config.capacity tier

variable {scoring : Scoring Score Stability Inputs} {config : CacheConfig Score}
  {cache : SemanticCache Score Stability} {tier : Tier}

theorem new_bounded : Bounded scoring config (new config : SemanticCache Score Stability) where
  indexed tier := by cases tier <;> exact RankedMap.new_indexed _
  sized tier := by cases tier <;> rfl
  within tier := by cases tier <;> exact Nat.zero_le _

theorem Bounded.of_tierMap {after : SemanticCache Score Stability}
    (bounded : cache.Bounded scoring config)
    (same : ∀ tier, after.tierMap tier = cache.tierMap tier) : after.Bounded scoring config where
  indexed tier := same tier ▸ bounded.indexed tier
  sized tier := same tier ▸ bounded.sized tier
  within tier := same tier ▸ bounded.within tier

theorem Bounded.setTier {map : TierMap Score Stability} (bounded : cache.Bounded scoring config)
    (indexed : map.Indexed scoring.ranking) (sized : map.capacity = (cache.tierMap tier).capacity)
    (within : map.len ≤ config.capacity tier) : (cache.setTier tier map).Bounded scoring config := by
  have replaced : ∀ other, (cache.setTier tier map).tierMap other = map ∧ other = tier ∨
      (cache.setTier tier map).tierMap other = cache.tierMap other := by
    intro other
    by_cases same : other = tier
    · exact .inl ⟨same ▸ tierMap_setTier_self, same⟩
    · exact .inr (tierMap_setTier_of_ne same)
  constructor
  · intro other
    rcases replaced other with ⟨own, rfl⟩ | old
    · rwa [own]
    · rw [old]
      exact bounded.indexed other
  · intro other
    rcases replaced other with ⟨own, rfl⟩ | old
    · rw [own, sized, bounded.sized]
    · rw [old]
      exact bounded.sized other
  · intro other
    rcases replaced other with ⟨own, rfl⟩ | old
    · rwa [own]
    · rw [old]
      exact bounded.within other

/-- A tier that is not disabled takes an entry without outgrowing its capacity. -/
theorem Bounded.store (bounded : cache.Bounded scoring config) (tier : Tier)
    (entry : CacheEntry Score Stability) (enabled : 0 < (cache.tierMap tier).capacity) :
    (cache.setTier tier ((cache.tierMap tier).insert scoring.ranking entry).2).Bounded scoring
      config := by
  have indexed := bounded.indexed tier
  refine bounded.setTier (indexed.insert entry) (RankedMap.insert_capacity indexed entry) ?_
  have within := bounded.within tier
  rw [← bounded.sized] at within ⊢
  exact RankedMap.len_insert_le indexed entry enabled within

theorem Bounded.spill (bounded : cache.Bounded scoring config)
    (victim : CacheEntry Score Stability) (source : Tier) :
    (cache.spill scoring victim source).Bounded scoring config := by
  have counted : (cache.count fun stats =>
      { stats with evictions := stats.evictions + 1 }).Bounded scoring config :=
    bounded.of_tierMap fun _ => tierMap_count
  unfold SemanticCache.spill
  dsimp only
  split
  · exact counted
  · split_ifs with disabled
    · exact counted
    · exact counted.store _ _ (Nat.pos_of_ne_zero disabled)

variable [LinearOrder Score]

/-- A score never earns a disabled tier. -/
theorem tierFor_enabled {score : Score} (earned : cache.tierFor score = some tier) :
    0 < (cache.tierMap tier).capacity := by
  unfold tierFor at earned
  dsimp only at earned
  split at earned
  · cases earned
  · split_ifs at earned with disabled
    · obtain ⟨_, enabled⟩ := Option.filter_eq_some_iff.mp earned
      exact of_decide_eq_true enabled
    · obtain rfl := Option.some.inj earned
      exact Nat.pos_of_ne_zero disabled

theorem Bounded.place (bounded : cache.Bounded scoring config)
    (entry : CacheEntry Score Stability) : (cache.place scoring entry).Bounded scoring config := by
  unfold SemanticCache.place
  split
  · exact bounded
  · rename_i tier earned
    have stored := bounded.store tier { entry with tier } (tierFor_enabled earned)
    dsimp only
    split
    · exact stored.spill _ tier
    · exact stored

/-- The moves of the operations keep the tiers within their capacities, unless
the cold tier is disabled. -/
theorem bounded_kept (scoring : Scoring Score Stability Inputs) (config : CacheConfig Score)
    (enabled : 0 < config.coldCapacity) :
    Kept scoring (fun cache : SemanticCache Score Stability => cache.Bounded scoring config)
      fun _ cache => cache.Bounded scoring config where
  keyed bounded stored := (bounded.indexed _).keyed stored
  counted _ bounded := bounded.of_tierMap fun _ => tierMap_count
  outCounted _ bounded := bounded.of_tierMap fun _ => tierMap_count
  withNx _ bounded := bounded.of_tierMap fun _ => tierMap_withNx
  taken {_ tier _ _} bounded _ :=
    bounded.setTier ((bounded.indexed tier).remove _) RankedMap.remove_capacity
      (Nat.le_trans (RankedMap.len_remove_le _ _ _) (bounded.within tier))
  missing bounded _ := bounded
  dropped bounded := bounded
  placed entry bounded := bounded.place entry
  parked entry bounded :=
    bounded.store .cold { entry with tier := .cold } (by
      rw [bounded.sized]
      exact enabled)
  modified tier _ _ same bounded :=
    bounded.setTier
      ((bounded.indexed tier).modify (fun entry => (same entry).1)
        fun entry => congrArg scoring.rankOf (same entry).2.1)
      RankedMap.modify_capacity (by
        rw [RankedMap.len_modify]
        exact bounded.within tier)
  retained tier keep bounded := by
    obtain ⟨indexed, sized, shorter, _⟩ := RankedMap.retain_spec (bounded.indexed tier) keep
    exact bounded.setTier indexed sized (Nat.le_trans shorter (bounded.within tier))

end SemanticCache

section Runs

variable [LinearOrder Score]

theorem CacheOp.run_bounded (scoring : Scoring Score Stability Inputs)
    (config : CacheConfig Score) (enabled : 0 < config.coldCapacity)
    (ops : List (CacheOp Score Stability Inputs)) :
    (CacheOp.run scoring config ops).Bounded scoring config := by
  have kept := @SemanticCache.bounded_kept Score Stability Inputs _ scoring config enabled
  have steps (cache : SemanticCache Score Stability) (bounded : cache.Bounded scoring config) :
      (ops.foldl (CacheOp.apply scoring) cache).Bounded scoring config := by
    induction ops generalizing cache with
    | nil => exact bounded
    | cons op ops inductionHypothesis =>
        refine inductionHypothesis _ (kept.apply ?_ bounded)
        cases op with
        | restoreEntry entry now => exact bounded
        | _ => trivial
  exact steps _ SemanticCache.new_bounded

/-- Whatever its capacity, the cold tier of a new cache takes an expired entry. -/
theorem run_restore_expired (scoring : Scoring Score Stability Inputs)
    (config : CacheConfig Score) (key : CacheKey) :
    ((CacheOp.run scoring config
      [.restoreEntry (.nodata scoring key) (secondsToTs 301)]).tierMap .cold).len = 1 := by
  have parked : CacheOp.run scoring config
        [.restoreEntry (.nodata scoring key) (secondsToTs 301)] =
      (SemanticCache.new config).park scoring (.nodata scoring key) := by
    have expired : (CacheEntry.nodata scoring key).expires ≤ secondsToTs 301 := by
      show secondsToTs 300 ≤ secondsToTs 301
      decide
    simp only [CacheOp.run, List.foldl_cons, List.foldl_nil, CacheOp.apply,
      SemanticCache.restoreEntry, if_pos expired]
  rw [parked]
  exact RankedMap.len_insert_new config.coldCapacity _

/-- The tiers stay within their capacities over every sequence of operations
exactly when the cold tier is not disabled: expired entries are parked there
without a look at its capacity. -/
theorem run_within_capacity_iff (scoring : Scoring Score Stability Inputs)
    (config : CacheConfig Score) :
    (∀ (ops : List (CacheOp Score Stability Inputs)) (tier : Tier),
      ((CacheOp.run scoring config ops).tierMap tier).len ≤ config.capacity tier) ↔
    0 < config.coldCapacity := by
  constructor
  · intro within
    have parked := within [.restoreEntry (.nodata scoring (.plain .root .A .IN))
      (secondsToTs 301)] .cold
    rw [run_restore_expired] at parked
    exact parked
  · intro enabled ops tier
    exact (CacheOp.run_bounded scoring config enabled ops).within tier

end Runs

/-- A disabled cold tier holds one entry after an expired entry is restored. -/
theorem disabled_cold_tier_grows :
    ¬ ((CacheOp.run ttlScoring (smallConfig 0)
      [.restoreEntry (.nodata ttlScoring (.plain .root .A .IN)) (secondsToTs 301)]).tierMap
        .cold).len ≤ (smallConfig 0).capacity .cold := by
  decide

end RecurseX
