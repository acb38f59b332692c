import RecurseX.Cache.Semantic

/-!
# Cache operations and the invariants they keep

Every public operation is built from a few moves: an entry is taken out of a
tier, the entry goes back through `place` or `park`, an entry is changed in
place, or entries are swept. `Kept` asks for those moves once, and derives that
every operation and every run keeps the property.
-/

namespace RecurseX

open Library Std

variable {Score Stability Inputs : Type}

namespace SemanticCache

variable {cache : SemanticCache Score Stability} {tier other : Tier}
variable {map : TierMap Score Stability} {event : CacheStats → CacheStats}

@[simp] theorem tierMap_count : (cache.count event).tierMap tier = cache.tierMap tier := by
  cases tier <;> rfl

@[simp] theorem count_config : (cache.count event).config = cache.config := rfl

@[simp] theorem setTier_config : (cache.setTier tier map).config = cache.config := by
  cases tier <;> rfl

@[simp] theorem setTier_nx : (cache.setTier tier map).nx = cache.nx := by
  cases tier <;> rfl

@[simp] theorem tierMap_setTier_self : (cache.setTier tier map).tierMap tier = map := by
  cases tier <;> rfl

theorem tierMap_setTier_of_ne (different : other ≠ tier) :
    (cache.setTier tier map).tierMap other = cache.tierMap other := by
  cases tier <;> cases other <;> first | rfl | exact absurd rfl different

@[simp] theorem tierMap_withNx {nx : TreeMap Name NegativeEntry} :
    ({ cache with nx := nx } : SemanticCache Score Stability).tierMap tier =
      cache.tierMap tier := by
  cases tier <;> rfl

@[simp] theorem spill_config {scoring : Scoring Score Stability Inputs}
    {victim : CacheEntry Score Stability} {source : Tier} :
    (cache.spill scoring victim source).config = cache.config := by
  unfold spill
  dsimp only
  split
  · rfl
  · split_ifs
    · rfl
    · rw [setTier_config, count_config]

@[simp] theorem place_config [LinearOrder Score] {scoring : Scoring Score Stability Inputs}
    {entry : CacheEntry Score Stability} : (cache.place scoring entry).config = cache.config := by
  unfold place
  split
  · rfl
  · dsimp only
    split
    · rw [spill_config, setTier_config]
    · rw [setTier_config]

/-- No tier holds the key. -/
def Absent (cache : SemanticCache Score Stability) (key : CacheKey) : Prop :=
  ∀ tier, (cache.tierMap tier).get? key = none

/-- Taking an entry out finds it in some tier, or finds that no tier has it. -/
theorem takeEntryAny_cases (scoring : Scoring Score Stability Inputs)
    (cache : SemanticCache Score Stability) (key : CacheKey) :
    (∃ tier entry, (cache.tierMap tier).get? key = some entry ∧
      cache.takeEntryAny scoring key =
        (some entry,
          cache.setTier tier ((cache.tierMap tier).remove scoring.ranking key).2)) ∨
    (cache.Absent key ∧ cache.takeEntryAny scoring key = (none, cache)) := by
  unfold takeEntryAny
  split
  · rename_i entry map removed
    refine .inl ⟨.hot, entry, ?_, ?_⟩
    · rw [tierMap, ← RankedMap.remove_fst scoring.ranking, removed]
    · simp only [tierMap, setTier, removed]
  · rename_i removed
    have notHot : cache.hot.get? key = none := by
      rw [← RankedMap.remove_fst scoring.ranking, removed]
    split
    · rename_i entry map removed
      refine .inl ⟨.warm, entry, ?_, ?_⟩
      · rw [tierMap, ← RankedMap.remove_fst scoring.ranking, removed]
      · simp only [tierMap, setTier, removed]
    · rename_i removed
      have notWarm : cache.warm.get? key = none := by
        rw [← RankedMap.remove_fst scoring.ranking, removed]
      split
      · rename_i entry map removed
        refine .inl ⟨.cold, entry, ?_, ?_⟩
        · rw [tierMap, ← RankedMap.remove_fst scoring.ranking, removed]
        · simp only [tierMap, setTier, removed]
      · rename_i removed
        have notCold : cache.cold.get? key = none := by
          rw [← RankedMap.remove_fst scoring.ranking, removed]
        refine .inr ⟨fun tier => ?_, rfl⟩
        cases tier
        · exact notHot
        · exact notWarm
        · exact notCold

/-- The first tier that holds a key, or none does. -/
theorem findTier_cases (cache : SemanticCache Score Stability) (key : CacheKey) :
    (∃ tier entry, (cache.tierMap tier).get? key = some entry ∧
      cache.findTier key = some (tier, entry)) ∨
    (cache.Absent key ∧ cache.findTier key = none) := by
  unfold findTier
  cases hot : cache.hot.get? key with
  | some entry => exact .inl ⟨.hot, entry, hot, rfl⟩
  | none =>
      cases warm : cache.warm.get? key with
      | some entry => exact .inl ⟨.warm, entry, warm, rfl⟩
      | none =>
          cases cold : cache.cold.get? key with
          | some entry => exact .inl ⟨.cold, entry, cold, rfl⟩
          | none =>
              refine .inr ⟨fun tier => ?_, rfl⟩
              cases tier
              · exact hot
              · exact warm
              · exact cold

/-- Either some tier holds the entry that is changed, or nothing happens. -/
theorem modifyEntry_cases (cache : SemanticCache Score Stability) (key : CacheKey)
    (change : CacheEntry Score Stability → CacheEntry Score Stability) :
    cache.modifyEntry key change = cache ∨
    ∃ tier, cache.modifyEntry key change =
      cache.setTier tier ((cache.tierMap tier).modify key change) := by
  unfold modifyEntry
  split
  · exact .inr ⟨_, rfl⟩
  · exact .inl rfl

/-- What a tier holds after a change in place is the changed entry or was held before. -/
theorem stored_of_modifyEntry {key found : CacheKey}
    {change : CacheEntry Score Stability → CacheEntry Score Stability}
    {held : CacheEntry Score Stability}
    (stored : ((cache.modifyEntry key change).tierMap tier).get? found = some held) :
    (∃ old, (cache.tierMap tier).get? found = some old ∧ held = change old) ∨
      (cache.tierMap tier).get? found = some held := by
  rcases cache.modifyEntry_cases key change with result | ⟨source, result⟩
  · rw [result] at stored
    exact .inr stored
  · rw [result] at stored
    by_cases here : tier = source
    · subst here
      rw [tierMap_setTier_self] at stored
      rcases RankedMap.get?_of_modify stored with ⟨rfl, old, before, changed⟩ | ⟨_, before⟩
      · exact .inl ⟨old, before, changed⟩
      · exact .inr before
    · rw [tierMap_setTier_of_ne here] at stored
      exact .inr stored

/-- What every probe keeps, the walk over the broader scopes keeps. -/
theorem walkScopes_keeps {α : Type} {Inv : SemanticCache Score Stability → Prop}
    {probe : SemanticCache Score Stability → CacheKey → Option α × SemanticCache Score Stability}
    (keeps : ∀ cache key, Inv cache → Inv (probe cache key).2) (key : CacheKey) (ecs : EcsKey)
    (scope : Nat) (cache : SemanticCache Score Stability) (invariant : Inv cache) :
    Inv (walkScopes key ecs probe scope cache).2 := by
  induction scope generalizing cache with
  | zero => exact invariant
  | succ scope inductionHypothesis =>
      unfold walkScopes
      split_ifs
      · exact invariant
      · split
        · exact invariant
        · rename_i broader _
          have probed := keeps cache (key.withEcs (some broader)) invariant
          split
          · rename_i hit after found
            rwa [found] at probed
          · rename_i after found
            rw [found] at probed
            exact inductionHypothesis _ probed

/-- What every probe keeps, the walk over the partitions keeps. -/
theorem walkPartitions_keeps {α : Type} {Inv : SemanticCache Score Stability → Prop}
    (probe : SemanticCache Score Stability → CacheKey → Option α × SemanticCache Score Stability)
    (keeps : ∀ cache key, Inv cache → Inv (probe cache key).2) (key : CacheKey)
    (cache : SemanticCache Score Stability) (invariant : Inv cache) :
    Inv (walkPartitions key probe cache).2 := by
  have probed := keeps cache key invariant
  unfold walkPartitions
  split
  · rename_i hit after found
    rwa [found] at probed
  · rename_i after found
    rw [found] at probed
    split
    · exact probed
    · rename_i ecs _
      have walked := walkScopes_keeps keeps key ecs ecs.bits.toNat after probed
      split
      · rename_i hit walkedTo found
        rwa [found] at walked
      · rename_i walkedTo found
        rw [found] at walked
        exact keeps _ _ walked

end SemanticCache

/-- One call of a public operation of the cache. -/
inductive CacheOp (Score Stability Inputs : Type) where
  | insertPositive (key : CacheKey) (rrset : RrSet) (now : Ts) (inputs : Inputs)
      (validated : Bool)
  | insertNegative (key : CacheKey) (rcode : Rcode) (soa : Option Record)
      (authoritativeTtl : UInt32) (now : Ts) (inputs : Inputs)
  | insertNxdomain (name : Name) (rcode : Rcode) (soa : Option Record)
      (authoritativeTtl : UInt32) (now : Ts)
  | lookup (key : CacheKey) (now : Ts)
  | rescore (key : CacheKey) (inputs : Inputs) (now : Ts)
  | sweep (now : Ts)
  | markRefreshing (key : CacheKey)
  | clearRefreshing (key : CacheKey)
  | recordRefreshFailure (key : CacheKey) (now : Ts)
  | restoreEntry (entry : CacheEntry Score Stability) (now : Ts)

variable [LinearOrder Score]

/-- The cache after one operation. -/
def CacheOp.apply (scoring : Scoring Score Stability Inputs)
    (cache : SemanticCache Score Stability) :
    CacheOp Score Stability Inputs → SemanticCache Score Stability
  | .insertPositive key rrset now inputs validated =>
      cache.insertPositive scoring key rrset now inputs validated
  | .insertNegative key rcode soa authoritativeTtl now inputs =>
      cache.insertNegative scoring key rcode soa authoritativeTtl now inputs
  | .insertNxdomain name rcode soa authoritativeTtl now =>
      cache.insertNxdomain name rcode soa authoritativeTtl now
  | .lookup key now => (cache.lookup scoring key now).2
  | .rescore key inputs now => cache.rescore scoring key inputs now
  | .sweep now => cache.sweep scoring now
  | .markRefreshing key => (cache.markRefreshing key).2
  | .clearRefreshing key => cache.clearRefreshing key
  | .recordRefreshFailure key now => cache.recordRefreshFailure scoring key now
  | .restoreEntry entry now => cache.restoreEntry scoring entry now

/-- The cache after a sequence of operations on a new cache. -/
def CacheOp.run (scoring : Scoring Score Stability Inputs) (config : CacheConfig Score)
    (ops : List (CacheOp Score Stability Inputs)) : SemanticCache Score Stability :=
  ops.foldl (CacheOp.apply scoring) (.new config)

namespace SemanticCache

/-- A property that the moves of the operations keep. `Inv` holds between the
moves; `Out key` holds while the entry of `key` is outside the cache. -/
structure Kept (scoring : Scoring Score Stability Inputs)
    (Inv : SemanticCache Score Stability → Prop)
    (Out : CacheKey → SemanticCache Score Stability → Prop) : Prop where
  keyed : ∀ {cache tier key entry}, Inv cache →
    (cache.tierMap tier).get? key = some entry → entry.key = key
  counted : ∀ {cache} event, Inv cache → Inv (cache.count event)
  outCounted : ∀ {cache key} event, Out key cache → Out key (cache.count event)
  withNx : ∀ {cache} nx, Inv cache → Inv { cache with nx := nx }
  taken : ∀ {cache tier key entry}, Inv cache →
    (cache.tierMap tier).get? key = some entry →
    Out key (cache.setTier tier ((cache.tierMap tier).remove scoring.ranking key).2)
  missing : ∀ {cache key}, Inv cache → cache.Absent key → Out key cache
  dropped : ∀ {cache key}, Out key cache → Inv cache
  placed : ∀ {cache} entry, Out entry.key cache → Inv (cache.place scoring entry)
  parked : ∀ {cache} entry, Out entry.key cache → Inv (cache.park scoring entry)
  modified : ∀ {cache} tier key (change : CacheEntry Score Stability → CacheEntry Score Stability),
    (∀ entry, (change entry).key = entry.key ∧ (change entry).score = entry.score ∧
      (change entry).tier = entry.tier) →
    Inv cache → Inv (cache.setTier tier ((cache.tierMap tier).modify key change))
  retained : ∀ {cache} tier keep, Inv cache →
    Inv (cache.setTier tier ((cache.tierMap tier).retain scoring.ranking keep))

namespace Kept

variable {scoring : Scoring Score Stability Inputs} {Inv : SemanticCache Score Stability → Prop}
  {Out : CacheKey → SemanticCache Score Stability → Prop}
  {cache : SemanticCache Score Stability}

/-- A found entry has the key it was looked up by, and leaves the cache. -/
theorem removed (kept : Kept scoring Inv Out) (invariant : Inv cache) {tier : Tier}
    {key : CacheKey} {entry : CacheEntry Score Stability} {map : TierMap Score Stability}
    (found : (cache.tierMap tier).remove scoring.ranking key = (some entry, map)) :
    entry.key = key ∧ Out key (cache.setTier tier map) := by
  have stored : (cache.tierMap tier).get? key = some entry := by
    rw [← RankedMap.remove_fst scoring.ranking, found]
  have rest : map = ((cache.tierMap tier).remove scoring.ranking key).2 := by rw [found]
  exact ⟨kept.keyed invariant stored, rest ▸ kept.taken invariant stored⟩

theorem lookupExactIn (kept : Kept scoring Inv Out) (key : CacheKey) (now : Ts)
    (tiers : List Tier) (cache : SemanticCache Score Stability) (invariant : Inv cache) :
    Inv (SemanticCache.lookupExactIn scoring key now tiers cache).2 := by
  induction tiers generalizing cache with
  | nil => exact invariant
  | cons tier tiers inductionHypothesis =>
      unfold SemanticCache.lookupExactIn
      split
      · exact inductionHypothesis cache invariant
      · rename_i entry map found
        obtain ⟨rfl, outside⟩ := kept.removed invariant found
        dsimp only
        split_ifs
        · exact kept.placed _ (kept.outCounted _ outside)
        · exact kept.parked _ (kept.outCounted _ outside)
        · exact inductionHypothesis _ (kept.dropped (kept.outCounted _ outside))

theorem lookupCnameIn (kept : Kept scoring Inv Out) (key : CacheKey) (now : Ts)
    (tiers : List Tier) (cache : SemanticCache Score Stability) (invariant : Inv cache) :
    Inv (SemanticCache.lookupCnameIn scoring key now tiers cache).2 := by
  induction tiers generalizing cache with
  | nil => exact invariant
  | cons tier tiers inductionHypothesis =>
      unfold SemanticCache.lookupCnameIn
      split
      · exact inductionHypothesis cache invariant
      · rename_i entry map found
        obtain ⟨rfl, outside⟩ := kept.removed invariant found
        dsimp only
        split
        · exact inductionHypothesis _ (kept.placed _ outside)
        · split_ifs
          · exact kept.placed _ (kept.outCounted _ outside)
          · exact inductionHypothesis _ (kept.parked _ outside)
          · exact inductionHypothesis _ (kept.dropped outside)

theorem lookupNx (kept : Kept scoring Inv Out) (key : CacheKey) (now : Ts)
    (invariant : Inv cache) : Inv (cache.lookupNx key now).2 := by
  unfold SemanticCache.lookupNx
  dsimp only
  split
  · split_ifs <;> dsimp only <;> exact kept.counted _ invariant
  · exact kept.counted (fun stats => { stats with misses := stats.misses + 1 }) invariant

theorem lookup (kept : Kept scoring Inv Out) (key : CacheKey) (now : Ts)
    (invariant : Inv cache) : Inv (cache.lookup scoring key now).2 := by
  have exact := walkPartitions_keeps
    (fun cache key => cache.lookupExact scoring key now)
    (fun cache key => kept.lookupExactIn key now _ cache) key cache invariant
  unfold SemanticCache.lookup
  split
  · rename_i outcome after found
    rwa [found] at exact
  · rename_i after found
    rw [found] at exact
    split_ifs
    · have aliased := walkPartitions_keeps
        (fun cache key => cache.lookupCname scoring key now)
        (fun cache key => kept.lookupCnameIn key now _ cache) (key.withType .CNAME) after exact
      split
      · rename_i outcome after found
        rwa [found] at aliased
      · rename_i after found
        rw [found] at aliased
        exact kept.lookupNx key now aliased
    · exact kept.lookupNx key now exact

/-- An operation that takes the entry of a key out and places what becomes of
it. -/
theorem takeEntryAny (kept : Kept scoring Inv Out) (key : CacheKey) (invariant : Inv cache) :
    (∀ entry, (cache.takeEntryAny scoring key).1 = some entry → entry.key = key) ∧
      Out key (cache.takeEntryAny scoring key).2 := by
  rcases cache.takeEntryAny_cases scoring key with
    ⟨tier, entry, found, result⟩ | ⟨absent, result⟩
  · rw [result]
    refine ⟨fun taken same => ?_, kept.taken invariant found⟩
    cases same
    exact kept.keyed invariant found
  · rw [result]
    exact ⟨fun _ impossible => (nomatch impossible), kept.missing invariant absent⟩

theorem insertPositive (kept : Kept scoring Inv Out) (key : CacheKey) (rrset : RrSet) (now : Ts)
    (inputs : Inputs) (validated : Bool) (invariant : Inv cache) :
    Inv (cache.insertPositive scoring key rrset now inputs validated) := by
  obtain ⟨keyed, outside⟩ := kept.takeEntryAny key invariant
  unfold SemanticCache.insertPositive
  dsimp only
  split
  · rename_i entry after found
    rw [found] at keyed outside
    exact kept.placed _ (keyed entry rfl ▸ outside)
  · rename_i after found
    rw [found] at outside
    exact kept.placed _ (kept.outCounted _ outside)

theorem insertNegative (kept : Kept scoring Inv Out) (key : CacheKey) (rcode : Rcode)
    (soa : Option Record) (authoritativeTtl : UInt32) (now : Ts) (inputs : Inputs)
    (invariant : Inv cache) :
    Inv (cache.insertNegative scoring key rcode soa authoritativeTtl now inputs) := by
  obtain ⟨keyed, outside⟩ := kept.takeEntryAny key invariant
  unfold SemanticCache.insertNegative
  dsimp only
  split
  · rename_i entry after found
    rw [found] at keyed outside
    exact kept.placed _ (keyed entry rfl ▸ outside)
  · rename_i after found
    rw [found] at outside
    exact kept.placed _ (kept.outCounted _ outside)

theorem rescore (kept : Kept scoring Inv Out) (key : CacheKey) (inputs : Inputs) (now : Ts)
    (invariant : Inv cache) : Inv (cache.rescore scoring key inputs now) := by
  obtain ⟨keyed, outside⟩ := kept.takeEntryAny key invariant
  unfold SemanticCache.rescore
  split
  · rename_i after found
    rw [found] at outside
    exact kept.dropped outside
  · rename_i entry after found
    rw [found] at keyed outside
    exact kept.placed _ (keyed entry rfl ▸ outside)

theorem insertNxdomain (kept : Kept scoring Inv Out) (name : Name) (rcode : Rcode)
    (soa : Option Record) (authoritativeTtl : UInt32) (now : Ts) (invariant : Inv cache) :
    Inv (cache.insertNxdomain name rcode soa authoritativeTtl now) := by
  unfold SemanticCache.insertNxdomain
  dsimp only
  split
  · exact kept.withNx _ invariant
  · exact kept.withNx _ invariant

theorem sweep (kept : Kept scoring Inv Out) (now : Ts) (invariant : Inv cache) :
    Inv (cache.sweep scoring now) := by
  have swept (keep : CacheKey → CacheEntry Score Stability → Bool)
      (nx : TreeMap Name NegativeEntry) :
      Inv { cache with
        hot := cache.hot.retain scoring.ranking keep
        warm := cache.warm.retain scoring.ranking keep
        cold := cache.cold.retain scoring.ranking keep
        nx := nx } := by
    have hot := kept.retained .hot keep invariant
    have warm := kept.retained .warm keep hot
    have cold := kept.retained .cold keep warm
    exact kept.withNx nx cold
  exact swept _ _

theorem modifyEntry (kept : Kept scoring Inv Out) (key : CacheKey)
    {change : CacheEntry Score Stability → CacheEntry Score Stability}
    (same : ∀ entry, (change entry).key = entry.key ∧ (change entry).score = entry.score ∧
      (change entry).tier = entry.tier)
    (invariant : Inv cache) : Inv (cache.modifyEntry key change) := by
  rcases cache.modifyEntry_cases key change with result | ⟨tier, result⟩
  · rwa [result]
  · rw [result]
    exact kept.modified tier key change same invariant

theorem markRefreshing (kept : Kept scoring Inv Out) (key : CacheKey) (invariant : Inv cache) :
    Inv (cache.markRefreshing key).2 := by
  unfold SemanticCache.markRefreshing
  split
  · split_ifs
    · exact invariant
    · exact kept.modifyEntry key (fun _ => ⟨rfl, rfl, rfl⟩) invariant
  · exact invariant

theorem restoreEntry (kept : Kept scoring Inv Out) (entry : CacheEntry Score Stability)
    (now : Ts) (outside : Out entry.key cache) : Inv (cache.restoreEntry scoring entry now) := by
  unfold SemanticCache.restoreEntry
  split_ifs
  · exact kept.parked entry outside
  · exact kept.placed entry outside

end Kept

end SemanticCache

/-- What an operation needs of the cache for an invariant: only a restored
entry arrives without its key being taken out first. -/
def CacheOp.Meets (Out : CacheKey → SemanticCache Score Stability → Prop)
    (cache : SemanticCache Score Stability) : CacheOp Score Stability Inputs → Prop
  | .restoreEntry entry _ => Out entry.key cache
  | _ => True

/-- Every operation keeps what its moves keep. -/
theorem SemanticCache.Kept.apply {scoring : Scoring Score Stability Inputs}
    {Inv : SemanticCache Score Stability → Prop}
    {Out : CacheKey → SemanticCache Score Stability → Prop} (kept : Kept scoring Inv Out)
    {cache : SemanticCache Score Stability} {op : CacheOp Score Stability Inputs}
    (meets : op.Meets Out cache) (invariant : Inv cache) : Inv (op.apply scoring cache) := by
  cases op with
  | insertPositive key rrset now inputs validated =>
      exact kept.insertPositive key rrset now inputs validated invariant
  | insertNegative key rcode soa authoritativeTtl now inputs =>
      exact kept.insertNegative key rcode soa authoritativeTtl now inputs invariant
  | insertNxdomain name rcode soa authoritativeTtl now =>
      exact kept.insertNxdomain name rcode soa authoritativeTtl now invariant
  | lookup key now => exact kept.lookup key now invariant
  | rescore key inputs now => exact kept.rescore key inputs now invariant
  | sweep now => exact kept.sweep now invariant
  | markRefreshing key => exact kept.markRefreshing key invariant
  | clearRefreshing key => exact kept.modifyEntry key (fun _ => ⟨rfl, rfl, rfl⟩) invariant
  | recordRefreshFailure key now =>
      exact kept.modifyEntry key (fun _ => ⟨rfl, rfl, rfl⟩) invariant
  | restoreEntry entry now => exact kept.restoreEntry entry now meets

end RecurseX
