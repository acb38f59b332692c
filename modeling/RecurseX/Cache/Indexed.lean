import RecurseX.Cache.Operations
import RecurseX.Library.Runs

/-!
# The indices of the tiers

Every operation keeps the rank index of every tier in agreement with its map, whatever
is restored and however often a key is cached. This is all that is needed to say what
a tier holds after an entry was stored or demoted.
-/

namespace RecurseX

open Library

variable {Score Stability Inputs : Type}

namespace SemanticCache

variable {scoring : Scoring Score Stability Inputs} {cache : SemanticCache Score Stability}
  {tier source target : Tier} {key : CacheKey} {entry held : CacheEntry Score Stability}

/-- Every tier agrees with its index. -/
def AllIndexed (scoring : Scoring Score Stability Inputs)
    (cache : SemanticCache Score Stability) : Prop :=
  ∀ tier, (cache.tierMap tier).Indexed scoring.ranking

theorem new_allIndexed (config : CacheConfig Score) :
    (new config : SemanticCache Score Stability).AllIndexed scoring := by
  intro tier
  cases tier <;> exact RankedMap.new_indexed _

theorem AllIndexed.setTier {map : TierMap Score Stability} (indexed : cache.AllIndexed scoring)
    (own : map.Indexed scoring.ranking) (tier : Tier) :
    (cache.setTier tier map).AllIndexed scoring := by
  intro source
  by_cases same : source = tier
  · subst same
    rw [tierMap_setTier_self]
    exact own
  · rw [tierMap_setTier_of_ne same]
    exact indexed source

theorem AllIndexed.count (indexed : cache.AllIndexed scoring) (event : CacheStats → CacheStats) :
    (cache.count event).AllIndexed scoring := by
  intro tier
  rw [tierMap_count]
  exact indexed tier

theorem AllIndexed.store (indexed : cache.AllIndexed scoring) (tier : Tier)
    (entry : CacheEntry Score Stability) :
    (cache.setTier tier ((cache.tierMap tier).insert scoring.ranking entry).2).AllIndexed scoring :=
  indexed.setTier ((indexed tier).insert entry) tier

theorem AllIndexed.spill (indexed : cache.AllIndexed scoring) (victim : CacheEntry Score Stability)
    (source : Tier) : (cache.spill scoring victim source).AllIndexed scoring := by
  unfold SemanticCache.spill
  dsimp only
  split
  · exact indexed.count _
  · split_ifs
    · exact indexed.count _
    · exact (indexed.count _).store _ _

theorem lowerTier_ne {target next : Tier} (below : lowerTier target = some next) :
    target ≠ next := by
  cases target <;> cases below <;> decide

/-- What a tier holds after an insert is the new entry or was held before. -/
theorem AllIndexed.stored_of_store (indexed : cache.AllIndexed scoring) (target : Tier)
    (stored : ((cache.setTier target ((cache.tierMap target).insert scoring.ranking entry).2).tierMap
      tier).get? key = some held) :
    (tier = target ∧ key = entry.key ∧ held = entry) ∨
      (cache.tierMap tier).get? key = some held := by
  by_cases own : tier = target
  · subst own
    rw [tierMap_setTier_self] at stored
    by_cases same : key = entry.key
    · subst same
      have inserted := RankedMap.get?_insert_self (indexed tier) entry
      exact .inl ⟨rfl, rfl, Option.some.inj (stored.symm.trans inserted)⟩
    · exact .inr ((RankedMap.get?_insert_of_ne (indexed tier) same).mp stored).1
  · rw [tierMap_setTier_of_ne own] at stored
    exact .inr stored

theorem AllIndexed.stored_of_spill {victim : CacheEntry Score Stability}
    (indexed : cache.AllIndexed scoring)
    (stored : ((cache.spill scoring victim source).tierMap tier).get? key = some held) :
    (tier ≠ source ∧ key = victim.key ∧ held = { victim with tier := tier }) ∨
      (cache.tierMap tier).get? key = some held := by
  unfold SemanticCache.spill at stored
  dsimp only at stored
  split at stored
  · rw [tierMap_count] at stored
    exact .inr stored
  · rename_i next below
    split_ifs at stored
    · rw [tierMap_count] at stored
      exact .inr stored
    · rcases (indexed.count _).stored_of_store next stored with ⟨rfl, same, rfl⟩ | before
      · exact .inl ⟨(lowerTier_ne below).symm, same, rfl⟩
      · rw [tierMap_count] at before
        exact .inr before

section Placing

variable [LinearOrder Score]

theorem AllIndexed.place (indexed : cache.AllIndexed scoring) (entry : CacheEntry Score Stability) :
    (cache.place scoring entry).AllIndexed scoring := by
  unfold SemanticCache.place
  split
  · exact indexed
  · dsimp only
    split
    · exact (indexed.store _ _).spill _ _
    · exact indexed.store _ _

/-- Every operation keeps the tiers and their indices in agreement. -/
theorem allIndexed_kept (scoring : Scoring Score Stability Inputs) :
    Kept scoring (AllIndexed scoring) fun _ => AllIndexed scoring where
  keyed indexed stored := (indexed _).keyed stored
  counted event indexed := indexed.count event
  outCounted event indexed := indexed.count event
  withNx _ indexed tier := by
    rw [tierMap_withNx]
    exact indexed tier
  taken indexed _ := indexed.setTier ((indexed _).remove _) _
  missing indexed _ := indexed
  dropped indexed := indexed
  placed entry indexed := indexed.place entry
  parked _ indexed := indexed.store .cold _
  modified tier _ _ same indexed := indexed.setTier ((indexed tier).modify
    (fun entry => (same entry).1) fun entry => congrArg scoring.rankOf (same entry).2.1) tier
  retained tier keep indexed := indexed.setTier (RankedMap.retain_spec (indexed tier) keep).1 tier

theorem AllIndexed.apply (indexed : cache.AllIndexed scoring)
    (op : CacheOp Score Stability Inputs) : (op.apply scoring cache).AllIndexed scoring := by
  refine (allIndexed_kept scoring).apply ?_ indexed
  cases op with
  | restoreEntry => exact indexed
  | _ => trivial

theorem run_allIndexed (scoring : Scoring Score Stability Inputs) (config : CacheConfig Score)
    (ops : List (CacheOp Score Stability Inputs)) :
    (CacheOp.run scoring config ops).AllIndexed scoring :=
  foldl_invariant (CacheOp.apply scoring) (AllIndexed scoring) (fun _ op indexed => indexed.apply op)
    (new_allIndexed config)

theorem AllIndexed.takeEntryAny (indexed : cache.AllIndexed scoring) (key : CacheKey) :
    (cache.takeEntryAny scoring key).2.AllIndexed scoring :=
  ((allIndexed_kept scoring).takeEntryAny key indexed).2

end Placing

end SemanticCache

end RecurseX
