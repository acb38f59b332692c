import RecurseX.Cache.Indexed

/-!
# What an insertion evicts

A full tier gives up its entry of lowest rank, which moves one tier down, where the
entry of lowest rank is dropped in turn. The accounting is by slots, a tier and a
key: `insertion_evicts_exactly` says that one insertion leaves every entry of another
key in the cache, but for one slot at most. It asks nothing of the cache but that
operations reached it.
-/

namespace RecurseX

open Library

variable {Score Stability Inputs : Type}

namespace SemanticCache

variable {scoring : Scoring Score Stability Inputs} {cache : SemanticCache Score Stability}
  {tier : Tier} {key other : CacheKey} {entry held victim : CacheEntry Score Stability}

/-! ## Accounting by slots -/

/-- The entry is stored under its key in the tier `target`, whose label it may carry. -/
def Retains (after : SemanticCache Score Stability) (target : Tier) (key : CacheKey)
    (entry : CacheEntry Score Stability) : Prop :=
  ∃ held, (after.tierMap target).get? key = some held ∧ { held with tier := entry.tier } = entry

theorem Retains.stored (stored : (cache.tierMap tier).get? key = some entry) :
    cache.Retains tier key entry :=
  ⟨entry, stored, rfl⟩

/-- Every entry of a key other than `key` has a home of its own afterwards, but for the
entry of the slot `lost`. -/
structure Accounts (cache after : SemanticCache Score Stability) (key : CacheKey)
    (lost : Tier × CacheKey) (home : Tier × CacheKey → Tier) : Prop where
  kept : ∀ {tier other entry}, other ≠ key → (tier, other) ≠ lost →
    (cache.tierMap tier).get? other = some entry →
      after.Retains (home (tier, other)) other entry
  apart : ∀ {first second other}, other ≠ key → (first, other) ≠ lost → (second, other) ≠ lost →
    ((cache.tierMap first).get? other).isSome → ((cache.tierMap second).get? other).isSome →
      home (first, other) = home (second, other) → first = second

/-- At most one entry of a key other than `key` is removed. -/
def LosesOne (cache after : SemanticCache Score Stability) (key : CacheKey) : Prop :=
  ∃ lost home, cache.Accounts after key lost home

/-- Where nothing moves, every entry but one is found where it was. -/
theorem LosesOne.unmoved {after : SemanticCache Score Stability} (lost : Tier × CacheKey)
    (kept : ∀ {tier other entry}, other ≠ key → (tier, other) ≠ lost →
      (cache.tierMap tier).get? other = some entry →
        (after.tierMap tier).get? other = some entry) :
    cache.LosesOne after key :=
  ⟨lost, Prod.fst, fun different apart stored => .stored (kept different apart stored),
    fun _ _ _ _ _ same => same⟩

/-- The tiers decide what was lost. -/
theorem LosesOne.congr {before after final : SemanticCache Score Stability}
    (loses : before.LosesOne after key)
    (start : ∀ tier other, other ≠ key →
      (before.tierMap tier).get? other = (cache.tierMap tier).get? other)
    (finish : ∀ tier, final.tierMap tier = after.tierMap tier) : cache.LosesOne final key := by
  obtain ⟨lost, home, kept, apart⟩ := loses
  refine ⟨lost, home, fun {tier other entry} different spared stored => ?_,
    fun {first second other} different firstSpared secondSpared firstHeld secondHeld => ?_⟩
  · rw [← start tier other different] at stored
    obtain ⟨held, found, same⟩ := kept different spared stored
    exact ⟨held, by rw [finish, found], same⟩
  · rw [← start first other different] at firstHeld
    rw [← start second other different] at secondHeld
    exact apart different firstSpared secondSpared firstHeld secondHeld

/-- What an insert into one tier leaves, seen from the whole cache. -/
theorem AllIndexed.get?_store (indexed : cache.AllIndexed scoring) {target : Tier}
    (different : other ≠ entry.key) (stored : (cache.tierMap tier).get? other = some held)
    (kept : ((cache.tierMap target).insert scoring.ranking entry).1 ≠ some held ∨ tier ≠ target) :
    ((cache.setTier target ((cache.tierMap target).insert scoring.ranking entry).2).tierMap
      tier).get? other = some held := by
  by_cases same : tier = target
  · subst same
    rw [tierMap_setTier_self]
    exact (RankedMap.get?_insert_of_ne (indexed tier) different).mpr
      ⟨stored, kept.resolve_right fun apart => apart rfl⟩
  · rw [tierMap_setTier_of_ne same]
    exact stored

/-- Away from the slot of the victim, an insert into one tier loses nothing. -/
theorem AllIndexed.get?_store_of_ne (indexed : cache.AllIndexed scoring) {target : Tier}
    (different : other ≠ entry.key)
    (apart : ∀ victim, ((cache.tierMap target).insert scoring.ranking entry).1 = some victim →
      (tier, other) ≠ (target, victim.key))
    (stored : (cache.tierMap tier).get? other = some held) :
    ((cache.setTier target ((cache.tierMap target).insert scoring.ranking entry).2).tierMap
      tier).get? other = some held := by
  refine indexed.get?_store different stored ?_
  by_cases same : tier = target
  · left
    intro lost
    refine apart held lost ?_
    rw [same, ← (indexed tier).keyed stored]
    rfl
  · exact .inr same

/-- The slot that an insert empties or overwrites. -/
def overwritten (scoring : Scoring Score Stability Inputs) (cache : SemanticCache Score Stability)
    (target : Tier) (entry : CacheEntry Score Stability) : Tier × CacheKey :=
  (target, (((cache.tierMap target).insert scoring.ranking entry).1.map CacheEntry.key).getD
    entry.key)

/-- Where an insert evicts, the key is new to the tier. -/
theorem AllIndexed.absent_of_overwritten (indexed : cache.AllIndexed scoring) {target : Tier}
    (spared : (target, entry.key) ≠ cache.overwritten scoring target entry) :
    (cache.tierMap target).get? entry.key = none := by
  rcases RankedMap.insert_cases (indexed target) entry with
    ⟨none, -⟩ | ⟨popped, -, -, -, absent, -⟩
  · simp [overwritten, none] at spared
  · exact absent

/-- An insert into one tier, whose victim is dropped. -/
theorem AllIndexed.store_losesOne (indexed : cache.AllIndexed scoring) (target : Tier)
    (entry : CacheEntry Score Stability) :
    cache.LosesOne
      (cache.setTier target ((cache.tierMap target).insert scoring.ranking entry).2) entry.key := by
  refine .unmoved (cache.overwritten scoring target entry) fun different apart stored => ?_
  refine indexed.get?_store_of_ne different (fun victim evicted same => ?_) stored
  rw [overwritten, evicted] at apart
  exact apart same

/-- The victim of one tier goes to another, whose own victim is dropped. -/
theorem AllIndexed.demote_accounts (indexed : cache.AllIndexed scoring) {target next : Tier}
    (different : target ≠ next) {stepped : SemanticCache Score Stability}
    (evicted : ((cache.tierMap target).insert scoring.ranking entry).1 = some victim)
    (steppedIndexed : stepped.AllIndexed scoring)
    (step : ∀ tier, stepped.tierMap tier =
      (cache.setTier target ((cache.tierMap target).insert scoring.ranking entry).2).tierMap tier) :
    cache.Accounts
      (stepped.setTier next
        ((stepped.tierMap next).insert scoring.ranking { victim with tier := next }).2) entry.key
      (stepped.overwritten scoring next { victim with tier := next })
      fun slot => if slot = (target, victim.key) then next else slot.1 := by
  have lower : stepped.tierMap next = cache.tierMap next := by
    rw [step, tierMap_setTier_of_ne different.symm]
  obtain ⟨victimStored, -⟩ := RankedMap.get?_insert_victim (indexed target) evicted
  -- A copy of the victim's key in the lower tier is the slot that is lost.
  have free : (next, victim.key) ≠ stepped.overwritten scoring next { victim with tier := next } →
      (cache.tierMap next).get? victim.key = none := by
    intro spared
    rw [← lower]
    exact steppedIndexed.absent_of_overwritten spared
  constructor
  · intro tier other held foreign spared stored
    by_cases moved : (tier, other) = (target, victim.key)
    · rw [if_pos moved]
      obtain ⟨rfl, rfl⟩ := Prod.mk.inj moved
      obtain rfl : victim = held := Option.some.inj (victimStored.symm.trans stored)
      refine ⟨{ victim with tier := next }, ?_, rfl⟩
      rw [tierMap_setTier_self]
      exact RankedMap.get?_insert_self (steppedIndexed next) { victim with tier := next }
    · rw [if_neg moved]
      have between : (stepped.tierMap tier).get? other = some held := by
        rw [step]
        refine indexed.get?_store_of_ne foreign (fun popped result => ?_) stored
        rw [evicted] at result
        cases result
        exact moved
      by_cases same : other = victim.key
      · subst same
        by_cases there : tier = next
        · subst there
          rw [free spared] at stored
          cases stored
        · exact .stored (by rw [tierMap_setTier_of_ne there, between])
      · refine .stored (steppedIndexed.get?_store_of_ne same (fun popped result => ?_) between)
        rw [overwritten, result] at spared
        exact spared
  · intro first second other _ firstSpared secondSpared firstHeld secondHeld same
    split_ifs at same with firstMoved secondMoved secondMoved
    · rw [(Prod.mk.inj firstMoved).1, (Prod.mk.inj secondMoved).1]
    · subst same
      rw [(Prod.mk.inj firstMoved).2] at secondSpared secondHeld
      rw [free secondSpared] at secondHeld
      cases secondHeld
    · subst same
      rw [(Prod.mk.inj secondMoved).2] at firstSpared firstHeld
      rw [free firstSpared] at firstHeld
      cases firstHeld
    · exact same

/-- The victim of a full tier moves down, and the lower tier's own victim is dropped. -/
theorem AllIndexed.spill_losesOne (indexed : cache.AllIndexed scoring) {target : Tier}
    (evicted : ((cache.tierMap target).insert scoring.ranking entry).1 = some victim) :
    cache.LosesOne ((cache.setTier target
      ((cache.tierMap target).insert scoring.ranking entry).2).spill scoring victim target)
      entry.key := by
  have dropped := indexed.store_losesOne target entry
  unfold SemanticCache.spill
  dsimp only
  cases below : lowerTier target with
  | none => exact dropped.congr (fun _ _ _ => rfl) fun _ => tierMap_count
  | some next =>
    dsimp only
    split_ifs with disabled
    · exact dropped.congr (fun _ _ _ => rfl) fun _ => tierMap_count
    · exact ⟨_, _, indexed.demote_accounts (lowerTier_ne below) evicted
        ((indexed.store target entry).count _) fun _ => tierMap_count⟩

/-! ## One insertion -/

theorem AllIndexed.park_losesOne (indexed : cache.AllIndexed scoring)
    (entry : CacheEntry Score Stability) :
    cache.LosesOne (cache.park scoring entry) entry.key :=
  indexed.store_losesOne .cold { entry with tier := .cold }

/-- Taking the entry of a key out leaves every other key alone. -/
theorem get?_takeEntryAny_of_ne (different : other ≠ key) :
    ((cache.takeEntryAny scoring key).2.tierMap tier).get? other =
      (cache.tierMap tier).get? other := by
  rcases cache.takeEntryAny_cases scoring key with ⟨source, entry, -, result⟩ | ⟨-, result⟩
  · rw [result]
    dsimp only
    by_cases same : tier = source
    · subst same
      rw [tierMap_setTier_self]
      exact RankedMap.get?_remove_of_ne different
    · rw [tierMap_setTier_of_ne same]
  · rw [result]

section Insertion

variable [LinearOrder Score]

theorem AllIndexed.place_losesOne (indexed : cache.AllIndexed scoring)
    (entry : CacheEntry Score Stability) :
    cache.LosesOne (cache.place scoring entry) entry.key := by
  unfold SemanticCache.place
  split
  · exact .unmoved (.hot, entry.key) fun _ _ stored => stored
  · rename_i tier _
    dsimp only
    split
    · rename_i victim evicted
      exact @AllIndexed.spill_losesOne _ _ _ _ _ { entry with tier } victim indexed tier evicted
    · exact indexed.store_losesOne tier { entry with tier }

/-- An entry that goes where the old entry of its key was taken out. -/
theorem AllIndexed.replace_losesOne (indexed : cache.AllIndexed scoring)
    {taken : SemanticCache Score Stability} (same : entry.key = key)
    (out : ∀ tier, taken.tierMap tier = (cache.takeEntryAny scoring key).2.tierMap tier) :
    cache.LosesOne (taken.place scoring entry) key := by
  have takenIndexed : taken.AllIndexed scoring := by
    intro tier
    rw [out]
    exact indexed.takeEntryAny key tier
  subst same
  refine (takenIndexed.place_losesOne entry).congr (fun tier other different => ?_) fun _ => rfl
  rw [out, get?_takeEntryAny_of_ne different]

theorem AllIndexed.insertPositive_losesOne (indexed : cache.AllIndexed scoring) (key : CacheKey)
    (rrset : RrSet) (now : Ts) (inputs : Inputs) (validated : Bool) :
    cache.LosesOne (cache.insertPositive scoring key rrset now inputs validated) key := by
  obtain ⟨keyed, -⟩ := (allIndexed_kept scoring).takeEntryAny key indexed
  unfold SemanticCache.insertPositive
  dsimp only
  split
  · rename_i entry after found
    rw [found] at keyed
    exact indexed.replace_losesOne (keyed entry rfl) fun tier => by rw [found]
  · rename_i after found
    exact indexed.replace_losesOne rfl fun tier => by rw [found, tierMap_count]

theorem AllIndexed.insertNegative_losesOne (indexed : cache.AllIndexed scoring) (key : CacheKey)
    (rcode : Rcode) (soa : Option Record) (authoritativeTtl : UInt32) (now : Ts)
    (inputs : Inputs) :
    cache.LosesOne (cache.insertNegative scoring key rcode soa authoritativeTtl now inputs) key := by
  obtain ⟨keyed, -⟩ := (allIndexed_kept scoring).takeEntryAny key indexed
  unfold SemanticCache.insertNegative
  dsimp only
  split
  · rename_i entry after found
    rw [found] at keyed
    exact indexed.replace_losesOne (keyed entry rfl) fun tier => by rw [found]
  · rename_i after found
    exact indexed.replace_losesOne rfl fun tier => by rw [found, tierMap_count]

theorem AllIndexed.restoreEntry_losesOne (indexed : cache.AllIndexed scoring)
    (entry : CacheEntry Score Stability) (now : Ts) :
    cache.LosesOne (cache.restoreEntry scoring entry now) entry.key := by
  unfold SemanticCache.restoreEntry
  split_ifs
  · exact indexed.park_losesOne entry
  · exact indexed.place_losesOne entry

end Insertion

/-! ## The victim of a full tier -/

/-- `victim` is what the tier gives up for `entry`: an entry of lowest rank, and nothing
else changes but the slot of `entry`. -/
structure EvictsLowest (scoring : Scoring Score Stability Inputs)
    (map : TierMap Score Stability) (entry victim : CacheEntry Score Stability) : Prop where
  stored : map.get? victim.key = some victim
  foreign : victim.key ≠ entry.key
  lowest : ∀ {key held}, map.get? key = some held →
    scoring.rankOf victim.score ≤ scoring.rankOf held.score
  gone : (map.insert scoring.ranking entry).2.get? victim.key = none
  rest : ∀ {key}, key ≠ victim.key → key ≠ entry.key →
    (map.insert scoring.ranking entry).2.get? key = map.get? key

/-- The victim of an indexed tier. -/
theorem evictsLowest_of_indexed {map : TierMap Score Stability}
    (indexed : map.Indexed scoring.ranking)
    (evicted : (map.insert scoring.ranking entry).1 = some victim) :
    EvictsLowest scoring map entry victim := by
  obtain ⟨stored, gone⟩ := RankedMap.get?_insert_victim indexed evicted
  refine ⟨stored, ?_, ?_, gone, ?_⟩
  · intro same
    have present := RankedMap.get?_insert_self indexed entry
    rw [show scoring.ranking.key victim = scoring.ranking.key entry from same, present] at gone
    cases gone
  · intro key held there
    exact (Std.LawfulOrderOrd.isLE_compare _ _).mp
      (RankedMap.insert_victim_lowest indexed evicted there)
  · intro key apart different
    refine Option.ext fun held => ?_
    rw [RankedMap.get?_insert_of_ne indexed different]
    refine ⟨fun both => both.1, fun there => ⟨there, fun lost => ?_⟩⟩
    rw [evicted] at lost
    cases lost
    exact apart (indexed.keyed there).symm

end SemanticCache

/-- The key an operation inserts an entry under. -/
def CacheOp.insertedKey : CacheOp Score Stability Inputs → Option CacheKey
  | .insertPositive key _ _ _ _ => some key
  | .insertNegative key _ _ _ _ _ => some key
  | .restoreEntry entry _ => some entry.key
  | _ => none

variable [LinearOrder Score]

open SemanticCache in
/-- In the tiers of every reachable cache, and in those with the old entry of a key taken
out, whatever a full tier gives up is an entry of lowest rank, and all others stay. One
insertion, with the demotion it causes, removes at most one entry of another key. -/
theorem insertion_evicts_exactly (scoring : Scoring Score Stability Inputs)
    (config : CacheConfig Score) (ops : List (CacheOp Score Stability Inputs)) :
    (∀ (key : CacheKey) (tier : Tier) (entry victim : CacheEntry Score Stability),
      ∀ cache ∈ [CacheOp.run scoring config ops,
          ((CacheOp.run scoring config ops).takeEntryAny scoring key).2],
        ((cache.tierMap tier).insert scoring.ranking entry).1 = some victim →
          EvictsLowest scoring (cache.tierMap tier) entry victim) ∧
    ∀ (op : CacheOp Score Stability Inputs) (key : CacheKey), op.insertedKey = some key →
      (CacheOp.run scoring config ops).LosesOne
        (op.apply scoring (CacheOp.run scoring config ops)) key := by
  have indexed := run_allIndexed scoring config ops
  constructor
  · intro key tier entry victim cache reached evicted
    rcases List.mem_pair.mp reached with rfl | rfl
    · exact evictsLowest_of_indexed (indexed tier) evicted
    · exact evictsLowest_of_indexed (indexed.takeEntryAny key tier) evicted
  · intro op key inserted
    cases op <;> cases inserted
    · exact indexed.insertPositive_losesOne _ _ _ _ _
    · exact indexed.insertNegative_losesOne _ _ _ _ _ _
    · exact indexed.restoreEntry_losesOne _ _

end RecurseX
