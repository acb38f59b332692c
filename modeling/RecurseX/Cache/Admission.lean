import Mathlib.Data.Fintype.EquivFin
import RecurseX.Cache.Invariant

/-!
# Admission by score

A score earns a tier by threshold, and a tier that is disabled hands its entries to
the tier below it, one step only. `admission_monotone_iff` says for which
configurations a better score is always admitted at least as well.
-/

namespace RecurseX.Library.RankedMap

variable {K R V : Type} [Ord K] [Ord R] {ranking : Ranking K R V}

/-- A map with room evicts nothing. -/
theorem insert_of_room {self : RankedMap K R V} (room : 0 < self.capacity → self.len < self.capacity)
    (entry : V) : self.insert ranking entry =
      (none, (self.remove ranking (ranking.key entry)).2.put ranking entry) := by
  unfold insert
  rw [if_neg]
  rintro ⟨enabled, _, full⟩
  have free := room enabled
  rw [len] at free
  omega

end RecurseX.Library.RankedMap

namespace RecurseX

open Library

/-- How hot a tier is. -/
def Tier.level : Tier → Nat
  | .hot => 2
  | .warm => 1
  | .cold => 0

namespace SemanticCache

variable {Score Stability Inputs : Type} [LinearOrder Score]
variable {scoring : Scoring Score Stability Inputs} {cache : SemanticCache Score Stability}

/-- No tier that may hold entries is full. -/
def FreeRoom (cache : SemanticCache Score Stability) : Prop :=
  ∀ tier, 0 < (cache.tierMap tier).capacity →
    (cache.tierMap tier).len < (cache.tierMap tier).capacity

omit [LinearOrder Score] in
theorem new_freeRoom (config : CacheConfig Score) :
    (new config : SemanticCache Score Stability).FreeRoom := by
  intro tier enabled
  cases tier <;> exact enabled

/-- Placing the entry stores it in the tier. -/
def Admits (scoring : Scoring Score Stability Inputs) (cache : SemanticCache Score Stability)
    (entry : CacheEntry Score Stability) (tier : Tier) : Prop :=
  ((cache.place scoring entry).tierMap tier).get? entry.key = some { entry with tier }

/-- A new entry that scores no less than an admitted one is admitted, into a tier at least
as hot. -/
def AdmitsMonotone (scoring : Scoring Score Stability Inputs)
    (cache : SemanticCache Score Stability) : Prop :=
  ∀ entry other tier, cache.Absent entry.key → cache.Absent other.key →
    entry.score ≤ other.score → cache.Admits scoring entry tier →
    ∃ hotter, cache.Admits scoring other hotter ∧ tier.level ≤ hotter.level

/-- Only the cold tier is enabled, and a score below the hot threshold is admitted to it. -/
def HotStranded (cache : SemanticCache Score Stability) : Prop :=
  cache.hot.capacity = 0 ∧ cache.warm.capacity = 0 ∧ 0 < cache.cold.capacity ∧
    min cache.config.warmAdmitScore cache.config.minAdmitScore < cache.config.hotAdmitScore

/-- With free room, a new entry is admitted to the tier its score earns. -/
theorem admits_iff (room : cache.FreeRoom) {entry : CacheEntry Score Stability} {tier : Tier}
    (absent : cache.Absent entry.key) :
    cache.Admits scoring entry tier ↔ cache.tierFor entry.score = some tier := by
  unfold Admits place
  cases earned : cache.tierFor entry.score with
  | none => simp [absent tier]
  | some chosen =>
      dsimp only
      rw [RankedMap.insert_of_room (room chosen)]
      by_cases same : tier = chosen
      · subst same
        rw [tierMap_setTier_self]
        exact iff_of_true RankedMap.get?_put_self rfl
      · rw [tierMap_setTier_of_ne same, absent tier]
        simp [Ne.symm same]

/-- The tier a score reaches by threshold. -/
def earnedTier (config : CacheConfig Score) (score : Score) : Option Tier :=
  if config.hotAdmitScore ≤ score then some .hot
  else if config.warmAdmitScore ≤ score then some .warm
  else if config.minAdmitScore ≤ score then some .cold
  else none

theorem tierFor_eq_some_iff {score : Score} {tier : Tier} :
    cache.tierFor score = some tier ↔
      ∃ earned, earnedTier cache.config score = some earned ∧
        (0 < (cache.tierMap earned).capacity ∧ tier = earned ∨
          (cache.tierMap earned).capacity = 0 ∧ lowerTier earned = some tier ∧
            0 < (cache.tierMap tier).capacity) := by
  unfold tierFor
  generalize reached : earnedTier cache.config score = earned
  unfold earnedTier at reached
  dsimp only
  rw [reached]
  cases earned with
  | none => simp
  | some earned =>
      dsimp only
      by_cases disabled : (cache.tierMap earned).capacity = 0
      · simp [disabled, Option.filter_eq_some_iff]
      · rw [if_neg disabled]
        constructor
        · rintro ⟨⟩
          exact ⟨_, rfl, .inl ⟨Nat.pos_of_ne_zero disabled, rfl⟩⟩
        · rintro ⟨_, ⟨⟩, ⟨_, rfl⟩ | ⟨empty, _⟩⟩
          · rfl
          · exact absurd empty disabled

/-- The thresholds alone are monotone, in whatever order they stand. -/
theorem earnedTier_mono {config : CacheConfig Score} {score other : Score} (better : score ≤ other)
    {tier : Tier} (earned : earnedTier config score = some tier) :
    ∃ hotter, earnedTier config other = some hotter ∧ tier.level ≤ hotter.level := by
  unfold earnedTier at earned ⊢
  by_cases hot : config.hotAdmitScore ≤ other
  · exact ⟨.hot, if_pos hot, by cases tier <;> decide⟩
  rw [if_neg hot]
  rw [if_neg fun reached => hot (reached.trans better)] at earned
  by_cases warm : config.warmAdmitScore ≤ other
  · refine ⟨.warm, if_pos warm, ?_⟩
    split_ifs at earned
    · cases earned
      exact Nat.le_refl _
    · cases earned
      decide
  rw [if_neg warm]
  rw [if_neg fun reached => warm (reached.trans better)] at earned
  split_ifs at earned with admitted
  cases earned
  exact ⟨.cold, if_pos (admitted.trans better), Nat.le_refl _⟩

/-- A score that earns a lower tier is between the thresholds. -/
theorem lt_hotAdmitScore {config : CacheConfig Score} {score : Score} {tier : Tier}
    (earned : earnedTier config score = some tier) (lower : tier ≠ .hot) :
    min config.warmAdmitScore config.minAdmitScore < config.hotAdmitScore := by
  unfold earnedTier at earned
  split_ifs at earned with hot warm admitted
  · cases earned
    exact absurd rfl lower
  · exact (min_le_left _ _).trans_lt (warm.trans_lt (not_le.mp hot))
  · exact (min_le_right _ _).trans_lt (admitted.trans_lt (not_le.mp hot))

/-- With the fallback the choice is monotone, unless the hot entries are stranded. -/
theorem tierFor_mono (kept : ¬ cache.HotStranded) {score other : Score} (better : score ≤ other)
    {tier : Tier} (chosen : cache.tierFor score = some tier) :
    ∃ hotter, cache.tierFor other = some hotter ∧ tier.level ≤ hotter.level := by
  obtain ⟨earned, reached, given⟩ := tierFor_eq_some_iff.mp chosen
  obtain ⟨hotter, reachedOther, level⟩ := earnedTier_mono better reached
  have below : tier.level ≤ earned.level := by
    rcases given with ⟨_, rfl⟩ | ⟨_, lower, _⟩
    · exact Nat.le_refl _
    · cases earned <;> cases lower <;> decide
  have enabled : 0 < (cache.tierMap tier).capacity := by
    rcases given with ⟨enabled, rfl⟩ | ⟨_, _, enabled⟩ <;> exact enabled
  rcases Nat.eq_zero_or_pos (cache.tierMap hotter).capacity with disabled | room
  swap
  · exact ⟨hotter, tierFor_eq_some_iff.mpr ⟨hotter, reachedOther, .inl ⟨room, rfl⟩⟩,
      below.trans level⟩
  have falls : ∀ {lower}, lowerTier hotter = some lower → 0 < (cache.tierMap lower).capacity →
      cache.tierFor other = some lower := fun next room =>
    tierFor_eq_some_iff.mpr ⟨hotter, reachedOther, .inr ⟨disabled, next, room⟩⟩
  have apart : tier ≠ hotter := by
    rintro rfl
    omega
  cases hotter with
  | hot =>
      rcases Nat.eq_zero_or_pos (cache.tierMap .warm).capacity with alsoDisabled | warmRoom
      · -- Only the cold tier is left, and the hot entry does not fall that far.
        refine absurd ⟨disabled, alsoDisabled, ?_, ?_⟩ kept
        · cases tier with
          | hot => exact absurd rfl apart
          | warm => exact absurd enabled (by omega)
          | cold => exact enabled
        · refine lt_hotAdmitScore reached ?_
          rintro rfl
          rcases given with ⟨_, rfl⟩ | ⟨_, lower, _⟩
          · exact apart rfl
          · cases lower
            exact absurd enabled (by omega)
      · refine ⟨.warm, falls rfl warmRoom, ?_⟩
        cases tier with
        | hot => exact absurd rfl apart
        | warm | cold => decide
  | warm =>
      obtain rfl : tier = .cold := by
        cases tier with
        | hot => exact absurd (below.trans level) (by decide)
        | warm => exact absurd rfl apart
        | cold => rfl
      exact ⟨.cold, falls rfl enabled, Nat.le_refl _⟩
  | cold =>
      have least : tier.level = 0 := Nat.le_zero.mp (below.trans level)
      cases tier with
      | hot | warm => cases least
      | cold => exact absurd rfl apart

omit [LinearOrder Score] in
/-- Some key is not in the cache. -/
theorem exists_absent (cache : SemanticCache Score Stability) : ∃ key, cache.Absent key := by
  have infinite : Infinite CacheKey := Infinite.of_injective
    (fun bytes : List UInt8 => CacheKey.plain ⟨bytes⟩ .A .IN) fun first second same => by
      injection same with name
      injection name
  obtain ⟨key, fresh⟩ := Infinite.exists_notMem_finset
    (keySet cache.hot.map ∪ keySet cache.warm.map ∪ keySet cache.cold.map)
  refine ⟨key, fun tier => ?_⟩
  by_contra stored
  obtain ⟨entry, found⟩ := Option.ne_none_iff_exists'.mp stored
  have member := RankedMap.mem_map_iff.mpr ⟨entry, found⟩
  have inside : key ∈ keySet (cache.tierMap tier).map :=
    List.mem_toFinset.mpr (Std.TreeMap.mem_keys.mpr member)
  refine fresh ?_
  cases tier with
  | hot => exact Finset.mem_union_left _ (Finset.mem_union_left _ inside)
  | warm => exact Finset.mem_union_left _ (Finset.mem_union_right _ inside)
  | cold => exact Finset.mem_union_right _ inside

end SemanticCache

/-- An entry with a given score. -/
def CacheEntry.scored {Score Stability Inputs : Type} (scoring : Scoring Score Stability Inputs)
    (key : CacheKey) (score : Score) : CacheEntry Score Stability :=
  { CacheEntry.nodata scoring key with score := score }

/-- With free room, a better score is always admitted at least as well exactly when hot
entries are not stranded. -/
theorem admission_monotone_iff {Score Stability Inputs : Type} [LinearOrder Score]
    (scoring : Scoring Score Stability Inputs) (cache : SemanticCache Score Stability)
    (room : cache.FreeRoom) : cache.AdmitsMonotone scoring ↔ ¬ cache.HotStranded := by
  constructor
  · rintro monotone ⟨hot, warm, cold, thresholds⟩
    obtain ⟨key, absent⟩ := cache.exists_absent
    let score := min cache.config.warmAdmitScore cache.config.minAdmitScore
    have low : cache.tierFor score = some .cold := by
      refine SemanticCache.tierFor_eq_some_iff.mpr ?_
      by_cases reached : cache.config.warmAdmitScore ≤ score
      · refine ⟨.warm, ?_, .inr ⟨warm, rfl, cold⟩⟩
        rw [SemanticCache.earnedTier, if_neg (not_le.mpr thresholds), if_pos reached]
      · refine ⟨.cold, ?_, .inl ⟨cold, rfl⟩⟩
        have least : cache.config.minAdmitScore ≤ score :=
          (min_choice _ _).elim (fun same => absurd same.ge reached) fun same => same.ge
        rw [SemanticCache.earnedTier, if_neg (not_le.mpr thresholds), if_neg reached, if_pos least]
    have high : cache.tierFor cache.config.hotAdmitScore = none := by
      refine Option.eq_none_iff_forall_ne_some.mpr fun tier found => ?_
      obtain ⟨earned, reached, given⟩ := SemanticCache.tierFor_eq_some_iff.mp found
      rw [SemanticCache.earnedTier, if_pos le_rfl] at reached
      cases reached
      rcases given with ⟨enabled, _⟩ | ⟨_, lower, enabled⟩
      · exact absurd enabled (Nat.not_lt.mpr (Nat.le_of_eq hot))
      · cases lower
        exact absurd enabled (Nat.not_lt.mpr (Nat.le_of_eq warm))
    obtain ⟨hotter, admitted, _⟩ := monotone (.scored scoring key score)
      (.scored scoring key cache.config.hotAdmitScore) .cold absent absent (le_of_lt thresholds)
      ((SemanticCache.admits_iff room absent).mpr low)
    have refused := (SemanticCache.admits_iff room absent).mp admitted
    exact absurd (high.symm.trans refused) (by simp)
  · intro kept entry other tier absent absentOther better admitted
    obtain ⟨hotter, found, level⟩ := SemanticCache.tierFor_mono kept better
      ((SemanticCache.admits_iff room absent).mp admitted)
    exact ⟨hotter, (SemanticCache.admits_iff room absentOther).mpr found, level⟩

/-- A cache with three tiers of one entry each. -/
theorem admission_monotone_small :
    (SemanticCache.new (smallConfig 1) : SemanticCache Nat Unit).AdmitsMonotone ttlScoring :=
  (admission_monotone_iff ttlScoring _ (SemanticCache.new_freeRoom _)).mpr
    fun stranded => absurd stranded.1 (by decide)

/-- A cache with a cold tier only. -/
def coldOnly : SemanticCache Nat Unit :=
  .new { smallConfig 1 with hotCapacity := 0, warmCapacity := 0 }

/-- A score of 100 is admitted there, and one of 200 is not. -/
theorem better_score_refused :
    coldOnly.Admits ttlScoring (.scored ttlScoring (.plain .root .A .IN) 100) .cold ∧
      (∀ tier, ¬ coldOnly.Admits ttlScoring (.scored ttlScoring (.plain .root .A .IN) 200) tier) ∧
      ¬ coldOnly.AdmitsMonotone ttlScoring := by
  have room : coldOnly.FreeRoom := SemanticCache.new_freeRoom _
  have absent : coldOnly.Absent (.plain .root .A .IN) := fun tier => by cases tier <;> rfl
  have low : coldOnly.Admits ttlScoring (.scored ttlScoring (.plain .root .A .IN) 100) .cold :=
    (SemanticCache.admits_iff room absent).mpr (by decide)
  have high : ∀ tier,
      ¬ coldOnly.Admits ttlScoring (.scored ttlScoring (.plain .root .A .IN) 200) tier := by
    intro tier admitted
    have earned : coldOnly.tierFor 200 = some tier := (SemanticCache.admits_iff room absent).mp admitted
    exact absurd earned (by cases tier <;> decide)
  refine ⟨low, high, fun monotone => ?_⟩
  have better : (100 : Nat) ≤ 200 := by decide
  obtain ⟨tier, admitted, _⟩ := monotone _ (.scored ttlScoring (.plain .root .A .IN) 200) _ absent
    absent better low
  exact high tier admitted

end RecurseX
