import RecurseX.Cache.Expiry

/-!
# Refresh marks

An entry that is being refreshed carries a mark. `Refiles` says what an
operation does to the marks: an entry is as it was, or it was filed anew,
without one. Only marking a key sets a mark.
-/

namespace RecurseX

open Library

variable {Score Stability Inputs : Type}

namespace SemanticCache

/-- The entry under the key carries a mark. -/
def Marked (cache : SemanticCache Score Stability) (key : CacheKey) : Prop :=
  ∃ entry, cache.Stores key entry ∧ entry.refreshing = true

/-- Everything held after was held before with the same data, or was filed under
one of the keys without a mark. -/
def Refiles (Filed : CacheKey → Prop) (cache after : SemanticCache Score Stability) : Prop :=
  ∀ key entry, after.Stores key entry →
    (∃ old, cache.Stores key old ∧ old.SameData entry) ∨ Filed key ∧ entry.refreshing = false

namespace Refiles

variable {Filed Wider : CacheKey → Prop} {cache middle after : SemanticCache Score Stability}
  {key : CacheKey}

theorem of_descends (descends : Descends after cache) : Refiles Filed cache after := by
  rintro key entry ⟨tier, stored⟩
  obtain ⟨origin, old, before, same⟩ := descends tier key entry stored
  exact .inl ⟨old, ⟨origin, before⟩, same⟩

theorem refl (cache : SemanticCache Score Stability) : Refiles Filed cache cache :=
  of_descends (.refl cache)

theorem trans (first : Refiles Filed cache middle) (second : Refiles Filed middle after) :
    Refiles Filed cache after := by
  intro key entry stored
  rcases second key entry stored with ⟨old, held, same⟩ | filed
  · rcases first key old held with ⟨oldest, before, older⟩ | ⟨filed, unmarked⟩
    · exact .inl ⟨oldest, before, older.trans same⟩
    · exact .inr ⟨filed, same.refreshing ▸ unmarked⟩
  · exact .inr filed

theorem mono (refiles : Refiles Filed cache after) (wider : ∀ key, Filed key → Wider key) :
    Refiles Wider cache after := by
  intro key entry stored
  rcases refiles key entry stored with old | ⟨filed, unmarked⟩
  · exact .inl old
  · exact .inr ⟨wider key filed, unmarked⟩

/-- No mark is set. -/
theorem marked (refiles : Refiles Filed cache after) (marked : after.Marked key) :
    cache.Marked key := by
  obtain ⟨entry, stored, mark⟩ := marked
  rcases refiles key entry stored with ⟨old, held, same⟩ | ⟨_, unmarked⟩
  · exact ⟨old, held, same.refreshing.trans mark⟩
  · rw [unmarked] at mark
    cases mark

/-- A mark under a key that nothing is filed under stays as long as the key is
held. -/
theorem keeps_mark {scoring : Scoring Score Stability Inputs} {entry : CacheEntry Score Stability}
    (refiles : Refiles Filed cache after) (consistent : cache.Consistent scoring)
    (marked : cache.Marked key) (unfiled : ¬ Filed key) (stored : after.Stores key entry) :
    entry.refreshing = true := by
  obtain ⟨held, before, mark⟩ := marked
  rcases refiles key entry stored with ⟨old, found, same⟩ | ⟨filed, _⟩
  · obtain rfl := consistent.unique before found
    exact same.refreshing ▸ mark
  · exact absurd filed unfiled

end Refiles

variable {scoring : Scoring Score Stability Inputs} {cache : SemanticCache Score Stability}
  {Filed : CacheKey → Prop}

theorem sweep_refiles (consistent : cache.Consistent scoring) (now : Ts) :
    Refiles Filed cache (cache.sweep scoring now) := by
  rintro key entry ⟨tier, stored⟩
  exact .inl ⟨entry, ⟨tier, sweep_kept consistent.indexed stored⟩, .refl entry⟩

theorem insertNxdomain_refiles (cache : SemanticCache Score Stability) (name : Name)
    (rcode : Rcode) (soa : Option Record) (authoritativeTtl : UInt32) (now : Ts) :
    Refiles Filed cache (cache.insertNxdomain name rcode soa authoritativeTtl now) := by
  rintro key entry ⟨tier, stored⟩
  rw [insertNxdomain_tierMap] at stored
  exact .inl ⟨entry, ⟨tier, stored⟩, .refl entry⟩

/-- A change to the entry of one key. -/
theorem Consistent.modifyEntry_stores (consistent : cache.Consistent scoring) {key other : CacheKey}
    {change : CacheEntry Score Stability → CacheEntry Score Stability}
    {entry : CacheEntry Score Stability} (stored : (cache.modifyEntry key change).Stores other entry) :
    (other ≠ key ∧ cache.Stores other entry) ∨
      (other = key ∧ ∃ old, cache.Stores key old ∧ entry = change old) := by
  obtain ⟨source, stored⟩ := stored
  unfold modifyEntry at stored
  rcases cache.findTier_cases key with ⟨tier, old, held, found⟩ | ⟨absent, found⟩
  · rw [found] at stored
    dsimp only at stored
    by_cases own : other = key
    · subst own
      by_cases here : source = tier
      · subst here
        rw [tierMap_setTier_self, RankedMap.get?_modify_self held] at stored
        exact .inr ⟨rfl, old, ⟨source, held⟩, (Option.some.inj stored).symm⟩
      · rw [tierMap_setTier_of_ne here, consistent.elsewhere held here] at stored
        cases stored
    · refine .inl ⟨own, source, ?_⟩
      by_cases here : source = tier
      · subst here
        rwa [tierMap_setTier_self, RankedMap.get?_modify_of_ne own] at stored
      · rwa [tierMap_setTier_of_ne here] at stored
  · rw [found] at stored
    refine .inl ⟨?_, source, stored⟩
    rintro rfl
    rw [absent source] at stored
    cases stored

/-- A change that takes the mark off an entry takes it off its key. -/
theorem Consistent.modifyEntry_unmarks (consistent : cache.Consistent scoring) {key : CacheKey}
    {change : CacheEntry Score Stability → CacheEntry Score Stability}
    (unmarks : ∀ entry, (change entry).refreshing = false) :
    ¬ (cache.modifyEntry key change).Marked key ∧
      ∀ other, (cache.modifyEntry key change).Marked other → cache.Marked other := by
  refine ⟨?_, ?_⟩
  · rintro ⟨entry, stored, mark⟩
    rcases consistent.modifyEntry_stores stored with ⟨different, _⟩ | ⟨_, old, _, rfl⟩
    · exact different rfl
    · rw [unmarks old] at mark
      cases mark
  · rintro other ⟨entry, stored, mark⟩
    rcases consistent.modifyEntry_stores stored with ⟨_, before⟩ | ⟨_, old, _, rfl⟩
    · exact ⟨entry, before, mark⟩
    · rw [unmarks old] at mark
      cases mark

/-- Marking a key marks no other. -/
theorem Consistent.markRefreshing_marked (consistent : cache.Consistent scoring)
    {key other : CacheKey} (marked : (cache.markRefreshing key).2.Marked other) :
    other = key ∨ cache.Marked other := by
  unfold markRefreshing at marked
  rcases cache.findTier_cases key with ⟨tier, old, held, found⟩ | ⟨absent, found⟩
  · rw [found] at marked
    dsimp only at marked
    split_ifs at marked
    · exact .inr marked
    · obtain ⟨entry, stored, mark⟩ := marked
      rcases consistent.modifyEntry_stores stored with ⟨_, before⟩ | ⟨own, _⟩
      · exact .inr ⟨entry, before, mark⟩
      · exact .inl own
  · rw [found] at marked
    exact .inr marked

/-- A refused mark changes nothing, and a granted one is there. -/
theorem markRefreshing_marks {key : CacheKey} :
    ((cache.markRefreshing key).1 = false → (cache.markRefreshing key).2 = cache) ∧
      ((cache.markRefreshing key).1 = true → (cache.markRefreshing key).2.Marked key) := by
  unfold markRefreshing
  rcases cache.findTier_cases key with ⟨tier, old, held, found⟩ | ⟨absent, found⟩
  · rw [found]
    dsimp only
    split_ifs
    · simp
    · refine ⟨by simp, fun _ => ?_⟩
      refine ⟨{ old with refreshing := true }, ⟨tier, ?_⟩, rfl⟩
      rw [modifyEntry, found]
      exact (congrArg (RankedMap.get? · key) tierMap_setTier_self).trans
        (RankedMap.get?_modify_self held)
  · rw [found]
    simp

/-- A key that could not be marked is not cached, or is marked already. -/
theorem markRefreshing_eq_true_iff (consistent : cache.Consistent scoring) {key : CacheKey} :
    (cache.markRefreshing key).1 = true ↔
      (∃ entry, cache.Stores key entry) ∧ ¬ cache.Marked key := by
  unfold markRefreshing
  rcases cache.findTier_cases key with ⟨tier, old, held, found⟩ | ⟨absent, found⟩
  · rw [found]
    have only {entry : CacheEntry Score Stability} (stored : cache.Stores key entry) :
        entry = old := consistent.unique stored ⟨tier, held⟩
    cases mark : old.refreshing with
    | true =>
        simp only [mark, if_true, Bool.false_eq_true, false_iff, not_and, not_not]
        exact fun _ => ⟨old, ⟨tier, held⟩, mark⟩
    | false =>
        simp only [mark, Bool.false_eq_true, if_false, true_iff]
        refine ⟨⟨old, tier, held⟩, ?_⟩
        rintro ⟨entry, stored, marked⟩
        rw [only stored, mark] at marked
        cases marked
  · rw [found]
    simp only [Bool.false_eq_true, false_iff, not_and]
    rintro ⟨entry, tier, stored⟩
    rw [absent tier] at stored
    cases stored

section Storing

variable [LinearOrder Score]

theorem lookup_refiles (consistent : cache.Consistent scoring) (key : CacheKey) (now : Ts) :
    Refiles Filed cache (cache.lookup scoring key now).2 :=
  .of_descends (lookup_descends consistent.indexed key now)

theorem rescore_refiles (consistent : cache.Consistent scoring) (key : CacheKey) (inputs : Inputs)
    (now : Ts) : Refiles Filed cache (cache.rescore scoring key inputs now) :=
  .of_descends (AllIndexed.rescore_descends consistent.indexed key inputs now)

/-- An entry without a mark is placed under a key that is free. -/
theorem place_refiles {entry : CacheEntry Score Stability} (consistent : cache.Consistent scoring)
    (absent : cache.Absent entry.key) (unmarked : entry.refreshing = false) :
    Refiles (fun key => key = entry.key) cache (cache.place scoring entry) ∧
      ¬ (cache.place scoring entry).Marked entry.key := by
  refine ⟨?_, ?_⟩
  · rintro key held ⟨tier, stored⟩
    rcases place_stored consistent.indexed stored with ⟨same, moved⟩ | ⟨origin, old, before, same⟩
    · exact .inr ⟨same, moved.refreshing ▸ unmarked⟩
    · exact .inl ⟨old, ⟨origin, before⟩, same⟩
  · rintro ⟨held, ⟨tier, stored⟩, mark⟩
    rcases place_stored consistent.indexed stored with ⟨_, moved⟩ | ⟨origin, old, before, _⟩
    · rw [← moved.refreshing, unmarked] at mark
      cases mark
    · rw [absent origin] at before
      cases before

/-- The entry of a key is taken out and one without a mark is placed. -/
theorem replace_refiles (consistent : cache.Consistent scoring) {key : CacheKey}
    {placed : CacheEntry Score Stability} (keyed : placed.key = key)
    (unmarked : placed.refreshing = false) (event : CacheStats → CacheStats) :
    Refiles (fun other => other = key) cache
        (((cache.takeEntryAny scoring key).2.count event).place scoring placed) ∧
      ¬ (((cache.takeEntryAny scoring key).2.count event).place scoring placed).Marked key := by
  subst keyed
  obtain ⟨_, outside⟩ := (consistent_kept scoring).takeEntryAny placed.key consistent
  obtain ⟨taken, absent⟩ := (consistent_kept scoring).outCounted event outside
  obtain ⟨refiles, free⟩ := place_refiles taken absent unmarked
  refine ⟨Refiles.trans ?_ refiles, free⟩
  exact .of_descends ((count_descends _ event).trans (takeEntryAny_descends scoring cache _))

/-- Inserting data takes the mark off the key. -/
theorem insertPositive_refiles (consistent : cache.Consistent scoring) (key : CacheKey)
    (rrset : RrSet) (now : Ts) (inputs : Inputs) (validated : Bool) :
    Refiles (fun other => other = key) cache
        (cache.insertPositive scoring key rrset now inputs validated) ∧
      ¬ (cache.insertPositive scoring key rrset now inputs validated).Marked key := by
  obtain ⟨event, placed, inserted, keyed, unmarked, -⟩ :=
    AllIndexed.insertPositive_cases consistent.indexed key rrset now inputs validated
  rw [inserted]
  exact replace_refiles consistent keyed unmarked event

theorem insertNegative_refiles (consistent : cache.Consistent scoring) (key : CacheKey)
    (rcode : Rcode) (soa : Option Record) (authoritativeTtl : UInt32) (now : Ts) (inputs : Inputs) :
    Refiles (fun other => other = key) cache
        (cache.insertNegative scoring key rcode soa authoritativeTtl now inputs) ∧
      ¬ (cache.insertNegative scoring key rcode soa authoritativeTtl now inputs).Marked key := by
  obtain ⟨event, placed, inserted, keyed, unmarked, -⟩ :=
    AllIndexed.insertNegative_cases consistent.indexed key rcode soa authoritativeTtl now inputs
  rw [inserted]
  exact replace_refiles consistent keyed unmarked event

theorem restoreEntry_refiles {entry : CacheEntry Score Stability}
    (consistent : cache.Consistent scoring) (absent : cache.Absent entry.key)
    (unmarked : entry.refreshing = false) (now : Ts) :
    Refiles (fun key => key = entry.key) cache (cache.restoreEntry scoring entry now) := by
  unfold restoreEntry
  split_ifs
  · rintro key held ⟨tier, stored⟩
    rcases park_stored consistent.indexed stored with ⟨same, moved⟩ | ⟨origin, old, before, same⟩
    · exact .inr ⟨same, moved.refreshing ▸ unmarked⟩
    · exact .inl ⟨old, ⟨origin, before⟩, same⟩
  · exact (place_refiles consistent absent unmarked).1

end Storing

end SemanticCache

end RecurseX
