import RecurseX.Cache.Existence
import RecurseX.Cache.Expiry

/-!
# What a validated entry is about

An entry that is overwritten keeps its place, and with it its validation flag, when the
change detector takes the new data for the old; the detector compares fingerprints, and
a negative answer does not consult it at all. `validation_backed` says what the steps
of a run must meet for every validated entry to hold data that was inserted as
validated under its key.
-/

namespace RecurseX

open Library

variable {Score Stability Inputs : Type}

/-- The sets hold the same payloads. -/
def RrSet.SameRdata (left right : RrSet) : Prop :=
  ∀ rdata, rdata ∈ left.records.map Record.rdata ↔ rdata ∈ right.records.map Record.rdata

/-- The entries hold the same content with the same flag, from the same instant until the same
instant. -/
structure CacheEntry.SameSpan (left right : CacheEntry Score Stability) : Prop where
  kind : left.kind = right.kind
  validated : left.validated = right.validated
  inserted : left.inserted = right.inserted
  expires : left.expires = right.expires

theorem CacheEntry.SameData.sameSpan {left right : CacheEntry Score Stability}
    (same : left.SameData right) : left.SameSpan right :=
  ⟨same.kind, same.validated, same.inserted, same.expires⟩

theorem CacheEntry.SameSpan.trans {first second third : CacheEntry Score Stability}
    (left : first.SameSpan second) (right : second.SameSpan third) : first.SameSpan third :=
  ⟨left.kind.trans right.kind, left.validated.trans right.validated,
    left.inserted.trans right.inserted, left.expires.trans right.expires⟩

theorem RrSet.SameRdata.trans {first second third : RrSet} (left : first.SameRdata second)
    (right : second.SameRdata third) : first.SameRdata third :=
  fun rdata => (left rdata).trans (right rdata)

namespace CacheOp

/-- The operation inserts the set under the key, marked as validated. -/
def InsertsValidated (key : CacheKey) (rrset : RrSet) : CacheOp Score Stability Inputs → Prop
  | .insertPositive other inserted _ _ validated =>
      other = key ∧ validated = true ∧ inserted.SameRdata rrset
  | .restoreEntry entry _ => entry.key = key ∧ entry.validated = true ∧
      ∃ restored, entry.kind = .positive restored ∧ restored.SameRdata rrset
  | _ => False

theorem InsertsValidated.of_sameRdata {key : CacheKey} {rrset other : RrSet}
    {op : CacheOp Score Stability Inputs} (inserts : op.InsertsValidated key rrset)
    (same : rrset.SameRdata other) : op.InsertsValidated key other := by
  cases op with
  | insertPositive => exact ⟨inserts.1, inserts.2.1, inserts.2.2.trans same⟩
  | restoreEntry =>
      obtain ⟨keyed, validated, restored, content, first⟩ := inserts
      exact ⟨keyed, validated, restored, content, first.trans same⟩
  | _ => exact inserts

/-- What a step must meet for validation to stay with its data: a negative answer does not
overwrite a validated entry, unvalidated data whose fingerprint is that of a validated set
is the same data, and a restored entry that is marked as validated holds a set. -/
def KeepsValidation (scoring : Scoring Score Stability Inputs)
    (cache : SemanticCache Score Stability) : CacheOp Score Stability Inputs → Prop
  | .insertPositive key rrset _ _ validated => validated = false → ∀ old set,
      (cache.takeEntryAny scoring key).1 = some old → old.validated = true →
        old.kind = .positive set → set.sameData rrset = true → set.SameRdata rrset
  | .insertNegative key _ _ _ _ _ => ∀ old,
      (cache.takeEntryAny scoring key).1 = some old → old.validated = false
  | .restoreEntry entry _ => entry.validated = true → ∃ set, entry.kind = .positive set
  | _ => True

/-- The operation puts other data under the key without validation, or a negative answer. -/
def Overwrites (scoring : Scoring Score Stability Inputs) (cache : SemanticCache Score Stability)
    (key : CacheKey) : CacheOp Score Stability Inputs → Prop
  | .insertPositive other rrset _ _ validated => other = key ∧ validated = false ∧ ∀ old set,
      (cache.takeEntryAny scoring key).1 = some old → old.kind = .positive set →
        ¬ set.SameRdata rrset
  | .insertNegative other _ _ _ _ _ => other = key
  | _ => False

/-- The content and the flag that an operation puts under a key. -/
def Puts (scoring : Scoring Score Stability Inputs) (cache : SemanticCache Score Stability)
    (key : CacheKey) (kind : EntryKind) (flag : Bool) : CacheOp Score Stability Inputs → Prop
  | .insertPositive other rrset _ _ validated => key = other ∧
      (∃ ttl, kind = .positive { rrset with ttl := ttl }) ∧
      flag = (validated || (cache.takeEntryAny scoring other).1.any fun old =>
        SemanticCache.hasData old rrset && old.validated)
  | .insertNegative other rcode soa _ _ _ => key = other ∧
      (∃ ttl, kind = .negative rcode soa ttl) ∧
      flag = (cache.takeEntryAny scoring other).1.any fun old => old.validated
  | .restoreEntry entry _ => key = entry.key ∧ kind = entry.kind ∧ flag = entry.validated
  | _ => False

/-- The span that an operation gives to the entry it puts into the cache. -/
def Dates (config : CacheConfig Score) (entry : CacheEntry Score Stability) :
    CacheOp Score Stability Inputs → Prop
  | .insertPositive _ rrset now _ _ => entry.inserted = now ∧
      entry.expires = saturatingAdd now (secondsToTs (min rrset.ttl config.maxTtlCap))
  | .insertNegative _ _ _ authoritativeTtl now _ => entry.inserted = now ∧
      entry.expires = saturatingAdd now (secondsToTs (min authoritativeTtl config.negativeTtlCap))
  | .restoreEntry restored _ =>
      entry.inserted = restored.inserted ∧ entry.expires = restored.expires
  | _ => False

/-- The cache without the entry that the operation replaces. -/
def cleared (scoring : Scoring Score Stability Inputs) (cache : SemanticCache Score Stability) :
    CacheOp Score Stability Inputs → SemanticCache Score Stability
  | .insertPositive key _ _ _ _ => (cache.takeEntryAny scoring key).2
  | .insertNegative key _ _ _ _ _ => (cache.takeEntryAny scoring key).2
  | _ => cache

end CacheOp

namespace SemanticCache

variable {scoring : Scoring Score Stability Inputs} {cache after : SemanticCache Score Stability}
  {tier : Tier} {key other : CacheKey} {entry held : CacheEntry Score Stability}
  {history : List (CacheOp Score Stability Inputs)}

/-- Every validated entry holds a set that was inserted as validated under its key. -/
def ValidationBacked (history : List (CacheOp Score Stability Inputs))
    (cache : SemanticCache Score Stability) : Prop :=
  ∀ tier key entry, (cache.tierMap tier).get? key = some entry → entry.validated = true →
    ∃ rrset, entry.kind = .positive rrset ∧ ∃ op ∈ history, op.InsertsValidated key rrset

/-- The cache holds an entry of the key with this content and flag. -/
def HasFlagged (cache : SemanticCache Score Stability) (key : CacheKey) (kind : EntryKind)
    (flag : Bool) : Prop :=
  ∃ tier entry, (cache.tierMap tier).get? key = some entry ∧ entry.kind = kind ∧
    entry.validated = flag

/-- The cache holds an entry of the key with the span of this one. -/
def HoldsSpan (cache : SemanticCache Score Stability) (key : CacheKey)
    (entry : CacheEntry Score Stability) : Prop :=
  ∃ tier old, (cache.tierMap tier).get? key = some old ∧ old.SameSpan entry

theorem Holds.holdsSpan (holds : cache.Holds key held) : cache.HoldsSpan key held := by
  obtain ⟨source, old, before, same⟩ := holds
  exact ⟨source, old, before, same.sameSpan⟩

theorem HoldsSpan.hasFlagged (holds : cache.HoldsSpan key held) :
    cache.HasFlagged key held.kind held.validated := by
  obtain ⟨source, old, before, same⟩ := holds
  exact ⟨source, old, before, same.kind, same.validated⟩

theorem HoldsSpan.descends (holds : after.HoldsSpan key held) (descends : Descends after cache) :
    cache.HoldsSpan key held := by
  obtain ⟨tier, old, stored, same⟩ := holds
  obtain ⟨source, oldest, before, older⟩ := descends tier key old stored
  exact ⟨source, oldest, before, older.sameSpan.trans same⟩

theorem HasFlagged.descends {kind : EntryKind} {flag : Bool} (flagged : after.HasFlagged key kind flag)
    (descends : Descends after cache) : cache.HasFlagged key kind flag := by
  obtain ⟨tier, entry, stored, rfl, rfl⟩ := flagged
  exact (descends tier key entry stored).holdsSpan.hasFlagged

theorem cleared_descends (scoring : Scoring Score Stability Inputs)
    (cache : SemanticCache Score Stability) (op : CacheOp Score Stability Inputs) :
    Descends (op.cleared scoring cache) cache := by
  cases op with
  | insertPositive | insertNegative => exact takeEntryAny_descends scoring cache _
  | _ => exact .refl cache

/-- A change in place that leaves the span alone. -/
theorem modifyEntry_holdsSpan {change : CacheEntry Score Stability → CacheEntry Score Stability}
    (stored : ((cache.modifyEntry key change).tierMap tier).get? other = some held)
    (same : ∀ entry : CacheEntry Score Stability, entry.SameSpan (change entry)) :
    cache.HoldsSpan other held := by
  rcases stored_of_modifyEntry stored with ⟨old, before, rfl⟩ | before
  · exact ⟨tier, old, before, same old⟩
  · exact ⟨tier, held, before, rfl, rfl, rfl, rfl⟩

theorem markRefreshing_holdsSpan
    (stored : ((cache.markRefreshing key).2.tierMap tier).get? other = some held) :
    cache.HoldsSpan other held := by
  unfold markRefreshing at stored
  split at stored
  · split_ifs at stored
    · exact ⟨tier, held, stored, rfl, rfl, rfl, rfl⟩
    · exact modifyEntry_holdsSpan stored fun _ => ⟨rfl, rfl, rfl, rfl⟩
  · exact ⟨tier, held, stored, rfl, rfl, rfl, rfl⟩

theorem stores_of_takeEntryAny (taken : (cache.takeEntryAny scoring key).1 = some entry) :
    ∃ tier, (cache.tierMap tier).get? key = some entry := by
  rcases cache.takeEntryAny_cases scoring key with ⟨tier, found, stored, result⟩ | ⟨-, result⟩
  · rw [result] at taken
    obtain rfl := Option.some.inj taken
    exact ⟨tier, stored⟩
  · rw [result] at taken
    cases taken

theorem hasData_iff {rrset : RrSet} :
    hasData entry rrset = true ↔ ∃ set, entry.kind = .positive set ∧ set.sameData rrset = true := by
  unfold hasData
  cases entry.kind with
  | positive set => simp
  | negative => simp

/-- What an insertion of data passes on to its entry. -/
theorem carried_sameRdata {rrset : RrSet} {now : Ts} {inputs : Inputs}
    (keeps : CacheOp.KeepsValidation scoring cache (.insertPositive key rrset now inputs false))
    (carried : ((cache.takeEntryAny scoring key).1.any fun old =>
      hasData old rrset && old.validated) = true) :
    ∃ old set, (cache.takeEntryAny scoring key).1 = some old ∧ old.validated = true ∧
      old.kind = .positive set ∧ set.SameRdata rrset := by
  cases taken : (cache.takeEntryAny scoring key).1 with
  | none =>
      rw [taken] at carried
      cases carried
  | some old =>
      rw [taken] at carried
      obtain ⟨same, validated⟩ := Bool.and_eq_true_iff.mp carried
      obtain ⟨set, content, equal⟩ := hasData_iff.mp same
      exact ⟨old, set, rfl, validated, content, keeps rfl old set taken validated content equal⟩

/-- What a step that meets its condition puts into the cache as validated was inserted as
validated. -/
theorem puts_backed (backed : cache.ValidationBacked history)
    {op : CacheOp Score Stability Inputs} (keeps : op.KeepsValidation scoring cache)
    {kind : EntryKind} (puts : op.Puts scoring cache key kind true) :
    ∃ rrset, kind = .positive rrset ∧
      ∃ source ∈ history ++ [op], source.InsertsValidated key rrset := by
  have last : op ∈ history ++ [op] := List.mem_append_right _ List.mem_cons_self
  cases op with
  | insertPositive other rrset now inputs validated =>
      obtain ⟨rfl, ⟨ttl, rfl⟩, flag⟩ := puts
      refine ⟨_, rfl, ?_⟩
      cases validated with
      | true => exact ⟨_, last, rfl, rfl, fun _ => Iff.rfl⟩
      | false =>
          obtain ⟨old, set, taken, validated, content, equal⟩ := carried_sameRdata keeps flag.symm
          obtain ⟨source, there⟩ := stores_of_takeEntryAny taken
          obtain ⟨_, held, inserter, member, inserts⟩ := backed source key old there validated
          cases content.symm.trans held
          exact ⟨inserter, List.mem_append_left _ member, inserts.of_sameRdata equal⟩
  | insertNegative other rcode soa authoritativeTtl now inputs =>
      obtain ⟨rfl, -, flag⟩ := puts
      cases taken : (cache.takeEntryAny scoring key).1 with
      | none =>
          rw [taken] at flag
          cases flag
      | some old =>
          rw [taken] at flag
          cases flag.trans (keeps old taken)
  | restoreEntry entry now =>
      obtain ⟨rfl, rfl, flag⟩ := puts
      obtain ⟨set, content⟩ := keeps flag.symm
      exact ⟨set, content, _, last, rfl, flag.symm, set, content, fun _ => Iff.rfl⟩
  | _ => exact absurd puts id

section Steps

variable [LinearOrder Score]

/-- An insertion leaves the entry it places, and the entries it does not replace. -/
theorem AllIndexed.stored_of_replace {placed : CacheEntry Score Stability}
    (indexed : cache.AllIndexed scoring) (event : CacheStats → CacheStats)
    (stored : ((((cache.takeEntryAny scoring key).2.count event).place scoring placed).tierMap
      tier).get? other = some held) :
    (other = placed.key ∧ placed.SameData held) ∨
      (cache.takeEntryAny scoring key).2.HoldsSpan other held := by
  rcases place_stored ((indexed.takeEntryAny key).count event) stored with
    own | ⟨source, old, before, same⟩
  · exact .inl own
  · rw [tierMap_count] at before
    exact .inr ⟨source, old, before, same.sameSpan⟩

/-- What an operation leaves: what it puts there, and what it does not replace. -/
theorem AllIndexed.apply_leaves (indexed : cache.AllIndexed scoring)
    (op : CacheOp Score Stability Inputs)
    (stored : ((op.apply scoring cache).tierMap tier).get? key = some held) :
    (op.Puts scoring cache key held.kind held.validated ∧ op.Dates cache.config held) ∨
      (op.cleared scoring cache).HoldsSpan key held := by
  cases op with
  | insertPositive other rrset now inputs validated =>
      obtain ⟨event, placed, result, keyed, -, ⟨ttl, content⟩, flag, inserted, expires⟩ :=
        indexed.insertPositive_cases other rrset now inputs validated
      rw [CacheOp.apply, result] at stored
      refine (indexed.stored_of_replace event stored).imp_left fun own => ?_
      exact ⟨⟨own.1.trans keyed, ⟨ttl, own.2.kind.symm.trans content⟩,
        own.2.validated.symm.trans flag⟩, own.2.inserted.symm.trans inserted,
        own.2.expires.symm.trans expires⟩
  | insertNegative other rcode soa authoritativeTtl now inputs =>
      obtain ⟨event, placed, result, keyed, -, ⟨ttl, content⟩, flag, inserted, expires⟩ :=
        indexed.insertNegative_cases other rcode soa authoritativeTtl now inputs
      rw [CacheOp.apply, result] at stored
      refine (indexed.stored_of_replace event stored).imp_left fun own => ?_
      exact ⟨⟨own.1.trans keyed, ⟨ttl, own.2.kind.symm.trans content⟩,
        own.2.validated.symm.trans flag⟩, own.2.inserted.symm.trans inserted,
        own.2.expires.symm.trans expires⟩
  | insertNxdomain name rcode soa authoritativeTtl now =>
      rw [CacheOp.apply, insertNxdomain_tierMap] at stored
      exact .inr ⟨tier, held, stored, rfl, rfl, rfl, rfl⟩
  | lookup other now => exact .inr (lookup_descends indexed other now tier key held stored).holdsSpan
  | rescore other inputs now =>
      exact .inr (indexed.rescore_descends other inputs now tier key held stored).holdsSpan
  | sweep now => exact .inr ⟨tier, held, sweep_kept indexed stored, rfl, rfl, rfl, rfl⟩
  | markRefreshing other => exact .inr (markRefreshing_holdsSpan stored)
  | clearRefreshing other =>
      rw [CacheOp.apply, SemanticCache.clearRefreshing] at stored
      refine .inr ?_
      exact modifyEntry_holdsSpan stored fun _ => ⟨rfl, rfl, rfl, rfl⟩
  | recordRefreshFailure other now =>
      rw [CacheOp.apply, SemanticCache.recordRefreshFailure] at stored
      refine .inr ?_
      exact modifyEntry_holdsSpan stored fun _ => ⟨rfl, rfl, rfl, rfl⟩
  | restoreEntry entry now =>
      have restored : (key = entry.key ∧ entry.SameData held) ∨ cache.Holds key held := by
        rw [CacheOp.apply, SemanticCache.restoreEntry] at stored
        split_ifs at stored
        · exact park_stored indexed stored
        · exact place_stored indexed stored
      refine restored.imp (fun own => ?_) Holds.holdsSpan
      exact ⟨⟨own.1, own.2.kind.symm, own.2.validated.symm⟩, own.2.inserted.symm,
        own.2.expires.symm⟩

/-- The content and the flag of what an operation leaves. -/
theorem AllIndexed.apply_stored (indexed : cache.AllIndexed scoring)
    (op : CacheOp Score Stability Inputs)
    (stored : ((op.apply scoring cache).tierMap tier).get? key = some held) :
    op.Puts scoring cache key held.kind held.validated ∨
      (op.cleared scoring cache).HasFlagged key held.kind held.validated :=
  (indexed.apply_leaves op stored).imp And.left HoldsSpan.hasFlagged

/-- Every step that meets its condition keeps the validated entries backed. -/
theorem AllIndexed.apply_backed (indexed : cache.AllIndexed scoring)
    (backed : cache.ValidationBacked history) (op : CacheOp Score Stability Inputs)
    (keeps : op.KeepsValidation scoring cache) :
    (op.apply scoring cache).ValidationBacked (history ++ [op]) := by
  intro tier key held stored validated
  have left := indexed.apply_stored op stored
  rw [validated] at left
  rcases left with puts | flagged
  · exact puts_backed backed keeps puts
  · obtain ⟨source, old, before, kind, flag⟩ := flagged.descends (cleared_descends scoring cache op)
    obtain ⟨rrset, content, inserter, member, inserts⟩ := backed source key old before flag
    exact ⟨rrset, kind.symm.trans content, inserter, List.mem_append_left _ member, inserts⟩

/-- What an insertion that must not be validated leaves under its key. -/
theorem AllIndexed.overwrites_unvalidated (indexed : cache.AllIndexed scoring)
    {op : CacheOp Score Stability Inputs} (keeps : op.KeepsValidation scoring cache)
    (overwrites : op.Overwrites scoring cache key)
    (stored : ((op.apply scoring cache).tierMap tier).get? key = some held) :
    held.validated = false ∨
      (cache.takeEntryAny scoring key).2.HasFlagged key held.kind held.validated := by
  have left := indexed.apply_stored op stored
  cases op with
  | insertPositive other rrset now inputs validated =>
      obtain ⟨rfl, rfl, differs⟩ := overwrites
      refine left.imp_left fun puts => ?_
      rw [puts.2.2, Bool.false_or, ← Bool.not_eq_true]
      intro carried
      obtain ⟨old, set, taken, -, content, equal⟩ := carried_sameRdata keeps carried
      exact differs old set taken content equal
  | insertNegative other rcode soa authoritativeTtl now inputs =>
      obtain rfl := overwrites
      refine left.imp_left fun puts => ?_
      rw [puts.2.2]
      cases taken : (cache.takeEntryAny scoring other).1 with
      | none => rfl
      | some old => exact keeps old taken
  | _ => exact absurd overwrites id

end Steps

end SemanticCache

variable [LinearOrder Score]

theorem CacheOp.run_concat (scoring : Scoring Score Stability Inputs) (config : CacheConfig Score)
    (ops : List (CacheOp Score Stability Inputs)) (op : CacheOp Score Stability Inputs) :
    CacheOp.run scoring config (ops ++ [op]) = op.apply scoring (CacheOp.run scoring config ops) :=
  List.foldl_concat ..

/-- In every run whose steps meet their condition, every validated entry of every state holds
a set that was inserted as validated under its key; and what overwrites an entry with other
data that is not validated, or with a negative answer, is not validated. -/
theorem validation_backed (scoring : Scoring Score Stability Inputs) (config : CacheConfig Score)
    (ops : List (CacheOp Score Stability Inputs))
    (kept : ∀ before op, before ++ [op] <+: ops →
      op.KeepsValidation scoring (CacheOp.run scoring config before)) :
    (∀ before, before <+: ops → (CacheOp.run scoring config before).ValidationBacked before) ∧
    ∀ before op key, before ++ [op] <+: ops →
      op.Overwrites scoring (CacheOp.run scoring config before) key → ∀ tier held,
        ((CacheOp.run scoring config (before ++ [op])).tierMap tier).get? key = some held →
          held.validated = false ∨ ((CacheOp.run scoring config before).takeEntryAny scoring
            key).2.HasFlagged key held.kind held.validated := by
  constructor
  · intro before
    induction before using List.reverseRecOn with
    | nil =>
        intro _ tier key entry stored
        cases tier <;> simp [CacheOp.run, SemanticCache.new, SemanticCache.tierMap] at stored
    | append_singleton before op inductionHypothesis =>
        intro reached
        rw [CacheOp.run_concat]
        exact (SemanticCache.run_allIndexed scoring config before).apply_backed
          (inductionHypothesis ((List.prefix_append before [op]).trans reached)) op
          (kept before op reached)
  · intro before op key reached overwrites tier held stored
    rw [CacheOp.run_concat] at stored
    exact (SemanticCache.run_allIndexed scoring config before).overwrites_unvalidated
      (kept before op reached) overwrites stored

/-- The address of `a.`, with or without validation. -/
def insertAddressSet (now : Ts) (validated : Bool) : CacheOp Nat Unit Unit :=
  .insertPositive (.plain oneLabel .A .IN) addressSet now () validated

/-- The address is inserted again without validation, and stays validated. -/
theorem validation_backed_refresh :
    (((CacheOp.run ttlScoring (smallConfig 1)
      [insertAddressSet 0 true, insertAddressSet 1 false]).tierMap .hot).get?
        (.plain oneLabel .A .IN)).map CacheEntry.validated = some true ∧
    (CacheOp.run ttlScoring (smallConfig 1)
      [insertAddressSet 0 true, insertAddressSet 1 false]).ValidationBacked
        [insertAddressSet 0 true, insertAddressSet 1 false] := by
  refine ⟨by decide +kernel, (validation_backed ttlScoring (smallConfig 1)
    [insertAddressSet 0 true, insertAddressSet 1 false] ?_).1 _ (List.prefix_refl _)⟩
  intro before op reached
  rcases before with _ | ⟨first, _ | ⟨second, rest⟩⟩
  · obtain ⟨_, same⟩ := reached
    cases same
    intro impossible
    cases impossible
  · obtain ⟨_, same⟩ := reached
    cases same
    intro _ old set taken _ content _
    have held : ((CacheOp.run ttlScoring (smallConfig 1) [insertAddressSet 0 true]).takeEntryAny
        ttlScoring (.plain oneLabel .A .IN)).1.map CacheEntry.kind =
        some (.positive addressSet) := by
      decide
    rw [taken, Option.map_some, content] at held
    cases held
    exact fun _ => Iff.rfl
  · have length := reached.length_le
    simp at length

/-- An IPv6 address of `a.`. -/
def addressSet6 (ip : Octets 16) : RrSet :=
  (RrSet.new oneLabel .AAAA .IN 300).addRecord ⟨oneLabel, .AAAA, .IN, 300, .aaaa ip⟩

/-- Two addresses of `2001:db8::/32` whose records have the same fingerprint. -/
def collidingAddress (second : Bool) : Octets 16 :=
  if second then
    ⟨[0x20, 0x01, 0x0d, 0xb8, 163, 98, 70, 93, 26, 117, 205, 96, 192, 134, 5, 91], rfl⟩
  else ⟨[0x20, 0x01, 0x0d, 0xb8, 160, 87, 108, 83, 4, 89, 206, 120, 77, 246, 28, 92], rfl⟩

/-- A validated address, and then its absence. -/
def absenceOps : List (CacheOp Nat Unit Unit) :=
  [insertAddressSet 0 true,
    .insertNegative (.plain oneLabel .A .IN) .NOERROR none 300 1 ()]

/-- A validated address, and then another one without validation. -/
def collidingOps : List (CacheOp Nat Unit Unit) :=
  [.insertPositive (.plain oneLabel .AAAA .IN) (addressSet6 (collidingAddress false)) 0 () true,
    .insertPositive (.plain oneLabel .AAAA .IN) (addressSet6 (collidingAddress true)) 1 () false]

/-- Validation outlives its data: the absence is cached as validated, and so is the other
address, which was never inserted as validated. -/
theorem validation_outlives_data :
    ¬ (CacheOp.run ttlScoring (smallConfig 1) absenceOps).ValidationBacked absenceOps ∧
    ¬ (CacheOp.run ttlScoring (smallConfig 1) collidingOps).ValidationBacked collidingOps := by
  constructor
  · intro backed
    have held : ((((CacheOp.run ttlScoring (smallConfig 1) absenceOps).tierMap .hot).get?
        (.plain oneLabel .A .IN)).map fun entry => (entry.kind, entry.validated)) =
        some (.negative .NOERROR none 300, true) := by
      decide
    obtain ⟨entry, stored, same⟩ := Option.map_eq_some_iff.mp held
    obtain ⟨kind, validated⟩ := Prod.mk.inj same
    obtain ⟨rrset, content, -⟩ := backed _ _ entry stored validated
    cases kind.symm.trans content
  · intro backed
    have held : ((((CacheOp.run ttlScoring (smallConfig 1) collidingOps).tierMap .hot).get?
        (.plain oneLabel .AAAA .IN)).map fun entry => (entry.kind, entry.validated)) =
        some (.positive (addressSet6 (collidingAddress true)), true) := by
      decide +kernel
    obtain ⟨entry, stored, same⟩ := Option.map_eq_some_iff.mp held
    obtain ⟨kind, validated⟩ := Prod.mk.inj same
    obtain ⟨rrset, content, op, member, inserts⟩ := backed _ _ entry stored validated
    cases kind.symm.trans content
    rcases List.mem_pair.mp member with rfl | rfl
    · have moved := (inserts.2.2 (.aaaa (collidingAddress false))).mp (by decide)
      exact absurd moved (by decide)
    · cases inserts.2.1

end RecurseX
