import RecurseX.Cache.Validation

/-!
# How long an answer is kept

An insertion clamps the TTL it is given to the cap of its kind, and dates the entry
from the instant it is called. Overwriting dates the entry anew, a denial that is
inserted again keeps the later of the two expiries, and nothing else moves an expiry.
`Capped` is what this comes to for a run whose clock does not go back.
-/

namespace RecurseX

open Library Std

variable {Score Stability Inputs : Type}

/-- The cap on the TTL of such an answer. -/
def CacheConfig.ttlCap (config : CacheConfig Score) : EntryKind → UInt32
  | .positive _ => config.maxTtlCap
  | .negative .. => config.negativeTtlCap

namespace CacheOp

/-- The instant the operation is called with. -/
def time : CacheOp Score Stability Inputs → Option Ts
  | .insertPositive _ _ now _ _ => some now
  | .insertNegative _ _ _ _ now _ => some now
  | .insertNxdomain _ _ _ _ now => some now
  | .lookup _ now => some now
  | .rescore _ _ now => some now
  | .sweep now => some now
  | .markRefreshing _ => none
  | .clearRefreshing _ => none
  | .recordRefreshFailure _ now => some now
  | .restoreEntry _ now => some now

/-- The operation brings an entry of an earlier process back. -/
def Restores : CacheOp Score Stability Inputs → Prop
  | .restoreEntry .. => True
  | _ => False

/-- When the operation inserts an answer under the key, if it does. -/
def insertsAt (key : CacheKey) : CacheOp Score Stability Inputs → Option Ts
  | .insertPositive other _ now _ _ => if other = key then some now else none
  | .insertNegative other _ _ _ now _ => if other = key then some now else none
  | _ => none

/-- When the operation inserts a denial of the name, if it does. -/
def deniesAt (name : Name) : CacheOp Score Stability Inputs → Option Ts
  | .insertNxdomain other _ _ _ now => if other = name then some now else none
  | _ => none

/-- When an answer was last inserted under the key. -/
def lastInsertion (key : CacheKey) (ops : List (CacheOp Score Stability Inputs)) : Option Ts :=
  ops.reverse.findSome? (insertsAt key)

/-- When a denial of the name was last inserted. -/
def lastDenial (name : Name) (ops : List (CacheOp Score Stability Inputs)) : Option Ts :=
  ops.reverse.findSome? (deniesAt name)

variable {key : CacheKey} {name : Name} {ops : List (CacheOp Score Stability Inputs)}
  {op : CacheOp Score Stability Inputs} {now : Ts}

theorem lastInsertion_of_inserts (inserts : op.insertsAt key = some now) :
    lastInsertion key (ops ++ [op]) = some now := by
  rw [lastInsertion, List.reverse_concat, List.findSome?_cons, inserts]

theorem lastInsertion_of_not (leaves : op.insertsAt key = none) :
    lastInsertion key (ops ++ [op]) = lastInsertion key ops := by
  rw [lastInsertion, List.reverse_concat, List.findSome?_cons, leaves, lastInsertion]

theorem lastDenial_of_denies (denies : op.deniesAt name = some now) :
    lastDenial name (ops ++ [op]) = some now := by
  rw [lastDenial, List.reverse_concat, List.findSome?_cons, denies]

theorem lastDenial_of_not (leaves : op.deniesAt name = none) :
    lastDenial name (ops ++ [op]) = lastDenial name ops := by
  rw [lastDenial, List.reverse_concat, List.findSome?_cons, leaves, lastDenial]

/-- The last denial is at one of the instants of the run. -/
theorem lastDenial_mem (last : lastDenial name ops = some now) : now ∈ ops.filterMap time := by
  obtain ⟨op, member, denies⟩ := List.exists_of_findSome?_eq_some last
  refine List.mem_filterMap.mpr ⟨op, List.mem_reverse.mp member, ?_⟩
  cases op with
  | insertNxdomain other rcode soa authoritativeTtl instant =>
      rw [deniesAt] at denies
      split_ifs at denies
      exact denies
  | _ => cases denies

end CacheOp

namespace SemanticCache

variable {scoring : Scoring Score Stability Inputs} {cache : SemanticCache Score Stability}
  {config : CacheConfig Score} {ops : List (CacheOp Score Stability Inputs)}
  {op : CacheOp Score Stability Inputs} {key : CacheKey} {name : Name}

/-- Every entry dates from the last insertion under its key, and every denial from the last
insertion of its name; neither outlives its cap from then on. -/
structure Capped (config : CacheConfig Score) (ops : List (CacheOp Score Stability Inputs))
    (cache : SemanticCache Score Stability) : Prop where
  entries : ∀ {key : CacheKey} {entry : CacheEntry Score Stability}, cache.Stores key entry →
    CacheOp.lastInsertion key ops = some entry.inserted ∧
      entry.expires ≤ entry.inserted + secondsToTs (config.ttlCap entry.kind) ∧
      IsInstant entry.expires
  names : ∀ {name : Name} {negative : NegativeEntry}, cache.nx[name]? = some negative →
    CacheOp.lastDenial name ops = some negative.inserted ∧
      negative.expires ≤ negative.inserted + secondsToTs config.negativeTtlCap ∧
      IsInstant negative.expires

/-- What an insertion of a denial leaves of a name. -/
theorem insertNxdomain_stored {other : Name} {rcode : Rcode} {soa : Option Record}
    {authoritativeTtl : UInt32} {now : Ts} {negative : NegativeEntry}
    (stored : (cache.insertNxdomain other rcode soa authoritativeTtl now).nx[name]? =
      some negative) :
    (other = name ∧ negative.inserted = now ∧ (negative.expires = saturatingAdd now
        (secondsToTs (min authoritativeTtl cache.config.negativeTtlCap)) ∨
      ∃ old, cache.nx[name]? = some old ∧ negative.expires = max old.expires (saturatingAdd now
        (secondsToTs (min authoritativeTtl cache.config.negativeTtlCap))))) ∨
    (other ≠ name ∧ cache.nx[name]? = some negative) := by
  unfold insertNxdomain at stored
  dsimp only at stored
  split at stored
  · rename_i old before
    rw [TreeMap.getElem?_insert] at stored
    split_ifs at stored with same
    · obtain rfl := Std.LawfulEqCmp.eq_of_compare same
      obtain rfl := Option.some.inj stored
      exact .inl ⟨rfl, rfl, .inr ⟨old, before, rfl⟩⟩
    · exact .inr ⟨fun named => same (named ▸ Std.ReflCmp.compare_self), stored⟩
  · rw [TreeMap.getElem?_insert] at stored
    split_ifs at stored with same full
    · obtain rfl := Std.LawfulEqCmp.eq_of_compare same
      obtain rfl := Option.some.inj stored
      exact .inl ⟨rfl, rfl, .inl rfl⟩
    · exact .inr ⟨fun named => same (named ▸ Std.ReflCmp.compare_self),
        getElem?_evictForCapacity stored⟩
    · exact .inr ⟨fun named => same (named ▸ Std.ReflCmp.compare_self), stored⟩

/-- What an insertion puts into the cache is dated from then, and capped. -/
theorem dates_capped {entry : CacheEntry Score Stability} (live : ¬ op.Restores)
    (instants : ∀ now ∈ op.time, IsInstant now)
    (puts : op.Puts scoring cache key entry.kind entry.validated)
    (dates : op.Dates config entry) :
    op.insertsAt key = some entry.inserted ∧
      entry.expires ≤ entry.inserted + secondsToTs (config.ttlCap entry.kind) ∧
      IsInstant entry.expires := by
  cases op with
  | insertPositive other rrset now inputs validated =>
      obtain ⟨rfl, ⟨ttl, content⟩, -⟩ := puts
      obtain ⟨inserted, expires⟩ := dates
      rw [CacheOp.insertsAt, if_pos rfl, inserted, expires, content]
      exact ⟨rfl, saturatingAdd_le (instants now rfl) (min_le_cap _ _), isInstant_saturatingAdd _ _⟩
  | insertNegative other rcode soa authoritativeTtl now inputs =>
      obtain ⟨rfl, ⟨ttl, content⟩, -⟩ := puts
      obtain ⟨inserted, expires⟩ := dates
      rw [CacheOp.insertsAt, if_pos rfl, inserted, expires, content]
      exact ⟨rfl, saturatingAdd_le (instants now rfl) (min_le_cap _ _), isInstant_saturatingAdd _ _⟩
  | restoreEntry => exact absurd trivial live
  | _ => exact absurd puts id

section Steps

variable [LinearOrder Score]

theorem AllIndexed.replace_nx (event : CacheStats → CacheStats)
    (placed : CacheEntry Score Stability) :
    (((cache.takeEntryAny scoring key).2.count event).place scoring placed).nx = cache.nx :=
  place_nx.trans (takeEntryAny_nx scoring cache key)

/-- A denial that no insertion brought was there before. -/
theorem AllIndexed.apply_nx (indexed : cache.AllIndexed scoring)
    (leaves : op.deniesAt name = none) {negative : NegativeEntry}
    (stored : (op.apply scoring cache).nx[name]? = some negative) :
    cache.nx[name]? = some negative := by
  cases op with
  | insertPositive other rrset now inputs validated =>
      obtain ⟨event, placed, result, -⟩ :=
        indexed.insertPositive_cases other rrset now inputs validated
      rwa [CacheOp.apply, result, replace_nx] at stored
  | insertNegative other rcode soa authoritativeTtl now inputs =>
      obtain ⟨event, placed, result, -⟩ :=
        indexed.insertNegative_cases other rcode soa authoritativeTtl now inputs
      rwa [CacheOp.apply, result, replace_nx] at stored
  | insertNxdomain other rcode soa authoritativeTtl now =>
      rcases insertNxdomain_stored stored with ⟨named, -⟩ | ⟨-, before⟩
      · rw [CacheOp.deniesAt, if_pos named] at leaves
        cases leaves
      · exact before
  | lookup other now => rwa [CacheOp.apply, lookup_nx] at stored
  | rescore other inputs now =>
      rw [CacheOp.apply, SemanticCache.rescore] at stored
      have taken := takeEntryAny_nx scoring cache other
      split at stored
      · rename_i after found
        rw [found] at taken
        rw [← taken]
        exact stored
      · rename_i entry after found
        rw [found] at taken
        rwa [place_nx, taken] at stored
  | sweep now =>
      change (cache.nx.filter _)[name]? = some negative at stored
      rw [TreeMap.getElem?_filter] at stored
      exact (Option.pfilter_eq_some_iff.mp stored).1
  | markRefreshing other =>
      rw [CacheOp.apply, SemanticCache.markRefreshing] at stored
      split at stored
      · split_ifs at stored
        · exact stored
        · rwa [modifyEntry_nx] at stored
      · exact stored
  | clearRefreshing other =>
      rwa [CacheOp.apply, SemanticCache.clearRefreshing, modifyEntry_nx] at stored
  | recordRefreshFailure other now =>
      rwa [CacheOp.apply, SemanticCache.recordRefreshFailure, modifyEntry_nx] at stored
  | restoreEntry entry now =>
      rw [CacheOp.apply, SemanticCache.restoreEntry] at stored
      split_ifs at stored
      · exact stored
      · rwa [place_nx] at stored

/-- What an operation replaces, it takes out. -/
theorem Consistent.cleared_absent (consistent : cache.Consistent scoring) {now : Ts}
    (inserts : op.insertsAt key = some now) : (op.cleared scoring cache).Absent key := by
  cases op with
  | insertPositive other rrset instant inputs validated =>
      rw [CacheOp.insertsAt] at inserts
      split_ifs at inserts with same
      subst same
      exact ((consistent_kept scoring).takeEntryAny other consistent).2.2
  | insertNegative other rcode soa authoritativeTtl instant inputs =>
      rw [CacheOp.insertsAt] at inserts
      split_ifs at inserts with same
      subst same
      exact ((consistent_kept scoring).takeEntryAny other consistent).2.2
  | _ => cases inserts

/-- No move of an operation changes the configuration. -/
theorem configured_kept (scoring : Scoring Score Stability Inputs) (config : CacheConfig Score) :
    Kept scoring (fun cache => cache.Consistent scoring ∧ cache.config = config) fun key cache =>
      (cache.Consistent scoring ∧ cache.Absent key) ∧ cache.config = config where
  keyed invariant stored := (consistent_kept scoring).keyed invariant.1 stored
  counted event invariant := ⟨(consistent_kept scoring).counted event invariant.1, invariant.2⟩
  outCounted event outside := ⟨(consistent_kept scoring).outCounted event outside.1, outside.2⟩
  withNx nx invariant := ⟨(consistent_kept scoring).withNx nx invariant.1, invariant.2⟩
  taken invariant stored :=
    ⟨(consistent_kept scoring).taken invariant.1 stored, setTier_config.trans invariant.2⟩
  missing invariant absent := ⟨⟨invariant.1, absent⟩, invariant.2⟩
  dropped outside := ⟨outside.1.1, outside.2⟩
  placed entry outside :=
    ⟨(consistent_kept scoring).placed entry outside.1, place_config.trans outside.2⟩
  parked entry outside := ⟨(consistent_kept scoring).parked entry outside.1, outside.2⟩
  modified tier key change same invariant :=
    ⟨(consistent_kept scoring).modified tier key change same invariant.1,
      setTier_config.trans invariant.2⟩
  retained tier keep invariant :=
    ⟨(consistent_kept scoring).retained tier keep invariant.1, setTier_config.trans invariant.2⟩

/-- An operation keeps the entries within their caps. -/
theorem Capped.apply_entries (consistent : cache.Consistent scoring)
    (capped : cache.Capped config ops) (configured : cache.config = config)
    (live : ¬ op.Restores) (instants : ∀ now ∈ op.time, IsInstant now)
    {entry : CacheEntry Score Stability} (stored : (op.apply scoring cache).Stores key entry) :
    CacheOp.lastInsertion key (ops ++ [op]) = some entry.inserted ∧
      entry.expires ≤ entry.inserted + secondsToTs (config.ttlCap entry.kind) ∧
      IsInstant entry.expires := by
  obtain ⟨tier, stored⟩ := stored
  rcases AllIndexed.apply_leaves consistent.indexed op stored with ⟨puts, dates⟩ | holds
  · rw [configured] at dates
    obtain ⟨inserts, expires⟩ := dates_capped live instants puts dates
    exact ⟨CacheOp.lastInsertion_of_inserts inserts, expires⟩
  · have leaves : op.insertsAt key = none := by
      obtain ⟨origin, old, before, -⟩ := holds
      refine Option.eq_none_iff_forall_not_mem.mpr fun now inserts => ?_
      cases before.symm.trans (consistent.cleared_absent inserts origin)
    obtain ⟨source, oldest, there, older⟩ := holds.descends (cleared_descends scoring cache op)
    have dated := capped.entries ⟨source, there⟩
    rw [older.inserted, older.kind, older.expires] at dated
    rw [CacheOp.lastInsertion_of_not leaves]
    exact dated

/-- An operation keeps the denials within their cap, when its clock does not go back. -/
theorem Capped.apply_names (indexed : cache.AllIndexed scoring)
    (capped : cache.Capped config ops) (configured : cache.config = config)
    (instants : ∀ now ∈ op.time, IsInstant now)
    (later : ∀ now ∈ op.time, ∀ time ∈ ops.filterMap CacheOp.time, time ≤ now)
    {negative : NegativeEntry} (stored : (op.apply scoring cache).nx[name]? = some negative) :
    CacheOp.lastDenial name (ops ++ [op]) = some negative.inserted ∧
      negative.expires ≤ negative.inserted + secondsToTs config.negativeTtlCap ∧
      IsInstant negative.expires := by
  cases denies : op.deniesAt name with
  | none =>
      rw [CacheOp.lastDenial_of_not denies]
      exact capped.names (indexed.apply_nx denies stored)
  | some now =>
      rw [CacheOp.lastDenial_of_denies denies]
      cases op with
      | insertNxdomain other rcode soa authoritativeTtl instant =>
          rw [CacheOp.deniesAt] at denies
          split_ifs at denies with named
          obtain rfl := Option.some.inj denies
          have fresh : saturatingAdd instant (secondsToTs (min authoritativeTtl
              cache.config.negativeTtlCap)) ≤ instant + secondsToTs config.negativeTtlCap := by
            rw [configured]
            exact saturatingAdd_le (instants instant rfl) (min_le_cap _ _)
          rcases insertNxdomain_stored stored with ⟨-, inserted, expires⟩ | ⟨other, -⟩
          · rw [inserted]
            refine ⟨rfl, ?_⟩
            rcases expires with expires | ⟨old, before, expires⟩
            · rw [expires]
              exact ⟨fresh, isInstant_saturatingAdd _ _⟩
            · -- The earlier denial was dated no later, so its term ends within the cap as well.
              obtain ⟨last, capped, lasting⟩ := capped.names before
              have ordered := later instant rfl old.inserted (CacheOp.lastDenial_mem last)
              rw [expires]
              exact ⟨max_le (capped.trans (Int.add_le_add_right ordered _)) fresh,
                lasting.max (isInstant_saturatingAdd _ _)⟩
          · exact absurd named other
      | _ => cases denies

/-- Without restores, the tiers stay consistent and the configuration stays what it was. -/
theorem run_configured (scoring : Scoring Score Stability Inputs) (config : CacheConfig Score)
    {ops : List (CacheOp Score Stability Inputs)} (live : ∀ op ∈ ops, ¬ op.Restores) :
    (CacheOp.run scoring config ops).Consistent scoring ∧
      (CacheOp.run scoring config ops).config = config := by
  induction ops using List.reverseRecOn with
  | nil => exact ⟨new_consistent config, rfl⟩
  | append_singleton ops op inductionHypothesis =>
      have before := inductionHypothesis fun earlier member =>
        live earlier (List.mem_append_left _ member)
      have last := live op (List.mem_append_right _ List.mem_cons_self)
      rw [CacheOp.run_concat]
      refine (configured_kept scoring config).apply ?_ before
      cases op with
      | restoreEntry => exact absurd trivial last
      | _ => trivial

/-- Every run without restores keeps its answers within their caps, when its clock does not go
back. -/
theorem run_capped (scoring : Scoring Score Stability Inputs) (config : CacheConfig Score)
    {ops : List (CacheOp Score Stability Inputs)} (live : ∀ op ∈ ops, ¬ op.Restores)
    (ordered : (ops.filterMap CacheOp.time).Pairwise (· ≤ ·))
    (instants : ∀ now ∈ ops.filterMap CacheOp.time, IsInstant now) :
    (CacheOp.run scoring config ops).Capped config ops := by
  induction ops using List.reverseRecOn with
  | nil =>
      refine ⟨?_, ?_⟩
      · rintro key entry ⟨tier, stored⟩
        cases tier <;> simp [CacheOp.run, SemanticCache.new, SemanticCache.tierMap] at stored
      · intro name negative stored
        simp [CacheOp.run, SemanticCache.new] at stored
  | append_singleton ops op inductionHypothesis =>
      rw [List.filterMap_append] at ordered instants
      obtain ⟨before, -, later⟩ := List.pairwise_append.mp ordered
      have earlier : ∀ other ∈ ops, ¬ other.Restores := fun other member =>
        live other (List.mem_append_left _ member)
      have last : ¬ op.Restores := live op (List.mem_append_right _ List.mem_cons_self)
      have called : ∀ now ∈ op.time, now ∈ [op].filterMap CacheOp.time := fun now timed =>
        List.mem_filterMap.mpr ⟨op, List.mem_cons_self, timed⟩
      have capped := inductionHypothesis earlier before fun now member =>
        instants now (List.mem_append_left _ member)
      have lasting : ∀ now ∈ op.time, IsInstant now := fun now timed =>
        instants now (List.mem_append_right _ (called now timed))
      obtain ⟨consistent, configured⟩ := run_configured scoring config earlier
      rw [CacheOp.run_concat]
      refine ⟨capped.apply_entries consistent configured last lasting, ?_⟩
      refine capped.apply_names consistent.indexed configured lasting fun now timed time member => ?_
      exact later time member now (called now timed)

end Steps

end SemanticCache

/-- After every run without restores whose clock does not go back, an entry expires no later
than its cap after the last insertion under its key, and a denial no later than the negative
cap after the last insertion of its name; what is left of them at a later instant is an
instant. The nanoseconds of a TTL fit 128 bits, and so does every expiry, which is the sum
of both up to the last instant there is. -/
theorem ttl_caps [LinearOrder Score] (scoring : Scoring Score Stability Inputs)
    (config : CacheConfig Score) (ops : List (CacheOp Score Stability Inputs))
    (live : ∀ op ∈ ops, ¬ op.Restores)
    (ordered : (ops.filterMap CacheOp.time).Pairwise (· ≤ ·))
    (instants : ∀ now ∈ ops.filterMap CacheOp.time, IsInstant now) :
    (∀ key entry, (CacheOp.run scoring config ops).Stores key entry →
      ∃ inserted, CacheOp.lastInsertion key ops = some inserted ∧
        entry.expires ≤ inserted + secondsToTs (config.ttlCap entry.kind) ∧
        IsInstant entry.expires ∧
        ∀ now, inserted ≤ now → now < entry.expires → IsInstant (entry.expires - now)) ∧
    (∀ name negative, (CacheOp.run scoring config ops).nx[name]? = some negative →
      ∃ inserted, CacheOp.lastDenial name ops = some inserted ∧
        negative.expires ≤ inserted + secondsToTs config.negativeTtlCap ∧
        IsInstant negative.expires ∧
        ∀ now, inserted ≤ now → now < negative.expires → IsInstant (negative.expires - now)) ∧
    ∀ ttl : UInt32, IsInstant (secondsToTs ttl) ∧ ∀ now, IsInstant now →
      IsInstant (saturatingAdd now (secondsToTs ttl)) ∧
        saturatingAdd now (secondsToTs ttl) = min (2 ^ 127 - 1) (now + secondsToTs ttl) := by
  have capped := SemanticCache.run_capped scoring config live ordered instants
  refine ⟨fun key entry stored => ?_, fun name negative stored => ?_, fun ttl => ?_⟩
  · obtain ⟨last, expires, instant⟩ := capped.entries stored
    exact ⟨_, last, expires, instant, fun now => isInstant_remaining expires⟩
  · obtain ⟨last, expires, instant⟩ := capped.names stored
    exact ⟨_, last, expires, instant, fun now => isInstant_remaining expires⟩
  · exact ⟨isInstant_secondsToTs ttl, fun now instant =>
      ⟨isInstant_saturatingAdd now _, saturatingAdd_secondsToTs instant ttl⟩⟩

/-- An address, then its absence for longer than the cap, and its name denied twice. -/
def cappedOps : List (CacheOp Nat Unit Unit) :=
  [insertAddressSet 0 true,
    .insertNegative (.plain oneLabel .A .IN) .NOERROR none 4294967295 1 (),
    .insertNxdomain oneLabel .NXDOMAIN none 4294967295 2,
    .insertNxdomain oneLabel .NXDOMAIN none 300 3]

/-- The absence and the denial are kept for the negative cap. -/
theorem ttl_caps_absence :
    (((CacheOp.run ttlScoring (smallConfig 1) cappedOps).tierMap .hot).get?
      (.plain oneLabel .A .IN)).map CacheEntry.expires = some (1 + secondsToTs 900) ∧
    ∀ name negative, (CacheOp.run ttlScoring (smallConfig 1) cappedOps).nx[name]? = some negative →
      ∃ inserted, CacheOp.lastDenial name cappedOps = some inserted ∧
        negative.expires ≤ inserted + secondsToTs 900 ∧ IsInstant negative.expires ∧
        ∀ now, inserted ≤ now → now < negative.expires → IsInstant (negative.expires - now) := by
  refine ⟨by decide, (ttl_caps ttlScoring (smallConfig 1) cappedOps ?_ ?_ ?_).2.1⟩
  · simp [cappedOps, insertAddressSet, CacheOp.Restores]
  · decide
  · decide

end RecurseX
