import RecurseX.Cache.Expiry
import RecurseX.Cache.Persist
import RecurseX.Library.Runs

/-!
# The bound of the NXDOMAIN store

A new name makes room before it is stored, so that live traffic keeps the store
within its capacity. A snapshot is written into the store as it is, and an empty
store has no room to make. `nxStore_bounded_iff` says which runs stay within the
capacity.
-/

namespace RecurseX

open Library Std

/-! ## Restoring a snapshot -/

/-- A stored NXDOMAIN entry. -/
structure NegativeDto where
  name : Bytes
  expiresUnix : Int
  rcode : UInt8
  soa : Option Bytes
  insertedUnix : Int
  served : Nat
deriving DecidableEq, Repr

/-- A stored cache. -/
structure Snapshot (Score Stored : Type) where
  magic : UInt32
  version : UInt32
  entries : List (EntryDto Score Stored)
  negatives : List NegativeDto

namespace Snapshot

def MAGIC : UInt32 := 0x5258435e

def VERSION : UInt32 := 2

/-- Restore an NXDOMAIN entry, unless its name is malformed or it is past the stale window. -/
def dtoToNegative (dto : NegativeDto) (now : Ts) (staleWindowSecs : UInt32) :
    Option (Name × NegativeEntry) := do
  let (name, _) ← (Name.fromWire dto.name 0).toOption
  let expires := unixToTs dto.expiresUnix
  if saturatingAdd expires (secondsToTs staleWindowSecs) ≤ now then none
  else some (name, ⟨expires, ⟨dto.rcode⟩, dto.soa.bind parseRecord, unixToTs dto.insertedUnix,
    dto.served⟩)

variable {Score Stability Stored Inputs : Type} [LinearOrder Score]
variable (scoring : Scoring Score Stability Inputs) (codec : StabilityCodec Stability Stored)

/-- One turn of the loop over the stored entries. -/
def restoreEntryDto (now : Ts) (staleWindowSecs : UInt32)
    (state : Nat × SemanticCache Score Stability) (dto : EntryDto Score Stored) :
    Nat × SemanticCache Score Stability :=
  match dtoToEntry codec dto now staleWindowSecs with
  | none => state
  | some entry => (state.1 + 1, state.2.restoreEntry scoring entry now)

/-- One turn of the loop over the stored NXDOMAIN entries. -/
def restoreNegativeDto (now : Ts) (staleWindowSecs : UInt32)
    (state : Nat × SemanticCache Score Stability) (dto : NegativeDto) :
    Nat × SemanticCache Score Stability :=
  match dtoToNegative dto now staleWindowSecs with
  | none => state
  | some (name, entry) => (state.1 + 1, { state.2 with nx := state.2.nx.insert name entry })

/-- Restore into a cache; returns the number of entries restored. -/
def restoreInto (self : Snapshot Score Stored) (cache : SemanticCache Score Stability) (now : Ts)
    (staleWindowSecs : UInt32) : Nat × SemanticCache Score Stability :=
  if self.magic ≠ MAGIC ∨ self.version ≠ VERSION then (0, cache)
  else
    let state := self.entries.foldl (restoreEntryDto scoring codec now staleWindowSecs) (0, cache)
    let (restored, cache) := self.negatives.foldl (restoreNegativeDto now staleWindowSecs) state
    (restored, cache.count fun stats => { stats with inserts := stats.inserts + restored })

theorem restoreEntry_nx (cache : SemanticCache Score Stability) (entry : CacheEntry Score Stability)
    (now : Ts) : (cache.restoreEntry scoring entry now).nx = cache.nx ∧
      (cache.restoreEntry scoring entry now).config = cache.config := by
  unfold SemanticCache.restoreEntry
  split_ifs
  · exact ⟨rfl, rfl⟩
  · exact ⟨SemanticCache.place_nx, SemanticCache.place_config⟩

/-- The NXDOMAIN entries a restore writes. -/
def liveNegatives (self : Snapshot Score Stored) (now : Ts) (staleWindowSecs : UInt32) :
    List (Name × NegativeEntry) :=
  if self.magic ≠ MAGIC ∨ self.version ≠ VERSION then []
  else self.negatives.filterMap fun dto => dtoToNegative dto now staleWindowSecs

theorem restoreEntryDtos_nx (now : Ts) (staleWindowSecs : UInt32) (dtos : List (EntryDto Score Stored))
    (state : Nat × SemanticCache Score Stability) :
    (dtos.foldl (restoreEntryDto scoring codec now staleWindowSecs) state).2.nx = state.2.nx ∧
      (dtos.foldl (restoreEntryDto scoring codec now staleWindowSecs) state).2.config =
        state.2.config := by
  induction dtos generalizing state with
  | nil => exact ⟨rfl, rfl⟩
  | cons dto dtos inductionHypothesis =>
      have one : (restoreEntryDto scoring codec now staleWindowSecs state dto).2.nx = state.2.nx ∧
          (restoreEntryDto scoring codec now staleWindowSecs state dto).2.config =
            state.2.config := by
        unfold restoreEntryDto
        split
        · exact ⟨rfl, rfl⟩
        · exact restoreEntry_nx scoring _ _ _
      rw [List.foldl_cons, ← one.1, ← one.2]
      exact inductionHypothesis _

omit [LinearOrder Score] in
theorem restoreNegativeDtos_nx (now : Ts) (staleWindowSecs : UInt32) (dtos : List NegativeDto)
    (state : Nat × SemanticCache Score Stability) :
    (dtos.foldl (restoreNegativeDto now staleWindowSecs) state).2.nx =
        (dtos.filterMap fun dto => dtoToNegative dto now staleWindowSecs).foldl
          (fun map entry => map.insert entry.1 entry.2) state.2.nx ∧
      (dtos.foldl (restoreNegativeDto now staleWindowSecs) state).2.config = state.2.config := by
  induction dtos generalizing state with
  | nil => exact ⟨rfl, rfl⟩
  | cons dto dtos inductionHypothesis =>
      rw [List.foldl_cons, List.filterMap_cons]
      obtain ⟨nx, config⟩ := inductionHypothesis (restoreNegativeDto now staleWindowSecs state dto)
      rw [nx, config]
      unfold restoreNegativeDto
      cases dtoToNegative dto now staleWindowSecs with
      | none => exact ⟨rfl, rfl⟩
      | some entry => exact ⟨rfl, rfl⟩

/-- A restore adds the names of the entries it finds alive, and leaves the rest of the store. -/
theorem restoreInto_nx (self : Snapshot Score Stored) (cache : SemanticCache Score Stability)
    (now : Ts) (staleWindowSecs : UInt32) :
    keySet (self.restoreInto scoring codec cache now staleWindowSecs).2.nx =
        keySet cache.nx ∪ ((self.liveNegatives now staleWindowSecs).map Prod.fst).toFinset ∧
      (self.restoreInto scoring codec cache now staleWindowSecs).2.config = cache.config := by
  unfold restoreInto liveNegatives
  split_ifs
  · simp
  · have entries := restoreEntryDtos_nx scoring codec now staleWindowSecs self.entries (0, cache)
    have negatives := restoreNegativeDtos_nx now staleWindowSecs self.negatives
      (self.entries.foldl (restoreEntryDto scoring codec now staleWindowSecs) (0, cache))
    rw [← keySet_foldl_insert, ← entries.1, ← negatives.1]
    exact ⟨rfl, negatives.2.trans entries.2⟩

end Snapshot

/-! ## Runs -/

/-- One operation on the NXDOMAIN store. -/
inductive NxOp (Score Stored : Type) where
  | insertNxdomain (name : Name) (rcode : Rcode) (soa : Option Record) (authoritativeTtl : UInt32)
      (now : Ts)
  | sweep (now : Ts)
  | restore (snapshot : Snapshot Score Stored) (now : Ts)

namespace NxOp

variable {Score Stability Stored Inputs : Type} [LinearOrder Score]
variable (scoring : Scoring Score Stability Inputs) (codec : StabilityCodec Stability Stored)

/-- The cache after one operation. A snapshot is loaded with the cache's own stale window. -/
def apply (cache : SemanticCache Score Stability) :
    NxOp Score Stored → SemanticCache Score Stability
  | .insertNxdomain name rcode soa authoritativeTtl now =>
      cache.insertNxdomain name rcode soa authoritativeTtl now
  | .sweep now => cache.sweep scoring now
  | .restore snapshot now =>
      (snapshot.restoreInto scoring codec cache now cache.config.staleWindowSecs).2

/-- The cache after a sequence of operations on a new cache. -/
def run (config : CacheConfig Score) (ops : List (NxOp Score Stored)) :
    SemanticCache Score Stability :=
  ops.foldl (apply scoring codec) (.new config)

/-- The operation finds room: an insert in any store that may hold a name at all, a restore
when the names in the store and those it adds fit together. -/
def Roomy (cache : SemanticCache Score Stability) : NxOp Score Stored → Prop
  | .insertNxdomain .. => 0 < cache.config.nxCapacity
  | .sweep _ => True
  | .restore snapshot now =>
      (keySet cache.nx ∪ ((snapshot.liveNegatives now cache.config.staleWindowSecs).map
        Prod.fst).toFinset).card ≤ cache.config.nxCapacity

variable {scoring codec}

theorem apply_config (cache : SemanticCache Score Stability) (op : NxOp Score Stored) :
    (op.apply scoring codec cache).config = cache.config := by
  cases op with
  | insertNxdomain name rcode soa authoritativeTtl now =>
      unfold apply SemanticCache.insertNxdomain
      dsimp only
      split <;> rfl
  | sweep now => rfl
  | restore snapshot now => exact (snapshot.restoreInto_nx scoring codec cache now _).2

omit [LinearOrder Score] in
/-- A new name is stored where room was made for it, unless the store may hold none. -/
theorem size_insertNxdomain_le_iff {cache : SemanticCache Score Stability}
    (within : cache.nx.size ≤ cache.config.nxCapacity) (name : Name) (rcode : Rcode)
    (soa : Option Record) (authoritativeTtl : UInt32) (now : Ts) :
    (cache.insertNxdomain name rcode soa authoritativeTtl now).nx.size ≤ cache.config.nxCapacity ↔
      0 < cache.config.nxCapacity := by
  have grown (map : TreeMap Name NegativeEntry) (entry : NegativeEntry) :
      (map.insert name entry).size ≤ map.size + 1 := TreeMap.size_insert_le
  have some (map : TreeMap Name NegativeEntry) (entry : NegativeEntry) :
      0 < (map.insert name entry).size := by
    rw [← card_keySet, keySet_insert]
    exact Finset.card_pos.mpr ⟨name, Finset.mem_insert_self _ _⟩
  unfold SemanticCache.insertNxdomain
  dsimp only
  split
  · -- The name is stored already, so the store has one and keeps its size.
    rename_i entry found
    have present : cache.nx.contains name = true := by
      rw [TreeMap.contains_eq_isSome_getElem?, found]
      rfl
    refine ⟨fun fits => Nat.lt_of_lt_of_le (some cache.nx _) fits, fun _ => ?_⟩
    rw [TreeMap.size_insert, if_pos present]
    exact within
  · dsimp only
    refine ⟨fun fits => Nat.lt_of_lt_of_le (some _ _) fits, fun enabled => ?_⟩
    split_ifs with full
    · have entries : cache.nx.isEmpty = false := by
        rw [TreeMap.isEmpty_eq_size_eq_zero]
        exact beq_eq_false_iff_ne.mpr (by omega)
      have evicted := (evictForCapacity_size now evictStride NegativeEntry.expires entries).1
      have added := grown (evictForCapacity cache.nx now evictStride NegativeEntry.expires).1
        ⟨saturatingAdd now (secondsToTs (min authoritativeTtl cache.config.negativeTtlCap)), rcode,
          soa, now, 0⟩
      omega
    · have added := grown cache.nx ⟨saturatingAdd now
        (secondsToTs (min authoritativeTtl cache.config.negativeTtlCap)), rcode, soa, now, 0⟩
      omega

/-- From within the capacity, an operation stays within it exactly when it finds room. -/
theorem size_apply_le_iff {cache : SemanticCache Score Stability} (op : NxOp Score Stored)
    (within : cache.nx.size ≤ cache.config.nxCapacity) :
    (op.apply scoring codec cache).nx.size ≤ cache.config.nxCapacity ↔ op.Roomy cache := by
  cases op with
  | insertNxdomain name rcode soa authoritativeTtl now =>
      exact size_insertNxdomain_le_iff within name rcode soa authoritativeTtl now
  | sweep now =>
      refine ⟨fun _ => trivial, fun _ => ?_⟩
      exact Nat.le_trans TreeMap.size_filter_le_size within
  | restore snapshot now =>
      rw [← card_keySet]
      change (keySet (snapshot.restoreInto scoring codec cache now _).2.nx).card ≤ _ ↔ _
      rw [(snapshot.restoreInto_nx scoring codec cache now _).1]
      rfl

theorem run_config (config : CacheConfig Score) (ops : List (NxOp Score Stored)) :
    (run scoring codec config ops).config = config :=
  foldl_invariant (apply scoring codec) (fun cache => cache.config = config)
    (fun cache op same => (apply_config cache op).trans same) rfl

theorem run_append (config : CacheConfig Score) (ops : List (NxOp Score Stored))
    (op : NxOp Score Stored) :
    run scoring codec config (ops ++ [op]) = op.apply scoring codec (run scoring codec config ops) := by
  rw [run, List.foldl_append]
  rfl

theorem size_run_append_le_iff {config : CacheConfig Score} {ops : List (NxOp Score Stored)}
    (within : (run scoring codec config ops).nx.size ≤ config.nxCapacity) (op : NxOp Score Stored) :
    (run scoring codec config (ops ++ [op])).nx.size ≤ config.nxCapacity ↔
      op.Roomy (run scoring codec config ops) := by
  have same : (run scoring codec config ops).config = config := run_config config ops
  rw [run_append]
  nth_rewrite 2 [← same]
  exact size_apply_le_iff op (by rw [same]; exact within)

end NxOp

variable {Score Stability Stored Inputs : Type} [LinearOrder Score]

/-- The store is within its capacity in every state of a run exactly when every operation of
the run finds room in the state before it. -/
theorem nxStore_bounded_iff (scoring : Scoring Score Stability Inputs)
    (codec : StabilityCodec Stability Stored) (config : CacheConfig Score)
    (ops : List (NxOp Score Stored)) :
    (∀ before, before <+: ops →
        (NxOp.run scoring codec config before).nx.size ≤ config.nxCapacity) ↔
      ∀ before op, before ++ [op] <+: ops → op.Roomy (NxOp.run scoring codec config before) := by
  constructor
  · intro bounded before op reached
    have within := bounded before ((List.prefix_append before [op]).trans reached)
    exact (NxOp.size_run_append_le_iff within op).mp (bounded (before ++ [op]) reached)
  · intro roomy before
    induction before using List.reverseRecOn with
    | nil => exact fun _ => Nat.zero_le _
    | append_singleton before op inductionHypothesis =>
        intro reached
        have within := inductionHypothesis ((List.prefix_append before [op]).trans reached)
        exact (NxOp.size_run_append_le_iff within op).mpr (roomy before op reached)

/-- A snapshot with two names that are denied for 100 s. -/
def twoNames : Snapshot Nat Unit where
  magic := Snapshot.MAGIC
  version := Snapshot.VERSION
  entries := []
  negatives := [⟨[1, 0x61, 0], 100, 3, none, 0, 0⟩, ⟨[1, 0x62, 0], 100, 3, none, 0, 0⟩]

/-- A restore overflows a store of one name, and an insert one of none. -/
theorem nxStore_overflows :
    (NxOp.run ttlScoring ⟨id, id⟩ (smallConfig 1) [.restore twoNames 0]).nx.size = 2 ∧
      (smallConfig 1).nxCapacity = 1 ∧
      (NxOp.run ttlScoring ⟨id, id⟩ { smallConfig 1 with nxCapacity := 0 }
        [(.insertNxdomain .root .NXDOMAIN none 300 0 : NxOp Nat Unit)]).nx.size = 1 :=
  ⟨by decide, rfl, by decide⟩

end RecurseX
