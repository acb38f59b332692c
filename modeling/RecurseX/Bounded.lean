import Mathlib.Data.Finset.Card
import RecurseX.Library.Selection
import RecurseX.Time

/-!
# Capacity management for the bounded state tables

The two-phase sweep of a table that is full: drop what is stale, else every
`stride`-th entry, else the single oldest one. `evictForCapacity_evicts` says what
goes and how much, `evictForCapacity_oldest_iff` when these are the oldest entries.
-/

namespace RecurseX

open Library Std

variable {K V : Type} [Ord K]

/-- Keep the entries the predicate accepts. -/
def retainEntries (map : TreeMap K V) (keep : K → V → Bool) : TreeMap K V :=
  map.filter keep

/-- Drop every `stride`-th entry, in key order. -/
def dropStride (map : TreeMap K V) (stride : Nat) : TreeMap K V :=
  map.toList.zipIdx.foldl
    (fun kept entry => if (entry.2 + 1) % stride = 0 then kept.erase entry.1.1 else kept) map

/-- The first entry with the least stamp. -/
def oldest (stamp : V → Ts) : List (K × V) → Option (K × V)
  | [] => none
  | first :: rest =>
      some (rest.foldl (fun best entry => if stamp entry.2 < stamp best.2 then entry else best) first)

/-- Ensure `map` can accept a new entry by evicting until it has room. Returns
the smaller map and the number of evicted entries. -/
def evictForCapacity (map : TreeMap K V) (staleBefore : Ts) (stride : Nat) (stamp : V → Ts) :
    TreeMap K V × Nat :=
  if map.isEmpty then (map, 0)
  else
    let before := map.size
    let stride := max stride 2
    let fresh := retainEntries map fun _ value => decide (staleBefore ≤ stamp value)
    if fresh.size < before then (fresh, before - fresh.size)
    else
      let strided := dropStride fresh stride
      if strided.size < before then (strided, before - strided.size)
      else
        -- Fewer entries than `stride`: the sweep skipped every one of them.
        match oldest stamp strided.toList with
        | some (key, _) => (strided.erase key, before - (strided.erase key).size)
        | none => (strided, before - strided.size)

variable [TransOrd K] {map : TreeMap K V} {key : K} {value : V}

/-- Erasing leaves the other entries as they were. -/
theorem getElem?_of_erase {erased : K} (found : (map.erase erased)[key]? = some value) :
    map[key]? = some value := by
  rw [TreeMap.getElem?_erase] at found
  split_ifs at found
  exact found

theorem getElem?_dropStride {stride : Nat} (found : (dropStride map stride)[key]? = some value) :
    map[key]? = some value := by
  unfold dropStride at found
  generalize map.toList.zipIdx = entries at found
  induction entries generalizing map with
  | nil => exact found
  | cons entry entries inductionHypothesis =>
      have later := inductionHypothesis found
      dsimp only at later
      split_ifs at later
      · exact getElem?_of_erase later
      · exact later

/-- What an eviction leaves was there before. -/
theorem getElem?_evictForCapacity [LawfulEqOrd K] {staleBefore : Ts} {stride : Nat}
    {stamp : V → Ts}
    (found : (evictForCapacity map staleBefore stride stamp).1[key]? = some value) :
    map[key]? = some value := by
  have retained {keep : K → V → Bool} (found : (retainEntries map keep)[key]? = some value) :
      map[key]? = some value := by
    rw [retainEntries, TreeMap.getElem?_filter] at found
    exact (Option.pfilter_eq_some_iff.mp found).1
  unfold evictForCapacity at found
  dsimp only at found
  split_ifs at found
  · exact found
  · exact retained found
  · exact retained (getElem?_dropStride found)
  · split at found
    · exact retained (getElem?_dropStride (getElem?_of_erase found))
    · exact retained (getElem?_dropStride found)

theorem size_dropStride_le {stride : Nat} : (dropStride map stride).size ≤ map.size := by
  unfold dropStride
  generalize map.toList.zipIdx = entries
  induction entries generalizing map with
  | nil => exact le_rfl
  | cons entry entries inductionHypothesis =>
      refine inductionHypothesis.trans ?_
      dsimp only
      split_ifs
      · exact TreeMap.size_erase_le
      · exact le_rfl

/-- The oldest entry is one of them. -/
theorem oldest_mem {α β : Type} {stamp : β → Ts} {entries : List (α × β)} {entry : α × β}
    (found : oldest stamp entries = some entry) : entry ∈ entries := by
  cases entries with
  | nil => cases found
  | cons first rest =>
      obtain rfl := Option.some.inj found
      refine foldl_pick_mem (fun best candidate => ?_) first rest
      split_ifs
      · exact .inr rfl
      · exact .inl rfl

/-- A map that is not empty loses at least one entry, and the count is of those lost. -/
theorem evictForCapacity_size [LawfulEqOrd K] (staleBefore : Ts) (stride : Nat) (stamp : V → Ts)
    (entries : map.isEmpty = false) :
    (evictForCapacity map staleBefore stride stamp).1.size < map.size ∧
      (evictForCapacity map staleBefore stride stamp).2 =
        map.size - (evictForCapacity map staleBefore stride stamp).1.size := by
  unfold evictForCapacity
  rw [if_neg (by simp [entries])]
  dsimp only
  split_ifs with stale strided
  · exact ⟨stale, rfl⟩
  · exact ⟨strided, rfl⟩
  have dropped : (dropStride (retainEntries map fun _ value => decide (staleBefore ≤ stamp value))
      (max stride 2)).size ≤ map.size := size_dropStride_le.trans TreeMap.size_filter_le_size
  generalize dropStride (retainEntries map fun _ value => decide (staleBefore ≤ stamp value))
    (max stride 2) = rest at strided dropped ⊢
  have some : rest.isEmpty = false := by
    rw [TreeMap.isEmpty_eq_size_eq_zero] at entries ⊢
    simp only [beq_eq_false_iff_ne] at entries ⊢
    omega
  cases chosen : oldest stamp rest.toList with
  | none =>
      cases listed : rest.toList with
      | nil =>
          rw [← TreeMap.isEmpty_toList, listed] at some
          cases some
      | cons first others =>
          rw [listed] at chosen
          cases chosen
  | some entry =>
      have present : rest.contains entry.1 := by
        have found := TreeMap.mem_toList_iff_getElem?_eq_some.mp (oldest_mem chosen)
        rw [TreeMap.contains_eq_isSome_getElem?, found]
        rfl
      have nonempty : rest.size ≠ 0 := by
        rw [TreeMap.isEmpty_eq_size_eq_zero] at some
        exact beq_eq_false_iff_ne.mp some
      have shorter : (rest.erase entry.1).size = rest.size - 1 := by
        rw [TreeMap.size_erase, if_pos present]
      refine ⟨?_, rfl⟩
      dsimp only
      omega

/-! ## The keys of a map -/

section Keys

variable [LawfulEqOrd K] [DecidableEq K]

/-- The keys of a map as a set. -/
def keySet (map : TreeMap K V) : Finset K := map.keys.toFinset

theorem card_keySet (map : TreeMap K V) : (keySet map).card = map.size := by
  have distinct : map.keys.Nodup :=
    TreeMap.distinct_keys.imp fun different same => different (by rw [same]; exact compare_self)
  rw [keySet, List.toFinset_card_of_nodup distinct, TreeMap.length_keys]

theorem keySet_insert (map : TreeMap K V) (key : K) (value : V) :
    keySet (map.insert key value) = insert key (keySet map) := by
  ext other
  simp only [keySet, List.mem_toFinset, TreeMap.mem_keys, Finset.mem_insert, TreeMap.mem_insert,
    LawfulEqCmp.compare_eq_iff_eq]
  exact or_congr_left eq_comm

theorem keySet_foldl_insert (entries : List (K × V)) (map : TreeMap K V) :
    keySet (entries.foldl (fun map entry => map.insert entry.1 entry.2) map) =
      keySet map ∪ (entries.map Prod.fst).toFinset := by
  induction entries generalizing map with
  | nil => simp
  | cons entry entries inductionHypothesis =>
      rw [List.foldl_cons, inductionHypothesis, keySet_insert]
      ext other
      simp only [Finset.mem_union, Finset.mem_insert, List.map_cons, List.toFinset_cons]
      tauto

end Keys

/-! ## What is evicted first -/

section Recency

variable {stamp : V → Ts} {stride : Nat}

/-- Nothing that was dropped has a later stamp than something that was kept. -/
def DropsOldest (stamp : V → Ts) (map after : TreeMap K V) : Prop :=
  ∀ (key : K) (value : V), map[key]? = some value → after[key]? = none →
    ∀ (other : K) (kept : V), after[other]? = some kept → stamp value ≤ stamp kept

/-- In key order, the entries at the multiples of `stride` have no later stamp than the others. -/
def StrideOldest (stamp : V → Ts) (stride : Nat) (map : TreeMap K V) : Prop :=
  ∀ (index place : Nat) (entry other : K × V), map.toList[index]? = some entry →
    map.toList[place]? = some other → (index + 1) % stride = 0 → (place + 1) % stride ≠ 0 →
      stamp entry.2 ≤ stamp other.2

theorem DropsOldest.congr {other after : TreeMap K V} (same : other.Equiv map) :
    DropsOldest stamp other after ↔ DropsOldest stamp map after := by
  unfold DropsOldest
  simp only [same.getElem?_eq]

theorem StrideOldest.congr {other : TreeMap K V} (same : other.Equiv map) :
    StrideOldest stamp stride other ↔ StrideOldest stamp stride map := by
  unfold StrideOldest
  rw [same.toList_eq]

/-- A key stands at one place. -/
theorem place_unique {index place : Nat} {other : V} (found : map.toList[index]? = some (key, value))
    (foundToo : map.toList[place]? = some (key, other)) : index = place := by
  have keys : map.keys[index]? = some key := by
    rw [← TreeMap.map_fst_toList_eq_keys, List.getElem?_map, found]
    rfl
  have keysToo : map.keys[place]? = some key := by
    rw [← TreeMap.map_fst_toList_eq_keys, List.getElem?_map, foundToo]
    rfl
  obtain ⟨inside, -⟩ := List.getElem?_eq_some_iff.mp keys
  exact (List.getElem?_inj inside TreeMap.nodup_keys).mp (keys.trans keysToo.symm)

/-- The oldest entry has the least stamp. -/
theorem oldest_least {α β : Type} {stamp : β → Ts} {entries : List (α × β)} {entry : α × β}
    (found : oldest stamp entries = some entry) :
    ∀ other ∈ entries, stamp entry.2 ≤ stamp other.2 := by
  cases entries with
  | nil => cases found
  | cons first rest =>
      obtain rfl := Option.some.inj found
      clear found
      induction rest generalizing first with
      | nil =>
          intro other only
          rw [List.mem_singleton.mp only]
          exact le_rfl
      | cons next rest inductionHypothesis =>
          intro other member
          rw [List.foldl_cons]
          have least := inductionHypothesis (if stamp next.2 < stamp first.2 then next else first)
          have chosen : stamp (if stamp next.2 < stamp first.2 then next else first).2 ≤ stamp first.2 ∧
              stamp (if stamp next.2 < stamp first.2 then next else first).2 ≤ stamp next.2 := by
            split_ifs with earlier
            · exact ⟨Int.le_of_lt earlier, le_rfl⟩
            · exact ⟨le_rfl, Int.not_lt.mp earlier⟩
          have best := least _ List.mem_cons_self
          rcases List.mem_cons.mp member with rfl | later
          · exact best.trans chosen.1
          · rcases List.mem_cons.mp later with rfl | later
            · exact best.trans chosen.2
            · exact least other (List.mem_cons_of_mem _ later)

/-- The filter drops something exactly when something is stale. -/
theorem size_retain_lt_iff {staleBefore : Ts} :
    (retainEntries map fun _ value => decide (staleBefore ≤ stamp value)).size < map.size ↔
      ∃ (key : K) (value : V), map[key]? = some value ∧ stamp value < staleBefore := by
  have kept : (retainEntries map fun _ value => decide (staleBefore ≤ stamp value)).size = map.size ↔
      ∀ (key : K) (value : V), map[key]? = some value → staleBefore ≤ stamp value := by
    rw [retainEntries, TreeMap.size_filter_eq_size_iff]
    constructor
    · intro all key value stored
      obtain ⟨inside, rfl⟩ := TreeMap.getElem?_eq_some_iff.mp stored
      exact of_decide_eq_true (all key inside)
    · intro fresh key inside
      exact decide_eq_true (fresh key _ (TreeMap.getElem?_eq_some_getElem inside))
  have bound : (retainEntries map fun _ value => decide (staleBefore ≤ stamp value)).size ≤ map.size :=
    TreeMap.size_filter_le_size
  rw [Nat.lt_iff_le_and_ne, and_iff_right bound, ne_eq, kept]
  simp

/-- Without stale entries the filter keeps all. -/
theorem retain_equiv {staleBefore : Ts}
    (fresh : ¬ ∃ (key : K) (value : V), map[key]? = some value ∧ stamp value < staleBefore) :
    (retainEntries map fun _ value => decide (staleBefore ≤ stamp value)).Equiv map := by
  refine TreeMap.filter_equiv_self_iff.mpr fun key inside => decide_eq_true ?_
  by_contra stale
  exact fresh ⟨key, _, TreeMap.getElem?_eq_some_getElem inside, Int.not_le.mp stale⟩

omit [TransOrd K] in
theorem strideOldest_of_size_lt (few : map.size < stride) : StrideOldest stamp stride map := by
  intro index place entry other found _ multiple
  obtain ⟨inside, -⟩ := List.getElem?_eq_some_iff.mp found
  rw [TreeMap.length_toList] at inside
  rw [Nat.mod_eq_of_lt (by omega)] at multiple
  cases multiple

section Erasing

variable {α : Type} (keyOf : α → K) (chosen : α → Prop) [DecidablePred chosen] {entries : List α}

theorem foldl_erase_of_none (absent : map[key]? = none) :
    (entries.foldl (fun kept entry => if chosen entry then kept.erase (keyOf entry) else kept)
      map)[key]? = none := by
  induction entries generalizing map with
  | nil => exact absent
  | cons entry entries inductionHypothesis =>
      rw [List.foldl_cons]
      apply inductionHypothesis
      split_ifs
      · rw [TreeMap.getElem?_erase, absent, ite_self]
      · exact absent

theorem foldl_erase_of_chosen {entry : α} (member : entry ∈ entries) (picked : chosen entry) :
    (entries.foldl (fun kept entry => if chosen entry then kept.erase (keyOf entry) else kept)
      map)[keyOf entry]? = none := by
  induction entries generalizing map with
  | nil => cases member
  | cons first entries inductionHypothesis =>
      rw [List.foldl_cons]
      rcases List.mem_cons.mp member with rfl | later
      · apply foldl_erase_of_none
        rw [if_pos picked, TreeMap.getElem?_erase_self]
      · exact inductionHypothesis later

variable [LawfulEqOrd K]

theorem foldl_erase_of_spared (spared : ∀ entry ∈ entries, chosen entry → keyOf entry ≠ key) :
    (entries.foldl (fun kept entry => if chosen entry then kept.erase (keyOf entry) else kept)
      map)[key]? = map[key]? := by
  induction entries generalizing map with
  | nil => rfl
  | cons entry entries inductionHypothesis =>
      rw [List.foldl_cons, inductionHypothesis fun other later =>
        spared other (List.mem_cons_of_mem _ later)]
      split_ifs with picked
      · rw [TreeMap.getElem?_erase, if_neg]
        exact fun same => spared entry List.mem_cons_self picked (LawfulEqOrd.eq_of_compare same)
      · rfl

end Erasing

variable [LawfulEqOrd K]

theorem exists_place (stored : map[key]? = some value) :
    ∃ index : Nat, map.toList[index]? = some (key, value) :=
  List.mem_iff_getElem?.mp (TreeMap.mem_toList_iff_getElem?_eq_some.mpr stored)

/-- The strided sweep drops an entry exactly when its place in key order is a multiple. -/
theorem getElem?_dropStride_eq {index : Nat} (found : map.toList[index]? = some (key, value)) :
    (dropStride map stride)[key]? = if (index + 1) % stride = 0 then none else some value := by
  unfold dropStride
  split_ifs with multiple
  · exact foldl_erase_of_chosen (fun entry : (K × V) × Nat => entry.1.1)
      (fun entry => (entry.2 + 1) % stride = 0)
      (List.mk_mem_zipIdx_iff_getElem?.mpr found) multiple
  · have stored : map[key]? = some value :=
      TreeMap.mem_toList_iff_getElem?_eq_some.mp (List.mem_of_getElem? found)
    rw [← stored]
    apply foldl_erase_of_spared (fun entry : (K × V) × Nat => entry.1.1)
      (fun entry => (entry.2 + 1) % stride = 0)
    rintro ⟨⟨other, kept⟩, place⟩ listed picked rfl
    rw [place_unique found (List.mk_mem_zipIdx_iff_getElem?.mp listed)] at multiple
    exact multiple picked

/-- The strided sweep drops the oldest exactly when they stand at the multiples. -/
theorem dropStride_oldest_iff :
    DropsOldest stamp map (dropStride map stride) ↔ StrideOldest stamp stride map := by
  constructor
  · rintro oldest index place ⟨key, value⟩ ⟨other, kept⟩ found foundToo multiple between
    refine oldest key value (TreeMap.mem_toList_iff_getElem?_eq_some.mp (List.mem_of_getElem? found))
      (by rw [getElem?_dropStride_eq found, if_pos multiple]) other kept ?_
    rw [getElem?_dropStride_eq foundToo, if_neg between]
  · intro oldest key value stored dropped other kept left
    obtain ⟨index, found⟩ := exists_place stored
    obtain ⟨place, foundToo⟩ := exists_place (getElem?_dropStride left)
    rw [getElem?_dropStride_eq found] at dropped
    rw [getElem?_dropStride_eq foundToo] at left
    refine oldest index place _ _ found foundToo ?_ ?_
    · by_contra between
      rw [if_neg between] at dropped
      cases dropped
    · intro multiple
      rw [if_pos multiple] at left
      cases left

theorem size_dropStride_lt {index : Nat} {entry : K × V} (found : map.toList[index]? = some entry)
    (multiple : (index + 1) % stride = 0) : (dropStride map stride).size < map.size := by
  classical
  obtain ⟨key, value⟩ := entry
  have stored : key ∈ map := by
    rw [TreeMap.mem_iff_isSome_getElem?,
      TreeMap.mem_toList_iff_getElem?_eq_some.mp (List.mem_of_getElem? found)]
    rfl
  have gone : key ∉ dropStride map stride := by
    rw [TreeMap.mem_iff_isSome_getElem?, getElem?_dropStride_eq found, if_pos multiple]
    exact Bool.false_ne_true
  rw [← card_keySet, ← card_keySet]
  refine Finset.card_lt_card ⟨fun other inside => ?_, fun included => gone ?_⟩
  · rw [keySet, List.mem_toFinset, TreeMap.mem_keys] at inside ⊢
    obtain ⟨kept, left⟩ := Option.isSome_iff_exists.mp (TreeMap.mem_iff_isSome_getElem?.mp inside)
    rw [TreeMap.mem_iff_isSome_getElem?, getElem?_dropStride left]
    rfl
  · have inside := included (by rwa [keySet, List.mem_toFinset, TreeMap.mem_keys] : key ∈ keySet map)
    rwa [keySet, List.mem_toFinset, TreeMap.mem_keys] at inside

theorem retain_oldest {staleBefore : Ts} : DropsOldest stamp map
    (retainEntries map fun _ value => decide (staleBefore ≤ stamp value)) := by
  intro key value stored dropped other kept left
  rw [retainEntries, TreeMap.getElem?_filter'] at dropped left
  rw [stored, Option.filter_eq_none_iff] at dropped
  have before := dropped value rfl
  have after := (Option.filter_eq_some_iff.mp left).2
  simp only [decide_eq_true_eq] at before after
  exact Int.le_of_lt (Int.lt_of_lt_of_le (Int.not_le.mp before) after)

/-- A sweep that drops nothing reached no multiple of the stride. -/
theorem stride_beyond (swept : ¬ (dropStride map stride).size < map.size) {index : Nat}
    {entry : K × V} (found : map.toList[index]? = some entry) : (index + 1) % stride ≠ 0 :=
  fun multiple => swept (size_dropStride_lt found multiple)

/-- After a sweep that drops nothing, the oldest of all is chosen. -/
theorem erase_oldest (swept : ¬ (dropStride map stride).size < map.size) {entry : K × V}
    (chosen : oldest stamp (dropStride map stride).toList = some entry) :
    DropsOldest stamp map ((dropStride map stride).erase entry.1) := by
  intro key value stored dropped other kept left
  have listed := oldest_mem chosen
  have least := oldest_least chosen (other, kept)
    (TreeMap.mem_toList_iff_getElem?_eq_some.mpr (getElem?_of_erase left))
  obtain ⟨index, found⟩ := exists_place stored
  rw [TreeMap.getElem?_erase, getElem?_dropStride_eq found, if_neg (stride_beyond swept found),
    ite_eq_left_iff] at dropped
  obtain ⟨chosenKey, oldestValue⟩ := entry
  have same : chosenKey = key := by
    by_contra different
    cases dropped fun equal => different (LawfulEqOrd.eq_of_compare equal)
  subst same
  have oldestStored := getElem?_dropStride (TreeMap.mem_toList_iff_getElem?_eq_some.mp listed)
  rw [Option.some.inj (stored.symm.trans oldestStored)]
  exact least

/-- **Recency of an eviction.** What is dropped is older than what is kept exactly when something was
stale, or the entries at the multiples of the stride are the oldest. -/
theorem evictForCapacity_oldest_iff (map : TreeMap K V) (staleBefore : Ts) (stride : Nat)
    (stamp : V → Ts) :
    DropsOldest stamp map (evictForCapacity map staleBefore stride stamp).1 ↔
      (∃ (key : K) (value : V), map[key]? = some value ∧ stamp value < staleBefore) ∨
        StrideOldest stamp (max stride 2) map := by
  unfold evictForCapacity
  dsimp only
  split_ifs with empty stale strided
  · have nothing : map.toList = [] := by
      rw [← List.isEmpty_iff, TreeMap.isEmpty_toList]
      exact empty
    refine iff_of_true (fun key value stored => ?_) (.inr fun index place entry other found => ?_)
    · obtain ⟨index, found⟩ := exists_place stored
      rw [nothing] at found
      cases found
    · rw [nothing] at found
      cases found
  · exact iff_of_true retain_oldest (.inl (size_retain_lt_iff.mp stale))
  all_goals
    rw [size_retain_lt_iff] at stale
    have same := retain_equiv stale
    rw [or_iff_right stale, ← DropsOldest.congr same, ← StrideOldest.congr same]
  · exact dropStride_oldest_iff
  · rw [← same.size_eq] at strided
    refine iff_of_true ?_ fun index place entry other found _ multiple =>
      absurd multiple (stride_beyond strided found)
    split
    · rename_i key value chosen
      exact erase_oldest strided chosen
    · intro key value stored dropped
      obtain ⟨index, found⟩ := exists_place stored
      rw [getElem?_dropStride_eq found, if_neg (stride_beyond strided found)] at dropped
      cases dropped

end Recency

/-! ## What an eviction removes -/

section Removal

variable {stamp : V → Ts} {staleBefore : Ts} {stride : Nat}

/-- Some entry is older than the threshold. -/
def HoldsStale (stamp : V → Ts) (staleBefore : Ts) (map : TreeMap K V) : Prop :=
  ∃ (key : K) (value : V), map[key]? = some value ∧ stamp value < staleBefore

/-- What the eviction of a table leaves, and the number it returns. -/
structure Evicts (stamp : V → Ts) (staleBefore : Ts) (stride : Nat) (map after : TreeMap K V)
    (count : Nat) : Prop where
  subMap : ∀ (key : K) (value : V), after[key]? = some value → map[key]? = some value
  counted : after.size + count = map.size
  progress : map.isEmpty = false → 0 < count
  /-- With stale entries, these go. -/
  stale : HoldsStale stamp staleBefore map → ∀ (key : K) (value : V), map[key]? = some value →
    (after[key]? = none ↔ stamp value < staleBefore)
  /-- Without, the entries at the multiples of the stride in key order. -/
  strided : ¬ HoldsStale stamp staleBefore map → max stride 2 ≤ map.size →
    ∀ (index : Nat) (key : K) (value : V), map.toList[index]? = some (key, value) →
      (after[key]? = none ↔ (index + 1) % max stride 2 = 0)
  /-- A table below the stride loses one entry that no other is older than. -/
  single : ¬ HoldsStale stamp staleBefore map → map.isEmpty = false → map.size < max stride 2 →
    ∃ (key : K) (value : V), map[key]? = some value ∧ after.Equiv (map.erase key) ∧
      ∀ (other : K) (kept : V), map[other]? = some kept → stamp value ≤ stamp kept

variable [LawfulEqOrd K]

/-- The filter drops what is stale. -/
theorem getElem?_retain_eq_none_iff (stored : map[key]? = some value) :
    (retainEntries map fun _ value => decide (staleBefore ≤ stamp value))[key]? = none ↔
      stamp value < staleBefore := by
  rw [retainEntries, TreeMap.getElem?_filter', stored, Option.filter_eq_none_iff]
  constructor
  · intro dropped
    have rejected := dropped value rfl
    rw [decide_eq_true_eq] at rejected
    exact Int.not_le.mp rejected
  · rintro stale kept same
    obtain rfl := Option.some.inj same
    rw [decide_eq_true_eq]
    exact Int.not_le.mpr stale

/-- Below the stride the strided sweep drops nothing. -/
theorem dropStride_equiv (few : map.size < stride) : (dropStride map stride).Equiv map := by
  refine TreeMap.Equiv.of_forall_constGet?_eq fun key => ?_
  cases stored : map[key]? with
  | none =>
      refine Option.eq_none_iff_forall_ne_some.mpr fun value left => ?_
      exact Option.some_ne_none value ((getElem?_dropStride left).symm.trans stored)
  | some value =>
      obtain ⟨index, found⟩ := exists_place stored
      obtain ⟨inside, -⟩ := List.getElem?_eq_some_iff.mp found
      rw [TreeMap.length_toList] at inside
      rw [getElem?_dropStride_eq found, if_neg]
      rw [Nat.mod_eq_of_lt (by omega)]
      exact Nat.succ_ne_zero index

/-- The strided sweep drops something exactly when the table reaches the stride. -/
theorem size_dropStride_lt_iff (positive : 0 < stride) :
    (dropStride map stride).size < map.size ↔ stride ≤ map.size := by
  constructor
  · intro swept
    by_contra few
    rw [(dropStride_equiv (Nat.not_le.mp few)).size_eq] at swept
    exact Nat.lt_irrefl _ swept
  · intro reached
    have inside : stride - 1 < map.toList.length := by
      rw [TreeMap.length_toList]
      omega
    refine size_dropStride_lt (List.getElem?_eq_getElem inside) ?_
    rw [Nat.sub_add_cancel positive, Nat.mod_self]

omit [LawfulEqOrd K] in
/-- The first pass, where something is stale. -/
theorem evictForCapacity_of_stale (stale : HoldsStale stamp staleBefore map) :
    (evictForCapacity map staleBefore stride stamp).1 =
      retainEntries map fun _ value => decide (staleBefore ≤ stamp value) := by
  have fewer := size_retain_lt_iff.mpr stale
  have filled : ¬ map.isEmpty = true := by
    rw [TreeMap.isEmpty_eq_size_eq_zero, beq_iff_eq]
    omega
  rw [evictForCapacity, if_neg filled]
  exact congrArg Prod.fst (if_pos fewer)

/-- The second pass, where nothing is stale and the table reaches the stride. -/
theorem evictForCapacity_of_fresh (fresh : ¬ HoldsStale stamp staleBefore map)
    (reached : max stride 2 ≤ map.size) :
    (evictForCapacity map staleBefore stride stamp).1 =
      dropStride (retainEntries map fun _ value => decide (staleBefore ≤ stamp value))
        (max stride 2) := by
  have same := retain_equiv fresh
  have kept := mt size_retain_lt_iff.mp fresh
  have swept := (size_dropStride_lt_iff (by omega)).mpr (same.size_eq.symm ▸ reached)
  rw [same.size_eq] at swept
  have filled : ¬ map.isEmpty = true := by
    rw [TreeMap.isEmpty_eq_size_eq_zero, beq_iff_eq]
    omega
  rw [evictForCapacity, if_neg filled]
  dsimp only
  rw [if_neg kept, if_pos swept]

/-- Below the stride the second pass drops nothing, and the oldest entry goes. -/
theorem evictForCapacity_of_few (fresh : ¬ HoldsStale stamp staleBefore map)
    (filled : map.isEmpty = false) (few : map.size < max stride 2) :
    ∃ entry ∈ map.toList, (∀ other ∈ map.toList, stamp entry.2 ≤ stamp other.2) ∧
      (evictForCapacity map staleBefore stride stamp).1.Equiv (map.erase entry.1) := by
  have same := retain_equiv fresh
  have kept := mt size_retain_lt_iff.mp fresh
  rw [evictForCapacity, if_neg (by simp [filled])]
  dsimp only
  generalize retainEntries map (fun _ value => decide (staleBefore ≤ stamp value)) = rest at same kept ⊢
  have swept := (dropStride_equiv (same.size_eq.symm ▸ few)).trans same
  rw [if_neg kept, if_neg (by simp [swept.size_eq]), swept.toList_eq]
  cases chosen : oldest stamp map.toList with
  | none =>
      cases listed : map.toList with
      | nil =>
          rw [← TreeMap.isEmpty_toList, listed] at filled
          cases filled
      | cons first others =>
          rw [listed] at chosen
          cases chosen
  | some entry => exact ⟨entry, oldest_mem chosen, oldest_least chosen, swept.erase entry.1⟩

/-- **Bounded eviction.** An eviction keeps a part of the table and counts what it removed: the
stale entries if there are any, else every `stride`-th one, else a single oldest one. -/
theorem evictForCapacity_evicts (map : TreeMap K V) (staleBefore : Ts) (stride : Nat)
    (stamp : V → Ts) :
    Evicts stamp staleBefore stride map (evictForCapacity map staleBefore stride stamp).1
      (evictForCapacity map staleBefore stride stamp).2 := by
  have counts : (evictForCapacity map staleBefore stride stamp).1.size +
      (evictForCapacity map staleBefore stride stamp).2 = map.size ∧
        (map.isEmpty = false → 0 < (evictForCapacity map staleBefore stride stamp).2) := by
    cases empty : map.isEmpty with
    | true => simp [evictForCapacity, empty]
    | false =>
        have sizes := evictForCapacity_size staleBefore stride stamp empty
        omega
  refine ⟨fun _ _ => getElem?_evictForCapacity, counts.1, counts.2, ?_, ?_, ?_⟩
  · intro stale key value stored
    rw [evictForCapacity_of_stale stale, getElem?_retain_eq_none_iff stored]
  · intro fresh reached index key value found
    rw [← (retain_equiv fresh).toList_eq] at found
    rw [evictForCapacity_of_fresh fresh reached, getElem?_dropStride_eq found]
    split_ifs with multiple
    · exact iff_of_true rfl multiple
    · exact iff_of_false id multiple
  · intro fresh filled few
    obtain ⟨⟨key, value⟩, listed, least, same⟩ := evictForCapacity_of_few fresh filled few
    exact ⟨key, value, TreeMap.mem_toList_iff_getElem?_eq_some.mp listed, same, fun other kept stored =>
      least (other, kept) (TreeMap.mem_toList_iff_getElem?_eq_some.mpr stored)⟩

/-- A table of three entries. -/
def threeEntries : TreeMap Nat Ts := .ofList [(1, (600 : Ts)), (2, 700), (3, 650)]

/-- Every second one of three fresh entries goes, and that is one. -/
theorem second_of_three_goes :
    (evictForCapacity threeEntries 500 0 id).1[2]? = none ∧
      (evictForCapacity threeEntries 500 0 id).2 = 1 := by
  have evicts := evictForCapacity_evicts threeEntries 500 0 id
  have fresh : ¬ HoldsStale id 500 threeEntries := by
    rintro ⟨key, value, stored, old⟩
    have listed : (key, value) ∈ [(1, (600 : Ts)), (2, 700), (3, 650)] :=
      TreeMap.mem_toList_iff_getElem?_eq_some.mpr stored
    simp only [List.mem_cons, Prod.mk.injEq, List.not_mem_nil, or_false] at listed
    obtain ⟨-, rfl⟩ | ⟨-, rfl⟩ | ⟨-, rfl⟩ := listed <;> exact absurd old (by decide)
  exact ⟨(evicts.strided fresh (by decide) 1 2 700 rfl).mpr rfl, by decide +kernel⟩

end Removal

end RecurseX
