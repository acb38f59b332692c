import Mathlib.Data.List.Sort

/-!
# Capacity-bounded maps with a rank index

An ordered map beside a second ordered index by rank, so that the entry of
lowest rank is found without a scan. `RankedMap.Indexed` says that the two
structures agree; every operation keeps it, and on indexed maps an insert into
a full map really makes room.
-/

namespace RecurseX.Library

open Std

/-- How a value names its key and its rank. -/
structure Ranking (K R V : Type) where
  key : V → K
  rank : V → R

/-- Rank first, then key. -/
def rankOrder {K R : Type} [Ord K] [Ord R] : R × K → R × K → Ordering :=
  compareLex (compareOn Prod.fst) (compareOn Prod.snd)

instance {K R : Type} [Ord K] [Ord R] [TransOrd K] [TransOrd R] :
    TransCmp (rankOrder (K := K) (R := R)) :=
  inferInstanceAs (TransCmp (compareLex (compareOn Prod.fst) (compareOn Prod.snd)))

instance {K R : Type} [Ord K] [Ord R] [LawfulEqOrd K] [LawfulEqOrd R] :
    LawfulEqCmp (rankOrder (K := K) (R := R)) where
  compare_self := by simp [rankOrder, compareLex, compareOn]
  eq_of_compare same := by
    obtain ⟨ranks, keys⟩ := compareLex_eq_eq.mp same
    exact Prod.ext (LawfulEqOrd.eq_of_compare ranks) (LawfulEqOrd.eq_of_compare keys)

/-- The entries by key, and the index by rank. -/
structure RankedMap (K R V : Type) [Ord K] [Ord R] where
  map : TreeMap K V
  rank : TreeSet (R × K) rankOrder
  capacity : Nat

namespace RankedMap

variable {K R V : Type} [Ord K] [Ord R]

/-- An empty map. -/
def new (capacity : Nat) : RankedMap K R V := ⟨∅, ∅, capacity⟩

/-- How many entries there are. -/
def len (self : RankedMap K R V) : Nat := self.map.size

/-- The entry stored under a key. -/
def get? (self : RankedMap K R V) (key : K) : Option V := self.map[key]?

variable (ranking : Ranking K R V)

/-- Remove and return the entry of a key. -/
def remove (self : RankedMap K R V) (key : K) : Option V × RankedMap K R V :=
  match self.map[key]? with
  | some entry =>
      (some entry, { self with
        map := self.map.erase key
        rank := self.rank.erase (ranking.rank entry, key) })
  | none => (none, self)

/-- Take index entries from the bottom until one has a live entry. Every turn
shortens the index, so its size is enough fuel. -/
def popLowestLoop : Nat → RankedMap K R V → Option V × RankedMap K R V
  | 0, self => (none, self)
  | fuel + 1, self =>
      -- `toList` is sorted, and unlike `min?` it is structurally recursive.
      match self.rank.toList.head? with
      | none => (none, self)
      | some (rank, key) =>
          let self := { self with rank := self.rank.erase (rank, key) }
          match self.map[key]? with
          | some entry => (some entry, { self with map := self.map.erase key })
          | none => popLowestLoop fuel self

/-- Remove and return the entry of lowest rank. -/
def popLowest (self : RankedMap K R V) : Option V × RankedMap K R V :=
  popLowestLoop self.rank.size self

/-- Store an entry and its index pair. -/
def put (self : RankedMap K R V) (entry : V) : RankedMap K R V :=
  { self with
    map := self.map.insert (ranking.key entry) entry
    rank := self.rank.insert (ranking.rank entry, ranking.key entry) }

/-- Insert or replace an entry. When the map is full and the key is new, the
entry of lowest rank is evicted and returned. -/
def insert (self : RankedMap K R V) (entry : V) : Option V × RankedMap K R V :=
  let (victim, self) :=
    if 0 < self.capacity ∧ self.map.contains (ranking.key entry) = false ∧
        self.capacity ≤ self.map.size then
      self.popLowest
    else (none, self)
  -- An older entry of the key goes from both structures.
  let (_, self) := self.remove ranking (ranking.key entry)
  (victim, self.put ranking entry)

/-- Change an entry in place. -/
def modify (self : RankedMap K R V) (key : K) (change : V → V) : RankedMap K R V :=
  match self.map[key]? with
  | some entry => { self with map := self.map.insert key (change entry) }
  | none => self

/-- Keep only the entries the predicate accepts. -/
def retain (self : RankedMap K R V) (keep : K → V → Bool) : RankedMap K R V :=
  let dead := (self.map.toList.filter fun entry => !keep entry.1 entry.2).map Prod.fst
  dead.foldl (fun self key => (self.remove ranking key).2) self

/-- Every entry is stored under its own key, and the index holds exactly the
rank and key of every entry. -/
structure Indexed (ranked : RankedMap K R V) : Prop where
  keyed : ∀ {key entry}, ranked.get? key = some entry → ranking.key entry = key
  index : ∀ {rank key}, (rank, key) ∈ ranked.rank ↔
    ∃ entry, ranked.get? key = some entry ∧ ranking.rank entry = rank

set_option linter.unusedSectionVars false

variable [TransOrd K] [LawfulEqOrd K] [TransOrd R] [LawfulEqOrd R]
variable {ranking} {self : RankedMap K R V} {key other : K} {entry : V}

theorem new_indexed (capacity : Nat) : (new capacity : RankedMap K R V).Indexed ranking where
  keyed := by simp [get?, new]
  index := by simp [get?, new]

@[simp] theorem get?_new (capacity : Nat) (key : K) :
    (new capacity : RankedMap K R V).get? key = none := by
  simp [get?, new]

@[simp] theorem len_new (capacity : Nat) : (new capacity : RankedMap K R V).len = 0 := rfl

theorem mem_map_iff : key ∈ self.map ↔ ∃ entry, self.get? key = some entry := by
  rw [TreeMap.mem_iff_isSome_getElem?, Option.isSome_iff_exists]
  rfl

theorem contains_eq_false_iff : self.map.contains key = false ↔ self.get? key = none := by
  rw [get?, ← Bool.not_eq_true, TreeMap.contains_iff_mem, TreeMap.mem_iff_isSome_getElem?]
  simp

private theorem getElem?_erase_of_ne {map : TreeMap K V} (different : other ≠ key) :
    (map.erase key)[other]? = map[other]? := by
  rw [TreeMap.getElem?_erase, if_neg fun same => different (LawfulEqOrd.eq_of_compare same).symm]

private theorem getElem?_insert_of_ne {map : TreeMap K V} (different : other ≠ key) :
    (map.insert key entry)[other]? = map[other]? := by
  rw [TreeMap.getElem?_insert, if_neg fun same => different (LawfulEqOrd.eq_of_compare same).symm]

/-! ## Removal -/

@[simp] theorem remove_fst (ranking : Ranking K R V) :
    (self.remove ranking key).1 = self.get? key := by
  unfold remove get?
  split <;> simp_all

@[simp] theorem remove_capacity : (self.remove ranking key).2.capacity = self.capacity := by
  unfold remove
  split <;> rfl

@[simp] theorem get?_remove_self : (self.remove ranking key).2.get? key = none := by
  unfold remove get?
  split
  · simp
  · assumption

theorem get?_remove_of_ne (different : other ≠ key) :
    (self.remove ranking key).2.get? other = self.get? other := by
  unfold remove get?
  split
  · exact getElem?_erase_of_ne different
  · rfl

theorem len_remove_le (self : RankedMap K R V) (ranking : Ranking K R V) (key : K) :
    (self.remove ranking key).2.len ≤ self.len := by
  unfold remove len
  split
  · simp only [TreeMap.size_erase]
    split <;> omega
  · exact Nat.le_refl _

/-- Erasing an entry and its index pair together keeps the index. -/
theorem Indexed.erase (indexed : self.Indexed ranking) (found : self.get? key = some entry) :
    Indexed ranking { self with
      map := self.map.erase key
      rank := self.rank.erase (ranking.rank entry, key) } where
  keyed {other} _ stored := by
    by_cases same : other = key
    · simp [get?, same] at stored
    · exact indexed.keyed ((getElem?_erase_of_ne same).symm.trans stored)
  index {rank other} := by
    simp only [TreeSet.mem_erase, ne_eq, LawfulEqCmp.compare_eq_iff_eq, Prod.mk.injEq,
      indexed.index]
    by_cases same : other = key
    · subst same
      have gone : (self.map.erase other)[other]? = none := TreeMap.getElem?_erase_self
      simp only [get?, gone, reduceCtorEq, false_and, exists_false, iff_false, not_and]
      rintro different ⟨kept, stored, ranked⟩
      obtain rfl : entry = kept := Option.some.inj (found.symm.trans stored)
      exact different ranked trivial
    · have kept : (self.map.erase key)[other]? = self.map[other]? := getElem?_erase_of_ne same
      simp only [get?, kept]
      exact ⟨fun stored => stored.2, fun stored => ⟨fun pair => same pair.2.symm, stored⟩⟩

theorem Indexed.remove (indexed : self.Indexed ranking) (key : K) :
    (self.remove ranking key).2.Indexed ranking := by
  unfold RankedMap.remove
  split
  · rename_i entry found
    exact indexed.erase found
  · exact indexed

/-! ## Eviction -/

/-- Popping from an indexed map removes an entry of it, unless it is empty. -/
theorem popLowest_cases (indexed : self.Indexed ranking) :
    (self.popLowest.1 = none ∧ self.popLowest.2 = self ∧ ∀ key, self.get? key = none) ∨
    ∃ victim, self.popLowest.1 = some victim ∧
      self.get? (ranking.key victim) = some victim ∧
      self.popLowest.2 = (self.remove ranking (ranking.key victim)).2 := by
  unfold popLowest
  cases lowest : self.rank.toList.head? with
  | none =>
      left
      have empty := TreeSet.min?_eq_none_iff.mp (TreeSet.min?_eq_head?_toList.trans lowest)
      have nothing : ∀ key, self.get? key = none := by
        intro key
        by_contra stored
        obtain ⟨entry, stored⟩ := Option.ne_none_iff_exists'.mp stored
        exact TreeSet.isEmpty_iff_forall_not_mem.mp empty _ (indexed.index.mpr ⟨entry, stored, rfl⟩)
      cases self.rank.size with
      | zero => exact ⟨rfl, rfl, nothing⟩
      | succ fuel => simp [popLowestLoop, lowest, nothing]
  | some pair =>
      right
      obtain ⟨rank, key⟩ := pair
      have member := (TreeSet.min?_eq_some_iff_mem_and_forall.mp
        (TreeSet.min?_eq_head?_toList.trans lowest)).1
      obtain ⟨victim, stored, rfl⟩ := indexed.index.mp member
      have positive : self.rank.size ≠ 0 := by
        intro none
        have empty : self.rank.isEmpty = true := by
          rw [TreeSet.isEmpty_eq_size_eq_zero]
          simpa using none
        exact TreeSet.isEmpty_iff_forall_not_mem.mp empty _ member
      obtain ⟨fuel, fuelled⟩ := Nat.exists_eq_succ_of_ne_zero positive
      have own := indexed.keyed stored
      refine ⟨victim, ?_, by rw [own]; exact stored, ?_⟩
      · simp only [get?] at stored
        simp [fuelled, popLowestLoop, lowest, stored]
      · simp only [get?] at stored
        simp [fuelled, popLowestLoop, lowest, stored, own, RankedMap.remove]

omit [LawfulEqOrd K] [LawfulEqOrd R] [TransOrd K] [TransOrd R] in
/-- The order of the index is the order of the ranks first. -/
theorem isLE_of_rankOrder {first second : R × K} (le : (rankOrder first second).isLE = true) :
    (compare first.1 second.1).isLE = true := by
  unfold rankOrder compareLex compareOn at le
  cases compared : compare first.1 second.1 with
  | lt | eq => rfl
  | gt =>
      rw [compared] at le
      cases le

/-- No entry ranks below the one that is popped. -/
theorem popLowest_lowest (indexed : self.Indexed ranking) {victim : V}
    (popped : self.popLowest.1 = some victim) (stored : self.get? key = some entry) :
    (compare (ranking.rank victim) (ranking.rank entry)).isLE = true := by
  unfold popLowest at popped
  cases size : self.rank.size with
  | zero =>
      rw [size] at popped
      cases popped
  | succ fuel =>
      rw [size, popLowestLoop] at popped
      cases lowest : self.rank.toList.head? with
      | none =>
          rw [lowest] at popped
          cases popped
      | some pair =>
          obtain ⟨member, least⟩ := TreeSet.min?_eq_some_iff_mem_and_forall.mp
            (TreeSet.min?_eq_head?_toList.trans lowest)
          obtain ⟨held, found, ranked⟩ := indexed.index.mp member
          rw [get?] at found
          simp only [lowest, found, Option.some.injEq] at popped
          rw [← popped, ranked]
          exact isLE_of_rankOrder (least _ (indexed.index.mpr ⟨entry, stored, rfl⟩))

/-! ## Insertion -/

@[simp] theorem put_capacity : (self.put ranking entry).capacity = self.capacity := rfl

@[simp] theorem get?_put_self : (self.put ranking entry).get? (ranking.key entry) = some entry :=
  TreeMap.getElem?_insert_self

theorem get?_put_of_ne (different : other ≠ ranking.key entry) :
    (self.put ranking entry).get? other = self.get? other :=
  getElem?_insert_of_ne different

/-- Putting an entry where none is keeps the index. -/
theorem Indexed.put (indexed : self.Indexed ranking) (absent : self.get? (ranking.key entry) = none) :
    (self.put ranking entry).Indexed ranking where
  keyed {other} _ stored := by
    by_cases same : other = ranking.key entry
    · subst same
      rw [get?_put_self, Option.some.injEq] at stored
      rw [stored]
    · exact indexed.keyed ((get?_put_of_ne same).symm.trans stored)
  index {rank other} := by
    have pairs : (rank, other) ∈ (self.put ranking entry).rank ↔
        (ranking.rank entry = rank ∧ ranking.key entry = other) ∨ (rank, other) ∈ self.rank := by
      simp only [RankedMap.put, TreeSet.mem_insert, LawfulEqCmp.compare_eq_iff_eq, Prod.mk.injEq]
    rw [pairs, indexed.index]
    by_cases same : other = ranking.key entry
    · subst same
      simp [absent]
    · rw [get?_put_of_ne same]
      exact ⟨fun either => either.resolve_left fun pair => same pair.2.symm, Or.inr⟩

theorem len_put (absent : self.get? (ranking.key entry) = none) :
    (self.put ranking entry).len = self.len + 1 := by
  rw [len, put, TreeMap.size_insert, contains_eq_false_iff.mpr absent]
  rfl

theorem len_remove_of_get? (ranking : Ranking K R V) (found : self.get? key = some entry) :
    (self.remove ranking key).2.len + 1 = self.len := by
  have member : self.map.contains key = true := by
    rw [TreeMap.contains_iff_mem, mem_map_iff]
    exact ⟨entry, found⟩
  have positive : self.map.size ≠ 0 := by
    intro none
    have empty : self.map.isEmpty = true := by
      rw [TreeMap.isEmpty_eq_size_eq_zero]
      simpa using none
    exact TreeMap.isEmpty_iff_forall_not_mem.mp empty key (TreeMap.contains_iff_mem.mp member)
  rw [get?] at found
  simp only [len, remove, found, TreeMap.size_erase, member, if_true]
  omega

/-- What an insert does to an indexed map: it evicts nothing, or it evicts one
entry of another key; either way the new entry then stands under its key. -/
theorem insert_cases (indexed : self.Indexed ranking) (entry : V) :
    ((self.insert ranking entry).1 = none ∧
      (self.insert ranking entry).2 =
        (self.remove ranking (ranking.key entry)).2.put ranking entry ∧
      (0 < self.capacity → self.get? (ranking.key entry) = none → self.len < self.capacity)) ∨
    ∃ victim, (self.insert ranking entry).1 = some victim ∧
      self.get? (ranking.key victim) = some victim ∧
      ranking.key victim ≠ ranking.key entry ∧ self.get? (ranking.key entry) = none ∧
      (self.insert ranking entry).2 =
        ((self.remove ranking (ranking.key victim)).2.remove ranking (ranking.key entry)).2.put
          ranking entry := by
  unfold insert
  by_cases full : 0 < self.capacity ∧ self.map.contains (ranking.key entry) = false ∧
      self.capacity ≤ self.map.size
  · rw [if_pos full]
    have absent := contains_eq_false_iff.mp full.2.1
    rcases popLowest_cases indexed with ⟨_, _, empty⟩ | ⟨victim, popped, stored, rest⟩
    · -- A map with no entry at all is not full.
      exfalso
      have none : self.map.isEmpty = true := by
        rw [TreeMap.isEmpty_iff_forall_not_mem]
        intro key member
        obtain ⟨entry, stored⟩ := mem_map_iff.mp member
        rw [empty key] at stored
        cases stored
      rw [TreeMap.isEmpty_eq_size_eq_zero] at none
      have : self.map.size = 0 := by simpa using none
      omega
    · right
      refine ⟨victim, popped, stored, ?_, absent, by simp only [rest]⟩
      intro same
      rw [same, absent] at stored
      cases stored
  · rw [if_neg full]
    left
    refine ⟨rfl, rfl, fun room absent => ?_⟩
    by_contra crowded
    exact full ⟨room, contains_eq_false_iff.mpr absent, Nat.not_lt.mp crowded⟩

theorem Indexed.insert (indexed : self.Indexed ranking) (entry : V) :
    (self.insert ranking entry).2.Indexed ranking := by
  rcases insert_cases indexed entry with ⟨_, result, _⟩ | ⟨victim, _, _, _, _, result⟩
  · rw [result]
    exact (indexed.remove _).put get?_remove_self
  · rw [result]
    exact ((indexed.remove _).remove _).put get?_remove_self

@[simp] theorem insert_capacity (indexed : self.Indexed ranking) (entry : V) :
    (self.insert ranking entry).2.capacity = self.capacity := by
  rcases insert_cases indexed entry with ⟨_, result, _⟩ | ⟨victim, _, _, _, _, result⟩ <;>
    simp [result]

/-- An insert into a map with room for anything at all keeps it within its
capacity. -/
theorem len_insert_le (indexed : self.Indexed ranking) (entry : V) (enabled : 0 < self.capacity)
    (bounded : self.len ≤ self.capacity) : (self.insert ranking entry).2.len ≤ self.capacity := by
  rcases insert_cases indexed entry with
    ⟨_, result, room⟩ | ⟨victim, _, stored, apart, absent, result⟩
  · rw [result, len_put get?_remove_self]
    cases present : self.get? (ranking.key entry) with
    | none =>
        have := room enabled present
        have := len_remove_le self ranking (ranking.key entry)
        omega
    | some old =>
        have := len_remove_of_get? ranking present
        omega
  · have shrunk := len_remove_of_get? ranking stored
    have := len_remove_le (self.remove ranking (ranking.key victim)).2 ranking (ranking.key entry)
    rw [result, len_put get?_remove_self]
    omega

/-- An empty map takes an entry whatever its capacity. -/
theorem len_insert_new (capacity : Nat) (entry : V) :
    ((new capacity : RankedMap K R V).insert ranking entry).2.len = 1 := by
  have indexed : (new capacity : RankedMap K R V).Indexed ranking := new_indexed capacity
  rcases insert_cases indexed entry with ⟨_, result, _⟩ | ⟨victim, _, stored, _⟩
  · have := len_remove_le (new capacity : RankedMap K R V) ranking (ranking.key entry)
    rw [len_new] at this
    rw [result, len_put get?_remove_self]
    omega
  · rw [get?_new] at stored
    cases stored

theorem get?_insert_self (indexed : self.Indexed ranking) (entry : V) :
    (self.insert ranking entry).2.get? (ranking.key entry) = some entry := by
  rcases insert_cases indexed entry with ⟨_, result, _⟩ | ⟨victim, _, _, _, _, result⟩ <;>
    simp [result]

/-- What an insert evicts was stored before it and is not stored after it. -/
theorem get?_insert_victim (indexed : self.Indexed ranking) {entry victim : V}
    (evicted : (self.insert ranking entry).1 = some victim) :
    self.get? (ranking.key victim) = some victim ∧
      (self.insert ranking entry).2.get? (ranking.key victim) = none := by
  rcases insert_cases indexed entry with ⟨none, _⟩ | ⟨popped, dropped, stored, apart, _, result⟩
  · rw [none] at evicted
    cases evicted
  · obtain rfl : popped = victim := Option.some.inj (dropped.symm.trans evicted)
    rw [result, get?_put_of_ne apart, get?_remove_of_ne apart, get?_remove_self]
    exact ⟨stored, rfl⟩

/-- What an insert evicts ranks below no other entry. -/
theorem insert_victim_lowest (indexed : self.Indexed ranking) {new victim : V}
    (evicted : (self.insert ranking new).1 = some victim) (stored : self.get? key = some entry) :
    (compare (ranking.rank victim) (ranking.rank entry)).isLE = true := by
  unfold insert at evicted
  split_ifs at evicted
  · exact popLowest_lowest indexed evicted stored

/-- What else is stored after an insert was stored before, and was not evicted. -/
theorem get?_insert_of_ne (indexed : self.Indexed ranking) {entry stored : V}
    (different : other ≠ ranking.key entry) :
    (self.insert ranking entry).2.get? other = some stored ↔
      self.get? other = some stored ∧ (self.insert ranking entry).1 ≠ some stored := by
  rcases insert_cases indexed entry with
    ⟨none, result, _⟩ | ⟨victim, evicted, found, _, _, result⟩
  · simp [result, get?_put_of_ne different, get?_remove_of_ne different, none]
  · rw [result, get?_put_of_ne different, get?_remove_of_ne different, evicted]
    by_cases same : other = ranking.key victim
    · subst same
      simp [found]
    · rw [get?_remove_of_ne same]
      refine ⟨fun kept => ⟨kept, ?_⟩, fun kept => kept.1⟩
      rintro ⟨⟩
      exact same (indexed.keyed kept).symm

/-! ## Changes in place and sweeps -/

theorem modify_of_get?_none {change : V → V} (missing : self.get? key = none) :
    self.modify key change = self := by
  rw [get?] at missing
  simp only [modify, missing]

theorem get?_modify_self {change : V → V} (found : self.get? key = some entry) :
    (self.modify key change).get? key = some (change entry) := by
  rw [get?] at found
  simp [modify, found, get?]

theorem get?_modify_of_ne {change : V → V} (different : other ≠ key) :
    (self.modify key change).get? other = self.get? other := by
  unfold modify get?
  split
  · exact getElem?_insert_of_ne different
  · rfl

/-- What a map holds after a change in place is the changed entry or was held before. -/
theorem get?_of_modify {change : V → V} {held : V}
    (stored : (self.modify key change).get? other = some held) :
    (other = key ∧ ∃ old, self.get? key = some old ∧ held = change old) ∨
      (other ≠ key ∧ self.get? other = some held) := by
  by_cases own : other = key
  · subst own
    cases before : self.get? other with
    | none =>
        rw [modify_of_get?_none before, before] at stored
        cases stored
    | some old =>
        rw [get?_modify_self before, Option.some.injEq] at stored
        exact .inl ⟨rfl, old, rfl, stored.symm⟩
  · rw [get?_modify_of_ne own] at stored
    exact .inr ⟨own, stored⟩

@[simp] theorem modify_capacity {change : V → V} :
    (self.modify key change).capacity = self.capacity := by
  unfold modify
  split <;> rfl

@[simp] theorem len_modify {change : V → V} : (self.modify key change).len = self.len := by
  unfold modify len
  split
  · rename_i entry found
    have member : self.map.contains key = true := by
      rw [TreeMap.contains_iff_mem, mem_map_iff]
      exact ⟨entry, found⟩
    simp [TreeMap.size_insert, member]
  · rfl

/-- A change that leaves key and rank alone keeps the index. -/
theorem Indexed.modify (indexed : self.Indexed ranking) {change : V → V}
    (sameKey : ∀ entry, ranking.key (change entry) = ranking.key entry)
    (sameRank : ∀ entry, ranking.rank (change entry) = ranking.rank entry) :
    (self.modify key change).Indexed ranking := by
  cases found : self.get? key with
  | none =>
      rwa [modify_of_get?_none found]
  | some entry =>
      have index : (self.modify key change).rank = self.rank := by
        unfold RankedMap.modify
        split <;> rfl
      constructor
      · intro other stored held
        by_cases same : other = key
        · subst same
          rw [get?_modify_self found, Option.some.injEq] at held
          rw [← held, sameKey]
          exact indexed.keyed found
        · exact indexed.keyed ((get?_modify_of_ne same).symm.trans held)
      · intro rank other
        rw [index, indexed.index]
        by_cases same : other = key
        · subst same
          rw [get?_modify_self found, found]
          simp [sameRank]
        · rw [get?_modify_of_ne same]

/-- What one sweep keeps was there before, and nothing enters. -/
theorem foldl_remove_spec (indexed : self.Indexed ranking) (dead : List K) :
    (dead.foldl (fun self key => (self.remove ranking key).2) self).Indexed ranking ∧
    (dead.foldl (fun self key => (self.remove ranking key).2) self).capacity = self.capacity ∧
    (dead.foldl (fun self key => (self.remove ranking key).2) self).len ≤ self.len ∧
    ∀ key entry, (dead.foldl (fun self key => (self.remove ranking key).2) self).get? key =
      some entry → self.get? key = some entry := by
  induction dead generalizing self with
  | nil => exact ⟨indexed, rfl, Nat.le_refl _, fun _ _ kept => kept⟩
  | cons first dead inductionHypothesis =>
      obtain ⟨stillIndexed, capacity, shorter, kept⟩ :=
        inductionHypothesis (indexed.remove first)
      refine ⟨stillIndexed, by rw [List.foldl_cons, capacity, remove_capacity],
        Nat.le_trans shorter (len_remove_le _ _ _), fun key entry found => ?_⟩
      have before := kept key entry found
      by_cases same : key = first
      · subst same
        rw [get?_remove_self] at before
        cases before
      · rwa [get?_remove_of_ne same] at before

theorem retain_spec (indexed : self.Indexed ranking) (keep : K → V → Bool) :
    (self.retain ranking keep).Indexed ranking ∧
    (self.retain ranking keep).capacity = self.capacity ∧
    (self.retain ranking keep).len ≤ self.len ∧
    ∀ key entry, (self.retain ranking keep).get? key = some entry →
      self.get? key = some entry :=
  foldl_remove_spec indexed _

end RankedMap

end RecurseX.Library
