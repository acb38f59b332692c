import RecurseX.Bounded
import RecurseX.Library.BigEndian
import RecurseX.Library.Cursor
import RecurseX.Library.ReverseIndex
import RecurseX.Resolver.Basic

/-!
# One allocation space of the fake-IP pool

Everything here works on integer keys; `Family` turns a key into an address and
back. A space keeps two maps, from keys to mappings and from names to keys.
`Space.Sound` says what every operation keeps of them.
-/

namespace RecurseX

open Library Std

/-- Which address family a synthesized answer belongs to. -/
inductive Family where
  | v4
  | v6
deriving DecidableEq, Repr

namespace Family

/-- The width of an address in this family, in octets. -/
def octets : Family → Nat
  | .v4 => 4
  | .v6 => 16

/-- The address for `key`, which must be within the family's width. -/
def addr (self : Family) (key : Nat) : IpAddr :=
  match self with
  | .v4 => .v4 ⟨bytesOfNat 4 key, length_bytesOfNat 4 key⟩
  | .v6 => .v6 ⟨bytesOfNat 16 key, length_bytesOfNat 16 key⟩

/-- The key for `ip`, or `none` when it belongs to the other family. -/
def key (self : Family) (ip : IpAddr) : Option Nat :=
  match self, ip with
  | .v4, .v4 ip => some (natOfBytes ip.1)
  | .v6, .v6 ip => some (natOfBytes ip.1)
  | _, _ => none

end Family

/-- A live fake-IP mapping. -/
structure FakeIpEntry where
  name : Name
  created : Ts
  lastAccess : Ts
deriving DecidableEq, Repr

/-- One address family's allocation space. -/
structure Space where
  family : Family
  /-- The lowest allocatable key; the network address is reserved. -/
  first : Nat
  /-- The highest allocatable key. -/
  last : Nat
  /-- The next candidate key. -/
  next : Nat
  /-- How long a mapping may sit untouched. -/
  ttlNanos : Ts
  /-- The authoritative map: address key to mapping. -/
  byKey : TreeMap Nat FakeIpEntry
  /-- The reverse index: name to address key. -/
  byName : TreeMap Name Nat
  /-- The cap on live mappings. -/
  maxEntries : Nat
  /-- Mappings dropped to stay inside the cap. -/
  evicted : Nat

namespace Space

/-- Eviction stride for a pool full of fresh entries. -/
def evictStride : Nat := 8

/-- A space over the keys from `first` to `last`. -/
def new (family : Family) (first last maxEntries : Nat) (ttlNanos : Ts) : Space where
  family := family
  first := first
  last := last
  next := first
  ttlNanos := ttlNanos
  byKey := ∅
  byName := ∅
  maxEntries := max maxEntries 1
  evicted := 0

/-- The number of usable keys in the space, as far as it can be counted. -/
def capacity (self : Space) : Nat := min (self.last - self.first + 1) usizeMax

/-- The effective cap on live mappings. -/
def cap (self : Space) : Nat := min self.maxEntries self.capacity

/-- The number of live mappings. -/
def len (self : Space) : Nat := self.byKey.size

/-- Whether `key` is inside the space, including the reserved network address. -/
def covers (self : Space) (key : Nat) : Bool := decide (self.first - 1 ≤ key ∧ key ≤ self.last)

/-- Rebuild the name index from the authoritative address index. -/
def rebuildNameIndex (self : Space) : Space :=
  { self with byName := reindex self.byKey FakeIpEntry.name }

/-- Reclaim space at the cap: stale entries first, then a stride batch if every
entry is still fresh. -/
def reclaim (self : Space) (now : Ts) : Space :=
  let cutoff := saturatingSub now self.ttlNanos
  let (byKey, freed) := evictForCapacity self.byKey cutoff evictStride FakeIpEntry.lastAccess
  if freed > 0 then ({ self with byKey, evicted := self.evicted + freed } : Space).rebuildNameIndex
  else { self with byKey }

/-- Advance the cursor to the next in-range candidate. -/
def advance (self : Space) : Space × Nat :=
  let cur := if self.next < self.first ∨ self.next > self.last then self.first else self.next
  ({ self with next := if cur ≥ self.last then self.first else cur + 1 }, cur)

/-- Try at most `limit` candidates. -/
def takeKeyLoop : (limit : Nat) → Space → Space × Option Nat
  | 0, self => (self, none)
  | limit + 1, self =>
      let (advanced, candidate) := self.advance
      if advanced.byKey.contains candidate then takeKeyLoop limit advanced
      else (advanced, some candidate)

/-- The next free key, scanning at most `len + 1` candidates. -/
def takeKey (self : Space) : Space × Option Nat := takeKeyLoop (self.byKey.size + 1) self

/-- Note that the mapping at `key` is in use. -/
def touch (self : Space) (key : Nat) (now : Ts) : Space :=
  { self with byKey := self.byKey.modify key fun entry => { entry with lastAccess := now } }

/-- Enter a mapping in both maps. -/
def enter (self : Space) (name : Name) (key : Nat) (now : Ts) : Space :=
  { self with
    byKey := self.byKey.insert key { name, created := now, lastAccess := now }
    byName := self.byName.insert name key }

/-- Assign, or fetch again, the address for `name`. -/
def allocate (self : Space) (name : Name) (now : Ts) : Space × Result IpAddr :=
  match self.byName[name]? with
  | some key => (self.touch key now, .ok (self.family.addr key))
  | none =>
      let roomy := if self.byKey.size ≥ self.cap then self.reclaim now else self
      match roomy.takeKey with
      | (scanned, none) =>
          (scanned, .error (.internal "fake-ip space reported room but had no free key"))
      | (scanned, some key) => (scanned.enter name key now, .ok (scanned.family.addr key))

/-- The name that owns `key`, refreshing its recency. -/
def lookup (self : Space) (key : Nat) (now : Ts) : Space × Option Name :=
  match self.byKey[key]? with
  | none => (self, none)
  | some entry => (self.touch key now, some entry.name)

/-- Record a mapping loaded from a snapshot. -/
def restore (self : Space) (name : Name) (key : Nat) (now : Ts) : Space × Bool :=
  if !self.covers key || decide (key < self.first) then (self, false)
  else if self.byKey[key]?.any (fun existing => existing.name ≠ name) then (self, false)
  else if self.byName[name]?.any (fun mapped => mapped ≠ key) then (self, false)
  else (self.enter name key now, true)

/-- Drop mappings untouched for longer than the TTL. Returns how many. -/
def cleanupExpired (self : Space) (now : Ts) : Space × Nat :=
  let cutoff := saturatingSub now self.ttlNanos
  let kept := retainEntries self.byKey fun _ entry => decide (cutoff ≤ entry.lastAccess)
  let swept : Space := { self with byKey := kept }
  (if kept.size ≠ self.byKey.size then swept.rebuildNameIndex else swept,
    self.byKey.size - kept.size)

/-- Forget one mapping. -/
def release (self : Space) (name : Name) : Space × Option Nat :=
  match self.byName[name]? with
  | none => (self, none)
  | some key =>
      ({ self with byName := self.byName.erase name, byKey := self.byKey.erase key }, some key)

/-- Forget everything. -/
def clear (self : Space) : Space := { self with byKey := ∅, byName := ∅ }

/-- Two spaces are laid out over the same keys with the same cap. -/
structure SameLayout (left right : Space) : Prop where
  family : left.family = right.family
  first : left.first = right.first
  last : left.last = right.last
  maxEntries : left.maxEntries = right.maxEntries

/-- The layout has a usable key, and its keys are within the width of the family. -/
structure Usable (space : Space) : Prop where
  ordered : space.first ≤ space.last
  width : space.last < 256 ^ space.family.octets
  maxEntries : 1 ≤ space.maxEntries

/-- The two maps are inverse to each other and every key is in the range. -/
structure Sound (space : Space) : Prop where
  indexed : IndexedBy space.byKey FakeIpEntry.name space.byName
  inRange : ∀ {key entry}, space.byKey[key]? = some entry → space.first ≤ key ∧ key ≤ space.last

variable {space part : Space} {key : Nat} {name : Name} {now : Ts} {entry : FakeIpEntry}

theorem SameLayout.refl (space : Space) : space.SameLayout space := ⟨rfl, rfl, rfl, rfl⟩

theorem SameLayout.trans {first second third : Space} (one : first.SameLayout second)
    (two : second.SameLayout third) : first.SameLayout third where
  family := one.family.trans two.family
  first := one.first.trans two.first
  last := one.last.trans two.last
  maxEntries := one.maxEntries.trans two.maxEntries

theorem SameLayout.usable (same : part.SameLayout space) (usable : space.Usable) : part.Usable where
  ordered := by rw [same.first, same.last]; exact usable.ordered
  width := by rw [same.last, same.family]; exact usable.width
  maxEntries := by rw [same.maxEntries]; exact usable.maxEntries

theorem SameLayout.cap (same : part.SameLayout space) : part.cap = space.cap := by
  rw [Space.cap, Space.capacity, same.first, same.last, same.maxEntries]
  rfl

/-- A part of a sound space, with its own index, is sound. -/
theorem Sound.of_part (sound : space.Sound) (same : part.SameLayout space)
    (included : ∀ {key : Nat} {entry : FakeIpEntry}, part.byKey[key]? = some entry →
      space.byKey[key]? = some entry)
    (indexed : IndexedBy part.byKey FakeIpEntry.name part.byName) : part.Sound where
  indexed := indexed
  inRange found := by
    rw [same.first, same.last]
    exact sound.inRange (included found)

/-- The index of a part may be computed anew. -/
theorem Sound.rebuild (sound : space.Sound) (same : part.SameLayout space)
    (included : ∀ {key : Nat} {entry : FakeIpEntry}, part.byKey[key]? = some entry →
      space.byKey[key]? = some entry) : part.rebuildNameIndex.Sound :=
  sound.of_part ⟨same.family, same.first, same.last, same.maxEntries⟩ included
    (sound.indexed.reindex included)

theorem sound_new (family : Family) (first last maxEntries : Nat) (ttlNanos : Ts) :
    (Space.new family first last maxEntries ttlNanos).Sound where
  indexed := indexedBy_empty
  inRange found := by simp [Space.new] at found

/-- A space holds no more mappings than it has keys. -/
theorem Sound.size_le (sound : space.Sound) : space.byKey.size ≤ space.last - space.first + 1 := by
  have nodup : space.byKey.keys.Nodup :=
    TreeMap.distinct_keys.imp fun {_ _} apart same => apart (by rw [same]; exact ReflOrd.compare_self)
  have included : space.byKey.keys ⊆ List.range' space.first (space.last - space.first + 1) := by
    intro key listed
    obtain ⟨entry, found⟩ := Option.isSome_iff_exists.mp
      (TreeMap.mem_iff_isSome_getElem?.mp (TreeMap.mem_keys.mp listed))
    have within := sound.inRange found
    rw [List.mem_range'_1]
    omega
  have bounded := (nodup.subperm included).length_le
  rwa [List.length_range', TreeMap.length_keys] at bounded

theorem Sound.touch (sound : space.Sound) (key : Nat) (now : Ts) : (space.touch key now).Sound where
  indexed := sound.indexed.modify key fun _ => rfl
  inRange {other} _ found := by
    rw [Space.touch, TreeMap.getElem?_modify] at found
    split_ifs at found with same
    · obtain ⟨entry, located, -⟩ := Option.map_eq_some_iff.mp found
      exact LawfulEqOrd.eq_of_compare same ▸ sound.inRange located
    · exact sound.inRange found

theorem Sound.enter (sound : space.Sound) (within : space.first ≤ key ∧ key ≤ space.last)
    (owned : ∀ entry, space.byKey[key]? = some entry → entry.name = name)
    (mapped : ∀ other, space.byName[name]? = some other → other = key) :
    (space.enter name key now).Sound where
  indexed := sound.indexed.insert key ⟨name, now, now⟩ owned mapped
  inRange {other} _ found := by
    rw [Space.enter, TreeMap.getElem?_insert] at found
    split_ifs at found with same
    · exact LawfulEqOrd.eq_of_compare same ▸ within
    · exact sound.inRange found

theorem touch_sameLayout (key : Nat) (now : Ts) : (space.touch key now).SameLayout space :=
  ⟨rfl, rfl, rfl, rfl⟩

theorem enter_sameLayout : (space.enter name key now).SameLayout space := ⟨rfl, rfl, rfl, rfl⟩

/-- Reclaiming keeps a part of the mappings, and drops one at least where there are any. -/
theorem reclaim_spec (sound : space.Sound) (now : Ts) :
    (space.reclaim now).Sound ∧ (space.reclaim now).SameLayout space ∧
      (∀ {key : Nat} {entry : FakeIpEntry}, (space.reclaim now).byKey[key]? = some entry →
        space.byKey[key]? = some entry) ∧
      (space.byKey.size ≠ 0 → (space.reclaim now).byKey.size < space.byKey.size) := by
  unfold Space.reclaim
  dsimp only
  by_cases empty : space.byKey.isEmpty
  · have unchanged : evictForCapacity space.byKey (saturatingSub now space.ttlNanos) evictStride
        FakeIpEntry.lastAccess = (space.byKey, 0) := if_pos empty
    rw [unchanged, if_neg (Nat.lt_irrefl 0)]
    rw [TreeMap.isEmpty_eq_size_eq_zero, beq_iff_eq] at empty
    exact ⟨sound, .refl space, id, fun some => absurd empty some⟩
  · obtain ⟨fewer, counted⟩ := evictForCapacity_size (saturatingSub now space.ttlNanos) evictStride
      FakeIpEntry.lastAccess (Bool.eq_false_iff.mpr empty)
    rw [if_pos (by omega)]
    exact ⟨sound.rebuild ⟨rfl, rfl, rfl, rfl⟩ getElem?_evictForCapacity, ⟨rfl, rfl, rfl, rfl⟩,
      getElem?_evictForCapacity, fun _ => fewer⟩

/-- From a cursor in the range, a step returns it and wraps around. -/
theorem advance_of_mem (atLeast : space.first ≤ space.next) (atMost : space.next ≤ space.last) :
    space.advance =
      ({ space with next := wrapNext space.first space.last space.next }, space.next) := by
  unfold Space.advance wrapNext
  rw [if_neg (by omega)]

/-- From a cursor in the range, the scan finds a candidate that is free within the limit. -/
theorem takeKeyLoop_spec (limit : Nat) (atLeast : space.first ≤ space.next)
    (atMost : space.next ≤ space.last) {moves : Nat} (early : moves < limit)
    (free : (wrapNext space.first space.last)^[moves] space.next ∉ space.byKey) :
    ∃ next key, takeKeyLoop limit space = ({ space with next }, some key) ∧
      space.first ≤ key ∧ key ≤ space.last ∧ key ∉ space.byKey := by
  induction limit generalizing space moves with
  | zero => omega
  | succ limit inductionHypothesis =>
      rw [takeKeyLoop, advance_of_mem atLeast atMost]
      dsimp only
      by_cases taken : space.next ∈ space.byKey
      · rw [if_pos (TreeMap.contains_iff_mem.mpr taken)]
        cases moves with
        | zero => exact absurd taken free
        | succ moves =>
            obtain ⟨inside, below⟩ := wrapNext_mem atLeast atMost
            exact inductionHypothesis inside below (Nat.lt_of_succ_lt_succ early) free
      · rw [if_neg (mt TreeMap.contains_iff_mem.mp taken)]
        exact ⟨_, space.next, rfl, atLeast, atMost, taken⟩

/-- With fewer mappings than keys there is a free key, and it is found. -/
theorem takeKey_spec (usable : space.Usable)
    (room : space.byKey.size < space.last - space.first + 1) :
    ∃ next key, space.takeKey = ({ space with next }, some key) ∧
      space.first ≤ key ∧ key ≤ space.last ∧ key ∉ space.byKey := by
  -- The first step brings a cursor outside the range back to its start.
  obtain ⟨cursor, atLeast, atMost, same⟩ : ∃ cursor, space.first ≤ cursor ∧ cursor ≤ space.last ∧
      space.advance = ({ space with next := cursor } : Space).advance := by
    by_cases inside : space.first ≤ space.next ∧ space.next ≤ space.last
    · exact ⟨space.next, inside.1, inside.2, rfl⟩
    · refine ⟨space.first, le_rfl, usable.ordered, ?_⟩
      unfold Space.advance
      rw [if_pos (by omega), ite_self]
  have sameScan : space.takeKey = ({ space with next := cursor } : Space).takeKey := by
    rw [takeKey, takeKey, takeKeyLoop, takeKeyLoop, same]
  have few : space.byKey.keys.length < space.byKey.size + 1 := by
    rw [TreeMap.length_keys]
    exact Nat.lt_succ_self _
  obtain ⟨moves, early, free⟩ := exists_free_candidate atLeast atMost space.byKey.keys
    (Nat.succ_le_of_lt room) few
  rw [sameScan]
  exact @takeKeyLoop_spec { space with next := cursor } _ atLeast atMost _ early
    (mt TreeMap.mem_keys.mpr free)

theorem cap_pos (usable : space.Usable) : 1 ≤ space.cap := by
  have maxEntries := usable.maxEntries
  unfold Space.cap Space.capacity usizeMax
  omega

theorem cap_le (space : Space) : space.cap ≤ min (space.last - space.first + 1) space.maxEntries := by
  unfold Space.cap Space.capacity
  omega

theorem size_enter_le : (space.enter name key now).byKey.size ≤ space.byKey.size + 1 :=
  TreeMap.size_insert_le

/-- Before a new mapping is entered there is room for it. -/
theorem room_spec (sound : space.Sound) (usable : space.Usable) (now : Ts) :
    let roomy := if space.byKey.size ≥ space.cap then space.reclaim now else space
    roomy.Sound ∧ roomy.SameLayout space ∧
      (∀ {key : Nat} {entry : FakeIpEntry}, roomy.byKey[key]? = some entry →
        space.byKey[key]? = some entry) ∧
      roomy.byKey.size < space.last - space.first + 1 ∧
      roomy.byKey.size + 1 ≤ max space.len space.cap := by
  intro roomy
  have positive := cap_pos usable
  have capped := space.cap_le
  have bounded := sound.size_le
  by_cases full : space.byKey.size ≥ space.cap
  · obtain ⟨reclaimed, layout, included, fewer⟩ := reclaim_spec sound now
    have less := fewer (by omega)
    rw [show roomy = space.reclaim now from if_pos full]
    exact ⟨reclaimed, layout, included, by omega, by unfold Space.len; omega⟩
  · rw [show roomy = space from if_neg full]
    exact ⟨sound, .refl space, id, by omega, by unfold Space.len; omega⟩

/-- Allocation succeeds, returns the address the name is mapped to afterwards, and keeps an
existing mapping. -/
theorem allocate_spec (sound : space.Sound) (usable : space.Usable) (name : Name) (now : Ts) :
    ∃ after key, space.allocate name now = (after, .ok (space.family.addr key)) ∧
      after.Sound ∧ after.SameLayout space ∧ after.byName[name]? = some key ∧
      (∀ mapped, space.byName[name]? = some mapped → mapped = key) ∧
      after.len ≤ max space.len space.cap := by
  unfold Space.allocate
  cases found : space.byName[name]? with
  | some key =>
      refine ⟨_, key, rfl, sound.touch key now, touch_sameLayout key now, found,
        fun mapped same => (Option.some.inj same).symm, ?_⟩
      rw [Space.len, Space.touch, TreeMap.size_modify]
      exact le_max_left _ _
  | none =>
      obtain ⟨roomySound, layout, included, room, fits⟩ := room_spec sound usable now
      dsimp only
      generalize (if space.byKey.size ≥ space.cap then space.reclaim now else space) = roomy at *
      rw [← layout.first, ← layout.last] at room
      obtain ⟨next, key, taken, atLeast, atMost, free⟩ := takeKey_spec (layout.usable usable) room
      rw [taken]
      have scannedSound : ({ roomy with next } : Space).Sound :=
        ⟨roomySound.indexed, roomySound.inRange⟩
      have unowned : ∀ entry, roomy.byKey[key]? = some entry → entry.name = name := by
        intro entry located
        exact absurd (TreeMap.mem_iff_isSome_getElem?.mpr (located ▸ rfl)) free
      have unmapped : ∀ other, roomy.byName[name]? = some other → other = key := by
        intro other mapped
        obtain ⟨entry, located, named⟩ := (roomySound.indexed _ _).mp mapped
        rw [(sound.indexed _ _).mpr ⟨entry, included located, named⟩] at found
        cases found
      refine ⟨({ roomy with next } : Space).enter name key now, key, ?_,
        scannedSound.enter ⟨atLeast, atMost⟩ unowned unmapped,
        ⟨layout.family, layout.first, layout.last, layout.maxEntries⟩, ?_, by simp, ?_⟩
      · rw [← layout.family]
      · exact TreeMap.getElem?_insert_self
      · exact size_enter_le.trans fits

/-- The mappings a restore would add one to. -/
def Grows (space : Space) (name : Name) (key : Nat) : Prop :=
  space.first ≤ key ∧ key ≤ space.last ∧ space.byKey[key]? = none ∧ space.byName[name]? = none

instance (space : Space) (name : Name) (key : Nat) : Decidable (space.Grows name key) :=
  inferInstanceAs (Decidable (_ ∧ _))

theorem restore_spec (sound : space.Sound) (name : Name) (key : Nat) (now : Ts) :
    (space.restore name key now).1.Sound ∧ (space.restore name key now).1.SameLayout space ∧
      (space.restore name key now).1.len =
        if space.Grows name key then space.len + 1 else space.len := by
  unfold Space.restore
  by_cases inside : space.first ≤ key ∧ key ≤ space.last
  swap
  · have outside : (!space.covers key || decide (key < space.first)) = true := by
      simp only [Space.covers, Bool.or_eq_true, Bool.not_eq_true', decide_eq_false_iff_not,
        decide_eq_true_eq]
      omega
    rw [if_pos outside, if_neg fun grows => inside ⟨grows.1, grows.2.1⟩]
    exact ⟨sound, .refl space, rfl⟩
  have covered : (!space.covers key || decide (key < space.first)) = false := by
    simp only [Space.covers, Bool.or_eq_false_iff, Bool.not_eq_false', decide_eq_true_eq,
      decide_eq_false_iff_not]
    omega
  rw [covered, if_neg Bool.false_ne_true]
  cases owner : space.byKey[key]? with
  | none =>
      rw [if_neg (by simp)]
      cases mapped : space.byName[name]? with
      | none =>
          rw [if_neg (by simp), if_pos ⟨inside.1, inside.2, owner, mapped⟩]
          refine ⟨sound.enter inside (by simp [owner]) (by simp [mapped]), enter_sameLayout, ?_⟩
          rw [Space.len, Space.enter, TreeMap.size_insert, TreeMap.contains_eq_isSome_getElem?, owner]
          rfl
      | some other =>
          have elsewhere : other ≠ key := by
            rintro rfl
            obtain ⟨entry, located, -⟩ := (sound.indexed _ _).mp mapped
            rw [owner] at located
            cases located
          rw [if_pos (by simpa using elsewhere), if_neg (by simp [Grows, mapped])]
          exact ⟨sound, .refl space, rfl⟩
  | some entry =>
      have taken : ¬ space.Grows name key := by simp [Grows, owner]
      rw [if_neg taken]
      by_cases named : entry.name = name
      · have mapped : space.byName[name]? = some key := (sound.indexed _ _).mpr ⟨entry, owner, named⟩
        rw [if_neg (by simp [named]), mapped, if_neg (by simp)]
        refine ⟨sound.enter inside (by simp [owner, named]) (by simp [mapped]), enter_sameLayout, ?_⟩
        rw [Space.len, Space.enter, TreeMap.size_insert, TreeMap.contains_eq_isSome_getElem?, owner]
        rfl
      · rw [if_pos (by simp [named])]
        exact ⟨sound, .refl space, rfl⟩

theorem lookup_spec (sound : space.Sound) (key : Nat) (now : Ts) :
    (space.lookup key now).1.Sound ∧ (space.lookup key now).1.SameLayout space ∧
      (space.lookup key now).1.byName = space.byName ∧
      (space.lookup key now).1.len = space.len ∧
      (∀ name, (space.lookup key now).2 = some name ↔ space.byName[name]? = some key) := by
  unfold Space.lookup
  cases found : space.byKey[key]? with
  | none =>
      refine ⟨sound, .refl space, rfl, rfl, fun name => ?_⟩
      rw [sound.indexed, found]
      simp
  | some entry =>
      refine ⟨sound.touch key now, touch_sameLayout key now, rfl, TreeMap.size_modify, fun name => ?_⟩
      rw [sound.indexed, found]
      simp

theorem cleanupExpired_spec (sound : space.Sound) (now : Ts) :
    (space.cleanupExpired now).1.Sound ∧ (space.cleanupExpired now).1.SameLayout space ∧
      (space.cleanupExpired now).1.len ≤ space.len := by
  unfold Space.cleanupExpired
  dsimp only
  generalize saturatingSub now space.ttlNanos = cutoff
  have included : ∀ {key : Nat} {entry : FakeIpEntry},
      (retainEntries space.byKey fun _ entry => decide (cutoff ≤ entry.lastAccess))[key]? =
        some entry → space.byKey[key]? = some entry := by
    intro key entry found
    rw [retainEntries, TreeMap.getElem?_filter'] at found
    exact (Option.filter_eq_some_iff.mp found).1
  refine ⟨?_, ?_, ?_⟩
  · split_ifs with same
    · exact sound.rebuild ⟨rfl, rfl, rfl, rfl⟩ included
    · -- Nothing was dropped, so the index is still that of the same mappings.
      have unchanged := TreeMap.filter_equiv_self_iff.mpr
        (TreeMap.size_filter_eq_size_iff.mp (not_not.mp same))
      refine sound.of_part ⟨rfl, rfl, rfl, rfl⟩ included fun name key => ?_
      rw [sound.indexed]
      dsimp only
      rw [retainEntries, unchanged.getElem?_eq]
  · split_ifs <;> exact ⟨rfl, rfl, rfl, rfl⟩
  · split_ifs <;> exact TreeMap.size_filter_le_size

theorem release_spec (sound : space.Sound) (name : Name) :
    (space.release name).1.Sound ∧ (space.release name).1.SameLayout space ∧
      (space.release name).1.len ≤ space.len := by
  unfold Space.release
  cases found : space.byName[name]? with
  | none => exact ⟨sound, .refl space, le_rfl⟩
  | some key =>
      have erased : IndexedBy (space.byKey.erase key) FakeIpEntry.name (space.byName.erase name) :=
        sound.indexed.erase found
      exact ⟨⟨erased, fun located => sound.inRange (getElem?_of_erase located)⟩,
        ⟨rfl, rfl, rfl, rfl⟩, TreeMap.size_erase_le⟩

theorem clear_spec (space : Space) :
    space.clear.Sound ∧ space.clear.SameLayout space ∧ space.clear.len ≤ space.len :=
  ⟨⟨indexedBy_empty, fun located => by simp [Space.clear] at located⟩, ⟨rfl, rfl, rfl, rfl⟩,
    Nat.zero_le _⟩

end Space

end RecurseX
