import RecurseX.FakeIp.Pool

/-!
# Which mappings a full pool gives up

At the cap the pool is to reclaim the least recently used mappings. When every
mapping is fresh it drops every eighth one in the order of the addresses, which
says nothing about recency. `allocate_drops_oldest_iff` says when the two agree.
-/

namespace RecurseX

open Library Std

namespace Space

variable {space roomy : Space} {name : Name} {now : Ts} {key : Nat} {entry : FakeIpEntry}

/-- The scan only moves the cursor, and what it finds is free. -/
theorem takeKeyLoop_byKey (limit : Nat) (space : Space) :
    (takeKeyLoop limit space).1.byKey = space.byKey ∧
      ∀ key, (takeKeyLoop limit space).2 = some key → space.byKey[key]? = none := by
  induction limit generalizing space with
  | zero => exact ⟨rfl, nofun⟩
  | succ limit inductionHypothesis =>
      have kept : space.advance.1.byKey = space.byKey := rfl
      rw [takeKeyLoop]
      dsimp only
      split_ifs with taken
      · rw [← kept]
        exact inductionHypothesis space.advance.1
      · refine ⟨kept, fun key found => ?_⟩
        obtain rfl := Option.some.inj found
        rw [← kept]
        exact TreeMap.getElem?_eq_none_of_contains_eq_false (Bool.eq_false_iff.mpr taken)

/-- What reclaiming keeps of the mappings. -/
theorem reclaim_byKey (space : Space) (now : Ts) :
    (space.reclaim now).byKey = (evictForCapacity space.byKey (saturatingSub now space.ttlNanos)
      evictStride FakeIpEntry.lastAccess).1 := by
  unfold reclaim
  dsimp only
  split_ifs <;> rfl

/-- Allocating for a new name at the cap keeps the mappings that reclaiming keeps. -/
theorem allocate_keeps_iff (sound : space.Sound) (unmapped : space.byName[name]? = none)
    (full : space.cap ≤ space.byKey.size) (stored : space.byKey[key]? = some entry) :
    (space.allocate name now).1.byKey[key]? = some entry ↔
      (space.reclaim now).byKey[key]? = some entry := by
  have others : entry.name ≠ name := by
    rintro rfl
    rw [(sound.indexed _ _).mpr ⟨entry, stored, rfl⟩] at unmapped
    cases unmapped
  unfold allocate
  rw [unmapped]
  dsimp only
  rw [if_pos full]
  obtain ⟨kept, free⟩ := takeKeyLoop_byKey ((space.reclaim now).byKey.size + 1) (space.reclaim now)
  rcases scan : (space.reclaim now).takeKey with ⟨scanned, _ | taken⟩
  · rw [show scanned.byKey = (space.reclaim now).byKey by rw [← kept, ← takeKey, scan]]
  · dsimp only
    rw [enter, TreeMap.getElem?_insert,
      show scanned.byKey = (space.reclaim now).byKey by rw [← kept, ← takeKey, scan]]
    split_ifs with same
    · obtain rfl := LawfulEqOrd.eq_of_compare same
      rw [free taken (by rw [← takeKey, scan])]
      refine iff_of_false (fun entered => others ?_) fun gone => ?_
      · rw [← Option.some.inj entered]
      · cases gone
    · exact Iff.rfl

/-- No mapping that allocating for `name` drops was used later than one that it keeps. -/
def DropsLeastRecent (space : Space) (name : Name) (now : Ts) : Prop :=
  ∀ (key : Nat) (entry : FakeIpEntry), space.byKey[key]? = some entry →
    (space.allocate name now).1.byKey[key]? ≠ some entry →
      ∀ (other : Nat) (kept : FakeIpEntry), space.byKey[other]? = some kept →
        (space.allocate name now).1.byKey[other]? = some kept → entry.lastAccess ≤ kept.lastAccess

theorem dropsLeastRecent_iff (sound : space.Sound) (unmapped : space.byName[name]? = none)
    (full : space.cap ≤ space.byKey.size) :
    space.DropsLeastRecent name now ↔
      DropsOldest FakeIpEntry.lastAccess space.byKey (space.reclaim now).byKey := by
  have part : ∀ {key : Nat} {entry : FakeIpEntry}, (space.reclaim now).byKey[key]? = some entry →
      space.byKey[key]? = some entry := (reclaim_spec sound now).2.2.1
  constructor
  · intro recent key entry stored dropped other kept left
    refine recent key entry stored ?_ other kept (part left)
      ((allocate_keeps_iff sound unmapped full (part left)).mpr left)
    rw [ne_eq, allocate_keeps_iff sound unmapped full stored, dropped]
    exact nofun
  · intro oldest key entry stored dropped other kept storedToo left
    rw [ne_eq, allocate_keeps_iff sound unmapped full stored] at dropped
    refine oldest key entry stored ?_ other kept
      ((allocate_keeps_iff sound unmapped full storedToo).mp left)
    cases found : (space.reclaim now).byKey[key]? with
    | none => rfl
    | some other =>
        obtain rfl := Option.some.inj (stored.symm.trans (part found))
        exact absurd found dropped

end Space

/-- A pool with room for eight mappings. -/
def eightSettings : FakeIpSettings := { smallSettings [] with
  maxEntries := 8
  maxEntries_pos := by decide }

/-- Eight names of one letter, one after the other. -/
def eightNames : List FakeIpOp :=
  (List.range 8).map fun place => .allocate ⟨[1, UInt8.ofNat (97 + place), 0]⟩ .v4 place

end RecurseX
