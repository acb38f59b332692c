import RecurseX.Cidr
import RecurseX.FakeIp.Space
import RecurseX.Library.Runs
import RecurseX.Pattern

/-!
# The fake-IP pool

One allocation space per configured family behind one filter. Every operation
that names a family goes through `onSpace`, so what the operations of a space
keep, the pool keeps over any run of operations.
-/

namespace RecurseX

open Library Std

/-- What to do with a name that asked for an address. -/
inductive Allocation where
  /-- Hand the client this synthetic address. -/
  | address (ip : IpAddr)
  /-- The name is excluded by the filter. -/
  | filtered
deriving DecidableEq, Repr

/-- Validated fake-IP configuration: what cannot be used is refused before a
value of this type exists. -/
structure FakeIpSettings where
  range : Ipv4Cidr
  /-- `none` means that no IPv6 address is synthesized. -/
  range6 : Option Ipv6Cidr
  /-- Names excluded from fake-IP. -/
  filter : List DomainPattern
  /-- Entry lifetime in seconds. -/
  ttlSecs : Nat
  /-- Cap on live mappings, per family. -/
  maxEntries : Nat
  range_usable : 2 ≤ range.len
  range6_usable : ∀ block ∈ range6, block.network ≠ block.broadcast
  maxEntries_pos : maxEntries ≠ 0
  ttlSecs_pos : ttlSecs ≠ 0

/-- The pool: one allocation space per configured family. -/
structure FakeIpPool where
  v4 : Space
  /-- Present only when an IPv6 range is configured. -/
  v6 : Option Space
  filter : List DomainPattern
  /-- Names turned away by the filter. -/
  filteredHits : Nat

/-- A ceiling on the configured TTL. -/
def maxTtlSecs : Nat := 7 * 24 * 3600

/-- Convert a TTL in seconds to nanoseconds, clamped to a sane ceiling. -/
def ttlNanos (secs : Nat) : Ts := (min secs maxTtlSecs : Nat) * 1000000000

namespace Space

/-- The space over a block. The network address is reserved. -/
def ofBlock {width : Nat} (family : Family) (range : Cidr width) (maxEntries : Nat) (ttlNanos : Ts) :
    Space :=
  Space.new family (range.network.toNat + 1) range.broadcast.toNat maxEntries ttlNanos

/-- A v4 space over `range`. -/
def v4 (range : Ipv4Cidr) (maxEntries : Nat) (ttlNanos : Ts) : Space :=
  Space.ofBlock .v4 range maxEntries ttlNanos

/-- A v6 space over `range`. -/
def v6 (range : Ipv6Cidr) (maxEntries : Nat) (ttlNanos : Ts) : Space :=
  Space.ofBlock .v6 range maxEntries ttlNanos

end Space

/-- The family of an address and its key there. -/
def IpAddr.familyKey (ip : IpAddr) : Option (Family × Nat) :=
  match Family.v4.key ip, Family.v6.key ip with
  | some key, _ => some (.v4, key)
  | _, some key => some (.v6, key)
  | _, _ => none

namespace FakeIpPool

/-- Build a pool from already-parsed parts. -/
def new (range : Ipv4Cidr) (range6 : Option Ipv6Cidr) (filter : List DomainPattern)
    (ttlSecs maxEntries : Nat) : FakeIpPool where
  v4 := Space.v4 range maxEntries (ttlNanos ttlSecs)
  v6 := range6.map fun block => Space.v6 block maxEntries (ttlNanos ttlSecs)
  filter := filter
  filteredHits := 0

/-- The space for a family, if it is configured. -/
def space (self : FakeIpPool) (family : Family) : Option Space :=
  match family with
  | .v4 => some self.v4
  | .v6 => self.v6

/-- The number of live mappings in one family. -/
def lenFor (self : FakeIpPool) (family : Family) : Nat := ((self.space family).map Space.len).getD 0

/-- Whether `name` is excluded from fake-IP by the filter. -/
def isFiltered (self : FakeIpPool) (name : Name) : Bool :=
  self.filter.any fun pattern => pattern.matches name

/-- Act on the space of a family, if it is configured. -/
def onSpace {α : Type} (self : FakeIpPool) (family : Family) (absent : α)
    (act : Space → Space × α) : FakeIpPool × α :=
  match family with
  | .v4 => ({ self with v4 := (act self.v4).1 }, (act self.v4).2)
  | .v6 =>
      match self.v6 with
      | none => (self, absent)
      | some space => ({ self with v6 := some (act space).1 }, (act space).2)

/-- How a family is spelled in an error. -/
def familyText : Family → String
  | .v4 => "V4"
  | .v6 => "V6"

/-- Assign, or fetch again, the fake address for `name` in `family`. -/
def allocate (self : FakeIpPool) (name : Name) (family : Family) (now : Ts) :
    FakeIpPool × Result Allocation :=
  if self.isFiltered name then
    ({ self with filteredHits := self.filteredHits + 1 }, .ok .filtered)
  else
    self.onSpace family
      (.error (.internal ("no fake-ip space is configured for " ++ familyText family)))
      fun space => ((space.allocate name now).1, (space.allocate name now).2.map .address)

/-- The name that owns `ip`, refreshing its recency. -/
def lookup (self : FakeIpPool) (ip : IpAddr) (now : Ts) : FakeIpPool × Option Name :=
  match ip.familyKey with
  | some (family, key) => self.onSpace family none fun space => space.lookup key now
  | none => (self, none)

/-- Record a mapping loaded from a snapshot. -/
def restore (self : FakeIpPool) (name : Name) (ip : IpAddr) (now : Ts) : FakeIpPool × Bool :=
  match ip.familyKey with
  | some (family, key) => self.onSpace family false fun space => space.restore name key now
  | none => (self, false)

/-- Drop mappings untouched for longer than the TTL, across both families. -/
def cleanupExpired (self : FakeIpPool) (now : Ts) : FakeIpPool × Nat :=
  let (self, dropped) := self.onSpace .v4 0 fun space => space.cleanupExpired now
  let (self, more) := self.onSpace .v6 0 fun space => space.cleanupExpired now
  (self, dropped + more)

/-- Forget `name`'s mapping in one family. -/
def release (self : FakeIpPool) (name : Name) (family : Family) : FakeIpPool × Option IpAddr :=
  self.onSpace family none fun space =>
    ((space.release name).1, (space.release name).2.map family.addr)

/-- Forget everything. -/
def clear (self : FakeIpPool) : FakeIpPool :=
  let self := (self.onSpace .v4 () fun space => (space.clear, ())).1
  (self.onSpace .v6 () fun space => (space.clear, ())).1

end FakeIpPool

namespace FakeIpSettings

/-- Build the pool this configuration describes. -/
def build (self : FakeIpSettings) : FakeIpPool :=
  FakeIpPool.new self.range self.range6 self.filter self.ttlSecs self.maxEntries

/-- Whether answers of `family` are synthesized. -/
def synthesizes (self : FakeIpSettings) (family : Family) : Bool :=
  match family with
  | .v4 => true
  | .v6 => self.range6.isSome

end FakeIpSettings

/-- One operation on the pool. -/
inductive FakeIpOp where
  | allocate (name : Name) (family : Family) (now : Ts)
  | lookup (ip : IpAddr) (now : Ts)
  | restore (name : Name) (ip : IpAddr) (now : Ts)
  | cleanupExpired (now : Ts)
  | release (name : Name) (family : Family)
  | clear
deriving DecidableEq, Repr

/-- The family an operation is about; `none` is both. -/
def FakeIpOp.family : FakeIpOp → Option Family
  | .allocate _ family _ => some family
  | .lookup ip _ => ip.familyKey.map Prod.fst
  | .restore _ ip _ => ip.familyKey.map Prod.fst
  | .cleanupExpired _ => none
  | .release _ family => some family
  | .clear => none

/-- The pool after an operation. -/
def FakeIpPool.step (self : FakeIpPool) : FakeIpOp → FakeIpPool
  | .allocate name family now => (self.allocate name family now).1
  | .lookup ip now => (self.lookup ip now).1
  | .restore name ip now => (self.restore name ip now).1
  | .cleanupExpired now => (self.cleanupExpired now).1
  | .release name family => (self.release name family).1
  | .clear => self.clear

/-! ## What every operation keeps -/

theorem key_addr {family : Family} {key : Nat} (within : key < 256 ^ family.octets) :
    (family.addr key).familyKey = some (family, key) := by
  cases family with
  | v4 =>
      have spelled : natOfBytes (bytesOfNat 4 key) = key :=
        (natOfBytes_bytesOfNat 4 key).trans (Nat.mod_eq_of_lt within)
      simp [IpAddr.familyKey, Family.addr, Family.key, spelled]
  | v6 =>
      have spelled : natOfBytes (bytesOfNat 16 key) = key :=
        (natOfBytes_bytesOfNat 16 key).trans (Nat.mod_eq_of_lt within)
      simp [IpAddr.familyKey, Family.addr, Family.key, spelled]

theorem usable_ofBlock {width : Nat} {family : Family} {range : Cidr width} {maxEntries : Nat} {ttl : Ts}
    (several : range.network ≠ range.broadcast) (fits : 2 ^ width ≤ 256 ^ family.octets) :
    (Space.ofBlock family range maxEntries ttl).Usable where
  ordered := by
    have apart : range.network.toNat ≠ range.broadcast.toNat := mt BitVec.eq_of_toNat_eq several
    have ordered := range.network_le_broadcast
    change range.network.toNat + 1 ≤ range.broadcast.toNat
    omega
  width := Nat.lt_of_lt_of_le range.broadcast.isLt fits
  maxEntries := le_max_right _ _

namespace FakeIpPool

variable {self fresh : FakeIpPool} {family other : Family}

theorem onSpace_self {α : Type} (family : Family) (absent : α) (act : Space → Space × α) :
    (self.onSpace family absent act).1.space family =
      (self.space family).map fun space => (act space).1 := by
  obtain ⟨v4, v6, filter, filteredHits⟩ := self
  cases family with
  | v4 => rfl
  | v6 => cases v6 <;> rfl

theorem onSpace_other {α : Type} (apart : other ≠ family) (absent : α) (act : Space → Space × α) :
    (self.onSpace family absent act).1.space other = self.space other := by
  cases family with
  | v4 =>
      cases other with
      | v4 => exact absurd rfl apart
      | v6 => rfl
  | v6 =>
      cases other with
      | v4 =>
          unfold onSpace
          cases self.v6 <;> rfl
      | v6 => exact absurd rfl apart

theorem onSpace_filter {α : Type} (family : Family) (absent : α) (act : Space → Space × α) :
    (self.onSpace family absent act).1.filter = self.filter := by
  cases family with
  | v4 => rfl
  | v6 =>
      unfold onSpace
      cases self.v6 <;> rfl

theorem onSpace_result {α : Type} {space : Space} (found : self.space family = some space)
    (absent : α) (act : Space → Space × α) :
    (self.onSpace family absent act).2 = (act space).2 := by
  cases family with
  | v4 =>
      obtain rfl := Option.some.inj found
      rfl
  | v6 =>
      have present : self.v6 = some space := found
      rw [onSpace, present]

/-- Every configured family has a sound space, laid out as the fresh one. -/
structure Sound (fresh pool : FakeIpPool) : Prop where
  filter : pool.filter = fresh.filter
  configured : ∀ family, (pool.space family).isSome = (fresh.space family).isSome
  spaces : ∀ {family space layout}, pool.space family = some space →
    fresh.space family = some layout → space.Sound ∧ space.SameLayout layout

/-- A space of a sound pool goes back to one of the fresh pool. -/
theorem Sound.laidOut {space : Space} (sound : Sound fresh self)
    (found : self.space family = some space) :
    ∃ layout, fresh.space family = some layout ∧ space.Sound ∧ space.SameLayout layout := by
  have present : (fresh.space family).isSome = true := by
    rw [← sound.configured family, found]
    rfl
  obtain ⟨layout, laidOut⟩ := Option.isSome_iff_exists.mp present
  exact ⟨layout, laidOut, sound.spaces found laidOut⟩

/-- An action that every sound space survives may be taken on any family. -/
theorem Sound.onSpace {α : Type} (sound : Sound fresh self) (absent : α) {act : Space → Space × α}
    (usable : ∀ {family layout}, fresh.space family = some layout → layout.Usable)
    (kept : ∀ {space}, space.Sound → space.Usable →
      (act space).1.Sound ∧ (act space).1.SameLayout space) (family : Family) :
    Sound fresh (self.onSpace family absent act).1 where
  filter := (onSpace_filter family absent act).trans sound.filter
  configured other := by
    by_cases same : other = family
    · rw [same, onSpace_self, Option.isSome_map]
      exact sound.configured family
    · rw [onSpace_other same]
      exact sound.configured other
  spaces {other space layout} found laidOut := by
    by_cases same : other = family
    · subst same
      rw [onSpace_self] at found
      obtain ⟨before, located, rfl⟩ := Option.map_eq_some_iff.mp found
      obtain ⟨beforeSound, layoutKept⟩ := sound.spaces located laidOut
      obtain ⟨afterSound, sameLayout⟩ := kept beforeSound (layoutKept.usable (usable laidOut))
      exact ⟨afterSound, sameLayout.trans layoutKept⟩
    · rw [onSpace_other same] at found
      exact sound.spaces found laidOut

/-- Every operation keeps the pool sound. -/
theorem Sound.step (sound : Sound fresh self)
    (usable : ∀ {family layout}, fresh.space family = some layout → layout.Usable) (op : FakeIpOp) :
    Sound fresh (self.step op) := by
  cases op with
  | allocate name family now =>
      rw [FakeIpPool.step, allocate]
      split_ifs
      · exact ⟨sound.filter, sound.configured, sound.spaces⟩
      · refine sound.onSpace _ usable (fun {space} spaceSound spaceUsable => ?_) family
        obtain ⟨after, key, allocated, afterSound, layout, -⟩ :=
          Space.allocate_spec spaceSound spaceUsable name now
        rw [allocated]
        exact ⟨afterSound, layout⟩
  | lookup ip now =>
      rw [FakeIpPool.step, lookup]
      cases ip.familyKey with
      | none => exact sound
      | some found =>
          refine sound.onSpace _ usable (fun spaceSound _ => ?_) found.1
          obtain ⟨afterSound, layout, -⟩ := Space.lookup_spec spaceSound found.2 now
          exact ⟨afterSound, layout⟩
  | restore name ip now =>
      rw [FakeIpPool.step, restore]
      cases ip.familyKey with
      | none => exact sound
      | some found =>
          refine sound.onSpace _ usable (fun spaceSound _ => ?_) found.1
          obtain ⟨afterSound, layout, -⟩ := Space.restore_spec spaceSound name found.2 now
          exact ⟨afterSound, layout⟩
  | cleanupExpired now =>
      have kept {space : Space} (spaceSound : space.Sound) (_ : space.Usable) :
          (space.cleanupExpired now).1.Sound ∧ (space.cleanupExpired now).1.SameLayout space := by
        obtain ⟨afterSound, layout, -⟩ := Space.cleanupExpired_spec spaceSound now
        exact ⟨afterSound, layout⟩
      exact (sound.onSpace 0 usable kept .v4).onSpace 0 usable kept .v6
  | release name family =>
      refine sound.onSpace _ usable (fun spaceSound _ => ?_) family
      obtain ⟨afterSound, layout, -⟩ := Space.release_spec spaceSound name
      exact ⟨afterSound, layout⟩
  | clear =>
      have kept {space : Space} (_ : space.Sound) (_ : space.Usable) :
          space.clear.Sound ∧ space.clear.SameLayout space :=
        ⟨(Space.clear_spec space).1, (Space.clear_spec space).2.1⟩
      exact (sound.onSpace () usable kept .v4).onSpace () usable kept .v6

/-- An operation on one family leaves the other as it is. -/
theorem step_other {op : FakeIpOp} (about : op.family = some family) (apart : other ≠ family) :
    (self.step op).space other = self.space other := by
  cases op with
  | allocate name named now =>
      obtain rfl := Option.some.inj about
      rw [step, allocate]
      split_ifs
      · rfl
      · exact onSpace_other apart _ _
  | lookup ip now =>
      obtain ⟨found, isKey, rfl⟩ := Option.map_eq_some_iff.mp about
      rw [step, lookup, isKey]
      exact onSpace_other apart _ _
  | restore name ip now =>
      obtain ⟨found, isKey, rfl⟩ := Option.map_eq_some_iff.mp about
      rw [step, restore, isKey]
      exact onSpace_other apart _ _
  | cleanupExpired now => cases about
  | release name named =>
      obtain rfl := Option.some.inj about
      exact onSpace_other apart _ _
  | clear => cases about

/-- A sound pool allocates in every family it has, and the address leads back to the name. -/
theorem allocate_spec (sound : Sound fresh self)
    (usable : ∀ {family layout}, fresh.space family = some layout → layout.Usable)
    {space layout : Space} (found : self.space family = some space)
    (laidOut : fresh.space family = some layout) (isFamily : layout.family = family) (name : Name)
    (accepted : self.isFiltered name = false) (now : Ts) :
    ∃ after ip, self.allocate name family now = (after, .ok (.address ip)) ∧
      (∀ key, space.byName[name]? = some key → ip = family.addr key) ∧
      ∀ later, (after.lookup ip later).2 = some name := by
  obtain ⟨spaceSound, sameLayout⟩ := sound.spaces found laidOut
  have spaceUsable := sameLayout.usable (usable laidOut)
  obtain ⟨after, key, allocated, afterSound, afterLayout, mapped, stable, -⟩ :=
    Space.allocate_spec spaceSound spaceUsable name now
  rw [sameLayout.family, isFamily] at allocated
  refine ⟨(self.allocate name family now).1, family.addr key, ?_, ?_, fun later => ?_⟩
  · rw [allocate, if_neg (by simp [accepted])]
    refine Prod.ext rfl ?_
    rw [onSpace_result found, allocated]
    rfl
  · intro existing isExisting
    rw [stable existing isExisting]
  · have present : (self.allocate name family now).1.space family = some after := by
      rw [allocate, if_neg (by simp [accepted]), onSpace_self, found, Option.map_some, allocated]
    obtain ⟨entry, located, -⟩ := (afterSound.indexed _ _).mp mapped
    have within : key < 256 ^ family.octets := by
      have width := (afterLayout.usable spaceUsable).width
      rw [afterLayout.family, sameLayout.family, isFamily] at width
      exact Nat.lt_of_le_of_lt (afterSound.inRange located).2 width
    rw [lookup, key_addr within]
    exact (onSpace_result present _ _).trans
      ((Space.lookup_spec afterSound key later).2.2.2.2 name |>.mpr mapped)

end FakeIpPool

namespace FakeIpSettings

/-- The keys of a family's range, without the reserved network address. -/
def InRange (self : FakeIpSettings) (family : Family) (key : Nat) : Prop :=
  match family with
  | .v4 => self.range.network.toNat + 1 ≤ key ∧ key ≤ self.range.broadcast.toNat
  | .v6 => ∃ block ∈ self.range6, block.network.toNat + 1 ≤ key ∧ key ≤ block.broadcast.toNat

/-- The number of those keys. -/
def rangeSize (self : FakeIpSettings) (family : Family) : Nat :=
  match family with
  | .v4 => self.range.broadcast.toNat - self.range.network.toNat
  | .v6 =>
      (self.range6.map fun block => block.broadcast.toNat - block.network.toNat).getD 0

variable {self : FakeIpSettings} {family : Family} {layout : Space}

/-- What a family of the fresh pool is. -/
theorem space_build (found : self.build.space family = some layout) :
    layout.Usable ∧ layout.Sound ∧ layout.family = family ∧
      layout.maxEntries = max self.maxEntries 1 ∧ layout.len = 0 ∧
      ∀ key, layout.first ≤ key ∧ key ≤ layout.last → self.InRange family key := by
  cases family with
  | v4 =>
      obtain rfl := Option.some.inj found
      exact ⟨usable_ofBlock (Cidr.network_ne_broadcast self.range_usable) (by decide),
        Space.sound_new .., rfl, rfl, rfl, fun key within => within⟩
  | v6 =>
      obtain ⟨block, configured, rfl⟩ := Option.map_eq_some_iff.mp found
      exact ⟨usable_ofBlock (self.range6_usable block configured) (by decide), Space.sound_new .., rfl,
        rfl, rfl, fun key within => ⟨block, configured, within⟩⟩

/-- After any operations the pool is sound. -/
theorem sound_run (self : FakeIpSettings) (ops : List FakeIpOp) :
    FakeIpPool.Sound self.build (ops.foldl FakeIpPool.step self.build) := by
  refine foldl_invariant FakeIpPool.step (FakeIpPool.Sound self.build)
    (fun pool op sound => sound.step (fun found => (space_build found).1) op) ?_
  refine ⟨rfl, fun _ => rfl, fun found laidOut => ?_⟩
  obtain rfl := Option.some.inj (found.symm.trans laidOut)
  exact ⟨(space_build found).2.1, .refl _⟩

theorem synthesizes_iff : self.synthesizes family = (self.build.space family).isSome := by
  cases family with
  | v4 => rfl
  | v6 =>
      have same : self.build.space .v6 =
          self.range6.map fun block => Space.v6 block self.maxEntries (ttlNanos self.ttlSecs) := rfl
      rw [same, Option.isSome_map]
      rfl

end FakeIpSettings

/-- A fresh family has room for as many mappings as its range has keys. -/
theorem FakeIpSettings.size_build {settings : FakeIpSettings} {family : Family} {layout : Space}
    (found : settings.build.space family = some layout) :
    layout.last - layout.first + 1 = settings.rangeSize family := by
  have ordered := (space_build found).1.ordered
  cases family with
  | v4 =>
      obtain rfl := Option.some.inj found
      have ordered : settings.range.network.toNat + 1 ≤ settings.range.broadcast.toNat := ordered
      change settings.range.broadcast.toNat - (settings.range.network.toNat + 1) + 1 =
        settings.range.broadcast.toNat - settings.range.network.toNat
      omega
  | v6 =>
      obtain ⟨block, configured, rfl⟩ := Option.map_eq_some_iff.mp found
      have ordered : block.network.toNat + 1 ≤ block.broadcast.toNat := ordered
      rw [rangeSize, configured]
      change block.broadcast.toNat - (block.network.toNat + 1) + 1 =
        block.broadcast.toNat - block.network.toNat
      omega

/-- **The pool is a bijection.** After any operations on a pool built from a valid configuration,
the two maps of each family are inverse to each other and their keys in the range; allocation
never fails in a configured family, returns the existing address of a mapped name that the filter
lets through, and the address leads back to the name; an operation on one family leaves the other
unchanged. -/
theorem fakeIp_bijection (settings : FakeIpSettings) (ops : List FakeIpOp) :
    let pool := ops.foldl FakeIpPool.step settings.build
    (∀ family space, pool.space family = some space →
      (∀ (name : Name) (key : Nat), space.byName[name]? = some key ↔
        ∃ entry : FakeIpEntry, space.byKey[key]? = some entry ∧ entry.name = name) ∧
      ∀ (key : Nat) (entry : FakeIpEntry), space.byKey[key]? = some entry →
        settings.InRange family key) ∧
    (∀ name family now, settings.synthesizes family = true →
      ∃ after allocation, pool.allocate name family now = (after, .ok allocation) ∧
        (pool.isFiltered name = true → allocation = .filtered) ∧
        (pool.isFiltered name = false → ∃ ip, allocation = .address ip ∧
          (∀ space key, pool.space family = some space → space.byName[name]? = some key →
            ip = family.addr key) ∧
          ∀ later, (after.lookup ip later).2 = some name)) ∧
    ∀ op family other, op.family = some family → other ≠ family →
      (pool.step op).space other = pool.space other := by
  intro pool
  have sound : FakeIpPool.Sound settings.build pool := settings.sound_run ops
  have usable {family layout} (found : settings.build.space family = some layout) : layout.Usable :=
    (FakeIpSettings.space_build found).1
  refine ⟨?_, ?_, fun op family other => FakeIpPool.step_other⟩
  · intro family space found
    obtain ⟨layout, laidOut, spaceSound, sameLayout⟩ := sound.laidOut found
    refine ⟨spaceSound.indexed, fun key entry located => ?_⟩
    refine (FakeIpSettings.space_build laidOut).2.2.2.2.2 key ?_
    rw [← sameLayout.first, ← sameLayout.last]
    exact spaceSound.inRange located
  · intro name family now synthesized
    by_cases filtered : pool.isFiltered name = true
    · refine ⟨_, .filtered, if_pos filtered, fun _ => rfl, fun accepted => ?_⟩
      rw [filtered] at accepted
      cases accepted
    · rw [FakeIpSettings.synthesizes_iff] at synthesized
      obtain ⟨layout, laidOut⟩ := Option.isSome_iff_exists.mp synthesized
      obtain ⟨space, found⟩ := Option.isSome_iff_exists.mp
        ((sound.configured family).trans synthesized)
      obtain ⟨after, ip, allocated, existing, back⟩ := FakeIpPool.allocate_spec sound usable found
        laidOut (FakeIpSettings.space_build laidOut).2.2.1 name (Bool.eq_false_iff.mpr filtered) now
      refine ⟨after, .address ip, allocated, fun isFiltered => absurd isFiltered filtered,
        fun _ => ⟨ip, rfl, fun other key isSpace mapped => ?_, back⟩⟩
      obtain rfl := Option.some.inj (found.symm.trans isSpace)
      exact existing key mapped

/-- The name `lan`. -/
def lanName : Name := ⟨[3, 108, 97, 110, 0]⟩

/-- A block of the benchmarking space with a cap of one mapping. -/
def smallSettings (filter : List DomainPattern) : FakeIpSettings where
  range := ⟨0xc6120000, 24, by decide, by decide⟩
  range6 := none
  filter := filter
  ttlSecs := 3600
  maxEntries := 1
  range_usable := by decide
  range6_usable := by simp
  maxEntries_pos := by decide
  ttlSecs_pos := by decide

/-- The first address of the small pool, allocated and found again. -/
theorem fakeIp_bijection_first :
    ∃ after allocation,
      (([] : List FakeIpOp).foldl FakeIpPool.step (smallSettings []).build).allocate lanName .v4 0 =
        (after, .ok allocation) :=
  have ⟨after, allocation, allocated, _⟩ := (fakeIp_bijection (smallSettings []) []).2.1 lanName .v4 0 rfl
  ⟨after, allocation, allocated⟩

/-- A mapping restored for a name that the filter excludes is there, and not returned. -/
theorem filtered_mapping_not_returned :
    let pool := [FakeIpOp.restore lanName (.v4 (ipv4 198 18 0 1)) 0].foldl FakeIpPool.step
      (smallSettings [.exact lanName]).build
    ∃ space key, pool.space .v4 = some space ∧ space.byName[lanName]? = some key ∧
      (pool.allocate lanName .v4 0).2 = .ok .filtered := by
  refine ⟨_, 3323068417, rfl, ?_, ?_⟩
  · decide
  · decide

/-! ## The cap on live mappings -/

namespace FakeIpPool

/-- Every family holds at most as many mappings as its cap. -/
def WithinCap (pool : FakeIpPool) : Prop :=
  ∀ family space, pool.space family = some space → space.len ≤ space.cap

/-- The operation is no restore of a new mapping in a family that is at its cap. -/
def RestoreFits (pool : FakeIpPool) : FakeIpOp → Prop
  | .restore name ip _ =>
      ∀ family key, ip.familyKey = some (family, key) → ∀ space, pool.space family = some space →
        space.Grows name key → space.len < space.cap
  | _ => True

variable {pool fresh : FakeIpPool}

theorem WithinCap.onSpace {α : Type} (within : pool.WithinCap) (family : Family) (absent : α)
    {act : Space → Space × α}
    (kept : ∀ {space}, pool.space family = some space → (act space).1.len ≤ (act space).1.cap) :
    (pool.onSpace family absent act).1.WithinCap := by
  intro other space found
  by_cases same : other = family
  · rw [same, onSpace_self] at found
    obtain ⟨before, located, rfl⟩ := Option.map_eq_some_iff.mp found
    exact kept located
  · rw [onSpace_other same] at found
    exact within _ _ found

/-- An action that drops mappings or keeps their number keeps within the cap. -/
theorem WithinCap.onSpace_of_le {α : Type} (within : pool.WithinCap) (family : Family) (absent : α)
    {act : Space → Space × α}
    (kept : ∀ {space}, pool.space family = some space →
      (act space).1.SameLayout space ∧ (act space).1.len ≤ space.len) :
    (pool.onSpace family absent act).1.WithinCap := by
  refine within.onSpace family absent fun found => ?_
  obtain ⟨layout, fewer⟩ := kept found
  rw [layout.cap]
  exact fewer.trans (within _ _ found)

theorem WithinCap.step (within : pool.WithinCap) (sound : Sound fresh pool)
    (usable : ∀ {family layout}, fresh.space family = some layout → layout.Usable)
    {op : FakeIpOp} (fits : pool.RestoreFits op) : (pool.step op).WithinCap := by
  have spaces {family space} (found : pool.space family = some space) :
      space.Sound ∧ space.Usable := by
    obtain ⟨layout, laidOut, spaceSound, sameLayout⟩ := sound.laidOut found
    exact ⟨spaceSound, sameLayout.usable (usable laidOut)⟩
  cases op with
  | allocate name family now =>
      rw [FakeIpPool.step, allocate]
      split_ifs
      · exact within
      · refine within.onSpace family _ fun {space} found => ?_
        obtain ⟨after, key, allocated, -, layout, -, -, bounded⟩ :=
          Space.allocate_spec (spaces found).1 (spaces found).2 name now
        rw [allocated, layout.cap]
        exact bounded.trans (max_le (within _ _ found) le_rfl)
  | lookup ip now =>
      rw [FakeIpPool.step, lookup]
      cases ip.familyKey with
      | none => exact within
      | some located =>
          refine within.onSpace_of_le located.1 _ fun {space} found => ?_
          obtain ⟨-, layout, -, same, -⟩ := Space.lookup_spec (spaces found).1 located.2 now
          exact ⟨layout, same.le⟩
  | restore name ip now =>
      rw [FakeIpPool.step, restore]
      cases isKey : ip.familyKey with
      | none => exact within
      | some located =>
          refine within.onSpace located.1 _ fun {space} found => ?_
          obtain ⟨-, layout, size⟩ := Space.restore_spec (spaces found).1 name located.2 now
          rw [size, layout.cap]
          split_ifs with grows
          · exact fits located.1 located.2 isKey space found grows
          · exact within _ _ found
  | cleanupExpired now =>
      have swept : (pool.onSpace .v4 0 fun space => space.cleanupExpired now).1.WithinCap := by
        refine within.onSpace_of_le .v4 0 fun {space} found => ?_
        obtain ⟨-, layout, fewer⟩ := Space.cleanupExpired_spec (spaces found).1 now
        exact ⟨layout, fewer⟩
      refine swept.onSpace_of_le .v6 0 fun {space} found => ?_
      rw [onSpace_other (by decide)] at found
      obtain ⟨-, layout, fewer⟩ := Space.cleanupExpired_spec (spaces found).1 now
      exact ⟨layout, fewer⟩
  | release name family =>
      refine within.onSpace_of_le family _ fun {space} found => ?_
      obtain ⟨-, layout, fewer⟩ := Space.release_spec (spaces found).1 name
      exact ⟨layout, fewer⟩
  | clear =>
      have kept {pool : FakeIpPool} (family : Family) (within : pool.WithinCap) :
          (pool.onSpace family () fun space => (space.clear, ())).1.WithinCap :=
        within.onSpace_of_le family () fun {space} _ =>
          ⟨(Space.clear_spec space).2.1, (Space.clear_spec space).2.2⟩
      exact kept .v6 (kept .v4 within)

end FakeIpPool

/-- **The cap holds where restores fit.** In every run in which no restore enters a new mapping
into a family that is at its cap, every family holds at most as many mappings as the smaller of
its range and the configured maximum. -/
theorem fakeIp_within_cap (settings : FakeIpSettings) {ops : List FakeIpOp} {pool : FakeIpPool}
    (runs : Runs (fun pool op => some (pool.step op)) FakeIpPool.RestoreFits settings.build ops pool)
    (family : Family) :
    pool.lenFor family ≤ min (settings.rangeSize family) settings.maxEntries := by
  have usable {family layout} (found : settings.build.space family = some layout) : layout.Usable :=
    (FakeIpSettings.space_build found).1
  have initial : settings.build.WithinCap := by
    intro family layout found
    rw [(FakeIpSettings.space_build found).2.2.2.2.1]
    exact Nat.zero_le _
  have keeps {state next : FakeIpPool} {op : FakeIpOp}
      (kept : FakeIpPool.Sound settings.build state ∧ state.WithinCap) (fits : state.RestoreFits op)
      (taken : some (state.step op) = some next) :
      FakeIpPool.Sound settings.build next ∧ next.WithinCap := by
    obtain rfl := Option.some.inj taken
    exact ⟨kept.1.step usable op, kept.2.step kept.1 usable fits⟩
  obtain ⟨sound, within⟩ := runs.invariant keeps ⟨settings.sound_run [], initial⟩
  unfold FakeIpPool.lenFor
  cases found : pool.space family with
  | none => exact Nat.zero_le _
  | some space =>
      obtain ⟨layout, laidOut, -, same⟩ := sound.laidOut found
      have capped := space.cap_le
      rw [same.first, same.last, same.maxEntries, FakeIpSettings.size_build laidOut,
        (FakeIpSettings.space_build laidOut).2.2.2.1,
        max_eq_left (Nat.one_le_iff_ne_zero.mpr settings.maxEntries_pos)] at capped
      exact (within family space found).trans capped

/-- A restore into an empty pool fits. -/
theorem fakeIp_within_cap_restored :
    ((smallSettings []).build.step (.restore lanName (.v4 (ipv4 198 18 0 1)) 0)).lenFor .v4 ≤
      min ((smallSettings []).rangeSize .v4) (smallSettings []).maxEntries := by
  refine fakeIp_within_cap (smallSettings []) (.step .refl ?_ rfl) .v4
  intro family key isKey space found _
  obtain rfl : Family.v4 = family := congrArg Prod.fst (Option.some.inj isKey)
  obtain rfl := Option.some.inj found
  decide

/-- Two mappings of a snapshot are restored into a pool with a cap of one. -/
theorem restore_exceeds_cap :
    let pool := [FakeIpOp.restore lanName (.v4 (ipv4 198 18 0 1)) 0,
        .restore ⟨[1, 97, 0]⟩ (.v4 (ipv4 198 18 0 2)) 0].foldl FakeIpPool.step (smallSettings []).build
    min ((smallSettings []).rangeSize .v4) (smallSettings []).maxEntries < pool.lenFor .v4 := by
  decide

end RecurseX
