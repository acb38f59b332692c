import RecurseX.Library.Runs
import RecurseX.Resolver.Bailiwick

/-!
# Coalescing of identical in-flight resolutions

One thread resolves a key, everyone else waits for its result. The table, the
slots, the owners and the waiters form one system; an action is one critical
section or one atomic access of some thread, so that a run is an interleaving.
Keys and values are arbitrary: nothing here looks into a query or its result.
-/

namespace RecurseX

open Library Std

/-- A slot that the waiters for one in-flight query block on. -/
structure Slot (κ ν : Type) where
  /-- The key it was made for. -/
  key : κ
  result : Option ν
  /-- Set once a result has been published. -/
  done : Bool
deriving DecidableEq

/-- How far an owner is. Publishing a result is four steps: it is put into the
slot, the slot is marked as done, the waiters are woken, the key is released. -/
inductive Phase where
  | working
  | filled
  | marked
  | notified
deriving DecidableEq, Repr

/-- What the phase of an owner says about its slot. -/
def Phase.Of {κ ν : Type} (phase : Phase) (slot : Slot κ ν) : Prop :=
  match phase with
  | .working => slot.result = none ∧ slot.done = false
  | .filled => slot.result.isSome = true ∧ slot.done = false
  | .marked => slot.done = true
  | .notified => slot.done = true

/-- The right to resolve one key, and the obligation to publish a result. -/
structure Owner (κ : Type) where
  key : κ
  slot : Nat
  phase : Phase
deriving DecidableEq

/-- How far a waiter is. -/
inductive WaitStatus (ν : Type) where
  /-- About to look at the slot. -/
  | waiting
  /-- Asleep until it is woken. -/
  | parked
  | received (value : ν)
deriving DecidableEq

/-- A caller that waits on the slot of another. -/
structure Waiter (κ ν : Type) where
  key : κ
  slot : Nat
  status : WaitStatus ν
deriving DecidableEq

/-- A value that was handed to a slot, and the key it was resolved for. -/
structure Publication (κ ν : Type) where
  slot : Nat
  key : κ
  value : ν
deriving DecidableEq

/-- The in-flight table and everybody who has to do with it. The slots are all
those there ever were; the publications are history. -/
structure Inflight (κ ν : Type) (cmp : κ → κ → Ordering) where
  table : TreeMap κ Nat cmp
  max : Nat
  slots : List (Slot κ ν)
  owners : List (Owner κ)
  waiters : List (Waiter κ ν)
  publications : List (Publication κ ν)

/-- What some thread does next. Owners and waiters go by their position. -/
inductive InflightAction (κ ν : Type) where
  | claim (key : κ)
  /-- `Owner::publish` hands its result to the slot. -/
  | publish (owner : Nat) (value : ν)
  /-- The owner is dropped before it has published. -/
  | abandon (owner : Nat)
  | mark (owner : Nat)
  | notify (owner : Nat)
  /-- Drop the key from the table, if its lock is free. -/
  | release (owner : Nat) (locked : Bool)
  | read (waiter : Nat)
  /-- A spurious wake-up. -/
  | wake (waiter : Nat)

namespace Inflight

variable {κ ν : Type} {cmp : κ → κ → Ordering}

/-- An empty table. -/
def new (max : Nat) : Inflight κ ν cmp := ⟨∅, Nat.max max 1, [], [], [], []⟩

/-- Whether a slot is done. -/
def isDone (self : Inflight κ ν cmp) (slot : Nat) : Bool :=
  ((self.slots[slot]?).map Slot.done).getD false

/-- Drop the smallest key. -/
def popFirst (table : TreeMap κ Nat cmp) : TreeMap κ Nat cmp :=
  match table.minKey? with
  | some key => table.erase key
  | none => table

/-- Install a new slot for a key, whose caller owns it. -/
def install (self : Inflight κ ν cmp) (key : κ) : Inflight κ ν cmp :=
  let table := if self.max ≤ self.table.size then popFirst self.table else self.table
  { self with
    table := table.insert key self.slots.length
    slots := self.slots ++ [⟨key, none, false⟩]
    owners := self.owners ++ [⟨key, self.slots.length, .working⟩] }

/-- Claim a key: wait on the slot that is in flight, or own a new one. -/
def claim (self : Inflight κ ν cmp) (key : κ) : Inflight κ ν cmp :=
  match self.table[key]? with
  | some slot =>
      if self.isDone slot then install { self with table := self.table.erase key } key
      else { self with waiters := self.waiters ++ [⟨key, slot, .waiting⟩] }
  | none => self.install key

/-- Put a value into the owner's slot; the first one wins. -/
def fill (self : Inflight κ ν cmp) (index : Nat) (value : ν) : Option (Inflight κ ν cmp) :=
  match self.owners[index]? with
  | some ⟨key, slot, .working⟩ =>
      let publications := self.publications ++ [⟨slot, key, value⟩]
      match self.slots[slot]? with
      | some ⟨made, none, done⟩ =>
          some { self with
            slots := self.slots.set slot ⟨made, some value, done⟩
            owners := self.owners.set index ⟨key, slot, .filled⟩
            publications := publications }
      | _ =>
          some { self with
            owners := self.owners.set index ⟨key, slot, .marked⟩
            publications := publications }
  | _ => none

/-- Mark the owner's slot as done. -/
def mark (self : Inflight κ ν cmp) (index : Nat) : Option (Inflight κ ν cmp) :=
  match self.owners[index]? with
  | some ⟨key, slot, .filled⟩ =>
      (self.slots[slot]?).map fun held =>
        { self with
          slots := self.slots.set slot { held with done := true }
          owners := self.owners.set index ⟨key, slot, .marked⟩ }
  | _ => none

/-- A waiter after the waiters of a slot were woken. -/
def woken (slot : Nat) (waiter : Waiter κ ν) : Waiter κ ν :=
  match waiter.status with
  | .parked => if waiter.slot = slot then { waiter with status := .waiting } else waiter
  | _ => waiter

/-- Wake the waiters of the owner's slot. -/
def notify (self : Inflight κ ν cmp) (index : Nat) : Option (Inflight κ ν cmp) :=
  match self.owners[index]? with
  | some ⟨key, slot, .marked⟩ =>
      some { self with
        waiters := self.waiters.map (woken slot)
        owners := self.owners.set index ⟨key, slot, .notified⟩ }
  | _ => none

/-- The owner goes; with the lock it drops its key from the table. -/
def release (self : Inflight κ ν cmp) (index : Nat) (locked : Bool) : Option (Inflight κ ν cmp) :=
  match self.owners[index]? with
  | some ⟨key, _, .notified⟩ =>
      some { self with
        table := if locked then self.table.erase key else self.table
        owners := self.owners.eraseIdx index }
  | _ => none

/-- Look at the slot, unless an owner holds its lock: take the value, or sleep. -/
def read (self : Inflight κ ν cmp) (index : Nat) : Option (Inflight κ ν cmp) :=
  match self.waiters[index]? with
  | some ⟨key, slot, .waiting⟩ =>
      if self.owners.any fun owner => owner.slot = slot ∧ owner.phase = .filled then none
      else
        let status := match (self.slots[slot]?).bind Slot.result with
          | some value => .received value
          | none => .parked
        some { self with waiters := self.waiters.set index ⟨key, slot, status⟩ }
  | _ => none

/-- A waiter wakes up for no reason. -/
def wake (self : Inflight κ ν cmp) (index : Nat) : Option (Inflight κ ν cmp) :=
  match self.waiters[index]? with
  | some ⟨key, slot, .parked⟩ =>
      some { self with waiters := self.waiters.set index ⟨key, slot, .waiting⟩ }
  | _ => none

/-- One action; `none` when it cannot be taken. `aborted` is what an owner that is
dropped publishes. -/
def step (aborted : ν) (self : Inflight κ ν cmp) :
    InflightAction κ ν → Option (Inflight κ ν cmp)
  | .claim key => some (self.claim key)
  | .publish owner value => self.fill owner value
  | .abandon owner => self.fill owner aborted
  | .mark owner => self.mark owner
  | .notify owner => self.notify owner
  | .release owner locked => self.release owner locked
  | .read waiter => self.read waiter
  | .wake waiter => self.wake waiter

/-! ## The keys of the slots -/

/-- The keys that slots were made for. -/
def slotKeys (self : Inflight κ ν cmp) : List κ := self.slots.map Slot.key

section SlotKeys

variable {state next : Inflight κ ν cmp}

theorem slotKeys_claim (key : κ) : state.slotKeys <+: (state.claim key).slotKeys := by
  have installed (table : TreeMap κ Nat cmp) :
      state.slotKeys <+: (install { state with table := table } key).slotKeys := by
    rw [slotKeys, slotKeys, install, List.map_append]
    exact List.prefix_append _ _
  unfold claim
  split
  · split_ifs
    · exact installed _
    · exact List.prefix_rfl
  · exact installed state.table

/-- A slot that changes keeps its key. -/
theorem slotKeys_set {slot : Nat} {held later : Slot κ ν} (located : state.slots[slot]? = some held)
    (same : later.key = held.key) : (state.slots.set slot later).map Slot.key = state.slotKeys := by
  obtain ⟨before, after, listed, replaced, _⟩ := exists_focus located
  rw [replaced, slotKeys, listed, List.map_append, List.map_append, List.map_cons, List.map_cons,
    same]

theorem slotKeys_fill {index : Nat} {value : ν}
    (taken : state.fill index value = some next) : next.slotKeys = state.slotKeys := by
  unfold fill at taken
  split at taken
  · dsimp only at taken
    split at taken
    · rename_i located
      obtain rfl := Option.some.inj taken
      exact slotKeys_set located rfl
    · obtain rfl := Option.some.inj taken
      rfl
  · cases taken

theorem slotKeys_mark {index : Nat}
    (taken : state.mark index = some next) : next.slotKeys = state.slotKeys := by
  unfold mark at taken
  split at taken
  · obtain ⟨held, located, rfl⟩ := Option.map_eq_some_iff.mp taken
    exact slotKeys_set located rfl
  · cases taken

/-- Slots come and none of them changes its key. -/
theorem slotKeys_step {aborted : ν} {action : InflightAction κ ν}
    (taken : state.step aborted action = some next) : state.slotKeys <+: next.slotKeys := by
  cases action with
  | claim key =>
      obtain rfl := Option.some.inj taken
      exact slotKeys_claim key
  | publish owner value => exact (slotKeys_fill taken).symm ▸ List.prefix_rfl
  | abandon owner => exact (slotKeys_fill taken).symm ▸ List.prefix_rfl
  | mark owner => exact (slotKeys_mark taken).symm ▸ List.prefix_rfl
  | notify owner =>
      simp only [step, notify] at taken
      split at taken
      · obtain rfl := Option.some.inj taken
        exact List.prefix_rfl
      · cases taken
  | release owner locked =>
      simp only [step, release] at taken
      split at taken
      · obtain rfl := Option.some.inj taken
        exact List.prefix_rfl
      · cases taken
  | read waiter =>
      simp only [step, read] at taken
      split at taken
      · split_ifs at taken
        obtain rfl := Option.some.inj taken
        exact List.prefix_rfl
      · cases taken
  | wake waiter =>
      simp only [step, wake] at taken
      split at taken
      · obtain rfl := Option.some.inj taken
        exact List.prefix_rfl
      · cases taken

end SlotKeys

/-! ## The invariant -/

/-- The first value published to a slot. -/
def firstPublished (self : Inflight κ ν cmp) (slot : Nat) : Option (Publication κ ν) :=
  self.publications.find? fun publication => publication.slot == slot

/-- The table, the slots and the parties agree with each other. -/
structure Sound (limit : Nat) (state : Inflight κ ν cmp) : Prop where
  capacity : state.max = limit
  positive : 1 ≤ state.max
  bounded : state.table.size ≤ state.max
  installed : ∀ {key : κ} {slot : Nat}, state.table[key]? = some slot →
    ∃ held, state.slots[slot]? = some held ∧ held.key = key
  owning : ∀ {owner : Owner κ}, owner ∈ state.owners →
    ∃ held, state.slots[owner.slot]? = some held ∧ held.key = owner.key ∧ owner.phase.Of held
  single : (state.owners.map Owner.slot).Nodup
  attended : ∀ {slot : Nat} {held : Slot κ ν}, state.slots[slot]? = some held →
    held.done = false → slot ∈ state.owners.map Owner.slot
  finished : ∀ {slot : Nat} {held : Slot κ ν}, state.slots[slot]? = some held →
    held.done = true → held.result.isSome = true
  recorded : ∀ {slot : Nat} {held : Slot κ ν}, state.slots[slot]? = some held →
    held.result = (state.firstPublished slot).map Publication.value
  keyed : ∀ {publication : Publication κ ν}, publication ∈ state.publications →
    ∃ held, state.slots[publication.slot]? = some held ∧ held.key = publication.key
  waits : ∀ {waiter : Waiter κ ν}, waiter ∈ state.waiters →
    ∃ held, state.slots[waiter.slot]? = some held ∧ held.key = waiter.key ∧
      ∀ value, waiter.status = .received value → held.result = some value
  parked : ∀ {waiter : Waiter κ ν}, waiter ∈ state.waiters → waiter.status = .parked →
    ∃ owner ∈ state.owners, owner.slot = waiter.slot ∧ owner.phase ≠ .notified

variable {limit : Nat} {state : Inflight κ ν cmp}

/-! ## Owners and waiters -/

/-- Slots that are added change none of those there are. -/
theorem getElem?_slots_append {slot : Nat} {held added : Slot κ ν}
    (found : state.slots[slot]? = some held) :
    (state.slots ++ [added])[slot]? = some held :=
  (List.getElem?_append_left (List.getElem?_eq_some_iff.mp found).1).trans found

theorem lt_of_getElem?_slots {slot : Nat} {held : Slot κ ν}
    (found : state.slots[slot]? = some held) : slot < state.slots.length :=
  (List.getElem?_eq_some_iff.mp found).1

/-- A slot of the longer list is an old one or the new one. -/
theorem slots_append_cases {slot : Nat} {held added : Slot κ ν}
    (found : (state.slots ++ [added])[slot]? = some held) :
    state.slots[slot]? = some held ∨ slot = state.slots.length ∧ held = added := by
  rw [List.getElem?_append] at found
  split_ifs at found with old
  · exact .inl found
  · obtain ⟨inside, rfl⟩ := List.getElem?_eq_some_iff.mp found
    rw [List.length_singleton] at inside
    refine .inr ⟨by omega, ?_⟩
    simp

/-- A slot of the list in which one slot was replaced. -/
theorem slots_set_cases {slot other : Nat} {held replaced : Slot κ ν}
    (found : (state.slots.set slot replaced)[other]? = some held) :
    slot = other ∧ held = replaced ∨ slot ≠ other ∧ state.slots[other]? = some held := by
  rw [List.getElem?_set] at found
  split_ifs at found with same inside
  · exact .inl ⟨same, (Option.some.inj found).symm⟩
  · exact .inr ⟨same, found⟩

/-- Replacing a slot keeps all slots in place. -/
theorem getElem?_slots_set {slot other : Nat} {held replaced old : Slot κ ν}
    (located : state.slots[slot]? = some held) (found : state.slots[other]? = some old) :
    (state.slots.set slot replaced)[other]? = some (if slot = other then replaced else old) := by
  rw [List.getElem?_set]
  split_ifs with same inside
  · rfl
  · exact absurd (lt_of_getElem?_slots located) inside
  · exact found

/-- No other owner has the slot of an owner. -/
theorem Sound.others (sound : state.Sound limit) {before after : List (Owner κ)} {owner other : Owner κ}
    (listed : state.owners = before ++ owner :: after) (member : other ∈ before ++ after) :
    other.slot ≠ owner.slot := by
  have single := sound.single
  rw [listed, List.map_append, List.map_cons, List.nodup_middle, ← List.map_append] at single
  intro same
  exact (List.nodup_cons.mp single).1 (same ▸ List.mem_map_of_mem member)

/-- An owner goes on to its next phase and its slot with it. -/
theorem Sound.advance (sound : state.Sound limit) {index slot : Nat} {key : κ} {phase later : Phase}
    {held replaced : Slot κ ν} {publications : List (Publication κ ν)}
    (owns : state.owners[index]? = some ⟨key, slot, phase⟩)
    (located : state.slots[slot]? = some held) (sameKey : replaced.key = held.key)
    (fits : later.Of replaced)
    (awake : ∀ waiter ∈ state.waiters, waiter.status = .parked → waiter.slot = slot →
      later ≠ .notified)
    (finished : replaced.done = true → replaced.result.isSome = true)
    (kept : ∀ value, held.result = some value → replaced.result = some value)
    (published : ∀ other, slot ≠ other →
      publications.find? (fun publication => publication.slot == other) = state.firstPublished other)
    (recorded : replaced.result = (publications.find?
      fun publication => publication.slot == slot).map Publication.value)
    (keyed : ∀ publication ∈ publications, publication ∈ state.publications ∨
      publication.slot = slot ∧ publication.key = held.key) :
    Sound limit { state with
      slots := state.slots.set slot replaced
      owners := state.owners.set index ⟨key, slot, later⟩
      publications := publications } := by
  obtain ⟨before, after, listed, replacing, _⟩ := exists_focus owns
  have owned : (⟨key, slot, phase⟩ : Owner κ) ∈ state.owners := List.mem_of_getElem? owns
  have moved {other : Nat} {old : Slot κ ν} (found : state.slots[other]? = some old) :
      ∃ held, (state.slots.set slot replaced)[other]? = some held ∧ held.key = old.key ∧
        ∀ value, old.result = some value → held.result = some value := by
    refine ⟨_, getElem?_slots_set located found, ?_⟩
    split_ifs with same
    · subst same
      obtain rfl := Option.some.inj (located.symm.trans found)
      exact ⟨sameKey, kept⟩
    · exact ⟨rfl, fun _ => id⟩
  have sameSlots : (state.owners.set index ⟨key, slot, later⟩).map Owner.slot =
      state.owners.map Owner.slot := by
    rw [replacing, listed]
    simp
  refine { sound with
    installed := ?_, owning := ?_, single := ?_, attended := ?_, finished := ?_,
    recorded := ?_, keyed := ?_, waits := ?_, parked := ?_ }
  · intro other installed found
    obtain ⟨old, located, keyed⟩ := sound.installed found
    obtain ⟨held, found, same, _⟩ := moved located
    exact ⟨held, found, same.trans keyed⟩
  · intro owner member
    rw [replacing, mem_focus] at member
    obtain ⟨old, found, keyedOld, _⟩ := sound.owning owned
    obtain rfl := Option.some.inj (located.symm.trans found)
    rcases member with rfl | other
    · exact ⟨replaced, by simpa using getElem?_slots_set located located, sameKey.trans keyedOld,
        fits⟩
    · have different := sound.others listed other
      obtain ⟨old, found, keyed, fitting⟩ := sound.owning (listed ▸ mem_focus.mpr (.inr other))
      refine ⟨old, ?_, keyed, fitting⟩
      rw [getElem?_slots_set located found, if_neg different.symm]
  · rw [sameSlots]
    exact sound.single
  · intro other old found pending
    rw [sameSlots]
    rcases slots_set_cases found with ⟨rfl, rfl⟩ | ⟨_, found⟩
    · exact List.mem_map_of_mem owned
    · exact sound.attended found pending
  · intro other old found done
    rcases slots_set_cases found with ⟨rfl, rfl⟩ | ⟨_, found⟩
    · exact finished done
    · exact sound.finished found done
  · intro other old found
    change old.result = (publications.find? fun publication => publication.slot == other).map _
    rcases slots_set_cases found with ⟨rfl, rfl⟩ | ⟨different, found⟩
    · exact recorded
    · rw [published other different]
      exact sound.recorded found
  · intro publication member
    rcases keyed publication member with old | ⟨rfl, same⟩
    · obtain ⟨old, located, keyed⟩ := sound.keyed old
      obtain ⟨held, found, same, _⟩ := moved located
      exact ⟨held, found, same.trans keyed⟩
    · obtain ⟨held, found, sameAgain, _⟩ := moved located
      exact ⟨held, found, sameAgain.trans same.symm⟩
  · intro waiter member
    obtain ⟨old, located, keyed, receives⟩ := sound.waits member
    obtain ⟨held, found, same, stays⟩ := moved located
    exact ⟨held, found, same.trans keyed, fun value got => stays value (receives value got)⟩
  · intro waiter member asleep
    obtain ⟨owner, owns, awaited, awakes⟩ := sound.parked member asleep
    rw [listed, mem_focus] at owns
    change ∃ owner ∈ state.owners.set index ⟨key, slot, later⟩, _
    rw [replacing]
    rcases owns with rfl | other
    · exact ⟨⟨key, slot, later⟩, mem_focus.mpr (.inl rfl), awaited,
        awake waiter member asleep awaited.symm⟩
    · exact ⟨owner, mem_focus.mpr (.inr other), awaited, awakes⟩

theorem Sound.fill (sound : state.Sound limit) {index : Nat} {value : ν} {next : Inflight κ ν cmp}
    (taken : state.fill index value = some next) : next.Sound limit := by
  unfold Inflight.fill at taken
  split at taken
  · rename_i key slot owns
    obtain ⟨held, located, keyed, nothing, pending⟩ := sound.owning (List.mem_of_getElem? owns)
    obtain ⟨made, result, done⟩ := held
    obtain rfl : result = none := nothing
    obtain rfl : done = false := pending
    have first : state.firstPublished slot = none := by
      have recorded := sound.recorded located
      rw [eq_comm, Option.map_eq_none_iff] at recorded
      exact recorded
    dsimp only at located taken
    rw [located] at taken
    obtain rfl := Option.some.inj taken
    refine sound.advance owns located rfl ⟨rfl, rfl⟩ (fun _ _ _ _ => nofun) nofun nofun ?_ ?_ ?_
    · intro other different
      rw [List.find?_append]
      simp [different, Inflight.firstPublished]
    · rw [List.find?_append]
      change _ = ((state.firstPublished slot).or _).map _
      rw [first]
      simp
    · intro publication member
      rcases List.mem_append.mp member with old | new
      · exact .inl old
      · obtain rfl := List.mem_singleton.mp new
        exact .inr ⟨rfl, keyed.symm⟩
  · cases taken

theorem Sound.mark (sound : state.Sound limit) {index : Nat} {next : Inflight κ ν cmp}
    (taken : state.mark index = some next) : next.Sound limit := by
  unfold Inflight.mark at taken
  split at taken
  · rename_i key slot owns
    obtain ⟨held, located, keyed, something, pending⟩ := sound.owning (List.mem_of_getElem? owns)
    dsimp only at located
    rw [located] at taken
    obtain rfl := Option.some.inj taken
    have recorded : held.result = (state.firstPublished slot).map Publication.value :=
      sound.recorded located
    exact sound.advance owns located rfl rfl (fun _ _ _ _ => nofun) (fun _ => something)
      (fun _ => id) (fun _ _ => rfl) recorded fun _ => .inl
  · cases taken

theorem woken_cases (slot : Nat) (waiter : Waiter κ ν) :
    woken slot waiter = waiter ∧ (waiter.status = .parked → waiter.slot ≠ slot) ∨
      woken slot waiter = { waiter with status := .waiting } := by
  obtain ⟨key, own, status⟩ := waiter
  cases status with
  | parked =>
      by_cases same : own = slot
      · exact .inr (if_pos same)
      · exact .inl ⟨if_neg same, fun _ => same⟩
  | _ => exact .inl ⟨rfl, nofun⟩

theorem Sound.wakeAll (sound : state.Sound limit) (slot : Nat) :
    Sound limit { state with waiters := state.waiters.map (woken slot) } := by
  refine { sound with waits := ?_, parked := ?_ }
  · intro waiter member
    obtain ⟨old, waited, rfl⟩ := List.mem_map.mp member
    obtain ⟨held, located, keyed, receives⟩ := sound.waits waited
    rcases woken_cases slot old with ⟨same, _⟩ | awake
    · rw [same]
      exact ⟨held, located, keyed, receives⟩
    · rw [awake]
      exact ⟨held, located, keyed, nofun⟩
  · intro waiter member asleep
    obtain ⟨old, waited, rfl⟩ := List.mem_map.mp member
    rcases woken_cases slot old with ⟨same, _⟩ | awake
    · rw [same] at asleep ⊢
      exact sound.parked waited asleep
    · rw [awake] at asleep
      cases asleep

theorem Sound.notify (sound : state.Sound limit) {index : Nat} {next : Inflight κ ν cmp}
    (taken : state.notify index = some next) : next.Sound limit := by
  unfold Inflight.notify at taken
  split at taken
  · rename_i key slot owns
    obtain rfl := Option.some.inj taken
    obtain ⟨held, located, keyed, done⟩ := sound.owning (List.mem_of_getElem? owns)
    have recorded : held.result = (state.firstPublished slot).map Publication.value :=
      sound.recorded located
    have unchanged : state.slots.set slot held = state.slots := by
      obtain ⟨inside, rfl⟩ := List.getElem?_eq_some_iff.mp located
      exact List.set_getElem_self inside
    have awake : ∀ waiter ∈ state.waiters.map (woken slot), waiter.status = .parked →
        waiter.slot = slot → Phase.notified ≠ .notified := by
      intro waiter member asleep same
      obtain ⟨old, _, rfl⟩ := List.mem_map.mp member
      rcases woken_cases slot old with ⟨stays, elsewhere⟩ | awake
      · rw [stays] at asleep same
        exact absurd same (elsewhere asleep)
      · rw [awake] at asleep
        cases asleep
    have advanced : Sound limit { state with
        waiters := state.waiters.map (woken slot)
        slots := state.slots.set slot held
        owners := state.owners.set index ⟨key, slot, .notified⟩
        publications := state.publications } :=
      (sound.wakeAll slot).advance owns located rfl done awake
        (fun _ => sound.finished located done) (fun _ => id) (fun _ _ => rfl) recorded
        fun _ => .inl
    rw [unchanged] at advanced
    exact advanced
  · cases taken

theorem Sound.read (sound : state.Sound limit) {index : Nat} {next : Inflight κ ν cmp}
    (taken : state.read index = some next) : next.Sound limit := by
  unfold Inflight.read at taken
  split at taken
  · rename_i key slot waits
    split_ifs at taken
    obtain rfl := Option.some.inj taken
    obtain ⟨held, located, keyed, _⟩ := sound.waits (List.mem_of_getElem? waits)
    dsimp only at located
    rw [located, Option.bind_some]
    cases seen : held.result with
    | some value =>
        refine { sound with waits := ?_, parked := ?_ }
        · intro waiter member
          rcases List.mem_or_eq_of_mem_set member with old | rfl
          · exact sound.waits old
          · refine ⟨held, located, keyed, fun got received => ?_⟩
            obtain rfl := WaitStatus.received.inj received
            exact seen
        · intro waiter member asleep
          rcases List.mem_or_eq_of_mem_set member with old | rfl
          · exact sound.parked old asleep
          · cases asleep
    | none =>
        -- Nothing is published, so the slot still has an owner at work.
        have pending : held.done = false := by
          by_contra done
          have published := sound.finished located (Bool.eq_true_of_not_eq_false done)
          rw [seen] at published
          cases published
        obtain ⟨owner, owns, same⟩ := List.mem_map.mp (sound.attended located pending)
        refine { sound with waits := ?_, parked := ?_ }
        · intro waiter member
          rcases List.mem_or_eq_of_mem_set member with old | rfl
          · exact sound.waits old
          · exact ⟨held, located, keyed, nofun⟩
        · intro waiter member asleep
          rcases List.mem_or_eq_of_mem_set member with old | rfl
          · exact sound.parked old asleep
          · refine ⟨owner, owns, same, fun notified => ?_⟩
            obtain ⟨own, found, _, fits⟩ := sound.owning owns
            rw [same, located] at found
            obtain rfl := Option.some.inj found
            rw [notified] at fits
            exact absurd (fits.symm.trans pending) nofun
  · cases taken

theorem Sound.wake (sound : state.Sound limit) {index : Nat} {next : Inflight κ ν cmp}
    (taken : state.wake index = some next) : next.Sound limit := by
  unfold Inflight.wake at taken
  split at taken
  · rename_i key slot waits
    obtain rfl := Option.some.inj taken
    obtain ⟨held, located, keyed, _⟩ := sound.waits (List.mem_of_getElem? waits)
    refine { sound with waits := ?_, parked := ?_ }
    · intro waiter member
      rcases List.mem_or_eq_of_mem_set member with old | rfl
      · exact sound.waits old
      · exact ⟨held, located, keyed, nofun⟩
    · intro waiter member asleep
      rcases List.mem_or_eq_of_mem_set member with old | rfl
      · exact sound.parked old asleep
      · cases asleep
  · cases taken

/-! ## The table -/

variable [TransCmp cmp]

theorem sound_new (max : Nat) : (new max : Inflight κ ν cmp).Sound (Nat.max max 1) where
  capacity := rfl
  positive := Nat.le_max_right max 1
  bounded := Nat.zero_le _
  installed found := by simp [new] at found
  owning member := by cases member
  single := List.nodup_nil
  attended found := by cases found
  finished found := by cases found
  recorded found := by cases found
  keyed member := by cases member
  waits member := by cases member
  parked member := by cases member

theorem getElem?_of_popFirst {table : TreeMap κ Nat cmp} {key : κ} {slot : Nat}
    (found : (popFirst table)[key]? = some slot) : table[key]? = some slot := by
  unfold popFirst at found
  split at found
  · rw [TreeMap.getElem?_erase] at found
    split_ifs at found
    exact found
  · exact found

/-- The table that a new key goes into. -/
def madeRoom (state : Inflight κ ν cmp) : TreeMap κ Nat cmp :=
  if state.max ≤ state.table.size then popFirst state.table else state.table

theorem getElem?_of_madeRoom {key : κ} {slot : Nat} (found : state.madeRoom[key]? = some slot) :
    state.table[key]? = some slot := by
  unfold madeRoom at found
  split_ifs at found
  · exact getElem?_of_popFirst found
  · exact found

/-- A key that leaves the table leaves the rest as it is. -/
theorem Sound.forget (sound : state.Sound limit) (key : κ) :
    Sound limit { state with table := state.table.erase key } :=
  { sound with
    bounded := Nat.le_trans TreeMap.size_erase_le sound.bounded
    installed := by
      intro other slot found
      rw [TreeMap.getElem?_erase] at found
      split_ifs at found
      exact sound.installed found }

/-- An owner that has woken everybody goes. -/
theorem Sound.release (sound : state.Sound limit) {index : Nat} {locked : Bool}
    {next : Inflight κ ν cmp} (taken : state.release index locked = some next) : next.Sound limit := by
  unfold Inflight.release at taken
  split at taken
  · rename_i key slot owns
    obtain rfl := Option.some.inj taken
    obtain ⟨before, after, listed, _, erasing⟩ := exists_focus owns
    obtain ⟨released, located, _, done⟩ := sound.owning (List.mem_of_getElem? owns)
    have gone : Sound limit { state with owners := state.owners.eraseIdx index } := by
      refine { sound with owning := ?_, single := ?_, attended := ?_, parked := ?_ }
      · intro owner member
        rw [erasing] at member
        exact sound.owning (listed ▸ mem_focus.mpr (.inr member))
      · have single := sound.single
        rw [listed, List.map_append, List.map_cons, List.nodup_middle, ← List.map_append] at single
        rw [erasing]
        exact (List.nodup_cons.mp single).2
      · intro other held found pending
        obtain ⟨owner, member, rfl⟩ := List.mem_map.mp (sound.attended found pending)
        rw [erasing]
        rw [listed, mem_focus] at member
        rcases member with rfl | other
        · obtain rfl := Option.some.inj (located.symm.trans found)
          exact absurd (done.symm.trans pending) nofun
        · exact List.mem_map_of_mem other
      · intro waiter member asleep
        obtain ⟨owner, owns, awaited, awakes⟩ := sound.parked member asleep
        rw [listed, mem_focus] at owns
        change ∃ owner ∈ state.owners.eraseIdx index, _
        rw [erasing]
        rcases owns with rfl | other
        · exact absurd rfl awakes
        · exact ⟨owner, other, awaited, awakes⟩
    cases locked with
    | false => exact gone
    | true => exact gone.forget key
  · cases taken

variable [LawfulEqCmp cmp]

theorem size_popFirst {table : TreeMap κ Nat cmp} (nonempty : 1 ≤ table.size) :
    (popFirst table).size + 1 = table.size := by
  unfold popFirst
  split
  · rename_i key smallest
    have member : key ∈ table := (TreeMap.minKey?_eq_some_iff_mem_and_forall.mp smallest).1
    rw [TreeMap.size_erase, if_pos (TreeMap.mem_iff_contains.mp member)]
    omega
  · rename_i none_
    have empty : table.isEmpty = true := TreeMap.minKey?_eq_none_iff.mp none_
    rw [TreeMap.isEmpty_eq_size_eq_zero, beq_iff_eq] at empty
    omega

theorem Sound.size_madeRoom (sound : state.Sound limit) : state.madeRoom.size + 1 ≤ state.max := by
  unfold madeRoom
  split_ifs with full
  · rw [size_popFirst (Nat.le_trans sound.positive full)]
    exact sound.bounded
  · omega

/-- A new slot with its owner keeps the parties in agreement. -/
theorem Sound.install (sound : state.Sound limit) (key : κ) : (state.install key).Sound limit where
  capacity := sound.capacity
  positive := sound.positive
  bounded := by
    change (state.madeRoom.insert key state.slots.length).size ≤ state.max
    have room := sound.size_madeRoom
    rw [TreeMap.size_insert]
    split_ifs <;> omega
  installed := by
    intro other slot found
    change (state.madeRoom.insert key state.slots.length)[other]? = some slot at found
    rw [TreeMap.getElem?_insert] at found
    split_ifs at found with same
    · obtain rfl := Option.some.inj found
      exact ⟨⟨key, none, false⟩, List.getElem?_concat_length, LawfulEqCmp.eq_of_compare same⟩
    · obtain ⟨held, located, keyed⟩ := sound.installed (getElem?_of_madeRoom found)
      exact ⟨held, getElem?_slots_append located, keyed⟩
  owning := by
    intro owner member
    rcases List.mem_append.mp member with old | new
    · obtain ⟨held, located, keyed⟩ := sound.owning old
      exact ⟨held, getElem?_slots_append located, keyed⟩
    · obtain rfl := List.mem_singleton.mp new
      exact ⟨⟨key, none, false⟩, List.getElem?_concat_length, rfl, rfl, rfl⟩
  single := by
    change (List.map Owner.slot (state.owners ++ [⟨key, state.slots.length, .working⟩])).Nodup
    rw [List.map_append, List.nodup_append]
    refine ⟨sound.single, List.nodup_singleton _, ?_⟩
    rintro slot member fresh new rfl
    obtain ⟨owner, owns, rfl⟩ := List.mem_map.mp member
    obtain ⟨held, located, _⟩ := sound.owning owns
    have inside := lt_of_getElem?_slots located
    rw [List.mem_singleton.mp new] at inside
    exact absurd inside (Nat.lt_irrefl _)
  attended := by
    intro slot held found pending
    rcases slots_append_cases found with old | ⟨rfl, rfl⟩
    · exact List.mem_map.mpr ((List.mem_map.mp (sound.attended old pending)).imp
        fun _ owner => ⟨List.mem_append_left _ owner.1, owner.2⟩)
    · exact List.mem_map.mpr ⟨_, List.mem_append_right _ (List.mem_singleton_self _), rfl⟩
  finished := by
    intro slot held found done
    rcases slots_append_cases found with old | ⟨rfl, rfl⟩
    · exact sound.finished old done
    · cases done
  recorded := by
    intro slot held found
    rcases slots_append_cases found with old | ⟨rfl, rfl⟩
    · exact sound.recorded old
    · have unpublished : state.firstPublished state.slots.length = none := by
        refine List.find?_eq_none.mpr fun publication member => ?_
        obtain ⟨held, located, _⟩ := sound.keyed member
        have inside := lt_of_getElem?_slots located
        simp only [beq_iff_eq]
        omega
      change none = (state.firstPublished state.slots.length).map _
      rw [unpublished]
      rfl
  keyed := by
    intro publication member
    obtain ⟨held, located, keyed⟩ := sound.keyed member
    exact ⟨held, getElem?_slots_append located, keyed⟩
  waits := by
    intro waiter member
    obtain ⟨held, located, keyed⟩ := sound.waits member
    exact ⟨held, getElem?_slots_append located, keyed⟩
  parked := by
    intro waiter member asleep
    obtain ⟨owner, owns, awaited⟩ := sound.parked member asleep
    exact ⟨owner, List.mem_append_left _ owns, awaited⟩

theorem Sound.claim (sound : state.Sound limit) (key : κ) : (state.claim key).Sound limit := by
  unfold Inflight.claim
  split
  · rename_i slot found
    split_ifs
    · exact (sound.forget key).install key
    · obtain ⟨held, located, keyed⟩ := sound.installed found
      refine { sound with waits := ?_, parked := ?_ }
      · intro waiter member
        rcases List.mem_append.mp member with old | new
        · exact sound.waits old
        · obtain rfl := List.mem_singleton.mp new
          exact ⟨held, located, keyed, nofun⟩
      · intro waiter member asleep
        rcases List.mem_append.mp member with old | new
        · exact sound.parked old asleep
        · obtain rfl := List.mem_singleton.mp new
          cases asleep
  · exact sound.install key

/-- Every action keeps the parties in agreement. -/
theorem Sound.step (sound : state.Sound limit) {aborted : ν} {action : InflightAction κ ν}
    {next : Inflight κ ν cmp} (taken : state.step aborted action = some next) : next.Sound limit := by
  cases action with
  | claim key =>
      obtain rfl := Option.some.inj taken
      exact sound.claim key
  | publish owner value => exact sound.fill taken
  | abandon owner => exact sound.fill taken
  | mark owner => exact sound.mark taken
  | notify owner => exact sound.notify taken
  | release owner locked => exact sound.release taken
  | read waiter => exact sound.read taken
  | wake waiter => exact sound.wake taken

/-! ## Coalescing is safe -/

/-- In every interleaving the table stays within its maximum, every slot that is
not done has exactly one owner, nobody sleeps on a slot whose owner will not wake
them, and what a waiter receives is the first value published to its slot, for
the key it claimed. -/
theorem coalescing_safe (aborted : ν) (max : Nat) {actions : List (InflightAction κ ν)}
    {state : Inflight κ ν cmp}
    (runs : Runs (step aborted) (fun _ _ => True) (new max) actions state) :
    state.table.size ≤ Nat.max max 1 ∧
    (∀ (slot : Nat) (held : Slot κ ν), state.slots[slot]? = some held → held.done = false →
      (state.owners.map Owner.slot).count slot = 1) ∧
    (∀ waiter ∈ state.waiters, waiter.status = .parked →
      ∃ owner ∈ state.owners, owner.slot = waiter.slot ∧ owner.phase ≠ .notified) ∧
    ∀ waiter ∈ state.waiters, ∀ value, waiter.status = .received value →
      ∃ publication, state.firstPublished waiter.slot = some publication ∧
        publication.value = value ∧ publication.key = waiter.key := by
  have sound : state.Sound (Nat.max max 1) :=
    runs.invariant (fun sound _ taken => sound.step taken) (sound_new max)
  refine ⟨sound.capacity ▸ sound.bounded, ?_, fun _ => sound.parked, ?_⟩
  · intro slot held located pending
    exact List.count_eq_one_of_mem sound.single (sound.attended located pending)
  · intro waiter member value received
    obtain ⟨held, located, keyed, receives⟩ := sound.waits member
    have recorded := sound.recorded located
    rw [receives value received, eq_comm, Option.map_eq_some_iff] at recorded
    obtain ⟨publication, first, same⟩ := recorded
    refine ⟨publication, first, same, ?_⟩
    obtain ⟨own, found, published⟩ := sound.keyed (List.mem_of_find?_eq_some first)
    have about : publication.slot = waiter.slot := by
      simpa using List.find?_some first
    rw [about, located] at found
    obtain rfl := Option.some.inj found
    exact published.symm.trans keyed

end Inflight

/-! ## Queries as keys -/

instance : Ord QueryKey :=
  ⟨compareLex (compareOn QueryKey.name) (compareLex (compareOn QueryKey.rrType)
    (compareLex (compareOn QueryKey.rrClass) (compareLex (compareOn QueryKey.ecs)
      (compareLex (compareOn QueryKey.wantDnssec) (compareOn QueryKey.cd)))))⟩

instance : TransOrd QueryKey :=
  inferInstanceAs (TransCmp (compareLex (compareOn QueryKey.name)
    (compareLex (compareOn QueryKey.rrType) (compareLex (compareOn QueryKey.rrClass)
      (compareLex (compareOn QueryKey.ecs) (compareLex (compareOn QueryKey.wantDnssec)
        (compareOn QueryKey.cd)))))))

instance : LawfulEqOrd QueryKey where
  compare_self := compareLex_eq_eq.mpr ⟨ReflOrd.compare_self,
    compareLex_eq_eq.mpr ⟨ReflOrd.compare_self, compareLex_eq_eq.mpr ⟨ReflOrd.compare_self,
      compareLex_eq_eq.mpr ⟨ReflOrd.compare_self,
        compareLex_eq_eq.mpr ⟨ReflOrd.compare_self, ReflOrd.compare_self⟩⟩⟩⟩⟩
  eq_of_compare {left right} same := by
    obtain ⟨name, same⟩ := compareLex_eq_eq.mp same
    obtain ⟨rrType, same⟩ := compareLex_eq_eq.mp same
    obtain ⟨rrClass, same⟩ := compareLex_eq_eq.mp same
    obtain ⟨ecs, same⟩ := compareLex_eq_eq.mp same
    obtain ⟨wantDnssec, cd⟩ := compareLex_eq_eq.mp same
    cases left
    cases right
    cases LawfulEqOrd.eq_of_compare name
    cases LawfulEqOrd.eq_of_compare rrType
    cases LawfulEqOrd.eq_of_compare rrClass
    cases LawfulEqOrd.eq_of_compare ecs
    cases LawfulEqOrd.eq_of_compare wantDnssec
    cases LawfulEqOrd.eq_of_compare cd
    rfl

/-- The coalescing of the resolver's queries. -/
abbrev QueryInflight := Inflight QueryKey (Except ResolveError Resolution) compare

/-- A second caller joins the first, sleeps, is woken and receives its result. -/
def joinedActions : List (InflightAction QueryKey (Except ResolveError Resolution)) :=
  [.claim (wwwQuery none), .claim (wwwQuery none), .read 0, .publish 0 (.error .emptyResponse),
    .mark 0, .notify 0, .read 0, .release 0 true]

/-- The joined caller receives what was published for its query. -/
theorem joined_caller_receives :
    ∃ state : QueryInflight,
      Runs (Inflight.step (.error .cnameLoop)) (fun _ _ => True) (.new 4) joinedActions state ∧
      state.table.size ≤ 4 ∧ (∃ waiter ∈ state.waiters, ∃ value, waiter.status = .received value) ∧
      ∀ waiter ∈ state.waiters, ∀ value, waiter.status = .received value →
        ∃ publication, state.firstPublished waiter.slot = some publication ∧
          publication.value = value ∧ publication.key = waiter.key := by
  obtain ⟨state, computed⟩ := Option.isSome_iff_exists.mp
    (show (runActions (Inflight.step (.error .cnameLoop)) (fun _ _ => True)
      (.new 4 : QueryInflight) joinedActions).isSome = true by decide)
  have joined : (runActions (Inflight.step (.error .cnameLoop)) (fun _ _ => True)
      (.new 4 : QueryInflight) joinedActions).map (fun state => state.waiters.any fun waiter =>
        waiter.status matches .received _) = some true := by
    decide
  rw [computed] at joined
  have runs := runs_of_runActions computed
  obtain ⟨bounded, _, _, receives⟩ := Inflight.coalescing_safe _ _ runs
  refine ⟨state, runs, bounded, ?_, receives⟩
  obtain ⟨waiter, member, received⟩ := List.any_eq_true.mp (Option.some.inj joined)
  refine ⟨waiter, member, ?_⟩
  cases status : waiter.status with
  | received value => exact ⟨value, rfl⟩
  | _ =>
      rw [status] at received
      cases received

end RecurseX
