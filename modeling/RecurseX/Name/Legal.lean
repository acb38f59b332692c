import RecurseX.Name.Decode

/-!
# Legal encodings of names

The format lets a name go through pointers that move strictly backwards, and
lets it have as many labels as fit into 255 octets. `decodesLegalNames_iff` says
on which buffers the decoder keeps to that.
-/

namespace RecurseX

open Library Library.PrefixedList Wire

/-- `buf` spells `labels` at `pos` through pointers that each target a smaller
offset than their own. -/
inductive LegallySpells (buf : Bytes) :
    (pos : Nat) → (labels : List Bytes) → (hops stop : Nat) → Prop where
  | root {pos} (zero : buf[pos]? = some 0) : LegallySpells buf pos [] 0 (pos + 1)
  | label {pos octets labels hops stop} (spelled : Located buf pos (item octets))
      (nonempty : 0 < octets.length) (short : octets.length ≤ 63)
      (rest : LegallySpells buf (pos + (1 + octets.length)) labels hops stop) :
      LegallySpells buf pos (octets.map asciiLower :: labels) hops stop
  | pointer {pos high low labels hops stop} (spelled : Located buf pos [high, low])
      (tagged : 0xc0 ≤ high.toNat)
      (backward : (high.toNat - 0xc0) * 256 + low.toNat < pos)
      (target : LegallySpells buf ((high.toNat - 0xc0) * 256 + low.toNat) labels hops stop) :
      LegallySpells buf pos labels (hops + 1) (pos + 2)

section Legal

variable {buf : Bytes} {pos hops stop : Nat} {labels : List Bytes}

theorem LegallySpells.spells (legal : LegallySpells buf pos labels hops stop) :
    Spells buf pos labels hops stop := by
  induction legal with
  | root zero => exact .root zero
  | label spelled nonempty short _ inductionHypothesis =>
      exact .label spelled nonempty short inductionHypothesis
  | pointer spelled tagged _ _ inductionHypothesis =>
      exact .pointer spelled tagged inductionHypothesis

/-- Without a pointer there is nothing to be illegal. -/
theorem Spells.legal_of_no_hops (spells : Spells buf pos labels hops stop) (none : hops = 0) :
    LegallySpells buf pos labels hops stop := by
  induction spells with
  | root zero => exact .root zero
  | label spelled nonempty short _ inductionHypothesis =>
      exact .label spelled nonempty short (inductionHypothesis none)
  | pointer => cases none

/-- The octets at a position spell at most one name, in one way. -/
theorem Spells.unique (spells : Spells buf pos labels hops stop) :
    ∀ {otherLabels : List Bytes} {otherHops otherStop : Nat},
      Spells buf pos otherLabels otherHops otherStop →
      otherLabels = labels ∧ otherHops = hops ∧ otherStop = stop := by
  -- The first octet decides which rule applies: zero, a length, or a pointer.
  have lengthOctet : ∀ {octets : Bytes}, octets.length ≤ 63 →
      (UInt8.ofNat octets.length).toNat = octets.length := by
    intro octets short
    rw [UInt8.toNat_ofNat']
    omega
  have sameOctet : ∀ {pos : Nat} {left right : UInt8}, buf[pos]? = some left →
      buf[pos]? = some right → left.toNat = right.toNat := by
    intro pos left right first second
    rw [first] at second
    rw [Option.some.inj second]
  induction spells with
  | root zero =>
      intro otherLabels otherHops otherStop other
      cases other with
      | root => exact ⟨rfl, rfl, rfl⟩
      | label spelled nonempty short =>
          have octet := sameOctet zero spelled.head
          rw [lengthOctet short, UInt8.toNat_zero] at octet
          omega
      | pointer spelled tagged =>
          have octet := sameOctet zero spelled.head
          rw [UInt8.toNat_zero] at octet
          omega
  | @label pos octets labels hops stop spelled nonempty short rest inductionHypothesis =>
      intro otherLabels otherHops otherStop other
      cases other with
      | root zero =>
          have octet := sameOctet zero spelled.head
          rw [lengthOctet short, UInt8.toNat_zero] at octet
          omega
      | @label _ others _ _ _ otherSpelled otherNonempty otherShort otherRest =>
          have octet := sameOctet spelled.head otherSpelled.head
          rw [lengthOctet short, lengthOctet otherShort] at octet
          have same : octets = others := by
            rw [← spelled.tail.slice, ← otherSpelled.tail.slice, octet]
          subst same
          obtain ⟨rfl, rfl, rfl⟩ := inductionHypothesis otherRest
          exact ⟨rfl, rfl, rfl⟩
      | pointer otherSpelled tagged =>
          have octet := sameOctet spelled.head otherSpelled.head
          rw [lengthOctet short] at octet
          omega
  | @pointer pos high low labels hops stop spelled tagged target inductionHypothesis =>
      intro otherLabels otherHops otherStop other
      cases other with
      | root zero =>
          have octet := sameOctet zero spelled.head
          rw [UInt8.toNat_zero] at octet
          omega
      | label otherSpelled nonempty short =>
          have octet := sameOctet spelled.head otherSpelled.head
          rw [lengthOctet short] at octet
          omega
      | pointer otherSpelled _ otherTarget =>
          rw [← sameOctet spelled.head otherSpelled.head,
            ← sameOctet spelled.tail.head otherSpelled.tail.head] at otherTarget
          obtain ⟨rfl, rfl, -⟩ := inductionHypothesis otherTarget
          exact ⟨rfl, rfl, rfl⟩

/-- At `pos` the decoder accepts exactly the legal encodings within the hop and
octet limits, and returns their labels and where they end. -/
def DecodesLegalNames (buf : Bytes) (pos : Nat) : Prop :=
  ∀ name stop, Name.fromWire buf pos = .ok (name, stop) ↔
    ∃ labels hops, LegallySpells buf pos labels hops stop ∧ hops ≤ maxPointerHops ∧
      (code labels).length ≤ maxNameLen ∧ name = ⟨code labels⟩

/-- The decoder looks at the label count, which the octet limit bounds by 127,
where the format looks at the direction of the pointers. The two agree on a
buffer exactly when they agree on what is spelled there. -/
theorem decodesLegalNames_iff (buf : Bytes) (pos : Nat) :
    DecodesLegalNames buf pos ↔
      ∀ labels hops stop, Spells buf pos labels hops stop → hops ≤ maxPointerHops →
        (code labels).length ≤ maxNameLen →
        (LegallySpells buf pos labels hops stop ↔ labels.length < maxLabels) := by
  constructor
  · intro decodes labels hops stop spells hopLimit sizeLimit
    constructor
    · intro legal
      have decoded := (decodes _ stop).mpr ⟨labels, hops, legal, hopLimit, sizeLimit, rfl⟩
      obtain ⟨_, _, walked, _, _, few, _⟩ := fromWire_eq_ok_iff.mp decoded
      obtain ⟨rfl, -, -⟩ := spells.unique walked
      exact few
    · intro few
      have decoded := fromWire_eq_ok_iff.mpr
        ⟨labels, hops, spells, hopLimit, sizeLimit, few, rfl⟩
      obtain ⟨_, _, legal, -, -, -⟩ := (decodes _ stop).mp decoded
      obtain ⟨rfl, rfl, -⟩ := spells.unique legal.spells
      exact legal
  · intro agrees name stop
    rw [fromWire_eq_ok_iff]
    constructor
    · rintro ⟨labels, hops, spells, hopLimit, sizeLimit, few, rfl⟩
      exact ⟨labels, hops, (agrees labels hops stop spells hopLimit sizeLimit).mpr few, hopLimit,
        sizeLimit, rfl⟩
    · rintro ⟨labels, hops, legal, hopLimit, sizeLimit, rfl⟩
      exact ⟨labels, hops, legal.spells, hopLimit, sizeLimit,
        (agrees labels hops stop legal.spells hopLimit sizeLimit).mp legal, rfl⟩

end Legal

/-- A pointer to the octet behind it is followed, and the longest name there
is, 127 one-octet labels, is refused. -/
theorem forward_pointer_followed_longest_name_refused :
    ¬ DecodesLegalNames [0xc0, 0x02, 0x00] 0 ∧
      ¬ DecodesLegalNames (code (List.replicate 127 [0x61])) 0 := by
  constructor
  · intro decodes
    have decoded : Name.fromWire [0xc0, 0x02, 0x00] 0 = .ok (Name.root, 2) := by
      decide
    obtain ⟨labels, hops, legal, -⟩ := (decodes _ _).mp decoded
    cases legal with
    | @label _ octets _ _ _ spelled _ short =>
        have octet := congrArg UInt8.toNat (Option.some.inj spelled.head)
        rw [UInt8.toNat_ofNat'] at octet
        simp only [UInt8.reduceToNat] at octet
        omega
    | @pointer _ high low _ _ _ spelled _ backward => omega
  · intro decodes
    have located : Located (code (List.replicate 127 [0x61])) 0
        (body (List.replicate 127 [0x61])) := ⟨Nat.zero_le _, List.prefix_append _ _⟩
    have closed : Spells (code (List.replicate 127 [0x61]))
        (0 + (body (List.replicate 127 [0x61])).length) [] 0 _ := .root (by decide +kernel)
    have spelled := spells_body (by simp) (by simp; decide) located closed
    have decoded := (decodes _ _).mpr
      ⟨_, 0, spelled.legal_of_no_hops rfl, by decide, by decide +kernel, rfl⟩
    have refused : (Name.fromWire (code (List.replicate 127 [0x61])) 0).toOption = none := by
      decide +kernel
    rw [decoded] at refused
    cases refused

end RecurseX
