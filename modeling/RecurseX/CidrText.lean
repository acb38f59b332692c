import RecurseX.Cidr
import RecurseX.Config
import RecurseX.Library.BigEndian

/-!
# The texts of CIDR blocks

A block is written as an address and the length of its network part; the host bits of the
address do not matter. `contains_parse_iff` says which addresses are in the block of a text.
-/

namespace RecurseX

open Library

/-! ## Blocks of either family -/

/-- An address as a bit vector. -/
def addressBits {count : Nat} (octets : Octets count) : BitVec (8 * count) :=
  BitVec.ofNat (8 * count) (natOfBytes octets.1)

/-- Whether an address is inside the block. -/
def Cidr.contains {width : Nat} (self : Cidr width) (ip : BitVec width) : Bool :=
  ip &&& prefixMask width self.bits == self.base

/-- A CIDR block of either family. -/
inductive IpCidr where
  | v4 (block : Ipv4Cidr)
  | v6 (block : Ipv6Cidr)
deriving DecidableEq

/-- An address and the length of a network part, which is full where none is given. -/
def splitPrefix (s : List Char) (full : UInt8) : Option (List Char × UInt8) :=
  match splitOnce '/' s with
  | some (addr, p) => do
      let p ← (parseUnsigned 256 (trim p)).map UInt8.ofNat
      if full < p then none else some (trim addr, p)
  | none => some (trim s, full)

/-- The IPv4 address that a whole text spells. -/
def parseIpv4 (text : List Char) : Option (Octets 4) :=
  match readIpv4Addr text with
  | some (ip, rest) => if rest = [] then some ip else none
  | none => none

/-- The IPv6 address that a whole text spells. -/
def parseIpv6 (text : List Char) : Option (Octets 16) :=
  match readIpv6Addr text with
  | some (ip, rest) => if rest = [] then some ip else none
  | none => none

/-- Parse `a.b.c.d/n`, or a bare `a.b.c.d`. -/
def Ipv4Cidr.parse (s : List Char) : Option Ipv4Cidr := do
  let (addr, bits) ← splitPrefix s 32
  let addr ← parseIpv4 addr
  Cidr.new (addressBits addr) bits

/-- Parse `addr/n`, or a bare address. -/
def Ipv6Cidr.parse (s : List Char) : Option Ipv6Cidr := do
  let (addr, bits) ← splitPrefix s 128
  let addr ← parseIpv6 addr
  Cidr.new (addressBits addr) bits

/-- What stands before the first slash. -/
def firstPart (s : List Char) : List Char :=
  match splitOnce '/' s with
  | some (front, _) => front
  | none => s

namespace IpCidr

/-- Parse a CIDR of either family. -/
def parse (s : List Char) : Option IpCidr :=
  match parseIp (trim (firstPart s)) with
  | some (.v4 _) => (Ipv4Cidr.parse s).map .v4
  | some (.v6 _) => (Ipv6Cidr.parse s).map .v6
  | none => none

/-- Whether an address is inside the block. The families must match. -/
def contains (self : IpCidr) (ip : IpAddr) : Bool :=
  match self, ip with
  | .v4 block, .v4 ip => block.contains (addressBits ip)
  | .v6 block, .v6 ip => block.contains (addressBits ip)
  | _, _ => false

end IpCidr

/-! ## What a text stands for -/

/-- The bits of an address in front of its last ones. -/
def networkPart {count : Nat} (octets : Octets count) (bits : Nat) : Nat :=
  natOfBytes octets.1 / 2 ^ (8 * count - bits)

/-- Two addresses of one family agree in their first bits. -/
def SharesNetwork (bits : Nat) : IpAddr → IpAddr → Prop
  | .v4 addr, .v4 ip => networkPart addr bits = networkPart ip bits
  | .v6 addr, .v6 ip => networkPart addr bits = networkPart ip bits
  | _, _ => False

/-- How many bits an address has. -/
def fullLength : IpAddr → Nat
  | .v4 _ => 32
  | .v6 _ => 128

/-- A text for a block: an address, with the length of its network part behind a slash or without
one; white space does not matter around either. -/
inductive CidrText : List Char → IpAddr → Nat → Prop where
  | whole {s addr} (noSlash : '/' ∉ s) (address : parseIp (trim s) = some addr) :
      CidrText s addr (fullLength addr)
  | slashed {front back addr bits} (noSlash : '/' ∉ front) (address : parseIp (trim front) = some addr)
      (number : parseUnsigned 256 (trim back) = some bits) (within : bits ≤ fullLength addr) :
      CidrText (front ++ '/' :: back) addr bits

/-! ## Containment -/

theorem getLsbD_prefixMask {width : Nat} {bits : UInt8} (within : bits.toNat ≤ width) (index : Nat) :
    (prefixMask width bits).getLsbD index = decide (width - bits.toNat ≤ index ∧ index < width) := by
  unfold prefixMask
  split_ifs with none full
  · have zero : bits.toNat = 0 := congrArg UInt8.toNat none
    rw [Bool.eq_iff_iff]
    simp
    omega
  · rw [BitVec.getLsbD_allOnes, Bool.eq_iff_iff]
    simp
    omega
  · rw [BitVec.getLsbD_shiftLeft, BitVec.getLsbD_allOnes, Bool.eq_iff_iff]
    simp
    omega

/-- Under the mask two addresses agree exactly when their first bits do. -/
theorem and_prefixMask_eq_iff {width : Nat} {bits : UInt8} (within : bits.toNat ≤ width)
    (ip addr : BitVec width) : ip &&& prefixMask width bits = addr &&& prefixMask width bits ↔
      addr.toNat / 2 ^ (width - bits.toNat) = ip.toNat / 2 ^ (width - bits.toNat) := by
  have shifted : addr.toNat / 2 ^ (width - bits.toNat) = ip.toNat / 2 ^ (width - bits.toNat) ↔
      addr >>> (width - bits.toNat) = ip >>> (width - bits.toNat) := by
    rw [← BitVec.toNat_inj, BitVec.toNat_ushiftRight, BitVec.toNat_ushiftRight,
      Nat.shiftRight_eq_div_pow, Nat.shiftRight_eq_div_pow]
  rw [shifted]
  constructor
  · intro same
    refine BitVec.eq_of_getLsbD_eq fun index inside => ?_
    have bit := congrArg (BitVec.getLsbD · (width - bits.toNat + index)) same
    simp only [BitVec.getLsbD_and, getLsbD_prefixMask within] at bit
    rw [BitVec.getLsbD_ushiftRight, BitVec.getLsbD_ushiftRight]
    by_cases reached : width - bits.toNat + index < width
    · simpa [reached] using bit.symm
    · rw [BitVec.getLsbD_of_ge _ _ (Nat.le_of_not_lt reached),
        BitVec.getLsbD_of_ge _ _ (Nat.le_of_not_lt reached)]
  · intro same
    refine BitVec.eq_of_getLsbD_eq fun index inside => ?_
    rw [BitVec.getLsbD_and, BitVec.getLsbD_and, getLsbD_prefixMask within]
    by_cases masked : width - bits.toNat ≤ index
    · have bit := congrArg (BitVec.getLsbD · (index - (width - bits.toNat))) same
      simp only [BitVec.getLsbD_ushiftRight, Nat.add_sub_of_le masked] at bit
      rw [bit]
    · simp [masked]

theorem addressBits_toNat {count : Nat} (octets : Octets count) :
    (addressBits octets).toNat = natOfBytes octets.1 := by
  have below := natOfBytes_lt octets.1
  rw [octets.2, show (256 : Nat) = 2 ^ 8 from rfl, ← Nat.pow_mul] at below
  rw [addressBits, BitVec.toNat_ofNat, Nat.mod_eq_of_lt below]

/-- A block made of an address contains the addresses with its network part. -/
theorem contains_new_iff {count : Nat} {addr : Octets count} {bits : UInt8} {block : Cidr (8 * count)}
    (made : Cidr.new (addressBits addr) bits = some block) (ip : Octets count) :
    block.contains (addressBits ip) = true ↔
      networkPart addr bits.toNat = networkPart ip bits.toNat := by
  unfold Cidr.new at made
  split_ifs at made with within
  obtain rfl := Option.some.inj made
  unfold Cidr.contains networkPart
  rw [beq_iff_eq, and_prefixMask_eq_iff within, addressBits_toNat, addressBits_toNat]

/-! ## Reading a block -/

variable {s text : List Char} {addr : IpAddr} {bits : Nat} {block : IpCidr}

theorem parseIpv4_eq_some_iff {ip : Octets 4} :
    parseIpv4 text = some ip ↔ parseIp text = some (.v4 ip) := by
  unfold parseIpv4 parseIp parseAddress
  cases readIpv4Addr text with
  | some found =>
      obtain ⟨octets, rest⟩ := found
      dsimp only
      split_ifs <;> simp
  | none =>
      dsimp only
      cases readIpv6Addr text with
      | some found =>
          obtain ⟨octets, rest⟩ := found
          dsimp only
          split_ifs <;> simp
      | none => simp

theorem parseIpv6_of_parseIp {ip : Octets 16} (read : parseIp text = some (.v6 ip)) :
    parseIpv6 text = some ip := by
  unfold parseIp parseAddress at read
  unfold parseIpv6
  cases four : readIpv4Addr text with
  | some found =>
      obtain ⟨octets, rest⟩ := found
      rw [four] at read
      dsimp only at read
      split_ifs at read <;> cases read
  | none =>
      rw [four] at read
      cases six : readIpv6Addr text with
      | some found =>
          obtain ⟨octets, rest⟩ := found
          rw [six] at read
          dsimp only at read ⊢
          split_ifs at read ⊢ with complete
          · obtain ⟨address, same, joined⟩ := Option.map_eq_some_iff.mp read
            obtain rfl := Option.some.inj same
            cases joined
            rfl
          · cases read
      | none =>
          rw [six] at read
          cases read

theorem parse_of_splitPrefix {count : UInt8} (address : parseIp (trim (firstPart s)) = some addr)
    (split : splitPrefix s (UInt8.ofNat (fullLength addr)) = some (trim (firstPart s), count))
    (within : count.toNat ≤ fullLength addr) : ∃ block, IpCidr.parse s = some block ∧
      ∀ ip, block.contains ip = true ↔ SharesNetwork count.toNat addr ip := by
  unfold IpCidr.parse
  rw [address]
  cases addr with
  | v4 octets =>
      obtain ⟨block, made⟩ : ∃ block, Cidr.new (addressBits octets) count = some block :=
        ⟨_, dif_pos within⟩
      have read : Ipv4Cidr.parse s = some block := by
        unfold Ipv4Cidr.parse
        rw [show splitPrefix s 32 = _ from split, Option.bind_eq_bind, Option.bind_some]
        dsimp only
        rw [parseIpv4_eq_some_iff.mpr address]
        exact made
      refine ⟨.v4 block, by rw [read]; rfl, fun ip => ?_⟩
      cases ip with
      | v4 ip => exact contains_new_iff made ip
      | v6 ip => exact iff_of_false Bool.false_ne_true id
  | v6 octets =>
      obtain ⟨block, made⟩ : ∃ block, Cidr.new (addressBits octets) count = some block :=
        ⟨_, dif_pos within⟩
      have read : Ipv6Cidr.parse s = some block := by
        unfold Ipv6Cidr.parse
        rw [show splitPrefix s 128 = _ from split, Option.bind_eq_bind, Option.bind_some]
        dsimp only
        rw [parseIpv6_of_parseIp address]
        exact made
      refine ⟨.v6 block, by rw [read]; rfl, fun ip => ?_⟩
      cases ip with
      | v4 ip => exact iff_of_false Bool.false_ne_true id
      | v6 ip => exact contains_new_iff made ip

theorem fullLength_lt (addr : IpAddr) : fullLength addr < 256 := by
  cases addr with
  | v4 octets => exact (by decide : (32 : Nat) < 256)
  | v6 octets => exact (by decide : (128 : Nat) < 256)

/-- A text for a block is read, and the block contains what shares its network part. -/
theorem parse_of_cidrText (spelled : CidrText s addr bits) : ∃ block, IpCidr.parse s = some block ∧
    ∀ ip, block.contains ip = true ↔ SharesNetwork bits addr ip := by
  have full : (UInt8.ofNat (fullLength addr)).toNat = fullLength addr := by
    rw [UInt8.toNat_ofNat', Nat.mod_eq_of_lt (fullLength_lt addr)]
  cases spelled with
  | whole noSlash address =>
      have cut := splitOnce_eq_none noSlash
      have first : firstPart s = s := by rw [firstPart, cut]
      rw [← first] at address
      have split : splitPrefix s (UInt8.ofNat (fullLength addr)) =
          some (trim (firstPart s), UInt8.ofNat (fullLength addr)) := by
        rw [splitPrefix, cut, first]
      have read := parse_of_splitPrefix address split full.le
      rwa [full] at read
  | @slashed front back _ _ noSlash address number within =>
      have cut : splitOnce '/' (front ++ '/' :: back) = some (front, back) := splitOnce_append noSlash
      have first : firstPart (front ++ '/' :: back) = front := by rw [firstPart, cut]
      rw [← first] at address
      have count : (UInt8.ofNat bits).toNat = bits := by
        rw [UInt8.toNat_ofNat', Nat.mod_eq_of_lt (Nat.lt_of_le_of_lt within (fullLength_lt addr))]
      have fits : ¬ UInt8.ofNat (fullLength addr) < UInt8.ofNat bits := by
        rw [UInt8.lt_iff_toNat_lt, full, count]
        exact Nat.not_lt.mpr within
      have split : splitPrefix (front ++ '/' :: back) (UInt8.ofNat (fullLength addr)) =
          some (trim (firstPart (front ++ '/' :: back)), UInt8.ofNat bits) := by
        rw [splitPrefix, cut, first]
        dsimp only
        rw [number, Option.map_some, Option.bind_eq_bind, Option.bind_some, if_neg fits]
      have read := parse_of_splitPrefix address split (count.le.trans within)
      rwa [count] at read

theorem parseUnsigned_lt {limit value : Nat} (read : parseUnsigned limit text = some value) :
    value < limit := by
  unfold parseUnsigned at read
  dsimp only at read
  split_ifs at read with plus written written
  · exact Option.some.inj read ▸ written.2.2
  · exact Option.some.inj read ▸ written.2.2

/-- A text with such a network part is a text for a block. -/
theorem cidrText_of_splitPrefix {count : UInt8} {part : List Char}
    (address : parseIp (trim (firstPart s)) = some addr)
    (split : splitPrefix s (UInt8.ofNat (fullLength addr)) = some (part, count)) :
    ∃ bits, CidrText s addr bits := by
  unfold splitPrefix at split
  unfold firstPart at address
  cases cut : splitOnce '/' s with
  | none =>
      rw [cut] at address
      exact ⟨fullLength addr, .whole (not_mem_of_splitOnce cut) address⟩
  | some parts =>
      obtain ⟨front, back⟩ := parts
      obtain ⟨rfl, absent⟩ := eq_of_splitOnce cut
      rw [cut] at address split
      dsimp only at address split
      obtain ⟨count, number, split⟩ := Option.bind_eq_some_iff.mp split
      obtain ⟨bits, read, rfl⟩ := Option.map_eq_some_iff.mp number
      split_ifs at split with long
      rw [UInt8.lt_iff_toNat_lt, UInt8.toNat_ofNat', UInt8.toNat_ofNat',
        Nat.mod_eq_of_lt (fullLength_lt addr), Nat.mod_eq_of_lt (parseUnsigned_lt read),
        Nat.not_lt] at long
      exact ⟨bits, .slashed absent address read long⟩

/-- What is read is a text for a block. -/
theorem cidrText_of_parse (read : IpCidr.parse s = some block) :
    ∃ addr bits, CidrText s addr bits := by
  unfold IpCidr.parse at read
  cases address : parseIp (trim (firstPart s)) with
  | none =>
      rw [address] at read
      cases read
  | some addr =>
      rw [address] at read
      cases addr with
      | v4 octets =>
          obtain ⟨inner, parsed, -⟩ := Option.map_eq_some_iff.mp read
          obtain ⟨parts, split, -⟩ := Option.bind_eq_some_iff.mp parsed
          exact ⟨_, cidrText_of_splitPrefix address split⟩
      | v6 octets =>
          obtain ⟨inner, parsed, -⟩ := Option.map_eq_some_iff.mp read
          obtain ⟨parts, split, -⟩ := Option.bind_eq_some_iff.mp parsed
          exact ⟨_, cidrText_of_splitPrefix address split⟩

/-- An address is in the block of a text. -/
def InCidr (s : List Char) (ip : IpAddr) : Prop :=
  ∃ addr bits, CidrText s addr bits ∧ SharesNetwork bits addr ip

theorem contains_parse_iff (read : IpCidr.parse s = some block) (ip : IpAddr) :
    block.contains ip = true ↔ InCidr s ip := by
  constructor
  · intro inside
    obtain ⟨addr, bits, spelled⟩ := cidrText_of_parse read
    obtain ⟨other, again, contained⟩ := parse_of_cidrText spelled
    obtain rfl := Option.some.inj (read.symm.trans again)
    exact ⟨addr, bits, spelled, (contained ip).mp inside⟩
  · rintro ⟨addr, bits, spelled, shares⟩
    obtain ⟨other, again, contained⟩ := parse_of_cidrText spelled
    obtain rfl := Option.some.inj (read.symm.trans again)
    exact (contained ip).mpr shares

end RecurseX
