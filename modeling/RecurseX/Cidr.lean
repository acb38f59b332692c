import Mathlib.Data.List.Basic

/-!
# CIDR blocks

An address of a family is a bit vector of the family's width. A block is its
network address, with the host bits cleared, and the length of its network part.
-/

namespace RecurseX

variable {width : Nat}

/-- The bit mask of a network part, with the empty one handled separately. -/
def prefixMask (width : Nat) (bits : UInt8) : BitVec width :=
  if bits = 0 then 0
  else if bits.toNat ≥ width then BitVec.allOnes width
  else BitVec.allOnes width <<< (width - bits.toNat)

/-- A CIDR block. -/
structure Cidr (width : Nat) where
  /-- The network address. -/
  base : BitVec width
  /-- The length of the network part. -/
  bits : UInt8
  /-- Host bits are cleared. -/
  cleared : base &&& prefixMask width bits = base
  within : bits.toNat ≤ width
deriving DecidableEq

/-- An IPv4 block. -/
abbrev Ipv4Cidr := Cidr 32

/-- An IPv6 block. -/
abbrev Ipv6Cidr := Cidr 128

namespace Cidr

/-- A block covering `addr`, or `none` when the network part is too long. -/
def new (addr : BitVec width) (bits : UInt8) : Option (Cidr width) :=
  if within : bits.toNat ≤ width then
    some ⟨addr &&& prefixMask width bits, bits, by rw [BitVec.and_assoc, BitVec.and_self], within⟩
  else none

/-- The first address in the block. -/
def network (self : Cidr width) : BitVec width := self.base

/-- The last address in the block. -/
def broadcast (self : Cidr width) : BitVec width := self.base ||| ~~~(prefixMask width self.bits)

/-- The number of addresses in the block. -/
def len (self : Ipv4Cidr) : Nat := 1 <<< (32 - self.bits.toNat)

theorem network_le_broadcast (self : Cidr width) :
    self.network.toNat ≤ self.broadcast.toNat := by
  rw [network, broadcast, BitVec.toNat_or]
  exact Nat.left_le_or

/-- A block with two addresses or more has a last address behind its first. -/
theorem network_ne_broadcast {self : Ipv4Cidr} (several : 2 ≤ self.len) :
    self.network ≠ self.broadcast := by
  have short : self.bits.toNat < 32 := by
    by_contra long
    rw [len, Nat.sub_eq_zero_of_le (Nat.le_of_not_lt long)] at several
    exact absurd several (by decide)
  have hostBit : (prefixMask 32 self.bits).getLsbD 0 = false := by
    unfold prefixMask
    split_ifs
    · rfl
    · omega
    · rw [BitVec.getLsbD_shiftLeft, decide_eq_true (by omega : 0 < 32 - self.bits.toNat)]
      simp
  have cleared : self.base.getLsbD 0 = false := by
    rw [← self.cleared, BitVec.getLsbD_and, hostBit, Bool.and_false]
  intro same
  have last := congrArg (BitVec.getLsbD · 0) same
  simp only [network, broadcast, BitVec.getLsbD_or, BitVec.getLsbD_not, cleared, hostBit] at last
  exact absurd last (by decide)

end Cidr

end RecurseX
