import RecurseX.Library.Located

/-!
# Octet strings as bit strings

Bits are numbered from the most significant bit of the first octet, as in a
network prefix or a type bitmap. Past the end of the string every bit is unset.
-/

namespace RecurseX.Library

/-- Bit `j` of an octet string, most significant bit of each octet first. -/
def bitSet (bytes : Bytes) (j : Nat) : Bool :=
  (bytes.getD (j / 8) 0).toNat.testBit (7 - j % 8)

/-- Strings of one length with the same bits are the same. -/
theorem eq_of_bitSet {left right : Bytes} (length : left.length = right.length)
    (bits : ∀ j, bitSet left j = bitSet right j) : left = right := by
  refine List.ext_getElem length fun i inLeft inRight => ?_
  apply UInt8.toNat_inj.mp
  apply Nat.eq_of_testBit_eq
  intro bit
  by_cases small : bit < 8
  · have same := bits (i * 8 + (7 - bit))
    simp only [bitSet, show (i * 8 + (7 - bit)) / 8 = i by omega,
      show 7 - (i * 8 + (7 - bit)) % 8 = bit by omega] at same
    simpa [List.getD_eq_getElem?_getD, inLeft, inRight] using same
  · have high : 2 ^ 8 ≤ 2 ^ bit := Nat.pow_le_pow_right (by decide) (by omega)
    rw [Nat.testBit_lt_two_pow (Nat.lt_of_lt_of_le (UInt8.toNat_lt _) high),
      Nat.testBit_lt_two_pow (Nat.lt_of_lt_of_le (UInt8.toNat_lt _) high)]

/-- The strings agree on their first `count` bits. -/
def AgreeOn (count : Nat) (left right : Bytes) : Prop :=
  ∀ j < count, bitSet left j = bitSet right j

instance (count : Nat) (left right : Bytes) : Decidable (AgreeOn count left right) :=
  inferInstanceAs (Decidable (∀ j < count, bitSet left j = bitSet right j))

end RecurseX.Library
