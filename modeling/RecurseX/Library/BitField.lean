import Mathlib.Data.Nat.Bitwise

/-!
# Packed bit fields

A word packed from fields of disjoint bits is the sum of the shifted fields, so
that unpacking it is division and remainder.
-/

namespace RecurseX.Library

/-- Below an aligned value, or is addition. -/
theorem or_eq_add {value field : Nat} (bits : Nat) (aligned : value % 2 ^ bits = 0)
    (small : field < 2 ^ bits) : value ||| field = value + field := by
  have shifted : value = (value / 2 ^ bits) <<< bits := by
    rw [Nat.shiftLeft_eq]
    exact (Nat.div_mul_cancel (Nat.dvd_of_mod_eq_zero aligned)).symm
  rw [shifted]
  exact (Nat.shiftLeft_add_eq_or_of_lt small _).symm

/-- Testing one bit of a word. -/
theorem and_bit_eq_zero {value bit : Nat} :
    value &&& 2 ^ bit = 0 ↔ value / 2 ^ bit % 2 = 0 := by
  rw [Nat.and_two_pow, Nat.testBit_eq_decide_div_mod_eq]
  have : 0 < 2 ^ bit := Nat.two_pow_pos bit
  rcases Nat.mod_two_eq_zero_or_one (value / 2 ^ bit) with even | odd
  · simp [even]
  · simp [odd]

/-- One bit of a 16-bit word, as its flag. -/
theorem flag16 (word mask : UInt16) {bit : Nat} (single : mask.toNat = 2 ^ bit) :
    (word &&& mask != 0) = decide (word.toNat / 2 ^ bit % 2 = 1) := by
  have zero : word &&& mask = 0 ↔ word.toNat / 2 ^ bit % 2 = 0 := by
    rw [← UInt16.toNat_inj, UInt16.toNat_and, single, UInt16.toNat_ofNat, and_bit_eq_zero]
  rcases Nat.mod_two_eq_zero_or_one (word.toNat / 2 ^ bit) with even | odd
  · rw [zero.mpr even, even]
    rfl
  · rw [odd, bne_iff_ne.mpr (fun none => by rw [zero.mp none] at odd; cases odd)]
    rfl

/-- One bit of a 32-bit word, as its flag. -/
theorem flag32 (word mask : UInt32) (bit : Nat) (single : mask.toNat = 2 ^ bit) :
    (word &&& mask != 0) = decide (word.toNat / 2 ^ bit % 2 = 1) := by
  have zero : word &&& mask = 0 ↔ word.toNat / 2 ^ bit % 2 = 0 := by
    rw [← UInt32.toNat_inj, UInt32.toNat_and, single, UInt32.toNat_ofNat, and_bit_eq_zero]
  rcases Nat.mod_two_eq_zero_or_one (word.toNat / 2 ^ bit) with even | odd
  · rw [zero.mpr even, even]
    rfl
  · rw [odd, bne_iff_ne.mpr (fun none => by rw [zero.mp none] at odd; cases odd)]
    rfl

end RecurseX.Library
