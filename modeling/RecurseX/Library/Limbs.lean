import Mathlib.Data.Nat.Digits.Lemmas
import RecurseX.Library.BigEndian

/-!
# Numbers in 32-bit limbs

A list of limbs, least significant first, and the number it denotes. Carry and
borrow chains are equations between such numbers, a comparison reads two lists of
one length from the top, and a list that is cut where its top limbs are zero still
denotes the same number.
-/

namespace RecurseX.Library

/-- The number the limbs denote, least significant first. -/
def limbsValue (limbs : List UInt32) : Nat := Nat.ofDigits (2 ^ 32) (limbs.map UInt32.toNat)

@[simp] theorem limbsValue_nil : limbsValue [] = 0 := rfl

@[simp] theorem limbsValue_cons (limb : UInt32) (limbs : List UInt32) :
    limbsValue (limb :: limbs) = limb.toNat + 2 ^ 32 * limbsValue limbs := by
  rw [limbsValue, List.map_cons, Nat.ofDigits_cons]
  rfl

/-- The lowest limb and the rest, of a list read as padded with zeros. -/
theorem limbsValue_headD_tail (limbs : List UInt32) :
    limbsValue limbs = (limbs.headD 0).toNat + 2 ^ 32 * limbsValue limbs.tail := by
  cases limbs with
  | nil => rfl
  | cons limb limbs => exact limbsValue_cons limb limbs

theorem limbsValue_append (low high : List UInt32) :
    limbsValue (low ++ high) = limbsValue low + (2 ^ 32) ^ low.length * limbsValue high := by
  rw [limbsValue, List.map_append, Nat.ofDigits_append, List.length_map]
  rfl

/-- A limb on top counts for the power its position has. -/
theorem limbsValue_snoc (limbs : List UInt32) (limb : UInt32) :
    limbsValue (limbs ++ [limb]) = limbsValue limbs + (2 ^ 32) ^ limbs.length * limb.toNat := by
  rw [limbsValue_append, limbsValue_cons, limbsValue_nil]
  rfl

theorem limbsValue_lt (limbs : List UInt32) : limbsValue limbs < (2 ^ 32) ^ limbs.length := by
  have below : ∀ digit ∈ limbs.map UInt32.toNat, digit < 2 ^ 32 := by
    intro digit member
    obtain ⟨limb, -, rfl⟩ := List.mem_map.mp member
    exact limb.toNat_lt
  simpa [limbsValue] using Nat.ofDigits_lt_base_pow_length (by decide) below

/-- Limbs that are all zero denote zero. -/
theorem limbsValue_eq_zero {limbs : List UInt32} (zeros : limbs.all (· == 0)) :
    limbsValue limbs = 0 := by
  induction limbs with
  | nil => rfl
  | cons limb limbs inductionHypothesis =>
      rw [List.all_cons, Bool.and_eq_true, beq_iff_eq] at zeros
      rw [limbsValue_cons, zeros.1, inductionHypothesis zeros.2]
      rfl

theorem limbsValue_replicate (count : Nat) : limbsValue (List.replicate count 0) = 0 := by
  induction count with
  | zero => rfl
  | succ count inductionHypothesis =>
      rw [List.replicate_succ, limbsValue_cons, inductionHypothesis]
      rfl

/-- What is cut off above a position is the quotient by that position's power. -/
theorem limbsValue_drop (limbs : List UInt32) {count : Nat} (inside : count ≤ limbs.length) :
    limbsValue (limbs.drop count) = limbsValue limbs / (2 ^ 32) ^ count := by
  have split := limbsValue_append (limbs.take count) (limbs.drop count)
  rw [List.take_append_drop, List.length_take, Nat.min_eq_left inside] at split
  have low := limbsValue_lt (limbs.take count)
  rw [List.length_take, Nat.min_eq_left inside] at low
  rw [split, Nat.add_mul_div_left _ _ (Nat.pow_pos (by decide)), Nat.div_eq_of_lt low, Nat.zero_add]

/-- A number whose top limb is not zero reaches that limb's power. -/
theorem pow_le_limbsValue (limbs : List UInt32) {top : UInt32} (nonzero : top ≠ 0) :
    (2 ^ 32) ^ limbs.length ≤ limbsValue (limbs ++ [top]) := by
  have positive : 0 < top.toNat := Nat.pos_of_ne_zero fun zero =>
    nonzero (UInt32.toNat_inj.mp zero)
  rw [limbsValue_snoc]
  exact le_trans (Nat.le_mul_of_pos_right _ positive) (Nat.le_add_left _ _)

/-- Limbs compare as the numbers they are. -/
theorem compare_toNat (left right : UInt32) : compare left right = compare left.toNat right.toNat := by
  simp only [compare, compareOfLessAndEq, UInt32.lt_iff_toNat_lt, ← UInt32.toNat_inj]

/-- Of two numbers of equal length, the top limbs decide unless they agree. -/
theorem compare_limbsValue_snoc {left right : List UInt32} (same : left.length = right.length)
    (leftTop rightTop : UInt32) :
    compare (limbsValue (left ++ [leftTop])) (limbsValue (right ++ [rightTop]))
      = (compare leftTop.toNat rightTop.toNat).then
          (compare (limbsValue left) (limbsValue right)) := by
  have leftLow := limbsValue_lt left
  have rightLow := limbsValue_lt right
  rw [← same] at rightLow
  rw [limbsValue_snoc, limbsValue_snoc, ← same]
  set power := (2 ^ 32) ^ left.length
  rcases lt_trichotomy leftTop.toNat rightTop.toNat with below | equal | above
  · have apart : power * (leftTop.toNat + 1) ≤ power * rightTop.toNat :=
      Nat.mul_le_mul_left power below
    rw [Nat.compare_eq_lt.mpr below, Nat.compare_eq_lt.mpr (by rw [Nat.mul_add] at apart; omega)]
    rfl
  · rw [equal, Nat.compare_eq_eq.mpr rfl, Ordering.eq_then]
    rcases lt_trichotomy (limbsValue left) (limbsValue right) with below | equal | above
    · rw [Nat.compare_eq_lt.mpr below, Nat.compare_eq_lt.mpr (by omega)]
    · rw [equal, Nat.compare_eq_eq.mpr rfl, Nat.compare_eq_eq.mpr rfl]
    · rw [Nat.compare_eq_gt.mpr above, Nat.compare_eq_gt.mpr (by omega)]
  · have apart : power * (rightTop.toNat + 1) ≤ power * leftTop.toNat :=
      Nat.mul_le_mul_left power above
    rw [Nat.compare_eq_gt.mpr above, Nat.compare_eq_gt.mpr (by rw [Nat.mul_add] at apart; omega)]
    rfl

/-- A bit of the number is a bit of the limb it falls in. -/
theorem testBit_limbsValue (limbs : List UInt32) (index : Nat) :
    (limbsValue limbs).testBit index
      = limbs[index / 32]?.any (fun limb => limb.toNat.testBit (index % 32)) := by
  induction limbs generalizing index with
  | nil => simp
  | cons limb limbs inductionHypothesis =>
      rw [limbsValue_cons, Nat.add_comm, Nat.testBit_two_pow_mul_add _ limb.toNat_lt]
      split_ifs with low
      · rw [Nat.div_eq_of_lt low, Nat.mod_eq_of_lt low]
        rfl
      · have above : 32 ≤ index := Nat.le_of_not_lt low
        have next : index / 32 = (index - 32) / 32 + 1 := by omega
        have same : index % 32 = (index - 32) % 32 := by omega
        rw [inductionHypothesis, next, same, List.getElem?_cons_succ]

/-- A number cut at a bit, from the number cut one bit above it. -/
theorem div_two_pow_eq (value bit : Nat) :
    value / 2 ^ bit = 2 * (value / 2 ^ (bit + 1)) + (value.testBit bit).toNat := by
  rw [Nat.toNat_testBit, pow_succ, ← Nat.div_div_eq_div_mul]
  omega

/-- One step of a division by bits: the remainder doubled, with the next bit, is reduced by at
most one subtraction. -/
theorem mod_two_mul_add {modulus : Nat} (positive : 0 < modulus) (value : Nat) (bit : Bool) :
    (2 * value + bit.toNat) % modulus
      = if modulus ≤ 2 * (value % modulus) + bit.toNat
        then 2 * (value % modulus) + bit.toNat - modulus
        else 2 * (value % modulus) + bit.toNat := by
  have reduced : (2 * value + bit.toNat) % modulus
      = (2 * (value % modulus) + bit.toNat) % modulus := by
    rw [Nat.add_mod, Nat.mul_mod, Nat.add_mod (2 * (value % modulus)), Nat.mul_mod 2 (value % modulus),
      Nat.mod_mod]
  have below := Nat.mod_lt value positive
  have unit := Bool.toNat_le bit
  rw [reduced]
  split_ifs with exceeds
  · rw [Nat.mod_eq_sub_mod exceeds, Nat.mod_eq_of_lt (by omega)]
  · exact Nat.mod_eq_of_lt (Nat.lt_of_not_le exceeds)

end RecurseX.Library
