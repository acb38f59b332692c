import Mathlib.Algebra.Order.Archimedean.Basic
import Mathlib.Algebra.Order.Field.Basic
import Mathlib.Logic.Function.Iterate
import Mathlib.Tactic.FieldSimp
import Mathlib.Tactic.Linarith
import Mathlib.Tactic.Ring

/-!
# Discounted totals

A total that is discounted before each gain is added. A ceiling holds of every such
total exactly when each gain fits into what its own discount takes off the ceiling.
-/

namespace RecurseX.Library

variable {K : Type*} [Field K] [LinearOrder K] [IsStrictOrderedRing K]

/-- A total after its discount and a gain. -/
def discounted (factor gain total : K) : K := total * factor + gain

variable {factor gain total ceiling : K}

/-- What the discount takes off the ceiling makes room for the gain. -/
theorem discounted_le (factorNonneg : 0 ≤ factor) (room : gain ≤ ceiling * (1 - factor))
    (below : total ≤ ceiling) : discounted factor gain total ≤ ceiling := by
  have kept : total * factor ≤ ceiling * factor := mul_le_mul_of_nonneg_right below factorNonneg
  rw [discounted]
  linarith

/-- The same discount and gain over and over, from nothing: a geometric sum. -/
theorem iterate_discounted (below : factor < 1) (count : Nat) :
    (discounted factor gain)^[count] 0 = gain / (1 - factor) * (1 - factor ^ count) := by
  have apart : 1 - factor ≠ 0 := (sub_pos.mpr below).ne'
  induction count with
  | zero => simp
  | succ count inductionHypothesis =>
      rw [Function.iterate_succ_apply', inductionHypothesis, discounted]
      field_simp
      ring

/-- A gain that does not fit passes the ceiling when it is repeated often enough. -/
theorem exists_iterate_discounted_gt [Archimedean K] (below : factor < 1)
    (ceilingNonneg : 0 ≤ ceiling) (excess : ceiling * (1 - factor) < gain) :
    ∃ count : Nat, ceiling < (discounted factor gain)^[count] 0 := by
  have room : 0 < 1 - factor := sub_pos.mpr below
  have beyond : ceiling < gain / (1 - factor) := (lt_div_iff₀ room).mpr excess
  have limitPos : 0 < gain / (1 - factor) := lt_of_le_of_lt ceilingNonneg beyond
  have gap : 0 < 1 - ceiling / (gain / (1 - factor)) := by
    rw [sub_pos, div_lt_one limitPos]
    exact beyond
  obtain ⟨count, small⟩ := exists_pow_lt_of_lt_one gap below
  refine ⟨count, ?_⟩
  rw [iterate_discounted below]
  have enough : ceiling / (gain / (1 - factor)) < 1 - factor ^ count := by linarith
  rw [div_lt_iff₀ limitPos] at enough
  linarith

end RecurseX.Library
