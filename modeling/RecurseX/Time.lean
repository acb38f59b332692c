import Mathlib.Algebra.Group.Int.Defs
import Mathlib.Data.List.Sort

/-!
# Machine numbers

Nanosecond timestamps are signed 128-bit integers in the source; the model uses
integers and saturates where the source does.
-/

namespace RecurseX

/-- The largest count a machine word holds. -/
def usizeMax : Nat := 18446744073709551615

/-- A monotonic timestamp in nanoseconds. -/
abbrev Ts := Int

/-- Addition that saturates at the 128-bit bounds. -/
def saturatingAdd (left right : Ts) : Ts :=
  max (-(2 ^ 127)) (min (2 ^ 127 - 1) (left + right))

/-- Subtraction that saturates at the 128-bit bounds. -/
def saturatingSub (left right : Ts) : Ts :=
  max (-(2 ^ 127)) (min (2 ^ 127 - 1) (left - right))

/-- A number of seconds in nanoseconds. -/
def secondsToTs (secs : UInt32) : Ts := (secs.toNat : Int) * 1000000000

/-- The numbers that a signed 128-bit integer holds. -/
def IsInstant (time : Ts) : Prop := -(2 ^ 127) ≤ time ∧ time < 2 ^ 127

instance (time : Ts) : Decidable (IsInstant time) := inferInstanceAs (Decidable (_ ∧ _))

/-- Every number of seconds is between no time and 136 years. -/
theorem secondsToTs_bounds (secs : UInt32) :
    0 ≤ secondsToTs secs ∧ secondsToTs secs < 4294967296 * 1000000000 := by
  have small : secs.toNat < 4294967296 := secs.toNat_lt
  constructor
  · exact Int.mul_nonneg (Int.natCast_nonneg _) (by decide)
  · exact Int.mul_lt_mul_of_pos_right (Int.ofNat_lt.mpr small) (by decide)

theorem secondsToTs_mono {secs more : UInt32} (fewer : secs ≤ more) :
    secondsToTs secs ≤ secondsToTs more :=
  Int.mul_le_mul_of_nonneg_right (Int.ofNat_le.mpr fewer) (by decide)

theorem isInstant_secondsToTs (secs : UInt32) : IsInstant (secondsToTs secs) := by
  obtain ⟨least, most⟩ := secondsToTs_bounds secs
  exact ⟨Int.le_trans (by decide) least, Int.lt_trans most (by decide)⟩

theorem isInstant_saturatingAdd (left right : Ts) : IsInstant (saturatingAdd left right) := by
  refine ⟨le_max_left _ _, max_lt (by decide) ?_⟩
  exact lt_of_le_of_lt (min_le_left _ _) (by decide)

/-- Seconds are added as they are, up to the last instant there is. -/
theorem saturatingAdd_secondsToTs {now : Ts} (instant : IsInstant now) (secs : UInt32) :
    saturatingAdd now (secondsToTs secs) = min (2 ^ 127 - 1) (now + secondsToTs secs) := by
  have later : now ≤ now + secondsToTs secs := Int.le_add_of_nonneg_right (secondsToTs_bounds secs).1
  exact max_eq_right (le_min (by decide) (instant.1.trans later))

/-- Seconds up to a cap do not lead past the cap. -/
theorem saturatingAdd_le {now : Ts} (instant : IsInstant now) {secs cap : UInt32}
    (capped : secs ≤ cap) : saturatingAdd now (secondsToTs secs) ≤ now + secondsToTs cap := by
  rw [saturatingAdd_secondsToTs instant]
  exact (min_le_right _ _).trans (Int.add_le_add_left (secondsToTs_mono capped) now)

theorem IsInstant.max {left right : Ts} (first : IsInstant left) (second : IsInstant right) :
    IsInstant (max left right) :=
  ⟨first.1.trans (le_max_left _ _), max_lt first.2 second.2⟩

/-- What is left of a term that started no later than now. -/
theorem isInstant_remaining {inserted expires now : Ts} {cap : UInt32}
    (capped : expires ≤ inserted + secondsToTs cap) (started : inserted ≤ now)
    (running : now < expires) : IsInstant (expires - now) := by
  have least : 0 < expires - now := Int.sub_pos.mpr running
  have most : expires - now ≤ secondsToTs cap :=
    Int.sub_right_le_of_le_add ((capped.trans (Int.add_le_add_right started _)).trans
      (Int.add_comm _ _).le)
  exact ⟨Int.le_trans (by decide) least.le, most.trans_lt (isInstant_secondsToTs cap).2⟩

theorem min_le_cap (secs cap : UInt32) : min secs cap ≤ cap := by
  change (if secs ≤ cap then secs else cap) ≤ cap
  split_ifs with below
  · exact below
  · exact UInt32.le_refl cap

end RecurseX
