import Mathlib.Data.List.Nodup
import Mathlib.Data.List.Perm.Subperm
import Mathlib.Data.Nat.ModEq
import Mathlib.Logic.Function.Iterate

/-!
# A cursor that wraps around an interval

The cursor visits `first`, …, `last` and starts again. The candidates it visits
are distinct until it has seen the whole interval, so among more candidates than
there are occupied keys one is free.
-/

namespace RecurseX.Library

variable {first last cursor : Nat}

/-- The key after the cursor. -/
def wrapNext (first last cursor : Nat) : Nat := if last ≤ cursor then first else cursor + 1

theorem wrapNext_mem (atLeast : first ≤ cursor) (atMost : cursor ≤ last) :
    first ≤ wrapNext first last cursor ∧ wrapNext first last cursor ≤ last := by
  unfold wrapNext
  split_ifs <;> omega

/-- Where the cursor is after some moves. -/
theorem iterate_wrapNext (atLeast : first ≤ cursor) (atMost : cursor ≤ last) (moves : Nat) :
    (wrapNext first last)^[moves] cursor =
      first + (cursor - first + moves) % (last - first + 1) := by
  induction moves with
  | zero =>
      rw [Nat.add_zero, Nat.mod_eq_of_lt (by omega)]
      exact (Nat.add_sub_of_le atLeast).symm
  | succ moves inductionHypothesis =>
      rw [Function.iterate_succ_apply', inductionHypothesis, wrapNext, ← Nat.add_assoc,
        Nat.add_mod_eq_ite (m := cursor - first + moves) (n := 1)]
      have within := Nat.mod_lt (cursor - first + moves) (by omega : 0 < last - first + 1)
      obtain one | more : last - first + 1 = 1 ∨ 1 < last - first + 1 := by omega
      · rw [one, Nat.mod_one, Nat.mod_one]
        split_ifs <;> omega
      · rw [Nat.mod_eq_of_lt more]
        split_ifs <;> omega

/-- The candidates are distinct until the whole interval has been seen. -/
theorem nodup_candidates (atLeast : first ≤ cursor) (atMost : cursor ≤ last) {count : Nat}
    (fits : count ≤ last - first + 1) :
    ((List.range count).map fun moves => (wrapNext first last)^[moves] cursor).Nodup := by
  refine List.Nodup.map_on ?_ List.nodup_range
  intro left leftListed right rightListed same
  rw [iterate_wrapNext atLeast atMost, iterate_wrapNext atLeast atMost] at same
  have congruent : left ≡ right [MOD last - first + 1] :=
    Nat.ModEq.add_left_cancel' (cursor - first) (Nat.add_left_cancel same)
  rw [List.mem_range] at leftListed rightListed
  exact congruent.eq_of_lt_of_lt (by omega) (by omega)

/-- Among more candidates than there are occupied keys one is free. -/
theorem exists_free_candidate (atLeast : first ≤ cursor) (atMost : cursor ≤ last)
    (occupied : List Nat) {count : Nat} (fits : count ≤ last - first + 1)
    (fewer : occupied.length < count) :
    ∃ moves < count, (wrapNext first last)^[moves] cursor ∉ occupied := by
  by_contra full
  push Not at full
  have included : ((List.range count).map fun moves => (wrapNext first last)^[moves] cursor) ⊆
      occupied := by
    intro key listed
    obtain ⟨moves, within, rfl⟩ := List.mem_map.mp listed
    exact full moves (List.mem_range.mp within)
  have bounded := ((nodup_candidates atLeast atMost fits).subperm included).length_le
  rw [List.length_map, List.length_range] at bounded
  omega

end RecurseX.Library
