import Mathlib.Algebra.Order.Ring.Nat
import Mathlib.Data.List.Sort

/-!
# Ranks and buckets

The item of a rank in a sample, by how many items lie below it, and where it is found
when only the sizes of the buckets of a monotone map are known.
-/

namespace RecurseX.Library

variable {α : Type} [LinearOrder α] {items : List α} {rank : Nat} {value : α}

/-- The item of a rank in ascending order. Ranks begin with one. -/
def ranked (rank : Nat) (items : List α) : Option α := (items.insertionSort (· ≤ ·))[rank - 1]?

theorem exists_ranked (positive : 0 < rank) (within : rank ≤ items.length) :
    ∃ value, ranked rank items = some value := by
  have inside : rank - 1 < (items.insertionSort (· ≤ ·)).length := by
    rw [List.length_insertionSort]
    omega
  exact ⟨_, List.getElem?_eq_getElem inside⟩

theorem mem_of_ranked (found : ranked rank items = some value) : value ∈ items :=
  (List.perm_insertionSort (· ≤ ·) items).mem_iff.mp (List.mem_of_getElem? found)

/-- Later places hold greater items. -/
theorem getElem_le_of_pairwise (sorted : items.Pairwise (· ≤ ·)) {index later : Nat}
    (le : index ≤ later) (inside : later < items.length) : items[index] ≤ items[later] := by
  obtain rfl | before := Nat.eq_or_lt_of_le le
  · exact le_rfl
  · exact List.pairwise_iff_getElem.mp sorted index later _ inside before

/-- As many items as the rank says are no greater. -/
theorem rank_le_countP (found : ranked rank items = some value) :
    rank ≤ items.countP (· ≤ value) := by
  obtain ⟨inside, same⟩ := List.getElem?_eq_some_iff.mp found
  have sorted := List.pairwise_insertionSort (· ≤ ·) items
  rw [← (List.perm_insertionSort (· ≤ ·) items).countP_eq]
  generalize items.insertionSort (· ≤ ·) = ascending at inside same sorted ⊢
  have below : ∀ item ∈ ascending.take rank, decide (item ≤ value) = true := by
    intro item member
    obtain ⟨index, reached, rfl⟩ := List.mem_take_iff_getElem.mp member
    rw [← same]
    exact decide_eq_true (getElem_le_of_pairwise sorted (by omega) inside)
  calc rank ≤ (ascending.take rank).length := by
        rw [List.length_take]
        omega
    _ = (ascending.take rank).countP (· ≤ value) := (List.countP_eq_length.mpr below).symm
    _ ≤ ascending.countP (· ≤ value) := (List.take_sublist rank ascending).countP_le

/-- Fewer items than the rank says are smaller. -/
theorem countP_lt_rank (positive : 0 < rank) (found : ranked rank items = some value) :
    items.countP (· < value) < rank := by
  obtain ⟨inside, same⟩ := List.getElem?_eq_some_iff.mp found
  have sorted := List.pairwise_insertionSort (· ≤ ·) items
  rw [← (List.perm_insertionSort (· ≤ ·) items).countP_eq]
  generalize items.insertionSort (· ≤ ·) = ascending at inside same sorted ⊢
  have above : (ascending.drop (rank - 1)).countP (· < value) = 0 := by
    refine List.countP_eq_zero.mpr fun item member => ?_
    obtain ⟨index, reached, rfl⟩ := List.mem_drop_iff_getElem.mp member
    rw [decide_eq_true_eq, not_lt, ← same]
    exact getElem_le_of_pairwise sorted (Nat.le_add_right _ _) (by omega)
  have few := List.countP_le_length (p := (· < value)) (l := ascending.take (rank - 1))
  rw [List.length_take] at few
  rw [← List.take_append_drop (rank - 1) ascending, List.countP_append, above]
  omega

/-! ## Buckets -/

variable {bucket : α → Nat}

omit [LinearOrder α] in
theorem countP_lt_succ (count : Nat) : items.countP (bucket · < count + 1) =
    items.countP (bucket · < count) + items.countP (bucket · = count) := by
  induction items with
  | nil => rfl
  | cons item items inductionHypothesis =>
      simp only [List.countP_cons, inductionHypothesis, decide_eq_true_eq]
      split_ifs <;> omega

omit [LinearOrder α] in
/-- The sizes of the first buckets add up to the items in them. -/
theorem sum_bucketSizes (count : Nat) :
    ((List.range count).map fun index => items.countP (bucket · = index)).sum =
      items.countP (bucket · < count) := by
  induction count with
  | zero => simp
  | succ count inductionHypothesis =>
      rw [List.range_succ, List.map_append, List.sum_append, inductionHypothesis, List.map_singleton,
        List.sum_singleton, countP_lt_succ]

/-- The item of a rank is in the first bucket with which the sizes reach the rank. -/
theorem bucket_of_ranked (mono : Monotone bucket) (positive : 0 < rank)
    (found : ranked rank items = some value) :
    items.countP (bucket · < bucket value) < rank ∧
      rank ≤ items.countP (bucket · < bucket value + 1) := by
  constructor
  · refine lt_of_le_of_lt (List.countP_mono_left fun item _ earlier => ?_) (countP_lt_rank positive found)
    rw [decide_eq_true_eq] at earlier ⊢
    exact mono.reflect_lt earlier
  · refine (rank_le_countP found).trans (List.countP_mono_left fun item _ smaller => ?_)
    rw [decide_eq_true_eq] at smaller ⊢
    exact Nat.lt_succ_of_le (mono smaller)

end RecurseX.Library
