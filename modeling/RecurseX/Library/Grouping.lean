import Mathlib.Data.List.Induction

/-!
# Grouping a list by a key

The groups of an ordered map that is filled item by item: under each key that
occurs, the items with that key, in the order of the list.
-/

namespace RecurseX.Library

open Std

variable {α κ : Type} {cmp : κ → κ → Ordering}

/-- Append an item to the group of its key. -/
def addToGroup (view : α → κ) (groups : TreeMap κ (List α) cmp) (item : α) :
    TreeMap κ (List α) cmp :=
  groups.insert (view item) (groups.getD (view item) [] ++ [item])

/-- The items grouped by `view`. -/
def groupBy (cmp : κ → κ → Ordering) (view : α → κ) (items : List α) : TreeMap κ (List α) cmp :=
  items.foldl (addToGroup view) ∅

variable [TransCmp cmp] [LawfulEqCmp cmp] [DecidableEq κ] {view : α → κ}

theorem getElem?_groupBy {items : List α} {key : κ} :
    (groupBy cmp view items)[key]? =
      if (items.filter fun item => view item = key) = [] then none
      else some (items.filter fun item => view item = key) := by
  induction items using List.reverseRecOn generalizing key with
  | nil => simp [groupBy]
  | append_singleton items last inductionHypothesis =>
      have earlier : (groupBy cmp view items).getD (view last) [] =
          items.filter fun item => view item = view last := by
        rw [TreeMap.getD_eq_getD_getElem?, inductionHypothesis]
        split_ifs with nothing
        · exact nothing.symm
        · rfl
      have grown : groupBy cmp view (items ++ [last]) =
          (groupBy cmp view items).insert (view last)
            ((items.filter fun item => view item = view last) ++ [last]) := by
        rw [← earlier, groupBy, List.foldl_append]
        rfl
      rw [grown, TreeMap.getElem?_insert, inductionHypothesis]
      by_cases same : view last = key
      · simp [LawfulEqCmp.compare_eq_iff_eq, same]
      · simp [LawfulEqCmp.compare_eq_iff_eq, same]

/-- The groups are the non-empty ones, each complete and in order. -/
theorem mem_toList_groupBy {items group : List α} {key : κ} :
    (key, group) ∈ (groupBy cmp view items).toList ↔
      group ≠ [] ∧ group = items.filter fun item => view item = key := by
  rw [TreeMap.mem_toList_iff_getElem?_eq_some, getElem?_groupBy]
  split_ifs with nothing
  · simp [nothing]
  · rw [Option.some.injEq]
    constructor
    · rintro rfl
      exact ⟨nothing, rfl⟩
    · exact fun grouped => grouped.2.symm

theorem mem_of_mem_group {items group : List α} {key : κ}
    (grouped : (key, group) ∈ (groupBy cmp view items).toList) {item : α}
    (member : item ∈ group) : item ∈ items ∧ view item = key := by
  rw [(mem_toList_groupBy.mp grouped).2] at member
  simpa using member

omit [LawfulEqCmp cmp] [DecidableEq κ] in
/-- At most one entry of a map is accepted where all that are accepted have one key. -/
theorem countP_toList_le_one [ReflCmp cmp] {β : Type} {map : TreeMap κ β cmp}
    {accepts : κ × β → Bool} (key : κ)
    (keyed : ∀ entry, accepts entry = true → entry.1 = key) : map.toList.countP accepts ≤ 1 := by
  have distinct := @TreeMap.distinct_keys_toList _ _ _ map _
  generalize map.toList = entries at distinct ⊢
  induction entries with
  | nil => exact Nat.zero_le 1
  | cons entry entries inductionHypothesis =>
      obtain ⟨apart, rest⟩ := List.pairwise_cons.mp distinct
      rw [List.countP_cons]
      split_ifs with accepted
      · have alone : entries.countP accepts = 0 := by
          refine List.countP_eq_zero.mpr fun other listed otherAccepted => apart other listed ?_
          rw [keyed entry accepted, keyed other otherAccepted]
          exact ReflCmp.compare_self
        omega
      · exact inductionHypothesis rest

end RecurseX.Library
