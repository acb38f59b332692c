import Mathlib.Algebra.Order.BigOperators.Group.Finset
import Mathlib.Algebra.BigOperators.Group.Finset.Basic
import Mathlib.Data.List.Sort

/-!
# Allotting places

Items stand in an order, each in a class. `allot` gives every class its first
places; `fill` goes on with the best of the rest. Together they take as many as
there are places, no item twice, and when there is room for all the first places no
class goes short.
-/

namespace RecurseX.Library

variable {α C : Type} [DecidableEq C] {classOf : α → C} {places : Nat} {items : List α}

/-- The first `places` items of each class, some of which are taken. -/
def allot (classOf : α → C) (places : Nat) (taken : C → Nat) : List α → List α
  | [] => []
  | item :: items =>
      if taken (classOf item) < places then
        item :: allot classOf places
          (Function.update taken (classOf item) (taken (classOf item) + 1)) items
      else allot classOf places taken items

theorem allot_cons (taken : C → Nat) (item : α) (items : List α) :
    allot classOf places taken (item :: items) =
      if taken (classOf item) < places then
        item :: allot classOf places
          (Function.update taken (classOf item) (taken (classOf item) + 1)) items
      else allot classOf places taken items := rfl

theorem allot_sublist (taken : C → Nat) (items : List α) :
    (allot classOf places taken items).Sublist items := by
  induction items generalizing taken with
  | nil => exact .slnil
  | cons item items inductionHypothesis =>
      rw [allot_cons]
      split_ifs
      · exact (inductionHypothesis _).cons_cons item
      · exact (inductionHypothesis taken).cons item

/-- A class gets the places that are left to it, as far as it has items. -/
theorem countP_allot (taken : C → Nat) (items : List α) (group : C) :
    (allot classOf places taken items).countP (classOf · = group) =
      min (places - taken group) (items.countP (classOf · = group)) := by
  induction items generalizing taken with
  | nil => exact (Nat.min_zero _).symm
  | cons item items inductionHypothesis =>
      rw [allot_cons]
      split_ifs with room
      · rw [List.countP_cons, List.countP_cons, inductionHypothesis]
        by_cases same : classOf item = group
        · subst same
          simp only [Function.update_self, decide_true, if_true]
          omega
        · simp only [Function.update_of_ne (Ne.symm same), same, decide_false, Bool.false_eq_true,
            if_false, Nat.add_zero]
      · rw [List.countP_cons, inductionHypothesis]
        by_cases same : classOf item = group
        · subst same
          omega
        · simp only [same, decide_false, Bool.false_eq_true, if_false, Nat.add_zero]

/-- How many classes there are among the items. -/
def classes (classOf : α → C) (items : List α) : Nat := (items.map classOf).toFinset.card

/-- The first places of all classes are no more than there are classes times places. -/
theorem length_allot_le (items : List α) :
    (allot classOf places (fun _ => 0) items).length ≤ classes classOf items * places := by
  generalize isFirst : allot classOf places (fun _ => 0) items = first
  have sublist : first.Sublist items := isFirst ▸ allot_sublist _ items
  have few (group : C) : (first.map classOf).count group ≤ places := by
    have counted : first.countP (classOf · = group) = min places (items.countP (classOf · = group)) :=
      isFirst ▸ countP_allot (fun _ => 0) items group
    have same : (first.map classOf).count group = first.countP (classOf · = group) := by
      rw [List.count_eq_countP, List.countP_map]
      exact List.countP_congr fun item _ => by simp
    rw [same, counted]
    exact Nat.min_le_left _ _
  calc first.length
      = (first.map classOf).length := (List.length_map classOf).symm
    _ = ∑ group ∈ (first.map classOf).toFinset, (first.map classOf).count group :=
        (List.sum_toFinset_count_eq_length _).symm
    _ ≤ ∑ _group ∈ (first.map classOf).toFinset, places := Finset.sum_le_sum fun group _ => few group
    _ = (first.map classOf).toFinset.card * places := Finset.sum_const_nat fun _ _ => rfl
    _ ≤ classes classOf items * places := by
        refine Nat.mul_le_mul_right places (Finset.card_le_card fun group listed => ?_)
        rw [List.mem_toFinset] at listed ⊢
        exact (sublist.map classOf).subset listed

/-! ## Filling up -/

variable [DecidableEq α] {chosen : List α} {budget : Nat} {item : α}

/-- The chosen, and of the others the first that there is room for. -/
def fillUp (budget : Nat) (chosen items : List α) : List α :=
  chosen ++ (items.filter (· ∉ chosen)).take (budget - chosen.length)

theorem nodup_fillUp (chosenOnce : chosen.Nodup) (distinct : items.Nodup) :
    (fillUp budget chosen items).Nodup := by
  refine List.nodup_append.mpr ⟨chosenOnce, (distinct.filter _).sublist (List.take_sublist _ _), ?_⟩
  rintro first early second late rfl
  exact of_decide_eq_true (List.mem_filter.mp (List.mem_of_mem_take late)).2 early

theorem mem_of_fillUp (part : ∀ item ∈ chosen, item ∈ items)
    (taken : item ∈ fillUp budget chosen items) : item ∈ items := by
  obtain early | late := List.mem_append.mp taken
  · exact part item early
  · exact (List.mem_filter.mp (List.mem_of_mem_take late)).1

/-- As many are taken as there is room for. -/
theorem length_fillUp (chosenOnce : chosen.Nodup) (distinct : items.Nodup)
    (part : ∀ item ∈ chosen, item ∈ items) (within : chosen.length ≤ budget) :
    (fillUp budget chosen items).length = min budget items.length := by
  have perm : (chosen ++ items.filter (· ∉ chosen)).Perm items := by
    refine (List.perm_ext_iff_of_nodup ?_ distinct).mpr fun item => ?_
    · refine List.nodup_append.mpr ⟨chosenOnce, distinct.filter _, ?_⟩
      rintro first early second late rfl
      exact of_decide_eq_true (List.mem_filter.mp late).2 early
    · rw [List.mem_append, List.mem_filter]
      by_cases early : item ∈ chosen
      · exact iff_of_true (.inl early) (part item early)
      · simp [early]
  have lengths := perm.length_eq
  rw [List.length_append] at lengths
  rw [fillUp, List.length_append, List.length_take]
  omega

end RecurseX.Library
