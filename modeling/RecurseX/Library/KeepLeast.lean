import Mathlib.Data.List.Sort

/-!
# Keeping the least of what arrives

Items arrive one at a time; when there are too many, the last of the greatest is
thrown out. What is held is then what comes first in the stable sort of all that
has arrived, however the holder keeps its own list.
-/

namespace RecurseX.Library

variable {α K : Type} [LinearOrder K] {key : α → K} {capacity : Nat} {items held all : List α}
  {item greatest : α}

/-- The stable sort by ascending keys. -/
def sortAscending (key : α → K) (items : List α) : List α :=
  items.insertionSort fun left right => key left ≤ key right

/-- Place an item behind those that are not greater. -/
def insertLast (key : α → K) (item : α) : List α → List α
  | [] => [item]
  | first :: rest =>
      if key first ≤ key item then first :: insertLast key item rest else item :: first :: rest

/-- The held items, in order, are the first of all. -/
def HoldsLeast (key : α → K) (capacity : Nat) (held all : List α) : Prop :=
  sortAscending key held = (sortAscending key all).take capacity

theorem sortAscending_perm (key : α → K) (items : List α) : (sortAscending key items).Perm items :=
  List.perm_insertionSort _ items

@[simp] theorem length_sortAscending : (sortAscending key items).length = items.length :=
  List.length_insertionSort _ items

theorem sortAscending_pairwise (key : α → K) (items : List α) :
    (sortAscending key items).Pairwise fun left right => key left ≤ key right := by
  have total : Std.Total fun left right : α => key left ≤ key right :=
    ⟨fun left right => le_total (key left) (key right)⟩
  have trans : IsTrans α fun left right => key left ≤ key right :=
    ⟨fun _ _ _ first second => first.trans second⟩
  exact List.pairwise_insertionSort _ items

theorem sortAscending_cons : sortAscending key (item :: items) =
    (sortAscending key items).orderedInsert (fun left right => key left ≤ key right) item := rfl

/-- Sorting what is in order changes nothing. -/
theorem sortAscending_eq (ordered : items.Pairwise fun left right => key left ≤ key right) :
    sortAscending key items = items :=
  ordered.insertionSort_eq

/-- An item that goes ahead of its equals and one that goes behind them do not meet. -/
theorem orderedInsert_insertLast (first last : α) :
    (insertLast key last items).orderedInsert (fun left right => key left ≤ key right) first =
      insertLast key last
        (items.orderedInsert (fun left right => key left ≤ key right) first) := by
  induction items with
  | nil => grind [insertLast]
  | cons item items inductionHypothesis => grind [insertLast]

/-- The stable sort places the last item behind its equals. -/
theorem sortAscending_append_singleton :
    sortAscending key (items ++ [item]) = insertLast key item (sortAscending key items) := by
  induction items with
  | nil => rfl
  | cons first items inductionHypothesis =>
      rw [List.cons_append, sortAscending_cons, inductionHypothesis, orderedInsert_insertLast,
        sortAscending_cons]

/-- Only the first items decide what comes first after one more. -/
theorem take_insertLast (capacity : Nat) (items : List α) :
    (insertLast key item (items.take capacity)).take capacity =
      (insertLast key item items).take capacity := by
  induction items generalizing capacity with
  | nil => rw [List.take_nil]
  | cons first items inductionHypothesis =>
      cases capacity with
      | zero => rfl
      | succ capacity =>
          rw [List.take_succ_cons, insertLast, insertLast]
          split_ifs
          · rw [List.take_succ_cons, List.take_succ_cons, inductionHypothesis]
          · have shorter : (first :: items.take capacity).take capacity =
                (first :: items).take capacity := by
              rw [← List.take_succ_cons, List.take_take, min_eq_left (Nat.le_succ capacity)]
            rw [List.take_succ_cons, List.take_succ_cons, shorter]

/-- An item goes ahead of the last of the greatest. -/
theorem orderedInsert_append_greatest (below : key item ≤ key greatest) (items : List α) :
    (items ++ [greatest]).orderedInsert (fun left right => key left ≤ key right) item =
      items.orderedInsert (fun left right => key left ≤ key right) item ++ [greatest] := by
  induction items with
  | nil => exact if_pos below
  | cons first items inductionHypothesis =>
      rw [List.cons_append, List.orderedInsert_cons, List.orderedInsert_cons]
      split_ifs
      · rfl
      · rw [inductionHypothesis]
        rfl

/-- The greatest goes behind all that are less. -/
theorem orderedInsert_greatest (below : ∀ other ∈ items, key other < key greatest) :
    items.orderedInsert (fun left right => key left ≤ key right) greatest = items ++ [greatest] := by
  induction items with
  | nil => rfl
  | cons first items inductionHypothesis =>
      obtain ⟨less, rest⟩ := List.forall_mem_cons.mp below
      rw [List.orderedInsert_cons, if_neg (not_le.mpr less), inductionHypothesis rest]
      rfl

/-- The last of the greatest comes last. -/
theorem sortAscending_split {front back : List α}
    (before : ∀ other ∈ front, key other ≤ key greatest)
    (after : ∀ other ∈ back, key other < key greatest) :
    sortAscending key (front ++ greatest :: back) =
      sortAscending key (front ++ back) ++ [greatest] := by
  induction front with
  | nil =>
      refine orderedInsert_greatest fun other listed => after other ?_
      exact (sortAscending_perm key back).mem_iff.mp listed
  | cons first front inductionHypothesis =>
      obtain ⟨below, rest⟩ := List.forall_mem_cons.mp before
      rw [List.cons_append, sortAscending_cons, inductionHypothesis rest,
        orderedInsert_append_greatest below]
      rfl

namespace HoldsLeast

theorem refl (fits : items.length ≤ capacity) : HoldsLeast key capacity items items := by
  rw [HoldsLeast, List.take_of_length_le (by rwa [length_sortAscending])]

/-- A sorted list is cut. -/
theorem take (ordered : items.Pairwise fun left right => key left ≤ key right) :
    HoldsLeast key capacity (items.take capacity) items := by
  rw [HoldsLeast, sortAscending_eq ordered]
  exact sortAscending_eq (ordered.sublist (List.take_sublist _ _))

/-- What is held is among all. -/
theorem mem_iff (least : HoldsLeast key capacity held all) :
    item ∈ held ↔ item ∈ (sortAscending key all).take capacity := by
  rw [← least, (sortAscending_perm key held).mem_iff]

theorem length_le (least : HoldsLeast key capacity held all) : held.length ≤ capacity := by
  have same := congrArg List.length least
  rw [length_sortAscending, List.length_take] at same
  omega

/-- What is in order once one more has come. -/
theorem sorted_take (least : HoldsLeast key capacity held all) (item : α) :
    (sortAscending key (held ++ [item])).take capacity =
      (sortAscending key (all ++ [item])).take capacity := by
  rw [sortAscending_append_singleton, least, take_insertLast, sortAscending_append_singleton]

/-- There is room for one more. -/
theorem append (least : HoldsLeast key capacity held all)
    (room : (held ++ [item]).length ≤ capacity) :
    HoldsLeast key capacity (held ++ [item]) (all ++ [item]) := by
  rw [HoldsLeast, ← least.sorted_take, List.take_of_length_le]
  rwa [length_sortAscending]

/-- There is none, and the last of the greatest goes. -/
theorem replace {front back : List α} (least : HoldsLeast key capacity held all)
    (split : held ++ [item] = front ++ greatest :: back)
    (before : ∀ other ∈ front, key other ≤ key greatest)
    (after : ∀ other ∈ back, key other < key greatest)
    (full : (front ++ back).length = capacity) :
    HoldsLeast key capacity (front ++ back) (all ++ [item]) := by
  rw [HoldsLeast, ← least.sorted_take, split, sortAscending_split before after]
  refine (List.take_left' ?_).symm
  rw [length_sortAscending, full]

end HoldsLeast

end RecurseX.Library
