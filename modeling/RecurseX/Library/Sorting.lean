import Mathlib.Data.List.Pairwise
import Mathlib.Data.List.Sort

/-!
# Sorting by what a list is written as

A list is sorted by the order of its items. `sorted_map_iff` compares two orders:
the images of the items under a map come out in the order of the items, each
once, exactly when the map is strictly monotone on them and no item is repeated.
-/

namespace RecurseX.Library

open Std

variable {α β : Type} [Ord α] [Ord β] {items others listing : List α}

/-- The items in the order of their type. -/
def sorted (items : List α) : List α :=
  items.mergeSort fun left right => (compare left right).isLE

/-- Every item once, in increasing order. -/
structure Lists (items listing : List α) : Prop where
  each : ∀ item, item ∈ listing ↔ item ∈ items
  increasing : listing.Pairwise fun left right => compare left right = .lt

theorem sorted_perm (items : List α) : (sorted items).Perm items :=
  List.mergeSort_perm items _

theorem sorted_pairwise [TransOrd α] (items : List α) :
    (sorted items).Pairwise fun left right => (compare left right).isLE = true := by
  apply List.pairwise_mergeSort
  · intro first second third below above
    exact TransCmp.isLE_trans below above
  · intro left right
    rw [show compare right left = _ from OrientedCmp.eq_swap]
    cases compare left right <;> rfl

/-- Two sorted lists of the same items are equal. -/
theorem eq_of_perm_sorted [TransOrd α] [LawfulEqOrd α] (same : items.Perm others)
    (left : items.Pairwise fun left right => (compare left right).isLE = true)
    (right : others.Pairwise fun left right => (compare left right).isLE = true) :
    items = others := by
  refine same.eq_of_pairwise (fun first second _ _ below above => ?_) left right
  exact LawfulEqOrd.eq_of_compare (OrientedCmp.isLE_antisymm below above)

/-- What is sorted does not depend on the order it stands in. -/
theorem sorted_congr [TransOrd α] [LawfulEqOrd α] (same : items.Perm others) :
    sorted items = sorted others :=
  eq_of_perm_sorted ((sorted_perm items).trans (same.trans (sorted_perm others).symm))
    (sorted_pairwise items) (sorted_pairwise others)

theorem Lists.nodup [ReflOrd α] (lists : Lists items listing) : listing.Nodup := by
  refine lists.increasing.imp fun {left right} less same => ?_
  rw [same, ReflOrd.compare_self] at less
  cases less

omit [Ord α] in
/-- Two different items stand in one of the two orders. -/
theorem either_of_pairwise {related : α → α → Prop} (pairs : items.Pairwise related)
    {left right : α} (inside : left ∈ items) (insideToo : right ∈ items) (different : left ≠ right) :
    related left right ∨ related right left := by
  have symmetric : Symm fun left right => related left right ∨ related right left :=
    ⟨fun _ _ => Or.symm⟩
  have either : items.Pairwise fun left right => related left right ∨ related right left :=
    pairs.imp .inl
  exact either.forall inside insideToo different

/-- Without repetitions the sorted items are their listing. -/
theorem lists_sorted [TransOrd α] [LawfulEqOrd α] (distinct : items.Nodup) :
    Lists items (sorted items) := by
  refine ⟨fun item => (sorted_perm items).mem_iff, ?_⟩
  have apart : (sorted items).Nodup := (sorted_perm items).nodup_iff.mpr distinct
  refine (apart.and (sorted_pairwise items)).imp ?_
  rintro left right ⟨different, below⟩
  cases compared : compare left right with
  | lt => rfl
  | eq => exact absurd (LawfulEqOrd.eq_of_compare compared) different
  | gt =>
      rw [compared] at below
      cases below

/-- **Two orders.** The images, sorted by their own order, list the items in the order of the items
exactly when the map is strictly monotone on them and no item is repeated. -/
theorem sorted_map_iff [TransOrd α] [LawfulEqOrd α] [TransOrd β] [LawfulEqOrd β] {view : α → β}
    (injective : ∀ {left right}, view left = view right → left = right) :
    (∃ listing, Lists items listing ∧ sorted (items.map view) = listing.map view) ↔
      items.Nodup ∧ ∀ left ∈ items, ∀ right ∈ items, compare left right = .lt →
        compare (view left) (view right) = .lt := by
  constructor
  · rintro ⟨listing, lists, same⟩
    have images : (listing.map view).Perm (items.map view) := same ▸ sorted_perm (items.map view)
    have distinct : items.Nodup := by
      have apart : (listing.map view).Nodup := lists.nodup.map fun _ _ => injective
      exact (images.nodup_iff.mp apart).of_map view
    refine ⟨distinct, fun left inside right insideToo less => ?_⟩
    have ascending : listing.Pairwise fun left right =>
        (compare (view left) (view right)).isLE = true := by
      have images := sorted_pairwise (items.map view)
      rwa [same, List.pairwise_map] at images
    have different : left ≠ right := by
      rintro rfl
      rw [ReflOrd.compare_self] at less
      cases less
    rcases either_of_pairwise (lists.increasing.and ascending) ((lists.each left).mpr inside)
      ((lists.each right).mpr insideToo) different with ⟨_, below⟩ | ⟨greater, _⟩
    · cases compared : compare (view left) (view right) with
      | lt => rfl
      | eq => exact absurd (injective (LawfulEqOrd.eq_of_compare compared)) different
      | gt =>
          rw [compared] at below
          cases below
    · rw [show compare right left = _ from OrientedCmp.eq_swap, less] at greater
      cases greater
  · rintro ⟨distinct, monotone⟩
    have lists : Lists items (sorted items) := lists_sorted distinct
    refine ⟨sorted items, lists, ?_⟩
    refine eq_of_perm_sorted ((sorted_perm _).trans ((sorted_perm items).map view).symm)
      (sorted_pairwise _) ?_
    rw [List.pairwise_map]
    refine lists.increasing.imp_of_mem fun {left right} inside insideToo less => ?_
    rw [monotone left ((lists.each left).mp inside) right ((lists.each right).mp insideToo) less]
    rfl

end RecurseX.Library
