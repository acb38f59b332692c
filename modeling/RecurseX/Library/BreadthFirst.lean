import Mathlib.Data.List.Infix
import Mathlib.Data.List.Nodup
import Mathlib.Logic.Relation

/-!
# Breadth-first discovery

From a start, the items found so far are expanded one after the other: the targets of
each that are not yet found are added behind. Items are found once, all of them can be
reached, and once there is nothing left to expand everything that can be reached is
found.
-/

namespace RecurseX.Library

variable {α : Type} [DecidableEq α]

/-- Add an item that is not found yet. -/
def addNew (found : List α) (item : α) : List α :=
  if item ∈ found then found else found ++ [item]

/-- Expand the item whose turn it is. -/
def expand (next : α → List α) (found : List α) (turn : Nat) : List α :=
  (found[turn]?.elim [] next).foldl addNew found

/-- What is found after so many turns. -/
def discovered (next : α → List α) (start : α) : Nat → List α
  | 0 => [start]
  | turn + 1 => expand next (discovered next start turn) turn

variable {next : α → List α} {start item target : α} {found items : List α} {turn later : Nat}

theorem discovered_succ : discovered next start (turn + 1) =
    ((discovered next start turn)[turn]?.elim [] next).foldl addNew (discovered next start turn) := rfl

theorem prefix_foldl_addNew (found items : List α) : found <+: items.foldl addNew found := by
  induction items generalizing found with
  | nil => exact List.prefix_rfl
  | cons item items inductionHypothesis =>
      refine List.IsPrefix.trans ?_ (inductionHypothesis (addNew found item))
      unfold addNew
      split_ifs
      · exact List.prefix_rfl
      · exact List.prefix_append found [item]

theorem mem_foldl_addNew : item ∈ items.foldl addNew found ↔ item ∈ found ∨ item ∈ items := by
  induction items generalizing found with
  | nil => simp
  | cons first items inductionHypothesis =>
      rw [List.foldl_cons, inductionHypothesis, List.mem_cons]
      unfold addNew
      split_ifs with known
      · constructor
        · exact Or.imp_right .inr
        · rintro (early | rfl | late)
          · exact .inl early
          · exact .inl known
          · exact .inr late
      · rw [List.mem_append, List.mem_singleton, or_assoc]

theorem nodup_foldl_addNew (distinct : found.Nodup) : (items.foldl addNew found).Nodup := by
  induction items generalizing found with
  | nil => exact distinct
  | cons item items inductionHypothesis =>
      refine inductionHypothesis ?_
      unfold addNew
      split_ifs with known
      · exact distinct
      · exact List.nodup_append.mpr ⟨distinct, List.nodup_singleton item, by grind⟩

/-- Items are found behind those found before. -/
theorem prefix_discovered (next : α → List α) (start : α) (earlier : turn ≤ later) :
    discovered next start turn <+: discovered next start later := by
  induction earlier with
  | refl => exact List.prefix_rfl
  | step _ inductionHypothesis => exact inductionHypothesis.trans (prefix_foldl_addNew _ _)

theorem nodup_discovered (next : α → List α) (start : α) (turn : Nat) :
    (discovered next start turn).Nodup := by
  induction turn with
  | zero => exact List.nodup_singleton start
  | succ turn inductionHypothesis => exact nodup_foldl_addNew inductionHypothesis

theorem mem_discovered_succ : target ∈ discovered next start (turn + 1) ↔
    target ∈ discovered next start turn ∨
      ∃ item, (discovered next start turn)[turn]? = some item ∧ target ∈ next item := by
  rw [discovered_succ, mem_foldl_addNew]
  refine or_congr_right ?_
  cases (discovered next start turn)[turn]? <;> simp

/-- An item that can be reached from another. -/
def Reaches (next : α → List α) : α → α → Prop :=
  Relation.ReflTransGen fun item target => target ∈ next item

/-- What is found can be reached. -/
theorem reaches_of_discovered (listed : item ∈ discovered next start turn) :
    Reaches next start item := by
  induction turn generalizing item with
  | zero =>
      rw [List.mem_singleton.mp listed]
      exact .refl
  | succ turn inductionHypothesis =>
      obtain early | ⟨source, atTurn, leads⟩ := mem_discovered_succ.mp listed
      · exact inductionHypothesis early
      · exact (inductionHypothesis (List.mem_of_getElem? atTurn)).tail leads

/-- Once all found items have had their turn, nothing more is found. -/
theorem discovered_settled (settled : (discovered next start turn).length ≤ turn)
    (after : turn ≤ later) : discovered next start later = discovered next start turn := by
  induction after with
  | refl => rfl
  | step after inductionHypothesis =>
      rw [discovered_succ, inductionHypothesis, List.getElem?_eq_none (settled.trans after)]
      rfl

/-- Once all found items have had their turn, all that can be reached is found. -/
theorem mem_discovered_of_settled (settled : (discovered next start turn).length ≤ turn)
    (reached : Reaches next start item) : item ∈ discovered next start turn := by
  induction reached with
  | refl => exact (prefix_discovered next start (Nat.zero_le turn)).subset (List.mem_singleton_self start)
  | @tail source target _ leads inductionHypothesis =>
      obtain ⟨place, found⟩ := List.mem_iff_getElem?.mp inductionHypothesis
      obtain ⟨inside, -⟩ := List.getElem?_eq_some_iff.mp found
      have early : place + 1 ≤ turn := Nat.lt_of_lt_of_le inside settled
      -- The source had been found when its turn came.
      have present : place < (discovered next start place).length := by
        by_contra absent
        rw [discovered_settled (Nat.not_lt.mp absent) (Nat.le_of_succ_le early)] at inside
        exact absent inside
      have atTurn : (discovered next start place)[place]? = some source := by
        obtain ⟨rest, split⟩ := prefix_discovered next start (Nat.le_of_succ_le early)
        rw [← found, ← split, List.getElem?_append_left present]
      have leadsOn := mem_discovered_succ.mpr (.inr ⟨source, atTurn, leads⟩)
      exact (prefix_discovered next start early).subset leadsOn

end RecurseX.Library
