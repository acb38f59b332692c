import Mathlib.Data.List.Basic

/-!
# Streams made of blocks

A stream is the concatenation of numbered blocks of one width. A buffered reader
holds what is left of the last block it fetched; `Served` says that what it handed
out and what it still holds are the blocks so far, with nothing repeated or skipped.
-/

namespace RecurseX.Library

variable {α : Type} {block : Nat → List α} {width : Nat}

/-- The first `count` blocks, one after the other. -/
def blocksUpTo (block : Nat → List α) (count : Nat) : List α := (List.range count).flatMap block

theorem blocksUpTo_succ (count : Nat) :
    blocksUpTo block (count + 1) = blocksUpTo block count ++ block count := by
  rw [blocksUpTo, List.range_succ, List.flatMap_append, List.flatMap_singleton, blocksUpTo]

theorem length_blocksUpTo (wide : ∀ index, (block index).length = width) (count : Nat) :
    (blocksUpTo block count).length = count * width := by
  induction count with
  | zero => simp [blocksUpTo]
  | succ count inductionHypothesis =>
      rw [blocksUpTo_succ, List.length_append, inductionHypothesis, wide, Nat.succ_mul]

/-- Fewer blocks are a prefix of more. -/
theorem blocksUpTo_mono {fewer more : Nat} (le : fewer ≤ more) :
    blocksUpTo block fewer <+: blocksUpTo block more := by
  obtain ⟨further, rfl⟩ := Nat.exists_eq_add_of_le le
  rw [blocksUpTo, blocksUpTo, List.range_add, List.flatMap_append]
  exact List.prefix_append _ _

/-- What was handed out and what is pending are the first `count` blocks. -/
def Served (block : Nat → List α) (count : Nat) (out pending : List α) : Prop :=
  blocksUpTo block count = out ++ pending

namespace Served

variable {count : Nat} {out pending : List α}

theorem start : Served block 0 [] [] := rfl

/-- Fetch the next block once nothing is pending. -/
theorem refill (served : Served block count out []) :
    Served block (count + 1) out (block count) := by
  rw [Served, blocksUpTo_succ, served, List.append_nil]

/-- Hand out some of what is pending. -/
theorem take (served : Served block count out pending) (wanted : Nat) :
    Served block count (out ++ pending.take wanted) (pending.drop wanted) := by
  rw [Served, served, List.append_assoc, List.take_append_drop]

/-- What was handed out begins the stream, as long as the stream lasts. -/
theorem eq_take (served : Served block count out pending)
    (wide : ∀ index, (block index).length = width) {limit : Nat} (lasts : out.length ≤ limit * width) :
    out = (blocksUpTo block limit).take out.length := by
  have inside : out <+: blocksUpTo block (max count limit) :=
    (served ▸ List.prefix_append out pending).trans (blocksUpTo_mono (Nat.le_max_left _ _))
  have bounded : blocksUpTo block limit <+: blocksUpTo block (max count limit) :=
    blocksUpTo_mono (Nat.le_max_right _ _)
  rw [← length_blocksUpTo wide] at lasts
  exact List.prefix_iff_eq_take.mp (List.prefix_of_prefix_length_le inside bounded lasts)

end Served

end RecurseX.Library
