import Mathlib.Data.List.MinMax
import Mathlib.Data.Prod.Lex
import Mathlib.Order.BoundedOrder.Basic
import RecurseX.Library.KeepLeast

/-!
# Deterministic weighted rendezvous selection

Every candidate has a score of its own under the key and the subject of the selection;
the lowest wins. The score is a parameter: a function of the candidate and its weight
into a linear order, with the greatest score for the candidates that are not eligible.
-/

namespace RecurseX

namespace Rendezvous

open RecurseX.Library

variable {S W : Type}

section

variable [LinearOrder S]

/-- The best so far, when one more candidate has been scored. -/
def keepBest (score : UInt64 → W → S) (best : Option (S × UInt64)) (candidate : UInt64 × W) :
    Option (S × UInt64) :=
  let s := score candidate.1 candidate.2
  match best with
  | none => some (s, candidate.1)
  | some (bs, bid) =>
      if s < bs ∨ (s = bs ∧ candidate.1 < bid) then some (s, candidate.1) else some (bs, bid)

/-- The winning candidate among weighted candidates. A greatest score means that a candidate is
not eligible; when the best is not, there is no winner. -/
def selectWeighted [OrderTop S] (score : UInt64 → W → S) (candidates : List (UInt64 × W)) :
    Option UInt64 :=
  match candidates.foldl (keepBest score) none with
  | some (s, id) => if s ≠ ⊤ then some id else none
  | none => none

/-- The candidates with their scores and their indices. -/
def scored (score : UInt64 → W → S) (items : List (UInt64 × W)) : List (S × UInt64 × Nat) :=
  items.zipIdx.map fun item => (score item.1.1 item.1.2, item.1.1, item.2)

/-- All candidates, best first, as indices; ties are broken by the identifier. -/
def rank (score : UInt64 → W → S) (items : List (UInt64 × W)) : List Nat :=
  let ordered := sortAscending (fun entry => toLex (entry.1, entry.2.1.toNat)) (scored score items)
  ordered.map fun entry => entry.2.2

end

/-- What candidates are compared by: the score, then the identifier. -/
def order (score : UInt64 → W → S) (candidate : UInt64 × W) : S ×ₗ Nat :=
  toLex (score candidate.1 candidate.2, candidate.1.toNat)

variable {score : UInt64 → W → S} {candidates : List (UInt64 × W)}
  {candidate other : UInt64 × W} {id : UInt64}

theorem order_eq_iff : order score candidate = order score other ↔
    score candidate.1 candidate.2 = score other.1 other.2 ∧ candidate.1 = other.1 := by
  rw [order, order, toLex_inj, Prod.mk.injEq, UInt64.toNat_inj]

variable [LinearOrder S]

theorem order_lt_iff : order score candidate < order score other ↔
    score candidate.1 candidate.2 < score other.1 other.2 ∨
      (score candidate.1 candidate.2 = score other.1 other.2 ∧ candidate.1 < other.1) := by
  rw [order, order, Prod.Lex.toLex_lt_toLex, UInt64.lt_iff_toNat_lt]

/-- The loop keeps the first candidate that comes first in the order. -/
theorem foldl_keepBest : candidates.foldl (keepBest score) none =
    (candidates.argmin (order score)).map fun best => (score best.1 best.2, best.1) := by
  induction candidates using List.reverseRecOn with
  | nil => rfl
  | append_singleton earlier candidate inductionHypothesis =>
      rw [List.foldl_concat, inductionHypothesis, List.argmin_concat]
      cases earlier.argmin (order score) with
      | none => rfl
      | some best =>
          rw [Option.map_some, keepBest]
          dsimp only
          by_cases better : order score candidate < order score best
          · rw [if_pos better, if_pos (order_lt_iff.mp better)]
            rfl
          · rw [if_neg better, if_neg fun less => better (order_lt_iff.mpr less)]
            rfl

variable [OrderTop S]

/-- The winner is an eligible candidate that none comes before. -/
theorem selectWeighted_eq_some_iff : selectWeighted score candidates = some id ↔
    ∃ weight, (id, weight) ∈ candidates ∧ score id weight ≠ ⊤ ∧
      ∀ other ∈ candidates, order score (id, weight) ≤ order score other := by
  rw [selectWeighted, foldl_keepBest]
  cases least : candidates.argmin (order score) with
  | none =>
      obtain rfl := List.argmin_eq_none.mp least
      simp
  | some best =>
      have listed : best ∈ candidates := List.argmin_mem least
      have first : ∀ other ∈ candidates, order score best ≤ order score other :=
        fun other inside => List.le_of_mem_argmin inside least
      rw [Option.map_some]
      dsimp only
      constructor
      · intro chosen
        split_ifs at chosen with eligible
        obtain rfl := Option.some.inj chosen
        exact ⟨best.2, listed, eligible, first⟩
      · rintro ⟨weight, inside, eligible, least⟩
        obtain ⟨scores, ids⟩ := order_eq_iff.mp
          (le_antisymm (first _ inside) (least _ listed))
        dsimp only at scores ids
        rw [if_pos (scores.trans_ne eligible), ids]

/-- There is no winner exactly when no candidate is eligible. -/
theorem selectWeighted_eq_none_iff : selectWeighted score candidates = none ↔
    ∀ candidate ∈ candidates, score candidate.1 candidate.2 = ⊤ := by
  rw [selectWeighted, foldl_keepBest]
  cases least : candidates.argmin (order score) with
  | none =>
      obtain rfl := List.argmin_eq_none.mp least
      simp
  | some best =>
      have listed : best ∈ candidates := List.argmin_mem least
      rw [Option.map_some]
      dsimp only
      rw [ite_eq_right_iff]
      constructor
      · intro barred candidate inside
        have top : score best.1 best.2 = ⊤ := by
          by_contra eligible
          cases barred eligible
        have below : score best.1 best.2 ≤ score candidate.1 candidate.2 := by
          by_contra less
          exact absurd (order_lt_iff.mpr (.inl (not_le.mp less)))
            (not_lt.mpr (List.le_of_mem_argmin inside least))
        exact top_le_iff.mp (top ▸ below)
      · intro barred eligible
        exact absurd (barred best listed) eligible

/-- The winner depends only on which candidates there are. -/
theorem selectWeighted_congr {others : List (UInt64 × W)}
    (same : ∀ candidate, candidate ∈ candidates ↔ candidate ∈ others) :
    selectWeighted score candidates = selectWeighted score others := by
  apply Option.ext
  intro id
  rw [selectWeighted_eq_some_iff, selectWeighted_eq_some_iff]
  simp only [same]

omit [OrderTop S] in
/-- The ranking has every index once. -/
theorem rank_perm (score : UInt64 → W → S) (items : List (UInt64 × W)) :
    (rank score items).Perm (List.range items.length) := by
  have indices : (scored score items).map (fun entry => entry.2.2) = List.range items.length := by
    rw [scored, List.map_map, List.range_eq_range', ← List.zipIdx_map_snd 0 items]
    rfl
  rw [← indices]
  exact (sortAscending_perm _ _).map _

omit [LinearOrder S] [OrderTop S] in
theorem mem_scored {index : Nat} {scoring : S} : (scoring, id, index) ∈ scored score candidates ↔
    ∃ weight, candidates[index]? = some (id, weight) ∧ scoring = score id weight := by
  simp only [scored, List.mem_map, Prod.exists, List.mem_zipIdx_iff_getElem?, Prod.mk.injEq]
  constructor
  · rintro ⟨id, weight, index, found, rfl, rfl, rfl⟩
    exact ⟨weight, found, rfl⟩
  · rintro ⟨weight, found, rfl⟩
    exact ⟨id, weight, index, found, rfl, rfl, rfl⟩

omit [OrderTop S] in
/-- None comes before the first of the ranking. -/
theorem order_head_rank {index : Nat} {rest : List Nat}
    (ranked : rank score candidates = index :: rest) :
    ∃ best, candidates[index]? = some best ∧
      ∀ other ∈ candidates, order score best ≤ order score other := by
  obtain ⟨⟨scoring, id, index⟩, later, ordered, rfl, -⟩ := List.map_eq_cons_iff.mp ranked
  have ascending := sortAscending_pairwise (fun entry : S × UInt64 × Nat =>
    toLex (entry.1, entry.2.1.toNat)) (scored score candidates)
  have mem (entry : S × UInt64 × Nat) := (sortAscending_perm (fun entry : S × UInt64 × Nat =>
    toLex (entry.1, entry.2.1.toNat)) (scored score candidates)).mem_iff (a := entry)
  rw [ordered] at ascending mem
  obtain ⟨weight, found, rfl⟩ := mem_scored.mp ((mem _).mp List.mem_cons_self)
  refine ⟨(id, weight), found, fun other inside => ?_⟩
  obtain ⟨place, located⟩ := List.mem_iff_getElem?.mp inside
  obtain same | behind := List.mem_cons.mp ((mem _).mpr (mem_scored.mpr ⟨other.2, located, rfl⟩))
  · rw [Prod.mk.injEq, Prod.mk.injEq] at same
    obtain ⟨scores, ids, -⟩ := same
    exact (order_eq_iff.mpr ⟨scores.symm, ids.symm⟩).le
  · exact List.rel_of_pairwise_cons ascending behind

/-- The winner is the candidate at the head of the ranking. -/
theorem exists_head_rank (chosen : selectWeighted score candidates = some id) :
    ∃ index weight rest, rank score candidates = index :: rest ∧
      candidates[index]? = some (id, weight) := by
  obtain ⟨weight, listed, -, least⟩ := selectWeighted_eq_some_iff.mp chosen
  cases ranked : rank score candidates with
  | nil =>
      have empty := (rank_perm score candidates).length_eq
      rw [ranked, List.length_range] at empty
      rw [List.eq_nil_of_length_eq_zero empty.symm] at listed
      cases listed
  | cons index rest =>
      obtain ⟨best, found, first⟩ := order_head_rank ranked
      have same := (order_eq_iff.mp (le_antisymm (first _ listed)
        (least best (List.mem_of_getElem? found)))).2
      exact ⟨index, best.2, rest, rfl, found.trans (congrArg some (Prod.ext same rfl))⟩

/-- A candidate that is not the winner is not missed. -/
theorem selectWeighted_remove {before after : List (UInt64 × W)}
    (loses : selectWeighted score (before ++ candidate :: after) ≠ some candidate.1) :
    selectWeighted score (before ++ after) = selectWeighted score (before ++ candidate :: after) := by
  have listed (other : UInt64 × W) : other ∈ before ++ candidate :: after ↔
      other = candidate ∨ other ∈ before ++ after := by
    rw [List.mem_append, List.mem_cons, or_left_comm, ← List.mem_append]
  cases chosen : selectWeighted score (before ++ candidate :: after) with
  | none =>
      rw [selectWeighted_eq_none_iff] at chosen ⊢
      exact fun other inside => chosen other ((listed other).mpr (.inr inside))
  | some id =>
      rw [chosen] at loses
      obtain ⟨weight, inside, eligible, least⟩ := selectWeighted_eq_some_iff.mp chosen
      refine selectWeighted_eq_some_iff.mpr ⟨weight, ?_, eligible, fun other remaining =>
        least other ((listed other).mpr (.inr remaining))⟩
      exact ((listed _).mp inside).resolve_left fun same => loses (congrArg (some ·.1) same)

/-- **Minimal disruption.** The winner does not depend on the order of the candidates, only the
removal of the winner or the addition of a new one changes it, there is none exactly when no
candidate is eligible, and it heads the ranking. -/
theorem selectWeighted_minimal_disruption (score : UInt64 → W → S) (candidates : List (UInt64 × W)) :
    (∀ reordered, reordered.Perm candidates →
      selectWeighted score reordered = selectWeighted score candidates) ∧
    (∀ before candidate after, candidates = before ++ candidate :: after →
      selectWeighted score candidates ≠ some candidate.1 →
        selectWeighted score (before ++ after) = selectWeighted score candidates) ∧
    (∀ before candidate after, candidates = before ++ after →
      selectWeighted score (before ++ candidate :: after) = selectWeighted score candidates ∨
        selectWeighted score (before ++ candidate :: after) = some candidate.1) ∧
    (selectWeighted score candidates = none ↔
      ∀ candidate ∈ candidates, score candidate.1 candidate.2 = ⊤) ∧
    ∀ id, selectWeighted score candidates = some id →
      ∃ index weight rest, rank score candidates = index :: rest ∧
        candidates[index]? = some (id, weight) := by
  refine ⟨fun reordered same => selectWeighted_congr fun _ => same.mem_iff, ?_, ?_,
    selectWeighted_eq_none_iff, fun id chosen => exists_head_rank chosen⟩
  · rintro before candidate after rfl loses
    exact selectWeighted_remove loses
  · rintro before candidate after rfl
    by_cases wins : selectWeighted score (before ++ candidate :: after) = some candidate.1
    · exact .inr wins
    · exact .inl (selectWeighted_remove wins).symm

end Rendezvous

end RecurseX
