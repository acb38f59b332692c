import Mathlib.Data.List.Sort

/-!
# Choosing one of a list

A fold that keeps one of two candidates at each turn ends on one of the list.
The first match in a list sorted by descending keys is the `firstBest` match of
the list as it was; whether that depends on the order of the list is decided by
the matches that no other match outranks.
-/

namespace RecurseX.Library

variable {α : Type}

/-- What is picked two at a time is one of the list. -/
theorem foldl_pick_mem {pick : α → α → α}
    (either : ∀ best candidate, pick best candidate = best ∨ pick best candidate = candidate)
    (first : α) (rest : List α) : rest.foldl pick first ∈ first :: rest := by
  induction rest generalizing first with
  | nil => exact List.mem_singleton.mpr rfl
  | cons candidate rest inductionHypothesis =>
      rw [List.foldl_cons]
      obtain chosen | later := List.mem_cons.mp (inductionHypothesis (pick first candidate))
      · rw [chosen]
        obtain kept | replaced := either first candidate
        · rw [kept]
          exact List.mem_cons_self
        · rw [replaced]
          exact List.mem_cons_of_mem _ List.mem_cons_self
      · exact List.mem_cons_of_mem _ (List.mem_cons_of_mem _ later)

variable {K : Type} [LinearOrder K] {key : α → K} {accepts : α → Bool} {items : List α}
  {item other : α}

/-- The stable sort by descending keys. -/
def sortDescending (key : α → K) (items : List α) : List α :=
  items.insertionSort fun left right => key right ≤ key left

/-- The first of the accepted items with the greatest key. -/
def firstBest (key : α → K) (accepts : α → Bool) : List α → Option α
  | [] => none
  | item :: items =>
      if accepts item then
        match firstBest key accepts items with
        | none => some item
        | some best => if key best ≤ key item then some item else some best
      else firstBest key accepts items

theorem firstBest_cons (item : α) (items : List α) : firstBest key accepts (item :: items) =
    if accepts item then
      match firstBest key accepts items with
      | none => some item
      | some best => if key best ≤ key item then some item else some best
    else firstBest key accepts items := rfl

/-- The choice depends on the keys and on what is accepted only. -/
theorem firstBest_map {β : Type} (change : β → α) (items : List β) :
    firstBest key accepts (items.map change) =
      (firstBest (fun item => key (change item)) (fun item => accepts (change item)) items).map
        change := by
  induction items with
  | nil => rfl
  | cons item items inductionHypothesis =>
      rw [List.map_cons, firstBest_cons, firstBest_cons, inductionHypothesis]
      by_cases accepted : accepts (change item) = true
      · rw [if_pos accepted, if_pos accepted]
        cases firstBest (fun item => key (change item)) (fun item => accepts (change item)) items with
        | none => rfl
        | some best =>
            dsimp only [Option.map_some]
            split_ifs <;> rfl
      · rw [if_neg accepted, if_neg accepted]

/-- An accepted item that no accepted item of the list outranks. -/
def Best (key : α → K) (accepts : α → Bool) (items : List α) (item : α) : Prop :=
  item ∈ items ∧ accepts item = true ∧ ∀ other ∈ items, accepts other = true → key other ≤ key item

theorem firstBest_eq_none :
    firstBest key accepts items = none ↔ ∀ item ∈ items, accepts item = false := by
  induction items with
  | nil => simp [firstBest]
  | cons item items inductionHypothesis =>
      rw [firstBest_cons, List.forall_mem_cons]
      by_cases accepted : accepts item = true
      · rw [if_pos accepted]
        refine iff_of_false ?_ fun rejected => by simp [accepted] at rejected
        cases firstBest key accepts items with
        | none => simp
        | some best => by_cases less : key best ≤ key item <;> simp [less]
      · rw [if_neg accepted, inductionHypothesis]
        simp [accepted]

/-- What is chosen is one of the best. -/
theorem best_of_firstBest (chosen : firstBest key accepts items = some item) :
    Best key accepts items item := by
  induction items generalizing item with
  | nil => cases chosen
  | cons first items inductionHypothesis =>
      rw [firstBest_cons] at chosen
      by_cases accepted : accepts first = true
      · rw [if_pos accepted] at chosen
        cases later : firstBest key accepts items with
        | none =>
            rw [later] at chosen
            obtain rfl := Option.some.inj chosen
            refine ⟨List.mem_cons_self, accepted, List.forall_mem_cons.mpr ⟨fun _ => le_rfl, ?_⟩⟩
            intro other listed otherAccepted
            rw [firstBest_eq_none.mp later other listed] at otherAccepted
            cases otherAccepted
        | some best =>
            obtain ⟨listed, bestAccepted, greatest⟩ := inductionHypothesis later
            rw [later] at chosen
            dsimp only at chosen
            split_ifs at chosen with less
            · obtain rfl := Option.some.inj chosen
              exact ⟨List.mem_cons_self, accepted, List.forall_mem_cons.mpr ⟨fun _ => le_rfl,
                fun other listed accepted => (greatest other listed accepted).trans less⟩⟩
            · obtain rfl := Option.some.inj chosen
              exact ⟨List.mem_cons_of_mem _ listed, bestAccepted, List.forall_mem_cons.mpr
                ⟨fun _ => (not_le.mp less).le, greatest⟩⟩
      · rw [if_neg accepted] at chosen
        obtain ⟨listed, itemAccepted, greatest⟩ := inductionHypothesis chosen
        exact ⟨List.mem_cons_of_mem _ listed, itemAccepted, List.forall_mem_cons.mpr
          ⟨fun isAccepted => absurd isAccepted accepted, greatest⟩⟩

/-- A best item that stands first is chosen. -/
theorem firstBest_cons_of_best (accepted : accepts item = true)
    (greatest : ∀ other ∈ items, accepts other = true → key other ≤ key item) :
    firstBest key accepts (item :: items) = some item := by
  rw [firstBest_cons, if_pos accepted]
  cases later : firstBest key accepts items with
  | none => rfl
  | some best =>
      obtain ⟨listed, bestAccepted, -⟩ := best_of_firstBest later
      exact if_pos (greatest best listed bestAccepted)

/-- An accepted item stands before the one at this place: earlier with no lesser key, or later
with a greater one. -/
def Outranked (key : α → K) (accepts : α → Bool) (before : List α) (item : α) (after : List α) :
    Prop :=
  (∃ other ∈ before, accepts other = true ∧ key item ≤ key other) ∨
    ∃ other ∈ after, accepts other = true ∧ key item < key other

theorem firstBest_of_not_outranked {before after : List α} (accepted : accepts item = true)
    (first : ¬ Outranked key accepts before item after) :
    firstBest key accepts (before ++ item :: after) = some item := by
  obtain ⟨ahead, behind⟩ := not_or.mp first
  induction before with
  | nil =>
      refine firstBest_cons_of_best accepted fun other listed otherAccepted => ?_
      exact not_lt.mp fun less => behind ⟨other, listed, otherAccepted, less⟩
  | cons earlier before inductionHypothesis =>
      have rest : ¬ ∃ other ∈ before, accepts other = true ∧ key item ≤ key other := by
        rintro ⟨other, listed, outranks⟩
        exact ahead ⟨other, List.mem_cons_of_mem _ listed, outranks⟩
      have later := inductionHypothesis (not_or.mpr ⟨rest, behind⟩) rest
      rw [List.cons_append, firstBest_cons, later]
      by_cases earlierAccepted : accepts earlier = true
      · rw [if_pos earlierAccepted]
        exact if_neg fun less => ahead ⟨earlier, List.mem_cons_self, earlierAccepted, less⟩
      · rw [if_neg earlierAccepted]

/-- What is chosen stands first among what is accepted. -/
theorem firstBest_eq_some_iff :
    firstBest key accepts items = some item ↔
      ∃ before after, items = before ++ item :: after ∧ accepts item = true ∧
        ¬ Outranked key accepts before item after := by
  constructor
  · intro chosen
    induction items with
    | nil => cases chosen
    | cons first items inductionHypothesis =>
        have best := best_of_firstBest chosen
        rw [firstBest_cons] at chosen
        by_cases accepted : accepts first = true
        swap
        · rw [if_neg accepted] at chosen
          obtain ⟨before, after, rfl, itemAccepted, ranked⟩ := inductionHypothesis chosen
          refine ⟨first :: before, after, rfl, itemAccepted, ?_⟩
          rintro (⟨other, listed, otherAccepted, less⟩ | later)
          · obtain rfl | listed := List.mem_cons.mp listed
            · exact accepted otherAccepted
            · exact ranked (.inl ⟨other, listed, otherAccepted, less⟩)
          · exact ranked (.inr later)
        rw [if_pos accepted] at chosen
        have alone : first = item → ∃ before after, first :: items = before ++ item :: after ∧
            accepts item = true ∧ ¬ Outranked key accepts before item after := by
          rintro rfl
          refine ⟨[], items, rfl, accepted, ?_⟩
          rintro (⟨other, listed, -⟩ | ⟨other, listed, otherAccepted, less⟩)
          · cases listed
          · exact absurd (best.2.2 other (List.mem_cons_of_mem _ listed) otherAccepted)
              (not_le.mpr less)
        cases later : firstBest key accepts items with
        | none =>
            rw [later] at chosen
            exact alone (Option.some.inj chosen)
        | some other =>
            rw [later] at chosen
            dsimp only at chosen
            split_ifs at chosen with less
            · exact alone (Option.some.inj chosen)
            · obtain rfl := Option.some.inj chosen
              obtain ⟨before, after, rfl, itemAccepted, ranked⟩ := inductionHypothesis later
              refine ⟨first :: before, after, rfl, itemAccepted, ?_⟩
              rintro (⟨third, listed, thirdAccepted, thirdLess⟩ | behind)
              · obtain rfl | listed := List.mem_cons.mp listed
                · exact less thirdLess
                · exact ranked (.inl ⟨third, listed, thirdAccepted, thirdLess⟩)
              · exact ranked (.inr behind)
  · rintro ⟨before, after, rfl, accepted, first⟩
    exact firstBest_of_not_outranked accepted first

/-- The first match behind an ordered insertion into a sorted list. -/
theorem find?_orderedInsert {sorted : List α}
    (descending : sorted.Pairwise fun left right => key right ≤ key left) :
    (sorted.orderedInsert (fun left right => key right ≤ key left) item).find? accepts =
      if accepts item then
        match sorted.find? accepts with
        | none => some item
        | some best => if key best ≤ key item then some item else some best
      else sorted.find? accepts := by
  induction sorted with
  | nil => by_cases accepted : accepts item <;> simp [accepted]
  | cons first rest inductionHypothesis =>
      obtain ⟨below, restDescending⟩ := List.pairwise_cons.mp descending
      rw [List.orderedInsert_cons]
      by_cases less : key first ≤ key item
      · rw [if_pos less]
        by_cases accepted : accepts item = true
        · rw [List.find?_cons_of_pos accepted, if_pos accepted]
          cases found : (first :: rest).find? accepts with
          | none => rfl
          | some best =>
              have behind : key best ≤ key first := by
                obtain rfl | later := List.mem_cons.mp (List.mem_of_find?_eq_some found)
                · exact le_rfl
                · exact below best later
              exact (if_pos (behind.trans less)).symm
        · rw [List.find?_cons_of_neg accepted, if_neg accepted]
      · rw [if_neg less, List.find?_cons, List.find?_cons]
        cases accepts first with
        | true => simp [less]
        | false => exact inductionHypothesis restDescending

theorem sortDescending_pairwise (key : α → K) (items : List α) :
    (sortDescending key items).Pairwise fun left right => key right ≤ key left := by
  have total : Std.Total fun left right : α => key right ≤ key left :=
    ⟨fun left right => le_total (key right) (key left)⟩
  have trans : IsTrans α fun left right => key right ≤ key left :=
    ⟨fun _ _ _ first second => second.trans first⟩
  exact List.pairwise_insertionSort _ items

/-- Sorting and taking the first match is choosing the first best. -/
theorem find?_sortDescending (key : α → K) (accepts : α → Bool) (items : List α) :
    (sortDescending key items).find? accepts = firstBest key accepts items := by
  induction items with
  | nil => rfl
  | cons item items inductionHypothesis =>
      have inserted : sortDescending key (item :: items) =
          (sortDescending key items).orderedInsert (fun left right => key right ≤ key left) item := rfl
      rw [inserted, find?_orderedInsert (sortDescending_pairwise key items), inductionHypothesis]
      rfl

/-- A sorted list is in its own order. -/
theorem find?_eq_firstBest
    (descending : items.Pairwise fun left right => key right ≤ key left) :
    items.find? accepts = firstBest key accepts items := by
  rw [← find?_sortDescending, sortDescending, descending.insertionSort_eq]

/-- What one more item at the end changes. -/
theorem firstBest_concat :
    firstBest key accepts (items ++ [item]) =
      match firstBest key accepts items with
      | none => if accepts item then some item else none
      | some best => if accepts item ∧ ¬ key item ≤ key best then some item else some best := by
  induction items with
  | nil => simp [firstBest]
  | cons first items inductionHypothesis =>
      rw [List.cons_append, firstBest, inductionHypothesis, firstBest]
      by_cases accepted : accepts first = true
      swap
      · rw [if_neg accepted, if_neg accepted]
      rw [if_pos accepted, if_pos accepted]
      cases firstBest key accepts items with
      | none =>
          by_cases itemAccepted : accepts item = true
          · by_cases less : key item ≤ key first <;> simp [itemAccepted, less]
          · simp [itemAccepted]
      | some best =>
          by_cases itemAccepted : accepts item = true
          swap
          · by_cases bestLess : key best ≤ key first <;> simp [itemAccepted, bestLess]
          by_cases bestLess : key best ≤ key first
          · by_cases less : key item ≤ key best
            · simp [itemAccepted, bestLess, less, less.trans bestLess]
            · by_cases firstLess : key item ≤ key first <;>
                simp [itemAccepted, bestLess, less, firstLess]
          · by_cases less : key item ≤ key best
            · simp [itemAccepted, bestLess, less]
            · have outranked : ¬ key item ≤ key first :=
                fun itemLess => less (itemLess.trans (not_le.mp bestLess).le)
              simp [itemAccepted, bestLess, less, outranked]

/-- **Order of a list.** The first match by descending keys has the same value in every order of
the list exactly when all best items have the same value. -/
theorem firstBest_order_iff {β : Type} (key : α → K) (accepts : α → Bool) (items : List α)
    (value : α → β) :
    (∀ reordered, reordered.Perm items →
      (firstBest key accepts reordered).map value = (firstBest key accepts items).map value) ↔
    ∀ item other, Best key accepts items item → Best key accepts items other →
      value item = value other := by
  constructor
  · intro same item other best otherBest
    have chosen {item : α} (best : Best key accepts items item) :
        (firstBest key accepts items).map value = some (value item) := by
      obtain ⟨before, after, rfl⟩ := List.append_of_mem best.1
      rw [← same (item :: (before ++ after)) List.perm_middle.symm,
        firstBest_cons_of_best best.2.1]
      · rfl
      · intro other listed
        exact best.2.2 other (List.perm_middle.mem_iff.mpr (List.mem_cons_of_mem _ listed))
    exact Option.some.inj ((chosen best).symm.trans (chosen otherBest))
  · intro agree reordered perm
    cases chosen : firstBest key accepts items with
    | none =>
        have rejected : ∀ item ∈ reordered, accepts item = false :=
          fun item listed => firstBest_eq_none.mp chosen item (perm.mem_iff.mp listed)
        rw [firstBest_eq_none.mpr rejected]
    | some item =>
        have best := best_of_firstBest chosen
        cases chosenAgain : firstBest key accepts reordered with
        | none =>
            have rejected := firstBest_eq_none.mp chosenAgain item (perm.mem_iff.mpr best.1)
            rw [best.2.1] at rejected
            cases rejected
        | some other =>
            obtain ⟨listed, accepted, greatest⟩ := best_of_firstBest chosenAgain
            have otherBest : Best key accepts items other :=
              ⟨perm.mem_iff.mp listed, accepted,
                fun third thirdListed => greatest third (perm.mem_iff.mpr thirdListed)⟩
            rw [Option.map_some, Option.map_some, agree other item otherBest best]

end RecurseX.Library
