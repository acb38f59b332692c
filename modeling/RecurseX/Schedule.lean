import Mathlib.Algebra.Order.Ring.Rat
import Mathlib.Data.Prod.Lex
import Mathlib.Order.WithBot
import RecurseX.Library.Allotment

/-!
# The value-of-information schedule

A finite budget of observations is spent on the candidates that are worth most, after
each behaviour class has been given its reserved places. Values are of any linearly
ordered type; `isFinite` tells those that are numbers.
-/

namespace RecurseX

open Library

/-- A coarse, stable description of how a record behaves. -/
structure BehaviorClass where
  role : UInt8
  change : UInt8
  ttl : UInt8
  volatility : UInt8
  trust : UInt8
  cost : UInt8
deriving DecidableEq, Repr

/-- One schedulable observation. -/
structure Candidate (T V : Type) where
  payload : T
  behaviorClass : BehaviorClass
  /-- The expected risk reduction. -/
  value : V
  /-- The keyed behavioural fingerprint, used to break value ties. -/
  tieBreak : Nat

/-- The part of the tuning that the schedule reads. -/
structure VoiConfig (V : Type) where
  /-- Candidates whose value does not exceed this are not scheduled at all. -/
  minValue : V
  /-- Slots reserved for each behaviour class that has candidates. -/
  reservationPerClass : Nat

variable {T V : Type} [LinearOrder V]

/-- The same configuration with every field forced into a usable range. -/
def VoiConfig.sanitised [Zero V] (isFinite : V → Bool) (self : VoiConfig V) : VoiConfig V :=
  { minValue := max (if isFinite self.minValue then self.minValue else 0) 0
    reservationPerClass := min self.reservationPerClass 64 }

/-- The candidates that may be scheduled. -/
def eligible [Zero V] (isFinite : V → Bool) (candidates : List (Candidate T V)) (config : VoiConfig V) :
    List (Candidate T V) :=
  candidates.filter fun candidate =>
    isFinite candidate.value && decide (candidate.value > (config.sanitised isFinite).minValue)

/-- Value descending, then fingerprint ascending, then the caller's order. -/
def before (items : List (Candidate T V)) (a b : Nat) : Ordering :=
  match items[a]?, items[b]? with
  | some ca, some cb =>
      (compare cb.value ca.value).then ((compare ca.tieBreak cb.tieBreak).then (compare a b))
  | _, _ => compare a b

/-- The positions of the items, best first. -/
def bestFirst (items : List (Candidate T V)) : List Nat :=
  (List.range items.length).insertionSort fun a b => (before items a b).isLE = true

/-- The slots that a class has been given. -/
def slotsTaken (behaviorClass : BehaviorClass) : List (BehaviorClass × Nat) → Nat
  | [] => 0
  | entry :: entries =>
      if entry.1 = behaviorClass then entry.2 else slotsTaken behaviorClass entries

/-- Give a class one more slot, in an entry of its own if it has none. -/
def giveSlot (behaviorClass : BehaviorClass) :
    List (BehaviorClass × Nat) → List (BehaviorClass × Nat)
  | [] => [(behaviorClass, 1)]
  | entry :: entries =>
      if entry.1 = behaviorClass then (entry.1, entry.2 + 1) :: entries
      else entry :: giveSlot behaviorClass entries

/-- The state of the first pass. -/
structure Reservation where
  chosen : List Nat
  classes : List (BehaviorClass × Nat)

/-- One turn of the first pass, which is over once the budget is spent. -/
def Reservation.turn (items : List (Candidate T V)) (budget reservation : Nat) (self : Reservation)
    (idx : Nat) : Reservation :=
  if self.chosen.length ≥ budget then self
  else
    match items[idx]? with
    | none => self
    | some candidate =>
        if slotsTaken candidate.behaviorClass self.classes ≥ reservation then self
        else
          { chosen := self.chosen ++ [idx]
            classes := giveSlot candidate.behaviorClass self.classes }

/-- The state of the second pass. -/
structure Filling where
  chosen : List Nat
  taken : List Bool

/-- One turn of the second pass. -/
def Filling.turn (budget : Nat) (self : Filling) (idx : Nat) : Filling :=
  if self.chosen.length ≥ budget then self
  else if self.taken[idx]?.getD true then self
  else { chosen := self.chosen ++ [idx], taken := self.taken.set idx true }

/-- The reserved slots, best first. -/
def reserve (items : List (Candidate T V)) (budget reservation : Nat) : List Nat :=
  if reservation > 0 then
    ((bestFirst items).foldl (Reservation.turn items budget reservation)
      { chosen := [], classes := [] }).chosen
  else []

/-- The reserved slots and the global fill. -/
def fill (items : List (Candidate T V)) (budget : Nat) (chosen : List Nat) : List Nat :=
  if chosen.length < budget then
    let taken := chosen.foldl (fun taken idx => taken.set idx true)
      (List.replicate items.length false)
    ((bestFirst items).foldl (Filling.turn budget) { chosen, taken }).chosen
  else chosen

/-- The positions of what is scheduled, best first. -/
def picks (items : List (Candidate T V)) (budget reservation : Nat) : List Nat :=
  let rank := fun idx => (bestFirst items).idxOf idx
  (fill items budget (reserve items budget reservation)).insertionSort fun a b => rank a ≤ rank b

/-- Take the payloads out of their slots. -/
def takePayloads : List (Option T) → List Nat → List T
  | _, [] => []
  | slots, idx :: chosen =>
      match slots[idx]? with
      | some (some payload) => payload :: takePayloads (slots.set idx none) chosen
      | _ => takePayloads slots chosen

/-- Which candidates to spend a budget of `budget` observations on. -/
def schedule [Zero V] (isFinite : V → Bool) (candidates : List (Candidate T V)) (budget : Nat)
    (config : VoiConfig V) : List T :=
  if budget = 0 then []
  else
    let items := eligible isFinite candidates config
    if items.isEmpty then []
    else
      let reservation := (config.sanitised isFinite).reservationPerClass
      takePayloads (items.map fun item => some item.payload) (picks items budget reservation)

variable {items : List (Candidate T V)} {budget reservation : Nat} {order chosen : List Nat}

/-! ## The order -/

/-- The place of a position in the order; a position outside stands before all others. -/
def sortKey (items : List (Candidate T V)) (idx : Nat) : WithBot (Vᵒᵈ ×ₗ Nat) ×ₗ Nat :=
  toLex (items[idx]?.elim ⊥ fun candidate =>
    ((toLex (OrderDual.toDual candidate.value, candidate.tieBreak) : Vᵒᵈ ×ₗ Nat) :
      WithBot (Vᵒᵈ ×ₗ Nat)), idx)

/-- The comparison of the sort is lexicographic. -/
theorem before_isLE_iff {a b : Nat} (inside : a < items.length) (insideToo : b < items.length) :
    (before items a b).isLE = true ↔ sortKey items a ≤ sortKey items b := by
  unfold before sortKey
  rw [List.getElem?_eq_getElem inside, List.getElem?_eq_getElem insideToo]
  have same : items[b].value = items[a].value ↔ items[a].value = items[b].value := eq_comm
  have below : (compare a b).isLE = true ↔ a ≤ b :=
    Ordering.isLE_iff_ne_gt.trans compare_le_iff_le
  simp only [Option.elim_some, Prod.Lex.toLex_le_toLex, Prod.Lex.toLex_lt_toLex, WithBot.coe_lt_coe,
    WithBot.coe_inj, toLex_inj, Prod.mk.injEq, OrderDual.toDual_lt_toDual, OrderDual.toDual_inj,
    Ordering.isLE_then_iff_or, compare_lt_iff_lt, compare_eq_iff_eq, same, below]
  tauto

theorem bestFirst_eq (items : List (Candidate T V)) : bestFirst items =
    (List.range items.length).insertionSort fun a b => sortKey items a ≤ sortKey items b := by
  have same := List.map_insertionSort (r := fun a b => (before items a b).isLE = true)
    (s := fun a b => sortKey items a ≤ sortKey items b) id (List.range items.length)
    fun a listed b listedToo => before_isLE_iff (List.mem_range.mp listed) (List.mem_range.mp listedToo)
  rwa [List.map_id, List.map_id] at same

theorem bestFirst_perm (items : List (Candidate T V)) :
    (bestFirst items).Perm (List.range items.length) :=
  List.perm_insertionSort _ _

theorem nodup_bestFirst (items : List (Candidate T V)) : (bestFirst items).Nodup :=
  (bestFirst_perm items).nodup_iff.mpr List.nodup_range

theorem mem_bestFirst {idx : Nat} : idx ∈ bestFirst items ↔ idx < items.length :=
  (bestFirst_perm items).mem_iff.trans List.mem_range

/-- The best come first. -/
theorem pairwise_bestFirst (items : List (Candidate T V)) :
    (bestFirst items).Pairwise fun a b => (before items a b).isLE = true := by
  have total : Std.Total fun a b => sortKey items a ≤ sortKey items b := ⟨fun _ _ => le_total _ _⟩
  have trans : IsTrans Nat fun a b => sortKey items a ≤ sortKey items b := ⟨fun _ _ _ => le_trans⟩
  have keyed : (bestFirst items).Pairwise fun a b => sortKey items a ≤ sortKey items b := by
    rw [bestFirst_eq]
    exact List.pairwise_insertionSort _ _
  refine keyed.imp_of_mem fun {a b} listed listedToo below => ?_
  exact (before_isLE_iff (mem_bestFirst.mp listed) (mem_bestFirst.mp listedToo)).mpr below

/-! ## The two passes -/

/-- The class of the item at a position. -/
def classAt (items : List (Candidate T V)) (idx : Nat) : Option BehaviorClass :=
  items[idx]?.map Candidate.behaviorClass

/-- The slots given to the class at a position. -/
def given (entries : List (BehaviorClass × Nat)) (group : Option BehaviorClass) : Nat :=
  group.elim 0 fun behaviorClass => slotsTaken behaviorClass entries

theorem slotsTaken_giveSlot (group other : BehaviorClass) (entries : List (BehaviorClass × Nat)) :
    slotsTaken other (giveSlot group entries) =
      if other = group then slotsTaken group entries + 1 else slotsTaken other entries := by
  induction entries with
  | nil => grind [giveSlot, slotsTaken]
  | cons entry entries inductionHypothesis => grind [giveSlot, slotsTaken]

@[simp] theorem given_some (entries : List (BehaviorClass × Nat)) (group : BehaviorClass) :
    given entries (some group) = slotsTaken group entries := rfl

theorem given_giveSlot (group : BehaviorClass) (entries : List (BehaviorClass × Nat)) :
    given (giveSlot group entries) =
      Function.update (given entries) (some group) (slotsTaken group entries + 1) := by
  funext other
  cases other with
  | none => rw [Function.update_of_ne (Option.some_ne_none group).symm]; rfl
  | some other =>
      rw [given, Option.elim_some, slotsTaken_giveSlot]
      by_cases same : other = group
      · subst same
        rw [if_pos rfl, Function.update_self]
      · rw [if_neg same, Function.update_of_ne (mt Option.some.inj same)]
        rfl

/-- A place taken of a budget that is not spent. -/
theorem exists_left (spent : ¬ chosen.length ≥ budget) (idx : Nat) :
    ∃ left, budget - chosen.length = left + 1 ∧ budget - (chosen ++ [idx]).length = left := by
  refine ⟨budget - chosen.length - 1, by omega, ?_⟩
  rw [List.length_append, List.length_singleton, Nat.sub_add_eq]

omit [LinearOrder V] in
/-- The first pass gives each class its first slots, as far as the budget goes. -/
theorem foldl_reservationTurn (state : Reservation) (inside : ∀ idx ∈ order, idx < items.length) :
    (order.foldl (Reservation.turn items budget reservation) state).chosen =
      state.chosen ++ (allot (classAt items) reservation (given state.classes) order).take
        (budget - state.chosen.length) := by
  induction order generalizing state with
  | nil => rw [allot, List.take_nil, List.append_nil, List.foldl_nil]
  | cons idx order inductionHypothesis =>
      obtain ⟨here, rest⟩ := List.forall_mem_cons.mp inside
      have group : classAt items idx = some items[idx].behaviorClass := by
        rw [classAt, List.getElem?_eq_getElem here]
        rfl
      rw [List.foldl_cons, inductionHypothesis _ rest, Reservation.turn]
      by_cases spent : state.chosen.length ≥ budget
      · rw [if_pos spent, Nat.sub_eq_zero_of_le spent, List.take_zero, List.take_zero]
      rw [if_neg spent, List.getElem?_eq_getElem here, allot, group, given_some]
      dsimp only
      by_cases served : slotsTaken items[idx].behaviorClass state.classes ≥ reservation
      · rw [if_pos served, if_neg (not_lt.mpr served)]
      · obtain ⟨left, isLeft, next⟩ := exists_left spent idx
        rw [if_neg served, if_pos (not_le.mp served)]
        dsimp only
        rw [next, isLeft, List.take_succ_cons, given_giveSlot, List.append_assoc]
        rfl

/-- The second pass fills up with the best of the rest. -/
theorem foldl_fillingTurn (state : Filling) (distinct : order.Nodup)
    (flagged : ∀ idx ∈ order, state.taken[idx]? = some (decide (idx ∈ state.chosen))) :
    (order.foldl (Filling.turn budget) state).chosen = fillUp budget state.chosen order := by
  induction order generalizing state with
  | nil => rw [fillUp, List.filter_nil, List.take_nil, List.append_nil, List.foldl_nil]
  | cons idx order inductionHypothesis =>
      obtain ⟨here, rest⟩ := List.forall_mem_cons.mp flagged
      obtain ⟨apart, distinct⟩ := List.nodup_cons.mp distinct
      rw [List.foldl_cons, Filling.turn]
      by_cases spent : state.chosen.length ≥ budget
      · rw [if_pos spent, inductionHypothesis state distinct rest, fillUp, fillUp,
          Nat.sub_eq_zero_of_le spent, List.take_zero, List.take_zero]
      rw [if_neg spent, here, Option.getD_some]
      by_cases early : idx ∈ state.chosen
      · rw [if_pos (decide_eq_true early), inductionHypothesis state distinct rest, fillUp, fillUp,
          List.filter_cons_of_neg (by simpa using early)]
      · have flaggedNext : ∀ other ∈ order, (state.taken.set idx true)[other]? =
            some (decide (other ∈ state.chosen ++ [idx])) := by
          intro other listed
          have different : other ≠ idx := fun same => apart (same ▸ listed)
          rw [List.getElem?_set_ne (Ne.symm different), rest other listed]
          simp [different]
        have others : order.filter (· ∉ state.chosen ++ [idx]) = order.filter (· ∉ state.chosen) := by
          refine List.filter_congr fun other listed => ?_
          have different : other ≠ idx := fun same => apart (same ▸ listed)
          simp [different]
        obtain ⟨left, isLeft, next⟩ := exists_left spent idx
        rw [if_neg (mt of_decide_eq_true early), inductionHypothesis _ distinct flaggedNext, fillUp,
          fillUp, others, next, isLeft, List.filter_cons_of_pos (by simpa using early),
          List.take_succ_cons, List.append_assoc]
        rfl

/-- The flags tell the chosen. -/
theorem foldl_set {taken : List Bool} {known : List Nat}
    (flagged : ∀ idx < taken.length, taken[idx]? = some (decide (idx ∈ known))) :
    ∀ idx < taken.length, (chosen.foldl (fun taken idx => taken.set idx true) taken)[idx]? =
      some (decide (idx ∈ known ++ chosen)) := by
  induction chosen generalizing taken known with
  | nil =>
      rw [List.append_nil]
      exact flagged
  | cons first chosen inductionHypothesis =>
      rw [List.append_cons]
      have next : ∀ idx < (taken.set first true).length,
          (taken.set first true)[idx]? = some (decide (idx ∈ known ++ [first])) := by
        intro idx inside
        rw [List.length_set] at inside
        by_cases same : idx = first
        · subst same
          rw [List.getElem?_set_self inside]
          simp
        · rw [List.getElem?_set_ne (Ne.symm same), flagged idx inside]
          simp [same]
      have later := inductionHypothesis next
      rwa [List.length_set] at later

theorem reserve_eq (positive : 0 < reservation) : reserve items budget reservation =
    (allot (classAt items) reservation (fun _ => 0) (bestFirst items)).take budget := by
  have none : given [] = fun _ => 0 := by
    funext group
    cases group <;> rfl
  rw [reserve, if_pos positive,
    foldl_reservationTurn _ fun idx listed => mem_bestFirst.mp listed, List.nil_append, none]
  rfl

theorem fill_eq (items : List (Candidate T V)) (budget : Nat) (chosen : List Nat) :
    fill items budget chosen = fillUp budget chosen (bestFirst items) := by
  unfold fill
  split_ifs with room
  · have none : ∀ idx < (List.replicate items.length false).length,
        (List.replicate items.length false)[idx]? = some (decide (idx ∈ ([] : List Nat))) := by
      intro idx inside
      rw [List.length_replicate] at inside
      rw [List.getElem?_replicate_of_lt inside]
      rfl
    refine foldl_fillingTurn _ (nodup_bestFirst items) fun idx listed => ?_
    refine foldl_set none idx ?_
    rw [List.length_replicate]
    exact mem_bestFirst.mp listed
  · rw [fillUp, Nat.sub_eq_zero_of_le (not_lt.mp room), List.take_zero, List.append_nil]

/-- What is reserved is among the items, once and within the budget. -/
theorem reserve_sublist (items : List (Candidate T V)) (budget reservation : Nat) :
    (reserve items budget reservation).Sublist (bestFirst items) ∧
      (reserve items budget reservation).length ≤ budget := by
  obtain rfl | positive := Nat.eq_zero_or_pos reservation
  · exact ⟨List.nil_sublist _, Nat.zero_le _⟩
  · rw [reserve_eq positive]
    exact ⟨(List.take_sublist _ _).trans (allot_sublist _ _), List.length_take_le _ _⟩

theorem picks_perm (items : List (Candidate T V)) (budget reservation : Nat) :
    (picks items budget reservation).Perm
      (fillUp budget (reserve items budget reservation) (bestFirst items)) := by
  unfold picks
  rw [fill_eq]
  exact List.perm_insertionSort _ _

/-- What is picked is one item each, as many as the budget allows. -/
theorem picks_spec (items : List (Candidate T V)) (budget reservation : Nat) :
    (picks items budget reservation).Nodup ∧
      (∀ idx ∈ picks items budget reservation, idx < items.length) ∧
      (picks items budget reservation).length = min budget items.length := by
  have perm := picks_perm items budget reservation
  obtain ⟨sublist, within⟩ := reserve_sublist items budget reservation
  have distinct := nodup_bestFirst items
  have once := distinct.sublist sublist
  refine ⟨perm.nodup_iff.mpr (nodup_fillUp once distinct), fun idx picked => ?_, ?_⟩
  · exact mem_bestFirst.mp (mem_of_fillUp (fun _ early => sublist.subset early)
      (perm.mem_iff.mp picked))
  · rw [perm.length_eq, length_fillUp once distinct (fun _ early => sublist.subset early) within,
      (bestFirst_perm items).length_eq, List.length_range]

omit [LinearOrder V] in
theorem map_classAt (items : List (Candidate T V)) :
    (List.range items.length).map (classAt items) =
      (items.map Candidate.behaviorClass).map some := by
  refine List.ext_getElem (by simp) fun idx inside _ => ?_
  rw [List.length_map, List.length_range] at inside
  rw [List.getElem_map, List.getElem_range, classAt, List.getElem?_eq_getElem inside,
    List.getElem_map, List.getElem_map]
  rfl

theorem classes_bestFirst_le (items : List (Candidate T V)) :
    classes (classAt items) (bestFirst items) ≤ classes Candidate.behaviorClass items := by
  have same := (bestFirst_perm items).map (classAt items)
  rw [map_classAt] at same
  have image : ((bestFirst items).map (classAt items)).toFinset =
      (items.map Candidate.behaviorClass).toFinset.image some := by
    rw [List.toFinset_eq_of_perm _ _ same]
    ext group
    simp
  rw [classes, image]
  exact Finset.card_image_le

theorem countP_bestFirst (items : List (Candidate T V)) (group : BehaviorClass) :
    (bestFirst items).countP (fun idx => classAt items idx = some group) =
      items.countP fun item => item.behaviorClass = group := by
  calc (bestFirst items).countP (fun idx => classAt items idx = some group)
      = (List.range items.length).countP fun idx => classAt items idx = some group :=
        (bestFirst_perm items).countP_eq _
    _ = ((List.range items.length).map (classAt items)).countP (· = some group) :=
        by rw [List.countP_map]; rfl
    _ = items.countP fun item => item.behaviorClass = group := by
        rw [map_classAt, List.countP_map, List.countP_map]
        exact List.countP_congr fun item _ => by simp

/-- Where the budget reserves slots for every class, a class with enough items gets them. -/
theorem reservation_kept (enough : classes Candidate.behaviorClass items * reservation ≤ budget)
    (group : BehaviorClass)
    (present : reservation ≤ items.countP fun item => item.behaviorClass = group) :
    reservation ≤ (picks items budget reservation).countP fun idx =>
      classAt items idx = some group := by
  obtain rfl | positive := Nat.eq_zero_or_pos reservation
  · exact Nat.zero_le _
  have all : reserve items budget reservation =
      allot (classAt items) reservation (fun _ => 0) (bestFirst items) := by
    rw [reserve_eq positive, List.take_of_length_le]
    have bound : (allot (classAt items) reservation (fun _ => 0) (bestFirst items)).length ≤
        classes (classAt items) (bestFirst items) * reservation := length_allot_le _
    have fewer := Nat.mul_le_mul_right reservation (classes_bestFirst_le items)
    omega
  rw [(picks_perm items budget reservation).countP_eq, fillUp, List.countP_append, all,
    countP_allot, countP_bestFirst]
  omega

/-- Without reservations the best are picked. -/
theorem picks_zero (items : List (Candidate T V)) (budget : Nat) :
    picks items budget 0 = (bestFirst items).take budget := by
  have filled : fillUp budget [] (bestFirst items) = (bestFirst items).take budget := by
    simp [fillUp]
  unfold picks
  rw [fill_eq]
  change (fillUp budget [] (bestFirst items)).insertionSort _ = _
  rw [filled]
  refine List.Pairwise.insertionSort_eq ?_
  refine List.Pairwise.sublist (List.take_sublist _ _) ?_
  rw [List.pairwise_iff_getElem]
  intro first second inside insideToo earlier
  dsimp only
  rw [(nodup_bestFirst items).idxOf_getElem, (nodup_bestFirst items).idxOf_getElem]
  exact earlier.le

omit [LinearOrder V] in
/-- A slot that has not been emptied holds its payload. -/
theorem takePayloads_eq {slots : List (Option T)} (distinct : chosen.Nodup)
    (full : ∀ idx ∈ chosen, slots[idx]? = items[idx]?.map fun item => some item.payload) :
    takePayloads slots chosen = chosen.filterMap fun idx => items[idx]?.map Candidate.payload := by
  induction chosen generalizing slots with
  | nil => rfl
  | cons idx chosen inductionHypothesis =>
      obtain ⟨here, rest⟩ := List.forall_mem_cons.mp full
      obtain ⟨apart, distinct⟩ := List.nodup_cons.mp distinct
      rw [takePayloads, here]
      cases found : items[idx]? with
      | none =>
          rw [List.filterMap_cons_none (by rw [found]; rfl)]
          exact inductionHypothesis distinct rest
      | some item =>
          rw [List.filterMap_cons_some (by rw [found]; rfl)]
          refine congrArg (item.payload :: ·) (inductionHypothesis distinct fun other listed => ?_)
          have different : other ≠ idx := fun same => apart (same ▸ listed)
          rw [List.getElem?_set_ne (Ne.symm different), rest other listed]

/-- What is scheduled are the payloads of the picks. -/
theorem schedule_eq [Zero V] (isFinite : V → Bool) (candidates : List (Candidate T V)) (budget : Nat)
    (config : VoiConfig V) : schedule isFinite candidates budget config =
      (picks (eligible isFinite candidates config) budget (min config.reservationPerClass 64)).filterMap
        fun idx => (eligible isFinite candidates config)[idx]?.map Candidate.payload := by
  have reservation : (config.sanitised isFinite).reservationPerClass =
    min config.reservationPerClass 64 := rfl
  unfold schedule
  rw [reservation]
  generalize eligible isFinite candidates config = items
  generalize min config.reservationPerClass 64 = reservation
  obtain ⟨once, -, length⟩ := picks_spec items budget reservation
  have nothing (none : min budget items.length = 0) : picks items budget reservation = [] := by
    rw [← List.length_eq_zero_iff, length, none]
  by_cases spent : budget = 0
  · rw [if_pos spent, nothing (by omega), List.filterMap_nil]
  rw [if_neg spent]
  by_cases empty : items.isEmpty = true
  · rw [nothing (by rw [List.isEmpty_iff.mp empty, List.length_nil, Nat.min_zero]), List.filterMap_nil]
    exact if_pos empty
  · refine (if_neg empty).trans (takePayloads_eq once fun idx _ => ?_)
    rw [List.getElem?_map]

/-- **The schedule.** What is scheduled are the payloads of as many eligible items as the budget
allows, each picked once. Where the budget holds the slots reserved for all classes, every class with
that many items gets them; and without a reservation the picks are the first in the order of falling
values, ties by fingerprint and then by position. A reservation is of at most 64 slots. -/
theorem schedule_allots [Zero V] (isFinite : V → Bool) (candidates : List (Candidate T V))
    (budget : Nat) (config : VoiConfig V) :
    let items := eligible isFinite candidates config
    let reservation := min config.reservationPerClass 64
    ∃ chosen : List Nat, chosen.Nodup ∧ (∀ idx ∈ chosen, idx < items.length) ∧
      chosen.length = min budget items.length ∧
      schedule isFinite candidates budget config =
        chosen.filterMap (fun idx => items[idx]?.map Candidate.payload) ∧
      (classes Candidate.behaviorClass items * reservation ≤ budget → ∀ group : BehaviorClass,
        (reservation ≤ items.countP fun item => item.behaviorClass = group) →
          reservation ≤ chosen.countP fun idx => classAt items idx = some group) ∧
      (config.reservationPerClass = 0 →
        ∃ ordered : List Nat, ordered.Perm (List.range items.length) ∧
          ordered.Pairwise (fun a b => (before items a b).isLE = true) ∧
          chosen = ordered.take budget) := by
  intro items reservation
  obtain ⟨once, inside, length⟩ := picks_spec items budget reservation
  refine ⟨picks items budget reservation, once, inside, length,
    schedule_eq isFinite candidates budget config, ?_, ?_⟩
  · intro enough group present
    exact reservation_kept enough group present
  · intro none
    have nothing : reservation = 0 := by omega
    rw [nothing, picks_zero]
    exact ⟨bestFirst items, bestFirst_perm items, pairwise_bestFirst items, rfl⟩

/-- Many valuable candidates of one class, and as many of another as may be reserved and one more. -/
def crowded : List (Candidate Bool ℚ) :=
  List.replicate 66 ⟨false, ⟨0, 0, 0, 0, 0, 0⟩, 2, 0⟩ ++
    List.replicate 65 ⟨true, ⟨1, 0, 0, 0, 0, 0⟩, 1, 0⟩

/-- A reservation of 65 slots is one of 64. -/
theorem reservation_clamped :
    classes Candidate.behaviorClass (eligible (fun _ => true) crowded ⟨0, 65⟩) * 65 = 130 ∧
      (eligible (fun _ => true) crowded ⟨0, 65⟩).countP (·.payload) = 65 ∧
      (schedule (fun _ => true) crowded 130 ⟨0, 65⟩).countP (· = true) = 64 := by
  have all : eligible (fun _ => true) crowded ⟨0, 65⟩ = crowded :=
    List.filter_eq_self.mpr (by decide +kernel)
  have ordered : bestFirst crowded = List.range 131 := by decide +kernel
  rw [schedule_eq, all]
  refine ⟨by decide +kernel, by decide, ?_⟩
  -- The order in which the picks are handed out does not matter for how many there are.
  rw [((picks_perm _ _ _).filterMap _).countP_eq, reserve_eq (by decide), ordered]
  decide +kernel

end RecurseX
