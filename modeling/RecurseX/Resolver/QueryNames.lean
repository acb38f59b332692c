import Mathlib.Logic.Function.Iterate
import RecurseX.Name.Built
import RecurseX.Resolver.Basic

/-!
# The names that are asked for

With minimisation on, the servers of a zone are asked for longer and longer ends
of a name: one label below the zone first, then one label more each time. Each of
them is the name that `lastLabels` makes of so many labels.
-/

namespace RecurseX

open Library Library.PrefixedList

/-! ## The last labels of a name -/

theorem pushLabels_append_root (labels : List Bytes) : pushLabels labels ++ [0] = code labels := rfl

/-- Every label takes two octets at least. -/
theorem two_mul_length_le_body {labels : List Bytes}
    (sized : ∀ label ∈ labels, 0 < label.length ∧ label.length ≤ 63) :
    2 * labels.length ≤ (body labels).length := by
  induction labels with
  | nil => exact Nat.le_refl _
  | cons label labels inductionHypothesis =>
      obtain ⟨⟨positive, -⟩, later⟩ := List.forall_mem_cons.mp sized
      have rest := inductionHypothesis later
      rw [body_cons, List.length_append, length_item, List.length_cons]
      omega

variable {qname zone : Name} {keep : Nat}

/-- Without one of its labels a name is short enough for the wire. -/
theorem Name.Built.fromWire_drop (built : qname.Built) {skip : Nat} (some : 0 < skip)
    (inside : skip ≤ qname.labelCount) :
    ∃ stop, Name.fromWire (code (qname.labels.drop skip)) 0 =
      .ok (⟨code (qname.labels.drop skip)⟩, stop) := by
  have parts : (body (qname.labels.take skip)).length + (body (qname.labels.drop skip)).length + 1 =
      qname.bytes.length := by
    rw [← List.length_append, ← body_append, List.take_append_drop,
      show qname.bytes = code qname.labels from congrArg Name.bytes built.stored, code,
      List.length_append]
    rfl
  have front : 2 * skip ≤ (body (qname.labels.take skip)).length := by
    have bound : 2 * (qname.labels.take skip).length ≤ (body (qname.labels.take skip)).length :=
      two_mul_length_le_body fun label listed => built.sized label (List.mem_of_mem_take listed)
    rwa [List.length_take, Nat.min_eq_left (show skip ≤ qname.labels.length from inside)] at bound
  have back : 2 * (qname.labels.drop skip).length ≤ (body (qname.labels.drop skip)).length :=
    two_mul_length_le_body fun label listed => built.sized label (List.mem_of_mem_drop listed)
  have whole : (code (qname.labels.drop skip)).length =
      (body (qname.labels.drop skip)).length + 1 := by
    rw [code, List.length_append]
    rfl
  have short := built.short
  have limits : maxNameLen = 255 ∧ maxLabels = 127 := ⟨rfl, rfl⟩
  refine ⟨_, (fromWire_code_iff (fun label listed => built.sized label (List.mem_of_mem_drop listed))
    fun label listed => built.folded label (List.mem_of_mem_drop listed)).mpr
      ⟨rfl, rfl, by omega, by omega⟩⟩

/-- The last labels form the name that is meant; the name itself stands for all of them. -/
theorem Name.Built.lastLabels_eq (built : qname.Built) (inside : keep ≤ qname.labelCount) :
    lastLabels qname keep = ⟨code (qname.labels.drop (qname.labelCount - keep))⟩ := by
  unfold lastLabels
  rw [pushLabels_append_root]
  rcases Nat.eq_or_lt_of_le inside with rfl | fewer
  · rw [Nat.sub_self, List.drop_zero]
    cases decoded : Name.fromWire (code qname.labels) 0 with
    | error error => exact built.stored
    | ok result => exact ((fromWire_code_iff built.sized built.folded).mp decoded).1
  · obtain ⟨stop, decoded⟩ := built.fromWire_drop (Nat.sub_pos_of_lt fewer) (Nat.sub_le _ _)
    rw [decoded]

theorem Name.Built.labels_lastLabels (built : qname.Built) (inside : keep ≤ qname.labelCount) :
    (lastLabels qname keep).labels = qname.labels.drop (qname.labelCount - keep) := by
  rw [built.lastLabels_eq inside]
  exact labels_stored (built.sizedLabels.of_suffix (List.drop_suffix _ _))

theorem Name.Built.labelCount_lastLabels (built : qname.Built) (inside : keep ≤ qname.labelCount) :
    (lastLabels qname keep).labelCount = keep := by
  rw [Name.labelCount, built.labels_lastLabels inside, List.length_drop]
  unfold Name.labelCount at *
  omega

theorem Name.Built.lastLabels_labelCount (built : qname.Built) :
    lastLabels qname qname.labelCount = qname := by
  rw [built.lastLabels_eq (Nat.le_refl _), Nat.sub_self, List.drop_zero]
  exact built.stored.symm

/-! ## One label more each time -/

theorem Name.Built.minimizedName_eq (built : qname.Built) (zone : Name) :
    minimizedName qname zone = lastLabels qname (min (zone.labelCount + 1) qname.labelCount) := by
  unfold minimizedName
  split_ifs with short
  · rw [Nat.min_eq_right (by omega), built.lastLabels_labelCount]
  · rw [Nat.min_eq_left (by omega)]

theorem Name.Built.deepenMinimized_lastLabels (built : qname.Built)
    (inside : keep ≤ qname.labelCount) :
    deepenMinimized qname (lastLabels qname keep) =
      lastLabels qname (min (keep + 1) qname.labelCount) := by
  unfold deepenMinimized
  rw [built.labelCount_lastLabels inside]
  split_ifs with whole
  · rw [Nat.min_eq_right (by omega), built.lastLabels_labelCount]
  · rw [Nat.min_eq_left (by omega)]

/-- After some steps, so many labels more are asked for. -/
theorem Name.Built.deepened_eq (built : qname.Built) (zone : Name) (steps : Nat) :
    (deepenMinimized qname)^[steps] (minimizedName qname zone) =
      lastLabels qname (min (zone.labelCount + 1 + steps) qname.labelCount) := by
  induction steps with
  | zero => exact built.minimizedName_eq zone
  | succ steps inductionHypothesis =>
      rw [Function.iterate_succ_apply', inductionHypothesis,
        built.deepenMinimized_lastLabels (Nat.min_le_right _ _)]
      congr 1
      omega

/-- **Minimisation.** The first name that is asked for has one label more than the zone, as far as
the name goes. Each step adds one label, every name on the way is an end of the whole name, and the
whole name is reached after as many steps as there are labels left. Below the zone, all of them are
in the zone. -/
theorem minimized_names (qname zone : Name) (built : qname.Built) :
    (minimizedName qname zone).labelCount = min (zone.labelCount + 1) qname.labelCount ∧
    (∀ steps, ((deepenMinimized qname)^[steps] (minimizedName qname zone)).labels <:+ qname.labels ∧
      ((deepenMinimized qname)^[steps] (minimizedName qname zone) ≠ qname →
        ((deepenMinimized qname)^[steps] (minimizedName qname zone)).labelCount <
          ((deepenMinimized qname)^[steps + 1] (minimizedName qname zone)).labelCount) ∧
      ((deepenMinimized qname)^[steps] (minimizedName qname zone) = qname ↔
        qname.labelCount - (minimizedName qname zone).labelCount ≤ steps)) ∧
    (qname.InZone zone → ∀ steps,
      ((deepenMinimized qname)^[steps] (minimizedName qname zone)).InZone zone) := by
  have count (steps : Nat) :
      ((deepenMinimized qname)^[steps] (minimizedName qname zone)).labelCount =
        min (zone.labelCount + 1 + steps) qname.labelCount := by
    rw [built.deepened_eq, built.labelCount_lastLabels (Nat.min_le_right _ _)]
  have ends (steps : Nat) :
      ((deepenMinimized qname)^[steps] (minimizedName qname zone)).labels <:+ qname.labels := by
    rw [built.deepened_eq, built.labels_lastLabels (Nat.min_le_right _ _)]
    exact List.drop_suffix _ _
  have reached (steps : Nat) :
      (deepenMinimized qname)^[steps] (minimizedName qname zone) = qname ↔
        qname.labelCount ≤ zone.labelCount + 1 + steps := by
    constructor
    · intro whole
      have labels := count steps
      rw [whole] at labels
      omega
    · intro enough
      rw [built.deepened_eq, Nat.min_eq_right enough, built.lastLabels_labelCount]
  have first : (minimizedName qname zone).labelCount = min (zone.labelCount + 1) qname.labelCount :=
    count 0
  refine ⟨first, fun steps => ⟨ends steps, fun partly => ?_, ?_⟩, fun below steps => ?_⟩
  · rw [ne_eq, reached] at partly
    rw [count, count]
    omega
  · rw [reached, first]
    omega
  · refine List.suffix_of_suffix_length_le below (ends steps) ?_
    have inside : zone.labelCount ≤ qname.labelCount := below.length_le
    have labels := count steps
    unfold Name.labelCount at *
    omega

/-- On the way from the root to `www.com` there is one name. -/
theorem minimized_www :
    deepenMinimized ⟨[3, 119, 119, 119, 3, 99, 111, 109, 0]⟩
        (minimizedName ⟨[3, 119, 119, 119, 3, 99, 111, 109, 0]⟩ .root) =
      ⟨[3, 119, 119, 119, 3, 99, 111, 109, 0]⟩ := by
  have built : (⟨[3, 119, 119, 119, 3, 99, 111, 109, 0]⟩ : Name).Built :=
    ⟨by decide, by decide, by decide, by decide⟩
  exact ((minimized_names _ .root built).2.1 1).2.2.mpr (by decide)

end RecurseX
