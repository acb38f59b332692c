import RecurseX.Engine
import RecurseX.Name.Built

/-!
# DNAME substitution

`synthesizeDnameCname` replaces the end of a name that is the owner of a DNAME.
It finds out by octets whether the owner is such an end, and has the wire reader
check the result. `substitutes_iff` says when this is the substitution of labels.
-/

namespace RecurseX

open Library Library.PrefixedList

/-- The wire reader takes a name of these labels. -/
def FitsWire (labels : List Bytes) : Prop :=
  (code labels).length ≤ maxNameLen ∧ labels.length < maxLabels

instance (labels : List Bytes) : Decidable (FitsWire labels) := inferInstanceAs (Decidable (_ ∧ _))

/-- The labels of `qname` are some labels before those of the owner. -/
def LabelsAbove (qname owner : Name) (above : List Bytes) : Prop :=
  above ≠ [] ∧ qname.labels = above ++ owner.labels

/-- The labels of the name that the code makes. -/
def substitutedLabels (qname owner target : Name) : List Bytes :=
  qname.labels.take (qname.labels.length - owner.labelCount) ++ target.labels

/-- The substitution that is meant: there is a result exactly when the owner's labels are a proper
end of the name's labels and the result is at most 255 octets, and then its labels are those before
the owner followed by those of the target. -/
structure Substitutes (qname owner target : Name) : Prop where
  some_iff : (∃ name, synthesizeDnameCname qname owner target = some name) ↔
    ∃ above, LabelsAbove qname owner above ∧ (code (above ++ target.labels)).length ≤ maxNameLen
  labels : ∀ name, synthesizeDnameCname qname owner target = some name →
    ∃ above, LabelsAbove qname owner above ∧ name.labels = above ++ target.labels

variable {qname owner target name : Name} {above : List Bytes}

theorem substitutedLabels_of_above (apart : LabelsAbove qname owner above) :
    substitutedLabels qname owner target = above ++ target.labels := by
  rw [substitutedLabels, apart.2, Name.labelCount, List.length_append, Nat.add_sub_cancel,
    List.take_left]

theorem forall_mem_substituted {property : Bytes → Prop} (ofName : ∀ label ∈ qname.labels, property label)
    (ofTarget : ∀ label ∈ target.labels, property label) :
    ∀ label ∈ substitutedLabels qname owner target, property label := by
  intro label listed
  rcases List.mem_append.mp listed with kept | replaced
  · exact ofName label (List.mem_of_mem_take kept)
  · exact ofTarget label replaced

/-- A result is what the wire reader takes, for a name strictly below the owner by octets. -/
theorem synthesizeDnameCname_eq_some_iff (built : qname.Built) (builtTarget : target.Built) :
    synthesizeDnameCname qname owner target = some name ↔
      qname.isStrictSubdomainOf owner = true ∧ FitsWire (substitutedLabels qname owner target) ∧
        name = ⟨code (substitutedLabels qname owner target)⟩ := by
  have pushed : pushLabels (qname.labels.take (qname.labels.length - owner.labelCount)) ++
      pushLabels target.labels ++ [0] = code (substitutedLabels qname owner target) := by
    rw [substitutedLabels, code, body_append]
    rfl
  have sized := @forall_mem_substituted qname owner target _ built.sized builtTarget.sized
  have folded := @forall_mem_substituted qname owner target _ built.folded builtTarget.folded
  unfold synthesizeDnameCname
  split_ifs with strict
  · dsimp only
    rw [pushed, eq_true strict, true_and]
    by_cases fits : FitsWire (substitutedLabels qname owner target)
    · rw [(fromWire_code_iff sized folded).mpr ⟨rfl, rfl, fits⟩, Option.some.injEq, and_iff_right fits,
        eq_comm]
    · refine iff_of_false ?_ fun both => fits both.1
      cases decoded : Name.fromWire (code (substitutedLabels qname owner target)) 0 with
      | error error =>
          intro found
          cases found
      | ok result => exact absurd ((fromWire_code_iff sized folded).mp decoded).2.2 fits
  · refine iff_of_false (fun found => ?_) fun both => strict both.1
    cases found

/-- Some labels stand before the owner's exactly when the name is another one below the owner. -/
theorem exists_labelsAbove_iff (built : qname.Built) (builtOwner : owner.Built) :
    (∃ above, LabelsAbove qname owner above) ↔ qname.InZone owner ∧ qname ≠ owner := by
  constructor
  · rintro ⟨above, some, whole⟩
    refine ⟨⟨above, whole.symm⟩, ?_⟩
    rintro rfl
    exact some (List.self_eq_append_left.mp whole)
  · rintro ⟨⟨above, whole⟩, different⟩
    refine ⟨above, ?_, whole.symm⟩
    rintro rfl
    exact different (built.ext builtOwner whole.symm)

/-- **DNAME substitution.** The result is the substitution of labels exactly when the owner does not
start inside a label of the name, unless nothing fits the wire then, and the substituted name does
not have the 127 labels that the wire reader refuses. -/
theorem substitutes_iff (qname owner target : Name) (built : qname.Built) (builtOwner : owner.Built)
    (builtTarget : target.Built) :
    Substitutes qname owner target ↔
      (qname.StraddledBy owner → ¬ FitsWire (substitutedLabels qname owner target)) ∧
      ∀ above, LabelsAbove qname owner above →
        (code (above ++ target.labels)).length ≤ maxNameLen →
          (above ++ target.labels).length < maxLabels := by
  have made (name : Name) : synthesizeDnameCname qname owner target = some name ↔
      ((∃ above, LabelsAbove qname owner above) ∨ qname.StraddledBy owner) ∧
        FitsWire (substitutedLabels qname owner target) ∧
          name = ⟨code (substitutedLabels qname owner target)⟩ := by
    rw [synthesizeDnameCname_eq_some_iff built builtTarget, built.isStrictSubdomainOf_iff builtOwner,
      exists_labelsAbove_iff built builtOwner]
  constructor
  · intro substitutes
    refine ⟨fun straddled fits => ?_, fun above apart short => ?_⟩
    · obtain ⟨above, apart, -⟩ := substitutes.some_iff.mp ⟨_, (made _).mpr ⟨.inr straddled, fits, rfl⟩⟩
      exact builtOwner.not_inZone_of_straddledBy straddled ⟨above, apart.2.symm⟩
    · obtain ⟨name, synthesized⟩ := substitutes.some_iff.mpr ⟨above, apart, short⟩
      have fits := ((made name).mp synthesized).2.1
      rw [substitutedLabels_of_above apart] at fits
      exact fits.2
  · rintro ⟨straight, few⟩
    have sound (name : Name) (synthesized : synthesizeDnameCname qname owner target = some name) :
        ∃ above, LabelsAbove qname owner above ∧
          (code (above ++ target.labels)).length ≤ maxNameLen ∧
            name.labels = above ++ target.labels := by
      obtain ⟨⟨above, apart⟩ | straddled, fits, rfl⟩ := (made name).mp synthesized
      · rw [substitutedLabels_of_above apart] at fits
        refine ⟨above, apart, fits.1, ?_⟩
        rw [← substitutedLabels_of_above apart]
        exact labels_stored (sized_of_short (forall_mem_substituted built.sized builtTarget.sized))
      · exact absurd fits (straight straddled)
    refine ⟨⟨?_, ?_⟩, fun name synthesized => ?_⟩
    · rintro ⟨name, synthesized⟩
      obtain ⟨above, apart, short, -⟩ := sound name synthesized
      exact ⟨above, apart, short⟩
    · rintro ⟨above, apart, short⟩
      refine ⟨_, (made _).mpr ⟨.inl ⟨above, apart⟩, ?_, rfl⟩⟩
      rw [substitutedLabels_of_above apart]
      exact ⟨short, few above apart short⟩
    · obtain ⟨above, apart, -, labels⟩ := sound name synthesized
      exact ⟨above, apart, labels⟩

theorem LabelsAbove.length (apart : LabelsAbove qname owner above) :
    qname.labelCount = above.length + owner.labelCount := by
  rw [Name.labelCount, apart.2, List.length_append]
  rfl

/-- `www.com` under the DNAME from `com` to `org`. -/
theorem substitutes_www :
    Substitutes ⟨[3, 119, 119, 119, 3, 99, 111, 109, 0]⟩ ⟨[3, 99, 111, 109, 0]⟩
      ⟨[3, 111, 114, 103, 0]⟩ := by
  have builtOwner : (⟨[3, 99, 111, 109, 0]⟩ : Name).Built :=
    ⟨by decide, by decide, by decide, by decide⟩
  refine (substitutes_iff _ _ _ ⟨by decide, by decide, by decide, by decide⟩ builtOwner
    ⟨by decide, by decide, by decide, by decide⟩).mpr
    ⟨fun straddled => ?_, fun above apart _ => ?_⟩
  · exact absurd (by decide) (builtOwner.not_inZone_of_straddledBy straddled)
  · have counted := apart.length
    rw [show Name.labelCount ⟨[3, 119, 119, 119, 3, 99, 111, 109, 0]⟩ = 2 by decide,
      show Name.labelCount ⟨[3, 99, 111, 109, 0]⟩ = 1 by decide] at counted
    rw [List.length_append, show (Name.labels ⟨[3, 111, 114, 103, 0]⟩).length = 1 by decide, maxLabels]
    omega

/-- A label of the octets `x`, `1` and `a` ends like the name `a`. -/
theorem substitutes_inside_label :
    ¬ Substitutes ⟨[3, 120, 1, 97, 0]⟩ ⟨[1, 97, 0]⟩ ⟨[1, 98, 0]⟩ := by
  intro substitutes
  obtain ⟨above, apart, -⟩ := substitutes.labels ⟨[1, 98, 0]⟩ (by decide)
  have counted := apart.length
  rw [show Name.labelCount ⟨[3, 120, 1, 97, 0]⟩ = 1 by decide,
    show Name.labelCount ⟨[1, 97, 0]⟩ = 1 by decide] at counted
  exact apart.1 (List.length_eq_zero_iff.mp (by omega))

end RecurseX
