import RecurseX.Name.Ascii
import RecurseX.Name.Legal
import RecurseX.Name.Sink
import RecurseX.Name.Subdomain

/-!
# Names as the constructors build them

A name is read off the wire or from text. Both store labels of 1 to 63 octets in
lower case, but the text reader lets one octet and one label more through than
the wire reader does. `Name.Built` is what both keep.
-/

namespace RecurseX

open Library Library.PrefixedList

/-- A name that one of the constructors can have made. -/
structure Name.Built (name : Name) : Prop where
  stored : name = ⟨code name.labels⟩
  sized : ∀ label ∈ name.labels, 0 < label.length ∧ label.length ≤ 63
  folded : ∀ label ∈ name.labels, label.map asciiLower = label
  /-- The text reader does not count the root. -/
  short : name.bytes.length ≤ maxNameLen + 1

variable {labels : List Bytes} {name other : Name}

theorem sized_of_short (sized : ∀ label ∈ labels, 0 < label.length ∧ label.length ≤ 63) :
    Sized labels := by
  intro label member
  have bounds := sized label member
  omega

/-- The name that stores the labels has these labels. -/
theorem labels_stored (sized : Sized labels) : (⟨code labels⟩ : Name).labels = labels :=
  labelIter_code sized (length_lt_length_code labels)

theorem Name.Built.of_labels (sized : ∀ label ∈ labels, 0 < label.length ∧ label.length ≤ 63)
    (folded : ∀ label ∈ labels, label.map asciiLower = label)
    (short : (code labels).length ≤ maxNameLen + 1) : (⟨code labels⟩ : Name).Built := by
  have same := labels_stored (sized_of_short sized)
  exact ⟨by rw [same], by rwa [same], by rwa [same], short⟩

theorem Name.Canonical.built (named : name.Canonical) : name.Built := by
  obtain ⟨self, rfl⟩ := named
  exact .of_labels self.sized self.folded (Nat.le_succ_of_le self.short)

/-- The text reader makes such names. -/
theorem Name.built_of_fromAscii {text : Bytes} (read : Name.fromAscii text = .ok name) :
    name.Built := by
  obtain ⟨labels, spelled, short, total, -, rfl⟩ := Name.fromAscii_eq_ok_iff.mp read
  have lengths : (code (labels.map (List.map asciiLower))).length = (body labels).length + 1 := by
    rw [code, List.length_append, length_body_map]
    rfl
  refine .of_labels ?_ ?_ (by omega)
  · intro label listed
    obtain ⟨original, member, rfl⟩ := List.mem_map.mp listed
    rw [List.length_map]
    exact ⟨spelled.nonempty original member, short original member⟩
  · intro label listed
    obtain ⟨original, -, rfl⟩ := List.mem_map.mp listed
    simp [asciiLower_idem]

theorem Name.Built.sizedLabels (built : name.Built) : Sized name.labels := sized_of_short built.sized

/-- Names with the same labels are equal. -/
theorem Name.Built.ext (built : name.Built) (builtToo : other.Built)
    (same : name.labels = other.labels) : name = other := by
  rw [built.stored, builtToo.stored, same]

/-- The wire reader takes the stored form of labels exactly when it is not too long. -/
theorem fromWire_code_iff (sized : ∀ label ∈ labels, 0 < label.length ∧ label.length ≤ 63)
    (folded : ∀ label ∈ labels, label.map asciiLower = label) {stop : Nat} :
    Name.fromWire (code labels) 0 = .ok (name, stop) ↔
      name = ⟨code labels⟩ ∧ stop = (code labels).length ∧ (code labels).length ≤ maxNameLen ∧
        labels.length < maxLabels := by
  have spelled : Spells (code labels) 0 labels 0 (code labels).length := by
    have whole : Located (code labels) 0 (code labels) := Located.rest (Nat.zero_le _)
    have split := whole
    rw [code, Located.append_iff] at split
    have closed := spells_body sized folded split.1 (.root split.2.head)
    simpa [code, Nat.add_assoc] using closed
  rw [fromWire_eq_ok_iff]
  constructor
  · rintro ⟨others, hops, spells, -, short, few, rfl⟩
    obtain ⟨rfl, -, rfl⟩ := spelled.unique spells
    exact ⟨rfl, rfl, short, few⟩
  · rintro ⟨rfl, rfl, short, few⟩
    exact ⟨labels, 0, spelled, by decide, short, few, rfl⟩

/-! ## Subdomains -/

/-- The octets of a name end with those of a zone exactly when its labels do, or the zone starts
inside a label. -/
theorem Name.Built.isSubdomainOf_iff (built : name.Built) (builtToo : other.Built) :
    name.isSubdomainOf other = true ↔ name.InZone other ∨ name.StraddledBy other := by
  have suffix := code_suffix_iff built.sizedLabels builtToo.sizedLabels
  rw [Name.isSubdomainOf, List.isSuffixOf_iff_suffix, Name.StraddledBy,
    show name.bytes = code name.labels from congrArg Name.bytes built.stored,
    show other.bytes = code other.labels from congrArg Name.bytes builtToo.stored]
  exact suffix

theorem Name.Built.not_inZone_of_straddledBy (builtToo : other.Built)
    (straddled : name.StraddledBy other) : ¬ name.InZone other := by
  rw [Name.StraddledBy, show other.bytes = code other.labels from
    congrArg Name.bytes builtToo.stored] at straddled
  exact straddle_not_suffix straddled

theorem Name.Built.isStrictSubdomainOf_iff (built : name.Built) (builtToo : other.Built) :
    name.isStrictSubdomainOf other = true ↔
      (name.InZone other ∧ name ≠ other) ∨ name.StraddledBy other := by
  rw [Name.isStrictSubdomainOf, Bool.and_eq_true, built.isSubdomainOf_iff builtToo, bne_iff_ne]
  constructor
  · rintro ⟨different, inside | straddled⟩
    · exact .inl ⟨inside, different⟩
    · exact .inr straddled
  · rintro (⟨inside, different⟩ | straddled)
    · exact ⟨different, .inl inside⟩
    · refine ⟨?_, .inr straddled⟩
      rintro rfl
      exact builtToo.not_inZone_of_straddledBy straddled List.suffix_rfl

end RecurseX
