import RecurseX.Name.Decode

/-!
# Subdomains, by octets and by labels

`isSubdomainOf` compares the stored octets, and a label may contain the octets
of another name's stored form. `DomainName.Below` is the relation meant;
`isSubdomainOf_iff` says that the comparison also accepts a name whose stored
form starts inside a label, and `isSubdomainOf_exact_iff` that this is the only
way for it to differ from `Below`.
-/

namespace RecurseX

open Library Library.PrefixedList

/-- `self` is at or below `zone`: its labels end with the zone's labels. -/
def DomainName.Below (self zone : DomainName) : Prop := zone.labels <:+ self.labels

instance (self zone : DomainName) : Decidable (self.Below zone) :=
  inferInstanceAs (Decidable (zone.labels <:+ self.labels))

/-- The labels of the name end with the labels of the zone. -/
def Name.InZone (name zone : Name) : Prop := zone.labels <:+ name.labels

instance (name zone : Name) : Decidable (name.InZone zone) :=
  inferInstanceAs (Decidable (zone.labels <:+ name.labels))

/-- The stored form of `zone` starts strictly inside a label of `self`: it is a
non-empty end of that label followed by the stored form of the labels behind. -/
def Name.StraddledBy (self zone : Name) : Prop := Straddles self.labels zone.bytes

variable {self zone : DomainName}

theorem isSubdomainOf_iff :
    self.toName.isSubdomainOf zone.toName = true ↔
      self.Below zone ∨ self.toName.StraddledBy zone.toName := by
  rw [Name.isSubdomainOf, List.isSuffixOf_iff_suffix, Name.StraddledBy, DomainName.labels_toName]
  exact code_suffix_iff self.sizedItems zone.sizedItems

theorem not_below_of_straddledBy (straddled : self.toName.StraddledBy zone.toName) :
    ¬ self.Below zone := by
  rw [Name.StraddledBy, DomainName.labels_toName] at straddled
  exact straddle_not_suffix straddled

/-- The comparison agrees with the label relation exactly when the zone does
not straddle a label of the name. -/
theorem isSubdomainOf_exact_iff :
    (self.toName.isSubdomainOf zone.toName = true ↔ self.Below zone) ↔
      ¬ self.toName.StraddledBy zone.toName := by
  rw [isSubdomainOf_iff]
  constructor
  · intro agrees straddled
    exact not_below_of_straddledBy straddled (agrees.mp (Or.inr straddled))
  · intro apart
    simp [apart]

theorem DomainName.Below.refl (self : DomainName) : self.Below self :=
  List.suffix_rfl

theorem DomainName.Below.trans {middle : DomainName} (first : self.Below middle)
    (second : middle.Below zone) : self.Below zone :=
  List.IsSuffix.trans second first

end RecurseX
