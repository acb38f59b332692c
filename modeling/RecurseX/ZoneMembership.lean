import RecurseX.Engine
import RecurseX.Pattern
import RecurseX.Policy

/-!
# Who is inside a zone

The bailiwick check, the subtree pattern and the blocklist all decide by
`Name.isSubdomainOf`, so they are right exactly where it is.
-/

namespace RecurseX

open Library

/-- A blocklist of canonical names blocks what a rule names, what a rule's
subtree holds, and what a rule straddles. -/
theorem isBlocked_iff {config : PolicyConfig} {name : DomainName}
    (canonical : ∀ rule ∈ config.block, ∃ suffix : DomainName, rule.suffix = suffix.toName) :
    config.isBlocked name.toName = true ↔ ∃ rule ∈ config.block,
      (rule.exact = true ∧ rule.suffix = name.toName) ∨
      (rule.exact = false ∧
        (rule.suffix.labels <:+ name.labels ∨ name.toName.StraddledBy rule.suffix)) := by
  rw [PolicyConfig.isBlocked, List.any_eq_true]
  refine exists_congr fun rule => and_congr_right fun member => ?_
  obtain ⟨suffix, spelled⟩ := canonical rule member
  cases rule.exact with
  | true => simp
  | false =>
      rw [spelled, DomainName.labels_toName]
      simpa [DomainName.Below] using @isSubdomainOf_iff name suffix

/-- The four decisions agree with label-wise containment exactly when the
stored form of the zone does not start inside a label of the name. -/
theorem zone_membership_iff {name zone : Name}
    (nameDecoded : ∃ buf pos stop, Name.fromWire buf pos = .ok (name, stop))
    (zoneDecoded : ∃ buf pos stop, Name.fromWire buf pos = .ok (zone, stop)) :
    ((name.isSubdomainOf zone = true ↔ zone.labels <:+ name.labels) ∧
      (inBailiwick name zone = true ↔ zone.labels <:+ name.labels) ∧
      ((DomainPattern.subtree zone).matches name = true ↔ zone.labels <:+ name.labels) ∧
      ((PolicyConfig.mk [.subtree zone]).isBlocked name = true ↔ zone.labels <:+ name.labels)) ↔
    ¬ name.StraddledBy zone := by
  obtain ⟨_, _, _, nameDecoded⟩ := nameDecoded
  obtain ⟨_, _, _, zoneDecoded⟩ := zoneDecoded
  obtain ⟨self, rfl⟩ := fromWire_domainName nameDecoded
  obtain ⟨outer, rfl⟩ := fromWire_domainName zoneDecoded
  have pattern : (DomainPattern.subtree outer.toName).matches self.toName =
      self.toName.isSubdomainOf outer.toName := rfl
  have block : (PolicyConfig.mk [.subtree outer.toName]).isBlocked self.toName =
      self.toName.isSubdomainOf outer.toName := by
    simp [PolicyConfig.isBlocked, BlockRule.subtree]
  rw [pattern, block, inBailiwick, and_self, and_self, and_self, DomainName.labels_toName,
    DomainName.labels_toName]
  exact isSubdomainOf_exact_iff

/-- The zone `com` and the name `www.com`. -/
theorem zone_membership_www :
    ¬ (Name.mk [3, 119, 119, 119, 3, 99, 111, 109, 0]).StraddledBy ⟨[3, 99, 111, 109, 0]⟩ ∧
    (inBailiwick ⟨[3, 119, 119, 119, 3, 99, 111, 109, 0]⟩ ⟨[3, 99, 111, 109, 0]⟩ = true ↔
      (Name.mk [3, 99, 111, 109, 0]).labels <:+
        (Name.mk [3, 119, 119, 119, 3, 99, 111, 109, 0]).labels) := by
  have exactly := @zone_membership_iff ⟨[3, 119, 119, 119, 3, 99, 111, 109, 0]⟩
    ⟨[3, 99, 111, 109, 0]⟩
    ⟨[3, 119, 119, 119, 3, 99, 111, 109, 0], 0, 9, by decide⟩
    ⟨[3, 99, 111, 109, 0], 0, 5, by decide⟩
  have apart := exactly.mp (by decide)
  exact ⟨apart, (exactly.mpr apart).2.1⟩

/-- The one-label name `a\003com` passes for a subdomain of `com`. -/
theorem straddling_label_passes :
    Name.fromWire [5, 97, 3, 99, 111, 109, 0] 0 = .ok (⟨[5, 97, 3, 99, 111, 109, 0]⟩, 7) ∧
    Name.fromWire [3, 99, 111, 109, 0] 0 = .ok (⟨[3, 99, 111, 109, 0]⟩, 5) ∧
    inBailiwick ⟨[5, 97, 3, 99, 111, 109, 0]⟩ ⟨[3, 99, 111, 109, 0]⟩ = true ∧
    (DomainPattern.subtree ⟨[3, 99, 111, 109, 0]⟩).matches ⟨[5, 97, 3, 99, 111, 109, 0]⟩ = true ∧
    (PolicyConfig.mk [.subtree ⟨[3, 99, 111, 109, 0]⟩]).isBlocked
      ⟨[5, 97, 3, 99, 111, 109, 0]⟩ = true ∧
    ¬ ((Name.mk [5, 97, 3, 99, 111, 109, 0]).isSubdomainOf ⟨[3, 99, 111, 109, 0]⟩ = true ↔
      (Name.mk [3, 99, 111, 109, 0]).labels <:+ (Name.mk [5, 97, 3, 99, 111, 109, 0]).labels) := by
  decide

end RecurseX
