import Mathlib.Data.Prod.Lex
import RecurseX.Library.Selection
import RecurseX.Pattern

/-!
# Upstream routing

`nameserver-policy`: rules are sorted once, most specific first, and the first
rule that matches a name decides. Patterns are as they are parsed.
-/

namespace RecurseX

open Library

/-- Identifies one configured upstream group. -/
abbrev GroupId := Nat

/-- The result of consulting the policy. -/
inductive Route where
  /-- A policy rule matched; use this group. -/
  | group (id : GroupId)
  /-- No rule matched; use the default group. -/
  | default
deriving DecidableEq, Repr

/-- The route to the group of a chosen rule. -/
def Route.ofChoice : Option GroupId → Route
  | some id => .group id
  | none => .default

theorem Route.ofChoice_injective {left right : Option GroupId}
    (same : Route.ofChoice left = Route.ofChoice right) : left = right := by
  cases left <;> cases right <;> cases same <;> rfl

/-- One rule: a pattern and the group responsible for what it matches. -/
abbrev PolicyRule := DomainPattern × GroupId

/-- More labels first, and an exact pattern ahead of a wildcard anchored at the
same suffix. -/
def specificity (pattern : DomainPattern) : Nat ×ₗ Nat :=
  toLex (pattern.labelCount, pattern.isExact.toNat)

/-- Suffix-based upstream selection, most specific rule first. -/
structure NameserverPolicy where
  rules : List PolicyRule
deriving DecidableEq, Repr

namespace NameserverPolicy

/-- Build a policy. A rule whose pattern is `*` is an error. -/
def new (rules : List PolicyRule) : Result NameserverPolicy :=
  if rules.any fun rule => rule.1 = .any then
    .error (.config ("nameserver-policy entry \"*\" would shadow every other rule; " ++
      "set the default `nameservers` instead"))
  else .ok ⟨sortDescending (fun rule => specificity rule.1) rules⟩

/-- The group responsible for `name`. -/
def route (self : NameserverPolicy) (name : Name) : Route :=
  match self.rules.find? fun rule => rule.1.matches name with
  | some rule => .group rule.2
  | none => .default

variable {rules : List PolicyRule} {policy : NameserverPolicy}

/-- The first of the most specific matching rules decides. -/
theorem route_eq (built : new rules = .ok policy) (name : Name) :
    policy.route name = Route.ofChoice
      ((firstBest (fun rule => specificity rule.1) (fun rule => rule.1.matches name) rules).map
        Prod.snd) := by
  unfold new at built
  split_ifs at built
  obtain rfl := Except.ok.inj built
  rw [route, find?_sortDescending]
  cases firstBest (fun rule => specificity rule.1) (fun rule => rule.1.matches name) rules <;> rfl

/-- Whether a policy is accepted does not depend on the order of its rules. -/
theorem new_perm {reordered : List PolicyRule} (perm : reordered.Perm rules)
    (built : new rules = .ok policy) : ∃ other, new reordered = .ok other := by
  unfold new at built ⊢
  rw [perm.any_eq]
  split_ifs at built ⊢
  exact ⟨_, rfl⟩

/-- Among the rules that match the name, the most specific ones lead to one group. -/
def Agree (rules : List PolicyRule) (name : Name) : Prop :=
  ∀ rule other, Best (fun rule => specificity rule.1) (fun rule => rule.1.matches name) rules rule →
    Best (fun rule => specificity rule.1) (fun rule => rule.1.matches name) rules other →
    rule.2 = other.2

/-- The order of the rules matters to a name unless its most specific rules agree. -/
theorem route_order_iff (built : new rules = .ok policy) (name : Name) :
    (∀ reordered other, reordered.Perm rules → new reordered = .ok other →
      other.route name = policy.route name) ↔ Agree rules name := by
  rw [Agree, ← firstBest_order_iff]
  constructor
  · intro same reordered perm
    obtain ⟨other, otherBuilt⟩ := new_perm perm built
    have routed := same reordered other perm otherBuilt
    rw [route_eq otherBuilt, route_eq built] at routed
    exact Route.ofChoice_injective routed
  · intro same reordered other perm otherBuilt
    rw [route_eq otherBuilt, route_eq built, same reordered perm]

end NameserverPolicy

end RecurseX
