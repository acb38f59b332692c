import RecurseX.Name.Basic

/-!
# Query policy

The blocklist of the policy engine.
-/

namespace RecurseX

/-- A filter rule: everything under `suffix` is blocked, or exactly the name
when `exact` is set. -/
structure BlockRule where
  suffix : Name
  exact : Bool
deriving DecidableEq, Repr

/-- Block every name under (and including) `suffix`. -/
def BlockRule.subtree (suffix : Name) : BlockRule := ⟨suffix, false⟩

/-- Policy configuration. -/
structure PolicyConfig where
  block : List BlockRule
deriving DecidableEq, Repr

/-- Whether a query name is blocked by policy. -/
def PolicyConfig.isBlocked (config : PolicyConfig) (name : Name) : Bool :=
  config.block.any fun rule =>
    if rule.exact then rule.suffix == name else name.isSubdomainOf rule.suffix

end RecurseX
