import RecurseX.Name.Basic

/-!
# Domain patterns

The Clash-style patterns every filter and rule table matches names against.
-/

namespace RecurseX

open Library

/-- A pattern with a `*` in a non-leading position; a label `none` is a `*`. -/
structure WildcardPattern where
  labels : List (Option Bytes)
  leadingWildcard : Bool
deriving DecidableEq, Repr

/-- A Clash-style domain pattern. -/
inductive DomainPattern where
  | any
  | exact (name : Name)
  | subtree (name : Name)
  | wildcard (pattern : WildcardPattern)
deriving DecidableEq, Repr

/-- Label-by-label comparison; a `*` matches exactly one label. -/
def WildcardPattern.matchesLabels (candidate : List Bytes) (pattern : List (Option Bytes)) : Bool :=
  (candidate.zip pattern).all fun (label, expected) =>
    match expected with
    | none => true
    | some literal => literal == label

/-- Whether `name` matches. -/
def WildcardPattern.matches (self : WildcardPattern) (name : Name) : Bool :=
  let labels := name.labels
  if self.leadingWildcard then
    -- The leading `*` absorbs whatever comes before the tail, zero labels included.
    if self.labels.length ≤ labels.length then
      matchesLabels (labels.drop (labels.length - self.labels.length)) self.labels
    else false
  else if labels.length ≠ self.labels.length then false
  else matchesLabels labels self.labels

/-- Whether `name` matches this pattern. -/
def DomainPattern.matches (self : DomainPattern) (name : Name) : Bool :=
  match self with
  | .any => true
  | .exact other => name == other
  | .subtree other => name.isSubdomainOf other
  | .wildcard pattern => pattern.matches name

/-- The number of labels in the pattern. A leading wildcard counts as one. -/
def WildcardPattern.labelCount (self : WildcardPattern) : Nat :=
  self.labels.length + self.leadingWildcard.toNat

/-- The number of labels this pattern is anchored on. -/
def DomainPattern.labelCount (self : DomainPattern) : Nat :=
  match self with
  | .any => 0
  | .exact name => name.labelCount
  | .subtree name => name.labelCount
  | .wildcard pattern => pattern.labelCount

/-- Whether this pattern names exactly one name. -/
def DomainPattern.isExact (self : DomainPattern) : Bool :=
  match self with
  | .exact _ => true
  | _ => false

end RecurseX
