import Mathlib.Data.List.Basic

/-!
# The per-resolution resource envelope

The counters of one client query and the gate every referral passes. The gate
compares a fraction in floating point; that comparison is a field of the limits.
-/

namespace RecurseX

/-- The limits of one resolution. -/
structure FetchLimits where
  maxDelegationDepth : Nat
  maxNsNames : Nat
  maxGlueAddresses : Nat
  maxNsAddressLookups : Nat
  /-- Upstream messages a single query may cause, of all kinds. -/
  maxSubqueries : Nat
  /-- Wire bytes, sent and received, a single query may cause. -/
  maxBytes : Nat
  /-- A referral with at most this many NS names is always usable. -/
  smallReferralNs : Nat
  /-- Whether `covered` glued names out of `nsCount` are too few. -/
  insufficientGlue : (covered nsCount : Nat) → Bool

/-- The default limits. At most 13 names pass the first gate, so that the comparison with
one half is exact. -/
def FetchLimits.default : FetchLimits where
  maxDelegationDepth := 32
  maxNsNames := 13
  maxGlueAddresses := 64
  maxNsAddressLookups := 32
  maxSubqueries := 96
  maxBytes := 1048576
  smallReferralNs := 2
  insufficientGlue covered nsCount := 2 * covered < nsCount

/-- Why a referral was refused. -/
inductive ReferralRejected where
  | tooManyNs
  | insufficientGlue
deriving DecidableEq, Repr

/-- The admission decision for one referral. -/
inductive ReferralAdmission where
  | accept (nsNames glueAddresses addressLookups : Nat)
  | reject (reason : ReferralRejected)
deriving DecidableEq, Repr

/-- The work accounting of one resolution. -/
structure Work where
  delegations : Nat
  referrals : Nat
  referralsRefused : Nat
  nsNames : Nat
  glueAddresses : Nat
  nsAddressLookups : Nat
  subqueries : Nat
  bytes : Nat
deriving DecidableEq, Repr

/-- A bounded, countable work envelope for one resolution. -/
structure FetchBudget where
  limits : FetchLimits
  work : Work

namespace FetchBudget

/-- A fresh budget with the given limits. -/
def new (limits : FetchLimits) : FetchBudget := ⟨limits, 0, 0, 0, 0, 0, 0, 0, 0⟩

/-- Charge one delegation step; `none` when the depth is exhausted. -/
def spendDelegation (self : FetchBudget) : Option FetchBudget :=
  if self.limits.maxDelegationDepth ≤ self.work.delegations then none
  else some { self with work := { self.work with delegations := self.work.delegations + 1 } }

/-- Charge one upstream message. -/
def spendSubquery (self : FetchBudget) : Option FetchBudget :=
  if self.limits.maxSubqueries ≤ self.work.subqueries then none
  else some { self with work := { self.work with subqueries := self.work.subqueries + 1 } }

/-- Charge NS-address resolutions. -/
def spendNsAddressLookup (self : FetchBudget) (n : Nat) : Option FetchBudget :=
  if self.limits.maxNsAddressLookups < self.work.nsAddressLookups + n then none
  else some
    { self with work := { self.work with nsAddressLookups := self.work.nsAddressLookups + n } }

/-- Charge wire bytes, of both directions. -/
def spendBytes (self : FetchBudget) (n : Nat) : Option FetchBudget :=
  if self.limits.maxBytes < self.work.bytes + n then none
  else some { self with work := { self.work with bytes := self.work.bytes + n } }

/-- Count a refusal. -/
def refuse (self : FetchBudget) (reason : ReferralRejected) : ReferralAdmission × FetchBudget :=
  (.reject reason,
    { self with work := { self.work with referralsRefused := self.work.referralsRefused + 1 } })

/-- Decide whether a referral is usable, and at what cost. -/
def admitReferral (self : FetchBudget) (nsCount glueCount nsWithGlue : Nat) :
    ReferralAdmission × FetchBudget :=
  let self : FetchBudget :=
    { self with work := { self.work with referrals := self.work.referrals + 1 } }
  if self.limits.maxNsNames < nsCount then self.refuse .tooManyNs
  else
    let unresolved := nsCount - min nsWithGlue nsCount
    if self.limits.smallReferralNs < nsCount ∧
        self.limits.insufficientGlue (nsCount - unresolved) nsCount = true then
      self.refuse .insufficientGlue
    else
      let glue := min glueCount self.limits.maxGlueAddresses
      (.accept nsCount glue (min unresolved self.limits.maxNsAddressLookups),
        { self with work := { self.work with
          nsNames := self.work.nsNames + nsCount
          glueAddresses := self.work.glueAddresses + glue } })

/-- The budgets agree on the traffic so far and on what is allowed. -/
structure SameTraffic (left right : FetchBudget) : Prop where
  limits : right.limits = left.limits
  subqueries : right.work.subqueries = left.work.subqueries
  bytes : right.work.bytes = left.work.bytes

theorem sameTraffic_admitReferral (self : FetchBudget) (nsCount glueCount nsWithGlue : Nat) :
    self.SameTraffic (self.admitReferral nsCount glueCount nsWithGlue).2 := by
  unfold admitReferral
  dsimp only
  split_ifs <;> exact ⟨rfl, rfl, rfl⟩

theorem SameTraffic.spendDelegation {left right : FetchBudget} (same : left.SameTraffic right) :
    left.SameTraffic (right.spendDelegation.getD right) := by
  unfold FetchBudget.spendDelegation
  split_ifs
  · exact same
  · exact ⟨same.limits, same.subqueries, same.bytes⟩

theorem sameTraffic_spendNsAddressLookup (self : FetchBudget) (n : Nat) :
    self.SameTraffic ((self.spendNsAddressLookup n).getD self) := by
  unfold spendNsAddressLookup
  split_ifs <;> exact ⟨rfl, rfl, rfl⟩

/-- A message is charged only while there is room for it. -/
theorem spendSubquery_eq_some {self next : FetchBudget} (spent : self.spendSubquery = some next) :
    next.limits = self.limits ∧ next.work.bytes = self.work.bytes ∧
      next.work.subqueries = self.work.subqueries + 1 ∧
      next.work.subqueries ≤ self.limits.maxSubqueries := by
  unfold spendSubquery at spent
  split_ifs at spent with full
  obtain rfl := Option.some.inj spent
  exact ⟨rfl, rfl, rfl, Nat.not_le.mp full⟩

/-- Bytes are charged only while there is room for them. -/
theorem spendBytes_eq_some {self next : FetchBudget} {n : Nat}
    (spent : self.spendBytes n = some next) :
    next.limits = self.limits ∧ next.work.subqueries = self.work.subqueries ∧
      next.work.bytes = self.work.bytes + n ∧ next.work.bytes ≤ self.limits.maxBytes := by
  unfold spendBytes at spent
  split_ifs at spent with full
  obtain rfl := Option.some.inj spent
  exact ⟨rfl, rfl, rfl, Nat.not_lt.mp full⟩

end FetchBudget

end RecurseX
