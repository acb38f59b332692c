import Mathlib.Algebra.Order.Field.Rat
import Mathlib.Tactic.Linarith
import RecurseX.Library.Potential
import RecurseX.Library.Runs
import RecurseX.Time

/-!
# The risk ledger

A leaky bucket that is charged with the risk of each stale answer. Debts, rates
and risks are rationals where the source has floating point; a risk that is no
finite number is a value of its own.
-/

namespace RecurseX

open Library

/-- The part of the risk configuration the ledger reads. -/
structure RiskConfig where
  /-- Risk budget, in ms-equivalents of harm per second. -/
  budgetPerSec : ℚ
  /-- Bucket capacity, in the same units. -/
  budgetCapacity : ℚ
deriving DecidableEq, Repr

/-- A risk as it is computed: infinities and NaN are not finite. -/
inductive Risk where
  | finite (value : ℚ)
  | notFinite
deriving DecidableEq, Repr

/-- One more in a saturating 64-bit counter. -/
def saturatingCount (count : Nat) : Nat := min (count + 1) (2 ^ 64 - 1)

/-- The bucket holds debt, in ms-equivalents of harm. -/
structure RiskLedger where
  config : RiskConfig
  debt : ℚ
  lastUpdate : Ts
  chargedTotal : ℚ
  admitted : Nat
  refused : Nat
deriving DecidableEq, Repr

namespace RiskLedger

/-- A ledger with an empty bucket. -/
def new (config : RiskConfig) (now : Ts) : RiskLedger :=
  { config, debt := 0, lastUpdate := now, chargedTotal := 0, admitted := 0, refused := 0 }

/-- Drain the bucket up to `now`. -/
def drain (self : RiskLedger) (now : Ts) : RiskLedger :=
  let dt : ℚ := (saturatingSub now self.lastUpdate : ℚ) / 1000000000
  if dt ≤ 0 then self
  else { self with debt := max (self.debt - self.config.budgetPerSec * dt) 0, lastUpdate := now }

/-- Count a refusal. -/
def refuse (self : RiskLedger) : RiskLedger :=
  { self with refused := saturatingCount self.refused }

/-- Try to charge `risk` to the bucket. A risk that is not finite is refused
without touching the bucket. -/
def tryCharge (self : RiskLedger) (risk : Risk) (now : Ts) : RiskLedger × Bool :=
  let self := self.drain now
  match risk with
  | .notFinite => (self.refuse, false)
  | .finite value =>
      if value < 0 then (self.refuse, false)
      else if self.debt + value > self.config.budgetCapacity then (self.refuse, false)
      else
        ({ self with
            debt := self.debt + value
            chargedTotal := self.chargedTotal + value
            admitted := saturatingCount self.admitted }, true)

end RiskLedger

/-- One call of `tryCharge`. -/
structure ChargeCall where
  risk : Risk
  now : Ts
deriving DecidableEq, Repr

/-- The ledger after a call. -/
def RiskLedger.charge (self : RiskLedger) (call : ChargeCall) : RiskLedger :=
  (self.tryCharge call.risk call.now).1

/-- The ledger after a sequence of calls. -/
def RiskLedger.charges (self : RiskLedger) (calls : List ChargeCall) : RiskLedger :=
  calls.foldl RiskLedger.charge self

/-- The risk a call adds to what was admitted: its risk, unless it is refused. -/
def RiskLedger.admittedRisk (self : RiskLedger) (call : ChargeCall) : ℚ :=
  match call.risk with
  | .notFinite => 0
  | .finite value => if (self.tryCharge call.risk call.now).2 then value else 0

/-- The greatest timestamp seen so far, the ledger's own first one included. -/
def runningMaximum (start : Ts) (calls : List ChargeCall) : Ts :=
  (calls.map ChargeCall.now).foldl max start

/-- How far the running maximum gets beyond where the first call of the run left it. -/
def growth (start : Ts) (earlier run : List ChargeCall) : ℚ :=
  ((runningMaximum start (earlier ++ run) - runningMaximum start (earlier ++ run.take 1) : Ts) : ℚ) /
    1000000000

variable {self : RiskLedger} {now start : Ts}

/-- The seconds that draining counts are no more than have passed. -/
theorem saturatingSub_le {left right : Ts} (ahead : right ≤ left) :
    saturatingSub left right ≤ left - right := by
  have bottom : (-(2 ^ 127) : Ts) ≤ 0 := by norm_num
  exact max_le (bottom.trans (sub_nonneg.mpr ahead)) (min_le_right _ _)

theorem saturatingSub_pos {left right : Ts} : 0 < saturatingSub left right ↔ right < left := by
  have bottom : ¬ (0 : Ts) < -(2 ^ 127) := by norm_num
  have top : (0 : Ts) < 2 ^ 127 - 1 := by norm_num
  rw [saturatingSub, lt_max_iff, lt_min_iff]
  exact ⟨fun positive => sub_pos.mp (positive.resolve_left bottom).2,
    fun ahead => .inr ⟨top, sub_pos.mpr ahead⟩⟩

/-- A timestamp that is not ahead drains nothing. -/
theorem drain_of_le (behind : now ≤ self.lastUpdate) : self.drain now = self := by
  have none : saturatingSub now self.lastUpdate ≤ 0 :=
    not_lt.mp (mt saturatingSub_pos.mp (not_lt.mpr behind))
  refine if_pos (div_nonpos_of_nonpos_of_nonneg ?_ (by norm_num))
  exact_mod_cast none

/-- What draining does when time has passed. -/
theorem drain_of_lt (ahead : self.lastUpdate < now) :
    ∃ dt : ℚ, 0 < dt ∧ dt ≤ ((now - self.lastUpdate : Ts) : ℚ) / 1000000000 ∧
      self.drain now =
        { self with debt := max (self.debt - self.config.budgetPerSec * dt) 0, lastUpdate := now } := by
  have some : (0 : ℚ) < saturatingSub now self.lastUpdate := by
    exact_mod_cast saturatingSub_pos.mpr ahead
  have positive : (0 : ℚ) < saturatingSub now self.lastUpdate / 1000000000 :=
    div_pos some (by norm_num)
  refine ⟨_, positive, ?_, if_neg (not_le.mpr positive)⟩
  have bounded : (saturatingSub now self.lastUpdate : ℚ) ≤ ((now - self.lastUpdate : Ts) : ℚ) := by
    exact_mod_cast saturatingSub_le ahead.le
  linarith

/-- A call refuses, and then it has only drained, or charges what fits. -/
theorem tryCharge_cases (self : RiskLedger) (risk : Risk) (now : Ts) :
    self.tryCharge risk now = ((self.drain now).refuse, false) ∨
      ∃ value, risk = .finite value ∧ 0 ≤ value ∧
        (self.drain now).debt + value ≤ (self.drain now).config.budgetCapacity ∧
        self.tryCharge risk now =
          ({ self.drain now with
              debt := (self.drain now).debt + value
              chargedTotal := (self.drain now).chargedTotal + value
              admitted := saturatingCount (self.drain now).admitted }, true) := by
  cases risk with
  | notFinite => exact .inl rfl
  | finite value =>
      by_cases negative : value < 0
      · exact .inl (if_pos negative)
      by_cases exceeds : (self.drain now).debt + value > (self.drain now).config.budgetCapacity
      · exact .inl ((if_neg negative).trans (if_pos exceeds))
      · exact .inr ⟨value, rfl, not_lt.mp negative, not_lt.mp exceeds,
          (if_neg negative).trans (if_neg exceeds)⟩

/-- What every ledger keeps: the debt within the capacity. -/
structure RiskLedger.Sound (config : RiskConfig) (ledger : RiskLedger) : Prop where
  config_eq : ledger.config = config
  debt_nonneg : 0 ≤ ledger.debt
  debt_le : ledger.debt ≤ config.budgetCapacity

/-- The debt together with what could have drained up to the last update. -/
def RiskLedger.potential (self : RiskLedger) : ℚ :=
  self.debt + self.config.budgetPerSec * ((self.lastUpdate : ℚ) / 1000000000)

variable {config : RiskConfig}

theorem sound_new (capacity : 0 ≤ config.budgetCapacity) :
    (RiskLedger.new config start).Sound config :=
  ⟨rfl, le_rfl, capacity⟩

/-- Draining keeps the ledger sound and moves its clock to the running maximum; the
potential does not fall. -/
theorem drain_spec (sound : self.Sound config) (rate : 0 ≤ config.budgetPerSec) (now : Ts) :
    (self.drain now).Sound config ∧ (self.drain now).lastUpdate = max self.lastUpdate now ∧
      self.potential ≤ (self.drain now).potential := by
  obtain behind | ahead := le_or_gt now self.lastUpdate
  · rw [drain_of_le behind]
    exact ⟨sound, (max_eq_left behind).symm, le_rfl⟩
  obtain ⟨dt, positive, bounded, drained⟩ := drain_of_lt ahead
  obtain ⟨configured, nonneg, within⟩ := sound
  have leak : 0 ≤ self.config.budgetPerSec * dt := by
    rw [configured]
    exact mul_nonneg rate positive.le
  rw [drained]
  refine ⟨⟨configured, le_max_right _ _, max_le (by linarith) (nonneg.trans within)⟩,
    (max_eq_right ahead.le).symm, ?_⟩
  have passed : self.config.budgetPerSec * dt ≤
      self.config.budgetPerSec * (((now - self.lastUpdate : Ts) : ℚ) / 1000000000) :=
    mul_le_mul_of_nonneg_left bounded (configured ▸ rate)
  have left : self.debt - self.config.budgetPerSec * dt ≤
      max (self.debt - self.config.budgetPerSec * dt) 0 := le_max_left _ _
  rw [Int.cast_sub, sub_div, mul_sub] at passed
  unfold RiskLedger.potential
  dsimp only
  linarith

/-- A call keeps the ledger sound and its clock at the running maximum; what it admits is part of
the debt, and the rise of the potential pays for it. -/
theorem charge_spec (sound : self.Sound config) (rate : 0 ≤ config.budgetPerSec)
    (call : ChargeCall) :
    (self.charge call).Sound config ∧
      (self.charge call).lastUpdate = max self.lastUpdate call.now ∧
      self.admittedRisk call ≤ (self.charge call).debt ∧
      self.admittedRisk call ≤ (self.charge call).potential - self.potential := by
  obtain ⟨drained, clock, kept⟩ := drain_spec sound rate call.now
  obtain refused | ⟨value, isFinite, nonneg, fits, charged⟩ :=
    tryCharge_cases self call.risk call.now
  · have nothing : self.admittedRisk call = 0 := by
      rw [RiskLedger.admittedRisk, refused]
      cases call.risk <;> rfl
    rw [nothing, RiskLedger.charge, refused]
    exact ⟨⟨drained.config_eq, drained.debt_nonneg, drained.debt_le⟩, clock, drained.debt_nonneg,
      sub_nonneg.mpr kept⟩
  · have all : self.admittedRisk call = value := by
      rw [RiskLedger.admittedRisk, charged, isFinite]
      rfl
    rw [all, RiskLedger.charge, charged]
    rw [drained.config_eq] at fits
    refine ⟨⟨drained.config_eq, add_nonneg drained.debt_nonneg nonneg, fits⟩, clock,
      le_add_of_nonneg_left drained.debt_nonneg, ?_⟩
    unfold RiskLedger.potential at kept ⊢
    dsimp only
    linarith

/-- After any calls the ledger is sound. -/
theorem charges_sound (sound : self.Sound config) (rate : 0 ≤ config.budgetPerSec)
    (calls : List ChargeCall) : (self.charges calls).Sound config :=
  foldl_invariant RiskLedger.charge (·.Sound config)
    (fun _ call sound => (charge_spec sound rate call).1) sound

theorem charges_append (self : RiskLedger) (earlier later : List ChargeCall) :
    self.charges (earlier ++ later) = (self.charges earlier).charges later :=
  List.foldl_append

/-- The ledger's clock is the running maximum of the timestamps. -/
theorem lastUpdate_charges (sound : self.Sound config) (rate : 0 ≤ config.budgetPerSec)
    (calls : List ChargeCall) :
    (self.charges calls).lastUpdate = runningMaximum self.lastUpdate calls := by
  induction calls generalizing self with
  | nil => rfl
  | cons call calls inductionHypothesis =>
      obtain ⟨kept, clock, -⟩ := charge_spec sound rate call
      rw [runningMaximum, List.map_cons, List.foldl_cons, ← clock]
      exact inductionHypothesis kept

/-- The risk a run of calls admits, from the ledger it starts on. -/
def RiskLedger.admittedRisks (self : RiskLedger) (run : List ChargeCall) : ℚ :=
  totalGain RiskLedger.charge RiskLedger.admittedRisk self run

/-- A run admits no more than the potential rises. -/
theorem admittedRisks_le (sound : self.Sound config) (rate : 0 ≤ config.budgetPerSec)
    (run : List ChargeCall) :
    self.admittedRisks run ≤ (self.charges run).potential - self.potential :=
  totalGain_le RiskLedger.charge RiskLedger.admittedRisk RiskLedger.potential (·.Sound config)
    (fun _ call sound => (charge_spec sound rate call).1)
    (fun _ call sound => (charge_spec sound rate call).2.2.2) sound

/-- A run that begins with a call admits no more than the capacity and what drains after it. -/
theorem admittedRisks_cons_le (sound : self.Sound config) (rate : 0 ≤ config.budgetPerSec)
    (first : ChargeCall) (rest : List ChargeCall) :
    self.admittedRisks (first :: rest) ≤
      config.budgetCapacity + config.budgetPerSec *
        ((((self.charges (first :: rest)).lastUpdate - (self.charge first).lastUpdate : Ts) : ℚ) /
          1000000000) := by
  obtain ⟨afterFirst, -, owed, -⟩ := charge_spec sound rate first
  have later := admittedRisks_le afterFirst rate rest
  have final := charges_sound afterFirst rate rest
  have split : self.admittedRisks (first :: rest) =
      self.admittedRisk first + (self.charge first).admittedRisks rest := rfl
  have same : self.charges (first :: rest) = (self.charge first).charges rest := rfl
  unfold RiskLedger.potential at later
  rw [final.config_eq, afterFirst.config_eq] at later
  have within := final.debt_le
  rw [split, same, Int.cast_sub, sub_div, mul_sub]
  linarith

/-- **The risk bound.** Whatever calls a fresh ledger has seen, its debt is within the capacity;
the risks admitted by any run of calls are at most the capacity and what the growth of the
running maximum drains; a timestamp that is not ahead of that maximum drains nothing; and a
refused call leaves the debt as draining leaves it. -/
theorem ledger_bounds_aggregate_risk (config : RiskConfig) (capacity : 0 ≤ config.budgetCapacity)
    (rate : 0 ≤ config.budgetPerSec) (start : Ts) (earlier run : List ChargeCall) :
    let before := (RiskLedger.new config start).charges earlier
    let after := before.charges run
    0 ≤ after.debt ∧ after.debt ≤ config.budgetCapacity ∧
      before.admittedRisks run ≤
        config.budgetCapacity + config.budgetPerSec * growth start earlier run ∧
      (∀ now, now ≤ runningMaximum start (earlier ++ run) → (after.drain now).debt = after.debt) ∧
      ∀ risk now, (after.tryCharge risk now).2 = false →
        (after.tryCharge risk now).1.debt = (after.drain now).debt := by
  intro before after
  have fresh : (RiskLedger.new config start).Sound config := sound_new capacity
  have clock (calls : List ChargeCall) :
      ((RiskLedger.new config start).charges calls).lastUpdate = runningMaximum start calls :=
    lastUpdate_charges fresh rate calls
  have whole : after = (RiskLedger.new config start).charges (earlier ++ run) :=
    (charges_append _ _ _).symm
  have sound : after.Sound config := whole ▸ charges_sound fresh rate _
  refine ⟨sound.debt_nonneg, sound.debt_le, ?_, ?_, ?_⟩
  · cases run with
    | nil =>
        have nothing : growth start earlier [] = 0 := by simp [growth]
        rw [nothing, mul_zero, add_zero]
        exact capacity
    | cons first rest =>
        have bound := admittedRisks_cons_le (charges_sound fresh rate earlier) rate first rest
        rw [growth, ← clock, ← clock, charges_append, charges_append]
        exact bound
  · intro now behind
    rw [← clock, ← whole] at behind
    rw [drain_of_le behind]
  · intro risk now refusal
    obtain refused | ⟨value, -, -, -, charged⟩ := tryCharge_cases after risk now
    · rw [refused]
      rfl
    · rw [charged] at refusal
      cases refusal

/-- A burst and a call after one second, on a bucket of ten that drains one a second. -/
theorem ledger_bounds_aggregate_risk_burst :
    ((RiskLedger.new ⟨1, 10⟩ 0).charges [⟨.finite 8, 0⟩]).admittedRisks
        [⟨.finite 3, 0⟩, ⟨.finite 3, 1000000000⟩] ≤ 10 + 1 := by
  have bound := (ledger_bounds_aggregate_risk ⟨1, 10⟩ (by norm_num) (by norm_num) 0 [⟨.finite 8, 0⟩]
    [⟨.finite 3, 0⟩, ⟨.finite 3, 1000000000⟩]).2.2.1
  have second : growth 0 [⟨.finite 8, 0⟩] [⟨.finite 3, 0⟩, ⟨.finite 3, 1000000000⟩] = 1 := by
    norm_num [growth, runningMaximum]
  rwa [second, mul_one] at bound

end RecurseX
