import Mathlib.Analysis.Complex.Exponential
import RecurseX.Library.Discounting
import RecurseX.Risk
import RecurseX.Time

/-!
# The observable-change hazard model

Changes of an entry are a Poisson process of unknown rate. Evidence about the rate is
forgotten exponentially with the time it is old. The arithmetic is that of an ordered
field with an exponential function; floating-point rounding is not modelled.
-/

namespace RecurseX

open RecurseX.Library

/-- Tuning of a `HazardModel`: the shape of the prior and the time constant of forgetting. -/
structure HazardConfig (K : Type*) where
  priorShape : K
  forgettingSecs : K
deriving Repr, DecidableEq

/-- The per-entry observable-change model: a fixed number of scalars, no history. -/
structure HazardModel (K : Type*) where
  config : HazardConfig K
  alphaEv : K
  betaEv : K
  priorTtlSecs : K
  evidenceSecs : K
  lifetimeExposureSecs : K
  observations : Nat
  changes : Nat
  failures : Nat
  consecutiveFailures : Nat
  ttlEwma : K
  ttlVolatility : K
  lastObservation : Ts
  lastChange : Ts
deriving Repr, DecidableEq

/-- What a successful refresh reports. -/
structure Observation (K : Type*) where
  intervalSecs : K
  changed : Bool
  ttlSecs : UInt32
  now : Ts
  trust : K
deriving Repr, DecidableEq

namespace HazardModel

variable {K : Type*} [Field K] [LinearOrder K]

/-- A model with no evidence, anchored to an authoritative TTL. -/
def new (config : HazardConfig K) (ttlSecs : UInt32) (now : Ts) : HazardModel K :=
  let t : K := (max ttlSecs.toNat 1 : Nat)
  { config, alphaEv := 0, betaEv := 0, priorTtlSecs := t, evidenceSecs := 0,
    lifetimeExposureSecs := 0, observations := 0, changes := 0, failures := 0,
    consecutiveFailures := 0, ttlEwma := t, ttlVolatility := 0, lastObservation := now,
    lastChange := now }

/-- The current posterior `(α, β)`; the prior shape is floored away from zero. -/
def posterior (self : HazardModel K) : K × K :=
  let shape := max self.config.priorShape (1 / 10 ^ 9)
  (shape + self.alphaEv, shape * self.priorTtlSecs + self.betaEv)

/-- The forgetting factor for an interval. -/
def forgettingFactor (exp : K → K) (self : HazardModel K) (h : K) : K :=
  if self.config.forgettingSecs ≤ 0 then 1 else exp (-h / self.config.forgettingSecs)

/-- Advance the clock without recording an observation. -/
def decayTo (exp : K → K) (self : HazardModel K) (now : Ts) : HazardModel K :=
  let elapsed : K := (saturatingSub now self.lastObservation : Int) / 10 ^ 9
  if elapsed ≤ 0 then self
  else
    let gamma := self.forgettingFactor exp elapsed
    { self with
      alphaEv := self.alphaEv * gamma
      betaEv := self.betaEv * gamma
      evidenceSecs := self.evidenceSecs * gamma
      lastObservation := now }

/-- Record a failed refresh: the evidence ages, nothing is learned. -/
def observeFailure (exp : K → K) (self : HazardModel K) (now : Ts) : HazardModel K :=
  let aged := self.decayTo exp now
  { aged with
    failures := saturatingCount aged.failures
    consecutiveFailures := saturatingCount aged.consecutiveFailures }

/-- Record a successful refresh. -/
def observe (exp : K → K) (self : HazardModel K) (observation : Observation K) : HazardModel K :=
  let h := if 0 < observation.intervalSecs then observation.intervalSecs else 0
  let w := max 0 (min observation.trust 1)
  let gamma := self.forgettingFactor exp h
  let t : K := (max observation.ttlSecs.toNat 1 : Nat)
  -- The new TTL moves the anchor of the prior before the evidence is counted.
  let anchored : HazardModel K :=
    if self.observations = 0 then { self with ttlEwma := t, ttlVolatility := 0, priorTtlSecs := t }
    else
      let ttlEwma := self.ttlEwma * (8 / 10) + t * (2 / 10)
      { self with
        ttlVolatility :=
          self.ttlVolatility * (8 / 10) + max (t - self.ttlEwma) (self.ttlEwma - t) * (2 / 10)
        ttlEwma := ttlEwma
        priorTtlSecs := max ttlEwma 1 }
  let y : K := if observation.changed then 1 else 0
  -- Only the evidence is discounted; the prior is a permanent floor.
  let betaEv := anchored.betaEv * gamma + w * h
  { anchored with
    alphaEv := anchored.alphaEv * gamma + w * y
    betaEv := betaEv
    evidenceSecs := max betaEv 0
    lifetimeExposureSecs := anchored.lifetimeExposureSecs + w * h
    observations := saturatingCount anchored.observations
    changes := if observation.changed then saturatingCount anchored.changes else anchored.changes
    lastChange := if observation.changed then observation.now else anchored.lastChange
    consecutiveFailures := 0
    lastObservation := observation.now }

/-- A run of successful refreshes. -/
def observeAll (exp : K → K) (self : HazardModel K) (observations : List (Observation K)) :
    HazardModel K :=
  observations.foldl (observe exp) self

section

variable {exp : K → K} {self : HazardModel K} {observation : Observation K}

/-- The exposure that an observation is counted with. -/
theorem observe_betaEv : (self.observe exp observation).betaEv =
    discounted (self.forgettingFactor exp (max observation.intervalSecs 0))
      (max 0 (min observation.trust 1) * max observation.intervalSecs 0) self.betaEv := by
  have exposure : (if 0 < observation.intervalSecs then observation.intervalSecs else 0) =
      max observation.intervalSecs 0 := by
    split_ifs with positive
    · exact (max_eq_left positive.le).symm
    · exact (max_eq_right (not_lt.mp positive)).symm
  simp only [observe, exposure, discounted]
  split_ifs <;> rfl

@[simp] theorem observe_config : (self.observe exp observation).config = self.config := by
  simp only [observe]
  split_ifs <;> rfl

theorem observeAll_config (observations : List (Observation K)) :
    (self.observeAll exp observations).config = self.config := by
  induction observations generalizing self with
  | nil => rfl
  | cons observation observations inductionHypothesis =>
      exact inductionHypothesis.trans observe_config

end

end HazardModel

namespace Observation

/-- The observations a caller may report. -/
structure Valid (observation : Observation ℝ) : Prop where
  interval : 0 ≤ observation.intervalSecs
  trust : 0 ≤ observation.trust ∧ observation.trust ≤ 1

/-- The weighted exposure is no more than what the passing of the interval takes off the
time constant of forgetting. -/
def Fits (tau : ℝ) (self : Observation ℝ) : Prop :=
  self.trust * self.intervalSecs ≤ tau * (1 - Real.exp (-self.intervalSecs / tau))

variable {tau : ℝ} {self : Observation ℝ}

theorem exp_lt_one (positive : 0 < tau) (exposed : 0 < self.intervalSecs) :
    Real.exp (-self.intervalSecs / tau) < 1 :=
  Real.exp_lt_one_iff.mpr (div_neg_of_neg_of_pos (neg_neg_of_pos exposed) positive)

/-- No exposure at all always fits. -/
theorem Fits.of_no_exposure (unexposed : self.intervalSecs = 0) : self.Fits tau := by
  simp [Fits, unexposed]

end Observation

namespace HazardModel

variable {tau : ℝ} {self : HazardModel ℝ} {observation : Observation ℝ}

theorem observe_betaEv_of_valid (positive : 0 < self.config.forgettingSecs)
    (valid : observation.Valid) :
    (self.observe Real.exp observation).betaEv =
      discounted (Real.exp (-observation.intervalSecs / self.config.forgettingSecs))
        (observation.trust * observation.intervalSecs) self.betaEv := by
  rw [observe_betaEv, max_eq_left valid.interval, min_eq_left valid.trust.2,
    max_eq_right valid.trust.1, forgettingFactor, if_neg (not_le.mpr positive)]

/-- An observation that fits keeps the ceiling. -/
theorem observe_betaEv_le (positive : 0 < self.config.forgettingSecs) (valid : observation.Valid)
    (fits : observation.Fits self.config.forgettingSecs)
    (below : self.betaEv ≤ self.config.forgettingSecs) :
    (self.observe Real.exp observation).betaEv ≤ self.config.forgettingSecs := by
  rw [observe_betaEv_of_valid positive valid]
  exact discounted_le (Real.exp_pos _).le fits below

/-- Observations that fit keep the ceiling, however many there are. -/
theorem observeAll_betaEv_le (positive : 0 < self.config.forgettingSecs)
    (below : self.betaEv ≤ self.config.forgettingSecs) (observations : List (Observation ℝ))
    (fit : ∀ observation ∈ observations,
      observation.Valid ∧ observation.Fits self.config.forgettingSecs) :
    (self.observeAll Real.exp observations).betaEv ≤ self.config.forgettingSecs := by
  induction observations generalizing self with
  | nil => exact below
  | cons observation observations inductionHypothesis =>
      obtain ⟨⟨valid, fits⟩, rest⟩ := List.forall_mem_cons.mp fit
      have kept := observe_betaEv_le positive valid fits below
      have config : (self.observe Real.exp observation).config = self.config := observe_config
      rw [← config] at positive kept rest ⊢
      exact inductionHypothesis positive kept rest

/-- Under the ceiling the posterior counts no more exposure than its prior and the time constant. -/
theorem posterior_snd_le (positive : 0 < self.config.forgettingSecs)
    (below : self.betaEv ≤ self.config.forgettingSecs) (observations : List (Observation ℝ))
    (fit : ∀ observation ∈ observations,
      observation.Valid ∧ observation.Fits self.config.forgettingSecs) :
    (self.observeAll Real.exp observations).posterior.2 ≤
      max self.config.priorShape (1 / 10 ^ 9) * (self.observeAll Real.exp observations).priorTtlSecs +
        self.config.forgettingSecs := by
  rw [posterior, observeAll_config]
  exact add_le_add le_rfl (observeAll_betaEv_le positive below observations fit)

/-- The same observation over and over. -/
theorem observeAll_replicate_betaEv (positive : 0 < self.config.forgettingSecs)
    (valid : observation.Valid) (count : Nat) :
    (self.observeAll Real.exp (List.replicate count observation)).betaEv =
      (discounted (Real.exp (-observation.intervalSecs / self.config.forgettingSecs))
        (observation.trust * observation.intervalSecs))^[count] self.betaEv := by
  induction count generalizing self with
  | zero => rfl
  | succ count inductionHypothesis =>
      have config : (self.observe Real.exp observation).config = self.config := observe_config
      have later : ((self.observe Real.exp observation).observeAll Real.exp
          (List.replicate count observation)).betaEv = _ := inductionHypothesis (config ▸ positive)
      rw [observe_betaEv_of_valid positive valid, config] at later
      rw [Function.iterate_succ_apply, ← later]
      rfl

/-- An observation that does not fit passes the ceiling when it is made often enough. -/
theorem exists_observeAll_betaEv_gt (positive : 0 < self.config.forgettingSecs)
    (fresh : self.betaEv = 0) (valid : observation.Valid)
    (excess : ¬ observation.Fits self.config.forgettingSecs) :
    ∃ count : Nat, self.config.forgettingSecs <
      (self.observeAll Real.exp (List.replicate count observation)).betaEv := by
  have exposed : 0 < observation.intervalSecs :=
    lt_of_le_of_ne valid.interval fun unexposed => excess (.of_no_exposure unexposed.symm)
  obtain ⟨count, beyond⟩ := exists_iterate_discounted_gt
    (Observation.exp_lt_one positive exposed) positive.le (not_le.mp excess)
  refine ⟨count, ?_⟩
  rw [observeAll_replicate_betaEv positive valid, fresh]
  exact beyond

/-- The time constant of forgetting is a ceiling on the evidence of every run exactly
when every observation fits. -/
theorem observeAll_betaEv_le_iff (tau : ℝ) (positive : 0 < tau) (allowed : Set (Observation ℝ))
    (valid : ∀ observation ∈ allowed, observation.Valid) :
    (∀ (config : HazardConfig ℝ) (ttlSecs : UInt32) (now : Ts) (observations : List (Observation ℝ)),
      config.forgettingSecs = tau → (∀ observation ∈ observations, observation ∈ allowed) →
        ((new config ttlSecs now).observeAll Real.exp observations).betaEv ≤ tau) ↔
      ∀ observation ∈ allowed, observation.Fits tau := by
  constructor
  · intro ceiling observation chosen
    by_contra excess
    let config : HazardConfig ℝ := { priorShape := 1, forgettingSecs := tau }
    obtain ⟨count, beyond⟩ := @exists_observeAll_betaEv_gt (new config 1 0) observation positive rfl
      (valid observation chosen) excess
    refine absurd (ceiling config 1 0 _ rfl ?_) (not_le.mpr beyond)
    intro repeated listed
    exact (List.eq_of_mem_replicate listed) ▸ chosen
  · rintro fits config ttlSecs now observations rfl drawn
    exact @observeAll_betaEv_le (new config ttlSecs now) positive positive.le observations
      fun observation listed =>
        ⟨valid observation (drawn observation listed), fits observation (drawn observation listed)⟩

theorem observeAll_betaEv_le_iff_one_day :
    (∀ (config : HazardConfig ℝ) (ttlSecs : UInt32) (now : Ts) (observations : List (Observation ℝ)),
      config.forgettingSecs = 86400 →
        (∀ observation ∈ observations,
          observation ∈ { report : Observation ℝ | report.intervalSecs = 300 ∧ report.trust = 1 / 2 }) →
          ((new config ttlSecs now).observeAll Real.exp observations).betaEv ≤ 86400) ↔
      ∀ observation ∈ { report : Observation ℝ | report.intervalSecs = 300 ∧ report.trust = 1 / 2 },
        observation.Fits 86400 :=
  observeAll_betaEv_le_iff 86400 (by norm_num) _ fun _ chosen =>
    ⟨by norm_num [chosen.1], by norm_num [chosen.2]⟩

/-- Two days between refreshes, fully trusted, are two days of evidence. -/
theorem not_betaEv_le_forgettingSecs :
    ¬ ∀ (tau : ℝ) (config : HazardConfig ℝ) (ttlSecs : UInt32) (now : Ts)
      (observations : List (Observation ℝ)), 0 < tau → config.forgettingSecs = tau →
      (∀ observation ∈ observations, observation.Valid) →
        ((new config ttlSecs now).observeAll Real.exp observations).betaEv ≤ tau := by
  intro ceiling
  let config : HazardConfig ℝ := { priorShape := 1, forgettingSecs := 86400 }
  let observation : Observation ℝ :=
    { intervalSecs := 172800, changed := false, ttlSecs := 300, now := 0, trust := 1 }
  have valid : observation.Valid := ⟨by norm_num [observation], by norm_num [observation]⟩
  have below : ((new config 300 0).observe Real.exp observation).betaEv ≤ 86400 :=
    ceiling 86400 config 300 0 [observation] (by norm_num) rfl (List.forall_mem_singleton.mpr valid)
  rw [observe_betaEv_of_valid (by norm_num [new, config]) valid] at below
  norm_num [discounted, new, observation] at below

end HazardModel

end RecurseX
