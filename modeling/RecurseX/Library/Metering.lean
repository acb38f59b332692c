import Mathlib.Algebra.Order.Ring.Defs
import Mathlib.Tactic.Linarith
import RecurseX.Library.Potential
import RecurseX.Library.Runs

/-!
# Metering

A meter holds a level. Each call first refills it, up to a capacity and no faster
than a rate, and then grants no more than is there. Its clock is the greatest time it
has seen, so a clock that stands still or steps back refills nothing. Whatever the
calls ask for, a run of them is granted no more than the capacity and what is refilled
after its first call.
-/

namespace RecurseX.Library

variable {σ α K : Type}

/-- What a meter is made of, as read from a state and a call. -/
structure Meter (σ α K : Type) where
  capacity : K
  rate : K
  level : σ → K
  clock : σ → K
  time : α → K
  /-- The level a call finds once it has refilled. -/
  refilled : σ → α → K
  grant : σ → α → K
  step : σ → α → σ

/-- The greatest time seen so far. -/
def latest [Max K] (start : K) (times : List K) : K := times.foldl max start

namespace Meter

/-- The meter after a sequence of calls. -/
def run (meter : Meter σ α K) (state : σ) (calls : List α) : σ := calls.foldl meter.step state

/-- What a sequence of calls is granted. -/
def granted [Zero K] [Add K] (meter : Meter σ α K) (state : σ) (calls : List α) : K :=
  totalGain meter.step meter.grant state calls

/-- How far the greatest time gets in a run beyond where the first call of the run leaves it. -/
def growth [Max K] [Sub K] (meter : Meter σ α K) (start : K) (earlier run : List α) : K :=
  latest start ((earlier ++ run).map meter.time) -
    latest start ((earlier ++ run.take 1).map meter.time)

variable {meter : Meter σ α K} {Inv : σ → Prop} {state : σ}

theorem run_append (state : σ) (earlier later : List α) :
    meter.run state (earlier ++ later) = meter.run (meter.run state earlier) later :=
  List.foldl_append

variable [CommRing K] [LinearOrder K]

/-- What each call does in a state that keeps the invariant. -/
structure Regular (meter : Meter σ α K) (Inv : σ → Prop) : Prop where
  kept : ∀ state call, Inv state → Inv (meter.step state call)
  nonneg : ∀ state, Inv state → 0 ≤ meter.level state
  clocked : ∀ state call, Inv state →
    meter.clock (meter.step state call) = max (meter.clock state) (meter.time call)
  capped : ∀ state call, Inv state → meter.refilled state call ≤ meter.capacity
  paced : ∀ state call, Inv state → meter.refilled state call ≤ meter.level state +
    meter.rate * (max (meter.clock state) (meter.time call) - meter.clock state)
  spent : ∀ state call, Inv state →
    meter.grant state call + meter.level (meter.step state call) = meter.refilled state call

theorem Regular.inv_run (regular : meter.Regular Inv) (initial : Inv state) (calls : List α) :
    Inv (meter.run state calls) :=
  foldl_invariant meter.step Inv regular.kept initial

/-- The clock of a meter is the greatest time it has seen. -/
theorem Regular.clock_run (regular : meter.Regular Inv) (initial : Inv state) (calls : List α) :
    meter.clock (meter.run state calls) = latest (meter.clock state) (calls.map meter.time) := by
  induction calls generalizing state with
  | nil => rfl
  | cons call calls inductionHypothesis =>
      rw [List.map_cons, latest, List.foldl_cons, ← regular.clocked state call initial]
      exact inductionHypothesis (regular.kept state call initial)

variable [IsStrictOrderedRing K]

/-- What has been refilled and is not there any more was granted. -/
theorem Regular.granted_le (regular : meter.Regular Inv) (initial : Inv state) (calls : List α) :
    meter.granted state calls ≤ meter.level state - meter.level (meter.run state calls) +
      meter.rate * (meter.clock (meter.run state calls) - meter.clock state) := by
  let potential := fun state => meter.rate * meter.clock state - meter.level state
  have paid (state : σ) (call : α) (inv : Inv state) :
      meter.grant state call ≤ potential (meter.step state call) - potential state := by
    have paced := regular.paced state call inv
    have spent := regular.spent state call inv
    rw [← regular.clocked state call inv] at paced
    linarith
  have bound : meter.granted state calls ≤
      potential (meter.run state calls) - potential state :=
    totalGain_le meter.step meter.grant potential Inv regular.kept paid initial
  linarith

/-- A run that begins with a call is granted the capacity and what is refilled after it. -/
theorem Regular.granted_cons_le (regular : meter.Regular Inv) (initial : Inv state) (call : α)
    (calls : List α) : meter.granted state (call :: calls) ≤ meter.capacity + meter.rate *
      (meter.clock (meter.run state (call :: calls)) - meter.clock (meter.step state call)) := by
  have afterFirst := regular.kept state call initial
  have later := regular.granted_le afterFirst calls
  have spent := regular.spent state call initial
  have capped := regular.capped state call initial
  have left := regular.nonneg _ (regular.inv_run afterFirst calls)
  have split : meter.granted state (call :: calls) =
      meter.grant state call + meter.granted (meter.step state call) calls := rfl
  have same : meter.run state (call :: calls) = meter.run (meter.step state call) calls := rfl
  rw [split, same]
  linarith

/-- **A meter mints nothing.** Whatever calls came before, a run of calls is granted no more than the
capacity and the rate over what the greatest time gains in the run. -/
theorem Regular.granted_window_le (regular : meter.Regular Inv) (initial : Inv state)
    (filled : 0 ≤ meter.capacity) (earlier run : List α) :
    meter.granted (meter.run state earlier) run ≤
      meter.capacity + meter.rate * meter.growth (meter.clock state) earlier run := by
  unfold growth
  cases run with
  | nil =>
      rw [List.take_nil, sub_self, mul_zero, add_zero]
      exact filled
  | cons call calls =>
      have bound := regular.granted_cons_le (regular.inv_run initial earlier) call calls
      have first : meter.step (meter.run state earlier) call = meter.run state (earlier ++ [call]) :=
        (run_append state earlier [call]).symm
      rw [first, ← run_append, regular.clock_run initial, regular.clock_run initial] at bound
      exact bound

end Meter

end RecurseX.Library
