import Mathlib.Algebra.Order.Group.Defs
import Mathlib.Tactic.Abel

/-!
# The potential method

Each event of a run gains something. When the rise of a potential pays for every
gain, what a whole run gains is paid by the rise of the potential over the run.
-/

namespace RecurseX.Library

variable {σ α M : Type}

/-- What the events gain, each counted in the state it fires in. -/
def totalGain [Zero M] [Add M] (step : σ → α → σ) (gain : σ → α → M) : σ → List α → M
  | _, [] => 0
  | state, event :: events => gain state event + totalGain step gain (step state event) events

/-- A potential that pays for each event pays for the run. -/
theorem totalGain_le [AddCommGroup M] [PartialOrder M] [IsOrderedAddMonoid M]
    (step : σ → α → σ) (gain : σ → α → M) (potential : σ → M) (Inv : σ → Prop)
    (kept : ∀ state event, Inv state → Inv (step state event))
    (paid : ∀ state event, Inv state →
      gain state event ≤ potential (step state event) - potential state)
    {state : σ} {events : List α} (initial : Inv state) :
    totalGain step gain state events ≤ potential (events.foldl step state) - potential state := by
  induction events generalizing state with
  | nil => simp [totalGain]
  | cons event events inductionHypothesis =>
      have first := paid state event initial
      have later := inductionHypothesis (kept state event initial)
      calc totalGain step gain state (event :: events)
          ≤ (potential (step state event) - potential state) +
              (potential (events.foldl step (step state event)) - potential (step state event)) :=
            add_le_add first later
        _ = potential ((event :: events).foldl step state) - potential state := by
            rw [List.foldl_cons]
            abel

end RecurseX.Library
