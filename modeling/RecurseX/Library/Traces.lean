import RecurseX.Library.Stateful

/-!
# The calls a computation makes

A computation on a state makes calls, and what it does between them is quiet. `Traced` says
which calls take it from one state to another, each with the state that it was made in.
-/

namespace RecurseX.Library

variable {σ κ : Type} {quiet : σ → σ → Prop} {call : κ → σ → σ → Prop}

/-- The state goes from one to another by the listed calls, in their order, with nothing but
quiet changes around them. -/
inductive Traced (quiet : σ → σ → Prop) (call : κ → σ → σ → Prop) : σ → List (σ × κ) → σ → Prop where
  | refl (state : σ) : Traced quiet call state [] state
  | quiet {first middle last : σ} {calls : List (σ × κ)}
      (prior : Traced quiet call first calls middle) (unheard : quiet middle last) :
      Traced quiet call first calls last
  | call {first middle last : σ} {calls : List (σ × κ)} {made : κ}
      (prior : Traced quiet call first calls middle) (called : call made middle last) :
      Traced quiet call first (calls ++ [(middle, made)]) last

namespace Traced

theorem append {first middle last : σ} {calls later : List (σ × κ)}
    (before : Traced quiet call first calls middle) (after : Traced quiet call middle later last) :
    Traced quiet call first (calls ++ later) last := by
  induction after with
  | refl => simpa using before
  | quiet _ unheard inductionHypothesis => exact inductionHypothesis.quiet unheard
  | call _ called inductionHypothesis =>
      rw [← List.append_assoc]
      exact inductionHypothesis.call called

/-- What quiet changes keep, and calls of a kind keep, a trace of such calls keeps. -/
theorem invariant {Inv : σ → Prop} {Proper : σ × κ → Prop}
    (calm : ∀ {before after}, quiet before after → Inv before → Inv after)
    (kept : ∀ {before after made}, call made before after → Proper (before, made) → Inv before →
      Inv after)
    {first last : σ} {calls : List (σ × κ)} (traced : Traced quiet call first calls last)
    (proper : ∀ made ∈ calls, Proper made) (initial : Inv first) : Inv last := by
  induction traced with
  | refl => exact initial
  | quiet _ unheard inductionHypothesis => exact calm unheard (inductionHypothesis proper)
  | call _ called inductionHypothesis =>
      obtain ⟨earlier, last⟩ := List.forall_mem_append.mp proper
      exact kept called (last _ List.mem_cons_self) (inductionHypothesis earlier)

end Traced

/-- A trace whose calls are all of a kind. -/
def Calls (quiet : σ → σ → Prop) (call : κ → σ → σ → Prop) (Proper : σ × κ → Prop)
    (before after : σ) : Prop :=
  ∃ calls, Traced quiet call before calls after ∧ ∀ made ∈ calls, Proper made

variable {Proper : σ × κ → Prop}

theorem calls_sequential :
    Stateful.Sequential (Calls quiet call Proper) (Calls quiet call Proper) where
  refl state := ⟨[], .refl state, by simp⟩
  trans := by
    rintro first middle last ⟨calls, before, proper⟩ ⟨later, after, proper'⟩
    exact ⟨calls ++ later, before.append after, List.forall_mem_append.mpr ⟨proper, proper'⟩⟩
  stop state := ⟨[], .refl state, by simp⟩
  fails := by
    rintro first middle last ⟨calls, before, proper⟩ ⟨later, after, proper'⟩
    exact ⟨calls ++ later, before.append after, List.forall_mem_append.mpr ⟨proper, proper'⟩⟩

theorem Calls.of_quiet {before after : σ} (unheard : quiet before after) :
    Calls quiet call Proper before after :=
  ⟨[], (Traced.refl before).quiet unheard, by simp⟩

theorem Calls.of_call {before after : σ} {made : κ} (called : call made before after)
    (proper : Proper (before, made)) : Calls quiet call Proper before after :=
  ⟨[(before, made)], (Traced.refl before).call called, by simpa using proper⟩

end RecurseX.Library
