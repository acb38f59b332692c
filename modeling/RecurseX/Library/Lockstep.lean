import RecurseX.Library.Stateful

/-!
# Two runs side by side

Two computations on states of one type, each from a state of its own. They are
alike when they give the same outcome and lead to states that are the same as
far as it matters, unless one of them fails in a state in which that cuts its run
short. A computation is quiet when nothing that matters shows of it.
-/

namespace RecurseX.Library.Stateful

variable {σ ε α β : Type}

/-- The computation failed, in a state in which that cuts the run short. -/
def CutShort (cut : σ → Prop) (run : Except ε α × σ) : Prop :=
  (∃ error, run.1 = .error error) ∧ cut run.2

/-- From `state` and `twin`, two computations end alike. -/
def Alike (same : σ → σ → Prop) (cut : σ → Prop) (act other : Stateful σ ε α) (state twin : σ) :
    Prop :=
  CutShort cut (act state) ∨ CutShort cut (other twin) ∨
    (act state).1 = (other twin).1 ∧ same (act state).2 (other twin).2

/-- From `state`, nothing shows of a computation. -/
def Quiet (same : σ → σ → Prop) (cut : σ → Prop) (act : Stateful σ ε Unit) (state : σ) : Prop :=
  CutShort cut (act state) ∨ (act state).1 = .ok () ∧ same state (act state).2

variable {same : σ → σ → Prop} {cut : σ → Prop} {state twin : σ} {error : ε}
variable {first other : Stateful σ ε α} {next later : α → Stateful σ ε β}

/-- A run that was cut short does not go on. -/
theorem CutShort.bind (short : CutShort cut (first state)) :
    CutShort cut ((first >>= next) state) := by
  obtain ⟨⟨error, failed⟩, cuts⟩ := short
  rw [bind_of_error (run_eq failed)]
  exact ⟨⟨error, rfl⟩, cuts⟩

namespace Alike

theorem pure {value : α} (related : same state twin) :
    Alike same cut (pure value : Stateful σ ε α) (pure value) state twin :=
  .inr (.inr ⟨rfl, related⟩)

theorem fail (related : same state twin) :
    Alike same cut (fail error : Stateful σ ε α) (fail error) state twin :=
  .inr (.inr ⟨rfl, related⟩)

theorem lift {computed : Except ε α} (related : same state twin) :
    Alike same cut (lift computed) (lift computed) state twin :=
  .inr (.inr ⟨rfl, related⟩)

theorem bind (starts : Alike same cut first other state twin)
    (goes : ∀ value middle second, first state = (.ok value, middle) → same middle second →
      Alike same cut (next value) (later value) middle second) :
    Alike same cut (first >>= next) (other >>= later) state twin := by
  rcases starts with short | short | ⟨outcomes, related⟩
  · exact .inl short.bind
  · exact .inr (.inl short.bind)
  · cases ended : (first state).1 with
    | ok value =>
        unfold Alike
        rw [bind_of_ok (run_eq ended), bind_of_ok (run_eq (outcomes.symm.trans ended))]
        exact goes value _ _ (run_eq ended) related
    | error error =>
        refine .inr (.inr ?_)
        rw [bind_of_error (run_eq ended), bind_of_error (run_eq (outcomes.symm.trans ended))]
        exact ⟨rfl, related⟩

theorem read_bind {next later : σ → Stateful σ ε β}
    (goes : Alike same cut (next state) (later twin) state twin) :
    Alike same cut (read >>= next) (read >>= later) state twin := goes

theorem update {change alter : σ → σ} (related : same (change state) (alter twin)) :
    Alike same cut (update change : Stateful σ ε Unit) (update alter) state twin :=
  .inr (.inr ⟨rfl, related⟩)

theorem update_bind {change alter : σ → σ} {next later : Unit → Stateful σ ε β}
    (goes : Alike same cut (next ()) (later ()) (change state) (alter twin)) :
    Alike same cut (Stateful.update change >>= next) (Stateful.update alter >>= later) state twin :=
  goes

theorem lift_bind {computed : Except ε α} (related : same state twin)
    (goes : ∀ value, computed = .ok value →
      Alike same cut (next value) (later value) state twin) :
    Alike same cut (Stateful.lift computed >>= next) (Stateful.lift computed >>= later) state twin := by
  cases computed with
  | error error => exact fail related
  | ok value => exact goes value rfl

theorem ite {condition : Prop} [Decidable condition] {no otherNo : Stateful σ ε α}
    (yes : condition → Alike same cut first other state twin)
    (not : ¬ condition → Alike same cut no otherNo state twin) :
    Alike same cut (if condition then first else no) (if condition then other else otherNo)
      state twin := by
  by_cases holds : condition
  · rw [if_pos holds, if_pos holds]
    exact yes holds
  · rw [if_neg holds, if_neg holds]
    exact not holds

theorem each {γ : Type} {act partner : γ → Stateful σ ε Unit} {items : List γ}
    (related : same state twin)
    (goes : ∀ item state twin, same state twin →
      Alike same cut (act item) (partner item) state twin) :
    Alike same cut (each act items) (each partner items) state twin := by
  induction items generalizing state twin with
  | nil => exact pure related
  | cons item items inductionHypothesis =>
      exact (goes item state twin related).bind fun _ _ _ _ related => inductionHypothesis related

end Alike

namespace Quiet

variable (equivalence : Equivalence same) {act : Stateful σ ε Unit}
include equivalence

theorem pure : Quiet same cut (pure () : Stateful σ ε Unit) state :=
  .inr ⟨rfl, equivalence.refl state⟩

theorem bind {next : Unit → Stateful σ ε Unit} (starts : Quiet same cut act state)
    (goes : ∀ middle, Quiet same cut (next ()) middle) :
    Quiet same cut (act >>= next) state := by
  rcases starts with short | ⟨ended, related⟩
  · exact .inl short.bind
  · unfold Quiet
    rw [bind_of_ok (run_eq ended)]
    rcases goes (act state).2 with short | ⟨done, kept⟩
    · exact .inl short
    · exact .inr ⟨done, equivalence.trans related kept⟩

omit equivalence in
theorem read_bind {next : σ → Stateful σ ε Unit} (goes : Quiet same cut (next state) state) :
    Quiet same cut (read >>= next) state := goes

omit equivalence in
theorem update {change : σ → σ} (related : same state (change state)) :
    Quiet same cut (update change : Stateful σ ε Unit) state :=
  .inr ⟨rfl, related⟩

theorem update_bind {change : σ → σ} {next : Unit → Stateful σ ε Unit}
    (related : same state (change state)) (goes : Quiet same cut (next ()) (change state)) :
    Quiet same cut (Stateful.update change >>= next) state := by
  rcases goes with short | ⟨done, kept⟩
  · exact .inl short
  · exact .inr ⟨done, equivalence.trans related kept⟩

theorem each {γ : Type} {act : γ → Stateful σ ε Unit} {items : List γ}
    (goes : ∀ item state, Quiet same cut (act item) state) :
    Quiet same cut (each act items) state := by
  induction items generalizing state with
  | nil => exact pure equivalence
  | cons item items inductionHypothesis =>
      exact bind equivalence (goes item state) fun _ => inductionHypothesis

/-- Two quiet computations are alike. -/
theorem alike {partner : Stateful σ ε Unit} (quiet : Quiet same cut act state)
    (still : Quiet same cut partner twin) (related : same state twin) :
    Alike same cut act partner state twin := by
  rcases quiet with short | ⟨ended, kept⟩
  · exact .inl short
  rcases still with short | ⟨done, held⟩
  · exact .inr (.inl short)
  · exact .inr (.inr ⟨ended.trans done.symm,
      equivalence.trans (equivalence.symm kept) (equivalence.trans related held)⟩)

end Quiet

end RecurseX.Library.Stateful
