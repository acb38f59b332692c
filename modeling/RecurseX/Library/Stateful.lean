import RecurseX.Library.Fallible

/-!
# Fallible computations on a state

A computation changes the state step by step and may fail on the way; what it
changed before it failed stays changed. `Moves` says how a computation takes the
state along, apart for the way it ends.
-/

namespace RecurseX.Library

/-- A computation on states of type `σ` that keeps its changes when it fails. -/
def Stateful (σ ε α : Type) : Type := σ → Except ε α × σ

namespace Stateful

variable {σ τ ε α β : Type}

/-- Go on with the value and the state that are there. -/
def andThen (first : Stateful σ ε α) (next : α → Stateful σ ε β) : Stateful σ ε β := fun state =>
  match first state with
  | (.ok value, state) => next value state
  | (.error error, state) => (.error error, state)

instance : Monad (Stateful σ ε) where
  pure value := fun state => (.ok value, state)
  bind := andThen

/-- Fail, and leave the state as it is. -/
def fail (error : ε) : Stateful σ ε α := fun state => (.error error, state)

/-- A computation that does not look at the state. -/
def lift (result : Except ε α) : Stateful σ ε α := fun state => (result, state)

/-- The state as it is. -/
def read : Stateful σ ε σ := fun state => (.ok state, state)

/-- Change the state. -/
def update (change : σ → σ) : Stateful σ ε Unit := fun state => (.ok (), change state)

/-- A computation on a part of the state. -/
def within (part : σ → τ) (put : τ → σ → σ) (inner : Stateful τ ε α) : Stateful σ ε α := fun state =>
  ((inner (part state)).1, put (inner (part state)).2 state)

/-- Go on whether the computation fails or not. -/
def attempt (act : Stateful σ ε Unit) : Stateful σ ε Unit := fun state => (.ok (), (act state).2)

/-- One computation after the other, as long as they end well. -/
def each (act : β → Stateful σ ε Unit) : List β → Stateful σ ε Unit
  | [] => pure ()
  | item :: items => do
      act item
      each act items

/-! ## Running -/

@[simp] theorem pure_run (value : α) (state : σ) :
    (pure value : Stateful σ ε α) state = (.ok value, state) := rfl

@[simp] theorem fail_run (error : ε) (state : σ) :
    (fail error : Stateful σ ε α) state = (.error error, state) := rfl

@[simp] theorem lift_run (result : Except ε α) (state : σ) : lift result state = (result, state) :=
  rfl

@[simp] theorem read_run (state : σ) : (read : Stateful σ ε σ) state = (.ok state, state) := rfl

@[simp] theorem update_run (change : σ → σ) (state : σ) :
    (update change : Stateful σ ε Unit) state = (.ok (), change state) := rfl

@[simp] theorem within_run (part : σ → τ) (put : τ → σ → σ) (inner : Stateful τ ε α) (state : σ) :
    within part put inner state = ((inner (part state)).1, put (inner (part state)).2 state) := rfl

@[simp] theorem attempt_run (act : Stateful σ ε Unit) (state : σ) :
    attempt act state = (.ok (), (act state).2) := rfl

theorem run_eq {act : Stateful σ ε α} {state : σ} {outcome : Except ε α}
    (ran : (act state).1 = outcome) : act state = (outcome, (act state).2) :=
  Prod.ext ran rfl

variable {first : Stateful σ ε α} {next : α → Stateful σ ε β} {state middle last : σ}
variable {value : α} {result : β} {error : ε}

theorem bind_of_ok (ran : first state = (.ok value, middle)) :
    (first >>= next) state = next value middle := by
  show andThen first next state = _
  rw [andThen, ran]

theorem bind_of_error (ran : first state = (.error error, middle)) :
    (first >>= next) state = (.error error, middle) := by
  show andThen first next state = _
  rw [andThen, ran]

@[simp] theorem pure_bind_run : ((pure value : Stateful σ ε α) >>= next) state = next value state :=
  rfl

@[simp] theorem read_bind_run {next : σ → Stateful σ ε β} :
    ((read : Stateful σ ε σ) >>= next) state = next state state := rfl

@[simp] theorem update_bind_run {change : σ → σ} {next : Unit → Stateful σ ε β} :
    ((update change : Stateful σ ε Unit) >>= next) state = next () (change state) := rfl

@[simp] theorem fail_bind_run :
    ((fail error : Stateful σ ε α) >>= next) state = (.error error, state) := rfl

@[simp] theorem lift_ok_bind_run :
    ((lift (.ok value) : Stateful σ ε α) >>= next) state = next value state := rfl

@[simp] theorem lift_error_bind_run :
    ((lift (.error error) : Stateful σ ε α) >>= next) state = (.error error, state) := rfl

/-- What follows matters where it is reached. -/
theorem bind_congr_run {other : α → Stateful σ ε β}
    (same : ∀ value middle, first state = (.ok value, middle) →
      next value middle = other value middle) :
    (first >>= next) state = (first >>= other) state := by
  rcases ran : first state with ⟨outcome, middle⟩
  cases outcome with
  | ok value => rw [bind_of_ok ran, bind_of_ok ran, same value middle ran]
  | error error => rw [bind_of_error ran, bind_of_error ran]

/-- Two computations that agree go on alike. -/
theorem bind_run_eq {other : Stateful σ ε α} (ran : first state = other middle) :
    (first >>= next) state = (other >>= next) middle := by
  show andThen first next state = andThen other next middle
  rw [andThen, andThen, ran]

theorem bind_assoc_run {γ : Type} {further : β → Stateful σ ε γ} :
    (first >>= next >>= further) state = (first >>= fun value => next value >>= further) state := by
  rcases ran : first state with ⟨outcome, middle⟩
  cases outcome with
  | ok value => rw [bind_of_ok ran, bind_run_eq (bind_of_ok ran)]
  | error error => rw [bind_of_error ran, bind_of_error (bind_of_error ran)]

theorem bind_pure_unit_run {act : Stateful σ ε Unit} :
    (act >>= fun _ => pure ()) state = act state := by
  rcases ran : act state with ⟨outcome, middle⟩
  cases outcome with
  | ok value => exact bind_of_ok ran
  | error error => exact bind_of_error ran

/-- What is made of a result leaves the state as it is. -/
theorem bind_pure_after {result : α → β} :
    ((first >>= fun value => pure (result value)) state).2 = (first state).2 := by
  rcases ran : first state with ⟨outcome, middle⟩
  cases outcome with
  | ok value => rw [bind_of_ok ran, pure_run]
  | error error => rw [bind_of_error ran]

/-- A sequence ends well exactly when both of its parts do. -/
theorem bind_eq_ok_iff :
    (first >>= next) state = (.ok result, last) ↔
      ∃ value middle, first state = (.ok value, middle) ∧
        next value middle = (.ok result, last) := by
  rcases ran : first state with ⟨outcome, middle⟩
  cases outcome with
  | ok value => simp [bind_of_ok ran]
  | error error => simp [bind_of_error ran]

/-- A sequence fails when its first part does, or when the second does after it. -/
theorem bind_eq_error_iff :
    (first >>= next) state = (.error error, last) ↔
      first state = (.error error, last) ∨
        ∃ value middle, first state = (.ok value, middle) ∧
          next value middle = (.error error, last) := by
  rcases ran : first state with ⟨outcome, middle⟩
  cases outcome with
  | ok value => simp [bind_of_ok ran]
  | error error => simp [bind_of_error ran]

/-- A sequence that starts with a computation that does not look at the state. -/
theorem lift_bind_eq_ok_iff {computed : Except ε α} :
    (lift computed >>= next) state = (.ok result, last) ↔
      ∃ value, computed = .ok value ∧ next value state = (.ok result, last) := by
  cases computed with
  | ok value => simp
  | error error => simp

theorem lift_bind_eq_error_iff {computed : Except ε α} :
    (lift computed >>= next) state = (.error error, last) ↔
      computed = .error error ∧ last = state ∨
        ∃ value, computed = .ok value ∧ next value state = (.error error, last) := by
  cases computed with
  | ok value => simp
  | error error => simp [eq_comm]

theorem each_append_ok {act : β → Stateful σ ε Unit} {items later : List β}
    (ran : each act items state = (.ok (), middle)) (rest : each act later middle = (.ok (), last)) :
    each act (items ++ later) state = (.ok (), last) := by
  induction items generalizing state with
  | nil =>
      cases ran
      exact rest
  | cons item items inductionHypothesis =>
      obtain ⟨_, next, first, ran⟩ := bind_eq_ok_iff.mp ran
      exact bind_eq_ok_iff.mpr ⟨(), next, first, inductionHypothesis ran⟩

/-! ## Where a computation takes the state -/

/-- From `state`, the computation takes the state along `ok` when it ends well,
and along `bad` when it fails. -/
structure Moves (ok bad : σ → σ → Prop) (act : Stateful σ ε α) (state : σ) : Prop where
  ok : ∀ value after, act state = (.ok value, after) → ok state after
  bad : ∀ error after, act state = (.error error, after) → bad state after

/-- Relations that go with sequences of computations. -/
structure Sequential (ok bad : σ → σ → Prop) : Prop where
  refl : ∀ state, ok state state
  trans : ∀ {first middle last}, ok first middle → ok middle last → ok first last
  stop : ∀ state, bad state state
  fails : ∀ {first middle last}, ok first middle → bad middle last → bad first last

namespace Sequential

variable {ok bad : σ → σ → Prop} (rules : Sequential ok bad)
include rules

theorem pure : Moves ok bad (pure value : Stateful σ ε α) state where
  ok := by
    rintro _ _ ⟨⟩
    exact rules.refl state
  bad := by rintro _ _ ⟨⟩

theorem fail : Moves ok bad (fail error : Stateful σ ε α) state where
  ok := by rintro _ _ ⟨⟩
  bad := by
    rintro _ _ ⟨⟩
    exact rules.stop state

theorem lift {computed : Except ε α} : Moves ok bad (lift computed : Stateful σ ε α) state where
  ok := by
    rintro _ _ ⟨⟩
    exact rules.refl state
  bad := by
    rintro _ _ ⟨⟩
    exact rules.stop state

theorem bind (starts : Moves ok bad first state)
    (goes : ∀ value middle, first state = (.ok value, middle) → ok state middle →
      Moves ok bad (next value) middle) :
    Moves ok bad (first >>= next) state where
  ok := by
    intro result last ran
    obtain ⟨value, middle, firstRan, nextRan⟩ := bind_eq_ok_iff.mp ran
    have moved := starts.ok value middle firstRan
    exact rules.trans moved ((goes value middle firstRan moved).ok result last nextRan)
  bad := by
    intro error last ran
    rcases bind_eq_error_iff.mp ran with firstFailed | ⟨value, middle, firstRan, nextFailed⟩
    · exact starts.bad error last firstFailed
    · have moved := starts.ok value middle firstRan
      exact rules.fails moved ((goes value middle firstRan moved).bad error last nextFailed)

omit rules in
theorem update {change : σ → σ} (moves : ok state (change state)) :
    Moves ok bad (update change : Stateful σ ε Unit) state where
  ok := by
    rintro _ _ ⟨⟩
    exact moves
  bad := by rintro _ _ ⟨⟩

omit rules in
theorem read_bind {next : σ → Stateful σ ε β} (goes : Moves ok bad (next state) state) :
    Moves ok bad (read >>= next) state where
  ok := goes.ok
  bad := goes.bad

theorem update_bind {change : σ → σ} {next : Unit → Stateful σ ε β}
    (moves : ok state (change state)) (goes : Moves ok bad (next ()) (change state)) :
    Moves ok bad (Stateful.update change >>= next) state where
  ok := fun result last ran => rules.trans moves (goes.ok result last ran)
  bad := fun error last ran => rules.fails moves (goes.bad error last ran)

theorem lift_bind {computed : Except ε α}
    (goes : ∀ value, computed = .ok value → Moves ok bad (next value) state) :
    Moves ok bad (Stateful.lift computed >>= next) state := by
  cases computed with
  | error error => exact rules.fail
  | ok value => exact goes value rfl

theorem each {γ : Type} {act : γ → Stateful σ ε Unit} {items : List γ}
    (goes : ∀ item ∈ items, ∀ state, Moves ok bad (act item) state) :
    Moves ok bad (each act items) state := by
  induction items generalizing state with
  | nil => exact rules.pure
  | cons item items inductionHypothesis =>
      refine rules.bind (goes item List.mem_cons_self state) fun _ middle _ _ => ?_
      exact inductionHypothesis fun other member => goes other (List.mem_cons_of_mem _ member)

end Sequential

/-- What a view of the state shows stays the same. -/
def Keeps (view : σ → τ) (before after : σ) : Prop := view after = view before

theorem keeps_sequential (view : σ → τ) : Sequential (Keeps view) (Keeps view) where
  refl _ := rfl
  trans first second := Eq.trans second first
  stop _ := rfl
  fails first second := Eq.trans second first

/-- Where the way the computation ends does not matter. -/
theorem Moves.all {relation : σ → σ → Prop} {act : Stateful σ ε α} {outcome : Except ε α}
    (moves : Moves relation relation act state) (ran : act state = (outcome, last)) :
    relation state last := by
  cases outcome with
  | ok value => exact moves.ok value last ran
  | error error => exact moves.bad error last ran

/-- Where the state it leads to is all that matters. -/
theorem Moves.of_after {relation : σ → σ → Prop} {act : Stateful σ ε α}
    (goes : relation state (act state).2) : Moves relation relation act state where
  ok _ _ ran := by rwa [ran] at goes
  bad _ _ ran := by rwa [ran] at goes

theorem Moves.keeps {view : σ → τ} {act : Stateful σ ε α} {outcome : Except ε α}
    (moves : Moves (Keeps view) (Keeps view) act state) (ran : act state = (outcome, last)) :
    view last = view state :=
  moves.all ran

end Stateful

end RecurseX.Library
