import Mathlib.Algebra.GroupWithZero.Nat
import Mathlib.Data.List.Basic

/-!
# Runs of a step function

A system is a step function on states. Its runs may be restricted to steps that
meet a condition on the state before them; what every such step keeps holds in
every state such a run reaches. Where the state has a list of actors, one of
which acts at a time, `exists_focus` names the others.
-/

namespace RecurseX.Library

variable {σ α : Type}

/-- What every event keeps, a run of a step that never fails keeps. -/
theorem foldl_invariant (step : σ → α → σ) (Inv : σ → Prop)
    (kept : ∀ state event, Inv state → Inv (step state event)) {state : σ} {events : List α} (initial : Inv state) : Inv (events.foldl step state) := by
  induction events generalizing state with
  | nil => exact initial
  | cons event events inductionHypothesis => exact inductionHypothesis (kept state event initial)

/-- Runs from `start` whose steps all meet a condition. -/
inductive Runs (step : σ → α → Option σ) (Meets : σ → α → Prop) (start : σ) :
    List α → σ → Prop where
  | refl : Runs step Meets start [] start
  | step {actions : List α} {state next : σ} {action : α}
      (prior : Runs step Meets start actions state) (meets : Meets state action)
      (taken : step state action = some next) : Runs step Meets start (actions ++ [action]) next

variable {step : σ → α → Option σ} {Meets : σ → α → Prop} {start state : σ} {actions : List α}

/-- What every step that meets the condition keeps, every run keeps. -/
theorem Runs.invariant {Inv : σ → Prop}
    (kept : ∀ {state next action}, Inv state → Meets state action →
      step state action = some next → Inv next)
    (runs : Runs step Meets start actions state) (initial : Inv start) : Inv state := by
  induction runs with
  | refl => exact initial
  | step _ meets taken inductionHypothesis => exact kept inductionHypothesis meets taken

/-- A run under a condition is a run. -/
theorem Runs.weaken {Weaker : σ → α → Prop} (runs : Runs step Meets start actions state)
    (weaker : ∀ {state action}, Meets state action → Weaker state action) :
    Runs step Weaker start actions state := by
  induction runs with
  | refl => exact .refl
  | step _ meets taken inductionHypothesis => exact .step inductionHypothesis (weaker meets) taken

/-- Take the actions one after the other, as far as they meet the condition. -/
def runActions (step : σ → α → Option σ) (Meets : σ → α → Prop)
    [∀ state action, Decidable (Meets state action)] (start : σ) (actions : List α) : Option σ :=
  actions.foldlM (fun state action => if Meets state action then step state action else none) start

/-- A run goes on as far as its actions can be computed. -/
theorem Runs.append_runActions [∀ state action, Decidable (Meets state action)]
    {earlier : List α} {middle : σ} (prior : Runs step Meets start earlier middle)
    (computed : runActions step Meets middle actions = some state) :
    Runs step Meets start (earlier ++ actions) state := by
  induction actions generalizing earlier middle with
  | nil =>
      obtain rfl := Option.some.inj computed
      rw [List.append_nil]
      exact prior
  | cons action actions inductionHypothesis =>
      rw [runActions, List.foldlM_cons] at computed
      obtain ⟨next, taken, rest⟩ := Option.bind_eq_some_iff.mp computed
      rw [List.append_cons]
      split_ifs at taken with meets
      exact inductionHypothesis (.step prior meets taken) rest

/-- A run that can be computed. -/
theorem runs_of_runActions [∀ state action, Decidable (Meets state action)]
    (computed : runActions step Meets start actions = some state) :
    Runs step Meets start actions state :=
  Runs.refl.append_runActions computed

/-- The list seen from one of its positions. -/
theorem exists_focus {items : List α} {index : Nat} {item : α} (found : items[index]? = some item) :
    ∃ before after, items = before ++ item :: after ∧
      (∀ other, items.set index other = before ++ other :: after) ∧
      items.eraseIdx index = before ++ after := by
  obtain ⟨inside, located⟩ := List.getElem?_eq_some_iff.mp found
  refine ⟨items.take index, items.drop (index + 1), ?_, fun other => ?_, ?_⟩
  · rw [← located, List.getElem_cons_drop, List.take_append_drop]
  · exact List.set_eq_take_append_cons_drop.trans (if_pos inside)
  · exact List.eraseIdx_eq_take_drop_succ items index

/-- The one in focus, or one of the others. -/
theorem mem_focus {before after : List α} {item other : α} :
    other ∈ before ++ item :: after ↔ other = item ∨ other ∈ before ++ after := by
  rw [List.mem_append, List.mem_cons, or_left_comm, ← List.mem_append]

/-- What a list of actors adds up to, when one of them goes on. -/
theorem sum_map_set {items : List α} {index : Nat} {item : α} (found : items[index]? = some item)
    (weight : α → Nat) (later : α) :
    ((items.set index later).map weight).sum + weight item =
      (items.map weight).sum + weight later := by
  obtain ⟨before, after, rfl, replaced, -⟩ := exists_focus found
  rw [replaced later]
  simp only [List.map_append, List.map_cons, List.sum_append, List.sum_cons]
  omega

/-- What the actors of a list hold, when one of them goes on. -/
theorem count_filterMap_set {β : Type} [DecidableEq β] {items : List α} {index : Nat} {item : α}
    (found : items[index]? = some item) (held : α → Option β) (later : α) (thing : β) :
    ((items.set index later).filterMap held).count thing + (held item).toList.count thing =
      (items.filterMap held).count thing + (held later).toList.count thing := by
  obtain ⟨before, after, rfl, replaced, -⟩ := exists_focus found
  have focused (focus : α) : ((before ++ focus :: after).filterMap held).count thing =
      (before.filterMap held).count thing + (held focus).toList.count thing +
        (after.filterMap held).count thing := by
    rw [← List.singleton_append, List.filterMap_append, List.filterMap_append, List.count_append,
      List.count_append, ← Nat.add_assoc]
    cases held' : held focus <;> simp [held']
  rw [replaced later, focused, focused]
  omega

end RecurseX.Library
