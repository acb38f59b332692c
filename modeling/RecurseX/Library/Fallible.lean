import Mathlib.Data.List.Forall2
import Mathlib.Data.List.Sort

/-!
# Fallible computations

Inversion and evaluation rules for `Except`, so that a parser written with `do`
is taken apart with `obtain` and run forward with `simp`; what a computation does
not fail with (`Avoids`) and what it returns besides (`Upholds`); and lists that
are translated item by item in `Option`.
-/

namespace RecurseX.Library

variable {ε α β : Type}

/-- Stop with `error` when `condition` holds. -/
def failIf (condition : Prop) [Decidable condition] (error : ε) : Except ε Unit :=
  if condition then .error error else .ok ()

theorem failIf_eq_ok {condition : Prop} [Decidable condition] {error : ε} {done : Unit} :
    failIf condition error = .ok done ↔ ¬ condition := by
  unfold failIf
  split <;> simp_all

@[simp] theorem failIf_of_not {condition : Prop} [Decidable condition] {error : ε}
    (holds : ¬ condition) : failIf condition error = .ok () :=
  failIf_eq_ok.mpr holds

@[simp] theorem ok_bind (value : α) (next : α → Except ε β) :
    ((Except.ok value : Except ε α) >>= next) = next value := rfl

@[simp] theorem error_bind (error : ε) (next : α → Except ε β) :
    ((Except.error error : Except ε α) >>= next) = .error error := rfl

@[simp] theorem mapError_ok {ε' : Type} (value : α) (change : ε → ε') :
    (Except.ok value : Except ε α).mapError change = .ok value := rfl

/-- A value that has to be there. -/
def okOr (value : Option α) (error : ε) : Except ε α :=
  match value with
  | some found => .ok found
  | none => .error error

theorem okOr_eq_ok {value : Option α} {error : ε} {found : α} :
    okOr value error = .ok found ↔ value = some found := by
  cases value with
  | none => simp [okOr]
  | some other => simp [okOr]

/-- A sequence succeeds exactly when both of its parts do. -/
theorem bind_eq_ok {first : Except ε α} {next : α → Except ε β} {result : β} :
    (first >>= next) = .ok result ↔ ∃ value, first = .ok value ∧ next value = .ok result := by
  cases first with
  | error error => simp
  | ok value => simp

/-- Relabelling the error does not change which computations succeed. -/
theorem mapError_eq_ok {ε' : Type} {computation : Except ε α} {change : ε → ε'} {value : α} :
    computation.mapError change = .ok value ↔ computation = .ok value := by
  cases computation with
  | error error => simp [Except.mapError]
  | ok value => simp [Except.mapError]

/-! ## What a computation does not fail with -/

/-- The computation fails with no such error. -/
def Avoids (bad : ε → Prop) (computation : Except ε α) : Prop :=
  ∀ error, computation = .error error → ¬ bad error

namespace Avoids

variable {bad : ε → Prop}

theorem ok (value : α) : Avoids bad (.ok value : Except ε α) := by
  intro error failed
  cases failed

theorem error {failure : ε} (other : ¬ bad failure) : Avoids bad (.error failure : Except ε α) := by
  rintro error ⟨⟩
  exact other

theorem bind {first : Except ε α} {next : α → Except ε β} (before : Avoids bad first)
    (after : ∀ value, first = .ok value → Avoids bad (next value)) : Avoids bad (first >>= next) := by
  cases first with
  | error failure => exact error (before failure rfl)
  | ok value => exact after value rfl

theorem failIf {condition : Prop} [Decidable condition] {failure : ε} (other : ¬ bad failure) :
    Avoids bad (failIf condition failure) := by
  rw [Library.failIf]
  split
  · exact error other
  · exact ok ()

theorem okOr {value : Option α} {failure : ε} (other : ¬ bad failure) :
    Avoids bad (okOr value failure) := by
  cases value with
  | none => exact error other
  | some found => exact ok found

theorem mapError {ε' : Type} {bad : ε' → Prop} {computation : Except ε α} {change : ε → ε'}
    (other : ∀ failure, ¬ bad (change failure)) : Avoids bad (computation.mapError change) := by
  cases computation with
  | error failure => exact error (other failure)
  | ok value => exact ok value

end Avoids

/-! ## What a computation returns -/

/-- The computation returns only values that satisfy `returns` and fails with no `bad` error. -/
def Upholds (bad : ε → Prop) (returns : α → Prop) : Except ε α → Prop
  | .ok value => returns value
  | .error failure => ¬ bad failure

namespace Upholds

variable {bad : ε → Prop} {returns : α → Prop} {computation : Except ε α}

theorem ok {value : α} (holds : returns value) : Upholds bad returns (.ok value) := holds

/-- Whatever is returned may be used to say what is returned next. -/
theorem bind {ensures : β → Prop} {next : α → Except ε β} (first : Upholds bad returns computation)
    (after : ∀ value, returns value → Upholds bad ensures (next value)) :
    Upholds bad ensures (computation >>= next) := by
  cases computation with
  | error failure => exact first
  | ok value => exact after value first

theorem failIf {condition : Prop} [Decidable condition] {failure : ε} (other : ¬ bad failure) :
    Upholds bad (fun _ => ¬ condition) (failIf condition failure) := by
  rw [Library.failIf]
  split
  · exact other
  · assumption

theorem of_avoids (avoids : Avoids bad computation) :
    Upholds bad (fun value => computation = .ok value) computation := by
  cases computation with
  | error failure => exact avoids failure rfl
  | ok value => exact rfl

theorem mapError {ε' : Type} {bad : ε' → Prop} {change : ε → ε'}
    (other : ∀ failure, ¬ bad (change failure))
    (returned : ∀ value, computation = .ok value → returns value) :
    Upholds bad returns (computation.mapError change) := by
  cases computation with
  | error failure => exact other failure
  | ok value => exact returned value rfl

theorem imp {ensures : α → Prop} (upholds : Upholds bad returns computation)
    (implies : ∀ value, returns value → ensures value) : Upholds bad ensures computation := by
  cases computation with
  | error failure => exact upholds
  | ok value => exact implies value upholds

theorem returned {value : α} (upholds : Upholds bad returns computation)
    (eq : computation = .ok value) : returns value := by
  subst eq
  exact upholds

theorem avoids (upholds : Upholds bad returns computation) : Avoids bad computation := by
  rintro failure rfl
  exact upholds

end Upholds

/-- A loop that returns early does so exactly when one of its items makes it. -/
theorem foldlM_eq_none_iff {σ : Type} {step : σ → α → Option σ} {Stops : α → Prop}
    (stops : ∀ state item, step state item = none ↔ Stops item) {items : List α} {state : σ} :
    items.foldlM step state = none ↔ ∃ item ∈ items, Stops item := by
  induction items generalizing state with
  | nil => simp
  | cons item items inductionHypothesis =>
      rw [List.foldlM_cons]
      cases stepped : step state item with
      | none => simp [(stops state item).mp stepped]
      | some next =>
          have goesOn : ¬ Stops item := by
            rw [← stops state item, stepped]
            exact Option.some_ne_none next
          simp [inductionHypothesis, goesOn]

/-- A walk that no item stops keeps whether an item was flagged. -/
theorem foldlM_flag {step : Bool → α → Option Bool} {flagged : α → Bool} {items : List α}
    (goesOn : ∀ state, ∀ item ∈ items, step state item = some (state || flagged item))
    (state : Bool) : items.foldlM step state = some (state || items.any flagged) := by
  induction items generalizing state with
  | nil => simp
  | cons item items inductionHypothesis =>
      rw [List.foldlM_cons, goesOn state item List.mem_cons_self, List.any_cons, ← Bool.or_assoc]
      exact inductionHypothesis (fun state item member =>
        goesOn state item (List.mem_cons_of_mem _ member)) _

/-! ## Translating lists item by item -/

variable {γ : Type} {encode : α → Option β} {items : List α} {codes : List β}

/-- A list can be translated exactly when its items can. -/
theorem exists_mapM_eq_some :
    (∃ codes, items.mapM encode = some codes) ↔ ∀ item ∈ items, ∃ code, encode item = some code := by
  induction items with
  | nil => simp
  | cons item items inductionHypothesis =>
      rw [List.forall_mem_cons, ← inductionHypothesis, List.mapM_cons]
      cases first : encode item with
      | none => simp
      | some code =>
          cases later : items.mapM encode with
          | none => simp
          | some codes => simp

/-- What is read back from each code is read back from the list. -/
theorem mapM_of_mapM {decode : β → Option γ} {reads : α → γ}
    (decoded : ∀ item ∈ items, ∀ code, encode item = some code → decode code = some (reads item))
    (encoded : items.mapM encode = some codes) : codes.mapM decode = some (items.map reads) := by
  induction items generalizing codes with
  | nil =>
      obtain rfl : codes = [] := by simpa using encoded.symm
      rfl
  | cons item items inductionHypothesis =>
      rw [List.mapM_cons] at encoded
      obtain ⟨code, first, rest⟩ := Option.bind_eq_some_iff.mp encoded
      obtain ⟨others, later, built⟩ := Option.bind_eq_some_iff.mp rest
      obtain rfl := Option.some.inj built
      have tail := inductionHypothesis
        (fun other member => decoded other (List.mem_cons_of_mem _ member)) later
      rw [List.mapM_cons, decoded item List.mem_cons_self code first, tail]
      rfl

/-- A list is translated when each of its items is. -/
theorem mapM_eq_ok {translate : α → Except ε β} {values : List β} :
    items.mapM translate = .ok values ↔
      List.Forall₂ (fun item value => translate item = .ok value) items values := by
  induction items generalizing values with
  | nil =>
      rw [List.mapM_nil, List.forall₂_nil_left_iff]
      exact ⟨fun same => (Except.ok.inj same).symm, fun same => congrArg Except.ok same.symm⟩
  | cons item items inductionHypothesis =>
      rw [List.mapM_cons, List.forall₂_cons_left_iff, bind_eq_ok]
      constructor
      · rintro ⟨value, first, later⟩
        obtain ⟨others, rest, built⟩ := bind_eq_ok.mp later
        obtain rfl := Except.ok.inj built
        exact ⟨value, others, first, inductionHypothesis.mp rest, rfl⟩
      · rintro ⟨value, others, first, rest, rfl⟩
        exact ⟨value, first, bind_eq_ok.mpr ⟨others, inductionHypothesis.mpr rest, rfl⟩⟩

/-- Each value of related lists has its item. -/
theorem exists_of_mem_right {Related : α → β → Prop} {values : List β}
    (related : List.Forall₂ Related items values) {value : β} (member : value ∈ values) :
    ∃ item ∈ items, Related item value := by
  induction related with
  | nil => cases member
  | @cons item first items values here later inductionHypothesis =>
      rcases List.mem_cons.mp member with rfl | behind
      · exact ⟨item, List.mem_cons_self, here⟩
      · obtain ⟨other, listed, there⟩ := inductionHypothesis behind
        exact ⟨other, List.mem_cons_of_mem item listed, there⟩

/-- Where every code can be read, skipping those that cannot drops nothing. -/
theorem filterMap_of_mapM {decode : β → Option γ} {values : List γ}
    (decoded : codes.mapM decode = some values) : codes.filterMap decode = values := by
  induction codes generalizing values with
  | nil => simpa using decoded
  | cons code codes inductionHypothesis =>
      rw [List.mapM_cons] at decoded
      obtain ⟨value, first, rest⟩ := Option.bind_eq_some_iff.mp decoded
      obtain ⟨others, later, built⟩ := Option.bind_eq_some_iff.mp rest
      obtain rfl := Option.some.inj built
      rw [List.filterMap_cons_some first, inductionHypothesis later]

end RecurseX.Library
