import RecurseX.Library.Runs
import RecurseX.Resolver.Response

/-!
# The single validation slot

`VALIDATING` is one flag for the whole process. A validation that finds it set
gives up at once, whoever has set it: a validation further up on the same thread
or an unrelated one. Any number of validations run here side by side, and an
action is what one of them does between two accesses to the flag.
-/

namespace RecurseX

open Library

/-- What a validation is given: a completed resolution or a forwarder's response. -/
inductive Validated where
  | resolution (res : Resolution)
  | message (resp : Message)

/-- Whether there is anything to validate. -/
def Validated.answered : Validated → Bool
  | .resolution res => !res.answers.isEmpty
  | .message resp => !resp.answers.isEmpty

/-- How far a validation is. -/
inductive ValidationPhase where
  | pending
  /-- It holds the slot. -/
  | holding
  /-- It has a report, and still holds the slot. -/
  | verified (report : Verification)
  | finished (report : Verification)
  /-- It unwound while it held the slot. -/
  | unwound
deriving DecidableEq

/-- Whether a validation in this phase has a `ValidationGuard`. -/
def ValidationPhase.guarded : ValidationPhase → Bool
  | .holding | .verified _ => true
  | .pending | .finished _ | .unwound => false

/-- One validation, with the keys its fetches find and the time it is made. -/
structure ValidationTask where
  subject : Validated
  anchored : Bool
  fetch : Fetch
  now : Ts
  phase : ValidationPhase

/-- The report of a validation that found the flag like this. -/
def ValidationTask.report (crypto : Crypto) (task : ValidationTask) (validating : Bool) :
    Verification :=
  match task.subject with
  | .resolution res =>
      validateResolutionDetailed crypto ⟨task.fetch, validating, task.now⟩ res task.anchored
  | .message resp =>
      validateMessageDetailed crypto ⟨task.fetch, validating, task.now⟩ resp task.anchored

/-- The report of a validation with the process to itself. -/
def ValidationTask.alone (crypto : Crypto) (task : ValidationTask) : Verification :=
  task.report crypto false

/-- The flag, and the validations of the process. -/
structure ValidationSystem where
  validating : Bool
  tasks : List ValidationTask

/-- What some validation does next. -/
inductive ValidationAction where
  /-- `ValidationGuard::enter`, where there are answers. -/
  | enter (task : Nat)
  | verify (task : Nat)
  /-- The guard is dropped. -/
  | leave (task : Nat)
  | unwind (task : Nat)

namespace ValidationSystem

/-- Nobody has begun. -/
def new (tasks : List ValidationTask) : ValidationSystem :=
  ⟨false, tasks.map fun task => { task with phase := .pending }⟩

/-- A validation goes on to its next phase. -/
def move (self : ValidationSystem) (index : Nat) (task : ValidationTask) (phase : ValidationPhase)
    (validating : Bool) : ValidationSystem :=
  ⟨validating, self.tasks.set index { task with phase := phase }⟩

/-- One action; `none` when it cannot be taken. -/
def step (crypto : Crypto) (self : ValidationSystem) : ValidationAction → Option ValidationSystem
  | .enter index =>
      match self.tasks[index]? with
      | some task =>
          match task.phase with
          | .pending =>
              if task.subject.answered = false ∨ self.validating = true then
                some (self.move index task (.finished (task.report crypto self.validating))
                  self.validating)
              else some (self.move index task .holding true)
          | _ => none
      | none => none
  | .verify index =>
      match self.tasks[index]? with
      | some task =>
          match task.phase with
          | .holding => some (self.move index task (.verified (task.report crypto false))
              self.validating)
          | _ => none
      | none => none
  | .leave index =>
      match self.tasks[index]? with
      | some task =>
          match task.phase with
          | .verified report => some (self.move index task (.finished report) false)
          | _ => none
      | none => none
  | .unwind index =>
      match self.tasks[index]? with
      | some task =>
          match task.phase with
          | .holding => some (self.move index task .unwound false)
          | _ => none
      | none => none

/-- Another validation has the slot. -/
def HeldByOther (state : ValidationSystem) (index : Nat) : Prop :=
  ∃ other task, other ≠ index ∧ state.tasks[other]? = some task ∧ task.phase.guarded = true

/-! ## What a step can do -/

/-- The task that acts, the phase it leaves, the one it goes to, and the flag after. -/
inductive Moves (crypto : Crypto) (state : ValidationSystem) (index : Nat) (task : ValidationTask) :
    ValidationAction → ValidationPhase → Bool → Prop where
  | passes (pending : task.phase = .pending)
      (idle : task.subject.answered = false ∨ state.validating = true) :
      Moves crypto state index task (.enter index)
        (.finished (task.report crypto state.validating)) state.validating
  | enters (pending : task.phase = .pending) (answered : task.subject.answered = true)
      (free : state.validating = false) :
      Moves crypto state index task (.enter index) .holding true
  | verifies (holding : task.phase = .holding) :
      Moves crypto state index task (.verify index) (.verified (task.report crypto false))
        state.validating
  | leaves (report : Verification) (verified : task.phase = .verified report) :
      Moves crypto state index task (.leave index) (.finished report) false
  | unwinds (holding : task.phase = .holding) :
      Moves crypto state index task (.unwind index) .unwound false

theorem step_cases {crypto : Crypto} {state next : ValidationSystem} {action : ValidationAction}
    (taken : state.step crypto action = some next) :
    ∃ index task phase validating, state.tasks[index]? = some task ∧
      Moves crypto state index task action phase validating ∧
      next = state.move index task phase validating := by
  cases action with
  | enter index =>
      simp only [step] at taken
      split at taken
      · rename_i task found
        split at taken
        · rename_i pending
          split_ifs at taken with idle
          · exact ⟨index, task, _, _, found, .passes pending idle, (Option.some.inj taken).symm⟩
          · rw [not_or, Bool.not_eq_false, Bool.not_eq_true] at idle
            exact ⟨index, task, _, _, found, .enters pending idle.1 idle.2,
              (Option.some.inj taken).symm⟩
        · cases taken
      · cases taken
  | verify index =>
      simp only [step] at taken
      split at taken
      · rename_i task found
        split at taken
        · rename_i holding
          exact ⟨index, task, _, _, found, .verifies holding, (Option.some.inj taken).symm⟩
        · cases taken
      · cases taken
  | leave index =>
      simp only [step] at taken
      split at taken
      · rename_i task found
        split at taken
        · rename_i report verified
          exact ⟨index, task, _, _, found, .leaves report verified, (Option.some.inj taken).symm⟩
        · cases taken
      · cases taken
  | unwind index =>
      simp only [step] at taken
      split at taken
      · rename_i task found
        split at taken
        · rename_i holding
          exact ⟨index, task, _, _, found, .unwinds holding, (Option.some.inj taken).symm⟩
        · cases taken
      · cases taken

/-! ## The slot -/

/-- The flag is set exactly while one validation has the slot. -/
structure Exclusive (state : ValidationSystem) : Prop where
  held : state.validating = true →
    ∃ (index : Nat) (task : ValidationTask),
      state.tasks[index]? = some task ∧ task.phase.guarded = true
  flagged : ∀ {index : Nat} {task : ValidationTask}, state.tasks[index]? = some task →
    task.phase.guarded = true → state.validating = true
  unique : ∀ {left right : Nat} {leftTask rightTask : ValidationTask},
    state.tasks[left]? = some leftTask → state.tasks[right]? = some rightTask →
    leftTask.phase.guarded = true → rightTask.phase.guarded = true → left = right

variable {crypto : Crypto} {state next : ValidationSystem}

/-- A task after some task has moved. -/
theorem tasks_move_cases {index other : Nat} {task seen : ValidationTask} {phase : ValidationPhase}
    {validating : Bool}
    (found : (state.move index task phase validating).tasks[other]? = some seen) :
    index = other ∧ seen = { task with phase := phase } ∨
      index ≠ other ∧ state.tasks[other]? = some seen := by
  change (state.tasks.set index { task with phase := phase })[other]? = some seen at found
  rw [List.getElem?_set] at found
  split_ifs at found with same inside
  · exact .inl ⟨same, (Option.some.inj found).symm⟩
  · exact .inr ⟨same, found⟩

theorem getElem?_tasks_move {index : Nat} {task : ValidationTask}
    (found : state.tasks[index]? = some task) (phase : ValidationPhase) (validating : Bool) :
    (state.move index task phase validating).tasks[index]? = some { task with phase := phase } := by
  have inside := (List.getElem?_eq_some_iff.mp found).1
  exact (List.getElem?_set_self inside)

theorem exclusive_new (tasks : List ValidationTask) : (new tasks).Exclusive := by
  have pending {index : Nat} {task : ValidationTask}
      (found : (new tasks).tasks[index]? = some task) : task.phase = .pending := by
    obtain ⟨given, _, rfl⟩ := List.mem_map.mp (List.mem_of_getElem? found)
    rfl
  refine ⟨nofun, ?_, ?_⟩
  · intro index task found guarded
    rw [pending found] at guarded
    cases guarded
  · intro left right leftTask rightTask found _ guarded
    rw [pending found] at guarded
    cases guarded

/-- A task that had no guard and gets none, with the flag as it was. -/
theorem Exclusive.unguarded (exclusive : state.Exclusive) {index : Nat} {task : ValidationTask}
    {phase : ValidationPhase} (found : state.tasks[index]? = some task)
    (before : task.phase.guarded = phase.guarded) :
    (state.move index task phase state.validating).Exclusive := by
  -- Every position has a guard after the move exactly when it had one before.
  have same {other : Nat} {seen : ValidationTask}
      (after : (state.move index task phase state.validating).tasks[other]? = some seen) :
      ∃ old, state.tasks[other]? = some old ∧ old.phase.guarded = seen.phase.guarded := by
    rcases tasks_move_cases after with ⟨rfl, rfl⟩ | ⟨_, old⟩
    · exact ⟨task, found, before⟩
    · exact ⟨seen, old, rfl⟩
  refine ⟨?_, ?_, ?_⟩
  · intro validating
    obtain ⟨other, old, located, guarded⟩ := exclusive.held validating
    by_cases here : index = other
    · subst here
      obtain rfl := Option.some.inj (found.symm.trans located)
      exact ⟨index, _, getElem?_tasks_move found phase _, before ▸ guarded⟩
    · refine ⟨other, old, ?_, guarded⟩
      change (state.tasks.set index _)[other]? = some old
      rw [List.getElem?_set_ne here]
      exact located
  · intro other seen after guarded
    obtain ⟨old, located, agrees⟩ := same after
    exact exclusive.flagged located (agrees.trans guarded)
  · intro left right leftTask rightTask leftFound rightFound leftGuarded rightGuarded
    obtain ⟨oldLeft, leftLocated, leftAgrees⟩ := same leftFound
    obtain ⟨oldRight, rightLocated, rightAgrees⟩ := same rightFound
    exact exclusive.unique leftLocated rightLocated (leftAgrees.trans leftGuarded)
      (rightAgrees.trans rightGuarded)

/-- The task with the guard gives it up. -/
theorem Exclusive.released (exclusive : state.Exclusive) {index : Nat} {task : ValidationTask}
    {phase : ValidationPhase} (found : state.tasks[index]? = some task)
    (before : task.phase.guarded = true) (after : phase.guarded = false) :
    (state.move index task phase false).Exclusive := by
  have nobody {other : Nat} {seen : ValidationTask}
      (located : (state.move index task phase false).tasks[other]? = some seen) :
      seen.phase.guarded = false := by
    rcases tasks_move_cases located with ⟨rfl, rfl⟩ | ⟨different, old⟩
    · exact after
    · rw [Bool.eq_false_iff]
      exact fun guarded => different (exclusive.unique found old before guarded)
  refine ⟨nofun, ?_, ?_⟩
  · intro other seen located guarded
    rw [nobody located] at guarded
    cases guarded
  · intro left right leftTask rightTask leftFound _ guarded
    rw [nobody leftFound] at guarded
    cases guarded

/-- A task gets the guard while nobody has it. -/
theorem Exclusive.entered (exclusive : state.Exclusive) {index : Nat} {task : ValidationTask}
    (found : state.tasks[index]? = some task) (free : state.validating = false) :
    (state.move index task .holding true).Exclusive := by
  have only {other : Nat} {seen : ValidationTask}
      (located : (state.move index task .holding true).tasks[other]? = some seen)
      (guarded : seen.phase.guarded = true) : index = other := by
    rcases tasks_move_cases located with ⟨same, _⟩ | ⟨_, old⟩
    · exact same
    · rw [exclusive.flagged old guarded] at free
      cases free
  refine ⟨fun _ => ⟨index, _, getElem?_tasks_move found .holding true, rfl⟩, fun _ _ => rfl, ?_⟩
  intro left right leftTask rightTask leftFound rightFound leftGuarded rightGuarded
  exact (only leftFound leftGuarded).symm.trans (only rightFound rightGuarded)

theorem Exclusive.step (exclusive : state.Exclusive) {action : ValidationAction}
    (taken : state.step crypto action = some next) : next.Exclusive := by
  obtain ⟨index, task, phase, validating, found, moves, rfl⟩ := step_cases taken
  cases moves with
  | passes pending idle => exact exclusive.unguarded found (by rw [pending]; rfl)
  | enters pending answered free => exact exclusive.entered found free
  | verifies holding => exact exclusive.unguarded found (by rw [holding]; rfl)
  | leaves report verified => exact exclusive.released found (by rw [verified]; rfl) rfl
  | unwinds holding => exact exclusive.released found (by rw [holding]; rfl) rfl

/-- A task that has no guard finds the flag set exactly when another one has it. -/
theorem Exclusive.validating_iff (exclusive : state.Exclusive) {index : Nat}
    {task : ValidationTask} (found : state.tasks[index]? = some task)
    (unguarded : task.phase.guarded = false) :
    state.validating = true ↔ state.HeldByOther index := by
  constructor
  · intro validating
    obtain ⟨other, holder, located, guarded⟩ := exclusive.held validating
    refine ⟨other, holder, ?_, located, guarded⟩
    rintro rfl
    obtain rfl := Option.some.inj (found.symm.trans located)
    rw [unguarded] at guarded
    cases guarded
  · rintro ⟨other, holder, _, located, guarded⟩
    exact exclusive.flagged located guarded

/-! ## The reports of a run -/

/-- What the phase of a task says about the state in which it entered. -/
def Explains (crypto : Crypto) (middle : ValidationSystem) (index : Nat) (task : ValidationTask) :
    Prop :=
  match task.phase with
  | .pending => False
  | .holding | .unwound => ¬ middle.HeldByOther index
  | .verified report => ¬ middle.HeldByOther index ∧ report = task.alone crypto
  | .finished report =>
      (task.subject.answered = true ∧ middle.HeldByOther index → report = .preempted) ∧
        (¬ (task.subject.answered = true ∧ middle.HeldByOther index) → report = task.alone crypto)

/-- A validation with nothing to validate does not look at the flag. -/
theorem report_of_not_answered {task : ValidationTask} (nothing : task.subject.answered = false)
    (validating : Bool) : task.report crypto validating = task.alone crypto := by
  obtain ⟨subject, anchored, fetch, now, phase⟩ := task
  cases subject with
  | resolution res =>
      have empty : res.answers = [] := by simpa [Validated.answered] using nothing
      simp only [ValidationTask.alone, ValidationTask.report, validateResolutionDetailed, empty,
        if_true]
  | message resp =>
      have empty : resp.answers = [] := by simpa [Validated.answered] using nothing
      simp only [ValidationTask.alone, ValidationTask.report, validateMessageDetailed, empty,
        if_true]

/-- A validation that finds the flag set gives up. -/
theorem report_of_validating {task : ValidationTask} (answered : task.subject.answered = true) :
    task.report crypto true = .preempted := by
  obtain ⟨subject, anchored, fetch, now, phase⟩ := task
  cases subject with
  | resolution res =>
      have nonempty : res.answers ≠ [] := by simpa [Validated.answered] using answered
      simp only [ValidationTask.report, validateResolutionDetailed, nonempty, if_true, if_false]
  | message resp =>
      have nonempty : resp.answers ≠ [] := by simpa [Validated.answered] using answered
      simp only [ValidationTask.report, validateMessageDetailed, nonempty, if_true, if_false]

/-- The state that a task enters in explains the phase it enters. -/
theorem Exclusive.explains_enter (exclusive : state.Exclusive) {index : Nat} {task : ValidationTask}
    {phase : ValidationPhase} {validating : Bool} (found : state.tasks[index]? = some task)
    (moves : Moves crypto state index task (.enter index) phase validating) :
    Explains crypto state index { task with phase := phase } := by
  cases moves with
  | passes pending idle =>
      have flag := exclusive.validating_iff found (by rw [pending]; rfl)
      refine ⟨?_, ?_⟩
      · rintro ⟨answered, held⟩
        rw [flag.mpr held]
        exact report_of_validating answered
      · intro undisturbed
        rcases idle with nothing | validating
        · exact report_of_not_answered nothing _
        · refine report_of_not_answered ?_ _
          rw [Bool.eq_false_iff]
          exact fun answered => undisturbed ⟨answered, flag.mp validating⟩
  | enters pending answered free =>
      have flag := exclusive.validating_iff found (by rw [pending]; rfl)
      intro held
      rw [flag.mpr held] at free
      cases free

/-- A task that goes on keeps the explanation it has. -/
theorem Explains.move {middle : ValidationSystem} {index : Nat} {task : ValidationTask}
    {action : ValidationAction} {phase : ValidationPhase} {validating : Bool}
    (explains : Explains crypto middle index task)
    (moves : Moves crypto state index task action phase validating) :
    Explains crypto middle index { task with phase := phase } := by
  cases moves with
  | passes pending => simp only [Explains, pending] at explains
  | enters pending => simp only [Explains, pending] at explains
  | verifies holding =>
      simp only [Explains, holding] at explains
      exact ⟨explains, rfl⟩
  | leaves report verified =>
      simp only [Explains, verified] at explains
      exact ⟨fun held => absurd held.2 explains.1, fun _ => explains.2⟩
  | unwinds holding =>
      simp only [Explains, holding] at explains
      exact explains

/-- Every task that has begun entered at some point of the run, and the state it
found there explains its phase. -/
theorem explained {tasks : List ValidationTask} {actions : List ValidationAction}
    (runs : Runs (step crypto) (fun _ _ => True) (new tasks) actions state) {index : Nat}
    {task : ValidationTask} (found : state.tasks[index]? = some task)
    (begun : task.phase ≠ .pending) :
    ∃ earlier later middle, actions = earlier ++ .enter index :: later ∧
      Runs (step crypto) (fun _ _ => True) (new tasks) earlier middle ∧
      Explains crypto middle index task := by
  induction runs generalizing task with
  | refl =>
      obtain ⟨given, _, rfl⟩ := List.mem_map.mp (List.mem_of_getElem? found)
      exact absurd rfl begun
  | @step actions state next action prior _ taken inductionHypothesis =>
      have exclusive : state.Exclusive :=
        prior.invariant (fun exclusive _ taken => exclusive.step taken) (exclusive_new tasks)
      obtain ⟨mover, moved, phase, validating, located, moves, rfl⟩ := step_cases taken
      rcases tasks_move_cases found with ⟨rfl, rfl⟩ | ⟨_, old⟩
      · by_cases before : moved.phase = .pending
        · -- It enters with this very action.
          obtain rfl : action = .enter mover := by
            cases moves with
            | passes => rfl
            | enters => rfl
            | verifies holding => cases holding.symm.trans before
            | leaves report verified => cases verified.symm.trans before
            | unwinds holding => cases holding.symm.trans before
          exact ⟨actions, [], state, rfl, prior, exclusive.explains_enter located moves⟩
        · obtain ⟨earlier, later, middle, rfl, entered, explains⟩ :=
            inductionHypothesis located before
          refine ⟨earlier, later ++ [action], middle, ?_, entered, explains.move moves⟩
          rw [List.append_assoc, List.cons_append]
      · obtain ⟨earlier, later, middle, rfl, entered, explains⟩ := inductionHypothesis old begun
        refine ⟨earlier, later ++ [action], middle, ?_, entered, explains⟩
        rw [List.append_assoc, List.cons_append]

/-- In every interleaving each report is the one the validation would obtain alone,
except that one with answers which enters while another has the slot is preempted. -/
theorem verdict_depends_on_slot_only (crypto : Crypto) (tasks : List ValidationTask)
    {actions : List ValidationAction} {state : ValidationSystem}
    (runs : Runs (step crypto) (fun _ _ => True) (new tasks) actions state) {index : Nat}
    {task : ValidationTask} {report : Verification} (found : state.tasks[index]? = some task)
    (finished : task.phase = .finished report) :
    ∃ earlier later middle, actions = earlier ++ .enter index :: later ∧
      Runs (step crypto) (fun _ _ => True) (new tasks) earlier middle ∧
      (task.subject.answered = true ∧ middle.HeldByOther index → report = .preempted) ∧
      (¬ (task.subject.answered = true ∧ middle.HeldByOther index) →
        report = task.alone crypto) := by
  obtain ⟨earlier, later, middle, split, entered, explains⟩ :=
    explained runs found (by rw [finished]; exact nofun)
  simp only [Explains, finished] at explains
  exact ⟨earlier, later, middle, split, entered, explains⟩

/-- A validation with the process to itself finishes with the report it has alone. -/
theorem alone_finishes (crypto : Crypto) (task : ValidationTask) :
    ∃ actions, Runs (step crypto) (fun _ _ => True) (new [task]) actions
      ⟨false, [{ task with phase := .finished (task.alone crypto) }]⟩ := by
  by_cases answered : task.subject.answered = true
  · refine ⟨[.enter 0, .verify 0, .leave 0], runs_of_runActions ?_⟩
    simp [runActions, new, step, move, answered, ValidationTask.alone, ValidationTask.report]
  · refine ⟨[.enter 0], runs_of_runActions ?_⟩
    simp [runActions, new, step, move, answered, ValidationTask.alone, ValidationTask.report]

end ValidationSystem

/-- The validation of a signed address. -/
def signedTask : ValidationTask :=
  ⟨.message signedAddress.message, true, keyedValidation.fetch, keyedValidation.now, .pending⟩

/-- The second validation comes while the first has the slot. -/
def overlappingActions : List ValidationAction := [.enter 0, .enter 1, .verify 0, .leave 0]

/-- The first one is not disturbed. -/
theorem first_validation_is_undisturbed :
    ∃ state task report,
      Runs (ValidationSystem.step plainCrypto) (fun _ _ => True)
        (.new [signedTask, signedTask]) overlappingActions state ∧
      state.tasks[0]? = some task ∧ task.phase = .finished report ∧
      ∃ earlier later middle, overlappingActions = earlier ++ .enter 0 :: later ∧
        Runs (ValidationSystem.step plainCrypto) (fun _ _ => True)
          (.new [signedTask, signedTask]) earlier middle ∧
        (task.subject.answered = true ∧ middle.HeldByOther 0 → report = .preempted) ∧
        (¬ (task.subject.answered = true ∧ middle.HeldByOther 0) →
          report = task.alone plainCrypto) := by
  have computed : ((runActions (ValidationSystem.step plainCrypto) (fun _ _ => True)
      (.new [signedTask, signedTask]) overlappingActions).bind fun state => state.tasks[0]?).map
      (fun task => task.phase) = some (.finished (signedTask.alone plainCrypto)) := by
    decide +kernel
  obtain ⟨task, reached, finished⟩ := Option.map_eq_some_iff.mp computed
  obtain ⟨state, ran, found⟩ := Option.bind_eq_some_iff.mp reached
  have runs := runs_of_runActions ran
  exact ⟨state, task, _, runs, found, finished,
    ValidationSystem.verdict_depends_on_slot_only plainCrypto _ runs found finished⟩

/-- The second one obtains another report than it would alone. -/
theorem second_validation_is_preempted :
    ∃ state task report,
      Runs (ValidationSystem.step plainCrypto) (fun _ _ => True)
        (.new [signedTask, signedTask]) overlappingActions state ∧
      state.tasks[1]? = some task ∧ task.phase = .finished report ∧
      report ≠ task.alone plainCrypto := by
  have computed : ((runActions (ValidationSystem.step plainCrypto) (fun _ _ => True)
      (.new [signedTask, signedTask]) overlappingActions).bind fun state => state.tasks[1]?).map
      (fun task => (task.phase, task.alone plainCrypto)) =
      some (.finished .preempted, ⟨.secure, .chainAnchored, 1, 1, none⟩) := by
    decide +kernel
  obtain ⟨task, reached, observed⟩ := Option.map_eq_some_iff.mp computed
  obtain ⟨state, ran, found⟩ := Option.bind_eq_some_iff.mp reached
  obtain ⟨finished, alone⟩ := Prod.mk.inj observed
  refine ⟨state, task, _, runs_of_runActions ran, found, finished, ?_⟩
  rw [alone]
  decide

end RecurseX
