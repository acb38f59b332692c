import Mathlib.Data.List.Basic
import RecurseX.Library.Runs

/-!
# The slots of background refreshes

Callers reserve a slot, ask the budget and spawn a worker; the worker gives the slot
back when it ends. Whether the key can be marked, whether the budget allows it, whether
an exchange fails for no reason and whether the spawn succeeds is left open, and so is
the order of all steps. A spawn that fails never gives the slot back.
-/

namespace RecurseX

open Library

/-- Where a caller of `queue_background_refresh` stands. -/
inductive CallerPhase where
  | idle
  /-- The key is marked in flight. -/
  | marked
  /-- In the loop that takes a slot, with the count as last read. -/
  | trying (cur : UInt64)
  | reserved
  /-- Out of budget, the slot is to be given back. -/
  | denied
  /-- Within budget, the worker is to be spawned. -/
  | granted
deriving DecidableEq, Repr

/-- The caller has a slot that it has neither given back nor passed on. -/
def CallerPhase.holdsSlot : CallerPhase → Bool
  | .reserved | .denied | .granted => true
  | _ => false

/-- Where a spawned worker stands. -/
inductive WorkerPhase where
  /-- The thread has been started. -/
  | spawned
  /-- It has made the guard of its slot and refreshes the key. -/
  | refreshing
  /-- It has dropped the guard, whether it returned or unwound. -/
  | gone
deriving DecidableEq, Repr

def WorkerPhase.live (self : WorkerPhase) : Bool := decide (self ≠ .gone)

/-- The counter of refreshes, its callers and its workers. -/
structure RefreshSlots where
  maxConcurrentRefreshes : UInt64
  refreshing : UInt64
  callers : List CallerPhase
  workers : List WorkerPhase
deriving DecidableEq, Repr

/-- One atomic step of a caller or a worker, and how what it asks for turns out. -/
inductive SlotAction where
  | mark (caller : Nat) (marks : Bool)
  | load (caller : Nat)
  | exchange (caller : Nat) (spurious : Bool)
  | budget (caller : Nat) (allows : Bool)
  | giveBack (caller : Nat)
  | spawn (caller : Nat) (started : Bool)
  | start (worker : Nat)
  | finish (worker : Nat)
deriving DecidableEq, Repr

namespace RefreshSlots

/-- No refresh is running and none is asked for. -/
def initial (maxConcurrentRefreshes : UInt64) (callers : Nat) : RefreshSlots :=
  { maxConcurrentRefreshes, refreshing := 0, callers := List.replicate callers .idle, workers := [] }

/-- At least one slot. -/
def max (self : RefreshSlots) : UInt64 := Max.max self.maxConcurrentRefreshes 1

def setCaller (self : RefreshSlots) (caller : Nat) (phase : CallerPhase) : RefreshSlots :=
  { self with callers := self.callers.set caller phase }

def setWorker (self : RefreshSlots) (worker : Nat) (phase : WorkerPhase) : RefreshSlots :=
  { self with workers := self.workers.set worker phase }

/-- Mark the key in flight, or return. -/
def mark (self : RefreshSlots) (caller : Nat) (marks : Bool) : Option RefreshSlots :=
  if self.callers[caller]? = some .idle then
    some (self.setCaller caller (if marks then .marked else .idle))
  else none

/-- Read the counter. -/
def load (self : RefreshSlots) (caller : Nat) : Option RefreshSlots :=
  if self.callers[caller]? = some .marked then
    some (self.setCaller caller (.trying self.refreshing))
  else none

/-- One turn of the loop: return when there is no slot, else exchange the counter for
the next number; if it is not what was read, or for no reason, it is read again. -/
def exchange (self : RefreshSlots) (caller : Nat) (spurious : Bool) : Option RefreshSlots :=
  match self.callers[caller]? with
  | some (.trying cur) =>
      if cur ≥ self.max then some (self.setCaller caller .idle)
      else if self.refreshing = cur ∧ spurious = false then
        some { self.setCaller caller .reserved with refreshing := cur + 1 }
      else some (self.setCaller caller (.trying self.refreshing))
  | _ => none

/-- Ask the budget for one refresh. -/
def budget (self : RefreshSlots) (caller : Nat) (allows : Bool) : Option RefreshSlots :=
  if self.callers[caller]? = some .reserved then
    some (self.setCaller caller (if allows then .granted else .denied))
  else none

/-- Give the slot back, out of budget. -/
def giveBack (self : RefreshSlots) (caller : Nat) : Option RefreshSlots :=
  if self.callers[caller]? = some .denied then
    some { self.setCaller caller .idle with refreshing := self.refreshing - 1 }
  else none

/-- Spawn the worker, whose guard gives the slot back. A spawn that fails drops the
closure, in which there is no guard yet, and its error is not looked at. -/
def spawn (self : RefreshSlots) (caller : Nat) (started : Bool) : Option RefreshSlots :=
  if self.callers[caller]? = some .granted then
    some { self.setCaller caller .idle with
      workers := if started then self.workers ++ [.spawned] else self.workers }
  else none

/-- The worker makes its guard. -/
def start (self : RefreshSlots) (worker : Nat) : Option RefreshSlots :=
  if self.workers[worker]? = some .spawned then some (self.setWorker worker .refreshing) else none

/-- The worker ends and drops its guard. -/
def finish (self : RefreshSlots) (worker : Nat) : Option RefreshSlots :=
  if self.workers[worker]? = some .refreshing then
    some { self.setWorker worker .gone with refreshing := self.refreshing - 1 }
  else none

def step (self : RefreshSlots) : SlotAction → Option RefreshSlots
  | .mark caller marks => self.mark caller marks
  | .load caller => self.load caller
  | .exchange caller spurious => self.exchange caller spurious
  | .budget caller allows => self.budget caller allows
  | .giveBack caller => self.giveBack caller
  | .spawn caller started => self.spawn caller started
  | .start worker => self.start worker
  | .finish worker => self.finish worker

/-- Reservations that have neither been given back nor become a worker. -/
def pending (self : RefreshSlots) : Nat := self.callers.countP CallerPhase.holdsSlot

/-- Workers that have not ended. -/
def liveWorkers (self : RefreshSlots) : Nat := self.workers.countP WorkerPhase.live

end RefreshSlots

/-- The spawn of a worker fails. -/
def SlotAction.spawnFails : SlotAction → Bool
  | .spawn _ started => !started
  | _ => false

namespace RefreshSlots

variable {state next : RefreshSlots} {actions : List SlotAction} {action : SlotAction}
  {caller worker failed : Nat}

/-- The counter is of the reservations, the workers, and what was lost; and it is within
the cap. -/
structure Counts (slots : RefreshSlots) (failed : Nat) : Prop where
  counted : slots.refreshing.toNat = slots.pending + slots.liveWorkers + failed
  capped : slots.refreshing.toNat ≤ slots.max.toNat

/-- A reservation taken, kept or let go by the caller that goes on. -/
theorem pending_setCaller {phase : CallerPhase} (located : state.callers[caller]? = some phase)
    (later : CallerPhase) :
    (state.setCaller caller later).pending + (if phase.holdsSlot then 1 else 0) =
      state.pending + (if later.holdsSlot then 1 else 0) := by
  obtain ⟨inside, here⟩ := List.getElem?_eq_some_iff.mp located
  have holds : phase.holdsSlot = true → 0 < state.pending := fun holds =>
    List.countP_pos_iff.mpr ⟨phase, List.mem_of_getElem? located, holds⟩
  unfold pending setCaller at *
  dsimp only
  rw [List.countP_set inside, here]
  split_ifs with old
  all_goals
    first
      | have positive := holds old
        omega
      | omega

/-- A worker that goes on, or ends. -/
theorem liveWorkers_setWorker {phase : WorkerPhase} (located : state.workers[worker]? = some phase)
    (later : WorkerPhase) :
    (state.setWorker worker later).liveWorkers + (if phase.live then 1 else 0) =
      state.liveWorkers + (if later.live then 1 else 0) := by
  obtain ⟨inside, here⟩ := List.getElem?_eq_some_iff.mp located
  have lives : phase.live = true → 0 < state.liveWorkers := fun lives =>
    List.countP_pos_iff.mpr ⟨phase, List.mem_of_getElem? located, lives⟩
  unfold liveWorkers setWorker at *
  dsimp only
  rw [List.countP_set inside, here]
  split_ifs with old
  all_goals
    first
      | have positive := lives old
        omega
      | omega

theorem initial_counts (maxConcurrentRefreshes : UInt64) (callers : Nat) :
    (initial maxConcurrentRefreshes callers).Counts 0 where
  counted := by simp [initial, pending, liveWorkers, List.countP_replicate, CallerPhase.holdsSlot]
  capped := by simp [initial]

/-- What a turn of the loop can do. -/
theorem exchange_cases {spurious : Bool} (taken : state.exchange caller spurious = some next) :
    ∃ cur, state.callers[caller]? = some (.trying cur) ∧
      ((cur ≥ state.max ∧ next = state.setCaller caller .idle) ∨
        (¬ cur ≥ state.max ∧ state.refreshing = cur ∧ spurious = false ∧
          next = { state.setCaller caller .reserved with refreshing := cur + 1 }) ∨
        (¬ cur ≥ state.max ∧ ¬ (state.refreshing = cur ∧ spurious = false) ∧
          next = state.setCaller caller (.trying state.refreshing))) := by
  unfold exchange at taken
  cases located : state.callers[caller]? with
  | none => rw [located] at taken; cases taken
  | some phase =>
      rw [located] at taken
      cases phase with
      | trying cur =>
          refine ⟨cur, rfl, ?_⟩
          dsimp only at taken
          split_ifs at taken with full exchanged
          · exact .inl ⟨full, (Option.some.inj taken).symm⟩
          · exact .inr (.inl ⟨full, exchanged.1, exchanged.2, (Option.some.inj taken).symm⟩)
          · exact .inr (.inr ⟨full, exchanged, (Option.some.inj taken).symm⟩)
      | idle | marked | reserved | denied | granted => cases taken

namespace Counts

/-- A caller that neither takes nor lets go of a slot. -/
theorem setCaller {phase later : CallerPhase} (counts : state.Counts failed)
    (located : state.callers[caller]? = some phase) (same : later.holdsSlot = phase.holdsSlot) :
    (state.setCaller caller later).Counts failed := by
  have moved := pending_setCaller located later
  rw [same] at moved
  refine ⟨?_, counts.capped⟩
  calc state.refreshing.toNat
      = state.pending + state.liveWorkers + failed := counts.counted
    _ = (state.setCaller caller later).pending + state.liveWorkers + failed := by
        rw [Nat.add_right_cancel moved]

/-- A slot is taken only below the cap. -/
theorem reserve {cur : UInt64} (counts : state.Counts failed)
    (located : state.callers[caller]? = some (.trying cur)) (room : ¬ cur ≥ state.max)
    (seen : state.refreshing = cur) :
    Counts { state.setCaller caller .reserved with refreshing := cur + 1 } failed := by
  have moved := pending_setCaller located .reserved
  simp only [CallerPhase.holdsSlot, Bool.false_eq_true, ↓reduceIte, Nat.add_zero] at moved
  have below : cur.toNat < state.max.toNat := UInt64.lt_iff_toNat_lt.mp (UInt64.not_le.mp room)
  have bounded : state.max.toNat < 2 ^ 64 := state.max.toNat_lt
  have next : (cur + 1).toNat = cur.toNat + 1 := by
    rw [UInt64.toNat_add, UInt64.toNat_one, Nat.mod_eq_of_lt (by omega)]
  have counted := counts.counted
  rw [seen] at counted
  constructor
  · calc (cur + 1).toNat
        = state.pending + 1 + state.liveWorkers + failed := by omega
      _ = (state.setCaller caller .reserved).pending + state.liveWorkers + failed := by rw [moved]
  · exact next ▸ below

/-- A slot that was counted is given back. -/
theorem release {left : RefreshSlots} (counts : state.Counts failed) (same : left.max = state.max)
    (fewer : left.pending + left.liveWorkers + 1 = state.pending + state.liveWorkers)
    (down : left.refreshing = state.refreshing - 1) : left.Counts failed := by
  have counted := counts.counted
  have capped := counts.capped
  have one : (1 : UInt64) ≤ state.refreshing :=
    UInt64.le_iff_toNat_le.mpr (by rw [UInt64.toNat_one]; omega)
  have less : left.refreshing.toNat = state.refreshing.toNat - 1 := by
    rw [down, UInt64.toNat_sub_of_le _ _ one, UInt64.toNat_one]
  rw [← same] at capped
  exact ⟨by omega, by omega⟩

/-- What every step keeps: only a spawn that fails loses a slot. -/
theorem step (counts : state.Counts failed) (taken : state.step action = some next) :
    next.Counts (failed + if action.spawnFails then 1 else 0) := by
  cases action with
  | mark caller marks =>
      simp only [RefreshSlots.step, mark] at taken
      split_ifs at taken with located
      all_goals
        obtain rfl := Option.some.inj taken
        exact counts.setCaller located rfl
  | load caller =>
      simp only [RefreshSlots.step, load] at taken
      split_ifs at taken with located
      obtain rfl := Option.some.inj taken
      exact counts.setCaller located rfl
  | exchange caller spurious =>
      obtain ⟨cur, located, ⟨-, rfl⟩ | ⟨room, seen, -, rfl⟩ | ⟨-, -, rfl⟩⟩ := exchange_cases taken
      · exact counts.setCaller located rfl
      · exact counts.reserve located room seen
      · exact counts.setCaller located rfl
  | budget caller allows =>
      simp only [RefreshSlots.step, budget] at taken
      split_ifs at taken with located
      all_goals
        obtain rfl := Option.some.inj taken
        exact counts.setCaller located rfl
  | giveBack caller =>
      simp only [RefreshSlots.step, giveBack] at taken
      split_ifs at taken with located
      obtain rfl := Option.some.inj taken
      have freed : (state.setCaller caller .idle).pending + 1 = state.pending :=
        pending_setCaller located .idle
      refine counts.release rfl ?_ rfl
      calc (state.setCaller caller .idle).pending + state.liveWorkers + 1
          = (state.setCaller caller .idle).pending + 1 + state.liveWorkers := by omega
        _ = state.pending + state.liveWorkers := by rw [freed]
  | spawn caller started =>
      simp only [RefreshSlots.step, spawn] at taken
      split_ifs at taken with located ran
      all_goals
        obtain rfl := Option.some.inj taken
        have freed : (state.setCaller caller .idle).pending + 1 = state.pending :=
          pending_setCaller located .idle
        refine ⟨?_, counts.capped⟩
      · have grown : (state.workers ++ [WorkerPhase.spawned]).countP WorkerPhase.live =
            state.liveWorkers + 1 := List.countP_append
        calc state.refreshing.toNat
            = state.pending + state.liveWorkers + failed := counts.counted
          _ = (state.setCaller caller .idle).pending + (state.liveWorkers + 1) + failed := by omega
          _ = _ := by rw [← grown, ran]; rfl
      · calc state.refreshing.toNat
            = state.pending + state.liveWorkers + failed := counts.counted
          _ = (state.setCaller caller .idle).pending + state.liveWorkers + (failed + 1) := by omega
          _ = _ := by rw [Bool.eq_false_iff.mpr ran]; rfl
  | start worker =>
      simp only [RefreshSlots.step, start] at taken
      split_ifs at taken with located
      obtain rfl := Option.some.inj taken
      have kept : (state.setWorker worker .refreshing).liveWorkers = state.liveWorkers :=
        Nat.add_right_cancel (liveWorkers_setWorker located .refreshing)
      refine ⟨?_, counts.capped⟩
      calc state.refreshing.toNat
          = state.pending + state.liveWorkers + failed := counts.counted
        _ = state.pending + (state.setWorker worker .refreshing).liveWorkers + failed := by rw [kept]
  | finish worker =>
      simp only [RefreshSlots.step, finish] at taken
      split_ifs at taken with located
      obtain rfl := Option.some.inj taken
      have ended : (state.setWorker worker .gone).liveWorkers + 1 = state.liveWorkers :=
        liveWorkers_setWorker located .gone
      refine counts.release rfl ?_ rfl
      calc state.pending + (state.setWorker worker .gone).liveWorkers + 1
          = state.pending + ((state.setWorker worker .gone).liveWorkers + 1) := by omega
        _ = state.pending + state.liveWorkers := by rw [ended]

end Counts

/-- In every run the counter is of the slots that are held and of the spawns that failed. -/
theorem counts_of_runs {maxConcurrentRefreshes : UInt64} {callers : Nat}
    (runs : Runs step (fun _ _ => True) (initial maxConcurrentRefreshes callers) actions state) :
    state.Counts (actions.countP SlotAction.spawnFails) := by
  induction runs with
  | refl => exact initial_counts _ _
  | @step actions state next action prior _ taken inductionHypothesis =>
      have kept := inductionHypothesis.step taken
      rw [List.countP_append, List.countP_singleton]
      exact kept

theorem step_max (taken : state.step action = some next) : next.max = state.max := by
  cases action with
  | mark caller _ | load caller | budget caller _ | giveBack caller | spawn caller _
  | start worker | finish worker =>
      simp only [step, mark, load, budget, giveBack, spawn, start, finish] at taken
      split_ifs at taken
      all_goals
        obtain rfl := Option.some.inj taken
        rfl
  | exchange caller spurious =>
      obtain ⟨cur, -, ⟨-, rfl⟩ | ⟨-, -, -, rfl⟩ | ⟨-, -, rfl⟩⟩ := exchange_cases taken
      all_goals rfl

theorem max_of_runs {maxConcurrentRefreshes : UInt64} {callers : Nat}
    (runs : Runs step (fun _ _ => True) (initial maxConcurrentRefreshes callers) actions state) :
    state.max = Max.max maxConcurrentRefreshes 1 := by
  induction runs with
  | refl => rfl
  | step _ _ taken inductionHypothesis => exact (step_max taken).trans inductionHypothesis

end RefreshSlots

/-- The counter is the number of refreshes, from the reservation of each to the end of
its worker, exactly as long as no spawn has failed. It is never beyond the cap, and it
is back to zero, when no refresh is left, exactly if no spawn has failed. -/
theorem refreshing_counts_iff {maxConcurrentRefreshes : UInt64} {callers : Nat}
    {actions : List SlotAction} {state : RefreshSlots}
    (runs : Runs RefreshSlots.step (fun _ _ => True)
      (RefreshSlots.initial maxConcurrentRefreshes callers) actions state) :
    (state.refreshing.toNat = state.pending + state.liveWorkers ↔
        ∀ action ∈ actions, action.spawnFails = false) ∧
      state.refreshing ≤ max maxConcurrentRefreshes 1 ∧
      (state.pending = 0 → state.liveWorkers = 0 →
        (state.refreshing = 0 ↔ ∀ action ∈ actions, action.spawnFails = false)) := by
  have counts := RefreshSlots.counts_of_runs runs
  have counted := counts.counted
  have none_failed : actions.countP SlotAction.spawnFails = 0 ↔
      ∀ action ∈ actions, action.spawnFails = false := by
    simp only [List.countP_eq_zero, Bool.not_eq_true]
  refine ⟨?_, RefreshSlots.max_of_runs runs ▸ counts.capped, fun settled ended => ?_⟩
  · rw [← none_failed]
    omega
  · rw [← none_failed, ← UInt64.toNat_inj, UInt64.toNat_zero]
    omega

/-- A worker is spawned and refreshes its key. -/
theorem refreshing_counts_iff_worker :
    ∃ state : RefreshSlots, state.pending = 0 ∧ state.liveWorkers = 1 ∧ state.refreshing = 1 ∧
      state.refreshing.toNat = state.pending + state.liveWorkers := by
  have runs := @runs_of_runActions _ _ RefreshSlots.step (fun _ _ => True)
    (RefreshSlots.initial 8 2) _
    [.mark 0 true, .load 0, .exchange 0 false, .budget 0 true, .spawn 0 true, .start 0] _
    (by rfl)
  exact ⟨_, rfl, rfl, rfl, (refreshing_counts_iff runs).1.mpr (by decide)⟩

/-- A spawn that fails takes its slot along: nothing refreshes, and the counter is not zero. -/
theorem refreshing_lost :
    ∃ actions state,
      Runs RefreshSlots.step (fun _ _ => True) (RefreshSlots.initial 8 1) actions state ∧
      state.pending = 0 ∧ state.liveWorkers = 0 ∧ state.refreshing = 1 :=
  ⟨[.mark 0 true, .load 0, .exchange 0 false, .budget 0 true, .spawn 0 false], _,
    runs_of_runActions rfl, rfl, rfl, rfl⟩

end RecurseX
