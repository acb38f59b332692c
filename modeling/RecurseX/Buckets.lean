import Mathlib.Data.Rat.Floor
import RecurseX.Library.Metering
import RecurseX.Risk

/-!
# Token buckets

The budget of background refreshes and the bucket of a client. Levels and rates are
rationals where the source has floating point. Each is a meter whose clock is the
greatest timestamp it has seen.
-/

namespace RecurseX

open Library

/-- More in a saturating 64-bit counter. -/
def saturatingAddCount (count more : Nat) : Nat := min (count + more) (2 ^ 64 - 1)

/-- A token bucket bounding the aggregate refresh rate. -/
structure RefreshBudget where
  perSec : ℚ
  capacity : ℚ
  tokens : ℚ
  lastUpdate : Ts
  granted : Nat
  denied : Nat
deriving DecidableEq, Repr

namespace RefreshBudget

/-- A bucket starting full. -/
def new (perSec capacity : ℚ) (now : Ts) : RefreshBudget :=
  let capacity := max capacity 0
  { perSec := max perSec 0, capacity, tokens := capacity, lastUpdate := now, granted := 0,
    denied := 0 }

/-- Refill up to `now`. -/
def refill (self : RefreshBudget) (now : Ts) : RefreshBudget :=
  let dt : ℚ := (saturatingSub now self.lastUpdate : ℚ) / 1000000000
  if dt > 0 then
    { self with tokens := min (self.tokens + self.perSec * dt) self.capacity, lastUpdate := now }
  else self

/-- How many of `want` the bucket allows as it is. -/
def allowed (self : RefreshBudget) (want : Nat) : Nat :=
  if self.capacity ≤ 0 then 0 else ⌊min (max self.tokens 0) want⌋.toNat

/-- Refill and return how many of `want` may proceed now. -/
def take (self : RefreshBudget) (want : Nat) (now : Ts) : RefreshBudget × Nat :=
  let self := self.refill now
  let allowed := self.allowed want
  let denied := if allowed = 0 ∧ want > 0 then saturatingCount self.denied else self.denied
  ({ self with
      denied
      tokens := self.tokens - allowed
      granted := saturatingAddCount self.granted allowed }, allowed)

end RefreshBudget

/-- A token bucket, used for both client and upstream rate limiting. -/
structure TokenBucket where
  capacity : ℚ
  tokens : ℚ
  refillPerSec : ℚ
  lastRefill : Ts
deriving DecidableEq, Repr

namespace TokenBucket

/-- A bucket with the given capacity and refill rate. -/
def new (capacity refillPerSec : ℚ) (now : Ts) : TokenBucket :=
  { capacity := max capacity 1, tokens := max capacity 1, refillPerSec := max refillPerSec 0,
    lastRefill := now }

/-- Refill up to `now`. -/
def refill (self : TokenBucket) (now : Ts) : TokenBucket :=
  if now > self.lastRefill then
    -- Nanoseconds since the epoch: the difference is far from leaving 128 bits.
    let dt : ℚ := ((now - self.lastRefill : Ts) : ℚ) / 1000000000
    { self with
      tokens := min (self.tokens + dt * self.refillPerSec) self.capacity
      lastRefill := now }
  else self

/-- Try to consume `n` tokens. Returns true if allowed. -/
def take (self : TokenBucket) (n : ℚ) (now : Ts) : TokenBucket × Bool :=
  let self := self.refill now
  if self.tokens ≥ n then ({ self with tokens := self.tokens - n }, true) else (self, false)

/-- The current token level. -/
def level (self : TokenBucket) (now : Ts) : ℚ := (self.refill now).tokens

end TokenBucket

/-- One call of the budget. -/
structure RefreshCall where
  want : Nat
  now : Ts
deriving DecidableEq, Repr

/-- One call of a bucket, which asks for something or nothing. -/
structure TakeCall where
  n : ℚ
  nonneg : 0 ≤ n
  now : Ts

/-- A timestamp in seconds. -/
def seconds (now : Ts) : ℚ := (now : ℚ) / 1000000000

theorem seconds_sub (left right : Ts) :
    ((left - right : Ts) : ℚ) / 1000000000 = seconds left - seconds right := by
  rw [seconds, seconds, Int.cast_sub, sub_div]

theorem seconds_max (left right : Ts) : seconds (max left right) = max (seconds left) (seconds right) := by
  rw [seconds, seconds, seconds, Int.cast_max]
  exact (max_div_div_right (by norm_num) _ _).symm

/-- What refilling a level over some of the time that passed comes to. -/
theorem refilled_bounds {level capacity rate dt passed : ℚ} (nonneg : 0 ≤ level)
    (within : level ≤ capacity) (forward : 0 ≤ rate) (positive : 0 ≤ dt) (elapsed : dt ≤ passed) :
    0 ≤ min (level + rate * dt) capacity ∧ min (level + rate * dt) capacity ≤ capacity ∧
      min (level + rate * dt) capacity ≤ level + rate * passed := by
  have gained : 0 ≤ rate * dt := mul_nonneg forward positive
  have paced : rate * dt ≤ rate * passed := mul_le_mul_of_nonneg_left elapsed forward
  refine ⟨le_min (by linarith) (nonneg.trans within), min_le_right _ _, ?_⟩
  exact (min_le_left _ _).trans (by linarith)

/-! ## The budget of refreshes -/

namespace RefreshBudget

/-- The budget as a meter. -/
def meter (perSec capacity : ℚ) : Meter RefreshBudget RefreshCall ℚ where
  capacity := capacity
  rate := perSec
  level self := self.tokens
  clock self := seconds self.lastUpdate
  time call := seconds call.now
  refilled self call := (self.refill call.now).tokens
  grant self call := (self.take call.want call.now).2
  step self call := (self.take call.want call.now).1

/-- Within its capacity, which is as it was. -/
structure Sound (perSec capacity : ℚ) (budget : RefreshBudget) : Prop where
  perSec_eq : budget.perSec = perSec
  capacity_eq : budget.capacity = capacity
  tokens_nonneg : 0 ≤ budget.tokens
  tokens_le : budget.tokens ≤ capacity

variable {self : RefreshBudget} {perSec capacity : ℚ} {now : Ts} {want : Nat}

/-- No more is allowed than there is, or than is wanted. -/
theorem allowed_le (nonneg : 0 ≤ self.tokens) : (self.allowed want : ℚ) ≤ self.tokens := by
  unfold allowed
  split_ifs
  · exact_mod_cast nonneg
  · have wanted : (0 : ℚ) ≤ want := Nat.cast_nonneg want
    have floor : 0 ≤ ⌊min (max self.tokens 0) (want : ℚ)⌋ :=
      Int.floor_nonneg.mpr (le_min (le_max_right _ _) wanted)
    calc ((⌊min (max self.tokens 0) (want : ℚ)⌋.toNat : ℕ) : ℚ)
        = ((⌊min (max self.tokens 0) (want : ℚ)⌋ : ℤ) : ℚ) := by
          rw [← Int.cast_natCast, Int.toNat_of_nonneg floor]
      _ ≤ min (max self.tokens 0) want := Int.floor_le _
      _ ≤ max self.tokens 0 := min_le_left _ _
      _ = self.tokens := max_eq_left nonneg

/-- A refill keeps the budget sound, moves its clock to the greatest timestamp, and adds no more
than the rate over what has passed. -/
theorem refill_spec (sound : self.Sound perSec capacity) (rate : 0 ≤ perSec) (now : Ts) :
    (self.refill now).Sound perSec capacity ∧
      (self.refill now).lastUpdate = max self.lastUpdate now ∧
      (self.refill now).tokens ≤ self.tokens + perSec *
        (max (seconds self.lastUpdate) (seconds now) - seconds self.lastUpdate) := by
  rw [← seconds_max]
  obtain ⟨samePerSec, sameCapacity, nonneg, within⟩ := sound
  unfold refill
  dsimp only
  obtain behind | ahead := le_or_gt now self.lastUpdate
  · have none : ¬((saturatingSub now self.lastUpdate : ℚ) / 1000000000 > 0) := by
      have still : saturatingSub now self.lastUpdate ≤ 0 :=
        not_lt.mp (mt saturatingSub_pos.mp (not_lt.mpr behind))
      exact not_lt.mpr (div_nonpos_of_nonpos_of_nonneg (by exact_mod_cast still) (by norm_num))
    rw [if_neg none, max_eq_left behind, sub_self, mul_zero, add_zero]
    exact ⟨⟨samePerSec, sameCapacity, nonneg, within⟩, rfl, le_rfl⟩
  · have some : (0 : ℚ) < saturatingSub now self.lastUpdate := by
      exact_mod_cast saturatingSub_pos.mpr ahead
    have positive : (saturatingSub now self.lastUpdate : ℚ) / 1000000000 > 0 :=
      div_pos some (by norm_num)
    have bounded : (saturatingSub now self.lastUpdate : ℚ) ≤ ((now - self.lastUpdate : Ts) : ℚ) := by
      exact_mod_cast saturatingSub_le ahead.le
    have elapsed : (saturatingSub now self.lastUpdate : ℚ) / 1000000000 ≤
        seconds now - seconds self.lastUpdate := by
      rw [← seconds_sub]
      linarith
    rw [if_pos positive, max_eq_right ahead.le, samePerSec, sameCapacity]
    obtain ⟨still, capped, paced⟩ := refilled_bounds nonneg within rate positive.le elapsed
    exact ⟨⟨rfl, rfl, still, capped⟩, rfl, paced⟩

/-- A call takes what it grants from what it finds, and leaves the clock to the refill. -/
theorem take_spec (sound : self.Sound perSec capacity) (rate : 0 ≤ perSec) (want : Nat) (now : Ts) :
    (self.take want now).1.Sound perSec capacity ∧
      (self.take want now).1.lastUpdate = max self.lastUpdate now ∧
      ((self.take want now).2 : ℚ) + (self.take want now).1.tokens = (self.refill now).tokens := by
  obtain ⟨⟨samePerSec, sameCapacity, nonneg, within⟩, clock, -⟩ := refill_spec sound rate now
  have granted : ((self.refill now).allowed want : ℚ) ≤ (self.refill now).tokens :=
    allowed_le nonneg
  have count : (0 : ℚ) ≤ (self.refill now).allowed want := Nat.cast_nonneg _
  unfold take
  dsimp only
  exact ⟨⟨samePerSec, sameCapacity, by linarith, by linarith⟩, clock, add_sub_cancel _ _⟩

theorem meter_regular (rate : 0 ≤ perSec) :
    (meter perSec capacity).Regular (Sound perSec capacity) where
  kept _ call sound := (take_spec sound rate call.want call.now).1
  nonneg _ sound := sound.tokens_nonneg
  clocked _ call sound :=
    (congrArg seconds (take_spec sound rate call.want call.now).2.1).trans (seconds_max _ _)
  capped _ call sound := (refill_spec sound rate call.now).1.tokens_le
  paced _ call sound := (refill_spec sound rate call.now).2.2
  spent _ call sound := (take_spec sound rate call.want call.now).2.2

theorem sound_new (perSec capacity : ℚ) (start : Ts) :
    (new perSec capacity start).Sound (max perSec 0) (max capacity 0) :=
  ⟨rfl, rfl, le_max_right _ _, le_rfl⟩

end RefreshBudget

/-! ## The bucket of a client -/

namespace TokenBucket

/-- The bucket as a meter. -/
def meter (refillPerSec capacity : ℚ) : Meter TokenBucket TakeCall ℚ where
  capacity := capacity
  rate := refillPerSec
  level self := self.tokens
  clock self := seconds self.lastRefill
  time call := seconds call.now
  refilled self call := self.level call.now
  grant self call := if (self.take call.n call.now).2 then call.n else 0
  step self call := (self.take call.n call.now).1

/-- Within its capacity, which is as it was. -/
structure Sound (refillPerSec capacity : ℚ) (bucket : TokenBucket) : Prop where
  refillPerSec_eq : bucket.refillPerSec = refillPerSec
  capacity_eq : bucket.capacity = capacity
  tokens_nonneg : 0 ≤ bucket.tokens
  tokens_le : bucket.tokens ≤ capacity

variable {self : TokenBucket} {refillPerSec capacity : ℚ}

theorem refill_spec (sound : self.Sound refillPerSec capacity) (rate : 0 ≤ refillPerSec) (now : Ts) :
    (self.refill now).Sound refillPerSec capacity ∧
      (self.refill now).lastRefill = max self.lastRefill now ∧
      (self.refill now).tokens ≤ self.tokens + refillPerSec *
        (max (seconds self.lastRefill) (seconds now) - seconds self.lastRefill) := by
  rw [← seconds_max]
  obtain ⟨sameRate, sameCapacity, nonneg, within⟩ := sound
  unfold refill
  dsimp only
  obtain behind | ahead := le_or_gt now self.lastRefill
  · rw [if_neg (not_lt.mpr behind), max_eq_left behind, sub_self, mul_zero, add_zero]
    exact ⟨⟨sameRate, sameCapacity, nonneg, within⟩, rfl, le_rfl⟩
  · have positive : 0 ≤ seconds now - seconds self.lastRefill := by
      rw [← seconds_sub]
      have passed : (0 : ℚ) ≤ ((now - self.lastRefill : Ts) : ℚ) := by
        exact_mod_cast sub_nonneg.mpr ahead.le
      exact div_nonneg passed (by norm_num)
    rw [if_pos ahead, max_eq_right ahead.le, seconds_sub, sameRate, sameCapacity, mul_comm]
    obtain ⟨still, capped, paced⟩ := refilled_bounds nonneg within rate positive le_rfl
    exact ⟨⟨rfl, rfl, still, capped⟩, rfl, paced⟩

/-- A call that asks for no less than nothing. -/
theorem take_spec (sound : self.Sound refillPerSec capacity) (rate : 0 ≤ refillPerSec) {n : ℚ}
    (asked : 0 ≤ n) (now : Ts) :
    (self.take n now).1.Sound refillPerSec capacity ∧
      (self.take n now).1.lastRefill = max self.lastRefill now ∧
      (if (self.take n now).2 then n else 0) + (self.take n now).1.tokens = self.level now := by
  obtain ⟨⟨sameRate, sameCapacity, nonneg, within⟩, clock, -⟩ := refill_spec sound rate now
  by_cases enough : (self.refill now).tokens ≥ n
  · have taken : self.take n now =
        ({ self.refill now with tokens := (self.refill now).tokens - n }, true) := if_pos enough
    rw [taken]
    exact ⟨⟨sameRate, sameCapacity, sub_nonneg.mpr enough, by linarith⟩, clock, add_sub_cancel _ _⟩
  · have denied : self.take n now = (self.refill now, false) := if_neg enough
    rw [denied]
    exact ⟨⟨sameRate, sameCapacity, nonneg, within⟩, clock, zero_add _⟩

theorem meter_regular (rate : 0 ≤ refillPerSec) :
    (meter refillPerSec capacity).Regular (Sound refillPerSec capacity) where
  kept _ call sound := (take_spec sound rate call.nonneg call.now).1
  nonneg _ sound := sound.tokens_nonneg
  clocked _ call sound :=
    (congrArg seconds (take_spec sound rate call.nonneg call.now).2.1).trans (seconds_max _ _)
  capped _ call sound := (refill_spec sound rate call.now).1.tokens_le
  paced _ call sound := (refill_spec sound rate call.now).2.2
  spent _ call sound := (take_spec sound rate call.nonneg call.now).2.2

theorem sound_new (capacity refillPerSec : ℚ) (start : Ts) :
    (new capacity refillPerSec start).Sound (max refillPerSec 0) (max capacity 1) :=
  ⟨rfl, rfl, zero_le_one.trans (le_max_right _ _), le_rfl⟩

end TokenBucket

/-- **Token buckets mint nothing.** Whatever calls came before and whatever their timestamps, the
budget of refreshes and the bucket of a client hold between nothing and their capacity, and a run
of calls is granted no more than the capacity and the rate over the seconds the greatest timestamp
gains in the run. -/
theorem buckets_mint_nothing :
    (∀ (perSec capacity : ℚ) (start : Ts) (earlier run : List RefreshCall),
      let fresh := RefreshBudget.new perSec capacity start
      let meter := RefreshBudget.meter fresh.perSec fresh.capacity
      let before := meter.run fresh earlier
      let after := meter.run before run
      (0 ≤ after.tokens ∧ after.tokens ≤ fresh.capacity) ∧
        meter.granted before run ≤
          fresh.capacity + fresh.perSec * meter.growth (seconds start) earlier run) ∧
    ∀ (capacity refillPerSec : ℚ) (start : Ts) (earlier run : List TakeCall),
      let fresh := TokenBucket.new capacity refillPerSec start
      let meter := TokenBucket.meter fresh.refillPerSec fresh.capacity
      let before := meter.run fresh earlier
      let after := meter.run before run
      (0 ≤ after.tokens ∧ after.tokens ≤ fresh.capacity) ∧
        meter.granted before run ≤
          fresh.capacity + fresh.refillPerSec * meter.growth (seconds start) earlier run := by
  constructor
  · intro perSec capacity start earlier run fresh meter before after
    have regular : meter.Regular (RefreshBudget.Sound fresh.perSec fresh.capacity) :=
      RefreshBudget.meter_regular (le_max_right _ _)
    have initial := RefreshBudget.sound_new perSec capacity start
    have final := regular.inv_run (regular.inv_run initial earlier) run
    exact ⟨⟨final.tokens_nonneg, final.tokens_le⟩,
      regular.granted_window_le initial (le_max_right _ _) earlier run⟩
  · intro capacity refillPerSec start earlier run fresh meter before after
    have regular : meter.Regular (TokenBucket.Sound fresh.refillPerSec fresh.capacity) :=
      TokenBucket.meter_regular (le_max_right _ _)
    have initial := TokenBucket.sound_new capacity refillPerSec start
    have final := regular.inv_run (regular.inv_run initial earlier) run
    exact ⟨⟨final.tokens_nonneg, final.tokens_le⟩,
      regular.granted_window_le initial (zero_le_one.trans (le_max_right _ _)) earlier run⟩

end RecurseX
