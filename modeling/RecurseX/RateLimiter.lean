import RecurseX.Bounded
import RecurseX.Buckets

/-!
# The rate limiter

A bounded table of client buckets. A sweep takes a bucket that has been quiet for long
to have refilled. `KeepingLimiter` is the same limiter, except that such a bucket is
laid aside and given back to its client.
-/

namespace RecurseX

open Library
open Std (TreeMap)

/-- Buckets idle for longer than this are dropped first when the table is full. -/
def bucketRetentionSecs : Ts := 60

/-- A bounded map of token buckets keyed by a hash of the caller identity. -/
structure RateLimiter where
  buckets : TreeMap UInt64 TokenBucket
  capacity : ℚ
  refillPerSec : ℚ
  maxBuckets : Nat

/-- A request of a client, at a time that the clock can tell. -/
structure Request where
  key : UInt64
  now : Ts
  instant : IsInstant now
deriving DecidableEq

namespace RateLimiter

/-- Eviction stride for a table full of freshly-active buckets. -/
def evictStride : Nat := 8

/-- A limiter with `capacity` burst and `refillPerSec` steady state, tracking at
most `maxBuckets` distinct callers. -/
def new (capacity refillPerSec : ℚ) (maxBuckets : Nat) : RateLimiter :=
  { buckets := ∅, capacity := max capacity 1, refillPerSec := max refillPerSec 0,
    maxBuckets := max maxBuckets 1 }

/-- Buckets last refilled before this are idle. -/
def staleBefore (now : Ts) : Ts := saturatingSub now (bucketRetentionSecs * 1000000000)

/-- Make room for one more bucket when the table is full. -/
def sweep (self : RateLimiter) (now : Ts) : RateLimiter :=
  if self.buckets.size ≥ self.maxBuckets then
    { self with
      buckets := (evictForCapacity self.buckets (staleBefore now) evictStride
        TokenBucket.lastRefill).1 }
  else self

/-- The bucket of a caller that has none. -/
def fresh (self : RateLimiter) (now : Ts) : TokenBucket :=
  .new self.capacity self.refillPerSec now

/-- Consume one token of a bucket and have it in the table. -/
def charge (self : RateLimiter) (key : UInt64) (bucket : TokenBucket) (now : Ts) :
    RateLimiter × Bool :=
  let (bucket, allowed) := bucket.take 1 now
  ({ self with buckets := self.buckets.insert key bucket }, allowed)

/-- Whether a request from `key` is allowed (consuming one token). -/
def allow (self : RateLimiter) (key : UInt64) (now : Ts) : RateLimiter × Bool :=
  match self.buckets[key]? with
  | some bucket => self.charge key bucket now
  | none => (self.sweep now).charge key (self.fresh now) now

/-- The limiter after a sequence of requests. -/
def serve (self : RateLimiter) (requests : List Request) : RateLimiter :=
  requests.foldl (fun self request => (self.allow request.key request.now).1) self

/-- The decisions on a sequence of requests. -/
def decisions : RateLimiter → List Request → List Bool
  | _, [] => []
  | self, request :: requests =>
      (self.allow request.key request.now).2 ::
        (self.allow request.key request.now).1.decisions requests

/-- The bucket that a sweep takes for idle. -/
def idle (self : RateLimiter) (now : Ts) (key : UInt64) : Option TokenBucket :=
  if self.buckets.size ≥ self.maxBuckets then
    self.buckets[key]?.filter fun bucket => bucket.lastRefill < staleBefore now
  else none

end RateLimiter

/-- A limiter that lays idle buckets aside. -/
structure KeepingLimiter where
  limiter : RateLimiter
  aside : UInt64 → Option TokenBucket

namespace KeepingLimiter

def new (capacity refillPerSec : ℚ) (maxBuckets : Nat) : KeepingLimiter :=
  { limiter := .new capacity refillPerSec maxBuckets, aside := fun _ => none }

/-- As the limiter decides, but a caller whose bucket was laid aside gets it back. -/
def allow (self : KeepingLimiter) (key : UInt64) (now : Ts) : KeepingLimiter × Bool :=
  match self.limiter.buckets[key]? with
  | some bucket =>
      let (limiter, allowed) := self.limiter.charge key bucket now
      ({ self with limiter }, allowed)
  | none =>
      let bucket := (self.aside key).getD (self.limiter.fresh now)
      let (limiter, allowed) := (self.limiter.sweep now).charge key bucket now
      ({ limiter
         aside := fun other =>
          if other = key then none else self.limiter.idle now other <|> self.aside other }, allowed)

/-- The decisions on a sequence of requests. -/
def decisions : KeepingLimiter → List Request → List Bool
  | _, [] => []
  | self, request :: requests =>
      (self.allow request.key request.now).2 ::
        (self.allow request.key request.now).1.decisions requests

end KeepingLimiter

/-- Every bucket that a request makes the limiter take for idle has refilled by then. -/
def RateLimiter.SweepsRefilled (self : RateLimiter) (request : Request) : Prop :=
  self.buckets[request.key]? = none → ∀ key bucket, self.idle request.now key = some bucket →
    bucket.level request.now = bucket.capacity

/-- Requests whose timestamps do not step back, each sweeping only refilled buckets. -/
def RateLimiter.Orderly : RateLimiter → Ts → List Request → Prop
  | _, _, [] => True
  | self, clock, request :: requests =>
      clock ≤ request.now ∧ self.SweepsRefilled request ∧
        (self.allow request.key request.now).1.Orderly request.now requests

namespace RateLimiter

variable {self : RateLimiter} {key : UInt64} {bucket : TokenBucket} {now clock : Ts}

/-! ## The bound of the table -/

theorem size_sweep (positive : 0 < self.maxBuckets) (within : self.buckets.size ≤ self.maxBuckets)
    (now : Ts) : (self.sweep now).buckets.size < self.maxBuckets := by
  unfold sweep
  split_ifs with full
  · have some : self.buckets.isEmpty = false := by
      rw [TreeMap.isEmpty_eq_size_eq_zero, beq_eq_false_iff_ne]
      omega
    have fewer := (evictForCapacity_size (staleBefore now) evictStride TokenBucket.lastRefill some).1
    exact fewer.trans_le within
  · exact not_le.mp full

@[simp] theorem maxBuckets_sweep : (self.sweep now).maxBuckets = self.maxBuckets := by
  unfold sweep
  split_ifs <;> rfl

/-- A request keeps the table within its bound. -/
theorem within_allow (positive : 0 < self.maxBuckets) (within : self.buckets.size ≤ self.maxBuckets)
    (key : UInt64) (now : Ts) :
    (self.allow key now).1.maxBuckets = self.maxBuckets ∧
      (self.allow key now).1.buckets.size ≤ self.maxBuckets := by
  unfold allow
  cases found : self.buckets[key]? with
  | some bucket =>
      have present : self.buckets.contains key = true := by
        rw [TreeMap.contains_eq_isSome_getElem?, found]
        rfl
      refine ⟨rfl, ?_⟩
      unfold charge
      dsimp only
      rw [TreeMap.size_insert, if_pos present]
      exact within
  | none =>
      refine ⟨maxBuckets_sweep, ?_⟩
      have room := size_sweep positive within now
      unfold charge
      dsimp only
      exact TreeMap.size_insert_le.trans room

/-! ## What laying a bucket aside changes -/

/-- The limiter counts as it was set up. -/
structure Configured (limiter : RateLimiter) : Prop where
  capacity : 1 ≤ limiter.capacity
  refillPerSec : 0 ≤ limiter.refillPerSec

/-- The bucket is one of this limiter's, of no later than `clock`. -/
structure Tabled (limiter : RateLimiter) (clock : Ts) (bucket : TokenBucket) : Prop where
  sound : bucket.Sound limiter.refillPerSec limiter.capacity
  seen : bucket.lastRefill ≤ clock
  instant : IsInstant bucket.lastRefill

/-- From `clock` on the bucket refills to a fresh one. -/
def RefillsFrom (self : RateLimiter) (clock : Ts) (bucket : TokenBucket) : Prop :=
  ∀ now, clock ≤ now → bucket.refill now = self.fresh now

/-- All buckets are of this limiter's. -/
structure Kept (limiter : RateLimiter) (clock : Ts) : Prop where
  configured : limiter.Configured
  tabled : ∀ (key : UInt64) (bucket : TokenBucket), limiter.buckets[key]? = some bucket →
    limiter.Tabled clock bucket

/-- The limiter that lays buckets aside has the same table, and aside what is no better than a fresh
bucket. -/
structure Agrees (limiter : RateLimiter) (clock : Ts) (keeping : KeepingLimiter) : Prop where
  limiter_eq : keeping.limiter = limiter
  aside : ∀ key bucket, keeping.aside key = some bucket → limiter.RefillsFrom clock bucket

theorem kept_new (capacity refillPerSec : ℚ) (maxBuckets : Nat) (clock : Ts) :
    (new capacity refillPerSec maxBuckets).Kept clock :=
  ⟨⟨le_max_right _ _, le_max_right _ _⟩, fun key bucket stored => by simp [new] at stored⟩

theorem fresh_eq (configured : self.Configured) (now : Ts) :
    self.fresh now = ⟨self.capacity, self.capacity, self.refillPerSec, now⟩ := by
  unfold fresh TokenBucket.new
  rw [max_eq_left configured.capacity, max_eq_left configured.refillPerSec]

/-- What a bucket refills to, also where no time has passed. -/
theorem refill_of_seen (within : bucket.tokens ≤ bucket.capacity) (seen : bucket.lastRefill ≤ now) :
    bucket.refill now = { bucket with
      tokens := min (bucket.tokens + (seconds now - seconds bucket.lastRefill) * bucket.refillPerSec)
        bucket.capacity
      lastRefill := now } := by
  unfold TokenBucket.refill
  obtain rfl | ahead := eq_or_lt_of_le seen
  · rw [if_neg (lt_irrefl _), sub_self, zero_mul, add_zero, min_eq_left within]
  · rw [if_pos ahead]
    dsimp only
    rw [seconds_sub]

/-- A bucket that is full stays full. -/
theorem refillsFrom_of_full (configured : self.Configured) (tabled : self.Tabled now bucket)
    (full : bucket.level now = bucket.capacity) : self.RefillsFrom now bucket := by
  intro later ahead
  obtain ⟨⟨sameRate, sameCapacity, -, within⟩, seen, -⟩ := tabled
  rw [← sameCapacity] at within
  have enough : bucket.capacity ≤
      bucket.tokens + (seconds now - seconds bucket.lastRefill) * bucket.refillPerSec := by
    rw [TokenBucket.level, refill_of_seen within seen] at full
    exact min_eq_right_iff.mp full
  have longer : seconds now ≤ seconds later := by
    unfold seconds
    have passed : (now : ℚ) ≤ (later : ℚ) := by exact_mod_cast ahead
    linarith
  have more : (seconds now - seconds bucket.lastRefill) * bucket.refillPerSec ≤
      (seconds later - seconds bucket.lastRefill) * bucket.refillPerSec :=
    mul_le_mul_of_nonneg_right (by linarith) (sameRate ▸ configured.refillPerSec)
  rw [refill_of_seen within (seen.trans ahead), fresh_eq configured,
    min_eq_right (enough.trans (by linarith)), sameRate, sameCapacity]

/-- A take looks at no more of a bucket than what it refills to. -/
theorem take_congr {other : TokenBucket} (same : bucket.refill now = other.refill now) (n : ℚ) :
    bucket.take n now = other.take n now := by
  unfold TokenBucket.take
  rw [same]

theorem refill_fresh (self : RateLimiter) (now : Ts) : (self.fresh now).refill now = self.fresh now :=
  if_neg (lt_irrefl now)

/-- A refilled bucket serves as a fresh one does. -/
theorem charge_of_refills (refills : self.RefillsFrom clock bucket) (ahead : clock ≤ now)
    (table : RateLimiter) (key : UInt64) :
    table.charge key bucket now = table.charge key (self.fresh now) now := by
  have same : bucket.take 1 now = (self.fresh now).take 1 now :=
    take_congr ((refills now ahead).trans (self.refill_fresh now).symm) 1
  unfold charge
  rw [same]

/-- A sweep leaves buckets as they were. -/
theorem getElem?_sweep {other : UInt64}
    (found : (self.sweep now).buckets[other]? = some bucket) : self.buckets[other]? = some bucket := by
  unfold sweep at found
  split_ifs at found
  · exact getElem?_evictForCapacity found
  · exact found

theorem getElem?_of_idle {other : UInt64} (quiet : self.idle now other = some bucket) :
    self.buckets[other]? = some bucket := by
  unfold idle at quiet
  split_ifs at quiet
  exact (Option.filter_eq_some_iff.mp quiet).1

/-- What was charged stays a bucket of this limiter's. -/
theorem Tabled.take (configured : self.Configured) (tabled : self.Tabled now bucket)
    (instant : IsInstant now) : self.Tabled now (bucket.take 1 now).1 := by
  obtain ⟨kept, clock, -⟩ := TokenBucket.take_spec tabled.sound configured.refillPerSec zero_le_one now
  rw [max_eq_right tabled.seen] at clock
  exact ⟨kept, clock.le, by rwa [clock]⟩

theorem tabled_fresh (configured : self.Configured) (instant : IsInstant now) :
    self.Tabled now (self.fresh now) := by
  rw [fresh_eq configured]
  exact ⟨⟨rfl, rfl, zero_le_one.trans configured.capacity, le_rfl⟩, le_rfl, instant⟩

theorem Tabled.mono (tabled : self.Tabled clock bucket) (ahead : clock ≤ now) :
    self.Tabled now bucket :=
  ⟨tabled.sound, tabled.seen.trans ahead, tabled.instant⟩

theorem RefillsFrom.mono (refills : self.RefillsFrom clock bucket) (ahead : clock ≤ now) :
    self.RefillsFrom now bucket :=
  fun later after => refills later (ahead.trans after)

/-- A table with the same parameters. -/
structure SameParameters (table limiter : RateLimiter) : Prop where
  capacity : table.capacity = limiter.capacity
  refillPerSec : table.refillPerSec = limiter.refillPerSec

theorem sameParameters_sweep (self : RateLimiter) (now : Ts) :
    (self.sweep now).SameParameters self := by
  unfold sweep
  split_ifs <;> exact ⟨rfl, rfl⟩

theorem SameParameters.charge {table : RateLimiter} (same : table.SameParameters self)
    (key : UInt64) (bucket : TokenBucket) (now : Ts) :
    (table.charge key bucket now).1.SameParameters self :=
  ⟨same.capacity, same.refillPerSec⟩

theorem Configured.transfer {table : RateLimiter} (configured : self.Configured)
    (same : table.SameParameters self) : table.Configured :=
  ⟨same.capacity ▸ configured.capacity, same.refillPerSec ▸ configured.refillPerSec⟩

theorem Tabled.transfer {table : RateLimiter} (tabled : self.Tabled clock bucket)
    (same : table.SameParameters self) : table.Tabled clock bucket := by
  obtain ⟨⟨rate, capacity, nonneg, within⟩, seen, instant⟩ := tabled
  rw [← same.capacity] at capacity within
  rw [← same.refillPerSec] at rate
  exact ⟨⟨rate, capacity, nonneg, within⟩, seen, instant⟩

theorem RefillsFrom.transfer {table : RateLimiter} (refills : self.RefillsFrom clock bucket)
    (same : table.SameParameters self) : table.RefillsFrom clock bucket := by
  intro now ahead
  rw [refills now ahead, fresh, fresh, same.capacity, same.refillPerSec]

/-- A charge of one of its buckets leaves a table as it should be. -/
theorem Kept.charge {table : RateLimiter} (kept : self.Kept now) (same : table.SameParameters self)
    (tabled : self.Tabled now bucket) (instant : IsInstant now)
    (others : ∀ {other : UInt64} {held : TokenBucket}, table.buckets[other]? = some held →
      self.buckets[other]? = some held) : (table.charge key bucket now).1.Kept now := by
  have charged := same.charge key bucket now
  refine ⟨kept.configured.transfer charged, fun other held stored => ?_⟩
  refine Tabled.transfer ?_ charged
  unfold RateLimiter.charge at stored
  dsimp only at stored
  rw [TreeMap.getElem?_insert] at stored
  split_ifs at stored
  · obtain rfl := Option.some.inj stored
    exact tabled.take kept.configured instant
  · exact kept.tabled other held (others stored)

/-- What a request comes to: its bucket is charged, after a sweep if it has none. -/
theorem allow_of_some (found : self.buckets[key]? = some bucket) :
    self.allow key now = self.charge key bucket now := by
  rw [allow, found]

theorem allow_of_none (missing : self.buckets[key]? = none) :
    self.allow key now = (self.sweep now).charge key (self.fresh now) now := by
  rw [allow, missing]

theorem sameParameters_allow (self : RateLimiter) (key : UInt64) (now : Ts) :
    (self.allow key now).1.SameParameters self := by
  cases found : self.buckets[key]? with
  | some bucket =>
      rw [allow_of_some found]
      exact ⟨rfl, rfl⟩
  | none =>
      rw [allow_of_none found]
      exact (sameParameters_sweep self now).charge _ _ _

theorem Kept.mono (kept : self.Kept clock) (ahead : clock ≤ now) : self.Kept now :=
  ⟨kept.configured, fun key bucket stored => (kept.tabled key bucket stored).mono ahead⟩

theorem Kept.allow (kept : self.Kept clock) {request : Request} (ahead : clock ≤ request.now) :
    (self.allow request.key request.now).1.Kept request.now := by
  have kept := kept.mono ahead
  cases found : self.buckets[request.key]? with
  | some bucket =>
      rw [allow_of_some found]
      exact kept.charge ⟨rfl, rfl⟩ (kept.tabled _ bucket found) request.instant id
  | none =>
      rw [allow_of_none found]
      exact kept.charge (sameParameters_sweep self _) (tabled_fresh kept.configured request.instant)
        request.instant getElem?_sweep

/-- One request is decided alike, and what is laid aside stays no better than a fresh bucket. -/
theorem Agrees.allow {keeping : KeepingLimiter} (agrees : self.Agrees clock keeping)
    (kept : self.Kept clock) {request : Request} (ahead : clock ≤ request.now)
    (swept : self.SweepsRefilled request) :
    (keeping.allow request.key request.now).2 = (self.allow request.key request.now).2 ∧
      (self.allow request.key request.now).1.Agrees request.now
        (keeping.allow request.key request.now).1 := by
  obtain ⟨rfl, aside⟩ := agrees
  have same := sameParameters_allow keeping.limiter request.key request.now
  cases found : keeping.limiter.buckets[request.key]? with
  | some bucket =>
      have decided : keeping.allow request.key request.now =
          ({ keeping with limiter := (keeping.limiter.allow request.key request.now).1 },
            (keeping.limiter.allow request.key request.now).2) := by
        rw [KeepingLimiter.allow, found, allow_of_some found]
      rw [decided]
      exact ⟨rfl, rfl, fun other held laid => ((aside other held laid).mono ahead).transfer same⟩
  | none =>
      have alike : (keeping.limiter.sweep request.now).charge request.key
          ((keeping.aside request.key).getD (keeping.limiter.fresh request.now)) request.now =
            keeping.limiter.allow request.key request.now := by
        rw [allow_of_none found]
        cases laid : keeping.aside request.key with
        | none => rfl
        | some bucket => exact charge_of_refills (aside _ bucket laid) ahead _ _
      have decided : keeping.allow request.key request.now =
          ({ limiter := (keeping.limiter.allow request.key request.now).1
             aside := fun other => if other = request.key then none
              else keeping.limiter.idle request.now other <|> keeping.aside other },
            (keeping.limiter.allow request.key request.now).2) := by
        rw [← alike, KeepingLimiter.allow, found]
      rw [decided]
      refine ⟨rfl, rfl, fun other held laid => RefillsFrom.transfer ?_ same⟩
      dsimp only at laid
      split_ifs at laid
      cases quiet : keeping.limiter.idle request.now other with
      | some bucket =>
          rw [quiet] at laid
          obtain rfl := Option.some.inj laid
          exact refillsFrom_of_full kept.configured
            ((kept.mono ahead).tabled other bucket (getElem?_of_idle quiet))
            (swept found other bucket quiet)
      | none =>
          rw [quiet] at laid
          exact (aside other held laid).mono ahead

/-- Requests in order are decided alike. -/
theorem Agrees.decisions {keeping : KeepingLimiter} {requests : List Request}
    (agrees : self.Agrees clock keeping) (kept : self.Kept clock)
    (orderly : self.Orderly clock requests) :
    keeping.decisions requests = self.decisions requests := by
  induction requests generalizing self keeping clock with
  | nil => rfl
  | cons request requests inductionHypothesis =>
      obtain ⟨ahead, swept, rest⟩ := orderly
      obtain ⟨decided, next⟩ := agrees.allow kept ahead swept
      rw [KeepingLimiter.decisions, RateLimiter.decisions, decided,
        inductionHypothesis next (kept.allow ahead) rest]

/-! ## Rates that refill a bucket before it is idle -/

/-- A bucket that is idle has been quiet for longer than the retention. -/
theorem quiet_of_idle {other : UInt64} (instant : IsInstant bucket.lastRefill)
    (quiet : self.idle now other = some bucket) : 60 < seconds now - seconds bucket.lastRefill := by
  unfold idle at quiet
  split_ifs at quiet
  have before := of_decide_eq_true (Option.filter_eq_some_iff.mp quiet).2
  have passed : bucket.lastRefill < now - 60 * 1000000000 := by
    obtain clamped | within := lt_max_iff.mp before
    · exact absurd clamped (not_lt.mpr instant.1)
    · exact (lt_min_iff.mp within).2
  have counted : (bucket.lastRefill : ℚ) < (now : ℚ) - 60 * 1000000000 := by exact_mod_cast passed
  unfold seconds
  linarith

/-- Where the retention refills a whole bucket, every idle bucket is full. -/
theorem sweepsRefilled_of_rate {request : Request} (kept : self.Kept request.now)
    (retained : self.capacity ≤ 60 * self.refillPerSec) : self.SweepsRefilled request := by
  intro _ other bucket quiet
  obtain ⟨⟨sameRate, sameCapacity, nonneg, within⟩, seen, instant⟩ :=
    kept.tabled other bucket (getElem?_of_idle quiet)
  have long := quiet_of_idle instant quiet
  have gained : 60 * bucket.refillPerSec ≤
      (seconds request.now - seconds bucket.lastRefill) * bucket.refillPerSec :=
    mul_le_mul_of_nonneg_right long.le (sameRate ▸ kept.configured.refillPerSec)
  rw [TokenBucket.level, refill_of_seen (sameCapacity ▸ within) seen]
  refine min_eq_right ?_
  rw [sameCapacity]
  rw [sameRate] at gained ⊢
  linarith

/-- With such a rate, requests are in order as soon as their timestamps are. -/
theorem orderly_of_rate {requests : List Request} (kept : self.Kept clock)
    (retained : self.capacity ≤ 60 * self.refillPerSec)
    (ordered : (clock :: requests.map Request.now).Pairwise (· ≤ ·)) :
    self.Orderly clock requests := by
  induction requests generalizing self clock with
  | nil => trivial
  | cons request requests inductionHypothesis =>
      obtain ⟨first, rest⟩ := List.pairwise_cons.mp ordered
      have ahead : clock ≤ request.now := first _ List.mem_cons_self
      have same := sameParameters_allow self request.key request.now
      refine ⟨ahead, sweepsRefilled_of_rate (kept.mono ahead) retained,
        inductionHypothesis (kept.allow ahead) ?_ rest⟩
      rw [same.capacity, same.refillPerSec]
      exact retained

/-- Requests keep the table within its bound. -/
theorem within_serve (positive : 0 < self.maxBuckets) (within : self.buckets.size ≤ self.maxBuckets)
    (requests : List Request) : (self.serve requests).buckets.size ≤ self.maxBuckets := by
  induction requests generalizing self with
  | nil => exact within
  | cons request requests inductionHypothesis =>
      obtain ⟨same, kept⟩ := within_allow positive within request.key request.now
      rw [← same] at positive kept ⊢
      exact inductionHypothesis positive kept

end RateLimiter

/-- **What a limiter forgets.** A limiter never tracks more callers than its bound. Where timestamps
do not step back and every bucket that a sweep takes for idle has refilled, it decides every request
as if these buckets had been kept; and so it does wherever the retention refills a whole bucket. -/
theorem idle_removal_unobservable (capacity refillPerSec : ℚ) (maxBuckets : Nat) (start : Ts)
    (requests : List Request) :
    let limiter := RateLimiter.new capacity refillPerSec maxBuckets
    let keeping := KeepingLimiter.new capacity refillPerSec maxBuckets
    (limiter.serve requests).buckets.size ≤ max maxBuckets 1 ∧
      (limiter.Orderly start requests →
        keeping.decisions requests = limiter.decisions requests) ∧
      (max capacity 1 ≤ 60 * max refillPerSec 0 →
        (start :: requests.map Request.now).Pairwise (· ≤ ·) →
          keeping.decisions requests = limiter.decisions requests) := by
  intro limiter keeping
  have kept : limiter.Kept start := RateLimiter.kept_new capacity refillPerSec maxBuckets start
  have agrees : limiter.Agrees start keeping := ⟨rfl, fun _ _ laid => by cases laid⟩
  refine ⟨?_, agrees.decisions kept, fun retained ordered => ?_⟩
  · exact RateLimiter.within_serve (lt_max_of_lt_right Nat.one_pos) (Nat.zero_le _) requests
  · exact agrees.decisions kept (RateLimiter.orderly_of_rate kept retained ordered)

/-- A burst of one client, another client a minute later, and the first one back. -/
def backAfterIdle : List Request :=
  [⟨1, 0, by decide⟩, ⟨1, 0, by decide⟩, ⟨1, 0, by decide⟩, ⟨2, 61000000000, by decide⟩,
    ⟨1, 61000000000, by decide⟩]

/-- At one token a second the client would have refilled. -/
theorem idle_removal_unobservable_paced :
    (KeepingLimiter.new 2 1 1).decisions backAfterIdle =
      (RateLimiter.new 2 1 1).decisions backAfterIdle :=
  (idle_removal_unobservable 2 1 1 0 backAfterIdle).2.2 (by norm_num) (by decide)

/-- Where nothing is refilled, a client that was throttled for good gets a fresh burst. -/
theorem idle_removal_observed :
    (RateLimiter.new 2 0 1).decisions backAfterIdle = [true, true, false, true, true] ∧
      (KeepingLimiter.new 2 0 1).decisions backAfterIdle = [true, true, false, true, false] := by
  decide +kernel

end RecurseX
