import Mathlib.Data.List.Induction
import Mathlib.Data.Nat.Size
import Mathlib.Data.Rat.Floor
import RecurseX.Library.OrderStatistics

/-!
# Latency quantiles

A digest of observed latencies keeps one counter for each power of two. A quantile is
answered with the upper edge of the bucket it falls in; `quantileUs_conservative` relates
that answer to the nearest-rank quantile of the values that were recorded.
-/

namespace RecurseX

open Library

/-- The counters. The last one takes everything from 2^23 µs on. -/
def LATENCY_BUCKETS : Nat := 24

/-- A sum that stops at `u64::MAX`. -/
def saturatingAddU64 (left right : Nat) : Nat := min (left + right) (2 ^ 64 - 1)

/-- The number of zero bits above the highest set bit. -/
def leadingZeros64 (value : UInt64) : Nat := 64 - value.toNat.size

/-- The bucket of a latency. -/
def latencyBucket (micros : UInt64) : Nat :=
  if micros = 0 then 0
  else
    let bits := 64 - leadingZeros64 micros
    min (bits - 1) (LATENCY_BUCKETS - 1)

/-- The upper edge of a bucket; the last one has none. -/
def bucketUpperUs (idx : Nat) : UInt64 :=
  if idx ≥ LATENCY_BUCKETS - 1 then UInt64.ofNat (2 ^ 64 - 1) else UInt64.ofNat (2 ^ (idx + 1))

/-- A bounded digest of latencies. -/
structure LatencyDigest where
  counts : List Nat
  total : Nat
  sumUs : Nat
  minUs : UInt64
  maxUs : UInt64
deriving DecidableEq, Repr

namespace LatencyDigest

/-- An empty digest. -/
def new : LatencyDigest where
  counts := List.replicate LATENCY_BUCKETS 0
  total := 0
  sumUs := 0
  minUs := UInt64.ofNat (2 ^ 64 - 1)
  maxUs := 0

/-- Record one observation, in microseconds. -/
def record (self : LatencyDigest) (micros : UInt64) : LatencyDigest where
  counts := self.counts.modify (latencyBucket micros) (saturatingAddU64 · 1)
  total := saturatingAddU64 self.total 1
  sumUs := saturatingAddU64 self.sumUs micros.toNat
  minUs := min self.minUs micros
  maxUs := max self.maxUs micros

/-- The first bucket with which the counters reach `target`. -/
def reachedAt (target : Nat) : (seen idx : Nat) → List Nat → Option Nat
  | _, _, [] => none
  | seen, idx, c :: counts =>
      let seen := saturatingAddU64 seen c
      if target ≤ seen then some idx else reachedAt target seen (idx + 1) counts

/-- The `q`-quantile as the upper edge of its bucket. -/
def quantileUs (self : LatencyDigest) (q : ℚ) : Option UInt64 :=
  if self.total = 0 then none
  else
    let target := ⌈max 0 (min q 1) * self.total⌉.toNat
    let target := max target 1
    match reachedAt target 0 0 self.counts with
    | some idx => some (bucketUpperUs idx)
    | none => some self.maxUs

/-- Record values one after the other. -/
def recordAll (values : List UInt64) : LatencyDigest := values.foldl record new

end LatencyDigest

/-! ## Buckets -/

/-- The bucket of a number of microseconds, by its length in bits. -/
def bucketOf (micros : Nat) : Nat := min (micros.size - 1) (LATENCY_BUCKETS - 1)

theorem latencyBucket_eq (micros : UInt64) : latencyBucket micros = bucketOf micros.toNat := by
  have short : micros.toNat.size ≤ 64 := Nat.size_le.mpr micros.toNat_lt
  rw [latencyBucket, bucketOf, leadingZeros64, Nat.sub_sub_self short]
  split_ifs with zero
  · rw [zero]
    rfl
  · rfl

theorem bucketOf_lt (micros : Nat) : bucketOf micros < LATENCY_BUCKETS := by
  rw [bucketOf, LATENCY_BUCKETS]
  omega

theorem bucketOf_mono : Monotone bucketOf := by
  intro fewer more le
  have sizes := Nat.size_le_size le
  rw [bucketOf, bucketOf]
  omega

/-- No value is above the upper edge of its bucket. -/
theorem le_bucketUpperUs (micros : UInt64) :
    micros.toNat ≤ (bucketUpperUs (bucketOf micros.toNat)).toNat := by
  have bound := micros.toNat_lt
  rw [bucketUpperUs]
  split_ifs with overflow
  · rw [UInt64.toNat_ofNat']
    omega
  · rw [bucketOf, LATENCY_BUCKETS] at overflow ⊢
    rw [UInt64.toNat_ofNat', Nat.mod_eq_of_lt (Nat.pow_lt_pow_right (by decide) (by omega))]
    have inside := Nat.lt_size_self micros.toNat
    have exponent : micros.toNat.size ≤ min (micros.toNat.size - 1) (24 - 1) + 1 := by omega
    exact inside.le.trans (Nat.pow_le_pow_right (by decide) exponent)

/-- Below the last bucket the upper edge is at most twice a positive value. -/
theorem bucketUpperUs_le {micros : Nat} (positive : 1 ≤ micros) (below : micros < 2 ^ 23) :
    (bucketUpperUs (bucketOf micros)).toNat ≤ 2 * micros := by
  have short : micros.size ≤ 23 := Nat.size_le.mpr below
  have nonempty : 0 < micros.size := Nat.size_pos.mpr positive
  have bucket : bucketOf micros = micros.size - 1 := by
    rw [bucketOf, LATENCY_BUCKETS]
    omega
  have reached : 2 ^ (micros.size - 1) ≤ micros := Nat.lt_size.mp (by omega)
  rw [bucketUpperUs, bucket, if_neg (by rw [LATENCY_BUCKETS]; omega), UInt64.toNat_ofNat',
    Nat.mod_eq_of_lt (Nat.pow_lt_pow_right (by decide) (by omega)), pow_succ]
  omega

/-! ## What a digest holds -/

namespace LatencyDigest

/-- Below saturation the counters are the sizes of the buckets. -/
structure Digests (values : List UInt64) (digest : LatencyDigest) : Prop where
  counts : digest.counts = (List.range LATENCY_BUCKETS).map fun index =>
    (values.map UInt64.toNat).countP (bucketOf · = index)
  total : digest.total = values.length

variable {values : List UInt64} {digest : LatencyDigest}

theorem Digests.new : Digests [] new := ⟨rfl, rfl⟩

theorem Digests.record (digests : Digests values digest) (micros : UInt64)
    (below : values.length + 1 < 2 ^ 64) : Digests (values ++ [micros]) (digest.record micros) := by
  constructor
  · rw [LatencyDigest.record]
    refine List.ext_getElem ?_ fun index inside insideToo => ?_
    · simp [digests.counts]
    · have few := List.countP_le_length (p := (bucketOf · = index)) (l := values.map UInt64.toNat)
      rw [List.length_map] at few
      simp only [List.getElem_modify, digests.counts, List.getElem_map, List.getElem_range,
        latencyBucket_eq, saturatingAddU64, List.map_append, List.countP_append, List.map_singleton,
        List.countP_singleton, decide_eq_true_eq]
      split_ifs <;> omega
  · change saturatingAddU64 digest.total 1 = (values ++ [micros]).length
    rw [saturatingAddU64, digests.total, List.length_append, List.length_singleton]
    omega

theorem digests_recordAll (below : values.length < 2 ^ 64) : Digests values (recordAll values) := by
  induction values using List.reverseRecOn with
  | nil => exact .new
  | append_singleton values micros inductionHypothesis =>
      rw [List.length_append, List.length_singleton] at below
      rw [recordAll, List.foldl_append]
      exact (inductionHypothesis (by omega)).record micros below

/-- The walk stops in the bucket with which the counters reach the target. -/
theorem reachedAt_eq {target seen idx count : Nat} {counts : List Nat}
    (inside : count < counts.length) (before : seen + (counts.take count).sum < target)
    (reached : target ≤ seen + (counts.take (count + 1)).sum) (small : target < 2 ^ 64) :
    reachedAt target seen idx counts = some (idx + count) := by
  induction counts generalizing seen idx count with
  | nil => cases inside
  | cons c counts inductionHypothesis =>
      rw [reachedAt]
      cases count with
      | zero =>
          rw [if_pos]
          · rfl
          · rw [saturatingAddU64]
            simp at reached
            omega
      | succ count =>
          rw [List.take_succ_cons, List.sum_cons] at before reached
          have seen' : saturatingAddU64 seen c = seen + c := by
            rw [saturatingAddU64]
            omega
          rw [seen', if_neg (by omega),
            inductionHypothesis (Nat.lt_of_succ_lt_succ inside) (by omega) (by omega)]
          congr 1
          omega

/-- The walk over the counters of a digest stops in the bucket of the value of that rank. -/
theorem Digests.reachedAt (digests : Digests values digest) {rank exact : Nat} (positive : 0 < rank)
    (small : rank < 2 ^ 64) (found : ranked rank (values.map UInt64.toNat) = some exact) :
    LatencyDigest.reachedAt rank 0 0 digest.counts = some (bucketOf exact) := by
  have inside := bucketOf_lt exact
  have sums {count : Nat} (le : count ≤ LATENCY_BUCKETS) : (digest.counts.take count).sum =
      (values.map UInt64.toNat).countP (bucketOf · < count) := by
    rw [digests.counts, ← List.map_take, List.take_range, Nat.min_eq_left le, sum_bucketSizes]
  obtain ⟨before, reached⟩ := bucket_of_ranked bucketOf_mono positive found
  rw [← sums inside.le] at before
  have upTo : (digest.counts.take (bucketOf exact + 1)).sum = _ := sums inside
  rw [← upTo] at reached
  have walked : LatencyDigest.reachedAt rank 0 0 digest.counts = some (0 + bucketOf exact) :=
    reachedAt_eq (by simpa [digests.counts] using inside) (by omega) (by omega) small
  rwa [Nat.zero_add] at walked

/-- The nearest-rank quantile: the value of rank `⌈q · n⌉`, and of the first rank at least. -/
def nearestRank (q : ℚ) (values : List UInt64) : Option Nat :=
  ranked (max ⌈q * values.length⌉.toNat 1) (values.map UInt64.toNat)

/-- **Conservative quantiles.** The answer is no less than the nearest-rank quantile of what was
recorded, and at most twice it where that is positive and below the last bucket. -/
theorem quantileUs_conservative (values : List UInt64) (q : ℚ) (recorded : values ≠ [])
    (unsaturated : values.length < 2 ^ 64) (nonneg : 0 ≤ q) (atMost : q ≤ 1) :
    ∃ answer exact, (recordAll values).quantileUs q = some answer ∧
      nearestRank q values = some exact ∧ exact ≤ answer.toNat ∧
      (1 ≤ exact → exact < 2 ^ 23 → answer.toNat ≤ 2 * exact) := by
  have digests := digests_recordAll unsaturated
  have filled := List.length_pos_of_ne_nil recorded
  have whole : ⌈q * values.length⌉.toNat ≤ values.length := by
    refine Int.toNat_le.mpr (Int.ceil_le.mpr ?_)
    rw [Int.cast_natCast]
    exact mul_le_of_le_one_left (Nat.cast_nonneg _) atMost
  obtain ⟨exact, found⟩ : ∃ exact, nearestRank q values = some exact :=
    exists_ranked (by omega) (by rw [List.length_map]; omega)
  refine ⟨bucketUpperUs (bucketOf exact), exact, ?_, found, ?_, bucketUpperUs_le⟩
  · have walked := digests.reachedAt (by omega) (by omega) found
    rw [quantileUs, digests.total, if_neg (by omega), min_eq_left atMost, max_eq_right nonneg]
    dsimp only
    rw [walked]
  · obtain ⟨micros, -, rfl⟩ := List.mem_map.mp (mem_of_ranked found)
    exact le_bucketUpperUs micros

/-- The median of six latencies. -/
theorem quantileUs_conservative_median : ∃ answer exact,
    (recordAll [7, 3, 900, 5, 0, 12]).quantileUs (1 / 2) = some answer ∧
      nearestRank (1 / 2) [7, 3, 900, 5, 0, 12] = some exact ∧ exact ≤ answer.toNat ∧
      (1 ≤ exact → exact < 2 ^ 23 → answer.toNat ≤ 2 * exact) :=
  quantileUs_conservative [7, 3, 900, 5, 0, 12] (1 / 2) (by decide) (by decide) (by norm_num)
    (by norm_num)

end LatencyDigest

end RecurseX
