import Mathlib.Algebra.GroupWithZero.Nat
import Mathlib.Data.Nat.Digits.Lemmas
import RecurseX.Library.Located

/-!
# Numbers in network order

A fixed number of octets, most significant first, and the number they spell.
-/

namespace RecurseX.Library

/-- The number the octets spell. -/
def natOfBytes (bytes : Bytes) : Nat := bytes.foldl (fun value octet => value * 256 + octet.toNat) 0

/-- The last `count` octets of a number. -/
def bytesOfNat : (count value : Nat) → Bytes
  | 0, _ => []
  | count + 1, value => bytesOfNat count (value / 256) ++ [UInt8.ofNat value]

theorem bytesOfNat_succ (count value : Nat) :
    bytesOfNat (count + 1) value = bytesOfNat count (value / 256) ++ [UInt8.ofNat value] := rfl

theorem length_bytesOfNat (count value : Nat) : (bytesOfNat count value).length = count := by
  induction count generalizing value with
  | zero => rfl
  | succ count inductionHypothesis =>
      rw [bytesOfNat_succ, List.length_append, inductionHypothesis, List.length_singleton]

/-- The octets of a number spell it, up to what does not fit. -/
theorem natOfBytes_bytesOfNat (count value : Nat) :
    natOfBytes (bytesOfNat count value) = value % 256 ^ count := by
  induction count generalizing value with
  | zero => simp [bytesOfNat, natOfBytes, Nat.mod_one]
  | succ count inductionHypothesis =>
      have leading := inductionHypothesis (value / 256)
      unfold natOfBytes at leading ⊢
      rw [bytesOfNat_succ, List.foldl_append, leading, pow_succ', Nat.mod_mul]
      simp only [List.foldl_cons, List.foldl_nil, UInt8.toNat_ofNat']
      omega

/-- As many octets as spelled a number spell it again. -/
theorem bytesOfNat_natOfBytes (bytes : Bytes) : bytesOfNat bytes.length (natOfBytes bytes) = bytes := by
  induction bytes using List.reverseRecOn with
  | nil => rfl
  | append_singleton bytes octet inductionHypothesis =>
      have last := octet.toNat_lt
      have spelled : natOfBytes (bytes ++ [octet]) = natOfBytes bytes * 256 + octet.toNat := by
        simp only [natOfBytes, List.foldl_append, List.foldl_cons, List.foldl_nil]
      have high : (natOfBytes bytes * 256 + octet.toNat) / 256 = natOfBytes bytes := by omega
      have low : UInt8.ofNat (natOfBytes bytes * 256 + octet.toNat) = octet := by
        apply UInt8.toNat_inj.mp
        rw [UInt8.toNat_ofNat']
        omega
      rw [List.length_append, List.length_singleton, bytesOfNat_succ, spelled, high, low,
        inductionHypothesis]

/-- The spelled number, by its digits from the last octet. -/
theorem natOfBytes_eq_ofDigits (bytes : Bytes) :
    natOfBytes bytes = Nat.ofDigits 256 (bytes.reverse.map UInt8.toNat) := by
  induction bytes using List.reverseRecOn with
  | nil => rfl
  | append_singleton bytes octet inductionHypothesis =>
      rw [List.reverse_append, List.reverse_singleton, List.singleton_append, List.map_cons,
        Nat.ofDigits_cons, ← inductionHypothesis, natOfBytes, List.foldl_append, natOfBytes]
      simp only [List.foldl_cons, List.foldl_nil]
      omega

theorem natOfBytes_append (high low : Bytes) :
    natOfBytes (high ++ low) = natOfBytes high * 256 ^ low.length + natOfBytes low := by
  rw [natOfBytes_eq_ofDigits, List.reverse_append, List.map_append, Nat.ofDigits_append,
    ← natOfBytes_eq_ofDigits, ← natOfBytes_eq_ofDigits, List.length_map, List.length_reverse,
    Nat.mul_comm, Nat.add_comm]

theorem natOfBytes_lt (bytes : Bytes) : natOfBytes bytes < 256 ^ bytes.length := by
  have below : ∀ digit ∈ bytes.reverse.map UInt8.toNat, digit < 256 := by
    intro digit member
    obtain ⟨octet, -, rfl⟩ := List.mem_map.mp member
    exact octet.toNat_lt
  simpa [natOfBytes_eq_ofDigits] using Nat.ofDigits_lt_base_pow_length (by decide) below

theorem natOfBytes_be32 (word : UInt32) : natOfBytes (be32 word) = word.toNat := by
  have bound := word.toNat_lt
  simp only [natOfBytes, be32, List.foldl_cons, List.foldl_nil, UInt8.toNat_ofNat']
  omega

theorem natOfBytes_replicate_append (count : Nat) (bytes : Bytes) :
    natOfBytes (List.replicate count 0 ++ bytes) = natOfBytes bytes := by
  induction count with
  | zero => rfl
  | succ count inductionHypothesis => exact inductionHypothesis

/-- Leading zero octets do not count. -/
theorem natOfBytes_dropWhile (bytes : Bytes) :
    natOfBytes (bytes.dropWhile (· == 0)) = natOfBytes bytes := by
  induction bytes with
  | nil => rfl
  | cons octet bytes inductionHypothesis =>
      by_cases zero : octet = 0
      · subst zero
        rw [List.dropWhile_cons_of_pos (by rfl), inductionHypothesis]
        rfl
      · rw [List.dropWhile_cons_of_neg (by simpa using zero)]

/-- The shortest octets that spell the number; zero is spelled by one octet. -/
def minimalBytes (value : Nat) : Bytes :=
  if value = 0 then [0] else ((Nat.digits 256 value).map UInt8.ofNat).reverse

/-- Octets that begin with no zero are the shortest ones for the number they spell. -/
theorem minimalBytes_natOfBytes {octet : UInt8} (rest : Bytes) (nonzero : octet ≠ 0) :
    minimalBytes (natOfBytes (octet :: rest)) = octet :: rest := by
  have digits : Nat.digits 256 (natOfBytes (octet :: rest))
      = (octet :: rest).reverse.map UInt8.toNat := by
    rw [natOfBytes_eq_ofDigits]
    refine Nat.digits_ofDigits 256 (by decide) _ ?_ ?_
    · intro digit member
      obtain ⟨octet, -, rfl⟩ := List.mem_map.mp member
      exact octet.toNat_lt
    · intro nonempty
      simpa [List.getLast_map] using fun zero => nonzero (UInt8.toNat_inj.mp zero)
  have positive : natOfBytes (octet :: rest) ≠ 0 := by
    intro zero
    simp [zero] at digits
  rw [minimalBytes, if_neg positive, digits]
  simp [Function.comp_def]

theorem natOfBytes_minimalBytes (value : Nat) : natOfBytes (minimalBytes value) = value := by
  unfold minimalBytes
  split_ifs with zero
  · rw [zero]
    rfl
  · have octets : ((Nat.digits 256 value).map UInt8.ofNat).map UInt8.toNat
        = Nat.digits 256 value := by
      rw [List.map_map]
      refine (List.map_congr_left fun digit member => ?_).trans (List.map_id _)
      rw [Function.comp_apply, UInt8.toNat_ofNat', Nat.mod_eq_of_lt]
      · rfl
      · exact Nat.digits_lt_base (by decide) member
    rw [natOfBytes_eq_ofDigits, List.reverse_reverse, octets, Nat.ofDigits_digits]

/-- Octets without their leading zeros; zero keeps one octet. -/
def dropLeadingZeros (bytes : Bytes) : Bytes :=
  match bytes.dropWhile (· == 0) with
  | [] => [0]
  | out => out

/-- Dropping leading zeros leaves the shortest octets. -/
theorem dropLeadingZeros_eq (bytes : Bytes) :
    dropLeadingZeros bytes = minimalBytes (natOfBytes bytes) := by
  have spelled := natOfBytes_dropWhile bytes
  unfold dropLeadingZeros
  cases out : bytes.dropWhile (· == 0) with
  | nil =>
      rw [out] at spelled
      rw [← spelled]
      rfl
  | cons octet rest =>
      have nonzero : octet ≠ 0 := by
        have head := List.head?_dropWhile_not (· == 0) bytes
        rw [out] at head
        simpa using head
      rw [out] at spelled
      rw [← spelled, minimalBytes_natOfBytes rest nonzero]

/-- The shortest octets, padded with zeros, are any other octets for the number. -/
theorem replicate_append_minimalBytes {bytes : Bytes} (nonempty : bytes ≠ []) :
    (minimalBytes (natOfBytes bytes)).length ≤ bytes.length
      ∧ List.replicate (bytes.length - (minimalBytes (natOfBytes bytes)).length) 0
          ++ minimalBytes (natOfBytes bytes) = bytes := by
  induction bytes with
  | nil => exact absurd rfl nonempty
  | cons octet rest inductionHypothesis =>
      by_cases zero : octet = 0
      · subst zero
        have same : natOfBytes (0 :: rest) = natOfBytes rest := rfl
        rw [same]
        cases rest with
        | nil => exact ⟨le_refl _, rfl⟩
        | cons next rest =>
            obtain ⟨shorter, padded⟩ := inductionHypothesis (List.cons_ne_nil _ _)
            refine ⟨Nat.le_succ_of_le shorter, ?_⟩
            rw [List.length_cons, Nat.succ_sub shorter, List.replicate_succ, List.cons_append,
              padded]
      · rw [minimalBytes_natOfBytes rest zero, Nat.sub_self]
        exact ⟨le_refl _, rfl⟩

end RecurseX.Library
