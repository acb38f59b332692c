import RecurseX.Dnssec.LimbArithmetic

/-!
# Modular exponentiation

The long division takes the dividend in bit by bit and keeps its remainder; the
exponentiation takes the exponent in bit by bit and keeps the power's remainder.
-/

namespace RecurseX.Dnssec

open RecurseX.Library

/-- A bit of the limbs is a bit of the number. -/
theorem bitAt_eq (limbs : List UInt32) (index : Nat) :
    bitAt limbs index = (limbsValue limbs).testBit index := by
  rw [testBit_limbsValue, bitAt]
  congr 1
  funext limb
  have shift : (UInt32.ofNat (index % 32)).toNat % 32 = index % 32 := by
    rw [UInt32.toNat_ofNat']
    omega
  rw [Bool.eq_iff_iff, beq_iff_eq, ← UInt32.toNat_inj, UInt32.toNat_and, UInt32.toNat_shiftRight,
    shift, UInt32.toNat_one, Nat.and_one_is_mod, Nat.shiftRight_eq_div_pow,
    Nat.testBit_eq_decide_div_mod_eq, decide_eq_true_iff]

/-- Setting the lowest bit of an even number. -/
theorem limbsValue_setLowest {limbs : List UInt32} (nonempty : limbs ≠ [])
    (even : limbsValue limbs % 2 = 0) :
    limbsValue (limbs.modifyHead (· ||| 1)) = limbsValue limbs + 1 := by
  obtain ⟨limb, rest, rfl⟩ := List.exists_cons_of_ne_nil nonempty
  rw [limbsValue_cons] at even
  have joined : (limb ||| 1).toNat = limb.toNat + 1 := by
    rw [UInt32.toNat_or]
    exact or_eq_add 1 (by omega) (by decide)
  rw [List.modifyHead_cons, limbsValue_cons, limbsValue_cons, joined]
  omega

theorem shiftIn_ne_nil (r acc : List UInt32) (bit : Nat) : shiftIn r acc bit ≠ [] := by
  unfold shiftIn
  dsimp only
  split_ifs with set
  · rw [Ne, List.modifyHead_eq_nil_iff]
    exact shlLimbs_one_ne_nil acc
  · exact shlLimbs_one_ne_nil acc

theorem limbsValue_shiftIn (r acc : List UInt32) (bit : Nat) :
    limbsValue (shiftIn r acc bit)
      = 2 * limbsValue acc + ((limbsValue r).testBit bit).toNat := by
  have shifted : limbsValue (shlLimbs acc 1) = 2 * limbsValue acc := by
    rw [limbsValue_shlLimbs]
    omega
  unfold shiftIn
  dsimp only
  rw [bitAt_eq]
  cases (limbsValue r).testBit bit with
  | false => exact shifted
  | true =>
      rw [if_pos rfl, limbsValue_setLowest (shlLimbs_one_ne_nil acc) (by omega), shifted]
      rfl

/-- One bit of the division: twice the remainder and the bit, reduced. -/
theorem limbsValue_remBit {r m acc : List UInt32} {bit : Nat} (modulus : limbsValue m ≠ 0)
    (leading : limbsValue acc = limbsValue r / 2 ^ (bit + 1) % limbsValue m) :
    limbsValue (remBit r m acc bit) = limbsValue r / 2 ^ bit % limbsValue m := by
  have some : m ≠ [] := fun none => modulus (by rw [none, limbsValue_nil])
  rw [div_two_pow_eq, mod_two_mul_add (Nat.pos_of_ne_zero modulus), ← leading,
    ← limbsValue_shiftIn]
  unfold remBit
  dsimp only
  rw [cmpLimbs_eq (shiftIn_ne_nil r acc bit) some]
  rcases Nat.lt_or_ge (limbsValue (shiftIn r acc bit)) (limbsValue m) with below | fits
  · rw [if_neg (Nat.not_le_of_lt below), if_neg (not_not.mpr (Nat.compare_eq_lt.mpr below))]
  · rw [if_pos fits, if_pos fun lower => Nat.not_lt.mpr fits (Nat.compare_eq_lt.mp lower),
      (subLimbsInPlace_exact fits).1]

/-- The bits from one position down leave the remainder of the whole. -/
theorem limbsValue_foldl_remBit {r m acc : List UInt32} (bits : Nat) (modulus : limbsValue m ≠ 0)
    (leading : limbsValue acc = limbsValue r / 2 ^ bits % limbsValue m) :
    limbsValue ((List.range bits).reverse.foldl (remBit r m) acc)
      = limbsValue r % limbsValue m := by
  induction bits generalizing acc with
  | zero => rw [List.range_zero, List.reverse_nil, List.foldl_nil, leading, pow_zero, Nat.div_one]
  | succ bits inductionHypothesis =>
      rw [List.range_succ, List.reverse_append, List.reverse_singleton, List.singleton_append,
        List.foldl_cons]
      exact inductionHypothesis (limbsValue_remBit modulus leading)

/-- The leading zero bits of a limb are the ones it does not need. -/
theorem toNat_lt_leadingZeros (w : UInt32) :
    leadingZeros w ≤ 32 ∧ w.toNat < 2 ^ (32 - leadingZeros w) := by
  unfold leadingZeros
  split_ifs with zero
  · rw [zero]
    decide
  · have nonzero : w.toNat ≠ 0 := fun none => zero (UInt32.toNat_inj.mp none)
    have small : w.toNat.log2 < 32 := (Nat.log2_lt nonzero).mpr w.toNat_lt
    refine ⟨by omega, ?_⟩
    have width : 32 - (31 - w.toNat.log2) = w.toNat.log2 + 1 := by omega
    rw [width]
    exact Nat.lt_log2_self

/-- No bit is set where the division does not start. -/
theorem limbsValue_lt_lead (limbs : List UInt32) :
    limbsValue limbs < 2 ^ (limbs.length * 32 - limbs.getLast?.elim 32 leadingZeros) := by
  rcases limbs.eq_nil_or_concat' with rfl | ⟨low, top, rfl⟩
  · decide
  · obtain ⟨lead, fits⟩ := toNat_lt_leadingZeros top
    have below := limbsValue_lt low
    have width : (low ++ [top]).length * 32 - leadingZeros top
        = 32 * low.length + (32 - leadingZeros top) := by
      rw [List.length_append, List.length_singleton]
      omega
    rw [List.getLast?_concat, Option.elim_some, width, pow_add, pow_mul, limbsValue_snoc]
    calc limbsValue low + (2 ^ 32) ^ low.length * top.toNat
        < (2 ^ 32) ^ low.length * (top.toNat + 1) := by
          rw [Nat.mul_add_one]
          omega
      _ ≤ (2 ^ 32) ^ low.length * 2 ^ (32 - leadingZeros top) := Nat.mul_le_mul_left _ fits

/-- Bitwise long division leaves the remainder. -/
theorem limbsValue_modRem (a : List UInt32) {m : List UInt32} (modulus : limbsValue m ≠ 0) :
    limbsValue (modRem a m) = limbsValue a % limbsValue m := by
  unfold modRem
  dsimp only
  split_ifs with degenerate
  · rcases degenerate with none | none | zeros
    · have zero : limbsValue a = 0 := by rw [← limbsValue_take_trimLen, none]; rfl
      rw [zero, Nat.zero_mod]
      rfl
    · exact absurd (by rw [← limbsValue_take_trimLen, none]; rfl) modulus
    · exact absurd (by rw [← limbsValue_take_trimLen, limbsValue_eq_zero zeros]) modulus
  · have length : (a.take (trimLen a)).length = trimLen a := by
      rw [List.length_take, Nat.min_eq_left (trimLen_le a)]
    have top := limbsValue_lt_lead (a.take (trimLen a))
    rw [length] at top
    rw [limbsValue_trim, limbsValue_foldl_remBit _ modulus, limbsValue_take_trimLen]
    rw [Nat.div_eq_of_lt top, Nat.zero_mod]
    rfl

/-- Every bit of an exponent leaves a reduced result. -/
theorem limbsValue_powBit_lt (base result : List UInt32) (b : UInt8) (bit : Nat)
    {m : List UInt32} (modulus : limbsValue m ≠ 0) :
    limbsValue (powBit m base b result bit) < limbsValue m := by
  unfold powBit
  dsimp only
  split_ifs with set
  · rw [limbsValue_modRem _ modulus]
    exact Nat.mod_lt _ (Nat.pos_of_ne_zero modulus)
  · rw [limbsValue_modRem _ modulus]
    exact Nat.mod_lt _ (Nat.pos_of_ne_zero modulus)

section Exponent

variable {m base : List UInt32} {power : Nat} (modulus : limbsValue m ≠ 0)
  (reduced : limbsValue base ≡ power [MOD limbsValue m])

include modulus reduced

/-- Squaring, and multiplying where the exponent's bit is set, appends the bit to the
exponent. -/
theorem powBit_modEq {result : List UInt32} {b : UInt8} {bit exponent : Nat} (inside : bit < 8)
    (raised : limbsValue result ≡ power ^ exponent [MOD limbsValue m]) :
    limbsValue (powBit m base b result bit)
      ≡ power ^ (2 * exponent + (b.toNat.testBit bit).toNat) [MOD limbsValue m] := by
  have squared : limbsValue (modRem (mulLimbs result result) m)
      ≡ power ^ (2 * exponent) [MOD limbsValue m] := by
    rw [limbsValue_modRem _ modulus, limbsValue_mulLimbs, Nat.two_mul, pow_add]
    exact (Nat.mod_modEq _ _).trans (raised.mul raised)
  have shift : (UInt8.ofNat bit).toNat % 8 = bit := by
    rw [UInt8.toNat_ofNat']
    omega
  have tested : ((b >>> UInt8.ofNat bit) &&& 1 == 1) = b.toNat.testBit bit := by
    rw [Bool.eq_iff_iff, beq_iff_eq, ← UInt8.toNat_inj, UInt8.toNat_and, UInt8.toNat_shiftRight,
      shift, UInt8.toNat_one, Nat.and_one_is_mod, Nat.shiftRight_eq_div_pow,
      Nat.testBit_eq_decide_div_mod_eq, decide_eq_true_iff]
  unfold powBit
  dsimp only
  rw [tested]
  cases b.toNat.testBit bit with
  | false => exact squared
  | true =>
      rw [if_pos rfl, limbsValue_modRem _ modulus, limbsValue_mulLimbs]
      exact (Nat.mod_modEq _ _).trans (squared.mul reduced)

/-- The bits of an octet from one position down are appended to the exponent. -/
theorem foldl_powBit_modEq {result : List UInt32} {b : UInt8} {bits exponent : Nat}
    (inside : bits ≤ 8)
    (raised : limbsValue result ≡ power ^ ((exponent * 256 + b.toNat) / 2 ^ bits)
      [MOD limbsValue m]) :
    limbsValue ((List.range bits).reverse.foldl (powBit m base b) result)
      ≡ power ^ (exponent * 256 + b.toNat) [MOD limbsValue m] := by
  induction bits generalizing result with
  | zero => simpa using raised
  | succ bits inductionHypothesis =>
      have low : (exponent * 256 + b.toNat).testBit bits = b.toNat.testBit bits := by
        rw [Nat.mul_comm, Nat.testBit_two_pow_mul_add (i := 8) exponent b.toNat_lt,
          if_pos (Nat.lt_of_succ_le inside)]
      rw [List.range_succ, List.reverse_append, List.reverse_singleton, List.singleton_append,
        List.foldl_cons]
      refine inductionHypothesis (by omega) ?_
      rw [div_two_pow_eq, low]
      exact powBit_modEq modulus reduced (by omega) raised

/-- The octets of the exponent are appended one after the other. -/
theorem foldl_powByte_modEq (exp : Bytes) {result : List UInt32} (exponent : Nat)
    (raised : limbsValue result ≡ power ^ exponent [MOD limbsValue m]) :
    limbsValue (exp.foldl (powByte m base) result)
      ≡ power ^ exp.foldl (fun value octet => value * 256 + octet.toNat) exponent
        [MOD limbsValue m] := by
  induction exp generalizing result exponent with
  | nil => exact raised
  | cons b exp inductionHypothesis =>
      refine inductionHypothesis _ (foldl_powBit_modEq modulus reduced (le_refl 8) ?_)
      have above : (exponent * 256 + b.toNat) / 2 ^ 8 = exponent := by
        have bound := b.toNat_lt
        omega
      rwa [above]

end Exponent

/-- The arithmetic of the limbs is exact for operands of any length. -/
structure ExactLimbs : Prop where
  /-- The product is the product, and no row of it wraps or loses a carry. -/
  multiplies : ∀ a b, limbsValue (mulLimbs a b) = limbsValue a * limbsValue b
    ∧ MulRowsFit (b.take (trimLen b)) 0 (a.take (trimLen a))
        (List.replicate (trimLen a + trimLen b) 0)
  /-- No bit is shifted out. -/
  shifts : ∀ a bits, limbsValue (shlLimbs a bits) = limbsValue a * 2 ^ bits
  /-- Leading zero limbs do not change a comparison. -/
  compares : ∀ a b, a ≠ [] → b ≠ [] → cmpLimbs a b = compare (limbsValue a) (limbsValue b)
  /-- A difference is the difference, and its chain neither wraps nor borrows past the end. -/
  subtracts : ∀ a b, limbsValue b ≤ limbsValue a →
    limbsValue (subLimbsInPlace a b).1 = limbsValue a - limbsValue b
      ∧ (subLimbsInPlace a b).2 = 0 ∧ SubFits a b 0
  /-- A remainder is the remainder. -/
  divides : ∀ a m, limbsValue m ≠ 0 → limbsValue (modRem a m) = limbsValue a % limbsValue m

theorem exactLimbs : ExactLimbs where
  multiplies a b := ⟨limbsValue_mulLimbs a b, (mulRows_significant a b).2⟩
  shifts := limbsValue_shlLimbs
  compares _ _ := cmpLimbs_eq
  subtracts _ _ := subLimbsInPlace_exact
  divides a _ := limbsValue_modRem a

/-- Modular exponentiation gives the shortest octets of the power's remainder. -/
theorem modPow_eq {base exp m : Bytes} (nonempty : exp ≠ []) (modulus : natOfBytes m ≠ 0) :
    modPow base exp m = minimalBytes (natOfBytes base ^ natOfBytes exp % natOfBytes m) := by
  rw [← limbsValue_toLimbsBe m] at modulus
  have reduced : limbsValue (modRem (toLimbsBe base) (toLimbsBe m))
      ≡ natOfBytes base [MOD limbsValue (toLimbsBe m)] := by
    rw [limbsValue_modRem _ modulus, limbsValue_toLimbsBe base]
    exact Nat.mod_modEq _ _
  have raised := foldl_powByte_modEq modulus reduced exp 0
    (show limbsValue [1] ≡ _ [MOD _] by rw [pow_zero]; rfl)
  have below : limbsValue (exp.foldl (powByte (toLimbsBe m)
      (modRem (toLimbsBe base) (toLimbsBe m))) [1]) < limbsValue (toLimbsBe m) := by
    rcases exp.eq_nil_or_concat' with rfl | ⟨leading, last, rfl⟩
    · exact absurd rfl nonempty
    · rw [List.foldl_append]
      exact limbsValue_powBit_lt _ _ last 0 modulus
  unfold modPow
  dsimp only
  rw [toBeBytes_eq, ← Nat.mod_eq_of_lt below, raised, limbsValue_toLimbsBe]
  rfl

/-- Modular exponentiation is exact, over limb arithmetic that is. -/
theorem modPow_exact {base exp m : Bytes} (nonempty : exp ≠ []) (modulus : natOfBytes m ≠ 0) :
    modPow base exp m = minimalBytes (natOfBytes base ^ natOfBytes exp % natOfBytes m)
      ∧ ExactLimbs :=
  ⟨modPow_eq nonempty modulus, exactLimbs⟩

/-- A modulus of one cannot keep the initial one, and a base above the modulus is reduced. -/
theorem modPow_exact_one :
    modPow [2, 0] [3] [0, 1] = minimalBytes (natOfBytes [2, 0] ^ natOfBytes [3] % natOfBytes [0, 1])
      ∧ ExactLimbs :=
  modPow_exact (by decide) (by decide)

end RecurseX.Dnssec
