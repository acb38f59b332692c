import Mathlib.Tactic.Linarith
import RecurseX.Dnssec.BigInt

/-!
# Multiplying, shifting and subtracting limbs

The product is a sum of rows, each a carry chain; a shift joins two halves of every
limb; a difference is a borrow chain. A chain fits when none of its sums wraps and
nothing is left at its end.
-/

namespace RecurseX.Dnssec

open RecurseX.Library

/-! ## Multiplication -/

/-- No sum of the carry chain wraps, and no carry is left at its end. -/
def CarryUpFits : (slots : List UInt32) → (carry : UInt64) → Prop
  | slot :: slots, carry =>
      carry = 0 ∨ slot.toNat + carry.toNat < 2 ^ 64
        ∧ CarryUpFits slots ((slot.toUInt64 + carry) >>> 32)
  | [], carry => carry = 0

/-- No sum of the row wraps, it has a slot for every limb, and no carry is left at its end. -/
def MulRowFits (av : UInt32) : (slots b : List UInt32) → (carry : UInt64) → Prop
  | slot :: slots, bv :: b, carry =>
      slot.toNat + av.toNat * bv.toNat + carry.toNat < 2 ^ 64
        ∧ MulRowFits av slots b ((slot.toUInt64 + av.toUInt64 * bv.toUInt64 + carry) >>> 32)
  | slots, [], carry => CarryUpFits slots carry
  | [], _ :: _, _ => False

/-- Every row fits. -/
def MulRowsFit (b : List UInt32) : (i : Nat) → (a out : List UInt32) → Prop
  | _, [], _ => True
  | i, av :: a, out =>
      MulRowFits av (out.drop i) b 0
        ∧ MulRowsFit b (i + 1) a (out.take i ++ (mulRow av (out.drop i) b 0).1)

/-- A 64-bit sum that fits is its low limb and its carry. -/
theorem carry_split {cur : UInt64} {sum : Nat} (exact : cur.toNat = sum) :
    cur.toUInt32.toNat + 2 ^ 32 * (cur >>> 32).toNat = sum ∧ (cur >>> 32).toNat < 2 ^ 32 := by
  have bound := cur.toNat_lt
  have high : (cur >>> 32).toNat = cur.toNat / 2 ^ 32 := by
    rw [UInt64.toNat_shiftRight, Nat.shiftRight_eq_div_pow]
    rfl
  rw [UInt64.toNat_toUInt32, high, exact]
  omega

/-- The sum of a carry step does not wrap. -/
theorem carrySum_toNat (slot : UInt32) {carry : UInt64} (small : carry.toNat < 2 ^ 32) :
    (slot.toUInt64 + carry).toNat = slot.toNat + carry.toNat := by
  have bound := slot.toNat_lt
  rw [UInt64.toNat_add, UInt32.toNat_toUInt64, Nat.mod_eq_of_lt (by omega)]

/-- The sum of a row's step does not wrap. -/
theorem rowSum_toNat (slot av bv : UInt32) {carry : UInt64} (small : carry.toNat < 2 ^ 32) :
    (slot.toUInt64 + av.toUInt64 * bv.toUInt64 + carry).toNat
      = slot.toNat + av.toNat * bv.toNat + carry.toNat := by
  have slotBound := slot.toNat_lt
  have product : av.toNat * bv.toNat ≤ (2 ^ 32 - 1) * (2 ^ 32 - 1) :=
    Nat.mul_le_mul (Nat.le_pred_of_lt av.toNat_lt) (Nat.le_pred_of_lt bv.toNat_lt)
  rw [UInt64.toNat_add, UInt64.toNat_add, UInt64.toNat_mul, UInt32.toNat_toUInt64,
    UInt32.toNat_toUInt64, UInt32.toNat_toUInt64]
  omega

theorem carryUp_cons (slot : UInt32) (slots : List UInt32) (carry : UInt64) :
    carryUp (slot :: slots) carry =
      if carry = 0 then (slot :: slots, carry)
      else
        let cur := slot.toUInt64 + carry
        let above := carryUp slots (cur >>> 32)
        (cur.toUInt32 :: above.1, above.2) := rfl

theorem length_carryUp (slots : List UInt32) (carry : UInt64) :
    (carryUp slots carry).1.length = slots.length := by
  induction slots, carry using carryUp.induct with
  | case1 slot slots => rw [carryUp_cons, if_pos rfl]
  | case2 slot slots carry nonzero cur inductionHypothesis =>
      rw [carryUp_cons, if_neg nonzero]
      exact congrArg Nat.succ inductionHypothesis
  | case3 carry => rfl

/-- A carry chain adds the carry. -/
theorem limbsValue_carryUp (slots : List UInt32) {carry : UInt64} (small : carry.toNat < 2 ^ 32) :
    limbsValue (carryUp slots carry).1 + (2 ^ 32) ^ slots.length * (carryUp slots carry).2.toNat
      = limbsValue slots + carry.toNat := by
  induction slots, carry using carryUp.induct with
  | case1 slot slots =>
      rw [carryUp_cons, if_pos rfl]
      rfl
  | case2 slot slots carry nonzero cur inductionHypothesis =>
      obtain ⟨split, next⟩ := carry_split (carrySum_toNat slot small)
      have above := inductionHypothesis next
      rw [carryUp_cons, if_neg nonzero]
      simp only [limbsValue_cons, List.length_cons, pow_succ' (2 ^ 32) slots.length]
      simp only [cur] at above
      linarith
  | case3 carry => simp [carryUp]

theorem carryUpFits_iff (slots : List UInt32) {carry : UInt64} (small : carry.toNat < 2 ^ 32) :
    CarryUpFits slots carry ↔ (carryUp slots carry).2 = 0 := by
  induction slots, carry using carryUp.induct with
  | case1 slot slots =>
      rw [carryUp_cons, if_pos rfl]
      exact iff_of_true (Or.inl rfl) rfl
  | case2 slot slots carry nonzero cur inductionHypothesis =>
      have sum := carrySum_toNat slot small
      rw [carryUp_cons, if_neg nonzero, CarryUpFits, inductionHypothesis (carry_split sum).2, ← sum]
      constructor
      · rintro (zero | fits)
        · exact absurd zero nonzero
        · exact fits.2
      · exact fun fits => Or.inr ⟨UInt64.toNat_lt _, fits⟩
  | case3 carry => rfl

theorem mulRow_cons (av slot bv : UInt32) (slots b : List UInt32) (carry : UInt64) :
    mulRow av (slot :: slots) (bv :: b) carry =
      let cur := slot.toUInt64 + av.toUInt64 * bv.toUInt64 + carry
      let above := mulRow av slots b (cur >>> 32)
      (cur.toUInt32 :: above.1, above.2) := rfl

theorem mulRow_nil (av : UInt32) (slots : List UInt32) (carry : UInt64) :
    mulRow av slots [] carry = carryUp slots carry := by
  cases slots <;> rfl

theorem length_mulRow (av : UInt32) (slots b : List UInt32) (carry : UInt64) :
    (mulRow av slots b carry).1.length = slots.length := by
  induction slots, b, carry using mulRow.induct av with
  | case1 slot slots bv b carry cur inductionHypothesis =>
      rw [mulRow_cons]
      exact congrArg Nat.succ inductionHypothesis
  | case2 slots carry => rw [mulRow_nil, length_carryUp]
  | case3 bv b carry => rfl

/-- A row adds `av` times `b`. -/
theorem limbsValue_mulRow (av : UInt32) {slots b : List UInt32} (carry : UInt64)
    (room : b.length ≤ slots.length) (small : carry.toNat < 2 ^ 32) :
    limbsValue (mulRow av slots b carry).1
        + (2 ^ 32) ^ slots.length * (mulRow av slots b carry).2.toNat
      = limbsValue slots + av.toNat * limbsValue b + carry.toNat := by
  induction slots, b, carry using mulRow.induct av with
  | case1 slot slots bv b carry cur inductionHypothesis =>
      obtain ⟨split, next⟩ := carry_split (rowSum_toNat slot av bv small)
      have above := inductionHypothesis (Nat.le_of_succ_le_succ room) next
      rw [mulRow_cons]
      simp only [limbsValue_cons, List.length_cons, pow_succ' (2 ^ 32) slots.length]
      simp only [cur] at above
      linarith
  | case2 slots carry =>
      rw [mulRow_nil, limbsValue_carryUp slots small, limbsValue_nil, Nat.mul_zero, Nat.add_zero]
  | case3 bv b carry => exact absurd room (Nat.not_succ_le_zero _)

theorem mulRowFits_iff (av : UInt32) {slots b : List UInt32} {carry : UInt64}
    (room : b.length ≤ slots.length) (small : carry.toNat < 2 ^ 32) :
    MulRowFits av slots b carry ↔ (mulRow av slots b carry).2 = 0 := by
  induction slots, b, carry using mulRow.induct av with
  | case1 slot slots bv b carry cur inductionHypothesis =>
      have sum := rowSum_toNat slot av bv small
      rw [mulRow_cons, MulRowFits,
        inductionHypothesis (Nat.le_of_succ_le_succ room) (carry_split sum).2, ← sum]
      exact and_iff_right (UInt64.toNat_lt _)
  | case2 slots carry => rw [mulRow_nil, MulRowFits, carryUpFits_iff slots small]
  | case3 bv b carry => exact absurd room (Nat.not_succ_le_zero _)

/-- A row leaves its product in the slots above its offset, as long as the slots hold less
than the rows before it can have filled. -/
theorem mulRow_exact (av : UInt32) {slots b : List UInt32} (room : b.length < slots.length)
    (small : limbsValue slots < (2 ^ 32) ^ b.length) :
    (mulRow av slots b 0).2 = 0
      ∧ limbsValue (mulRow av slots b 0).1 = limbsValue slots + av.toNat * limbsValue b
      ∧ limbsValue slots + av.toNat * limbsValue b < (2 ^ 32) ^ (b.length + 1) := by
  have sum := limbsValue_mulRow av 0 (Nat.le_of_lt room) (by decide)
  have factor := limbsValue_lt b
  have product : av.toNat * limbsValue b ≤ (2 ^ 32 - 1) * limbsValue b :=
    Nat.mul_le_mul_right _ (Nat.le_pred_of_lt av.toNat_lt)
  have fits : limbsValue slots + av.toNat * limbsValue b < (2 ^ 32) ^ (b.length + 1) := by
    rw [pow_succ' (2 ^ 32) b.length]
    omega
  have power : (2 ^ 32) ^ (b.length + 1) ≤ (2 ^ 32) ^ slots.length :=
    Nat.pow_le_pow_right (by decide) room
  have none : (mulRow av slots b 0).2 = 0 := by
    by_contra left
    have positive : 0 < (mulRow av slots b 0).2.toNat := Nat.pos_of_ne_zero fun zero =>
      left (UInt64.toNat_inj.mp zero)
    have overflow : (2 ^ 32) ^ slots.length
        ≤ (2 ^ 32) ^ slots.length * (mulRow av slots b 0).2.toNat :=
      Nat.le_mul_of_pos_right _ positive
    simp only [UInt64.toNat_zero] at sum
    omega
  refine ⟨none, ?_, fits⟩
  simpa [none] using sum

/-- The rows from an offset add their product there, and every one of them fits. -/
theorem mulRows_exact (b : List UInt32) {i : Nat} {a : List UInt32} (out : List UInt32)
    (room : out.length = i + a.length + b.length)
    (small : limbsValue out < (2 ^ 32) ^ (i + b.length)) :
    limbsValue (mulRows b i a out)
        = limbsValue out + (2 ^ 32) ^ i * (limbsValue a * limbsValue b)
      ∧ MulRowsFit b i a out := by
  induction a generalizing i out with
  | nil =>
      refine ⟨?_, trivial⟩
      rw [mulRows, limbsValue_nil, Nat.zero_mul, Nat.mul_zero, Nat.add_zero]
  | cons av a inductionHypothesis =>
      have inside : i ≤ out.length := by omega
      have above : limbsValue (out.drop i) < (2 ^ 32) ^ b.length := by
        rw [limbsValue_drop out inside]
        exact Nat.div_lt_of_lt_mul (by rwa [← pow_add])
      have wide : b.length < (out.drop i).length := by
        rw [List.length_drop, room, List.length_cons]
        omega
      obtain ⟨none, row, fits⟩ := mulRow_exact av wide above
      have below := limbsValue_lt (out.take i)
      have split := limbsValue_append (out.take i) (out.drop i)
      rw [List.take_append_drop] at split
      rw [List.length_take, Nat.min_eq_left inside] at below split
      have next : limbsValue (out.take i ++ (mulRow av (out.drop i) b 0).1)
          = limbsValue out + (2 ^ 32) ^ i * (av.toNat * limbsValue b) := by
        rw [limbsValue_append, row, List.length_take, Nat.min_eq_left inside, split]
        ring
      have reached : limbsValue out + (2 ^ 32) ^ i * (av.toNat * limbsValue b)
          < (2 ^ 32) ^ (i + 1 + b.length) := by
        calc limbsValue out + (2 ^ 32) ^ i * (av.toNat * limbsValue b)
            = limbsValue (out.take i) + (2 ^ 32) ^ i
                * (limbsValue (out.drop i) + av.toNat * limbsValue b) := by rw [split]; ring
          _ < (2 ^ 32) ^ i * (limbsValue (out.drop i) + av.toNat * limbsValue b + 1) := by
              rw [Nat.mul_add_one]
              omega
          _ ≤ (2 ^ 32) ^ i * (2 ^ 32) ^ (b.length + 1) := Nat.mul_le_mul_left _ fits
          _ = (2 ^ 32) ^ (i + 1 + b.length) := by rw [← pow_add]; congr 1; omega
      obtain ⟨total, rest⟩ := inductionHypothesis (i := i + 1)
        (out.take i ++ (mulRow av (out.drop i) b 0).1)
        (by
          rw [List.length_append, length_mulRow, List.length_take, List.length_drop, room,
            List.length_cons]
          omega)
        (by rwa [next])
      refine ⟨?_, (mulRowFits_iff av (Nat.le_of_lt wide) (by decide)).mpr none, rest⟩
      rw [mulRows, total, next, limbsValue_cons, pow_succ (2 ^ 32) i]
      ring

/-- The product of the significant limbs, before trimming. -/
theorem mulRows_significant (a b : List UInt32) :
    limbsValue (mulRows (b.take (trimLen b)) 0 (a.take (trimLen a))
        (List.replicate (trimLen a + trimLen b) 0)) = limbsValue a * limbsValue b
      ∧ MulRowsFit (b.take (trimLen b)) 0 (a.take (trimLen a))
          (List.replicate (trimLen a + trimLen b) 0) := by
  obtain ⟨product, fits⟩ := mulRows_exact (b.take (trimLen b)) (i := 0) (a := a.take (trimLen a))
    (List.replicate (trimLen a + trimLen b) 0)
    (by
      rw [List.length_replicate, List.length_take, List.length_take,
        Nat.min_eq_left (trimLen_le a), Nat.min_eq_left (trimLen_le b), Nat.zero_add])
    (by
      rw [limbsValue_replicate]
      exact Nat.pow_pos (by decide))
  refine ⟨?_, fits⟩
  rw [product, limbsValue_replicate, limbsValue_take_trimLen, limbsValue_take_trimLen, pow_zero,
    Nat.one_mul, Nat.zero_add]

/-- Schoolbook multiplication multiplies. -/
@[simp] theorem limbsValue_mulLimbs (a b : List UInt32) :
    limbsValue (mulLimbs a b) = limbsValue a * limbsValue b := by
  unfold mulLimbs
  rw [limbsValue_trim, (mulRows_significant a b).1]

/-! ## Shifting and subtraction -/

theorem setSlots_replicate {count : Nat} {values : List UInt32} (room : values.length ≤ count) :
    setSlots (List.replicate count 0) values
      = values ++ List.replicate (count - values.length) 0 := by
  induction values generalizing count with
  | nil => cases count <;> rfl
  | cons v values inductionHypothesis =>
      cases count with
      | zero => exact absurd room (Nat.not_succ_le_zero _)
      | succ count =>
          rw [List.replicate_succ, setSlots, inductionHypothesis (Nat.le_of_succ_le_succ room),
            List.length_cons, Nat.succ_sub_succ, List.cons_append]

/-- Into zeros, or is assignment. -/
theorem orSlots_replicate (count : Nat) (values : List UInt32) :
    orSlots (List.replicate count 0) values = setSlots (List.replicate count 0) values := by
  induction values generalizing count with
  | nil => cases count <;> rfl
  | cons v values inductionHypothesis =>
      cases count with
      | zero => rfl
      | succ count => rw [List.replicate_succ, orSlots, setSlots, inductionHypothesis,
          UInt32.zero_or]

/-- The two halves of a shifted limb. -/
theorem shift_split (limb : UInt32) {bit : Nat} (positive : 0 < bit) (small : bit < 32) :
    (limb <<< UInt32.ofNat bit).toNat
        + 2 ^ 32 * (limb >>> UInt32.ofNat (32 - bit)).toNat = limb.toNat * 2 ^ bit
      ∧ (limb <<< UInt32.ofNat bit).toNat % 2 ^ bit = 0
      ∧ (limb >>> UInt32.ofNat (32 - bit)).toNat < 2 ^ bit := by
  have bound := limb.toNat_lt
  have power : 2 ^ (32 - bit) * 2 ^ bit = 2 ^ 32 := by
    rw [← pow_add]
    congr 1
    omega
  have low : (limb <<< UInt32.ofNat bit).toNat = limb.toNat * 2 ^ bit % 2 ^ 32 := by
    rw [UInt32.toNat_shiftLeft, UInt32.toNat_ofNat', Nat.shiftLeft_eq]
    congr 3
    omega
  have high : (limb >>> UInt32.ofNat (32 - bit)).toNat = limb.toNat * 2 ^ bit / 2 ^ 32 := by
    have cancelled : limb.toNat * 2 ^ bit / 2 ^ 32 = limb.toNat / 2 ^ (32 - bit) := by
      rw [← power, Nat.mul_div_mul_right _ _ (Nat.two_pow_pos bit)]
    rw [UInt32.toNat_shiftRight, UInt32.toNat_ofNat', Nat.shiftRight_eq_div_pow, cancelled]
    congr 2
    omega
  refine ⟨?_, ?_, ?_⟩
  · rw [low, high]
    exact Nat.mod_add_div _ _
  · rw [low, ← power, Nat.mul_mod_mul_right]
    exact Nat.mul_mod_left _ _
  · rw [high]
    exact Nat.div_lt_of_lt_mul (Nat.mul_lt_mul_of_pos_right bound (Nat.two_pow_pos bit))

/-- Low parts in place and high parts one above, over whatever was shifted in below. -/
theorem limbsValue_shifted (a : List UInt32) {bit : Nat} (positive : 0 < bit) (small : bit < 32)
    (below : UInt32) (fits : below.toNat < 2 ^ bit) :
    limbsValue (orSlots (a.map (· <<< UInt32.ofNat bit) ++ [0])
        (below :: a.map (· >>> UInt32.ofNat (32 - bit))))
      = limbsValue a * 2 ^ bit + below.toNat := by
  induction a generalizing below with
  | nil => simp [orSlots]
  | cons limb a inductionHypothesis =>
      obtain ⟨halves, aligned, high⟩ := shift_split limb positive small
      have joined : ((limb <<< UInt32.ofNat bit) ||| below).toNat
          = (limb <<< UInt32.ofNat bit).toNat + below.toNat := by
        rw [UInt32.toNat_or]
        exact or_eq_add bit aligned fits
      rw [List.map_cons, List.map_cons, List.cons_append, orSlots, limbsValue_cons,
        inductionHypothesis _ high, joined, limbsValue_cons, Nat.add_mul, ← halves]
      ring

/-- Shifting left multiplies by the power of two. -/
@[simp] theorem limbsValue_shlLimbs (a : List UInt32) (bits : Nat) :
    limbsValue (shlLimbs a bits) = limbsValue a * 2 ^ bits := by
  have zeros : List.replicate (a.length + bits / 32 + 1) (0 : UInt32)
      = List.replicate (bits / 32) 0 ++ List.replicate (a.length + 1) 0 := by
    rw [List.replicate_append_replicate]
    congr 1
    omega
  have whole : (2 ^ 32) ^ (bits / 32) * 2 ^ (bits % 32) = 2 ^ bits := by
    rw [← pow_mul, ← pow_add, Nat.div_add_mod]
  have lowest : (List.replicate (bits / 32) (0 : UInt32)).length = bits / 32 :=
    List.length_replicate
  unfold shlLimbs
  dsimp only
  split_ifs with none aligned
  · rw [none, pow_zero, Nat.mul_one]
  · rw [limbsValue_trim, zeros, List.take_left' lowest, List.drop_left' lowest,
      setSlots_replicate (Nat.le_succ _), limbsValue_append, limbsValue_append,
      limbsValue_replicate, limbsValue_replicate, lowest, ← whole, aligned]
    ring
  · have lows : orSlots (List.replicate (a.length + 1) 0)
          (a.map (· <<< UInt32.ofNat (bits % 32)))
        = a.map (· <<< UInt32.ofNat (bits % 32)) ++ [0] := by
      rw [orSlots_replicate, setSlots_replicate (by simp), List.length_map]
      simp
    have shifted := limbsValue_shifted a (Nat.pos_of_ne_zero aligned)
      (Nat.mod_lt bits (by decide)) 0 (Nat.two_pow_pos _)
    rw [limbsValue_trim, zeros, List.take_left' lowest, List.drop_left' lowest, lows]
    -- The high parts start one limb above the lowest low part, which stays as it is.
    obtain ⟨first, rest, slots⟩ : ∃ first rest,
        a.map (· <<< UInt32.ofNat (bits % 32)) ++ [0] = first :: rest :=
      List.exists_cons_of_ne_nil (by simp)
    rw [slots, orSlots, UInt32.or_zero] at shifted
    rw [slots, List.take_append, List.drop_append, lowest, List.take_of_length_le (by simp),
      List.drop_of_length_le (by simp), Nat.add_sub_cancel_left, List.take_one, List.drop_one,
      List.append_assoc, limbsValue_append, limbsValue_replicate, lowest, Nat.zero_add,
      List.nil_append]
    calc (2 ^ 32) ^ (bits / 32) * limbsValue (first ::
            orSlots rest (a.map (· >>> UInt32.ofNat (32 - bits % 32))))
        = (2 ^ 32) ^ (bits / 32) * (limbsValue a * 2 ^ (bits % 32) + (0 : UInt32).toNat) := by
          rw [shifted]
      _ = limbsValue a * 2 ^ bits := by
          rw [← whole, UInt32.toNat_zero]
          ring

theorem length_orSlots (slots values : List UInt32) :
    (orSlots slots values).length = slots.length := by
  induction slots, values using orSlots.induct with
  | case1 slot slots v values inductionHypothesis =>
      rw [orSlots]
      exact congrArg Nat.succ inductionHypothesis
  | case2 slots values ended =>
      rw [orSlots]
      exact ended

/-- Shifting by a bit leaves a limb. -/
theorem shlLimbs_one_ne_nil (a : List UInt32) : shlLimbs a 1 ≠ [] := by
  unfold shlLimbs
  rw [if_neg (by decide)]
  dsimp only
  rw [if_neg (by decide)]
  refine trim_ne_nil (List.ne_nil_of_length_pos ?_)
  simp only [List.length_append, List.length_take, List.length_drop, List.length_replicate,
    length_orSlots]
  omega

/-! ## Subtraction -/

/-- No subtrahend wraps, nothing of the subtrahend is left past the end, and no borrow is. -/
def SubFits : (a b : List UInt32) → (borrow : UInt64) → Prop
  | slot :: a, b, borrow =>
      (b.headD 0).toNat + borrow.toNat < 2 ^ 64
        ∧ SubFits a b.tail (if slot.toUInt64 < (b.headD 0).toUInt64 + borrow then 1 else 0)
  | [], b, borrow => limbsValue b = 0 ∧ borrow = 0

/-- One step of the subtraction: the limb left, and what the borrow stands for. -/
theorem borrow_split (slot bv : UInt32) {borrow : UInt64} (small : borrow.toNat ≤ 1) :
    (bv.toUInt64 + borrow).toNat = bv.toNat + borrow.toNat
      ∧ (slot.toUInt64 - (bv.toUInt64 + borrow)).toUInt32.toNat + bv.toNat + borrow.toNat
        = slot.toNat
          + 2 ^ 32 * (if slot.toUInt64 < bv.toUInt64 + borrow then (1 : UInt64) else 0).toNat := by
  have slotBound := slot.toNat_lt
  have bvBound := bv.toNat_lt
  have subtrahend : (bv.toUInt64 + borrow).toNat = bv.toNat + borrow.toNat := by
    rw [UInt64.toNat_add, UInt32.toNat_toUInt64, Nat.mod_eq_of_lt (by omega)]
  refine ⟨subtrahend, ?_⟩
  rw [UInt64.toNat_toUInt32, UInt64.toNat_sub, subtrahend, UInt32.toNat_toUInt64]
  split_ifs with under
  · rw [UInt64.lt_iff_toNat_lt, subtrahend, UInt32.toNat_toUInt64] at under
    rw [UInt64.toNat_one]
    omega
  · rw [UInt64.lt_iff_toNat_lt, subtrahend, UInt32.toNat_toUInt64] at under
    rw [UInt64.toNat_zero]
    omega

/-- A borrow chain subtracts a number that is not larger. -/
theorem limbsValue_subBorrow {a b : List UInt32} (borrow : UInt64) (small : borrow.toNat ≤ 1)
    (enough : limbsValue b + borrow.toNat ≤ limbsValue a) :
    limbsValue (subBorrow a b borrow).1 + limbsValue b + borrow.toNat = limbsValue a
      ∧ (subBorrow a b borrow).2 = 0 ∧ SubFits a b borrow := by
  induction a generalizing b borrow with
  | nil =>
      rw [limbsValue_nil] at enough
      have none : borrow = 0 := UInt64.toNat_inj.mp (by rw [UInt64.toNat_zero]; omega)
      have zero : limbsValue b = 0 := by omega
      refine ⟨?_, none, zero, none⟩
      rw [zero, none]
      rfl
  | cons slot a inductionHypothesis =>
      obtain ⟨subtrahend, split⟩ := borrow_split slot (b.headD 0) small
      have slotBound := slot.toNat_lt
      have bvBound := (b.headD 0).toNat_lt
      rw [limbsValue_headD_tail b, limbsValue_cons] at enough ⊢
      -- What the step borrows is what the limbs above can lend.
      have next : (if slot.toUInt64 < (b.headD 0).toUInt64 + borrow then (1 : UInt64) else 0).toNat ≤ 1
          ∧ limbsValue b.tail
            + (if slot.toUInt64 < (b.headD 0).toUInt64 + borrow then (1 : UInt64) else 0).toNat
              ≤ limbsValue a := by
        split_ifs with under
        · rw [UInt64.lt_iff_toNat_lt, subtrahend, UInt32.toNat_toUInt64] at under
          rw [UInt64.toNat_one]
          omega
        · rw [UInt64.toNat_zero]
          omega
      obtain ⟨rest, none, fits⟩ := inductionHypothesis _ next.1 next.2
      refine ⟨?_, none, ?_, fits⟩
      · rw [subBorrow, limbsValue_cons]
        omega
      · omega

/-- Subtracting in place subtracts, and borrows nothing in the end. -/
theorem subLimbsInPlace_exact {a b : List UInt32} (enough : limbsValue b ≤ limbsValue a) :
    limbsValue (subLimbsInPlace a b).1 = limbsValue a - limbsValue b
      ∧ (subLimbsInPlace a b).2 = 0 ∧ SubFits a b 0 := by
  obtain ⟨difference, none, fits⟩ := limbsValue_subBorrow 0 (by decide) enough
  rw [UInt64.toNat_zero] at difference
  unfold subLimbsInPlace
  refine ⟨?_, ?_, fits⟩
  · rw [limbsValue_trim]
    omega
  · dsimp only
    rw [none]
    rfl

end RecurseX.Dnssec
