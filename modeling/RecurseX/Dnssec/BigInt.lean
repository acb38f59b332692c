import Mathlib.Algebra.Ring.Parity
import RecurseX.Library.BitField
import RecurseX.Library.Limbs

/-!
# Big integers for signature verification

Numbers are lists of 32-bit limbs, least significant first, multiplied, shifted,
compared, subtracted and reduced with 64-bit intermediates. Each routine is
specified once by the number its limbs denote; the modular exponentiation is then a
run over the exponent's bits.
-/

namespace RecurseX.Dnssec

open RecurseX.Library

/-- `rchunks(4)` over the octets in reverse: groups of four, each back in its order. -/
def groupsFromRight : (reversed : Bytes) → List Bytes
  | fourth :: third :: second :: first :: rest =>
      [first, second, third, fourth] :: groupsFromRight rest
  | [] => []
  | short => [short.reverse]

/-- One group of octets as a limb. -/
def limbOf (group : Bytes) : UInt32 :=
  group.foldl (fun v b => (v <<< 8) ||| b.toUInt32) 0

/-- The loop of `trim`, on the limbs from the top. -/
def popZeros : List UInt32 → List UInt32
  | limb :: next :: rest => if limb = 0 then popZeros (next :: rest) else limb :: next :: rest
  | limbs => limbs

/-- Drops zero limbs from the top and keeps at least one limb. -/
def trim (limbs : List UInt32) : List UInt32 := (popZeros limbs.reverse).reverse

/-- Big-endian octets as limbs; zero is a single limb. -/
def toLimbsBe (bytes : Bytes) : List UInt32 :=
  let limbs := trim ((groupsFromRight bytes.reverse).map limbOf)
  if limbs = [] then [0] else limbs

/-- The octets of a number without leading zeros; zero is a single octet. -/
def toBeBytes (limbs : List UInt32) : Bytes := dropLeadingZeros (limbs.reverse.flatMap be32)

/-- The loop of `trim_len`, from a length down. -/
def trimLenFrom (a : List UInt32) : (n : Nat) → Nat
  | n + 2 => if a[n + 1]? = some 0 then trimLenFrom a (n + 1) else n + 2
  | n => n

/-- How many limbs are left without the zeros on top. -/
def trimLen (a : List UInt32) : Nat := trimLenFrom a a.length

/-- The first pair of limbs that differ decides. -/
def firstDifference : List (UInt32 × UInt32) → Ordering
  | [] => .eq
  | (x, y) :: rest =>
      match compare x y with
      | .eq => firstDifference rest
      | o => o

/-- Compares limb counts and then limbs from the most significant down. -/
def cmpLimbs (a b : List UInt32) : Ordering :=
  let la := trimLen a
  let lb := trimLen b
  if la ≠ lb then compare la lb
  else firstDifference ((a.take la).reverse.zip (b.take lb).reverse)

/-- The bit at `index`, or `false` past the end. -/
def bitAt (limbs : List UInt32) (index : Nat) : Bool :=
  limbs[index / 32]?.any fun limb => (limb >>> UInt32.ofNat (index % 32)) &&& 1 == 1

/-- Propagates a carry through the limbs above, until there is none. The carry that is left
past the last limb is returned; the source drops it. -/
def carryUp : (slots : List UInt32) → (carry : UInt64) → List UInt32 × UInt64
  | slot :: slots, carry =>
      if carry = 0 then (slot :: slots, carry)
      else
        let cur := slot.toUInt64 + carry
        let above := carryUp slots (cur >>> 32)
        (cur.toUInt32 :: above.1, above.2)
  | [], carry => ([], carry)

/-- One row of the product: `av` times the limbs of `b`, added to the slots, and the last
carry propagated above them. -/
def mulRow (av : UInt32) : (slots b : List UInt32) → (carry : UInt64) → List UInt32 × UInt64
  | slot :: slots, bv :: b, carry =>
      let cur := slot.toUInt64 + av.toUInt64 * bv.toUInt64 + carry
      let above := mulRow av slots b (cur >>> 32)
      (cur.toUInt32 :: above.1, above.2)
  | slots, [], carry => carryUp slots carry
  | [], _ :: _, carry => ([], carry)

/-- The rows of the product from the one at offset `i`. -/
def mulRows (b : List UInt32) : (i : Nat) → (a out : List UInt32) → List UInt32
  | _, [], out => out
  | i, av :: a, out => mulRows b (i + 1) a (out.take i ++ (mulRow av (out.drop i) b 0).1)

/-- Schoolbook multiplication. -/
def mulLimbs (a b : List UInt32) : List UInt32 :=
  let la := trimLen a
  let lb := trimLen b
  trim (mulRows (b.take lb) 0 (a.take la) (List.replicate (la + lb) 0))

/-- `*slot = v` over the slots and values that pair up. -/
def setSlots : (slots values : List UInt32) → List UInt32
  | _ :: slots, v :: values => v :: setSlots slots values
  | slots, _ => slots

/-- `*slot |= v` over the slots and values that pair up. -/
def orSlots : (slots values : List UInt32) → List UInt32
  | slot :: slots, v :: values => (slot ||| v) :: orSlots slots values
  | slots, _ => slots

/-- Shifts left: whole limbs, then each limb's low part at its offset and its high part one
limb above. -/
def shlLimbs (a : List UInt32) (bits : Nat) : List UInt32 :=
  if bits = 0 then a
  else
    let word := bits / 32
    let bit := bits % 32
    let out := List.replicate (a.length + word + 1) 0
    if bit = 0 then trim (out.take word ++ setSlots (out.drop word) a)
    else
      let low := out.take word ++ orSlots (out.drop word) (a.map (· <<< UInt32.ofNat bit))
      trim (low.take (word + 1)
        ++ orSlots (low.drop (word + 1)) (a.map (· >>> UInt32.ofNat (32 - bit))))

/-- The loop of `sub_limbs_in_place`; `b` is padded with zeros past its end. The borrow left
at the end is returned. -/
def subBorrow : (a b : List UInt32) → (borrow : UInt64) → List UInt32 × UInt64
  | slot :: a, b, borrow =>
      let subtrahend := (b.headD 0).toUInt64 + borrow
      let res := slot.toUInt64 - subtrahend
      let above := subBorrow a b.tail (if slot.toUInt64 < subtrahend then 1 else 0)
      (res.toUInt32 :: above.1, above.2)
  | [], _, borrow => ([], borrow)

/-- `a` without `b`, trimmed, and the borrow. -/
def subLimbsInPlace (a b : List UInt32) : List UInt32 × UInt32 :=
  let difference := subBorrow a b 0
  (trim difference.1, difference.2.toUInt32)

/-- The leading zero bits of a limb. -/
def leadingZeros (w : UInt32) : Nat := if w = 0 then 32 else 31 - w.toNat.log2

/-- Shifts the dividend's bit into the accumulator. -/
def shiftIn (r acc : List UInt32) (bit : Nat) : List UInt32 :=
  let acc := shlLimbs acc 1
  if bitAt r bit then acc.modifyHead (· ||| 1) else acc

/-- One bit of the long division: the accumulator takes it in and is reduced once. -/
def remBit (r m acc : List UInt32) (bit : Nat) : List UInt32 :=
  let acc := shiftIn r acc bit
  if cmpLimbs acc m ≠ .lt then (subLimbsInPlace acc m).1 else acc

/-- Remainder by bitwise long division; a degenerate operand gives zero. -/
def modRem (a m : List UInt32) : List UInt32 :=
  let aLen := trimLen a
  let mLen := trimLen m
  if aLen = 0 ∨ mLen = 0 ∨ (m.take mLen).all (· == 0) then [0]
  else
    let r := a.take aLen
    let lead := r.getLast?.elim 32 leadingZeros
    trim ((List.range (aLen * 32 - lead)).reverse.foldl (remBit r m) [0])

/-- Squares, and multiplies by the base where the exponent's bit is set. -/
def powBit (m base : List UInt32) (b : UInt8) (result : List UInt32) (bit : Nat) : List UInt32 :=
  let result := modRem (mulLimbs result result) m
  if (b >>> UInt8.ofNat bit) &&& 1 == 1 then modRem (mulLimbs result base) m else result

/-- The eight bits of one exponent octet, from the top. -/
def powByte (m base result : List UInt32) (b : UInt8) : List UInt32 :=
  (List.range 8).reverse.foldl (powBit m base b) result

/-- Modular exponentiation over big-endian octets. -/
def modPow (baseBe expBe mBe : Bytes) : Bytes :=
  let m := toLimbsBe mBe
  let base := modRem (toLimbsBe baseBe) m
  toBeBytes (expBe.foldl (powByte m base) [1])

/-! ## Octets and limbs -/

/-- A group that still fits is shifted in without loss. -/
theorem limbOf_foldl (group : Bytes) {v : UInt32}
    (fits : v.toNat * 256 ^ group.length + natOfBytes group < 2 ^ 32) :
    (group.foldl (fun (v : UInt32) b => (v <<< 8) ||| b.toUInt32) v).toNat
      = v.toNat * 256 ^ group.length + natOfBytes group := by
  induction group generalizing v with
  | nil => simp [natOfBytes]
  | cons octet group inductionHypothesis =>
      have split : natOfBytes (octet :: group)
          = octet.toNat * 256 ^ group.length + natOfBytes group := by
        rw [← List.singleton_append, natOfBytes_append]
        simp [natOfBytes]
      rw [split, List.length_cons, pow_succ'] at fits ⊢
      have small : v.toNat * 256 < 2 ^ 32 := by
        have positive : 0 < 256 ^ group.length := Nat.pow_pos (by decide)
        nlinarith
      have stepped : ((v <<< 8) ||| octet.toUInt32).toNat = v.toNat * 256 + octet.toNat := by
        have shifted : (v <<< 8).toNat = v.toNat * 256 := by
          rw [UInt32.toNat_shiftLeft, Nat.shiftLeft_eq, Nat.mod_eq_of_lt]
          · rfl
          · simpa using small
        rw [UInt32.toNat_or, shifted]
        exact or_eq_add 8 (by omega) (by simpa using octet.toNat_lt)
      rw [List.foldl_cons, inductionHypothesis, stepped]
      · ring
      · rw [stepped]
        calc _ = v.toNat * (256 * 256 ^ group.length)
                  + (octet.toNat * 256 ^ group.length + natOfBytes group) := by ring
          _ < 2 ^ 32 := fits

theorem limbOf_toNat {group : Bytes} (short : group.length ≤ 4) :
    (limbOf group).toNat = natOfBytes group := by
  have fits := natOfBytes_lt group
  have power : 256 ^ group.length ≤ 256 ^ 4 := Nat.pow_le_pow_right (by decide) short
  rw [limbOf, limbOf_foldl]
  · simp
  · simp only [UInt32.toNat_zero]
    omega

/-- The groups from the right are the limbs of the spelled number. -/
theorem limbsValue_groupsFromRight (reversed : Bytes) :
    limbsValue ((groupsFromRight reversed).map limbOf) = natOfBytes reversed.reverse := by
  induction reversed using groupsFromRight.induct with
  | case1 fourth third second first rest inductionHypothesis =>
      have split : (fourth :: third :: second :: first :: rest).reverse
          = rest.reverse ++ [first, second, third, fourth] := by simp
      rw [groupsFromRight, List.map_cons, limbsValue_cons, inductionHypothesis, split,
        natOfBytes_append, limbOf_toNat (by rfl)]
      simp only [List.length_cons, List.length_nil]
      omega
  | case2 => rfl
  | case3 short fewer nonempty =>
      have brief : short.length ≤ 4 ∧ groupsFromRight short = [short.reverse] := by
        rcases short with _ | ⟨first, _ | ⟨second, _ | ⟨third, _ | ⟨fourth, rest⟩⟩⟩⟩
        · exact absurd rfl nonempty
        · exact ⟨by simp, rfl⟩
        · exact ⟨by simp, rfl⟩
        · exact ⟨by simp, rfl⟩
        · exact absurd rfl (fewer _ _ _ _ _)
      rw [brief.2, List.map_singleton, limbsValue_cons, limbsValue_nil,
        limbOf_toNat (by simpa using brief.1)]
      rfl

theorem limbsValue_popZeros (reversed : List UInt32) :
    limbsValue (popZeros reversed).reverse = limbsValue reversed.reverse := by
  induction reversed using popZeros.induct with
  | case1 next rest inductionHypothesis =>
      rw [popZeros, if_pos rfl, inductionHypothesis, List.reverse_cons (a := 0), limbsValue_snoc]
      simp
  | case2 limb next rest nonzero => rw [popZeros, if_neg nonzero]
  | case3 limbs single => rw [popZeros]; exact single

theorem popZeros_ne_nil {reversed : List UInt32} (nonempty : reversed ≠ []) :
    popZeros reversed ≠ [] := by
  induction reversed using popZeros.induct with
  | case1 next rest inductionHypothesis =>
      rw [popZeros, if_pos rfl]
      exact inductionHypothesis (List.cons_ne_nil _ _)
  | case2 limb next rest nonzero =>
      rw [popZeros, if_neg nonzero]
      exact List.cons_ne_nil _ _
  | case3 limbs single =>
      rw [popZeros]
      · exact nonempty
      · exact single

/-- Trimming does not change the number. -/
@[simp] theorem limbsValue_trim (limbs : List UInt32) :
    limbsValue (trim limbs) = limbsValue limbs := by
  rw [trim, limbsValue_popZeros, List.reverse_reverse]

/-- Trimming leaves at least one limb. -/
theorem trim_ne_nil {limbs : List UInt32} (nonempty : limbs ≠ []) : trim limbs ≠ [] := by
  rw [trim, Ne, List.reverse_eq_nil_iff]
  exact popZeros_ne_nil (by simpa using nonempty)

/-- The limbs of big-endian octets denote what the octets spell. -/
@[simp] theorem limbsValue_toLimbsBe (bytes : Bytes) :
    limbsValue (toLimbsBe bytes) = natOfBytes bytes := by
  have spelled : limbsValue (trim ((groupsFromRight bytes.reverse).map limbOf))
      = natOfBytes bytes := by
    rw [limbsValue_trim, limbsValue_groupsFromRight, List.reverse_reverse]
  unfold toLimbsBe
  dsimp only
  split_ifs with empty
  · rw [empty, limbsValue_nil] at spelled
    simpa using spelled
  · exact spelled

/-- The octets of the limbs, from the top, spell the number. -/
theorem natOfBytes_limbs (limbs : List UInt32) :
    natOfBytes (limbs.reverse.flatMap be32) = limbsValue limbs := by
  induction limbs with
  | nil => rfl
  | cons limb limbs inductionHypothesis =>
      rw [List.reverse_cons, List.flatMap_append, List.flatMap_singleton, natOfBytes_append,
        inductionHypothesis, natOfBytes_be32, limbsValue_cons, length_be32]
      omega

/-- A number comes out in its shortest octets. -/
theorem toBeBytes_eq (limbs : List UInt32) : toBeBytes limbs = minimalBytes (limbsValue limbs) := by
  rw [toBeBytes, dropLeadingZeros_eq, natOfBytes_limbs]

/-! ## Significant limbs and comparison -/

/-- The loop leaves at least one of the limbs it is given, which denote the same number, and
where more than one is left, the top one is not zero. -/
theorem trimLenFrom_spec (a : List UInt32) (n : Nat) :
    trimLenFrom a n ≤ n ∧ (0 < n → 0 < trimLenFrom a n) ∧
      limbsValue (a.take (trimLenFrom a n)) = limbsValue (a.take n) ∧
      ∀ length, trimLenFrom a n = length + 2 → a[length + 1]? ≠ some 0 := by
  induction n using trimLenFrom.induct a with
  | case1 n zero inductionHypothesis =>
      obtain ⟨fits, positive, same, top⟩ := inductionHypothesis
      rw [trimLenFrom, if_pos zero]
      refine ⟨by omega, fun _ => positive (Nat.succ_pos n), ?_, top⟩
      rw [same, List.take_add_one (i := n + 1), zero, Option.toList_some, limbsValue_snoc]
      simp
  | case2 n nonzero =>
      rw [trimLenFrom, if_neg nonzero]
      refine ⟨le_refl _, id, rfl, fun length left => ?_⟩
      obtain rfl : n = length := by omega
      exact nonzero
  | case3 n small =>
      rw [trimLenFrom]
      · exact ⟨le_refl _, id, rfl, fun length left => absurd left (small length)⟩
      · exact small

theorem trimLen_le (a : List UInt32) : trimLen a ≤ a.length := (trimLenFrom_spec a a.length).1

theorem trimLen_pos {a : List UInt32} (nonempty : a ≠ []) : 0 < trimLen a :=
  (trimLenFrom_spec a a.length).2.1 (List.length_pos_iff.mpr nonempty)

@[simp] theorem limbsValue_take_trimLen (a : List UInt32) :
    limbsValue (a.take (trimLen a)) = limbsValue a := by
  rw [trimLen, (trimLenFrom_spec a a.length).2.2.1, List.take_length]

/-- More significant limbs make a larger number. -/
theorem limbsValue_lt_of_trimLen_lt {a b : List UInt32} (shorter : trimLen a < trimLen b)
    (nonempty : a ≠ []) : limbsValue a < limbsValue b := by
  obtain ⟨length, count⟩ : ∃ length, trimLen b = length + 2 :=
    ⟨trimLen b - 2, by have := trimLen_pos nonempty; omega⟩
  have fits := trimLen_le b
  have inside : length + 1 < b.length := by omega
  have nonzero : b[length + 1] ≠ 0 := by
    have top := (trimLenFrom_spec b b.length).2.2.2 length count
    rwa [List.getElem?_eq_getElem inside, Ne, Option.some_inj] at top
  have split : b.take (trimLen b) = b.take (length + 1) ++ [b[length + 1]] := by
    rw [count, List.take_add_one, List.getElem?_eq_getElem inside, Option.toList_some]
  calc limbsValue a
      = limbsValue (a.take (trimLen a)) := (limbsValue_take_trimLen a).symm
    _ < (2 ^ 32) ^ (a.take (trimLen a)).length := limbsValue_lt _
    _ ≤ (2 ^ 32) ^ (b.take (length + 1)).length := by
        rw [List.length_take, List.length_take]
        exact Nat.pow_le_pow_right (by decide) (by omega)
    _ ≤ limbsValue (b.take (length + 1) ++ [b[length + 1]]) := pow_le_limbsValue _ nonzero
    _ = limbsValue b := by rw [← split, limbsValue_take_trimLen]

/-- Reading two lists of one length from the top compares the numbers. -/
theorem firstDifference_eq {a b : List UInt32} (same : a.length = b.length) :
    firstDifference (a.zip b) = compare (limbsValue a.reverse) (limbsValue b.reverse) := by
  induction a generalizing b with
  | nil =>
      obtain rfl := List.length_eq_zero_iff.mp same.symm
      rfl
  | cons x a inductionHypothesis =>
      obtain ⟨y, b, rfl⟩ := List.exists_cons_of_length_eq_add_one same.symm
      have lengths : a.length = b.length := Nat.succ.inj same
      rw [List.zip_cons_cons, firstDifference, inductionHypothesis lengths, List.reverse_cons,
        List.reverse_cons, compare_limbsValue_snoc (by simpa using lengths), compare_toNat]
      cases compare x.toNat y.toNat <;> rfl

/-- Comparing limbs compares the numbers. -/
theorem cmpLimbs_eq {a b : List UInt32} (left : a ≠ []) (right : b ≠ []) :
    cmpLimbs a b = compare (limbsValue a) (limbsValue b) := by
  unfold cmpLimbs
  dsimp only
  split_ifs with differ
  · rcases Nat.lt_or_gt_of_ne differ with fewer | more
    · rw [Nat.compare_eq_lt.mpr fewer,
        Nat.compare_eq_lt.mpr (limbsValue_lt_of_trimLen_lt fewer left)]
    · rw [Nat.compare_eq_gt.mpr more,
        Nat.compare_eq_gt.mpr (limbsValue_lt_of_trimLen_lt more right)]
  · have lengths : (a.take (trimLen a)).length = (b.take (trimLen b)).length := by
      rw [List.length_take, List.length_take, Nat.min_eq_left (trimLen_le a),
        Nat.min_eq_left (trimLen_le b)]
      exact not_not.mp differ
    rw [firstDifference_eq (by simpa using lengths), List.reverse_reverse, List.reverse_reverse,
      limbsValue_take_trimLen, limbsValue_take_trimLen]

end RecurseX.Dnssec
