import Mathlib.Tactic.IntervalCases
import RecurseX.Library.AddressText

/-!
# Writing addresses

Addresses are written as numbers behind one another: four in decimal, or eight in hexadecimal
with no group left out. What is written is read back.
-/

namespace RecurseX.Library

open Nat (toDigits)

/-- Numbers with a separator between them. -/
def writeNumbers (separator : Char) (radix : Nat) : List Nat → List Char
  | [] => []
  | number :: numbers =>
      toDigits radix number ++ numbers.flatMap fun number => separator :: toDigits radix number

/-- The numbers of the groups of two octets. -/
def groupValues : Bytes → List Nat
  | high :: low :: rest => (high.toNat * 256 + low.toNat) :: groupValues rest
  | _ => []

/-- The text of an address. -/
def writeAddress : Octets 4 ⊕ Octets 16 → List Char
  | .inl ip => writeNumbers '.' 10 (ip.1.map UInt8.toNat)
  | .inr ip => writeNumbers ':' 16 (groupValues ip.1)

/-! ## Numbers -/

variable {radix number limit : Nat} {text : List Char}

theorem digitValue_digitChar {digit : Nat} (small : digit < 16) :
    digitValue (Nat.digitChar digit) = digit := by
  interval_cases digit <;> rfl

theorem isDigit_of_mem_toDigits (several : 1 < radix) (small : radix ≤ 16) (number : Nat) :
    ∀ c ∈ toDigits radix number, isDigit radix c = true := by
  have digit {value : Nat} (below : value < radix) : isDigit radix (Nat.digitChar value) = true := by
    rw [isDigit, digitValue_digitChar (by omega)]
    exact decide_eq_true below
  induction number using Nat.strong_induction_on with
  | _ number inductionHypothesis =>
      rw [Nat.toDigits_eq_if several]
      split_ifs with below
      · intro c member
        rw [List.mem_singleton.mp member]
        exact digit below
      · intro c member
        rcases List.mem_append.mp member with earlier | last
        · exact inductionHypothesis _ (Nat.div_lt_self (by omega) several) c earlier
        · rw [List.mem_singleton.mp last]
          exact digit (Nat.mod_lt _ (by omega))

/-- A number is read from its digits. -/
theorem digitsValue_toDigits (several : 1 < radix) (small : radix ≤ 16) (number : Nat) :
    digitsValue radix (toDigits radix number) = number := by
  induction number using Nat.strong_induction_on with
  | _ number inductionHypothesis =>
      rw [Nat.toDigits_eq_if several]
      split_ifs with below
      · rw [digitsValue, List.foldl_cons, List.foldl_nil, digitValue_digitChar (by omega)]
        omega
      · have last : number % radix < radix := Nat.mod_lt _ (by omega)
        have earlier := inductionHypothesis _ (Nat.div_lt_self (by omega) several)
        rw [digitsValue] at earlier
        rw [digitsValue, List.foldl_append, earlier, List.foldl_cons, List.foldl_nil,
          digitValue_digitChar (by omega)]
        exact Nat.div_add_mod' number radix

/-- A number up to the first character that is no digit. -/
theorem readNumber_toDigits {maxDigits : Nat} {allowZeroPrefix : Bool} (several : 1 < radix)
    (small : radix ≤ 16) (below : number < limit)
    (short : (toDigits radix number).length ≤ maxDigits)
    (plain : allowZeroPrefix = true ∨ (toDigits radix number).head? ≠ some '0' ∨
      (toDigits radix number).length ≤ 1)
    (rest : List Char) (ends : ∀ c ∈ rest.head?, isDigit radix c = false) :
    readNumber radix maxDigits limit allowZeroPrefix (toDigits radix number ++ rest) =
      some (number, rest) := by
  have digits := isDigit_of_mem_toDigits several small number
  have nothing : rest.takeWhile (isDigit radix) = [] ∧ rest.dropWhile (isDigit radix) = rest := by
    cases rest with
    | nil => exact ⟨rfl, rfl⟩
    | cons c rest =>
        have other := ends c rfl
        exact ⟨by rw [List.takeWhile_cons, other]; rfl, by rw [List.dropWhile_cons, other]; rfl⟩
  have taken : (toDigits radix number ++ rest).takeWhile (isDigit radix) = toDigits radix number := by
    rw [List.takeWhile_append_of_pos digits, nothing.1, List.append_nil]
  have dropped : (toDigits radix number ++ rest).dropWhile (isDigit radix) = rest := by
    rw [List.dropWhile_append_of_pos digits, nothing.2]
  have some' : ¬ ((toDigits radix number).length = 0 ∨ maxDigits < (toDigits radix number).length) := by
    have positive : 0 < (toDigits radix number).length := Nat.length_toDigits_pos
    omega
  have canonical : ¬ (¬ allowZeroPrefix = true ∧ (toDigits radix number).head? = some '0' ∧
      1 < (toDigits radix number).length) := by
    rintro ⟨refused, zero, long⟩
    rcases plain with allowed | other | one
    · exact refused allowed
    · exact other zero
    · omega
  unfold readNumber
  dsimp only
  rw [taken, dropped, if_neg some', if_neg canonical, digitsValue_toDigits several small,
    if_pos below]

/-- A decimal number below a limit is the number that its text spells. -/
theorem parseUnsigned_toDigits (below : number < limit) :
    parseUnsigned limit (toDigits 10 number) = some number := by
  have digits := isDigit_of_mem_toDigits (by decide : 1 < 10) (by decide) number
  have unsigned : (toDigits 10 number).head? ≠ some '+' := by
    intro plus
    have digit := digits '+' (List.mem_of_mem_head? plus)
    exact absurd digit (by decide)
  unfold parseUnsigned
  rw [if_neg unsigned]
  dsimp only
  rw [digitsValue_toDigits (by decide) (by decide),
    if_pos ⟨Nat.toDigits_ne_nil, List.all_eq_true.mpr digits, below⟩]

/-! ## Addresses of four octets -/

/-- A number is not written with a zero in front. -/
theorem head?_toDigits (several : 1 < radix) (small : radix ≤ 16) (positive : number ≠ 0) :
    (toDigits radix number).head? ≠ some '0' := by
  induction number using Nat.strong_induction_on with
  | _ number inductionHypothesis =>
      rw [Nat.toDigits_eq_if several]
      split_ifs with below
      · intro zero
        have value : digitValue (Nat.digitChar number) = number := digitValue_digitChar (by omega)
        rw [Option.some.inj zero] at value
        exact positive value.symm
      · rw [List.head?_append_of_ne_nil _ Nat.toDigits_ne_nil]
        refine inductionHypothesis _ (Nat.div_lt_self (by omega) several) ?_
        exact (Nat.div_pos (by omega) (by omega)).ne'

/-- An octet is written with three digits at most, and no zero in front. -/
theorem toDigits_octet (octet : UInt8) : (toDigits 10 octet.toNat).length ≤ 3 ∧
    ((toDigits 10 octet.toNat).head? ≠ some '0' ∨ (toDigits 10 octet.toNat).length ≤ 1) := by
  have below : octet.toNat < 256 := octet.toNat_lt
  refine ⟨(Nat.length_toDigits_le_iff (by decide) (by decide)).mpr (by omega), ?_⟩
  by_cases zero : octet.toNat = 0
  · right
    rw [zero]
    decide
  · exact .inl (head?_toDigits (by decide) (by decide) zero)

theorem readNumber_octet (octet : UInt8) (rest : List Char)
    (ends : ∀ c ∈ rest.head?, isDigit 10 c = false) :
    readNumber 10 3 256 false (toDigits 10 octet.toNat ++ rest) = some (octet.toNat, rest) :=
  have ⟨short, plain⟩ := toDigits_octet octet
  readNumber_toDigits (by decide) (by decide) octet.toNat_lt short (.inr plain) rest ends

theorem exists_four {octets : Bytes} (four : octets.length = 4) :
    ∃ a b c d, octets = [a, b, c, d] := by
  obtain ⟨a, octets, rfl⟩ := List.exists_cons_of_length_eq_add_one four
  obtain ⟨b, c, d, rfl⟩ := List.length_eq_three.mp (Nat.succ.inj four)
  exact ⟨a, b, c, d, rfl⟩

theorem readIpv4Addr_write (ip : Octets 4) :
    readIpv4Addr (writeNumbers '.' 10 (ip.1.map UInt8.toNat)) = some (ip, []) := by
  obtain ⟨octets, four⟩ := ip
  obtain ⟨a, b, c, d, rfl⟩ := exists_four four
  have dot : ∀ rest : List Char, ∀ c ∈ ('.' :: rest).head?, isDigit 10 c = false := by
    intro rest c same
    obtain rfl := Option.some.inj same
    rfl
  have none : ∀ c ∈ ([] : List Char).head?, isDigit 10 c = false := by
    rintro c same
    cases same
  have separated (octet : UInt8) (rest : List Char)
      (ends : ∀ c ∈ rest.head?, isDigit 10 c = false) :
      readSeparator '.' false (readNumber 10 3 256 false)
        ('.' :: (toDigits 10 octet.toNat ++ rest)) = some (octet.toNat, rest) :=
    readNumber_octet octet rest ends
  have written : writeNumbers '.' 10 ([a, b, c, d].map UInt8.toNat) =
      toDigits 10 a.toNat ++ '.' :: (toDigits 10 b.toNat ++ '.' :: (toDigits 10 c.toNat ++
        '.' :: (toDigits 10 d.toNat ++ []))) := by
    simp [writeNumbers]
  have first : readSeparator '.' true (readNumber 10 3 256 false)
      (writeNumbers '.' 10 ([a, b, c, d].map UInt8.toNat)) =
        some (a.toNat, '.' :: (toDigits 10 b.toNat ++ '.' :: (toDigits 10 c.toNat ++
          '.' :: (toDigits 10 d.toNat ++ [])))) := by
    rw [written]
    exact readNumber_octet a _ (dot _)
  simp only [readIpv4Addr, first, separated b _ (dot _), separated c _ (dot _),
    separated d _ none, Option.bind_eq_bind, Option.bind_some, UInt8.ofNat_toNat]

/-- A text without a point is no address of four octets. -/
theorem readIpv4Addr_eq_none (plain : '.' ∉ text) : readIpv4Addr text = none := by
  cases found : readIpv4Addr text with
  | none => rfl
  | some result =>
      exfalso
      simp only [readIpv4Addr] at found
      obtain ⟨⟨a, afterA⟩, readA, found⟩ := Option.bind_eq_some_iff.mp found
      obtain ⟨⟨b, afterB⟩, readB, found⟩ := Option.bind_eq_some_iff.mp found
      obtain ⟨taken, rfl, -⟩ := reader_readNumber (by decide) false readA
      obtain ⟨rest, point, -⟩ := Option.bind_eq_some_iff.mp readB
      refine plain (List.mem_append_right taken ?_)
      change '.' ∈ afterA
      cases afterA with
      | nil => cases point
      | cons c tail =>
          rw [readGivenChar] at point
          split_ifs at point with same
          rw [same]
          exact List.mem_cons_self

/-! ## Addresses of sixteen octets -/

/-- The numbers of groups are below their limit. -/
def Groups (numbers : List Nat) : Prop := ∀ number ∈ numbers, number < 65536

/-- The groups of so many pairs of octets are as many numbers, below their limit, that hold all
octets. -/
theorem groupValues_spec {octets : Bytes} {count : Nat} (even : octets.length = 2 * count) :
    (groupValues octets).length = count ∧ Groups (groupValues octets) ∧
      (groupValues octets).flatMap (fun number => (group number).1) = octets := by
  fun_induction groupValues octets generalizing count with
  | case1 high low rest inductionHypothesis =>
      have fewer : rest.length = 2 * (count - 1) := by
        simp only [List.length_cons] at even
        omega
      obtain ⟨counted, below, holds⟩ := inductionHypothesis fewer
      have upper : UInt8.ofNat ((high.toNat * 256 + low.toNat) / 256) = high := by
        rw [Nat.mul_comm, Nat.mul_add_div (by decide), Nat.div_eq_of_lt low.toNat_lt, Nat.add_zero,
          UInt8.ofNat_toNat]
      have lower : UInt8.ofNat (high.toNat * 256 + low.toNat) = low := by
        refine UInt8.toNat_inj.mp ?_
        rw [UInt8.toNat_ofNat', Nat.mul_add_mod', Nat.mod_eq_of_lt low.toNat_lt]
      refine ⟨?_, ?_, ?_⟩
      · rw [List.length_cons, counted]
        simp only [List.length_cons] at even
        omega
      · intro number member
        rcases List.mem_cons.mp member with rfl | later
        · have bounded : high.toNat < 256 ∧ low.toNat < 256 := ⟨high.toNat_lt, low.toNat_lt⟩
          omega
        · exact below number later
      · rw [List.flatMap_cons, holds, group, upper, lower]
        rfl
  | case2 octets few =>
      rcases octets with _ | ⟨high, _ | ⟨low, rest⟩⟩
      · refine ⟨?_, fun _ member => absurd member List.not_mem_nil, rfl⟩
        rw [List.length_nil] at even ⊢
        omega
      · simp only [List.length_cons, List.length_nil] at even
        omega
      · exact absurd rfl (few high low rest)

theorem readNumber_group (below : number < 65536) (rest : List Char)
    (ends : ∀ c ∈ rest.head?, isDigit 16 c = false) :
    readNumber 16 4 65536 true (toDigits 16 number ++ rest) = some (number, rest) :=
  readNumber_toDigits (by decide) (by decide) below
    ((Nat.length_toDigits_le_iff (by decide) (by decide)).mpr below) (.inl rfl) rest ends

/-- What comes behind the first group. -/
def writeLater (numbers : List Nat) : List Char :=
  numbers.flatMap fun number => ':' :: toDigits 16 number

theorem ends_writeLater (numbers : List Nat) :
    ∀ c ∈ (writeLater numbers).head?, isDigit 16 c = false := by
  intro c first
  cases numbers with
  | nil => cases first
  | cons number numbers =>
      obtain rfl := Option.some.inj first
      rfl

theorem point_not_mem_toDigits (number : Nat) : '.' ∉ toDigits 16 number := by
  intro member
  have digit := isDigit_of_mem_toDigits (by decide : 1 < 16) le_rfl number '.' member
  exact absurd digit (by decide)

theorem point_not_mem_writeLater (numbers : List Nat) : '.' ∉ writeLater numbers := by
  intro member
  obtain ⟨number, -, inside⟩ := List.mem_flatMap.mp member
  rcases List.mem_cons.mp inside with colon | digit
  · exact absurd colon (by decide)
  · exact point_not_mem_toDigits number digit

/-- The later groups are read one after the other. -/
theorem readGroups_writeLater {numbers : List Nat} (groups : Groups numbers) :
    readGroups numbers.length false (writeLater numbers) = (numbers.map group, false, []) := by
  induction numbers with
  | nil => rfl
  | cons number numbers inductionHypothesis =>
      have written : writeLater (number :: numbers) =
          ':' :: (toDigits 16 number ++ writeLater numbers) := rfl
      have plain : '.' ∉ toDigits 16 number ++ writeLater numbers := by
        rw [List.mem_append, not_or]
        exact ⟨point_not_mem_toDigits number, point_not_mem_writeLater numbers⟩
      have noIpv4 : (if 0 < numbers.length then
          readSeparator ':' false readIpv4Addr (writeLater (number :: numbers)) else none) = none := by
        split_ifs
        · rw [written]
          exact readIpv4Addr_eq_none plain
        · rfl
      have first : readSeparator ':' false (readNumber 16 4 65536 true)
          (writeLater (number :: numbers)) = some (number, writeLater numbers) := by
        rw [written]
        exact readNumber_group (groups number List.mem_cons_self) _ (ends_writeLater numbers)
      rw [List.length_cons, readGroups, noIpv4, first]
      dsimp only
      rw [inductionHypothesis fun other member => groups other (List.mem_cons_of_mem number member)]
      rfl

theorem readGroups_writeNumbers {numbers : List Nat} (groups : Groups (number :: numbers)) :
    readGroups (numbers.length + 1) true (writeNumbers ':' 16 (number :: numbers)) =
      ((number :: numbers).map group, false, []) := by
  have written : writeNumbers ':' 16 (number :: numbers) =
      toDigits 16 number ++ writeLater numbers := rfl
  have plain : '.' ∉ toDigits 16 number ++ writeLater numbers := by
    rw [List.mem_append, not_or]
    exact ⟨point_not_mem_toDigits number, point_not_mem_writeLater numbers⟩
  have noIpv4 : (if 0 < numbers.length then
      readSeparator ':' true readIpv4Addr (writeNumbers ':' 16 (number :: numbers)) else none) =
        none := by
    split_ifs
    · rw [written]
      exact readIpv4Addr_eq_none plain
    · rfl
  have first : readSeparator ':' true (readNumber 16 4 65536 true)
      (writeNumbers ':' 16 (number :: numbers)) = some (number, writeLater numbers) := by
    rw [written]
    exact readNumber_group (groups number List.mem_cons_self) _ (ends_writeLater numbers)
  rw [readGroups, noIpv4, first]
  dsimp only
  rw [readGroups_writeLater fun other member => groups other (List.mem_cons_of_mem number member)]
  rfl

theorem readIpv6Addr_write (ip : Octets 16) :
    readIpv6Addr (writeNumbers ':' 16 (groupValues ip.1)) = some (ip, []) := by
  obtain ⟨eight, groups, octets⟩ := groupValues_spec (show ip.1.length = 2 * 8 from ip.2)
  obtain ⟨number, numbers, split⟩ := List.exists_cons_of_length_eq_add_one eight
  have read : readGroups 8 true (writeNumbers ':' 16 (groupValues ip.1)) =
      ((groupValues ip.1).map group, false, []) := by
    rw [split] at groups eight ⊢
    rw [← eight]
    exact readGroups_writeNumbers groups
  have whole : (readGroups 8 true (writeNumbers ':' 16 (groupValues ip.1))).1.length = 8 := by
    rw [read, List.length_map, eight]
  unfold readIpv6Addr
  dsimp only
  rw [dif_pos whole]
  refine congrArg some (Prod.ext (Subtype.ext ?_) ?_)
  · change (readGroups 8 true (writeNumbers ':' 16 (groupValues ip.1))).1.flatMap Subtype.val = ip.1
    rw [read, List.flatMap_map]
    exact octets
  · exact congrArg (fun result => result.2.2) read

/-- **An address is read from what it is written as.** -/
theorem parseAddress_writeAddress (address : Octets 4 ⊕ Octets 16) :
    parseAddress (writeAddress address) = some address := by
  cases address with
  | inl ip =>
      unfold parseAddress writeAddress
      rw [readIpv4Addr_write]
      rfl
  | inr ip =>
      have plain : '.' ∉ writeNumbers ':' 16 (groupValues ip.1) := by
        cases groupValues ip.1 with
        | nil => exact List.not_mem_nil
        | cons number numbers =>
            change '.' ∉ toDigits 16 number ++ writeLater numbers
            rw [List.mem_append, not_or]
            exact ⟨point_not_mem_toDigits number, point_not_mem_writeLater numbers⟩
      unfold parseAddress writeAddress
      dsimp only
      rw [readIpv4Addr_eq_none plain, readIpv6Addr_write]
      rfl

end RecurseX.Library
