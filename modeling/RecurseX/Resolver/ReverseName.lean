import RecurseX.Name.Ascii
import RecurseX.Resolver.Servers

/-!
# Reverse names

The `in-addr.arpa` and `ip6.arpa` names of addresses. Both parsers refuse a
spelling that is not the canonical one, but the number parser of the standard
library takes a plus sign in front of an octet.
-/

namespace RecurseX

open Library PrefixedList Wire

/-! ## The standard library's parsers -/

/-- `core::str::from_utf8`, with the string as its octets. -/
def fromUtf8 (octets : Bytes) : Option Bytes :=
  if (octets.toByteArray).IsValidUTF8 then some octets else none

/-- The digits of a `u8`, most significant first. -/
def parseU8Digits : Nat → Bytes → Option Nat
  | value, [] => some value
  | value, octet :: rest =>
      if isAsciiDigit octet then
        if value * 10 + digitValue octet ≤ 255 then parseU8Digits (value * 10 + digitValue octet) rest
        else none
      else none

/-- The text without a leading plus sign. -/
def stripPlus : Bytes → Bytes
  | [] => []
  | first :: rest => if first = 0x2b then rest else first :: rest

/-- `str::parse::<u8>`: an optional plus sign, then digits only. -/
def parseU8 (text : Bytes) : Option UInt8 :=
  if stripPlus text = [] then none else (parseU8Digits 0 (stripPlus text)).map UInt8.ofNat

/-- `char::to_digit(16)` of an octet. -/
def toDigit16 (octet : UInt8) : Option UInt8 :=
  if isAsciiDigit octet then some (octet - 0x30)
  else if 0x61 ≤ octet ∧ octet ≤ 0x66 then some (octet - 0x57)
  else if 0x41 ≤ octet ∧ octet ≤ 0x46 then some (octet - 0x37)
  else none

def eqIgnoreAsciiCase (first second : Bytes) : Bool :=
  first.map asciiLower == second.map asciiLower

/-! ## The two parsers -/

/-- `in-addr`. -/
def inAddrLabel : Bytes := [0x69, 0x6e, 0x2d, 0x61, 0x64, 0x64, 0x72]

/-- `ip6`. -/
def ip6Label : Bytes := [0x69, 0x70, 0x36]

/-- `arpa`. -/
def arpaLabel : Bytes := [0x61, 0x72, 0x70, 0x61]

/-- The octet a string of characters spells. -/
def octetOfText (text : Bytes) : Option UInt8 :=
  if text = [] ∨ 3 < text.length ∨ 1 < text.length ∧ text.head? = some 0x30 then none
  else parseU8 text

/-- The octet one label spells. -/
def octetOfLabel (label : Bytes) : Option UInt8 := do
  let text ← fromUtf8 label
  octetOfText text

/-- Parse an `in-addr.arpa` reverse name into the address it stands for. Labels run least
significant first. -/
def parseInAddrArpa (name : Name) : Option (Octets 4) :=
  match name.labels with
  | [fourth, third, second, first, zone, top] =>
      if eqIgnoreAsciiCase zone inAddrLabel && eqIgnoreAsciiCase top arpaLabel then do
        let d ← octetOfLabel fourth
        let c ← octetOfLabel third
        let b ← octetOfLabel second
        let a ← octetOfLabel first
        some (ipv4 a b c d)
      else none
  | _ => none

/-- The nibble loop from label number `i` on. -/
def nibbleLoop : (i : Nat) → List Bytes → Octets 16 → Option (Octets 16)
  | _, [], octets => some octets
  | i, [octet] :: labels, octets => do
      let digit ← toDigit16 octet
      let nibble := 31 - i
      let slot ← octets.1[nibble / 2]?
      let filled := slot ||| digit <<< (4 * (1 - UInt8.ofNat (nibble % 2)))
      nibbleLoop (i + 1) labels ⟨octets.1.set (nibble / 2) filled, by simp [octets.2]⟩
  | _, _ :: _, _ => none

/-- Parse an `ip6.arpa` reverse name into the address it stands for. -/
def parseIp6Arpa (name : Name) : Option (Octets 16) :=
  if name.labels.length ≠ 34 then none
  else do
    let zone ← name.labels[32]?
    let top ← name.labels[33]?
    if eqIgnoreAsciiCase zone ip6Label && eqIgnoreAsciiCase top arpaLabel then
      nibbleLoop 0 (name.labels.take 32) ⟨List.replicate 16 0, rfl⟩
    else none

/-! ## The canonical names -/

/-- The digit of a number below 16. -/
def hexDigit (value : UInt8) : UInt8 := if value < 10 then 0x30 + value else 0x57 + value

/-- A number below 256 in decimal, without leading zeros. -/
def decimal (value : UInt8) : Bytes :=
  if value < 10 then [hexDigit value]
  else if value < 100 then [hexDigit (value / 10), hexDigit (value % 10)]
  else [hexDigit (value / 100), hexDigit (value / 10 % 10), hexDigit (value % 10)]

/-- The labels of the `in-addr.arpa` name of an address. -/
def inAddrArpaLabels (ip : Octets 4) : List Bytes :=
  ip.1.reverse.map decimal ++ [inAddrLabel, arpaLabel]

/-- The two labels of one octet of an `ip6.arpa` name, low nibble first. -/
def nibbleLabels (octet : UInt8) : List Bytes := [[hexDigit (octet % 16)], [hexDigit (octet / 16)]]

/-- The labels of the `ip6.arpa` name of an address. -/
def ip6ArpaLabels (ip : Octets 16) : List Bytes :=
  ip.1.reverse.flatMap nibbleLabels ++ [ip6Label, arpaLabel]

/-! ## Octet labels -/

/-- An octet with a plus sign and one or two digits. -/
def SignedOctet (label : Bytes) (value : UInt8) : Prop :=
  ∃ high < 10, ∃ low < 10, value = UInt8.ofNat (high * 10 + low) ∧
    (label = [0x2b, hexDigit (UInt8.ofNat high), hexDigit (UInt8.ofNat low)] ∨
      high = 0 ∧ label = [0x2b, hexDigit (UInt8.ofNat low)])

theorem forall_octet {holds : UInt8 → Prop} (checked : ∀ value < 256, holds (UInt8.ofNat value))
    (octet : UInt8) : holds octet := by
  have found := checked octet.toNat octet.toNat_lt
  rwa [UInt8.ofNat_toNat] at found

theorem utf8EncodeChar_ascii :
    ∀ value < 128, String.utf8EncodeChar (Char.ofNat value) = [UInt8.ofNat value] := by
  decide

theorem fromUtf8_ascii {octets : Bytes} (ascii : ∀ octet ∈ octets, octet < 0x80) :
    fromUtf8 octets = some octets := by
  refine if_pos ?_
  induction octets with
  | nil => exact ByteArray.isValidUTF8_empty
  | cons octet octets inductionHypothesis =>
      obtain ⟨small, others⟩ := List.forall_mem_cons.mp ascii
      have encoded := utf8EncodeChar_ascii octet.toNat (UInt8.lt_iff_toNat_lt.mp small)
      rw [UInt8.ofNat_toNat] at encoded
      have first : [octet].toByteArray.IsValidUTF8 := by
        rw [← encoded]
        exact Char.isValidUTF8_toByteArray_utf8EncodeChar
      rw [← List.singleton_append, List.toByteArray_append]
      exact first.append (inductionHypothesis others)

theorem isAsciiDigit_hexDigit : ∀ value < 10,
    isAsciiDigit (hexDigit (UInt8.ofNat value)) = true ∧
      digitValue (hexDigit (UInt8.ofNat value)) = value ∧ hexDigit (UInt8.ofNat value) < 0x80 ∧
      hexDigit (UInt8.ofNat value) ≠ 0x2b ∧
      (hexDigit (UInt8.ofNat value) = 0x30 ↔ value = 0) := by
  decide

theorem toNat_ofNat_small {value : Nat} (small : value < 256) :
    (UInt8.ofNat value).toNat = value := by
  rw [UInt8.toNat_ofNat']
  omega

theorem hexDigit_of_isAsciiDigit : ∀ octet : UInt8, isAsciiDigit octet = true →
    digitValue octet < 10 ∧ hexDigit (UInt8.ofNat (digitValue octet)) = octet := by
  intro octet digit
  rw [isAsciiDigit, Bool.and_eq_true, decide_eq_true_eq, decide_eq_true_eq,
    UInt8.le_iff_toNat_le, UInt8.le_iff_toNat_le] at digit
  obtain ⟨low, high⟩ := digit
  change 48 ≤ octet.toNat at low
  change octet.toNat ≤ 57 at high
  have small : digitValue octet < 10 := by
    change octet.toNat - 48 < 10
    omega
  have same := toNat_ofNat_small (Nat.lt_trans small (by decide))
  have digit : UInt8.ofNat (digitValue octet) < 10 := by
    rw [UInt8.lt_iff_toNat_lt, same]
    exact small
  refine ⟨small, ?_⟩
  rw [hexDigit, if_pos digit, ← UInt8.toNat_inj, UInt8.toNat_add, same]
  change (48 + (octet.toNat - 48)) % 256 = octet.toNat
  omega

theorem octetOfText_signed : ∀ high < 10, ∀ low < 10,
    octetOfText [0x2b, hexDigit (UInt8.ofNat high), hexDigit (UInt8.ofNat low)] =
      some (UInt8.ofNat (high * 10 + low)) ∧
    octetOfText [0x2b, hexDigit (UInt8.ofNat low)] = some (UInt8.ofNat low) := by
  decide

theorem parseU8Digits_eq_some {octet : UInt8} {rest : Bytes} {value result : Nat}
    (parsed : parseU8Digits value (octet :: rest) = some result) :
    ∃ digit < 10, octet = hexDigit (UInt8.ofNat digit) ∧ value * 10 + digit ≤ 255 ∧
      parseU8Digits (value * 10 + digit) rest = some result := by
  rw [parseU8Digits] at parsed
  split at parsed
  · rename_i digit
    obtain ⟨small, same⟩ := hexDigit_of_isAsciiDigit octet digit
    split at parsed
    · exact ⟨digitValue octet, small, same.symm, by assumption, parsed⟩
    · cases parsed
  · cases parsed

theorem decimal_ofNat : ∀ value < 256, decimal (UInt8.ofNat value) =
    if value < 10 then [hexDigit (UInt8.ofNat value)]
    else if value < 100 then
      [hexDigit (UInt8.ofNat (value / 10)), hexDigit (UInt8.ofNat (value % 10))]
    else [hexDigit (UInt8.ofNat (value / 100)), hexDigit (UInt8.ofNat (value / 10 % 10)),
      hexDigit (UInt8.ofNat (value % 10))] := by
  intro value small
  have same := toNat_ofNat_small small
  have ten : UInt8.ofNat value / 10 = UInt8.ofNat (value / 10) := by
    rw [← UInt8.toNat_inj, UInt8.toNat_div, same, toNat_ofNat_small (by omega)]
    rfl
  have hundred : UInt8.ofNat value / 100 = UInt8.ofNat (value / 100) := by
    rw [← UInt8.toNat_inj, UInt8.toNat_div, same, toNat_ofNat_small (by omega)]
    rfl
  have unit (other : Nat) (bound : other < 256) :
      UInt8.ofNat other % 10 = UInt8.ofNat (other % 10) := by
    rw [← UInt8.toNat_inj, UInt8.toNat_mod, toNat_ofNat_small bound, toNat_ofNat_small (by omega)]
    rfl
  unfold decimal
  rw [ten, hundred, unit value small, unit (value / 10) (by omega)]
  simp only [UInt8.lt_iff_toNat_lt, same]
  rfl

theorem parseU8Digits_hexDigit {value digit : Nat} (small : digit < 10) (rest : Bytes) :
    parseU8Digits value (hexDigit (UInt8.ofNat digit) :: rest) =
      if value * 10 + digit ≤ 255 then parseU8Digits (value * 10 + digit) rest else none := by
  obtain ⟨isDigit, same, -⟩ := isAsciiDigit_hexDigit digit small
  rw [parseU8Digits, if_pos isDigit, same]

/-- Digits without a leading zero are read as a number. -/
theorem octetOfText_digits {first : Nat} {rest : Bytes} (small : first < 10)
    (short : rest.length ≤ 2) (leading : rest ≠ [] → first ≠ 0) :
    octetOfText (hexDigit (UInt8.ofNat first) :: rest) =
      (parseU8Digits 0 (hexDigit (UInt8.ofNat first) :: rest)).map UInt8.ofNat := by
  obtain ⟨-, -, -, noSign, zero⟩ := isAsciiDigit_hexDigit first small
  rw [octetOfText, if_neg, parseU8, stripPlus, if_neg noSign, if_neg (List.cons_ne_nil _ _)]
  rintro (empty | long | ⟨long, head⟩)
  · cases empty
  · rw [List.length_cons] at long
    omega
  · refine leading ?_ (zero.mp (Option.some.inj head))
    rintro rfl
    exact Nat.lt_irrefl 1 long

theorem octetOfText_decimal : ∀ value : UInt8, octetOfText (decimal value) = some value := by
  refine forall_octet fun value small => ?_
  rw [decimal_ofNat value small]
  split_ifs with units tens
  · rw [octetOfText_digits units (by decide) (absurd rfl), parseU8Digits_hexDigit units,
      if_pos (by omega), parseU8Digits, Nat.zero_mul, Nat.zero_add]
    rfl
  · rw [octetOfText_digits (by omega) (by simp) (fun _ => by omega),
      parseU8Digits_hexDigit (by omega), if_pos (by omega), parseU8Digits_hexDigit (by omega),
      if_pos (by omega), parseU8Digits, show (0 * 10 + value / 10) * 10 + value % 10 = value by omega]
    rfl
  · rw [octetOfText_digits (by omega) (by simp) (fun _ => by omega),
      parseU8Digits_hexDigit (by omega), if_pos (by omega), parseU8Digits_hexDigit (by omega),
      if_pos (by omega), parseU8Digits_hexDigit (by omega), if_pos (by omega), parseU8Digits,
      show ((0 * 10 + value / 100) * 10 + value / 10 % 10) * 10 + value % 10 = value by omega]
    rfl

/-- Without a sign the digits are the canonical ones, since a leading zero is refused. -/
theorem eq_decimal_of_parseU8Digits {first : UInt8} {rest : Bytes} {result : Nat}
    (short : (first :: rest).length ≤ 3) (noZero : rest ≠ [] → first ≠ 0x30)
    (parsed : parseU8Digits 0 (first :: rest) = some result) :
    first :: rest = decimal (UInt8.ofNat result) := by
  obtain ⟨high, highSmall, rfl, -, parsed⟩ := parseU8Digits_eq_some parsed
  obtain _ | ⟨second, rest⟩ := rest
  · cases parsed
    rw [decimal_ofNat _ (by omega), if_pos (by omega), Nat.zero_mul, Nat.zero_add]
  have leading : high ≠ 0 := by
    have zero := (isAsciiDigit_hexDigit high highSmall).2.2.2.2
    exact fun none => noZero (List.cons_ne_nil _ _) (zero.mpr none)
  obtain ⟨middle, middleSmall, rfl, -, parsed⟩ := parseU8Digits_eq_some parsed
  obtain _ | ⟨third, rest⟩ := rest
  · cases parsed
    rw [decimal_ofNat _ (by omega), if_neg (by omega), if_pos (by omega),
      show ((0 * 10 + high) * 10 + middle) / 10 = high by omega,
      show ((0 * 10 + high) * 10 + middle) % 10 = middle by omega]
  obtain ⟨low, lowSmall, rfl, bound, parsed⟩ := parseU8Digits_eq_some parsed
  obtain _ | ⟨fourth, rest⟩ := rest
  · cases parsed
    rw [decimal_ofNat _ (by omega), if_neg (by omega), if_neg (by omega),
      show (((0 * 10 + high) * 10 + middle) * 10 + low) / 100 = high by omega,
      show (((0 * 10 + high) * 10 + middle) * 10 + low) / 10 % 10 = middle by omega,
      show (((0 * 10 + high) * 10 + middle) * 10 + low) % 10 = low by omega]
  · simp only [List.length_cons] at short
    omega

/-- Behind a sign there are one or two digits. -/
theorem signedOctet_of_parseU8Digits {rest : Bytes} {result : Nat} (short : rest.length ≤ 2)
    (digits : rest ≠ []) (parsed : parseU8Digits 0 rest = some result) :
    SignedOctet (0x2b :: rest) (UInt8.ofNat result) := by
  obtain _ | ⟨first, rest⟩ := rest
  · exact absurd rfl digits
  obtain ⟨high, highSmall, rfl, -, parsed⟩ := parseU8Digits_eq_some parsed
  rw [Nat.zero_mul, Nat.zero_add] at parsed
  obtain _ | ⟨second, rest⟩ := rest
  · cases parsed
    exact ⟨0, by decide, result, highSmall, by rw [Nat.zero_mul, Nat.zero_add], Or.inr ⟨rfl, rfl⟩⟩
  obtain ⟨low, lowSmall, rfl, -, parsed⟩ := parseU8Digits_eq_some parsed
  obtain _ | ⟨third, rest⟩ := rest
  · cases parsed
    exact ⟨high, highSmall, low, lowSmall, rfl, Or.inl rfl⟩
  · simp only [List.length_cons] at short
    omega

/-- An accepted octet is in canonical decimal or has a plus sign. -/
theorem octetOfText_eq_some_iff {text : Bytes} {value : UInt8} :
    octetOfText text = some value ↔ text = decimal value ∨ SignedOctet text value := by
  constructor
  · intro parsed
    rw [octetOfText] at parsed
    split at parsed
    · cases parsed
    · rename_i shape
      simp only [not_or, not_and, Nat.not_lt] at shape
      obtain ⟨nonempty, short, noZero⟩ := shape
      obtain _ | ⟨first, rest⟩ := text
      · exact absurd rfl nonempty
      rw [parseU8] at parsed
      split at parsed
      · cases parsed
      · rename_i digits
        obtain ⟨result, read, rfl⟩ := Option.map_eq_some_iff.mp parsed
        rw [stripPlus] at digits read
        by_cases plus : first = 0x2b
        · rw [if_pos plus] at digits read
          subst plus
          exact .inr (signedOctet_of_parseU8Digits (Nat.le_of_succ_le_succ short) digits read)
        · rw [if_neg plus] at read
          refine .inl (eq_decimal_of_parseU8Digits short (fun more => ?_) read)
          have long : 1 < (first :: rest).length :=
            Nat.succ_lt_succ (List.length_pos_of_ne_nil more)
          exact fun zero => noZero long (by rw [zero]; rfl)
  · rintro (rfl | ⟨high, highSmall, low, lowSmall, rfl, rfl | ⟨rfl, rfl⟩⟩)
    · exact octetOfText_decimal value
    · exact (octetOfText_signed high highSmall low lowSmall).1
    · rw [Nat.zero_mul, Nat.zero_add]
      exact (octetOfText_signed 0 (by decide) low lowSmall).2

/-- The label spells the octet, in canonical decimal or with a plus sign. -/
def SpellsOctet (label : Bytes) (value : UInt8) : Prop := label = decimal value ∨ SignedOctet label value

/-- The octets of a label that spells an octet are digits, or the sign. -/
theorem SpellsOctet.small {label : Bytes} {value : UInt8} (spells : SpellsOctet label value) :
    ∀ octet ∈ label, octet < 0x41 := by
  have digit : ∀ value < 10, hexDigit (UInt8.ofNat value) < 0x41 := by decide
  have digits : ∀ value : UInt8, ∀ octet ∈ decimal value, octet < 0x41 := by
    refine forall_octet fun value small octet member => ?_
    rw [decimal_ofNat value small] at member
    split_ifs at member
    · rw [List.mem_singleton.mp member]
      exact digit value ‹_›
    · rcases List.mem_pair.mp member with rfl | rfl
      · exact digit _ (by omega)
      · exact digit _ (by omega)
    · rcases List.mem_cons.mp member with rfl | member
      · exact digit _ (by omega)
      · rcases List.mem_pair.mp member with rfl | rfl
        · exact digit _ (by omega)
        · exact digit _ (by omega)
  rcases spells with rfl | ⟨high, highSmall, low, lowSmall, -, rfl | ⟨-, rfl⟩⟩
  · exact digits value
  · simp only [List.forall_mem_cons]
    exact ⟨by decide, digit high highSmall, digit low lowSmall, fun _ member => (by cases member)⟩
  · simp only [List.forall_mem_cons]
    exact ⟨by decide, digit low lowSmall, fun _ member => (by cases member)⟩

theorem octetOfLabel_eq_some_iff {label : Bytes} {value : UInt8} :
    octetOfLabel label = some value ↔ SpellsOctet label value := by
  rw [octetOfLabel, SpellsOctet, ← octetOfText_eq_some_iff]
  constructor
  · intro parsed
    obtain ⟨text, valid, read⟩ := Option.bind_eq_some_iff.mp parsed
    rw [fromUtf8] at valid
    split at valid
    · cases valid
      exact read
    · cases valid
  · intro read
    have small := SpellsOctet.small (octetOfText_eq_some_iff.mp read)
    have ascii : ∀ octet ∈ label, octet < 0x80 := fun octet member =>
      UInt8.lt_trans (small octet member) (by decide)
    rw [fromUtf8_ascii ascii]
    exact read

/-! ## Letter case -/

/-- The label in lower case. -/
def foldLabel (label : Bytes) : Bytes := label.map asciiLower

theorem asciiLower_small : ∀ octet : UInt8, (asciiLower octet < 0x41 ↔ octet < 0x41) ∧
    (octet < 0x41 → asciiLower octet = octet) := by
  intro octet
  unfold asciiLower
  grind

/-- A label without letters is its own lower case. -/
theorem foldLabel_of_small {label : Bytes} (small : ∀ octet ∈ label, octet < 0x41) :
    foldLabel label = label := by
  refine (List.map_congr_left fun octet member => ?_).trans (List.map_id label)
  exact (asciiLower_small octet).2 (small octet member)

theorem SpellsOctet.foldLabel_iff {label : Bytes} {value : UInt8} :
    SpellsOctet (foldLabel label) value ↔ SpellsOctet label value := by
  constructor
  · intro spells
    have small : ∀ octet ∈ label, octet < 0x41 := fun octet member =>
      (asciiLower_small octet).1.mp (spells.small _ (List.mem_map_of_mem member))
    rwa [foldLabel_of_small small] at spells
  · intro spells
    rwa [foldLabel_of_small spells.small]

/-! ## The names that are accepted -/

theorem eqIgnoreAsciiCase_iff {label other : Bytes} (lower : foldLabel other = other) :
    eqIgnoreAsciiCase label other = true ↔ foldLabel label = other := by
  rw [eqIgnoreAsciiCase, beq_iff_eq]
  change foldLabel label = foldLabel other ↔ _
  rw [lower]

/-- A name is read as an IPv4 address when four labels spell its octets, the last one first. -/
theorem parseInAddrArpa_eq_some_iff {name : Name} {ip : Octets 4} :
    parseInAddrArpa name = some ip ↔
      ∃ octets, name.labels.map foldLabel = octets ++ [inAddrLabel, arpaLabel] ∧
        List.Forall₂ SpellsOctet octets ip.1.reverse := by
  rw [parseInAddrArpa]
  constructor
  · intro parsed
    split at parsed
    · rename_i fourth third second first zone top labels
      split at parsed
      · rename_i hierarchy
        rw [Bool.and_eq_true, eqIgnoreAsciiCase_iff rfl, eqIgnoreAsciiCase_iff rfl] at hierarchy
        simp only [Option.bind_eq_bind, Option.bind_eq_some_iff, octetOfLabel_eq_some_iff] at parsed
        obtain ⟨d, fourthAt, c, thirdAt, b, secondAt, a, firstAt, returned⟩ := parsed
        cases returned
        refine ⟨[fourth, third, second, first].map foldLabel, ?_, ?_⟩
        · simp [labels, hierarchy]
        · simp only [List.map_cons, List.map_nil, ipv4, List.reverse_cons, List.reverse_nil,
            List.nil_append, List.cons_append, List.forall₂_cons, List.Forall₂.nil, and_true,
            SpellsOctet.foldLabel_iff]
          exact ⟨fourthAt, thirdAt, secondAt, firstAt⟩
      · cases parsed
    · cases parsed
  · rintro ⟨octets, labels, spelled⟩
    obtain ⟨a, b, c, d, rfl⟩ : ∃ a b c d, ip = ipv4 a b c d := by
      obtain ⟨list, width⟩ := ip
      match list, width with
      | [a, b, c, d], _ => exact ⟨a, b, c, d, rfl⟩
    change List.Forall₂ SpellsOctet octets [d, c, b, a] at spelled
    simp only [List.forall₂_cons_right_iff, List.forall₂_nil_right_iff] at spelled
    obtain ⟨_, _, fourthAt, ⟨_, _, thirdAt, ⟨_, _, secondAt, ⟨_, _, firstAt, rfl, rfl⟩, rfl⟩, rfl⟩,
      rfl⟩ := spelled
    simp only [List.cons_append, List.nil_append, List.map_eq_cons_iff, List.map_eq_nil_iff] at labels
    obtain ⟨fourth, _, whole, rfl, third, _, rfl, rfl, second, _, rfl, rfl, first, _, rfl, rfl,
      zone, _, rfl, zoneAt, top, _, rfl, topAt, rfl⟩ := labels
    rw [SpellsOctet.foldLabel_iff, ← octetOfLabel_eq_some_iff] at fourthAt thirdAt secondAt firstAt
    rw [whole]
    have hierarchy : (eqIgnoreAsciiCase zone inAddrLabel && eqIgnoreAsciiCase top arpaLabel) = true := by
      rw [Bool.and_eq_true, eqIgnoreAsciiCase_iff rfl, eqIgnoreAsciiCase_iff rfl]
      exact ⟨zoneAt, topAt⟩
    simp [hierarchy, fourthAt, thirdAt, secondAt, firstAt]

/-! ## Nibbles -/

theorem toDigit16_eq_some : ∀ octet digit : UInt8, toDigit16 octet = some digit →
    digit < 16 ∧ asciiLower octet = hexDigit digit := by
  have checked : ∀ octet : UInt8, ((toDigit16 octet).all fun digit =>
      decide (digit < 16 ∧ asciiLower octet = hexDigit digit)) = true :=
    forall_octet (by decide +kernel)
  intro octet digit found
  have holds := checked octet
  rw [found] at holds
  exact of_decide_eq_true holds

theorem toDigit16_asciiLower : ∀ octet : UInt8, toDigit16 (asciiLower octet) = toDigit16 octet := by
  intro octet
  unfold toDigit16 asciiLower isAsciiDigit
  grind

theorem toDigit16_hexDigit : ∀ digit < 16,
    toDigit16 (hexDigit (UInt8.ofNat digit)) = some (UInt8.ofNat digit) := by
  decide

theorem toDigit16_of_hexDigit : ∀ octet digit : UInt8, digit < 16 →
    asciiLower octet = hexDigit digit → toDigit16 octet = some digit := by
  intro octet digit small same
  have read := toDigit16_hexDigit digit.toNat (UInt8.lt_iff_toNat_lt.mp small)
  rwa [UInt8.ofNat_toNat, ← same, toDigit16_asciiLower] at read

theorem halves_of_digits : ∀ low < 16, ∀ high < 16,
    (UInt8.ofNat low ||| UInt8.ofNat high <<< 4) % 16 = UInt8.ofNat low ∧
      (UInt8.ofNat low ||| UInt8.ofNat high <<< 4) / 16 = UInt8.ofNat high := by
  decide

theorem digits_of_halves : ∀ octet : UInt8, octet % (16 : UInt8) ||| (octet / 16) <<< 4 = octet ∧
    octet % (16 : UInt8) < 16 ∧ octet / 16 < 16 :=
  forall_octet (by decide +kernel)

@[simp] theorem nibbleLoop_nil (i : Nat) (octets : Octets 16) :
    nibbleLoop i [] octets = some octets := rfl

/-- One step of the loop. -/
theorem nibbleLoop_cons {i : Nat} {label : Bytes} {labels : List Bytes} {octets result : Octets 16}
    {slot : UInt8} (there : octets.1[(31 - i) / 2]? = some slot) :
    nibbleLoop i (label :: labels) octets = some result ↔
      ∃ digit, digit < 16 ∧ foldLabel label = [hexDigit digit] ∧
        nibbleLoop (i + 1) labels ⟨octets.1.set ((31 - i) / 2)
          (slot ||| digit <<< (4 * (1 - UInt8.ofNat ((31 - i) % 2)))), by simp [octets.2]⟩ =
          some result := by
  obtain _ | ⟨octet, _ | ⟨next, rest⟩⟩ := label
  · simp [nibbleLoop, foldLabel]
  · rw [nibbleLoop]
    simp only [there, Option.bind_eq_bind, Option.bind_some, Option.bind_eq_some_iff]
    constructor
    · rintro ⟨digit, read, rest⟩
      obtain ⟨small, same⟩ := toDigit16_eq_some octet digit read
      exact ⟨digit, small, by rw [foldLabel, List.map_singleton, same], rest⟩
    · rintro ⟨digit, small, same, rest⟩
      exact ⟨digit, toDigit16_of_hexDigit octet digit small (List.singleton_inj.mp same), rest⟩
  · simp [nibbleLoop, foldLabel]

/-- Two labels fill one octet, the last that is still zero. -/
theorem nibbleLoop_pair {zeros : Nat} {low high : Bytes} {labels : List Bytes} {tail : Bytes}
    {octets result : Octets 16} (shape : octets.1 = List.replicate (zeros + 1) 0 ++ tail) :
    nibbleLoop (30 - 2 * zeros) (low :: high :: labels) octets = some result ↔
      ∃ (octet : UInt8) (next : Octets 16), [low, high].map foldLabel = nibbleLabels octet ∧
        next.1 = List.replicate zeros 0 ++ octet :: tail ∧
        nibbleLoop (32 - 2 * zeros) labels next = some result := by
  have width : zeros + 1 + tail.length = 16 := by
    have whole := octets.2
    rwa [shape, List.length_append, List.length_replicate] at whole
  have lowAt : (31 - (30 - 2 * zeros)) / 2 = zeros := by omega
  have lowHalf : (31 - (30 - 2 * zeros)) % 2 = 1 := by omega
  have highAt : (31 - (30 - 2 * zeros + 1)) / 2 = zeros := by omega
  have highHalf : (31 - (30 - 2 * zeros + 1)) % 2 = 0 := by omega
  have further : 30 - 2 * zeros + 1 + 1 = 32 - 2 * zeros := by omega
  have fresh : octets.1[(31 - (30 - 2 * zeros)) / 2]? = some 0 := by
    rw [lowAt, shape, List.getElem?_append_left (by simp)]
    simp
  have split : ∀ first : UInt8, octets.1.set zeros first = List.replicate zeros 0 ++ first :: tail := by
    intro first
    rw [shape, List.replicate_succ', List.append_assoc, List.set_append_right _ _ (by simp)]
    simp
  have lowFill : ∀ digit : UInt8, 0 ||| digit <<< (4 * (1 - UInt8.ofNat 1)) = digit := by
    intro digit
    simp
  -- What the second label does to the octets the first one left.
  have second : ∀ (digit : UInt8) (middle : Octets 16), middle.1 = octets.1.set zeros digit →
      (nibbleLoop (30 - 2 * zeros + 1) (high :: labels) middle = some result ↔
        ∃ upper, upper < 16 ∧ foldLabel high = [hexDigit upper] ∧ ∃ next : Octets 16,
          next.1 = List.replicate zeros (0 : UInt8) ++ (digit ||| upper <<< 4) :: tail ∧
          nibbleLoop (32 - 2 * zeros) labels next = some result) := by
    intro digit middle set
    have filled : middle.1[(31 - (30 - 2 * zeros + 1)) / 2]? = some digit := by
      rw [highAt, set, List.getElem?_set_self (by rw [octets.2]; omega)]
    have placed : ∀ upper : UInt8,
        middle.1.set ((31 - (30 - 2 * zeros + 1)) / 2)
          (digit ||| upper <<< (4 * (1 - UInt8.ofNat ((31 - (30 - 2 * zeros + 1)) % 2)))) =
          List.replicate zeros (0 : UInt8) ++ (digit ||| upper <<< 4) :: tail := by
      intro upper
      rw [highAt, highHalf, set, List.set_set, split]
      rfl
    rw [nibbleLoop_cons filled, further]
    refine exists_congr fun upper => and_congr_right fun _ => and_congr_right fun _ => ?_
    constructor
    · exact fun rest => ⟨_, placed upper, rest⟩
    · rintro ⟨next, shaped, rest⟩
      rw [← rest]
      exact congrArg _ (Subtype.ext ((placed upper).trans shaped.symm))
  rw [nibbleLoop_cons fresh]
  constructor
  · rintro ⟨lower, lowerSmall, lowerSame, rest⟩
    obtain ⟨upper, upperSmall, upperSame, next, shaped, rest⟩ :=
      (second lower _ (by simp only [lowAt, lowHalf, lowFill])).mp rest
    obtain ⟨modulo, quotient⟩ := halves_of_digits lower.toNat lowerSmall upper.toNat upperSmall
    rw [UInt8.ofNat_toNat, UInt8.ofNat_toNat] at modulo quotient
    refine ⟨_, next, ?_, shaped, rest⟩
    rw [nibbleLabels, modulo, quotient, List.map_cons, List.map_singleton, lowerSame, upperSame]
  · rintro ⟨octet, next, labelled, shaped, rest⟩
    obtain ⟨whole, lowerSmall, upperSmall⟩ := digits_of_halves octet
    simp only [nibbleLabels, List.map_cons, List.map_nil, List.cons.injEq, and_true] at labelled
    refine ⟨octet % 16, lowerSmall, labelled.1, ?_⟩
    refine (second (octet % 16) _ (by simp only [lowAt, lowHalf, lowFill])).mpr ?_
    refine ⟨octet / 16, upperSmall, labelled.2, next, ?_, rest⟩
    exact shaped.trans (congrArg (fun octet => List.replicate zeros 0 ++ octet :: tail) whole.symm)

theorem nibbleLoop_eq_some_iff {zeros : Nat} : ∀ {labels : List Bytes} {tail : Bytes}
    {octets result : Octets 16}, octets.1 = List.replicate zeros 0 ++ tail →
    labels.length = 2 * zeros →
    (nibbleLoop (32 - 2 * zeros) labels octets = some result ↔
      ∃ front : Bytes, result.1 = front ++ tail ∧ front.length = zeros ∧
        labels.map foldLabel = front.reverse.flatMap nibbleLabels) := by
  induction zeros with
  | zero =>
      intro labels tail octets result shape count
      obtain rfl := List.length_eq_zero_iff.mp count
      rw [nibbleLoop_nil, Option.some_inj, Subtype.ext_iff, shape]
      constructor
      · exact fun same => ⟨[], same.symm, rfl, rfl⟩
      · rintro ⟨front, same, none, -⟩
        obtain rfl := List.length_eq_zero_iff.mp none
        exact same.symm
  | succ zeros inductionHypothesis =>
      intro labels tail octets result shape count
      obtain _ | ⟨low, _ | ⟨high, labels⟩⟩ := labels
      · simp at count
      · simp at count
        omega
      have begun : 32 - 2 * (zeros + 1) = 30 - 2 * zeros := by omega
      rw [begun, nibbleLoop_pair shape]
      simp only [List.length_cons] at count
      constructor
      · rintro ⟨octet, next, labelled, shaped, rest⟩
        obtain ⟨front, whole, width, spelled⟩ :=
          (inductionHypothesis shaped (by omega)).mp rest
        refine ⟨front ++ [octet], by rw [whole, List.append_assoc]; rfl, by simp [width], ?_⟩
        rw [List.reverse_append, List.flatMap_append, ← spelled]
        exact congrArg (· ++ labels.map foldLabel) (labelled.trans (List.append_nil _).symm)
      · rintro ⟨front, whole, width, spelled⟩
        obtain rfl | ⟨front, octet, rfl⟩ := List.eq_nil_or_concat front
        · simp at width
        rw [List.concat_eq_append] at whole width spelled
        rw [List.append_assoc] at whole
        rw [List.reverse_append, List.flatMap_append] at spelled
        rw [List.length_append, List.length_singleton] at width
        have room := octets.2
        rw [shape, List.length_append, List.length_replicate] at room
        let next : Octets 16 := ⟨List.replicate zeros 0 ++ octet :: tail, by simp; omega⟩
        obtain ⟨here, there⟩ := @List.append_inj _ [foldLabel low, foldLabel high] _ _ _ spelled rfl
        refine ⟨octet, next, here.trans (List.append_nil _), rfl, ?_⟩
        exact (inductionHypothesis rfl (by omega)).mpr ⟨front, whole, by omega, there⟩

/-- A name is read as an IPv6 address when 32 labels are its nibbles, the last one first. -/
theorem parseIp6Arpa_eq_some_iff {name : Name} {ip : Octets 16} :
    parseIp6Arpa name = some ip ↔ name.labels.map foldLabel = ip6ArpaLabels ip := by
  have loop : ∀ {labels : List Bytes}, labels.length = 32 →
      (nibbleLoop 0 labels ⟨List.replicate 16 0, rfl⟩ = some ip ↔
        labels.map foldLabel = ip.1.reverse.flatMap nibbleLabels) := by
    intro labels count
    have filled := @nibbleLoop_eq_some_iff 16 labels [] ⟨List.replicate 16 0, rfl⟩ ip
      (List.append_nil _).symm count
    rw [filled]
    constructor
    · rintro ⟨front, whole, -, spelled⟩
      rwa [whole, List.append_nil]
    · exact fun spelled => ⟨ip.1, (List.append_nil _).symm, ip.2, spelled⟩
  have nibbles : (ip.1.reverse.flatMap nibbleLabels).length = 32 := by
    simp [List.length_flatMap, nibbleLabels, ip.2]
  rw [parseIp6Arpa]
  by_cases count : name.labels.length = 34
  · obtain ⟨zone, top, last⟩ : ∃ zone top, name.labels.drop 32 = [zone, top] := by
      have two : (name.labels.drop 32).length = 2 := by rw [List.length_drop, count]
      exact List.length_eq_two.mp two
    have whole : name.labels = name.labels.take 32 ++ [zone, top] := by
      rw [← last, List.take_append_drop]
    have front : (name.labels.take 32).length = 32 := by rw [List.length_take, count]; rfl
    have zoneAt : name.labels[32]? = some zone := by
      rw [whole, List.getElem?_append_right (by rw [front]), front]
      rfl
    have topAt : name.labels[33]? = some top := by
      rw [whole, List.getElem?_append_right (by rw [front]; decide), front]
      rfl
    have joined : name.labels.map foldLabel =
        (name.labels.take 32).map foldLabel ++ [foldLabel zone, foldLabel top] := by
      conv_lhs => rw [whole]
      rw [List.map_append]
      rfl
    rw [if_neg (not_not.mpr count), zoneAt, topAt, joined, ip6ArpaLabels]
    simp only [Option.bind_eq_bind, Option.bind_some]
    constructor
    · intro parsed
      split at parsed
      · rename_i hierarchy
        rw [Bool.and_eq_true, eqIgnoreAsciiCase_iff rfl, eqIgnoreAsciiCase_iff rfl] at hierarchy
        rw [(loop front).mp parsed, hierarchy.1, hierarchy.2]
      · cases parsed
    · intro same
      obtain ⟨spelled, hierarchy⟩ := List.append_inj same (by rw [List.length_map, front, nibbles])
      simp only [List.cons.injEq, and_true] at hierarchy
      rw [if_pos, loop front]
      · exact spelled
      · rw [Bool.and_eq_true, eqIgnoreAsciiCase_iff rfl, eqIgnoreAsciiCase_iff rfl]
        exact hierarchy
  · rw [if_pos count]
    refine ⟨fun parsed => (by cases parsed), fun same => absurd ?_ count⟩
    have length := congrArg List.length same
    rwa [List.length_map, ip6ArpaLabels, List.length_append, nibbles] at length

/-! ## Exactness -/

/-- The canonical `in-addr.arpa` name of an address. -/
def inAddrArpa (ip : Octets 4) : Name := ⟨code (inAddrArpaLabels ip)⟩

/-- The canonical `ip6.arpa` name of an address. -/
def ip6Arpa (ip : Octets 16) : Name := ⟨code (ip6ArpaLabels ip)⟩

/-- The parsers take a name for an address exactly when it is the canonical name of that
address, letter case aside. -/
structure ReadExactly (name : Name) : Prop where
  v4 : ∀ ip, parseInAddrArpa name = some ip ↔ name.canonical = inAddrArpa ip
  v6 : ∀ ip, parseIp6Arpa name = some ip ↔ name.canonical = ip6Arpa ip

/-- Six labels ending in `in-addr.arpa`, of which the first four spell octets, at least one
with a plus sign. -/
def PlusSigned (labels : List Bytes) : Prop :=
  ∃ (octets : List Bytes) (ip : Octets 4),
    labels.map foldLabel = octets ++ [inAddrLabel, arpaLabel] ∧
      List.Forall₂ SpellsOctet octets ip.1.reverse ∧ ∃ label ∈ octets, label.head? = some 0x2b

/-- Labels as the wire format allows them. -/
def LegalLabels (labels : List Bytes) : Prop :=
  ∀ label ∈ labels, 0 < label.length ∧ label.length ≤ 63

instance (labels : List Bytes) : Decidable (LegalLabels labels) :=
  inferInstanceAs (Decidable (∀ label ∈ labels, 0 < label.length ∧ label.length ≤ 63))

section Names

variable {labels : List Bytes}

theorem LegalLabels.sizedItems (legal : LegalLabels labels) : Sized labels := fun label member => by
  have bounds := legal label member
  omega

theorem LegalLabels.fold (legal : LegalLabels labels) : LegalLabels (labels.map foldLabel) := by
  intro label member
  obtain ⟨origin, found, rfl⟩ := List.mem_map.mp member
  rw [foldLabel, List.length_map]
  exact legal origin found

theorem legalLabels_inAddrArpa (ip : Octets 4) : LegalLabels (inAddrArpaLabels ip) := by
  have decimals : ∀ value : UInt8, 0 < (decimal value).length ∧ (decimal value).length ≤ 63 :=
    forall_octet (by decide +kernel)
  intro label member
  rcases List.mem_append.mp member with octet | zone
  · obtain ⟨value, -, rfl⟩ := List.mem_map.mp octet
    exact decimals value
  · have two : ∀ label ∈ [inAddrLabel, arpaLabel], 0 < label.length ∧ label.length ≤ 63 := by decide
    exact two label zone

theorem legalLabels_ip6Arpa (ip : Octets 16) : LegalLabels (ip6ArpaLabels ip) := by
  intro label member
  rcases List.mem_append.mp member with nibble | zone
  · obtain ⟨value, -, found⟩ := List.mem_flatMap.mp nibble
    simp only [nibbleLabels, List.mem_cons, List.not_mem_nil, or_false] at found
    rcases found with rfl | rfl <;> exact ⟨Nat.one_pos, by simp⟩
  · have two : ∀ label ∈ [ip6Label, arpaLabel], 0 < label.length ∧ label.length ≤ 63 := by decide
    exact two label zone

theorem labels_code (legal : LegalLabels labels) : Name.labels ⟨code labels⟩ = labels :=
  labelIter_code legal.sizedItems (length_lt_length_code labels)

/-- Folding a stored name folds its labels: a length octet is not a letter. -/
theorem canonical_code (legal : LegalLabels labels) :
    Name.canonical ⟨code labels⟩ = ⟨code (labels.map foldLabel)⟩ := by
  refine congrArg Name.mk ?_
  induction labels with
  | nil => rfl
  | cons label labels inductionHypothesis =>
      obtain ⟨bounds, others⟩ := List.forall_mem_cons.mp legal
      have length : asciiLower (UInt8.ofNat label.length) = UInt8.ofNat label.length := by
        refine (asciiLower_small _).2 (UInt8.lt_iff_toNat_lt.mpr ?_)
        rw [UInt8.toNat_ofNat']
        have small : (0x41 : UInt8).toNat = 65 := rfl
        omega
      rw [List.map_cons, code_cons, code_cons, List.map_append, inductionHypothesis others, item,
        List.map_cons, length, item, foldLabel, List.length_map]

theorem canonical_eq_iff (legal : LegalLabels labels) {others : List Bytes}
    (othersLegal : LegalLabels others) :
    Name.canonical ⟨code labels⟩ = ⟨code others⟩ ↔ labels.map foldLabel = others := by
  rw [canonical_code legal]
  constructor
  · exact fun same => code_injective legal.fold.sizedItems othersLegal.sizedItems (Name.mk.inj same)
  · exact fun same => by rw [same]

/-- Without a plus sign the octets of an accepted name are in canonical decimal. -/
theorem eq_map_decimal {octets : List Bytes} {values : List UInt8}
    (spelled : List.Forall₂ SpellsOctet octets values)
    (plain : ∀ label ∈ octets, label.head? ≠ some 0x2b) : octets = values.map decimal := by
  induction spelled with
  | nil => rfl
  | cons here later inductionHypothesis =>
      obtain ⟨noPlus, others⟩ := List.forall_mem_cons.mp plain
      rw [List.map_cons, ← inductionHypothesis others]
      rcases here with rfl | ⟨_, _, _, _, _, rfl | ⟨_, rfl⟩⟩
      · rfl
      · exact absurd rfl noPlus
      · exact absurd rfl noPlus

theorem forall₂_spellsOctet_decimal (values : List UInt8) :
    List.Forall₂ SpellsOctet (values.map decimal) values := by
  induction values with
  | nil => exact .nil
  | cons value values inductionHypothesis => exact .cons (.inl rfl) inductionHypothesis

theorem parseInAddrArpa_of_canonical (legal : LegalLabels labels) {ip : Octets 4}
    (canonical : labels.map foldLabel = inAddrArpaLabels ip) :
    parseInAddrArpa ⟨code labels⟩ = some ip := by
  refine parseInAddrArpa_eq_some_iff.mpr ⟨ip.1.reverse.map decimal, ?_, ?_⟩
  · rw [labels_code legal, canonical, inAddrArpaLabels]
  · exact forall₂_spellsOctet_decimal _

theorem readExactly_of_unsigned (legal : LegalLabels labels) (unsigned : ¬ PlusSigned labels) :
    ReadExactly ⟨code labels⟩ := by
  constructor
  · intro ip
    rw [inAddrArpa, canonical_eq_iff legal (legalLabels_inAddrArpa ip)]
    refine ⟨fun parsed => ?_, parseInAddrArpa_of_canonical legal⟩
    obtain ⟨octets, whole, spelled⟩ := parseInAddrArpa_eq_some_iff.mp parsed
    rw [labels_code legal] at whole
    have plain : ∀ label ∈ octets, label.head? ≠ some 0x2b := fun label member plus =>
      unsigned ⟨octets, ip, whole, spelled, label, member, plus⟩
    rw [whole, eq_map_decimal spelled plain, inAddrArpaLabels]
  · intro ip
    rw [ip6Arpa, canonical_eq_iff legal (legalLabels_ip6Arpa ip), parseIp6Arpa_eq_some_iff,
      labels_code legal]

theorem not_readExactly_of_signed (legal : LegalLabels labels) (signed : PlusSigned labels) :
    ¬ ReadExactly ⟨code labels⟩ := by
  have digits : ∀ value : UInt8, (decimal value).head? ≠ some 0x2b :=
    forall_octet (by decide +kernel)
  obtain ⟨octets, ip, whole, spelled, label, member, plus⟩ := signed
  intro read
  have parsed : parseInAddrArpa ⟨code labels⟩ = some ip :=
    parseInAddrArpa_eq_some_iff.mpr ⟨octets, by rw [labels_code legal]; exact whole, spelled⟩
  have canonical := (read.v4 ip).mp parsed
  rw [inAddrArpa, canonical_eq_iff legal (legalLabels_inAddrArpa ip), whole, inAddrArpaLabels]
    at canonical
  obtain rfl := List.append_cancel_right canonical
  obtain ⟨value, -, rfl⟩ := List.mem_map.mp member
  exact digits value plus

/-- The canonical names are recognised, and nothing else is, exactly when the name is not
one with a plus sign; and two names without a plus sign that are read as one address are
one name. -/
theorem readExactly_iff (labels : List Bytes) (legal : LegalLabels labels) :
    (ReadExactly ⟨code labels⟩ ↔ ¬ PlusSigned labels) ∧
      ∀ others, LegalLabels others → ¬ PlusSigned labels → ¬ PlusSigned others →
        (∀ ip, parseInAddrArpa ⟨code labels⟩ = some ip → parseInAddrArpa ⟨code others⟩ = some ip →
          Name.canonical ⟨code labels⟩ = Name.canonical ⟨code others⟩) ∧
        ∀ ip, parseIp6Arpa ⟨code labels⟩ = some ip → parseIp6Arpa ⟨code others⟩ = some ip →
          Name.canonical ⟨code labels⟩ = Name.canonical ⟨code others⟩ := by
  refine ⟨⟨fun read signed => not_readExactly_of_signed legal signed read,
    readExactly_of_unsigned legal⟩, fun others othersLegal unsigned othersUnsigned => ?_⟩
  have here := readExactly_of_unsigned legal unsigned
  have there := readExactly_of_unsigned othersLegal othersUnsigned
  constructor
  · exact fun ip first second => ((here.v4 ip).mp first).trans ((there.v4 ip).mp second).symm
  · exact fun ip first second => ((here.v6 ip).mp first).trans ((there.v6 ip).mp second).symm

end Names

/-- The labels of `1.0.0.127.in-addr.arpa`. -/
def loopbackLabels : List Bytes :=
  [[0x31], [0x30], [0x30], [0x31, 0x32, 0x37], inAddrLabel, arpaLabel]

/-- The labels of `+1.0.0.127.in-addr.arpa`. -/
def signedLabels : List Bytes :=
  [[0x2b, 0x31], [0x30], [0x30], [0x31, 0x32, 0x37], inAddrLabel, arpaLabel]

/-- `1.0.0.127.in-addr.arpa` is `127.0.0.1`. -/
theorem readExactly_loopback :
    ReadExactly ⟨code loopbackLabels⟩ ∧ inAddrArpa (ipv4 127 0 0 1) = ⟨code loopbackLabels⟩ := by
  refine ⟨(readExactly_iff loopbackLabels (by decide)).1.mpr ?_, by decide⟩
  rintro ⟨octets, ip, whole, -, label, member, plus⟩
  have same : octets = [[0x31], [0x30], [0x30], [0x31, 0x32, 0x37]] :=
    List.append_cancel_right (whole.symm.trans (by decide :
      loopbackLabels.map foldLabel = [[0x31], [0x30], [0x30], [0x31, 0x32, 0x37]] ++
        [inAddrLabel, arpaLabel]))
  subst same
  have plain : ∀ label ∈ [[0x31], [0x30], [0x30], [0x31, 0x32, 0x37]],
      label.head? ≠ some (0x2b : UInt8) := by decide
  exact plain label member plus

/-- `+1.0.0.127.in-addr.arpa` is read as `127.0.0.1` too. -/
theorem signed_name_read :
    parseInAddrArpa ⟨code signedLabels⟩ = some (ipv4 127 0 0 1) ∧
      Name.canonical ⟨code signedLabels⟩ ≠ inAddrArpa (ipv4 127 0 0 1) ∧
      ¬ ReadExactly ⟨code signedLabels⟩ := by
  have parsed : parseInAddrArpa ⟨code signedLabels⟩ = some (ipv4 127 0 0 1) := by
    refine parseInAddrArpa_eq_some_iff.mpr
      ⟨[[0x2b, 0x31], [0x30], [0x30], [0x31, 0x32, 0x37]], by decide, ?_⟩
    refine .cons (.inr ⟨0, by decide, 1, by decide, rfl, .inr ⟨rfl, rfl⟩⟩) ?_
    exact .cons (.inl rfl) (.cons (.inl rfl) (.cons (.inl rfl) .nil))
  have differs : Name.canonical ⟨code signedLabels⟩ ≠ inAddrArpa (ipv4 127 0 0 1) := by
    decide
  exact ⟨parsed, differs, fun read => differs ((read.v4 _).mp parsed)⟩

end RecurseX
