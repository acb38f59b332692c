import Mathlib.Data.List.TakeWhile
import RecurseX.Library.Located

/-!
# Reading addresses

The textual forms of IP addresses: four decimal numbers, or eight groups of hexadecimal
digits of which one run of zeros may be left out and the last two may be written as an
IPv4 address. A reader takes what it can from the front of a text and gives back the rest.
-/

namespace RecurseX.Library

/-- The value of a digit, of 36 digits; 36 for any other character. -/
def digitValue (c : Char) : Nat :=
  if '0'.toNat ≤ c.toNat ∧ c.toNat ≤ '9'.toNat then c.toNat - '0'.toNat
  else if 'a'.toNat ≤ c.toNat ∧ c.toNat ≤ 'z'.toNat then c.toNat - 'a'.toNat + 10
  else if 'A'.toNat ≤ c.toNat ∧ c.toNat ≤ 'Z'.toNat then c.toNat - 'A'.toNat + 10
  else 36

/-- Whether a character is a digit of a radix. -/
def isDigit (radix : Nat) (c : Char) : Bool := digitValue c < radix

/-- The value of a run of digits. -/
def digitsValue (radix : Nat) (digits : List Char) : Nat :=
  digits.foldl (fun value c => value * radix + digitValue c) 0

/-- An unsigned decimal number below a limit, with an optional plus sign. -/
def parseUnsigned (limit : Nat) (text : List Char) : Option Nat :=
  let digits := if text.head? = some '+' then text.tail else text
  if digits ≠ [] ∧ digits.all (isDigit 10) ∧ digitsValue 10 digits < limit then
    some (digitsValue 10 digits)
  else none

/-- A character at the front of a text. -/
def readGivenChar (given : Char) : List Char → Option (List Char)
  | [] => none
  | c :: rest => if c = given then some rest else none

/-- A number of at most `maxDigits` digits below a limit. -/
def readNumber (radix maxDigits limit : Nat) (allowZeroPrefix : Bool) (text : List Char) :
    Option (Nat × List Char) :=
  let digits := text.takeWhile (isDigit radix)
  if digits.length = 0 ∨ maxDigits < digits.length then none
  else if ¬ allowZeroPrefix ∧ digits.head? = some '0' ∧ 1 < digits.length then none
  else if digitsValue radix digits < limit then
    some (digitsValue radix digits, text.dropWhile (isDigit radix))
  else none

/-- A separator, except at the start of a list, and what follows it. -/
def readSeparator {α : Type} (separator : Char) (atStart : Bool)
    (inner : List Char → Option (α × List Char)) (text : List Char) : Option (α × List Char) :=
  if atStart then inner text else (readGivenChar separator text).bind inner

/-- Four decimal numbers of one octet each. -/
def readIpv4Addr (text : List Char) : Option (Octets 4 × List Char) := do
  let number := readNumber 10 3 256 false
  let (a, text) ← readSeparator '.' true number text
  let (b, text) ← readSeparator '.' false number text
  let (c, text) ← readSeparator '.' false number text
  let (d, text) ← readSeparator '.' false number text
  some (⟨[UInt8.ofNat a, UInt8.ofNat b, UInt8.ofNat c, UInt8.ofNat d], rfl⟩, text)

/-- The two octets of a group. -/
def group (value : Nat) : Octets 2 := ⟨[UInt8.ofNat (value / 256), UInt8.ofNat value], rfl⟩

/-- The two groups of an IPv4 address. -/
def ipv4Groups (ip : Octets 4) : List (Octets 2) :=
  [⟨ip.val.take 2, by simp [ip.property]⟩, ⟨ip.val.drop 2, by simp [ip.property]⟩]

/-- Up to `left` groups, and whether the last two were written as an IPv4 address. -/
def readGroups : (left : Nat) → (atStart : Bool) → List Char →
    List (Octets 2) × Bool × List Char
  | 0, _, text => ([], false, text)
  | left + 1, atStart, text =>
      match if 0 < left then readSeparator ':' atStart readIpv4Addr text else none with
      | some (ip, rest) => (ipv4Groups ip, true, rest)
      | none =>
          match readSeparator ':' atStart (readNumber 16 4 65536 true) text with
          | none => ([], false, text)
          | some (value, rest) =>
              let (groups, ipv4, rest) := readGroups left false rest
              (group value :: groups, ipv4, rest)

theorem readGroups_length_le (left : Nat) (atStart : Bool) (text : List Char) :
    (readGroups left atStart text).1.length ≤ left := by
  induction left generalizing atStart text with
  | zero => exact le_rfl
  | succ left inductionHypothesis =>
      rw [readGroups]
      split
      · rename_i found
        split_ifs at found with several
        exact Nat.succ_le_succ several
      · split
        · exact Nat.zero_le _
        · exact Nat.succ_le_succ (inductionHypothesis false _)

/-- The octets of eight groups. -/
def octetsOfGroups (groups : List (Octets 2)) (eight : groups.length = 8) : Octets 16 :=
  ⟨groups.flatMap Subtype.val, by
    rw [List.length_flatMap, List.map_congr_left fun group _ => group.property,
      List.map_const', eight]
    rfl⟩

/-- Eight groups, of which one run of zeros may be left out. -/
def readIpv6Addr (text : List Char) : Option (Octets 16 × List Char) :=
  let head := readGroups 8 true text
  if whole : head.1.length = 8 then some (octetsOfGroups head.1 whole, head.2.2)
  -- An IPv4 part is not allowed before `::`.
  else if head.2.1 then none
  else do
    let rest ← readGivenChar ':' head.2.2
    let rest ← readGivenChar ':' rest
    let limit := 8 - (head.1.length + 1)
    let tail := readGroups limit true rest
    let zeros := List.replicate (8 - head.1.length - tail.1.length) (group 0)
    some (octetsOfGroups (head.1 ++ zeros ++ tail.1) (by
      have headFits : head.1.length ≤ 8 := readGroups_length_le 8 true text
      have tailFits : tail.1.length ≤ 8 - (head.1.length + 1) := readGroups_length_le limit true rest
      simp only [List.length_append, List.length_replicate, zeros]
      omega), tail.2.2)

/-- The address that a whole text spells. -/
def parseAddress (text : List Char) : Option (Octets 4 ⊕ Octets 16) :=
  match readIpv4Addr text with
  | some (ip, rest) => if rest = [] then some (.inl ip) else none
  | none =>
      match readIpv6Addr text with
      | some (ip, rest) => if rest = [] then some (.inr ip) else none
      | none => none

/-- The characters addresses are written with. -/
def isAddressChar (c : Char) : Bool := isDigit 16 c || c == ':' || c == '.'

/-- What was read off the front of a text is written with the characters of addresses. -/
def Reads (text rest : List Char) : Prop :=
  ∃ taken, text = taken ++ rest ∧ ∀ c ∈ taken, isAddressChar c = true

/-- A reader of address characters. -/
def Reader {α : Type} (read : List Char → Option (α × List Char)) : Prop :=
  ∀ {text result}, read text = some result → Reads text result.2

variable {text rest later : List Char}

theorem Reads.refl (text : List Char) : Reads text text := ⟨[], rfl, by simp⟩

theorem Reads.trans (first : Reads text rest) (second : Reads rest later) : Reads text later := by
  obtain ⟨taken, rfl, written⟩ := first
  obtain ⟨takenToo, rfl, writtenToo⟩ := second
  refine ⟨taken ++ takenToo, (List.append_assoc ..).symm, fun c inside => ?_⟩
  exact (List.mem_append.mp inside).elim (written c) (writtenToo c)

/-- The digits of a radix are digits of every greater one. -/
theorem isDigit_mono {radix larger : Nat} (le : radix ≤ larger) {c : Char}
    (digit : isDigit radix c = true) : isDigit larger c = true := by
  rw [isDigit, decide_eq_true_eq] at digit ⊢
  exact digit.trans_le le

/-- Digits stand between zero and the last letter in the ASCII table. -/
theorem toNat_of_isDigit {radix : Nat} (small : radix ≤ 36) {c : Char}
    (digit : isDigit radix c = true) : 48 ≤ c.toNat ∧ c.toNat ≤ 122 := by
  have zero : '0'.toNat = 48 := rfl
  have nine : '9'.toNat = 57 := rfl
  have lower : 'a'.toNat = 97 ∧ 'z'.toNat = 122 := ⟨rfl, rfl⟩
  have upper : 'A'.toNat = 65 ∧ 'Z'.toNat = 90 := ⟨rfl, rfl⟩
  rw [isDigit, decide_eq_true_eq, digitValue] at digit
  split_ifs at digit <;> omega

theorem readGivenChar_reads {given : Char} (written : isAddressChar given = true)
    (found : readGivenChar given text = some rest) : Reads text rest := by
  cases text with
  | nil => cases found
  | cons c tail =>
      rw [readGivenChar] at found
      split_ifs at found with same
      obtain rfl := Option.some.inj found
      exact ⟨[c], rfl, by simpa [same] using written⟩

theorem reader_readNumber {radix maxDigits limit : Nat} (small : radix ≤ 16)
    (allowZeroPrefix : Bool) : Reader (readNumber radix maxDigits limit allowZeroPrefix) := by
  intro text result found
  simp only [readNumber] at found
  split_ifs at found
  obtain rfl := Option.some.inj found
  refine ⟨_, List.takeWhile_append_dropWhile.symm, fun c inside => ?_⟩
  have digit := isDigit_mono small (List.mem_takeWhile_imp inside)
  simp [isAddressChar, digit]

theorem reader_readSeparator {α : Type} {separator : Char} {atStart : Bool}
    {inner : List Char → Option (α × List Char)} (written : isAddressChar separator = true)
    (reader : Reader inner) : Reader (readSeparator separator atStart inner) := by
  intro text result found
  rw [readSeparator] at found
  split_ifs at found
  · exact reader found
  · obtain ⟨rest, separated, read⟩ := Option.bind_eq_some_iff.mp found
    exact (readGivenChar_reads written separated).trans (reader read)

theorem reader_readIpv4Addr : Reader readIpv4Addr := by
  intro text result found
  have number (atStart : Bool) : Reader (readSeparator '.' atStart (readNumber 10 3 256 false)) :=
    reader_readSeparator (by decide) (reader_readNumber (by decide) false)
  simp only [readIpv4Addr] at found
  obtain ⟨⟨a, afterA⟩, readA, found⟩ := Option.bind_eq_some_iff.mp found
  obtain ⟨⟨b, afterB⟩, readB, found⟩ := Option.bind_eq_some_iff.mp found
  obtain ⟨⟨c, afterC⟩, readC, found⟩ := Option.bind_eq_some_iff.mp found
  obtain ⟨⟨d, afterD⟩, readD, found⟩ := Option.bind_eq_some_iff.mp found
  obtain rfl := Option.some.inj found
  exact (((number true readA).trans (number false readB)).trans (number false readC)).trans
    (number false readD)

theorem readGroups_reads (left : Nat) (atStart : Bool) (text : List Char) :
    Reads text (readGroups left atStart text).2.2 := by
  induction left generalizing atStart text with
  | zero => exact .refl text
  | succ left inductionHypothesis =>
      rw [readGroups]
      split
      · rename_i found
        split_ifs at found
        exact reader_readSeparator (by decide) reader_readIpv4Addr found
      · split
        · exact .refl text
        · rename_i found
          exact (reader_readSeparator (by decide) (reader_readNumber (by decide) true) found).trans
            (inductionHypothesis false _)

theorem reader_readIpv6Addr : Reader readIpv6Addr := by
  intro text result found
  have head := readGroups_reads 8 true text
  rw [readIpv6Addr] at found
  dsimp only at found
  split_ifs at found
  · obtain rfl := Option.some.inj found
    exact head
  · obtain ⟨first, firstRead, found⟩ := Option.bind_eq_some_iff.mp found
    obtain ⟨second, secondRead, found⟩ := Option.bind_eq_some_iff.mp found
    obtain rfl := Option.some.inj found
    exact ((head.trans (readGivenChar_reads (by decide) firstRead)).trans
      (readGivenChar_reads (by decide) secondRead)).trans (readGroups_reads _ true second)

/-- An address is written with the characters of addresses. -/
theorem isAddressChar_of_parseAddress {address : Octets 4 ⊕ Octets 16}
    (parsed : parseAddress text = some address) : ∀ c ∈ text, isAddressChar c = true := by
  have whole {text : List Char} (reads : Reads text []) : ∀ c ∈ text, isAddressChar c = true := by
    obtain ⟨taken, rfl, written⟩ := reads
    rwa [List.append_nil]
  rw [parseAddress] at parsed
  split at parsed
  · rename_i found
    split_ifs at parsed with complete
    exact whole (complete ▸ reader_readIpv4Addr found)
  · split at parsed
    · rename_i found
      split_ifs at parsed with complete
      exact whole (complete ▸ reader_readIpv6Addr found)
    · cases parsed

/-- A number is written with digits and a plus sign. -/
theorem mem_parseUnsigned {limit value : Nat} (parsed : parseUnsigned limit text = some value) :
    ∀ c ∈ text, c = '+' ∨ isDigit 10 c = true := by
  simp only [parseUnsigned] at parsed
  split_ifs at parsed with plus written written
  · intro c inside
    cases text with
    | nil => cases inside
    | cons first rest =>
        obtain rfl | behind := List.mem_cons.mp inside
        · exact .inl (Option.some.inj plus)
        · exact .inr (List.all_eq_true.mp written.2.1 c behind)
  · exact fun c inside => .inr (List.all_eq_true.mp written.2.1 c inside)

end RecurseX.Library
