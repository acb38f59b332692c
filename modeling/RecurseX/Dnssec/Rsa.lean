import RecurseX.Dnssec.Basic
import RecurseX.Dnssec.ModPow

/-!
# RSA signature verification

A DNSKEY's public key is an exponent and a modulus; a signature is raised to the
exponent and the result, padded to the modulus length, is walked as an encoded
message. The encoding and the key format are also stated on their own, so that what
the verifier accepts can be compared with what it should.
-/

namespace RecurseX.Dnssec

open RecurseX.Library

/-- The ASN.1 DigestInfo prefix for SHA-256. -/
def digestInfoSha256 : Bytes :=
  [0x30, 0x31, 0x30, 0x0d, 0x06, 0x09, 0x60, 0x86, 0x48, 0x01, 0x65, 0x03, 0x04, 0x02, 0x01, 0x05,
    0x00, 0x04, 0x20]

/-- The exponent's length and the offset where it begins: one octet, or the two after a zero. -/
def exponentField : (publicKey : Bytes) → Option (Nat × Nat)
  | [] => none
  | n :: rest =>
      if n = 0 then
        match rest with
        | hi :: lo :: _ => some (hi.toNat * 256 + lo.toNat, 3)
        | _ => none
      else some (n.toNat, 1)

/-- The modulus and the exponent of a public key, or `none` where the encoding does not hold
together. -/
def parseDnskeyRsa (publicKey : Bytes) : Option (Bytes × Bytes) :=
  match exponentField publicKey with
  | none => none
  | some (expLen, expOff) =>
      if expLen = 0 then none
      else
        let expEnd := expOff + expLen
        if expEnd + 1 > publicKey.length then none
        else
          let exponent := (publicKey.take expEnd).drop expOff
          let modulus := publicKey.drop expEnd
          if modulus.length < 3 then none else some (modulus, exponent)

/-- Octets of a modulus without leading zeros, at least one. -/
def trimLeadingZeros (bytes : Bytes) : Bytes := dropLeadingZeros bytes

/-- Checks the encoded message against the expected digest: zero and one, the padding, zero,
and the digest information. -/
def verifyEm (emBe : Bytes) (modulusLen : Nat) (digest : Octets 32) : Bool :=
  if emBe.length > modulusLen then false
  else
    let em := List.replicate (modulusLen - emBe.length) 0 ++ emBe
    if em.length < 11 ∨ em[0]? ≠ some 0 ∨ em[1]? ≠ some 1 then false
    else
      -- The walk over the padding stops at the first octet that is not `0xff`.
      let i := 2 + ((em.drop 2).takeWhile (· == 0xff)).length
      if i < 2 + 8 ∨ em[i]? ≠ some 0 then false
      else
        let body := em.drop (i + 1)
        if body.length ≠ digestInfoSha256.length + 32 then false
        else
          body.take digestInfoSha256.length == digestInfoSha256
            && body.drop digestInfoSha256.length == digest.val

/-- Whether the signature verifies under the public key. -/
def verifyPkcs1v15Sha256 (publicKey : Bytes) (digest : Octets 32) (signature : Bytes) : Bool :=
  match parseDnskeyRsa publicKey with
  | none => false
  | some (modulus, exponent) =>
      let trimmed := trimLeadingZeros modulus
      verifyEm (modPow signature exponent trimmed) trimmed.length digest

/-! ## What a signature is -/

/-- A public key in its format: the exponent's length in one octet or in two after a zero, the
exponent and the modulus. -/
inductive Rfc3110 : (publicKey exponent modulus : Bytes) → Prop
  | short (count : UInt8) (exponent modulus : Bytes) (nonzero : count ≠ 0)
      (length : exponent.length = count.toNat) :
      Rfc3110 (count :: exponent ++ modulus) exponent modulus
  | long (high low : UInt8) (exponent modulus : Bytes) (nonempty : exponent ≠ [])
      (length : exponent.length = high.toNat * 256 + low.toNat) :
      Rfc3110 (0 :: high :: low :: exponent ++ modulus) exponent modulus

/-- How many octets a number takes. -/
def octetLength (value : Nat) : Nat := (minimalBytes value).length

/-- The encoded message of a length, where that leaves at least eight octets of padding. -/
def emsaEncode (digest : Octets 32) (length : Nat) : Option Bytes :=
  let info := digestInfoSha256 ++ digest.val
  if length < info.length + 11 then none
  else some (0 :: 1 :: List.replicate (length - info.length - 3) 0xff ++ 0 :: info)

/-- The number's power is the encoded message of the modulus length. -/
def Encodes (digest : Octets 32) (exponent modulus : Bytes) (number : Nat) : Prop :=
  ∃ em, emsaEncode digest (octetLength (natOfBytes modulus)) = some em
    ∧ number ^ natOfBytes exponent % natOfBytes modulus = natOfBytes em

/-- The octets are in form for the modulus: as many as it takes, for a number below it. -/
def InForm (modulus signature : Bytes) : Prop :=
  signature.length = octetLength (natOfBytes modulus)
    ∧ natOfBytes signature < natOfBytes modulus

/-- The octets are a signature of the digest under the public key. -/
def Signed (publicKey : Bytes) (digest : Octets 32) (signature : Bytes) : Prop :=
  ∃ exponent modulus, Rfc3110 publicKey exponent modulus ∧ InForm modulus signature
    ∧ Encodes digest exponent modulus (natOfBytes signature)

/-! ## Keys -/

/-- Behind the octets that give the exponent's length stand the exponent and the modulus. -/
theorem parseDnskeyRsa_fields (head body : Bytes) {exponent modulus : Bytes} {expLen : Nat}
    (field : exponentField (head ++ body) = some (expLen, head.length)) :
    parseDnskeyRsa (head ++ body) = some (modulus, exponent)
      ↔ expLen ≠ 0 ∧ exponent.length = expLen ∧ body = exponent ++ modulus
        ∧ 3 ≤ modulus.length := by
  unfold parseDnskeyRsa
  rw [field]
  dsimp only
  rw [List.drop_take, List.drop_left, List.drop_length_add_append, Nat.add_sub_cancel_left,
    List.length_append]
  constructor
  · intro parsed
    split_ifs at parsed with none beyond few
    obtain ⟨rfl, rfl⟩ := Prod.mk.inj (Option.some.inj parsed)
    refine ⟨none, ?_, (List.take_append_drop _ _).symm, Nat.le_of_not_lt few⟩
    rw [List.length_take]
    omega
  · rintro ⟨positive, rfl, rfl, enough⟩
    rw [if_neg positive, List.length_append, if_neg (by omega), List.drop_left, List.take_left,
      if_neg (by omega)]

/-- Parsing reads the format, and asks for three octets of modulus. -/
theorem parseDnskeyRsa_iff {publicKey exponent modulus : Bytes} :
    parseDnskeyRsa publicKey = some (modulus, exponent)
      ↔ Rfc3110 publicKey exponent modulus ∧ 3 ≤ modulus.length := by
  constructor
  · intro parsed
    cases publicKey with
    | nil => cases parsed
    | cons n rest =>
        by_cases zero : n = 0
        · subst zero
          rcases rest with _ | ⟨hi, _ | ⟨lo, rest⟩⟩
          · cases parsed
          · cases parsed
          · obtain ⟨positive, length, rfl, enough⟩ :=
              (parseDnskeyRsa_fields [0, hi, lo] rest rfl).mp parsed
            refine ⟨.long hi lo exponent modulus ?_ length, enough⟩
            rw [← List.length_pos_iff, length]
            exact Nat.pos_of_ne_zero positive
        · obtain ⟨-, length, rfl, enough⟩ :=
            (parseDnskeyRsa_fields [n] rest (if_neg zero)).mp parsed
          exact ⟨.short n exponent modulus zero length, enough⟩
  · rintro ⟨key, enough⟩
    cases key with
    | short count exponent modulus nonzero length =>
        refine (parseDnskeyRsa_fields [count] (exponent ++ modulus)
          (if_neg nonzero)).mpr ⟨?_, length, rfl, enough⟩
        exact fun zero => nonzero (UInt8.toNat_inj.mp zero)
    | long high low exponent modulus nonempty length =>
        refine (parseDnskeyRsa_fields [0, high, low] (exponent ++ modulus)
          rfl).mpr ⟨?_, length, rfl, enough⟩
        rw [← length]
        exact Nat.ne_of_gt (List.length_pos_iff.mpr nonempty)

/-- A key's exponent is not empty. -/
theorem Rfc3110.exponent_ne_nil {publicKey exponent modulus : Bytes}
    (key : Rfc3110 publicKey exponent modulus) : exponent ≠ [] := by
  cases key with
  | short count exponent modulus nonzero length =>
      rintro rfl
      exact nonzero (UInt8.toNat_inj.mp length.symm)
  | long high low exponent modulus nonempty length => exact nonempty

/-- A key has one reading. -/
theorem Rfc3110.unique {publicKey exponent modulus otherExponent otherModulus : Bytes}
    (key : Rfc3110 publicKey exponent modulus)
    (other : Rfc3110 publicKey otherExponent otherModulus) :
    exponent = otherExponent ∧ modulus = otherModulus := by
  cases key with
  | short count exponent modulus nonzero length =>
      generalize written : count :: exponent ++ modulus = publicKey at other
      cases other with
      | short otherCount otherExponent otherModulus _ otherLength =>
          obtain ⟨rfl, same⟩ := List.cons_eq_cons.mp written
          exact List.append_inj same (length.trans otherLength.symm)
      | long high low otherExponent otherModulus _ _ =>
          exact absurd (List.cons_eq_cons.mp written).1 nonzero
  | long high low exponent modulus nonempty length =>
      generalize written : 0 :: high :: low :: exponent ++ modulus = publicKey at other
      cases other with
      | short otherCount otherExponent otherModulus nonzero _ =>
          exact absurd (List.cons_eq_cons.mp written).1.symm nonzero
      | long otherHigh otherLow otherExponent otherModulus _ otherLength =>
          obtain ⟨-, behind⟩ := List.cons_eq_cons.mp written
          obtain ⟨rfl, tail⟩ := List.cons_eq_cons.mp behind
          obtain ⟨rfl, same⟩ := List.cons_eq_cons.mp tail
          exact List.append_inj same (length.trans otherLength.symm)

/-! ## Encoded messages -/

/-- A number is below the power its octets reach. -/
theorem lt_pow_octetLength (value : Nat) : value < 256 ^ octetLength value := by
  have bound := natOfBytes_lt (minimalBytes value)
  rwa [natOfBytes_minimalBytes] at bound

theorem length_emsaEncode {digest : Octets 32} {length : Nat} {em : Bytes}
    (encoded : emsaEncode digest length = some em) : em.length = length ∧ 62 ≤ length := by
  unfold emsaEncode at encoded
  dsimp only at encoded
  split_ifs at encoded with small
  have information : (digestInfoSha256 ++ digest.val).length = 51 := by
    rw [List.length_append, digest.property]
    rfl
  rw [information] at small encoded
  obtain rfl := Option.some.inj encoded
  refine ⟨?_, by omega⟩
  simp only [List.length_cons, List.length_append, List.length_replicate, information]
  omega

/-- Where the walk over the padding stops, at a zero, and what follows it. -/
theorem padding_walk {rest body : Bytes} {count : Nat} :
    rest = List.replicate count 0xff ++ 0 :: body
      ↔ (rest.takeWhile (· == 0xff)).length = count ∧ rest[count]? = some 0
        ∧ rest.drop (count + 1) = body := by
  induction rest generalizing count with
  | nil => simp
  | cons octet rest inductionHypothesis =>
      by_cases padding : octet = 0xff
      · subst padding
        rw [List.takeWhile_cons_of_pos (by rfl)]
        cases count with
        | zero => simp
        | succ count =>
            rw [List.replicate_succ, List.cons_append, List.cons_inj_right, inductionHypothesis,
              List.length_cons, Nat.succ_inj, List.getElem?_cons_succ, List.drop_succ_cons]
      · rw [List.takeWhile_cons_of_neg (by simpa using padding)]
        cases count with
        | zero => simp
        | succ count =>
            rw [List.replicate_succ, List.cons_append, List.cons_eq_cons]
            simp [padding]

/-- An encoded message, by its padding. -/
theorem emsaEncode_eq_some_iff {em : Bytes} {digest : Octets 32} :
    emsaEncode digest em.length = some em
      ↔ ∃ count, 8 ≤ count
        ∧ em = 0 :: 1 :: (List.replicate count 0xff ++ 0 :: (digestInfoSha256 ++ digest.val)) := by
  have information : (digestInfoSha256 ++ digest.val).length = 51 := by
    rw [List.length_append, digest.property]
    rfl
  unfold emsaEncode
  dsimp only
  rw [information]
  constructor
  · intro encoded
    split_ifs at encoded with small
    exact ⟨em.length - 51 - 3, by omega, (Option.some.inj encoded).symm⟩
  · rintro ⟨count, enough, shape⟩
    have length : em.length = count + 54 := by
      rw [shape]
      simp only [List.length_cons, List.length_append, List.length_replicate, information]
    have padded : em.length - 51 - 3 = count := by omega
    rw [if_neg (by omega), padded, shape]
    rfl

/-- The digest information is compared in its two halves. -/
theorem body_iff {body : Bytes} {digest : Octets 32} :
    body.length = digestInfoSha256.length + 32
        ∧ (body.take digestInfoSha256.length == digestInfoSha256
          && body.drop digestInfoSha256.length == digest.val) = true
      ↔ body = digestInfoSha256 ++ digest.val := by
  rw [Bool.and_eq_true, beq_iff_eq, beq_iff_eq]
  constructor
  · rintro ⟨-, prefixed, rest⟩
    rw [← List.take_append_drop digestInfoSha256.length body, prefixed, rest]
  · rintro rfl
    refine ⟨?_, List.take_left, List.drop_left⟩
    rw [List.length_append, digest.property]

/-- The walk accepts exactly the encoded message, padded to the modulus length. -/
theorem verifyEm_iff {emBe : Bytes} {modulusLen : Nat} {digest : Octets 32} :
    verifyEm emBe modulusLen digest = true
      ↔ emBe.length ≤ modulusLen
        ∧ emsaEncode digest modulusLen
          = some (List.replicate (modulusLen - emBe.length) 0 ++ emBe) := by
  unfold verifyEm
  dsimp only
  rcases Nat.lt_or_ge modulusLen emBe.length with wide | fits
  · rw [if_pos wide]
    exact iff_of_false Bool.false_ne_true fun fits => Nat.not_lt.mpr fits.1 wide
  · obtain ⟨em, padded⟩ : ∃ em, em = List.replicate (modulusLen - emBe.length) 0 ++ emBe :=
      ⟨_, rfl⟩
    have length : modulusLen = em.length := by
      rw [padded, List.length_append, List.length_replicate]
      omega
    rw [if_neg (Nat.not_lt.mpr fits), ← padded, and_iff_right fits, length,
      emsaEncode_eq_some_iff]
    -- An encoded message has its two leading octets, and the walk begins behind them.
    rcases em with _ | ⟨first, _ | ⟨second, rest⟩⟩
    · simp
    · simp
    · have index : ∀ count, (first :: second :: rest)[2 + count]? = rest[count]? := by
        intro count
        rw [Nat.add_comm, List.getElem?_cons_succ, List.getElem?_cons_succ]
      have beyond : ∀ count, (first :: second :: rest).drop (2 + count + 1)
          = rest.drop (count + 1) := by
        intro count
        have shift : 2 + count + 1 = count + 1 + 1 + 1 := by omega
        rw [shift, List.drop_succ_cons, List.drop_succ_cons]
      rw [index, beyond, List.drop_succ_cons, List.drop_succ_cons, List.drop_zero]
      constructor
      · intro walked
        split_ifs at walked with start padding body
        simp only [List.getElem?_cons_zero, List.getElem?_cons_succ, not_or, not_not] at start
        simp only [not_or, not_not] at padding
        refine ⟨(rest.takeWhile (· == 0xff)).length, by omega, ?_⟩
        rw [Option.some.inj start.2.1, Option.some.inj start.2.2,
          ← padding_walk.mpr ⟨rfl, padding.2, body_iff.mp ⟨not_not.mp body, walked⟩⟩]
      · rintro ⟨count, enough, shape⟩
        obtain ⟨rfl, tail⟩ := List.cons_eq_cons.mp shape
        obtain ⟨rfl, walk⟩ := List.cons_eq_cons.mp tail
        have long : 11 ≤ (0 :: 1 :: rest : Bytes).length := by
          rw [walk]
          simp only [List.length_cons, List.length_append, List.length_replicate]
          omega
        obtain ⟨stop, zero, information⟩ := padding_walk.mp walk
        obtain ⟨whole, halves⟩ := body_iff.mpr information
        rw [stop, if_neg, if_neg, if_neg (not_not.mpr whole)]
        · exact halves
        · rw [not_or, not_not]
          exact ⟨by omega, zero⟩
        · rw [not_or, not_or, not_not, not_not]
          exact ⟨Nat.not_lt.mpr long, rfl, rfl⟩

/-! ## Verification -/

theorem trimLeadingZeros_eq (bytes : Bytes) :
    trimLeadingZeros bytes = minimalBytes (natOfBytes bytes) := dropLeadingZeros_eq bytes

/-- A result is the encoded message's octets when it denotes the message's number. -/
theorem verifyEm_minimalBytes {value modulusLen : Nat} {digest : Octets 32} :
    verifyEm (minimalBytes value) modulusLen digest = true
      ↔ ∃ em, emsaEncode digest modulusLen = some em ∧ value = natOfBytes em := by
  rw [verifyEm_iff]
  constructor
  · rintro ⟨fits, encoded⟩
    refine ⟨_, encoded, ?_⟩
    rw [natOfBytes_replicate_append, natOfBytes_minimalBytes]
  · rintro ⟨em, encoded, rfl⟩
    obtain ⟨length, long⟩ := length_emsaEncode encoded
    have nonempty : em ≠ [] := List.ne_nil_of_length_pos (by omega)
    obtain ⟨shorter, padded⟩ := replicate_append_minimalBytes nonempty
    rw [length] at shorter padded
    rw [padded]
    exact ⟨shorter, encoded⟩

/-- A modulus that has an encoded message is not zero, and is not short. -/
theorem Encodes.modulus {digest : Octets 32} {exponent modulus : Bytes} {number : Nat}
    (encodes : Encodes digest exponent modulus number) :
    natOfBytes modulus ≠ 0 ∧ 3 ≤ modulus.length := by
  obtain ⟨em, encoded, -⟩ := encodes
  have long := (length_emsaEncode encoded).2
  have nonzero : natOfBytes modulus ≠ 0 := by
    intro zero
    rw [zero] at long
    exact absurd long (by decide)
  have nonempty : modulus ≠ [] := by
    rintro rfl
    exact nonzero rfl
  have shorter := (replicate_append_minimalBytes nonempty).1
  refine ⟨nonzero, ?_⟩
  unfold octetLength at long
  omega

/-- Raising and walking decides whether the power is the encoded message. -/
theorem verifyEm_modPow {digest : Octets 32} {exponent modulus : Bytes} (signature : Bytes)
    (nonempty : exponent ≠ []) :
    verifyEm (modPow signature exponent (trimLeadingZeros modulus))
        (trimLeadingZeros modulus).length digest = true
      ↔ Encodes digest exponent modulus (natOfBytes signature) := by
  by_cases zero : natOfBytes modulus = 0
  · refine iff_of_false (fun walked => ?_) fun encodes => encodes.modulus.1 zero
    obtain ⟨fits, encoded⟩ := verifyEm_iff.mp walked
    have long := (length_emsaEncode encoded).2
    rw [trimLeadingZeros_eq, zero] at long
    exact absurd long (by decide)
  · have modulusValue : natOfBytes (trimLeadingZeros modulus) = natOfBytes modulus := by
      rw [trimLeadingZeros_eq, natOfBytes_minimalBytes]
    rw [modPow_eq nonempty (by rwa [modulusValue]), verifyEm_minimalBytes, modulusValue,
      trimLeadingZeros_eq]
    rfl

/-- What the verifier accepts: the signature's power is the encoded message. -/
theorem verifyPkcs1v15Sha256_iff {publicKey signature : Bytes} {digest : Octets 32} :
    verifyPkcs1v15Sha256 publicKey digest signature = true
      ↔ ∃ exponent modulus, Rfc3110 publicKey exponent modulus
        ∧ Encodes digest exponent modulus (natOfBytes signature) := by
  unfold verifyPkcs1v15Sha256
  constructor
  · intro verified
    cases parsed : parseDnskeyRsa publicKey with
    | none =>
        rw [parsed] at verified
        cases verified
    | some fields =>
        obtain ⟨modulus, exponent⟩ := fields
        rw [parsed] at verified
        have key := (parseDnskeyRsa_iff.mp parsed).1
        exact ⟨exponent, modulus, key, (verifyEm_modPow signature key.exponent_ne_nil).mp verified⟩
  · rintro ⟨exponent, modulus, key, encodes⟩
    rw [parseDnskeyRsa_iff.mpr ⟨key, encodes.modulus.2⟩]
    exact (verifyEm_modPow signature key.exponent_ne_nil).mpr encodes

/-- The octets in form that denote the signature's number modulo the key's. -/
def reduce (modulus signature : Bytes) : Bytes :=
  bytesOfNat (octetLength (natOfBytes modulus)) (natOfBytes signature % natOfBytes modulus)

/-- Reduced octets are in form, and are a signature when the octets' power is the message. -/
theorem signed_reduce_iff {publicKey exponent modulus : Bytes} {digest : Octets 32}
    (signature : Bytes) (key : Rfc3110 publicKey exponent modulus) :
    Signed publicKey digest (reduce modulus signature)
      ↔ Encodes digest exponent modulus (natOfBytes signature) := by
  have below := lt_pow_octetLength (natOfBytes modulus)
  have power : ∀ number, (number % natOfBytes modulus) ^ natOfBytes exponent % natOfBytes modulus
      = number ^ natOfBytes exponent % natOfBytes modulus := fun number =>
    (Nat.pow_mod number _ _).symm
  constructor
  · rintro ⟨otherExponent, otherModulus, other, ⟨-, small⟩, encodes⟩
    obtain ⟨rfl, rfl⟩ := key.unique other
    obtain ⟨em, encoded, raised⟩ := encodes
    have residue := Nat.mod_lt (natOfBytes signature) (Nat.zero_lt_of_lt small)
    rw [reduce, natOfBytes_bytesOfNat, Nat.mod_eq_of_lt (residue.trans below), power] at raised
    exact ⟨em, encoded, raised⟩
  · intro encodes
    have residue := Nat.mod_lt (natOfBytes signature) (Nat.pos_of_ne_zero encodes.modulus.1)
    have value : natOfBytes (reduce modulus signature)
        = natOfBytes signature % natOfBytes modulus := by
      rw [reduce, natOfBytes_bytesOfNat, Nat.mod_eq_of_lt (residue.trans below)]
    obtain ⟨em, encoded, raised⟩ := encodes
    refine ⟨exponent, modulus, key, ⟨length_bytesOfNat _ _, by rwa [value]⟩, em, encoded, ?_⟩
    rw [value, power, raised]

/-- A signature verifies. -/
theorem Signed.verifies {publicKey signature : Bytes} {digest : Octets 32}
    (signed : Signed publicKey digest signature) :
    verifyPkcs1v15Sha256 publicKey digest signature = true := by
  obtain ⟨exponent, modulus, key, -, encodes⟩ := signed
  exact verifyPkcs1v15Sha256_iff.mpr ⟨exponent, modulus, key, encodes⟩

/-- The verifier accepts exactly the signatures, except that it also accepts octets that are not
in form when they are a signature once they are brought into form. -/
theorem verifyPkcs1v15Sha256_conforms_iff (publicKey : Bytes) (digest : Octets 32)
    (signature : Bytes) :
    (verifyPkcs1v15Sha256 publicKey digest signature = true ↔ Signed publicKey digest signature)
      ↔ ∀ exponent modulus, Rfc3110 publicKey exponent modulus →
          InForm modulus signature ∨ ¬ Signed publicKey digest (reduce modulus signature) := by
  constructor
  · intro decides exponent modulus key
    by_contra lax
    obtain ⟨unformed, reduced⟩ := not_or.mp lax
    have encodes := (signed_reduce_iff signature key).mp (not_not.mp reduced)
    obtain ⟨otherExponent, otherModulus, other, form, -⟩ :=
      decides.mp (verifyPkcs1v15Sha256_iff.mpr ⟨exponent, modulus, key, encodes⟩)
    obtain ⟨rfl, rfl⟩ := key.unique other
    exact unformed form
  · intro formed
    refine ⟨fun verified => ?_, Signed.verifies⟩
    obtain ⟨exponent, modulus, key, encodes⟩ := verifyPkcs1v15Sha256_iff.mp verified
    rcases formed exponent modulus key with form | unsigned
    · exact ⟨exponent, modulus, key, form, encodes⟩
    · exact absurd ((signed_reduce_iff signature key).mpr encodes) unsigned

/-- A modulus of 62 octets, the least that an encoded message fits. -/
def leastModulus : Bytes := 1 :: List.replicate 61 0

/-- The encoded message of the zero digest for that modulus. -/
def leastMessage : Bytes :=
  0 :: 1 :: List.replicate 8 0xff ++ 0 :: (digestInfoSha256 ++ List.replicate 32 0)

/-- With an exponent of one the message is its own signature, and it verifies with a zero octet
in front of it as well. -/
theorem verifyPkcs1v15Sha256_accepts_longer :
    ¬ ∀ (publicKey : Bytes) (digest : Octets 32) (signature : Bytes),
      verifyPkcs1v15Sha256 publicKey digest signature = true
        ↔ Signed publicKey digest signature := by
  intro claimed
  have key : Rfc3110 (1 :: [1] ++ leastModulus) [1] leastModulus :=
    .short 1 [1] leastModulus (by decide) rfl
  have size : octetLength (natOfBytes leastModulus) = 62 := by
    rw [octetLength, leastModulus, minimalBytes_natOfBytes _ (by decide)]
    rfl
  have below : natOfBytes leastMessage < natOfBytes leastModulus := by decide
  have encodes : Encodes ⟨List.replicate 32 0, rfl⟩ [1] leastModulus
      (natOfBytes (0 :: leastMessage)) := by
    refine ⟨leastMessage, ?_, ?_⟩
    · rw [size]
      rfl
    · exact (congrArg (· % natOfBytes leastModulus) (pow_one _)).trans (Nat.mod_eq_of_lt below)
  obtain ⟨exponent, modulus, other, form, -⟩ := (claimed (1 :: [1] ++ leastModulus)
    ⟨List.replicate 32 0, rfl⟩ (0 :: leastMessage)).mp
      (verifyPkcs1v15Sha256_iff.mpr ⟨[1], leastModulus, key, encodes⟩)
  obtain ⟨rfl, rfl⟩ := key.unique other
  have length := form.1
  rw [size] at length
  exact absurd length (by decide)

end RecurseX.Dnssec
