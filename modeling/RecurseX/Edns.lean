import RecurseX.Library.BitField
import RecurseX.QType

/-!
# EDNS(0)

The OPT pseudo-record and its options. An option's payload determines the
option, so re-encoding a parsed option list gives back the same octets with one
exception: padding is written without its fill.
-/

namespace RecurseX

open Library Wire

/-! ## Option codes -/

namespace Opt

def NSID : UInt16 := 3
def ECS : UInt16 := 8
def COOKIE : UInt16 := 10
def KEEPALIVE : UInt16 := 11
def PADDING : UInt16 := 12
def KEY_TAG : UInt16 := 14
def EDE : UInt16 := 15

end Opt

/-- EDNS Client Subnet. -/
structure Ecs where
  /-- Address family: 1 = IPv4, 2 = IPv6. -/
  family : UInt16
  sourcePrefix : UInt8
  scopePrefix : UInt8
  /-- The masked address octets. -/
  address : Bytes
deriving DecidableEq, Repr

namespace Ecs

/-- The longest prefix of a family, for the two families that are known. -/
def maxPrefix (family : UInt16) : Option UInt8 :=
  if family = 1 then some 32 else if family = 2 then some 128 else none

/-- Whether the last octet has bits set beyond the prefix. -/
def nonCanonical (sourcePrefix : UInt8) (address : Bytes) : Bool :=
  match address.getLast? with
  | none => false
  | some last =>
      let validBits := sourcePrefix % 8
      validBits != 0 && last &&& ~~~((0xff : UInt8) <<< (8 - validBits)) != 0

/-- Parse from wire option data. -/
def parse (data : Bytes) : Result Ecs := do
  failIf (data.length < 4) (.wire "ECS option too short")
  let family ← u16At data 0
  let sourcePrefix ← byteAt data 2
  let scopePrefix ← byteAt data 3
  match maxPrefix family with
  | none => .error (.wire "ECS unknown family")
  | some maxPrefix => do
      failIf (sourcePrefix > maxPrefix ∨ scopePrefix > maxPrefix) (.wire "ECS prefix out of range")
      let addrLen := (sourcePrefix.toNat + 7) / 8
      failIf (data.length ≠ 4 + addrLen) (.wire "ECS address length mismatch")
      let address ← restAt data 4
      failIf (nonCanonical sourcePrefix address = true) (.wire "ECS non-canonical address")
      .ok ⟨family, sourcePrefix, scopePrefix, address⟩

/-- Serialize to wire option data. -/
def toWire (self : Ecs) : Bytes :=
  be16 self.family ++ [self.sourcePrefix] ++ [self.scopePrefix] ++ self.address

end Ecs

/-- A single EDNS option. -/
inductive EdnsOption where
  | ecs (subnet : Ecs)
  | cookie (client : Octets 8) (server : Bytes)
  | tcpKeepalive (timeout : Option UInt16)
  | padding (length : UInt16)
  | keyTag (tags : List UInt16)
  | nsid (id : Bytes)
  | ede (infoCode : UInt16) (extra : Bytes)
  | unknown (code : UInt16) (data : Bytes)
deriving DecidableEq, Repr

namespace EdnsOption

/-- The option code on the wire. -/
def code : EdnsOption → UInt16
  | .ecs _ => Opt.ECS
  | .cookie _ _ => Opt.COOKIE
  | .tcpKeepalive _ => Opt.KEEPALIVE
  | .padding _ => Opt.PADDING
  | .keyTag _ => Opt.KEY_TAG
  | .nsid _ => Opt.NSID
  | .ede _ _ => Opt.EDE
  | .unknown code _ => code

/-- The option data `Edns.optionsWire` writes. -/
def data : EdnsOption → Bytes
  | .ecs subnet => subnet.toWire
  | .cookie client server => client.1 ++ server
  | .tcpKeepalive (some timeout) => be16 timeout
  | .tcpKeepalive none => []
  | .padding _ => []
  | .keyTag tags => tags.flatMap be16
  | .nsid id => id
  | .ede infoCode extra => be16 infoCode ++ extra
  | .unknown _ data => data

/-- The option on the wire: code, 16-bit length, data. -/
def encoding (option : EdnsOption) : Bytes :=
  be16 option.code ++ be16 (UInt16.ofNat option.data.length) ++ option.data

end EdnsOption

/-- The 16-bit words of an octet string of even length. -/
def words : Bytes → List UInt16
  | high :: low :: rest => ofBe16 high low :: words rest
  | _ => []

/-- The option with the given code and data. -/
def parseOption (code : UInt16) (data : Bytes) : Result EdnsOption :=
  if code = Opt.ECS then do
    let subnet ← Ecs.parse data
    .ok (.ecs subnet)
  else if code = Opt.COOKIE then do
    let client ← (arrayAt 8 data 0).mapError fun _ => .wire "cookie option too short"
    let server ← restAt data 8
    .ok (.cookie client server)
  else if code = Opt.KEEPALIVE then
    if data.length = 0 then .ok (.tcpKeepalive none)
    else if data.length = 2 then do
      let timeout ← u16At data 0
      .ok (.tcpKeepalive (some timeout))
    else .error (.wire "keepalive option malformed")
  else if code = Opt.PADDING then .ok (.padding (UInt16.ofNat data.length))
  else if code = Opt.KEY_TAG then do
    failIf (data.length % 2 ≠ 0) (.wire "key-tag option malformed")
    .ok (.keyTag (words data))
  else if code = Opt.NSID then .ok (.nsid data)
  else if code = Opt.EDE then do
    let infoCode ← (u16At data 0).mapError fun _ => .wire "EDE option too short"
    let extra ← restAt data 2
    .ok (.ede infoCode extra)
  else .ok (.unknown code data)

/-- The option loop. Every option takes four octets, so the octet count is
enough fuel. -/
def parseOptionsLoop (rdata : Bytes) : (fuel pos : Nat) → Result (List EdnsOption)
  | 0, _ => .error (.internal "EDNS option walk did not terminate")
  | fuel + 1, pos =>
      if pos < rdata.length then do
        let code ← (u16At rdata pos).mapError fun _ => .wire "EDNS option header truncated"
        let len ← (u16At rdata (pos + 2)).mapError fun _ => .wire "EDNS option header truncated"
        let data ← (sliceAt rdata (pos + 4) len.toNat).mapError fun _ =>
          .wire "EDNS option data truncated"
        let option ← parseOption code data
        let options ← parseOptionsLoop rdata fuel (pos + 4 + len.toNat)
        .ok (option :: options)
      else .ok []

/-- Parse the option list from an OPT RDATA payload. -/
def parseOptions (rdata : Bytes) : Result (List EdnsOption) :=
  parseOptionsLoop rdata (rdata.length + 1) 0

/-- The EDNS(0) pseudo-record carried in the additional section. -/
structure Edns where
  udpPayloadSize : UInt16
  extRcode : UInt8
  version : UInt8
  dnssecOk : Bool
  options : List EdnsOption
deriving DecidableEq, Repr

namespace Edns

/-- Parse the EDNS fields from a raw OPT record: the class field, the TTL field
and the option payload. -/
def parse (rrClass : UInt16) (ttl : UInt32) (rdata : Bytes) : Result Edns := do
  let options ← parseOptions rdata
  .ok { udpPayloadSize := rrClass
        extRcode := ((ttl >>> 24) &&& 0xff).toUInt8
        version := ((ttl >>> 16) &&& 0xff).toUInt8
        dnssecOk := ttl &&& 0x8000 != 0
        options := options }

/-- The wire TTL field value. -/
def ttlField (self : Edns) : UInt32 :=
  let ttl := (self.extRcode.toUInt32 <<< 24) ||| (self.version.toUInt32 <<< 16)
  if self.dnssecOk then ttl ||| 0x8000 else ttl

/-- The wire option payload. -/
def optionsWire (self : Edns) : Bytes := self.options.flatMap EdnsOption.encoding

/-- The full 12-bit response code. -/
def extendedRcode (self : Edns) (base : UInt8) : UInt16 :=
  (self.extRcode.toUInt16 <<< 4) ||| (base &&& 0x0f).toUInt16

/-- The ECS option, if any. -/
def ecs (self : Edns) : Option Ecs :=
  self.options.findSome? fun option =>
    match option with
    | .ecs subnet => some subnet
    | _ => none

end Edns

/-! ## Options survive a round trip -/

/-- The option a re-encoding carries: padding is written without its fill. -/
def EdnsOption.normalize : EdnsOption → EdnsOption
  | .padding _ => .padding 0
  | option => option

/-- The EDNS record a re-encoding carries. -/
def Edns.normalize (edns : Edns) : Edns :=
  { edns with options := edns.options.map EdnsOption.normalize }

/-- The TTL field is the sum of its parts. -/
theorem Edns.ttlField_toNat (self : Edns) :
    self.ttlField.toNat = self.extRcode.toNat * 2 ^ 24 + self.version.toNat * 2 ^ 16 +
      self.dnssecOk.toNat * 2 ^ 15 := by
  have extBound := self.extRcode.toNat_lt
  have versionBound := self.version.toNat_lt
  have high : (self.extRcode.toUInt32 <<< 24).toNat = self.extRcode.toNat * 2 ^ 24 := by
    simp only [UInt32.toNat_shiftLeft, UInt8.toNat_toUInt32, UInt32.toNat_ofNat, Nat.shiftLeft_eq,
      Nat.reduceMod, Nat.reducePow]
    omega
  have middle : (self.version.toUInt32 <<< 16).toNat = self.version.toNat * 2 ^ 16 := by
    simp only [UInt32.toNat_shiftLeft, UInt8.toNat_toUInt32, UInt32.toNat_ofNat, Nat.shiftLeft_eq,
      Nat.reduceMod, Nat.reducePow]
    omega
  have upper : (self.extRcode.toUInt32 <<< 24 ||| self.version.toUInt32 <<< 16).toNat =
      self.extRcode.toNat * 2 ^ 24 + self.version.toNat * 2 ^ 16 := by
    rw [UInt32.toNat_or, high, middle, or_eq_add 24 (by omega) (by omega)]
  rw [Edns.ttlField]
  cases self.dnssecOk with
  | false => simpa using upper
  | true =>
      simp only [if_true, Bool.toNat_true]
      rw [UInt32.toNat_or, upper, UInt32.toNat_ofNat,
        or_eq_add 16 (by omega) (by decide)]
      rfl

/-- Unpacking the packed TTL field. -/
theorem Edns.ttlField_unpacked (self : Edns) :
    ((self.ttlField >>> 24) &&& 0xff).toUInt8 = self.extRcode ∧
    ((self.ttlField >>> 16) &&& 0xff).toUInt8 = self.version ∧
    (self.ttlField &&& 0x8000 != 0) = self.dnssecOk := by
  have extBound := self.extRcode.toNat_lt
  have versionBound := self.version.toNat_lt
  have okBound : self.dnssecOk.toNat ≤ 1 := Bool.toNat_le _
  have octet : ∀ word : UInt32, (word &&& 0xff).toUInt8.toNat = word.toNat % 256 := by
    intro word
    rw [UInt32.toNat_toUInt8, UInt32.toNat_and, UInt32.toNat_ofNat,
      Nat.and_two_pow_sub_one_eq_mod _ 8]
    omega
  refine ⟨UInt8.toNat_inj.mp ?_, UInt8.toNat_inj.mp ?_, ?_⟩
  · simp only [octet, UInt32.toNat_shiftRight, UInt32.toNat_ofNat, Nat.shiftRight_eq_div_pow,
      self.ttlField_toNat, Nat.reduceMod, Nat.reducePow]
    omega
  · simp only [octet, UInt32.toNat_shiftRight, UInt32.toNat_ofNat, Nat.shiftRight_eq_div_pow,
      self.ttlField_toNat, Nat.reduceMod, Nat.reducePow]
    omega
  · rw [flag32 _ _ 15 rfl, self.ttlField_toNat]
    cases self.dnssecOk <;> simp <;> omega

/-- A subnet option determines its octets. -/
theorem Ecs.toWire_of_parse {data : Bytes} {subnet : Ecs} (parsed : Ecs.parse data = .ok subnet) :
    subnet.toWire = data := by
  simp only [Ecs.parse, bind_eq_ok, u16At_eq_ok, byteAt_eq_ok] at parsed
  obtain ⟨_, _, family, familyAt, sourcePrefix, sourceAt, scopePrefix, scopeAt, known⟩ := parsed
  split at known
  · cases known
  · simp only [bind_eq_ok, restAt_eq_ok, failIf_eq_ok] at known
    obtain ⟨_, _, _, _, address, ⟨inside, rfl⟩, _, _, returned⟩ := known
    cases returned
    have fields : Located data 0
        (be16 family ++ ([sourcePrefix] ++ ([scopePrefix] ++ data.drop 4))) := by
      refine Located.append_iff.mpr ⟨familyAt, Located.append_iff.mpr ⟨.singleton sourceAt, ?_⟩⟩
      exact Located.append_iff.mpr ⟨.singleton scopeAt, .rest inside⟩
    have whole := fields.eq_of_length (by simp; omega)
    simpa [Ecs.toWire] using whole

theorem words_flatMap {data : Bytes} (even : data.length % 2 = 0) :
    (words data).flatMap be16 = data := by
  induction data using words.induct with
  | case1 high low rest inductionHypothesis =>
      simp only [List.length_cons] at even
      rw [words, List.flatMap_cons, be16_ofBe16, inductionHypothesis (by omega)]
      rfl
  | case2 data short =>
      obtain _ | ⟨first, _ | ⟨second, rest⟩⟩ := data
      · rfl
      · simp at even
      · exact absurd rfl (short first second rest)

/-- What parsing an option says about writing it. -/
structure EdnsOption.WellFormed (option : EdnsOption) : Prop where
  reads : parseOption option.code option.data = .ok option.normalize
  short : option.data.length ≤ 65535

/-- Apart from padding, an option determines its data. -/
theorem data_of_parseOption {code : UInt16} {data : Bytes} {option : EdnsOption}
    (parsed : parseOption code data = .ok option) :
    option.code = code ∧ (option.data = data ∧ option.normalize = option ∨
      code = Opt.PADDING ∧ option.normalize = .padding 0 ∧ option.data = []) := by
  have start : ∀ {value : UInt16} {rest : Bytes}, u16At data 0 = .ok value →
      restAt data 2 = .ok rest → be16 value ++ rest = data := by
    intro value rest read tail
    obtain ⟨inside, rfl⟩ := restAt_eq_ok.mp tail
    exact (Located.append_iff.mpr ⟨u16At_eq_ok.mp read, .rest inside⟩).eq_of_length
      (by simp; omega)
  simp only [parseOption] at parsed
  split at parsed
  · rename_i same
    obtain ⟨subnet, read, returned⟩ := bind_eq_ok.mp parsed
    cases returned
    exact ⟨same.symm, Or.inl ⟨Ecs.toWire_of_parse read, rfl⟩⟩
  split at parsed
  · rename_i same
    simp only [bind_eq_ok, mapError_eq_ok, arrayAt_eq_ok, restAt_eq_ok] at parsed
    obtain ⟨client, clientAt, server, ⟨inside, rfl⟩, returned⟩ := parsed
    cases returned
    refine ⟨same.symm, Or.inl ⟨?_, rfl⟩⟩
    have width := client.2
    exact (Located.append_iff.mpr ⟨clientAt, by rw [width]; exact .rest inside⟩).eq_of_length
      (by simp [width]; omega)
  split at parsed
  · rename_i same
    split at parsed
    · rename_i empty
      cases parsed
      exact ⟨same.symm, Or.inl ⟨(List.length_eq_zero_iff.mp empty).symm, rfl⟩⟩
    · split at parsed
      · rename_i two
        obtain ⟨timeout, read, returned⟩ := bind_eq_ok.mp parsed
        cases returned
        exact ⟨same.symm, Or.inl ⟨(u16At_eq_ok.mp read).eq_of_length (by rw [two]; rfl), rfl⟩⟩
      · cases parsed
  split at parsed
  · rename_i same
    cases parsed
    exact ⟨same.symm, Or.inr ⟨same, rfl, rfl⟩⟩
  split at parsed
  · rename_i same
    simp only [bind_eq_ok, failIf_eq_ok] at parsed
    obtain ⟨_, even, returned⟩ := parsed
    cases returned
    exact ⟨same.symm, Or.inl ⟨words_flatMap (by omega), rfl⟩⟩
  split at parsed
  · rename_i same
    cases parsed
    exact ⟨same.symm, Or.inl ⟨rfl, rfl⟩⟩
  split at parsed
  · rename_i same
    simp only [bind_eq_ok, mapError_eq_ok] at parsed
    obtain ⟨infoCode, read, extra, tail, returned⟩ := parsed
    cases returned
    exact ⟨same.symm, Or.inl ⟨start read tail, rfl⟩⟩
  · cases parsed
    exact ⟨rfl, Or.inl ⟨rfl, rfl⟩⟩

theorem parseOption_wellFormed {code : UInt16} {data : Bytes} {option : EdnsOption}
    (parsed : parseOption code data = .ok option) (short : data.length ≤ 65535) :
    option.WellFormed ∧ option.data.length ≤ data.length := by
  obtain ⟨sameCode, ⟨sameData, plain⟩ | ⟨padding, normal, empty⟩⟩ := data_of_parseOption parsed
  · exact ⟨⟨by rw [sameCode, sameData, plain, parsed], by rw [sameData]; exact short⟩,
      Nat.le_of_eq (congrArg List.length sameData)⟩
  · exact ⟨⟨by rw [sameCode, padding, normal, empty]; rfl, by rw [empty]; decide⟩,
      by rw [empty]; exact Nat.zero_le _⟩

@[simp] theorem EdnsOption.length_encoding (option : EdnsOption) :
    option.encoding.length = 4 + option.data.length := by
  simp [EdnsOption.encoding]
  omega

/-- The option loop returns well-formed options that take no more room than
the octets they came from. -/
theorem parseOptionsLoop_wellFormed {rdata : Bytes} {fuel : Nat} :
    ∀ {pos : Nat} {options : List EdnsOption}, pos ≤ rdata.length →
      parseOptionsLoop rdata fuel pos = .ok options →
      (∀ option ∈ options, option.WellFormed) ∧
        pos + (options.flatMap EdnsOption.encoding).length ≤ rdata.length := by
  induction fuel with
  | zero =>
      intro pos options _ parsed
      cases parsed
  | succ fuel inductionHypothesis =>
      intro pos options inside parsed
      rw [parseOptionsLoop] at parsed
      split at parsed
      · simp only [bind_eq_ok, mapError_eq_ok, sliceAt_eq_ok] at parsed
        obtain ⟨code, _, len, _, data, ⟨located, width⟩, option, read, rest, further, returned⟩ :=
          parsed
        cases returned
        have lenBound := len.toNat_lt
        have fits := located.bound
        obtain ⟨own, smaller⟩ := parseOption_wellFormed read (by omega)
        obtain ⟨others, room⟩ := inductionHypothesis (by omega) further
        refine ⟨List.forall_mem_cons.mpr ⟨own, others⟩, ?_⟩
        rw [List.flatMap_cons, List.length_append, EdnsOption.length_encoding]
        omega
      · cases parsed
        exact ⟨by simp, by simpa using inside⟩

/-- The option loop reads well-formed options back one by one. -/
theorem parseOptionsLoop_found {rdata : Bytes} {options : List EdnsOption} :
    ∀ (fuel pos : Nat), (∀ option ∈ options, option.WellFormed) → options.length < fuel →
      Located rdata pos (options.flatMap EdnsOption.encoding) →
      pos + (options.flatMap EdnsOption.encoding).length = rdata.length →
      parseOptionsLoop rdata fuel pos = .ok (options.map EdnsOption.normalize) := by
  induction options with
  | nil =>
      intro fuel pos _ fuelled _ reached
      obtain ⟨fuel, rfl⟩ : ∃ more, fuel = more + 1 := ⟨fuel - 1, by omega⟩
      rw [parseOptionsLoop, if_neg (by simp at reached; omega)]
      rfl
  | cons option options inductionHypothesis =>
      intro fuel pos wellFormed fuelled located reached
      obtain ⟨fuel, rfl⟩ : ∃ more, fuel = more + 1 := ⟨fuel - 1, by omega⟩
      have own := wellFormed option List.mem_cons_self
      have short := own.short
      have width : (UInt16.ofNat option.data.length).toNat = option.data.length := by
        rw [UInt16.toNat_ofNat']
        omega
      rw [List.flatMap_cons, Located.append_iff, EdnsOption.length_encoding] at located
      rw [List.flatMap_cons, List.length_append, EdnsOption.length_encoding] at reached
      obtain ⟨here, later⟩ := located
      rw [EdnsOption.encoding, List.append_assoc] at here
      have lengthAt : Located rdata (pos + 2) (be16 (UInt16.ofNat option.data.length)) :=
        here.right_part.left_part
      have dataAt : Located rdata (pos + 4) option.data := here.right_part.right_part
      have rest := inductionHypothesis fuel (pos + 4 + option.data.length)
        (fun other member => wellFormed other (List.mem_cons_of_mem _ member))
        (by simp only [List.length_cons] at fuelled; omega)
        (by rw [Nat.add_assoc]; exact later) (by omega)
      rw [parseOptionsLoop, if_pos (by omega), u16At_located here.left_part, mapError_ok, ok_bind,
        u16At_located lengthAt, mapError_ok, ok_bind, width, sliceAt_located dataAt, mapError_ok,
        ok_bind, own.reads, ok_bind, rest]
      rfl

namespace Edns

/-- An EDNS record some parser returned. -/
structure WellFormed (edns : Edns) : Prop where
  options : ∀ option ∈ edns.options, option.WellFormed
  short : edns.optionsWire.length ≤ 65535

theorem parse_wellFormed {rrClass : UInt16} {ttl : UInt32} {rdata : Bytes} {edns : Edns}
    (short : rdata.length ≤ 65535) (parsed : Edns.parse rrClass ttl rdata = .ok edns) :
    edns.WellFormed := by
  obtain ⟨options, read, returned⟩ := bind_eq_ok.mp parsed
  cases returned
  obtain ⟨wellFormed, room⟩ := parseOptionsLoop_wellFormed (Nat.zero_le _) read
  exact ⟨wellFormed, by simp only [optionsWire]; omega⟩

/-- The options of a well-formed list read back, but for the fill of the padding. -/
theorem parseOptions_written {edns : Edns} (wellFormed : ∀ option ∈ edns.options, option.WellFormed) :
    parseOptions edns.optionsWire = .ok (edns.options.map EdnsOption.normalize) := by
  have fuelled : edns.options.length ≤ edns.optionsWire.length := by
    rw [optionsWire]
    induction edns.options with
    | nil => simp
    | cons option options inductionHypothesis =>
        simp only [List.flatMap_cons, List.length_append, EdnsOption.length_encoding,
          List.length_cons]
        omega
  have whole : Located edns.optionsWire 0 (edns.options.flatMap EdnsOption.encoding) :=
    ⟨Nat.zero_le _, List.prefix_rfl⟩
  exact parseOptionsLoop_found (edns.optionsWire.length + 1) 0 wellFormed (by omega) whole
    (Nat.zero_add _)

/-- The OPT fields and payload of a well-formed record read back. -/
theorem parse_written {edns : Edns} (wellFormed : edns.WellFormed) :
    Edns.parse edns.udpPayloadSize edns.ttlField edns.optionsWire = .ok edns.normalize := by
  obtain ⟨extRcode, version, dnssecOk⟩ := edns.ttlField_unpacked
  rw [Edns.parse, parseOptions_written wellFormed.options, ok_bind, extRcode, version, dnssecOk]
  rfl

end Edns

/-! ## Padding loses its fill -/

/-- The option asks for no fill. -/
def EdnsOption.Unfilled (option : EdnsOption) : Prop := ∀ length, option = .padding length → length = 0

theorem EdnsOption.normalize_eq_self_iff {option : EdnsOption} :
    option.normalize = option ↔ option.Unfilled := by
  cases option with
  | padding length =>
      constructor
      · intro same other found
        cases found
        exact (EdnsOption.padding.inj same).symm
      · intro unfilled
        rw [unfilled length rfl]
        rfl
  | ecs | cookie | tcpKeepalive | keyTag | nsid | ede | unknown =>
      exact ⟨fun _ _ found => (by cases found), fun _ => rfl⟩

/-- Options that were parsed are written and parsed back exactly when every padding among
them has length 0, whatever record carries them. -/
theorem parseOptions_optionsWire_iff (rdata : Bytes) (options : List EdnsOption)
    (parsed : parseOptions rdata = .ok options) (edns : Edns) (carried : edns.options = options) :
    parseOptions edns.optionsWire = .ok options ↔ ∀ option ∈ options, option.Unfilled := by
  subst carried
  have wellFormed := (parseOptionsLoop_wellFormed (Nat.zero_le _) parsed).1
  rw [Edns.parseOptions_written wellFormed]
  constructor
  · intro same option member
    have fixed : edns.options.map EdnsOption.normalize = edns.options.map id := by
      rw [List.map_id]
      exact Except.ok.inj same
    exact EdnsOption.normalize_eq_self_iff.mp (List.map_inj_left.mp fixed option member)
  · intro unfilled
    refine congrArg Except.ok ((List.map_congr_left fun option member => ?_).trans (List.map_id _))
    exact EdnsOption.normalize_eq_self_iff.mpr (unfilled option member)

/-- A key-tag option, an empty padding and an option of unknown code. -/
theorem parseOptions_optionsWire_three :
    parseOptions (Edns.optionsWire ⟨1232, 0, 0, false,
      [.keyTag [0x4a5c], .padding 0, .unknown 9 [1]]⟩) =
      .ok [.keyTag [0x4a5c], .padding 0, .unknown 9 [1]] := by
  refine (parseOptions_optionsWire_iff [0, 14, 0, 2, 0x4a, 0x5c, 0, 12, 0, 0, 0, 9, 0, 1, 1] _
    (by decide) _ rfl).mpr ?_
  intro option member length found
  subst found
  simpa using member

/-- Padding of one octet is read back as padding of none. -/
theorem padding_fill_lost :
    parseOptions [0, 12, 0, 1, 0] = .ok [.padding 1] ∧
    parseOptions (Edns.optionsWire ⟨1232, 0, 0, false, [.padding 1]⟩) = .ok [.padding 0] ∧
    parseOptions (Edns.optionsWire ⟨1232, 0, 0, false, [.padding 1]⟩) ≠ .ok [.padding 1] :=
  ⟨by decide, by decide, by decide⟩

end RecurseX
