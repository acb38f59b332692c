import RecurseX.Rdata.Bounds

/-!
# Record data survives a round trip

Each arm of the parser reads back what the matching arm of the serializer
wrote, up to `RData.normalize`: an NSEC or NSEC3 type list comes back sorted
and without repetitions. What makes a payload writable at all is collected in
`RData.WellFormed`, and the parser returns nothing else.
-/

namespace RecurseX

open Library Wire

/-- The payload a re-encoding carries: type bitmaps are sorted sets. -/
def RData.normalize : RData → RData
  | .nsec next types => .nsec next ((sortTypes types).map RrType.mk)
  | .nsec3 hashAlg flags iterations salt nextHashed types =>
      .nsec3 hashAlg flags iterations salt nextHashed ((sortTypes types).map RrType.mk)
  | rdata => rdata

namespace RdataWindow

variable {window : RdataWindow} {p : Nat}

/-! ## The shared reads, forward -/

theorem need_of_le {count : Nat} (enough : count ≤ window.rdlen) : window.need count = .ok () :=
  failIf_of_not (by omega)

theorem u16At_found {value : UInt16} (located : Located window.buf p (be16 value))
    (inside : p + 2 ≤ window.stop) : window.u16At p = .ok value := by
  rw [u16At, failIf_of_not (by omega), ok_bind, u16At_located located]

theorem u32At_found {value : UInt32} (located : Located window.buf p (be32 value))
    (inside : p + 4 ≤ window.stop) : window.u32At p = .ok value := by
  rw [u32At, failIf_of_not (by omega), ok_bind, u32At_located located]

theorem bAt_found {byte : UInt8} {rest : Bytes} (located : Located window.buf p (byte :: rest))
    (inside : p + 1 ≤ window.stop) : window.bAt p = .ok byte := by
  rw [bAt, failIf_of_not (by omega), ok_bind, byteAt_located located, mapError_ok]

theorem tail_found {bytes : Bytes} (located : Located window.buf p bytes)
    (reached : p + bytes.length = window.stop) : window.tail p = .ok bytes := by
  have length : window.stop - p = bytes.length := by omega
  rw [tail, failIf_of_not (by omega), ok_bind, length, sliceAt_located located, mapError_ok]

theorem field_found {bytes : Bytes} {truncated : String} (located : Located window.buf p bytes)
    (inside : p + bytes.length ≤ window.stop) :
    window.field p bytes.length truncated = .ok bytes := by
  rw [field, failIf_of_not (by omega), ok_bind, sliceAt_located located, mapError_ok]

theorem readName_found {name : Name} {next : Nat}
    (decoded : Name.fromWire window.buf p = .ok (name, next)) (inside : next ≤ window.stop) :
    window.readName p = .ok (name, next) := by
  rw [readName, decoded, ok_bind]
  simp only [failIf_of_not (Nat.not_lt.mpr inside), ok_bind]

theorem nameExact_found {name : Name}
    (decoded : Name.fromWire window.buf p = .ok (name, window.stop)) :
    window.nameExact p = .ok (name, window.stop) := by
  rw [nameExact, readName_found decoded (Nat.le_refl _), ok_bind]
  simp

/-- The length octet of a written string and the string behind it. -/
theorem charString_found {bytes : Bytes} (short : bytes.length ≤ 255)
    (located : Located window.buf p (charString bytes)) :
    ∃ len : UInt8, len.toNat = bytes.length ∧ Located window.buf p (len :: bytes) := by
  obtain ⟨shape, length⟩ := charString_of_le short
  exact ⟨_, length, shape ▸ located⟩

theorem readCharString_found {bytes : Bytes} (short : bytes.length ≤ 255)
    (located : Located window.buf p (charString bytes))
    (inside : p + (bytes.length + 1) ≤ window.stop) :
    window.readCharString p = .ok (bytes, p + (bytes.length + 1)) := by
  obtain ⟨len, length, located⟩ := charString_found short located
  rw [readCharString, failIf_of_not (by omega), ok_bind, byteAt_located located, mapError_ok,
    ok_bind, length, field_found located.tail (by omega), ok_bind]
  simp [Nat.add_assoc, Nat.add_comm 1]

/-! ## The loops, forward -/

theorem txtLoop_found {strings : List Bytes} :
    ∀ {fuel pos : Nat}, (∀ bytes ∈ strings, bytes.length ≤ 255) → strings.length < fuel →
      PiecesAt window.buf pos (strings.map fun bytes => .octets (charString bytes)) window.stop →
      window.txtLoop fuel pos = .ok (strings, window.stop) := by
  induction strings with
  | nil =>
      intro fuel pos _ fuelled found
      obtain ⟨fuel, rfl⟩ : ∃ more, fuel = more + 1 := ⟨fuel - 1, by omega⟩
      rw [txtLoop, if_neg (by rw [show pos = window.stop from found]; omega),
        show pos = window.stop from found]
  | cons bytes strings inductionHypothesis =>
      intro fuel pos short fuelled found
      obtain ⟨fuel, rfl⟩ : ∃ more, fuel = more + 1 := ⟨fuel - 1, by omega⟩
      obtain ⟨here, later⟩ := found
      have own := short bytes List.mem_cons_self
      rw [length_charString own] at later
      obtain ⟨len, length, here⟩ := charString_found own here
      have forward := later.le
      rw [txtLoop, if_pos (by omega), byteAt_located here, mapError_ok, ok_bind, length,
        field_found here.tail (by omega), ok_bind,
        show pos + 1 + bytes.length = pos + (bytes.length + 1) by omega,
        inductionHypothesis (fun other member => short other (List.mem_cons_of_mem _ member))
          (by simp only [List.length_cons] at fuelled; omega) later]
      rfl

/-- A written SvcParam whose value fits its length word. -/
theorem svcParam_found {param : UInt16 × Bytes} (short : param.2.length ≤ 65535)
    (located : Located window.buf p (svcParam param)) :
    ∃ len : UInt16, len.toNat = param.2.length ∧ Located window.buf p (be16 param.1) ∧
      Located window.buf (p + 2) (be16 len) ∧ Located window.buf (p + 4) param.2 ∧
      (svcParam param).length = 4 + param.2.length := by
  have shape : svcParam param =
      be16 param.1 ++ (be16 (UInt16.ofNat param.2.length) ++ param.2) := by
    rw [svcParam, Nat.min_eq_left short, capped_of_le short, List.append_assoc]
  rw [shape] at located ⊢
  refine ⟨_, ?_, located.left_part, located.right_part.left_part,
    located.right_part.right_part, ?_⟩
  · rw [UInt16.toNat_ofNat']
    omega
  · simp only [List.length_append, length_be16]
    omega

theorem svcParamLoop_found {params : List (UInt16 × Bytes)} :
    ∀ {fuel pos : Nat}, (∀ param ∈ params, param.2.length ≤ 65535) → params.length < fuel →
      PiecesAt window.buf pos (params.map fun param => .octets (svcParam param)) window.stop →
      window.svcParamLoop fuel pos = .ok (params, window.stop) := by
  induction params with
  | nil =>
      intro fuel pos _ fuelled found
      obtain ⟨fuel, rfl⟩ : ∃ more, fuel = more + 1 := ⟨fuel - 1, by omega⟩
      rw [svcParamLoop, if_neg (by rw [show pos = window.stop from found]; omega),
        show pos = window.stop from found]
  | cons param params inductionHypothesis =>
      intro fuel pos short fuelled found
      obtain ⟨fuel, rfl⟩ : ∃ more, fuel = more + 1 := ⟨fuel - 1, by omega⟩
      obtain ⟨here, later⟩ := found
      obtain ⟨len, length, keyAt, lenAt, valueAt, total⟩ :=
        svcParam_found (short param List.mem_cons_self) here
      rw [total] at later
      have forward := later.le
      rw [svcParamLoop, if_pos (by omega), failIf_of_not (by omega), ok_bind,
        u16At_found keyAt (by omega), ok_bind, u16At_found lenAt (by omega), ok_bind, length,
        field_found valueAt (by omega), ok_bind,
        show pos + 4 + param.2.length = pos + (4 + param.2.length) by omega,
        inductionHypothesis (fun other member => short other (List.mem_cons_of_mem _ member))
          (by simp only [List.length_cons] at fuelled; omega) later]
      rfl

/-- Every octet piece that is never empty advances the position. -/
theorem length_le_of_found {α : Type} (encode : α → Bytes) (nonempty : ∀ item, encode item ≠ []) :
    ∀ {items : List α} {pos stop : Nat},
      PiecesAt window.buf pos (items.map fun item => .octets (encode item)) stop →
        items.length ≤ stop - pos := by
  intro items
  induction items with
  | nil => simp
  | cons item items inductionHypothesis =>
      intro pos stop found
      have forward := found.2.le
      have rest := inductionHypothesis found.2
      have positive := List.length_pos_of_ne_nil (nonempty item)
      simp only [List.length_cons]
      omega

/-- The parser reads a well-formed payload back where it was written. -/
theorem parse_found {rdata : RData} {pos : Nat} (wellFormed : rdata.WellFormed)
    (found : PiecesAt window.buf pos rdata.pieces window.stop)
    (length : window.rdlen = window.stop - pos) :
    window.parse pos rdata.form = .ok (rdata.normalize, window.stop) := by
  have forward := found.le
  cases rdata <;>
    simp only [RData.pieces, List.cons_append, List.nil_append, PiecesAt, length_be16, length_be32,
      List.length_cons, List.length_nil, Nat.add_assoc, Nat.reduceAdd, RData.form, RData.normalize,
      parse] at found ⊢
  case a ip =>
    obtain ⟨here, reached⟩ := found
    rw [ip.2] at reached
    rw [parseA, need_of_le (by omega), ok_bind, arrayAt_eq_ok.mpr here, mapError_ok, ok_bind,
      reached]
  case aaaa ip =>
    obtain ⟨here, reached⟩ := found
    rw [ip.2] at reached
    rw [parseAaaa, need_of_le (by omega), ok_bind, arrayAt_eq_ok.mpr here, mapError_ok, ok_bind,
      reached]
  case cname | dname | ns | ptr =>
    obtain ⟨next, _, decoded, rfl⟩ := found
    rw [parseName, nameExact_found decoded, ok_bind]
  case mx preference exchange =>
    obtain ⟨preferenceAt, next, _, decoded, rfl⟩ := found
    rw [parseMx, need_of_le (by omega), ok_bind, u16At_found preferenceAt (by omega), ok_bind,
      nameExact_found decoded, ok_bind]
  case soa mname rname serial refresh retry expire minimum =>
    obtain ⟨first, _, mnameRead, second, _, rnameRead, serialAt, refreshAt, retryAt, expireAt,
      minimumAt, reached⟩ := found
    simp only [parseSoa, need_of_le (show 20 ≤ window.rdlen by omega), ok_bind,
      readName_found mnameRead (by omega), readName_found rnameRead (by omega),
      failIf_of_not (show ¬ second + 20 > window.stop by omega), u32At_found serialAt (by omega),
      u32At_found refreshAt (by omega), u32At_found retryAt (by omega),
      u32At_found expireAt (by omega), u32At_found minimumAt (by omega)]
    rw [reached]
  case txt strings =>
    have fuelled := length_le_of_found charString (fun _ => List.cons_ne_nil _ _) found
    rw [parseTxt, txtLoop_found wellFormed.bounded (by omega) found, ok_bind]
  case srv priority weight port target =>
    obtain ⟨priorityAt, weightAt, portAt, next, _, decoded, rfl⟩ := found
    simp only [parseSrv, need_of_le (show 6 ≤ window.rdlen by omega), ok_bind,
      u16At_found priorityAt (by omega), u16At_found weightAt (by omega),
      u16At_found portAt (by omega), nameExact_found decoded]
  case naptr order preference flags services regexp replacement =>
    obtain ⟨flagsShort, servicesShort, regexpShort⟩ := wellFormed.bounded
    simp only [length_charString flagsShort, length_charString servicesShort,
      length_charString regexpShort, Nat.add_assoc] at found
    obtain ⟨orderAt, preferenceAt, flagsAt, servicesAt, regexpAt, next, _, decoded, rfl⟩ := found
    simp only [parseNaptr, need_of_le (show 4 ≤ window.rdlen by omega), ok_bind,
      u16At_found orderAt (by omega), u16At_found preferenceAt (by omega),
      readCharString_found flagsShort flagsAt (by omega), Nat.add_assoc,
      readCharString_found servicesShort servicesAt (by omega),
      readCharString_found regexpShort regexpAt (by omega), nameExact_found decoded]
  case ds keyTag algorithm digestType digest =>
    obtain ⟨keyTagAt, algorithmAt, digestTypeAt, digestAt, reached⟩ := found
    simp only [parseDs, need_of_le (show 4 ≤ window.rdlen by omega), ok_bind,
      u16At_found keyTagAt (by omega), bAt_found algorithmAt (by omega),
      bAt_found digestTypeAt (by omega), failIf_of_not (show ¬ pos + 4 > window.stop by omega),
      tail_found digestAt (by omega)]
  case dnskey flags protocol algorithm publicKey =>
    obtain ⟨flagsAt, protocolAt, algorithmAt, keyAt, reached⟩ := found
    simp only [parseDnskey, need_of_le (show 4 ≤ window.rdlen by omega), ok_bind,
      u16At_found flagsAt (by omega), bAt_found protocolAt (by omega),
      bAt_found algorithmAt (by omega), failIf_of_not (show ¬ pos + 4 > window.stop by omega),
      tail_found keyAt (by omega)]
  case rrsig typeCovered algorithm labels originalTtl expiration inception keyTag signer signature =>
    obtain ⟨typeAt, algorithmAt, labelsAt, ttlAt, expirationAt, inceptionAt, keyTagAt, next, _,
      decoded, signatureAt, reached⟩ := found
    simp only [parseRrsig, need_of_le (show 18 ≤ window.rdlen by omega), ok_bind,
      u16At_found typeAt (by omega), bAt_found algorithmAt (by omega),
      bAt_found labelsAt (by omega), u32At_found ttlAt (by omega),
      u32At_found expirationAt (by omega), u32At_found inceptionAt (by omega),
      u16At_found keyTagAt (by omega), readName_found decoded (by omega),
      failIf_of_not (show ¬ next > window.stop by omega), tail_found signatureAt (by omega)]
  case nsec next types =>
    obtain ⟨mid, _, decoded, bitmapAt, reached⟩ := found
    rw [writeTypeBitmap_eq, List.nil_append] at bitmapAt reached
    have listed := parseTypeBitmap_written bitmapAt
    rw [reached] at listed
    simp only [parseNsec, readName_found decoded (show mid ≤ window.stop by omega), ok_bind, listed]
  case nsec3 hashAlg flags iterations salt nextHashed types =>
    obtain ⟨saltShort, nextShort⟩ := wellFormed.bounded
    simp only [length_charString saltShort, length_charString nextShort, writeTypeBitmap_eq,
      List.nil_append] at found
    obtain ⟨hashAlgAt, flagsAt, iterationsAt, saltAt, nextAt, bitmapAt, reached⟩ := found
    obtain ⟨saltLen, saltLength, saltAt⟩ := charString_found saltShort saltAt
    obtain ⟨nextLen, nextLength, nextAt⟩ := charString_found nextShort nextAt
    have listed := parseTypeBitmap_written bitmapAt
    rw [show pos + (4 + (salt.length + 1)) = pos + 5 + salt.length by omega] at nextAt
    rw [show pos + (4 + (salt.length + 1 + (nextHashed.length + 1))) +
        (typeBitmap types).length = window.stop by omega,
      show pos + (4 + (salt.length + 1 + (nextHashed.length + 1))) =
        pos + 5 + salt.length + 1 + nextHashed.length by omega] at listed
    simp only [parseNsec3, need_of_le (show 5 ≤ window.rdlen by omega), ok_bind,
      bAt_found hashAlgAt (by omega), bAt_found flagsAt (by omega),
      u16At_found iterationsAt (by omega), bAt_found saltAt (by omega), saltLength,
      field_found saltAt.tail (by omega),
      failIf_of_not (show ¬ pos + 5 + salt.length ≥ window.stop by omega),
      bAt_found nextAt (by omega), nextLength, field_found nextAt.tail (by omega), listed]
  case nsec3Param hashAlg flags iterations salt =>
    have saltShort := wellFormed.bounded
    simp only [RData.Bounded] at saltShort
    rw [length_charString saltShort] at found
    obtain ⟨hashAlgAt, flagsAt, iterationsAt, saltAt, reached⟩ := found
    obtain ⟨saltLen, saltLength, saltAt⟩ := charString_found saltShort saltAt
    simp only [parseNsec3Param, need_of_le (show 5 ≤ window.rdlen by omega), ok_bind,
      bAt_found hashAlgAt (by omega), bAt_found flagsAt (by omega),
      u16At_found iterationsAt (by omega), bAt_found saltAt (by omega), saltLength,
      field_found saltAt.tail (by omega)]
    rw [show pos + 5 + salt.length = window.stop by omega]
  case caa flags tag value =>
    have tagShort := wellFormed.bounded
    simp only [RData.Bounded] at tagShort
    rw [length_charString tagShort] at found
    obtain ⟨flagsAt, tagAt, valueAt, reached⟩ := found
    obtain ⟨tagLen, tagLength, tagAt⟩ := charString_found tagShort tagAt
    rw [show pos + (1 + (tag.length + 1)) = pos + 2 + tag.length by omega] at valueAt
    simp only [parseCaa, need_of_le (show 2 ≤ window.rdlen by omega), ok_bind,
      bAt_found flagsAt (by omega), bAt_found tagAt (by omega), tagLength,
      field_found tagAt.tail (by omega), tail_found valueAt (by omega)]
  case tlsa usage selector matchingType data =>
    obtain ⟨usageAt, selectorAt, matchingTypeAt, dataAt, reached⟩ := found
    simp only [parseTlsa, need_of_le (show 3 ≤ window.rdlen by omega), ok_bind,
      bAt_found usageAt (by omega), bAt_found selectorAt (by omega),
      bAt_found matchingTypeAt (by omega), tail_found dataAt (by omega)]
  case svcb priority target params =>
    obtain ⟨priorityAt, next, _, decoded, paramsAt⟩ := found
    have fuelled := length_le_of_found svcParam (fun _ => by simp [svcParam, be16])
      paramsAt
    have inside := paramsAt.le
    simp only [parseSvcb, need_of_le (show 2 ≤ window.rdlen by omega), ok_bind,
      u16At_found priorityAt (by omega), readName_found decoded inside,
      svcParamLoop_found wellFormed.bounded (show params.length < window.rdlen + 1 by omega) paramsAt]
  case unknown data =>
    obtain ⟨dataAt, reached⟩ := found
    simp only [parseUnknown, tail_found dataAt reached, ok_bind]

end RdataWindow

/-! ## Records -/

namespace Record

/-- The record a re-encoding carries. -/
def normalize (record : Record) : Record := { record with rdata := record.rdata.normalize }

theorem parse_wellFormed {buf : Bytes} {pos next : Nat} {record : Record}
    (parsed : Record.parse buf pos = .ok (record, next)) : record.WellFormed :=
  ((Record.parse_upholds buf pos).returned parsed).2

/-- The raw payload of an OPT record fits its 16-bit length. -/
theorem length_of_parse_opt {buf : Bytes} {pos next : Nat} {record : Record}
    (parsed : Record.parse buf pos = .ok (record, next)) (pseudo : record.rrType = .OPT) :
    ∃ data, record.rdata = .unknown data ∧ data.length ≤ 65535 := by
  obtain ⟨taken, wellFormed⟩ := (Record.parse_upholds buf pos).returned parsed
  obtain ⟨data, payload⟩ : ∃ data, record.rdata = .unknown data :=
    wellFormed.unknown_of_opt pseudo
  have kept : .octets data ∈ record.rdata.leading := by
    rw [payload]
    exact List.mem_singleton_self _
  obtain ⟨header, rdlen, -, -, declared, last, read⟩ := taken.declared
  obtain ⟨p, later, ends, -⟩ := read.octets data kept
  have := rdlen.toNat_lt
  dsimp only at declared ends
  exact ⟨data, payload, by omega⟩

/-- What the record layer reads behind the header of a well-formed record. -/
theorem parse_found {record : Record} (wellFormed : record.WellFormed) {buf : Bytes}
    {pos p stop : Nat} {rdlen : UInt16} (decoded : Name.fromWire buf pos = .ok (record.name, p))
    (typeAt : Located buf p (be16 record.rrType.toU16))
    (classAt : Located buf (p + 2) (be16 record.rrClass.toU16))
    (ttlAt : Located buf (p + 4) (be32 record.ttl)) (rdlenAt : Located buf (p + 8) (be16 rdlen))
    (reached : stop = p + 10 + rdlen.toNat) (fits : stop ≤ buf.length)
    (found : PiecesAt buf (p + 10) record.rdata.pieces stop) :
    Record.parse buf pos = .ok (record.normalize, stop) := by
  simp only [Record.parse, decoded, ok_bind, u16At_located typeAt, u16At_located classAt,
    u32At_located ttlAt, u16At_located rdlenAt, mapError_ok,
    failIf_of_not (show ¬ p + 10 > buf.length by omega), ← reached,
    failIf_of_not (show ¬ stop > buf.length by omega)]
  have form := wellFormed.form
  split
  · rename_i pseudo
    -- An OPT record holds raw octets, so its payload is a single piece.
    obtain ⟨data, payload⟩ := wellFormed.unknown_of_opt (congrArg RrType.mk pseudo)
    rw [payload] at found
    obtain ⟨dataAt, length⟩ := found
    have width : rdlen.toNat = data.length := by
      simp only [PiecesAt] at length
      omega
    rw [width, sliceAt_located dataAt, mapError_ok, ok_bind, normalize, payload]
    rfl
  · have read : (RdataWindow.mk buf stop (stop - (p + 10))).parse (p + 10) record.rdata.form =
        .ok (record.rdata.normalize, stop) := RdataWindow.parse_found wellFormed.rdata found rfl
    simp only [RData.parse, failIf_of_not (show ¬ stop > buf.length by omega),
      failIf_of_not (show ¬ p + 10 > stop by omega), ok_bind, ← form, read]
    rfl

/-- A record is read back where it was written. -/
theorem toWire_appended {record : Record} (wellFormed : record.WellFormed) {sink after : Sink}
    (written : record.toWire sink = .ok after) :
    sink.Appended after fun buf pos stop =>
      Record.parse buf pos = .ok (record.normalize, stop) := by
  simp only [Record.toWire, bind_eq_ok, failIf_eq_ok] at written
  obtain ⟨_, short, _, _, returned⟩ := written
  cases returned
  have fixed := (((sink.name_appended wellFormed.name true).trans
    (Sink.extend_appended _ (be16 record.rrType.toU16))).trans
    (Sink.extend_appended _ (be16 record.rrClass.toU16))).trans
    (Sink.extend_appended _ (be32 record.ttl))
  generalize (((sink.name record.name true).extend (be16 record.rrType.toU16)).extend
    (be16 record.rrClass.toU16)).extend (be32 record.ttl) = header at *
  have payload := Sink.putAll_appended wellFormed.rdata.names (header.extend [0, 0])
  have grown := payload.length_le
  rw [← RData.toWire] at payload grown
  generalize record.rdata.toWire (header.extend [0, 0]) = last at *
  simp only [Sink.extend, List.length_append, List.length_cons, List.length_nil] at grown
  have rdlenAt : header.Appended
      { last with out := (overwrite last.out header.out.length
        (be16 (UInt16.ofNat (last.out.length - header.out.length - 2)))) } fun buf pos stop =>
        ∃ rdlen : UInt16, Located buf pos (be16 rdlen) ∧ stop = pos + 2 + rdlen.toNat ∧
          PiecesAt buf (pos + 2) record.rdata.pieces stop := by
    refine (payload.patched (be16 (UInt16.ofNat (last.out.length - header.out.length - 2)))
      rfl).imp fun buf _ found => ⟨_, found.1, ?_, found.2⟩
    rw [length_overwrite (by rw [length_be16]; omega), UInt16.toNat_ofNat']
    omega
  refine (fixed.trans rdlenAt).imp fun buf fits found => ?_
  obtain ⟨_, ⟨_, ⟨_, ⟨p, ⟨_, decoded⟩, typeAt, rfl⟩, classAt, rfl⟩, ttlAt, rfl⟩, rdlen, rdlenAt,
    reached, piecesAt⟩ := found
  exact parse_found wellFormed decoded typeAt classAt ttlAt rdlenAt reached fits piecesAt

end Record

end RecurseX
