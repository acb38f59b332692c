import RecurseX.Rdata.Basic

/-!
# Parsing stays in its record

A parser arm sees the whole message, because names may continue anywhere in it. Everything else
an arm returns stands inside its own RDATA: the fields one behind the other from its start on,
the window blocks of a type list behind them. `Upholds` carries that through every arm, with
what makes a payload writable again (`RData.WellFormed`), and with it that no arm returns an
internal error: no walk runs out of fuel and no octets are cut with another length than the one
asked for.
-/

namespace RecurseX

open Library Wire

/-! ## What a parser may return -/

namespace RData

/-- The parser arm a payload belongs to. -/
def form : RData → RdataForm
  | .a .. => .a
  | .aaaa .. => .aaaa
  | .cname .. => .cname
  | .dname .. => .dname
  | .ns .. => .ns
  | .ptr .. => .ptr
  | .mx .. => .mx
  | .soa .. => .soa
  | .txt .. => .txt
  | .srv .. => .srv
  | .naptr .. => .naptr
  | .ds .. => .ds
  | .dnskey .. => .dnskey
  | .rrsig .. => .rrsig
  | .nsec .. => .nsec
  | .nsec3 .. => .nsec3
  | .nsec3Param .. => .nsec3Param
  | .caa .. => .caa
  | .tlsa .. => .tlsa
  | .svcb .. => .svcb
  | .unknown .. => .unknown

/-- Strings fit their length octet, SvcParam values their length word. -/
def Bounded : RData → Prop
  | .txt strings => ∀ bytes ∈ strings, bytes.length ≤ 255
  | .naptr _ _ flags services regexp _ =>
      flags.length ≤ 255 ∧ services.length ≤ 255 ∧ regexp.length ≤ 255
  | .nsec3 _ _ _ salt nextHashed _ => salt.length ≤ 255 ∧ nextHashed.length ≤ 255
  | .nsec3Param _ _ _ salt => salt.length ≤ 255
  | .caa _ tag _ => tag.length ≤ 255
  | .svcb _ _ params => ∀ param ∈ params, param.2.length ≤ 65535
  | _ => True

/-- A payload some parser returned. -/
structure WellFormed (rdata : RData) : Prop where
  names : ∀ name allow, .name name allow ∈ rdata.pieces → name.Canonical
  bounded : rdata.Bounded

end RData

/-- A record some parser returned. -/
structure Record.WellFormed (record : Record) : Prop where
  name : record.name.Canonical
  form : record.rdata.form = record.rrType.rdataForm
  rdata : record.rdata.WellFormed

/-- The raw octets of an OPT record are all its payload. -/
theorem Record.WellFormed.unknown_of_opt {record : Record} (wellFormed : record.WellFormed)
    (pseudo : record.rrType = .OPT) : ∃ data, record.rdata = .unknown data := by
  have raw : record.rdata.form = .unknown := by
    rw [wellFormed.form, pseudo]
    rfl
  cases payload : record.rdata <;> simp [payload, RData.form] at raw ⊢

/-! ## Where a payload stands -/

/-- What a payload keeps of the message, up to the type list of an NSEC or NSEC3 record. -/
def RData.leading : RData → List Piece
  | .nsec next _ => [.name next false]
  | .nsec3 hashAlg flags iterations salt nextHashed _ =>
      [.octets [hashAlg], .octets [flags], .octets (be16 iterations), .octets (charString salt),
        .octets (charString nextHashed)]
  | rdata => rdata.pieces

/-- The type list of an NSEC or NSEC3 record. -/
def RData.typeList : RData → Option (List RrType)
  | .nsec _ types => some types
  | .nsec3 _ _ _ _ _ types => some types
  | _ => none

/-- Window blocks from `pos` to `next` list `types`. -/
def TypesAt (buf : Bytes) (pos : Nat) (types : List RrType) (next : Nat) : Prop :=
  ∃ blocks : List (UInt8 × Bytes), Located buf pos (blocks.flatMap windowBlock) ∧
    pos + (blocks.flatMap windowBlock).length = next ∧
    types = blocks.flatMap fun block => windowTypes block.1 block.2

/-- The payload is what stands in the message from `pos` to `next`. -/
def RData.StandsAt (buf : Bytes) (pos next : Nat) (rdata : RData) : Prop :=
  ∃ mid, PiecesAt buf pos rdata.leading mid ∧
    match rdata.typeList with
    | none => mid = next
    | some types => TypesAt buf mid types next

/-- The octets stand somewhere between `pos` and `stop`. -/
def Within (buf : Bytes) (pos stop : Nat) (bytes : Bytes) : Prop :=
  ∃ p, pos ≤ p ∧ p + bytes.length ≤ stop ∧ Located buf p bytes

theorem TypesAt.le {buf : Bytes} {pos next : Nat} {types : List RrType}
    (listed : TypesAt buf pos types next) : pos ≤ next := by
  obtain ⟨blocks, -, rfl, -⟩ := listed
  exact Nat.le_add_right _ _

theorem TypesAt.nil {buf : Bytes} {pos : Nat} (inside : pos ≤ buf.length) : TypesAt buf pos [] pos :=
  ⟨[], .nil inside, rfl, rfl⟩

/-- One more window block in front. -/
theorem TypesAt.cons {buf bytes : Bytes} {window len : UInt8} {pos next : Nat}
    {types : List RrType} (windowAt : buf[pos]? = some window) (lenAt : buf[pos + 1]? = some len)
    (bytesAt : Located buf (pos + 2) bytes) (length : bytes.length = len.toNat)
    (rest : TypesAt buf (pos + 2 + len.toNat) types next) :
    TypesAt buf pos (windowTypes window bytes ++ types) next := by
  obtain ⟨blocks, blocksAt, rfl, rfl⟩ := rest
  refine ⟨(window, bytes) :: blocks, ?_, ?_, rfl⟩
  · have header : Located buf pos [window, len] :=
      Located.append_iff.mpr ⟨.singleton windowAt, .singleton lenAt⟩
    have block : Located buf pos (window :: len :: bytes) :=
      Located.append_iff.mpr ⟨header, bytesAt⟩
    have ends : pos + (window :: len :: bytes).length = pos + 2 + len.toNat := by
      simp only [List.length_cons, length]
      omega
    rw [List.flatMap_cons, windowBlock, length, UInt8.ofNat_toNat]
    exact Located.append_iff.mpr ⟨block, by rwa [ends]⟩
  · simp only [List.flatMap_cons, windowBlock, List.length_append, List.length_cons, length]
    omega

/-- The block walk of a type bitmap ends at the end of the RDATA. -/
theorem parseTypeBitmapLoop_upholds {buf : Bytes} {stop : Nat} (inside : stop ≤ buf.length)
    (fuel : Nat) : ∀ {pos : Nat}, pos ≤ stop → stop - pos < fuel →
      Upholds Error.IsInternal
        (fun result => TypesAt buf pos result.1 result.2 ∧ result.2 = stop)
        (parseTypeBitmapLoop buf stop fuel pos) := by
  induction fuel with
  | zero =>
      intro pos _ fuelled
      omega
  | succ fuel inductionHypothesis =>
      intro pos before fuelled
      rw [parseTypeBitmapLoop]
      split
      · refine upholds_failIf.bind fun _ _ => ?_
        refine (upholds_mapError fun _ => byteAt_eq_ok.mp).bind fun window windowAt => ?_
        refine (upholds_mapError fun _ => byteAt_eq_ok.mp).bind fun len lenAt => ?_
        refine upholds_failIf.bind fun _ sized => ?_
        refine (upholds_mapError fun _ => sliceAt_eq_ok.mp).bind fun bytes bytesAt => ?_
        refine (inductionHypothesis (by omega) (by omega)).bind ?_
        rintro ⟨types, next⟩ ⟨listed, reached⟩
        exact .ok ⟨.cons windowAt lenAt bytesAt.1 bytesAt.2 listed, reached⟩
      · have reached : pos = stop := by omega
        exact .ok ⟨.nil (by omega), reached⟩

theorem parseTypeBitmap_upholds {buf : Bytes} {pos stop : Nat} (inside : stop ≤ buf.length)
    (before : pos ≤ stop) : Upholds Error.IsInternal
      (fun result => TypesAt buf pos result.1 result.2 ∧ result.2 = stop)
      (parseTypeBitmap buf pos stop) :=
  parseTypeBitmapLoop_upholds inside _ before (Nat.lt_succ_self _)

namespace RdataWindow

variable {window : RdataWindow} {p pos : Nat}

/-! ## The shared reads -/

theorem need_upholds {count : Nat} :
    Upholds Error.IsInternal (fun _ => count ≤ window.rdlen) (window.need count) :=
  upholds_failIf.imp fun _ => Nat.le_of_not_lt

theorem u16At_upholds : Upholds Error.IsInternal
    (fun value => Located window.buf p (be16 value) ∧ p + 2 ≤ window.stop) (window.u16At p) := by
  refine upholds_failIf.bind fun _ inside => ?_
  refine (Upholds.of_avoids (avoids_u16At (Error.not_isInternal_wire _))).imp fun value read => ?_
  exact ⟨u16At_eq_ok.mp read, by omega⟩

theorem u32At_upholds : Upholds Error.IsInternal
    (fun value => Located window.buf p (be32 value) ∧ p + 4 ≤ window.stop) (window.u32At p) := by
  refine upholds_failIf.bind fun _ inside => ?_
  refine (Upholds.of_avoids (avoids_u32At (Error.not_isInternal_wire _))).imp fun value read => ?_
  exact ⟨u32At_eq_ok.mp read, by omega⟩

theorem bAt_upholds : Upholds Error.IsInternal
    (fun byte => Located window.buf p [byte] ∧ p + 1 ≤ window.stop) (window.bAt p) := by
  refine upholds_failIf.bind fun _ inside => ?_
  refine upholds_mapError fun byte read => ?_
  exact ⟨.singleton (byteAt_eq_ok.mp read), by omega⟩

theorem tail_upholds : Upholds Error.IsInternal
    (fun bytes => Located window.buf p bytes ∧ p + bytes.length = window.stop) (window.tail p) := by
  refine upholds_failIf.bind fun _ inside => ?_
  refine upholds_mapError fun bytes read => ?_
  obtain ⟨located, length⟩ := sliceAt_eq_ok.mp read
  exact ⟨located, by omega⟩

theorem field_upholds {length : Nat} {truncated : String} : Upholds Error.IsInternal
    (fun bytes => Located window.buf p bytes ∧ bytes.length = length ∧ p + length ≤ window.stop)
    (window.field p length truncated) := by
  refine upholds_failIf.bind fun _ inside => ?_
  refine upholds_mapError fun bytes read => ?_
  obtain ⟨located, length⟩ := sliceAt_eq_ok.mp read
  exact ⟨located, length, by omega⟩

theorem readName_upholds : Upholds Error.IsInternal
    (fun result => Name.fromWire window.buf p = .ok result ∧ p < result.2 ∧
      result.2 ≤ window.stop) (window.readName p) := by
  refine (Upholds.of_avoids (fromWire_avoids _ _)).bind ?_
  rintro ⟨name, next⟩ decoded
  refine upholds_failIf.bind fun _ inside => ?_
  exact .ok ⟨decoded, fromWire_advances decoded, Nat.le_of_not_lt inside⟩

theorem nameExact_upholds : Upholds Error.IsInternal
    (fun result => Name.fromWire window.buf p = .ok result ∧ result.2 = window.stop)
    (window.nameExact p) := by
  refine readName_upholds.bind ?_
  rintro ⟨name, next⟩ ⟨decoded, -, -⟩
  refine upholds_failIf.bind fun _ reached => ?_
  exact .ok ⟨decoded, not_not.mp reached⟩

/-- A string in front of which its length octet stands. -/
theorem charString_of_le {bytes : Bytes} (short : bytes.length ≤ 255) :
    charString bytes = UInt8.ofNat bytes.length :: bytes ∧
      (UInt8.ofNat bytes.length).toNat = bytes.length := by
  rw [charString, Nat.min_eq_left short, capped_of_le short, UInt8.toNat_ofNat']
  exact ⟨rfl, by omega⟩

theorem length_charString {bytes : Bytes} (short : bytes.length ≤ 255) :
    (charString bytes).length = bytes.length + 1 := by
  rw [(charString_of_le short).1, List.length_cons]

/-- A length octet and what it counts are a written string. -/
theorem charString_located {len : UInt8} {bytes : Bytes} (lenAt : Located window.buf p [len])
    (bytesAt : Located window.buf (p + 1) bytes) (length : bytes.length = len.toNat) :
    Located window.buf p (charString bytes) ∧
      p + (charString bytes).length = p + 1 + len.toNat ∧ bytes.length ≤ 255 := by
  have short : bytes.length ≤ 255 := by
    have := len.toNat_lt
    omega
  rw [length_charString short, (charString_of_le short).1, length, UInt8.ofNat_toNat]
  exact ⟨Located.append_iff.mpr ⟨lenAt, bytesAt⟩, by omega, by omega⟩

theorem readCharString_upholds : Upholds Error.IsInternal
    (fun result => Located window.buf p (charString result.1) ∧
      p + (charString result.1).length = result.2 ∧ result.1.length ≤ 255)
    (window.readCharString p) := by
  refine upholds_failIf.bind fun _ _ => ?_
  refine (upholds_mapError fun _ => byteAt_eq_ok.mp).bind fun len lenAt => ?_
  refine field_upholds.bind ?_
  rintro bytes ⟨bytesAt, length, -⟩
  exact .ok (charString_located (.singleton lenAt) bytesAt length)

/-! ## The loops -/

theorem txtLoop_upholds (fuel : Nat) : ∀ {pos : Nat}, pos ≤ window.stop →
    window.stop - pos < fuel → Upholds Error.IsInternal
      (fun result => PiecesAt window.buf pos
        (result.1.map fun bytes => .octets (charString bytes)) result.2 ∧
        result.2 = window.stop ∧ ∀ bytes ∈ result.1, bytes.length ≤ 255)
      (window.txtLoop fuel pos) := by
  induction fuel with
  | zero =>
      intro pos _ fuelled
      omega
  | succ fuel inductionHypothesis =>
      intro pos before fuelled
      rw [txtLoop]
      split
      · refine (upholds_mapError fun _ => byteAt_eq_ok.mp).bind fun len lenAt => ?_
        refine field_upholds.bind ?_
        rintro bytes ⟨bytesAt, length, inside⟩
        obtain ⟨located, ends, short⟩ := charString_located (.singleton lenAt) bytesAt length
        refine (inductionHypothesis inside (by omega)).bind ?_
        rintro ⟨strings, next⟩ ⟨found, reached, others⟩
        exact .ok ⟨.octets located ends found, reached, List.forall_mem_cons.mpr ⟨short, others⟩⟩
      · have reached : pos = window.stop := by omega
        exact .ok ⟨rfl, reached, by simp⟩

/-- A key, a length and what it counts are a written SvcParam. -/
theorem svcParam_located {key len : UInt16} {value : Bytes}
    (keyAt : Located window.buf p (be16 key)) (lenAt : Located window.buf (p + 2) (be16 len))
    (valueAt : Located window.buf (p + 4) value) (length : value.length = len.toNat) :
    Located window.buf p (svcParam (key, value)) ∧
      p + (svcParam (key, value)).length = p + 4 + len.toNat ∧ value.length ≤ 65535 := by
  have short : value.length ≤ 0xffff := by
    have := len.toNat_lt
    omega
  have written : svcParam (key, value) = be16 key ++ be16 len ++ value := by
    rw [svcParam, capped_of_le short, Nat.min_eq_left short, length, UInt16.ofNat_toNat]
  rw [written]
  refine ⟨Located.append_iff.mpr ⟨Located.append_iff.mpr ⟨keyAt, lenAt⟩, valueAt⟩, ?_, short⟩
  simp only [List.length_append, length_be16, length]
  omega

theorem svcParamLoop_upholds (fuel : Nat) : ∀ {pos : Nat}, pos ≤ window.stop →
    window.stop - pos < fuel → Upholds Error.IsInternal
      (fun result => PiecesAt window.buf pos
        (result.1.map fun param => .octets (svcParam param)) result.2 ∧
        result.2 = window.stop ∧ ∀ param ∈ result.1, param.2.length ≤ 65535)
      (window.svcParamLoop fuel pos) := by
  induction fuel with
  | zero =>
      intro pos _ fuelled
      omega
  | succ fuel inductionHypothesis =>
      intro pos before fuelled
      rw [svcParamLoop]
      split
      · refine upholds_failIf.bind fun _ _ => ?_
        refine u16At_upholds.bind fun key keyAt => u16At_upholds.bind fun len lenAt => ?_
        refine field_upholds.bind ?_
        rintro value ⟨valueAt, length, inside⟩
        obtain ⟨located, ends, short⟩ := svcParam_located keyAt.1 lenAt.1 valueAt length
        refine (inductionHypothesis inside (by omega)).bind ?_
        rintro ⟨params, next⟩ ⟨found, reached, others⟩
        exact .ok ⟨.octets located ends found, reached, List.forall_mem_cons.mpr ⟨short, others⟩⟩
      · have reached : pos = window.stop := by omega
        exact .ok ⟨rfl, reached, by simp⟩

/-! ## The arms -/

/-- An arm is called at `pos` with the length of what is left, inside the message. -/
structure Opens (window : RdataWindow) (pos : Nat) : Prop where
  inside : window.stop ≤ window.buf.length
  length : pos + window.rdlen = window.stop

/-- What the arm of `form`, called at `pos`, may return: a payload that ends inside the RDATA. -/
structure Takes (window : RdataWindow) (pos : Nat) (form : RdataForm) (result : RData × Nat) :
    Prop where
  form : result.1.form = form
  bounded : result.1.Bounded
  stands : result.1.StandsAt window.buf pos result.2
  inside : result.2 ≤ window.stop

theorem Takes.of_pieces {rdata : RData} {form : RdataForm} {next : Nat}
    (formed : rdata.form = form) (bounded : rdata.Bounded) (plain : rdata.typeList = none)
    (found : PiecesAt window.buf pos rdata.leading next) (inside : next ≤ window.stop) :
    window.Takes pos form (rdata, next) := by
  refine ⟨formed, bounded, ⟨next, found, ?_⟩, inside⟩
  rw [plain]

theorem parseA_upholds (opens : window.Opens pos) :
    Upholds Error.IsInternal (window.Takes pos .a) (window.parseA pos) := by
  refine need_upholds.bind fun _ enough => ?_
  refine (upholds_mapError fun _ => arrayAt_eq_ok.mp).bind fun ip ipAt => ?_
  have := opens.length
  exact .ok (.of_pieces rfl trivial rfl (.octets ipAt (by rw [ip.2]) rfl) (by omega))

theorem parseAaaa_upholds (opens : window.Opens pos) :
    Upholds Error.IsInternal (window.Takes pos .aaaa) (window.parseAaaa pos) := by
  refine need_upholds.bind fun _ enough => ?_
  refine (upholds_mapError fun _ => arrayAt_eq_ok.mp).bind fun ip ipAt => ?_
  have := opens.length
  exact .ok (.of_pieces rfl trivial rfl (.octets ipAt (by rw [ip.2]) rfl) (by omega))

/-- The arms that hold one name. -/
theorem parseName_upholds {build : Name → RData} {form : RdataForm}
    (formed : ∀ name, (build name).form = form) (bounded : ∀ name, (build name).Bounded)
    (plain : ∀ name, (build name).typeList = none)
    (single : ∀ name, (build name).leading = [.name name true]) :
    Upholds Error.IsInternal (window.Takes pos form) (window.parseName build pos) := by
  refine nameExact_upholds.bind ?_
  rintro ⟨name, next⟩ ⟨decoded, reached⟩
  refine .ok (.of_pieces (formed name) (bounded name) (plain name) ?_ (Nat.le_of_eq reached))
  rw [single]
  exact .name decoded rfl

theorem parseMx_upholds : Upholds Error.IsInternal (window.Takes pos .mx) (window.parseMx pos) := by
  refine need_upholds.bind fun _ _ => u16At_upholds.bind fun preference preferenceAt => ?_
  refine nameExact_upholds.bind ?_
  rintro ⟨exchange, next⟩ ⟨decoded, reached⟩
  exact .ok (.of_pieces rfl trivial rfl (.octets preferenceAt.1 rfl (.name decoded rfl)) (Nat.le_of_eq reached))

theorem parseSoa_upholds : Upholds Error.IsInternal (window.Takes pos .soa) (window.parseSoa pos) := by
  refine need_upholds.bind fun _ _ => readName_upholds.bind ?_
  rintro ⟨mname, mid⟩ ⟨mnameRead, -, -⟩
  refine readName_upholds.bind ?_
  rintro ⟨rname, fixed⟩ ⟨rnameRead, -, -⟩
  refine upholds_failIf.bind fun _ inside => ?_
  refine u32At_upholds.bind fun serial serialAt => u32At_upholds.bind fun refresh refreshAt => ?_
  refine u32At_upholds.bind fun retry retryAt => u32At_upholds.bind fun expire expireAt => ?_
  refine u32At_upholds.bind fun minimum minimumAt => ?_
  exact .ok (.of_pieces rfl trivial rfl (.name mnameRead <| .name rnameRead <| .octets serialAt.1 rfl <|
    .octets refreshAt.1 rfl <| .octets retryAt.1 rfl <| .octets expireAt.1 rfl <|
    .octets minimumAt.1 rfl rfl) (Nat.le_of_not_lt inside))

theorem parseTxt_upholds (opens : window.Opens pos) :
    Upholds Error.IsInternal (window.Takes pos .txt) (window.parseTxt pos) := by
  have length := opens.length
  refine (txtLoop_upholds _ (by omega) (by omega)).bind ?_
  rintro ⟨strings, next⟩ ⟨found, reached, short⟩
  exact .ok (.of_pieces rfl short rfl found (Nat.le_of_eq reached))

theorem parseSrv_upholds : Upholds Error.IsInternal (window.Takes pos .srv) (window.parseSrv pos) := by
  refine need_upholds.bind fun _ _ => u16At_upholds.bind fun priority priorityAt => ?_
  refine u16At_upholds.bind fun weight weightAt => u16At_upholds.bind fun port portAt => ?_
  refine nameExact_upholds.bind ?_
  rintro ⟨target, next⟩ ⟨decoded, reached⟩
  exact .ok (.of_pieces rfl trivial rfl (.octets priorityAt.1 rfl <| .octets weightAt.1 rfl <|
    .octets portAt.1 rfl <| .name decoded rfl) (Nat.le_of_eq reached))

theorem parseNaptr_upholds :
    Upholds Error.IsInternal (window.Takes pos .naptr) (window.parseNaptr pos) := by
  refine need_upholds.bind fun _ _ => u16At_upholds.bind fun order orderAt => ?_
  refine u16At_upholds.bind fun preference preferenceAt => readCharString_upholds.bind ?_
  rintro ⟨flags, flagsEnd⟩ ⟨flagsAt, flagsEnds, flagsShort⟩
  refine readCharString_upholds.bind ?_
  rintro ⟨services, servicesEnd⟩ ⟨servicesAt, servicesEnds, servicesShort⟩
  refine readCharString_upholds.bind ?_
  rintro ⟨regexp, regexpEnd⟩ ⟨regexpAt, regexpEnds, regexpShort⟩
  refine nameExact_upholds.bind ?_
  rintro ⟨replacement, next⟩ ⟨decoded, reached⟩
  exact .ok (.of_pieces rfl ⟨flagsShort, servicesShort, regexpShort⟩ rfl (.octets orderAt.1 rfl <|
    .octets preferenceAt.1 rfl <| .octets flagsAt flagsEnds <|
    .octets servicesAt servicesEnds <| .octets regexpAt regexpEnds <| .name decoded rfl)
    (Nat.le_of_eq reached))

theorem parseDs_upholds : Upholds Error.IsInternal (window.Takes pos .ds) (window.parseDs pos) := by
  refine need_upholds.bind fun _ _ => u16At_upholds.bind fun keyTag keyTagAt => ?_
  refine bAt_upholds.bind fun algorithm algorithmAt => ?_
  refine bAt_upholds.bind fun digestType digestTypeAt => ?_
  refine upholds_failIf.bind fun _ _ => ?_
  refine tail_upholds.bind fun digest digestAt => ?_
  exact .ok (.of_pieces rfl trivial rfl (.octets keyTagAt.1 rfl <| .octets algorithmAt.1 rfl <|
    .octets digestTypeAt.1 rfl <| .octets digestAt.1 digestAt.2 rfl) (Nat.le_refl _))

theorem parseDnskey_upholds :
    Upholds Error.IsInternal (window.Takes pos .dnskey) (window.parseDnskey pos) := by
  refine need_upholds.bind fun _ _ => u16At_upholds.bind fun flags flagsAt => ?_
  refine bAt_upholds.bind fun protocol protocolAt => ?_
  refine bAt_upholds.bind fun algorithm algorithmAt => ?_
  refine upholds_failIf.bind fun _ _ => ?_
  refine tail_upholds.bind fun publicKey publicKeyAt => ?_
  exact .ok (.of_pieces rfl trivial rfl (.octets flagsAt.1 rfl <| .octets protocolAt.1 rfl <|
    .octets algorithmAt.1 rfl <| .octets publicKeyAt.1 publicKeyAt.2 rfl) (Nat.le_refl _))

theorem parseRrsig_upholds :
    Upholds Error.IsInternal (window.Takes pos .rrsig) (window.parseRrsig pos) := by
  refine need_upholds.bind fun _ _ => u16At_upholds.bind fun typeCovered typeAt => ?_
  refine bAt_upholds.bind fun algorithm algorithmAt => bAt_upholds.bind fun labels labelsAt => ?_
  refine u32At_upholds.bind fun originalTtl ttlAt => ?_
  refine u32At_upholds.bind fun expiration expirationAt => ?_
  refine u32At_upholds.bind fun inception inceptionAt => ?_
  refine u16At_upholds.bind fun keyTag keyTagAt => readName_upholds.bind ?_
  rintro ⟨signer, mid⟩ ⟨decoded, -, -⟩
  refine upholds_failIf.bind fun _ _ => ?_
  refine tail_upholds.bind fun signature signatureAt => ?_
  exact .ok (.of_pieces rfl trivial rfl (.octets typeAt.1 rfl <| .octets algorithmAt.1 rfl <|
    .octets labelsAt.1 rfl <| .octets ttlAt.1 rfl <| .octets expirationAt.1 rfl <|
    .octets inceptionAt.1 rfl <| .octets keyTagAt.1 rfl <| .name decoded <|
    .octets signatureAt.1 signatureAt.2 rfl) (Nat.le_refl _))

theorem parseNsec_upholds (opens : window.Opens pos) :
    Upholds Error.IsInternal (window.Takes pos .nsec) (window.parseNsec pos) := by
  refine readName_upholds.bind ?_
  rintro ⟨next, mid⟩ ⟨decoded, -, before⟩
  refine (parseTypeBitmap_upholds opens.inside before).bind ?_
  rintro ⟨types, stop⟩ ⟨listed, reached⟩
  exact .ok ⟨rfl, trivial, ⟨mid, .name decoded rfl, listed⟩, Nat.le_of_eq reached⟩

theorem parseNsec3_upholds (opens : window.Opens pos) :
    Upholds Error.IsInternal (window.Takes pos .nsec3) (window.parseNsec3 pos) := by
  refine need_upholds.bind fun _ _ => bAt_upholds.bind fun hashAlg hashAlgAt => ?_
  refine bAt_upholds.bind fun flags flagsAt => u16At_upholds.bind fun iterations iterationsAt => ?_
  refine bAt_upholds.bind fun saltLen saltLenAt => field_upholds.bind ?_
  rintro salt ⟨saltAt, saltLength, -⟩
  obtain ⟨saltLocated, saltEnds, saltShort⟩ := charString_located saltLenAt.1 saltAt saltLength
  refine upholds_failIf.bind fun _ _ => ?_
  refine bAt_upholds.bind fun nextLen nextLenAt => field_upholds.bind ?_
  rintro nextHashed ⟨nextAt, nextLength, before⟩
  obtain ⟨nextLocated, nextEnds, nextShort⟩ := charString_located nextLenAt.1 nextAt nextLength
  refine (parseTypeBitmap_upholds opens.inside before).bind ?_
  rintro ⟨types, stop⟩ ⟨listed, reached⟩
  exact .ok ⟨rfl, ⟨saltShort, nextShort⟩, ⟨_, .octets hashAlgAt.1 rfl <| .octets flagsAt.1 rfl <|
    .octets iterationsAt.1 rfl <| .octets saltLocated saltEnds <|
    .octets nextLocated nextEnds rfl, listed⟩, Nat.le_of_eq reached⟩

theorem parseNsec3Param_upholds :
    Upholds Error.IsInternal (window.Takes pos .nsec3Param) (window.parseNsec3Param pos) := by
  refine need_upholds.bind fun _ _ => bAt_upholds.bind fun hashAlg hashAlgAt => ?_
  refine bAt_upholds.bind fun flags flagsAt => u16At_upholds.bind fun iterations iterationsAt => ?_
  refine bAt_upholds.bind fun saltLen saltLenAt => field_upholds.bind ?_
  rintro salt ⟨saltAt, saltLength, inside⟩
  obtain ⟨saltLocated, saltEnds, saltShort⟩ := charString_located saltLenAt.1 saltAt saltLength
  exact .ok (.of_pieces rfl saltShort rfl (.octets hashAlgAt.1 rfl <| .octets flagsAt.1 rfl <|
    .octets iterationsAt.1 rfl <| .octets saltLocated saltEnds rfl) inside)

theorem parseCaa_upholds : Upholds Error.IsInternal (window.Takes pos .caa) (window.parseCaa pos) := by
  refine need_upholds.bind fun _ _ => bAt_upholds.bind fun flags flagsAt => ?_
  refine bAt_upholds.bind fun tagLen tagLenAt => field_upholds.bind ?_
  rintro tag ⟨tagAt, tagLength, -⟩
  obtain ⟨tagLocated, tagEnds, tagShort⟩ := charString_located tagLenAt.1 tagAt tagLength
  refine tail_upholds.bind fun value valueAt => ?_
  exact .ok (.of_pieces rfl tagShort rfl (.octets flagsAt.1 rfl <| .octets tagLocated tagEnds <|
    .octets valueAt.1 valueAt.2 rfl) (Nat.le_refl _))

theorem parseTlsa_upholds : Upholds Error.IsInternal (window.Takes pos .tlsa) (window.parseTlsa pos) := by
  refine need_upholds.bind fun _ _ => bAt_upholds.bind fun usage usageAt => ?_
  refine bAt_upholds.bind fun selector selectorAt => ?_
  refine bAt_upholds.bind fun matchingType matchingTypeAt => tail_upholds.bind fun data dataAt => ?_
  exact .ok (.of_pieces rfl trivial rfl (.octets usageAt.1 rfl <| .octets selectorAt.1 rfl <|
    .octets matchingTypeAt.1 rfl <| .octets dataAt.1 dataAt.2 rfl) (Nat.le_refl _))

theorem parseSvcb_upholds (opens : window.Opens pos) :
    Upholds Error.IsInternal (window.Takes pos .svcb) (window.parseSvcb pos) := by
  have length := opens.length
  refine need_upholds.bind fun _ _ => u16At_upholds.bind fun priority priorityAt => ?_
  refine readName_upholds.bind ?_
  rintro ⟨target, mid⟩ ⟨decoded, advanced, before⟩
  dsimp only at advanced before
  refine (svcParamLoop_upholds _ before (by omega)).bind ?_
  rintro ⟨params, next⟩ ⟨found, reached, short⟩
  exact .ok (.of_pieces rfl short rfl (.octets priorityAt.1 rfl <| .name decoded found)
    (Nat.le_of_eq reached))

theorem parseUnknown_upholds :
    Upholds Error.IsInternal (window.Takes pos .unknown) (window.parseUnknown pos) :=
  tail_upholds.bind fun _ dataAt =>
    .ok (.of_pieces rfl trivial rfl (.octets dataAt.1 dataAt.2 rfl) (Nat.le_refl _))

/-- Every arm returns a payload that stands where the arm was called and ends inside the RDATA. -/
theorem parse_upholds (opens : window.Opens pos) (form : RdataForm) :
    Upholds Error.IsInternal (window.Takes pos form) (window.parse pos form) := by
  cases form with
  | a => exact parseA_upholds opens
  | aaaa => exact parseAaaa_upholds opens
  | cname | dname | ns | ptr =>
      exact parseName_upholds (fun _ => rfl) (fun _ => trivial) (fun _ => rfl) (fun _ => rfl)
  | mx => exact parseMx_upholds
  | soa => exact parseSoa_upholds
  | txt => exact parseTxt_upholds opens
  | srv => exact parseSrv_upholds
  | naptr => exact parseNaptr_upholds
  | ds => exact parseDs_upholds
  | dnskey => exact parseDnskey_upholds
  | rrsig => exact parseRrsig_upholds
  | nsec => exact parseNsec_upholds opens
  | nsec3 => exact parseNsec3_upholds opens
  | nsec3Param => exact parseNsec3Param_upholds
  | caa => exact parseCaa_upholds
  | tlsa => exact parseTlsa_upholds
  | svcb => exact parseSvcb_upholds opens
  | unknown => exact parseUnknown_upholds

end RdataWindow

/-! ## Whole records -/

/-- What parsing a payload between `pos` and `stop` may return with the new cursor: the cursor is
between the two, and so is every octet of the payload that is not of a name. -/
structure RData.TakenFrom (buf : Bytes) (pos stop : Nat) (result : RData × Nat) : Prop where
  inBuffer : stop ≤ buf.length
  cursor : pos ≤ result.2 ∧ result.2 ≤ stop
  stands : result.1.StandsAt buf pos result.2
  octets : ∀ bytes, .octets bytes ∈ result.1.leading → Within buf pos stop bytes
  types : ∀ types, result.1.typeList = some types → ∃ blocks : List (UInt8 × Bytes),
    Within buf pos stop (blocks.flatMap windowBlock) ∧
      types = blocks.flatMap fun block => windowTypes block.1 block.2

/-- What parsing a record at `pos` may return with the new cursor: the cursor is where the RDATA
ends that the header declares, and the payload is taken from there. -/
structure Record.TakenFrom (buf : Bytes) (pos : Nat) (result : Record × Nat) : Prop where
  advances : pos < result.2
  inBuffer : result.2 ≤ buf.length
  declared : ∃ (header : Nat) (rdlen : UInt16), Name.fromWire buf pos = .ok (result.1.name, header) ∧
    Located buf header (be16 result.1.rrType.toU16 ++ be16 result.1.rrClass.toU16 ++
      be32 result.1.ttl ++ be16 rdlen) ∧
    result.2 = header + 10 + rdlen.toNat ∧
    ∃ last, RData.TakenFrom buf (header + 10) result.2 (result.1.rdata, last)

theorem RData.TakenFrom.of_standsAt {buf : Bytes} {pos next stop : Nat} {rdata : RData}
    (inBuffer : stop ≤ buf.length) (stands : rdata.StandsAt buf pos next) (inside : next ≤ stop) :
    RData.TakenFrom buf pos stop (rdata, next) := by
  have parts := stands
  obtain ⟨mid, found, closed⟩ := parts
  have forward := found.le
  cases listed : rdata.typeList with
  | none =>
      rw [listed] at closed
      obtain rfl := closed
      refine ⟨inBuffer, ⟨forward, inside⟩, stands, fun bytes member => ?_, fun types some => ?_⟩
      · obtain ⟨p, later, ends, located⟩ := found.within member
        exact ⟨p, later, by omega, located⟩
      · rw [listed] at some
        cases some
  | some types =>
      rw [listed] at closed
      have further := TypesAt.le closed
      refine ⟨inBuffer, ⟨by omega, inside⟩, stands, fun bytes member => ?_, fun others some => ?_⟩
      · obtain ⟨p, later, ends, located⟩ := found.within member
        exact ⟨p, later, by omega, located⟩
      · obtain ⟨blocks, located, rfl, rfl⟩ := closed
        rw [listed] at some
        cases some
        exact ⟨blocks, ⟨mid, forward, inside, located⟩, rfl⟩

/-- Every name of a payload is one in front of its type list. -/
theorem RData.name_mem_leading {rdata : RData} {name : Name} {allow : Bool}
    (member : .name name allow ∈ rdata.pieces) : .name name allow ∈ rdata.leading := by
  cases rdata with
  | nsec next types => simpa [RData.pieces, RData.leading] using member
  | nsec3 => simp [RData.pieces] at member
  | _ => exact member

theorem RdataWindow.Takes.wellFormed {window : RdataWindow} {pos : Nat} {form : RdataForm}
    {result : RData × Nat} (takes : window.Takes pos form result) : result.1.WellFormed := by
  obtain ⟨mid, found, -⟩ := takes.stands
  refine ⟨fun name allow member => ?_, takes.bounded⟩
  obtain ⟨p, next, decoded⟩ := found.decoded (RData.name_mem_leading member)
  exact fromWire_domainName decoded

theorem RData.parse_upholds (buf : Bytes) (pos stop : Nat) (rrType : RrType) :
    Upholds Error.IsInternal (fun result => RData.TakenFrom buf pos stop result ∧
      result.1.form = rrType.rdataForm ∧ result.1.WellFormed)
      (RData.parse buf pos stop rrType) := by
  refine upholds_failIf.bind fun _ inBuffer => ?_
  refine upholds_failIf.bind fun _ before => ?_
  have within := Nat.le_of_not_lt inBuffer
  have opens : RdataWindow.Opens ⟨buf, stop, stop - pos⟩ pos :=
    ⟨within, Nat.add_sub_of_le (Nat.le_of_not_lt before)⟩
  refine (RdataWindow.parse_upholds opens _).imp ?_
  rintro ⟨rdata, next⟩ takes
  exact ⟨.of_standsAt within takes.stands takes.inside, takes.form, takes.wellFormed⟩

theorem Record.parse_upholds (buf : Bytes) (pos : Nat) :
    Upholds Error.IsInternal (fun result => Record.TakenFrom buf pos result ∧ result.1.WellFormed)
      (Record.parse buf pos) := by
  refine (Upholds.of_avoids (fromWire_avoids _ _)).bind ?_
  rintro ⟨name, p⟩ decoded
  have advanced := fromWire_advances decoded
  have canonical := fromWire_domainName decoded
  refine upholds_failIf.bind fun _ _ => ?_
  refine (upholds_mapError fun _ => u16At_eq_ok.mp).bind fun rrType typeAt => ?_
  refine (upholds_mapError fun _ => u16At_eq_ok.mp).bind fun rrClass classAt => ?_
  refine (upholds_mapError fun _ => u32At_eq_ok.mp).bind fun ttl ttlAt => ?_
  refine (upholds_mapError fun _ => u16At_eq_ok.mp).bind fun rdlen rdlenAt => ?_
  refine upholds_failIf.bind fun _ inside => ?_
  have header : Located buf p (be16 rrType ++ be16 rrClass ++ be32 ttl ++ be16 rdlen) :=
    Located.append_iff.mpr ⟨Located.append_iff.mpr
      ⟨Located.append_iff.mpr ⟨typeAt, classAt⟩, ttlAt⟩, rdlenAt⟩
  have inBuffer := Nat.le_of_not_lt inside
  split
  · refine (upholds_mapError fun _ => sliceAt_eq_ok.mp).bind ?_
    rintro data ⟨dataAt, length⟩
    have ends : p + 10 + data.length = p + 10 + rdlen.toNat := by rw [length]
    have pseudo : (RrType.mk rrType).rdataForm = .unknown := by
      rw [‹rrType = _›]
      rfl
    exact .ok ⟨⟨by dsimp only; omega, inBuffer, p, rdlen, decoded, header, rfl, _,
      .of_standsAt inBuffer ⟨_, .octets dataAt ends rfl, rfl⟩ (Nat.le_refl _)⟩,
      canonical, pseudo.symm, by simp [RData.pieces], trivial⟩
  · refine (RData.parse_upholds _ _ _ _).bind ?_
    rintro ⟨rdata, last⟩ ⟨taken, form, wellFormed⟩
    exact .ok ⟨⟨by dsimp only; omega, inBuffer, p, rdlen, decoded, header, rfl, last, taken⟩,
      canonical, form, wellFormed⟩

/-- **RDATA parsing stays in its record.** Of what a payload keeps, all but the names comes from
its own RDATA; a record ends where its header says; and no error is an internal one. -/
theorem parse_staysInRecord (buf : Bytes) (pos stop : Nat) (rrType : RrType) :
    Upholds Error.IsInternal (RData.TakenFrom buf pos stop) (RData.parse buf pos stop rrType) ∧
      Upholds Error.IsInternal (Record.TakenFrom buf pos) (Record.parse buf pos) :=
  ⟨(RData.parse_upholds buf pos stop rrType).imp fun _ => And.left,
    (Record.parse_upholds buf pos).imp fun _ => And.left⟩

end RecurseX
