import RecurseX.Name.Sink
import RecurseX.Rdata.TypeBitmap

/-!
# Record data

The payload of a resource record, its serializer and its parser. A parser arm
reads the whole message buffer, because names may be compressed against it, but
stays below the end of its own RDATA; `RdataWindow` is what the arms share.
-/

namespace RecurseX

open Library Wire

/-- An IPv4 address by its octets. -/
def ipv4 (a b c d : UInt8) : Octets 4 := ⟨[a, b, c, d], rfl⟩

/-- The payload of a resource record. -/
inductive RData where
  | a (ip : Octets 4)
  | aaaa (ip : Octets 16)
  | cname (name : Name)
  | dname (name : Name)
  | ns (name : Name)
  | ptr (name : Name)
  | mx (preference : UInt16) (exchange : Name)
  | soa (mname rname : Name) (serial refresh retry expire minimum : UInt32)
  | txt (strings : List Bytes)
  | srv (priority weight port : UInt16) (target : Name)
  | naptr (order preference : UInt16) (flags services regexp : Bytes) (replacement : Name)
  | ds (keyTag : UInt16) (algorithm : DnssecAlgorithm) (digestType : DsDigestType)
      (digest : Bytes)
  | dnskey (flags : UInt16) (protocol : UInt8) (algorithm : DnssecAlgorithm) (publicKey : Bytes)
  | rrsig (typeCovered : RrType) (algorithm : DnssecAlgorithm) (labels : UInt8)
      (originalTtl expiration inception : UInt32) (keyTag : UInt16) (signer : Name)
      (signature : Bytes)
  | nsec (next : Name) (types : List RrType)
  | nsec3 (hashAlg flags : UInt8) (iterations : UInt16) (salt nextHashed : Bytes)
      (types : List RrType)
  | nsec3Param (hashAlg flags : UInt8) (iterations : UInt16) (salt : Bytes)
  | caa (flags : UInt8) (tag value : Bytes)
  | tlsa (usage selector matchingType : UInt8) (data : Bytes)
  | svcb (priority : UInt16) (target : Name) (params : List (UInt16 × Bytes))
  | unknown (data : Bytes)
deriving DecidableEq, Repr

/-- The parser arm of a record type; several types share one arm. -/
inductive RdataForm where
  | a | aaaa | cname | dname | ns | ptr | mx | soa | txt | srv | naptr | ds | dnskey | rrsig
  | nsec | nsec3 | nsec3Param | caa | tlsa | svcb | unknown
deriving DecidableEq, Repr

/-- The arm `RData.parse` takes for a record type. -/
def RrType.rdataForm (rrType : RrType) : RdataForm :=
  if rrType = .A then .a
  else if rrType = .AAAA then .aaaa
  else if rrType = .CNAME then .cname
  else if rrType = .DNAME then .dname
  else if rrType = .NS then .ns
  else if rrType = .PTR then .ptr
  else if rrType = .MX then .mx
  else if rrType = .SOA then .soa
  else if rrType = .TXT then .txt
  else if rrType = .SRV then .srv
  else if rrType = .NAPTR then .naptr
  else if rrType = .DS ∨ rrType = .CDS then .ds
  else if rrType = .DNSKEY ∨ rrType = .CDNSKEY then .dnskey
  else if rrType = .RRSIG ∨ rrType = .SIG then .rrsig
  else if rrType = .NSEC then .nsec
  else if rrType = .NSEC3 then .nsec3
  else if rrType = .NSEC3PARAM then .nsec3Param
  else if rrType = .CAA then .caa
  else if rrType = .TLSA ∨ rrType = .SMIMEA then .tlsa
  else if rrType = .SVCB ∨ rrType = .HTTPS then .svcb
  else .unknown

/-! ## Serializing -/

/-- A string behind its length octet, cut at 255 octets. -/
def charString (bytes : Bytes) : Bytes :=
  UInt8.ofNat (min bytes.length 255) :: capped bytes 255

/-- A SvcParam: key, length, value, cut at 65535 octets. -/
def svcParam (param : UInt16 × Bytes) : Bytes :=
  be16 param.1 ++ be16 (UInt16.ofNat (min param.2.length 0xffff)) ++ capped param.2 0xffff

/-- What the serializer appends, in order. RFC 2782 and RFC 3403 forbid
compressing the SRV target and the NAPTR replacement. -/
def RData.pieces : RData → List Piece
  | .a ip => [.octets ip.1]
  | .aaaa ip => [.octets ip.1]
  | .cname name => [.name name true]
  | .dname name => [.name name true]
  | .ns name => [.name name true]
  | .ptr name => [.name name true]
  | .mx preference exchange => [.octets (be16 preference), .name exchange true]
  | .soa mname rname serial refresh retry expire minimum =>
      [.name mname true, .name rname true, .octets (be32 serial), .octets (be32 refresh),
        .octets (be32 retry), .octets (be32 expire), .octets (be32 minimum)]
  | .txt strings => strings.map fun bytes => .octets (charString bytes)
  | .srv priority weight port target =>
      [.octets (be16 priority), .octets (be16 weight), .octets (be16 port), .name target false]
  | .naptr order preference flags services regexp replacement =>
      [.octets (be16 order), .octets (be16 preference), .octets (charString flags),
        .octets (charString services), .octets (charString regexp), .name replacement false]
  | .ds keyTag algorithm digestType digest =>
      [.octets (be16 keyTag), .octets [algorithm.toU8], .octets [digestType.toU8],
        .octets digest]
  | .dnskey flags protocol algorithm publicKey =>
      [.octets (be16 flags), .octets [protocol], .octets [algorithm.toU8], .octets publicKey]
  | .rrsig typeCovered algorithm labels originalTtl expiration inception keyTag signer signature =>
      [.octets (be16 typeCovered.toU16), .octets [algorithm.toU8], .octets [labels],
        .octets (be32 originalTtl), .octets (be32 expiration), .octets (be32 inception),
        .octets (be16 keyTag), .name signer false, .octets signature]
  | .nsec next types => [.name next false, .octets (writeTypeBitmap [] types)]
  | .nsec3 hashAlg flags iterations salt nextHashed types =>
      [.octets [hashAlg], .octets [flags], .octets (be16 iterations), .octets (charString salt),
        .octets (charString nextHashed), .octets (writeTypeBitmap [] types)]
  | .nsec3Param hashAlg flags iterations salt =>
      [.octets [hashAlg], .octets [flags], .octets (be16 iterations), .octets (charString salt)]
  | .caa flags tag value => [.octets [flags], .octets (charString tag), .octets value]
  | .tlsa usage selector matchingType data =>
      [.octets [usage], .octets [selector], .octets [matchingType], .octets data]
  | .svcb priority target params =>
      [.octets (be16 priority), .name target false] ++
        params.map fun param => .octets (svcParam param)
  | .unknown data => [.octets data]

/-- Serialize this RDATA, optionally using name compression. -/
def RData.toWire (self : RData) (sink : Sink) : Sink := sink.putAll self.pieces

/-! ## Parsing -/

/-- What the arms of `RData.parse` share: the message, the end of this RDATA
and its length. -/
structure RdataWindow where
  buf : Bytes
  stop : Nat
  rdlen : Nat
deriving DecidableEq, Repr

namespace RdataWindow

variable (window : RdataWindow)

/-- At least `count` octets of RDATA. -/
def need (count : Nat) : Result Unit :=
  failIf (window.rdlen < count) (.wire "RDATA truncated")

/-- A 16-bit field inside the RDATA. -/
def u16At (p : Nat) : Result UInt16 := do
  failIf (p + 2 > window.stop) (.wire "RDATA truncated")
  Wire.u16At window.buf p

/-- A 32-bit field inside the RDATA. -/
def u32At (p : Nat) : Result UInt32 := do
  failIf (p + 4 > window.stop) (.wire "RDATA truncated")
  Wire.u32At window.buf p

/-- A single octet inside the RDATA. -/
def bAt (p : Nat) : Result UInt8 := do
  failIf (p ≥ window.stop) (.wire "RDATA truncated")
  (byteAt window.buf p).mapError fun _ => .wire "RDATA truncated"

/-- The octets from `p` to the end of the RDATA. -/
def tail (p : Nat) : Result Bytes := do
  failIf (p > window.stop) (.wire "RDATA truncated")
  (sliceAt window.buf p (window.stop - p)).mapError fun _ => .wire "RDATA truncated"

/-- `length` octets at `p` that must end inside the RDATA. -/
def field (p length : Nat) (truncated : String) : Result Bytes := do
  failIf (p + length > window.stop) (.wire truncated)
  (sliceAt window.buf p length).mapError fun _ => .wire truncated

/-- A possibly compressed name that must end inside the RDATA. -/
def readName (p : Nat) : Result (Name × Nat) := do
  let (name, next) ← Name.fromWire window.buf p
  failIf (next > window.stop) (.wire "name in RDATA overruns RDATA length")
  .ok (name, next)

/-- A name with nothing behind it. -/
def nameExact (p : Nat) : Result (Name × Nat) := do
  let (name, next) ← window.readName p
  failIf (next ≠ window.stop) (.wire "trailing bytes after name in RDATA")
  .ok (name, next)

/-- A string behind its length octet. -/
def readCharString (p : Nat) : Result (Bytes × Nat) := do
  failIf (p ≥ window.stop) (.wire "character-string truncated")
  let len ← (byteAt window.buf p).mapError fun _ => .wire "character-string truncated"
  let bytes ← window.field (p + 1) len.toNat "character-string truncated"
  .ok (bytes, p + 1 + len.toNat)

/-- The TXT loop. Every string takes an octet, so the RDATA length is enough fuel. -/
def txtLoop : (fuel pos : Nat) → Result (List Bytes × Nat)
  | 0, _ => .error (.internal "TXT walk did not terminate")
  | fuel + 1, pos =>
      if pos < window.stop then do
        let len ← (byteAt window.buf pos).mapError fun _ => .wire "TXT string truncated"
        let bytes ← window.field (pos + 1) len.toNat "TXT string truncated"
        let (strings, pos) ← txtLoop fuel (pos + 1 + len.toNat)
        .ok (bytes :: strings, pos)
      else .ok ([], pos)

/-- The SvcParam loop. Every parameter takes four octets. -/
def svcParamLoop : (fuel pos : Nat) → Result (List (UInt16 × Bytes) × Nat)
  | 0, _ => .error (.internal "SVCB walk did not terminate")
  | fuel + 1, pos =>
      if pos < window.stop then do
        failIf (pos + 4 > window.stop) (.wire "SVCB param header truncated")
        let key ← window.u16At pos
        let len ← window.u16At (pos + 2)
        let value ← window.field (pos + 4) len.toNat "SVCB param value truncated"
        let (params, pos) ← svcParamLoop fuel (pos + 4 + len.toNat)
        .ok ((key, value) :: params, pos)
      else .ok ([], pos)

/-! The arms of the parser. -/

def parseA (pos : Nat) : Result (RData × Nat) := do
  window.need 4
  let ip ← (arrayAt 4 window.buf pos).mapError fun _ => .wire "RDATA truncated"
  .ok (.a ip, pos + 4)

def parseAaaa (pos : Nat) : Result (RData × Nat) := do
  window.need 16
  let ip ← (arrayAt 16 window.buf pos).mapError fun _ => .wire "RDATA truncated"
  .ok (.aaaa ip, pos + 16)

/-- The arms that hold one name. -/
def parseName (build : Name → RData) (pos : Nat) : Result (RData × Nat) := do
  let (name, pos) ← window.nameExact pos
  .ok (build name, pos)

def parseMx (pos : Nat) : Result (RData × Nat) := do
  window.need 2
  let preference ← window.u16At pos
  let (exchange, pos) ← window.nameExact (pos + 2)
  .ok (.mx preference exchange, pos)

def parseSoa (pos : Nat) : Result (RData × Nat) := do
  window.need 20
  let (mname, pos) ← window.readName pos
  let (rname, pos) ← window.readName pos
  failIf (pos + 20 > window.stop) (.wire "SOA RDATA truncated")
  let serial ← window.u32At pos
  let refresh ← window.u32At (pos + 4)
  let retry ← window.u32At (pos + 8)
  let expire ← window.u32At (pos + 12)
  let minimum ← window.u32At (pos + 16)
  .ok (.soa mname rname serial refresh retry expire minimum, pos + 20)

def parseTxt (pos : Nat) : Result (RData × Nat) := do
  let (strings, pos) ← window.txtLoop (window.rdlen + 1) pos
  .ok (.txt strings, pos)

def parseSrv (pos : Nat) : Result (RData × Nat) := do
  window.need 6
  let priority ← window.u16At pos
  let weight ← window.u16At (pos + 2)
  let port ← window.u16At (pos + 4)
  let (target, pos) ← window.nameExact (pos + 6)
  .ok (.srv priority weight port target, pos)

def parseNaptr (pos : Nat) : Result (RData × Nat) := do
  window.need 4
  let order ← window.u16At pos
  let preference ← window.u16At (pos + 2)
  let (flags, pos) ← window.readCharString (pos + 4)
  let (services, pos) ← window.readCharString pos
  let (regexp, pos) ← window.readCharString pos
  let (replacement, pos) ← window.nameExact pos
  .ok (.naptr order preference flags services regexp replacement, pos)

def parseDs (pos : Nat) : Result (RData × Nat) := do
  window.need 4
  let keyTag ← window.u16At pos
  let algorithm ← window.bAt (pos + 2)
  let digestType ← window.bAt (pos + 3)
  failIf (pos + 4 > window.stop) (.wire "DS digest truncated")
  let digest ← window.tail (pos + 4)
  .ok (.ds keyTag ⟨algorithm⟩ ⟨digestType⟩ digest, window.stop)

def parseDnskey (pos : Nat) : Result (RData × Nat) := do
  window.need 4
  let flags ← window.u16At pos
  let protocol ← window.bAt (pos + 2)
  let algorithm ← window.bAt (pos + 3)
  failIf (pos + 4 > window.stop) (.wire "DNSKEY public key truncated")
  let publicKey ← window.tail (pos + 4)
  .ok (.dnskey flags protocol ⟨algorithm⟩ publicKey, window.stop)

def parseRrsig (pos : Nat) : Result (RData × Nat) := do
  window.need 18
  let typeCovered ← window.u16At pos
  let algorithm ← window.bAt (pos + 2)
  let labels ← window.bAt (pos + 3)
  let originalTtl ← window.u32At (pos + 4)
  let expiration ← window.u32At (pos + 8)
  let inception ← window.u32At (pos + 12)
  let keyTag ← window.u16At (pos + 16)
  let (signer, pos) ← window.readName (pos + 18)
  failIf (pos > window.stop) (.wire "RRSIG signature truncated")
  let signature ← window.tail pos
  .ok (.rrsig ⟨typeCovered⟩ ⟨algorithm⟩ labels originalTtl expiration inception keyTag signer
    signature, window.stop)

def parseNsec (pos : Nat) : Result (RData × Nat) := do
  let (next, pos) ← window.readName pos
  let (types, pos) ← parseTypeBitmap window.buf pos window.stop
  .ok (.nsec next types, pos)

def parseNsec3 (pos : Nat) : Result (RData × Nat) := do
  window.need 5
  let hashAlg ← window.bAt pos
  let flags ← window.bAt (pos + 1)
  let iterations ← window.u16At (pos + 2)
  let saltLen ← window.bAt (pos + 4)
  let salt ← window.field (pos + 5) saltLen.toNat "NSEC3 salt truncated"
  let pos := pos + 5 + saltLen.toNat
  failIf (pos ≥ window.stop) (.wire "NSEC3 next-hashed length missing")
  let nextLen ← window.bAt pos
  let nextHashed ← window.field (pos + 1) nextLen.toNat "NSEC3 next-hashed truncated"
  let (types, pos) ← parseTypeBitmap window.buf (pos + 1 + nextLen.toNat) window.stop
  .ok (.nsec3 hashAlg flags iterations salt nextHashed types, pos)

def parseNsec3Param (pos : Nat) : Result (RData × Nat) := do
  window.need 5
  let hashAlg ← window.bAt pos
  let flags ← window.bAt (pos + 1)
  let iterations ← window.u16At (pos + 2)
  let saltLen ← window.bAt (pos + 4)
  let salt ← window.field (pos + 5) saltLen.toNat "NSEC3PARAM salt truncated"
  .ok (.nsec3Param hashAlg flags iterations salt, pos + 5 + saltLen.toNat)

def parseCaa (pos : Nat) : Result (RData × Nat) := do
  window.need 2
  let flags ← window.bAt pos
  let tagLen ← window.bAt (pos + 1)
  let tag ← window.field (pos + 2) tagLen.toNat "CAA tag truncated"
  let value ← window.tail (pos + 2 + tagLen.toNat)
  .ok (.caa flags tag value, window.stop)

def parseTlsa (pos : Nat) : Result (RData × Nat) := do
  window.need 3
  let usage ← window.bAt pos
  let selector ← window.bAt (pos + 1)
  let matchingType ← window.bAt (pos + 2)
  let data ← window.tail (pos + 3)
  .ok (.tlsa usage selector matchingType data, window.stop)

def parseSvcb (pos : Nat) : Result (RData × Nat) := do
  window.need 2
  let priority ← window.u16At pos
  let (target, pos) ← window.readName (pos + 2)
  let (params, pos) ← window.svcParamLoop (window.rdlen + 1) pos
  .ok (.svcb priority target params, pos)

def parseUnknown (pos : Nat) : Result (RData × Nat) := do
  let data ← window.tail pos
  .ok (.unknown data, window.stop)

/-- The arm of a form. -/
def parse (pos : Nat) : RdataForm → Result (RData × Nat)
  | .a => window.parseA pos
  | .aaaa => window.parseAaaa pos
  | .cname => window.parseName .cname pos
  | .dname => window.parseName .dname pos
  | .ns => window.parseName .ns pos
  | .ptr => window.parseName .ptr pos
  | .mx => window.parseMx pos
  | .soa => window.parseSoa pos
  | .txt => window.parseTxt pos
  | .srv => window.parseSrv pos
  | .naptr => window.parseNaptr pos
  | .ds => window.parseDs pos
  | .dnskey => window.parseDnskey pos
  | .rrsig => window.parseRrsig pos
  | .nsec => window.parseNsec pos
  | .nsec3 => window.parseNsec3 pos
  | .nsec3Param => window.parseNsec3Param pos
  | .caa => window.parseCaa pos
  | .tlsa => window.parseTlsa pos
  | .svcb => window.parseSvcb pos
  | .unknown => window.parseUnknown pos

end RdataWindow

/-- Parse one RDATA from `buf` at `pos`, bounded by `stop` (exclusive). Returns
the RDATA and the position past the consumed octets. -/
def RData.parse (buf : Bytes) (pos stop : Nat) (rrType : RrType) : Result (RData × Nat) := do
  failIf (stop > buf.length) (.wire "RDATA length exceeds message")
  failIf (pos > stop) (.wire "RDATA cursor past end")
  RdataWindow.parse ⟨buf, stop, stop - pos⟩ pos rrType.rdataForm

/-! ## Records -/

/-- A resource record. -/
structure Record where
  name : Name
  rrType : RrType
  rrClass : RrClass
  ttl : UInt32
  rdata : RData
deriving DecidableEq, Repr

namespace Record

/-- Parse one record from `buf` at `pos`. Its own RDATA length governs. -/
def parse (buf : Bytes) (pos : Nat) : Result (Record × Nat) := do
  let (name, p) ← Name.fromWire buf pos
  failIf (p + 10 > buf.length) (.wire "record header truncated")
  let rrType ← (u16At buf p).mapError fun _ => .wire "record header truncated"
  let rrClass ← (u16At buf (p + 2)).mapError fun _ => .wire "record header truncated"
  let ttl ← (u32At buf (p + 4)).mapError fun _ => .wire "record header truncated"
  let rdlen ← (u16At buf (p + 8)).mapError fun _ => .wire "record header truncated"
  let stop := p + 10 + rdlen.toNat
  failIf (stop > buf.length) (.wire "record RDATA overruns message")
  if rrType = RrType.OPT.toU16 then do
    -- OPT is a pseudo-record handled by the message layer: keep the raw options.
    let data ← (sliceAt buf (p + 10) rdlen.toNat).mapError fun _ =>
      .wire "RDATA length exceeds the message"
    .ok (⟨name, ⟨rrType⟩, ⟨rrClass⟩, ttl, .unknown data⟩, stop)
  else do
    let (rdata, _) ← RData.parse buf (p + 10) stop ⟨rrType⟩
    .ok (⟨name, ⟨rrType⟩, ⟨rrClass⟩, ttl, rdata⟩, stop)

/-- Serialize this record. The RDATA length is a placeholder until the RDATA
has been written; it fails when it does not fit its 16-bit field. -/
def toWire (self : Record) (sink : Sink) : Result Sink := do
  let sink := sink.name self.name true
  let sink := sink.extend (be16 self.rrType.toU16)
  let sink := sink.extend (be16 self.rrClass.toU16)
  let sink := sink.extend (be32 self.ttl)
  let rdlenPos := sink.out.length
  let sink := sink.extend [0, 0]
  let sink := self.rdata.toWire sink
  let rdlen := sink.out.length - rdlenPos - 2
  failIf (rdlen > 65535) (.wire "RDATA exceeds the 16-bit length field")
  failIf (rdlenPos + 2 > sink.out.length) (.internal "RDLENGTH offset out of range")
  .ok { sink with out := overwrite sink.out rdlenPos (be16 (UInt16.ofNat rdlen)) }

end Record

end RecurseX
