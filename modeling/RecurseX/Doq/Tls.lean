import Mathlib.Algebra.GroupWithZero.Nat
import RecurseX.Library.Stateful
import RecurseX.Wire

/-!
# The QUIC-TLS client handshake

The TLS half of the DoQ transport: no sockets, no QUIC packets. It is fed
complete handshake messages, parses and checks them and derives secrets. The
cryptography and the certificate checks come from outside and are parameters.
-/

namespace RecurseX.Doq

open Library Wire

/-! ## What comes from outside -/

/-- The hashes of the cipher suites. -/
inductive Hash where
  | sha256
  | sha384
deriving DecidableEq, Repr

/-- The curves a certificate key may be on. -/
inductive Curve where
  | p256
  | p384
  | p521
deriving DecidableEq, Repr

/-- What the handshake reads of a certificate. -/
structure Certificate where
  spkiKey : Bytes
  ecCurve : Option Curve
  dnsNames : List Bytes
  ipNames : List Bytes
deriving DecidableEq, Repr

/-- Hashes, key derivation, key exchange, signatures and certificate checks. -/
structure Crypto (RootStore : Type) where
  hash : Hash → Bytes → Bytes
  hkdfExtract : Hash → (salt secret : Bytes) → Bytes
  expandLabel : Hash → (secret label context : Bytes) → (length : Nat) → Bytes
  hmac : Hash → (key data : Bytes) → Bytes
  x25519 : (secret share : Bytes) → Bytes
  verifyPss : (modulus exponent : Bytes) → Hash → (content : Bytes) → (saltLen : Nat) →
    (signature : Bytes) → Bool
  /-- The digest comes with the hash its prefix names. -/
  verifyPkcs1v15 : (modulus exponent : Bytes) → Hash → (digest signature : Bytes) → Bool
  ecdsaVerifyDer : Curve → (qx qy digest signature : Bytes) → Bool
  ed25519Verify : (key content signature : Bytes) → Bool
  parseCertificate : Bytes → Except String Certificate
  validateChain : RootStore → List Bytes → Int → Except String Unit
  hasServerAuthEku : Certificate → Bool
  hostnameMatches : String → (dnsNames ipNames : List Bytes) → Bool

/-- The variable-length integers of QUIC. -/
structure Varint where
  encode : Nat → Bytes
  /-- The value and the octets it took. -/
  decode : Bytes → Option (Nat × Nat)

/-- The octets of a text. -/
def utf8 (text : String) : Bytes := text.toUTF8.data.toList

/-! ## Constants -/

/-! TLS 1.3 handshake message types. -/

namespace HsType

def CLIENT_HELLO : UInt8 := 1
def SERVER_HELLO : UInt8 := 2
def ENCRYPTED_EXTENSIONS : UInt8 := 8
def CERTIFICATE : UInt8 := 11
def CERTIFICATE_VERIFY : UInt8 := 15
def FINISHED : UInt8 := 20

end HsType

/-! TLS 1.3 cipher suites. -/

namespace Suite

def AES_128_GCM_SHA256 : UInt16 := 0x1301
def AES_256_GCM_SHA384 : UInt16 := 0x1302
def CHACHA20_POLY1305_SHA256 : UInt16 := 0x1303

end Suite

/-! TLS 1.3 signature schemes. -/

namespace SigScheme

def RSA_PSS_PSS_SHA256 : UInt16 := 0x0809
def RSA_PSS_PSS_SHA384 : UInt16 := 0x080a
def RSA_PSS_RSAE_SHA256 : UInt16 := 0x0804
def RSA_PSS_RSAE_SHA384 : UInt16 := 0x0805
def RSA_PKCS1_SHA256 : UInt16 := 0x0401
def RSA_PKCS1_SHA384 : UInt16 := 0x0501
def ECDSA_SECP256R1_SHA256 : UInt16 := 0x0403
def ECDSA_SECP384R1_SHA384 : UInt16 := 0x0503
def ED25519 : UInt16 := 0x0807

end SigScheme

/-- The `HelloRetryRequest` fixed random value. -/
def hrrRandom : Bytes :=
  [0xcf, 0x21, 0xad, 0x74, 0xe6, 0x86, 0x64, 0xb8, 0x24, 0x1a, 0x83, 0x76, 0x3c, 0x1f, 0x51, 0x70,
    0x2d, 0x7c, 0x1f, 0x0f, 0x1c, 0x7a, 0x05, 0x13, 0x05, 0x1f, 0x13, 0x91, 0xa0, 0x9c, 0x9e, 0x7e]

/-- The length of the padding in a CertificateVerify signature. -/
def cvContextPad : Nat := 64

/-- The digest length of a cipher suite's hash. -/
def hashLen (suite : UInt16) : Nat := if suite = Suite.AES_256_GCM_SHA384 then 48 else 32

/-- The suite's hash. -/
def newDigest (suite : UInt16) : Hash :=
  if suite = Suite.AES_256_GCM_SHA384 then .sha384 else .sha256

/-! ## Octets -/

/-- The three octets of a handshake length, most significant first. -/
def be24 (value : Nat) : Bytes :=
  [UInt8.ofNat (value / 65536), UInt8.ofNat (value / 256), UInt8.ofNat value]

/-- The number with these three octets. -/
def ofBe24 (first second third : UInt8) : Nat :=
  first.toNat * 65536 + second.toNat * 256 + third.toNat

/-- The big-endian 24-bit number at `position`. -/
def u24At (buf : Bytes) (position : Nat) : Result Nat := do
  match ← sliceAt buf position 3 with
  | [first, second, third] => .ok (ofBe24 first second third)
  | _ => .error (.internal "wire read returned the wrong length")

/-- Wrap a handshake body in its header. The transcript hashes the message with it. -/
def hsMessage (msgType : UInt8) (body : Bytes) : Bytes := msgType :: be24 body.length ++ body

/-- A TLS extension. -/
def extension (extType : UInt16) (body : Bytes) : Bytes :=
  be16 extType ++ be16 (UInt16.ofNat body.length) ++ body

/-- The X25519 share of a `key_share` extension body. A share that cannot be
used is ignored, so that the handshake fails later with the honest reason. -/
def x25519KeyShare (body : Bytes) : Option Bytes :=
  match sliceAt body 0 4 with
  | .ok [0x00, 0x1d, 0x00, 0x20] => (sliceAt body 4 32).toOption
  | _ => none

/-! ## Transport parameters -/

/-- The transport parameters a client advertises to the server. -/
structure TransportParams where
  maxIdleTimeoutMs : Nat
  maxUdpPayloadSize : Nat
  initialMaxData : Nat
  initialMaxStreamDataBidiLocal : Nat
  initialMaxStreamDataBidiRemote : Nat
  initialMaxStreamDataUni : Nat
  initialMaxStreamsBidi : Nat
  initialMaxStreamsUni : Nat
  activeConnectionIdLimit : Nat
  initialSourceConnectionId : Bytes
  retrySourceConnectionId : Option Bytes
deriving DecidableEq, Repr

/-- The defaults of a DoQ client. -/
def TransportParams.clientDefaults (scid : Bytes) : TransportParams where
  maxIdleTimeoutMs := 30000
  maxUdpPayloadSize := 1350
  initialMaxData := 2 ^ 26
  initialMaxStreamDataBidiLocal := 2 ^ 20
  initialMaxStreamDataBidiRemote := 2 ^ 20
  initialMaxStreamDataUni := 2 ^ 20
  initialMaxStreamsBidi := 1024
  initialMaxStreamsUni := 16
  activeConnectionIdLimit := 2
  initialSourceConnectionId := scid
  retrySourceConnectionId := none

/-- The server's transport parameters, as far as a DoQ client reads them. -/
structure ServerTransportParams where
  initialMaxData : Nat
  initialMaxStreamDataBidiLocal : Nat
  initialMaxStreamsBidi : Nat
  initialMaxStreamsUni : Nat
  originalDestinationConnectionId : Option Bytes
  initialSourceConnectionId : Option Bytes
  retrySourceConnectionId : Option Bytes
deriving DecidableEq, Repr

/-- Nothing announced. -/
def ServerTransportParams.default : ServerTransportParams := ⟨0, 0, 0, 0, none, none, none⟩

namespace Varint

variable (varint : Varint)

/-- Encode as a sequence of `varint(id) || varint(len) || value`. -/
def encodeTransportParams (params : TransportParams) : Bytes :=
  let put (id : Nat) (value : Bytes) : Bytes :=
    varint.encode id ++ varint.encode value.length ++ value
  (if params.maxIdleTimeoutMs > 0 then put 0x01 (varint.encode params.maxIdleTimeoutMs) else []) ++
  put 0x03 (varint.encode params.maxUdpPayloadSize) ++
  put 0x04 (varint.encode params.initialMaxData) ++
  put 0x05 (varint.encode params.initialMaxStreamDataBidiLocal) ++
  put 0x06 (varint.encode params.initialMaxStreamDataBidiRemote) ++
  put 0x07 (varint.encode params.initialMaxStreamDataUni) ++
  put 0x08 (varint.encode params.initialMaxStreamsBidi) ++
  put 0x09 (varint.encode params.initialMaxStreamsUni) ++
  put 0x0e (varint.encode params.activeConnectionIdLimit) ++
  put 0x0f params.initialSourceConnectionId ++
  match params.retrySourceConnectionId with
  | some retryScid => put 0x10 retryScid
  | none => []

/-- A transport-parameter value is a raw varint. -/
def decodeParamU64 (value : Bytes) : Result Nat :=
  match varint.decode value with
  | none => .error (.wire "QUIC transport parameter not a varint")
  | some (decoded, used) =>
      if used ≠ value.length then .error (.wire "QUIC transport parameter has trailing bytes")
      else .ok decoded

/-- One parameter. Unknown ones are skipped. -/
def decodeParam (params : ServerTransportParams) (id : Nat) (value : Bytes) :
    Result ServerTransportParams :=
  match id with
  | 0x04 => do .ok { params with initialMaxData := ← varint.decodeParamU64 value }
  | 0x05 => do .ok { params with initialMaxStreamDataBidiLocal := ← varint.decodeParamU64 value }
  | 0x08 => do .ok { params with initialMaxStreamsBidi := ← varint.decodeParamU64 value }
  | 0x09 => do .ok { params with initialMaxStreamsUni := ← varint.decodeParamU64 value }
  | 0x00 => .ok { params with originalDestinationConnectionId := some value }
  | 0x0f => .ok { params with initialSourceConnectionId := some value }
  | 0x10 => .ok { params with retrySourceConnectionId := some value }
  | _ => .ok params

/-- One parameter's identifier and value, and where the next one starts. -/
def nextParam (bytes : Bytes) (pos : Nat) : Result (Nat × Bytes × Nat) := do
  let (id, used) ← okOr (varint.decode (← restAt bytes pos))
    (.wire "QUIC transport parameter id malformed")
  let pos := pos + used
  let (len, used) ← okOr (varint.decode (← restAt bytes pos))
    (.wire "QUIC transport parameter length malformed")
  let pos := pos + used
  let value ← (sliceAt bytes pos len).mapError fun _ => .wire "QUIC transport parameter truncated"
  .ok (id, value, pos + len)

/-- The parameters from `pos` on. Every one takes at least an octet. -/
def decodeParamsFrom (bytes : Bytes) : (fuel pos : Nat) → ServerTransportParams →
    Result ServerTransportParams
  | 0, _, _ => .error (.internal "transport parameters do not end")
  | fuel + 1, pos, params =>
      if pos < bytes.length then do
        let (id, value, next) ← varint.nextParam bytes pos
        decodeParamsFrom bytes fuel next (← varint.decodeParam params id value)
      else .ok params

/-- Decode a server transport-parameters block. -/
def decodeServerTransportParams (bytes : Bytes) : Result ServerTransportParams :=
  varint.decodeParamsFrom bytes (bytes.length + 1) 0 .default

end Varint

/-! ## Certificates and keys -/

/-- Read one DER value: its tag, its content and the octets it took. -/
def readDerTlv (data : Bytes) : Option (UInt8 × Bytes × Nat) :=
  match data with
  | tag :: firstLen :: rest =>
      if firstLen &&& 0x80 = 0 then
        let len := firstLen.toNat
        if len ≤ rest.length then some (tag, rest.take len, 2 + len) else none
      else
        let nbytes := (firstLen &&& 0x7f).toNat
        if nbytes = 0 ∨ nbytes > 4 ∨ rest.length < nbytes then none
        else
          let len := (rest.take nbytes).foldl (fun len byte => len * 256 + byte.toNat) 0
          let body := rest.drop nbytes
          if len ≤ body.length then some (tag, body.take len, 2 + nbytes + len) else none
  | _ => none

/-- Remove a single leading sign octet of an INTEGER. -/
def stripIntLeadingZero : Bytes → Bytes
  | 0 :: next :: rest => next :: rest
  | octets => octets

/-- Parse an RSA public key: its modulus and its exponent. -/
def parseRsaPublicKey (der : Bytes) : Option (Bytes × Bytes) := do
  let (tag, content, _) ← readDerTlv der
  if tag ≠ 0x30 then none
  let (tagN, rawN, usedN) ← readDerTlv content
  if tagN ≠ 0x02 then none
  let (tagE, rawE, _) ← readDerTlv (content.drop usedN)
  if tagE ≠ 0x02 then none
  let modulus := stripIntLeadingZero rawN
  let exponent := stripIntLeadingZero rawE
  if modulus.isEmpty || exponent.isEmpty then none
  some (modulus, exponent)

/-- A handshake failure that is about trust. -/
def untrusted (msg : String) : Error := ⟨.dnssec, msg⟩

/-- The RSA key of a leaf certificate. -/
def leafRsaKey (leaf : Certificate) : Result (Bytes × Bytes) :=
  okOr (parseRsaPublicKey leaf.spkiKey) (untrusted "leaf certificate is not a usable RSA key")

/-- The point of a leaf certificate on a curve. -/
def leafEcPoint (leaf : Certificate) (curve : Curve) : Result (Bytes × Bytes) := do
  let clen := match curve with
    | .p256 => 32
    | .p384 => 48
    | .p521 => 66
  failIf (leaf.ecCurve ≠ some curve) (untrusted "leaf certificate curve mismatch")
  failIf (leaf.spkiKey.length ≠ 1 + 2 * clen ∨ leaf.spkiKey.head? ≠ some 0x04)
    (untrusted "leaf certificate key is not an uncompressed EC point")
  .ok (← sliceAt leaf.spkiKey 1 clen, ← restAt leaf.spkiKey (1 + clen))

/-- The certificates of a list from `pos` on. Every entry takes at least five octets. -/
def certificateEntries (list : Bytes) : (fuel pos : Nat) → List Bytes → Result (List Bytes)
  | 0, _, _ => .error (.internal "certificate list does not end")
  | fuel + 1, pos, chain =>
      if pos < list.length then do
        let certLen ← (u24At list pos).mapError fun _ =>
          .wire "Certificate entry length truncated"
        let pos := pos + 3
        let cert ← (sliceAt list pos certLen).mapError fun _ => .wire "Certificate entry truncated"
        let pos := pos + certLen
        let extLen ← (u16At list pos).mapError fun _ =>
          .wire "Certificate entry extensions truncated"
        let _ ← (sliceAt list (pos + 2) extLen.toNat).mapError fun _ =>
          .wire "Certificate entry extensions truncated"
        certificateEntries list fuel (pos + 2 + extLen.toNat) (chain ++ [cert])
      else .ok chain

/-- Parse a Certificate message body into the chain, leaf first. -/
def parseCertificateList (body : Bytes) : Result (List Bytes) := do
  let ctxLen ← okOr body.head? (.wire "Certificate message empty")
  failIf (ctxLen ≠ 0) (.wire "Certificate carries a request context")
  let listLen ← (u24At body 1).mapError fun _ => .wire "Certificate list length truncated"
  let list ← (sliceAt body 4 listLen).mapError fun _ => .wire "Certificate list truncated"
  let chain ← certificateEntries list (list.length + 1) 0 []
  failIf (chain = []) (.wire "Certificate message has no certificates")
  .ok chain

/-! ## The handshake -/

/-- Configuration of a handshake. -/
structure ClientConfig (RootStore : Type) where
  alpn : Bytes
  serverName : Option String
  /-- The name the certificate must match; `none` disables the check. -/
  hostname : Option String
  roots : RootStore
  /-- Whether to validate the certificate chain and the hostname. -/
  verify : Bool
  now : Int
  transportParams : TransportParams

/-- The outcome of consuming the server's handshake flight. -/
structure Completed where
  clientFinished : Bytes
  suite : UInt16
deriving DecidableEq, Repr

/-- The random octets of a handshake. -/
structure Entropy where
  random : Bytes
  ecdheSecret : Bytes
  ecdhePublic : Bytes

/-- A client handshake in progress. -/
structure ClientHandshake (RootStore : Type) where
  cfg : ClientConfig RootStore
  random : Bytes
  ecdheSecret : Bytes
  ecdhePublic : Bytes
  /-- All handshake messages so far, with their headers. -/
  transcriptMsgs : List Bytes
  suite : Option UInt16
  handshakeSecret : Option Bytes
  cHs : Option Bytes
  sHs : Option Bytes
  cAp : Option Bytes
  sAp : Option Bytes
  serverParams : Option ServerTransportParams
  sawServerHello : Bool
  /-- The ECDHE shared secret. -/
  shared : Bytes
  /-- The next expected message type after ServerHello. -/
  next : UInt8
  /-- The server's certificate chain, leaf first. -/
  chain : List Bytes
  done : Bool

namespace ClientHandshake

variable {RootStore : Type}

/-- A fresh handshake. -/
def new (cfg : ClientConfig RootStore) (entropy : Entropy) : ClientHandshake RootStore where
  cfg := cfg
  random := entropy.random
  ecdheSecret := entropy.ecdheSecret
  ecdhePublic := entropy.ecdhePublic
  transcriptMsgs := []
  suite := none
  handshakeSecret := none
  cHs := none
  sHs := none
  cAp := none
  sAp := none
  serverParams := none
  sawServerHello := false
  shared := List.replicate 32 0
  next := HsType.ENCRYPTED_EXTENSIONS
  chain := []
  done := false

/-- The extensions of the ClientHello. -/
def clientExtensions (varint : Varint) (self : ClientHandshake RootStore) : Bytes :=
  let sni := match self.cfg.serverName with
    | none => []
    | some sni =>
        let name := utf8 sni
        if name.isEmpty then []
        else
          let list := 0 :: be16 (UInt16.ofNat name.length) ++ name
          extension 0x0000 (be16 (UInt16.ofNat list.length) ++ list)
  let groups := be16 4 ++ be16 0x001d ++ be16 0x0017
  let sigs := be16 18 ++ [0x0809, 0x080a, 0x0804, 0x0805, 0x0403, 0x0503, 0x0807, 0x0401,
    0x0501].flatMap be16
  let share := be16 0x0024 ++ be16 0x001d ++ be16 32 ++ self.ecdhePublic
  let alpn :=
    if self.cfg.alpn.isEmpty then []
    else extension 0x0010 (be16 (1 + UInt16.ofNat self.cfg.alpn.length) ++
      UInt8.ofNat self.cfg.alpn.length :: self.cfg.alpn)
  sni ++ extension 0x000a groups ++ extension 0x000d sigs ++
    extension 0x002b [0x02, 0x03, 0x04] ++ extension 0x0033 share ++ alpn ++
    extension 0x0039 (varint.encodeTransportParams self.cfg.transportParams)

/-- Build the ClientHello and record it in the transcript. -/
def clientHello (varint : Varint) (self : ClientHandshake RootStore) :
    Bytes × ClientHandshake RootStore :=
  let exts := self.clientExtensions varint
  let body := [0x03, 0x03] ++ self.random ++ [0] ++ [0x00, 0x06] ++
    be16 Suite.CHACHA20_POLY1305_SHA256 ++ be16 Suite.AES_128_GCM_SHA256 ++
    be16 Suite.AES_256_GCM_SHA384 ++ [0x01, 0x00] ++ be16 (UInt16.ofNat exts.length) ++ exts
  let msg := hsMessage HsType.CLIENT_HELLO body
  (msg, { self with transcriptMsgs := self.transcriptMsgs ++ [msg] })

/-- Whether the handshake has fully completed. -/
def isDone (self : ClientHandshake RootStore) : Bool := self.done

variable (crypto : Crypto RootStore) (varint : Varint)

/-- The empty hash of the suite's hash function. -/
def emptyHash (suite : UInt16) : Bytes := crypto.hash (newDigest suite) []

/-- `HKDF-Expand-Label(secret, label, transcript_hash, Hash.length)`. -/
def deriveSecret (suite : UInt16) (secret : Bytes) (label : String) (transcriptHash : Bytes) :
    Bytes :=
  crypto.expandLabel (newDigest suite) secret (utf8 label) transcriptHash (hashLen suite)

/-- The hash of a transcript under a suite. -/
def hashOf (suite : UInt16) (messages : List Bytes) : Bytes :=
  crypto.hash (newDigest suite) messages.flatten

/-- The transcript hash of all messages so far. -/
def transcriptHash (self : ClientHandshake RootStore) : Bytes :=
  hashOf crypto (self.suite.getD Suite.AES_128_GCM_SHA256) self.transcriptMsgs

/-! ### ServerHello -/

/-- The extensions of a ServerHello from `ep` to `stop`: the usable key share
and whether TLS 1.3 was selected. -/
def serverExtensions (body : Bytes) (stop : Nat) : (fuel ep : Nat) → Option Bytes → Bool →
    Result (Option Bytes × Bool)
  | 0, _, _, _ => .error (.internal "extensions do not end")
  | fuel + 1, ep, keyShare, sawVersions =>
      if ep + 4 ≤ stop then do
        let etype ← u16At body ep
        let elen := (← u16At body (ep + 2)).toNat
        let ep := ep + 4
        let ev ← (sliceAt body ep elen).mapError fun _ => .wire "ServerHello extension truncated"
        let sawVersions := sawVersions || (etype == 0x002b && ev == [0x03, 0x04])
        let keyShare :=
          if etype = 0x0033 then (x25519KeyShare ev).or keyShare else keyShare
        serverExtensions body stop fuel (ep + elen) keyShare sawVersions
      else .ok (keyShare, sawVersions)

/-- What a ServerHello selects: the cipher suite and the server's key share. -/
def readServerHello (body : Bytes) : Result (UInt16 × Bytes) := do
  failIf (body.length < 35) (.wire "ServerHello too short")
  failIf ((← byteAt body 0) ≠ 0x03 ∨ (← byteAt body 1) ≠ 0x03)
    (.wire "ServerHello legacy version is not TLS 1.2")
  let random ← sliceAt body 2 32
  failIf (random = hrrRandom)
    (.wire "HelloRetryRequest received (server group mismatch; refusing to retry)")
  let sidLen := (← byteAt body 34).toNat
  failIf (sidLen ≠ 0)
    (.wire "ServerHello legacy_session_id is not empty (QUIC forbids resumption)")
  let pos := 35 + sidLen
  failIf (pos + 3 > body.length) (.wire "ServerHello truncated")
  let suite ← u16At body pos
  failIf ((← byteAt body (pos + 2)) ≠ 0) (.wire "ServerHello compression method is not null")
  let pos := pos + 3
  failIf ([Suite.AES_128_GCM_SHA256, Suite.AES_256_GCM_SHA384,
    Suite.CHACHA20_POLY1305_SHA256].contains suite = false)
    (.wire "ServerHello selected an unsupported cipher suite")
  failIf (pos + 2 > body.length) (.wire "ServerHello missing extensions")
  let extTotal := (← u16At body pos).toNat
  let pos := pos + 2
  failIf (pos + extTotal > body.length) (.wire "ServerHello extensions truncated")
  let (keyShare, sawVersions) ←
    serverExtensions body (pos + extTotal) (body.length + 1) pos none false
  failIf (sawVersions = false) (.wire "ServerHello missing supported_versions")
  let serverPub ← okOr keyShare (.wire "ServerHello missing X25519 key share")
  .ok (suite, serverPub)

/-- Take the ServerHello. -/
def parseServerHello (body : Bytes) : Stateful (ClientHandshake RootStore) Error Unit := do
  let (suite, serverPub) ← .lift (readServerHello body)
  let self ← .read
  let shared := crypto.x25519 self.ecdheSecret serverPub
  if shared.all (· == 0) then
    .fail (.wire "ServerHello produced an all-zero ECDHE secret")
  else
    .update fun self => { self with suite := some suite, shared := shared, sawServerHello := true }

/-- The handshake secret of a suite and a shared secret. -/
def handshakeSecretOf (suite : UInt16) (shared : Bytes) : Bytes :=
  let zeros := List.replicate (hashLen suite) 0
  let early := crypto.hkdfExtract (newDigest suite) zeros zeros
  let derived := deriveSecret crypto suite early "derived" (emptyHash crypto suite)
  crypto.hkdfExtract (newDigest suite) derived shared

/-- Derive the handshake traffic secrets. The ServerHello is in the transcript already. -/
def deriveHandshakeSecrets : Stateful (ClientHandshake RootStore) Error Unit := do
  let self ← .read
  match self.suite with
  | none =>
      .fail (.wire "TLS handshake secrets requested before a cipher suite was negotiated")
  | some suite =>
      let handshakeSecret := handshakeSecretOf crypto suite self.shared
      let chSh := self.transcriptHash crypto
      .update fun self => { self with
        handshakeSecret := some handshakeSecret
        cHs := some (deriveSecret crypto suite handshakeSecret "c hs traffic" chSh)
        sHs := some (deriveSecret crypto suite handshakeSecret "s hs traffic" chSh) }

/-! ### EncryptedExtensions -/

/-- The transport parameters among the extensions from `pos` to `stop`. -/
def encryptedExtensions (body : Bytes) (stop : Nat) : (fuel pos : Nat) →
    Option ServerTransportParams → Result (Option ServerTransportParams)
  | 0, _, _ => .error (.internal "extensions do not end")
  | fuel + 1, pos, params =>
      if pos + 4 ≤ stop then do
        let etype ← u16At body pos
        let elen := (← u16At body (pos + 2)).toNat
        let pos := pos + 4
        let ext ← (sliceAt body pos elen).mapError fun _ =>
          .wire "EncryptedExtensions extension truncated"
        let params ←
          if etype = 0x0039 then do .ok (some (← varint.decodeServerTransportParams ext))
          else .ok params
        encryptedExtensions body stop fuel (pos + elen) params
      else .ok params

/-- The server's transport parameters. -/
def parseEncryptedExtensions (body : Bytes) : Result ServerTransportParams := do
  failIf (2 > body.length) (.wire "EncryptedExtensions truncated")
  let extTotal := (← u16At body 0).toNat
  failIf (2 + extTotal > body.length) (.wire "EncryptedExtensions truncated")
  okOr (← encryptedExtensions varint body (2 + extTotal) (body.length + 1) 2 none)
    (.wire "server omitted quic_transport_parameters")

/-! ### Certificate and CertificateVerify -/

/-- Check the chain, the key usage and the hostname. -/
def validateCertificate (self : ClientHandshake RootStore) (leaf : Certificate) : Result Unit :=
  if self.cfg.verify = false then .ok ()
  else do
    (crypto.validateChain self.cfg.roots self.chain self.cfg.now).mapError fun error =>
      untrusted ("certificate chain rejected: " ++ error)
    failIf (crypto.hasServerAuthEku leaf = false)
      (untrusted "leaf certificate lacks serverAuth EKU")
    match self.cfg.hostname with
    | none => .ok ()
    | some hostname =>
        failIf (crypto.hostnameMatches hostname leaf.dnsNames leaf.ipNames = false)
          (untrusted ("certificate does not match hostname " ++ hostname))

/-- What a CertificateVerify signature is over. -/
def signedContent (hashBeforeCv : Bytes) : Bytes :=
  List.replicate cvContextPad 0x20 ++ utf8 "TLS 1.3, server CertificateVerify" ++ [0] ++
    hashBeforeCv

/-- Verify a signature of a scheme with the key of the leaf. -/
def verifySignature (suite : UInt16) (leaf : Certificate) (scheme : UInt16)
    (content signature : Bytes) : Result Bool :=
  if scheme = SigScheme.RSA_PSS_PSS_SHA256 ∨ scheme = SigScheme.RSA_PSS_RSAE_SHA256 then do
    let (modulus, exponent) ← leafRsaKey leaf
    .ok (crypto.verifyPss modulus exponent .sha256 content 32 signature)
  else if scheme = SigScheme.RSA_PSS_PSS_SHA384 ∨ scheme = SigScheme.RSA_PSS_RSAE_SHA384 then do
    let (modulus, exponent) ← leafRsaKey leaf
    .ok (crypto.verifyPss modulus exponent .sha384 content 48 signature)
  else if scheme = SigScheme.RSA_PKCS1_SHA256 then do
    let (modulus, exponent) ← leafRsaKey leaf
    .ok (crypto.verifyPkcs1v15 modulus exponent .sha256 (crypto.hash .sha256 content) signature)
  else if scheme = SigScheme.RSA_PKCS1_SHA384 then do
    let (modulus, exponent) ← leafRsaKey leaf
    .ok (crypto.verifyPkcs1v15 modulus exponent .sha384 (crypto.hash .sha384 content) signature)
  else if scheme = SigScheme.ECDSA_SECP256R1_SHA256 then do
    failIf (suite ≠ Suite.AES_128_GCM_SHA256 ∧ suite ≠ Suite.CHACHA20_POLY1305_SHA256)
      (untrusted "ECDSA P-256 scheme with a SHA-384 suite")
    let (qx, qy) ← leafEcPoint leaf .p256
    .ok (crypto.ecdsaVerifyDer .p256 qx qy (crypto.hash .sha256 content) signature)
  else if scheme = SigScheme.ECDSA_SECP384R1_SHA384 then do
    failIf (suite ≠ Suite.AES_256_GCM_SHA384)
      (untrusted "ECDSA P-384 scheme with a SHA-256 suite")
    let (qx, qy) ← leafEcPoint leaf .p384
    .ok (crypto.ecdsaVerifyDer .p384 qx qy (crypto.hash .sha384 content) signature)
  else if scheme = SigScheme.ED25519 then do
    failIf (leaf.spkiKey.length ≠ 32) (untrusted "Ed25519 certificate key is not 32 bytes")
    failIf (signature.length ≠ 64) (untrusted "Ed25519 signature is not 64 bytes")
    .ok (crypto.ed25519Verify leaf.spkiKey content signature)
  else .error (untrusted "unsupported CertificateVerify signature scheme")

/-- Verify the server's CertificateVerify. -/
def verifyCertificateVerify (self : ClientHandshake RootStore) (body hashBeforeCv : Bytes) :
    Result Unit := do
  failIf (body.length < 4) (.wire "CertificateVerify truncated")
  let scheme ← u16At body 0
  let sigLen := (← u16At body 2).toNat
  failIf (4 + sigLen ≠ body.length) (.wire "CertificateVerify signature length mismatch")
  let signature ← restAt body 4
  let leafDer ← okOr self.chain.head? (.wire "CertificateVerify before any certificate")
  let leaf ← (crypto.parseCertificate leafDer).mapError fun error =>
    untrusted ("cannot parse leaf certificate: " ++ error)
  -- The chain and the hostname are checked before the signature is touched.
  self.validateCertificate crypto leaf
  let suite ← okOr self.suite (.wire "CertificateVerify before a cipher suite was negotiated")
  let ok ← verifySignature crypto suite leaf scheme (signedContent hashBeforeCv) signature
  failIf (ok = false) (untrusted "CertificateVerify signature did not verify")

/-! ### Finished -/

/-- The MAC of a Finished message. -/
def finishedMac (suite : UInt16) (trafficSecret transcriptHash : Bytes) : Bytes :=
  crypto.hmac (newDigest suite)
    (crypto.expandLabel (newDigest suite) trafficSecret (utf8 "finished") [] (hashLen suite))
    transcriptHash

/-- Verify the server's Finished. -/
def verifyServerFinished (self : ClientHandshake RootStore) (body hashBeforeFinished : Bytes) :
    Result Unit := do
  let suite ← okOr self.suite (.wire "server Finished before a cipher suite was negotiated")
  failIf (body.length ≠ hashLen suite) (.wire "server Finished has the wrong length")
  let sHs ← okOr self.sHs (.wire "server Finished before handshake secrets")
  failIf (finishedMac crypto suite sHs hashBeforeFinished ≠ body)
    (untrusted "server Finished did not verify")

/-- The master secret over a handshake secret. -/
def masterSecretOf (suite : UInt16) (handshakeSecret : Bytes) : Bytes :=
  crypto.hkdfExtract (newDigest suite)
    (deriveSecret crypto suite handshakeSecret "derived" (emptyHash crypto suite))
    (List.replicate (hashLen suite) 0)

/-- Derive the application secrets and build the client's Finished. -/
def deriveApplicationSecrets : Stateful (ClientHandshake RootStore) Error Bytes := do
  let self ← .read
  match self.suite with
  | none =>
      .fail (.wire "application secrets requested before a cipher suite was negotiated")
  | some suite =>
      match self.handshakeSecret with
      | none => .fail (.wire "application secrets before handshake secrets")
      | some handshakeSecret =>
          let master := masterSecretOf crypto suite handshakeSecret
          let chToSf := self.transcriptHash crypto
          match self.cHs with
          | none => .fail (.wire "client handshake secret not derived")
          | some cHs => do
              .update fun self => { self with
                cAp := some (deriveSecret crypto suite master "c ap traffic" chToSf)
                sAp := some (deriveSecret crypto suite master "s ap traffic" chToSf) }
              pure (hsMessage HsType.FINISHED (finishedMac crypto suite cHs chToSf))

/-! ### Feeding -/

/-- Record a message in the transcript. -/
def record (msg : Bytes) : Stateful (ClientHandshake RootStore) Error Unit :=
  .update fun self => { self with transcriptMsgs := self.transcriptMsgs ++ [msg] }

/-- One of the messages between ServerHello and Finished. -/
def feedFlight (msgType : UInt8) (body : Bytes) : Stateful (ClientHandshake RootStore) Error Unit := do
  let self ← .read
  if msgType ≠ self.next then .fail (.wire "TLS handshake messages out of order")
  else if msgType = HsType.ENCRYPTED_EXTENSIONS then do
    let params ← .lift (parseEncryptedExtensions varint body)
    .update fun self => { self with serverParams := some params, next := HsType.CERTIFICATE }
  else if msgType = HsType.CERTIFICATE then do
    let chain ← .lift (parseCertificateList body)
    .update fun self => { self with chain := chain, next := HsType.CERTIFICATE_VERIFY }
  else if msgType = HsType.CERTIFICATE_VERIFY then do
    .lift (self.verifyCertificateVerify crypto body (self.transcriptHash crypto))
    .update fun self => { self with next := HsType.FINISHED }
  else .fail (.wire "TLS handshake message out of order")

/-- The server's Finished. -/
def feedFinished (msg body : Bytes) : Stateful (ClientHandshake RootStore) Error Completed := do
  let self ← .read
  if self.next ≠ HsType.FINISHED then .fail (.wire "TLS handshake messages out of order")
  else do
    .lift (self.verifyServerFinished crypto body (self.transcriptHash crypto))
    record msg
    let clientFinished ← deriveApplicationSecrets crypto
    .update fun self => { self with done := true }
    match self.suite with
    | none => .fail (.wire "TLS Finished without a negotiated cipher suite")
    | some suite => pure ⟨clientFinished, suite⟩

/-- The type and the body of a handshake message. -/
def splitMessage (msg : Bytes) : Result (UInt8 × Bytes) := do
  failIf (msg.length < 4) (.wire "TLS handshake message too short")
  let msgType ← byteAt msg 0
  let len := ofBe24 (← byteAt msg 1) (← byteAt msg 2) (← byteAt msg 3)
  failIf (4 + len ≠ msg.length) (.wire "TLS handshake message length mismatch")
  .ok (msgType, ← restAt msg 4)

/-- Feed one complete handshake message. It returns `Completed` when the
handshake finishes, right after the server's Finished is verified. -/
def feed (msg : Bytes) : Stateful (ClientHandshake RootStore) Error (Option Completed) := do
  let (msgType, body) ← .lift (splitMessage msg)
  let self ← .read
  if msgType = HsType.SERVER_HELLO ∧ self.sawServerHello = false then do
    parseServerHello crypto body
    -- The secrets are derived over `ClientHello..ServerHello`.
    record msg
    deriveHandshakeSecrets crypto
    pure none
  else if (msgType = HsType.ENCRYPTED_EXTENSIONS ∨ msgType = HsType.CERTIFICATE ∨
      msgType = HsType.CERTIFICATE_VERIFY) ∧ self.sawServerHello = true then do
    feedFlight crypto varint msgType body
    record msg
    pure none
  else if msgType = HsType.FINISHED ∧ self.sawServerHello = true then do
    pure (some (← feedFinished crypto msg body))
  else .fail (.wire "unexpected TLS handshake message")

end ClientHandshake

end RecurseX.Doq
