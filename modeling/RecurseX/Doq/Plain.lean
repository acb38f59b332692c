import RecurseX.Doq.Drive
import RecurseX.Doq.Handshake

/-!
# Packets in the clear

The wire formats of QUIC version 1 for the packets and frames a DoQ exchange
needs, without their protection: a packet is sealed with a tag anyone can
compute. It is a codec to run the connection with.
-/

namespace RecurseX.Doq

open Library Wire

/-- What the connection relies on in stream identifiers and header protection. -/
structure Codec.Lawful {PacketKey : Type} (codec : Codec PacketKey) : Prop where
  distinct : codec.clientBidi ≠ codec.serverUni
  streamType : ∀ index, codec.streamType (codec.streamId codec.clientBidi index) = codec.clientBidi
  streamIndex : ∀ index, codec.streamIndex (codec.streamId codec.clientBidi index) = index
  /-- Protection is in place, and its sample is sixteen octets, four past the start of
  the packet number. -/
  unprotected : ∀ {key dg pnOffset isLong pnLen packet},
    codec.unprotectHeader key dg pnOffset isLong = some (pnLen, packet) →
      packet.length = dg.length ∧ pnOffset + 20 ≤ dg.length

namespace Plain

/-- The big-endian octets of a number. -/
def bigEndian : (count value : Nat) → Bytes
  | 0, _ => []
  | count + 1, value => bigEndian count (value / 256) ++ [UInt8.ofNat value]

/-- The number of big-endian octets. -/
def ofBigEndian (octets : Bytes) : Nat :=
  octets.foldl (fun value octet => value * 256 + octet.toNat) 0

/-! ## Variable-length integers -/

def encodeVarint (value : Nat) : Bytes :=
  if value < 2 ^ 6 then bigEndian 1 value
  else if value < 2 ^ 14 then bigEndian 2 (value + 2 ^ 14)
  else if value < 2 ^ 30 then bigEndian 4 (value + 2 ^ 31)
  else bigEndian 8 (value + 3 * 2 ^ 62)

def decodeVarint (octets : Bytes) : Option (Nat × Nat) :=
  match octets with
  | [] => none
  | first :: _ =>
      let count := 2 ^ (first.toNat / 64)
      if octets.length < count then none
      else some (ofBigEndian (octets.take count) % 2 ^ (8 * count - 2), count)

def varint : Varint := ⟨encodeVarint, decodeVarint⟩

/-- The integer at the start, and the octets after it. -/
def takeVarint (octets : Bytes) : Option (Nat × Bytes) :=
  (decodeVarint octets).map fun (value, used) => (value, octets.drop used)

/-- That many octets from the start, and those after them. -/
def takeOctets (count : Nat) (octets : Bytes) : Option (Bytes × Bytes) :=
  if octets.length < count then none else some (octets.take count, octets.drop count)

/-! ## Frames -/

def encodeRanges (ranges : List (Nat × Nat)) : Bytes :=
  ranges.flatMap fun (gap, rangeLen) => encodeVarint gap ++ encodeVarint rangeLen

def encodeFrame : Frame → Bytes
  | .padding count => List.replicate count 0x00
  | .ping => [0x01]
  | .ack largest delay ((_, first) :: ranges) =>
      0x02 :: encodeVarint largest ++ encodeVarint delay ++ encodeVarint ranges.length ++
        encodeVarint first ++ encodeRanges ranges
  | .resetStream streamId code size =>
      0x04 :: encodeVarint streamId ++ encodeVarint code ++ encodeVarint size
  | .crypto offset data => 0x06 :: encodeVarint offset ++ encodeVarint data.length ++ data
  | .stream streamId offset data _ fin =>
      (if fin then 0x0f else 0x0e) :: encodeVarint streamId ++ encodeVarint (offset.getD 0) ++
        encodeVarint data.length ++ data
  | .maxData limit => 0x10 :: encodeVarint limit
  | .maxStreamData streamId limit => 0x11 :: encodeVarint streamId ++ encodeVarint limit
  | _ => []

def decodeRanges : (count : Nat) → Bytes → Option (List (Nat × Nat) × Bytes)
  | 0, rest => some ([], rest)
  | count + 1, rest => do
      let (gap, rest) ← takeVarint rest
      let (rangeLen, rest) ← takeVarint rest
      let (ranges, rest) ← decodeRanges count rest
      some ((gap, rangeLen) :: ranges, rest)

/-- A frame without its type, and the octets after it. -/
def decodeBody (frameType : UInt8) (rest : Bytes) : Option (Frame × Bytes) :=
  match frameType with
  | 0x00 => some (.padding 1, rest)
  | 0x01 => some (.ping, rest)
  | 0x02 => do
      let (largest, rest) ← takeVarint rest
      let (delay, rest) ← takeVarint rest
      let (count, rest) ← takeVarint rest
      let (first, rest) ← takeVarint rest
      let (ranges, rest) ← decodeRanges count rest
      some (.ack largest delay ((0, first) :: ranges), rest)
  | 0x06 => do
      let (offset, rest) ← takeVarint rest
      let (count, rest) ← takeVarint rest
      let (data, rest) ← takeOctets count rest
      some (.crypto offset data, rest)
  | 0x10 => do
      let (limit, rest) ← takeVarint rest
      some (.maxData limit, rest)
  | 0x11 => do
      let (streamId, rest) ← takeVarint rest
      let (limit, rest) ← takeVarint rest
      some (.maxStreamData streamId limit, rest)
  | frameType =>
      if frameType = 0x0e ∨ frameType = 0x0f then do
        let (streamId, rest) ← takeVarint rest
        let (offset, rest) ← takeVarint rest
        let (count, rest) ← takeVarint rest
        let (data, rest) ← takeOctets count rest
        some (.stream streamId (some offset) data (some count) (frameType == 0x0f), rest)
      else none

def decodeFrame : Bytes → Option (Frame × Nat)
  | [] => none
  | frameType :: rest =>
      (decodeBody frameType rest).map fun (frame, later) => (frame, 1 + rest.length - later.length)

/-! ## Packets -/

def encodeLong (type : LongType) (dcid scid : Bytes) (pn pnLen : Nat) (token : Bytes)
    (payloadLen : Nat) : Except String Bytes :=
  let code : UInt8 := match type with
    | .initial => 0
    | .zeroRtt => 1
    | .handshake => 2
    | .retry => 3
  .ok ((0xc0 + code * 16 + UInt8.ofNat (pnLen - 1)) :: [0, 0, 0, 1] ++
    UInt8.ofNat dcid.length :: dcid ++ UInt8.ofNat scid.length :: scid ++
    (if type = .initial then encodeVarint token.length ++ token else []) ++
    encodeVarint payloadLen ++ bigEndian pnLen pn)

def encodeShort (dcid : Bytes) (pn pnLen : Nat) (_keyPhase : Bool) : Except String Bytes :=
  .ok ((0x40 + UInt8.ofNat (pnLen - 1)) :: dcid ++ bigEndian pnLen pn)

/-- The tag of a packet under a key. -/
def tagOf (key : Bytes) : Bytes := List.replicate TAG_LEN (key.foldl (· + ·) 0)

def openPacket (key : Bytes) (_pn : Nat) (_header payload : Bytes) : Option Bytes :=
  let (plaintext, tag) := payload.splitAt (payload.length - TAG_LEN)
  if tag = tagOf key then some plaintext else none

def unprotectHeader (_key packet : Bytes) (pnOffset : Nat) (_isLong : Bool) : Option (Nat × Bytes) :=
  match packet with
  | [] => none
  | first :: _ =>
      if packet.length < pnOffset + 20 then none else some ((first &&& 0x03).toNat + 1, packet)

/-- The codec: the key of a packet is an identifier or a secret as it is. -/
def codec : Codec Bytes where
  varint := varint
  encodeFrame := encodeFrame
  decodeFrame := decodeFrame
  encodeLong := encodeLong
  encodeShort := encodeShort
  decodePn octets _ _ := ofBigEndian octets
  initialKey dcid server := .ok ((if server then 1 else 0) :: dcid)
  fromSecret _ secret := .ok secret
  sealPacket key _ _ plaintext := .ok (plaintext ++ tagOf key)
  openPacket := openPacket
  protectHeader _ packet _ _ := .ok packet
  unprotectHeader := unprotectHeader
  verifyRetryIntegrity originalDcid _ tag := .ok (tag == tagOf originalDcid)
  clientBidi := 0
  serverUni := 3
  streamId streamType index := index * 4 + streamType
  streamType streamId := streamId % 4
  streamIndex streamId := streamId / 4

theorem codec_lawful : codec.Lawful where
  distinct := by decide
  streamType index := by simp [codec]
  streamIndex index := by simp [codec]
  unprotected := by
    intro key dg pnOffset isLong pnLen packet opened
    cases dg with
    | nil => cases opened
    | cons first rest =>
        change (if _ then _ else _) = _ at opened
        split_ifs at opened with short
        cases opened
        exact ⟨rfl, Nat.not_lt.mp short⟩

/-! ## A connection -/

/-- A packet with a long header. -/
def longPacket (type : LongType) (dcid scid : Bytes) (pn : Nat) (key : Bytes)
    (frames : List Frame) : Bytes :=
  let plaintext := frames.flatMap encodeFrame
  (encodeLong type dcid scid pn PN_LEN [] (PN_LEN + plaintext.length + TAG_LEN)).toOption.getD [] ++
    plaintext ++ tagOf key

/-- A packet with a short header. -/
def shortPacket (dcid : Bytes) (pn : Nat) (key : Bytes) (frames : List Frame) : Bytes :=
  (encodeShort dcid pn PN_LEN false).toOption.getD [] ++ frames.flatMap encodeFrame ++ tagOf key

/-- A socket that takes everything. -/
def env : Env := ⟨0, fun _ => .ok (), Sample.entropy⟩

/-- A connection to a server. -/
def connection : QuicConnection Bytes Bytes :=
  let cfg := { Sample.cfg with transportParams := .clientDefaults [1] }
  let tls := ((ClientHandshake.new cfg Sample.entropy).clientHello varint).2
  { localCid := [1], serverCid := [2], originalDcid := [2], retryToken := [], retryScid := none
    sawServerScid := false, tlsCfg := cfg, tls := tls
    initialWrite := [0, 2], initialRead := [1, 2]
    hsWrite := none, hsRead := none, appWrite := none, appRead := none
    nextPn := .all 0, largestRx := .all 0, pendingAcks := .all [], handshakeConfirmed := false
    cryptoRx := .all .default, cryptoTx := .all 0
    streamId := 0, queryTx := none, queryRx := .default, openedBidi := 0
    peerMaxData := u64Max, peerMaxStreamData := u64Max, peerMaxStreamsBidi := 1
    peerMaxStreamsUni := 1, ourMaxData := 2 ^ 20, ourMaxStreamDataBidiLocal := 2 ^ 20
    ourMaxStreamDataUni := 2 ^ 20, ourMaxStreamsUni := 8
    connRxConsumed := 0, serverUniOpened := 0, uniConsumed := []
    sent := [], srtt := none, rttvar := 0, ptoCount := 0, closeSent := false, closed := none
    log := [] }

/-- Its ClientHello. -/
def hello : Bytes := ClientHandshake.greeting varint Sample.cfg Sample.entropy

/-- It is the connection a client starts with. -/
theorem fresh_connection :
    QuicConnection.fresh codec Sample.cfg env.entropy [1] [2] = .ok (hello, connection) := rfl

/-- The connection that has sent its ClientHello. -/
def started : QuicConnection Bytes Bytes := (QuicConnection.greet codec env hello connection).2

/-- A Retry for the connection, with an identifier of the server. -/
def retry (scid : Bytes) : Bytes :=
  [0xf0, 0, 0, 0, 1, 1, 1, UInt8.ofNat scid.length] ++ scid ++ tagOf connection.originalDcid

/-- The datagram with the ServerHello. -/
def serverHello : Bytes := longPacket .initial [1] [9] 0 [1, 2] [.crypto 0 Sample.serverHello]

/-- The datagram with the rest of the flight of a server: its transport parameters, and
the octets its signature and its Finished are made of. -/
def flight (params : Bytes) (signature mac : UInt8) : Bytes :=
  longPacket .handshake [1] [9] 0 (List.replicate 32 205) [.crypto 0
    (hsMessage HsType.ENCRYPTED_EXTENSIONS
      (be16 (UInt16.ofNat (params.length + 4)) ++ extension 0x0039 params) ++
    Sample.certificate ++
    hsMessage HsType.CERTIFICATE_VERIFY
      (be16 SigScheme.ED25519 ++ be16 64 ++ List.replicate 64 signature) ++
    hsMessage HsType.FINISHED (List.replicate 32 mac))]

end Plain

end RecurseX.Doq
