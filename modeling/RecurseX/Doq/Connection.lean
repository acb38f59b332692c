import Mathlib.Data.List.Sort
import RecurseX.Doq.Tls

/-!
# The QUIC connection

The state a DoQ client keeps for one connection, and how it sends. Packet and
frame codecs, packet protection and stream identifiers come from outside and are
parameters; so are the socket and the clock of each operation.
-/

namespace RecurseX.Doq

open Library Wire

/-! ## What comes from outside -/

/-- The types of a long-header packet. -/
inductive LongType where
  | initial
  | zeroRtt
  | handshake
  | retry
deriving DecidableEq, Repr

/-- A QUIC frame, with the fields a client reads or writes. -/
inductive Frame where
  | padding (count : Nat)
  | ping
  | ack (largestAcked ackDelay : Nat) (ranges : List (Nat × Nat))
  | resetStream (streamId appErrorCode finalSize : Nat)
  | stopSending (streamId : Nat)
  | crypto (offset : Nat) (data : Bytes)
  | newToken
  | stream (streamId : Nat) (offset : Option Nat) (data : Bytes) (length : Option Nat) (fin : Bool)
  | maxData (max : Nat)
  | maxStreamData (streamId max : Nat)
  | maxStreams (unidirectional : Bool) (max : Nat)
  | dataBlocked
  | streamDataBlocked
  | streamsBlocked
  | newConnectionId (sequence : Nat)
  | retireConnectionId (sequence : Nat)
  | pathChallenge (tag : Bytes)
  | pathResponse (tag : Bytes)
  | connectionClose (errorCode : Nat) (frameType : Option Nat) (reason : Bytes)
  | handshakeDone
  | datagram
deriving DecidableEq, Repr

/-- Packet and frame codecs, packet protection and stream identifiers. -/
structure Codec (PacketKey : Type) where
  varint : Varint
  encodeFrame : Frame → Bytes
  /-- The frame at the start, and the octets it took. -/
  decodeFrame : Bytes → Option (Frame × Nat)
  encodeLong : LongType → (dcid scid : Bytes) → (pn pnLen : Nat) → (token : Bytes) →
    (payloadLen : Nat) → Except String Bytes
  encodeShort : (dcid : Bytes) → (pn pnLen : Nat) → (keyPhase : Bool) → Except String Bytes
  decodePn : Bytes → (expected pnLen : Nat) → Nat
  /-- The Initial key over a destination connection identifier, of the server or the client. -/
  initialKey : (dcid : Bytes) → (server : Bool) → Except String PacketKey
  fromSecret : (suite : UInt16) → (secret : Bytes) → Except String PacketKey
  sealPacket : PacketKey → (pn : Nat) → (header plaintext : Bytes) → Except String Bytes
  openPacket : PacketKey → (pn : Nat) → (header payload : Bytes) → Option Bytes
  protectHeader : PacketKey → (packet : Bytes) → (pnOffset : Nat) → (isLong : Bool) →
    Except String Bytes
  /-- The length of the packet number, and the packet with its header in the clear. -/
  unprotectHeader : PacketKey → (packet : Bytes) → (pnOffset : Nat) → (isLong : Bool) →
    Option (Nat × Bytes)
  verifyRetryIntegrity : (originalDcid retryWire tag : Bytes) → Except String Bool
  clientBidi : Nat
  serverUni : Nat
  streamId : (streamType index : Nat) → Nat
  streamType : Nat → Nat
  streamIndex : Nat → Nat

/-- The socket, the clock and the random octets an operation meets. -/
structure Env where
  /-- The time, in nanoseconds. -/
  now : Nat
  sendTo : Bytes → Result Unit
  entropy : Entropy

/-! ## Constants -/

/-- The minimum size of a datagram that carries an Initial packet. -/
def MIN_INITIAL_DATAGRAM : Nat := 1200

/-- The packet number length of every packet we send. -/
def PN_LEN : Nat := 4

/-- The size of an AEAD tag. -/
def TAG_LEN : Nat := 16

/-- Upper bound on a STREAM chunk inside a packet. -/
def MAX_CHUNK : Nat := 1100

/-- Cap on buffered CRYPTO data. -/
def MAX_CRYPTO_BUFFER : Nat := 64 * 1024

/-- Cap on buffered response data. -/
def MAX_RESPONSE_BUFFER : Nat := 2 ^ 20

/-- A millisecond. -/
def millis (count : Nat) : Nat := count * 1000000

/-- The floor of a probe timeout. -/
def PTO_FLOOR : Nat := millis 50

/-- Consecutive probe timeouts before giving up. -/
def MAX_PTO_COUNT : Nat := 10

/-- The probe timeout before any round trip was measured. -/
def INITIAL_PTO : Nat := millis 500

/-- The ACK delay we advertise. -/
def MAX_ACK_DELAY : Nat := millis 25

def VERSION_1 : UInt32 := 1

/-- The largest `u64`. -/
def u64Max : Nat := 2 ^ 64 - 1

/-! ## Packet-number spaces -/

/-- A packet-number space. -/
inductive Space where
  | initial
  | handshake
  | application
deriving DecidableEq, Repr

/-- What is kept for each space. -/
structure PerSpace (α : Type) where
  initial : α
  handshake : α
  application : α
deriving DecidableEq, Repr

namespace PerSpace

variable {α : Type}

/-- The same everywhere. -/
def all (value : α) : PerSpace α := ⟨value, value, value⟩

/-- The entry for `space`. -/
def atSpace (entries : PerSpace α) : Space → α
  | .initial => entries.initial
  | .handshake => entries.handshake
  | .application => entries.application

/-- Replace the entry for `space`. -/
def set (entries : PerSpace α) (space : Space) (value : α) : PerSpace α :=
  match space with
  | .initial => { entries with initial := value }
  | .handshake => { entries with handshake := value }
  | .application => { entries with application := value }

@[simp] theorem atSpace_set_self (entries : PerSpace α) (space : Space) (value : α) :
    (entries.set space value).atSpace space = value := by
  cases space <;> rfl

theorem atSpace_set_of_ne {entries : PerSpace α} {space other : Space} {value : α}
    (distinct : other ≠ space) : (entries.set space value).atSpace other = entries.atSpace other := by
  cases space <;> cases other <;> first | rfl | exact absurd rfl distinct

end PerSpace

/-! ## Sending and receiving state -/

/-- A sent packet that was not acknowledged yet. -/
structure SentPacket where
  space : Space
  pn : Nat
  sent : Nat
  /-- The frames to send again. -/
  frames : List Frame
deriving DecidableEq, Repr

/-- The send state of the query. -/
structure QuerySend where
  data : Bytes
  offset : Nat
  connUsed : Nat
  finSent : Bool
deriving DecidableEq, Repr

/-- The response of the current query stream. -/
structure QueryRecv where
  buf : Bytes
  fin : Bool
deriving DecidableEq, Repr

/-- Nothing received. -/
def QueryRecv.default : QueryRecv := ⟨[], false⟩

def QueryRecv.complete (self : QueryRecv) : Bool := self.fin

/-- CRYPTO-stream reassembly for one space: `buf` holds the unread octets from
the absolute offset `start` on. -/
structure CryptoRx where
  buf : Bytes
  start : Nat
  /-- Out-of-order data, by ascending offset. -/
  pending : List (Nat × Bytes)
deriving DecidableEq, Repr

namespace CryptoRx

/-- Nothing received. -/
def default : CryptoRx := ⟨[], 0, []⟩

def buffered (self : CryptoRx) : Nat :=
  self.buf.length + (self.pending.map fun entry => entry.2.length).sum

/-- Where the contiguous octets end. -/
def contiguousEnd (self : CryptoRx) : Nat := self.start + self.buf.length

/-- Park data under its offset, unless some is there already. -/
def park (offset : Nat) (data : Bytes) : List (Nat × Bytes) → List (Nat × Bytes)
  | [] => [(offset, data)]
  | (other, chunk) :: rest =>
      if offset < other then (offset, data) :: (other, chunk) :: rest
      else if offset = other then (other, chunk) :: rest
      else (other, chunk) :: park offset data rest

theorem park_cons (offset other : Nat) (data chunk : Bytes) (rest : List (Nat × Bytes)) :
    park offset data ((other, chunk) :: rest) =
      if offset < other then (offset, data) :: (other, chunk) :: rest
      else if offset = other then (other, chunk) :: rest
      else (other, chunk) :: park offset data rest :=
  rfl

/-- Move the parked data that has become contiguous. The offsets ascend, so the
first of them decides. -/
def drainFrom (start : Nat) (buf : Bytes) : List (Nat × Bytes) → CryptoRx
  | [] => ⟨buf, start, []⟩
  | (off, chunk) :: rest =>
      if off ≤ start + buf.length then
        drainFrom start (buf ++ chunk.drop (start + buf.length - off)) rest
      else ⟨buf, start, (off, chunk) :: rest⟩

theorem drainFrom_cons (start off : Nat) (buf chunk : Bytes) (rest : List (Nat × Bytes)) :
    drainFrom start buf ((off, chunk) :: rest) =
      if off ≤ start + buf.length then
        drainFrom start (buf ++ chunk.drop (start + buf.length - off)) rest
      else ⟨buf, start, (off, chunk) :: rest⟩ :=
  rfl

def drainPending (self : CryptoRx) : CryptoRx := drainFrom self.start self.buf self.pending

/-- Take the data of a CRYPTO frame. -/
def insert (self : CryptoRx) (offset : Nat) (data : Bytes) : Result CryptoRx :=
  if self.buffered + data.length > MAX_CRYPTO_BUFFER then
    .error (.transport "doq CRYPTO buffer overflow")
  else if offset + data.length ≤ self.start then .ok self
  else if offset > self.contiguousEnd then
    .ok { self with pending := park offset data self.pending }
  else
    -- What lies before `start` was consumed already.
    let fresh := if offset < self.start then data.drop (self.start - offset) else data
    let present := self.contiguousEnd - max offset self.start
    .ok { self with buf := self.buf ++ fresh.drop present }.drainPending

/-- Pop one complete handshake message, if there is one. -/
def popMessage (self : CryptoRx) : Option (Bytes × CryptoRx) :=
  match self.buf with
  | _ :: second :: third :: fourth :: _ =>
      let take := 4 + ofBe24 second third fourth
      if self.buf.length < take then none
      else some (self.buf.take take,
        { self with buf := self.buf.drop take, start := self.start + take }.drainPending)
  | _ => none

end CryptoRx

/-! ## The connection -/

/-- What passed on a connection. Nothing in the connection reads it. -/
inductive Event (PacketKey : Type) where
  /-- Frames were handed to `sendPacket`. -/
  | handed (space : Space) (frames : List Frame)
  /-- A packet went out. -/
  | sent (space : Space) (key : PacketKey) (pn : Nat) (frames : List Frame)
  /-- A frame of a packet that opened was taken. -/
  | received (space : Space) (frame : Frame)
  /-- A handshake message was complete in the CRYPTO stream of a space. -/
  | completed (space : Space) (msg : Bytes)
  /-- The handshake accepted it. -/
  | accepted (space : Space) (msg : Bytes)
  /-- A Retry was taken: the key Initial packets were sealed with, and the one from now on. -/
  | retried (old new : PacketKey)
deriving DecidableEq, Repr

/-- The QUIC client connection. -/
structure QuicConnection (PacketKey RootStore : Type) where
  localCid : Bytes
  serverCid : Bytes
  originalDcid : Bytes
  retryToken : Bytes
  retryScid : Option Bytes
  sawServerScid : Bool
  tlsCfg : ClientConfig RootStore
  tls : ClientHandshake RootStore
  initialWrite : PacketKey
  initialRead : PacketKey
  hsWrite : Option PacketKey
  hsRead : Option PacketKey
  appWrite : Option PacketKey
  appRead : Option PacketKey
  nextPn : PerSpace Nat
  largestRx : PerSpace Nat
  /-- Received packet numbers that are to be acknowledged, ascending. -/
  pendingAcks : PerSpace (List Nat)
  handshakeConfirmed : Bool
  cryptoRx : PerSpace CryptoRx
  cryptoTx : PerSpace Nat
  streamId : Nat
  queryTx : Option QuerySend
  queryRx : QueryRecv
  openedBidi : Nat
  /-- The limits the server set. -/
  peerMaxData : Nat
  peerMaxStreamData : Nat
  peerMaxStreamsBidi : Nat
  peerMaxStreamsUni : Nat
  /-- The receive windows we advertised. -/
  ourMaxData : Nat
  ourMaxStreamDataBidiLocal : Nat
  ourMaxStreamDataUni : Nat
  ourMaxStreamsUni : Nat
  connRxConsumed : Nat
  serverUniOpened : Nat
  uniConsumed : List (Nat × Nat)
  sent : List SentPacket
  srtt : Option Nat
  rttvar : Nat
  ptoCount : Nat
  closeSent : Bool
  closed : Option Error
  /-- What passed so far. -/
  log : List (Event PacketKey)

/-- An operation on the connection. -/
abbrev Act (PacketKey RootStore α : Type) := Stateful (QuicConnection PacketKey RootStore) Error α

namespace QuicConnection

variable {PacketKey RootStore : Type}

/-- Whether the connection is still usable. -/
def isOpen (self : QuicConnection PacketKey RootStore) : Bool :=
  self.closed.isNone && !self.closeSent

/-- Note what passed. -/
def note (event : Event PacketKey) : Act PacketKey RootStore Unit :=
  .update fun self => { self with log := self.log ++ [event] }

/-- Close the connection with an error. -/
def shut {α : Type} (error : Error) : Act PacketKey RootStore α := do
  .update fun self => { self with closed := some error }
  .fail error

variable (codec : Codec PacketKey) (env : Env)

/-! ## Sending -/

/-- The key packets of a space are sealed with. -/
def writeKey (self : QuicConnection PacketKey RootStore) : Space → Result PacketKey
  | .initial => .ok self.initialWrite
  | .handshake => okOr self.hsWrite (.transport "doq handshake write key missing")
  | .application => okOr self.appWrite (.transport "doq application write key missing")

/-- The header of the next packet of a space. -/
def packetHeader (self : QuicConnection PacketKey RootStore) (space : Space) (payloadLen : Nat) :
    Result Bytes :=
  let pn := self.nextPn.atSpace space
  (match space with
    | .initial => codec.encodeLong .initial self.serverCid self.localCid pn PN_LEN
        self.retryToken payloadLen
    | .handshake => codec.encodeLong .handshake self.serverCid self.localCid pn PN_LEN []
        payloadLen
    | .application => codec.encodeShort self.serverCid pn PN_LEN false).mapError
    fun error => .transport ("doq header: " ++ error)

/-- Header and sealed payload. Padding lengthens the payload until the datagram
has its minimum size, which takes less than that many rounds. -/
def assemble (self : QuicConnection PacketKey RootStore) (space : Space) (key : PacketKey)
    (padInitial : Bool) : (fuel : Nat) → (plaintext : Bytes) → Result (Bytes × Bytes)
  | 0, _ => .error (.internal "padding does not end")
  | fuel + 1, plaintext => do
      let payloadLen := PN_LEN + plaintext.length + TAG_LEN
      let header ← self.packetHeader codec space payloadLen
      let datagramLen := header.length + payloadLen - PN_LEN
      if padInitial = true ∧ datagramLen < MIN_INITIAL_DATAGRAM then
        assemble self space key padInitial fuel
          (plaintext ++ List.replicate (MIN_INITIAL_DATAGRAM - datagramLen) 0)
      else do
        let sealed ← (codec.sealPacket key (self.nextPn.atSpace space) header plaintext).mapError
          fun error => .transport ("doq seal: " ++ error)
        .ok (header, sealed)

/-- The protected datagram of the next packet of a space. -/
def wirePacket (self : QuicConnection PacketKey RootStore) (space : Space) (key : PacketKey)
    (frames : List Frame) (padInitial : Bool) : Result Bytes := do
  let (header, sealed) ← self.assemble codec space key padInitial (MIN_INITIAL_DATAGRAM + 1)
    (frames.flatMap codec.encodeFrame)
  (codec.protectHeader key (header ++ sealed) (header.length - PN_LEN)
    (space != .application)).mapError fun error => .transport ("doq header protection: " ++ error)

/-- The state after a packet went out. -/
def afterSend (self : QuicConnection PacketKey RootStore) (space : Space) (key : PacketKey)
    (frames : List Frame) (now : Nat) : QuicConnection PacketKey RootStore :=
  let pn := self.nextPn.atSpace space
  { self with
    nextPn := self.nextPn.set space ((pn + 1) % 2 ^ 64)
    sent := if frames.isEmpty then self.sent else self.sent ++ [⟨space, pn, now, frames⟩]
    log := self.log ++ [.sent space key pn frames] }

/-- Send and account for a packet with the given frames. `padInitial` pads the
datagram to the minimum of an Initial. -/
def sendPacket (space : Space) (frames : List Frame) (padInitial : Bool) :
    Act PacketKey RootStore Unit := do
  note (.handed space frames)
  let self ← .read
  let key ← .lift (self.writeKey space)
  let wire ← .lift (self.wirePacket codec space key frames padInitial)
  .lift ((env.sendTo wire).mapError fun error => .io ("doq send: " ++ error.msg))
  .update fun self => self.afterSend space key frames env.now

/-- Send a CRYPTO frame. -/
def sendCrypto (space : Space) (data : Bytes) (offset : Nat) (pad : Bool) :
    Act PacketKey RootStore Unit :=
  sendPacket codec env space [.crypto offset data] pad

/-! ### Acknowledgements -/

/-- How many packet numbers below `largest` follow one another, from `len` on, and the rest. -/
def ackRun (largest : Nat) : (len : Nat) → List Nat → Nat × List Nat
  | len, [] => (len, [])
  | len, next :: rest =>
      if len ≤ largest ∧ largest - len = next then ackRun largest (len + 1) rest
      else (len, next :: rest)

/-- The runs of descending packet numbers, each with its low end and its length. -/
def ackRuns : (fuel : Nat) → List Nat → List (Nat × Nat)
  | _, [] => []
  | 0, _ => []
  | fuel + 1, largest :: rest =>
      let (len, later) := ackRun largest 1 rest
      (largest - (len - 1), len) :: ackRuns fuel later

/-- The gaps and lengths of the runs below `prevLow`. -/
def ackRanges (prevLow : Nat) : List (Nat × Nat) → List (Nat × Nat)
  | [] => []
  | (low, len) :: runs => (prevLow - (low + (len - 1) + 2), len - 1) :: ackRanges low runs

/-- An ACK frame over the given packet numbers. -/
def buildAckFrame (pns : List Nat) : Frame :=
  let sorted := pns.insertionSort (· ≤ ·)
  match ackRuns sorted.length sorted.reverse with
  | [] => .ack 0 0 [(0, 0)]
  | (topLow, topLen) :: runs =>
      .ack (topLow + (topLen - 1)) 0 ((0, topLen - 1) :: ackRanges topLow runs)

/-- Forget the packet numbers that are to be acknowledged. -/
def clearAcks (space : Space) : Act PacketKey RootStore Unit :=
  .update fun self => { self with pendingAcks := self.pendingAcks.set space [] }

/-- Acknowledge what is pending in a space. The Initial space is closed once the
handshake is confirmed, and a failure to send is not fatal. -/
def flushAcksOf (space : Space) : Act PacketKey RootStore Unit := do
  let self ← .read
  if self.pendingAcks.atSpace space = [] then pure ()
  else if space = .initial ∧ self.handshakeConfirmed = true then clearAcks space
  else do
    clearAcks space
    .attempt (sendPacket codec env space [buildAckFrame (self.pendingAcks.atSpace space)]
      (space == .initial && !self.handshakeConfirmed))

/-- Send the pending acknowledgements of every space. -/
def flushAcks : Act PacketKey RootStore Unit := do
  flushAcksOf codec env .initial
  flushAcksOf codec env .handshake
  flushAcksOf codec env .application

end QuicConnection

end RecurseX.Doq
