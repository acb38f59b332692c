import RecurseX.Doq.Connection

/-!
# Receiving on the QUIC connection

A datagram is taken apart into packets, a packet into frames, and every frame
changes the connection: acknowledgements, handshake data, stream data, limits.
-/

namespace RecurseX.Doq

open Library Wire

/-! ## Text -/

/-- Whether an octet may be the second one after `first`, and how many more follow it. -/
def utf8Lead (first second : UInt8) : Option Nat :=
  if 0xc2 ≤ first ∧ first ≤ 0xdf ∧ 0x80 ≤ second ∧ second ≤ 0xbf then some 0
  else if (first = 0xe0 ∧ 0xa0 ≤ second ∧ second ≤ 0xbf) ∨
      (first = 0xed ∧ 0x80 ≤ second ∧ second ≤ 0x9f) ∨
      (0xe1 ≤ first ∧ first ≤ 0xef ∧ first ≠ 0xed ∧ 0x80 ≤ second ∧ second ≤ 0xbf) then some 1
  else if (first = 0xf0 ∧ 0x90 ≤ second ∧ second ≤ 0xbf) ∨
      (0xf1 ≤ first ∧ first ≤ 0xf3 ∧ 0x80 ≤ second ∧ second ≤ 0xbf) ∨
      (first = 0xf4 ∧ 0x80 ≤ second ∧ second ≤ 0x8f) then some 2
  else none

/-- The character of a value. -/
def charOf (value : Nat) : Char := Char.ofNat value

/-- Add the six bits of a continuation octet. -/
def continued (value : Nat) (octet : UInt8) : Nat := value * 64 + (octet &&& 0x3f).toNat

/-- The character at the start of a text that is not empty, and the octets after
it. An octet sequence that is none gives U+FFFD for as much of it as could have
started one. -/
def utf8Next (first : UInt8) (rest : Bytes) : Char × Bytes :=
  let replacement := charOf 0xfffd
  if first < 0x80 then (charOf first.toNat, rest)
  else
    match rest with
    | [] => (replacement, [])
    | second :: later =>
        match utf8Lead first second with
        | none => (replacement, second :: later)
        | some 0 => (charOf (continued (first &&& 0x1f).toNat second), later)
        | some more =>
            let lead := continued ((if more = 1 then first &&& 0x0f else first &&& 0x07).toNat) second
            match later with
            | [] => (replacement, [])
            | third :: last =>
                if third < 0x80 ∨ third > 0xbf then (replacement, third :: last)
                else if more = 1 then (charOf (continued lead third), last)
                else
                  match last with
                  | [] => (replacement, [])
                  | fourth :: tail =>
                      if fourth < 0x80 ∨ fourth > 0xbf then (replacement, fourth :: tail)
                      else (charOf (continued (continued lead third) fourth), tail)

/-- The text of octets that need not be one. -/
def utf8Lossy : (fuel : Nat) → Bytes → List Char
  | _, [] => []
  | 0, _ => []
  | fuel + 1, first :: rest =>
      let (char, later) := utf8Next first rest
      char :: utf8Lossy fuel later

/-- The text of octets that need not be one. -/
def fromUtf8Lossy (octets : Bytes) : String := String.ofList (utf8Lossy octets.length octets)

namespace QuicConnection

variable {PacketKey RootStore : Type}

/-! ## Packet headers -/

/-- The header of a packet, before its protection is removed. -/
structure Header where
  isLong : Bool
  ptype : Option LongType
  dcid : Bytes
  scid : Bytes
  token : Bytes
  pnOffset : Nat
  payloadEnd : Nat
deriving DecidableEq, Repr

/-- The packet type in the first octet of a long header. -/
def longType (first : UInt8) : LongType :=
  match (first >>> 4) &&& 0x03 with
  | 0 => .initial
  | 1 => .zeroRtt
  | 2 => .handshake
  | _ => .retry

variable (codec : Codec PacketKey) (env : Env)

/-- The token at `pos`, which only an Initial packet has, and where it ends. -/
def parseToken (ptype : LongType) (dg : Bytes) (pos : Nat) : Result (Bytes × Nat) :=
  if ptype = .initial then do
    let (tlen, used) ← okOr (codec.varint.decode (← restAt dg pos))
      (.wire "doq token length malformed")
    let pos := pos + used
    failIf (pos + tlen > dg.length) (.wire "doq token truncated")
    .ok (← sliceAt dg pos tlen, pos + tlen)
  else .ok ([], pos)

/-- A long header. -/
def parseLongHeader (first : UInt8) (dg : Bytes) : Result Header := do
  failIf (dg.length < 7) (.wire "doq long header truncated")
  failIf ((← u32At dg 1) ≠ VERSION_1) (.wire "doq unsupported QUIC version")
  let ptype := longType first
  let dcidLen := (← byteAt dg 5).toNat
  failIf (dcidLen > 20 ∨ 6 + dcidLen > dg.length) (.wire "doq DCID malformed")
  let dcid ← sliceAt dg 6 dcidLen
  let pos := 6 + dcidLen
  failIf (pos ≥ dg.length) (.wire "doq long header truncated")
  let scidLen := (← byteAt dg pos).toNat
  let pos := pos + 1
  failIf (scidLen > 20 ∨ pos + scidLen > dg.length) (.wire "doq SCID malformed")
  let scid ← sliceAt dg pos scidLen
  let pos := pos + scidLen
  let (token, pos) ← parseToken codec ptype dg pos
  let (plen, used) ← okOr (codec.varint.decode (← restAt dg pos))
    (.wire "doq payload length malformed")
  let pnOffset := pos + used
  failIf (plen < PN_LEN) (.wire "doq payload shorter than packet number")
  failIf (pnOffset + plen > dg.length) (.wire "doq packet payload truncated")
  .ok ⟨true, some ptype, dcid, scid, token, pnOffset, pnOffset + plen⟩

/-- A short header: its identifier is our own, so its length is not on the wire. -/
def parseShortHeader (self : QuicConnection PacketKey RootStore) (dg : Bytes) : Result Header := do
  let start := 1 + self.localCid.length
  failIf (dg.length < start + 1) (.wire "doq short header truncated")
  .ok ⟨false, none, ← sliceAt dg 1 self.localCid.length, [], [], start, dg.length⟩

/-- Parse the protected packet header. -/
def parseHeader (self : QuicConnection PacketKey RootStore) (dg : Bytes) : Result Header := do
  let first ← okOr dg.head? (.wire "doq empty datagram")
  if first &&& 0x80 ≠ 0 then parseLongHeader codec first dg
  else self.parseShortHeader dg

/-! ## Acknowledgements -/

/-- The ranges below `prevLow`. Where a gap or a length runs below zero, so does
not the range. -/
def ackedBelow (prevLow : Nat) : List (Nat × Nat) → List (Nat × Nat)
  | [] => []
  | (gap, rangeLen) :: rest =>
      let largest := prevLow - (gap + 2)
      (largest - rangeLen, largest) :: ackedBelow (largest - rangeLen) rest

/-- The ranges of packet numbers an ACK frame acknowledges, each with both ends. -/
def ackedRanges (largestAcked : Nat) : List (Nat × Nat) → List (Nat × Nat)
  | [] => []
  | (_, rangeLen) :: rest =>
      (largestAcked - rangeLen, largestAcked) :: ackedBelow (largestAcked - rangeLen) rest

/-- Whether an ACK frame acknowledges a packet number. -/
def isAcked (largestAcked : Nat) (ranges : List (Nat × Nat)) (pn : Nat) : Bool :=
  (ackedRanges largestAcked ranges).any fun (low, largest) => low ≤ pn && pn ≤ largest

/-- Take a round-trip sample. -/
def sampleRtt (self : QuicConnection PacketKey RootStore) (sample ackDelay : Nat) :
    QuicConnection PacketKey RootStore :=
  let ackDelay := millis (min (ackDelay * 8) u64Max / 1000)
  let sample := sample - min ackDelay sample
  match self.srtt with
  | none => { self with srtt := some sample, rttvar := sample / 2, ptoCount := 0 }
  | some srtt =>
      let delta := if srtt > sample then srtt - sample else sample - srtt
      { self with
        rttvar := self.rttvar * 3 / 4 + delta / 4
        srtt := some (srtt * 7 / 8 + sample / 8)
        ptoCount := 0 }

/-- Take an acknowledgement. -/
def onAck (space : Space) (largestAcked ackDelay : Nat) (ranges : List (Nat × Nat)) :
    Act PacketKey RootStore Unit :=
  .update fun self =>
    let gone (packet : SentPacket) : Bool :=
      packet.space == space && isAcked largestAcked ranges packet.pn
    let kept := { self with sent := self.sent.filter fun packet => !gone packet }
    match self.sent.find? gone with
    | none => kept
    | some packet => kept.sampleRtt (env.now - packet.sent) ackDelay

/-! ## Handshake data -/

variable (crypto : Crypto RootStore)

/-- Check the server's transport parameters and apply its limits. -/
def validateServerTransportParams : Act PacketKey RootStore Unit := do
  let self ← .read
  let params ← .lift (okOr self.tls.serverParams (.wire "server sent no transport parameters"))
  .lift (failIf (∃ odcid ∈ params.originalDestinationConnectionId, odcid ≠ self.originalDcid)
    (.wire "server original_destination_connection_id mismatch"))
  .lift (failIf (∃ iscid ∈ params.initialSourceConnectionId, iscid ≠ self.serverCid)
    (.wire "server initial_source_connection_id mismatch"))
  .lift (failIf (∃ expected ∈ self.retryScid, ∃ got ∈ params.retrySourceConnectionId,
    got ≠ expected) (.wire "server retry_source_connection_id mismatch"))
  let announced (value current : Nat) : Nat := if value > 0 then value else current
  .update fun self => { self with
    peerMaxData := announced params.initialMaxData self.peerMaxData
    peerMaxStreamData := announced params.initialMaxStreamDataBidiLocal self.peerMaxStreamData
    peerMaxStreamsBidi := announced params.initialMaxStreamsBidi self.peerMaxStreamsBidi
    peerMaxStreamsUni := announced params.initialMaxStreamsUni self.peerMaxStreamsUni }
  let self ← .read
  .lift (failIf (self.peerMaxStreamsBidi = 0)
    (.transport "server does not allow client-initiated bidirectional streams"))

/-- The key over a traffic secret that has to be there. -/
def trafficKey (suite : UInt16) (secret : Option Bytes) (missing failed : String) :
    Result PacketKey := do
  (codec.fromSecret suite (← okOr secret (.transport missing))).mapError
    fun error => .transport (failed ++ error)

/-- The handshake is complete: take the keys and the server's limits, and send
our Finished. -/
def completeHandshake (completed : Completed) : Act PacketKey RootStore Unit := do
  let self ← .read
  let hsWrite ← .lift (trafficKey codec completed.suite self.tls.cHs
    "doq client handshake secret missing" "doq handshake key: ")
  let appWrite ← .lift (trafficKey codec completed.suite self.tls.cAp
    "doq application secret missing" "doq application key: ")
  let appRead ← .lift (trafficKey codec completed.suite self.tls.sAp
    "doq application secret missing" "doq application key: ")
  .update fun self => { self with
    hsWrite := some hsWrite, appWrite := some appWrite, appRead := some appRead }
  validateServerTransportParams
  let self ← .read
  sendCrypto codec env .handshake completed.clientFinished self.cryptoTx.handshake false
  .update fun self => { self with
    cryptoTx := self.cryptoTx.set .handshake
      (self.cryptoTx.handshake + completed.clientFinished.length)
    handshakeConfirmed := true
    ptoCount := 0 }

/-- Derive the key of the server's handshake flight, once its secret is there. -/
def deriveHsRead : Act PacketKey RootStore Unit := do
  let self ← .read
  match self.hsRead, self.tls.sHs with
  | none, some sHs => do
      let suite ← .lift (okOr self.tls.suite
        (.transport "doq cipher suite missing after ServerHello"))
      let hsRead ← .lift ((codec.fromSecret suite sHs).mapError
        fun error => .transport ("doq handshake read key: " ++ error))
      .update fun self => { self with hsRead := some hsRead }
  | _, _ => pure ()

/-- What follows an accepted message: the end of the handshake, or the key of its flight. -/
def afterMessage : Option Completed → Act PacketKey RootStore Unit
  | some completed => completeHandshake codec env completed
  | none => deriveHsRead codec

/-- Feed one handshake message of a space to TLS. -/
def feedMessage (space : Space) (msg : Bytes) : Act PacketKey RootStore Unit := do
  note (.completed space msg)
  let outcome ← .within (·.tls) (fun tls self => { self with tls := tls })
    (ClientHandshake.feed crypto codec.varint msg)
  note (.accepted space msg)
  afterMessage codec env outcome

/-- Pop and feed the messages that are complete. Each of them takes octets from
what is buffered, so that bounds their number. -/
def feedMessages (space : Space) : (fuel : Nat) → Act PacketKey RootStore Unit
  | 0 => .fail (.internal "handshake messages do not end")
  | fuel + 1 => do
      let self ← .read
      match (self.cryptoRx.atSpace space).popMessage with
      | none => pure ()
      | some (msg, rx) => do
          .update fun self => { self with cryptoRx := self.cryptoRx.set space rx }
          feedMessage codec env crypto space msg
          feedMessages space fuel

/-- Take a CRYPTO frame. In the application space there is none, and it is ignored. -/
def onCrypto (space : Space) (offset : Nat) (data : Bytes) : Act PacketKey RootStore Unit := do
  if space = .application then pure ()
  else do
    let self ← .read
    let rx ← .lift ((self.cryptoRx.atSpace space).insert offset data)
    .update fun self => { self with cryptoRx := self.cryptoRx.set space rx }
    feedMessages codec env crypto space (rx.buffered + 1)

/-! ## Stream data -/

/-- Where a window was more than half consumed, announce twice as much. -/
def replenish (used limit : Nat) (announce : Nat → Frame)
    (put : Nat → QuicConnection PacketKey RootStore → QuicConnection PacketKey RootStore) :
    Act PacketKey RootStore Unit :=
  if used * 2 > limit then do
    let newLimit := min (limit * 2) u64Max
    sendPacket codec env .application [announce newLimit] false
    .update (put newLimit)
  else pure ()

def maybeReplenishWindows : Act PacketKey RootStore Unit := do
  let self ← .read
  replenish codec env self.queryRx.buf.length self.ourMaxStreamDataBidiLocal
    (.maxStreamData self.streamId) fun limit self =>
      { self with ourMaxStreamDataBidiLocal := limit }
  let self ← .read
  replenish codec env self.connRxConsumed self.ourMaxData .maxData fun limit self =>
    { self with ourMaxData := limit }

def maybeReplenishUni (streamId : Nat) : Act PacketKey RootStore Unit := do
  let self ← .read
  replenish codec env ((self.uniConsumed.lookup streamId).getD 0) self.ourMaxStreamDataUni
    (.maxStreamData streamId) fun limit self => { self with ourMaxStreamDataUni := limit }
  let self ← .read
  replenish codec env self.serverUniOpened self.ourMaxStreamsUni (.maxStreams true)
    fun limit self => { self with ourMaxStreamsUni := limit }

/-- The buffer length a frame demands, unless that exceeds `cap`. -/
def reassemblyEnd (offset dataLen cap : Nat) : Option Nat :=
  if offset + dataLen ≤ cap then some (offset + dataLen) else none

/-- Store what was consumed of a stream. -/
def putConsumed (streamId consumed : Nat) : List (Nat × Nat) → List (Nat × Nat)
  | [] => [(streamId, consumed)]
  | (other, count) :: rest =>
      if other = streamId then (streamId, consumed) :: rest
      else (other, count) :: putConsumed streamId consumed rest

/-- Data on a stream the server opened to us: it is read and dropped. -/
def drainUni (streamId offset : Nat) (data : Bytes) : Act PacketKey RootStore Unit := do
  .update fun self => { self with
    serverUniOpened := max self.serverUniOpened (codec.streamIndex streamId + 1)
    uniConsumed := putConsumed streamId
      (max ((self.uniConsumed.lookup streamId).getD 0) (offset + data.length)) self.uniConsumed }
  maybeReplenishUni codec env streamId

/-- Where the response buffer goes with the data of a frame. A gap is filled with
zeros; of overlapping data only the part past the end is kept. -/
def placeResponse (buf : Bytes) (offset : Nat) (data : Bytes) : Option Bytes :=
  if offset > buf.length then
    (reassemblyEnd offset data.length MAX_RESPONSE_BUFFER).map fun stop =>
      buf ++ List.replicate (stop - data.length - buf.length) 0 ++ data
  else some (buf ++ data.drop (buf.length - offset))

/-- The error of a response that is too long. -/
def tooLong : Error := .transport "doq response exceeds buffer limit"

/-- Data on the query stream. -/
def onResponse (offset : Nat) (data : Bytes) (fin : Bool) : Act PacketKey RootStore Unit := do
  let self ← .read
  match placeResponse self.queryRx.buf offset data with
  | none => shut tooLong
  | some buf => do
      .update fun self => { self with queryRx := ⟨buf, self.queryRx.fin || fin⟩ }
      if buf.length > MAX_RESPONSE_BUFFER then shut tooLong
      else do
        .update fun self => { self with connRxConsumed := max self.connRxConsumed buf.length }
        maybeReplenishWindows codec env

/-- Take the data of a STREAM frame. A stream that is not ours is reset. -/
def onStream (streamId offset : Nat) (data : Bytes) (fin : Bool) :
    Act PacketKey RootStore Unit := do
  let self ← .read
  if codec.streamType streamId = codec.serverUni then drainUni codec env streamId offset data
  else if codec.streamType streamId ≠ codec.clientBidi ∨ streamId ≠ self.streamId then
    sendPacket codec env .application [.resetStream streamId 0x5 0] false
  else onResponse codec env offset data fin

/-! ## Frames -/

/-- Whether a packet with the frame is to be acknowledged. -/
def ackEliciting : Frame → Bool
  | .ping | .crypto .. | .stream .. => true
  | _ => false

/-- What a frame does. -/
def processFrame (space : Space) (frame : Frame) : Act PacketKey RootStore Unit := do
  note (.received space frame)
  let self ← .read
  match frame with
  | .ack largestAcked ackDelay ranges => onAck env space largestAcked ackDelay ranges
  | .crypto offset data => onCrypto codec env crypto space offset data
  | .stream streamId offset data _ fin => onStream codec env streamId (offset.getD 0) data fin
  | .maxData limit =>
      .update fun self => { self with peerMaxData := max self.peerMaxData limit }
  | .maxStreamData streamId limit =>
      if streamId = self.streamId then
        .update fun self => { self with peerMaxStreamData := max self.peerMaxStreamData limit }
      else pure ()
  | .maxStreams true limit =>
      .update fun self => { self with peerMaxStreamsUni := max self.peerMaxStreamsUni limit }
  | .maxStreams false limit =>
      .update fun self => { self with peerMaxStreamsBidi := max self.peerMaxStreamsBidi limit }
  | .connectionClose errorCode _ reason =>
      shut (.transport ("doq server closed connection (error " ++ toString errorCode ++ "): " ++
        fromUtf8Lossy reason))
  | .pathChallenge tag => sendPacket codec env .application [.pathResponse tag] false
  | .newConnectionId sequence =>
      -- We keep a single connection identifier and retire the others.
      if sequence > 0 then sendPacket codec env .application [.retireConnectionId sequence] false
      else pure ()
  | .resetStream streamId _ _ | .stopSending streamId =>
      if streamId = self.streamId ∧ self.queryRx.complete = false then
        shut (.transport "doq server reset the query stream")
      else pure ()
  | .padding _ | .datagram | .ping | .handshakeDone | .pathResponse _ | .newToken | .dataBlocked
  | .streamDataBlocked | .streamsBlocked | .retireConnectionId _ => pure ()

/-- The frames of a packet, up to the first that is malformed. -/
def decodeFrames : (fuel : Nat) → Bytes → List Frame
  | 0, _ => []
  | fuel + 1, plaintext =>
      if plaintext.isEmpty then []
      else
        match codec.decodeFrame plaintext with
        | none => []
        | some (frame, used) => frame :: decodeFrames fuel (plaintext.drop used)

/-- Add a packet number to the ascending ones that are there. -/
def insertPn (pn : Nat) : List Nat → List Nat
  | [] => [pn]
  | other :: rest =>
      if pn < other then pn :: other :: rest
      else if pn = other then other :: rest
      else other :: insertPn pn rest

/-- Take the frames of a packet that opened. -/
def processPlaintext (space : Space) (pn : Nat) (plaintext : Bytes) :
    Act PacketKey RootStore Unit := do
  let frames := decodeFrames codec plaintext.length plaintext
  .each (processFrame codec env crypto space) frames
  if frames.any ackEliciting then
    .update fun self => { self with
      pendingAcks := self.pendingAcks.set space (insertPn pn (self.pendingAcks.atSpace space)) }
  else pure ()

/-! ## Retry -/

/-- The parts of a Retry packet. -/
structure RetryPacket where
  dcid : Bytes
  scid : Bytes
  token : Bytes
  /-- The packet without its tag, and the tag. -/
  wire : Bytes
  tag : Bytes
deriving DecidableEq, Repr

/-- Take a Retry packet apart: the integrity tag is its end. -/
def parseRetry (dg : Bytes) : Result RetryPacket := do
  failIf (dg.length < 7 + TAG_LEN) (.wire "doq Retry packet truncated")
  let dcidLen := (← byteAt dg 5).toNat
  failIf (dcidLen > 20 ∨ 6 + dcidLen + 1 > dg.length) (.wire "doq Retry malformed")
  let dcid ← sliceAt dg 6 dcidLen
  let pos := 6 + dcidLen
  let scidLen := (← byteAt dg pos).toNat
  let pos := pos + 1
  failIf (scidLen > 20 ∨ pos + scidLen + TAG_LEN > dg.length) (.wire "doq Retry malformed")
  let scid ← sliceAt dg pos scidLen
  let pos := pos + scidLen
  let tagAt := dg.length - TAG_LEN
  let tag ← sliceAt dg tagAt TAG_LEN
  let token ← sliceAt dg pos (tagAt - pos)
  .ok ⟨dcid, scid, token, ← sliceAt dg 0 tagAt, tag⟩

/-- The Initial key over a connection identifier. -/
def initialKeyOf (dcid : Bytes) (server : Bool) : Result PacketKey :=
  (codec.initialKey dcid server).mapError fun error => .transport ("doq initial keys: " ++ error)

/-- Start again with a fresh ClientHello that carries the Retry's identifier. -/
def restart : Act PacketKey RootStore Bytes := do
  let self ← .read
  let tlsCfg := { self.tlsCfg with
    transportParams :=
      { self.tlsCfg.transportParams with retrySourceConnectionId := self.retryScid } }
  let (hello, tls) := (ClientHandshake.new tlsCfg env.entropy).clientHello codec.varint
  .update fun self => { self with tlsCfg := tlsCfg, tls := tls }
  pure hello

/-- Apply a Retry: the Initial space starts again with the new identifier and token. -/
def applyRetry (retry : RetryPacket) : Act PacketKey RootStore Unit := do
  let before ← .read
  .update fun self => { self with
    serverCid := retry.scid, retryScid := some retry.scid, retryToken := retry.token }
  let initialWrite ← .lift (initialKeyOf codec retry.scid false)
  .update fun self => { self with initialWrite := initialWrite }
  let initialRead ← .lift (initialKeyOf codec retry.scid true)
  .update fun self => { self with
    initialRead := initialRead
    nextPn := self.nextPn.set .initial 0
    largestRx := self.largestRx.set .initial 0
    pendingAcks := self.pendingAcks.set .initial []
    cryptoRx := self.cryptoRx.set .initial .default
    cryptoTx := self.cryptoTx.set .initial 0
    sent := self.sent.filter fun packet => packet.space != .initial
    log := self.log ++ [.retried before.initialWrite initialWrite] }
  let hello ← restart codec env
  sendCrypto codec env .initial hello 0 true
  .update fun self => { self with cryptoTx := self.cryptoTx.set .initial hello.length }

/-- Take a Retry packet. -/
def processRetry (dg : Bytes) : Act PacketKey RootStore Unit := do
  let retry ← .lift (parseRetry dg)
  let self ← .read
  if retry.dcid ≠ self.localCid then pure ()
  else if self.retryScid.isSome || self.handshakeConfirmed || self.sawServerScid then
    shut (.wire "doq unexpected Retry")
  else do
    let ok ← .lift ((codec.verifyRetryIntegrity self.originalDcid retry.wire retry.tag).mapError
      fun error => .wire ("doq Retry integrity check failed: " ++ error))
    -- A forged Retry is dropped.
    if ok = false then pure () else applyRetry codec env retry

/-! ## Datagrams -/

/-- The space of a packet and the key to read it, if it can be read. -/
def readKey (self : QuicConnection PacketKey RootStore) (header : Header) :
    Option (Space × PacketKey) :=
  match header.isLong, header.ptype with
  | true, some .initial => some (.initial, self.initialRead)
  | true, some .handshake => self.hsRead.map (Space.handshake, ·)
  | false, none => self.appRead.map (Space.application, ·)
  | _, _ => none

/-- The packet number and the plaintext of a packet, if it opens. -/
def openPacket (self : QuicConnection PacketKey RootStore) (header : Header) (space : Space)
    (key : PacketKey) (dg : Bytes) : Result (Option (Nat × Bytes)) :=
  match codec.unprotectHeader key dg header.pnOffset header.isLong with
  | none => .ok none
  | some (pnLen, packet) =>
      if pnLen < 1 ∨ pnLen > 4 then .ok none
      else do
        let expected := (self.largestRx.atSpace space + 1) % 2 ^ 64
        let pn := codec.decodePn (← sliceAt packet header.pnOffset pnLen) expected pnLen
        let payloadStart := header.pnOffset + pnLen
        if payloadStart > header.payloadEnd then .ok none
        else do
          let opened := codec.openPacket key pn (← sliceAt packet 0 payloadStart)
            (← sliceAt packet payloadStart (header.payloadEnd - payloadStart))
          .ok (opened.map (pn, ·))

/-- Remember the server's identifier, so that packets are addressed to it. -/
def learnScid (header : Header) : Act PacketKey RootStore Unit := do
  let self ← .read
  if header.isLong = true ∧ header.scid ≠ [] ∧ self.sawServerScid = false then
    .update fun self => { self with serverCid := header.scid, sawServerScid := true }
  else pure ()

/-- Take the first packet of a datagram; what is returned is whether to go on
with the next one, and where it starts. -/
def processPacket (dg : Bytes) : Act PacketKey RootStore (Option Nat) := do
  let self ← .read
  let header ← .lift (self.parseHeader codec dg)
  if header.dcid ≠ [] ∧ header.dcid ≠ self.localCid then pure none
  else
    match self.readKey header with
    | none => pure none
    | some (space, key) =>
        if space = .initial ∧ self.handshakeConfirmed = true then pure none
        else do
          learnScid header
          match ← .lift (self.openPacket codec header space key dg) with
          | none => pure none
          | some (pn, plaintext) => do
              .update fun self => { self with
                largestRx := self.largestRx.set space (max (self.largestRx.atSpace space) pn) }
              processPlaintext codec env crypto space pn plaintext
              pure (some header.payloadEnd)

/-- Whether a datagram starts with a long header of this version. -/
def longVersion (dg : Bytes) (version : UInt32) : Bool :=
  match dg with
  | first :: _ => first &&& 0x80 != 0 && u32At dg 1 == .ok version
  | [] => false

/-- Whether a datagram starts with a Retry packet. -/
def isRetry (dg : Bytes) : Bool :=
  longVersion dg VERSION_1 && (dg.head?.map longType) == some .retry

/-- The error of a server that does not speak our version. -/
def versionNegotiation : Error :=
  .transport "doq server does not support QUIC version 1 (version negotiation)"

/-- Take the packets of a datagram in turn. Each of them has octets. -/
def processPackets : (fuel : Nat) → (dg : Bytes) → Act PacketKey RootStore Unit
  | 0, _ => .fail (.internal "packets do not end")
  | fuel + 1, dg =>
      if dg.isEmpty then pure ()
      else if longVersion dg 0 then shut versionNegotiation
      else if isRetry dg then processRetry codec env dg
      else do
        match ← processPacket codec env crypto dg with
        | none => pure ()
        | some stop => do
            let rest ← .lift (restAt dg stop)
            processPackets fuel rest

/-- Take a datagram. -/
def processDatagram (dg : Bytes) : Act PacketKey RootStore Unit :=
  processPackets codec env crypto (dg.length + 1) dg

end QuicConnection

end RecurseX.Doq
