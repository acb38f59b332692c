import RecurseX.Doq.Receive

/-!
# Driving the QUIC connection

The query sender, the probe timer, and the event loop that a handshake and every
query run in.
-/

namespace RecurseX.Doq

open Library Wire

/-! ## The query sender -/

/-- A piece of a query: where it starts, its octets, and whether it is the last. -/
structure Chunk where
  offset : Nat
  data : Bytes
  fin : Bool
deriving DecidableEq, Repr

/-- The STREAM frame of a chunk. -/
def Chunk.frame (streamId : Nat) (chunk : Chunk) : Frame :=
  .stream streamId (some chunk.offset) chunk.data (some chunk.data.length) chunk.fin

namespace QuerySend

/-- The chunks from `sent` octets past the offset on, and how much is sent with
them. Every chunk has octets, so the query bounds their number. -/
def chunksFrom (self : QuerySend) (remaining allow : Nat) : (fuel sent : Nat) →
    Result (List Chunk × Nat)
  | 0, _ => .error (.internal "query chunks do not end")
  | fuel + 1, sent =>
      if sent < allow then do
        let start := self.offset + sent
        let rest ← (restAt self.data start).mapError fun _ =>
          .internal "doq query chunk starts past the end"
        let take := min rest.length MAX_CHUNK
        failIf (take = 0) (.internal "doq query send made no progress")
        let fin := sent + take ≥ remaining
        let chunk : Chunk := ⟨start, capped rest MAX_CHUNK, fin⟩
        if fin then .ok ([chunk], sent + take)
        else do
          let (chunks, total) ← chunksFrom self remaining allow fuel (sent + take)
          .ok (chunk :: chunks, total)
      else .ok ([], sent)

/-- What is left of the query. -/
def remaining (self : QuerySend) : Nat := self.data.length - self.offset

/-- How much of the query the limits allow to send now. -/
def allowance (self : QuerySend) (maxData maxStreamData : Nat) : Nat :=
  min (min (maxData - self.connUsed) (maxStreamData - self.offset)) self.remaining

/-- The send state after the chunks were cut. -/
def advance (self : QuerySend) (chunks : List Chunk) (total : Nat) : QuerySend :=
  { self with
    offset := self.offset + total
    connUsed := self.connUsed + total
    finSent := self.finSent || (chunks.getLast?.map (·.fin)).getD false }

end QuerySend

/-- A round of the event loop: what arrives before the socket has no more, and
how the socket and the clock are in it. -/
structure Round where
  /-- Whether the deadline has passed when the round starts. -/
  expired : Bool
  /-- Datagrams, each with whether it comes from the server. -/
  arrivals : List (Bool × Bytes)
  /-- An error of the socket that ends the round. -/
  broken : Option String
  env : Env

/-- What a drive of the event loop meets. -/
structure Drive where
  rounds : List Round
  /-- The time to the deadline at the start, in milliseconds. -/
  budgetMs : Nat

namespace QuicConnection

variable {PacketKey RootStore : Type}
variable (codec : Codec PacketKey) (env : Env) (crypto : Crypto RootStore)

/-- Cut the next chunks and advance the send state past them. -/
def takeChunks : Act PacketKey RootStore (List Chunk) := do
  let self ← .read
  match self.queryTx with
  | none => pure []
  | some query =>
      if query.finSent = true then pure []
      else
        let allow := query.allowance self.peerMaxData self.peerMaxStreamData
        if allow = 0 then pure []
        else do
          let (chunks, total) ← .lift
            (query.chunksFrom query.remaining allow (query.data.length + 1) 0)
          .update fun self => { self with queryTx := some (query.advance chunks total) }
          pure chunks

/-- Send as much of the query as the server's limits allow. -/
def flushQuerySend : Act PacketKey RootStore Unit := do
  let self ← .read
  let chunks ← takeChunks
  .each (fun chunk => sendPacket codec env .application [chunk.frame self.streamId] false) chunks

/-! ## Loss recovery -/

/-- The longest time span. -/
def maxDuration : Nat := u64Max * 1000000000 + 999999999

/-- The probe timeout. -/
def ptoTimeout (self : QuicConnection PacketKey RootStore) : Nat :=
  let base := match self.srtt with
    | some srtt => srtt + max self.rttvar (millis 1) + MAX_ACK_DELAY
    | none => INITIAL_PTO
  min (max base PTO_FLOOR * min (2 ^ self.ptoCount) (2 ^ 32 - 1)) maxDuration

/-- The error of a server that stays silent. -/
def tooManyPtos : Error := ⟨.timeout, "doq too many PTOs"⟩

/-- Send a packet's frames again under a fresh number. -/
def resend (packet : SentPacket) : Act PacketKey RootStore Unit :=
  sendPacket codec env packet.space packet.frames false

/-- Send again what was not acknowledged in time. -/
def runPto : Act PacketKey RootStore Unit := do
  let self ← .read
  if self.sent = [] then pure ()
  else if self.ptoCount ≥ MAX_PTO_COUNT then shut tooManyPtos
  else
    let lastSent := (self.sent.map (·.sent)).foldl max 0
    if env.now < lastSent + self.ptoTimeout then pure ()
    else do
      .update fun self => { self with ptoCount := self.ptoCount + 1, sent := [] }
      .each (resend codec env) self.sent

/-! ## The event loop -/

/-- Take what arrives from the server. -/
def receive (arrivals : List (Bool × Bytes)) : Act PacketKey RootStore Unit :=
  .each (processDatagram codec env crypto) ((arrivals.filter (·.1)).map (·.2))

/-- The server was heard from, so that probes start anew. -/
def heard (arrivals : List (Bool × Bytes)) : Act PacketKey RootStore Unit :=
  if arrivals.any (·.1) then .update fun self => { self with ptoCount := 0 } else pure ()

/-- What is sent at the end of a round. -/
def settle (round : Round) : Act PacketKey RootStore Unit := do
  heard round.arrivals
  flushAcks codec round.env
  runPto codec round.env
  let self ← .read
  if self.handshakeConfirmed then flushQuerySend codec round.env else pure ()

/-- A round of the event loop. -/
def driveRound (round : Round) : Act PacketKey RootStore Unit := do
  receive codec round.env crypto round.arrivals
  match round.broken with
  | some error => .fail (.io ("doq recv: " ++ error))
  | none => settle codec round

/-- The error of a deadline that passed. -/
def timedOut (budgetMs : Nat) : Error :=
  ⟨.timeout, "doq timed out after " ++ toString budgetMs ++ " ms"⟩

/-- Run rounds until `done`, and return whether it came to that. -/
def driveUntil (done : QuicConnection PacketKey RootStore → Bool) (budgetMs : Nat) :
    List Round → Act PacketKey RootStore Bool
  | [] => do
      let self ← .read
      pure (done self)
  | round :: rounds => do
      let self ← .read
      if done self then pure true
      else
        match self.closed with
        | some error => .fail error
        | none =>
            if round.expired then .fail (timedOut budgetMs)
            else do
              driveRound codec crypto round
              driveUntil done budgetMs rounds

/-! ## Connecting and querying -/

/-- A connection before anything was sent, and its ClientHello. -/
def fresh (cfg : ClientConfig RootStore) (entropy : Entropy) (localCid serverCid : Bytes) :
    Result (Bytes × QuicConnection PacketKey RootStore) := do
  let cfg := { cfg with transportParams := .clientDefaults localCid }
  let (hello, tls) := (ClientHandshake.new cfg entropy).clientHello codec.varint
  .ok (hello, {
    localCid := localCid
    serverCid := serverCid
    originalDcid := serverCid
    retryToken := []
    retryScid := none
    sawServerScid := false
    tlsCfg := cfg
    tls := tls
    initialWrite := ← initialKeyOf codec serverCid false
    initialRead := ← initialKeyOf codec serverCid true
    hsWrite := none
    hsRead := none
    appWrite := none
    appRead := none
    nextPn := .all 0
    largestRx := .all 0
    pendingAcks := .all []
    handshakeConfirmed := false
    cryptoRx := .all .default
    cryptoTx := .all 0
    streamId := 0
    queryTx := none
    queryRx := .default
    openedBidi := 0
    peerMaxData := u64Max
    peerMaxStreamData := u64Max
    peerMaxStreamsBidi := 1
    peerMaxStreamsUni := 1
    ourMaxData := 2 ^ 20
    ourMaxStreamDataBidiLocal := 2 ^ 20
    ourMaxStreamDataUni := 2 ^ 20
    ourMaxStreamsUni := 8
    connRxConsumed := 0
    serverUniOpened := 0
    uniConsumed := []
    sent := []
    srtt := none
    rttvar := 0
    ptoCount := 0
    closeSent := false
    closed := none
    log := [] })

/-- Send the first Initial, with the ClientHello. -/
def greet (hello : Bytes) : Act PacketKey RootStore Unit := do
  sendCrypto codec env .initial hello 0 true
  .update fun self => { self with cryptoTx := self.cryptoTx.set .initial hello.length }

/-- Run the handshake of a fresh connection, and return whether it was done. -/
def connect (hello : Bytes) (drive : Drive) : Act PacketKey RootStore Bool := do
  greet codec env hello
  driveUntil codec crypto (fun self => self.tls.isDone) drive.budgetMs drive.rounds

/-- Open a stream for a query. -/
def openStream (query : Bytes) : Act PacketKey RootStore Unit := do
  let self ← .read
  if self.handshakeConfirmed = false then
    .fail (.transport "doq query before handshake confirmed")
  else
    match self.closed with
    | some error => .fail error
    | none =>
        if self.openedBidi ≥ self.peerMaxStreamsBidi then
          .fail (.transport "server's bidirectional stream limit reached (MAX_STREAMS)")
        else
          .update fun self => { self with
            streamId := codec.streamId codec.clientBidi self.openedBidi
            openedBidi := self.openedBidi + 1
            queryTx := some ⟨query, 0, 0, false⟩
            queryRx := .default }

/-- Send a query on a stream of its own and return the response, once it is there. -/
def exchangeQuery (query : Bytes) (drive : Drive) : Act PacketKey RootStore (Option Bytes) := do
  openStream codec query
  flushQuerySend codec env
  let done ← driveUntil codec crypto (fun self => self.queryRx.complete) drive.budgetMs drive.rounds
  let self ← .read
  if done = false then pure none
  else if self.queryRx.buf.length > MAX_RESPONSE_BUFFER then .fail tooLong
  else pure (some self.queryRx.buf)

/-- Close the connection gracefully. -/
def close : Act PacketKey RootStore Unit := do
  let self ← .read
  if self.closeSent || self.closed.isSome then pure ()
  else do
    .attempt (sendPacket codec env .application [.connectionClose 0 none []] false)
    .update fun self => { self with closeSent := true }

end QuicConnection

end RecurseX.Doq
