import RecurseX.Doq.Operations
import RecurseX.Doq.Plain
import RecurseX.Library.Lockstep

/-!
# Exchanges do not see other streams

The stream of a query is one slot that every query reuses. Two runs are compared:
in one of them every frame arrives, in the other the STREAM frames of all streams
but that of the query in course are taken out.
-/

namespace RecurseX.Doq

open Library Wire Stateful QuicConnection

variable {PacketKey RootStore : Type}

/-! ## The two runs -/

/-- What is read of a frame when other streams do not arrive. -/
def Frame.onlyOf (streamId : Nat) (used : Nat) : Frame → Frame
  | .stream other offset data length fin =>
      if other = streamId then .stream other offset data length fin else .padding used
  | frame => frame

/-- A codec that reads no STREAM frames but those of one stream. -/
def Codec.onlyStream (codec : Codec PacketKey) (streamId : Nat) : Codec PacketKey :=
  { codec with
    decodeFrame := fun octets =>
      (codec.decodeFrame octets).map fun (frame, used) => (frame.onlyOf streamId used, used) }

/-- A call of `exchangeQuery`, and what it meets. -/
structure Exchange where
  env : Env
  query : Bytes
  drive : Drive

/-- What came of a call: the connection before it, its result, and the connection after it. -/
structure Exchanged (PacketKey RootStore : Type) where
  before : QuicConnection PacketKey RootStore
  result : Result (Option Bytes)
  after : QuicConnection PacketKey RootStore

/-- A call with the codec that is in use. -/
def Exchange.run (codec : Codec PacketKey) (crypto : Crypto RootStore) (exchange : Exchange)
    (conn : QuicConnection PacketKey RootStore) : Exchanged PacketKey RootStore :=
  let (result, after) :=
    exchangeQuery codec exchange.env crypto exchange.query exchange.drive conn
  ⟨conn, result, after⟩

/-- Calls one after the other on one connection. -/
def exchangeAll (codec : QuicConnection PacketKey RootStore → Codec PacketKey)
    (crypto : Crypto RootStore) :
    List Exchange → QuicConnection PacketKey RootStore → List (Exchanged PacketKey RootStore)
  | [], _ => []
  | exchange :: exchanges, conn =>
      let exchanged := exchange.run (codec conn) crypto conn
      exchanged :: exchangeAll codec crypto exchanges exchanged.after

/-- The stream the next query will have. -/
def nextStream (codec : Codec PacketKey) (conn : QuicConnection PacketKey RootStore) : Nat :=
  codec.streamId codec.clientBidi conn.openedBidi

/-- The calls as they are. -/
def together (codec : Codec PacketKey) (crypto : Crypto RootStore) :
    List Exchange → QuicConnection PacketKey RootStore → List (Exchanged PacketKey RootStore) :=
  exchangeAll (fun _ => codec) crypto

/-- The calls when no STREAM frame of another stream arrives. -/
def apart (codec : Codec PacketKey) (crypto : Crypto RootStore) :
    List Exchange → QuicConnection PacketKey RootStore → List (Exchanged PacketKey RootStore) :=
  exchangeAll (fun conn => codec.onlyStream (nextStream codec conn)) crypto

/-- Whether a packet with the frames goes out. -/
def Event.carries (space : Space) (frames : List Frame) : Event PacketKey → Bool
  | .sent other _ _ contents => other == space && contents == frames
  | _ => false

/-- Whether every packet that was handed to be sent went out. -/
def delivered : List (Event PacketKey) → Bool
  | [] => true
  | .handed space frames :: rest => rest.head?.any (Event.carries space frames) && delivered rest
  | _ :: rest => delivered rest

/-- Loss recovery gave up on the connection. -/
def GaveUp (conn : QuicConnection PacketKey RootStore) : Prop := conn.closed = some tooManyPtos

instance (conn : QuicConnection PacketKey RootStore) : Decidable (GaveUp conn) :=
  inferInstanceAs (Decidable (conn.closed = some tooManyPtos))

/-- Up to a call, packets go out and loss recovery does not give up. -/
def Undisturbed (calls : List (Exchanged PacketKey RootStore)) (index : Nat) : Prop :=
  ∀ exchanged ∈ calls.take (index + 1),
    delivered exchanged.after.log = true ∧ ¬ GaveUp exchanged.after

instance (calls : List (Exchanged PacketKey RootStore)) (index : Nat) :
    Decidable (Undisturbed calls index) :=
  inferInstanceAs (Decidable (∀ exchanged ∈ calls.take (index + 1), _))

/-! ## What a response is made of -/

/-- The offset and the octets of a frame that was received, if it answers the query of a
stream. -/
def Event.answer (codec : Codec PacketKey) (streamId : Nat) : Event PacketKey → Option (Nat × Bytes)
  | .received _ (.stream other offset data length fin) =>
      if codec.answers streamId (.stream other offset data length fin) then
        some (offset.getD 0, data)
      else none
  | _ => none

/-- Put a piece in its place, if it has one. -/
def place (buf : Bytes) (piece : Nat × Bytes) : Bytes :=
  (placeResponse buf piece.1 piece.2).getD buf

/-- What the frames of a stream give. -/
def gathered (codec : Codec PacketKey) (streamId : Nat) (buf : Bytes)
    (events : List (Event PacketKey)) : Bytes :=
  (events.filterMap (Event.answer codec streamId)).foldl place buf

/-! ## What shows of a connection -/

/-- What a query does not depend on: loss recovery, acknowledgements, the windows we
advertised, the streams of the server. -/
structure Hidden (PacketKey : Type) where
  nextPn : PerSpace Nat
  pendingAcks : PerSpace (List Nat)
  ourMaxData : Nat
  ourMaxStreamDataBidiLocal : Nat
  ourMaxStreamDataUni : Nat
  ourMaxStreamsUni : Nat
  connRxConsumed : Nat
  serverUniOpened : Nat
  uniConsumed : List (Nat × Nat)
  sent : List SentPacket
  srtt : Option Nat
  rttvar : Nat
  ptoCount : Nat
  log : List (Event PacketKey)

/-- The hidden part of a connection. -/
def QuicConnection.hidden (conn : QuicConnection PacketKey RootStore) : Hidden PacketKey where
  nextPn := conn.nextPn
  pendingAcks := conn.pendingAcks
  ourMaxData := conn.ourMaxData
  ourMaxStreamDataBidiLocal := conn.ourMaxStreamDataBidiLocal
  ourMaxStreamDataUni := conn.ourMaxStreamDataUni
  ourMaxStreamsUni := conn.ourMaxStreamsUni
  connRxConsumed := conn.connRxConsumed
  serverUniOpened := conn.serverUniOpened
  uniConsumed := conn.uniConsumed
  sent := conn.sent
  srtt := conn.srtt
  rttvar := conn.rttvar
  ptoCount := conn.ptoCount
  log := conn.log

/-- The connection with another hidden part. -/
def QuicConnection.withHidden (conn : QuicConnection PacketKey RootStore) (hidden : Hidden PacketKey) :
    QuicConnection PacketKey RootStore :=
  { conn with
    nextPn := hidden.nextPn
    pendingAcks := hidden.pendingAcks
    ourMaxData := hidden.ourMaxData
    ourMaxStreamDataBidiLocal := hidden.ourMaxStreamDataBidiLocal
    ourMaxStreamDataUni := hidden.ourMaxStreamDataUni
    ourMaxStreamsUni := hidden.ourMaxStreamsUni
    connRxConsumed := hidden.connRxConsumed
    serverUniOpened := hidden.serverUniOpened
    uniConsumed := hidden.uniConsumed
    sent := hidden.sent
    srtt := hidden.srtt
    rttvar := hidden.rttvar
    ptoCount := hidden.ptoCount
    log := hidden.log }

/-- Two connections show the same. -/
def Same (conn twin : QuicConnection PacketKey RootStore) : Prop :=
  ∃ hidden, twin = conn.withHidden hidden

theorem Same.of_eq {conn twin : QuicConnection PacketKey RootStore}
    (shown : twin = conn.withHidden twin.hidden) : Same conn twin := ⟨_, shown⟩

theorem same_equivalence : Equivalence (@Same PacketKey RootStore) where
  refl conn := ⟨conn.hidden, rfl⟩
  symm := by
    rintro conn _ ⟨hidden, rfl⟩
    exact ⟨conn.hidden, rfl⟩
  trans := by
    rintro conn _ _ ⟨hidden, rfl⟩ ⟨other, rfl⟩
    exact ⟨other, rfl⟩

/-- A run is cut short when a packet could not be sent, or loss recovery gives up. -/
def Cut (conn : QuicConnection PacketKey RootStore) : Prop :=
  (∃ space frames, conn.log.getLast? = some (.handed space frames)) ∨ GaveUp conn

/-- Nothing shows of a computation on the connection. -/
abbrev Silent (act : Act PacketKey RootStore Unit) (conn : QuicConnection PacketKey RootStore) :
    Prop :=
  Quiet Same Cut act conn

/-- Two computations on connections that show the same end alike. -/
abbrev Agree {α : Type} (act other : Act PacketKey RootStore α)
    (conn twin : QuicConnection PacketKey RootStore) : Prop :=
  Alike Same Cut act other conn twin

section Agreement

variable {codec : Codec PacketKey} {crypto : Crypto RootStore} {env : Env}
variable {conn twin : QuicConnection PacketKey RootStore} {α : Type}

/-! ## What is silent -/

theorem sendPacket_silent {space : Space} {frames : List Frame} {padInitial : Bool} :
    Silent (sendPacket codec env space frames padInitial) conn := by
  rcases ran : sendPacket codec env space frames padInitial conn with ⟨outcome, after⟩
  unfold Silent Quiet
  rw [ran]
  obtain ⟨key, rfl, -, rfl⟩ | ⟨error, rfl, rfl⟩ := Ledger.sendPacket_cases ran
  · exact .inr ⟨rfl, .of_eq rfl⟩
  · exact .inl ⟨⟨error, rfl⟩, .inl ⟨space, frames, List.getLast?_concat⟩⟩

/-- Whether the packet goes out or not, nothing shows of it. -/
theorem attempt_sendPacket_silent {space : Space} {frames : List Frame} {padInitial : Bool} :
    Silent (attempt (sendPacket codec env space frames padInitial)) conn := by
  rcases ran : sendPacket codec env space frames padInitial conn with ⟨outcome, after⟩
  refine .inr ⟨rfl, ?_⟩
  rw [attempt_run, ran]
  obtain ⟨key, -, -, rfl⟩ | ⟨error, -, rfl⟩ := Ledger.sendPacket_cases ran
  · exact .of_eq rfl
  · exact .of_eq rfl

theorem replenish_silent {used limit : Nat} {announce : Nat → Frame}
    {put : Nat → QuicConnection PacketKey RootStore → QuicConnection PacketKey RootStore}
    (unseen : ∀ limit (conn : QuicConnection PacketKey RootStore), Same conn (put limit conn)) :
    Silent (replenish codec env used limit announce put) conn := by
  unfold replenish
  split_ifs
  · exact Quiet.bind same_equivalence sendPacket_silent fun _ => Quiet.update (unseen _ _)
  · exact Quiet.pure same_equivalence

theorem maybeReplenishWindows_silent : Silent (maybeReplenishWindows codec env) conn := by
  refine Quiet.read_bind (Quiet.bind same_equivalence (replenish_silent ?_) fun _ => ?_)
  · exact fun _ _ => .of_eq rfl
  · exact Quiet.read_bind (replenish_silent fun _ _ => .of_eq rfl)

theorem drainUni_silent {streamId offset : Nat} {data : Bytes} :
    Silent (drainUni codec env streamId offset data) conn := by
  refine Quiet.update_bind same_equivalence (.of_eq rfl) ?_
  refine Quiet.read_bind (Quiet.bind same_equivalence (replenish_silent ?_) fun _ => ?_)
  · exact fun _ _ => .of_eq rfl
  · exact Quiet.read_bind (replenish_silent fun _ _ => .of_eq rfl)

theorem onAck_silent {space : Space} {largest delay : Nat} {ranges : List (Nat × Nat)} :
    Silent (onAck env space largest delay ranges) conn := by
  obtain ⟨srtt, rttvar, ptoCount, taken⟩ := @Ledger.onAck_run _ _ conn env space largest delay ranges
  unfold Silent Quiet
  rw [taken]
  exact .inr ⟨rfl, .of_eq rfl⟩

theorem flushAcks_silent : Silent (flushAcks codec env) conn := by
  have one : ∀ space (conn : QuicConnection PacketKey RootStore),
      Silent (flushAcksOf codec env space) conn := by
    intro space conn
    refine Quiet.read_bind ?_
    split_ifs
    · exact Quiet.pure same_equivalence
    · exact Quiet.update (.of_eq rfl)
    · exact Quiet.update_bind same_equivalence (.of_eq rfl) attempt_sendPacket_silent
  exact Quiet.bind same_equivalence (one .initial conn) fun _ =>
    Quiet.bind same_equivalence (one .handshake _) fun _ => one .application _

/-- Of loss recovery nothing shows until it gives up. -/
theorem runPto_silent : Silent (runPto codec env) conn := by
  refine Quiet.read_bind ?_
  dsimp only
  split_ifs
  · exact Quiet.pure same_equivalence
  · exact .inl ⟨⟨tooManyPtos, rfl⟩, .inr rfl⟩
  · exact Quiet.pure same_equivalence
  · refine Quiet.update_bind same_equivalence (.of_eq rfl) ?_
    exact Quiet.each same_equivalence fun _ _ => sendPacket_silent

/-! ## What agrees -/

theorem shut_agrees {error : Error} (same : Same conn twin) :
    Agree (shut error : Act PacketKey RootStore α) (shut error) conn twin := by
  obtain ⟨hidden, rfl⟩ := same
  exact Alike.update_bind (Alike.fail ⟨hidden, rfl⟩)

section Handshake

variable {streamId : Nat}

theorem validateServerTransportParams_agrees (same : Same conn twin) :
    Agree validateServerTransportParams validateServerTransportParams conn twin := by
  obtain ⟨hidden, rfl⟩ := same
  refine Alike.read_bind (Alike.lift_bind ⟨hidden, rfl⟩ fun params _ => ?_)
  refine Alike.lift_bind ⟨hidden, rfl⟩ fun _ _ => Alike.lift_bind ⟨hidden, rfl⟩ fun _ _ =>
    Alike.lift_bind ⟨hidden, rfl⟩ fun _ _ => ?_
  exact Alike.update_bind (Alike.read_bind (Alike.lift ⟨hidden, rfl⟩))

theorem completeHandshake_agrees {completed : Completed} (same : Same conn twin) :
    Agree (completeHandshake codec env completed)
      (completeHandshake (codec.onlyStream streamId) env completed) conn twin := by
  obtain ⟨hidden, rfl⟩ := same
  refine Alike.read_bind (Alike.lift_bind ⟨hidden, rfl⟩ fun _ _ => Alike.lift_bind ⟨hidden, rfl⟩
    fun _ _ => Alike.lift_bind ⟨hidden, rfl⟩ fun _ _ => Alike.update_bind ?_)
  refine (validateServerTransportParams_agrees ⟨hidden, rfl⟩).bind fun _ middle second _ same => ?_
  refine Alike.read_bind ((sendPacket_silent.alike same_equivalence sendPacket_silent same).bind ?_)
  rintro _ conn _ - ⟨hidden, rfl⟩
  exact Alike.update ⟨{ hidden with ptoCount := 0 }, rfl⟩

theorem deriveHsRead_agrees (same : Same conn twin) :
    Agree (deriveHsRead codec) (deriveHsRead (codec.onlyStream streamId)) conn twin := by
  obtain ⟨hidden, rfl⟩ := same
  refine Alike.read_bind ?_
  rw [show (conn.withHidden hidden).hsRead = conn.hsRead from rfl,
    show (conn.withHidden hidden).tls = conn.tls from rfl]
  split
  · exact Alike.lift_bind ⟨hidden, rfl⟩ fun _ _ => Alike.lift_bind ⟨hidden, rfl⟩ fun _ _ =>
      Alike.update ⟨hidden, rfl⟩
  · exact Alike.pure ⟨hidden, rfl⟩

theorem feedMessage_agrees {space : Space} {msg : Bytes} (same : Same conn twin) :
    Agree (feedMessage codec env crypto space msg)
      (feedMessage (codec.onlyStream streamId) env crypto space msg) conn twin := by
  obtain ⟨hidden, rfl⟩ := same
  have fed : ∀ conn (hidden : Hidden PacketKey),
      Agree (within (·.tls) (fun tls self => { self with tls := tls })
          (ClientHandshake.feed crypto codec.varint msg))
        (within (·.tls) (fun tls self => { self with tls := tls })
          (ClientHandshake.feed crypto codec.varint msg)) conn (conn.withHidden hidden) :=
    fun _ hidden => .inr (.inr ⟨rfl, hidden, rfl⟩)
  refine Alike.update_bind ((fed _ { hidden with log := _ }).bind ?_)
  rintro outcome conn _ - ⟨hidden, rfl⟩
  refine Alike.update_bind ?_
  have noted : Same { conn with log := conn.log ++ [.accepted space msg] }
      { conn.withHidden hidden with log := (conn.withHidden hidden).log ++ [.accepted space msg] } :=
    ⟨{ hidden with log := _ }, rfl⟩
  cases outcome with
  | none => exact deriveHsRead_agrees noted
  | some completed => exact completeHandshake_agrees noted

theorem feedMessages_agrees {space : Space} {fuel : Nat} (same : Same conn twin) :
    Agree (feedMessages codec env crypto space fuel)
      (feedMessages (codec.onlyStream streamId) env crypto space fuel) conn twin := by
  induction fuel generalizing conn twin with
  | zero => exact Alike.fail same
  | succ fuel inductionHypothesis =>
      obtain ⟨hidden, rfl⟩ := same
      refine Alike.read_bind ?_
      rw [show (conn.withHidden hidden).cryptoRx = conn.cryptoRx from rfl]
      split
      · exact Alike.pure ⟨hidden, rfl⟩
      · exact Alike.update_bind ((feedMessage_agrees ⟨hidden, rfl⟩).bind fun _ _ _ _ same =>
          inductionHypothesis same)

theorem onCrypto_agrees {space : Space} {offset : Nat} {data : Bytes} (same : Same conn twin) :
    Agree (onCrypto codec env crypto space offset data)
      (onCrypto (codec.onlyStream streamId) env crypto space offset data) conn twin := by
  refine Alike.ite (fun _ => Alike.pure same) fun _ => ?_
  obtain ⟨hidden, rfl⟩ := same
  refine Alike.read_bind (Alike.lift_bind ⟨hidden, rfl⟩ fun rx _ => ?_)
  exact Alike.update_bind (feedMessages_agrees ⟨hidden, rfl⟩)

end Handshake

section Streams

variable {streamId : Nat}

theorem onResponse_agrees {offset : Nat} {data : Bytes} {fin : Bool} (same : Same conn twin) :
    Agree (onResponse codec env offset data fin)
      (onResponse (codec.onlyStream streamId) env offset data fin) conn twin := by
  obtain ⟨hidden, rfl⟩ := same
  refine Alike.read_bind ?_
  rw [show (conn.withHidden hidden).queryRx = conn.queryRx from rfl]
  split
  · exact shut_agrees ⟨hidden, rfl⟩
  · refine Alike.update_bind (Alike.ite (fun _ => shut_agrees ⟨hidden, rfl⟩) fun _ => ?_)
    refine Alike.update_bind (maybeReplenishWindows_silent.alike same_equivalence
      maybeReplenishWindows_silent ?_)
    exact ⟨{ hidden with connRxConsumed := _ }, rfl⟩

theorem onStream_agrees {other offset : Nat} {data : Bytes} {fin : Bool} (same : Same conn twin) :
    Agree (onStream codec env other offset data fin)
      (onStream (codec.onlyStream streamId) env other offset data fin) conn twin := by
  obtain ⟨hidden, rfl⟩ := same
  refine Alike.read_bind (Alike.ite (fun _ => ?_) fun _ => Alike.ite (fun _ => ?_) fun _ => ?_)
  · exact drainUni_silent.alike same_equivalence drainUni_silent ⟨hidden, rfl⟩
  · exact sendPacket_silent.alike same_equivalence sendPacket_silent ⟨hidden, rfl⟩
  · exact onResponse_agrees ⟨hidden, rfl⟩

/-- Nothing shows of the data of another stream. -/
theorem onStream_silent {other offset : Nat} {data : Bytes} {fin : Bool}
    (foreign : other ≠ conn.streamId) : Silent (onStream codec env other offset data fin) conn := by
  refine Quiet.read_bind ?_
  rw [if_pos (show codec.streamType other ≠ codec.clientBidi ∨ other ≠ conn.streamId from
    .inr foreign)]
  split_ifs
  · exact drainUni_silent
  · exact sendPacket_silent

theorem processFrame_agrees {space : Space} {frame : Frame} (same : Same conn twin) :
    Agree (processFrame codec env crypto space frame)
      (processFrame (codec.onlyStream streamId) env crypto space frame) conn twin := by
  obtain ⟨hidden, rfl⟩ := same
  refine Alike.update_bind (Alike.read_bind ?_)
  have noted : Same { conn with log := conn.log ++ [.received space frame] }
      { conn.withHidden hidden with log := (conn.withHidden hidden).log ++ [.received space frame] } :=
    ⟨{ hidden with log := _ }, rfl⟩
  cases frame with
  | ack => exact onAck_silent.alike same_equivalence onAck_silent noted
  | crypto => exact onCrypto_agrees noted
  | stream => exact onStream_agrees noted
  | maxData => exact Alike.update ⟨{ hidden with log := _ }, rfl⟩
  | maxStreamData =>
      exact Alike.ite (fun _ => Alike.update ⟨{ hidden with log := _ }, rfl⟩) fun _ =>
        Alike.pure noted
  | maxStreams unidirectional =>
      cases unidirectional with
      | true => exact Alike.update ⟨{ hidden with log := _ }, rfl⟩
      | false => exact Alike.update ⟨{ hidden with log := _ }, rfl⟩
  | connectionClose => exact shut_agrees noted
  | pathChallenge => exact sendPacket_silent.alike same_equivalence sendPacket_silent noted
  | newConnectionId =>
      exact Alike.ite
        (fun _ => sendPacket_silent.alike same_equivalence sendPacket_silent noted) fun _ =>
        Alike.pure noted
  | resetStream | stopSending =>
      exact Alike.ite (fun _ => shut_agrees noted) fun _ => Alike.pure noted
  | padding | ping | newToken | dataBlocked | streamDataBlocked | streamsBlocked
  | retireConnectionId | pathResponse | handshakeDone | datagram => exact Alike.pure noted

/-- A frame that arrives is taken alike whether it is of another stream or taken out. -/
theorem processFrame_agrees_onlyOf {space : Space} {frame : Frame} {used : Nat}
    (own : conn.streamId = streamId) (same : Same conn twin) :
    Agree (processFrame codec env crypto space frame)
      (processFrame (codec.onlyStream streamId) env crypto space (frame.onlyOf streamId used))
      conn twin := by
  cases frame with
  | stream other offset data length fin =>
      by_cases ours : other = streamId
      · rw [Frame.onlyOf, if_pos ours]
        exact processFrame_agrees same
      · rw [Frame.onlyOf, if_neg ours]
        have quiet : Silent (processFrame codec env crypto space
            (.stream other offset data length fin)) conn :=
          Quiet.update_bind same_equivalence (.of_eq rfl)
            (Quiet.read_bind (onStream_silent fun same => ours (same.trans own)))
        have still : Silent (processFrame (codec.onlyStream streamId) env crypto space
            (.padding used)) twin :=
          Quiet.update_bind same_equivalence (.of_eq rfl)
            (Quiet.read_bind (Quiet.pure same_equivalence))
        exact quiet.alike same_equivalence still same
  | _ => exact processFrame_agrees same

/-- The frames of a packet, and what is left when other streams do not arrive. -/
theorem decodeFrames_onlyStream {fuel : Nat} {plaintext : Bytes} :
    List.Forall₂ (fun frame other => ∃ used, other = Frame.onlyOf streamId used frame)
      (decodeFrames codec fuel plaintext)
      (decodeFrames (codec.onlyStream streamId) fuel plaintext) := by
  induction fuel generalizing plaintext with
  | zero => exact .nil
  | succ fuel inductionHypothesis =>
      unfold decodeFrames Codec.onlyStream
      dsimp only
      split_ifs
      · exact .nil
      · cases codec.decodeFrame plaintext with
        | none => exact .nil
        | some both => exact .cons ⟨both.2, rfl⟩ inductionHypothesis

/-- No step of receiving changes the stream. -/
theorem streamId_of_follows {after : QuicConnection PacketKey RootStore}
    (follows : Ledger.Follows codec crypto conn after) : after.streamId = conn.streamId := by
  have kept : ∀ {before after : Ledger PacketKey RootStore}, Ledger.Step codec crypto before after →
      before.streamId = conn.ledger.streamId → after.streamId = conn.ledger.streamId := by
    intro before after step kept
    cases step <;> exact kept
  exact follows.preserves kept rfl

theorem processPlaintext_agrees {space : Space} {pn : Nat} {plaintext : Bytes}
    (readable : space = .handshake → conn.hsRead.isSome = true) (own : conn.streamId = streamId)
    (same : Same conn twin) :
    Agree (processPlaintext codec env crypto space pn plaintext)
      (processPlaintext (codec.onlyStream streamId) env crypto space pn plaintext) conn twin := by
  have frames : ∀ frames others,
      List.Forall₂ (fun frame other => ∃ used, other = Frame.onlyOf streamId used frame)
        frames others → ∀ conn twin : QuicConnection PacketKey RootStore,
      (space = .handshake → conn.hsRead.isSome = true) → conn.streamId = streamId →
      Same conn twin →
      Agree (each (processFrame codec env crypto space) frames)
        (each (processFrame (codec.onlyStream streamId) env crypto space) others) conn twin := by
    intro frames others pairs
    induction pairs with
    | nil => exact fun _ _ _ _ same => Alike.pure same
    | @cons frame other frames others pair _ inductionHypothesis =>
        intro conn twin readable own same
        obtain ⟨used, rfl⟩ := pair
        refine (processFrame_agrees_onlyOf own same).bind fun _ middle second ran same => ?_
        have moved := (Ledger.processFrame_goes readable).ok _ _ ran
        exact inductionHypothesis middle second
          (fun flight => moved.hsRead_isSome (readable flight))
          ((streamId_of_follows moved).trans own) same
  refine (frames _ _ decodeFrames_onlyStream conn twin readable own same).bind
    fun _ middle second _ same => ?_
  have acks : ∀ (frames : List Frame) (conn : QuicConnection PacketKey RootStore),
      Silent (if frames.any ackEliciting then
        .update fun self => { self with
          pendingAcks := self.pendingAcks.set space (insertPn pn (self.pendingAcks.atSpace space)) }
      else pure ()) conn := by
    intro frames conn
    split_ifs
    · exact Quiet.update (.of_eq rfl)
    · exact Quiet.pure same_equivalence
  exact (acks _ _).alike same_equivalence (acks _ _) same

end Streams

section Datagrams

variable {streamId : Nat}

theorem applyRetry_agrees {retry : RetryPacket} (same : Same conn twin) :
    Agree (applyRetry codec env retry) (applyRetry (codec.onlyStream streamId) env retry)
      conn twin := by
  obtain ⟨hidden, rfl⟩ := same
  refine Alike.read_bind (Alike.update_bind (Alike.lift_bind ⟨hidden, rfl⟩ fun _ _ =>
    Alike.update_bind (Alike.lift_bind ⟨hidden, rfl⟩ fun _ _ => Alike.update_bind ?_)))
  refine Alike.bind (Alike.read_bind (Alike.update_bind (Alike.pure ?_))) ?_
  · exact ⟨{ hidden with nextPn := _, pendingAcks := _, sent := _, log := _ }, rfl⟩
  · intro hello middle second _ same
    refine (sendPacket_silent.alike same_equivalence sendPacket_silent same).bind ?_
    rintro _ conn _ - ⟨hidden, rfl⟩
    exact Alike.update ⟨hidden, rfl⟩

theorem processRetry_agrees {dg : Bytes} (same : Same conn twin) :
    Agree (processRetry codec env dg) (processRetry (codec.onlyStream streamId) env dg)
      conn twin := by
  obtain ⟨hidden, rfl⟩ := same
  refine Alike.lift_bind ⟨hidden, rfl⟩ fun retry _ => Alike.read_bind ?_
  refine Alike.ite (fun _ => Alike.pure ⟨hidden, rfl⟩) fun _ =>
    Alike.ite (fun _ => shut_agrees ⟨hidden, rfl⟩) fun _ => ?_
  refine Alike.lift_bind ⟨hidden, rfl⟩ fun ok _ => ?_
  exact Alike.ite (fun _ => Alike.pure ⟨hidden, rfl⟩) fun _ => applyRetry_agrees ⟨hidden, rfl⟩

theorem learnScid_agrees {header : Header} (same : Same conn twin) :
    Agree (learnScid header) (learnScid header) conn twin := by
  obtain ⟨hidden, rfl⟩ := same
  exact Alike.read_bind (Alike.ite (fun _ => Alike.update ⟨hidden, rfl⟩) fun _ =>
    Alike.pure ⟨hidden, rfl⟩)

theorem processPacket_agrees {dg : Bytes} (own : conn.streamId = streamId) (same : Same conn twin) :
    Agree (processPacket codec env crypto dg)
      (processPacket (codec.onlyStream streamId) env crypto dg) conn twin := by
  obtain ⟨hidden, rfl⟩ := same
  refine Alike.read_bind (Alike.lift_bind ⟨hidden, rfl⟩ fun header _ => ?_)
  refine Alike.ite (fun _ => Alike.pure ⟨hidden, rfl⟩) fun _ => ?_
  rw [show (conn.withHidden hidden).readKey header = conn.readKey header from rfl]
  cases keyed : conn.readKey header with
  | none => exact Alike.pure ⟨hidden, rfl⟩
  | some both =>
      obtain ⟨space, key⟩ := both
      refine Alike.ite (fun _ => Alike.pure ⟨hidden, rfl⟩) fun _ => ?_
      refine (learnScid_agrees ⟨hidden, rfl⟩).bind fun _ middle second learned same => ?_
      refine Alike.lift_bind same fun opened _ => ?_
      cases opened with
      | none => exact Alike.pure same
      | some both =>
          obtain ⟨pn, plaintext⟩ := both
          obtain ⟨hidden, rfl⟩ := same
          have moved : Ledger.Follows codec crypto conn middle :=
            Ledger.learnScid_goes.ok _ _ learned
          refine Alike.update_bind ((processPlaintext_agrees ?_ ?_ ⟨hidden, rfl⟩).bind ?_)
          · exact fun flight => moved.hsRead_isSome (Ledger.readKey_handshake keyed flight)
          · exact (streamId_of_follows moved).trans own
          · exact fun _ _ _ _ same => Alike.pure same

theorem processDatagram_agrees {dg : Bytes} (own : conn.streamId = streamId)
    (same : Same conn twin) :
    Agree (processDatagram codec env crypto dg)
      (processDatagram (codec.onlyStream streamId) env crypto dg) conn twin := by
  unfold processDatagram
  generalize dg.length + 1 = fuel
  induction fuel generalizing dg conn twin with
  | zero => exact Alike.fail same
  | succ fuel inductionHypothesis =>
      refine Alike.ite (fun _ => Alike.pure same) fun _ => Alike.ite (fun _ => shut_agrees same)
        fun _ => Alike.ite (fun _ => processRetry_agrees same) fun _ => ?_
      refine (processPacket_agrees own same).bind fun stop middle second ran same => ?_
      cases stop with
      | none => exact Alike.pure same
      | some stop =>
          refine Alike.lift_bind same fun rest _ => inductionHypothesis ?_ same
          exact (streamId_of_follows (Ledger.processPacket_goes.ok _ _ ran)).trans own

end Datagrams

/-! ## The response grows by its own frames -/

section Gathering

/-- The stream stays, and the response grows by the frames of the stream. -/
structure Ledger.Collects (codec : Codec PacketKey) (before after : Ledger PacketKey RootStore) :
    Prop where
  stream : after.streamId = before.streamId
  gathers : ∃ events, after.log = before.log ++ events ∧
    after.queryRx.buf = gathered codec before.streamId before.queryRx.buf events

/-- The same of a connection. -/
def Collects (codec : Codec PacketKey) (before after : QuicConnection PacketKey RootStore) : Prop :=
  Ledger.Collects codec before.ledger after.ledger

theorem Ledger.Collects.trans {first middle last : Ledger PacketKey RootStore}
    (one : Ledger.Collects codec first middle) (two : Ledger.Collects codec middle last) :
    Ledger.Collects codec first last := by
  obtain ⟨stream, events, grown, buf⟩ := one
  obtain ⟨stays, later, grows, ends⟩ := two
  refine ⟨stays.trans stream, events ++ later, ?_, ?_⟩
  · rw [grows, grown, List.append_assoc]
  · rw [ends, buf, stream, gathered, gathered, gathered, List.filterMap_append, List.foldl_append]

/-- Events that answer nothing. -/
theorem Ledger.Collects.of_silent {before after : Ledger PacketKey RootStore}
    {events : List (Event PacketKey)} (grown : after.log = before.log ++ events)
    (silent : events.filterMap (Event.answer codec before.streamId) = [])
    (stream : after.streamId = before.streamId)
    (kept : after.queryRx = before.queryRx) : Ledger.Collects codec before after := by
  refine ⟨stream, events, grown, ?_⟩
  rw [gathered, silent, kept]
  rfl

theorem Ledger.Step.collects {before after : Ledger PacketKey RootStore}
    (step : Ledger.Step codec crypto before after) : Ledger.Collects codec before after := by
  cases step with
  | received space frame silent foreign =>
      refine .of_silent rfl ?_ rfl rfl
      cases frame with
      | stream => simp [Event.answer, foreign]
      | _ => rfl
  | answered space answers placed =>
      refine ⟨rfl, _, rfl, ?_⟩
      rw [gathered, List.filterMap_cons, Event.answer, if_pos answers, List.filterMap_nil]
      rw [List.foldl_cons, List.foldl_nil, place, placed]
      rfl
  | acked | sent | dropped | retried => exact .of_silent rfl rfl rfl rfl
  | accepted => exact .of_silent (List.append_assoc _ _ _) rfl rfl rfl
  | keyed | confirmed | readable => exact .of_silent (List.append_nil _).symm rfl rfl rfl

theorem Ledger.Collects.refl (ledger : Ledger PacketKey RootStore) :
    Ledger.Collects codec ledger ledger :=
  .of_silent (List.append_nil _).symm rfl rfl rfl

theorem Ledger.Steps.collects {before after : Ledger PacketKey RootStore}
    (steps : Ledger.Steps codec crypto before after) : Ledger.Collects codec before after := by
  induction steps with
  | refl => exact .refl _
  | tail _ step inductionHypothesis => exact inductionHypothesis.trans step.collects

theorem collects_sequential :
    Sequential (@Collects PacketKey RootStore codec) (fun _ _ => True) where
  refl conn := .refl conn.ledger
  trans first second := first.trans second
  stop _ := trivial
  fails _ _ := trivial

theorem sendPacket_collects {space : Space} {frames : List Frame} {padInitial : Bool} :
    Moves (Collects codec) (fun _ _ => True) (sendPacket codec env space frames padInitial) conn where
  ok := by
    intro _ after ran
    obtain ⟨key, -, -, rfl⟩ | ⟨error, failed, -⟩ := Ledger.sendPacket_cases ran
    · rw [Collects, Ledger.afterSend_ledger]
      exact .of_silent rfl rfl rfl rfl
    · cases failed
  bad _ _ _ := trivial

theorem flushQuerySend_collects :
    Moves (Collects codec) (fun _ _ => True) (flushQuerySend codec env) conn where
  ok := by
    intro _ after ran
    rcases flushQuerySend_cases ran with rfl | ⟨query, chunks, total, -, -, -, -, ran⟩
    · exact .refl _
    · have advanced : Collects codec conn (advancing conn query chunks total) :=
        .of_silent (List.append_nil _).symm rfl rfl rfl
      exact advanced.trans ((collects_sequential.each fun _ _ _ => sendPacket_collects).ok _ _ ran)
  bad _ _ _ := trivial

theorem act_collects (op : Op) (loop : op.isStart = false)
    (conn : QuicConnection PacketKey RootStore) :
    Moves (Collects codec) (fun _ _ => True) (op.act codec crypto) conn := by
  have rules := @collects_sequential PacketKey RootStore codec
  have passive : ∀ op : Op, op.isPassive = true →
      Moves (Collects codec) (fun _ _ => True) (op.act codec crypto) conn :=
    fun op passive => ⟨fun _ _ ran => ((act_goes passive).ok _ _ ran).collects, fun _ _ _ => trivial⟩
  cases op with
  | datagram | heard | flushAcks | close => exact passive _ rfl
  | openStream => cases loop
  | runPto env =>
      refine ⟨fun _ after ran => ?_, fun _ _ _ => trivial⟩
      rcases runPto_cases ran with same | ran
      · rw [Collects, same]
        exact .refl _
      · have taken : Collects codec conn (probing conn) :=
          .of_silent (List.append_nil _).symm rfl rfl rfl
        exact taken.trans ((rules.each fun _ _ _ => sendPacket_collects).ok _ _ ran)
  | flushQuery env => exact flushQuerySend_collects

end Gathering

section Loop

variable {streamId : Nat}

theorem flushQuerySend_agrees (same : Same conn twin) :
    Agree (flushQuerySend codec env) (flushQuerySend (codec.onlyStream streamId) env) conn twin := by
  obtain ⟨hidden, rfl⟩ := same
  have taken : Agree takeChunks takeChunks conn (conn.withHidden hidden) := by
    refine Alike.read_bind ?_
    rw [show (conn.withHidden hidden).queryTx = conn.queryTx from rfl]
    cases conn.queryTx with
    | none => exact Alike.pure ⟨hidden, rfl⟩
    | some query =>
        refine Alike.ite (fun _ => Alike.pure ⟨hidden, rfl⟩) fun _ =>
          Alike.ite (fun _ => Alike.pure ⟨hidden, rfl⟩) fun _ => ?_
        exact Alike.lift_bind ⟨hidden, rfl⟩ fun _ _ => Alike.update_bind (Alike.pure ⟨hidden, rfl⟩)
  refine Alike.read_bind (taken.bind fun chunks middle second _ same => ?_)
  exact (Quiet.each same_equivalence fun _ _ => sendPacket_silent).alike same_equivalence
    (Quiet.each same_equivalence fun _ _ => sendPacket_silent) same

theorem receive_agrees {arrivals : List (Bool × Bytes)} (own : conn.streamId = streamId)
    (same : Same conn twin) :
    Agree (receive codec env crypto arrivals)
      (receive (codec.onlyStream streamId) env crypto arrivals) conn twin := by
  unfold receive
  generalize (arrivals.filter (·.1)).map (·.2) = dgs
  induction dgs generalizing conn twin with
  | nil => exact Alike.pure same
  | cons dg dgs inductionHypothesis =>
      refine (processDatagram_agrees own same).bind fun _ middle second ran same => ?_
      have moved := Ledger.processDatagram_goes.ok _ _ ran
      exact inductionHypothesis ((streamId_of_follows moved).trans own) same

theorem settle_agrees {round : Round} (same : Same conn twin) :
    Agree (settle codec round) (settle (codec.onlyStream streamId) round) conn twin := by
  have heard : Agree (heard round.arrivals) (heard round.arrivals) conn twin := by
    obtain ⟨hidden, rfl⟩ := same
    exact Alike.ite (fun _ => Alike.update ⟨{ hidden with ptoCount := 0 }, rfl⟩) fun _ =>
      Alike.pure ⟨hidden, rfl⟩
  refine heard.bind fun _ _ _ _ same => ?_
  refine (flushAcks_silent.alike same_equivalence flushAcks_silent same).bind fun _ _ _ _ same => ?_
  refine (runPto_silent.alike same_equivalence runPto_silent same).bind ?_
  rintro _ conn _ - ⟨hidden, rfl⟩
  exact Alike.read_bind (Alike.ite (fun _ => flushQuerySend_agrees ⟨hidden, rfl⟩) fun _ =>
    Alike.pure ⟨hidden, rfl⟩)

theorem driveRound_agrees {round : Round} (own : conn.streamId = streamId) (same : Same conn twin) :
    Agree (driveRound codec crypto round) (driveRound (codec.onlyStream streamId) crypto round)
      conn twin := by
  refine (receive_agrees own same).bind fun _ _ _ _ same => ?_
  cases round.broken with
  | none => exact settle_agrees same
  | some error => exact Alike.fail same

theorem driveUntil_agrees {budgetMs : Nat} {rounds : List Round} (own : conn.streamId = streamId)
    (same : Same conn twin) :
    Agree (driveUntil codec crypto (fun self => self.queryRx.complete) budgetMs rounds)
      (driveUntil (codec.onlyStream streamId) crypto (fun self => self.queryRx.complete) budgetMs
        rounds) conn twin := by
  induction rounds generalizing conn twin with
  | nil =>
      obtain ⟨hidden, rfl⟩ := same
      exact Alike.read_bind (Alike.pure ⟨hidden, rfl⟩)
  | cons round rounds inductionHypothesis =>
      obtain ⟨hidden, rfl⟩ := same
      refine Alike.read_bind (Alike.ite (fun _ => Alike.pure ⟨hidden, rfl⟩) fun _ => ?_)
      rw [show (conn.withHidden hidden).closed = conn.closed from rfl]
      cases conn.closed with
      | some error => exact Alike.fail ⟨hidden, rfl⟩
      | none =>
          refine Alike.ite (fun _ => Alike.fail ⟨hidden, rfl⟩) fun _ => ?_
          refine (driveRound_agrees own ⟨hidden, rfl⟩).bind fun _ middle second ran same => ?_
          have kept : Collects codec conn middle :=
            (driveRound_moves collects_sequential act_collects round).ok _ _ ran
          exact inductionHypothesis (kept.stream.trans own) same

theorem openStream_agrees {query : Bytes} (same : Same conn twin) :
    Agree (openStream codec query) (openStream (codec.onlyStream streamId) query) conn twin := by
  obtain ⟨hidden, rfl⟩ := same
  refine Alike.read_bind (Alike.ite (fun _ => Alike.fail ⟨hidden, rfl⟩) fun _ => ?_)
  rw [show (conn.withHidden hidden).closed = conn.closed from rfl]
  cases conn.closed with
  | some error => exact Alike.fail ⟨hidden, rfl⟩
  | none =>
      exact Alike.ite (fun _ => Alike.fail ⟨hidden, rfl⟩) fun _ => Alike.update ⟨hidden, rfl⟩

/-- A query ends alike whether other streams arrive or not. -/
theorem exchangeQuery_agrees {query : Bytes} {drive : Drive} (same : Same conn twin) :
    Agree (exchangeQuery codec env crypto query drive)
      (exchangeQuery (codec.onlyStream (nextStream codec conn)) env crypto query drive)
      conn twin := by
  refine (openStream_agrees same).bind fun _ opened _ ran same => ?_
  have own : opened.streamId = nextStream codec conn := by
    rcases openStream_cases ran with ⟨⟨error, failed⟩, -⟩ | ⟨-, -, rfl⟩
    · cases failed
    · rfl
  refine (flushQuerySend_agrees same).bind fun _ flushed _ ran same => ?_
  have kept : Collects codec opened flushed := flushQuerySend_collects.ok _ _ ran
  refine (driveUntil_agrees (kept.stream.trans own) same).bind ?_
  rintro done driven _ - ⟨hidden, rfl⟩
  exact Alike.read_bind (Alike.ite (fun _ => Alike.pure ⟨hidden, rfl⟩) fun _ =>
    Alike.ite (fun _ => Alike.fail ⟨hidden, rfl⟩) fun _ => Alike.pure ⟨hidden, rfl⟩)

/-- A response is what the frames of its stream give. -/
theorem exchangeQuery_gathers {query : Bytes} {drive : Drive} {bytes : Bytes}
    {after : QuicConnection PacketKey RootStore}
    (ran : exchangeQuery codec env crypto query drive conn = (.ok (some bytes), after)) :
    ∃ events, after.log = conn.log ++ events ∧
      bytes = gathered codec (nextStream codec conn) [] events := by
  obtain ⟨_, opened, started, ran⟩ := bind_eq_ok_iff.mp ran
  obtain ⟨_, flushed, sent, ran⟩ := bind_eq_ok_iff.mp ran
  obtain ⟨done, driven, drove, ran⟩ := bind_eq_ok_iff.mp ran
  rw [read_bind_run] at ran
  split_ifs at ran
  · cases ran
  · cases ran
  · cases ran
    rcases openStream_cases started with ⟨⟨error, failed⟩, -⟩ | ⟨-, -, rfl⟩
    · cases failed
    · have first : Collects codec _ flushed := flushQuerySend_collects.ok _ _ sent
      have second : Collects codec flushed after :=
        (driveUntil_moves collects_sequential act_collects).ok _ _ drove
      obtain ⟨-, events, grown, buf⟩ := first.trans second
      exact ⟨events, grown, buf⟩

end Loop

/-! ## Calls one after the other -/

theorem getLast?_ne_of_delivered {log : List (Event PacketKey)} (sent : delivered log = true)
    (space : Space) (frames : List Frame) : log.getLast? ≠ some (.handed space frames) := by
  intro last
  obtain ⟨front, rfl⟩ := List.getLast?_eq_some_iff.mp last
  induction front with
  | nil => cases sent
  | cons event front inductionHypothesis =>
      refine inductionHypothesis ?_ List.getLast?_concat
      cases event with
      | handed => exact (Bool.and_eq_true_iff.mp sent).2
      | _ => exact sent

theorem uncut_of_undisturbed {exchanged : Exchanged PacketKey RootStore}
    {calls : List (Exchanged PacketKey RootStore)} {index : Nat}
    (undisturbed : Undisturbed (exchanged :: calls) index) : ¬ Cut exchanged.after := by
  obtain ⟨sent, going⟩ := undisturbed exchanged List.mem_cons_self
  rintro (⟨space, frames, last⟩ | gaveUp)
  · exact getLast?_ne_of_delivered sent space frames last
  · exact going gaveUp

theorem undisturbed_tail {exchanged : Exchanged PacketKey RootStore}
    {calls : List (Exchanged PacketKey RootStore)} {index : Nat}
    (undisturbed : Undisturbed (exchanged :: calls) (index + 1)) : Undisturbed calls index :=
  fun other member => undisturbed other (List.mem_cons_of_mem _ member)

/-- The results agree, call by call, until a run is disturbed. -/
theorem results_agree {exchanges : List Exchange} (same : Same conn twin) (index : Nat)
    (steady : Undisturbed (together codec crypto exchanges conn) index)
    (calm : Undisturbed (apart codec crypto exchanges twin) index) :
    (together codec crypto exchanges conn)[index]?.map (·.result) =
      (apart codec crypto exchanges twin)[index]?.map (·.result) := by
  induction exchanges generalizing conn twin index with
  | nil => rfl
  | cons exchange exchanges inductionHypothesis =>
      have own : nextStream codec twin = nextStream codec conn := by
        obtain ⟨hidden, rfl⟩ := same
        rfl
      have agree := @exchangeQuery_agrees _ _ codec crypto exchange.env conn twin exchange.query
        exchange.drive same
      rw [← own] at agree
      rcases agree with ⟨-, cut⟩ | ⟨-, cut⟩ | ⟨results, same⟩
      · exact absurd cut (uncut_of_undisturbed steady)
      · exact absurd cut (uncut_of_undisturbed calm)
      · cases index with
        | zero => exact congrArg some results
        | succ index =>
            exact inductionHypothesis same index (undisturbed_tail steady) (undisturbed_tail calm)

/-- As long as packets go out and loss recovery does not give up, every call ends as if
the STREAM frames of other streams had not arrived; and a response is made of the frames
of its own stream. -/
theorem exchanges_apart (codec : Codec PacketKey) (crypto : Crypto RootStore)
    (exchanges : List Exchange) (conn : QuicConnection PacketKey RootStore) :
    (∀ index, Undisturbed (together codec crypto exchanges conn) index →
      Undisturbed (apart codec crypto exchanges conn) index →
      (together codec crypto exchanges conn)[index]?.map (·.result) =
        (apart codec crypto exchanges conn)[index]?.map (·.result)) ∧
    ∀ exchanged ∈ together codec crypto exchanges conn, ∀ bytes,
      exchanged.result = .ok (some bytes) →
      ∃ events, exchanged.after.log = exchanged.before.log ++ events ∧
        bytes = gathered codec (nextStream codec exchanged.before) [] events := by
  refine ⟨fun index => results_agree (same_equivalence.refl conn) index, ?_⟩
  induction exchanges generalizing conn with
  | nil => exact fun _ member => by cases member
  | cons exchange exchanges inductionHypothesis =>
      intro exchanged member bytes result
      rcases List.mem_cons.mp member with rfl | member
      · exact exchangeQuery_gathers (run_eq result)
      · exact inductionHypothesis _ exchanged member bytes result

end Agreement

/-! ## Calls on a connection -/

namespace Plain

/-- The key of the packets of a server after the handshake. -/
def appRead : Bytes := List.replicate 32 227

/-- What a server sends for the handshake, with an acknowledgement of the ClientHello. -/
def handshake : List Op :=
  [.datagram env (longPacket .initial [1] [9] 0 [1, 2]
      [.ack 0 0 [(0, 0)], .crypto 0 Sample.serverHello]),
    .datagram env (flight [4, 1, 32, 6, 1, 32] 192 224), .flushAcks env]

/-- A connection with a server after the handshake. -/
def confirmed : QuicConnection Bytes Bytes := operate codec Sample.crypto handshake started

/-- A round at a time, with what the server sends in it. -/
def roundAt (seconds : Nat) (dgs : List Bytes) : Round :=
  ⟨false, dgs.map (true, ·), none, { env with now := seconds * 1000000000 }⟩

/-- A server acknowledges everything, and opens a stream of its own. -/
def acknowledgement : List Bytes :=
  [longPacket .handshake [1] [9] 1 (List.replicate 32 205) [.ack 1 0 [(0, 1)]],
    shortPacket [1] 0 appRead [.ack 0 0 [(0, 0)], .stream 1 (some 0) [7] (some 1) false]]

/-- The response. -/
def response : Bytes := shortPacket [1] 1 appRead [.stream 0 (some 0) [0, 1, 5] (some 3) true]

end Plain

/-- A server that opens a stream and then answers: the response is as if it had not. -/
theorem response_beside_stream :
    (together Plain.codec Sample.crypto [⟨Plain.env, [0, 1, 4],
      [Plain.roundAt 0 Plain.acknowledgement, Plain.roundAt 1 [Plain.response]], 100⟩]
      Plain.confirmed)[0]?.map (·.result) = some (.ok (some [0, 1, 5])) ∧
    (apart Plain.codec Sample.crypto [⟨Plain.env, [0, 1, 4],
      [Plain.roundAt 0 Plain.acknowledgement, Plain.roundAt 1 [Plain.response]], 100⟩]
      Plain.confirmed)[0]?.map (·.result) = some (.ok (some [0, 1, 5])) := by
  -- One evaluation of the handshake serves the three facts.
  have computed :
      (together Plain.codec Sample.crypto [⟨Plain.env, [0, 1, 4],
        [Plain.roundAt 0 Plain.acknowledgement, Plain.roundAt 1 [Plain.response]], 100⟩]
        Plain.confirmed)[0]?.map (·.result) = some (.ok (some [0, 1, 5])) ∧
      Undisturbed (together Plain.codec Sample.crypto [⟨Plain.env, [0, 1, 4],
        [Plain.roundAt 0 Plain.acknowledgement, Plain.roundAt 1 [Plain.response]], 100⟩]
        Plain.confirmed) 0 ∧
      Undisturbed (apart Plain.codec Sample.crypto [⟨Plain.env, [0, 1, 4],
        [Plain.roundAt 0 Plain.acknowledgement, Plain.roundAt 1 [Plain.response]], 100⟩]
        Plain.confirmed) 0 := by
    decide +kernel
  obtain ⟨answered, besides, alone⟩ := computed
  refine ⟨answered, Eq.trans ?_ answered⟩
  exact ((exchanges_apart Plain.codec Sample.crypto _ Plain.confirmed).1 0 besides alone).symm

/-- A server that opens a stream and then is silent for eleven minutes: the packet that
resets the stream is sent again until loss recovery gives up. Without that stream, the
query gets its response. -/
theorem stream_of_server_ends_query :
    QuicConnection.fresh Plain.codec Sample.cfg Plain.env.entropy [1] [2] =
      .ok (Plain.hello, Plain.connection) ∧
    greet Plain.codec Plain.env Plain.hello Plain.connection = (.ok (), Plain.started) ∧
    ∃ exchange : Exchange,
      (together Plain.codec Sample.crypto [exchange] Plain.confirmed).map (·.result) =
        [.error tooManyPtos] ∧
      (apart Plain.codec Sample.crypto [exchange] Plain.confirmed).map (·.result) =
        [.ok (some [0, 1, 5])] ∧
      (∀ exchanged ∈ together Plain.codec Sample.crypto [exchange] Plain.confirmed,
        delivered exchanged.after.log = true) ∧
      ∀ exchanged ∈ apart Plain.codec Sample.crypto [exchange] Plain.confirmed,
        delivered exchanged.after.log = true :=
  ⟨Plain.fresh_connection, run_eq (by decide +kernel), ⟨Plain.env, [0, 1, 4],
    Plain.roundAt 0 Plain.acknowledgement ::
      (List.range 11).map (fun minute => Plain.roundAt (60 * (minute + 1)) []) ++
      [Plain.roundAt 720 [Plain.response]], 1000000⟩, by decide +kernel⟩

end RecurseX.Doq
