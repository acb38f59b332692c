import RecurseX.Doq.Reassembly
import RecurseX.Doq.Turns

/-!
# What taking a frame changes

Everything a frame does to the connection is made of a few kinds of changes. What each of
them leaves alone, every frame leaves alone.
-/

namespace RecurseX.Doq

open Library Wire Stateful QuicConnection

variable {PacketKey RootStore : Type}

/-- Whether a frame announces a limit of ours. -/
def Frame.announces : Frame → Bool
  | .maxData _ | .maxStreamData .. | .maxStreams .. => true
  | _ => false

/-- The server's parameters do not contradict the identifiers that the connection knows. -/
structure Validated (conn : QuicConnection PacketKey RootStore) (params : ServerTransportParams) :
    Prop where
  announced : conn.tls.serverParams = some params
  original : ∀ odcid ∈ params.originalDestinationConnectionId, odcid = conn.originalDcid
  source : ∀ iscid ∈ params.initialSourceConnectionId, iscid = conn.serverCid
  retry : ∀ expected ∈ conn.retryScid, ∀ got ∈ params.retrySourceConnectionId, got = expected

/-- One change that a frame makes. The response and our limits change where `data` is so: with
the frames that carry stream data. -/
inductive Change (codec : Codec PacketKey) (crypto : Crypto RootStore) (data : Prop) :
    QuicConnection PacketKey RootStore → QuicConnection PacketKey RootStore → Prop where
  | acked {conn} (env : Env) (space : Space) (largest delay : Nat) (ranges : List (Nat × Nat)) :
      Change codec crypto data conn (onAck env space largest delay ranges conn).2
  /-- A frame was handed to be sent, and went out or not. -/
  | handed {conn} (env : Env) (space : Space) (frame : Frame) (level : space ≠ .initial)
      (window : frame.announces = true → data) :
      Change codec crypto data conn (sendPacket codec env space [frame] false conn).2
  | buffered {conn} (rx : PerSpace CryptoRx) :
      Change codec crypto data conn { conn with cryptoRx := rx }
  | completed {conn} (space : Space) (msg : Bytes) :
      Change codec crypto data conn { conn with log := conn.log ++ [.completed space msg] }
  | fed {conn} (msg : Bytes) :
      Change codec crypto data conn
        { conn with tls := (ClientHandshake.feed crypto codec.varint msg conn.tls).2 }
  | accepted {conn} (space : Space) (msg : Bytes) :
      Change codec crypto data conn { conn with log := conn.log ++ [.accepted space msg] }
  | keyed {conn} (hsWrite appWrite appRead : PacketKey) :
      Change codec crypto data conn
        { conn with hsWrite := some hsWrite, appWrite := some appWrite, appRead := some appRead }
  | readable {conn} (hsRead : PacketKey) :
      Change codec crypto data conn { conn with hsRead := some hsRead }
  | limited {conn} (maxData maxStreamData bidi uni : Nat) :
      Change codec crypto data conn { conn with
        peerMaxData := maxData
        peerMaxStreamData := maxStreamData
        peerMaxStreamsBidi := bidi
        peerMaxStreamsUni := uni }
  | confirmed {conn} (cryptoTx : PerSpace Nat) {params : ServerTransportParams}
      (validated : Validated conn params) (due : conn.tls.next = HsType.FINISHED) :
      Change codec crypto data conn
        { conn with cryptoTx := cryptoTx, handshakeConfirmed := true, ptoCount := 0 }
  | closed {conn} (error : Error) : Change codec crypto data conn { conn with closed := some error }
  | drained {conn} (opened : Nat) (consumed : List (Nat × Nat)) (stream : data) :
      Change codec crypto data conn { conn with serverUniOpened := opened, uniConsumed := consumed }
  | answered {conn} (rx : QueryRecv) (consumed : Nat) (stream : data) :
      Change codec crypto data conn { conn with queryRx := rx, connRxConsumed := consumed }
  | announced {conn} (maxData bidi uni streams : Nat) (stream : data) :
      Change codec crypto data conn { conn with
        ourMaxData := maxData
        ourMaxStreamDataBidiLocal := bidi
        ourMaxStreamDataUni := uni
        ourMaxStreamsUni := streams }

/-- Any number of changes. -/
def Changes (codec : Codec PacketKey) (crypto : Crypto RootStore) (data : Prop) :
    QuicConnection PacketKey RootStore → QuicConnection PacketKey RootStore → Prop :=
  Relation.ReflTransGen (Change codec crypto data)

section Walk

variable {codec : Codec PacketKey} {crypto : Crypto RootStore} {env : Env} {data : Prop}
variable {conn after : QuicConnection PacketKey RootStore}

theorem changes_sequential :
    Sequential (@Changes PacketKey RootStore codec crypto data) (Changes codec crypto data) where
  refl _ := .refl
  trans first second := first.trans second
  stop _ := .refl
  fails first second := first.trans second

/-- What a computation does is such changes, however it ends. -/
abbrev MadeOf (codec : Codec PacketKey) (crypto : Crypto RootStore) (data : Prop) {α : Type}
    (act : Act PacketKey RootStore α) (conn : QuicConnection PacketKey RootStore) : Prop :=
  Moves (Changes codec crypto data) (Changes codec crypto data) act conn

/-- A computation that is one change. -/
theorem MadeOf.single {α : Type} {act : Act PacketKey RootStore α}
    (change : Change codec crypto data conn (act conn).2) : MadeOf codec crypto data act conn :=
  .of_after (.single change)

theorem sendPacket_madeOf {space : Space} {frame : Frame} (level : space ≠ .initial)
    (window : frame.announces = true → data) :
    MadeOf codec crypto data (sendPacket codec env space [frame] false) conn :=
  .single (.handed env space frame level window)

theorem shut_madeOf {α : Type} {error : Error} :
    MadeOf codec crypto data (shut error : Act PacketKey RootStore α) conn :=
  changes_sequential.update_bind (.single (.closed error)) changes_sequential.fail

/-! ## Handshake data -/

theorem validateServerTransportParams_madeOf :
    MadeOf codec crypto data validateServerTransportParams conn := by
  have rules := @changes_sequential _ _ codec crypto data
  refine Sequential.read_bind (rules.lift_bind fun params _ => ?_)
  refine rules.lift_bind fun _ _ => rules.lift_bind fun _ _ => rules.lift_bind fun _ _ => ?_
  exact rules.update_bind (.single (.limited _ _ _ _)) (Sequential.read_bind rules.lift)

/-- Parameters that pass the check do not contradict what is known. -/
theorem validateServerTransportParams_ok {value : Unit}
    (ran : validateServerTransportParams conn = (.ok value, after)) :
    after.tls = conn.tls ∧ ∃ params, Validated after params := by
  unfold validateServerTransportParams at ran
  rw [read_bind_run] at ran
  obtain ⟨params, found, ran⟩ := lift_bind_eq_ok_iff.mp ran
  obtain ⟨_, original, ran⟩ := lift_bind_eq_ok_iff.mp ran
  obtain ⟨_, source, ran⟩ := lift_bind_eq_ok_iff.mp ran
  obtain ⟨_, retry, ran⟩ := lift_bind_eq_ok_iff.mp ran
  rw [failIf_eq_ok] at original source retry
  rw [update_bind_run, read_bind_run] at ran
  obtain ⟨-, rfl⟩ := Prod.mk.inj ran
  exact ⟨rfl, params, okOr_eq_ok.mp found, by simpa using original, by simpa using source,
    by simpa using retry⟩

/-- What the check of the parameters is about. -/
def compared (conn : QuicConnection PacketKey RootStore) :
    ClientHandshake RootStore × Bytes × Bytes × Option Bytes :=
  (conn.tls, conn.originalDcid, conn.serverCid, conn.retryScid)

theorem Validated.congr {params : ServerTransportParams} (validated : Validated conn params)
    (same : compared after = compared conn) : Validated after params := by
  simp only [compared, Prod.mk.injEq] at same
  obtain ⟨tls, original, source, retry⟩ := same
  refine ⟨?_, ?_, ?_, ?_⟩
  · exact tls ▸ validated.announced
  · exact original ▸ validated.original
  · exact source ▸ validated.source
  · exact retry ▸ validated.retry

theorem compared_unsent : Unsent (@compared PacketKey RootStore) :=
  ⟨fun _ _ _ => rfl, fun _ _ _ _ _ => rfl⟩

theorem completeHandshake_madeOf {completed : Completed} (due : conn.tls.next = HsType.FINISHED) :
    MadeOf codec crypto data (completeHandshake codec env completed) conn := by
  have rules := @changes_sequential _ _ codec crypto data
  refine Sequential.read_bind (rules.lift_bind fun hsWrite _ => rules.lift_bind fun appWrite _ =>
    rules.lift_bind fun appRead _ =>
      rules.update_bind (.single (.keyed hsWrite appWrite appRead)) ?_)
  refine rules.bind validateServerTransportParams_madeOf fun _ middle valid moved =>
    Sequential.read_bind ?_
  refine rules.bind (sendPacket_madeOf (by decide) nofun) fun _ last ran _ => Sequential.update ?_
  have same : compared last = compared middle := (sendPacket_keeps compared_unsent).keeps ran
  obtain ⟨kept, params, validated⟩ := validateServerTransportParams_ok valid
  refine .single (.confirmed _ (validated.congr same) ?_)
  rw [show last.tls = middle.tls from congrArg Prod.fst same, kept]
  exact due

theorem deriveHsRead_madeOf : MadeOf codec crypto data (deriveHsRead codec) conn := by
  have rules := @changes_sequential _ _ codec crypto data
  refine Sequential.read_bind ?_
  cases conn.hsRead with
  | some key => exact rules.pure
  | none =>
      cases conn.tls.sHs with
      | none => exact rules.pure
      | some sHs =>
          refine rules.lift_bind fun suite _ => rules.lift_bind fun hsRead _ => ?_
          exact Sequential.update (.single (.readable hsRead))

/-- A message completes the handshake where a Finished is due, and leaves it due. -/
theorem next_of_completed {tls handshake : ClientHandshake RootStore} {msg : Bytes}
    {completed : Completed}
    (fed : ClientHandshake.feed crypto codec.varint msg handshake = (.ok (some completed), tls)) :
    tls.next = HsType.FINISHED := by
  cases ClientHandshake.feed_accepts fed with
  | finished split saw due => exact due

theorem feedMessage_madeOf {space : Space} {msg : Bytes} :
    MadeOf codec crypto data (feedMessage codec env crypto space msg) conn := by
  have rules := @changes_sequential _ _ codec crypto data
  refine rules.update_bind (.single (.completed space msg)) ?_
  refine rules.bind (MadeOf.single (.fed msg)) fun result middle ran _ => ?_
  refine rules.update_bind (.single (.accepted space msg)) ?_
  cases result with
  | none => exact deriveHsRead_madeOf
  | some completed =>
      obtain ⟨outcome, rfl⟩ := Prod.mk.inj ran
      exact completeHandshake_madeOf (next_of_completed (run_eq outcome))

theorem feedMessages_madeOf {space : Space} {fuel : Nat} :
    MadeOf codec crypto data (feedMessages codec env crypto space fuel) conn := by
  have rules := @changes_sequential _ _ codec crypto data
  induction fuel generalizing conn with
  | zero => exact rules.fail
  | succ fuel inductionHypothesis =>
      refine Sequential.read_bind ?_
      cases (conn.cryptoRx.atSpace space).popMessage with
      | none => exact rules.pure
      | some both =>
          refine rules.update_bind (.single (.buffered _)) ?_
          exact rules.bind feedMessage_madeOf fun _ _ _ _ => inductionHypothesis

theorem onCrypto_madeOf {space : Space} {offset : Nat} {octets : Bytes} :
    MadeOf codec crypto data (onCrypto codec env crypto space offset octets) conn := by
  have rules := @changes_sequential _ _ codec crypto data
  unfold onCrypto
  split_ifs
  · exact rules.pure
  · refine Sequential.read_bind (rules.lift_bind fun rx _ => ?_)
    exact rules.update_bind (.single (.buffered _)) feedMessages_madeOf

/-! ## Stream data -/

theorem replenish_madeOf {used limit : Nat} {announce : Nat → Frame}
    {put : Nat → QuicConnection PacketKey RootStore → QuicConnection PacketKey RootStore}
    (here : data)
    (announced : ∀ limit conn, Change codec crypto data conn (put limit conn)) :
    MadeOf codec crypto data (replenish codec env used limit announce put) conn := by
  have rules := @changes_sequential _ _ codec crypto data
  unfold replenish
  split_ifs
  · refine rules.bind (sendPacket_madeOf (by decide) fun _ => here) fun _ _ _ _ => ?_
    exact Sequential.update (.single (announced _ _))
  · exact rules.pure

theorem maybeReplenishWindows_madeOf (here : data) :
    MadeOf codec crypto data (maybeReplenishWindows codec env) conn := by
  have rules := @changes_sequential _ _ codec crypto data
  refine Sequential.read_bind (rules.bind (replenish_madeOf here ?_) fun _ middle _ _ => ?_)
  · exact fun _ _ => .announced _ _ _ _ here
  · exact Sequential.read_bind (replenish_madeOf here fun _ _ => .announced _ _ _ _ here)

theorem drainUni_madeOf (here : data) {streamId offset : Nat} {octets : Bytes} :
    MadeOf codec crypto data (drainUni codec env streamId offset octets) conn := by
  have rules := @changes_sequential _ _ codec crypto data
  refine rules.update_bind (.single (.drained _ _ here)) (Sequential.read_bind ?_)
  refine rules.bind (replenish_madeOf here ?_) fun _ middle _ _ => ?_
  · exact fun _ _ => .announced _ _ _ _ here
  · exact Sequential.read_bind (replenish_madeOf here fun _ _ => .announced _ _ _ _ here)

theorem onResponse_madeOf (here : data) {offset : Nat} {octets : Bytes} {fin : Bool} :
    MadeOf codec crypto data (onResponse codec env offset octets fin) conn := by
  have rules := @changes_sequential _ _ codec crypto data
  refine Sequential.read_bind ?_
  cases placeResponse conn.queryRx.buf offset octets with
  | none => exact shut_madeOf
  | some buf =>
      refine rules.update_bind (.single (.answered _ _ here)) ?_
      split_ifs
      · exact shut_madeOf
      · refine rules.update_bind (.single (.answered _ _ here)) ?_
        exact maybeReplenishWindows_madeOf here

theorem onStream_madeOf (here : data) {streamId offset : Nat} {octets : Bytes} {fin : Bool} :
    MadeOf codec crypto data (onStream codec env streamId offset octets fin) conn := by
  refine Sequential.read_bind ?_
  split_ifs
  · exact drainUni_madeOf here
  · exact sendPacket_madeOf (by decide) nofun
  · exact onResponse_madeOf here

/-! ## Frames -/

/-- A frame is noted, and then it makes changes. -/
theorem processFrame_changes {space : Space} {frame : Frame} {outcome : Except Error Unit}
    (ran : processFrame codec env crypto space frame conn = (outcome, after)) :
    Changes codec crypto (frame.isStream = true) (Ledger.noting conn space frame) after := by
  have rules := @changes_sequential _ _ codec crypto (frame.isStream = true)
  cases frame with
  | ack largest delay ranges => exact (MadeOf.single (.acked env space largest delay ranges)).all ran
  | stream streamId offset octets length fin => exact (onStream_madeOf rfl).all ran
  | crypto offset octets => exact onCrypto_madeOf.all ran
  | maxData limit =>
      cases ran
      exact .single (.limited _ _ _ _)
  | maxStreamData streamId limit =>
      unfold processFrame QuicConnection.note at ran
      rw [update_bind_run, read_bind_run] at ran
      dsimp only at ran
      split_ifs at ran
      · exact (MadeOf.single (.limited _ _ _ _)).all ran
      · exact rules.pure.all ran
  | maxStreams unidirectional limit =>
      cases unidirectional with
      | true =>
          cases ran
          exact .single (.limited _ _ _ _)
      | false =>
          cases ran
          exact .single (.limited _ _ _ _)
  | connectionClose errorCode frameType reason => exact shut_madeOf.all ran
  | pathChallenge tag =>
      have level : Space.application ≠ .initial := by decide
      exact (sendPacket_madeOf level nofun).all ran
  | newConnectionId sequence =>
      unfold processFrame QuicConnection.note at ran
      rw [update_bind_run, read_bind_run] at ran
      dsimp only at ran
      split_ifs at ran
      · exact (sendPacket_madeOf (by decide) nofun).all ran
      · exact rules.pure.all ran
  | resetStream streamId code size =>
      unfold processFrame QuicConnection.note at ran
      rw [update_bind_run, read_bind_run] at ran
      dsimp only at ran
      split_ifs at ran
      · exact shut_madeOf.all ran
      · exact rules.pure.all ran
  | stopSending streamId =>
      unfold processFrame QuicConnection.note at ran
      rw [update_bind_run, read_bind_run] at ran
      dsimp only at ran
      split_ifs at ran
      · exact shut_madeOf.all ran
      · exact rules.pure.all ran
  | padding | ping | newToken | dataBlocked | streamDataBlocked | streamsBlocked
  | retireConnectionId | pathResponse | handshakeDone | datagram => exact rules.pure.all ran

/-! ## What frames leave alone -/

/-- The identifiers of the connection, and the packets it is going to acknowledge. -/
def standing (conn : QuicConnection PacketKey RootStore) :
    Bytes × Bytes × Bytes × Bool × Option Bytes × PerSpace (List Nat) :=
  (conn.localCid, conn.originalDcid, conn.serverCid, conn.sawServerScid, conn.retryScid,
    conn.pendingAcks)

theorem standing_unsent : Unsent (@standing PacketKey RootStore) :=
  ⟨fun _ _ _ => rfl, fun _ _ _ _ _ => rfl⟩

theorem Change.standing (change : Change codec crypto data conn after) :
    Doq.standing after = Doq.standing conn := by
  cases change with
  | handed env space frame => exact (sendPacket_keeps standing_unsent).keeps (run_eq rfl)
  | acked env space largest delay ranges =>
      obtain ⟨srtt, rttvar, ptoCount, taken⟩ :=
        @Ledger.onAck_run _ _ conn env space largest delay ranges
      rw [taken]
      rfl
  | buffered | completed | fed | accepted | keyed | readable | limited | confirmed | closed | drained
  | answered | announced => rfl

/-- No frame changes an identifier or what is to be acknowledged. -/
theorem processFrame_standing {space : Space} {frame : Frame} :
    Moves (Keeps Doq.standing) (Keeps Doq.standing) (processFrame codec env crypto space frame)
      conn := by
  rcases ran : processFrame codec env crypto space frame conn with ⟨outcome, after⟩
  have changes := processFrame_changes ran
  have noted : Doq.standing (Ledger.noting conn space frame) = Doq.standing conn := rfl
  refine .of_after ?_
  rw [ran, Keeps, ← noted]
  clear ran
  induction changes with
  | refl => rfl
  | tail _ change inductionHypothesis => exact change.standing.trans inductionHypothesis

theorem processFrames_standing {space : Space} {frames : List Frame} :
    Moves (Keeps Doq.standing) (Keeps Doq.standing) (each (processFrame codec env crypto space) frames)
      conn :=
  (keeps_sequential Doq.standing).each fun _ _ _ => processFrame_standing

/-! ## What the other operations do -/

/-- A relation that goes along with what is sent, and with what is kept for it. -/
structure Passive (codec : Codec PacketKey)
    (relation : QuicConnection PacketKey RootStore → QuicConnection PacketKey RootStore → Prop) :
    Prop where
  rules : Sequential relation relation
  sends : ∀ env space frame padInitial conn,
    relation conn (sendPacket codec env space [frame] padInitial conn).2
  acks : ∀ conn acks, relation conn { conn with pendingAcks := acks }
  heard : ∀ conn, relation conn { conn with ptoCount := 0 }
  probes : ∀ conn, relation conn (probing conn)
  asked : ∀ conn query, relation conn { conn with queryTx := query }
  shut : ∀ conn error, relation conn { conn with closed := some error }
  parted : ∀ conn, relation conn { conn with closeSent := true }

namespace Passive

variable {relation : QuicConnection PacketKey RootStore → QuicConnection PacketKey RootStore → Prop}
variable (passive : Passive codec relation)
include passive

theorem send {space : Space} {frame : Frame} {padInitial : Bool} :
    Moves relation relation (sendPacket codec env space [frame] padInitial) conn :=
  .of_after (passive.sends env space frame padInitial conn)

theorem attemptSend {space : Space} {frame : Frame} {padInitial : Bool} :
    Moves relation relation (attempt (sendPacket codec env space [frame] padInitial)) conn :=
  .of_after (passive.sends env space frame padInitial conn)

theorem flushAcks : Moves relation relation (QuicConnection.flushAcks codec env) conn := by
  have one : ∀ space (conn : QuicConnection PacketKey RootStore),
      Moves relation relation (flushAcksOf codec env space) conn := by
    intro space conn
    refine Sequential.read_bind ?_
    split_ifs
    · exact passive.rules.pure
    · exact Sequential.update (passive.acks conn _)
    · exact passive.rules.update_bind (passive.acks conn _) passive.attemptSend
  exact passive.rules.bind (one .initial conn) fun _ _ _ _ =>
    passive.rules.bind (one .handshake _) fun _ _ _ _ => one .application _

/-- Where the packets that are sent again go along. -/
theorem runPto (resends : ∀ packet ∈ conn.sent, ∀ state,
      Moves relation relation (resend codec env packet) state) :
    Moves relation relation (QuicConnection.runPto codec env) conn := by
  refine Sequential.read_bind ?_
  dsimp only
  split_ifs
  · exact passive.rules.pure
  · exact passive.rules.update_bind (passive.shut conn _) passive.rules.fail
  · exact passive.rules.pure
  · exact passive.rules.update_bind (passive.probes conn) (passive.rules.each resends)

theorem flushQuerySend : Moves relation relation (QuicConnection.flushQuerySend codec env) conn := by
  refine Sequential.read_bind (passive.rules.bind ?_ fun _ _ _ _ =>
    passive.rules.each fun _ _ _ => passive.send)
  refine .of_after ?_
  rcases takeChunks_cases (run_eq rfl) with ⟨-, same⟩ | ⟨query, chunks, total, -, -, -, -, -, same⟩
  · rw [same]
    exact passive.rules.refl conn
  · rw [same]
    exact passive.asked conn _

theorem close : Moves relation relation (QuicConnection.close codec env) conn := by
  refine Sequential.read_bind ?_
  split_ifs
  · exact passive.rules.pure
  · exact passive.rules.bind passive.attemptSend fun _ middle _ _ =>
      Sequential.update (passive.parted middle)

/-- An operation that takes no datagram and opens no stream only sends. -/
theorem op {op : Op} (undelivered : op.isDatagram = false) (unopened : op.isStart = false)
    (resends : ∀ env, ∀ packet ∈ conn.sent, ∀ state,
      Moves relation relation (resend codec env packet) state) :
    Moves relation relation (op.act codec crypto) conn := by
  cases op with
  | datagram => cases undelivered
  | openStream => cases unopened
  | heard => exact Sequential.update (passive.heard conn)
  | flushAcks env => exact passive.flushAcks
  | runPto env => exact passive.runPto (resends env)
  | flushQuery env => exact passive.flushQuerySend
  | close env => exact passive.close

end Passive

/-- A view that shows nothing of what is sent and of what is kept for it. -/
structure Untold {τ : Type} (view : QuicConnection PacketKey RootStore → τ) : Prop extends Unsent view where
  acks : ∀ self acks, view { self with pendingAcks := acks } = view self
  probes : ∀ self count sent, view { self with ptoCount := count, sent := sent } = view self
  asked : ∀ self query, view { self with queryTx := query } = view self
  shut : ∀ self error, view { self with closed := some error } = view self
  parted : ∀ self, view { self with closeSent := true } = view self

variable {τ : Type} {view : QuicConnection PacketKey RootStore → τ}

theorem Untold.passive (untold : Untold view) : Passive codec (Keeps view) where
  rules := keeps_sequential view
  sends _ _ _ _ _ := (sendPacket_keeps untold.toUnsent).keeps (run_eq rfl)
  acks := untold.acks
  heard conn := untold.probes conn 0 conn.sent
  probes conn := untold.probes conn _ _
  asked := untold.asked
  shut := untold.shut
  parted := untold.parted

theorem op_keeps (untold : Untold view) {op : Op} (undelivered : op.isDatagram = false)
    (unopened : op.isStart = false) : Moves (Keeps view) (Keeps view) (op.act codec crypto) conn :=
  untold.passive.op undelivered unopened fun _ _ _ _ => sendPacket_keeps untold.toUnsent

end Walk

end RecurseX.Doq
