import RecurseX.Doq.Plain
import RecurseX.Doq.Turns

/-!
# The size of Initial datagrams

Padding is a flag of every call that sends. A datagram is known to be sent by what the answer
of the socket to it changes.
-/

namespace RecurseX.Doq

open Library Wire Stateful QuicConnection

variable {PacketKey RootStore : Type}

/-! ## What goes to the socket -/

/-- The socket with another answer to one datagram. -/
def Env.answering (env : Env) (datagram : Bytes) (answer : Result Unit) : Env :=
  { env with sendTo := fun wire => if wire = datagram then answer else env.sendTo wire }

/-- The operation with another answer of the socket to one datagram. -/
def Op.answering (datagram : Bytes) (answer : Result Unit) : Op → Op
  | .datagram env dg => .datagram (env.answering datagram answer) dg
  | .heard => .heard
  | .flushAcks env => .flushAcks (env.answering datagram answer)
  | .runPto env => .runPto (env.answering datagram answer)
  | .flushQuery env => .flushQuery (env.answering datagram answer)
  | .openStream query => .openStream query
  | .close env => .close (env.answering datagram answer)

theorem Op.isDatagram_answering (datagram : Bytes) (answer : Result Unit) (op : Op) :
    (op.answering datagram answer).isDatagram = op.isDatagram := by
  cases op <;> rfl

/-- The turn with another answer of the socket to one datagram. -/
def Turn.answering (datagram : Bytes) (answer : Result Unit) : Turn → Turn
  | .greet env hello => .greet (env.answering datagram answer) hello
  | .packet env dg => .packet (env.answering datagram answer) dg
  | .other op undelivered =>
      .other (op.answering datagram answer)
        ((op.isDatagram_answering datagram answer).trans undelivered)

/-- The datagram is sent in the turn: it matters what the socket answers to it. -/
def Emits (codec : Codec PacketKey) (crypto : Crypto RootStore)
    (conn : QuicConnection PacketKey RootStore) (turn : Turn) (datagram : Bytes) : Prop :=
  ∃ answer, (turn.answering datagram answer).act codec crypto conn ≠ turn.act codec crypto conn

/-- A datagram with an Initial packet. -/
def isInitial : (datagram : Bytes) → Bool
  | first :: _ => first &&& 0x80 != 0 && longType first == .initial
  | [] => false

/-- What the size and the kind of a packet rest on: headers begin with their form and type, a
sealed payload is longer by its tag, and header protection keeps the length, the form, and the
type of a long header. -/
structure Codec.Framed (codec : Codec PacketKey) : Prop where
  long : ∀ {type dcid scid pn token payloadLen header},
    codec.encodeLong type dcid scid pn PN_LEN token payloadLen = .ok header →
      ∃ first, header.head? = some first ∧ first &&& 0x80 ≠ 0 ∧ longType first = type
  short : ∀ {dcid pn keyPhase header}, codec.encodeShort dcid pn PN_LEN keyPhase = .ok header →
    ∃ first, header.head? = some first ∧ first &&& 0x80 = 0
  sealed : ∀ {key pn header plaintext octets},
    codec.sealPacket key pn header plaintext = .ok octets → octets.length = plaintext.length + TAG_LEN
  masked : ∀ {key packet pnOffset isLong wire first},
    codec.protectHeader key packet pnOffset isLong = .ok wire → packet.head? = some first →
      wire.length = packet.length ∧ ∃ other, wire.head? = some other ∧
        other &&& 0x80 = first &&& 0x80 ∧ (isLong = true → longType other = longType first)

/-- A datagram with an Initial packet that is too short. -/
def Short (datagram : Bytes) : Prop :=
  isInitial datagram = true ∧ datagram.length < MIN_INITIAL_DATAGRAM

section Sizes

variable {codec : Codec PacketKey} {crypto : Crypto RootStore} {env : Env}
variable {conn : QuicConnection PacketKey RootStore}

/-! ## One packet -/

/-- The header and the payload of a packet, which is as it was or padded to the minimum. -/
theorem assemble_ok {space : Space} {key : PacketKey} {padInitial : Bool} {fuel : Nat}
    {plaintext header octets : Bytes}
    (assembled : conn.assemble codec space key padInitial fuel plaintext = .ok (header, octets)) :
    ∃ padded, conn.packetHeader codec space (PN_LEN + padded.length + TAG_LEN) = .ok header ∧
      codec.sealPacket key (conn.nextPn.atSpace space) header padded = .ok octets ∧
      (padInitial = true → MIN_INITIAL_DATAGRAM ≤ header.length + padded.length + TAG_LEN) ∧
      (padInitial = false → padded = plaintext) := by
  induction fuel generalizing plaintext with
  | zero => cases assembled
  | succ fuel inductionHypothesis =>
      rw [assemble] at assembled
      obtain ⟨head, made, assembled⟩ := bind_eq_ok.mp assembled
      dsimp only at assembled
      split_ifs at assembled with small
      · obtain ⟨padded, built, sealed, large, -⟩ := inductionHypothesis assembled
        exact ⟨padded, built, sealed, large, fun unpadded => by cases small.1.symm.trans unpadded⟩
      · obtain ⟨sealed, done, assembled⟩ := bind_eq_ok.mp assembled
        cases assembled
        refine ⟨plaintext, made, mapError_eq_ok.mp done, fun pads => ?_, fun _ => rfl⟩
        have enough := not_and.mp small pads
        simp only [PN_LEN] at enough
        omega

/-- How a header begins. -/
theorem packetHeader_begins (framed : codec.Framed) {space : Space} {payloadLen : Nat} {header : Bytes}
    (built : conn.packetHeader codec space payloadLen = .ok header) :
    ∃ first, header.head? = some first ∧
      match space with
      | .initial => first &&& 0x80 ≠ 0 ∧ longType first = .initial
      | .handshake => first &&& 0x80 ≠ 0 ∧ longType first = .handshake
      | .application => first &&& 0x80 = 0 := by
  unfold packetHeader at built
  cases space with
  | initial => exact framed.long (mapError_eq_ok.mp built)
  | handshake => exact framed.long (mapError_eq_ok.mp built)
  | application => exact framed.short (mapError_eq_ok.mp built)

/-- The size and the kind of a packet that is ready to be sent. -/
theorem wirePacket_ok (framed : codec.Framed) {space : Space} {key : PacketKey}
    {frames : List Frame} {padInitial : Bool} {wire : Bytes}
    (made : conn.wirePacket codec space key frames padInitial = .ok wire) :
    (isInitial wire = true → space = .initial) ∧
      (padInitial = true → MIN_INITIAL_DATAGRAM ≤ wire.length) ∧
      (padInitial = false → ∃ header,
        conn.packetHeader codec space
          (PN_LEN + (frames.flatMap codec.encodeFrame).length + TAG_LEN) = .ok header ∧
        wire.length = header.length + (frames.flatMap codec.encodeFrame).length + TAG_LEN) := by
  unfold wirePacket at made
  obtain ⟨⟨header, octets⟩, assembled, made⟩ := bind_eq_ok.mp made
  obtain ⟨padded, built, sealed, large, same⟩ := assemble_ok assembled
  obtain ⟨first, begins, kind⟩ := packetHeader_begins framed built
  have starts : (header ++ octets).head? = some first := by rw [List.head?_append, begins]; rfl
  obtain ⟨size, other, head, form, type⟩ := framed.masked (mapError_eq_ok.mp made) starts
  rw [List.length_append, framed.sealed sealed, ← Nat.add_assoc] at size
  refine ⟨fun initial => ?_, fun pads => size ▸ large pads, fun bare => ?_⟩
  · cases wire with
    | nil => cases head
    | cons octet rest =>
        obtain rfl : octet = other := by simpa using head
        simp only [isInitial, Bool.and_eq_true, bne_iff_ne, ne_eq, beq_iff_eq] at initial
        cases space with
        | initial => rfl
        | handshake => cases kind.2.symm.trans ((type rfl).symm.trans initial.2)
        | application => exact absurd (form.trans kind) initial.1
  · obtain rfl := same bare
    exact ⟨header, built, size⟩

/-! ## A short datagram is not sent -/

variable {datagram : Bytes} {answer : Result Unit}

/-- What the socket answers to a datagram matters to a packet that is this datagram. -/
theorem sendPacket_answering {space : Space} {frames : List Frame} {padInitial : Bool}
    (other : ∀ key wire, (Ledger.handing conn space frames).wirePacket codec space key frames
      padInitial = .ok wire → wire ≠ datagram) :
    sendPacket codec (env.answering datagram answer) space frames padInitial conn =
      sendPacket codec env space frames padInitial conn := by
  unfold sendPacket QuicConnection.note
  rw [update_bind_run, read_bind_run, update_bind_run, read_bind_run]
  refine bind_congr_run fun key middle keyed => bind_congr_run fun wire last made => ?_
  obtain ⟨built, -⟩ := Prod.mk.inj made
  have unheard : (env.answering datagram answer).sendTo wire = env.sendTo wire :=
    if_neg (other key wire built)
  rw [unheard]
  rfl

/-- What comes of a packet that is ready is what the socket answers. -/
theorem sendPacket_outcome {space : Space} {frames : List Frame} {padInitial : Bool}
    {key : PacketKey} {wire : Bytes} (keyed : conn.writeKey space = .ok key)
    (made : (Ledger.handing conn space frames).wirePacket codec space key frames padInitial =
      .ok wire) :
    (sendPacket codec env space frames padInitial conn).1 =
      (env.sendTo wire).mapError fun error => .io ("doq send: " ++ error.msg) := by
  have kept : (Ledger.handing conn space frames).writeKey space = .ok key := keyed
  unfold sendPacket QuicConnection.note
  rw [update_bind_run, read_bind_run]
  change ((lift ((Ledger.handing conn space frames).writeKey space) >>= _) _).1 = _
  rw [kept, lift_ok_bind_run]
  change ((lift ((Ledger.handing conn space frames).wirePacket codec space key frames padInitial) >>=
    _) _).1 = _
  rw [made, lift_ok_bind_run]
  cases env.sendTo wire <;> rfl

/-- So a packet that is ready is sent. -/
theorem sendPacket_emits {space : Space} {frames : List Frame} {padInitial : Bool}
    {key : PacketKey} {wire : Bytes} (keyed : conn.writeKey space = .ok key)
    (made : (Ledger.handing conn space frames).wirePacket codec space key frames padInitial =
      .ok wire) :
    ∃ answer, (sendPacket codec (env.answering wire answer) space frames padInitial conn).1 ≠
      (sendPacket codec env space frames padInitial conn).1 := by
  have heard (answer : Result Unit) : (env.answering wire answer).sendTo wire = answer := if_pos rfl
  rcases took : env.sendTo wire with error | _
  · refine ⟨.ok (), ?_⟩
    rw [sendPacket_outcome keyed made, sendPacket_outcome keyed made, heard, took]
    exact nofun
  · refine ⟨.error (.internal "unsent"), ?_⟩
    rw [sendPacket_outcome keyed made, sendPacket_outcome keyed made, heard, took]
    exact nofun

/-- A packet that is not Initial, or that is padded, is no short datagram. -/
theorem sendPacket_short (framed : codec.Framed) (short : Short datagram) {space : Space}
    {frames : List Frame} {padInitial : Bool} (padded : space = .initial → padInitial = true) :
    (sendPacket codec (env.answering datagram answer) space frames padInitial :
        Act PacketKey RootStore Unit) =
      sendPacket codec env space frames padInitial := by
  funext conn
  refine sendPacket_answering fun key wire made => ?_
  rintro rfl
  obtain ⟨kind, large, -⟩ := wirePacket_ok framed made
  exact absurd (large (padded (kind short.1))) (Nat.not_le.mpr short.2)

section Unheard

variable (framed : codec.Framed) (short : Short datagram)
include framed short

theorem sendPacket_padded {space : Space} {frames : List Frame} :
    (sendPacket codec (env.answering datagram answer) space frames true :
        Act PacketKey RootStore Unit) = sendPacket codec env space frames true :=
  sendPacket_short framed short fun _ => rfl

theorem sendPacket_handshake {frames : List Frame} {padInitial : Bool} :
    (sendPacket codec (env.answering datagram answer) .handshake frames padInitial :
        Act PacketKey RootStore Unit) = sendPacket codec env .handshake frames padInitial :=
  sendPacket_short framed short fun initial => by cases initial

theorem sendPacket_application {frames : List Frame} {padInitial : Bool} :
    (sendPacket codec (env.answering datagram answer) .application frames padInitial :
        Act PacketKey RootStore Unit) = sendPacket codec env .application frames padInitial :=
  sendPacket_short framed short fun initial => by cases initial

theorem completeHandshake_short {completed : Completed} :
    (completeHandshake codec (env.answering datagram answer) completed :
        Act PacketKey RootStore Unit) = completeHandshake codec env completed := by
  unfold completeHandshake sendCrypto
  simp only [sendPacket_handshake framed short]

theorem feedMessages_short {space : Space} {fuel : Nat} :
    feedMessages codec (env.answering datagram answer) crypto space fuel =
      feedMessages codec env crypto space fuel := by
  induction fuel with
  | zero => rfl
  | succ fuel inductionHypothesis =>
      have after (result : Option Completed) :
          (afterMessage codec (env.answering datagram answer) result :
            Act PacketKey RootStore Unit) = afterMessage codec env result := by
        cases result with
        | none => rfl
        | some completed => exact completeHandshake_short framed short
      unfold feedMessages feedMessage
      simp only [inductionHypothesis, after]

theorem onCrypto_short {space : Space} {offset : Nat} {data : Bytes} :
    onCrypto codec (env.answering datagram answer) crypto space offset data =
      onCrypto codec env crypto space offset data := by
  unfold onCrypto
  simp only [feedMessages_short framed short]

theorem replenish_short {used limit : Nat} {announce : Nat → Frame}
    {put : Nat → QuicConnection PacketKey RootStore → QuicConnection PacketKey RootStore} :
    replenish codec (env.answering datagram answer) used limit announce put =
      replenish codec env used limit announce put := by
  unfold replenish
  simp only [sendPacket_application framed short]

theorem onStream_short {streamId offset : Nat} {data : Bytes} {fin : Bool} :
    (onStream codec (env.answering datagram answer) streamId offset data fin :
        Act PacketKey RootStore Unit) = onStream codec env streamId offset data fin := by
  unfold onStream drainUni maybeReplenishUni onResponse maybeReplenishWindows
  simp only [replenish_short framed short, sendPacket_application framed short]

theorem processFrame_short {space : Space} {frame : Frame} :
    processFrame codec (env.answering datagram answer) crypto space frame =
      processFrame codec env crypto space frame := by
  unfold processFrame
  cases frame with
  | crypto => simp only [onCrypto_short framed short]
  | stream => simp only [onStream_short framed short]
  | pathChallenge => simp only [sendPacket_application framed short]
  | newConnectionId => simp only [sendPacket_application framed short]
  | maxStreams uni limit => cases uni <;> rfl
  | _ => rfl

theorem processPlaintext_short {space : Space} {pn : Nat} {plaintext : Bytes} :
    processPlaintext codec (env.answering datagram answer) crypto space pn plaintext =
      processPlaintext codec env crypto space pn plaintext := by
  unfold processPlaintext
  rw [show processFrame codec (env.answering datagram answer) crypto space =
    processFrame codec env crypto space from funext fun _ => processFrame_short framed short]

theorem greet_short {hello : Bytes} :
    (greet codec (env.answering datagram answer) hello : Act PacketKey RootStore Unit) =
      greet codec env hello := by
  unfold greet sendCrypto
  simp only [sendPacket_padded framed short]

theorem processRetry_short {dg : Bytes} :
    (processRetry codec (env.answering datagram answer) dg : Act PacketKey RootStore Unit) =
      processRetry codec env dg := by
  unfold processRetry applyRetry sendCrypto
  simp only [sendPacket_padded framed short]
  rfl

theorem firstPacket_short {dg : Bytes} :
    firstPacket codec (env.answering datagram answer) crypto dg =
      firstPacket codec env crypto dg := by
  unfold firstPacket processPacket
  simp only [processRetry_short framed short, processPlaintext_short framed short]

/-- Acknowledgements in the Initial space are padded as long as it is open. -/
theorem flushAcks_short :
    (flushAcks codec (env.answering datagram answer) : Act PacketKey RootStore Unit) =
      flushAcks codec env := by
  have one (space : Space) :
      (flushAcksOf codec (env.answering datagram answer) space : Act PacketKey RootStore Unit) =
        flushAcksOf codec env space := by
    funext conn
    unfold flushAcksOf
    rw [read_bind_run, read_bind_run]
    split_ifs with none late
    · rfl
    · rfl
    · rw [sendPacket_short framed short fun initial => by simpa [initial] using late]
  unfold flushAcks
  simp only [one]

theorem flushQuerySend_short :
    (flushQuerySend codec (env.answering datagram answer) : Act PacketKey RootStore Unit) =
      flushQuerySend codec env := by
  unfold flushQuerySend
  simp only [sendPacket_application framed short]

theorem close_short :
    (close codec (env.answering datagram answer) : Act PacketKey RootStore Unit) =
      close codec env := by
  unfold close
  simp only [sendPacket_application framed short]

/-! ## Probes -/

/-- A probe timeout that is due, and not the last one. -/
def Probes (env : Env) (conn : QuicConnection PacketKey RootStore) : Prop :=
  conn.ptoCount < MAX_PTO_COUNT ∧
    (conn.sent.map (·.sent)).foldl max 0 + conn.ptoTimeout ≤ env.now

/-- A packet of the list that is large enough for the Initial space as it is. -/
def Large (codec : Codec PacketKey) (conn : QuicConnection PacketKey RootStore)
    (packet : SentPacket) : Prop :=
  packet.space = .initial → ∀ pn header,
    codec.encodeLong .initial conn.serverCid conn.localCid pn PN_LEN conn.retryToken
        (PN_LEN + (packet.frames.flatMap codec.encodeFrame).length + TAG_LEN) = .ok header →
      MIN_INITIAL_DATAGRAM ≤
        header.length + (packet.frames.flatMap codec.encodeFrame).length + TAG_LEN

omit framed short in
/-- What a header is made of stays the same over a packet. -/
theorem Large.sendPacket {after : QuicConnection PacketKey RootStore} {packet : SentPacket}
    {space : Space} {frames : List Frame} {padInitial : Bool} {outcome : Except Error Unit}
    (ran : QuicConnection.sendPacket codec env space frames padInitial conn = (outcome, after))
    (large : Large codec conn packet) : Large codec after packet := by
  obtain ⟨key, -, -, rfl⟩ | ⟨error, -, rfl⟩ := Ledger.sendPacket_cases ran
  · exact large
  · exact large

/-- A packet that is large enough is no short datagram when it is sent again. -/
theorem resend_short {packet : SentPacket} (large : Large codec conn packet) :
    resend codec (env.answering datagram answer) packet conn = resend codec env packet conn := by
  refine sendPacket_answering fun key wire made => ?_
  rintro rfl
  obtain ⟨kind, -, bare⟩ := wirePacket_ok framed made
  obtain ⟨header, built, size⟩ := bare rfl
  have initial := kind short.1
  unfold packetHeader at built
  rw [initial] at built
  have enough := large initial _ header (mapError_eq_ok.mp built)
  rw [← size] at enough
  exact absurd enough (Nat.not_le.mpr short.2)

theorem each_resend_short {packets : List SentPacket}
    (large : ∀ packet ∈ packets, Large codec conn packet) :
    each (resend codec (env.answering datagram answer)) packets conn =
      each (resend codec env) packets conn := by
  induction packets generalizing conn with
  | nil => rfl
  | cons packet packets inductionHypothesis =>
      refine (bind_run_eq (resend_short framed short (large packet List.mem_cons_self))).trans
        (bind_congr_run fun _ middle ran => inductionHypothesis fun later member => ?_)
      exact (large later (List.mem_cons_of_mem _ member)).sendPacket ran

theorem runPto_short
    (large : Probes env conn → ∀ packet ∈ conn.sent, Large codec conn packet) :
    runPto codec (env.answering datagram answer) conn = runPto codec env conn := by
  unfold runPto
  rw [read_bind_run, read_bind_run]
  have clock : (env.answering datagram answer).now = env.now := rfl
  simp only [clock]
  split_ifs with _ often early
  · rfl
  · rfl
  · rfl
  · rw [update_bind_run, update_bind_run]
    exact each_resend_short framed short (large ⟨Nat.not_le.mp often, Nat.not_lt.mp early⟩)

/-- The turn sends no packet again that is too short for the Initial space. -/
def Meets (codec : Codec PacketKey) (conn : QuicConnection PacketKey RootStore) : Turn → Prop
  | .other (.runPto env) _ => Probes env conn → ∀ packet ∈ conn.sent, Large codec conn packet
  | _ => True

/-- What is answered to a short datagram does not matter to the turn. -/
theorem turn_short {turn : Turn} (meets : Meets codec conn turn) :
    (turn.answering datagram answer).act codec crypto conn = turn.act codec crypto conn := by
  cases turn with
  | greet => exact congrFun (greet_short framed short) conn
  | packet => exact bind_run_eq (congrFun (firstPacket_short framed short) conn)
  | other op undelivered =>
      cases op with
      | datagram => cases undelivered
      | heard => rfl
      | flushAcks => exact congrFun (flushAcks_short framed short) conn
      | runPto => exact runPto_short framed short meets
      | flushQuery => exact congrFun (flushQuerySend_short framed short) conn
      | openStream => rfl
      | close => exact congrFun (close_short framed short) conn

end Unheard

end Sizes

/-- **The size of Initial datagrams.** In every run in which no probe timeout sends an Initial
packet again that is below the minimum with its header and tag, every datagram that is sent
and carries an Initial packet has the minimum size. -/
theorem initial_size (codec : Codec PacketKey) (framed : codec.Framed) (crypto : Crypto RootStore)
    (conn : QuicConnection PacketKey RootStore) (turns : List Turn)
    (meets : ∀ earlier turn later, turns = earlier ++ turn :: later →
      Meets codec (turnAll codec crypto earlier conn) turn) :
    ∀ earlier turn later datagram, turns = earlier ++ turn :: later →
      Emits codec crypto (turnAll codec crypto earlier conn) turn datagram →
      isInitial datagram = true → MIN_INITIAL_DATAGRAM ≤ datagram.length := by
  intro earlier turn later datagram run ⟨answer, matters⟩ initial
  by_contra small
  exact matters (turn_short framed ⟨initial, Nat.not_le.mp small⟩ (meets earlier turn later run))

/-! ## Sample datagrams -/

namespace Plain

theorem codec_framed : codec.Framed where
  long := by
    intro type dcid scid pn token payloadLen header built
    cases built
    refine ⟨_, rfl, ?_⟩
    cases type <;> decide
  short := by
    intro dcid pn keyPhase header built
    cases built
    exact ⟨_, rfl, by decide⟩
  sealed := by
    intro key pn header plaintext octets done
    cases done
    simp [tagOf]
  masked := by
    intro key packet pnOffset isLong wire first done starts
    cases done
    exact ⟨rfl, first, starts, rfl, fun _ => rfl⟩

/-- The datagram with the ClientHello, padded or not. -/
def clientHello (padInitial : Bool) (conn : QuicConnection Bytes Bytes) : Bytes :=
  (conn.wirePacket codec .initial conn.initialWrite [.crypto 0 hello] padInitial).toOption.getD []

/-- A socket when the first probe timeout is over. -/
def lateEnv : Env := { env with now := INITIAL_PTO }

end Plain

/-- The datagram with the ClientHello is large enough. -/
theorem hello_large : MIN_INITIAL_DATAGRAM ≤ (Plain.clientHello true Plain.connection).length :=
  initial_size Plain.codec Plain.codec_framed Sample.crypto Plain.connection
    [.greet Plain.env Plain.hello]
    (fun earlier turn later run => by
      cases earlier with
      | nil =>
          cases run
          trivial
      | cons => simp at run)
    [] (.greet Plain.env Plain.hello) [] (Plain.clientHello true Plain.connection) rfl
    ⟨.error (.internal "unsent"), fun same =>
      absurd (congrArg (·.1) same) (by decide +kernel)⟩
    (by decide +kernel)

/-- A probe timeout sends the ClientHello again in a datagram that is too short. -/
theorem hello_resent_short :
    QuicConnection.fresh Plain.codec Sample.cfg Plain.env.entropy [1] [2] =
      .ok (Plain.hello, Plain.connection) ∧
    Emits Plain.codec Sample.crypto
      (turnAll Plain.codec Sample.crypto [.greet Plain.env Plain.hello] Plain.connection)
      (.other (.runPto Plain.lateEnv) rfl) (Plain.clientHello false Plain.started) ∧
    isInitial (Plain.clientHello false Plain.started) = true ∧
    ¬ MIN_INITIAL_DATAGRAM ≤ (Plain.clientHello false Plain.started).length :=
  ⟨Plain.fresh_connection,
    ⟨.error (.internal "unsent"), fun same => absurd (congrArg (·.1) same) (by decide +kernel)⟩,
    by decide, by decide +kernel⟩

end RecurseX.Doq
